import NodeWebrtc.Vendors.TtsStreams

/-! # The WAV body of the Groq client

`WavStream` takes a WAV body as it arrives, walks its chunks until `data` and gives the payload.
The sizes of `RIFF` and `data` are ignored: the payload ends where the body ends.
-/

namespace NodeWebrtc.Vendors.Groq

inductive State where
  | riff
  | chunkHeader
  | fmt (len : Nat)
  | skip (left : Nat)
  | data

/-- The bytes of a head that is taken whole. -/
def State.want : State → Nat
  | .riff => 12
  | .chunkHeader => 8
  | .fmt len => len
  | _ => 0

structure WavStream where
  state : State
  head : List UInt8
  rate : Option Nat

def fromLeBytes (bytes : List UInt8) : Nat := bytes.foldr (fun byte n => byte.toNat + 256 * n) 0

def WAVE : List UInt8 := [87, 65, 86, 69]

def FMT : List UInt8 := [102, 109, 116, 32]

def DATA : List UInt8 := [100, 97, 116, 97]

namespace WavStream

def new : WavStream := ⟨.riff, [], none⟩

/-- The branches of `feed` for a head that is whole; the others have none. -/
def parse (s : WavStream) : Except String WavStream :=
  match s.state with
  | .riff =>
    if s.head.take 4 ≠ RIFF ∨ (s.head.drop 8).take 4 ≠ WAVE then
      .error "Groq TTS response is not a WAV file"
    else .ok ⟨.chunkHeader, [], s.rate⟩
  | .chunkHeader =>
    let size := fromLeBytes ((s.head.drop 4).take 4)
    let id := s.head.take 4
    if id = FMT then .ok ⟨.fmt size, [], s.rate⟩
    else if id = DATA then
      if s.rate.isNone then .error "Groq TTS WAV has a data chunk before its fmt chunk"
      else .ok ⟨.data, [], s.rate⟩
    else .ok ⟨.skip (size + size % 2), [], s.rate⟩
  | .fmt len =>
    if len < 16 then .error ("Groq TTS WAV fmt chunk is " ++ toString len ++ " bytes")
    else
      let tag := fromLeBytes (s.head.take 2)
      let channels := fromLeBytes ((s.head.drop 2).take 2)
      let rate := fromLeBytes ((s.head.drop 4).take 4)
      let bits := fromLeBytes ((s.head.drop 14).take 2)
      if tag ≠ 1 ∨ bits ≠ 16 then
        .error ("Groq TTS WAV is not 16-bit PCM (format tag " ++ toString tag ++ ", " ++
          toString bits ++ " bits)")
      else if channels ≠ 1 then
        .error ("Groq TTS WAV has " ++ toString channels ++ " channels; only mono is supported")
      else if rate = 0 then .error "Groq TTS WAV has sample rate 0"
      else .ok ⟨if len % 2 = 1 then .skip 1 else .chunkHeader, [], some rate⟩
  | _ => .error "no head"

theorem parse_ok {s t : WavStream} (h : s.parse = .ok t) : 0 < s.state.want ∧ t.head = [] := by
  unfold parse at h
  unfold State.want
  cases hstate : s.state <;> simp only [hstate] at h ⊢
  case skip | data => cases h
  all_goals split_ifs at h <;> cases h <;> exact ⟨by omega, rfl⟩

/-- Fills the head from `rest`; `feed_fits` says that the subtraction does not underflow. -/
def take (s : WavStream) (rest : List UInt8) : WavStream × List UInt8 :=
  let need := s.state.want - s.head.length
  (⟨s.state, s.head ++ rest.take need, s.rate⟩, rest.drop need)

/-- A round that takes no byte makes this smaller. -/
def rank (s : WavStream) : Nat := 2 * s.head.length + match s.state with | .skip _ => 1 | _ => 0

/-- Only `data` gives payload, and it takes all the rest. -/
def feed (s : WavStream) (rest : List UInt8) : Except String (WavStream × List UInt8) :=
  if rest = [] then .ok (s, [])
  else
    match _hstate : s.state with
    | .data => .ok (s, rest)
    | .skip left =>
      if left ≤ rest.length then feed ⟨.chunkHeader, s.head, s.rate⟩ (rest.drop left)
      else .ok (⟨.skip (left - rest.length), s.head, s.rate⟩, [])
    | _ =>
      let taken := s.take rest
      if taken.1.head.length = s.state.want then
        match _hparse : taken.1.parse with
        | .error message => .error message
        | .ok t => feed t taken.2
      else .ok (taken.1, [])
termination_by (rest.length, s.rank)
decreasing_by
  · simp only [Prod.lex_def, rank, _hstate, List.length_drop]
    omega
  · obtain ⟨hwant : 0 < s.state.want, ht⟩ := parse_ok _hparse
    have hrest : 0 < rest.length := List.length_pos_of_ne_nil ‹_›
    have hone : t.rank ≤ 1 := by
      unfold rank
      split <;> simp [ht]
    have hrank : 2 * s.head.length ≤ s.rank := Nat.le_add_right _ _
    simp only [Prod.lex_def, take, List.length_drop]
    omega

theorem feed_nil (s : WavStream) : s.feed [] = .ok (s, []) := by
  rw [feed, if_pos rfl]

theorem feed_data (rate : Option Nat) (head rest : List UInt8) :
    (⟨.data, head, rate⟩ : WavStream).feed rest = .ok (⟨.data, head, rate⟩, rest) := by
  by_cases hne : rest = []
  · rw [hne, feed_nil]
  · rw [feed, if_neg hne]

theorem feed_skip {s : WavStream} {left : Nat} (hstate : s.state = .skip left) {rest : List UInt8}
    (hne : rest ≠ []) : s.feed rest =
      if left ≤ rest.length then (⟨.chunkHeader, s.head, s.rate⟩ : WavStream).feed (rest.drop left)
      else .ok (⟨.skip (left - rest.length), s.head, s.rate⟩, []) := by
  obtain ⟨state, head, rate⟩ := s
  cases hstate
  rw [feed, if_neg hne]

theorem feed_head {s : WavStream} (hdata : s.state ≠ .data) (hskip : ∀ left, s.state ≠ .skip left)
    {rest : List UInt8} (hne : rest ≠ []) :
    s.feed rest =
      if (s.take rest).1.head.length = s.state.want then
        (s.take rest).1.parse.bind fun t => t.feed (s.take rest).2
      else .ok ((s.take rest).1, []) := by
  rw [feed, if_neg hne]
  split
  · exact absurd ‹_› hdata
  · exact absurd ‹_› (hskip _)
  · dsimp only
    split
    · split <;> simp [*, Except.bind]
    · rfl

variable {s t : WavStream} {a : List UInt8}

theorem take_full (h : (s.take a).1.head.length = s.state.want) (b : List UInt8) :
    s.take (a ++ b) = ((s.take a).1, (s.take a).2 ++ b) := by
  simp only [take, List.length_append, List.length_take] at h ⊢
  rw [List.take_append_of_le_length (by omega), List.drop_append_of_le_length (by omega)]

/-- A head that is not whole goes on in what comes later. -/
theorem take_more (h : (s.take a).1.head.length ≠ s.state.want) (b : List UInt8) :
    (s.take (a ++ b)).1 = ((s.take a).1.take b).1 ∧
      ((s.take (a ++ b)).1.head.length = s.state.want →
        (s.take (a ++ b)).2 = ((s.take a).1.take b).2) := by
  simp only [take, List.length_append, List.length_take, List.take_append, List.drop_append] at h ⊢
  have hneed : s.state.want - s.head.length - a.length =
      s.state.want - (s.head.length + min (s.state.want - s.head.length) a.length) := by
    omega
  rw [hneed, List.append_assoc]
  refine ⟨rfl, fun hfull => ?_⟩
  rw [List.drop_eq_nil_of_le (by omega), List.nil_append]

theorem feed_fits {pcm : List UInt8} (hs : s.head.length ≤ s.state.want)
    (h : s.feed a = .ok (t, pcm)) : t.head.length ≤ t.state.want := by
  fun_induction feed s a with
  | case1 s | case2 s a hne hstate =>
    cases h
    exact hs
  | case3 s a hne left hstate hle ih =>
    rw [hstate] at hs
    exact ih (Nat.le_trans hs (Nat.zero_le _)) h
  | case4 s a hne left hstate hle =>
    cases h
    rwa [hstate] at hs
  | case5 s a hne taken hlen message hparse hdata hskip => cases h
  | case6 s a hne taken hlen t hparse hdata hskip ih =>
    exact ih ((parse_ok hparse).2 ▸ Nat.zero_le _) h
  | case7 s a hne taken hlen hdata hskip =>
    cases h
    simp only [taken, take, List.length_append, List.length_take]
    omega

/-- The bytes that come later are read by what the earlier ones left. -/
theorem feed_append (s : WavStream) (a b : List UInt8) :
    s.feed (a ++ b) = (s.feed a).bind fun t => (t.1.feed b).map fun u => (u.1, t.2 ++ u.2) := by
  have hlater (t : WavStream) : ((Except.ok (t, [])).bind fun t =>
      (t.1.feed b).map fun u => (u.1, t.2 ++ u.2)) = t.feed b := by
    simp only [Except.bind]
    cases t.feed b <;> rfl
  fun_induction feed s a with
  | case1 s => exact (hlater s).symm
  | case2 s a hne hstate =>
    obtain ⟨state, head, rate⟩ := s
    cases hstate
    simp [feed_data, Except.bind, Except.map]
  | case3 s a hne left hstate hle ih =>
    rw [feed_skip hstate (by simp [hne]), if_pos (by rw [List.length_append]; omega),
      List.drop_append_of_le_length hle, ih]
  | case4 s a hne left hstate hle =>
    -- the skip goes on in what comes later
    rw [hlater]
    by_cases hb : b = []
    · rw [hb, List.append_nil, feed_nil, feed_skip hstate hne, if_neg hle]
    · rw [feed_skip hstate (by simp [hne]), feed_skip rfl hb, List.drop_append,
        List.drop_eq_nil_of_le (by omega), List.nil_append, List.length_append]
      simp only [Nat.sub_le_iff_le_add', Nat.sub_sub]
  | case5 s a hne taken hlen message hparse hdata hskip =>
    rw [feed_head hdata hskip (by simp [hne]), take_full hlen, if_pos hlen, hparse]
    rfl
  | case6 s a hne taken hlen t hparse hdata hskip ih =>
    rw [feed_head hdata hskip (by simp [hne]), take_full hlen, if_pos hlen, hparse, ← ih]
    rfl
  | case7 s a hne taken hlen hdata hskip =>
    rw [hlater]
    by_cases hb : b = []
    · rw [hb, List.append_nil, feed_nil, feed_head hdata hskip hne, if_neg hlen]
    · obtain ⟨hhead, hrest⟩ := take_more hlen b
      rw [feed_head hdata hskip (by simp [hne]), @feed_head taken.1 hdata hskip _ hb, hhead]
      refine ite_congr rfl (fun hfull => ?_) fun _ => rfl
      rw [hrest (hhead ▸ hfull)]

/-- A body fed in pieces, up to the first error. -/
def feedAll (s : WavStream) : List (List UInt8) → Except String (WavStream × List UInt8)
  | [] => .ok (s, [])
  | piece :: pieces =>
    (s.feed piece).bind fun t => (t.1.feedAll pieces).map fun u => (u.1, t.2 ++ u.2)

/-- However a body is cut, the payload, the rate and the first error are those of the body fed at
once, from every state. -/
theorem feedAll_flatten (s : WavStream) (pieces : List (List UInt8)) :
    s.feedAll pieces = s.feed pieces.flatten := by
  induction pieces generalizing s with
  | nil => exact (feed_nil s).symm
  | cons piece pieces ih =>
    rw [feedAll, List.flatten_cons, feed_append]
    simp only [ih]

/-! ## Files -/

theorem feed_whole {state : State} {rate : Option Nat} {head : List UInt8}
    (hparse : (⟨state, head, rate⟩ : WavStream).parse = .ok t) (hlen : head.length = state.want)
    (rest : List UInt8) : (⟨state, [], rate⟩ : WavStream).feed (head ++ rest) = t.feed rest := by
  have hwant : 0 < state.want := (parse_ok hparse).1
  have hdata : state ≠ .data := fun h => by simp [h, State.want] at hwant
  have hskip (left : Nat) : state ≠ .skip left := fun h => by simp [h, State.want] at hwant
  have hne : head ++ rest ≠ [] := List.ne_nil_of_length_pos (by simp; omega)
  rw [feed_head hdata hskip hne]
  simp [take, ← hlen, hparse, Except.bind]

end WavStream

/-- Four bytes of a header. -/
structure Word where
  a : UInt8
  b : UInt8
  c : UInt8
  d : UInt8

def Word.bytes (w : Word) : List UInt8 := [w.a, w.b, w.c, w.d]

/-- A chunk that the reader skips, with its pad byte. -/
structure Chunk where
  id : Word
  size : Word
  body : List UInt8
  other : id.bytes ≠ FMT ∧ id.bytes ≠ DATA
  padded : body.length = fromLeBytes size.bytes + fromLeBytes size.bytes % 2

def Chunk.bytes (c : Chunk) : List UInt8 := c.id.bytes ++ c.size.bytes ++ c.body

/-- A mono file of 16 bits with any sizes, and any chunks around its `fmt `. -/
structure Wav where
  riffSize : Word
  before : List Chunk
  rate : Word
  byteRate : Word
  blockAlign : UInt8 × UInt8
  after : List Chunk
  dataSize : Word
  pcm : List UInt8
  positive : fromLeBytes rate.bytes ≠ 0

def Wav.bytes (w : Wav) : List UInt8 :=
  RIFF ++ w.riffSize.bytes ++ WAVE ++ (w.before.flatMap Chunk.bytes ++
    (FMT ++ [16, 0, 0, 0] ++ ([1, 0, 1, 0] ++ w.rate.bytes ++ w.byteRate.bytes ++
      [w.blockAlign.1, w.blockAlign.2, 16, 0] ++ (w.after.flatMap Chunk.bytes ++
        (DATA ++ w.dataSize.bytes ++ w.pcm)))))

namespace WavStream

theorem feed_chunks (cs : List Chunk) (rate : Option Nat) {rest : List UInt8} (hne : rest ≠ []) :
    (⟨.chunkHeader, [], rate⟩ : WavStream).feed (cs.flatMap Chunk.bytes ++ rest) =
      (⟨.chunkHeader, [], rate⟩ : WavStream).feed rest := by
  induction cs with
  | nil => rfl
  | cons c cs ih =>
    have hparse : (⟨.chunkHeader, c.id.bytes ++ c.size.bytes, rate⟩ : WavStream).parse =
        .ok ⟨.skip c.body.length, [], rate⟩ := by
      have hother := c.other
      rw [c.padded]
      simp_all [parse, Word.bytes]
    rw [List.flatMap_cons, List.append_assoc, Chunk.bytes, List.append_assoc (c.id.bytes ++ _),
      feed_whole hparse rfl, feed_skip rfl (by simp [hne]), List.drop_left, if_pos (by simp), ih]

/-- The payload of a file is what follows the header of `data`, and its rate that of `fmt `. -/
theorem feed_wav (w : Wav) :
    WavStream.new.feed w.bytes = .ok (⟨.data, [], some (fromLeBytes w.rate.bytes)⟩, w.pcm) := by
  have hriff : (⟨.riff, RIFF ++ w.riffSize.bytes ++ WAVE, none⟩ : WavStream).parse =
      .ok ⟨.chunkHeader, [], none⟩ := rfl
  have hheader : (⟨.chunkHeader, FMT ++ [16, 0, 0, 0], none⟩ : WavStream).parse =
      .ok ⟨.fmt 16, [], none⟩ := rfl
  have hfmt : (⟨.fmt 16, [1, 0, 1, 0] ++ w.rate.bytes ++ w.byteRate.bytes ++
      [w.blockAlign.1, w.blockAlign.2, 16, 0], none⟩ : WavStream).parse =
        .ok ⟨.chunkHeader, [], some (fromLeBytes w.rate.bytes)⟩ := if_neg w.positive
  have hdata : (⟨.chunkHeader, DATA ++ w.dataSize.bytes, some (fromLeBytes w.rate.bytes)⟩ :
      WavStream).parse = .ok ⟨.data, [], some (fromLeBytes w.rate.bytes)⟩ := rfl
  rw [Wav.bytes, new, feed_whole hriff rfl, feed_chunks _ _ (by simp [FMT]),
    feed_whole hheader rfl, feed_whole hfmt rfl, feed_chunks _ _ (by simp [DATA]),
    feed_whole hdata rfl, feed_data]

end WavStream

end NodeWebrtc.Vendors.Groq
