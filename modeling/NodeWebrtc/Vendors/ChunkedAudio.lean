import Mathlib.Data.List.Infix
import NodeWebrtc.Vendors.TtsStreams

/-! # Streamed speech and the vendor's chunks

The HTTP loops carry a split sample over, so the chunks of a body do not matter. A socket loop
drops the odd byte of a message from what it sends, so there the messages matter, up to a tail
that repeats one byte.
-/

namespace NodeWebrtc.Vendors

/-! ## Samples -/

theorem monoS16leToStereo_append {front : List UInt8} (h : front.length % 2 = 0)
    (back : List UInt8) :
    monoS16leToStereo (front ++ back) = monoS16leToStereo front ++ monoS16leToStereo back := by
  induction front using monoS16leToStereo.induct with
  | case1 lo hi rest ih =>
    have hrest : rest.length % 2 = 0 := by
      simp only [List.length_cons] at h
      omega
    simp [monoS16leToStereo, ih hrest]
  | case2 front hshort =>
    cases front with
    | nil => rfl
    | cons lo rest =>
      cases rest with
      | nil => simp at h
      | cons hi rest => exact absurd rfl (hshort lo hi rest)

theorem monoS16leToStereo_odd {front : List UInt8} (h : front.length % 2 = 0) (last : UInt8) :
    monoS16leToStereo (front ++ [last]) = monoS16leToStereo front := by
  rw [monoS16leToStereo_append h]
  exact List.append_nil _

theorem length_monoS16leToStereo (mono : List UInt8) :
    (monoS16leToStereo mono).length = 4 * (mono.length / 2) := by
  induction mono using monoS16leToStereo.induct with
  | case1 lo hi rest ih =>
    simp only [monoS16leToStereo, List.length_cons, ih]
    omega
  | case2 mono hshort =>
    match mono, hshort with
    | [], _ => rfl
    | [lo], _ => simp [monoS16leToStereo]
    | lo :: hi :: rest, hshort => exact absurd rfl (hshort lo hi rest)

theorem monoS16leToStereo_replicate (n : Nat) (b : UInt8) :
    monoS16leToStereo (b :: List.replicate (2 * n) b) =
      monoS16leToStereo (List.replicate (2 * n) b) := by
  rw [← List.replicate_succ, List.replicate_succ']
  exact monoS16leToStereo_odd (by rw [List.length_replicate]; omega) b

theorem forall_eq_of_shift {b : UInt8} {w : List UInt8} (heven : w.length % 2 = 0)
    (h : monoS16leToStereo w = monoS16leToStereo (b :: w)) : ∀ x ∈ w, x = b := by
  induction w using monoS16leToStereo.induct generalizing b with
  | case1 lo hi rest ih =>
    have hrest : rest.length % 2 = 0 := by
      simp only [List.length_cons] at heven
      omega
    simp only [monoS16leToStereo, List.cons.injEq] at h
    obtain ⟨rfl, rfl, -, -, htail⟩ := h
    intro x hx
    rcases List.mem_cons.mp hx with rfl | hx
    · rfl
    · rcases List.mem_cons.mp hx with rfl | hx
      · rfl
      · exact ih hrest htail x hx
  | case2 w hshort =>
    match w, hshort with
    | [], _ => exact fun x hx => absurd hx List.not_mem_nil
    | [lo], _ => simp at heven
    | lo :: hi :: rest, hshort => exact absurd rfl (hshort lo hi rest)

/-! ## Pieces -/

/-- No sample is split between two pieces, or all that follows the split repeats its byte. -/
def Aligned : List (List UInt8) → Prop
  | [] => True
  | piece :: rest =>
    if piece.length % 2 = 0 then Aligned rest
    else ∀ later ∈ rest, later.length % 2 = 0 ∧ ∀ x ∈ later, piece.getLast? = some x

theorem flatMap_even {pieces : List (List UInt8)} (h : ∀ piece ∈ pieces, piece.length % 2 = 0) :
    pieces.flatMap monoS16leToStereo = monoS16leToStereo pieces.flatten ∧
      pieces.flatten.length % 2 = 0 := by
  induction pieces with
  | nil => exact ⟨rfl, rfl⟩
  | cons piece pieces ih =>
    have hpiece := h piece List.mem_cons_self
    obtain ⟨hsame, heven⟩ := ih fun p hp => h p (List.mem_cons_of_mem piece hp)
    rw [List.flatMap_cons, List.flatten_cons, hsame, monoS16leToStereo_append hpiece,
      List.length_append]
    exact ⟨rfl, by omega⟩

theorem length_flatMap (pieces : List (List UInt8)) :
    (pieces.flatMap monoS16leToStereo).length +
      2 * pieces.countP (fun piece => piece.length % 2 = 1) = 2 * pieces.flatten.length := by
  induction pieces with
  | nil => rfl
  | cons piece pieces ih =>
    rw [List.flatMap_cons, List.flatten_cons, List.length_append, List.length_append,
      length_monoS16leToStereo, List.countP_cons]
    split
    · next hodd =>
      have hodd : piece.length % 2 = 1 := of_decide_eq_true hodd
      omega
    · next heven =>
      have heven : ¬ piece.length % 2 = 1 := fun h => heven (decide_eq_true h)
      omega

theorem shifted_pieces_iff {b : UInt8} {pieces : List (List UInt8)} :
    pieces.flatMap monoS16leToStereo = monoS16leToStereo (b :: pieces.flatten) ↔
      ∀ piece ∈ pieces, piece.length % 2 = 0 ∧ ∀ x ∈ piece, x = b := by
  constructor
  · intro h
    have hlength := length_flatMap pieces
    rw [h, length_monoS16leToStereo, List.length_cons] at hlength
    have hnone : pieces.countP (fun piece => piece.length % 2 = 1) = 0 := by omega
    have heven : ∀ piece ∈ pieces, piece.length % 2 = 0 := by
      intro piece hp
      have hodd := List.countP_eq_zero.mp hnone piece hp
      rw [decide_eq_true_eq] at hodd
      omega
    obtain ⟨hsame, hflat⟩ := flatMap_even heven
    rw [hsame] at h
    have hall := forall_eq_of_shift hflat h
    intro piece hp
    exact ⟨heven piece hp, fun x hx => hall x (List.mem_flatten.mpr ⟨piece, hp, hx⟩)⟩
  · intro h
    obtain ⟨hsame, hflat⟩ := flatMap_even fun piece hp => (h piece hp).1
    have hrepeat : pieces.flatten = List.replicate pieces.flatten.length b := by
      refine List.eq_replicate_of_mem fun x hx => ?_
      obtain ⟨piece, hp, hx⟩ := List.mem_flatten.mp hx
      exact (h piece hp).2 x hx
    obtain ⟨n, hn⟩ : ∃ n, pieces.flatten.length = 2 * n :=
      ⟨_, (Nat.mul_div_cancel' (Nat.dvd_of_mod_eq_zero hflat)).symm⟩
    rw [hn] at hrepeat
    rw [hsame, hrepeat, monoS16leToStereo_replicate]

theorem flatMap_eq_iff_aligned (pieces : List (List UInt8)) :
    pieces.flatMap monoS16leToStereo = monoS16leToStereo pieces.flatten ↔ Aligned pieces := by
  induction pieces with
  | nil => exact iff_of_true rfl trivial
  | cons piece rest ih =>
    rw [List.flatMap_cons, List.flatten_cons, Aligned]
    by_cases heven : piece.length % 2 = 0
    · rw [if_pos heven, monoS16leToStereo_append heven, List.append_cancel_left_eq, ih]
    · have hne : piece ≠ [] := fun hnil => heven (by rw [hnil]; rfl)
      obtain ⟨front, last, rfl⟩ := (List.eq_nil_or_concat' piece).resolve_left hne
      have hfront : front.length % 2 = 0 := by
        rw [List.length_append, List.length_singleton] at heven
        omega
      rw [if_neg heven, monoS16leToStereo_odd hfront, List.append_assoc, List.singleton_append,
        monoS16leToStereo_append hfront, List.append_cancel_left_eq, shifted_pieces_iff,
        List.getLast?_concat]
      simp only [Option.some.injEq, eq_comm]

/-! ## Bodies -/

def pcmOf (chunks : List TtsAudioChunk) : List UInt8 := chunks.flatMap TtsAudioChunk.pcm

@[simp] theorem pcmOf_map (pieces : List (List UInt8)) :
    pcmOf (pieces.map pcmChunkFromMono) = pieces.flatMap monoS16leToStereo :=
  List.flatMap_map ..

@[simp] theorem pcmOf_append (front back : List TtsAudioChunk) :
    pcmOf (front ++ back) = pcmOf front ++ pcmOf back :=
  List.flatMap_append

@[simp] theorem pcmOf_single (mono : List UInt8) :
    pcmOf [pcmChunkFromMono mono] = monoS16leToStereo mono :=
  List.append_nil _

/-- The loop has taken `stream`: all whole samples, and the first byte of a split one. -/
structure BodyAudio.Fits (s : BodyAudio) (stream : List UInt8) : Prop where
  even : s.mono.length % 2 = 0
  whole : s.mono ++ s.carry.toList = stream
  sent : pcmOf s.sent = monoS16leToStereo s.mono

namespace BodyAudio

theorem fits_empty : empty.Fits [] := ⟨rfl, rfl, rfl⟩

theorem length_carry (carry : Option UInt8) : carry.toList.length ≤ 1 := by cases carry <;> simp

theorem Fits.played {s : BodyAudio} {stream : List UInt8} (h : s.Fits stream) :
    monoS16leToStereo s.mono = monoS16leToStereo stream := by
  rw [← h.whole]
  cases s.carry with
  | none => rw [Option.toList_none, List.append_nil]
  | some last => exact (monoS16leToStereo_odd h.even last).symm

theorem Fits.length_mono {s : BodyAudio} {stream : List UInt8} (h : s.Fits stream) :
    stream.length ≤ s.mono.length + 1 := by
  have hcarry := length_carry s.carry
  rw [← h.whole, List.length_append]
  omega

theorem split_odd (bytes : List UInt8) :
    (if bytes.length % 2 = 1 then bytes.dropLast else bytes) ++
        (if bytes.length % 2 = 1 then bytes.getLast? else none).toList = bytes ∧
      (if bytes.length % 2 = 1 then bytes.dropLast else bytes).length % 2 = 0 := by
  split
  · next hodd =>
    have hne : bytes ≠ [] := fun hnil => by rw [hnil] at hodd; cases hodd
    constructor
    · rw [List.getLast?_eq_some_getLast hne]
      exact List.dropLast_append_getLast hne
    · rw [List.length_dropLast]
      omega
  · next heven => exact ⟨List.append_nil _, by omega⟩

theorem Fits.take {s : BodyAudio} {stream : List UInt8} (h : s.Fits stream)
    (incoming : List UInt8) : (s.take true incoming).Fits (stream ++ incoming) := by
  obtain ⟨hsplit, heven⟩ := split_odd (s.carry.toList ++ incoming)
  unfold BodyAudio.take
  extract_lets bytes carry even
  change even ++ carry.toList = bytes at hsplit
  change even.length % 2 = 0 at heven
  have hwhole : stream ++ incoming = s.mono ++ (even ++ carry.toList) := by
    rw [hsplit, ← h.whole, List.append_assoc]
  split
  · next hnil =>
    rw [List.isEmpty_iff.mp hnil, List.nil_append] at hwhole
    exact ⟨h.even, hwhole.symm, h.sent⟩
  · refine ⟨?_, ?_, ?_⟩
    · have hmono := h.even
      rw [List.length_append]
      omega
    · rw [hwhole, List.append_assoc]
    · rw [if_pos rfl, pcmOf_append, pcmOf_single, h.sent, monoS16leToStereo_append h.even]

end BodyAudio

theorem readBody_chunks (vendor : String) {s : BodyAudio} {stream : List UInt8}
    (h : s.Fits stream) (pieces : List (List UInt8)) :
    ∃ s', readBody vendor true none s (pieces.map .chunk) = (s', .finished) ∧
      s'.Fits (stream ++ pieces.flatten) := by
  induction pieces generalizing s stream with
  | nil => exact ⟨s, rfl, by rwa [List.flatten_nil, List.append_nil]⟩
  | cons piece pieces ih =>
    rw [List.flatten_cons, ← List.append_assoc]
    exact ih (h.take piece)

theorem readBody_decided (vendor : String) (sink : Bool) (head : List UInt8) (s : BodyAudio)
    (reads : List BodyRead) :
    readBody vendor sink (some ⟨head, true⟩) s reads = readBody vendor sink none s reads := by
  induction reads generalizing s with
  | nil => rfl
  | cons read reads ih =>
    cases read with
    | chunk bytes => exact ih _
    | failed | timedOut | cancelled => rfl

theorem readBody_guarded (vendor : String) {s : BodyAudio} (h : s.Fits []) {head : List UInt8}
    (hhead : head.length < 4) (pieces : List (List UInt8))
    (hlen : 4 ≤ (head ++ pieces.flatten).length) (hriff : ¬ RIFF <+: head ++ pieces.flatten) :
    ∃ s', readBody vendor true (some ⟨head, false⟩) s (pieces.map .chunk) = (s', .finished) ∧
      s'.Fits (head ++ pieces.flatten) := by
  induction pieces generalizing s head with
  | nil =>
    rw [List.flatten_nil, List.append_nil] at hlen
    omega
  | cons piece pieces ih =>
    rw [List.flatten_cons, ← List.append_assoc] at hlen hriff ⊢
    rw [List.map_cons, readBody, RiffGuard.feed, if_neg Bool.false_ne_true]
    by_cases hshort : (head ++ piece).length < 4
    · simp only [if_pos hshort]
      exact ih (h.take []) hshort hlen hriff
    · have hpre : ¬ RIFF.isPrefixOf (head ++ piece) = true := by
        intro hpre
        exact hriff ((List.isPrefixOf_iff_prefix.mp hpre).trans (List.prefix_append ..))
      simp only [if_neg hshort, if_neg hpre, readBody_decided]
      exact readBody_chunks vendor (h.take (head ++ piece)) pieces

/-! ## Sockets -/

def EndsDone : List WsItem → Prop
  | .audio _ :: items => EndsDone items
  | .skip :: items => EndsDone items
  | .finished :: _ => True
  | _ => False

def messages : List WsItem → List (List UInt8)
  | .audio bytes :: items => bytes :: messages items
  | .skip :: items => messages items
  | _ => []

theorem readSocket_done (vendor closed : String) {items : List WsItem} (h : EndsDone items)
    (s : SocketAudio) :
    readSocket vendor closed true s items =
      (⟨s.mono ++ (messages items).flatten, s.sent ++ (messages items).map pcmChunkFromMono⟩,
        .finished) := by
  induction items generalizing s with
  | nil => exact h.elim
  | cons item items ih =>
    cases item with
    | audio bytes =>
      rw [readSocket, ih h, messages, List.flatten_cons, List.map_cons, SocketAudio.take,
        if_pos rfl, List.append_assoc, List.append_assoc]
      rfl
    | skip => exact ih h s
    | finished =>
      change (s, LoopEnd.finished) = (⟨s.mono ++ [], s.sent ++ []⟩, .finished)
      rw [List.append_nil, List.append_nil]
    | failed | timedOut | cancelled => exact h.elim

/-! ## One synthesis -/

def bodyChunks (reads : List BodyRead) : List (List UInt8) :=
  reads.filterMap fun read =>
    match read with
    | .chunk bytes => some bytes
    | _ => none

namespace Feed

def OverSocket (feed : Feed) : Prop := feed.items.isLeft

/-- The body is read to its end, or the socket to its end message. -/
def EndsNormally (feed : Feed) : Prop :=
  match feed.items with
  | .inl items => EndsDone items
  | .inr reads => reads = (bodyChunks reads).map .chunk

def pieces (feed : Feed) : List (List UInt8) :=
  match feed.items with
  | .inl items => messages items
  | .inr reads => bodyChunks reads

def stream (feed : Feed) : List UInt8 := feed.pieces.flatten

end Feed

/-- The sink and the result both have the sound of `stream`. -/
def Synthesis.Whole (out : Synthesis) (stream : List UInt8) : Prop :=
  pcmOf out.sent = monoS16leToStereo stream ∧
    ∃ chunks, out.result = .ok chunks ∧ pcmOf chunks = monoS16leToStereo stream

theorem BodyAudio.Fits.whole_sent {s : BodyAudio} {stream : List UInt8} (h : s.Fits stream) :
    Synthesis.Whole ⟨s.sent, .ok [pcmChunkFromMono s.mono]⟩ stream :=
  ⟨h.sent.trans h.played, _, rfl, (pcmOf_single s.mono).trans h.played⟩

theorem BodyAudio.Fits.mono_ne_nil {s : BodyAudio} {stream : List UInt8} (h : s.Fits stream)
    (hlen : 4 ≤ stream.length) : s.mono.isEmpty = false := by
  have hmono := h.length_mono
  cases hs : s.mono with
  | nil =>
    rw [hs, List.length_nil] at hmono
    omega
  | cons _ _ => rfl

theorem whole_messages_iff (pieces : List (List UInt8)) :
    Synthesis.Whole ⟨pieces.map pcmChunkFromMono, .ok [pcmChunkFromMono pieces.flatten]⟩
        pieces.flatten ↔ Aligned pieces := by
  rw [Synthesis.Whole, pcmOf_map, flatMap_eq_iff_aligned]
  exact and_iff_left ⟨_, rfl, pcmOf_single _⟩

theorem flatten_not_empty {pieces : List (List UInt8)} (h : 4 ≤ pieces.flatten.length) :
    pieces.flatten.isEmpty = false := by
  cases hs : pieces.flatten with
  | nil =>
    rw [hs, List.length_nil] at h
    omega
  | cons _ _ => rfl

theorem whole_nonEmptyAudio (message : String) {s : BodyAudio} {stream : List UInt8}
    (h : s.Fits stream) (hlen : 4 ≤ stream.length) :
    (nonEmptyAudio message (s, .finished)).Whole stream := by
  simp only [nonEmptyAudio, h.mono_ne_nil hlen, Bool.false_eq_true, if_false]
  exact h.whole_sent

namespace Feed

theorem whole_body {feed : Feed} {reads : List BodyRead} (hitems : feed.items = .inr reads)
    (hend : feed.EndsNormally) (hlen : 4 ≤ feed.stream.length)
    (hriff : ¬ RIFF <+: feed.stream) : (feed.synthesize true).Whole feed.stream := by
  have hreads : reads = (bodyChunks reads).map .chunk := by rwa [EndsNormally, hitems] at hend
  have hstream : feed.stream = (bodyChunks reads).flatten := by rw [stream, pieces, hitems]
  rw [hstream] at hlen hriff ⊢
  cases feed with
  | cartesiaHttp reads =>
    cases hitems
    obtain ⟨s, hread, hfits⟩ :=
      readBody_chunks "cartesia" BodyAudio.fits_empty (bodyChunks reads)
    rw [← hreads] at hread
    rw [synthesize, Cartesia.synthesizeText, hread]
    exact whole_nonEmptyAudio _ hfits hlen
  | deepgramHttp reads =>
    cases hitems
    obtain ⟨s, hread, hfits⟩ :=
      readBody_guarded "deepgram" BodyAudio.fits_empty (by decide : ([] : List UInt8).length < 4)
        (bodyChunks reads) hlen hriff
    rw [← hreads] at hread
    rw [synthesize, Deepgram.synthesizeRest, hread]
    exact whole_nonEmptyAudio _ hfits hlen
  | elevenlabsHttp fullBody reads =>
    cases hitems
    obtain ⟨s, hread, hfits⟩ :=
      readBody_chunks "elevenlabs" BodyAudio.fits_empty (bodyChunks reads)
    rw [← hreads] at hread
    have hne := BodyAudio.Fits.mono_ne_nil hfits hlen
    simp only [synthesize, ElevenLabs.synthesizeHttpStream, hread, hne, Bool.false_eq_true,
      if_false]
    exact BodyAudio.Fits.whole_sent hfits
  | cartesiaWs | deepgramWs | elevenlabsWs => cases hitems

theorem synthesize_socket {feed : Feed} {items : List WsItem} (hitems : feed.items = .inl items)
    (hend : EndsDone items) (hlen : 4 ≤ (messages items).flatten.length) :
    feed.synthesize true = ⟨(messages items).map pcmChunkFromMono,
      .ok [pcmChunkFromMono (messages items).flatten]⟩ := by
  have hne := flatten_not_empty hlen
  cases feed with
  | cartesiaHttp | deepgramHttp | elevenlabsHttp => cases hitems
  | cartesiaWs contextId reads body =>
    cases hitems
    simp only [synthesize, Cartesia.synthesizeProgressive, Cartesia.runUtterance,
      readSocket_done _ _ hend, SocketAudio.empty, List.nil_append]
  | deepgramWs reads =>
    cases hitems
    simp only [synthesize, Deepgram.synthesizeWebsocket, readSocket_done _ _ hend,
      SocketAudio.empty, List.nil_append, hne, Bool.false_eq_true, if_false]
  | elevenlabsWs reads =>
    cases hitems
    simp only [synthesize, ElevenLabs.synthesizeWebsocketStream, readSocket_done _ _ hend,
      SocketAudio.empty, List.nil_append]

/-- Streamed speech is the vendor's audio however a body is split; over a socket exactly when
no message splits a sample that is heard. -/
theorem whole_iff_aligned (feed : Feed) (hend : feed.EndsNormally)
    (hlen : 4 ≤ feed.stream.length) (hriff : ¬ RIFF <+: feed.stream) :
    (feed.synthesize true).Whole feed.stream ↔ (feed.OverSocket → Aligned feed.pieces) := by
  cases hitems : feed.items with
  | inl items =>
    have hsocket : feed.OverSocket := by
      rw [OverSocket, hitems]
      rfl
    have hpieces : feed.pieces = messages items := by rw [pieces, hitems]
    rw [stream, hpieces] at hlen
    rw [EndsNormally, hitems] at hend
    rw [synthesize_socket hitems hend hlen, stream, hpieces, whole_messages_iff]
    exact (imp_iff_right hsocket).symm
  | inr reads =>
    refine iff_of_true (whole_body hitems hend hlen hriff) fun hsocket => ?_
    rw [OverSocket, hitems] at hsocket
    cases hsocket

/-- A body in odd pieces, and a socket whose messages hold whole samples. -/
theorem whole_iff_aligned_oddBody :
    let feed : Feed := .deepgramHttp [.chunk [1], .chunk [2, 3, 4]]
    feed.EndsNormally ∧ 4 ≤ feed.stream.length ∧ ¬ RIFF <+: feed.stream ∧
      (feed.synthesize true).Whole feed.stream := by
  refine ⟨rfl, by decide, by decide, ?_⟩
  exact (whole_iff_aligned (.deepgramHttp [.chunk [1], .chunk [2, 3, 4]]) rfl (by decide)
    (by decide)).mpr fun hsocket => by cases hsocket

/-- A message that ends inside a sample: the sink hears the rest shifted by a byte, and the
result does not. -/
theorem odd_message_shifts :
    let feed : Feed := .deepgramWs [.binary [1], .binary [2, 3, 4],
      .text (.ok ⟨some "Flushed", none⟩)]
    feed.EndsNormally ∧ feed.stream = [1, 2, 3, 4] ∧
      monoS16leToStereo feed.stream = [1, 2, 1, 2, 3, 4, 3, 4] ∧
      pcmOf (feed.synthesize true).sent = [2, 3, 2, 3] ∧
      ¬ (feed.synthesize true).Whole feed.stream := by
  refine ⟨?_, ?_, ?_, ?_, ?_⟩
  · simp [EndsNormally, items, Deepgram.item, EndsDone]
  · decide
  · decide
  · decide
  · intro hwhole
    exact absurd hwhole.1 (by decide)

end Feed

end NodeWebrtc.Vendors
