import NodeWebrtc.Speech.PreRoll

/-! # Short voiced bursts kept for the next utterance

A voiced burst that ends without a SpeechStart is retained for a while, so that what has
left the pre-roll ring by the next SpeechStart can be prepended. Over frames of 20 ms the
retainer's bytes are told by frame numbers: the frames the retained audio covers, with
zeros for the gaps between bursts, and the frame the burst under way began with.
-/

namespace NodeWebrtc.Speech

def SHORT_BURST_RETAIN_MS : UInt32 := 3000

def SHORT_BURST_MAX_AUDIO_MS : UInt32 := 1500

/-- Silence between a retained burst and the ring when they are not contiguous. -/
def SHORT_BURST_SEPARATOR_MS : UInt32 := 200

/-- Duration of mono 16 kHz s16le audio, at least 1 ms. -/
def monoDurationMsFromBytes (byteLen : Nat) : UInt32 :=
  UInt32.ofNat (max (byteLen / 2 * 1000 / STT_PCM_SAMPLE_RATE) 1)

structure ShortBurstRetainer where
  /-- Voiced pending frames since the last inactive frame. -/
  current : List UInt8
  /-- Bursts that ended, gaps between them filled with zeros. -/
  retained : List UInt8
  sinceRetainedEndMs : UInt32
deriving DecidableEq

namespace ShortBurstRetainer

def new : ShortBurstRetainer := ⟨[], [], 0⟩

def capBytes : Nat := monoS16leBytesForDurationMs SHORT_BURST_MAX_AUDIO_MS

/-- Retained audio over the cap loses its oldest samples. -/
def capped (retained : List UInt8) : List UInt8 :=
  if retained.length > capBytes then
    retained.drop ((retained.length - capBytes + 1) / 2 * 2)
  else retained

/-- The first inactive frame after a burst: the burst joins the retained audio. -/
def endBurst (r : ShortBurstRetainer) : ShortBurstRetainer :=
  -- `sinceRetainedEndMs` also counts the voiced frames, so the rest of it is the gap
  let gap := if r.retained.isEmpty then 0 else
    monoS16leBytesForDurationMs
      (saturatingSubU32 r.sinceRetainedEndMs (monoDurationMsFromBytes r.current.length))
  { current := []
    retained := capped (r.retained ++ List.replicate gap 0 ++ r.current)
    sinceRetainedEndMs := 0 }

/-- The age of the retained audio grows, and it is dropped when it is too old. -/
def grow (r : ShortBurstRetainer) (durationMs : UInt32) : ShortBurstRetainer :=
  if r.retained.isEmpty then r
  else
    let since := saturatingAddU32 r.sinceRetainedEndMs durationMs
    if since > SHORT_BURST_RETAIN_MS then { r with retained := [], sinceRetainedEndMs := 0 }
    else { r with sinceRetainedEndMs := since }

/-- Feeds one frame that went to the pre-roll ring while the gate was closed. -/
def onFrame (r : ShortBurstRetainer) (mono : List UInt8) (voicedPending : Bool)
    (durationMs : UInt32) : ShortBurstRetainer :=
  if voicedPending then
    { r with
      current := r.current ++ mono
      sinceRetainedEndMs :=
        if r.retained.isEmpty then r.sinceRetainedEndMs
        else saturatingAddU32 r.sinceRetainedEndMs durationMs }
  else (if r.current.isEmpty then r else r.endBurst).grow durationMs

/-- At a SpeechStart that opens a new stream: the part of the retained audio that is no
longer in the ring, and whether it is contiguous with the ring. -/
def takeForNewStream (r : ShortBurstRetainer) (ringCapacityMs : UInt32) :
    Option (List UInt8 × Bool) × ShortBurstRetainer :=
  let result :=
    if r.retained.isEmpty then none
    else
      let retainedMs := monoDurationMsFromBytes r.retained.length
      let inRingMs :=
        minU32 (saturatingSubU32 ringCapacityMs r.sinceRetainedEndMs) retainedMs
      let outMs := retainedMs - inRingMs
      if outMs = 0 then none
      else some (r.retained.take (monoS16leBytesForDurationMs outMs), decide (inRingMs > 0))
  (result, new)

variable {r : ShortBurstRetainer}

theorem onFrame_of_burst (h : r.current.isEmpty = false) (mono : List UInt8) (durationMs : UInt32) :
    r.onFrame mono false durationMs = r.endBurst.grow durationMs := by
  rw [onFrame, if_neg (by simp), if_neg (by simp [h])]

theorem onFrame_of_idle (h : r.current.isEmpty = true) (mono : List UInt8) (durationMs : UInt32) :
    r.onFrame mono false durationMs = r.grow durationMs := by
  rw [onFrame, if_neg (by simp), if_pos h]

theorem grow_of_recent {durationMs : UInt32} (h : r.retained.isEmpty = false)
    (hrecent : (saturatingAddU32 r.sinceRetainedEndMs durationMs).toNat ≤ 3000) :
    r.grow durationMs =
      { r with sinceRetainedEndMs := saturatingAddU32 r.sinceRetainedEndMs durationMs } := by
  have hkept : ¬ saturatingAddU32 r.sinceRetainedEndMs durationMs > SHORT_BURST_RETAIN_MS := by
    rw [gt_iff_lt, UInt32.lt_iff_toNat_lt]
    exact Nat.not_lt_of_le hrecent
  rw [grow, if_neg (by simp [h]), if_neg hkept]

theorem grow_of_old {durationMs : UInt32} (h : r.retained.isEmpty = false)
    (hold : 3000 < (saturatingAddU32 r.sinceRetainedEndMs durationMs).toNat) :
    r.grow durationMs = { r with retained := [], sinceRetainedEndMs := 0 } := by
  have hdropped : saturatingAddU32 r.sinceRetainedEndMs durationMs > SHORT_BURST_RETAIN_MS := by
    rw [gt_iff_lt, UInt32.lt_iff_toNat_lt]
    exact hold
  rw [grow, if_neg (by simp [h]), if_pos hdropped]

end ShortBurstRetainer

/-! ## Frames of 20 ms -/

/-- What the gate-closed branch is told of one frame besides its audio. -/
structure GateFrame where
  voicedPending : Bool
  concealed : Bool
deriving DecidableEq

def frameBytes (content : Nat → UInt8) (k : Nat) : List UInt8 :=
  (List.range' (640 * k) 640).map content

def voicedAt (frames : List GateFrame) (k : Nat) : Bool := frames[k]?.any (·.voicedPending)

/-- The byte at position `i` of the stream with its inactive frames muted. -/
def muted (content : Nat → UInt8) (frames : List GateFrame) (i : Nat) : UInt8 :=
  if voicedAt frames (i / 640) then content i else 0

def slice (content : Nat → UInt8) (frames : List GateFrame) (a b : Nat) : List UInt8 :=
  (List.range' (640 * a) (640 * (b - a))).map (muted content frames)

section Slice

variable {content : Nat → UInt8} {frames : List GateFrame} {a b c : Nat}

@[simp] theorem length_slice : (slice content frames a b).length = 640 * (b - a) := by simp [slice]

theorem slice_self : slice content frames a a = [] := by simp [slice]

theorem slice_append_slice (hab : a ≤ b) (hbc : b ≤ c) :
    slice content frames a b ++ slice content frames b c = slice content frames a c := by
  have hstart : 640 * b = 640 * a + 640 * (b - a) := by omega
  unfold slice
  rw [← List.map_append, hstart, List.range'_append_1, ← Nat.mul_add]
  congr 3
  omega

theorem drop_slice (hab : a ≤ b) (hbc : b ≤ c) :
    (slice content frames a c).drop (640 * (b - a)) = slice content frames b c := by
  rw [← slice_append_slice hab hbc]
  exact List.drop_left' length_slice

theorem voicedAt_append {f : GateFrame} {k : Nat} (hk : k < frames.length) :
    voicedAt (frames ++ [f]) k = voicedAt frames k := by
  unfold voicedAt
  rw [List.getElem?_append_left hk]

theorem voicedAt_length {f : GateFrame} :
    voicedAt (frames ++ [f]) frames.length = f.voicedPending := by
  simp [voicedAt]

theorem slice_append {f : GateFrame} (hb : b ≤ frames.length) :
    slice content (frames ++ [f]) a b = slice content frames a b := by
  apply List.map_congr_left
  intro i hi
  rw [List.mem_range'_1] at hi
  have hk : i / 640 < frames.length := by omega
  rw [muted, voicedAt_append hk, muted]

theorem slice_eq_replicate (h : ∀ k, a ≤ k → k < b → voicedAt frames k = false) :
    slice content frames a b = List.replicate (640 * (b - a)) 0 := by
  rw [List.eq_replicate_iff]
  refine ⟨length_slice, ?_⟩
  intro x hx
  simp only [slice, List.mem_map, List.mem_range'_1] at hx
  obtain ⟨i, hi, rfl⟩ := hx
  rw [muted, h (i / 640) (by omega) (by omega)]
  rfl

theorem slice_frame (h : voicedAt frames a = true) :
    slice content frames a (a + 1) = frameBytes content a := by
  unfold slice frameBytes
  rw [Nat.add_sub_cancel_left, Nat.mul_one]
  apply List.map_congr_left
  intro i hi
  rw [List.mem_range'_1] at hi
  have hk : i / 640 = a := by omega
  rw [muted, hk, if_pos h]

end Slice

/-! ## The retainer by frame numbers -/

/-- Which of the frames seen so far the retainer holds. -/
structure Heard where
  frames : Nat
  /-- The retained audio covers the frames from `start` up to `stop`. -/
  start : Nat
  stop : Nat
  /-- The burst under way covers the frames from `onset` on. -/
  onset : Nat
deriving DecidableEq

namespace Heard

def new : Heard := ⟨0, 0, 0, 0⟩

/-- A burst that ends is retained with what was retained before it, 75 frames at most. -/
def endBurst (h : Heard) : Heard :=
  if h.onset < h.frames then
    { h with
      start := max (if h.start < h.stop then h.start else h.onset) (h.frames - 75)
      stop := h.frames }
  else h

def onFrame (h : Heard) (voicedPending : Bool) : Heard :=
  if voicedPending then { h with frames := h.frames + 1 }
  else
    let e := h.endBurst
    { frames := h.frames + 1
      start := if 3000 < 20 * (h.frames + 1 - e.stop) then e.stop else e.start
      stop := e.stop
      onset := h.frames + 1 }

end Heard

def heard (frames : List GateFrame) : Heard :=
  frames.foldl (fun h f => h.onFrame f.voicedPending) Heard.new

theorem heard_append (frames : List GateFrame) (f : GateFrame) :
    heard (frames ++ [f]) = (heard frames).onFrame f.voicedPending := by
  unfold heard
  rw [List.foldl_append]
  rfl

/-- How the frame numbers lie, and which frames are voiced. -/
structure Heard.Ordered (frames : List GateFrame) (h : Heard) : Prop where
  frames_eq : h.frames = frames.length
  start_le : h.start ≤ h.stop
  stop_le : h.stop ≤ h.onset
  onset_le : h.onset ≤ h.frames
  short : h.stop - h.start ≤ 75
  last : h.start < h.stop → voicedAt frames (h.stop - 1) = true
  gap : h.start < h.stop → ∀ k, h.stop ≤ k → k < h.onset → voicedAt frames k = false
  recent : h.start < h.stop → h.onset - h.stop ≤ 150
  current : ∀ k, h.onset ≤ k → k < h.frames → voicedAt frames k = true

variable {frames : List GateFrame}

theorem Heard.Ordered.append_voiced {h : Heard} {f : GateFrame} (ho : h.Ordered frames)
    (hf : f.voicedPending = true) :
    (h.onFrame f.voicedPending).Ordered (frames ++ [f]) := by
  have hlen := ho.frames_eq
  have hstop := ho.stop_le
  have honset := ho.onset_le
  have hstart := ho.start_le
  rw [hf, Heard.onFrame, if_pos rfl]
  refine ⟨?_, ho.start_le, ho.stop_le, Nat.le_succ_of_le ho.onset_le, ho.short, ?_, ?_,
    ho.recent, ?_⟩
  · simpa using hlen
  · intro hne
    rw [voicedAt_append (by dsimp only at hne ⊢; omega)]
    exact ho.last hne
  · intro hne k hk hk'
    rw [voicedAt_append (by dsimp only at hk'; omega)]
    exact ho.gap hne k hk hk'
  · intro k hk hk'
    by_cases hlast : k = frames.length
    · rw [hlast, voicedAt_length, hf]
    · have hbefore : k < frames.length := by
        dsimp only at hk'
        omega
      rw [voicedAt_append hbefore]
      exact ho.current k hk (by omega)

theorem Heard.Ordered.append_end {h : Heard} {f : GateFrame} (ho : h.Ordered frames)
    (hf : f.voicedPending = false) (hburst : h.onset < h.frames) :
    (h.onFrame f.voicedPending).Ordered (frames ++ [f]) ∧
      h.onFrame f.voicedPending = ⟨h.frames + 1,
        max (if h.start < h.stop then h.start else h.onset) (h.frames - 75), h.frames,
        h.frames + 1⟩ := by
  have hlen := ho.frames_eq
  have hstart := ho.start_le
  have hstop := ho.stop_le
  have hnew : h.onFrame f.voicedPending = ⟨h.frames + 1,
      max (if h.start < h.stop then h.start else h.onset) (h.frames - 75), h.frames,
      h.frames + 1⟩ := by
    rw [hf, Heard.onFrame, if_neg (by simp), Heard.endBurst, if_pos hburst]
    dsimp only
    rw [if_neg (by omega)]
  have hbegin : (if h.start < h.stop then h.start else h.onset) ≤ h.onset := by split <;> omega
  refine ⟨?_, hnew⟩
  rw [hnew]
  refine ⟨by simpa using hlen, by dsimp only; omega, Nat.le_succ _, Nat.le_refl _,
    by dsimp only; omega, ?_, ?_, ?_, ?_⟩
  · intro _
    rw [voicedAt_append (by dsimp only; omega)]
    exact ho.current _ (by dsimp only; omega) (by dsimp only; omega)
  · intro _ k hk hk'
    have hk : k = frames.length := by
      dsimp only at hk hk'
      omega
    rw [hk, voicedAt_length, hf]
  · intro _
    dsimp only
    omega
  · intro k hk hk'
    dsimp only at hk hk'
    omega

theorem Heard.Ordered.append_idle {h : Heard} {f : GateFrame} (ho : h.Ordered frames)
    (hf : f.voicedPending = false) (hidle : ¬ h.onset < h.frames) :
    (h.onFrame f.voicedPending).Ordered (frames ++ [f]) ∧
      h.onFrame f.voicedPending = ⟨h.frames + 1,
        if 3000 < 20 * (h.frames + 1 - h.stop) then h.stop else h.start, h.stop,
        h.frames + 1⟩ := by
  have hlen := ho.frames_eq
  have hstart := ho.start_le
  have hstop := ho.stop_le
  have honset := ho.onset_le
  have hnew : h.onFrame f.voicedPending = ⟨h.frames + 1,
      if 3000 < 20 * (h.frames + 1 - h.stop) then h.stop else h.start, h.stop,
      h.frames + 1⟩ := by
    rw [hf, Heard.onFrame, if_neg (by simp), Heard.endBurst, if_neg hidle]
  refine ⟨?_, hnew⟩
  rw [hnew]
  by_cases hold : 3000 < 20 * (h.frames + 1 - h.stop)
  · rw [if_pos hold]
    refine ⟨by simpa using hlen, Nat.le_refl _, by dsimp only; omega, Nat.le_refl _,
      by dsimp only; omega, fun hne => absurd hne (Nat.lt_irrefl _),
      fun hne => absurd hne (Nat.lt_irrefl _), fun hne => absurd hne (Nat.lt_irrefl _), ?_⟩
    intro k hk hk'
    dsimp only at hk hk'
    omega
  · rw [if_neg hold]
    refine ⟨by simpa using hlen, hstart, by dsimp only; omega, Nat.le_refl _, ho.short, ?_, ?_,
      ?_, ?_⟩
    · intro hne
      rw [voicedAt_append (by dsimp only at hne ⊢; omega)]
      exact ho.last hne
    · intro hne k hk hk'
      dsimp only at hne hk hk'
      by_cases hlast : k = frames.length
      · rw [hlast, voicedAt_length, hf]
      · rw [voicedAt_append (by omega)]
        exact ho.gap hne k hk (by omega)
    · intro _
      dsimp only
      omega
    · intro k hk hk'
      dsimp only at hk hk'
      omega

theorem heard_ordered (frames : List GateFrame) : (heard frames).Ordered frames := by
  induction frames using List.reverseRecOn with
  | nil =>
    exact ⟨rfl, Nat.le_refl _, Nat.le_refl _, Nat.le_refl _, Nat.zero_le _,
      fun h => absurd h (Nat.lt_irrefl _), fun h => absurd h (Nat.lt_irrefl _),
      fun h => absurd h (Nat.lt_irrefl _), fun k _ hk => absurd hk (Nat.not_lt_zero k)⟩
  | append_singleton frames f ih =>
    rw [heard_append]
    cases hf : f.voicedPending with
    | true => exact hf ▸ ih.append_voiced hf
    | false =>
      by_cases hburst : (heard frames).onset < (heard frames).frames
      · exact hf ▸ (ih.append_end hf hburst).1
      · exact hf ▸ (ih.append_idle hf hburst).1

/-! ## What the retainer's bytes are -/

/-- The retainer's bytes and its age, by the frame numbers. -/
structure ShortBurstRetainer.Tracks (content : Nat → UInt8) (frames : List GateFrame)
    (h : Heard) (r : ShortBurstRetainer) : Prop where
  current : r.current = slice content frames h.onset h.frames
  retained : r.retained = slice content frames h.start h.stop
  since : r.sinceRetainedEndMs.toNat =
    if h.start < h.stop then min (20 * (h.frames - h.stop)) (2 ^ 32 - 1) else 0

theorem slice_isEmpty {content : Nat → UInt8} {a b : Nat} :
    (slice content frames a b).isEmpty = !decide (a < b) := by
  rw [Bool.eq_iff_iff, List.isEmpty_iff_length_eq_zero, length_slice]
  simp only [Bool.not_eq_true', decide_eq_false_iff_not]
  omega

theorem monoS16leBytesForDurationMs_eq (durationMs : UInt32) :
    monoS16leBytesForDurationMs durationMs = 32 * durationMs.toNat := by
  have hbound := durationMs.toNat_lt
  unfold monoS16leBytesForDurationMs u64Max STT_PCM_SAMPLE_RATE
  omega

theorem monoDurationMsFromBytes_toNat {n : Nat} (hpos : 0 < n) (hlt : 20 * n < 2 ^ 32) :
    (monoDurationMsFromBytes (640 * n)).toNat = 20 * n := by
  unfold monoDurationMsFromBytes STT_PCM_SAMPLE_RATE
  rw [UInt32.toNat_ofNat']
  omega

section Tracks

variable {content : Nat → UInt8} {frames : List GateFrame} {h : Heard} {r : ShortBurstRetainer}
  {f : GateFrame}

open ShortBurstRetainer

theorem ShortBurstRetainer.Tracks.append_voiced (ht : r.Tracks content frames h)
    (ho : h.Ordered frames) (hf : f.voicedPending = true) :
    (r.onFrame (frameBytes content frames.length) f.voicedPending 20).Tracks content
      (frames ++ [f]) (h.onFrame f.voicedPending) := by
  have hlen := ho.frames_eq
  have hstop := ho.stop_le
  have honset := ho.onset_le
  rw [hf, ShortBurstRetainer.onFrame, if_pos rfl, Heard.onFrame, if_pos rfl]
  have hvoiced : voicedAt (frames ++ [f]) frames.length = true := by rw [voicedAt_length, hf]
  refine ⟨?_, ?_, ?_⟩ <;> dsimp only
  · rw [ht.current, ← slice_append (f := f) (by omega), hlen, ← slice_frame hvoiced]
    exact slice_append_slice (by omega) (Nat.le_succ _)
  · rw [ht.retained, slice_append (by omega)]
  · rw [ht.retained, slice_isEmpty]
    by_cases hne : h.start < h.stop
    · have hsince := ht.since
      rw [if_pos hne] at hsince ⊢
      rw [if_neg (by simpa using hne), saturatingAddU32_toNat, hsince]
      change min (_ + 20) _ = _
      omega
    · have hsince := ht.since
      rw [if_neg hne] at hsince ⊢
      rw [if_pos (by simpa using hne), hsince]

theorem capBytes_eq : capBytes = 640 * 75 := by decide

theorem capped_of_short {a b : Nat} (hshort : b ≤ a + 75) :
    capped (slice content frames a b) = slice content frames a b := by
  unfold capped
  rw [if_neg]
  rw [length_slice, capBytes_eq]
  omega

theorem capped_append {before : List UInt8} {a b : Nat} (heven : before.length % 2 = 0)
    (hlong : a + 75 ≤ b) :
    capped (before ++ slice content frames a b) = slice content frames (b - 75) b := by
  have hlen : (before ++ slice content frames a b).length =
      before.length + 640 * (b - 75 - a) + 640 * 75 := by
    rw [List.length_append, length_slice]
    omega
  unfold capped
  rw [hlen, capBytes_eq]
  split
  · have hcut : (before.length + 640 * (b - 75 - a) + 640 * 75 - 640 * 75 + 1) / 2 * 2 =
        before.length + 640 * (b - 75 - a) := by
      omega
    rw [hcut, ← List.drop_drop, List.drop_left]
    exact drop_slice (by omega) (by omega)
  · have hnone : before = [] := List.eq_nil_of_length_eq_zero (by omega)
    have hexact : a = b - 75 := by omega
    rw [hnone, List.nil_append, hexact]

section

variable (ht : r.Tracks content frames h)
include ht

theorem ShortBurstRetainer.Tracks.gap (ho : h.Ordered frames) (hne : h.start < h.stop)
    (hburst : h.onset < h.frames) (hshort : h.frames < h.onset + 75) :
    monoS16leBytesForDurationMs (saturatingSubU32 r.sinceRetainedEndMs
      (monoDurationMsFromBytes r.current.length)) = 640 * (h.onset - h.stop) := by
  have hstop := ho.stop_le
  have hrecent := ho.recent hne
  have hsince := ht.since
  rw [if_pos hne] at hsince
  rw [monoS16leBytesForDurationMs_eq, saturatingSubU32_toNat, hsince, ht.current, length_slice,
    monoDurationMsFromBytes_toNat (by omega) (by omega)]
  omega

theorem ShortBurstRetainer.Tracks.endBurst (ho : h.Ordered frames) (hburst : h.onset < h.frames) :
    r.endBurst.retained = slice content frames
      (max (if h.start < h.stop then h.start else h.onset) (h.frames - 75)) h.frames := by
  have hstart := ho.start_le
  have hstop := ho.stop_le
  unfold ShortBurstRetainer.endBurst
  dsimp only
  rw [ht.retained, slice_isEmpty]
  by_cases hlong : h.onset + 75 ≤ h.frames
  · rw [ht.current, capped_append _ hlong]
    · congr 1
      split <;> omega
    · rw [List.length_append, length_slice, List.length_replicate]
      split
      · omega
      · rw [monoS16leBytesForDurationMs_eq]
        omega
  · by_cases hne : h.start < h.stop
    · rw [if_neg (by simpa using hne), ht.gap ho hne hburst (by omega), if_pos hne,
        ← @slice_eq_replicate content _ _ _ (ho.gap hne), ht.current,
        slice_append_slice hstart hstop, slice_append_slice (by omega) (by omega)]
      by_cases hcap : h.start + 75 ≤ h.frames
      · have hcut := @capped_append content frames [] _ _ rfl hcap
        rw [List.nil_append] at hcut
        rw [hcut]
        congr 1
        omega
      · rw [capped_of_short (by omega)]
        congr 1
        omega
    · have hnone : h.start = h.stop := by omega
      rw [if_pos (by simpa using hne), if_neg hne, hnone, slice_self, List.replicate_zero,
        List.append_nil, List.nil_append, ht.current, capped_of_short (by omega)]
      congr 1
      omega

theorem ShortBurstRetainer.Tracks.append_end (ho : h.Ordered frames) (hf : f.voicedPending = false)
    (hburst : h.onset < h.frames) :
    (r.onFrame (frameBytes content frames.length) f.voicedPending 20).Tracks content
      (frames ++ [f]) (h.onFrame f.voicedPending) := by
  have hlen := ho.frames_eq
  have hstop := ho.stop_le
  have hretained := ht.endBurst ho hburst
  have hbegin : max (if h.start < h.stop then h.start else h.onset) (h.frames - 75) <
      h.frames := by
    split <;> omega
  have hcurrent : r.current.isEmpty = false := by
    rw [ht.current, slice_isEmpty]
    simpa using hburst
  have hne : r.endBurst.retained.isEmpty = false := by
    rw [hretained, slice_isEmpty]
    simpa using hbegin
  have hsince : r.endBurst.sinceRetainedEndMs = 0 := rfl
  rw [(ho.append_end hf hburst).2, hf, onFrame_of_burst hcurrent,
    grow_of_recent hne (by rw [hsince]; decide)]
  refine ⟨?_, ?_, ?_⟩ <;> dsimp only
  · rw [slice_self]
    rfl
  · rw [hretained, slice_append (by omega)]
  · rw [if_pos hbegin, hsince, saturatingAddU32_toNat]
    change min (0 + 20) _ = _
    omega

theorem ShortBurstRetainer.Tracks.append_idle (ho : h.Ordered frames) (hf : f.voicedPending = false)
    (hidle : ¬ h.onset < h.frames) :
    (r.onFrame (frameBytes content frames.length) f.voicedPending 20).Tracks content
      (frames ++ [f]) (h.onFrame f.voicedPending) := by
  have hlen := ho.frames_eq
  have hstart := ho.start_le
  have hstop := ho.stop_le
  have honset := ho.onset_le
  have hsince := ht.since
  have hcurrent : r.current = [] := by
    rw [ht.current, Nat.le_antisymm honset (Nat.le_of_not_lt hidle), slice_self]
  rw [(ho.append_idle hf hidle).2, hf, onFrame_of_idle (by rw [hcurrent]; rfl)]
  by_cases hne : h.start < h.stop
  · have hrecent := ho.recent hne
    have hkept : r.retained.isEmpty = false := by
      rw [ht.retained, slice_isEmpty]
      simpa using hne
    rw [if_pos hne] at hsince
    have hgrown : (saturatingAddU32 r.sinceRetainedEndMs 20).toNat =
        20 * (h.frames + 1 - h.stop) := by
      rw [saturatingAddU32_toNat, hsince]
      change min (_ + 20) _ = _
      omega
    by_cases hold : 3000 < 20 * (h.frames + 1 - h.stop)
    · rw [if_pos hold, grow_of_old hkept (by omega)]
      refine ⟨?_, (slice_self).symm, ?_⟩
      · rw [slice_self]
        exact hcurrent
      · rw [if_neg (Nat.lt_irrefl _)]
        rfl
    · rw [if_neg hold, grow_of_recent hkept (by omega)]
      refine ⟨?_, ?_, ?_⟩
      · rw [slice_self]
        exact hcurrent
      · dsimp only
        rw [ht.retained, slice_append (by omega)]
      · dsimp only
        rw [if_pos hne, hgrown]
        omega
  · have hnone : h.start = h.stop := by omega
    have hempty : r.retained = [] := by rw [ht.retained, hnone, slice_self]
    rw [if_neg hne] at hsince
    have hsame : r.grow 20 = r := by rw [grow, if_pos (by rw [hempty]; rfl)]
    rw [hsame, hnone, ite_self]
    refine ⟨?_, ?_, ?_⟩
    · rw [slice_self]
      exact hcurrent
    · rw [slice_self]
      exact hempty
    · rw [hsince, if_neg (Nat.lt_irrefl _)]

end

theorem ShortBurstRetainer.Tracks.append (ht : r.Tracks content frames (heard frames))
    (f : GateFrame) :
    (r.onFrame (frameBytes content frames.length) f.voicedPending 20).Tracks content
      (frames ++ [f]) (heard (frames ++ [f])) := by
  have ho := heard_ordered frames
  rw [heard_append]
  cases hf : f.voicedPending with
  | true => exact hf ▸ ht.append_voiced ho hf
  | false =>
    by_cases hburst : (heard frames).onset < (heard frames).frames
    · exact hf ▸ ht.append_end ho hf hburst
    · exact hf ▸ ht.append_idle ho hf hburst

theorem ShortBurstRetainer.tracks_new (content : Nat → UInt8) :
    ShortBurstRetainer.new.Tracks content [] (heard []) :=
  ⟨rfl, rfl, rfl⟩

end Tracks

end NodeWebrtc.Speech
