import Mathlib.Algebra.GroupWithZero.Nat
import Mathlib.Data.List.DropRight
import NodeWebrtc.Lib.Machine
import NodeWebrtc.Lib.Word

/-! # The STT pre-roll ring

Recent mono PCM is kept as one byte queue beside a list of segments, one per pushed
frame. Received audio and concealed audio (synthesized by loss concealment) have
separate budgets. Eviction cuts segments from the front, or the oldest concealed one
wherever it sits. Every range check and subtraction that would panic is explicit: a
panic is `none`.
-/

namespace NodeWebrtc.Speech

open Machine

def STT_PCM_SAMPLE_RATE : Nat := 16000

/-- Cap on concealed audio kept in the ring, in ms. -/
def PRE_ROLL_MAX_CONCEALED_MS : UInt32 := 500

/-- Bytes of mono 16 kHz s16le audio, with a 64-bit `usize`. -/
def monoS16leBytesForDurationMs (durationMs : UInt32) : Nat :=
  min (STT_PCM_SAMPLE_RATE * durationMs.toNat / 1000 * 2) u64Max

/-- The ring: `data` oldest first, and (byte length, concealed) per pushed segment. -/
structure SttPreRollBuffer where
  maxBytes : Nat
  maxConcealedBytes : Nat
  data : List UInt8
  segments : List (Nat × Bool)
  receivedBytes : Nat
  concealedBytes : Nat
deriving DecidableEq

namespace SttPreRollBuffer

def new (capacityMs : UInt32) : SttPreRollBuffer where
  maxBytes := monoS16leBytesForDurationMs (max capacityMs 1)
  maxConcealedBytes := monoS16leBytesForDurationMs PRE_ROLL_MAX_CONCEALED_MS
  data := []
  segments := []
  receivedBytes := 0
  concealedBytes := 0

/-- How much of a segment of `segLen` bytes to drop for `want`: all of it, or an even
number of bytes, at least 2. -/
def dropLen (segLen want : Nat) : Nat :=
  if want ≥ segLen then segLen else min (max ((want + 1) / 2 * 2) 2) segLen

/-- Drops up to `want` bytes from the start of segment `idx`. -/
def dropFromSegment (b : SttPreRollBuffer) (idx want : Nat) : Option SttPreRollBuffer :=
  match b.segments[idx]? with
  | none => none
  | some (segLen, segConcealed) =>
    let n := dropLen segLen want
    let offset := ((b.segments.take idx).map Prod.fst).sum
    if b.data.length < offset + n then none
    else
      let data := b.data.take offset ++ b.data.drop (offset + n)
      let segments :=
        if n = segLen then b.segments.eraseIdx idx
        else b.segments.set idx (segLen - n, segConcealed)
      if segConcealed then
        (checkedSub b.concealedBytes n).map fun left =>
          { b with data := data, segments := segments, concealedBytes := left }
      else
        (checkedSub b.receivedBytes n).map fun left =>
          { b with data := data, segments := segments, receivedBytes := left }

variable {b b' : SttPreRollBuffer}

theorem dropFromSegment_decreases {idx want : Nat} (h : b.dropFromSegment idx want = some b') :
    b'.data.length + b'.segments.length < b.data.length + b.segments.length := by
  unfold dropFromSegment at h
  split at h
  · cases h
  · next segLen segConcealed hseg =>
    have hidx : idx < b.segments.length := (List.getElem?_eq_some_iff.mp hseg).1
    have hwhole : dropLen segLen want = segLen ∨ 0 < dropLen segLen want := by
      unfold dropLen
      split <;> omega
    dsimp only at h
    split at h
    · cases h
    · next hrange =>
      have hdata : (b.data.take (((b.segments.take idx).map Prod.fst).sum) ++
          b.data.drop (((b.segments.take idx).map Prod.fst).sum + dropLen segLen want)).length =
            b.data.length - dropLen segLen want := by
        rw [List.length_append, List.length_take, List.length_drop]
        omega
      have hsegments : (if dropLen segLen want = segLen then b.segments.eraseIdx idx
          else b.segments.set idx (segLen - dropLen segLen want, segConcealed)).length +
            (if dropLen segLen want = segLen then 1 else 0) = b.segments.length := by
        split
        · rw [List.length_eraseIdx_of_lt hidx]
          omega
        · rw [List.length_set]
          rfl
      split at h <;> rw [Option.map_eq_some_iff] at h <;> obtain ⟨left, -, rfl⟩ := h
      all_goals
        rw [hdata, ← hsegments]
        by_cases heq : dropLen segLen want = segLen <;> simp only [heq, if_true] <;> omega

/-- `while self.received_bytes > self.max_bytes`: drop from the front. -/
def evictReceived (b : SttPreRollBuffer) : Option SttPreRollBuffer :=
  if b.receivedBytes > b.maxBytes then
    match _hdrop : b.dropFromSegment 0 (b.receivedBytes - b.maxBytes) with
    | none => none
    | some b' => evictReceived b'
  else some b
termination_by b.data.length + b.segments.length
decreasing_by exact dropFromSegment_decreases _hdrop

/-- `while self.concealed_bytes > self.max_concealed_bytes`: drop the oldest concealed
bytes, wherever they sit. -/
def evictConcealed (b : SttPreRollBuffer) : Option SttPreRollBuffer :=
  if b.concealedBytes > b.maxConcealedBytes then
    match b.segments.findIdx? Prod.snd with
    | none => some b
    | some idx =>
      match _hdrop : b.dropFromSegment idx (b.concealedBytes - b.maxConcealedBytes) with
      | none => none
      | some b' => evictConcealed b'
  else some b
termination_by b.data.length + b.segments.length
decreasing_by exact dropFromSegment_decreases _hdrop

/-- The first half of `push_frame`: the frame is stored and counted. -/
def append (b : SttPreRollBuffer) (monoBytes : List UInt8) (concealed : Bool) :
    SttPreRollBuffer :=
  let b := { b with
    data := b.data ++ monoBytes
    segments := b.segments ++ [(monoBytes.length, concealed)] }
  if concealed then { b with concealedBytes := b.concealedBytes + monoBytes.length }
  else { b with receivedBytes := b.receivedBytes + monoBytes.length }

/-- Appends mono PCM flagged as received or concealed, then trims both budgets. -/
def pushFrame (b : SttPreRollBuffer) (monoBytes : List UInt8) (concealed : Bool) :
    Option SttPreRollBuffer :=
  if monoBytes.isEmpty then some b
  else (b.append monoBytes concealed).evictReceived.bind evictConcealed

def step : Step SttPreRollBuffer (List UInt8 × Bool) Unit := fun b frame =>
  (b.pushFrame frame.1 frame.2).map fun b' => (b', [])

/-! ## The ring as a list of pieces -/

/-- The bytes of the pieces of one kind, oldest first. -/
def bytesOf (concealed : Bool) (pieces : List (List UInt8 × Bool)) : List UInt8 :=
  (pieces.filter (·.2 == concealed)).flatMap Prod.fst

@[simp] theorem bytesOf_append (c : Bool) (ps qs : List (List UInt8 × Bool)) :
    bytesOf c (ps ++ qs) = bytesOf c ps ++ bytesOf c qs := by
  simp [bytesOf]

@[simp] theorem bytesOf_nil (c : Bool) : bytesOf c [] = [] := rfl

@[simp] theorem bytesOf_cons (c : Bool) (p : List UInt8 × Bool) (ps : List (List UInt8 × Bool)) :
    bytesOf c (p :: ps) = (if p.2 = c then p.1 else []) ++ bytesOf c ps := by
  unfold bytesOf
  by_cases h : p.2 = c <;> simp [h]

/-- The ring holds `pieces`: the segment lengths sum to the data, the counters are
exact, and no piece is empty or cuts a sample in two. -/
structure Holds (b : SttPreRollBuffer) (pieces : List (List UInt8 × Bool)) : Prop where
  data : b.data = pieces.flatMap Prod.fst
  segments : b.segments = pieces.map fun p => (p.1.length, p.2)
  received : b.receivedBytes = (bytesOf false pieces).length
  concealed : b.concealedBytes = (bytesOf true pieces).length
  pos : ∀ p ∈ pieces, 0 < p.1.length
  even : ∀ p ∈ pieces, p.1.length % 2 = 0

variable {pieces : List (List UInt8 × Bool)}

theorem bytesOf_even {c : Bool} (h : ∀ p ∈ pieces, p.1.length % 2 = 0) :
    (bytesOf c pieces).length % 2 = 0 := by
  induction pieces with
  | nil => rfl
  | cons p ps ih =>
    have hp := h p List.mem_cons_self
    have hps := ih fun q hq => h q (List.mem_cons_of_mem p hq)
    rw [bytesOf_cons, List.length_append]
    split
    · omega
    · simpa using hps

/-- What is left of a piece after `want` bytes were asked of it. -/
def cut (piece : List UInt8 × Bool) (want : Nat) : List (List UInt8 × Bool) :=
  if piece.1.length ≤ want then [] else [(piece.1.drop want, piece.2)]

theorem bytesOf_cut (c : Bool) (piece : List UInt8 × Bool) (want : Nat) :
    bytesOf c (cut piece want) = if piece.2 = c then piece.1.drop want else [] := by
  unfold cut
  split
  · next hle => simp [List.drop_of_length_le hle]
  · simp

theorem flatMap_cut (piece : List UInt8 × Bool) (want : Nat) :
    (cut piece want).flatMap Prod.fst = piece.1.drop want := by
  unfold cut
  split
  · next hle => simp [List.drop_of_length_le hle]
  · simp

theorem dropLen_of_even {segLen want : Nat} (hpos : 0 < want) (heven : want % 2 = 0) :
    dropLen segLen want = min want segLen := by
  unfold dropLen
  split <;> omega

theorem sum_segments (pieces : List (List UInt8 × Bool)) :
    ((pieces.map fun p => (p.1.length, p.2)).map Prod.fst).sum =
      (pieces.flatMap Prod.fst).length := by
  simp [Function.comp_def]

theorem dropFromSegment_holds (before : List (List UInt8 × Bool)) {after : List (List UInt8 × Bool)}
    {piece : List UInt8 × Bool} (want : Nat) (h : b.Holds (before ++ piece :: after))
    (hpos : 0 < want) (heven : want % 2 = 0) :
    ∃ b', b.dropFromSegment before.length want = some b' ∧
      b'.Holds (before ++ (cut piece want ++ after)) ∧
      b'.maxBytes = b.maxBytes ∧ b'.maxConcealedBytes = b.maxConcealedBytes := by
  obtain ⟨bytes, c⟩ := piece
  have hseg : b.segments[before.length]? = some (bytes.length, c) := by simp [h.segments]
  have hoffset : ((b.segments.take before.length).map Prod.fst).sum =
      (before.flatMap Prod.fst).length := by
    rw [← sum_segments, h.segments]
    simp
  have hdropLen : dropLen bytes.length want = min want bytes.length := dropLen_of_even hpos heven
  have hdata : b.data = before.flatMap Prod.fst ++ (bytes ++ after.flatMap Prod.fst) := by
    rw [h.data]
    simp
  have hbytes : 0 < bytes.length ∧ bytes.length % 2 = 0 :=
    ⟨h.pos (bytes, c) (by simp), h.even (bytes, c) (by simp)⟩
  have hcut : b.data.take (before.flatMap Prod.fst).length ++
      b.data.drop ((before.flatMap Prod.fst).length + min want bytes.length) =
        (before ++ (cut (bytes, c) want ++ after)).flatMap Prod.fst := by
    have hdrop : bytes.drop (min want bytes.length) = bytes.drop want := by
      rcases Nat.le_total want bytes.length with hle | hle
      · rw [Nat.min_eq_left hle]
      · rw [Nat.min_eq_right hle, List.drop_length, List.drop_of_length_le hle]
    rw [hdata, List.take_left', List.drop_append, List.drop_of_length_le (by omega),
      List.nil_append, Nat.add_sub_cancel_left, List.drop_append_of_le_length (by omega), hdrop,
      List.flatMap_append, List.flatMap_append, flatMap_cut]
    rfl
  have hsegments : (if min want bytes.length = bytes.length then b.segments.eraseIdx before.length
      else b.segments.set before.length (bytes.length - min want bytes.length, c)) =
        (before ++ (cut (bytes, c) want ++ after)).map fun p => (p.1.length, p.2) := by
    unfold cut
    rw [h.segments, List.map_append]
    by_cases hle : bytes.length ≤ want
    · rw [if_pos (by omega), if_pos hle, List.eraseIdx_append_of_length_le (by simp)]
      simp
    · rw [if_neg (by omega), if_neg hle]
      simp [Nat.min_eq_left (Nat.le_of_not_ge hle)]
  have hkept : ∀ p ∈ before ++ (cut (bytes, c) want ++ after),
      0 < p.1.length ∧ p.1.length % 2 = 0 := by
    intro p hp
    simp only [List.mem_append] at hp
    rcases hp with hp | hp | hp
    · exact ⟨h.pos _ (by simp [hp]), h.even _ (by simp [hp])⟩
    · unfold cut at hp
      split at hp
      · cases hp
      · next hle =>
        have hlong : ¬ bytes.length ≤ want := hle
        rw [List.mem_singleton] at hp
        subst hp
        change 0 < (bytes.drop want).length ∧ (bytes.drop want).length % 2 = 0
        rw [List.length_drop]
        omega
    · exact ⟨h.pos _ (by simp [hp]), h.even _ (by simp [hp])⟩
  have hrange : ¬ b.data.length < (before.flatMap Prod.fst).length + min want bytes.length := by
    rw [hdata, List.length_append, List.length_append]
    omega
  cases c with
  | false =>
    have hcounter : min want bytes.length ≤ b.receivedBytes := by
      rw [h.received]
      simp
      omega
    refine ⟨{ b with
      data := (before ++ (cut _ want ++ after)).flatMap Prod.fst
      segments := (before ++ (cut _ want ++ after)).map fun p => (p.1.length, p.2)
      receivedBytes := b.receivedBytes - min want bytes.length }, ?_, ⟨rfl, rfl, ?_, ?_,
      fun p hp => (hkept p hp).1, fun p hp => (hkept p hp).2⟩, rfl, rfl⟩
    · simp only [dropFromSegment, hseg, hoffset, hdropLen, if_neg hrange, Bool.false_eq_true,
        if_false, checkedSub, if_pos hcounter, Option.map_some, hcut, hsegments]
    · simp [h.received, bytesOf_cut]
      omega
    · simp [h.concealed, bytesOf_cut]
  | true =>
    have hcounter : min want bytes.length ≤ b.concealedBytes := by
      rw [h.concealed]
      simp
      omega
    refine ⟨{ b with
      data := (before ++ (cut _ want ++ after)).flatMap Prod.fst
      segments := (before ++ (cut _ want ++ after)).map fun p => (p.1.length, p.2)
      concealedBytes := b.concealedBytes - min want bytes.length }, ?_, ⟨rfl, rfl, ?_, ?_,
      fun p hp => (hkept p hp).1, fun p hp => (hkept p hp).2⟩, rfl, rfl⟩
    · simp only [dropFromSegment, hseg, hoffset, hdropLen, if_neg hrange, if_true, checkedSub,
        if_pos hcounter, Option.map_some, hcut, hsegments]
    · simp [h.received, bytesOf_cut]
    · simp [h.concealed, bytesOf_cut]
      omega

/-! ## Eviction -/

theorem rtake_drop {α : Type} {n k : Nat} {l : List α} (h : k + n ≤ l.length) :
    (l.drop k).rtake n = l.rtake n := by
  unfold List.rtake
  rw [List.drop_drop, List.length_drop]
  congr 1
  omega

theorem rtake_rtake_append {α : Type} (n : Nat) (l m : List α) :
    (l.rtake n ++ m).rtake n = (l ++ m).rtake n := by
  unfold List.rtake
  rw [List.drop_append, List.drop_append, List.drop_drop]
  congr 2 <;> simp <;> omega

theorem rtake_of_length_le {α : Type} {n : Nat} {l : List α} (h : l.length ≤ n) :
    l.rtake n = l := by
  unfold List.rtake
  rw [Nat.sub_eq_zero_of_le h, List.drop_zero]

/-- `b` becomes `b'` by evictions that keep the last `maxBytes` received bytes. -/
structure Evicts (b : SttPreRollBuffer) (pieces : List (List UInt8 × Bool))
    (b' : SttPreRollBuffer) (pieces' : List (List UInt8 × Bool)) : Prop where
  holds : b'.Holds pieces'
  maxBytes : b'.maxBytes = b.maxBytes
  maxConcealed : b'.maxConcealedBytes = b.maxConcealedBytes
  received : (bytesOf false pieces').rtake b.maxBytes = (bytesOf false pieces).rtake b.maxBytes
  concealed : (bytesOf true pieces').length ≤ (bytesOf true pieces).length

theorem Evicts.trans {b₁ b₂ : SttPreRollBuffer} {ps ps₁ ps₂ : List (List UInt8 × Bool)}
    (h₁ : Evicts b ps b₁ ps₁) (h₂ : Evicts b₁ ps₁ b₂ ps₂) : Evicts b ps b₂ ps₂ where
  holds := h₂.holds
  maxBytes := h₂.maxBytes.trans h₁.maxBytes
  maxConcealed := h₂.maxConcealed.trans h₁.maxConcealed
  received := by
    rw [← h₁.received, ← h₁.maxBytes]
    exact h₂.received
  concealed := Nat.le_trans h₂.concealed h₁.concealed

/-- A cut drops only bytes over the capacity from the front, so the newest received bytes
within it stay. -/
theorem rtake_bytesOf_cut {piece : List UInt8 × Bool} {after : List (List UInt8 × Bool)}
    {cap want : Nat} (h : cap + want ≤ (bytesOf false (piece :: after)).length) :
    (bytesOf false (cut piece want ++ after)).rtake cap =
      (bytesOf false (piece :: after)).rtake cap := by
  obtain ⟨bytes, c⟩ := piece
  cases c with
  | false =>
    have hcut : bytesOf false (cut (bytes, false) want ++ after) =
        (bytesOf false ((bytes, false) :: after)).drop (min want bytes.length) := by
      simp only [bytesOf_append, bytesOf_cut, bytesOf_cons, if_true]
      rw [List.drop_append_of_le_length (Nat.min_le_right _ _)]
      rcases Nat.le_total want bytes.length with hle | hle
      · rw [Nat.min_eq_left hle]
      · rw [Nat.min_eq_right hle, List.drop_length, List.drop_of_length_le hle]
    rw [hcut]
    exact rtake_drop (by omega)
  | true => simp [bytesOf_cut]

theorem length_bytesOf_cut_le (c : Bool) (piece : List UInt8 × Bool) (want : Nat)
    (after : List (List UInt8 × Bool)) :
    (bytesOf c (cut piece want ++ after)).length ≤ (bytesOf c (piece :: after)).length := by
  rw [bytesOf_append, bytesOf_cut]
  by_cases hc : piece.2 = c <;> simp [hc]

theorem evictReceived_step (hfull : b.receivedBytes > b.maxBytes)
    (hdrop : b.dropFromSegment 0 (b.receivedBytes - b.maxBytes) = some b') :
    b.evictReceived = b'.evictReceived := by
  rw [evictReceived, if_pos hfull]
  split
  · next hnone => cases hnone.symm.trans hdrop
  · next b'' hsome => rw [Option.some.inj (hsome.symm.trans hdrop)]

theorem evictReceived_done (h : ¬ b.receivedBytes > b.maxBytes) : b.evictReceived = some b := by
  rw [evictReceived, if_neg h]

/-- The first loop ends without a panic, with the received bytes within the capacity.
What its cuts keep, it keeps. -/
theorem evictReceived_rule {R : List (List UInt8 × Bool) → Prop} (h : b.Holds pieces)
    (hmax : b.maxBytes % 2 = 0) (hR : R pieces)
    (hcut : ∀ piece after, b.maxBytes < (bytesOf false (piece :: after)).length →
      R (piece :: after) →
        R (cut piece ((bytesOf false (piece :: after)).length - b.maxBytes) ++ after)) :
    ∃ b' pieces', b.evictReceived = some b' ∧ b'.Holds pieces' ∧ R pieces' ∧
      b'.maxBytes = b.maxBytes ∧ b'.maxConcealedBytes = b.maxConcealedBytes ∧
      b'.receivedBytes ≤ b'.maxBytes := by
  induction hsize : b.data.length + b.segments.length using Nat.strong_induction_on
    generalizing b pieces with
  | _ size ih =>
    by_cases hfull : b.receivedBytes > b.maxBytes
    · have hreceived := h.received
      have heven := bytesOf_even (c := false) h.even
      cases pieces with
      | nil =>
        rw [bytesOf_nil, List.length_nil] at hreceived
        omega
      | cons piece after =>
        obtain ⟨b₁, hdrop, hb₁, hm₁, hc₁⟩ := dropFromSegment_holds []
          (b.receivedBytes - b.maxBytes) h (by omega) (by omega)
        have hR₁ := hcut piece after (by omega) hR
        rw [← hreceived] at hR₁
        obtain ⟨b', pieces', hrest, hb', hR', hm, hc, hle⟩ := ih _
          (hsize ▸ dropFromSegment_decreases hdrop) hb₁ (hm₁ ▸ hmax) hR₁ (hm₁ ▸ hcut) rfl
        exact ⟨b', pieces', (evictReceived_step hfull hdrop).trans hrest, hb', hR',
          hm.trans hm₁, hc.trans hc₁, hle⟩
    · exact ⟨b, pieces, evictReceived_done hfull, h, hR, rfl, rfl, by omega⟩

theorem evictReceived_holds (h : b.Holds pieces) (hmax : b.maxBytes % 2 = 0) :
    ∃ b' pieces', b.evictReceived = some b' ∧ Evicts b pieces b' pieces' ∧
      b'.receivedBytes ≤ b'.maxBytes := by
  obtain ⟨b', pieces', hrun, hb', ⟨hreceived, hconcealed⟩, hm, hc, hle⟩ :=
    evictReceived_rule
      (R := fun ps => (bytesOf false ps).rtake b.maxBytes =
          (bytesOf false pieces).rtake b.maxBytes ∧
        (bytesOf true ps).length ≤ (bytesOf true pieces).length) h hmax ⟨rfl, Nat.le_refl _⟩ (by
      intro piece after hover hps
      exact ⟨(rtake_bytesOf_cut (by omega)).trans hps.1,
        Nat.le_trans (length_bytesOf_cut_le true piece _ after) hps.2⟩)
  exact ⟨b', pieces', hrun, ⟨hb', hm, hc, hreceived, hconcealed⟩, hle⟩

theorem evictConcealed_step {idx : Nat} (hfull : b.concealedBytes > b.maxConcealedBytes)
    (hidx : b.segments.findIdx? Prod.snd = some idx)
    (hdrop : b.dropFromSegment idx (b.concealedBytes - b.maxConcealedBytes) = some b') :
    b.evictConcealed = b'.evictConcealed := by
  rw [evictConcealed, if_pos hfull]
  split
  · next hnone => cases hnone.symm.trans hidx
  · next i hsome =>
    obtain rfl := Option.some.inj (hsome.symm.trans hidx)
    split
    · next hnone => cases hnone.symm.trans hdrop
    · next b'' hsome => rw [Option.some.inj (hsome.symm.trans hdrop)]

theorem evictConcealed_done (h : ¬ b.concealedBytes > b.maxConcealedBytes) :
    b.evictConcealed = some b := by
  rw [evictConcealed, if_neg h]

theorem findIdx?_concealed (h : 0 < (bytesOf true pieces).length) :
    ∃ before bytes after, pieces = before ++ (bytes, true) :: after ∧
      (∀ p ∈ before, p.2 = false) ∧
      (pieces.map fun p => (p.1.length, p.2)).findIdx? Prod.snd = some before.length := by
  induction pieces with
  | nil => cases h
  | cons piece ps ih =>
    obtain ⟨bytes, c⟩ := piece
    cases c with
    | true => exact ⟨[], bytes, ps, rfl, by simp, rfl⟩
    | false =>
      obtain ⟨before, found, after, rfl, hbefore, hidx⟩ := ih (by simpa using h)
      refine ⟨(bytes, false) :: before, found, after, rfl, ?_, ?_⟩
      · rw [List.forall_mem_cons]
        exact ⟨rfl, hbefore⟩
      rw [List.map_cons, List.findIdx?_cons, hidx]
      rfl

/-- The second loop ends without a panic, with the concealed bytes within their cap. What
its cuts keep, it keeps. -/
theorem evictConcealed_rule {R : List (List UInt8 × Bool) → Prop} (h : b.Holds pieces)
    (hmax : b.maxConcealedBytes % 2 = 0) (hR : R pieces)
    (hcut : ∀ before bytes after, (∀ p ∈ before, p.2 = false) →
      b.maxConcealedBytes < (bytesOf true (before ++ (bytes, true) :: after)).length →
      R (before ++ (bytes, true) :: after) →
        R (before ++ (cut (bytes, true)
          ((bytesOf true (before ++ (bytes, true) :: after)).length - b.maxConcealedBytes) ++
            after))) :
    ∃ b' pieces', b.evictConcealed = some b' ∧ b'.Holds pieces' ∧ R pieces' ∧
      b'.maxBytes = b.maxBytes ∧ b'.maxConcealedBytes = b.maxConcealedBytes ∧
      b'.concealedBytes ≤ b'.maxConcealedBytes := by
  induction hsize : b.data.length + b.segments.length using Nat.strong_induction_on
    generalizing b pieces with
  | _ size ih =>
    by_cases hfull : b.concealedBytes > b.maxConcealedBytes
    · have hconcealed := h.concealed
      have heven := bytesOf_even (c := true) h.even
      have hsome : 0 < (bytesOf true pieces).length := by omega
      obtain ⟨before, bytes, after, rfl, hbefore, hidx⟩ := findIdx?_concealed hsome
      rw [← h.segments] at hidx
      obtain ⟨b₁, hdrop, hb₁, hm₁, hc₁⟩ := dropFromSegment_holds before
        (b.concealedBytes - b.maxConcealedBytes) h (by omega) (by omega)
      have hR₁ := hcut before bytes after hbefore (by omega) hR
      rw [← hconcealed] at hR₁
      obtain ⟨b', pieces', hrest, hb', hR', hm, hc, hle⟩ := ih _
        (hsize ▸ dropFromSegment_decreases hdrop) hb₁ (hc₁ ▸ hmax) hR₁ (hc₁ ▸ hcut) rfl
      exact ⟨b', pieces', (evictConcealed_step hfull hidx hdrop).trans hrest, hb', hR',
        hm.trans hm₁, hc.trans hc₁, hle⟩
    · exact ⟨b, pieces, evictConcealed_done hfull, h, hR, rfl, rfl, by omega⟩

theorem evictConcealed_holds (h : b.Holds pieces) (hmax : b.maxConcealedBytes % 2 = 0) :
    ∃ b' pieces', b.evictConcealed = some b' ∧ Evicts b pieces b' pieces' ∧
      b'.receivedBytes = b.receivedBytes ∧ b'.concealedBytes ≤ b'.maxConcealedBytes := by
  obtain ⟨b', pieces', hrun, hb', ⟨hreceived, hconcealed⟩, hm, hc, hle⟩ :=
    evictConcealed_rule
      (R := fun ps => bytesOf false ps = bytesOf false pieces ∧
        (bytesOf true ps).length ≤ (bytesOf true pieces).length) h hmax ⟨rfl, Nat.le_refl _⟩ (by
      intro before bytes after _ _ hps
      refine ⟨Eq.trans ?_ hps.1, Nat.le_trans ?_ hps.2⟩
      · simp [bytesOf_cut]
      · simp [bytesOf_cut])
  exact ⟨b', pieces', hrun, ⟨hb', hm, hc, by rw [hreceived], hconcealed⟩,
    by rw [hb'.received, hreceived, h.received], hle⟩

/-! ## A whole run -/

/-- What holds between two calls: the budgets are kept, and the received audio is the
newest of what was pushed. -/
structure Keeps (cap : Nat) (frames : List (List UInt8 × Bool)) (b : SttPreRollBuffer)
    (pieces : List (List UInt8 × Bool)) : Prop where
  holds : b.Holds pieces
  maxBytes : b.maxBytes = cap
  maxConcealed : b.maxConcealedBytes = monoS16leBytesForDurationMs PRE_ROLL_MAX_CONCEALED_MS
  received_le : b.receivedBytes ≤ cap
  concealed_le : b.concealedBytes ≤ monoS16leBytesForDurationMs PRE_ROLL_MAX_CONCEALED_MS
  received : bytesOf false pieces = (bytesOf false frames).rtake cap
  concealed : (bytesOf true pieces).length ≤ (bytesOf true frames).length

theorem Holds.append {bytes : List UInt8} {c : Bool} (h : b.Holds pieces) (hpos : 0 < bytes.length)
    (heven : bytes.length % 2 = 0) : (b.append bytes c).Holds (pieces ++ [(bytes, c)]) := by
  have hmem : ∀ p ∈ pieces ++ [(bytes, c)], 0 < p.1.length ∧ p.1.length % 2 = 0 := by
    intro p hp
    rw [List.mem_append, List.mem_singleton] at hp
    rcases hp with hp | rfl
    · exact ⟨h.pos p hp, h.even p hp⟩
    · exact ⟨hpos, heven⟩
  cases c
  all_goals
    refine ⟨?_, ?_, ?_, ?_, fun p hp => (hmem p hp).1, fun p hp => (hmem p hp).2⟩
    · simp [SttPreRollBuffer.append, h.data]
    · simp [SttPreRollBuffer.append, h.segments]
    · simp [SttPreRollBuffer.append, h.received]
    · simp [SttPreRollBuffer.append, h.concealed]

theorem append_budgets (b : SttPreRollBuffer) (bytes : List UInt8) (c : Bool) :
    (b.append bytes c).maxBytes = b.maxBytes ∧
      (b.append bytes c).maxConcealedBytes = b.maxConcealedBytes := by
  cases c <;> exact ⟨rfl, rfl⟩

theorem concealed_budget_even :
    monoS16leBytesForDurationMs PRE_ROLL_MAX_CONCEALED_MS % 2 = 0 := by
  decide

theorem Keeps.pushFrame {cap : Nat} {frames : List (List UInt8 × Bool)} {frame : List UInt8 × Bool}
    (h : Keeps cap frames b pieces) (hcap : cap % 2 = 0) (heven : frame.1.length % 2 = 0) :
    ∃ b' pieces', b.pushFrame frame.1 frame.2 = some b' ∧
      Keeps cap (frames ++ [frame]) b' pieces' := by
  obtain ⟨bytes, c⟩ := frame
  by_cases hempty : bytes.isEmpty = true
  · rw [List.isEmpty_iff] at hempty
    subst hempty
    refine ⟨b, pieces, rfl, { h with received := ?_, concealed := ?_ }⟩
    · simpa using h.received
    · simpa using h.concealed
  · have hpos : 0 < bytes.length := List.length_pos_iff.mpr (by simpa using hempty)
    have happend := h.holds.append (c := c) hpos heven
    obtain ⟨hmax, hmaxConcealed⟩ := append_budgets b bytes c
    obtain ⟨b₁, ps₁, hrun₁, hev₁, hle₁⟩ :=
      evictReceived_holds happend (by rw [hmax, h.maxBytes]; exact hcap)
    obtain ⟨b₂, ps₂, hrun₂, hev₂, hsame, hle₂⟩ := evictConcealed_holds hev₁.holds (by
      rw [hev₁.maxConcealed, hmaxConcealed, h.maxConcealed]
      exact concealed_budget_even)
    have hev := hev₁.trans hev₂
    have hcap₂ : b₂.maxBytes = cap := by rw [hev.maxBytes, hmax, h.maxBytes]
    have hcapConcealed : b₂.maxConcealedBytes =
        monoS16leBytesForDurationMs PRE_ROLL_MAX_CONCEALED_MS := by
      rw [hev.maxConcealed, hmaxConcealed, h.maxConcealed]
    have hreceived_le : b₂.receivedBytes ≤ cap := by
      rw [hsame, ← hcap₂, hev₂.maxBytes]
      exact hle₁
    refine ⟨b₂, ps₂, ?_, hev.holds, hcap₂, hcapConcealed, hreceived_le, hcapConcealed ▸ hle₂,
      ?_, ?_⟩
    · simp only [SttPreRollBuffer.pushFrame, hempty, Bool.false_eq_true, if_false, hrun₁,
        Option.bind_some, hrun₂]
    · have hkept := hev.received
      rw [hmax, h.maxBytes, bytesOf_append, h.received, rtake_rtake_append] at hkept
      rw [bytesOf_append, ← hkept, rtake_of_length_le]
      rw [← hev.holds.received]
      exact hreceived_le
    · refine Nat.le_trans hev.concealed ?_
      rw [bytesOf_append, bytesOf_append, List.length_append, List.length_append]
      exact Nat.add_le_add_right h.concealed _

def plainRing (cap : Nat) (chunks : List (List UInt8)) : List UInt8 :=
  chunks.foldl (fun ring chunk => (ring ++ chunk).rtake cap) []

theorem plainRing_eq (cap : Nat) (chunks : List (List UInt8)) :
    plainRing cap chunks = chunks.flatten.rtake cap := by
  induction chunks using List.reverseRecOn with
  | nil => simp [plainRing]
  | append_singleton chunks chunk ih =>
    unfold plainRing at ih ⊢
    rw [List.foldl_append, ih]
    simp [rtake_rtake_append]

theorem capacity_even (capacityMs : UInt32) : monoS16leBytesForDurationMs capacityMs % 2 = 0 := by
  have hbound := capacityMs.toNat_lt
  unfold monoS16leBytesForDurationMs u64Max STT_PCM_SAMPLE_RATE
  omega

theorem Holds.data_eq_received (h : b.Holds pieces) (hnone : (bytesOf true pieces).length = 0) :
    b.data = bytesOf false pieces := by
  rw [h.data]
  have hpos := h.pos
  clear h
  induction pieces with
  | nil => rfl
  | cons p ps ih =>
    obtain ⟨bytes, c⟩ := p
    have hp := hpos (bytes, c) List.mem_cons_self
    rw [bytesOf_cons, List.length_append] at hnone
    rw [List.flatMap_cons, ih (by omega) fun q hq => hpos q (List.mem_cons_of_mem _ hq)]
    cases c with
    | false => simp
    | true =>
      simp only [if_true] at hnone hp
      omega

/-- Every sequence of `push_frame` calls with whole samples runs without a panic. The
segments then sum to the data, both counters are exact and within their budgets, and the
received audio kept is exactly the newest received audio, whatever was concealed. Without
concealed frames the ring is a plain byte ring. -/
theorem push_frames_keep_newest (capacityMs : UInt32) (frames : List (List UInt8 × Bool))
    (heven : ∀ frame ∈ frames, frame.1.length % 2 = 0) :
    ∃ b pieces, run step (new capacityMs) frames = some (b, []) ∧
      b.data = pieces.flatMap Prod.fst ∧
      b.segments = pieces.map (fun p => (p.1.length, p.2)) ∧
      (b.segments.map Prod.fst).sum = b.data.length ∧
      b.receivedBytes = (bytesOf false pieces).length ∧
      b.concealedBytes = (bytesOf true pieces).length ∧
      b.receivedBytes ≤ monoS16leBytesForDurationMs (max capacityMs 1) ∧
      b.concealedBytes ≤ monoS16leBytesForDurationMs PRE_ROLL_MAX_CONCEALED_MS ∧
      bytesOf false pieces =
        (bytesOf false frames).rtake (monoS16leBytesForDurationMs (max capacityMs 1)) ∧
      ((∀ frame ∈ frames, frame.2 = false) →
        b.data = plainRing (monoS16leBytesForDurationMs (max capacityMs 1))
          (frames.map Prod.fst)) := by
  have hstep : ∀ (frames : List (List UInt8 × Bool)) (os : List Unit) (b : SttPreRollBuffer)
      (frame : List UInt8 × Bool),
      (os = [] ∧ ∃ pieces,
        Keeps (monoS16leBytesForDurationMs (max capacityMs 1)) frames b pieces) →
      frame.1.length % 2 = 0 →
      ∃ b' out, step b frame = some (b', out) ∧ (os ++ out = [] ∧ ∃ pieces,
        Keeps (monoS16leBytesForDurationMs (max capacityMs 1)) (frames ++ [frame]) b'
          pieces) := by
    intro frames os b frame h hframe
    obtain ⟨rfl, pieces, hkeeps⟩ := h
    obtain ⟨b', pieces', hpush, hkeeps'⟩ := hkeeps.pushFrame (capacity_even _) hframe
    refine ⟨b', [], ?_, rfl, pieces', hkeeps'⟩
    simp only [step, hpush, Option.map_some]
  have hnew : Keeps (monoS16leBytesForDurationMs (max capacityMs 1)) [] (new capacityMs) [] :=
    ⟨⟨rfl, rfl, rfl, rfl, by simp, by simp⟩, rfl, rfl, Nat.zero_le _, Nat.zero_le _, by simp,
      by simp⟩
  obtain ⟨b, os, hrun, rfl, pieces, h⟩ :=
    run_spec hstep ⟨rfl, [], hnew⟩ (along_of_forall_mem heven _)
  refine ⟨b, pieces, hrun, h.holds.data, h.holds.segments, ?_, h.holds.received,
    h.holds.concealed, h.received_le, h.concealed_le, h.received, ?_⟩
  · rw [h.holds.segments, sum_segments, h.holds.data]
  · intro hplain
    have hnone : bytesOf true frames = [] := by
      simp only [bytesOf, List.flatMap_eq_nil_iff, List.mem_filter]
      intro frame hframe
      simp [hplain frame hframe.1] at hframe
    have hall : bytesOf false frames = (frames.map Prod.fst).flatten := by
      unfold bytesOf
      rw [List.filter_eq_self.mpr fun frame hframe => by simp [hplain frame hframe]]
      rfl
    have hconcealed := h.concealed
    rw [hnone] at hconcealed
    rw [h.holds.data_eq_received (Nat.le_zero.mp hconcealed), h.received, hall, plainRing_eq]

/-- Two frames of a 1 ms ring, the second one concealed: the ring keeps both. -/
theorem push_frames_keep_newest_two :
    (∀ frame ∈ [([1, 2, 3, 4], false), ([5, 6], true)], frame.1.length % 2 = 0) ∧
      ∃ b pieces, run step (new 1) [([1, 2, 3, 4], false), ([5, 6], true)] = some (b, []) ∧
        b.data = pieces.flatMap Prod.fst ∧
        bytesOf false pieces = [1, 2, 3, 4].rtake (monoS16leBytesForDurationMs (max 1 1)) := by
  have heven : ∀ frame ∈ [(([1, 2, 3, 4] : List UInt8), false), ([5, 6], true)],
      frame.1.length % 2 = 0 := by
    decide
  obtain ⟨b, pieces, hrun, hdata, -, -, -, -, -, -, hkept, -⟩ :=
    push_frames_keep_newest 1 [([1, 2, 3, 4], false), ([5, 6], true)] heven
  exact ⟨by decide, b, pieces, hrun, hdata, hkept⟩

end SttPreRollBuffer

end NodeWebrtc.Speech
