import NodeWebrtc.Lib.Budget
import NodeWebrtc.Speech.ShortBurst

/-! # The lead-in of a new recognizer stream

While the gate is closed every inbound frame goes to the pre-roll ring, and short voiced
bursts are kept beside it. A SpeechStart that opens a new stream prepends the part of the
retained burst that is no longer in the ring, a separator when the two are not contiguous,
and the ring. Which part that is follows from the age of the burst in ms and from the
ring's capacity. The ring counts received bytes only, so with concealed frames it reaches
further back.
-/

namespace NodeWebrtc.Speech

open Machine

/-! ## The two buffers -/

namespace SttPreRollBuffer

def capacityMs (b : SttPreRollBuffer) : UInt32 := monoDurationMsFromBytes b.maxBytes

/-- The ring without its data and with its counters reset. -/
def emptied (b : SttPreRollBuffer) : SttPreRollBuffer :=
  { b with data := [], segments := [], receivedBytes := 0, concealedBytes := 0 }

def drain (b : SttPreRollBuffer) : List UInt8 × SttPreRollBuffer :=
  if b.data.isEmpty then ([], b) else (b.data, b.emptied)

/-- Takes all, with digital silence on the left when the ring is not full. -/
def drainPaddedToCapacity (b : SttPreRollBuffer) : List UInt8 × SttPreRollBuffer :=
  if b.data.isEmpty then ([], b)
  else if b.receivedBytes ≥ b.maxBytes then b.drain
  else (List.replicate ((b.maxBytes - b.receivedBytes) / 2 * 2) 0 ++ b.data, b.emptied)

end SttPreRollBuffer

/-- The agent's two lead-in buffers. Without a gate there is no ring. -/
structure PreRollState where
  sttPreRoll : Option SttPreRollBuffer
  shortBurst : ShortBurstRetainer
deriving DecidableEq

/-- One inbound frame. `voicedPending` is `frame_active && vad_pending && !vad_speaking`. -/
structure InboundFrame where
  monoBytes : List UInt8
  voicedPending : Bool
  concealed : Bool
  durationMs : UInt32
deriving DecidableEq

structure LeadIn where
  preRollAfterStart : Option (List UInt8)
  heldSameStream : Option (List UInt8)
  burstHead : Option (List UInt8 × Bool)
deriving DecidableEq

namespace PreRollState

def new (capacityMs : UInt32) : PreRollState :=
  ⟨some (SttPreRollBuffer.new capacityMs), ShortBurstRetainer.new⟩

def push (s : PreRollState) (monoBytes : List UInt8) (concealed : Bool) : Option PreRollState :=
  match s.sttPreRoll with
  | none => some s
  | some ring =>
    (ring.pushFrame monoBytes concealed).map fun ring => { s with sttPreRoll := some ring }

def gateClosed : Step PreRollState InboundFrame Unit := fun s frame =>
  (s.push frame.monoBytes frame.concealed).map fun s =>
    ({ s with
      shortBurst :=
        s.shortBurst.onFrame frame.monoBytes frame.voicedPending frame.durationMs }, [])

/-- The held-back onset and the copy of what was sent before it go to the ring when a new
stream opens. What is left of the onset is for the stream that is open. -/
def takeHeld (s : PreRollState) (newStream : Bool) (heldOnset heldLookback : List UInt8) :
    Option (PreRollState × List UInt8) :=
  (if newStream && !heldLookback.isEmpty then s.push heldLookback false else some s).bind fun s =>
    if newStream && !heldOnset.isEmpty && s.sttPreRoll.isSome then
      (s.push heldOnset false).map fun s => (s, [])
    else some (s, heldOnset)

def joined (burstHead : Option (List UInt8 × Bool)) (buffered : List UInt8) : List UInt8 :=
  match burstHead with
  | none => buffered
  | some (head, contiguous) =>
    head ++ (if contiguous then []
      else List.replicate (monoS16leBytesForDurationMs SHORT_BURST_SEPARATOR_MS) 0) ++ buffered

/-- The rest of the SpeechStart: both buffers are emptied, and the lead-in goes out. -/
def drainLeadIn (s : PreRollState) (newStream : Bool) :
    PreRollState × Option (List UInt8) × Option (List UInt8 × Bool) :=
  let capacityMs := s.sttPreRoll.elim 0 SttPreRollBuffer.capacityMs
  let taken :=
    if newStream then s.shortBurst.takeForNewStream capacityMs
    else (none, ShortBurstRetainer.new)
  match s.sttPreRoll with
  | none => (⟨none, taken.2⟩, none, taken.1)
  | some ring =>
    let drained :=
      if newStream && taken.1.isNone then ring.drainPaddedToCapacity else ring.drain
    let buffered := joined taken.1 drained.1
    (⟨some drained.2, taken.2⟩, if buffered.isEmpty then none else some buffered, taken.1)

def speechStart (s : PreRollState) (newStream : Bool) (heldOnset heldLookback : List UInt8) :
    Option (PreRollState × LeadIn) :=
  (s.takeHeld newStream heldOnset heldLookback).map fun held =>
    let drained := held.1.drainLeadIn newStream
    (drained.1,
      { preRollAfterStart := drained.2.1
        heldSameStream := if held.2.isEmpty then none else some held.2
        burstHead := drained.2.2 })

end PreRollState

/-! ## What the ring holds, byte by byte -/

namespace SttPreRollBuffer

open Budget

/-- The bytes of the pieces, each with the flag of its piece. -/
def marked (pieces : List (List UInt8 × Bool)) : List (UInt8 × Bool) :=
  pieces.flatMap fun p => p.1.map fun byte => (byte, p.2)

@[simp] theorem marked_append (ps qs : List (List UInt8 × Bool)) :
    marked (ps ++ qs) = marked ps ++ marked qs := List.flatMap_append

@[simp] theorem marked_cons (p : List UInt8 × Bool) (ps : List (List UInt8 × Bool)) :
    marked (p :: ps) = (p.1.map fun byte => (byte, p.2)) ++ marked ps := rfl

theorem map_fst_marked (pieces : List (List UInt8 × Bool)) :
    (marked pieces).map Prod.fst = pieces.flatMap Prod.fst := by
  induction pieces with
  | nil => rfl
  | cons p ps ih => simp [ih, Function.comp_def]

theorem count_flagged (c d : Bool) (bytes : List UInt8) :
    count c (bytes.map fun byte => (byte, d)) = if d = c then bytes.length else 0 := by
  induction bytes with
  | nil => simp
  | cons byte bytes ih =>
    rw [List.map_cons, count_cons, ih]
    split <;> simp

theorem count_marked (c : Bool) (pieces : List (List UInt8 × Bool)) :
    count c (marked pieces) = (bytesOf c pieces).length := by
  induction pieces with
  | nil => rfl
  | cons p ps ih =>
    rw [marked_cons, count_append, count_flagged, ih, bytesOf_cons, List.length_append]
    split <;> rfl

theorem marked_cut (piece : List UInt8 × Bool) (want : Nat) :
    marked (cut piece want) = (piece.1.drop want).map fun byte => (byte, piece.2) := by
  unfold cut
  split
  · next hle => simp [marked, List.drop_of_length_le hle]
  · simp [marked]

theorem dropOver_cut {cap : Nat} {piece : List UInt8 × Bool} {after : List (List UInt8 × Bool)}
    (h : cap < (bytesOf false (piece :: after)).length) :
    dropOver cap (marked (cut piece ((bytesOf false (piece :: after)).length - cap) ++ after)) =
      dropOver cap (marked (piece :: after)) := by
  obtain ⟨bytes, c⟩ := piece
  have hsplit : marked ((bytes, c) :: after) =
      (bytes.take ((bytesOf false ((bytes, c) :: after)).length - cap)).map (fun b => (b, c)) ++
        marked (cut (bytes, c) ((bytesOf false ((bytes, c) :: after)).length - cap) ++ after) := by
    rw [marked_append, marked_cut, ← List.append_assoc, ← List.map_append, List.take_append_drop,
      marked_cons]
  rw [hsplit, dropOver_append]
  intro x hx
  rw [List.mem_map] at hx
  obtain ⟨byte, -, rfl⟩ := hx
  rw [count_marked, bytesOf_append, bytesOf_cut, List.length_append]
  rw [bytesOf_cons, List.length_append] at h ⊢
  cases c
  · simp only [if_true, count_cons, count_nil, List.length_drop] at h ⊢
    omega
  · simpa using h

theorem dropFlagged_cut {extra : Nat} {before after : List (List UInt8 × Bool)}
    {bytes : List UInt8} (hbefore : ∀ p ∈ before, p.2 = false)
    (h : extra < (bytesOf true (before ++ (bytes, true) :: after)).length) :
    dropFlagged extra (marked (before ++ (cut (bytes, true)
        ((bytesOf true (before ++ (bytes, true) :: after)).length - extra) ++ after))) =
      dropFlagged extra (marked (before ++ (bytes, true) :: after)) := by
  have hunflagged : ∀ x ∈ marked before, x.2 = false := by
    intro x hx
    simp only [marked, List.mem_flatMap, List.mem_map] at hx
    obtain ⟨p, hp, byte, -, rfl⟩ := hx
    exact hbefore p hp
  have hnone : bytesOf true before = [] := by
    simp only [bytesOf, List.flatMap_eq_nil_iff, List.mem_filter]
    intro p hp
    simp [hbefore p hp.1] at hp
  rw [bytesOf_append, hnone, List.nil_append, bytesOf_cons, if_pos rfl, List.length_append] at h ⊢
  rw [marked_append before, marked_append before, dropFlagged_unflagged_append hunflagged,
    dropFlagged_unflagged_append hunflagged, marked_append, marked_cut, marked_cons]
  congr 1
  have hsplit : (bytes.map fun b => (b, true)) ++ marked after =
      (bytes.take (bytes.length + (bytesOf true after).length - extra)).map (fun b => (b, true)) ++
        ((bytes.drop (bytes.length + (bytesOf true after).length - extra)).map
          (fun b => (b, true)) ++ marked after) := by
    rw [← List.append_assoc, ← List.map_append, List.take_append_drop]
  rw [hsplit]
  refine (dropFlagged_append ?_ ?_).symm
  · intro x hx
    rw [List.mem_map] at hx
    obtain ⟨byte, -, rfl⟩ := hx
    rfl
  · rw [count_append, count_flagged, if_pos rfl, count_marked, List.length_drop]
    omega

/-- The ring holds what is kept of the marked bytes `l`. -/
structure HoldsKept (b : SttPreRollBuffer) (cap : Nat) (l : List (UInt8 × Bool)) : Prop where
  holds : ∃ pieces, b.Holds pieces ∧
    marked pieces = kept cap (monoS16leBytesForDurationMs PRE_ROLL_MAX_CONCEALED_MS) l
  maxBytes : b.maxBytes = cap
  maxConcealed : b.maxConcealedBytes = monoS16leBytesForDurationMs PRE_ROLL_MAX_CONCEALED_MS

variable {b : SttPreRollBuffer} {l : List (UInt8 × Bool)}

theorem HoldsKept.pushFrame {cap : Nat} (h : b.HoldsKept cap l) (hcap : cap % 2 = 0)
    {bytes : List UInt8} (heven : bytes.length % 2 = 0) (c : Bool) :
    ∃ b', b.pushFrame bytes c = some b' ∧
      b'.HoldsKept cap (l ++ bytes.map fun byte => (byte, c)) := by
  obtain ⟨⟨pieces, hpieces, hmarked⟩, hmax, hmaxConcealed⟩ := h
  by_cases hempty : bytes.isEmpty = true
  · rw [List.isEmpty_iff] at hempty
    subst hempty
    exact ⟨b, rfl, ⟨pieces, hpieces, by simpa using hmarked⟩, hmax, hmaxConcealed⟩
  · have hpos : 0 < bytes.length := List.length_pos_iff.mpr (by simpa using hempty)
    obtain ⟨hbudget, hbudgetConcealed⟩ := append_budgets b bytes c
    rw [hmax] at hbudget
    rw [hmaxConcealed] at hbudgetConcealed
    obtain ⟨b₁, ps₁, hrun₁, hb₁, hkept₁, hm₁, hc₁, hle₁⟩ := evictReceived_rule
      (R := fun ps => dropOver cap (marked ps) = dropOver cap (marked (pieces ++ [(bytes, c)])))
      (hpieces.append (c := c) hpos heven) (by rw [hbudget]; exact hcap) rfl (by
        intro piece after hover hps
        rw [hbudget] at hover ⊢
        rw [dropOver_cut hover, hps])
    rw [hbudget] at hm₁
    rw [hbudgetConcealed] at hc₁
    have hfits : marked ps₁ = dropOver cap (marked (pieces ++ [(bytes, c)])) := by
      rw [← hkept₁, dropOver_of_le]
      rw [count_marked, ← hb₁.received, ← hm₁]
      exact hle₁
    obtain ⟨b₂, ps₂, hrun₂, hb₂, hkept₂, hm₂, hc₂, hle₂⟩ := evictConcealed_rule
      (R := fun ps => dropFlagged (monoS16leBytesForDurationMs PRE_ROLL_MAX_CONCEALED_MS)
          (marked ps) =
        dropFlagged (monoS16leBytesForDurationMs PRE_ROLL_MAX_CONCEALED_MS) (marked ps₁))
      hb₁ (by rw [hc₁]; exact concealed_budget_even) rfl (by
        intro before piece after hbefore hover hps
        rw [hc₁] at hover ⊢
        rw [dropFlagged_cut hbefore hover, hps])
    rw [hc₁] at hc₂
    refine ⟨b₂, ?_, ⟨ps₂, hb₂, ?_⟩, hm₂.trans hm₁, hc₂⟩
    · simp only [SttPreRollBuffer.pushFrame, hempty, Bool.false_eq_true, if_false, hrun₁,
        Option.bind_some, hrun₂]
    · have hfits₂ : marked ps₂ =
          dropFlagged (monoS16leBytesForDurationMs PRE_ROLL_MAX_CONCEALED_MS) (marked ps₁) := by
        rw [← hkept₂, dropFlagged_of_le]
        rw [count_marked, ← hb₂.concealed, ← hc₂]
        exact hle₂
      rw [hfits₂, hfits, dropFlagged_dropOver, marked_append, hmarked]
      change kept cap _ (kept cap _ l ++ (_ ++ [])) = _
      rw [List.append_nil, kept_kept_append]

theorem holdsKept_new (capacityMs : UInt32) :
    (new capacityMs).HoldsKept (monoS16leBytesForDurationMs (max capacityMs 1)) [] :=
  ⟨⟨[], ⟨rfl, rfl, rfl, rfl, by simp, by simp⟩, rfl⟩, rfl, rfl⟩

theorem HoldsKept.data {cap : Nat} (h : b.HoldsKept cap l) :
    b.data = (kept cap (monoS16leBytesForDurationMs PRE_ROLL_MAX_CONCEALED_MS) l).map
      Prod.fst := by
  obtain ⟨pieces, hpieces, hmarked⟩ := h.holds
  rw [hpieces.data, ← hmarked, map_fst_marked]

theorem HoldsKept.received {cap : Nat} (h : b.HoldsKept cap l) :
    b.receivedBytes =
      count false (kept cap (monoS16leBytesForDurationMs PRE_ROLL_MAX_CONCEALED_MS) l) := by
  obtain ⟨pieces, hpieces, hmarked⟩ := h.holds
  rw [hpieces.received, ← hmarked, count_marked]

end SttPreRollBuffer

end NodeWebrtc.Speech
