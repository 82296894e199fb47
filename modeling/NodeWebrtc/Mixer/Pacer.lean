import Mathlib.Algebra.GroupWithZero.Nat
import Mathlib.Data.List.Perm.Basic
import NodeWebrtc.Lib.Machine
import NodeWebrtc.Mixer.Frame

/-! # The outbound pacer

A mix outbound loop writes frame `n` at `anchor + n × 20 ms`. Each wake-up asks the
pacer which slots are due at `now`. At most `MAX_BURST_WRITES` of them are rendered;
older ones are counted as skipped. The clock readings are arbitrary: a wake-up may be
early, late, repeated or behind the one before it.
-/

namespace NodeWebrtc.Mixer

open Machine

/-- Most frames an outbound loop writes back to back. -/
def MAX_BURST_WRITES : Nat := 4

/-- Scheduled times of the slots to render now, oldest first (`at` in the source), and
how many older slots were skipped. -/
structure DueSlots where
  slots : List Instant
  skipped : Nat
deriving DecidableEq, Repr

structure OutboundPacer where
  anchor : Instant
  written : Nat
  skippedTotal : Nat
  reanchors : Nat
deriving DecidableEq, Repr

namespace OutboundPacer

def new (anchor : Instant) : OutboundPacer := ⟨anchor, 0, 0, 0⟩

def slotAt (p : OutboundPacer) (n : Nat) : Instant := p.anchor + fromMillis (FRAME_MS * n)

def nextDue (p : OutboundPacer) : Instant := p.slotAt (p.written + 1)

/-- Whole slots between the anchor and `now`, as `u64`. -/
def elapsed (p : OutboundPacer) (now : Instant) : Nat :=
  asU64 (asMillis (saturatingDurationSince now p.anchor) / FRAME_MS)

def dueSlots (p : OutboundPacer) (now : Instant) : OutboundPacer × DueSlots :=
  let elapsed := p.elapsed now
  let due := elapsed - p.written
  let (p, skipped) :=
    if due > MAX_BURST_WRITES then
      let skipped := due - MAX_BURST_WRITES
      ({ p with
          written := p.written + skipped
          skippedTotal := p.skippedTotal + skipped
          reanchors := p.reanchors + 1 }, skipped)
    else (p, 0)
  let slots := (List.range' (p.written + 1) (elapsed - p.written)).map p.slotAt
  ({ p with written := max p.written elapsed }, ⟨slots, skipped⟩)

def step : Step OutboundPacer Instant DueSlots := fun p now =>
  let (p, d) := p.dueSlots now
  some (p, [d])

/-! ## One wake-up -/

@[simp] theorem slotAt_lt_slotAt (p : OutboundPacer) (m n : Nat) :
    p.slotAt m < p.slotAt n ↔ m < n := by
  simp only [slotAt, fromMillis, FRAME_MS, Instant, Duration]
  omega

theorem slotAt_le_of_le_elapsed {p : OutboundPacer} {now : Instant} {n : Nat} (h0 : 0 < n)
    (hn : n ≤ p.elapsed now) : p.slotAt n ≤ now := by
  have hmod : p.elapsed now ≤ asMillis (saturatingDurationSince now p.anchor) / FRAME_MS :=
    Nat.mod_le _ _
  simp only [asMillis, saturatingDurationSince, FRAME_MS, Instant, Duration] at hmod
  simp only [slotAt, fromMillis, FRAME_MS, Instant, Duration]
  omega

/-- The rendered slots are the newest due ones, at most a burst of them; all due slots
before them, from the first one not yet written, are skipped. -/
structure WakesTo (p : OutboundPacer) (now : Instant) (p' : OutboundPacer) (d : DueSlots) :
    Prop where
  anchor : p'.anchor = p.anchor
  written : p'.written = max p.written (p.elapsed now)
  skippedTotal : p'.skippedTotal = p.skippedTotal + d.skipped
  within : p.written + d.skipped ≤ p'.written
  slots : d.slots = (List.range' (p.written + d.skipped + 1)
    (p'.written - (p.written + d.skipped))).map p.slotAt
  burst : d.slots.length ≤ MAX_BURST_WRITES

theorem dueSlots_wakesTo (p : OutboundPacer) (now : Instant) :
    WakesTo p now (p.dueSlots now).1 (p.dueSlots now).2 := by
  by_cases hdue : p.elapsed now - p.written > MAX_BURST_WRITES
  · have hbound : p.written + (p.elapsed now - p.written - MAX_BURST_WRITES) ≤ p.elapsed now := by
      omega
    constructor
    all_goals simp only [dueSlots, hdue, if_true, List.length_map, List.length_range']
    case written => omega
    case within => omega
    case slots =>
      rw [Nat.max_eq_right hbound]
      rfl
    case burst => omega
  · constructor
    all_goals simp only [dueSlots, hdue, if_false, List.length_map, List.length_range',
      Nat.add_zero]
    case within => omega
    case slots =>
      congr 2
      omega
    case burst => omega

/-- A wake-up at `now` renders at most a burst, and nothing from the future. -/
def OnTime (now : Instant) (d : DueSlots) : Prop :=
  d.slots.length ≤ MAX_BURST_WRITES ∧ ∀ t ∈ d.slots, t ≤ now

theorem WakesTo.slot_le {p p' : OutboundPacer} {now : Instant} {d : DueSlots}
    (h : WakesTo p now p' d) {t : Instant} (ht : t ∈ d.slots) : t ≤ now := by
  rw [h.slots, List.mem_map] at ht
  obtain ⟨n, hn, rfl⟩ := ht
  rw [List.mem_range'_1] at hn
  have hwritten := h.written
  exact slotAt_le_of_le_elapsed (by omega) (by omega)

/-! ## A whole run -/

/-- What the pacer has handed out so far: the slots `rendered`, in order, and the slots
`skipped` are together all slots up to `written`, each once. -/
structure Accounts (ds : List DueSlots) (p : OutboundPacer) (rendered skipped : List Nat) :
    Prop where
  shown : ds.flatMap DueSlots.slots = rendered.map p.slotAt
  rising : rendered.Pairwise (· < ·)
  all : (rendered ++ skipped).Perm (List.range' 1 p.written)
  skipped_length : skipped.length = p.skippedTotal
  skipped_sum : (ds.map DueSlots.skipped).sum = p.skippedTotal

theorem Accounts.le_written {ds : List DueSlots} {p : OutboundPacer} {rendered skipped : List Nat}
    (h : Accounts ds p rendered skipped) {n : Nat} (hn : n ∈ rendered) : n ≤ p.written := by
  have hmem : n ∈ List.range' 1 p.written := h.all.subset (List.mem_append_left _ hn)
  rw [List.mem_range'_1] at hmem
  omega

theorem Accounts.wake {ds : List DueSlots} {p p' : OutboundPacer} {rendered skipped : List Nat}
    {now : Instant} {d : DueSlots} (h : Accounts ds p rendered skipped)
    (hw : WakesTo p now p' d) :
    Accounts (ds ++ [d]) p'
      (rendered ++ List.range' (p.written + d.skipped + 1)
        (p'.written - (p.written + d.skipped)))
      (skipped ++ List.range' (p.written + 1) d.skipped) := by
  have hslot : p'.slotAt = p.slotAt := by
    funext n
    simp only [slotAt, hw.anchor]
  have hwithin := hw.within
  constructor
  · simp [h.shown, hw.slots, hslot]
  · rw [List.pairwise_append]
    refine ⟨h.rising, List.pairwise_lt_range', fun m hm n hn => ?_⟩
    have hle := h.le_written hm
    rw [List.mem_range'_1] at hn
    omega
  · -- the slots up to the new `written` are the old ones, then the skipped, then the rendered
    have hsplit : List.range' 1 p'.written = List.range' 1 p.written ++
        (List.range' (p.written + 1) d.skipped ++ List.range' (p.written + d.skipped + 1)
          (p'.written - (p.written + d.skipped))) := by
      rw [Nat.add_right_comm p.written, List.range'_append_1, Nat.add_comm p.written 1,
        List.range'_append_1]
      congr 1
      omega
    rw [hsplit, List.append_assoc]
    apply List.Perm.trans ?_ (List.Perm.append_right _ h.all)
    rw [List.append_assoc]
    apply List.Perm.append_left
    apply List.Perm.trans (List.perm_append_comm_assoc _ _ _)
    exact List.Perm.append_left _ List.perm_append_comm
  · rw [List.length_append, List.length_range', h.skipped_length, hw.skippedTotal]
  · rw [List.map_append, List.sum_append, h.skipped_sum, hw.skippedTotal]
    simp

/-- Over every sequence of wake-ups the rendered slot times are strictly increasing, at
most a burst of them per wake-up and none in the future, and each slot written off so
far was rendered once or counted skipped once. -/
theorem every_slot_rendered_or_skipped (anchor : Instant) (nows : List Instant) :
    ∃ p ds, run step (new anchor) nows = some (p, ds) ∧
      List.Forall₂ OnTime nows ds ∧
      (ds.flatMap DueSlots.slots).Pairwise (· < ·) ∧
      ∃ rendered skipped : List Nat,
        ds.flatMap DueSlots.slots = rendered.map p.slotAt ∧
        (rendered ++ skipped).Perm (List.range' 1 p.written) ∧
        skipped.length = p.skippedTotal ∧
        (ds.map DueSlots.skipped).sum = p.skippedTotal ∧
        rendered.length + p.skippedTotal = p.written ∧
        p.nextDue = anchor + fromMillis (FRAME_MS * (p.written + 1)) := by
  have hstep : ∀ (nows : List Instant) (ds : List DueSlots) (p : OutboundPacer) (now : Instant),
      (List.Forall₂ OnTime nows ds ∧
        p.anchor = anchor ∧ ∃ rendered skipped, Accounts ds p rendered skipped) →
      ∃ p' out, step p now = some (p', out) ∧
        (List.Forall₂ OnTime (nows ++ [now]) (ds ++ out) ∧
          p'.anchor = anchor ∧ ∃ rendered skipped, Accounts (ds ++ out) p' rendered skipped) := by
    intro nows ds p now h
    obtain ⟨hcalls, hanchor, rendered, skipped, hacc⟩ := h
    have hw := dueSlots_wakesTo p now
    refine ⟨_, _, rfl, ?_, hw.anchor.trans hanchor, _, _, hacc.wake hw⟩
    exact List.rel_append hcalls
      (List.Forall₂.cons ⟨hw.burst, fun t ht => hw.slot_le ht⟩ List.Forall₂.nil)
  have hnew : Accounts [] (new anchor) [] [] := by constructor <;> simp [new]
  obtain ⟨p, ds, hrun, hcalls, hanchor, rendered, skipped, h⟩ :=
    run_total hstep (s := new anchor) ⟨List.Forall₂.nil, rfl, [], [], hnew⟩ nows
  refine ⟨p, ds, hrun, hcalls, ?_, rendered, skipped, h.shown, h.all, h.skipped_length,
    h.skipped_sum, ?_, ?_⟩
  · rw [h.shown, List.pairwise_map]
    exact h.rising.imp fun hlt => (slotAt_lt_slotAt p _ _).mpr hlt
  · have hlen := h.all.length_eq
    rw [List.length_append, List.length_range', h.skipped_length] at hlen
    exact hlen
  · simp only [nextDue, slotAt, hanchor]

end OutboundPacer

end NodeWebrtc.Mixer
