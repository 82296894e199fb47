import Mathlib.Order.Bounds.Defs
import Mathlib.Data.Set.Insert
import Mathlib.Order.Interval.Set.Defs
import NodeWebrtc.Lib.OrdMap

/-! # A frontier over numbers closed out of order

A growing set of numbers is kept as its frontier, the least number not in the set, and the
finite set of members above it. Closing the number at the frontier moves the frontier over
the members that follow it; closing one above only remembers it.
-/

namespace NodeWebrtc

open Std

/-- `front` is the frontier of `closed` and `ahead` holds the members above it. -/
structure Frontier (closed : Set Nat) (front : Nat) (ahead : ExtTreeSet Nat) : Prop where
  below : ∀ t < front, t ∈ closed
  isOpen : front ∉ closed
  mem_ahead : ∀ t, t ∈ ahead ↔ front < t ∧ t ∈ closed

namespace Frontier

variable {closed : Set Nat} {front : Nat} {ahead : ExtTreeSet Nat}

theorem isLeast (h : Frontier closed front ahead) : IsLeast {t | t ∉ closed} front :=
  ⟨h.isOpen, fun t ht => Nat.le_of_not_lt fun hlt => ht (h.below t hlt)⟩

/-- A number not yet closed below which all is closed is the frontier. -/
theorem eq_front (h : Frontier closed front ahead) {t : Nat} (ht : t ∉ closed)
    (hbelow : ∀ u < t, u ∈ closed) : front = t := by
  have hle : front ≤ t := h.isLeast.2 ht
  rcases Nat.lt_or_eq_of_le hle with hlt | heq
  · exact absurd (hbelow front hlt) h.isOpen
  · exact heq

theorem zero : Frontier ∅ 0 ∅ where
  below := fun t ht => absurd ht (Nat.not_lt_zero t)
  isOpen := Set.notMem_empty 0
  mem_ahead := by simp

/-- Moves `front` over the members of `ahead` that follow it without a gap. -/
def advance : Nat → Nat → ExtTreeSet Nat → Nat × ExtTreeSet Nat
  | 0, front, ahead => (front, ahead)
  | fuel + 1, front, ahead =>
    if front ∈ ahead then advance fuel (front + 1) (ahead.erase front) else (front, ahead)

theorem of_notMem (hbelow : ∀ t < front, t ∈ closed)
    (hahead : ∀ t, t ∈ ahead ↔ front ≤ t ∧ t ∈ closed) (hfront : front ∉ ahead) :
    Frontier closed front ahead := by
  have hopen : front ∉ closed :=
    fun hclosed => hfront ((hahead front).mpr ⟨Nat.le_refl _, hclosed⟩)
  refine ⟨hbelow, hopen, fun t => ?_⟩
  rw [hahead]
  constructor
  · intro h
    obtain ⟨hle, hclosed⟩ := h
    exact ⟨Nat.lt_of_le_of_ne hle fun heq => hopen (heq ▸ hclosed), hclosed⟩
  · exact fun h => ⟨Nat.le_of_lt h.1, h.2⟩

/-- As many rounds as `ahead` has members reach the frontier. -/
theorem advance_spec {fuel : Nat} (hfuel : ahead.size ≤ fuel) (hbelow : ∀ t < front, t ∈ closed)
    (hahead : ∀ t, t ∈ ahead ↔ front ≤ t ∧ t ∈ closed) :
    Frontier closed (advance fuel front ahead).1 (advance fuel front ahead).2 := by
  induction fuel generalizing front ahead with
  | zero =>
    refine of_notMem hbelow hahead fun hmem => ?_
    have hempty : ahead.isEmpty := by
      rw [ExtTreeSet.isEmpty_eq_size_beq_zero]
      simpa using hfuel
    rw [ExtTreeSet.isEmpty_iff.mp hempty] at hmem
    exact absurd hmem ExtTreeSet.not_mem_empty
  | succ fuel ih =>
    rw [advance]
    by_cases hmem : front ∈ ahead
    · rw [if_pos hmem]
      have hclosed := ((hahead front).mp hmem).2
      have hbelow' : ∀ t < front + 1, t ∈ closed := by
        intro t ht
        rcases Nat.lt_succ_iff_lt_or_eq.mp ht with hlt | rfl
        · exact hbelow t hlt
        · exact hclosed
      have hahead' : ∀ t, t ∈ ahead.erase front ↔ front + 1 ≤ t ∧ t ∈ closed := by
        intro t
        rw [OrdMap.mem_erase, hahead]
        constructor
        · exact fun h => ⟨Nat.lt_of_le_of_ne h.2.1 (Ne.symm h.1), h.2.2⟩
        · exact fun h => ⟨Nat.ne_of_gt h.1, Nat.le_of_lt h.1, h.2⟩
      have hsize : (ahead.erase front).size ≤ fuel := by
        rw [ExtTreeSet.size_erase, if_pos (ExtTreeSet.mem_iff_contains.mp hmem)]
        omega
      exact ih hsize hbelow' hahead'
    · rw [if_neg hmem]
      exact of_notMem hbelow hahead hmem

/-- The frontier never moves back. -/
theorem le_advance (fuel front : Nat) (ahead : ExtTreeSet Nat) :
    front ≤ (advance fuel front ahead).1 := by
  induction fuel generalizing front ahead with
  | zero => exact Nat.le_refl front
  | succ fuel ih =>
    rw [advance]
    split
    · exact Nat.le_trans (Nat.le_succ front) (ih _ _)
    · exact Nat.le_refl front

/-! ## Closing numbers -/

section

variable (h : Frontier closed front ahead)
include h

/-- Closes the number at the frontier. -/
theorem close_front :
    Frontier (insert front closed) (advance ahead.size (front + 1) ahead).1
      (advance ahead.size (front + 1) ahead).2 := by
  refine advance_spec (Nat.le_refl _) (fun t ht => ?_) (fun t => ?_)
  · rcases Nat.lt_succ_iff_lt_or_eq.mp ht with hlt | rfl
    · exact Set.mem_insert_of_mem _ (h.below t hlt)
    · exact Set.mem_insert t closed
  · rw [h.mem_ahead, Set.mem_insert_iff]
    constructor
    · exact fun ht => ⟨ht.1, Or.inr ht.2⟩
    · exact fun ht => ⟨ht.1, ht.2.resolve_left (Nat.ne_of_gt ht.1)⟩

/-- Closes a number above the frontier. -/
theorem close_ahead {id : Nat} (hid : front < id) :
    Frontier (insert id closed) front (ahead.insert id) := by
  refine ⟨fun t ht => Set.mem_insert_of_mem _ (h.below t ht), ?_, fun t => ?_⟩
  · rw [Set.mem_insert_iff]
    exact fun hmem => hmem.elim (Nat.ne_of_lt hid) h.isOpen
  · rw [OrdMap.mem_insert, h.mem_ahead, Set.mem_insert_iff]
    constructor
    · intro ht
      rcases ht with rfl | ht
      · exact ⟨hid, Or.inl rfl⟩
      · exact ⟨ht.1, Or.inr ht.2⟩
    · intro ht
      obtain ⟨hlt, heq | hclosed⟩ := ht
      · exact Or.inl heq
      · exact Or.inr ⟨hlt, hclosed⟩

/-- Closing a number below the frontier changes nothing. -/
theorem close_below {id : Nat} (hid : id < front) : Frontier (insert id closed) front ahead := by
  rw [Set.insert_eq_of_mem (h.below id hid)]
  exact h

/-- Closes every number below a bound above the frontier. -/
theorem close_until {bound : Nat} (hbound : front < bound) :
    Frontier (closed ∪ Set.Iio bound)
      (advance (ahead.filter (bound ≤ ·)).size bound (ahead.filter (bound ≤ ·))).1
      (advance (ahead.filter (bound ≤ ·)).size bound (ahead.filter (bound ≤ ·))).2 := by
  refine advance_spec (Nat.le_refl _) (fun t ht => Or.inr ht) (fun t => ?_)
  have hfilter : t ∈ ahead.filter (bound ≤ ·) ↔ t ∈ ahead ∧ bound ≤ t := by
    rw [ExtTreeSet.mem_filter]
    simp
  rw [hfilter, h.mem_ahead]
  constructor
  · exact fun ht => ⟨ht.2, Or.inl ht.1.2⟩
  · intro ht
    obtain ⟨hle, hclosed | hlt⟩ := ht
    · exact ⟨⟨Nat.lt_of_lt_of_le hbound hle, hclosed⟩, hle⟩
    · exact absurd hlt (Nat.not_lt.mpr hle)

/-- A bound that the frontier has reached closes nothing. -/
theorem close_until_reached {bound : Nat} (hbound : bound ≤ front) :
    Frontier (closed ∪ Set.Iio bound) front ahead := by
  have hsubset : Set.Iio bound ⊆ closed := fun t ht => h.below t (Nat.lt_of_lt_of_le ht hbound)
  rw [Set.union_eq_left.mpr hsubset]
  exact h

end

end Frontier

end NodeWebrtc
