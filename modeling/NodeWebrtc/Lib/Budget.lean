import Mathlib.Algebra.GroupWithZero.Nat
import Mathlib.Data.List.DropRight

/-! # Keeping the newest elements within two budgets

A list, oldest first, of elements that carry a flag. At most `cap` unflagged elements are
kept, and what is older than the oldest of them goes with the rest; of the flagged ones at
most `extra` are kept. Whether an element is kept depends on what follows it only, so a
buffer that is trimmed after every arrival holds what one trim of the whole history leaves.
-/

namespace NodeWebrtc.Budget

variable {α β : Type}

/-- How many elements carry the flag `c`. -/
def count (c : Bool) (l : List (α × Bool)) : Nat := l.countP fun x => x.2 == c

@[simp] theorem count_nil (c : Bool) : count c ([] : List (α × Bool)) = 0 := rfl

@[simp] theorem count_cons (c : Bool) (x : α × Bool) (l : List (α × Bool)) :
    count c (x :: l) = count c l + if x.2 = c then 1 else 0 := by
  simp [count, List.countP_cons]

@[simp] theorem count_append (c : Bool) (l m : List (α × Bool)) :
    count c (l ++ m) = count c l + count c m := List.countP_append

theorem count_map (c : Bool) (f : α → β) (l : List (α × Bool)) :
    count c (l.map (Prod.map f id)) = count c l := by
  simp [count, List.countP_map, Function.comp_def]

/-- An element is kept when `r` unflagged and `c` flagged elements follow it. -/
def keeps (cap extra r c : Nat) (x : α × Bool) : Bool :=
  if x.2 then decide (r ≤ cap ∧ c < extra) else decide (r < cap)

/-- What is kept of a list that `r` unflagged and `c` flagged elements follow. -/
def keptBefore (cap extra r c : Nat) : List (α × Bool) → List (α × Bool)
  | [] => []
  | x :: l =>
    if keeps cap extra (count false l + r) (count true l + c) x then
      x :: keptBefore cap extra r c l
    else keptBefore cap extra r c l

/-- What is kept of a list. -/
def kept (cap extra : Nat) (l : List (α × Bool)) : List (α × Bool) := keptBefore cap extra 0 0 l

section Kept

variable {cap extra r c : Nat} {l m : List (α × Bool)}

theorem keptBefore_append :
    keptBefore cap extra r c (l ++ m) =
      keptBefore cap extra (count false m + r) (count true m + c) l ++
        keptBefore cap extra r c m := by
  induction l with
  | nil => rfl
  | cons x l ih =>
    simp only [List.cons_append, keptBefore, ih, count_append, Nat.add_assoc]
    split <;> rfl

theorem kept_append :
    kept cap extra (l ++ m) =
      keptBefore cap extra (count false m) (count true m) l ++ kept cap extra m :=
  keptBefore_append

theorem keptBefore_map (f : α → β) :
    keptBefore cap extra r c (l.map (Prod.map f id)) =
      (keptBefore cap extra r c l).map (Prod.map f id) := by
  induction l with
  | nil => rfl
  | cons x l ih =>
    simp only [List.map_cons, keptBefore, count_map, ih]
    change (if keeps cap extra _ _ x = true then _ else _) = _
    split <;> rfl

theorem kept_map (f : α → β) :
    kept cap extra (l.map (Prod.map f id)) = (kept cap extra l).map (Prod.map f id) :=
  keptBefore_map f

theorem kept_sublist : (kept cap extra l).Sublist l := by
  unfold kept
  induction l with
  | nil => exact List.Sublist.slnil
  | cons x l ih =>
    unfold keptBefore
    split
    · exact ih.cons_cons x
    · exact ih.cons x

/-- Within both budgets everything is kept. -/
theorem keptBefore_eq_self (hcap : count false l + r ≤ cap) (hextra : count true l + c ≤ extra) :
    keptBefore cap extra r c l = l := by
  induction l with
  | nil => rfl
  | cons x l ih =>
    obtain ⟨x, flag⟩ := x
    rw [count_cons] at hcap hextra
    have hrest : keptBefore cap extra r c l = l := ih (by omega) (by omega)
    have hkeeps : keeps cap extra (count false l + r) (count true l + c) (x, flag) = true := by
      cases flag
      · simp only [if_true] at hcap
        simpa [keeps] using by omega
      · simp only [if_true] at hextra
        simpa [keeps] using by omega
    rw [keptBefore, if_pos hkeeps, hrest]

/-- Within the first budget every unflagged element is kept. -/
theorem count_keptBefore (hcap : count false l + r ≤ cap) :
    count false (keptBefore cap extra r c l) = count false l := by
  induction l with
  | nil => rfl
  | cons x l ih =>
    obtain ⟨x, flag⟩ := x
    rw [count_cons] at hcap
    have hrest := ih (by omega)
    cases flag with
    | false =>
      simp only [if_true] at hcap
      have hkeeps :
          keeps cap extra (count false l + r) (count true l + c) (x, false) = true := by
        simpa [keeps] using by omega
      rw [keptBefore, if_pos hkeeps, count_cons, hrest, count_cons]
    | true =>
      rw [keptBefore]
      split
      · rw [count_cons, hrest, count_cons]
      · rw [hrest, count_cons]
        simp

/-- What does not fit before fewer elements does not fit before more. -/
theorem keeps_mono {r₀ c₀ : Nat} {x : α × Bool} (hr : r₀ ≤ r) (hc : c₀ ≤ c)
    (h : keeps cap extra r c x = true) : keeps cap extra r₀ c₀ x = true := by
  unfold keeps at h ⊢
  split <;> rename_i hflag
  · simp only [hflag, if_true, decide_eq_true_eq] at h ⊢
    omega
  · simp only [hflag, decide_eq_true_eq] at h ⊢
    simp at h ⊢
    omega

/-- Trimming twice is trimming once, when more follows the second time. -/
theorem keptBefore_keptBefore {r₀ c₀ : Nat} (hr : r₀ ≤ r) (hc : c₀ ≤ c) :
    keptBefore cap extra r c (keptBefore cap extra r₀ c₀ l) = keptBefore cap extra r c l := by
  induction l with
  | nil => rfl
  | cons x l ih =>
    by_cases hkept : keeps cap extra (count false l + r₀) (count true l + c₀) x = true
    · have hsame : keeps cap extra (count false (keptBefore cap extra r₀ c₀ l) + r)
          (count true (keptBefore cap extra r₀ c₀ l) + c) x =
            keeps cap extra (count false l + r) (count true l + c) x := by
        obtain ⟨x, flag⟩ := x
        cases flag with
        | false =>
          have hcap : count false l + r₀ < cap := by simpa [keeps] using hkept
          rw [count_keptBefore (by omega)]
          rfl
        | true =>
          have hboth : count false l + r₀ ≤ cap ∧ count true l + c₀ < extra := by
            simpa [keeps] using hkept
          rw [keptBefore_eq_self hboth.1 (by omega)]
      rw [keptBefore, if_pos hkept, keptBefore, hsame, ih, keptBefore]
    · have hout : ¬ keeps cap extra (count false l + r) (count true l + c) x = true :=
        fun h => hkept (keeps_mono (by omega) (by omega) h)
      rw [keptBefore, if_neg hkept, ih, keptBefore, if_neg hout]

/-- A buffer trimmed before an arrival holds what one trim of everything leaves. -/
theorem kept_kept_append : kept cap extra (kept cap extra l ++ m) = kept cap extra (l ++ m) := by
  rw [kept_append, kept_append, kept, keptBefore_keptBefore (Nat.zero_le _) (Nat.zero_le _)]

/-- Everything is kept exactly when both budgets hold it. -/
theorem kept_eq_self_iff :
    kept cap extra l = l ↔ count false l ≤ cap ∧ count true l ≤ extra := by
  constructor
  · intro h
    induction l with
    | nil => exact ⟨Nat.zero_le _, Nat.zero_le _⟩
    | cons x l ih =>
      have hlen := congrArg List.length h
      have hsub := (@kept_sublist _ cap extra l).length_le
      by_cases hkept : keeps cap extra (count false l) (count true l) x = true
      · have hrest : kept cap extra l = l := by
          have hcons : kept cap extra (x :: l) = x :: kept cap extra l := if_pos hkept
          rw [hcons] at h
          exact (List.cons.inj h).2
        obtain ⟨hr, hc⟩ := ih hrest
        obtain ⟨x, flag⟩ := x
        cases flag
        · have hcap : count false l < cap := by simpa [keeps] using hkept
          rw [count_cons, count_cons]
          exact ⟨hcap, hc⟩
        · have hboth : count false l ≤ cap ∧ count true l < extra := by
            simpa [keeps] using hkept
          rw [count_cons, count_cons]
          exact ⟨hr, hboth.2⟩
      · have hcons : kept cap extra (x :: l) = kept cap extra l := if_neg hkept
        rw [hcons, List.length_cons] at hlen
        omega
  · intro h
    exact keptBefore_eq_self h.1 h.2

/-- Of unflagged elements the newest are kept. -/
theorem kept_of_unflagged (hflag : ∀ x ∈ l, x.2 = false) : kept cap extra l = l.rtake cap := by
  induction l with
  | nil => simp [kept, keptBefore, List.rtake]
  | cons x l ih =>
    have hcount : count false l = l.length :=
      List.countP_eq_length.mpr fun y hy => by simp [hflag y (List.mem_cons_of_mem x hy)]
    have hrest := ih fun y hy => hflag y (List.mem_cons_of_mem x hy)
    have hkeeps : keeps cap extra (count false l) (count true l) x = decide (l.length < cap) := by
      simp [keeps, hflag x List.mem_cons_self, hcount]
    have hcons : kept cap extra (x :: l) =
        if decide (l.length < cap) then x :: kept cap extra l else kept cap extra l := by
      rw [← hkeeps]
      rfl
    rw [hcons, hrest]
    unfold List.rtake
    by_cases hroom : l.length < cap
    · rw [if_pos (by simpa using hroom), List.length_cons, Nat.sub_eq_zero_of_le (by omega),
        Nat.sub_eq_zero_of_le (by omega), List.drop_zero, List.drop_zero]
    · have hnext : (x :: l).length - cap = l.length - cap + 1 := by
        rw [List.length_cons]
        omega
      rw [if_neg (by simpa using hroom), hnext, List.drop_succ_cons]

/-- Nothing older is kept once the unflagged budget is overdrawn, or once both are used up. -/
theorem keptBefore_eq_nil (h : cap < r ∨ extra ≤ c ∧ (cap ≤ r ∨ count false l = 0)) :
    keptBefore cap extra r c l = [] := by
  induction l with
  | nil => rfl
  | cons x l ih =>
    obtain ⟨x, flag⟩ := x
    rw [count_cons] at h
    have hout : ¬ keeps cap extra (count false l + r) (count true l + c) (x, flag) = true := by
      cases flag
      · simp only [if_true] at h
        simpa [keeps] using by omega
      · simpa [keeps] using by omega
    rw [keptBefore, if_neg hout]
    exact ih (by omega)

/-- While the unflagged budget has room, the newest unflagged element is kept. -/
theorem count_eq_zero_of_keptBefore_eq_nil (hroom : r < cap)
    (h : keptBefore cap extra r c l = []) : count false l = 0 := by
  induction l with
  | nil => rfl
  | cons x l ih =>
    obtain ⟨x, flag⟩ := x
    rw [keptBefore] at h
    split_ifs at h with hout
    have hrest := ih h
    cases flag with
    | false =>
      rw [hrest] at hout
      exact absurd (by simpa [keeps] using hroom) hout
    | true => simpa using hrest

/-- Nothing is kept exactly when the newest element does not fit, nor anything older. -/
theorem keptBefore_concat_eq_nil_iff {x : α × Bool} :
    keptBefore cap extra r c (l ++ [x]) = [] ↔
      cap < count false [x] + r ∨
        extra ≤ c ∧ (cap ≤ r ∨ count false (l ++ [x]) = 0) := by
  obtain ⟨x, flag⟩ := x
  have hlast : keptBefore cap extra r c [(x, flag)] =
      if keeps cap extra r c (x, flag) then [(x, flag)] else [] := by
    simp [keptBefore]
  constructor
  · intro h
    rw [keptBefore_append, List.append_eq_nil_iff, hlast, ite_eq_right_iff] at h
    obtain ⟨hold, hnew⟩ := h
    cases flag with
    | false =>
      have hfull : cap ≤ r := by
        by_contra hroom
        exact absurd (hnew (by simpa [keeps] using hroom)) (by simp)
      simp only [count_cons, count_nil, if_true]
      omega
    | true =>
      by_cases hover : cap < r
      · exact .inl (by simpa using hover)
      · have hfull : extra ≤ c := by
          by_contra hroom
          exact absurd (hnew (by simpa [keeps] using by omega)) (by simp)
        by_cases hroom : r < cap
        · have hnone := count_eq_zero_of_keptBefore_eq_nil (by simpa using hroom) hold
          exact .inr ⟨hfull, .inr (by simpa using hnone)⟩
        · exact .inr ⟨hfull, .inl (by omega)⟩
  · intro h
    rcases h with hover | hused
    · have hout : ¬ keeps cap extra r c (x, flag) = true := by
        cases flag
        · simp only [count_cons, count_nil, if_true] at hover
          simpa [keeps] using by omega
        · simpa [keeps] using fun hle => by simp at hover; omega
      rw [keptBefore_append, keptBefore_eq_nil (.inl hover), hlast, if_neg hout]
      rfl
    · exact keptBefore_eq_nil (.inr hused)

end Kept

/-! ## Trimming step by step -/

/-- Drops from the front while the unflagged elements are over `cap`. -/
def dropOver (cap : Nat) : List (α × Bool) → List (α × Bool)
  | [] => []
  | x :: l => if cap < count false (x :: l) then dropOver cap l else x :: l

/-- Drops the oldest flagged elements, wherever they sit, while they are over `extra`. -/
def dropFlagged (extra : Nat) : List (α × Bool) → List (α × Bool)
  | [] => []
  | x :: l =>
    if x.2 then if extra < count true (x :: l) then dropFlagged extra l else x :: l
    else x :: dropFlagged extra l

theorem dropOver_of_le {cap : Nat} {l : List (α × Bool)} (h : count false l ≤ cap) :
    dropOver cap l = l := by
  cases l with
  | nil => rfl
  | cons x l => rw [dropOver, if_neg (by omega)]

theorem dropFlagged_of_le {extra : Nat} {l : List (α × Bool)} (h : count true l ≤ extra) :
    dropFlagged extra l = l := by
  induction l with
  | nil => rfl
  | cons x l ih =>
    have hrest : count true l ≤ extra := by
      rw [count_cons] at h
      omega
    rw [dropFlagged, ih hrest]
    split
    · rw [if_neg (by omega)]
    · rfl

/-- Dropping a front all of one flag goes on with the rest, when that is still over. -/
theorem dropOver_append {cap : Nat} {d l : List (α × Bool)}
    (h : ∀ x ∈ d, cap < count false l + count false [x]) :
    dropOver cap (d ++ l) = dropOver cap l := by
  induction d with
  | nil => rfl
  | cons x d ih =>
    have hx := h x List.mem_cons_self
    have hover : cap < count false (x :: (d ++ l)) := by
      rw [count_cons, count_append]
      simp only [count_cons, count_nil] at hx
      omega
    rw [List.cons_append, dropOver, if_pos hover]
    exact ih fun y hy => h y (List.mem_cons_of_mem x hy)

theorem dropFlagged_append {extra : Nat} {d l : List (α × Bool)} (hflag : ∀ x ∈ d, x.2 = true)
    (h : extra ≤ count true l) : dropFlagged extra (d ++ l) = dropFlagged extra l := by
  induction d with
  | nil => rfl
  | cons x d ih =>
    have hx := hflag x List.mem_cons_self
    have hover : extra < count true (x :: (d ++ l)) := by
      rw [count_cons, count_append, if_pos hx]
      omega
    rw [List.cons_append, dropFlagged, if_pos hx, if_pos hover]
    exact ih fun y hy => hflag y (List.mem_cons_of_mem x hy)

theorem dropFlagged_unflagged_append {extra : Nat} {d l : List (α × Bool)}
    (hflag : ∀ x ∈ d, x.2 = false) : dropFlagged extra (d ++ l) = d ++ dropFlagged extra l := by
  induction d with
  | nil => rfl
  | cons x d ih =>
    rw [List.cons_append, dropFlagged, if_neg (by simp [hflag x List.mem_cons_self]),
      ih fun y hy => hflag y (List.mem_cons_of_mem x hy), List.cons_append]

/-- Both trims, one after the other, leave what is kept. -/
theorem dropFlagged_dropOver (cap extra : Nat) (l : List (α × Bool)) :
    dropFlagged extra (dropOver cap l) = kept cap extra l := by
  have hfits : ∀ l : List (α × Bool), count false l ≤ cap →
      dropFlagged extra l = kept cap extra l := by
    intro l hcap
    induction l with
    | nil => rfl
    | cons x l ih =>
      obtain ⟨x, flag⟩ := x
      rw [count_cons] at hcap
      have hrest := ih (by omega)
      cases flag with
      | false =>
        simp only [if_true] at hcap
        have hkeeps : keeps cap extra (count false l) (count true l) (x, false) = true := by
          simpa [keeps] using by omega
        have hkept : kept cap extra ((x, false) :: l) = (x, false) :: kept cap extra l :=
          if_pos hkeeps
        rw [hkept, dropFlagged, if_neg (by simp), hrest]
      | true =>
        by_cases hover : extra < count true ((x, true) :: l)
        · have hout : ¬ keeps cap extra (count false l) (count true l) (x, true) = true := by
            rw [count_cons, if_pos rfl] at hover
            simpa [keeps] using by omega
          have hkept : kept cap extra ((x, true) :: l) = kept cap extra l := if_neg hout
          rw [hkept, dropFlagged, if_pos rfl, if_pos hover, hrest]
        · rw [dropFlagged, if_pos rfl, if_neg hover]
          exact (kept_eq_self_iff.mpr ⟨by simpa using hcap, by omega⟩).symm
  induction l with
  | nil => rfl
  | cons x l ih =>
    by_cases hover : cap < count false (x :: l)
    · have hout : ¬ keeps cap extra (count false l) (count true l) x = true := by
        obtain ⟨x, flag⟩ := x
        rw [count_cons] at hover
        cases flag
        · simp only [if_true] at hover
          simpa [keeps] using by omega
        · simpa [keeps] using fun hle => by simp at hover; omega
      have hkept : kept cap extra (x :: l) = kept cap extra l := if_neg hout
      rw [hkept, dropOver, if_pos hover, ih]
    · rw [dropOver, if_neg hover]
      exact hfits _ (by omega)

end NodeWebrtc.Budget
