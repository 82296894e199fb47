import Mathlib.Algebra.BigOperators.Group.List.Basic
import Mathlib.Algebra.GroupWithZero.Nat
import Mathlib.Data.List.Basic

/-! # Least recently used

A bounded store as the list of its entries, the least recently used first. A value has a size;
entries leave from the front until the sizes add up to no more than the budget.
-/

namespace NodeWebrtc.Lru

variable {κ ν : Type} [DecidableEq κ]

/-- The sizes of the values together. -/
def weight (size : ν → Nat) (entries : List (κ × ν)) : Nat :=
  (entries.map fun entry => size entry.2).sum

def lookup (entries : List (κ × ν)) (key : κ) : Option ν :=
  (entries.find? fun entry => entry.1 = key).map Prod.snd

/-- Every entry but that of `key`. -/
def without (entries : List (κ × ν)) (key : κ) : List (κ × ν) :=
  entries.filter fun entry => entry.1 ≠ key

/-- A lookup makes its entry the most recently used. -/
def touch (entries : List (κ × ν)) (key : κ) : List (κ × ν) :=
  match lookup entries key with
  | none => entries
  | some value => without entries key ++ [(key, value)]

/-- Drops the least recently used entries until the budget holds. -/
def trim (size : ν → Nat) (budget : Nat) : List (κ × ν) → List (κ × ν)
  | [] => []
  | entry :: entries =>
    if budget < weight size (entry :: entries) then trim size budget entries
    else entry :: entries

/-- Stores `value` under `key` as the most recently used. -/
def put (size : ν → Nat) (budget : Nat) (entries : List (κ × ν)) (key : κ) (value : ν) :
    List (κ × ν) :=
  trim size budget (without entries key ++ [(key, value)])

section Weight

omit [DecidableEq κ]

variable (size : ν → Nat)

@[simp] theorem weight_cons (entry : κ × ν) (entries : List (κ × ν)) :
    weight size (entry :: entries) = size entry.2 + weight size entries := by
  unfold weight
  rw [List.map_cons, List.sum_cons]

theorem weight_append (xs ys : List (κ × ν)) :
    weight size (xs ++ ys) = weight size xs + weight size ys := by
  unfold weight
  rw [List.map_append, List.sum_append]

theorem weight_perm {xs ys : List (κ × ν)} (h : xs.Perm ys) : weight size xs = weight size ys :=
  (h.map fun entry : κ × ν => size entry.2).sum_eq

theorem weight_trim_le (budget : Nat) (entries : List (κ × ν)) :
    weight size (trim size budget entries) ≤ budget := by
  induction entries with
  | nil => exact Nat.zero_le budget
  | cons entry entries ih =>
    unfold trim
    split
    · exact ih
    · rename_i hfits
      exact Nat.le_of_not_lt hfits

end Weight

/-- With one value for each key the lookup finds exactly the entries. -/
theorem lookup_eq_some_iff {entries : List (κ × ν)} {key : κ} {value : ν}
    (hone : ∀ v w, (key, v) ∈ entries → (key, w) ∈ entries → v = w) :
    lookup entries key = some value ↔ (key, value) ∈ entries := by
  unfold lookup
  rw [Option.map_eq_some_iff]
  constructor
  · rintro ⟨⟨k, v⟩, hfind, rfl⟩
    have hkey : k = key := by simpa using List.find?_some hfind
    exact hkey ▸ List.mem_of_find?_eq_some hfind
  · intro hmem
    cases hfind : entries.find? fun entry => entry.1 = key with
    | none =>
      have hnot := List.find?_eq_none.mp hfind (key, value) hmem
      simp at hnot
    | some entry =>
      obtain ⟨k, v⟩ := entry
      have hkey : k = key := by simpa using List.find?_some hfind
      subst hkey
      exact ⟨(k, v), rfl, hone v value (List.mem_of_find?_eq_some hfind) hmem⟩

end NodeWebrtc.Lru
