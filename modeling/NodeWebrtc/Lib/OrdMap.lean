import Mathlib.Data.List.Basic

/-! # Ordered maps and sets

A map is a finite map with a canonical key order, so two maps with equal lookups are
equal and an iteration visits the keys in order. This module adds what the ordered
maps of the standard library leave out: a lawful order on pairs of keys, and lookups
after a loop that writes one key per round.
-/

namespace NodeWebrtc

open Std

/-- Pairs of keys in lexicographic order. -/
abbrev pairCmp {α β : Type} [Ord α] [Ord β] : α × β → α × β → Ordering :=
  compareLex (compareOn Prod.fst) (compareOn Prod.snd)

instance {α β : Type} [Ord α] [Ord β] [LawfulEqOrd α] [LawfulEqOrd β] :
    LawfulEqCmp (pairCmp (α := α) (β := β)) where
  compare_self := by simp [compareLex, compareOn]
  eq_of_compare := by
    intro a b h
    simp only [compareLex, compareOn, Ordering.then_eq_eq, Std.compare_eq_iff_eq] at h
    exact Prod.ext h.1 h.2

namespace OrdMap

variable {κ ν : Type} [Ord κ] [TransOrd κ]

/-! ## Membership and lookup by equality of keys -/

section Lawful

variable [LawfulEqOrd κ]

theorem mem_insert (s : ExtTreeSet κ) (k a : κ) : a ∈ s.insert k ↔ a = k ∨ a ∈ s := by
  rw [ExtTreeSet.mem_insert, Std.compare_eq_iff_eq, eq_comm]

theorem mem_erase (s : ExtTreeSet κ) (k a : κ) : a ∈ s.erase k ↔ a ≠ k ∧ a ∈ s := by
  rw [ExtTreeSet.mem_erase, ne_eq, Std.compare_eq_iff_eq, eq_comm]

variable [DecidableEq κ]

theorem mem_ofList (l : List κ) (a : κ) : a ∈ ExtTreeSet.ofList l ↔ a ∈ l := by
  rw [ExtTreeSet.mem_ofList, List.contains_iff_mem]

variable (m : ExtTreeMap κ ν)

theorem lookup_insert (k a : κ) (v : ν) : (m.insert k v)[a]? = if a = k then some v else m[a]? := by
  by_cases h : k = a
  · simp [h]
  · have hk : a ≠ k := Ne.symm h
    simp [ExtTreeMap.getElem?_insert, h, hk]

theorem lookup_erase (k a : κ) : (m.erase k)[a]? = if a = k then none else m[a]? := by
  by_cases h : k = a
  · simp [h]
  · have hk : a ≠ k := Ne.symm h
    simp [ExtTreeMap.getElem?_erase, h, hk]

theorem lookup_modify (k a : κ) (f : ν → ν) :
    (m.modify k f)[a]? = if a = k then m[a]?.map f else m[a]? := by
  by_cases h : k = a
  · subst h
    simp
  · have hk : a ≠ k := Ne.symm h
    simp [ExtTreeMap.getElem?_modify, h, hk]

/-! ## The first entry and the list of entries -/

omit [LawfulEqOrd κ] [DecidableEq κ] in
theorem nodup_toList : m.toList.Nodup := by
  have hkeys : (m.toList.map Prod.fst).Nodup := by
    rw [ExtTreeMap.map_fst_toList_eq_keys]
    exact ExtTreeMap.nodup_keys
  exact List.Pairwise.of_map Prod.fst (fun _ _ hne heq => hne (congrArg Prod.fst heq)) hkeys

theorem toList_erase_perm {m : ExtTreeMap κ ν} {k : κ} {v : ν} (h : m[k]? = some v) :
    m.toList.Perm ((k, v) :: (m.erase k).toList) := by
  apply (List.perm_ext_iff_of_nodup (nodup_toList m) _).mpr
  · intro entry
    obtain ⟨a, b⟩ := entry
    rw [List.mem_cons, ExtTreeMap.mem_toList_iff_getElem?_eq_some,
      ExtTreeMap.mem_toList_iff_getElem?_eq_some, lookup_erase, Prod.mk.injEq]
    by_cases ha : a = k
    · subst ha
      simp [h, eq_comm]
    · simp [ha]
  · refine List.nodup_cons.mpr ⟨?_, nodup_toList _⟩
    rw [ExtTreeMap.mem_toList_iff_getElem?_eq_some, lookup_erase, if_pos rfl]
    simp

theorem toList_insert_perm {m : ExtTreeMap κ ν} {k : κ} (v : ν) (h : m[k]? = none) :
    (m.insert k v).toList.Perm ((k, v) :: m.toList) := by
  apply (List.perm_ext_iff_of_nodup (nodup_toList _) _).mpr
  · intro entry
    obtain ⟨a, b⟩ := entry
    rw [List.mem_cons, ExtTreeMap.mem_toList_iff_getElem?_eq_some,
      ExtTreeMap.mem_toList_iff_getElem?_eq_some, lookup_insert, Prod.mk.injEq]
    by_cases ha : a = k
    · subst ha
      simp [h, eq_comm]
    · simp [ha]
  · refine List.nodup_cons.mpr ⟨?_, nodup_toList _⟩
    rw [ExtTreeMap.mem_toList_iff_getElem?_eq_some, h]
    simp

/-- The entry with the least key. -/
def first? (m : ExtTreeMap κ ν) : Option (κ × ν) := m.toList.head?

omit [DecidableEq κ] in
theorem first?_eq_some {m : ExtTreeMap κ ν} {k : κ} {v : ν} (h : first? m = some (k, v)) :
    m[k]? = some v ∧ ∀ a ∈ m, (compare k a).isLE := by
  obtain ⟨rest, hlist⟩ := List.head?_eq_some_iff.mp h
  have hk : m[k]? = some v := ExtTreeMap.mem_toList_iff_getElem?_eq_some.mp (by simp [hlist])
  refine ⟨hk, fun a ha => ?_⟩
  have hordered := ExtTreeMap.ordered_keys_toList (t := m)
  rw [hlist, List.pairwise_cons] at hordered
  obtain ⟨w, hw⟩ := Option.isSome_iff_exists.mp (ExtTreeMap.mem_iff_isSome_getElem?.mp ha)
  have hmem := ExtTreeMap.mem_toList_iff_getElem?_eq_some.mpr hw
  rw [hlist, List.mem_cons] at hmem
  rcases hmem with heq | hmem
  · rw [(Prod.mk.inj heq).1]
    exact ReflOrd.isLE_rfl
  · rw [hordered.1 (a, w) hmem]
    rfl

omit [DecidableEq κ] in
theorem first?_eq_none {m : ExtTreeMap κ ν} (h : first? m = none) : m = ∅ := by
  apply ExtTreeMap.ext_getElem?
  intro a
  cases ha : m[a]? with
  | none => simp
  | some v =>
    have hmem := ExtTreeMap.mem_toList_iff_getElem?_eq_some.mpr ha
    rw [List.head?_eq_none_iff.mp h] at hmem
    cases hmem

end Lawful

/-! ## Loops that write -/

/-- A loop over `keys` on a state with a map, in which each round decides the map's entry
under its own key. -/
theorem getElem?_foldl_write [DecidableEq κ] {σ : Type} {v : σ → ExtTreeMap κ ν}
    {round : σ → κ → σ} {f : κ → Option ν}
    (hw : ∀ s k a, (v (round s k))[a]? = if a = k then f k else (v s)[a]?)
    (keys : List κ) (s : σ) (a : κ) :
    (v (keys.foldl round s))[a]? = if a ∈ keys then f a else (v s)[a]? := by
  induction keys generalizing s with
  | nil => simp
  | cons k keys ih =>
    rw [List.foldl_cons, ih]
    by_cases hk : a ∈ keys
    · simp [hk]
    · rw [if_neg hk, hw]
      by_cases ha : a = k
      · simp [ha]
      · simp [ha, hk]

/-- A loop over distinct `keys` that modifies one entry per round. -/
theorem getElem?_foldl_modify [LawfulEqOrd κ] [DecidableEq κ] {f : ν → ν} {keys : List κ}
    (hkeys : keys.Nodup) (m : ExtTreeMap κ ν) (a : κ) :
    (keys.foldl (fun m k => m.modify k f) m)[a]? = if a ∈ keys then m[a]?.map f else m[a]? := by
  induction keys generalizing m with
  | nil => simp
  | cons k keys ih =>
    obtain ⟨hk, hrest⟩ := List.nodup_cons.mp hkeys
    rw [List.foldl_cons, ih hrest, lookup_modify]
    by_cases ha : a = k
    · rw [ha, if_neg hk, if_pos rfl, if_pos List.mem_cons_self]
    · rw [if_neg ha]
      simp [ha]

end OrdMap

end NodeWebrtc
