import Mathlib.Data.List.Nodup

/-! # Maps in insertion order

A map whose iteration visits the keys in the order of their first insertion, as the
built-in map of a scripting runtime does. Writing a present key keeps its place, and a
key that was deleted and written again goes to the end.
-/

namespace NodeWebrtc

universe u v

structure InsertMap (κ : Type u) (ν : Type v) where
  entries : List (κ × ν)
  nodup : (entries.map Prod.fst).Nodup

namespace InsertMap

variable {κ : Type u} {ν : Type v} [DecidableEq κ]

/-- The value stored under `k`. -/
def get (m : InsertMap κ ν) (k : κ) : Option ν :=
  (m.entries.find? fun e => e.1 = k).map Prod.snd

def empty : InsertMap κ ν := ⟨[], List.nodup_nil⟩

def size (m : InsertMap κ ν) : Nat := m.entries.length

def values (m : InsertMap κ ν) : List ν := m.entries.map Prod.snd

omit [DecidableEq κ] in
theorem nodup_filter (m : InsertMap κ ν) (p : κ × ν → Bool) :
    ((m.entries.filter p).map Prod.fst).Nodup :=
  m.nodup.sublist (List.filter_sublist.map Prod.fst)

def delete (m : InsertMap κ ν) (k : κ) : InsertMap κ ν where
  entries := m.entries.filter fun e => e.1 ≠ k
  nodup := m.nodup_filter _

/-- Replaces the value of a present key. -/
def overwrite (l : List (κ × ν)) (k : κ) (v : ν) : List (κ × ν) :=
  l.map fun e => if e.1 = k then (k, v) else e

theorem keys_overwrite (l : List (κ × ν)) (k : κ) (v : ν) :
    (overwrite l k v).map Prod.fst = l.map Prod.fst := by
  rw [overwrite, List.map_map]
  apply List.map_congr_left
  intro e _
  by_cases h : e.1 = k
  · simp [h]
  · simp [h]

omit [DecidableEq κ] in
theorem nodup_append {l : List (κ × ν)} (h : (l.map Prod.fst).Nodup) {k : κ}
    (hk : k ∉ l.map Prod.fst) (v : ν) : ((l ++ [(k, v)]).map Prod.fst).Nodup := by
  rw [List.map_append]
  exact h.append (List.nodup_singleton k) (List.disjoint_singleton.mpr hk)

def set (m : InsertMap κ ν) (k : κ) (v : ν) : InsertMap κ ν :=
  if hk : k ∈ m.entries.map Prod.fst then
    ⟨overwrite m.entries k v, (keys_overwrite m.entries k v).symm ▸ m.nodup⟩
  else ⟨m.entries ++ [(k, v)], nodup_append m.nodup hk v⟩

/-- Drops the oldest entries until at most `n` are left. -/
def keepLast (m : InsertMap κ ν) (n : Nat) : InsertMap κ ν where
  entries := m.entries.drop (m.entries.length - n)
  nodup := m.nodup.sublist ((List.drop_sublist _ _).map Prod.fst)

/-! ## Lookup -/

theorem get_eq_some_iff (m : InsertMap κ ν) (k : κ) (v : ν) :
    m.get k = some v ↔ (k, v) ∈ m.entries := by
  simp only [get, Option.map_eq_some_iff]
  constructor
  · intro h
    obtain ⟨e, he, rfl⟩ := h
    have hk : e.1 = k := by simpa using List.find?_some he
    rw [← hk]
    exact List.mem_of_find?_eq_some he
  · intro h
    cases hfind : m.entries.find? fun e => e.1 = k with
    | none =>
      have hnone := List.find?_eq_none.mp hfind (k, v) h
      simp at hnone
    | some e =>
      have hk : e.1 = k := by simpa using List.find?_some hfind
      have he := List.mem_of_find?_eq_some hfind
      have heq := List.inj_on_of_nodup_map m.nodup he h hk
      exact ⟨e, rfl, by rw [heq]⟩

theorem mem_keys_iff (m : InsertMap κ ν) (k : κ) :
    k ∈ m.entries.map Prod.fst ↔ ∃ v, m.get k = some v := by
  rw [List.mem_map]
  constructor
  · intro h
    obtain ⟨e, he, rfl⟩ := h
    exact ⟨e.2, (m.get_eq_some_iff e.1 e.2).mpr he⟩
  · intro h
    obtain ⟨v, hv⟩ := h
    exact ⟨(k, v), (m.get_eq_some_iff k v).mp hv, rfl⟩

theorem mem_values_iff (m : InsertMap κ ν) (v : ν) : v ∈ m.values ↔ ∃ k, m.get k = some v := by
  rw [values, List.mem_map]
  constructor
  · intro h
    obtain ⟨e, he, rfl⟩ := h
    exact ⟨e.1, (m.get_eq_some_iff e.1 e.2).mpr he⟩
  · intro h
    obtain ⟨k, hk⟩ := h
    exact ⟨(k, v), (m.get_eq_some_iff k v).mp hk, rfl⟩

theorem get_set (m : InsertMap κ ν) (k a : κ) (v : ν) :
    (m.set k v).get a = if a = k then some v else m.get a := by
  apply Option.ext
  intro b
  rw [get_eq_some_iff]
  by_cases hk : k ∈ m.entries.map Prod.fst
  · rw [set, dif_pos hk]
    simp only [overwrite, List.mem_map]
    by_cases ha : a = k
    · rw [if_pos ha, ha]
      constructor
      · intro h
        obtain ⟨e, he, heq⟩ := h
        by_cases hek : e.1 = k
        · rw [if_pos hek, Prod.mk.injEq] at heq
          rw [heq.2]
        · rw [if_neg hek] at heq
          exact absurd (congrArg Prod.fst heq) hek
      · intro h
        obtain ⟨e, he, hek⟩ := List.mem_map.mp hk
        exact ⟨e, he, by rw [if_pos hek, Option.some.inj h]⟩
    · rw [if_neg ha, get_eq_some_iff]
      constructor
      · intro h
        obtain ⟨e, he, heq⟩ := h
        by_cases hek : e.1 = k
        · rw [if_pos hek, Prod.mk.injEq] at heq
          exact absurd heq.1.symm ha
        · rw [if_neg hek] at heq
          exact heq ▸ he
      · intro h
        exact ⟨(a, b), h, by rw [if_neg ha]⟩
  · rw [set, dif_neg hk, List.mem_append, List.mem_singleton, Prod.mk.injEq]
    by_cases ha : a = k
    · rw [if_pos ha]
      constructor
      · intro h
        rcases h with hm | heq
        · exact absurd (List.mem_map.mpr ⟨(a, b), hm, ha⟩) hk
        · rw [heq.2]
      · intro h
        exact Or.inr ⟨ha, (Option.some.inj h).symm⟩
    · rw [if_neg ha, get_eq_some_iff]
      simp [ha]

theorem get_delete (m : InsertMap κ ν) (k a : κ) :
    (m.delete k).get a = if a = k then none else m.get a := by
  apply Option.ext
  intro b
  rw [get_eq_some_iff, delete, List.mem_filter]
  by_cases ha : a = k
  · simp [ha]
  · simp [ha, get_eq_some_iff]

omit [DecidableEq κ] in
theorem eq_empty_of_size_eq_zero {m : InsertMap κ ν} (h : m.size = 0) : m = empty := by
  obtain ⟨entries, nodup⟩ := m
  have hnil : entries = [] := List.length_eq_zero_iff.mp h
  subst hnil
  rfl

theorem get_of_get_keepLast {m : InsertMap κ ν} {n : Nat} {k : κ} {v : ν}
    (h : (m.keepLast n).get k = some v) : m.get k = some v := by
  rw [get_eq_some_iff] at h ⊢
  exact List.mem_of_mem_drop h

/-- The entry that was written last is kept. -/
theorem get_keepLast_set (m : InsertMap κ ν) (k : κ) (v : ν) {n : Nat} (hn : 0 < n) :
    (((m.delete k).set k v).keepLast n).get k = some v := by
  have hk : k ∉ (m.delete k).entries.map Prod.fst := by
    rw [mem_keys_iff]
    intro h
    obtain ⟨w, hw⟩ := h
    rw [get_delete, if_pos rfl] at hw
    cases hw
  rw [get_eq_some_iff, set, dif_neg hk, keepLast]
  dsimp only
  rw [List.drop_append_of_le_length]
  · exact List.mem_append_right _ (List.mem_singleton_self _)
  · rw [List.length_append, List.length_singleton]
    omega

end InsertMap

end NodeWebrtc
