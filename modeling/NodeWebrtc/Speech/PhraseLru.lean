import Mathlib.Data.List.Sort
import NodeWebrtc.Lib.Lru
import NodeWebrtc.Lib.Simulation
import NodeWebrtc.Speech.PhraseCache

/-! # The phrase cache is an LRU

The map, the recency order and the byte count together are a list of rows, oldest first: a
stamp, a phrase and its clip. Each operation of the cache is the LRU operation on the rows.
-/

namespace NodeWebrtc.Speech

open Std

inductive CacheOp (β : Type) where
  | get (key : PhraseKey)
  | insert (key : PhraseKey) (value : TtsAudioChunk β)

namespace PhraseCache

variable {β : Type}

def step (c : PhraseCache β) : CacheOp β → Option (PhraseCache β × List (Option (TtsAudioChunk β)))
  | .get key => some ((c.get key).2, [(c.get key).1])
  | .insert key value => some (c.insert key value, [])

def clipBytes (value : TtsAudioChunk β) : Nat := value.pcm.length

/-- The entries a reference LRU holds, the least recently used first. -/
abbrev Clips (β : Type) := List (PhraseKey × TtsAudioChunk β)

/-- The reference: empty and over-limit clips are skipped. -/
def lruStep (maxBytes maxEntryBytes : Nat) (l : Clips β) :
    CacheOp β → Option (Clips β × List (Option (TtsAudioChunk β)))
  | .get key => some (Lru.touch l key, [Lru.lookup l key])
  | .insert key value =>
    if clipBytes value = 0 ∨ maxEntryBytes < clipBytes value then some (l, [])
    else some (Lru.put clipBytes maxBytes l key value, [])

abbrev Row (β : Type) := Nat × PhraseKey × TtsAudioChunk β

/-- The rows of a cache in the order of their stamps. -/
structure Holds (c : PhraseCache β) (rows : List (Row β)) : Prop where
  stamps : rows.Pairwise fun a b => a.1 < b.1
  fresh : ∀ row ∈ rows, row.1 < c.nextStamp
  map : ∀ key entry, c.map[key]? = some entry ↔ (entry.stamp, key, entry.value) ∈ rows
  order : ∀ stamp key, c.order[stamp]? = some key ↔ ∃ value, (stamp, key, value) ∈ rows
  bytes : c.bytes = Lru.weight clipBytes (rows.map Prod.snd)

def others (rows : List (Row β)) (key : PhraseKey) : List (Row β) :=
  rows.filter fun row => row.2.1 ≠ key

section Rows

variable {c : PhraseCache β} {rows : List (Row β)} {key : PhraseKey}

theorem mem_others {row : Row β} : row ∈ others rows key ↔ row ∈ rows ∧ row.2.1 ≠ key := by
  unfold others
  rw [List.mem_filter, decide_eq_true_eq]

theorem others_map (rows : List (Row β)) (key : PhraseKey) :
    (others rows key).map Prod.snd = Lru.without (rows.map Prod.snd) key := by
  unfold others Lru.without
  rw [List.filter_map]
  rfl

section

variable (h : c.Holds rows)
include h

theorem Holds.same_row {s s' : Nat} {v v' : TtsAudioChunk β} (hv : (s, key, v) ∈ rows)
    (hv' : (s', key, v') ∈ rows) : s = s' ∧ v = v' := by
  have hfirst := (h.map key ⟨v, s⟩).mpr hv
  rw [(h.map key ⟨v', s'⟩).mpr hv', Option.some.injEq, CacheEntry.mk.injEq] at hfirst
  exact ⟨hfirst.2.symm, hfirst.1.symm⟩

theorem Holds.same_key {s : Nat} {k : PhraseKey} {v v' : TtsAudioChunk β} (hv : (s, key, v) ∈ rows)
    (hv' : (s, k, v') ∈ rows) : key = k := by
  have hfirst := (h.order s key).mpr ⟨v, hv⟩
  rw [(h.order s k).mpr ⟨v', hv'⟩] at hfirst
  exact (Option.some.inj hfirst).symm

theorem Holds.nodup : rows.Nodup :=
  h.stamps.imp (S := (· ≠ ·)) fun {a b} hlt heq => by
    rw [heq] at hlt
    exact Nat.lt_irrefl b.1 hlt

theorem Holds.order_toList : c.order.toList = rows.map fun row => (row.1, row.2.1) := by
  have hrows : (rows.map fun row => (row.1, row.2.1)).Pairwise fun a b => a.1 < b.1 :=
    List.pairwise_map.mpr h.stamps
  have hlist : c.order.toList.Pairwise fun a b => a.1 < b.1 :=
    ExtTreeMap.ordered_keys_toList.imp fun hlt => Nat.compare_eq_lt.mp hlt
  refine List.Perm.eq_of_pairwise (fun a b _ _ hab hba => ?_) hlist hrows ?_
  · exact absurd hab (Nat.lt_asymm hba)
  have hnodup : (rows.map fun row => (row.1, row.2.1)).Nodup :=
    hrows.imp (S := (· ≠ ·)) fun {a b} hlt heq => by
      rw [heq] at hlt
      exact Nat.lt_irrefl b.1 hlt
  apply (List.perm_ext_iff_of_nodup (OrdMap.nodup_toList _) hnodup).mpr
  intro entry
  obtain ⟨stamp, key⟩ := entry
  rw [ExtTreeMap.mem_toList_iff_getElem?_eq_some, h.order, List.mem_map]
  constructor
  · rintro ⟨value, hmem⟩
    exact ⟨_, hmem, rfl⟩
  · rintro ⟨⟨s, k, value⟩, hmem, heq⟩
    cases heq
    exact ⟨value, hmem⟩

theorem Holds.split {entry : CacheEntry β} (hentry : c.map[key]? = some entry) :
    rows.Perm ((entry.stamp, key, entry.value) :: others rows key) := by
  have hmem := (h.map key entry).mp hentry
  apply (List.perm_ext_iff_of_nodup h.nodup _).mpr
  · intro row
    obtain ⟨s, k, v⟩ := row
    rw [List.mem_cons, mem_others]
    constructor
    · intro hrow
      by_cases hk : k = key
      · subst hk
        obtain ⟨rfl, rfl⟩ := h.same_row hrow hmem
        exact .inl rfl
      · exact .inr ⟨hrow, hk⟩
    · rintro (heq | hrow)
      · exact heq ▸ hmem
      · exact hrow.1
  · refine List.nodup_cons.mpr ⟨fun hin => ?_, h.nodup.filter _⟩
    exact (mem_others.mp hin).2 rfl

theorem Holds.others_of_none (hnone : c.map[key]? = none) : others rows key = rows := by
  unfold others
  rw [List.filter_eq_self]
  intro row hrow
  obtain ⟨s, k, v⟩ := row
  refine decide_eq_true fun (heq : k = key) => ?_
  subst heq
  rw [(h.map k ⟨v, s⟩).mpr hrow] at hnone
  contradiction

theorem Holds.clip? (key : PhraseKey) : c.clip? key = Lru.lookup (rows.map Prod.snd) key := by
  have hone : ∀ v w, (key, v) ∈ rows.map Prod.snd → (key, w) ∈ rows.map Prod.snd → v = w := by
    intro v w hv hw
    obtain ⟨⟨s, k, v⟩, hrow, heq⟩ := List.mem_map.mp hv
    obtain ⟨⟨s', k', w⟩, hrow', heq'⟩ := List.mem_map.mp hw
    obtain ⟨rfl, rfl⟩ := Prod.mk.inj heq
    obtain ⟨rfl, rfl⟩ := Prod.mk.inj heq'
    exact (h.same_row hrow hrow').2
  apply Option.ext
  intro value
  rw [Lru.lookup_eq_some_iff hone]
  unfold PhraseCache.clip?
  rw [Option.map_eq_some_iff, List.mem_map]
  constructor
  · rintro ⟨entry, hentry, rfl⟩
    exact ⟨_, (h.map key entry).mp hentry, rfl⟩
  · rintro ⟨⟨s, k, v⟩, hrow, heq⟩
    obtain ⟨rfl, rfl⟩ := Prod.mk.inj heq
    exact ⟨⟨v, s⟩, (h.map k ⟨v, s⟩).mpr hrow, rfl⟩

theorem Holds.replaceOld (key : PhraseKey) :
    (c.replaceOld key).Holds (others rows key) ∧ (c.replaceOld key).nextStamp = c.nextStamp := by
  unfold PhraseCache.replaceOld
  cases hentry : c.map[key]? with
  | none => exact ⟨(h.others_of_none hentry).symm ▸ h, rfl⟩
  | some old =>
    unfold forget
    rw [hentry]
    have hold := (h.map key old).mp hentry
    refine ⟨⟨h.stamps.filter _, fun row hrow => h.fresh row (mem_others.mp hrow).1,
      fun k entry => ?_, fun stamp k => ?_, ?_⟩, rfl⟩
    · show (c.map.erase key)[k]? = some entry ↔ _
      rw [OrdMap.lookup_erase, mem_others]
      by_cases hk : k = key
      · simp [hk]
      · rw [if_neg hk, h.map]
        exact ⟨fun hrow => ⟨hrow, hk⟩, And.left⟩
    · show (c.order.erase old.stamp)[stamp]? = some k ↔ _
      rw [OrdMap.lookup_erase]
      by_cases hstamp : stamp = old.stamp
      · rw [if_pos hstamp]
        refine ⟨fun hno => by contradiction, ?_⟩
        rintro ⟨value, hrow⟩
        obtain ⟨hrow, hne⟩ := mem_others.mp hrow
        exact absurd (h.same_key (hstamp ▸ hrow) hold) hne
      · rw [if_neg hstamp, h.order]
        constructor
        · rintro ⟨value, hrow⟩
          refine ⟨value, mem_others.mpr ⟨hrow, fun (heq : k = key) => ?_⟩⟩
          exact hstamp (h.same_row (heq ▸ hrow) hold).1
        · rintro ⟨value, hrow⟩
          exact ⟨value, (mem_others.mp hrow).1⟩
    · have hweight : Lru.weight clipBytes (rows.map Prod.snd) =
          clipBytes old.value + Lru.weight clipBytes ((others rows key).map Prod.snd) :=
        (Lru.weight_perm clipBytes ((h.split hentry).map Prod.snd)).trans
          (Lru.weight_cons clipBytes _ _)
      show c.bytes - clipBytes old.value = _
      rw [h.bytes, hweight, Nat.add_sub_cancel_left]

theorem Holds.enter (habsent : others rows key = rows) (value : TtsAudioChunk β) :
    (c.enter key value).Holds (rows ++ [(c.nextStamp, key, value)]) := by
  have hno : ∀ s v, (s, key, v) ∉ rows := fun s v hrow => by
    rw [← habsent] at hrow
    exact (mem_others.mp hrow).2 rfl
  refine ⟨?_, fun row hrow => ?_, fun k entry => ?_, fun stamp k => ?_, ?_⟩
  · rw [List.pairwise_append]
    refine ⟨h.stamps, List.pairwise_singleton _ _, fun row hrow new hnew => ?_⟩
    rw [List.mem_singleton.mp hnew]
    exact h.fresh row hrow
  · show row.1 < c.nextStamp + 1
    rcases List.mem_append.mp hrow with hrow | hrow
    · exact Nat.lt_succ_of_lt (h.fresh row hrow)
    · rw [List.mem_singleton.mp hrow]
      exact Nat.lt_succ_self _
  · show (c.map.insert key ⟨value, c.nextStamp⟩)[k]? = some entry ↔ _
    rw [OrdMap.lookup_insert, List.mem_append, List.mem_singleton]
    by_cases hk : k = key
    · subst hk
      rw [if_pos rfl, Option.some.injEq]
      constructor
      · rintro rfl
        exact .inr rfl
      · rintro (hrow | heq)
        · exact absurd hrow (hno _ _)
        · obtain ⟨hstamp, heq⟩ := Prod.mk.inj heq
          obtain ⟨-, hvalue⟩ := Prod.mk.inj heq
          cases entry
          simp_all
    · rw [if_neg hk, h.map]
      refine ⟨.inl, ?_⟩
      rintro (hrow | heq)
      · exact hrow
      · exact absurd (Prod.mk.inj (Prod.mk.inj heq).2).1 hk
  · show (c.order.insert c.nextStamp key)[stamp]? = some k ↔ _
    rw [OrdMap.lookup_insert]
    by_cases hstamp : stamp = c.nextStamp
    · rw [if_pos hstamp, Option.some.injEq]
      constructor
      · rintro rfl
        exact ⟨value, by simp [hstamp]⟩
      · rintro ⟨v, hrow⟩
        rcases List.mem_append.mp hrow with hrow | hrow
        · exact absurd (h.fresh _ hrow) (by show ¬ stamp < _; omega)
        · exact (Prod.mk.inj (Prod.mk.inj (List.mem_singleton.mp hrow)).2).1.symm
    · rw [if_neg hstamp, h.order]
      constructor
      · rintro ⟨v, hrow⟩
        exact ⟨v, List.mem_append_left _ hrow⟩
      · rintro ⟨v, hrow⟩
        rcases List.mem_append.mp hrow with hrow | hrow
        · exact ⟨v, hrow⟩
        · exact absurd (Prod.mk.inj (List.mem_singleton.mp hrow)).1 hstamp
  · show c.bytes + clipBytes value = _
    rw [List.map_append, Lru.weight_append, h.bytes]
    rfl

end

theorem others_others (rows : List (Row β)) (key : PhraseKey) :
    others (others rows key) key = others rows key := by
  unfold others
  rw [List.filter_filter]
  simp

theorem Holds.pop {stamp : Nat} {value : TtsAudioChunk β}
    (h : c.Holds ((stamp, key, value) :: rows)) :
    ({ c with order := c.order.erase stamp }.forget key).Holds rows := by
  have hmap : c.map[key]? = some ⟨value, stamp⟩ := (h.map key ⟨value, stamp⟩).mpr List.mem_cons_self
  have hothers : others ((stamp, key, value) :: rows) key = rows := by
    have hperm := h.split hmap
    have hcons : others ((stamp, key, value) :: rows) key = others rows key := by
      unfold others
      rw [List.filter_cons_of_neg (by simp)]
    rw [hcons] at hperm ⊢
    exact List.filter_eq_self.mpr fun row hrow =>
      decide_eq_true (mem_others.mp (((List.perm_cons _).mp hperm).mem_iff.mp hrow)).2
  have hreplaced := (h.replaceOld key).1
  rw [hothers] at hreplaced
  have hsame : { c with order := c.order.erase stamp }.forget key = c.replaceOld key := by
    unfold PhraseCache.replaceOld forget
    rw [hmap]
  rw [hsame]
  exact hreplaced

theorem Holds.evict {fuel : Nat} (h : c.Holds rows) (hfuel : rows.length ≤ fuel) :
    ∃ rows', (c.evict fuel).Holds rows' ∧
      rows'.map Prod.snd = Lru.trim clipBytes c.maxBytes (rows.map Prod.snd) := by
  induction rows generalizing c fuel with
  | nil =>
    refine ⟨[], ?_, rfl⟩
    cases fuel with
    | zero => exact h
    | succ fuel =>
      unfold PhraseCache.evict
      have hbytes : c.bytes = 0 := h.bytes
      rw [if_neg (by omega)]
      exact h
  | cons row rows ih =>
    obtain ⟨stamp, key, value⟩ := row
    cases fuel with
    | zero => simp at hfuel
    | succ fuel =>
      unfold PhraseCache.evict
      rw [List.map_cons]
      unfold Lru.trim
      rw [show Lru.weight clipBytes ((stamp, key, value).2 :: rows.map Prod.snd) = c.bytes from
        h.bytes.symm]
      by_cases hover : c.maxBytes < c.bytes
      · have hfirst : OrdMap.first? c.order = some (stamp, key) := by
          unfold OrdMap.first?
          rw [h.order_toList]
          rfl
        rw [if_pos hover, if_pos hover, hfirst]
        have hmax : ({ c with order := c.order.erase stamp }.forget key).maxBytes =
            c.maxBytes := by
          unfold forget
          split <;> rfl
        have hrest := ih h.pop (Nat.le_of_succ_le_succ hfuel)
        rw [hmax] at hrest
        exact hrest
      · rw [if_neg hover, if_neg hover]
        exact ⟨_, h, rfl⟩

theorem Holds.get_hit (h : c.Holds rows) {entry : CacheEntry β}
    (hentry : c.map[key]? = some entry) :
    (c.get key).2 = (c.replaceOld key).enter key entry.value := by
  have hweight := Lru.weight_perm clipBytes ((h.split hentry).map Prod.snd)
  have hbytes : entry.value.pcm.length ≤ c.bytes := by
    rw [h.bytes, hweight, List.map_cons, Lru.weight_cons]
    exact Nat.le_add_right _ _
  have hmap : c.map.insert key ⟨entry.value, c.nextStamp⟩ =
      (c.map.erase key).insert key ⟨entry.value, c.nextStamp⟩ := by
    apply ExtTreeMap.ext_getElem?
    intro k
    rw [OrdMap.lookup_insert, OrdMap.lookup_insert, OrdMap.lookup_erase]
    by_cases hk : k = key
    · rw [if_pos hk, if_pos hk]
    · rw [if_neg hk, if_neg hk, if_neg hk]
  unfold PhraseCache.get PhraseCache.replaceOld forget PhraseCache.enter
  dsimp only
  rw [hentry]
  simp only [hmap, Nat.sub_add_cancel hbytes]

theorem Holds.get (h : c.Holds rows) (key : PhraseKey) : ∃ rows', (c.get key).2.Holds rows' ∧
    rows'.map Prod.snd = Lru.touch (rows.map Prod.snd) key := by
  have hclip := h.clip? key
  unfold PhraseCache.clip? at hclip
  unfold Lru.touch
  rw [← hclip]
  cases hentry : c.map[key]? with
  | none =>
    refine ⟨rows, ?_, rfl⟩
    unfold PhraseCache.get
    dsimp only
    rw [hentry]
    exact ⟨h.stamps, fun row hrow => Nat.lt_succ_of_lt (h.fresh row hrow), h.map, h.order, h.bytes⟩
  | some entry =>
    obtain ⟨hreplaced, hstamp⟩ := h.replaceOld key
    rw [h.get_hit hentry]
    refine ⟨_, hreplaced.enter (others_others rows key) entry.value, ?_⟩
    rw [List.map_append, others_map]
    rfl

theorem Holds.insert (h : c.Holds rows) (key : PhraseKey) (value : TtsAudioChunk β)
    (ha : c.accepts value = true) : ∃ rows', (c.insert key value).Holds rows' ∧
      rows'.map Prod.snd = Lru.put clipBytes c.maxBytes (rows.map Prod.snd) key value := by
  obtain ⟨hreplaced, hstamp⟩ := h.replaceOld key
  have hentered := hreplaced.enter (others_others rows key) value
  have hsize : ((c.replaceOld key).enter key value).order.size =
      (others rows key ++ [((c.replaceOld key).nextStamp, key, value)]).length := by
    rw [← ExtTreeMap.length_toList, hentered.order_toList, List.length_map]
  have hmax : ((c.replaceOld key).enter key value).maxBytes = c.maxBytes := by
    unfold PhraseCache.enter PhraseCache.replaceOld forget
    split
    · rfl
    · split <;> rfl
  obtain ⟨rows', hrows', htrim⟩ := hentered.evict (Nat.le_of_eq hsize.symm)
  refine ⟨rows', ?_, ?_⟩
  · unfold PhraseCache.insert
    rw [if_pos ha]
    exact hrows'
  · rw [htrim, hmax, List.map_append, others_map]
    rfl

theorem new_holds (maxBytes maxEntryBytes : Nat) : (new β maxBytes maxEntryBytes).Holds [] := by
  refine ⟨List.Pairwise.nil, fun _ hrow => absurd hrow List.not_mem_nil, fun key entry => ?_,
    fun stamp key => ?_, rfl⟩
  · show (∅ : ExtTreeMap PhraseKey (CacheEntry β))[key]? = some entry ↔ _
    simp
  · show (∅ : ExtTreeMap Nat PhraseKey)[stamp]? = some key ↔ _
    simp

end Rows

/-! ## Every run -/

/-- The limits a cache was made with, its rows, and the entries of the reference. -/
def Follows (maxBytes maxEntryBytes : Nat) (c : PhraseCache β) (l : Clips β) : Prop :=
  c.maxBytes = maxBytes ∧ c.maxEntryBytes = maxEntryBytes ∧ c.bytes ≤ c.maxBytes ∧
    ∃ rows, c.Holds rows ∧ rows.map Prod.snd = l

theorem maxBytes_forget (c : PhraseCache β) (key : PhraseKey) :
    (c.forget key).maxBytes = c.maxBytes ∧ (c.forget key).maxEntryBytes = c.maxEntryBytes := by
  unfold forget
  split <;> exact ⟨rfl, rfl⟩

theorem maxBytes_get (c : PhraseCache β) (key : PhraseKey) :
    (c.get key).2.maxBytes = c.maxBytes ∧ (c.get key).2.maxEntryBytes = c.maxEntryBytes ∧
      (c.get key).2.bytes = c.bytes := by
  unfold get
  dsimp only
  split <;> exact ⟨rfl, rfl, rfl⟩

theorem maxBytes_evict (fuel : Nat) (c : PhraseCache β) :
    (c.evict fuel).maxBytes = c.maxBytes ∧ (c.evict fuel).maxEntryBytes = c.maxEntryBytes := by
  induction fuel generalizing c with
  | zero => exact ⟨rfl, rfl⟩
  | succ fuel ih =>
    unfold evict
    split
    · split
      · exact ⟨rfl, rfl⟩
      · rename_i stamp oldest _
        have hforget := maxBytes_forget { c with order := c.order.erase stamp } oldest
        have hrest := ih ({ c with order := c.order.erase stamp }.forget oldest)
        exact ⟨hrest.1.trans hforget.1, hrest.2.trans hforget.2⟩
    · exact ⟨rfl, rfl⟩

theorem maxBytes_insert (c : PhraseCache β) (key : PhraseKey) (value : TtsAudioChunk β) :
    (c.insert key value).maxBytes = c.maxBytes ∧
      (c.insert key value).maxEntryBytes = c.maxEntryBytes := by
  unfold insert
  split
  · have hevict := maxBytes_evict ((c.replaceOld key).enter key value).order.size
      ((c.replaceOld key).enter key value)
    have hreplaced : (c.replaceOld key).maxBytes = c.maxBytes ∧
        (c.replaceOld key).maxEntryBytes = c.maxEntryBytes := by
      unfold replaceOld
      split
      · exact ⟨rfl, rfl⟩
      · exact maxBytes_forget c key
    exact ⟨hevict.1.trans hreplaced.1, hevict.2.trans hreplaced.2⟩
  · exact ⟨rfl, rfl⟩

theorem step_follows {maxBytes maxEntryBytes : Nat} {c : PhraseCache β} {l : Clips β}
    (h : Follows maxBytes maxEntryBytes c l) (op : CacheOp β) :
    ∃ c' l' out, c.step op = some (c', out) ∧ lruStep maxBytes maxEntryBytes l op = some (l', out) ∧
      Follows maxBytes maxEntryBytes c' l' := by
  obtain ⟨hmax, hmaxEntry, hbytes, rows, hrows, rfl⟩ := h
  cases op with
  | get key =>
    obtain ⟨rows', hrows', htouch⟩ := hrows.get key
    obtain ⟨hsame, hsameEntry, hsameBytes⟩ := maxBytes_get c key
    refine ⟨_, _, _, rfl, ?_, hsame.trans hmax, hsameEntry.trans hmaxEntry, ?_, rows', hrows', rfl⟩
    · rw [get_fst, hrows.clip? key, htouch]
      rfl
    · rw [hsame, hsameBytes]
      exact hbytes
  | insert key value =>
    obtain ⟨hsame, hsameEntry⟩ := maxBytes_insert c key value
    cases ha : c.accepts value with
    | false =>
      have hskip : clipBytes value = 0 ∨ maxEntryBytes < clipBytes value := by
        simpa [accepts, clipBytes, hmaxEntry, or_iff_not_imp_left] using ha
      refine ⟨_, _, [], rfl, if_pos hskip, ?_⟩
      rw [insert_of_not_accepts ha]
      exact ⟨hmax, hmaxEntry, hbytes, rows, hrows, rfl⟩
    | true =>
      have htake : ¬ (clipBytes value = 0 ∨ maxEntryBytes < clipBytes value) := by
        simpa [accepts, clipBytes, hmaxEntry] using ha
      obtain ⟨rows', hrows', hput⟩ := hrows.insert key value ha
      refine ⟨_, _, [], rfl, if_neg htake, hsame.trans hmax, hsameEntry.trans hmaxEntry, ?_,
        rows', hrows', ?_⟩
      · rw [hrows'.bytes, hput, hsame]
        exact Lru.weight_trim_le clipBytes c.maxBytes _
      · rw [hput, hmax]

/-- Over every sequence of lookups and insertions the cache answers as the reference LRU does and
ends with its entries, in its order; each entry's stamp is its phrase's place in the recency order
and each place is that of an entry; and the byte count is that of the clips held, within the
budget. -/
theorem cache_is_lru (maxBytes maxEntryBytes : Nat) (ops : List (CacheOp β)) :
    ∃ (c : PhraseCache β) (l : Clips β) (answers : List (Option (TtsAudioChunk β))),
      Machine.run step (new β maxBytes maxEntryBytes) ops = some (c, answers) ∧
      Machine.run (lruStep maxBytes maxEntryBytes) [] ops = some (l, answers) ∧
      (∀ key, c.clip? key = Lru.lookup l key) ∧
      c.order.toList.map Prod.snd = l.map Prod.fst ∧
      (∀ (key : PhraseKey) (entry : CacheEntry β), c.map[key]? = some entry →
        c.order[entry.stamp]? = some key) ∧
      (∀ (stamp : Nat) (key : PhraseKey), c.order[stamp]? = some key →
        ∃ entry, c.map[key]? = some entry ∧ entry.stamp = stamp) ∧
      c.bytes = (c.map.toList.map fun entry => entry.2.value.pcm.length).sum ∧
      c.bytes ≤ maxBytes := by
  obtain ⟨c, l, answers, hrun, hlru, hmax, -, hbytes, rows, hrows, rfl⟩ :=
    Machine.run_simulation (R := Follows maxBytes maxEntryBytes) (C := fun _ _ _ => True) id
      (fun c l op h _ => by
        obtain ⟨c', l', out, hc, hl, h'⟩ := step_follows h op
        exact ⟨c', l', out, hc, (List.map_id out).symm ▸ hl, h'⟩)
      (⟨rfl, rfl, Nat.zero_le _, [], new_holds maxBytes maxEntryBytes, rfl⟩ :
        Follows maxBytes maxEntryBytes (new β maxBytes maxEntryBytes) [])
      (Machine.alongPair_true step (lruStep maxBytes maxEntryBytes) _ _ ops)
  rw [List.map_id] at hlru
  refine ⟨c, _, answers, hrun, hlru, hrows.clip?, ?_, fun key entry hentry => ?_,
    fun stamp key hstamp => ?_, ?_, hmax ▸ hbytes⟩
  · rw [hrows.order_toList, List.map_map, List.map_map]
    rfl
  · exact (hrows.order _ key).mpr ⟨_, (hrows.map key entry).mp hentry⟩
  · obtain ⟨value, hrow⟩ := (hrows.order stamp key).mp hstamp
    exact ⟨⟨value, stamp⟩, (hrows.map key _).mpr hrow, rfl⟩
  · rw [hrows.bytes]
    have hnodup : (rows.map fun row => (row.2.1, CacheEntry.mk row.2.2 row.1)).Nodup :=
      hrows.nodup.map fun a b heq => by
        obtain ⟨hkey, hentry⟩ := Prod.mk.inj heq
        obtain ⟨hvalue, hstamp⟩ := CacheEntry.mk.inj hentry
        exact Prod.ext hstamp (Prod.ext hkey hvalue)
    have hperm : c.map.toList.Perm
        (rows.map fun row => (row.2.1, CacheEntry.mk row.2.2 row.1)) := by
      apply (List.perm_ext_iff_of_nodup (OrdMap.nodup_toList _) hnodup).mpr
      rintro ⟨key, entry⟩
      rw [ExtTreeMap.mem_toList_iff_getElem?_eq_some, hrows.map, List.mem_map]
      constructor
      · intro hrow
        exact ⟨_, hrow, rfl⟩
      · rintro ⟨⟨stamp, k, value⟩, hrow, heq⟩
        cases heq
        exact hrow
    rw [(hperm.map _).sum_eq, List.map_map]
    unfold Lru.weight
    rw [List.map_map]
    rfl

end PhraseCache

end NodeWebrtc.Speech
