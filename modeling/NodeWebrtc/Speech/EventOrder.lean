import Mathlib.Data.List.Range
import Mathlib.Data.List.Basic
import Mathlib.Order.Basic
import NodeWebrtc.Speech.EventBus

/-! # The order of events on the bus

Every event is stamped with the position of its call, so equal events stay apart. Whatever
the interleaving, each produced event is sent once. Where only the barge-in that named a
slot emits while the slot is named, every other emitter keeps its order, and no event
passes a slot that was reserved before it, the barge-in's own slot and the slots reserved
after that one apart.
-/

namespace NodeWebrtc.EventBus

open Machine

universe u v

variable {ε : Type u} {ι : Type v}

/-! ## What a list of calls did -/

def Call.event : Call ι ε → Option ε
  | .emit _ e => some e
  | .fillSlot _ e => some e
  | .reserveSlot => none
  | .setBeforeSlot _ _ => none

def Call.isReserve : Call ι ε → Bool
  | .reserveSlot => true
  | _ => false

def Call.map {φ : Type u} (f : ε → φ) : Call ι ε → Call ι φ
  | .emit x e => .emit x (f e)
  | .fillSlot slot e => .fillSlot slot (f e)
  | .reserveSlot => .reserveSlot
  | .setBeforeSlot x slot => .setBeforeSlot x slot

/-- How many slots the calls reserved; they are numbered from 1 in this order. -/
def slots (calls : List (Call ι ε)) : Nat := calls.countP Call.isReserve

def windowStep (w : Option (ι × Nat)) : Call ι ε → Option (ι × Nat)
  | .setBeforeSlot x slot => slot.map fun k => (x, k)
  | _ => w

/-- The slot that is named after the calls, and who named it. -/
def window (calls : List (Call ι ε)) : Option (ι × Nat) := calls.foldl windowStep none

/-- The emitter names a slot somewhere in the calls: it is a held barge-in. -/
def NamesSlot (calls : List (Call ι ε)) (x : ι) : Prop := ∃ k, .setBeforeSlot x (some k) ∈ calls

abbrev Stamp (ε : Type u) := Nat × ε

/-- The events the calls produced, in production order. -/
def produced (calls : List (Call ι ε)) : List (Stamp ε) :=
  calls.zipIdx.filterMap fun c => c.1.event.map fun e => (c.2, e)

/-- The slot is reserved and its event is not sent yet. -/
def Waiting (calls : List (Call ι ε)) (slot : Nat) : Prop :=
  ∃ o sent, run EmitOrder.step .new calls = some (o, sent) ∧ slot ∈ o.queue.map Prod.fst

variable (calls : List (Call ι ε))

theorem slots_snoc (c : Call ι ε) :
    slots (calls ++ [c]) = slots calls + if c.isReserve then 1 else 0 := by
  rw [slots, List.countP_append, List.countP_singleton, slots]

theorem window_snoc (c : Call ι ε) : window (calls ++ [c]) = windowStep (window calls) c := by
  rw [window, List.foldl_append]
  rfl

theorem produced_snoc (c : Call ι ε) :
    produced (calls ++ [c]) =
      produced calls ++ (c.event.map fun e => (calls.length, e)).toList := by
  unfold produced
  rw [List.zipIdx_append, List.filterMap_append]
  rw [Nat.zero_add, List.zipIdx_singleton, List.filterMap_cons]
  cases c.event with
  | none | some => rfl

/-! ## The bus over stamped events -/

/-- The bus with its events stamped by a counter of the calls. -/
def stampedStep : Step (Nat × EmitOrder (Stamp ε)) (Call ι ε) (Stamp ε) := fun s c =>
  (EmitOrder.step s.2 (c.map fun e => (s.1, e))).map fun p => ((s.1 + 1, p.1), p.2)

def delivered (calls : List (Call ι ε)) : List (Stamp ε) :=
  ((run stampedStep (0, .new) calls).map Prod.snd).getD []

section Erase

variable {φ : Type u} (f : ε → φ)

def mapPlace (p : Place ε) : Place φ := (p.1, p.2.map f)

def EmitOrder.map (o : EmitOrder ε) : EmitOrder φ := ⟨o.nextSlot, o.queue.map (mapPlace f), o.beforeSlot⟩

theorem deliverReady_map (queue : List (Place ε)) :
    deliverReady (queue.map (mapPlace f)) =
      ((deliverReady queue).1.map (mapPlace f), (deliverReady queue).2.map f) := by
  induction queue with
  | nil => rfl
  | cons p queue ih =>
    obtain ⟨slot, v⟩ := p
    cases v with
    | none => rfl
    | some event =>
      rw [List.map_cons, mapPlace, Option.map_some, deliverReady, ih]
      rfl

theorem insertBefore_map (slot : Nat) (event : ε) (queue : List (Place ε)) :
    insertBefore slot (f event) (queue.map (mapPlace f)) =
      (insertBefore slot event queue).map (List.map (mapPlace f)) := by
  induction queue with
  | nil => rfl
  | cons p queue ih =>
    rw [List.map_cons, insertBefore, insertBefore, ih]
    by_cases hp : p.1 = slot
    · rw [if_pos hp, if_pos (show (mapPlace f p).1 = slot from hp)]
      rfl
    · rw [if_neg hp, if_neg (show ¬ (mapPlace f p).1 = slot from hp), Option.map_map,
        Option.map_map]
      rfl

theorem fillFirst_map (slot : Nat) (event : ε) (queue : List (Place ε)) :
    fillFirst slot (f event) (queue.map (mapPlace f)) =
      (fillFirst slot event queue).map (mapPlace f) := by
  induction queue with
  | nil => rfl
  | cons p queue ih =>
    rw [List.map_cons, fillFirst, fillFirst, ih]
    by_cases hp : p.1 = slot
    · rw [if_pos hp, if_pos (show (mapPlace f p).1 = slot from hp)]
      rfl
    · rw [if_neg hp, if_neg (show ¬ (mapPlace f p).1 = slot from hp)]
      rfl

variable (o : EmitOrder ε)

theorem EmitOrder.deliver_map (queue : List (Place ε)) :
    (o.map f).deliver (queue.map (mapPlace f)) =
      ((o.deliver queue).1.map f, (o.deliver queue).2.map f) := by
  unfold deliver
  rw [deliverReady_map]
  rfl

theorem EmitOrder.emit_map (event : ε) :
    (o.map f).emit (f event) = ((o.emit event).1.map f, (o.emit event).2.map f) := by
  have hins : ((o.map f).beforeSlot.bind fun slot =>
      insertBefore slot (f event) (o.map f).queue) =
      (o.beforeSlot.bind fun slot => insertBefore slot event o.queue).map
        (List.map (mapPlace f)) := by
    rw [EmitOrder.map]
    cases o.beforeSlot with
    | none => rfl
    | some slot => exact insertBefore_map f slot event o.queue
  unfold emit
  rw [hins]
  cases o.beforeSlot.bind fun slot => insertBefore slot event o.queue with
  | some queue => exact o.deliver_map f queue
  | none =>
    have hempty : (o.map f).queue.isEmpty = o.queue.isEmpty := List.isEmpty_map
    rw [hempty]
    by_cases h : o.queue.isEmpty
    · rw [if_pos h, if_pos h]
      rfl
    · rw [if_neg h, if_neg h]
      simp only [EmitOrder.map, List.map_append]
      rfl

theorem EmitOrder.isOpen_map (slot : Nat) : (o.map f).isOpen slot = o.isOpen slot := by
  rw [isOpen, EmitOrder.map, List.any_map]
  congr 1
  funext p
  obtain ⟨slot', v⟩ := p
  cases v with
  | none | some => rfl

theorem EmitOrder.step_map (c : Call ι ε) :
    step (o.map f) (c.map f) = (step o c).map fun p => (p.1.map f, p.2.map f) := by
  cases c with
  | emit x e => exact congrArg some (o.emit_map f e)
  | reserveSlot => simp [Call.map, step, reserveSlot, EmitOrder.map, mapPlace]
  | fillSlot slot e =>
    simp only [Call.map, step]
    rw [o.isOpen_map f]
    by_cases h : o.isOpen slot
    · rw [if_pos h, if_pos h, fillSlot, EmitOrder.map, fillFirst_map]
      exact congrArg some (o.deliver_map f _)
    · rw [if_neg h, if_neg h]
      rfl
  | setBeforeSlot x slot =>
    simp only [Call.map, step]
    rw [show (o.map f).nextSlot = o.nextSlot from rfl]
    split <;> rfl

end Erase

theorem run_erase (s : Nat × EmitOrder (Stamp ε)) :
    run EmitOrder.step (s.2.map Prod.snd) calls =
      (run stampedStep s calls).map fun p => (p.1.2.map Prod.snd, p.2.map Prod.snd) := by
  induction calls generalizing s with
  | nil => rfl
  | cons c calls ih =>
    have hc : EmitOrder.step (s.2.map Prod.snd) c =
        (EmitOrder.step s.2 (c.map fun e => (s.1, e))).map fun p =>
          (p.1.map Prod.snd, p.2.map Prod.snd) := by
      rw [← EmitOrder.step_map]
      cases c <;> rfl
    rw [run, run, hc, stampedStep]
    cases EmitOrder.step s.2 (c.map fun e => (s.1, e)) with
    | none => rfl
    | some p =>
      rw [Option.map_some, Option.map_some, Option.bind_some, Option.bind_some]
      rw [ih (s.1 + 1, p.1), Option.map_map, Option.map_map]
      congr 1
      funext q
      simp [List.map_append]

theorem mem_left_of_lt {a b : List Nat} {k m : Nat} (h : (a ++ k :: b).Pairwise (· < ·))
    (hm : m ∈ a ++ k :: b) (hlt : m < k) : m ∈ a := by
  obtain ⟨-, hkb, -⟩ := List.pairwise_append.mp h
  rcases List.mem_append.mp hm with ha | hb
  · exact ha
  · rcases List.mem_cons.mp hb with rfl | hb
    · exact absurd hlt (Nat.lt_irrefl m)
    · exact absurd (List.rel_of_pairwise_cons hkb hb) (Nat.lt_asymm hlt)

/-! ## The line of a list of calls -/

def slotList (line : List (Place ε)) : List Nat := (line.map Prod.fst).filter (· ≠ 0)

def events (line : List (Place ε)) : List ε := line.filterMap Prod.snd

theorem slotList_append (line rest : List (Place ε)) :
    slotList (line ++ rest) = slotList line ++ slotList rest := by
  rw [slotList, List.map_append, List.filter_append, slotList, slotList]

theorem slotList_cons_ordinary (v : Option ε) (line : List (Place ε)) :
    slotList ((0, v) :: line) = slotList line := rfl

theorem slotList_cons_slot {k : Nat} (hk : k ≠ 0) (v : Option ε) (line : List (Place ε)) :
    slotList ((k, v) :: line) = k :: slotList line := by
  exact List.filter_cons_of_pos (decide_eq_true hk)

theorem mem_slotList {line : List (Place ε)} {k : Nat} :
    k ∈ slotList line ↔ k ∈ line.map Prod.fst ∧ k ≠ 0 := by
  rw [slotList, List.mem_filter, decide_eq_true_eq]

theorem events_append (line rest : List (Place ε)) :
    events (line ++ rest) = events line ++ events rest := List.filterMap_append

theorem events_cons_open (k : Nat) (line : List (Place ε)) :
    events ((k, none) :: line) = events line := rfl

theorem events_cons_some (k : Nat) (e : ε) (line : List (Place ε)) :
    events ((k, some e) :: line) = e :: events line := rfl

theorem getElem?_snoc {calls : List (Call ι ε)} {i : Nat} {d : Call ι ε}
    (hi : calls[i]? = some d) (c : Call ι ε) : (calls ++ [c])[i]? = some d := by
  rw [List.getElem?_append_left (List.getElem?_eq_some_iff.mp hi).1]
  exact hi

/-- The places of the line: the reserved slots in order, each filled by the call that filled
it, and between them the emitted events. -/
structure Line (calls : List (Call ι ε)) (line : List (Place (Stamp ε))) : Prop where
  slots_eq : slotList line = List.range' 1 (slots calls)
  perm : (events line).Perm (produced calls)
  ordinary : ∀ i e, (0, some (i, e)) ∈ line → ∃ x, calls[i]? = some (.emit x e)
  filled : ∀ k i e, k ≠ 0 → (k, some (i, e)) ∈ line → calls[i]? = some (.fillSlot k e)
  sent : ∀ v, (0, v) ∈ line → v ≠ none

section Line

variable {calls : List (Call ι ε)} {line : List (Place (Stamp ε))}

theorem Line.mem_slots (h : Line calls line) {k : Nat} (hk : 0 < k) :
    k ∈ line.map Prod.fst ↔ k ≤ slots calls := by
  have hmem : k ∈ slotList line ↔ k ∈ line.map Prod.fst := by
    rw [mem_slotList]
    exact and_iff_left (Nat.ne_of_gt hk)
  rw [← hmem, h.slots_eq, List.mem_range'_1]
  omega

variable {after before : List (Place (Stamp ε))}

section

variable (h : Line calls line)
include h

theorem Line.mem_before {k m : Nat} {v : Option (Stamp ε)}
    (hline : line = before ++ (k, v) :: after) (hm : 0 < m) (hmk : m < k) (hms : m ≤ slots calls) :
    m ∈ before.map Prod.fst := by
  have hsorted : (slotList line).Pairwise (· < ·) := by
    rw [h.slots_eq]
    exact List.pairwise_lt_range'
  have hmem : m ∈ slotList line := mem_slotList.mpr ⟨(h.mem_slots hm).mpr hms, Nat.ne_of_gt hm⟩
  have hk : k ≠ 0 := by omega
  rw [hline, slotList_append, slotList_cons_slot hk] at hsorted hmem
  exact (mem_slotList.mp (mem_left_of_lt hsorted hmem hmk)).1

theorem Line.slot_unique {k : Nat} {v v' : Option (Stamp ε)}
    (hline : line = before ++ (k, v) :: after) (hk : k ≠ 0) (hmem : (k, v') ∈ line) : v' = v := by
  have hnodup : (slotList line).Nodup := by
    rw [h.slots_eq]
    exact List.nodup_range'
  rw [hline, slotList_append, slotList_cons_slot hk, List.nodup_append] at hnodup
  obtain ⟨-, hafter, hbefore⟩ := hnodup
  have hin : ∀ l : List (Place (Stamp ε)), (k, v') ∈ l → k ∈ slotList l :=
    fun l hl => mem_slotList.mpr ⟨List.mem_map.mpr ⟨_, hl, rfl⟩, hk⟩
  rw [hline] at hmem
  rcases List.mem_append.mp hmem with hb | hb
  · exact absurd rfl (hbefore k (hin before hb) k List.mem_cons_self)
  · rcases List.mem_cons.mp hb with heq | ha
    · exact congrArg Prod.snd heq
    · exact absurd (hin after ha) (List.nodup_cons.mp hafter).1

theorem Line.mem_of_emit {i : Nat} {x : ι} {e : ε} (hi : calls[i]? = some (.emit x e)) :
    (0, some (i, e)) ∈ line := by
  have hprod : (i, e) ∈ produced calls := by
    rw [produced, List.mem_filterMap]
    exact ⟨(.emit x e, i), List.mem_zipIdx_iff_getElem?.mpr hi, rfl⟩
  obtain ⟨p, hp, hpe⟩ := List.mem_filterMap.mp (h.perm.mem_iff.mpr hprod)
  obtain ⟨k, v⟩ := p
  subst hpe
  by_cases hk : k = 0
  · rw [← hk]
    exact hp
  · have hfill := h.filled k i e hk hp
    rw [hi] at hfill
    cases hfill

theorem Line.quiet {c : Call ι ε} (hevent : c.event = none) (hres : c.isReserve = false) :
    Line (calls ++ [c]) line := by
  refine ⟨?_, ?_, ?_, ?_, h.sent⟩
  · rw [h.slots_eq, slots_snoc, hres]
    rfl
  · rw [produced_snoc, hevent]
    simpa using h.perm
  · intro i e hi
    obtain ⟨x, hx⟩ := h.ordinary i e hi
    exact ⟨x, getElem?_snoc hx c⟩
  · intro k i e hk hi
    exact getElem?_snoc (h.filled k i e hk hi) c

theorem Line.reserve : Line (calls ++ [.reserveSlot]) (line ++ [(slots calls + 1, none)]) := by
  have hold : ∀ k i e, (k, some (i, e)) ∈ line ++ [(slots calls + 1, none)] →
      (k, some (i, e)) ∈ line := fun k i e hi => by simpa using hi
  refine ⟨?_, ?_, ?_, ?_, ?_⟩
  · rw [slotList_append, h.slots_eq, slots_snoc,
      Call.isReserve, if_pos rfl, List.range'_1_concat, Nat.add_comm 1]
    rfl
  · rw [produced_snoc]
    simpa [Call.event, events] using h.perm
  · intro i e hi
    obtain ⟨x, hx⟩ := h.ordinary i e (hold 0 i e hi)
    exact ⟨x, getElem?_snoc hx _⟩
  · intro k i e hk hi
    exact getElem?_snoc (h.filled k i e hk (hold k i e hi)) _
  · intro v hv
    exact h.sent v (by simpa using hv)

end

theorem Line.emit (h : Line calls (before ++ after)) (x : ι) (e : ε) :
    Line (calls ++ [.emit x e]) (before ++ (0, some (calls.length, e)) :: after) := by
  have hold : ∀ p : Place (Stamp ε), p ∈ before ++ (0, some (calls.length, e)) :: after →
      p = (0, some (calls.length, e)) ∨ p ∈ before ++ after := by
    grind
  refine ⟨?_, ?_, ?_, ?_, ?_⟩
  · rw [slotList_append, slotList_cons_ordinary, ← slotList_append, h.slots_eq, slots_snoc]
    rfl
  · rw [produced_snoc, events_append, events_cons_some]
    refine List.perm_middle.trans ?_
    rw [← events_append]
    exact (h.perm.cons _).trans (List.perm_append_singleton _ _).symm
  · intro i f hi
    rcases hold _ hi with heq | hi
    · rw [Prod.mk.injEq, Option.some.injEq, Prod.mk.injEq] at heq
      rw [heq.2.1, heq.2.2]
      exact ⟨x, by simp⟩
    · obtain ⟨y, hy⟩ := h.ordinary i f hi
      exact ⟨y, getElem?_snoc hy _⟩
  · intro k i f hk hi
    rcases hold _ hi with heq | hi
    · exact absurd (congrArg Prod.fst heq) hk
    · exact getElem?_snoc (h.filled k i f hk hi) _
  · intro v hv
    rcases hold _ hv with heq | hv
    · have hv' : v = some (calls.length, e) := congrArg Prod.snd heq
      rw [hv']
      exact Option.some_ne_none _
    · exact h.sent v hv

theorem Line.fill {k : Nat} (h : Line calls (before ++ (k, none) :: after)) (hk : k ≠ 0) (e : ε) :
    Line (calls ++ [.fillSlot k e]) (before ++ (k, some (calls.length, e)) :: after) := by
  have hold : ∀ p : Place (Stamp ε), p ∈ before ++ (k, some (calls.length, e)) :: after →
      p = (k, some (calls.length, e)) ∨ p ∈ before ++ (k, none) :: after := by
    grind
  refine ⟨?_, ?_, ?_, ?_, ?_⟩
  · have hslots := h.slots_eq
    rw [slotList_append, slotList_cons_slot hk] at hslots
    rw [slotList_append, slotList_cons_slot hk, hslots, slots_snoc]
    rfl
  · have hperm := h.perm
    rw [events_append, events_cons_open, ← events_append] at hperm
    rw [produced_snoc, events_append, events_cons_some]
    refine List.perm_middle.trans ?_
    rw [← events_append]
    exact (hperm.cons _).trans (List.perm_append_singleton _ _).symm
  · intro i f hi
    rcases hold _ hi with heq | hi
    · exact absurd (congrArg Prod.fst heq).symm hk
    · obtain ⟨y, hy⟩ := h.ordinary i f hi
      exact ⟨y, getElem?_snoc hy _⟩
  · intro m i f hm hi
    rcases hold _ hi with heq | hi
    · rw [Prod.mk.injEq, Option.some.injEq, Prod.mk.injEq] at heq
      rw [heq.1, heq.2.1, heq.2.2]
      simp
    · exact getElem?_snoc (h.filled m i f hm hi) _
  · intro v hv
    rcases hold _ hv with heq | hv
    · exact absurd (congrArg Prod.fst heq).symm hk
    · exact h.sent v hv

end Line

/-! ## Who passes whom -/

/-- While a slot is named and not sent yet, only the barge-in that named it emits. -/
def BargesAlone (calls : List (Call ι ε)) : Prop :=
  EachAfter (fun before c => ∀ x e, c = .emit x e →
    ∀ y k, window before = some (y, k) → Waiting before k → y = x) calls

/-- While a slot is named and not sent yet, an event is emitted only if no slot was reserved
after it. -/
def BargesLast (calls : List (Call ι ε)) : Prop :=
  EachAfter (fun before c => ∀ x e, c = .emit x e →
    ∀ y k, window before = some (y, k) → Waiting before k → k = slots before) calls

/-- An emitted event stands behind every slot that was reserved before it, unless its emitter
is the barge-in of that slot or of an older one. -/
def Behind (calls : List (Call ι ε)) (before : List (Place (Stamp ε)))
    (p : Place (Stamp ε)) : Prop :=
  ∀ i e x, p = (0, some (i, e)) → calls[i]? = some (.emit x e) →
    ∀ k, 0 < k → k ≤ slots (calls.take i) → k ∈ before.map Prod.fst ∨
      ∃ m ≤ k, window (calls.take i) = some (x, m) ∧ Waiting (calls.take i) m

/-- An emitted event stands behind the earlier events of its emitter, barge-ins apart. -/
def InTurn (calls : List (Call ι ε)) (before : List (Place (Stamp ε)))
    (p : Place (Stamp ε)) : Prop :=
  ∀ i e x, p = (0, some (i, e)) → calls[i]? = some (.emit x e) → ¬ NamesSlot calls x →
    ∀ j f, j < i → calls[j]? = some (.emit x f) → (0, some (j, f)) ∈ before

def Kept (calls : List (Call ι ε)) (before : List (Place (Stamp ε)))
    (p : Place (Stamp ε)) : Prop := Behind calls before p ∧ InTurn calls before p

section Kept

variable {calls : List (Call ι ε)} {line before after : List (Place (Stamp ε))}

theorem kept_slot {k : Nat} (hk : k ≠ 0) (v : Option (Stamp ε)) : Kept calls before (k, v) := by
  constructor
  all_goals
    intro i e x hp
    exact absurd (congrArg Prod.fst hp) hk

theorem Kept.mono {p : Place (Stamp ε)} (h : Kept calls before p)
    (hslot : ∀ k ∈ before.map Prod.fst, k ∈ after.map Prod.fst)
    (hevent : ∀ d, (0, some d) ∈ before → (0, some d) ∈ after) : Kept calls after p := by
  constructor
  · intro i e x hp hi k hk hks
    exact (h.1 i e x hp hi k hk hks).imp_left (hslot k)
  · intro i e x hp hi hx j f hj hf
    exact hevent _ (h.2 i e x hp hi hx j f hj hf)

theorem Kept.grow {p : Place (Stamp ε)} (h : Kept calls before p) (hline : Line calls line)
    (hp : p ∈ line) (c : Call ι ε) : Kept (calls ++ [c]) before p := by
  have hold : ∀ i e, p = (0, some (i, e)) → i < calls.length := by
    intro i e heq
    obtain ⟨x, hx⟩ := hline.ordinary i e (heq ▸ hp)
    exact (List.getElem?_eq_some_iff.mp hx).1
  constructor
  · intro i e x heq hi
    have hlt := hold i e heq
    rw [List.take_append_of_le_length (Nat.le_of_lt hlt)]
    rw [List.getElem?_append_left hlt] at hi
    exact h.1 i e x heq hi
  · intro i e x heq hi hx j f hj hf
    have hlt := hold i e heq
    rw [List.getElem?_append_left hlt] at hi
    rw [List.getElem?_append_left (Nat.lt_trans hj hlt)] at hf
    refine h.2 i e x heq hi (fun hn => hx ?_) j f hj hf
    obtain ⟨k, hk⟩ := hn
    exact ⟨k, List.mem_append_left _ hk⟩

theorem grow_line (h : EachAfter (Kept calls) line) (hline : Line calls line) (c : Call ι ε) :
    EachAfter (Kept (calls ++ [c])) line :=
  h.mono fun _ _ hp hkept => hkept.grow hline hp c

theorem namesSlot_of_window {x : ι} {k : Nat} (h : window calls = some (x, k)) :
    NamesSlot calls x := by
  induction calls using List.reverseRecOn with
  | nil => cases h
  | append_singleton calls c ih =>
    rw [window_snoc] at h
    have hold : window calls = some (x, k) → NamesSlot (calls ++ [c]) x := fun hw => by
      obtain ⟨m, hm⟩ := ih hw
      exact ⟨m, List.mem_append_left _ hm⟩
    cases c with
    | setBeforeSlot y slot =>
      rw [windowStep, Option.map_eq_some_iff] at h
      obtain ⟨m, rfl, heq⟩ := h
      rw [Prod.mk.injEq] at heq
      obtain ⟨rfl, rfl⟩ := heq
      exact ⟨m, by simp⟩
    | emit | reserveSlot | fillSlot => exact hold h

theorem kept_before {x : ι} {e : ε} {k : Nat} {v : Option (Stamp ε)}
    (hline : Line calls (before ++ (k, v) :: after)) (hw : window calls = some (x, k))
    (hwait : Waiting calls k) :
    Kept (calls ++ [.emit x e]) before (0, some (calls.length, e)) := by
  constructor
  · intro i f y hp hi m hm hms
    obtain ⟨-, rfl, rfl⟩ := hp
    rw [List.take_left] at hms ⊢
    rw [List.getElem?_concat_length, Option.some.injEq, Call.emit.injEq] at hi
    rw [← hi.1]
    by_cases hlt : m < k
    · exact Or.inl (hline.mem_before rfl hm hlt hms)
    · exact Or.inr ⟨k, Nat.le_of_not_lt hlt, hw, hwait⟩
  · intro i f y hp hi hy
    obtain ⟨-, rfl, rfl⟩ := hp
    rw [List.getElem?_concat_length, Option.some.injEq, Call.emit.injEq] at hi
    obtain ⟨m, hm⟩ := namesSlot_of_window hw
    exact absurd ⟨m, hi.1 ▸ List.mem_append_left _ hm⟩ hy

theorem kept_last (hline : Line calls line) (x : ι) (e : ε) :
    Kept (calls ++ [.emit x e]) line (0, some (calls.length, e)) := by
  constructor
  · intro i f y hp hi m hm hms
    obtain ⟨-, rfl, rfl⟩ := hp
    rw [List.take_left] at hms
    exact Or.inl ((hline.mem_slots hm).mpr hms)
  · intro i f y hp hi hy j g hj hg
    obtain ⟨-, rfl, rfl⟩ := hp
    rw [List.getElem?_append_left hj] at hg
    exact hline.mem_of_emit hg

end Kept

/-! ## One call -/

structure Tracked (calls : List (Call ι ε)) (sent : List (Stamp ε))
    (s : Nat × EmitOrder (Stamp ε)) : Prop where
  ran : run stampedStep (0, .new) calls = some (s, sent)
  now : s.1 = calls.length
  next : s.2.nextSlot = slots calls
  named : s.2.beforeSlot = (window calls).map Prod.snd
  blocked : Blocked s.2.queue
  line : ∃ done : List (Nat × Stamp ε), sent = done.map Prod.snd ∧
    Line calls (done.map sentPlace ++ s.2.queue) ∧
    (BargesAlone calls → EachAfter (Kept calls) (done.map sentPlace ++ s.2.queue))

section Steps

variable {calls : List (Call ι ε)} {sent out : List (Stamp ε)} {s t : Nat × EmitOrder (Stamp ε)}

theorem stampedStep_eq_some {c : Call ι ε} (h : stampedStep s c = some (t, out)) :
    EmitOrder.step s.2 (c.map fun e => (s.1, e)) = some (t.2, out) ∧ t.1 = s.1 + 1 := by
  rw [stampedStep, Option.map_eq_some_iff] at h
  obtain ⟨p, hp, heq⟩ := h
  obtain ⟨rfl, rfl⟩ := heq
  exact ⟨hp, rfl⟩

theorem Tracked.waiting (hT : Tracked calls sent s) {k : Nat} {v : Option (Stamp ε)}
    (hk : (k, v) ∈ s.2.queue) : Waiting calls k := by
  have hrun := run_erase calls (0, .new)
  rw [hT.ran] at hrun
  refine ⟨_, _, hrun, ?_⟩
  rw [EmitOrder.map, List.map_map]
  exact List.mem_map.mpr ⟨(k, v), hk, rfl⟩

theorem deliver_line (done : List (Nat × Stamp ε)) (queue : List (Place (Stamp ε))) :
    ∃ done' : List (Nat × Stamp ε),
      done.map Prod.snd ++ (deliverReady queue).2 = done'.map Prod.snd ∧
      done'.map sentPlace ++ (deliverReady queue).1 = done.map sentPlace ++ queue ∧
      Blocked (deliverReady queue).1 := by
  obtain ⟨ready, hqueue, hsent, hblocked⟩ := deliverReady_split queue
  refine ⟨done ++ ready, ?_, ?_, hblocked⟩
  · rw [hsent, List.map_append]
  · rw [List.map_append, List.append_assoc, ← hqueue]

theorem Tracked.emit_line (hT : Tracked calls sent s) {done : List (Nat × Stamp ε)}
    (hline : Line calls (done.map sentPlace ++ s.2.queue))
    (hkept : BargesAlone calls → EachAfter (Kept calls) (done.map sentPlace ++ s.2.queue))
    (x : ι) (e : ε) :
    Line (calls ++ [.emit x e]) (done.map sentPlace ++ s.2.place (calls.length, e)) ∧
      (BargesAlone (calls ++ [.emit x e]) → EachAfter (Kept (calls ++ [.emit x e]))
        (done.map sentPlace ++ s.2.place (calls.length, e))) := by
  rcases s.2.place_cases (calls.length, e) with
    ⟨k, before, v, after, hnamed, hqueue, hplace⟩ | ⟨-, hplace⟩
  · rw [hqueue, ← List.append_assoc] at hline hkept
    rw [hplace, ← List.append_assoc]
    refine ⟨hline.emit x e, fun halone => ?_⟩
    obtain ⟨hold, hlast⟩ := EachAfter.append_iff.mp halone
    rw [EachAfter.cons_iff, List.append_nil] at hlast
    rw [hT.named, Option.map_eq_some_iff] at hnamed
    obtain ⟨⟨y, m⟩, hw, hm⟩ := hnamed
    subst hm
    have hwait : Waiting calls m := hT.waiting (v := v) (by rw [hqueue]; simp)
    have hyx : y = x := hlast.1 x e rfl y m hw hwait
    subst hyx
    refine (grow_line (hkept hold) hline _).insert (kept_before hline hw hwait) ?_
    intro mid p _ hp
    refine hp.mono (fun k hk => ?_) (fun d hd => ?_)
    · simp only [List.map_append, List.mem_append, List.map_cons, List.mem_cons] at hk ⊢
      exact hk.imp_right Or.inr
    · simp only [List.mem_append, List.mem_cons] at hd ⊢
      exact hd.imp_right Or.inr
  · rw [hplace, ← List.append_assoc]
    refine ⟨?_, fun halone => ?_⟩
    · have hline' := hline
      rw [← List.append_nil (done.map sentPlace ++ s.2.queue)] at hline'
      exact hline'.emit x e
    · obtain ⟨hold, -⟩ := EachAfter.append_iff.mp halone
      exact (grow_line (hkept hold) hline _).snoc (kept_last hline x e)

theorem fill_line {done : List (Nat × Stamp ε)} {o : EmitOrder (Stamp ε)} {k : Nat} (e : ε)
    (hopen : (k, none) ∈ o.queue) (hline : Line calls (done.map sentPlace ++ o.queue))
    (hkept : BargesAlone calls → EachAfter (Kept calls) (done.map sentPlace ++ o.queue)) :
    Line (calls ++ [.fillSlot k e])
        (done.map sentPlace ++ fillFirst k (calls.length, e) o.queue) ∧
      (BargesAlone (calls ++ [.fillSlot k e]) → EachAfter (Kept (calls ++ [.fillSlot k e]))
        (done.map sentPlace ++ fillFirst k (calls.length, e) o.queue)) := by
  have hmem : (k, none) ∈ done.map sentPlace ++ o.queue := List.mem_append_right _ hopen
  have hk : k ≠ 0 := by
    rintro rfl
    exact hline.sent none hmem rfl
  obtain ⟨before, v, after, hqueue, -, hfill⟩ :=
    @fillFirst_eq _ k (calls.length, e) o.queue (List.mem_map.mpr ⟨_, hopen, rfl⟩)
  rw [hqueue, ← List.append_assoc] at hline hkept hmem
  have hv : none = v := hline.slot_unique rfl hk hmem
  subst hv
  rw [hfill, ← List.append_assoc]
  refine ⟨hline.fill hk e, fun halone => ?_⟩
  obtain ⟨hold, -⟩ := EachAfter.append_iff.mp halone
  refine (grow_line (hkept hold) hline _).replace (kept_slot hk _) ?_
  intro mid p _ hp
  refine hp.mono (fun m hm => ?_) (fun d hd => ?_)
  · simpa only [List.map_append, List.map_cons] using hm
  · simp only [List.mem_append, List.mem_cons, Prod.mk.injEq] at hd ⊢
    rcases hd with hd | hd | hd
    · exact Or.inl hd
    · exact absurd hd.1.symm hk
    · exact Or.inr (Or.inr hd)

theorem Tracked.step (hT : Tracked calls sent s) {c : Call ι ε}
    (h : stampedStep s c = some (t, out)) : Tracked (calls ++ [c]) (sent ++ out) t := by
  obtain ⟨done, hsent, hline, hkept⟩ := hT.line
  have hran : run stampedStep (0, .new) (calls ++ [c]) = some (t, sent ++ out) :=
    run_append_eq_some.mpr ⟨s, sent, out, hT.ran, run_singleton.mpr h, rfl⟩
  obtain ⟨hstep, hnow⟩ := stampedStep_eq_some h
  have hnow' : t.1 = (calls ++ [c]).length := by
    rw [hnow, hT.now, List.length_append, List.length_singleton]
  cases c with
  | emit x e =>
    rw [Call.map, EmitOrder.step, EmitOrder.emit_eq hT.blocked, hT.now, Option.some.injEq,
      EmitOrder.deliver, Prod.mk.injEq] at hstep
    obtain ⟨ho, hout⟩ := hstep
    obtain ⟨hline', hkept'⟩ := hT.emit_line hline hkept x e
    obtain ⟨done', hsent', hsame, hblocked⟩ := deliver_line done (s.2.place (calls.length, e))
    rw [← hsame] at hline' hkept'
    refine ⟨hran, hnow', ?_, ?_, ?_, done', ?_, ?_⟩
    · rw [← ho, slots_snoc]
      exact hT.next
    · rw [← ho, window_snoc]
      exact hT.named
    · rw [← ho]
      exact hblocked
    · rw [← hout, hsent, hsent']
    · rw [← ho]
      exact ⟨hline', hkept'⟩
  | reserveSlot =>
    rw [Call.map, EmitOrder.step, Option.some.injEq, Prod.mk.injEq] at hstep
    obtain ⟨ho, hout⟩ := hstep
    have hqueue : t.2.queue = s.2.queue ++ [(slots calls + 1, none)] := by
      rw [← ho, EmitOrder.reserveSlot, hT.next]
    refine ⟨hran, hnow', ?_, ?_, ?_, done, ?_, ?_, ?_⟩
    · rw [← ho, slots_snoc, EmitOrder.reserveSlot, hT.next]
      rfl
    · rw [← ho, window_snoc]
      exact hT.named
    · rw [hqueue]
      by_cases hnil : s.2.queue = []
      · rw [hnil]
        intro p hp
        rw [List.nil_append, List.head?_cons, Option.mem_def, Option.some.injEq] at hp
        rw [← hp]
      · exact hT.blocked.append hnil _
    · rw [← hout, List.append_nil]
      exact hsent
    · rw [hqueue, ← List.append_assoc]
      exact hline.reserve
    · intro halone
      obtain ⟨hold, -⟩ := EachAfter.append_iff.mp halone
      rw [hqueue, ← List.append_assoc]
      exact (grow_line (hkept hold) hline _).snoc (kept_slot (Nat.succ_ne_zero _) none)
  | fillSlot k e =>
    rw [Call.map, EmitOrder.step] at hstep
    by_cases hopen : s.2.isOpen k
    · rw [if_pos hopen, Option.some.injEq, EmitOrder.fillSlot, EmitOrder.deliver, hT.now,
        Prod.mk.injEq] at hstep
      obtain ⟨ho, hout⟩ := hstep
      obtain ⟨hline', hkept'⟩ := fill_line e (EmitOrder.mem_queue_of_isOpen hopen) hline hkept
      obtain ⟨done', hsent', hsame, hblocked⟩ :=
        deliver_line done (fillFirst k (calls.length, e) s.2.queue)
      rw [← hsame] at hline' hkept'
      refine ⟨hran, hnow', ?_, ?_, ?_, done', ?_, ?_⟩
      · rw [← ho, slots_snoc]
        exact hT.next
      · rw [← ho, window_snoc]
        exact hT.named
      · rw [← ho]
        exact hblocked
      · rw [← hout, hsent, hsent']
      · rw [← ho]
        exact ⟨hline', hkept'⟩
    · rw [if_neg hopen] at hstep
      cases hstep
  | setBeforeSlot x slot =>
    rw [Call.map, EmitOrder.step] at hstep
    split_ifs at hstep
    rw [Option.some.injEq, Prod.mk.injEq] at hstep
    obtain ⟨ho, hout⟩ := hstep
    refine ⟨hran, hnow', ?_, ?_, ?_, done, ?_, ?_, ?_⟩
    · rw [← ho, slots_snoc]
      exact hT.next
    · rw [← ho, window_snoc]
      cases slot with
      | none | some => rfl
    · rw [← ho]
      exact hT.blocked
    · rw [← hout, List.append_nil]
      exact hsent
    · rw [← ho]
      exact hline.quiet rfl rfl
    · intro halone
      obtain ⟨hold, -⟩ := EachAfter.append_iff.mp halone
      rw [← ho]
      exact grow_line (hkept hold) hline _

end Steps

/-! ## Runs -/

theorem Tracked.new : Tracked ([] : List (Call ι ε)) [] (0, .new) := by
  refine ⟨rfl, rfl, rfl, rfl, ?_, [], rfl, ?_, fun _ => EachAfter.nil⟩
  · intro p hp
    cases hp
  · refine ⟨rfl, List.Perm.refl _, ?_, ?_, ?_⟩
    · intro i e hi
      cases hi
    · intro k i e hk hi
      cases hi
    · intro v hv
      cases hv

theorem tracked_of_run {calls : List (Call ι ε)} {sent : List (Stamp ε)}
    {s : Nat × EmitOrder (Stamp ε)} (h : run stampedStep (0, .new) calls = some (s, sent)) :
    Tracked calls sent s :=
  run_history (C := fun _ _ => True) (fun _ _ _ _ _ _ hT _ hstep => hT.step hstep) Tracked.new
    (along_of_forall_mem (P := fun _ => True) (fun _ _ => trivial) _) h

/-- The events of every emitter that is not a held barge-in are sent in the order it emitted
them. -/
def KeepsOrder (calls : List (Call ι ε)) : Prop :=
  EachAfter (fun before d => ∀ x, calls[d.1]? = some (.emit x d.2) → ¬ NamesSlot calls x →
    ∀ j f, j < d.1 → calls[j]? = some (.emit x f) → (j, f) ∈ before) (delivered calls)

/-- No event emitted after a slot was reserved is sent before the event of that slot, the
events of the barge-in that named the slot apart. -/
def StaysBehind (calls : List (Call ι ε)) : Prop :=
  EachAfter (fun before d => ∀ x, calls[d.1]? = some (.emit x d.2) →
    ∀ k, 0 < k → k ≤ slots (calls.take d.1) → window (calls.take d.1) ≠ some (x, k) →
      ∃ j f, (j, f) ∈ before ∧ calls[j]? = some (.fillSlot k f)) (delivered calls)

section Run

variable {calls : List (Call ι ε)} {sent : List (Stamp ε)} {s : Nat × EmitOrder (Stamp ε)}

theorem Tracked.delivered_eq (hT : Tracked calls sent s) : delivered calls = sent := by
  rw [delivered, hT.ran, Option.map_some, Option.getD_some]

theorem Tracked.perm (hT : Tracked calls sent s) (hopen : ∀ k, s.2.isOpen k = false) :
    sent.Perm (produced calls) := by
  obtain ⟨done, hsent, hline, -⟩ := hT.line
  have hempty : s.2.queue = [] := by
    cases hq : s.2.queue with
    | nil => rfl
    | cons p queue =>
      have hp : p.2 = none := hT.blocked p (by rw [hq]; rfl)
      have hisOpen : s.2.isOpen p.1 = true := by
        rw [EmitOrder.isOpen, hq, List.any_cons, hp]
        simp
      rw [hopen p.1] at hisOpen
      cases hisOpen
  have hevents : events (done.map sentPlace) = done.map Prod.snd := by
    rw [events, List.filterMap_map]
    exact congrFun (List.filterMap_eq_map (f := Prod.snd)) done
  have hperm := hline.perm
  rw [hempty, List.append_nil, hevents] at hperm
  rw [hsent]
  exact hperm

theorem sent_place {done : List (Nat × Stamp ε)} {rest : List (Place (Stamp ε))}
    (hline : Line calls (done.map sentPlace ++ rest)) {before after : List (Stamp ε)}
    {d : Stamp ε} (heq : done.map Prod.snd = before ++ d :: after) {x : ι}
    (hd : calls[d.1]? = some (.emit x d.2)) :
    ∃ front back : List (Nat × Stamp ε), front.map Prod.snd = before ∧
      done = front ++ (0, d) :: back := by
  obtain ⟨front, tail, rfl, hfront, htail⟩ := List.map_eq_append_iff.mp heq
  obtain ⟨p, back, rfl, hp, -⟩ := List.map_eq_cons_iff.mp htail
  obtain ⟨k, d'⟩ := p
  subst hp
  refine ⟨front, back, hfront, ?_⟩
  by_cases hk : k = 0
  · rw [hk]
  · have hfill := hline.filled k d'.1 d'.2 hk (by simp [sentPlace])
    rw [hd] at hfill
    cases hfill

theorem Tracked.keepsOrder (hT : Tracked calls sent s) (halone : BargesAlone calls) :
    KeepsOrder calls := by
  obtain ⟨done, hsent, hline, hkept⟩ := hT.line
  intro before d after heq x hd hx j f hj hf
  rw [hT.delivered_eq, hsent] at heq
  obtain ⟨front, back, rfl, rfl⟩ := sent_place hline heq hd
  have hplace := (EachAfter.append_iff.mp (hkept halone)).1 (front.map sentPlace) (0, some d) (back.map sentPlace)
    (by rw [List.map_append]; rfl)
  obtain ⟨q, hq, hqd⟩ := List.mem_map.mp (hplace.2 d.1 d.2 x rfl hd hx j f hj hf)
  rw [sentPlace, Prod.mk.injEq, Option.some.injEq] at hqd
  exact List.mem_map.mpr ⟨q, hq, hqd.2⟩

theorem Tracked.staysBehind (hT : Tracked calls sent s) (halone : BargesAlone calls)
    (hlast : BargesLast calls) : StaysBehind calls := by
  obtain ⟨done, hsent, hline, hkept⟩ := hT.line
  intro before d after heq x hd k hk hks hw
  rw [hT.delivered_eq, hsent] at heq
  obtain ⟨front, back, rfl, rfl⟩ := sent_place hline heq hd
  have hplace := (EachAfter.append_iff.mp (hkept halone)).1 (front.map sentPlace) (0, some d) (back.map sentPlace)
    (by rw [List.map_append]; rfl)
  rcases hplace.1 d.1 d.2 x rfl hd k hk hks with hfront | ⟨m, hmk, hwm, hwait⟩
  · rw [List.map_map] at hfront
    obtain ⟨q, hq, hqk⟩ := List.mem_map.mp hfront
    obtain ⟨k', j, f⟩ := q
    have hk' : k' = k := hqk
    subst hk'
    refine ⟨j, f, List.mem_map.mpr ⟨_, hq, rfl⟩, hline.filled k' j f (Nat.ne_of_gt hk) ?_⟩
    rw [List.map_append]
    exact List.mem_append_left _ (List.mem_append_left _ (List.mem_map.mpr ⟨_, hq, rfl⟩))
  · obtain ⟨hlt, hget⟩ := List.getElem?_eq_some_iff.mp hd
    have hsplit : calls = calls.take d.1 ++ .emit x d.2 :: calls.drop (d.1 + 1) := by
      rw [← hget, ← List.drop_eq_getElem_cons hlt, List.take_append_drop]
    have hm : m = slots (calls.take d.1) := hlast _ _ _ hsplit x d.2 rfl x m hwm hwait
    have hkm : m = k := Nat.le_antisymm hmk (hm ▸ hks)
    exact absurd (hkm ▸ hwm) hw

end Run

/-- The order of events on the bus. In every run with no slot open every produced event was
sent exactly once. Where only the barge-in that named a slot emits while the slot is named,
every other emitter keeps its order; and where moreover no younger slot is reserved then, no
event passes a slot that was reserved before it, but for the barge-in of that very slot. -/
theorem event_bus_order {calls : List (Call ι ε)} {o : EmitOrder ε} {sent : List ε}
    (hr : run EmitOrder.step .new calls = some (o, sent)) :
    sent = (delivered calls).map Prod.snd ∧
    ((∀ k, o.isOpen k = false) → (delivered calls).Perm (produced calls)) ∧
    (BargesAlone calls → KeepsOrder calls) ∧
    (BargesAlone calls → BargesLast calls → StaysBehind calls) := by
  have herase := run_erase calls (0, .new)
  have hnew : (EmitOrder.new : EmitOrder (Stamp ε)).map Prod.snd = .new := rfl
  rw [hnew, hr] at herase
  obtain ⟨⟨s, stamped⟩, hrun, heq⟩ := Option.map_eq_some_iff.mp herase.symm
  obtain ⟨rfl, rfl⟩ := heq
  have hT := tracked_of_run hrun
  refine ⟨by rw [hT.delivered_eq], fun hopen => ?_, hT.keepsOrder, hT.staysBehind⟩
  rw [hT.delivered_eq]
  refine hT.perm fun k => ?_
  rw [← hopen k, EmitOrder.isOpen_map]

/-- A caller's final waits for its verdict while the drain ends a reply; its held barge-in
goes before the final. -/
def bargeBeforeFinal : List (Call String String) :=
  [.reserveSlot, .emit "drain" "agent_reply_end"] ++
    settlePendingBarge "barge" (dropReason true true 4 4 false) (some 1)
      ["barge_in", "agent_speaking_end"] ++
    [.fillSlot 1 "user_speech_final"]

theorem event_bus_order_bargeBeforeFinal :
    (delivered bargeBeforeFinal).map Prod.snd =
        ["barge_in", "agent_speaking_end", "user_speech_final", "agent_reply_end"] ∧
      KeepsOrder bargeBeforeFinal ∧ StaysBehind bargeBeforeFinal := by
  have halone : BargesAlone bargeBeforeFinal := by
    simp [BargesAlone, bargeBeforeFinal, settlePendingBarge, dropReason, EachAfter.cons_iff, EachAfter.nil,
      window, windowStep]
  have hlast : BargesLast bargeBeforeFinal := by
    simp [BargesLast, bargeBeforeFinal, settlePendingBarge, dropReason, EachAfter.cons_iff, EachAfter.nil,
      window, windowStep, slots, List.countP_cons, Call.isReserve]
  obtain ⟨hsent, -, horder, hbehind⟩ := @event_bus_order _ _ bargeBeforeFinal _ _ rfl
  exact ⟨hsent.symm, horder halone, hbehind halone hlast⟩

/-- The drain emits a second event while the barge-in has its slot named. -/
def drainDuringBarge : List (Call String String) :=
  [.reserveSlot, .emit "drain" "agent_reply_end", .setBeforeSlot "barge" (some 1),
    .emit "drain" "agent_speaking_end", .emit "barge" "barge_in", .setBeforeSlot "barge" none,
    .fillSlot 1 "user_speech_final"]

/-- The drain's second event passes its first one and the final that was reserved before both. -/
theorem drain_passes_final :
    run EmitOrder.step .new drainDuringBarge = some (⟨1, [], none⟩,
        ["agent_speaking_end", "barge_in", "user_speech_final", "agent_reply_end"]) ∧
      ¬ KeepsOrder drainDuringBarge ∧ ¬ StaysBehind drainDuringBarge := by
  refine ⟨rfl, fun horder => ?_, fun hbehind => ?_⟩
  · have hmem := horder [] (3, "agent_speaking_end") _ rfl "drain" rfl ?_ 1 "agent_reply_end"
      (by decide) rfl
    · exact absurd hmem List.not_mem_nil
    · intro hn
      obtain ⟨k, hk⟩ := hn
      simp [drainDuringBarge] at hk
  · obtain ⟨j, f, hmem, -⟩ := hbehind [] (3, "agent_speaking_end") _ rfl "drain" rfl 1
      (by decide) (by decide) (by decide)
    exact absurd hmem List.not_mem_nil

end NodeWebrtc.EventBus
