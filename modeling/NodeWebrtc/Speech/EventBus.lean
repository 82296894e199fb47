import Mathlib.Data.List.Basic
import NodeWebrtc.Lib.Machine
import NodeWebrtc.Lib.Trace

/-! # The speech event bus

Emission order while finals wait for their speaker verdict. A final whose verdict is
pending reserves a slot, and events emitted after it queue behind the slot until it is
filled. Every method holds the order lock from its start to its end, so an interleaving
of emitters is a list of calls. Events are of any type.
-/

namespace NodeWebrtc.EventBus

universe u v

/-- An entry of the queue: an ordinary event has slot 0, and a reserved slot is `none` until
its final is filled in. -/
abbrev Place (ε : Type u) := Nat × Option ε

structure EmitOrder (ε : Type u) where
  nextSlot : Nat
  queue : List (Place ε)
  beforeSlot : Option Nat

/-- Sends what is at the front of the queue up to the first open slot: the queue that stays
and the events sent. -/
def deliverReady {ε : Type u} : List (Place ε) → List (Place ε) × List ε
  | [] => ([], [])
  | (slot, none) :: queue => ((slot, none) :: queue, [])
  | (_, some event) :: queue => ((deliverReady queue).1, event :: (deliverReady queue).2)

/-- Inserts an ordinary event before the first entry of `slot`, if there is one. -/
def insertBefore {ε : Type u} (slot : Nat) (event : ε) : List (Place ε) → Option (List (Place ε))
  | [] => none
  | p :: queue =>
    if p.1 = slot then some ((0, some event) :: p :: queue)
    else (insertBefore slot event queue).map fun rest => p :: rest

/-- Writes the event of the first entry of `slot`. -/
def fillFirst {ε : Type u} (slot : Nat) (event : ε) : List (Place ε) → List (Place ε)
  | [] => []
  | p :: queue => if p.1 = slot then (p.1, some event) :: queue else p :: fillFirst slot event queue

/-- A call on the bus; `emitter` names the caller. -/
inductive Call (ι : Type v) (ε : Type u) where
  | emit (emitter : ι) (event : ε)
  | reserveSlot
  | fillSlot (slot : Nat) (event : ε)
  | setBeforeSlot (emitter : ι) (slot : Option Nat)

namespace EmitOrder

variable {ε : Type u} {ι : Type v}

def new : EmitOrder ε := ⟨0, [], none⟩

/-- Keeps what is not ready of a queue and sends the rest. -/
def deliver (o : EmitOrder ε) (queue : List (Place ε)) : EmitOrder ε × List ε :=
  ({ o with queue := (deliverReady queue).1 }, (deliverReady queue).2)

def emit (o : EmitOrder ε) (event : ε) : EmitOrder ε × List ε :=
  match o.beforeSlot.bind fun slot => insertBefore slot event o.queue with
  | some queue => o.deliver queue
  | none =>
    if o.queue.isEmpty then (o, [event])
    else ({ o with queue := o.queue ++ [(0, some event)] }, [])

def reserveSlot (o : EmitOrder ε) : EmitOrder ε :=
  { o with nextSlot := o.nextSlot + 1, queue := o.queue ++ [(o.nextSlot + 1, none)] }

def fillSlot (o : EmitOrder ε) (slot : Nat) (event : ε) : EmitOrder ε × List ε :=
  o.deliver (fillFirst slot event o.queue)

/-- The slot is reserved and not filled yet. -/
def isOpen (o : EmitOrder ε) (slot : Nat) : Bool :=
  o.queue.any fun p => p.1 = slot && p.2.isNone

/-- One call. The final that reserved a slot fills it once, and a barge-in names the slot of
its own final. -/
def step : Machine.Step (EmitOrder ε) (Call ι ε) ε
  | o, .emit _ event => some (o.emit event)
  | o, .reserveSlot => some (o.reserveSlot, [])
  | o, .fillSlot slot event => if o.isOpen slot then some (o.fillSlot slot event) else none
  | o, .setBeforeSlot _ slot =>
    if slot.all fun k => 0 < k && k ≤ o.nextSlot then
      some ({ o with beforeSlot := slot }, [])
    else none

end EmitOrder

/-- Why a held barge-in is dropped instead of fired. -/
def dropReason (allow speaking : Bool) (current epoch : Nat) (protectedTts : Bool) :
    Option String :=
  if !allow then some "outcome"
  else if !speaking then some "idle"
  else if current ≠ epoch then some "epoch changed"
  else if protectedTts then some "protected"
  else none

/-- The calls of a settled barge-in. One that fires emits its events while the slot of its own
final, if it has one, is named. -/
def settlePendingBarge {ι : Type v} {ε : Type u} (emitter : ι) (dropped : Option String)
    (slot : Option Nat) (events : List ε) : List (Call ι ε) :=
  match dropped with
  | some _ => []
  | none =>
    .setBeforeSlot emitter slot :: (events.map (.emit emitter) ++ [.setBeforeSlot emitter none])

/-! ## The line

Everything sent so far and the queue behind it form one line of places. A call only adds a
place or fills one, and what has been sent is the part of the line before the first open
slot.
-/

section Line

variable {ε : Type u}

def sentPlace (d : Nat × ε) : Place ε := (d.1, some d.2)

def Blocked (queue : List (Place ε)) : Prop := ∀ p ∈ queue.head?, p.2 = none

theorem deliverReady_split (line : List (Place ε)) :
    ∃ done : List (Nat × ε), line = done.map sentPlace ++ (deliverReady line).1 ∧
      (deliverReady line).2 = done.map Prod.snd ∧ Blocked (deliverReady line).1 := by
  induction line with
  | nil => exact ⟨[], rfl, rfl, fun p hp => by simp [deliverReady] at hp⟩
  | cons p queue ih =>
    obtain ⟨slot, v⟩ := p
    cases v with
    | none =>
      refine ⟨[], rfl, rfl, fun p hp => ?_⟩
      rw [deliverReady, List.head?_cons, Option.mem_def, Option.some.injEq] at hp
      rw [← hp]
    | some event =>
      obtain ⟨done, hline, hsent, hblocked⟩ := ih
      refine ⟨(slot, event) :: done, ?_, ?_, hblocked⟩
      · rw [List.map_cons, List.cons_append, deliverReady, ← hline]
        rfl
      · rw [deliverReady, hsent]
        rfl

theorem deliverReady_of_blocked {queue : List (Place ε)} (h : Blocked queue) :
    deliverReady queue = (queue, []) := by
  cases queue with
  | nil => rfl
  | cons p queue =>
    obtain ⟨slot, v⟩ := p
    have hv : v = none := h (slot, v) rfl
    rw [hv]
    rfl

theorem Blocked.append {queue : List (Place ε)} (h : Blocked queue) (hne : queue ≠ [])
    (rest : List (Place ε)) : Blocked (queue ++ rest) := by
  cases queue with
  | nil => exact absurd rfl hne
  | cons p queue => exact h

theorem insertBefore_eq_some {slot : Nat} {event : ε} {queue queue' : List (Place ε)}
    (h : insertBefore slot event queue = some queue') :
    ∃ before v after, queue = before ++ (slot, v) :: after ∧
      queue' = before ++ (0, some event) :: (slot, v) :: after := by
  induction queue generalizing queue' with
  | nil => cases h
  | cons p queue ih =>
    rw [insertBefore] at h
    by_cases hp : p.1 = slot
    · rw [if_pos hp, Option.some.injEq] at h
      exact ⟨[], p.2, queue, by rw [← hp]; rfl, by rw [← hp, ← h]; rfl⟩
    · rw [if_neg hp, Option.map_eq_some_iff] at h
      obtain ⟨rest, hrest, rfl⟩ := h
      obtain ⟨before, v, after, rfl, rfl⟩ := ih hrest
      exact ⟨p :: before, v, after, rfl, rfl⟩

theorem insertBefore_eq_none {slot : Nat} {event : ε} {queue : List (Place ε)}
    (h : insertBefore slot event queue = none) : slot ∉ queue.map Prod.fst := by
  induction queue with
  | nil => exact List.not_mem_nil
  | cons p queue ih =>
    rw [insertBefore] at h
    by_cases hp : p.1 = slot
    · rw [if_pos hp] at h
      cases h
    · rw [if_neg hp, Option.map_eq_none_iff] at h
      rw [List.map_cons, List.mem_cons, not_or]
      exact ⟨Ne.symm hp, ih h⟩

theorem fillFirst_eq {slot : Nat} {event : ε} {queue : List (Place ε)}
    (h : slot ∈ queue.map Prod.fst) :
    ∃ before v after, queue = before ++ (slot, v) :: after ∧ slot ∉ before.map Prod.fst ∧
      fillFirst slot event queue = before ++ (slot, some event) :: after := by
  induction queue with
  | nil => cases h
  | cons p queue ih =>
    rw [fillFirst]
    by_cases hp : p.1 = slot
    · rw [if_pos hp, hp]
      exact ⟨[], p.2, queue, by rw [← hp]; rfl, List.not_mem_nil, rfl⟩
    · rw [List.map_cons, List.mem_cons] at h
      obtain ⟨before, v, after, rfl, hnot, hfill⟩ := ih (h.resolve_left (Ne.symm hp))
      rw [if_neg hp, hfill]
      refine ⟨p :: before, v, after, rfl, ?_, rfl⟩
      rw [List.map_cons, List.mem_cons, not_or]
      exact ⟨Ne.symm hp, hnot⟩

end Line

/-! ## Where an emitted event goes -/

section Place

variable {ε : Type u}

/-- The queue with the event at its place: before the named slot while that is queued, else
at the end. -/
def EmitOrder.place (o : EmitOrder ε) (event : ε) : List (Place ε) :=
  (o.beforeSlot.bind fun slot => insertBefore slot event o.queue).getD
    (o.queue ++ [(0, some event)])

theorem EmitOrder.emit_eq {o : EmitOrder ε} (h : Blocked o.queue) (event : ε) :
    o.emit event = o.deliver (o.place event) := by
  unfold emit place
  cases o.beforeSlot.bind fun slot => insertBefore slot event o.queue with
  | some queue => rfl
  | none =>
    rw [Option.getD_none]
    by_cases hempty : o.queue.isEmpty
    · have hnil : o.queue = [] := List.isEmpty_iff.mp hempty
      rw [if_pos hempty, deliver, hnil]
      obtain ⟨nextSlot, queue, beforeSlot⟩ := o
      subst hnil
      rfl
    · have hne : o.queue ≠ [] := fun hnil => hempty (List.isEmpty_iff.mpr hnil)
      rw [if_neg hempty, deliver, deliverReady_of_blocked (h.append hne _)]

theorem EmitOrder.place_cases (o : EmitOrder ε) (event : ε) :
    (∃ slot before v after, o.beforeSlot = some slot ∧ o.queue = before ++ (slot, v) :: after ∧
      o.place event = before ++ (0, some event) :: (slot, v) :: after) ∨
    ((∀ slot, o.beforeSlot = some slot → slot ∉ o.queue.map Prod.fst) ∧
      o.place event = o.queue ++ [(0, some event)]) := by
  unfold place
  cases hb : o.beforeSlot with
  | none =>
    refine Or.inr ⟨?_, rfl⟩
    intro slot hslot
    cases hslot
  | some slot =>
    rw [Option.bind_some]
    cases hins : insertBefore slot event o.queue with
    | some queue =>
      obtain ⟨before, v, after, hqueue, hqueue'⟩ := insertBefore_eq_some hins
      exact Or.inl ⟨slot, before, v, after, rfl, hqueue, hqueue'⟩
    | none =>
      refine Or.inr ⟨fun slot' hslot => ?_, rfl⟩
      rw [Option.some.injEq] at hslot
      exact hslot ▸ insertBefore_eq_none hins

theorem EmitOrder.mem_queue_of_isOpen {o : EmitOrder ε} {slot : Nat} (h : o.isOpen slot) :
    (slot, none) ∈ o.queue := by
  rw [isOpen, List.any_eq_true] at h
  obtain ⟨p, hp, hopen⟩ := h
  rw [Bool.and_eq_true, decide_eq_true_eq, Option.isNone_iff_eq_none] at hopen
  obtain ⟨rfl, hv⟩ := hopen
  rw [← hv]
  exact hp

end Place

end NodeWebrtc.EventBus
