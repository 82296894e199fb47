import NodeWebrtc.Lib.InsertMap
import NodeWebrtc.Lib.Machine

/-! # The single-flight map of the model pools

Values are loaded once for each key, under a lock of the key's own slot; the lock of the map is
held only to find or insert a slot. Every operation on a lock is a step. A slot is named by its
key, since the map never removes one.
-/

namespace NodeWebrtc.Sherpa

open Machine

structure Slot (V : Type) where
  holder : Option Nat
  value : Option V
deriving DecidableEq, Repr

namespace OnceMap

inductive Op (K : Type) where
  | getOrLoad (k : K)
  | getLoaded (k : K)
  | loadedCount
  | loadedValues
deriving DecidableEq, Repr

/-- Where a call is. Readers go through the slots `todo` with `try_lock`. -/
inductive Phase (K V : Type) where
  | wantMap
  | inMap
  | wantSlot (k : K)
  /-- The slot is locked and its value not looked at. -/
  | holding (k : K)
  | loading (k : K)
  | trying (todo : List K) (found : List V)
  | reading (k : K) (todo : List K) (found : List V)
  | done
deriving DecidableEq, Repr

structure Call (K V : Type) where
  op : Op K
  phase : Phase K V
deriving DecidableEq, Repr

/-- `returned` carries the result of `get_or_load`, with `created_now`. `read` carries what a reader
found: `get_loaded` returns its first value, `loaded_count` its length. -/
inductive Event (K V : Type) where
  | loadBegan (c : Nat) (k : K)
  | loadEnded (c : Nat) (k : K) (value : Option V)
  | returned (c : Nat) (k : K) (result : Option (V × Bool))
  | read (c : Nat) (found : List V)
deriving DecidableEq, Repr

inductive Input (K V : Type) where
  | call (op : Op K)
  /-- The next operation of call `c`; `order` is the order in which the map lists its slots. -/
  | go (c : Nat) (order : List K)
  | loadEnds (c : Nat) (value : Option V)
deriving DecidableEq, Repr

end OnceMap

structure OnceMap (K V : Type) where
  mapHolder : Option Nat
  slots : InsertMap K (Slot V)
  calls : List (OnceMap.Call K V)

namespace OnceMap

variable {K V : Type} [DecidableEq K]

def new : OnceMap K V := ⟨none, .empty, []⟩

def goto (m : OnceMap K V) (c : Nat) (call : Call K V) (phase : Phase K V) : OnceMap K V :=
  { m with calls := m.calls.set c { call with phase := phase } }

def setSlot (m : OnceMap K V) (k : K) (slot : Slot V) : OnceMap K V :=
  { m with slots := m.slots.set k slot }

def enter (m : OnceMap K V) (k : K) : OnceMap K V :=
  if (m.slots.get k).isSome then m else m.setSlot k ⟨none, none⟩

/-- The next operation of a call; a call that waits for a lock has none. -/
def advance (m : OnceMap K V) (c : Nat) (call : Call K V) (order : List K) :
    Option (OnceMap K V × List (Event K V)) :=
  match call.phase with
  | .wantMap =>
    if m.mapHolder = none then some ({ m with mapHolder := some c }.goto c call .inMap, [])
    else none
  | .inMap =>
    let m := { m with mapHolder := none }
    match call.op with
    | .getOrLoad k => some ((m.enter k).goto c call (.wantSlot k), [])
    | .getLoaded k =>
      some (m.goto c call (.trying (if (m.slots.get k).isSome then [k] else []) []), [])
    | .loadedCount | .loadedValues =>
      if order.Perm (m.slots.entries.map Prod.fst) then
        some (m.goto c call (.trying order []), [])
      else none
  | .wantSlot k => (m.slots.get k).bind fun slot =>
    if slot.holder = none then
      some ((m.setSlot k { slot with holder := some c }).goto c call (.holding k), [])
    else none
  | .holding k => (m.slots.get k).map fun slot =>
    match slot.value with
    | some v =>
      ((m.setSlot k { slot with holder := none }).goto c call .done,
        [.returned c k (some (v, false))])
    | none => (m.goto c call (.loading k), [.loadBegan c k])
  | .trying [] found => some (m.goto c call .done, [.read c found])
  | .trying (k :: todo) found => (m.slots.get k).map fun slot =>
    if slot.holder = none then
      ((m.setSlot k { slot with holder := some c }).goto c call (.reading k todo found), [])
    else (m.goto c call (.trying todo found), [])
  | .reading k todo found => (m.slots.get k).map fun slot =>
    ((m.setSlot k { slot with holder := none }).goto c call
      (.trying todo (found ++ slot.value.toList)), [])
  | .loading _ | .done => none

/-- The load of a call ends: its value is stored, the slot is free and the call returns. -/
def loadEnds (m : OnceMap K V) (c : Nat) (call : Call K V) (value : Option V) :
    Option (OnceMap K V × List (Event K V)) :=
  match call.phase with
  | .loading k => (m.slots.get k).map fun slot =>
    ((m.setSlot k ⟨none, value.or slot.value⟩).goto c call .done,
      [.loadEnded c k value, .returned c k (value.map fun v => (v, true))])
  | _ => none

def step (m : OnceMap K V) : Input K V → Option (OnceMap K V × List (Event K V))
  | .call op => some ({ m with calls := m.calls ++ [⟨op, .wantMap⟩] }, [])
  | .go c order => (m.calls[c]?).bind fun call => m.advance c call order
  | .loadEnds c value => (m.calls[c]?).bind fun call => m.loadEnds c call value

/-! ## Single flight -/

def phaseOf (m : OnceMap K V) (c : Nat) : Option (Phase K V) := (m.calls[c]?).map Call.phase

def valueOf (m : OnceMap K V) (k : K) : Option V := (m.slots.get k).bind Slot.value

/-- The loads of a key that succeeded, each with its caller. -/
def successes (k : K) (os : List (Event K V)) : List (Nat × V) :=
  os.filterMap fun
    | .loadEnded c j (some v) => if j = k then some (c, v) else none
    | _ => none

/-- The callers of a key that were told that they created its value. -/
def creators (k : K) (os : List (Event K V)) : List (Nat × V) :=
  os.filterMap fun
    | .returned c j (some (v, true)) => if j = k then some (c, v) else none
    | _ => none

def lockOf (m : OnceMap K V) (k : K) : Option Nat := (m.slots.get k).bind Slot.holder

def waitsFor (m : OnceMap K V) (c : Nat) : Option Nat :=
  match m.phaseOf c with
  | some .wantMap => m.mapHolder
  | some (.wantSlot k) => m.lockOf k
  | _ => none

/-- The loads of each key go one at a time and at most one succeeds; who created a value, and what
the callers of a key return. Where no load succeeded the next caller loads. Only a caller of a key
waits for its load, and a call that waits for no lock goes on. -/
structure SingleFlight (m : OnceMap K V) (os : List (Event K V)) : Prop where
  once : ∀ k, (successes k os).length ≤ 1
  apart : ∀ k c c', m.phaseOf c = some (.loading k) → m.phaseOf c' = some (.loading k) → c = c'
  created : ∀ k, creators k os = successes k os
  same : ∀ c k v b, .returned c k (some (v, b)) ∈ os → ∃ c', successes k os = [(c', v)]
  retried : ∀ c k order, m.phaseOf c = some (.holding k) →
    ∃ m' out, step m (.go c order) = some (m', out) ∧
      (.loadBegan c k ∈ out ↔ successes k os = [])
  waits : ∀ c h k, m.waitsFor c = some h → m.phaseOf h = some (.loading k) →
    m.calls[c]? = some ⟨.getOrLoad k, .wantSlot k⟩
  goes : ∀ c, m.waitsFor c = none → m.phaseOf c = none ∨ m.phaseOf c = some .done ∨
    (step m (.loadEnds c none)).isSome ∨ ∃ order, (step m (.go c order)).isSome

def Phase.holds : Phase K V → Option K
  | .holding k | .loading k | .reading k _ _ => some k
  | _ => none

def Phase.ahead : Phase K V → List K
  | .wantSlot k => [k]
  | .trying todo _ | .reading _ todo _ => todo
  | _ => []

/-- The invariant: a lock is held by the call that is there, and the values are the loads that
succeeded. -/
structure Sound (m : OnceMap K V) (os : List (Event K V)) : Prop where
  map : ∀ h, m.mapHolder = some h → m.phaseOf h = some .inMap
  held : ∀ k h, m.lockOf k = some h ↔ (m.phaseOf h).bind Phase.holds = some k
  own : ∀ (c : Nat) (call : Call K V) (k : K), m.calls[c]? = some call →
    call.phase = .wantSlot k → call.op = .getOrLoad k
  ahead : ∀ h phase k, m.phaseOf h = some phase → k ∈ phase.ahead → (m.slots.get k).isSome
  empty : ∀ h k, m.phaseOf h = some (.loading k) → m.valueOf k = none
  loaded : ∀ k, (successes k os).map Prod.snd = (m.valueOf k).toList
  created : ∀ k, creators k os = successes k os
  same : ∀ c k v b, .returned c k (some (v, b)) ∈ os → m.valueOf k = some v

variable {m m' : OnceMap K V} {os out : List (Event K V)} {c : Nat} {call : Call K V}
  {p : Phase K V} {k : K} {slot : Slot V}

theorem slot_of_lockOf {h : Nat} (hl : m.lockOf k = some h) :
    ∃ slot, m.slots.get k = some slot ∧ slot.holder = some h :=
  Option.bind_eq_some_iff.mp hl

theorem step_go (hc : m.calls[c]? = some call) (order : List K) :
    step m (.go c order) = m.advance c call order := by
  rw [step, hc, Option.bind_some]

omit [DecidableEq K] in
theorem phaseOf_eq_some {p : Phase K V} (h : m.phaseOf c = some p) :
    ∃ op, m.calls[c]? = some ⟨op, p⟩ := by
  obtain ⟨⟨op, q⟩, hc, rfl⟩ := Option.map_eq_some_iff.mp h
  exact ⟨op, hc⟩

theorem Sound.slot_held (hs : Sound m os) (h : m.phaseOf c = some p) (hp : p.holds = some k) :
    ∃ slot, m.slots.get k = some slot ∧ slot.holder = some c := by
  refine slot_of_lockOf ((hs.held k c).mpr ?_)
  rw [h, Option.bind_some, hp]

theorem Sound.goes (hs : Sound m os) (hw : m.waitsFor c = none) :
    m.phaseOf c = none ∨ m.phaseOf c = some .done ∨ (step m (.loadEnds c none)).isSome ∨
      ∃ order, (step m (.go c order)).isSome := by
  cases hp : m.phaseOf c with
  | none => exact Or.inl rfl
  | some p =>
    obtain ⟨op, hc⟩ := phaseOf_eq_some hp
    refine Or.inr ?_
    have hgo := step_go hc
    rw [waitsFor, hp] at hw
    cases p with
    | done => exact Or.inl rfl
    | wantMap => exact Or.inr (Or.inr ⟨[], by simp [hgo, advance, show m.mapHolder = none from hw]⟩)
    | inMap =>
      refine Or.inr (Or.inr ⟨m.slots.entries.map Prod.fst, ?_⟩)
      rw [hgo, advance]
      cases op with
      | getOrLoad | getLoaded => rfl
      | loadedCount | loadedValues => simp
    | wantSlot j =>
      obtain ⟨slot, hslot⟩ :=
        Option.isSome_iff_exists.mp (hs.ahead c _ j hp (List.mem_singleton_self j))
      have hfree : slot.holder = none := by simpa [lockOf, hslot] using hw
      exact Or.inr (Or.inr ⟨[], by simp [hgo, advance, hslot, hfree]⟩)
    | holding j | reading j todo found =>
      obtain ⟨slot, hslot, -⟩ := hs.slot_held hp rfl
      exact Or.inr (Or.inr ⟨[], by simp [hgo, advance, hslot]⟩)
    | loading j =>
      obtain ⟨slot, hslot, -⟩ := hs.slot_held hp rfl
      exact Or.inr (Or.inl (by simp [step, hc, loadEnds, hslot]))
    | trying todo found =>
      refine Or.inr (Or.inr ⟨[], ?_⟩)
      cases todo with
      | nil => rw [hgo]; rfl
      | cons j todo =>
        obtain ⟨slot, hslot⟩ :=
          Option.isSome_iff_exists.mp (hs.ahead c _ j hp List.mem_cons_self)
        simp [hgo, advance, hslot]

theorem Sound.retried (hs : Sound m os) (order : List K) (hp : m.phaseOf c = some (.holding k)) :
    ∃ m' out, step m (.go c order) = some (m', out) ∧
      (.loadBegan c k ∈ out ↔ successes k os = []) := by
  obtain ⟨op, hc⟩ := phaseOf_eq_some hp
  obtain ⟨slot, hslot, -⟩ := hs.slot_held hp rfl
  have hvalue : m.valueOf k = slot.value := by rw [valueOf, hslot, Option.bind_some]
  have hloaded := hs.loaded k
  rw [hvalue] at hloaded
  rw [step_go hc, advance]
  simp only [hslot, Option.map_some]
  cases hv : slot.value with rw [hv] at hloaded
  | none =>
    exact ⟨_, _, rfl, by simpa using hloaded⟩
  | some v =>
    refine ⟨_, _, rfl, ?_⟩
    constructor
    · intro h
      simp at h
    · intro h
      rw [h] at hloaded
      cases hloaded

theorem Sound.singleFlight (hs : Sound m os) : SingleFlight m os where
  once k := by
    rw [← List.length_map (f := Prod.snd), hs.loaded]
    cases m.valueOf k <;> simp
  apart k c c' h h' := by
    have hc := (hs.held k c).mpr (by rw [h]; rfl)
    have hc' := (hs.held k c').mpr (by rw [h']; rfl)
    rw [hc] at hc'
    exact Option.some.inj hc'
  created := hs.created
  same c k v b h := by
    have hloaded := hs.loaded k
    rw [hs.same c k v b h] at hloaded
    obtain ⟨e, he, rfl⟩ := List.map_eq_singleton_iff.mp hloaded
    exact ⟨e.1, he⟩
  retried c k order := hs.retried order
  waits c h k hw hload := by
    rw [waitsFor] at hw
    split at hw
    · rw [hs.map h hw] at hload
      cases hload
    · next j hp =>
      have hj := (hs.held j h).mp hw
      rw [hload] at hj
      obtain rfl : k = j := Option.some.inj hj
      obtain ⟨op, hc⟩ := phaseOf_eq_some hp
      rw [hc, show op = .getOrLoad k from hs.own c _ k hc rfl]
    · cases hw
  goes _ := hs.goes

/-! ## What a step keeps -/

@[simp] theorem lockOf_setSlot (j : K) :
    (m.setSlot k slot).lockOf j = if j = k then slot.holder else m.lockOf j := by
  rw [lockOf, setSlot, InsertMap.get_set]
  split <;> rfl

@[simp] theorem valueOf_setSlot (j : K) :
    (m.setSlot k slot).valueOf j = if j = k then slot.value else m.valueOf j := by
  rw [valueOf, setSlot, InsertMap.get_set]
  split <;> rfl

/-- A call moves on to the phase `p`: it takes the slot of `p`, frees the one it had, and leaves the
other locks as they are. -/
structure Moves (m m' : OnceMap K V) (c : Nat) (call : Call K V) (p : Phase K V) : Prop where
  calls : m'.calls = m.calls.set c { call with phase := p }
  map : ∀ h, m'.mapHolder = some h →
    h = c ∧ p = .inMap ∨ m.mapHolder = some h ∧ call.phase ≠ .inMap
  locks : ∀ j, m'.lockOf j =
    if p.holds = some j then some c else if call.phase.holds = some j then none else m.lockOf j
  free : ∀ j, p.holds = some j → call.phase.holds = some j ∨ m.lockOf j = none
  present : ∀ j, (m.slots.get j).isSome → (m'.slots.get j).isSome
  ahead : ∀ j ∈ p.ahead, (m'.slots.get j).isSome
  own : ∀ j, p = .wantSlot j → call.op = .getOrLoad j

theorem Moves.phaseOf (h : Moves m m' c call p) (hc : m.calls[c]? = some call) (d : Nat) :
    m'.phaseOf d = if d = c then some p else m.phaseOf d := by
  have hlt := (List.getElem?_eq_some_iff.mp hc).1
  rw [OnceMap.phaseOf, h.calls, List.getElem?_set]
  by_cases hd : c = d
  · rw [if_pos hd, if_pos hlt, if_pos hd.symm]
    rfl
  · rw [if_neg hd, if_neg (Ne.symm hd)]
    rfl

theorem Moves.sound (h : Moves m m' c call p) (hc : m.calls[c]? = some call) (hs : Sound m os)
    (hempty : ∀ d k, m'.phaseOf d = some (.loading k) → m'.valueOf k = none)
    (hloaded : ∀ k, (successes k out).map Prod.snd = (m'.valueOf k).toList)
    (hcreated : ∀ k, creators k out = successes k out)
    (hsame : ∀ d k v b, .returned d k (some (v, b)) ∈ out → m'.valueOf k = some v) :
    Sound m' out := by
  have hphase := h.phaseOf hc
  have hwas : m.phaseOf c = some call.phase := by rw [OnceMap.phaseOf, hc, Option.map_some]
  refine ⟨fun d hd => ?_, fun j d => ?_, fun d other j hd hj => ?_, fun d q j hd hj => ?_, hempty,
    hloaded, hcreated, hsame⟩
  · rw [hphase]
    rcases h.map d hd with ⟨rfl, rfl⟩ | ⟨hmap, hne⟩
    · rw [if_pos rfl]
    · have hin := hs.map d hmap
      have hd' : d ≠ c := by
        rintro rfl
        rw [hwas, Option.some.injEq] at hin
        exact hne hin
      rw [if_neg hd', hin]
  · have hold := hs.held j d
    rw [h.locks, hphase]
    by_cases hd : d = c
    · subst hd
      grind
    · rw [if_neg hd]
      have hcold := hs.held j c
      have hfree := h.free j
      grind
  · rw [h.calls, List.getElem?_set] at hd
    split at hd
    · split at hd <;> cases hd
      exact h.own j hj
    · exact hs.own d other j hd hj
  · rw [hphase] at hd
    split at hd
    · cases hd
      exact h.ahead j hj
    · exact h.present j (hs.ahead d q j hd hj)

theorem Moves.sound_append (h : Moves m m' c call p) (hc : m.calls[c]? = some call)
    (hs : Sound m os) (hvalue : ∀ k, m'.valueOf k = m.valueOf k)
    (hempty : ∀ k, p = .loading k → m.valueOf k = none) (hloaded : ∀ k, successes k out = [])
    (hcreated : ∀ k, creators k out = [])
    (hsame : ∀ d k v b, .returned d k (some (v, b)) ∈ out → m.valueOf k = some v) :
    Sound m' (os ++ out) := by
  have happend : ∀ k, successes k (os ++ out) = successes k os ∧
      creators k (os ++ out) = creators k os := by
    intro k
    have hl := hloaded k
    have hr := hcreated k
    rw [successes] at hl
    rw [creators] at hr
    simp only [successes, creators, List.filterMap_append, hl, hr, List.append_nil, and_self]
  refine h.sound hc hs (fun d k hd => ?_) (fun k => ?_) (fun k => ?_) fun d k v b hd => ?_
  · rw [h.phaseOf hc] at hd
    rw [hvalue]
    split at hd
    · exact hempty k (Option.some.inj hd)
    · exact hs.empty d k hd
  · rw [(happend k).1, hvalue, hs.loaded]
  · rw [(happend k).1, (happend k).2, hs.created]
  · rw [hvalue]
    rcases List.mem_append.mp hd with hold | hnew
    · exact hs.same d k v b hold
    · exact hsame d k v b hnew

theorem Sound.moves_goto (hs : Sound m os) (hc : m.calls[c]? = some call) (holder : Option Nat)
    (p : Phase K V)
    (hmap : ∀ h, holder = some h →
      h = c ∧ p = .inMap ∨ m.mapHolder = some h ∧ call.phase ≠ .inMap)
    (hholds : p.holds = call.phase.holds) (hahead : ∀ j ∈ p.ahead, (m.slots.get j).isSome)
    (hown : ∀ j, p = .wantSlot j → call.op = .getOrLoad j) :
    Moves m ({ m with mapHolder := holder }.goto c call p) c call p where
  calls := rfl
  map := hmap
  locks j := by
    by_cases hj : p.holds = some j
    · rw [if_pos hj]
      refine (hs.held j c).mpr ?_
      rw [phaseOf, hc, Option.map_some, Option.bind_some, ← hholds, hj]
    · rw [if_neg hj, if_neg (hholds ▸ hj)]
      rfl
  free j hj := Or.inl (hholds ▸ hj)
  present _ hj := hj
  ahead := hahead
  own := hown

theorem moves_setSlot (c : Nat) (call : Call K V) (p : Phase K V) (slot' : Slot V)
    (hslot : m.slots.get k = some slot)
    (hlock : slot'.holder = some c ∧ p.holds = some k ∧ call.phase.holds = none ∧
        slot.holder = none ∨
      slot'.holder = none ∧ p.holds = none ∧ call.phase.holds = some k)
    (hphase : call.phase ≠ .inMap) (hahead : ∀ j ∈ p.ahead, (m.slots.get j).isSome)
    (hown : ∀ j, p = .wantSlot j → call.op = .getOrLoad j) :
    Moves m ((m.setSlot k slot').goto c call p) c call p := by
  have hpresent : ∀ j, (m.slots.get j).isSome → ((m.setSlot k slot').slots.get j).isSome := by
    intro j hj
    rw [setSlot, InsertMap.get_set]
    split
    · rfl
    · exact hj
  refine ⟨rfl, fun h hh => Or.inr ⟨hh, hphase⟩, fun j => ?_, fun j hj => ?_, hpresent,
    fun j hj => hpresent j (hahead j hj), hown⟩
  · change (m.setSlot k slot').lockOf j = _
    rcases hlock with ⟨hholder, hp, hwas, -⟩ | ⟨hholder, hp, hwas⟩
    · by_cases hj : j = k
      · simp [hj, hholder, hp]
      · simp [hj, Ne.symm hj, hp, hwas]
    · by_cases hj : j = k
      · simp [hj, hholder, hp, hwas]
      · simp [hj, Ne.symm hj, hp, hwas]
  · rcases hlock with ⟨-, hp, -, hfree⟩ | ⟨-, hp, -⟩ <;> rw [hp] at hj
    · obtain rfl : k = j := Option.some.inj hj
      exact Or.inr (by rw [lockOf, hslot, Option.bind_some, hfree])
    · cases hj

theorem Moves.sound_nil (h : Moves m m' c call p) (hc : m.calls[c]? = some call) (hs : Sound m os)
    (hvalue : ∀ k, m'.valueOf k = m.valueOf k)
    (hempty : ∀ k, p = .loading k → m.valueOf k = none) : Sound m' (os ++ []) :=
  h.sound_append hc hs hvalue hempty (fun _ => rfl) (fun _ => rfl) nofun

theorem enter_lockOf (j : K) : (m.enter k).lockOf j = m.lockOf j := by
  rw [enter]
  split
  · rfl
  · next h =>
    rw [lockOf_setSlot]
    split
    · next hj => rw [hj, lockOf, Option.not_isSome_iff_eq_none.mp h, Option.bind_none]
    · rfl

theorem enter_valueOf (j : K) : (m.enter k).valueOf j = m.valueOf j := by
  rw [enter]
  split
  · rfl
  · next h =>
    rw [valueOf_setSlot]
    split
    · next hj => rw [hj, valueOf, Option.not_isSome_iff_eq_none.mp h, Option.bind_none]
    · rfl

theorem enter_isSome {j : K} (h : (m.slots.get j).isSome ∨ j = k) :
    ((m.enter k).slots.get j).isSome := by
  rw [enter]
  split
  · next hk =>
    rcases h with h | rfl
    · exact h
    · exact hk
  · rw [setSlot, InsertMap.get_set]
    split
    · rfl
    · next hj => exact h.resolve_right hj

theorem isSome_of_perm {order : List K} (h : order.Perm (m.slots.entries.map Prod.fst)) :
    ∀ j ∈ order, (m.slots.get j).isSome := fun j hj => by
  obtain ⟨v, hv⟩ := (m.slots.mem_keys_iff j).mp (h.subset hj)
  rw [hv]
  rfl

theorem Sound.inMap {order : List K} (hs : Sound m os) (hc : m.calls[c]? = some call)
    (hp : call.phase = .inMap) (h : m.advance c call order = some (m', out)) :
    Sound m' (os ++ out) := by
  rw [advance, hp] at h
  have hgoto : ∀ p : Phase K V, p.holds = none → (∀ j ∈ p.ahead, (m.slots.get j).isSome) →
      (∀ j, p ≠ .wantSlot j) → (∀ j, p ≠ .loading j) →
      Sound ({ m with mapHolder := none }.goto c call p) (os ++ []) := by
    intro p hholds hahead hwant hload
    have hm := hs.moves_goto hc none p (by simp) (hp ▸ hholds) hahead
      fun j hj => absurd hj (hwant j)
    exact hm.sound_nil hc hs (fun _ => rfl) fun k hk => absurd hk (hload k)
  cases hop : call.op with rw [hop] at h
  | getOrLoad k =>
    cases h
    have hm : Moves m (({ m with mapHolder := none }.enter k).goto c call (.wantSlot k)) c call
        (.wantSlot k) := by
      refine ⟨?_, ?_, fun j => ?_, (fun k hk => by cases hk),
        fun j hj => enter_isSome (Or.inl hj), ?_, ?_⟩
      · rw [enter]
        split <;> rfl
      · intro h hh
        have hnone : ({ m with mapHolder := none }.enter k).mapHolder = none := by
          rw [enter]
          split <;> rfl
        rw [goto, hnone] at hh
        cases hh
      · rw [hp]
        exact enter_lockOf j
      · intro j hj
        exact enter_isSome (Or.inr (List.mem_singleton.mp hj))
      · intro j hj
        rw [hop, Phase.wantSlot.inj hj]
    exact hm.sound_nil hc hs (fun j => enter_valueOf j) (by simp)
  | getLoaded k =>
    cases h
    refine hgoto _ rfl ?_ (by simp) (by simp)
    intro j hj
    split at hj
    · next hk => rw [List.mem_singleton.mp hj, hk]
    · cases hj
  | loadedCount | loadedValues =>
    dsimp only at h
    split_ifs at h with hperm
    cases h
    exact hgoto _ rfl (isSome_of_perm hperm) (by simp) (by simp)

theorem valueOf_relock {slot' : Slot V} (hslot : m.slots.get k = some slot)
    (h : slot'.value = slot.value) (j : K) : (m.setSlot k slot').valueOf j = m.valueOf j := by
  rw [valueOf_setSlot]
  split
  · next hj => rw [hj, valueOf, hslot, Option.bind_some, h]
  · rfl

theorem Sound.advance {order : List K} (hs : Sound m os) (hc : m.calls[c]? = some call)
    (h : m.advance c call order = some (m', out)) : Sound m' (os ++ out) := by
  have hwas : m.phaseOf c = some call.phase := by rw [phaseOf, hc, Option.map_some]
  have hahead := fun j => hs.ahead c _ j hwas
  have hkeep := h
  rw [OnceMap.advance] at h
  split at h
  · next hp =>
    split at h <;> cases h
    have hm := hs.moves_goto hc (some c) (.inMap)
      (fun h hh => Or.inl ⟨(Option.some.inj hh).symm, rfl⟩) (by rw [hp]; rfl) nofun nofun
    exact hm.sound_nil hc hs (fun _ => rfl) nofun
  · next hp => exact hs.inMap hc hp hkeep
  · next k hp =>
    obtain ⟨slot, hslot, h⟩ := Option.bind_eq_some_iff.mp h
    split_ifs at h with hfree
    cases h
    have hm := moves_setSlot c call (.holding k)
      { slot with holder := some c } hslot
      (Or.inl ⟨rfl, rfl, by rw [hp]; rfl, hfree⟩) (by rw [hp]; nofun) nofun nofun
    exact hm.sound_nil hc hs (valueOf_relock hslot rfl) nofun
  · next k hp =>
    obtain ⟨slot, hslot, h⟩ := Option.map_eq_some_iff.mp h
    have hvalue : m.valueOf k = slot.value := by rw [valueOf, hslot, Option.bind_some]
    split at h <;> cases h
    · next v hv =>
      have hm := moves_setSlot c call (.done)
        { slot with holder := none } hslot
        (Or.inr ⟨rfl, rfl, by rw [hp]; rfl⟩) (by rw [hp]; nofun) nofun nofun
      refine hm.sound_append hc hs (valueOf_relock hslot rfl) nofun (fun _ => rfl)
        (fun _ => rfl) fun d j w b hd => ?_
      obtain ⟨-, rfl, hw⟩ := Event.returned.inj (List.mem_singleton.mp hd)
      rw [hvalue, hv, (Prod.mk.inj (Option.some.inj hw)).1]
    · next hv =>
      have hm := hs.moves_goto hc m.mapHolder (.loading k)
        (fun h hh => Or.inr ⟨hh, by rw [hp]; nofun⟩) (by rw [hp]; rfl) nofun nofun
      refine hm.sound_append hc hs (fun _ => rfl) (fun j hj => ?_) (fun _ => rfl)
        (fun _ => rfl) fun d j w b hd => by simp at hd
      rw [← Phase.loading.inj hj, hvalue, hv]
  · next found hp =>
    cases h
    have hm := hs.moves_goto hc m.mapHolder (.done)
      (fun h hh => Or.inr ⟨hh, by rw [hp]; nofun⟩) (by rw [hp]; rfl) nofun nofun
    exact hm.sound_append hc hs (fun _ => rfl) nofun (fun _ => rfl) (fun _ => rfl)
      fun d j w b hd => by simp at hd
  · next k todo found hp =>
    rw [hp] at hahead
    obtain ⟨slot, hslot, h⟩ := Option.map_eq_some_iff.mp h
    split at h <;> cases h
    · next hfree =>
      have hm := moves_setSlot c call (.reading k todo found)
        { slot with holder := some c } hslot
        (Or.inl ⟨rfl, rfl, by rw [hp]; rfl, hfree⟩) (by rw [hp]; nofun)
        (fun j hj => hahead j (List.mem_cons_of_mem k hj)) nofun
      exact hm.sound_nil hc hs (valueOf_relock hslot rfl) nofun
    · have hm := hs.moves_goto hc m.mapHolder (.trying todo found)
        (fun h hh => Or.inr ⟨hh, by rw [hp]; nofun⟩) (by rw [hp]; rfl)
        (fun j hj => hahead j (List.mem_cons_of_mem k hj)) nofun
      exact hm.sound_nil hc hs (fun _ => rfl) nofun
  · next k todo found hp =>
    rw [hp] at hahead
    obtain ⟨slot, hslot, h⟩ := Option.map_eq_some_iff.mp h
    cases h
    have hm := moves_setSlot c call
      (.trying todo (found ++ slot.value.toList)) { slot with holder := none } hslot
      (Or.inr ⟨rfl, rfl, by rw [hp]; rfl⟩) (by rw [hp]; nofun) hahead nofun
    exact hm.sound_nil hc hs (valueOf_relock hslot rfl) nofun
  · cases h
  · cases h

theorem Sound.loadEnds {value : Option V} (hs : Sound m os) (hc : m.calls[c]? = some call)
    (h : m.loadEnds c call value = some (m', out)) : Sound m' (os ++ out) := by
  have hwas : m.phaseOf c = some call.phase := by rw [phaseOf, hc, Option.map_some]
  rw [OnceMap.loadEnds] at h
  split at h
  · next k hp =>
    obtain ⟨slot, hslot, h⟩ := Option.map_eq_some_iff.mp h
    cases h
    rw [hp] at hwas
    have hnone := hs.empty c k hwas
    have hm := moves_setSlot c call (.done)
      ⟨none, value.or slot.value⟩ hslot (Or.inr ⟨rfl, rfl, by rw [hp]; rfl⟩)
      (by rw [hp]; nofun) nofun nofun
    have hslotValue : slot.value = none := by
      rw [valueOf, hslot] at hnone
      exact hnone
    have hvalue : ∀ j, ((m.setSlot k ⟨none, value.or slot.value⟩).goto c call .done).valueOf j =
        if j = k then value else m.valueOf j := by
      intro j
      rw [hslotValue, Option.or_none]
      exact valueOf_setSlot j
    refine hm.sound hc hs (fun d j hd => ?_) (fun j => ?_) (fun j => ?_) fun d j v b hd => ?_
    · -- another call that loads has another key
      rw [hm.phaseOf hc] at hd
      split at hd
      · cases hd
      · next hne =>
        have hj : j ≠ k := by
          rintro rfl
          have hd' := (hs.held j d).mpr (by rw [hd]; rfl)
          have hc' := (hs.held j c).mpr (by rw [hwas]; rfl)
          rw [hc', Option.some.injEq] at hd'
          exact hne hd'.symm
        rw [hvalue, if_neg hj]
        exact hs.empty d j hd
    · have hold := hs.loaded j
      rw [hvalue, successes, List.filterMap_append, List.map_append]
      rw [successes] at hold
      rw [hold]
      by_cases hj : j = k
      · rw [hj, hnone]
        cases value <;> simp
      · cases value <;> simp [hj, Ne.symm hj]
    · have hold := hs.created j
      rw [successes, creators] at hold
      rw [successes, creators, List.filterMap_append, hold]
      cases value with
      | none => simp
      | some v => by_cases hj : k = j <;> simp [hj]
    · rw [hvalue]
      rcases List.mem_append.mp hd with hd | hd
      · have hj := hs.same d j v b hd
        have hne : j ≠ k := by
          rintro rfl
          rw [hnone] at hj
          cases hj
        rw [if_neg hne, hj]
      · cases value <;> simp_all
  · cases h

theorem sound_step (m : OnceMap K V) (os : List (Event K V)) (i : Input K V)
    (m' : OnceMap K V) (out : List (Event K V)) (hs : Sound m os)
    (h : step m i = some (m', out)) : Sound m' (os ++ out) := by
  cases i with
  | go c order =>
    obtain ⟨call, hc, h⟩ := Option.bind_eq_some_iff.mp h
    exact hs.advance hc h
  | loadEnds c value =>
    obtain ⟨call, hc, h⟩ := Option.bind_eq_some_iff.mp h
    exact hs.loadEnds hc h
  | call op =>
    cases h
    rw [List.append_nil]
    have hphase : ∀ d, phaseOf { m with calls := m.calls ++ [⟨op, .wantMap⟩] } d = m.phaseOf d ∨
        phaseOf { m with calls := m.calls ++ [⟨op, .wantMap⟩] } d = some .wantMap ∧
          m.phaseOf d = none := by
      intro d
      rw [phaseOf, phaseOf]
      rcases Nat.lt_trichotomy d m.calls.length with hd | hd | hd
      · exact Or.inl (by rw [List.getElem?_append_left hd])
      · exact Or.inr (by simp [hd])
      · have hlong : (m.calls ++ [⟨op, .wantMap⟩])[d]? = none :=
          List.getElem?_eq_none (by rw [List.length_append, List.length_singleton]; omega)
        exact Or.inl (by rw [hlong, List.getElem?_eq_none (Nat.le_of_lt hd)])
    have hback : ∀ d p, phaseOf { m with calls := m.calls ++ [⟨op, .wantMap⟩] } d = some p →
        p ≠ .wantMap → m.phaseOf d = some p := by
      intro d p hd hp
      rcases hphase d with hsame | ⟨hnew, -⟩
      · exact hsame ▸ hd
      · rw [hnew, Option.some.injEq] at hd
        exact absurd hd.symm hp
    refine ⟨fun d hd => ?_, fun j d => ?_, fun d other j hd hj => ?_, fun d p j hd hj => ?_,
      fun d j hd => hs.empty d j (hback d _ hd nofun), hs.loaded, hs.created, hs.same⟩
    · have hin := hs.map d hd
      rcases hphase d with hsame | ⟨-, hnone⟩
      · rw [hsame, hin]
      · rw [hnone] at hin
        cases hin
    · have hold := hs.held j d
      rcases hphase d with hsame | ⟨hnew, hnone⟩
      · rw [hsame]
        exact hold
      · rw [hnew]
        rw [hnone] at hold
        exact hold
    · rcases List.mem_append.mp (List.mem_of_getElem? hd) with hmem | hmem
      · obtain ⟨e, he⟩ := List.mem_iff_getElem?.mp hmem
        exact hs.own e other j he hj
      · rw [List.mem_singleton.mp hmem] at hj
        cases hj
    · exact hs.ahead d p j (hback d p hd (by rintro rfl; cases hj)) hj

theorem sound_new : Sound (new : OnceMap K V) [] where
  map := nofun
  held k h := by simp [lockOf, phaseOf, new, InsertMap.get, InsertMap.empty]
  own _ _ _ h := by simp [new] at h
  ahead _ _ _ h := by simp [phaseOf, new] at h
  empty _ _ h := by simp [phaseOf, new] at h
  loaded _ := rfl
  created _ := rfl
  same := nofun

end OnceMap

end NodeWebrtc.Sherpa
