import NodeWebrtc.Lib.InsertMap
import NodeWebrtc.Speech.TtsSendOrder

/-! # The synthesis queue, its workers and stop

A send that claimed its ticket pushes its job under the queue lock, makes sure a synthesis
worker exists and wakes it. The worker moves a job from the queue to the held slot and takes
it back to run it. A cut drops the jobs before it, a stop also ends the worker and waits for
it a bounded time, and a worker that sees the shutdown flag drops whatever is left.

A step is one critical section of a lock, one access to an atomic or one operation on the
`Notify`; the steps of the sends, the workers, the stops and the starts interleave in any
order. A job is named by its ticket.
-/

namespace NodeWebrtc.Speech

/-- Where a worker is. In the select it is `parked`, with the wake-up it was given and whether
the wake-ups of a stop reached it; past the select it is `woken`, at the head of the inner
loop `checking`, and once it left that loop `resting`. -/
inductive SynthesisPhase where
  | parked (notified roused : Bool)
  | woken
  | checking
  | popping
  | holding
  | running (ticket : Nat)
  | resting
  | leaving
  | exited
  | aborted
deriving DecidableEq

structure SynthesisWorker where
  phase : SynthesisPhase
  /-- A stop gave up on the worker; it is dropped at its next await. -/
  abortRequested : Bool
deriving DecidableEq

inductive HandOff where
  | claimed
  | ensuring
  | notifying
deriving DecidableEq

/-- Where a call of `stop` is, from the moment it found the agent running. -/
inductive StopPhase where
  | halted
  | raised
  | cut (below : Nat)
  | collected
  | notified
  | joining (worker : Nat)
  | aborting
  | finished
deriving DecidableEq

structure TtsSynthesis where
  order : TtsSendOrder
  queue : List Nat
  held : Option Nat
  workers : List SynthesisWorker
  /-- `tts_synthesis_worker`: the worker whose handle is kept. -/
  slot : Option Nat
  permit : Bool
  running : Bool
  shutdown : Bool
  handOff : InsertMap Nat HandOff
  /-- Starts that have not cleared the shutdown flag yet. -/
  starts : Nat
  stops : List StopPhase
  /-- The cuts of flushes and barge-ins that have not collected yet. -/
  flushes : List Nat

inductive SynthesisInput where
  /-- A step of a send up to its claim, or the release of a ticket. -/
  | send (i : OrderInput)
  /-- `ensure_tts_synthesis_worker` reads the shutdown flag. -/
  | ensureFlag (ticket : Nat)
  /-- `ensure_tts_synthesis_worker` locks the slot. -/
  | ensureSlot (ticket : Nat)
  /-- The send's `notify_one`, and the parked worker it reaches. -/
  | notifyOne (ticket : Nat) (next : Option Nat)
  /-- The select of the worker ends through the wake-up. -/
  | wake (worker : Nat)
  /-- The select of the worker ends through the shutdown; a wake-up it was given goes on. -/
  | rouse (worker : Nat) (next : Option Nat)
  /-- The worker reads the shutdown flag after the select. -/
  | look (worker : Nat)
  /-- The worker reads the shutdown flag at the head of the inner loop. -/
  | check (worker : Nat)
  | pop (worker : Nat)
  | take (worker : Nat)
  | finish (worker : Nat)
  /-- The worker reads the shutdown flag after the inner loop. -/
  | rest (worker : Nat)
  | leave (worker : Nat)
  /-- An aborted worker is dropped at an await; a wake-up it was given goes on. -/
  | drop (worker : Nat) (next : Option Nat)
  | start
  | clearShutdown
  | stop
  | raiseShutdown (stop : Nat)
  | stopCut (stop : Nat)
  | stopCollect (stop : Nat)
  | notifyWaiters (stop : Nat)
  | takeSlot (stop : Nat)
  | joinTimeout (stop : Nat)
  | joined (stop : Nat)
  | flushCut
  | flushCollect (below : Nat)

inductive SynthesisEvent where
  | order (event : OrderEvent)
  /-- The job was run or dropped: a send that waits for it gets its answer. -/
  | ended (ticket : Nat)
deriving DecidableEq

namespace TtsSynthesis

def new : TtsSynthesis :=
  ⟨.init, [], none, [], none, false, false, false, .empty, 0, [], []⟩

def phase? (s : TtsSynthesis) (w : Nat) : Option SynthesisPhase :=
  s.workers[w]?.map SynthesisWorker.phase

def setPhase (s : TtsSynthesis) (w : Nat) (phase : SynthesisPhase) : TtsSynthesis :=
  { s with workers := s.workers.modify w fun worker => { worker with phase := phase } }

def setStop (s : TtsSynthesis) (k : Nat) (phase : StopPhase) : TtsSynthesis :=
  { s with stops := s.stops.set k phase }

/-- `notify_one`: a worker that waits is given the wake-up, else the permit is stored. -/
def notifyOne (s : TtsSynthesis) : Option Nat → Option TtsSynthesis
  | none => some { s with permit := true }
  | some w =>
    match s.phase? w with
    | some (.parked false roused) => some (s.setPhase w (.parked true roused))
    | _ => none

/-- A wake-up given to a worker that is not going to use it. -/
def passOn (s : TtsSynthesis) (notified : Bool) (next : Option Nat) : Option TtsSynthesis :=
  if notified then s.notifyOne next else some s

def rousePhase : SynthesisPhase → SynthesisPhase
  | .parked notified _ => .parked notified true
  | phase => phase

def rouseAll (s : TtsSynthesis) : TtsSynthesis :=
  { s with workers := s.workers.map fun worker => { worker with phase := rousePhase worker.phase } }

def pushClaimed (s : TtsSynthesis) : List OrderEvent → TtsSynthesis
  | [.claimed t] => { s with queue := s.queue ++ [t], handOff := s.handOff.set t .claimed }
  | _ => s

/-- The first half of `ensure_tts_synthesis_worker`. -/
def ensureFlag (s : TtsSynthesis) (t : Nat) : TtsSynthesis :=
  { s with handOff := s.handOff.set t (if s.shutdown then .notifying else .ensuring) }

/-- The second half of `ensure_tts_synthesis_worker`. -/
def ensureSlot (s : TtsSynthesis) (t : Nat) : TtsSynthesis :=
  let s := { s with handOff := s.handOff.set t .notifying }
  match s.slot with
  | some _ => s
  | none =>
    { s with
      workers := s.workers ++ [⟨.parked false false, false⟩]
      slot := some s.workers.length }

/-- The worker takes the front job into the held slot; a job another worker holds is lost. -/
def popJob (s : TtsSynthesis) (w : Nat) : TtsSynthesis × List SynthesisEvent :=
  match s.queue with
  | [] => (s.setPhase w .resting, [])
  | t :: queue =>
    ({ s with queue := queue, held := some t }.setPhase w .holding,
      (s.held.map SynthesisEvent.ended).toList)

def takeHeld (s : TtsSynthesis) (w : Nat) : TtsSynthesis :=
  match s.held with
  | none => s.setPhase w .checking
  | some t => { s with held := none }.setPhase w (.running t)

/-- The jobs a worker that ends drops: the held one, then the queued ones. -/
def dropLeftovers (s : TtsSynthesis) (w : Nat) : TtsSynthesis × List SynthesisEvent :=
  ({ s with queue := [], held := none }.setPhase w .exited,
    (s.held.toList ++ s.queue).map SynthesisEvent.ended)

/-- `cancel_pending_tts_synthesis_collect_before`: the held job and the front of the queue go
when their ticket is before the cut. -/
def collectBefore (s : TtsSynthesis) (below : Nat) : TtsSynthesis × List SynthesisEvent :=
  let heldCut := s.held.filter (· < below)
  ({ s with
      held := s.held.filter (below ≤ ·)
      queue := s.queue.dropWhile (· < below) },
    (heldCut.toList ++ s.queue.takeWhile (· < below)).map SynthesisEvent.ended)

/-- Cuts the send order; the second result is the cut's bound. -/
def cutOrder (s : TtsSynthesis) : TtsSynthesis × Nat × List SynthesisEvent :=
  let (cut, state) := s.order.state.cut
  ({ s with order := { s.order with state := state, notifying := s.order.notifying + 1 } },
    cut.below, [.order (.cut cut)])

/-- A stop takes the slot: it waits for the worker it finds there. -/
def takeSlot (s : TtsSynthesis) (k : Nat) : TtsSynthesis :=
  match s.slot with
  | none => s.setStop k .finished
  | some w => { s with slot := none }.setStop k (.joining w)

/-- A worker's next step, from the phase it is in. -/
def stepWorker (s : TtsSynthesis) (w : Nat) :
    SynthesisPhase → SynthesisInput → Option (TtsSynthesis × List SynthesisEvent)
  | .parked notified _, .wake _ =>
    if notified then some (s.setPhase w .woken, [])
    else if s.permit then some ({ s with permit := false }.setPhase w .woken, [])
    else none
  | .parked notified roused, .rouse _ next =>
    if roused || s.shutdown then
      ((s.setPhase w .woken).passOn notified next).map fun s => (s, [])
    else none
  | .woken, .look _ => some (s.setPhase w (if s.shutdown then .leaving else .checking), [])
  | .checking, .check _ => some (s.setPhase w (if s.shutdown then .resting else .popping), [])
  | .popping, .pop _ => some (s.popJob w)
  | .holding, .take _ => some (s.takeHeld w, [])
  | .running t, .finish _ => some (s.setPhase w .checking, [.ended t])
  | .resting, .rest _ =>
    some (s.setPhase w (if s.shutdown then .leaving else .parked false false), [])
  | .leaving, .leave _ => some (s.dropLeftovers w)
  | _, _ => none

/-- An aborted worker is dropped at the await it is in, and a job it runs with it. -/
def dropWorker (s : TtsSynthesis) (w : Nat) (next : Option Nat) :
    SynthesisPhase → Option (TtsSynthesis × List SynthesisEvent)
  | .parked notified _ => ((s.setPhase w .aborted).passOn notified next).map fun s => (s, [])
  | .popping | .holding | .leaving => some (s.setPhase w .aborted, [])
  | .running t => some (s.setPhase w .aborted, [.ended t])
  | _ => none

def stepStop (s : TtsSynthesis) (k : Nat) :
    StopPhase → SynthesisInput → Option (TtsSynthesis × List SynthesisEvent)
  | .halted, .raiseShutdown _ => some ({ s with shutdown := true }.setStop k .raised, [])
  | .raised, .stopCut _ =>
    let (s, below, es) := s.cutOrder
    some (s.setStop k (.cut below), es)
  | .cut below, .stopCollect _ =>
    let (s, es) := s.collectBefore below
    some (s.setStop k .collected, es)
  | .collected, .notifyWaiters _ => some (s.rouseAll.setStop k .notified, [])
  | .notified, .takeSlot _ => some (s.takeSlot k, [])
  | .joining w, .joined _ =>
    match s.phase? w with
    | some .exited | some .aborted => some (s.setStop k .finished, [])
    | _ => none
  | .joining w, .joinTimeout _ =>
    some ({ s with
      workers := s.workers.modify w fun worker => { worker with abortRequested := true } }.setStop
        k .aborting, [])
  | .aborting, .joined _ => some (s.setStop k .finished, [])
  | _, _ => none

def step : Machine.Step TtsSynthesis SynthesisInput SynthesisEvent
  | _, .send .cut => none
  | s, .send i =>
    (s.order.step i).map fun p =>
      ({ s with order := p.1 }.pushClaimed p.2, p.2.map SynthesisEvent.order)
  | s, .ensureFlag t => if s.handOff.get t = some .claimed then some (s.ensureFlag t, []) else none
  | s, .ensureSlot t => if s.handOff.get t = some .ensuring then some (s.ensureSlot t, []) else none
  | s, .notifyOne t next =>
    if s.handOff.get t = some .notifying then
      ({ s with handOff := s.handOff.delete t }.notifyOne next).map fun s => (s, [])
    else none
  | s, .start =>
    if s.running then none else some ({ s with running := true, starts := s.starts + 1 }, [])
  | s, .clearShutdown =>
    if s.starts = 0 then none
    else some ({ s with shutdown := false, starts := s.starts - 1 }, [])
  | s, .stop =>
    if s.running then some ({ s with running := false, stops := s.stops ++ [.halted] }, [])
    else none
  | s, .flushCut =>
    let (s, below, es) := s.cutOrder
    some ({ s with flushes := s.flushes ++ [below] }, es)
  | s, .flushCollect below =>
    if below ∈ s.flushes then
      some ({ s with flushes := s.flushes.erase below }.collectBefore below)
    else none
  | s, .drop w next =>
    match s.workers[w]? with
    | some ⟨phase, true⟩ => s.dropWorker w next phase
    | _ => none
  | s, i@(.raiseShutdown k) | s, i@(.stopCut k) | s, i@(.stopCollect k) | s, i@(.notifyWaiters k)
  | s, i@(.takeSlot k) | s, i@(.joinTimeout k) | s, i@(.joined k) =>
    s.stops[k]?.bind fun phase => s.stepStop k phase i
  | s, i@(.wake w) | s, i@(.rouse w _) | s, i@(.look w) | s, i@(.check w) | s, i@(.pop w)
  | s, i@(.take w) | s, i@(.finish w) | s, i@(.rest w) | s, i@(.leave w) =>
    (s.phase? w).bind fun phase => s.stepWorker w phase i

end TtsSynthesis

end NodeWebrtc.Speech
