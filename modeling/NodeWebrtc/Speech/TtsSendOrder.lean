import NodeWebrtc.Lib.Frontier
import NodeWebrtc.Lib.Machine

/-! # The send order of TTS

Each send takes a ticket when it is called and reaches the synthesis queue only on its own
turn. A release gives a turn up, in any order; a cut cancels every ticket issued so far and
takes the reply ids of those that have not reached the queue.

The sends run concurrently. A step is one critical section of the order's lock, or one
operation on its `Notify`; the steps of the sends interleave in any order. The wake-up that
ends a release or a cut is a step of its own, after its critical section.
-/

namespace NodeWebrtc.Speech

open Std

/-! ## The locked state -/

structure OrderState where
  nextTicket : Nat
  /-- Lowest ticket that has neither reached the queue nor released its turn. -/
  nextTurn : Nat
  /-- Tickets above `nextTurn` that already released their turn. -/
  releasedAhead : ExtTreeSet Nat
  cancelBelow : Nat
  /-- Reply ids of tickets that have not reached the queue yet. -/
  pendingReply : ExtTreeMap Nat String

/-- A cut: the reply ids it takes stand with their tickets, in ticket order. -/
structure TtsFlushCut where
  below : Nat
  inFlightReplies : List (Nat × String)
deriving DecidableEq

namespace OrderState

def default : OrderState := ⟨0, 0, ∅, 0, ∅⟩

/-- Takes the next ticket and records the reply id of the send. -/
def reserveWithReply (s : OrderState) (replyId : Option String) : Nat × OrderState :=
  let id := s.nextTicket
  let s := { s with nextTicket := s.nextTicket + 1 }
  match replyId with
  | some reply => (id, { s with pendingReply := s.pendingReply.insert id reply })
  | none => (id, s)

/-- Moves the turn past the tickets that released it ahead. -/
def skipReleased (s : OrderState) : OrderState :=
  let (turn, ahead) := Frontier.advance s.releasedAhead.size s.nextTurn s.releasedAhead
  { s with nextTurn := turn, releasedAhead := ahead }

def release (s : OrderState) (id : Nat) : OrderState :=
  let s := { s with pendingReply := s.pendingReply.erase id }
  if id = s.nextTurn then { s with nextTurn := s.nextTurn + 1 }.skipReleased
  else if id > s.nextTurn then { s with releasedAhead := s.releasedAhead.insert id }
  else s

def cut (s : OrderState) : TtsFlushCut × OrderState :=
  let s := { s with cancelBelow := max s.cancelBelow s.nextTicket }
  let s :=
    if s.nextTurn < s.cancelBelow then
      { s with
        nextTurn := s.cancelBelow
        releasedAhead := s.releasedAhead.filter (s.cancelBelow ≤ ·) }.skipReleased
    else s
  let keep := s.pendingReply.filter fun id _ => s.cancelBelow ≤ id
  let inFlight := (s.pendingReply.filter fun id _ => id < s.cancelBelow).toList
  (⟨s.nextTicket, inFlight⟩, { s with pendingReply := keep })

/-- Claims a ticket for the queue; false when a cut already cancelled it. -/
def claim (s : OrderState) (id : Nat) : Bool × OrderState :=
  if id < s.cancelBelow then (false, s)
  else (true, { s with pendingReply := s.pendingReply.erase id })

end OrderState

/-! ## The sends -/

/-- Where a send is. While it waits for its turn it is registered with the `Notify` from
`enabled` on, and `woken` says whether a wake-up has reached it since. -/
inductive SendPhase where
  | reserved
  | polling
  | enabled (woken : Bool)
  | awaiting (woken : Bool)
  | turn
  | cancelled
  | claimed
  | released
deriving DecidableEq

structure TtsSend where
  replyId : Option String
  phase : SendPhase

/-- The order, the sends by ticket id, and the wake-ups still to come from releases and cuts
that have left the lock. -/
structure TtsSendOrder where
  state : OrderState
  sends : List TtsSend
  notifying : Nat

inductive OrderInput where
  | reserve (replyId : Option String)
  | waitTurn (id : Nat)
  | enable (id : Nat)
  | check (id : Nat)
  | wake (id : Nat)
  | claim (id : Nat)
  /-- The send releases its ticket, or its future or ticket is dropped. -/
  | release (id : Nat)
  | cut
  /-- A release or a cut wakes the registered sends. -/
  | notify

inductive OrderEvent where
  | reserved (id : Nat)
  | turn (id : Nat)
  | cancelled (id : Nat)
  | claimed (id : Nat)
  | claimFailed (id : Nat)
  | released (id : Nat)
  | cut (cut : TtsFlushCut)
deriving DecidableEq

namespace TtsSendOrder

def init : TtsSendOrder := ⟨.default, [], 0⟩

def phase? (o : TtsSendOrder) (id : Nat) : Option SendPhase := o.sends[id]?.map TtsSend.phase

def replyId? (o : TtsSendOrder) (id : Nat) : Option String := o.sends[id]?.bind TtsSend.replyId

def setPhase (o : TtsSendOrder) (id : Nat) (phase : SendPhase) : TtsSendOrder :=
  { o with sends := o.sends.modify id fun send => { send with phase := phase } }

/-- `notify_waiters`: every registered send is woken. -/
def wakePhase : SendPhase → SendPhase
  | .enabled _ => .enabled true
  | .awaiting _ => .awaiting true
  | phase => phase

def notifyWaiters (o : TtsSendOrder) : TtsSendOrder :=
  { o with sends := o.sends.map fun send => { send with phase := wakePhase send.phase } }

def checkTurn (o : TtsSendOrder) (id : Nat) (woken : Bool) : TtsSendOrder × List OrderEvent :=
  if id < o.state.cancelBelow then (o.setPhase id .cancelled, [.cancelled id])
  else if o.state.nextTurn = id then (o.setPhase id .turn, [.turn id])
  else (o.setPhase id (.awaiting woken), [])

def claimTurn (o : TtsSendOrder) (id : Nat) : TtsSendOrder × List OrderEvent :=
  match o.state.claim id with
  | (true, state) => ({ o with state := state }.setPhase id .claimed, [.claimed id])
  | (false, state) => ({ o with state := state }.setPhase id .cancelled, [.claimFailed id])

def step : Machine.Step TtsSendOrder OrderInput OrderEvent
  | o, .reserve replyId =>
    let (id, state) := o.state.reserveWithReply replyId
    some ({ o with state := state, sends := o.sends ++ [⟨replyId, .reserved⟩] }, [.reserved id])
  | o, .waitTurn id =>
    match o.phase? id with
    | some .reserved => some (o.setPhase id .polling, [])
    | _ => none
  | o, .enable id =>
    match o.phase? id with
    | some .polling => some (o.setPhase id (.enabled false), [])
    | _ => none
  | o, .check id =>
    match o.phase? id with
    | some (.enabled woken) => some (o.checkTurn id woken)
    | _ => none
  | o, .wake id =>
    match o.phase? id with
    | some (.awaiting true) => some (o.setPhase id .polling, [])
    | _ => none
  | o, .claim id =>
    match o.phase? id with
    | some .turn => some (o.claimTurn id)
    | _ => none
  | o, .release id =>
    match o.phase? id with
    | some .released | none => none
    | some _ =>
      some ({ o with state := o.state.release id, notifying := o.notifying + 1 }.setPhase id
        .released, [.released id])
  | o, .cut =>
    let (cut, state) := o.state.cut
    some ({ o with state := state, notifying := o.notifying + 1 }, [.cut cut])
  | o, .notify =>
    if o.notifying = 0 then none
    else some ({ o with notifying := o.notifying - 1 }.notifyWaiters, [])

end TtsSendOrder

end NodeWebrtc.Speech
