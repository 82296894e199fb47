import Mathlib.Logic.Function.Basic
import NodeWebrtc.Lib.Machine
import NodeWebrtc.Vendors.MistralSession

/-! # The realtime transcriber's provider

The provider claims a session for each utterance, queues its commands and hands out a ticket for
each finalize. Answers are released in request order, and output of a later utterance is held
until the finalizes before it are answered.

A run goes from one `start` to the next `stop`. The provider's calls come one after another; the
session tasks run between their steps. Each output carries the utterance and the session it is of,
which nothing reads.
-/

namespace NodeWebrtc.Vendors.Mistral

/-! ## The shared state -/

structure Output where
  utterance : Nat
  session : Nat
  item : Item
deriving DecidableEq, Repr

inductive Entry where
  | output (o : Output)
  | finalizeDone (ticket : Nat)
deriving DecidableEq, Repr

def Entry.isTranscript : Entry → Bool
  | .output o => o.item.isTranscript
  | .finalizeDone _ => false

structure Slot where
  id : Nat
  answer : Option (List Output)
deriving DecidableEq, Repr

structure State where
  queue : List Entry
  /-- Output of a later utterance that must not overtake an unanswered finalize. -/
  held : List (Nat × Output)
  tickets : List Slot
  lastTicket : Nat
  spare : Option Nat
  nextGeneration : Nat
deriving DecidableEq, Repr

namespace State

/-- `after < blocking()`: every finalize up to `after` is answered. -/
def unblocked (tickets : List Slot) (after : Nat) : Bool :=
  match tickets with
  | [] => true
  | slot :: _ => after < slot.id

def emit (s : State) (after : Nat) (o : Output) : State :=
  if unblocked s.tickets after then { s with queue := s.queue ++ [.output o] }
  else { s with held := s.held ++ [(after, o)] }

/-- The answered slots at the front, as they are queued, and the slots left. -/
def release : List Slot → List Entry × List Slot
  | [] => ([], [])
  | slot :: slots =>
    match slot.answer with
    | none => ([], slot :: slots)
    | some items =>
      (items.map .output ++ .finalizeDone slot.id :: (release slots).1, (release slots).2)

/-- Releases answered finalizes in request order, then the held output they unblocked. -/
def flush (s : State) : State :=
  let tickets := (release s.tickets).2
  let free := s.held.filter fun h => unblocked tickets h.1
  { s with
    queue := s.queue ++ (release s.tickets).1 ++ (free.map Prod.snd).map .output
    held := s.held.filter fun h => !unblocked tickets h.1
    tickets := tickets }

def registerTicket (s : State) : State :=
  { s with
    lastTicket := s.lastTicket + 1
    tickets := s.tickets ++ [⟨s.lastTicket + 1, none⟩] }

/-- The first slot with the id is given the answer. -/
def setAnswer (ticket : Nat) (items : List Output) : List Slot → Option (List Slot)
  | [] => none
  | slot :: slots =>
    if slot.id = ticket then some ({ slot with answer := some items } :: slots)
    else (setAnswer ticket items slots).map (slot :: ·)

def answer (s : State) (ticket : Nat) (items : List Output) : State :=
  match setAnswer ticket items s.tickets with
  | none => s
  | some tickets => { s with tickets := tickets }.flush

end State

/-! ## The provider -/

inductive Call where
  | idle
  /-- `claim_session`, and the rounds already made. -/
  | claiming (pcm : List UInt8) (rounds : Nat)
  | sending (pcm : List UInt8)
  /-- `ensure_spare` in `wait_ready`, about to look. -/
  | sparing
  | storing
deriving DecidableEq, Repr

/-- `polled` is what `poll_output` and `poll_transcript` have taken off the queue. -/
structure MistralStt where
  state : State
  polled : List Entry
  sessions : Nat → Session
  current : Option Nat
  call : Call

inductive SttInput where
  | pushAudio (pcm : List UInt8)
  | claimSession
  | sendAudio
  | requestFinalize
  | waitReady
  | lookForSpare
  | storeSpare
  /-- One item taken by `poll_output` or by `poll_transcript`. -/
  | poll
  | discardQueuedTranscripts
  | task (generation : Nat) (event : TaskEvent)
  | taskLooksForSpare (generation : Nat)
  | taskStoresSpare (generation : Nat)
deriving DecidableEq, Repr

namespace MistralStt

def started : MistralStt :=
  ⟨⟨[], [], [], 0, some 1, 1⟩, [], fun _ => .new, none, .idle⟩

def setSession (p : MistralStt) (generation : Nat) (s : Session) : MistralStt :=
  { p with sessions := Function.update p.sessions generation s }

/-- `spawn_session`; the new session has the last generation. -/
def spawnSession (p : MistralStt) : MistralStt :=
  { p with
    state := { p.state with nextGeneration := p.state.nextGeneration + 1 }
    sessions := Function.update p.sessions (p.state.nextGeneration + 1) .new }

def isClosed (p : MistralStt) : Option Nat → Bool
  | none => true
  | some generation => (p.sessions generation).closed

/-- The end of `ensure_spare`: a spare that was stored meanwhile is dropped. -/
def spawnSpare (p : MistralStt) : MistralStt :=
  let p := p.spawnSession
  { p with state := { p.state with spare := some p.state.nextGeneration } }

def claimRound (p : MistralStt) (pcm : List UInt8) (rounds : Nat) : MistralStt :=
  let (p, generation) :=
    match p.state.spare with
    | some generation => ({ p with state := { p.state with spare := none } }, generation)
    | none => (p.spawnSession, p.state.nextGeneration + 1)
  match (p.sessions generation).queue (.claim p.state.lastTicket) with
  | (s, true) =>
    { p.setSession generation { s with adopted := some p.state.lastTicket } with
      current := some generation
      call := .sending pcm }
  | (_, false) => { p with call := if rounds = 0 then .claiming pcm 1 else .idle }

/-- What an effect of a task adds: its outputs, as they are produced. -/
def outputs (generation : Nat) (s : Session) : Effect → List Output
  | .emit _ item => [⟨s.run.own.after + 1, generation, item⟩]
  | .answer _ items => items.map fun item => ⟨s.run.own.after + 1, generation, item⟩

def applyEffect (generation : Nat) (s : Session) (state : State) : Effect → State
  | .emit after item => state.emit after ⟨s.run.own.after + 1, generation, item⟩
  | .answer ticket items =>
    state.answer ticket (items.map fun item => ⟨s.run.own.after + 1, generation, item⟩)

/-- One step; the outputs are those a task produced in it. -/
def step (p : MistralStt) : SttInput → Option (MistralStt × List Output)
  | .pushAudio pcm =>
    if p.call = .idle then
      if p.isClosed p.current then
        some ({ p with
          current := none
          call := .claiming pcm 0 }, [])
      else some ({ p with call := .sending pcm }, [])
    else none
  | .claimSession =>
    match p.call with
    | .claiming pcm rounds => some (p.claimRound pcm rounds, [])
    | _ => none
  | .sendAudio =>
    match p.call, p.current with
    | .sending pcm, some generation =>
      some ({ p.setSession generation ((p.sessions generation).queue (.audio pcm)).1 with
        call := .idle }, [])
    | _, _ => none
  | .requestFinalize =>
    if p.call = .idle then
      let ticket := p.state.lastTicket + 1
      let registered := { p with
        state := p.state.registerTicket
        current := none }
      match p.current.map fun generation =>
          (generation, (p.sessions generation).queue (.endOf ticket)) with
      | some (generation, s, true) => some (registered.setSession generation s, [])
      | _ => some ({ registered with state := registered.state.answer ticket [] }, [])
    else none
  | .waitReady =>
    if p.call = .idle then
      some ({ p with
        call := if p.isClosed p.current && p.isClosed p.state.spare then .sparing else .idle }, [])
    else none
  | .lookForSpare =>
    if p.call = .sparing then
      some ({ p with call := if p.isClosed p.state.spare then .storing else .idle }, [])
    else none
  | .storeSpare =>
    if p.call = .storing then some ({ p.spawnSpare with call := .idle }, []) else none
  | .poll =>
    match p.state.queue with
    | [] => some (p, [])
    | entry :: queue => some ({ p with
        state := { p.state with queue := queue }
        polled := p.polled ++ [entry] }, [])
  | .discardQueuedTranscripts => some ({ p with state := { p.state with
      queue := p.state.queue.filter fun entry => !entry.isTranscript
      held := p.state.held.filter fun h => !h.2.item.isTranscript } }, [])
  | .task generation event =>
    if 1 ≤ generation ∧ generation ≤ p.state.nextGeneration ∧
        (event = .disconnected →
          p.current ≠ some generation ∧ p.state.spare ≠ some generation) then
      ((p.sessions generation).step event).map fun done =>
        ({ p.setSession generation done.1 with
          state := done.2.foldl (applyEffect generation done.1) p.state },
        done.2.flatMap (outputs generation done.1))
    else none
  | .taskLooksForSpare generation =>
    if (p.sessions generation).phase = .sparing then
      some (p.setSession generation
        (if p.isClosed p.state.spare then { p.sessions generation with phase := .storing }
          else (p.sessions generation).finish), [])
    else none
  | .taskStoresSpare generation =>
    if (p.sessions generation).phase = .storing then
      some ((p.setSession generation (p.sessions generation).finish).spawnSpare, [])
    else none

/-- All that was put on the output queue and not discarded, in order. -/
def log (p : MistralStt) : List Entry := p.polled ++ p.state.queue

end MistralStt

end NodeWebrtc.Vendors.Mistral
