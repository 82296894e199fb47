import Mathlib.Data.List.Basic
import NodeWebrtc.Lib.Text

/-! # One session of the realtime transcriber

A session task connects, serves the commands of one utterance from its channel, and writes the
provider's output through `Shared`. A loss before the server said anything about the utterance is
answered by sending it again on a second socket, once.

A step of the task runs to its next wait; the provider and other tasks may run between steps. A
command with its sends is one step: the provider can only add to the channel meanwhile.
-/

namespace NodeWebrtc.Vendors.Mistral

inductive Cmd where
  | claim (after : Nat)
  | audio (pcm : List UInt8)
  | endOf (ticket : Nat)
  | close
deriving DecidableEq, Repr

inductive Item where
  | partialText (text : String)
  | finalText (text : String)
  | failure (message : String)
deriving DecidableEq, Repr

def Item.isTranscript : Item → Bool
  | .failure _ => false
  | _ => true

inductive Effect where
  | emit (after : Nat) (item : Item)
  | answer (ticket : Nat) (items : List Item)
deriving DecidableEq, Repr

/-! ## The socket -/

/-- What a session sends after its `session.update`. -/
inductive WsMessage where
  | append (pcm : List UInt8)
  | endInput
deriving DecidableEq, Repr

/-- `fails` is how many more messages are taken, and how the next send then fails. -/
structure Socket where
  sent : List WsMessage
  fails : Option (Nat × String)
deriving DecidableEq, Repr

def Socket.sendText (ws : Socket) (message : WsMessage) : Socket × Except String Unit :=
  match ws.fails with
  | none => ({ ws with sent := ws.sent ++ [message] }, .ok ())
  | some (0, error) => (ws, .error error)
  | some (left + 1, error) => (⟨ws.sent ++ [message], some (left, error)⟩, .ok ())

def Socket.sendAll (ws : Socket) : List WsMessage → Socket × Except String Unit
  | [] => (ws, .ok ())
  | message :: rest =>
    match ws.sendText message with
    | (ws, .ok ()) => ws.sendAll rest
    | (ws, .error error) => (ws, .error error)

def APPEND_TARGET_BYTES : Nat := 3200

def APPEND_MAX_BYTES : Nat := 262144

/-- `[_]::chunks(APPEND_MAX_BYTES)`; `fuel` is at least the number of bytes. -/
def chunksFrom : Nat → List UInt8 → List (List UInt8)
  | 0, _ => []
  | fuel + 1, bytes =>
    if bytes.isEmpty then []
    else bytes.take APPEND_MAX_BYTES :: chunksFrom fuel (bytes.drop APPEND_MAX_BYTES)

def chunks (bytes : List UInt8) : List (List UInt8) := chunksFrom bytes.length bytes

/-! ## The state of a run -/

structure Local where
  claimed : Bool
  after : Nat
  ticket : Option Nat
deriving DecidableEq, Repr

def Local.apply (own : Local) : Cmd → Local
  | .claim after => { own with
      claimed := true
      after := after }
  | .audio _ => { own with claimed := true }
  | .endOf ticket => { own with ticket := some ticket }
  | .close => own

/-- One utterance's state, kept across a replay on a second socket. The channel is part of it,
and of the deadline only whether it is set. -/
structure Run where
  rx : List Cmd
  own : Local
  buf : List UInt8
  text : String
  deadline : Bool
  rxOpen : Bool
  /-- Every byte sent for this utterance until the first server event that belongs to it. -/
  replay : List UInt8
  eventSeen : Bool
  replayed : Bool
  /-- Commands taken off the channel while deciding on a replay. -/
  pending : List Cmd
deriving DecidableEq, Repr

namespace Run

def new : Run := ⟨[], ⟨false, 0, none⟩, [], "", false, true, [], false, false, []⟩

def drainPending (run : Run) : Run :=
  { run with
    rx := []
    own := run.rx.foldl Local.apply run.own
    pending := run.pending ++ run.rx }

/-- The loop of `flush`; `fuel` is at least the number of buffered bytes. -/
def flushFrom : Nat → Run → Socket → Run × Socket × Except String Unit
  | 0, run, ws => (run, ws, .ok ())
  | fuel + 1, run, ws =>
    if run.buf.isEmpty then (run, ws, .ok ())
    else
      let chunk := run.buf.take APPEND_MAX_BYTES
      let run := { run with
        buf := run.buf.drop APPEND_MAX_BYTES
        replay := if run.eventSeen then run.replay else run.replay ++ chunk }
      match ws.sendText (.append chunk) with
      | (ws, .ok ()) => flushFrom fuel run ws
      | (ws, .error error) => (run, ws, .error error)

def flush (run : Run) (ws : Socket) : Run × Socket × Except String Unit :=
  flushFrom run.buf.length run ws

def restore (run : Run) (ws : Socket) : Run × Socket × Except String Unit :=
  match ws.sendAll ((chunks run.replay).map .append) with
  | (ws, .error error) => (run, ws, .error error)
  | (ws, .ok ()) =>
    if run.own.ticket.isSome then
      match ws.sendText .endInput with
      | (ws, .error error) => (run, ws, .error error)
      | (ws, .ok ()) => ({ run with deadline := true }, ws, .ok ())
    else (run, ws, .ok ())

def command (run : Run) (ws : Socket) : Option Cmd → Run × Socket × Except String Bool
  | none => if run.own.ticket.isSome then ({ run with rxOpen := false }, ws, .ok false)
      else (run, ws, .ok true)
  | some .close => (run, ws, .ok true)
  | some (.audio pcm) =>
    let run := { run with
      own := { run.own with claimed := true }
      buf := run.buf ++ pcm }
    if APPEND_TARGET_BYTES ≤ run.buf.length then
      match run.flush ws with
      | (run, ws, .ok ()) => (run, ws, .ok false)
      | (run, ws, .error error) => (run, ws, .error error)
    else (run, ws, .ok false)
  | some (.endOf ticket) =>
    let run := { run with own := { run.own with ticket := some ticket } }
    match run.flush ws with
    | (run, ws, .error error) => (run, ws, .error error)
    | (run, ws, .ok ()) =>
      match ws.sendText .endInput with
      | (ws, .error error) => (run, ws, .error error)
      | (ws, .ok ()) => ({ run with deadline := true }, ws, .ok false)
  | some (.claim after) => ({ run with own := run.own.apply (.claim after) }, ws, .ok false)

/-- The first server event that belongs to the utterance. -/
def noteEvent (run : Run) : Run :=
  if run.own.claimed && !run.eventSeen then
    { run with
      eventSeen := true
      replay := [] }
  else run

end Run

/-! ## The task -/

inductive ServerEvent where
  | updated
  | delta (text : String)
  | done (text : Option String)
  | error (message : String)
  | other
deriving DecidableEq, Repr

inductive Phase where
  | opening
  | serving
  /-- `die` is about to close the channel; `used` asks for a spare afterwards. -/
  | failing (message : String) (used : Bool)
  | reporting (message : String) (used : Bool)
  | sparing
  | storing
  | finished
deriving DecidableEq, Repr

/-- A session task. `adopted` and `reported` are for statements only: the `Claim` that the channel
took, and that `die` has been through. -/
structure Session where
  run : Run
  phase : Phase
  closed : Bool
  socket : List WsMessage
  adopted : Option Nat
  reported : Bool
deriving DecidableEq, Repr

inductive TaskEvent where
  /-- `open` succeeds; on a second socket the sends of `restore` may fail. -/
  | opened (fails : Option (Nat × String))
  | openFailed (message : String)
  /-- The next pending command, or the next of the channel. -/
  | command (fails : Option (Nat × String))
  /-- The channel is empty and the provider has dropped its end. -/
  | disconnected
  | event (event : ServerEvent)
  | socketEnd (message : String)
  | timer
  | close
  | report
deriving DecidableEq, Repr

def STT_DONE_TIMEOUT_MS : Nat := 8000

def doneTimedOut : String :=
  "mistral stt transcription.done timed out after " ++ toString STT_DONE_TIMEOUT_MS ++ " ms"

namespace Session

def new : Session := ⟨.new, .opening, false, [], none, false⟩

/-- The provider queues a command; `false` when the channel is closed. -/
def queue (s : Session) (cmd : Cmd) : Session × Bool :=
  if s.closed then (s, false)
  else ({ s with run := { s.run with rx := s.run.rx ++ [cmd] } }, true)

/-- The task returns and drops its end of the channel. -/
def finish (s : Session) : Session :=
  { s with
    phase := .finished
    closed := true }

def lost (s : Session) (message : String) : Session :=
  let run := s.run.drainPending
  if !run.own.claimed || run.eventSeen || run.replayed then
    { s with
      run := run
      phase := .failing message false }
  else
    { s with
      run := { run with replayed := true }
      phase := .opening }

def commanded (s : Session) (done : Run × Socket × Except String Bool) : Session :=
  let s := { s with
    run := done.1
    socket := done.2.1.sent }
  match done.2.2 with
  | .ok false => s
  | .ok true => s.finish
  | .error message => s.lost message

def finals (run : Run) (text : Option String) : List Item :=
  let text := Text.trim (text.getD run.text)
  if text.isEmpty then [] else [.finalText text]

def event (s : Session) : ServerEvent → Session × List Effect
  | .updated => ({ s with run := s.run.noteEvent }, [])
  | .delta delta =>
    let run := s.run.noteEvent
    if run.own.claimed then
      let run := { run with text := run.text ++ delta }
      let text := Text.trim run.text
      ({ s with run := run },
        if text.isEmpty then [] else [.emit run.own.after (.partialText text)])
    else ({ s with run := run }, [])
  | .done text =>
    let run := s.run.noteEvent
    match run.own.ticket with
    | none => ({ s with run := run }, [])
    | some ticket =>
      ({ s with
        run := run
        phase := .sparing }, [.answer ticket (finals run text)])
  | .error message =>
    let run := s.run.noteEvent
    ({ s with
      run := run
      phase := .failing message (run.own.claimed || run.own.ticket.isSome) }, [])
  | .other => (s, [])

/-- The channel is closed and drained, first part of `die`. -/
def closeChannel (s : Session) (message : String) (used : Bool) : Session :=
  { s with
    run := { s.run with
      rx := []
      own := s.run.rx.foldl Local.apply s.run.own }
    phase := .reporting message used
    closed := true }

def report (s : Session) (message : String) (used : Bool) : Session × List Effect :=
  ({ s with
    phase := if used then .sparing else .finished
    reported := true },
    match s.run.own.ticket with
    | some ticket => [.answer ticket [.failure message]]
    | none => if s.run.own.claimed then [.emit s.run.own.after (.failure message)] else [])

def step (s : Session) : TaskEvent → Option (Session × List Effect)
  | .opened fails =>
    if s.phase = .opening then
      if s.run.replayed then
        match s.run.restore ⟨[], fails⟩ with
        | (run, ws, .ok ()) => some ({ s with
            run := run
            socket := ws.sent
            phase := .serving }, [])
        | (run, ws, .error message) => some ({ s with
            run := run
            socket := ws.sent
            phase := .failing message false }, [])
      else some ({ s with
        socket := []
        phase := .serving }, [])
    else none
  | .openFailed message =>
    if s.phase = .opening then some ({ s with phase := .failing message false }, []) else none
  | .command fails =>
    if s.phase = .serving then
      match s.run.pending, s.run.rx with
      | cmd :: pending, _ => some (s.commanded
          ({ s.run with pending := pending }.command ⟨s.socket, fails⟩ (some cmd)), [])
      | [], cmd :: rx =>
        if s.run.rxOpen then some (s.commanded
          ({ s.run with rx := rx }.command ⟨s.socket, fails⟩ (some cmd)), [])
        else none
      | [], [] => none
    else none
  | .disconnected =>
    if s.phase = .serving ∧ s.run.pending = [] ∧ s.run.rxOpen ∧ s.run.rx = [] then
      some (s.commanded (s.run.command ⟨s.socket, none⟩ none), [])
    else none
  | .event event => if s.phase = .serving ∧ s.run.pending = [] then some (s.event event) else none
  | .socketEnd message =>
    if s.phase = .serving ∧ s.run.pending = [] then some (s.lost message, []) else none
  | .timer =>
    if s.phase = .serving ∧ s.run.pending = [] ∧ s.run.deadline then
      some ({ s with phase := .failing doneTimedOut false }, [])
    else none
  | .close =>
    match s.phase with
    | .failing message used => some (s.closeChannel message used, [])
    | _ => none
  | .report =>
    match s.phase with
    | .reporting message used => some (s.report message used)
    | _ => none

end Session

end NodeWebrtc.Vendors.Mistral
