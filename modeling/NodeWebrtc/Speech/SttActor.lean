import NodeWebrtc.Lib.Machine
import NodeWebrtc.Lib.Word

/-! # The STT actor

One task owns the STT provider of an agent. It takes commands in send order, polls the
provider, and sends results on one channel. The provider is a parameter: what it answers
to a call, what its queries return and what it queues for `poll_output` are inputs of the
step. The provider record also keeps the calls the actor made, in order; no branch of the
actor reads them.

One step is one iteration of the actor's `select!` loop.
-/

namespace NodeWebrtc.SttActor

def STT_REOPEN_BACKOFF_MS : Nat := 2000
def STT_ACTOR_BUSY_WINDOW_MS : Nat := 10000
def STT_LATE_MARKER_GRACE_MS : Nat := 60000

/-! ## The provider -/

inductive SttTranscript where
  | partialText (text : String)
  | finalText (text : String)
deriving DecidableEq, Repr

/-- One item of a provider's output stream. `finalizeDone` is the marker that answers one
`request_finalize`. -/
inductive SttOutput where
  | transcript (t : SttTranscript)
  | finalizeDone
deriving DecidableEq, Repr

inductive FinalizeMode where
  | inlined
  | deferred
deriving DecidableEq, Repr

inductive PollItem where
  | output (o : SttOutput)
  | error (message : String)
deriving DecidableEq, Repr

structure ProviderView where
  finalizeWaitMs : Nat
  streamOpenPending : Bool
  streamAlive : Bool
  decodeBacklogMs : Nat
deriving DecidableEq, Repr

/-- A call the actor made: an accepted `request_finalize`, sent for the utterance `key`, or
an output taken from `poll_output`. -/
inductive ProviderCall where
  | requested (key : Nat)
  | polled (o : SttOutput)
deriving DecidableEq, Repr

structure SttProvider where
  finalizeMode : FinalizeMode
  view : ProviderView
  outputs : List PollItem
  calls : List ProviderCall
deriving DecidableEq, Repr

/-- What the vendor does while the actor waits: new answers, and outputs it queues. -/
structure VendorMove where
  view : ProviderView
  outputs : List PollItem
deriving DecidableEq, Repr

inductive CallResult where
  | ok
  | err (message : String)
  | elapsed
deriving DecidableEq, Repr

/-- The outcome of one awaited call, with the clock once it returned. `transcripts` is what
`push_and_poll` collected, `clears` is a start that drops what the provider still holds. -/
structure VendorReply where
  result : CallResult
  transcripts : List SttTranscript
  clears : Bool
  move : VendorMove
  answeredAt : Instant
deriving DecidableEq, Repr

namespace SttProvider

def create (finalizeMode : FinalizeMode) (view : ProviderView) : SttProvider :=
  ⟨finalizeMode, view, [], []⟩

def moves (p : SttProvider) (m : VendorMove) : SttProvider :=
  { p with view := m.view, outputs := p.outputs ++ m.outputs }

def starts (p : SttProvider) (reply : VendorReply) : SttProvider :=
  { p with
    view := reply.move.view
    outputs := (if reply.clears then [] else p.outputs) ++ reply.move.outputs }

end SttProvider

/-- The loop of `drain_outputs` over `poll_output`: the items up to `Ok(None)` or the first
error, the error, and what stays queued behind it. -/
def pollAll : List PollItem → List SttOutput × Option String × List PollItem
  | [] => ([], none, [])
  | .error message :: rest => ([], some message, rest)
  | .output o :: rest => (o :: (pollAll rest).1, (pollAll rest).2)

/-! ## Commands and results -/

/-- The config of a swap; the actor only hands it on. -/
abbrev SttConfig := String

/-- `Stop` ends the actor and is not part of its runs. -/
inductive SttCommand where
  | start
  | audio
  | endUtterance (key : Nat)
  | swap (config : SttConfig) (running : Bool)
  | waitReady
  | barrier
deriving DecidableEq, Repr

inductive SttResult where
  | transcript (key : Option Nat) (gen : Nat) (t : SttTranscript)
  | finalizeDone (key : Nat) (gen : Nat) (timedOut : Bool)
  | vendorError (key : Option Nat) (gen : Nat) (message : String)
  | swapApplied (config : SttConfig) (refused : Option String)
  | barrierReached
deriving DecidableEq, Repr

namespace SttResult

/-- Results that `test_final_delay_ms` holds back. -/
def holds : SttResult → Bool
  | .transcript _ _ (.finalText _) => true
  | .finalizeDone _ _ _ => true
  | _ => false

end SttResult

/-! ## The actor -/

/-- One `EndUtterance` waiting for the vendor's answer. -/
structure Outstanding where
  key : Nat
  gen : Nat
  requestedAt : Instant
  deadlineBaseMs : Nat
  timedOut : Bool
  timedOutAt : Option Instant
deriving DecidableEq, Repr

structure Actor where
  provider : Option SttProvider
  openWaitMaxMs : Nat
  testFinalDelayMs : Nat
  results : List SttResult
  outstanding : List Outstanding
  inlineLateKey : Option Nat
  gen : Nat
  delayed : List (Instant × SttResult)
  parked : Option SttCommand
  lastWorkAt : Option Instant
  reopenNotBefore : Option Instant
  lastOpenPending : Bool
deriving DecidableEq, Repr

def spawnSttActor (provider : Option (FinalizeMode × ProviderView))
    (openWaitMaxMs testFinalDelayMs : Nat) : Actor where
  provider := provider.map fun p => .create p.1 p.2
  openWaitMaxMs := openWaitMaxMs
  testFinalDelayMs := testFinalDelayMs
  results := []
  outstanding := []
  inlineLateKey := none
  gen := 0
  delayed := []
  parked := none
  lastWorkAt := none
  reopenNotBefore := none
  lastOpenPending := false

namespace Actor

def openPending (a : Actor) : Bool := a.provider.any fun p => p.view.streamOpenPending

def vendorMoves (a : Actor) (m : VendorMove) : Actor :=
  { a with provider := a.provider.map fun p => p.moves m }

def startProvider (a : Actor) (reply : VendorReply) : Actor :=
  { a with provider := a.provider.map fun p => p.starts reply }

def busy (a : Actor) (now : Instant) : Bool :=
  !a.outstanding.isEmpty || a.parked.isSome || !a.delayed.isEmpty ||
    (a.lastWorkAt.any fun at' =>
      saturatingDurationSince now at' < fromMillis STT_ACTOR_BUSY_WINDOW_MS) ||
    a.openPending || (a.provider.any fun p => p.view.decodeBacklogMs > 0)

/-! ### Results -/

def emit (a : Actor) (now : Instant) (r : SttResult) : Actor :=
  if a.testFinalDelayMs = 0 then { a with results := a.results ++ [r] }
  else
    let own := now + fromMillis (if r.holds then a.testFinalDelayMs else 0)
    let due := match a.delayed.getLast? with
      | some (prev, _) => if prev > own then prev else own
      | none => own
    { a with delayed := a.delayed ++ [(due, r)] }

def releaseDue (a : Actor) (now : Instant) : Actor :=
  { a with
    results := a.results ++ (a.delayed.takeWhile fun d => d.1 ≤ now).map Prod.snd
    delayed := a.delayed.dropWhile fun d => d.1 ≤ now }

def frontKeyGen (a : Actor) : Option Nat × Nat :=
  match a.outstanding.head? with
  | some o => (some o.key, o.gen)
  | none => (none, a.gen)

def emitTranscript (a : Actor) (now : Instant) (fallbackKey : Option Nat) (t : SttTranscript) :
    Actor :=
  a.emit now (.transcript (a.frontKeyGen.1.or fallbackKey) a.frontKeyGen.2 t)

def emitVendorError (a : Actor) (now : Instant) (key : Option Nat) (message : String) : Actor :=
  a.emit now (.vendorError key a.gen message)

/-! ### Outputs -/

/-- The marker of the vendor: closes the oldest outstanding finalize, silently when that one
already timed out. -/
def onMarker (a : Actor) (now : Instant) : Actor :=
  match a.outstanding with
  | [] => a
  | done :: rest =>
    if done.timedOut then { a with outstanding := rest }
    else { a with outstanding := rest }.emit now (.finalizeDone done.key done.gen false)

def onOutput (a : Actor) (now : Instant) (fallbackKey : Option Nat) : SttOutput → Actor
  | .transcript t => a.emitTranscript now fallbackKey t
  | .finalizeDone => a.onMarker now

def takePolled (a : Actor) (now : Instant) (items : List SttOutput) (left : List PollItem) : Actor :=
  { a with
    provider := a.provider.map fun p =>
      { p with outputs := left, calls := p.calls ++ items.map .polled }
    lastWorkAt := if items.isEmpty then a.lastWorkAt else some now }

def drainOutputs (a : Actor) (now : Instant) (fallbackKey : Option Nat) : Actor :=
  match pollAll ((a.provider.map SttProvider.outputs).getD []) with
  | (items, error, left) =>
    let drained := items.foldl (fun s o => s.onOutput now fallbackKey o) (a.takePolled now items left)
    match error with
    | some message => drained.emitVendorError now drained.frontKeyGen.1 message
    | none => drained

/-! ### Deadlines -/

def restartWait (now : Instant) (base : Nat) (o : Outstanding) : Outstanding :=
  if o.timedOut then o else { o with requestedAt := now, deadlineBaseMs := base }

/-- Restarts the wait of every waiting finalize when a pending stream open completes. -/
def observeOpenTransition (a : Actor) (now : Instant) : Actor :=
  { a with
    outstanding :=
      match a.provider with
      | some p =>
        if a.lastOpenPending && !a.openPending then
          a.outstanding.map (restartWait now p.view.finalizeWaitMs)
        else a.outstanding
      | none => a.outstanding
    lastOpenPending := a.openPending }

def deadlineOf (a : Actor) (o : Outstanding) : Instant :=
  let base := o.requestedAt + fromMillis o.deadlineBaseMs
  if a.openPending then max base (o.requestedAt + fromMillis a.openWaitMaxMs) else base

def graceExpiryOf (o : Outstanding) : Option Instant :=
  o.timedOutAt.map fun at' => at' + fromMillis STT_LATE_MARKER_GRACE_MS

/-- The deadline the loop sleeps until, read after `observe_open_transition`. -/
def nextDeadline (a : Actor) : Option Instant :=
  let finalize := (a.outstanding.find? fun o => !o.timedOut).map a.deadlineOf
  match finalize, a.outstanding.head?.bind graceExpiryOf with
  | some x, some y => some (min x y)
  | x, y => x.or y

/-- Timed-out front entries whose marker never arrived in the grace are dropped. -/
def dropUnanswered (now : Instant) (q : List Outstanding) : List Outstanding :=
  q.dropWhile fun o => (graceExpiryOf o).any fun at' => at' ≤ now

/-- The loop over the first waiting entry, while its deadline has passed: the queue with those
entries marked, and the entries. -/
def expireWaiting (a : Actor) (now : Instant) :
    List Outstanding → List Outstanding × List Outstanding
  | [] => ([], [])
  | o :: rest =>
    if o.timedOut then (o :: (expireWaiting a now rest).1, (expireWaiting a now rest).2)
    else if a.deadlineOf o > now then (o :: rest, [])
    else
      ({ o with timedOut := true, timedOutAt := some now } :: (expireWaiting a now rest).1,
        o :: (expireWaiting a now rest).2)

def expireDeadlines (a : Actor) (now : Instant) : Actor :=
  let a := a.observeOpenTransition now
  let (marked, expired) := a.expireWaiting now (dropUnanswered now a.outstanding)
  expired.foldl (fun s o => s.emit now (.finalizeDone o.key o.gen true))
    { a with outstanding := marked }

def publishStatus (a : Actor) (now : Instant) : Actor := a.observeOpenTransition now

/-! ### Commands -/

/-- `start_bounded`: a start that takes too long is an error. -/
def startError : CallResult → Option String
  | .ok => none
  | .err message => some message
  | .elapsed => some "stt start timed out"

/-- Whether a stream the vendor closed is opened again before audio goes out. -/
def mustReopen (a : Actor) (now : Instant) : Bool :=
  (a.provider.any fun p => !p.view.streamAlive) && a.outstanding.isEmpty &&
    !(a.reopenNotBefore.any fun at' => at' > now)

/-- A failed reopen blocks the next attempt for a while. -/
def blockReopen (a : Actor) (now : Instant) : Actor :=
  { a with reopenNotBefore := some (now + fromMillis STT_REOPEN_BACKOFF_MS) }

def reopenDeadStream (a : Actor) (now : Instant) (opened : VendorReply) : Actor :=
  if a.mustReopen now then
    let a := (a.drainOutputs now none).startProvider opened
    let a := match startError opened.result with
      | none => { a with reopenNotBefore := none }
      | some message =>
        (a.blockReopen opened.answeredAt).emitVendorError opened.answeredAt none message
    a.publishStatus opened.answeredAt
  else a

/-- Transcripts still queued from an inline finalize are delivered before new audio. -/
def drainInlineLate (a : Actor) (now : Instant) : Actor :=
  match a.inlineLateKey with
  | some key => { a with inlineLateKey := none }.drainOutputs now (some key)
  | none => a

/-- The push itself: `push_and_poll` of an inline provider collects transcripts, a deferred
one is drained afterwards. A push has no timeout. -/
def pushAudio (a : Actor) (pushed : VendorReply) : Actor :=
  match a.provider with
  | none => a
  | some p =>
    let transcripts := match p.finalizeMode with
      | .inlined => pushed.transcripts
      | .deferred => []
    let a := transcripts.foldl (fun s t => s.emitTranscript pushed.answeredAt none t)
      (a.vendorMoves pushed.move)
    let a := match pushed.result with
      | .err message => a.emitVendorError pushed.answeredAt none message
      | .ok | .elapsed => a
    match p.finalizeMode with
    | .inlined => a
    | .deferred => a.drainOutputs pushed.answeredAt none

def noteWork (a : Actor) (now : Instant) : Actor := { a with lastWorkAt := some now }

def onAudio (a : Actor) (now : Instant) (opened pushed : VendorReply) : Actor :=
  (((a.noteWork now).reopenDeadStream now opened).drainInlineLate now).pushAudio pushed

def newEntry (a : Actor) (now : Instant) (key waitMs : Nat) : Outstanding where
  key := key
  gen := a.gen
  requestedAt := now
  deadlineBaseMs := waitMs
  timedOut := false
  timedOutAt := none

def pushEntry (a : Actor) (o : Outstanding) : Actor :=
  { a with outstanding := a.outstanding ++ [o] }

def popBack (a : Actor) : Actor := { a with outstanding := a.outstanding.dropLast }

/-- Takes back the entry just queued and closes its utterance at once. -/
def closeAtOnce (a : Actor) (now : Instant) (key gen : Nat) (timedOut : Bool) : Actor :=
  a.popBack.emit now (.finalizeDone key gen timedOut)

def failAtOnce (a : Actor) (now : Instant) (key gen : Nat) (message : String) : Actor :=
  (a.popBack.emitVendorError now (some key) message).emit now (.finalizeDone key gen false)

/-- The provider accepted a `request_finalize` sent for `key`. -/
def noteRequest (a : Actor) (key : Nat) : Actor :=
  { a with provider := a.provider.map fun p => { p with calls := p.calls ++ [.requested key] } }

def requestFinalize (a : Actor) (now : Instant) (key waitMs : Nat) (reply : VendorReply) : Actor :=
  let entry := a.newEntry now key waitMs
  match reply.result with
  | .ok | .elapsed =>
    (((a.noteRequest key).vendorMoves reply.move).pushEntry entry).drainOutputs
      reply.answeredAt none
  | .err message =>
    ((a.vendorMoves reply.move).pushEntry entry).failAtOnce reply.answeredAt key entry.gen message

def finalizeUtterance (a : Actor) (now : Instant) (key waitMs : Nat) (reply : VendorReply) : Actor :=
  let entry := a.newEntry now key waitMs
  let a := (a.vendorMoves reply.move).pushEntry entry
  let a := match reply.result with
    | .ok => (a.drainOutputs reply.answeredAt none).closeAtOnce reply.answeredAt key entry.gen false
    | .err message => a.failAtOnce reply.answeredAt key entry.gen message
    | .elapsed => a.closeAtOnce reply.answeredAt key entry.gen true
  { a with inlineLateKey := some key }

def onEndUtterance (a : Actor) (now : Instant) (key : Nat) (reply : VendorReply) : Actor :=
  match a.provider with
  | none => (a.noteWork now).emit now (.finalizeDone key a.gen false)
  | some p =>
    match p.finalizeMode with
    | .deferred => (a.noteWork now).requestFinalize now key p.view.finalizeWaitMs reply
    | .inlined => (a.noteWork now).finalizeUtterance now key p.view.finalizeWaitMs reply

def handleCommand (a : Actor) (now : Instant) (opened reply : VendorReply) : SttCommand → Actor
  | .start => a.startProvider reply
  | .audio => a.onAudio now opened reply
  | .endUtterance key => a.onEndUtterance now key reply
  | .waitReady => a.vendorMoves reply.move
  | .swap config running => { a with parked := some (.swap config running) }
  | .barrier => { a with parked := some .barrier }

/-! ### Parked commands -/

/-- What a swap meets: the provider the registry creates, or its error, and the outcome of
its start. -/
structure SwapReply where
  created : Except String (FinalizeMode × ProviderView)
  started : VendorReply

def refuseSwap (a : Actor) (now : Instant) (config : SttConfig) (message : String) : Actor :=
  a.emit now (.swapApplied config (some message))

def applySwap (a : Actor) (now : Instant) (config : SttConfig) (new : SttProvider) : Actor :=
  { a with
    provider := some new
    gen := a.gen + 1
    outstanding := []
    inlineLateKey := none }.emit now (.swapApplied config none)

def runSwap (a : Actor) (config : SttConfig) (running : Bool) (reply : SwapReply) : Actor :=
  let now := reply.started.answeredAt
  match reply.created with
  | .error message => a.refuseSwap now config message
  | .ok (mode, view) =>
    if running then
      match startError reply.started.result with
      | some message => a.refuseSwap now config message
      | none => a.applySwap now config ((SttProvider.create mode view).starts reply.started)
    else a.applySwap now config (.create mode view)

def runParked (a : Actor) (reply : SwapReply) : Actor :=
  if a.outstanding.any fun o => !o.timedOut then a
  else
    match a.parked with
    | some .barrier => { a with parked := none }.emit reply.started.answeredAt .barrierReached
    | some (.swap config running) => { a with parked := none }.runSwap config running reply
    | some _ => { a with parked := none }
    | none => a

end Actor

/-! ## The loop -/

/-- The branch of `select!` that fires, with the clock when it does. -/
inductive Arm where
  | releaseDue (now : Instant)
  | expireDeadlines (now : Instant)
  | command (now : Instant) (cmd : SttCommand) (opened reply : VendorReply)
  | poll (now : Instant)

/-- One iteration of the loop: the clock at its head, what the vendor did before the head and
while the actor slept, the branch that fired, and what a parked swap meets after it. -/
structure Iteration where
  before : VendorMove
  headAt : Instant
  meanwhile : VendorMove
  arm : Arm
  swap : Actor.SwapReply
  doneAt : Instant

namespace Actor

/-- Commands whose audio or finalize must not pick up leftovers of a quiet period. -/
def drainsFirst : SttCommand → Bool
  | .audio => true
  | .endUtterance _ => true
  | _ => false

/-- The branch of the `select!`; `none` when its guard, read at the head, is false. `busy` is
the guard read there. -/
def fire (a : Actor) (hasDeadline busy : Bool) : Arm → Option Actor
  | .releaseDue now => if a.delayed.isEmpty then none else some (a.releaseDue now)
  | .expireDeadlines now => if hasDeadline then some (a.expireDeadlines now) else none
  | .command now cmd opened reply =>
    if a.parked.isSome then none
    else if !busy && a.lastWorkAt.isSome && drainsFirst cmd then
      some ((a.drainOutputs now a.inlineLateKey).handleCommand now opened reply cmd)
    else some (a.handleCommand now opened reply cmd)
  | .poll now => if busy then some (a.drainOutputs now a.inlineLateKey) else none

/-- The head of the loop: `next_deadline` looks for a completed open. -/
def atHead (a : Actor) (it : Iteration) : Actor :=
  (a.vendorMoves it.before).observeOpenTransition it.headAt

def armed (a : Actor) (it : Iteration) : Actor := (a.atHead it).vendorMoves it.meanwhile

def step : Machine.Step Actor Iteration SttResult := fun a it =>
  let head := a.atHead it
  ((a.armed it).fire head.nextDeadline.isSome (head.busy it.headAt) it.arm).map fun fired =>
    ((fired.runParked it.swap).publishStatus it.doneAt, [])

end Actor

end NodeWebrtc.SttActor
