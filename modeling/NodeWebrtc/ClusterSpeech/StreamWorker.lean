import NodeWebrtc.Lib.Machine

/-! # The cluster STT stream worker

`stream_worker` takes audio and finalize commands from a channel and sends them on Transcribe
streams it opens and reopens. A finalize is pending from its send until the server answers it;
with one stream per utterance, what arrives behind a pending finalize is carried to the next
stream and replayed there. One step is one turn of a `select!` loop, of the replay loop or of an
open attempt; each send on the request side may find the stream gone.
-/

namespace NodeWebrtc.ClusterSpeech

open Machine

/-- `StreamCommand`. A finalize has the number it got when the channel took it, in place of its
waiter. -/
inductive StreamCommand
  | audio (pcm : List UInt8)
  | finalize (ticket : Nat)
  | stop
  deriving DecidableEq, Repr

inductive CarryItem
  | audio (pcm : List UInt8)
  | finalize (ticket : Nat)
  deriving DecidableEq, Repr

inductive SttTranscript
  | partialText (text : String)
  | final (text : String)
  deriving DecidableEq, Repr

/-- What a caller sends: `push_audio`, `request_finalize` and `stop`. -/
inductive ClientCommand
  | audio (pcm : List UInt8)
  | finalize
  | stop
  deriving DecidableEq, Repr

inductive OpenResult
  | opened
  | refused
  | timedOut
  deriving DecidableEq, Repr

inductive ServerAnswer
  | ready
  | transcript (isFinal : Bool) (text : String)
  | finalized
  | relocate
  | error (code message : String)
  | empty
  | endOfStream
  | status (unavailable : Bool)
  deriving DecidableEq, Repr

inductive TranscribeRequest
  | start
  | audio (pcm : List UInt8)
  | finalize (ticket : Nat)
  | stop
  deriving DecidableEq, Repr

inductive Output
  | request (stream : Nat) (msg : TranscribeRequest)
  | idleClosed (stream : Nat)
  | nothingOpen (ticket : Nat)
  | transcript (t : SttTranscript)
  | finalizeDone (ticket : Nat)
  deriving DecidableEq, Repr

inductive OpenReason
  | sessionStart
  | utterance
  | reopen
  deriving DecidableEq, Repr

/-- The stream that is open, and the flags of its loop. -/
structure Stream where
  id : Nat
  ready : Bool
  utteranceOpen : Bool
  audioSinceFinalize : Bool
  deriving DecidableEq, Repr

inductive Phase
  | connecting
  | opening
  | replaying (st : Stream)
  | streaming (st : Stream)
  | idle
  | exited
  deriving DecidableEq, Repr

/-- The worker, its command channel and the flags it shares with its callers. -/
structure Worker where
  perUtterance : Bool
  channel : List StreamCommand
  accepted : Nat
  pending : List Nat
  carry : List CarryItem
  openReason : OpenReason
  streams : Nat
  readySignal : Bool
  openPending : Bool
  queuedBytes : Nat
  phase : Phase
  deriving DecidableEq, Repr

def Worker.spawn (perUtterance : Bool) : Worker :=
  { perUtterance, channel := [], accepted := 0, pending := [], carry := [],
    openReason := .sessionStart, streams := 0, readySignal := false, openPending := true,
    queuedBytes := 0, phase := .connecting }

def CarryItem.tickets : List CarryItem → List Nat
  | [] => []
  | .audio _ :: items => tickets items
  | .finalize ticket :: items => ticket :: tickets items

namespace Worker

/-! ## The channel -/

/-- A caller sends a command; the channel of a worker that has exited takes none. -/
def send (w : Worker) (cmd : ClientCommand) : Worker :=
  if w.phase = .exited then w
  else
    match cmd with
    | .audio pcm =>
      { w with channel := w.channel ++ [.audio pcm], queuedBytes := w.queuedBytes + pcm.length }
    | .finalize =>
      { w with channel := w.channel ++ [.finalize w.accepted], accepted := w.accepted + 1 }
    | .stop => { w with channel := w.channel ++ [.stop] }

/-! ## Leaving a stream -/

/-- The head of `while reopen`, up to the open attempt. -/
def openHead (w : Worker) : Worker :=
  { w with
    phase := .opening
    openPending := true
    readySignal := if w.openReason ≠ .utterance then false else w.readySignal }

/-- `stream_worker` has returned: its channel is dropped and the shared flags are reset. -/
def exit (w : Worker) : Worker :=
  { w with
    phase := .exited, channel := [], queuedBytes := 0, openPending := false, readySignal := false }

inductive LoopEnd
  | ended
  | reopen
  | goIdle
  deriving DecidableEq, Repr

/-- What follows the loop over a stream: the pending finalizes are answered, and the worker
reopens, goes idle, or drains the carry and returns. -/
def afterLoop (w : Worker) (stream : Nat) (how : LoopEnd) : Worker × List Output :=
  let answered := w.pending.map Output.finalizeDone
  let w := { w with pending := [] }
  match how with
  | .reopen => (openHead { w with openReason := .reopen }, answered)
  | .goIdle =>
    if w.carry ≠ [] then
      (openHead { w with openReason := .utterance }, answered ++ [.idleClosed stream])
    else ({ w with phase := .idle }, answered ++ [.idleClosed stream])
  | .ended =>
    (exit { w with carry := [] }, answered ++ (CarryItem.tickets w.carry).map .finalizeDone)

/-! ## Sends -/

/-- `send_audio`: the bytes are no longer queued, sent or not. -/
def releaseQueued (w : Worker) (pcm : List UInt8) : Worker :=
  { w with queuedBytes := w.queuedBytes - min pcm.length w.queuedBytes }

def sendAudio (w : Worker) (st : Stream) (pcm : List UInt8) (ok : Bool) (next : Stream → Phase) :
    Worker × List Output :=
  let st := { st with utteranceOpen := true, audioSinceFinalize := true }
  if ok then ({ w.releaseQueued pcm with phase := next st }, [.request st.id (.audio pcm)])
  else afterLoop (w.releaseQueued pcm) st.id .ended

/-- A finalize goes to the stream; when the send fails it is answered before the others. -/
def sendFinalize (w : Worker) (st : Stream) (ticket : Nat) (ok : Bool) (next : Stream → Phase) :
    Worker × List Output :=
  let st := { st with audioSinceFinalize := false }
  if ok then
    ({ w with pending := w.pending ++ [ticket], phase := next st }, [.request st.id (.finalize ticket)])
  else
    let p := afterLoop w st.id .ended
    (p.1, .finalizeDone ticket :: p.2)

/-! ## The loops -/

def replayItem (w : Worker) (st : Stream) (ok : Bool) : Worker × List Output :=
  match w.carry with
  | [] => ({ w with phase := .streaming st }, [])
  | .audio pcm :: carry => sendAudio { w with carry } st pcm ok .replaying
  | .finalize ticket :: carry => sendFinalize { w with carry } st ticket ok .replaying

def receiveOpen (w : Worker) (st : Stream) (ok : Bool) : Option (Worker × List Output) :=
  match w.channel with
  | [] => none
  | .audio pcm :: channel =>
    let w := { w with channel }
    -- the next utterance goes to its own stream
    if w.perUtterance && !w.pending.isEmpty then
      some ({ w with carry := w.carry ++ [.audio pcm] }, [])
    else some (sendAudio w st pcm ok .streaming)
  | .finalize ticket :: channel =>
    let w := { w with channel }
    -- it ends the audio in the carry
    if !w.carry.isEmpty then some ({ w with carry := w.carry ++ [.finalize ticket] }, [])
    else some (sendFinalize w st ticket ok .streaming)
  | .stop :: channel => some (exit { w with channel }, if ok then [.request st.id .stop] else [])

def receiveIdle (w : Worker) : Option (Worker × List Output) :=
  match w.channel with
  | [] => none
  | .audio pcm :: channel =>
    some (openHead { w with channel, carry := w.carry ++ [.audio pcm], openReason := .utterance }, [])
  | .finalize ticket :: channel =>
    some ({ w with channel }, [.nothingOpen ticket, .finalizeDone ticket])
  | .stop :: channel => some (exit { w with channel }, [])

/-- A stream that broke: with an utterance open the worker ends it with an empty final and
returns, else it reopens. -/
def broken (w : Worker) (st : Stream) : Worker × List Output :=
  if st.utteranceOpen then
    let p := afterLoop w st.id .ended
    (p.1, .transcript (.final "") :: p.2)
  else afterLoop w st.id .reopen

def finalized (w : Worker) (st : Stream) : Worker × List Output :=
  let answered := (w.pending.take 1).map Output.finalizeDone
  let w := { w with pending := w.pending.drop 1 }
  let st := { st with utteranceOpen := false }
  if w.perUtterance && w.pending.isEmpty && (!st.audioSinceFinalize || !w.carry.isEmpty) then
    let p := afterLoop w st.id .goIdle
    (p.1, answered ++ p.2)
  else ({ w with phase := .streaming st }, answered)

def handle (w : Worker) (st : Stream) : ServerAnswer → Worker × List Output
  | .ready =>
    ({ w with openPending := false, readySignal := true, phase := .streaming { st with ready := true } },
      [])
  | .transcript isFinal text =>
    (w, [.transcript (if isFinal then .final text else .partialText text)])
  | .finalized => w.finalized st
  | .relocate => afterLoop w st.id .reopen
  | .error _ _ => w.broken st
  | .empty => (w, [])
  | .endOfStream => afterLoop w st.id (if st.utteranceOpen then .ended else .reopen)
  | .status _ => w.broken st

end Worker

/-- What happens next. `ok` is whether a send on the request side finds the stream open. -/
inductive Input
  | send (cmd : ClientCommand)
  | connected (ok : Bool)
  | transcribe (result : OpenResult)
  | replay (ok : Bool)
  | receive (ok : Bool)
  | answer (a : ServerAnswer)
  | readyTimeout
  | idleTimeout
  deriving DecidableEq, Repr

def Worker.step : Step Worker Input Output := fun w i =>
  match i with
  | .send cmd => some (w.send cmd, [])
  | .connected ok =>
    match w.phase with
    | .connecting => some (if ok then (w.openHead, []) else (w.exit, [.transcript (.final "")]))
    | _ => none
  | .transcribe result =>
    match w.phase with
    | .opening =>
      match result with
      | .opened =>
        some ({ w with
          streams := w.streams + 1
          phase := .replaying ⟨w.streams + 1, false, false, false⟩ },
          [.request (w.streams + 1) .start])
      | .refused | .timedOut => some (w.openHead, [])
    | _ => none
  | .replay ok =>
    match w.phase with
    | .replaying st => some (w.replayItem st ok)
    | _ => none
  | .receive ok =>
    match w.phase with
    | .streaming st => w.receiveOpen st ok
    | .idle => w.receiveIdle
    | _ => none
  | .answer a =>
    match w.phase with
    | .streaming st => some (w.handle st a)
    | _ => none
  | .readyTimeout =>
    match w.phase with
    | .streaming st => if st.ready then none else some (w.afterLoop st.id .ended)
    | _ => none
  | .idleTimeout =>
    match w.phase with
    | .streaming st =>
      if w.perUtterance && st.ready && w.pending.isEmpty then some (w.afterLoop st.id .goIdle)
      else none
    | _ => none

end NodeWebrtc.ClusterSpeech
