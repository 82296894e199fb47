import NodeWebrtc.Lib.Text
import NodeWebrtc.Speech.SttActor

/-! # The utterance state machine of the voice agent

Every inbound frame, every result of the STT actor, every ticker check and every host call
runs under the step lock, so one input is one atomic step on the utterance records. The
voice detector, the clock, the backlog of the vendor and the speaker verdict of a final are
inputs. A record's id is drawn together with its key, so events carry the key here.

Audio, language identification, replays and the host STT hold are not part of this machine:
no hold is active, every record is a live one, and `user_speaking_end` does not wait.
-/

namespace NodeWebrtc.VoiceAgent

open SttActor (SttTranscript SttResult SttConfig)

def isBlank (text : String) : Bool := text.toList.all Text.isWhitespace

inductive VadTransition where
  | speechStart
  | speechEnd
deriving DecidableEq, Repr

inductive CloseReason where
  | endOfUtterance
  | listenTimeout
  | finalizeTimeout
  | pcmStall
  | vendorFinal
deriving DecidableEq, Repr

inductive NotFoundReason where
  | noPartial
  | noTranscript
  | emptyFinal
deriving DecidableEq, Repr

inductive SpeechEvent where
  | vadTriggered
  | userSttStart (key : Nat)
  | sttStreamStart (key : Nat)
  | userSpeakingStart (key : Nat)
  | userSpeechPartial (text : String) (key : Nat)
  | sttStreamEnd (reason : CloseReason) (key : Nat)
  | userSttEnd (key : Nat)
  | userSpeakingEnd (key : Nat)
  | userSpeechFinal (text : String) (key : Nat)
  | userSpeechIgnored (key : Nat)
  | userSttNotFound (reason : NotFoundReason) (key : Nat)
  | error (message : String)
  | sttConfigUpdated (config : SttConfig)
deriving DecidableEq, Repr

namespace SpeechEvent

def terminal? : SpeechEvent → Option Nat
  | .userSpeechFinal _ key => some key
  | .userSpeechIgnored key => some key
  | .userSttNotFound _ key => some key
  | _ => none

end SpeechEvent

structure VadConfig where
  enabled : Bool
  gateStt : Bool
  gateSttOpenOnPending : Bool
  sttGateHoldMs : Nat
  sttListenTimeoutMs : Nat
  sttListenBacklogSlackMs : Nat
  sttListenHardTimeoutMs : Nat
  sttOpenWaitMaxMs : Nat
  utteranceFinalizeTimeoutMs : Nat
deriving DecidableEq, Repr

def VadConfig.effectiveSttListenHardTimeoutMs (vad : VadConfig) : Nat :=
  if vad.sttListenHardTimeoutMs > 0 then vad.sttListenHardTimeoutMs else vad.sttListenTimeoutMs * 3

def saturatingMulU32 (a b : Nat) : Nat := min (a * b) (2 ^ 32 - 1)

def gateHoldLongPauseElapsed (holdTotal holdElapsed : Nat) : Bool :=
  holdTotal > 0 && saturatingMulU32 holdElapsed 10 > saturatingMulU32 holdTotal 9

/-! ## Records -/

structure SttUtterance where
  key : Nat
  streamOpen : Bool
  userSttSessionOpen : Bool
  speakingStartEmitted : Bool
  speakingEndEmitted : Bool
  finalEmitted : Bool
  notFoundEmitted : Bool
  terminal : Bool
  partialsEmitted : Bool
  lastPartialText : Option String
  vadTriggered : Bool
  closeReason : CloseReason
deriving DecidableEq, Repr

namespace SttUtterance

def new (key : Nat) : SttUtterance where
  key := key
  streamOpen := false
  userSttSessionOpen := false
  speakingStartEmitted := false
  speakingEndEmitted := false
  finalEmitted := false
  notFoundEmitted := false
  terminal := false
  partialsEmitted := false
  lastPartialText := none
  vadTriggered := false
  closeReason := .endOfUtterance

def markTerminal (r : SttUtterance) : SttUtterance := { r with terminal := true }

def endStream (r : SttUtterance) : SttUtterance :=
  { r with streamOpen := false, userSttSessionOpen := false, vadTriggered := false }

/-- The last partial, as the fallback of a final. -/
def forcedText (r : SttUtterance) : String := r.lastPartialText.getD ""

def hasText (r : SttUtterance) : Bool := !isBlank r.forcedText

/-- The close reasons that end the utterance whatever the vendor says. -/
def forcedReason (r : SttUtterance) : Bool :=
  match r.closeReason with
  | .finalizeTimeout | .pcmStall => true
  | _ => false

def awaitsFinal (r : SttUtterance) : Bool := r.partialsEmitted && !r.finalEmitted

end SttUtterance

/-- The first element that satisfies `p` is changed. -/
def modifyFirst {α : Type} (p : α → Bool) (f : α → α) : List α → List α
  | [] => []
  | x :: xs => if p x then f x :: xs else x :: modifyFirst p f xs

/-! ## The agent -/

/-- The part of `AgentInner` its utterances depend on. `events` is everything put on the
event bus and `commands` the keys of the `EndUtterance` commands sent to the actor. -/
structure Agent where
  config : VadConfig
  hasStt : Bool
  sttEnabled : Bool
  live : Option SttUtterance
  closing : List SttUtterance
  nextUtteranceKey : Nat
  vadSpeaking : Bool
  sttGateHoldMs : Nat
  sttFinalizePending : Bool
  sttEndpointClosingStarted : Bool
  deferUtteranceFinalizeUntilHold : Bool
  utteranceFinalizeDeadlineMs : Nat
  utteranceFinalizeArmedAt : Option Instant
  sttListenDeadlineMs : Nat
  sttListenStartedAt : Option Instant
  sttListenMediaMs : Nat
  sttOpenWaitStartedAt : Option Instant
  events : List SpeechEvent
  commands : List Nat
deriving DecidableEq, Repr

namespace Agent

def new (config : VadConfig) (hasStt : Bool) : Agent where
  config := config
  hasStt := hasStt
  sttEnabled := true
  live := none
  closing := []
  nextUtteranceKey := 1
  vadSpeaking := false
  sttGateHoldMs := 0
  sttFinalizePending := false
  sttEndpointClosingStarted := false
  deferUtteranceFinalizeUntilHold := false
  utteranceFinalizeDeadlineMs := 0
  utteranceFinalizeArmedAt := none
  sttListenDeadlineMs := 0
  sttListenStartedAt := none
  sttListenMediaMs := 0
  sttOpenWaitStartedAt := none
  events := []
  commands := []

def emit (s : Agent) (e : SpeechEvent) : Agent := { s with events := s.events ++ [e] }

def emitIf (s : Agent) (b : Bool) (e : SpeechEvent) : Agent := if b then s.emit e else s

def sendEndUtterance (s : Agent) (key : Nat) : Agent := { s with commands := s.commands ++ [key] }

def sttPipelineActive (s : Agent) : Bool := s.sttEnabled && s.hasStt

/-! ### Records of the agent -/

def openRecord (s : Agent) : Agent :=
  { s with
    live := some (.new s.nextUtteranceKey)
    nextUtteranceKey := s.nextUtteranceKey + 1 }

def ensureLive (s : Agent) : Agent := if s.live.isNone then s.openRecord else s

/-- `stt_record_ref`; `record_ref` as far as records are kept here. -/
def recordRef (s : Agent) (key : Nat) : Option SttUtterance :=
  (s.live.filter fun r => r.key == key).or (s.closing.find? fun r => r.key == key)

def updateRecord (s : Agent) (key : Nat) (f : SttUtterance → SttUtterance) : Agent :=
  if s.live.any fun r => r.key == key then { s with live := s.live.map f }
  else { s with closing := modifyFirst (fun r => r.key == key) f s.closing }

def updateLive (s : Agent) (f : SttUtterance → SttUtterance) : Agent :=
  { s with live := s.live.map f }

def liveKey (s : Agent) : Option Nat := s.live.map SttUtterance.key

def liveFlag (s : Agent) (f : SttUtterance → Bool) : Bool := s.live.any f

/-! ### Timers -/

def clearSttListenTimer (s : Agent) : Agent :=
  { s with
    sttListenDeadlineMs := 0
    sttListenStartedAt := none
    sttListenMediaMs := 0
    sttOpenWaitStartedAt := none }

def disarmUtteranceFinalizeTimer (s : Agent) : Agent :=
  { s with utteranceFinalizeDeadlineMs := 0, utteranceFinalizeArmedAt := none }

def clearUtteranceFinalizeTimer (s : Agent) : Agent :=
  { s.disarmUtteranceFinalizeTimer with deferUtteranceFinalizeUntilHold := false }

/-- C2 applies only after the turn: hold drained and no speech. -/
def c2EndOfTurnReady (s : Agent) : Bool :=
  s.liveFlag SttUtterance.awaitsFinal && !s.deferUtteranceFinalizeUntilHold &&
    s.sttGateHoldMs == 0 && !s.vadSpeaking

def armUtteranceFinalizeTimer (s : Agent) (now : Instant) : Agent :=
  if s.c2EndOfTurnReady then
    { s with
      utteranceFinalizeDeadlineMs := s.config.utteranceFinalizeTimeoutMs
      utteranceFinalizeArmedAt := some now }
  else s.disarmUtteranceFinalizeTimer

def refreshUtteranceFinalizeAfterPartial (s : Agent) (now : Instant) : Agent :=
  if s.c2EndOfTurnReady then s.armUtteranceFinalizeTimer now else s.disarmUtteranceFinalizeTimer

def resetTurnCloseFlags (s : Agent) : Agent :=
  { s with
    sttFinalizePending := false
    sttEndpointClosingStarted := false
    sttGateHoldMs := 0 }.clearSttListenTimer.clearUtteranceFinalizeTimer

/-- The wait for the open is dated from its first check. -/
def noteOpenWait (s : Agent) (now : Instant) : Agent :=
  { s with sttOpenWaitStartedAt := some (s.sttOpenWaitStartedAt.getD now) }

def openWaitRuns (s : Agent) (now : Instant) : Bool :=
  s.sttOpenWaitStartedAt.any fun since =>
    saturatingDurationSince now since < fromMillis s.config.sttOpenWaitMaxMs

/-- Holds C1 back while an open or an older utterance is pending; `true` when C1 must wait. The
listen clock restarts with the hold. -/
def c1HoldForSttOpen (s : Agent) (now : Instant) (openPending : Bool) : Agent × Bool :=
  if !openPending then ({ s with sttOpenWaitStartedAt := none }, false)
  else if s.config.sttOpenWaitMaxMs = 0 then (s, false)
  else if (s.noteOpenWait now).openWaitRuns now then
    ({ s.noteOpenWait now with sttListenStartedAt := some now, sttListenMediaMs := 0 }, true)
  else (s.noteOpenWait now, false)

/-- `pcmIdle` is zero inside `process_inbound_pcm`. -/
def c1ListenExpired (s : Agent) (now : Instant) (backlogMs : Nat) (pcmIdle : Duration) : Bool :=
  match s.sttListenStartedAt with
  | none => false
  | some startedAt =>
    let timeout := s.config.sttListenTimeoutMs
    let hard := s.config.effectiveSttListenHardTimeoutMs
    let slack := s.config.sttListenBacklogSlackMs
    let media := s.sttListenMediaMs
    let wallAtLeast := fun ms => fromMillis ms ≤ saturatingDurationSince now startedAt
    let stopped := fromMillis timeout ≤ pcmIdle
    s.sttListenDeadlineMs != 0 &&
      ((media ≥ hard && wallAtLeast hard) ||
        (media ≥ timeout && wallAtLeast timeout && backlogMs ≤ slack) ||
        (stopped && wallAtLeast hard) ||
        (stopped && !s.vadSpeaking && wallAtLeast timeout && backlogMs ≤ slack))

/-! ### Events of a record -/

def emitUserSpeakingStartIfNeeded (s : Agent) (key : Nat) : Agent :=
  if !s.sttEnabled then s
  else
    match s.recordRef key with
    | none => s
    | some rec =>
      if rec.speakingStartEmitted then s
      else
        (s.updateRecord key fun r => { r with speakingStartEmitted := true }).emit
          (.userSpeakingStart key)

def emitUserSpeakingEndFor (s : Agent) (key : Nat) : Agent :=
  match s.recordRef key with
  | none => s
  | some _ => s.emit (.userSpeakingEnd key)

/-- `speaking_end_emitted` is set, and the event goes out when it was not. -/
def endSpeakingOnce (s : Agent) (key : Nat) : Agent :=
  match s.recordRef key with
  | none => s
  | some rec =>
    if rec.speakingEndEmitted then s
    else
      (s.updateRecord key fun r => { r with speakingEndEmitted := true }).emitUserSpeakingEndFor key

def emitSttStreamStartIfNeeded (s : Agent) : Agent :=
  let s := s.ensureLive
  match s.live with
  | none => s
  | some rec =>
    if rec.streamOpen then s
    else (s.updateLive fun r => { r with streamOpen := true }).emit (.sttStreamStart rec.key)

def emitUserSttStartIfNeeded (s : Agent) : Agent :=
  let s := s.ensureLive
  match s.live with
  | none => s
  | some rec =>
    if rec.userSttSessionOpen then s
    else (s.updateLive fun r => { r with userSttSessionOpen := true }).emit (.userSttStart rec.key)

/-- `emit_utterance_final` for a live record; a mismatch the speaker gate drops goes out as
`user_speech_ignored`, at the same place of the event stream. -/
def emitUtteranceFinal (s : Agent) (key : Nat) (text : String) (dropsMismatch : Bool) : Agent :=
  match s.recordRef key with
  | none => s
  | some rec =>
    if isBlank text then
      if rec.notFoundEmitted then s
      else
        (s.updateRecord key fun r => { r with notFoundEmitted := true }.markTerminal).emit
          (.userSttNotFound .emptyFinal key)
    else
      (s.updateRecord key fun r => { r with finalEmitted := true }.markTerminal).emit
        (if dropsMismatch then .userSpeechIgnored key else .userSpeechFinal text key)

/-! ### Closing a record -/

def closeSttStreamNotFound (s : Agent) : Agent :=
  match s.live with
  | none => s
  | some rec =>
    let s := s.updateLive fun r =>
      (if r.userSttSessionOpen then { r with notFoundEmitted := true }.markTerminal else r).endStream
    let s := s.clearSttListenTimer.clearUtteranceFinalizeTimer
    let s := s.emitIf rec.streamOpen (.sttStreamEnd .listenTimeout rec.key)
    let s := s.emitIf rec.userSttSessionOpen (.userSttNotFound .noPartial rec.key)
    let s := s.emitIf rec.userSttSessionOpen (.userSttEnd rec.key)
    -- While speech goes on the record stays live: its end is emitted at its own close.
    if s.vadSpeaking then s.sendEndUtterance rec.key
    else
      let s := (s.endSpeakingOnce rec.key).sendEndUtterance rec.key
      { s with
        live := none
        closing := s.closing ++ (s.live.map fun r => { r with closeReason := .listenTimeout }).toList }

/-- Moves the live record to `closing` and asks the vendor to finish it. -/
def beginUtteranceClose (s : Agent) (reason : CloseReason) : Agent :=
  let s := s.resetTurnCloseFlags
  match s.live with
  | none => s
  | some rec =>
    { s with
      live := none
      closing := s.closing ++ [{ rec with closeReason := reason }] }.sendEndUtterance rec.key

/-- The `else` branch of `finish_record_close`: a forced close ends the utterance without a
transcript. -/
def finishWithoutFinal (s : Agent) (key : Nat) (inlineLive : Bool) (forced : Bool) : Agent :=
  let s := s.updateRecord key fun r =>
    if forced && !r.finalEmitted then { r with finalEmitted := true } else r
  let s := if inlineLive && (s.recordRef key).any fun r => !r.speakingEndEmitted then
      { s with sttFinalizePending := false, sttEndpointClosingStarted := false }
    else s
  s.endSpeakingOnce key

def finishWithForcedFinal (s : Agent) (key : Nat) (inlineLive dropsMismatch : Bool) (text : String) :
    Agent :=
  let s := s.updateRecord key fun r => { r with finalEmitted := true }
  let s := if inlineLive then
      { s with sttFinalizePending := false, sttEndpointClosingStarted := false }
    else s
  (s.endSpeakingOnce key).emitUtteranceFinal key text dropsMismatch

/-- The end of record `key`: a terminal event is guaranteed here, by the fallback final or
`user_stt_not_found`, unless one is out already. -/
def finishRecordClose (s : Agent) (key : Nat) (inlineLive dropsMismatch : Bool) : Agent :=
  match s.recordRef key with
  | none => s
  | some rec =>
    let noFinal := !rec.finalEmitted
    let needForced := noFinal && rec.partialsEmitted && rec.hasText
    let notFound := noFinal && !rec.hasText &&
      (rec.streamOpen || rec.userSttSessionOpen || rec.forcedReason) && !rec.notFoundEmitted
    let s := s.updateRecord key fun r =>
      (if notFound then { r with notFoundEmitted := true }.markTerminal else r).endStream
    let s := if inlineLive then s.clearSttListenTimer.clearUtteranceFinalizeTimer else s
    let s := s.emitIf rec.streamOpen (.sttStreamEnd rec.closeReason key)
    let s := s.emitIf notFound (.userSttNotFound .noTranscript key)
    let s := s.emitIf rec.userSttSessionOpen (.userSttEnd key)
    if needForced then s.finishWithForcedFinal key inlineLive dropsMismatch rec.forcedText
    else s.finishWithoutFinal key inlineLive rec.forcedReason

/-- C2, by timeout or stall. Without a stream to end the record closes in place and stays live. -/
def forceCloseUtterance (s : Agent) (reason : CloseReason) (dropsMismatch : Bool) : Agent :=
  if s.liveFlag fun r => r.streamOpen && !r.finalEmitted then s.beginUtteranceClose reason
  else
    let s := s.updateLive fun r => { r with closeReason := reason }
    match s.liveKey with
    | none => s
    | some key => s.finishRecordClose key true dropsMismatch

def completePendingUtteranceIfAny (s : Agent) : Agent :=
  if !s.config.gateStt || !s.hasStt then s
  else if s.sttFinalizePending && !s.liveFlag SttUtterance.finalEmitted then
    s.beginUtteranceClose .endOfUtterance
  else s

def startNewLiveRecord (s : Agent) : Agent :=
  { s with
    sttGateHoldMs := 0
    sttFinalizePending := false
    sttEndpointClosingStarted := false }.clearSttListenTimer.clearUtteranceFinalizeTimer.openRecord

/-! ### Results of the STT actor -/

/-- The record a transcript is applied to, and whether it is late. Without a key it belongs
to the oldest utterance still closing, else to the live one. -/
def resolveTranscriptTarget (s : Agent) (key : Option Nat) : Agent × Option Nat :=
  match key with
  | some key =>
    match s.recordRef key with
    | some rec => (s, if rec.terminal then none else some key)
    | none => (s, none)
  | none =>
    match s.closing.head? with
    | some front => (s, if front.terminal then none else some front.key)
    | none => (s.ensureLive, s.ensureLive.liveKey)

def applyPartial (s : Agent) (now : Instant) (key : Nat) (text : String) : Agent :=
  match s.recordRef key with
  | none => s
  | some _ =>
    let isLive := s.liveKey == some key
    let s := s.updateRecord key fun r =>
      { r with partialsEmitted := true, lastPartialText := some text }
    let s := if isLive then s.clearSttListenTimer.refreshUtteranceFinalizeAfterPartial now else s
    (s.emitUserSpeakingStartIfNeeded key).emit (.userSpeechPartial text key)

def endVendorStream (s : Agent) (key : Nat) (isLive : Bool) : Agent :=
  match s.recordRef key with
  | none => s
  | some rec =>
    let s := s.updateRecord key fun r => { r with finalEmitted := true }.endStream
    let s := if isLive then
        { s with
          sttFinalizePending := false
          sttEndpointClosingStarted := false }.clearSttListenTimer.clearUtteranceFinalizeTimer
      else s
    let closes := rec.streamOpen || rec.userSttSessionOpen
    ((s.emitIf closes (.sttStreamEnd .vendorFinal key)).emitIf closes
      (.userSttEnd key)).endSpeakingOnce key

def applyFinal (s : Agent) (key : Nat) (text : String) (dropsMismatch : Bool) : Agent :=
  match s.recordRef key with
  | none => s
  | some _ =>
    let isLive := s.liveKey == some key
    -- An empty leftover while speech goes on is no end of anything.
    if isBlank text && isLive && s.vadSpeaking then s
    else
      ((s.emitUserSpeakingStartIfNeeded key).endVendorStream key isLive).emitUtteranceFinal key
        text dropsMismatch

def applyTranscriptResult (s : Agent) (now : Instant) (key : Option Nat) (t : SttTranscript)
    (dropsMismatch : Bool) : Agent :=
  if !s.sttEnabled then s
  else
    let target := s.resolveTranscriptTarget key
    match target.2 with
    | none => target.1
    | some key =>
      match t with
      | .partialText text => target.1.applyPartial now key text
      | .finalText text => target.1.applyFinal key text dropsMismatch

/-- The vendor answered the `EndUtterance` of `key`, or its wait timed out. A record that is
still live is closed later. -/
def applyFinalizeDone (s : Agent) (key : Nat) (dropsMismatch : Bool) : Agent :=
  if s.closing.any fun r => r.key == key then
    let s := s.finishRecordClose key false dropsMismatch
    { s with closing := s.closing.eraseP fun r => r.key == key }
  else s

def handleSttResult (s : Agent) (now : Instant) (r : SttResult) (dropsMismatch : Bool) : Agent :=
  match r with
  | .transcript key _ t => s.applyTranscriptResult now key t dropsMismatch
  | .finalizeDone key _ _ => s.applyFinalizeDone key dropsMismatch
  | .vendorError _ _ message => s.emitIf s.sttEnabled (.error ("stt: " ++ message))
  | .swapApplied config refused => s.emitIf refused.isNone (.sttConfigUpdated config)
  | .barrierReached => s

/-- `terminal_key_of`, which runs before the step lock: a final without a key may open the
live record it will be applied to. -/
def terminalKeyOf (s : Agent) (r : SttResult) : Agent :=
  match r with
  | .transcript key _ (.finalText _) => (s.resolveTranscriptTarget key).1
  | _ => s

end Agent

/-! ## Inbound frames -/

structure VadReading where
  transitions : List VadTransition
  pendingSpeech : Bool
  speaking : Bool
deriving DecidableEq, Repr

/-- One inbound frame: the detector's reading (`none` when it fails), what the actor's status
shows, and the agent's playback at the two places that ask for it. -/
structure Frame where
  now : Instant
  durationMs : Nat
  vad : Option VadReading
  backlogMs : Nat
  openPending : Bool
  emitsPartials : Bool
  agentSpeakingAtEnd : Bool
  agentSpeakingAtClose : Bool
  dropsMismatch : Bool
deriving DecidableEq, Repr

structure Tick where
  now : Instant
  pcmIdle : Duration
  backlogMs : Nat
  openPending : Bool
  dropsMismatch : Bool
deriving DecidableEq, Repr

namespace Agent

/-- The transitions of the frame; a disabled detector has none. -/
def transitionsOf (s : Agent) (v : VadReading) : List VadTransition :=
  if s.config.enabled then v.transitions else []

def noteFrame (s : Agent) (durationMs : Nat) : Agent :=
  if s.sttListenDeadlineMs > 0 && s.sttListenStartedAt.isSome then
    { s with sttListenMediaMs := s.sttListenMediaMs + durationMs }
  else s

/-- Speech ended: the gate hold starts, or C2 is armed at once. -/
def holdAfterSpeechEnd (s : Agent) (now : Instant) : Agent :=
  if s.config.gateStt && s.sttEnabled then
    let s := { s with sttGateHoldMs := s.config.sttGateHoldMs, sttFinalizePending := true }
    if s.liveFlag SttUtterance.awaitsFinal then
      { s.disarmUtteranceFinalizeTimer with deferUtteranceFinalizeUntilHold := true }
    else s
  else if s.liveFlag SttUtterance.awaitsFinal then s.armUtteranceFinalizeTimer now
  else s

/-- The gate hold runs: speech cancels it or, late in the hold, completes the utterance
(`true`); silence drains it. -/
def runGateHold (s : Agent) (now : Instant) (durationMs : Nat) : Agent × Bool :=
  if s.vadSpeaking && !s.sttEndpointClosingStarted then
    let holdElapsed := s.config.sttGateHoldMs - s.sttGateHoldMs
    if s.sttFinalizePending && !s.liveFlag SttUtterance.finalEmitted &&
        gateHoldLongPauseElapsed s.config.sttGateHoldMs holdElapsed then (s, true)
    else
      ({ s.disarmUtteranceFinalizeTimer with
        sttGateHoldMs := 0
        sttFinalizePending := false
        deferUtteranceFinalizeUntilHold := false }, false)
  else
    let drained := { s with sttGateHoldMs := s.sttGateHoldMs - durationMs }
    if drained.sttGateHoldMs = 0 && s.deferUtteranceFinalizeUntilHold &&
        s.liveFlag SttUtterance.awaitsFinal then
      ({ drained with deferUtteranceFinalizeUntilHold := false }.armUtteranceFinalizeTimer now, false)
    else (drained, false)

/-- The detector's reading and the gate hold; `true` when the previous utterance must be
completed. -/
def vadPass (s : Agent) (f : Frame) (v : VadReading) : Agent × Bool :=
  let s := { s with vadSpeaking := s.config.enabled && v.speaking }
  if (s.transitionsOf v).contains .speechEnd then (s.holdAfterSpeechEnd f.now, false)
  else if s.sttGateHoldMs > 0 && !(s.transitionsOf v).contains .speechStart then
    s.runGateHold f.now f.durationMs
  else (s, false)

/-- The C1 part of a timeout check; C1 also waits for older utterances still closing. -/
def c1Check (s : Agent) (now : Instant) (backlogMs : Nat) (openPending : Bool)
    (pcmIdle : Duration) : Agent × Bool :=
  let held := s.c1HoldForSttOpen now (openPending || !s.closing.isEmpty)
  if held.2 then (held.1, false) else (held.1, held.1.c1ListenExpired now backlogMs pcmIdle)

/-- The C2 part, which counts the audio of the frame. -/
def c2CountDown (s : Agent) (durationMs : Nat) : Agent × Bool :=
  if s.utteranceFinalizeDeadlineMs > 0 && !s.deferUtteranceFinalizeUntilHold &&
      !s.vadSpeaking && s.sttGateHoldMs == 0 then
    let left := s.utteranceFinalizeDeadlineMs - durationMs
    ({ s with utteranceFinalizeDeadlineMs := left }, left == 0)
  else (s, false)

def c1Awaits (s : Agent) : Bool := s.liveFlag fun r => r.streamOpen && !r.partialsEmitted

def frameC1 (s : Agent) (f : Frame) : Agent × Bool :=
  if !s.config.enabled || !s.sttPipelineActive then (s, false)
  else if s.c1Awaits && s.sttListenStartedAt.isSome then s.c1Check f.now f.backlogMs f.openPending 0
  else (s, false)

def frameC2 (s : Agent) (f : Frame) : Agent × Bool :=
  if !s.config.enabled || !s.sttPipelineActive then (s, false) else s.c2CountDown f.durationMs

/-- The record new speech belongs to: a new one, or after a brief gap the same one. -/
def speechRecord (s : Agent) (longPause : Bool) : Agent :=
  if longPause || s.live.isNone || s.liveFlag SttUtterance.finalEmitted then s.startNewLiveRecord
  else
    { s.disarmUtteranceFinalizeTimer with
      sttGateHoldMs := 0
      sttFinalizePending := false
      sttEndpointClosingStarted := false
      deferUtteranceFinalizeUntilHold := false }

def beginSpeech (s : Agent) : Agent :=
  let holdElapsed := s.config.sttGateHoldMs - s.sttGateHoldMs
  let longPause := !s.config.gateStt || s.sttEndpointClosingStarted ||
    (s.config.sttGateHoldMs > 0 && holdElapsed > s.config.sttGateHoldMs / 2)
  (if longPause then s.completePendingUtteranceIfAny else s).speechRecord longPause

/-- The record part of `on_vad_speech_start`; its barge-in does not touch the records. -/
def onVadSpeechStart (s : Agent) (f : Frame) : Agent :=
  let s := s.emit .vadTriggered
  let hasStt := s.sttPipelineActive
  let s := if hasStt then s.emitUserSttStartIfNeeded.emitSttStreamStartIfNeeded else s
  let s := s.ensureLive.updateLive fun r => { r with vadTriggered := true }
  if s.liveFlag SttUtterance.partialsEmitted then s
  else
    let s := if hasStt && f.emitsPartials then
        { s with
          sttListenDeadlineMs := s.config.sttListenTimeoutMs
          sttListenStartedAt := some f.now
          sttListenMediaMs := 0 }
      else s
    s.clearUtteranceFinalizeTimer

def emitLiveSpeakingStart (s : Agent) : Agent :=
  match s.ensureLive.liveKey with
  | none => s.ensureLive
  | some key => s.ensureLive.emitUserSpeakingStartIfNeeded key

def onVadTransition (s : Agent) (f : Frame) : VadTransition → Agent
  | .speechStart =>
    let s := if s.sttPipelineActive then s else s.openRecord
    (s.onVadSpeechStart f).emitLiveSpeakingStart
  | .speechEnd =>
    if !s.sttEnabled || f.agentSpeakingAtEnd || s.sttPipelineActive || s.config.gateStt then s
    else
      match s.liveKey with
      | none => s
      | some key => s.emitUserSpeakingEndFor key

/-- A pending close that no final completed. -/
def utteranceClosing (s : Agent) : Bool :=
  s.sttFinalizePending && !s.liveFlag SttUtterance.finalEmitted

def shouldFinalizeUtterance (s : Agent) (f : Frame) : Bool :=
  s.config.gateStt && s.utteranceClosing && !f.agentSpeakingAtClose &&
    !s.sttEndpointClosingStarted && s.sttGateHoldMs == 0 && !s.vadSpeaking

/-- Whether the frame goes to the STT at once, and is not held back for the next phrase. -/
def pushesToSttDirectly (s : Agent) (v : VadReading) : Bool :=
  let streamOpen := s.liveFlag SttUtterance.streamOpen
  let pending := s.config.enabled && v.pendingSpeech
  let holding := s.sttGateHoldMs > 0 || s.utteranceClosing
  let holdBack := s.config.gateStt && s.sttPipelineActive && streamOpen && pending &&
    !s.vadSpeaking && !(s.transitionsOf v).contains .speechStart && holding
  let audioOpen := !s.config.enabled || !s.config.gateStt ||
    (streamOpen && (s.vadSpeaking || holding || (s.config.gateSttOpenOnPending && pending)))
  !holdBack && (!s.config.gateStt || audioOpen)

/-- The record part of `push_stt_audio_bytes`: in vendor-endpointed flows the first audio opens
the record. -/
def pushSttAudioBytes (s : Agent) : Agent :=
  if s.sttEnabled && (!s.config.enabled || !s.config.gateStt) then s.ensureLive else s

/-- The frame after its transitions: its audio, then the close of a drained gate. -/
def finishFrame (s : Agent) (f : Frame) (v : VadReading) : Agent :=
  let closes := s.shouldFinalizeUtterance f
  let s := if s.pushesToSttDirectly v then s.pushSttAudioBytes else s
  if closes then s.beginUtteranceClose .endOfUtterance else s

def frameC1Input (s : Agent) (f : Frame) (v : VadReading) : Agent :=
  ((s.noteFrame f.durationMs).vadPass f v).1

def processInboundPcm (s : Agent) (f : Frame) : Agent :=
  match f.vad with
  | none => s.noteFrame f.durationMs
  | some v =>
    let completePrevious := ((s.noteFrame f.durationMs).vadPass f v).2
    let c1 := (s.frameC1Input f v).frameC1 f
    let c2 := c1.1.frameC2 f
    let s := if c1.2 then c2.1.closeSttStreamNotFound else c2.1
    let s := if c2.2 then s.forceCloseUtterance .finalizeTimeout f.dropsMismatch else s
    let s := if completePrevious && s.sttPipelineActive then s.completePendingUtteranceIfAny else s
    let s := if (s.transitionsOf v).contains .speechStart && s.sttPipelineActive then s.beginSpeech
      else s
    let s := (s.transitionsOf v).foldl (fun s t => s.onVadTransition f t) s
    if s.sttEnabled then s.finishFrame f v else s

/-! ## Other inputs -/

def tickC1 (s : Agent) (t : Tick) : Agent × Bool :=
  if !s.config.enabled || !s.sttPipelineActive then (s, false)
  else if s.c1Awaits then s.c1Check t.now t.backlogMs t.openPending t.pcmIdle
  else (s, false)

/-- The safety net of C2: the audio stopped for the whole timeout. -/
def tickC2 (s : Agent) (t : Tick) : Bool :=
  let timeout := fromMillis s.config.utteranceFinalizeTimeoutMs
  s.utteranceFinalizeDeadlineMs != 0 && !s.deferUtteranceFinalizeUntilHold &&
    s.sttGateHoldMs == 0 && !s.vadSpeaking &&
    (s.utteranceFinalizeArmedAt.any fun armedAt =>
      timeout ≤ saturatingDurationSince t.now armedAt) && timeout ≤ t.pcmIdle

def c2WallClockTick (s : Agent) (t : Tick) : Agent :=
  let c1 := s.tickC1 t
  let s := if c1.2 then c1.1.closeSttStreamNotFound else c1.1
  if s.tickC2 t then s.forceCloseUtterance .pcmStall t.dropsMismatch else s

def armSttHoldIfIdle (s : Agent) : Agent :=
  let completed := s.live.all fun r => r.finalEmitted && !r.streamOpen && !r.vadTriggered
  if !s.config.gateStt || s.sttGateHoldMs > 0 || s.vadSpeaking ||
      (completed && !s.sttFinalizePending) then s
  else { s with sttGateHoldMs := s.config.sttGateHoldMs, sttFinalizePending := true }

def resetSttPipelineState (s : Agent) : Agent :=
  { s with
    sttGateHoldMs := 0
    sttFinalizePending := false
    sttEndpointClosingStarted := false
    live := none
    closing := [] }.clearSttListenTimer.clearUtteranceFinalizeTimer

def setSttEnabled (s : Agent) (enabled : Bool) : Agent :=
  let s := { s with sttEnabled := enabled }
  if enabled then s else s.resetSttPipelineState

end Agent

/-- One step: a frame, a ticker check, a look at the next result or its handling, the end of
the agent's playback, or a host call. -/
inductive AgentInput where
  | inbound (f : Frame)
  | tick (t : Tick)
  | peek (r : SttResult)
  | result (now : Instant) (r : SttResult) (dropsMismatch : Bool)
  | playbackEnded
  | setSttEnabled (enabled : Bool)
deriving DecidableEq, Repr

namespace Agent

def apply (s : Agent) : AgentInput → Agent
  | .inbound f => s.processInboundPcm f
  | .tick t => s.c2WallClockTick t
  | .peek r => s.terminalKeyOf r
  | .result now r dropsMismatch => s.handleSttResult now r dropsMismatch
  | .playbackEnded => s.armSttHoldIfIdle
  | .setSttEnabled enabled => s.setSttEnabled enabled

/-- The steps of an agent; what it emits stays in its `events`. -/
def step : Machine.Step Agent AgentInput SpeechEvent := fun s i => some (s.apply i, [])

end Agent

end NodeWebrtc.VoiceAgent
