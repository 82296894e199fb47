import NodeWebrtc.Lib.Machine
import NodeWebrtc.Lib.Stream

/-! # The host STT hold

A swap of the STT can take seconds. `begin_stt_hold` keeps the audio that would have gone to the
STT in a bounded buffer, which starts with the audio of the open utterance. `release_stt_hold`
hands the buffer to the provider that was swapped in, `cancel_stt_hold` to the old one.

An inbound frame, a ticker check and the loop that ends a hold each run under the step lock. What
they do to the utterance records is not part of this machine: whether a live record exists, or
speech goes on, is an input.
-/

namespace NodeWebrtc.HeldStt

abbrev Pcm := List UInt8

def BYTES_PER_MS : Nat := 32
def SPEECH_REPLAY_MAX_MS : Nat := 15000
def STT_HOLD_DEFAULT_MAX_BUFFER_MS : Nat := 45000
def STT_HOLD_MAX_BUFFER_MS_CAP : Nat := 120000

/-! ## The replay ring of the open utterance -/

/-- The audio between `user_speaking_start` and the end of the utterance. -/
structure UtteranceReplayBuffer where
  maxBytes : Nat
  pcm : Pcm
  overflow : Bool
  active : Bool
deriving DecidableEq, Repr

namespace UtteranceReplayBuffer

def withMaxBytes (maxBytes : Nat) : UtteranceReplayBuffer := ⟨maxBytes, [], false, false⟩

def new : UtteranceReplayBuffer := withMaxBytes (SPEECH_REPLAY_MAX_MS * BYTES_PER_MS)

def beginUtterance (b : UtteranceReplayBuffer) : UtteranceReplayBuffer :=
  { b with pcm := [], overflow := false, active := true }

def endUtterance (b : UtteranceReplayBuffer) : UtteranceReplayBuffer := { b with active := false }

/-- Marks the ring unusable until the next `begin_utterance`. -/
def invalidate (b : UtteranceReplayBuffer) : UtteranceReplayBuffer :=
  { b with pcm := [], overflow := true, active := false }

def push (b : UtteranceReplayBuffer) (chunk : Pcm) : UtteranceReplayBuffer :=
  if !b.active || b.overflow then b
  else if b.pcm.length + chunk.length > b.maxBytes then b.invalidate
  else { b with pcm := b.pcm ++ chunk }

def snapshotPcm (b : UtteranceReplayBuffer) : Option Pcm :=
  if b.overflow || b.pcm.isEmpty then none else some b.pcm

/-- What `begin_stt_hold` copies: the audio of the open utterance. -/
def seed (b : UtteranceReplayBuffer) : Option Pcm := if b.active then b.snapshotPcm else none

end UtteranceReplayBuffer

/-! ## The hold -/

inductive SttHoldMode where
  | bufferReplay
  | firstUtterance
deriving DecidableEq, Repr

structure BeginSttHoldOptions where
  mode : SttHoldMode
  maxBufferMs : Option Nat
deriving DecidableEq, Repr

def resolvedHoldMaxBufferMs (maxBufferMs : Option Nat) : Nat :=
  max 1 (min (maxBufferMs.getD STT_HOLD_DEFAULT_MAX_BUFFER_MS) STT_HOLD_MAX_BUFFER_MS_CAP)

structure SttHold where
  mode : SttHoldMode
  maxBytes : Nat
  pcm : Pcm
  droppedBytes : Nat
  /-- `first_utterance`: the kept utterance has ended. -/
  firstClosed : Bool
  finalizeSeen : Bool
  /-- The generation of the STT actor when the hold began. -/
  genAtBegin : Nat
  everHadAudio : Bool
deriving DecidableEq, Repr

namespace SttHold

/-- Drops the oldest bytes over the bound, whole samples of them. -/
def append (h : SttHold) (chunk : Pcm) : SttHold :=
  let pcm := h.pcm ++ chunk
  let tooLong := pcm.length - h.maxBytes
  let excess := if pcm.length > h.maxBytes then min (tooLong + tooLong % 2) pcm.length else 0
  { h with
    everHadAudio := true
    pcm := pcm.drop excess
    droppedBytes := h.droppedBytes + excess }

def new (mode : SttHoldMode) (maxBufferMs : Nat) (seed : Option Pcm) : SttHold :=
  let hold : SttHold :=
    { mode := mode
      maxBytes := maxBufferMs * BYTES_PER_MS
      pcm := []
      droppedBytes := 0
      firstClosed := false
      finalizeSeen := false
      genAtBegin := 0
      everHadAudio := false }
  match seed with
  | some seed => hold.append seed
  | none => hold

def push (h : SttHold) (chunk : Pcm) : SttHold :=
  if h.mode = .firstUtterance ∧ h.firstClosed then
    { h with droppedBytes := h.droppedBytes + chunk.length }
  else h.append chunk

def noteFinalize (h : SttHold) : SttHold :=
  { h with
    finalizeSeen := true
    firstClosed := h.firstClosed || (h.mode = .firstUtterance && h.everHadAudio) }

/-- The hold without its audio, after `take_pcm`. -/
def taken (h : SttHold) : SttHold := { h with pcm := [] }

end SttHold

/-! ## The audio path of the agent -/

/-- What the agent sends to the STT actor. Whether a swap is applied or refused is decided by
the registry and the new provider's start; it is fixed with the command here. -/
inductive SttCommand where
  | audio (pcm : Pcm)
  | endUtterance
  | swap (accepted : Bool)
  | waitReady
deriving DecidableEq, Repr

/-- Who has the step lock: an inbound frame or a ticker check, or a host call. -/
inductive Caller where
  | inbound
  | host
deriving DecidableEq, Repr

inductive Exit where
  | release
  | cancel
deriving DecidableEq, Repr

/-- The commands sent and the audio handed in up to a moment. No branch reads it. -/
structure Mark where
  commands : List SttCommand
  handed : Pcm
deriving DecidableEq, Repr

/-- Where the host's calls are; the ring is the one the hold began with. -/
inductive HostCall where
  | idle
  | held (ring : UtteranceReplayBuffer) (begun : Mark)
  | releasing (ring : UtteranceReplayBuffer) (begun : Mark)
  | ready (ring : UtteranceReplayBuffer) (begun : Mark)
  | cancelling (ring : UtteranceReplayBuffer) (begun : Mark)
  /-- The loop over the held audio, with `fed_bytes`. -/
  | feeding (exit : Exit) (ring : UtteranceReplayBuffer) (begun locked : Mark) (fedBytes : Nat)
  | ended (exit : Exit) (ring : UtteranceReplayBuffer) (begun locked : Mark) (droppedBytes : Nat)
deriving DecidableEq, Repr

/-- The part of the agent its STT audio goes through. `inHand` is a frame that was routed to the
STT and is not sent yet, `handed` all the audio that was ever meant for the STT. -/
structure Feed where
  sttEnabled : Bool
  sttHold : Option SttHold
  utteranceReplayBuffer : UtteranceReplayBuffer
  utteranceStep : Option Caller
  inHand : Option Pcm
  commands : List SttCommand
  handed : Pcm
  host : HostCall
deriving DecidableEq, Repr

inductive FeedInput where
  /-- An inbound frame or a ticker check takes the step lock. -/
  | enter
  /-- `user_speaking_start`, or the audio before it: the ring begins. -/
  | beginUtterance (atPreRoll : Bool)
  | push (pcm : Pcm)
  | send
  /-- `begin_utterance_close`, with as many chunks of endpoint tail. -/
  | close (live withTail : Bool) (chunks : Nat)
  | leave
  /-- A config waiting to be swapped in is sent to the actor. -/
  | sendSwap (accepted : Bool)
  | beginHold (options : BeginSttHoldOptions) (generation : Nat)
  | release
  | waitReady
  | cancel
  /-- The call that ends the hold takes the step lock. -/
  | lock
  /-- A round of the loop over the held audio; the last one ends the hold. -/
  | feed (live liveOpen : Bool)
deriving DecidableEq, Repr

def tailChunk : Pcm := List.replicate 3200 0

def sendChunks (pcm : Pcm) : List Pcm :=
  Stream.chunks 640 pcm ++
    if (Stream.remainder 640 pcm).isEmpty then [] else [Stream.remainder 640 pcm]

namespace Feed

def new : Feed where
  sttEnabled := true
  sttHold := none
  utteranceReplayBuffer := .new
  utteranceStep := none
  inHand := none
  commands := []
  handed := []
  host := .idle

def sendStt (s : Feed) (cmds : List SttCommand) : Feed := { s with commands := s.commands ++ cmds }

def mark (s : Feed) : Mark := ⟨s.commands, s.handed⟩

/-- An inbound call is at work and has no frame in its hands. -/
def atWork (s : Feed) : Bool := s.utteranceStep = some .inbound ∧ s.inHand = none

/-- The part of `push_stt_audio_bytes` under the state lock. -/
def pushSttAudioBytes (s : Feed) (pcm : Pcm) : Feed :=
  if !s.sttEnabled then s
  else
    match s.sttHold with
    | some hold => { s with sttHold := some (hold.push pcm), handed := s.handed ++ pcm }
    | none =>
      { s with
        utteranceReplayBuffer := s.utteranceReplayBuffer.push pcm
        inHand := some pcm
        handed := s.handed ++ pcm }

/-- One chunk of endpoint tail: into the hold, else into the ring and to the actor. -/
def pushTail (s : Feed) : Feed :=
  match s.sttHold with
  | some hold => { s with sttHold := some (hold.push tailChunk), handed := s.handed ++ tailChunk }
  | none =>
    { s with
      utteranceReplayBuffer := s.utteranceReplayBuffer.push tailChunk
      commands := s.commands ++ [.audio tailChunk]
      handed := s.handed ++ tailChunk }

/-- The loop over the chunks of the endpoint tail. -/
def pushTails : Nat → Feed → Feed
  | 0, s => s
  | n + 1, s => pushTails n s.pushTail

/-- `begin_utterance_close`; the replay snapshot it commits is not part of this machine. -/
def beginUtteranceClose (s : Feed) (live withTail : Bool) (chunks : Nat) : Feed :=
  match s.sttHold with
  | some _ =>
    let s := if withTail then s.pushTails chunks else s
    { s with sttHold := s.sttHold.map SttHold.noteFinalize }
  | none =>
    if !live then s
    else
      let s := if withTail && s.sttEnabled then s.pushTails chunks else s
      { s with
        utteranceReplayBuffer := s.utteranceReplayBuffer.endUtterance
        commands := s.commands ++ [.endUtterance] }

/-- The section of `begin_stt_hold` under the step lock. -/
def beginSttHold (s : Feed) (options : BeginSttHoldOptions) (generation : Nat) : Feed :=
  { s with
    sttHold := some
      { SttHold.new options.mode (resolvedHoldMaxBufferMs options.maxBufferMs)
          s.utteranceReplayBuffer.seed with
        genAtBegin := generation }
    utteranceReplayBuffer := s.utteranceReplayBuffer.invalidate
    host := .held s.utteranceReplayBuffer s.mark }

/-- The last round of the loop: the buffer is empty, the hold ends with the step lock. -/
def endSttHold (s : Feed) (hold : SttHold) (live liveOpen : Bool) (exit : Exit) (fedBytes : Nat) :
    Feed :=
  let s := { s with sttHold := none, utteranceStep := none }
  match exit with
  | .release => if !liveOpen && 0 < fedBytes then s.sendStt [.endUtterance] else s
  | .cancel =>
    if hold.finalizeSeen && !liveOpen && 0 < fedBytes then s.beginUtteranceClose live false 0
    else s

/-- A round of the loop in `release_stt_hold` and `cancel_stt_hold`. -/
def feedRound (s : Feed) (live liveOpen : Bool) : Option Feed :=
  match s.host, s.sttHold with
  | .feeding exit ring begun locked fedBytes, some hold =>
    if hold.pcm.isEmpty then
      some { s.endSttHold hold live liveOpen exit fedBytes with
        host := .ended exit ring begun locked hold.droppedBytes }
    else
      some { s.sendStt ((sendChunks hold.pcm).map .audio) with
        sttHold := some hold.taken
        host := .feeding exit ring begun locked (fedBytes + hold.pcm.length) }
  | _, _ => none

/-- The step lock goes to the call that ends the hold. -/
def lockHost (s : Feed) (exit : Exit) (ring : UtteranceReplayBuffer) (begun : Mark) : Feed :=
  { s with utteranceStep := some .host, host := .feeding exit ring begun s.mark 0 }

/-- The host's calls; the next one starts when the one before has returned. The calls that meet
a hold, or meet none, where they must not are refused. -/
def hostStep (s : Feed) : FeedInput → Option Feed
  | .beginHold options generation =>
    if s.utteranceStep.isSome then none
    else
      match s.host with
      | .idle => some (s.beginSttHold options generation)
      | .held _ _ => some s
      | _ => none
  | .release =>
    match s.host with
    | .idle | .ended _ _ _ _ _ => some s
    | .held ring begun => some { s with host := .releasing ring begun }
    | _ => none
  | .waitReady =>
    match s.host with
    | .releasing ring begun => some { s.sendStt [.waitReady] with host := .ready ring begun }
    | _ => none
  | .cancel =>
    match s.host with
    | .idle | .ended _ _ _ _ _ => some s
    | .held ring begun => some { s with host := .cancelling ring begun }
    | _ => none
  | .lock =>
    if s.utteranceStep.isSome then none
    else
      match s.host with
      | .ready ring begun => some (s.lockHost .release ring begun)
      | .cancelling ring begun => some (s.lockHost .cancel ring begun)
      | _ => none
  | .feed live liveOpen => s.feedRound live liveOpen
  | _ => none

/-- Inbound frames and ticker checks, and the swaps that any caller but a feeding one sends. -/
def apply (s : Feed) : FeedInput → Option Feed
  | .enter => if s.utteranceStep = none then some { s with utteranceStep := some .inbound } else none
  | .beginUtterance atPreRoll =>
    if !s.atWork then none
    else if atPreRoll && s.sttHold.isSome then some s
    else some { s with utteranceReplayBuffer := s.utteranceReplayBuffer.beginUtterance }
  | .push pcm => if s.atWork then some (s.pushSttAudioBytes pcm) else none
  | .send => s.inHand.map fun pcm => { s.sendStt [.audio pcm] with inHand := none }
  | .close live withTail chunks =>
    if s.atWork then some (s.beginUtteranceClose live withTail chunks) else none
  | .leave => if s.atWork then some { s with utteranceStep := none } else none
  | .sendSwap accepted =>
    if s.utteranceStep = some .host ∨ s.inHand.isSome then none
    else some (s.sendStt [.swap accepted])
  | i => s.hostStep i

def step : Machine.Step Feed FeedInput Empty := fun s i => (s.apply i).map fun t => (t, [])

end Feed

end NodeWebrtc.HeldStt
