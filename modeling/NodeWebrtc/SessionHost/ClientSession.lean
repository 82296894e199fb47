import Mathlib.Data.List.Basic

/-! # One client's session on a voice agent host

The session object of a peer connection and the callbacks that hold on to it: state changes of
the connection, the control channel, timers, and the start of the voice agent with its awaits.
The callbacks stay installed when the session is torn down, so they may run on a session that
has ended. What a callback does to the host is handed back: hooks of the voice handler and
operations for the queue of the peer.

The states of a connection are those of the last notification.
-/

namespace NodeWebrtc.SessionHost

inductive PeerDisconnectReason where
  | hangup
  | transport
  | other
deriving DecidableEq, Repr

inductive PeerHook where
  | onPeerTransportReady
  | onPeerConnected
  | onPeerDisconnected (reason : PeerDisconnectReason)
  | onPeerSignalingLost
deriving DecidableEq, Repr

inductive SessionMode where
  | voice
  | voiceData
  | dataOnly
deriving DecidableEq, Repr

inductive IceState where
  | new
  | checking
  | connected
  | completed
  | disconnected
  | failed
  | closed
deriving DecidableEq, Repr

inductive ConnectionState where
  | new
  | connecting
  | connected
  | disconnected
  | failed
  | closed
deriving DecidableEq, Repr

inductive ChannelState where
  | connecting
  | opened
  | closed
deriving DecidableEq, Repr

/-- `VoiceAgentSessionHostOptions`, with the defaults filled in. -/
structure HostOptions where
  sessionMode : SessionMode
  clientPeerIdPrefix : String
  transportDisconnectGraceMs : Nat
  transportReofferAfterMs : Nat
  connectStallTimeoutMs : Nat
  wrapsAudioTracks : Bool
  /-- The cap of the session budget; `0` is unlimited. -/
  maxSessions : Nat

inductive MicTrack where
  | waiting
  | arrived
  | rejected
  /-- The teardown dropped both resolvers: it never settles. -/
  | dropped
deriving DecidableEq, Repr

inductive StartPhase where
  | idle
  | track
  /-- `wrapAudioTracks`; `mixer` is what `ensureClientMixer` gave before. -/
  | wrapping (mixer : Bool)
  | attaching
  | starting
  /-- The stop of an agent whose session went away while it started. -/
  | stopping
  | kicking
  | unwinding
deriving DecidableEq, Repr

structure ClientSession where
  budgetLease : Nat
  agent : Bool
  iceConnectionState : IceState
  connectionState : ConnectionState
  controlChannel : ChannelState
  agentStarted : Bool
  agentStartInProgress : Bool
  peerTransportReadyNotified : Bool
  peerConnectedNotified : Bool
  peerSignalingJoined : Bool
  micTrack : MicTrack
  inboundPromise : Bool
  micTrackTimer : Bool
  transportDisconnectTimer : Bool
  transportReofferTimer : Bool
  connectStallTimer : Bool
  signalingLeft : Bool
  clientHangup : Bool
  closingLocally : Bool
  transportExpired : Bool
  /-- The offer replaces a session after a transport loss. -/
  reoffer : Bool
  startPhase : StartPhase
  /-- A start of the agent completed and no stop was called since. -/
  agentRunning : Bool
deriving DecidableEq, Repr

/-- What a callback asks the queue of the peer to do. -/
inductive SessionOp where
  | voidClose
  /-- The operation of `maybeReofferAfterTransportLoss`. -/
  | reoffer
deriving DecidableEq, Repr

namespace ClientSession

def new (o : HostOptions) (lease : Nat) (reoffer : Bool) : ClientSession where
  budgetLease := lease
  agent := o.sessionMode ≠ .dataOnly
  iceConnectionState := .new
  connectionState := .new
  controlChannel := .connecting
  agentStarted := false
  agentStartInProgress := false
  peerTransportReadyNotified := false
  peerConnectedNotified := false
  peerSignalingJoined := true
  micTrack := .waiting
  inboundPromise := false
  micTrackTimer := false
  transportDisconnectTimer := false
  transportReofferTimer := false
  connectStallTimer := false
  signalingLeft := false
  clientHangup := false
  closingLocally := false
  transportExpired := false
  reoffer := reoffer
  startPhase := .idle
  agentRunning := false

/-! ## Timers -/

/-- `clearTransportDisconnectTimer`, and so `noteTransportRestored` without its log line. -/
def clearTransportDisconnectTimer (c : ClientSession) : ClientSession :=
  { c with transportDisconnectTimer := false, transportReofferTimer := false }

def scheduleTransportDisconnect (o : HostOptions) (c : ClientSession) : ClientSession :=
  if c.transportDisconnectTimer then c
  else { c with
    transportDisconnectTimer := true
    transportReofferTimer := c.transportReofferTimer ||
      (0 < o.transportReofferAfterMs && o.transportReofferAfterMs < o.transportDisconnectGraceMs) }

/-- `armConnectStallTimer`; the bound is the wider one when the session is a replacement. -/
def armConnectStallTimer (o : HostOptions) (c : ClientSession) : ClientSession :=
  if o.connectStallTimeoutMs = 0 ∨ c.connectStallTimer ∨ c.connectionState = .connected then c
  else { c with connectStallTimer := true }

/-! ## Lifecycle -/

def maybeNotifyPeerLifecycle (o : HostOptions) (c : ClientSession) :
    ClientSession × List PeerHook :=
  if c.connectionState ≠ .connected ∨ c.controlChannel ≠ .opened then (c, [])
  else
    let ready := if c.peerTransportReadyNotified then [] else [PeerHook.onPeerTransportReady]
    let c := { c with peerTransportReadyNotified := true }
    if c.peerConnectedNotified ∨ ¬ (o.sessionMode = .dataOnly ∨ c.agentStarted) then (c, ready)
    else ({ c with peerConnectedNotified := true }, ready ++ [.onPeerConnected])

/-- `maybeStartAgentWhenTransportReady` up to the first await of `startAgentSession`, which looks
the session up again. -/
def maybeStartAgentWhenTransportReady (o : HostOptions) (live : Bool) (c : ClientSession) :
    ClientSession :=
  if o.sessionMode = .dataOnly ∨ c.agentStarted ∨ c.agentStartInProgress ∨ ¬ c.agent ∨
      ¬ c.inboundPromise ∨ c.connectionState ≠ .connected ∨ c.controlChannel ≠ .opened then c
  else if live then
    { c with inboundPromise := false, agentStartInProgress := true, startPhase := .track }
  else { c with inboundPromise := false }

end ClientSession

/-! ## Callbacks -/

inductive SessionEvent where
  | oniceconnectionstatechange (state : IceState)
  | onconnectionstatechange (state : ConnectionState)
  | controlOnopen
  | controlOnclose
  /-- A `client_hangup` message on the control channel. -/
  | clientHangup
  | ontrack
  | micTrackTimer
  | transportDisconnectTimer
  | transportReofferTimer
  | connectStallTimer
  /-- The answer of the client could not be applied. -/
  | answerFailed
deriving DecidableEq, Repr

def IceState.down (state : IceState) : Bool :=
  state = .disconnected || state = .failed || state = .closed

def ConnectionState.down (state : ConnectionState) : Bool :=
  state = .disconnected || state = .failed || state = .closed

namespace ClientSession

def onIceState (o : HostOptions) (c : ClientSession) (state : IceState) :
    ClientSession × List SessionOp :=
  let c := { c with iceConnectionState := state }
  match state with
  | .connected | .completed => (c.clearTransportDisconnectTimer.armConnectStallTimer o, [])
  | .disconnected | .failed => (c.scheduleTransportDisconnect o, [])
  | .closed => (c.clearTransportDisconnectTimer, [.voidClose])
  | .new | .checking => (c, [])

def onConnectionState (o : HostOptions) (live : Bool) (c : ClientSession)
    (state : ConnectionState) : ClientSession × List PeerHook × List SessionOp :=
  let c := { c with connectionState := state }
  match state with
  | .connected =>
    let c := { c with connectStallTimer := false }.clearTransportDisconnectTimer
    let notified := c.maybeNotifyPeerLifecycle o
    if o.sessionMode = .dataOnly then (notified.1, notified.2, [])
    else
      ({ notified.1 with micTrackTimer := true, inboundPromise := true }
        |>.maybeStartAgentWhenTransportReady o live, notified.2, [])
  | .disconnected => (c.scheduleTransportDisconnect o, [], [])
  | .failed => ({ c with connectStallTimer := false }.scheduleTransportDisconnect o, [], [])
  | .closed =>
    ({ c with connectStallTimer := false }.clearTransportDisconnectTimer, [], [.voidClose])
  | .new | .connecting => (c, [], [])

def onTransportExpired (live : Bool) (c : ClientSession) : ClientSession × List SessionOp :=
  ({ c with transportDisconnectTimer := false, transportExpired := true },
    if live ∧ (c.iceConnectionState.down ∨ c.connectionState.down) then [.voidClose] else [])

def maybeReofferAfterTransportLoss (live hostClosing : Bool) (c : ClientSession) :
    List SessionOp :=
  if hostClosing ∨ ¬ live ∨ c.clientHangup ∨ c.signalingLeft then []
  else if c.connectionState = .connected ∧
      (c.iceConnectionState = .connected ∨ c.iceConnectionState = .completed) then []
  else [.reoffer]

def onConnectStalled (live hostClosing : Bool) (c : ClientSession) : List SessionOp :=
  if hostClosing ∨ ¬ live ∨ c.closingLocally ∨ c.connectionState = .connected ∨
      c.connectionState = .failed ∨ c.connectionState = .closed then []
  else [.voidClose]

/-- A callback of the session; a timer that is not armed does not fire. -/
def handle (o : HostOptions) (live hostClosing : Bool) (c : ClientSession) :
    SessionEvent → Option (ClientSession × List PeerHook × List SessionOp)
  | .oniceconnectionstatechange state =>
    let handled := c.onIceState o state
    some (handled.1, [], handled.2)
  | .onconnectionstatechange state => some (c.onConnectionState o live state)
  | .controlOnopen =>
    let notified := { c with controlChannel := .opened }.maybeNotifyPeerLifecycle o
    some (notified.1.maybeStartAgentWhenTransportReady o live, notified.2, [])
  | .controlOnclose =>
    let c := { c with controlChannel := .closed }
    if hostClosing ∨ ¬ live ∨ c.closingLocally then some (c, [], [])
    else some ({ c with clientHangup := true }, [], [.voidClose])
  | .clientHangup => some ({ c with clientHangup := true }, [], [.voidClose])
  | .ontrack =>
    some ({ c with
      micTrackTimer := false
      micTrack := if c.micTrack = .waiting then .arrived else c.micTrack }, [], [])
  | .micTrackTimer =>
    if ¬ c.micTrackTimer then none
    else if c.micTrack = .waiting then
      some ({ c with micTrackTimer := false, micTrack := .rejected }, [], [.voidClose])
    else some ({ c with micTrackTimer := false }, [], [])
  | .transportDisconnectTimer =>
    if ¬ c.transportDisconnectTimer then none
    else
      let handled := c.onTransportExpired live
      some (handled.1, [], handled.2)
  | .transportReofferTimer =>
    if ¬ c.transportReofferTimer then none
    else some ({ c with transportReofferTimer := false }, [],
      c.maybeReofferAfterTransportLoss live hostClosing)
  | .connectStallTimer =>
    if ¬ c.connectStallTimer then none
    else some ({ c with connectStallTimer := false }, [], c.onConnectStalled live hostClosing)
  | .answerFailed => some (c, [], [.voidClose])

end ClientSession

/-! ## The start of the agent -/

/-- What the mixer and the clip controller hold for a peer id, each with the session that
created it. -/
structure PeerMix where
  registered : Option Nat
  ttsSidecar : Option Nat
  mixPump : Option Nat
  directOverlay : Option Nat
deriving DecidableEq, Repr

namespace PeerMix

def empty : PeerMix := ⟨none, none, none, none⟩

def registerPeer (mix : PeerMix) (ref : Nat) : PeerMix :=
  { mix with registered := mix.registered.or (some ref) }

/-- `mixer.unregisterPeer`, when there is a mixer, and `audioClips.onPeerDisconnected`. -/
def forget (mix : PeerMix) (clientMixer : Bool) : PeerMix :=
  if clientMixer ∧ mix.registered.isSome then .empty else { mix with directOverlay := none }

/-- The outbound path of the agent: the sidecar and the pump of the mixer, which throws for a peer
that is not registered, or the direct overlay. -/
def wireOutbound (mix : PeerMix) (ref : Nat) (mixer : Bool) : Option PeerMix :=
  if mixer then
    if mix.registered.isSome then
      some { mix with
        ttsSidecar := mix.ttsSidecar.or (some ref)
        mixPump := mix.mixPump.or (some ref) }
    else none
  else some { mix with directOverlay := mix.directOverlay.or (some ref) }

end PeerMix

/-- How `ensureClientMixer` goes when there is no mixer yet. -/
inductive MixerBuild where
  | built
  | unavailable
  | throws
deriving DecidableEq, Repr

/-- What an await of `startAgentSession` ends in. -/
inductive StartEvent where
  | trackSettled (build : MixerBuild)
  | wrapSettled (ok : Bool)
  | attachSettled (ok : Bool)
  | startSettled (ok : Bool)
  | kickSettled (ok : Bool)
  | stopSettled
deriving DecidableEq, Repr

namespace ClientSession

def endStart (c : ClientSession) : ClientSession :=
  { c with startPhase := .idle, agentStartInProgress := false }

/-- From the wrapped tracks to the await of `attach`. -/
def wireAndAttach (c : ClientSession) (ref : Nat) (mixer : Bool) (mix : PeerMix) :
    ClientSession × PeerMix :=
  match mix.wireOutbound ref mixer with
  | none => (c.endStart, mix)
  | some mix => (if c.agent then { c with startPhase := .attaching } else c.endStart, mix)

/-- From the microphone track to the next await; the last part is whether there is a mixer. -/
def afterTrack (o : HostOptions) (live clientMixer : Bool) (c : ClientSession) (ref : Nat)
    (mix : PeerMix) (build : MixerBuild) : ClientSession × PeerMix × Bool :=
  if ¬ live ∨ ¬ c.agent then (c.endStart, mix, clientMixer)
  else if o.sessionMode ≠ .dataOnly ∧ ¬ clientMixer ∧ build = .throws then
    (c.endStart, mix, clientMixer)
  else
    let mixer := o.sessionMode ≠ .dataOnly && (clientMixer || build = .built)
    let mix := if mixer then mix.registerPeer ref else mix
    if o.wrapsAudioTracks then
      ({ c with startPhase := .wrapping mixer }, mix, clientMixer || mixer)
    else
      let wired := c.wireAndAttach ref mixer mix
      (wired.1, wired.2, clientMixer || mixer)

/-- The next step of `startAgentSession` after an await. -/
def resume (o : HostOptions) (live clientMixer : Bool) (c : ClientSession) (ref : Nat)
    (mix : PeerMix) : StartEvent → Option (ClientSession × PeerMix × Bool × List PeerHook)
  | .trackSettled build =>
    if c.startPhase ≠ .track then none
    else
      match c.micTrack with
      | .arrived =>
        let next := c.afterTrack o live clientMixer ref mix build
        some (next.1, next.2.1, next.2.2, [])
      | .rejected => some (c.endStart, mix, clientMixer, [])
      | .waiting | .dropped => none
  | .wrapSettled ok =>
    match c.startPhase with
    | .wrapping mixer =>
      if ok then
        let wired := c.wireAndAttach ref mixer mix
        some (wired.1, wired.2, clientMixer, [])
      else some (c.endStart, mix, clientMixer, [])
    | _ => none
  | .attachSettled ok =>
    if c.startPhase ≠ .attaching then none
    else if ok ∧ c.agent then some ({ c with startPhase := .starting }, mix, clientMixer, [])
    else some (c.endStart, mix, clientMixer, [])
  | .startSettled ok =>
    if c.startPhase ≠ .starting then none
    else if ¬ ok then some (c.endStart, mix, clientMixer, [])
    else if live then
      some ({ c with agentRunning := true, startPhase := .kicking }, mix, clientMixer, [])
    else if c.agent then
      some ({ c with agentRunning := false, startPhase := .stopping }, mix, clientMixer, [])
    else
      -- `session.agent` is gone: the stop throws and so does not happen.
      some ({ c with agentRunning := true }.endStart, mix, clientMixer, [])
  | .kickSettled ok =>
    if c.startPhase ≠ .kicking then none
    else if ok then
      let notified := { c with agentStarted := true }.maybeNotifyPeerLifecycle o
      some (notified.1.endStart, mix, clientMixer, notified.2)
    else if c.agent then
      some ({ c with agentRunning := false, startPhase := .unwinding }, mix, clientMixer, [])
    else some (c.endStart, mix, clientMixer, [])
  | .stopSettled =>
    if c.startPhase = .stopping ∨ c.startPhase = .unwinding then
      some (c.endStart, mix, clientMixer, [])
    else none

end ClientSession

/-! ## What only a teardown changes -/

namespace ClientSession

section Frame

variable (o : HostOptions) (live hostClosing clientMixer : Bool) (c : ClientSession)

@[simp] theorem closingLocally_clearTransportDisconnectTimer :
    c.clearTransportDisconnectTimer.closingLocally = c.closingLocally := rfl

@[simp] theorem closingLocally_scheduleTransportDisconnect :
    (c.scheduleTransportDisconnect o).closingLocally = c.closingLocally := by
  unfold scheduleTransportDisconnect
  split <;> rfl

@[simp] theorem closingLocally_armConnectStallTimer :
    (c.armConnectStallTimer o).closingLocally = c.closingLocally := by
  unfold armConnectStallTimer
  split <;> rfl

@[simp] theorem closingLocally_maybeNotifyPeerLifecycle :
    (c.maybeNotifyPeerLifecycle o).1.closingLocally = c.closingLocally := by
  unfold maybeNotifyPeerLifecycle
  dsimp only
  split
  · rfl
  · split <;> rfl

@[simp] theorem closingLocally_maybeStartAgentWhenTransportReady :
    (c.maybeStartAgentWhenTransportReady o live).closingLocally = c.closingLocally := by
  unfold maybeStartAgentWhenTransportReady
  split
  · rfl
  · split <;> rfl

@[simp] theorem closingLocally_endStart : c.endStart.closingLocally = c.closingLocally := rfl

@[simp] theorem closingLocally_wireAndAttach (ref : Nat) (mixer : Bool) (mix : PeerMix) :
    (c.wireAndAttach ref mixer mix).1.closingLocally = c.closingLocally := by
  unfold wireAndAttach
  split
  · rfl
  · split <;> rfl

@[simp] theorem closingLocally_afterTrack (ref : Nat) (mix : PeerMix) (build : MixerBuild) :
    (c.afterTrack o live clientMixer ref mix build).1.closingLocally = c.closingLocally := by
  unfold afterTrack
  split
  · rfl
  · split
    · rfl
    · split
      · rfl
      · exact closingLocally_wireAndAttach c ref _ _

variable {o live hostClosing clientMixer c}

theorem closingLocally_handle {event : SessionEvent}
    {handled : ClientSession × List PeerHook × List SessionOp}
    (h : c.handle o live hostClosing event = some handled) :
    handled.1.closingLocally = c.closingLocally := by
  cases event with
  | oniceconnectionstatechange state =>
    cases h
    cases state <;> simp [onIceState]
  | onconnectionstatechange state =>
    cases h
    cases state <;> simp only [onConnectionState] <;> (try split) <;> simp
  | controlOnopen =>
    cases h
    simp
  | _ =>
    simp only [handle] at h
    (repeat' split at h) <;> cases h <;> rfl

theorem closingLocally_resume {ref : Nat} {mix : PeerMix} {event : StartEvent}
    {next : ClientSession × PeerMix × Bool × List PeerHook}
    (h : c.resume o live clientMixer ref mix event = some next) :
    next.1.closingLocally = c.closingLocally := by
  cases event <;> simp only [resume] at h <;> (repeat' split at h) <;> cases h <;> simp

end Frame

end ClientSession

end NodeWebrtc.SessionHost
