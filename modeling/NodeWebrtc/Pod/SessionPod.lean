import NodeWebrtc.Lib.InsertMap
import NodeWebrtc.Lib.Machine

/-! # The session pod

A pod keeps one slot for each session: a signaling client in the session's room and the session
host behind it. `ensureSession` prepares a slot, `teardownSession` destroys it, and timers tear
idle slots down. What a pod needs of a session host is a parameter.

A step is a task of the event loop with the microtasks it enables; the awaited calls (connect,
host close, the change hooks) settle in steps of their own, so everything else comes in between.
-/

namespace NodeWebrtc.Pod

open Machine

inductive PeerDisconnectReason where
  | hangup
  | transport
  | other
deriving DecidableEq, Repr

/-- The calls a session host makes to its voice handler, as far as the pod wraps them. -/
inductive PeerHook where
  | onPeerTransportReady
  | onPeerConnected
  | onPeerDisconnected (reason : PeerDisconnectReason)
  | onPeerSignalingLost
deriving DecidableEq, Repr

/-- A session host as a pod sees it: a machine that puts out hook calls. -/
structure HostModel where
  State : Type
  Input : Type
  new : State
  step : Step State Input PeerHook
  peerJoined : String → Input
  disconnectPeer : String → Input
  close : Input
  activeClientCount : State → Nat
  quarantinedCount : State → Nat
  isRecycleRequired : State → Bool

inductive Socket where
  | closed
  | connecting
  | opened
deriving DecidableEq, Repr

structure SessionSlot where
  host : Nat
  signaling : Socket
  pendingEndReason : Option String
  reconnectEnabled : Bool
  reconnectInFlight : Bool
  retries : Nat
deriving DecidableEq, Repr

/-- Where `ensureSession` awaits: `signaling.connect()` or the `created` hook. -/
inductive PreparePhase where
  | connecting
  /-- `timer` is the idle timer that the preparation armed. -/
  | hooking (timer : Option Nat)
deriving DecidableEq, Repr

/-- Where `teardownSessionOnce` awaits: `host.close()` or the `destroyed` hook. -/
inductive TeardownPhase where
  | closing (endReason : Option String)
  | hooking (endReason : Option String)
deriving DecidableEq, Repr

/-- An idle timer: its handle, when it is due and the reason it was armed with. -/
structure IdleTimer where
  handle : Nat
  dueAt : Nat
  endReason : Option String
deriving DecidableEq, Repr

/-- A pending `poll` of `maybeScheduleIdleTeardownAfterLastPeer`. -/
structure IdlePoll where
  sessionId : String
  graceMs : Nat
  deadline : Nat
  dueAt : Nat
deriving DecidableEq, Repr

structure SessionPodOptions where
  teardownIdleSessions : Bool
  rejoinGraceMs : Nat
  neverConnectedRejoinGraceMs : Nat
  preparedSessionJoinGraceMs : Nat
  maxPreparedSessions : Nat

structure SessionPod (H : HostModel) where
  options : SessionPodOptions
  now : Nat
  slots : InsertMap String SessionSlot
  preparingSessions : InsertMap String PreparePhase
  teardownTimers : InsertMap String IdleTimer
  teardownFlights : InsertMap String TeardownPhase
  retiredHosts : InsertMap String Nat
  hosts : List (String × H.State)
  polls : List IdlePoll
  /-- The continuations of `disconnectPeer`, each with its slot's host. -/
  disconnects : List (String × Nat × Option String)
  nextTimer : Nat
  /-- Sessions for which a client connected whose host was then not built. -/
  orphans : List String

/-- How `signaling.connect()` and the building of the host end. -/
inductive ConnectOutcome where
  | rejected
  | opened
  /-- The client is connected; the mix graph or the host throws. -/
  | openedThenThrows
deriving DecidableEq, Repr

inductive PodInput (H : HostModel) where
  | ensureSession (s : String)
  | connectSettled (s : String) (outcome : ConnectOutcome)
  | createdSettled (s : String) (ok : Bool)
  | teardownSession (s : String) (endReason : Option String)
  | hostClosed (s : String) (ok : Bool)
  | destroyedSettled (s : String) (ok : Bool)
  | idleTimer (s : String)
  | poll (k : Nat)
  | clock (ms : Nat)
  /-- The slot's client gets a `peer-joined` message. -/
  | peerJoined (s : String) (peerId : String)
  | host (k : Nat) (i : H.Input)
  | disconnectPeer (s : String) (peerId : String) (endReason : Option String)
  | peerDisconnected (k : Nat)
  | signalingClosed (s : String)
  | reconnectSettled (s : String) (ok : Bool)
  | retryReconnect (s : String)

inductive EnsureOutcome where
  | resolved
  | recycleRequired (quarantined : Nat)
  | capacityFull (activeSlots maxSlots : Nat)
  | failed
deriving DecidableEq, Repr

inductive PodEvent where
  | ensured (s : String) (outcome : EnsureOutcome)
  | created (s : String) (activeSessions : Nat)
  /-- `onSessionChange` is called with `destroyed`. -/
  | destroyed (s : String) (activeSessions : Nat) (endReason : Option String)
  | teardownSettled (s : String) (ok : Bool)
deriving DecidableEq, Repr

namespace SessionPod

variable {H : HostModel}

def new (H : HostModel) (options : SessionPodOptions) : SessionPod H where
  options := options
  now := 0
  slots := .empty
  preparingSessions := .empty
  teardownTimers := .empty
  teardownFlights := .empty
  retiredHosts := .empty
  hosts := []
  polls := []
  disconnects := []
  nextTimer := 0
  orphans := []

def hostState (pod : SessionPod H) (k : Nat) : Option H.State := pod.hosts[k]?.map Prod.snd

def activeClients (pod : SessionPod H) (k : Nat) : Nat :=
  (pod.hostState k).elim 0 H.activeClientCount

def quarantined (pod : SessionPod H) (k : Nat) : Nat :=
  (pod.hostState k).elim 0 H.quarantinedCount

def recycles (pod : SessionPod H) (k : Nat) : Bool :=
  (pod.hostState k).elim false H.isRecycleRequired

def pruneRetiredHosts (pod : SessionPod H) : SessionPod H :=
  { pod with retiredHosts :=
      ⟨pod.retiredHosts.entries.filter fun e => pod.recycles e.2 || 0 < pod.quarantined e.2,
        pod.retiredHosts.nodup_filter _⟩ }

def liveAndRetired (pod : SessionPod H) : List Nat :=
  pod.slots.values.map SessionSlot.host ++ pod.retiredHosts.values

def quarantinedPeerCount (pod : SessionPod H) : Nat :=
  pod.pruneRetiredHosts.liveAndRetired.foldl (fun n k => n + pod.quarantined k) 0

def isRecycleRequired (pod : SessionPod H) : Bool :=
  pod.pruneRetiredHosts.liveAndRetired.any pod.recycles

/-! ## Timers -/

def updateSlot (pod : SessionPod H) (s : String) (f : SessionSlot → SessionSlot) : SessionPod H :=
  match pod.slots.get s with
  | some slot => { pod with slots := pod.slots.set s (f slot) }
  | none => pod

def cancelTeardownTimer (pod : SessionPod H) (s : String) : SessionPod H :=
  { pod with teardownTimers := pod.teardownTimers.delete s }.updateSlot s fun slot =>
    if slot.pendingEndReason = some "never_connected" then { slot with pendingEndReason := none }
    else slot

def maybeScheduleIdleTeardownAfterLastPeer (pod : SessionPod H) (s : String) (graceMs : Nat) :
    SessionPod H :=
  if pod.options.teardownIdleSessions then
    { pod with polls := pod.polls ++ [⟨s, graceMs, pod.now + 15000, pod.now⟩] }
  else pod

def onPeerHook (pod : SessionPod H) (s : String) : PeerHook → SessionPod H
  | .onPeerTransportReady | .onPeerConnected =>
    if pod.options.teardownIdleSessions then pod.cancelTeardownTimer s else pod
  | .onPeerDisconnected reason =>
    pod.maybeScheduleIdleTeardownAfterLastPeer s
      (if reason = .hangup then 0 else pod.options.rejoinGraceMs)
  | .onPeerSignalingLost =>
    pod.maybeScheduleIdleTeardownAfterLastPeer s pod.options.neverConnectedRejoinGraceMs

/-- Host `k` handles `i`; the hooks it calls are those of its own session. -/
def hostHandles (pod : SessionPod H) (k : Nat) (i : H.Input) : Option (SessionPod H) :=
  (pod.hosts[k]?).bind fun h => (H.step h.2 i).map fun r =>
    r.2.foldl (fun pod hook => pod.onPeerHook h.1 hook)
      { pod with hosts := pod.hosts.set k (h.1, r.1) }

/-- The part of `teardownSessionOnce` up to the end of the host, with the flight that the caller
records. -/
def teardownSessionOnce (pod : SessionPod H) (s : String) (slot : SessionSlot)
    (endReason : Option String) : SessionPod H :=
  let resolvedReason := endReason.or slot.pendingEndReason
  let pod := { pod with
    slots := pod.slots.set s { slot with pendingEndReason := none, reconnectEnabled := false }
    teardownFlights := pod.teardownFlights.set s (.closing resolvedReason) }.cancelTeardownTimer s
  (pod.hostHandles slot.host H.close).getD pod

def teardownSession (pod : SessionPod H) (s : String) (endReason : Option String) : SessionPod H :=
  match pod.teardownFlights.get s with
  | some _ => pod.updateSlot s fun slot =>
    { slot with pendingEndReason := slot.pendingEndReason.or endReason }
  | none =>
    match pod.slots.get s with
    | none => pod
    | some slot => pod.teardownSessionOnce s slot endReason

def scheduleIdleTeardown (pod : SessionPod H) (s : String) (endReason : Option String)
    (graceMs : Nat) : SessionPod H :=
  if ¬ pod.options.teardownIdleSessions then pod
  else
    let pod := pod.updateSlot s fun slot =>
      { slot with pendingEndReason := endReason.or slot.pendingEndReason }
    match pod.teardownTimers.get s with
    | some _ => pod
    | none =>
      if graceMs = 0 then pod.teardownSession s endReason
      else { pod with
        teardownTimers :=
          pod.teardownTimers.set s ⟨pod.nextTimer, pod.now + graceMs, endReason⟩
        nextTimer := pod.nextTimer + 1 }

/-! ## Operations -/

/-- `ensureSession`, up to where it first awaits or settles. -/
def ensureSession (pod : SessionPod H) (s : String) : SessionPod H × List PodEvent :=
  if (pod.slots.get s).isSome ∨ (pod.preparingSessions.get s).isSome then
    (pod, [.ensured s .resolved])
  else if pod.isRecycleRequired then
    (pod.pruneRetiredHosts, [.ensured s (.recycleRequired pod.quarantinedPeerCount)])
  else if 0 < pod.options.maxPreparedSessions ∧
      pod.options.maxPreparedSessions < pod.slots.size + (pod.preparingSessions.size + 1) then
    (pod.pruneRetiredHosts,
      [.ensured s (.capacityFull pod.slots.size pod.options.maxPreparedSessions)])
  else
    ({ pod.pruneRetiredHosts with
        preparingSessions := pod.preparingSessions.set s .connecting }, [])

/-- The idle timer of a session, once `prepareSessionSlot` armed it. -/
def armedSince (before after : SessionPod H) (s : String) : Option Nat :=
  if before.nextTimer < after.nextTimer then (after.teardownTimers.get s).map IdleTimer.handle
  else none

/-- The new slot of `prepareSessionSlot`, with its client connected and its host built. -/
def addSlot (pod : SessionPod H) (s : String) : SessionPod H :=
  { pod with
    slots := pod.slots.set s ⟨pod.hosts.length, .opened, none, true, false, 0⟩
    hosts := pod.hosts ++ [(s, H.new)] }

/-- `prepareSessionSlot` after its client connected: the slot is committed. -/
def commitSlot (pod : SessionPod H) (s : String) : SessionPod H × List PodEvent :=
  let scheduled := (pod.addSlot s).scheduleIdleTeardown s (some "never_connected")
    pod.options.preparedSessionJoinGraceMs
  ({ scheduled with
      preparingSessions :=
        pod.preparingSessions.set s (.hooking (armedSince (pod.addSlot s) scheduled s)) },
    [.created s scheduled.slots.size])

def settleEnsure (pod : SessionPod H) (s : String) (outcome : EnsureOutcome) :
    SessionPod H × List PodEvent :=
  ({ pod with preparingSessions := pod.preparingSessions.delete s }, [.ensured s outcome])

/-- `teardownSessionOnce` after the `destroyed` hook. -/
def retireSlot (pod : SessionPod H) (s : String) (slot : SessionSlot) : SessionPod H :=
  { pod with
    retiredHosts :=
      if pod.recycles slot.host ∨ 0 < pod.quarantined slot.host then
        pod.retiredHosts.set s slot.host
      else pod.retiredHosts
    slots := pod.slots.delete s
    teardownFlights := pod.teardownFlights.delete s }

/-- The flight of `s` rejects and its slot is kept. -/
def failTeardown (pod : SessionPod H) (s : String) : SessionPod H :=
  { pod with teardownFlights := pod.teardownFlights.delete s }

/-- `reconnectAgentSignaling`, up to its `connect()`. -/
def reconnectAgentSignaling (slot : SessionSlot) : SessionSlot :=
  if ¬ slot.reconnectEnabled ∨ slot.reconnectInFlight then slot
  else { slot with
    reconnectInFlight := slot.signaling ≠ .opened
    signaling := if slot.signaling = .opened then .opened else .connecting }

def isClient (peerId : String) : Bool := peerId.startsWith "client-"

def step (pod : SessionPod H) : PodInput H → Option (SessionPod H × List PodEvent)
  | .ensureSession s => some (pod.ensureSession s)
  | .connectSettled s outcome =>
    match pod.preparingSessions.get s with
    | some .connecting =>
      match outcome with
      | .rejected => some (pod.settleEnsure s .failed)
      | .opened => some (pod.commitSlot s)
      | .openedThenThrows =>
        some ({ pod with orphans := pod.orphans ++ [s] }.settleEnsure s .failed)
    | _ => none
  | .createdSettled s ok =>
    match pod.preparingSessions.get s with
    | some (.hooking _) => some (pod.settleEnsure s (if ok then .resolved else .failed))
    | _ => none
  | .teardownSession s endReason => some (pod.teardownSession s endReason, [])
  | .hostClosed s ok =>
    match pod.teardownFlights.get s with
    | some (.closing endReason) =>
      if ok then
        some ({ pod with
            teardownFlights := pod.teardownFlights.set s (.hooking endReason) }.updateSlot s
              fun slot => { slot with signaling := .closed },
          [.destroyed s (pod.slots.size - 1) endReason])
      else some (pod.failTeardown s, [.teardownSettled s false])
    | _ => none
  | .destroyedSettled s ok =>
    match pod.teardownFlights.get s, pod.slots.get s with
    | some (.hooking _), some slot =>
      if ok then some (pod.retireSlot s slot, [.teardownSettled s true])
      else some (pod.failTeardown s, [.teardownSettled s false])
    | _, _ => none
  | .idleTimer s =>
    match pod.teardownTimers.get s with
    | some timer =>
      if pod.now < timer.dueAt then none
      else
        let fired := { pod with teardownTimers := pod.teardownTimers.delete s }
        match pod.slots.get s with
        | some slot =>
          if 0 < pod.activeClients slot.host then some (fired, [])
          else some (fired.teardownSession s (slot.pendingEndReason.or timer.endReason), [])
        | none => some (fired, [])
    | none => none
  | .poll k =>
    match pod.polls[k]? with
    | some poll =>
      if pod.now < poll.dueAt then none
      else
        let fired := { pod with polls := pod.polls.eraseIdx k }
        match pod.slots.get poll.sessionId with
        | none => some (fired, [])
        | some slot =>
          if 0 < pod.activeClients slot.host then
            if pod.now < poll.deadline then
              some ({ fired with
                polls := fired.polls ++ [{ poll with dueAt := pod.now + 25 }] }, [])
            else some (fired, [])
          else some (fired.scheduleIdleTeardown poll.sessionId none poll.graceMs, [])
    | none => none
  | .clock ms => some ({ pod with now := pod.now + ms }, [])
  | .peerJoined s peerId =>
    match pod.slots.get s with
    | some slot =>
      if slot.signaling = .opened then
        -- The host's listener was added first.
        (pod.hostHandles slot.host (H.peerJoined peerId)).map fun pod =>
          (if pod.options.teardownIdleSessions ∧ isClient peerId then pod.cancelTeardownTimer s
            else pod, [])
      else none
    | none => none
  | .host k i => (pod.hostHandles k i).map fun pod => (pod, [])
  | .disconnectPeer s peerId endReason =>
    match pod.slots.get s with
    | some slot =>
      (pod.hostHandles slot.host (H.disconnectPeer peerId)).map fun pod =>
        ({ pod with disconnects := pod.disconnects ++ [(s, slot.host, endReason)] }, [])
    | none => some (pod, [])
  | .peerDisconnected k =>
    match pod.disconnects[k]? with
    | some (s, host, endReason) =>
      let pod := { pod with disconnects := pod.disconnects.eraseIdx k }
      if pod.activeClients host = 0 then
        some (pod.scheduleIdleTeardown s endReason pod.options.rejoinGraceMs, [])
      else some (pod, [])
    | none => none
  | .signalingClosed s =>
    match pod.slots.get s with
    | some slot =>
      if slot.signaling = .closed then none
      else some ({ pod with
        slots := pod.slots.set s (reconnectAgentSignaling { slot with signaling := .closed }) },
        [])
    | none => none
  | .reconnectSettled s ok =>
    match pod.slots.get s with
    | some slot =>
      if slot.signaling = .connecting ∧ slot.reconnectInFlight then
        some ({ pod with slots := pod.slots.set s { slot with
          signaling := if ok then .opened else .closed
          reconnectInFlight := false
          retries := if ¬ ok ∧ slot.reconnectEnabled then slot.retries + 1
            else slot.retries } }, [])
      else none
    | none => none
  | .retryReconnect s =>
    match pod.slots.get s with
    | some slot =>
      if slot.retries = 0 then none
      else some ({ pod with
        slots :=
          pod.slots.set s (reconnectAgentSignaling { slot with retries := slot.retries - 1 }) },
        [])
    | none => none

end SessionPod

end NodeWebrtc.Pod
