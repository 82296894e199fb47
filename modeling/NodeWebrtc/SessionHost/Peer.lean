import NodeWebrtc.Lib.Machine
import NodeWebrtc.SessionHost.ClientSession

/-! # The operations of one peer id

Connects and closes of a peer id run one after another from a queue. A connect builds a session
and registers it; a close takes the session out of the map at once, calls the hook that ends it
and then waits for the connection and the agent. Every await is a step of its own, so signaling,
callbacks of any session and further operations come in between.
-/

namespace NodeWebrtc.SessionHost

open Machine

inductive PeerOp where
  | join
  | close
  /-- `closeClientInner` while the session is the given one. -/
  | closeIf (ref : Nat)
  /-- The operation of `maybeReofferAfterTransportLoss`. -/
  | reoffer (ref : Nat)
deriving DecidableEq, Repr

inductive ComponentStatus where
  | ok
  | absent
  | failed
  | timedOut
deriving DecidableEq, Repr

def ComponentStatus.isOk (status : ComponentStatus) : Bool := status = .ok || status = .absent

/-- What follows a close in the operation that runs it. -/
inductive AfterClose where
  | done
  | connect (reoffer : Bool)
  /-- The close was that of a registered session whose connect failed. -/
  | connectFailed
deriving DecidableEq, Repr

inductive Running where
  | admitting (reoffer : Bool)
  | addingTrack (lease : Nat) (reoffer : Bool)
  /-- The data channels, the offer and an early answer. -/
  | offering (ref : Nat)
  /-- `teardownPartialConnect` of a session that was not registered. -/
  | dismantling (lease : Nat) (pc agent : Option ComponentStatus)
  /-- The statistics before a close; `agent` is whether there is one to stop. -/
  | readingStats (ref : Nat) (agent : Bool) (next : AfterClose)
  /-- The close of the connection and the stop of the agent. -/
  | stopping (ref : Nat) (pc agent : Option ComponentStatus) (next : AfterClose)
deriving DecidableEq, Repr

structure Peer where
  joined : Bool
  queue : List PeerOp
  running : Option Running
  connecting : Bool
  closing : Bool
  session : Option Nat
  objects : List ClientSession
  mix : PeerMix
deriving DecidableEq, Repr

/-- What `connectClientInner` finds: the host does not connect, the budget is full, or a lease. -/
inductive Admission where
  | skipped
  | full
  | admitted (lease : Nat)
deriving DecidableEq, Repr

structure PeerEnv where
  hostClosing : Bool
  clientMixer : Bool
  admission : Admission

/-- How the synchronous part of `connectClientBuildSession` ends. -/
inductive ConnectBuild where
  | built
  /-- It throws, with or without a connection and an agent. -/
  | throws (pc agent : Bool)
deriving DecidableEq, Repr

inductive PeerInput where
  | peerJoined
  | peerLeft
  | close
  | run
  | connect (build : ConnectBuild)
  | trackAdded (ok : Bool)
  | offered (ok : Bool)
  | statsRead
  | pcClosed (status : ComponentStatus)
  | agentStopped (status : ComponentStatus)
  | finalize
  | session (ref : Nat) (event : SessionEvent)
  | start (ref : Nat) (event : StartEvent)
deriving DecidableEq, Repr

inductive PeerEvent where
  | hook (ref : Nat) (hook : PeerHook)
  | tryAcquire
  | finalized (lease : Nat) (pc agent : ComponentStatus) (hadLiveSession : Bool)
  | mixerBuilt
deriving DecidableEq, Repr

namespace Peer

def peerHooksOf (ref : Nat) (es : List PeerEvent) : List PeerHook :=
  es.filterMap fun
    | .hook r hook => if r = ref then some hook else none
    | _ => none

def idle : Peer := ⟨false, [], none, false, false, none, [], .empty⟩

def enqueue (p : Peer) (ops : List PeerOp) : Peer := { p with queue := p.queue ++ ops }

def setSession (p : Peer) (ref : Nat) (c : ClientSession) : Peer :=
  { p with objects := p.objects.set ref c }

def isLive (p : Peer) (ref : Nat) : Bool := p.session = some ref

def current (p : Peer) : Option (Nat × ClientSession) :=
  p.session.bind fun ref => (p.objects[ref]?).map fun c => (ref, c)

def isActive (p : Peer) : Bool := p.session.isSome || p.closing || p.connecting

/-! ## Close -/

def endHook (c : ClientSession) : List PeerHook :=
  if c.peerTransportReadyNotified then
    [.onPeerDisconnected
      (if c.clientHangup then .hangup else if c.transportExpired then .transport else .other)]
  else if c.peerSignalingJoined then [.onPeerSignalingLost]
  else []

/-- The session object as `closeClientTeardown` leaves it before its first await. -/
def torndown (c : ClientSession) : ClientSession :=
  { c.clearTransportDisconnectTimer with
    closingLocally := true
    micTrackTimer := false
    connectStallTimer := false
    micTrack := if c.micTrack = .waiting then .dropped else c.micTrack
    inboundPromise := false
    agent := false }

/-- The close of the connection and the stop of the agent begin. -/
def stopComponents (p : Peer) (ref : Nat) (c : ClientSession) (agent : Bool) (next : AfterClose) :
    Peer :=
  { p.setSession ref (if agent then { c with agentRunning := false } else c) with
    running := some (.stopping ref none (if agent then none else some .absent) next) }

/-- `closeClientTeardown` of a registered session, up to its first await. -/
def closeClientTeardown (env : PeerEnv) (p : Peer) (ref : Nat) (c : ClientSession)
    (next : AfterClose) : Peer × List PeerEvent :=
  let left := { p.setSession ref (torndown c) with
    session := none
    closing := true
    mix := p.mix.forget env.clientMixer }
  (if c.peerTransportReadyNotified then
      { left with running := some (.readingStats ref c.agent next) }
    else left.stopComponents ref (torndown c) c.agent next,
    (endHook c).map (.hook ref))

def afterClose (p : Peer) : AfterClose → Peer
  | .done => { p with running := none }
  | .connect reoffer => { p with running := some (.admitting reoffer) }
  | .connectFailed => { p with running := none, connecting := false }

def closeClientInner (env : PeerEnv) (p : Peer) (next : AfterClose) : Peer × List PeerEvent :=
  match p.current with
  | none => (p.afterClose next, [])
  | some (ref, c) => p.closeClientTeardown env ref c next

/-! ## Connect -/

def register (o : HostOptions) (p : Peer) (lease : Nat) (reoffer : Bool) : Peer :=
  { p with
    objects := p.objects ++ [.new o lease reoffer]
    session := some p.objects.length
    running := some (.offering p.objects.length) }

def connectClientInner (o : HostOptions) (env : PeerEnv) (p : Peer) (reoffer : Bool)
    (build : ConnectBuild) : Peer × List PeerEvent :=
  match env.admission with
  | .skipped => ({ p with running := none }, [])
  | .full => ({ p with running := none }, [.tryAcquire])
  | .admitted lease =>
    let p := { p with connecting := true }
    match build with
    | .throws pc agent =>
      ({ p with running := some (.dismantling lease (if pc then none else some .ok)
          (if agent then none else some .absent)) }, [.tryAcquire])
    | .built =>
      if o.sessionMode = .dataOnly then (p.register o lease reoffer, [.tryAcquire])
      else ({ p with running := some (.addingTrack lease reoffer) }, [.tryAcquire])

def runOp (env : PeerEnv) (p : Peer) : PeerOp → Peer × List PeerEvent
  | .join =>
    if env.hostClosing then (p, [])
    else
      match p.current with
      | none => ({ p with running := some (.admitting false) }, [])
      | some _ => p.closeClientInner env (.connect false)
  | .close => p.closeClientInner env .done
  | .closeIf ref => if p.isLive ref then p.closeClientInner env .done else (p, [])
  | .reoffer ref =>
    if env.hostClosing ∨ ¬ p.isLive ref then (p, []) else p.closeClientInner env (.connect true)

/-- The operation that a callback of session `ref` queues. -/
def opOf (ref : Nat) : SessionOp → PeerOp
  | .voidClose => .closeIf ref
  | .reoffer => .reoffer ref

/-- The session object after the client left signaling. -/
def leftSignaling (o : HostOptions) (c : ClientSession) : ClientSession :=
  let c := { c with signalingLeft := true }
  if c.clientHangup ∨ c.connectionState = .connected then c else c.scheduleTransportDisconnect o

def onPeerLeft (o : HostOptions) (p : Peer) : Peer :=
  let p := { p with joined := false }
  match p.current with
  | none => p.enqueue [.close]
  | some (ref, c) =>
    let left := p.setSession ref (leftSignaling o c)
    if c.clientHangup then left.enqueue [.close] else left

def step (o : HostOptions) (env : PeerEnv) (p : Peer) :
    PeerInput → Option (Peer × List PeerEvent)
  | .peerJoined => some ({ p with joined := true }.enqueue [.join], [])
  | .peerLeft => some (p.onPeerLeft o, [])
  | .close => some (p.enqueue [.close], [])
  | .run =>
    match p.running, p.queue with
    | none, op :: rest => some ({ p with queue := rest }.runOp env op)
    | _, _ => none
  | .connect build =>
    match p.running with
    | some (.admitting reoffer) => some (p.connectClientInner o env reoffer build)
    | _ => none
  | .trackAdded ok =>
    match p.running with
    | some (.addingTrack lease reoffer) =>
      if ok then some (p.register o lease reoffer, [])
      else some ({ p with running := some (.dismantling lease none none) }, [])
    | _ => none
  | .offered ok =>
    match p.running with
    | some (.offering _) =>
      if ok then some ({ p with running := none, connecting := false }, [])
      else some (p.closeClientInner env .connectFailed)
    | _ => none
  | .statsRead =>
    match p.running with
    | some (.readingStats ref agent next) =>
      (p.objects[ref]?).map fun c => (p.stopComponents ref c agent next, [])
    | _ => none
  | .pcClosed status =>
    if status = .absent then none
    else
      match p.running with
      | some (.stopping ref none agent next) =>
        some ({ p with running := some (.stopping ref (some status) agent next) }, [])
      | some (.dismantling lease none agent) =>
        some ({ p with running := some (.dismantling lease (some status) agent) }, [])
      | _ => none
  | .agentStopped status =>
    if status = .absent then none
    else
      match p.running with
      | some (.stopping ref pc none next) =>
        some ({ p with running := some (.stopping ref pc (some status) next) }, [])
      | some (.dismantling lease pc none) =>
        some ({ p with running := some (.dismantling lease pc (some status)) }, [])
      | _ => none
  | .finalize =>
    match p.running with
    | some (.stopping ref (some pc) (some agent) next) =>
      (p.objects[ref]?).map fun c =>
        ({ p with closing := false }.afterClose next,
          [.finalized c.budgetLease pc agent c.peerTransportReadyNotified])
    | some (.dismantling lease (some pc) (some agent)) =>
      some ({ p with running := none, connecting := false },
        [.finalized lease pc agent false])
    | _ => none
  | .session ref event =>
    (p.objects[ref]?).bind fun c =>
      (c.handle o (p.isLive ref) env.hostClosing event).map fun handled =>
        ((p.setSession ref handled.1).enqueue (handled.2.2.map (opOf ref)),
          handled.2.1.map (.hook ref))
  | .start ref event =>
    (p.objects[ref]?).bind fun c =>
      (c.resume o (p.isLive ref) env.clientMixer ref p.mix event).map fun resumed =>
        ({ p.setSession ref resumed.1 with mix := resumed.2.1 },
          (if resumed.2.2.1 ∧ ¬ env.clientMixer then [.mixerBuilt] else []) ++
            resumed.2.2.2.map (.hook ref))

/-! ## What a step does to one session -/

/-- The session object right after its teardown began; the agent is stopped at once unless the
statistics are read first. -/
def leftMap (c : ClientSession) : ClientSession :=
  if ¬ c.peerTransportReadyNotified ∧ c.agent then { torndown c with agentRunning := false }
  else torndown c

inductive SessionMove (o : HostOptions) (env : PeerEnv) (p : Peer) (ref : Nat) (c : ClientSession) :
    PeerInput → ClientSession → List PeerHook → Prop where
  | still {i : PeerInput} (hsession : ∀ event, i ≠ .session ref event)
      (hstart : ∀ event, i ≠ .start ref event) : SessionMove o env p ref c i c []
  | callback {event : SessionEvent} {handled : ClientSession × List PeerHook × List SessionOp}
      (h : c.handle o (p.isLive ref) env.hostClosing event = some handled) :
      SessionMove o env p ref c (.session ref event) handled.1 handled.2.1
  | resumed {event : StartEvent} {next : ClientSession × PeerMix × Bool × List PeerHook}
      (h : c.resume o (p.isLive ref) env.clientMixer ref p.mix event = some next) :
      SessionMove o env p ref c (.start ref event) next.1 next.2.2.2
  | signalingLeft (hlive : p.isLive ref) :
      SessionMove o env p ref c .peerLeft (leftSignaling o c) []
  | torndown {i : PeerInput} (hsession : ∀ event, i ≠ .session ref event)
      (hstart : ∀ event, i ≠ .start ref event) (hlive : p.isLive ref) :
      SessionMove o env p ref c i (leftMap c) (endHook c)
  | stopped {next : AfterClose} (hrunning : p.running = some (.readingStats ref true next)) :
      SessionMove o env p ref c .statsRead { c with agentRunning := false } []

section Moves

variable {o : HostOptions} {env : PeerEnv} {p p' : Peer} {es : List PeerEvent} {ref : Nat}
  {c : ClientSession}

theorem peerHooksOf_hooks (ref r : Nat) (hooks : List PeerHook) :
    peerHooksOf ref (hooks.map (.hook r)) = if r = ref then hooks else [] := by
  induction hooks with
  | nil => simp [peerHooksOf]
  | cons hook hooks ih =>
    rw [List.map_cons, ← List.singleton_append, peerHooksOf, List.filterMap_append,
      ← peerHooksOf, ← peerHooksOf, ih]
    by_cases hr : r = ref <;> simp [peerHooksOf, hr]

theorem closingLocally_leftSignaling (o : HostOptions) (c : ClientSession) :
    (leftSignaling o c).closingLocally = c.closingLocally := by
  unfold leftSignaling
  dsimp only
  split
  · rfl
  · exact ClientSession.closingLocally_scheduleTransportDisconnect o _

theorem objects_setSession (p : Peer) (r : Nat) (c' : ClientSession) (ref : Nat) :
    (p.setSession r c').objects[ref]? =
      if r = ref then (p.objects[ref]?).map fun _ => c' else p.objects[ref]? := by
  rw [setSession, List.getElem?_set]
  split
  · next hr =>
    rw [hr]
    cases h : p.objects[ref]? with
    | none => simp [List.getElem?_eq_none_iff.mp h]
    | some c => simp [(List.getElem?_eq_some_iff.mp h).1]
  · rfl

theorem objects_afterClose (p : Peer) (next : AfterClose) :
    (p.afterClose next).objects = p.objects := by
  cases next <;> rfl

theorem session_afterClose (p : Peer) (next : AfterClose) :
    (p.afterClose next).session = p.session := by
  cases next <;> rfl

theorem closeClientTeardown_move {r : Nat} {c : ClientSession} (next : AfterClose) :
    (p.closeClientTeardown env r c next).1.objects = (p.setSession r (leftMap c)).objects ∧
      (p.closeClientTeardown env r c next).2 = (endHook c).map (.hook r) := by
  unfold closeClientTeardown
  refine ⟨?_, rfl⟩
  dsimp only
  unfold leftMap
  by_cases hready : c.peerTransportReadyNotified = true
  · rw [if_pos hready, if_neg (fun h => h.1 hready)]
  · rw [if_neg hready, stopComponents]
    cases hagent : c.agent with
    | true => simp [setSession, hready, torndown]
    | false => simp [setSession, torndown]

theorem current_eq_some {r : Nat} (h : p.current = some (r, c)) :
    p.isLive r ∧ p.objects[r]? = some c := by
  simp only [current, Option.bind_eq_some_iff, Option.map_eq_some_iff, Prod.mk.injEq] at h
  obtain ⟨r', hsession, old, hold, rfl, rfl⟩ := h
  exact ⟨by simp [isLive, hsession], hold⟩

/-- What a step does to the session objects and their hooks: it adds new sessions, or it changes
one. -/
inductive StepShape (o : HostOptions) (env : PeerEnv) (p : Peer) (i : PeerInput) (p' : Peer)
    (es : List PeerEvent) : Prop where
  | grows (added : List ClientSession) (hobjects : p'.objects = p.objects ++ added)
      (hnew : ∀ c ∈ added, ∃ lease reoffer, c = .new o lease reoffer)
      (hes : ∀ ref, peerHooksOf ref es = []) (hsession : ∀ ref event, i ≠ .session ref event)
      (hstart : ∀ ref event, i ≠ .start ref event)
      (hmap : added = [] ∧ p'.session = p.session ∨
        added.length = 1 ∧ p'.session = some p.objects.length)
  | changes (r : Nat) (c c' : ClientSession) (hooks : List PeerHook)
      (hobjects : p'.objects = (p.setSession r c').objects) (hc : p.objects[r]? = some c)
      (hes : ∀ ref, peerHooksOf ref es = if r = ref then hooks else [])
      (hmove : SessionMove o env p r c i c' hooks)
      (hsession : ∀ ref event, ref ≠ r → i ≠ .session ref event)
      (hstart : ∀ ref event, ref ≠ r → i ≠ .start ref event)
      (hmap : p'.session = none ∨
        p'.session = p.session ∧ c'.closingLocally = c.closingLocally)

/-- An input that is no callback of a session. -/
def Plain : PeerInput → Prop
  | .session _ _ | .start _ _ => False
  | _ => True

variable {i : PeerInput}

theorem Plain.not_session (h : Plain i) (ref : Nat) (event : SessionEvent) :
    i ≠ .session ref event := by
  rintro rfl
  exact h

theorem Plain.not_start (h : Plain i) (ref : Nat) (event : StartEvent) : i ≠ .start ref event := by
  rintro rfl
  exact h

theorem StepShape.still (hplain : Plain i) (hobjects : p'.objects = p.objects)
    (hes : ∀ ref, peerHooksOf ref es = []) (hmap : p'.session = p.session) :
    StepShape o env p i p' es :=
  .grows [] (by rw [hobjects, List.append_nil]) (fun c hc => by cases hc) hes hplain.not_session
    hplain.not_start (.inl ⟨rfl, hmap⟩)

theorem closeClientInner_shape (hplain : Plain i) (p : Peer) (next : AfterClose) :
    StepShape o env p i (p.closeClientInner env next).1 (p.closeClientInner env next).2 := by
  unfold closeClientInner
  split
  · exact .still hplain (objects_afterClose p next) (fun _ => rfl) (session_afterClose p next)
  · next r c hcurrent =>
    obtain ⟨hlive, hc⟩ := current_eq_some hcurrent
    obtain ⟨hobjects, hes⟩ :=
      show (p.closeClientTeardown env r c next).1.objects = (p.setSession r (leftMap c)).objects ∧ _
        from closeClientTeardown_move next
    refine .changes r c (leftMap c) (endHook c) hobjects hc
      (fun ref => by rw [hes, peerHooksOf_hooks]) (.torndown (hplain.not_session r) (hplain.not_start r) hlive)
      (fun ref event _ => hplain.not_session ref event)
      (fun ref event _ => hplain.not_start ref event) (.inl ?_)
    unfold closeClientTeardown
    split <;> rfl

theorem connectClientInner_shape (hplain : Plain i) (p : Peer) (reoffer : Bool)
    (build : ConnectBuild) :
    StepShape o env p i (p.connectClientInner o env reoffer build).1
      (p.connectClientInner o env reoffer build).2 := by
  unfold connectClientInner
  split
  · exact .still hplain rfl (fun _ => rfl) rfl
  · exact .still hplain rfl (fun _ => rfl) rfl
  · next lease _ =>
    split
    · exact .still hplain rfl (fun _ => rfl) rfl
    · split
      · refine .grows [.new o lease reoffer] rfl (fun c hc => ⟨lease, reoffer, ?_⟩) (fun _ => rfl)
          hplain.not_session hplain.not_start (.inr ⟨rfl, rfl⟩)
        exact List.mem_singleton.mp hc
      · exact .still hplain rfl (fun _ => rfl) rfl

theorem runOp_shape (hplain : Plain i) (p : Peer) (op : PeerOp) :
    StepShape o env p i (p.runOp env op).1 (p.runOp env op).2 := by
  have hskip : StepShape o env p i p [] := .still hplain rfl (fun _ => rfl) rfl
  cases op with simp only [runOp]
  | join =>
    split
    · exact hskip
    · split
      · exact .still hplain rfl (fun _ => rfl) rfl
      · exact closeClientInner_shape hplain p _
  | close => exact closeClientInner_shape hplain p _
  | closeIf r =>
    split
    · exact closeClientInner_shape hplain p _
    · exact hskip
  | reoffer r =>
    split
    · exact hskip
    · exact closeClientInner_shape hplain p _

theorem shape_of_step (h : p.step o env i = some (p', es)) : StepShape o env p i p' es := by
  cases i with simp only [step] at h
  | peerJoined | close =>
    cases h
    exact .still trivial rfl (fun _ => rfl) rfl
  | peerLeft =>
    cases h
    unfold onPeerLeft
    dsimp only
    split
    · exact .still trivial rfl (fun _ => rfl) rfl
    · next r c hcurrent =>
      obtain ⟨hlive, hc⟩ := current_eq_some hcurrent
      refine .changes r c (leftSignaling o c) [] ?_ hc (fun _ => by simp [peerHooksOf])
        (.signalingLeft hlive) (fun _ _ _ h => by cases h) (fun _ _ _ h => by cases h)
        (.inr ⟨?_, closingLocally_leftSignaling o c⟩)
      · split <;> rfl
      · split <;> rfl
  | run =>
    split at h
    · next op rest hrunning hqueue =>
      have hshape : StepShape o env { p with queue := rest } .run _ _ :=
        runOp_shape (by exact trivial) { p with queue := rest } op
      rw [Option.some.inj h] at hshape
      cases hshape with
      | grows added hobjects hnew hes hsession hstart hmap =>
        exact .grows added hobjects hnew hes hsession hstart hmap
      | changes r c c' hooks hobjects hc hes hmove hsession hstart hmap =>
        refine .changes r c c' hooks hobjects hc hes ?_ hsession hstart hmap
        cases hmove with
        | still hsession hstart => exact .still hsession hstart
        | torndown hsession hstart hlive => exact .torndown hsession hstart hlive
    · cases h
  | connect build =>
    split at h
    · next reoffer _ =>
      have hshape : StepShape o env p (.connect build) _ _ :=
        connectClientInner_shape (by exact trivial) p reoffer build
      rwa [Option.some.inj h] at hshape
    · cases h
  | trackAdded ok =>
    split at h
    · next lease reoffer _ =>
      split at h <;> cases h
      · exact .grows [.new o lease reoffer] rfl
          (fun c hc => ⟨lease, reoffer, List.mem_singleton.mp hc⟩) (fun _ => rfl)
          (fun _ _ h => by cases h) (fun _ _ h => by cases h) (.inr ⟨rfl, rfl⟩)
      · exact .still trivial rfl (fun _ => rfl) rfl
    · cases h
  | offered ok =>
    split at h
    · split at h
      · cases h
        exact .still trivial rfl (fun _ => rfl) rfl
      · have hshape : StepShape o env p (.offered ok) _ _ :=
          closeClientInner_shape (by exact trivial) p .connectFailed
        rwa [Option.some.inj h] at hshape
    · cases h
  | statsRead =>
    split at h
    · next r agent next hrunning =>
      simp only [Option.map_eq_some_iff, Prod.mk.injEq] at h
      obtain ⟨c, hc, rfl, rfl⟩ := h
      refine .changes r c (if agent then { c with agentRunning := false } else c) [] rfl hc
        (fun _ => by simp [peerHooksOf]) ?_ (fun _ _ _ h => by cases h)
        (fun _ _ _ h => by cases h) (.inr ⟨rfl, ?_⟩)
      · cases agent with
        | true => exact .stopped hrunning
        | false => exact .still (fun _ h => by cases h) (fun _ h => by cases h)
      · split <;> rfl
    · cases h
  | pcClosed status | agentStopped status =>
    split_ifs at h
    split at h <;> cases h
    · exact .still trivial rfl (fun _ => rfl) rfl
    · exact .still trivial rfl (fun _ => rfl) rfl
  | finalize =>
    split at h
    · simp only [Option.map_eq_some_iff, Prod.mk.injEq] at h
      obtain ⟨c, -, rfl, rfl⟩ := h
      exact .still trivial (objects_afterClose _ _) (fun _ => rfl) (session_afterClose _ _)
    · cases h
      exact .still trivial rfl (fun _ => rfl) rfl
    · cases h
  | session r event =>
    simp only [Option.bind_eq_some_iff, Option.map_eq_some_iff, Prod.mk.injEq] at h
    obtain ⟨c, hc, handled, hhandled, rfl, rfl⟩ := h
    refine .changes r c handled.1 handled.2.1 rfl hc (fun ref => peerHooksOf_hooks ref r _)
      (.callback hhandled) (fun ref event hr heq => ?_) (fun _ _ _ h => by cases h)
      (.inr ⟨rfl, ClientSession.closingLocally_handle hhandled⟩)
    cases heq
    exact hr rfl
  | start r event =>
    simp only [Option.bind_eq_some_iff, Option.map_eq_some_iff, Prod.mk.injEq] at h
    obtain ⟨c, hc, resumed, hresumed, rfl, rfl⟩ := h
    refine .changes r c resumed.1 resumed.2.2.2 rfl hc (fun ref => ?_) (.resumed hresumed)
      (fun _ _ _ h => by cases h) (fun ref event hr heq => ?_)
      (.inr ⟨rfl, ClientSession.closingLocally_resume hresumed⟩)
    · rw [peerHooksOf, List.filterMap_append, ← peerHooksOf, ← peerHooksOf, peerHooksOf_hooks]
      split <;> rfl
    · cases heq
      exact hr rfl

theorem move_of_step (h : p.step o env i = some (p', es)) (hc : p.objects[ref]? = some c) :
    ∃ c', p'.objects[ref]? = some c' ∧ SessionMove o env p ref c i c' (peerHooksOf ref es) := by
  cases shape_of_step h with
  | grows added hobjects hnew hes hsession hstart hmap =>
    refine ⟨c, ?_, hes ref ▸ .still (hsession ref) (hstart ref)⟩
    rw [hobjects, List.getElem?_append_left (List.getElem?_eq_some_iff.mp hc).1, hc]
  | changes r old c' hooks hobjects hold hes hmove hsession hstart hmap =>
    rw [hobjects, objects_setSession, hes]
    by_cases hr : r = ref
    · subst hr
      rw [hold] at hc
      cases hc
      rw [if_pos rfl, if_pos rfl, hold]
      exact ⟨c', rfl, hmove⟩
    · have hne : ref ≠ r := fun heq => hr heq.symm
      rw [if_neg hr, if_neg hr]
      exact ⟨c, hc, .still (fun event => hsession ref event hne) fun event => hstart ref event hne⟩

theorem new_of_step (h : p.step o env i = some (p', es)) (hnone : p.objects[ref]? = none) :
    (p'.objects[ref]? = none ∨ ∃ lease reoffer, p'.objects[ref]? = some (.new o lease reoffer)) ∧
      peerHooksOf ref es = [] := by
  cases shape_of_step h with
  | grows added hobjects hnew hes hsession hstart hmap =>
    refine ⟨?_, hes ref⟩
    cases hnew' : p'.objects[ref]? with
    | none => exact .inl rfl
    | some c =>
      rw [hobjects, List.getElem?_append_right (List.getElem?_eq_none_iff.mp hnone)] at hnew'
      obtain ⟨lease, reoffer, rfl⟩ := hnew c (List.mem_of_getElem? hnew')
      exact .inr ⟨lease, reoffer, rfl⟩
  | changes r c c' hooks hobjects hc hes hmove hsession hstart hmap =>
    have hr : r ≠ ref := fun heq => by
      rw [heq, hnone] at hc
      cases hc
    rw [hobjects, objects_setSession, hes, if_neg hr, if_neg hr]
    exact ⟨.inl hnone, rfl⟩

/-- The session of the map has an object whose teardown did not begin. -/
def LiveOpen (p : Peer) : Prop :=
  ∀ r, p.session = some r → ∃ c, p.objects[r]? = some c ∧ c.closingLocally = false

theorem LiveOpen.enqueue (hl : LiveOpen p) (ops : List PeerOp) : LiveOpen (p.enqueue ops) := hl

theorem LiveOpen.step (hl : LiveOpen p) (h : p.step o env i = some (p', es)) : LiveOpen p' := by
  intro r hr
  cases shape_of_step h with
  | grows added hobjects hnew hes hsession hstart hmap =>
    rcases hmap with ⟨rfl, heq⟩ | ⟨hlength, heq⟩
    · rw [heq] at hr
      rw [hobjects, List.append_nil]
      exact hl r hr
    · rw [heq, Option.some.injEq] at hr
      obtain ⟨c, rfl⟩ := List.length_eq_one_iff.mp hlength
      obtain ⟨lease, reoffer, rfl⟩ := hnew c (List.mem_singleton_self c)
      refine ⟨.new o lease reoffer, ?_, rfl⟩
      rw [hobjects, ← hr, List.getElem?_append_right (Nat.le_refl _), Nat.sub_self]
      rfl
  | changes r' c c' hooks hobjects hc hes hmove hsession hstart hmap =>
    rcases hmap with hnone | ⟨heq, hclosing⟩
    · rw [hnone] at hr
      cases hr
    · rw [heq] at hr
      obtain ⟨old, hold, hopen⟩ := hl r hr
      rw [hobjects, objects_setSession]
      by_cases hrr : r' = r
      · subst hrr
        rw [hold] at hc
        cases hc
        rw [if_pos rfl, hold]
        exact ⟨c', rfl, hclosing.trans hopen⟩
      · rw [if_neg hrr]
        exact ⟨old, hold, hopen⟩

end Moves

end Peer

end NodeWebrtc.SessionHost
