import NodeWebrtc.Lib.InsertMap
import NodeWebrtc.SessionHost.Peer

/-! # The voice agent session host

The peers of a signaling room with the session budget of the process and the leases that the
host holds in quarantine. A step of a peer reads the host through `PeerEnv`; what it puts out
changes the budget and the quarantine.

The budget is shared with other hosts, which acquire and release leases of their own.
-/

namespace NodeWebrtc.SessionHost

open Machine
open Peer (peerHooksOf)

/-! ## The session budget -/

structure VoiceSessionBudget where
  maxSessions : Nat
  active : Nat
  rejectedTotal : Nat
  leases : List Nat
  nextLeaseSeq : Nat
deriving DecidableEq, Repr

namespace VoiceSessionBudget

def new (maxSessions : Nat) : VoiceSessionBudget := ⟨maxSessions, 0, 0, [], 0⟩

def isFull (b : VoiceSessionBudget) : Bool := 0 < b.maxSessions && b.maxSessions ≤ b.active

def tryAcquire (b : VoiceSessionBudget) : VoiceSessionBudget × Option Nat :=
  if b.isFull then ({ b with rejectedTotal := b.rejectedTotal + 1 }, none)
  else
    ({ b with
      leases := b.leases ++ [b.nextLeaseSeq]
      active := b.active + 1
      nextLeaseSeq := b.nextLeaseSeq + 1 }, some b.nextLeaseSeq)

def release (b : VoiceSessionBudget) (lease : Nat) : VoiceSessionBudget :=
  if lease ∈ b.leases then { b with leases := b.leases.erase lease, active := b.active - 1 } else b

end VoiceSessionBudget

/-! ## The quarantine -/

inductive WaitStatus where
  | ok
  | failed
  | pending
deriving DecidableEq, Repr

inductive TeardownSide where
  | pc
  | agent
deriving DecidableEq, Repr

structure QuarantineWait where
  peerId : String
  pc : WaitStatus
  agent : WaitStatus
deriving DecidableEq, Repr

def QuarantineWait.side (wait : QuarantineWait) : TeardownSide → WaitStatus
  | .pc => wait.pc
  | .agent => wait.agent

def QuarantineWait.settle (wait : QuarantineWait) (side : TeardownSide) (status : WaitStatus) :
    QuarantineWait :=
  match side with
  | .pc => { wait with pc := status }
  | .agent => { wait with agent := status }

def ComponentStatus.toWait (status : ComponentStatus) : WaitStatus :=
  if status = .timedOut then .pending else if status.isOk then .ok else .failed

structure VoiceAgentSessionHost where
  options : HostOptions
  peers : InsertMap String Peer
  hostClosing : Bool
  budget : VoiceSessionBudget
  /-- `quarantinedLeases` with their `quarantineWaits`. -/
  quarantine : InsertMap Nat QuarantineWait
  recycleRequired : Bool
  clientMixer : Bool
  /-- The leases of the other hosts of the process. -/
  others : List Nat

inductive HostInput where
  | peer (peerId : String) (i : PeerInput)
  | late (lease : Nat) (side : TeardownSide) (ok : Bool)
  | close
  | closePeers
  | otherAcquires
  | otherReleases (lease : Nat)
deriving DecidableEq, Repr

inductive HostEvent where
  | acquired (peerId : String) (lease : Nat)
  | released (lease : Nat)
  | quarantined (lease : Nat)
  | hook (peerId : String) (ref : Nat) (hook : PeerHook)
deriving DecidableEq, Repr

def VOICE_AGENT_SERVER_PEER_ID : String := "voice-agent-server"

namespace VoiceAgentSessionHost

def new (o : HostOptions) : VoiceAgentSessionHost where
  options := o
  peers := .empty
  hostClosing := false
  budget := .new o.maxSessions
  quarantine := .empty
  recycleRequired := false
  clientMixer := false
  others := []

def peer (h : VoiceAgentSessionHost) (peerId : String) : Peer := (h.peers.get peerId).getD .idle

def setPeer (h : VoiceAgentSessionHost) (peerId : String) (p : Peer) : VoiceAgentSessionHost :=
  { h with peers := h.peers.set peerId p }

def activeClientCount (h : VoiceAgentSessionHost) : Nat := h.peers.values.countP Peer.isActive

def quarantinedCount (h : VoiceAgentSessionHost) : Nat := h.quarantine.size

def hasQuarantineForPeer (h : VoiceAgentSessionHost) (peerId : String) : Bool :=
  h.quarantine.values.any fun wait => wait.peerId = peerId

def admission (h : VoiceAgentSessionHost) (peerId : String) : Admission :=
  if h.hostClosing then .skipped
  else if h.recycleRequired ∧ ¬ h.hasQuarantineForPeer peerId then .skipped
  else match h.budget.tryAcquire.2 with
    | none => .full
    | some lease => .admitted lease

def env (h : VoiceAgentSessionHost) (peerId : String) : PeerEnv :=
  ⟨h.hostClosing, h.clientMixer, h.admission peerId⟩

/-- `sessionBudget.release`; the token goes back once. -/
def release (h : VoiceAgentSessionHost) (lease : Nat) : VoiceAgentSessionHost × List HostEvent :=
  ({ h with budget := h.budget.release lease },
    if lease ∈ h.budget.leases then [.released lease] else [])

def finalizeTeardownCapacity (h : VoiceAgentSessionHost) (peerId : String) (lease : Nat)
    (pc agent : ComponentStatus) (hadLiveSession : Bool) : VoiceAgentSessionHost × List HostEvent :=
  if pc.isOk ∧ agent.isOk then
    let quarantine := h.quarantine.delete lease
    { h with
      quarantine := quarantine
      recycleRequired := h.recycleRequired && decide (quarantine.size ≠ 0) }.release lease
  else if ¬ hadLiveSession then
    { h with quarantine := h.quarantine.delete lease }.release lease
  else
    ({ h with
      quarantine := h.quarantine.set lease ⟨peerId, pc.toWait, agent.toWait⟩
      recycleRequired := true }, [.quarantined lease])

/-- `onLateTeardownComponent`, with `releaseQuarantinedLease`. -/
def onLateTeardownComponent (h : VoiceAgentSessionHost) (lease : Nat) (wait : QuarantineWait)
    (side : TeardownSide) (ok : Bool) : VoiceAgentSessionHost × List HostEvent :=
  let wait := wait.settle side (if ok then .ok else .failed)
  if ok ∧ wait.pc = .ok ∧ wait.agent = .ok then
    let quarantine := h.quarantine.delete lease
    { h with
      quarantine := quarantine
      recycleRequired := h.recycleRequired && decide (quarantine.size ≠ 0) }.release lease
  else ({ h with quarantine := h.quarantine.set lease wait }, [])

def onPeerEvent (peerId : String) (h : VoiceAgentSessionHost) : PeerEvent → VoiceAgentSessionHost × List HostEvent
  | .hook ref hook => (h, [.hook peerId ref hook])
  | .tryAcquire =>
    let acquired := h.budget.tryAcquire
    ({ h with budget := acquired.1 },
      match acquired.2 with
      | none => []
      | some lease => [.acquired peerId lease])
  | .finalized lease pc agent hadLiveSession =>
    h.finalizeTeardownCapacity peerId lease pc agent hadLiveSession
  | .mixerBuilt => ({ h with clientMixer := true }, [])

def onPeerEvents (peerId : String) (h : VoiceAgentSessionHost) : List PeerEvent → VoiceAgentSessionHost × List HostEvent
  | [] => (h, [])
  | e :: es =>
    let first := h.onPeerEvent peerId e
    let rest := onPeerEvents peerId first.1 es
    (rest.1, first.2 ++ rest.2)

/-- The `peer-joined` handler skips the server and other peers. -/
def ignores (h : VoiceAgentSessionHost) (peerId : String) : PeerInput → Bool
  | .peerJoined =>
    peerId = VOICE_AGENT_SERVER_PEER_ID ||
      !h.options.clientPeerIdPrefix.toList.isPrefixOf peerId.toList
  | _ => false

/-- The closes that the close of the host queues. -/
def closePeers (h : VoiceAgentSessionHost) : List (String × Peer) → VoiceAgentSessionHost
  | [] => h
  | (peerId, p) :: rest =>
    (if p.isActive then h.setPeer peerId (p.enqueue [.close]) else h).closePeers rest

def step (h : VoiceAgentSessionHost) : HostInput → Option (VoiceAgentSessionHost × List HostEvent)
  | .peer peerId i =>
    if h.ignores peerId i then some (h, [])
    else ((h.peer peerId).step h.options (h.env peerId) i).map fun stepped =>
      (h.setPeer peerId stepped.1).onPeerEvents peerId stepped.2
  | .late lease side ok =>
    (h.quarantine.get lease).bind fun wait =>
      if wait.side side = .pending then
        some (h.onLateTeardownComponent lease wait side ok)
      else none
  | .close => some ({ h with hostClosing := true }, [])
  | .closePeers => if h.hostClosing then some (h.closePeers h.peers.entries, []) else none
  | .otherAcquires =>
    let acquired := h.budget.tryAcquire
    some ({ h with budget := acquired.1, others := h.others ++ acquired.2.toList }, [])
  | .otherReleases lease =>
    if lease ∈ h.others then
      some ({ h with budget := h.budget.release lease, others := h.others.erase lease }, [])
    else none

/-! ## What a step does to one peer -/

variable {h h' : VoiceAgentSessionHost} {q : String}

def hooksOf (q : String) (ref : Nat) (out : List HostEvent) : List PeerHook :=
  out.filterMap fun
    | .hook p r hook => if p = q ∧ r = ref then some hook else none
    | _ => none

theorem hooksOf_append (q : String) (ref : Nat) (out out' : List HostEvent) :
    hooksOf q ref (out ++ out') = hooksOf q ref out ++ hooksOf q ref out' :=
  List.filterMap_append

section

variable (h)

theorem peer_setPeer (q' : String) (p : Peer) (q : String) :
    (h.setPeer q' p).peer q = if q = q' then p else h.peer q := by
  unfold peer setPeer
  rw [InsertMap.get_set]
  split
  · rfl
  · rfl

theorem release_shape (lease : Nat) :
    (h.release lease).1.peers = h.peers ∧ (h.release lease).1.options = h.options ∧
      ∀ q ref, hooksOf q ref (h.release lease).2 = [] := by
  refine ⟨rfl, rfl, fun q ref => ?_⟩
  unfold release
  split
  · rfl
  · rfl

theorem finalizeTeardownCapacity_shape (q' : String) (lease : Nat) (pc agent : ComponentStatus)
    (hadLiveSession : Bool) :
    (h.finalizeTeardownCapacity q' lease pc agent hadLiveSession).1.peers = h.peers ∧
      (h.finalizeTeardownCapacity q' lease pc agent hadLiveSession).1.options = h.options ∧
      ∀ q ref, hooksOf q ref (h.finalizeTeardownCapacity q' lease pc agent hadLiveSession).2 = [] := by
  unfold finalizeTeardownCapacity
  split
  · exact release_shape _ lease
  · split
    · exact release_shape _ lease
    · exact ⟨rfl, rfl, fun _ _ => rfl⟩

theorem onLateTeardownComponent_shape (lease : Nat) (wait : QuarantineWait) (side : TeardownSide)
    (ok : Bool) :
    (h.onLateTeardownComponent lease wait side ok).1.peers = h.peers ∧
      (h.onLateTeardownComponent lease wait side ok).1.options = h.options ∧
      ∀ q ref, hooksOf q ref (h.onLateTeardownComponent lease wait side ok).2 = [] := by
  unfold onLateTeardownComponent
  generalize wait.settle side (if ok then .ok else .failed) = settled
  dsimp only
  split
  · exact release_shape _ lease
  · exact ⟨rfl, rfl, fun _ _ => rfl⟩

theorem onPeerEvent_shape (q' : String) (h : VoiceAgentSessionHost) (e : PeerEvent) :
    (h.onPeerEvent q' e).1.peers = h.peers ∧ (h.onPeerEvent q' e).1.options = h.options ∧
      ∀ q ref, hooksOf q ref (h.onPeerEvent q' e).2 =
        if q = q' then peerHooksOf ref [e] else [] := by
  cases e with
  | hook r hook =>
    refine ⟨rfl, rfl, fun q ref => ?_⟩
    simp only [onPeerEvent, hooksOf, peerHooksOf, List.filterMap_cons, List.filterMap_nil]
    by_cases hq : q = q'
    · rw [if_pos hq]
      by_cases hr : r = ref
      · rw [if_pos ⟨hq.symm, hr⟩, if_pos hr]
      · rw [if_neg (fun h => hr h.2), if_neg hr]
    · rw [if_neg (fun h => hq h.1.symm), if_neg hq]
  | tryAcquire =>
    refine ⟨rfl, rfl, fun q ref => ?_⟩
    have hnone : hooksOf q ref (h.onPeerEvent q' .tryAcquire).2 = [] := by
      simp only [onPeerEvent]
      split
      · rfl
      · rfl
    rw [hnone, peerHooksOf]
    simp
  | finalized lease pc agent hadLiveSession =>
    obtain ⟨hpeers, hoptions, hhooks⟩ :=
      finalizeTeardownCapacity_shape h q' lease pc agent hadLiveSession
    exact ⟨hpeers, hoptions, fun q ref => (hhooks q ref).trans (by simp [peerHooksOf])⟩
  | mixerBuilt => exact ⟨rfl, rfl, fun q ref => by simp [onPeerEvent, hooksOf, peerHooksOf]⟩

theorem onPeerEvents_shape (q' : String) (h : VoiceAgentSessionHost) (es : List PeerEvent) :
    (h.onPeerEvents q' es).1.peers = h.peers ∧ (h.onPeerEvents q' es).1.options = h.options ∧
      ∀ q ref, hooksOf q ref (h.onPeerEvents q' es).2 =
        if q = q' then peerHooksOf ref es else [] := by
  induction es generalizing h with
  | nil => exact ⟨rfl, rfl, fun q ref => by simp [onPeerEvents, hooksOf, peerHooksOf]⟩
  | cons e es ih =>
    obtain ⟨hpeers, hoptions, hhooks⟩ := onPeerEvent_shape q' h e
    obtain ⟨hpeers', hoptions', hhooks'⟩ := ih (h.onPeerEvent q' e).1
    refine ⟨hpeers'.trans hpeers, hoptions'.trans hoptions, fun q ref => ?_⟩
    rw [onPeerEvents, hooksOf_append, hhooks, hhooks']
    by_cases hq : q = q'
    · rw [if_pos hq, if_pos hq, if_pos hq, ← List.singleton_append (l := es)]
      exact (List.filterMap_append).symm
    · rw [if_neg hq, if_neg hq, if_neg hq]
      rfl

theorem closePeers_of_not_mem {entries : List (String × Peer)} (hq : q ∉ entries.map Prod.fst) :
    (h.closePeers entries).peer q = h.peer q := by
  induction entries generalizing h with
  | nil => rfl
  | cons e rest ih =>
    rw [List.map_cons, List.mem_cons, not_or] at hq
    rw [closePeers, ih _ hq.2]
    split
    · rw [peer_setPeer, if_neg hq.1]
    · rfl

theorem closePeers_shape (entries : List (String × Peer))
    (hentries : ∀ e ∈ entries, h.peer e.1 = e.2) (hnodup : (entries.map Prod.fst).Nodup) :
    (h.closePeers entries).options = h.options ∧
      ∀ q, (h.closePeers entries).peer q = h.peer q ∨
        (h.closePeers entries).peer q = (h.peer q).enqueue [.close] := by
  induction entries generalizing h with
  | nil => exact ⟨rfl, fun _ => .inl rfl⟩
  | cons e rest ih =>
    rw [List.map_cons, List.nodup_cons] at hnodup
    have hp : h.peer e.1 = e.2 := hentries e List.mem_cons_self
    rw [closePeers]
    by_cases hactive : e.2.isActive = true
    · rw [if_pos hactive]
      have hne : ∀ x ∈ rest, x.1 ≠ e.1 := fun x hx heq =>
        hnodup.1 (heq ▸ List.mem_map.mpr ⟨x, hx, rfl⟩)
      obtain ⟨hoptions, hpeers⟩ := ih (h.setPeer e.1 (e.2.enqueue [.close]))
        (fun x hx => by
          rw [peer_setPeer, if_neg (hne x hx)]
          exact hentries x (List.mem_cons_of_mem _ hx)) hnodup.2
      refine ⟨hoptions, fun q => ?_⟩
      by_cases hq : q = e.1
      · right
        rw [hq, closePeers_of_not_mem _ hnodup.1, peer_setPeer, if_pos rfl, hp]
      · have hpeer := hpeers q
        rwa [peer_setPeer, if_neg hq] at hpeer
    · rw [if_neg hactive]
      exact ih h (fun x hx => hentries x (List.mem_cons_of_mem _ hx)) hnodup.2

end

/-- What a step of the host does to peer `q`: a step of its own, or at most a queued close. -/
inductive PeerMove (h : VoiceAgentSessionHost) (q : String) (i : HostInput) (p : Peer) :
    List PeerEvent → Prop where
  | step {pi : PeerInput} {es : List PeerEvent} (hi : i = .peer q pi)
      (hstep : (h.peer q).step h.options (h.env q) pi = some (p, es)) : PeerMove h q i p es
  | still (hi : ∀ pi, i = .peer q pi → pi = .peerJoined)
      (hp : p = h.peer q ∨ p = (h.peer q).enqueue [.close]) : PeerMove h q i p []

theorem move_of_step {i : HostInput} {out : List HostEvent} (hs : step h i = some (h', out)) :
    h'.options = h.options ∧ ∀ q, ∃ es, PeerMove h q i (h'.peer q) es ∧
      ∀ ref, hooksOf q ref out = peerHooksOf ref es := by
  have hstill : (∀ q pi, i = .peer q pi → pi = .peerJoined) → h'.peers = h.peers →
      (∀ q ref, hooksOf q ref out = []) →
      ∀ q, ∃ es, PeerMove h q i (h'.peer q) es ∧ ∀ ref, hooksOf q ref out = peerHooksOf ref es :=
    fun hi hpeers hhooks q => ⟨[], .still (hi q) (.inl (by rw [peer, peer, hpeers])), hhooks q⟩
  cases i with simp only [step] at hs
  | peer q' pi =>
    split at hs
    · next hignored =>
      cases hs
      refine ⟨rfl, hstill (fun q pi' heq => ?_) rfl fun _ _ => rfl⟩
      cases heq
      cases pi with
      | peerJoined => rfl
      | _ => cases hignored
    · simp only [Option.map_eq_some_iff] at hs
      obtain ⟨⟨p, es⟩, hstep, heq⟩ := hs
      obtain ⟨hpeers, hoptions, hhooks⟩ := onPeerEvents_shape q' (h.setPeer q' p) es
      rw [heq] at hpeers hoptions hhooks
      refine ⟨hoptions, fun q => ?_⟩
      have hp : h'.peer q = if q = q' then p else h.peer q := by
        rw [← peer_setPeer, peer, hpeers]
        rfl
      by_cases hq : q = q'
      · refine ⟨es, @PeerMove.step _ _ _ _ pi _ (by rw [hq]) ?_, fun ref => ?_⟩
        · rw [hp, if_pos hq, hq]
          exact hstep
        · rw [hhooks, if_pos hq]
      · refine ⟨[], .still (fun pi' heq' => ?_) (.inl (hp.trans (if_neg hq))), fun ref => ?_⟩
        · cases heq'
          exact absurd rfl hq
        · rw [hhooks, if_neg hq]
          rfl
  | late lease side ok =>
    simp only [Option.bind_eq_some_iff] at hs
    obtain ⟨wait, -, hs⟩ := hs
    split_ifs at hs
    obtain ⟨hpeers, hoptions, hhooks⟩ := onLateTeardownComponent_shape h lease wait side ok
    rw [Option.some.inj hs] at hpeers hoptions hhooks
    exact ⟨hoptions, hstill (fun _ _ h => by cases h) hpeers hhooks⟩
  | close | otherAcquires =>
    cases hs
    exact ⟨rfl, hstill (fun _ _ h => by cases h) rfl fun _ _ => rfl⟩
  | closePeers =>
    split at hs <;> cases hs
    obtain ⟨hoptions, hpeers⟩ := closePeers_shape h h.peers.entries
      (fun e he => by
        rw [peer, (h.peers.get_eq_some_iff e.1 e.2).mpr he]
        rfl) h.peers.nodup
    exact ⟨hoptions, fun q => ⟨[], .still (fun _ heq => by cases heq) (hpeers q), fun _ => rfl⟩⟩
  | otherReleases lease =>
    split at hs <;> cases hs
    exact ⟨rfl, hstill (fun _ _ h => by cases h) rfl fun _ _ => rfl⟩

theorem liveOpen_new (o : HostOptions) (q : String) : ((new o).peer q).LiveOpen :=
  fun _ h => by cases h

theorem liveOpen_step {i : HostInput} {out : List HostEvent} (hl : ∀ q, (h.peer q).LiveOpen)
    (hs : step h i = some (h', out)) (q : String) : (h'.peer q).LiveOpen := by
  obtain ⟨es, hmove, -⟩ := (move_of_step hs).2 q
  generalize hp : h'.peer q = p at hmove
  cases hmove with
  | step hi hstep => exact (hl q).step hstep
  | still hi hsame =>
    rcases hsame with rfl | rfl
    · exact hl q
    · exact (hl q).enqueue _

end VoiceAgentSessionHost

end NodeWebrtc.SessionHost
