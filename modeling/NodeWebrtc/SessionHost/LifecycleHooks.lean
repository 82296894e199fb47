import Mathlib.Data.List.Infix
import NodeWebrtc.SessionHost.Host

/-! # The lifecycle hooks of a session

The voice handler should see transport-ready, then connected, then the end of a session, each at
most once and nothing after the end. The end comes with the teardown. The other two come from
callbacks that do not look whether the session is still there, so they come too late when a
callback finds a torn down session ready.
-/

namespace NodeWebrtc.SessionHost

open Machine

namespace ClientSession

variable {o : HostOptions} {live hostClosing clientMixer : Bool} {c c' c'' : ClientSession}

/-! ## Notices -/

/-- The hooks that the flags of a session stand for. -/
def notices (c : ClientSession) : List PeerHook :=
  (if c.peerTransportReadyNotified then [.onPeerTransportReady] else []) ++
    (if c.peerConnectedNotified then [.onPeerConnected] else [])

def Noted (c : ClientSession) : Prop :=
  (c.peerConnectedNotified → c.peerTransportReadyNotified) ∧ c.peerSignalingJoined = true

/-- `maybeNotifyPeerLifecycle` would call a hook. -/
def WouldNotify (o : HostOptions) (c : ClientSession) : Prop :=
  c.connectionState = .connected ∧ c.controlChannel = .opened ∧
    (¬ c.peerTransportReadyNotified ∨
      ¬ c.peerConnectedNotified ∧ (o.sessionMode = .dataOnly ∨ c.agentStarted))

structure Advances (c c' : ClientSession) (hooks : List PeerHook) : Prop where
  notices : c'.notices = c.notices ++ hooks
  noted : Noted c → Noted c'

theorem Advances.of_flags (hready : c'.peerTransportReadyNotified = c.peerTransportReadyNotified)
    (hconnected : c'.peerConnectedNotified = c.peerConnectedNotified)
    (hjoined : c'.peerSignalingJoined = c.peerSignalingJoined) : Advances c c' [] where
  notices := by rw [ClientSession.notices, ClientSession.notices, hready, hconnected,
    List.append_nil]
  noted := fun h => by rwa [Noted, hready, hconnected, hjoined]

theorem Advances.trans {hooks hooks' : List PeerHook} (h : Advances c c' hooks)
    (h' : Advances c' c'' hooks') : Advances c c'' (hooks ++ hooks') where
  notices := by rw [h'.notices, h.notices, List.append_assoc]
  noted := fun hn => h'.noted (h.noted hn)

theorem Advances.silent (h : Advances c c' []) (h' : Advances c' c'' []) : Advances c c'' [] :=
  h.trans h'

theorem Advances.around {hooks : List PeerHook} {d d' : ClientSession} (hbefore : Advances c d [])
    (h : Advances d d' hooks) (hafter : Advances d' c' []) : Advances c c' hooks := by
  have hall := (hbefore.trans h).trans hafter
  rwa [List.nil_append, List.append_nil] at hall

theorem maybeNotifyPeerLifecycle_advances (hn : Noted c) :
    Advances c (c.maybeNotifyPeerLifecycle o).1 (c.maybeNotifyPeerLifecycle o).2 := by
  unfold maybeNotifyPeerLifecycle
  dsimp only
  split
  · exact .of_flags rfl rfl rfl
  · split
    · refine ⟨?_, fun h => ⟨fun _ => rfl, h.2⟩⟩
      cases hready : c.peerTransportReadyNotified with
      | true => simp [notices, hready]
      | false =>
        cases hconnected : c.peerConnectedNotified with
        | true => exact absurd (hn.1 hconnected) (by rw [hready]; exact Bool.false_ne_true)
        | false => simp [notices, hready, hconnected]
    · next hnew =>
      have hconnected : c.peerConnectedNotified = false := by
        cases hconnected : c.peerConnectedNotified with
        | true => exact absurd (.inl hconnected) hnew
        | false => rfl
      refine ⟨?_, fun h => ⟨fun _ => rfl, h.2⟩⟩
      cases hready : c.peerTransportReadyNotified with
      | true | false => simp [notices, hready, hconnected]

theorem maybeNotifyPeerLifecycle_eq_nil :
    (c.maybeNotifyPeerLifecycle o).2 = [] ↔ ¬ WouldNotify o c := by
  unfold maybeNotifyPeerLifecycle WouldNotify
  dsimp only
  split
  · next hclosed => grind
  · next hopen =>
    split
    · next hold =>
      cases hready : c.peerTransportReadyNotified with
      | true | false => grind
    · next hnew =>
      have hwould : c.connectionState = .connected ∧ c.controlChannel = .opened ∧
          (¬ c.peerTransportReadyNotified ∨ ¬ c.peerConnectedNotified ∧
            (o.sessionMode = .dataOnly ∨ c.agentStarted)) := by
        grind
      constructor
      · intro h
        simp at h
      · intro h
        exact absurd hwould h

/-- The callback finds a session that it notifies. -/
def NotifiedBy (o : HostOptions) (c : ClientSession) : SessionEvent → Prop
  | .onconnectionstatechange .connected => WouldNotify o { c with connectionState := .connected }
  | .controlOnopen => WouldNotify o { c with controlChannel := .opened }
  | _ => False

/-- The start of the agent finds a session that it notifies. -/
def NotifiedByStart (o : HostOptions) (c : ClientSession) : StartEvent → Prop
  | .kickSettled ok => ok ∧ c.startPhase = .kicking ∧ WouldNotify o { c with agentStarted := true }
  | _ => False

theorem maybeStartAgentWhenTransportReady_advances :
    Advances c (c.maybeStartAgentWhenTransportReady o live) [] := by
  unfold maybeStartAgentWhenTransportReady
  split
  · exact .of_flags rfl rfl rfl
  · split <;> exact .of_flags rfl rfl rfl

theorem scheduleTransportDisconnect_advances : Advances c (c.scheduleTransportDisconnect o) [] := by
  unfold scheduleTransportDisconnect
  split <;> exact .of_flags rfl rfl rfl

theorem armConnectStallTimer_advances : Advances c (c.armConnectStallTimer o) [] := by
  unfold armConnectStallTimer
  split <;> exact .of_flags rfl rfl rfl

theorem onIceState_advances (state : IceState) : Advances c (c.onIceState o state).1 [] := by
  have hset : Advances c { c with iceConnectionState := state } [] := .of_flags rfl rfl rfl
  have hclear : Advances c { c with iceConnectionState := state }.clearTransportDisconnectTimer [] :=
    .of_flags rfl rfl rfl
  cases state with
  | connected | completed => exact hclear.silent armConnectStallTimer_advances
  | disconnected | failed => exact hset.silent scheduleTransportDisconnect_advances
  | closed => exact hclear
  | new | checking => exact hset

theorem onConnectionState_advances (hn : Noted c) (state : ConnectionState) :
    Advances c (c.onConnectionState o live state).1 (c.onConnectionState o live state).2.1 := by
  have hset : Advances c { c with connectionState := state } [] := .of_flags rfl rfl rfl
  have hbefore : Advances c
      ({ c with connectionState := state, connectStallTimer := false }).clearTransportDisconnectTimer
      [] := .of_flags rfl rfl rfl
  cases state with
  | connected =>
    have hnotify := maybeNotifyPeerLifecycle_advances (o := o) (hbefore.noted hn)
    unfold onConnectionState
    dsimp only
    split
    · exact hbefore.trans hnotify
    · refine hbefore.around hnotify (Advances.silent ?_ maybeStartAgentWhenTransportReady_advances)
      exact .of_flags rfl rfl rfl
  | disconnected => exact hset.silent scheduleTransportDisconnect_advances
  | failed =>
    have hstall : Advances c { c with connectionState := .failed, connectStallTimer := false } [] :=
      .of_flags rfl rfl rfl
    exact hstall.silent scheduleTransportDisconnect_advances
  | closed => exact hbefore
  | new | connecting => exact hset

theorem handle_advances {event : SessionEvent}
    {handled : ClientSession × List PeerHook × List SessionOp} (hn : Noted c)
    (h : c.handle o live hostClosing event = some handled) :
    Advances c handled.1 handled.2.1 ∧ (handled.2.1 = [] ↔ ¬ NotifiedBy o c event) := by
  cases event with
  | oniceconnectionstatechange state =>
    cases h
    exact ⟨onIceState_advances state, by simp [NotifiedBy]⟩
  | onconnectionstatechange state =>
    cases h
    refine ⟨onConnectionState_advances hn state, ?_⟩
    cases state with
    | connected =>
      have hnotify := maybeNotifyPeerLifecycle_eq_nil (o := o)
        (c := ({ c with connectionState := .connected, connectStallTimer := false
          }).clearTransportDisconnectTimer)
      unfold onConnectionState
      dsimp only
      split <;> exact hnotify
    | _ => simp [onConnectionState, NotifiedBy]
  | controlOnopen =>
    cases h
    have hset : Advances c { c with controlChannel := .opened } [] := .of_flags rfl rfl rfl
    exact ⟨hset.around (maybeNotifyPeerLifecycle_advances (hset.noted hn))
      maybeStartAgentWhenTransportReady_advances, maybeNotifyPeerLifecycle_eq_nil⟩
  | _ =>
    simp only [handle] at h
    (repeat' split at h) <;> cases h <;>
      exact ⟨.of_flags rfl rfl rfl, by simp [NotifiedBy]⟩

theorem wireAndAttach_advances (ref : Nat) (mixer : Bool) (mix : PeerMix) :
    Advances c (c.wireAndAttach ref mixer mix).1 [] := by
  unfold wireAndAttach
  split
  · exact .of_flags rfl rfl rfl
  · split <;> exact .of_flags rfl rfl rfl

theorem resume_advances {ref : Nat} {mix : PeerMix} {event : StartEvent}
    {next : ClientSession × PeerMix × Bool × List PeerHook} (hn : Noted c)
    (h : c.resume o live clientMixer ref mix event = some next) :
    Advances c next.1 next.2.2.2 ∧ (next.2.2.2 = [] ↔ ¬ NotifiedByStart o c event) := by
  have hquiet : ∀ {c' event}, Advances c c' [] → ¬ NotifiedByStart o c event →
      Advances c c' [] ∧ (([] : List PeerHook) = [] ↔ ¬ NotifiedByStart o c event) :=
    fun hadvances hnot => ⟨hadvances, fun _ => hnot, fun _ => rfl⟩
  cases event with simp only [resume] at h
  | trackSettled build =>
    split_ifs at h
    split at h <;> cases h
    · refine hquiet ?_ fun h => h
      unfold afterTrack
      split
      · exact .of_flags rfl rfl rfl
      · split
        · exact .of_flags rfl rfl rfl
        · split
          · exact .of_flags rfl rfl rfl
          · exact wireAndAttach_advances ref _ _
    · exact hquiet (.of_flags rfl rfl rfl) fun h => h
  | kickSettled ok =>
    split at h
    · cases h
    · next hkicking =>
      split at h
      · next hok =>
        cases h
        have hset : Advances c { c with agentStarted := true } [] := .of_flags rfl rfl rfl
        refine ⟨hset.around (maybeNotifyPeerLifecycle_advances (hset.noted hn))
          (.of_flags rfl rfl rfl), maybeNotifyPeerLifecycle_eq_nil.trans ?_⟩
        simp only [NotifiedByStart, hok, not_not.mp hkicking, true_and]
      · next hok =>
        split at h
        all_goals
          cases h
          exact ⟨.of_flags rfl rfl rfl, by simp [NotifiedByStart, hok]⟩
  | wrapSettled ok =>
    split at h
    · split at h <;> cases h
      · exact hquiet (wireAndAttach_advances ref _ _) fun h => h
      · exact hquiet (.of_flags rfl rfl rfl) fun h => h
    · cases h
  | _ =>
    (repeat' split at h) <;> cases h <;>
      exact hquiet (.of_flags rfl rfl rfl) fun h => h

end ClientSession

/-! ## The order -/

/-- The order of the hooks: transport-ready, connected, and the end that goes with the first. -/
def InOrder (hooks : List PeerHook) : Prop :=
  hooks <+: [.onPeerTransportReady, .onPeerConnected] ∨ hooks = [.onPeerSignalingLost] ∨
    (∃ reason, hooks = [.onPeerTransportReady, .onPeerDisconnected reason]) ∨
    ∃ reason, hooks = [.onPeerTransportReady, .onPeerConnected, .onPeerDisconnected reason]

def isEnd : PeerHook → Bool
  | .onPeerDisconnected _ | .onPeerSignalingLost => true
  | _ => false

theorem eq_of_prefix_three {hooks : List PeerHook} {a b c : PeerHook} (h : hooks <+: [a, b, c]) :
    hooks = [] ∨ hooks = [a] ∨ hooks = [a, b] ∨ hooks = [a, b, c] := by
  have hle := h.length_le
  rw [List.prefix_iff_eq_take.mp h]
  generalize hooks.length = n at hle
  match n, hle with
  | 0, _ => exact .inl rfl
  | 1, _ => exact .inr (.inl rfl)
  | 2, _ => exact .inr (.inr (.inl rfl))
  | 3, _ => exact .inr (.inr (.inr rfl))

theorem InOrder.ofPrefix {hooks hooks' : List PeerHook} (h : InOrder hooks')
    (hpre : hooks <+: hooks') : InOrder hooks := by
  rcases h with h | rfl | ⟨reason, rfl⟩ | ⟨reason, rfl⟩
  · exact .inl (hpre.trans h)
  · rcases eq_of_prefix_three (hpre.trans (List.prefix_append _ [.onPeerConnected, .onPeerConnected])) with
      rfl | rfl | rfl | rfl
    · exact .inl (List.nil_prefix)
    · exact .inr (.inl rfl)
    · exact absurd hpre.length_le (by simp)
    · exact absurd hpre.length_le (by simp)
  · rcases eq_of_prefix_three (hpre.trans (List.prefix_append _ [.onPeerConnected])) with rfl | rfl | rfl | rfl
    · exact .inl (List.nil_prefix)
    · exact .inl ⟨_, rfl⟩
    · exact .inr (.inr (.inl ⟨reason, rfl⟩))
    · exact absurd hpre.length_le (by simp)
  · rcases eq_of_prefix_three hpre with rfl | rfl | rfl | rfl
    · exact .inl (List.nil_prefix)
    · exact .inl ⟨_, rfl⟩
    · exact .inl (List.prefix_refl _)
    · exact .inr (.inr (.inr ⟨reason, rfl⟩))

theorem InOrder.eq_nil_of_end {before after : List PeerHook} {e : PeerHook}
    (h : InOrder (before ++ e :: after)) (he : isEnd e) : after = [] := by
  by_contra hne
  have hmem : e ∈ (before ++ e :: after).dropLast := by
    rw [List.dropLast_append_of_ne_nil (List.cons_ne_nil e after), List.dropLast_cons_of_ne_nil hne]
    exact List.mem_append_right _ List.mem_cons_self
  generalize before ++ e :: after = hooks at h hmem
  have hsub : hooks.dropLast ⊆ [.onPeerTransportReady, .onPeerConnected] := by
    rcases h with h | rfl | ⟨reason, rfl⟩ | ⟨reason, rfl⟩
    · exact fun x hx => h.subset (List.mem_of_mem_dropLast hx)
    · simp
    · simp
    · simp
  have hnot := hsub hmem
  simp only [List.mem_cons, List.not_mem_nil, or_false] at hnot
  rcases hnot with rfl | rfl <;> cases he

namespace ClientSession

variable {o : HostOptions} {c c' : ClientSession}

/-- What the handler was told of a session, `hooks` in order. -/
def Told (c : ClientSession) (hooks : List PeerHook) : Prop :=
  if c.closingLocally then
    ∃ e, hooks = c.notices ++ [e] ∧
      (c.peerTransportReadyNotified ∧ (∃ reason, e = .onPeerDisconnected reason) ∨
        ¬ c.peerTransportReadyNotified ∧ e = .onPeerSignalingLost)
  else hooks = c.notices

variable {hooks : List PeerHook}

theorem Told.inOrder (h : Told c hooks) (hn : Noted c) : InOrder hooks := by
  unfold Told notices at h
  cases hready : c.peerTransportReadyNotified with
  | false =>
    have hconnected : c.peerConnectedNotified = false := by
      cases hconnected : c.peerConnectedNotified with
      | true => exact absurd (hn.1 hconnected) (by rw [hready]; exact Bool.false_ne_true)
      | false => rfl
    rw [hready, hconnected] at h
    split at h
    · obtain ⟨e, rfl, he⟩ := h
      obtain ⟨h, -⟩ | ⟨-, rfl⟩ := he
      · cases h
      · exact .inr (.inl rfl)
    · rw [h]
      exact .inl List.nil_prefix
  | true =>
    rw [hready] at h
    cases hconnected : c.peerConnectedNotified with
    | false =>
      rw [hconnected] at h
      split at h
      · obtain ⟨e, rfl, he⟩ := h
        obtain ⟨-, reason, rfl⟩ | ⟨h, -⟩ := he
        · exact .inr (.inr (.inl ⟨reason, rfl⟩))
        · exact absurd rfl h
      · rw [h]
        exact .inl ⟨_, rfl⟩
    | true =>
      split at h
      · obtain ⟨e, rfl, he⟩ := h
        obtain ⟨-, reason, rfl⟩ | ⟨h, -⟩ := he
        · exact .inr (.inr (.inr ⟨reason, rfl⟩))
        · exact absurd rfl h
      · rw [h]
        exact .inl (List.prefix_refl _)

theorem mem_notices : PeerHook.onPeerTransportReady ∈ c.notices ↔ c.peerTransportReadyNotified := by
  unfold notices
  cases c.peerTransportReadyNotified with
  | false =>
    cases c.peerConnectedNotified with
    | false | true => simp
  | true => simp

variable {hooks' : List PeerHook}

theorem Told.advance (h : Told c hooks) (ha : Advances c c' hooks')
    (hclosing : c'.closingLocally = c.closingLocally) (hquiet : c.closingLocally → hooks' = []) :
    Told c' (hooks ++ hooks') := by
  unfold Told at h ⊢
  rw [hclosing]
  by_cases hended : c.closingLocally = true
  · rw [if_pos hended] at h ⊢
    obtain ⟨e, rfl, he⟩ := h
    have hnone := hquiet hended
    have hnotices : c'.notices = c.notices := by rw [ha.notices, hnone, List.append_nil]
    rw [hnone, List.append_nil, ← mem_notices, hnotices, mem_notices]
    exact ⟨e, rfl, he⟩
  · rw [if_neg hended] at h ⊢
    rw [h, ha.notices]

theorem leftSignaling_advances : Advances c (Peer.leftSignaling o c) [] := by
  have hset : Advances c { c with signalingLeft := true } [] := .of_flags rfl rfl rfl
  unfold Peer.leftSignaling
  dsimp only
  split
  · exact hset
  · exact hset.silent scheduleTransportDisconnect_advances

theorem leftMap_flags (c : ClientSession) :
    (Peer.leftMap c).closingLocally = true ∧
      (Peer.leftMap c).peerTransportReadyNotified = c.peerTransportReadyNotified ∧
      (Peer.leftMap c).peerConnectedNotified = c.peerConnectedNotified ∧
      (Peer.leftMap c).peerSignalingJoined = c.peerSignalingJoined := by
  unfold Peer.leftMap
  split <;> exact ⟨rfl, rfl, rfl, rfl⟩

theorem Told.teardown (h : Told c hooks) (hn : Noted c) (hopen : c.closingLocally = false) :
    Told (Peer.leftMap c) (hooks ++ Peer.endHook c) := by
  obtain ⟨hclosing, hready, hconnected, -⟩ := leftMap_flags c
  have hnotices : (Peer.leftMap c).notices = c.notices := by
    rw [notices, notices, hready, hconnected]
  rw [Told, if_neg (by rw [hopen]; exact Bool.false_ne_true)] at h
  rw [Told, if_pos hclosing, hnotices, hready, h]
  unfold Peer.endHook
  cases c.peerTransportReadyNotified with
  | true => exact ⟨_, rfl, .inl ⟨rfl, _, rfl⟩⟩
  | false => exact ⟨_, by rw [if_neg Bool.false_ne_true, if_pos hn.2], .inr ⟨Bool.false_ne_true, rfl⟩⟩

theorem Told.not_inOrder (h : Told c hooks) (hclosing : c.closingLocally) (hlate : hooks' ≠ []) :
    ¬ InOrder (hooks ++ hooks') := by
  rw [Told, if_pos hclosing] at h
  obtain ⟨e, rfl, he⟩ := h
  have hend : isEnd e := by
    rcases he with ⟨-, reason, rfl⟩ | ⟨-, rfl⟩ <;> rfl
  intro horder
  rw [List.append_assoc] at horder
  exact hlate (horder.eq_nil_of_end hend)

theorem Told.end_iff (h : Told c hooks) : (∃ e ∈ hooks, isEnd e) ↔ c.closingLocally := by
  have hopen : ¬ ∃ e ∈ c.notices, isEnd e := by
    rintro ⟨e, he, hend⟩
    unfold notices at he
    cases hready : c.peerTransportReadyNotified <;> cases hconnected : c.peerConnectedNotified <;>
      simp only [hready, hconnected, Bool.false_eq_true, if_false, if_true,
        List.nil_append, List.cons_append, List.mem_cons, List.not_mem_nil, or_false] at he
    · rw [he] at hend
      cases hend
    · rw [he] at hend
      cases hend
    · rcases he with rfl | rfl <;> cases hend
  unfold Told at h
  split at h
  · next hclosing =>
    obtain ⟨e, rfl, he⟩ := h
    refine iff_of_true ⟨e, List.mem_append_right _ (List.mem_singleton_self e), ?_⟩ hclosing
    rcases he with ⟨-, reason, rfl⟩ | ⟨-, rfl⟩ <;> rfl
  · next hclosing =>
    rw [h]
    exact iff_of_false hopen hclosing

theorem told_of_move {env : PeerEnv} {p : Peer} {ref : Nat} {i : PeerInput}
    (hmove : Peer.SessionMove o env p ref c i c' hooks')
    (hlive : p.isLive ref → c.closingLocally = false)
    (hevent : ∀ event, i = .session ref event → c.closingLocally → ¬ NotifiedBy o c event)
    (hstart : ∀ event, i = .start ref event → c.closingLocally → ¬ NotifiedByStart o c event)
    (hn : Noted c) (h : Told c hooks) : Noted c' ∧ Told c' (hooks ++ hooks') := by
  cases hmove with
  | still => exact ⟨hn, by rwa [List.append_nil]⟩
  | callback hhandled =>
    obtain ⟨hadvances, hsilent⟩ := handle_advances hn hhandled
    exact ⟨hadvances.noted hn, h.advance hadvances (closingLocally_handle hhandled)
      fun hclosing => hsilent.mpr (hevent _ rfl hclosing)⟩
  | resumed hresumed =>
    obtain ⟨hadvances, hsilent⟩ := resume_advances hn hresumed
    exact ⟨hadvances.noted hn, h.advance hadvances (closingLocally_resume hresumed)
      fun hclosing => hsilent.mpr (hstart _ rfl hclosing)⟩
  | signalingLeft =>
    exact ⟨leftSignaling_advances.noted hn,
      h.advance leftSignaling_advances (Peer.closingLocally_leftSignaling o c) fun _ => rfl⟩
  | torndown _ _ htorn =>
    obtain ⟨-, hready, hconnected, hjoined⟩ := leftMap_flags c
    exact ⟨by rwa [Noted, hready, hconnected, hjoined], h.teardown hn (hlive htorn)⟩
  | stopped =>
    have hadvances : Advances c { c with agentRunning := false } [] := .of_flags rfl rfl rfl
    exact ⟨hadvances.noted hn, h.advance hadvances rfl fun _ => rfl⟩

end ClientSession

/-! ## Runs of the host -/

namespace VoiceAgentSessionHost

open ClientSession (Noted Told NotifiedBy NotifiedByStart)

variable {h h' : VoiceAgentSessionHost} {out es : List HostEvent}

/-- A callback of a session that ended does not find it ready for a notice. -/
def EndsQuietly (h : VoiceAgentSessionHost) : HostInput → Prop
  | .peer q (.session ref event) => ∀ c, (h.peer q).objects[ref]? = some c → c.closingLocally →
      ¬ NotifiedBy h.options c event
  | .peer q (.start ref event) => ∀ c, (h.peer q).objects[ref]? = some c → c.closingLocally →
      ¬ NotifiedByStart h.options c event
  | _ => True

structure Accounted (out : List HostEvent) (h : VoiceAgentSessionHost) : Prop where
  live : ∀ q, (h.peer q).LiveOpen
  unbuilt : ∀ q ref, (h.peer q).objects[ref]? = none → hooksOf q ref out = []
  told : ∀ q ref c, (h.peer q).objects[ref]? = some c → Noted c ∧ Told c (hooksOf q ref out)

theorem accounted_new (o : HostOptions) : Accounted [] (new o) where
  live := liveOpen_new o
  unbuilt := fun _ _ _ => rfl
  told := fun _ _ _ hc => by cases hc

theorem Accounted.open_of_live (ha : Accounted out h) {q : String} {ref : Nat} {c : ClientSession}
    (hc : (h.peer q).objects[ref]? = some c) (hlive : (h.peer q).isLive ref) :
    c.closingLocally = false := by
  obtain ⟨c', hc', hopen⟩ := ha.live q ref (of_decide_eq_true hlive)
  rw [hc, Option.some.injEq] at hc'
  rwa [hc']

theorem told_new (o : HostOptions) (lease : Nat) (reoffer : Bool) :
    Noted (.new o lease reoffer) ∧ Told (.new o lease reoffer) [] :=
  ⟨⟨fun h => h, rfl⟩, rfl⟩

theorem accounted_step {i : HostInput} (ha : Accounted out h) (hc : EndsQuietly h i)
    (hs : step h i = some (h', es)) : Accounted (out ++ es) h' := by
  have hmoves := (move_of_step hs).2
  refine ⟨liveOpen_step ha.live hs, fun q ref hnone => ?_, fun q ref c' hc' => ?_⟩
  · obtain ⟨pes, hmove, hhooks⟩ := hmoves q
    generalize h'.peer q = p at hmove hnone
    rw [hooksOf_append, hhooks]
    cases hmove with
    | step hi hstep =>
      cases hold : (h.peer q).objects[ref]? with
      | none => rw [ha.unbuilt q ref hold, (Peer.new_of_step hstep hold).2, List.append_nil]
      | some c =>
        obtain ⟨c', hc', -⟩ := Peer.move_of_step hstep hold
        rw [hnone] at hc'
        cases hc'
    | still hi hp =>
      have hold : (h.peer q).objects[ref]? = none := by
        rcases hp with rfl | rfl <;> exact hnone
      rw [ha.unbuilt q ref hold]
      rfl
  · obtain ⟨pes, hmove, hhooks⟩ := hmoves q
    generalize h'.peer q = p at hmove hc'
    rw [hooksOf_append, hhooks]
    cases hmove with
    | step hi hstep =>
      cases hold : (h.peer q).objects[ref]? with
      | none =>
        obtain ⟨hnew, hnone⟩ := Peer.new_of_step hstep hold
        rw [ha.unbuilt q ref hold, hnone]
        rcases hnew with hnew | ⟨lease, reoffer, hnew⟩
        · rw [hc'] at hnew
          cases hnew
        · rw [hc', Option.some.injEq] at hnew
          rw [hnew]
          exact told_new _ lease reoffer
      | some c =>
        obtain ⟨c'', hc'', hmove⟩ := Peer.move_of_step hstep hold
        rw [hc', Option.some.injEq] at hc''
        subst hc'' hi
        obtain ⟨hnoted, htold⟩ := ha.told q ref c hold
        refine ClientSession.told_of_move hmove (ha.open_of_live hold) ?_ ?_ hnoted htold
        all_goals
          rintro event rfl
          exact hc c hold
    | still hi hp =>
      have hold : (h.peer q).objects[ref]? = some c' := by
        rcases hp with rfl | rfl <;> exact hc'
      obtain ⟨hnoted, htold⟩ := ha.told q ref c' hold
      exact ⟨hnoted, by rwa [Peer.peerHooksOf, List.filterMap_nil, List.append_nil]⟩

theorem Accounted.not_inOrder {i : HostInput} (ha : Accounted out h) (hc : ¬ EndsQuietly h i)
    (hs : step h i = some (h', es)) : ∃ q ref, ¬ InOrder (hooksOf q ref (out ++ es)) := by
  have hmoves := (move_of_step hs).2
  cases i with
  | peer q pi =>
    obtain ⟨pes, hmove, hhooks⟩ := hmoves q
    have hstep : (h.peer q).step h.options (h.env q) pi = some (h'.peer q, pes) ∨
        pi = .peerJoined := by
      cases hmove with
      | step hi hstep =>
        cases hi
        exact .inl hstep
      | still hi => exact .inr (hi pi rfl)
    cases pi with
    | session ref event =>
      simp only [EndsQuietly, Classical.not_forall, not_not] at hc
      obtain ⟨c, hold, hclosing, hnotified⟩ := hc
      refine ⟨q, ref, ?_⟩
      rw [hooksOf_append, hhooks]
      obtain ⟨hnoted, htold⟩ := ha.told q ref c hold
      obtain hstep | heq := hstep
      · obtain ⟨c', -, hsession⟩ := Peer.move_of_step hstep hold
        generalize Peer.peerHooksOf ref pes = hooks at hsession
        cases hsession with
        | still hsession | torndown hsession => exact absurd rfl (hsession event)
        | callback hhandled =>
          have hsilent := (ClientSession.handle_advances hnoted hhandled).2
          exact htold.not_inOrder hclosing fun hnone => hsilent.mp hnone hnotified
      · cases heq
    | start ref event =>
      simp only [EndsQuietly, Classical.not_forall, not_not] at hc
      obtain ⟨c, hold, hclosing, hnotified⟩ := hc
      refine ⟨q, ref, ?_⟩
      rw [hooksOf_append, hhooks]
      obtain ⟨hnoted, htold⟩ := ha.told q ref c hold
      obtain hstep | heq := hstep
      · obtain ⟨c', -, hsession⟩ := Peer.move_of_step hstep hold
        generalize Peer.peerHooksOf ref pes = hooks at hsession
        cases hsession with
        | still _ hstart | torndown _ hstart => exact absurd rfl (hstart event)
        | resumed hresumed =>
          have hsilent := (ClientSession.resume_advances hnoted hresumed).2
          exact htold.not_inOrder hclosing fun hnone => hsilent.mp hnone hnotified
      · cases heq
    | _ => exact absurd trivial hc
  | _ => exact absurd trivial hc

/-- The hooks of every session of a run are in order, with an end exactly when the session was
torn down. -/
def HooksInOrder (h : VoiceAgentSessionHost) (out : List HostEvent) : Prop :=
  (∀ q ref, InOrder (hooksOf q ref out)) ∧
    ∀ q ref c, (h.peer q).objects[ref]? = some c →
      ((∃ e ∈ hooksOf q ref out, isEnd e) ↔ c.closingLocally)

theorem Accounted.hooksInOrder (ha : Accounted out h) : HooksInOrder h out := by
  refine ⟨fun q ref => ?_, fun q ref c hc => (ha.told q ref c hc).2.end_iff⟩
  cases hc : (h.peer q).objects[ref]? with
  | none =>
    rw [ha.unbuilt q ref hc]
    exact .inl List.nil_prefix
  | some c => exact (ha.told q ref c hc).2.inOrder (ha.told q ref c hc).1

/-- A data-only client that connects, is ready, and is closed. -/
def shortVisit : List HostInput :=
  [.peer "client-1" .peerJoined, .peer "client-1" .run, .peer "client-1" (.connect .built),
    .peer "client-1" (.offered true), .peer "client-1" (.session 0 .controlOnopen),
    .peer "client-1" (.session 0 (.onconnectionstatechange .connected)),
    .peer "client-1" .close, .peer "client-1" .run, .peer "client-1" .statsRead,
    .peer "client-1" (.pcClosed .ok), .peer "client-1" .finalize]

def dataOnlyOptions : HostOptions := ⟨.dataOnly, "client-", 15000, 4000, 10000, false, 0⟩

/-- A client is closed while the first sample of its agent is written. -/
def closeDuringKick : List HostInput :=
  [.peer "client-1" .peerJoined, .peer "client-1" .run, .peer "client-1" (.connect .built),
    .peer "client-1" (.trackAdded true), .peer "client-1" (.offered true),
    .peer "client-1" (.session 0 (.onconnectionstatechange .connected)),
    .peer "client-1" (.session 0 .ontrack), .peer "client-1" (.session 0 .controlOnopen),
    .peer "client-1" (.start 0 (.trackSettled .built)),
    .peer "client-1" (.start 0 (.attachSettled true)),
    .peer "client-1" (.start 0 (.startSettled true)),
    .peer "client-1" .close, .peer "client-1" .run,
    .peer "client-1" (.start 0 (.kickSettled true))]

def voiceOptions : HostOptions := ⟨.voice, "client-", 15000, 4000, 10000, false, 0⟩

end VoiceAgentSessionHost

end NodeWebrtc.SessionHost
