import Mathlib.Data.Finset.Basic
import NodeWebrtc.Signaling.Registry

/-! # What a member knows of its room

A client keeps the set of peers it was told about: `peer-joined` adds one and `peer-left`
takes one away. In a run that keeps the registry right, the set of every member whose
socket is open is the set of the other members.
-/

namespace NodeWebrtc.Signaling

open Machine SignalingServer

def notice (seen : Finset String) : SignalingMessage → Finset String
  | .peerJoined p => insert p seen
  | .peerLeft p => seen.erase p
  | _ => seen

/-- The set of peers a client knows after the messages it received. -/
def view (messages : List SignalingMessage) : Finset String := messages.foldl notice ∅

def received (sent : List Sent) (socket : SocketId) : List SignalingMessage :=
  (sent.filter fun x => x.socket = socket).map Sent.message

theorem received_append (sent out : List Sent) (socket : SocketId) :
    received (sent ++ out) socket = received sent socket ++ received out socket := by
  simp only [received, List.filter_append, List.map_append]

variable {sent : List Sent} {socket : SocketId}

theorem mem_received {m : SignalingMessage} : m ∈ received sent socket ↔ ⟨socket, m⟩ ∈ sent := by
  simp only [received, List.mem_map, List.mem_filter, decide_eq_true_eq]
  constructor
  · intro h
    obtain ⟨x, ⟨hx, hsocket⟩, hm⟩ := h
    rw [← hsocket, ← hm]
    exact hx
  · intro h
    exact ⟨_, ⟨h, rfl⟩, rfl⟩

theorem received_eq_nil (h : ∀ x ∈ sent, x.socket ≠ socket) : received sent socket = [] := by
  apply List.eq_nil_iff_forall_not_mem.mpr
  intro m hm
  exact h _ (mem_received.mp hm) rfl

variable {messages : List SignalingMessage}

theorem mem_foldl_notice_joined (h : ∀ m ∈ messages, ∃ p, m = .peerJoined p) (seen : Finset String)
    (p : String) :
    p ∈ messages.foldl notice seen ↔ p ∈ seen ∨ .peerJoined p ∈ messages := by
  induction messages generalizing seen with
  | nil => simp
  | cons m ms ih =>
    obtain ⟨q, rfl⟩ := h m List.mem_cons_self
    rw [List.foldl_cons, notice]
    grind

theorem mem_foldl_notice_left {q : String} (h : ∀ m ∈ messages, m = .peerLeft q)
    (seen : Finset String) (p : String) :
    p ∈ messages.foldl notice seen ↔ p ∈ seen ∧ ¬ (p = q ∧ .peerLeft q ∈ messages) := by
  induction messages generalizing seen with
  | nil => simp
  | cons m ms ih =>
    obtain rfl := h m List.mem_cons_self
    rw [List.foldl_cons, notice]
    grind

theorem foldl_notice_relayed (h : ∀ m ∈ messages, ∀ seen, notice seen m = seen)
    (seen : Finset String) :
    messages.foldl notice seen = seen := by
  induction messages generalizing seen with
  | nil => rfl
  | cons m ms ih =>
    rw [List.foldl_cons, h m List.mem_cons_self, ih fun m hm => h m (List.mem_cons_of_mem _ hm)]

/-! ## The invariant -/

/-- The step finds open the sockets it has to tell something new: a join, the joining socket
unless it is registered there already, and the other members when its id was not in the
room; the close of a registered socket, the members that stay. -/
def Attentive (s : SignalingServer) : Input → Prop
  | .message socket (some (.join roomId peerId)) =>
    (s.registered roomId peerId ≠ some socket → s.readyState socket = .isOpen) ∧
      (s.registered roomId peerId = none →
        ∀ p other, s.registered roomId p = some other → s.readyState other = .isOpen)
  | .close socket =>
    ∀ q, s.peer socket = some q → s.registered q.room q.id = some socket →
      ∀ p other, s.registered q.room p = some other → p ≠ q.id →
        s.readyState other = .isOpen
  | _ => True

/-- The set of the member at `(r, p)` is the set of the other members of the room. -/
def Informed (s : SignalingServer) (sent : List Sent) (r p : String) (socket : SocketId) : Prop :=
  ∀ a, a ∈ view (received sent socket) ↔ a ≠ p ∧ ∃ other, s.registered r a = some other

/-- A run of settled steps. A socket that never joined was told nothing, an open socket is
registered under its last join, and every registered socket that is open, or whatever its
state when `all` is set, has been told its room. -/
structure Told (all : Prop) (history : List Input) (sent : List Sent) (s : SignalingServer) :
    Prop where
  recorded : Recorded history s
  follows : Follows history s
  untold : ∀ socket, s.peer socket = none → received sent socket = []
  placed : ∀ socket q, s.peer socket = some q → s.readyState socket = .isOpen →
    s.registered q.room q.id = some socket
  informed : ∀ r p socket, s.registered r p = some socket →
    all ∨ s.readyState socket = .isOpen → Informed s sent r p socket

variable {s : SignalingServer}

theorem Told.peer {all : Prop} {history : List Input} (h : Told all history sent s) {r p : String}
    (hreg : s.registered r p = some socket) : s.peer socket = some ⟨p, r, socket⟩ :=
  h.recorded.last r p socket ((h.follows r p socket).mp hreg)

theorem Told.place_unique {all : Prop} {history : List Input} (h : Told all history sent s)
    {r r' p p' : String} (hreg : s.registered r p = some socket)
    (hreg' : s.registered r' p' = some socket) :
    r' = r ∧ p' = p := by
  have heq := (h.peer hreg').symm.trans (h.peer hreg)
  rw [Option.some.injEq, Peer.mk.injEq] at heq
  exact ⟨heq.2.1, heq.1⟩

theorem view_append (sent out : List Sent) (socket : SocketId) :
    view (received (sent ++ out) socket) =
      (received out socket).foldl notice (view (received sent socket)) := by
  rw [received_append, view, List.foldl_append, view]

/-! ## One step -/

section Steps

variable {all : Prop} {history : List Input} {sent out : List Sent} {s t : SignalingServer}

/-! ### Passive events -/

theorem relayed_sent {r p : String} {m : SignalingMessage} (hm : ∀ seen, notice seen m = seen)
    {x : Sent} (hx : x ∈ s.forward r p m) :
    (∀ seen, notice seen x.message = seen) ∧ ∃ r p, s.registered r p = some x.socket := by
  obtain ⟨socket, hreg, -, rfl⟩ := mem_forward.mp hx
  exact ⟨hm, r, p, hreg⟩

theorem step_passive_sent {i : Input} (hi : i.Passive) (h : step s i = some (t, out)) {x : Sent}
    (hx : x ∈ out) :
    (∀ seen, notice seen x.message = seen) ∧ ∃ r p, s.registered r p = some x.socket := by
  cases i with
  | connection socket | closing socket =>
    rw [step] at h
    split_ifs at h
    rw [Option.some.injEq, Prod.mk.injEq] at h
    rw [← h.2] at hx
    exact absurd hx List.not_mem_nil
  | close socket => exact hi.elim
  | message socket parsed =>
    rw [step] at h
    split_ifs at h
    rw [Option.some.injEq] at h
    have hout : out = (s.onMessage socket parsed).2 := (congrArg Prod.snd h).symm
    rw [hout] at hx
    cases parsed with
    | none => exact absurd hx List.not_mem_nil
    | some m =>
      cases m with
      | join r p => exact hi.elim
      | offer r p target sdp | answer r p target sdp | iceCandidate r p target candidate =>
        exact relayed_sent (fun _ => rfl) hx
      | peerJoined p | peerLeft p => exact absurd hx List.not_mem_nil

theorem open_of_passive {i : Input} (hi : i.Passive) (h : step s i = some (t, out))
    {a : SocketId} (ha : t.readyState a = .isOpen) :
    s.readyState a = .isOpen ∨ s.peer a = none := by
  cases i with rw [step] at h
  | connection socket =>
    split_ifs at h
    rename_i hnew
    rw [Option.some.injEq, Prod.mk.injEq] at h
    by_cases has : a = socket
    · have hnone : s.connections.get socket = none := Option.not_isSome_iff_eq_none.mp hnew
      exact Or.inr (by rw [has, peer, hnone, Option.bind_none])
    · rw [← h.1, readyState] at ha
      rw [InsertMap.get_set, if_neg has] at ha
      exact Or.inl ha
  | closing socket =>
    split_ifs at h
    rw [Option.some.injEq, Prod.mk.injEq] at h
    rw [← h.1, readyState_closeSocket] at ha
    split_ifs at ha
    exact Or.inl ha
  | close socket => exact hi.elim
  | message socket parsed =>
    split_ifs at h
    rw [Option.some.injEq] at h
    have ht : t = s := by
      have hfst : t = (s.onMessage socket parsed).1 := (congrArg Prod.fst h).symm
      rw [hfst]
      cases parsed with
      | none => rfl
      | some m =>
        cases m with
        | join r p => exact hi.elim
        | _ => rfl
    exact Or.inl (ht ▸ ha)

theorem Told.passive (hT : Told all history sent s) {i : Input} (hi : i.Passive)
    (h : step s i = some (t, out)) : Told all (history ++ [i]) (sent ++ out) t := by
  obtain ⟨-, hpeer⟩ := step_passive hi h
  have hout := fun x (hx : x ∈ out) => step_passive_sent hi h hx
  have hready := fun a (ha : t.readyState a = .isOpen) => open_of_passive hi h ha
  have hview : ∀ a, view (received (sent ++ out) a) = view (received sent a) := by
    intro a
    rw [view_append]
    refine foldl_notice_relayed (fun m hm => ?_) _
    exact (hout _ (mem_received.mp hm)).1
  constructor
  · exact hT.recorded.passive hi h
  · exact follows_passive hi h hT.follows
  · intro a ha
    rw [hpeer] at ha
    have hnone : received out a = [] := by
      apply received_eq_nil
      intro x hx hxa
      obtain ⟨-, r, p, hreg⟩ := hout x hx
      rw [hxa] at hreg
      rw [hT.peer hreg] at ha
      cases ha
    rw [received_append, hT.untold a ha, hnone, List.append_nil]
  · intro a q hq hopen
    rw [hpeer] at hq
    rw [registered_passive hi h]
    rcases hready a hopen with ho | hn
    · exact hT.placed a q hq ho
    · rw [hn] at hq
      cases hq
  · intro r p a hreg hwhen b
    rw [registered_passive hi h] at hreg
    have hwhen' : all ∨ s.readyState a = .isOpen := by
      rcases hwhen with hall | ho
      · exact Or.inl hall
      · rcases hready a ho with ho' | hn
        · exact Or.inr ho'
        · rw [hT.peer hreg] at hn
          cases hn
    rw [hview, hT.informed r p a hreg hwhen' b]
    simp only [registered_passive hi h]

/-! ### A join -/

section Join

variable {socket : SocketId} {roomId peerId : String}

theorem readyState_of_join (h : step s (.message socket (some (.join roomId peerId))) = some (t, out))
    (a : SocketId) :
    t.readyState a =
      if a ≠ socket ∧ s.registered roomId peerId = some a ∧ s.readyState a = .isOpen then .closing
      else s.readyState a := by
  obtain ⟨-, hjoin⟩ := step_join h
  have ht : t = (s.join socket roomId peerId).1 := (congrArg Prod.fst hjoin).symm
  rw [ht, readyState_join, readyState_joining]
  rfl

theorem open_of_join (h : step s (.message socket (some (.join roomId peerId))) = some (t, out))
    {a : SocketId} (ha : t.readyState a = .isOpen) :
    s.readyState a = .isOpen ∧ (a ≠ socket → s.registered roomId peerId ≠ some a) := by
  rw [readyState_of_join h] at ha
  split_ifs at ha
  rename_i hn
  exact ⟨ha, fun hne hreg => hn ⟨hne, hreg, ha⟩⟩

section

variable (hT : Told all history sent s)
include hT

section

variable (h : step s (.message socket (some (.join roomId peerId))) = some (t, out))
include h

/-- A join tells each other member about the joining peer, and the joining socket about each
other member. -/
theorem Told.mem_join_sent {x : Sent} :
    x ∈ out ↔ ∃ p other, s.registered roomId p = some other ∧ p ≠ peerId ∧
      (s.readyState other = .isOpen ∧ x = ⟨other, .peerJoined peerId⟩ ∨
        s.readyState socket = .isOpen ∧ x = ⟨socket, .peerJoined p⟩) := by
  obtain ⟨-, hjoin⟩ := step_join h
  have hout : out = (s.joining socket roomId peerId).introduce socket roomId peerId :=
    (congrArg Prod.snd hjoin).symm
  have hself : (s.joining socket roomId peerId).readyState socket = s.readyState socket := by
    rw [readyState_joining, if_neg fun hc => hc.1 rfl]
  -- a member under another id is not the socket that a join replaces
  have hother : ∀ p e, s.member roomId p = some e → p ≠ peerId →
      (s.joining socket roomId peerId).readyState e.socket = s.readyState e.socket := by
    intro p e he hp
    rw [readyState_joining, if_neg]
    intro hc
    have hreg : s.registered roomId p = some e.socket := by rw [registered, he, Option.map_some]
    exact hp (hT.place_unique hc.2.1 hreg).2
  rw [hout, mem_introduce]
  constructor
  · intro hx
    obtain ⟨p, e, hjoining, hid, hx⟩ := hx
    have he := member_of_member_joining hjoining
    have hname := (hT.recorded.named _ _ _ he).1
    rw [hname] at hid hx
    rw [hother p e he hid, hself] at hx
    exact ⟨p, e.socket, by rw [registered, he, Option.map_some], hid, hx⟩
  · intro hx
    obtain ⟨p, other, hreg, hp, hx⟩ := hx
    obtain ⟨e, he, rfl⟩ := registered_eq_some.mp hreg
    have hname := (hT.recorded.named _ _ _ he).1
    refine ⟨p, e, ?_, by rwa [hname], ?_⟩
    · rw [member_joining s socket fun hc => hp hc.2]
      exact he
    · rw [hname, hother p e he hp, hself]
      exact hx

theorem Told.mem_view_join (a : SocketId) (b : String) :
    b ∈ view (received (sent ++ out) a) ↔
      b ∈ view (received sent a) ∨ ⟨a, .peerJoined b⟩ ∈ out := by
  rw [view_append, mem_foldl_notice_joined, mem_received]
  intro m hm
  obtain ⟨p, other, -, -, ⟨-, hx⟩ | ⟨-, hx⟩⟩ := (hT.mem_join_sent h).mp (mem_received.mp hm)
  · exact ⟨peerId, congrArg Sent.message hx⟩
  · exact ⟨p, congrArg Sent.message hx⟩

theorem Told.informed_joining (hset : Settled s (.message socket (some (.join roomId peerId))))
    (hatt : all → Attentive s (.message socket (some (.join roomId peerId))))
    (hwhen : all ∨ t.readyState socket = .isOpen) (b : String) :
    b ∈ view (received (sent ++ out) socket) ↔
      b ≠ peerId ∧ ∃ other, s.registered roomId b = some other := by
  have honly : ∀ p, s.registered roomId p = some socket → p = peerId := fun p hreg =>
    (hset _ (hT.peer hreg) hreg).2
  have hsent : ⟨socket, .peerJoined b⟩ ∈ out ↔
      s.readyState socket = .isOpen ∧ b ≠ peerId ∧ ∃ other, s.registered roomId b = some other := by
    rw [hT.mem_join_sent h]
    simp only [Sent.mk.injEq, SignalingMessage.peerJoined.injEq, true_and]
    constructor
    · intro hx
      obtain ⟨p, other, hreg, hp, ⟨-, hother, -⟩ | ⟨ho, hb⟩⟩ := hx
      · exact absurd (honly p (hother ▸ hreg)) hp
      · exact ⟨ho, hb ▸ hp, other, hb ▸ hreg⟩
    · intro hx
      obtain ⟨ho, hb, other, hreg⟩ := hx
      exact ⟨b, other, hreg, hb, Or.inr ⟨ho, rfl⟩⟩
  have hopen : t.readyState socket = .isOpen → s.readyState socket = .isOpen := fun ho =>
    (open_of_join h ho).1
  rw [hT.mem_view_join h, hsent]
  by_cases hreg : s.registered roomId peerId = some socket
  · rw [hT.informed _ _ _ hreg (hwhen.imp_right hopen) b]
    exact or_iff_left_of_imp And.right
  · have ho : s.readyState socket = .isOpen := hwhen.elim (fun ha => (hatt ha).1 hreg) hopen
    have hnothing : received sent socket = [] := by
      cases hq : s.peer socket with
      | none => exact hT.untold socket hq
      | some q =>
        have hplaced := hT.placed socket q hq ho
        obtain ⟨hr, hp⟩ := hset q hq hplaced
        rw [hr, hp] at hplaced
        exact absurd hplaced hreg
    rw [hnothing]
    simp [view, ho]

theorem Told.informed_other
    (hatt : all → Attentive s (.message socket (some (.join roomId peerId)))) {r p : String}
    {a : SocketId} (hreg : s.registered r p = some a) (ha : a ≠ socket)
    (hplace : ¬ (r = roomId ∧ p = peerId)) (hwhen : all ∨ t.readyState a = .isOpen) (b : String) :
    b ∈ view (received (sent ++ out) a) ↔
      b ≠ p ∧ ((r = roomId ∧ b = peerId) ∨ ∃ other, s.registered r b = some other) := by
  have hopen : t.readyState a = .isOpen → s.readyState a = .isOpen := fun ho =>
    (open_of_join h ho).1
  have hsent : ⟨a, .peerJoined b⟩ ∈ out ↔
      r = roomId ∧ b = peerId ∧ s.readyState a = .isOpen := by
    rw [hT.mem_join_sent h]
    simp only [Sent.mk.injEq, SignalingMessage.peerJoined.injEq]
    constructor
    · intro hx
      obtain ⟨p', other, hreg', -, ⟨ho, rfl, hb⟩ | ⟨-, hsock, -⟩⟩ := hx
      · exact ⟨(hT.place_unique hreg' hreg).1, hb, ho⟩
      · exact absurd hsock ha
    · intro hx
      obtain ⟨hr, hb, ho⟩ := hx
      exact ⟨p, a, hr ▸ hreg, fun hp => hplace ⟨hr, hp⟩, Or.inl ⟨ho, rfl, hb⟩⟩
  rw [hT.mem_view_join h, hsent, hT.informed r p a hreg (hwhen.imp_right hopen) b]
  constructor
  · intro hb
    rcases hb with ⟨hne, hother⟩ | ⟨hr, hb, -⟩
    · exact ⟨hne, Or.inr hother⟩
    · exact ⟨fun hp => hplace ⟨hr, hp ▸ hb⟩, Or.inl ⟨hr, hb⟩⟩
  · intro hb
    obtain ⟨hne, ⟨hr, hb⟩ | hother⟩ := hb
    · subst hr hb
      cases hold : s.registered r b with
      | some other => exact Or.inl ⟨hne, other, rfl⟩
      | none =>
        refine Or.inr ⟨rfl, rfl, hwhen.elim (fun hall => ?_) hopen⟩
        exact (hatt hall).2 hold p a hreg
    · exact Or.inl ⟨hne, hother⟩

theorem Told.join (hset : Settled s (.message socket (some (.join roomId peerId))))
    (hatt : all → Attentive s (.message socket (some (.join roomId peerId)))) :
    Told all (history ++ [.message socket (some (.join roomId peerId))]) (sent ++ out) t := by
  obtain ⟨hlive, hjoin⟩ := step_join h
  have ht : t = (s.join socket roomId peerId).1 := (congrArg Prod.fst hjoin).symm
  have hpeer : ∀ a, t.peer a = if a = socket then some ⟨peerId, roomId, socket⟩ else s.peer a :=
    fun a => by rw [ht, peer_join hlive]
  have hreg : ∀ r p, t.registered r p =
      if r = roomId ∧ p = peerId then some socket else s.registered r p :=
    fun r p => by rw [ht, registered_join]
  constructor
  · exact hT.recorded.join h
  · exact (follows_join hT.recorded hT.follows h).mpr hset
  · intro a ha
    rw [hpeer] at ha
    by_cases has : a = socket
    · rw [if_pos has] at ha
      cases ha
    · rw [if_neg has] at ha
      have hnone : received out a = [] := by
        apply received_eq_nil
        intro x hx hxa
        obtain ⟨p, other, hother, -, ⟨-, rfl⟩ | ⟨-, rfl⟩⟩ := (hT.mem_join_sent h).mp hx
        · rw [← hxa, hT.peer hother] at ha
          cases ha
        · exact has hxa.symm
      rw [received_append, hT.untold a ha, hnone, List.append_nil]
  · intro a q hq ho
    rw [hpeer] at hq
    obtain ⟨ho', hkept⟩ := open_of_join h ho
    rw [hreg]
    by_cases has : a = socket
    · rw [if_pos has, Option.some.injEq] at hq
      rw [← hq, if_pos ⟨rfl, rfl⟩, has]
    · rw [if_neg has] at hq
      have hplaced := hT.placed a q hq ho'
      by_cases hplace : q.room = roomId ∧ q.id = peerId
      · rw [hplace.1, hplace.2] at hplaced
        exact absurd hplaced (hkept has)
      · rw [if_neg hplace]
        exact hplaced
  · intro r p a hra hwhen b
    rw [hreg] at hra
    rw [hreg]
    by_cases hplace : r = roomId ∧ p = peerId
    · obtain ⟨rfl, rfl⟩ := hplace
      rw [if_pos ⟨rfl, rfl⟩] at hra
      cases hra
      rw [hT.informed_joining h hset hatt hwhen b]
      by_cases hb : b = p
      · simp [hb]
      · rw [if_neg fun hc => hb hc.2]
    · rw [if_neg hplace] at hra
      have ha : a ≠ socket := by
        rintro rfl
        exact hplace (hset _ (hT.peer hra) hra)
      rw [hT.informed_other h hatt hra ha hplace hwhen b]
      by_cases hb : r = roomId ∧ b = peerId
      · rw [if_pos hb]
        simp [hb]
      · rw [if_neg hb]
        simp [hb]

end

end

end Join

/-! ### A close -/

section Close

variable {socket : SocketId}

theorem readyState_close (h : step s (.close socket) = some (t, out)) (a : SocketId) :
    t.readyState a = if a = socket then .closed else s.readyState a := by
  obtain ⟨hlive, ⟨-, ht, -⟩ | ⟨q, -, ht, -⟩⟩ := step_close h
  · rw [ht, readyState_setReadyState hlive]
  · rw [ht, readyState_leave, readyState_setReadyState hlive]

theorem open_of_close (h : step s (.close socket) = some (t, out)) {a : SocketId}
    (ha : t.readyState a = .isOpen) : a ≠ socket ∧ s.readyState a = .isOpen := by
  rw [readyState_close h] at ha
  split_ifs at ha
  rename_i hne
  exact ⟨hne, ha⟩

section

variable (hT : Told all history sent s)
include hT

section

variable (h : step s (.close socket) = some (t, out))
include h

theorem Told.mem_close_sent {x : Sent} :
    x ∈ out ↔ ∃ q p other, s.peer socket = some q ∧ s.registered q.room p = some other ∧
      p ≠ q.id ∧ t.readyState other = .isOpen ∧ x = ⟨other, .peerLeft q.id⟩ := by
  obtain ⟨-, ⟨hq, -, hout⟩ | ⟨q, hq, -, hout⟩⟩ := step_close h
  · rw [hout]
    simp [hq]
  · have hstay : ∀ p, p ≠ q.id → t.member q.room p = s.member q.room p := fun p hp => by
      rw [member_close h, if_neg]
      intro hex
      obtain ⟨q', hq', -, hid⟩ := hex
      rw [hq, Option.some.injEq] at hq'
      exact hp (hq' ▸ hid)
    rw [hout, mem_broadcast]
    constructor
    · intro hx
      obtain ⟨p, e, he, hid, ho, hx⟩ := hx
      have hname := ((hT.recorded.close h).named _ _ _ he).1
      rw [hname] at hid
      rw [hstay p hid] at he
      exact ⟨q, p, e.socket, hq, by rw [registered, he, Option.map_some], hid, ho, hx⟩
    · intro hx
      obtain ⟨q', p, other, hq', hreg, hp, ho, hx⟩ := hx
      rw [hq, Option.some.injEq] at hq'
      subst hq'
      obtain ⟨e, he, rfl⟩ := registered_eq_some.mp hreg
      have hname := (hT.recorded.named _ _ _ he).1
      exact ⟨p, e, by rw [hstay p hp]; exact he, by rwa [hname], ho, hx⟩

theorem Told.mem_view_close {q : Peer} (hq : s.peer socket = some q) (a : SocketId) (b : String) :
    b ∈ view (received (sent ++ out) a) ↔
      b ∈ view (received sent a) ∧ ¬ (b = q.id ∧ ⟨a, .peerLeft q.id⟩ ∈ out) := by
  rw [view_append, mem_foldl_notice_left, mem_received]
  intro m hm
  obtain ⟨q', p, other, hq', -, -, -, hx⟩ := (hT.mem_close_sent h).mp (mem_received.mp hm)
  rw [hq, Option.some.injEq] at hq'
  rw [hq']
  exact congrArg Sent.message hx

theorem Told.informed_close (hset : Settled s (.close socket))
    (hatt : all → Attentive s (.close socket)) {r p : String} {a : SocketId}
    (hreg : t.registered r p = some a) (hwhen : all ∨ t.readyState a = .isOpen) :
    Informed t (sent ++ out) r p a := by
  intro b
  rw [registered_close h] at hreg ⊢
  by_cases hplace : ∃ q, s.peer socket = some q ∧ r = q.room ∧ p = q.id
  · rw [if_pos hplace] at hreg
    cases hreg
  · rw [if_neg hplace] at hreg
    have hold := hT.informed r p a hreg (hwhen.imp_right fun ho => (open_of_close h ho).2) b
    have hasock : a ≠ socket := by
      rintro rfl
      exact hplace ⟨_, hT.peer hreg, rfl, rfl⟩
    cases hq : s.peer socket with
    | none =>
      have hout : out = [] := List.eq_nil_iff_forall_not_mem.mpr fun x hx => by
        obtain ⟨q, -, -, hq', -⟩ := (hT.mem_close_sent h).mp hx
        rw [hq] at hq'
        cases hq'
      rw [hout, List.append_nil, hold, if_neg (by simp)]
    | some q =>
      rw [hT.mem_view_close h hq, hold]
      have hsent : ⟨a, .peerLeft q.id⟩ ∈ out ↔ r = q.room ∧ t.readyState a = .isOpen := by
        rw [hT.mem_close_sent h]
        constructor
        · intro hx
          obtain ⟨q', p', other, hq', hreg', -, ho, hx⟩ := hx
          rw [hq, Option.some.injEq] at hq'
          subst hq'
          obtain ⟨rfl, -⟩ := hx
          exact ⟨(hT.place_unique hreg' hreg).1, ho⟩
        · intro hx
          obtain ⟨hr, ho⟩ := hx
          exact ⟨q, p, a, hq, hr ▸ hreg, fun hp => hplace ⟨q, hq, hr, hp⟩, ho, rfl⟩
      by_cases hb : r = q.room ∧ b = q.id
      · rw [if_pos ⟨q, rfl, hb⟩]
        obtain ⟨rfl, rfl⟩ := hb
        simp only [reduceCtorEq, exists_false, and_false, iff_false, not_and, not_not, true_and]
        intro hmem
        obtain ⟨-, other, hother⟩ := hmem
        have hown := hset q other hq hother
        rw [hown] at hother
        refine hsent.mpr ⟨rfl, hwhen.elim (fun hall => ?_) id⟩
        have hp : p ≠ q.id := fun hp => hplace ⟨q, hq, rfl, hp⟩
        rw [readyState_close h, if_neg hasock]
        exact hatt hall q hq hother p a hreg hp
      · have hn : ¬ ∃ q', some q = some q' ∧ r = q'.room ∧ b = q'.id := by
          intro hex
          obtain ⟨q', hq', hc⟩ := hex
          rw [Option.some.injEq] at hq'
          exact hb (hq' ▸ hc)
        rw [if_neg hn, hsent]
        constructor
        · intro hx
          exact hx.1
        · intro hx
          exact ⟨hx, fun hc => hb ⟨hc.2.1, hc.1⟩⟩

theorem Told.close (hset : Settled s (.close socket)) (hatt : all → Attentive s (.close socket)) :
    Told all (history ++ [.close socket]) (sent ++ out) t := by
  constructor
  · exact hT.recorded.close h
  · exact (follows_close hT.recorded hT.follows h).mpr hset
  · intro a ha
    rw [peer_close h] at ha
    have hnone : received out a = [] := by
      apply received_eq_nil
      intro x hx hxa
      obtain ⟨q, p, other, -, hreg, -, -, rfl⟩ := (hT.mem_close_sent h).mp hx
      rw [← hxa, hT.peer hreg] at ha
      cases ha
    rw [received_append, hT.untold a ha, hnone, List.append_nil]
  · intro a q' hq' ho
    rw [peer_close h] at hq'
    obtain ⟨hne, ho'⟩ := open_of_close h ho
    have hplaced := hT.placed a q' hq' ho'
    rw [registered_close h, if_neg]
    · exact hplaced
    · intro hex
      obtain ⟨q, hq, hr, hp⟩ := hex
      rw [hr, hp] at hplaced
      exact hne (hset q a hq hplaced)
  · intro r p a hreg hwhen
    exact hT.informed_close h hset hatt hreg hwhen

end

end

end Close

theorem Told.step (hT : Told all history sent s) {i : Input}
    (hcond : Settled s i ∧ (all → Attentive s i)) (h : step s i = some (t, out)) :
    Told all (history ++ [i]) (sent ++ out) t := by
  by_cases hi : i.Passive
  · exact hT.passive hi h
  · unfold Input.Passive at hi
    split at hi
    · exact hT.join h hcond.1 hcond.2
    · exact hT.close h hcond.1 hcond.2
    · exact absurd trivial hi

end Steps

/-! ## Runs -/

theorem Told.new (all : Prop) : Told all [] [] SignalingServer.new := by
  refine ⟨Recorded.new, follows_new, fun _ _ => rfl, fun a q hq => ?_, fun r p a hreg => ?_⟩
  · cases hq
  · cases hreg

theorem told_of_run {all : Prop} {events : List Input}
    (ha : Along step (fun s i => Settled s i ∧ (all → Attentive s i)) .new events)
    (hr : run step .new events = some (s, sent)) : Told all events sent s :=
  run_history (fun _ _ _ _ _ _ hT hc h => hT.step hc h) (Told.new all) ha hr

/-- What every member knows of its room, in every run of settled steps: a member whose socket
is open was told exactly the other peers with a live socket, and where every step found open
the sockets it had to tell something new, so was every member. -/
theorem presence_describes_room {events : List Input} {s : SignalingServer} {sent : List Sent}
    (hr : run step .new events = some (s, sent)) (hset : Along step Settled .new events) :
    (∀ r p socket, Holder events r p socket → s.readyState socket = .isOpen →
      ∀ a, a ∈ view (received sent socket) ↔ a ≠ p ∧ ∃ other, Holder events r a other) ∧
    (Along step Attentive .new events → ∀ r p socket, Holder events r p socket →
      ∀ a, a ∈ view (received sent socket) ↔ a ≠ p ∧ ∃ other, Holder events r a other) := by
  have hknows : ∀ all : Prop, Told all events sent s → ∀ r p socket, Holder events r p socket →
      all ∨ s.readyState socket = .isOpen →
      ∀ a, a ∈ view (received sent socket) ↔ a ≠ p ∧ ∃ other, Holder events r a other := by
    intro all hT r p socket hh hwhen a
    rw [hT.informed r p socket ((hT.follows r p socket).mpr hh) hwhen a]
    simp only [hT.follows r a]
  constructor
  · intro r p socket hh ho
    have hT : Told False events sent s := told_of_run (hset.mono fun s i hi => ⟨hi, False.elim⟩) hr
    exact hknows False hT r p socket hh (Or.inr ho)
  · intro hatt r p socket hh
    have hT : Told True events sent s :=
      told_of_run ((hset.and hatt).mono fun s i hi => ⟨hi.1, fun _ => hi.2⟩) hr
    exact hknows True hT r p socket hh (Or.inl trivial)

def encounter : List Input :=
  [.connection 0, .message 0 (some (.join "room" "a")), .connection 1,
    .message 1 (some (.join "room" "b"))]

theorem presence_describes_room_encounter :
    ∃ s sent, run step .new encounter = some (s, sent) ∧
      ∀ r p socket, Holder encounter r p socket → s.readyState socket = .isOpen →
        ∀ a, a ∈ view (received sent socket) ↔ a ≠ p ∧ ∃ other, Holder encounter r a other := by
  have hset : Along step Settled .new encounter := by
    refine Along.cons trivial rfl (Along.cons ?_ rfl (Along.cons trivial rfl
      (Along.cons ?_ rfl trivial)))
    · intro q hq
      cases hq
    · intro q hq
      cases hq
  exact ⟨_, _, rfl, (@presence_describes_room encounter _ _ rfl hset).1⟩

/-- A watched client reconnects, and its stale socket closes afterwards. -/
def watchedReconnect : List Input :=
  [.connection 0, .message 0 (some (.join "room" "watcher")), .connection 1,
    .message 1 (some (.join "room" "a")), .connection 2, .message 2 (some (.join "room" "a")),
    .close 1]

/-- The watcher is told last that the client left, which is connected all the same. -/
theorem reconnected_peer_left :
    ∃ s sent, run step .new watchedReconnect = some (s, sent) ∧
      Holder watchedReconnect "room" "watcher" 0 ∧ s.readyState 0 = .isOpen ∧
      Holder watchedReconnect "room" "a" 2 ∧ s.readyState 2 = .isOpen ∧
      received sent 0 = [.peerJoined "a", .peerJoined "a", .peerLeft "a"] ∧
      "a" ∉ view (received sent 0) := by
  refine ⟨_, _, rfl, ?_, by decide, ?_, by decide, by decide, by decide⟩
  · exact ⟨watchedReconnect.take 1, watchedReconnect.drop 2, rfl, by
      simp [watchedReconnect, Displaces]⟩
  · exact ⟨watchedReconnect.take 5, watchedReconnect.drop 6, rfl, by
      simp [watchedReconnect, Displaces]⟩

end NodeWebrtc.Signaling
