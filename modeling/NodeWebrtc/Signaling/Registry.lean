import NodeWebrtc.Signaling.Server

/-! # The registry and the sockets

What an entry of the registry should be, in terms of the events alone: the socket that
joined under it last and has neither closed nor moved since. A step keeps the registry so
exactly when it is not a join that leaves an entry of its socket behind, and not a close
that finds another socket under the id of the closing one.
-/

namespace NodeWebrtc.Signaling

open Machine SignalingServer

/-- The event ends the place of `socket` at `(roomId, peerId)`: its own next join or close,
or a join of the place. -/
def Displaces (socket : SocketId) (roomId peerId : String) : Input → Prop
  | .message a (some (.join r p)) => a = socket ∨ (r = roomId ∧ p = peerId)
  | .close a => a = socket
  | _ => False

/-- The not yet closed socket whose most recent join was `(roomId, peerId)` and that no later
join of the place replaced. -/
def Holder (history : List Input) (roomId peerId : String) (socket : SocketId) : Prop :=
  ∃ before after, history = before ++ .message socket (some (.join roomId peerId)) :: after ∧
    ∀ e ∈ after, ¬ Displaces socket roomId peerId e

theorem holder_nil {roomId peerId : String} {socket : SocketId} :
    ¬ Holder [] roomId peerId socket := by
  intro h
  obtain ⟨before, after, heq, -⟩ := h
  simp at heq

/-- One more event: a join of the place makes its socket the holder, and a holder stays one
unless the event displaces it. -/
theorem holder_snoc {history : List Input} {i : Input} {roomId peerId : String}
    {socket : SocketId} :
    Holder (history ++ [i]) roomId peerId socket ↔
      i = .message socket (some (.join roomId peerId)) ∨
        (Holder history roomId peerId socket ∧ ¬ Displaces socket roomId peerId i) := by
  constructor
  · intro h
    obtain ⟨before, after, heq, hafter⟩ := h
    rcases List.eq_nil_or_concat after with rfl | ⟨after, j, rfl⟩
    · have hlast := List.append_inj' heq rfl
      exact Or.inl (List.singleton_inj.mp hlast.2)
    · rw [List.concat_eq_append, ← List.cons_append, ← List.append_assoc] at heq
      obtain ⟨hinit, hlast⟩ := List.append_inj' heq rfl
      have hij : i = j := List.singleton_inj.mp hlast
      refine Or.inr ⟨⟨before, after, hinit, fun e he => hafter e ?_⟩, ?_⟩
      · rw [List.concat_eq_append]
        exact List.mem_append_left _ he
      · rw [hij]
        exact hafter j (by simp)
  · intro h
    rcases h with rfl | ⟨⟨before, after, rfl, hafter⟩, hi⟩
    · exact ⟨history, [], rfl, by simp⟩
    · refine ⟨before, after ++ [i], by simp, fun e he => ?_⟩
      rcases List.mem_append.mp he with hold | hnew
      · exact hafter e hold
      · rw [List.mem_singleton.mp hnew]
        exact hi

theorem holder_snoc_of_quiet {history : List Input} {i : Input}
    (hjoin : ∀ a r p, i ≠ .message a (some (.join r p))) (hclose : ∀ a, i ≠ .close a)
    (roomId peerId : String) (socket : SocketId) :
    Holder (history ++ [i]) roomId peerId socket ↔ Holder history roomId peerId socket := by
  have hquiet : ¬ Displaces socket roomId peerId i := by
    intro h
    unfold Displaces at h
    split at h
    · exact hjoin _ _ _ rfl
    · exact hclose _ rfl
    · exact h
  rw [holder_snoc]
  constructor
  · intro h
    rcases h with hi | hold
    · exact absurd hi (hjoin socket roomId peerId)
    · exact hold.1
  · intro h
    exact Or.inr ⟨h, hquiet⟩

/-! ## What the registry should be -/

/-- The socket of the entry `rooms[roomId][peerId]`. -/
def SignalingServer.registered (s : SignalingServer) (roomId peerId : String) : Option SocketId :=
  (s.member roomId peerId).map Peer.socket

/-- Every entry is the holder of its place, and every holder has its entry. -/
def Follows (history : List Input) (s : SignalingServer) : Prop :=
  ∀ r p socket, s.registered r p = some socket ↔ Holder history r p socket

/-- What every run keeps: an entry is stored under its own room and id, and the `peer`
variable of a holder is its place. -/
structure Recorded (history : List Input) (s : SignalingServer) : Prop where
  named : ∀ r p e, s.member r p = some e → e.id = p ∧ e.room = r
  last : ∀ r p socket, Holder history r p socket → s.peer socket = some ⟨p, r, socket⟩

/-- The step neither leaves an entry of a joining socket behind, nor closes a socket while
another one is registered under its last join. -/
def Settled (s : SignalingServer) : Input → Prop
  | .message socket (some (.join roomId peerId)) =>
    ∀ q, s.peer socket = some q → s.registered q.room q.id = some socket →
      q.room = roomId ∧ q.id = peerId
  | .close socket =>
    ∀ q other, s.peer socket = some q → s.registered q.room q.id = some other →
      other = socket
  | _ => True

/-- Events that only relay or start a closing handshake. -/
def Input.Passive : Input → Prop
  | .message _ (some (.join _ _)) => False
  | .close _ => False
  | _ => True

namespace SignalingServer

theorem registered_eq_some {s : SignalingServer} {r p : String} {socket : SocketId} :
    s.registered r p = some socket ↔ ∃ e, s.member r p = some e ∧ e.socket = socket :=
  Option.map_eq_some_iff

theorem registered_join (s : SignalingServer) (socket : SocketId) (roomId peerId r p : String) :
    (s.join socket roomId peerId).1.registered r p =
      if r = roomId ∧ p = peerId then some socket else s.registered r p := by
  rw [registered, member_join]
  by_cases h : r = roomId ∧ p = peerId
  · rw [if_pos h, if_pos h, Option.map_some]
  · rw [if_neg h, if_neg h, registered]

theorem member_congr {s t : SignalingServer} (h : s.rooms = t.rooms) (r p : String) :
    s.member r p = t.member r p := by
  rw [member, member, room_congr h]

theorem step_passive {s t : SignalingServer} {i : Input} {out : List Sent} (hi : i.Passive)
    (h : step s i = some (t, out)) : t.rooms = s.rooms ∧ ∀ a, t.peer a = s.peer a := by
  cases i with rw [step] at h
  | connection socket =>
    by_cases hc : (s.connections.get socket).isSome
    · rw [if_pos hc] at h
      cases h
    · rw [if_neg hc, Option.some.injEq, Prod.mk.injEq] at h
      have hnone : s.connections.get socket = none := Option.not_isSome_iff_eq_none.mp hc
      refine ⟨h.1 ▸ rfl, fun a => ?_⟩
      rw [← h.1, peer]
      rw [InsertMap.get_set, peer]
      by_cases ha : a = socket
      · rw [if_pos ha, ha, hnone]
        rfl
      · rw [if_neg ha]
  | message socket m =>
    by_cases hc : s.readyState socket = .closed
    · rw [if_pos hc] at h
      cases h
    · rw [if_neg hc, Option.some.injEq] at h
      have ht : t = s := by
        rcases m with _ | m
        · exact (congrArg Prod.fst h).symm
        · cases m with
          | join r p => exact hi.elim
          | _ => exact (congrArg Prod.fst h).symm
      exact ht ▸ ⟨rfl, fun _ => rfl⟩
  | closing socket =>
    by_cases hc : s.readyState socket = .closed
    · rw [if_pos hc] at h
      cases h
    · rw [if_neg hc, Option.some.injEq, Prod.mk.injEq] at h
      rw [← h.1]
      exact ⟨rooms_closeSocket s socket, peer_closeSocket s socket⟩
  | close socket => exact hi.elim

theorem step_join {s t : SignalingServer} {socket : SocketId} {roomId peerId : String}
    {out : List Sent}
    (h : step s (.message socket (some (.join roomId peerId))) = some (t, out)) :
    s.readyState socket ≠ .closed ∧ s.join socket roomId peerId = (t, out) := by
  rw [step] at h
  by_cases hc : s.readyState socket = .closed
  · rw [if_pos hc] at h
    cases h
  · rw [if_neg hc, Option.some.injEq] at h
    exact ⟨hc, h⟩

theorem step_close {s t : SignalingServer} {socket : SocketId} {out : List Sent}
    (h : step s (.close socket) = some (t, out)) :
    s.readyState socket ≠ .closed ∧
      ((s.peer socket = none ∧ t = s.setReadyState socket .closed ∧ out = []) ∨
        ∃ q, s.peer socket = some q ∧ t = (s.setReadyState socket .closed).leave q ∧
          out = t.broadcast q.room (.peerLeft q.id) q.id) := by
  rw [step] at h
  by_cases hc : s.readyState socket = .closed
  · rw [if_pos hc] at h
    cases h
  · rw [if_neg hc, Option.some.injEq] at h
    refine ⟨hc, ?_⟩
    have hpeer : (s.setReadyState socket .closed).peer socket = s.peer socket :=
      peer_setReadyState s socket socket .closed
    cases hq : s.peer socket with
    | none =>
      rw [onClose_of_peer_none (hpeer.trans hq), Prod.mk.injEq] at h
      exact Or.inl ⟨rfl, h.1.symm, h.2.symm⟩
    | some q =>
      rw [onClose_of_peer (hpeer.trans hq), Prod.mk.injEq] at h
      exact Or.inr ⟨q, rfl, h.1.symm, by rw [← h.2, h.1]⟩

theorem peer_leave (s : SignalingServer) (q : Peer) (a : SocketId) :
    (s.leave q).peer a = s.peer a := by
  rw [peer, connections_leave, peer]

theorem readyState_leave (s : SignalingServer) (q : Peer) (a : SocketId) :
    (s.leave q).readyState a = s.readyState a := by
  rw [readyState, connections_leave, readyState]

end SignalingServer

/-! ## One step -/

section Steps

variable {history : List Input} {s t : SignalingServer} {i : Input} {out : List Sent}

theorem Input.Passive.quiet (hi : i.Passive) :
    (∀ a r p, i ≠ .message a (some (.join r p))) ∧ ∀ a, i ≠ .close a := by
  constructor
  · intro a r p h
    rw [h] at hi
    exact hi
  · intro a h
    rw [h] at hi
    exact hi

theorem registered_passive (hi : i.Passive) (h : step s i = some (t, out)) (r p : String) :
    t.registered r p = s.registered r p := by
  rw [registered, member_congr (step_passive hi h).1, registered]

theorem Recorded.passive (hrec : Recorded history s) (hi : i.Passive)
    (h : step s i = some (t, out)) : Recorded (history ++ [i]) t := by
  obtain ⟨hrooms, hpeer⟩ := step_passive hi h
  constructor
  · intro r p e he
    rw [member_congr hrooms] at he
    exact hrec.named r p e he
  · intro r p socket hh
    rw [holder_snoc_of_quiet hi.quiet.1 hi.quiet.2] at hh
    rw [hpeer]
    exact hrec.last r p socket hh

theorem follows_passive (hi : i.Passive) (h : step s i = some (t, out))
    (hf : Follows history s) : Follows (history ++ [i]) t := by
  intro r p socket
  rw [registered_passive hi h, holder_snoc_of_quiet hi.quiet.1 hi.quiet.2]
  exact hf r p socket

/-! ### A join -/

section Join

variable {socket : SocketId} {roomId peerId : String}

theorem holder_join {r p : String} {a : SocketId} :
    Holder (history ++ [.message socket (some (.join roomId peerId))]) r p a ↔
      (r = roomId ∧ p = peerId ∧ a = socket) ∨
        (Holder history r p a ∧ a ≠ socket ∧ ¬ (r = roomId ∧ p = peerId)) := by
  rw [holder_snoc]
  simp only [Displaces, Input.message.injEq, Option.some.injEq, SignalingMessage.join.injEq, not_or]
  constructor
  all_goals
    intro h
    rcases h with ⟨rfl, rfl, rfl⟩ | ⟨hh, hne, hplace⟩
    · exact Or.inl ⟨rfl, rfl, rfl⟩
    · exact Or.inr ⟨hh, Ne.symm hne, fun hc => hplace ⟨hc.1.symm, hc.2.symm⟩⟩

theorem Recorded.join (hrec : Recorded history s)
    (h : step s (.message socket (some (.join roomId peerId))) = some (t, out)) :
    Recorded (history ++ [.message socket (some (.join roomId peerId))]) t := by
  obtain ⟨hopen, hjoin⟩ := step_join h
  have ht : t = (s.join socket roomId peerId).1 := (congrArg Prod.fst hjoin).symm
  constructor
  · intro r p e he
    rw [ht, member_join] at he
    by_cases hplace : r = roomId ∧ p = peerId
    · rw [if_pos hplace, Option.some.injEq] at he
      rw [← he]
      exact ⟨hplace.2.symm, hplace.1.symm⟩
    · rw [if_neg hplace] at he
      exact hrec.named r p e he
  · intro r p a hh
    rw [ht, peer_join hopen]
    rcases holder_join.mp hh with ⟨rfl, rfl, rfl⟩ | ⟨hh, hne, -⟩
    · rw [if_pos rfl]
    · rw [if_neg hne]
      exact hrec.last r p a hh

theorem follows_join (hrec : Recorded history s) (hf : Follows history s)
    (h : step s (.message socket (some (.join roomId peerId))) = some (t, out)) :
    Follows (history ++ [.message socket (some (.join roomId peerId))]) t ↔
      Settled s (.message socket (some (.join roomId peerId))) := by
  obtain ⟨hopen, hjoin⟩ := step_join h
  have ht : t = (s.join socket roomId peerId).1 := (congrArg Prod.fst hjoin).symm
  constructor
  · intro hf' q hq hreg
    by_contra hplace
    have hreg' : t.registered q.room q.id = some socket := by
      rw [ht, registered_join, if_neg hplace]
      exact hreg
    rcases holder_join.mp ((hf' _ _ _).mp hreg') with ⟨hr, hp, -⟩ | ⟨-, hne, -⟩
    · exact hplace ⟨hr, hp⟩
    · exact hne rfl
  · intro hset r p a
    rw [ht, registered_join, holder_join]
    by_cases hplace : r = roomId ∧ p = peerId
    · rw [if_pos hplace, Option.some.injEq]
      constructor
      · intro ha
        exact Or.inl ⟨hplace.1, hplace.2, ha.symm⟩
      · intro ha
        rcases ha with ⟨-, -, rfl⟩ | ⟨-, -, hne⟩
        · rfl
        · exact absurd hplace hne
    · rw [if_neg hplace, hf r p a]
      constructor
      · intro hh
        refine Or.inr ⟨hh, fun ha => ?_, hplace⟩
        subst ha
        have hlast := hrec.last r p a hh
        exact hplace (hset _ hlast ((hf r p a).mpr hh))
      · intro hh
        rcases hh with ⟨hr, hp, -⟩ | ⟨hh, -, -⟩
        · exact absurd ⟨hr, hp⟩ hplace
        · exact hh

end Join

/-! ### A close -/

section Close

variable {socket : SocketId}

theorem holder_close {r p : String} {a : SocketId} :
    Holder (history ++ [.close socket]) r p a ↔ Holder history r p a ∧ a ≠ socket := by
  rw [holder_snoc]
  simp only [Displaces, reduceCtorEq, false_or]
  rw [ne_comm, ne_eq]

section

variable (h : step s (.close socket) = some (t, out))
include h

theorem peer_close (a : SocketId) : t.peer a = s.peer a := by
  obtain ⟨-, ⟨-, ht, -⟩ | ⟨q, -, ht, -⟩⟩ := step_close h
  · rw [ht, peer_setReadyState]
  · rw [ht, peer_leave, peer_setReadyState]

theorem member_close (r p : String) :
    t.member r p =
      if ∃ q, s.peer socket = some q ∧ r = q.room ∧ p = q.id then none else s.member r p := by
  obtain ⟨-, ⟨hq, ht, -⟩ | ⟨q, hq, ht, -⟩⟩ := step_close h
  · rw [if_neg (by simp [hq]), ht, member_congr (rooms_setReadyState s socket .closed)]
  · rw [ht, member_leave, member_congr (rooms_setReadyState s socket .closed)]
    by_cases hplace : r = q.room ∧ p = q.id
    · rw [if_pos hplace, if_pos ⟨q, hq, hplace⟩]
    · rw [if_neg hplace, if_neg]
      intro hex
      obtain ⟨q', hq', hplace'⟩ := hex
      rw [hq, Option.some.injEq] at hq'
      exact hplace (hq' ▸ hplace')

theorem registered_close (r p : String) :
    t.registered r p =
      if ∃ q, s.peer socket = some q ∧ r = q.room ∧ p = q.id then none
      else s.registered r p := by
  rw [registered, member_close h]
  split <;> rfl

end

theorem Recorded.close (hrec : Recorded history s) (h : step s (.close socket) = some (t, out)) :
    Recorded (history ++ [.close socket]) t := by
  constructor
  · intro r p e he
    rw [member_close h] at he
    split_ifs at he
    exact hrec.named r p e he
  · intro r p a hh
    rw [peer_close h]
    exact hrec.last r p a (holder_close.mp hh).1

/-- After a close the registry is right exactly when the closing socket's last join was
still its own place, or nobody's. -/
theorem follows_close (hrec : Recorded history s) (hf : Follows history s)
    (h : step s (.close socket) = some (t, out)) :
    Follows (history ++ [.close socket]) t ↔ Settled s (.close socket) := by
  constructor
  · intro hf' q other hq hreg
    by_contra hne
    have hh : Holder (history ++ [.close socket]) q.room q.id other :=
      holder_close.mpr ⟨(hf _ _ _).mp hreg, hne⟩
    have hreg' := (hf' _ _ _).mpr hh
    rw [registered_close h, if_pos ⟨q, hq, rfl, rfl⟩] at hreg'
    cases hreg'
  · intro hset r p a
    rw [registered_close h, holder_close]
    by_cases hplace : ∃ q, s.peer socket = some q ∧ r = q.room ∧ p = q.id
    · rw [if_pos hplace]
      obtain ⟨q, hq, rfl, rfl⟩ := hplace
      constructor
      · intro hc
        cases hc
      · intro hh
        exact absurd (hset q a hq ((hf _ _ _).mpr hh.1)) hh.2
    · rw [if_neg hplace, hf r p a]
      constructor
      · intro hh
        refine ⟨hh, fun ha => hplace ?_⟩
        subst ha
        exact ⟨_, hrec.last r p a hh, rfl, rfl⟩
      · intro hh
        exact hh.1

end Close

theorem Recorded.step (hrec : Recorded history s) (h : step s i = some (t, out)) :
    Recorded (history ++ [i]) t := by
  by_cases hi : i.Passive
  · exact hrec.passive hi h
  · unfold Input.Passive at hi
    split at hi
    · exact hrec.join h
    · exact hrec.close h
    · exact absurd trivial hi

theorem follows_step (hrec : Recorded history s) (hf : Follows history s)
    (h : step s i = some (t, out)) : Follows (history ++ [i]) t ↔ Settled s i := by
  by_cases hi : i.Passive
  · refine ⟨fun _ => ?_, fun _ => follows_passive hi h hf⟩
    unfold Settled
    split
    · exact hi.elim
    · exact hi.elim
    · trivial
  · unfold Input.Passive at hi
    split at hi
    · exact follows_join hrec hf h
    · exact follows_close hrec hf h
    · exact absurd trivial hi

end Steps

/-! ## Runs -/

theorem Recorded.new : Recorded [] SignalingServer.new := by
  constructor
  · intro r p e he
    cases he
  · intro r p socket hh
    exact absurd hh holder_nil

theorem follows_new : Follows [] SignalingServer.new := by
  intro r p socket
  constructor
  · intro h
    cases h
  · intro hh
    exact absurd hh holder_nil

theorem mem_forward {s : SignalingServer} {r p : String} {m : SignalingMessage} {x : Sent} :
    x ∈ s.forward r p m ↔
      ∃ socket, s.registered r p = some socket ∧ s.readyState socket = .isOpen ∧
        x = ⟨socket, m⟩ := by
  unfold forward
  cases hm : s.member r p with
  | none => simp [registered, hm]
  | some e => simp [registered, hm, mem_send]

/-- The registry follows the sockets in every state a run reaches exactly when every step of
the run is settled; and where it does, a relayed message reaches the holder of its target,
as long as its socket is open, and nobody else. -/
theorem registry_follows_sockets {events : List Input} {s : SignalingServer} {sent : List Sent}
    (hr : run step .new events = some (s, sent)) :
    ((∀ pre t out, pre <+: events → run step .new pre = some (t, out) → Follows pre t) ↔
      Along step Settled .new events) ∧
    (Along step Settled .new events → ∀ r p m x, x ∈ s.forward r p m ↔
      ∃ socket, Holder events r p socket ∧ s.readyState socket = .isOpen ∧ x = ⟨socket, m⟩) := by
  have hiff := prefix_history_iff_of_run (C := Settled) (J := Recorded) (P := Follows)
    (fun past s i t out hrec hf h => ⟨hrec.step h, follows_step hrec hf h⟩) [] Recorded.new
    follows_new hr
  simp only [List.nil_append] at hiff
  refine ⟨hiff, fun hset r p m x => ?_⟩
  have hf := hiff.mpr hset events s sent (List.prefix_refl _) hr
  rw [mem_forward]
  simp only [hf r p]

/-- Two clients meet in a room, and one of them leaves. -/
def meet : List Input :=
  [.connection 0, .message 0 (some (.join "room" "a")), .connection 1,
    .message 1 (some (.join "room" "b")), .close 0]

theorem registry_follows_sockets_meet :
    ∃ s sent, run step .new meet = some (s, sent) ∧ Follows meet s := by
  refine ⟨_, _, rfl, (@registry_follows_sockets meet _ _ rfl).1.mpr ?_ meet _ _
    (List.prefix_refl _) rfl⟩
  refine Along.cons trivial rfl (Along.cons ?_ rfl (Along.cons trivial rfl
    (Along.cons ?_ rfl (Along.cons ?_ rfl trivial))))
  · intro q hq
    cases hq
  · intro q hq
    cases hq
  · intro q other hq hreg
    cases hq
    cases hreg
    rfl

/-- A client reconnects: the new socket joins under the id of the stale one, whose close
event comes afterwards. -/
def reconnect : List Input :=
  [.connection 0, .message 0 (some (.join "room" "a")), .connection 1,
    .message 1 (some (.join "room" "a")), .close 0]

/-- The late close of the stale socket takes the entry of the new one, so an offer to the
reconnected client is dropped. -/
theorem late_close_unregisters :
    ∃ s sent, run step .new reconnect = some (s, sent) ∧ Holder reconnect "room" "a" 1 ∧
      s.readyState 1 = .isOpen ∧ s.registered "room" "a" = none ∧
      s.forward "room" "a" (.offer "room" "b" "a" "sdp") = [] := by
  refine ⟨_, _, rfl, ?_, by decide, by decide, by decide⟩
  exact ⟨reconnect.take 3, [.close 0], rfl, by simp [Displaces]⟩

/-! ## Rooms -/

/-- The joins whose sockets an event may send to. -/
def Input.Reaches (s : SignalingServer) (roomId peerId : String) : Input → Prop
  | .message _ (some (.join r _)) => r = roomId
  | .message _ (some (.offer r _ target _)) | .message _ (some (.answer r _ target _))
  | .message _ (some (.iceCandidate r _ target _)) => r = roomId ∧ target = peerId
  | .close socket => ∃ q, s.peer socket = some q ∧ q.room = roomId
  | _ => False

/-- Every entry is of a socket that joined under its room and id. -/
def Entered (history : List Input) (s : SignalingServer) : Prop :=
  ∀ r p e, s.member r p = some e → .message e.socket (some (.join r p)) ∈ history

variable {history : List Input} {s t : SignalingServer} {i : Input} {out : List Sent}

theorem entered_step (he : Entered history s) (h : step s i = some (t, out)) :
    Entered (history ++ [i]) t := by
  intro r p e hm
  rw [List.mem_append]
  by_cases hi : i.Passive
  · rw [member_congr (step_passive hi h).1] at hm
    exact .inl (he r p e hm)
  · unfold Input.Passive at hi
    split at hi
    · next socket roomId peerId =>
      have ht : (s.join socket roomId peerId).1 = t := congrArg Prod.fst (step_join h).2
      rw [← ht, member_join] at hm
      split at hm
      · next hplace =>
        cases hm
        rw [hplace.1, hplace.2]
        exact .inr (List.mem_singleton_self _)
      · exact .inl (he r p e hm)
    · rw [member_close h] at hm
      split at hm
      · cases hm
      · exact .inl (he r p e hm)
    · exact absurd trivial hi

theorem reaches_of_step (he : Entered history s) (h : step s i = some (t, out)) {x : Sent}
    (hx : x ∈ out) :
    ∃ r p, i.Reaches s r p ∧ .message x.socket (some (.join r p)) ∈ history ++ [i] := by
  have hnext := entered_step he h
  have hrelay {r p : String} {m : SignalingMessage} (hx : x ∈ s.forward r p m) :
      .message x.socket (some (.join r p)) ∈ history ++ [i] := by
    obtain ⟨socket, hreg, -, rfl⟩ := mem_forward.mp hx
    obtain ⟨e, hm, rfl⟩ := registered_eq_some.mp hreg
    exact List.mem_append_left _ (he r p e hm)
  cases i with
  | close socket =>
    obtain ⟨-, ⟨-, -, rfl⟩ | ⟨q, hq, -, rfl⟩⟩ := step_close h
    · cases hx
    · obtain ⟨p, e, hm, -, -, rfl⟩ := mem_broadcast.mp hx
      exact ⟨q.room, p, ⟨q, hq, rfl⟩, hnext _ p e hm⟩
  | message socket parsed =>
    rw [step] at h
    split_ifs at h
    match parsed with
    | some (.join roomId peerId) =>
      cases h
      obtain ⟨p, e, hm, -, ⟨-, rfl⟩ | ⟨-, rfl⟩⟩ := mem_introduce.mp hx
      · exact ⟨roomId, p, rfl, List.mem_append_left _ (he _ p e (member_of_member_joining hm))⟩
      · exact ⟨roomId, peerId, rfl, List.mem_append_right _ (List.mem_singleton_self _)⟩
    | some (.offer r _ target _) | some (.answer r _ target _)
    | some (.iceCandidate r _ target _) =>
      cases h
      exact ⟨r, target, ⟨rfl, rfl⟩, hrelay hx⟩
    | none | some (.peerJoined _) | some (.peerLeft _) =>
      cases h
      cases hx
  | _ =>
    rw [step] at h
    split_ifs at h
    cases h
    cases hx

/-- In every run, what an event sends goes to sockets that joined the room of the event; an offer,
an answer or a candidate goes to sockets that joined as its target. -/
theorem sent_within_room {events : List Input} {sent : List Sent}
    (hr : run step .new events = some (s, sent)) (h : step s i = some (t, out)) :
    ∀ x ∈ out, ∃ r p, i.Reaches s r p ∧ .message x.socket (some (.join r p)) ∈ events ++ [i] := by
  have he : Entered events s :=
    run_history (I := fun past _ s => Entered past s) (C := fun _ _ => True)
      (fun _ _ _ _ _ _ he _ h => entered_step he h) (fun _ _ _ hm => by cases hm)
      (along_of_forall_mem (P := fun _ => True) (fun _ _ => trivial) _) hr
  exact fun x hx => reaches_of_step he h hx

theorem sent_within_room_meet :
    ∃ s t out, step s (.message 1 (some (.join "room" "b"))) = some (t, out) ∧ ∀ x ∈ out, ∃ r p,
      Input.Reaches s r p (.message 1 (some (.join "room" "b"))) ∧
        .message x.socket (some (.join r p)) ∈ meet.take 4 :=
  ⟨_, _, _, rfl, @sent_within_room _ _ _ _ (meet.take 3) _ rfl rfl⟩

end NodeWebrtc.Signaling
