import NodeWebrtc.Lib.InsertMap
import NodeWebrtc.Lib.Machine

/-! # The room signaling server

Sockets join named rooms under peer ids; the server introduces the members of a room to
each other and relays session descriptions and candidates between them. Every handler
runs to its end before the next event, so an event is one step. The WebSocket library
decides when a socket starts closing and when its close event is delivered: both are
inputs.
-/

namespace NodeWebrtc.Signaling

abbrev SocketId := Nat

/-- Where the closing handshake of a socket stands; a server socket is never connecting. -/
inductive ReadyState where
  | isOpen | closing | closed
deriving DecidableEq, Repr

inductive SignalingMessage where
  | join (room peerId : String)
  | offer (room peerId targetPeerId sdp : String)
  | answer (room peerId targetPeerId sdp : String)
  | iceCandidate (room peerId targetPeerId candidate : String)
  | peerJoined (peerId : String)
  | peerLeft (peerId : String)
deriving DecidableEq, Repr

structure Peer where
  id : String
  room : String
  socket : SocketId
deriving DecidableEq, Repr

/-- A socket the server handles, with the `peer` variable its handlers share. -/
structure Connection where
  readyState : ReadyState
  peer : Option Peer
deriving DecidableEq, Repr

structure SignalingServer where
  rooms : InsertMap String (InsertMap String Peer)
  connections : InsertMap SocketId Connection

structure Sent where
  socket : SocketId
  message : SignalingMessage
deriving DecidableEq, Repr

/-- An event of the server: a new socket, a message that parsed or did not, a socket that
starts closing, and its close event. -/
inductive Input where
  | connection (socket : SocketId)
  | message (socket : SocketId) (parsed : Option SignalingMessage)
  | closing (socket : SocketId)
  | close (socket : SocketId)
deriving DecidableEq, Repr

namespace SignalingServer

def new : SignalingServer := ⟨.empty, .empty⟩

/-- The members of a room; a room without a map has none. -/
def room (s : SignalingServer) (roomId : String) : InsertMap String Peer :=
  (s.rooms.get roomId).getD .empty

def member (s : SignalingServer) (roomId peerId : String) : Option Peer :=
  (s.room roomId).get peerId

def readyState (s : SignalingServer) (socket : SocketId) : ReadyState :=
  ((s.connections.get socket).map Connection.readyState).getD .closed

def peer (s : SignalingServer) (socket : SocketId) : Option Peer :=
  (s.connections.get socket).bind Connection.peer

def setReadyState (s : SignalingServer) (socket : SocketId) (r : ReadyState) : SignalingServer :=
  match s.connections.get socket with
  | none => s
  | some c => { s with connections := s.connections.set socket { c with readyState := r } }

def setPeer (s : SignalingServer) (socket : SocketId) (p : Peer) : SignalingServer :=
  match s.connections.get socket with
  | none => s
  | some c => { s with connections := s.connections.set socket { c with peer := some p } }

def setRoom (s : SignalingServer) (roomId : String) (r : InsertMap String Peer) : SignalingServer :=
  { s with rooms := s.rooms.set roomId r }

/-- `socket.close()` of an open socket starts its closing handshake. -/
def closeSocket (s : SignalingServer) (socket : SocketId) : SignalingServer :=
  if s.readyState socket = .isOpen then s.setReadyState socket .closing else s

def send (s : SignalingServer) (socket : SocketId) (m : SignalingMessage) : List Sent :=
  if s.readyState socket = .isOpen then [⟨socket, m⟩] else []

def forward (s : SignalingServer) (roomId targetPeerId : String) (m : SignalingMessage) :
    List Sent :=
  ((s.member roomId targetPeerId).map fun p => s.send p.socket m).getD []

def broadcast (s : SignalingServer) (roomId : String) (m : SignalingMessage)
    (excludePeerId : String) : List Sent :=
  (s.room roomId).values.flatMap fun p => if p.id ≠ excludePeerId then s.send p.socket m else []

/-- Introduces `peerId` on `socket` and every other member of the room to each other. -/
def introduce (s : SignalingServer) (socket : SocketId) (roomId peerId : String) : List Sent :=
  (s.room roomId).values.flatMap fun other =>
    if other.id ≠ peerId then
      s.send other.socket (.peerJoined peerId) ++ s.send socket (.peerJoined other.id)
    else []

/-- Replaces a stale socket: another socket under the joining id is closed and loses its
entry. -/
def replaceStale (s : SignalingServer) (socket : SocketId) (roomId peerId : String) :
    SignalingServer :=
  match s.member roomId peerId with
  | none => s
  | some existing =>
    if existing.socket ≠ socket then
      (s.closeSocket existing.socket).setRoom roomId ((s.room roomId).delete peerId)
    else s

/-- The `join` case of the message handler. The socket's `peer` variable is overwritten; an
entry it holds under another room or id stays. -/
def join (s : SignalingServer) (socket : SocketId) (roomId peerId : String) :
    SignalingServer × List Sent :=
  let s := (s.setPeer socket ⟨peerId, roomId, socket⟩).setRoom roomId (s.room roomId)
  let s := s.replaceStale socket roomId peerId
  (s.setRoom roomId ((s.room roomId).set peerId ⟨peerId, roomId, socket⟩),
    s.introduce socket roomId peerId)

/-- The message handler; text that does not parse and other message types are ignored. -/
def onMessage (s : SignalingServer) (socket : SocketId) :
    Option SignalingMessage → SignalingServer × List Sent
  | none => (s, [])
  | some (.join roomId peerId) => s.join socket roomId peerId
  | some (.offer roomId peerId target sdp) =>
    (s, s.forward roomId target (.offer roomId peerId target sdp))
  | some (.answer roomId peerId target sdp) =>
    (s, s.forward roomId target (.answer roomId peerId target sdp))
  | some (.iceCandidate roomId peerId target candidate) =>
    (s, s.forward roomId target (.iceCandidate roomId peerId target candidate))
  | some (.peerJoined _) => (s, [])
  | some (.peerLeft _) => (s, [])

/-- Removes the id of the closed socket's last join from its room, whatever socket the entry
is of, and an emptied room with it. -/
def leave (s : SignalingServer) (p : Peer) : SignalingServer :=
  match s.rooms.get p.room with
  | none => s
  | some r =>
    if (r.delete p.id).size = 0 then { s with rooms := s.rooms.delete p.room }
    else s.setRoom p.room (r.delete p.id)

def onClose (s : SignalingServer) (socket : SocketId) : SignalingServer × List Sent :=
  match s.peer socket with
  | none => (s, [])
  | some p => (s.leave p, (s.leave p).broadcast p.room (.peerLeft p.id) p.id)

/-- One event. A socket connects once, sends and starts closing until its close event, and
closes once. -/
def step : Machine.Step SignalingServer Input Sent
  | s, .connection socket =>
    if (s.connections.get socket).isSome then none
    else some ({ s with connections := s.connections.set socket ⟨.isOpen, none⟩ }, [])
  | s, .message socket m =>
    if s.readyState socket = .closed then none else some (s.onMessage socket m)
  | s, .closing socket =>
    if s.readyState socket = .closed then none else some (s.closeSocket socket, [])
  | s, .close socket =>
    if s.readyState socket = .closed then none
    else some ((s.setReadyState socket .closed).onClose socket)

/-! ## What each update leaves -/

section Updates

variable (s : SignalingServer) (socket a : SocketId) (roomId peerId r p : String)

variable (m : InsertMap String Peer)

theorem room_setRoom : (s.setRoom roomId m).room r = if r = roomId then m else s.room r := by
  unfold room setRoom
  rw [InsertMap.get_set]
  by_cases h : r = roomId
  · rw [if_pos h, if_pos h, Option.getD_some]
  · rw [if_neg h, if_neg h]

@[simp] theorem peer_setRoom : (s.setRoom roomId m).peer a = s.peer a := rfl

@[simp] theorem readyState_setRoom : (s.setRoom roomId m).readyState a = s.readyState a := rfl

theorem get_connections_of_readyState {s : SignalingServer} {socket : SocketId}
    (h : s.readyState socket ≠ .closed) : ∃ c, s.connections.get socket = some c := by
  cases hget : s.connections.get socket with
  | none => exact absurd (by rw [readyState, hget]; rfl) h
  | some c => exact ⟨c, rfl⟩

@[simp] theorem rooms_setPeer (q : Peer) : (s.setPeer socket q).rooms = s.rooms := by
  unfold setPeer
  split <;> rfl

@[simp] theorem rooms_setReadyState (x : ReadyState) :
    (s.setReadyState socket x).rooms = s.rooms := by
  unfold setReadyState
  split <;> rfl

@[simp] theorem rooms_closeSocket : (s.closeSocket socket).rooms = s.rooms := by
  unfold closeSocket
  split
  · exact rooms_setReadyState s socket .closing
  · rfl

theorem room_congr {s t : SignalingServer} (h : s.rooms = t.rooms) (r : String) :
    s.room r = t.room r := by
  rw [room, room, h]

theorem peer_setPeer {s : SignalingServer} {socket : SocketId}
    (h : s.readyState socket ≠ .closed) (q : Peer) (a : SocketId) :
    (s.setPeer socket q).peer a = if a = socket then some q else s.peer a := by
  obtain ⟨c, hc⟩ := get_connections_of_readyState h
  unfold peer setPeer
  rw [hc]
  rw [InsertMap.get_set]
  by_cases ha : a = socket
  · rw [if_pos ha, if_pos ha, Option.bind_some]
  · rw [if_neg ha, if_neg ha]

@[simp] theorem readyState_setPeer (q : Peer) :
    (s.setPeer socket q).readyState a = s.readyState a := by
  unfold setPeer
  split
  · rfl
  · rename_i c hc
    unfold readyState
    rw [InsertMap.get_set]
    by_cases ha : a = socket
    · rw [if_pos ha, ha, hc]
      rfl
    · rw [if_neg ha]

@[simp] theorem peer_setReadyState (x : ReadyState) :
    (s.setReadyState socket x).peer a = s.peer a := by
  unfold setReadyState
  split
  · rfl
  · rename_i c hc
    unfold peer
    rw [InsertMap.get_set]
    by_cases ha : a = socket
    · rw [if_pos ha, ha, hc]
      rfl
    · rw [if_neg ha]

theorem readyState_setReadyState {s : SignalingServer} {socket : SocketId}
    (h : s.readyState socket ≠ .closed) (x : ReadyState) (a : SocketId) :
    (s.setReadyState socket x).readyState a = if a = socket then x else s.readyState a := by
  obtain ⟨c, hc⟩ := get_connections_of_readyState h
  unfold setReadyState
  rw [hc]
  unfold readyState
  rw [InsertMap.get_set]
  by_cases ha : a = socket
  · rw [if_pos ha, if_pos ha]
    rfl
  · rw [if_neg ha, if_neg ha]

@[simp] theorem peer_closeSocket : (s.closeSocket socket).peer a = s.peer a := by
  unfold closeSocket
  split
  · exact peer_setReadyState s socket a .closing
  · rfl

theorem readyState_closeSocket :
    (s.closeSocket socket).readyState a =
      if a = socket ∧ s.readyState a = .isOpen then .closing else s.readyState a := by
  unfold closeSocket
  by_cases h : s.readyState socket = .isOpen
  · rw [if_pos h, readyState_setReadyState (by rw [h]; decide)]
    by_cases ha : a = socket
    · rw [if_pos ha, if_pos ⟨ha, ha ▸ h⟩]
    · rw [if_neg ha, if_neg fun hc => ha hc.1]
  · rw [if_neg h, if_neg]
    intro hc
    exact h (hc.1 ▸ hc.2)

end Updates

/-! ## What each handler leaves -/

theorem member_replaceStale (s : SignalingServer) (socket : SocketId) (roomId peerId r p : String)
    (h : ¬ (r = roomId ∧ p = peerId)) :
    (s.replaceStale socket roomId peerId).member r p = s.member r p := by
  unfold replaceStale
  split
  · rfl
  · split
    · unfold member
      rw [room_setRoom]
      by_cases hr : r = roomId
      · rw [if_pos hr, InsertMap.get_delete, if_neg fun hp => h ⟨hr, hp⟩, hr]
      · rw [if_neg hr, room_congr (rooms_closeSocket _ _)]
    · rfl

variable {s : SignalingServer} {socket : SocketId}

theorem member_of_member_replaceStale {roomId peerId r p : String} {e : Peer}
    (he : (s.replaceStale socket roomId peerId).member r p = some e) : s.member r p = some e := by
  by_cases hne : r = roomId ∧ p = peerId
  · obtain ⟨rfl, rfl⟩ := hne
    unfold replaceStale at he
    split at he
    · exact he
    · split at he
      · rw [member, room_setRoom, if_pos rfl, InsertMap.get_delete, if_pos rfl] at he
        cases he
      · exact he
  · rwa [member_replaceStale s socket roomId peerId r p hne] at he

theorem peer_replaceStale (s : SignalingServer) (socket a : SocketId) (roomId peerId : String) :
    (s.replaceStale socket roomId peerId).peer a = s.peer a := by
  unfold replaceStale
  split
  · rfl
  · split
    · rw [peer_setRoom, peer_closeSocket]
    · rfl

theorem readyState_replaceStale (s : SignalingServer) (socket a : SocketId)
    (roomId peerId : String) :
    (s.replaceStale socket roomId peerId).readyState a =
      if a ≠ socket ∧ (s.member roomId peerId).map Peer.socket = some a ∧
        s.readyState a = .isOpen then .closing else s.readyState a := by
  unfold replaceStale
  cases hm : s.member roomId peerId with
  | none => simp
  | some existing =>
    dsimp only
    by_cases he : existing.socket = socket
    · rw [if_neg fun h => h he, if_neg]
      intro h
      exact h.1 (Option.some.inj h.2.1 ▸ he)
    · rw [if_pos he, readyState_setRoom, readyState_closeSocket, Option.map_some]
      by_cases ha : a = existing.socket
      · by_cases ho : s.readyState a = .isOpen
        · rw [if_pos ⟨ha, ho⟩, if_pos ⟨ha ▸ he, congrArg some ha.symm, ho⟩]
        · rw [if_neg fun h => ho h.2, if_neg fun h => ho h.2.2]
      · rw [if_neg fun h => ha h.1, if_neg fun h => ha (Option.some.inj h.2.1).symm]

section Join

variable {s : SignalingServer} {socket : SocketId} (h : s.readyState socket ≠ .closed)

/-- The state the joining socket is introduced in: its `peer` is set and a stale socket
under its id is out of the room. -/
def joining (s : SignalingServer) (socket : SocketId) (roomId peerId : String) :
    SignalingServer :=
  ((s.setPeer socket ⟨peerId, roomId, socket⟩).setRoom roomId (s.room roomId)).replaceStale
    socket roomId peerId

section

variable (s)

variable (socket : SocketId)

theorem join_eq (roomId peerId : String) :
    s.join socket roomId peerId =
      ((s.joining socket roomId peerId).setRoom roomId
        (((s.joining socket roomId peerId).room roomId).set peerId ⟨peerId, roomId, socket⟩),
        (s.joining socket roomId peerId).introduce socket roomId peerId) := rfl

theorem room_prepared (q : Peer) (roomId r : String) :
    ((s.setPeer socket q).setRoom roomId (s.room roomId)).room r = s.room r := by
  rw [room_setRoom]
  by_cases hr : r = roomId
  · rw [if_pos hr, hr]
  · rw [if_neg hr]
    exact room_congr (rooms_setPeer _ _ _) _

theorem member_joining {roomId peerId r p : String} (hne : ¬ (r = roomId ∧ p = peerId)) :
    (s.joining socket roomId peerId).member r p = s.member r p := by
  rw [joining, member_replaceStale _ _ _ _ _ _ hne, member, room_prepared, member]

theorem member_of_member_joining {s : SignalingServer} {socket : SocketId}
    {roomId peerId r p : String} {e : Peer}
    (he : (s.joining socket roomId peerId).member r p = some e) : s.member r p = some e := by
  have hold := member_of_member_replaceStale he
  rwa [member, room_prepared, ← member] at hold

theorem readyState_joining (socket a : SocketId) (roomId peerId : String) :
    (s.joining socket roomId peerId).readyState a =
      if a ≠ socket ∧ (s.member roomId peerId).map Peer.socket = some a ∧
        s.readyState a = .isOpen then .closing else s.readyState a := by
  rw [joining, readyState_replaceStale, readyState_setRoom, readyState_setPeer, member,
    room_prepared, member]

theorem member_join (roomId peerId r p : String) :
    (s.join socket roomId peerId).1.member r p =
      if r = roomId ∧ p = peerId then some ⟨peerId, roomId, socket⟩ else s.member r p := by
  rw [join_eq]
  unfold member
  rw [room_setRoom]
  by_cases hr : r = roomId
  · rw [if_pos hr, InsertMap.get_set]
    by_cases hp : p = peerId
    · rw [if_pos hp, if_pos ⟨hr, hp⟩]
    · have hne : ¬ (r = roomId ∧ p = peerId) := fun hc => hp hc.2
      rw [if_neg hp, if_neg hne, ← hr]
      exact member_joining s socket (hr ▸ hne)
  · have hne : ¬ (r = roomId ∧ p = peerId) := fun hc => hr hc.1
    rw [if_neg hr, if_neg hne]
    exact member_joining s socket hne

theorem readyState_join (socket a : SocketId) (roomId peerId : String) :
    (s.join socket roomId peerId).1.readyState a =
      (s.joining socket roomId peerId).readyState a := by
  rw [join_eq, readyState_setRoom]

end

include h in
theorem peer_join (a : SocketId) (roomId peerId : String) :
    (s.join socket roomId peerId).1.peer a =
      if a = socket then some ⟨peerId, roomId, socket⟩ else s.peer a := by
  rw [join_eq, peer_setRoom, joining, peer_replaceStale, peer_setRoom, peer_setPeer h]

end Join

theorem room_leave (s : SignalingServer) (q : Peer) (r : String) :
    (s.leave q).room r = if r = q.room then (s.room r).delete q.id else s.room r := by
  unfold leave
  cases hget : s.rooms.get q.room with
  | none =>
    by_cases hr : r = q.room
    · rw [if_pos hr, room, hr, hget]
      rfl
    · rw [if_neg hr]
  | some m =>
    have hroom : s.room q.room = m := by rw [room, hget, Option.getD_some]
    dsimp only
    by_cases hz : (m.delete q.id).size = 0
    · rw [if_pos hz, room]
      rw [InsertMap.get_delete]
      by_cases hr : r = q.room
      · rw [if_pos hr, if_pos hr, hr, hroom, InsertMap.eq_empty_of_size_eq_zero hz]
        rfl
      · rw [if_neg hr, if_neg hr, room]
    · rw [if_neg hz, room_setRoom]
      by_cases hr : r = q.room
      · rw [if_pos hr, if_pos hr, hr, hroom]
      · rw [if_neg hr, if_neg hr]

theorem member_leave (s : SignalingServer) (q : Peer) (r p : String) :
    (s.leave q).member r p = if r = q.room ∧ p = q.id then none else s.member r p := by
  rw [member, room_leave]
  by_cases hr : r = q.room
  · rw [if_pos hr, InsertMap.get_delete]
    by_cases hp : p = q.id
    · rw [if_pos hp, if_pos ⟨hr, hp⟩]
    · rw [if_neg hp, if_neg fun h => hp h.2, member]
  · rw [if_neg hr, if_neg fun h => hr h.1, member]

@[simp] theorem connections_leave (s : SignalingServer) (q : Peer) :
    (s.leave q).connections = s.connections := by
  unfold leave
  split
  · rfl
  · split <;> rfl

theorem onClose_of_peer_none (h : s.peer socket = none) : s.onClose socket = (s, []) := by
  rw [onClose, h]

theorem onClose_of_peer {q : Peer} (h : s.peer socket = some q) :
    s.onClose socket = (s.leave q, (s.leave q).broadcast q.room (.peerLeft q.id) q.id) := by
  rw [onClose, h]

/-! ## Who is sent what -/

theorem mem_send {m : SignalingMessage} {x : Sent} :
    x ∈ s.send socket m ↔ s.readyState socket = .isOpen ∧ x = ⟨socket, m⟩ := by
  unfold send
  by_cases h : s.readyState socket = .isOpen
  · rw [if_pos h, List.mem_singleton]
    simp [h]
  · rw [if_neg h]
    simp [h]

theorem mem_values_room {r : String} {e : Peer} :
    e ∈ (s.room r).values ↔ ∃ p, s.member r p = some e :=
  InsertMap.mem_values_iff _ _

theorem mem_introduce {roomId peerId : String} {x : Sent} :
    x ∈ s.introduce socket roomId peerId ↔
      ∃ p e, s.member roomId p = some e ∧ e.id ≠ peerId ∧
        (s.readyState e.socket = .isOpen ∧ x = ⟨e.socket, .peerJoined peerId⟩ ∨
          s.readyState socket = .isOpen ∧ x = ⟨socket, .peerJoined e.id⟩) := by
  unfold introduce
  rw [List.mem_flatMap]
  constructor
  · intro h
    obtain ⟨e, he, hx⟩ := h
    obtain ⟨p, hp⟩ := mem_values_room.mp he
    by_cases hid : e.id ≠ peerId
    · rw [if_pos hid, List.mem_append, mem_send, mem_send] at hx
      exact ⟨p, e, hp, hid, hx⟩
    · rw [if_neg hid] at hx
      exact absurd hx List.not_mem_nil
  · intro h
    obtain ⟨p, e, hp, hid, hx⟩ := h
    refine ⟨e, mem_values_room.mpr ⟨p, hp⟩, ?_⟩
    rw [if_pos hid, List.mem_append, mem_send, mem_send]
    exact hx

theorem mem_broadcast {roomId excludePeerId : String} {m : SignalingMessage} {x : Sent} :
    x ∈ s.broadcast roomId m excludePeerId ↔
      ∃ p e, s.member roomId p = some e ∧ e.id ≠ excludePeerId ∧
        s.readyState e.socket = .isOpen ∧ x = ⟨e.socket, m⟩ := by
  unfold broadcast
  rw [List.mem_flatMap]
  constructor
  · intro h
    obtain ⟨e, he, hx⟩ := h
    obtain ⟨p, hp⟩ := mem_values_room.mp he
    by_cases hid : e.id ≠ excludePeerId
    · rw [if_pos hid, mem_send] at hx
      exact ⟨p, e, hp, hid, hx⟩
    · rw [if_neg hid] at hx
      exact absurd hx List.not_mem_nil
  · intro h
    obtain ⟨p, e, hp, hid, hx⟩ := h
    refine ⟨e, mem_values_room.mpr ⟨p, hp⟩, ?_⟩
    rw [if_pos hid, mem_send]
    exact hx

end SignalingServer

end NodeWebrtc.Signaling
