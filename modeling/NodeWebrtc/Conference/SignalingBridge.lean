import NodeWebrtc.Lib.Machine

/-! # The signaling bridges of a conference server

A server keeps a handle for each of its rooms. With signaling attached, every handle gets a
bridge: a signaling client whose handlers forward participant messages to the room. A bridge
is entered in the bridge map when its client has connected, and leaves it when the room is
destroyed or closed.

The steps are what runs between two awaits. The answers of the native server and the
outcomes of the connects are inputs and come in any order. A rejected attach is nobody's to
catch; the process goes on, as one with a handler for unhandled rejections does.
-/

namespace NodeWebrtc.SignalingBridge

abbrev ClientId := Nat

abbrev RoomHandle := Nat

structure SignalingBridgeConfig where
  url : String
  serverPeerId : Option String
deriving DecidableEq, Repr

def DEFAULT_SERVER_PEER_ID : String := "conference-server"

/-- Where a client is between `connect` and `disconnect`. -/
inductive ClientStatus where
  | connecting | connected | failed | disconnected
deriving DecidableEq, Repr

/-- A `SignalingClient` that a bridge made, and the room its handlers forward to. -/
structure SignalingClient where
  roomId : String
  room : RoomHandle
  url : String
  peerId : String
  status : ClientStatus
deriving DecidableEq, Repr

/-- An entry of the room map; a map is iterated in the order of the positions. -/
structure RoomEntry where
  position : Nat
  roomId : String
  room : RoomHandle
deriving DecidableEq, Repr

/-- An async method at one of its awaits: at the native call, or at the detach of the bridge. -/
inductive Call where
  | createRoom (roomId : String)
  | getRoom (roomId : String)
  | destroyDetached (roomId : String)
  | destroyRoom (roomId : String)
  | close (roomId : String)
  | closedDetached (roomId : String)
deriving DecidableEq, Repr

/-- A run of `wireExistingRooms`: the position it has come to, and the connect it awaits. -/
structure WireLoop where
  position : Nat
  waiting : Option ClientId
deriving DecidableEq, Repr

inductive ServerEvent where
  | roomCreated (roomId : String)
  | roomDestroyed (roomId : String)
deriving DecidableEq, Repr

def ServerEvent.roomId : ServerEvent → String
  | .roomCreated roomId | .roomDestroyed roomId => roomId

/-- How a native call ends: with a room or without an error, with no room, or rejected. -/
inductive NativeResult where
  | ok | missing | rejected
deriving DecidableEq, Repr

/-- The server, the calls and connects in progress, and what it has emitted, newest first. -/
structure ConferenceServer where
  rooms : List RoomEntry
  nextPosition : Nat
  nextRoom : RoomHandle
  signalingBridge : Option SignalingBridgeConfig
  bridges : String → Option ClientId
  clients : ClientId → Option SignalingClient
  nextClient : ClientId
  calls : List Call
  wireLoops : List WireLoop
  emitted : List ServerEvent

inductive Input where
  | createRoom (roomId : String)
  | getRoom (roomId : String)
  | destroyRoom (roomId : String)
  | closeRoom (roomId : String)
  | attachSignaling (signaling : SignalingBridgeConfig)
  | nativeSettled (call : Call) (result : NativeResult)
  | detached (call : Call)
  | connectSettled (client : ClientId) (connected : Bool)
  | wireResumed (loop : WireLoop)
deriving DecidableEq, Repr

namespace ConferenceServer

def new : ConferenceServer :=
  ⟨[], 1, 0, none, fun _ => none, fun _ => none, 0, [], [], []⟩

/-! ## The maps -/

def setRoom (s : ConferenceServer) (roomId : String) (room : RoomHandle) : ConferenceServer :=
  if s.rooms.any fun entry => entry.roomId = roomId then
    { s with
      rooms := s.rooms.map fun entry =>
        if entry.roomId = roomId then { entry with room := room } else entry }
  else
    { s with
      rooms := s.rooms ++ [⟨s.nextPosition, roomId, room⟩]
      nextPosition := s.nextPosition + 1 }

def deleteRoom (s : ConferenceServer) (roomId : String) : ConferenceServer :=
  { s with rooms := s.rooms.filter fun entry => entry.roomId ≠ roomId }

def setClient (s : ConferenceServer) (c : ClientId) (client : SignalingClient) : ConferenceServer :=
  { s with clients := fun d => if d = c then some client else s.clients d }

def setBridge (s : ConferenceServer) (roomId : String) (bridge : Option ClientId) :
    ConferenceServer :=
  { s with bridges := fun id => if id = roomId then bridge else s.bridges id }

/-! ## Bridges -/

/-- `attachSignalingBridge` up to its await: the client that is connecting, unless the room
has a bridge. -/
def attachSignalingBridge (s : ConferenceServer) (roomId : String) (room : RoomHandle)
    (config : SignalingBridgeConfig) : ConferenceServer × Option ClientId :=
  match s.bridges roomId with
  | some _ => (s, none)
  | none =>
    let serverPeerId := config.serverPeerId.getD DEFAULT_SERVER_PEER_ID
    let client : SignalingClient := ⟨roomId, room, config.url, serverPeerId, .connecting⟩
    ({ s.setClient s.nextClient client with nextClient := s.nextClient + 1 }, some s.nextClient)

def detachSignalingBridge (s : ConferenceServer) (roomId : String) : ConferenceServer :=
  match s.bridges roomId with
  | none => s
  | some c =>
    match s.clients c with
    | none => s.setBridge roomId none
    | some client => (s.setClient c { client with status := .disconnected }).setBridge roomId none

/-- The connect of a client settles. The await behind a connected one enters the bridge; a
`wireExistingRooms` that awaits the attach goes on, or ends with its rejection. -/
def settleConnect (s : ConferenceServer) (c : ClientId) (client : SignalingClient) :
    Bool → ConferenceServer
  | true =>
    let s := (s.setClient c { client with status := .connected }).setBridge client.roomId (some c)
    { s with
      wireLoops := s.wireLoops.map fun loop =>
        if loop.waiting = some c then { loop with waiting := none } else loop }
  | false =>
    let s := s.setClient c { client with status := .failed }
    { s with wireLoops := s.wireLoops.filter fun loop => loop.waiting ≠ some c }

def wireNext (s : ConferenceServer) (loop : WireLoop) : ConferenceServer :=
  match s.signalingBridge, s.rooms.find? fun entry => loop.position < entry.position with
  | some config, some entry =>
    let (s, waiting) := s.attachSignalingBridge entry.roomId entry.room config
    { s with wireLoops := ⟨entry.position, waiting⟩ :: s.wireLoops.erase loop }
  | _, _ => { s with wireLoops := s.wireLoops.erase loop }

def registerRoom (s : ConferenceServer) (roomId : String) : ConferenceServer :=
  let room := s.nextRoom
  let s := { s.setRoom roomId room with nextRoom := s.nextRoom + 1 }
  match s.signalingBridge with
  | none => s
  | some config => (s.attachSignalingBridge roomId room config).1

/-! ## Steps -/

def afterNative (s : ConferenceServer) : Call → NativeResult → ConferenceServer
  | .createRoom roomId, .ok =>
    let s := s.registerRoom roomId
    { s with emitted := .roomCreated roomId :: s.emitted }
  | .getRoom roomId, .ok => s.registerRoom roomId
  | .destroyRoom roomId, .ok => { s with emitted := .roomDestroyed roomId :: s.emitted }
  | .close roomId, .ok =>
    let s := s.detachSignalingBridge roomId
    { s with calls := .closedDetached roomId :: s.calls }
  | _, _ => s

def step (s : ConferenceServer) : Input → Option ConferenceServer
  | .createRoom roomId => some { s with calls := .createRoom roomId :: s.calls }
  | .getRoom roomId =>
    if s.rooms.any fun entry => entry.roomId = roomId then some s
    else some { s with calls := .getRoom roomId :: s.calls }
  | .destroyRoom roomId =>
    let s := s.detachSignalingBridge roomId
    some { s with calls := .destroyDetached roomId :: s.calls }
  | .closeRoom roomId => some { s with calls := .close roomId :: s.calls }
  | .attachSignaling signaling =>
    some (({ s with
      signalingBridge := some signaling
      wireLoops := ⟨0, none⟩ :: s.wireLoops } : ConferenceServer).wireNext ⟨0, none⟩)
  | .nativeSettled call result =>
    if call ∈ s.calls then
      match call with
      | .destroyDetached _ | .closedDetached _ => none
      | call => some (({ s with calls := s.calls.erase call } : ConferenceServer).afterNative
          call result)
    else none
  | .detached call =>
    if call ∈ s.calls then
      match call with
      | .destroyDetached roomId =>
        let s := s.deleteRoom roomId
        some { s with calls := .destroyRoom roomId :: s.calls.erase call }
      | .closedDetached roomId =>
        let s := s.deleteRoom roomId
        some { s with
          calls := s.calls.erase call
          emitted := .roomDestroyed roomId :: s.emitted }
      | _ => none
    else none
  | .connectSettled c connected =>
    match s.clients c with
    | none => none
    | some client =>
      if client.status = .connecting then some (s.settleConnect c client connected) else none
  | .wireResumed loop =>
    if loop ∈ s.wireLoops ∧ loop.waiting = none then some (s.wireNext loop) else none

/-- The machine has no outputs; what the server emits is part of its state. -/
def machine : Machine.Step ConferenceServer Input Empty :=
  fun s i => (s.step i).map fun t => (t, [])

/-! ## One bridge for a room -/

/-- A client of the room whose handlers are called for its messages. -/
def Connected (s : ConferenceServer) (roomId : String) (c : ClientId) : Prop :=
  ∃ client, s.clients c = some client ∧ client.roomId = roomId ∧ client.status = .connected

def Connecting (s : ConferenceServer) (roomId : String) : Prop :=
  ∃ c client, s.clients c = some client ∧ client.roomId = roomId ∧ client.status = .connecting

/-- The bridge of the room is detached and its handle not yet deleted. -/
def RemovalPending (calls : List Call) (roomId : String) : Prop :=
  .destroyDetached roomId ∈ calls ∨ .closedDetached roomId ∈ calls

/-- The room was destroyed or closed, and not created again. -/
def Destroyed (emitted : List ServerEvent) (roomId : String) : Prop :=
  emitted.find? (fun event => event.roomId = roomId) = some (.roomDestroyed roomId)

/-- No connect is pending, and no loop over the rooms is running. -/
def Settled (s : ConferenceServer) : Prop :=
  (∀ c client, s.clients c = some client → client.status ≠ .connecting) ∧ s.wireLoops = []

def ConnectFailed (s : ConferenceServer) (entry : RoomEntry) : Prop :=
  ∃ c client, s.clients c = some client ∧ client.roomId = entry.roomId ∧
    client.room = entry.room ∧ client.status = .failed

/-- A room has at most one connected client; once the connects have settled a destroyed room
has no client and no bridge, and a live one has a bridge to its current handle. -/
structure OneBridge (s : ConferenceServer) : Prop where
  one : ∀ roomId c d, s.Connected roomId c → s.Connected roomId d → c = d
  destroyed : s.Settled → ∀ roomId, Destroyed s.emitted roomId →
    (∀ c, ¬s.Connected roomId c) ∧ s.bridges roomId = none
  live : s.Settled → s.signalingBridge ≠ none → ∀ entry ∈ s.rooms,
    ¬RemovalPending s.calls entry.roomId → ¬s.ConnectFailed entry →
      ∃ c client, s.bridges entry.roomId = some c ∧ s.clients c = some client ∧
        client.roomId = entry.roomId ∧ client.room = entry.room ∧ client.status = .connected

end ConferenceServer

end NodeWebrtc.SignalingBridge
