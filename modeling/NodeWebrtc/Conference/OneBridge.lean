import Mathlib.Data.List.Nodup
import NodeWebrtc.Conference.SignalingBridge

/-! # When a room has one bridge

A bridge starts at one await and is entered at another, and a detach only sees bridges that
are entered. Steps that do not overlap a pending connect or a removal of the same room keep
the bridges and the rooms in step.
-/

namespace NodeWebrtc.SignalingBridge

namespace ConferenceServer

/-! ## Steps that do not overlap -/

/-- The handle has a client, connecting, connected or failed. -/
def Attached (s : ConferenceServer) (entry : RoomEntry) : Prop :=
  ∃ c client, s.clients c = some client ∧ client.roomId = entry.roomId ∧
    client.room = entry.room ∧ client.status ≠ .disconnected

/-- A new handle of the room finds no removal, and no bridge or connect when signaling is
attached. -/
def CanRegister (s : ConferenceServer) (roomId : String) : Prop :=
  ¬RemovalPending s.calls roomId ∧ .destroyRoom roomId ∉ s.calls ∧
    (s.signalingBridge ≠ none → ¬s.Connecting roomId ∧ s.bridges roomId = none)

/-- The next room of the loop has no pending connect and is not being removed. -/
def CanWire (s : ConferenceServer) (loop : WireLoop) : Prop :=
  ∀ entry, s.rooms.find? (fun entry => loop.position < entry.position) = some entry →
    ¬s.Connecting entry.roomId ∧ ¬RemovalPending s.calls entry.roomId

/-- The step overlaps no pending connect and no removal of its room, registers no room that
was destroyed, and is no failed connect that ends a loop before a room without a client. -/
def Apart (s : ConferenceServer) : Input → Prop
  | .destroyRoom roomId => ¬s.Connecting roomId
  | .attachSignaling _ => s.CanWire ⟨0, none⟩
  | .nativeSettled (.createRoom roomId) .ok => s.CanRegister roomId
  | .nativeSettled (.getRoom roomId) .ok => s.CanRegister roomId ∧ ¬Destroyed s.emitted roomId
  | .nativeSettled (.close roomId) .ok => ¬s.Connecting roomId
  | .connectSettled c false => ∀ loop ∈ s.wireLoops, loop.waiting = some c →
      ∀ entry ∈ s.rooms, loop.position < entry.position → s.Attached entry
  | .wireResumed loop => s.CanWire loop
  | _ => True

end ConferenceServer

open ConferenceServer

def SignalingClient.isOpen (client : SignalingClient) : Prop :=
  client.status = .connecting ∨ client.status = .connected

/-- Rooms, bridges and clients in step: the open client of a room forwards to its current
handle, the bridge map has exactly the connected clients, and a removed room has no handle. -/
structure InStep (s : ConferenceServer) : Prop where
  oneOpen : ∀ {c d client other}, s.clients c = some client → s.clients d = some other →
    client.isOpen → other.isOpen → client.roomId = other.roomId → c = d
  openRoom : ∀ {c client}, s.clients c = some client → client.isOpen →
    ¬RemovalPending s.calls client.roomId ∧
      ∃ entry ∈ s.rooms, entry.roomId = client.roomId ∧ entry.room = client.room
  bridged : ∀ {roomId c}, s.bridges roomId = some c → s.Connected roomId c
  connected : ∀ {roomId c}, s.Connected roomId c → s.bridges roomId = some c
  removed : ∀ {roomId}, Destroyed s.emitted roomId ∨ .destroyRoom roomId ∈ s.calls →
    ∀ entry ∈ s.rooms, entry.roomId ≠ roomId
  unattached : s.signalingBridge = none → ∀ c, s.clients c = none
  ordered : s.rooms.Pairwise fun a b => a.position < b.position ∧ a.roomId ≠ b.roomId
  positions : 0 < s.nextPosition ∧
    ∀ entry ∈ s.rooms, 0 < entry.position ∧ entry.position < s.nextPosition
  fresh : ∀ {c client}, s.clients c = some client → c < s.nextClient

/-- With signaling attached every room has a client or is ahead of a loop. -/
def Covered (s : ConferenceServer) : Prop :=
  s.signalingBridge ≠ none → ∀ entry ∈ s.rooms, ¬RemovalPending s.calls entry.roomId →
    s.Attached entry ∨ ∃ loop ∈ s.wireLoops, loop.position < entry.position

/-! ## The room map -/

variable {s : ConferenceServer}

theorem InStep.entry_eq (h : InStep s) {a b : RoomEntry} (ha : a ∈ s.rooms) (hb : b ∈ s.rooms)
    (hid : a.roomId = b.roomId) : a = b := by
  have hnodup : (s.rooms.map RoomEntry.roomId).Nodup := by
    rw [List.nodup_iff_pairwise_ne, List.pairwise_map]
    exact h.ordered.imp fun hab => hab.2
  exact List.inj_on_of_nodup_map hnodup ha hb hid

variable {entry : RoomEntry}

theorem next_first {rooms : List RoomEntry} {position : Nat} {other : RoomEntry}
    (hordered : rooms.Pairwise fun a b => a.position < b.position ∧ a.roomId ≠ b.roomId)
    (hfind : rooms.find? (fun entry => position < entry.position) = some entry)
    (hother : other ∈ rooms) (hlt : position < other.position) :
    other = entry ∨ entry.position < other.position := by
  induction rooms with
  | nil => cases hother
  | cons a rooms ih =>
    rw [List.pairwise_cons] at hordered
    rw [List.find?_cons] at hfind
    by_cases ha : position < a.position
    · simp only [ha, decide_true, Option.some.injEq] at hfind
      subst hfind
      cases hother with
      | head => exact Or.inl rfl
      | tail _ hmem => exact Or.inr (hordered.1 other hmem).1
    · simp only [ha] at hfind
      cases hother with
      | head => exact absurd hlt ha
      | tail _ hmem => exact ih hordered.2 hfind hmem

variable {roomId : String}

theorem mem_setRoom {room : RoomHandle} (h : entry ∈ (s.setRoom roomId room).rooms) :
    (entry.roomId = roomId ∧ entry.room = room ∧
      ((∃ old ∈ s.rooms, old.position = entry.position) ∨ entry.position = s.nextPosition)) ∨
      (entry.roomId ≠ roomId ∧ entry ∈ s.rooms) := by
  unfold setRoom at h
  split at h
  · obtain ⟨old, hold, rfl⟩ := List.mem_map.mp h
    by_cases hid : old.roomId = roomId
    · rw [if_pos hid]
      exact Or.inl ⟨hid, rfl, Or.inl ⟨old, hold, rfl⟩⟩
    · rw [if_neg hid]
      exact Or.inr ⟨hid, hold⟩
  · rename_i hnew
    cases List.mem_append.mp h with
    | inl hmem =>
      refine Or.inr ⟨?_, hmem⟩
      intro hid
      exact hnew (List.any_eq_true.mpr ⟨entry, hmem, decide_eq_true hid⟩)
    | inr hmem =>
      cases List.mem_singleton.mp hmem
      exact Or.inl ⟨rfl, rfl, Or.inr rfl⟩

theorem setRoom_spec (s : ConferenceServer) (roomId : String) (room : RoomHandle) :
    (∃ entry ∈ (s.setRoom roomId room).rooms, entry.roomId = roomId ∧ entry.room = room) ∧
      ∀ entry ∈ s.rooms, entry.roomId ≠ roomId → entry ∈ (s.setRoom roomId room).rooms := by
  unfold setRoom
  split
  · rename_i hold
    obtain ⟨old, hmem, hid⟩ := List.any_eq_true.mp hold
    have hid : old.roomId = roomId := of_decide_eq_true hid
    constructor
    · exact ⟨{ old with room := room }, List.mem_map.mpr ⟨old, hmem, by rw [if_pos hid]⟩, hid, rfl⟩
    · intro entry hentry hne
      exact List.mem_map.mpr ⟨entry, hentry, by rw [if_neg hne]⟩
  · exact ⟨⟨_, List.mem_append_right _ List.mem_cons_self, rfl, rfl⟩,
      fun entry hentry _ => List.mem_append_left _ hentry⟩

theorem setRoom_ordered (h : InStep s) (roomId : String) (room : RoomHandle) :
    (s.setRoom roomId room).rooms.Pairwise
      fun a b => a.position < b.position ∧ a.roomId ≠ b.roomId := by
  unfold setRoom
  split
  · rw [List.pairwise_map]
    apply h.ordered.imp
    intro a b hab
    split <;> split <;> exact hab
  · rename_i hnew
    rw [List.pairwise_append]
    refine ⟨h.ordered, List.pairwise_singleton _ _, ?_⟩
    intro a ha b hb
    cases List.mem_singleton.mp hb
    refine ⟨(h.positions.2 a ha).2, ?_⟩
    intro hid
    exact hnew (List.any_eq_true.mpr ⟨a, ha, decide_eq_true hid⟩)

theorem setRoom_positions (h : InStep s) (roomId : String) (room : RoomHandle) :
    0 < (s.setRoom roomId room).nextPosition ∧
      ∀ entry ∈ (s.setRoom roomId room).rooms,
        0 < entry.position ∧ entry.position < (s.setRoom roomId room).nextPosition := by
  unfold setRoom
  split
  · refine ⟨h.positions.1, ?_⟩
    intro entry hentry
    obtain ⟨old, hold, rfl⟩ := List.mem_map.mp hentry
    have hpos := h.positions.2 old hold
    split <;> exact hpos
  · refine ⟨Nat.succ_pos _, ?_⟩
    intro entry hentry
    cases List.mem_append.mp hentry with
    | inl hmem =>
      have hpos := h.positions.2 entry hmem
      exact ⟨hpos.1, Nat.lt_succ_of_lt hpos.2⟩
    | inr hmem =>
      cases List.mem_singleton.mp hmem
      exact ⟨h.positions.1, Nat.lt_succ_self _⟩

/-! ## Calls and events -/

theorem removalPending_erase (calls : List Call) {call : Call}
    (hdestroy : call ≠ .destroyDetached roomId) (hclosed : call ≠ .closedDetached roomId) :
    RemovalPending (calls.erase call) roomId ↔ RemovalPending calls roomId := by
  unfold RemovalPending
  rw [List.mem_erase_of_ne hdestroy.symm, List.mem_erase_of_ne hclosed.symm]

variable {calls : List Call} {emitted : List ServerEvent}

theorem InStep.of_calls (h : InStep s)
    (hcalls : ∀ roomId, RemovalPending calls roomId → RemovalPending s.calls roomId)
    (hremoved : ∀ roomId, Destroyed emitted roomId ∨ .destroyRoom roomId ∈ calls →
      ∀ entry ∈ s.rooms, entry.roomId ≠ roomId) :
    InStep { s with calls := calls, emitted := emitted } where
  oneOpen := h.oneOpen
  openRoom hc hopen := by
    obtain ⟨hrem, hentry⟩ := h.openRoom hc hopen
    exact ⟨fun hpending => hrem (hcalls _ hpending), hentry⟩
  bridged := h.bridged
  connected := h.connected
  removed hr := hremoved _ hr
  unattached := h.unattached
  ordered := h.ordered
  positions := h.positions
  fresh := h.fresh

theorem Covered.of_calls (h : Covered s)
    (hcalls : ∀ roomId, RemovalPending s.calls roomId → RemovalPending calls roomId) :
    Covered { s with calls := calls, emitted := emitted } :=
  fun hsignaling entry hentry hrem =>
    h hsignaling entry hentry fun hpending => hrem (hcalls _ hpending)

/-! ## Attaching -/

section Attach

variable (s : ConferenceServer) (roomId : String) (room : RoomHandle)
  (config : SignalingBridgeConfig)

@[simp] theorem attach_rooms : (s.attachSignalingBridge roomId room config).1.rooms = s.rooms := by
  unfold attachSignalingBridge
  split <;> rfl

@[simp] theorem attach_calls : (s.attachSignalingBridge roomId room config).1.calls = s.calls := by
  unfold attachSignalingBridge
  split <;> rfl

@[simp] theorem attach_wireLoops :
    (s.attachSignalingBridge roomId room config).1.wireLoops = s.wireLoops := by
  unfold attachSignalingBridge
  split <;> rfl

end Attach

theorem clients_setClient {c d : ClientId} {client other : SignalingClient}
    (h : (s.setClient c client).clients d = some other) :
    (d = c ∧ other = client) ∨ (d ≠ c ∧ s.clients d = some other) := by
  unfold setClient at h
  dsimp only at h
  split at h <;> rename_i hd
  · exact Or.inl ⟨hd, (Option.some.inj h).symm⟩
  · exact Or.inr ⟨hd, h⟩

theorem clients_setClient_ne {c d : ClientId} (client : SignalingClient) (h : d ≠ c) :
    (s.setClient c client).clients d = s.clients d := if_neg h

theorem clients_setClient_self (s : ConferenceServer) (c : ClientId) (client : SignalingClient) :
    (s.setClient c client).clients c = some client := if_pos rfl

theorem InStep.not_open (h : InStep s) (hbridge : s.bridges roomId = none)
    (hconnecting : ¬s.Connecting roomId) {c : ClientId} {client : SignalingClient}
    (hc : s.clients c = some client) (hid : client.roomId = roomId) :
    ¬client.isOpen := by
  intro hopen
  cases hopen with
  | inl hstatus => exact hconnecting ⟨c, client, hc, hid, hstatus⟩
  | inr hstatus =>
    have hbridged := h.connected ⟨client, hc, hid, hstatus⟩
    rw [hbridge] at hbridged
    cases hbridged

theorem InStep.attach (h : InStep s) (hentry : entry ∈ s.rooms)
    (hsignaling : s.signalingBridge ≠ none) (hremoval : ¬RemovalPending s.calls entry.roomId)
    (hconnecting : ¬s.Connecting entry.roomId) (config : SignalingBridgeConfig) :
    InStep (s.attachSignalingBridge entry.roomId entry.room config).1 := by
  unfold attachSignalingBridge
  split
  · exact h
  · rename_i hbridge
    have hnone {c : ClientId} {client : SignalingClient} (hc : s.clients c = some client)
        (hid : client.roomId = entry.roomId) : ¬client.isOpen :=
      h.not_open hbridge hconnecting hc hid
    refine ⟨?_, ?_, ?_, ?_, h.removed, ?_, h.ordered, h.positions, ?_⟩
    · intro c d client other hc hd hopen hother hid
      cases clients_setClient hc with
      | inl hnew =>
        cases clients_setClient hd with
        | inl hnew' => exact hnew.1.trans hnew'.1.symm
        | inr hold =>
          rw [hnew.2] at hid
          exact absurd hother (hnone hold.2 hid.symm)
      | inr hold =>
        cases clients_setClient hd with
        | inl hnew =>
          rw [hnew.2] at hid
          exact absurd hopen (hnone hold.2 hid)
        | inr hold' => exact h.oneOpen hold.2 hold'.2 hopen hother hid
    · intro c client hc hopen
      cases clients_setClient hc with
      | inl hnew =>
        rw [hnew.2]
        exact ⟨hremoval, entry, hentry, rfl, rfl⟩
      | inr hold => exact h.openRoom hold.2 hopen
    · intro roomId c hbridged
      obtain ⟨client, hc, hid, hstatus⟩ := h.bridged hbridged
      have hne : c ≠ s.nextClient := Nat.ne_of_lt (h.fresh hc)
      exact ⟨client, (clients_setClient_ne _ hne).trans hc, hid, hstatus⟩
    · intro roomId c hconnected
      obtain ⟨client, hc, hid, hstatus⟩ := hconnected
      cases clients_setClient hc with
      | inl hnew =>
        rw [hnew.2] at hstatus
        cases hstatus
      | inr hold => exact h.connected ⟨client, hold.2, hid, hstatus⟩
    · intro hnone
      exact absurd hnone hsignaling
    · intro c client hc
      cases clients_setClient hc with
      | inl hnew =>
        rw [hnew.1]
        exact Nat.lt_succ_self _
      | inr hold => exact Nat.lt_succ_of_lt (h.fresh hold.2)

theorem InStep.attached_attach (h : InStep s) {other : RoomEntry} (hother : s.Attached other)
    (roomId : String) (room : RoomHandle) (config : SignalingBridgeConfig) :
    (s.attachSignalingBridge roomId room config).1.Attached other := by
  obtain ⟨c, client, hc, hclient⟩ := hother
  unfold attachSignalingBridge
  split
  · exact ⟨c, client, hc, hclient⟩
  · have hne : c ≠ s.nextClient := Nat.ne_of_lt (h.fresh hc)
    exact ⟨c, client, (clients_setClient_ne _ hne).trans hc, hclient⟩

theorem InStep.attach_attached (h : InStep s) (hentry : entry ∈ s.rooms)
    (config : SignalingBridgeConfig) :
    (s.attachSignalingBridge entry.roomId entry.room config).1.Attached entry := by
  unfold attachSignalingBridge
  split
  · rename_i c hbridge
    obtain ⟨client, hc, hid, hstatus⟩ := h.bridged hbridge
    obtain ⟨-, other, hother, hroomId, hroom⟩ := h.openRoom hc (Or.inr hstatus)
    have heq : other = entry := h.entry_eq hother hentry (hroomId.trans hid)
    subst heq
    refine ⟨c, client, hc, hid, hroom.symm, ?_⟩
    rw [hstatus]
    decide
  · exact ⟨s.nextClient, _, clients_setClient_self _ _ _, rfl, rfl, fun hstatus => by cases hstatus⟩

/-! ## Registering a room -/

theorem InStep.setRoom (h : InStep s) (room : RoomHandle)
    (hclosed : ∀ {c client}, s.clients c = some client →
      client.roomId = roomId → ¬client.isOpen)
    (hremoved : ¬Destroyed s.emitted roomId ∧ .destroyRoom roomId ∉ s.calls) (next : RoomHandle) :
    InStep { s.setRoom roomId room with nextRoom := next } := by
  have hspec := setRoom_spec s roomId room
  have hsame : (s.setRoom roomId room).clients = s.clients ∧
      (s.setRoom roomId room).bridges = s.bridges ∧
      (s.setRoom roomId room).calls = s.calls ∧
      (s.setRoom roomId room).emitted = s.emitted ∧
      (s.setRoom roomId room).signalingBridge = s.signalingBridge ∧
      (s.setRoom roomId room).nextClient = s.nextClient := by
    unfold ConferenceServer.setRoom
    split <;> exact ⟨rfl, rfl, rfl, rfl, rfl, rfl⟩
  obtain ⟨hclients, hbridges, hcalls, hemitted, hsignaling, hnext⟩ := hsame
  refine ⟨?_, ?_, ?_, ?_, ?_, ?_, setRoom_ordered h roomId room,
    setRoom_positions h roomId room, ?_⟩
  · rw [hclients]
    exact h.oneOpen
  · rw [hclients, hcalls]
    intro c client hc hopen
    obtain ⟨hrem, entry, hentry, hid, hroom⟩ := h.openRoom hc hopen
    refine ⟨hrem, entry, hspec.2 entry hentry ?_, hid, hroom⟩
    intro heq
    exact hclosed hc (hid.symm.trans heq) hopen
  · dsimp only [Connected]
    rw [hclients, hbridges]
    exact h.bridged
  · dsimp only [Connected]
    rw [hclients, hbridges]
    exact h.connected
  · rw [hemitted, hcalls]
    intro other hother entry hentry
    cases mem_setRoom hentry with
    | inl hnew =>
      intro hid
      rw [← hid, hnew.1] at hother
      cases hother with
      | inl hdestroyed => exact hremoved.1 hdestroyed
      | inr hcall => exact hremoved.2 hcall
    | inr hold => exact h.removed hother entry hold.2
  · rw [hclients, hsignaling]
    exact h.unattached
  · rw [hclients, hnext]
    exact h.fresh

structure Consistent (s : ConferenceServer) : Prop where
  inStep : InStep s
  covered : Covered s

theorem Consistent.registerRoom (h : Consistent s) (hcan : s.CanRegister roomId)
    (hdestroyed : ¬Destroyed s.emitted roomId) :
    Consistent (s.registerRoom roomId) := by
  obtain ⟨hremoval, hdestroy, hattached⟩ := hcan
  have hclosed {c : ClientId} {client : SignalingClient} (hc : s.clients c = some client)
      (hid : client.roomId = roomId) : ¬client.isOpen := by
    by_cases hsignaling : s.signalingBridge = none
    · rw [h.inStep.unattached hsignaling c] at hc
      cases hc
    · obtain ⟨hconnecting, hbridge⟩ := hattached hsignaling
      exact h.inStep.not_open hbridge hconnecting hc hid
  have hset := h.inStep.setRoom s.nextRoom hclosed ⟨hdestroyed, hdestroy⟩ (s.nextRoom + 1)
  obtain ⟨⟨entry, hentry, hid, hroom⟩, hkept⟩ := setRoom_spec s roomId s.nextRoom
  have hsame : (s.setRoom roomId s.nextRoom).clients = s.clients ∧
      (s.setRoom roomId s.nextRoom).calls = s.calls ∧
      (s.setRoom roomId s.nextRoom).wireLoops = s.wireLoops ∧
      (s.setRoom roomId s.nextRoom).signalingBridge = s.signalingBridge := by
    unfold ConferenceServer.setRoom
    split <;> exact ⟨rfl, rfl, rfl, rfl⟩
  obtain ⟨hclients, hcalls, hloops, hsignaling⟩ := hsame
  unfold ConferenceServer.registerRoom
  dsimp only
  split
  · rename_i hnone
    exact ⟨hset, fun hne => absurd hnone hne⟩
  · rename_i config hsome
    have hne : (s.setRoom roomId s.nextRoom).signalingBridge ≠ none := by
      rw [hsome]
      exact fun h => by cases h
    have hconnecting : ¬({ s.setRoom roomId s.nextRoom with nextRoom := s.nextRoom + 1 } :
        ConferenceServer).Connecting entry.roomId := by
      rw [hid]
      dsimp only [Connecting]
      rw [hclients]
      exact (hattached (hsignaling ▸ hne)).1
    have hrem : ¬RemovalPending (s.setRoom roomId s.nextRoom).calls entry.roomId := by
      rw [hid, hcalls]
      exact hremoval
    have hattach := hset.attach hentry hne hrem hconnecting config
    have hentryAttached := hset.attach_attached hentry config
    rw [hid, hroom] at hattach hentryAttached
    refine ⟨hattach, ?_⟩
    intro _ other hother hpending
    rw [attach_rooms] at hother
    rw [attach_calls] at hpending
    rw [attach_wireLoops]
    by_cases hsame : other.roomId = roomId
    · have heq : other = entry := hset.entry_eq hother hentry (hsame.trans hid.symm)
      rw [heq]
      exact Or.inl hentryAttached
    · have hold : other ∈ s.rooms := by
        cases mem_setRoom hother with
        | inl hnew => exact absurd hnew.1 hsame
        | inr hold => exact hold.2
      rw [hcalls] at hpending
      cases h.covered (hsignaling ▸ hne) other hold hpending with
      | inl hattached =>
        refine Or.inl (hset.attached_attach ?_ roomId s.nextRoom config)
        unfold Attached at hattached ⊢
        rwa [hclients]
      | inr hloop =>
        rw [← hloops] at hloop
        exact Or.inr hloop

/-! ## Removing a room -/

section Detach

variable (s : ConferenceServer) (roomId : String)

@[simp] theorem detach_rooms : (s.detachSignalingBridge roomId).rooms = s.rooms := by
  unfold detachSignalingBridge
  split
  · rfl
  · split <;> rfl

@[simp] theorem detach_nextPosition :
    (s.detachSignalingBridge roomId).nextPosition = s.nextPosition := by
  unfold detachSignalingBridge
  split
  · rfl
  · split <;> rfl

@[simp] theorem detach_calls : (s.detachSignalingBridge roomId).calls = s.calls := by
  unfold detachSignalingBridge
  split
  · rfl
  · split <;> rfl

@[simp] theorem detach_emitted : (s.detachSignalingBridge roomId).emitted = s.emitted := by
  unfold detachSignalingBridge
  split
  · rfl
  · split <;> rfl

@[simp] theorem detach_signalingBridge :
    (s.detachSignalingBridge roomId).signalingBridge = s.signalingBridge := by
  unfold detachSignalingBridge
  split
  · rfl
  · split <;> rfl

@[simp] theorem detach_wireLoops :
    (s.detachSignalingBridge roomId).wireLoops = s.wireLoops := by
  unfold detachSignalingBridge
  split
  · rfl
  · split <;> rfl

@[simp] theorem detach_nextClient :
    (s.detachSignalingBridge roomId).nextClient = s.nextClient := by
  unfold detachSignalingBridge
  split
  · rfl
  · split <;> rfl

theorem detach_bridges (other : String) :
    (s.detachSignalingBridge roomId).bridges other =
      if other = roomId then none else s.bridges other := by
  unfold detachSignalingBridge
  split
  · rename_i hbridge
    by_cases hother : other = roomId
    · rw [if_pos hother, hother, hbridge]
    · rw [if_neg hother]
  · split <;> rfl

end Detach

section DetachClients

variable {s : ConferenceServer} {roomId : String} {c : ClientId} {client : SignalingClient}

theorem InStep.detach_open (h : InStep s) (hconnecting : ¬s.Connecting roomId)
    (hc : (s.detachSignalingBridge roomId).clients c = some client) (hopen : client.isOpen) :
    s.clients c = some client ∧ client.roomId ≠ roomId := by
  unfold detachSignalingBridge at hc
  split at hc
  · rename_i hbridge
    exact ⟨hc, fun hid => h.not_open hbridge hconnecting hc hid hopen⟩
  · rename_i d hbridge
    obtain ⟨other, hd, hid, hstatus⟩ := h.bridged hbridge
    rw [hd] at hc
    cases clients_setClient hc with
    | inl hnew =>
      rw [hnew.2] at hopen
      cases hopen with
      | inl hstatus | inr hstatus => cases hstatus
    | inr hold =>
      refine ⟨hold.2, fun hsame => hold.1 ?_⟩
      exact h.oneOpen hold.2 hd hopen (Or.inr hstatus) (hsame.trans hid.symm)

theorem InStep.detach_other (h : InStep s) (hc : s.clients c = some client)
    (hid : client.roomId ≠ roomId) :
    (s.detachSignalingBridge roomId).clients c = some client := by
  unfold detachSignalingBridge
  split
  · exact hc
  · rename_i d hbridge
    obtain ⟨other, hd, hother, -⟩ := h.bridged hbridge
    rw [hd]
    have hne : c ≠ d := by
      intro heq
      rw [heq, hd, Option.some.injEq] at hc
      exact hid (hc ▸ hother)
    exact (clients_setClient_ne _ hne).trans hc

theorem detach_clients (hc : (s.detachSignalingBridge roomId).clients c = some client) :
    ∃ old, s.clients c = some old := by
  unfold detachSignalingBridge at hc
  split at hc
  · exact ⟨client, hc⟩
  · split at hc
    · exact ⟨client, hc⟩
    · rename_i old hold
      cases clients_setClient hc with
      | inl hnew => exact ⟨old, hnew.1 ▸ hold⟩
      | inr hold => exact ⟨client, hold.2⟩

end DetachClients

theorem Consistent.detach (h : Consistent s) (hconnecting : ¬s.Connecting roomId)
    (hcalls : ∀ other, RemovalPending calls other ↔ RemovalPending s.calls other ∨ other = roomId)
    (hdestroy : ∀ other, .destroyRoom other ∈ calls → .destroyRoom other ∈ s.calls) :
    Consistent { s.detachSignalingBridge roomId with calls := calls } := by
  have hopen {c : ClientId} {client : SignalingClient}
      (hc : (s.detachSignalingBridge roomId).clients c = some client) (hopen : client.isOpen) :=
    h.inStep.detach_open hconnecting hc hopen
  constructor
  · refine ⟨?_, ?_, ?_, ?_, ?_, ?_, ?_, ?_, ?_⟩
    · intro c d client other hc hd hclient hother hid
      exact h.inStep.oneOpen (hopen hc hclient).1 (hopen hd hother).1 hclient hother hid
    · intro c client hc hclient
      obtain ⟨hold, hne⟩ := hopen hc hclient
      obtain ⟨hrem, hentry⟩ := h.inStep.openRoom hold hclient
      rw [hcalls, detach_rooms]
      exact ⟨fun hpending => hpending.elim hrem hne, hentry⟩
    · intro other c hbridge
      rw [detach_bridges] at hbridge
      split_ifs at hbridge
      rename_i hother
      obtain ⟨client, hc, hid, hstatus⟩ := h.inStep.bridged hbridge
      have hne : client.roomId ≠ roomId := by
        rw [hid]
        exact hother
      exact ⟨client, h.inStep.detach_other hc hne, hid, hstatus⟩
    · intro other c hconnected
      obtain ⟨client, hc, hid, hstatus⟩ := hconnected
      obtain ⟨hold, hne⟩ := hopen hc (Or.inr hstatus)
      rw [detach_bridges, if_neg (hid ▸ hne)]
      exact h.inStep.connected ⟨client, hold, hid, hstatus⟩
    · intro other hother
      rw [detach_emitted] at hother
      rw [detach_rooms]
      exact h.inStep.removed (hother.imp_right (hdestroy other))
    · intro hnone c
      rw [detach_signalingBridge] at hnone
      cases hc : (s.detachSignalingBridge roomId).clients c with
      | none => rfl
      | some client =>
        obtain ⟨old, hold⟩ := detach_clients hc
        rw [h.inStep.unattached hnone c] at hold
        cases hold
    · rw [detach_rooms]
      exact h.inStep.ordered
    · rw [detach_rooms, detach_nextPosition]
      exact h.inStep.positions
    · intro c client hc
      obtain ⟨old, hold⟩ := detach_clients hc
      rw [detach_nextClient]
      exact h.inStep.fresh hold
  · intro hsignaling entry hentry hpending
    rw [detach_signalingBridge] at hsignaling
    rw [detach_rooms] at hentry
    rw [hcalls, not_or] at hpending
    rw [detach_wireLoops]
    cases h.covered hsignaling entry hentry hpending.1 with
    | inl hattached =>
      obtain ⟨c, client, hc, hid, hclient⟩ := hattached
      have hne : client.roomId ≠ roomId := by
        rw [hid]
        exact hpending.2
      exact Or.inl ⟨c, client, h.inStep.detach_other hc hne, hid, hclient⟩
    | inr hloop => exact Or.inr hloop

theorem Consistent.delete (h : Consistent s) (hpending : RemovalPending s.calls roomId)
    (hcalls : ∀ other, RemovalPending calls other → RemovalPending s.calls other)
    (hkept : ∀ other, RemovalPending s.calls other → RemovalPending calls other ∨ other = roomId)
    (hdestroy : ∀ other, Destroyed emitted other ∨ .destroyRoom other ∈ calls →
      (Destroyed s.emitted other ∨ .destroyRoom other ∈ s.calls) ∨ other = roomId) :
    Consistent { s.deleteRoom roomId with calls := calls, emitted := emitted } := by
  have hsub {entry : RoomEntry} (hentry : entry ∈ (s.deleteRoom roomId).rooms) :
      entry ∈ s.rooms ∧ entry.roomId ≠ roomId := by
    obtain ⟨hmem, hne⟩ := List.mem_filter.mp hentry
    exact ⟨hmem, of_decide_eq_true hne⟩
  constructor
  · refine ⟨h.inStep.oneOpen, ?_, h.inStep.bridged, h.inStep.connected, ?_, h.inStep.unattached,
      h.inStep.ordered.filter _, ⟨h.inStep.positions.1, ?_⟩, h.inStep.fresh⟩
    · intro c client hc hopen
      obtain ⟨hrem, entry, hentry, hid, hroom⟩ := h.inStep.openRoom hc hopen
      refine ⟨fun hother => hrem (hcalls _ hother), entry, ?_, hid, hroom⟩
      refine List.mem_filter.mpr ⟨hentry, decide_eq_true ?_⟩
      intro heq
      rw [hid] at heq
      exact hrem (heq ▸ hpending)
    · intro other hother entry hentry
      obtain ⟨hmem, hne⟩ := hsub hentry
      cases hdestroy other hother with
      | inl hold => exact h.inStep.removed hold entry hmem
      | inr heq => exact heq ▸ hne
    · intro entry hentry
      exact h.inStep.positions.2 entry (hsub hentry).1
  · intro hsignaling entry hentry hrem
    obtain ⟨hmem, hne⟩ := hsub hentry
    apply h.covered hsignaling entry hmem
    intro hold
    exact (hkept _ hold).elim hrem hne

/-! ## Connects -/

section Settle

variable {s : ConferenceServer} {c d : ClientId} {client other : SignalingClient}
  {status : ClientStatus}

theorem settled_client (hc : s.clients c = some client) (hstatus : client.status = .connecting)
    (hd : (s.setClient c { client with status := status }).clients d = some other) :
    ∃ old, s.clients d = some old ∧ old.roomId = other.roomId ∧ old.room = other.room ∧
      (other.isOpen → old.isOpen) := by
  cases clients_setClient hd with
  | inl hnew =>
    rw [hnew.1, hnew.2]
    exact ⟨client, hc, rfl, rfl, fun _ => Or.inl hstatus⟩
  | inr hold => exact ⟨other, hold.2, rfl, rfl, id⟩

theorem settled_attached (hc : s.clients c = some client) (hstatus : status ≠ .disconnected)
    {entry : RoomEntry} (h : s.Attached entry) :
    (s.setClient c { client with status := status }).Attached entry := by
  obtain ⟨d, other, hd, hid, hroom, hother⟩ := h
  by_cases hsame : d = c
  · rw [hsame, hc] at hd
    cases hd
    exact ⟨c, _, clients_setClient_self _ _ _, hid, hroom, hstatus⟩
  · exact ⟨d, other, (clients_setClient_ne _ hsame).trans hd, hid, hroom, hother⟩

/-- The rooms, bridges and clients are in step when the settled client is entered in the
bridge map exactly when it is connected. -/
theorem InStep.settle (h : InStep s) (hc : s.clients c = some client)
    (hstatus : client.status = .connecting) (bridges : String → Option ClientId)
    (hbridges : ∀ roomId, bridges roomId =
      if roomId = client.roomId ∧ status = .connected then some c else s.bridges roomId)
    (wireLoops : List WireLoop) :
    InStep { s.setClient c { client with status := status } with
      bridges := bridges, wireLoops := wireLoops } := by
  refine ⟨?_, ?_, ?_, ?_, h.removed, ?_, h.ordered, h.positions, ?_⟩
  · intro d e first second hd he hfirst hsecond hid
    obtain ⟨old, hold, hroomId, -, hopen⟩ := settled_client hc hstatus hd
    obtain ⟨old', hold', hroomId', -, hopen'⟩ := settled_client hc hstatus he
    exact h.oneOpen hold hold' (hopen hfirst) (hopen' hsecond)
      ((hroomId.trans hid).trans hroomId'.symm)
  · intro d first hd hfirst
    obtain ⟨old, hold, hroomId, hroom, hopen⟩ := settled_client hc hstatus hd
    rw [← hroomId, ← hroom]
    exact h.openRoom hold (hopen hfirst)
  · intro roomId d hbridge
    dsimp only at hbridge
    rw [hbridges] at hbridge
    split at hbridge
    · rename_i hnew
      cases hbridge
      exact ⟨_, clients_setClient_self _ _ _, hnew.1.symm, hnew.2⟩
    · obtain ⟨other, hd, hid, hother⟩ := h.bridged hbridge
      have hne : d ≠ c := by
        intro heq
        rw [heq, hc, Option.some.injEq] at hd
        rw [← hd, hstatus] at hother
        cases hother
      exact ⟨other, (clients_setClient_ne _ hne).trans hd, hid, hother⟩
  · intro roomId d hconnected
    obtain ⟨other, hd, hid, hother⟩ := hconnected
    dsimp only
    rw [hbridges]
    cases clients_setClient hd with
    | inl hnew =>
      rw [hnew.2] at hid hother
      rw [if_pos ⟨hid.symm, hother⟩, hnew.1]
    | inr hold =>
      have hne : ¬(roomId = client.roomId ∧ status = .connected) := by
        intro hsame
        exact hold.1 (h.oneOpen hold.2 hc (Or.inr hother) (Or.inl hstatus) (hid.trans hsame.1))
      rw [if_neg hne]
      exact h.connected ⟨other, hold.2, hid, hother⟩
  · intro hnone d
    rw [h.unattached hnone c] at hc
    cases hc
  · intro d other hd
    obtain ⟨old, hold, -⟩ := settled_client hc hstatus hd
    exact h.fresh hold

theorem Consistent.settleConnect (h : Consistent s) (hc : s.clients c = some client)
    (hstatus : client.status = .connecting) (connected : Bool)
    (hfailed : connected = false → ∀ loop ∈ s.wireLoops, loop.waiting = some c →
      ∀ entry ∈ s.rooms, loop.position < entry.position → s.Attached entry) :
    Consistent (s.settleConnect c client connected) := by
  cases connected with
  | true =>
    constructor
    · apply h.inStep.settle hc hstatus
      intro roomId
      by_cases hid : roomId = client.roomId <;> simp [setBridge, setClient]
    · intro hsignaling entry hentry hpending
      cases h.covered hsignaling entry hentry hpending with
      | inl hattached => exact Or.inl (settled_attached hc (by decide) hattached)
      | inr hloop =>
        obtain ⟨loop, hmem, hlt⟩ := hloop
        refine Or.inr ⟨_, List.mem_map_of_mem hmem, ?_⟩
        split <;> exact hlt
  | false =>
    constructor
    · apply h.inStep.settle hc hstatus
      simp [setClient]
    · intro hsignaling entry hentry hpending
      cases h.covered hsignaling entry hentry hpending with
      | inl hattached => exact Or.inl (settled_attached hc (by decide) hattached)
      | inr hloop =>
        obtain ⟨loop, hmem, hlt⟩ := hloop
        by_cases hwaiting : loop.waiting = some c
        · have hattached := hfailed rfl loop hmem hwaiting entry hentry hlt
          exact Or.inl (settled_attached hc (by decide) hattached)
        · exact Or.inr ⟨loop, List.mem_filter.mpr ⟨hmem, decide_eq_true hwaiting⟩, hlt⟩

end Settle

/-! ## Loops -/

theorem InStep.of_wireLoops (h : InStep s) (wireLoops : List WireLoop) :
    InStep { s with wireLoops := wireLoops } :=
  ⟨h.oneOpen, h.openRoom, h.bridged, h.connected, h.removed, h.unattached, h.ordered, h.positions,
    h.fresh⟩

theorem Consistent.wireNext (h : Consistent s) {loop : WireLoop} (hcan : s.CanWire loop) :
    Consistent (s.wireNext loop) := by
  unfold ConferenceServer.wireNext
  split
  · rename_i config entry hsignaling hfind
    have hentry := List.mem_of_find?_eq_some hfind
    have hsome : s.signalingBridge ≠ none := by
      rw [hsignaling]
      exact fun h => by cases h
    obtain ⟨hconnecting, hremoval⟩ := hcan entry hfind
    dsimp only
    refine ⟨(h.inStep.attach hentry hsome hremoval hconnecting config).of_wireLoops _, ?_⟩
    intro _ other hother hpending
    rw [attach_rooms] at hother
    rw [attach_calls] at hpending
    rw [attach_wireLoops]
    cases h.covered hsome other hother hpending with
    | inl hattached =>
      exact Or.inl (h.inStep.attached_attach hattached entry.roomId entry.room config)
    | inr hahead =>
      obtain ⟨ahead, hmem, hlt⟩ := hahead
      by_cases hsame : ahead = loop
      · -- The loop itself: it has come to `entry`, and the others after it are still ahead.
        rw [hsame] at hlt
        cases next_first h.inStep.ordered hfind hother hlt with
        | inl heq =>
          rw [heq]
          exact Or.inl (h.inStep.attach_attached hentry config)
        | inr hlater => exact Or.inr ⟨_, List.mem_cons_self, hlater⟩
      · exact Or.inr ⟨ahead, List.mem_cons_of_mem _ ((List.mem_erase_of_ne hsame).mpr hmem), hlt⟩
  · rename_i hend
    refine ⟨h.inStep.of_wireLoops _, ?_⟩
    intro hsignaling other hother hpending
    cases h.covered hsignaling other hother hpending with
    | inl hattached => exact Or.inl hattached
    | inr hahead =>
      obtain ⟨ahead, hmem, hlt⟩ := hahead
      by_cases hsame : ahead = loop
      · -- A loop that ends has no room after its position.
        rw [hsame] at hlt
        cases hconfig : s.signalingBridge with
        | none => exact absurd hconfig hsignaling
        | some config =>
          cases hfind : s.rooms.find? (fun entry => loop.position < entry.position) with
          | none =>
            have hnone := List.find?_eq_none.mp hfind other hother
            exact absurd (decide_eq_true hlt) hnone
          | some entry => exact absurd hfind (hend config entry hconfig)
      · exact Or.inr ⟨ahead, (List.mem_erase_of_ne hsame).mpr hmem, hlt⟩

/-! ## Runs -/

theorem consistent_new : Consistent .new where
  inStep := by
    refine ⟨?_, ?_, ?_, ?_, ?_, fun _ _ => rfl, .nil, ⟨by decide, ?_⟩, ?_⟩
    · intro c d client other hc
      cases hc
    · intro c client hc
      cases hc
    · intro roomId c hbridge
      cases hbridge
    · intro roomId c hconnected
      obtain ⟨client, hc, -⟩ := hconnected
      cases hc
    · intro roomId _ entry hentry
      cases hentry
    · intro entry hentry
      cases hentry
    · intro c client hc
      cases hc
  covered hsignaling := absurd rfl hsignaling

theorem Consistent.erase (h : Consistent s) {call : Call}
    (hdestroy : ∀ roomId, call ≠ .destroyDetached roomId)
    (hclosed : ∀ roomId, call ≠ .closedDetached roomId)
    (hemitted : ∀ roomId, Destroyed emitted roomId →
      Destroyed s.emitted roomId ∨ .destroyRoom roomId ∈ s.calls) :
    Consistent { s with calls := s.calls.erase call, emitted := emitted } := by
  have hcalls (roomId : String) :=
    removalPending_erase s.calls (hdestroy roomId) (hclosed roomId)
  constructor
  · apply h.inStep.of_calls fun roomId => (hcalls roomId).mp
    intro roomId hremoved
    apply h.inStep.removed
    cases hremoved with
    | inl hdestroyed => exact hemitted roomId hdestroyed
    | inr hmem => exact Or.inr (List.mem_of_mem_erase hmem)
  · exact h.covered.of_calls fun roomId => (hcalls roomId).mpr

theorem Consistent.push (h : Consistent s) {call : Call}
    (hcall : ∀ roomId, call ≠ .destroyDetached roomId ∧ call ≠ .closedDetached roomId ∧
      call ≠ .destroyRoom roomId) :
    Consistent { s with calls := call :: s.calls } := by
  have hcalls (roomId : String) :
      RemovalPending (call :: s.calls) roomId ↔ RemovalPending s.calls roomId := by
    obtain ⟨hdestroy, hclosed, -⟩ := hcall roomId
    simp [RemovalPending, hdestroy.symm, hclosed.symm]
  constructor
  · apply h.inStep.of_calls fun roomId => (hcalls roomId).mp
    intro roomId hremoved
    apply h.inStep.removed
    cases hremoved with
    | inl hdestroyed => exact Or.inl hdestroyed
    | inr hmem =>
      cases hmem with
      | head => exact absurd rfl (hcall roomId).2.2
      | tail _ hmem => exact Or.inr hmem
  · exact h.covered.of_calls fun roomId => (hcalls roomId).mpr

theorem destroyed_created {other : String} (h : Destroyed (.roomCreated roomId :: emitted) other) :
    other ≠ roomId ∧ Destroyed emitted other := by
  unfold Destroyed at h ⊢
  rw [List.find?_cons] at h
  by_cases hid : roomId = other
  · simp [ServerEvent.roomId, hid] at h
  · simp only [ServerEvent.roomId, hid] at h
    exact ⟨fun heq => hid heq.symm, h⟩

theorem destroyed_destroyed {other : String}
    (h : Destroyed (.roomDestroyed roomId :: emitted) other) :
    other = roomId ∨ Destroyed emitted other := by
  unfold Destroyed at h ⊢
  rw [List.find?_cons] at h
  by_cases hid : roomId = other
  · exact Or.inl hid.symm
  · simp only [ServerEvent.roomId, hid] at h
    exact Or.inr h

theorem registerRoom_emitted (s : ConferenceServer) (roomId : String) (event : ServerEvent) :
    ({ s.registerRoom roomId with emitted := event :: (s.registerRoom roomId).emitted } :
      ConferenceServer) =
      ({ s with emitted := event :: s.emitted } : ConferenceServer).registerRoom roomId := by
  unfold registerRoom attachSignalingBridge setRoom
  cases hknown : s.rooms.any fun entry => entry.roomId = roomId <;>
    cases hsignaling : s.signalingBridge <;> cases hbridge : s.bridges roomId <;>
    simp [setClient, *]

theorem Consistent.afterNative (h : Consistent s) {call : Call} (hcall : call ∈ s.calls)
    {result : NativeResult} (hapart : s.Apart (.nativeSettled call result))
    (hdestroy : ∀ roomId, call ≠ .destroyDetached roomId)
    (hclosed : ∀ roomId, call ≠ .closedDetached roomId) :
    Consistent (({ s with calls := s.calls.erase call } : ConferenceServer).afterNative
      call result) := by
  have herase : Consistent { s with calls := s.calls.erase call } :=
    h.erase hdestroy hclosed fun _ hd => Or.inl hd
  have hremoval (roomId : String) :
      RemovalPending (s.calls.erase call) roomId ↔ RemovalPending s.calls roomId :=
    removalPending_erase s.calls (hdestroy roomId) (hclosed roomId)
  have hcan {roomId : String} (hcan : s.CanRegister roomId) :
      ({ s with calls := s.calls.erase call } : ConferenceServer).CanRegister roomId :=
    ⟨fun hpending => hcan.1 ((hremoval roomId).mp hpending),
      fun hmem => hcan.2.1 (List.mem_of_mem_erase hmem), hcan.2.2⟩
  cases result with
  | missing | rejected => cases call <;> exact herase
  | ok =>
    cases call with
    | createRoom roomId =>
      change Consistent { ConferenceServer.registerRoom _ roomId with emitted := _ }
      rw [registerRoom_emitted]
      have hcreated : Consistent { s with
          calls := s.calls.erase (.createRoom roomId)
          emitted := .roomCreated roomId :: s.emitted } :=
        h.erase hdestroy hclosed fun _ hd => Or.inl (destroyed_created hd).2
      exact hcreated.registerRoom (hcan hapart) fun hd => (destroyed_created hd).1 rfl
    | getRoom roomId => exact herase.registerRoom (hcan hapart.1) hapart.2
    | destroyRoom roomId =>
      apply h.erase hdestroy hclosed
      intro other hd
      cases destroyed_destroyed hd with
      | inl heq => exact Or.inr (heq ▸ hcall)
      | inr hold => exact Or.inl hold
    | close roomId =>
      apply herase.detach hapart
      · intro other
        rw [detach_calls]
        simp only [RemovalPending, List.mem_cons, Call.closedDetached.injEq]
        tauto
      · intro other hmem
        rw [detach_calls] at hmem
        cases hmem with
        | tail _ hmem => exact hmem
    | destroyDetached roomId => exact absurd rfl (hdestroy roomId)
    | closedDetached roomId => exact absurd rfl (hclosed roomId)

theorem Consistent.step {t : ConferenceServer} (h : Consistent s) {i : Input} (hapart : s.Apart i)
    (hstep : s.step i = some t) : Consistent t := by
  cases i with simp only [ConferenceServer.step] at hstep
  | createRoom roomId | closeRoom roomId =>
    cases hstep
    exact h.push fun _ => by simp
  | getRoom roomId =>
    split at hstep <;> cases hstep
    · exact h
    · exact h.push fun _ => by simp
  | destroyRoom roomId =>
    cases hstep
    apply h.detach hapart
    · intro other
      rw [detach_calls]
      simp only [RemovalPending, List.mem_cons, Call.destroyDetached.injEq]
      tauto
    · intro other hmem
      rw [detach_calls] at hmem
      cases hmem with
      | tail _ hmem => exact hmem
  | attachSignaling signaling =>
    cases hstep
    apply Consistent.wireNext
    · constructor
      · exact ⟨h.inStep.oneOpen, h.inStep.openRoom, h.inStep.bridged, h.inStep.connected,
          h.inStep.removed, (fun hnone => by cases hnone), h.inStep.ordered, h.inStep.positions,
          h.inStep.fresh⟩
      · intro _ entry hentry _
        exact Or.inr ⟨⟨0, none⟩, List.mem_cons_self, (h.inStep.positions.2 entry hentry).1⟩
    · exact hapart
  | nativeSettled call result =>
    split_ifs at hstep
    rename_i hmem
    split at hstep
    · cases hstep
    · cases hstep
    · rename_i hdestroy hclosed
      cases hstep
      exact h.afterNative hmem hapart hdestroy hclosed
  | detached call =>
    split_ifs at hstep
    rename_i hmem
    split at hstep
    · rename_i roomId
      cases hstep
      apply h.delete (Or.inl hmem)
      · intro other hpending
        simp only [RemovalPending, List.mem_cons, reduceCtorEq, false_or] at hpending
        exact hpending.imp List.mem_of_mem_erase List.mem_of_mem_erase
      · intro other hpending
        by_cases hid : other = roomId
        · exact Or.inr hid
        · have hne : Call.destroyDetached roomId ≠ .destroyDetached other := by
            simpa using fun heq => hid heq.symm
          have hkept := (removalPending_erase s.calls hne (by simp)).mpr hpending
          exact Or.inl (hkept.imp (List.mem_cons_of_mem _) (List.mem_cons_of_mem _))
      · intro other hother
        cases hother with
        | inl hd => exact Or.inl (Or.inl hd)
        | inr hd =>
          cases hd with
          | head => exact Or.inr rfl
          | tail _ hd => exact Or.inl (Or.inr (List.mem_of_mem_erase hd))
    · rename_i roomId
      cases hstep
      apply h.delete (Or.inr hmem)
      · intro other hpending
        exact hpending.imp List.mem_of_mem_erase List.mem_of_mem_erase
      · intro other hpending
        by_cases hid : other = roomId
        · exact Or.inr hid
        · exact Or.inl ((removalPending_erase s.calls (by simp)
            (by simpa using fun heq => hid heq.symm)).mpr hpending)
      · intro other hother
        cases hother with
        | inl hd =>
          cases destroyed_destroyed hd with
          | inl heq => exact Or.inr heq
          | inr hold => exact Or.inl (Or.inl hold)
        | inr hd => exact Or.inl (Or.inr (List.mem_of_mem_erase hd))
    · cases hstep
  | connectSettled c connected =>
    split at hstep
    · cases hstep
    · rename_i client hc
      split_ifs at hstep
      rename_i hstatus
      cases hstep
      apply h.settleConnect hc hstatus
      intro hfalse
      subst hfalse
      exact hapart
  | wireResumed loop =>
    split at hstep <;> cases hstep
    exact h.wireNext hapart

theorem Consistent.oneBridge (h : Consistent s) : s.OneBridge where
  one roomId c d hc hd := by
    have hfirst := h.inStep.connected hc
    rw [h.inStep.connected hd] at hfirst
    exact (Option.some.inj hfirst).symm
  destroyed _ roomId hdestroyed := by
    have hnone (c : ClientId) : ¬s.Connected roomId c := by
      intro hconnected
      obtain ⟨client, hc, hid, hstatus⟩ := hconnected
      obtain ⟨-, entry, hentry, hentryId, -⟩ := h.inStep.openRoom hc (Or.inr hstatus)
      exact h.inStep.removed (Or.inl hdestroyed) entry hentry (hentryId.trans hid)
    refine ⟨hnone, ?_⟩
    cases hbridge : s.bridges roomId with
    | none => rfl
    | some c => exact absurd (h.inStep.bridged hbridge) (hnone c)
  live hsettled hsignaling entry hentry hpending hfailed := by
    cases h.covered hsignaling entry hentry hpending with
    | inl hattached =>
      obtain ⟨c, client, hc, hid, hroom, hstatus⟩ := hattached
      have hconnected : client.status = .connected := by
        cases hcase : client.status with
        | connecting => exact absurd hcase (hsettled.1 c client hc)
        | connected => rfl
        | failed => exact absurd ⟨c, client, hc, hid, hroom, hcase⟩ hfailed
        | disconnected => exact absurd hcase hstatus
      exact ⟨c, client, h.inStep.connected ⟨client, hc, hid, hconnected⟩, hc, hid, hroom,
        hconnected⟩
    | inr hloop =>
      obtain ⟨loop, hmem, -⟩ := hloop
      rw [hsettled.2] at hmem
      cases hmem

/-- A run whose steps are apart has one bridge for a room in every state it reaches. -/
theorem one_bridge_of_apart {is : List Input} {t : ConferenceServer} {out : List Empty}
    (hapart : Machine.Along machine Apart .new is)
    (hrun : Machine.run machine .new is = some (t, out)) : t.OneBridge := by
  have hstep (s : ConferenceServer) (i : Input) (t : ConferenceServer) (out : List Empty)
      (h : Consistent s) (hi : s.Apart i) (hs : machine s i = some (t, out)) : Consistent t := by
    unfold machine at hs
    rw [Option.map_eq_some_iff] at hs
    obtain ⟨u, hu, heq⟩ := hs
    cases heq
    exact h.step hi hu
  exact (Machine.run_invariant hstep consistent_new hapart hrun).oneBridge

/-! ## Runs on one room -/

def localSignaling : SignalingBridgeConfig := ⟨"ws://127.0.0.1:8080", none⟩

/-- A room is created with signaling attached, and its client connects. -/
def createdAndConnected : List Input :=
  [.attachSignaling localSignaling, .createRoom "standup",
    .nativeSettled (.createRoom "standup") .ok, .connectSettled 0 true]

theorem one_bridge_of_apart_createdAndConnected :
    ∃ t, Machine.run machine .new createdAndConnected = some (t, []) ∧ t.OneBridge := by
  have hrun : ∃ t, Machine.run machine .new createdAndConnected = some (t, []) := ⟨_, rfl⟩
  obtain ⟨t, hrun⟩ := hrun
  refine ⟨t, hrun, one_bridge_of_apart ?_ hrun⟩
  refine Machine.Along.cons ?_ rfl (Machine.Along.cons trivial rfl
    (Machine.Along.cons ?_ rfl (Machine.Along.cons trivial rfl trivial)))
  · intro entry hentry
    cases hentry
  · refine ⟨?_, ?_, fun _ => ⟨?_, rfl⟩⟩
    · change ¬RemovalPending [.createRoom "standup"] "standup"
      simp [RemovalPending]
    · change Call.destroyRoom "standup" ∉ [Call.createRoom "standup"]
      simp
    · intro hconnecting
      obtain ⟨c, client, hc, -⟩ := hconnecting
      cases hc

/-- The room is destroyed while the client of its bridge is connecting. -/
def destroyedWhileConnecting : List Input :=
  [.attachSignaling localSignaling, .createRoom "standup",
    .nativeSettled (.createRoom "standup") .ok, .destroyRoom "standup",
    .detached (.destroyDetached "standup"), .nativeSettled (.destroyRoom "standup") .ok,
    .connectSettled 0 true]

/-- Signaling is attached twice while the first client is connecting. -/
def attachedTwice : List Input :=
  [.createRoom "standup", .nativeSettled (.createRoom "standup") .ok,
    .attachSignaling localSignaling, .attachSignaling localSignaling,
    .connectSettled 0 true, .connectSettled 1 true]

/-- A bridge outlives its room, and a room has two connected clients. -/
theorem bridge_outlives_room :
    (∃ t, Machine.run machine .new destroyedWhileConnecting = some (t, []) ∧
      Destroyed t.emitted "standup" ∧ t.bridges "standup" = some 0 ∧ ¬t.OneBridge) ∧
      ∃ t, Machine.run machine .new attachedTwice = some (t, []) ∧ t.Connected "standup" 0 ∧
        t.Connected "standup" 1 ∧ ¬t.OneBridge := by
  constructor
  · refine ⟨_, rfl, rfl, rfl, ?_⟩
    intro h
    have hnone := (h.destroyed ⟨?_, rfl⟩ "standup" rfl).2
    · cases hnone
    · intro c client hc
      by_cases hzero : c = 0
      · subst hzero
        cases hc
        exact fun hstatus => by cases hstatus
      · change (if c = 0 then _ else if c = 0 then _ else none) = some client at hc
        rw [if_neg hzero, if_neg hzero] at hc
        cases hc
  · refine ⟨_, rfl, ⟨_, rfl, rfl, rfl⟩, ⟨_, rfl, rfl, rfl⟩, ?_⟩
    intro h
    have hsame := h.one "standup" 0 1 ⟨_, rfl, rfl, rfl⟩ ⟨_, rfl, rfl, rfl⟩
    cases hsame

end NodeWebrtc.SignalingBridge
