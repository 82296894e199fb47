import Mathlib.Data.Finset.Card
import NodeWebrtc.Mixer.Ops

/-! # Who is in a conference room

The calls of a room that change who is in it, each run to its end: a call has the room to
itself. How the operations of a peer connection end is handed in with the call. A join builds
the peer connection, registers the participant and only then negotiates; a removal takes the
participant out of the map and the mixer before it closes the connection.
-/

namespace NodeWebrtc.Conference

open Machine Mixer

/-! ## Messages, errors and events -/

inductive ConferenceErrorCode where
  | roomNotFound
  | participantNotFound
  | roomFull
  | invalidMuteScope
  | signalingError
  | internal
deriving DecidableEq, Repr

def ConferenceErrorCode.asStr : ConferenceErrorCode → String
  | .roomNotFound => "ROOM_NOT_FOUND"
  | .participantNotFound => "PARTICIPANT_NOT_FOUND"
  | .roomFull => "ROOM_FULL"
  | .invalidMuteScope => "INVALID_MUTE_SCOPE"
  | .signalingError => "SIGNALING_ERROR"
  | .internal => "INTERNAL"

/-- `ConferenceError`; an error of the peer connection is its text. -/
inductive ConferenceError where
  | coded (code : ConferenceErrorCode) (message : String)
  | core (error : String)
deriving DecidableEq, Repr

inductive SignalingMessage where
  | join (participantId : ParticipantId) (roomId : Option String)
  | offer (participantId : ParticipantId) (sdp : String)
  | answer (participantId : ParticipantId) (sdp : String)
  | iceCandidate (participantId : ParticipantId) (candidate : String) (sdpMid : Option String)
      (sdpMLineIndex : Option Nat)
  | leave (participantId : ParticipantId)
deriving DecidableEq, Repr

inductive SignalingResponse where
  | offer (participantId : ParticipantId) (sdp : String)
  | answer (participantId : ParticipantId) (sdp : String)
deriving DecidableEq, Repr

inductive MembershipEvent where
  | participantJoined (id : ParticipantId)
  | participantLeft (id : ParticipantId)
  | participantKicked (id : ParticipantId) (reason : Option String)
deriving DecidableEq, Repr

def MembershipEvent.participantId : MembershipEvent → ParticipantId
  | .participantJoined id | .participantLeft id | .participantKicked id _ => id

/-- How the operations of the peer connections end during a call. -/
structure PcOutcomes where
  new : Except String Unit
  addTrack : Except String Unit
  createOffer : Except String Unit
  createAnswer : Except String Unit
  setLocalDescription : Except String Unit
  setRemoteDescription : Except String Unit
  addIceCandidate : Except String Unit
  localDescription : Option String
  close : ParticipantId → Except String Unit

/-! ## The room -/

structure RoomState (D : MixDsp) where
  id : String
  participants : Finset ParticipantId
  graph : MixGraph D
  maxParticipants : Nat
  subscribed : Bool

structure Called (D : MixDsp) (α : Type) where
  room : RoomState D
  events : List MembershipEvent
  result : Except ConferenceError α

inductive RoomCall where
  | handleSignaling (msg : SignalingMessage) (pc : PcOutcomes)
  | addParticipant (id : ParticipantId) (pc : PcOutcomes)
  | removeParticipant (id : ParticipantId) (pc : PcOutcomes)
  | kickParticipant (id : ParticipantId) (reason : Option String) (pc : PcOutcomes)
  /-- The close visits the keys of the map in the given order. -/
  | close (ids : List ParticipantId) (pc : PcOutcomes)

namespace RoomState

variable {D : MixDsp}

def new (D : MixDsp) (id : String) (maxParticipants : Nat) : RoomState D :=
  ⟨id, ∅, .new D, maxParticipants, false⟩

def subscribeEvents (r : RoomState D) : RoomState D := { r with subscribed := true }

def emit (r : RoomState D) (e : MembershipEvent) : List MembershipEvent :=
  if r.subscribed then [e] else []

def notInRoom (r : RoomState D) (id : ParticipantId) : ConferenceError :=
  .coded .participantNotFound ("participant " ++ id ++ " not in room " ++ r.id)

/-- `add_participant`; `Participant::spawn` adds the track before the input. -/
def addParticipant (r : RoomState D) (id : ParticipantId) (pc : PcOutcomes) : Called D Unit :=
  if id ∈ r.participants then
    ⟨r, [], .error (.coded .internal ("participant " ++ id ++ " already in room"))⟩
  else if r.maxParticipants ≤ r.participants.card then
    ⟨r, [], .error (.coded .roomFull
      ("room " ++ r.id ++ " is full (max " ++ toString r.maxParticipants ++ ")"))⟩
  else
    match pc.new, pc.addTrack with
    | .error e, _ => ⟨r, [], .error (.core e)⟩
    | .ok (), .error e => ⟨r, [], .error (.core e)⟩
    | .ok (), .ok () =>
      ⟨{ r with graph := r.graph.addInput id, participants := insert id r.participants },
        r.emit (.participantJoined id), .ok ()⟩

/-- `remove_participant_inner` with `Participant::shutdown`. -/
def removeParticipantInner (r : RoomState D) (id : ParticipantId) (emitLeft : Bool)
    (pc : PcOutcomes) : Called D Unit :=
  if id ∈ r.participants then
    let removed :=
      { r with participants := r.participants.erase id, graph := r.graph.removeInput id }
    match pc.close id with
    | .error e => ⟨removed, [], .error (.core e)⟩
    | .ok () => ⟨removed, if emitLeft then r.emit (.participantLeft id) else [], .ok ()⟩
  else ⟨r, [], .error (r.notInRoom id)⟩

def removeParticipant (r : RoomState D) (id : ParticipantId) (pc : PcOutcomes) : Called D Unit :=
  r.removeParticipantInner id true pc

def kickParticipant (r : RoomState D) (id : ParticipantId) (reason : Option String)
    (pc : PcOutcomes) : Called D Unit :=
  let removed := r.removeParticipantInner id false pc
  match removed.result with
  | .error e => ⟨removed.room, removed.events, .error e⟩
  | .ok () =>
    ⟨removed.room, removed.events ++ removed.room.emit (.participantKicked id reason), .ok ()⟩

def closeIds (r : RoomState D) (pc : PcOutcomes) : List ParticipantId → Called D Unit
  | [] => ⟨r, [], .ok ()⟩
  | id :: ids =>
    let removed := r.removeParticipant id pc
    match removed.result with
    | .error e => ⟨removed.room, removed.events, .error e⟩
    | .ok () =>
      let rest := removed.room.closeIds pc ids
      ⟨rest.room, removed.events ++ rest.events, rest.result⟩

/-- The offer of a join: created, applied and read back. -/
def negotiateOffer (pc : PcOutcomes) (id : ParticipantId) :
    Except ConferenceError (List SignalingResponse) :=
  match pc.createOffer, pc.setLocalDescription, pc.localDescription with
  | .error e, _, _ => .error (.core e)
  | .ok (), .error e, _ => .error (.core e)
  | .ok (), .ok (), none => .error (.coded .signalingError "offer not available")
  | .ok (), .ok (), some sdp => .ok [.offer id sdp]

def negotiateAnswer (pc : PcOutcomes) (id : ParticipantId) :
    Except ConferenceError (List SignalingResponse) :=
  match pc.setRemoteDescription, pc.createAnswer, pc.setLocalDescription, pc.localDescription with
  | .error e, _, _, _ => .error (.core e)
  | .ok (), .error e, _, _ => .error (.core e)
  | .ok (), .ok (), .error e, _ => .error (.core e)
  | .ok (), .ok (), .ok (), none => .error (.coded .signalingError "answer not available")
  | .ok (), .ok (), .ok (), some sdp => .ok [.answer id sdp]

def handleSignaling (r : RoomState D) (pc : PcOutcomes) :
    SignalingMessage → Called D (List SignalingResponse)
  | .join id _ =>
    let added := r.addParticipant id pc
    match added.result with
    | .error e => ⟨added.room, added.events, .error e⟩
    | .ok () => ⟨added.room, added.events, negotiateOffer pc id⟩
  | .answer id _ =>
    if id ∈ r.participants then
      ⟨r, [], (pc.setRemoteDescription.mapError .core).map fun _ => []⟩
    else ⟨r, [], .error (r.notInRoom id)⟩
  | .offer id _ =>
    if id ∈ r.participants then ⟨r, [], negotiateAnswer pc id⟩
    else ⟨r, [], .error (r.notInRoom id)⟩
  | .iceCandidate id _ _ _ =>
    if id ∈ r.participants then ⟨r, [], (pc.addIceCandidate.mapError .core).map fun _ => []⟩
    else ⟨r, [], .error (r.notInRoom id)⟩
  | .leave id =>
    let removed := r.removeParticipant id pc
    ⟨removed.room, removed.events, removed.result.map fun _ => []⟩

/-- A call, with its result as a list of responses. -/
def call (r : RoomState D) : RoomCall → Called D (List SignalingResponse)
  | .handleSignaling msg pc => r.handleSignaling pc msg
  | .addParticipant id pc =>
    let added := r.addParticipant id pc
    ⟨added.room, added.events, added.result.map fun _ => []⟩
  | .removeParticipant id pc =>
    let removed := r.removeParticipant id pc
    ⟨removed.room, removed.events, removed.result.map fun _ => []⟩
  | .kickParticipant id reason pc =>
    let kicked := r.kickParticipant id reason pc
    ⟨kicked.room, kicked.events, kicked.result.map fun _ => []⟩
  | .close ids pc =>
    let closed := r.closeIds pc ids
    ⟨closed.room, closed.events, closed.result.map fun _ => []⟩

def fits (r : RoomState D) : RoomCall → Bool
  | .close ids _ => ids.Nodup && ids.toFinset = r.participants
  | _ => true

def step (r : RoomState D) (i : RoomCall) : Option (RoomState D × List MembershipEvent) :=
  if r.fits i then some ((r.call i).room, (r.call i).events) else none

/-! ## What a call does to the membership -/

section Effects

variable {r r' : RoomState D} {id : ParticipantId} {pc : PcOutcomes} {i : RoomCall}
  {os es : List MembershipEvent}

def Admits (r : RoomState D) (id : ParticipantId) (pc : PcOutcomes) : Prop :=
  id ∉ r.participants ∧ r.participants.card < r.maxParticipants ∧ pc.new = .ok () ∧
    pc.addTrack = .ok ()

def withParticipant (r : RoomState D) (id : ParticipantId) : RoomState D :=
  { r with graph := r.graph.addInput id, participants := insert id r.participants }

def withoutParticipant (r : RoomState D) (id : ParticipantId) : RoomState D :=
  { r with participants := r.participants.erase id, graph := r.graph.removeInput id }

theorem addParticipant_of_admits (h : Admits r id pc) :
    r.addParticipant id pc =
      ⟨r.withParticipant id, r.emit (.participantJoined id), .ok ()⟩ := by
  obtain ⟨hnew, hroom, hpc, htrack⟩ := h
  rw [addParticipant, if_neg hnew, if_neg (Nat.not_le_of_lt hroom), hpc, htrack]
  rfl

theorem addParticipant_of_not_admits (h : ¬ Admits r id pc) :
    ∃ e, r.addParticipant id pc = ⟨r, [], .error e⟩ := by
  unfold addParticipant
  split
  · exact ⟨_, rfl⟩
  · next hnew =>
    split
    · exact ⟨_, rfl⟩
    · next hroom =>
      cases hpc : pc.new with
      | error e => exact ⟨_, rfl⟩
      | ok =>
        cases htrack : pc.addTrack with
        | error e => exact ⟨_, rfl⟩
        | ok => exact absurd ⟨hnew, Nat.lt_of_not_le hroom, hpc, htrack⟩ h

theorem removeParticipantInner_of_not_mem (h : id ∉ r.participants) (emitLeft : Bool) :
    r.removeParticipantInner id emitLeft pc = ⟨r, [], .error (r.notInRoom id)⟩ :=
  if_neg h

theorem removeParticipantInner_of_closed (h : id ∈ r.participants) (hclose : pc.close id = .ok ())
    (emitLeft : Bool) :
    r.removeParticipantInner id emitLeft pc =
      ⟨r.withoutParticipant id, if emitLeft then r.emit (.participantLeft id) else [], .ok ()⟩ := by
  rw [removeParticipantInner, if_pos h, hclose]
  rfl

theorem removeParticipantInner_of_failed (h : id ∈ r.participants) {e : String}
    (hclose : pc.close id = .error e) (emitLeft : Bool) :
    r.removeParticipantInner id emitLeft pc =
      ⟨r.withoutParticipant id, [], .error (.core e)⟩ := by
  rw [removeParticipantInner, if_pos h, hclose]
  rfl

theorem mem_inputs_withParticipant (other : ParticipantId) :
    other ∈ (r.withParticipant id).graph.inputs ↔ other = id ∨ other ∈ r.graph.inputs := by
  show other ∈ r.graph.inputs.insertIfNew id _ ↔ _
  rw [Std.ExtTreeMap.mem_insertIfNew, Std.compare_eq_iff_eq, eq_comm]

theorem mem_inputs_withoutParticipant (other : ParticipantId) :
    other ∈ (r.withoutParticipant id).graph.inputs ↔ other ≠ id ∧ other ∈ r.graph.inputs := by
  have hinputs : (r.withoutParticipant id).graph.inputs = r.graph.inputs.erase id := by
    have hrouting := r.graph.removeInput_onlyRouting id
    exact congrArg MixGraph.inputs hrouting
  rw [hinputs, Std.ExtTreeMap.mem_erase, Ne, Std.compare_eq_iff_eq, eq_comm]

/-! ## Stays -/

/-- The events of one participant: each stay is joined, then left or kicked. The flag is whether
the last stay is open. -/
inductive Stays : List MembershipEvent → Bool → Prop where
  | nil : Stays [] false
  | joined {es : List MembershipEvent} {id : ParticipantId} (h : Stays es false) :
      Stays (es ++ [.participantJoined id]) true
  | left {es : List MembershipEvent} {id : ParticipantId} (h : Stays es true) :
      Stays (es ++ [.participantLeft id]) false
  | kicked {es : List MembershipEvent} {id : ParticipantId} {reason : Option String}
      (h : Stays es true) : Stays (es ++ [.participantKicked id reason]) false

def isJoined : MembershipEvent → Bool
  | .participantJoined _ => true
  | _ => false

theorem Stays.eq_last {b : Bool} (h : Stays es b) : b = es.getLast?.any isJoined := by
  cases h with
  | nil => rfl
  | joined | left | kicked => simp [isJoined]

def eventsOf (id : ParticipantId) (es : List MembershipEvent) : List MembershipEvent :=
  es.filter fun e => e.participantId = id

theorem eventsOf_append (id : ParticipantId) (es es' : List MembershipEvent) :
    eventsOf id (es ++ es') = eventsOf id es ++ eventsOf id es' :=
  List.filter_append es es'

theorem eventsOf_singleton (id : ParticipantId) (e : MembershipEvent) :
    eventsOf id [e] = if e.participantId = id then [e] else [] := by
  rw [eventsOf, List.filter_singleton]
  by_cases h : e.participantId = id
  · rw [decide_eq_true h, if_pos h, cond_true]
  · rw [decide_eq_false h, if_neg h, cond_false]

/-- A subscribed room whose map and mixer name the same participants, each with its stays. -/
structure Orderly (os : List MembershipEvent) (r : RoomState D) : Prop where
  subscribed : r.subscribed = true
  inputs : ∀ id, id ∈ r.graph.inputs ↔ id ∈ r.participants
  stays : ∀ id, Stays (eventsOf id os) (decide (id ∈ r.participants))

theorem orderly_new (D : MixDsp) (id : String) (maxParticipants : Nat) :
    Orderly [] (new D id maxParticipants).subscribeEvents where
  subscribed := rfl
  inputs := fun id => by
    show id ∈ (∅ : Std.ExtTreeMap ParticipantId (SourceSlot D)) ↔ id ∈ (∅ : Finset ParticipantId)
    simp
  stays := fun _ => .nil

theorem Orderly.emit_eq (h : Orderly os r) (e : MembershipEvent) : r.emit e = [e] :=
  if_pos h.subscribed

theorem Orderly.withParticipant (h : Orderly os r) (hnew : id ∉ r.participants) :
    Orderly (os ++ [.participantJoined id]) (r.withParticipant id) where
  subscribed := h.subscribed
  inputs := fun other => by
    rw [mem_inputs_withParticipant, h.inputs, RoomState.withParticipant, Finset.mem_insert]
  stays := fun other => by
    have hold := h.stays other
    rw [eventsOf_append, eventsOf_singleton, MembershipEvent.participantId]
    by_cases hid : id = other
    · subst hid
      rw [decide_eq_false hnew] at hold
      have hin : id ∈ (r.withParticipant id).participants := Finset.mem_insert_self id _
      rw [if_pos rfl, decide_eq_true hin]
      exact .joined hold
    · rw [if_neg hid, List.append_nil]
      have hmem : other ∈ (r.withParticipant id).participants ↔ other ∈ r.participants := by
        rw [RoomState.withParticipant, Finset.mem_insert, or_iff_right (Ne.symm hid)]
      rwa [decide_eq_decide.mpr hmem]

theorem Orderly.withoutParticipant (h : Orderly os r) {e : MembershipEvent}
    (he : e.participantId = id)
    (hstays : ∀ es, Stays es true → Stays (es ++ [e]) false) (hmem : id ∈ r.participants) :
    Orderly (os ++ [e]) (r.withoutParticipant id) where
  subscribed := h.subscribed
  inputs := fun other => by
    rw [mem_inputs_withoutParticipant, h.inputs, RoomState.withoutParticipant, Finset.mem_erase]
  stays := fun other => by
    have hold := h.stays other
    rw [eventsOf_append, eventsOf_singleton, he]
    by_cases hid : id = other
    · subst hid
      rw [decide_eq_true hmem] at hold
      have hout : id ∉ (r.withoutParticipant id).participants := Finset.notMem_erase id _
      rw [if_pos rfl, decide_eq_false hout]
      exact hstays _ hold
    · rw [if_neg hid, List.append_nil]
      have hother : other ∈ (r.withoutParticipant id).participants ↔ other ∈ r.participants := by
        rw [RoomState.withoutParticipant, Finset.mem_erase, and_iff_right (Ne.symm hid)]
      rwa [decide_eq_decide.mpr hother]

theorem Orderly.not_stays (h : Orderly os r) (hmem : id ∈ r.participants)
    (hnone : eventsOf id es = []) (hgone : id ∉ r'.participants) :
    ¬ Stays (eventsOf id (os ++ es)) (decide (id ∈ r'.participants)) := by
  intro hstays
  have hopen := (h.stays id).eq_last
  have hended := hstays.eq_last
  rw [eventsOf_append, hnone, List.append_nil, ← hopen, decide_eq_true hmem,
    decide_eq_false hgone] at hended
  cases hended

/-! ## Calls -/

/-- Every part of the call succeeds that comes after the participant is registered or taken
out. -/
def Completes (r : RoomState D) : RoomCall → Prop
  | .handleSignaling (.join id _) pc => Admits r id pc →
      pc.createOffer = .ok () ∧ pc.setLocalDescription = .ok () ∧ pc.localDescription.isSome
  | .handleSignaling (.leave id) pc | .removeParticipant id pc | .kickParticipant id _ pc =>
    id ∈ r.participants → pc.close id = .ok ()
  | .close _ pc => ∀ id ∈ r.participants, pc.close id = .ok ()
  | _ => True

def covered (r : RoomState D) : RoomCall → Finset ParticipantId
  | .handleSignaling (.leave id) _ | .removeParticipant id _ | .kickParticipant id _ _ => {id}
  | .close _ _ => r.participants
  | _ => ∅

structure AllOrNothing (os : List MembershipEvent) (r : RoomState D) (i : RoomCall)
    (es : List MembershipEvent) (r' : RoomState D) : Prop where
  join : ∀ id roomId pc e, i = .handleSignaling (.join id roomId) pc → (r.call i).result = .error e →
    r'.participants = r.participants ∧ ∀ id, id ∈ r'.graph.inputs ↔ id ∈ r.graph.inputs
  takenOut : ∀ id ∈ r.covered i, id ∉ r'.participants ∧ id ∉ r'.graph.inputs
  same : ∀ id, id ∈ r'.graph.inputs ↔ id ∈ r'.participants
  stays : ∀ id, Stays (eventsOf id (os ++ es)) (decide (id ∈ r'.participants))

theorem negotiateOffer_isOk :
    (∃ responses, negotiateOffer pc id = .ok responses) ↔
      pc.createOffer = .ok () ∧ pc.setLocalDescription = .ok () ∧ pc.localDescription.isSome := by
  unfold negotiateOffer
  cases pc.createOffer with
  | error e => simp
  | ok =>
    cases pc.setLocalDescription with
    | error e => simp
    | ok =>
      cases pc.localDescription with
      | none | some => simp

theorem allOrNothing_of_orderly (hjoin : ∀ id roomId pc, i ≠ .handleSignaling (.join id roomId) pc)
    (hcovered : ∀ id ∈ r.covered i, id ∉ r'.participants) (h : Orderly (os ++ es) r') :
    AllOrNothing os r i es r' where
  join := fun id roomId pc _ hi => absurd hi (hjoin id roomId pc)
  takenOut := fun id hid => ⟨hcovered id hid, fun hin => hcovered id hid ((h.inputs id).mp hin)⟩
  same := h.inputs
  stays := h.stays

theorem Orderly.join (h : Orderly os r) (roomId : Option String)
    (hi : i = .handleSignaling (.join id roomId) pc) :
    (AllOrNothing os r i (r.call i).events (r.call i).room ↔ Completes r i) ∧
      Orderly (os ++ (r.call i).events) (r.call i).room := by
  subst hi
  by_cases ha : Admits r id pc
  · have hcall : r.call (.handleSignaling (.join id roomId) pc) =
        ⟨r.withParticipant id, [.participantJoined id], negotiateOffer pc id⟩ := by
      rw [call, handleSignaling, addParticipant_of_admits ha, h.emit_eq]
    have horderly := h.withParticipant ha.1
    rw [hcall]
    refine ⟨?_, horderly⟩
    rw [Completes, forall_prop_of_true ha, 
      ← show (∃ responses, negotiateOffer pc id = .ok responses) ↔ _ from negotiateOffer_isOk]
    constructor
    · intro hall
      cases hresult : negotiateOffer pc id with
      | ok responses => exact ⟨responses, rfl⟩
      | error e =>
        obtain ⟨hsame, -⟩ := hall.join id roomId pc e rfl (by rw [hcall, hresult])
        have hmem : id ∈ r.participants := hsame ▸ Finset.mem_insert_self id _
        exact absurd hmem ha.1
    · rintro ⟨responses, hresult⟩
      refine ⟨fun _ _ _ e _ herr => ?_, fun _ hid => (by cases hid), horderly.inputs, horderly.stays⟩
      rw [hcall, hresult] at herr
      cases herr
  · obtain ⟨e, hadd⟩ := addParticipant_of_not_admits ha
    have hcall : r.call (.handleSignaling (.join id roomId) pc) = ⟨r, [], .error e⟩ := by
      rw [call, handleSignaling, hadd]
    have horderly : Orderly (os ++ []) r := by rwa [List.append_nil]
    rw [hcall]
    refine ⟨iff_of_true ?_ fun h => absurd h ha, horderly⟩
    exact ⟨fun _ _ _ _ _ _ => ⟨rfl, fun _ => Iff.rfl⟩, fun _ hid => (by cases hid), horderly.inputs,
      horderly.stays⟩

theorem Orderly.removal (h : Orderly os r) (pc : PcOutcomes) {e : MembershipEvent} (he : e.participantId = id)
    (hstays : ∀ es, Stays es true → Stays (es ++ [e]) false)
    (hjoin : ∀ id roomId pc, i ≠ .handleSignaling (.join id roomId) pc)
    (hcovered : r.covered i = {id}) (hcompletes : Completes r i ↔ (id ∈ r.participants →
      pc.close id = .ok ()))
    (habsent : id ∉ r.participants → (r.call i).room = r ∧ (r.call i).events = [])
    (hclosed : id ∈ r.participants → pc.close id = .ok () →
      (r.call i).room = r.withoutParticipant id ∧ (r.call i).events = r.emit e)
    (hfailed : ∀ err, id ∈ r.participants → pc.close id = .error err →
      (r.call i).room = r.withoutParticipant id ∧ (r.call i).events = []) :
    (AllOrNothing os r i (r.call i).events (r.call i).room ↔ Completes r i) ∧
      (Completes r i → Orderly (os ++ (r.call i).events) (r.call i).room) := by
  rw [hcompletes]
  have hgone : id ∉ (r.withoutParticipant id).participants := Finset.notMem_erase id _
  have hout : ∀ r' : RoomState D, id ∉ r'.participants → ∀ x ∈ r.covered i, x ∉ r'.participants :=
    fun r' hid x hx => by
      rw [hcovered, Finset.mem_singleton] at hx
      rwa [hx]
  by_cases hmem : id ∈ r.participants
  · cases hclose : pc.close id with
    | ok =>
      obtain ⟨hroom, hevents⟩ := hclosed hmem hclose
      have horderly := h.withoutParticipant he hstays hmem
      rw [hroom, hevents, h.emit_eq]
      exact ⟨iff_of_true (allOrNothing_of_orderly hjoin (hout _ hgone) horderly) fun _ => rfl,
        fun _ => horderly⟩
    | error err =>
      obtain ⟨hroom, hevents⟩ := hfailed err hmem hclose
      rw [hroom, hevents]
      have hnot : ¬ (id ∈ r.participants → Except.error err = Except.ok ()) := fun hc => by
        cases hc hmem
      refine ⟨iff_of_false (fun hall => ?_) hnot, fun hc => absurd hc hnot⟩
      exact h.not_stays hmem rfl hgone (hall.stays id)
  · obtain ⟨hroom, hevents⟩ := habsent hmem
    have horderly : Orderly (os ++ []) r := by rwa [List.append_nil]
    rw [hroom, hevents]
    exact ⟨iff_of_true (allOrNothing_of_orderly hjoin (hout _ hmem) horderly)
      fun hin => absurd hin hmem, fun _ => horderly⟩

theorem closeIds_closed {ids : List ParticipantId} (h : Orderly os r) (hnodup : ids.Nodup)
    (hids : ∀ id ∈ ids, id ∈ r.participants) (hclose : ∀ id ∈ ids, pc.close id = .ok ()) :
    Orderly (os ++ (r.closeIds pc ids).events) (r.closeIds pc ids).room ∧
      (r.closeIds pc ids).room.participants = r.participants \ ids.toFinset := by
  induction ids generalizing r os with
  | nil => simpa [closeIds] using h
  | cons id ids ih =>
    obtain ⟨hnew, hnodup⟩ := List.nodup_cons.mp hnodup
    have hmem := hids id List.mem_cons_self
    have horderly : Orderly (os ++ [.participantLeft id]) (r.withoutParticipant id) :=
      h.withoutParticipant rfl (fun _ => .left) hmem
    obtain ⟨hrest, hparticipants⟩ := ih horderly hnodup
      (fun x hx => Finset.mem_erase.mpr
        ⟨fun heq => hnew (heq ▸ hx), hids x (List.mem_cons_of_mem id hx)⟩)
      fun x hx => hclose x (List.mem_cons_of_mem id hx)
    rw [closeIds, removeParticipant,
      removeParticipantInner_of_closed hmem (hclose id List.mem_cons_self)]
    rw [h.emit_eq, ← List.append_assoc]
    refine ⟨hrest, hparticipants.trans ?_⟩
    rw [withoutParticipant, List.toFinset_cons, Finset.erase_sdiff_comm, Finset.sdiff_insert]

/-- The close stops at the first connection that does not close; its participant goes without an
event. -/
theorem closeIds_failed {ids : List ParticipantId} (hr : r.subscribed = true) (hnodup : ids.Nodup)
    (hids : ∀ id ∈ ids, id ∈ r.participants) (hfail : ∃ id ∈ ids, pc.close id ≠ .ok ()) :
    ∃ id ∈ ids, id ∉ (r.closeIds pc ids).room.participants ∧
      eventsOf id (r.closeIds pc ids).events = [] := by
  induction ids generalizing r with
  | nil =>
    obtain ⟨id, hid, -⟩ := hfail
    cases hid
  | cons id ids ih =>
    obtain ⟨hnew, hnodup⟩ := List.nodup_cons.mp hnodup
    have hmem := hids id List.mem_cons_self
    cases hclose : pc.close id with
    | error e =>
      rw [closeIds, removeParticipant, removeParticipantInner_of_failed hmem hclose]
      exact ⟨id, List.mem_cons_self, Finset.notMem_erase id _, rfl⟩
    | ok =>
      obtain ⟨x, hx, hxfail⟩ := hfail
      have hlater : ∃ id ∈ ids, pc.close id ≠ .ok () := by
        rcases List.mem_cons.mp hx with rfl | hx
        · exact absurd hclose hxfail
        · exact ⟨x, hx, hxfail⟩
      obtain ⟨y, hy, hgone, hnone⟩ := ih (r := r.withoutParticipant id) hr hnodup
        (fun x hx => Finset.mem_erase.mpr
          ⟨fun heq => hnew (heq ▸ hx), hids x (List.mem_cons_of_mem id hx)⟩) hlater
      rw [closeIds, removeParticipant, removeParticipantInner_of_closed hmem hclose]
      refine ⟨y, List.mem_cons_of_mem id hy, hgone, ?_⟩
      have hne : (MembershipEvent.participantLeft id).participantId ≠ y := by
        rintro rfl
        exact hnew hy
      rw [if_pos rfl, emit, if_pos hr, eventsOf_append, hnone, eventsOf_singleton, if_neg hne]
      rfl

theorem Orderly.close {ids : List ParticipantId} (h : Orderly os r)
    (hfits : r.fits (.close ids pc)) :
    (AllOrNothing os r (.close ids pc) (r.closeIds pc ids).events (r.closeIds pc ids).room ↔
      Completes r (.close ids pc)) ∧
      (Completes r (.close ids pc) →
        Orderly (os ++ (r.closeIds pc ids).events) (r.closeIds pc ids).room) := by
  simp only [fits, Bool.and_eq_true, decide_eq_true_eq] at hfits
  obtain ⟨hnodup, hkeys⟩ := hfits
  have hids : ∀ id, id ∈ ids ↔ id ∈ r.participants := fun id => by rw [← hkeys, List.mem_toFinset]
  by_cases hclose : ∀ id ∈ r.participants, pc.close id = .ok ()
  · obtain ⟨horderly, hparticipants⟩ := closeIds_closed h hnodup (fun id hid => (hids id).mp hid)
      fun id hid => hclose id ((hids id).mp hid)
    have hgone : ∀ id ∈ r.participants, id ∉ (r.closeIds pc ids).room.participants := by
      intro id hid
      rw [hparticipants, hkeys, Finset.sdiff_self]
      exact Finset.notMem_empty id
    exact ⟨iff_of_true (allOrNothing_of_orderly (fun _ _ _ hi => by cases hi) hgone horderly) hclose,
      fun _ => horderly⟩
  · have hfail : ∃ id ∈ ids, pc.close id ≠ .ok () := by
      simp only [Classical.not_forall] at hclose
      obtain ⟨id, hid, hfail⟩ := hclose
      exact ⟨id, (hids id).mpr hid, hfail⟩
    obtain ⟨id, hid, hgone, hnone⟩ := closeIds_failed h.subscribed hnodup
      (fun id hid => (hids id).mp hid) hfail
    exact ⟨iff_of_false (fun hall => h.not_stays ((hids id).mp hid) hnone hgone (hall.stays id))
      hclose, fun hc => absurd hc hclose⟩

theorem Orderly.still (h : Orderly os r)
    (hjoin : ∀ id roomId pc, i ≠ .handleSignaling (.join id roomId) pc) (hcovered : r.covered i = ∅)
    (hcompletes : Completes r i) (hroom : (r.call i).room = r) (hevents : (r.call i).events = []) :
    (AllOrNothing os r i (r.call i).events (r.call i).room ↔ Completes r i) ∧
      (Completes r i → Orderly (os ++ (r.call i).events) (r.call i).room) := by
  have horderly : Orderly (os ++ []) r := by rwa [List.append_nil]
  rw [hroom, hevents]
  refine ⟨iff_of_true (allOrNothing_of_orderly hjoin (fun id hid => ?_) horderly) hcompletes,
    fun _ => horderly⟩
  rw [hcovered] at hid
  exact absurd hid (Finset.notMem_empty id)

theorem Orderly.call (h : Orderly os r) (hfits : r.fits i) :
    (AllOrNothing os r i (r.call i).events (r.call i).room ↔ Completes r i) ∧
      (Completes r i → Orderly (os ++ (r.call i).events) (r.call i).room) := by
  have hremoved : ∀ {id pc}, id ∉ r.participants →
      r.removeParticipant id pc = ⟨r, [], .error (r.notInRoom id)⟩ :=
    fun hmem => removeParticipantInner_of_not_mem hmem true
  cases i with
  | handleSignaling msg pc =>
    cases msg with
    | join id roomId =>
      obtain ⟨hiff, hkeep⟩ := h.join roomId
        (show RoomCall.handleSignaling (.join id roomId) pc = .handleSignaling (.join id roomId) pc
          from rfl)
      exact ⟨hiff, fun _ => hkeep⟩
    | leave id =>
      refine h.removal pc
        (show (MembershipEvent.participantLeft id).participantId = id from rfl) (fun _ => .left)
        (fun _ _ _ hi => by cases hi) rfl Iff.rfl (fun hmem => ?_) (fun hmem hclose => ?_)
        fun err hmem hclose => ?_
      · rw [RoomState.call, handleSignaling, hremoved hmem]
        exact ⟨rfl, rfl⟩
      · rw [RoomState.call, handleSignaling, removeParticipant,
          removeParticipantInner_of_closed hmem hclose]
        exact ⟨rfl, rfl⟩
      · rw [RoomState.call, handleSignaling, removeParticipant,
          removeParticipantInner_of_failed hmem hclose]
        exact ⟨rfl, rfl⟩
    | offer | answer | iceCandidate =>
      refine h.still (fun _ _ _ hi => by cases hi) rfl trivial ?_ ?_
      all_goals
        simp only [RoomState.call, handleSignaling]
        split <;> rfl
  | addParticipant id pc =>
    by_cases ha : Admits r id pc
    · have hadd := addParticipant_of_admits ha
      have horderly := h.withParticipant ha.1
      rw [RoomState.call, hadd]
      rw [h.emit_eq]
      exact ⟨iff_of_true (allOrNothing_of_orderly (fun _ _ _ hi => by cases hi)
        (fun _ hid => by cases hid) horderly) trivial, fun _ => horderly⟩
    · obtain ⟨e, hadd⟩ := addParticipant_of_not_admits ha
      refine h.still (fun _ _ _ hi => by cases hi) rfl trivial ?_ ?_ <;> rw [RoomState.call, hadd]
  | removeParticipant id pc =>
    refine h.removal pc
      (show (MembershipEvent.participantLeft id).participantId = id from rfl) (fun _ => .left)
      (fun _ _ _ hi => by cases hi) rfl Iff.rfl (fun hmem => ?_) (fun hmem hclose => ?_)
      fun err hmem hclose => ?_
    · rw [RoomState.call, hremoved hmem]
      exact ⟨rfl, rfl⟩
    · rw [RoomState.call, removeParticipant, removeParticipantInner_of_closed hmem hclose]
      exact ⟨rfl, rfl⟩
    · rw [RoomState.call, removeParticipant, removeParticipantInner_of_failed hmem hclose]
      exact ⟨rfl, rfl⟩
  | kickParticipant id reason pc =>
    refine h.removal pc
      (show (MembershipEvent.participantKicked id reason).participantId = id from rfl)
      (fun _ => .kicked) (fun _ _ _ hi => by cases hi) rfl Iff.rfl (fun hmem => ?_)
      (fun hmem hclose => ?_) fun err hmem hclose => ?_
    · rw [RoomState.call, kickParticipant, removeParticipantInner_of_not_mem hmem]
      exact ⟨rfl, rfl⟩
    · rw [RoomState.call, kickParticipant, removeParticipantInner_of_closed hmem hclose]
      exact ⟨rfl, rfl⟩
    · rw [RoomState.call, kickParticipant, removeParticipantInner_of_failed hmem hclose]
      exact ⟨rfl, rfl⟩
  | close ids pc => exact h.close hfits

/-- In any run of a subscribed room every call is all or nothing exactly when every part of every
call succeeds that comes after the registration or the removal. -/
theorem membership_all_or_nothing_iff (id : String) (maxParticipants : Nat) {is : List RoomCall} (hr : run step (new D id maxParticipants).subscribeEvents is =
      some (r, os)) :
    (∀ pre i t os t' es, pre ++ [i] <+: is →
      run step (new D id maxParticipants).subscribeEvents pre = some (t, os) →
      step t i = some (t', es) → AllOrNothing os t i es t') ↔
      Along step Completes (new D id maxParticipants).subscribeEvents is := by
  refine steps_iff_of_run (J := Orderly) (P := fun os t i es t' => AllOrNothing os t i es t')
    (fun os t i t' es horderly hs => ?_) [] (orderly_new D id maxParticipants) hr
  rw [step] at hs
  split_ifs at hs with hfits
  cases hs
  exact horderly.call hfits

/-- Every operation of the peer connections succeeds. -/
def succeeding : PcOutcomes where
  new := .ok ()
  addTrack := .ok ()
  createOffer := .ok ()
  createAnswer := .ok ()
  setLocalDescription := .ok ()
  setRemoteDescription := .ok ()
  addIceCandidate := .ok ()
  localDescription := some "v=0"
  close := fun _ => .ok ()

def shortMeeting : List RoomCall :=
  [.handleSignaling (.join "ann" none) succeeding, .handleSignaling (.join "bob" none) succeeding,
    .kickParticipant "ann" (some "spam") succeeding, .close ["bob"] succeeding]

theorem membership_all_or_nothing_shortMeeting :
    ∃ r, run step (new silentDsp "room" 8).subscribeEvents shortMeeting =
        some (r, [.participantJoined "ann", .participantJoined "bob",
          .participantKicked "ann" (some "spam"), .participantLeft "bob"]) ∧
      ∀ pre i t os t' es, pre ++ [i] <+: shortMeeting →
        run step (new silentDsp "room" 8).subscribeEvents pre = some (t, os) →
        step t i = some (t', es) → AllOrNothing os t i es t' := by
  refine ⟨_, rfl, (membership_all_or_nothing_iff "room" 8 rfl).mpr ?_⟩
  refine .cons ?_ rfl (.cons ?_ rfl (.cons ?_ rfl (.cons ?_ rfl trivial)))
  · exact fun _ => ⟨rfl, rfl, rfl⟩
  · exact fun _ => ⟨rfl, rfl, rfl⟩
  · exact fun _ => rfl
  · exact fun _ _ => rfl

/-- The offer of the connection cannot be created. -/
def offerFails : PcOutcomes := { succeeding with createOffer := .error "no codecs" }

/-- The failed join leaves the participant in the room, so it cannot join again. -/
theorem failed_join_stays :
    ∃ t t' es, step (new silentDsp "room" 8).subscribeEvents
        (.handleSignaling (.join "ann" none) offerFails) = some (t, es) ∧
      ((new silentDsp "room" 8).subscribeEvents.call
        (.handleSignaling (.join "ann" none) offerFails)).result = .error (.core "no codecs") ∧
      step t (.handleSignaling (.join "ann" none) succeeding) = some (t', []) ∧
      (t.call (.handleSignaling (.join "ann" none) succeeding)).result =
        .error (.coded .internal "participant ann already in room") ∧
      ¬ AllOrNothing [] (new silentDsp "room" 8).subscribeEvents
        (.handleSignaling (.join "ann" none) offerFails) es t := by
  refine ⟨_, _, _, rfl, rfl, rfl, rfl, fun hall => ?_⟩
  obtain ⟨hsame, -⟩ := hall.join "ann" none offerFails (.core "no codecs") rfl rfl
  have hmem : "ann" ∈ (∅ : Finset ParticipantId) := by
    rw [show (∅ : Finset ParticipantId) = (new silentDsp "room" 8).subscribeEvents.participants
      from rfl, ← hsame]
    exact Finset.mem_insert_self "ann" ∅
  exact absurd hmem (Finset.notMem_empty "ann")

end Effects

end RoomState

end NodeWebrtc.Conference
