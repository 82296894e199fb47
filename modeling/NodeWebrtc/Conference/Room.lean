import NodeWebrtc.Mixer.AllowList

/-! # A conference room and the loops of its participants

A participant has one inbound loop for each track that arrived, which reads a sample, takes
the graph lock and pushes the frames of the sample, and one outbound task, which renders the
slots that are due. A removal takes the participant out of the room, aborts the outbound task,
removes the input under the graph lock and closes the peer connection; the inbound loops end
only when a read fails. An aborted task is dropped where it waits; a poll that is under way
goes on until it waits.

The operations of the room need it exclusively, so a removal that waits keeps the others out;
the loops and the task interleave with it in any order.
-/

namespace NodeWebrtc.Conference

open Mixer

/-- Where an inbound loop is: in its read, or with a decoded sample before the graph lock. -/
inductive InboundPhase where
  | reading
  | holding (frames : List Frame) (undecodable : Bool)
  | ended
deriving DecidableEq

/-- Where the outbound task is: waiting, or being polled, with the slots it has to render. -/
inductive OutboundPhase where
  | parked (due : List Instant)
  | running (due : List Instant)
  | ended
deriving DecidableEq

inductive RemovalPhase where
  | joined
  | aborted
  | unlinked
  | removed
deriving DecidableEq

structure Participant where
  id : ParticipantId
  inbound : List InboundPhase
  outbound : OutboundPhase
  abortRequested : Bool
  removal : RemovalPhase

structure Room (D : MixDsp) where
  graph : MixGraph D
  /-- Every participant spawned so far; the room's map holds the joined ones. -/
  participants : List Participant
  maxParticipants : Nat

inductive RoomInput where
  | addParticipant (id : ParticipantId)
  | onTrack (participant : Nat)
  /-- A read returns a sample: its frames after the noise suppression. -/
  | readSample (participant track : Nat) (frames : List Frame) (undecodable : Bool)
  | readFails (participant track : Nat)
  /-- The loop has the graph lock; each frame arrives at its time. -/
  | pushSample (participant track : Nat) (arrivals : List Instant)
  /-- The outbound task is polled; a task that waited for a slot finds these due. -/
  | wake (participant : Nat) (due : List Instant)
  | render (participant : Nat)
  | park (participant : Nat)
  | stopOutbound (participant : Nat)
  | dropOutbound (participant : Nat)
  | remove (id : ParticipantId)
  | removeInput (participant : Nat)
  /-- The peer connection is closed, or its close failed: the removal returns. -/
  | closed (participant : Nat)
  | setMixingEnabled (enabled : Bool)
  | setGlobalMute (target : ParticipantId) (muted : Bool)
  | setListenerMute (listener target : ParticipantId) (muted : Bool)
  | injectFrame (id : ParticipantId) (frame : Frame) (now : Instant)
  | renderOutput (id : ParticipantId) (now : Instant)

inductive RoomEvent where
  | pushed (participant : Nat) (frame : Frame)
  | unlinked (participant : Nat)
  | rendered (rendered : Rendered)

namespace Room

variable {D : MixDsp}

def new (D : MixDsp) (maxParticipants : Nat) : Room D := ⟨.new D, [], maxParticipants⟩

def present (r : Room D) (id : ParticipantId) : Bool :=
  r.participants.any fun p => p.id = id && p.removal = .joined

def busy (r : Room D) : Bool :=
  r.participants.any fun p => p.removal = .aborted || p.removal = .unlinked

def count (r : Room D) : Nat := r.participants.countP fun p => p.removal = .joined

def update (r : Room D) (i : Nat) (f : Participant → Participant) : Room D :=
  { r with participants := r.participants.modify i f }

def setGraph (r : Room D) (graph : MixGraph D) : Room D := { r with graph := graph }

def inboundOf (r : Room D) (i t : Nat) : Option InboundPhase :=
  r.participants[i]?.bind fun p => p.inbound[t]?

def setInbound (r : Room D) (i t : Nat) (phase : InboundPhase) : Room D :=
  r.update i fun p => { p with inbound := p.inbound.set t phase }

def setOutbound (r : Room D) (i : Nat) (phase : OutboundPhase) : Room D :=
  r.update i fun p => { p with outbound := phase }

def setRemoval (r : Room D) (i : Nat) (phase : RemovalPhase) : Room D :=
  r.update i fun p => { p with removal := phase }

/-- `add_participant` with its `Participant::spawn`. -/
def addParticipant (r : Room D) (id : ParticipantId) : Room D :=
  if r.present id then r
  else if r.maxParticipants ≤ r.count then r
  else { r with
    graph := r.graph.addInput id
    participants := r.participants ++ [⟨id, [], .parked [], false, .joined⟩] }

/-- The part of the inbound loop under the graph lock. -/
def pushUnderLock (g : MixGraph D) (id : ParticipantId) (undecodable : Bool)
    (frames : List (Frame × Instant)) : MixGraph D :=
  let g := if undecodable then g.noteDecodeError id else g
  if ¬g.mixingEnabled then g
  else frames.foldl (fun g (frame, now) => g.pushFrameAt id frame now) g

def step (r : Room D) : RoomInput → Option (Room D × List RoomEvent)
  | .addParticipant id => if r.busy then none else some (r.addParticipant id, [])
  | .onTrack i =>
    if i < r.participants.length then
      some (r.update i fun p => { p with inbound := p.inbound ++ [.reading] }, [])
    else none
  | .readSample i t frames undecodable =>
    if r.inboundOf i t = some .reading then
      some (r.setInbound i t (.holding frames undecodable), [])
    else none
  | .readFails i t =>
    if r.inboundOf i t = some .reading then some (r.setInbound i t .ended, []) else none
  | .pushSample i t arrivals =>
    match r.participants[i]? with
    | none => none
    | some p =>
      match p.inbound[t]? with
      | some (.holding frames undecodable) =>
        if arrivals.length = frames.length then
          some ((r.setInbound i t .reading).setGraph
            (pushUnderLock r.graph p.id undecodable (frames.zip arrivals)),
            if r.graph.mixingEnabled then frames.map (.pushed i) else [])
        else none
      | _ => none
  | .wake i due =>
    match r.participants[i]? with
    | none => none
    | some p =>
      match p.outbound with
      | .parked slots =>
        if p.abortRequested then none
        else some (r.setOutbound i (.running (if slots.isEmpty then due else slots)), [])
      | _ => none
  | .render i =>
    match r.participants[i]? with
    | none => none
    | some p =>
      match p.outbound with
      | .running (now :: slots) =>
        (r.graph.render p.id now).map fun (rendered, g) =>
          ((r.setOutbound i (.running slots)).setGraph g, [.rendered rendered])
      | _ => none
  | .park i =>
    match r.participants[i]? with
    | none => none
    | some p =>
      match p.outbound with
      | .running slots => some (r.setOutbound i (.parked slots), [])
      | _ => none
  | .stopOutbound i =>
    match r.participants[i]? with
    | none => none
    | some p =>
      match p.outbound with
      | .running _ => some (r.setOutbound i .ended, [])
      | _ => none
  | .dropOutbound i =>
    match r.participants[i]? with
    | none => none
    | some p =>
      match p.outbound with
      | .parked _ => if p.abortRequested then some (r.setOutbound i .ended, []) else none
      | _ => none
  | .remove id =>
    if r.busy then none
    else
      match r.participants.findIdx? fun p => p.id = id && p.removal = .joined with
      | none => some (r, [])
      | some i =>
        some (r.update i fun p => { p with removal := .aborted, abortRequested := true }, [])
  | .removeInput i =>
    match r.participants[i]? with
    | none => none
    | some p =>
      if p.removal = .aborted then
        some ((r.setRemoval i .unlinked).setGraph (r.graph.removeInput p.id), [.unlinked i])
      else none
  | .closed i =>
    match r.participants[i]? with
    | none => none
    | some p => if p.removal = .unlinked then some (r.setRemoval i .removed, []) else none
  | .setMixingEnabled enabled =>
    if r.busy then none else some (r.setGraph (r.graph.setMixingEnabled enabled), [])
  | .setGlobalMute target muted =>
    if r.busy then none
    else if r.present target then some (r.setGraph (r.graph.setGlobalMute target muted), [])
    else some (r, [])
  | .setListenerMute listener target muted =>
    if r.busy then none
    else if r.present target && r.present listener then
      some (r.setGraph (r.graph.setListenerMute listener target muted), [])
    else some (r, [])
  | .injectFrame id frame now =>
    if r.busy then none
    else if r.present id then some (r.setGraph (r.graph.pushFrameAt id frame now), [])
    else some (r, [])
  | .renderOutput id now =>
    if r.busy then none
    else if r.present id then
      (r.graph.render id now).map fun (rendered, g) => (r.setGraph g, [.rendered rendered])
    else some (r, [])

end Room

end NodeWebrtc.Conference
