import NodeWebrtc.Mixer.Ops

/-! # Clip playback into the mix graph

A play that reaches a mix pump adds one input to the graph and appends it to the explicit source
list of every target; the other listeners are pinned to explicit lists without it. The end of a
play takes its input out of the lists and applies the remaining plays again. Each call runs to
its end before the next one.

A play id is new when its play starts: the native player draws it at random.
-/

namespace NodeWebrtc.Clips

open Mixer Std

abbrev PlayId := String

/-- MixGraph participant id for an auxiliary clip input. -/
def clipPlayInputId (playId : PlayId) : ParticipantId := "play:" ++ playId

def isClipInput (id : ParticipantId) : Bool := "play:".toList.isPrefixOf id.toList

theorem isClipInput_clipPlayInputId (playId : PlayId) :
    isClipInput (clipPlayInputId playId) = true := by
  rw [isClipInput, clipPlayInputId, String.toList_append]
  exact List.isPrefixOf_iff_prefix.mpr (List.prefix_append _ _)

theorem clipPlayInputId_injective {a b : PlayId} (h : clipPlayInputId a = clipPlayInputId b) :
    a = b := by
  have hlist := congrArg String.toList h
  rw [clipPlayInputId, clipPlayInputId, String.toList_append, String.toList_append] at hlist
  exact String.toList_inj.mp (List.append_cancel_left hlist)

structure PeerId where
  id : ParticipantId
  notClip : isClipInput id = false

structure AudioPosition (D : MixDsp) where
  placement : Option MixPlacement
  pose : Option D.ClientPose

structure ActivePlay where
  playId : PlayId
  targetPeerIds : List ParticipantId
  usesMixGraph : Bool

def ActivePlay.mixInputId (play : ActivePlay) : ParticipantId := clipPlayInputId play.playId

theorem isClipInput_mixInputId (play : ActivePlay) : isClipInput play.mixInputId = true :=
  isClipInput_clipPlayInputId play.playId

/-! ## Routes of one play -/

variable {D : MixDsp}

/-- Placement and pose exclude each other: the check throws. -/
def applyPlayPosition (g : MixGraph D) (mixInputId : ParticipantId) :
    Option (AudioPosition D) → Option (MixGraph D)
  | none => some g
  | some position =>
    match position.placement, position.pose with
    | some _, some _ => none
    | some placement, none => some (g.setSourceMixPlacement mixInputId placement)
    | none, some pose => some ((g.setPose mixInputId pose).setPositionalEnabled true)
    | none, none => some g

/-- The listener's explicit list, or everyone else who is registered. -/
def baseSources (registered : List ParticipantId) (g : MixGraph D) (listener : ParticipantId) :
    List ParticipantId :=
  match g.listenerRoutes[listener]? with
  | some current => current.toList
  | none => registered.filter (· ≠ listener)

/-- One round of the listener loop of `applyTargetPlayRoutes`. -/
def applyToListener (registered : List ParticipantId) (mixInputId : ParticipantId)
    (targets : List ParticipantId) (g : MixGraph D) (listener : ParticipantId) : MixGraph D :=
  let subsetTargeting := !targets.isEmpty && registered.any (!targets.contains ·)
  let base := baseSources registered g listener
  if targets.contains listener then
    g.setListenerSources listener
      (if base.contains mixInputId then base else base ++ [mixInputId])
  else if subsetTargeting then
    g.setListenerSources listener (base.filter (· ≠ mixInputId))
  else g

def applyTargetPlayRoutes (g : MixGraph D) (registered : List ParticipantId)
    (mixInputId : ParticipantId) (targets : List ParticipantId) : MixGraph D :=
  registered.foldl (applyToListener registered mixInputId targets) g

/-- Recomputes the routes of a play from the current graph. -/
def reapplyPlayRoutes (registered : List ParticipantId) (g : MixGraph D) (play : ActivePlay) :
    MixGraph D :=
  if play.usesMixGraph then
    applyTargetPlayRoutes g registered play.mixInputId play.targetPeerIds
  else g

/-- One round of the listener loop of `removePlayMixInputFromRoutes`. -/
def stripListener (mixInputId : ParticipantId) (g : MixGraph D) (listener : ParticipantId) :
    MixGraph D :=
  match g.listenerRoutes[listener]? with
  | none => g
  | some current =>
    if current.contains mixInputId then
      g.setListenerSources listener (current.toList.filter (· ≠ mixInputId))
    else g

/-- Drops a clip input from the explicit routes of the registered listeners. -/
def removePlayMixInputFromRoutes (registered : List ParticipantId) (mixInputId : ParticipantId)
    (g : MixGraph D) : MixGraph D :=
  registered.foldl (stripListener mixInputId) g

/-! ## The mixer and the controller -/

/-- The graph, the ids that the mixer knows and the active plays, oldest first. -/
structure Controller (D : MixDsp) where
  graph : MixGraph D
  registered : ExtTreeSet ParticipantId
  knownClientIds : ExtTreeSet ParticipantId
  plays : List ActivePlay

namespace Controller

def new (D : MixDsp) : Controller D := ⟨.new D, ∅, ∅, []⟩

def listRegisteredPeers (c : Controller D) : List ParticipantId :=
  if c.knownClientIds.isEmpty then c.registered.toList else c.knownClientIds.toList

def registerPeer (c : Controller D) (peerId : ParticipantId) : Controller D :=
  if c.registered.contains peerId then c
  else { c with
    graph := c.graph.addInput peerId
    registered := c.registered.insert peerId
    knownClientIds := c.knownClientIds.insert peerId }

def unregisterPeer (c : Controller D) (peerId : ParticipantId) : Controller D :=
  if c.registered.contains peerId then
    { c with
      graph := (c.graph.removeInput peerId).removeFromGroup peerId
      registered := c.registered.erase peerId
      knownClientIds := c.knownClientIds.erase peerId }
  else c

/-- A peer with a mix pump: the mixer lists it, or its session has a TTS sidecar. -/
def usesMixPump (c : Controller D) (sidecars : List ParticipantId) (peerId : ParticipantId) : Bool :=
  c.listRegisteredPeers.contains peerId || sidecars.contains peerId

/-- `play` after the native player has started the clip. A refused position leaves the input
behind. -/
def play (c : Controller D) (playId : PlayId) (targetPeerIds sidecars : List ParticipantId)
    (position : Option (AudioPosition D)) : Controller D :=
  let usesMixGraph := targetPeerIds.any (c.usesMixPump sidecars)
  if usesMixGraph then
    let g := c.graph.addInput (clipPlayInputId playId)
    match applyPlayPosition g (clipPlayInputId playId) position with
    | none => { c with graph := g }
    | some g =>
      { c with
        graph := applyTargetPlayRoutes g c.listRegisteredPeers (clipPlayInputId playId)
          targetPeerIds
        plays := c.plays ++ [⟨playId, targetPeerIds, true⟩] }
  else { c with plays := c.plays ++ [⟨playId, targetPeerIds, false⟩] }

/-- The first half of `teardownPlay`: the play and its input are gone. -/
def dropPlay (c : Controller D) (play : ActivePlay) : Controller D :=
  { c with
    plays := c.plays.filter (·.playId ≠ play.playId)
    graph :=
      if play.usesMixGraph then
        (removePlayMixInputFromRoutes c.listRegisteredPeers play.mixInputId c.graph).removeInput
          play.mixInputId
      else c.graph }

def reapplyPlays (c : Controller D) : Controller D :=
  { c with graph := c.plays.foldl (reapplyPlayRoutes c.listRegisteredPeers) c.graph }

def teardownPlay (c : Controller D) (play : ActivePlay) : Controller D :=
  if play.usesMixGraph then (c.dropPlay play).reapplyPlays else c.dropPlay play

/-- `stop`, and the end of a play that the tick finds: `teardownPlay`, when it is active. -/
def endPlay (c : Controller D) (playId : PlayId) : Controller D :=
  match c.plays.find? (·.playId = playId) with
  | none => c
  | some play => c.teardownPlay play

def withoutTarget (play : ActivePlay) (peerId : ParticipantId) : ActivePlay :=
  { play with targetPeerIds := play.targetPeerIds.filter (· ≠ peerId) }

def setPlay (c : Controller D) (play : ActivePlay) : Controller D :=
  { c with plays := c.plays.map fun other => if other.playId = play.playId then play else other }

/-- One round of the loop of `onPeerDisconnected`. -/
def peerLeftPlay (peerId : ParticipantId) (c : Controller D) (play : ActivePlay) : Controller D :=
  if ¬play.targetPeerIds.contains peerId then c
  else
    let play := withoutTarget play peerId
    let c := c.setPlay play
    if play.targetPeerIds.isEmpty then c.teardownPlay play
    else { c with graph := reapplyPlayRoutes c.listRegisteredPeers c.graph play }

def onPeerDisconnected (c : Controller D) (peerId : ParticipantId) : Controller D :=
  c.plays.foldl (peerLeftPlay peerId) c

def trackClientIds (c : Controller D) (ids : List ParticipantId) : Controller D :=
  { c with knownClientIds := ids.foldl (·.insert ·) c.knownClientIds }

def setGraph (c : Controller D) (graph : MixGraph D) : Controller D := { c with graph := graph }

end Controller

inductive ClipEvent (D : MixDsp) where
  | registerPeer (peer : PeerId)
  /-- A session closes: the mixer, then the controller. -/
  | disconnectPeer (peer : PeerId)
  | play (playId : PlayId) (targets sidecars : List ParticipantId)
    (position : Option (AudioPosition D))
  | stop (playId : PlayId)
  /-- The tick finds the clip ended, stopped or failed. -/
  | clipEnded (playId : PlayId)
  | setListenerSources (listener : PeerId) (sources : List PeerId)
  | clearListenerRoutes (listener : PeerId)
  | setGroupMembers (groupId : GroupId) (members : List PeerId)
  | moveToGroup (peer : PeerId) (groupId : GroupId)
  | removeFromGroup (peer : PeerId)

namespace Controller

def step (c : Controller D) : ClipEvent D → Option (Controller D × List Empty)
  | .registerPeer peer => some (c.registerPeer peer.id, [])
  | .disconnectPeer peer => some ((c.unregisterPeer peer.id).onPeerDisconnected peer.id, [])
  | .play playId targets sidecars position =>
    if c.plays.any (·.playId = playId) || c.graph.inputs.contains (clipPlayInputId playId) then none
    else some (c.play playId targets sidecars position, [])
  | .stop playId => some (c.endPlay playId, [])
  | .clipEnded playId => some (c.endPlay playId, [])
  | .setListenerSources listener sources =>
    some (c.setGraph (c.graph.setListenerSources listener.id (sources.map (·.id))), [])
  | .clearListenerRoutes listener => some (c.setGraph (c.graph.clearListenerRoutes listener.id), [])
  | .setGroupMembers groupId members =>
    some ((c.trackClientIds (members.map (·.id))).setGraph
      (c.graph.setGroupMembers groupId (members.map (·.id))), [])
  | .moveToGroup peer groupId =>
    some ((c.trackClientIds [peer.id]).setGraph (c.graph.moveToGroup peer.id groupId), [])
  | .removeFromGroup peer => some (c.setGraph (c.graph.removeFromGroup peer.id), [])

end Controller

end NodeWebrtc.Clips
