import NodeWebrtc.Lib.OrdMap
import NodeWebrtc.Mixer.Elastic

/-! # The mix graph

One elastic queue per participant, advanced by a shared 20 ms media clock; per-listener
positions on that clock, mutes, allow-lists, placements and exclusive mix groups. Each
definition follows the function of the source it is named after. A subtraction that the
source leaves unchecked is partial here: `none` is the underflow.
-/

namespace NodeWebrtc.Mixer

open Std

abbrev ParticipantId := String
abbrev GroupId := String

/-- Longest catch-up after a late render, in ticks. -/
def MAX_CATCHUP_TICKS : Nat := 8

/-- Ticks of per-source output kept for late listeners. -/
def HISTORY_TICKS : Nat := 2 * MAX_CATCHUP_TICKS + 2

def TICK : Duration := fromMillis FRAME_MS

/-- Which history ticks one listener render hears. -/
inductive ListenerStep where
  | single (lag : Nat)
  | merged (olderLag newerLag : Nat)
  | skipped (lag skipped : Nat)
deriving DecidableEq

/-! ## Source slots -/

/-- One mix source: its queue and the frames of the latest ticks, newest last. -/
structure SourceSlot (D : MixDsp) where
  queue : ElasticFrameQueue D
  history : List Frame
  listenerCatchupCompressed : Nat
  listenerSkipped : Nat

namespace SourceSlot

variable {D : MixDsp}

def new (D : MixDsp) : SourceSlot D := ⟨.new D, [], 0, 0⟩

/-- Frame played `lag` ticks ago; silence when not recorded. -/
def frameAtLag (slot : SourceSlot D) (lag : Nat) : Frame :=
  ((checkedSub slot.history.length (1 + lag)).bind fun idx => slot.history[idx]?).getD silenceFrame

/-- Plays one tick: the popped frame enters the bounded history. -/
def tick (slot : SourceSlot D) : SourceSlot D :=
  let (frame, queue) := slot.queue.pop
  let history :=
    if slot.history.length = HISTORY_TICKS then slot.history.tail else slot.history
  { slot with queue := queue, history := history ++ [frame] }

def ticks (slot : SourceSlot D) : Nat → SourceSlot D
  | 0 => slot
  | run + 1 => slot.tick.ticks run

/-- The listener-level counters after one render that mixed this source. -/
def count (slot : SourceSlot D) (merged skipped : Nat) : SourceSlot D :=
  { slot with
    listenerCatchupCompressed := slot.listenerCatchupCompressed + merged
    listenerSkipped := slot.listenerSkipped + skipped }

end SourceSlot

/-! ## The graph -/

structure MixGraph (D : MixDsp) where
  inputs : ExtTreeMap ParticipantId (SourceSlot D)
  clock : Option Instant
  tickCount : Nat
  listenerTicks : ExtTreeMap ParticipantId Nat
  mixingEnabled : Bool
  globalMute : ExtTreeSet ParticipantId
  listenerMute : ExtTreeMap (ParticipantId × ParticipantId) Bool pairCmp
  listenerRoutes : ExtTreeMap ParticipantId (ExtTreeSet ParticipantId)
  poses : ExtTreeMap ParticipantId D.ClientPose
  positionalEnabled : Bool
  defaultMixPlacement : MixPlacement
  ttsMixPlacement : MixPlacement
  sourceMixPlacements : ExtTreeMap ParticipantId MixPlacement
  ttsPoses : ExtTreeMap ParticipantId D.ClientPose
  distanceParams : D.DistanceParams
  groups : ExtTreeMap GroupId (ExtTreeSet ParticipantId)
  memberGroup : ExtTreeMap ParticipantId GroupId

namespace MixGraph

variable {D : MixDsp}

def new (D : MixDsp) : MixGraph D where
  inputs := ∅
  clock := none
  tickCount := 0
  listenerTicks := ∅
  mixingEnabled := true
  globalMute := ∅
  listenerMute := ∅
  listenerRoutes := ∅
  poses := ∅
  positionalEnabled := false
  defaultMixPlacement := .center
  ttsMixPlacement := .center
  sourceMixPlacements := ∅
  ttsPoses := ∅
  distanceParams := D.defaultDistanceParams
  groups := ∅
  memberGroup := ∅

/-! ## Routes and groups -/

/-- Restricts `listener` to `sources`; an empty list clears its routing. -/
def setListenerSources (g : MixGraph D) (listener : ParticipantId)
    (sources : List ParticipantId) : MixGraph D :=
  if sources.isEmpty then { g with listenerRoutes := g.listenerRoutes.erase listener }
  else { g with listenerRoutes := g.listenerRoutes.insert listener (.ofList sources) }

def clearListenerRoutes (g : MixGraph D) (listener : ParticipantId) : MixGraph D :=
  { g with listenerRoutes := g.listenerRoutes.erase listener }

/-- One round of the member loop of `rebuildGroupRoutes`. -/
def rebuildListener (members : ExtTreeSet ParticipantId) (g : MixGraph D)
    (listener : ParticipantId) : MixGraph D :=
  let sources := members.toList.filter (· ≠ listener)
  if sources.isEmpty then g.clearListenerRoutes listener
  else g.setListenerSources listener sources

/-- Rewrites the routes of every member of the group, then drops the routes of every
listener that has no group entry. -/
def rebuildGroupRoutes (g : MixGraph D) (groupId : GroupId) : MixGraph D :=
  match g.groups[groupId]? with
  | none => g
  | some members =>
    let g := members.toList.foldl (rebuildListener members) g
    { g with
      listenerRoutes := g.listenerRoutes.filter fun listener _ => g.memberGroup.contains listener }

/-- Takes `id` out of the member list of a group, when the group has one. -/
def dropMember (g : MixGraph D) (groupId : GroupId) (id : ParticipantId) : MixGraph D :=
  { g with groups := g.groups.modify groupId (·.erase id) }

/-- One round of the member loop of `setGroupMembers`. -/
def joinMember (groupId : GroupId) (g : MixGraph D) (id : ParticipantId) : MixGraph D :=
  let old := g.memberGroup[id]?
  let g := { g with memberGroup := g.memberGroup.insert id groupId }
  match old with
  | none => g
  | some old => if old ≠ groupId then (g.dropMember old id).rebuildGroupRoutes old else g

/-- Defines or replaces the membership of a group. The source visits the set of members
in an unspecified order; here the order is that of `members`, and a repeated member is
visited again, which changes nothing. -/
def setGroupMembers (g : MixGraph D) (groupId : GroupId) (members : List ParticipantId) :
    MixGraph D :=
  let g := members.foldl (joinMember groupId) g
  let g := { g with groups := g.groups.insert groupId (.ofList members) }
  g.rebuildGroupRoutes groupId

/-- `groups.entry(groupId).or_default().insert(id)`. -/
def enterGroup (g : MixGraph D) (groupId : GroupId) (id : ParticipantId) : MixGraph D :=
  { g with groups := g.groups.insert groupId ((g.groups[groupId]?.getD ∅).insert id) }

/-- Moves a participant into a group, out of any other. -/
def moveToGroup (g : MixGraph D) (participantId : ParticipantId) (groupId : GroupId) :
    MixGraph D :=
  let oldGroup := g.memberGroup[participantId]?
  let g := { g with memberGroup := g.memberGroup.erase participantId }
  let g := match oldGroup with
    | some old => g.dropMember old participantId
    | none => g
  let g := g.enterGroup groupId participantId
  let g := { g with memberGroup := g.memberGroup.insert participantId groupId }
  let g := match oldGroup with
    | some old => if old ≠ groupId then g.rebuildGroupRoutes old else g
    | none => g
  g.rebuildGroupRoutes groupId

def removeFromGroup (g : MixGraph D) (participantId : ParticipantId) : MixGraph D :=
  match g.memberGroup[participantId]? with
  | none => g
  | some groupId =>
    let g := { g with memberGroup := g.memberGroup.erase participantId }
    let g := g.dropMember groupId participantId
    let g := g.clearListenerRoutes participantId
    g.rebuildGroupRoutes groupId

/-! ## Inputs and mutes -/

def addInput (g : MixGraph D) (id : ParticipantId) : MixGraph D :=
  { g with inputs := g.inputs.insertIfNew id (.new D) }

/-- An allow-list after `participantId` is gone: an entry left empty, or its own, goes. -/
def pruneRoute (participantId listener : ParticipantId) (sources : ExtTreeSet ParticipantId) :
    Option (ExtTreeSet ParticipantId) :=
  let sources := sources.erase participantId
  if sources.isEmpty then none
  else if listener ≠ participantId then some sources else none

/-- Removes an input and its mutes, poses, routes and group entry. -/
def removeInput (g : MixGraph D) (participantId : ParticipantId) : MixGraph D :=
  let memberGroup := g.memberGroup[participantId]?
  let g := { g with
    inputs := g.inputs.erase participantId
    listenerTicks := g.listenerTicks.erase participantId
    globalMute := g.globalMute.erase participantId
    poses := g.poses.erase participantId
    sourceMixPlacements := g.sourceMixPlacements.erase participantId
    ttsPoses := g.ttsPoses.erase participantId
    listenerMute := g.listenerMute.filter fun key _ =>
      key.1 ≠ participantId && key.2 ≠ participantId
    listenerRoutes := g.listenerRoutes.filterMap (pruneRoute participantId)
    memberGroup := g.memberGroup.erase participantId }
  match memberGroup with
  | some groupId => (g.dropMember groupId participantId).rebuildGroupRoutes groupId
  | none => g

def setMixingEnabled (g : MixGraph D) (enabled : Bool) : MixGraph D :=
  { g with mixingEnabled := enabled }

def setGlobalMute (g : MixGraph D) (target : ParticipantId) (muted : Bool) : MixGraph D :=
  if muted then { g with globalMute := g.globalMute.insert target }
  else { g with globalMute := g.globalMute.erase target }

def setListenerMute (g : MixGraph D) (listener target : ParticipantId) (muted : Bool) :
    MixGraph D :=
  if muted then { g with listenerMute := g.listenerMute.insert (listener, target) true }
  else { g with listenerMute := g.listenerMute.erase (listener, target) }

def isGloballyMuted (g : MixGraph D) (target : ParticipantId) : Bool :=
  g.globalMute.contains target

def isListenerMuted (g : MixGraph D) (listener target : ParticipantId) : Bool :=
  g.listenerMute[(listener, target)]?.getD false

/-! ## Poses and placements -/

def setPose (g : MixGraph D) (id : ParticipantId) (pose : D.ClientPose) : MixGraph D :=
  { g with poses := g.poses.insert id pose }

def clearPose (g : MixGraph D) (id : ParticipantId) : MixGraph D :=
  { g with poses := g.poses.erase id }

def setPositionalEnabled (g : MixGraph D) (enabled : Bool) : MixGraph D :=
  { g with positionalEnabled := enabled }

def setDefaultMixPlacement (g : MixGraph D) (placement : MixPlacement) : MixGraph D :=
  { g with defaultMixPlacement := placement }

def setTtsMixPlacement (g : MixGraph D) (placement : MixPlacement) : MixGraph D :=
  { g with ttsMixPlacement := placement }

def setSourceMixPlacement (g : MixGraph D) (id : ParticipantId) (placement : MixPlacement) :
    MixGraph D :=
  { g with sourceMixPlacements := g.sourceMixPlacements.insert id placement }

def clearSourceMixPlacement (g : MixGraph D) (id : ParticipantId) : MixGraph D :=
  { g with sourceMixPlacements := g.sourceMixPlacements.erase id }

def setTtsPose (g : MixGraph D) (id : ParticipantId) (pose : D.ClientPose) : MixGraph D :=
  { g with ttsPoses := g.ttsPoses.insert id pose }

def clearTtsPose (g : MixGraph D) (id : ParticipantId) : MixGraph D :=
  { g with ttsPoses := g.ttsPoses.erase id }

def setDistanceParams (g : MixGraph D) (params : D.DistanceParams) : MixGraph D :=
  { g with distanceParams := params }

def poseOrCenter (g : MixGraph D) (id : ParticipantId) : D.ClientPose :=
  g.poses[id]?.getD D.centerPose

def panTtsFrame (g : MixGraph D) (frame : Frame) (listenerId : ParticipantId) : Frame :=
  let placed :=
    D.applyPanGains frame (D.panGainsPlacement g.ttsMixPlacement g.distanceParams)
  if g.positionalEnabled then
    match g.ttsPoses[listenerId]? with
    | some ttsPose =>
      D.applyPanGains frame
        (D.panGainsPositional (g.poseOrCenter listenerId) ttsPose g.distanceParams)
    | none => placed
  else placed

def panSourceForListener (g : MixGraph D) (listenerId sourceId : ParticipantId) (frame : Frame) :
    Frame :=
  let gains :=
    if g.positionalEnabled && g.poses.contains sourceId then
      D.panGainsPositional (g.poseOrCenter listenerId) (g.poseOrCenter sourceId) g.distanceParams
    else match g.sourceMixPlacements[sourceId]? with
      | some placement => D.panGainsPlacement placement g.distanceParams
      | none =>
        if g.positionalEnabled then
          D.panGainsPositional (g.poseOrCenter listenerId) D.centerPose g.distanceParams
        else D.panGainsPlacement g.defaultMixPlacement g.distanceParams
  D.applyPanGains frame gains

/-! ## The media clock -/

/-- Queues a frame that arrived at `now`; the first push or render sets the clock. -/
def pushFrameAt (g : MixGraph D) (id : ParticipantId) (frame : Frame) (now : Instant) :
    MixGraph D :=
  let slot := g.inputs[id]?.getD (.new D)
  { g with
    clock := g.clock.or (some now)
    inputs := g.inputs.insert id { slot with queue := slot.queue.push frame now } }

def noteDecodeError (g : MixGraph D) (id : ParticipantId) : MixGraph D :=
  { g with
    inputs := g.inputs.modify id fun slot => { slot with queue := slot.queue.noteDecodeError } }

def sourceStats (g : MixGraph D) (id : ParticipantId) : Option SourceStats :=
  g.inputs[id]?.map fun slot =>
    { slot.queue.stats with
      listenerCatchupCompressed := slot.listenerCatchupCompressed
      listenerSkipped := slot.listenerSkipped }

def elapsedTicks (clock now : Instant) : Nat :=
  asU64 (asMicros (saturatingDurationSince now clock) / asMicros TICK)

/-- Advances the media clock to `now`, popping one frame per tick from every source. A gap
above `MAX_CATCHUP_TICKS` resyncs the clock to `now` and plays exactly one tick. -/
def advanceTo (g : MixGraph D) (now : Instant) : MixGraph D :=
  match g.clock with
  | none => { g with clock := some now }
  | some clock =>
    let ticks := elapsedTicks clock now
    if ticks = 0 then g
    else
      let (clock, run) :=
        if MAX_CATCHUP_TICKS < ticks then (now, 1) else (clock + TICK * asU32 ticks, ticks)
      { g with
        clock := some clock
        inputs := g.inputs.map fun _ slot => slot.ticks run
        tickCount := g.tickCount + run }

/-! ## Rendering -/

/-- Whole ticks, rounded up, by which `now` lies before the clock. -/
def behind (clock : Option Instant) (now : Instant) : Nat :=
  match clock with
  | some clock =>
    if now < clock then
      min u64Max (divCeil (asMicros (saturatingDurationSince clock now)) (asMicros TICK))
    else 0
  | none => 0

def newestTick (g : MixGraph D) (now : Instant) : Nat := g.tickCount - behind g.clock now

end MixGraph

/-- The decision of `next_listener_step` from the tick count, the newest tick this render
may hear and the listener's cursor: the step and the new cursor. -/
def listenerStepAt (tickCount newest cursor : Nat) : Option (ListenerStep × Nat) := do
  let trailing := newest - cursor
  let oldestHeld := tickCount - (HISTORY_TICKS - 1)
  if trailing > 0 ∧ cursor + 1 < oldestHeld then
    -- the next unheard tick is gone from the history
    if newest < oldestHeld then
      let lag ← checkedSub tickCount newest
      return (.skipped lag trailing, newest)
    else
      let room ← checkedSub newest oldestHeld
      if room ≥ MAX_CATCHUP_TICKS then
        let skipped ← checkedSub trailing 1
        let lag ← checkedSub tickCount newest
        return (.skipped lag skipped, newest)
      else
        let gap ← checkedSub oldestHeld cursor
        let skipped ← checkedSub gap 1
        let lag ← checkedSub tickCount oldestHeld
        return (.skipped lag skipped, oldestHeld)
  else if trailing ≤ 1 then
    -- on time or early: the next tick if there is one, else the last again
    let cursor := if trailing = 1 then cursor + 1 else cursor
    let lag ← checkedSub tickCount cursor
    return (.single lag, cursor)
  else if trailing > MAX_CATCHUP_TICKS then
    let skipped ← checkedSub trailing 1
    let lag ← checkedSub tickCount newest
    return (.skipped lag skipped, newest)
  else
    let cursor := cursor + 2
    let older ← checkedSub cursor 1
    let olderLag ← checkedSub tickCount older
    let newerLag ← checkedSub tickCount cursor
    return (.merged olderLag newerLag, cursor)

/-- What one call of `next_listener_step` read and decided. -/
structure ListenerRender where
  listener : ParticipantId
  tickCount : Nat
  newest : Nat
  before : Nat
  step : ListenerStep
  after : Nat
deriving DecidableEq

/-- What one render mixed: the listener's step, the sources and the frame. -/
structure Rendered where
  call : ListenerRender
  heard : List ParticipantId
  frame : Frame

namespace MixGraph

variable {D : MixDsp}

def nextListenerStep (g : MixGraph D) (listenerId : ParticipantId) (now : Instant) :
    Option (ListenerRender × MixGraph D) :=
  let newest := g.newestTick now
  let before := g.listenerTicks[listenerId]?.getD newest
  (listenerStepAt g.tickCount newest before).map fun (step, after) =>
    (⟨listenerId, g.tickCount, newest, before, step, after⟩,
      { g with listenerTicks := g.listenerTicks.insert listenerId after })

/-- The tests of the source loop of `render_output` for one participant. -/
def mixes (g : MixGraph D) (listenerId participantId : ParticipantId) : Bool :=
  participantId ≠ listenerId &&
    (match g.listenerRoutes[listenerId]? with
      | some allowed => allowed.contains participantId
      | none => true) &&
    !g.isGloballyMuted participantId && !g.isListenerMuted listenerId participantId

def heardSources (g : MixGraph D) (listenerId : ParticipantId) :
    List (ParticipantId × SourceSlot D) :=
  g.inputs.toList.filter fun entry => g.mixes listenerId entry.1

def rawFrame (slot : SourceSlot D) : ListenerStep → Frame
  | .single lag => slot.frameAtLag lag
  | .skipped lag _ => slot.frameAtLag lag
  | .merged olderLag newerLag => D.mergePair (slot.frameAtLag olderLag) (slot.frameAtLag newerLag)

/-- The counts of one listener step: merged pairs and skipped ticks. -/
def stepCounts : ListenerStep → Nat × Nat
  | .single _ => (0, 0)
  | .merged _ _ => (1, 0)
  | .skipped _ skipped => (0, skipped)

/-- Adds the counts of a step to every source it mixed. -/
def countHeard (g : MixGraph D) (heard : List ParticipantId) (step : ListenerStep) : MixGraph D :=
  let (merged, skipped) := stepCounts step
  if 0 < merged + skipped then
    { g with
      inputs := heard.foldl (fun inputs id => inputs.modify id (·.count merged skipped)) g.inputs }
  else g

/-- Renders the mix for one listener at `now`, with what was mixed. -/
def render (g : MixGraph D) (listenerId : ParticipantId) (now : Instant) :
    Option (Rendered × MixGraph D) :=
  ((g.advanceTo now).nextListenerStep listenerId now).map fun (call, g) =>
    if !g.mixingEnabled then (⟨call, [], silenceFrame⟩, g)
    else
      let mixed := g.heardSources listenerId
      let sources := mixed.map fun (id, slot) =>
        g.panSourceForListener listenerId id (rawFrame slot call.step)
      let heard := mixed.map Prod.fst
      (⟨call, heard, MixBus.mix sources⟩, g.countHeard heard call.step)

/-- `render_output` returns the frame only. -/
def renderOutput (g : MixGraph D) (listenerId : ParticipantId) (now : Instant) :
    Option (Frame × MixGraph D) :=
  (g.render listenerId now).map fun (rendered, g) => (rendered.frame, g)

end MixGraph

end NodeWebrtc.Mixer
