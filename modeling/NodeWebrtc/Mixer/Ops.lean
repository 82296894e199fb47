import NodeWebrtc.Lib.Machine
import NodeWebrtc.Mixer.Graph

/-! # Mix graph operations as a machine

Every public operation that changes a graph is one input. Only a render can be refused,
by an underflow of its listener step, and only a render puts something out. The frame
lemmas say which parts of the graph an operation leaves alone.
-/

namespace NodeWebrtc.Mixer

open Std

inductive MixOp (D : MixDsp) where
  | addInput (id : ParticipantId)
  | removeInput (id : ParticipantId)
  | setMixingEnabled (enabled : Bool)
  | setGlobalMute (target : ParticipantId) (muted : Bool)
  | setListenerMute (listener target : ParticipantId) (muted : Bool)
  | setListenerSources (listener : ParticipantId) (sources : List ParticipantId)
  | clearListenerRoutes (listener : ParticipantId)
  | setPose (id : ParticipantId) (pose : D.ClientPose)
  | clearPose (id : ParticipantId)
  | setPositionalEnabled (enabled : Bool)
  | setDefaultMixPlacement (placement : MixPlacement)
  | setTtsMixPlacement (placement : MixPlacement)
  | setSourceMixPlacement (id : ParticipantId) (placement : MixPlacement)
  | clearSourceMixPlacement (id : ParticipantId)
  | setTtsPose (id : ParticipantId) (pose : D.ClientPose)
  | clearTtsPose (id : ParticipantId)
  | setDistanceParams (params : D.DistanceParams)
  | setGroupMembers (groupId : GroupId) (members : List ParticipantId)
  | moveToGroup (id : ParticipantId) (groupId : GroupId)
  | removeFromGroup (id : ParticipantId)
  | pushFrameAt (id : ParticipantId) (frame : Frame) (now : Instant)
  | noteDecodeError (id : ParticipantId)
  | advanceTo (now : Instant)
  | renderOutput (listener : ParticipantId) (now : Instant)

namespace MixGraph

variable {D : MixDsp}

/-- The effect of an operation other than a render. -/
def control (g : MixGraph D) : MixOp D → MixGraph D
  | .addInput id => g.addInput id
  | .removeInput id => g.removeInput id
  | .setMixingEnabled enabled => g.setMixingEnabled enabled
  | .setGlobalMute target muted => g.setGlobalMute target muted
  | .setListenerMute listener target muted => g.setListenerMute listener target muted
  | .setListenerSources listener sources => g.setListenerSources listener sources
  | .clearListenerRoutes listener => g.clearListenerRoutes listener
  | .setPose id pose => g.setPose id pose
  | .clearPose id => g.clearPose id
  | .setPositionalEnabled enabled => g.setPositionalEnabled enabled
  | .setDefaultMixPlacement placement => g.setDefaultMixPlacement placement
  | .setTtsMixPlacement placement => g.setTtsMixPlacement placement
  | .setSourceMixPlacement id placement => g.setSourceMixPlacement id placement
  | .clearSourceMixPlacement id => g.clearSourceMixPlacement id
  | .setTtsPose id pose => g.setTtsPose id pose
  | .clearTtsPose id => g.clearTtsPose id
  | .setDistanceParams params => g.setDistanceParams params
  | .setGroupMembers groupId members => g.setGroupMembers groupId members
  | .moveToGroup id groupId => g.moveToGroup id groupId
  | .removeFromGroup id => g.removeFromGroup id
  | .pushFrameAt id frame now => g.pushFrameAt id frame now
  | .noteDecodeError id => g.noteDecodeError id
  | .advanceTo now => g.advanceTo now
  | .renderOutput _ _ => g

/-- One operation; a render puts out what it mixed. -/
def step : Machine.Step (MixGraph D) (MixOp D) Rendered := fun g op =>
  match op with
  | .renderOutput listener now => (g.render listener now).map fun (rendered, g) => (g, [rendered])
  | op => some (g.control op, [])

theorem step_cases {g t : MixGraph D} {op : MixOp D} {out : List Rendered}
    (h : g.step op = some (t, out)) :
    (t = g.control op ∧ out = []) ∨
      ∃ listener now rendered, op = .renderOutput listener now ∧
        g.render listener now = some (rendered, t) ∧ out = [rendered] := by
  cases op with
  | renderOutput listener now =>
    right
    simp only [step, Option.map_eq_some_iff] at h
    obtain ⟨⟨rendered, u⟩, hr, heq⟩ := h
    cases heq
    exact ⟨listener, now, rendered, rfl, hr, rfl⟩
  | _ =>
    left
    simp only [step, Option.some.injEq, Prod.mk.injEq] at h
    exact ⟨h.1.symm, h.2.symm⟩

theorem step_control {g : MixGraph D} {op : MixOp D}
    (h : ∀ listener now, op ≠ .renderOutput listener now) :
    g.step op = some (g.control op, []) := by
  cases op with
  | renderOutput listener now => exact absurd rfl (h listener now)
  | _ => rfl

/-! ## Frames: what group operations change -/

/-- `t` differs from `g` at most in routes, groups and group entries. -/
def OnlyRouting (g t : MixGraph D) : Prop :=
  t = { g with
    listenerRoutes := t.listenerRoutes
    groups := t.groups
    memberGroup := t.memberGroup }

variable (g : MixGraph D)

theorem OnlyRouting.refl : g.OnlyRouting g := rfl

theorem OnlyRouting.trans {g t u : MixGraph D} (h₁ : g.OnlyRouting t) (h₂ : t.OnlyRouting u) :
    g.OnlyRouting u := by
  unfold OnlyRouting at h₁ h₂ ⊢
  rw [h₂, h₁]

theorem setListenerSources_onlyRouting (listener : ParticipantId) (sources : List ParticipantId) :
    g.OnlyRouting (g.setListenerSources listener sources) := by
  unfold setListenerSources
  split <;> rfl

theorem rebuildListener_onlyRouting (members : ExtTreeSet ParticipantId) (g : MixGraph D)
    (listener : ParticipantId) : g.OnlyRouting (rebuildListener members g listener) := by
  unfold rebuildListener
  dsimp only
  split
  · rfl
  · exact setListenerSources_onlyRouting g _ _

theorem foldl_onlyRouting {α : Type} {f : MixGraph D → α → MixGraph D}
    (hf : ∀ (g : MixGraph D) (a : α), g.OnlyRouting (f g a)) (as : List α) (g : MixGraph D) :
    g.OnlyRouting (as.foldl f g) := by
  induction as generalizing g with
  | nil => exact OnlyRouting.refl g
  | cons a as ih => exact (hf g a).trans (ih (f g a))

theorem rebuildGroupRoutes_onlyRouting (groupId : GroupId) :
    g.OnlyRouting (g.rebuildGroupRoutes groupId) := by
  unfold rebuildGroupRoutes
  cases g.groups[groupId]? with
  | none => exact OnlyRouting.refl g
  | some members =>
    have hloop := foldl_onlyRouting (rebuildListener_onlyRouting members) members.toList g
    exact hloop.trans rfl

theorem joinMember_onlyRouting (groupId : GroupId) (g : MixGraph D) (id : ParticipantId) :
    g.OnlyRouting (joinMember groupId g id) := by
  unfold joinMember
  cases g.memberGroup[id]? with
  | none => rfl
  | some old =>
    dsimp only
    split
    · refine OnlyRouting.trans ?_ (rebuildGroupRoutes_onlyRouting _ old)
      rfl
    · rfl

theorem setGroupMembers_onlyRouting (groupId : GroupId) (members : List ParticipantId) :
    g.OnlyRouting (g.setGroupMembers groupId members) := by
  have hloop := foldl_onlyRouting (joinMember_onlyRouting groupId) members g
  refine OnlyRouting.trans (hloop.trans ?_) (rebuildGroupRoutes_onlyRouting _ groupId)
  rfl

theorem moveToGroup_onlyRouting (id : ParticipantId) (groupId : GroupId) :
    g.OnlyRouting (g.moveToGroup id groupId) := by
  unfold moveToGroup
  cases g.memberGroup[id]? with
  | none =>
    refine OnlyRouting.trans ?_ (rebuildGroupRoutes_onlyRouting _ groupId)
    rfl
  | some old =>
    dsimp only
    refine OnlyRouting.trans ?_ (rebuildGroupRoutes_onlyRouting _ groupId)
    split
    · refine OnlyRouting.trans ?_ (rebuildGroupRoutes_onlyRouting _ old)
      rfl
    · rfl

theorem removeFromGroup_onlyRouting (id : ParticipantId) :
    g.OnlyRouting (g.removeFromGroup id) := by
  unfold removeFromGroup
  cases g.memberGroup[id]? with
  | none => exact OnlyRouting.refl g
  | some groupId =>
    refine OnlyRouting.trans ?_ (rebuildGroupRoutes_onlyRouting _ groupId)
    rfl

/-- What `removeInput` does outside routes, groups and group entries. -/
def forgetInput (g : MixGraph D) (id : ParticipantId) : MixGraph D :=
  { g with
    inputs := g.inputs.erase id
    listenerTicks := g.listenerTicks.erase id
    globalMute := g.globalMute.erase id
    poses := g.poses.erase id
    sourceMixPlacements := g.sourceMixPlacements.erase id
    ttsPoses := g.ttsPoses.erase id
    listenerMute := g.listenerMute.filter fun key _ => key.1 ≠ id && key.2 ≠ id }

theorem removeInput_onlyRouting (id : ParticipantId) :
    (g.forgetInput id).OnlyRouting (g.removeInput id) := by
  unfold removeInput
  cases g.memberGroup[id]? with
  | none => rfl
  | some groupId =>
    refine OnlyRouting.trans ?_ (rebuildGroupRoutes_onlyRouting _ groupId)
    rfl

end MixGraph

end NodeWebrtc.Mixer
