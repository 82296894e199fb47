import NodeWebrtc.Mixer.Groups
import NodeWebrtc.Mixer.ListenerTicks

/-! # Group isolation

Whom a listener hears is decided by its route, and no route means everyone. A member of a
group with somebody else in it is routed to exactly the others. The sole member of a group
and a listener that left its group have no route, so they hear every other participant.
-/

namespace NodeWebrtc.Mixer

open Std

namespace MixGraph

variable {D : MixDsp}

/-! ## Whom a render mixes -/

theorem advanceTo_mem_inputs (g : MixGraph D) (now : Instant) (p : ParticipantId) :
    p ∈ (g.advanceTo now).inputs ↔ p ∈ g.inputs := by
  unfold advanceTo
  cases g.clock with
  | none => exact Iff.rfl
  | some clock =>
    dsimp only
    split
    · exact Iff.rfl
    · exact ExtTreeMap.mem_map

theorem advanceTo_mixes (g : MixGraph D) (now : Instant) :
    (g.advanceTo now).mixes = g.mixes ∧
      (g.advanceTo now).mixingEnabled = g.mixingEnabled := by
  unfold advanceTo
  cases g.clock with
  | none => exact ⟨rfl, rfl⟩
  | some clock =>
    dsimp only
    split <;> exact ⟨rfl, rfl⟩

theorem mem_heardSources (g : MixGraph D) (l p : ParticipantId) :
    p ∈ (g.heardSources l).map Prod.fst ↔ p ∈ g.inputs ∧ g.mixes l p = true := by
  unfold heardSources
  simp only [List.mem_map, List.mem_filter, Prod.exists, exists_and_right, exists_eq_right,
    ExtTreeMap.mem_toList_iff_getElem?_eq_some]
  rw [ExtTreeMap.mem_iff_isSome_getElem?, Option.isSome_iff_exists]

variable {g : MixGraph D} {l : ParticipantId}

/-- A render mixes the registered participants that pass its tests, or nobody when mixing
is disabled. -/
theorem render_heard {t : MixGraph D} {now : Instant} {rendered : Rendered}
    (h : g.render l now = some (rendered, t)) (p : ParticipantId) :
    p ∈ rendered.heard ↔ g.mixingEnabled = true ∧ p ∈ g.inputs ∧ g.mixes l p = true := by
  obtain ⟨hmixes, henabled⟩ := g.advanceTo_mixes now
  have hinputs := g.advanceTo_mem_inputs now p
  simp only [render, nextListenerStep, Option.map_map, Option.map_eq_some_iff] at h
  obtain ⟨⟨step, after⟩, hstep, heq⟩ := h
  dsimp only [Function.comp] at heq
  rw [henabled] at heq
  by_cases hon : g.mixingEnabled = true
  · simp only [hon, Bool.not_true, Bool.false_eq_true, if_false, Prod.mk.injEq] at heq
    rw [← heq.1]
    refine (mem_heardSources _ l p).trans ?_
    rw [← hinputs, ← hmixes]
    simp only [hon, true_and]
    exact Iff.rfl
  · rw [Bool.not_eq_true] at hon
    simp only [hon, Bool.not_false, if_true, Prod.mk.injEq] at heq
    rw [← heq.1]
    simp [hon]

/-- Every render of `l`, at whatever time, mixes exactly the participants in `S`. -/
def HearsExactly (g : MixGraph D) (l : ParticipantId) (S : ParticipantId → Prop) : Prop :=
  ∀ now, ∃ rendered t, g.render l now = some (rendered, t) ∧ ∀ p, p ∈ rendered.heard ↔ S p

/-- A member hears exactly the other registered members of its group; a former member that
is in no group hears nobody. -/
structure Isolated (g : MixGraph D) (l : ParticipantId) (wasGrouped : Prop) : Prop where
  member : ∀ groupId, g.IsMember l groupId →
    g.HearsExactly l fun p => p ∈ g.inputs ∧ p ≠ l ∧ g.IsMember p groupId
  departed : wasGrouped → (∀ groupId, ¬ g.IsMember l groupId) → g.HearsExactly l fun _ => False

/-- `l` is alone in its group, or in no group after having been in one. -/
def Exposed (g : MixGraph D) (l : ParticipantId) (wasGrouped : Prop) : Prop :=
  (∃ groupId, g.IsMember l groupId ∧ ∀ p, g.IsMember p groupId → p = l) ∨
    (wasGrouped ∧ ∀ groupId, ¬ g.IsMember l groupId)

/-! ## Nobody muted -/

/-- Renders are defined, mixing is on and nobody is muted. -/
structure Audible (g : MixGraph D) : Prop where
  bounded : g.CursorsBounded
  enabled : g.mixingEnabled = true
  unmuted : ∀ p, g.isGloballyMuted p = false
  unmutedFor : ∀ l p, g.isListenerMuted l p = false

section

variable (h : g.Audible)
include h

theorem Audible.onlyRouting {t : MixGraph D} (hframe : g.OnlyRouting t) : t.Audible := by
  rw [hframe]
  exact ⟨h.bounded, h.enabled, h.unmuted, h.unmutedFor⟩

theorem forgetInput_audible (id : ParticipantId) : (g.forgetInput id).Audible := by
  refine ⟨?_, h.enabled, fun p => ?_, fun l p => ?_⟩
  · intro l c hc
    unfold forgetInput at hc
    rw [OrdMap.lookup_erase] at hc
    split at hc
    · simp at hc
    · exact h.bounded l c hc
  · have hp := h.unmuted p
    unfold isGloballyMuted forgetInput at *
    rw [ExtTreeSet.contains_erase, hp, Bool.and_false]
  · have hlp := h.unmutedFor l p
    unfold isListenerMuted forgetInput at *
    rw [ExtTreeMap.getElem?_filter']
    cases hkey : g.listenerMute[(l, p)]? with
    | none => rfl
    | some muted =>
      rw [hkey, Option.getD_some] at hlp
      rw [hlp, Option.filter]
      split <;> rfl

theorem control_audible {op : MixOp D} (hop : op.IsMembership) : (g.control op).Audible := by
  cases op with
  | addInput id => exact ⟨h.bounded, h.enabled, h.unmuted, h.unmutedFor⟩
  | removeInput id => exact (forgetInput_audible h id).onlyRouting (g.removeInput_onlyRouting id)
  | setGroupMembers groupId members => exact h.onlyRouting (g.setGroupMembers_onlyRouting _ _)
  | moveToGroup id groupId => exact h.onlyRouting (g.moveToGroup_onlyRouting _ _)
  | removeFromGroup id => exact h.onlyRouting (g.removeFromGroup_onlyRouting _)
  | _ => exact hop.elim

theorem Audible.hearsExactly_iff (l : ParticipantId) (S : ParticipantId → Prop) :
    g.HearsExactly l S ↔ ∀ p, S p ↔ p ∈ g.inputs ∧ p ≠ l ∧
      ∀ allowed, g.listenerRoutes[l]? = some allowed → p ∈ allowed := by
  have hmixes : ∀ p, g.mixes l p = true ↔
      p ≠ l ∧ ∀ allowed, g.listenerRoutes[l]? = some allowed → p ∈ allowed := by
    intro p
    unfold mixes
    rw [h.unmuted, h.unmutedFor]
    cases g.listenerRoutes[l]? with
    | none => simp
    | some allowed => simp [ExtTreeSet.contains_iff_mem]
  constructor
  · intro hears p
    obtain ⟨rendered, t, hr, hS⟩ := hears 0
    rw [← hS p, render_heard hr, hmixes]
    exact and_iff_right h.enabled
  · intro hS now
    obtain ⟨rendered, t, hr, -⟩ := render_spec h.bounded l now
    refine ⟨rendered, t, hr, fun p => ?_⟩
    rw [hS p, render_heard hr, hmixes]
    exact and_iff_right h.enabled

/-! ## Isolation of a state and of a run -/

theorem member_hearsExactly_iff (hm : g.RoutesMatch []) {groupId : GroupId}
    (hl : g.IsMember l groupId) :
    (g.HearsExactly l fun p => p ∈ g.inputs ∧ p ≠ l ∧ g.IsMember p groupId) ↔
      ((∀ p, g.IsMember p groupId → p = l) → ∀ p ∈ g.inputs, p = l) := by
  obtain ⟨members, hlist, hmem⟩ := hl
  have hroute := hm.routed groupId members List.not_mem_nil hlist l hmem
  have hlisted : ∀ p, g.IsMember p groupId ↔ p ∈ members := by
    intro p
    unfold IsMember
    rw [hlist]
    simp only [Option.some.injEq, exists_eq_left']
  rw [h.hearsExactly_iff, hroute, groupRoute]
  simp only [hlisted]
  by_cases hempty : (members.erase l).isEmpty = true
  · have halone : ∀ p ∈ members, p = l := by
      intro p hp
      by_contra hne
      rw [ExtTreeSet.isEmpty_iff] at hempty
      have hother := (OrdMap.mem_erase members l p).mpr ⟨hne, hp⟩
      rw [hempty] at hother
      exact ExtTreeSet.not_mem_empty hother
    rw [if_pos hempty]
    constructor
    · intro hears _ p hp
      by_contra hne
      exact hne (halone p ((hears p).mpr ⟨hp, hne, by simp⟩).2.2)
    · intro hnobody p
      constructor
      · intro hp
        exact ⟨hp.1, hp.2.1, by simp⟩
      · intro hp
        exact absurd (hnobody halone p hp.1) hp.2.1
  · rw [if_neg hempty]
    have hother : ∃ p ∈ members, p ≠ l := by
      by_contra hnone
      apply hempty
      rw [ExtTreeSet.isEmpty_iff]
      apply ExtTreeSet.ext_mem
      intro p
      rw [OrdMap.mem_erase]
      constructor
      · intro hp
        exact absurd ⟨p, hp.2, hp.1⟩ hnone
      · intro hp
        exact absurd hp ExtTreeSet.not_mem_empty
    constructor
    · intro _ halone
      obtain ⟨p, hp, hne⟩ := hother
      exact absurd (halone p hp) hne
    · intro _ p
      simp only [Option.some.injEq, forall_eq', OrdMap.mem_erase]
      grind

theorem isolated_iff (hm : g.RoutesMatch []) (hl : g.Listed l) (wasGrouped : Prop) :
    g.Isolated l wasGrouped ↔ (g.Exposed l wasGrouped → ∀ p ∈ g.inputs, p = l) := by
  constructor
  · intro hiso hexposed
    rcases hexposed with ⟨groupId, hmem, halone⟩ | ⟨hwas, hnone⟩
    · exact (member_hearsExactly_iff h hm hmem).mp (hiso.member groupId hmem) halone
    · have hears := (h.hearsExactly_iff l _).mp (hiso.departed hwas hnone)
      have hroute : g.listenerRoutes[l]? = none := by
        refine hm.unrouted l ?_
        cases hown : g.memberGroup[l]? with
        | none => rfl
        | some groupId => exact absurd (hl groupId hown) (hnone groupId)
      intro p hp
      by_contra hne
      exact (hears p).mpr ⟨hp, hne, by simp [hroute]⟩
  · intro hcond
    refine ⟨fun groupId hmem => ?_, fun hwas hnone => ?_⟩
    · exact (member_hearsExactly_iff h hm hmem).mpr fun halone => hcond (.inl ⟨groupId, hmem, halone⟩)
    · rw [h.hearsExactly_iff]
      intro p
      refine ⟨False.elim, fun hp => ?_⟩
      exact hp.2.1 (hcond (.inr ⟨hwas, hnone⟩) p hp.1)

end

/-- `l` was a member of a group at some point of the run of `ops`. -/
def WasGrouped (D : MixDsp) (l : ParticipantId) (ops : List (MixOp D)) : Prop :=
  ∃ pre g out groupId, pre <+: ops ∧ Machine.run step (MixGraph.new D) pre = some (g, out) ∧
    g.IsMember l groupId

theorem new_audible : (MixGraph.new D).Audible where
  bounded := new_cursorsBounded
  enabled := rfl
  unmuted := by simp [MixGraph.new, isGloballyMuted]
  unmutedFor := by simp [MixGraph.new, isListenerMuted]

/-- After every run of membership operations that leaves `l` out of no list it was on, `l`
is isolated if and only if there is nobody else to hear whenever it is the sole member of a
group or has left its group. -/
theorem group_isolation_iff (l : ParticipantId) (ops : List (MixOp D))
    (hops : ∀ op ∈ ops, op.IsMembership)
    (hkeeps : Machine.Along step (fun g op => g.KeepsMember l op) (MixGraph.new D) ops) :
    ∃ g out, Machine.run step (MixGraph.new D) ops = some (g, out) ∧
      (g.Isolated l (WasGrouped D l ops) ↔
        (g.Exposed l (WasGrouped D l ops) → ∀ p ∈ g.inputs, p = l)) := by
  have hmembership : Machine.Along step (fun _ op => op.IsMembership) (MixGraph.new D) ops :=
    Machine.along_of_forall_mem hops _
  have hstart : (MixGraph.new D).RoutesMatch [] ∧ (MixGraph.new D).Listed l := by
    have hnew := consistent_iff.mp (new_consistent (D := D))
    exact ⟨hnew.1, hnew.2 l⟩
  obtain ⟨g, out, hrun, haudible, hmatch, hlisted⟩ := Machine.run_spec
    (I := fun _ _ g => g.Audible ∧ g.RoutesMatch [] ∧ g.Listed l)
    (fun _ _ g op hi hc => by
      obtain ⟨haudible, hmatch, hlisted⟩ := hi
      have hrender : ∀ listener now, op ≠ .renderOutput listener now := by
        intro listener now heq
        rw [heq] at hc
        exact hc.1
      exact ⟨g.control op, [], step_control hrender, control_audible haudible hc.1,
        control_routesMatch hmatch hc.1, (control_listed_iff hmatch hlisted hc.1).mpr hc.2⟩)
    ⟨new_audible, hstart⟩ (hmembership.and hkeeps)
  exact ⟨g, out, hrun, isolated_iff haudible hmatch hlisted _⟩

/-- Two groups of two, one of which loses a member to the other. -/
theorem group_isolation_iff_move :
    ∃ g out, Machine.run step (MixGraph.new silentDsp)
        [.addInput "ann", .addInput "bob", .setGroupMembers "red" ["ann", "bob"],
          .moveToGroup "cas" "blue", .moveToGroup "ann" "blue"] = some (g, out) ∧
      (g.Isolated "ann" (WasGrouped silentDsp "ann"
          [.addInput "ann", .addInput "bob", .setGroupMembers "red" ["ann", "bob"],
            .moveToGroup "cas" "blue", .moveToGroup "ann" "blue"]) ↔
        (g.Exposed "ann" (WasGrouped silentDsp "ann"
          [.addInput "ann", .addInput "bob", .setGroupMembers "red" ["ann", "bob"],
            .moveToGroup "cas" "blue", .moveToGroup "ann" "blue"]) → ∀ p ∈ g.inputs, p = "ann")) :=
  group_isolation_iff "ann" _ (by simp [MixOp.IsMembership])
    ⟨trivial, fun _ _ _ => ⟨trivial, fun _ _ _ => ⟨fun _ => by simp, fun _ _ _ =>
      ⟨trivial, fun _ _ _ => ⟨trivial, fun _ _ _ => trivial⟩⟩⟩⟩⟩

/-- The graph in which `ann` is the sole member of a group and `bob` is in none. -/
def aloneInGroup : MixGraph silentDsp :=
  (((MixGraph.new silentDsp).addInput "ann").addInput "bob").moveToGroup "ann" "red"

/-- The sole member of a group hears a participant outside it, and still does after it has
left the group. -/
theorem sole_member_hears_outsider :
    (∃ out, Machine.run step (MixGraph.new silentDsp)
        [.addInput "ann", .addInput "bob", .moveToGroup "ann" "red"] = some (aloneInGroup, out) ∧
      ¬ aloneInGroup.Isolated "ann" (WasGrouped silentDsp "ann"
        [.addInput "ann", .addInput "bob", .moveToGroup "ann" "red"])) ∧
    ∃ out, Machine.run step (MixGraph.new silentDsp)
        [.addInput "ann", .addInput "bob", .moveToGroup "ann" "red", .removeFromGroup "ann"] =
          some (aloneInGroup.removeFromGroup "ann", out) ∧
      ¬ (aloneInGroup.removeFromGroup "ann").Isolated "ann" (WasGrouped silentDsp "ann"
        [.addInput "ann", .addInput "bob", .moveToGroup "ann" "red", .removeFromGroup "ann"]) := by
  have hmember : ∀ p groupId, aloneInGroup.IsMember p groupId ↔ groupId = "red" ∧ p = "ann" := by
    intro p groupId
    have hno : ¬ (((MixGraph.new silentDsp).addInput "ann").addInput "bob").IsMember p groupId := by
      unfold IsMember
      simp [MixGraph.new, addInput]
    rw [aloneInGroup, moveToGroup_isMember]
    simp [hno]
  have hentry : aloneInGroup.memberGroup["ann"]? = some "red" := by decide +kernel
  refine ⟨⟨[], rfl, fun h => ?_⟩, [], rfl, fun h => ?_⟩
  · obtain ⟨rendered, t, hr, hheard⟩ := h.member "red" ((hmember _ _).mpr ⟨rfl, rfl⟩) 0
    have hbob : "bob" ∈ rendered.heard := (render_heard hr "bob").mpr (by decide +kernel)
    have hred := ((hheard "bob").mp hbob).2.2
    rw [hmember] at hred
    exact absurd hred.2 (by decide)
  · have hwas : WasGrouped silentDsp "ann"
        [.addInput "ann", .addInput "bob", .moveToGroup "ann" "red", .removeFromGroup "ann"] :=
      ⟨[.addInput "ann", .addInput "bob", .moveToGroup "ann" "red"], aloneInGroup, [], "red",
        ⟨[.removeFromGroup "ann"], rfl⟩, rfl, (hmember _ _).mpr ⟨rfl, rfl⟩⟩
    have hnone : ∀ groupId, ¬ (aloneInGroup.removeFromGroup "ann").IsMember "ann" groupId := by
      intro groupId hmem
      rw [(removeFromGroup_frame _ _).2, hmember, hentry] at hmem
      exact hmem.2 ⟨by rw [hmem.1.1], rfl⟩
    obtain ⟨rendered, t, hr, hheard⟩ := h.departed hwas hnone 0
    have hbob : "bob" ∈ rendered.heard := (render_heard hr "bob").mpr (by decide +kernel)
    exact (hheard "bob").mp hbob

end MixGraph

end NodeWebrtc.Mixer
