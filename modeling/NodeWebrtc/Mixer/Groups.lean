import NodeWebrtc.Mixer.Ops

/-! # Mix group membership

Membership is stored twice: `groups` lists the members of a group and `memberGroup` names
the group of a participant. The routes of members are derived from the lists. The parts of
this representation that every membership operation keeps are `RoutesMatch`; the converse
direction of the mirror needs that no replaced member list leaves out a current member.
-/

namespace NodeWebrtc.Mixer

open Std

/-- The allow-list of member `p` in a group with these members: everyone else, or none when
there is nobody else. -/
def groupRoute (members : ExtTreeSet ParticipantId) (p : ParticipantId) :
    Option (ExtTreeSet ParticipantId) :=
  if (members.erase p).isEmpty then none else some (members.erase p)

namespace MixGraph

variable {D : MixDsp}

def IsMember (g : MixGraph D) (p : ParticipantId) (groupId : GroupId) : Prop :=
  ∃ members, g.groups[groupId]? = some members ∧ p ∈ members

/-- Entries, member lists and routes fit together, up to the routes of the groups in
`stale`. -/
structure RoutesMatch (stale : List GroupId) (g : MixGraph D) : Prop where
  entry : ∀ p groupId, g.IsMember p groupId → g.memberGroup[p]? = some groupId
  routed : ∀ groupId members, groupId ∉ stale → g.groups[groupId]? = some members →
    ∀ p ∈ members, g.listenerRoutes[p]? = groupRoute members p
  unrouted : ∀ p : ParticipantId, g.memberGroup[p]? = none → g.listenerRoutes[p]? = none

/-! ## Rebuilding routes -/

variable (members : ExtTreeSet ParticipantId)

theorem groupRoute_eq (p : ParticipantId) :
    (if (members.toList.filter (· ≠ p)).isEmpty then none
      else some (ExtTreeSet.ofList (members.toList.filter (· ≠ p)))) = groupRoute members p := by
  have hset : ExtTreeSet.ofList (members.toList.filter (· ≠ p)) = members.erase p := by
    apply ExtTreeSet.ext_mem
    intro q
    rw [OrdMap.mem_ofList, OrdMap.mem_erase, List.mem_filter, ExtTreeSet.mem_toList,
      decide_eq_true_eq]
    exact and_comm
  have hempty : (members.toList.filter (· ≠ p)).isEmpty = (members.erase p).isEmpty := by
    rw [← hset, ← ExtTreeSet.isEmpty_toList, Bool.eq_iff_iff]
    simp only [List.isEmpty_iff, List.eq_nil_iff_forall_not_mem, ExtTreeSet.mem_toList,
      OrdMap.mem_ofList]
  rw [hset, hempty, groupRoute]

theorem rebuildListener_routes (g : MixGraph D) (listener p : ParticipantId) :
    (rebuildListener members g listener).listenerRoutes[p]? =
      if p = listener then groupRoute members listener else g.listenerRoutes[p]? := by
  have hroute := groupRoute_eq members listener
  unfold rebuildListener
  by_cases hempty : (members.toList.filter (· ≠ listener)).isEmpty = true
  · rw [if_pos hempty] at hroute ⊢
    rw [← hroute]
    exact OrdMap.lookup_erase _ _ _
  · rw [if_neg hempty] at hroute ⊢
    rw [← hroute, setListenerSources, if_neg hempty]
    exact OrdMap.lookup_insert _ _ _ _

theorem rebuildListener_frame (g : MixGraph D) (listener : ParticipantId) :
    (rebuildListener members g listener).groups = g.groups ∧
      (rebuildListener members g listener).memberGroup = g.memberGroup := by
  unfold rebuildListener setListenerSources
  dsimp only
  split
  · exact ⟨rfl, rfl⟩
  · exact ⟨rfl, rfl⟩

theorem foldl_rebuildListener_frame (listeners : List ParticipantId) (g : MixGraph D) :
    (listeners.foldl (rebuildListener members) g).groups = g.groups ∧
      (listeners.foldl (rebuildListener members) g).memberGroup = g.memberGroup := by
  induction listeners generalizing g with
  | nil => exact ⟨rfl, rfl⟩
  | cons listener listeners ih =>
    have hone := rebuildListener_frame members g listener
    have hrest := ih (rebuildListener members g listener)
    exact ⟨hrest.1.trans hone.1, hrest.2.trans hone.2⟩

theorem rebuildGroupRoutes_frame (g : MixGraph D) (groupId : GroupId) :
    (g.rebuildGroupRoutes groupId).groups = g.groups ∧
      (g.rebuildGroupRoutes groupId).memberGroup = g.memberGroup := by
  unfold rebuildGroupRoutes
  cases g.groups[groupId]? with
  | none => exact ⟨rfl, rfl⟩
  | some members => exact foldl_rebuildListener_frame members members.toList g

variable {g : MixGraph D} {groupId : GroupId}

/-- The routes after a rebuild: members are routed to the others, and a participant without
an entry is not routed. -/
theorem rebuildGroupRoutes_routes {members : ExtTreeSet ParticipantId}
    (h : g.groups[groupId]? = some members) (p : ParticipantId) :
    (g.rebuildGroupRoutes groupId).listenerRoutes[p]? =
      if g.memberGroup[p]?.isSome then
        if p ∈ members then groupRoute members p else g.listenerRoutes[p]?
      else none := by
  have hloop := OrdMap.getElem?_foldl_write (v := MixGraph.listenerRoutes)
    (fun s k a => rebuildListener_routes members s k a) members.toList g p
  have hframe := (foldl_rebuildListener_frame members members.toList g).2
  unfold rebuildGroupRoutes
  rw [h]
  rw [ExtTreeMap.getElem?_filter', hloop, hframe]
  simp only [ExtTreeSet.mem_toList, ExtTreeMap.contains_eq_isSome_getElem?]
  cases g.memberGroup[p]? with
  | none | some _ =>
    cases (if p ∈ members then groupRoute members p else g.listenerRoutes[p]?) <;> rfl

/-! ## Members after a change of one list -/

variable {t : MixGraph D}

theorem isMember_congr (h : t.groups = g.groups) (p : ParticipantId) (groupId : GroupId) :
    t.IsMember p groupId ↔ g.IsMember p groupId := by
  unfold IsMember
  rw [h]

theorem dropMember_isMember (g : MixGraph D) (old : GroupId) (id p : ParticipantId)
    (groupId : GroupId) :
    (g.dropMember old id).IsMember p groupId ↔
      g.IsMember p groupId ∧ ¬ (groupId = old ∧ p = id) := by
  unfold IsMember dropMember
  rw [OrdMap.lookup_modify]
  by_cases hold : groupId = old
  · rw [if_pos hold]
    cases g.groups[groupId]? with
    | none => simp
    | some members =>
      simp only [Option.map_some, Option.some.injEq, exists_eq_left', OrdMap.mem_erase, hold,
        true_and]
      exact and_comm
  · simp [hold]

theorem enterGroup_isMember (g : MixGraph D) (into : GroupId) (id p : ParticipantId)
    (groupId : GroupId) :
    (g.enterGroup into id).IsMember p groupId ↔
      (groupId = into ∧ p = id) ∨ g.IsMember p groupId := by
  unfold IsMember enterGroup
  rw [OrdMap.lookup_insert]
  by_cases hinto : groupId = into
  · subst hinto
    rw [if_pos rfl]
    cases g.groups[groupId]? with
    | none =>
      simp only [Option.some.injEq, exists_eq_left', OrdMap.mem_insert]
      simp
    | some members =>
      simp only [Option.getD_some, Option.some.injEq, exists_eq_left', OrdMap.mem_insert, true_and]
  · simp [hinto]

/-! ## Edits that keep routes and entries matched -/

variable {stale : List GroupId}

theorem RoutesMatch.mono {wider : List GroupId} (h : g.RoutesMatch stale) (hsub : stale ⊆ wider) :
    g.RoutesMatch wider where
  entry := h.entry
  routed := fun groupId members hfresh => h.routed groupId members fun hmem => hfresh (hsub hmem)
  unrouted := h.unrouted

theorem RoutesMatch.rebuild (h : g.RoutesMatch (groupId :: stale)) :
    (g.rebuildGroupRoutes groupId).RoutesMatch stale := by
  obtain ⟨hgroups, hentries⟩ := g.rebuildGroupRoutes_frame groupId
  have hentry : ∀ p other, (g.rebuildGroupRoutes groupId).IsMember p other →
      (g.rebuildGroupRoutes groupId).memberGroup[p]? = some other := by
    intro p other hp
    rw [hentries]
    exact h.entry p other ((isMember_congr hgroups p other).mp hp)
  cases hlist : g.groups[groupId]? with
  | none =>
    have hsame : g.rebuildGroupRoutes groupId = g := by
      unfold rebuildGroupRoutes
      rw [hlist]
    rw [hsame] at hentry ⊢
    refine ⟨hentry, ?_, h.unrouted⟩
    intro other members hfresh hother
    have hne : other ≠ groupId := by
      intro heq
      rw [heq, hlist] at hother
      simp at hother
    exact h.routed other members (by simp [hne, hfresh]) hother
  | some members =>
    have hroutes := rebuildGroupRoutes_routes hlist
    refine ⟨hentry, ?_, ?_⟩
    · intro other others hfresh hother p hp
      rw [hgroups] at hother
      have hown : g.memberGroup[p]? = some other := h.entry p other ⟨others, hother, hp⟩
      rw [hroutes, hown]
      by_cases hne : other = groupId
      · subst hne
        rw [hlist, Option.some.injEq] at hother
        simp [hother, hp]
      · have hnot : p ∉ members := by
          intro hmem
          have hsame := h.entry p groupId ⟨members, hlist, hmem⟩
          rw [hown, Option.some.injEq] at hsame
          exact hne hsame
        simpa [hnot] using h.routed other others (by simp [hne, hfresh]) hother p hp
    · intro p hp
      rw [hentries] at hp
      rw [hroutes, hp]
      rfl

theorem RoutesMatch.dropMember (h : g.RoutesMatch stale) {old : GroupId} (hold : old ∈ stale)
    (id : ParticipantId) :
    (g.dropMember old id).RoutesMatch stale where
  entry := fun p groupId hp => h.entry p groupId ((g.dropMember_isMember old id p groupId).mp hp).1
  routed := by
    intro groupId members hfresh hlist
    have hne : groupId ≠ old := fun heq => hfresh (heq ▸ hold)
    unfold MixGraph.dropMember at hlist
    rw [OrdMap.lookup_modify, if_neg hne] at hlist
    exact h.routed groupId members hfresh hlist
  unrouted := h.unrouted

theorem RoutesMatch.enterGroup {g : MixGraph D} {stale : List GroupId} (h : g.RoutesMatch stale)
    {into : GroupId} (hinto : into ∈ stale) {id : ParticipantId}
    (hid : g.memberGroup[id]? = some into) : (g.enterGroup into id).RoutesMatch stale where
  entry := by
    intro p groupId hp
    rcases (g.enterGroup_isMember into id p groupId).mp hp with ⟨rfl, rfl⟩ | hp
    · exact hid
    · exact h.entry p groupId hp
  routed := by
    intro groupId members hfresh hlist
    have hne : groupId ≠ into := fun heq => hfresh (heq ▸ hinto)
    unfold MixGraph.enterGroup at hlist
    rw [OrdMap.lookup_insert, if_neg hne] at hlist
    exact h.routed groupId members hfresh hlist
  unrouted := h.unrouted

theorem RoutesMatch.reassign (h : g.RoutesMatch stale) (id : ParticipantId)
    (hgroups : t.groups = g.groups) (hothers : ∀ p, p ≠ id →
      t.memberGroup[p]? = g.memberGroup[p]? ∧ t.listenerRoutes[p]? = g.listenerRoutes[p]?)
    (hmember : ∀ groupId, g.IsMember id groupId →
      t.memberGroup[id]? = some groupId ∧ t.listenerRoutes[id]? = g.listenerRoutes[id]?)
    (hnone : t.memberGroup[id]? = none → t.listenerRoutes[id]? = none) :
    t.RoutesMatch stale where
  entry := by
    intro p groupId hp
    have hp' := (isMember_congr hgroups p groupId).mp hp
    by_cases hid : p = id
    · subst hid
      exact (hmember groupId hp').1
    · rw [(hothers p hid).1]
      exact h.entry p groupId hp'
  routed := by
    intro groupId members hfresh hlist p hp
    rw [hgroups] at hlist
    have hroute := h.routed groupId members hfresh hlist p hp
    by_cases hid : p = id
    · subst hid
      rw [(hmember groupId ⟨members, hlist, hp⟩).2, hroute]
    · rw [(hothers p hid).2, hroute]
  unrouted := by
    intro p hp
    by_cases hid : p = id
    · subst hid
      exact hnone hp
    · rw [(hothers p hid).1] at hp
      rw [(hothers p hid).2]
      exact h.unrouted p hp

theorem RoutesMatch.replace (h : g.RoutesMatch stale) (hstale : groupId ∈ stale)
    {members : List ParticipantId} (hmembers : ∀ p ∈ members, g.memberGroup[p]? = some groupId) :
    RoutesMatch stale { g with groups := g.groups.insert groupId (.ofList members) } where
  entry := by
    intro p other hp
    obtain ⟨others, hlist, hp⟩ := hp
    rw [OrdMap.lookup_insert] at hlist
    by_cases hne : other = groupId
    · rw [if_pos hne, Option.some.injEq] at hlist
      rw [← hlist, OrdMap.mem_ofList] at hp
      rw [hne]
      exact hmembers p hp
    · rw [if_neg hne] at hlist
      exact h.entry p other ⟨others, hlist, hp⟩
  routed := by
    intro other others hfresh hlist
    have hne : other ≠ groupId := fun heq => hfresh (heq ▸ hstale)
    rw [OrdMap.lookup_insert, if_neg hne] at hlist
    exact h.routed other others hfresh hlist
  unrouted := h.unrouted

theorem RoutesMatch.prune (h : g.RoutesMatch stale) {id : ParticipantId}
    (hid : ∀ groupId, g.IsMember id groupId → groupId ∈ stale) :
    RoutesMatch stale { g with listenerRoutes := g.listenerRoutes.filterMap (pruneRoute id) } where
  entry := h.entry
  routed := by
    intro groupId members hfresh hlist p hp
    have hne : p ≠ id := fun heq => hfresh (hid groupId ⟨members, hlist, heq ▸ hp⟩)
    have hnot : id ∉ members := fun hmem => hfresh (hid groupId ⟨members, hlist, hmem⟩)
    have hroute := h.routed groupId members hfresh hlist p hp
    have herase : (members.erase p).erase id = members.erase p := by
      apply ExtTreeSet.ext_mem
      intro q
      rw [OrdMap.mem_erase, and_iff_right_iff_imp]
      intro hq heq
      exact hnot (heq ▸ ((OrdMap.mem_erase members p q).mp hq).2)
    rw [ExtTreeMap.getElem?_filterMap', hroute, groupRoute]
    split
    · rfl
    · rename_i hempty
      rw [Option.bind_some, pruneRoute, herase, if_neg hempty, if_pos hne]
  unrouted := by
    intro p hp
    rw [ExtTreeMap.getElem?_filterMap', h.unrouted p hp]
    rfl

/-! ## The membership operations -/

theorem joinMember_frame (groupId : GroupId) (g : MixGraph D) (id : ParticipantId) :
    (joinMember groupId g id).memberGroup = g.memberGroup.insert id groupId ∧
      ∀ p other, (joinMember groupId g id).IsMember p other ↔
        g.IsMember p other ∧ ¬ (other ≠ groupId ∧ g.memberGroup[id]? = some other ∧ p = id) := by
  unfold joinMember
  cases hold : g.memberGroup[id]? with
  | none => exact ⟨rfl, fun p other => by simp [IsMember]⟩
  | some old =>
    dsimp only
    by_cases hne : old ≠ groupId
    · rw [if_pos hne]
      have hframe := fun t : MixGraph D => t.rebuildGroupRoutes_frame old
      refine ⟨(hframe _).2, fun p other => ?_⟩
      rw [isMember_congr (hframe _).1, dropMember_isMember]
      constructor
      · intro h
        refine ⟨h.1, fun hdrop => h.2 ⟨?_, hdrop.2.2⟩⟩
        exact (Option.some.inj hdrop.2.1).symm
      · intro h
        refine ⟨h.1, fun hdrop => h.2 ⟨?_, ?_, hdrop.2⟩⟩ <;> rw [hdrop.1]
        exact hne
    · rw [if_neg hne]
      simp only [Decidable.not_not] at hne
      refine ⟨rfl, fun p other => ?_⟩
      have hstays : ¬ (other ≠ groupId ∧ some old = some other ∧ p = id) := by
        intro h
        exact h.1 (hne ▸ (Option.some.inj h.2.1).symm)
      exact ⟨fun h => ⟨h, hstays⟩, fun h => h.1⟩

theorem joinMember_routesMatch (h : g.RoutesMatch []) (groupId : GroupId) (id : ParticipantId) :
    (joinMember groupId g id).RoutesMatch [] := by
  unfold joinMember
  cases hold : g.memberGroup[id]? with
  | none =>
    refine h.reassign id rfl ?_ ?_ ?_
    · intro p hp
      exact ⟨by rw [OrdMap.lookup_insert, if_neg hp], rfl⟩
    · intro other hmem
      have := h.entry id other hmem
      rw [hold] at this
      simp at this
    · simp
  | some old =>
    have hown : ∀ other, g.IsMember id other → other = old := by
      intro other hmem
      have := h.entry id other hmem
      rw [hold] at this
      exact (Option.some.inj this).symm
    dsimp only
    by_cases hne : old ≠ groupId
    · rw [if_pos hne]
      have hdrop := (h.mono (List.nil_subset [old])).dropMember (List.mem_singleton_self old) id
      refine RoutesMatch.rebuild (hdrop.reassign id rfl ?_ ?_ ?_)
      · intro p hp
        refine ⟨?_, rfl⟩
        rw [MixGraph.dropMember, OrdMap.lookup_insert, if_neg hp]
        rfl
      · intro other hmem
        obtain ⟨hlisted, hnot⟩ := (g.dropMember_isMember old id id other).mp hmem
        exact absurd ⟨hown other hlisted, rfl⟩ hnot
      · simp [MixGraph.dropMember]
    · rw [if_neg hne]
      refine h.reassign id rfl ?_ ?_ ?_
      · intro p hp
        exact ⟨by rw [OrdMap.lookup_insert, if_neg hp], rfl⟩
      · intro other hmem
        rw [hown other hmem]
        simp only [Decidable.not_not] at hne
        simp [hne]
      · simp

theorem foldl_joinMember_routesMatch (h : g.RoutesMatch []) (groupId : GroupId)
    (members : List ParticipantId) : (members.foldl (joinMember groupId) g).RoutesMatch [] := by
  induction members generalizing g with
  | nil => exact h
  | cons id members ih => exact ih (joinMember_routesMatch h groupId id)

theorem foldl_joinMember_memberGroup (groupId : GroupId) (members : List ParticipantId)
    (g : MixGraph D) (p : ParticipantId) :
    (members.foldl (joinMember groupId) g).memberGroup[p]? =
      if p ∈ members then some groupId else g.memberGroup[p]? :=
  OrdMap.getElem?_foldl_write (v := MixGraph.memberGroup) (f := fun _ => some groupId)
    (fun s k a => by
      rw [(joinMember_frame groupId s k).1]
      exact OrdMap.lookup_insert _ _ _ _) members g p

theorem foldl_joinMember_isMember (groupId : GroupId) (members : List ParticipantId)
    (g : MixGraph D) {p : ParticipantId} (hp : p ∉ members) (other : GroupId) :
    (members.foldl (joinMember groupId) g).IsMember p other ↔ g.IsMember p other := by
  induction members generalizing g with
  | nil => exact Iff.rfl
  | cons id members ih =>
    rw [List.mem_cons, not_or] at hp
    rw [List.foldl_cons, ih _ hp.2, (joinMember_frame groupId g id).2]
    simp [hp.1]

theorem setGroupMembers_routesMatch (h : g.RoutesMatch []) (groupId : GroupId)
    (members : List ParticipantId) : (g.setGroupMembers groupId members).RoutesMatch [] := by
  have hloop := foldl_joinMember_routesMatch h groupId members
  have hentries : ∀ p ∈ members,
      (members.foldl (joinMember groupId) g).memberGroup[p]? = some groupId := by
    intro p hp
    rw [foldl_joinMember_memberGroup, if_pos hp]
  exact ((hloop.mono (List.nil_subset [groupId])).replace (List.mem_singleton_self groupId)
    hentries).rebuild

theorem setGroupMembers_memberGroup (g : MixGraph D) (groupId : GroupId)
    (members : List ParticipantId) (p : ParticipantId) :
    (g.setGroupMembers groupId members).memberGroup[p]? =
      if p ∈ members then some groupId else g.memberGroup[p]? := by
  unfold setGroupMembers
  rw [(rebuildGroupRoutes_frame _ groupId).2]
  exact foldl_joinMember_memberGroup groupId members g p

/-- Who is a member after `setGroupMembers`: of the group, the given participants; of
another group, of the participants not given those who were. -/
theorem setGroupMembers_isMember (g : MixGraph D) (groupId : GroupId)
    (members : List ParticipantId) (p : ParticipantId) :
    ((g.setGroupMembers groupId members).IsMember p groupId ↔ p ∈ members) ∧
      ∀ other, other ≠ groupId → p ∉ members →
        ((g.setGroupMembers groupId members).IsMember p other ↔ g.IsMember p other) := by
  unfold setGroupMembers
  refine ⟨?_, fun other hne hp => ?_⟩
  · rw [isMember_congr (rebuildGroupRoutes_frame _ groupId).1]
    unfold IsMember
    rw [OrdMap.lookup_insert, if_pos rfl]
    simp only [Option.some.injEq, exists_eq_left', OrdMap.mem_ofList]
  · rw [isMember_congr (rebuildGroupRoutes_frame _ groupId).1,
      ← foldl_joinMember_isMember groupId members g hp other]
    unfold IsMember
    rw [OrdMap.lookup_insert, if_neg hne]

theorem moveToGroup_routesMatch (h : g.RoutesMatch []) (id : ParticipantId) (groupId : GroupId) :
    (g.moveToGroup id groupId).RoutesMatch [] := by
  unfold moveToGroup
  cases hold : g.memberGroup[id]? with
  | none =>
    have hentry : RoutesMatch [groupId]
        { g with memberGroup := (g.memberGroup.erase id).insert id groupId } := by
      refine (h.mono (List.nil_subset [groupId])).reassign id rfl ?_ ?_ ?_
      · intro p hp
        exact ⟨by rw [OrdMap.lookup_insert, if_neg hp, OrdMap.lookup_erase, if_neg hp], rfl⟩
      · intro other hmem
        have := h.entry id other hmem
        rw [hold] at this
        simp at this
      · simp
    exact (hentry.enterGroup (List.mem_singleton_self groupId) (by simp)).rebuild
  | some old =>
    dsimp only
    have hown : ∀ other, g.IsMember id other → other = old := by
      intro other hmem
      have := h.entry id other hmem
      rw [hold] at this
      exact (Option.some.inj this).symm
    have hentry : RoutesMatch [old, groupId]
        { g.dropMember old id with
          memberGroup := (g.memberGroup.erase id).insert id groupId } := by
      have hdrop := (h.mono (List.nil_subset [old, groupId])).dropMember (List.mem_cons_self) id
      refine hdrop.reassign id rfl ?_ ?_ ?_
      · intro p hp
        refine ⟨?_, rfl⟩
        rw [OrdMap.lookup_insert, if_neg hp, OrdMap.lookup_erase, if_neg hp]
        rfl
      · intro other hmem
        obtain ⟨hlisted, hnot⟩ := (g.dropMember_isMember old id id other).mp hmem
        exact absurd ⟨hown other hlisted, rfl⟩ hnot
      · simp
    have henter := @RoutesMatch.enterGroup D _ _ hentry groupId
      (List.mem_cons_of_mem old (List.mem_singleton_self groupId)) id (by simp)
    by_cases hne : old ≠ groupId
    · rw [if_pos hne]
      exact henter.rebuild.rebuild
    · rw [if_neg hne]
      simp only [Decidable.not_not] at hne
      subst hne
      exact (henter.mono (by simp)).rebuild

theorem moveToGroup_memberGroup (g : MixGraph D) (id : ParticipantId) (groupId : GroupId) :
    (g.moveToGroup id groupId).memberGroup = (g.memberGroup.erase id).insert id groupId := by
  unfold moveToGroup
  rw [(rebuildGroupRoutes_frame _ groupId).2]
  cases g.memberGroup[id]? with
  | none => rfl
  | some old =>
    dsimp only
    split
    · rw [(rebuildGroupRoutes_frame _ old).2]
      rfl
    · rfl

theorem moveToGroup_isMember (g : MixGraph D) (id : ParticipantId) (groupId : GroupId)
    (p : ParticipantId) (other : GroupId) :
    (g.moveToGroup id groupId).IsMember p other ↔
      (other = groupId ∧ p = id) ∨
        g.IsMember p other ∧ ¬ (g.memberGroup[id]? = some other ∧ p = id) := by
  unfold moveToGroup
  rw [isMember_congr (rebuildGroupRoutes_frame _ groupId).1]
  cases g.memberGroup[id]? with
  | none =>
    have henter := enterGroup_isMember g groupId id p other
    exact henter.trans (by simp)
  | some old =>
    have hdrop := dropMember_isMember g old id p other
    have henter := enterGroup_isMember (g.dropMember old id) groupId id p other
    rw [hdrop, eq_comm (a := other) (b := old), ← Option.some.injEq old other] at henter
    dsimp only
    split
    · rw [isMember_congr (rebuildGroupRoutes_frame _ old).1]
      exact henter
    · exact henter

theorem RoutesMatch.withdraw {id : ParticipantId} (h : g.RoutesMatch [groupId])
    (hold : g.memberGroup[id]? = some groupId)
    (hgroups : t.groups = (g.dropMember groupId id).groups)
    (hentries : t.memberGroup = g.memberGroup.erase id)
    (hroutes : ∀ p, t.listenerRoutes[p]? = if p = id then none else g.listenerRoutes[p]?) :
    t.RoutesMatch [groupId] := by
  refine (h.dropMember (List.mem_singleton_self groupId) id).reassign id hgroups ?_ ?_ ?_
  · intro p hp
    rw [hentries, OrdMap.lookup_erase, hroutes, if_neg hp, if_neg hp]
    exact ⟨rfl, rfl⟩
  · intro other hmem
    obtain ⟨hlisted, hnot⟩ := (g.dropMember_isMember groupId id id other).mp hmem
    have hown := h.entry id other hlisted
    rw [hold, Option.some.injEq] at hown
    exact absurd ⟨hown.symm, rfl⟩ hnot
  · intro _
    rw [hroutes, if_pos rfl]

theorem removeFromGroup_routesMatch (h : g.RoutesMatch []) (id : ParticipantId) :
    (g.removeFromGroup id).RoutesMatch [] := by
  unfold removeFromGroup
  cases hold : g.memberGroup[id]? with
  | none => exact h
  | some groupId =>
    refine RoutesMatch.rebuild
      ((h.mono (List.nil_subset [groupId])).withdraw hold rfl rfl fun p => ?_)
    exact OrdMap.lookup_erase _ _ _

theorem removeFromGroup_frame (g : MixGraph D) (id : ParticipantId) :
    (∀ p : ParticipantId, (g.removeFromGroup id).memberGroup[p]? =
      if p = id then none else g.memberGroup[p]?) ∧
      ∀ p other, (g.removeFromGroup id).IsMember p other ↔
        g.IsMember p other ∧ ¬ (g.memberGroup[id]? = some other ∧ p = id) := by
  unfold removeFromGroup
  cases hold : g.memberGroup[id]? with
  | none =>
    refine ⟨fun p => ?_, fun p other => by simp⟩
    by_cases hp : p = id
    · rw [if_pos hp, hp, hold]
    · rw [if_neg hp]
  | some groupId =>
    have hframe := fun t : MixGraph D => t.rebuildGroupRoutes_frame groupId
    refine ⟨fun p => ?_, fun p other => ?_⟩ <;> dsimp only
    · rw [(hframe _).2]
      exact OrdMap.lookup_erase _ _ _
    · rw [isMember_congr (hframe _).1, Option.some.injEq, eq_comm (a := groupId)]
      exact dropMember_isMember g groupId id p other

theorem pruneRoute_self (id : ParticipantId) (g : MixGraph D) :
    (g.listenerRoutes.filterMap (pruneRoute id))[id]? = none := by
  rw [ExtTreeMap.getElem?_filterMap']
  cases g.listenerRoutes[id]? with
  | none => rfl
  | some sources => simp [pruneRoute]

theorem removeInput_routesMatch (h : g.RoutesMatch []) (id : ParticipantId) :
    (g.removeInput id).RoutesMatch [] := by
  unfold removeInput
  cases hold : g.memberGroup[id]? with
  | none =>
    have hfree : ∀ groupId, ¬ g.IsMember id groupId := by
      intro groupId hmem
      have := h.entry id groupId hmem
      rw [hold] at this
      simp at this
    refine (h.prune fun groupId hmem => absurd hmem (hfree groupId)).reassign id rfl ?_ ?_ ?_
    · intro p hp
      exact ⟨by rw [OrdMap.lookup_erase, if_neg hp], rfl⟩
    · intro groupId hmem
      exact absurd hmem (hfree groupId)
    · intro _
      exact pruneRoute_self id g
  | some groupId =>
    have hpruned := (h.mono (List.nil_subset [groupId])).prune fun other (hmem : g.IsMember id other) => by
      have hown := h.entry id other hmem
      rw [hold, Option.some.injEq] at hown
      rw [hown]
      exact List.mem_singleton_self other
    refine RoutesMatch.rebuild (hpruned.withdraw hold rfl rfl fun p => ?_)
    by_cases hp : p = id
    · rw [if_pos hp, hp]
      exact pruneRoute_self id g
    · rw [if_neg hp]
      rfl

theorem removeInput_frame (g : MixGraph D) (id : ParticipantId) :
    (∀ p : ParticipantId, (g.removeInput id).memberGroup[p]? =
      if p = id then none else g.memberGroup[p]?) ∧
      ∀ p other, (g.removeInput id).IsMember p other ↔
        g.IsMember p other ∧ ¬ (g.memberGroup[id]? = some other ∧ p = id) := by
  unfold removeInput
  cases hold : g.memberGroup[id]? with
  | none =>
    refine ⟨fun p => OrdMap.lookup_erase _ _ _, fun p other => ?_⟩
    have hstays : g.IsMember p other ↔
        g.IsMember p other ∧ ¬ ((none : Option GroupId) = some other ∧ p = id) := by simp
    exact hstays
  | some groupId =>
    have hframe := fun t : MixGraph D => t.rebuildGroupRoutes_frame groupId
    refine ⟨fun p => ?_, fun p other => ?_⟩ <;> dsimp only
    · rw [(hframe _).2]
      exact OrdMap.lookup_erase _ _ _
    · rw [isMember_congr (hframe _).1, Option.some.injEq, eq_comm (a := groupId)]
      exact dropMember_isMember g groupId id p other

end MixGraph

/-! ## Runs of membership operations -/

def MixOp.IsMembership {D : MixDsp} : MixOp D → Prop
  | .addInput _ | .removeInput _ | .setGroupMembers _ _ | .moveToGroup _ _
  | .removeFromGroup _ => True
  | _ => False

namespace MixGraph

variable {D : MixDsp}

/-- Entries and lists mirror each other, members are routed to the other members, and who
is in no group has no route. -/
structure Consistent (g : MixGraph D) : Prop where
  mirror : ∀ (p : ParticipantId) groupId, g.memberGroup[p]? = some groupId ↔ g.IsMember p groupId
  routed : ∀ (groupId : GroupId) members, g.groups[groupId]? = some members →
    ∀ p ∈ members, g.listenerRoutes[p]? = groupRoute members p
  unrouted : ∀ p : ParticipantId, (∀ groupId, ¬ g.IsMember p groupId) → g.listenerRoutes[p]? = none

def Listed (g : MixGraph D) (p : ParticipantId) : Prop :=
  ∀ groupId, g.memberGroup[p]? = some groupId → g.IsMember p groupId

/-- The operation does not replace a list with `p` by one without. -/
def KeepsMember (p : ParticipantId) (g : MixGraph D) : MixOp D → Prop
  | .setGroupMembers groupId members => g.IsMember p groupId → p ∈ members
  | _ => True

variable {g : MixGraph D}

theorem consistent_iff : g.Consistent ↔ g.RoutesMatch [] ∧ ∀ p, g.Listed p := by
  constructor
  · intro h
    refine ⟨⟨fun p groupId hp => (h.mirror p groupId).mpr hp, fun groupId members _ => h.routed
      groupId members, fun p hp => h.unrouted p fun groupId hmem => ?_⟩,
      fun p groupId hp => (h.mirror p groupId).mp hp⟩
    rw [(h.mirror p groupId).mpr hmem] at hp
    simp at hp
  · intro h
    obtain ⟨hmatch, hlisted⟩ := h
    refine ⟨fun p groupId => ⟨hlisted p groupId, hmatch.entry p groupId⟩,
      fun groupId members => hmatch.routed groupId members (List.not_mem_nil),
      fun p hp => hmatch.unrouted p ?_⟩
    cases hown : g.memberGroup[p]? with
    | none => rfl
    | some groupId => exact absurd (hlisted p groupId hown) (hp groupId)

theorem control_routesMatch (h : g.RoutesMatch []) {op : MixOp D} (hop : op.IsMembership) :
    (g.control op).RoutesMatch [] := by
  cases op with
  | addInput id => exact ⟨h.entry, h.routed, h.unrouted⟩
  | removeInput id => exact removeInput_routesMatch h id
  | setGroupMembers groupId members => exact setGroupMembers_routesMatch h groupId members
  | moveToGroup id groupId => exact moveToGroup_routesMatch h id groupId
  | removeFromGroup id => exact removeFromGroup_routesMatch h id
  | _ => exact hop.elim

/-- A participant stays listed across a membership operation exactly when no list that
names it is replaced by one that does not. -/
theorem control_listed_iff (h : g.RoutesMatch []) {p : ParticipantId} (hp : g.Listed p)
    {op : MixOp D} (hop : op.IsMembership) :
    (g.control op).Listed p ↔ g.KeepsMember p op := by
  cases op with
  | addInput id => exact ⟨fun _ => trivial, fun _ => hp⟩
  | removeInput id =>
    refine ⟨fun _ => trivial, fun _ groupId hown => ?_⟩
    obtain ⟨hentries, hlists⟩ := g.removeInput_frame id
    rw [control, hentries] at hown
    rw [control, hlists]
    split at hown
    · simp at hown
    · exact ⟨hp groupId hown, fun hid => by simp_all⟩
  | setGroupMembers groupId members =>
    have hentries := g.setGroupMembers_memberGroup groupId members p
    obtain ⟨hself, hothers⟩ := g.setGroupMembers_isMember groupId members p
    constructor
    · intro hlisted hmem
      by_cases hin : p ∈ members
      · exact hin
      · have hown := h.entry p groupId hmem
        rw [if_neg hin, hown] at hentries
        exact hself.mp (hlisted groupId hentries)
    · intro hkeeps other hown
      rw [control, hentries] at hown
      by_cases hin : p ∈ members
      · rw [if_pos hin] at hown
        cases hown
        exact hself.mpr hin
      · rw [if_neg hin] at hown
        have hmem := hp other hown
        have hne : other ≠ groupId := fun heq => hin (hkeeps (heq ▸ hmem))
        exact (hothers other hne hin).mpr hmem
  | moveToGroup id groupId =>
    refine ⟨fun _ => trivial, fun _ other hown => ?_⟩
    rw [control, moveToGroup_memberGroup, OrdMap.lookup_insert, OrdMap.lookup_erase] at hown
    rw [control, moveToGroup_isMember]
    by_cases hid : p = id
    · rw [if_pos hid, Option.some.injEq] at hown
      exact .inl ⟨hown.symm, hid⟩
    · rw [if_neg hid, if_neg hid] at hown
      exact .inr ⟨hp other hown, fun hdrop => hid hdrop.2⟩
  | removeFromGroup id =>
    refine ⟨fun _ => trivial, fun _ groupId hown => ?_⟩
    obtain ⟨hentries, hlists⟩ := g.removeFromGroup_frame id
    rw [control, hentries] at hown
    rw [control, hlists]
    split at hown
    · simp at hown
    · exact ⟨hp groupId hown, fun hid => by simp_all⟩
  | _ => exact hop.elim

theorem new_consistent : (MixGraph.new D).Consistent where
  mirror := by simp [MixGraph.new, IsMember]
  routed := by simp [MixGraph.new]
  unrouted := by simp [MixGraph.new]

/-- A membership operation on a consistent graph leaves a consistent one exactly when it
replaces no list by one that leaves out a member. -/
theorem step_consistent (h : g.Consistent) {op : MixOp D} (hop : op.IsMembership) :
    ∃ t out, g.step op = some (t, out) ∧ (t.Consistent ↔ ∀ p, g.KeepsMember p op) := by
  have hrender : ∀ listener now, op ≠ .renderOutput listener now := by
    intro listener now heq
    rw [heq] at hop
    exact hop
  obtain ⟨hmatch, hlisted⟩ := consistent_iff.mp h
  refine ⟨g.control op, [], step_control hrender, ?_⟩
  rw [consistent_iff]
  constructor
  · intro ht p
    exact (control_listed_iff hmatch (hlisted p) hop).mp (ht.2 p)
  · intro hkeeps
    exact ⟨control_routesMatch hmatch hop,
      fun p => (control_listed_iff hmatch (hlisted p) hop).mpr (hkeeps p)⟩

/-- Every graph of a run of membership operations is consistent if and only if no
`setGroupMembers` of the run leaves out a current member of its group. -/
theorem groups_consistent_iff (ops : List (MixOp D)) (hops : ∀ op ∈ ops, op.IsMembership) :
    (∀ pre g out, pre <+: ops → Machine.run step (MixGraph.new D) pre = some (g, out) →
      g.Consistent) ↔
      Machine.Along step (fun g op => ∀ p, g.KeepsMember p op) (MixGraph.new D) ops :=
  Machine.prefix_invariant_iff (J := fun _ => True) (P := Consistent) (A := MixOp.IsMembership)
    (fun g op _ hg hop => by
      obtain ⟨t, out, hstep, hiff⟩ := step_consistent hg hop
      exact ⟨t, out, hstep, trivial, hiff⟩)
    trivial new_consistent hops

/-- A group that is taken over and then grows. -/
theorem groups_consistent_iff_takeover :
    (∀ pre g out, pre <+: [.setGroupMembers "red" ["ann", "bob"],
        .setGroupMembers "blue" ["bob", "cas"], .moveToGroup "dan" "blue", .removeInput "cas"] →
      Machine.run step (MixGraph.new silentDsp) pre = some (g, out) → g.Consistent) ↔
      Machine.Along step (fun g op => ∀ p, g.KeepsMember p op) (MixGraph.new silentDsp)
        [.setGroupMembers "red" ["ann", "bob"], .setGroupMembers "blue" ["bob", "cas"],
          .moveToGroup "dan" "blue", .removeInput "cas"] :=
  groups_consistent_iff _ (by simp [MixOp.IsMembership])

/-- Shrinking a group leaves the entry of the member that was dropped. -/
theorem shrunk_group_inconsistent :
    ∃ g out, Machine.run step (MixGraph.new silentDsp)
        [.setGroupMembers "red" ["ann", "bob"], .setGroupMembers "red" ["bob"]] = some (g, out) ∧
      g.memberGroup["ann"]? = some "red" ∧ ¬ g.IsMember "ann" "red" ∧ ¬ g.Consistent := by
  have hentry : (((MixGraph.new silentDsp).setGroupMembers "red" ["ann", "bob"]).setGroupMembers
      "red" ["bob"]).memberGroup["ann"]? = some "red" := by
    rw [setGroupMembers_memberGroup, if_neg (by decide), setGroupMembers_memberGroup,
      if_pos (by decide)]
  have hlist : ¬ (((MixGraph.new silentDsp).setGroupMembers "red"
      ["ann", "bob"]).setGroupMembers "red" ["bob"]).IsMember "ann" "red" := by
    rw [(setGroupMembers_isMember _ _ _ _).1]
    decide
  exact ⟨_, [], rfl, hentry, hlist, fun h => hlist ((h.mirror "ann" "red").mp hentry)⟩

end MixGraph

end NodeWebrtc.Mixer
