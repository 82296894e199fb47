import NodeWebrtc.Mixer.Isolation

/-! # Allow-lists of listeners in no group

An allow-list set by `setListenerSources` shares one map with the routes of groups. Two
operations on other participants can delete it: a rebuild of any group's routes, which drops
every listener without a group entry, and the removal of the last source on the list. These
are the only ones.
-/

namespace NodeWebrtc.Mixer

open Std

/-- The operation sets no route of `l`, removes no input `l` and names `l` in no group
operation. -/
def MixOp.LeavesAlone {D : MixDsp} (l : ParticipantId) : MixOp D → Prop
  | .setListenerSources listener _ | .clearListenerRoutes listener => listener ≠ l
  | .removeInput id | .moveToGroup id _ | .removeFromGroup id => id ≠ l
  | .setGroupMembers _ members => l ∉ members
  | _ => True

namespace MixGraph

variable {D : MixDsp}

def Ungrouped (g : MixGraph D) (l : ParticipantId) : Prop := ∀ groupId, ¬ g.IsMember l groupId

/-- The operation rebuilds the routes of a group. -/
def RebuildsRoutes (g : MixGraph D) : MixOp D → Prop
  | .setGroupMembers _ _ | .moveToGroup _ _ => True
  | .removeFromGroup id | .removeInput id =>
    ∃ groupId, g.memberGroup[id]? = some groupId ∧ groupId ∈ g.groups
  | _ => False

/-- The operation neither rebuilds group routes while `l` has no group entry nor removes the
last source of `l`'s list. -/
def KeepsAllowList (l : ParticipantId) (g : MixGraph D) (op : MixOp D) : Prop :=
  (g.memberGroup[l]? = none → ¬ g.RebuildsRoutes op) ∧
    ∀ id, op = .removeInput id → ∀ allowed, g.listenerRoutes[l]? = some allowed →
      ∃ p ∈ allowed, p ≠ id

/-- `l` has an allow-list, and everything on it is in `sources`. -/
def AllowedWithin (l : ParticipantId) (sources : List ParticipantId) (g : MixGraph D) : Prop :=
  ∃ allowed, g.listenerRoutes[l]? = some allowed ∧ ∀ p ∈ allowed, p ∈ sources

/-- Every render of `l` is defined and mixes participants in `sources` only. -/
def ConfinedTo (g : MixGraph D) (l : ParticipantId) (sources : List ParticipantId) : Prop :=
  ∀ now, ∃ rendered t, g.render l now = some (rendered, t) ∧ ∀ p ∈ rendered.heard, p ∈ sources

/-! ## The route of a bystander -/

variable {l : ParticipantId}

variable {g : MixGraph D}

theorem rebuildGroupRoutes_dropped {groupId : GroupId} (hin : groupId ∈ g.groups)
    (hentry : g.memberGroup[l]? = none) :
    (g.rebuildGroupRoutes groupId).listenerRoutes[l]? = none := by
  obtain ⟨members, hlist⟩ := Option.isSome_iff_exists.mp (ExtTreeMap.mem_iff_isSome_getElem?.mp hin)
  rw [rebuildGroupRoutes_routes hlist, hentry]
  rfl

theorem rebuildGroupRoutes_kept {groupId : GroupId} (hfree : g.Ungrouped l)
    (hkeep : g.memberGroup[l]? = none → groupId ∉ g.groups) :
    (g.rebuildGroupRoutes groupId).listenerRoutes[l]? = g.listenerRoutes[l]? := by
  cases hlist : g.groups[groupId]? with
  | none =>
    unfold rebuildGroupRoutes
    rw [hlist]
  | some members =>
    have hin : groupId ∈ g.groups := ExtTreeMap.mem_iff_isSome_getElem?.mpr (by rw [hlist]; rfl)
    have hnot : l ∉ members := fun hmem => hfree groupId ⟨members, hlist, hmem⟩
    rw [rebuildGroupRoutes_routes hlist, if_neg hnot]
    cases hentry : g.memberGroup[l]? with
    | none => exact absurd hin (hkeep hentry)
    | some _ => rfl

theorem dropMember_ungrouped (h : g.Ungrouped l) (old : GroupId) (id : ParticipantId) :
    (g.dropMember old id).Ungrouped l := by
  intro groupId hmem
  exact h groupId ((g.dropMember_isMember old id l groupId).mp hmem).1

theorem enterGroup_ungrouped (h : g.Ungrouped l) (into : GroupId) {id : ParticipantId}
    (hne : l ≠ id) : (g.enterGroup into id).Ungrouped l := by
  intro groupId hmem
  rcases (g.enterGroup_isMember into id l groupId).mp hmem with hnew | hold
  · exact hne hnew.2
  · exact h groupId hold

/-- The member loop of `setGroupMembers` leaves alone the route of a participant that has
an entry and is not among the members. -/
theorem foldl_joinMember_kept (groupId : GroupId) {members : List ParticipantId}
    (hfree : g.Ungrouped l) (hl : l ∉ members) (hentry : g.memberGroup[l]? ≠ none) :
    (members.foldl (joinMember groupId) g).listenerRoutes[l]? = g.listenerRoutes[l]? := by
  induction members generalizing g with
  | nil => rfl
  | cons id members ih =>
    rw [List.mem_cons, not_or] at hl
    obtain ⟨hentries, hlists⟩ := joinMember_frame groupId g id
    have hentry' : (joinMember groupId g id).memberGroup[l]? ≠ none := by
      rw [hentries, OrdMap.lookup_insert, if_neg hl.1]
      exact hentry
    have hfree' : (joinMember groupId g id).Ungrouped l :=
      fun other hmem => hfree other ((hlists l other).mp hmem).1
    rw [List.foldl_cons, ih hfree' hl.2 hentry']
    unfold joinMember
    cases g.memberGroup[id]? with
    | none => rfl
    | some old =>
      dsimp only
      split
      · rw [rebuildGroupRoutes_kept]
        · rfl
        · exact dropMember_ungrouped (g := { g with memberGroup := _ }) hfree old id
        · intro hnone
          have hsame : (g.memberGroup.insert id groupId)[l]? = none := hnone
          rw [OrdMap.lookup_insert, if_neg hl.1] at hsame
          exact absurd hsame hentry
      · rfl

/-- The operations that write routes, groups or group entries. -/
def TouchesRouting : MixOp D → Prop
  | .setListenerSources _ _ | .clearListenerRoutes _ | .removeInput _ | .setGroupMembers _ _
  | .moveToGroup _ _ | .removeFromGroup _ => True
  | _ => False

/-- Routes, groups and group entries are the same in both graphs. -/
structure SameRouting (g t : MixGraph D) : Prop where
  routes : t.listenerRoutes = g.listenerRoutes
  groups : t.groups = g.groups
  entries : t.memberGroup = g.memberGroup

theorem advanceTo_sameRouting (g : MixGraph D) (now : Instant) :
    g.SameRouting (g.advanceTo now) := by
  unfold advanceTo
  cases g.clock with
  | none => exact ⟨rfl, rfl, rfl⟩
  | some clock =>
    dsimp only
    split <;> exact ⟨rfl, rfl, rfl⟩

variable {op : MixOp D}

theorem control_sameRouting (g : MixGraph D) (hop : ¬ TouchesRouting op) :
    g.SameRouting (g.control op) := by
  cases op with
  | setGlobalMute target muted =>
    unfold control setGlobalMute
    dsimp only
    split <;> exact ⟨rfl, rfl, rfl⟩
  | setListenerMute listener target muted =>
    unfold control setListenerMute
    dsimp only
    split <;> exact ⟨rfl, rfl, rfl⟩
  | advanceTo now => exact g.advanceTo_sameRouting now
  | setListenerSources _ _ | clearListenerRoutes _ | removeInput _ | setGroupMembers _ _
  | moveToGroup _ _ | removeFromGroup _ => exact absurd trivial hop
  | _ => exact ⟨rfl, rfl, rfl⟩

theorem render_sameRouting {t : MixGraph D} {listener : ParticipantId} {now : Instant}
    {rendered : Rendered} (h : g.render listener now = some (rendered, t)) : g.SameRouting t := by
  have hadvance := g.advanceTo_sameRouting now
  simp only [render, nextListenerStep, Option.map_map, Option.map_eq_some_iff] at h
  obtain ⟨⟨step, after⟩, hstep, heq⟩ := h
  dsimp only [Function.comp] at heq
  split at heq <;> rw [← (Prod.mk.inj heq).2]
  · exact ⟨hadvance.routes, hadvance.groups, hadvance.entries⟩
  · unfold countHeard
    dsimp only
    split <;> exact ⟨hadvance.routes, hadvance.groups, hadvance.entries⟩

theorem SameRouting.ungrouped {t : MixGraph D} (h : g.SameRouting t) (hfree : g.Ungrouped l) :
    t.Ungrouped l :=
  fun groupId hmem => hfree groupId ((isMember_congr h.groups l groupId).mp hmem)

theorem control_ungrouped (h : g.Ungrouped l) (hop : op.LeavesAlone l) :
    (g.control op).Ungrouped l := by
  by_cases htouch : TouchesRouting op
  · cases op with
    | setListenerSources listener sources =>
      intro groupId hmem
      refine h groupId ((isMember_congr ?_ l groupId).mp hmem)
      unfold control setListenerSources
      dsimp only
      split <;> rfl
    | clearListenerRoutes listener => exact h
    | removeInput id =>
      exact fun other hmem => h other (((g.removeInput_frame id).2 l other).mp hmem).1
    | removeFromGroup id =>
      exact fun other hmem => h other (((g.removeFromGroup_frame id).2 l other).mp hmem).1
    | setGroupMembers groupId members =>
      intro other hmem
      obtain ⟨hself, hothers⟩ := g.setGroupMembers_isMember groupId members l
      by_cases hne : other = groupId
      · subst hne
        exact hop (hself.mp hmem)
      · exact h other ((hothers other hne hop).mp hmem)
    | moveToGroup id groupId =>
      intro other hmem
      rcases (g.moveToGroup_isMember id groupId l other).mp hmem with hnew | hold
      · exact hop hnew.2.symm
      · exact h other hold.1
    | _ => exact htouch.elim
  · exact (g.control_sameRouting htouch).ungrouped h

/-- `l`'s allow-list after a step that does not drop it. -/
def prunedFor (l : ParticipantId) (route : Option (ExtTreeSet ParticipantId)) :
    MixOp D → Option (ExtTreeSet ParticipantId)
  | .removeInput id => route.bind (pruneRoute id l)
  | _ => route

theorem control_route_dropped (hentry : g.memberGroup[l]? = none) (hop : op.LeavesAlone l)
    (hrebuilds : g.RebuildsRoutes op) :
    (g.control op).listenerRoutes[l]? = none := by
  cases op with
  | setGroupMembers groupId members =>
    refine rebuildGroupRoutes_dropped (by simp) ?_
    rw [foldl_joinMember_memberGroup, if_neg hop]
    exact hentry
  | moveToGroup id groupId =>
    have hne : l ≠ id := Ne.symm hop
    unfold control moveToGroup
    refine rebuildGroupRoutes_dropped ?_ ?_
    · have henter : ∀ t : MixGraph D, groupId ∈ (t.enterGroup groupId id).groups := by
        intro t
        simp [enterGroup]
      cases g.memberGroup[id]? with
      | none => exact henter _
      | some old =>
        dsimp only
        split
        · rw [(rebuildGroupRoutes_frame _ old).1]
          exact henter _
        · exact henter _
    · have hsame : ((g.memberGroup.erase id).insert id groupId)[l]? = none := by
        rw [OrdMap.lookup_insert, if_neg hne, OrdMap.lookup_erase, if_neg hne]
        exact hentry
      cases g.memberGroup[id]? with
      | none => exact hsame
      | some old =>
        dsimp only
        split
        · rw [(rebuildGroupRoutes_frame _ old).2]
          exact hsame
        · exact hsame
  | removeFromGroup id =>
    have hne : l ≠ id := Ne.symm hop
    obtain ⟨groupId, hold, hin⟩ := hrebuilds
    unfold control removeFromGroup
    dsimp only
    rw [hold]
    refine rebuildGroupRoutes_dropped (ExtTreeMap.mem_modify.mpr hin) ?_
    exact (OrdMap.lookup_erase _ _ _).trans ((if_neg hne).trans hentry)
  | removeInput id =>
    have hne : l ≠ id := Ne.symm hop
    obtain ⟨groupId, hold, hin⟩ := hrebuilds
    unfold control removeInput
    dsimp only
    rw [hold]
    refine rebuildGroupRoutes_dropped (ExtTreeMap.mem_modify.mpr hin) ?_
    exact (OrdMap.lookup_erase _ _ _).trans ((if_neg hne).trans hentry)
  | _ => exact hrebuilds.elim

theorem control_route_kept (hfree : g.Ungrouped l) (hop : op.LeavesAlone l)
    (hkeep : g.memberGroup[l]? = none → ¬ g.RebuildsRoutes op) :
    (g.control op).listenerRoutes[l]? = prunedFor l g.listenerRoutes[l]? op := by
  by_cases htouch : TouchesRouting op
  · cases op with
    | setListenerSources listener sources =>
      have hne : l ≠ listener := Ne.symm hop
      unfold control setListenerSources
      dsimp only
      split
      · exact (OrdMap.lookup_erase _ _ _).trans (if_neg hne)
      · exact (OrdMap.lookup_insert _ _ _ _).trans (if_neg hne)
    | clearListenerRoutes listener => exact (OrdMap.lookup_erase _ _ _).trans (if_neg (Ne.symm hop))
    | setGroupMembers groupId members =>
      have hentry : g.memberGroup[l]? ≠ none := fun hnone => hkeep hnone trivial
      have hfree' : (g.control (.setGroupMembers groupId members)).Ungrouped l :=
        control_ungrouped hfree hop
      have hloop := foldl_joinMember_kept groupId hfree hop hentry
      refine Eq.trans (rebuildGroupRoutes_kept ?_ ?_) hloop
      · intro other hmem
        refine hfree' other ((isMember_congr ?_ l other).mp hmem)
        exact (rebuildGroupRoutes_frame _ groupId).1.symm
      · intro hnone
        rw [foldl_joinMember_memberGroup, if_neg hop] at hnone
        exact absurd hnone hentry
    | moveToGroup id groupId =>
      have hne : l ≠ id := Ne.symm hop
      have hentry : ((g.memberGroup.erase id).insert id groupId)[l]? ≠ none := by
        rw [OrdMap.lookup_insert, if_neg hne, OrdMap.lookup_erase, if_neg hne]
        exact fun hnone => hkeep hnone trivial
      unfold control moveToGroup
      dsimp only
      cases hold : g.memberGroup[id]? with
      | none =>
        refine rebuildGroupRoutes_kept ?_ fun hnone => absurd hnone hentry
        exact enterGroup_ungrouped (g := g) hfree groupId hne
      | some old =>
        have henter := enterGroup_ungrouped (dropMember_ungrouped hfree old id) groupId hne
        dsimp only
        split
        · refine (rebuildGroupRoutes_kept ?_ ?_).trans
            (rebuildGroupRoutes_kept henter fun hnone => absurd hnone hentry)
          · intro other hmem
            refine henter other ((isMember_congr ?_ l other).mp hmem)
            exact (rebuildGroupRoutes_frame _ old).1
          · intro hnone
            rw [(rebuildGroupRoutes_frame _ old).2] at hnone
            exact absurd hnone hentry
        · exact rebuildGroupRoutes_kept henter fun hnone => absurd hnone hentry
    | removeFromGroup id =>
      have hne : l ≠ id := Ne.symm hop
      unfold control removeFromGroup
      dsimp only
      cases hold : g.memberGroup[id]? with
      | none => rfl
      | some groupId =>
        refine (rebuildGroupRoutes_kept ?_ ?_).trans
          ((OrdMap.lookup_erase _ _ _).trans (if_neg hne))
        · exact dropMember_ungrouped hfree groupId id
        · intro hnone hin
          have hsame : (g.memberGroup.erase id)[l]? = none := hnone
          rw [OrdMap.lookup_erase, if_neg hne] at hsame
          exact hkeep hsame ⟨groupId, hold, ExtTreeMap.mem_modify.mp hin⟩
    | removeInput id =>
      have hne : l ≠ id := Ne.symm hop
      have hpruned : (g.listenerRoutes.filterMap (pruneRoute id))[l]? =
          prunedFor l g.listenerRoutes[l]? (.removeInput id : MixOp D) :=
        ExtTreeMap.getElem?_filterMap'
      unfold control removeInput
      dsimp only
      cases hold : g.memberGroup[id]? with
      | none => exact hpruned
      | some groupId =>
        refine (rebuildGroupRoutes_kept ?_ ?_).trans hpruned
        · exact dropMember_ungrouped (g := g) hfree groupId id
        · intro hnone hin
          have hsame : (g.memberGroup.erase id)[l]? = none := hnone
          rw [OrdMap.lookup_erase, if_neg hne] at hsame
          exact hkeep hsame ⟨groupId, hold, ExtTreeMap.mem_modify.mp hin⟩
    | _ => exact htouch.elim
  · rw [(g.control_sameRouting htouch).routes]
    cases op with
    | removeInput id => exact absurd trivial htouch
    | _ => rfl

/-! ## One step -/

theorem pruneRoute_eq_some {id : ParticipantId} (hne : l ≠ id)
    {allowed after : ExtTreeSet ParticipantId} :
    pruneRoute id l allowed = some after ↔ after = allowed.erase id ∧ ∃ p ∈ allowed, p ≠ id := by
  have hempty : (allowed.erase id).isEmpty = true ↔ ¬ ∃ p ∈ allowed, p ≠ id := by
    rw [← ExtTreeSet.isEmpty_toList, List.isEmpty_iff, List.eq_nil_iff_forall_not_mem]
    simp only [ExtTreeSet.mem_toList, OrdMap.mem_erase]
    grind
  unfold pruneRoute
  by_cases h : (allowed.erase id).isEmpty = true
  · rw [if_pos h]
    simp only [reduceCtorEq, false_iff, not_and]
    exact fun _ => hempty.mp h
  · rw [if_neg h, if_pos hne, Option.some.injEq, eq_comm]
    rw [hempty, not_not] at h
    exact (and_iff_left h).symm

variable {sources : List ParticipantId}

/-- A control operation that leaves `l` alone keeps its allow-list within `sources` exactly
under `KeepsAllowList`. -/
theorem control_allowedWithin_iff (hfree : g.Ungrouped l) (h : g.AllowedWithin l sources)
    (hop : op.LeavesAlone l) :
    (g.control op).AllowedWithin l sources ↔ g.KeepsAllowList l op := by
  obtain ⟨allowed, hroute, hwithin⟩ := h
  by_cases hdrop : g.memberGroup[l]? = none ∧ g.RebuildsRoutes op
  · have hnone := control_route_dropped hdrop.1 hop hdrop.2
    constructor
    · intro hafter
      obtain ⟨after, hafter, -⟩ := hafter
      rw [hnone] at hafter
      simp at hafter
    · intro hkeeps
      exact absurd hdrop.2 (hkeeps.1 hdrop.1)
  · have hkeep : g.memberGroup[l]? = none → ¬ g.RebuildsRoutes op := fun hn hr => hdrop ⟨hn, hr⟩
    have hafter := control_route_kept hfree hop hkeep
    rw [hroute] at hafter
    unfold AllowedWithin KeepsAllowList
    rw [hafter, hroute]
    cases op with
    | removeInput id =>
      have hprune := fun after => @pruneRoute_eq_some l id (Ne.symm hop) allowed after
      simp only [prunedFor, Option.bind_some, hprune]
      constructor
      · intro hex
        obtain ⟨_, ⟨_, hother⟩, _⟩ := hex
        refine ⟨hkeep, fun id' hid allowed' hallowed => ?_⟩
        rw [MixOp.removeInput.injEq] at hid
        rw [Option.some.injEq] at hallowed
        rw [← hid, ← hallowed]
        exact hother
      · intro hkeeps
        exact ⟨_, ⟨rfl, hkeeps.2 id rfl allowed rfl⟩,
          fun p hp => hwithin p ((OrdMap.mem_erase allowed id p).mp hp).2⟩
    | _ => exact ⟨fun _ => ⟨hkeep, by simp⟩, fun _ => ⟨allowed, rfl, hwithin⟩⟩

/-- Every step that leaves `l` alone is defined and keeps `l` out of every group; it keeps
its allow-list exactly under `KeepsAllowList`. -/
theorem step_allowedWithin_iff (hb : g.CursorsBounded) (hfree : g.Ungrouped l)
    (h : g.AllowedWithin l sources) (hop : op.LeavesAlone l) :
    ∃ t out, g.step op = some (t, out) ∧ (t.CursorsBounded ∧ t.Ungrouped l) ∧
      (t.AllowedWithin l sources ↔ g.KeepsAllowList l op) := by
  obtain ⟨t, out, hstep, hbounded⟩ := hb.step op
  refine ⟨t, out, hstep, ?_⟩
  rcases step_cases hstep with ⟨rfl, -⟩ | ⟨listener, now, rendered, rfl, hr, -⟩
  · exact ⟨⟨hbounded, control_ungrouped hfree hop⟩, control_allowedWithin_iff hfree h hop⟩
  · have hsame := render_sameRouting hr
    refine ⟨⟨hbounded, hsame.ungrouped hfree⟩, fun _ => ⟨fun _ => id, by simp⟩, fun _ => ?_⟩
    unfold AllowedWithin at h ⊢
    rw [hsame.routes]
    exact h

/-! ## Runs -/

theorem AllowedWithin.confinedTo (h : g.AllowedWithin l sources) (hb : g.CursorsBounded) :
    g.ConfinedTo l sources := by
  obtain ⟨allowed, hroute, hwithin⟩ := h
  intro now
  obtain ⟨rendered, t, hr, -⟩ := render_spec hb l now
  refine ⟨rendered, t, hr, fun p hp => ?_⟩
  have hmixes := ((render_heard hr p).mp hp).2.2
  unfold mixes at hmixes
  rw [hroute] at hmixes
  simp only [Bool.and_eq_true, decide_eq_true_eq] at hmixes
  exact hwithin p (ExtTreeSet.contains_iff_mem.mp hmixes.1.1.2)

/-- In a reachable graph let `l` be in no group and be given the allow-list `sources`. Over
further operations that leave `l` alone the list stays, with nothing added, in every graph
reached if and only if every step meets `KeepsAllowList`; then every render of `l` in these
graphs mixes participants in `sources` only. -/
theorem allow_list_confines (l : ParticipantId) (sources : List ParticipantId)
    (hsources : sources ≠ []) (before : List (MixOp D)) (g₀ : MixGraph D) (out₀ : List Rendered)
    (hreach : Machine.run step (MixGraph.new D) before = some (g₀, out₀))
    (hfree : g₀.Ungrouped l) (ops : List (MixOp D)) (hops : ∀ op ∈ ops, op.LeavesAlone l) :
    ((∀ pre g out, pre <+: ops →
        Machine.run step (g₀.setListenerSources l sources) pre = some (g, out) →
        g.AllowedWithin l sources) ↔
      Machine.Along step (KeepsAllowList l) (g₀.setListenerSources l sources) ops) ∧
    (Machine.Along step (KeepsAllowList l) (g₀.setListenerSources l sources) ops →
      ∀ pre g out, pre <+: ops →
        Machine.run step (g₀.setListenerSources l sources) pre = some (g, out) →
        g.ConfinedTo l sources) := by
  have hstart : g₀.setListenerSources l sources =
      { g₀ with listenerRoutes := g₀.listenerRoutes.insert l (.ofList sources) } := by
    unfold setListenerSources
    rw [if_neg]
    rw [List.isEmpty_iff]
    exact hsources
  have hbounded : (g₀.setListenerSources l sources).CursorsBounded := by
    have hreached := new_cursorsBounded.run hreach
    rw [hstart]
    exact hreached
  have hungrouped : (g₀.setListenerSources l sources).Ungrouped l := by
    rw [hstart]
    exact hfree
  have hallowed : (g₀.setListenerSources l sources).AllowedWithin l sources := by
    rw [hstart]
    refine ⟨.ofList sources, ?_, fun p hp => (OrdMap.mem_ofList sources p).mp hp⟩
    exact (OrdMap.lookup_insert _ _ _ _).trans (if_pos rfl)
  have hiff := Machine.prefix_invariant_iff
    (J := fun g : MixGraph D => g.CursorsBounded ∧ g.Ungrouped l)
    (P := fun g => g.AllowedWithin l sources) (A := MixOp.LeavesAlone l)
    (C := fun g op => g.KeepsAllowList l op)
    (fun g op hj hp hop => step_allowedWithin_iff hj.1 hj.2 hp hop)
    ⟨hbounded, hungrouped⟩ hallowed hops
  refine ⟨hiff, fun hkeeps pre g out hpre hrun => ?_⟩
  exact (hiff.mpr hkeeps pre g out hpre hrun).confinedTo (hbounded.run hrun)

/-- A listener with an allow-list, while others are muted, pushed and rendered. -/
theorem allow_list_confines_quiet :
    ((∀ pre g out, pre <+: [.setGlobalMute "bob" true, .renderOutput "lea" 5, .removeInput "bob"] →
        Machine.run step ((MixGraph.new silentDsp).setListenerSources "lea" ["ann"]) pre =
          some (g, out) → g.AllowedWithin "lea" ["ann"]) ↔
      Machine.Along step (KeepsAllowList "lea")
        ((MixGraph.new silentDsp).setListenerSources "lea" ["ann"])
        [.setGlobalMute "bob" true, .renderOutput "lea" 5, .removeInput "bob"]) ∧
    (Machine.Along step (KeepsAllowList "lea")
        ((MixGraph.new silentDsp).setListenerSources "lea" ["ann"])
        [.setGlobalMute "bob" true, .renderOutput "lea" 5, .removeInput "bob"] →
      ∀ pre g out,
        pre <+: [.setGlobalMute "bob" true, .renderOutput "lea" 5, .removeInput "bob"] →
        Machine.run step ((MixGraph.new silentDsp).setListenerSources "lea" ["ann"]) pre =
          some (g, out) → g.ConfinedTo "lea" ["ann"]) :=
  allow_list_confines "lea" ["ann"] (by simp) [] (MixGraph.new silentDsp) [] rfl
    (by simp [Ungrouped, IsMember, MixGraph.new]) _ (by simp [MixOp.LeavesAlone])

/-- Two participants, and an allow-list that names one of them. -/
def allowingAnn : MixGraph silentDsp :=
  (((MixGraph.new silentDsp).addInput "ann").addInput "bob").setListenerSources "lea" ["ann"]

/-- The removal of the last allowed source, and a group that does not name the listener,
each turn the allow-list into hearing everyone. -/
theorem allow_list_lost :
    (∃ out, Machine.run step (MixGraph.new silentDsp)
        [.addInput "ann", .addInput "bob", .setListenerSources "lea" ["ann"]] =
          some (allowingAnn, out)) ∧ allowingAnn.Ungrouped "lea" ∧
    (∃ g out, Machine.run step allowingAnn [.removeInput "ann"] = some (g, out) ∧
      ¬ g.ConfinedTo "lea" ["ann"]) ∧
    ∃ g out, Machine.run step allowingAnn [.moveToGroup "ann" "red"] = some (g, out) ∧
      ¬ g.ConfinedTo "lea" ["ann"] := by
  have hfree : allowingAnn.Ungrouped "lea" := by
    intro groupId hmem
    obtain ⟨members, hlist, -⟩ := hmem
    have hnone : allowingAnn.groups[groupId]? = none := ExtTreeMap.getElem?_empty
    rw [hnone] at hlist
    simp at hlist
  refine ⟨⟨[], rfl⟩, hfree, ⟨_, [], rfl, fun h => ?_⟩, _, [], rfl, fun h => ?_⟩
  all_goals
    obtain ⟨rendered, t, hr, hheard⟩ := h 0
    have hbob : "bob" ∈ rendered.heard := (render_heard hr "bob").mpr (by decide +kernel)
    exact absurd (hheard "bob" hbob) (by decide)

end MixGraph

end NodeWebrtc.Mixer
