import NodeWebrtc.Clips.RoutesKept

/-! # The route of one listener and the active clips

A write makes the listener's list name the input of the play exactly when the listener is a
target, and leaves the other clip inputs on an explicit list alone; a list made from an implicit
route names no other clip input.
-/

namespace NodeWebrtc.Clips

open Machine Mixer Std

variable {D : MixDsp}

/-! ## The route of one listener -/

def Lists (route : Option (ExtTreeSet ParticipantId)) (id : ParticipantId) : Prop :=
  ∃ sources, route = some sources ∧ id ∈ sources

def Allows (route : Option (ExtTreeSet ParticipantId)) (id : ParticipantId) : Prop :=
  route = none ∨ Lists route id

theorem not_lists_none (id : ParticipantId) : ¬Lists none id := fun h => by
  obtain ⟨_, heq, -⟩ := h
  cases heq

theorem lists_some {sources : ExtTreeSet ParticipantId} {id : ParticipantId} :
    Lists (some sources) id ↔ id ∈ sources := by
  constructor
  · intro h
    obtain ⟨_, heq, hid⟩ := h
    cases heq
    exact hid
  · exact fun h => ⟨sources, rfl, h⟩

theorem lists_listOf {sources : ExtTreeSet ParticipantId} {id : ParticipantId} :
    Lists (listOf sources) id ↔ id ∈ sources := by
  constructor
  · intro h
    obtain ⟨a, heq, hid⟩ := h
    rw [(listOf_eq_some heq).1]
    exact hid
  · intro h
    refine ⟨sources, ?_, h⟩
    cases hlist : listOf sources with
    | none => exact absurd h (listOf_eq_none.mp hlist id)
    | some a => rw [(listOf_eq_some hlist).1]

/-- What a write gives a listener that is registered: `base` is its list, or the others. -/
def writtenRoute (registered : List ParticipantId) (mixInputId : ParticipantId)
    (targets : List ParticipantId) (l : ParticipantId)
    (route : Option (ExtTreeSet ParticipantId)) : Option (ExtTreeSet ParticipantId) :=
  let base := route.getD (.ofList (registered.filter (· ≠ l)))
  if l ∈ targets then listOf (base.insert mixInputId)
  else if targets.isEmpty then route
  else listOf (base.erase mixInputId)

variable {registered : List ParticipantId} {l : ParticipantId}

theorem applyToListener_self (mixInputId : ParticipantId) (targets : List ParticipantId)
    (g : MixGraph D) (hl : l ∈ registered) :
    (applyToListener registered mixInputId targets g l).listenerRoutes[l]? =
      writtenRoute registered mixInputId targets l g.listenerRoutes[l]? := by
  have hbase : ∀ id, id ∈ baseSources registered g l ↔
      id ∈ g.listenerRoutes[l]?.getD (.ofList (registered.filter (· ≠ l))) := fun id => by
    unfold baseSources
    cases g.listenerRoutes[l]? with
    | some sources => exact ExtTreeSet.mem_toList
    | none => exact (OrdMap.mem_ofList _ _).symm
  unfold applyToListener writtenRoute
  by_cases ht : l ∈ targets
  · rw [if_pos (List.contains_iff_mem.mpr ht), if_pos ht, setListenerSources_routes, if_pos rfl]
    apply listOf_congr
    intro id
    rw [OrdMap.mem_ofList, OrdMap.mem_insert, ← hbase id]
    by_cases hin : mixInputId ∈ baseSources registered g l
    · rw [if_pos (List.contains_iff_mem.mpr hin)]
      exact ⟨.inr, fun h => h.elim (fun heq => heq ▸ hin) fun hid => hid⟩
    · rw [if_neg fun h => hin (List.contains_iff_mem.mp h), List.mem_append, List.mem_singleton]
      exact or_comm
  · rw [if_neg fun h => ht (List.contains_iff_mem.mp h), if_neg ht]
    cases targets with
    | nil => rfl
    | cons target targets =>
      have hsubset : (!(target :: targets).isEmpty &&
          registered.any (!(target :: targets).contains ·)) = true := by
        rw [Bool.and_eq_true, List.any_eq_true]
        exact ⟨rfl, l, hl, by simpa using ht⟩
      rw [if_pos hsubset, setListenerSources_routes, if_pos rfl, if_neg (by simp)]
      apply listOf_congr
      intro id
      rw [OrdMap.mem_ofList, List.mem_filter, OrdMap.mem_erase, hbase id, decide_eq_true_eq]
      exact and_comm

theorem applyTargetPlayRoutes_routes (hnodup : registered.Nodup) (mixInputId : ParticipantId)
    (targets : List ParticipantId) (g : MixGraph D) (hl : l ∈ registered) :
    (applyTargetPlayRoutes g registered mixInputId targets).listenerRoutes[l]? =
      writtenRoute registered mixInputId targets l g.listenerRoutes[l]? := by
  suffices hloop : ∀ (ls : List ParticipantId) (t : MixGraph D), ls.Nodup →
      (ls.foldl (applyToListener registered mixInputId targets) t).listenerRoutes[l]? =
        if l ∈ ls then writtenRoute registered mixInputId targets l t.listenerRoutes[l]?
        else t.listenerRoutes[l]? from by
    have hall := hloop registered g hnodup
    rwa [if_pos hl] at hall
  intro ls
  induction ls with
  | nil => exact fun _ _ => rfl
  | cons k ls ih =>
    intro t hnodup
    obtain ⟨hfresh, hrest⟩ := List.nodup_cons.mp hnodup
    rw [List.foldl_cons, ih _ hrest]
    by_cases heq : l = k
    · subst heq
      rw [if_neg hfresh, if_pos List.mem_cons_self, applyToListener_self _ _ _ hl]
    · rw [applyToListener_other _ _ _ _ heq]
      by_cases hmem : l ∈ ls
      · rw [if_pos hmem, if_pos (List.mem_cons_of_mem _ hmem)]
      · rw [if_neg hmem, if_neg fun h => (List.mem_cons.mp h).elim heq hmem]

/-! ## One write -/

section Write

variable {registered targets : List ParticipantId} {mixInputId l : ParticipantId}
  {route : Option (ExtTreeSet ParticipantId)}

/-- After a write the play's input is listed for a target only; the other clip inputs are listed
as before. -/
theorem lists_writtenRoute (hpeers : ∀ p ∈ registered, isClipInput p = false)
    (htargets : targets ≠ []) {id : ParticipantId} (hclip : isClipInput id = true)
    (mixInputId l : ParticipantId) (route : Option (ExtTreeSet ParticipantId)) :
    Lists (writtenRoute registered mixInputId targets l route) id ↔
      if id = mixInputId then l ∈ targets else Lists route id := by
  have hbase : id ∈ route.getD (.ofList (registered.filter (· ≠ l))) ↔ Lists route id := by
    cases route with
    | some sources => exact lists_some.symm
    | none =>
      refine ⟨fun hid => ?_, fun h => absurd h (not_lists_none id)⟩
      have hpeer := hpeers id (List.mem_of_mem_filter ((OrdMap.mem_ofList _ _).mp hid))
      rw [hclip] at hpeer
      cases hpeer
  unfold writtenRoute
  by_cases ht : l ∈ targets
  · rw [if_pos ht, lists_listOf, OrdMap.mem_insert, hbase]
    split
    · next heq => exact ⟨fun _ => ht, fun _ => .inl heq⟩
    · next hne => exact ⟨fun h => h.resolve_left hne, .inr⟩
  · rw [if_neg ht, if_neg (by simpa using htargets), lists_listOf, OrdMap.mem_erase, hbase]
    split
    · next heq => exact ⟨fun h => absurd heq h.1, fun h => absurd h ht⟩
    · next hne => exact ⟨fun h => h.2, fun h => ⟨hne, h⟩⟩

theorem writtenRoute_ne_none (hstays : l ∈ targets ∨ (∃ id, id ≠ mixInputId ∧ Lists route id) ∨
      (route = none ∧ targets ≠ [] ∧ ∃ p ∈ registered, p ≠ l ∧ p ≠ mixInputId)) :
    writtenRoute registered mixInputId targets l route ≠ none := by
  unfold writtenRoute
  intro hnone
  by_cases ht : l ∈ targets
  · rw [if_pos ht, listOf_eq_none] at hnone
    exact hnone mixInputId ((OrdMap.mem_insert _ _ _).mpr (.inl rfl))
  · rw [if_neg ht] at hnone
    rcases hstays.resolve_left ht with hlisted | halone
    · obtain ⟨id, hne, sources, rfl, hid⟩ := hlisted
      split_ifs at hnone
      rw [listOf_eq_none] at hnone
      exact hnone id ((OrdMap.mem_erase _ _ _).mpr ⟨hne, hid⟩)
    · obtain ⟨rfl, htargets, p, hp, hpl, hpmix⟩ := halone
      rw [if_neg (by simpa using htargets), listOf_eq_none] at hnone
      refine hnone p ((OrdMap.mem_erase _ _ _).mpr ⟨hpmix, (OrdMap.mem_ofList _ _).mpr ?_⟩)
      exact List.mem_filter.mpr ⟨hp, decide_eq_true hpl⟩

theorem lists_writtenRoute_of_lists {id : ParticipantId} (h : Lists route id)
    (hid : id ≠ mixInputId ∨ l ∈ targets) :
    Lists (writtenRoute registered mixInputId targets l route) id := by
  obtain ⟨sources, rfl, hmem⟩ := h
  unfold writtenRoute
  dsimp only [Option.getD_some]
  by_cases ht : l ∈ targets
  · rw [if_pos ht, lists_listOf]
    exact (OrdMap.mem_insert _ _ _).mpr (.inr hmem)
  · rw [if_neg ht]
    split
    · exact lists_some.mpr hmem
    · rw [lists_listOf]
      exact (OrdMap.mem_erase _ _ _).mpr ⟨hid.resolve_right ht, hmem⟩

end Write

/-! ## Active plays and a route that fits them -/

/-- The route lets through exactly the active clips that target `l`. -/
def FitRoute (plays : List ActivePlay) (l : ParticipantId)
    (route : Option (ExtTreeSet ParticipantId)) : Prop :=
  ∀ play ∈ plays,
    (play.usesMixGraph = true ∧ Allows route play.mixInputId) ↔ l ∈ play.targetPeerIds

def reappliedRoute (registered : List ParticipantId) (l : ParticipantId)
    (route : Option (ExtTreeSet ParticipantId)) (play : ActivePlay) :
    Option (ExtTreeSet ParticipantId) :=
  if play.usesMixGraph then writtenRoute registered play.mixInputId play.targetPeerIds l route
  else route

theorem reapplyPlayRoutes_routes (hnodup : registered.Nodup) (hl : l ∈ registered) (g : MixGraph D)
    (play : ActivePlay) :
    (reapplyPlayRoutes registered g play).listenerRoutes[l]? =
      reappliedRoute registered l g.listenerRoutes[l]? play := by
  unfold reapplyPlayRoutes reappliedRoute
  split
  · exact applyTargetPlayRoutes_routes hnodup _ _ g hl
  · rfl

theorem foldl_reapplyPlayRoutes_routes (hnodup : registered.Nodup) (hl : l ∈ registered)
    (plays : List ActivePlay) (g : MixGraph D) :
    (plays.foldl (reapplyPlayRoutes registered) g).listenerRoutes[l]? =
      plays.foldl (reappliedRoute registered l) g.listenerRoutes[l]? := by
  induction plays generalizing g with
  | nil => rfl
  | cons play plays ih =>
    rw [List.foldl_cons, List.foldl_cons, ih, reapplyPlayRoutes_routes hnodup hl]

theorem mixInputId_injective {play other : ActivePlay} (h : play.mixInputId = other.mixInputId) :
    play.playId = other.playId :=
  clipPlayInputId_injective h

/-- The plays that write have targets, and peers are not clips. -/
structure Writers (registered : List ParticipantId) (plays : List ActivePlay) : Prop where
  peers : ∀ p ∈ registered, isClipInput p = false
  targeted : ∀ play ∈ plays, play.usesMixGraph = true → play.targetPeerIds ≠ []
  unique : (plays.map (·.playId)).Nodup

section Loop

variable {registered : List ParticipantId} {plays : List ActivePlay} {l : ParticipantId}

variable {play : ActivePlay}

theorem Writers.tail (h : Writers registered (play :: plays)) :
    Writers registered plays ∧ ∀ other ∈ plays, other.mixInputId ≠ play.mixInputId := by
  have hunique := h.unique
  rw [List.map_cons, List.nodup_cons] at hunique
  refine ⟨⟨h.peers, fun other hother => h.targeted other (List.mem_cons_of_mem _ hother),
    hunique.2⟩, fun other hother heq => hunique.1 ?_⟩
  rw [← mixInputId_injective heq]
  exact List.mem_map_of_mem hother

variable {id : ParticipantId}

theorem lists_foldl_of_ne (h : Writers registered plays) (hclip : isClipInput id = true)
    (hne : ∀ play ∈ plays, play.mixInputId ≠ id) (route : Option (ExtTreeSet ParticipantId)) :
    Lists (plays.foldl (reappliedRoute registered l) route) id ↔ Lists route id := by
  induction plays generalizing route with
  | nil => exact Iff.rfl
  | cons play plays ih =>
    rw [List.foldl_cons, ih h.tail.1 fun other hother => hne other (List.mem_cons_of_mem _ hother)]
    unfold reappliedRoute
    split
    · next huses =>
      rw [lists_writtenRoute h.peers (h.targeted play List.mem_cons_self huses) hclip,
        if_neg fun heq => hne play List.mem_cons_self heq.symm]
    · exact Iff.rfl

theorem lists_foldl (h : Writers registered plays) (hplay : play ∈ plays)
    (huses : play.usesMixGraph = true) (route : Option (ExtTreeSet ParticipantId)) :
    Lists (plays.foldl (reappliedRoute registered l) route) play.mixInputId ↔
      l ∈ play.targetPeerIds := by
  induction plays generalizing route with
  | nil => cases hplay
  | cons first plays ih =>
    obtain ⟨hrest, hdistinct⟩ := h.tail
    rw [List.foldl_cons]
    rcases List.mem_cons.mp hplay with rfl | hmem
    · rw [lists_foldl_of_ne hrest (isClipInput_mixInputId _) hdistinct]
      unfold reappliedRoute
      rw [if_pos huses, lists_writtenRoute h.peers (h.targeted play List.mem_cons_self huses)
        (isClipInput_mixInputId _), if_pos rfl]
    · exact ih hrest hmem _

variable {route : Option (ExtTreeSet ParticipantId)}

theorem foldl_ne_none_of_anchor (id : ParticipantId) (hlists : Lists route id)
    (hanchor : ∀ play ∈ plays, play.usesMixGraph = true → play.mixInputId = id →
      l ∈ play.targetPeerIds) :
    plays.foldl (reappliedRoute registered l) route ≠ none := by
  induction plays generalizing route with
  | nil =>
    obtain ⟨sources, rfl, -⟩ := hlists
    exact Option.some_ne_none sources
  | cons play plays ih =>
    rw [List.foldl_cons]
    refine ih ?_ fun other hother => hanchor other (List.mem_cons_of_mem _ hother)
    unfold reappliedRoute
    split
    · next huses =>
      refine lists_writtenRoute_of_lists hlists ?_
      by_cases heq : id = play.mixInputId
      · exact .inr (hanchor play List.mem_cons_self huses heq.symm)
      · exact .inl heq
    · exact hlists

/-- An implicit route becomes explicit with the first play that targets `l`, or with any play when
`l` is not alone. -/
theorem foldl_none_ne_none (h : Writers registered plays) (hplay : play ∈ plays)
    (huses : play.usesMixGraph = true) (hstays : l ∈ play.targetPeerIds ∨ ∃ p ∈ registered, p ≠ l) :
    plays.foldl (reappliedRoute registered l) none ≠ none := by
  induction plays with
  | nil => cases hplay
  | cons first plays ih =>
    obtain ⟨hrest, hdistinct⟩ := h.tail
    rw [List.foldl_cons]
    by_cases hfirst : first.usesMixGraph = true
    · have htargets := h.targeted first List.mem_cons_self hfirst
      unfold reappliedRoute
      rw [if_pos hfirst]
      by_cases ht : l ∈ first.targetPeerIds
      · refine foldl_ne_none_of_anchor first.mixInputId
          ((lists_writtenRoute h.peers htargets (isClipInput_mixInputId _) _ _ _).mpr
            (by rw [if_pos rfl]; exact ht)) fun other hother _ heq => ?_
        exact absurd heq (hdistinct other hother)
      · by_cases halone : ∃ p ∈ registered, p ≠ l
        · obtain ⟨p, hp, hpl⟩ := halone
          have hpeer := h.peers p hp
          refine foldl_ne_none_of_anchor p ?_ fun other _ _ heq => ?_
          · unfold writtenRoute
            rw [if_neg ht, if_neg (by simpa using htargets), lists_listOf, OrdMap.mem_erase,
              Option.getD_none, OrdMap.mem_ofList, List.mem_filter, decide_eq_true_eq]
            refine ⟨fun heq => ?_, hp, hpl⟩
            rw [heq, isClipInput_mixInputId] at hpeer
            cases hpeer
          · rw [← heq, isClipInput_mixInputId] at hpeer
            cases hpeer
        · -- alone and no target of the first play: the route stays implicit
          have hnone : writtenRoute registered first.mixInputId first.targetPeerIds l none =
              none := by
            unfold writtenRoute
            rw [if_neg ht, if_neg (by simpa using htargets), listOf_eq_none]
            intro id hid
            rw [OrdMap.mem_erase, Option.getD_none, OrdMap.mem_ofList, List.mem_filter,
              decide_eq_true_eq] at hid
            exact halone ⟨id, hid.2⟩
          rw [hnone]
          rcases List.mem_cons.mp hplay with rfl | hmem
          · exact absurd (hstays.resolve_right halone) ht
          · exact ih hrest hmem
    · unfold reappliedRoute
      rw [if_neg hfirst]
      rcases List.mem_cons.mp hplay with rfl | hmem
      · exact absurd huses hfirst
      · exact ih hrest hmem

theorem lists_prune (hl : l ≠ id) (route : Option (ExtTreeSet ParticipantId)) (k : ParticipantId) :
    Lists (route.bind (MixGraph.pruneRoute id l)) k ↔ k ≠ id ∧ Lists route k := by
  cases route with
  | none => exact ⟨fun h => absurd h (not_lists_none k), fun h => absurd h.2 (not_lists_none k)⟩
  | some sources =>
    rw [Option.bind_some, pruneRoute_eq, if_neg hl, lists_listOf, OrdMap.mem_erase, lists_some]

theorem exists_lists_of_prune (hl : l ≠ id) (h : route.bind (MixGraph.pruneRoute id l) ≠ none) :
    ∃ k, k ≠ id ∧ Lists route k := by
  by_contra hnone
  apply h
  cases route with
  | none => rfl
  | some sources =>
    rw [Option.bind_some, pruneRoute_eq, if_neg hl, listOf_eq_none]
    intro k hk
    obtain ⟨hne, hmem⟩ := (OrdMap.mem_erase _ _ _).mp hk
    exact hnone ⟨k, hne, lists_some.mpr hmem⟩

/-- A route that fits the remaining plays fits them once the ended clip is gone from it and they
are applied again. -/
theorem fitRoute_teardown (h : Writers registered plays) {ended : ParticipantId} (hl : l ≠ ended)
    (hfit : FitRoute plays l route)
    (hstays : (∃ id, id ≠ ended ∧ Lists route id) ∨ route = none ∨ (∃ p ∈ registered, p ≠ l) ∨
      ∀ play ∈ plays, play.usesMixGraph = false) :
    FitRoute plays l (plays.foldl (reappliedRoute registered l)
      (route.bind (MixGraph.pruneRoute ended l))) := by
  have hexplicit : ∀ play ∈ plays, play.usesMixGraph = true →
      plays.foldl (reappliedRoute registered l) (route.bind (MixGraph.pruneRoute ended l)) ≠ none := by
    intro play hplay huses
    by_cases hgone : route.bind (MixGraph.pruneRoute ended l) = none
    · rw [hgone]
      refine foldl_none_ne_none h hplay huses ?_
      rcases hstays with ⟨id, hne, hid⟩ | rfl | halone | hidle
      · have hstill := (lists_prune hl route id).mpr ⟨hne, hid⟩
        rw [hgone] at hstill
        exact absurd hstill (not_lists_none id)
      · exact .inl ((hfit play hplay).mp ⟨huses, .inl rfl⟩)
      · exact .inr halone
      · rw [hidle play hplay] at huses
        cases huses
    · -- what is left on the list stays: a clip on it targets `l`
      obtain ⟨id, hne, hid⟩ := exists_lists_of_prune hl hgone
      refine foldl_ne_none_of_anchor id ((lists_prune hl route id).mpr ⟨hne, hid⟩)
        fun other hother hmix heq => ?_
      exact (hfit other hother).mp ⟨hmix, .inr (by rw [heq]; exact hid)⟩
  intro play hplay
  constructor
  · intro hheard
    obtain ⟨huses, hallows⟩ := hheard
    exact (lists_foldl h hplay huses _).mp (hallows.resolve_left (hexplicit play hplay huses))
  · intro ht
    have huses := ((hfit play hplay).mpr ht).1
    exact ⟨huses, .inr ((lists_foldl h hplay huses _).mpr ht)⟩

theorem exists_mem_of_filled {sources : ExtTreeSet ParticipantId} (h : sources.isEmpty = false) :
    ∃ id, id ∈ sources := by
  by_contra hnot
  rw [ExtTreeSet.isEmpty_eq_false_iff] at h
  exact h (ExtTreeSet.ext_mem fun id => by simpa using fun hid => hnot ⟨id, hid⟩)

theorem fitRoute_refresh (h : Writers registered plays) (hplay : play ∈ plays)
    (huses : play.usesMixGraph = true)
    (hfilled : ∀ sources, route = some sources → sources.isEmpty = false)
    (hfit : FitRoute plays l route)
    (honly : route ≠ none ∨ ∀ other ∈ plays, other.usesMixGraph = true → other.playId = play.playId)
    :
    FitRoute plays l (writtenRoute registered play.mixInputId play.targetPeerIds l route) := by
  have hsame : ∀ other ∈ plays, other.playId = play.playId → other = play := fun other hother heq =>
    List.inj_on_of_nodup_map h.unique hother hplay heq
  have htargets := h.targeted play hplay huses
  have hexplicit : writtenRoute registered play.mixInputId play.targetPeerIds l route ≠ none := by
    refine writtenRoute_ne_none ?_
    cases hroute : route with
    | none => exact .inl ((hfit play hplay).mp ⟨huses, .inl hroute⟩)
    | some sources =>
      obtain ⟨id, hid⟩ := exists_mem_of_filled (hfilled sources hroute)
      by_cases heq : id = play.mixInputId
      · refine .inl ((hfit play hplay).mp ⟨huses, .inr ?_⟩)
        rw [hroute, ← heq]
        exact lists_some.mpr hid
      · exact .inr (.inl ⟨id, heq, lists_some.mpr hid⟩)
  intro other hother
  have hlists := lists_writtenRoute h.peers htargets (isClipInput_mixInputId other) play.mixInputId l
    route
  by_cases heq : other.mixInputId = play.mixInputId
  · obtain rfl := hsame other hother (mixInputId_injective heq)
    rw [if_pos rfl] at hlists
    exact ⟨fun hheard => hlists.mp (hheard.2.resolve_left hexplicit), fun ht =>
      ⟨huses, .inr (hlists.mpr ht)⟩⟩
  · rw [if_neg heq] at hlists
    constructor
    · intro hheard
      obtain ⟨hmix, hallows⟩ := hheard
      exact (hfit other hother).mp ⟨hmix, .inr (hlists.mp (hallows.resolve_left hexplicit))⟩
    · intro ht
      obtain ⟨hmix, hallows⟩ := (hfit other hother).mpr ht
      refine ⟨hmix, .inr (hlists.mpr (hallows.resolve_left fun hnone => ?_))⟩
      have hid := (honly.resolve_left (not_not_intro hnone)) other hother hmix
      exact heq (by rw [ActivePlay.mixInputId, ActivePlay.mixInputId, hid])

theorem fitRoute_start (hpeers : ∀ p ∈ registered, isClipInput p = false)
    (huses : play.usesMixGraph = true) (htargets : play.targetPeerIds ≠ [])
    (hfresh : ∀ other ∈ plays, other.mixInputId ≠ play.mixInputId)
    (hunlisted : ¬Lists route play.mixInputId)
    (hfilled : ∀ sources, route = some sources → sources.isEmpty = false)
    (hfit : FitRoute plays l route)
    (hfirst : route ≠ none ∨ (∀ other ∈ plays, other.usesMixGraph = false) ∧
      (l ∈ play.targetPeerIds ∨ ∃ p ∈ registered, p ≠ l)) :
    FitRoute (plays ++ [play]) l
      (writtenRoute registered play.mixInputId play.targetPeerIds l route) := by
  have hexplicit : writtenRoute registered play.mixInputId play.targetPeerIds l route ≠ none := by
    refine writtenRoute_ne_none ?_
    cases hroute : route with
    | none =>
      rcases (hfirst.resolve_left (not_not_intro hroute)).2 with ht | hother
      · exact .inl ht
      · obtain ⟨p, hp, hpl⟩ := hother
        refine .inr (.inr ⟨rfl, htargets, p, hp, hpl, fun heq => ?_⟩)
        have hpeer := hpeers p hp
        rw [heq, isClipInput_mixInputId] at hpeer
        cases hpeer
    | some sources =>
      obtain ⟨id, hid⟩ := exists_mem_of_filled (hfilled sources hroute)
      refine .inr (.inl ⟨id, fun heq => hunlisted ?_, lists_some.mpr hid⟩)
      rw [hroute, ← heq]
      exact lists_some.mpr hid
  intro other hother
  have hlists := lists_writtenRoute hpeers htargets (isClipInput_mixInputId other) play.mixInputId l
    route
  rcases List.mem_append.mp hother with hold | hnew
  · rw [if_neg (hfresh other hold)] at hlists
    constructor
    · intro hheard
      obtain ⟨hmix, hallows⟩ := hheard
      exact (hfit other hold).mp ⟨hmix, .inr (hlists.mp (hallows.resolve_left hexplicit))⟩
    · intro ht
      obtain ⟨hmix, hallows⟩ := (hfit other hold).mpr ht
      refine ⟨hmix, .inr (hlists.mpr (hallows.resolve_left fun hnone => ?_))⟩
      have hidle := (hfirst.resolve_left (not_not_intro hnone)).1 other hold
      rw [hidle] at hmix
      cases hmix
  · obtain rfl := List.mem_singleton.mp hnew
    rw [if_pos rfl] at hlists
    exact ⟨fun hheard => hlists.mp (hheard.2.resolve_left hexplicit), fun ht =>
      ⟨huses, .inr (hlists.mpr ht)⟩⟩

end Loop

/-! ## Writes and strips on an orderly graph -/

section Graph

variable {K : ParticipantId → Prop} {g : MixGraph D} {registered : List ParticipantId}

theorem Orderly.applyToListener (h : Orderly K g) (hpeers : ∀ p ∈ registered, isClipInput p = false)
    {mixInputId : ParticipantId} (hK : K mixInputId) (targets : List ParticipantId)
    {l : ParticipantId} (hl : isClipInput l = false) :
    Orderly K (applyToListener registered mixInputId targets g l) := by
  have hbase : ∀ id ∈ baseSources registered g l, isClipInput id = true → K id := by
    intro id hid hclip
    unfold baseSources at hid
    cases hroute : g.listenerRoutes[l]? with rw [hroute] at hid
    | none =>
      rw [hpeers id (List.mem_of_mem_filter hid)] at hclip
      cases hclip
    | some sources =>
      obtain ⟨g', h⟩ := h
      exact (h.listed l sources hroute).2 id (ExtTreeSet.mem_toList.mp hid) hclip
  unfold Clips.applyToListener
  dsimp only
  split
  · refine h.setListenerSources hl fun id hid hclip => ?_
    split at hid
    · exact hbase id hid hclip
    · rcases List.mem_append.mp hid with hold | hnew
      · exact hbase id hold hclip
      · rw [List.mem_singleton.mp hnew]
        exact hK
  · split
    · exact h.setListenerSources hl fun id hid => hbase id (List.mem_of_mem_filter hid)
    · exact h

theorem Orderly.reapplyPlayRoutes (h : Orderly K g)
    (hpeers : ∀ p ∈ registered, isClipInput p = false) {play : ActivePlay}
    (hK : play.usesMixGraph = true → K play.mixInputId) :
    Orderly K (reapplyPlayRoutes registered g play) := by
  unfold Clips.reapplyPlayRoutes
  split
  · next huses =>
    suffices hloop : ∀ (ls : List ParticipantId) (t : MixGraph D), (∀ l ∈ ls, l ∈ registered) →
        Orderly K t → Orderly K (ls.foldl
          (Clips.applyToListener registered play.mixInputId play.targetPeerIds) t) from
      hloop registered g (fun _ hl => hl) h
    intro ls
    induction ls with
    | nil => exact fun _ _ ht => ht
    | cons l ls ih =>
      intro t hls ht
      exact ih _ (fun k hk => hls k (List.mem_cons_of_mem _ hk))
        (ht.applyToListener hpeers (hK huses) _ (hpeers l (hls l List.mem_cons_self)))
  · exact h

section

variable (registered)

theorem applyToListener_onlyRouting (mixInputId : ParticipantId) (targets : List ParticipantId)
    (g : MixGraph D) (l : ParticipantId) :
    g.OnlyRouting (applyToListener registered mixInputId targets g l) := by
  unfold applyToListener
  dsimp only
  split
  · exact g.setListenerSources_onlyRouting l _
  · split
    · exact g.setListenerSources_onlyRouting l _
    · exact .refl g

theorem reapplyPlayRoutes_onlyRouting (g : MixGraph D) (play : ActivePlay) :
    g.OnlyRouting (reapplyPlayRoutes registered g play) := by
  unfold reapplyPlayRoutes
  split
  · exact MixGraph.foldl_onlyRouting (fun t l => applyToListener_onlyRouting _ _ _ t l) _ g
  · exact .refl g

theorem stripListener_onlyRouting (mixInputId : ParticipantId) (g : MixGraph D)
    (l : ParticipantId) : g.OnlyRouting (stripListener mixInputId g l) := by
  unfold stripListener
  split
  · exact .refl g
  · split
    · exact g.setListenerSources_onlyRouting l _
    · exact .refl g

theorem strip_bind_prune {id l : ParticipantId} (hl : l ≠ id) (g : MixGraph D) :
    (removePlayMixInputFromRoutes registered id g).listenerRoutes[l]?.bind
      (MixGraph.pruneRoute id l) = g.listenerRoutes[l]?.bind (MixGraph.pruneRoute id l) := by
  unfold removePlayMixInputFromRoutes
  induction registered generalizing g with
  | nil => rfl
  | cons k registered ih =>
    rw [List.foldl_cons, ih]
    unfold stripListener
    cases hroute : g.listenerRoutes[k]? with
    | none => rfl
    | some current =>
      dsimp only
      split
      · rw [setListenerSources_routes]
        split
        · next heq =>
          subst heq
          rw [hroute, Option.bind_some, pruneRoute_eq, if_neg hl]
          have herase : ∀ a : ExtTreeSet ParticipantId,
              (listOf a).bind (MixGraph.pruneRoute id l) = listOf (a.erase id) := fun a => by
            unfold listOf
            split
            · next hempty =>
              rw [ExtTreeSet.isEmpty_iff.mp hempty]
              exact (listOf_eq_none.mpr (by simp)).symm
            · rw [Option.bind_some, pruneRoute_eq, if_neg hl]
              rfl
          rw [herase]
          apply listOf_congr
          intro p
          rw [OrdMap.mem_erase, OrdMap.mem_erase, OrdMap.mem_ofList, List.mem_filter,
            ExtTreeSet.mem_toList, decide_eq_true_eq]
          tauto
        · rfl
      · rfl

end

end Graph

end NodeWebrtc.Clips
