import NodeWebrtc.Clips.FittingRoutes

/-! # Who hears a targeted clip

The active clips and the routes of the registered listeners fit, as long as nobody registers with
a route that lets a clip through, no route is changed behind the controller's back, and a play is
applied alone only where every listener has a list. A listener that registers has no list, so it
hears every clip.
-/

namespace NodeWebrtc.Clips

open Machine Mixer Std

variable {D : MixDsp}

namespace Controller

variable {c : Controller D}

/-- A registered listener hears exactly the active clips that target it. -/
def Fits (c : Controller D) : Prop :=
  ∀ play ∈ c.plays, ∀ l ∈ c.registered,
    play.mixInputId ∈ (c.graph.heardSources l).map Prod.fst ↔ l ∈ play.targetPeerIds

/-- The routes of the registered listeners let through exactly these clips. -/
def RoutesFit (c : Controller D) : Prop :=
  ∀ l ∈ c.registered, FitRoute c.plays l c.graph.listenerRoutes[l]?

structure Sound (c : Controller D) : Prop where
  orderly : Orderly c.Active c.graph
  audible : c.graph.Audible
  inputs : ∀ play ∈ c.plays, play.mixInputId ∈ c.graph.inputs ↔ play.usesMixGraph = true
  peers : ∀ p, p ∈ c.registered ∨ p ∈ c.knownClientIds → isClipInput p = false
  listed : ∀ p ∈ c.registered, p ∈ c.knownClientIds
  targeted : ∀ play ∈ c.plays, play.usesMixGraph = true → play.targetPeerIds ≠ []
  unique : (c.plays.map (·.playId)).Nodup

theorem Sound.peersOfList (h : Sound c) : ∀ l ∈ c.listRegisteredPeers, isClipInput l = false :=
  fun l hl => h.peers l (mem_listRegisteredPeers hl)

theorem Sound.inList (h : Sound c) : ∀ l ∈ c.registered, l ∈ c.listRegisteredPeers := by
  intro l hl
  have hknown := h.listed l hl
  unfold listRegisteredPeers
  split
  · next hempty =>
    rw [ExtTreeSet.isEmpty_iff.mp hempty] at hknown
    exact absurd hknown ExtTreeSet.not_mem_empty
  · exact ExtTreeSet.mem_toList.mpr hknown

theorem Sound.writers (h : Sound c) : Writers c.listRegisteredPeers c.plays :=
  ⟨h.peersOfList, h.targeted, h.unique⟩

theorem Sound.filled (h : Sound c) (l : ParticipantId) (sources : ExtTreeSet ParticipantId)
    (hroute : c.graph.listenerRoutes[l]? = some sources) : sources.isEmpty = false := by
  obtain ⟨g', hmirrors⟩ := h.orderly
  exact (hmirrors.listed l sources hroute).1

theorem Sound.fits (h : Sound c) (hfit : RoutesFit c) : Fits c := by
  intro play hplay l hl
  have hpeer := h.peers l (.inl hl)
  have hne : play.mixInputId ≠ l := fun heq => by
    rw [← heq, isClipInput_mixInputId] at hpeer
    cases hpeer
  rw [MixGraph.mem_heardSources, h.inputs play hplay, ← hfit l hl play hplay]
  rw [MixGraph.mixes, h.audible.unmuted, h.audible.unmutedFor]
  cases c.graph.listenerRoutes[l]? with
  | none => simp [hne, Allows]
  | some sources => simp [hne, Allows, lists_some]

theorem sound_new : Sound (Controller.new D) where
  orderly := ⟨_, mirrors_new⟩
  audible := MixGraph.new_audible
  inputs := fun _ hplay => by cases hplay
  peers := kept_new.peers
  listed := fun p hp => absurd hp ExtTreeSet.not_mem_empty
  targeted := fun _ hplay => by cases hplay
  unique := List.nodup_nil

theorem inputs_of_onlyRouting {g t : MixGraph D} (h : g.OnlyRouting t) : t.inputs = g.inputs := by
  rw [h]

theorem Sound.reroute (h : Sound c) {g : MixGraph D} (horderly : Orderly c.Active g)
    (hframe : c.graph.OnlyRouting g) : Sound (c.setGraph g) where
  orderly := horderly
  audible := h.audible.onlyRouting hframe
  inputs := fun play hplay => by
    show play.mixInputId ∈ g.inputs ↔ _
    rw [inputs_of_onlyRouting hframe]
    exact h.inputs play hplay
  peers := h.peers
  listed := h.listed
  targeted := h.targeted
  unique := h.unique

/-! ## A play that ends -/

/-- The end of a play leaves no sole listener with nothing but its clip on the list while other
plays go on. -/
def SparesTeardown (c : Controller D) (ended : ActivePlay) : Prop :=
  ended.usesMixGraph = true → ∀ l ∈ c.registered,
    (∃ id, id ≠ ended.mixInputId ∧ Lists c.graph.listenerRoutes[l]? id) ∨
      c.graph.listenerRoutes[l]? = none ∨ (∃ p ∈ c.listRegisteredPeers, p ≠ l) ∨
      ∀ play ∈ c.plays, play.playId ≠ ended.playId → play.usesMixGraph = false

theorem Sound.kept (h : Sound c) : ∃ c', Kept c c' := by
  obtain ⟨g', hmirrors⟩ := h.orderly
  exact ⟨⟨g', c.registered, c.knownClientIds, []⟩, hmirrors, rfl, rfl, h.peers, h.unique, rfl⟩

theorem removeInput_inputs (g : MixGraph D) (id : ParticipantId) :
    (g.removeInput id).inputs = g.inputs.erase id :=
  inputs_of_onlyRouting (g.removeInput_onlyRouting id)

theorem mem_dropPlay {ended play : ActivePlay} :
    play ∈ (c.dropPlay ended).plays ↔ play ∈ c.plays ∧ play.playId ≠ ended.playId := by
  show play ∈ c.plays.filter (·.playId ≠ ended.playId) ↔ _
  rw [List.mem_filter, decide_eq_true_eq]

theorem removeInput_audible {g : MixGraph D} (h : g.Audible) (id : ParticipantId) :
    (g.removeInput id).Audible :=
  (MixGraph.forgetInput_audible h id).onlyRouting (g.removeInput_onlyRouting id)

theorem Sound.dropPlay (h : Sound c) {ended : ActivePlay} (htracks : c.Tracks ended) :
    Sound (c.dropPlay ended) := by
  obtain ⟨c', hkept⟩ := h.kept
  have hstrip : c.graph.OnlyRouting
      (removePlayMixInputFromRoutes c.listRegisteredPeers ended.mixInputId c.graph) :=
    MixGraph.foldl_onlyRouting (fun t l => stripListener_onlyRouting _ t l) _ _
  refine ⟨⟨_, (hkept.dropPlay htracks).mirrors⟩, ?_, fun play hplay => ?_, h.peers, h.listed,
    fun play hplay => h.targeted play (mem_dropPlay.mp hplay).1,
    h.unique.sublist (List.filter_sublist.map _)⟩
  · show (if ended.usesMixGraph then _ else _ : MixGraph D).Audible
    split
    · exact removeInput_audible (h.audible.onlyRouting hstrip) ended.mixInputId
    · exact h.audible
  · obtain ⟨hold, hne⟩ := mem_dropPlay.mp hplay
    show play.mixInputId ∈ (if ended.usesMixGraph then _ else _ : MixGraph D).inputs ↔ _
    split
    · rw [removeInput_inputs, inputs_of_onlyRouting hstrip, ExtTreeMap.mem_erase,
        h.inputs play hold]
      refine and_iff_right fun heq => hne ?_
      exact (mixInputId_injective (LawfulEqCmp.compare_eq_iff_eq.mp heq)).symm
    · exact h.inputs play hold

theorem dropPlay_routes (h : Sound c) {ended : ActivePlay} (huses : ended.usesMixGraph = true)
    {l : ParticipantId} (hl : l ≠ ended.mixInputId) :
    (c.dropPlay ended).graph.listenerRoutes[l]? =
      c.graph.listenerRoutes[l]?.bind (MixGraph.pruneRoute ended.mixInputId l) := by
  obtain ⟨g', hmirrors⟩ := h.orderly
  have hclip := isClipInput_mixInputId ended
  have hstrip := hmirrors.removePlayMixInputFromRoutes hclip h.peersOfList
  show (if ended.usesMixGraph then _ else _ : MixGraph D).listenerRoutes[l]? = _
  rw [if_pos huses, (removeInput_clip_routes hstrip hclip).2.2, strip_bind_prune _ hl]

theorem Sound.reapplyPlays (h : Sound c) : Sound c.reapplyPlays := by
  refine h.reroute ?_ (MixGraph.foldl_onlyRouting (fun t play => reapplyPlayRoutes_onlyRouting _ t play)
    _ _)
  suffices hloop : ∀ (plays : List ActivePlay) (g : MixGraph D), (∀ play ∈ plays, play ∈ c.plays) →
      Orderly c.Active g →
      Orderly c.Active (plays.foldl (reapplyPlayRoutes c.listRegisteredPeers) g) from
    hloop c.plays c.graph (fun _ hplay => hplay) h.orderly
  intro plays
  induction plays with
  | nil => exact fun _ _ hg => hg
  | cons play plays ih =>
    intro g hmem hg
    exact ih _ (fun other hother => hmem other (List.mem_cons_of_mem _ hother))
      (hg.reapplyPlayRoutes h.peersOfList fun huses => ⟨play, hmem play List.mem_cons_self, huses, rfl⟩)

theorem Sound.teardownPlay (h : Sound c) {ended : ActivePlay} (htracks : c.Tracks ended) :
    Sound (c.teardownPlay ended) := by
  unfold Controller.teardownPlay
  split
  · exact (h.dropPlay htracks).reapplyPlays
  · exact h.dropPlay htracks

theorem teardownPlay_fits (h : Sound c) {ended : ActivePlay} (htracks : c.Tracks ended)
    (hfit : ∀ l ∈ c.registered, FitRoute (c.dropPlay ended).plays l c.graph.listenerRoutes[l]?)
    (hspares : c.SparesTeardown ended) : RoutesFit (c.teardownPlay ended) := by
  have hdrop := h.dropPlay htracks
  unfold Controller.teardownPlay
  split
  · next huses =>
    intro l hl
    have hne : l ≠ ended.mixInputId := fun heq => by
      have hpeer := h.peers l (.inl hl)
      rw [heq, isClipInput_mixInputId] at hpeer
      cases hpeer
    show FitRoute (c.dropPlay ended).plays l
      ((c.dropPlay ended).plays.foldl (reapplyPlayRoutes c.listRegisteredPeers)
        (c.dropPlay ended).graph).listenerRoutes[l]?
    rw [foldl_reapplyPlayRoutes_routes c.nodup_listRegisteredPeers (h.inList l hl),
      dropPlay_routes h huses hne]
    refine fitRoute_teardown hdrop.writers hne (hfit l hl) ?_
    refine (hspares huses l hl).imp_right (Or.imp_right (Or.imp_right fun hidle => ?_))
    exact fun play hplay => hidle play (mem_dropPlay.mp hplay).1 (mem_dropPlay.mp hplay).2
  · next hnot =>
    intro l hl
    have hgraph : (c.dropPlay ended).graph = c.graph := if_neg hnot
    rw [hgraph]
    exact hfit l hl

theorem FitRoute.mono {plays rest : List ActivePlay} {l : ParticipantId}
    {route : Option (ExtTreeSet ParticipantId)} (h : FitRoute plays l route)
    (hrest : ∀ play ∈ rest, play ∈ plays) : FitRoute rest l route :=
  fun play hplay => h play (hrest play hplay)

theorem endPlay_keeps (h : Sound c) (hfit : RoutesFit c) {playId : PlayId}
    (hspares : ∀ play, c.plays.find? (·.playId = playId) = some play → c.SparesTeardown play) :
    Sound (c.endPlay playId) ∧ RoutesFit (c.endPlay playId) := by
  unfold Controller.endPlay
  cases hfind : c.plays.find? (·.playId = playId) with
  | none => exact ⟨h, hfit⟩
  | some play =>
    have htracks := tracks_of_mem h.unique (List.mem_of_find?_eq_some hfind)
    refine ⟨h.teardownPlay htracks, teardownPlay_fits h htracks (fun l hl => ?_) (hspares play hfind)⟩
    exact FitRoute.mono (hfit l hl) fun other hother => (mem_dropPlay.mp hother).1

/-! ## A play that starts -/

theorem applyPlayPosition_frame {g t : MixGraph D} {id : ParticipantId}
    {position : Option (AudioPosition D)} (h : applyPlayPosition g id position = some t) :
    t.inputs = g.inputs ∧ (g.Audible → t.Audible) := by
  unfold applyPlayPosition at h
  split at h
  · cases h
    exact ⟨rfl, fun h => h⟩
  · split at h <;> cases h
    · exact ⟨rfl, fun h => ⟨h.bounded, h.enabled, h.unmuted, h.unmutedFor⟩⟩
    · exact ⟨rfl, fun h => ⟨h.bounded, h.enabled, h.unmuted, h.unmutedFor⟩⟩
    · exact ⟨rfl, fun h => h⟩

theorem addInput_audible {g : MixGraph D} (h : g.Audible) (id : ParticipantId) :
    (g.addInput id).Audible :=
  ⟨h.bounded, h.enabled, h.unmuted, h.unmutedFor⟩

theorem mem_addInput_inputs {g : MixGraph D} {id k : ParticipantId} :
    k ∈ (g.addInput id).inputs ↔ k = id ∨ k ∈ g.inputs := by
  show k ∈ g.inputs.insertIfNew id _ ↔ _
  rw [ExtTreeMap.mem_insertIfNew, LawfulEqCmp.compare_eq_iff_eq, eq_comm]

theorem Sound.addPlay (h : Sound c) {play : ActivePlay} (hfresh : ∀ other ∈ c.plays,
      other.playId ≠ play.playId) {g : MixGraph D}
    (horderly : Orderly (fun id => ∃ other ∈ c.plays ++ [play],
      other.usesMixGraph = true ∧ other.mixInputId = id) g)
    (haudible : g.Audible)
    (hinputs : ∀ other ∈ c.plays ++ [play], other.mixInputId ∈ g.inputs ↔ other.usesMixGraph = true)
    (htargeted : play.usesMixGraph = true → play.targetPeerIds ≠ []) :
    Sound { c with graph := g, plays := c.plays ++ [play] } where
  orderly := horderly
  audible := haudible
  inputs := hinputs
  peers := h.peers
  listed := h.listed
  targeted := fun other hother => by
    rcases List.mem_append.mp hother with hold | hnew
    · exact h.targeted other hold
    · rw [List.mem_singleton.mp hnew]
      exact htargeted
  unique := by
    rw [List.map_append, List.nodup_append]
    refine ⟨h.unique, List.nodup_singleton _, fun a ha b hb heq => ?_⟩
    rw [List.map_singleton, List.mem_singleton] at hb
    obtain ⟨other, hother, rfl⟩ := List.mem_map.mp ha
    exact hfresh other hother (heq.trans hb)

theorem Sound.play (h : Sound c) {playId : PlayId} (hfresh : ¬c.plays.any (·.playId = playId))
    (hinput : ¬c.graph.inputs.contains (clipPlayInputId playId)) (hfit : RoutesFit c)
    {targets sidecars : List ParticipantId} {position : Option (AudioPosition D)}
    (hfirst : targets.any (c.usesMixPump sidecars) = true →
      (applyPlayPosition (c.graph.addInput (clipPlayInputId playId)) (clipPlayInputId playId)
        position).isSome → ∀ l ∈ c.registered, c.graph.listenerRoutes[l]? ≠ none ∨
          (∀ other ∈ c.plays, other.usesMixGraph = false) ∧
            (l ∈ targets ∨ ∃ p ∈ c.listRegisteredPeers, p ≠ l)) :
    Sound (c.play playId targets sidecars position) ∧
      RoutesFit (c.play playId targets sidecars position) := by
  have hids : ∀ other ∈ c.plays, other.playId ≠ playId := fun other hother heq =>
    hfresh (List.any_eq_true.mpr ⟨other, hother, decide_eq_true heq⟩)
  have hdistinct : ∀ other ∈ c.plays, other.mixInputId ≠ clipPlayInputId playId :=
    fun other hother heq => hids other hother (clipPlayInputId_injective heq)
  obtain ⟨g', hmirrors⟩ := h.orderly
  unfold Controller.play
  dsimp only
  split
  · next huses =>
    have htargets : targets ≠ [] := fun hnil => by
      rw [hnil] at huses
      cases huses
    cases hposition : applyPlayPosition (c.graph.addInput (clipPlayInputId playId))
      (clipPlayInputId playId) position with
    | none =>
      refine ⟨⟨⟨g', hmirrors.sameLeft ⟨rfl, rfl, rfl⟩⟩, addInput_audible h.audible _,
        fun other hother => ?_, h.peers, h.listed, h.targeted, h.unique⟩, hfit⟩
      rw [mem_addInput_inputs, h.inputs other hother]
      exact or_iff_right (hdistinct other hother)
    | some g =>
      have hsame := applyPlayPosition_sameRouting hposition
      have hsame' : c.graph.SameRouting g := ⟨hsame.routes, hsame.groups, hsame.entries⟩
      obtain ⟨hinputs, haudible⟩ := applyPlayPosition_frame hposition
      have hroute : g.OnlyRouting (applyTargetPlayRoutes g c.listRegisteredPeers
          (clipPlayInputId playId) targets) :=
        MixGraph.foldl_onlyRouting (fun t l => applyToListener_onlyRouting _ _ _ t l) _ _
      have horderly : Orderly (fun id => ∃ other ∈ c.plays ++ [⟨playId, targets, true⟩],
          other.usesMixGraph = true ∧ other.mixInputId = id) g :=
        ⟨g', (hmirrors.sameLeft hsame').mono fun id hid => by
          obtain ⟨other, hother, hmix⟩ := hid
          exact ⟨other, List.mem_append_left _ hother, hmix⟩⟩
      refine ⟨h.addPlay hids ?_ ?_ (fun other hother => ?_) fun _ => htargets, fun l hl => ?_⟩
      · exact horderly.reapplyPlayRoutes h.peersOfList fun _ =>
          ⟨_, List.mem_append_right _ (List.mem_singleton_self _), rfl, rfl⟩
      · exact (haudible (addInput_audible h.audible _)).onlyRouting hroute
      · rw [inputs_of_onlyRouting hroute, hinputs, mem_addInput_inputs]
        rcases List.mem_append.mp hother with hold | hnew
        · rw [h.inputs other hold]
          exact or_iff_right (hdistinct other hold)
        · rw [List.mem_singleton.mp hnew]
          exact ⟨fun _ => rfl, fun _ => .inl rfl⟩
      · show FitRoute (c.plays ++ [⟨playId, targets, true⟩]) l _
        rw [applyTargetPlayRoutes_routes c.nodup_listRegisteredPeers _ _ _ (h.inList l hl),
          hsame'.routes]
        refine fitRoute_start h.peersOfList rfl htargets hdistinct (fun hlists => ?_) (h.filled l)
          (hfit l hl) (hfirst huses (by rw [hposition]; rfl) l hl)
        obtain ⟨sources, hsources, hmem⟩ := hlists
        obtain ⟨other, hother, -, heq⟩ := (hmirrors.listed l sources hsources).2 _ hmem
          (isClipInput_mixInputId _)
        exact hdistinct other hother heq
  · next hdirect =>
    refine ⟨h.addPlay hids ⟨g', hmirrors.mono fun id hid => ?_⟩ h.audible (fun other hother => ?_)
      (fun hmix => by cases hmix), fun l hl => ?_⟩
    · obtain ⟨other, hother, hmix⟩ := hid
      exact ⟨other, List.mem_append_left _ hother, hmix⟩
    · rcases List.mem_append.mp hother with hold | hnew
      · exact h.inputs other hold
      · rw [List.mem_singleton.mp hnew]
        exact ⟨fun hin => absurd hin hinput, fun hmix => by cases hmix⟩
    · -- no target has a mix pump, so none is registered
      intro other hother
      rcases List.mem_append.mp hother with hold | hnew
      · exact hfit l hl other hold
      · rw [List.mem_singleton.mp hnew]
        refine ⟨fun hheard => (by cases hheard.1), fun ht => absurd ?_ hdirect⟩
        rw [List.any_eq_true]
        refine ⟨l, ht, ?_⟩
        rw [usesMixPump, List.contains_iff_mem.mpr (h.inList l hl), Bool.true_or]

/-! ## A peer that leaves -/

/-- The condition of one round: as for an end, when the peer was the last target; else every
registered listener has a list, or no other play is on the graph. -/
def KeepsTargets (peerId : ParticipantId) (c : Controller D) (play : ActivePlay) : Prop :=
  peerId ∈ play.targetPeerIds → play.usesMixGraph = true →
    if (withoutTarget play peerId).targetPeerIds.isEmpty then c.SparesTeardown play
    else ∀ l ∈ c.registered, c.graph.listenerRoutes[l]? ≠ none ∨
      ∀ other ∈ c.plays, other.usesMixGraph = true → other.playId = play.playId

theorem dropPlay_setPlay {play left : ActivePlay} (hid : left.playId = play.playId)
    (huses : left.usesMixGraph = play.usesMixGraph) :
    (c.setPlay left).dropPlay left = c.dropPlay play := by
  have hplays : (c.setPlay left).plays.filter (·.playId ≠ left.playId) =
      c.plays.filter (·.playId ≠ play.playId) := by
    show (c.plays.map fun other => if other.playId = left.playId then left else other).filter _ = _
    rw [hid]
    induction c.plays with
    | nil => rfl
    | cons other plays ih =>
      rw [List.map_cons, List.filter_cons, ih]
      by_cases heq : other.playId = play.playId
      · simp [heq, hid]
      · simp [heq]
  unfold Controller.dropPlay
  rw [hplays, huses, ActivePlay.mixInputId, hid]
  rfl

theorem teardownPlay_setPlay {play left : ActivePlay} (hid : left.playId = play.playId)
    (huses : left.usesMixGraph = play.usesMixGraph) :
    (c.setPlay left).teardownPlay left = c.teardownPlay play := by
  unfold Controller.teardownPlay
  rw [huses, dropPlay_setPlay hid huses]

theorem mem_setPlay (play left : ActivePlay) {other : ActivePlay} (hid : left.playId = play.playId)
    (hmem : other ∈ (c.setPlay left).plays) :
    other = left ∨ (other ∈ c.plays ∧ other.playId ≠ play.playId) := by
  obtain ⟨old, hold, rfl⟩ := List.mem_map.mp hmem
  by_cases heq : old.playId = left.playId
  · rw [if_pos heq]
    exact .inl rfl
  · rw [if_neg heq]
    exact .inr ⟨hold, fun h => heq (h.trans hid.symm)⟩

theorem Sound.setPlay (h : Sound c) (left : ActivePlay) {play : ActivePlay} (hplay : play ∈ c.plays)
    (hid : left.playId = play.playId) (huses : left.usesMixGraph = play.usesMixGraph)
    (htargets : left.targetPeerIds ≠ []) : Sound (c.setPlay left) := by
  obtain ⟨c', hkept⟩ := h.kept
  have hholds : c.Holds left := ⟨play, hplay, hid.symm, huses.symm⟩
  have hset := hkept.setPlay hholds
  refine ⟨⟨_, hset.mirrors⟩, h.audible, fun other hother => ?_, h.peers, h.listed,
    fun other hother hmix => ?_, hset.unique⟩
  · rcases mem_setPlay play left hid hother with rfl | hold
    · show other.mixInputId ∈ c.graph.inputs ↔ _
      rw [huses, ← h.inputs play hplay, ActivePlay.mixInputId, ActivePlay.mixInputId, hid]
    · exact h.inputs other hold.1
  · rcases mem_setPlay play left hid hother with rfl | hold
    · exact htargets
    · exact h.targeted other hold.1 hmix

theorem peerLeftPlay_keeps (h : Sound c) (hfit : RoutesFit c) {peerId : ParticipantId}
    (hgone : peerId ∉ c.registered) {play : ActivePlay} (hplay : play ∈ c.plays)
    (hkeeps : KeepsTargets peerId c play) :
    Sound (c.peerLeftPlay peerId play) ∧ RoutesFit (c.peerLeftPlay peerId play) := by
  have hne : ∀ l ∈ c.registered, l ≠ peerId := fun l hl heq => hgone (heq ▸ hl)
  unfold Controller.peerLeftPlay
  split
  · exact ⟨h, hfit⟩
  · next hmem =>
    have hcond := hkeeps (by simpa using hmem)
    dsimp only
    split
    · next hempty =>
      rw [teardownPlay_setPlay rfl rfl]
      have htracks := tracks_of_mem h.unique hplay
      refine ⟨h.teardownPlay htracks, teardownPlay_fits h htracks (fun l hl => ?_) fun huses => ?_⟩
      · exact FitRoute.mono (hfit l hl) fun other hother => (mem_dropPlay.mp hother).1
      · have hteardown := hcond huses
        rw [if_pos hempty] at hteardown
        exact hteardown huses
    · next hsome =>
      have htargets : (withoutTarget play peerId).targetPeerIds ≠ [] := by simpa using hsome
      have hset := h.setPlay (withoutTarget play peerId) hplay rfl rfl htargets
      have hleft : withoutTarget play peerId ∈ (c.setPlay (withoutTarget play peerId)).plays :=
        List.mem_map.mpr ⟨play, hplay, if_pos rfl⟩
      -- nobody registered is the peer that left
      have hfitSet : ∀ l ∈ c.registered,
          FitRoute (c.setPlay (withoutTarget play peerId)).plays l c.graph.listenerRoutes[l]? := by
        intro l hl other hother
        rcases mem_setPlay play (withoutTarget play peerId) rfl hother with rfl | hold
        · have hsame : l ∈ (withoutTarget play peerId).targetPeerIds ↔ l ∈ play.targetPeerIds := by
            show l ∈ play.targetPeerIds.filter (· ≠ peerId) ↔ _
            rw [List.mem_filter, decide_eq_true_eq]
            exact and_iff_left (hne l hl)
          rw [hsame]
          exact hfit l hl play hplay
        · exact hfit l hl other hold.1
      constructor
      · refine hset.reroute ?_ (reapplyPlayRoutes_onlyRouting _ _ _)
        exact hset.orderly.reapplyPlayRoutes h.peersOfList fun huses => ⟨_, hleft, huses, rfl⟩
      · intro l hl
        show FitRoute (c.setPlay (withoutTarget play peerId)).plays l
          (reapplyPlayRoutes c.listRegisteredPeers c.graph
            (withoutTarget play peerId)).listenerRoutes[l]?
        rw [reapplyPlayRoutes_routes c.nodup_listRegisteredPeers (h.inList l hl), reappliedRoute]
        split
        · next huses =>
          refine fitRoute_refresh hset.writers hleft huses (h.filled l) (hfitSet l hl) ?_
          have hrefresh := hcond huses
          rw [if_neg hsome] at hrefresh
          refine (hrefresh l hl).imp_right fun honly other hother hmix => ?_
          rcases mem_setPlay play (withoutTarget play peerId) rfl hother with rfl | hold
          · rfl
          · exact honly other hold.1 hmix
        · exact hfitSet l hl

theorem peerLeftPlay_frame (c : Controller D) (peerId : ParticipantId) (play : ActivePlay) :
    (c.peerLeftPlay peerId play).registered = c.registered ∧
      ∀ other ∈ c.plays, other.playId ≠ play.playId →
        other ∈ (c.peerLeftPlay peerId play).plays := by
  have hset : ∀ other ∈ c.plays, other.playId ≠ play.playId →
      other ∈ (c.setPlay (withoutTarget play peerId)).plays := fun other hother hne =>
    List.mem_map.mpr ⟨other, hother, if_neg hne⟩
  unfold Controller.peerLeftPlay
  split
  · exact ⟨rfl, fun _ hother _ => hother⟩
  · dsimp only
    split
    · unfold Controller.teardownPlay
      split <;> exact ⟨rfl, fun other hother hne => mem_dropPlay.mpr ⟨hset other hother hne, hne⟩⟩
    · exact ⟨rfl, hset⟩

theorem onPeerDisconnected_keeps (h : Sound c) (hfit : RoutesFit c) {peerId : ParticipantId}
    (hgone : peerId ∉ c.registered)
    (hkeeps : Throughout (Controller.peerLeftPlay peerId) (KeepsTargets peerId) c c.plays) :
    Sound (c.onPeerDisconnected peerId) ∧ RoutesFit (c.onPeerDisconnected peerId) := by
  suffices hloop : ∀ (plays : List ActivePlay) (t : Controller D), (plays.map (·.playId)).Nodup →
      (∀ play ∈ plays, play ∈ t.plays) → peerId ∉ t.registered → Sound t → RoutesFit t →
      Throughout (Controller.peerLeftPlay peerId) (KeepsTargets peerId) t plays →
      Sound (plays.foldl (Controller.peerLeftPlay peerId) t) ∧
        RoutesFit (plays.foldl (Controller.peerLeftPlay peerId) t) from
    hloop c.plays c h.unique (fun _ hplay => hplay) hgone h hfit hkeeps
  intro plays
  induction plays with
  | nil => exact fun _ _ _ _ ht hfit _ => ⟨ht, hfit⟩
  | cons play plays ih =>
    intro t hunique hmem hgone ht hfit hkeeps
    rw [List.map_cons, List.nodup_cons] at hunique
    obtain ⟨hsound, hfit'⟩ := peerLeftPlay_keeps ht hfit hgone (hmem play List.mem_cons_self)
      hkeeps.1
    obtain ⟨hregistered, hstays⟩ := t.peerLeftPlay_frame peerId play
    refine ih _ hunique.2 (fun other hother => ?_) (by rw [hregistered]; exact hgone) hsound hfit'
      hkeeps.2
    refine hstays other (hmem other (List.mem_cons_of_mem _ hother)) fun heq => hunique.1 ?_
    exact heq ▸ List.mem_map_of_mem hother

/-! ## Peers and route changes -/

theorem Sound.registerPeer (h : Sound c) (peer : PeerId) : Sound (c.registerPeer peer.id) := by
  obtain ⟨g', hmirrors⟩ := h.orderly
  unfold Controller.registerPeer
  split
  · exact h
  · refine ⟨⟨g', hmirrors.sameLeft ⟨rfl, rfl, rfl⟩⟩, addInput_audible h.audible _,
      fun play hplay => ?_, fun p hp => ?_, fun p hp => ?_, h.targeted, h.unique⟩
    · show play.mixInputId ∈ (c.graph.addInput peer.id).inputs ↔ _
      rw [mem_addInput_inputs, h.inputs play hplay]
      refine or_iff_right fun heq => ?_
      have hpeer := peer.notClip
      rw [← heq, isClipInput_mixInputId] at hpeer
      cases hpeer
    · have hmem : p = peer.id ∨ p ∈ c.registered ∨ p ∈ c.knownClientIds := by
        rcases hp with hp | hp
        · exact ((OrdMap.mem_insert _ _ _).mp hp).imp_right .inl
        · exact ((OrdMap.mem_insert _ _ _).mp hp).imp_right .inr
      rcases hmem with rfl | hold
      · exact peer.notClip
      · exact h.peers p hold
    · rcases (OrdMap.mem_insert _ _ _).mp hp with rfl | hold
      · exact (OrdMap.mem_insert _ _ _).mpr (.inl rfl)
      · exact (OrdMap.mem_insert _ _ _).mpr (.inr (h.listed p hold))

theorem registerPeer_fits (hfit : RoutesFit c) {p : ParticipantId}
    (hnew : p ∉ c.registered → FitRoute c.plays p c.graph.listenerRoutes[p]?) :
    RoutesFit (c.registerPeer p) := by
  unfold Controller.registerPeer
  split
  · exact hfit
  · next hfresh =>
    intro l hl
    rcases (OrdMap.mem_insert _ _ _).mp hl with rfl | hold
    · exact hnew fun hmem => hfresh (ExtTreeSet.contains_iff_mem.mpr hmem)
    · exact hfit l hold

theorem Sound.unregisterPeer (h : Sound c) (peer : PeerId) : Sound (c.unregisterPeer peer.id) := by
  obtain ⟨g', hmirrors⟩ := h.orderly
  unfold Controller.unregisterPeer
  split
  · have hrouting := (c.graph.removeInput peer.id).removeFromGroup_onlyRouting peer.id
    refine ⟨⟨_, (hmirrors.removeInput peer.id).removeFromGroup peer.id⟩,
      (removeInput_audible h.audible _).onlyRouting hrouting, fun play hplay => ?_, fun p hp => ?_,
      fun p hp => ?_, h.targeted, h.unique⟩
    · show play.mixInputId ∈ ((c.graph.removeInput peer.id).removeFromGroup peer.id).inputs ↔ _
      rw [inputs_of_onlyRouting hrouting, removeInput_inputs, ExtTreeMap.mem_erase,
        h.inputs play hplay]
      refine and_iff_right fun heq => ?_
      have hpeer := peer.notClip
      rw [LawfulEqCmp.compare_eq_iff_eq.mp heq, isClipInput_mixInputId] at hpeer
      cases hpeer
    · exact h.peers p (hp.imp (fun hmem => ((OrdMap.mem_erase _ _ _).mp hmem).2)
        fun hmem => ((OrdMap.mem_erase _ _ _).mp hmem).2)
    · obtain ⟨hne, hold⟩ := (OrdMap.mem_erase _ _ _).mp hp
      exact (OrdMap.mem_erase _ _ _).mpr ⟨hne, h.listed p hold⟩
  · exact h

theorem not_mem_unregisterPeer (c : Controller D) (p : ParticipantId) :
    p ∉ (c.unregisterPeer p).registered := by
  unfold Controller.unregisterPeer
  split
  · exact fun hmem => ((OrdMap.mem_erase _ _ _).mp hmem).1 rfl
  · next hnot => exact fun hmem => hnot (ExtTreeSet.contains_iff_mem.mpr hmem)

theorem Sound.trackClientIds (h : Sound c) {ids : List ParticipantId}
    (hids : ∀ id ∈ ids, isClipInput id = false) : Sound (c.trackClientIds ids) := by
  refine ⟨h.orderly, h.audible, h.inputs, fun p hp => ?_, fun p hp => ?_, h.targeted, h.unique⟩
  · rcases hp with hp | hp
    · exact h.peers p (.inl hp)
    · rcases (mem_foldl_insert ids c.knownClientIds p).mp hp with hid | hold
      · exact hids p hid
      · exact h.peers p (.inr hold)
  · exact (mem_foldl_insert ids c.knownClientIds p).mpr (.inr (h.listed p hp))

/-! ## Runs -/

/-- A newcomer's routes, and a route change, let through exactly the active clips that target the
listener; a play that starts, ends or loses a target meets the condition of its write. -/
def Respects (c : Controller D) : ClipEvent D → Prop
  | .registerPeer peer =>
    peer.id ∉ c.registered → FitRoute c.plays peer.id c.graph.listenerRoutes[peer.id]?
  | .disconnectPeer peer =>
    RoutesFit (c.unregisterPeer peer.id) ∧
      Throughout (Controller.peerLeftPlay peer.id) (KeepsTargets peer.id)
        (c.unregisterPeer peer.id) c.plays
  | .play playId targets sidecars position =>
    targets.any (c.usesMixPump sidecars) = true →
      (applyPlayPosition (c.graph.addInput (clipPlayInputId playId)) (clipPlayInputId playId)
        position).isSome → ∀ l ∈ c.registered, c.graph.listenerRoutes[l]? ≠ none ∨
          (∀ other ∈ c.plays, other.usesMixGraph = false) ∧
            (l ∈ targets ∨ ∃ p ∈ c.listRegisteredPeers, p ≠ l)
  | .stop playId | .clipEnded playId =>
    ∀ play, c.plays.find? (·.playId = playId) = some play → c.SparesTeardown play
  | .setListenerSources listener sources =>
    RoutesFit (c.setGraph (c.graph.setListenerSources listener.id (sources.map (·.id))))
  | .clearListenerRoutes listener =>
    RoutesFit (c.setGraph (c.graph.clearListenerRoutes listener.id))
  | .setGroupMembers groupId members =>
    RoutesFit (c.setGraph (c.graph.setGroupMembers groupId (members.map (·.id))))
  | .moveToGroup peer groupId => RoutesFit (c.setGraph (c.graph.moveToGroup peer.id groupId))
  | .removeFromGroup peer => RoutesFit (c.setGraph (c.graph.removeFromGroup peer.id))

theorem step_fits (h : Sound c) (hfit : RoutesFit c) {event : ClipEvent D}
    (hrespects : c.Respects event) {t : Controller D} {out : List Empty}
    (hs : c.step event = some (t, out)) : Sound t ∧ RoutesFit t := by
  cases event with
  | registerPeer peer =>
    cases hs
    exact ⟨h.registerPeer peer, registerPeer_fits hfit hrespects⟩
  | disconnectPeer peer =>
    cases hs
    refine onPeerDisconnected_keeps (h.unregisterPeer peer) hrespects.1
      (c.not_mem_unregisterPeer peer.id) ?_
    rw [unregisterPeer_plays]
    exact hrespects.2
  | play playId targets sidecars position =>
    rw [Controller.step] at hs
    split_ifs at hs with hfresh
    cases hs
    rw [Bool.or_eq_true, not_or] at hfresh
    exact h.play hfresh.1 hfresh.2 hfit hrespects
  | stop playId | clipEnded playId =>
    cases hs
    exact endPlay_keeps h hfit hrespects
  | setListenerSources listener sources =>
    cases hs
    refine ⟨h.reroute (h.orderly.setListenerSources listener.notClip fun id hid hclip => ?_)
      (c.graph.setListenerSources_onlyRouting _ _), hrespects⟩
    obtain ⟨peer, -, rfl⟩ := List.mem_map.mp hid
    rw [peer.notClip] at hclip
    cases hclip
  | clearListenerRoutes listener =>
    cases hs
    obtain ⟨g', hmirrors⟩ := h.orderly
    exact ⟨h.reroute ⟨_, hmirrors.clearListenerRoutes listener.id⟩ rfl, hrespects⟩
  | setGroupMembers groupId members =>
    cases hs
    have hmembers : ∀ id ∈ members.map (·.id), isClipInput id = false := fun id hid => by
      obtain ⟨peer, -, rfl⟩ := List.mem_map.mp hid
      exact peer.notClip
    have htracked := h.trackClientIds hmembers
    obtain ⟨g', hmirrors⟩ := htracked.orderly
    exact ⟨htracked.reroute ⟨_, hmirrors.setGroupMembers groupId hmembers⟩
      (c.graph.setGroupMembers_onlyRouting _ _), hrespects⟩
  | moveToGroup peer groupId =>
    cases hs
    have hids : ∀ id ∈ [peer.id], isClipInput id = false := fun id hid => by
      rw [List.mem_singleton.mp hid]
      exact peer.notClip
    have htracked := h.trackClientIds hids
    obtain ⟨g', hmirrors⟩ := htracked.orderly
    exact ⟨htracked.reroute ⟨_, hmirrors.moveToGroup peer.notClip groupId⟩
      (c.graph.moveToGroup_onlyRouting _ _), hrespects⟩
  | removeFromGroup peer =>
    cases hs
    obtain ⟨g', hmirrors⟩ := h.orderly
    exact ⟨h.reroute ⟨_, hmirrors.removeFromGroup peer.id⟩
      (c.graph.removeFromGroup_onlyRouting _), hrespects⟩

def clipForAnn : List (ClipEvent silentDsp) :=
  [.registerPeer ann, .registerPeer bob, .play "a" ["ann"] [] none]

/-- A clip for one of two peers, and a peer that joins while it plays. -/
def clipWhileJoining : List (ClipEvent silentDsp) :=
  [.registerPeer ann, .registerPeer bob, .play "a" ["ann"] [] none, .registerPeer carl]

end Controller

end NodeWebrtc.Clips
