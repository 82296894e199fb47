import NodeWebrtc.Clips.OwnRoutes
import NodeWebrtc.Lib.Trace
import Mathlib.Data.List.Nodup

/-! # What a clip leaves in the routes

A write of the controller keeps what a listener's list says about the peers, and makes a list for
a listener that had none: everyone registered at that moment. Nothing turns that list back into
an implicit route, unless all its peers leave. Where the controller writes only when every
registered listener has a list, or is alone, the routes without clips are those of the run without
clips.
-/

namespace NodeWebrtc.Clips

open Machine Mixer Std

variable {D : MixDsp} {K : ParticipantId → Prop} {g g' : MixGraph D}

/-- No registered listener hears everyone by default, except one that is alone. -/
def NoneImplicit (registered : List ParticipantId) (g : MixGraph D) : Prop :=
  ∀ l ∈ registered, g.listenerRoutes[l]?.isSome ∨ ∀ m ∈ registered, m = l

instance (registered : List ParticipantId) (g : MixGraph D) : Decidable (NoneImplicit registered g) :=
  inferInstanceAs (Decidable (∀ l ∈ registered, g.listenerRoutes[l]?.isSome ∨ ∀ m ∈ registered, m = l))

/-! ## One write -/

variable {l : ParticipantId}

theorem Mirrors.rewriteList (h : Mirrors K g g') (hl : isClipInput l = false)
    {sources : List ParticipantId}
    (hown : listOf (withoutClips (.ofList sources)) = ownRoute g.listenerRoutes[l]?)
    (hclips : ∀ id ∈ sources, isClipInput id = true → K id) :
    Mirrors K (g.setListenerSources l sources) g' := by
  have hframe := setListenerSources_frame g l sources
  refine h.reroute hframe.1 hframe.2 (fun p _ => ?_) (fun p hp => ?_) fun p => ?_
  · rw [setListenerSources_routes]
    split
    · next heq => rw [ownRoute_listOf, hown, heq]
    · rfl
  · rw [setListenerSources_routes, if_neg, (h.unlisted p hp).2]
    intro heq
    rw [heq, hl] at hp
    cases hp
  · rw [setListenerSources_routes]
    split
    · exact listed_listOf fun id hid => hclips id ((OrdMap.mem_ofList _ _).mp hid)
    · exact h.listed p

variable {mixInputId : ParticipantId}

theorem withoutClips_ofList_congr (hclip : isClipInput mixInputId = true)
    {sources : List ParticipantId} {a : ExtTreeSet ParticipantId}
    (h : ∀ id, id ≠ mixInputId → (id ∈ sources ↔ id ∈ a)) :
    listOf (withoutClips (.ofList sources)) = listOf (withoutClips a) := by
  apply listOf_congr
  intro id
  rw [mem_withoutClips, mem_withoutClips, OrdMap.mem_ofList]
  constructor
  · intro hid
    have hne : id ≠ mixInputId := fun heq => by
      rw [heq, hclip] at hid
      cases hid.2
    exact ⟨(h id hne).mp hid.1, hid.2⟩
  · intro hid
    have hne : id ≠ mixInputId := fun heq => by
      rw [heq, hclip] at hid
      cases hid.2
    exact ⟨(h id hne).mpr hid.1, hid.2⟩

variable {registered : List ParticipantId}

theorem Mirrors.applyToListener (h : Mirrors K g g') (hclip : isClipInput mixInputId = true)
    (hK : K mixInputId) (targets : List ParticipantId) (hl : isClipInput l = false)
    (hlisted : g.listenerRoutes[l]?.isSome ∨ ∀ m ∈ registered, m = l) :
    Mirrors K (applyToListener registered mixInputId targets g l) g' := by
  -- the base has the listener's own part, and no clip input but the listed ones
  have hbase : ∃ a : ExtTreeSet ParticipantId, (∀ id, id ∈ baseSources registered g l ↔ id ∈ a) ∧
      ownRoute g.listenerRoutes[l]? = listOf (withoutClips a) ∧
      ∀ id ∈ a, isClipInput id = true → K id := by
    unfold baseSources
    cases hroute : g.listenerRoutes[l]? with
    | some a => exact ⟨a, fun id => ExtTreeSet.mem_toList, rfl, (h.listed l a hroute).2⟩
    | none =>
      rw [hroute] at hlisted
      have halone := hlisted.resolve_left Bool.false_ne_true
      refine ⟨∅, fun id => ?_, ?_, fun id hid => by simp at hid⟩
      · rw [List.mem_filter, decide_eq_true_eq]
        exact ⟨fun hid => absurd (halone id hid.1) hid.2, fun hid => by simp at hid⟩
      · rw [withoutClips_empty]
        exact (listOf_eq_none.mpr (by simp)).symm
  obtain ⟨a, hmem, hown, hclips⟩ := hbase
  unfold Clips.applyToListener
  dsimp only
  split
  · refine h.rewriteList hl ?_ fun id hid hid' => ?_
    · rw [hown]
      refine withoutClips_ofList_congr hclip fun id hne => ?_
      rw [← hmem id]
      split
      · exact Iff.rfl
      · simp [hne]
    · split at hid
      · exact hclips id ((hmem id).mp hid) hid'
      · rcases List.mem_append.mp hid with hold | hnew
        · exact hclips id ((hmem id).mp hold) hid'
        · rw [List.mem_singleton.mp hnew]
          exact hK
  · split
    · refine h.rewriteList hl ?_ fun id hid hid' => ?_
      · rw [hown]
        refine withoutClips_ofList_congr hclip fun id hne => ?_
        rw [← hmem id]
        simp [hne]
      · exact hclips id ((hmem id).mp (List.mem_of_mem_filter hid)) hid'
    · exact h

theorem applyToListener_other (registered : List ParticipantId) (mixInputId : ParticipantId)
    (targets : List ParticipantId) (g : MixGraph D) {p : ParticipantId} (hne : p ≠ l) :
    (applyToListener registered mixInputId targets g l).listenerRoutes[p]? =
      g.listenerRoutes[p]? := by
  unfold applyToListener
  dsimp only
  split
  · rw [setListenerSources_routes, if_neg hne]
  · split
    · rw [setListenerSources_routes, if_neg hne]
    · rfl

theorem Mirrors.applyTargetPlayRoutes (h : Mirrors K g g') (hclip : isClipInput mixInputId = true)
    (hK : K mixInputId) (targets : List ParticipantId)
    (hpeers : ∀ l ∈ registered, isClipInput l = false) (hnodup : registered.Nodup)
    (hlisted : NoneImplicit registered g) :
    Mirrors K (applyTargetPlayRoutes g registered mixInputId targets) g' := by
  suffices hloop : ∀ (ls : List ParticipantId) (t : MixGraph D), ls.Nodup →
      (∀ l ∈ ls, isClipInput l = false) →
      (∀ l ∈ ls, t.listenerRoutes[l]?.isSome ∨ ∀ m ∈ registered, m = l) → Mirrors K t g' →
      Mirrors K (ls.foldl (Clips.applyToListener registered mixInputId targets) t) g' from
    hloop registered g hnodup hpeers hlisted h
  intro ls
  induction ls with
  | nil => exact fun _ _ _ _ ht => ht
  | cons l ls ih =>
    intro t hnodup hpeers hlisted ht
    obtain ⟨hfresh, hrest⟩ := List.nodup_cons.mp hnodup
    refine ih _ hrest (fun m hm => hpeers m (List.mem_cons_of_mem _ hm)) (fun m hm => ?_)
      (ht.applyToListener hclip hK targets (hpeers l List.mem_cons_self)
        (hlisted l List.mem_cons_self))
    rw [applyToListener_other]
    · exact hlisted m (List.mem_cons_of_mem _ hm)
    · exact fun heq => hfresh (heq ▸ hm)

theorem Mirrors.removePlayMixInputFromRoutes (h : Mirrors K g g')
    (hclip : isClipInput mixInputId = true) (hpeers : ∀ l ∈ registered, isClipInput l = false) :
    Mirrors K (removePlayMixInputFromRoutes registered mixInputId g) g' := by
  induction registered generalizing g with
  | nil => exact h
  | cons l registered ih =>
    refine ih ?_ fun m hm => hpeers m (List.mem_cons_of_mem _ hm)
    unfold stripListener
    cases hroute : g.listenerRoutes[l]? with
    | none => exact h
    | some current =>
      dsimp only
      split
      · refine h.rewriteList (hpeers l List.mem_cons_self) ?_ fun id hid hid' => ?_
        · rw [hroute]
          refine withoutClips_ofList_congr hclip fun id hne => ?_
          simp [hne]
        · refine (h.listed l current hroute).2 id ?_ hid'
          exact ExtTreeSet.mem_toList.mp (List.mem_of_mem_filter hid)
      · exact h

/-! ## The controller against a run without clips -/

namespace Controller

variable {c c' : Controller D}

def Active (c : Controller D) (id : ParticipantId) : Prop :=
  ∃ play ∈ c.plays, play.usesMixGraph = true ∧ play.mixInputId = id

structure Kept (c c' : Controller D) : Prop where
  mirrors : Mirrors c.Active c.graph c'.graph
  registered : c'.registered = c.registered
  known : c'.knownClientIds = c.knownClientIds
  peers : ∀ p, p ∈ c.registered ∨ p ∈ c.knownClientIds → isClipInput p = false
  unique : (c.plays.map (·.playId)).Nodup
  silent : c'.plays = []

theorem kept_new : Kept (Controller.new D) (Controller.new D) where
  mirrors := mirrors_new
  registered := rfl
  known := rfl
  peers := fun p hp => by
    rcases hp with hp | hp <;> exact absurd hp ExtTreeSet.not_mem_empty
  unique := List.nodup_nil
  silent := rfl

theorem mem_listRegisteredPeers {p : ParticipantId} (h : p ∈ c.listRegisteredPeers) :
    p ∈ c.registered ∨ p ∈ c.knownClientIds := by
  unfold listRegisteredPeers at h
  split at h
  · exact .inl (ExtTreeSet.mem_toList.mp h)
  · exact .inr (ExtTreeSet.mem_toList.mp h)

theorem nodup_listRegisteredPeers (c : Controller D) : c.listRegisteredPeers.Nodup := by
  have hset : ∀ s : ExtTreeSet ParticipantId, s.toList.Nodup := fun s =>
    s.distinct_toList.imp fun hne heq => hne (by rw [heq]; exact compare_self)
  unfold listRegisteredPeers
  split <;> exact hset _

theorem Kept.peersOfList (h : Kept c c') : ∀ l ∈ c.listRegisteredPeers, isClipInput l = false :=
  fun l hl => h.peers l (mem_listRegisteredPeers hl)

variable {g : MixGraph D}

theorem Kept.setPlays (h : Kept c c') {plays : List ActivePlay}
    (hmirrors : Mirrors (fun id => ∃ play ∈ plays, play.usesMixGraph = true ∧ play.mixInputId = id)
      g c'.graph) (hunique : (plays.map (·.playId)).Nodup) :
    Kept { c with graph := g, plays := plays } c' :=
  ⟨hmirrors, h.registered, h.known, h.peers, hunique, h.silent⟩

/-! ## Clip events -/

/-- The writes of the remaining plays find a list for every registered listener. -/
def SparesWrites (registered : List ParticipantId) (g : MixGraph D) (plays : List ActivePlay) : Prop :=
  Throughout (reapplyPlayRoutes registered)
    (fun g play => play.usesMixGraph = true → NoneImplicit registered g) g plays

theorem Kept.reapplyPlayRoutes (h : Kept c c') (play : ActivePlay)
    (hactive : play.usesMixGraph = true → c.Active play.mixInputId)
    (hspares : play.usesMixGraph = true → NoneImplicit c.listRegisteredPeers c.graph) :
    Kept { c with graph := reapplyPlayRoutes c.listRegisteredPeers c.graph play } c' := by
  refine h.setPlays ?_ h.unique
  unfold Clips.reapplyPlayRoutes
  split
  · next huses =>
    exact h.mirrors.applyTargetPlayRoutes (isClipInput_clipPlayInputId _) (hactive huses) _
      h.peersOfList c.nodup_listRegisteredPeers (hspares huses)
  · exact h.mirrors

theorem Kept.reapplyPlays (h : Kept c c')
    (hspares : SparesWrites c.listRegisteredPeers c.graph c.plays) : Kept c.reapplyPlays c' := by
  refine h.setPlays ?_ h.unique
  suffices hloop : ∀ (plays : List ActivePlay) (g : MixGraph D), (∀ play ∈ plays, play ∈ c.plays) →
      SparesWrites c.listRegisteredPeers g plays → Mirrors c.Active g c'.graph →
      Mirrors c.Active (plays.foldl (Clips.reapplyPlayRoutes c.listRegisteredPeers) g) c'.graph from
    hloop c.plays c.graph (fun _ hplay => hplay) hspares h.mirrors
  intro plays
  induction plays with
  | nil => exact fun _ _ _ hg => hg
  | cons play plays ih =>
    intro g hmem hspares hg
    have hplay := Kept.reapplyPlayRoutes (c := { c with graph := g })
      ⟨hg, h.registered, h.known, h.peers, h.unique, h.silent⟩ play (fun huses => ⟨play, hmem play List.mem_cons_self, huses, rfl⟩) hspares.1
    exact ih _ (fun other hother => hmem other (List.mem_cons_of_mem _ hother)) hspares.2
      hplay.mirrors

/-- The active play with this id uses the graph as `play` does. -/
def Tracks (c : Controller D) (play : ActivePlay) : Prop :=
  ∀ other ∈ c.plays, other.playId = play.playId → other.usesMixGraph = play.usesMixGraph

theorem tracks_of_mem (hunique : (c.plays.map (·.playId)).Nodup) {play : ActivePlay}
    (hplay : play ∈ c.plays) : c.Tracks play := by
  intro other hother heq
  rw [List.inj_on_of_nodup_map hunique hother hplay heq]

theorem Kept.dropPlay (h : Kept c c') {play : ActivePlay} (htracks : c.Tracks play) :
    Kept (c.dropPlay play) c' := by
  have hunique : ((c.plays.filter (·.playId ≠ play.playId)).map (·.playId)).Nodup :=
    h.unique.sublist (List.filter_sublist.map _)
  refine h.setPlays ?_ hunique
  -- an active input other than the one of `play` stays active
  have hstays : ∀ other ∈ c.plays, other.playId ≠ play.playId →
      other ∈ c.plays.filter (·.playId ≠ play.playId) := fun other hother hne =>
    List.mem_filter.mpr ⟨hother, decide_eq_true hne⟩
  split
  · have hclip := isClipInput_clipPlayInputId play.playId
    refine ((h.mirrors.removePlayMixInputFromRoutes hclip h.peersOfList).removeClip hclip).mono ?_
    intro id hid
    obtain ⟨⟨other, hother, huses, rfl⟩, hne⟩ := hid
    exact ⟨other, hstays other hother fun heq => hne (by rw [ActivePlay.mixInputId, heq]), huses, rfl⟩
  · next hnot =>
    refine h.mirrors.mono ?_
    intro id hid
    obtain ⟨other, hother, huses, rfl⟩ := hid
    refine ⟨other, hstays other hother fun heq => hnot ?_, huses, rfl⟩
    rw [← htracks other hother heq]
    exact huses

theorem Kept.teardownPlay (h : Kept c c') {play : ActivePlay} (htracks : c.Tracks play)
    (hspares : play.usesMixGraph = true →
      SparesWrites c.listRegisteredPeers (c.dropPlay play).graph (c.dropPlay play).plays) :
    Kept (c.teardownPlay play) c' := by
  unfold Controller.teardownPlay
  split
  · next huses => exact (h.dropPlay htracks).reapplyPlays (hspares huses)
  · exact h.dropPlay htracks

theorem Kept.endPlay (h : Kept c c') {playId : PlayId}
    (hspares : ∀ play, c.plays.find? (·.playId = playId) = some play → play.usesMixGraph = true →
      SparesWrites c.listRegisteredPeers (c.dropPlay play).graph (c.dropPlay play).plays) :
    Kept (c.endPlay playId) c' := by
  unfold Controller.endPlay
  cases hfind : c.plays.find? (·.playId = playId) with
  | none => exact h
  | some play =>
    exact h.teardownPlay (tracks_of_mem h.unique (List.mem_of_find?_eq_some hfind))
      (hspares play hfind)

theorem applyPlayPosition_sameRouting {t : MixGraph D} {id : ParticipantId}
    {position : Option (AudioPosition D)} (h : applyPlayPosition g id position = some t) :
    g.SameRouting t := by
  unfold applyPlayPosition at h
  split at h
  · cases h
    exact ⟨rfl, rfl, rfl⟩
  · split at h <;> cases h
    · exact ⟨rfl, rfl, rfl⟩
    · exact ⟨rfl, rfl, rfl⟩
    · exact ⟨rfl, rfl, rfl⟩

theorem Kept.play (h : Kept c c') {playId : PlayId} (hfresh : ¬c.plays.any (·.playId = playId))
    {targets sidecars : List ParticipantId} {position : Option (AudioPosition D)}
    (hspares : targets.any (c.usesMixPump sidecars) = true →
      (applyPlayPosition (c.graph.addInput (clipPlayInputId playId)) (clipPlayInputId playId)
        position).isSome →
      NoneImplicit c.listRegisteredPeers c.graph) :
    Kept (c.play playId targets sidecars position) c' := by
  have hunique : ∀ uses : Bool,
      ((c.plays ++ [(⟨playId, targets, uses⟩ : ActivePlay)]).map (·.playId)).Nodup := fun uses => by
    rw [List.map_append, List.nodup_append]
    refine ⟨h.unique, List.nodup_singleton _, fun a ha b hb heq => hfresh ?_⟩
    rw [List.map_singleton, List.mem_singleton] at hb
    obtain ⟨play, hplay, rfl⟩ := List.mem_map.mp ha
    rw [List.any_eq_true]
    exact ⟨play, hplay, decide_eq_true (heq.trans hb)⟩
  -- what was active stays active
  have hmono : ∀ uses id, c.Active id →
      ∃ play ∈ c.plays ++ [(⟨playId, targets, uses⟩ : ActivePlay)],
        play.usesMixGraph = true ∧ play.mixInputId = id := fun uses id hid => by
    obtain ⟨play, hplay, huses⟩ := hid
    exact ⟨play, List.mem_append_left _ hplay, huses⟩
  unfold Controller.play
  dsimp only
  split
  · next huses =>
    cases hposition : applyPlayPosition (c.graph.addInput (clipPlayInputId playId))
      (clipPlayInputId playId) position with
    | none => exact h.setPlays (h.mirrors.sameLeft ⟨rfl, rfl, rfl⟩) h.unique
    | some g =>
      have hsame := applyPlayPosition_sameRouting hposition
      have hsame' : c.graph.SameRouting g := ⟨hsame.routes, hsame.groups, hsame.entries⟩
      refine h.setPlays ?_ (hunique true)
      refine ((h.mirrors.sameLeft hsame').mono (hmono true)).applyTargetPlayRoutes
        (isClipInput_clipPlayInputId _)
        ⟨_, List.mem_append_right _ (List.mem_singleton_self _), rfl, rfl⟩ targets h.peersOfList c.nodup_listRegisteredPeers ?_
      intro l hl
      rw [hsame'.routes]
      exact hspares huses (by rw [hposition]; rfl) l hl
  · exact h.setPlays (h.mirrors.mono (hmono false)) (hunique false)

/-! ## A peer that leaves -/

/-- The condition of one round of `onPeerDisconnected`. -/
def SparesLeft (peerId : ParticipantId) (c : Controller D) (play : ActivePlay) : Prop :=
  let left := withoutTarget play peerId
  peerId ∈ play.targetPeerIds → play.usesMixGraph = true →
    if left.targetPeerIds.isEmpty then
      SparesWrites c.listRegisteredPeers ((c.setPlay left).dropPlay left).graph
        ((c.setPlay left).dropPlay left).plays
    else NoneImplicit c.listRegisteredPeers c.graph

theorem setPlay_map_playId (c : Controller D) (play : ActivePlay) :
    (c.setPlay play).plays.map (·.playId) = c.plays.map (·.playId) := by
  show (c.plays.map _).map _ = _
  rw [List.map_map]
  refine List.map_congr_left fun other _ => ?_
  show (if other.playId = play.playId then play else other).playId = other.playId
  split
  · next heq => exact heq.symm
  · rfl

/-- The play is active; another one may have replaced its targets. -/
def Holds (c : Controller D) (play : ActivePlay) : Prop :=
  ∃ other ∈ c.plays, other.playId = play.playId ∧ other.usesMixGraph = play.usesMixGraph

theorem Holds.tracks {play : ActivePlay} (h : c.Holds play)
    (hunique : (c.plays.map (·.playId)).Nodup) : c.Tracks play := by
  obtain ⟨held, hheld, hid, huses⟩ := h
  intro other hother heq
  rw [← huses]
  exact tracks_of_mem hunique hheld other hother (heq.trans hid.symm)

theorem holds_setPlay {play other : ActivePlay} (h : c.Holds other)
    (huses : other.playId = play.playId → other.usesMixGraph = play.usesMixGraph) :
    (c.setPlay play).Holds other := by
  obtain ⟨held, hheld, hid, hsame⟩ := h
  refine ⟨_, List.mem_map_of_mem hheld, ?_⟩
  by_cases heq : held.playId = play.playId
  · rw [if_pos heq]
    exact ⟨heq.symm.trans hid, (huses (hid.symm.trans heq)).symm⟩
  · rw [if_neg heq]
    exact ⟨hid, hsame⟩

theorem holds_teardownPlay {play other : ActivePlay} (h : c.Holds other)
    (hne : other.playId ≠ play.playId) : (c.teardownPlay play).Holds other := by
  obtain ⟨held, hheld, hid, hsame⟩ := h
  have hmem : held ∈ (c.teardownPlay play).plays := by
    have hkept : held ∈ c.plays.filter (·.playId ≠ play.playId) :=
      List.mem_filter.mpr ⟨hheld, decide_eq_true fun heq => hne (hid.symm.trans heq)⟩
    unfold Controller.teardownPlay
    split <;> exact hkept
  exact ⟨held, hmem, hid, hsame⟩

theorem Kept.setPlay (h : Kept c c') {play : ActivePlay} (hholds : c.Holds play) :
    Kept (c.setPlay play) c' := by
  have htracks := hholds.tracks h.unique
  refine h.setPlays (h.mirrors.mono fun id hid => ?_) ?_
  · obtain ⟨other, hother, huses, rfl⟩ := hid
    refine ⟨_, List.mem_map_of_mem hother, ?_⟩
    by_cases heq : other.playId = play.playId
    · rw [if_pos heq]
      refine ⟨?_, ?_⟩
      · rw [← htracks other hother heq]
        exact huses
      · rw [ActivePlay.mixInputId, ActivePlay.mixInputId, heq]
    · rw [if_neg heq]
      exact ⟨huses, rfl⟩
  · have hsame := setPlay_map_playId c play
    unfold Controller.setPlay at hsame
    rw [hsame]
    exact h.unique

variable {peerId : ParticipantId}

theorem Kept.peerLeftPlay (h : Kept c c') {play : ActivePlay} (hholds : c.Holds play)
    (hspares : SparesLeft peerId c play) :
    Kept (peerLeftPlay peerId c play) c' := by
  have hleft : c.Holds (withoutTarget play peerId) := hholds
  have hset := h.setPlay hleft
  have hstill : (c.setPlay (withoutTarget play peerId)).Holds (withoutTarget play peerId) :=
    holds_setPlay hleft fun _ => rfl
  unfold Controller.peerLeftPlay
  split
  · exact h
  · next hmem =>
    have hcond := hspares (by simpa using hmem)
    dsimp only at hcond ⊢
    split
    · next hempty =>
      refine hset.teardownPlay (hstill.tracks hset.unique) fun huses => ?_
      have hwrites := hcond huses
      rwa [if_pos hempty] at hwrites
    · next hsome =>
      refine hset.reapplyPlayRoutes _ (fun huses => ?_) fun huses => ?_
      · obtain ⟨held, hheld, hid, hsame⟩ := hstill
        refine ⟨held, hheld, hsame.trans huses, ?_⟩
        rw [ActivePlay.mixInputId, ActivePlay.mixInputId, hid]
      · have hwrites := hcond huses
        rwa [if_neg hsome] at hwrites

theorem holds_peerLeftPlay {play other : ActivePlay} (h : c.Holds other)
    (hne : other.playId ≠ play.playId) : (c.peerLeftPlay peerId play).Holds other := by
  have hset : (c.setPlay (withoutTarget play peerId)).Holds other :=
    holds_setPlay h fun heq => absurd heq hne
  unfold Controller.peerLeftPlay
  split
  · exact h
  · dsimp only
    split
    · exact holds_teardownPlay hset hne
    · exact hset

theorem Kept.onPeerDisconnected (h : Kept c c')
    (hspares : Throughout (Controller.peerLeftPlay peerId) (SparesLeft peerId) c c.plays) :
    Kept (c.onPeerDisconnected peerId) c' := by
  suffices hloop : ∀ (plays : List ActivePlay) (t : Controller D), (plays.map (·.playId)).Nodup →
      (∀ play ∈ plays, t.Holds play) →
      Throughout (Controller.peerLeftPlay peerId) (SparesLeft peerId) t plays → Kept t c' →
      Kept (plays.foldl (Controller.peerLeftPlay peerId) t) c' from
    hloop c.plays c h.unique (fun play hplay => ⟨play, hplay, rfl, rfl⟩) hspares h
  intro plays
  induction plays with
  | nil => exact fun _ _ _ _ ht => ht
  | cons play plays ih =>
    intro t hunique hholds hspares ht
    rw [List.map_cons, List.nodup_cons] at hunique
    refine ih _ hunique.2 (fun other hother => ?_) hspares.2
      (ht.peerLeftPlay (hholds play List.mem_cons_self) hspares.1)
    refine holds_peerLeftPlay (hholds other (List.mem_cons_of_mem _ hother)) fun heq => ?_
    exact hunique.1 (heq ▸ List.mem_map_of_mem hother)

/-! ## Peer events -/

theorem Kept.registerPeer (h : Kept c c') (peer : PeerId) :
    Kept (c.registerPeer peer.id) (c'.registerPeer peer.id) := by
  unfold Controller.registerPeer
  rw [h.registered]
  split
  · exact h
  · refine ⟨h.mirrors.same ⟨rfl, rfl, rfl⟩ ⟨rfl, rfl, rfl⟩, rfl, ?_, fun p hp => ?_, h.unique, h.silent⟩
    · show c'.knownClientIds.insert peer.id = c.knownClientIds.insert peer.id
      rw [h.known]
    · rcases hp with hp | hp
      · rcases (OrdMap.mem_insert _ _ _).mp hp with rfl | hold
        · exact peer.notClip
        · exact h.peers p (.inl hold)
      · rcases (OrdMap.mem_insert _ _ _).mp hp with rfl | hold
        · exact peer.notClip
        · exact h.peers p (.inr hold)

theorem Kept.unregisterPeer (h : Kept c c') (peerId : ParticipantId) :
    Kept (c.unregisterPeer peerId) (c'.unregisterPeer peerId) := by
  unfold Controller.unregisterPeer
  rw [h.registered]
  split
  · refine ⟨(h.mirrors.removeInput peerId).removeFromGroup peerId, rfl, ?_, fun p hp => ?_, h.unique,
      h.silent⟩
    · show c'.knownClientIds.erase peerId = c.knownClientIds.erase peerId
      rw [h.known]
    · refine h.peers p (hp.imp (fun hmem => ?_) fun hmem => ?_)
      all_goals exact ((OrdMap.mem_erase _ _ _).mp hmem).2
  · exact h

theorem mem_foldl_insert (ids : List ParticipantId) (s : ExtTreeSet ParticipantId)
    (p : ParticipantId) : p ∈ ids.foldl (·.insert ·) s ↔ p ∈ ids ∨ p ∈ s := by
  induction ids generalizing s with
  | nil => simp
  | cons id ids ih =>
    rw [List.foldl_cons, ih, OrdMap.mem_insert, List.mem_cons]
    tauto

theorem Kept.regroup (h : Kept c c') {ids : List ParticipantId}
    (hids : ∀ id ∈ ids, isClipInput id = false) {g' : MixGraph D} (hmirrors : Mirrors c.Active g g')
    :
    Kept ((c.trackClientIds ids).setGraph g) ((c'.trackClientIds ids).setGraph g') := by
  refine ⟨hmirrors, h.registered, ?_, fun p hp => ?_, h.unique, h.silent⟩
  · show ids.foldl (·.insert ·) c'.knownClientIds = ids.foldl (·.insert ·) c.knownClientIds
    rw [h.known]
  · rcases hp with hp | hp
    · exact h.peers p (.inl hp)
    · rcases (mem_foldl_insert ids c.knownClientIds p).mp hp with hid | hold
      · exact hids p hid
      · exact h.peers p (.inr hold)

theorem Kept.setGraph (h : Kept c c') {g' : MixGraph D} (hmirrors : Mirrors c.Active g g') :
    Kept (c.setGraph g) (c'.setGraph g') :=
  ⟨hmirrors, h.registered, h.known, h.peers, h.unique, h.silent⟩

/-! ## Runs -/

/-- The controller writes only when every registered listener has a list, or is alone. -/
def Meets (c : Controller D) : ClipEvent D → Prop
  | .play playId targets sidecars position =>
    targets.any (c.usesMixPump sidecars) = true →
      (applyPlayPosition (c.graph.addInput (clipPlayInputId playId)) (clipPlayInputId playId)
        position).isSome →
      NoneImplicit c.listRegisteredPeers c.graph
  | .stop playId | .clipEnded playId =>
    ∀ play, c.plays.find? (·.playId = playId) = some play → play.usesMixGraph = true →
      SparesWrites c.listRegisteredPeers (c.dropPlay play).graph (c.dropPlay play).plays
  | .disconnectPeer peer =>
    Throughout (peerLeftPlay peer.id) (SparesLeft peer.id) (c.unregisterPeer peer.id) c.plays
  | _ => True

end Controller

def ClipEvent.ofClip : ClipEvent D → Bool
  | .play .. | .stop _ | .clipEnded _ => true
  | _ => false

namespace Controller

variable {c c' : Controller D}

theorem unregisterPeer_plays (c : Controller D) (peerId : ParticipantId) :
    (c.unregisterPeer peerId).plays = c.plays := by
  unfold unregisterPeer
  split <;> rfl

theorem Kept.step (h : Kept c c') {event : ClipEvent D} (hmeets : c.Meets event) {t : Controller D}
    {out : List Empty} (hs : c.step event = some (t, out)) :
    ∃ t', run Controller.step c' ([event].filter fun e => !e.ofClip) = some (t', []) ∧ Kept t t' := by
  cases event with
  | registerPeer peer =>
    cases hs
    exact ⟨_, rfl, h.registerPeer peer⟩
  | disconnectPeer peer =>
    cases hs
    have hleft := h.unregisterPeer peer.id
    refine ⟨_, rfl, ?_⟩
    have hsilent : (c'.unregisterPeer peer.id).onPeerDisconnected peer.id =
        c'.unregisterPeer peer.id := by
      unfold Controller.onPeerDisconnected
      rw [hleft.silent]
      rfl
    rw [hsilent]
    refine hleft.onPeerDisconnected ?_
    rw [unregisterPeer_plays]
    exact hmeets
  | play playId targets sidecars position =>
    rw [Controller.step] at hs
    split_ifs at hs with hfresh
    cases hs
    rw [Bool.or_eq_true, not_or] at hfresh
    exact ⟨c', rfl, h.play hfresh.1 hmeets⟩
  | stop playId | clipEnded playId =>
    cases hs
    exact ⟨c', rfl, h.endPlay hmeets⟩
  | setListenerSources listener sources =>
    cases hs
    refine ⟨_, rfl, h.setGraph (h.mirrors.setListenerSources listener.notClip fun id hid => ?_)⟩
    obtain ⟨peer, -, rfl⟩ := List.mem_map.mp hid
    exact peer.notClip
  | clearListenerRoutes listener =>
    cases hs
    exact ⟨_, rfl, h.setGraph (h.mirrors.clearListenerRoutes listener.id)⟩
  | setGroupMembers groupId members =>
    cases hs
    have hmembers : ∀ id ∈ members.map (·.id), isClipInput id = false := fun id hid => by
      obtain ⟨peer, -, rfl⟩ := List.mem_map.mp hid
      exact peer.notClip
    exact ⟨_, rfl, h.regroup hmembers (h.mirrors.setGroupMembers groupId hmembers)⟩
  | moveToGroup peer groupId =>
    cases hs
    refine ⟨_, rfl, h.regroup (fun id hid => ?_) (h.mirrors.moveToGroup peer.notClip groupId)⟩
    rw [List.mem_singleton.mp hid]
    exact peer.notClip
  | removeFromGroup peer =>
    cases hs
    exact ⟨_, rfl, h.setGraph (h.mirrors.removeFromGroup peer.id)⟩

theorem Kept.sameRoutes (h : Kept c c') (hidle : c.plays = []) (l : ParticipantId) :
    c.graph.listenerRoutes[l]? = c'.graph.listenerRoutes[l]? := by
  rw [h.mirrors.routes]
  refine (Listed.own fun sources hl => ?_).symm
  obtain ⟨hempty, hclips⟩ := h.mirrors.listed l sources hl
  refine ⟨hempty, fun id hid hclip => ?_⟩
  obtain ⟨play, hplay, -⟩ := hclips id hid hclip
  rw [hidle] at hplay
  cases hplay

/-- Clip playback leaves the routes as the run without clips has them. -/
theorem clips_leave_routes (events : List (ClipEvent D)) (c : Controller D) (out : List Empty)
    (hrun : run step (Controller.new D) events = some (c, out))
    (hmeets : Along step Meets (Controller.new D) events) :
    ∃ c', run step (Controller.new D) (events.filter fun e => !e.ofClip) = some (c', []) ∧
      (c.plays = [] → ∀ l : ParticipantId, c.graph.listenerRoutes[l]? = c'.graph.listenerRoutes[l]?) := by
  have hkept := run_history (C := Meets)
    (I := fun fed _ s => ∃ s', run step (Controller.new D) (fed.filter fun e => !e.ofClip) =
      some (s', []) ∧ Kept s s')
    (fun fed _ s event t out hi hmeets hs => by
      obtain ⟨s', hrun', hkept⟩ := hi
      obtain ⟨t', hstep', hkept'⟩ := hkept.step hmeets hs
      refine ⟨t', ?_, hkept'⟩
      rw [List.filter_append, run_append_eq_some]
      exact ⟨s', [], [], hrun', hstep', rfl⟩)
    ⟨_, rfl, kept_new⟩ hmeets hrun
  obtain ⟨c', hrun', hkept⟩ := hkept
  exact ⟨c', hrun', hkept.sameRoutes⟩

def ann : PeerId := ⟨"ann", rfl⟩

def bob : PeerId := ⟨"bob", rfl⟩

def carl : PeerId := ⟨"carl", rfl⟩

/-- A targeted clip in a mix group: every member has a list. -/
def groupedClip : List (ClipEvent silentDsp) :=
  [.registerPeer ann, .registerPeer bob, .setGroupMembers "room" [ann, bob],
    .play "a" ["ann"] [] none, .clipEnded "a"]

theorem clips_leave_routes_grouped :
    ∃ c c', run step (Controller.new silentDsp) groupedClip = some (c, []) ∧
      run step (Controller.new silentDsp) (groupedClip.filter fun e => !e.ofClip) = some (c', []) ∧
      (c.plays = [] → ∀ l : ParticipantId,
        c.graph.listenerRoutes[l]? = c'.graph.listenerRoutes[l]?) := by
  have hmeets : Along step Meets (Controller.new silentDsp) groupedClip := by
    refine .cons trivial rfl (.cons trivial rfl (.cons trivial rfl (.cons ?_ rfl (.cons ?_ rfl
      trivial))))
    · exact fun _ _ => by decide +kernel
    · intro play hplay _
      cases hplay
      exact trivial
  obtain ⟨c', hrun', hsame⟩ := clips_leave_routes groupedClip _ [] rfl hmeets
  exact ⟨_, c', rfl, hrun', hsame⟩

/-- A clip for one of two peers, and a peer that joins afterwards. -/
def clipThenJoin : List (ClipEvent silentDsp) :=
  [.registerPeer ann, .registerPeer bob, .play "a" ["ann"] [] none, .clipEnded "a",
    .registerPeer carl]

/-- The two keep the lists they got for the clip and do not hear the newcomer. -/
theorem clip_pins_routes :
    ∃ c c', run step (Controller.new silentDsp) clipThenJoin = some (c, []) ∧
      run step (Controller.new silentDsp) (clipThenJoin.filter fun e => !e.ofClip) = some (c', []) ∧
      c.plays = [] ∧ (∀ l : ParticipantId, c'.graph.listenerRoutes[l]? = none) ∧
      c.graph.listenerRoutes["ann"]?.map (·.toList) = some ["bob"] ∧
      c.graph.mixes "ann" "carl" = false ∧ c'.graph.mixes "ann" "carl" = true := by
  refine ⟨_, _, rfl, rfl, rfl, fun l => ?_, by decide +kernel, by decide +kernel, by decide +kernel⟩
  exact ExtTreeMap.getElem?_empty

end Controller

end NodeWebrtc.Clips
