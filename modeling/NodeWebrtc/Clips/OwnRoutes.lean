import NodeWebrtc.Clips.Controller
import NodeWebrtc.Mixer.AllowList

/-! # Routes without the clip inputs

What a listener's route says about the other peers: its list without the clip inputs, and no list
when nothing remains. Every operation on peers and groups acts on that part as if the clip inputs
were not there.
-/

namespace NodeWebrtc.Clips

open Mixer Std

variable {D : MixDsp}

/-! ## Lists -/

def listOf (sources : ExtTreeSet ParticipantId) : Option (ExtTreeSet ParticipantId) :=
  if sources.isEmpty then none else some sources

def withoutClips (sources : ExtTreeSet ParticipantId) : ExtTreeSet ParticipantId :=
  sources.filter fun id => !isClipInput id

def ownRoute (route : Option (ExtTreeSet ParticipantId)) : Option (ExtTreeSet ParticipantId) :=
  route.bind fun sources => listOf (withoutClips sources)

theorem mem_withoutClips (sources : ExtTreeSet ParticipantId) (id : ParticipantId) :
    id ∈ withoutClips sources ↔ id ∈ sources ∧ isClipInput id = false := by
  rw [withoutClips, ExtTreeSet.mem_filter]
  constructor
  · intro h
    obtain ⟨hmem, hkeep⟩ := h
    rw [ExtTreeSet.get_eq, Bool.not_eq_true'] at hkeep
    exact ⟨hmem, hkeep⟩
  · intro h
    refine ⟨h.1, ?_⟩
    rw [ExtTreeSet.get_eq, h.2]
    rfl

variable {a : ExtTreeSet ParticipantId}

theorem listOf_congr {b : ExtTreeSet ParticipantId} (h : ∀ id, id ∈ a ↔ id ∈ b) :
    listOf a = listOf b :=
  congrArg listOf (ExtTreeSet.ext_mem h)

theorem listOf_eq_some {b : ExtTreeSet ParticipantId} (h : listOf a = some b) :
    a = b ∧ b.isEmpty = false := by
  unfold listOf at h
  split_ifs at h with hempty
  cases h
  exact ⟨rfl, eq_false_of_ne_true hempty⟩

theorem listOf_eq_none : listOf a = none ↔ ∀ id, id ∉ a := by
  have hempty : a.isEmpty = true ↔ ∀ id, id ∉ a := by
    rw [← ExtTreeSet.isEmpty_toList, List.isEmpty_iff, List.eq_nil_iff_forall_not_mem]
    simp only [ExtTreeSet.mem_toList]
  unfold listOf
  rw [← hempty]
  split
  · next h => simp [h]
  · next h => simp [h]

theorem withoutClips_empty : withoutClips ∅ = ∅ := by
  apply ExtTreeSet.ext_mem
  intro id
  simp [mem_withoutClips]

theorem ownRoute_listOf (a : ExtTreeSet ParticipantId) :
    ownRoute (listOf a) = listOf (withoutClips a) := by
  unfold listOf
  split
  · next hempty =>
    rw [ExtTreeSet.isEmpty_iff.mp hempty, withoutClips_empty]
    rfl
  · rfl

theorem withoutClips_eq_self (h : ∀ id ∈ a, isClipInput id = false) : withoutClips a = a := by
  apply ExtTreeSet.ext_mem
  intro id
  rw [mem_withoutClips]
  exact ⟨fun hmem => hmem.1, fun hmem => ⟨hmem, h id hmem⟩⟩

theorem pruneRoute_eq (id l : ParticipantId) (a : ExtTreeSet ParticipantId) :
    MixGraph.pruneRoute id l a = if l = id then none else listOf (a.erase id) := by
  unfold MixGraph.pruneRoute listOf
  dsimp only
  by_cases hl : l = id
  · rw [if_pos hl, if_neg (not_not_intro hl), ite_self]
  · rw [if_neg hl, if_pos hl]

theorem setListenerSources_routes (g : MixGraph D) (l : ParticipantId)
    (sources : List ParticipantId) (p : ParticipantId) :
    (g.setListenerSources l sources).listenerRoutes[p]? =
      if p = l then listOf (.ofList sources) else g.listenerRoutes[p]? := by
  have hempty : (ExtTreeSet.ofList sources).isEmpty = sources.isEmpty := by
    rw [← ExtTreeSet.isEmpty_toList, Bool.eq_iff_iff]
    simp only [List.isEmpty_iff, List.eq_nil_iff_forall_not_mem, ExtTreeSet.mem_toList,
      OrdMap.mem_ofList]
  unfold MixGraph.setListenerSources listOf
  rw [hempty]
  split
  · exact OrdMap.lookup_erase _ _ _
  · exact OrdMap.lookup_insert _ _ _ _

theorem setListenerSources_frame (g : MixGraph D) (l : ParticipantId)
    (sources : List ParticipantId) :
    (g.setListenerSources l sources).groups = g.groups ∧
      (g.setListenerSources l sources).memberGroup = g.memberGroup := by
  unfold MixGraph.setListenerSources
  split <;> exact ⟨rfl, rfl⟩

theorem ownRoute_prune (id : ParticipantId) (l : ParticipantId)
    (route : Option (ExtTreeSet ParticipantId)) :
    ownRoute (route.bind (MixGraph.pruneRoute id l)) =
      (ownRoute route).bind (MixGraph.pruneRoute id l) := by
  cases route with
  | none => rfl
  | some a =>
    show ownRoute (MixGraph.pruneRoute id l a) = (listOf (withoutClips a)).bind _
    have hbind : (listOf (withoutClips a)).bind (MixGraph.pruneRoute id l) =
        MixGraph.pruneRoute id l (withoutClips a) := by
      unfold listOf
      split
      · next hempty =>
        rw [pruneRoute_eq, ExtTreeSet.isEmpty_iff.mp hempty]
        split
        · rfl
        · exact (listOf_eq_none.mpr (by simp)).symm
      · rfl
    rw [hbind, pruneRoute_eq, pruneRoute_eq]
    split
    · rfl
    · rw [ownRoute_listOf]
      apply listOf_congr
      intro k
      rw [mem_withoutClips, OrdMap.mem_erase, OrdMap.mem_erase, mem_withoutClips, and_assoc]

variable {l id : ParticipantId}

theorem ownRoute_prune_clip (hclip : isClipInput id = true) (hl : l ≠ id)
    (route : Option (ExtTreeSet ParticipantId)) :
    ownRoute (route.bind (MixGraph.pruneRoute id l)) = ownRoute route := by
  cases route with
  | none => rfl
  | some a =>
    show ownRoute (MixGraph.pruneRoute id l a) = listOf (withoutClips a)
    rw [pruneRoute_eq, if_neg hl, ownRoute_listOf]
    apply listOf_congr
    intro k
    rw [mem_withoutClips, mem_withoutClips, OrdMap.mem_erase]
    constructor
    · exact fun h => ⟨h.1.2, h.2⟩
    · refine fun h => ⟨⟨fun heq => ?_, h.1⟩, h.2⟩
      rw [heq, hclip] at h
      cases h.2

/-- A route with a list has a non-empty one, and its clip inputs are in `K`. -/
def Listed (K : ParticipantId → Prop) (route : Option (ExtTreeSet ParticipantId)) : Prop :=
  ∀ sources, route = some sources →
    sources.isEmpty = false ∧ ∀ id ∈ sources, isClipInput id = true → K id

variable {K : ParticipantId → Prop}

theorem listed_none : Listed K none := fun _ h => by cases h

theorem listed_listOf (h : ∀ id ∈ a, isClipInput id = true → K id) : Listed K (listOf a) := by
  intro sources hsources
  obtain ⟨rfl, hempty⟩ := listOf_eq_some hsources
  exact ⟨hempty, h⟩

theorem Listed.prune {route : Option (ExtTreeSet ParticipantId)} (h : Listed K route)
    (id l : ParticipantId) : Listed K (route.bind (MixGraph.pruneRoute id l)) := by
  cases route with
  | none => exact listed_none
  | some a =>
    show Listed K (MixGraph.pruneRoute id l a)
    rw [pruneRoute_eq]
    split
    · exact listed_none
    · exact listed_listOf fun k hk => (h a rfl).2 k ((OrdMap.mem_erase _ _ _).mp hk).2

theorem Listed.own {route : Option (ExtTreeSet ParticipantId)} (h : Listed (fun _ => False) route) :
    ownRoute route = route := by
  cases route with
  | none => rfl
  | some a =>
    obtain ⟨hempty, hclips⟩ := h a rfl
    show listOf (withoutClips a) = some a
    rw [withoutClips_eq_self fun id hid => eq_false_of_ne_true (hclips id hid), listOf,
      if_neg (ne_true_of_eq_false hempty)]

theorem ownRoute_groupRoute {members : ExtTreeSet ParticipantId}
    (h : ∀ m ∈ members, isClipInput m = false) (p : ParticipantId) :
    ownRoute (groupRoute members p) = groupRoute members p := by
  show ownRoute (listOf (members.erase p)) = listOf (members.erase p)
  rw [ownRoute_listOf, withoutClips_eq_self fun m hm => h m ((OrdMap.mem_erase _ _ _).mp hm).2]

/-! ## Graphs with the same own routes -/

/-- `g'` has the groups of `g` and its routes without the clip inputs, which are in `K`; groups,
entries and listeners are peers. -/
structure Mirrors (K : ParticipantId → Prop) (g g' : MixGraph D) : Prop where
  groups : g'.groups = g.groups
  entries : g'.memberGroup = g.memberGroup
  routes : ∀ l : ParticipantId, g'.listenerRoutes[l]? = ownRoute g.listenerRoutes[l]?
  members : ∀ (groupId : GroupId) (members : ExtTreeSet ParticipantId),
    g.groups[groupId]? = some members → ∀ m ∈ members, isClipInput m = false
  unlisted : ∀ id : ParticipantId, isClipInput id = true →
    g.memberGroup[id]? = none ∧ g.listenerRoutes[id]? = none
  listed : ∀ l : ParticipantId, Listed K g.listenerRoutes[l]?

variable {g g' : MixGraph D}

theorem mirrors_new : Mirrors K (MixGraph.new D) (MixGraph.new D) where
  groups := rfl
  entries := rfl
  routes := fun _ => rfl
  members := fun groupId members h => by
    have hnone : (MixGraph.new D).groups[groupId]? = none := ExtTreeMap.getElem?_empty
    rw [hnone] at h
    cases h
  unlisted := fun _ _ => ⟨ExtTreeMap.getElem?_empty, ExtTreeMap.getElem?_empty⟩
  listed := fun l => by
    have hnone : (MixGraph.new D).listenerRoutes[l]? = none := ExtTreeMap.getElem?_empty
    rw [hnone]
    exact listed_none

section

variable (h : Mirrors K g g')
include h

theorem Mirrors.reroute {K' : ParticipantId → Prop} {t : MixGraph D} (hgroups : t.groups = g.groups)
    (hentries : t.memberGroup = g.memberGroup)
    (hroutes : ∀ l : ParticipantId, isClipInput l = false →
      ownRoute t.listenerRoutes[l]? = ownRoute g.listenerRoutes[l]?)
    (hunlisted : ∀ l : ParticipantId, isClipInput l = true → t.listenerRoutes[l]? = none)
    (hlisted : ∀ l : ParticipantId, Listed K' t.listenerRoutes[l]?) :
    Mirrors K' t g' where
  groups := h.groups.trans hgroups.symm
  entries := h.entries.trans hentries.symm
  routes := fun l => by
    rw [h.routes]
    cases hl : isClipInput l with
    | false => exact (hroutes l hl).symm
    | true => rw [hunlisted l hl, (h.unlisted l hl).2]
  members := by
    rw [hgroups]
    exact h.members
  unlisted := fun id hid => ⟨by rw [hentries]; exact (h.unlisted id hid).1, hunlisted id hid⟩
  listed := hlisted

theorem Mirrors.same {t t' : MixGraph D} (ht : g.SameRouting t) (ht' : g'.SameRouting t') :
    Mirrors K t t' where
  groups := by rw [ht.groups, ht'.groups, h.groups]
  entries := by rw [ht.entries, ht'.entries, h.entries]
  routes := by rw [ht.routes, ht'.routes]; exact h.routes
  members := by rw [ht.groups]; exact h.members
  unlisted := by rw [ht.entries, ht.routes]; exact h.unlisted
  listed := by rw [ht.routes]; exact h.listed

theorem Mirrors.sameLeft {t : MixGraph D} (ht : g.SameRouting t) : Mirrors K t g' :=
  h.same ht ⟨rfl, rfl, rfl⟩

theorem Mirrors.setListenerSources (hl : isClipInput l = false) {sources : List ParticipantId}
    (hsources : ∀ id ∈ sources, isClipInput id = false) :
    Mirrors K (g.setListenerSources l sources) (g'.setListenerSources l sources) := by
  have hframe : ∀ t : MixGraph D, (t.setListenerSources l sources).groups = t.groups ∧
      (t.setListenerSources l sources).memberGroup = t.memberGroup :=
    fun t => setListenerSources_frame t l sources
  refine ⟨?_, ?_, fun p => ?_, ?_, fun id hid => ?_, fun p => ?_⟩
  · rw [(hframe g).1, (hframe g').1, h.groups]
  · rw [(hframe g).2, (hframe g').2, h.entries]
  · rw [setListenerSources_routes, setListenerSources_routes]
    split
    · rw [ownRoute_listOf, withoutClips_eq_self]
      intro id hid
      exact hsources id ((OrdMap.mem_ofList _ _).mp hid)
    · exact h.routes p
  · rw [(hframe g).1]
    exact h.members
  · rw [(hframe g).2, setListenerSources_routes, if_neg]
    · exact h.unlisted id hid
    · intro heq
      rw [heq, hl] at hid
      cases hid
  · rw [setListenerSources_routes]
    split
    · refine listed_listOf fun id hid hclip => ?_
      rw [hsources id ((OrdMap.mem_ofList _ _).mp hid)] at hclip
      cases hclip
    · exact h.listed p

theorem Mirrors.clearListenerRoutes (l : ParticipantId) :
    Mirrors K (g.clearListenerRoutes l) (g'.clearListenerRoutes l) := by
  refine ⟨h.groups, h.entries, fun p => ?_, h.members, fun id hid => ⟨(h.unlisted id hid).1, ?_⟩,
    fun p => ?_⟩
  · show (g'.listenerRoutes.erase l)[p]? = ownRoute (g.listenerRoutes.erase l)[p]?
    rw [OrdMap.lookup_erase, OrdMap.lookup_erase]
    split
    · rfl
    · exact h.routes p
  · show (g.listenerRoutes.erase l)[id]? = none
    rw [OrdMap.lookup_erase, (h.unlisted id hid).2, ite_self]
  · show Listed K (g.listenerRoutes.erase l)[p]?
    rw [OrdMap.lookup_erase]
    split
    · exact listed_none
    · exact h.listed p

/-! ## Groups -/

variable (groupId : GroupId)

theorem Mirrors.rebuildGroupRoutes :
    Mirrors K (g.rebuildGroupRoutes groupId) (g'.rebuildGroupRoutes groupId) := by
  cases hlist : g.groups[groupId]? with
  | none =>
    have hlist' : g'.groups[groupId]? = none := by rw [h.groups, hlist]
    unfold MixGraph.rebuildGroupRoutes
    rw [hlist, hlist']
    exact h
  | some members =>
    have hlist' : g'.groups[groupId]? = some members := by rw [h.groups, hlist]
    have hframe := g.rebuildGroupRoutes_frame groupId
    have hframe' := g'.rebuildGroupRoutes_frame groupId
    refine ⟨?_, ?_, fun p => ?_, ?_, fun id hid => ?_, fun p => ?_⟩
    · rw [hframe.1, hframe'.1, h.groups]
    · rw [hframe.2, hframe'.2, h.entries]
    · rw [MixGraph.rebuildGroupRoutes_routes hlist, MixGraph.rebuildGroupRoutes_routes hlist',
        h.entries]
      split
      · split
        · exact (ownRoute_groupRoute (h.members groupId members hlist) p).symm
        · exact h.routes p
      · rfl
    · rw [hframe.1]
      exact h.members
    · rw [hframe.2, MixGraph.rebuildGroupRoutes_routes hlist, (h.unlisted id hid).1]
      exact ⟨rfl, rfl⟩
    · rw [MixGraph.rebuildGroupRoutes_routes hlist]
      split
      · split
        · refine listed_listOf fun id hid hclip => ?_
          rw [h.members groupId members hlist id ((OrdMap.mem_erase _ _ _).mp hid).2] at hclip
          cases hclip
        · exact h.listed p
      · exact listed_none

theorem Mirrors.dropMember (id : ParticipantId) :
    Mirrors K (g.dropMember groupId id) (g'.dropMember groupId id) := by
  refine ⟨?_, h.entries, h.routes, fun other members hlist m hm => ?_, h.unlisted, h.listed⟩
  · show g'.groups.modify groupId _ = g.groups.modify groupId _
    rw [h.groups]
  · have hlookup : (g.groups.modify groupId (·.erase id))[other]? = some members := hlist
    rw [OrdMap.lookup_modify] at hlookup
    split at hlookup
    · rw [Option.map_eq_some_iff] at hlookup
      obtain ⟨old, hold, rfl⟩ := hlookup
      exact h.members other old hold m ((OrdMap.mem_erase _ _ _).mp hm).2
    · exact h.members other members hlookup m hm

theorem Mirrors.enterGroup (hid : isClipInput id = false) :
    Mirrors K (g.enterGroup groupId id) (g'.enterGroup groupId id) := by
  refine ⟨?_, h.entries, h.routes, fun other members hlist m hm => ?_, h.unlisted, h.listed⟩
  · show g'.groups.insert groupId _ = g.groups.insert groupId _
    rw [h.groups]
  · have hlookup : (g.groups.insert groupId ((g.groups[groupId]?.getD ∅).insert id))[other]? =
        some members := hlist
    rw [OrdMap.lookup_insert] at hlookup
    split at hlookup
    · cases hlookup
      rcases (OrdMap.mem_insert _ _ _).mp hm with rfl | hold
      · exact hid
      · cases hold' : g.groups[groupId]? with rw [hold'] at hold
        | none =>
          simp at hold
        | some old =>
          exact h.members groupId old hold' m hold
    · exact h.members other members hlookup m hm

theorem Mirrors.setEntry (hid : isClipInput id = false) (groupId : GroupId) :
    Mirrors K { g with memberGroup := g.memberGroup.insert id groupId }
      { g' with memberGroup := g'.memberGroup.insert id groupId } := by
  refine ⟨h.groups, ?_, h.routes, h.members, fun other hother => ⟨?_, (h.unlisted other hother).2⟩,
    h.listed⟩
  · show g'.memberGroup.insert id groupId = g.memberGroup.insert id groupId
    rw [h.entries]
  · show (g.memberGroup.insert id groupId)[other]? = none
    rw [OrdMap.lookup_insert, if_neg, (h.unlisted other hother).1]
    intro heq
    rw [heq, hid] at hother
    cases hother

theorem Mirrors.eraseEntry (id : ParticipantId) :
    Mirrors K { g with memberGroup := g.memberGroup.erase id }
      { g' with memberGroup := g'.memberGroup.erase id } := by
  refine ⟨h.groups, ?_, h.routes, h.members, fun other hother => ⟨?_, (h.unlisted other hother).2⟩,
    h.listed⟩
  · show g'.memberGroup.erase id = g.memberGroup.erase id
    rw [h.entries]
  · show (g.memberGroup.erase id)[other]? = none
    rw [OrdMap.lookup_erase, (h.unlisted other hother).1, ite_self]

theorem Mirrors.setMembers {members : List ParticipantId}
    (hmembers : ∀ m ∈ members, isClipInput m = false) :
    Mirrors K { g with groups := g.groups.insert groupId (.ofList members) }
      { g' with groups := g'.groups.insert groupId (.ofList members) } := by
  refine ⟨?_, h.entries, h.routes, fun other set hlist m hm => ?_, h.unlisted, h.listed⟩
  · show g'.groups.insert groupId _ = g.groups.insert groupId _
    rw [h.groups]
  · have hlookup : (g.groups.insert groupId (.ofList members))[other]? = some set := hlist
    rw [OrdMap.lookup_insert] at hlookup
    split at hlookup
    · cases hlookup
      exact hmembers m ((OrdMap.mem_ofList _ _).mp hm)
    · exact h.members other set hlookup m hm

theorem Mirrors.joinMember (hid : isClipInput id = false) :
    Mirrors K (MixGraph.joinMember groupId g id) (MixGraph.joinMember groupId g' id) := by
  unfold MixGraph.joinMember
  rw [h.entries]
  cases g.memberGroup[id]? with
  | none =>
    have hentry := h.setEntry hid groupId
    rwa [h.entries] at hentry
  | some old =>
    have hentry := h.setEntry hid groupId
    rw [h.entries] at hentry
    dsimp only
    split
    · exact (hentry.dropMember old id).rebuildGroupRoutes old
    · exact hentry

theorem Mirrors.setGroupMembers {members : List ParticipantId}
    (hmembers : ∀ m ∈ members, isClipInput m = false) :
    Mirrors K (g.setGroupMembers groupId members) (g'.setGroupMembers groupId members) := by
  suffices hloop : ∀ (joined : List ParticipantId) (t t' : MixGraph D),
      (∀ m ∈ joined, isClipInput m = false) → Mirrors K t t' →
      Mirrors K (joined.foldl (MixGraph.joinMember groupId) t)
        (joined.foldl (MixGraph.joinMember groupId) t') from
    ((hloop members g g' hmembers h).setMembers groupId hmembers).rebuildGroupRoutes groupId
  intro joined
  induction joined with
  | nil => exact fun _ _ _ ht => ht
  | cons id joined ih =>
    intro t t' hjoined ht
    rw [List.foldl_cons, List.foldl_cons]
    exact ih _ _ (fun m hm => hjoined m (List.mem_cons_of_mem _ hm))
      (ht.joinMember groupId (hjoined id List.mem_cons_self))

theorem Mirrors.moveToGroup (hid : isClipInput id = false) (groupId : GroupId) :
    Mirrors K (g.moveToGroup id groupId) (g'.moveToGroup id groupId) := by
  have herase := h.eraseEntry id
  unfold MixGraph.moveToGroup
  rw [show g'.memberGroup[id]? = g.memberGroup[id]? by rw [h.entries]]
  cases g.memberGroup[id]? with
  | none => exact ((herase.enterGroup groupId hid).setEntry hid groupId).rebuildGroupRoutes groupId
  | some old =>
    have hentered := ((herase.dropMember old id).enterGroup groupId hid).setEntry hid groupId
    dsimp only
    split
    · exact (hentered.rebuildGroupRoutes old).rebuildGroupRoutes groupId
    · exact hentered.rebuildGroupRoutes groupId

theorem Mirrors.removeFromGroup (id : ParticipantId) :
    Mirrors K (g.removeFromGroup id) (g'.removeFromGroup id) := by
  unfold MixGraph.removeFromGroup
  rw [show g'.memberGroup[id]? = g.memberGroup[id]? by rw [h.entries]]
  cases g.memberGroup[id]? with
  | none => exact h
  | some old =>
    exact (((h.eraseEntry id).dropMember old id).clearListenerRoutes id).rebuildGroupRoutes old

end

/-! ## Removed inputs -/

theorem lookup_filterMap_prune (routes : ExtTreeMap ParticipantId (ExtTreeSet ParticipantId))
    (id l : ParticipantId) :
    (routes.filterMap (MixGraph.pruneRoute id))[l]? = routes[l]?.bind (MixGraph.pruneRoute id l) := by
  rw [ExtTreeMap.getElem?_filterMap']

section

variable (h : Mirrors K g g')
include h

theorem Mirrors.forgetInput (id : ParticipantId) (t t' : MixGraph D) (hgroups : t.groups = g.groups)
    (hgroups' : t'.groups = g'.groups) (hentries : t.memberGroup = g.memberGroup.erase id)
    (hentries' : t'.memberGroup = g'.memberGroup.erase id)
    (hroutes : t.listenerRoutes = g.listenerRoutes.filterMap (MixGraph.pruneRoute id))
    (hroutes' : t'.listenerRoutes = g'.listenerRoutes.filterMap (MixGraph.pruneRoute id)) :
    Mirrors K t t' := by
  refine ⟨?_, ?_, fun l => ?_, ?_, fun other hother => ⟨?_, ?_⟩, fun l => ?_⟩
  · rw [hgroups, hgroups', h.groups]
  · rw [hentries, hentries', h.entries]
  · rw [hroutes, hroutes', lookup_filterMap_prune, lookup_filterMap_prune, ownRoute_prune, h.routes]
  · rw [hgroups]
    exact h.members
  · rw [hentries, OrdMap.lookup_erase, (h.unlisted other hother).1, ite_self]
  · rw [hroutes, lookup_filterMap_prune, (h.unlisted other hother).2]
    rfl
  · rw [hroutes, lookup_filterMap_prune]
    exact (h.listed l).prune id l

theorem Mirrors.removeInput (id : ParticipantId) :
    Mirrors K (g.removeInput id) (g'.removeInput id) := by
  unfold MixGraph.removeInput
  rw [show g'.memberGroup[id]? = g.memberGroup[id]? by rw [h.entries]]
  cases g.memberGroup[id]? with
  | none => exact h.forgetInput id _ _ rfl rfl rfl rfl rfl rfl
  | some old =>
    have hforget := h.forgetInput id
      { g.forgetInput id with
        listenerRoutes := g.listenerRoutes.filterMap (MixGraph.pruneRoute id)
        memberGroup := g.memberGroup.erase id }
      { g'.forgetInput id with
        listenerRoutes := g'.listenerRoutes.filterMap (MixGraph.pruneRoute id)
        memberGroup := g'.memberGroup.erase id } rfl rfl rfl rfl rfl rfl
    exact (hforget.dropMember old id).rebuildGroupRoutes old

theorem removeInput_clip_routes (hclip : isClipInput id = true) :
    (g.removeInput id).groups = g.groups ∧ (g.removeInput id).memberGroup = g.memberGroup ∧
      ∀ l : ParticipantId, (g.removeInput id).listenerRoutes[l]? =
        g.listenerRoutes[l]?.bind (MixGraph.pruneRoute id l) := by
  have hentry := (h.unlisted id hclip).1
  unfold MixGraph.removeInput
  rw [hentry]
  refine ⟨rfl, ?_, fun l => lookup_filterMap_prune _ _ _⟩
  apply ExtTreeMap.ext_getElem?
  intro k
  rw [OrdMap.lookup_erase]
  split
  · next heq => rw [heq, hentry]
  · rfl

theorem Mirrors.removeClip (hclip : isClipInput id = true) :
    Mirrors (fun k => K k ∧ k ≠ id) (g.removeInput id) g' := by
  obtain ⟨hgroups, hentries, hroutes⟩ := removeInput_clip_routes h hclip
  have hunlisted : ∀ l : ParticipantId, isClipInput l = true →
      (g.removeInput id).listenerRoutes[l]? = none := fun l hl => by
    rw [hroutes, (h.unlisted l hl).2]
    rfl
  refine h.reroute hgroups hentries (fun l hl => ?_) hunlisted fun l => ?_
  · rw [hroutes, ownRoute_prune_clip hclip]
    intro heq
    rw [heq, hclip] at hl
    cases hl
  · rw [hroutes]
    cases hroute : g.listenerRoutes[l]? with
    | none => exact listed_none
    | some a =>
      show Listed _ (MixGraph.pruneRoute id l a)
      rw [pruneRoute_eq]
      split
      · exact listed_none
      · refine listed_listOf fun k hk hclip => ?_
        have herase := (OrdMap.mem_erase _ _ _).mp hk
        exact ⟨(h.listed l a hroute).2 k herase.2 hclip, herase.1⟩

theorem Mirrors.mono {K' : ParticipantId → Prop} (hK : ∀ k, K k → K' k) : Mirrors K' g g' :=
  ⟨h.groups, h.entries, h.routes, h.members, h.unlisted, fun l sources hl =>
    ⟨(h.listed l sources hl).1, fun id hid hclip => hK id ((h.listed l sources hl).2 id hid hclip)⟩⟩

end

/-! ## Orderly graphs -/

/-- Groups, entries and listeners are peers, and the clip inputs on lists are in `K`. -/
def Orderly (K : ParticipantId → Prop) (g : MixGraph D) : Prop := ∃ g', Mirrors K g g'

theorem orderly_of (hmembers : ∀ (groupId : GroupId) (members : ExtTreeSet ParticipantId),
      g.groups[groupId]? = some members → ∀ m ∈ members, isClipInput m = false)
    (hunlisted : ∀ id : ParticipantId, isClipInput id = true →
      g.memberGroup[id]? = none ∧ g.listenerRoutes[id]? = none)
    (hlisted : ∀ l : ParticipantId, Listed K g.listenerRoutes[l]?) : Orderly K g := by
  refine ⟨{ g with
    listenerRoutes := g.listenerRoutes.filterMap fun _ sources => listOf (withoutClips sources) },
    rfl, rfl, fun l => ?_, hmembers, hunlisted, hlisted⟩
  show (g.listenerRoutes.filterMap fun _ sources => listOf (withoutClips sources))[l]? = _
  rw [ExtTreeMap.getElem?_filterMap']
  rfl

theorem Orderly.setListenerSources (h : Orderly K g) (hl : isClipInput l = false)
    {sources : List ParticipantId} (hclips : ∀ id ∈ sources, isClipInput id = true → K id) :
    Orderly K (g.setListenerSources l sources) := by
  obtain ⟨g', h⟩ := h
  have hframe := setListenerSources_frame g l sources
  refine orderly_of ?_ (fun id hid => ?_) fun p => ?_
  · rw [hframe.1]
    exact h.members
  · rw [hframe.2, setListenerSources_routes, if_neg]
    · exact h.unlisted id hid
    · intro heq
      rw [heq, hl] at hid
      cases hid
  · rw [setListenerSources_routes]
    split
    · exact listed_listOf fun id hid => hclips id ((OrdMap.mem_ofList _ _).mp hid)
    · exact h.listed p

end NodeWebrtc.Clips
