import NodeWebrtc.Mixer.Groups

/-! # The group tracking of the client mixers

Every client mixer of a graph tells the graph who is in which group and keeps the same in a
state of its own, which all mixers of that graph share. The two follow different rules: a list
that replaces another ends the entries of those it leaves out only here, and a group whose name
is empty is taken for no group.
-/

namespace NodeWebrtc.Mixer

open Std Machine

structure GraphGroupState where
  memberGroups : ExtTreeMap ParticipantId GroupId
  groups : ExtTreeMap GroupId (ExtTreeSet ParticipantId)
  knownClientIds : ExtTreeSet ParticipantId

namespace GraphGroupState

def new : GraphGroupState := ⟨∅, ∅, ∅⟩

def trackClientId (s : GraphGroupState) (clientId : ParticipantId) : GraphGroupState :=
  { s with knownClientIds := s.knownClientIds.insert clientId }

/-- `members?.delete` and the delete of a set left empty. -/
def dropMember (s : GraphGroupState) (groupId : GroupId) (clientId : ParticipantId) :
    GraphGroupState :=
  match s.groups[groupId]? with
  | none => s
  | some members =>
    if (members.erase clientId).isEmpty then { s with groups := s.groups.erase groupId }
    else { s with groups := s.groups.insert groupId (members.erase clientId) }

def removeClientFromGroupTracking (s : GraphGroupState) (clientId : ParticipantId) :
    GraphGroupState :=
  match s.memberGroups[clientId]? with
  | none => s
  | some groupId =>
    if groupId = "" then s
    else
      let s := s.dropMember groupId clientId
      { s with memberGroups := s.memberGroups.erase clientId }

def assignClientToGroup (s : GraphGroupState) (clientId : ParticipantId) (groupId : GroupId) :
    GraphGroupState :=
  let s := (s.removeClientFromGroupTracking clientId).trackClientId clientId
  { s with
    memberGroups := s.memberGroups.insert clientId groupId
    groups := s.groups.insert groupId ((s.groups[groupId]?.getD ∅).insert clientId) }

/-- The group's set goes, with the entries of those in it. -/
def clearGroup (s : GraphGroupState) (groupId : GroupId) : GraphGroupState :=
  match s.groups[groupId]? with
  | none => s
  | some existing =>
    { s with
      memberGroups := s.memberGroups.filter fun clientId _ => !existing.contains clientId
      groups := s.groups.erase groupId }

/-- One round of the loop that fills the new set. -/
def enterMember (groupId : GroupId) (s : GraphGroupState) (clientId : ParticipantId) :
    GraphGroupState :=
  let s := s.trackClientId clientId
  { s with memberGroups := s.memberGroups.insert clientId groupId }

def syncGroupMembers (s : GraphGroupState) (groupId : GroupId) (members : List ParticipantId) :
    GraphGroupState :=
  let s := (members.foldl removeClientFromGroupTracking s).clearGroup groupId
  let s := members.foldl (enterMember groupId) s
  if members.isEmpty then s
  else { s with groups := s.groups.insert groupId (.ofList members) }

def clientsShareMixGroup (s : GraphGroupState) (listenerId targetId : ParticipantId) : Bool :=
  s.memberGroups[listenerId]?.isSome && s.memberGroups[listenerId]? = s.memberGroups[targetId]?

end GraphGroupState

/-! ## Mixers of one graph -/

structure ClientMixers (D : MixDsp) where
  graph : MixGraph D
  groupState : GraphGroupState
  registered : Nat → ExtTreeSet ParticipantId

inductive MixerCall where
  | registerPeer (mixer : Nat) (peerId : ParticipantId)
  | unregisterPeer (mixer : Nat) (peerId : ParticipantId)
  | setGroupMembers (groupId : GroupId) (clientIds : List ParticipantId)
  | moveToGroup (clientId : ParticipantId) (groupId : GroupId)
  | removeFromGroup (clientId : ParticipantId)

namespace ClientMixers

variable {D : MixDsp}

def new (D : MixDsp) : ClientMixers D := ⟨.new D, .new, fun _ => ∅⟩

def registerPeer (m : ClientMixers D) (mixer : Nat) (peerId : ParticipantId) : ClientMixers D :=
  if (m.registered mixer).contains peerId then m
  else { m with
    graph := m.graph.addInput peerId
    groupState := m.groupState.trackClientId peerId
    registered := Function.update m.registered mixer ((m.registered mixer).insert peerId) }

def unregisterPeer (m : ClientMixers D) (mixer : Nat) (peerId : ParticipantId) : ClientMixers D :=
  if (m.registered mixer).contains peerId then
    let state := m.groupState.removeClientFromGroupTracking peerId
    { m with
      graph := (m.graph.removeInput peerId).removeFromGroup peerId
      groupState := { state with knownClientIds := state.knownClientIds.erase peerId }
      registered := Function.update m.registered mixer ((m.registered mixer).erase peerId) }
  else m

def call (m : ClientMixers D) : MixerCall → ClientMixers D
  | .registerPeer mixer peerId => m.registerPeer mixer peerId
  | .unregisterPeer mixer peerId => m.unregisterPeer mixer peerId
  | .setGroupMembers groupId clientIds =>
    { m with
      groupState := m.groupState.syncGroupMembers groupId clientIds
      graph := m.graph.setGroupMembers groupId clientIds }
  | .moveToGroup clientId groupId =>
    { m with
      groupState := m.groupState.assignClientToGroup clientId groupId
      graph := m.graph.moveToGroup clientId groupId }
  | .removeFromGroup clientId =>
    { m with
      groupState := m.groupState.removeClientFromGroupTracking clientId
      graph := m.graph.removeFromGroup clientId }

def step (m : ClientMixers D) (i : MixerCall) : Option (ClientMixers D × List Empty) :=
  some (m.call i, [])

end ClientMixers

/-! ## What the tracking does -/

namespace GraphGroupState

variable {s : GraphGroupState}

def IsMember (s : GraphGroupState) (p : ParticipantId) (groupId : GroupId) : Prop :=
  ∃ members, s.groups[groupId]? = some members ∧ p ∈ members

/-- The group an entry names has its participant. -/
def Listed (s : GraphGroupState) : Prop :=
  ∀ (p : ParticipantId) groupId, s.memberGroups[p]? = some groupId → s.IsMember p groupId

section

variable (s)

variable (groupId : GroupId)

theorem dropMember_isMember (id p : ParticipantId) (other : GroupId) :
    (s.dropMember groupId id).IsMember p other ↔ s.IsMember p other ∧ ¬ (other = groupId ∧ p = id) := by
  unfold dropMember IsMember
  cases hold : s.groups[groupId]? with
  | none =>
    refine ⟨fun h => ⟨h, ?_⟩, fun h => h.1⟩
    rintro ⟨rfl, -⟩
    obtain ⟨members, hmembers, -⟩ := h
    rw [hold] at hmembers
    cases hmembers
  | some members =>
    dsimp only
    by_cases hother : other = groupId
    · subst hother
      rw [hold]
      split
      · next hempty =>
        have hgone : ∀ q ∈ members, q = id := fun q hq => by
          by_contra hne
          have hmem := (OrdMap.mem_erase members id q).mpr ⟨hne, hq⟩
          rw [ExtTreeSet.isEmpty_iff.mp hempty] at hmem
          simp at hmem
        refine iff_of_false (by simp) fun h => ?_
        obtain ⟨⟨members', heq, hp⟩, hne⟩ := h
        cases heq
        exact hne ⟨rfl, hgone p hp⟩
      · rw [OrdMap.lookup_insert, if_pos rfl]
        simp only [Option.some.injEq, exists_eq_left', OrdMap.mem_erase, true_and]
        exact and_comm
    · have hfar : (if (members.erase id).isEmpty then { s with groups := s.groups.erase groupId }
          else { s with groups := s.groups.insert groupId (members.erase id) } :
          GraphGroupState).groups[other]? = s.groups[other]? := by
        split
        · exact (OrdMap.lookup_erase _ _ _).trans (if_neg hother)
        · exact (OrdMap.lookup_insert _ _ _ _).trans (if_neg hother)
      rw [hfar]
      exact ⟨fun h => ⟨h, fun hdrop => hother hdrop.1⟩, fun h => h.1⟩

theorem dropMember_memberGroups (id : ParticipantId) :
    (s.dropMember groupId id).memberGroups = s.memberGroups := by
  unfold dropMember
  split
  · rfl
  · split <;> rfl

variable (id p : ParticipantId)

theorem removeClientFromGroupTracking_memberGroups :
    (s.removeClientFromGroupTracking id).memberGroups[p]? =
      if p = id ∧ s.memberGroups[id]? ≠ some "" then none else s.memberGroups[p]? := by
  unfold removeClientFromGroupTracking
  cases hold : s.memberGroups[id]? with
  | none =>
    by_cases hp : p = id
    · rw [if_pos ⟨hp, by simp⟩, hp, hold]
    · rw [if_neg fun h => hp h.1]
  | some groupId =>
    dsimp only
    by_cases hempty : groupId = ""
    · rw [if_pos hempty, if_neg fun h => h.2 (by rw [hempty])]
    · rw [if_neg hempty, dropMember_memberGroups, OrdMap.lookup_erase]
      by_cases hp : p = id
      · rw [if_pos hp, if_pos ⟨hp, fun h => hempty (Option.some.inj h)⟩]
      · rw [if_neg hp, if_neg fun h => hp h.1]

theorem removeClientFromGroupTracking_isMember (other : GroupId) :
    (s.removeClientFromGroupTracking id).IsMember p other ↔
      s.IsMember p other ∧ ¬ (s.memberGroups[id]? = some other ∧ other ≠ "" ∧ p = id) := by
  unfold removeClientFromGroupTracking
  cases hold : s.memberGroups[id]? with
  | none => simp
  | some groupId =>
    dsimp only
    by_cases hempty : groupId = ""
    · rw [if_pos hempty]
      refine ⟨fun h => ⟨h, fun hdrop => ?_⟩, fun h => h.1⟩
      rw [hempty, Option.some.injEq] at hdrop
      exact hdrop.2.1 hdrop.1.symm
    · rw [if_neg hempty]
      refine (dropMember_isMember s groupId id p other).trans ?_
      rw [Option.some.injEq, eq_comm (a := groupId)]
      constructor
      · exact fun h => ⟨h.1, fun hdrop => h.2 ⟨hdrop.1, hdrop.2.2⟩⟩
      · exact fun h => ⟨h.1, fun hdrop => h.2 ⟨hdrop.1, hdrop.1 ▸ hempty, hdrop.2⟩⟩

theorem assignClientToGroup_memberGroups (groupId : GroupId) :
    (s.assignClientToGroup id groupId).memberGroups[p]? =
      if p = id then some groupId else s.memberGroups[p]? := by
  refine (OrdMap.lookup_insert _ _ _ _).trans ?_
  by_cases hp : p = id
  · rw [if_pos hp, if_pos hp]
  · rw [if_neg hp, if_neg hp]
    exact (removeClientFromGroupTracking_memberGroups s id p).trans (if_neg fun h => hp h.1)

theorem assignClientToGroup_isMember (groupId other : GroupId) :
    (s.assignClientToGroup id groupId).IsMember p other ↔
      (other = groupId ∧ p = id) ∨
        s.IsMember p other ∧ ¬ (s.memberGroups[id]? = some other ∧ other ≠ "" ∧ p = id) := by
  rw [← removeClientFromGroupTracking_isMember]
  generalize hs : s.removeClientFromGroupTracking id = t
  have hgroups : (s.assignClientToGroup id groupId).groups =
      t.groups.insert groupId ((t.groups[groupId]?.getD ∅).insert id) := by
    rw [← hs]
    rfl
  unfold IsMember
  rw [hgroups, OrdMap.lookup_insert]
  by_cases hother : other = groupId
  · subst hother
    rw [if_pos rfl]
    simp only [Option.some.injEq, exists_eq_left', OrdMap.mem_insert]
    cases t.groups[other]? with
    | none | some => simp
  · rw [if_neg hother]
    exact ⟨.inr, fun h => h.resolve_left fun hdrop => hother hdrop.1⟩

variable (members : List ParticipantId)

theorem foldl_remove_memberGroups (s : GraphGroupState) (p : ParticipantId) (hp : p ∉ members) :
    (members.foldl removeClientFromGroupTracking s).memberGroups[p]? = s.memberGroups[p]? := by
  induction members generalizing s with
  | nil => rfl
  | cons id members ih =>
    rw [List.mem_cons, not_or] at hp
    rw [List.foldl_cons, ih _ hp.2, removeClientFromGroupTracking_memberGroups,
      if_neg fun h => hp.1 h.1]

theorem foldl_remove_isMember (s : GraphGroupState) (p : ParticipantId) (other : GroupId) :
    (members.foldl removeClientFromGroupTracking s).IsMember p other ↔
      s.IsMember p other ∧ ¬ (s.memberGroups[p]? = some other ∧ other ≠ "" ∧ p ∈ members) := by
  induction members generalizing s with
  | nil => simp
  | cons id members ih =>
    rw [List.foldl_cons, ih, removeClientFromGroupTracking_isMember,
      removeClientFromGroupTracking_memberGroups]
    by_cases hp : p = id
    · subst hp
      by_cases hother : s.memberGroups[p]? = some other ∧ other ≠ ""
      · simp [hother]
      · have hcond : ∀ {q}, ¬ (s.memberGroups[p]? = some other ∧ other ≠ "" ∧ q) :=
          fun h => hother ⟨h.1, h.2.1⟩
        constructor
        · exact fun h => ⟨h.1.1, hcond⟩
        · refine fun h => ⟨⟨h.1, hcond⟩, fun hdrop => ?_⟩
          split at hdrop
          · cases hdrop.1
          · exact hother ⟨hdrop.1, hdrop.2.1⟩
    · have hentry : ¬ (p = id ∧ s.memberGroups[id]? ≠ some "") := fun h => hp h.1
      rw [if_neg hentry]
      simp only [hp, and_false, not_false_iff, and_true, List.mem_cons, false_or]

theorem clearGroup_memberGroups (p : ParticipantId) (other : GroupId) :
    (s.clearGroup groupId).memberGroups[p]? = some other ↔
      s.memberGroups[p]? = some other ∧ ¬ s.IsMember p groupId := by
  unfold clearGroup
  cases hold : s.groups[groupId]? with
  | none =>
    refine ⟨fun h => ⟨h, ?_⟩, fun h => h.1⟩
    rintro ⟨members, hmembers, -⟩
    rw [hold] at hmembers
    cases hmembers
  | some existing =>
    have hmember : s.IsMember p groupId ↔ p ∈ existing := by
      unfold IsMember
      rw [hold]
      simp
    rw [hmember]
    rw [ExtTreeMap.getElem?_filter', Option.filter_eq_some_iff, Bool.not_eq_true',
      ← Bool.not_eq_true, ExtTreeSet.contains_iff_mem]

theorem clearGroup_isMember (p : ParticipantId) (other : GroupId) :
    (s.clearGroup groupId).IsMember p other ↔ s.IsMember p other ∧ other ≠ groupId := by
  unfold clearGroup
  cases hold : s.groups[groupId]? with
  | none =>
    refine ⟨fun h => ⟨h, ?_⟩, fun h => h.1⟩
    rintro rfl
    obtain ⟨members, hmembers, -⟩ := h
    rw [hold] at hmembers
    cases hmembers
  | some existing =>
    unfold IsMember
    rw [OrdMap.lookup_erase]
    by_cases hother : other = groupId
    · rw [if_pos hother]
      simp [hother]
    · rw [if_neg hother]
      exact ⟨fun h => ⟨h, hother⟩, fun h => h.1⟩

theorem foldl_enterMember (s : GraphGroupState) :
    (members.foldl (enterMember groupId) s).groups = s.groups ∧
      ∀ p : ParticipantId, (members.foldl (enterMember groupId) s).memberGroups[p]? =
        if p ∈ members then some groupId else s.memberGroups[p]? := by
  refine ⟨?_, fun p => OrdMap.getElem?_foldl_write (v := memberGroups) (f := fun _ => some groupId)
    (fun s k a => OrdMap.lookup_insert _ k a groupId) members s p⟩
  induction members generalizing s with
  | nil => rfl
  | cons id members ih => exact ih _

theorem syncGroupMembers_memberGroups (p : ParticipantId) (other : GroupId) :
    (s.syncGroupMembers groupId members).memberGroups[p]? = some other ↔
      if p ∈ members then other = groupId
      else s.memberGroups[p]? = some other ∧ ¬ s.IsMember p groupId := by
  have hentries : (s.syncGroupMembers groupId members).memberGroups =
      (members.foldl (enterMember groupId)
        ((members.foldl removeClientFromGroupTracking s).clearGroup groupId)).memberGroups := by
    unfold syncGroupMembers
    split <;> rfl
  rw [hentries, (foldl_enterMember groupId members _).2]
  by_cases hp : p ∈ members
  · rw [if_pos hp, if_pos hp, Option.some.injEq, eq_comm]
  · rw [if_neg hp, if_neg hp, clearGroup_memberGroups, foldl_remove_memberGroups members s p hp,
      foldl_remove_isMember]
    simp only [hp, and_false, not_false_iff, and_true]

theorem syncGroupMembers_isMember (p : ParticipantId) (other : GroupId) :
    (s.syncGroupMembers groupId members).IsMember p other ↔
      (other = groupId ∧ p ∈ members) ∨ (other ≠ groupId ∧ s.IsMember p other ∧
        ¬ (s.memberGroups[p]? = some other ∧ other ≠ "" ∧ p ∈ members)) := by
  rw [← foldl_remove_isMember, and_comm (a := other ≠ groupId), ← clearGroup_isMember]
  unfold syncGroupMembers
  dsimp only
  generalize hcleared : (members.foldl removeClientFromGroupTracking s).clearGroup groupId = cleared
  have hgroups := (foldl_enterMember groupId members cleared).1
  split
  · next hempty =>
    rw [List.isEmpty_iff.mp hempty]
    simp
  · by_cases hother : other = groupId
    · subst hother
      have hnot : ¬ cleared.IsMember p other := fun h => by
        rw [← hcleared, clearGroup_isMember] at h
        exact h.2 rfl
      rw [or_iff_left hnot, and_iff_right rfl]
      unfold IsMember
      rw [OrdMap.lookup_insert, if_pos rfl]
      simp only [Option.some.injEq, exists_eq_left', OrdMap.mem_ofList]
    · unfold IsMember
      rw [hgroups, OrdMap.lookup_insert, if_neg hother]
      exact ⟨.inr, fun h => h.resolve_left fun hdrop => hother hdrop.1⟩

end

theorem Listed.removeClientFromGroupTracking (h : s.Listed) (id : ParticipantId) :
    (s.removeClientFromGroupTracking id).Listed := by
  intro p groupId hentry
  rw [removeClientFromGroupTracking_memberGroups] at hentry
  split_ifs at hentry with hkept
  rw [removeClientFromGroupTracking_isMember]
  refine ⟨h p groupId hentry, fun hdrop => hkept ⟨hdrop.2.2, fun hempty => ?_⟩⟩
  rw [hempty, Option.some.injEq] at hdrop
  exact hdrop.2.1 hdrop.1.symm

theorem Listed.assignClientToGroup (h : s.Listed) (id : ParticipantId) (groupId : GroupId) :
    (s.assignClientToGroup id groupId).Listed := by
  intro p other hentry
  rw [assignClientToGroup_memberGroups] at hentry
  rw [assignClientToGroup_isMember]
  split at hentry
  · next hp =>
    rw [Option.some.injEq] at hentry
    exact .inl ⟨hentry.symm, hp⟩
  · next hp => exact .inr ⟨h p other hentry, fun hdrop => hp hdrop.2.2⟩

theorem Listed.syncGroupMembers (h : s.Listed) (groupId : GroupId)
    (members : List ParticipantId) : (s.syncGroupMembers groupId members).Listed := by
  intro p other hentry
  rw [syncGroupMembers_memberGroups] at hentry
  rw [syncGroupMembers_isMember]
  split at hentry
  · next hp => exact .inl ⟨hentry, hp⟩
  · next hp =>
    refine .inr ⟨fun heq => ?_, h p other hentry.1, fun hdrop => hp hdrop.2.2⟩
    rw [heq] at hentry
    exact hentry.2 (h p groupId hentry.1)

theorem isMember_iff (s : GraphGroupState) (p : ParticipantId) (groupId : GroupId) :
    s.IsMember p groupId ↔ p ∈ s.groups[groupId]?.getD ∅ := by
  unfold IsMember
  cases s.groups[groupId]? with
  | none | some => simp

theorem clientsShareMixGroup_iff (s : GraphGroupState) (a b : ParticipantId) :
    s.clientsShareMixGroup a b ↔
      ∃ groupId, s.memberGroups[a]? = some groupId ∧ s.memberGroups[b]? = some groupId := by
  unfold clientsShareMixGroup
  rw [Bool.and_eq_true, decide_eq_true_eq, Option.isSome_iff_exists]
  constructor
  · rintro ⟨⟨groupId, ha⟩, heq⟩
    exact ⟨groupId, ha, heq ▸ ha⟩
  · rintro ⟨groupId, ha, hb⟩
    exact ⟨⟨groupId, ha⟩, ha.trans hb.symm⟩

end GraphGroupState

theorem MixGraph.isMember_iff {D : MixDsp} (g : MixGraph D) (p : ParticipantId)
    (groupId : GroupId) : g.IsMember p groupId ↔ p ∈ g.groups[groupId]?.getD ∅ := by
  unfold MixGraph.IsMember
  cases g.groups[groupId]? with
  | none | some => simp

/-! ## Agreement -/

namespace ClientMixers

variable {D : MixDsp} {m : ClientMixers D} {i : MixerCall}

/-- The tracking and the graph hold the same groups. -/
structure Agree (m : ClientMixers D) : Prop where
  entries : ∀ p : ParticipantId, m.groupState.memberGroups[p]? = m.graph.memberGroup[p]?
  groups : ∀ groupId : GroupId,
    m.groupState.groups[groupId]?.getD ∅ = m.graph.groups[groupId]?.getD ∅
  share : ∀ a b, a ≠ b → (m.groupState.clientsShareMixGroup a b ↔
    ∃ groupId, m.graph.IsMember a groupId ∧ m.graph.IsMember b groupId)

/-- What each side keeps by itself, whatever the calls. -/
structure SidesFit (m : ClientMixers D) : Prop where
  graph : m.graph.RoutesMatch []
  tracked : m.groupState.Listed

/-- A replaced list leaves nobody out, and nobody leaves the group with the empty name. -/
def KeepsAgreement (m : ClientMixers D) : MixerCall → Prop
  | .registerPeer _ _ => True
  | .unregisterPeer mixer peerId =>
    peerId ∈ m.registered mixer → m.graph.memberGroup[peerId]? ≠ some ""
  | .setGroupMembers groupId clientIds =>
    (∀ p, m.graph.IsMember p groupId → p ∈ clientIds) ∧
      (groupId ≠ "" → ∀ p ∈ clientIds, m.graph.memberGroup[p]? ≠ some "")
  | .moveToGroup clientId groupId => groupId ≠ "" → m.graph.memberGroup[clientId]? ≠ some ""
  | .removeFromGroup clientId => m.graph.memberGroup[clientId]? ≠ some ""

theorem sidesFit_new (D : MixDsp) : SidesFit (new D) where
  graph := (MixGraph.consistent_iff.mp MixGraph.new_consistent).1
  tracked := fun p groupId hentry => by
    rw [show (new D).groupState.memberGroups = ∅ from rfl, ExtTreeMap.getElem?_empty] at hentry
    cases hentry

theorem SidesFit.call (h : SidesFit m) (i : MixerCall) : SidesFit (m.call i) := by
  cases i with
  | registerPeer mixer peerId =>
    simp only [ClientMixers.call, registerPeer]
    split
    · exact h
    · exact ⟨⟨h.graph.entry, h.graph.routed, h.graph.unrouted⟩, h.tracked⟩
  | unregisterPeer mixer peerId =>
    simp only [ClientMixers.call, unregisterPeer]
    split
    · exact ⟨MixGraph.removeFromGroup_routesMatch (MixGraph.removeInput_routesMatch h.graph _) _,
        h.tracked.removeClientFromGroupTracking peerId⟩
    · exact h
  | setGroupMembers groupId clientIds =>
    exact ⟨MixGraph.setGroupMembers_routesMatch h.graph _ _, h.tracked.syncGroupMembers _ _⟩
  | moveToGroup clientId groupId =>
    exact ⟨MixGraph.moveToGroup_routesMatch h.graph _ _, h.tracked.assignClientToGroup _ _⟩
  | removeFromGroup clientId =>
    exact ⟨MixGraph.removeFromGroup_routesMatch h.graph _,
      h.tracked.removeClientFromGroupTracking clientId⟩

theorem agree_iff (h : SidesFit m) :
    Agree m ↔ (∀ p : ParticipantId, m.groupState.memberGroups[p]? = m.graph.memberGroup[p]?) ∧
      ∀ p groupId, m.groupState.IsMember p groupId ↔ m.graph.IsMember p groupId := by
  constructor
  · intro ha
    refine ⟨ha.entries, fun p groupId => ?_⟩
    rw [GraphGroupState.isMember_iff, MixGraph.isMember_iff, ha.groups]
  · rintro ⟨hentries, hmembers⟩
    refine ⟨hentries, fun groupId => ExtTreeSet.ext_mem fun p => ?_, fun a b _ => ?_⟩
    · rw [← GraphGroupState.isMember_iff, ← MixGraph.isMember_iff, hmembers]
    · have hlisted : ∀ p groupId, m.groupState.memberGroups[p]? = some groupId ↔
          m.graph.IsMember p groupId := fun p groupId =>
        ⟨fun hentry => (hmembers p groupId).mp (h.tracked p groupId hentry),
          fun hmem => (hentries p).trans (h.graph.entry p groupId hmem)⟩
      rw [GraphGroupState.clientsShareMixGroup_iff]
      simp only [hlisted]

theorem Agree.mirror (ha : Agree m) (h : SidesFit m) (p : ParticipantId) (groupId : GroupId) :
    m.graph.memberGroup[p]? = some groupId ↔ m.graph.IsMember p groupId := by
  refine ⟨fun hentry => ?_, h.graph.entry p groupId⟩
  rw [← ha.entries] at hentry
  exact (((agree_iff h).mp ha).2 p groupId).mp (h.tracked p groupId hentry)

theorem agree_withdraw_iff {m' : ClientMixers D} (id : ParticipantId) (ha : Agree m)
    (h : SidesFit m) (h' : SidesFit m')
    (hentries : ∀ p : ParticipantId, m'.graph.memberGroup[p]? =
      if p = id then none else m.graph.memberGroup[p]?)
    (hmembers : ∀ p other, m'.graph.IsMember p other ↔
      m.graph.IsMember p other ∧ ¬ (m.graph.memberGroup[id]? = some other ∧ p = id))
    (htracked : m'.groupState.memberGroups =
      (m.groupState.removeClientFromGroupTracking id).memberGroups)
    (hgroups : m'.groupState.groups = (m.groupState.removeClientFromGroupTracking id).groups) :
    Agree m' ↔ m.graph.memberGroup[id]? ≠ some "" := by
  obtain ⟨hsame, hlists⟩ := (agree_iff h).mp ha
  have hstate : ∀ p other, m'.groupState.IsMember p other ↔
      m.graph.IsMember p other ∧
        ¬ (m.graph.memberGroup[id]? = some other ∧ other ≠ "" ∧ p = id) := fun p other => by
    rw [← hsame, ← hlists, ← GraphGroupState.removeClientFromGroupTracking_isMember]
    unfold GraphGroupState.IsMember
    rw [hgroups]
  rw [agree_iff h']
  simp only [htracked, GraphGroupState.removeClientFromGroupTracking_memberGroups, hentries, hsame,
    hstate, hmembers]
  constructor
  · rintro ⟨hleft, -⟩ hempty
    have hid := hleft id
    rw [if_neg fun hgone => hgone.2 hempty, if_pos rfl, hempty] at hid
    cases hid
  · intro hnamed
    refine ⟨fun p => ?_, fun p other => and_congr_right fun _ => not_congr ?_⟩
    · by_cases hp : p = id
      · rw [if_pos ⟨hp, hnamed⟩, if_pos hp]
      · rw [if_neg fun hgone => hp hgone.1, if_neg hp]
    · refine ⟨fun hgone => ⟨hgone.1, hgone.2.2⟩, fun hgone => ⟨hgone.1, fun hempty => ?_, hgone.2⟩⟩
      exact hnamed (hempty ▸ hgone.1)

theorem agree_moveToGroup_iff (ha : Agree m) (h : SidesFit m) (id : ParticipantId)
    (groupId : GroupId) :
    Agree (m.call (.moveToGroup id groupId)) ↔
      (groupId ≠ "" → m.graph.memberGroup[id]? ≠ some "") := by
  obtain ⟨hsame, hlists⟩ := (agree_iff h).mp ha
  have hentries : ∀ p : ParticipantId, (m.graph.moveToGroup id groupId).memberGroup[p]? =
      if p = id then some groupId else m.graph.memberGroup[p]? := fun p => by
    rw [MixGraph.moveToGroup_memberGroup, OrdMap.lookup_insert, OrdMap.lookup_erase]
    split <;> rfl
  rw [agree_iff (h.call _)]
  show ((∀ p : ParticipantId, (m.groupState.assignClientToGroup id groupId).memberGroups[p]? =
    (m.graph.moveToGroup id groupId).memberGroup[p]?) ∧ ∀ p other,
    (m.groupState.assignClientToGroup id groupId).IsMember p other ↔
      (m.graph.moveToGroup id groupId).IsMember p other) ↔ _
  simp only [GraphGroupState.assignClientToGroup_memberGroups, hentries, hsame, implies_true,
    true_and, GraphGroupState.assignClientToGroup_isMember, MixGraph.moveToGroup_isMember, hlists]
  constructor
  · intro hsides hne hempty
    have hmem := (ha.mirror h id "").mp hempty
    have hold := (hsides id "").mp (.inr ⟨hmem, fun hgone => hgone.2.1 rfl⟩)
    rcases hold with hnew | hkept
    · exact hne hnew.1.symm
    · exact hkept.2 ⟨hempty, rfl⟩
  · intro hnamed p other
    by_cases hnew : other = groupId ∧ p = id
    · exact iff_of_true (.inl hnew) (.inl hnew)
    · refine or_congr_right (and_congr_right fun _ => not_congr ?_)
      refine ⟨fun hgone => ⟨hgone.1, hgone.2.2⟩, fun hgone => ⟨hgone.1, fun hempty => ?_, hgone.2⟩⟩
      have hne : groupId ≠ "" := fun heq => hnew ⟨hempty.trans heq.symm, hgone.2⟩
      exact hnamed hne (hempty ▸ hgone.1)

theorem agree_setGroupMembers_iff (ha : Agree m) (h : SidesFit m) (groupId : GroupId)
    (clientIds : List ParticipantId) :
    Agree (m.call (.setGroupMembers groupId clientIds)) ↔
      (∀ p, m.graph.IsMember p groupId → p ∈ clientIds) ∧
        (groupId ≠ "" → ∀ p ∈ clientIds, m.graph.memberGroup[p]? ≠ some "") := by
  obtain ⟨hsame, hlists⟩ := (agree_iff h).mp ha
  have h' := h.call (.setGroupMembers groupId clientIds)
  have hentries := m.graph.setGroupMembers_memberGroup groupId clientIds
  have hmembers : ∀ p other, (m.graph.setGroupMembers groupId clientIds).IsMember p other ↔
      (other = groupId ∧ p ∈ clientIds) ∨
        (other ≠ groupId ∧ m.graph.IsMember p other ∧ p ∉ clientIds) := fun p other => by
    obtain ⟨hself, hothers⟩ := m.graph.setGroupMembers_isMember groupId clientIds p
    by_cases hother : other = groupId
    · subst hother
      rw [hself]
      simp
    · by_cases hp : p ∈ clientIds
      · refine iff_of_false (fun hmem => ?_) (by simp [hother, hp])
        have hentry := h'.graph.entry p other hmem
        rw [show (m.call (.setGroupMembers groupId clientIds)).graph =
          m.graph.setGroupMembers groupId clientIds from rfl, hentries, if_pos hp,
          Option.some.injEq] at hentry
        exact hother hentry.symm
      · rw [hothers other hother hp]
        simp [hother, hp]
  have hown : ∀ p other, m.graph.IsMember p other → m.graph.memberGroup[p]? = some other :=
    h.graph.entry
  rw [agree_iff h']
  show ((∀ p : ParticipantId, (m.groupState.syncGroupMembers groupId clientIds).memberGroups[p]? =
    (m.graph.setGroupMembers groupId clientIds).memberGroup[p]?) ∧ ∀ p other,
    (m.groupState.syncGroupMembers groupId clientIds).IsMember p other ↔
      (m.graph.setGroupMembers groupId clientIds).IsMember p other) ↔ _
  refine and_congr ⟨fun hsides p hmem => ?_, fun hkept p => Option.ext fun other => ?_⟩
    ⟨fun hsides hne p hp hempty => ?_, fun hnamed p other => ?_⟩
  · by_contra hp
    have hentry : (m.groupState.syncGroupMembers groupId clientIds).memberGroups[p]? =
        some groupId := by
      rw [hsides, hentries, if_neg hp, hown p groupId hmem]
    rw [GraphGroupState.syncGroupMembers_memberGroups, if_neg hp] at hentry
    exact hentry.2 ((hlists p groupId).mpr hmem)
  · rw [GraphGroupState.syncGroupMembers_memberGroups, hentries]
    by_cases hp : p ∈ clientIds
    · rw [if_pos hp, if_pos hp, Option.some.injEq, eq_comm]
    · rw [if_neg hp, if_neg hp, hsame, hlists, and_iff_left fun hmem => hp (hkept p hmem)]
  · have hmem := (ha.mirror h p "").mp hempty
    have hold := (hsides p "").mp ((GraphGroupState.syncGroupMembers_isMember _ _ _ _ _).mpr
      (.inr ⟨Ne.symm hne, (hlists p "").mpr hmem, fun hgone => hgone.2.1 rfl⟩))
    rw [hmembers] at hold
    rcases hold with hnew | hkept
    · exact hne hnew.1.symm
    · exact hkept.2.2 hp
  · rw [GraphGroupState.syncGroupMembers_isMember, hmembers, hlists, hsame]
    refine or_congr_right (and_congr_right fun hother => and_congr_right fun hmem => not_congr ?_)
    refine ⟨fun hgone => hgone.2.2, fun hp => ⟨hown p other hmem, fun hempty => ?_, hp⟩⟩
    have hne : groupId ≠ "" := fun heq => hother (hempty.trans heq.symm)
    exact hnamed hne p hp (hempty ▸ hown p other hmem)

theorem agree_call_iff (ha : Agree m) (h : SidesFit m) (i : MixerCall) :
    Agree (m.call i) ↔ KeepsAgreement m i := by
  cases i with
  | registerPeer mixer peerId =>
    refine iff_of_true ?_ trivial
    simp only [call, registerPeer]
    split
    · exact ha
    · exact ⟨ha.entries, ha.groups, ha.share⟩
  | unregisterPeer mixer peerId =>
    have h' := h.call (.unregisterPeer mixer peerId)
    simp only [call, unregisterPeer] at h' ⊢
    by_cases hregistered : peerId ∈ m.registered mixer
    · have hcontains : (m.registered mixer).contains peerId = true :=
        ExtTreeSet.contains_iff_mem.mpr hregistered
      rw [if_pos hcontains] at h' ⊢
      obtain ⟨hentries, hmembers⟩ := m.graph.removeInput_frame peerId
      obtain ⟨hentries', hmembers'⟩ := (m.graph.removeInput peerId).removeFromGroup_frame peerId
      rw [agree_withdraw_iff peerId ha h h' (fun p => ?_) (fun p other => ?_) rfl rfl]
      · exact ⟨fun hnamed _ => hnamed, fun hnamed => hnamed hregistered⟩
      · rw [hentries', hentries]
        split <;> rfl
      · rw [hmembers', hmembers, hentries]
        simp
    · rw [if_neg fun hcontains => hregistered (ExtTreeSet.contains_iff_mem.mp hcontains)]
      exact iff_of_true ha fun hin => absurd hin hregistered
  | setGroupMembers groupId clientIds => exact agree_setGroupMembers_iff ha h groupId clientIds
  | moveToGroup clientId groupId => exact agree_moveToGroup_iff ha h clientId groupId
  | removeFromGroup clientId =>
    obtain ⟨hentries, hmembers⟩ := m.graph.removeFromGroup_frame clientId
    exact agree_withdraw_iff clientId ha h (h.call (.removeFromGroup clientId)) hentries hmembers
      rfl rfl

theorem agree_new (D : MixDsp) : Agree (new D) := by
  refine (agree_iff (sidesFit_new D)).mpr ⟨fun p => rfl, fun p groupId => ?_⟩
  simp [new, GraphGroupState.new, GraphGroupState.IsMember, MixGraph.new, MixGraph.IsMember]

/-- The mixers and the graph hold the same groups throughout a run exactly when no replaced list
leaves out a member and nobody leaves the group with the empty name. -/
theorem mirror_agrees_iff (D : MixDsp) (calls : List MixerCall) :
    (∀ pre m out, pre <+: calls → run step (new D) pre = some (m, out) → Agree m) ↔
      Along step KeepsAgreement (new D) calls :=
  prefix_invariant_iff (A := fun _ => True) (J := SidesFit)
    (fun m i h ha _ => ⟨m.call i, [], rfl, h.call i, agree_call_iff ha h i⟩) (sidesFit_new D)
    (agree_new D) fun _ _ => trivial

def shrinkingCalls : List MixerCall :=
  [.setGroupMembers "red" ["ann", "bob"], .setGroupMembers "red" ["bob"]]

/-- The tracking drops the entry of the member left out, the graph keeps it. -/
theorem shrunk_group_not_mirrored :
    ∃ m, run step (new silentDsp) shrinkingCalls = some (m, []) ∧
      m.groupState.memberGroups["ann"]? = none ∧ m.graph.memberGroup["ann"]? = some "red" ∧
      ¬ Agree m := by
  have htracked : ((GraphGroupState.new.syncGroupMembers "red" ["ann", "bob"]).syncGroupMembers
      "red" ["bob"]).memberGroups["ann"]? = none := by
    refine Option.eq_none_iff_forall_ne_some.mpr fun groupId hentry => ?_
    rw [GraphGroupState.syncGroupMembers_memberGroups] at hentry
    refine hentry.2 ((GraphGroupState.syncGroupMembers_isMember _ _ _ _ _).mpr (.inl ⟨rfl, ?_⟩))
    exact List.mem_cons_self
  have hgraph : (((MixGraph.new silentDsp).setGroupMembers "red" ["ann", "bob"]).setGroupMembers
      "red" ["bob"]).memberGroup["ann"]? = some "red" := by
    rw [MixGraph.setGroupMembers_memberGroup, if_neg (by decide),
      MixGraph.setGroupMembers_memberGroup, if_pos (by decide)]
  refine ⟨_, rfl, htracked, hgraph, fun ha => ?_⟩
  exact absurd (htracked.symm.trans ((ha.entries "ann").trans hgraph)) (by simp)

end ClientMixers

end NodeWebrtc.Mixer
