import NodeWebrtc.Mixer.AllowList

/-! # Ids that the graph forgets

What the graph holds for an id: a slot, a cursor, mutes and routes. Each operation on another
id leaves a forgotten one forgotten; the removal of an input forgets its id. Only pushing a frame
under the id, adding it, rendering it or muting it brings something back.
-/

namespace NodeWebrtc.Mixer

open Std

variable {D : MixDsp}

/-! ## Forgotten ids -/

/-- The graph holds nothing for the id: no slot, no cursor, no mute and no route. -/
structure Forgets (g : MixGraph D) (id : ParticipantId) : Prop where
  input : g.inputs[id]? = none
  cursor : g.listenerTicks[id]? = none
  globalMute : g.isGloballyMuted id = false
  mutes : ∀ other : ParticipantId,
    g.listenerMute[(id, other)]? = none ∧ g.listenerMute[(other, id)]? = none
  route : g.listenerRoutes[id]? = none
  routed : ∀ (l : ParticipantId) (sources : ExtTreeSet ParticipantId),
    g.listenerRoutes[l]? = some sources → id ∉ sources

variable {g : MixGraph D} {id : ParticipantId}

theorem forgets_new : Forgets (MixGraph.new D) id where
  input := ExtTreeMap.getElem?_empty
  cursor := ExtTreeMap.getElem?_empty
  globalMute := rfl
  mutes := fun _ => ⟨ExtTreeMap.getElem?_empty, ExtTreeMap.getElem?_empty⟩
  route := ExtTreeMap.getElem?_empty
  routed := fun l sources h => by
    have hnone : (MixGraph.new D).listenerRoutes[l]? = none := ExtTreeMap.getElem?_empty
    rw [hnone] at h
    cases h

section

variable (h : Forgets g id)
include h

theorem forgets_addInput {other : ParticipantId} (hne : id ≠ other) :
    Forgets (g.addInput other) id := by
  refine ⟨?_, h.cursor, h.globalMute, h.mutes, h.route, h.routed⟩
  show (g.inputs.insertIfNew other (.new D))[id]? = none
  rw [ExtTreeMap.getElem?_insertIfNew]
  simp [h.input, hne.symm]

theorem forgets_pushFrameAt {other : ParticipantId} (hne : id ≠ other) (frame : Frame)
    (now : Instant) : Forgets (g.pushFrameAt other frame now) id := by
  refine ⟨?_, h.cursor, h.globalMute, h.mutes, h.route, h.routed⟩
  show (g.inputs.insert other _)[id]? = none
  rw [OrdMap.lookup_insert, if_neg hne]
  exact h.input

theorem forgets_noteDecodeError (other : ParticipantId) : Forgets (g.noteDecodeError other) id := by
  refine ⟨?_, h.cursor, h.globalMute, h.mutes, h.route, h.routed⟩
  show (g.inputs.modify other _)[id]? = none
  rw [OrdMap.lookup_modify, h.input]
  split <;> rfl

theorem forgets_setGlobalMute {target : ParticipantId} (hne : id ≠ target) (muted : Bool) :
    Forgets (g.setGlobalMute target muted) id := by
  have hmute := h.globalMute
  rw [MixGraph.isGloballyMuted] at hmute
  cases muted with
  | true =>
    refine ⟨h.input, h.cursor, ?_, h.mutes, h.route, h.routed⟩
    show (g.globalMute.insert target).contains id = false
    rw [ExtTreeSet.contains_insert, hmute]
    simp [hne.symm]
  | false =>
    refine ⟨h.input, h.cursor, ?_, h.mutes, h.route, h.routed⟩
    show (g.globalMute.erase target).contains id = false
    rw [ExtTreeSet.contains_erase, hmute, Bool.and_false]

theorem forgets_setListenerMute {listener target : ParticipantId} (hl : id ≠ listener)
    (ht : id ≠ target) (muted : Bool) :
    Forgets (g.setListenerMute listener target muted) id := by
  cases muted with
  | true =>
    refine ⟨h.input, h.cursor, h.globalMute, fun other => ?_, h.route, h.routed⟩
    show (g.listenerMute.insert (listener, target) true)[(id, other)]? = none ∧
      (g.listenerMute.insert (listener, target) true)[(other, id)]? = none
    rw [ExtTreeMap.getElem?_insert, ExtTreeMap.getElem?_insert, if_neg, if_neg]
    · exact h.mutes other
    · rw [LawfulEqCmp.compare_eq_iff_eq, Prod.mk.injEq]
      exact fun heq => ht heq.2.symm
    · rw [LawfulEqCmp.compare_eq_iff_eq, Prod.mk.injEq]
      exact fun heq => hl heq.1.symm
  | false =>
    refine ⟨h.input, h.cursor, h.globalMute, fun other => ?_, h.route, h.routed⟩
    show (g.listenerMute.erase (listener, target))[(id, other)]? = none ∧
      (g.listenerMute.erase (listener, target))[(other, id)]? = none
    rw [ExtTreeMap.getElem?_erase, ExtTreeMap.getElem?_erase, (h.mutes other).1, (h.mutes other).2]
    exact ⟨ite_self _, ite_self _⟩

theorem forgets_advanceTo (now : Instant) : Forgets (g.advanceTo now) id := by
  unfold MixGraph.advanceTo
  cases g.clock with
  | none => exact ⟨h.input, h.cursor, h.globalMute, h.mutes, h.route, h.routed⟩
  | some clock =>
    dsimp only
    split
    · exact h
    · refine ⟨?_, h.cursor, h.globalMute, h.mutes, h.route, h.routed⟩
      show (g.inputs.map _)[id]? = none
      rw [ExtTreeMap.getElem?_map, h.input]
      rfl

end

theorem lookup_foldl_modify {heard : List ParticipantId}
    {f : SourceSlot D → SourceSlot D} {inputs : ExtTreeMap ParticipantId (SourceSlot D)}
    (h : inputs[id]? = none) :
    (heard.foldl (fun inputs k => inputs.modify k f) inputs)[id]? = none := by
  induction heard generalizing inputs with
  | nil => exact h
  | cons k heard ih =>
    rw [List.foldl_cons]
    apply ih
    rw [OrdMap.lookup_modify, h]
    split <;> rfl

theorem forgets_render {t : MixGraph D} {listener : ParticipantId} {now : Instant}
    {rendered : Rendered} (h : Forgets g id) (hne : id ≠ listener)
    (hr : g.render listener now = some (rendered, t)) : Forgets t id := by
  have hadvance := forgets_advanceTo h now
  simp only [MixGraph.render, MixGraph.nextListenerStep, Option.map_map, Option.map_eq_some_iff] at hr
  obtain ⟨⟨step, after⟩, -, heq⟩ := hr
  dsimp only [Function.comp] at heq
  have hcursor : ((g.advanceTo now).listenerTicks.insert listener after)[id]? = none := by
    rw [OrdMap.lookup_insert, if_neg hne]
    exact hadvance.cursor
  split at heq <;> rw [← (Prod.mk.inj heq).2]
  · exact ⟨hadvance.input, hcursor, hadvance.globalMute, hadvance.mutes, hadvance.route,
      hadvance.routed⟩
  · unfold MixGraph.countHeard
    dsimp only
    split
    · exact ⟨lookup_foldl_modify hadvance.input, hcursor, hadvance.globalMute, hadvance.mutes,
        hadvance.route, hadvance.routed⟩
    · exact ⟨hadvance.input, hcursor, hadvance.globalMute, hadvance.mutes, hadvance.route,
        hadvance.routed⟩

/-- No route and no group: the room sets neither. -/
structure Unrouted (g : MixGraph D) : Prop where
  routes : ∀ l : ParticipantId, g.listenerRoutes[l]? = none
  groups : ∀ l : ParticipantId, g.memberGroup[l]? = none

section

variable (h : Unrouted g)
include h

theorem Unrouted.same {t : MixGraph D} (hs : g.SameRouting t) : Unrouted t :=
  ⟨fun l => by rw [hs.routes]; exact h.routes l, fun l => by rw [hs.entries]; exact h.groups l⟩

theorem removeInput_unrouted (other : ParticipantId) :
    Unrouted (g.removeInput other) ∧
      (g.removeInput other).inputs = g.inputs.erase other ∧
      (g.removeInput other).listenerTicks = g.listenerTicks.erase other ∧
      (g.removeInput other).globalMute = g.globalMute.erase other ∧
      (g.removeInput other).listenerMute =
        g.listenerMute.filter fun key _ => key.1 ≠ other && key.2 ≠ other := by
  unfold MixGraph.removeInput
  rw [h.groups other]
  refine ⟨⟨fun l => ?_, fun l => ?_⟩, rfl, rfl, rfl, rfl⟩
  · show (g.listenerRoutes.filterMap (MixGraph.pruneRoute other))[l]? = none
    rw [ExtTreeMap.getElem?_filterMap', h.routes l]
    rfl
  · show (g.memberGroup.erase other)[l]? = none
    rw [OrdMap.lookup_erase, h.groups l]
    split <;> rfl

theorem forgets_of_unrouted (input : g.inputs[id]? = none) (cursor : g.listenerTicks[id]? = none)
    (globalMute : g.isGloballyMuted id = false) (mutes : ∀ other : ParticipantId,
      g.listenerMute[(id, other)]? = none ∧ g.listenerMute[(other, id)]? = none) :
    Forgets g id :=
  ⟨input, cursor, globalMute, mutes, h.routes id, fun l sources hl => by
    rw [h.routes l] at hl
    cases hl⟩

theorem forgets_removeInput {other : ParticipantId} (hid : id = other ∨ Forgets g id) :
    Forgets (g.removeInput other) id := by
  obtain ⟨hunrouted, hinputs, hticks, hglobal, hmutes⟩ := removeInput_unrouted h other
  refine forgets_of_unrouted hunrouted ?_ ?_ ?_ fun k => ?_
  · rw [hinputs, OrdMap.lookup_erase]
    split
    · rfl
    · next hne => exact (hid.resolve_left hne).input
  · rw [hticks, OrdMap.lookup_erase]
    split
    · rfl
    · next hne => exact (hid.resolve_left hne).cursor
  · rw [MixGraph.isGloballyMuted, hglobal, ExtTreeSet.contains_erase]
    rcases hid with rfl | hid
    · simp
    · have hmute := hid.globalMute
      rw [MixGraph.isGloballyMuted] at hmute
      rw [hmute, Bool.and_false]
  · rw [hmutes, ExtTreeMap.getElem?_filter', ExtTreeMap.getElem?_filter']
    rcases hid with rfl | hid
    · constructor
      · cases g.listenerMute[(id, k)]? with
        | none => rfl
        | some b => simp
      · cases g.listenerMute[(k, id)]? with
        | none => rfl
        | some b => simp
    · rw [(hid.mutes k).1, (hid.mutes k).2]
      exact ⟨rfl, rfl⟩

theorem Unrouted.setGlobalMute (target : ParticipantId) (muted : Bool) :
    Unrouted (g.setGlobalMute target muted) := by
  cases muted <;> exact ⟨h.routes, h.groups⟩

theorem Unrouted.setListenerMute (listener target : ParticipantId) (muted : Bool) :
    Unrouted (g.setListenerMute listener target muted) := by
  cases muted <;> exact ⟨h.routes, h.groups⟩

end

end NodeWebrtc.Mixer
