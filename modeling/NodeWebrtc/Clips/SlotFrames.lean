import NodeWebrtc.Clips.DirectOverlay

/-! # One frame for each slot

A slot is whole when the overlay and the drain write at most one frame in it, the sum of what the
slot gave. Every clip frame, every tick of the tee's interval and every drained TTS frame brings a
write of its own, so slots stay whole where only one of them comes in each, and where a job is not
left to the next slot. The cells then never hold two frames.
-/

namespace NodeWebrtc.Clips.Overlay

open Machine

variable {V : Type} {scale : PcmFrame → V → PcmFrame}

namespace DirectOverlayPeer

/-- One source writes in a slot: a tick finds no job waiting and at most one play with a full
frame; the interval of the tee, or a TTS frame of a peer without a tee, comes alone. -/
def OneSource (scale : PcmFrame → V → PcmFrame) (used : Bool) (o : DirectOverlayPeer V) :
    OverlayInput V → Prop
  | .tick taken => o.writeChain = 0 ∧ (o.clips scale taken).length ≤ 1
  | .pumpTick => used = false
  | .drain _ => used = false ∧ o.pumpInterval = false
  | _ => True

def usedAfter (scale : PcmFrame → V → PcmFrame) (used : Bool) (o : DirectOverlayPeer V) :
    OverlayInput V → Bool
  | .tick taken => !(o.clips scale taken).isEmpty
  | .pumpTick | .drain _ => true
  | _ => used

def Spaced (scale : PcmFrame → V → PcmFrame) (used : Bool) (o : DirectOverlayPeer V) :
    List (OverlayInput V) → Prop
  | [] => True
  | i :: is => OneSource scale used o i ∧
      ∀ o' es, o.step scale i = some (o', es) → Spaced scale (usedAfter scale used o i) o' is

/-- How far the slot is: no source yet, its job waits for the write before it, or its frame was
written. -/
inductive Phase (o : DirectOverlayPeer V) (s : Slots) : Bool → Prop
  | unused (chain : o.writeChain = 0) (clip : o.pendingClip = none) (given : s.given = [])
      (wrote : s.wrote = []) : Phase o s false
  | waiting (chain : o.writeChain = 1) (writing : o.writing = true)
      (given : s.given = o.pendingClip.toList) (wrote : s.wrote = []) : Phase o s true
  | written (chain : o.writeChain = 0) (clip : o.pendingClip = none)
      (wrote : s.wrote = [mixOf s.given]) : Phase o s true

theorem Phase.frame {o o' : DirectOverlayPeer V} {s : Slots} {used : Bool} (h : Phase o s used)
    (hchain : o'.writeChain = o.writeChain) (hclip : o'.pendingClip = o.pendingClip)
    (hwriting : o'.writing = o.writing) : Phase o' s used := by
  cases h with
  | unused chain clip given wrote =>
    exact .unused (hchain.trans chain) (hclip.trans clip) given wrote
  | waiting chain writing given wrote =>
    exact .waiting (hchain.trans chain) (hwriting.trans writing) (hclip ▸ given) wrote
  | written chain clip wrote => exact .written (hchain.trans chain) (hclip.trans clip) wrote

structure InSlot (o : DirectOverlayPeer V) (s : Slots) (used : Bool) : Prop where
  fine : s.fine
  tts : o.pendingTts = none
  tee : o.teeCalls = []
  phase : Phase o s used

variable {o o' : DirectOverlayPeer V} {s : Slots} {used : Bool}

theorem InSlot.whole (h : InSlot o s used) : s.Whole := by
  cases h.phase with
  | unused chain clip given wrote | waiting chain writing given wrote =>
    exact ⟨h.fine, by rw [wrote]; decide, by rw [wrote]; exact nofun⟩
  | written chain clip wrote =>
    refine ⟨h.fine, by rw [wrote]; exact Nat.le_refl 1, fun frame hframe => ?_⟩
    rw [wrote] at hframe
    exact List.mem_singleton.mp hframe

theorem InSlot.queued (hfine : s.fine) (htts : o.pendingTts = none) (htee : o.teeCalls = [])
    (hchain : o.writeChain = 1) (hgiven : s.given = o.pendingClip.toList) (hwrote : s.wrote = []) :
    InSlot o.pumpDirectOverlay.1 (o.pumpDirectOverlay.2.foldl Slots.see s) true := by
  cases hw : o.writing with
  | true =>
    have hwait : o.pumpDirectOverlay = (o, []) := by simp [pumpDirectOverlay, hw]
    rw [hwait]
    exact ⟨hfine, htts, htee, .waiting hchain hw hgiven hwrote⟩
  | false =>
    have hframe : sumStereoPcm (o.pendingTts.getD silence) (o.pendingClip.getD silence) =
        mixOf s.given := by
      rw [htts, hgiven, Option.getD_none, sumStereoPcm_silence]
      cases o.pendingClip with
      | none => rfl
      | some frame => exact (mixOf_singleton frame).symm
    rw [pumpDirectOverlay, if_pos ⟨by omega, hw⟩, hframe]
    refine ⟨hfine, rfl, htee, .written (by rw [hchain]) rfl ?_⟩
    show s.wrote ++ [mixOf s.given] = _
    rw [hwrote]
    rfl

section

variable (h : InSlot o s used)
include h

theorem InSlot.idle (hchain : o.writeChain = 0) :
    InSlot o.pumpDirectOverlay.1 (o.pumpDirectOverlay.2.foldl Slots.see s) used := by
  have hnone : o.pumpDirectOverlay = (o, []) := by
    rw [pumpDirectOverlay, if_neg]
    rintro ⟨hpos, -⟩
    omega
  rw [hnone]
  exact h

theorem InSlot.ended (hchain : o.writeChain = 0) :
    o.pendingClip = none ∧ (s.given ≠ [] → s.wrote ≠ []) := by
  cases h.phase with
  | unused chain clip given wrote => exact ⟨clip, fun hgiven => absurd given hgiven⟩
  | waiting chain => omega
  | written chain clip wrote => exact ⟨clip, fun _ => by rw [wrote]; exact List.cons_ne_nil _ _⟩

theorem InSlot.tick {taken : Nat → Taken} {es : List OverlayEvent}
    (hone : OneSource scale used o (.tick taken)) (hs : o.step scale (.tick taken) = some (o', es))
    :
    InSlot o' (es.foldl Slots.see s) (usedAfter scale used o (.tick taken)) := by
  obtain ⟨hchain, hclips⟩ := hone
  obtain ⟨hclip, hended⟩ := h.ended hchain
  have hover : (s.see .slot).fine := ⟨h.whole, hended⟩
  simp only [step] at hs
  cases hc : o.clips scale taken with
  | nil =>
    rw [hc, offerAll] at hs
    cases hs
    rw [usedAfter, hc]
    exact InSlot.idle ⟨hover, h.tts, h.tee, .unused hchain hclip rfl rfl⟩ hchain
  | cons frame frames =>
    obtain rfl : frames = [] := by
      rw [hc, List.length_cons] at hclips
      exact List.eq_nil_of_length_eq_zero (by omega)
    rw [hc, offerAll, offerAll, offer, hclip] at hs
    cases hs
    rw [usedAfter, hc]
    exact InSlot.queued hover h.tts h.tee (by rw [hchain]) rfl rfl

theorem InSlot.step {i : OverlayInput V} {es : List OverlayEvent} (hone : OneSource scale used o i)
    (hs : o.step scale i = some (o', es)) :
    InSlot o' (es.foldl Slots.see s) (usedAfter scale used o i) := by
  cases i with
  | play play | stop playId | wireDirectOutboundTee =>
    cases hs
    exact ⟨h.fine, h.tts, h.tee, h.phase.frame rfl rfl rfl⟩
  | tick taken => exact h.tick hone hs
  | pumpTick =>
    obtain rfl : used = false := hone
    cases h.phase with
    | unused chain clip given wrote =>
      simp only [DirectOverlayPeer.step] at hs
      split at hs <;> cases hs
      refine InSlot.queued h.fine h.tts h.tee (by rw [chain]) ?_ wrote
      rw [given, clip]
      rfl
  | drain frame =>
    obtain ⟨hunused, hwired⟩ := hone
    subst hunused
    cases h.phase with
    | unused chain clip given wrote =>
      simp only [DirectOverlayPeer.step, hwired, Bool.false_eq_true, if_false] at hs
      cases hs
      refine ⟨h.fine, h.tts, h.tee, .written chain clip ?_⟩
      show s.wrote ++ [frame] = [mixOf (s.given ++ [frame])]
      rw [given, wrote]
      exact congrArg (fun f => [f]) (mixOf_singleton frame).symm
  | tee =>
    simp only [DirectOverlayPeer.step, h.tee] at hs
    cases hs
  | writeSettled =>
    simp only [DirectOverlayPeer.step] at hs
    split at hs <;> cases hs
    cases h.phase with
    | unused chain clip given wrote =>
      exact InSlot.idle (o := { o with writing := false })
        ⟨h.fine, h.tts, h.tee, .unused chain clip given wrote⟩ chain
    | waiting chain writing given wrote =>
      exact InSlot.queued (o := { o with writing := false }) h.fine h.tts h.tee chain given wrote
    | written chain clip wrote =>
      exact InSlot.idle (o := { o with writing := false })
        ⟨h.fine, h.tts, h.tee, .written chain clip wrote⟩ chain

theorem InSlot.run {is : List (OverlayInput V)} {es : List OverlayEvent}
    (hspaced : Spaced scale used o is)
    (hr : Machine.run (DirectOverlayPeer.step scale) o is = some (o', es)) :
    (es.foldl Slots.see s).Whole := by
  induction is generalizing o s used es with
  | nil =>
    cases hr
    exact h.whole
  | cons i is ih =>
    obtain ⟨t, out, outs, hs, htail, rfl⟩ := run_cons_eq_some.mp hr
    rw [List.foldl_append]
    exact ih (h.step hspaced.1 hs) (hspaced.2 t out hs) htail

end

/-- In a run with one source in each slot every slot is whole. -/
theorem slots_whole {is : List (OverlayInput V)} {es : List OverlayEvent}
    (hspaced : Spaced scale false (new : DirectOverlayPeer V) is)
    (hr : Machine.run (step scale) new is = some (o', es)) : (slots es).Whole :=
  InSlot.run ⟨trivial, rfl, rfl, .unused rfl rfl rfl rfl⟩ hspaced hr

theorem Spaced.cons {i : OverlayInput V} {is : List (OverlayInput V)} {es : List OverlayEvent}
    (hone : OneSource scale used o i) (hs : o.step scale i = some (o', es))
    (h : Spaced scale (usedAfter scale used o i) o' is) : Spaced scale used o (i :: is) := by
  refine ⟨hone, fun t out ht => ?_⟩
  rw [hs] at ht
  cases ht
  exact h

/-- A play without its volume, for the runs below. -/
def alone : ActivePlay Unit := ⟨1, ()⟩

def taking : Nat → Taken := fun _ => ⟨some silence, false⟩

def unscaled (frame : PcmFrame) (_ : Unit) : PcmFrame := frame

theorem slots_whole_alone :
    ∃ o es, run (step unscaled) new
      [.play alone, .tick taking, .writeSettled, .tick taking, .writeSettled] = some (o, es) ∧
        (slots es).Whole := by
  have hspaced : Spaced unscaled false new
      [.play alone, .tick taking, .writeSettled, .tick taking, .writeSettled] := by
    refine Spaced.cons trivial rfl (Spaced.cons ⟨rfl, Nat.le_refl 1⟩ rfl ?_)
    exact Spaced.cons trivial rfl (Spaced.cons ⟨rfl, Nat.le_refl 1⟩ rfl (Spaced.cons trivial rfl trivial))
  obtain ⟨⟨o, es⟩, hr⟩ : ∃ r, run (step unscaled) new
      [.play alone, .tick taking, .writeSettled, .tick taking, .writeSettled] = some r := ⟨_, rfl⟩
  exact ⟨o, es, hr, slots_whole hspaced hr⟩

/-- Two plays share the cell and one frame is lost; a clip frame and the interval of the tee write
twice; so do the drain and the interval. -/
theorem not_whole_of_two_sources :
    (∃ o es, run (step unscaled) new [.play alone, .play ⟨2, ()⟩, .tick taking] = some (o, es) ∧
      ¬(slots es).Whole) ∧
    (∃ o es, run (step unscaled) new
      [.play alone, .wireDirectOutboundTee, .tick taking, .writeSettled, .pumpTick] = some (o, es) ∧
        ¬(slots es).Whole) ∧
    ∃ o es, run (step unscaled) new
      [.wireDirectOutboundTee, .drain silence, .tee, .pumpTick] = some (o, es) ∧ ¬(slots es).Whole := by
  refine ⟨⟨_, _, rfl, fun h => h.fine⟩, ⟨_, _, rfl, fun h => ?_⟩, ⟨_, _, rfl, fun h => ?_⟩⟩
  · exact Nat.not_succ_le_self 1 h.atMostOne
  · exact Nat.not_succ_le_self 1 h.atMostOne

end DirectOverlayPeer

end NodeWebrtc.Clips.Overlay
