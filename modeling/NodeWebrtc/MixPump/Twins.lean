import NodeWebrtc.Lib.Simulation
import NodeWebrtc.MixPump.Helpers
import NodeWebrtc.MixPump.Playout

/-! # The two pumps agree

The native pump and the helpers pump in lock step. The relation follows the fields of the
two states; the native skip count is compared as the next tick will see it, after it notices
what was queued since the last one. The two differ where a discard leaves the native flag of
a non-empty queue set, where a resume finds the pump running, where frames are queued at an
instant a tick has already noticed, and where a slot number outgrows its word.
-/

namespace NodeWebrtc.MixPump

open Machine
open Mixer (FRAME_BYTES)

/-! ## Slots -/

/-- The schedulers and the queues of the two pumps in the middle of a tick. -/
structure SlotTwin (c : PumpScheduler) (q : NativeTtsQueue) (s : PeerMixState) : Prop where
  frames : q.frames = s.ttsQueue
  anchor : (c.anchor : Int) = s.pumpT0
  written : (c.written : Int) = s.pumpWritten
  skips : c.consecutiveSkips = s.consecutiveTtsSkips

theorem ms_frame : ms PCM_FRAME_DURATION_MS = 20000000 := rfl

theorem playSlot_frame (s : PeerMixState) (now : Int) (tts : Option (List UInt8)) :
    (s.playSlot now tts).1.sidecarLeftover = s.sidecarLeftover ∧
      (s.playSlot now tts).1.pumpInterval = s.pumpInterval ∧
      (s.playSlot now tts).1.lastSidecarEnqueueAt = s.lastSidecarEnqueueAt ∧
      (s.playSlot now tts).1.queueWasNonEmptyLastTick = s.queueWasNonEmptyLastTick := by
  unfold PeerMixState.playSlot
  cases tts with
  | some frame => exact ⟨rfl, rfl, rfl, rfl⟩
  | none =>
    simp only
    split <;> exact ⟨rfl, rfl, rfl, rfl⟩

theorem slot_time_twin {a written : Nat} (h : written + 1 < 2 ^ 32) :
    ((a + PUMP_FRAME * asU32 (written + 1) : Nat) : Int) =
      a + ((written : Int) + 1) * ms PCM_FRAME_DURATION_MS := by
  rw [asU32_of_lt h, pumpFrame_eq, ms_frame]
  omega

variable {c : PumpScheduler} {q : NativeTtsQueue} {s : PeerMixState}

theorem SlotTwin.pop (h : SlotTwin c q s) :
    SlotTwin c q.pop.2 s.tryDequeueTts.2 ∧ q.pop.1 = s.tryDequeueTts.1 :=
  ⟨⟨congrArg List.tail h.frames, h.anchor, h.written, h.skips⟩, congrArg List.head? h.frames⟩

/-- One slot: the same decision at the same time, as long as the pumps agree on whether the
stream is active or a frame was dequeued. -/
theorem planSlot_twin {now : Int} {ttsActive : Bool} {tts : Option (List UInt8)}
    (h : SlotTwin c q s) (hfit : c.written + 1 < 2 ^ 32)
    (hactive : ttsActive = s.isTtsStreamActive now ∨ tts ≠ none) :
    SlotTwin (c.planSlot ttsActive tts).1 q (s.playSlot now tts).1 ∧
      (s.playSlot now tts).2 = (c.planSlot ttsActive tts).2.map (fun t : Nat => (t : Int)) := by
  have htime := (slot_time_twin (a := c.anchor) hfit).symm
  rw [h.anchor, h.written] at htime
  have hwritten : ((c.written + 1 : Nat) : Int) = s.pumpWritten + 1 := by
    rw [← h.written]
    rfl
  unfold PumpScheduler.planSlot PeerMixState.playSlot
  cases tts with
  | some frame =>
    exact ⟨⟨h.frames, h.anchor, hwritten, rfl⟩, congrArg (SlotDecision.tts frame) htime⟩
  | none =>
    have hsame : ttsActive = s.isTtsStreamActive now := hactive.resolve_right (fun hne => hne rfl)
    simp only [hsame, h.skips]
    split
    · exact ⟨⟨h.frames, h.anchor, hwritten, rfl⟩, congrArg SlotDecision.skip htime⟩
    · exact ⟨⟨h.frames, h.anchor, hwritten, rfl⟩, congrArg SlotDecision.silence htime⟩

theorem pumpSlots_frame (now : Int) (budget : Nat) (s : PeerMixState) :
    (s.pumpSlots now budget).1.sidecarLeftover = s.sidecarLeftover ∧
      (s.pumpSlots now budget).1.pumpInterval = s.pumpInterval ∧
      (s.pumpSlots now budget).1.lastSidecarEnqueueAt = s.lastSidecarEnqueueAt := by
  induction budget generalizing s with
  | zero => exact ⟨rfl, rfl, rfl⟩
  | succ budget ih =>
    obtain ⟨hleftover, hinterval, hlast, -⟩ :=
      playSlot_frame s.tryDequeueTts.2 now s.tryDequeueTts.1
    obtain ⟨ihleftover, ihinterval, ihlast⟩ :=
      ih (s.tryDequeueTts.2.playSlot now s.tryDequeueTts.1).1
    exact ⟨ihleftover.trans hleftover, ihinterval.trans hinterval, ihlast.trans hlast⟩

theorem planSlots_frame (now : Instant) (ttsActive : Bool) (budget : Nat) (c : PumpScheduler)
    (q : NativeTtsQueue) :
    (c.planSlots now ttsActive q (fun _ => []) budget).2.1.carry = q.carry ∧
      (c.planSlots now ttsActive q (fun _ => []) budget).2.1.lastEnqueue = q.lastEnqueue := by
  induction budget generalizing c q with
  | zero => exact ⟨rfl, rfl⟩
  | succ budget ih => exact ih (c.planSlot ttsActive q.pop.1).1 q.pop.2

theorem planSlots_left (now : Instant) (ttsActive : Bool) (budget : Nat) (c : PumpScheduler)
    (q : NativeTtsQueue)
    (h : (c.planSlots now ttsActive q (fun _ => []) (budget + 1)).2.1.frames ≠ []) :
    (c.planSlots now ttsActive q (fun _ => []) (budget + 1)).1.consecutiveSkips = 0 := by
  induction budget generalizing c q with
  | zero =>
    obtain ⟨frames, carry, last, depth⟩ := q
    cases frames with
    | nil => exact absurd rfl h
    | cons frame frames => rfl
  | succ budget ih => exact ih (c.planSlot ttsActive q.pop.1).1 q.pop.2 h

variable {now : Nat}

/-- The slot loops agree when the pumps agree on whether the stream is active, or when there
is a frame for every slot. -/
theorem planSlots_twin {ttsActive : Bool} {budget : Nat} (h : SlotTwin c q s)
    (hfit : c.written + budget < 2 ^ 32)
    (hactive : ttsActive = s.isTtsStreamActive now ∨ budget ≤ q.frames.length) :
    SlotTwin (c.planSlots now ttsActive q (fun _ => []) budget).1
        (c.planSlots now ttsActive q (fun _ => []) budget).2.1 (s.pumpSlots now budget).1 ∧
      (s.pumpSlots now budget).2 =
        (c.planSlots now ttsActive q (fun _ => []) budget).2.2.map
          (PumpEvent.map fun t : Nat => (t : Int)) := by
  induction budget generalizing c q s with
  | zero => exact ⟨h, rfl⟩
  | succ budget ih =>
    obtain ⟨hpop, htts⟩ := h.pop
    have hslot : ttsActive = s.tryDequeueTts.2.isTtsStreamActive now ∨ q.pop.1 ≠ none := by
      rcases hactive with hsame | henough
      · exact Or.inl hsame
      · refine Or.inr fun hnone => ?_
        rw [List.head?_eq_none_iff.mp hnone] at henough
        exact absurd henough (by simp)
    obtain ⟨htwin, hdecision⟩ := planSlot_twin hpop (by omega) hslot
    have hrest : ttsActive = (s.tryDequeueTts.2.playSlot now q.pop.1).1.isTtsStreamActive now ∨
        budget ≤ q.pop.2.frames.length := by
      rcases hactive with hsame | henough
      · obtain ⟨-, -, hlast, hflag⟩ := playSlot_frame s.tryDequeueTts.2 now q.pop.1
        refine Or.inl ?_
        simp only [PeerMixState.isTtsStreamActive, hlast, hflag]
        exact hsame
      · refine Or.inr ?_
        simp only [NativeTtsQueue.pop, List.length_tail]
        omega
    have hwritten := (planSlot_spec c ttsActive q.pop.1).2.1
    obtain ⟨hall, hevents⟩ := ih htwin (by omega) hrest
    have hround : s.pumpSlots now (budget + 1) =
        (((s.tryDequeueTts.2.playSlot now q.pop.1).1.pumpSlots now budget).1,
          .slot now (s.tryDequeueTts.2.playSlot now q.pop.1).2 ::
            ((s.tryDequeueTts.2.playSlot now q.pop.1).1.pumpSlots now budget).2) := by
      rw [htts]
      rfl
    rw [hround, hdecision, hevents]
    exact ⟨hall, rfl⟩

/-- The schedulers and the queues of the two pumps between ticks. A discard clears the queue
flag of the helpers only; the native flag is set only after a slot that played a frame. -/
structure PumpTwin (c : PumpScheduler) (q : NativeTtsQueue) (s : PeerMixState) : Prop
    extends SlotTwin c q s where
  carry : q.carry = s.sidecarLeftover
  last : q.lastEnqueue.map (fun t : Nat => (t : Int)) = s.lastSidecarEnqueueAt
  flag : s.queueWasNonEmptyLastTick = true → c.queueWasNonEmpty = true
  fresh : c.queueWasNonEmpty = true → c.consecutiveSkips = 0

theorem planDue_twin {ttsActive : Bool} {budget : Nat} (hbudget : 0 < budget) (h : PumpTwin c q s)
    (hfit : c.written + budget < 2 ^ 32)
    (hactive : ttsActive = s.isTtsStreamActive now ∨ budget ≤ q.frames.length) :
    PumpTwin (c.planDue q now ttsActive (fun _ => []) budget).1
        (c.planDue q now ttsActive (fun _ => []) budget).2.1
        { (s.pumpSlots now budget).1 with
          queueWasNonEmptyLastTick := !(s.pumpSlots now budget).1.ttsQueue.isEmpty } ∧
      (s.pumpSlots now budget).2 =
        (c.planDue q now ttsActive (fun _ => []) budget).2.2.map
          (PumpEvent.map fun t : Nat => (t : Int)) := by
  obtain ⟨htwin, hevents⟩ := planSlots_twin h.toSlotTwin hfit hactive
  obtain ⟨hcarry, hlast⟩ := planSlots_frame now ttsActive budget c q
  obtain ⟨hleftover, -, hlast'⟩ := pumpSlots_frame now budget s
  refine ⟨⟨⟨htwin.frames, htwin.anchor, htwin.written, htwin.skips⟩, ?_, ?_, ?_, ?_⟩, ?_⟩
  · exact hcarry.trans (h.carry.trans hleftover.symm)
  · refine Eq.trans ?_ (h.last.trans hlast'.symm)
    exact congrArg (Option.map _) hlast
  · intro hleft
    rw [← htwin.frames] at hleft
    exact hleft
  · intro hleft
    obtain ⟨b, rfl⟩ := Nat.exists_eq_succ_of_ne_zero (Nat.ne_of_gt hbudget)
    refine planSlots_left now ttsActive b c q fun hnil => ?_
    simp [PumpScheduler.planDue, NativeTtsQueue.calls, hnil] at hleft
  · rw [hevents]
    simp [PumpScheduler.planDue, NativeTtsQueue.calls]

/-! ## A tick -/

theorem due_twin (anchor written now : Nat) :
    let due := (now - anchor) / PUMP_FRAME - written
    let due' := ((now : Int) - anchor) / ms PCM_FRAME_DURATION_MS - written
    (due = 0 ∧ due' ≤ 0) ∨ (0 < due ∧ due' = due) := by
  simp only [pumpFrame_eq, ms_frame]
  omega

theorem PumpTwin.skipStalled (h : PumpTwin c q s) (due : Nat) :
    PumpTwin (c.skipStalled due) q (s.skipStalled due) := by
  unfold PumpScheduler.skipStalled PeerMixState.skipStalled
  by_cases hstall : due > PUMP_MAX_FRAMES_PER_TICK
  · rw [if_pos hstall, if_pos (Int.ofNat_lt.mpr hstall)]
    refine ⟨⟨h.frames, h.anchor, ?_, h.skips⟩, h.carry, h.last, h.flag, h.fresh⟩
    have hwritten := h.written
    simp only
    omega
  · rw [if_neg hstall, if_neg (fun hlt => hstall (Int.ofNat_lt.mp hlt))]
    exact h

theorem PumpTwin.rebase (h : PumpTwin c q s) (hword : c.written < 2 ^ 32)
    (hpast : PUMP_FRAME * c.written ≤ now) :
    PumpTwin (c.rebase now) q (s.rebasePumpClock now) := by
  have hanchor : (c.rebase now).anchor = now - PUMP_FRAME * c.written := by
    simp only [PumpScheduler.rebase, asU32_of_lt hword, checkedSub_of_le hpast, Option.getD_some]
  refine ⟨⟨h.frames, ?_, h.written, h.skips⟩, h.carry, h.last, h.flag, h.fresh⟩
  rw [hanchor]
  simp only [PeerMixState.rebasePumpClock, ← h.written, ms_frame]
  have hframes : (20000000 * c.written : Nat) ≤ now := hpast
  rw [pumpFrame_eq]
  omega

theorem recent_twin (last : Option Nat) (now : Nat) :
    (match last.map fun t : Nat => (t : Int) with
      | some t => decide ((now : Int) - t ≤ ms TTS_ACTIVE_WINDOW_MS)
      | none => false) = Pump.enqueuedRecently last now := by
  cases last with
  | none => rfl
  | some t =>
    refine decide_eq_decide.mpr ?_
    show (now : Int) - t ≤ 60000000 ↔ (now - t : Nat) ≤ 60000000
    omega

/-- What the two pumps need of a tick that finds slots due: the slot numbers fit their word,
and a queue flag that a discard has cleared on one side only makes no difference. -/
structure TickAgrees (c : PumpScheduler) (q : NativeTtsQueue) (s : PeerMixState) (now : Nat) :
    Prop where
  fits : c.SlotsFit now
  flag : c.queueWasNonEmpty = true → s.queueWasNonEmptyLastTick = true ∨
    Pump.enqueuedRecently q.lastEnqueue now = true ∨
    min ((now - c.anchor) / PUMP_FRAME - c.written) PUMP_MAX_FRAMES_PER_TICK ≤ q.frames.length

theorem active_twin {due : Nat} (h : PumpTwin c q s)
    (hagrees : c.queueWasNonEmpty = true → s.queueWasNonEmptyLastTick = true ∨
      Pump.enqueuedRecently q.lastEnqueue now = true ∨
      min due PUMP_MAX_FRAMES_PER_TICK ≤ q.frames.length) :
    (c.queueWasNonEmpty || Pump.enqueuedRecently q.lastEnqueue now) =
        (s.skipStalled due).isTtsStreamActive now ∨
      min due PUMP_MAX_FRAMES_PER_TICK ≤ q.frames.length := by
  have hactive : (s.skipStalled due).isTtsStreamActive now =
      (s.queueWasNonEmptyLastTick || Pump.enqueuedRecently q.lastEnqueue now) := by
    rw [← recent_twin, h.last]
    unfold PeerMixState.skipStalled
    split <;> rfl
  rw [hactive]
  by_cases hflag : s.queueWasNonEmptyLastTick = true
  · exact Or.inl (by rw [hflag, h.flag hflag])
  · by_cases hnative : c.queueWasNonEmpty = true
    · rcases (hagrees hnative).resolve_left hflag with hrecent | henough
      · exact Or.inl (by rw [hrecent, Bool.or_true, Bool.or_true])
      · exact Or.inr henough
    · rw [Bool.not_eq_true] at hflag hnative
      exact Or.inl (by rw [hflag, hnative])

theorem planTick_twin (h : PumpTwin c q s)
    (hagrees : 0 < (now - c.anchor) / PUMP_FRAME - c.written → TickAgrees c q s now) :
    PumpTwin (c.planTick q now (Pump.enqueuedRecently q.lastEnqueue now) fun _ => []).1
        (c.planTick q now (Pump.enqueuedRecently q.lastEnqueue now) fun _ => []).2.1
        (s.pumpMixFrame now).1 ∧
      (s.pumpMixFrame now).2 =
        (c.planTick q now (Pump.enqueuedRecently q.lastEnqueue now) fun _ => []).2.2.map
          (PumpEvent.map fun t : Nat => (t : Int)) := by
  unfold PumpScheduler.planTick PeerMixState.pumpMixFrame
  rw [← h.anchor, ← h.written]
  rcases due_twin c.anchor c.written now with ⟨hzero, hnone⟩ | ⟨hpos, hdue⟩
  · have hdue : c.elapsedSlots now - c.written = 0 := by
      have hword : c.elapsedSlots now ≤ (now - c.anchor) / PUMP_FRAME := Nat.mod_le _ _
      exact Nat.sub_eq_zero_of_le (Nat.le_trans hword (Nat.le_of_sub_eq_zero hzero))
    simp only [hdue, if_pos hnone]
    exact ⟨h, rfl⟩
  · obtain ⟨hfits, hagree⟩ := hagrees hpos
    obtain ⟨due, hdef⟩ : ∃ due : Nat, due = (now - c.anchor) / PUMP_FRAME - c.written := ⟨_, rfl⟩
    rw [← hdef] at hpos hdue hagree
    have hnative : c.elapsedSlots now - c.written = due := by rw [hfits.elapsedSlots, hdef]
    obtain ⟨hanchor, hfirst⟩ := skipStalled_spec c due
    have helapsed : c.written + due = (now - c.anchor) / PUMP_FRAME := by omega
    have hword : c.written + due < 2 ^ 32 := helapsed ▸ hfits
    have hpast : PUMP_FRAME * (c.written + due) ≤ now :=
      helapsed ▸ Nat.le_trans (Nat.mul_div_le _ _) (Nat.sub_le _ _)
    obtain ⟨htwin, hevents⟩ := planDue_twin (Nat.lt_min.mpr ⟨hpos, by decide⟩)
      (h.skipStalled due) (hfirst ▸ hword) (active_twin h hagree)
    obtain ⟨-, hwritten, -⟩ := planDue_spec (c.skipStalled due) q now
      (c.queueWasNonEmpty || Pump.enqueuedRecently q.lastEnqueue now) (fun _ => [])
      (min due PUMP_MAX_FRAMES_PER_TICK)
    rw [hfirst] at hwritten
    have hbudget : (min (due : Int) PUMP_MAX_FRAMES_PER_TICK).toNat =
        min due PUMP_MAX_FRAMES_PER_TICK := by omega
    have hnotDone : ¬ (due : Int) ≤ 0 := by omega
    simp only [hnative, hdue, if_neg (Nat.ne_of_gt hpos), if_neg hnotDone, hbudget]
    by_cases hstall : due > PUMP_MAX_FRAMES_PER_TICK
    · have hrebase := htwin.rebase (hwritten ▸ hword) (hwritten ▸ hpast)
      rw [if_pos hstall, if_pos (Int.ofNat_lt.mpr hstall)]
      refine ⟨hrebase, ?_⟩
      simp only [List.map_append, hevents, List.map_cons, List.map_nil, PumpEvent.map]
      rw [hrebase.anchor]
    · rw [if_neg hstall, if_neg (fun hlt => hstall (Int.ofNat_lt.mp hlt))]
      exact ⟨htwin, hevents⟩

/-! ## The operations -/

/-- The two pumps, with the native one as its next tick will see it after it notices what was
queued since the last one. -/
structure Twin (p : Pump) (s : PeerMixState) : Prop where
  pump : PumpTwin p.noteEnqueue.sched p.queue s
  running : p.paused = !s.pumpInterval

/-- When an operation leaves the two pumps in agreement. -/
def Agreeable (p : Pump) (s : PeerMixState) : TwinOp → Prop
  | .queueTts pcm now => FRAME_BYTES ≤ (p.queue.carry ++ pcm).length →
      p.seenEnqueue ≠ some now ∨ p.sched.consecutiveSkips = 0
  | .resumeMixPump _ => p.paused = true
  | .timer now => p.paused = false → 0 < (now - p.sched.anchor) / PUMP_FRAME - p.sched.written →
      TickAgrees p.sched p.queue s now
  | .discardQueuedTts | .pauseMixPump => True

theorem Twin.start (t0 : Instant) : Twin (Pump.spawn t0) (PeerMixState.startMixPump t0) where
  pump := ⟨⟨rfl, rfl, rfl, rfl⟩, rfl, rfl, fun h => h, fun _ => rfl⟩
  running := rfl

theorem noteEnqueue_sched (p : Pump) :
    p.noteEnqueue.sched = { p.sched with
      consecutiveSkips :=
        if p.queue.lastEnqueue ≠ p.seenEnqueue then 0 else p.sched.consecutiveSkips } := by
  unfold Pump.noteEnqueue
  split <;> rfl

theorem noteEnqueue_queue (p : Pump) : p.noteEnqueue.queue = p.queue := by
  unfold Pump.noteEnqueue
  split <;> rfl

theorem noteEnqueue_seen (p : Pump) : p.noteEnqueue.seenEnqueue = p.queue.lastEnqueue := by
  unfold Pump.noteEnqueue
  split
  · rfl
  · next h => exact (not_not.mp h).symm

theorem noteEnqueue_paused (p : Pump) : p.noteEnqueue.paused = p.paused := by
  unfold Pump.noteEnqueue
  split <;> rfl

theorem enqueueAll_spec (frames : List (List UInt8)) (now : Int) (s : PeerMixState) :
    frames.foldl (fun s frame => s.enqueueTtsFrame frame now) s =
      if frames = [] then s
      else { s with
        ttsQueue := s.ttsQueue ++ frames
        lastSidecarEnqueueAt := some now
        consecutiveTtsSkips := 0 } := by
  induction frames generalizing s with
  | nil => rfl
  | cons frame frames ih =>
    rw [List.foldl_cons, ih]
    split
    · next hnil => simp [PeerMixState.enqueueTtsFrame, hnil]
    · simp [PeerMixState.enqueueTtsFrame]

theorem writeSampleTee_eq (s : PeerMixState) (pcm : List UInt8) (now : Int) :
    s.writeSampleTee pcm now =
      if (s.sidecarLeftover ++ pcm).length / FRAME_BYTES = 0 then
        { s with sidecarLeftover := s.sidecarLeftover ++ pcm }
      else { s with
        ttsQueue := s.ttsQueue ++ NativeTtsQueue.completeFrames (s.sidecarLeftover ++ pcm)
        sidecarLeftover := Stream.remainder FRAME_BYTES (s.sidecarLeftover ++ pcm)
        lastSidecarEnqueueAt := some now
        consecutiveTtsSkips := 0 } := by
  have hbytes : PCM_FULL_FRAME_BYTES = FRAME_BYTES := rfl
  simp only [PeerMixState.writeSampleTee, enqueueAll_spec, hbytes]
  by_cases hnone : (s.sidecarLeftover ++ pcm).length / FRAME_BYTES = 0
  · have hchunks : Stream.chunks FRAME_BYTES (s.sidecarLeftover ++ pcm) = [] := by
      simp only [Stream.chunks, hnone, List.range_zero, List.map_nil]
    rw [if_pos hchunks, if_pos hnone, Stream.remainder, hnone, Nat.zero_mul, List.drop_zero]
  · have hchunks : Stream.chunks FRAME_BYTES (s.sidecarLeftover ++ pcm) ≠ [] := by
      simpa only [Stream.chunks, ne_eq, List.map_eq_nil_iff, List.range_eq_nil] using hnone
    rw [if_neg hchunks, if_neg hnone]
    rfl

theorem queueTts_twin {p : Pump} {pcm : List UInt8} (h : Twin p s)
    (hok : Agreeable p s (.queueTts pcm now)) :
    Twin { p with queue := p.queue.pushPcm pcm now } (s.writeSampleTee pcm now) := by
  obtain ⟨hpump, hrunning⟩ := h
  rw [noteEnqueue_sched] at hpump
  rw [writeSampleTee_eq, ← hpump.carry]
  unfold NativeTtsQueue.pushPcm
  by_cases hnone : (p.queue.carry ++ pcm).length / FRAME_BYTES = 0
  · simp only [if_pos hnone]
    refine ⟨?_, hrunning⟩
    rw [noteEnqueue_sched]
    exact ⟨⟨hpump.frames, hpump.anchor, hpump.written, hpump.skips⟩, rfl, hpump.last, hpump.flag,
      hpump.fresh⟩
  · simp only [if_neg hnone]
    have hfull : FRAME_BYTES ≤ (p.queue.carry ++ pcm).length :=
      Nat.le_of_not_lt fun hlt => hnone (Nat.div_eq_of_lt hlt)
    have hskips : (if some now ≠ p.seenEnqueue then 0 else p.sched.consecutiveSkips) = 0 := by
      split
      · rfl
      · next hseen => exact (hok hfull).resolve_left fun hne => hseen (Ne.symm hne)
    refine ⟨?_, hrunning⟩
    rw [noteEnqueue_sched]
    exact ⟨⟨congrArg (· ++ _) hpump.frames, hpump.anchor, hpump.written, hskips⟩, rfl, rfl,
      hpump.flag, fun _ => hskips⟩

theorem planTick_lastEnqueue (c : PumpScheduler) (q : NativeTtsQueue) (now : Instant)
    (recent : Bool) :
    (c.planTick q now recent fun _ => []).2.1.lastEnqueue = q.lastEnqueue := by
  unfold PumpScheduler.planTick
  simp only
  split
  · rfl
  · have hloop := (planSlots_frame now (c.queueWasNonEmpty || recent)
      (min (c.elapsedSlots now - c.written) PUMP_MAX_FRAMES_PER_TICK)
      (c.skipStalled (c.elapsedSlots now - c.written)) q).2
    split <;> exact hloop

theorem pumpMixFrame_interval (s : PeerMixState) (now : Int) :
    (s.pumpMixFrame now).1.pumpInterval = s.pumpInterval := by
  have hskip : ∀ due, (s.skipStalled due).pumpInterval = s.pumpInterval := by
    intro due
    unfold PeerMixState.skipStalled
    split <;> rfl
  unfold PeerMixState.pumpMixFrame
  simp only
  split
  · rfl
  · split <;> exact (pumpSlots_frame now _ _).2.1.trans (hskip _)

theorem timer_twin {p : Pump} (h : Twin p s) (hrunning : p.paused = false)
    (hok : Agreeable p s (.timer now)) :
    ∃ p' es, p.step (.tick now fun _ => []) = some (p', es) ∧
      (s.pumpMixFrame now).2 = es.map (PumpEvent.map fun t : Nat => (t : Int)) ∧
      Twin p' (s.pumpMixFrame now).1 := by
  have hagrees : 0 < (now - p.noteEnqueue.sched.anchor) / PUMP_FRAME - p.noteEnqueue.sched.written →
      TickAgrees p.noteEnqueue.sched p.queue s now := by
    rw [noteEnqueue_sched]
    exact fun hdue => ⟨(hok hrunning hdue).fits, (hok hrunning hdue).flag⟩
  obtain ⟨htwin, hevents⟩ := planTick_twin h.pump hagrees
  have hlast := planTick_lastEnqueue p.noteEnqueue.sched p.queue now
    (Pump.enqueuedRecently p.queue.lastEnqueue now)
  rcases hplan : p.noteEnqueue.sched.planTick p.queue now
    (Pump.enqueuedRecently p.queue.lastEnqueue now) (fun _ => []) with ⟨sched, queue, es⟩
  rw [hplan] at htwin hevents hlast
  refine ⟨{ p.noteEnqueue with sched := sched, queue := queue }, es, ?_, hevents, ?_, ?_⟩
  · simp only [Pump.step, hrunning, noteEnqueue_queue, hplan]
    rfl
  · have hseen : queue.lastEnqueue = p.noteEnqueue.seenEnqueue :=
      hlast.trans (noteEnqueue_seen p).symm
    rw [Pump.noteEnqueue, if_neg (not_not.mpr hseen)]
    exact htwin
  · exact (noteEnqueue_paused p).trans (h.running.trans (by rw [pumpMixFrame_interval]))

theorem step_twin {p : Pump} {op : TwinOp} (h : Twin p s) (hok : Agreeable p s op) :
    ∃ p' s' es, nativeStep p op = some (p', es) ∧
      helpersStep s op = some (s', es.map (PumpEvent.map fun t : Nat => (t : Int))) ∧
      Twin p' s' := by
  have hpump := h.pump
  rw [noteEnqueue_sched] at hpump
  cases op with
  | queueTts pcm now => exact ⟨_, _, _, rfl, rfl, queueTts_twin h hok⟩
  | discardQueuedTts =>
    refine ⟨{ p with queue := p.queue.discard.2 }, s.discardQueuedTts,
      [.discarded p.queue.bytes], rfl, ?_, ?_, h.running⟩
    · simp only [helpersStep, ← hpump.frames, ← hpump.carry]
      rfl
    · rw [noteEnqueue_sched]
      exact ⟨⟨rfl, hpump.anchor, hpump.written, hpump.skips⟩, rfl, hpump.last,
        fun hclear => absurd hclear Bool.false_ne_true, hpump.fresh⟩
  | pauseMixPump =>
    refine ⟨{ p with paused := true }, s.pauseMixPump, [], rfl, rfl, ?_, rfl⟩
    rw [noteEnqueue_sched]
    exact ⟨⟨hpump.frames, hpump.anchor, hpump.written, hpump.skips⟩, hpump.carry, hpump.last,
      hpump.flag, hpump.fresh⟩
  | resumeMixPump now =>
    have hpaused : p.paused = true := hok
    have hinterval : s.pumpInterval = false := by
      have hrunning := h.running
      rw [hpaused] at hrunning
      simpa using hrunning.symm
    refine ⟨{ p with sched := p.sched.resume now, paused := false }, s.resumeMixPump now, [],
      rfl, rfl, ?_, ?_⟩
    · rw [noteEnqueue_sched, PeerMixState.resumeMixPump, hinterval]
      exact ⟨⟨hpump.frames, rfl, rfl, ite_self 0⟩, hpump.carry, hpump.last, hpump.flag,
        fun _ => ite_self 0⟩
    · rw [PeerMixState.resumeMixPump, hinterval]
      rfl
  | timer now =>
    by_cases hpaused : p.paused = true
    · have hinterval : s.pumpInterval = false := by
        have hrunning := h.running
        rw [hpaused] at hrunning
        simpa using hrunning.symm
      refine ⟨p, s, [], ?_, ?_, h⟩
      · simp only [nativeStep, TwinOp.native, Pump.step, hpaused, if_true]
      · simp only [helpersStep, hinterval]
        rfl
    · have hrunning : p.paused = false := Bool.not_eq_true _ ▸ hpaused
      have hinterval : s.pumpInterval = true := by
        have hstate := h.running
        rw [hrunning] at hstate
        simpa using hstate.symm
      obtain ⟨p', es, hstep, hevents, htwin⟩ := timer_twin h hrunning hok
      refine ⟨p', (s.pumpMixFrame now).1, es, hstep, ?_, htwin⟩
      simp only [helpersStep, hinterval, if_true, ← hevents]

/-- The two pumps after a discard of the second of two frames: the native pump skips the
slots in which the helpers pump writes silence. -/
theorem native_after_discard (a b rest : List UInt8) :
    ∃ p, run nativeStep ⟨.new 0, false, none, ⟨[a, b], rest, some 0, 2⟩⟩
      [.timer PUMP_FRAME, .discardQueuedTts, .timer (PUMP_FRAME * 5)] =
        some (p, [.slot PUMP_FRAME (.tts a PUMP_FRAME), .discarded ([b].flatten ++ rest),
          .slot (PUMP_FRAME * 5) (.skip (PUMP_FRAME * 2)),
          .slot (PUMP_FRAME * 5) (.skip (PUMP_FRAME * 3)),
          .slot (PUMP_FRAME * 5) (.skip (PUMP_FRAME * 4)),
          .slot (PUMP_FRAME * 5) (.silence (PUMP_FRAME * 5))]) := by
  have hnote : Pump.noteEnqueue ⟨.new 0, false, none, ⟨[a, b], rest, some 0, 2⟩⟩ =
      ⟨.new 0, false, some 0, ⟨[a, b], rest, some 0, 2⟩⟩ := rfl
  have hplay : nativeStep ⟨.new 0, false, none, ⟨[a, b], rest, some 0, 2⟩⟩ (.timer PUMP_FRAME) =
      some (⟨⟨0, 1, 0, true, 0, 0⟩, false, some 0, ⟨[b], rest, some 0, 2⟩⟩,
        [.slot PUMP_FRAME (.tts a PUMP_FRAME)]) := by
    simp only [nativeStep, TwinOp.native, Pump.step, hnote]
    rfl
  have hskip : ∃ p, nativeStep ⟨⟨0, 1, 0, true, 0, 0⟩, false, some 0, ⟨[], [], some 0, 2⟩⟩
      (.timer (PUMP_FRAME * 5)) = some (p, [
        .slot (PUMP_FRAME * 5) (.skip (PUMP_FRAME * 2)),
        .slot (PUMP_FRAME * 5) (.skip (PUMP_FRAME * 3)),
        .slot (PUMP_FRAME * 5) (.skip (PUMP_FRAME * 4)),
        .slot (PUMP_FRAME * 5) (.silence (PUMP_FRAME * 5))]) := ⟨_, rfl⟩
  obtain ⟨p, hskip⟩ := hskip
  exact ⟨p, run_cons_eq_some.mpr ⟨_, _, _, hplay,
    run_cons_eq_some.mpr ⟨_, _, _, rfl, run_singleton.mpr hskip, rfl⟩, rfl⟩⟩

theorem helpers_after_discard (a b rest : List UInt8) :
    ∃ s, run helpersStep ⟨[a, b], rest, true, 0, 0, some 0, false, 0⟩
      [.timer PUMP_FRAME, .discardQueuedTts, .timer (PUMP_FRAME * 5)] =
        some (s, [.slot (ms 20) (.tts a (ms 20)), .discarded ([b].flatten ++ rest),
          .slot (ms 100) (.silence (ms 40)), .slot (ms 100) (.silence (ms 60)),
          .slot (ms 100) (.silence (ms 80)), .slot (ms 100) (.silence (ms 100))]) := by
  have hplay : helpersStep ⟨[a, b], rest, true, 0, 0, some 0, false, 0⟩ (.timer PUMP_FRAME) =
      some (⟨[b], rest, true, 0, 1, some 0, true, 0⟩, [.slot (ms 20) (.tts a (ms 20))]) := rfl
  have hsilence : helpersStep ⟨[], [], true, 0, 1, some 0, false, 0⟩ (.timer (PUMP_FRAME * 5)) =
      some (⟨[], [], true, 0, 5, some 0, false, 0⟩, [
        .slot (ms 100) (.silence (ms 40)), .slot (ms 100) (.silence (ms 60)),
        .slot (ms 100) (.silence (ms 80)), .slot (ms 100) (.silence (ms 100))]) := rfl
  exact ⟨_, run_cons_eq_some.mpr ⟨_, _, _, hplay,
    run_cons_eq_some.mpr ⟨_, _, _, rfl, run_singleton.mpr hsilence, rfl⟩, rfl⟩⟩

end NodeWebrtc.MixPump
