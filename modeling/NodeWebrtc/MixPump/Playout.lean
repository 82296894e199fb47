import NodeWebrtc.MixPump.Native

/-! # Playout of the native pump

Two invariants of the native pump. The bytes pushed are the bytes that left, in the same
order, followed by the bytes still queued; and the slots the scheduler plans follow each
other in time, none later than the tick that plans it. The second rests on the slot
numbers fitting in the word that the code multiplies the frame length by.
-/

namespace NodeWebrtc.MixPump

open Machine
open Mixer (FRAME_BYTES)

/-! ## What the events say -/

def SlotDecision.frame? {T : Type} : SlotDecision T → Option (List UInt8)
  | .tts frame _ => some frame
  | .silence _ | .skip _ => none

namespace PumpEvent

variable {T : Type}

def frame? : PumpEvent T → Option (List UInt8)
  | .slot _ decision => decision.frame?
  | .burst tts _ => tts
  | _ => none

def left : PumpEvent T → List UInt8
  | .discarded bytes => bytes
  | e => e.frame?.getD []

def entered : PumpEvent T → List UInt8
  | .pushed pcm => pcm
  | _ => []

/-- The tick that plans a slot and the time of the slot. -/
def slot? : PumpEvent T → Option (T × T)
  | .slot now decision => some (now, decision.time)
  | _ => none

end PumpEvent

section Projections

variable {T : Type}

def writtenFrames (es : List (PumpEvent T)) : List (List UInt8) := es.filterMap PumpEvent.frame?

def leftBytes (es : List (PumpEvent T)) : List UInt8 := es.flatMap PumpEvent.left

def pushedBytes (es : List (PumpEvent T)) : List UInt8 := es.flatMap PumpEvent.entered

def slots (es : List (PumpEvent T)) : List (T × T) := es.filterMap PumpEvent.slot?

variable (es fs : List (PumpEvent T))

@[simp] theorem writtenFrames_append :
    writtenFrames (es ++ fs) = writtenFrames es ++ writtenFrames fs := List.filterMap_append

@[simp] theorem leftBytes_append :
    leftBytes (es ++ fs) = leftBytes es ++ leftBytes fs := List.flatMap_append

@[simp] theorem pushedBytes_append :
    pushedBytes (es ++ fs) = pushedBytes es ++ pushedBytes fs := List.flatMap_append

@[simp] theorem slots_append : slots (es ++ fs) = slots es ++ slots fs := List.filterMap_append

theorem leftBytes_eq_flatten {es : List (PumpEvent T)}
    (h : ∀ bytes, PumpEvent.discarded bytes ∉ es) : leftBytes es = (writtenFrames es).flatten := by
  induction es with
  | nil => rfl
  | cons e es ih =>
    have htail := ih fun bytes hmem => h bytes (List.mem_cons_of_mem e hmem)
    have hleft : e.left = e.frame?.getD [] := by
      cases e with
      | discarded bytes => exact absurd List.mem_cons_self (h bytes)
      | _ => rfl
    show e.left ++ leftBytes es = _
    rw [htail, hleft]
    simp only [writtenFrames, List.filterMap_cons]
    cases e.frame? <;> rfl

end Projections

/-! ## The byte stream -/

/-- Queued frames are full and the carry is less than a frame. -/
structure Framed (q : NativeTtsQueue) : Prop where
  frames : ∀ frame ∈ q.frames, frame.length = FRAME_BYTES
  carry : q.carry.length < FRAME_BYTES

/-- Events that take a queue to another one without losing or repeating a byte. -/
structure Moves (q : NativeTtsQueue) (es : List (PumpEvent Instant)) (q' : NativeTtsQueue) :
    Prop where
  stream : q.bytes ++ pushedBytes es = leftBytes es ++ q'.bytes
  written : ∀ frame ∈ writtenFrames es, frame.length = FRAME_BYTES
  framed : Framed q'

variable {q : NativeTtsQueue}

theorem Moves.refl (h : Framed q) : Moves q [] q where
  stream := by simp [pushedBytes, leftBytes]
  written := by simp [writtenFrames]
  framed := h

variable {es : List (PumpEvent Instant)}

theorem Moves.trans {q' q'' : NativeTtsQueue} {fs : List (PumpEvent Instant)}
    (first : Moves q es q') (second : Moves q' fs q'') : Moves q (es ++ fs) q'' where
  stream := by
    calc q.bytes ++ pushedBytes (es ++ fs)
        = (q.bytes ++ pushedBytes es) ++ pushedBytes fs := by simp
      _ = leftBytes es ++ (q'.bytes ++ pushedBytes fs) := by rw [first.stream, List.append_assoc]
      _ = leftBytes (es ++ fs) ++ q''.bytes := by rw [second.stream]; simp
  written := by
    intro frame hmem
    rcases List.mem_append.mp (writtenFrames_append es fs ▸ hmem) with h | h
    · exact first.written frame h
    · exact second.written frame h
  framed := second.framed

theorem Moves.silent (h : Framed q) {e : PumpEvent Instant} (hleft : e.left = [])
    (hentered : e.entered = []) (hframe : e.frame? = none) :
    Moves q [e] q where
  stream := by simp [pushedBytes, leftBytes, hleft, hentered]
  written := by simp [writtenFrames, hframe]
  framed := h

theorem framed_new : Framed .new := ⟨by simp [NativeTtsQueue.new], by decide⟩

theorem pushPcm_bytes (q : NativeTtsQueue) (pcm : List UInt8) (now : Instant) :
    (q.pushPcm pcm now).bytes = q.bytes ++ pcm := by
  unfold NativeTtsQueue.pushPcm
  simp only
  split
  · simp [NativeTtsQueue.bytes]
  · simp only [NativeTtsQueue.bytes, NativeTtsQueue.completeFrames, List.flatten_append,
      List.append_assoc, Stream.flatten_chunks_append]

theorem Framed.pushPcm (h : Framed q) (pcm : List UInt8) (now : Instant) :
    Framed (q.pushPcm pcm now) := by
  unfold NativeTtsQueue.pushPcm
  simp only
  split
  · next hnone => exact ⟨h.frames, (Nat.div_eq_zero_iff_lt (by decide)).mp hnone⟩
  · refine ⟨fun frame hmem => ?_, Stream.length_remainder_lt (by decide) _⟩
    rcases List.mem_append.mp hmem with hold | hnew
    · exact h.frames frame hold
    · exact Stream.length_of_mem_chunks hnew

theorem call_moves (h : Framed q) (call : QueueCall) : Moves q (q.call call).2 (q.call call).1 := by
  cases call with
  | pushPcm pcm now =>
    refine ⟨?_, by simp [NativeTtsQueue.call, writtenFrames, PumpEvent.frame?], h.pushPcm pcm now⟩
    simp [NativeTtsQueue.call, pushedBytes, leftBytes, PumpEvent.entered, PumpEvent.left,
      PumpEvent.frame?, pushPcm_bytes]
  | discard =>
    refine ⟨?_, by simp [NativeTtsQueue.call, writtenFrames, PumpEvent.frame?], ?_⟩
    · simp [NativeTtsQueue.call, NativeTtsQueue.discard, NativeTtsQueue.bytes, pushedBytes,
        leftBytes, PumpEvent.entered, PumpEvent.left]
    · exact ⟨by simp [NativeTtsQueue.call, NativeTtsQueue.discard], (by decide : 0 < FRAME_BYTES)⟩

theorem calls_moves (h : Framed q) (calls : List QueueCall) :
    Moves q (q.calls calls).2 (q.calls calls).1 := by
  induction calls generalizing q with
  | nil => exact Moves.refl h
  | cons call rest ih =>
    have hfirst := call_moves h call
    exact hfirst.trans (ih hfirst.framed)

theorem pop_moves (h : Framed q) {e : PumpEvent Instant} (hframe : e.frame? = q.pop.1)
    (hleft : e.left = e.frame?.getD []) (hentered : e.entered = []) :
    Moves q [e] q.pop.2 := by
  obtain ⟨frames, carry, last, depth⟩ := q
  cases frames with
  | nil =>
    have hnone : e.frame? = none := hframe
    exact Moves.silent h (by rw [hleft, hnone]; rfl) hentered hnone
  | cons frame frames =>
    have hsome : e.frame? = some frame := hframe
    refine ⟨?_, ?_, ⟨fun f hf => h.frames f (List.mem_cons_of_mem frame hf), h.carry⟩⟩
    · simp [pushedBytes, leftBytes, hleft, hentered, hsome, NativeTtsQueue.bytes,
        NativeTtsQueue.pop]
    · simp only [writtenFrames, List.filterMap_cons, hsome, List.filterMap_nil,
        List.mem_singleton, forall_eq]
      exact h.frames frame List.mem_cons_self

theorem planSlot_frame (s : PumpScheduler) (ttsActive : Bool) (tts : Option (List UInt8)) :
    (s.planSlot ttsActive tts).2.frame? = tts := by
  unfold PumpScheduler.planSlot
  cases tts with
  | some frame => rfl
  | none =>
    simp only
    split <;> rfl

theorem planSlots_moves (now : Instant) (ttsActive : Bool) (h : Framed q) (budget : Nat)
    (s : PumpScheduler) (meanwhile : Nat → List QueueCall) :
    Moves q (s.planSlots now ttsActive q meanwhile budget).2.2
      (s.planSlots now ttsActive q meanwhile budget).2.1 := by
  induction budget generalizing s q meanwhile with
  | zero => exact Moves.refl h
  | succ budget ih =>
    have hbefore := calls_moves h (meanwhile 0)
    have hpop := pop_moves hbefore.framed
      (e := .slot now (s.planSlot ttsActive (q.calls (meanwhile 0)).1.pop.1).2)
      (planSlot_frame s ttsActive _) rfl rfl
    have hrest := ih hpop.framed (s.planSlot ttsActive (q.calls (meanwhile 0)).1.pop.1).1
      (fun round => meanwhile (round + 1))
    have hall := hbefore.trans (hpop.trans hrest)
    exact hall

theorem burstFrames_moves (h : Framed q) (frames : Nat) (clock : Nat → Instant)
    (meanwhile : Nat → List QueueCall) :
    Moves q (Pump.burstFrames q clock meanwhile frames).2
      (Pump.burstFrames q clock meanwhile frames).1 := by
  induction frames generalizing q clock meanwhile with
  | zero => exact Moves.refl h
  | succ frames ih =>
    have hbefore := calls_moves h (meanwhile 0)
    have hpop := pop_moves hbefore.framed
      (e := .burst (q.calls (meanwhile 0)).1.pop.1 (clock 0)) rfl rfl rfl
    have hrest := ih hpop.framed (fun i => clock (i + 1)) (fun i => meanwhile (i + 1))
    exact hbefore.trans (hpop.trans hrest)

theorem planDue_moves (s : PumpScheduler) (h : Framed q) (now : Instant) (ttsActive : Bool)
    (meanwhile : Nat → List QueueCall) (budget : Nat) :
    Moves q (s.planDue q now ttsActive meanwhile budget).2.2
      (s.planDue q now ttsActive meanwhile budget).2.1 := by
  have hslots := planSlots_moves now ttsActive h budget s meanwhile
  have hafter := calls_moves hslots.framed (meanwhile budget)
  exact hslots.trans hafter

theorem planTick_moves (s : PumpScheduler) (h : Framed q) (now : Instant) (recent : Bool)
    (meanwhile : Nat → List QueueCall) :
    Moves q (s.planTick q now recent meanwhile).2.2 (s.planTick q now recent meanwhile).2.1 := by
  unfold PumpScheduler.planTick
  simp only
  split
  · exact Moves.refl h
  · have hdue := planDue_moves (s.skipStalled (s.elapsedSlots now - s.written)) h now
      (s.queueWasNonEmpty || recent) meanwhile
      (min (s.elapsedSlots now - s.written) PUMP_MAX_FRAMES_PER_TICK)
    split
    · exact hdue.trans (Moves.silent hdue.framed rfl rfl rfl)
    · exact hdue

variable {p p' : Pump} {i : PumpInput}

theorem step_moves (h : Framed p.queue) (hs : p.step i = some (p', es)) :
    Moves p.queue es p'.queue := by
  cases i with
  | queue call =>
    cases hs
    exact call_moves h call
  | pause | resume now =>
    cases hs
    exact Moves.refl h
  | burst frames clock meanwhile =>
    cases hs
    exact burstFrames_moves h frames clock meanwhile
  | tick now meanwhile =>
    simp only [Pump.step] at hs
    split at hs <;> cases hs
    · exact Moves.refl h
    · have hnote : p.noteEnqueue.queue = p.queue := by
        unfold Pump.noteEnqueue
        split <;> rfl
      have hmoves := planTick_moves p.noteEnqueue.sched (hnote ▸ h) now
        (Pump.enqueuedRecently p.queue.lastEnqueue now) meanwhile
      exact hnote ▸ hmoves

/-! ## The slot times -/

/-- The time of the last slot the scheduler accounts for. -/
def PumpScheduler.front (s : PumpScheduler) : Nat := s.anchor + PUMP_FRAME * s.written

/-- Planned slots that follow `front` in time, end at `front'` and are not late. -/
structure Advances (front : Nat) (planned : List (Nat × Nat)) (front' : Nat) : Prop where
  increasing : (planned.map Prod.snd).Pairwise (· < ·)
  after : ∀ slot ∈ planned, front < slot.2
  until_ : ∀ slot ∈ planned, slot.2 ≤ front'
  onTime : ∀ slot ∈ planned, slot.2 ≤ slot.1
  mono : front ≤ front'

theorem Advances.none {front front' : Nat} (h : front ≤ front') : Advances front [] front' :=
  ⟨List.Pairwise.nil, by simp, by simp, by simp, h⟩

theorem Advances.trans {f f' f'' : Nat} {slots slots' : List (Nat × Nat)}
    (first : Advances f slots f') (second : Advances f' slots' f'') :
    Advances f (slots ++ slots') f'' where
  increasing := by
    rw [List.map_append, List.pairwise_append]
    refine ⟨first.increasing, second.increasing, ?_⟩
    intro a ha b hb
    obtain ⟨slot, hslot, rfl⟩ := List.mem_map.mp ha
    obtain ⟨slot', hslot', rfl⟩ := List.mem_map.mp hb
    exact Nat.lt_of_le_of_lt (first.until_ slot hslot) (second.after slot' hslot')
  after := by
    intro slot hslot
    rcases List.mem_append.mp hslot with h | h
    · exact first.after slot h
    · exact Nat.lt_of_le_of_lt first.mono (second.after slot h)
  until_ := by
    intro slot hslot
    rcases List.mem_append.mp hslot with h | h
    · exact Nat.le_trans (first.until_ slot h) second.mono
    · exact second.until_ slot h
  onTime := by
    intro slot hslot
    rcases List.mem_append.mp hslot with h | h
    · exact first.onTime slot h
    · exact second.onTime slot h
  mono := Nat.le_trans first.mono second.mono

@[simp] theorem slots_rebase (anchor : Instant) : slots [.rebase anchor] = [] := rfl

@[simp] theorem slots_calls (q : NativeTtsQueue) (calls : List QueueCall) :
    slots (q.calls calls).2 = [] := by
  induction calls generalizing q with
  | nil => rfl
  | cons call rest ih =>
    have hrest := ih (q.call call).1
    cases call <;> exact hrest

@[simp] theorem slots_burstFrames (q : NativeTtsQueue) (frames : Nat) (clock : Nat → Instant)
    (meanwhile : Nat → List QueueCall) :
    slots (Pump.burstFrames q clock meanwhile frames).2 = [] := by
  induction frames generalizing q clock meanwhile with
  | zero => rfl
  | succ frames ih =>
    simp only [Pump.burstFrames, slots_append, slots_calls]
    exact ih _ _ _

theorem planSlot_spec (s : PumpScheduler) (ttsActive : Bool) (tts : Option (List UInt8)) :
    (s.planSlot ttsActive tts).1.anchor = s.anchor ∧
      (s.planSlot ttsActive tts).1.written = s.written + 1 ∧
      (s.planSlot ttsActive tts).2.time = s.anchor + PUMP_FRAME * asU32 (s.written + 1) := by
  unfold PumpScheduler.planSlot
  cases tts with
  | some frame => exact ⟨rfl, rfl, rfl⟩
  | none =>
    simp only
    split <;> exact ⟨rfl, rfl, rfl⟩

theorem planSlots_spec (now : Instant) (ttsActive : Bool) (budget : Nat) (s : PumpScheduler)
    (q : NativeTtsQueue) (meanwhile : Nat → List QueueCall) :
    (s.planSlots now ttsActive q meanwhile budget).1.anchor = s.anchor ∧
      (s.planSlots now ttsActive q meanwhile budget).1.written = s.written + budget ∧
      slots (s.planSlots now ttsActive q meanwhile budget).2.2 =
        (List.range budget).map fun i =>
          (now, s.anchor + PUMP_FRAME * asU32 (s.written + 1 + i)) := by
  induction budget generalizing s q meanwhile with
  | zero => exact ⟨rfl, rfl, rfl⟩
  | succ budget ih =>
    obtain ⟨hanchor, hwritten, htime⟩ :=
      planSlot_spec s ttsActive (q.calls (meanwhile 0)).1.pop.1
    obtain ⟨ihanchor, ihwritten, ihslots⟩ :=
      ih (s.planSlot ttsActive (q.calls (meanwhile 0)).1.pop.1).1
        (q.calls (meanwhile 0)).1.pop.2 (fun round => meanwhile (round + 1))
    refine ⟨ihanchor.trans hanchor, ?_, ?_⟩
    · refine ihwritten.trans ?_
      omega
    · simp only [PumpScheduler.planSlots, slots_append, slots_calls]
      show (now, _) :: slots _ = _
      rw [htime, ihslots, hanchor, hwritten, List.range_succ_eq_map, List.map_cons, List.map_map]
      congr 1
      refine List.map_congr_left fun i _ => ?_
      simp only [Function.comp_apply]
      rw [show s.written + 1 + 1 + i = s.written + 1 + (i + 1) by omega]

theorem planDue_spec (s : PumpScheduler) (q : NativeTtsQueue) (now : Instant) (ttsActive : Bool)
    (meanwhile : Nat → List QueueCall) (budget : Nat) :
    (s.planDue q now ttsActive meanwhile budget).1.anchor = s.anchor ∧
      (s.planDue q now ttsActive meanwhile budget).1.written = s.written + budget ∧
      slots (s.planDue q now ttsActive meanwhile budget).2.2 =
        (List.range budget).map fun i =>
          (now, s.anchor + PUMP_FRAME * asU32 (s.written + 1 + i)) := by
  obtain ⟨hanchor, hwritten, hslots⟩ := planSlots_spec now ttsActive budget s q meanwhile
  exact ⟨hanchor, hwritten, by
    simp only [PumpScheduler.planDue, slots_append, slots_calls, List.append_nil, hslots]⟩

theorem planTick_cap (s : PumpScheduler) (q : NativeTtsQueue) (now : Instant) (recent : Bool)
    (meanwhile : Nat → List QueueCall) :
    (slots (s.planTick q now recent meanwhile).2.2).length ≤ PUMP_MAX_FRAMES_PER_TICK := by
  unfold PumpScheduler.planTick
  simp only
  split
  · exact Nat.zero_le _
  · obtain ⟨-, -, hslots⟩ := planDue_spec (s.skipStalled (s.elapsedSlots now - s.written)) q now
      (s.queueWasNonEmpty || recent) meanwhile
      (min (s.elapsedSlots now - s.written) PUMP_MAX_FRAMES_PER_TICK)
    have hcap := Nat.min_le_right (s.elapsedSlots now - s.written) PUMP_MAX_FRAMES_PER_TICK
    split
    · rw [slots_append, hslots, slots_rebase, List.append_nil, List.length_map, List.length_range]
      exact hcap
    · rw [hslots, List.length_map, List.length_range]
      exact hcap

theorem step_cap (hs : p.step i = some (p', es)) :
    (slots es).length ≤ PUMP_MAX_FRAMES_PER_TICK := by
  cases i with
  | queue call =>
    obtain ⟨-, rfl⟩ := hs
    cases call <;> exact Nat.zero_le _
  | pause | resume now =>
    obtain ⟨-, rfl⟩ := hs
    exact Nat.zero_le _
  | burst frames clock meanwhile =>
    obtain ⟨-, rfl⟩ := hs
    rw [slots_burstFrames]
    exact Nat.zero_le _
  | tick now meanwhile =>
    simp only [Pump.step] at hs
    split at hs <;> simp only [Option.some.injEq] at hs
    · obtain ⟨-, rfl⟩ := hs
      exact Nat.zero_le _
    · obtain ⟨-, rfl⟩ := hs
      exact planTick_cap _ _ _ _ _

/-- The whole slots from the anchor to `now` are fewer than the words that number a slot. -/
def PumpScheduler.SlotsFit (s : PumpScheduler) (now : Instant) : Prop :=
  saturatingDurationSince now s.anchor / PUMP_FRAME < 2 ^ 32

variable {s : PumpScheduler} {now : Instant}

theorem PumpScheduler.SlotsFit.elapsedSlots (h : s.SlotsFit now) :
    s.elapsedSlots now = (now - s.anchor) / PUMP_FRAME :=
  asU64_of_lt (Nat.lt_trans h (by decide))

theorem pumpFrame_eq : PUMP_FRAME = 20000000 := rfl

theorem advances_range {anchor first budget now front front' : Nat}
    (hfront : front ≤ anchor + PUMP_FRAME * first)
    (hnow : anchor + PUMP_FRAME * (first + budget) ≤ now)
    (hfront' : anchor + PUMP_FRAME * (first + budget) ≤ front')
    (hfit : first + budget < 2 ^ 32) :
    Advances front
      ((List.range budget).map fun i => (now, anchor + PUMP_FRAME * asU32 (first + 1 + i)))
      front' := by
  have hword : ∀ i < budget, asU32 (first + 1 + i) = first + 1 + i :=
    fun i hi => asU32_of_lt (by omega)
  rw [pumpFrame_eq] at *
  refine ⟨?_, ?_, ?_, ?_, by omega⟩
  · rw [List.map_map, List.pairwise_map]
    refine List.pairwise_lt_range.imp_of_mem fun {i j} hi hj hlt => ?_
    have hi' := hword i (List.mem_range.mp hi)
    have hj' := hword j (List.mem_range.mp hj)
    simp only [Function.comp_apply]
    omega
  all_goals
    intro slot hslot
    obtain ⟨i, hi, rfl⟩ := List.mem_map.mp hslot
    have hi' := hword i (List.mem_range.mp hi)
    have hlt := List.mem_range.mp hi
    omega

theorem skipStalled_spec (s : PumpScheduler) (due : Nat) :
    (s.skipStalled due).anchor = s.anchor ∧
      (s.skipStalled due).written + min due PUMP_MAX_FRAMES_PER_TICK = s.written + due := by
  unfold PumpScheduler.skipStalled
  split
  · refine ⟨rfl, ?_⟩
    simp only
    omega
  · exact ⟨rfl, by omega⟩

theorem rebase_front (hword : s.written < 2 ^ 32) (hpast : PUMP_FRAME * s.written ≤ now) :
    (s.rebase now).front = now := by
  simp only [PumpScheduler.rebase, asU32_of_lt hword, checkedSub_of_le hpast]
  exact Nat.sub_add_cancel hpast

theorem planTick_advances (hfit : s.SlotsFit now) (q : NativeTtsQueue) (recent : Bool)
    (meanwhile : Nat → List QueueCall) :
    Advances s.front (slots (s.planTick q now recent meanwhile).2.2)
        (s.planTick q now recent meanwhile).1.front ∧
      (s.planTick q now recent meanwhile).1.front ≤ max s.front now := by
  obtain ⟨elapsed, hdef⟩ : ∃ elapsed : Nat, elapsed = (now - s.anchor) / PUMP_FRAME := ⟨_, rfl⟩
  have helapsed : s.elapsedSlots now = elapsed := hfit.elapsedSlots.trans hdef.symm
  have hbound : elapsed < 2 ^ 32 := hdef ▸ hfit
  unfold PumpScheduler.planTick
  simp only [helapsed]
  by_cases hdue : elapsed - s.written = 0
  · rw [if_pos hdue]
    exact ⟨Advances.none (Nat.le_refl _), Nat.le_max_left _ _⟩
  · rw [if_neg hdue]
    generalize hbudget : min (elapsed - s.written) PUMP_MAX_FRAMES_PER_TICK = budget
    obtain ⟨hskip, hfirst⟩ := skipStalled_spec s (elapsed - s.written)
    obtain ⟨hanchor, hwritten, hslots⟩ := planDue_spec (s.skipStalled (elapsed - s.written)) q now
      (s.queueWasNonEmpty || recent) meanwhile budget
    have hlast : s.written + (elapsed - s.written) = elapsed := by omega
    rw [hbudget, hlast] at hfirst
    rw [hskip] at hanchor hslots
    rw [hfirst] at hwritten
    generalize (s.skipStalled (elapsed - s.written)).planDue q now
      (s.queueWasNonEmpty || recent) meanwhile budget = planned at hanchor hwritten hslots ⊢
    have hpast : PUMP_FRAME * elapsed ≤ now - s.anchor := hdef ▸ Nat.mul_div_le _ _
    have hanchored : s.anchor ≤ now := by
      refine Nat.le_of_lt (Nat.lt_of_sub_pos (Nat.lt_of_lt_of_le ?_ hpast))
      exact Nat.mul_pos (by decide) (by omega)
    have hend : s.anchor + PUMP_FRAME * elapsed ≤ now :=
      Nat.add_comm _ _ ▸ Nat.add_le_of_le_sub hanchored hpast
    have hadvances : ∀ front', s.anchor + PUMP_FRAME * elapsed ≤ front' →
        Advances s.front (slots planned.2.2) front' := by
      intro front' hfront'
      rw [hslots]
      refine advances_range ?_ (hfirst.symm ▸ hend) (hfirst.symm ▸ hfront') (hfirst.symm ▸ hbound)
      exact Nat.add_le_add_left (Nat.mul_le_mul_left _ (by omega)) _
    split
    · have hrebase : (planned.1.rebase now).front = now :=
        rebase_front (hwritten ▸ hbound) (hwritten ▸ Nat.le_trans hpast (Nat.sub_le _ _))
      simp only [slots_append, slots_rebase, List.append_nil, hrebase]
      exact ⟨hadvances now hend, Nat.le_max_right _ _⟩
    · have hfront : planned.1.front = s.anchor + PUMP_FRAME * elapsed := by
        rw [PumpScheduler.front, hanchor, hwritten]
      rw [hfront]
      exact ⟨hadvances _ (Nat.le_refl _), Nat.le_trans hend (Nat.le_max_right _ _)⟩

/-! ## Runs of the pump -/

def PumpInput.reading : PumpInput → Option Instant
  | .resume now | .tick now _ => some now
  | _ => none

/-- The slot numbers of a tick that plans fit in the word they are cast to. -/
def TickFits : Pump → PumpInput → Prop
  | p, .tick now _ => p.paused ∨ p.sched.SlotsFit now
  | _, _ => True

theorem noteEnqueue_front (p : Pump) : p.noteEnqueue.sched.front = p.sched.front := by
  unfold Pump.noteEnqueue
  split <;> rfl

theorem noteEnqueue_slotsFit (h : p.sched.SlotsFit now) : p.noteEnqueue.sched.SlotsFit now := by
  unfold Pump.noteEnqueue
  split <;> exact h

theorem step_advances (hfit : TickFits p i) (hresume : ∀ now, i = .resume now → p.sched.front ≤ now)
    (hs : p.step i = some (p', es)) :
    Advances p.sched.front (slots es) p'.sched.front ∧
      (p'.sched.front ≤ p.sched.front ∨ ∃ r, i.reading = some r ∧ p'.sched.front ≤ r) := by
  have still : Advances p.sched.front [] p.sched.front := Advances.none (Nat.le_refl _)
  cases i with
  | queue call =>
    cases hs
    refine ⟨?_, Or.inl (Nat.le_refl _)⟩
    cases call <;> exact still
  | pause =>
    cases hs
    exact ⟨still, Or.inl (Nat.le_refl _)⟩
  | resume now =>
    cases hs
    exact ⟨Advances.none (hresume now rfl), Or.inr ⟨now, rfl, Nat.le_refl _⟩⟩
  | burst frames clock meanwhile =>
    cases hs
    rw [slots_burstFrames]
    exact ⟨still, Or.inl (Nat.le_refl _)⟩
  | tick now meanwhile =>
    simp only [Pump.step] at hs
    split at hs <;> cases hs
    · exact ⟨still, Or.inl (Nat.le_refl _)⟩
    · next hpaused =>
      have hnow : p.sched.SlotsFit now := hfit.resolve_left hpaused
      obtain ⟨hadvances, hfront⟩ := planTick_advances (noteEnqueue_slotsFit hnow)
        p.noteEnqueue.queue (Pump.enqueuedRecently p.queue.lastEnqueue now) meanwhile
      rw [noteEnqueue_front] at hadvances hfront
      refine ⟨hadvances, ?_⟩
      rcases Nat.le_total p.sched.front now with h | h
      · exact Or.inr ⟨now, rfl, Nat.le_trans hfront (Nat.max_le.mpr ⟨h, Nat.le_refl _⟩)⟩
      · exact Or.inl (Nat.le_trans hfront (Nat.max_le.mpr ⟨Nat.le_refl _, h⟩))

/-- What holds after a run: no byte is lost, and the planned slots are in order and end
behind some reading of the clock. -/
structure Played (t0 : Instant) (inputs : List PumpInput) (out : List (PumpEvent Instant))
    (p : Pump) : Prop where
  moves : Moves .new out p.queue
  advances : Advances t0 (slots out) p.sched.front
  behind : ∃ r ∈ t0 :: inputs.filterMap PumpInput.reading, p.sched.front ≤ r

theorem Played.spawn (t0 : Instant) : Played t0 [] [] (Pump.spawn t0) where
  moves := Moves.refl framed_new
  advances := Advances.none (Nat.le_refl t0)
  behind := ⟨t0, List.mem_cons_self, Nat.le_refl t0⟩

variable {t0 : Instant} {inputs : List PumpInput}

theorem Played.step {out : List (PumpEvent Instant)} (h : Played t0 inputs out p)
    (hfit : TickFits p i)
    (hresume : ∀ now, i = .resume now → ∀ r ∈ t0 :: inputs.filterMap PumpInput.reading, r ≤ now)
    (hs : p.step i = some (p', es)) : Played t0 (inputs ++ [i]) (out ++ es) p' := by
  obtain ⟨r, hr, hbehind⟩ := h.behind
  have hlate : ∀ now, i = .resume now → p.sched.front ≤ now :=
    fun now hi => Nat.le_trans hbehind (hresume now hi r hr)
  obtain ⟨hadvances, hfront⟩ := step_advances hfit hlate hs
  refine ⟨h.moves.trans (step_moves h.moves.framed hs), ?_, ?_⟩
  · rw [slots_append]
    exact h.advances.trans hadvances
  · rw [List.filterMap_append]
    rcases hfront with hkept | ⟨r', hr', hreached⟩
    · exact ⟨r, List.mem_append.mpr (.inl hr), Nat.le_trans hkept hbehind⟩
    · refine ⟨r', ?_, hreached⟩
      simp [hr']

theorem step_total (p : Pump) (i : PumpInput) : ∃ p' es, p.step i = some (p', es) := by
  cases i with
  | tick now meanwhile =>
    simp only [Pump.step]
    split <;> exact ⟨_, _, rfl⟩
  | _ => exact ⟨_, _, rfl⟩

theorem resume_reads_last (h : (t0 :: inputs.filterMap PumpInput.reading).Pairwise (· ≤ ·)) :
    ∀ before now, before ++ [.resume now] <+: inputs →
      ∀ r ∈ t0 :: before.filterMap PumpInput.reading, r ≤ now := by
  intro before now hpre r hr
  have hsublist := (hpre.sublist.filterMap PumpInput.reading).cons_cons t0
  have hpairwise := h.sublist hsublist
  rw [List.filterMap_append, ← List.cons_append, List.pairwise_append] at hpairwise
  exact hpairwise.2.2 r hr now List.mem_cons_self

theorem along_tickFits (h : ∀ now ∈ inputs.filterMap PumpInput.reading, now < PUMP_FRAME * 2 ^ 32)
    (p : Pump) :
    Along Pump.step TickFits p inputs := by
  have hmem : ∀ i ∈ inputs, ∀ now, i.reading = some now → now < PUMP_FRAME * 2 ^ 32 :=
    fun i hi now hnow => h now (List.mem_filterMap.mpr ⟨i, hi, hnow⟩)
  refine (along_of_forall_mem hmem p).mono fun p i hi => ?_
  cases i with
  | tick now meanwhile =>
    have hnow : now - p.sched.anchor < PUMP_FRAME * 2 ^ 32 :=
      Nat.lt_of_le_of_lt (Nat.sub_le _ _) (hi now rfl)
    exact Or.inr (Nat.div_lt_of_lt_mul hnow)
  | _ => trivial

theorem run_played (hresume : ∀ before now, before ++ [.resume now] <+: inputs →
      ∀ r ∈ t0 :: before.filterMap PumpInput.reading, r ≤ now)
    (hfit : Along Pump.step TickFits (Pump.spawn t0) inputs) :
    ∃ p out, run Pump.step (Pump.spawn t0) inputs = some (p, out) ∧ Played t0 inputs out p := by
  have hstep : ∀ is out p i, (is <+: inputs → Played t0 is out p) → TickFits p i →
      ∃ p' es, Pump.step p i = some (p', es) ∧
        (is ++ [i] <+: inputs → Played t0 (is ++ [i]) (out ++ es) p') := by
    intro is out p i hplayed hfits
    obtain ⟨p', es, hs⟩ := step_total p i
    refine ⟨p', es, hs, fun hprefix => ?_⟩
    have hbefore := hplayed ((List.prefix_append is [i]).trans hprefix)
    exact hbefore.step hfits (fun now hi => hresume is now (hi ▸ hprefix)) hs
  obtain ⟨p, out, hrun, hplayed⟩ := run_spec hstep (fun _ => Played.spawn t0) hfit
  exact ⟨p, out, hrun, hplayed List.prefix_rfl⟩

/-- What enters the queue leaves it in order, as full frames or discarded, except for what is
still queued, and the slots a pump plans over a whole run strictly increase and are never
late, as long as the slot numbers fit in 32 bits. A resume reads the clock after all that
was read before it; the ticks may come at any times. -/
theorem playout_conserved (t0 : Instant) (inputs : List PumpInput)
    (hresume : ∀ before now, before ++ [.resume now] <+: inputs →
      ∀ r ∈ t0 :: before.filterMap PumpInput.reading, r ≤ now)
    (hfit : Along Pump.step TickFits (Pump.spawn t0) inputs) :
    ∃ p out, run Pump.step (Pump.spawn t0) inputs = some (p, out) ∧
      pushedBytes out = leftBytes out ++ p.queue.bytes ∧
      (∀ frame ∈ writtenFrames out, frame.length = FRAME_BYTES) ∧
      ((∀ bytes, .discarded bytes ∉ out) →
        NativeTtsQueue.completeFrames (pushedBytes out) = writtenFrames out ++ p.queue.frames) ∧
      ((slots out).map Prod.snd).Pairwise (· < ·) ∧
      (∀ slot ∈ slots out, slot.2 ≤ slot.1) ∧
      (∀ p i p' es, Pump.step p i = some (p', es) →
        (slots es).length ≤ PUMP_MAX_FRAMES_PER_TICK) := by
  obtain ⟨p, out, hrun, hplayed⟩ := run_played hresume hfit
  have hstream : pushedBytes out = leftBytes out ++ p.queue.bytes := hplayed.moves.stream
  refine ⟨p, out, hrun, hstream, hplayed.moves.written, ?_, hplayed.advances.increasing,
    hplayed.advances.onTime, fun p i p' es hs => step_cap hs⟩
  intro hkept
  have hframes : ∀ frame ∈ writtenFrames out ++ p.queue.frames, frame.length = FRAME_BYTES := by
    intro frame hmem
    rcases List.mem_append.mp hmem with h | h
    · exact hplayed.moves.written frame h
    · exact hplayed.moves.framed.frames frame h
  refine Stream.chunks_eq_of_flatten hframes hplayed.moves.framed.carry ?_
  rw [hstream, leftBytes_eq_flatten hkept, NativeTtsQueue.bytes, List.flatten_append,
    List.append_assoc]

/-- A frame and a half pushed in two pieces, a tick on time, a pause and a resume, and a tick
after a stall of ten slots. -/
theorem playout_conserved_stall :
    ∃ p out, run Pump.step (Pump.spawn 0)
        [.queue (.pushPcm (List.replicate 3000 1) 0), .queue (.pushPcm (List.replicate 2760 2) 5),
          .tick (PUMP_FRAME * 1) (fun _ => []), .pause, .resume (PUMP_FRAME * 7),
          .tick (PUMP_FRAME * 17) (fun _ => [])] = some (p, out) ∧
      ((slots out).map Prod.snd).Pairwise (· < ·) := by
  obtain ⟨p, out, hrun, -, -, -, hincreasing, -⟩ := playout_conserved 0
    [.queue (.pushPcm (List.replicate 3000 1) 0), .queue (.pushPcm (List.replicate 2760 2) 5),
      .tick (PUMP_FRAME * 1) (fun _ => []), .pause, .resume (PUMP_FRAME * 7),
      .tick (PUMP_FRAME * 17) (fun _ => [])]
    (resume_reads_last (by decide))
    (along_tickFits (by decide) _)
  exact ⟨p, out, hrun, hincreasing⟩

/-- After 2 ^ 32 slots without a resume the time of a slot wraps back to the anchor. -/
theorem slot_time_wraps :
    ∃ p out, run Pump.step (Pump.spawn 0) [.tick (PUMP_FRAME * 2 ^ 32) (fun _ => [])] =
        some (p, out) ∧
      ¬ ((slots out).map Prod.snd).Pairwise (· < ·) :=
  ⟨_, _, rfl, by decide +kernel⟩

end NodeWebrtc.MixPump
