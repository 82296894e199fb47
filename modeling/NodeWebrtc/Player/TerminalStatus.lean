import NodeWebrtc.Player.ClipSession
import NodeWebrtc.Player.WholeClip

/-! # The end of a clip

The host takes frames until the status is terminal. A session leaves buffering when its thread
finishes with any whole millisecond buffered, and then it ends once less than a frame is left. With
less than a millisecond in every chunk it stays in buffering. A stop is final unless the thread
fails after it.
-/

namespace NodeWebrtc.Player

open Machine (Step run Along)
open Mixer (FRAME_BYTES)

def ClipStatus.terminal : ClipStatus → Bool
  | .stopped | .ended | .error => true
  | .buffering | .playing => false

/-! ## Taking frames -/

theorem takeBytes_flatten (need : Nat) (queue : List (List UInt8)) :
    (takeBytes need queue).1 ++ (takeBytes need queue).2.flatten = queue.flatten := by
  induction queue generalizing need with
  | nil => rfl
  | cons front queue ih =>
    rw [takeBytes]
    split_ifs
    · rfl
    · rw [List.append_assoc, ih, List.flatten_cons]
    · rw [List.flatten_cons, List.flatten_cons, ← List.append_assoc, List.take_append_drop]

theorem takeBytes_length {need : Nat} {queue : List (List UInt8)}
    (h : need ≤ queue.flatten.length) : (takeBytes need queue).1.length = need := by
  induction queue generalizing need with
  | nil => exact (Nat.le_zero.mp h).symm
  | cons front queue ih =>
    rw [List.flatten_cons, List.length_append] at h
    rw [takeBytes]
    split_ifs with hzero hfront
    · exact hzero.symm
    · rw [List.length_append, ih (by omega)]
      omega
    · rw [List.length_take]
      omega

theorem takeFrame_cases (st : SessionState) :
    (st.status ≠ .playing ∧ st.takeFrame = (st, none)) ∨
    (st.status = .playing ∧ st.pcmQueue.flatten.length < FRAME_BYTES ∧
      st.takeFrame = (if st.decodeDone then { st with status := .ended } else st, none)) ∨
    (st.status = .playing ∧ ∃ pcm, pcm.length = FRAME_BYTES ∧ st.takeFrame.2 = some pcm ∧
      pcm ++ st.takeFrame.1.pcmQueue.flatten = st.pcmQueue.flatten ∧
      st.takeFrame.1.status = .playing ∧ st.takeFrame.1.decodeDone = st.decodeDone) := by
  by_cases hplaying : st.status = .playing
  · have htake : st.takeFrame = _ := if_neg (not_not.mpr hplaying)
    rw [popFrameBytes, ← List.length_flatten] at htake
    by_cases hshort : st.pcmQueue.flatten.length < FRAME_BYTES
    · rw [if_pos hshort] at htake
      exact .inr (.inl ⟨hplaying, hshort, htake⟩)
    · rw [if_neg hshort] at htake
      refine .inr (.inr ⟨hplaying, (takeBytes FRAME_BYTES st.pcmQueue).1,
        takeBytes_length (Nat.le_of_not_lt hshort), ?_⟩)
      rw [htake]
      exact ⟨rfl, takeBytes_flatten _ _, hplaying, rfl⟩
  · exact .inl ⟨hplaying, if_pos hplaying⟩

def SessionState.afterTakes (st : SessionState) : Nat → SessionState
  | 0 => st
  | n + 1 => st.takeFrame.1.afterTakes n

/-- Some number of further `take_frame` calls comes to a terminal status. -/
def SessionState.Reaches (st : SessionState) : Prop :=
  ∃ n, (st.afterTakes n).status.terminal = true

variable {st : SessionState}

theorem afterTakes_of_buffering (h : st.status = .buffering) (n : Nat) : st.afterTakes n = st := by
  induction n with
  | zero => rfl
  | succ n ih =>
    have hfix : st.takeFrame.1 = st := by rw [SessionState.takeFrame, if_pos (by rw [h]; decide)]
    rw [SessionState.afterTakes, hfix, ih]

theorem not_reaches_of_buffering (h : st.status = .buffering) : ¬ st.Reaches := by
  rintro ⟨n, hn⟩
  rw [afterTakes_of_buffering h, h] at hn
  cases hn

theorem reaches_of_not_buffering (hdone : st.decodeDone = true) (h : st.status ≠ .buffering) :
    st.Reaches := by
  induction hbytes : st.pcmQueue.flatten.length using Nat.strongRecOn generalizing st with
  | ind bytes ih =>
    rcases takeFrame_cases st with
      ⟨hidle, -⟩ | ⟨-, -, htake⟩ | ⟨-, pcm, hpcm, -, hqueue, hplaying, hsame⟩
    · refine ⟨0, ?_⟩
      show st.status.terminal = true
      cases hstatus : st.status <;> simp_all [ClipStatus.terminal]
    · refine ⟨1, ?_⟩
      show st.takeFrame.1.status.terminal = true
      rw [htake, if_pos hdone]
      rfl
    · have hless : st.takeFrame.1.pcmQueue.flatten.length < bytes := by
        have hlen := congrArg List.length hqueue
        rw [List.length_append, hpcm, FRAME_BYTES] at hlen
        omega
      obtain ⟨n, hn⟩ := ih _ hless (hsame.trans hdone) (by rw [hplaying]; nofun) rfl
      exact ⟨n + 1, hn⟩

theorem reaches_iff (hdone : st.decodeDone = true) : st.Reaches ↔ st.status ≠ .buffering :=
  ⟨fun h hbuffering => not_reaches_of_buffering hbuffering h, reaches_of_not_buffering hdone⟩

/-! ## What holds in every run -/

def frames : List Output → List (List UInt8)
  | [] => []
  | .frame pcm :: os => pcm :: frames os
  | .enqueued _ :: os => frames os

@[simp] theorem frames_append (os os' : List Output) : frames (os ++ os') = frames os ++ frames os' := by
  induction os with
  | nil => rfl
  | cons o os ih => cases o <;> simp [frames, ih]

def ThreadPhase.done : ThreadPhase → Bool
  | .returned .settle | .returned .exited => true
  | _ => false

/-- The thread is behind the error of its decode function. -/
def ThreadPhase.judged : ThreadPhase → Bool
  | .returned .storeDone | .returned .settle | .returned .exited => true
  | _ => false

/-- The frames taken and what is queued are what was enqueued; a clip has ended only when its thread
is done and less than a frame is queued, and has failed only when its decode function has. -/
structure Kept (outs : List Output) (c : Clip) : Prop where
  done : c.state.decodeDone = c.thread.done
  ended : c.state.status = .ended →
    c.thread.done = true ∧ c.state.pcmQueue.flatten.length < FRAME_BYTES
  error : c.state.status = .error → c.thread.judged = true
  taken : (frames outs).flatten ++ c.state.pcmQueue.flatten = enqueuedPcm outs
  whole : ∀ frame ∈ frames outs, frame.length = FRAME_BYTES

theorem tryTransition_cases (st : SessionState) :
    (tryTransitionToPlaying st = st ∧ ¬ (st.status = .buffering ∧ st.decodeDone = true ∧
      0 < st.bufferedMs)) ∨
    (st.status = .buffering ∧ tryTransitionToPlaying st = { st with status := .playing } ∧
      0 < st.bufferedMs) := by
  rw [tryTransitionToPlaying]
  by_cases hbuffering : st.status = .buffering
  · rw [if_neg (not_not.mpr hbuffering)]
    split
    · next hready =>
      refine .inr ⟨hbuffering, rfl, ?_⟩
      simp only [Bool.or_eq_true, Bool.and_eq_true, decide_eq_true_eq] at hready
      rcases hready with (hfull | ⟨-, henough⟩) | ⟨-, hsome, -⟩
      · exact Nat.lt_of_lt_of_le (by decide) hfull
      · exact Nat.lt_of_lt_of_le (by decide) henough
      · exact hsome
    · next hnot =>
      refine .inl ⟨rfl, fun hall => hnot ?_⟩
      obtain ⟨-, hdone, hpos⟩ := hall
      simp only [hdone, Bool.true_and, Bool.or_eq_true, Bool.and_eq_true, decide_eq_true_eq]
      rcases Nat.lt_or_ge st.bufferedMs prerollMinMs with hlow | hhigh
      · exact .inr ⟨hpos, hlow⟩
      · exact .inl (.inr hhigh)
  · exact .inl ⟨if_pos hbuffering, fun h => hbuffering h.1⟩

variable {outs : List Output} {c : Clip}

theorem Kept.takeFrame (h : Kept outs c) :
    Kept (outs ++ frameOutput c.state.takeFrame.2) ⟨c.state.takeFrame.1, c.thread⟩ := by
  rcases takeFrame_cases c.state with
    ⟨-, htake⟩ | ⟨-, hshort, htake⟩ | ⟨-, pcm, hpcm, hframe, hqueue, hplaying, hdone⟩
  · rw [htake, frameOutput, List.append_nil]
    exact h
  · rw [htake, frameOutput, List.append_nil]
    by_cases hdone : c.state.decodeDone = true
    · rw [if_pos hdone]
      exact ⟨h.done, fun _ => ⟨h.done.symm.trans hdone, hshort⟩, nofun, h.taken, h.whole⟩
    · rw [if_neg hdone]
      exact h
  · rw [hframe, frameOutput]
    refine ⟨hdone.trans h.done, fun hended => ?_, fun herror => ?_, ?_, ?_⟩
    · cases hplaying.symm.trans hended
    · cases hplaying.symm.trans herror
    · simp only [frames_append, enqueuedPcm_append, frames, enqueuedPcm, List.flatten_append,
        List.flatten_singleton, List.append_nil, List.append_assoc]
      rw [hqueue, h.taken]
    · intro frame hmem
      rw [frames_append] at hmem
      rcases List.mem_append.mp hmem with hmem | hmem
      · exact h.whole frame hmem
      · rw [List.mem_singleton.mp hmem, hpcm]

theorem Kept.requestStop (h : Kept outs c) :
    Kept outs ⟨c.state.requestStop, c.thread⟩ := ⟨h.done, h.ended, h.error, h.taken, h.whole⟩

theorem Kept.stopStatus (h : Kept outs c) : Kept outs ⟨c.state.stopStatus, c.thread⟩ := by
  refine ⟨h.done, fun hended => ?_, fun herror => ?_, h.taken, h.whole⟩
  · rw [SessionState.stopStatus] at hended
    split_ifs at hended
    exact h.ended hended
  · rw [SessionState.stopStatus] at herror
    split_ifs at herror
    exact h.error herror

variable {state : SessionState} {thread : ThreadPhase}

theorem Kept.tryTransition (h : Kept outs ⟨state, thread⟩) :
    Kept outs ⟨tryTransitionToPlaying state, thread⟩ := by
  rcases tryTransition_cases state with ⟨hsame, -⟩ | ⟨-, hplays, -⟩
  · rwa [hsame]
  · rw [hplays]
    exact ⟨h.done, nofun, nofun, h.taken, h.whole⟩

theorem Kept.enqueue {e : EnqueueStep} (h : Kept outs ⟨state, .enqueue e⟩)
    (hdone : thread.done = false) :
    Kept (outs ++ (enqueueStep state e).2.2) ⟨(enqueueStep state e).1, thread⟩ := by
  have hmoved : Kept outs ⟨state, thread⟩ :=
    ⟨h.done.trans hdone.symm, fun hended => (by cases (h.ended hended).1),
      fun herror => (by cases h.error herror), h.taken, h.whole⟩
  cases e with
  | push pcm =>
    refine ⟨hmoved.done, fun hended => ?_, hmoved.error, ?_, ?_⟩
    · cases (h.ended hended).1
    · have htaken := h.taken
      simp only [enqueueStep, frames_append, enqueuedPcm_append, frames, enqueuedPcm,
        List.append_nil, List.flatten_append, List.flatten_singleton] at htaken ⊢
      rw [← List.append_assoc, htaken]
    · rw [enqueueStep, frames_append]
      simpa [frames] using h.whole
  | credit addedMs =>
    rw [enqueueStep, List.append_nil]
    exact ⟨hmoved.done, hmoved.ended, hmoved.error, hmoved.taken, hmoved.whole⟩
  | transition =>
    rw [enqueueStep, List.append_nil]
    exact hmoved.tryTransition

variable {state' : SessionState}

theorem Kept.ends {e e' : LoopEnd} (h : Kept outs ⟨state, .returned e⟩)
    (hend : loopEndStep state e = some (state', e')) :
    Kept (outs ++ []) ⟨state', .returned e'⟩ := by
  rw [List.append_nil]
  cases e with
  | result err =>
    cases err with
    | some err =>
      cases hend
      exact ⟨h.done, nofun, fun _ => rfl, h.taken, h.whole⟩
    | none =>
      cases hend
      exact ⟨h.done, fun hended => (by cases (h.ended hended).1), fun _ => rfl, h.taken, h.whole⟩
  | storeDone =>
    cases hend
    exact ⟨rfl, fun hended => (by cases (h.ended hended).1), fun _ => rfl, h.taken, h.whole⟩
  | settle =>
    cases hend
    have hmoved : Kept outs ⟨state, .returned .exited⟩ :=
      ⟨h.done, h.ended, fun _ => rfl, h.taken, h.whole⟩
    exact hmoved.tryTransition
  | exited => cases hend

theorem done_of_next (h : thread.Next) : thread.done = false := by
  cases thread with
  | decoding | enqueue => rfl
  | returned e =>
    obtain ⟨err, rfl⟩ := h
    rfl

variable {c' : Clip}

theorem Clip.Moves.kept {i : ClipSession.Input} {out : List Output} (h : c.Moves i c' out)
    (hkept : Kept outs c) : Kept (outs ++ out) c' := by
  obtain ⟨state, thread⟩ := c
  cases h with
  | append | markEof => rwa [List.append_nil]
  | takeFrame => exact hkept.takeFrame
  | stop =>
    rw [List.append_nil, SessionState.stop_eq]
    exact hkept.requestStop.stopStatus
  | requestStop =>
    rw [List.append_nil]
    exact hkept.requestStop
  | stopStatus =>
    rw [List.append_nil]
    exact hkept.stopStatus
  | decodes durationMs hthread hnext =>
    obtain rfl : thread = .decoding := hthread
    rw [List.append_nil]
    exact ⟨hkept.done.trans (done_of_next hnext).symm,
      fun hended => (by cases (hkept.ended hended).1),
      fun herror => (by cases hkept.error herror), hkept.taken, hkept.whole⟩
  | @enqueues e hthread =>
    obtain rfl : thread = .enqueue e := hthread
    refine hkept.enqueue ?_
    cases (enqueueStep state e).2.1 <;> rfl
  | @ends e e' state' hthread hend =>
    obtain rfl : thread = .returned e := hthread
    exact hkept.ends hend

/-! ## One step -/

/-- A terminal status stays, and a clip whose thread has finished comes to one. -/
structure Settles (c c' : Clip) : Prop where
  keeps : c.state.status.terminal = true → c'.state.status = c.state.status
  reaches : c'.thread = .returned .exited → c'.state.Reaches

/-- The decode function does not fail after a stop, and the thread does not finish while the clip
buffers without a whole millisecond. -/
def Fits (c : Clip) : ClipSession.Input → Prop
  | .session .decode =>
    match c.thread with
    | .returned (.result (some _)) => c.state.status ≠ .stopped
    | .returned .settle => ¬ (c.state.status = .buffering ∧ c.state.bufferedMs = 0)
    | _ => True
  | _ => True

/-- A thread that has finished has left buffering. -/
def Left (c : Clip) : Prop := c.thread = .returned .exited → c.state.status ≠ .buffering

theorem takeFrame_status (st : SessionState) :
    (st.status.terminal = true → st.takeFrame.1.status = st.status) ∧
      (st.status ≠ .buffering → st.takeFrame.1.status ≠ .buffering) := by
  rcases takeFrame_cases st with
    ⟨-, htake⟩ | ⟨hplaying, -, htake⟩ | ⟨hplaying, -, -, -, -, hstill, -⟩
  · rw [htake]
    exact ⟨fun _ => rfl, id⟩
  · rw [htake]
    refine ⟨fun h => ?_, fun _ => ?_⟩
    · rw [hplaying] at h
      cases h
    · split_ifs
      · nofun
      · rw [hplaying]
        nofun
  · rw [hstill]
    refine ⟨fun _ => hplaying.symm, fun _ => nofun⟩

theorem stopStatus_status (st : SessionState) :
    (st.status.terminal = true → st.stopStatus.status = st.status) ∧
      st.stopStatus.status ≠ .buffering := by
  rw [SessionState.stopStatus]
  cases st.status <;> simp [ClipStatus.terminal]

theorem Kept.settles_of (hkept : Kept outs ⟨state', thread⟩) (hleft : Left ⟨state, thread⟩)
    (hkeeps : state.status.terminal = true → state'.status = state.status)
    (hstays : state.status ≠ .buffering → state'.status ≠ .buffering) :
    Settles ⟨state, thread⟩ ⟨state', thread⟩ ∧ Left ⟨state', thread⟩ := by
  refine ⟨⟨hkeeps, fun hexited => ?_⟩, fun hexited => hstays (hleft hexited)⟩
  have hdone : state'.decodeDone = thread.done := hkept.done
  obtain rfl : thread = .returned .exited := hexited
  exact reaches_of_not_buffering hdone (hstays (hleft rfl))

theorem settles_of_working {thread' : ThreadPhase} (hworking : thread' ≠ .returned .exited)
    (hkeeps : state.status.terminal = true → state'.status = state.status) :
    Settles ⟨state, thread⟩ ⟨state', thread'⟩ ∧ Left ⟨state', thread'⟩ :=
  ⟨⟨hkeeps, fun hexited => absurd hexited hworking⟩, fun hexited => absurd hexited hworking⟩

theorem working_of_next (h : thread.Next) : thread ≠ .returned .exited := by
  rintro rfl
  cases done_of_next h

theorem tryTransition_keeps (h : st.status.terminal = true) :
    (tryTransitionToPlaying st).status = st.status := by
  rcases tryTransition_cases st with ⟨hsame, -⟩ | ⟨hbuffering, -, -⟩
  · rw [hsame]
  · rw [hbuffering] at h
    cases h

theorem tryTransition_buffering_iff (hdone : st.decodeDone = true) :
    (tryTransitionToPlaying st).status = .buffering ↔
      st.status = .buffering ∧ st.bufferedMs = 0 := by
  rcases tryTransition_cases st with ⟨hsame, hnot⟩ | ⟨hbuffering, hplays, hpos⟩
  · rw [hsame]
    refine ⟨fun h => ⟨h, ?_⟩, And.left⟩
    by_contra hne
    exact hnot ⟨h, hdone, Nat.pos_of_ne_zero hne⟩
  · rw [hplays]
    exact ⟨nofun, fun h => absurd h.2 (Nat.ne_of_gt hpos)⟩

theorem Kept.ends_settles_iff {e e' : LoopEnd} (hkept : Kept outs ⟨state, .returned e⟩)
    (hend : loopEndStep state e = some (state', e')) :
    (Settles ⟨state, .returned e⟩ ⟨state', .returned e'⟩ ↔
        Fits ⟨state, .returned e⟩ (.session .decode)) ∧
      (Fits ⟨state, .returned e⟩ (.session .decode) → Left ⟨state', .returned e'⟩) := by
  cases e with
  | result err =>
    cases err with
    | some err =>
      cases hend
      refine ⟨⟨fun h hstopped => ?_, fun hfits => ⟨fun hterminal => ?_, nofun⟩⟩, fun _ => nofun⟩
      · have herror := h.keeps (by rw [hstopped]; rfl)
        cases herror.trans hstopped
      · exfalso
        cases hstatus : state.status with
        | buffering | playing =>
          rw [hstatus] at hterminal
          cases hterminal
        | stopped => exact hfits hstatus
        | ended => cases (hkept.ended hstatus).1
        | error => cases hkept.error hstatus
    | none =>
      cases hend
      have hsettles : Settles ⟨state, .returned (.result none)⟩ ⟨state, .returned .storeDone⟩ ∧
          Left ⟨state, .returned .storeDone⟩ := settles_of_working nofun fun _ => rfl
      exact ⟨iff_of_true hsettles.1 trivial, fun _ => hsettles.2⟩
  | storeDone =>
    cases hend
    have hsettles : Settles ⟨state, .returned .storeDone⟩
        ⟨{ state with decodeDone := true }, .returned .settle⟩ ∧
        Left ⟨{ state with decodeDone := true }, .returned .settle⟩ :=
      settles_of_working nofun fun _ => rfl
    exact ⟨iff_of_true hsettles.1 trivial, fun _ => hsettles.2⟩
  | settle =>
    cases hend
    have hdone : state.decodeDone = true := hkept.done
    have hdone' : (tryTransitionToPlaying state).decodeDone = true := hkept.tryTransition.done
    have hbuffering := tryTransition_buffering_iff hdone
    refine ⟨⟨fun h hlow => ?_, fun hfits => ⟨tryTransition_keeps, fun _ => ?_⟩⟩,
      fun hfits _ hlow => hfits (hbuffering.mp hlow)⟩
    · exact (reaches_iff hdone').mp (h.reaches rfl) (hbuffering.mpr hlow)
    · exact (reaches_iff hdone').mpr fun hlow => hfits (hbuffering.mp hlow)
  | exited => cases hend

theorem Clip.Moves.settles_iff {i : ClipSession.Input} {out : List Output} (h : c.Moves i c' out)
    (hkept : Kept outs c) (hleft : Left c) :
    (Settles c c' ↔ Fits c i) ∧ (Fits c i → Left c') := by
  have hkept' := h.kept hkept
  obtain ⟨state, thread⟩ := c
  have hfree : ∀ {c' : Clip} {i : ClipSession.Input}, Fits ⟨state, thread⟩ i →
      Settles ⟨state, thread⟩ c' ∧ Left c' →
      (Settles ⟨state, thread⟩ c' ↔ Fits ⟨state, thread⟩ i) ∧ (Fits ⟨state, thread⟩ i → Left c') :=
    fun hfits hsettles => ⟨iff_of_true hsettles.1 hfits, fun _ => hsettles.2⟩
  cases h with
  | append chunk | markEof | requestStop =>
    exact hfree trivial (hkept'.settles_of hleft (fun _ => rfl) id)
  | takeFrame =>
    have hstatus := takeFrame_status state
    exact hfree trivial (hkept'.settles_of hleft hstatus.1 hstatus.2)
  | stop | stopStatus =>
    have hstatus := stopStatus_status state
    exact hfree trivial (hkept'.settles_of hleft hstatus.1 fun _ => hstatus.2)
  | decodes durationMs hthread hnext =>
    obtain rfl : thread = .decoding := hthread
    exact hfree trivial (settles_of_working (working_of_next hnext) fun _ => rfl)
  | @enqueues e hthread =>
    obtain rfl : thread = .enqueue e := hthread
    refine hfree trivial (settles_of_working ?_ ?_)
    · cases (enqueueStep state e).2.1 <;> nofun
    · cases e with
      | push | credit => exact fun _ => rfl
      | transition => exact tryTransition_keeps
  | @ends e e' state' hthread hend =>
    obtain rfl : thread = .returned e := hthread
    exact hkept.ends_settles_iff hend

/-! ## Runs -/

/-- What is promised of a clip after a step; `outs` is all that was put out. -/
structure Promised (outs : List Output) (c c' : Clip) : Prop where
  settles : Settles c c'
  silent : c'.state.status.terminal = true → c'.state.takeFrame.2 = none
  taken : (frames outs).flatten ++ c'.state.pcmQueue.flatten = enqueuedPcm outs
  whole : ∀ frame ∈ frames outs, frame.length = FRAME_BYTES
  ended : c'.state.status = .ended → c'.state.pcmQueue.flatten.length < FRAME_BYTES

theorem takeFrame_of_terminal (h : st.status.terminal = true) : st.takeFrame.2 = none := by
  rw [SessionState.takeFrame, if_pos]
  rintro hplaying
  rw [hplaying] at h
  cases h

theorem Kept.promised (hkept : Kept outs c') (hsettles : Settles c c') : Promised outs c c' where
  settles := hsettles
  silent := takeFrame_of_terminal
  taken := hkept.taken
  whole := hkept.whole
  ended h := (hkept.ended h).2

namespace ClipSession

theorem kept_spawn (input : InputKind) : Kept [] (spawn input).clip ∧ Left (spawn input).clip := by
  have hspawned : ∀ {state : SessionState} {thread : ThreadPhase}, state.status = .buffering →
      state.decodeDone = false → state.pcmQueue = [] → thread.done = false →
      thread ≠ .returned .exited → Kept [] ⟨state, thread⟩ ∧ Left ⟨state, thread⟩ := by
    intro state thread hstatus hdone hqueue hphase hworking
    refine ⟨⟨hdone.trans hphase.symm, fun h => ?_, fun h => ?_, by rw [hqueue]; rfl, nofun⟩,
      fun h => absurd h hworking⟩
    · cases hstatus.symm.trans h
    · cases hstatus.symm.trans h
  cases input with
  | path file hint =>
    cases file with
    | ok data | error message => exact hspawned rfl rfl rfl rfl nofun
  | bytes data | growing | rawPcm data => exact hspawned rfl rfl rfl rfl nofun

/-- Every step of a run on this input keeps what is promised. -/
def Promises (S : Symphonia) (input : InputKind) (is : List Input) : Prop :=
  ∀ pre i t out v es, pre ++ [i] <+: is → run (step S) (spawn input) pre = some (t, out) →
    step S t i = some (v, es) → Promised (out ++ es) t.clip v.clip

/-- Along a run on any input, in any order of the thread's, the host's and the writer's steps, a
clip keeps what is promised exactly when the decode function never fails after a stop and the thread
never finishes while the clip buffers without a whole millisecond. -/
theorem promises_iff {S : Symphonia} {input : InputKind} {is : List Input} {s : ClipSession}
    {os : List Output} (hr : run (step S) (spawn input) is = some (s, os)) :
    Promises S input is ↔ Along (step S) (fun s i => Fits s.clip i) (spawn input) is := by
  refine Machine.steps_iff_of_run (J := fun os s => Kept os s.clip ∧ Left s.clip)
    (P := fun os s _ es t => Promised (os ++ es) s.clip t.clip)
    (fun os s i t out h hs => ?_) [] (kept_spawn input) hr
  obtain ⟨hkept, hleft⟩ := h
  have hmoves := step_moves hs
  obtain ⟨hiff, hkeep⟩ := hmoves.settles_iff hkept hleft
  have hkept' := hmoves.kept hkept
  exact ⟨⟨fun h => hiff.mp h.settles, fun hfits => hkept'.promised (hiff.mpr hfits)⟩,
    fun hfits => ⟨hkept', hkeep hfits⟩⟩

/-- The steps of the thread on raw PCM, from its start to its end. -/
def rawDecode : List Input := List.replicate 8 (.session .decode)

theorem promises_iff_click :
    Promises (beeps []) (.rawPcm (List.replicate 192 0))
        (rawDecode ++ [.session .takeFrame, .session .stop]) ↔
      Along (step (beeps [])) (fun s i => Fits s.clip i) (spawn (.rawPcm (List.replicate 192 0)))
        (rawDecode ++ [.session .takeFrame, .session .stop]) := by
  have hsome : (run (step (beeps [])) (spawn (.rawPcm (List.replicate 192 0)))
      (rawDecode ++ [.session .takeFrame, .session .stop])).isSome = true := by
    decide +kernel
  obtain ⟨⟨s, os⟩, hr⟩ := Option.isSome_iff_exists.mp hsome
  exact promises_iff hr

/-- Raw PCM without a byte leaves its clip in buffering. Raw PCM of three bytes fails, after a stop
too. -/
theorem not_promises : ¬ Promises (beeps []) (.rawPcm []) rawDecode ∧
    ¬ Promises (beeps []) (.rawPcm [0, 0, 0]) (.session .stop :: rawDecode.take 2) := by
  constructor
  · intro h
    have hend := h (rawDecode.take 7) (.session .decode) _ _ _ _ (List.prefix_refl _) rfl rfl
    exact not_reaches_of_buffering rfl (hend.settles.reaches rfl)
  · intro h
    have hend := h [.session .stop, .session .decode] (.session .decode) _ _ _ _
      (List.prefix_refl _) rfl rfl
    cases hend.settles.keeps rfl

end ClipSession

end NodeWebrtc.Player
