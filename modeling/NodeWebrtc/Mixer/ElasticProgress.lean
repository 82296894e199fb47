import Mathlib.Logic.Function.Iterate
import NodeWebrtc.Mixer.Provenance

/-! # Progress of the elastic queue

A non-empty queue plays within its target number of ticks unless a new talk-spurt starts,
and a backlog is slimmed down to the target plus the margin: one frame a tick, then two
once it has lasted `SHRINK_AFTER_TICKS`.
-/

namespace NodeWebrtc.Mixer

open Machine

namespace ElasticFrameQueue

variable {D : MixDsp}

/-- A pushed frame that comes after a pause re-enters prefill. -/
def StartsTalkspurt (q : ElasticFrameQueue D) : ElasticOp → Prop
  | .push frame now => frame.isValid = true ∧
      ∃ prev, q.lastArrival = some prev ∧ TALKSPURT_GAP < saturatingDurationSince now prev
  | .pop => False

/-! ## What a push leaves alone -/

variable {q : ElasticFrameQueue D}

theorem push_keeps_prefill {frame : Frame} {now : Instant}
    (h : ¬ q.StartsTalkspurt (.push frame now)) :
    (q.push frame now).prefilling = q.prefilling ∧
      (q.push frame now).prefillWaited = q.prefillWaited ∧
      (q.frames ≠ [] → (q.push frame now).frames ≠ []) := by
  by_cases hvalid : frame.isValid = true
  · have hjitter : (q.updateJitter now).prefilling = q.prefilling ∧
        (q.updateJitter now).prefillWaited = q.prefillWaited := by
      unfold updateJitter
      cases hlast : q.lastArrival with
      | none => exact ⟨rfl, rfl⟩
      | some prev =>
        have hgap : ¬ saturatingDurationSince now prev > TALKSPURT_GAP :=
          fun hgap => h ⟨hvalid, prev, hlast, hgap⟩
        dsimp only
        rw [if_neg hgap]
        exact ⟨rfl, rfl⟩
    have hroom : ∀ p : ElasticFrameQueue D,
        p.makeRoom.prefilling = p.prefilling ∧ p.makeRoom.prefillWaited = p.prefillWaited := by
      intro p
      unfold makeRoom
      split
      · split <;> exact ⟨rfl, rfl⟩
      · exact ⟨rfl, rfl⟩
    unfold push
    rw [hvalid, Bool.not_true, if_neg Bool.false_ne_true]
    obtain ⟨hp, hw⟩ := hroom { q.updateJitter now with pushed := (q.updateJitter now).pushed + 1 }
    exact ⟨hp.trans hjitter.1, hw.trans hjitter.2, fun _ => by simp⟩
  · unfold push
    rw [if_pos (by simpa using hvalid)]
    exact ⟨rfl, rfl, id⟩

def TargetBounded (q : ElasticFrameQueue D) : Prop :=
  MIN_TARGET_FRAMES ≤ q.target ∧ q.target ≤ MAX_TARGET_FRAMES

theorem clampTarget_bounded (frames : Nat) :
    MIN_TARGET_FRAMES ≤ clampTarget frames ∧ clampTarget frames ≤ MAX_TARGET_FRAMES :=
  ⟨Nat.le_max_left _ _, Nat.max_le.mpr ⟨by decide, Nat.min_le_left _ _⟩⟩

theorem push_targetBounded (h : q.TargetBounded) (frame : Frame) (now : Instant) :
    (q.push frame now).TargetBounded := by
  have hjitter : (q.updateJitter now).TargetBounded := by
    unfold updateJitter
    cases q.lastArrival with
    | none => exact h
    | some prev =>
      dsimp only
      split
      · exact h
      · exact clampTarget_bounded _
  have hroom : ∀ p : ElasticFrameQueue D, p.makeRoom.target = p.target := by
    intro p
    unfold makeRoom
    split
    · split <;> rfl
    · rfl
  unfold push
  split
  · exact h
  · dsimp only
    rw [hroom]
    exact hjitter

/-! ## One pop -/

section

variable (q)

theorem underrun_target : q.underrun.2.target = q.target := by
  unfold underrun
  dsimp only
  generalize hp : (if q.emptyTicks + 1 = 1 then _ else _ : Frame × ElasticFrameQueue D) = p
  have hkept : p.2.target = q.target := by
    rw [← hp]
    split
    · split <;> rfl
    · rfl
  split
  · exact hkept
  · exact hkept

theorem popReady_target : q.popReady.2.target = q.target := by
  unfold popReady
  generalize (if q.target + SHRINK_MARGIN_FRAMES < q.frames.length then q.overTicks + 1 else 0) =
    overTicks
  cases q.frames with
  | nil => exact underrun_target _
  | cons first rest =>
    cases rest with
    | nil => rfl
    | cons second rest =>
      dsimp only
      split <;> rfl

theorem pop_cases :
    (∃ waited, q.prefilling = true ∧ q.frames.length < q.target ∧
        (q.frames ≠ [] → waited = q.prefillWaited + 1 ∧ waited < q.target) ∧
        q.pop = (silenceFrame, { q with prefillWaited := waited })) ∨
      (∃ waited, q.pop = { q with
        prefilling := false
        prefillWaited := waited }.popReady) := by
  unfold pop
  by_cases hprefill : q.prefilling = true
  · rw [if_pos hprefill]
    by_cases hready : (!(decide (q.target ≤ q.frames.length) || (!q.frames.isEmpty && decide
        (q.target ≤ if q.frames.isEmpty = true then q.prefillWaited
          else q.prefillWaited + 1)))) = true
    · rw [if_pos hready]
      simp only [Bool.not_eq_true', Bool.or_eq_false_iff, Bool.and_eq_false_iff,
        decide_eq_false_iff_not, Nat.not_le] at hready
      refine .inl ⟨_, hprefill, hready.1, fun hne => ?_, rfl⟩
      have hnonempty : q.frames.isEmpty = false := by simpa using hne
      rw [hnonempty, if_neg Bool.false_ne_true] at hready ⊢
      exact ⟨rfl, hready.2.resolve_left (by simp)⟩
    · rw [if_neg hready]
      exact .inr ⟨0, rfl⟩
  · rw [if_neg hprefill]
    rw [Bool.not_eq_true] at hprefill
    refine .inr ⟨q.prefillWaited, ?_⟩
    rw [← hprefill]

theorem pop_target : q.pop.2.target = q.target := by
  rcases q.pop_cases with ⟨waited, -, -, -, hpop⟩ | ⟨waited, hpop⟩ <;> rw [hpop]
  exact popReady_target _

end

def nextOverTicks (q : ElasticFrameQueue D) : Nat :=
  if q.target + SHRINK_MARGIN_FRAMES < q.frames.length then q.overTicks + 1 else 0

/-- A pop that plays: the oldest frame, or the two oldest merged when the queue has been
too deep for long enough. -/
structure PlaysNext (q q' : ElasticFrameQueue D) : Prop where
  played : q'.played = q.played + 1
  overTicks : q'.overTicks = q.nextOverTicks
  prefilling : q'.prefilling = false
  depth : if SHRINK_AFTER_TICKS ≤ q.nextOverTicks ∧ 2 ≤ q.frames.length then
      q'.frames.length + 2 = q.frames.length ∧ q'.compressed = q.compressed + 1
    else q'.frames.length + 1 = q.frames.length ∧ q'.compressed = q.compressed

theorem popReady_playsNext (hne : q.frames ≠ []) (hready : q.prefilling = false) :
    q.PlaysNext q.popReady.2 := by
  suffices h : q.popReady.2.played = q.played + 1 ∧ q.popReady.2.overTicks = q.nextOverTicks ∧
      q.popReady.2.prefilling = false ∧
      if SHRINK_AFTER_TICKS ≤ q.nextOverTicks ∧ 2 ≤ q.frames.length then
        q.popReady.2.frames.length + 2 = q.frames.length ∧
          q.popReady.2.compressed = q.compressed + 1
      else q.popReady.2.frames.length + 1 = q.frames.length ∧
        q.popReady.2.compressed = q.compressed from ⟨h.1, h.2.1, h.2.2.1, h.2.2.2⟩
  unfold popReady nextOverTicks
  generalize (if q.target + SHRINK_MARGIN_FRAMES < q.frames.length then q.overTicks + 1 else 0) =
    overTicks
  cases hframes : q.frames with
  | nil => exact (hne hframes).elim
  | cons first rest =>
    cases rest with
    | nil => exact ⟨rfl, rfl, hready, by simp⟩
    | cons second rest =>
      dsimp only
      by_cases hslim : SHRINK_AFTER_TICKS ≤ overTicks
      · rw [if_pos hslim]
        exact ⟨rfl, rfl, hready, by simp [hslim]⟩
      · rw [if_neg hslim]
        exact ⟨rfl, rfl, hready, by simp [hslim]⟩

theorem pop_of_nonempty (hne : q.frames ≠ []) :
    (q.prefilling = true ∧ q.frames.length < q.target ∧ q.prefillWaited + 1 < q.target ∧
        q.pop = (silenceFrame, { q with prefillWaited := q.prefillWaited + 1 })) ∨
      q.PlaysNext q.pop.2 := by
  rcases q.pop_cases with ⟨waited, hprefill, hshort, hwaits, hpop⟩ | ⟨waited, hpop⟩
  · obtain ⟨rfl, hlt⟩ := hwaits hne
    exact .inl ⟨hprefill, hshort, hlt, hpop⟩
  · have hplays := popReady_playsNext (q := { q with
      prefilling := false
      prefillWaited := waited }) hne rfl
    rw [hpop]
    exact .inr ⟨hplays.played, hplays.overTicks, hplays.prefilling, hplays.depth⟩

theorem PlaysNext.popOutput (h : q.PlaysNext q.pop.2) : ∃ f, q.popOutput = .played f := by
  refine ⟨q.pop.1, if_pos ?_⟩
  rw [h.played]
  exact Nat.lt_succ_self _

/-! ## Within the target -/

/-- As long as nothing was played, every pop so far was a tick of prefill. -/
def Waits (q : ElasticFrameQueue D) (outs : List PopOutput) : Prop :=
  playedFrames outs = [] → q.frames ≠ [] ∧
    (outs = [] ∨ q.prefilling = true ∧ outs.length ≤ q.prefillWaited)

variable {outs : List PopOutput}

theorem Waits.step {q' : ElasticFrameQueue D} {out : List PopOutput} {op : ElasticOp}
    (h : q.Waits outs) (hspurt : ¬ q.StartsTalkspurt op) (hstep : q.step op = some (q', out)) :
    q'.Waits (outs ++ out) := by
  intro hnone
  rw [playedFrames_append, List.append_eq_nil_iff] at hnone
  obtain ⟨hne, hwaited⟩ := h hnone.1
  cases op with
  | push frame now =>
    cases hstep
    obtain ⟨hprefill, hsame, hkept⟩ := push_keeps_prefill hspurt
    rw [List.append_nil, hprefill, hsame]
    exact ⟨hkept hne, hwaited⟩
  | pop =>
    cases hstep
    rcases pop_of_nonempty hne with ⟨hprefill, -, hlt, hpop⟩ | hplays
    · rw [hpop]
      refine ⟨hne, .inr ⟨hprefill, ?_⟩⟩
      dsimp only
      rw [List.length_append, List.length_singleton]
      rcases hwaited with rfl | ⟨-, hle⟩
      · simp
      · omega
    · obtain ⟨f, hf⟩ := hplays.popOutput
      rw [hf] at hnone
      cases hnone.2

/-- From a non-empty queue, a run without a new talk-spurt that ends with a pop, and has
at least as many pops as the target asks for, plays a frame. -/
theorem plays_within_target {q' : ElasticFrameQueue D} (hne : q.frames ≠ []) {ops : List ElasticOp}
    (hspurt : Along ElasticFrameQueue.step (fun q op => ¬ q.StartsTalkspurt op) q ops)
    (hrun : run ElasticFrameQueue.step q (ops ++ [.pop]) = some (q', outs))
    (hlong : q'.target ≤ outs.length) : playedFrames outs ≠ [] := by
  obtain ⟨p, before, out, hbefore, hlast, rfl⟩ := run_append_eq_some.mp hrun
  rw [run_singleton] at hlast
  have hwaits : p.Waits before := by
    refine run_history (I := fun _ outs (q : ElasticFrameQueue D) => q.Waits outs)
      (fun _ _ _ _ _ _ h hc hs => h.step hc hs) ?_ hspurt hbefore
    exact fun _ => ⟨hne, .inl rfl⟩
  cases hlast
  intro hnone
  rw [playedFrames_append, List.append_eq_nil_iff] at hnone
  obtain ⟨hpne, hwaited⟩ := hwaits hnone.1
  rcases pop_of_nonempty hpne with ⟨-, -, hlt, hpop⟩ | hplays
  · rw [List.length_append, List.length_singleton, p.pop_target] at hlong
    rcases hwaited with rfl | ⟨-, hle⟩
    · rw [List.length_nil] at hlong
      omega
    · omega
  · obtain ⟨f, hf⟩ := hplays.popOutput
    rw [hf] at hnone
    cases hnone.2

/-! ## A backlog -/

/-- The queue is deeper than the target plus the margin. -/
def Backlogged (q : ElasticFrameQueue D) : Prop := q.target + SHRINK_MARGIN_FRAMES < q.frames.length

def afterPops (q : ElasticFrameQueue D) (n : Nat) : ElasticFrameQueue D :=
  (fun q => q.pop.2)^[n] q

theorem afterPops_succ (q : ElasticFrameQueue D) (n : Nat) :
    q.afterPops (n + 1) = (q.afterPops n).pop.2 :=
  Function.iterate_succ_apply' _ _ _

theorem afterPops_target (q : ElasticFrameQueue D) (n : Nat) :
    (q.afterPops n).target = q.target := by
  induction n with
  | zero => rfl
  | succ n ih => rw [afterPops_succ, pop_target, ih]

theorem Backlogged.pop (h : q.Backlogged) :
    q.pop.2.overTicks = q.overTicks + 1 ∧
      q.pop.2.frames.length + (if SHRINK_AFTER_TICKS ≤ q.overTicks + 1 then 2 else 1) =
        q.frames.length := by
  unfold Backlogged at h
  have hne : q.frames ≠ [] := by
    intro hnil
    rw [hnil] at h
    cases h
  have hlen : 2 ≤ q.frames.length := by
    simp only [SHRINK_MARGIN_FRAMES] at h
    omega
  have hnext : q.nextOverTicks = q.overTicks + 1 := if_pos h
  rcases pop_of_nonempty hne with ⟨-, hshort, -⟩ | hplays
  · omega
  · have hdepth := hplays.depth
    rw [hnext] at hdepth
    refine ⟨hplays.overTicks.trans hnext, ?_⟩
    by_cases hslim : SHRINK_AFTER_TICKS ≤ q.overTicks + 1
    · rw [if_pos ⟨hslim, hlen⟩] at hdepth
      rw [if_pos hslim]
      exact hdepth.1
    · rw [if_neg fun hboth => hslim hboth.1] at hdepth
      rw [if_neg hslim]
      exact hdepth.1

theorem Backlogged.overTicks_afterPops {n : Nat} (h : ∀ m < n, (q.afterPops m).Backlogged) :
    (q.afterPops n).overTicks = q.overTicks + n := by
  induction n with
  | zero => rfl
  | succ n ih =>
    rw [afterPops_succ, (h n (Nat.lt_succ_self n)).pop.1,
      ih fun m hm => h m (Nat.lt_succ_of_lt hm), Nat.add_assoc]

theorem backlog_ends (q : ElasticFrameQueue D) :
    ∃ n ≤ q.frames.length, ¬ (q.afterPops n).Backlogged ∧
      ∀ m < n, (q.afterPops m).Backlogged := by
  induction hlen : q.frames.length using Nat.strongRecOn generalizing q with
  | _ len ih =>
    by_cases h : q.Backlogged
    · have hdepth := h.pop.2
      have hless : q.pop.2.frames.length < len := by split at hdepth <;> omega
      obtain ⟨n, hn, hends, hbefore⟩ := ih _ hless q.pop.2 rfl
      refine ⟨n + 1, by omega, hends, fun m hm => ?_⟩
      cases m with
      | zero => exact h
      | succ m => exact hbefore m (Nat.lt_of_succ_lt_succ hm)
    · exact ⟨0, Nat.zero_le _, h, fun m hm => absurd hm (Nat.not_lt_zero m)⟩

theorem merge_of_backlogged (h : q.compressed < q.pop.2.compressed) :
    q.Backlogged ∧ q.pop.2.target + 1 ≤ q.pop.2.frames.length := by
  have hne : q.frames ≠ [] := by
    intro hnil
    obtain ⟨o, hpops⟩ := q.pop_pops
    generalize q.pop = popped at h hpops
    obtain ⟨f, q'⟩ := popped
    cases hpops with
    | single first hframes | merged first second hframes => rw [hnil] at hframes; cases hframes
    | concealed last _ _ _ hbooks | silent _ hbooks => rw [hbooks.compressed] at h; omega
  rcases pop_of_nonempty hne with ⟨-, -, -, hpop⟩ | hplays
  · rw [hpop] at h
    exact absurd h (Nat.lt_irrefl _)
  · have hdepth := hplays.depth
    by_cases hslim : SHRINK_AFTER_TICKS ≤ q.nextOverTicks ∧ 2 ≤ q.frames.length
    · rw [if_pos hslim] at hdepth
      have hbacklog : q.Backlogged := by
        by_contra hshallow
        have hzero : q.nextOverTicks = 0 := if_neg hshallow
        rw [hzero] at hslim
        exact absurd hslim.1 (by decide)
      refine ⟨hbacklog, ?_⟩
      unfold Backlogged at hbacklog
      rw [pop_target]
      simp only [SHRINK_MARGIN_FRAMES] at hbacklog
      omega
    · rw [if_neg hslim] at hdepth
      omega

theorem run_target (D : MixDsp) (ops : List ElasticOp) :
    ∃ q outs, run ElasticFrameQueue.step (new D) ops = some (q, outs) ∧ q.TargetBounded := by
  refine run_total (I := fun _ _ (q : ElasticFrameQueue D) => q.TargetBounded)
    (fun _ _ q op h => ?_) ⟨Nat.le_refl _, (by decide : MIN_TARGET_FRAMES ≤ MAX_TARGET_FRAMES)⟩ ops
  cases op with
  | push frame now => exact ⟨_, [], rfl, push_targetBounded h frame now⟩
  | pop =>
    refine ⟨_, _, rfl, ?_⟩
    unfold TargetBounded
    rw [pop_target]
    exact h

theorem madeOf_of_provenance {pushed played queued : List Frame} {f : Frame}
    (h : Provenance D pushed played queued) (hf : f ∈ played) :
    ∃ parts, MadeOf D f parts ∧ ∀ p ∈ parts, p ∈ pushed := by
  obtain ⟨playedParts, queuedParts, hplayed, -, rfl⟩ := h
  induction hplayed with
  | nil => cases hf
  | cons hmade hrest ih =>
    rw [List.mem_cons] at hf
    rcases hf with rfl | hf
    · exact ⟨_, hmade, fun p hp => by simp [hp]⟩
    · obtain ⟨parts, hparts, hmem⟩ := ih hf
      exact ⟨parts, hparts, fun p hp => by simpa using .inr (by simpa using hmem p hp)⟩

theorem mem_playedFrames (h : playedFrames outs ≠ []) :
    ∃ f, .played f ∈ outs ∧ f ∈ playedFrames outs := by
  obtain ⟨f, hf⟩ := List.exists_mem_of_ne_nil _ h
  obtain ⟨o, ho, hfo⟩ := List.mem_flatMap.mp hf
  cases o with
  | played g =>
    rw [List.mem_singleton] at hfo
    exact ⟨f, hfo ▸ ho, hf⟩
  | concealed | silent => cases hfo

/-- After every sequence of pushes and pops: a non-empty queue plays a frame made of pushed
audio within `target` pops, at most 8, unless a push starts a new talk-spurt; and without
pushes the depth comes down to `target + 2`, by one frame a pop and by two once the backlog
has lasted 10 pops. Frames are merged for depth only above `target + 2`, which leaves at
least `target + 1`. -/
theorem elastic_progress (D : MixDsp) (ops : List ElasticOp) :
    ∃ q outs, run ElasticFrameQueue.step (new D) ops = some (q, outs) ∧
      (q.frames ≠ [] → ∀ more,
        Along ElasticFrameQueue.step (fun q op => ¬ q.StartsTalkspurt op) q more →
        ∃ q' outs', run ElasticFrameQueue.step q (more ++ [.pop]) = some (q', outs') ∧
          q'.target ≤ MAX_TARGET_FRAMES ∧
          (q'.target ≤ outs'.length → ∃ f parts, .played f ∈ outs' ∧ MadeOf D f parts ∧
            ∀ p ∈ parts, p ∈ validPushed (ops ++ more))) ∧
      (∃ n ≤ q.frames.length,
        (q.afterPops n).frames.length ≤ q.target + SHRINK_MARGIN_FRAMES ∧
        ∀ m < n, q.target + SHRINK_MARGIN_FRAMES < (q.afterPops m).frames.length ∧
          (q.afterPops (m + 1)).frames.length +
            (if SHRINK_AFTER_TICKS ≤ q.overTicks + m + 1 then 2 else 1) =
              (q.afterPops m).frames.length) ∧
      (q.compressed < q.pop.2.compressed →
        q.target + SHRINK_MARGIN_FRAMES < q.frames.length ∧
          q.target + 1 ≤ q.pop.2.frames.length) := by
  obtain ⟨q, outs, hrun, -⟩ := run_target D ops
  refine ⟨q, outs, hrun, ?_, ?_, ?_⟩
  · intro hne more hspurt
    obtain ⟨q', all, hall, hbounded⟩ := run_target D (ops ++ (more ++ [.pop]))
    obtain ⟨p, first, outs', hp, hrest, rfl⟩ := run_append_eq_some.mp hall
    obtain ⟨rfl, rfl⟩ := Prod.mk.inj (Option.some.inj (hrun.symm.trans hp))
    refine ⟨q', outs', hrest, hbounded.2, fun hlong => ?_⟩
    obtain ⟨f, hf, hmem⟩ := mem_playedFrames (plays_within_target hne hspurt hrest hlong)
    obtain ⟨r, outs'', hr, hprovenance, -⟩ := frames_accounted D (ops ++ (more ++ [.pop]))
    obtain ⟨rfl, rfl⟩ := Prod.mk.inj (Option.some.inj (hall.symm.trans hr))
    obtain ⟨parts, hmade, hparts⟩ := madeOf_of_provenance hprovenance
      (by rw [playedFrames_append]; exact List.mem_append_right _ hmem)
    refine ⟨f, parts, hf, hmade, fun x hx => ?_⟩
    have hx' := hparts x hx
    rw [← List.append_assoc, validPushed_append (ops ++ more)] at hx'
    simpa [validPushed] using hx'
  · obtain ⟨n, hn, hends, hbefore⟩ := q.backlog_ends
    refine ⟨n, hn, ?_, fun m hm => ?_⟩
    · rw [← q.afterPops_target n]
      exact Nat.le_of_not_lt hends
    · have hdepth := (hbefore m hm).pop.2
      rw [Backlogged.overTicks_afterPops fun k hk => hbefore k (Nat.lt_trans hk hm)] at hdepth
      rw [afterPops_succ]
      refine ⟨?_, hdepth⟩
      rw [← q.afterPops_target m]
      exact hbefore m hm
  · intro hmerge
    obtain ⟨hbacklog, hleft⟩ := merge_of_backlogged hmerge
    rw [pop_target] at hleft
    exact ⟨hbacklog, hleft⟩

/-- Fourteen queued frames at target 2: the tenth pop merges at depth 5 and leaves 3. -/
theorem merge_leaves_less_than_margin :
    ¬ ∀ (D : MixDsp) (ops : List ElasticOp) (q : ElasticFrameQueue D) (outs : List PopOutput),
      run ElasticFrameQueue.step (new D) ops = some (q, outs) →
        q.compressed < q.pop.2.compressed →
          q.target + SHRINK_MARGIN_FRAMES ≤ q.pop.2.frames.length := by
  intro hall
  have h := hall silentDsp
    (List.replicate 14 (.push silenceFrame 0) ++ List.replicate 9 .pop) _ _ rfl
  revert h
  decide +kernel

end ElasticFrameQueue

end NodeWebrtc.Mixer
