import NodeWebrtc.Speech.CleanCut

/-! # What an idle buffer has written

The buffer counts as speaking by three flags: a chunk is queued, synthesis produces, a drain pass
has popped. None of them covers the carry that a pass leaves behind while synthesis produces, so
all rests on when `set_producing(false)` comes. Where it comes with the carry covered, a buffer
that does not speak has written every byte.
-/

namespace NodeWebrtc.Speech

open Machine

variable {β : Type}

/-- The pass asks no more whether synthesis produces and will give its carry back. -/
def DrainPass.Gone (d : DrainPass β) : Prop :=
  d.phase = .pausing ∨ d.phase = .storing ∨ (d.phase = .closing ∧ d.carry ≠ [])

namespace Playback

/-- `wait_job_playback_idle` returns: the agent does not speak and neither does the buffer. -/
def jobPlaybackIdle (p : Playback β) : Bool := !p.agentSpeaking && !p.buffer.isSpeaking

/-- When synthesis ends with nothing queued, no carry is stored, and what a pass holds came from
chunks that it popped and will be written by it. -/
def CarryCovered (p : Playback β) : PlaybackInput β → Prop
  | .setProducing false => p.buffer.queue = [] → p.buffer.frameCarry = [] ∧
      ∀ d, p.pass = some d → p.hand ≠ [] → p.buffer.held = true ∧ ¬ d.Gone
  | _ => True

end Playback

/-! ## The flags and the bytes -/

/-- After the loop over the chunks is left, frames are written with no carry behind them. -/
def DrainPass.Placed (d : DrainPass β) : Prop :=
  match d.phase with
  | .captured | .taking | .popping | .starved | .pausing | .storing => d.left = false
  | .starting _ | .announcing _ | .checking _ | .booking _ _ | .pacing _ _ =>
    d.left = true → d.carry = []
  | _ => True

/-- How the flags stand to the bytes that are not written. -/
structure Covers (p : Playback β) : Prop where
  queued : p.buffer.queue ≠ [] → p.buffer.speaking = true
  popped : p.buffer.held = true → ∃ d, p.pass = some d ∧ d.generation = p.buffer.generation ∧
    d.phase.hasCarry = true
  covered : p.buffer.producing = false → p.buffer.queue = [] → p.held ≠ [] →
    p.buffer.held = true ∧ ∀ d, p.pass = some d → ¬ d.Gone
  placed : ∀ d, p.pass = some d → d.Placed

theorem Covers.new : Covers (.new : Playback β) where
  queued := fun h => absurd rfl h
  popped := fun h => by cases h
  covered := fun _ _ h => absurd rfl h
  placed := fun d hd => by cases hd

theorem Covers.idle {p : Playback β} (h : Covers p) (hidle : p.buffer.isSpeaking = false) :
    p.held = [] := by
  simp only [TtsBuffer.isSpeaking, Bool.or_eq_false_iff] at hidle
  obtain ⟨⟨hspeaking, hproducing⟩, hheld⟩ := hidle
  have hqueue : p.buffer.queue = [] := by
    by_contra hne
    rw [h.queued hne] at hspeaking
    cases hspeaking
  by_contra hne
  rw [(h.covered hproducing hqueue hne).1] at hheld
  cases hheld

/-! ## What a step of the pass does to the flags -/

theorem writtenSince_ofPass {es : List (PlaybackEvent β)}
    (h : ∀ e ∈ es, Playback.OfPass e) (out : List (PlaybackEvent β)) :
    ∃ more, writtenSince (out ++ es) = writtenSince out ++ more := by
  induction es generalizing out with
  | nil => exact ⟨[], by simp⟩
  | cons e es ih =>
    obtain ⟨more, hmore⟩ := ih (fun x hx => h x (List.mem_cons_of_mem e hx)) (out ++ [e])
    rw [List.append_assoc, List.singleton_append] at hmore
    have he := h e List.mem_cons_self
    rw [hmore]
    cases e with
    | enqueued _ | flushed => exact he.elim
    | wrote frame => exact ⟨frame.pcm ++ more, by simp [writtenSince]⟩
    | _ => exact ⟨more, by simp [writtenSince]⟩

variable {p p' : Playback β} {d d' : DrainPass β} {out es : List (PlaybackEvent β)}

theorem drain_held (hc : Playback.Clean p out) (hd : p.pass = some d) (hm : p.Meets .drain)
    (hne : (p.stepDrain d).1.held ≠ []) : p.held ≠ [] := by
  have hof := Playback.stepDrain_ofPass p d
  obtain ⟨more, hmore⟩ := writtenSince_ofPass hof out
  have hafter := (hc.drain hd hm).bytes
  rw [Playback.enqueuedSince_ofPass hof, hc.bytes, hmore, List.append_assoc] at hafter
  intro hnone
  have hall := List.append_cancel_left hafter
  rw [hnone] at hall
  exact hne (List.append_eq_nil_iff.mp hall.symm).2

structure SameFlags (b b' : TtsBuffer β) : Prop where
  queue : b'.queue = b.queue
  speaking : b'.speaking = b.speaking
  producing : b'.producing = b.producing
  generation : b'.generation = b.generation

theorem SameFlags.rfl {b : TtsBuffer β} : SameFlags b b := ⟨Eq.refl _, Eq.refl _, Eq.refl _, Eq.refl _⟩

theorem Covers.next (h : Covers p) (hd : p.pass = some d) (hd' : p'.pass = some d')
    (hb : SameFlags p.buffer p'.buffer) (hhold : p'.buffer.held = p.buffer.held)
    (hgen : d'.generation = d.generation) (hheld : p'.held ≠ [] → p.held ≠ [])
    (hhas : d.phase.hasCarry = true → d.generation = p.buffer.generation →
      d'.phase.hasCarry = true)
    (hgone : p.buffer.producing = false → d.generation = p.buffer.generation → d'.Gone → d.Gone)
    (hplaced : d'.Placed) : Covers p' := by
  refine ⟨?_, ?_, ?_, ?_⟩
  · rw [hb.queue, hb.speaking]
    exact h.queued
  · rw [hhold]
    intro hon
    obtain ⟨x, hx, hfresh, hcarry⟩ := h.popped hon
    rw [hd] at hx
    cases hx
    exact ⟨d', hd', by rw [hgen, hb.generation, hfresh], hhas hcarry hfresh⟩
  · rw [hb.producing, hb.queue, hhold]
    intro hproducing hqueue hne
    obtain ⟨hon, hnot⟩ := h.covered hproducing hqueue (hheld hne)
    refine ⟨hon, fun x hx hx' => hnot d hd ?_⟩
    rw [hd'] at hx
    cases hx
    obtain ⟨y, hy, hfresh, -⟩ := h.popped hon
    rw [hd] at hy
    cases hy
    exact hgone hproducing hfresh hx'
  · intro x hx
    rw [hd'] at hx
    cases hx
    exact hplaced

theorem Covers.onward (h : Covers p) (hd : p.pass = some d) (hd' : p'.pass = some d')
    (hb : SameFlags p.buffer p'.buffer) (hhold : p'.buffer.held = p.buffer.held)
    (hgen : d'.generation = d.generation) (hheld : p'.held ≠ [] → p.held ≠ [])
    (hhas : d'.phase.hasCarry = true) (hplaced : d'.Placed ∧ ¬ d'.Gone) : Covers p' :=
  h.next hd hd' hb hhold hgen hheld (fun _ _ => hhas) (fun _ _ hgone => absurd hgone hplaced.2)
    hplaced.1

/-- Gives the carry back, or has found none to keep. -/
def DrainPhase.gives : DrainPhase β → Bool
  | .pausing | .storing | .closing => true
  | _ => false

theorem Covers.goto (h : Covers p) {phase : DrainPhase β} (hd : p.pass = some d)
    (hd' : p'.pass = some (d.goto phase)) (hb : SameFlags p.buffer p'.buffer)
    (hhold : p'.buffer.held = p.buffer.held) (hheld : p'.held ≠ [] → p.held ≠ [])
    (hhas : phase.hasCarry = true)
    (hnot : phase.gives = false) (hplaced : (d.goto phase).Placed) :
    Covers p' :=
  h.onward hd hd' hb hhold rfl hheld hhas ⟨hplaced, fun hgone => by
    rcases hgone with hp | hp | ⟨hp, -⟩ <;> rw [DrainPass.goto] at hp <;> subst hp <;> cases hnot⟩

theorem Covers.drop (h : Covers p) (hb : SameFlags p.buffer p'.buffer)
    (hhold : p'.buffer.held = false) (hheld : p'.held ≠ [] → p.held ≠ [])
    (hno : p.buffer.held = true → (∀ d, p.pass = some d → ¬ d.Gone) → p.buffer.queue = [] →
      p.held = [])
    (hplaced : ∀ d, p'.pass = some d → d.Placed) : Covers p' := by
  refine ⟨?_, ?_, ?_, hplaced⟩
  · rw [hb.queue, hb.speaking]
    exact h.queued
  · intro hon
    rw [hhold] at hon
    cases hon
  · rw [hb.producing, hb.queue]
    intro hproducing hqueue hne
    have hne := hheld hne
    obtain ⟨hon, hnot⟩ := h.covered hproducing hqueue hne
    exact absurd (hno hon hnot hqueue) hne

theorem onFrames_placed (d : DrainPass β) (frames : List (StereoFrame β))
    (h : d.left = true → d.carry = []) :
    (d.onFrames frames).Placed ∧ ¬ (d.onFrames frames).Gone := by
  cases frames with rw [DrainPass.onFrames]
  | nil =>
    cases hleft : d.left with
    | false => exact ⟨hleft, by simp [DrainPass.Gone, DrainPass.goto]⟩
    | true => exact ⟨trivial, by simp [DrainPass.Gone, DrainPass.goto, h hleft]⟩
  | cons frame frames =>
    cases d.agentStartEmitted with
    | false | true => exact ⟨h, by simp [DrainPass.Gone]⟩

theorem leaveLoop_placed (d : DrainPass β) : d.leaveLoop.Placed ∧ ¬ d.leaveLoop.Gone := by
  rw [DrainPass.leaveLoop]
  cases hcarry : d.carry with
  | nil | cons b bs => exact ⟨trivial, by simp [DrainPass.Gone]⟩

section

variable (h : Covers p)
include h

theorem Covers.popping (hd : p.pass = some d) (hm : p.Meets .drain) (hphase : d.phase = .popping)
    (hheld : (p.stepDrain d).1.held ≠ [] → p.held ≠ []) :
    Covers (p.stepDrain d).1 := by
  have hleft : d.left = false := by
    have hplaced := h.placed d hd
    rwa [DrainPass.Placed, hphase] at hplaced
  rw [Playback.stepDrain, hphase] at hheld ⊢
  rw [TtsBuffer.popChunkMarking] at hheld ⊢
  cases hqueue : p.buffer.queue with
  | nil =>
    rw [hqueue] at hheld
    refine ⟨fun hne => absurd rfl hne, fun hon => ?_, fun hproducing _ hne => ?_, fun x hx => ?_⟩
    · obtain ⟨y, hy, hfresh, -⟩ := h.popped hon
      rw [hd] at hy
      cases hy
      exact ⟨_, rfl, hfresh, rfl⟩
    · refine ⟨(h.covered hproducing hqueue (hheld hne)).1, fun x hx => ?_⟩
      cases hx
      simp [DrainPass.Gone, DrainPass.goto]
    · cases hx
      exact hleft
  | cons chunk rest =>
    have hfresh : d.generation = p.buffer.generation := by
      by_contra hstale
      rw [(hm d hd hstale).1 hphase] at hqueue
      cases hqueue
    have hnext := onFrames_placed
      { d with carry := (takeCompleteStereoFrames (d.carry ++ chunk.pcm)).2 }
      (takeCompleteStereoFrames (d.carry ++ chunk.pcm)).1
      (fun hon => by rw [hleft] at hon; cases hon)
    obtain ⟨hgen, -⟩ := Playback.onFrames_frame
      { d with carry := (takeCompleteStereoFrames (d.carry ++ chunk.pcm)).2 }
      (takeCompleteStereoFrames (d.carry ++ chunk.pcm)).1
    dsimp only
    rw [← hphase]
    refine ⟨fun _ => h.queued (by rw [hqueue]; exact List.cons_ne_nil _ _), fun _ => ?_,
      fun _ _ _ => ?_, fun x hx => ?_⟩
    · exact ⟨_, rfl, hgen.trans hfresh, Playback.onFrames_hasCarry _ _⟩
    · refine ⟨rfl, fun x hx => ?_⟩
      cases hx
      exact hnext.2
    · cases hx
      exact hnext.1

theorem Covers.drain (hc : Playback.Clean p out) (hd : p.pass = some d) (hm : p.Meets .drain) :
    Covers (p.stepDrain d).1 := by
  have hheld := drain_held hc hd hm
  have hplaced := h.placed d hd
  have hcarries := hc.pass d hd
  -- A pass that has given its carry back holds nothing.
  have hdone : d.phase.hasCarry = false → p.buffer.held = true → p.held = [] := by
    intro hno hon
    obtain ⟨x, hx, -, hcarry⟩ := h.popped hon
    rw [hd, Option.some.injEq] at hx
    rw [← hx, hno] at hcarry
    cases hcarry
  have hleave := leaveLoop_placed d
  have hloop := (Playback.leaveLoop_phase d).2.1
  rw [DrainPass.Placed] at hplaced
  revert hheld
  cases hphase : d.phase <;> rw [hphase] at hplaced hdone
  case popping => exact h.popping hd hm hphase
  case checking frames =>
    have hframes := onFrames_placed d [] hplaced
    cases frames with rw [Playback.stepDrain, hphase]
    | nil =>
      exact fun hheld => h.onward hd rfl .rfl rfl (Playback.onFrames_frame d []).1 hheld
        (Playback.onFrames_hasCarry d []) hframes
    | cons frame frames =>
      dsimp only
      split
      · exact fun hheld => h.goto hd rfl .rfl rfl hheld rfl rfl hplaced
      · exact fun hheld => h.goto hd rfl .rfl rfl hheld rfl rfl trivial
  all_goals
    rw [Playback.stepDrain, hphase]
    dsimp only
    intro hheld
  case captured =>
    exact h.next hd rfl .rfl rfl rfl hheld (fun hcarry => by rw [hphase] at hcarry; cases hcarry)
      (fun _ _ hgone => by simp [DrainPass.Gone] at hgone) hplaced
  case taking =>
    exact h.onward hd rfl ⟨rfl, rfl, rfl, rfl⟩ rfl rfl hheld rfl ⟨hplaced, by simp [DrainPass.Gone]⟩
  case starved =>
    by_cases hproducing : p.buffer.producing
    · rw [if_pos hproducing] at hheld ⊢
      exact h.next hd rfl .rfl rfl rfl hheld (fun _ _ => rfl)
        (fun hoff => by rw [hproducing] at hoff; cases hoff) hplaced
    · rw [if_neg hproducing] at hheld ⊢
      exact h.onward hd rfl .rfl rfl rfl hheld hloop hleave
  case pausing =>
    by_cases hfresh : p.buffer.generation = d.generation
    · rw [if_pos hfresh] at hheld ⊢
      exact h.next hd rfl .rfl rfl rfl hheld (fun _ _ => rfl) (fun _ _ _ => .inl hphase) hplaced
    · rw [if_neg hfresh] at hheld ⊢
      exact h.onward hd rfl .rfl rfl rfl hheld hloop hleave
  case storing =>
    exact h.drop ⟨rfl, rfl, rfl, rfl⟩ rfl hheld
      (fun _ hgone _ => absurd (.inr (.inl hphase)) (hgone d hd)) fun x hx => by cases hx
  case starting frames => exact h.goto hd rfl .rfl rfl hheld rfl rfl hplaced
  case announcing frames =>
    exact h.onward hd rfl .rfl rfl rfl hheld rfl ⟨hplaced, by simp [DrainPass.Gone]⟩
  case booking bytes frames => exact h.goto hd rfl ⟨rfl, rfl, rfl, rfl⟩ rfl hheld rfl rfl hplaced
  case pacing slept frames =>
    split_ifs at hheld ⊢
    · exact h.goto hd rfl .rfl rfl hheld rfl rfl trivial
    · exact h.onward hd rfl .rfl rfl (Playback.onFrames_frame d frames).1 hheld
        (Playback.onFrames_hasCarry d frames) (onFrames_placed d frames hplaced)
    · exact h.goto hd rfl .rfl rfl hheld rfl rfl hplaced
  case aborting => exact h.goto hd rfl .rfl rfl hheld rfl rfl trivial
  case aborted was =>
    refine h.drop ⟨rfl, rfl, rfl, rfl⟩ rfl hheld (fun hon _ _ => ?_) fun x hx => by cases hx
    obtain ⟨x, hx, hfresh, -⟩ := h.popped hon
    rw [hd, Option.some.injEq] at hx
    rw [← hx] at hfresh
    exact absurd hfresh (hcarries.aborting (by rw [hphase]; rfl))
  case trailing =>
    by_cases hproducing : p.buffer.producing
    · rw [if_pos hproducing] at hheld ⊢
      exact h.next hd rfl .rfl rfl rfl hheld (fun _ _ => rfl)
        (fun hoff => by rw [hproducing] at hoff; cases hoff) trivial
    · rw [if_neg hproducing] at hheld ⊢
      exact h.goto hd rfl .rfl rfl hheld rfl rfl trivial
  case padding =>
    have hnext := onFrames_placed { d with carry := [] } [padStereoFrame20ms d.carry] fun _ => rfl
    rw [hphase] at hnext
    by_cases hfresh : p.buffer.generation = d.generation
    · rw [if_pos hfresh] at hheld ⊢
      exact h.onward hd rfl .rfl rfl rfl hheld (Playback.onFrames_hasCarry _ _) hnext
    · rw [if_neg hfresh] at hheld ⊢
      exact h.next hd rfl .rfl rfl rfl hheld (fun _ _ => rfl)
        (fun _ hsame => absurd hsame.symm hfresh) trivial
  case closing =>
    refine h.drop ⟨rfl, rfl, rfl, rfl⟩ rfl hheld (fun hon hgone hqueue => ?_)
      (fun x hx => by cases hx; trivial)
    have hcarry : d.carry = [] := by
      by_contra hne
      exact hgone d hd (.inr (.inr ⟨hphase, hne⟩))
    rw [Playback.held, Playback.hand_some hd, hphase, hcarry,
      hcarries.taken (by rw [hphase]; rfl), Playback.queueBytes, hqueue]
    simp [DrainPhase.frames]
  all_goals
    have hend : d.phase.hasCarry = false := by rw [hphase]; rfl
    try split_ifs at hheld ⊢
  -- The carry was given back: the pass ends, or goes to a phase that does not hold it either.
  any_goals
    exact h.drop ⟨rfl, rfl, rfl, rfl⟩ rfl hheld (fun hon _ _ => hdone rfl hon)
      fun x hx => by cases hx
  all_goals
    exact h.next hd rfl ⟨rfl, rfl, rfl, rfl⟩ rfl rfl hheld
      (fun hcarry => by rw [hend] at hcarry; cases hcarry)
      (fun _ _ hgone => by simp [DrainPass.Gone, DrainPass.goto] at hgone) trivial

/-! ## The other steps -/

theorem Covers.aside (hpass : p'.pass = p.pass) (hb : SameFlags p.buffer p'.buffer)
    (hhold : p'.buffer.held = p.buffer.held) (hheld : p'.held = p.held) : Covers p' := by
  refine ⟨?_, ?_, ?_, ?_⟩
  · rw [hb.queue, hb.speaking]
    exact h.queued
  · rw [hhold, hpass, hb.generation]
    exact h.popped
  · rw [hb.producing, hb.queue, hhold, hheld, hpass]
    exact h.covered
  · rw [hpass]
    exact h.placed

theorem Covers.begin (hp : p.pass = none) : Covers p.beginPass := by
  have hoff : p.buffer.held = true → False := by
    intro hon
    obtain ⟨d, hd, -⟩ := h.popped hon
    rw [hp] at hd
    cases hd
  have hheld : p.beginPass.held = p.held := by
    rw [Playback.held, Playback.hand_some (d := _) rfl, Playback.held, Playback.hand, hp]
    simp [DrainPhase.frames, Playback.beginPass, Playback.withPass, Playback.queueBytes]
  refine ⟨h.queued, fun hon => (hoff hon).elim, fun hproducing hqueue hne => ?_, fun x hx => ?_⟩
  · exact (hoff (h.covered hproducing hqueue (hheld ▸ hne)).1).elim
  · cases hx
    rfl

theorem Covers.flush (hm : p.MovesOn) (hpass : p'.pass = p.pass) (hb : p'.buffer = p.buffer.flush) :
    Covers p' := by
  have hnone : p'.held = [] := by
    rw [Playback.held, Playback.hand, Playback.queueBytes, hpass, hb]
    cases hd : p.pass with
    | none => rfl
    | some d =>
      have hstale : d.generation ≠ p.buffer.flush.generation := hm d hd
      dsimp only
      rw [if_neg hstale]
      rfl
  refine ⟨fun hne => ?_, fun hon => ?_, fun _ _ hne => absurd hnone hne, ?_⟩
  · rw [hb] at hne
    exact absurd rfl hne
  · rw [hb] at hon
    cases hon
  · rw [hpass]
    exact h.placed

theorem Covers.setProducing (producing : Bool) (hm : p.CarryCovered (.setProducing producing)) :
    Covers { p with buffer := p.buffer.setProducing producing } := by
  have hsame := Playback.setProducing_same p.buffer producing
  have hhold : (p.buffer.setProducing producing).held = p.buffer.held := by cases producing <;> rfl
  have hhand : ({ p with buffer := p.buffer.setProducing producing } : Playback β).hand = p.hand := by
    rw [Playback.hand, Playback.hand, hsame.generation]
  have hheld : ({ p with buffer := p.buffer.setProducing producing } : Playback β).held = p.held := by
    rw [Playback.held, Playback.held, hhand, hsame.carry, Playback.queueBytes, hsame.queue,
      Playback.queueBytes]
  refine ⟨?_, ?_, ?_, h.placed⟩
  · rw [hsame.queue]
    intro hne
    cases producing with
    | true => rfl
    | false =>
      have hfull : p.buffer.queue.isEmpty = false := by simpa using hne
      rw [TtsBuffer.setProducing, if_neg Bool.false_ne_true, hfull]
      exact h.queued hne
  · rw [hhold, hsame.generation]
    exact h.popped
  · rw [hhold, hheld, hsame.queue]
    intro hoff hqueue hne
    cases producing with
    | true => cases hoff
    | false =>
      obtain ⟨hcarry, hpass⟩ := hm hqueue
      have hhave : p.hand ≠ [] := by
        rw [Playback.held, hcarry, Playback.queueBytes, hqueue] at hne
        simpa using hne
      cases hd : p.pass with
      | none =>
        rw [Playback.hand, hd] at hhave
        exact absurd rfl hhave
      | some d =>
        obtain ⟨hon, hnot⟩ := hpass d hd hhave
        refine ⟨hon, fun x hx => ?_⟩
        rw [Option.some.injEq] at hx
        rwa [← hx]

theorem Covers.ender {k : Nat} {e : Ender} (hk : p.enders[k]? = some e) (hm : p.Meets (.ender k))
    (hs : p.stepEnder k e = some (p', es)) : Covers p' := by
  rw [Playback.stepEnder] at hs
  split at hs <;> cases hs
  · exact h.aside rfl .rfl rfl rfl
  · next todo htodo =>
    exact h.flush (hm e todo hk htodo) rfl rfl
  · exact h.aside rfl ⟨rfl, rfl, rfl, rfl⟩ rfl rfl
  · exact h.aside rfl .rfl rfl rfl
  · exact h.aside rfl .rfl rfl rfl

theorem Covers.step {i : PlaybackInput β} (hc : Playback.Clean p out) (hm : p.Meets i)
    (hcarry : p.CarryCovered i) (hs : p.step i = some (p', es)) : Covers p' := by
  cases i with
  | begin =>
    rw [Playback.step] at hs
    split_ifs at hs with hnone
    cases hs
    exact h.begin (Option.isNone_iff_eq_none.mp hnone)
  | drain =>
    rw [Playback.step, Option.map_eq_some_iff] at hs
    obtain ⟨d, hd, heq⟩ := hs
    have hdrain := h.drain hc hd hm
    rw [heq] at hdrain
    exact hdrain
  | writeFails => exact hm.elim
  | enqueue chunks expect reply =>
    rw [Playback.step, TtsBuffer.enqueueTaggedIfGeneration] at hs
    split at hs <;> cases hs
    · next haccepts =>
      have hsome : chunks ≠ [] := by
        rw [TtsBuffer.accepts, Bool.and_eq_true] at haccepts
        simpa using haccepts.1
      refine ⟨fun _ => rfl, h.popped, fun _ hqueue _ => ?_, h.placed⟩
      exact absurd (List.append_eq_nil_iff.mp hqueue).2 hsome
    · exact h.aside rfl .rfl rfl rfl
  | setProducing producing =>
    cases hs
    exact h.setProducing producing hcarry
  | markReplyComplete id =>
    cases hs
    exact h.aside rfl ⟨rfl, rfl, rfl, rfl⟩ rfl rfl
  | flush =>
    cases hs
    exact h.flush hm rfl rfl
  | call todo =>
    rw [Playback.step] at hs
    split at hs <;> cases hs
    exact h.aside rfl .rfl rfl rfl
  | ender k =>
    rw [Playback.step, Option.bind_eq_some_iff] at hs
    obtain ⟨e, hk, hs⟩ := hs
    exact h.ender hk hm hs

end

theorem run_covers {inputs : List (PlaybackInput β)}
    (ha : Along Playback.step (fun p i => p.Meets i ∧ p.CarryCovered i) .new inputs)
    (hr : run Playback.step .new inputs = some (p, out)) : Playback.Clean p out ∧ Covers p :=
  run_history (I := fun _ out p => Playback.Clean p out ∧ Covers p)
    (fun _ _ _ _ _ _ h hm hs => ⟨h.1.step hm.1 hs, h.2.step h.1 hm.1 hm.2 hs⟩)
    ⟨.new, .new⟩ ha hr

/-! ## The idle buffer -/

/-- Where synthesis ends with the carry covered, and no stale pass pops or stores, a buffer that
does not speak has written all that was enqueued since the last flush, and a wait for a job's
playback does not return before that. -/
theorem idle_has_written {inputs : List (PlaybackInput β)} {p : Playback β}
    {out : List (PlaybackEvent β)} (hr : run Playback.step .new inputs = some (p, out))
    (ha : Along Playback.step (fun p i => p.Meets i ∧ p.CarryCovered i) .new inputs) :
    (p.buffer.isSpeaking = false → p.held = [] ∧ writtenSince out = enqueuedSince out) ∧
      (p.jobPlaybackIdle = true → writtenSince out = enqueuedSince out) := by
  obtain ⟨hclean, hcovers⟩ := run_covers ha hr
  have hidle : p.buffer.isSpeaking = false → p.held = [] ∧ writtenSince out = enqueuedSince out := by
    intro hidle
    have hnone := hcovers.idle hidle
    exact ⟨hnone, by rw [hclean.bytes, hnone, List.append_nil]⟩
  refine ⟨hidle, fun hwait => (hidle ?_).2⟩
  simp only [Playback.jobPlaybackIdle, Bool.and_eq_true, Bool.not_eq_true'] at hwait
  exact hwait.2

theorem along_own {inputs : List (PlaybackInput β)}
    (h : ∀ i ∈ inputs, (∃ chunks, i = .enqueue chunks none none) ∨ i = .begin ∨ i = .drain) :
    Along Playback.step (fun p i => p.Meets i ∧ p.CarryCovered i) (.new : Playback β) inputs := by
  refine along_of_invariant (I := Playback.Fresh) ?_ ?_ (fun d hd => by cases hd) h
  · rintro p i p' es hfresh (⟨chunks, rfl⟩ | rfl | rfl) hs
    · rw [Playback.step, TtsBuffer.enqueueTaggedIfGeneration] at hs
      split at hs <;> cases hs
      · exact hfresh
      · exact hfresh
    · rw [Playback.step] at hs
      split at hs <;> cases hs
      exact fun d hd => by cases hd; rfl
    · rw [Playback.step, Option.map_eq_some_iff] at hs
      obtain ⟨d, hd, heq⟩ := hs
      have hdrain := hfresh.drain hd
      rwa [heq] at hdrain
  · rintro p i hfresh (⟨chunks, rfl⟩ | rfl | rfl)
    · exact ⟨trivial, trivial⟩
    · exact ⟨trivial, trivial⟩
    · exact ⟨hfresh.meets, trivial⟩

/-- A byte is queued and a pass pads and writes it. -/
theorem idle_has_written_spoken : ∃ (p : Playback Nat) (out : List (PlaybackEvent Nat)),
    run Playback.step .new ([.enqueue [⟨[1], 0⟩] none none, .begin] ++ List.replicate 18 .drain) =
      some (p, out) ∧
    p.jobPlaybackIdle = true ∧ enqueuedSince out = [1] ∧
    (p.buffer.isSpeaking = false → p.held = [] ∧ writtenSince out = enqueuedSince out) ∧
      (p.jobPlaybackIdle = true → writtenSince out = enqueuedSince out) :=
  ⟨_, _, rfl, rfl, rfl, @idle_has_written Nat
    ([.enqueue [⟨[1], 0⟩] none none, .begin] ++ List.replicate 18 .drain) _ _ rfl
    (along_own fun i hi => by
      rcases List.mem_append.mp hi with hi | hi
      · simp only [List.mem_cons, List.not_mem_nil, or_false] at hi
        rcases hi with rfl | rfl
        · exact .inl ⟨_, rfl⟩
        · exact .inr (.inl rfl)
      · exact .inr (.inr (List.eq_of_mem_replicate hi)))⟩

/-- A pass has paused with a byte in the carry when synthesis ends: the wait for the job returns,
and the byte is not written. -/
theorem idle_with_a_carry : ∃ (p : Playback Nat) (out : List (PlaybackEvent Nat)),
    run Playback.step .new
      ([.setProducing true, .enqueue [⟨[1], 0⟩] none none, .begin] ++ List.replicate 7 .drain ++
        [.setProducing false]) = some (p, out) ∧
    p.buffer.isSpeaking = false ∧ p.jobPlaybackIdle = true ∧ p.buffer.frameCarry = [1] ∧
      enqueuedSince out = [1] ∧ writtenSince out = [] :=
  ⟨_, _, rfl, rfl, rfl, rfl, rfl, rfl⟩

end NodeWebrtc.Speech
