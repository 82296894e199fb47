import NodeWebrtc.Speech.Playback

/-! # A flush is a clean cut

The bytes a drain pass holds are outside the buffer's lock, and it knows of a flush only by
the generation it captured. A pass that is stale, because a flush came after its capture, must
neither pop what was enqueued since nor store what it carries. Where no stale pass does, the
bytes enqueued since the last flush are those written since, in order, and those still held.
-/

namespace NodeWebrtc.Speech

open Machine

variable {β : Type}

/-! ## The bytes since the last flush -/

def enqueuedSince (out : List (PlaybackEvent β)) : List β :=
  out.foldl (fun bytes e =>
    match e with
    | .enqueued more => bytes ++ more
    | .flushed => []
    | _ => bytes) []

/-- The bytes of the buffer written since the last flush, without padding. -/
def writtenSince (out : List (PlaybackEvent β)) : List β :=
  out.foldl (fun bytes e =>
    match e with
    | .wrote frame => bytes ++ frame.pcm
    | .flushed => []
    | _ => bytes) []

def PlaybackEvent.Still : PlaybackEvent β → Prop
  | .enqueued _ | .flushed | .wrote _ => False
  | _ => True

theorem since_still {out es : List (PlaybackEvent β)} (h : ∀ e ∈ es, e.Still) :
    enqueuedSince (out ++ es) = enqueuedSince out ∧
      writtenSince (out ++ es) = writtenSince out := by
  induction es generalizing out with
  | nil => simp
  | cons e es ih =>
    have hrest := @ih (out ++ [e]) fun x hx => h x (List.mem_cons_of_mem e hx)
    rw [List.append_assoc, List.singleton_append] at hrest
    have he := h e List.mem_cons_self
    rw [hrest.1, hrest.2]
    simp only [enqueuedSince, writtenSince, List.foldl_append]
    cases e with
    | enqueued _ | flushed | wrote _ => exact he.elim
    | _ => exact ⟨rfl, rfl⟩

variable (out : List (PlaybackEvent β))

theorem since_enqueued (bytes : List β) :
    enqueuedSince (out ++ [.enqueued bytes]) = enqueuedSince out ++ bytes ∧
      writtenSince (out ++ [.enqueued bytes]) = writtenSince out := by
  simp [enqueuedSince, writtenSince]

theorem since_wrote (frame : StereoFrame β) :
    enqueuedSince (out ++ [.wrote frame]) = enqueuedSince out ∧
      writtenSince (out ++ [.wrote frame]) = writtenSince out ++ frame.pcm := by
  simp [enqueuedSince, writtenSince]

theorem since_flushed :
    enqueuedSince (out ++ [.flushed]) = [] ∧ writtenSince (out ++ [.flushed]) = [] := by
  simp [enqueuedSince, writtenSince]

theorem endEvent_still (was : Bool) : ∀ e ∈ (Playback.endEvent was : List (PlaybackEvent β)),
    e.Still := by
  intro e he
  cases was with
  | false => cases he
  | true =>
    rw [List.mem_singleton.mp he]
    trivial

/-! ## Frames -/

theorem splitFrames_pcm (n : Nat) (data : List β) :
    (splitFrames n data).flatMap StereoFrame.pcm = data.take (n * STEREO_FRAME_20MS_BYTES) := by
  induction n generalizing data with
  | zero => simp [splitFrames]
  | succ n ih => rw [splitFrames, List.flatMap_cons, ih, Nat.succ_mul, Nat.add_comm, List.take_add]

theorem takeComplete_pcm (carry : List β) :
    (takeCompleteStereoFrames carry).1.flatMap StereoFrame.pcm ++
      (takeCompleteStereoFrames carry).2 = carry := by
  rw [takeCompleteStereoFrames]
  rw [splitFrames_pcm, List.take_append_drop]

theorem takeComplete_short (carry : List β) :
    (takeCompleteStereoFrames carry).2.length < STEREO_FRAME_20MS_BYTES := by
  rw [takeCompleteStereoFrames]
  rw [List.length_drop]
  unfold STEREO_FRAME_20MS_BYTES
  omega

theorem padStereo_pcm {carry : List β} (h : carry.length < STEREO_FRAME_20MS_BYTES) :
    (padStereoFrame20ms carry).pcm = carry :=
  List.take_of_length_le (Nat.le_of_lt h)

/-! ## What is held -/

/-- The frames the pass has cut and not written. -/
def DrainPhase.frames : DrainPhase β → List (StereoFrame β)
  | .starting frames | .announcing frames | .checking frames | .booking _ frames
  | .pacing _ frames => frames
  | _ => []

/-- The pass has taken the buffer's carry and not given one back. -/
def DrainPhase.hasCarry : DrainPhase β → Bool
  | .captured | .taking | .ending | .settling | .finishing | .quieting | .quieted _ => false
  | _ => true

/-- The pass ends because the generation changed. -/
def DrainPhase.aborts : DrainPhase β → Bool
  | .aborting | .aborted _ => true
  | _ => false

namespace Playback

def queueBytes (p : Playback β) : List β := p.buffer.queue.flatMap TtsAudioChunk.pcm

/-- The bytes the pass holds; those of a stale pass were flushed. -/
def hand (p : Playback β) : List β :=
  match p.pass with
  | some d =>
    if d.generation = p.buffer.generation then
      d.phase.frames.flatMap StereoFrame.pcm ++ d.carry
    else []
  | none => []

/-- The bytes on their way to the track, oldest first. -/
def held (p : Playback β) : List β := p.hand ++ (p.buffer.frameCarry ++ p.queueBytes)

/-- The flush does not bring back the generation a running pass captured. -/
def MovesOn (p : Playback β) : Prop :=
  ∀ d, p.pass = some d → d.generation ≠ (p.buffer.generation + 1) % 2 ^ 64

/-- A stale pass pops no chunk and gives back no carry, and a flush moves to a generation that
the running pass did not capture; the writer takes every frame. -/
def Meets (p : Playback β) : PlaybackInput β → Prop
  | .drain => ∀ d, p.pass = some d → d.generation ≠ p.buffer.generation →
      (d.phase = .popping → p.buffer.queue = []) ∧
        (d.phase = .storing ∨ d.phase = .closing → d.carry = [])
  | .writeFails => False
  | .flush => p.MovesOn
  | .ender k => ∀ e todo, p.enders[k]? = some e → e.todo = .flush :: todo → p.MovesOn
  | _ => True

structure Carries (b : TtsBuffer β) (d : DrainPass β) : Prop where
  short : d.carry.length < STEREO_FRAME_20MS_BYTES
  empty : d.phase.hasCarry = false → d.carry = []
  taken : d.phase.hasCarry = true → b.frameCarry = []
  stale : d.generation ≠ b.generation → b.frameCarry = []
  aborting : d.phase.aborts = true → d.generation ≠ b.generation

/-- The bytes enqueued since the last flush, against what was written and what is held. -/
structure Clean (p : Playback β) (out : List (PlaybackEvent β)) : Prop where
  bytes : enqueuedSince out = writtenSince out ++ p.held
  short : p.buffer.frameCarry.length < STEREO_FRAME_20MS_BYTES
  pass : ∀ d, p.pass = some d → Carries p.buffer d

theorem Clean.new : Clean (.new : Playback β) [] where
  bytes := rfl
  short := by simp [Playback.new, TtsBuffer.new, STEREO_FRAME_20MS_BYTES]
  pass := fun d hd => by cases hd

/-! ## A step of the pass -/

variable {p p' : Playback β} {d d' : DrainPass β} {out es : List (PlaybackEvent β)}

theorem hand_some (hd : p.pass = some d) : p.hand =
    if d.generation = p.buffer.generation then
      d.phase.frames.flatMap StereoFrame.pcm ++ d.carry
    else [] := by
  rw [hand, hd]

/-- The parts of the buffer that hold bytes, and its generation. -/
structure SameBytes (b b' : TtsBuffer β) : Prop where
  queue : b'.queue = b.queue
  carry : b'.frameCarry = b.frameCarry
  generation : b'.generation = b.generation

theorem SameBytes.rfl {b : TtsBuffer β} : SameBytes b b := ⟨Eq.refl _, Eq.refl _, Eq.refl _⟩

section

variable (h : Clean p out)
include h

theorem Clean.keep (hes : ∀ e ∈ es, e.Still) (hb : SameBytes p.buffer p'.buffer)
    (hhand : p'.hand = p.hand) (hpass : ∀ d, p'.pass = some d → Carries p'.buffer d) :
    Clean p' (out ++ es) where
  bytes := by
    obtain ⟨henq, hwrote⟩ := @since_still _ out es hes
    rw [henq, hwrote, held, hhand, hb.carry, queueBytes, hb.queue]
    exact h.bytes
  short := by
    rw [hb.carry]
    exact h.short
  pass := hpass

theorem Clean.move (hd : p.pass = some d) (hd' : p'.pass = some d')
    (hb : SameBytes p.buffer p'.buffer) (hes : ∀ e ∈ es, e.Still)
    (hgen : d'.generation = d.generation)
    (hbytes : d'.phase.frames.flatMap StereoFrame.pcm ++ d'.carry =
      d.phase.frames.flatMap StereoFrame.pcm ++ d.carry)
    (hshort : d'.carry.length < STEREO_FRAME_20MS_BYTES)
    (hempty : d'.phase.hasCarry = false → d'.carry = [])
    (htaken : d'.phase.hasCarry = true → d.phase.hasCarry = true)
    (habort : d'.phase.aborts = true → d.generation ≠ p.buffer.generation) :
    Clean p' (out ++ es) := by
  have hc := h.pass d hd
  refine h.keep hes hb ?_ fun x hx => ?_
  · rw [hand_some hd, hand_some hd', hgen, hb.generation, hbytes]
  · rw [hd'] at hx
    cases hx
    refine ⟨hshort, hempty, fun hcarry => ?_, fun hstale => ?_, fun hphase => ?_⟩
    · rw [hb.carry]
      exact hc.taken (htaken hcarry)
    · rw [hb.carry]
      rw [hgen, hb.generation] at hstale
      exact hc.stale hstale
    · rw [hgen, hb.generation]
      exact habort hphase

theorem Clean.goto (hd : p.pass = some d) (hd' : p'.pass = some d')
    (hb : SameBytes p.buffer p'.buffer) (hes : ∀ e ∈ es, e.Still)
    (hgen : d'.generation = d.generation) (hcarry : d'.carry = d.carry)
    (hframes : d'.phase.frames = d.phase.frames) (hhas : d'.phase.hasCarry = d.phase.hasCarry)
    (habort : d'.phase.aborts = true → d.generation ≠ p.buffer.generation) :
    Clean p' (out ++ es) := by
  have hc := h.pass d hd
  refine h.move hd hd' hb hes hgen (by rw [hframes, hcarry]) ?_ ?_ ?_ habort
  · rw [hcarry]
    exact hc.short
  · rw [hcarry, hhas]
    exact hc.empty
  · rw [hhas]
    exact id

theorem Clean.endPass (hpass : p'.pass = none) (hb : SameBytes p.buffer p'.buffer)
    (hes : ∀ e ∈ es, e.Still) (hhand : p.hand = []) :
    Clean p' (out ++ es) := by
  refine h.keep hes hb ?_ fun x hx => ?_
  · rw [hhand, hand, hpass]
  · rw [hpass] at hx
    cases hx

theorem hand_of_done (hd : p.pass = some d) (hframes : d.phase.frames = [])
    (hhas : d.phase.hasCarry = false) : p.hand = [] := by
  rw [hand_some hd, hframes, (h.pass d hd).empty hhas]
  simp

theorem hand_of_aborting (hd : p.pass = some d) (hphase : d.phase.aborts = true) : p.hand = [] := by
  rw [hand_some hd, if_neg ((h.pass d hd).aborting hphase)]

end

section

variable (d)

variable (frames : List (StereoFrame β))

@[simp] theorem onFrames_frames : (d.onFrames frames).phase.frames = frames := by
  cases frames with rw [DrainPass.onFrames]
  | nil =>
    cases d.left <;> rfl
  | cons frame frames =>
    cases d.agentStartEmitted <;> rfl

theorem onFrames_hasCarry : (d.onFrames frames).phase.hasCarry = true := by
  cases frames with rw [DrainPass.onFrames]
  | nil =>
    cases d.left <;> rfl
  | cons frame frames =>
    cases d.agentStartEmitted <;> rfl

theorem onFrames_frame :
    (d.onFrames frames).generation = d.generation ∧ (d.onFrames frames).carry = d.carry := by
  cases frames <;> exact ⟨rfl, rfl⟩

theorem onFrames_phase : (d.onFrames frames).phase.aborts = false := by
  cases frames with rw [DrainPass.onFrames]
  | nil =>
    cases d.left <;> rfl
  | cons frame frames =>
    cases d.agentStartEmitted <;> rfl

theorem leaveLoop_phase :
    d.leaveLoop.phase.frames = [] ∧ d.leaveLoop.phase.hasCarry = true ∧
      d.leaveLoop.phase.aborts = false := by
  rw [DrainPass.leaveLoop]
  split <;> exact ⟨rfl, rfl, rfl⟩

end

section

variable (h : Clean p out)
include h

section

variable (hd : p.pass = some d)
include hd

theorem Clean.onFrames (frames : List (StereoFrame β)) (hb : SameBytes p.buffer p'.buffer)
    (hd' : p'.pass = some (d.onFrames frames)) (hes : ∀ e ∈ es, e.Still)
    (hframes : d.phase.frames = frames) (hhas : d.phase.hasCarry = true) :
    Clean p' (out ++ es) := by
  obtain ⟨hgen, hcarry⟩ := onFrames_frame d frames
  refine h.goto hd hd' hb hes hgen hcarry ?_ ?_ fun hphase => by
    rw [onFrames_phase] at hphase
    cases hphase
  · rw [onFrames_frames, hframes]
  · rw [onFrames_hasCarry, hhas]

theorem Clean.leaveLoop (hb : SameBytes p.buffer p'.buffer) (hd' : p'.pass = some d.leaveLoop)
    (hes : ∀ e ∈ es, e.Still) (hframes : d.phase.frames = []) (hhas : d.phase.hasCarry = true) :
    Clean p' (out ++ es) := by
  obtain ⟨hleft, hhas', hphase⟩ := leaveLoop_phase d
  refine h.goto hd hd' hb hes (rfl) (rfl) ?_ ?_ fun heq => by
    rw [hphase] at heq
    cases heq
  · rw [hleft, hframes]
  · rw [hhas', hhas]

theorem Clean.taking (hphase : d.phase = .taking) :
    Clean ({ p with buffer := p.buffer.takeFrameCarry.2 }.withPass
      { d with carry := p.buffer.takeFrameCarry.1, phase := .popping }) (out ++ []) := by
  have hc := h.pass d hd
  have hnone : d.carry = [] := hc.empty (by rw [hphase]; rfl)
  rw [List.append_nil]
  refine ⟨?_, ?_, fun x hx => ?_⟩
  · rw [h.bytes, held, hand_some hd, hphase, hnone]
    show _ = _ ++ ((if d.generation = p.buffer.generation then [] ++ p.buffer.frameCarry else []) ++
      ([] ++ p.queueBytes))
    by_cases hfresh : d.generation = p.buffer.generation
    · simp [if_pos hfresh, DrainPhase.frames]
    · simp [if_neg hfresh, hc.stale hfresh]
  · show 0 < STEREO_FRAME_20MS_BYTES
    simp [STEREO_FRAME_20MS_BYTES]
  · cases hx
    exact ⟨h.short, (fun h => by cases h), fun _ => rfl, fun _ => rfl, (fun h => by cases h)⟩

theorem Clean.popped (hphase : d.phase = .popping) (hfresh : d.generation = p.buffer.generation)
    {chunk : TtsAudioChunk β} (hqueue : p.buffer.queue = chunk :: p'.buffer.queue)
    (hcarry : p'.buffer.frameCarry = p.buffer.frameCarry)
    (hsame : p'.buffer.generation = p.buffer.generation) (hd' : p'.pass = some d')
    (hgen : d'.generation = d.generation)
    (hbytes : d'.phase.frames.flatMap StereoFrame.pcm ++ d'.carry = d.carry ++ chunk.pcm)
    (hshort : d'.carry.length < STEREO_FRAME_20MS_BYTES) (hhas : d'.phase.hasCarry = true)
    (hab : d'.phase.aborts = false) : Clean p' out := by
  have hnone : p.buffer.frameCarry = [] := (h.pass d hd).taken (by rw [hphase]; rfl)
  have hnone' : p'.buffer.frameCarry = [] := hcarry.trans hnone
  have hfresh' : d'.generation = p'.buffer.generation := by rw [hgen, hsame, hfresh]
  refine ⟨?_, ?_, fun x hx => ?_⟩
  · rw [h.bytes, held, hand_some hd, if_pos hfresh, hphase, held, hand_some hd', if_pos hfresh',
      hbytes, hnone, hnone', queueBytes, hqueue, queueBytes]
    simp [DrainPhase.frames]
  · rw [hcarry]
    exact h.short
  · rw [hd'] at hx
    cases hx
    refine ⟨hshort, fun hno => ?_, fun _ => hnone', fun _ => hnone', fun hphase => ?_⟩
    · rw [hhas] at hno
      cases hno
    · rw [hab] at hphase
      cases hphase

theorem Clean.popping (hphase : d.phase = .popping)
    (hm : d.generation ≠ p.buffer.generation → p.buffer.queue = []) :
    Clean (p.stepDrain d).1 (out ++ (p.stepDrain d).2) := by
  rw [stepDrain, hphase]
  dsimp only
  rw [TtsBuffer.popChunkMarking]
  cases hqueue : p.buffer.queue with
  | nil =>
    refine h.goto hd (rfl) ⟨hqueue.symm, rfl, rfl⟩ (by simp) (rfl) (rfl) ?_ ?_ (fun h => by cases h)
    all_goals
      rw [hphase]
      rfl
  | cons chunk rest =>
    have hfresh : d.generation = p.buffer.generation := by
      by_cases hgen : d.generation = p.buffer.generation
      · exact hgen
      · rw [hm hgen] at hqueue
        cases hqueue
    rw [List.append_nil, ← hphase]
    obtain ⟨hgen, hcut⟩ := onFrames_frame
      { d with carry := (takeCompleteStereoFrames (d.carry ++ chunk.pcm)).2 }
      (takeCompleteStereoFrames (d.carry ++ chunk.pcm)).1
    refine h.popped hd hphase hfresh hqueue (rfl) (rfl) (rfl) hgen ?_ ?_
      (onFrames_hasCarry _ _) (onFrames_phase _ _)
    · rw [onFrames_frames, hcut, takeComplete_pcm]
    · rw [hcut]
      exact takeComplete_short _

theorem held_store (hhas : d.phase.hasCarry = true) (hframes : d.phase.frames = [])
    (hm : d.generation ≠ p.buffer.generation → d.carry = []) :
    p.held = d.carry ++ p.queueBytes := by
  rw [held, hand_some hd, hframes, (h.pass d hd).taken hhas]
  by_cases hfresh : d.generation = p.buffer.generation
  · simp [if_pos hfresh]
  · simp [hm hfresh]

theorem Clean.storing (hphase : d.phase = .storing)
    (hm : d.generation ≠ p.buffer.generation → d.carry = []) :
    Clean ({ p with buffer := p.buffer.storeFrameCarry d.carry }.endPass) (out ++ []) := by
  have hc := h.pass d hd
  rw [List.append_nil]
  refine ⟨?_, hc.short, fun x hx => by cases hx⟩
  rw [h.bytes, held_store h hd (by rw [hphase]; rfl) (by rw [hphase]; rfl) hm]
  rfl

theorem Clean.closing (hphase : d.phase = .closing)
    (hm : d.generation ≠ p.buffer.generation → d.carry = []) :
    Clean ({ p with buffer := (p.buffer.storeFrameCarry d.carry).dropHold }.withPass
      { d with carry := [], phase := .ending }) (out ++ []) := by
  have hc := h.pass d hd
  rw [List.append_nil]
  refine ⟨?_, hc.short, fun x hx => ?_⟩
  · rw [h.bytes, held_store h hd (by rw [hphase]; rfl) (by rw [hphase]; rfl) hm]
    show _ = _ ++ ((if d.generation = p.buffer.generation then [] ++ [] else []) ++
      (d.carry ++ p.queueBytes))
    rw [List.append_nil, ite_self, List.nil_append]
  · cases hx
    refine ⟨?_, fun _ => rfl, (fun h => by cases h), hm, (fun h => by cases h)⟩
    simp [STEREO_FRAME_20MS_BYTES]

theorem Clean.write {frame : StereoFrame β} {frames : List (StereoFrame β)}
    (hphase : d.phase = .checking (frame :: frames)) (hfresh : p.buffer.generation = d.generation) :
    Clean (p.withPass (d.goto (.booking frame.pcm.length frames))) (out ++ [.wrote frame]) := by
  have hc := h.pass d hd
  have hhas : d.phase.hasCarry = true := by
    rw [hphase]
    rfl
  obtain ⟨henq, hwrote⟩ := since_wrote out frame
  refine ⟨?_, h.short, fun x hx => ?_⟩
  · rw [henq, hwrote, h.bytes, held, hand_some hd, if_pos hfresh.symm, hphase]
    show _ = _ ++ ((if d.generation = p.buffer.generation then
      frames.flatMap StereoFrame.pcm ++ d.carry else []) ++ (p.buffer.frameCarry ++ p.queueBytes))
    rw [if_pos hfresh.symm]
    simp [DrainPhase.frames]
  · cases hx
    exact ⟨hc.short, (fun h => by cases h), fun _ => hc.taken hhas, hc.stale, (fun h => by cases h)⟩

theorem Clean.padding (hphase : d.phase = .padding) :
    Clean (p.stepDrain d).1 (out ++ (p.stepDrain d).2) := by
  have hc := h.pass d hd
  have hhas : d.phase.hasCarry = true := by
    rw [hphase]
    rfl
  rw [stepDrain, hphase]
  dsimp only
  split
  · rw [← hphase]
    obtain ⟨hgen, hcut⟩ := onFrames_frame { d with carry := [] } [padStereoFrame20ms d.carry]
    refine h.move hd (rfl) .rfl (by simp) hgen ?_ ?_ ?_ (fun _ => hhas)
      fun hab => by
        rw [onFrames_phase] at hab
        cases hab
    · rw [onFrames_frames, hcut, hphase, List.flatMap_singleton, padStereo_pcm hc.short]
      simp [DrainPhase.frames]
    · rw [hcut]
      simp [STEREO_FRAME_20MS_BYTES]
    · intro hnone
      rw [onFrames_hasCarry] at hnone
      cases hnone
  · exact h.goto hd (rfl) .rfl (by simp) (rfl) (rfl) (by rw [hphase]; rfl)
      (by rw [hphase]; rfl) (fun h => by cases h)

theorem Clean.drain (hm : p.Meets .drain) : Clean (p.stepDrain d).1 (out ++ (p.stepDrain d).2) := by
  have hm := hm d hd
  -- the phase changes, what it holds does not
  have hgoto : ∀ {q : Playback β} {was phase : DrainPhase β}, d.phase = was →
      q.pass = some (d.goto phase) → SameBytes p.buffer q.buffer → phase.frames = was.frames →
      phase.hasCarry = was.hasCarry → phase.aborts = false → Clean q (out ++ []) :=
    fun hwas hq hb hframes hhas hab => h.goto hd hq hb (by simp) (rfl) (rfl)
      (hwas ▸ hframes) (hwas ▸ hhas) fun hon => absurd (hab.symm.trans hon) Bool.false_ne_true
  cases hphase : d.phase with
  | captured =>
    rw [stepDrain, hphase]
    exact h.goto hd rfl .rfl (by simp) rfl rfl (by rw [hphase]; rfl) (by rw [hphase]; rfl)
      (fun h => by cases h)
  | taking =>
    rw [stepDrain, hphase]
    exact h.taking hd hphase
  | popping => exact h.popping hd hphase fun hstale => (hm hstale).1 hphase
  | starved | pausing =>
    rw [stepDrain, hphase]
    dsimp only
    split
    · exact hgoto hphase rfl .rfl rfl rfl rfl
    · exact h.leaveLoop hd .rfl (rfl) (by simp) (by rw [hphase]; rfl) (by rw [hphase]; rfl)
  | storing =>
    rw [stepDrain, hphase]
    exact h.storing hd hphase fun hstale => (hm hstale).2 (Or.inl hphase)
  | starting frames | quieting =>
    rw [stepDrain, hphase]
    exact hgoto hphase rfl .rfl rfl rfl rfl
  | announcing frames =>
    rw [stepDrain, hphase]
    exact h.goto hd (rfl) .rfl (by simp [PlaybackEvent.Still]) (rfl) (rfl)
      (by rw [hphase]; rfl) (by rw [hphase]; rfl) (fun h => by cases h)
  | checking frames =>
    cases frames with rw [stepDrain, hphase]
    | nil =>
      exact h.onFrames hd [] .rfl (rfl) (by simp) (by rw [hphase]; rfl) (by rw [hphase]; rfl)
    | cons frame frames =>
      dsimp only
      split
      · next hfresh => exact h.write hd hphase hfresh
      · next hstale =>
        refine h.keep (by simp) .rfl ?_ fun x hx => ?_
        · rw [hand_some hd, if_neg (Ne.symm hstale)]
          exact if_neg (Ne.symm hstale)
        · cases hx
          have hc := h.pass d hd
          exact ⟨hc.short, (fun h => by cases h), fun _ => hc.taken (by rw [hphase]; rfl), hc.stale,
            fun _ => Ne.symm hstale⟩
  | booking bytes frames =>
    rw [stepDrain, hphase]
    exact h.goto hd rfl ⟨rfl, rfl, rfl⟩ (by simp [PlaybackEvent.Still]) rfl rfl
      (by rw [hphase]; rfl) (by rw [hphase]; rfl) (fun h => by cases h)
  | pacing slept frames =>
    rw [stepDrain, hphase]
    dsimp only
    split
    · next hstale =>
      refine h.keep (by simp) .rfl ?_ fun x hx => ?_
      · rw [hand_some hd, if_neg (Ne.symm hstale), hand_some (d := _) (rfl)]
        exact if_neg (Ne.symm hstale)
      · cases hx
        have hc := h.pass d hd
        exact ⟨hc.short, (fun h => by cases h), fun _ => hc.taken (by rw [hphase]; rfl), hc.stale,
          fun _ => Ne.symm hstale⟩
    · split
      · exact h.onFrames hd frames .rfl (rfl) (by simp) (by rw [hphase]; rfl) (by rw [hphase]; rfl)
      · exact hgoto hphase rfl .rfl rfl rfl rfl
  | aborting =>
    rw [stepDrain, hphase]
    exact h.goto hd rfl .rfl (by simp) rfl rfl (by rw [hphase]; rfl) (by rw [hphase]; rfl) fun _ =>
      (h.pass d hd).aborting (by rw [hphase]; rfl)
  | aborted was =>
    rw [stepDrain, hphase]
    exact h.endPass (rfl) ⟨rfl, rfl, rfl⟩ (endEvent_still _)
      (hand_of_aborting h hd (by rw [hphase]; rfl))
  | trailing =>
    rw [stepDrain, hphase]
    dsimp only
    split <;> exact hgoto hphase rfl .rfl rfl rfl rfl
  | padding => exact h.padding hd hphase
  | closing =>
    rw [stepDrain, hphase]
    exact h.closing hd hphase fun hstale => (hm hstale).2 (Or.inr hphase)
  | ending =>
    have hhand := hand_of_done h hd (by rw [hphase]; rfl) (by rw [hphase]; rfl)
    rw [stepDrain, hphase]
    dsimp only
    split
    · exact hgoto hphase rfl .rfl rfl rfl rfl
    · split
      · exact hgoto hphase rfl .rfl rfl rfl rfl
      · exact h.endPass (rfl) ⟨rfl, rfl, rfl⟩ (by simp) hhand
  | settling =>
    have hhand := hand_of_done h hd (by rw [hphase]; rfl) (by rw [hphase]; rfl)
    rw [stepDrain, hphase]
    dsimp only
    split
    · exact h.goto hd rfl ⟨rfl, rfl, rfl⟩ (by simp [PlaybackEvent.Still]) rfl rfl
        (by rw [hphase]; rfl) (by rw [hphase]; rfl) (fun h => by cases h)
    · exact h.endPass (rfl) ⟨rfl, rfl, rfl⟩ (by simp [PlaybackEvent.Still]) hhand
  | finishing =>
    have hhand := hand_of_done h hd (by rw [hphase]; rfl) (by rw [hphase]; rfl)
    rw [stepDrain, hphase]
    dsimp only
    split
    · exact h.endPass (rfl) ⟨rfl, rfl, rfl⟩ (by simp) hhand
    · exact hgoto hphase rfl .rfl rfl rfl rfl
  | quieted was =>
    have hhand := hand_of_done h hd (by rw [hphase]; rfl) (by rw [hphase]; rfl)
    rw [stepDrain, hphase]
    exact h.endPass (rfl) ⟨rfl, rfl, rfl⟩ (endEvent_still _) hhand

end

/-! ## The other steps -/

theorem Clean.aside (hpass : p'.pass = p.pass) (hb : SameBytes p.buffer p'.buffer)
    (hes : ∀ e ∈ es, e.Still) : Clean p' (out ++ es) := by
  refine h.keep hes hb ?_ fun x hx => ?_
  · rw [hand, hand, hpass, hb.generation]
  · rw [hpass] at hx
    have hc := h.pass x hx
    refine ⟨hc.short, hc.empty, fun hcarry => ?_, fun hstale => ?_, fun hphase => ?_⟩
    · rw [hb.carry]
      exact hc.taken hcarry
    · rw [hb.carry]
      rw [hb.generation] at hstale
      exact hc.stale hstale
    · rw [hb.generation]
      exact hc.aborting hphase

theorem Clean.begin (hp : p.pass = none) : Clean p.beginPass (out ++ []) := by
  refine h.keep (by simp) .rfl ?_ fun x hx => ?_
  · rw [hand_some (d := _) (rfl), hand, hp]
    simp [DrainPhase.frames]
  · cases hx
    exact ⟨by simp [STEREO_FRAME_20MS_BYTES], fun _ => rfl, (fun h => by cases h),
      fun hstale => absurd (rfl) hstale, (fun h => by cases h)⟩

theorem Clean.flush (hm : p.MovesOn) (hpass : p'.pass = p.pass) (hb : p'.buffer = p.buffer.flush) :
    Clean p' (out ++ [.flushed]) := by
  obtain ⟨henq, hwrote⟩ := since_flushed out
  have hstale : ∀ d, p.pass = some d → d.generation ≠ p.buffer.flush.generation := hm
  refine ⟨?_, ?_, fun x hx => ?_⟩
  · rw [henq, hwrote, held, queueBytes, hb, hand, hpass]
    cases hd : p.pass with
    | none => rfl
    | some d =>
      dsimp only
      rw [hb, if_neg (hstale d hd)]
      rfl
  · rw [hb]
    show 0 < STEREO_FRAME_20MS_BYTES
    simp [STEREO_FRAME_20MS_BYTES]
  · rw [hpass] at hx
    have hc := h.pass x hx
    rw [hb]
    exact ⟨hc.short, hc.empty, fun _ => rfl, fun _ => rfl, fun _ => hstale x hx⟩

theorem Clean.enqueue {bytes : List β} (hpass : p'.pass = p.pass)
    (hqueue : p'.queueBytes = p.queueBytes ++ bytes)
    (hcarry : p'.buffer.frameCarry = p.buffer.frameCarry)
    (hgen : p'.buffer.generation = p.buffer.generation) : Clean p' (out ++ [.enqueued bytes]) := by
  obtain ⟨henq, hwrote⟩ := since_enqueued out bytes
  have hhand : p'.hand = p.hand := by rw [hand, hand, hpass, hgen]
  refine ⟨?_, ?_, fun x hx => ?_⟩
  · rw [henq, hwrote, h.bytes, held, held, hhand, hcarry, hqueue]
    simp only [List.append_assoc]
  · rw [hcarry]
    exact h.short
  · rw [hpass] at hx
    have hc := h.pass x hx
    refine ⟨hc.short, hc.empty, fun has => ?_, fun hstale => ?_, fun hphase => ?_⟩
    · rw [hcarry]
      exact hc.taken has
    · rw [hcarry]
      rw [hgen] at hstale
      exact hc.stale hstale
    · rw [hgen]
      exact hc.aborting hphase

end

theorem setProducing_same (b : TtsBuffer β) (producing : Bool) :
    SameBytes b (b.setProducing producing) := by
  cases producing <;> exact ⟨rfl, rfl, rfl⟩

theorem Clean.ender (h : Clean p out) {k : Nat} {e : Ender} (hk : p.enders[k]? = some e)
    (hm : p.Meets (.ender k)) (hs : p.stepEnder k e = some (p', es)) : Clean p' (out ++ es) := by
  rw [stepEnder] at hs
  split at hs <;> cases hs
  · exact h.aside (rfl) .rfl (by simp)
  · next todo htodo =>
    exact h.flush (hm e todo hk htodo) (rfl) (rfl)
  · exact h.aside (rfl) ⟨rfl, rfl, rfl⟩ (by simp [PlaybackEvent.Still])
  · exact h.aside (rfl) .rfl (by simp [PlaybackEvent.Still])
  · exact h.aside (rfl) .rfl (endEvent_still _)

theorem Clean.step {i : PlaybackInput β} (h : Clean p out) (hm : p.Meets i)
    (hs : p.step i = some (p', es)) : Clean p' (out ++ es) := by
  cases i with
  | begin =>
    rw [Playback.step] at hs
    split_ifs at hs with hnone
    cases hs
    exact h.begin (Option.isNone_iff_eq_none.mp hnone)
  | drain =>
    rw [Playback.step, Option.map_eq_some_iff] at hs
    obtain ⟨d, hd, heq⟩ := hs
    have hdrain := h.drain hd hm
    rw [heq] at hdrain
    exact hdrain
  | writeFails => exact hm.elim
  | enqueue chunks expect reply =>
    rw [Playback.step, TtsBuffer.enqueueTaggedIfGeneration] at hs
    split at hs <;> cases hs
    · refine h.enqueue (rfl) ?_ (rfl) (rfl)
      exact List.flatMap_append
    · exact h.aside (rfl) .rfl (by simp)
  | setProducing producing =>
    cases hs
    exact h.aside (rfl) (setProducing_same _ _) (by simp)
  | markReplyComplete id =>
    cases hs
    exact h.aside (rfl) ⟨rfl, rfl, rfl⟩ (by simp)
  | flush =>
    cases hs
    exact h.flush hm (rfl) (rfl)
  | call todo =>
    rw [Playback.step] at hs
    split at hs <;> cases hs
    exact h.aside (rfl) .rfl (by simp)
  | ender k =>
    rw [Playback.step, Option.bind_eq_some_iff] at hs
    obtain ⟨e, hk, hs⟩ := hs
    exact h.ender hk hm hs

theorem run_clean {inputs : List (PlaybackInput β)} (ha : Along Playback.step Meets .new inputs)
    (hr : run Playback.step .new inputs = some (p, out)) : Clean p out :=
  run_history (I := fun _ out p => Clean p out) (fun _ _ _ _ _ _ h hm hs => h.step hm hs)
    Clean.new ha hr

/-! ## A pass comes to its end -/

/-- How far the pass is from its end, once the queue is no shorter: the frames before the loop
is left come before the next pop, those after it before the carry is stored. -/
def stage (d : DrainPass β) : Nat :=
  match d.phase with
  | .captured | .taking => 7
  | .starting _ | .announcing _ | .checking _ | .booking _ _ | .pacing _ _ =>
    if d.left then 1 else 5
  | .popping => 4
  | .starved | .pausing => 3
  | .trailing | .padding => if d.left then 2 else 6
  | _ => 0

def rank (d : DrainPass β) : Nat :=
  match d.phase with
  | .captured => 1
  | .booking _ frames => frames.length * 8 + 6
  | .pacing slept frames => frames.length * 8 + if slept then 4 else 5
  | .starting frames => frames.length * 8 + 3
  | .announcing frames => frames.length * 8 + 2
  | .checking frames => frames.length * 8 + 1
  | .starved | .trailing => 1
  | .closing => 5
  | .ending => 4
  | .settling => 3
  | .finishing => 2
  | .aborting | .quieting => 1
  | _ => 0

/-- The queue first, then the stage, then the steps within it. -/
def Closer (a b : Nat × Nat × Nat) : Prop :=
  Prod.Lex (· < ·) (Prod.Lex (· < ·) (· < ·)) a b

theorem closer_queue {a b : Nat × Nat × Nat} (h : a.1 < b.1) : Closer a b :=
  Prod.Lex.left _ _ h

theorem closer_stage {n a b x y : Nat} (h : a < b) : Closer (n, a, x) (n, b, y) :=
  Prod.Lex.right _ (Prod.Lex.left _ _ h)

theorem closer_rank {n a x y : Nat} (h : x < y) : Closer (n, a, x) (n, a, y) :=
  Prod.Lex.right _ (Prod.Lex.right _ h)

def distance (p : Playback β) (d : DrainPass β) : Nat × Nat × Nat :=
  (p.buffer.queue.length, stage d, rank d)

section

variable (d)

theorem stage_onFrames (frames : List (StereoFrame β)) :
    (stage (d.onFrames frames) < if d.left then 1 else 5) ∨
      (stage (d.onFrames frames) = (if d.left then 1 else 5) ∧
        rank (d.onFrames frames) < frames.length * 8 + 4) := by
  cases frames with rw [DrainPass.onFrames]
  | nil =>
    cases d.left <;> simp [stage, DrainPass.goto]
  | cons frame frames =>
    cases d.agentStartEmitted <;> simp [stage, rank]

theorem stage_onFrames_lt (frames : List (StereoFrame β)) :
    stage (d.onFrames frames) < if d.left then 2 else 6 := by
  rcases stage_onFrames d frames with h | ⟨h, -⟩
  · refine Nat.lt_trans h ?_
    cases d.left <;> decide
  · rw [h]
    cases d.left <;> decide

theorem closer_onFrames {n x : Nat} {frames : List (StereoFrame β)} (hx : frames.length * 8 + 4 ≤ x)
    :
    Closer (n, stage (d.onFrames frames), rank (d.onFrames frames))
      (n, (if d.left then 1 else 5), x) := by
  rcases stage_onFrames d frames with h | ⟨h, hrank⟩
  · exact closer_stage h
  · rw [h]
    exact closer_rank (by omega)

theorem stage_leaveLoop : stage d.leaveLoop < 3 := by
  rw [DrainPass.leaveLoop]
  cases d.carry.isEmpty <;> simp [stage]

end

theorem stepDrain_queue (p : Playback β) {d : DrainPass β} (hphase : d.phase ≠ .popping) :
    (p.stepDrain d).1.buffer.queue = p.buffer.queue := by
  rw [stepDrain]
  split
  all_goals first
    | exact absurd (by assumption) hphase
    | rfl
    | (split <;> first | rfl | (split <;> rfl))

theorem popped_closer (hphase : d.phase = .popping) (hd' : (p.stepDrain d).1.pass = some d') :
    Closer ((p.stepDrain d).1.distance d') (p.distance d) := by
  rw [stepDrain, hphase] at hd' ⊢
  rw [TtsBuffer.popChunkMarking] at hd' ⊢
  cases hqueue : p.buffer.queue with
  | nil =>
    rw [hqueue] at hd'
    cases hd'
    unfold distance
    rw [hqueue, show stage d = 4 by rw [stage, hphase]]
    exact closer_stage (by simp [stage, DrainPass.goto])
  | cons chunk rest =>
    refine closer_queue ?_
    show rest.length < p.buffer.queue.length
    rw [hqueue]
    exact Nat.lt_succ_self _

theorem stepDrain_closer (hd' : (p.stepDrain d).1.pass = some d') :
    Closer ((p.stepDrain d).1.distance d') (p.distance d) := by
  by_cases hpop : d.phase = .popping
  · exact popped_closer hpop hd'
  have hleave := stage_leaveLoop d
  unfold distance
  rw [p.stepDrain_queue hpop]
  obtain ⟨phase, generation, startEmitted, playedAny, carry, left⟩ := d
  cases phase with
  | captured | closing =>
    cases hd'
    exact closer_rank (by simp [rank])
  | taking =>
    cases hd'
    exact closer_stage (by simp [stage])
  | popping => exact absurd rfl hpop
  | starved =>
    cases hd'
    split
    · exact closer_rank (by simp [rank, DrainPass.goto])
    · exact closer_stage hleave
  | pausing =>
    cases hd'
    split
    · exact closer_stage (by simp [stage, DrainPass.goto])
    · exact closer_stage hleave
  | starting frames | announcing frames | booking bytes frames | aborting | quieting =>
    cases hd'
    exact closer_rank (by simp [rank, DrainPass.goto])
  | checking frames =>
    cases frames with
    | nil =>
      cases hd'
      exact closer_stage (by cases left <;> simp [stage, DrainPass.goto, DrainPass.onFrames])
    | cons frame frames =>
      rw [stepDrain] at hd'
      dsimp only at hd'
      split at hd' <;> cases hd'
      · exact closer_rank (by simp [rank, DrainPass.goto]; omega)
      · exact closer_stage (by cases left <;> simp [stage, DrainPass.goto])
  | pacing slept frames =>
    cases hd'
    split
    · exact closer_stage (by cases left <;> simp [stage, DrainPass.goto])
    · split
      · next hslept => exact closer_onFrames _ (by simp [rank, hslept])
      · next hslept => exact closer_rank (by simp [rank, DrainPass.goto, hslept])
  | trailing =>
    cases hd'
    cases p.buffer.producing with
    | true => exact closer_stage (by cases left <;> simp [stage, DrainPass.goto])
    | false => exact closer_rank (by simp [rank, DrainPass.goto])
  | padding =>
    cases hd'
    split
    · exact closer_stage (stage_onFrames_lt _ _)
    · exact closer_stage (by cases left <;> simp [stage, DrainPass.goto])
  | ending =>
    rw [stepDrain] at hd'
    dsimp only at hd'
    split at hd'
    · cases hd'
      exact closer_rank (by simp [rank, DrainPass.goto])
    · split at hd' <;> cases hd'
      exact closer_rank (by simp [rank, DrainPass.goto])
  | settling | finishing =>
    rw [stepDrain] at hd'
    dsimp only at hd'
    split at hd' <;> cases hd'
    exact closer_rank (by simp [rank, DrainPass.goto])
  | storing | aborted was | quieted was => cases hd'

inductive DrainsTo : Playback β → List (PlaybackEvent β) → Playback β → Prop
  | refl (p : Playback β) : DrainsTo p [] p
  | head {p q : Playback β} {d : DrainPass β} {es : List (PlaybackEvent β)}
      (hd : p.pass = some d) (h : DrainsTo (p.stepDrain d).1 es q) :
      DrainsTo p ((p.stepDrain d).2 ++ es) q

theorem drains_out (p : Playback β) (d : DrainPass β) (hd : p.pass = some d) :
    ∃ q es, DrainsTo p es q ∧ q.pass = none := by
  cases hnext : (p.stepDrain d).1.pass with
  | none => exact ⟨_, _, .head hd (.refl _), hnext⟩
  | some d' =>
    obtain ⟨q, es, h, hq⟩ := drains_out (p.stepDrain d).1 d' hnext
    exact ⟨q, _, .head hd h, hq⟩
termination_by (p.buffer.queue.length, stage d, rank d)
decreasing_by exact stepDrain_closer hnext

theorem stepDrain_frame (p : Playback β) (d : DrainPass β) :
    (p.stepDrain d).1.buffer.generation = p.buffer.generation ∧
      (p.stepDrain d).1.buffer.producing = p.buffer.producing ∧
      ∀ d', (p.stepDrain d).1.pass = some d' → d'.generation = d.generation := by
  obtain ⟨phase, generation, startEmitted, playedAny, carry, left⟩ := d
  have hframes : ∀ (d : DrainPass β) frames, (d.onFrames frames).generation = d.generation :=
    fun d frames => (onFrames_frame d frames).1
  cases phase with
  | popping =>
    rw [stepDrain]
    rw [TtsBuffer.popChunkMarking]
    cases p.buffer.queue with
    | nil => exact ⟨rfl, rfl, fun d' hd' => by cases hd'; rfl⟩
    | cons chunk rest => exact ⟨rfl, rfl, fun d' hd' => by cases hd'; exact hframes _ _⟩
  | checking frames =>
    cases frames with
    | nil => exact ⟨rfl, rfl, fun d' hd' => by cases hd'; rfl⟩
    | cons frame frames =>
      rw [stepDrain]
      dsimp only
      split <;> exact ⟨rfl, rfl, fun d' hd' => by cases hd'; rfl⟩
  | starved | pausing =>
    refine ⟨rfl, rfl, fun d' hd' => ?_⟩
    cases hd'
    split <;> rfl
  | pacing slept frames =>
    refine ⟨rfl, rfl, fun d' hd' => ?_⟩
    cases hd'
    split
    · rfl
    · split
      · exact hframes _ _
      · rfl
  | padding =>
    refine ⟨rfl, rfl, fun d' hd' => ?_⟩
    cases hd'
    split
    · exact hframes _ _
    · rfl
  | ending =>
    rw [stepDrain]
    dsimp only
    split
    · exact ⟨rfl, rfl, fun d' hd' => by cases hd'; rfl⟩
    · split
      · exact ⟨rfl, rfl, fun d' hd' => by cases hd'; rfl⟩
      · exact ⟨rfl, rfl, fun d' hd' => by cases hd'⟩
  | settling =>
    rw [stepDrain]
    dsimp only
    split
    · exact ⟨rfl, rfl, fun d' hd' => by cases hd'; rfl⟩
    · exact ⟨rfl, rfl, fun d' hd' => by cases hd'⟩
  | finishing =>
    rw [stepDrain]
    dsimp only
    split
    · exact ⟨rfl, rfl, fun d' hd' => by cases hd'⟩
    · exact ⟨rfl, rfl, fun d' hd' => by cases hd'; rfl⟩
  | storing | aborted was | quieted was => exact ⟨rfl, rfl, fun d' hd' => by cases hd'⟩
  | _ => exact ⟨rfl, rfl, fun d' hd' => by cases hd'; rfl⟩

def Fresh (p : Playback β) : Prop := ∀ d, p.pass = some d → d.generation = p.buffer.generation

theorem Fresh.drain (h : p.Fresh) (hd : p.pass = some d) : (p.stepDrain d).1.Fresh := by
  obtain ⟨hgen, -, hpass⟩ := p.stepDrain_frame d
  intro d' hd'
  rw [hpass d' hd', hgen]
  exact h d hd

theorem Fresh.meets (h : p.Fresh) : p.Meets .drain :=
  fun d hd hstale => absurd (h d hd) hstale

theorem DrainsTo.run {q : Playback β} (h : DrainsTo p es q) : ∃ n,
    run Playback.step p (List.replicate n .drain) = some (q, es) ∧
      (p.Fresh → Along Playback.step Meets p (List.replicate n .drain) ∧ q.Fresh) := by
  induction h with
  | refl p => exact ⟨0, rfl, fun hfresh => ⟨trivial, hfresh⟩⟩
  | @head p q d es hd h ih =>
    obtain ⟨n, hrun, hmeets⟩ := ih
    have hstep : p.step .drain = some (p.stepDrain d) := by rw [Playback.step, hd]; rfl
    refine ⟨n + 1, run_cons_eq_some.mpr ⟨_, _, es, hstep, hrun, rfl⟩, fun hfresh => ?_⟩
    obtain ⟨halong, hq⟩ := hmeets (hfresh.drain hd)
    exact ⟨Along.cons hfresh.meets hstep halong, hq⟩

/-- What a fresh pass leaves behind while synthesis does not produce: nothing in the queue once
the loop is left, nothing in its carry once it comes to store it. -/
def Empties (p : Playback β) (d : DrainPass β) : Prop :=
  match d.phase with
  | .captured | .taking | .popping => d.left = false
  | .starved => d.left = false ∧ p.buffer.queue = []
  | .starting _ | .announcing _ | .checking _ | .booking _ _ | .pacing _ _ =>
    d.left = true → p.buffer.queue = [] ∧ d.carry = []
  | .trailing | .padding => d.left = true ∧ p.buffer.queue = []
  | .closing => p.buffer.queue = [] ∧ d.carry = []
  | .ending | .settling | .finishing | .quieting | .quieted _ =>
    p.buffer.queue = [] ∧ p.buffer.frameCarry = []
  | .pausing | .storing | .aborting | .aborted _ => False

theorem empties_onFrames {d : DrainPass β} (frames : List (StereoFrame β))
    (h : d.left = true → p.buffer.queue = [] ∧ d.carry = []) (hd : p.pass = some (d.onFrames frames)) :
    Empties p (d.onFrames frames) := by
  cases frames with rw [DrainPass.onFrames]
  | nil =>
    cases hleft : d.left with
    | true => exact h hleft
    | false => exact hleft
  | cons frame frames =>
    cases d.agentStartEmitted <;> exact h

theorem empties_leaveLoop {d : DrainPass β} (h : p.buffer.queue = []) : Empties p d.leaveLoop := by
  rw [DrainPass.leaveLoop]
  cases hcarry : d.carry with
  | nil => exact ⟨h, rfl⟩
  | cons a l => exact ⟨rfl, h⟩

theorem of_next {P : DrainPass β → Prop} {Q : Prop} (h : P d) :
    (∀ d', some d = some d' → P d') ∧ (some d = none → Q) :=
  ⟨fun d' hd' => Option.some.inj hd' ▸ h, fun hd' => by cases hd'⟩

theorem Empties.drain (h : Empties p d) (hfresh : d.generation = p.buffer.generation)
    (hquiet : p.buffer.producing = false) :
    (∀ d', (p.stepDrain d).1.pass = some d' → Empties (p.stepDrain d).1 d') ∧
      ((p.stepDrain d).1.pass = none →
        (p.stepDrain d).1.buffer.queue = [] ∧ (p.stepDrain d).1.buffer.frameCarry = []) := by
  obtain ⟨phase, generation, startEmitted, playedAny, carry, left⟩ := d
  cases phase with
  | captured | taking | starting | announcing | booking | closing | quieting => exact of_next h
  | popping =>
    have hleft : left = false := h
    rw [stepDrain]
    rw [TtsBuffer.popChunkMarking]
    cases p.buffer.queue with
    | nil => exact of_next (⟨h, rfl⟩)
    | cons chunk rest =>
      refine ⟨fun d' hd' => ?_, (fun h => by cases h)⟩
      cases hd'
      refine empties_onFrames _ (fun hl => ?_) rfl
      rw [hleft] at hl
      cases hl
  | starved =>
    rw [stepDrain]
    rw [hquiet]
    exact of_next (empties_leaveLoop h.2)
  | checking frames =>
    cases frames with
    | nil => exact of_next (empties_onFrames _ h rfl)
    | cons frame frames =>
      rw [stepDrain]
      dsimp only
      rw [if_pos hfresh.symm]
      exact of_next h
  | pacing slept frames =>
    rw [stepDrain]
    dsimp only
    rw [if_neg (fun hne => hne hfresh.symm)]
    refine ⟨fun d' hd' => ?_, (fun h => by cases h)⟩
    cases slept with
    | true =>
      cases hd'
      exact empties_onFrames _ h rfl
    | false =>
      cases hd'
      exact h
  | trailing | finishing =>
    rw [stepDrain]
    rw [hquiet]
    exact of_next h
  | padding =>
    rw [stepDrain]
    dsimp only
    rw [if_pos hfresh.symm]
    refine ⟨fun d' hd' => ?_, (fun h => by cases h)⟩
    cases hd'
    exact empties_onFrames _ (fun _ => ⟨h.2, rfl⟩) rfl
  | ending =>
    rw [stepDrain]
    dsimp only
    rw [if_pos hfresh.symm]
    exact of_next h
  | settling =>
    rw [stepDrain]
    dsimp only
    split
    · exact of_next h
    · exact ⟨fun d' hd' => (by cases hd'), fun _ => h⟩
  | quieted was => exact ⟨fun d' hd' => (by cases hd'), fun _ => h⟩
  | pausing | storing | aborting | aborted was => exact h.elim

theorem DrainsTo.emptied {q : Playback β} (h : DrainsTo p es q) (hfresh : p.Fresh)
    (hquiet : p.buffer.producing = false) (hd : ∀ d, p.pass = some d → Empties p d)
    (hnone : p.pass = none → p.buffer.queue = [] ∧ p.buffer.frameCarry = [])
    (hq : q.pass = none) : q.buffer.queue = [] ∧ q.buffer.frameCarry = [] := by
  induction h with
  | refl p => exact hnone hq
  | @head p q d es hpass h ih =>
    obtain ⟨hsome, hend⟩ := (hd d hpass).drain (hfresh d hpass) hquiet
    exact ih (hfresh.drain hpass) ((p.stepDrain_frame d).2.1.trans hquiet) hsome hend hq

theorem producing_drainsTo {q : Playback β} (h : DrainsTo p es q) :
    q.buffer.producing = p.buffer.producing := by
  induction h with
  | refl p => rfl
  | @head p q d es hpass h ih => exact ih.trans (p.stepDrain_frame d).2.1

theorem begin_empties (hp : p.pass = none) (hquiet : p.buffer.producing = false) :
    ∃ more q es, (∀ i ∈ more, i = .begin ∨ i = .drain) ∧
      run Playback.step p more = some (q, es) ∧ Along Playback.step Meets p more ∧
      q.pass = none ∧ q.buffer.queue = [] ∧ q.buffer.frameCarry = [] := by
  obtain ⟨q, es, hdrains, hq⟩ := drains_out p.beginPass _ rfl
  have hfresh : p.beginPass.Fresh := fun d hd => by cases hd; rfl
  have hempties : ∀ d, p.beginPass.pass = some d → Empties p.beginPass d :=
    fun d hd => by cases hd; rfl
  obtain ⟨hqueue, hcarry⟩ := hdrains.emptied hfresh hquiet hempties (fun h => by cases h) hq
  obtain ⟨n, hrun, hmeets⟩ := hdrains.run
  have hstep : p.step .begin = some (p.beginPass, []) := by rw [Playback.step, hp]; rfl
  refine ⟨.begin :: List.replicate n .drain, q, [] ++ es, fun i hi => ?_,
    run_cons_eq_some.mpr ⟨_, _, es, hstep, hrun, rfl⟩,
    Along.cons trivial hstep (hmeets hfresh).1, hq, hqueue, hcarry⟩
  rcases List.mem_cons.mp hi with rfl | hi
  · exact Or.inl rfl
  · exact Or.inr (List.eq_of_mem_replicate hi)

theorem own_empties (hquiet : p.buffer.producing = false) :
    ∃ more q es, (∀ i ∈ more, i = .begin ∨ i = .drain) ∧
      run Playback.step p more = some (q, es) ∧ (p.Fresh → Along Playback.step Meets p more) ∧
      q.pass = none ∧ q.buffer.queue = [] ∧ q.buffer.frameCarry = [] := by
  cases hp : p.pass with
  | none =>
    obtain ⟨more, q, es, hown, hrun, hmeets, hq⟩ := begin_empties hp hquiet
    exact ⟨more, q, es, hown, hrun, fun _ => hmeets, hq⟩
  | some d =>
    obtain ⟨q, es, hdrains, hq⟩ := drains_out p d hp
    obtain ⟨n, hrun, hmeets⟩ := hdrains.run
    obtain ⟨more, r, es', hown, hrun', hmeets', hr⟩ :=
      begin_empties hq ((producing_drainsTo hdrains).trans hquiet)
    refine ⟨List.replicate n .drain ++ more, r, es ++ es', fun i hi => ?_,
      run_append_eq_some.mpr ⟨q, es, es', hrun, hrun', rfl⟩, fun hfresh => ?_, hr⟩
    · rcases List.mem_append.mp hi with hi | hi
      · exact Or.inr (List.eq_of_mem_replicate hi)
      · exact hown i hi
    · refine along_append.mpr ⟨(hmeets hfresh).1, fun t out ht => ?_⟩
      rw [hrun, Option.some.injEq, Prod.mk.injEq] at ht
      exact ht.1 ▸ hmeets'

/-- An event of a pass: it enqueues and flushes nothing. -/
def OfPass : PlaybackEvent β → Prop
  | .enqueued _ | .flushed => False
  | _ => True

theorem enqueuedSince_ofPass {es : List (PlaybackEvent β)} (h : ∀ e ∈ es, OfPass e)
    (out : List (PlaybackEvent β)) : enqueuedSince (out ++ es) = enqueuedSince out := by
  induction es generalizing out with
  | nil => rw [List.append_nil]
  | cons e es ih =>
    have hrest := ih (fun x hx => h x (List.mem_cons_of_mem e hx)) (out ++ [e])
    rw [List.append_assoc, List.singleton_append] at hrest
    have he := h e List.mem_cons_self
    rw [hrest]
    simp only [enqueuedSince, List.foldl_append]
    cases e with
    | enqueued _ | flushed => exact he.elim
    | _ => rfl

theorem endEvent_cases (was : Bool) : (endEvent was : List (PlaybackEvent β)) = [] ∨
    (endEvent was : List (PlaybackEvent β)) = [.agentSpeakingEnd] := by
  cases was with
  | false => exact Or.inl rfl
  | true => exact Or.inr rfl

theorem endEvent_ofPass (was : Bool) : ∀ e ∈ (endEvent was : List (PlaybackEvent β)), OfPass e := by
  intro e he
  rcases endEvent_cases was with h | h <;> rw [h] at he
  · cases he
  · rw [List.mem_singleton.mp he]
    trivial

theorem stepDrain_events (p : Playback β) (d : DrainPass β) :
    (p.stepDrain d).2 = [] ∨ (∃ e, (p.stepDrain d).2 = [e] ∧ OfPass e) ∨
      ∃ ts : List ReplyTransition, (p.stepDrain d).2 = ts.map PlaybackEvent.replyTransition := by
  have hend : ∀ was, (endEvent was : List (PlaybackEvent β)) = [] ∨
      (∃ e, (endEvent was : List (PlaybackEvent β)) = [e] ∧ OfPass e) ∨
      ∃ ts : List ReplyTransition,
        (endEvent was : List (PlaybackEvent β)) = ts.map PlaybackEvent.replyTransition :=
    fun was => (endEvent_cases was).imp_right fun h => Or.inl ⟨.agentSpeakingEnd, h, trivial⟩
  obtain ⟨phase, generation, startEmitted, playedAny, carry, left⟩ := d
  cases phase with
  | popping =>
    rw [stepDrain]
    rw [TtsBuffer.popChunkMarking]
    cases p.buffer.queue <;> exact Or.inl rfl
  | announcing frames => exact Or.inr (Or.inl ⟨_, rfl, trivial⟩)
  | checking frames =>
    cases frames with
    | nil => exact Or.inl rfl
    | cons frame frames =>
      rw [stepDrain]
      dsimp only
      split
      · exact Or.inr (Or.inl ⟨_, rfl, trivial⟩)
      · exact Or.inl rfl
  | booking bytes frames => exact Or.inr (Or.inr ⟨_, rfl⟩)
  | aborted was | quieted was => exact hend was
  | ending =>
    rw [stepDrain]
    dsimp only
    split
    · exact Or.inl rfl
    · split <;> exact Or.inl rfl
  | settling =>
    rw [stepDrain]
    dsimp only
    split <;> exact Or.inr (Or.inr ⟨_, rfl⟩)
  | finishing =>
    rw [stepDrain]
    dsimp only
    split <;> exact Or.inl rfl
  | _ => exact Or.inl rfl

theorem stepDrain_ofPass (p : Playback β) (d : DrainPass β) :
    ∀ e ∈ (p.stepDrain d).2, OfPass e := by
  intro e he
  rcases p.stepDrain_events d with h | ⟨e', h, hof⟩ | ⟨ts, h⟩ <;> rw [h] at he
  · cases he
  · rw [List.mem_singleton.mp he]
    exact hof
  · obtain ⟨t, -, rfl⟩ := List.mem_map.mp he
    trivial

theorem enqueuedSince_own {more : List (PlaybackInput β)} {q : Playback β}
    (hown : ∀ i ∈ more, i = .begin ∨ i = .drain)
    (hrun : run Playback.step p more = some (q, es)) (out : List (PlaybackEvent β)) :
    enqueuedSince (out ++ es) = enqueuedSince out := by
  refine enqueuedSince_ofPass ?_ out
  induction more generalizing p es with
  | nil =>
    cases hrun
    exact fun e he => absurd he List.not_mem_nil
  | cons i more ih =>
    obtain ⟨p', es', rest, hs, hrun', rfl⟩ := run_cons_eq_some.mp hrun
    have hrest := ih (fun x hx => hown x (List.mem_cons_of_mem i hx)) hrun'
    have hstep : ∀ e ∈ es', OfPass e := by
      rcases hown i List.mem_cons_self with rfl | rfl
      · rw [Playback.step] at hs
        split at hs <;> cases hs
        exact fun e he => absurd he List.not_mem_nil
      · rw [Playback.step, Option.map_eq_some_iff] at hs
        obtain ⟨d, -, hd⟩ := hs
        have hof := p.stepDrain_ofPass d
        rw [hd] at hof
        exact hof
    intro e he
    rcases List.mem_append.mp he with he | he
    · exact hstep e he
    · exact hrest e he

theorem Clean.settled (h : Clean p out) (hp : p.pass = none) (hqueue : p.buffer.queue = [])
    (hcarry : p.buffer.frameCarry = []) : writtenSince out = enqueuedSince out := by
  rw [h.bytes, held, hand, hp, queueBytes, hqueue, hcarry]
  simp

end Playback

/-! ## The cut -/

/-- Where no stale pass pops a chunk or stores a carry, what was written since the last flush
is the front of what was enqueued since, the rest is held in order, and once synthesis is done
the passes write that rest. -/
theorem flush_clean_cut {inputs : List (PlaybackInput β)} {p : Playback β}
    {out : List (PlaybackEvent β)} (hr : run Playback.step .new inputs = some (p, out))
    (ha : Along Playback.step Playback.Meets .new inputs) :
    enqueuedSince out = writtenSince out ++ p.held ∧
      (p.buffer.producing = false → ∃ more q out', (∀ i ∈ more, i = .begin ∨ i = .drain) ∧
        run Playback.step p more = some (q, out') ∧ q.pass = none ∧
        (Along Playback.step Playback.Meets p more →
          writtenSince (out ++ out') = enqueuedSince out) ∧
        (p.Fresh → Along Playback.step Playback.Meets p more)) := by
  refine ⟨(Playback.run_clean ha hr).bytes, fun hquiet => ?_⟩
  obtain ⟨more, q, out', hown, hmore, hfresh, hq, hqueue, hcarry⟩ := Playback.own_empties hquiet
  refine ⟨more, q, out', hown, hmore, hq, fun hmeets => ?_, hfresh⟩
  have hrun : run Playback.step .new (inputs ++ more) = some (q, out ++ out') :=
    run_append_eq_some.mpr ⟨p, out, out', hr, hmore, rfl⟩
  have halong : Along Playback.step Playback.Meets .new (inputs ++ more) := by
    refine along_append.mpr ⟨ha, fun t os ht => ?_⟩
    rw [hr, Option.some.injEq, Prod.mk.injEq] at ht
    exact ht.1 ▸ hmeets
  rw [(Playback.run_clean halong hrun).settled hq hqueue hcarry,
    Playback.enqueuedSince_own hown hmore]

/-- A chunk is queued and a pass takes it; its padded frame is written. -/
theorem flush_clean_cut_spoken : ∃ (p : Playback Nat) (out : List (PlaybackEvent Nat)),
    run Playback.step .new [.enqueue [⟨[1, 2], 0⟩] none none, .begin, .drain, .drain] =
      some (p, out) ∧
    enqueuedSince out = writtenSince out ++ p.held ∧
      (p.buffer.producing = false → ∃ more q out', (∀ i ∈ more, i = .begin ∨ i = .drain) ∧
        run Playback.step p more = some (q, out') ∧ q.pass = none ∧
        (Along Playback.step Playback.Meets p more →
          writtenSince (out ++ out') = enqueuedSince out) ∧
        (p.Fresh → Along Playback.step Playback.Meets p more)) :=
  ⟨_, _, rfl,
    @flush_clean_cut Nat [.enqueue [⟨[1, 2], 0⟩] none none, .begin, .drain, .drain] _ _ rfl
      ⟨trivial, fun _ _ h₁ => by
        cases h₁
        refine ⟨trivial, fun _ _ h₂ => ?_⟩
        cases h₂
        refine ⟨Playback.Fresh.meets fun d hd => by cases hd; rfl, fun _ _ h₃ => ?_⟩
        cases h₃
        exact ⟨Playback.Fresh.meets fun d hd => by cases hd; rfl, fun _ _ _ => trivial⟩⟩⟩

/-- The pass sees no flush before it stores its carry, and the flush comes just before it does:
the flushed byte leads the next reply. -/
theorem flush_clean_cut_late_store : ∃ (p : Playback Nat) (out : List (PlaybackEvent Nat)),
    run Playback.step .new
      ([.enqueue [⟨[1], 0⟩] none none, .setProducing true, .begin] ++ List.replicate 6 .drain ++
        [.flush, .drain, .enqueue [⟨[2], 0⟩] none none, .begin] ++ List.replicate 10 .drain) =
      some (p, out) ∧
    enqueuedSince out = [2] ∧ writtenSince out = [1, 2] :=
  ⟨_, _, rfl, rfl, rfl⟩

end NodeWebrtc.Speech
