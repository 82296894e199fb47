import Mathlib.Data.List.Chain
import NodeWebrtc.Speech.Playback

/-! # Starts and ends of speaking

A call that ends speaking clears the flag, and emits the end some steps later; the drain sets
the flag and emits the start a step later. Where the drain sets the flag only when no end is
still to be emitted, and no call clears it between the drain's two steps, starts and ends
alternate.
-/

namespace NodeWebrtc.Speech

open Machine

variable {β : Type}

def PlaybackEvent.mark : PlaybackEvent β → Option Bool
  | .agentSpeakingStart => some true
  | .agentSpeakingEnd => some false
  | _ => none

def speakingMarks (out : List (PlaybackEvent β)) : List Bool := out.filterMap PlaybackEvent.mark

def Alternates (marks : List Bool) : Prop :=
  marks.head? ≠ some false ∧ marks.IsChain (· ≠ ·)

def started (marks : List Bool) : Bool := marks.getLast? == some true

theorem Alternates.start {marks : List Bool} (h : Alternates marks) (hlast : started marks = false) :
    Alternates (marks ++ [true]) ∧ started (marks ++ [true]) = true := by
  refine ⟨⟨?_, List.isChain_append.mpr ⟨h.2, List.isChain_singleton _, ?_⟩⟩, by simp [started]⟩
  · cases marks with
    | nil => simp
    | cons m marks => exact h.1
  · intro x hx y hy heq
    rw [List.head?_cons, Option.mem_some_iff] at hy
    rw [heq, ← hy, Option.mem_def] at hx
    rw [started, hx] at hlast
    cases hlast

theorem Alternates.stop {marks : List Bool} (h : Alternates marks) (hlast : started marks = true) :
    Alternates (marks ++ [false]) ∧ started (marks ++ [false]) = false := by
  have hlast' : marks.getLast? = some true := beq_iff_eq.mp hlast
  refine ⟨⟨?_, List.isChain_append.mpr ⟨h.2, List.isChain_singleton _, ?_⟩⟩, by simp [started]⟩
  · cases marks with
    | nil => cases hlast'
    | cons m marks => exact h.1
  · intro x hx y hy heq
    rw [hlast', Option.mem_some_iff] at hx
    rw [List.head?_cons, Option.mem_some_iff] at hy
    rw [← hx, ← hy] at heq
    cases heq

/-! ## What is still to be emitted -/

/-- The pass has set the flag and not emitted the start. -/
def DrainPhase.announces : DrainPhase β → Bool
  | .announcing _ => true
  | _ => false

/-- The pass has ended speaking and not emitted the end. -/
def DrainPhase.was : DrainPhase β → Bool
  | .aborted was | .quieted was => was
  | _ => false

/-- The pass neither reads nor changes the flag, and emits neither a start nor an end. -/
def DrainPhase.aside : DrainPhase β → Bool
  | .captured | .starting _ | .announcing _ | .aborting | .aborted _ | .quieting | .quieted _ => false
  | _ => true

/-- The pass has read the flag and found it clear, and has not set it. -/
def DrainPass.quiet (d : DrainPass β) : Bool :=
  match d.phase with
  | .captured | .announcing _ => false
  | .starting _ => true
  | _ => !d.agentStartEmitted

theorem DrainPass.aside_quiet {d : DrainPass β} (h : d.phase.aside = true) :
    d.phase.was = false ∧ d.phase.announces = false ∧ d.quiet = !d.agentStartEmitted := by
  obtain ⟨phase, generation, startEmitted, playedAny, carry, left⟩ := d
  cases phase with
  | captured | starting _ | announcing _ | aborting | aborted _ | quieting | quieted _ => cases h
  | _ => exact ⟨rfl, rfl, rfl⟩

namespace Playback

def announcing (p : Playback β) : Bool := p.pass.any fun d => d.phase.announces

/-- The ends that were decided and not emitted. -/
def owedEnds (p : Playback β) : Nat :=
  p.enders.countP Ender.ended + (p.pass.any fun d => d.phase.was).toNat

/-- The drain sets the flag when no end is to come, and no call clears it before the start. -/
def InTurn (p : Playback β) : PlaybackInput β → Prop
  | .drain => ∀ d frames, p.pass = some d → d.phase = .starting frames → p.owedEnds = 0
  | .ender k => ∀ e todo, p.enders[k]? = some e → e.todo = .endSpeaking :: todo →
      p.announcing = false
  | _ => True

/-- The flag and the ends to come, against the starts and ends emitted. -/
structure Speaks (p : Playback β) (out : List (PlaybackEvent β)) : Prop where
  alternates : Alternates (speakingMarks out)
  balance : p.agentSpeaking.toNat + p.owedEnds =
    (started (speakingMarks out)).toNat + p.announcing.toNat
  announces : p.announcing = true → p.agentSpeaking = true ∧ p.owedEnds = 0
  silent : ∀ d, p.pass = some d → d.quiet = true → p.agentSpeaking = false
  once : ∀ e ∈ p.enders, e.todo.count .endSpeaking + e.ended.toNat ≤ 1

theorem Speaks.new : Speaks (.new : Playback β) [] where
  alternates := ⟨by simp [speakingMarks], List.isChain_nil⟩
  balance := rfl
  announces := fun h => by cases h
  silent := fun d hd => by cases hd
  once := fun e he => absurd he List.not_mem_nil

/-! ## A step -/

variable {p p' : Playback β} {d : DrainPass β} {out es : List (PlaybackEvent β)}

theorem marks_append (out es : List (PlaybackEvent β)) :
    speakingMarks (out ++ es) = speakingMarks out ++ speakingMarks es :=
  List.filterMap_append

theorem announcing_some (hd : p.pass = some d) : p.announcing = d.phase.announces := by
  rw [announcing, hd]
  rfl

theorem owedEnds_some (hd : p.pass = some d) :
    p.owedEnds = p.enders.countP Ender.ended + d.phase.was.toNat := by
  rw [owedEnds, hd]
  rfl

section

variable (h : Speaks p out)
include h

theorem Speaks.keep (hmarks : speakingMarks es = []) (hflag : p'.agentSpeaking = p.agentSpeaking)
    (howed : p'.owedEnds = p.owedEnds) (hann : p'.announcing = p.announcing)
    (hsilent : ∀ d, p'.pass = some d → d.quiet = true → p.agentSpeaking = false)
    (honce : ∀ e ∈ p'.enders, e.todo.count .endSpeaking + e.ended.toNat ≤ 1) :
    Speaks p' (out ++ es) := by
  have hsame : speakingMarks (out ++ es) = speakingMarks out := by
    rw [marks_append, hmarks, List.append_nil]
  refine ⟨?_, ?_, ?_, ?_, honce⟩
  · rw [hsame]
    exact h.alternates
  · rw [hsame, hflag, howed, hann]
    exact h.balance
  · rw [hflag, howed, hann]
    exact h.announces
  · rw [hflag]
    exact hsilent

theorem Speaks.clear (hann : p.announcing = false) (hflag : p'.agentSpeaking = false)
    (howed : p'.owedEnds = p.owedEnds + p.agentSpeaking.toNat) (hann' : p'.announcing = false)
    (honce : ∀ e ∈ p'.enders, e.todo.count .endSpeaking + e.ended.toNat ≤ 1) :
    Speaks p' (out ++ []) := by
  have hbalance := h.balance
  rw [List.append_nil]
  refine ⟨h.alternates, ?_, ?_, fun _ _ _ => hflag, honce⟩
  · rw [hflag, howed, hann', Bool.toNat_false]
    rw [hann, Bool.toNat_false] at hbalance
    omega
  · rw [hann']
    exact (fun h => by cases h)

theorem Speaks.stop (hmarks : speakingMarks es = [false])
    (hflag : p'.agentSpeaking = p.agentSpeaking) (howed : p.owedEnds = p'.owedEnds + 1)
    (hann : p'.announcing = p.announcing)
    (hsilent : ∀ d, p'.pass = some d → d.quiet = true → p.agentSpeaking = false)
    (honce : ∀ e ∈ p'.enders, e.todo.count .endSpeaking + e.ended.toNat ≤ 1) :
    Speaks p' (out ++ es) := by
  have hbalance := h.balance
  have hquiet : p.announcing = false := by
    cases hp : p.announcing with
    | false => rfl
    | true =>
      have := (h.announces hp).2
      omega
  rw [hquiet, howed, Bool.toNat_false] at hbalance
  have hstarted : started (speakingMarks out) = true := by
    cases hp : started (speakingMarks out) with
    | true => rfl
    | false =>
      rw [hp, Bool.toNat_false] at hbalance
      omega
  obtain ⟨halt, hstop⟩ := h.alternates.stop hstarted
  have hsame : speakingMarks (out ++ es) = speakingMarks out ++ [false] := by
    rw [marks_append, hmarks]
  refine ⟨?_, ?_, ?_, ?_, honce⟩
  · rw [hsame]
    exact halt
  · rw [hsame, hstop, hflag, hann, hquiet]
    rw [hstarted, Bool.toNat_true] at hbalance
    simp only [Bool.toNat_false]
    omega
  · rw [hann, hquiet]
    exact (fun h => by cases h)
  · rw [hflag]
    exact hsilent

theorem Speaks.set (hquiet : p.agentSpeaking = false) (howed : p.owedEnds = 0)
    (hann : p.announcing = false) (hflag : p'.agentSpeaking = true) (howed' : p'.owedEnds = 0)
    (hann' : p'.announcing = true) (hmay : ∀ d, p'.pass = some d → d.quiet = false)
    (honce : ∀ e ∈ p'.enders, e.todo.count .endSpeaking + e.ended.toNat ≤ 1) :
    Speaks p' (out ++ []) := by
  have hbalance := h.balance
  rw [hquiet, howed, hann, Bool.toNat_false] at hbalance
  rw [List.append_nil]
  refine ⟨h.alternates, ?_, fun _ => ⟨hflag, howed'⟩, fun d hd hphase => ?_, honce⟩
  · rw [hflag, howed', hann', Bool.toNat_true]
    omega
  · rw [hmay d hd] at hphase
    cases hphase

theorem Speaks.start (hann : p.announcing = true) (hflag : p'.agentSpeaking = p.agentSpeaking)
    (howed : p'.owedEnds = p.owedEnds) (hann' : p'.announcing = false)
    (hmay : ∀ d, p'.pass = some d → d.quiet = false)
    (honce : ∀ e ∈ p'.enders, e.todo.count .endSpeaking + e.ended.toNat ≤ 1) :
    Speaks p' (out ++ [.agentSpeakingStart]) := by
  obtain ⟨hspeaking, hnone⟩ := h.announces hann
  have hbalance := h.balance
  rw [hspeaking, hnone, hann, Bool.toNat_true] at hbalance
  have hstarted : started (speakingMarks out) = false := by
    cases hp : started (speakingMarks out) with
    | false => rfl
    | true =>
      rw [hp, Bool.toNat_true] at hbalance
      omega
  obtain ⟨halt, hstart⟩ := h.alternates.start hstarted
  have hsame : speakingMarks (out ++ [.agentSpeakingStart]) = speakingMarks out ++ [true] :=
    marks_append _ _
  refine ⟨?_, ?_, ?_, fun d hd hquiet => ?_, honce⟩
  · rw [hsame]
    exact halt
  · rw [hsame, hstart, hflag, hspeaking, howed, hnone, hann']
    rfl
  · rw [hann']
    exact (fun h => by cases h)
  · rw [hmay d hd] at hquiet
    cases hquiet

end

/-! ## The steps of the pass -/

theorem onFrames_aside (d : DrainPass β) (frames : List (StereoFrame β)) :
    (d.onFrames frames).phase.was = false ∧ (d.onFrames frames).phase.announces = false ∧
      (d.onFrames frames).quiet = !d.agentStartEmitted := by
  obtain ⟨phase, generation, startEmitted, playedAny, carry, left⟩ := d
  cases frames with
  | nil => cases left <;> exact ⟨rfl, rfl, rfl⟩
  | cons frame frames => cases startEmitted <;> exact ⟨rfl, rfl, rfl⟩

theorem leaveLoop_aside (d : DrainPass β) :
    d.leaveLoop.phase.was = false ∧ d.leaveLoop.phase.announces = false ∧
      d.leaveLoop.quiet = !d.agentStartEmitted := by
  obtain ⟨phase, generation, startEmitted, playedAny, carry, left⟩ := d
  cases carry <;> exact ⟨rfl, rfl, rfl⟩

theorem marks_replyTransitions (ts : List ReplyTransition) :
    speakingMarks (ts.map PlaybackEvent.replyTransition : List (PlaybackEvent β)) = [] := by
  induction ts with
  | nil => rfl
  | cons t ts ih => exact ih

/-- Most steps of the pass leave the flag and the events of speaking alone. -/
structure LeavesSpeaking (p : Playback β) (d : DrainPass β) (r : Playback β × List (PlaybackEvent β)) :
    Prop where
  flag : r.1.agentSpeaking = p.agentSpeaking
  enders : r.1.enders = p.enders
  marks : speakingMarks r.2 = []
  pass : ∀ d', r.1.pass = some d' → d'.phase.was = false ∧ d'.phase.announces = false ∧
    d'.quiet = !d.agentStartEmitted

theorem stepDrain_aside (p : Playback β) (d : DrainPass β) (h : d.phase.aside = true) :
    LeavesSpeaking p d (p.stepDrain d) := by
  obtain ⟨phase, generation, startEmitted, playedAny, carry, left⟩ := d
  cases phase with
  | captured | starting _ | announcing _ | aborting | aborted _ | quieting | quieted _ => cases h
  | popping =>
    rw [stepDrain]
    rw [TtsBuffer.popChunkMarking]
    cases p.buffer.queue with
    | nil => exact ⟨rfl, rfl, rfl, fun d' hd' => by cases hd'; exact ⟨rfl, rfl, rfl⟩⟩
    | cons chunk rest => exact ⟨rfl, rfl, rfl, fun d' hd' => by cases hd'; exact onFrames_aside _ _⟩
  | starved | pausing =>
    refine ⟨rfl, rfl, rfl, fun d' hd' => ?_⟩
    cases hd'
    split
    · exact ⟨rfl, rfl, rfl⟩
    · exact leaveLoop_aside _
  | checking frames =>
    cases frames with
    | nil => exact ⟨rfl, rfl, rfl, fun d' hd' => by cases hd'; exact onFrames_aside _ _⟩
    | cons frame frames =>
      rw [stepDrain]
      dsimp only
      split <;> exact ⟨rfl, rfl, rfl, fun d' hd' => by cases hd'; exact ⟨rfl, rfl, rfl⟩⟩
  | booking bytes frames =>
    exact ⟨rfl, rfl, marks_replyTransitions _, fun d' hd' => by cases hd'; exact ⟨rfl, rfl, rfl⟩⟩
  | pacing slept frames =>
    refine ⟨rfl, rfl, rfl, fun d' hd' => ?_⟩
    cases hd'
    split
    · exact ⟨rfl, rfl, rfl⟩
    · split
      · exact onFrames_aside _ _
      · exact ⟨rfl, rfl, rfl⟩
  | trailing =>
    refine ⟨rfl, rfl, rfl, fun d' hd' => ?_⟩
    cases hd'
    cases p.buffer.producing <;> exact ⟨rfl, rfl, rfl⟩
  | padding =>
    refine ⟨rfl, rfl, rfl, fun d' hd' => ?_⟩
    cases hd'
    split
    · exact onFrames_aside _ _
    · exact ⟨rfl, rfl, rfl⟩
  | ending =>
    rw [stepDrain]
    dsimp only
    split
    · exact ⟨rfl, rfl, rfl, fun d' hd' => by cases hd'; exact ⟨rfl, rfl, rfl⟩⟩
    · split
      · exact ⟨rfl, rfl, rfl, fun d' hd' => by cases hd'; exact ⟨rfl, rfl, rfl⟩⟩
      · exact ⟨rfl, rfl, rfl, fun d' hd' => by cases hd'⟩
  | settling =>
    rw [stepDrain]
    dsimp only
    split
    · exact ⟨rfl, rfl, marks_replyTransitions _, fun d' hd' => by cases hd'; exact ⟨rfl, rfl, rfl⟩⟩
    · exact ⟨rfl, rfl, marks_replyTransitions _, fun d' hd' => by cases hd'⟩
  | finishing =>
    rw [stepDrain]
    dsimp only
    split
    · exact ⟨rfl, rfl, rfl, fun d' hd' => by cases hd'⟩
    · exact ⟨rfl, rfl, rfl, fun d' hd' => by cases hd'; exact ⟨rfl, rfl, rfl⟩⟩
  | storing => exact ⟨rfl, rfl, rfl, fun d' hd' => by cases hd'⟩
  | taking | closing => exact ⟨rfl, rfl, rfl, fun d' hd' => by cases hd'; exact ⟨rfl, rfl, rfl⟩⟩

theorem Speaks.aside (h : Speaks p out) (hd : p.pass = some d) (haside : d.phase.aside = true) :
    Speaks (p.stepDrain d).1 (out ++ (p.stepDrain d).2) := by
  obtain ⟨hflag, henders, hmarks, hpass⟩ := p.stepDrain_aside d haside
  obtain ⟨hwas, hann, hquiet⟩ := DrainPass.aside_quiet haside
  refine h.keep hmarks hflag ?_ ?_ (fun d' hd' hq => ?_) ?_
  · rw [owedEnds_some hd, owedEnds, henders, hwas]
    cases hnext : (p.stepDrain d).1.pass with
    | none => rfl
    | some d' => rw [Option.any_some, (hpass d' hnext).1]
  · rw [announcing_some hd, announcing, hann]
    cases hnext : (p.stepDrain d).1.pass with
    | none => rfl
    | some d' => rw [Option.any_some, (hpass d' hnext).2.1]
  · rw [(hpass d' hd').2.2, ← hquiet] at hq
    exact h.silent d hd hq
  · rw [henders]
    exact h.once

theorem Speaks.endPass (h : Speaks p out) (hd : p.pass = some d)
    (hann : d.phase.announces = false) :
    Speaks p.endPass (out ++ endEvent d.phase.was) := by
  have howed : p.owedEnds = p.endPass.owedEnds + d.phase.was.toNat := owedEnds_some hd
  have hsame : p.endPass.announcing = p.announcing := by
    rw [announcing_some hd, hann]
    rfl
  cases hwas : d.phase.was with rw [hwas] at howed
  | true =>
    exact h.stop rfl rfl howed hsame (fun d' hd' => by cases hd') h.once
  | false =>
    exact h.keep rfl rfl howed.symm hsame (fun d' hd' => by cases hd') h.once

theorem writes_checking (h : (p.writes d).isSome = true) : ∃ frames, d.phase = .checking frames := by
  rw [writes] at h
  split at h
  · exact ⟨_, by assumption⟩
  · cases h

theorem Speaks.endChecking (h : Speaks p out) (hd : p.pass = some d)
    (hphase : ∃ frames, d.phase = .checking frames) : Speaks p.endPass out := by
  obtain ⟨frames, hphase⟩ := hphase
  have hend := h.endPass hd (by rw [hphase]; rfl)
  rw [hphase] at hend
  simpa [DrainPhase.was, endEvent] using hend

theorem Speaks.quiet (h : Speaks p out) (hd : p.pass = some d) {phase : DrainPhase β}
    (hann : d.phase.announces = false) (hwas : d.phase.was = false)
    (hnext : phase.was = p.agentSpeaking) (hann' : phase.announces = false) :
    Speaks ({ p with agentSpeaking := false }.withPass (d.goto phase)) (out ++ []) := by
  refine h.clear ((announcing_some hd).trans hann) rfl ?_ hann' h.once
  have howed := owedEnds_some hd
  rw [hwas] at howed
  rw [howed, ← hnext]
  rfl

theorem Speaks.drain (h : Speaks p out) (hd : p.pass = some d) (hm : p.InTurn .drain) :
    Speaks (p.stepDrain d).1 (out ++ (p.stepDrain d).2) := by
  cases hphase : d.phase with
  | captured =>
    rw [stepDrain, hphase]
    have howed := owedEnds_some hd
    have hann := announcing_some hd
    rw [hphase] at howed hann
    refine h.keep rfl rfl howed.symm hann.symm (fun d' hd' hquiet => ?_) h.once
    cases hd'
    simpa [DrainPass.quiet] using hquiet
  | starting frames =>
    have hnone := hm d frames hd hphase
    have howed := owedEnds_some hd
    have hann := announcing_some hd
    rw [hphase] at howed hann
    have hquiet : d.quiet = true := by rw [DrainPass.quiet, hphase]
    rw [stepDrain, hphase]
    exact h.set (h.silent d hd hquiet) hnone hann rfl (howed.symm.trans hnone) rfl
      (fun d' hd' => by cases hd'; rfl) h.once
  | announcing frames =>
    have howed := owedEnds_some hd
    have hann := announcing_some hd
    rw [hphase] at howed hann
    rw [stepDrain, hphase]
    exact h.start hann rfl howed.symm rfl (fun d' hd' => by cases hd'; rfl) h.once
  | aborting | quieting =>
    rw [stepDrain, hphase]
    exact h.quiet hd (by rw [hphase]; rfl) (by rw [hphase]; rfl) rfl rfl
  | aborted was | quieted was =>
    have hend := h.endPass hd (by rw [hphase]; rfl)
    rw [stepDrain, hphase]
    rw [hphase] at hend
    exact hend
  | _ => exact h.aside hd (by rw [hphase]; rfl)

/-! ## The other steps -/

theorem owed_set {enders : List Ender} {k : Nat} {e : Ender} (hk : enders[k]? = some e)
    (e' : Ender) : (enders.set k e').countP Ender.ended + e.ended.toNat =
      enders.countP Ender.ended + e'.ended.toNat := by
  induction enders generalizing k with
  | nil => cases hk
  | cons a enders ih =>
    cases k with
    | zero =>
      rw [List.getElem?_cons_zero, Option.some.injEq] at hk
      subst hk
      rw [List.set_cons_zero, List.countP_cons, List.countP_cons]
      cases a.ended <;> cases e'.ended <;> simp
    | succ k =>
      rw [List.getElem?_cons_succ] at hk
      have hrest := ih hk
      rw [List.set_cons_succ, List.countP_cons, List.countP_cons]
      omega

theorem once_set {enders : List Ender} {k : Nat} {e' : Ender}
    (h : ∀ e ∈ enders, e.todo.count .endSpeaking + e.ended.toNat ≤ 1)
    (he' : e'.todo.count .endSpeaking + e'.ended.toNat ≤ 1) :
    ∀ e ∈ enders.set k e', e.todo.count .endSpeaking + e.ended.toNat ≤ 1 := by
  intro e he
  rcases List.mem_or_eq_of_mem_set he with he | rfl
  · exact h e he
  · exact he'

theorem Speaks.beside (h : Speaks p out) (hmarks : speakingMarks es = [])
    (hflag : p'.agentSpeaking = p.agentSpeaking) (hpass : p'.pass = p.pass)
    (howed : p'.enders.countP Ender.ended = p.enders.countP Ender.ended)
    (honce : ∀ e ∈ p'.enders, e.todo.count .endSpeaking + e.ended.toNat ≤ 1) :
    Speaks p' (out ++ es) := by
  refine h.keep hmarks hflag ?_ ?_ ?_ honce
  · rw [owedEnds, owedEnds, howed, hpass]
  · rw [announcing, announcing, hpass]
  · rw [hpass]
    exact h.silent

theorem marks_flushed (rs : List FlushedReply) :
    speakingMarks (rs.map PlaybackEvent.replyFlushed : List (PlaybackEvent β)) = [] := by
  induction rs with
  | nil => rfl
  | cons r rs ih => exact ih

theorem Speaks.ender (h : Speaks p out) {k : Nat} {e : Ender} (hk : p.enders[k]? = some e)
    (hm : p.InTurn (.ender k)) (hs : p.stepEnder k e = some (p', es)) : Speaks p' (out ++ es) := by
  have honce := h.once e (List.mem_of_getElem? hk)
  rw [stepEnder] at hs
  split at hs
  · cases hs
  · next todo htodo =>
    have hann := hm e todo hk htodo
    have howed := owed_set hk ⟨todo, p.agentSpeaking⟩
    rw [htodo, List.count_cons_self] at honce
    have hended : e.ended = false := by
      cases hended : e.ended with
      | false => rfl
      | true =>
        rw [hended, Bool.toNat_true] at honce
        omega
    rw [hended, Bool.toNat_false] at howed
    cases hs
    refine h.clear hann rfl ?_ hann (once_set h.once ?_)
    · rw [owedEnds, owedEnds]
      dsimp only at howed ⊢
      omega
    · have := p.agentSpeaking.toNat_le
      dsimp only
      omega
  · next todo htodo =>
    rw [htodo, List.count_cons_of_ne (by decide)] at honce
    have howed := owed_set hk ⟨todo, e.ended⟩
    cases hs
    exact h.beside rfl rfl rfl (Nat.add_right_cancel howed) (once_set h.once honce)
  · next todo htodo =>
    rw [htodo, List.count_cons_of_ne (by decide)] at honce
    have howed := owed_set hk ⟨todo, e.ended⟩
    cases hs
    exact h.beside (marks_flushed _) rfl rfl (Nat.add_right_cancel howed) (once_set h.once honce)
  · next event todo htodo =>
    rw [htodo, List.count_cons_of_ne (by simp)] at honce
    have howed := owed_set hk ⟨todo, e.ended⟩
    cases hs
    exact h.beside rfl rfl rfl (Nat.add_right_cancel howed) (once_set h.once honce)
  · next todo htodo =>
    rw [htodo, List.count_cons_of_ne (by decide)] at honce
    have howed := owed_set hk ⟨todo, false⟩
    have honce' := @once_set p.enders k ⟨todo, false⟩ h.once (by
      dsimp only
      rw [Bool.toNat_false]
      omega)
    cases hs
    cases hended : e.ended with
    | false =>
      rw [hended] at howed
      exact h.beside rfl rfl rfl (Nat.add_right_cancel howed) honce'
    | true =>
      rw [hended, Bool.toNat_true, Bool.toNat_false] at howed
      refine h.stop rfl rfl ?_ rfl h.silent honce'
      rw [owedEnds, owedEnds]
      dsimp only at howed ⊢
      omega

theorem calls_once {todo : List EnderStep} (h : todo = bargeInSteps true ∨
    todo = bargeInSteps false ∨ todo = flushTtsSteps ∨ todo = abortSteps) :
    todo.count .endSpeaking ≤ 1 := by
  rcases h with rfl | rfl | rfl | rfl <;> decide

theorem Speaks.called (h : Speaks p out) {todo : List EnderStep}
    (htodo : todo.count .endSpeaking ≤ 1) (hflag : p'.agentSpeaking = p.agentSpeaking)
    (hpass : p'.pass = p.pass) (henders : p'.enders = p.enders ++ [⟨todo, false⟩]) :
    Speaks p' (out ++ []) := by
  refine h.beside rfl hflag hpass ?_ fun e he => ?_
  · rw [henders, List.countP_append]
    rfl
  · rw [henders] at he
    rcases List.mem_append.mp he with he | he
    · exact h.once e he
    · rw [List.mem_singleton.mp he]
      exact htodo

theorem Speaks.step {i : PlaybackInput β} (h : Speaks p out) (hm : p.InTurn i)
    (hs : p.step i = some (p', es)) : Speaks p' (out ++ es) := by
  cases i with rw [Playback.step] at hs
  | begin =>
    split_ifs at hs with hnone
    have hp : p.pass = none := Option.isNone_iff_eq_none.mp hnone
    cases hs
    refine h.keep rfl rfl ?_ ?_ (fun d hd hquiet => ?_) h.once
    · rw [owedEnds, owedEnds, hp]
      rfl
    · rw [announcing, announcing, hp]
      rfl
    · cases hd
      cases hquiet
  | drain =>
    rw [Option.map_eq_some_iff] at hs
    obtain ⟨d, hd, heq⟩ := hs
    have hdrain := h.drain hd hm
    rw [heq] at hdrain
    exact hdrain
  | writeFails =>
    split_ifs at hs with hwrites
    cases hd : p.pass with rw [hd] at hwrites
    | none =>
      cases hwrites
    | some d =>
      cases hs
      exact (h.endChecking hd (writes_checking hwrites)).called (by decide) rfl rfl rfl
  | enqueue chunks expect reply =>
    rw [TtsBuffer.enqueueTaggedIfGeneration] at hs
    split at hs
    all_goals
      cases hs
      exact h.beside rfl rfl rfl rfl h.once
  | setProducing producing | markReplyComplete id | flush =>
    cases hs
    exact h.beside rfl rfl rfl rfl h.once
  | call todo =>
    split_ifs at hs with htodo
    cases hs
    exact h.called (calls_once htodo) rfl rfl rfl
  | ender k =>
    rw [Option.bind_eq_some_iff] at hs
    obtain ⟨e, hk, hs⟩ := hs
    exact h.ender hk hm hs

theorem run_speaks {inputs : List (PlaybackInput β)} (ha : Along Playback.step InTurn .new inputs)
    (hr : run Playback.step .new inputs = some (p, out)) : Speaks p out :=
  run_history (I := fun _ out p => Speaks p out) (fun _ _ _ _ _ _ h hm hs => h.step hm hs)
    Speaks.new ha hr

theorem InTurn.drain (h : p.owedEnds = 0) : p.InTurn .drain := fun _ _ _ _ => h

theorem InTurn.ender {k : Nat} (h : p.announcing = false) : p.InTurn (.ender k) :=
  fun _ _ _ _ => h

end Playback

/-! ## The events -/

/-- Where the drain and the calls take turns, starts and ends alternate, and after an end the
flag is clear until the drain has set it for the start it emits next. -/
theorem speaking_events_alternate {inputs : List (PlaybackInput β)} {p : Playback β}
    {out : List (PlaybackEvent β)} (hr : run Playback.step .new inputs = some (p, out))
    (ha : Along Playback.step Playback.InTurn .new inputs) :
    Alternates (speakingMarks out) ∧
      ((speakingMarks out).getLast? = some false → p.agentSpeaking = true →
        p.announcing = true) := by
  have h := Playback.run_speaks ha hr
  refine ⟨h.alternates, fun hlast hflag => ?_⟩
  have hbalance := h.balance
  rw [hflag, started, hlast] at hbalance
  cases hann : p.announcing with
  | true => rfl
  | false =>
    rw [hann] at hbalance
    simp at hbalance

def bargedReply : List (PlaybackInput Nat) :=
  [.enqueue [⟨[1], 0⟩] none none, .begin] ++ List.replicate 9 .drain ++
    [.call (bargeInSteps true)] ++ List.replicate 5 (.ender 0)

theorem speaking_events_alternate_barged : ∃ (p : Playback Nat) (out : List (PlaybackEvent Nat)),
    run Playback.step .new bargedReply = some (p, out) ∧
    speakingMarks out = [true, false] ∧
    Alternates (speakingMarks out) ∧
      ((speakingMarks out).getLast? = some false → p.agentSpeaking = true →
        p.announcing = true) :=
  ⟨_, _, rfl, rfl, @speaking_events_alternate Nat bargedReply _ _ rfl
    (Along.cons trivial rfl (Along.cons trivial rfl
      (Along.cons (.drain rfl) rfl (Along.cons (.drain rfl) rfl (Along.cons (.drain rfl) rfl
        (Along.cons (.drain rfl) rfl (Along.cons (.drain rfl) rfl (Along.cons (.drain rfl) rfl
          (Along.cons (.drain rfl) rfl (Along.cons (.drain rfl) rfl (Along.cons (.drain rfl) rfl
            (Along.cons trivial rfl
              (Along.cons (.ender rfl) rfl (Along.cons (.ender rfl) rfl
                (Along.cons (.ender rfl) rfl (Along.cons (.ender rfl) rfl
                  (Along.cons (.ender rfl) rfl trivial)))))))))))))))))⟩

/-- A barge-in has cleared the flag and flushed, and its end comes after the drain has started
the next reply: a start follows a start, and after the end the flag is set. -/
theorem speaking_events_alternate_late_end : ∃ (p : Playback Nat) (out : List (PlaybackEvent Nat)),
    run Playback.step .new
      ([.enqueue [⟨[1], 0⟩] none none, .begin] ++ List.replicate 9 .drain ++
        [.call (bargeInSteps true), .ender 0, .ender 0, .drain, .drain, .drain,
          .enqueue [⟨[2], 0⟩] none none, .begin] ++ List.replicate 9 .drain ++
        List.replicate 3 (.ender 0)) = some (p, out) ∧
    speakingMarks out = [true, true, false] ∧ ¬ Alternates (speakingMarks out) ∧
    p.agentSpeaking = true ∧ p.announcing = false :=
  ⟨_, _, rfl, rfl, fun h => absurd h.2 (by decide), rfl, rfl⟩

end NodeWebrtc.Speech
