import Mathlib.Data.List.Forall2
import NodeWebrtc.Lib.Machine
import NodeWebrtc.Mixer.Elastic

/-! # What the frames of an elastic queue are made of

Every frame the queue plays is one pushed frame or a merge of neighbours. Read in order,
the parts of the played frames and then of the queued ones are the pushed frames.
-/

namespace NodeWebrtc.Mixer

variable {D : MixDsp}

/-- `f` is one pushed frame, or neighbouring ones merged pair by pair. -/
inductive MadeOf (D : MixDsp) : Frame → List Frame → Prop where
  | one (f : Frame) : MadeOf D f [f]
  | merge {a b : Frame} {parts more : List Frame} (ha : MadeOf D a parts) (hb : MadeOf D b more) :
      MadeOf D (D.mergePair a b) (parts ++ more)

/-- What one `pop` gave: a source frame, a concealment, or neither. -/
inductive PopOutput where
  | played (f : Frame)
  | concealed (f : Frame)
  | silent (f : Frame)
deriving DecidableEq

inductive ElasticOp where
  | push (frame : Frame) (now : Instant)
  | pop
deriving DecidableEq

namespace PopOutput

def isSilent : PopOutput → Bool
  | .silent _ => true
  | _ => false

end PopOutput

/-- The valid frames of the pushes, in push order. -/
def validPushed (ops : List ElasticOp) : List Frame :=
  ops.flatMap fun
    | .push frame _ => if frame.isValid then [frame] else []
    | .pop => []

def playedFrames (outs : List PopOutput) : List Frame :=
  outs.flatMap fun
    | .played f => [f]
    | _ => []

/-- A concealment fades the last frame played before it, and only silence stands between. -/
def ConcealsOnce (D : MixDsp) (outs : List PopOutput) : Prop :=
  ∀ pre f post, outs = pre ++ .concealed f :: post →
    ∃ before p silence, pre = before ++ .played p :: silence ∧ f = D.fadeOut p ∧
      ∀ o ∈ silence, o.isSilent = true

namespace ElasticFrameQueue

/-- The output of a `pop`, told by the counter it raised. -/
def popOutput (q : ElasticFrameQueue D) : PopOutput :=
  if q.played < q.pop.2.played then .played q.pop.1
  else if q.concealed < q.pop.2.concealed then .concealed q.pop.1
  else .silent q.pop.1

def step (q : ElasticFrameQueue D) : ElasticOp → Option (ElasticFrameQueue D × List PopOutput)
  | .push frame now => some (q.push frame now, [])
  | .pop => some (q.pop.2, [q.popOutput])

/-! ## One operation -/

structure Books (q q' : ElasticFrameQueue D) (played compressed concealed : Nat) : Prop where
  pushed : q'.pushed = q.pushed
  overflowCompressed : q'.overflowCompressed = q.overflowCompressed
  played : q'.played = q.played + played
  compressed : q'.compressed = q.compressed + compressed
  concealed : q'.concealed = q.concealed + concealed

/-- What one `pop` can do: play the oldest frame, play the two oldest merged, fade the last
played frame on the first empty tick, or keep silent. -/
inductive Pops (q q' : ElasticFrameQueue D) : Frame → PopOutput → Prop where
  | single (first : Frame) (hframes : q.frames = first :: q'.frames) (hbooks : Books q q' 1 0 0)
      (hlast : q'.lastPlayed = some first) : Pops q q' first (.played first)
  | merged (first second : Frame) (hframes : q.frames = first :: second :: q'.frames)
      (hbooks : Books q q' 1 1 0) (hlast : q'.lastPlayed = some (D.mergePair first second)) :
      Pops q q' (D.mergePair first second) (.played (D.mergePair first second))
  | concealed (last : Frame) (hfirst : q.emptyTicks = 0) (hplayed : q.lastPlayed = some last)
      (hframes : q'.frames = q.frames) (hbooks : Books q q' 0 0 1) (hempty : q'.emptyTicks ≠ 0) :
      Pops q q' (D.fadeOut last) (.concealed (D.fadeOut last))
  | silent (hframes : q'.frames = q.frames) (hbooks : Books q q' 0 0 0)
      (hlast : q'.lastPlayed = q.lastPlayed) (hempty : q'.emptyTicks = 0 → q.emptyTicks = 0) :
      Pops q q' silenceFrame (.silent silenceFrame)

theorem underrun_pops (q : ElasticFrameQueue D) : ∃ o, Pops q q.underrun.2 q.underrun.1 o := by
  unfold underrun
  by_cases hfirst : q.emptyTicks = 0
  · rw [hfirst]
    cases hlast : q.lastPlayed with
    | some last =>
      exact ⟨_, .concealed last hfirst hlast rfl ⟨rfl, rfl, rfl, rfl, rfl⟩ (Nat.succ_ne_zero 0)⟩
    | none => exact ⟨_, .silent rfl ⟨rfl, rfl, rfl, rfl, rfl⟩ hlast.symm fun _ => hfirst⟩
  · have hlater : ¬ q.emptyTicks + 1 = 1 := by omega
    dsimp only
    rw [if_neg hlater]
    by_cases hagain : REPREFILL_AFTER_EMPTY_TICKS ≤ q.emptyTicks + 1
    · rw [if_pos hagain]
      exact ⟨_, .silent rfl ⟨rfl, rfl, rfl, rfl, rfl⟩ rfl fun h => absurd h (Nat.succ_ne_zero _)⟩
    · rw [if_neg hagain]
      exact ⟨_, .silent rfl ⟨rfl, rfl, rfl, rfl, rfl⟩ rfl fun h => absurd h (Nat.succ_ne_zero _)⟩

variable {q : ElasticFrameQueue D}

theorem Pops.ofPrepared {p q' : ElasticFrameQueue D} {f : Frame} {o : PopOutput} (h : Pops p q' f o)
    (hframes : p.frames = q.frames) (hbooks : Books q p 0 0 0) (hlast : p.lastPlayed = q.lastPlayed)
    (hempty : p.emptyTicks = q.emptyTicks) :
    Pops q q' f o := by
  have hadd : ∀ {a b c : Nat}, Books p q' a b c → Books q q' a b c := fun hb => by
    refine ⟨hb.pushed.trans hbooks.pushed, hb.overflowCompressed.trans hbooks.overflowCompressed,
      ?_, ?_, ?_⟩
    · rw [hb.played, hbooks.played, Nat.add_zero]
    · rw [hb.compressed, hbooks.compressed, Nat.add_zero]
    · rw [hb.concealed, hbooks.concealed, Nat.add_zero]
  cases h with
  | single _ h1 h2 h3 => exact .single _ (hframes ▸ h1) (hadd h2) h3
  | merged a b h1 h2 h3 => exact .merged a b (hframes ▸ h1) (hadd h2) h3
  | concealed last h1 h2 h3 h4 h5 =>
    exact .concealed last (hempty ▸ h1) (hlast ▸ h2) (h3.trans hframes) (hadd h4) h5
  | silent h1 h2 h3 h4 =>
    exact .silent (h1.trans hframes) (hadd h2) (h3.trans hlast) fun h => hempty ▸ h4 h

section

variable (q)

theorem popReady_pops : ∃ o, Pops q q.popReady.2 q.popReady.1 o := by
  unfold popReady
  generalize (if q.target + SHRINK_MARGIN_FRAMES < q.frames.length then q.overTicks + 1 else 0) =
    overTicks
  cases hframes : q.frames with
  | nil =>
    obtain ⟨o, hpops⟩ := underrun_pops { q with overTicks := overTicks, frames := [] }
    exact ⟨o, hpops.ofPrepared hframes.symm ⟨rfl, rfl, rfl, rfl, rfl⟩ rfl rfl⟩
  | cons first rest =>
    cases rest with
    | nil => exact ⟨_, .single first hframes ⟨rfl, rfl, rfl, rfl, rfl⟩ rfl⟩
    | cons second rest =>
      dsimp only
      by_cases hslim : SHRINK_AFTER_TICKS ≤ overTicks
      · rw [if_pos hslim]
        exact ⟨_, .merged first second hframes ⟨rfl, rfl, rfl, rfl, rfl⟩ rfl⟩
      · rw [if_neg hslim]
        exact ⟨_, .single first hframes ⟨rfl, rfl, rfl, rfl, rfl⟩ rfl⟩

theorem pop_pops : ∃ o, Pops q q.pop.2 q.pop.1 o := by
  unfold pop
  by_cases hprefill : q.prefilling = true
  · rw [if_pos hprefill]
    generalize (if q.frames.isEmpty = true then q.prefillWaited else q.prefillWaited + 1) = waited
    by_cases hready : (!(decide (q.target ≤ q.frames.length) ||
        (!q.frames.isEmpty && decide (q.target ≤ waited)))) = true
    · rw [if_pos hready]
      exact ⟨_, .silent rfl ⟨rfl, rfl, rfl, rfl, rfl⟩ rfl id⟩
    · rw [if_neg hready]
      obtain ⟨o, hpops⟩ := popReady_pops { q with prefilling := false, prefillWaited := 0 }
      exact ⟨o, hpops.ofPrepared rfl ⟨rfl, rfl, rfl, rfl, rfl⟩ rfl rfl⟩
  · rw [if_neg hprefill]
    exact popReady_pops q

theorem popOutput_pops : Pops q q.pop.2 q.pop.1 q.popOutput := by
  obtain ⟨o, hpops⟩ := pop_pops q
  suffices heq : q.popOutput = o by
    rw [heq]
    exact hpops
  unfold popOutput
  generalize q.pop = popped at hpops ⊢
  obtain ⟨f, q'⟩ := popped
  cases hpops with
  | single _ _ hbooks _ | merged _ _ _ hbooks _ => exact if_pos (by rw [hbooks.played]; omega)
  | concealed last _ _ _ hbooks _ =>
    rw [if_neg (by rw [hbooks.played]; omega), if_pos (by rw [hbooks.concealed]; omega)]
  | silent _ hbooks _ _ =>
    rw [if_neg (by rw [hbooks.played]; omega), if_neg (by rw [hbooks.concealed]; omega)]
    rfl

end

/-- What a `push` of a valid frame can do: append it, or first merge the two oldest. -/
inductive Pushes (q q' : ElasticFrameQueue D) (frame : Frame) : Prop where
  | appended (hroom : q.frames.length < QUEUE_CAPACITY) (hframes : q'.frames = q.frames ++ [frame])
      (hoverflow : q'.overflowCompressed = q.overflowCompressed)
  | merged (a b : Frame) (rest : List Frame) (hfull : q.frames = a :: b :: rest)
      (hframes : q'.frames = D.mergePair a b :: rest ++ [frame])
      (hoverflow : q'.overflowCompressed = q.overflowCompressed + 1)

structure PushFrame (q q' : ElasticFrameQueue D) : Prop where
  played : q'.played = q.played
  compressed : q'.compressed = q.compressed
  lastPlayed : q'.lastPlayed = q.lastPlayed
  emptyTicks : q'.emptyTicks = q.emptyTicks

theorem updateJitter_eq (q : ElasticFrameQueue D) (now : Instant) :
    PushFrame q (q.updateJitter now) ∧ (q.updateJitter now).frames = q.frames ∧
      (q.updateJitter now).pushed = q.pushed ∧
      (q.updateJitter now).overflowCompressed = q.overflowCompressed := by
  unfold updateJitter
  cases q.lastArrival with
  | none => exact ⟨⟨rfl, rfl, rfl, rfl⟩, rfl, rfl, rfl⟩
  | some prev =>
    dsimp only
    split <;> exact ⟨⟨rfl, rfl, rfl, rfl⟩, rfl, rfl, rfl⟩

theorem makeRoom_eq (q : ElasticFrameQueue D) :
    PushFrame q q.makeRoom ∧ q.makeRoom.pushed = q.pushed ∧
      (q.frames.length < QUEUE_CAPACITY ∧ q.makeRoom = q ∨
        ∃ a b rest, q.frames = a :: b :: rest ∧
          q.makeRoom.frames = D.mergePair a b :: rest ∧
          q.makeRoom.overflowCompressed = q.overflowCompressed + 1) := by
  unfold makeRoom
  by_cases hfull : QUEUE_CAPACITY ≤ q.frames.length
  · rw [if_pos hfull]
    match hframes : q.frames with
    | [] | [_] =>
      rw [hframes] at hfull
      contradiction
    | a :: b :: rest => exact ⟨⟨rfl, rfl, rfl, rfl⟩, rfl, .inr ⟨a, b, rest, rfl, rfl, rfl⟩⟩
  · rw [if_neg hfull]
    exact ⟨⟨rfl, rfl, rfl, rfl⟩, rfl, .inl ⟨Nat.lt_of_not_le hfull, rfl⟩⟩

theorem PushFrame.trans {p q' : ElasticFrameQueue D} (h : PushFrame q p) (h' : PushFrame p q') :
    PushFrame q q' :=
  ⟨h'.played.trans h.played, h'.compressed.trans h.compressed, h'.lastPlayed.trans h.lastPlayed,
    h'.emptyTicks.trans h.emptyTicks⟩

theorem push_pushes (q : ElasticFrameQueue D) {frame : Frame} (hvalid : frame.isValid = true)
    (now : Instant) : PushFrame q (q.push frame now) ∧ (q.push frame now).pushed = q.pushed + 1 ∧
      Pushes q (q.push frame now) frame := by
  obtain ⟨hjitter, hframes, hpushed, hoverflow⟩ := q.updateJitter_eq now
  unfold push
  rw [hvalid, Bool.not_true, if_neg Bool.false_ne_true]
  dsimp only
  generalize q.updateJitter now = j at hjitter hframes hpushed hoverflow ⊢
  have hcount : PushFrame j { j with pushed := j.pushed + 1 } := ⟨rfl, rfl, rfl, rfl⟩
  obtain ⟨hroom, hkept, hcases⟩ := makeRoom_eq { j with pushed := j.pushed + 1 }
  have hgrown := (hjitter.trans hcount).trans hroom
  refine ⟨hgrown.trans ⟨rfl, rfl, rfl, rfl⟩, hkept.trans (congrArg (· + 1) hpushed), ?_⟩
  rcases hcases with ⟨hlt, hsame⟩ | ⟨a, b, rest, hfull, hmerged, hraised⟩
  · rw [hsame]
    exact .appended (hframes ▸ hlt) (congrArg (· ++ [frame]) hframes) hoverflow
  · refine .merged a b rest (hframes.symm.trans hfull) (congrArg (· ++ [frame]) hmerged) ?_
    exact hraised.trans (congrArg (· + 1) hoverflow)

/-! ## Runs -/

/-- The parts of the played frames, then of the queued ones, are the frames pushed. -/
def Provenance (D : MixDsp) (pushed played queued : List Frame) : Prop :=
  ∃ playedParts queuedParts, List.Forall₂ (MadeOf D) played playedParts ∧
    List.Forall₂ (MadeOf D) queued queuedParts ∧ (playedParts ++ queuedParts).flatten = pushed

theorem Provenance.push {pushed played queued : List Frame} (h : Provenance D pushed played queued)
    (f : Frame) : Provenance D (pushed ++ [f]) played (queued ++ [f]) := by
  obtain ⟨playedParts, queuedParts, hplayed, hqueued, hparts⟩ := h
  refine ⟨playedParts, queuedParts ++ [[f]], hplayed, ?_, ?_⟩
  · exact List.rel_append hqueued (.cons (.one f) .nil)
  · rw [← List.append_assoc, List.flatten_append, hparts]
    rfl

theorem Provenance.merge {pushed played queued : List Frame} {a b : Frame}
    (h : Provenance D pushed played (a :: b :: queued)) :
    Provenance D pushed played (D.mergePair a b :: queued) := by
  obtain ⟨playedParts, queuedParts, hplayed, hqueued, hparts⟩ := h
  cases hqueued with
  | cons ha hrest =>
    cases hrest with
    | cons hb hrest =>
      refine ⟨playedParts, _, hplayed, .cons (ha.merge hb) hrest, ?_⟩
      rw [← hparts]
      simp

theorem Provenance.play {pushed played queued : List Frame} {f : Frame}
    (h : Provenance D pushed played (f :: queued)) :
    Provenance D pushed (played ++ [f]) queued := by
  obtain ⟨playedParts, queuedParts, hplayed, hqueued, hparts⟩ := h
  cases hqueued with
  | @cons _ parts _ rest hf hrest =>
    refine ⟨playedParts ++ [parts], rest, List.rel_append hplayed (.cons hf .nil), hrest, ?_⟩
    rw [← hparts]
    simp

variable {outs : List PopOutput}

theorem ConcealsOnce.snoc (h : ConcealsOnce D outs) {o : PopOutput}
    (ho : ∀ f, o = .concealed f → ∃ before p silence, outs = before ++ .played p :: silence ∧
      f = D.fadeOut p ∧ ∀ x ∈ silence, x.isSilent = true) : ConcealsOnce D (outs ++ [o]) := by
  intro pre f post hsplit
  rcases post.eq_nil_or_concat with rfl | ⟨front, last, rfl⟩
  · obtain ⟨hpre, hlast⟩ := List.append_inj' hsplit rfl
    rw [← hpre]
    exact ho f (List.cons.inj hlast).1
  · rw [List.concat_eq_append, ← List.cons_append, ← List.append_assoc] at hsplit
    exact h pre f front (List.append_inj' hsplit rfl).1

/-- What holds after the operations `ops` with the outputs `outs`. -/
structure Traced (ops : List ElasticOp) (outs : List PopOutput) (q : ElasticFrameQueue D) :
    Prop where
  provenance : Provenance D (validPushed ops) (playedFrames outs) q.frames
  pushed : q.pushed = (validPushed ops).length
  played : q.played = (playedFrames outs).length
  counted : q.pushed = q.played + q.compressed + q.overflowCompressed + q.frames.length
  depth : q.frames.length ≤ QUEUE_CAPACITY
  conceals : ConcealsOnce D outs
  silences : ∀ f, .silent f ∈ outs → f = silenceFrame
  /-- Until an empty tick, the last frame played is the last output but for silences. -/
  spell : q.emptyTicks = 0 → ∀ p, q.lastPlayed = some p →
    ∃ before silence, outs = before ++ .played p :: silence ∧ ∀ o ∈ silence, o.isSilent = true

theorem validPushed_append (ops more : List ElasticOp) :
    validPushed (ops ++ more) = validPushed ops ++ validPushed more := List.flatMap_append

theorem playedFrames_append (outs more : List PopOutput) :
    playedFrames (outs ++ more) = playedFrames outs ++ playedFrames more := List.flatMap_append

variable {ops : List ElasticOp}

theorem Traced.push (h : Traced ops outs q) (frame : Frame) (now : Instant) :
    Traced (ops ++ [.push frame now]) outs (q.push frame now) := by
  by_cases hvalid : frame.isValid = true
  · have hops : validPushed (ops ++ [.push frame now]) = validPushed ops ++ [frame] := by
      rw [validPushed_append]
      show _ ++ ((if frame.isValid then [frame] else []) ++ []) = _
      rw [hvalid]
      rfl
    obtain ⟨hkeep, hpushed, hpushes⟩ := q.push_pushes hvalid now
    generalize q.push frame now = q' at hkeep hpushed hpushes ⊢
    have hcounted := h.counted
    have hdepth := h.depth
    have hcases : Provenance D (validPushed ops ++ [frame]) (playedFrames outs) q'.frames ∧
        q'.overflowCompressed + q'.frames.length = q.overflowCompressed + q.frames.length + 1 ∧
        q'.frames.length ≤ QUEUE_CAPACITY := by
      cases hpushes with
      | appended hroom hframes hoverflow =>
        rw [hframes, hoverflow, List.length_append, List.length_singleton]
        exact ⟨h.provenance.push frame, by omega, hroom⟩
      | merged a b rest hfull hframes hoverflow =>
        rw [hfull, List.length_cons, List.length_cons] at hdepth ⊢
        rw [hframes, hoverflow, List.length_append, List.length_cons, List.length_singleton]
        have hmerged := h.provenance
        rw [hfull] at hmerged
        exact ⟨hmerged.merge.push frame, by omega, by omega⟩
    refine ⟨hops ▸ hcases.1, ?_, ?_, ?_, hcases.2.2, h.conceals, h.silences, ?_⟩
    · rw [hpushed, hops, h.pushed, List.length_append, List.length_singleton]
    · rw [hkeep.played]
      exact h.played
    · rw [hpushed, hkeep.played, hkeep.compressed]
      omega
    · rw [hkeep.emptyTicks, hkeep.lastPlayed]
      exact h.spell
  · have hops : validPushed (ops ++ [.push frame now]) = validPushed ops := by
      rw [validPushed_append]
      show _ ++ ((if frame.isValid then [frame] else []) ++ []) = _
      rw [if_neg hvalid]
      exact List.append_nil _
    have hsame : q.push frame now = q := by
      unfold ElasticFrameQueue.push
      rw [if_pos (by simpa using hvalid)]
    rw [hsame]
    exact ⟨hops ▸ h.provenance, hops ▸ h.pushed, h.played, h.counted, h.depth, h.conceals,
      h.silences, h.spell⟩

theorem spell_silent {p f : Frame} (h : ∃ before silence, outs = before ++ .played p :: silence ∧
      ∀ o ∈ silence, o.isSilent = true) :
    ∃ before silence, outs ++ [.silent f] = before ++ .played p :: silence ∧
      ∀ o ∈ silence, o.isSilent = true := by
  obtain ⟨before, silence, houts, hsilent⟩ := h
  refine ⟨before, silence ++ [.silent f], ?_, fun o ho => ?_⟩
  · rw [houts]
    simp
  · rcases List.mem_append.mp ho with ho | ho
    · exact hsilent o ho
    · rw [List.mem_singleton.mp ho]
      rfl

theorem Traced.pop (h : Traced ops outs q) :
    Traced (ops ++ [.pop]) (outs ++ [q.popOutput]) q.pop.2 := by
  have hops : validPushed (ops ++ [.pop]) = validPushed ops := by
    rw [validPushed_append]
    exact List.append_nil _
  have hpops := q.popOutput_pops
  generalize q.popOutput = o at hpops ⊢
  generalize q.pop = popped at hpops ⊢
  obtain ⟨f, q'⟩ := popped
  have hcounted := h.counted
  have hdepth := h.depth
  have hpushed := h.pushed
  have hplayed := h.played
  have hprovenance := h.provenance
  -- A played frame starts a new spell; what it is made of leaves the queue.
  have hnew : ∀ f : Frame, ConcealsOnce D (outs ++ [.played f]) := fun f =>
    ConcealsOnce.snoc h.conceals fun _ hno => by contradiction
  have hsilences : ∀ f : Frame, ∀ x, .silent x ∈ outs ++ [.played f] → x = silenceFrame := by
    intro f x hx
    rcases List.mem_append.mp hx with hx | hx
    · exact h.silences x hx
    · have hno := List.mem_singleton.mp hx
      contradiction
  have hspell : ∀ f p : Frame, some f = some p → ∃ before silence,
      outs ++ [.played f] = before ++ .played p :: silence ∧ ∀ o ∈ silence, o.isSilent = true := by
    intro f p hp
    cases hp
    exact ⟨outs, [], rfl, by simp⟩
  cases hpops with
  | single first hframes hbooks hlast =>
    rw [hframes] at hprovenance hcounted hdepth
    rw [List.length_cons] at hcounted hdepth
    refine ⟨?_, ?_, ?_, ?_, Nat.le_of_succ_le hdepth, hnew _, hsilences _, fun _ => ?_⟩
    · rw [hops, playedFrames_append]
      exact hprovenance.play
    · rw [hops, hbooks.pushed, hpushed]
    · rw [hbooks.played, hplayed, playedFrames_append, List.length_append]
      rfl
    · rw [hbooks.pushed, hbooks.played, hbooks.compressed, hbooks.overflowCompressed]
      omega
    · rw [hlast]
      exact hspell f
  | merged first second hframes hbooks hlast =>
    rw [hframes] at hprovenance hcounted hdepth
    rw [List.length_cons, List.length_cons] at hcounted hdepth
    refine ⟨?_, ?_, ?_, ?_, by omega, hnew _, hsilences _, fun _ => ?_⟩
    · rw [hops, playedFrames_append]
      exact hprovenance.merge.play
    · rw [hops, hbooks.pushed, hpushed]
    · rw [hbooks.played, hplayed, playedFrames_append, List.length_append]
      rfl
    · rw [hbooks.pushed, hbooks.played, hbooks.compressed, hbooks.overflowCompressed]
      omega
    · rw [hlast]
      exact hspell _
  | concealed last hfirst hlastPlayed hframes hbooks hempty =>
    rw [← hframes] at hprovenance hcounted hdepth
    refine ⟨?_, ?_, ?_, ?_, hdepth, ?_, ?_, fun hzero => absurd hzero hempty⟩
    · rw [hops, playedFrames_append]
      show Provenance D _ (_ ++ []) _
      rw [List.append_nil]
      exact hprovenance
    · rw [hops, hbooks.pushed, hpushed]
    · rw [hbooks.played, hplayed, playedFrames_append, List.length_append]
      rfl
    · rw [hbooks.pushed, hbooks.played, hbooks.compressed, hbooks.overflowCompressed]
      omega
    · refine ConcealsOnce.snoc h.conceals fun x hx => ?_
      obtain ⟨before, silence, houts, hsilent⟩ := h.spell hfirst last hlastPlayed
      injection hx with hx
      exact ⟨before, last, silence, houts, hx.symm, hsilent⟩
    · intro x hx
      rcases List.mem_append.mp hx with hx | hx
      · exact h.silences x hx
      · have hno := List.mem_singleton.mp hx
        contradiction
  | silent hframes hbooks hlast hempty =>
    rw [← hframes] at hprovenance hcounted hdepth
    refine ⟨?_, ?_, ?_, ?_, hdepth, ?_, ?_, ?_⟩
    · rw [hops, playedFrames_append]
      show Provenance D _ (_ ++ []) _
      rw [List.append_nil]
      exact hprovenance
    · rw [hops, hbooks.pushed, hpushed]
    · rw [hbooks.played, hplayed, playedFrames_append, List.length_append]
      rfl
    · rw [hbooks.pushed, hbooks.played, hbooks.compressed, hbooks.overflowCompressed]
      omega
    · exact ConcealsOnce.snoc h.conceals fun _ hno => by contradiction
    · intro x hx
      rcases List.mem_append.mp hx with hx | hx
      · exact h.silences x hx
      · have hsame := List.mem_singleton.mp hx
        injection hsame
    · intro hzero p hp
      rw [hlast] at hp
      exact spell_silent (h.spell (hempty hzero) p hp)

theorem step_traced (h : Traced ops outs q) (op : ElasticOp) :
    ∃ q' out, q.step op = some (q', out) ∧ Traced (ops ++ [op]) (outs ++ out) q' := by
  cases op with
  | push frame now => exact ⟨_, [], rfl, by simpa using h.push frame now⟩
  | pop => exact ⟨_, _, rfl, h.pop⟩

/-- After every sequence of pushes and pops: the parts of the played frames, then of the queued
ones, are the valid pushed frames in push order, each once; the counters balance; at most
`QUEUE_CAPACITY` frames are queued; and a concealment fades the last frame played, once. -/
theorem frames_accounted (D : MixDsp) (ops : List ElasticOp) :
    ∃ q outs, Machine.run step (new D) ops = some (q, outs) ∧
      Provenance D (validPushed ops) (playedFrames outs) q.frames ∧
      q.pushed = (validPushed ops).length ∧ q.played = (playedFrames outs).length ∧
      q.pushed = q.played + q.compressed + q.overflowCompressed + q.frames.length ∧
      q.frames.length ≤ QUEUE_CAPACITY ∧ ConcealsOnce D outs ∧
      ∀ f, .silent f ∈ outs → f = silenceFrame := by
  have hstart : Traced [] [] (new D) := by
    refine ⟨⟨[], [], .nil, .nil, rfl⟩, rfl, rfl, rfl, Nat.zero_le _, ?_, by simp, ?_⟩
    · intro pre f post hsplit
      simp at hsplit
    · intro _ p hp
      contradiction
  obtain ⟨q, outs, hrun, h⟩ :=
    Machine.run_total (I := Traced) (fun _ _ _ op h => step_traced h op) hstart ops
  exact ⟨q, outs, hrun, h.provenance, h.pushed, h.played, h.counted, h.depth, h.conceals,
    h.silences⟩

end ElasticFrameQueue

end NodeWebrtc.Mixer
