import NodeWebrtc.Speech.Attribution
import NodeWebrtc.Speech.Generations
import NodeWebrtc.Speech.SttHold
import NodeWebrtc.Speech.Utterance

/-! # What a host STT hold lets through

`begin_stt_hold` reads the generation of the STT actor and only then takes its locks. While the hold
lasts the result pump ignores the transcripts of exactly this generation. So nothing of the old
model is applied when no result of a still older provider waits as the generation is read, and no
swap is applied before the call returns.

The actor and the handling of its results are the machines of their own modules. What frames,
ticker checks and host calls do to the records between two results is an input.
-/

namespace NodeWebrtc.HeldStt

open Machine SttActor VoiceAgent

/-- Where `begin_stt_hold` is. `returned` keeps the actor's generation at that moment. -/
inductive BeginCall where
  | idle
  | reading (generation : Nat)
  | installed
  | returned (current : Nat)
deriving DecidableEq, Repr

namespace BeginCall

/-- The generation is read and the call has not returned. -/
def isRunning : BeginCall → Bool
  | .reading _ => true
  | .installed => true
  | _ => false

/-- The generation that was current as the call returned. -/
def silentFrom : BeginCall → Option Nat
  | .returned current => some current
  | _ => none

end BeginCall

/-- The STT actor, the result pump with the results it has taken, and the part of the agent that
the results are applied to. -/
structure HeldAgent where
  actor : Actor
  taken : Nat
  agent : Agent
  sttHold : Option SttHold
  call : BeginCall

inductive HeldInput where
  | actor (it : Iteration)
  /-- `begin_stt_hold`: the load of the generation, the section under the locks, the return. -/
  | readGeneration
  | install (options : BeginSttHoldOptions) (seed : Option Pcm)
  | returnOk
  | endHold
  /-- The pump looks at the next result without the step lock, then handles it under it. -/
  | peek
  | handle (now : Instant) (dropsMismatch : Bool)
  | others (agent : Agent)

/-- What became of a transcript: applied to a record, or ignored because of the hold. Each with
the generation of the transcript and the one current as `begin_stt_hold` returned. -/
inductive Verdict where
  | applied (gen : Nat) (silentFrom : Option Nat)
  | ignored (gen : Nat) (silentFrom : Option Nat)
deriving DecidableEq, Repr

namespace HeldAgent

def start (actor : Actor) (agent : Agent) : HeldAgent := ⟨actor, 0, agent, none, .idle⟩

def waiting (s : HeldAgent) : List SttResult :=
  s.actor.results.drop s.taken ++ s.actor.delayed.map Prod.snd

/-- `apply_transcript_result` and the other branches of `handle_stt_result`. -/
def handleSttResult (s : HeldAgent) (now : Instant) (r : SttResult) (dropsMismatch : Bool) :
    HeldAgent × List Verdict :=
  let handled :=
    { s with agent := s.agent.handleSttResult now r dropsMismatch, taken := s.taken + 1 }
  match r with
  | .transcript key gen _ =>
    if !s.agent.sttEnabled then ({ s with taken := s.taken + 1 }, [])
    else if s.sttHold.any fun hold => hold.genAtBegin == gen then
      ({ s with taken := s.taken + 1 }, [.ignored gen s.call.silentFrom])
    else
      match (s.agent.resolveTranscriptTarget key).2 with
      | none => (handled, [])
      | some _ => (handled, [.applied gen s.call.silentFrom])
  | _ => (handled, [])

/-- The section of `begin_stt_hold` under the locks; the live record's partial is forgotten. -/
def beginSttHold (s : HeldAgent) (options : BeginSttHoldOptions) (seed : Option Pcm)
    (generation : Nat) : HeldAgent :=
  { s with
    sttHold := some
      { SttHold.new options.mode (resolvedHoldMaxBufferMs options.maxBufferMs) seed with
        genAtBegin := generation }
    agent := s.agent.updateLive fun r => { r with lastPartialText := none }
    call := .installed }

def step : Machine.Step HeldAgent HeldInput Verdict := fun s i =>
  match i with
  | .actor it => (Actor.step s.actor it).map fun p => ({ s with actor := p.1 }, [])
  | .readGeneration =>
    match s.call with
    | .idle => some ({ s with call := .reading s.actor.gen }, [])
    | _ => none
  | .install options seed =>
    match s.call with
    | .reading generation => some (s.beginSttHold options seed generation, [])
    | _ => none
  | .returnOk =>
    match s.call with
    | .installed => some ({ s with call := .returned s.actor.gen }, [])
    | _ => none
  | .endHold =>
    if s.sttHold.isSome then some ({ s with sttHold := none, call := .idle }, []) else none
  | .peek =>
    s.actor.results[s.taken]?.map fun r => ({ s with agent := s.agent.terminalKeyOf r }, [])
  | .handle now dropsMismatch =>
    s.actor.results[s.taken]?.map fun r => s.handleSttResult now r dropsMismatch
  | .others agent => some ({ s with agent := agent }, [])

end HeldAgent

namespace Verdict

/-- From the return of `begin_stt_hold` on nothing of a generation that was current by then is
applied, and nothing of a later one is ignored. -/
def Silent : Verdict → Prop
  | .applied gen silentFrom => ∀ current ∈ silentFrom, current < gen
  | .ignored gen silentFrom => ∀ current ∈ silentFrom, gen ≤ current

end Verdict

namespace HeldAgent

/-- No transcript of an older provider waits when the generation is read, and no swap is applied
from then until `begin_stt_hold` returns. -/
def Clean (s : HeldAgent) : HeldInput → Prop
  | .readGeneration => ∀ key gen t, .transcript key gen t ∈ s.waiting → s.actor.gen ≤ gen
  | .actor it => s.call.isRunning = true →
      ∀ a out, Actor.step s.actor it = some (a, out) → a.gen = s.actor.gen
  | _ => True

/-! ## The invariant -/

/-- Every transcript on its way is of generation `gen` or newer. -/
def Since (s : HeldAgent) (gen : Nat) : Prop :=
  ∀ key g t, .transcript key g t ∈ s.waiting → gen ≤ g

/-- What holds of the hold and its results, by the call's state. -/
def Guarded (s : HeldAgent) : Prop :=
  match s.call with
  | .idle => s.sttHold = none
  | .reading generation => s.sttHold = none ∧ generation = s.actor.gen ∧ s.Since generation
  | .installed => ∃ hold, s.sttHold = some hold ∧ hold.genAtBegin = s.actor.gen ∧
      s.Since s.actor.gen
  | .returned current => ∃ hold, s.sttHold = some hold ∧ hold.genAtBegin = current ∧
      current ≤ s.actor.gen ∧ s.Since current

structure Kept (s : HeldAgent) : Prop where
  even : s.actor.Even
  taken : s.taken ≤ s.actor.results.length
  guarded : s.Guarded

variable {s t : HeldAgent}

theorem Since.actor {gen : Nat} (h : s.Since gen) (hgen : gen ≤ s.actor.gen)
    (htaken : s.taken ≤ s.actor.results.length) {a : Actor} (ha : s.actor.Speaks a) :
    ({ s with actor := a } : HeldAgent).Since gen := by
  intro key g t hmem
  have hwaiting : a.results.drop s.taken =
      s.actor.results.drop s.taken ++ a.results.drop s.actor.results.length := by
    rw [← List.drop_append_of_le_length htaken, List.prefix_iff_eq_append.mp ha.results]
  change _ ∈ a.results.drop s.taken ++ a.delayed.map Prod.snd at hmem
  rw [hwaiting, List.append_assoc, List.mem_append] at hmem
  cases hmem with
  | inl hold => exact h key g t (List.mem_append_left _ hold)
  | inr hnew =>
    cases ha.said _ hnew with
    | inl hdelayed => exact h key g t (List.mem_append_right _ hdelayed)
    | inr hsaid =>
      obtain ⟨g', hlow, -, hlabel⟩ := hsaid
      rw [hlabel key g t rfl]
      exact hgen.trans hlow

theorem Since.take {gen : Nat} (h : s.Since gen) (agent : Agent) :
    ({ s with agent := agent, taken := s.taken + 1 } : HeldAgent).Since gen := by
  intro key g t hmem
  refine h key g t ?_
  change _ ∈ s.actor.results.drop (s.taken + 1) ++ _ at hmem
  rw [List.mem_append] at hmem
  cases hmem with
  | inl hresult =>
    rw [← List.drop_drop] at hresult
    exact List.mem_append_left _ (List.mem_of_mem_drop hresult)
  | inr hdelayed => exact List.mem_append_right _ hdelayed

theorem Guarded.stays (h : s.Guarded) (hcall : t.call = s.call) (hhold : t.sttHold = s.sttHold)
    (hgen : s.actor.gen ≤ t.actor.gen)
    (hstill : s.call.isRunning = true → t.actor.gen = s.actor.gen)
    (hsince : ∀ gen ≤ s.actor.gen, s.Since gen → t.Since gen) : t.Guarded := by
  unfold Guarded at h ⊢
  rw [hcall, hhold]
  cases hphase : s.call with
  | idle =>
    rw [hphase] at h
    exact h
  | reading generation =>
    rw [hphase] at h hstill
    obtain ⟨hnone, hread, hwait⟩ := h
    exact ⟨hnone, hread.trans (hstill rfl).symm, hsince generation hread.le hwait⟩
  | installed =>
    rw [hphase] at h hstill
    obtain ⟨hold, hsome, hbegin, hwait⟩ := h
    rw [hstill rfl]
    exact ⟨hold, hsome, hbegin, hsince _ (Nat.le_refl _) hwait⟩
  | returned current =>
    rw [hphase] at h
    obtain ⟨hold, hsome, hbegin, hle, hwait⟩ := h
    exact ⟨hold, hsome, hbegin, hle.trans hgen, hsince current hle hwait⟩

theorem Kept.take (h : s.Kept) (agent : Agent) (htaken : s.taken < s.actor.results.length) :
    ({ s with agent := agent, taken := s.taken + 1 } : HeldAgent).Kept :=
  ⟨h.even, htaken, h.guarded.stays rfl rfl (Nat.le_refl _) (fun _ => rfl) fun _ _ hsince =>
    hsince.take agent⟩

theorem Kept.setAgent (h : s.Kept) (agent : Agent) : ({ s with agent := agent } : HeldAgent).Kept :=
  ⟨h.even, h.taken, h.guarded.stays rfl rfl (Nat.le_refl _) (fun _ => rfl) fun _ _ hsince => hsince⟩

/-- After the call has returned, the hold ignores the generation that was current by then, and
nothing older is on its way. -/
theorem Guarded.silent (h : s.Guarded) {current : Nat} (hcurrent : current ∈ s.call.silentFrom) :
    ∃ hold, s.sttHold = some hold ∧ hold.genAtBegin = current ∧ s.Since current := by
  unfold Guarded at h
  cases hcall : s.call with
  | idle | reading generation | installed => rw [hcall] at hcurrent; cases hcurrent
  | returned current' =>
    rw [hcall] at hcurrent h
    cases hcurrent
    obtain ⟨hold, hsome, hbegin, -, hsince⟩ := h
    exact ⟨hold, hsome, hbegin, hsince⟩

/-! ## Every step keeps it, and every verdict is right -/

theorem kept_handle (h : s.Kept) {r : SttResult} (hr : s.actor.results[s.taken]? = some r)
    (now : Instant) (dropsMismatch : Bool) :
    (s.handleSttResult now r dropsMismatch).1.Kept ∧
      ∀ v ∈ (s.handleSttResult now r dropsMismatch).2, v.Silent := by
  obtain ⟨htaken, -⟩ := List.getElem?_eq_some_iff.mp hr
  have hhandled := h.take (s.agent.handleSttResult now r dropsMismatch) htaken
  have hskipped := h.take s.agent htaken
  cases r with
  | transcript key gen text =>
    have hwaits : .transcript key gen text ∈ s.waiting := by
      refine List.mem_append_left _ (List.mem_of_getElem? (i := 0) ?_)
      rw [List.getElem?_drop]
      exact hr
    have hguarded := h.guarded
    unfold handleSttResult
    dsimp only
    split
    · exact ⟨hskipped, List.forall_mem_nil _⟩
    · split
      · next hheld =>
        refine ⟨hskipped, fun v hv => ?_⟩
        rw [List.mem_singleton.mp hv]
        intro current hcurrent
        obtain ⟨hold, hsome, hbegin, -⟩ := hguarded.silent hcurrent
        rw [hsome, Option.any_some, beq_iff_eq] at hheld
        exact (hheld.symm.trans hbegin).le
      · next hheld =>
        split
        · exact ⟨hhandled, List.forall_mem_nil _⟩
        · refine ⟨hhandled, fun v hv => ?_⟩
          rw [List.mem_singleton.mp hv]
          intro current hcurrent
          obtain ⟨hold, hsome, hbegin, hsince⟩ := hguarded.silent hcurrent
          rw [hsome, Option.any_some, beq_iff_eq] at hheld
          refine Nat.lt_of_le_of_ne (hsince key gen text hwaits) fun heq => hheld ?_
          exact hbegin.trans heq
  | finalizeDone key gen timedOut | vendorError key gen message | swapApplied config refused
  | barrierReached =>
    exact ⟨hhandled, List.forall_mem_nil _⟩

theorem kept_step (h : s.Kept) {i : HeldInput} (hclean : s.Clean i) {out : List Verdict}
    (hs : step s i = some (t, out)) : t.Kept ∧ ∀ v ∈ out, v.Silent := by
  cases i with
  | actor it =>
    obtain ⟨⟨a, out'⟩, ha, heq⟩ := Option.map_eq_some_iff.mp hs
    cases heq
    have hspeaks := Actor.step_speaks h.even ha
    refine ⟨⟨hspeaks.even, h.taken.trans hspeaks.results.length_le, ?_⟩, nofun⟩
    exact h.guarded.stays rfl rfl hspeaks.gen (fun hrunning => hclean hrunning a out' ha)
      fun gen hgen hsince => hsince.actor hgen h.taken hspeaks
  | readGeneration =>
    have hguarded := h.guarded
    unfold Guarded at hguarded
    unfold step at hs
    dsimp only at hs
    split at hs
    · next hcall =>
      rw [hcall] at hguarded
      cases hs
      exact ⟨⟨h.even, h.taken, hguarded, rfl, hclean⟩, nofun⟩
    · cases hs
  | install options seed =>
    have hguarded := h.guarded
    unfold Guarded at hguarded
    unfold step at hs
    dsimp only at hs
    split at hs
    · next generation hcall =>
      rw [hcall] at hguarded
      cases hs
      obtain ⟨-, rfl, hsince⟩ := hguarded
      exact ⟨⟨h.even, h.taken, _, rfl, rfl, hsince⟩, nofun⟩
    · cases hs
  | returnOk =>
    have hguarded := h.guarded
    unfold Guarded at hguarded
    unfold step at hs
    dsimp only at hs
    split at hs
    · next hcall =>
      rw [hcall] at hguarded
      cases hs
      obtain ⟨hold, hsome, hbegin, hsince⟩ := hguarded
      exact ⟨⟨h.even, h.taken, hold, hsome, hbegin, Nat.le_refl _, hsince⟩, nofun⟩
    · cases hs
  | endHold =>
    simp only [step, Option.ite_none_right_eq_some, Option.some.injEq, Prod.mk.injEq] at hs
    obtain ⟨-, rfl, rfl⟩ := hs
    exact ⟨⟨h.even, h.taken, rfl⟩, nofun⟩
  | peek =>
    obtain ⟨r, -, heq⟩ := Option.map_eq_some_iff.mp hs
    cases heq
    exact ⟨h.setAgent _, nofun⟩
  | handle now dropsMismatch =>
    obtain ⟨r, hr, heq⟩ := Option.map_eq_some_iff.mp hs
    rw [Prod.ext_iff] at heq
    obtain ⟨rfl, rfl⟩ := heq
    exact kept_handle h hr now dropsMismatch
  | others agent =>
    cases hs
    exact ⟨h.setAgent agent, nofun⟩

theorem kept_start {actor : Actor} (heven : actor.Even) (agent : Agent) :
    (start actor agent).Kept := ⟨heven, Nat.zero_le _, rfl⟩

/-- In every run whose steps are clean, a hold silences the old model and nothing else: no
transcript of a generation that was current as `begin_stt_hold` returned is applied, and none of a
later one is ignored. A transcript carries the generation of the provider in place. -/
theorem hold_silences_old_model (provider : Option (FinalizeMode × ProviderView))
    (openWaitMaxMs testFinalDelayMs : Nat) (agent : Agent) {is : List HeldInput} {vs : List Verdict}
    (hclean : Along step Clean
      (start (spawnSttActor provider openWaitMaxMs testFinalDelayMs) agent) is)
    (hr : run step (start (spawnSttActor provider openWaitMaxMs testFinalDelayMs) agent) is =
      some (s, vs)) :
    (∀ v ∈ vs, v.Silent) ∧ s.actor.frontKeyGen.2 = s.actor.gen := by
  have hkept : (∀ v ∈ vs, v.Silent) ∧ s.Kept := by
    refine run_history (C := Clean) (I := fun _ vs s => (∀ v ∈ vs, v.Silent) ∧ s.Kept)
      (fun _ vs s i t out h hi hs => ?_) ⟨nofun, kept_start (Actor.spawn_even _ _ _) agent⟩ hclean hr
    obtain ⟨ht, hout⟩ := kept_step h.2 hi hs
    refine ⟨fun v hv => ?_, ht⟩
    cases List.mem_append.mp hv with
    | inl hv => exact h.1 v hv
    | inr hv => exact hout v hv
  exact ⟨hkept.1, Actor.frontKeyGen_gen hkept.2.even⟩

/-! ### A partial before the hold and one after the swap -/

def vendorEndpointed : Agent := .new ⟨false, false, false, 0, 0, 0, 0, 0, 0⟩ true

def partialAt (now : Instant) (text : String) : HeldInput :=
  .actor (Actor.hearsAt now [.output (.transcript (.partialText text))])

def swapAt (now : Instant) : HeldInput :=
  .actor { Actor.steadily (.command now (.swap "new" true) (Actor.accepted [] now)
      (Actor.accepted [] now)) now with
    swap := ⟨.ok (.deferred, ⟨10000, false, true, 0⟩), Actor.accepted [] now⟩ }

def beginHold : List HeldInput :=
  [.readGeneration, .install ⟨.bufferReplay, none⟩ none, .returnOk]

/-- The old model's partial is ignored and the new model's is applied. -/
theorem hold_silences_old_model_swapped :
    ∃ s, run step (start Actor.steadyActor vendorEndpointed)
        (beginHold ++ [partialAt 0 "old", swapAt 1, partialAt 2 "new", .handle 3 false,
          .handle 3 false, .handle 3 false]) =
          some (s, [.ignored 0 (some 0), .applied 1 (some 0)]) ∧
      (∀ v ∈ [Verdict.ignored 0 (some 0), .applied 1 (some 0)], v.Silent) ∧
      s.actor.frontKeyGen.2 = s.actor.gen := by
  have hclean : Along step Clean (start Actor.steadyActor vendorEndpointed)
      (beginHold ++ [partialAt 0 "old", swapAt 1, partialAt 2 "new", .handle 3 false,
        .handle 3 false, .handle 3 false]) :=
    .cons (fun _ _ _ => nofun) rfl (.cons trivial rfl (.cons trivial rfl (.cons nofun rfl
      (.cons nofun rfl (.cons nofun rfl (.cons trivial rfl (.cons trivial rfl (.cons trivial rfl
        trivial))))))))
  exact ⟨_, rfl, hold_silences_old_model (some (.deferred, ⟨10000, false, true, 0⟩)) 120000 0
    vendorEndpointed hclean rfl⟩

/-- A partial of the generation before the last one waits as the hold begins, and is applied. -/
theorem waiting_partial_is_applied :
    ∃ s, run step (start Actor.steadyActor vendorEndpointed)
        ([partialAt 0 "old", swapAt 1] ++ beginHold ++ [.handle 2 false]) =
          some (s, [.applied 0 (some 1)]) ∧
      ¬ (Verdict.applied 0 (some 1)).Silent :=
  ⟨_, rfl, fun h => absurd (h 1 rfl) (by decide)⟩

end HeldAgent

end NodeWebrtc.HeldStt
