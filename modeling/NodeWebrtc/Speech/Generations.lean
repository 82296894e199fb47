import Mathlib.Data.List.Infix
import NodeWebrtc.Speech.SttActor

/-! # The generations of the STT actor's results

The actor numbers its providers: a swap that is applied makes the next generation. Every transcript
carries the generation of the provider it was taken from, whether it answers a finalize or not,
because the finalizes of an old provider are forgotten with it. Results stay in order, so a later
one never carries a smaller generation than the provider that was in place.
-/

namespace NodeWebrtc.SttActor

/-- A transcript among results carries this generation. -/
def Labelled (gen : Nat) (r : SttResult) : Prop := ∀ key g t, r = .transcript key g t → g = gen

theorem labelled_of_isOther {gen : Nat} {r : SttResult} (h : ∀ key g t, r ≠ .transcript key g t) :
    Labelled gen r := fun key g t heq => absurd heq (h key g t)

namespace Actor

/-- The finalizes that wait are those of the provider in place. -/
def Even (a : Actor) : Prop := ∀ o ∈ a.outstanding, o.gen = a.gen

/-- From `a` to `b` results were only added: those that had been held back, and transcripts of
the providers that were in place meanwhile. -/
structure Speaks (a b : Actor) : Prop where
  gen : a.gen ≤ b.gen
  even : b.Even
  results : a.results <+: b.results
  said : ∀ r ∈ b.results.drop a.results.length ++ b.delayed.map Prod.snd,
    r ∈ a.delayed.map Prod.snd ∨ ∃ g, a.gen ≤ g ∧ g ≤ b.gen ∧ Labelled g r

theorem Speaks.trans {a b c : Actor} (h : a.Speaks b) (h' : b.Speaks c) : a.Speaks c where
  gen := h.gen.trans h'.gen
  even := h'.even
  results := h.results.trans h'.results
  said := by
    have hbehind : c.results.drop a.results.length =
        b.results.drop a.results.length ++ c.results.drop b.results.length := by
      rw [← List.drop_append_of_le_length h.results.length_le,
        List.prefix_iff_eq_append.mp h'.results]
    have hfirst : ∀ r ∈ b.results.drop a.results.length ++ b.delayed.map Prod.snd,
        r ∈ a.delayed.map Prod.snd ∨ ∃ g, a.gen ≤ g ∧ g ≤ c.gen ∧ Labelled g r := by
      intro r hr
      cases h.said r hr with
      | inl hold => exact .inl hold
      | inr hnew =>
        obtain ⟨g, hlow, hhigh, hlabel⟩ := hnew
        exact .inr ⟨g, hlow, hhigh.trans h'.gen, hlabel⟩
    intro r hr
    rw [hbehind, List.append_assoc, List.mem_append] at hr
    cases hr with
    | inl hearly => exact hfirst r (List.mem_append_left _ hearly)
    | inr hlate =>
      cases h'.said r hlate with
      | inl hold => exact hfirst r (List.mem_append_right _ hold)
      | inr hnew =>
        obtain ⟨g, hlow, hhigh, hlabel⟩ := hnew
        exact .inr ⟨g, h.gen.trans hlow, hhigh, hlabel⟩

section Steps

variable {a : Actor}

section

variable (h : a.Even)
include h

theorem Speaks.unsaid {b : Actor} (hgen : b.gen = a.gen)
    (hqueue : ∀ o ∈ b.outstanding, ∃ o' ∈ a.outstanding, o'.gen = o.gen)
    (hresults : b.results = a.results) (hdelayed : b.delayed = a.delayed) : a.Speaks b where
  gen := hgen.ge
  even o ho := by
    obtain ⟨o', ho', hsame⟩ := hqueue o ho
    rw [← hsame, h o' ho', hgen]
  results := by rw [hresults]
  said r hr := by
    rw [hresults, List.drop_length, hdelayed] at hr
    exact .inl hr

theorem Speaks.unseen {b : Actor} (hgen : b.gen = a.gen) (hqueue : b.outstanding = a.outstanding)
    (hresults : b.results = a.results) (hdelayed : b.delayed = a.delayed) : a.Speaks b :=
  .unsaid h hgen (fun o ho => ⟨o, hqueue ▸ ho, rfl⟩) hresults hdelayed

theorem Speaks.refl : a.Speaks a := .unseen h rfl rfl rfl rfl

/-! ### Results -/

variable (now : Instant)

theorem emit_speaks {r : SttResult} (hr : Labelled a.gen r) : a.Speaks (a.emit now r) := by
  have hlabel : ∃ g, a.gen ≤ g ∧ g ≤ a.gen ∧ Labelled g r :=
    ⟨a.gen, Nat.le_refl _, Nat.le_refl _, hr⟩
  unfold emit
  split
  · refine ⟨Nat.le_refl _, h, List.prefix_append _ _, fun r' hr' => ?_⟩
    rw [List.drop_left, List.mem_append, List.mem_singleton] at hr'
    obtain rfl | hr' := hr'
    · exact .inr hlabel
    · exact .inl hr'
  · refine ⟨Nat.le_refl _, h, List.prefix_rfl, fun r' hr' => ?_⟩
    rw [List.drop_length, List.nil_append, List.map_append, List.mem_append] at hr'
    obtain hr' | hr' := hr'
    · exact .inl hr'
    · obtain rfl := List.mem_singleton.mp hr'
      exact .inr hlabel

theorem releaseDue_speaks : a.Speaks (a.releaseDue now) := by
  refine ⟨Nat.le_refl _, h, List.prefix_append _ _, fun r hr => .inl ?_⟩
  unfold releaseDue at hr
  rwa [List.drop_left, ← List.map_append, List.takeWhile_append_dropWhile] at hr

theorem frontKeyGen_gen : a.frontKeyGen.2 = a.gen := by
  unfold frontKeyGen
  cases hhead : a.outstanding.head? with
  | none => rfl
  | some o => exact h o (List.mem_of_mem_head? hhead)

theorem emitTranscript_speaks (fallbackKey : Option Nat) (t : SttTranscript) :
    a.Speaks (a.emitTranscript now fallbackKey t) := by
  refine emit_speaks h now fun key g t' heq => ?_
  injection heq with _ hgen _
  rw [← hgen, frontKeyGen_gen h]

theorem emitVendorError_speaks (key : Option Nat) (message : String) :
    a.Speaks (a.emitVendorError now key message) :=
  emit_speaks h now (labelled_of_isOther fun _ _ _ => nofun)

/-! ### Outputs -/

theorem onMarker_speaks : a.Speaks (a.onMarker now) := by
  unfold onMarker
  split
  · exact .refl h
  · next done rest hqueue =>
    have hrest : a.Speaks { a with outstanding := rest } :=
      .unsaid h rfl (fun o ho => ⟨o, hqueue ▸ List.mem_cons_of_mem done ho, rfl⟩) rfl rfl
    split
    · exact hrest
    · exact hrest.trans (emit_speaks hrest.even now (labelled_of_isOther fun _ _ _ => nofun))

theorem onOutput_speaks (fallbackKey : Option Nat) (o : SttOutput) :
    a.Speaks (a.onOutput now fallbackKey o) := by
  cases o with
  | transcript t => exact emitTranscript_speaks h now fallbackKey t
  | finalizeDone => exact onMarker_speaks h now

end

theorem foldl_speaks {α : Type} {f : Actor → α → Actor}
    (hf : ∀ {b : Actor} (x : α), b.Even → b.Speaks (f b x)) (h : a.Even) (xs : List α) :
    a.Speaks (xs.foldl f a) := by
  induction xs generalizing a with
  | nil => exact .refl h
  | cons x xs ih => exact (hf x h).trans (ih (hf x h).even)

theorem drainOutputs_speaks (h : a.Even) (now : Instant) (fallbackKey : Option Nat) :
    a.Speaks (a.drainOutputs now fallbackKey) := by
  unfold drainOutputs
  dsimp only
  have htaken : a.Speaks (a.takePolled now
      (pollAll ((a.provider.map SttProvider.outputs).getD [])).1
      (pollAll ((a.provider.map SttProvider.outputs).getD [])).2.2) := .unseen h rfl rfl rfl rfl
  have hdrained := htaken.trans (foldl_speaks (f := fun s o => s.onOutput now fallbackKey o)
    (fun o hb => onOutput_speaks hb now fallbackKey o) htaken.even
    (pollAll ((a.provider.map SttProvider.outputs).getD [])).1)
  split
  · exact hdrained.trans (emitVendorError_speaks hdrained.even now _ _)
  · exact hdrained

/-! ### Deadlines -/

theorem restartWait_gen (now : Instant) (base : Nat) (o : Outstanding) :
    (restartWait now base o).gen = o.gen := by
  unfold restartWait
  split
  · rfl
  · rfl

theorem observeOpenTransition_speaks (h : a.Even) (now : Instant) :
    a.Speaks (a.observeOpenTransition now) := by
  refine .unsaid h rfl (fun o ho => ?_) rfl rfl
  unfold observeOpenTransition at ho
  split at ho
  · split at ho
    · obtain ⟨o', ho', rfl⟩ := List.mem_map.mp ho
      exact ⟨o', ho', (restartWait_gen _ _ o').symm⟩
    · exact ⟨o, ho, rfl⟩
  · exact ⟨o, ho, rfl⟩

theorem expireWaiting_gen (a : Actor) (now : Instant) (q : List Outstanding) :
    ∀ o ∈ (a.expireWaiting now q).1, ∃ o' ∈ q, o'.gen = o.gen := by
  induction q with
  | nil => exact nofun
  | cons x q ih =>
    have htail : ∀ o ∈ (a.expireWaiting now q).1, ∃ o' ∈ x :: q, o'.gen = o.gen := fun o ho => by
      obtain ⟨o', ho', hgen⟩ := ih o ho
      exact ⟨o', List.mem_cons_of_mem x ho', hgen⟩
    intro o ho
    unfold expireWaiting at ho
    split at ho
    · obtain rfl | ho := List.mem_cons.mp ho
      · exact ⟨o, List.mem_cons_self, rfl⟩
      · exact htail o ho
    · split at ho
      · exact ⟨o, ho, rfl⟩
      · obtain rfl | ho := List.mem_cons.mp ho
        · exact ⟨x, List.mem_cons_self, rfl⟩
        · exact htail o ho

section

variable (h : a.Even)
include h

variable (now : Instant)

theorem expireDeadlines_speaks : a.Speaks (a.expireDeadlines now) := by
  have hseen := observeOpenTransition_speaks h now
  unfold expireDeadlines
  have hmarked : (a.observeOpenTransition now).Speaks
      { a.observeOpenTransition now with
        outstanding := ((a.observeOpenTransition now).expireWaiting now
          (dropUnanswered now (a.observeOpenTransition now).outstanding)).1 } := by
    refine .unsaid hseen.even rfl (fun o ho => ?_) rfl rfl
    obtain ⟨o', ho', hgen⟩ := expireWaiting_gen _ now _ o ho
    exact ⟨o', (List.dropWhile_sublist _).subset ho', hgen⟩
  exact (hseen.trans hmarked).trans (foldl_speaks
    (f := fun s (o : Outstanding) => s.emit now (.finalizeDone o.key o.gen true))
    (fun o hb => emit_speaks hb now (labelled_of_isOther fun _ _ _ => nofun)) hmarked.even _)

/-! ### Commands -/

theorem reopenDeadStream_speaks (opened : VendorReply) :
    a.Speaks (a.reopenDeadStream now opened) := by
  unfold reopenDeadStream
  split
  · have hdrained := drainOutputs_speaks h now none
    have hstarted : a.Speaks ((a.drainOutputs now none).startProvider opened) :=
      hdrained.trans (.unseen hdrained.even rfl rfl rfl rfl)
    split
    · have hready : a.Speaks { (a.drainOutputs now none).startProvider opened with
          reopenNotBefore := none } := hstarted.trans (.unseen hstarted.even rfl rfl rfl rfl)
      exact hready.trans (observeOpenTransition_speaks hready.even _)
    · next message _ =>
      have hblocked : a.Speaks
          (((a.drainOutputs now none).startProvider opened).blockReopen opened.answeredAt) :=
        hstarted.trans (.unseen hstarted.even rfl rfl rfl rfl)
      have hfailed := hblocked.trans
        (emitVendorError_speaks hblocked.even opened.answeredAt none message)
      exact hfailed.trans (observeOpenTransition_speaks hfailed.even _)
  · exact .refl h

theorem drainInlineLate_speaks : a.Speaks (a.drainInlineLate now) := by
  unfold drainInlineLate
  split
  · have hnone : a.Speaks { a with inlineLateKey := none } := .unseen h rfl rfl rfl rfl
    exact hnone.trans (drainOutputs_speaks hnone.even now _)
  · exact .refl h

theorem pushAudio_speaks (pushed : VendorReply) : a.Speaks (a.pushAudio pushed) := by
  have hmoved : a.Speaks (a.vendorMoves pushed.move) := .unseen h rfl rfl rfl rfl
  unfold pushAudio
  split
  · exact .refl h
  · next p _ =>
    cases p.finalizeMode with
    | inlined =>
      have hheard := hmoved.trans (foldl_speaks
        (f := fun s t => s.emitTranscript pushed.answeredAt none t)
        (fun t hb => emitTranscript_speaks hb pushed.answeredAt none t) hmoved.even
        pushed.transcripts)
      cases pushed.result with
      | err message => exact hheard.trans (emitVendorError_speaks hheard.even _ none message)
      | ok | elapsed => exact hheard
    | deferred =>
      cases pushed.result with
      | err message =>
        have htold := hmoved.trans
          (emitVendorError_speaks hmoved.even pushed.answeredAt none message)
        exact htold.trans (drainOutputs_speaks htold.even pushed.answeredAt none)
      | ok | elapsed =>
        exact hmoved.trans (drainOutputs_speaks hmoved.even pushed.answeredAt none)

theorem onAudio_speaks (opened pushed : VendorReply) : a.Speaks (a.onAudio now opened pushed) := by
  have hnoted : a.Speaks (a.noteWork now) := .unseen h rfl rfl rfl rfl
  have hopened := hnoted.trans (reopenDeadStream_speaks hnoted.even now opened)
  have hlate := hopened.trans (drainInlineLate_speaks hopened.even now)
  exact hlate.trans (pushAudio_speaks hlate.even pushed)

theorem pushEntry_speaks (key waitMs : Nat) :
    a.Speaks (a.pushEntry (a.newEntry now key waitMs)) where
  gen := Nat.le_refl _
  even o ho := by
    obtain ho | ho := List.mem_append.mp ho
    · exact h o ho
    · rw [List.mem_singleton.mp ho]
      rfl
  results := List.prefix_rfl
  said r hr := by
    change r ∈ a.results.drop a.results.length ++ a.delayed.map Prod.snd at hr
    rw [List.drop_length] at hr
    exact .inl hr

theorem popBack_speaks : a.Speaks a.popBack :=
  .unsaid h rfl (fun o ho => ⟨o, (List.dropLast_sublist _).subset ho, rfl⟩) rfl rfl

theorem finalizeDone_speaks (key gen : Nat) (timedOut : Bool) :
    a.Speaks (a.emit now (.finalizeDone key gen timedOut)) :=
  emit_speaks h now (labelled_of_isOther fun _ _ _ => nofun)

theorem closeAtOnce_speaks (key gen : Nat) (timedOut : Bool) :
    a.Speaks (a.closeAtOnce now key gen timedOut) :=
  (popBack_speaks h).trans (finalizeDone_speaks (popBack_speaks h).even now key gen timedOut)

theorem failAtOnce_speaks (key gen : Nat) (message : String) :
    a.Speaks (a.failAtOnce now key gen message) := by
  have htold := (popBack_speaks h).trans
    (emitVendorError_speaks (popBack_speaks h).even now (some key) message)
  exact htold.trans (finalizeDone_speaks htold.even now key gen false)

theorem requestFinalize_speaks (key waitMs : Nat) (reply : VendorReply) :
    a.Speaks (a.requestFinalize now key waitMs reply) := by
  have hmoved : a.Speaks (a.vendorMoves reply.move) := .unseen h rfl rfl rfl rfl
  have hsent : a.Speaks ((a.noteRequest key).vendorMoves reply.move) := .unseen h rfl rfl rfl rfl
  have haccepted : a.Speaks ((((a.noteRequest key).vendorMoves reply.move).pushEntry
      (a.newEntry now key waitMs)).drainOutputs reply.answeredAt none) := by
    have hqueued := hsent.trans (pushEntry_speaks hsent.even now key waitMs)
    exact hqueued.trans (drainOutputs_speaks hqueued.even reply.answeredAt none)
  unfold requestFinalize
  split
  · exact haccepted
  · exact haccepted
  · next message _ =>
    have hqueued := hmoved.trans (pushEntry_speaks hmoved.even now key waitMs)
    exact hqueued.trans (failAtOnce_speaks hqueued.even reply.answeredAt key _ message)

theorem finalizeUtterance_speaks (key waitMs : Nat) (reply : VendorReply) :
    a.Speaks (a.finalizeUtterance now key waitMs reply) := by
  have hmoved : a.Speaks (a.vendorMoves reply.move) := .unseen h rfl rfl rfl rfl
  have hqueued := hmoved.trans (pushEntry_speaks hmoved.even now key waitMs)
  have hlate : ∀ {b : Actor}, a.Speaks b → a.Speaks { b with inlineLateKey := some key } :=
    fun hb => hb.trans (.unseen hb.even rfl rfl rfl rfl)
  unfold finalizeUtterance
  refine hlate ?_
  split
  · have hdrained := hqueued.trans (drainOutputs_speaks hqueued.even reply.answeredAt none)
    exact hdrained.trans (closeAtOnce_speaks hdrained.even reply.answeredAt key _ false)
  · next message _ =>
    exact hqueued.trans (failAtOnce_speaks hqueued.even reply.answeredAt key _ message)
  · exact hqueued.trans (closeAtOnce_speaks hqueued.even reply.answeredAt key _ true)

theorem onEndUtterance_speaks (key : Nat) (reply : VendorReply) :
    a.Speaks (a.onEndUtterance now key reply) := by
  have hnoted : a.Speaks (a.noteWork now) := .unseen h rfl rfl rfl rfl
  unfold onEndUtterance
  split
  · exact hnoted.trans (finalizeDone_speaks hnoted.even now key _ false)
  · split
    · exact hnoted.trans (requestFinalize_speaks hnoted.even now key _ reply)
    · exact hnoted.trans (finalizeUtterance_speaks hnoted.even now key _ reply)

theorem handleCommand_speaks (opened reply : VendorReply) (cmd : SttCommand) :
    a.Speaks (a.handleCommand now opened reply cmd) := by
  cases cmd with
  | start | swap config running | waitReady | barrier => exact .unseen h rfl rfl rfl rfl
  | audio => exact onAudio_speaks h now opened reply
  | endUtterance key => exact onEndUtterance_speaks h now key reply

end

/-! ### Swaps and the loop -/

theorem applySwap_speaks (a : Actor) (now : Instant) (config : SttConfig) (new : SttProvider) :
    a.Speaks (a.applySwap now config new) := by
  have hswapped : a.Speaks
      { a with provider := some new, gen := a.gen + 1, outstanding := [], inlineLateKey := none } := by
    refine ⟨Nat.le_succ _, nofun, List.prefix_rfl, fun r hr => .inl ?_⟩
    rwa [List.drop_length] at hr
  exact hswapped.trans (emit_speaks hswapped.even now (labelled_of_isOther fun _ _ _ => nofun))

theorem runSwap_speaks (h : a.Even) (config : SttConfig) (running : Bool) (reply : SwapReply) :
    a.Speaks (a.runSwap config running reply) := by
  have hrefused : ∀ message, a.Speaks (a.refuseSwap reply.started.answeredAt config message) :=
    fun message => emit_speaks h _ (labelled_of_isOther fun _ _ _ => nofun)
  unfold runSwap
  split
  · exact hrefused _
  · split
    · split
      · exact hrefused _
      · exact a.applySwap_speaks _ config _
    · exact a.applySwap_speaks _ config _

theorem runParked_speaks (h : a.Even) (reply : SwapReply) : a.Speaks (a.runParked reply) := by
  have hfree : a.Speaks { a with parked := none } := .unseen h rfl rfl rfl rfl
  unfold runParked
  split
  · exact .refl h
  · split
    · exact hfree.trans (emit_speaks hfree.even _ (labelled_of_isOther fun _ _ _ => nofun))
    · next config running _ => exact hfree.trans (runSwap_speaks hfree.even config running reply)
    · exact hfree
    · exact .refl h

theorem fire_speaks {b : Actor} (h : a.Even) {hasDeadline busy : Bool} {arm : Arm}
    (hfire : a.fire hasDeadline busy arm = some b) : a.Speaks b := by
  cases arm with
  | releaseDue now =>
    simp only [fire, Option.ite_none_left_eq_some, Option.some.injEq] at hfire
    obtain ⟨-, rfl⟩ := hfire
    exact releaseDue_speaks h now
  | expireDeadlines now =>
    simp only [fire, Option.ite_none_right_eq_some, Option.some.injEq] at hfire
    obtain ⟨-, rfl⟩ := hfire
    exact expireDeadlines_speaks h now
  | command now cmd opened reply =>
    simp only [fire, Option.ite_none_left_eq_some] at hfire
    obtain ⟨-, hfire⟩ := hfire
    split at hfire <;> cases hfire
    · have hdrained := drainOutputs_speaks h now a.inlineLateKey
      exact hdrained.trans (handleCommand_speaks hdrained.even now opened reply cmd)
    · exact handleCommand_speaks h now opened reply cmd
  | poll now =>
    simp only [fire, Option.ite_none_right_eq_some, Option.some.injEq] at hfire
    obtain ⟨-, rfl⟩ := hfire
    exact drainOutputs_speaks h now a.inlineLateKey

/-- Whatever one iteration of the loop produces carries the generation of a provider that was in
place in it. -/
theorem step_speaks {b : Actor} (h : a.Even) {it : Iteration} {out : List SttResult}
    (hs : step a it = some (b, out)) : a.Speaks b := by
  unfold step at hs
  rw [Option.map_eq_some_iff] at hs
  obtain ⟨fired, hfire, hb⟩ := hs
  cases hb
  have hbefore : a.Speaks (a.vendorMoves it.before) := .unseen h rfl rfl rfl rfl
  have hhead : a.Speaks (a.atHead it) :=
    hbefore.trans (observeOpenTransition_speaks hbefore.even it.headAt)
  have harmed : a.Speaks (a.armed it) := hhead.trans (.unseen hhead.even rfl rfl rfl rfl)
  have hfired := harmed.trans (fire_speaks harmed.even hfire)
  have hparked := hfired.trans (runParked_speaks hfired.even it.swap)
  exact hparked.trans (observeOpenTransition_speaks hparked.even it.doneAt)

end Steps

theorem spawn_even (provider : Option (FinalizeMode × ProviderView))
    (openWaitMaxMs testFinalDelayMs : Nat) :
    (spawnSttActor provider openWaitMaxMs testFinalDelayMs).Even := nofun

end Actor

end NodeWebrtc.SttActor
