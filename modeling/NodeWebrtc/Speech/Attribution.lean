import NodeWebrtc.Speech.Finalize

/-! # Transcripts go to the utterance the vendor is answering

A deferred vendor answers its finalize requests in order, one marker each. Between two
markers its transcripts belong to the request the next marker answers; before that request
is made they belong to no utterance yet. The actor knows the queue only, so the result rests
on the alignment of queue and vendor, timed-out finalizes included.
-/

namespace NodeWebrtc.SttActor

/-! ## The rule -/

/-- The utterance the vendor is answering after the calls `seen`. -/
def answering (seen : List ProviderCall) : Option Nat := (requests seen)[answers seen]?

def attributedCall (seen : List ProviderCall) : ProviderCall → List (Option Nat × SttTranscript)
  | .polled (.transcript t) => [(answering seen, t)]
  | _ => []

/-- The transcripts taken after the calls `seen`, each with its utterance. -/
def attributed (seen : List ProviderCall) : List ProviderCall → List (Option Nat × SttTranscript)
  | [] => []
  | c :: cs => attributedCall seen c ++ attributed (seen ++ [c]) cs

/-- The transcripts among the results of one provider generation, with their keys. -/
def forwarded (gen : Nat) (rs : List SttResult) : List (Option Nat × SttTranscript) :=
  rs.filterMap fun r => match r with
    | .transcript key g t => if g = gen then some (key, t) else none
    | _ => none

theorem attributed_append (seen calls calls' : List ProviderCall) :
    attributed seen (calls ++ calls') =
      attributed seen calls ++ attributed (seen ++ calls) calls' := by
  induction calls generalizing seen with
  | nil => rw [List.nil_append, List.append_nil]; rfl
  | cons c calls ih =>
    rw [List.cons_append, attributed, attributed, ih, List.append_assoc, List.append_assoc]
    rfl

theorem forwarded_append (gen : Nat) (rs rs' : List SttResult) :
    forwarded gen (rs ++ rs') = forwarded gen rs ++ forwarded gen rs' := List.filterMap_append

variable (seen : List ProviderCall)

theorem answering_eq_head? : answering seen = (awaited seen).head? := by
  unfold answering awaited
  rw [List.head?_drop]

theorem awaited_transcript (t : SttTranscript) :
    awaited (seen ++ [.polled (.transcript t)]) = awaited seen := by
  unfold awaited
  rw [requests_append, answers_append]
  show (requests seen ++ []).drop (answers seen + 0) = _
  rw [List.append_nil, Nat.add_zero]

theorem awaited_marker : awaited (seen ++ [.polled .finalizeDone]) = (awaited seen).tail := by
  unfold awaited
  rw [requests_append, answers_append]
  show (requests seen ++ []).drop (answers seen + 1) = _
  rw [List.append_nil, List.tail_drop]

theorem forwarded_other {gen : Nat} {rs : List SttResult}
    (h : ∀ key t, .transcript key gen t ∉ rs) : forwarded gen rs = [] := by
  unfold forwarded
  rw [List.filterMap_eq_nil_iff]
  intro r hr
  cases r with
  | transcript key g t =>
    refine if_neg fun hgen => ?_
    subst hgen
    exact h key t hr
  | finalizeDone | vendorError | swapApplied | barrierReached => rfl

/-! ## The ledger follows the rule -/

namespace Ledger

/-- The queue, the results and the calls of a deferred provider agree on every transcript. -/
structure Attributed (l : Ledger) : Prop where
  gens : ∀ o ∈ l.queue, o.gen = l.gen
  past : ∀ key gen t, .transcript key gen t ∈ l.produced → gen ≤ l.gen
  keys : l.mode ≠ some .inlined → forwarded l.gen l.produced = attributed [] l.calls

theorem frontKeyGen_gen {l : Ledger} (h : ∀ o ∈ l.queue, o.gen = l.gen) :
    l.frontKeyGen = ((l.queue.map Outstanding.key).head?, l.gen) := by
  unfold frontKeyGen
  cases hq : l.queue with
  | nil => rfl
  | cons o rest =>
    have hgen := h o (by rw [hq]; exact List.mem_cons_self)
    show (some o.key, o.gen) = (some o.key, l.gen)
    rw [hgen]

theorem Attributed.mute {l : Ledger} (h : l.Attributed) {r : SttResult}
    (hr : ∀ key gen t, r ≠ .transcript key gen t) : (l.say r).Attributed := by
  have hnone : ∀ gen, forwarded gen [r] = [] := fun gen =>
    forwarded_other fun key t hmem => hr key gen t (List.mem_singleton.mp hmem).symm
  refine ⟨h.gens, fun key gen t hmem => ?_, fun hmode => ?_⟩
  · rcases List.mem_append.mp hmem with hmem | hmem
    · exact h.past key gen t hmem
    · exact absurd (List.mem_singleton.mp hmem).symm (hr key gen t)
  · show forwarded l.gen (l.produced ++ [r]) = _
    rw [forwarded_append, hnone, List.append_nil]
    exact h.keys hmode

theorem Attributed.forward {l : Ledger} (h : l.Attributed) (hmode : l.mode = some .inlined)
    (fallbackKey : Option Nat) (t : SttTranscript) : (l.forward fallbackKey t).Attributed := by
  refine ⟨h.gens, fun key gen t' hmem => ?_, fun hnot => absurd hmode hnot⟩
  rcases List.mem_append.mp hmem with hmem | hmem
  · exact h.past key gen t' hmem
  · have heq := List.mem_singleton.mp hmem
    rw [frontKeyGen_gen h.gens] at heq
    injection heq with _ hgen _
    exact Nat.le_of_eq hgen

theorem foldl_onOutput_forwarded (items : List SttOutput) (l : Ledger) (seen : List ProviderCall)
    (hgens : ∀ o ∈ l.queue, o.gen = l.gen)
    (hkeys : l.queue.map Outstanding.key = awaited seen) :
    forwarded l.gen (items.foldl (fun l o => l.onOutput none o) l).produced =
      forwarded l.gen l.produced ++ attributed seen (items.map .polled) := by
  induction items generalizing l seen with
  | nil => exact (List.append_nil _).symm
  | cons o items ih =>
    rw [List.foldl_cons, List.map_cons, attributed]
    cases o with
    | transcript t =>
      have hfront := frontKeyGen_gen hgens
      have hnext := ih (l.forward none t) (seen ++ [.polled (.transcript t)]) hgens
        (hkeys.trans (awaited_transcript seen t).symm)
      have hsaid : (l.forward none t).produced =
          l.produced ++ [.transcript (answering seen) l.gen t] := by
        show l.produced ++ [.transcript (l.frontKeyGen.1.or none) l.frontKeyGen.2 t] = _
        rw [hfront, hkeys, answering_eq_head?, Option.or_none]
      have hone : forwarded (l.forward none t).gen [.transcript (answering seen) l.gen t] =
          [(answering seen, t)] := by
        simp [forwarded, forward, say]
      rw [hsaid, forwarded_append, hone, List.append_assoc] at hnext
      exact hnext
    | finalizeDone =>
      have hqueue : l.onMarker.queue = l.queue.tail :=
        (foldl_onOutput_keys none [.finalizeDone] l).trans List.drop_one
      have hgen : l.onMarker.gen = l.gen := (l.onOutput_frame none .finalizeDone).2.2.2
      have hproduced : forwarded l.gen l.onMarker.produced = forwarded l.gen l.produced := by
        unfold onMarker
        split
        · rfl
        · split
          · rfl
          · exact (forwarded_append ..).trans (List.append_nil _)
      have hnext := ih l.onMarker (seen ++ [.polled .finalizeDone])
        (fun o ho => by
          rw [hqueue] at ho
          rw [hgen]
          exact hgens o (List.mem_of_mem_tail ho))
        (by rw [hqueue, awaited_marker, ← hkeys, List.map_tail])
      rw [hgen, hproduced] at hnext
      exact hnext

theorem mem_produced_onOutput {l : Ledger} (hgens : ∀ o ∈ l.queue, o.gen = l.gen)
    (fallbackKey : Option Nat) (o : SttOutput) {key : Option Nat} {gen : Nat} {t : SttTranscript}
    (hmem : .transcript key gen t ∈ (l.onOutput fallbackKey o).produced) :
    .transcript key gen t ∈ l.produced ∨ gen = l.gen := by
  cases o with
  | transcript t' =>
    rcases List.mem_append.mp hmem with hmem | hmem
    · exact .inl hmem
    · have heq := List.mem_singleton.mp hmem
      rw [frontKeyGen_gen hgens] at heq
      injection heq with _ hgen _
      exact .inr hgen
  | finalizeDone =>
    unfold onOutput onMarker at hmem
    dsimp only at hmem
    split at hmem
    · exact .inl hmem
    · split at hmem
      · exact .inl hmem
      · rcases List.mem_append.mp hmem with hmem | hmem
        · exact .inl hmem
        · have hnot := List.mem_singleton.mp hmem
          contradiction

theorem Attributed.foldl {l : Ledger} (hgens : ∀ o ∈ l.queue, o.gen = l.gen)
    (hpast : ∀ key gen t, .transcript key gen t ∈ l.produced → gen ≤ l.gen)
    (fallbackKey : Option Nat) (items : List SttOutput) :
    (∀ o ∈ (items.foldl (fun l o => l.onOutput fallbackKey o) l).queue, o.gen = l.gen) ∧
      ∀ key gen t, .transcript key gen t ∈
        (items.foldl (fun l o => l.onOutput fallbackKey o) l).produced → gen ≤ l.gen := by
  induction items generalizing l with
  | nil => exact ⟨hgens, hpast⟩
  | cons o items ih =>
    have hgen : (l.onOutput fallbackKey o).gen = l.gen := (l.onOutput_frame fallbackKey o).2.2.2
    have hqueue : (l.onOutput fallbackKey o).queue = l.queue.drop ([o].count .finalizeDone) :=
      foldl_onOutput_keys fallbackKey [o] l
    rw [List.foldl_cons, ← hgen]
    refine ih (fun x hx => ?_) fun key gen t hmem => ?_
    · rw [hqueue] at hx
      rw [hgen]
      exact hgens x (List.mem_of_mem_drop hx)
    · rw [hgen]
      rcases mem_produced_onOutput hgens fallbackKey o hmem with hold | hnew
      · exact hpast key gen t hold
      · exact Nat.le_of_eq hnew

theorem Attributed.drain {l : Ledger} (h : l.Attributed) {b : Allowance} (haligned : l.Aligned b)
    (fallbackKey : Option Nat) (items : List SttOutput)
    (hfallback : fallbackKey.isSome → l.mode = some .inlined) :
    (l.drain fallbackKey items).Attributed := by
  obtain ⟨hmode, -, hcalls, hgen⟩ := (l.takePolled items).foldl_onOutput_frame fallbackKey items
  obtain ⟨hgens, hpast⟩ := Attributed.foldl (l := l.takePolled items) h.gens h.past fallbackKey items
  refine ⟨fun o ho => (hgens o ho).trans hgen.symm,
    fun key gen t hmem => Nat.le_trans (hpast key gen t hmem) (Nat.le_of_eq hgen.symm),
    fun hnot => ?_⟩
  have hkind : l.mode ≠ some .inlined := fun hinlined => hnot (hmode.trans hinlined)
  have hnone : fallbackKey = none := by
    cases fallbackKey with
    | none => rfl
    | some key => exact absurd (hfallback rfl) hkind
  obtain ⟨extra, hkeys, hextra⟩ := haligned.queue
  rw [if_neg fun hopen => hkind (haligned.inlined hopen), List.length_eq_zero_iff] at hextra
  rw [hextra, List.append_nil] at hkeys
  subst hnone
  have hforwarded := foldl_onOutput_forwarded items (l.takePolled items) l.calls h.gens hkeys
  have hfirst := h.keys hkind
  have hall : (l.drain none items).calls = l.calls ++ items.map .polled := hcalls
  have hsame : (l.drain none items).gen = l.gen := hgen
  rw [hall, hsame, attributed_append, ← hfirst]
  exact hforwarded

end Ledger

open Ledger in
theorem LedgerStep.keepsAttribution {l m : Ledger} {es : List LedgerEvent} (hs : LedgerStep l es m)
    {b : Allowance} (haligned : l.Aligned b) (h : l.Attributed) : m.Attributed := by
  cases hs with
  | aside r haside =>
    refine h.mute fun key gen t heq => ?_
    rw [heq] at haside
    contradiction
  | pushed t hmode => exact h.forward hmode none t
  | drained fallbackKey items hfallback _ => exact h.drain haligned fallbackKey items hfallback
  | restarted now base =>
    refine ⟨fun x hx => ?_, h.past, h.keys⟩
    obtain ⟨o, ho, rfl⟩ := List.mem_map.mp hx
    rw [(Actor.restartWait_same now base o).2.2.1]
    exact h.gens o ho
  | timedOut old young o now hqueue _ _ =>
    have hgens := h.gens
    rw [hqueue] at hgens
    have hmarked : Attributed { l with
        queue := old ++ { o with timedOut := true, timedOutAt := some now } :: young } := by
      refine ⟨fun x hx => ?_, h.past, h.keys⟩
      rcases List.mem_append.mp hx with hx | hx
      · exact hgens x (List.mem_append_left _ hx)
      · rcases List.mem_cons.mp hx with rfl | hx
        · exact hgens o (List.mem_append_right _ List.mem_cons_self)
        · exact hgens x (List.mem_append_right _ (List.mem_cons_of_mem o hx))
    exact hmarked.mute (by simp)
  | dropped o rest hqueue _ =>
    have hgens := h.gens
    rw [hqueue] at hgens
    exact ⟨fun x hx => hgens x (List.mem_cons_of_mem o hx), h.past, h.keys⟩
  | vendor markers | started clears markers => exact ⟨h.gens, h.past, h.keys⟩
  | ended o accepted _ _ hgen hmode =>
    refine ⟨fun x hx => ?_, h.past, fun hnot => ?_⟩
    · rcases List.mem_append.mp hx with hx | hx
      · exact h.gens x hx
      · rw [List.mem_singleton.mp hx]
        exact hgen
    · show forwarded l.gen l.produced = attributed [] (l.calls ++ _)
      rw [attributed_append, h.keys hnot]
      cases accepted with
      | false | true => exact (List.append_nil _).symm
  | answered key late => exact h.mute (by simp)
  | closedAtOnce q o late hqueue _ =>
    have hgens := h.gens
    rw [hqueue] at hgens
    have hclosed : Attributed { l with queue := q } :=
      ⟨fun x hx => hgens x (List.mem_append_left _ hx), h.past, h.keys⟩
    exact hclosed.mute (by simp)
  | swapped mode markers _ =>
    refine ⟨by simp, fun key gen t hmem => Nat.le_succ_of_le (h.past key gen t hmem), fun _ => ?_⟩
    refine forwarded_other fun key t hmem => ?_
    exact absurd (h.past key _ t hmem) (Nat.not_succ_le_self l.gen)

/-! ## Runs -/

theorem Steps.keepsAttribution {l m : Ledger} {es : List LedgerEvent}
    (hs : Steps LedgerStep l es m) {b c : Allowance} (haligned : l.Aligned b)
    (h : l.Attributed) (hspend : b.spendAll es = some c) : m.Aligned c ∧ m.Attributed := by
  induction hs generalizing c with
  | refl =>
    cases hspend
    exact ⟨haligned, h⟩
  | snoc _ hlast ih =>
    rw [Allowance.spendAll_append, Option.bind_eq_some_iff] at hspend
    obtain ⟨mid, hfirst, hrest⟩ := hspend
    obtain ⟨hmid, hattributed⟩ := ih hfirst
    exact ⟨hlast.aligned hmid hrest, hlast.keepsAttribution hmid hattributed⟩

namespace Actor

/-- With a deferred vendor that keeps its contract, and markers taken within the grace, every
transcript taken from it is forwarded, in order, under the utterance whose marker is next,
and without a key while that utterance has not ended. -/
theorem transcripts_attributed (provider : Option (FinalizeMode × ProviderView))
    (openWaitMaxMs testFinalDelayMs : Nat) {its : List Iteration} {a : Actor} {out : List SttResult}
    (hquiet : Machine.Along step InlineQuiet
      (spawnSttActor provider openWaitMaxMs testFinalDelayMs) its)
    (hhonest : Machine.Along step (fun a it => a.Honest it ∧ a.InGrace it)
      (spawnSttActor provider openWaitMaxMs testFinalDelayMs) its)
    (hrun : Machine.run step (spawnSttActor provider openWaitMaxMs testFinalDelayMs) its =
      some (a, out))
    {p : SttProvider} (hp : a.provider = some p) (hmode : p.finalizeMode = .deferred) :
    forwarded a.gen a.produced = attributed [] p.calls := by
  have hspawn := spawn_ledger provider openWaitMaxMs testFinalDelayMs
  have hstart : (spawnSttActor provider openWaitMaxMs testFinalDelayMs).Sound ∧
      ∃ left, (spawnSttActor provider openWaitMaxMs testFinalDelayMs).ledger.Aligned ⟨left, false⟩ ∧
        (spawnSttActor provider openWaitMaxMs testFinalDelayMs).ledger.Attributed := by
    refine ⟨spawn_sound provider openWaitMaxMs testFinalDelayMs, 0, ?_, ?_⟩ <;> rw [hspawn]
    · exact ⟨⟨[], rfl, rfl⟩, by simp, Nat.le_refl _, rfl⟩
    · exact ⟨by simp, by simp, fun _ => rfl⟩
  obtain ⟨-, left, -, hend⟩ := Machine.run_invariant
    (I := fun c : Actor => c.Sound ∧ ∃ left, c.ledger.Aligned ⟨left, false⟩ ∧ c.ledger.Attributed)
    (fun c it t out hc hcond hs => by
      obtain ⟨hsound, left, haligned, hattributed⟩ := hc
      obtain ⟨hq, hh, hg⟩ := hcond
      obtain ⟨arm, parked, hwalk, hes⟩ := step_refines hsound hq hs
      obtain ⟨left', hspend⟩ := iteration_spend hes haligned hh hg
      exact ⟨hwalk.sound, left', Steps.keepsAttribution hwalk.walk haligned hattributed hspend⟩)
    hstart (hquiet.and hhonest) hrun
  have hledger : a.ledger.mode = some .deferred ∧ a.ledger.calls = p.calls := by
    unfold ledger
    rw [hp]
    exact ⟨congrArg some hmode, rfl⟩
  have hkeys := hend.keys (by rw [hledger.1]; simp)
  rw [hledger.2] at hkeys
  exact hkeys

/-! ### A live partial and a late final -/

def hearsAt (now : Instant) (outputs : List PollItem) : Iteration :=
  steadily (.command now .audio (accepted [] now) (accepted outputs now)) now

/-- A partial of utterance 1 that comes before the utterance ends carries no key. -/
theorem live_partial_has_no_key :
    ∃ a, Machine.run step steadyActor
        [hearsAt 0 [.output (.transcript (.partialText "so"))],
          endsAt 1 (fromMillis 1000) [.output .finalizeDone]] = some (a, []) ∧
      (a.provider.map SttProvider.calls) = some [.polled (.transcript (.partialText "so")),
        .requested 1, .polled .finalizeDone] ∧
      a.produced = [.transcript none 0 (.partialText "so"), .finalizeDone 1 0 false] := by
  refine ⟨_, rfl, ?_, ?_⟩
  · decide
  · decide

/-- The final of utterance 1 comes after it timed out and after utterance 2 ended; it still
goes to utterance 1, and the text behind the marker to utterance 2. -/
theorem transcripts_attributed_late :
    ∃ a p, Machine.run step steadyActor
        [endsAt 1 0 [], expiresAt (fromMillis 10000),
          endsAt 2 (fromMillis 11000) [.output (.transcript (.finalText "one")),
            .output .finalizeDone, .output (.transcript (.partialText "two"))]] = some (a, []) ∧
      a.provider = some p ∧ forwarded a.gen a.produced = attributed [] p.calls ∧
      attributed [] p.calls =
        [(some 1, .finalText "one"), (some 2, .partialText "two")] := by
  have hquiet : Machine.Along step InlineQuiet steadyActor
      [endsAt 1 0 [], expiresAt (fromMillis 10000),
        endsAt 2 (fromMillis 11000) [.output (.transcript (.finalText "one")),
          .output .finalizeDone, .output (.transcript (.partialText "two"))]] :=
    .cons (steadily_quiet rfl _ _) rfl (.cons (steadily_quiet rfl _ _) rfl
      (.cons (steadily_quiet rfl _ _) rfl trivial))
  have hhonest : Machine.Along step (fun a it => a.Honest it ∧ a.InGrace it) steadyActor
      [endsAt 1 0 [], expiresAt (fromMillis 10000),
        endsAt 2 (fromMillis 11000) [.output (.transcript (.finalText "one")),
          .output .finalizeDone, .output (.transcript (.partialText "two"))]] := by
    refine .cons ⟨⟨by decide, by decide, by decide, rfl⟩, fun now h => by contradiction⟩ rfl
      (.cons ⟨⟨by decide, by decide, by decide, rfl⟩, fun now h => ?_⟩ rfl
        (.cons ⟨⟨by decide, by decide, by decide, rfl⟩, fun now h => by contradiction⟩ rfl trivial))
    intro o ho at' hat
    cases ho
    contradiction
  exact ⟨_, _, rfl, rfl, transcripts_attributed _ _ _ hquiet hhonest rfl rfl rfl, by decide⟩

end Actor

end NodeWebrtc.SttActor
