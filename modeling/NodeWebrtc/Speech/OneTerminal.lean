import NodeWebrtc.Speech.UtteranceWalk

/-! # One terminal event per utterance

The flags of a record account for the terminal events under its id, as long as no result is
applied to a record that is terminal and C1 does not fire on one.
-/

namespace NodeWebrtc.VoiceAgent

open SttActor (SttTranscript SttResult)

/-! ## One record -/

/-- The flags of `r` account for its share of the terminal events `told`. -/
structure RecordOk (told : List Nat) (r : SttUtterance) : Prop where
  emitted : told.count r.key = if r.terminal then 1 else 0
  final : r.finalEmitted = true → r.terminal = true
  notFound : r.notFoundEmitted = true → r.terminal = true
  /-- Nothing is left for the close of a terminal record. -/
  spent : r.terminal = true →
    r.finalEmitted = true ∨ (r.notFoundEmitted = true ∧ r.hasText = false)
  unheard : r.partialsEmitted = false → r.hasText = false

namespace RecordOk

variable {told : List Nat} {r r' : SttUtterance}

theorem hasText_congr (h : r'.lastPartialText = r.lastPartialText) : r'.hasText = r.hasText := by
  unfold SttUtterance.hasText SttUtterance.forcedText
  rw [h]

theorem alike (h : RecordOk told r) (halike : r.Alike r') : RecordOk told r' := by
  have htext := hasText_congr halike.text
  refine ⟨?_, ?_, ?_, ?_, ?_⟩
  · rw [halike.key, halike.terminal]
    exact h.emitted
  · rw [halike.final, halike.terminal]
    exact h.final
  · rw [halike.notFound, halike.terminal]
    exact h.notFound
  · rw [halike.terminal, halike.final, halike.notFound, htext]
    exact h.spent
  · rw [halike.partials, htext]
    exact h.unheard

theorem untold (h : RecordOk told r) (hopen : r.terminal = false) :
    told.count r.key = 0 ∧ r.finalEmitted = false ∧ r.notFoundEmitted = false := by
  have hemitted := h.emitted
  rw [hopen, if_neg Bool.false_ne_true] at hemitted
  refine ⟨hemitted, Bool.eq_false_iff.mpr fun hfinal => ?_, Bool.eq_false_iff.mpr fun hnot => ?_⟩
  · rw [h.final hfinal] at hopen
    contradiction
  · rw [h.notFound hnot] at hopen
    contradiction

theorem count_told (h : told.count r.key = 0) : (told ++ [r.key]).count r.key = 1 := by
  rw [List.count_append, h, List.count_singleton_self]

theorem hear (h : RecordOk told r) (hopen : r.terminal = false) (text : String) :
    RecordOk told (r.hear text) where
  emitted := h.emitted
  final := h.final
  notFound := h.notFound
  spent := fun hterminal => by
    have hterminal' : r.terminal = true := hterminal
    rw [hopen] at hterminal'
    contradiction
  unheard := fun hquiet => Bool.noConfusion hquiet

theorem finish (h : RecordOk told r) (hopen : r.terminal = false) (text : String) :
    RecordOk (told ++ if r.finishTells text then [r.key] else []) (r.finish text) := by
  obtain ⟨hcount, hfinal, hnot⟩ := h.untold hopen
  have htells : r.finishTells text = true := by
    unfold SttUtterance.finishTells
    rw [hnot, Bool.and_false]
    rfl
  rw [htells, if_pos rfl]
  unfold SttUtterance.finish
  rw [hnot]
  by_cases hblank : isBlank text = true
  · rw [if_pos hblank, if_neg Bool.false_ne_true]
    exact ⟨count_told hcount, fun _ => rfl, fun _ => rfl, fun _ => .inl rfl, h.unheard⟩
  · rw [if_neg hblank]
    exact ⟨count_told hcount, fun _ => rfl, fun _ => rfl, fun _ => .inl rfl, h.unheard⟩

theorem expire (h : RecordOk told r) (hopen : r.terminal = false) (hquiet : r.partialsEmitted = false)
    (hsession : r.userSttSessionOpen = true) : RecordOk (told ++ [r.key]) r.expire := by
  obtain ⟨hcount, hfinal, -⟩ := h.untold hopen
  unfold SttUtterance.expire
  rw [if_pos hsession]
  exact ⟨count_told hcount, fun _ => rfl, fun _ => rfl, fun _ => .inr ⟨rfl, h.unheard hquiet⟩,
    h.unheard⟩

theorem close (h : RecordOk told r) :
    RecordOk (told ++ if r.closeTells then [r.key] else []) r.close := by
  unfold SttUtterance.close SttUtterance.closeTells
  by_cases hforced : r.needsForced = true
  · rw [if_pos hforced, hforced, Bool.true_or, if_pos rfl]
    have hflags := hforced
    unfold SttUtterance.needsForced at hflags
    simp only [Bool.and_eq_true, Bool.not_eq_true'] at hflags
    obtain ⟨⟨hfinal, -⟩, htext⟩ := hflags
    have hopen : r.terminal = false := by
      refine Bool.eq_false_iff.mpr fun hterminal => ?_
      rcases h.spent hterminal with hdone | ⟨-, hblank⟩
      · rw [hfinal] at hdone
        contradiction
      · rw [htext] at hblank
        contradiction
    exact ⟨count_told (h.untold hopen).1, fun _ => rfl, fun _ => rfl, fun _ => .inl rfl, h.unheard⟩
  · rw [if_neg hforced, Bool.eq_false_iff.mpr hforced, Bool.false_or]
    by_cases hmissing : r.needsNotFound = true
    · have hflags := hmissing
      unfold SttUtterance.needsNotFound at hflags
      simp only [Bool.and_eq_true, Bool.not_eq_true'] at hflags
      obtain ⟨⟨⟨hfinal, htext⟩, -⟩, hnot⟩ := hflags
      have hopen : r.terminal = false := by
        refine Bool.eq_false_iff.mpr fun hterminal => ?_
        rcases h.spent hterminal with hdone | ⟨hdone, -⟩
        · rw [hfinal] at hdone
          contradiction
        · rw [hnot] at hdone
          contradiction
      have hcount := count_told (h.untold hopen).1
      have hmissed : r.missed = ({ r with notFoundEmitted := true } : SttUtterance).markTerminal := by
        unfold SttUtterance.missed
        rw [if_pos hmissing]
      rw [if_pos hmissing, hmissed]
      split
      · exact ⟨hcount, fun _ => rfl, fun _ => rfl, fun _ => .inl rfl, h.unheard⟩
      · exact ⟨hcount, fun _ => rfl, fun _ => rfl, fun _ => .inr ⟨rfl, htext⟩, h.unheard⟩
    · have hmissed : r.missed = r := by
        unfold SttUtterance.missed
        rw [if_neg hmissing]
      rw [if_neg hmissing, hmissed, List.append_nil]
      split
      · rename_i hends
        obtain ⟨hreason, hfinal⟩ := Bool.and_eq_true_iff.mp hends
        -- A forced close without a text was preceded by its `not_found`.
        have hterminal : r.terminal = true := by
          refine h.notFound ?_
          unfold SttUtterance.needsForced at hforced
          unfold SttUtterance.needsNotFound at hmissing
          have htext : r.hasText = false := by
            cases hpartials : r.partialsEmitted with
            | false => exact h.unheard hpartials
            | true =>
              rw [hfinal, hpartials] at hforced
              simpa using hforced
          rw [hfinal, htext, hreason] at hmissing
          simpa using hmissing
        exact ⟨h.emitted, fun _ => hterminal, h.notFound, fun _ => .inl rfl, h.unheard⟩
      · exact ⟨h.emitted, h.final, h.notFound, h.spent, h.unheard⟩

end RecordOk

/-! ## All records -/

namespace Turns

/-- Every terminal event is accounted for by one record, and no id has two. -/
structure Single (t : Turns) : Prop where
  once : ∀ key, t.terminals.count key ≤ 1
  drawn : ∀ key ∈ t.terminals, key < t.nextKey
  records : ∀ r ∈ t.records, RecordOk t.terminals r

theorem mem_records {t : Turns} {r : SttUtterance} :
    r ∈ t.records ↔ t.live = some r ∨ r ∈ t.closing := by
  unfold records
  rw [List.mem_append, Option.mem_toList]

theorem record_mem {t : Turns} {key : Nat} {r : SttUtterance} (h : t.record key = some r) :
    r ∈ t.records := by
  rw [mem_records]
  unfold record at h
  rw [Option.or_eq_some_iff] at h
  rcases h with h | ⟨-, h⟩
  · exact .inl (Option.filter_eq_some_iff.mp h).1
  · exact .inr (List.mem_of_find?_eq_some h)

theorem Ordered.drawn {t : Turns} (h : t.Ordered) {r : SttUtterance} (hr : r ∈ t.records) :
    r.key < t.nextKey := by
  rcases mem_records.mp hr with hlive | hclosing
  · refine (h.live r.key ?_).1
    unfold liveKey
    rw [hlive]
    rfl
  · exact h.below r.key (List.mem_map_of_mem hclosing)

theorem mem_modifyFirst {r' x : SttUtterance} {cs : List SttUtterance}
    (hsorted : (cs.map SttUtterance.key).Pairwise (· < ·))
    (hx : x ∈ modifyFirst (fun y => y.key == r'.key) (fun _ => r') cs) :
    x = r' ∨ (x ∈ cs ∧ x.key ≠ r'.key) := by
  induction cs with
  | nil => cases hx
  | cons c cs ih =>
    rw [List.map_cons, List.pairwise_cons] at hsorted
    obtain ⟨hfirst, hrest⟩ := hsorted
    unfold modifyFirst at hx
    by_cases hc : (c.key == r'.key) = true
    · rw [if_pos hc] at hx
      rcases List.mem_cons.mp hx with rfl | hx
      · exact .inl rfl
      · have hlt := hfirst x.key (List.mem_map_of_mem hx)
        rw [beq_iff_eq.mp hc] at hlt
        exact .inr ⟨List.mem_cons_of_mem c hx, (Nat.ne_of_lt hlt).symm⟩
    · rw [if_neg hc] at hx
      rcases List.mem_cons.mp hx with rfl | hx
      · exact .inr ⟨List.mem_cons_self, fun heq => hc (beq_iff_eq.mpr heq)⟩
      · rcases ih hrest hx with rfl | ⟨hmem, hne⟩
        · exact .inl rfl
        · exact .inr ⟨List.mem_cons_of_mem c hmem, hne⟩

theorem mem_records_put {t : Turns} {r' x : SttUtterance} (h : t.Ordered)
    (hx : x ∈ (t.put r').records) : x = r' ∨ (x ∈ t.records ∧ x.key ≠ r'.key) := by
  rw [mem_records] at hx
  unfold put at hx
  by_cases hlive : (t.live.any fun y => y.key == r'.key) = true
  · rw [if_pos hlive] at hx
    rcases hx with hx | hx
    · exact .inl (Option.some.inj hx).symm
    · refine .inr ⟨mem_records.mpr (.inr hx), fun heq => ?_⟩
      refine h.not_live (r := x) hx ?_
      rw [heq]
      exact hlive
  · rw [if_neg hlive] at hx
    rcases hx with hx | hx
    · refine .inr ⟨mem_records.mpr (.inl hx), fun heq => hlive ?_⟩
      have hx' : t.live = some x := hx
      rw [hx']
      exact beq_iff_eq.mpr heq
    · rcases mem_modifyFirst h.closing hx with rfl | ⟨hmem, hne⟩
      · exact .inl rfl
      · exact .inr ⟨mem_records.mpr (.inr hmem), hne⟩

theorem Single.write {t : Turns} {r r' : SttUtterance} (h : t.Single) (keys : List Nat)
    (hordered : t.Ordered) (hrecord : t.record r.key = some r) (hkey : r'.key = r.key)
    (hkeys : ∀ k ∈ keys, k = r.key) (hok : RecordOk (t.terminals ++ keys) r') :
    ((t.put r').tell keys).Single := by
  obtain ⟨hnext, htold, -⟩ := t.put_frame r'
  have hterminals : ((t.put r').tell keys).terminals = t.terminals ++ keys := by
    unfold Turns.tell
    rw [htold]
  have hother : ∀ k, k ≠ r.key → (t.terminals ++ keys).count k = t.terminals.count k := by
    intro k hk
    rw [List.count_append, List.count_eq_zero.mpr fun hmem => hk (hkeys k hmem), Nat.add_zero]
  refine ⟨fun key => ?_, fun key hmem => ?_, fun x hx => ?_⟩
  · rw [hterminals]
    by_cases hk : key = r.key
    · rw [hk, ← hkey, hok.emitted]
      split
      · exact Nat.le_refl 1
      · exact Nat.zero_le 1
    · rw [hother key hk]
      exact h.once key
  · rw [hterminals, List.mem_append] at hmem
    show key < (t.put r').nextKey
    rw [hnext]
    rcases hmem with hmem | hmem
    · exact h.drawn key hmem
    · rw [hkeys key hmem]
      exact hordered.drawn (record_mem hrecord)
  · rw [hterminals]
    rcases mem_records_put hordered hx with rfl | ⟨hmem, hne⟩
    · exact hok
    · have hok' := h.records x hmem
      rw [hkey] at hne
      refine ⟨?_, hok'.final, hok'.notFound, hok'.spent, hok'.unheard⟩
      rw [hother x.key hne]
      exact hok'.emitted

theorem Single.subset {t u : Turns} (h : t.Single) (hterminals : u.terminals = t.terminals)
    (hnext : u.nextKey = t.nextKey) (hrecords : ∀ x ∈ u.records, x ∈ t.records) : u.Single := by
  refine ⟨?_, ?_, fun x hx => ?_⟩
  · rw [hterminals]
    exact h.once
  · rw [hterminals, hnext]
    exact h.drawn
  · rw [hterminals]
    exact h.records x (hrecords x hx)

end Turns

/-- Nothing is applied to a terminal record, and C1 does not fire on one. -/
def TurnEvent.Timely : TurnEvent → Prop
  | .applied _ r => r.terminal = false
  | .timedOut r _ => r.terminal = false
  | .closed _ => True

open Turns in
theorem TurnStep.single {t u : Turns} {es : List TurnEvent} (hs : TurnStep t es u)
    (hordered : t.Ordered) (h : t.Single) (hes : ∀ e ∈ es, e.Timely) : u.Single := by
  cases hs with
  | opened =>
    refine ⟨h.once, fun key hmem => Nat.lt_succ_of_lt (h.drawn key hmem), fun x hx => ?_⟩
    rcases mem_records.mp hx with hx | hx
    · rw [← Option.some.inj hx]
      have hnone : t.terminals.count t.nextKey = 0 :=
        List.count_eq_zero.mpr fun hmem => Nat.lt_irrefl _ (h.drawn _ hmem)
      exact ⟨hnone, id, id, fun hterminal => Bool.noConfusion hterminal, fun _ => rfl⟩
    · exact h.records x (mem_records.mpr (.inr hx))
  | dropped =>
    refine h.subset rfl rfl fun x hx => ?_
    rcases mem_records.mp hx with hx | hx
    · cases hx
    · cases hx
  | touched r r' hrecord halike =>
    have hok := (h.records r (record_mem hrecord)).alike halike
    have hwrite := h.write [] hordered hrecord halike.key (by simp) (by rwa [List.append_nil])
    rwa [tell_nil] at hwrite
  | asked r hlive hterminal => exact h.subset rfl rfl fun x hx => hx
  | moved r r' hlive halike =>
    refine ⟨h.once, h.drawn, fun x hx => ?_⟩
    rcases mem_records.mp hx with hx | hx
    · cases hx
    · rcases List.mem_append.mp hx with hx | hx
      · exact h.records x (mem_records.mpr (.inr hx))
      · rw [List.mem_singleton.mp hx]
        exact (h.records r (mem_records.mpr (.inl hlive))).alike halike
  | timedOut r hlive hstream hquiet =>
    have hopen : r.terminal = false := hes (.timedOut r t.closing) List.mem_cons_self
    have hsession : r.userSttSessionOpen = true := (hordered.paired r hlive).symm.trans hstream
    have hok := (h.records r (mem_records.mpr (.inl hlive))).expire hopen hquiet hsession
    have hwrite := h.write [r.key] hordered (record_live hlive) r.expire_key (by simp) hok
    rw [put_of_live hlive r.expire_key] at hwrite
    rw [if_pos hsession]
    exact hwrite
  | heard key r r' text hnames halike =>
    have hopen : r.terminal = false := hes (.applied key r) List.mem_cons_self
    have hrecord := hnames.record hordered
    have hok := ((h.records r (record_mem hrecord)).hear hopen text).alike halike
    have hkey : r'.key = r.key := halike.key
    have hwrite := h.write [] hordered hrecord hkey (by simp) (by rwa [List.append_nil])
    rwa [tell_nil] at hwrite
  | finished key r r' text hnames halike =>
    have hopen : r.terminal = false := hes (.applied key r) List.mem_cons_self
    have hrecord := hnames.record hordered
    have hok := ((h.records r (record_mem hrecord)).finish hopen text).alike halike
    refine h.write _ hordered hrecord (halike.key.trans (r.finish_key text)) (fun k hk => ?_) hok
    split at hk
    · exact List.mem_singleton.mp hk
    · cases hk
  | closedLive r r' hlive hheard halike =>
    have hkey : r'.key = r.key := halike.key.trans r.close_key
    have hok := (h.records r (mem_records.mpr (.inl hlive))).close.alike halike
    have hwrite := h.write _ hordered (record_live hlive) hkey (fun k hk => by
      split at hk
      · exact List.mem_singleton.mp hk
      · cases hk) hok
    rw [put_of_live hlive hkey] at hwrite
    exact hwrite
  | closed key r hrecord =>
    have hkey : r.key = key := by
      have hfound := List.find?_some hrecord
      exact beq_iff_eq.mp hfound
    subst hkey
    have hmem := List.mem_of_find?_eq_some hrecord
    have hrecord' : t.record r.key = some r := by
      rw [record_of_not_live (hordered.not_live hmem)]
      exact hrecord
    have hok := (h.records r (mem_records.mpr (.inr hmem))).close
    have hwrite := h.write _ hordered hrecord' r.close_key (fun k hk => by
      split at hk
      · exact List.mem_singleton.mp hk
      · cases hk) hok
    refine hwrite.subset ?_ ?_ fun x hx => ?_
    · unfold Turns.tell
      rw [(t.put_frame r.close).2.1]
    · exact ((t.put_frame r.close).1).symm
    · have hput : (t.put r.close).closing =
          modifyFirst (fun y => y.key == r.key) (fun _ => r.close) t.closing := by
        unfold put
        rw [r.close_key, if_neg (hordered.not_live hmem)]
      have hlive : (t.put r.close).live = t.live := by
        unfold put
        rw [r.close_key, if_neg (hordered.not_live hmem)]
      rw [mem_records] at hx ⊢
      rcases hx with hx | hx
      · exact .inl (hlive.trans hx)
      · refine .inr ?_
        show x ∈ (t.put r.close).closing
        rw [hput]
        have herase := eraseP_modifyFirst (p := fun y => y.key == r.key) (y := r.close) t.closing
          (beq_iff_eq.mpr r.close_key)
        rw [← herase] at hx
        exact List.mem_of_mem_eraseP hx

theorem Steps.turns_single {t u : Turns} {es : List TurnEvent} (hs : Steps TurnStep t es u)
    (hordered : t.Ordered) (h : t.Single) (hes : ∀ e ∈ es, e.Timely) : u.Single := by
  induction hs with
  | refl => exact h
  | snoc hprior hstep ih =>
    have hprior' := fun e he => hes e (List.mem_append_left _ he)
    exact hstep.single (Steps.turns_ordered hprior hordered) (ih hprior') fun e he =>
      hes e (List.mem_append_right _ he)

/-! ## The agent -/

namespace Agent

/-- The record a transcript names: by its key, else the oldest closing one, else the live one. -/
def named (a : Agent) : Option Nat → Option SttUtterance
  | some key => a.recordRef key
  | none => a.closing.head?.or a.live

/-- A result without a key finds no live record that is terminal, unless something closes, and
C1 does not fire on a terminal record. -/
def Heeds (a : Agent) : AgentInput → Prop
  | .inbound f => a.FrameC1Fires f → ∀ r, a.live = some r → r.terminal = false
  | .tick t => (a.tickC1 t).2 = true → ∀ r, a.live = some r → r.terminal = false
  | .result _ (.transcript none _ t) _ =>
    a.sttEnabled = true → a.closing = [] → a.leftover t = false →
      ∀ r, a.live = some r → r.terminal = false
  | _ => True

theorem Shows.timely {a : Agent} {i : AgentInput} (h : a.Heeds i) {e : TurnEvent}
    (he : a.Shows i e) : e.Timely := by
  cases i with
  | inbound f | tick t =>
    obtain ⟨hfires, r, hlive, rfl⟩ := he
    exact h hfires r hlive
  | peek | playbackEnded | setSttEnabled => cases he
  | result now r dropsMismatch =>
    cases r with
    | finalizeDone key gen late =>
      have hclosed : e = .closed key := he
      rw [hclosed]
      trivial
    | transcript key gen t =>
      obtain ⟨r, rfl, hlate⟩ := he
      refine Bool.eq_false_iff.mpr fun hterminal => ?_
      obtain ⟨rfl, hclosing, hlive, henabled, hleft⟩ := hlate hterminal
      have hopen := h henabled hclosing hleft r hlive
      rw [hterminal] at hopen
      contradiction
    | vendorError | swapApplied | barrierReached => cases he

theorem apply_single {a : Agent} {i : AgentInput} (hsound : a.Sound) (h : a.turns.Single)
    (hheeds : a.Heeds i) : (a.apply i).Sound ∧ (a.apply i).turns.Single := by
  obtain ⟨es, hwalk, hes, hb⟩ := a.apply_refines i hsound
  exact ⟨hb, Steps.turns_single hwalk hsound.ordered h fun e he => (hes e he).timely hheeds⟩

theorem run_single {config : VadConfig} {hasStt : Bool} {is : List AgentInput}
    (hheeds : Machine.Along step Heeds (new config hasStt) is) {a : Agent} {out : List SpeechEvent}
    (hrun : Machine.run step (new config hasStt) is = some (a, out)) :
    a.Sound ∧ a.turns.Single := by
  refine Machine.run_invariant (I := fun a : Agent => a.Sound ∧ a.turns.Single)
    (fun s i t out hs hi hstep => ?_) ⟨new_sound config hasStt, ?_⟩ hheeds hrun
  · rw [step, Option.some.injEq, Prod.mk.injEq] at hstep
    rw [← hstep.1]
    exact apply_single hs.1 hs.2 hi
  · refine ⟨fun key => Nat.zero_le 1, fun key hmem => ?_, fun r hr => ?_⟩
    · cases hmem
    · cases hr

theorem late_dropped {a : Agent} {now : Instant} {key : Option Nat} {gen : Nat} {t : SttTranscript}
    {dropsMismatch : Bool} {r : SttUtterance}
    (hheeds : a.Heeds (.result now (.transcript key gen t) dropsMismatch))
    (hnamed : a.named key = some r) (hterminal : r.terminal = true) :
    a.apply (.result now (.transcript key gen t) dropsMismatch) = a := by
  show a.applyTranscriptResult now key t dropsMismatch = a
  unfold applyTranscriptResult
  by_cases henabled : (!a.sttEnabled) = true
  · rw [if_pos henabled]
  · rw [if_neg henabled]
    unfold resolveTranscriptTarget
    cases key with
    | some key =>
      have href : a.recordRef key = some r := hnamed
      dsimp only
      rw [href]
      dsimp only
      rw [if_pos hterminal]
    | none =>
      cases hclosing : a.closing with
      | cons front rest =>
        have hfront : front = r := by
          unfold named at hnamed
          rw [hclosing] at hnamed
          exact Option.some.inj hnamed
        subst hfront
        dsimp only [List.head?_cons]
        rw [if_pos hterminal]
      | nil =>
        have hlive : a.live = some r := by
          unfold named at hnamed
          rwa [hclosing] at hnamed
        have hkey : a.liveKey = some r.key := by
          unfold liveKey
          rw [hlive]
          rfl
        -- Only an empty leftover reaches a terminal live record, and it is ignored.
        have hleft : a.leftover t = true := by
          by_contra hleft
          have hopen := hheeds (by simpa using henabled) hclosing
            (Bool.eq_false_iff.mpr hleft) r hlive
          rw [hterminal] at hopen
          contradiction
        cases t with
        | partialText text => cases hleft
        | finalText text =>
          obtain ⟨hblank, hspeaking⟩ := Bool.and_eq_true_iff.mp hleft
          dsimp only [List.head?_nil]
          rw [ensureLive_of_live hlive, hkey]
          dsimp only
          have href : a.recordRef r.key = some r :=
            Turns.record_live (t := a.turns) hlive
          unfold applyFinal
          rw [href, hkey, hblank, hspeaking]
          simp

/-- One terminal event per utterance, and nothing after it: in every run along which no result
without a key meets a terminal live record and C1 fires on none. -/
theorem one_terminal_event (config : VadConfig) (hasStt : Bool) (is : List AgentInput)
    (hheeds : Machine.Along step Heeds (new config hasStt) is) :
    ∀ pre a out, pre <+: is → Machine.run step (new config hasStt) pre = some (a, out) →
      (∀ key, (a.events.filterMap SpeechEvent.terminal?).count key ≤ 1) ∧
      ∀ now key gen t dropsMismatch r,
        pre ++ [.result now (.transcript key gen t) dropsMismatch] <+: is →
        a.named key = some r → r.terminal = true →
        a.apply (.result now (.transcript key gen t) dropsMismatch) = a := by
  intro pre a out hpre hrun
  have hprefix : Machine.Along step Heeds (new config hasStt) pre := by
    obtain ⟨rest, rfl⟩ := hpre
    exact (Machine.along_append.mp hheeds).1
  obtain ⟨-, hsingle⟩ := run_single hprefix hrun
  refine ⟨hsingle.once, fun now key gen t dropsMismatch r hnext hnamed hterminal => ?_⟩
  obtain ⟨rest, hrest⟩ := hnext
  rw [← hrest, Machine.along_append, Machine.along_append] at hheeds
  exact late_dropped (hheeds.1.2 a out hrun).1 hnamed hterminal

def gatedVad : VadConfig where
  enabled := true
  gateStt := true
  gateSttOpenOnPending := true
  sttGateHoldMs := 1000
  sttListenTimeoutMs := 4000
  sttListenBacklogSlackMs := 500
  sttListenHardTimeoutMs := 0
  sttOpenWaitMaxMs := 120000
  utteranceFinalizeTimeoutMs := 1500

def frameAt (atMs durationMs : Nat) (transitions : List VadTransition) (speaking : Bool) :
    AgentInput :=
  .inbound {
    now := fromMillis atMs
    durationMs := durationMs
    vad := some ⟨transitions, false, speaking⟩
    backlogMs := 0
    openPending := false
    emitsPartials := true
    agentSpeakingAtEnd := false
    agentSpeakingAtClose := false
    dropsMismatch := false }

def finalAt (atMs : Nat) (text : String) : AgentInput :=
  .result (fromMillis atMs) (.transcript none 0 (.finalText text)) false

def heardOnce : List AgentInput :=
  [frameAt 20 20 [.speechStart] true, finalAt 1000 "one", frameAt 2000 20 [.speechEnd] false,
    frameAt 5000 20 [.speechStart] true, finalAt 6000 "two"]

theorem one_terminal_event_heardOnce :
    ∃ a, Machine.run step (new gatedVad true) heardOnce = some (a, []) ∧
      a.events.filterMap SpeechEvent.terminal? = [1, 2] ∧
      ∀ key, (a.events.filterMap SpeechEvent.terminal?).count key ≤ 1 := by
  have hheeds : Machine.Along step Heeds (new gatedVad true) heardOnce := by
    have hquiet : ∀ {a : Agent} {r : SttUtterance}, a.live = some r → r.terminal = false →
        ∀ x, a.live = some x → x.terminal = false := by
      intro a r hr hopen x hx
      rw [hr, Option.some.injEq] at hx
      rw [← hx]
      exact hopen
    refine .cons (fun _ r hr => ?_) rfl (.cons (fun _ _ _ => hquiet rfl rfl) rfl
      (.cons (fun hfires => ?_) rfl (.cons (fun hfires => ?_) rfl
        (.cons (fun _ _ _ => hquiet rfl rfl) rfl trivial))))
    · cases hr
    · obtain ⟨v, hv, hfires⟩ := hfires
      cases hv
      cases hfires
    · obtain ⟨v, hv, hfires⟩ := hfires
      cases hv
      cases hfires
  obtain ⟨honce, -⟩ := one_terminal_event gatedVad true heardOnce hheeds heardOnce _ _
    (List.prefix_refl _) rfl
  exact ⟨_, rfl, rfl, honce⟩

/-- A vendor that ends a sentence twice within one utterance. -/
def heardTwice : List AgentInput :=
  [frameAt 20 20 [.speechStart] true, finalAt 1000 "one", finalAt 2000 "two"]

/-- No partial arrives, speech pauses briefly, and again none arrives. -/
def timedOutTwice : List AgentInput :=
  [frameAt 20 20 [.speechStart] true, frameAt 4020 4000 [] true, frameAt 4040 20 [.speechEnd] false,
    frameAt 4060 20 [.speechStart] true, frameAt 8060 4000 [] true]

/-- Both runs end one utterance twice. -/
theorem utterance_ends_twice :
    (∃ a, Machine.run step (new gatedVad true) heardTwice = some (a, []) ∧
      a.events.filterMap SpeechEvent.terminal? = [1, 1]) ∧
    (∃ a, Machine.run step (new gatedVad true) timedOutTwice = some (a, []) ∧
      a.events.filterMap SpeechEvent.terminal? = [1, 1]) :=
  ⟨⟨_, rfl, rfl⟩, ⟨_, rfl, rfl⟩⟩

end Agent

end NodeWebrtc.VoiceAgent
