import NodeWebrtc.Speech.SupersededChecks

/-! # The stored verdict of an utterance

A key has at most one first check on its way that is not superseded, and as long as it has one
nothing is stored for the key. So a verdict is only ever stored where there was none, or a
re-check turns `other` into `caller`; it goes with a re-open or when it falls out of the book.
-/

namespace NodeWebrtc.Speech

open Machine

variable {β ε : Type}

/-- How the stored verdict of a key changes in a step with the given events. -/
inductive VerdictChange (es : List GateEvent) (key : Nat) : Option Outcome → Option Outcome → Prop
  | same (o : Option Outcome) : VerdictChange es key o o
  | checked {attempt : Nat} {recheck : Bool} {o : Outcome}
      (stored : .stored key attempt recheck o ∈ es) : VerdictChange es key none (some o)
  | upgraded {attempt : Nat} (stored : .stored key attempt true .caller ∈ es) :
      VerdictChange es key (some .other) (some .caller)
  | reopened {after : Nat} (o : Option Outcome) (reopened : .reopened key after ∈ es) :
      VerdictChange es key o none

namespace SpeakerGate

variable {g g' : SpeakerGate β ε} {out es : List GateEvent}

theorem outcomeFor_congr (h : g'.book.verdicts = g.book.verdicts) (key : Nat) :
    g'.book.outcomeFor key = g.book.outcomeFor key := by
  rw [GateBook.outcomeFor, GateBook.outcomeFor, h]

/-- The verdict of the check may still be stored. -/
def Awaited (g : SpeakerGate β ε) (c : Check β) : Prop :=
  c ∈ g.outstanding ∧ ¬g.superseded (c.key, c.attempt)

/-- One first check at a time: two checks of a key that may still be stored are re-checks, a
first check finds nothing stored, a re-check finds no `unknown`, and an utterance without a
check has none on its way. -/
structure Single (g : SpeakerGate β ε) : Prop where
  pairs : g.outstanding.Pairwise fun c c' => c.key = c'.key →
    ¬g.superseded (c.key, c.attempt) → ¬g.superseded (c'.key, c'.attempt) →
      c.recheck = true ∧ c'.recheck = true
  first : ∀ c, g.Awaited c → c.recheck = false → g.book.outcomeFor c.key = none
  next : ∀ c, g.Awaited c → g.book.outcomeFor c.key ≠ some .unknown
  live : ∀ cur, g.feed.cur = some cur → cur.sent = false → g.Unheard cur.key

theorem Single.keeps (h : Single g) (verdicts : g'.book.verdicts = g.book.verdicts)
    (marks : g'.book.reopenedAfter = g.book.reopenedAfter)
    (outstanding : g'.outstanding.Sublist g.outstanding)
    (cur : ∀ cur', g'.feed.cur = some cur' → cur'.sent = false →
      ∃ cur, g.feed.cur = some cur ∧ cur'.key = cur.key ∧ cur.sent = false) : Single g' where
  pairs := by
    refine (h.pairs.sublist outstanding).imp fun {c c'} hp hkey hc hc' => ?_
    rw [superseded_congr marks] at hc hc'
    exact hp hkey hc hc'
  first := by
    intro c hc hrecheck
    rw [outcomeFor_congr verdicts]
    exact h.first c ⟨outstanding.subset hc.1, fun hs => hc.2 ((superseded_congr marks _).mpr hs)⟩ hrecheck
  next := by
    intro c hc
    rw [outcomeFor_congr verdicts]
    exact h.next c ⟨outstanding.subset hc.1, fun hs => hc.2 ((superseded_congr marks _).mpr hs)⟩
  live := by
    intro cur' hcur' hunsent
    obtain ⟨c, hcur, hkey, hsent⟩ := cur cur' hcur' hunsent
    obtain ⟨hnone, hsup⟩ := h.live c hcur hsent
    rw [hkey]
    refine ⟨(outcomeFor_congr verdicts _).trans hnone, fun d hd hdk => ?_⟩
    rw [superseded_congr marks]
    exact hsup d (outstanding.subset hd) hdk

variable {c : Check β}

/-- One more check: every other of its key that may still be stored is a re-check as it is, and
what is stored for the key suits it. -/
theorem Single.send (h : Single g) (verdicts : g'.book.verdicts = g.book.verdicts)
    (marks : g'.book.reopenedAfter = g.book.reopenedAfter)
    (outstanding : g'.outstanding = g.outstanding ++ [c])
    (others : ∀ d, g.Awaited d → d.key = c.key → d.recheck = true ∧ c.recheck = true)
    (first : c.recheck = false → g.book.outcomeFor c.key = none)
    (next : g.book.outcomeFor c.key ≠ some .unknown)
    (cur : ∀ cur', g'.feed.cur = some cur' → cur'.sent = true) : Single g' where
  pairs := by
    rw [outstanding, List.pairwise_append]
    refine ⟨h.pairs.imp fun {d d'} hp hkey hd hd' => ?_, List.pairwise_singleton _ _, ?_⟩
    · rw [superseded_congr marks] at hd hd'
      exact hp hkey hd hd'
    · intro d hd e he hkey hlive _
      cases List.mem_singleton.mp he
      rw [superseded_congr marks] at hlive
      exact others d ⟨hd, hlive⟩ hkey
  first := by
    intro d hd hrecheck
    rw [outcomeFor_congr verdicts]
    obtain ⟨hin, hlive⟩ := hd
    rw [superseded_congr marks] at hlive
    rw [outstanding] at hin
    rcases List.mem_append.mp hin with hin | hin
    · exact h.first d ⟨hin, hlive⟩ hrecheck
    · cases List.mem_singleton.mp hin
      exact first hrecheck
  next := by
    intro d hd
    rw [outcomeFor_congr verdicts]
    obtain ⟨hin, hlive⟩ := hd
    rw [superseded_congr marks] at hlive
    rw [outstanding] at hin
    rcases List.mem_append.mp hin with hin | hin
    · exact h.next d ⟨hin, hlive⟩
    · cases List.mem_singleton.mp hin
      exact next
  live := by
    intro cur' hcur' hunsent
    rw [cur cur' hcur'] at hunsent
    cases hunsent

theorem Single.move (h : Single g) (hm : FeedMove g g') : Single g' := by
  cases hm.sends with
  | nothing attempts outstanding cur =>
    refine h.keeps hm.verdicts hm.marks (by rw [outstanding]) fun cur' hcur' hunsent => ?_
    obtain ⟨c, hc, hkey, hsent⟩ := cur cur' hcur'
    exact ⟨c, hc, hkey, by rw [← hsent, hunsent]⟩
  | first cur c live unsent attempts attempt outstanding key recheck cur' =>
    obtain ⟨hnone, hsup⟩ := h.live cur live unsent
    refine h.send hm.verdicts hm.marks outstanding (fun d hd hkey => ?_) (fun _ => ?_) ?_ cur'
    · exact absurd (hsup d hd.1 (hkey.trans key)) hd.2
    · rw [key, hnone]
    · rw [key, hnone]
      exact Option.some_ne_none _ |>.symm
  | next cur c live sent attempts attempt outstanding key recheck verdict cur' =>
    refine h.send hm.verdicts hm.marks outstanding (fun d hd hkey => ⟨?_, recheck⟩) (fun hf => ?_) ?_
      cur'
    · cases hd' : d.recheck with
      | true => rfl
      | false =>
        have hnone := h.first d hd hd'
        rw [hkey, key, verdict] at hnone
        cases hnone
    · rw [recheck] at hf
      cases hf
    · rw [key, verdict]
      decide

theorem Single.verify (h : Single g) (hm : VerifierMove g g') : Single g' :=
  h.keeps (by rw [hm.book]) (by rw [hm.book]) hm.outstanding fun cur' hcur' hunsent =>
    ⟨cur', hm.feed ▸ hcur', rfl, hunsent⟩

variable {key : Nat}

theorem superseded_reopen (hm : OpenMove g key g' es) (hre : (g.reopens key).isSome)
    (hmay : g.MayReopen key) {p : Nat × Nat} (hp : p ∈ g.onTheWay) (hkey : p.1 ≠ key) :
    g'.superseded p ↔ g.superseded p := by
  rw [superseded, (hm.reopens hre).2.1]
  exact ⟨isSuperseded_of_reopen hkey, hmay.marks p hp hkey⟩

theorem Single.reopen (h : Single g) (ht : Timed out g) (hm : OpenMove g key g' es)
    (hre : (g.reopens key).isSome) (hmay : g.MayReopen key) : Single g' := by
  obtain ⟨-, hbook, hcur⟩ := hm.reopens hre
  have hout := outstanding_of_channel g g' hm.verifier hm.channel
  have hway : ∀ c ∈ g.outstanding, (c.key, c.attempt) ∈ g.onTheWay :=
    fun c hc => mem_onTheWay.mpr (.inl ⟨c, hc, rfl⟩)
  have hself : ∀ c ∈ g.outstanding, c.key = key → g'.superseded (c.key, c.attempt) := by
    intro c hc hkey
    rw [superseded, hbook, hkey]
    exact isSuperseded_reopen_self _ _ (ht.sent (c.key, c.attempt) (hway c hc))
  have hlive : ∀ c ∈ g.outstanding, ¬g'.superseded (c.key, c.attempt) →
      c.key ≠ key ∧ ¬g.superseded (c.key, c.attempt) := by
    intro c hc hs
    have hne : c.key ≠ key := fun hkey => hs (hself c hc hkey)
    exact ⟨hne, fun hs' => hs ((superseded_reopen hm hre hmay (hway c hc) hne).mpr hs')⟩
  have hverdict : ∀ k, k ≠ key → g'.book.outcomeFor k = g.book.outcomeFor k := by
    intro k hk
    rw [hbook, outcomeFor_reopen, if_neg hk]
  refine ⟨?_, fun c hc hrecheck => ?_, fun c hc => ?_, fun cur hc hunsent => ?_⟩
  · rw [hout]
    refine h.pairs.imp_of_mem fun {c c'} hc hc' hp hkey hs hs' => ?_
    exact hp hkey (hlive c hc hs).2 (hlive c' hc' hs').2
  · obtain ⟨hin, hs⟩ := hc
    rw [hout] at hin
    obtain ⟨hne, hs'⟩ := hlive c hin hs
    rw [hverdict c.key hne]
    exact h.first c ⟨hin, hs'⟩ hrecheck
  · obtain ⟨hin, hs⟩ := hc
    rw [hout] at hin
    obtain ⟨hne, hs'⟩ := hlive c hin hs
    rw [hverdict c.key hne]
    exact h.next c ⟨hin, hs'⟩
  · rw [hcur cur hc]
    refine ⟨by rw [hbook, outcomeFor_reopen, if_pos rfl], fun c hc' hkey => ?_⟩
    rw [hout] at hc'
    exact hself c hc' hkey

theorem Single.opened (h : Single g) (ht : Timed out g) (hm : OpenMove g key g' es)
    (hmay : g.MayOpen key) : Single g' := by
  cases hre : g.reopens key with
  | some short => exact h.reopen ht hm (by rw [hre]; rfl) (hmay.1 (by rw [hre]; rfl))
  | none =>
    obtain ⟨-, hbook, hcur⟩ := hm.joins hre
    have hout := outstanding_of_channel g g' hm.verifier hm.channel
    have hsame : Single { g' with feed := { g'.feed with cur := none } } := by
      refine h.keeps (by rw [hbook]) (by rw [hbook]) ?_ fun cur' hcur' => by cases hcur'
      rw [← hout]
      exact .refl _
    refine ⟨hsame.pairs, hsame.first, hsame.next, fun cur hc hunsent => ?_⟩
    obtain ⟨hkey, hfresh⟩ := hcur cur hc
    obtain ⟨hres, hsent⟩ := hfresh hunsent
    obtain ⟨hnone, hsup⟩ := hmay.2 hre hres hsent
    rw [hkey]
    refine ⟨by rw [hbook]; exact hnone, fun c hc' hck => ?_⟩
    rw [hout] at hc'
    exact (superseded_congr (congrArg GateBook.reopenedAfter hbook) _).mpr (hsup c hc' hck)

theorem outcomeFor_storeCheck (g : SpeakerGate β ε) (c : Check β)
    (embedded : Except EmbedFail (Option ε)) (key : Nat) :
    let v := g.verdictOf c embedded
    let after := (g.storeCheck c embedded).1.book.outcomeFor key
    after = g.book.outcomeFor key ∨
      key ≠ c.key ∧ after = none ∧ bookCap ≤ g.book.verdicts.length ∨
      key = c.key ∧ after = some v.outcome ∧ (c.recheck = true → v.outcome = .caller) ∧
        (g.storeCheck c embedded).2 = [.stored c.key c.attempt c.recheck v.outcome] := by
  intro v after
  have hafter : after = (g.book.storeVerdict v).outcomeFor key := by
    show ((g.book.storeVerdict v).noteScored c.key c.window).outcomeFor key = _
    rw [GateBook.outcomeFor, GateBook.outcomeFor, verdicts_noteScored]
  have hevents : (g.storeCheck c embedded).2 = storedEvents c.attempt v := rfl
  have hpush := outcomeFor_pushCapped g.book c.key key v.outcome
  have hverdicts : (g.book.storeVerdict v).verdicts =
      if c.recheck = true ∧ v.outcome ≠ .caller then g.book.verdicts
      else pushCapped g.book.verdicts (c.key, v.outcome) := by
    rw [GateBook.storeVerdict]
    cases hrecheck : c.recheck with
    | false =>
      rw [show v.recheck = false from hrecheck, if_neg (by simp), if_neg (by simp)]
      rfl
    | true =>
      rw [if_pos (show v.recheck = true from hrecheck)]
      show (if v.outcome = .caller then _ else _) = _
      by_cases hcaller : v.outcome = .caller
      · rw [if_pos hcaller, if_neg fun h => h.2 hcaller]
        rfl
      · rw [if_neg hcaller, if_pos ⟨rfl, hcaller⟩]
  by_cases hkept : c.recheck = true ∧ v.outcome ≠ .caller
  · left
    rw [hafter, GateBook.outcomeFor, GateBook.outcomeFor, hverdicts, if_pos hkept]
  · have heq : after = GateBook.outcomeFor
        { g.book with verdicts := pushCapped g.book.verdicts (c.key, v.outcome) } key := by
      rw [hafter, GateBook.outcomeFor, hverdicts, if_neg hkept]
      rfl
    rcases hpush with h | ⟨h, hne, hcap⟩
    · by_cases hkey : key = c.key
      · right
        right
        refine ⟨hkey, ?_, fun hrecheck => ?_, ?_⟩
        · rw [heq, h, if_pos hkey]
        · by_contra hcaller
          exact hkept ⟨hrecheck, hcaller⟩
        · rw [hevents, storedEvents]
          refine if_neg fun h => hkept ?_
          rw [Bool.and_eq_true, decide_eq_true_eq] at h
          exact h
      · left
        rw [heq, h, if_neg hkey]
    · exact .inr (.inl ⟨hne, by rw [heq, h], hcap⟩)

theorem awaited_of_checking (ht : Timed out g) (hv : g.verifier = .checking c) : g.Awaited c := by
  refine ⟨?_, ht.tested c hv⟩
  rw [outstanding, hv]
  exact List.mem_append_left _ (List.mem_singleton_self c)

theorem Single.stored {embedded : Except EmbedFail (Option ε)} (h : Single g) (ht : Timed out g)
    (hv : g.verifier = .checking c) (key : Nat) :
    VerdictChange (g.storeCheck c embedded).2 key (g.book.outcomeFor key)
        ((g.storeCheck c embedded).1.book.outcomeFor key) ∨
      (g.storeCheck c embedded).1.book.outcomeFor key = none ∧ bookCap ≤ g.book.verdicts.length := by
  have hc := awaited_of_checking ht hv
  rcases outcomeFor_storeCheck g c embedded key with heq | ⟨-, hnone, hcap⟩ | ⟨rfl, heq, hcaller, hes⟩
  · rw [heq]
    exact .inl (.same _)
  · exact .inr ⟨hnone, hcap⟩
  · left
    rw [heq, hes]
    cases hrecheck : c.recheck with
    | false =>
      rw [h.first c hc hrecheck]
      exact .checked (List.mem_singleton_self _)
    | true =>
      rw [hcaller hrecheck]
      cases hbefore : g.book.outcomeFor c.key with
      | none => exact .checked (List.mem_singleton_self _)
      | some o =>
        cases o with
        | caller => exact .same _
        | other => exact .upgraded (List.mem_singleton_self _)
        | unknown => exact absurd hbefore (h.next c hc)

theorem Single.store {embedded : Except EmbedFail (Option ε)} (h : Single g) (ht : Timed out g)
    (hv : g.verifier = .checking c) : Single (g.storeCheck c embedded).1 := by
  have hlive := awaited_of_checking ht hv
  have hmarks := marks_storeCheck g c embedded
  have hout : g.outstanding = c :: (g.storeCheck c embedded).1.outstanding := by
    rw [outstanding, hv]
    rfl
  have hpairs := h.pairs
  rw [hout, List.pairwise_cons] at hpairs
  have hrest : ∀ d, (g.storeCheck c embedded).1.Awaited d → g.Awaited d ∧
      (d.key = c.key → d.recheck = true ∧ c.recheck = true) := by
    intro d hd
    obtain ⟨hin, hs⟩ := hd
    rw [superseded_congr hmarks] at hs
    refine ⟨⟨hout ▸ List.mem_cons_of_mem c hin, hs⟩, fun hkey => ?_⟩
    exact (hpairs.1 d hin hkey.symm hlive.2 hs).symm
  refine ⟨hpairs.2.imp fun {d d'} hp hkey hd hd' => ?_, fun d hd hrecheck => ?_, fun d hd => ?_,
    fun cur hcur hunsent => ?_⟩
  · rw [superseded_congr hmarks] at hd hd'
    exact hp hkey hd hd'
  · obtain ⟨hd', hsame⟩ := hrest d hd
    rcases outcomeFor_storeCheck g c embedded d.key with heq | ⟨-, hnone, -⟩ | ⟨hkey, -⟩
    · rw [heq]
      exact h.first d hd' hrecheck
    · exact hnone
    · rw [(hsame hkey).1] at hrecheck
      cases hrecheck
  · obtain ⟨hd', hsame⟩ := hrest d hd
    rcases outcomeFor_storeCheck g c embedded d.key with heq | ⟨-, hnone, -⟩ | ⟨hkey, heq, hcaller, -⟩
    · rw [heq]
      exact h.next d hd'
    · rw [hnone]
      exact (Option.some_ne_none _).symm
    · rw [heq, hcaller (hsame hkey).2]
      decide
  · obtain ⟨hnone, hsup⟩ := h.live cur hcur hunsent
    refine ⟨?_, fun d hd hkey => ?_⟩
    · rcases outcomeFor_storeCheck g c embedded cur.key with heq | ⟨-, hnone', -⟩ | ⟨hkey, -⟩
      · rw [heq, hnone]
      · exact hnone'
      · exact absurd (hsup c hlive.1 hkey.symm) hlive.2
    · rw [superseded_congr hmarks]
      exact hsup d (hout ▸ List.mem_cons_of_mem c hd) hkey

/-! ## Steps and runs -/

theorem verdictChange_of_verdicts (h : g'.book.verdicts = g.book.verdicts) :
    VerdictChange es key (g.book.outcomeFor key) (g'.book.outcomeFor key) := by
  rw [outcomeFor_congr h]
  exact .same _

/-- What one step keeps, and how it changes a stored verdict. -/
structure StepKeeps (out : List GateEvent) (g g' : SpeakerGate β ε) (es : List GateEvent) : Prop where
  timed : Timed (out ++ es) g'
  single : Single g'
  verdicts : ∀ key, VerdictChange es key (g.book.outcomeFor key) (g'.book.outcomeFor key) ∨
    g'.book.outcomeFor key = none ∧ bookCap ≤ g.book.verdicts.length

theorem StepKeeps.of_move (ht : Timed out g) (hs : Single g) (hm : FeedMove g g') :
    StepKeeps out g g' [] :=
  ⟨by rw [List.append_nil]; exact ht.move hm, hs.move hm, fun _ => .inl (verdictChange_of_verdicts hm.verdicts)⟩

theorem StepKeeps.of_verify (ht : Timed out g) (hs : Single g) (hm : VerifierMove g g') :
    StepKeeps out g g' [] :=
  ⟨by rw [List.append_nil]; exact ht.verify hm, hs.verify hm,
    fun _ => .inl (verdictChange_of_verdicts (by rw [hm.book]))⟩

theorem verdictChange_of_open (hm : OpenMove g key g' es) (k : Nat) :
    VerdictChange es k (g.book.outcomeFor k) (g'.book.outcomeFor k) := by
  cases hre : g.reopens key with
  | none => exact verdictChange_of_verdicts (by rw [(hm.joins hre).2.1])
  | some short =>
    obtain ⟨hes, hbook, -⟩ := hm.reopens (by rw [hre]; rfl)
    rw [hbook, outcomeFor_reopen]
    by_cases hk : k = key
    · rw [if_pos hk]
      exact .reopened _ (by rw [hes, hk]; exact List.mem_singleton_self _)
    · rw [if_neg hk]
      exact .same _

theorem begin_verdicts (g : SpeakerGate β ε) (key : Nat) (frame : List β) (k : Nat) :
    VerdictChange (g.begin key frame).2 k (g.book.outcomeFor k)
      ((g.begin key frame).1.book.outcomeFor k) := by
  have hleft := (leaveOther_move g key).verdicts
  rcases begin_cases g key frame with heq | heq | ⟨-, -, heq⟩ <;> rw [heq]
  · exact verdictChange_of_verdicts hleft
  · exact verdictChange_of_verdicts ((pushFrame_move _ _).verdicts.trans hleft)
  · have hopen := verdictChange_of_open (openCur_move (g.leaveOther key) key) k
    rw [outcomeFor_congr hleft] at hopen
    rwa [outcomeFor_congr (pushFrame_move _ _).verdicts]

theorem StepKeeps.of_begin {frame : List β} (ht : Timed out g) (hs : Single g)
    (hmeets : g.Meets (.begin key frame)) :
    StepKeeps out g (g.begin key frame).1 (g.begin key frame).2 := by
  have hboth := begin_keeps (I := fun out s => Timed out s ∧ Single s)
    (fun h hm => ⟨h.1.move hm, h.2.move hm⟩)
    (fun h hm hmay => ⟨h.1.opened hm hmay, h.2.opened h.1 hm hmay⟩) ⟨ht, hs⟩ hmeets
  exact ⟨hboth.1, hboth.2, fun k => .inl (begin_verdicts g key frame k)⟩

theorem StepKeeps.of_apply {task attempt : Nat} {v : Verdict} (rejoin : Bool) (ht : Timed out g)
    (hs : Single g) (htask : g.deliveries[task]? = some (attempt, v)) :
    let r := applySpeakerVerdict { g with deliveries := g.deliveries.eraseIdx task } attempt v rejoin
    StepKeeps out g r.1 r.2 := by
  intro r
  have hsame : r.1.book = g.book ∧ r.1.feed.cur = g.feed.cur ∧ r.1.outstanding = g.outstanding := by
    rcases applySpeakerVerdict_cases { g with deliveries := g.deliveries.eraseIdx task } attempt v
      rejoin with heq | heq | ⟨epoch, -, ⟨-, heq⟩ | heq⟩
    all_goals
      rw [show r = _ from heq]
      exact ⟨rfl, rfl, rfl⟩
  obtain ⟨hbook, hcur, hout⟩ := hsame
  refine ⟨ht.apply htask, hs.keeps (by rw [hbook]) (by rw [hbook]) (by rw [hout]) ?_,
    fun _ => .inl (verdictChange_of_verdicts (by rw [hbook]))⟩
  intro cur hc hunsent
  exact ⟨cur, hcur ▸ hc, rfl, hunsent⟩

theorem StepKeeps.of_hold {epoch : Nat} {rejoin : Bool} (ht : Timed out g) (hs : Single g)
    (hmeets : g.Meets (.bargeIn key epoch rejoin)) :
    StepKeeps out g (g.holdsBarge key epoch rejoin).1 [] := by
  have hsame : (g.holdsBarge key epoch rejoin).1.book = g.book ∧
      (g.holdsBarge key epoch rejoin).1.feed.cur = g.feed.cur ∧
      (g.holdsBarge key epoch rejoin).1.outstanding = g.outstanding := by
    rcases holdsBarge_cases g key epoch rejoin with heq | heq
    all_goals
      rw [heq]
      exact ⟨rfl, rfl, rfl⟩
  obtain ⟨hbook, hcur, hout⟩ := hsame
  refine ⟨?_, hs.keeps (by rw [hbook]) (by rw [hbook]) (by rw [hout]) ?_,
    fun _ => .inl (verdictChange_of_verdicts (by rw [hbook]))⟩
  · rw [List.append_nil]
    exact ht.hold hmeets
  · intro cur hc hunsent
    exact ⟨cur, hcur ▸ hc, rfl, hunsent⟩

theorem step_keeps {i : GateInput β ε} (ht : Timed out g) (hs : Single g) (hmeets : g.Meets i)
    (hstep : g.step i = some (g', es)) : StepKeeps out g g' es := by
  cases i with simp only [step] at hstep
  | begin key frame =>
    have h := StepKeeps.of_begin ht hs hmeets
    rwa [Option.some.inj hstep] at h
  | pushFrame frame =>
    cases hstep
    exact .of_move ht hs (pushFrame_move g frame)
  | endUtterance =>
    cases hstep
    exact .of_move ht hs (endUtterance_move g)
  | bargeIn key epoch rejoin =>
    cases hstep
    exact .of_hold ht hs hmeets
  | takePendingBarge key =>
    cases hstep
    exact .of_move ht hs (takePendingBarge_move g key)
  | closeRecheck key =>
    cases hstep
    exact .of_move ht hs (closeRecheck_move g key)
  | enrollUtterance key =>
    cases hstep
    exact .of_move ht hs (enrollUtterance_move g key)
  | reset =>
    cases hstep
    exact .of_move ht hs (reset_move g)
  | setDisabled =>
    cases hstep
    exact .of_move ht hs (setDisabled_move g)
  | setPolicy | setEnabled | loadTimedOut | finishLoad =>
    cases hstep
    exact .of_move ht hs (runtime_move g _)
  | lateLoadReturned =>
    split at hstep <;> cases hstep
    · exact .of_move ht hs (.refl g)
    · exact .of_move ht hs (runtime_move g _)
  | receive =>
    split at hstep <;> cases hstep
    next msg rest hv hc =>
      exact .of_verify ht hs (receive_move hv hc)
  | enroll embedded =>
    split at hstep <;> cases hstep
    exact .of_verify ht hs (enrolledWith_move g embedded)
  | testSuperseded =>
    split at hstep
    · next c hv =>
      split at hstep <;> cases hstep
      · exact .of_verify ht hs (dropCheck_move g)
      · next hlive =>
        refine ⟨?_, hs.keeps rfl rfl ?_ fun cur h hu => ⟨cur, h, rfl, hu⟩,
          fun _ => .inl (.same _)⟩
        · rw [List.append_nil]
          exact ht.pass hv (Bool.not_eq_true _ |>.mp hlive)
        · rw [outstanding, outstanding, hv]
          exact .refl _
    · cases hstep
  | store embedded =>
    split at hstep
    · next c hv =>
      have h : StepKeeps out g (g.storeCheck c embedded).1 (g.storeCheck c embedded).2 :=
        ⟨ht.store hv, hs.store ht hv, fun key => hs.stored ht hv key⟩
      rwa [Option.some.inj hstep] at h
    · cases hstep
  | onVerdict =>
    split at hstep <;> cases hstep
    next attempt v hv =>
      exact .of_verify ht hs (onVerdict_move hv)
  | apply task rejoin =>
    split at hstep
    · cases hstep
    · next attempt v htask =>
      have h := StepKeeps.of_apply rejoin ht hs htask
      rwa [Option.some.inj hstep] at h

theorem Timed.new (cfg : SpeakerGateConfig ε) : Timed [] (SpeakerGate.new (β := β) cfg) where
  sent := fun p hp => by cases hp
  reopenings := fun _ _ h => by cases h
  marked := fun _ _ h => by cases h
  tested := fun c hc => by cases hc
  quiet := fun p hp => by cases hp
  timely := .nil

theorem Single.new (cfg : SpeakerGateConfig ε) : Single (SpeakerGate.new (β := β) cfg) where
  pairs := List.Pairwise.nil
  first := fun c hc => by cases hc.1
  next := fun c hc => by cases hc.1
  live := fun cur hcur => by cases hcur

theorem MayOpen.of_still (hout : g.outstanding = []) (hawait : g.awaiting = [])
    (hv : ∀ c, g.verifier ≠ .checking c)
    (hnone : g.reopens key = none → g.book.outcomeFor key = none) : g.MayOpen key := by
  have hway : g.onTheWay = [] := by
    rw [onTheWay, hout, hawait]
    rfl
  refine ⟨fun _ => ⟨fun c hc => absurd hc (hv c), fun _ p hp => ?_, fun p hp => ?_⟩,
    fun hre _ _ => ⟨hnone hre, fun c hc => ?_⟩⟩
  · rw [hawait] at hp
    cases hp
  · rw [hway] at hp
    cases hp
  · rw [hout] at hc
    cases hc

/-- In every run that re-opens in time, no verdict of a check sent before a re-open is stored
for its key or releases a barge-in of its key after it. A stored verdict changes from none to
a verdict, by a re-check from `other` to `caller`, or to none in a re-open; else it is the
oldest of a full book. -/
theorem reopened_key_answered_anew (cfg : SpeakerGateConfig ε) {is : List (GateInput β ε)}
    (hmeets : Along step Meets (SpeakerGate.new cfg) is)
    (hr : run step (SpeakerGate.new cfg) is = some (g, out)) :
    EachAfter GateEvent.Timely out ∧
      ∀ i g' es, g.Meets i → g.step i = some (g', es) → ∀ key,
        VerdictChange es key (g.book.outcomeFor key) (g'.book.outcomeFor key) ∨
          g'.book.outcomeFor key = none ∧ bookCap ≤ g.book.verdicts.length := by
  have hinv : Timed out g ∧ Single g := by
    refine run_history (I := fun _ out s => Timed out s ∧ Single s) ?_
      ⟨Timed.new cfg, Single.new cfg⟩ hmeets hr
    intro _ out s i t es h hm hs
    have hkept := step_keeps h.1 h.2 hm hs
    exact ⟨hkept.timed, hkept.single⟩
  refine ⟨hinv.1.timely, fun i g' es hm hs key => ?_⟩
  exact (step_keeps hinv.1 hinv.2 hm hs).verdicts key

/-- The default windows, with one millisecond for the enrollment. -/
def quickEnrollment : SpeakerGateConfig Unit where
  enabled := true
  enrollSpeechMs := 1
  checkSpeechMs := 1500
  minCheckSpeechMs := 1500
  suppressShortBargeIn := false
  recheckOnOther := true
  recheckMaxWindows := 12
  bargeIn := .callerOnly
  isCaller := fun _ _ => some true

/-- An utterance that ends short, has its verdict applied, and goes on. -/
def resumedInTime : List (GateInput Nat Unit) :=
  [.begin 1 [0], .endUtterance, .receive, .testSuperseded, .store (.ok none), .onVerdict,
    .apply 0 true, .begin 1 [0], .endUtterance, .receive, .testSuperseded]

theorem reopened_key_answered_anew_short :
    ∃ g out, run step (SpeakerGate.new quickEnrollment) resumedInTime = some (g, out) ∧
      EachAfter GateEvent.Timely out ∧
      ∀ i g' es, g.Meets i → g.step i = some (g', es) → ∀ key,
        VerdictChange es key (g.book.outcomeFor key) (g'.book.outcomeFor key) ∨
          g'.book.outcomeFor key = none ∧ bookCap ≤ g.book.verdicts.length := by
  have hmeets : Along step Meets (SpeakerGate.new quickEnrollment) resumedInTime := by
    refine .cons (fun _ _ => .of_still rfl rfl (fun c h => by cases h) fun _ => rfl) rfl ?_
    refine .cons trivial rfl (.cons trivial rfl (.cons trivial rfl (.cons trivial rfl ?_)))
    refine .cons trivial rfl (.cons trivial rfl ?_)
    refine .cons (fun _ _ => .of_still rfl rfl (fun c h => by cases h) fun h => by cases h) rfl ?_
    exact .cons trivial rfl (.cons trivial rfl (.cons trivial rfl trivial))
  exact ⟨_, _, rfl, reopened_key_answered_anew quickEnrollment hmeets rfl⟩

/-- The verdict of a short utterance, past its test when the utterance goes on. -/
def resumedTooEarly : List (GateInput Nat Unit) :=
  [.begin 1 (List.replicate 32 0), .endUtterance, .enrollUtterance 1, .receive, .testSuperseded,
    .store (.ok none), .onVerdict, .apply 0 true, .receive, .enroll (.ok (some ())),
    .begin 2 [0], .endUtterance, .receive, .testSuperseded,
    .begin 2 [0], .bargeIn 2 7 true, .store (.ok none), .onVerdict, .apply 0 true]

/-- It is stored for the re-opened key and releases the barge-in held after the re-open. -/
theorem superseded_verdict_released :
    ∃ g, run step (SpeakerGate.new quickEnrollment) resumedTooEarly = some (g,
        [.stored 1 1 false .unknown, .reopened 2 2, .stored 2 2 false .unknown,
          .released 2 2 7]) ∧
      ¬EachAfter GateEvent.Timely
        [.stored 1 1 false .unknown, .reopened 2 2, .stored 2 2 false .unknown,
          .released 2 2 7] := by
  refine ⟨_, rfl, fun h => ?_⟩
  have htimely := h [.stored 1 1 false .unknown, .reopened 2 2] (.stored 2 2 false .unknown)
    [.released 2 2 7] rfl
  exact Nat.lt_irrefl 2 (htimely 2 (by simp))

end SpeakerGate

end NodeWebrtc.Speech
