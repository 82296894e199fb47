import NodeWebrtc.Lib.Trace
import NodeWebrtc.Speech.SpeakerGate

/-! # Superseded checks

The verifier tests a check against the re-opens of its key and stores its verdict later, and
the handler of a verdict runs later still. Where no re-open falls between the test and the
store, and no barge-in is held while a verdict of before a re-open waits for its handler, no
such check answers for its key: its verdict is neither stored nor releases a barge-in.
-/

namespace NodeWebrtc.Speech

open Machine

variable {β ε : Type}

/-! ## The book -/

theorem outcomeFor_pushCapped (b : GateBook) (key k : Nat) (o : Outcome) :
    let b' := { b with verdicts := pushCapped b.verdicts (key, o) }
    b'.outcomeFor k = (if k = key then some o else b.outcomeFor k) ∨
      b'.outcomeFor k = none ∧ k ≠ key ∧ bookCap ≤ b.verdicts.length := by
  intro b'
  have hle : b.verdicts.length + 1 - bookCap ≤ b.verdicts.length := by
    rw [bookCap]
    omega
  have hrev : b'.verdicts.reverse =
      (key, o) :: (b.verdicts.drop (b.verdicts.length + 1 - bookCap)).reverse := by
    show (pushCapped b.verdicts (key, o)).reverse = _
    rw [pushCapped, List.drop_append_of_le_length hle, List.reverse_append]
    rfl
  rw [GateBook.outcomeFor, hrev, List.find?_cons]
  by_cases hk : k = key
  · left
    subst hk
    simp
  · have hne : decide (key = k) = false := by simpa using Ne.symm hk
    rw [if_neg hk]
    simp only [hne]
    cases hfind : (b.verdicts.drop (b.verdicts.length + 1 - bookCap)).reverse.find?
        fun e => decide (e.1 = k) with
    | some e =>
      left
      rw [GateBook.outcomeFor, ← List.take_append_drop (b.verdicts.length + 1 - bookCap) b.verdicts,
        List.reverse_append, List.find?_append, hfind]
      rfl
    | none =>
      by_cases hcap : bookCap ≤ b.verdicts.length
      · exact Or.inr ⟨rfl, hk, hcap⟩
      · left
        rw [Nat.sub_eq_zero_of_le (by omega), List.drop_zero] at hfind
        rw [GateBook.outcomeFor, hfind]

theorem outcomeFor_reopen (b : GateBook) (key k attempts : Nat) :
    (b.reopen key attempts).outcomeFor k = if k = key then none else b.outcomeFor k := by
  rw [GateBook.outcomeFor, GateBook.reopen]
  rw [← List.filter_reverse, List.find?_filter]
  by_cases hk : k = key
  · rw [if_pos hk, List.find?_eq_none.mpr]
    · rfl
    · intro e _
      simp only [hk]
      by_cases he : e.1 = key <;> simp [he]
  · rw [if_neg hk]
    congr 1
    congr 1
    funext e
    by_cases he : e.1 = k
    · simp [he, hk]
    · simp [he]

theorem isSuperseded_reopen_self (b : GateBook) (key : Nat) {attempt attempts : Nat}
    (h : attempt ≤ attempts) : (b.reopen key attempts).isSuperseded key attempt = true := by
  rw [GateBook.isSuperseded, GateBook.reopen]
  rw [InsertMap.get_keepLast_set _ _ _ (by decide)]
  simpa using h

theorem isSuperseded_of_reopen {b : GateBook} {key k attempt attempts : Nat} (hk : k ≠ key)
    (h : (b.reopen key attempts).isSuperseded k attempt = true) : b.isSuperseded k attempt = true := by
  rw [GateBook.isSuperseded, GateBook.reopen] at h
  cases hget : (((b.reopenedAfter.delete key).set key attempts).keepLast bookCap).get k with
  | none =>
    rw [hget] at h
    cases h
  | some after =>
    rw [hget] at h
    have hget' := InsertMap.get_of_get_keepLast hget
    rw [InsertMap.get_set, if_neg hk, InsertMap.get_delete, if_neg hk] at hget'
    rw [GateBook.isSuperseded, hget']
    exact h

/-! ## What is on its way -/

def GateVerifier.inHand : GateVerifier β → List (Check β)
  | .received c => [c]
  | .checking c => [c]
  | _ => []

def GateVerifier.settled : GateVerifier β → List (Nat × Verdict)
  | .stored attempt v => [(attempt, v)]
  | _ => []

def GateMsg.check? : GateMsg β → Option (Check β)
  | .check c => some c
  | _ => none

namespace SpeakerGate

/-- The checks whose verdict is not stored yet, the one in the verifier's hand first. -/
def outstanding (g : SpeakerGate β ε) : List (Check β) :=
  g.verifier.inHand ++ g.channel.filterMap GateMsg.check?

/-- The verdicts that are stored and not applied yet, each with its attempt. -/
def awaiting (g : SpeakerGate β ε) : List (Nat × Verdict) := g.verifier.settled ++ g.deliveries

/-- Key and attempt of every check that still has to be stored or applied. -/
def onTheWay (g : SpeakerGate β ε) : List (Nat × Nat) :=
  g.outstanding.map (fun c => (c.key, c.attempt)) ++ g.awaiting.map fun p => (p.2.key, p.1)

/-- The check was sent before the last re-open of its key. -/
def superseded (g : SpeakerGate β ε) (p : Nat × Nat) : Prop := g.book.isSuperseded p.1 p.2 = true

/-- What a call on the feed side puts into the channel, and what it does to the live
utterance. -/
inductive Sends (g g' : SpeakerGate β ε) : Prop where
  | nothing (attempts : g'.feed.attempts = g.feed.attempts)
      (outstanding : g'.outstanding = g.outstanding)
      (cur : ∀ cur', g'.feed.cur = some cur' →
        ∃ cur, g.feed.cur = some cur ∧ cur'.key = cur.key ∧ cur'.sent = cur.sent)
  | first (cur : GateCur β) (c : Check β) (live : g.feed.cur = some cur) (unsent : cur.sent = false)
      (attempts : g'.feed.attempts = g.feed.attempts + 1) (attempt : c.attempt = g.feed.attempts + 1)
      (outstanding : g'.outstanding = g.outstanding ++ [c]) (key : c.key = cur.key)
      (recheck : c.recheck = false) (cur' : ∀ cur', g'.feed.cur = some cur' → cur'.sent = true)
  | next (cur : GateCur β) (c : Check β) (live : g.feed.cur = some cur) (sent : cur.sent = true)
      (attempts : g'.feed.attempts = g.feed.attempts + 1) (attempt : c.attempt = g.feed.attempts + 1)
      (outstanding : g'.outstanding = g.outstanding ++ [c]) (key : c.key = cur.key)
      (recheck : c.recheck = true) (verdict : g.book.outcomeFor cur.key = some .other)
      (cur' : ∀ cur', g'.feed.cur = some cur' → cur'.sent = true)

/-- A call on the feed side that opens no utterance and holds no barge-in. -/
structure FeedMove (g g' : SpeakerGate β ε) : Prop where
  cfg : g'.cfg = g.cfg
  verdicts : g'.book.verdicts = g.book.verdicts
  marks : g'.book.reopenedAfter = g.book.reopenedAfter
  verifier : g'.verifier = g.verifier
  deliveries : g'.deliveries = g.deliveries
  pending : ∀ k, g.feed.pendingBarge.get k = none → g'.feed.pendingBarge.get k = none
  sends : Sends g g'

variable (g : SpeakerGate β ε)

variable (cur : GateCur β)

@[simp] theorem trim_sent : (g.trim cur).sent = cur.sent := by
  rw [trim]
  split <;> rfl

@[simp] theorem trim_key : (g.trim cur).key = cur.key := by
  rw [trim]
  split <;> rfl

@[simp] theorem collect_sent (frame : List β) : (g.collect cur frame).sent = cur.sent := rfl

@[simp] theorem collect_key (frame : List β) : (g.collect cur frame).key = cur.key := rfl

@[simp] theorem verdicts_markSent (b : GateBook) (key : Nat) :
    (b.markSent key).verdicts = b.verdicts := by
  rw [GateBook.markSent]
  split <;> rfl

@[simp] theorem reopenedAfter_markSent (b : GateBook) (key : Nat) :
    (b.markSent key).reopenedAfter = b.reopenedAfter := by
  rw [GateBook.markSent]
  split <;> rfl

theorem outstanding_append (g g' : SpeakerGate β ε) {c : Check β} (hv : g'.verifier = g.verifier)
    (hc : g'.channel = g.channel ++ [.check c]) : g'.outstanding = g.outstanding ++ [c] := by
  rw [outstanding, hv, hc, List.filterMap_append, ← List.append_assoc]
  rfl

theorem outstanding_of_channel (g g' : SpeakerGate β ε) (hv : g'.verifier = g.verifier)
    (hc : g'.channel = g.channel) : g'.outstanding = g.outstanding := by
  rw [outstanding, outstanding, hv, hc]

theorem FeedMove.silent {g g' : SpeakerGate β ε} (cfg : g'.cfg = g.cfg)
    (verdicts : g'.book.verdicts = g.book.verdicts)
    (marks : g'.book.reopenedAfter = g.book.reopenedAfter) (verifier : g'.verifier = g.verifier)
    (deliveries : g'.deliveries = g.deliveries)
    (pending : ∀ k, g.feed.pendingBarge.get k = none → g'.feed.pendingBarge.get k = none)
    (attempts : g'.feed.attempts = g.feed.attempts)
    (channel : ∃ msgs, g'.channel = g.channel ++ msgs ∧ msgs.filterMap GateMsg.check? = [])
    (cur : ∀ cur', g'.feed.cur = some cur' →
      ∃ cur, g.feed.cur = some cur ∧ cur'.key = cur.key ∧ cur'.sent = cur.sent) : FeedMove g g' := by
  obtain ⟨msgs, hc, hnone⟩ := channel
  refine ⟨cfg, verdicts, marks, verifier, deliveries, pending, .nothing attempts ?_ cur⟩
  rw [outstanding, outstanding, verifier, hc, List.filterMap_append, hnone, List.append_nil]

theorem FeedMove.refl : FeedMove g g :=
  .silent rfl rfl rfl rfl rfl (fun _ h => h) rfl ⟨[], by simp, rfl⟩ fun cur h => ⟨cur, h, rfl, rfl⟩

theorem pending_delete {m : InsertMap Nat Nat} {key k : Nat} (h : m.get k = none) :
    (m.delete key).get k = none := by
  rw [InsertMap.get_delete]
  split
  · rfl
  · exact h

theorem pushSpeech_move {g : SpeakerGate β ε} {cur : GateCur β} (hcur : g.feed.cur = some cur)
    (frame : List β) : FeedMove g (g.pushSpeech cur frame) := by
  unfold pushSpeech
  dsimp only
  split
  · next hfirst =>
    have hunsent : cur.sent = false := by
      simp only [firstDue, Bool.and_eq_true] at hfirst
      simpa using hfirst.1.1
    refine ⟨rfl, verdicts_markSent _ _, reopenedAfter_markSent _ _, rfl, rfl, fun _ h => h, ?_⟩
    refine .first cur _ hcur hunsent rfl rfl (outstanding_append _ _ rfl rfl) rfl rfl ?_
    intro cur' h
    cases h
    rw [trim_sent]
  · split
    · next hnext =>
      simp only [nextDue, Bool.and_eq_true] at hnext
      have hverdict : g.book.outcomeFor cur.key = some .other := by
        have hdue := hnext.2
        simp only [GateBook.recheckDue, Bool.and_eq_true, decide_eq_true_eq] at hdue
        exact hdue.1.1
      have hsent : cur.sent = true := hnext.1.1.1.1.1.2
      refine ⟨rfl, rfl, rfl, rfl, rfl, fun _ h => h, ?_⟩
      refine .next cur _ hcur hsent rfl rfl (outstanding_append _ _ rfl rfl) rfl rfl hverdict ?_
      intro cur' h
      cases h
      rw [trim_sent]
      exact hsent
    · refine .silent rfl rfl rfl rfl rfl (fun _ h => h) rfl ⟨[], by simp [setCur], rfl⟩ ?_
      intro cur' h
      cases h
      exact ⟨cur, hcur, trim_key _ _, trim_sent _ _⟩

theorem ring_move (ring : List β) : FeedMove g { g with feed := { g.feed with ring := ring } } :=
  .silent rfl rfl rfl rfl rfl (fun _ h => h) rfl ⟨[], by simp, rfl⟩ fun cur h => ⟨cur, h, rfl, rfl⟩

theorem pushFrame_move (frame : List β) : FeedMove g (g.pushFrame frame) := by
  unfold pushFrame
  split
  · next cur hcur => exact pushSpeech_move hcur frame
  · exact ring_move g _

theorem keepEnded_eq :
    ∃ ended, g.keepEnded cur = { g with feed := { g.feed with ended := ended } } := by
  rw [keepEnded]
  split
  · exact ⟨g.feed.ended, rfl⟩
  · exact ⟨_, rfl⟩

theorem endUtterance_move : FeedMove g g.endUtterance := by
  unfold endUtterance
  split
  · exact .refl g
  · next cur hcur =>
    obtain ⟨ended, hended⟩ := keepEnded_eq
      (if cur.sent then (g.setCur none).endSent cur else (g.setCur none).endUnsent cur) cur
    rw [hended]
    cases hsent : cur.sent with
    | false =>
      refine ⟨rfl, verdicts_markSent _ _, reopenedAfter_markSent _ _, rfl, rfl, fun _ h => h, ?_⟩
      refine .first cur _ hcur hsent rfl rfl (outstanding_append _ _ rfl rfl) rfl rfl ?_
      intro cur' h
      cases h
    | true =>
      rw [if_pos rfl, endSent]
      split
      · exact .silent rfl rfl rfl rfl rfl (fun _ h => pending_delete h) rfl
          ⟨[], by simp [setCur, takePendingBarge], rfl⟩ fun cur' h => by cases h
      · exact .silent rfl rfl rfl rfl rfl (fun _ h => h) rfl ⟨[], by simp [setCur], rfl⟩
          fun cur' h => by cases h

theorem FeedMove.of_runtime {g g' : SpeakerGate β ε} {rt : GateRuntime}
    (h : FeedMove { g with runtime := rt } g') : FeedMove g g' := by
  refine ⟨h.cfg, h.verdicts, h.marks, h.verifier, h.deliveries, h.pending, ?_⟩
  cases h.sends with
  | nothing attempts outstanding cur => exact .nothing attempts outstanding cur
  | first cur c live unsent attempts attempt outstanding key recheck cur' =>
    exact .first cur c live unsent attempts attempt outstanding key recheck cur'
  | next cur c live sent attempts attempt outstanding key recheck verdict cur' =>
    exact .next cur c live sent attempts attempt outstanding key recheck verdict cur'

theorem runtime_move (rt : GateRuntime) :
    FeedMove g { g with runtime := rt } := (FeedMove.refl { g with runtime := rt }).of_runtime

theorem leaveOther_move (key : Nat) : FeedMove g (g.leaveOther key) := by
  unfold leaveOther
  dsimp only
  split
  · exact (endUtterance_move { g with runtime := g.runtime.snapshotUtt key }).of_runtime
  · exact runtime_move g _

theorem takePendingBarge_move (key : Nat) : FeedMove g (g.takePendingBarge key) :=
  .silent rfl rfl rfl rfl rfl (fun _ h => pending_delete h) rfl
    ⟨[], by simp [takePendingBarge], rfl⟩ fun cur h => ⟨cur, h, rfl, rfl⟩

theorem closeRecheck_move (key : Nat) : FeedMove g (g.closeRecheck key) := by
  refine .silent rfl ?_ ?_ rfl rfl (fun _ h => h) rfl ⟨[], by simp [closeRecheck], rfl⟩ ?_
  · show (g.book.markClosed key).verdicts = _
    rw [GateBook.markClosed]
    split <;> rfl
  · show (g.book.markClosed key).reopenedAfter = _
    rw [GateBook.markClosed]
    split <;> rfl
  · intro cur' h
    obtain ⟨cur, hcur, heq⟩ := Option.map_eq_some_iff.mp h
    refine ⟨cur, hcur, ?_⟩
    by_cases hk : cur.key = key
    · rw [if_pos hk] at heq
      exact heq ▸ ⟨rfl, rfl⟩
    · rw [if_neg hk] at heq
      exact heq ▸ ⟨rfl, rfl⟩

theorem enrollUtterance_move (key : Nat) : FeedMove g (g.enrollUtterance key) := by
  have hsame : ∀ cur', g.feed.cur = some cur' →
      ∃ cur, g.feed.cur = some cur ∧ cur'.key = cur.key ∧ cur'.sent = cur.sent :=
    fun cur h => ⟨cur, h, rfl, rfl⟩
  unfold enrollUtterance
  split
  · exact .refl g
  · split
    · split
      · exact .refl g
      · exact .silent rfl rfl rfl rfl rfl (fun _ h => h) rfl ⟨_, rfl, rfl⟩ hsame
    · split
      · exact .refl g
      · split
        · exact .silent rfl rfl rfl rfl rfl (fun _ h => h) rfl ⟨[], by simp, rfl⟩ hsame
        · exact .silent rfl rfl rfl rfl rfl (fun _ h => h) rfl ⟨_, rfl, rfl⟩ hsame

theorem reset_move : FeedMove g g.reset :=
  .silent rfl rfl rfl rfl rfl (fun _ _ => rfl) rfl ⟨_, rfl, rfl⟩ fun cur h => ⟨cur, h, rfl, rfl⟩

theorem setDisabled_move : FeedMove g g.setDisabled :=
  .silent rfl rfl rfl rfl rfl (fun _ h => h) rfl ⟨[], by simp [setDisabled], rfl⟩
    fun cur h => by cases h

/-- The part of `begin` that opens the utterance. -/
structure OpenMove (g : SpeakerGate β ε) (key : Nat) (g' : SpeakerGate β ε) (es : List GateEvent) :
    Prop where
  cfg : g'.cfg = g.cfg
  verifier : g'.verifier = g.verifier
  deliveries : g'.deliveries = g.deliveries
  channel : g'.channel = g.channel
  pending : g'.feed.pendingBarge = g.feed.pendingBarge
  attempts : g'.feed.attempts = g.feed.attempts
  reopens : (g.reopens key).isSome → es = [.reopened key g.feed.attempts] ∧
    g'.book = g.book.reopen key g.feed.attempts ∧ ∀ cur, g'.feed.cur = some cur → cur.key = key
  joins : g.reopens key = none → es = [] ∧ g'.book = g.book ∧ ∀ cur, g'.feed.cur = some cur →
    cur.key = key ∧ (cur.sent = false → g.resumed key = none ∧ key ∉ g.book.sent)

theorem openCur_move (key : Nat) : OpenMove g key (g.openCur key).1 (g.openCur key).2 := by
  unfold openCur
  cases hres : g.resumed key with
  | some buf =>
    cases hre : g.reopens key with
    | some short =>
      have hre' : SpeakerGate.reopens
          { g with feed := { g.feed with ended := g.feed.ended.dropLast } } key = some short := hre
      simp only [reopenShort, hre']
      refine ⟨rfl, rfl, rfl, rfl, rfl, rfl, fun _ => ⟨rfl, rfl, fun cur h => ?_⟩, fun h => ?_⟩
      · cases h
        rfl
      · rw [hre] at h
        cases h
    | none =>
      have hre' : SpeakerGate.reopens
          { g with feed := { g.feed with ended := g.feed.ended.dropLast } } key = none := hre
      simp only [reopenShort, hre']
      refine ⟨rfl, rfl, rfl, rfl, rfl, rfl, fun h => ?_, fun _ => ⟨rfl, rfl, ?_⟩⟩
      · rw [hre] at h
        cases h
      · intro cur h
        cases h
        exact ⟨rfl, fun h => by cases h⟩
  | none =>
    cases hre : g.reopens key with simp only [reopenShort, hre]
    | some short =>
      refine ⟨rfl, rfl, rfl, rfl, rfl, rfl, fun _ => ⟨rfl, rfl, fun cur h => ?_⟩, fun h => ?_⟩
      · cases h
        rfl
      · rw [hre] at h
        cases h
    | none =>
      refine ⟨rfl, rfl, rfl, rfl, rfl, rfl, fun h => ?_, fun _ => ⟨rfl, rfl, ?_⟩⟩
      · rw [hre] at h
        cases h
      · intro cur h
        cases h
        exact ⟨rfl, fun h => ⟨hres, by simpa [joined] using h⟩⟩

end SpeakerGate

/-! ## Verdicts in time -/

/-- No verdict of before a re-open is stored for its key, or releases a barge-in of its key,
after the re-open. -/
def GateEvent.Timely (before : List GateEvent) : GateEvent → Prop
  | .stored key attempt _ _ => ∀ after, .reopened key after ∈ before → after < attempt
  | .released key attempt _ => ∀ after, .reopened key after ∈ before → after < attempt
  | .reopened _ _ => True

namespace SpeakerGate

/-- A re-open of the key leaves no check of it between its test and its store, holds no
barge-in against a verdict that waits for its handler, and pushes no mark out of the book that
something on its way still needs. -/
structure MayReopen (g : SpeakerGate β ε) (key : Nat) : Prop where
  tested : ∀ c, g.verifier = .checking c → c.key ≠ key
  quiet : g.hasPendingBarge key = true →
    ∀ p ∈ g.awaiting, p.2.key = key → g.vetoesBarge p.2 = true
  marks : ∀ p ∈ g.onTheWay, p.1 ≠ key → g.superseded p →
    (g.book.reopen key g.feed.attempts).isSuperseded p.1 p.2 = true

/-- Nothing of the key is stored and every check of it on its way is superseded. -/
def Unheard (g : SpeakerGate β ε) (key : Nat) : Prop :=
  g.book.outcomeFor key = none ∧
    ∀ c ∈ g.outstanding, c.key = key → g.superseded (c.key, c.attempt)

/-- An utterance opens: it is re-opened in time, it joins its checks, or its key is unheard. -/
def MayOpen (g : SpeakerGate β ε) (key : Nat) : Prop :=
  ((g.reopens key).isSome → g.MayReopen key) ∧
    (g.reopens key = none → g.resumed key = none → key ∉ g.book.sent → g.Unheard key)

def Meets (g : SpeakerGate β ε) : GateInput β ε → Prop
  | .begin key _ =>
    (g.leaveOther key).runtime.scores key = true → (g.leaveOther key).feed.cur = none →
      (g.leaveOther key).MayOpen key
  | .bargeIn key epoch rejoin =>
    (g.holdsBarge key epoch rejoin).1.hasPendingBarge key = true →
      ∀ p ∈ g.awaiting, p.2.key = key → g.superseded (key, p.1) → g.vetoesBarge p.2 = true
  | _ => True

/-- What has been put out so far is in time, and what is on its way is marked. -/
structure Timed (out : List GateEvent) (g : SpeakerGate β ε) : Prop where
  sent : ∀ p ∈ g.onTheWay, p.2 ≤ g.feed.attempts
  reopenings : ∀ key after, .reopened key after ∈ out → after ≤ g.feed.attempts
  marked : ∀ key after, .reopened key after ∈ out →
    ∀ p ∈ g.onTheWay, p.1 = key → p.2 ≤ after → g.superseded p
  tested : ∀ c, g.verifier = .checking c → ¬g.superseded (c.key, c.attempt)
  quiet : ∀ p ∈ g.awaiting, g.superseded (p.2.key, p.1) → g.vetoesBarge p.2 = false →
    g.feed.pendingBarge.get p.2.key = none
  timely : EachAfter GateEvent.Timely out

variable {g g' : SpeakerGate β ε} {out es : List GateEvent}

theorem superseded_congr (h : g'.book.reopenedAfter = g.book.reopenedAfter) (p : Nat × Nat) :
    g'.superseded p ↔ g.superseded p := by
  rw [superseded, superseded, GateBook.isSuperseded, GateBook.isSuperseded, h]

theorem vetoesBarge_congr (h : g'.cfg = g.cfg) (v : Verdict) : g'.vetoesBarge v = g.vetoesBarge v := by
  rw [vetoesBarge, vetoesBarge, h]

/-- A step that re-opens nothing and holds no barge-in: what is on its way was on its way
before or was just sent, and what awaits its handler awaited it before or was tested. -/
theorem Timed.keeps (h : Timed out g) (cfg : g'.cfg = g.cfg)
    (marks : g'.book.reopenedAfter = g.book.reopenedAfter)
    (attempts : g.feed.attempts ≤ g'.feed.attempts)
    (way : ∀ p ∈ g'.onTheWay,
      p ∈ g.onTheWay ∨ g.feed.attempts < p.2 ∧ p.2 ≤ g'.feed.attempts)
    (await : ∀ p ∈ g'.awaiting, p ∈ g.awaiting ∨ ¬g.superseded (p.2.key, p.1))
    (tested : ∀ c, g'.verifier = .checking c → ¬g.superseded (c.key, c.attempt))
    (pending : ∀ k, g.feed.pendingBarge.get k = none → g'.feed.pendingBarge.get k = none) :
    Timed out g' where
  sent := by
    intro p hp
    rcases way p hp with hold | hnew
    · exact Nat.le_trans (h.sent p hold) attempts
    · exact hnew.2
  reopenings := fun key after hin => Nat.le_trans (h.reopenings key after hin) attempts
  marked := by
    intro key after hin p hp hkey hle
    rw [superseded_congr marks]
    rcases way p hp with hold | hnew
    · exact h.marked key after hin p hold hkey hle
    · have := h.reopenings key after hin
      omega
  tested := by
    intro c hc
    rw [superseded_congr marks]
    exact tested c hc
  quiet := by
    intro p hp hsup hveto
    rw [superseded_congr marks] at hsup
    rw [vetoesBarge_congr cfg] at hveto
    rcases await p hp with hold | hnew
    · exact pending _ (h.quiet p hold hsup hveto)
    · exact absurd hsup hnew
  timely := h.timely

theorem FeedMove.outstanding_cases (h : FeedMove g g') :
    g'.outstanding = g.outstanding ∧ g'.feed.attempts = g.feed.attempts ∨
      ∃ c, g'.outstanding = g.outstanding ++ [c] ∧ c.attempt = g.feed.attempts + 1 ∧
        g'.feed.attempts = g.feed.attempts + 1 := by
  cases h.sends with
  | nothing attempts outstanding _ => exact .inl ⟨outstanding, attempts⟩
  | first _ c _ _ attempts attempt outstanding _ _ _
  | next _ c _ _ attempts attempt outstanding _ _ _ _ =>
    exact .inr ⟨c, outstanding, attempt, attempts⟩

theorem awaiting_congr (hv : g'.verifier = g.verifier) (hd : g'.deliveries = g.deliveries) :
    g'.awaiting = g.awaiting := by
  rw [awaiting, awaiting, hv, hd]

theorem mem_onTheWay {p : Nat × Nat} :
    p ∈ g.onTheWay ↔ (∃ c ∈ g.outstanding, (c.key, c.attempt) = p) ∨
      ∃ q ∈ g.awaiting, (q.2.key, q.1) = p := by
  rw [onTheWay, List.mem_append, List.mem_map, List.mem_map]

theorem Timed.move (h : Timed out g) (hm : FeedMove g g') : Timed out g' := by
  have hawait := awaiting_congr hm.verifier hm.deliveries
  have htested : ∀ c, g'.verifier = .checking c → ¬g.superseded (c.key, c.attempt) := by
    intro c hc
    exact h.tested c (hm.verifier ▸ hc)
  rcases hm.outstanding_cases with ⟨hsame, hatt⟩ | ⟨c, hnew, hc, hatt⟩
  · refine h.keeps hm.cfg hm.marks (Nat.le_of_eq hatt.symm) (fun p hp => .inl ?_)
      (fun p hp => .inl (hawait ▸ hp)) htested hm.pending
    rwa [onTheWay, hsame, hawait] at hp
  · refine h.keeps hm.cfg hm.marks (by omega) (fun p hp => ?_) (fun p hp => .inl (hawait ▸ hp))
      htested hm.pending
    rw [mem_onTheWay, hnew, hawait] at hp
    rcases hp with ⟨d, hd, rfl⟩ | hq
    · rcases List.mem_append.mp hd with hd | hd
      · exact .inl (mem_onTheWay.mpr (.inl ⟨d, hd, rfl⟩))
      · cases List.mem_singleton.mp hd
        exact .inr ⟨by show _ < c.attempt; omega, by show c.attempt ≤ _; omega⟩
    · exact .inl (mem_onTheWay.mpr (.inr hq))

theorem Timed.reopen {key : Nat} (h : Timed out g) (hm : OpenMove g key g' es)
    (hre : (g.reopens key).isSome) (hmay : g.MayReopen key) : Timed (out ++ es) g' := by
  obtain ⟨rfl, hbook, -⟩ := hm.reopens hre
  have hawait := awaiting_congr hm.verifier hm.deliveries
  have hway : g'.onTheWay = g.onTheWay := by
    rw [onTheWay, onTheWay, hawait, outstanding_of_channel g g' hm.verifier hm.channel]
  have hself : ∀ p ∈ g.onTheWay, p.1 = key → g'.superseded p := by
    intro p hp hkey
    rw [superseded, hbook, hkey]
    exact isSuperseded_reopen_self _ _ (h.sent p hp)
  have hback : ∀ p, p.1 ≠ key → g'.superseded p → g.superseded p := by
    intro p hkey hsup
    rw [superseded, hbook] at hsup
    exact isSuperseded_of_reopen hkey hsup
  refine ⟨fun p hp => ?_, fun k after hin => ?_, fun k after hin p hp hkey hle => ?_,
    fun c hc hsup => ?_, fun p hp hsup hveto => ?_, h.timely.snoc trivial⟩
  · rw [hway] at hp
    rw [hm.attempts]
    exact h.sent p hp
  · rw [hm.attempts]
    rcases List.mem_append.mp hin with hold | hnew
    · exact h.reopenings k after hold
    · cases List.mem_singleton.mp hnew
      exact Nat.le_refl _
  · rw [hway] at hp
    by_cases hpk : p.1 = key
    · exact hself p hp hpk
    · rcases List.mem_append.mp hin with hold | hnew
      · rw [superseded, hbook]
        exact hmay.marks p hp hpk (h.marked k after hold p hp hkey hle)
      · cases List.mem_singleton.mp hnew
        exact absurd hkey hpk
  · rw [hm.verifier] at hc
    exact h.tested c hc (hback _ (hmay.tested c hc) hsup)
  · rw [hawait] at hp
    rw [vetoesBarge_congr hm.cfg] at hveto
    rw [hm.pending]
    by_cases hpk : p.2.key = key
    · cases hget : g.feed.pendingBarge.get p.2.key with
      | none => rfl
      | some epoch =>
        have hpend : g.hasPendingBarge key = true := by
          rw [hasPendingBarge, ← hpk, hget]
          rfl
        rw [hmay.quiet hpend p hp hpk] at hveto
        cases hveto
    · exact h.quiet p hp (hback _ hpk hsup) hveto

theorem Timed.opened {key : Nat} (h : Timed out g) (hm : OpenMove g key g' es)
    (hmay : g.MayOpen key) : Timed (out ++ es) g' := by
  cases hre : g.reopens key with
  | some short => exact h.reopen hm (by rw [hre]; rfl) (hmay.1 (by rw [hre]; rfl))
  | none =>
    obtain ⟨rfl, hbook, -⟩ := hm.joins hre
    rw [List.append_nil]
    have hawait := awaiting_congr hm.verifier hm.deliveries
    refine h.keeps hm.cfg (by rw [hbook]) (Nat.le_of_eq hm.attempts.symm) (fun p hp => .inl ?_)
      (fun p hp => .inl (hawait ▸ hp)) (fun c hc => h.tested c (hm.verifier ▸ hc))
      (fun k hk => by rw [hm.pending]; exact hk)
    rwa [onTheWay, hawait, outstanding_of_channel g g' hm.verifier hm.channel] at hp

theorem begin_cases (g : SpeakerGate β ε) (key : Nat) (frame : List β) :
    g.begin key frame = (g.leaveOther key, []) ∨
    g.begin key frame = ((g.leaveOther key).pushFrame frame, []) ∨
    (g.leaveOther key).runtime.scores key = true ∧ (g.leaveOther key).feed.cur = none ∧
      g.begin key frame = (((g.leaveOther key).openCur key).1.pushFrame frame,
        ((g.leaveOther key).openCur key).2) := by
  unfold begin
  dsimp only
  cases hscores : (g.leaveOther key).runtime.scores key with
  | false => exact .inl rfl
  | true =>
    right
    cases hcur : (g.leaveOther key).feed.cur with
    | some cur => exact .inl rfl
    | none => exact .inr ⟨rfl, rfl, rfl⟩

theorem begin_keeps {I : List GateEvent → SpeakerGate β ε → Prop} {key : Nat} {frame : List β}
    (hmove : ∀ {s s' : SpeakerGate β ε} {out}, I out s → FeedMove s s' → I out s')
    (hopen : ∀ {s s' : SpeakerGate β ε} {out es}, I out s → OpenMove s key s' es → s.MayOpen key →
      I (out ++ es) s')
    (h : I out g) (hmeets : g.Meets (.begin key frame)) :
    I (out ++ (g.begin key frame).2) (g.begin key frame).1 := by
  have hleft := hmove h (leaveOther_move g key)
  rcases begin_cases g key frame with heq | heq | ⟨hscores, hcur, heq⟩
  · rw [heq, List.append_nil]
    exact hleft
  · rw [heq, List.append_nil]
    exact hmove hleft (pushFrame_move _ _)
  · rw [heq]
    exact hmove (hopen hleft (openCur_move _ key) (hmeets hscores hcur)) (pushFrame_move _ _)

theorem Timed.emit {e : GateEvent} (h : Timed out g) (he : ∀ key after, e ≠ .reopened key after)
    (ht : e.Timely out) : Timed (out ++ [e]) g := by
  have hold : ∀ key after, .reopened key after ∈ out ++ [e] → .reopened key after ∈ out := by
    intro key after hin
    rcases List.mem_append.mp hin with hin | hin
    · exact hin
    · exact absurd (List.mem_singleton.mp hin).symm (he key after)
  exact ⟨h.sent, fun key after hin => h.reopenings key after (hold key after hin),
    fun key after hin => h.marked key after (hold key after hin), h.tested, h.quiet,
    h.timely.snoc ht⟩

theorem Timed.after (h : Timed out g) {p : Nat × Nat} (hp : p ∈ g.onTheWay)
    (hlive : ¬g.superseded p) {after : Nat} (hin : .reopened p.1 after ∈ out) : after < p.2 := by
  by_contra hlt
  exact hlive (h.marked p.1 after hin p hp rfl (Nat.le_of_not_lt hlt))

theorem get_setPendingBarge (g : SpeakerGate β ε) (key epoch k : Nat) :
    (g.setPendingBarge key epoch).feed.pendingBarge.get k =
      if k = key then some epoch else g.feed.pendingBarge.get k :=
  InsertMap.get_set _ _ _ _

theorem holdsBarge_cases (g : SpeakerGate β ε) (key epoch : Nat) (rejoin : Bool) :
    (g.holdsBarge key epoch rejoin).1 = g ∨
      (g.holdsBarge key epoch rejoin).1 = g.setPendingBarge key epoch := by
  unfold holdsBarge
  split
  · exact .inl rfl
  · split
    · exact .inl rfl
    · exact .inl rfl
    · split
      · exact .inl rfl
      · exact .inr rfl

theorem Timed.hold {key epoch : Nat} {rejoin : Bool} (h : Timed out g)
    (hmeets : g.Meets (.bargeIn key epoch rejoin)) :
    Timed out (g.holdsBarge key epoch rejoin).1 := by
  rcases holdsBarge_cases g key epoch rejoin with heq | heq
  · rw [heq]
    exact h
  · have hheld : (g.holdsBarge key epoch rejoin).1.hasPendingBarge key = true := by
      rw [heq, hasPendingBarge, get_setPendingBarge, if_pos rfl]
      rfl
    have hold := hmeets hheld
    rw [heq]
    refine ⟨h.sent, h.reopenings, h.marked, h.tested, fun p hp hsup hveto => ?_, h.timely⟩
    rw [get_setPendingBarge]
    by_cases hk : p.2.key = key
    · have hv : g.vetoesBarge p.2 = true := hold p hp hk (hk ▸ hsup)
      rw [show (g.setPendingBarge key epoch).vetoesBarge p.2 = g.vetoesBarge p.2 from rfl, hv] at hveto
      cases hveto
    · rw [if_neg hk]
      exact h.quiet p hp hsup hveto

theorem applySpeakerVerdict_cases (g : SpeakerGate β ε) (attempt : Nat) (v : Verdict) (rejoin : Bool) :
    g.applySpeakerVerdict attempt v rejoin = (g, []) ∨
    g.applySpeakerVerdict attempt v rejoin = (g.takePendingBarge v.key, []) ∨
    ∃ epoch, g.feed.pendingBarge.get v.key = some epoch ∧
      (g.vetoesBarge v = false ∧ g.applySpeakerVerdict attempt v rejoin =
          (g.takePendingBarge v.key, [.released v.key attempt epoch]) ∨
        g.applySpeakerVerdict attempt v rejoin =
          ((g.takePendingBarge v.key).setPendingBarge v.key epoch, [])) := by
  unfold applySpeakerVerdict
  split
  · exact .inl rfl
  · next epoch hget =>
    split
    · exact .inl rfl
    · split
      · exact .inl rfl
      · right
        dsimp only
        split
        · next hveto => exact .inr ⟨epoch, hget, .inl ⟨by simpa using hveto, rfl⟩⟩
        · split
          · exact .inr ⟨epoch, hget, .inr rfl⟩
          · exact .inl rfl

theorem mem_awaiting_of_eraseIdx {task : Nat} {p : Nat × Verdict}
    (hp : p ∈ SpeakerGate.awaiting { g with deliveries := g.deliveries.eraseIdx task }) :
    p ∈ g.awaiting := by
  rcases List.mem_append.mp hp with hp | hp
  · exact List.mem_append_left _ hp
  · exact List.mem_append_right _ (List.mem_of_mem_eraseIdx hp)

theorem Timed.erase (h : Timed out g) (task : Nat) :
    Timed out { g with deliveries := g.deliveries.eraseIdx task } := by
  refine h.keeps rfl rfl (Nat.le_refl _) (fun p hp => .inl ?_)
    (fun p hp => .inl (mem_awaiting_of_eraseIdx hp)) h.tested (fun _ hk => hk)
  rcases mem_onTheWay.mp hp with hc | ⟨q, hq, rfl⟩
  · exact mem_onTheWay.mpr (.inl hc)
  · exact mem_onTheWay.mpr (.inr ⟨q, mem_awaiting_of_eraseIdx hq, rfl⟩)

theorem Timed.apply {task attempt : Nat} {v : Verdict} {rejoin : Bool} (h : Timed out g)
    (htask : g.deliveries[task]? = some (attempt, v)) :
    let r := applySpeakerVerdict { g with deliveries := g.deliveries.eraseIdx task } attempt v rejoin
    Timed (out ++ r.2) r.1 := by
  intro r
  have hin : (attempt, v) ∈ g.awaiting :=
    List.mem_append_right _ (List.mem_of_getElem? htask)
  have herased := h.erase task
  have htaken := herased.move (takePendingBarge_move _ v.key)
  rcases applySpeakerVerdict_cases { g with deliveries := g.deliveries.eraseIdx task } attempt v rejoin
    with heq | heq | ⟨epoch, hget, ⟨hveto, heq⟩ | heq⟩
  · rw [show r = _ from heq, List.append_nil]
    exact herased
  · rw [show r = _ from heq, List.append_nil]
    exact htaken
  · rw [show r = _ from heq]
    refine htaken.emit (fun key after he => by cases he) fun after hre => ?_
    refine h.after (mem_onTheWay.mpr (.inr ⟨_, hin, rfl⟩)) (fun hsup => ?_) hre
    have hnone := h.quiet _ hin hsup hveto
    rw [show g.feed.pendingBarge.get v.key = some epoch from hget] at hnone
    cases hnone
  · rw [show r = _ from heq, List.append_nil]
    refine herased.keeps rfl rfl (Nat.le_refl _) (fun p hp => .inl hp) (fun p hp => .inl hp)
      herased.tested fun k hk => ?_
    rw [get_setPendingBarge]
    by_cases hkv : k = v.key
    · rw [hkv, hget] at hk
      cases hk
    · rw [if_neg hkv]
      exact pending_delete hk

@[simp] theorem verdicts_noteScored (b : GateBook) (key window : Nat) :
    (b.noteScored key window).verdicts = b.verdicts := by
  rw [GateBook.noteScored]
  split <;> rfl

@[simp] theorem reopenedAfter_noteScored (b : GateBook) (key window : Nat) :
    (b.noteScored key window).reopenedAfter = b.reopenedAfter := by
  rw [GateBook.noteScored]
  split <;> rfl

@[simp] theorem reopenedAfter_storeVerdict (b : GateBook) (v : Verdict) :
    (b.storeVerdict v).reopenedAfter = b.reopenedAfter := by
  rw [GateBook.storeVerdict]
  split <;> rfl

theorem marks_storeCheck (g : SpeakerGate β ε) (c : Check β)
    (embedded : Except EmbedFail (Option ε)) :
    (g.storeCheck c embedded).1.book.reopenedAfter = g.book.reopenedAfter := by
  show ((g.book.storeVerdict _).noteScored _ _).reopenedAfter = _
  rw [reopenedAfter_noteScored, reopenedAfter_storeVerdict]

theorem Timed.store {c : Check β} {embedded : Except EmbedFail (Option ε)} (h : Timed out g)
    (hc : g.verifier = .checking c) :
    Timed (out ++ (g.storeCheck c embedded).2) (g.storeCheck c embedded).1 := by
  have hlive := h.tested c hc
  have hout : c ∈ g.outstanding := by
    rw [outstanding, hc]
    exact List.mem_append_left _ (List.mem_singleton_self c)
  have hway : (c.key, c.attempt) ∈ g.onTheWay := mem_onTheWay.mpr (.inl ⟨c, hout, rfl⟩)
  have hawait : ∀ q ∈ (g.storeCheck c embedded).1.awaiting,
      q = (c.attempt, g.verdictOf c embedded) ∨ q ∈ g.awaiting := by
    intro q hq
    rcases List.mem_append.mp hq with hq | hq
    · exact .inl (List.mem_singleton.mp hq)
    · exact .inr (List.mem_append_right _ hq)
  have hkept : Timed out (g.storeCheck c embedded).1 := by
    refine h.keeps rfl (marks_storeCheck g c embedded) (Nat.le_refl _) (fun p hp => .inl ?_)
      (fun q hq => ?_) (fun d hd => by cases hd) (fun _ hk => hk)
    · rcases mem_onTheWay.mp hp with ⟨d, hd, rfl⟩ | ⟨q, hq, rfl⟩
      · rcases List.mem_append.mp hd with hd | hd
        · cases hd
        · exact mem_onTheWay.mpr (.inl ⟨d, List.mem_append_right _ hd, rfl⟩)
      · rcases hawait q hq with rfl | hq
        · exact hway
        · exact mem_onTheWay.mpr (.inr ⟨q, hq, rfl⟩)
    · rcases hawait q hq with rfl | hq
      · exact .inr hlive
      · exact .inl hq
  show Timed (out ++ storedEvents c.attempt (g.verdictOf c embedded)) _
  rw [storedEvents]
  split
  · rw [List.append_nil]
    exact hkept
  · exact hkept.emit (fun key after he => by cases he) fun after hre => h.after hway hlive hre

/-- A step of the verifier that stores nothing and passes no check. -/
structure VerifierMove (g g' : SpeakerGate β ε) : Prop where
  cfg : g'.cfg = g.cfg
  book : g'.book = g.book
  feed : g'.feed = g.feed
  outstanding : g'.outstanding.Sublist g.outstanding
  awaiting : ∀ p ∈ g'.awaiting, p ∈ g.awaiting
  idle : ∀ c, g'.verifier ≠ .checking c

theorem VerifierMove.of_free (cfg : g'.cfg = g.cfg) (book : g'.book = g.book) (feed : g'.feed = g.feed)
    (deliveries : g'.deliveries = g.deliveries)
    (channel : (g'.channel.filterMap GateMsg.check?).Sublist (g.channel.filterMap GateMsg.check?))
    (free : g'.verifier = .receiving ∨ g'.verifier = .enrolling) : VerifierMove g g' := by
  have hhand : g'.verifier.inHand = [] := by rcases free with h | h <;> rw [h] <;> rfl
  have hsettled : g'.verifier.settled = [] := by rcases free with h | h <;> rw [h] <;> rfl
  refine ⟨cfg, book, feed, ?_, fun p hp => ?_, fun c hc => ?_⟩
  · rw [SpeakerGate.outstanding, hhand]
    exact channel.trans (List.sublist_append_right _ _)
  · rw [SpeakerGate.awaiting, hsettled, deliveries] at hp
    exact List.mem_append_right _ hp
  · rcases free with h | h
    all_goals
      rw [h] at hc
      cases hc

theorem receive_move {msg : GateMsg β} {rest : List (GateMsg β)} (hv : g.verifier = .receiving)
    (hc : g.channel = msg :: rest) :
    VerifierMove g (SpeakerGate.receive { g with channel := rest } msg) := by
  have hsub : (rest.filterMap GateMsg.check?).Sublist (g.channel.filterMap GateMsg.check?) := by
    rw [hc]
    exact (List.sublist_cons_self msg rest).filterMap _
  cases msg with
  | reset => exact .of_free rfl rfl rfl rfl hsub (.inl hv)
  | check c =>
    refine ⟨rfl, rfl, rfl, ?_, fun p hp => List.mem_append_right _ hp, fun d h => by cases h⟩
    rw [outstanding, outstanding, hv, hc]
    exact .refl _
  | enroll pcm =>
    rw [receive]
    split
    · exact .of_free rfl rfl rfl rfl hsub (.inl hv)
    · split
      · exact .of_free rfl rfl rfl rfl hsub (.inl hv)
      · exact .of_free rfl rfl rfl rfl hsub (.inr rfl)

theorem enrolledWith_move (g : SpeakerGate β ε) (embedded : Except EmbedFail (Option ε)) :
    VerifierMove g (g.enrolledWith embedded) := by
  unfold enrolledWith
  split
  all_goals exact .of_free rfl rfl rfl rfl (.refl _) (.inl rfl)

theorem dropCheck_move (g : SpeakerGate β ε) : VerifierMove g { g with verifier := .receiving } :=
  .of_free rfl rfl rfl rfl (.refl _) (.inl rfl)

theorem onVerdict_move {attempt : Nat} {v : Verdict} (hv : g.verifier = .stored attempt v) :
    VerifierMove g
      { g with deliveries := g.deliveries ++ [(attempt, v)], verifier := .receiving } := by
  refine ⟨rfl, rfl, rfl, List.sublist_append_right _ _, fun p hp => ?_, fun c h => by cases h⟩
  have hp' : p ∈ g.deliveries ++ [(attempt, v)] := hp
  rw [awaiting, hv]
  rcases List.mem_append.mp hp' with hp' | hp'
  · exact List.mem_append_right _ hp'
  · exact List.mem_append_left _ hp'

theorem Timed.verify (h : Timed out g) (hm : VerifierMove g g') : Timed out g' := by
  refine h.keeps hm.cfg (by rw [hm.book]) (Nat.le_of_eq (by rw [hm.feed])) (fun p hp => .inl ?_)
    (fun p hp => .inl (hm.awaiting p hp)) (fun c hc => absurd hc (hm.idle c))
    (fun k hk => by rw [hm.feed]; exact hk)
  rcases mem_onTheWay.mp hp with ⟨c, hc, rfl⟩ | ⟨q, hq, rfl⟩
  · exact mem_onTheWay.mpr (.inl ⟨c, hm.outstanding.subset hc, rfl⟩)
  · exact mem_onTheWay.mpr (.inr ⟨q, hm.awaiting q hq, rfl⟩)

theorem Timed.pass {c : Check β} (h : Timed out g) (hv : g.verifier = .received c)
    (hlive : g.book.isSuperseded c.key c.attempt = false) :
    Timed out { g with verifier := .checking c } := by
  have hway : SpeakerGate.onTheWay { g with verifier := .checking c } = g.onTheWay := by
    rw [onTheWay, onTheWay, outstanding, outstanding, awaiting, awaiting, hv]
    rfl
  refine h.keeps rfl rfl (Nat.le_refl _) (fun p hp => .inl (hway ▸ hp)) (fun p hp => .inl ?_)
    (fun d hd hsup => ?_) (fun _ hk => hk)
  · exact List.mem_append_right _ hp
  · cases hd
    rw [superseded, hlive] at hsup
    cases hsup

end SpeakerGate

end NodeWebrtc.Speech
