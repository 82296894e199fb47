import NodeWebrtc.Vendors.DeferredAnswers

/-! # ElevenLabs' realtime transcription

A run is one connection, from its start to its stop. The messages of the server, the calls of the
speech pipeline and the end of the socket come in any order. A committed transcript is given with
the finalize it answers, or none when the model commits by itself; the message itself does not
say.
-/

namespace NodeWebrtc.Vendors.ElevenLabsStt

open Deferred
open SttActor (SttTranscript SttOutput)
open SttDeferred (SpeechError)

/-- Longest wait for the transcript that answers one commit: `FINALIZE_WAIT_MS`. -/
def finalizeWait : Duration := 5000000000

inductive ServerMessage where
  | partialText (text : String)
  | committed (text : String)
  | error (answersCommit : Bool) (message : String)
  | other
deriving DecidableEq, Repr

structure State where
  alive : Bool
  outbound : Bool
  finals : Finals
  uncommitted : Bool
  /-- The last committed text, while a repeat of it is still to be expected. -/
  lastCommitted : Option String
  /-- Partials dropped as repeats of a committed segment. -/
  stalePartials : Nat
  ledger : Ledger
deriving DecidableEq, Repr

namespace State

def started : State where
  alive := true
  outbound := true
  finals := .new
  uncommitted := false
  lastCommitted := none
  stalePartials := 0
  ledger := .new

def isStalePartial (st : State) (text : String) : Bool :=
  let text := Text.trim text
  if text.isEmpty then false
  else if st.lastCommitted = some text then true
  else st.finals.finals.pending.isEmpty && !st.uncommitted && st.finals.finals.segments.isEmpty

/-- What the marker of a committed text is due to. -/
def commitCause : Option Nat → Cause
  | some request => .answer request
  | none => .serverCommit

/-- Without a pending finalize the text stays with the utterance in progress. -/
def commit (f : Finals) (answers : Option Nat) (text : String) : Finals × List Shown :=
  let segment := f.segment answers text
  let answer := segment.1.answer (commitCause answers)
  (answer.1, segment.2 ++ answer.2)

def onMessage (st : State) (message : ServerMessage) (answers : Option Nat) :
    State × List Shown :=
  if !st.alive then (st, [])
  else
    match message with
    | .partialText text =>
      if st.isStalePartial text then ({ st with stalePartials := st.stalePartials + 1 }, [])
      else
        let heard := st.finals.interim text
        ({ st with
          lastCommitted := none
          finals := heard.1 }, heard.2)
    | .committed text =>
      let committed := commit st.finals answers text
      ({ st with
        lastCommitted := if (Text.trim text).isEmpty then none else some (Text.trim text)
        finals := committed.1 }, committed.2)
    | .error answersCommit message =>
      let failed :=
        if answersCommit then st.finals.fail message else st.finals.failWithoutAnswer message
      ({ st with finals := failed.1 }, failed.2)
    | .other => (st, [])

def connectionLost (st : State) (message : String) : State × List Shown :=
  if !st.alive then (st, [])
  else
    let lost := st.finals.lost message
    ({ st with
      alive := false
      outbound := false
      finals := lost.1 }, lost.2)

/-- `delivered` says whether the channel takes the message. -/
def pushAudio (st : State) (delivered : Bool) : State :=
  if st.outbound && delivered then { st with uncommitted := true } else st

def hasInput (st : State) : Bool := st.uncommitted || !st.finals.finals.segments.isEmpty

def requestFinalize (st : State) (now : Instant) (delivered : Bool) :
    Except SpeechError Unit × State × List Shown :=
  if !st.alive then (.error (.stt "elevenlabs stt stream closed"), st, [])
  else
    let unsent := st.finals.requestUnsent now
    if !st.hasInput then (.ok (), { st with finals := unsent.1 }, unsent.2)
    else if st.outbound && delivered then
      (.ok (), { st with
        finals := st.finals.request now
        uncommitted := false
        ledger := st.ledger.send (st.finals.requested + 1) }, [])
    else (.error (.stt "elevenlabs stt stream closed"), { st with finals := unsent.1 }, unsent.2)

def pollTranscript (st : State) (now : Instant) :
    Except SpeechError (Option SttTranscript) × State × List Shown :=
  let polled := st.finals.pollTranscript now finalizeWait
  (polled.1, { st with finals := polled.2.1 }, polled.2.2)

def pollOutput (st : State) (now : Instant) :
    Except SpeechError (Option SttOutput) × State × List Shown :=
  let polled := st.finals.pollOutput now finalizeWait
  (polled.1, { st with finals := polled.2.1 }, polled.2.2)

def discardQueuedTranscripts (st : State) : Nat × State :=
  (st.finals.discardTranscripts.1, { st with finals := st.finals.discardTranscripts.2 })

end State

def ServerMessage.answers : ServerMessage → Option Nat → Option Nat
  | .committed _, request => request
  | _, _ => none

inductive Input where
  /-- `request` is read when the message is a committed text. -/
  | message (message : ServerMessage) (request : Option Nat)
  | connectionLost (message : String)
  | pushAudio (delivered : Bool)
  | requestFinalize (now : Instant) (delivered : Bool)
  | pollTranscript (now : Instant)
  | pollOutput (now : Instant)
  | discardQueuedTranscripts
deriving DecidableEq, Repr

/-- The server answers each commit at most once and in request order: another answer is no
step. -/
def step (st : State) : Input → Option (State × List Shown)
  | .message message request =>
    let seen := st.onMessage message request
    match message.answers request with
    | none => some seen
    | some k =>
      if st.ledger.awaits k then
        some ({ seen.1 with ledger := st.ledger.answer k }, seen.2)
      else none
  | .connectionLost message => some (st.connectionLost message)
  | .pushAudio delivered => some (st.pushAudio delivered, [])
  | .requestFinalize now delivered => some (st.requestFinalize now delivered).2
  | .pollTranscript now => some (st.pollTranscript now).2
  | .pollOutput now => some (st.pollOutput now).2
  | .discardQueuedTranscripts => some (st.discardQueuedTranscripts.2, [])

/-- A committed text that finds finalizes open answers the oldest of them, and an answer that finds
none is blank. -/
def Committable (f : Finals) (answers : Option Nat) (text : String) : Prop :=
  match f.finals.pending, answers with
  | [], none => True
  | [], some _ => (Text.trim text).isEmpty = true
  | _ :: _, some request => f.IsOldest request
  | _ :: _, none => False

/-- A committed text comes in time, and a finalize for which nothing is sent finds none open. -/
def OnTime (st : State) : Input → Prop
  | .message (.committed text) request => st.alive = true → Committable st.finals request text
  | .requestFinalize _ delivered =>
    st.alive = true → (st.hasInput && (st.outbound && delivered)) = false →
      st.finals.finals.pending = []
  | _ => True

/-! ## What a run shows -/

-- Whether a text is blank is never computed below.
attribute [local irreducible] Text.trim

def Known (st : State) : Prop := ∀ k ∈ st.ledger.sent, k ≤ st.finals.requested

variable {st st' : State} {out : List Shown}

theorem commit_of_idle {f : Finals} (hnone : f.finals.pending = []) (answers : Option Nat)
    (text : String) : State.commit f answers text = f.segment answers text := by
  have hstill := Finals.segment_pending f answers text
  rw [hnone] at hstill
  simp only [State.commit, Finals.answer, hstill, List.append_nil]

theorem commit_does (hknown : Known st) (request : Option Nat)
    (hawaits : ∀ k, request = some k → st.ledger.awaits k = true) (text : String) :
    ∃ p, st.finals.Does (State.commit st.finals request text).1
        (State.commit st.finals request text).2 p ∧
      (p ↔ (Committable st.finals request text)) := by
  unfold Committable
  cases hpending : st.finals.finals.pending with
  | nil =>
    rw [commit_of_idle hpending]
    cases request with
    | none => exact ⟨True, .segment text, Iff.rfl⟩
    | some k =>
      have hsent := hawaits k rfl
      rw [Ledger.awaits, Bool.and_eq_true, decide_eq_true_eq] at hsent
      exact ⟨_, .joins k text hpending (hknown k hsent.1), Iff.rfl⟩
  | cons oldest rest =>
    have hopen : st.finals.finals.pending ≠ [] := by
      rw [hpending]
      exact List.cons_ne_nil _ _
    cases request with
    | none => exact ⟨_, .committed text hopen, Iff.rfl⟩
    | some k => exact ⟨_, .answered k text hopen, Iff.rfl⟩

theorem onMessage_does (hknown : Known st) (message : ServerMessage) (request : Option Nat)
    (hawaits : ∀ k, message.answers request = some k → st.ledger.awaits k = true) :
    ∃ p, st.finals.Does (st.onMessage message request).1.finals
        (st.onMessage message request).2 p ∧ (p ↔ OnTime st (.message message request)) := by
  unfold State.onMessage
  split
  · next hdead =>
    refine ⟨True, .keeps, iff_of_true trivial ?_⟩
    cases message with
    | committed text =>
      intro halive
      rw [halive] at hdead
      cases hdead
    | _ => trivial
  · next halive =>
    rw [Bool.not_eq_true', Bool.not_eq_false] at halive
    cases message with
    | partialText text =>
      dsimp only
      split
      · exact ⟨True, .keeps, Iff.rfl⟩
      · exact ⟨True, .interim text, Iff.rfl⟩
    | committed text =>
      obtain ⟨p, hdoes, hp⟩ := commit_does hknown request hawaits text
      exact ⟨p, hdoes, hp.trans ⟨fun hall _ => hall, fun hall => hall halive⟩⟩
    | error answersCommit message =>
      dsimp only
      split
      · exact ⟨True, .fail message, Iff.rfl⟩
      · exact ⟨True, .failWithoutAnswer message, Iff.rfl⟩
    | other => exact ⟨True, .keeps, Iff.rfl⟩

theorem requestFinalize_alive (halive : st.alive = true) (now : Instant) (delivered : Bool) :
    (st.requestFinalize now delivered).2 =
      if st.hasInput && (st.outbound && delivered) then
        ({ st with
          finals := st.finals.request now
          uncommitted := false
          ledger := st.ledger.send (st.finals.requested + 1) }, [])
      else ({ st with finals := (st.finals.requestUnsent now).1 },
        (st.finals.requestUnsent now).2) := by
  rw [State.requestFinalize, halive]
  cases st.hasInput <;> cases st.outbound <;> cases delivered <;> rfl

theorem requestFinalize_does (st : State) (now : Instant) (delivered : Bool) :
    ∃ p, st.finals.Does (st.requestFinalize now delivered).2.1.finals
        (st.requestFinalize now delivered).2.2 p ∧
      (p ↔ OnTime st (.requestFinalize now delivered)) := by
  rw [OnTime]
  cases halive : st.alive with
  | false =>
    rw [State.requestFinalize, halive]
    exact ⟨True, .keeps, iff_of_true trivial fun hno => (by cases hno)⟩
  | true =>
    rw [requestFinalize_alive halive]
    cases st.hasInput && (st.outbound && delivered) with
    | true => exact ⟨True, .request now, iff_of_true trivial fun _ hno => (by cases hno)⟩
    | false => exact ⟨_, .requestUnsent now,
        ⟨fun hnone _ _ => hnone, fun hontime => hontime rfl rfl⟩⟩

theorem step_does (hknown : Known st) {i : Input} (hs : step st i = some (st', out)) :
    ∃ p, st.finals.Does st'.finals out p ∧ (p ↔ OnTime st i) := by
  cases i with
  | message message request =>
    have hdoes := onMessage_does hknown message request
    rw [step] at hs
    cases hanswers : message.answers request with rw [hanswers] at hs
    | none =>
      obtain ⟨rfl, rfl⟩ := Prod.mk.inj (Option.some.inj hs)
      exact hdoes fun k hk => (by rw [hanswers] at hk; cases hk)
    | some k =>
      dsimp only at hs
      split_ifs at hs with hawaits
      obtain ⟨rfl, rfl⟩ := Prod.mk.inj (Option.some.inj hs)
      refine hdoes fun k' hk' => ?_
      rw [hanswers, Option.some.injEq] at hk'
      exact hk' ▸ hawaits
  | connectionLost message =>
    rw [step, Option.some.injEq, State.connectionLost] at hs
    split at hs <;> cases hs
    · exact ⟨True, .keeps, Iff.rfl⟩
    · exact ⟨True, .lost message, Iff.rfl⟩
  | pushAudio delivered =>
    rw [step, Option.some.injEq, State.pushAudio] at hs
    split at hs <;> cases hs <;> exact ⟨True, .keeps, Iff.rfl⟩
  | requestFinalize now delivered =>
    obtain ⟨rfl, rfl⟩ := Prod.mk.inj (Option.some.inj hs)
    exact requestFinalize_does st now delivered
  | pollTranscript now =>
    cases hs
    exact ⟨True, .pollTranscript now finalizeWait, Iff.rfl⟩
  | pollOutput now =>
    cases hs
    exact ⟨True, .pollOutput now finalizeWait, Iff.rfl⟩
  | discardQueuedTranscripts =>
    cases hs
    exact ⟨True, .discardTranscripts, Iff.rfl⟩

theorem onMessage_ledger (st : State) (message : ServerMessage) (request : Option Nat) :
    (st.onMessage message request).1.ledger = st.ledger := by
  fun_cases State.onMessage st message request <;> rfl

theorem Known.step (hknown : Known st) {i : Input} (hs : step st i = some (st', out)) :
    Known st' := by
  obtain ⟨p, hdoes, -⟩ := step_does hknown hs
  have hkept : st'.ledger.sent = st.ledger.sent → Known st' := fun hsent k hk =>
    Nat.le_trans (hknown k (hsent ▸ hk)) hdoes.requested_le
  cases i with
  | message message request =>
    refine hkept ?_
    have hledger := onMessage_ledger st message request
    rw [ElevenLabsStt.step] at hs
    split at hs
    · obtain ⟨rfl, rfl⟩ := Prod.mk.inj (Option.some.inj hs)
      exact congrArg Ledger.sent hledger
    split_ifs at hs
    obtain ⟨rfl, rfl⟩ := Prod.mk.inj (Option.some.inj hs)
    rfl
  | connectionLost message =>
    rw [ElevenLabsStt.step, Option.some.injEq, State.connectionLost] at hs
    split at hs <;> cases hs <;> exact hkept rfl
  | pushAudio delivered =>
    rw [ElevenLabsStt.step, Option.some.injEq, State.pushAudio] at hs
    split at hs <;> cases hs <;> exact hkept rfl
  | requestFinalize now delivered =>
    rw [ElevenLabsStt.step, Option.some.injEq] at hs
    cases halive : st.alive with
    | false =>
      rw [State.requestFinalize, halive] at hs
      cases hs
      exact hknown
    | true =>
      rw [requestFinalize_alive halive] at hs
      split at hs <;> cases hs
      · intro k hk
        rcases List.mem_append.mp hk with hk | hk
        · exact Nat.le_succ_of_le (hknown k hk)
        · exact Nat.le_of_eq (List.mem_singleton.mp hk)
      · exact hkept rfl
  | pollTranscript | pollOutput | discardQueuedTranscripts => cases hs; exact hkept rfl

theorem inPlace_iff {is : List Input} {st' : State} {os : List Shown}
    (hr : Machine.run step .started is = some (st', os)) :
    InPlace os ↔ Machine.Along step OnTime .started is := by
  refine Machine.run_outputs_iff (A := fun _ => True)
    (I := fun shown (st : State) => st.finals.Sound shown ∧ Known st) (fun _ _ => InPlace.front)
    (fun _ _ h => h.1.inPlace) ?_ ?_ ⟨Finals.sound_new, fun _ hno => absurd hno List.not_mem_nil⟩
    (fun _ _ => trivial) hr
  · intro shown st i st' out h _ hontime hs
    obtain ⟨p, hdoes, hp⟩ := step_does h.2 hs
    exact ⟨(h.1.does hdoes).2 (hp.mpr hontime), h.2.step hs⟩
  · intro shown st i st' out h _ hlate hs hplace
    obtain ⟨p, hdoes, hp⟩ := step_does h.2 hs
    exact hlate (hp.mp ((h.1.does hdoes).1.mp hplace))

end NodeWebrtc.Vendors.ElevenLabsStt
