import NodeWebrtc.Vendors.DeferredAnswers

/-! # Deepgram's live transcription

A run is one connection, from its start to its stop. The results of the server, the calls of the
speech pipeline and the end of the socket come in any order. A result that answers a finalize is
given with the request it answers, which the message itself does not say.
-/

namespace NodeWebrtc.Vendors.DeepgramStt

open Deferred
open SttActor (SttTranscript SttOutput)
open SttDeferred (SpeechError)

/-- Longest wait for the answer to one finalize: `FINALIZE_WAIT_MS`. -/
def finalizeWait : Duration := 5000000000

structure Seconds (Sec : Type) where
  zero : Sec
  ofBytes : Nat → Sec
  beyond : Sec → Sec → Bool
  within : Sec → Sec → Bool

structure ListenResults (Sec : Type) where
  text : String
  isFinal : Bool
  fromFinalize : Bool
  endS : Sec
deriving DecidableEq, Repr

structure State (Sec : Type) where
  alive : Bool
  outbound : Bool
  finals : Finals
  pushedBytes : Nat
  /-- Seconds of audio pushed when the last finalize was requested. -/
  closedBoundaryS : Sec
  lateDropped : Nat
  ledger : Ledger
deriving DecidableEq, Repr

section

variable {Sec : Type} (seconds : Seconds Sec)

namespace State

def started : State Sec where
  alive := true
  outbound := true
  finals := .new
  pushedBytes := 0
  closedBoundaryS := seconds.zero
  lateDropped := 0
  ledger := .new

def onResults (st : State Sec) (r : ListenResults Sec) (request : Nat) : State Sec × List Shown :=
  if !st.alive then (st, [])
  else if r.fromFinalize then
    -- None is open: the answer to a finalize the provider already closed.
    if st.finals.finals.pending.isEmpty then ({ st with lateDropped := st.lateDropped + 1 }, [])
    else
      let answered := st.finals.answered request r.text
      ({ st with finals := answered.1 }, answered.2)
  else if r.text.isEmpty then (st, [])
  else if st.finals.finals.pending.isEmpty && seconds.within r.endS st.closedBoundaryS then
    ({ st with lateDropped := st.lateDropped + 1 }, [])
  else
    let heard := if r.isFinal then st.finals.segment none r.text else st.finals.interim r.text
    ({ st with finals := heard.1 }, heard.2)

def connectionLost (st : State Sec) (message : String) : State Sec × List Shown :=
  if !st.alive then (st, [])
  else
    let lost := st.finals.lost message
    ({ st with
      alive := false
      outbound := false
      finals := lost.1 }, lost.2)

/-- `delivered` says whether the channel takes the message. -/
def pushAudio (st : State Sec) (len : Nat) (delivered : Bool) : State Sec :=
  if st.outbound && delivered then { st with pushedBytes := st.pushedBytes + len } else st

def hasInput (st : State Sec) : Bool :=
  seconds.beyond (seconds.ofBytes st.pushedBytes) st.closedBoundaryS ||
    !st.finals.finals.segments.isEmpty

def requestFinalize (st : State Sec) (now : Instant) (delivered : Bool) :
    Except SpeechError Unit × State Sec × List Shown :=
  if !st.alive then (.error (.stt "deepgram stt stream closed"), st, [])
  else
    let asked := { st with closedBoundaryS := seconds.ofBytes st.pushedBytes }
    let unsent := st.finals.requestUnsent now
    if !st.hasInput seconds then (.ok (), { asked with finals := unsent.1 }, unsent.2)
    else if st.outbound && delivered then
      (.ok (), { asked with
        finals := st.finals.request now
        ledger := st.ledger.send (st.finals.requested + 1) }, [])
    else
      (.error (.stt "deepgram stt stream closed"), { asked with finals := unsent.1 }, unsent.2)

def pollTranscript (st : State Sec) (now : Instant) :
    Except SpeechError (Option SttTranscript) × State Sec × List Shown :=
  let polled := st.finals.pollTranscript now finalizeWait
  (polled.1, { st with finals := polled.2.1 }, polled.2.2)

def pollOutput (st : State Sec) (now : Instant) :
    Except SpeechError (Option SttOutput) × State Sec × List Shown :=
  let polled := st.finals.pollOutput now finalizeWait
  (polled.1, { st with finals := polled.2.1 }, polled.2.2)

def discardQueuedTranscripts (st : State Sec) : Nat × State Sec :=
  (st.finals.discardTranscripts.1, { st with finals := st.finals.discardTranscripts.2 })

end State

inductive Input (Sec : Type) where
  /-- `request` is read when the result answers a finalize. -/
  | results (r : ListenResults Sec) (request : Nat)
  | connectionLost (message : String)
  | pushAudio (len : Nat) (delivered : Bool)
  | requestFinalize (now : Instant) (delivered : Bool)
  | pollTranscript (now : Instant)
  | pollOutput (now : Instant)
  | discardQueuedTranscripts
deriving DecidableEq, Repr

/-- The server answers each finalize at most once and in request order: another answer is no
step. -/
def step (st : State Sec) : Input Sec → Option (State Sec × List Shown)
  | .results r request =>
    let seen := st.onResults seconds r request
    if !r.fromFinalize then some seen
    else if st.ledger.awaits request then
      some ({ seen.1 with ledger := st.ledger.answer request }, seen.2)
    else none
  | .connectionLost message => some (st.connectionLost message)
  | .pushAudio len delivered => some (st.pushAudio len delivered, [])
  | .requestFinalize now delivered => some (st.requestFinalize seconds now delivered).2
  | .pollTranscript now => some (st.pollTranscript now).2
  | .pollOutput now => some (st.pollOutput now).2
  | .discardQueuedTranscripts => some (st.discardQueuedTranscripts.2, [])

/-- An answer that finds finalizes open is to the oldest of them, and a finalize for which nothing
is sent finds none open. -/
def OnTime (st : State Sec) : Input Sec → Prop
  | .results r request =>
    st.alive = true → r.fromFinalize = true → st.finals.finals.pending ≠ [] →
      st.finals.IsOldest request
  | .requestFinalize _ delivered =>
    st.alive = true → (st.hasInput seconds && (st.outbound && delivered)) = false →
      st.finals.finals.pending = []
  | _ => True

/-! ## What a run shows -/

-- Whether a text is blank is never computed below.
attribute [local irreducible] Text.trim

variable {seconds} {st : State Sec}

theorem State.requestFinalize_alive (halive : st.alive = true) (now : Instant) (delivered : Bool) :
    let asked := { st with closedBoundaryS := seconds.ofBytes st.pushedBytes }
    (st.requestFinalize seconds now delivered).2 =
      if st.hasInput seconds && (st.outbound && delivered) then
        ({ asked with
          finals := st.finals.request now
          ledger := st.ledger.send (st.finals.requested + 1) }, [])
      else ({ asked with finals := (st.finals.requestUnsent now).1 },
        (st.finals.requestUnsent now).2) := by
  rw [State.requestFinalize, halive]
  cases st.hasInput seconds <;> cases st.outbound <;> cases delivered <;> rfl

theorem onResults_does (st : State Sec) (r : ListenResults Sec) (request : Nat) :
    ∃ p, st.finals.Does (st.onResults seconds r request).1.finals
        (st.onResults seconds r request).2 p ∧ (p ↔ OnTime seconds st (.results r request)) := by
  rw [State.onResults, OnTime]
  split
  · next hdead =>
    refine ⟨True, .keeps, iff_of_true trivial fun halive => ?_⟩
    rw [halive] at hdead
    cases hdead
  split
  · next halive hfrom =>
    split
    · next hnone => exact ⟨True, .keeps, iff_of_true trivial fun _ _ hopen =>
      absurd (List.isEmpty_iff.mp hnone) hopen⟩
    · next hopen =>
      have hopen : st.finals.finals.pending ≠ [] := fun hnone =>
        hopen (List.isEmpty_iff.mpr hnone)
      have halive : st.alive = true := by rwa [Bool.not_eq_true', Bool.not_eq_false] at halive
      exact ⟨_, .answered request r.text hopen,
        ⟨fun holdest _ _ _ => holdest, fun hontime => hontime halive hfrom hopen⟩⟩
  · next hfrom =>
    have hontime : ∀ {q : Prop}, st.alive = true → r.fromFinalize = true → q :=
      fun _ hyes => absurd hyes hfrom
    split
    · exact ⟨True, .keeps, iff_of_true trivial hontime⟩
    split
    · exact ⟨True, .keeps, iff_of_true trivial hontime⟩
    split
    · exact ⟨True, .segment r.text, iff_of_true trivial hontime⟩
    · exact ⟨True, .interim r.text, iff_of_true trivial hontime⟩

theorem requestFinalize_does (st : State Sec) (now : Instant) (delivered : Bool) :
    ∃ p, st.finals.Does (st.requestFinalize seconds now delivered).2.1.finals
        (st.requestFinalize seconds now delivered).2.2 p ∧
      (p ↔ OnTime seconds st (.requestFinalize now delivered)) := by
  rw [OnTime]
  cases halive : st.alive with
  | false =>
    rw [State.requestFinalize, halive]
    exact ⟨True, .keeps, iff_of_true trivial fun hno => (by cases hno)⟩
  | true =>
    rw [State.requestFinalize_alive halive]
    cases st.hasInput seconds && (st.outbound && delivered) with
    | true => exact ⟨True, .request now, iff_of_true trivial fun _ hno => (by cases hno)⟩
    | false => exact ⟨_, .requestUnsent now,
        ⟨fun hnone _ _ => hnone, fun hontime => hontime rfl rfl⟩⟩

theorem step_does {i : Input Sec} {st' : State Sec} {out : List Shown}
    (hs : step seconds st i = some (st', out)) :
    ∃ p, st.finals.Does st'.finals out p ∧ (p ↔ OnTime seconds st i) := by
  cases i with
  | results r request =>
    have hdoes := @onResults_does _ seconds st r request
    rw [step] at hs
    split at hs
    · obtain ⟨rfl, rfl⟩ := Prod.mk.inj (Option.some.inj hs)
      exact hdoes
    split_ifs at hs
    obtain ⟨rfl, rfl⟩ := Prod.mk.inj (Option.some.inj hs)
    exact hdoes
  | connectionLost message =>
    rw [step, Option.some.injEq, State.connectionLost] at hs
    split at hs <;> cases hs
    · exact ⟨True, .keeps, Iff.rfl⟩
    · exact ⟨True, .lost message, Iff.rfl⟩
  | pushAudio len delivered =>
    rw [step, Option.some.injEq, State.pushAudio] at hs
    split at hs <;> cases hs <;> exact ⟨True, .keeps, Iff.rfl⟩
  | requestFinalize now delivered =>
    obtain ⟨rfl, rfl⟩ := Prod.mk.inj (Option.some.inj hs)
    exact requestFinalize_does st now delivered
  | pollTranscript now =>
    cases hs
    exact ⟨True, .pollTranscript now finalizeWait, Iff.rfl⟩
  | pollOutput now =>
    cases hs
    exact ⟨True, .pollOutput now finalizeWait, Iff.rfl⟩
  | discardQueuedTranscripts =>
    cases hs
    exact ⟨True, .discardTranscripts, Iff.rfl⟩

theorem inPlace_iff {is : List (Input Sec)} {st' : State Sec} {os : List Shown}
    (hr : Machine.run (step seconds) (.started seconds) is = some (st', os)) :
    InPlace os ↔ Machine.Along (step seconds) (OnTime seconds) (.started seconds) is := by
  refine Machine.run_outputs_iff (A := fun _ => True)
    (I := fun shown (st : State Sec) => st.finals.Sound shown) (fun _ _ => InPlace.front)
    (fun _ _ h => h.inPlace) ?_ ?_ Finals.sound_new (fun _ _ => trivial) hr
  · intro shown st i st' out h _ hontime hs
    obtain ⟨p, hdoes, hp⟩ := step_does hs
    exact (h.does hdoes).2 (hp.mpr hontime)
  · intro shown st i st' out h _ hlate hs hplace
    obtain ⟨p, hdoes, hp⟩ := step_does hs
    exact hlate (hp.mp ((h.does hdoes).1.mp hplace))

end

end NodeWebrtc.Vendors.DeepgramStt
