import NodeWebrtc.Speech.SttActor

/-! # The fast poll of the sherpa recognizer

A running provider keeps two notes that nothing is new: whether a decode ran since the result was
read, and a mirror of it that a poll looks at first. With `cached` false the operations here read
the recognizer at every poll; the source is the case of `true`.
-/

namespace NodeWebrtc.Sherpa.FastPoll

open Machine
open SttActor (SttTranscript)

def sampleRate : Nat := 16000
def finalizeTailPaddingMs : Nat := 640
def maxDecodeSteps : Nat := 64

/-- The recognizer on one stream. `text` is the trimmed text of its result, empty without one. -/
structure Recognizer (S F : Type) where
  createStream : S
  acceptWaveform : S → List F → S
  inputFinished : S → S
  isReady : S → Bool
  decode : S → S
  text : S → String
  isEndpoint : S → Bool
  reset : S → S
  zero : F

variable {S F : Type}

/-- Result and endpoint change only by a decode, a reset or a new stream, and the latter two leave
no text. Only audio makes a stream ready. -/
structure Recognizer.Lawful (r : Recognizer S F) : Prop where
  accept_text : ∀ s samples, r.text (r.acceptWaveform s samples) = r.text s
  accept_endpoint : ∀ s samples, r.isEndpoint (r.acceptWaveform s samples) = r.isEndpoint s
  create_text : r.text r.createStream = ""
  create_ready : r.isReady r.createStream = false
  reset_text : ∀ s, r.text (r.reset s) = ""
  reset_ready : ∀ s, r.isReady s = false → r.isReady (r.reset s) = false

/-- The session of a running `SherpaStt`, with the fields that it shares. -/
structure SherpaStt (S : Type) where
  stream : S
  lastEmittedText : String
  pending : List SttTranscript
  decodedSinceResult : Bool
  unread : Bool
  acceptedMs : Nat
deriving DecidableEq, Repr

inductive Input (F : Type) where
  | pushAudio (samples : List F)
  | pushAndPoll (samples : List F)
  | pollTranscript
  | finalizeUtterance
  | discardQueuedTranscripts

/-- What an operation returns, and what it asks of the recognizer. -/
inductive Event where
  | decoded
  | resultRead
  | returned (transcripts : List SttTranscript)
  | discarded (dropped : Nat)
deriving DecidableEq, Repr

/-- Decodes while the stream is ready, up to a number of steps, which it counts. -/
def Recognizer.decodeSteps (r : Recognizer S F) : Nat → S → S × Nat
  | 0, s => (s, 0)
  | n + 1, s =>
    if r.isReady s then ((r.decodeSteps n (r.decode s)).1, (r.decodeSteps n (r.decode s)).2 + 1)
    else (s, 0)

namespace SherpaStt

def start (r : Recognizer S F) : SherpaStt S := ⟨r.createStream, "", [], false, false, 0⟩

def decodeReady (s : SherpaStt S) (r : Recognizer S F) : SherpaStt S × List Event :=
  let steps := r.decodeSteps maxDecodeSteps s.stream
  if 0 < steps.2 then
    ({ s with stream := steps.1, decodedSinceResult := true, unread := true },
      List.replicate steps.2 .decoded)
  else ({ s with stream := steps.1 }, [])

def readTranscript (s : SherpaStt S) (r : Recognizer S F) : SherpaStt S × Option SttTranscript :=
  let s := { s with decodedSinceResult := false, unread := !s.pending.isEmpty }
  let text := r.text s.stream
  if text = "" then (s, none)
  else if r.isEndpoint s.stream then
    ({ s with stream := r.reset s.stream, lastEmittedText := "" }, some (.finalText text))
  else if text = s.lastEmittedText then (s, none)
  else ({ s with lastEmittedText := text }, some (.partialText text))

def discardQueuedTranscripts (s : SherpaStt S) : SherpaStt S × List Event :=
  ({ s with pending := [], unread := s.unread && s.decodedSinceResult },
    [.discarded s.pending.length])

def accept (s : SherpaStt S) (r : Recognizer S F) (samples : List F) : SherpaStt S :=
  { s with
    acceptedMs := s.acceptedMs + samples.length * 1000 / sampleRate,
    stream := r.acceptWaveform s.stream samples }

def pushAudio (s : SherpaStt S) (r : Recognizer S F) (samples : List F) :
    SherpaStt S × List Event :=
  if samples.isEmpty then (s, []) else (s.accept r samples).decodeReady r

def pollTranscript (cached : Bool) (s : SherpaStt S) (r : Recognizer S F) :
    SherpaStt S × List Event :=
  if cached && !s.unread then ({ s with acceptedMs := 0 }, [.returned []])
  else
    match s.pending with
    | transcript :: pending =>
      ({ s with
        pending := pending, acceptedMs := 0,
        unread := s.unread && !(pending.isEmpty && !s.decodedSinceResult) },
        [.returned [transcript]])
    | [] =>
      let d := s.decodeReady r
      let s := { d.1 with acceptedMs := 0 }
      if cached && !s.decodedSinceResult then
        ({ s with unread := false }, d.2 ++ [.returned []])
      else
        ((s.readTranscript r).1, d.2 ++ [.resultRead, .returned (s.readTranscript r).2.toList])

def finalizeUtterance (s : SherpaStt S) (r : Recognizer S F) : SherpaStt S × List Event :=
  let padding := List.replicate (sampleRate * finalizeTailPaddingMs / 1000) r.zero
  let steps := r.decodeSteps maxDecodeSteps (r.inputFinished (r.acceptWaveform s.stream padding))
  let text := r.text steps.1
  let pending := if text = "" then s.pending else s.pending ++ [.finalText text]
  (⟨r.createStream, "", pending, false, !pending.isEmpty, 0⟩,
    List.replicate steps.2 .decoded ++ [.resultRead])

def pushAndPoll (cached : Bool) (s : SherpaStt S) (r : Recognizer S F) (samples : List F) :
    SherpaStt S × List Event :=
  let d := (if samples.isEmpty then s else s.accept r samples).decodeReady r
  let s := { d.1 with acceptedMs := 0, pending := [] }
  if cached && !s.decodedSinceResult then
    ({ s with unread := false }, d.2 ++ [.returned d.1.pending])
  else
    ({ (s.readTranscript r).1 with unread := false },
      d.2 ++ [.resultRead, .returned (d.1.pending ++ (s.readTranscript r).2.toList)])

def call (cached : Bool) (r : Recognizer S F) (s : SherpaStt S) : Input F → SherpaStt S × List Event
  | .pushAudio samples => s.pushAudio r samples
  | .pushAndPoll samples => s.pushAndPoll cached r samples
  | .pollTranscript => s.pollTranscript cached r
  | .finalizeUtterance => s.finalizeUtterance r
  | .discardQueuedTranscripts => s.discardQueuedTranscripts

def step (cached : Bool) (r : Recognizer S F) (s : SherpaStt S) (i : Input F) :
    Option (SherpaStt S × List Event) :=
  some (s.call cached r i)

/-! ## No result is hidden -/

/-- The decode steps that a push makes ready fit in one round. -/
def Fits (r : Recognizer S F) (s : SherpaStt S) : Input F → Prop
  | .pushAudio samples | .pushAndPoll samples =>
    r.isReady (r.decodeSteps maxDecodeSteps (r.acceptWaveform s.stream samples)).1 = false
  | _ => True

def answers (os : List Event) : List Event :=
  os.filter fun | .returned _ | .discarded _ => true | _ => false

/-- Whether a decode ran since the result was last read, and before that. -/
def decodedSince (fresh : Bool) (os : List Event) : Bool :=
  os.foldl (fun fresh o => match o with | .decoded => true | .resultRead => false | _ => fresh) fresh

/-- A read would find nothing new and change nothing. -/
def Unchanged (r : Recognizer S F) (s : SherpaStt S) : Prop :=
  r.text s.stream = "" ∨ r.text s.stream = s.lastEmittedText ∧ r.isEndpoint s.stream = false

structure Noted (r : Recognizer S F) (s : SherpaStt S) (os : List Event) : Prop where
  unchanged : s.decodedSinceResult = false → Unchanged r s
  unread : s.unread = false → s.decodedSinceResult = false ∧ s.pending = []
  decoded : decodedSince false os = true → s.decodedSinceResult = true

def withNotes (s : SherpaStt S) (decoded unread : Bool) : SherpaStt S :=
  { s with decodedSinceResult := decoded, unread := unread }

def Same (s t : SherpaStt S) : Prop := ∃ decoded unread, t = s.withNotes decoded unread

variable {r : Recognizer S F} {s t : SherpaStt S} {os : List Event}

theorem decodeSteps_of_not_ready {stream : S} (h : r.isReady stream = false) (n : Nat) :
    r.decodeSteps n stream = (stream, 0) := by
  cases n with
  | zero => rfl
  | succ n => rw [Recognizer.decodeSteps, h]; rfl

theorem decodeReady_of_not_ready (h : r.isReady s.stream = false) : s.decodeReady r = (s, []) := by
  rw [decodeReady, decodeSteps_of_not_ready h]
  rfl

theorem readTranscript_of_unchanged (h : Unchanged r s) :
    s.readTranscript r =
      ({ s with decodedSinceResult := false, unread := !s.pending.isEmpty }, none) := by
  rw [readTranscript]
  rcases h with hempty | ⟨hlast, hend⟩
  · rw [if_pos hempty]
  · split
    · rfl
    · simp [hend]

theorem readTranscript_unchanged (hr : r.Lawful) (s : SherpaStt S)
    (hready : r.isReady s.stream = false) :
    Unchanged r (s.readTranscript r).1 ∧ r.isReady (s.readTranscript r).1.stream = false ∧
      (s.readTranscript r).1.decodedSinceResult = false ∧
      (s.readTranscript r).1.pending = s.pending ∧
      (s.readTranscript r).1.unread = !s.pending.isEmpty := by
  rw [readTranscript]
  split
  · next h => exact ⟨Or.inl h, hready, rfl, rfl, rfl⟩
  · split
    · exact ⟨Or.inl (hr.reset_text _), hr.reset_ready _ hready, rfl, rfl, rfl⟩
    · next hend =>
      split
      · next hlast => exact ⟨Or.inr ⟨hlast, Bool.eq_false_iff.mpr hend⟩, hready, rfl, rfl, rfl⟩
      · exact ⟨Or.inr ⟨rfl, Bool.eq_false_iff.mpr hend⟩, hready, rfl, rfl, rfl⟩

theorem decodeReady_withNotes (r : Recognizer S F) (s : SherpaStt S) (decoded unread : Bool) :
    Same (s.decodeReady r).1 ((s.withNotes decoded unread).decodeReady r).1 ∧
      ((s.withNotes decoded unread).decodeReady r).2 = (s.decodeReady r).2 := by
  rw [decodeReady, decodeReady, withNotes]
  by_cases h : 0 < (r.decodeSteps maxDecodeSteps s.stream).2
  · simp only [h, if_true]
    exact ⟨⟨true, true, rfl⟩, trivial⟩
  · simp only [h, if_false]
    exact ⟨⟨decoded, unread, rfl⟩, trivial⟩

theorem answers_append (os os' : List Event) : answers (os ++ os') = answers os ++ answers os' :=
  List.filter_append os os'

theorem decodedSince_append (fresh : Bool) (os os' : List Event) :
    decodedSince fresh (os ++ os') = decodedSince (decodedSince fresh os) os' :=
  List.foldl_append

theorem decodeReady_stream (s : SherpaStt S) (r : Recognizer S F) :
    (s.decodeReady r).1.stream = (r.decodeSteps maxDecodeSteps s.stream).1 := by
  rw [decodeReady]
  split <;> rfl

theorem decodeSteps_of_zero {n : Nat} {stream : S} (h : ¬ 0 < (r.decodeSteps n stream).2) :
    (r.decodeSteps n stream).1 = stream := by
  cases n with
  | zero => rfl
  | succ n =>
    rw [Recognizer.decodeSteps] at h ⊢
    split
    · next hready => simp [hready] at h
    · rfl

theorem Noted.decodeReady (h : Noted r s os) :
    Noted r (s.decodeReady r).1 (os ++ (s.decodeReady r).2) := by
  rw [SherpaStt.decodeReady]
  split
  · exact ⟨nofun, nofun, fun _ => rfl⟩
  · next hzero =>
    rw [decodeSteps_of_zero hzero, List.append_nil]
    exact h

theorem Noted.accept (hr : r.Lawful) (h : Noted r s os) (samples : List F) :
    Noted r (s.accept r samples) os := by
  refine ⟨fun hd => ?_, h.unread, h.decoded⟩
  rw [Unchanged, SherpaStt.accept, hr.accept_text, hr.accept_endpoint]
  exact h.unchanged hd

def allRead (s : SherpaStt S) : SherpaStt S := { s with unread := false }

/-- The two providers after an operation, from what they put out before it. -/
structure Agree (r : Recognizer S F) (os : List Event) (p q : SherpaStt S × List Event) :
    Prop where
  same : Same p.1 q.1
  answers : answers p.2 = answers q.2
  noted : Noted r p.1 (os ++ p.2)
  ready : r.isReady p.1.stream = false

theorem agree_read (hr : r.Lawful) (s : SherpaStt S) (decoded unread : Bool)
    (ready : List SttTranscript) (out : List Event) (hn : Noted r s (os ++ out)) (hready : r.isReady s.stream = false)
    (hpending : s.pending = []) :
    Agree r os
      (if (true && !s.decodedSinceResult) = true then
        (s.allRead, out ++ [.returned ready])
      else ((s.readTranscript r).1.allRead,
        out ++ [.resultRead, .returned (ready ++ (s.readTranscript r).2.toList)]))
      (((s.withNotes decoded unread).readTranscript r).1.allRead,
        out ++ [.resultRead,
          .returned (ready ++ ((s.withNotes decoded unread).readTranscript r).2.toList)]) := by
  have hsame : (s.withNotes decoded unread).readTranscript r = s.readTranscript r := rfl
  rw [hsame]
  cases hd : s.decodedSinceResult with
  | false =>
    have hu := hn.unchanged hd
    rw [readTranscript_of_unchanged hu, if_pos (show (true && !false) = true from rfl)]
    refine ⟨⟨false, false, rfl⟩, ?_, ⟨fun _ => hu, fun _ => ⟨hd, hpending⟩, ?_⟩, hready⟩
    · simp [answers]
    · intro h
      rw [← List.append_assoc, decodedSince_append] at h
      exact hn.decoded h
  | true =>
    rw [if_neg (by decide)]
    obtain ⟨hu, hready', hd', hp', -⟩ := readTranscript_unchanged hr s hready
    refine ⟨⟨false, false, ?_⟩, rfl, ⟨fun _ => hu, fun _ => ⟨hd', hp'.trans hpending⟩, ?_⟩, hready'⟩
    · rw [withNotes, ← hd', allRead]
      rw [hd']
    · intro h
      rw [← List.append_assoc, decodedSince_append] at h
      cases h

theorem readTranscript_eq (hr : r.Lawful) (hready : r.isReady s.stream = false)
    (hpending : s.pending = []) :
    (s.readTranscript r).1.allRead = (s.readTranscript r).1 := by
  obtain ⟨-, -, -, -, hu⟩ := readTranscript_unchanged hr s hready
  rw [hpending] at hu
  rw [allRead, ← show (s.readTranscript r).1.unread = false from hu]

variable {decoded unread : Bool}

theorem agree_pollTranscript (hr : r.Lawful) (hn : Noted r s os)
    (hready : r.isReady s.stream = false) :
    Agree r os (s.pollTranscript true r) ((s.withNotes decoded unread).pollTranscript false r) := by
  have hready' : r.isReady (s.withNotes decoded unread).stream = false := hready
  cases hp : s.pending with
  | cons transcript pending =>
    have hu : s.unread = true := by
      by_contra hne
      have hnil := (hn.unread (Bool.eq_false_iff.mpr hne)).2
      rw [hp] at hnil
      cases hnil
    have hp' : (s.withNotes decoded unread).pending = transcript :: pending := hp
    have hfast : s.pollTranscript true r = ({ s with
        pending := pending, acceptedMs := 0,
        unread := !(pending.isEmpty && !s.decodedSinceResult) }, [.returned [transcript]]) := by
      simp [pollTranscript, hp, hu]
    have hplain : (s.withNotes decoded unread).pollTranscript false r =
        ({ s with
          pending := pending, acceptedMs := 0, decodedSinceResult := decoded,
          unread := unread && !(pending.isEmpty && !decoded) }, [.returned [transcript]]) := by
      simp [pollTranscript, withNotes, hp]
    rw [hfast, hplain]
    refine ⟨⟨_, _, rfl⟩, rfl, ⟨hn.unchanged, fun h => ?_, fun h => ?_⟩, hready⟩
    · simpa [and_comm] using h
    · rw [decodedSince_append] at h
      exact hn.decoded h
  | nil =>
    obtain ⟨stream, last, pending, fresh, mirror, ms⟩ := s
    obtain rfl : pending = [] := hp
    have hlast := agree_read hr ⟨stream, last, [], fresh, mirror, 0⟩ decoded unread [] []
      ⟨hn.unchanged, hn.unread, by rw [List.append_nil]; exact hn.decoded⟩ hready rfl
    rw [readTranscript_eq hr (s := ⟨stream, last, [], fresh, mirror, 0⟩) hready rfl,
      readTranscript_eq hr (s := withNotes ⟨stream, last, [], fresh, mirror, 0⟩ decoded unread)
        hready rfl] at hlast
    have hplain : (withNotes ⟨stream, last, [], fresh, mirror, ms⟩ decoded unread).pollTranscript
        false r = ((readTranscript ⟨stream, last, [], decoded, unread, 0⟩ r).1,
          [.resultRead, .returned (readTranscript ⟨stream, last, [], decoded, unread, 0⟩ r).2.toList]) := by
      rw [pollTranscript, decodeReady_of_not_ready hready']
      rfl
    have hfast : pollTranscript true ⟨stream, last, [], fresh, mirror, ms⟩ r =
        if (true && !fresh) = true then (⟨stream, last, [], fresh, false, 0⟩, [.returned []])
        else ((readTranscript ⟨stream, last, [], fresh, mirror, 0⟩ r).1,
          [.resultRead, .returned (readTranscript ⟨stream, last, [], fresh, mirror, 0⟩ r).2.toList]) := by
      rw [pollTranscript, decodeReady_of_not_ready hready]
      cases mirror with
      | true => rfl
      | false =>
        -- the mirror answers: nothing was decoded either
        rw [show fresh = false from (hn.unread rfl).1]
        rfl
    rw [hplain, hfast]
    exact hlast

theorem agree_pushAndPoll (hr : r.Lawful) (hn : Noted r s os) (hready : r.isReady s.stream = false)
    {samples : List F} (hfit : Fits r s (.pushAndPoll samples)) :
    Agree r os (s.pushAndPoll true r samples)
      ((s.withNotes decoded unread).pushAndPoll false r samples) := by
  have hfed : ∃ fed : SherpaStt S, (if samples.isEmpty then s else s.accept r samples) = fed ∧
      (if samples.isEmpty then s.withNotes decoded unread
        else (s.withNotes decoded unread).accept r samples) = fed.withNotes decoded unread ∧
      Noted r fed os ∧ r.isReady (r.decodeSteps maxDecodeSteps fed.stream).1 = false := by
    by_cases hs : samples.isEmpty
    · rw [if_pos hs, if_pos hs]
      exact ⟨s, rfl, rfl, hn, by rw [decodeSteps_of_not_ready hready]; exact hready⟩
    · rw [if_neg hs, if_neg hs]
      exact ⟨s.accept r samples, rfl, rfl, hn.accept hr samples, hfit⟩
  obtain ⟨fed, hs, ht, hnoted, hdone⟩ := hfed
  obtain ⟨⟨d, u, hsame⟩, hout⟩ := decodeReady_withNotes r fed decoded unread
  have hdecoded := hnoted.decodeReady
  rw [pushAndPoll, pushAndPoll, hs, ht, hsame, hout]
  exact agree_read hr { (fed.decodeReady r).1 with acceptedMs := 0, pending := [] } d u _ _
    ⟨hdecoded.unchanged, fun h => ⟨(hdecoded.unread h).1, rfl⟩, hdecoded.decoded⟩
    ((decodeReady_stream fed r).symm ▸ hdone) rfl

theorem agree_pushAudio (hr : r.Lawful) (hn : Noted r s os) (hready : r.isReady s.stream = false)
    {samples : List F} (hfit : Fits r s (.pushAudio samples)) :
    Agree r os (s.pushAudio r samples) ((s.withNotes decoded unread).pushAudio r samples) := by
  rw [pushAudio, pushAudio]
  split
  · exact ⟨⟨decoded, unread, rfl⟩, rfl, by rw [List.append_nil]; exact hn, hready⟩
  · obtain ⟨hsame, hout⟩ := decodeReady_withNotes r (s.accept r samples) decoded unread
    exact ⟨hsame, congrArg answers hout.symm, (hn.accept hr samples).decodeReady,
      (decodeReady_stream (s.accept r samples) r).symm ▸ hfit⟩

theorem agree_call (hr : r.Lawful) (hn : Noted r s os) (hready : r.isReady s.stream = false)
    {i : Input F} (hfit : Fits r s i) {t : SherpaStt S} (h : Same s t) :
    Agree r os (s.call true r i) (t.call false r i) := by
  obtain ⟨decoded, unread, rfl⟩ := h
  cases i with
  | pushAudio samples => exact agree_pushAudio hr hn hready hfit
  | pushAndPoll samples => exact agree_pushAndPoll hr hn hready hfit
  | pollTranscript => exact agree_pollTranscript hr hn hready
  | finalizeUtterance =>
    refine ⟨⟨_, _, rfl⟩, rfl, ⟨fun _ => Or.inl hr.create_text, fun h => ⟨rfl, ?_⟩, fun h => ?_⟩,
      hr.create_ready⟩
    · simpa [call, finalizeUtterance] using h
    · rw [call, finalizeUtterance, decodedSince_append, decodedSince_append] at h
      cases h
  | discardQueuedTranscripts =>
    refine ⟨⟨_, _, rfl⟩, rfl, ⟨hn.unchanged, fun h => ⟨?_, rfl⟩, fun h => ?_⟩, hready⟩
    · rcases Bool.and_eq_false_iff.mp h with hu | hd
      · exact (hn.unread hu).1
      · exact hd
    · rw [decodedSince_append] at h
      exact hn.decoded h

/-- No call answers otherwise than if every poll read the recognizer, and nothing is unread when
the mirror says so. -/
theorem answers_eq (r : Recognizer S F) (hr : r.Lawful) (is : List (Input F))
    (hfit : Along (step true r) (Fits r) (start r) is) :
    ∃ s t os plain, run (step true r) (start r) is = some (s, os) ∧
      run (step false r) (start r) is = some (t, plain) ∧ answers os = answers plain ∧
      (s.unread = false → s.pending = [] ∧ decodedSince false os = false) := by
  obtain ⟨s, os, hrun, t, plain, hplain, -, hanswers, hn, -⟩ := run_spec
    (I := fun is os s => ∃ t plain, run (step false r) (start r) is = some (t, plain) ∧
      Same s t ∧ answers os = answers plain ∧ Noted r s os ∧ r.isReady s.stream = false)
    (fun is os s i h hfit => by
      obtain ⟨t, plain, hplain, hsame, hanswers, hn, hready⟩ := h
      have hcall := agree_call hr hn hready hfit hsame
      refine ⟨_, _, rfl, (t.call false r i).1, plain ++ (t.call false r i).2,
        run_append_eq_some.mpr ⟨t, plain, _, hplain, run_singleton.mpr rfl, rfl⟩, hcall.same, ?_,
        hcall.noted, hcall.ready⟩
      rw [answers_append, answers_append, hanswers]
      exact congrArg (answers plain ++ ·) hcall.answers)
    ⟨start r, [], rfl, ⟨false, false, rfl⟩, rfl,
      ⟨fun _ => Or.inl hr.create_text, fun _ => ⟨rfl, rfl⟩, nofun⟩, hr.create_ready⟩ hfit
  refine ⟨s, t, os, plain, hrun, hplain, hanswers, fun hu => ?_⟩
  obtain ⟨hd, hp⟩ := hn.unread hu
  refine ⟨hp, ?_⟩
  cases hsince : decodedSince false os with
  | false => rfl
  | true =>
    rw [hn.decoded hsince] at hd
    cases hd

/-- A recognizer that decodes a word of two samples at a time and ends a sentence at two words. -/
def wordRecognizer : Recognizer (Nat × Nat) Nat where
  createStream := (0, 0)
  acceptWaveform s samples := (s.1 + samples.length, s.2)
  inputFinished s := s
  isReady s := 2 ≤ s.1
  decode s := (s.1 - 2, s.2 + 1)
  text s := String.ofList (List.replicate s.2 'a')
  isEndpoint s := 2 ≤ s.2
  reset s := (s.1, 0)
  zero := 0

theorem wordRecognizer_lawful : wordRecognizer.Lawful where
  accept_text _ _ := rfl
  accept_endpoint _ _ := rfl
  create_text := rfl
  create_ready := rfl
  reset_text _ := rfl
  reset_ready _ h := h

theorem answers_eq_wordRecognizer :
    ∃ s t os plain, run (step true wordRecognizer) (start wordRecognizer)
        [.pushAudio [1, 2, 3], .pollTranscript, .pollTranscript, .pushAndPoll [4]] = some (s, os) ∧
      run (step false wordRecognizer) (start wordRecognizer)
        [.pushAudio [1, 2, 3], .pollTranscript, .pollTranscript, .pushAndPoll [4]] =
          some (t, plain) ∧
      answers os = answers plain ∧
      (s.unread = false → s.pending = [] ∧ decodedSince false os = false) :=
  answers_eq wordRecognizer wordRecognizer_lawful _ (by
    refine ⟨rfl, fun _ _ h => ?_⟩
    cases h
    refine ⟨trivial, fun _ _ h => ?_⟩
    cases h
    refine ⟨trivial, fun _ _ h => ?_⟩
    cases h
    exact ⟨rfl, fun _ _ _ => trivial⟩)

end SherpaStt

end NodeWebrtc.Sherpa.FastPoll
