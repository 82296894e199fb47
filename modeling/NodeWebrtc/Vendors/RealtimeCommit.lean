import NodeWebrtc.Vendors.CommitBacklog
import NodeWebrtc.Vendors.TranscriptAssembler

/-! # Committed realtime turns

A finalized utterance of enough audio is committed as a turn, and the service answers each turn
once. One flag makes polls wait for the answer. Only a final that a poll takes ends the wait, so a
blank completion leaves the flag set, and the first of two finals clears it for both.

A session between start and stop; what the resampler gives back is an input of each call.
-/

namespace NodeWebrtc.OpenAi

open Machine (Step run Along)
open SttActor (SttTranscript)

inductive ClientEvent where
  | append (pcm : List UInt8)
  | commit
  | clear
deriving DecidableEq

/-- What the reader puts in the queue of the polls. -/
inductive Incoming where
  | update (transcript : SttTranscript)
  | failed (message : String)
deriving DecidableEq

def Incoming.isAnswer : Incoming → Bool
  | .update (.partialText _) => false
  | .update (.finalText _) => true
  | .failed _ => true

structure RealtimeBackend where
  uncommittedBytes : Nat
  backlog : Backlog
  rx : List Incoming
  /-- The reader task runs and holds the other end of `rx`. -/
  reading : Bool
  assembler : TranscriptAssembler
  writing : Bool
  /-- Committed turns that the service has not answered; no branch reads it. -/
  owed : Nat
deriving DecidableEq

/-- Calls, events of the service, and the ends of the two tasks. -/
inductive Input where
  | pushAudio (pcm pcm24 : List UInt8)
  | finalizeUtterance (tail : List UInt8)
  | pollTranscript
  | serverEvent (event : RealtimeEvent)
  | serverError (message : String)
  | readerEnds
  | writerEnds
deriving DecidableEq

inductive Effect where
  | sent (event : ClientEvent)
  | called (result : Except String Unit)
  | polled (result : Except String (Option SttTranscript))
  | waits
deriving DecidableEq

namespace RealtimeBackend

def started : RealtimeBackend := ⟨0, .new, [], true, .new, true, 0⟩

def socketClosed : String := "realtime transcription socket closed"

def sendEvent (s : RealtimeBackend) (event : ClientEvent) : List Effect :=
  if s.writing then [.sent event, .called (.ok ())] else [.called (.error socketClosed)]

def pushAudio (s : RealtimeBackend) (pcm pcm24 : List UInt8) : RealtimeBackend × List Effect :=
  if pcm.isEmpty then (s, [.called (.ok ())])
  else
    let s :=
      { s with
        uncommittedBytes := s.uncommittedBytes + pcm.length
        backlog := s.backlog.notePushedAudio pcm.length }
    (s, if pcm24.isEmpty then [.called (.ok ())] else s.sendEvent (.append pcm24))

/-- `finalize_utterance` behind the tail of the resampler. -/
def commitOrClear (s : RealtimeBackend) : RealtimeBackend × List Effect :=
  if s.uncommittedBytes < STT_MIN_BATCH_BYTES then
    let s := { s with uncommittedBytes := 0, backlog := s.backlog.clearBacklog }
    (s, s.sendEvent .clear)
  else
    let s := { s with uncommittedBytes := 0, backlog := s.backlog.freezeBacklogForCommit }
    ({ s with owed := if s.writing then s.owed + 1 else s.owed }, s.sendEvent .commit)

def finalizeUtterance (s : RealtimeBackend) (tail : List UInt8) : RealtimeBackend × List Effect :=
  if tail.isEmpty then s.commitOrClear
  else if s.writing then (s.commitOrClear.1, .sent (.append tail) :: s.commitOrClear.2)
  else (s, [.called (.error socketClosed)])

def pollTranscript (s : RealtimeBackend) : RealtimeBackend × List Effect :=
  match s.rx with
  | .update (.finalText text) :: rx =>
    ({ s with rx := rx, backlog := s.backlog.onFinalDelivered },
      [.polled (.ok (some (.finalText text)))])
  | .update (.partialText text) :: rx =>
    ({ s with rx := rx }, [.polled (.ok (some (.partialText text)))])
  | .failed message :: rx => ({ s with rx := rx }, [.polled (.error message)])
  | [] =>
    if s.reading then
      if s.backlog.commitWaiting then (s, [.waits]) else (s, [.polled (.ok none)])
    else (s, [.polled (.error socketClosed)])

/-- The reader on an event that is no error. -/
def read (s : RealtimeBackend) (event : RealtimeEvent) : RealtimeBackend :=
  if s.reading then
    let pushed := s.assembler.push event
    { s with assembler := pushed.1, rx := s.rx ++ pushed.2.toList.map .update }
  else s

def readError (s : RealtimeBackend) (message : String) : RealtimeBackend :=
  if s.reading then { s with rx := s.rx ++ [.failed message], reading := false } else s

def answered (s : RealtimeBackend) : RealtimeBackend := { s with owed := s.owed - 1 }

/-- Each completion and each error answers a turn that is owed. -/
def step : Step RealtimeBackend Input Effect
  | s, .pushAudio pcm pcm24 => some (s.pushAudio pcm pcm24)
  | s, .finalizeUtterance tail => some (s.finalizeUtterance tail)
  | s, .pollTranscript => some s.pollTranscript
  | s, .serverEvent (.completed itemId transcript) =>
    if s.owed = 0 then none
    else some (s.answered.read (.completed itemId transcript), [])
  | s, .serverEvent event => some (s.read event, [])
  | s, .serverError message => if s.owed = 0 then none else some (s.answered.readError message, [])
  | s, .readerEnds => some ({ s with reading := false }, [])
  | s, .writerEnds => some ({ s with writing := false }, [])

/-! ## Turns that are due -/

/-- Turns whose answer no poll has taken: those owed, and those whose answer is in the queue. -/
def due (s : RealtimeBackend) : Nat := s.owed + s.rx.countP Incoming.isAnswer

/-- The flag is set exactly while an answer is due. -/
def Waits (s : RealtimeBackend) : Prop := s.backlog.commitWaiting = true ↔ 0 < s.due

/-- What a step must find for the flag to stay right: a short utterance finds no answer due, a
commit reaches the writer or finds one due, a completion that is returned as nothing leaves another
answer due, and a poll takes a final as the last answer and an error before the last one. -/
def Fits (s : RealtimeBackend) : Input → Prop
  | .finalizeUtterance tail =>
    (tail ≠ [] ∧ s.writing = false) ∨
      if s.uncommittedBytes < STT_MIN_BATCH_BYTES then s.due = 0
      else s.writing = true ∨ 0 < s.due
  | .pollTranscript =>
    match s.rx with
    | .update (.finalText _) :: _ => s.due = 1
    | .failed _ :: _ => 2 ≤ s.due
    | _ => True
  | .serverEvent (.completed itemId transcript) =>
    (s.reading = true ∧ (s.assembler.push (.completed itemId transcript)).2 ≠ none) ∨ 2 ≤ s.due
  | .serverError _ => s.reading = true ∨ 2 ≤ s.due
  | _ => True

variable {event : RealtimeEvent}

theorem push_partial (a : TranscriptAssembler)
    (h : ∀ itemId transcript, event ≠ .completed itemId transcript) {t : SttTranscript}
    (ht : (a.push event).2 = some t) : (Incoming.update t).isAnswer = false := by
  cases event with
  | delta itemId delta =>
    simp only [TranscriptAssembler.push, Option.ite_none_left_eq_some, Option.some.injEq] at ht
    rw [← ht.2]
    rfl
  | completed itemId transcript => exact absurd rfl (h itemId transcript)
  | other => cases ht

theorem push_final {a : TranscriptAssembler} {itemId : Option String}
    {transcript : Option (List Char)} {t : SttTranscript}
    (ht : (a.push (.completed itemId transcript)).2 = some t) :
    (Incoming.update t).isAnswer = true := by
  simp only [TranscriptAssembler.push, Option.ite_none_left_eq_some, Option.some.injEq] at ht
  rw [← ht.2]
  rfl

theorem read_backlog (s : RealtimeBackend) (event : RealtimeEvent) :
    (s.read event).backlog = s.backlog := by
  rw [read]
  split <;> rfl

theorem due_read (s : RealtimeBackend)
    (h : ∀ itemId transcript, event ≠ .completed itemId transcript) :
    (s.read event).due = s.due := by
  rw [read]
  split
  · have hnone : ((s.assembler.push event).2.toList.map Incoming.update).countP
        Incoming.isAnswer = 0 := by
      rw [List.countP_map, List.countP_eq_zero]
      intro t ht
      simp [ push_partial _ h (Option.mem_toList.mp ht)]
    rw [due, List.countP_append, hnone, Nat.add_zero]
    rfl
  · rfl

theorem due_read_completed (s : RealtimeBackend) (itemId : Option String)
    (transcript : Option (List Char)) :
    (s.read (.completed itemId transcript)).due =
      s.due + if s.reading = true ∧ (s.assembler.push (.completed itemId transcript)).2 ≠ none
        then 1 else 0 := by
  rw [read]
  by_cases hreading : s.reading = true
  · rw [if_pos hreading, due, due]
    cases hpush : (s.assembler.push (.completed itemId transcript)).2 with
    | none => simp [hpush]
    | some t => simp [hpush, hreading, push_final hpush, Nat.add_assoc]
  · rw [if_neg hreading, if_neg fun h => hreading h.1, Nat.add_zero]

theorem due_readError (s : RealtimeBackend) (message : String) :
    (s.readError message).due = s.due + if s.reading = true then 1 else 0 := by
  rw [readError]
  by_cases hreading : s.reading = true
  · simp [due, hreading, Incoming.isAnswer, Nat.add_assoc]
  · simp [hreading]

theorem readError_backlog (s : RealtimeBackend) (message : String) :
    (s.readError message).backlog = s.backlog := by
  rw [readError]
  split <;> rfl

/-! ## One step -/

theorem commitOrClear_waits_iff (s : RealtimeBackend) :
    s.commitOrClear.1.Waits ↔
      if s.uncommittedBytes < STT_MIN_BATCH_BYTES then s.due = 0
      else s.writing = true ∨ 0 < s.due := by
  rw [commitOrClear, Waits]
  split
  · simp only [Backlog.commitWaiting_clearBacklog, due, Bool.false_eq_true, false_iff, Nat.not_lt, Nat.le_zero]
  · by_cases hwriting : s.writing = true
    · simp [due, hwriting, Nat.succ_add]
    · simp [due, hwriting]

variable {s : RealtimeBackend}

theorem finalizeUtterance_waits_iff (h : s.Waits) (tail : List UInt8) :
    (s.finalizeUtterance tail).1.Waits ↔ s.Fits (.finalizeUtterance tail) := by
  rw [Fits, ← commitOrClear_waits_iff, finalizeUtterance]
  cases tail with
  | nil => simp
  | cons byte tail =>
    by_cases hwriting : s.writing = true
    · simp [hwriting]
    · simp [hwriting, h]

theorem pollTranscript_of_empty (hrx : s.rx = []) : s.pollTranscript.1 = s := by
  rw [pollTranscript, hrx]
  dsimp only
  split
  · split <;> rfl
  · rfl

theorem pollTranscript_waits_iff (h : s.Waits) :
    s.pollTranscript.1.Waits ↔ s.Fits .pollTranscript := by
  rcases hrx : s.rx with _ | ⟨⟨text | text⟩ | message, rx⟩
  · -- an empty queue is left as it is
    rw [pollTranscript_of_empty hrx, Fits, hrx]
    exact iff_of_true h trivial
  · rw [Waits, due, hrx, List.countP_cons_of_neg (by simp [Incoming.isAnswer])] at h
    rw [Fits, pollTranscript, hrx]
    exact iff_of_true h trivial
  · have hcount : (Incoming.update (.finalText text) :: rx).countP Incoming.isAnswer =
        rx.countP Incoming.isAnswer + 1 := List.countP_cons_of_pos rfl
    rw [Fits, pollTranscript, hrx, Waits]
    simp only [Backlog.commitWaiting_onFinalDelivered, due, hrx, Bool.false_eq_true, false_iff, hcount]
    omega
  · have hcount : (Incoming.failed message :: rx).countP Incoming.isAnswer =
        rx.countP Incoming.isAnswer + 1 := List.countP_cons_of_pos rfl
    rw [Waits, due, hrx, hcount] at h
    rw [Fits, pollTranscript, hrx, Waits]
    simp only [due, hrx, h.mpr (Nat.succ_pos _), true_iff, hcount]
    omega

theorem waits_answered_iff {t : RealtimeBackend} (h : s.Waits) (howed : s.owed ≠ 0) {k : Nat}
    (hflag : t.backlog = s.backlog) (hdue : t.due = s.due - 1 + k) :
    t.Waits ↔ 0 < k ∨ 2 ≤ s.due := by
  have hpos : 0 < s.due := Nat.lt_of_lt_of_le (Nat.pos_of_ne_zero howed) (Nat.le_add_right _ _)
  rw [Waits, hflag, h.mpr hpos, hdue, eq_self, true_iff]
  omega

theorem due_answered (howed : s.owed ≠ 0) : s.answered.due = s.due - 1 :=
  (Nat.sub_add_comm (Nat.pos_of_ne_zero howed)).symm

theorem completed_waits_iff (h : s.Waits) (howed : s.owed ≠ 0) (itemId : Option String)
    (transcript : Option (List Char)) :
    (s.answered.read (.completed itemId transcript)).Waits ↔
      s.Fits (.serverEvent (.completed itemId transcript)) := by
  have hdue := due_read_completed s.answered itemId transcript
  rw [due_answered howed] at hdue
  rw [waits_answered_iff h howed (read_backlog s.answered _) hdue, Fits]
  refine or_congr ?_ Iff.rfl
  split
  · next hreturned => exact iff_of_true Nat.one_pos hreturned
  · next hnot => exact iff_of_false (Nat.lt_irrefl 0) hnot

theorem serverError_waits_iff (h : s.Waits) (howed : s.owed ≠ 0) (message : String) :
    (s.answered.readError message).Waits ↔ s.Fits (.serverError message) := by
  have hdue := due_readError s.answered message
  rw [due_answered howed] at hdue
  rw [waits_answered_iff h howed (readError_backlog s.answered _) hdue, Fits]
  refine or_congr ?_ Iff.rfl
  split
  · next hreading => exact iff_of_true Nat.one_pos hreading
  · next hnot => exact iff_of_false (Nat.lt_irrefl 0) hnot

theorem read_waits_iff (h : s.Waits)
    (hevent : ∀ itemId transcript, event ≠ .completed itemId transcript) :
    (s.read event).Waits := by
  rw [Waits, read_backlog, due_read s hevent]
  exact h

theorem step_waits_iff {t : RealtimeBackend} {i : Input} {out : List Effect} (h : s.Waits)
    (hs : step s i = some (t, out)) : t.Waits ↔ s.Fits i := by
  cases i with
  | pushAudio pcm pcm24 =>
    obtain rfl : (s.pushAudio pcm pcm24).1 = t := congrArg Prod.fst (Option.some.inj hs)
    refine iff_of_true ?_ trivial
    rw [pushAudio]
    split
    · exact h
    · rw [Waits, Backlog.commitWaiting_notePushedAudio]
      exact h
  | finalizeUtterance tail =>
    obtain rfl : (s.finalizeUtterance tail).1 = t := congrArg Prod.fst (Option.some.inj hs)
    exact finalizeUtterance_waits_iff h tail
  | pollTranscript =>
    obtain rfl : s.pollTranscript.1 = t := congrArg Prod.fst (Option.some.inj hs)
    exact pollTranscript_waits_iff h
  | serverEvent event =>
    cases event with
    | delta itemId delta | other =>
      cases hs
      exact iff_of_true (read_waits_iff h nofun) trivial
    | completed itemId transcript =>
      obtain ⟨howed, hs⟩ := Option.ite_none_left_eq_some.mp hs
      cases hs
      exact completed_waits_iff h howed itemId transcript
  | serverError message =>
    obtain ⟨howed, hs⟩ := Option.ite_none_left_eq_some.mp hs
    cases hs
    exact serverError_waits_iff h howed message
  | readerEnds | writerEnds =>
    cases hs
    exact iff_of_true h trivial

/-! ## Runs -/

/-- With the flag right, a poll waits exactly when nothing is in the queue, the reader runs and the
service owes an answer. -/
theorem poll_waits_iff (h : s.Waits) :
    s.pollTranscript.2 = [.waits] ↔ s.rx = [] ∧ s.reading = true ∧ 0 < s.owed := by
  rw [Waits, due] at h
  rw [pollTranscript]
  rcases hrx : s.rx with _ | ⟨⟨text | text⟩ | message, rx⟩
  · rw [hrx, List.countP_nil, Nat.add_zero] at h
    by_cases hreading : s.reading = true
    · by_cases hflag : s.backlog.commitWaiting = true
      · simp [hreading, hflag, h.mp hflag]
      · simp [hreading, hflag, ← h]
    · simp [hreading]
  · simp
  · simp
  · simp

/-- In every state of a run the flag is set exactly while an answer is due, and so polls wait
exactly for answers that the service owes, if and only if every step finds what fits it. -/
theorem commitWaiting_iff {is : List Input} {s : RealtimeBackend} {os : List Effect}
    (hr : run step started is = some (s, os)) :
    ((∀ pre t outs, pre <+: is → run step started pre = some (t, outs) → t.Waits) ↔
      Along step Fits started is) ∧
    ∀ t : RealtimeBackend, t.Waits →
      (t.pollTranscript.2 = [.waits] ↔ t.rx = [] ∧ t.reading = true ∧ 0 < t.owed) := by
  refine ⟨?_, fun t => poll_waits_iff⟩
  refine Machine.prefix_invariant_iff_of_run (J := fun _ => True)
    (fun s i t out _ h hs => ⟨trivial, step_waits_iff h hs⟩) trivial ?_ hr
  rw [Waits]
  decide

theorem commitWaiting_iff_oneTurn :
    ((∀ pre t outs, pre <+: [.pushAudio (List.replicate 3200 0) [0], .finalizeUtterance []] →
        run step started pre = some (t, outs) → t.Waits) ↔
      Along step Fits started [.pushAudio (List.replicate 3200 0) [0], .finalizeUtterance []]) ∧
    ∀ t : RealtimeBackend, t.Waits →
      (t.pollTranscript.2 = [.waits] ↔ t.rx = [] ∧ t.reading = true ∧ 0 < t.owed) :=
  commitWaiting_iff (s := ⟨0, ⟨0, 100, true⟩, [], true, .new, true, 1⟩)
    (show _ = some (_, [.sent (.append [0]), .called (.ok ()), .sent .commit, .called (.ok ())]) by
      decide +kernel)

/-- A blank answer leaves the flag set and a poll waiting for nothing; and the first of two finals
clears the flag, so that the next poll passes by the turn that is still due. -/
theorem not_waits_blank_or_second :
    ((run step started
        [.pushAudio (List.replicate 3200 0) [0], .finalizeUtterance [],
          .serverEvent (.completed (some "A") (some [])), .pollTranscript]).map
        fun p => (p.2.getLast?, p.1.backlog.commitWaiting, p.1.due)) = some (some .waits, true, 0) ∧
      ((run step started
        [.pushAudio (List.replicate 3200 0) [0], .finalizeUtterance [],
          .pushAudio (List.replicate 3200 0) [0], .finalizeUtterance [],
          .serverEvent (.completed (some "A") (some ['a'])), .pollTranscript,
          .pollTranscript]).map
        fun p => (p.2.getLast?, p.1.backlog.commitWaiting, p.1.due)) =
          some (some (.polled (.ok none)), false, 1) := by
  decide +kernel

end RealtimeBackend

end NodeWebrtc.OpenAi
