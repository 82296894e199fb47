import NodeWebrtc.ClusterSpeech.StreamWorker
import Mathlib.Data.List.Nodup

/-! # Every finalize is answered

A finalize the channel took is in the channel, in the carry or pending, in this order of age,
until it is answered. A step that stays in the worker keeps that ledger. A step by which the
worker returns answers what is pending and what is carried and drops the channel.
-/

namespace NodeWebrtc.ClusterSpeech

open Machine

/-! ## The ledger -/

def answers : List Output → List Nat
  | [] => []
  | .finalizeDone ticket :: os => ticket :: answers os
  | .request _ _ :: os | .idleClosed _ :: os | .nothingOpen _ :: os | .transcript _ :: os => answers os

@[simp] theorem answers_append (os os' : List Output) :
    answers (os ++ os') = answers os ++ answers os' := by
  induction os with
  | nil => rfl
  | cons o os ih => cases o <;> simp [answers, ih]

@[simp] theorem answers_map_finalizeDone (l : List Nat) : answers (l.map .finalizeDone) = l := by
  induction l with
  | nil => rfl
  | cons n l ih => simp [answers, ih]

def StreamCommand.tickets : List StreamCommand → List Nat
  | [] => []
  | .finalize ticket :: cmds => ticket :: tickets cmds
  | .audio _ :: cmds | .stop :: cmds => tickets cmds

@[simp] theorem StreamCommand.tickets_append (cmds cmds' : List StreamCommand) :
    tickets (cmds ++ cmds') = tickets cmds ++ tickets cmds' := by
  induction cmds with
  | nil => rfl
  | cons c cmds ih => cases c <;> simp [tickets, ih]

@[simp] theorem CarryItem.tickets_append (items items' : List CarryItem) :
    tickets (items ++ items') = tickets items ++ tickets items' := by
  induction items with
  | nil => rfl
  | cons c items ih => cases c <;> simp [tickets, ih]

/-- The finalizes still to be answered, oldest first. -/
def Worker.owed (w : Worker) : List Nat :=
  w.pending ++ CarryItem.tickets w.carry ++ StreamCommand.tickets w.channel

/-- What is answered and what is owed are the finalizes the channel took, in order. -/
def Ledger (os : List Output) (w : Worker) : Prop := answers os ++ w.owed = List.range w.accepted

/-! ## The steps by which the worker returns -/

/-- The next command goes to the stream and not to the carry. -/
def Worker.sendsNext (w : Worker) : Bool :=
  match w.channel with
  | .audio _ :: _ => !(w.perUtterance && !w.pending.isEmpty)
  | .finalize _ :: _ => w.carry.isEmpty
  | _ => false

/-- The worker returns on this input, no stop being sent: it cannot connect, a send finds the
stream gone, the stream breaks with an utterance open, or it does not get ready. -/
def Worker.leaves (w : Worker) (i : Input) : Bool :=
  match w.phase, i with
  | .connecting, .connected ok => !ok
  | .replaying _, .replay ok => !ok && !w.carry.isEmpty
  | .streaming _, .receive ok => !ok && w.sendsNext
  | .streaming st, .answer (.error _ _) | .streaming st, .answer (.status _)
  | .streaming st, .answer .endOfStream => st.utteranceOpen
  | .streaming st, .readyTimeout => !st.ready
  | _, _ => false

/-- What is in the channel when the worker returns on this input. -/
def Worker.left (w : Worker) : Input → List StreamCommand
  | .receive _ => w.channel.tail
  | _ => w.channel

/-- A finalize finds the stream gone while an earlier one is pending on it. -/
def Worker.overtakes (w : Worker) (i : Input) : Bool :=
  match w.phase, i with
  | .replaying _, .replay ok =>
    match w.carry with
    | .finalize _ :: _ => !ok && !w.pending.isEmpty
    | _ => false
  | .streaming _, .receive ok =>
    match w.channel with
    | .finalize _ :: _ => !ok && w.carry.isEmpty && !w.pending.isEmpty
    | _ => false
  | _, _ => false

/-- The worker does not return over a finalize in its channel, and a finalize whose send fails
has no earlier one pending. -/
def AnswersAll (w : Worker) (i : Input) : Prop :=
  (w.leaves i = true → StreamCommand.tickets (w.left i) = []) ∧ w.overtakes i = false

/-! ## One step -/

inductive Outcome (w : Worker) (i : Input) (t : Worker) (out : List Output) : Prop
  | asked (hout : out = []) (howed : t.owed = w.owed ++ [w.accepted])
      (haccepted : t.accepted = w.accepted + 1) (hphase : t.phase ≠ .exited)
      (hkept : w.leaves i = false ∧ w.overtakes i = false)
  | served (howed : answers out ++ t.owed = w.owed) (haccepted : t.accepted = w.accepted)
      (hphase : t.phase ≠ .exited) (hkept : w.leaves i = false ∧ w.overtakes i = false)
  | drained (howed : answers out ++ StreamCommand.tickets (w.left i) = w.owed)
      (haccepted : t.accepted = w.accepted) (hphase : t.phase = .exited)
      (hleaves : w.leaves i = true) (hover : w.overtakes i = false)
  | refused (ticket : Nat) (rest : List Nat) (hout : answers out = ticket :: (w.pending ++ rest))
      (howed : w.owed = w.pending ++ ticket :: (rest ++ StreamCommand.tickets (w.left i)))
      (haccepted : t.accepted = w.accepted) (hphase : t.phase = .exited)
      (hleaves : w.leaves i = true) (hover : w.overtakes i = !w.pending.isEmpty)

namespace Worker

theorem afterLoop_stays {w : Worker} {stream : Nat} {how : LoopEnd} (h : how ≠ .ended) :
    answers (w.afterLoop stream how).2 ++ (w.afterLoop stream how).1.owed = w.owed ∧
      (w.afterLoop stream how).1.accepted = w.accepted ∧
      (w.afterLoop stream how).1.phase ≠ .exited := by
  cases how with
  | ended => exact absurd rfl h
  | reopen => simp [afterLoop, openHead, owed]
  | goIdle =>
    by_cases hcarry : w.carry = []
    · simp [afterLoop, owed, hcarry, answers]
    · simp [afterLoop, openHead, owed, hcarry, answers]

theorem afterLoop_ended (w : Worker) (stream : Nat) :
    answers (w.afterLoop stream .ended).2 = w.pending ++ CarryItem.tickets w.carry ∧
      (w.afterLoop stream .ended).1.accepted = w.accepted ∧
      (w.afterLoop stream .ended).1.phase = .exited := by
  simp [afterLoop, exit]

theorem openHead_owed (w : Worker) : w.openHead.owed = w.owed := rfl

theorem finalized_owed (w : Worker) :
    w.pending.take 1 ++ ({ w with pending := w.pending.drop 1 } : Worker).owed = w.owed := by
  rw [owed, owed, ← List.append_assoc, ← List.append_assoc, List.take_append_drop]

end Worker

variable {t w w' : Worker} {i : Input} {pre : List Output}

private theorem outcome_ended {stream : Nat} {post : List Output}
    (h : w'.afterLoop stream .ended = (t, post)) (hpre : answers pre = [])
    (haccepted : w'.accepted = w.accepted)
    (howed : w'.pending ++ CarryItem.tickets w'.carry ++ StreamCommand.tickets (w.left i) = w.owed)
    (hleaves : w.leaves i = true) (hover : w.overtakes i = false) :
    Outcome w i t (pre ++ post) := by
  obtain ⟨hanswers, hacc, hphase⟩ := w'.afterLoop_ended stream
  rw [h] at hanswers hacc hphase
  refine .drained ?_ (hacc.trans haccepted) hphase hleaves hover
  rw [answers_append, hpre, hanswers, List.nil_append, howed]

private theorem outcome_left_stream {stream : Nat} {how : Worker.LoopEnd} {post : List Output}
    (h : w'.afterLoop stream how = (t, post)) (hhow : how ≠ .ended)
    (haccepted : w'.accepted = w.accepted) (howed : answers pre ++ w'.owed = w.owed)
    (hkept : w.leaves i = false ∧ w.overtakes i = false) : Outcome w i t (pre ++ post) := by
  have hstays : answers (w'.afterLoop stream how).2 ++ (w'.afterLoop stream how).1.owed = w'.owed ∧ _ :=
    Worker.afterLoop_stays hhow
  rw [h] at hstays
  obtain ⟨hanswers, hacc, hphase⟩ := hstays
  refine .served ?_ (hacc.trans haccepted) hphase hkept
  rw [answers_append, List.append_assoc, hanswers, howed]

/-- Nothing is pending or carried while the worker connects, nor while it waits idle. -/
def Settled (w : Worker) : Prop :=
  w.phase = .connecting ∨ w.phase = .idle → w.pending = [] ∧ w.carry = []

variable {next : Stream → Phase} {out : List Output}

private theorem outcome_sendAudio {st : Stream} {pcm : List UInt8} {ok : Bool}
    (h : w'.sendAudio st pcm ok next = (t, out)) (hnext : ∀ st, next st ≠ .exited)
    (haccepted : w'.accepted = w.accepted) (howed : w'.owed = w.owed)
    (hleft : w'.channel = w.left i) (hleaves : w.leaves i = !ok) (hover : w.overtakes i = false) :
    Outcome w i t out := by
  rw [Worker.sendAudio] at h
  cases ok with
  | true =>
    cases h
    exact .served howed haccepted (hnext _) ⟨hleaves, hover⟩
  | false =>
    simp only [Bool.false_eq_true, if_false] at h
    refine outcome_ended h (show answers [] = [] from rfl) haccepted ?_ hleaves hover
    rw [← howed, Worker.owed, hleft]
    rfl

private theorem outcome_sendFinalize {st : Stream} {ticket : Nat} {ok : Bool}
    (h : w'.sendFinalize st ticket ok next = (t, out)) (hnext : ∀ st, next st ≠ .exited)
    (haccepted : w'.accepted = w.accepted) (hpending : w'.pending = w.pending)
    (howed : w.owed = w.pending ++ ticket :: (CarryItem.tickets w'.carry ++
      StreamCommand.tickets w'.channel)) (hleft : w'.channel = w.left i)
    (hleaves : w.leaves i = !ok) (hover : w.overtakes i = (!ok && !w.pending.isEmpty)) :
    Outcome w i t out := by
  rw [Worker.sendFinalize] at h
  cases ok with
  | true =>
    cases h
    refine .served ?_ haccepted (hnext _) ⟨hleaves, hover⟩
    rw [howed]
    simp [Worker.owed, answers, hpending]
  | false =>
    obtain ⟨hanswers, hacc, hphase⟩ := w'.afterLoop_ended st.id
    simp only [Bool.false_eq_true, if_false, Prod.mk.injEq] at h
    refine .refused ticket (CarryItem.tickets w'.carry) ?_ ?_ ?_ ?_ hleaves ?_
    · rw [← h.2, answers, hanswers, hpending]
    · rw [howed, hleft]
    · rw [← h.1, hacc, haccepted]
    · rw [← h.1, hphase]
    · rw [hover]
      rfl

theorem step_outcome (hsettled : Settled w) (hstop : .stop ∉ w.channel) (hi : i ≠ .send .stop)
    (hphase : w.phase ≠ .exited) (h : w.step i = some (t, out)) : Outcome w i t out := by
  cases i with simp only [Worker.step] at h
  | send cmd =>
    have hkept : w.leaves (.send cmd) = false ∧ w.overtakes (.send cmd) = false := by
      constructor <;> cases hw : w.phase <;> simp [Worker.leaves, Worker.overtakes, hw]
    simp only [Worker.step, Worker.send, if_neg hphase] at h
    cases h
    cases cmd with
    | audio pcm =>
      refine .served ?_ rfl hphase hkept
      simp [Worker.owed, StreamCommand.tickets, answers]
    | finalize =>
      refine .asked rfl ?_ rfl hphase hkept
      simp [Worker.owed, StreamCommand.tickets]
    | stop => exact absurd rfl hi
  | connected ok =>
    split at h
    next hw =>
      obtain ⟨hpending, hcarry⟩ := hsettled (Or.inl hw)
      cases ok with
      | true =>
        cases h
        exact .served (by rw [Worker.openHead_owed]; rfl) rfl (by simp [Worker.openHead])
          ⟨by simp [Worker.leaves, hw], by simp [Worker.overtakes, hw]⟩
      | false =>
        cases h
        refine .drained ?_ rfl rfl (by simp [Worker.leaves, hw]) (by simp [Worker.overtakes, hw])
        simp [Worker.owed, hpending, hcarry, CarryItem.tickets, answers, Worker.left]
    next => cases h
  | transcribe result =>
    split at h
    next hw =>
      have hkept : w.leaves (.transcribe result) = false ∧ w.overtakes (.transcribe result) = false :=
        ⟨by simp [Worker.leaves, hw], by simp [Worker.overtakes, hw]⟩
      split at h
      next => cases h; exact .served rfl rfl (by simp) hkept
      next => cases h; exact .served rfl rfl (by simp [Worker.openHead]) hkept
      next => cases h; exact .served rfl rfl (by simp [Worker.openHead]) hkept
    next => cases h
  | replay ok =>
    split at h
    next st hw =>
      rw [Option.some.injEq] at h
      rw [Worker.replayItem] at h
      split at h
      next hcarry =>
        cases h
        refine .served rfl rfl (by simp) ⟨?_, ?_⟩
        · simp [Worker.leaves, hw, hcarry]
        · simp [Worker.overtakes, hw, hcarry]
      next pcm carry hcarry =>
        refine outcome_sendAudio h (by simp) rfl ?_ rfl ?_ ?_
        · simp [Worker.owed, hcarry, CarryItem.tickets]
        · simp [Worker.leaves, hw, hcarry]
        · simp [Worker.overtakes, hw, hcarry]
      next ticket carry hcarry =>
        refine outcome_sendFinalize h (by simp) rfl rfl ?_ rfl ?_ ?_
        · simp [Worker.owed, hcarry, CarryItem.tickets]
        · simp [Worker.leaves, hw, hcarry]
        · simp [Worker.overtakes, hw, hcarry]
    next => cases h
  | receive ok =>
    split at h
    next st hw =>
      rw [Worker.receiveOpen] at h
      split at h
      next => cases h
      next pcm channel hchannel =>
        simp only at h
        split_ifs at h with hcarried
        · cases h
          refine .served ?_ rfl (by rw [hw]; simp) ⟨?_, ?_⟩
          · simp [Worker.owed, hchannel, StreamCommand.tickets, CarryItem.tickets, answers]
          · simp [Worker.leaves, hw, Worker.sendsNext, hchannel, hcarried]
          · simp [Worker.overtakes, hw, hchannel]
        · rw [Option.some.injEq] at h
          refine outcome_sendAudio h (by simp) rfl ?_ ?_ ?_ ?_
          · simp [Worker.owed, hchannel, StreamCommand.tickets]
          · simp [Worker.left, hchannel]
          · simp [Worker.leaves, hw, Worker.sendsNext, hchannel, hcarried]
          · simp [Worker.overtakes, hw, hchannel]
      next ticket channel hchannel =>
        simp only at h
        split_ifs at h with hcarried
        · have hne : w.carry ≠ [] := by simpa using hcarried
          cases h
          refine .served ?_ rfl (by rw [hw]; simp) ⟨?_, ?_⟩
          · simp [Worker.owed, hchannel, StreamCommand.tickets, CarryItem.tickets, answers]
          · simp [Worker.leaves, hw, Worker.sendsNext, hchannel, hne]
          · simp [Worker.overtakes, hw, hchannel, hne]
        · rw [Option.some.injEq] at h
          have hempty : w.carry = [] := by simpa using hcarried
          refine outcome_sendFinalize h (by simp) rfl rfl ?_ ?_ ?_ ?_
          · simp [Worker.owed, hchannel, StreamCommand.tickets, hempty, CarryItem.tickets]
          · simp [Worker.left, hchannel]
          · simp [Worker.leaves, hw, Worker.sendsNext, hchannel, hempty]
          · simp [Worker.overtakes, hw, hchannel, hempty]
      next channel hchannel => exact absurd (by rw [hchannel]; simp) hstop
    next hw =>
      obtain ⟨hpending, hcarry⟩ := hsettled (Or.inr hw)
      have hkept : w.leaves (.receive ok) = false ∧ w.overtakes (.receive ok) = false :=
        ⟨by simp [Worker.leaves, hw], by simp [Worker.overtakes, hw]⟩
      rw [Worker.receiveIdle] at h
      split at h
      next => cases h
      next pcm channel hchannel =>
        cases h
        refine .served ?_ rfl (by simp [Worker.openHead]) hkept
        simp [Worker.openHead, Worker.owed, hchannel, StreamCommand.tickets, CarryItem.tickets,
          answers]
      next ticket channel hchannel =>
        cases h
        refine .served ?_ rfl (by rw [hw]; simp) hkept
        simp [Worker.owed, hchannel, StreamCommand.tickets, hpending, hcarry, CarryItem.tickets,
          answers]
      next channel hchannel => exact absurd (by rw [hchannel]; simp) hstop
    next => cases h
  | answer a =>
    split at h
    next st hw =>
      rw [Option.some.injEq] at h
      have hover : w.overtakes (.answer a) = false := by simp [Worker.overtakes, hw]
      have howed : w.pending ++ CarryItem.tickets w.carry ++
          StreamCommand.tickets (w.left (.answer a)) = w.owed := rfl
      have hbroken : w.leaves (.answer a) = st.utteranceOpen → w.broken st = (t, out) →
          Outcome w (.answer a) t out := by
        intro hleaves hb
        rw [Worker.broken] at hb
        split_ifs at hb with hopen
        · cases hb
          rw [hopen] at hleaves
          exact outcome_ended (Eq.refl (w.afterLoop st.id .ended))
            (show answers [.transcript (.final "")] = [] from rfl) rfl howed hleaves hover
        · rw [Bool.not_eq_true] at hopen
          rw [hopen] at hleaves
          exact outcome_left_stream hb (by simp) rfl (show answers [] ++ w.owed = w.owed from rfl) ⟨hleaves, hover⟩
      cases a with
      | ready =>
        cases h
        exact .served rfl rfl (by simp) ⟨by simp [Worker.leaves, hw], hover⟩
      | transcript isFinal text | empty =>
        cases h
        exact .served rfl rfl hphase ⟨by simp [Worker.leaves, hw], hover⟩
      | finalized =>
        have hleaves : w.leaves (.answer .finalized) = false := by simp [Worker.leaves, hw]
        rw [Worker.handle, Worker.finalized] at h
        split_ifs at h with hidle <;> cases h
        · refine outcome_left_stream (Eq.refl (Worker.afterLoop
            { w with pending := w.pending.drop 1 } st.id .goIdle)) (by simp) rfl ?_
            ⟨hleaves, hover⟩
          rw [answers_map_finalizeDone]
          exact w.finalized_owed
        · refine .served ?_ rfl (by simp) ⟨hleaves, hover⟩
          rw [answers_map_finalizeDone]
          exact w.finalized_owed
      | relocate =>
        rw [Worker.handle] at h
        exact outcome_left_stream h (by simp) rfl (show answers [] ++ w.owed = w.owed from rfl)
          ⟨by simp [Worker.leaves, hw], hover⟩
      | error code message | status unavailable => exact hbroken (by simp [Worker.leaves, hw]) h
      | endOfStream =>
        have hleaves : w.leaves (.answer .endOfStream) = st.utteranceOpen := by
          simp [Worker.leaves, hw]
        rw [Worker.handle] at h
        split_ifs at h with hopen
        · rw [hopen] at hleaves
          exact outcome_ended h (show answers [] = [] from rfl) rfl howed hleaves hover
        · rw [Bool.not_eq_true] at hopen
          rw [hopen] at hleaves
          exact outcome_left_stream h (by simp) rfl (show answers [] ++ w.owed = w.owed from rfl) ⟨hleaves, hover⟩
    next => cases h
  | readyTimeout =>
    split at h
    next st hw =>
      split_ifs at h with hready
      rw [Option.some.injEq] at h
      exact outcome_ended h (show answers [] = [] from rfl) rfl rfl (by simp [Worker.leaves, hw, hready])
        (by simp [Worker.overtakes, hw])
    next => cases h
  | idleTimeout =>
    split at h
    next st hw =>
      split_ifs at h
      rw [Option.some.injEq] at h
      exact outcome_left_stream h (by simp) rfl (show answers [] ++ w.owed = w.owed from rfl)
        ⟨by simp [Worker.leaves, hw], by simp [Worker.overtakes, hw]⟩
    next => cases h

/-! ## Runs without a stop -/

/-- A settled worker with no stop in its channel. -/
def Unstopped (w : Worker) : Prop := Settled w ∧ .stop ∉ w.channel

theorem unstopped_of_phase (hc : w.phase ≠ .connecting) (hi : w.phase ≠ .idle)
    (hstop : .stop ∉ w.channel) : Unstopped w := by
  refine ⟨fun h => ?_, hstop⟩
  rcases h with h | h
  · exact absurd h hc
  · exact absurd h hi

section

variable (hstop : .stop ∉ w.channel)
include hstop

theorem unstopped_afterLoop (stream : Nat) (how : Worker.LoopEnd) :
    Unstopped (w.afterLoop stream how).1 := by
  cases how with
  | ended =>
    rw [Worker.afterLoop]
    exact unstopped_of_phase (by simp [Worker.exit]) (by simp [Worker.exit]) (by simp [Worker.exit])
  | reopen =>
    rw [Worker.afterLoop]
    exact unstopped_of_phase (by simp [Worker.openHead]) (by simp [Worker.openHead]) hstop
  | goIdle =>
    by_cases hcarry : w.carry = []
    · simp [Worker.afterLoop, hcarry, Unstopped, Settled, hstop]
    · simp [Worker.afterLoop, Worker.openHead, hcarry, Unstopped, Settled, hstop]

theorem unstopped_sendAudio (st : Stream) (pcm : List UInt8) (ok : Bool)
    (hnext : ∀ st, next st ≠ .connecting ∧ next st ≠ .idle) :
    Unstopped (w.sendAudio st pcm ok next).1 := by
  cases ok with
  | true => exact unstopped_of_phase (hnext _).1 (hnext _).2 hstop
  | false =>
    have hloop := unstopped_afterLoop (w := w.releaseQueued pcm) hstop st.id .ended
    simpa [Worker.sendAudio] using hloop

theorem unstopped_sendFinalize (st : Stream) (ticket : Nat) (ok : Bool)
    (hnext : ∀ st, next st ≠ .connecting ∧ next st ≠ .idle) :
    Unstopped (w.sendFinalize st ticket ok next).1 := by
  cases ok with
  | true => exact unstopped_of_phase (hnext _).1 (hnext _).2 hstop
  | false =>
    have hloop := unstopped_afterLoop hstop st.id .ended
    simpa [Worker.sendFinalize] using hloop

theorem unstopped_broken (st : Stream) : Unstopped (w.broken st).1 := by
  rw [Worker.broken]
  split_ifs <;> exact unstopped_afterLoop hstop _ _

end

theorem unstopped_handle {st : Stream} (hw : w.phase = .streaming st) (hstop : .stop ∉ w.channel)
    (a : ServerAnswer) : Unstopped (w.handle st a).1 := by
  have hsame : Unstopped w := unstopped_of_phase (by rw [hw]; simp) (by rw [hw]; simp) hstop
  cases a with
  | ready => exact unstopped_of_phase (by simp [Worker.handle]) (by simp [Worker.handle]) hstop
  | transcript | empty => exact hsame
  | finalized =>
    rw [Worker.handle, Worker.finalized]
    simp only
    split_ifs
    · exact unstopped_afterLoop (w := { w with pending := w.pending.drop 1 }) hstop _ _
    · exact unstopped_of_phase (by simp) (by simp) hstop
  | relocate | endOfStream => exact unstopped_afterLoop hstop _ _
  | error code message | status unavailable => exact unstopped_broken hstop st

theorem unstopped_step (hw : Unstopped w) (hi : i ≠ .send .stop) (h : w.step i = some (t, out)) :
    Unstopped t := by
  obtain ⟨hsettled, hstop⟩ := hw
  have htail : ∀ {cmd channel}, w.channel = cmd :: channel → StreamCommand.stop ∉ channel := by
    intro cmd channel hchannel hmem
    exact hstop (by rw [hchannel]; exact List.mem_cons_of_mem cmd hmem)
  cases i with simp only [Worker.step] at h
  | send cmd =>
    cases h
    by_cases hphase : w.phase = .exited
    · rw [Worker.send.eq_def, if_pos hphase]
      exact ⟨hsettled, hstop⟩
    · rw [Worker.send.eq_def, if_neg hphase]
      cases cmd with
      | audio pcm | finalize => exact ⟨hsettled, by simpa using hstop⟩
      | stop => exact absurd rfl hi
  | connected ok =>
    split at h
    next =>
      cases ok with
      | true =>
        cases h
        exact unstopped_of_phase (by simp [Worker.openHead]) (by simp [Worker.openHead]) hstop
      | false =>
        cases h
        exact unstopped_of_phase (by simp [Worker.exit]) (by simp [Worker.exit])
          (by simp [Worker.exit])
    next => cases h
  | transcribe result =>
    split at h
    next =>
      cases result <;> cases h
      · exact unstopped_of_phase (by simp) (by simp) hstop
      · exact unstopped_of_phase (by simp [Worker.openHead]) (by simp [Worker.openHead]) hstop
      · exact unstopped_of_phase (by simp [Worker.openHead]) (by simp [Worker.openHead]) hstop
    next => cases h
  | replay ok =>
    split at h
    next st hphase =>
      rw [Option.some.injEq] at h
      rw [show t = (w.replayItem st ok).1 by rw [h], Worker.replayItem]
      split
      next => exact unstopped_of_phase (by simp) (by simp) hstop
      next pcm carry hcarry =>
        exact unstopped_sendAudio (w := { w with carry }) hstop st pcm ok (by simp)
      next ticket carry hcarry =>
        exact unstopped_sendFinalize (w := { w with carry }) hstop st ticket ok (by simp)
    next => cases h
  | receive ok =>
    split at h
    next st hphase =>
      rw [Worker.receiveOpen] at h
      split at h
      next => cases h
      next pcm channel hchannel =>
        simp only at h
        split_ifs at h
        · cases h
          exact unstopped_of_phase (by rw [hphase]; simp) (by rw [hphase]; simp) (htail hchannel)
        · rw [Option.some.injEq] at h
          rw [← show _ = t from congrArg Prod.fst h]
          exact unstopped_sendAudio (w := { w with channel }) (htail hchannel) st pcm ok (by simp)
      next ticket channel hchannel =>
        simp only at h
        split_ifs at h
        · cases h
          exact unstopped_of_phase (by rw [hphase]; simp) (by rw [hphase]; simp) (htail hchannel)
        · rw [Option.some.injEq] at h
          rw [← show _ = t from congrArg Prod.fst h]
          exact unstopped_sendFinalize (w := { w with channel }) (htail hchannel) st ticket ok
            (by simp)
      next channel hchannel => exact absurd (by rw [hchannel]; simp) hstop
    next hphase =>
      obtain ⟨hpending, hcarry⟩ := hsettled (Or.inr hphase)
      rw [Worker.receiveIdle] at h
      split at h
      next => cases h
      next pcm channel hchannel =>
        cases h
        exact unstopped_of_phase (by simp [Worker.openHead]) (by simp [Worker.openHead])
          (htail hchannel)
      next ticket channel hchannel =>
        cases h
        exact ⟨fun _ => ⟨hpending, hcarry⟩, htail hchannel⟩
      next channel hchannel => exact absurd (by rw [hchannel]; simp) hstop
    next => cases h
  | answer a =>
    split at h
    next st hphase =>
      rw [Option.some.injEq] at h
      rw [← show _ = t from congrArg Prod.fst h]
      exact unstopped_handle hphase hstop a
    next => cases h
  | readyTimeout | idleTimeout =>
    split at h
    next st hphase =>
      split_ifs at h
      rw [Option.some.injEq] at h
      rw [← show _ = t from congrArg Prod.fst h]
      exact unstopped_afterLoop hstop _ _
    next => cases h

theorem exited_step (hw : w.phase = .exited) (h : w.step i = some (t, out)) :
    t = w ∧ out = [] ∧ AnswersAll w i := by
  cases i with
  | send cmd =>
    simp only [Worker.step, Worker.send, hw, if_true] at h
    cases h
    refine ⟨rfl, rfl, ?_, ?_⟩
    · simp [Worker.leaves, hw]
    · simp [Worker.overtakes, hw]
  | _ => simp [Worker.step, hw] at h

/-- The worker waits for the next command with no stream open, or has exited. -/
def Worker.atRest (w : Worker) : Prop := (w.phase = .idle ∧ w.channel = []) ∨ w.phase = .exited

variable {os : List Output}

theorem exited_run {is : List Input} (hw : w.phase = .exited)
    (hr : run Worker.step w is = some (t, os)) :
    t = w ∧ os = [] ∧ Along Worker.step AnswersAll w is := by
  induction is generalizing os with
  | nil =>
    rw [run_nil, Option.some.injEq, Prod.mk.injEq] at hr
    exact ⟨hr.1.symm, hr.2.symm, trivial⟩
  | cons i is ih =>
    obtain ⟨u, out, outs, hi, htail, rfl⟩ := run_cons_eq_some.mp hr
    obtain ⟨rfl, rfl, hanswers⟩ := exited_step hw hi
    obtain ⟨rfl, rfl, hrest⟩ := ih htail
    exact ⟨rfl, rfl, Along.cons hanswers hi hrest⟩

theorem overtaken_eq_iff {done pending rest lost : List Nat} {ticket : Nat}
    (hnodup : (done ++ (pending ++ ticket :: (rest ++ lost))).Nodup) :
    done ++ ticket :: (pending ++ rest) = done ++ (pending ++ ticket :: (rest ++ lost)) ↔
      lost = [] ∧ pending = [] := by
  constructor
  · intro h
    have htail := List.append_cancel_left h
    cases pending with
    | nil =>
      simp only [List.nil_append, List.cons.injEq, true_and] at htail
      exact ⟨List.self_eq_append_right.mp htail, rfl⟩
    | cons n pending =>
      rw [List.cons_append, List.cons_append, List.cons.injEq] at htail
      obtain ⟨rfl, -⟩ := htail
      have hpart := (List.nodup_append.mp hnodup).2.1
      simp at hpart
  · intro h
    obtain ⟨rfl, rfl⟩ := h
    simp

theorem returned_answers_iff (hl : Ledger os w) (h : Outcome w i t out) (hphase : t.phase = .exited)
    :
    answers (os ++ out) = List.range t.accepted ↔ AnswersAll w i := by
  rw [answers_append]
  rw [Ledger] at hl
  cases h with
  | asked _ _ _ hstay _ | served _ _ hstay _ => exact absurd hphase hstay
  | drained howed haccepted _ hleaves hover =>
    rw [haccepted, ← hl, ← howed, ← List.append_assoc, List.self_eq_append_right, AnswersAll]
    exact ⟨fun h => ⟨fun _ => h, hover⟩, fun h => h.1 hleaves⟩
  | refused ticket rest hout howed haccepted _ hleaves hover =>
    rw [haccepted, ← hl, hout, howed, overtaken_eq_iff, AnswersAll, hover]
    · simp only [Bool.not_eq_false', List.isEmpty_iff]
      exact ⟨fun h => ⟨fun _ => h.1, h.2⟩, fun h => ⟨h.1 hleaves, h.2⟩⟩
    · rw [← howed, hl]
      exact List.nodup_range

theorem unstopped_spawn (perUtterance : Bool) : Unstopped (.spawn perUtterance) := by
  refine ⟨fun _ => ⟨rfl, rfl⟩, ?_⟩
  simp [Worker.spawn]

theorem answers_iff_of_ledger {s : Worker} {is : List Input} (hs : Unstopped s)
    (hphase : s.phase ≠ .exited) (hl : Ledger pre s) (hr : run Worker.step s is = some (t, os))
    (hstop : .send .stop ∉ is) (hrest : t.atRest) :
    answers (pre ++ os) = List.range t.accepted ↔ Along Worker.step AnswersAll s is := by
  induction is generalizing s pre os with
  | nil =>
    simp only [run_nil] at hr
    cases hr
    refine ⟨fun _ => trivial, fun _ => ?_⟩
    rcases hrest with ⟨hidle, hchannel⟩ | hexited
    · obtain ⟨hpending, hcarry⟩ := hs.1 (Or.inr hidle)
      rw [Ledger, Worker.owed, hpending, hcarry, hchannel] at hl
      simpa [CarryItem.tickets, StreamCommand.tickets] using hl
    · exact absurd hexited hphase
  | cons i is ih =>
    obtain ⟨u, out, outs, hi, htail, rfl⟩ := run_cons_eq_some.mp hr
    have hne : i ≠ .send .stop := fun heq => hstop (heq ▸ List.mem_cons_self)
    have hoc := step_outcome hs.1 hs.2 hne hphase hi
    have hu := unstopped_step hs hne hi
    have hstays : u.phase ≠ .exited → Ledger (pre ++ out) u → AnswersAll s i →
        (answers (pre ++ (out ++ outs)) = List.range t.accepted ↔
          Along Worker.step AnswersAll s (i :: is)) := by
      intro huphase hul hanswers
      rw [← List.append_assoc,
        ih hu huphase hul htail fun hmem => hstop (List.mem_cons_of_mem i hmem)]
      exact ⟨fun h => Along.cons hanswers hi h, fun h => h.2 u out hi⟩
    by_cases huphase : u.phase = .exited
    · obtain ⟨rfl, rfl, halong⟩ := exited_run huphase htail
      rw [List.append_nil, returned_answers_iff hl hoc huphase]
      exact ⟨fun h => Along.cons h hi halong, fun h => h.1⟩
    · cases hoc with
      | asked hout howed haccepted _ hkept =>
        refine hstays huphase ?_ ⟨fun h => ?_, hkept.2⟩
        · rw [Ledger, hout, List.append_nil, howed, haccepted, List.range_succ,
            ← List.append_assoc, hl]
        · rw [hkept.1] at h
          cases h
      | served howed haccepted _ hkept =>
        refine hstays huphase ?_ ⟨fun h => ?_, hkept.2⟩
        · rw [Ledger, answers_append, List.append_assoc, howed, haccepted, hl]
        · rw [hkept.1] at h
          cases h
      | drained _ _ hexit _ _ | refused _ _ _ _ _ hexit _ _ => exact absurd hexit huphase

/-- When a worker that nobody stopped rests, each finalize its channel took is answered once, in
order, exactly when at every step of the run it did not return over a finalize in its channel and
no finalize found the stream gone behind an earlier one. -/
theorem every_finalize_answered_iff {perUtterance : Bool} {is : List Input} {t : Worker}
    {os : List Output} (hr : run Worker.step (.spawn perUtterance) is = some (t, os))
    (hstop : .send .stop ∉ is) (hrest : t.atRest) :
    answers os = List.range t.accepted ↔
      Along Worker.step AnswersAll (.spawn perUtterance) is :=
  answers_iff_of_ledger (unstopped_spawn perUtterance) (by simp [Worker.spawn])
    (show Ledger [] (.spawn perUtterance) from rfl) hr hstop hrest

/-- An utterance on a stream that breaks, its finalize sent. -/
def brokenStream : List Input :=
  [.connected true, .transcribe .opened, .replay true, .answer .ready, .send (.audio [1]),
    .receive true, .send .finalize, .receive true, .answer (.error "internal" "engine gone")]

theorem every_finalize_answered_brokenStream :
    (∃ t os, run Worker.step (.spawn true) brokenStream = some (t, os) ∧
      (answers os = List.range t.accepted ↔
        Along Worker.step AnswersAll (.spawn true) brokenStream)) :=
  ⟨_, _, rfl, every_finalize_answered_iff rfl (by decide) (Or.inr rfl)⟩

/-- A finalize the channel took while the worker was connecting is never answered when the
connection fails. -/
theorem finalize_lost_on_connect :
    ∃ (is : List Input) (t : Worker) (os : List Output),
      run Worker.step (.spawn true) is = some (t, os) ∧ .send .stop ∉ is ∧ t.atRest ∧
        answers os ≠ List.range t.accepted :=
  ⟨[.send .finalize, .connected false], _, _, rfl, by decide, Or.inr rfl, by decide⟩

end NodeWebrtc.ClusterSpeech
