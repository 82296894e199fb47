import NodeWebrtc.Lib.Machine
import NodeWebrtc.Vendors.MistralMessages

/-! # An utterance sent again

The commands of one utterance reach a session at any times, and its first socket is lost before
the server said anything about the utterance. The second socket gets the whole utterance, unless
the end of it was still in the channel at the loss: then the end is sent twice.
-/

namespace NodeWebrtc.Vendors.Mistral

/-! ## The commands of an utterance -/

/-- `End` is the last command, and nothing is closed. -/
structure Protocol (sent : List Cmd) : Prop where
  notClosed : .close ∉ sent
  endLast : ended sent.dropLast = false

namespace Protocol

theorem nil_of_ended {front back : List Cmd} (h : Protocol (front ++ back))
    (hend : ended front = true) : back = [] := by
  by_contra hne
  have hlast := h.endLast
  rw [List.dropLast_append_of_ne_nil hne, ended_append, hend] at hlast
  cases hlast

theorem count_ends {sent : List Cmd} (h : Protocol sent) :
    sent.countP Cmd.isEnd = if ended sent then 1 else 0 := by
  rcases List.eq_nil_or_concat' sent with rfl | ⟨front, last, rfl⟩
  · rfl
  · have hlast := h.endLast
    rw [List.dropLast_concat] at hlast
    have hfront : front.countP Cmd.isEnd = 0 := by
      refine List.countP_eq_zero.mpr fun cmd hmem hcmd => ?_
      exact Bool.false_ne_true (hlast.symm.trans (List.any_eq_true.mpr ⟨cmd, hmem, hcmd⟩))
    rw [List.countP_append, hfront, ended_append, hlast, Bool.false_or, ended_cons, ended_nil,
      Bool.or_false, List.countP_singleton, Nat.zero_add]

theorem suffix {front back : List Cmd} (h : Protocol (front ++ back)) : Protocol back := by
  refine ⟨fun hmem => h.notClosed (List.mem_append_right front hmem), ?_⟩
  by_cases hne : back = []
  · rw [hne]
    rfl
  · have hlast := h.endLast
    rw [List.dropLast_append_of_ne_nil hne, ended_append, Bool.or_eq_false_iff] at hlast
    exact hlast.2

theorem queue {sent : List Cmd} {cmd : Cmd} (h : Protocol sent) (hended : ended sent = false)
    (hclose : cmd ≠ .close) : Protocol (sent ++ [cmd]) := by
  refine ⟨fun hmem => ?_, by rw [List.dropLast_concat, hended]⟩
  rcases List.mem_append.mp hmem with hmem | hmem
  · exact h.notClosed hmem
  · exact hclose (List.mem_singleton.mp hmem).symm

end Protocol

/-- A session and the commands the provider has queued for it. -/
structure Utterance where
  session : Session
  sent : List Cmd
deriving DecidableEq, Repr

inductive UtteranceInput where
  | queue (cmd : Cmd)
  | task (event : TaskEvent)
deriving DecidableEq, Repr

namespace Utterance

def new : Utterance := ⟨.new, []⟩

/-- `Claim` comes first, then audio, and `End` last. -/
def follows (sent : List Cmd) : Cmd → Bool
  | .claim _ => sent.isEmpty
  | .audio _ | .endOf _ => !sent.isEmpty && !ended sent
  | .close => false

/-- The provider keeps its end of the channel until it has queued `End`. -/
def step (s : Utterance) : UtteranceInput → Option (Utterance × List Effect)
  | .queue cmd =>
    if follows s.sent cmd && !s.session.closed then
      some (⟨(s.session.queue cmd).1, s.sent ++ [cmd]⟩, [])
    else none
  | .task event =>
    if event = .disconnected ∧ ended s.sent = false then none
    else (s.session.step event).map fun p => (⟨p.1, s.sent⟩, p.2)

/-- The socket is not lost, and the server does not refuse the utterance. -/
def undisturbed : UtteranceInput → Bool
  | .task (.opened fails) | .task (.command fails) => fails.isNone
  | .task (.openFailed _) | .task (.socketEnd _) | .task (.event (.error _)) => false
  | _ => true

/-- The commands left in the channel when the socket is lost at this input. -/
def behind (s : Utterance) : UtteranceInput → List Cmd
  | .task (.command _) => s.session.run.rx.tail
  | _ => s.session.run.rx

/-- The messages of the socket are the whole utterance: all audio, and `End` once and last when it
was requested. Until then audio below the append target waits in the buffer. -/
def Whole (s : Utterance) : Prop :=
  ∃ pieces : List (List UInt8),
    s.session.socket =
      pieces.map .append ++ (if ended s.sent then [.endInput] else []) ∧
    pieces.flatten ++ (if ended s.sent then [] else s.session.run.buf) = audioOf s.sent

/-! ## The second socket -/

/-- What a socket in use was sent, and a second one is about to be sent. -/
def voiced (s : Session) : List WsMessage :=
  if s.phase = .opening then
    (chunks s.run.replay).map .append ++ (if s.run.own.ticket.isSome then [.endInput] else [])
  else s.socket

def waiting (s : Utterance) : List Cmd := s.session.run.pending ++ s.session.run.rx

/-- The second socket of an utterance; `doubled` when its end was in the channel at the loss. -/
structure Second (doubled : Bool) (s : Utterance) : Prop where
  replayed : s.session.run.replayed = true
  protocol : Protocol s.sent
  taken : ∃ taken, s.sent = taken ++ s.session.run.rx ∧
    s.session.run.own.ticket.isSome = ended taken ∧ s.session.run.pending <:+ taken
  deadline : s.session.run.deadline = true → s.session.run.own.ticket.isSome = true
  audio : appended (voiced s.session) ++ s.session.run.buf ++ audioOf s.waiting = audioOf s.sent
  ends : (voiced s.session).count .endInput + s.waiting.countP Cmd.isEnd =
    s.sent.countP Cmd.isEnd + doubled.toNat
  last : doubled = false → (voiced s.session).count .endInput ≠ 0 →
    s.session.run.buf = [] ∧ s.waiting = [] ∧
      ∃ pieces : List (List UInt8), voiced s.session = pieces.map .append ++ [.endInput]
  gone : s.session.phase ≠ .opening → s.session.phase ≠ .serving →
    ended s.sent = true ∧ s.waiting = []

variable {doubled : Bool} {s : Utterance}

/-- Everything queued was taken: then the second socket was sent the whole utterance, or its end
twice. -/
theorem Second.whole_iff (h : Second doubled s) (hopen : s.session.phase ≠ .opening)
    (hnone : s.waiting = []) :
    s.Whole ↔ doubled = false := by
  have hvoiced : voiced s.session = s.session.socket := if_neg hopen
  have haudio := h.audio
  have hends := h.ends
  rw [hnone, h.protocol.count_ends, hvoiced] at hends
  rw [hnone, hvoiced] at haudio
  constructor
  · rintro ⟨pieces, hsocket, -⟩
    rw [hsocket, List.count_append, count_end_map] at hends
    cases doubled with
    | false => rfl
    | true =>
      cases hended : ended s.sent with
      | false | true => simp [hended] at hends
  · rintro rfl
    cases hended : ended s.sent with
    | false =>
      simp only [hended] at hends
      obtain ⟨pieces, hpieces⟩ := exists_map_append hends
      refine ⟨pieces, by rw [hpieces, hended]; simp, ?_⟩
      rw [hpieces] at haudio
      simpa [hended] using haudio
    | true =>
      have hne : (voiced s.session).count .endInput ≠ 0 := by
        rw [hvoiced]
        simp [hended] at hends
        omega
      obtain ⟨hbuf, -, pieces, hpieces⟩ := h.last rfl hne
      rw [hvoiced] at hpieces
      refine ⟨pieces, by rw [hpieces, hended]; simp, ?_⟩
      rw [hpieces, hbuf] at haudio
      simpa [hended] using haudio

theorem follows_open {sent : List Cmd} {cmd : Cmd} (h : follows sent cmd = true) :
    ended sent = false ∧ cmd ≠ .close := by
  cases cmd with
  | claim after =>
    rw [List.isEmpty_iff.mp h]
    exact ⟨rfl, by simp⟩
  | audio pcm | endOf ticket =>
    simp only [follows, Bool.and_eq_true, Bool.not_eq_true'] at h
    exact ⟨h.2, by simp⟩
  | close => cases h

theorem queue_open {s : Session} (h : s.closed = false) (cmd : Cmd) :
    s.queue cmd = ({ s with run := { s.run with rx := s.run.rx ++ [cmd] } }, true) :=
  if_neg (by rw [h]; exact Bool.false_ne_true)

theorem Second.queue (h : Second doubled s) {cmd : Cmd} (hfollows : follows s.sent cmd = true)
    (hclosed : s.session.closed = false) :
    Second doubled ⟨(s.session.queue cmd).1, s.sent ++ [cmd]⟩ := by
  obtain ⟨hended, hclose⟩ := follows_open hfollows
  have hqueue := queue_open hclosed cmd
  have hwaiting : (⟨(s.session.queue cmd).1, s.sent ++ [cmd]⟩ : Utterance).waiting =
      s.waiting ++ [cmd] := by
    rw [hqueue]
    exact (List.append_assoc ..).symm
  have hvoiced : voiced (s.session.queue cmd).1 = voiced s.session := by
    rw [hqueue]
    rfl
  have hends := h.ends
  obtain ⟨taken, hsent, hticket, hpending⟩ := h.taken
  refine ⟨?_, h.protocol.queue hended hclose, ⟨taken, ?_, ?_, ?_⟩, ?_, ?_, ?_, ?_, ?_⟩
  · rw [hqueue]
    exact h.replayed
  · rw [hqueue]
    rw [← List.append_assoc, ← hsent]
  · rw [hqueue]
    exact hticket
  · rw [hqueue]
    exact hpending
  · rw [hqueue]
    exact h.deadline
  · rw [hwaiting, hvoiced, hqueue, audioOf_append, audioOf_append, ← h.audio, List.append_assoc,
      List.append_assoc, List.append_assoc]
  · rw [hwaiting, hvoiced, List.countP_append, List.countP_append]
    omega
  · -- `End` was not queued, so it was not sent either.
    intro hdoubled hne
    rw [hvoiced] at hne
    rw [hdoubled, h.protocol.count_ends, hended] at hends
    simp only [Bool.false_eq_true, if_false, Bool.toNat_false] at hends
    omega
  · intro hopen hserving
    rw [hqueue] at hopen hserving
    have hgone := (h.gone hopen hserving).1
    rw [hended] at hgone
    cases hgone

variable {t : Utterance} {out : List Effect}

section

variable (h : Second doubled s)
include h

theorem Second.opened (hs : s.step (.task (.opened none)) = some (t, out)) : Second doubled t := by
  rw [Utterance.step, if_neg (by simp), Session.step] at hs
  split at hs
  · next hopening =>
    rw [if_pos h.replayed, Run.restore_open _ rfl] at hs
    obtain ⟨rfl, -⟩ := hs
    have hvoiced : voiced s.session = (chunks s.session.run.replay).map .append ++
        (if s.session.run.own.ticket.isSome then [.endInput] else []) := if_pos hopening
    refine ⟨h.replayed, h.protocol, h.taken, ?_, ?_, ?_, ?_, ?_⟩
    · intro hdeadline
      rcases Bool.or_eq_true_iff.mp hdeadline with hdeadline | hticket
      · exact h.deadline hdeadline
      · exact hticket
    · have haudio := h.audio
      rwa [hvoiced] at haudio
    · have hends := h.ends
      rwa [hvoiced] at hends
    · have hlast := h.last
      rwa [hvoiced] at hlast
    · exact fun _ hserving => absurd rfl hserving
  · cases hs

theorem Second.command (hserving : s.session.phase = .serving) (cmd : Cmd) (pending rx : List Cmd)
    (hwaiting : s.waiting = cmd :: (pending ++ rx)) (htaken : ∃ taken, s.sent = taken ++ rx ∧
      (s.session.run.own.ticket.isSome || cmd.isEnd) = ended taken ∧ pending <:+ taken) :
    Second doubled ⟨s.session.commanded (({ s.session.run with
      pending := pending
      rx := rx } : Run).command ⟨s.session.socket, none⟩ (some cmd)), s.sent⟩ := by
  have hclose : cmd ≠ .close := by
    intro heq
    obtain ⟨taken, hsent, -, hpending⟩ := h.taken
    have hmem : cmd ∈ s.waiting := by
      rw [hwaiting]
      exact List.mem_cons_self
    rcases List.mem_append.mp hmem with hmem | hmem
    · exact h.protocol.notClosed (by
        rw [hsent]
        exact List.mem_append_left _ (hpending.subset (heq ▸ hmem)))
    · exact h.protocol.notClosed (by
        rw [hsent]
        exact List.mem_append_right _ (heq ▸ hmem))
  obtain ⟨run, messages, heq, hsent, hcount, hend⟩ := Run.command_open hclose
    { s.session.run with
      pending := pending
      rx := rx } (show (⟨s.session.socket, none⟩ : Socket).fails = none from rfl)
  have hdone := (Run.command_commanded hclose { s.session.run with
    pending := pending
    rx := rx } ⟨s.session.socket, none⟩).1
  rw [heq] at hdone ⊢
  have hvoiced : voiced s.session = s.session.socket := if_neg (by rw [hserving]; decide)
  have hvoiced' : voiced (s.session.commanded
      (run, ⟨s.session.socket ++ messages, none⟩, .ok false)) = s.session.socket ++ messages :=
    if_neg (by change s.session.phase ≠ .opening; rw [hserving]; decide)
  have hwaiting' : (⟨s.session.commanded (run, ⟨s.session.socket ++ messages, none⟩, .ok false),
      s.sent⟩ : Utterance).waiting = pending ++ rx :=
    congrArg₂ (· ++ ·) hdone.pending hdone.rx
  have hticket : run.own.ticket.isSome = (s.session.run.own.ticket.isSome || cmd.isEnd) := by
    rw [hdone.own, ticket_apply]
  have haudio := h.audio
  have hends := h.ends
  rw [hwaiting, hvoiced] at haudio hends
  refine ⟨hdone.replayed.trans h.replayed, h.protocol, ?_, ?_, ?_, ?_, ?_, ?_⟩
  · obtain ⟨taken, hsplit, hended, hpending⟩ := htaken
    refine ⟨taken, ?_, hticket.trans hended, ?_⟩
    · rw [hsplit]
      exact congrArg (taken ++ ·) hdone.rx.symm
    · exact hdone.pending ▸ hpending
  · intro hdeadline
    change run.own.ticket.isSome = true
    rcases hdone.deadline hdeadline with hdeadline | hsome
    · rw [hticket, h.deadline hdeadline, Bool.true_or]
    · exact hsome
  · rw [hvoiced', hwaiting']
    change appended (s.session.socket ++ messages) ++ run.buf ++ audioOf (pending ++ rx) = _
    rw [appended_append, List.append_assoc (appended _), hsent, ← haudio,
      audioOf_cons cmd (pending ++ rx)]
    simp only [List.append_assoc]
  · rw [hvoiced', hwaiting', List.count_append]
    rw [List.countP_cons] at hends
    change _ = s.sent.countP Cmd.isEnd + doubled.toNat
    omega
  · intro hdoubled hne
    rw [hvoiced', List.count_append, hcount] at hne
    have hfirst : s.session.socket.count .endInput = 0 := by
      by_contra hsome
      have hnone := (h.last hdoubled (by rwa [hvoiced])).2.1
      rw [hwaiting] at hnone
      cases hnone
    -- `End` was this command, and nothing follows it.
    have hisEnd : cmd.isEnd = true := by
      by_contra hno
      rw [hfirst, if_neg hno] at hne
      exact hne rfl
    obtain ⟨hbuf, pieces, hpieces⟩ := hend hisEnd
    have hback : pending ++ rx = [] := by
      obtain ⟨taken, hsplit, -, front, hpending⟩ := h.taken
      have hall : s.sent = (front ++ [cmd]) ++ (pending ++ rx) := by
        rw [hsplit, ← hpending, List.append_assoc, List.append_assoc, List.singleton_append,
          ← hwaiting]
        rfl
      refine @Protocol.nil_of_ended (front ++ [cmd]) _ (hall ▸ h.protocol) ?_
      rw [ended_append, ended_cons, hisEnd, Bool.true_or, Bool.or_true]
    obtain ⟨front, hfront⟩ := exists_map_append hfirst
    refine ⟨hbuf, hwaiting'.trans hback, front ++ pieces, ?_⟩
    rw [hvoiced', hpieces, hfront, List.map_append, List.append_assoc]
  · exact fun _ hno => absurd hserving hno

theorem Second.same {session : Session} (hrx : session.run.rx = s.session.run.rx)
    (hpending : session.run.pending = s.session.run.pending)
    (hreplayed : session.run.replayed = s.session.run.replayed)
    (hown : session.run.own.ticket = s.session.run.own.ticket)
    (hdeadline : session.run.deadline = s.session.run.deadline)
    (hbuf : session.run.buf = s.session.run.buf) (hvoiced : voiced session = voiced s.session)
    (hgone : session.phase ≠ .opening → session.phase ≠ .serving →
      ended s.sent = true ∧ s.waiting = []) : Second doubled ⟨session, s.sent⟩ := by
  have hwaiting : (⟨session, s.sent⟩ : Utterance).waiting = s.waiting :=
    congrArg₂ (· ++ ·) hpending hrx
  refine ⟨hreplayed.trans h.replayed, h.protocol, ?_, ?_, ?_, ?_, ?_, ?_⟩
  · rw [hrx, hown, hpending]
    exact h.taken
  · rw [hdeadline, hown]
    exact h.deadline
  · rw [hwaiting, hvoiced, hbuf]
    exact h.audio
  · rw [hwaiting, hvoiced]
    exact h.ends
  · rw [hwaiting, hvoiced, hbuf]
    exact h.last
  · rw [hwaiting]
    exact hgone

theorem Second.ticket_gone (hticket : s.session.run.own.ticket.isSome = true)
    (hpending : s.session.run.pending = []) :
    ended s.sent = true ∧ s.waiting = [] := by
  obtain ⟨taken, hsent, hended, -⟩ := h.taken
  rw [hticket] at hended
  have hprotocol := h.protocol
  rw [hsent] at hprotocol
  refine ⟨by rw [hsent, ended_append, ← hended, Bool.true_or], ?_⟩
  rw [waiting, hpending]
  exact hprotocol.nil_of_ended hended.symm

theorem Second.event (hserving : s.session.phase = .serving) (hpending : s.session.run.pending = [])
    {event : ServerEvent} (hevent : undisturbed (.task (.event event)) = true) :
    Second doubled ⟨(s.session.event event).1, s.sent⟩ := by
  obtain ⟨seen, replay, hnote, -⟩ := s.session.run.noteEvent_eq
  have hsocket : ∀ phase run, phase ≠ Phase.opening →
      voiced { s.session with
        run := run
        phase := phase } = voiced s.session := by
    intro phase run hphase
    rw [voiced, voiced, if_neg hphase, if_neg (by rw [hserving]; decide)]
  have hstay : ∀ run, voiced { s.session with run := run } = voiced s.session :=
    fun run => hsocket s.session.phase run (by rw [hserving]; decide)
  have hphase : s.session.phase ≠ .opening → s.session.phase ≠ .serving →
      ended s.sent = true ∧ s.waiting = [] := fun _ hno => absurd hserving hno
  cases event with
  | updated =>
    rw [Session.event, hnote]
    exact h.same rfl rfl rfl rfl rfl rfl (hstay _) hphase
  | delta delta =>
    rw [Session.event, hnote]
    split <;> exact h.same rfl rfl rfl rfl rfl rfl (hstay _) hphase
  | done text =>
    rw [Session.event, hnote]
    split
    · exact h.same rfl rfl rfl rfl rfl rfl (hstay _) hphase
    · next ticket hticket =>
      refine h.same rfl rfl rfl rfl rfl rfl (hsocket .sparing _ (by decide)) fun _ _ => ?_
      exact h.ticket_gone (by rw [hticket]; rfl) hpending
  | error message => cases hevent
  | other => exact h

end

variable {i : UtteranceInput}

theorem Second.step (h : Second doubled s) (hi : undisturbed i = true)
    (hs : s.step i = some (t, out)) :
    Second doubled t := by
  cases i with
  | queue cmd =>
    rw [Utterance.step] at hs
    split_ifs at hs with hfollows
    obtain ⟨hfollows, hclosed⟩ := Bool.and_eq_true_iff.mp hfollows
    cases hs
    exact h.queue hfollows (by simpa using hclosed)
  | task event =>
    cases event with
    | opened fails =>
      cases fails with
      | none => exact h.opened hs
      | some _ => cases hi
    | openFailed | socketEnd => cases hi
    | command fails =>
      cases fails with
      | some _ => cases hi
      | none =>
        rw [Utterance.step, if_neg (by simp), Session.step] at hs
        split at hs
        · next hserving =>
          obtain ⟨taken, hsent, hticket, hsuffix⟩ := h.taken
          split at hs
          · next cmd pending heq =>
            cases hs
            have hmem : cmd ∈ taken := by
              rw [heq] at hsuffix
              exact hsuffix.subset List.mem_cons_self
            refine h.command hserving cmd pending s.session.run.rx ?_ ⟨taken, hsent, ?_, ?_⟩
            · rw [waiting, heq]
              rfl
            · cases hcmd : cmd.isEnd with
              | false => rw [Bool.or_false, hticket]
              | true =>
                rw [Bool.or_true]
                exact (List.any_eq_true.mpr ⟨cmd, hmem, hcmd⟩).symm
            · rw [heq] at hsuffix
              exact (List.suffix_cons cmd pending).trans hsuffix
          · next cmd rx heq hrx =>
            split at hs <;> cases hs
            have hcommand := h.command hserving cmd [] rx (by rw [waiting, heq, hrx]; rfl)
              ⟨taken ++ [cmd], by rw [hsent, hrx, List.append_assoc]; rfl, ?_,
                List.nil_suffix⟩
            · rwa [← heq] at hcommand
            · rw [hticket, ended_append, ended_cons, ended_nil, Bool.or_false]
          · cases hs
        · cases hs
    | disconnected =>
      rw [Utterance.step] at hs
      split_ifs at hs with hended
      rw [Session.step] at hs
      split at hs
      · next hguard =>
        obtain ⟨hserving, hpending, -, hrx⟩ := hguard
        have hgone : ended s.sent = true ∧ s.waiting = [] := by
          refine ⟨by simpa using hended, ?_⟩
          rw [waiting, hpending, hrx]
          rfl
        have hvoiced : voiced s.session = s.session.socket :=
          if_neg (by rw [hserving]; decide)
        rw [Run.command] at hs
        split at hs <;> cases hs
        · refine h.same rfl rfl rfl rfl rfl rfl ?_ fun _ _ => hgone
          exact (if_neg (by change s.session.phase ≠ .opening; rw [hserving]; decide)).trans
            hvoiced.symm
        · exact h.same rfl rfl rfl rfl rfl rfl hvoiced.symm fun _ _ => hgone
      · cases hs
    | event event =>
      rw [Utterance.step, if_neg (by simp), Session.step] at hs
      split at hs <;> cases hs
      next hguard =>
        exact h.event hguard.1 hguard.2 hi
    | timer =>
      rw [Utterance.step, if_neg (by simp), Session.step] at hs
      split at hs
      · next hguard =>
        obtain ⟨hserving, hpending, hdeadline⟩ := hguard
        cases hs
        refine h.same rfl rfl rfl rfl rfl rfl ?_ fun _ _ =>
          h.ticket_gone (h.deadline hdeadline) hpending
        rw [voiced, voiced, if_neg (by simp), if_neg (by rw [hserving]; decide)]
      · cases hs
    | close =>
      rw [Utterance.step, if_neg (by simp), Session.step] at hs
      split at hs <;> cases hs
      next message used hphase =>
        have hgone := h.gone (by rw [hphase]; simp) (by rw [hphase]; simp)
        have hrx : s.session.run.rx = [] := (List.append_eq_nil_iff.mp hgone.2).2
        refine h.same hrx.symm rfl rfl ?_ rfl rfl ?_ fun _ _ => hgone
        · change (s.session.run.rx.foldl Local.apply s.session.run.own).ticket = _
          rw [hrx]
          rfl
        · rw [voiced, voiced, if_neg (by simp [Session.closeChannel]),
            if_neg (by rw [hphase]; simp)]
          rfl
    | report =>
      rw [Utterance.step, if_neg (by simp), Session.step] at hs
      split at hs <;> cases hs
      next message used hphase =>
        have hgone := h.gone (by rw [hphase]; simp) (by rw [hphase]; simp)
        refine h.same rfl rfl rfl rfl rfl rfl ?_ fun _ _ => hgone
        rw [voiced, voiced, if_neg, if_neg (by rw [hphase]; simp)]
        · rfl
        · rw [Session.report]
          split <;> simp

/-! ## The first socket -/

/-- What holds while the first socket is in use; `buf` and `replay` are what was taken. -/
structure Taken (s : Utterance) : Prop where
  protocol : Protocol s.sent
  taken : ∃ taken, s.sent = taken ++ s.session.run.rx ∧
    s.session.run.own.ticket.isSome = ended taken
  pending : s.session.run.pending = []
  deadline : s.session.run.deadline = true → s.session.run.own.ticket.isSome = true
  kept : s.session.run.eventSeen = false →
    s.session.run.replay ++ s.session.run.buf ++ audioOf s.session.run.rx = audioOf s.sent
  endFlushed : s.session.run.own.ticket.isSome = true → s.session.run.buf = []

structure First (s : Utterance) : Prop where
  fresh : s.session.run.replayed = false
  live : s.session.phase = .opening ∨ s.session.phase = .serving →
    s.Taken ∧ s.session.run.buf.length < APPEND_TARGET_BYTES
  protocol : Protocol s.sent

theorem first_new : First new := by
  have hprotocol : Protocol [] := ⟨List.not_mem_nil, rfl⟩
  refine ⟨rfl, fun _ => ⟨⟨hprotocol, ⟨[], rfl, rfl⟩, rfl, ?_, fun _ => rfl, fun _ => rfl⟩, ?_⟩,
    hprotocol⟩
  · exact fun hdeadline => by cases hdeadline
  · decide

theorem Taken.lost (h : s.Taken) (hfresh : s.session.run.replayed = false) (message : String) :
    (First ⟨s.session.lost message, s.sent⟩ ∧
      (s.session.lost message).run.replayed = false) ∨
    (Second (ended s.session.run.rx) ⟨s.session.lost message, s.sent⟩ ∧
      (s.session.lost message).run.replayed = true) := by
  obtain ⟨taken, hsent, hticket⟩ := h.taken
  have hdrain : (s.session.run.drainPending).own.ticket.isSome = ended s.sent := by
    rw [hsent, ended_append, ← hticket]
    exact ticket_foldl _ _
  by_cases hfail : (!s.session.run.drainPending.own.claimed ||
      s.session.run.drainPending.eventSeen || s.session.run.drainPending.replayed) = true
  · have hlost : s.session.lost message = { s.session with
        run := s.session.run.drainPending
        phase := .failing message false } := if_pos hfail
    refine .inl ⟨⟨by rw [hlost]; exact hfresh, fun hlive => ?_, h.protocol⟩, by rw [hlost]; exact hfresh⟩
    rw [hlost] at hlive
    rcases hlive with hlive | hlive <;> cases hlive
  · have hlost : s.session.lost message = { s.session with
        run := { s.session.run.drainPending with replayed := true }
        phase := .opening } := if_neg hfail
    have hseen : s.session.run.eventSeen = false := by
      have hseen : ¬ s.session.run.eventSeen = true := fun hseen => hfail (by
        rw [show s.session.run.drainPending.eventSeen = s.session.run.eventSeen from rfl, hseen]
        simp)
      simpa using hseen
    have hvoiced : voiced (s.session.lost message) = (chunks s.session.run.replay).map .append ++
        (if ended s.sent then [.endInput] else []) := by
      rw [voiced, hlost]
      rw [hdrain]
      rfl
    have hwaiting : (⟨s.session.lost message, s.sent⟩ : Utterance).waiting = s.session.run.rx := by
      rw [hlost]
      change s.session.run.pending ++ s.session.run.rx ++ [] = _
      rw [h.pending, List.append_nil, List.nil_append]
    have happended : appended (if ended s.sent then [WsMessage.endInput] else []) = [] := by
      split <;> rfl
    have hprotocol := h.protocol
    rw [hsent] at hprotocol
    refine .inr ⟨⟨by rw [hlost], h.protocol, ⟨s.sent, ?_, ?_, ?_⟩, ?_, ?_, ?_, ?_, ?_⟩,
      by rw [hlost]⟩
    · rw [hlost]
      exact (List.append_nil _).symm
    · rw [hlost]
      exact hdrain
    · rw [hlost]
      change s.session.run.pending ++ s.session.run.rx <:+ s.sent
      rw [h.pending, hsent]
      exact List.suffix_append taken _
    · intro hdeadline
      rw [hlost] at hdeadline ⊢
      rw [hdrain, hsent, ended_append, ← hticket, h.deadline hdeadline, Bool.true_or]
    · rw [hvoiced, hwaiting, appended_append, appended_map, flatten_chunks, happended,
        List.append_nil, ← h.kept hseen, hlost]
      rfl
    · -- The end is sent by `restore`, and again when it was still in the channel.
      rw [hvoiced, hwaiting, List.count_append, count_end_map, h.protocol.count_ends,
        hprotocol.suffix.count_ends]
      cases ended s.sent <;> cases ended s.session.run.rx <;> rfl
    · intro hdoubled hne
      rw [hvoiced, List.count_append, count_end_map] at hne
      have hended : ended s.sent = true := by
        by_contra hno
        rw [if_neg hno] at hne
        exact hne rfl
      have htaken : ended taken = true := by
        rwa [hsent, ended_append, hdoubled, Bool.or_false] at hended
      refine ⟨?_, hwaiting.trans (hprotocol.nil_of_ended htaken), _, by rw [hvoiced, if_pos hended]⟩
      rw [hlost]
      exact h.endFlushed (hticket.trans htaken)
    · intro hopen
      exact absurd (by rw [hlost]) hopen

/-- What an input on the first socket leads to: still the first one, or the second. -/
def Passes (s : Utterance) (i : UtteranceInput) (t : Utterance) : Prop :=
  (First t ∧ t.session.run.replayed = false) ∨
    (Second (ended (s.behind i)) t ∧ t.session.run.replayed = true)

theorem First.command (h : First s) (hserving : s.session.phase = .serving) {cmd : Cmd}
    {rx : List Cmd} (hrx : s.session.run.rx = cmd :: rx) (fails : Option (Nat × String)) :
    Passes s (.task (.command fails)) ⟨s.session.commanded (({ s.session.run with
      rx := rx } : Run).command ⟨s.session.socket, fails⟩ (some cmd)), s.sent⟩ := by
  obtain ⟨htaken, hbuf⟩ := h.live (.inr hserving)
  obtain ⟨taken, hsent, hticket⟩ := htaken.taken
  have hprotocol := htaken.protocol
  rw [hsent] at hprotocol
  have hclose : cmd ≠ .close := fun heq => hprotocol.notClosed (by rw [hrx, heq]; simp)
  have hnoTicket : s.session.run.own.ticket.isSome = false := by
    cases hended : ended taken with
    | false => rw [hticket, hended]
    | true =>
      have hnil := hprotocol.nil_of_ended hended
      rw [hrx] at hnil
      cases hnil
  obtain ⟨hdone, htrue, hsmall⟩ := Run.command_commanded hclose
    { s.session.run with rx := rx } ⟨s.session.socket, fails⟩
  obtain ⟨hstays, hflushed⟩ := hsmall hbuf
  generalize Run.command _ _ _ = result at hdone htrue hstays hflushed ⊢
  obtain ⟨run, ws, outcome⟩ := result
  have hrun : Taken ⟨{ s.session with
      run := run
      socket := ws.sent }, s.sent⟩ := by
    refine ⟨htaken.protocol, ⟨taken ++ [cmd], ?_, ?_⟩, hdone.pending.trans htaken.pending, ?_, ?_, ?_⟩
    · rw [hsent, hrx, List.append_assoc]
      exact congrArg (taken ++ cmd :: ·) hdone.rx.symm
    · change run.own.ticket.isSome = _
      rw [hdone.own, ticket_apply, hticket, ended_append, ended_cons, ended_nil, Bool.or_false]
    · intro hdeadline
      rcases hdone.deadline hdeadline with hdeadline | hsome
      · rw [hdone.own, ticket_apply, htaken.deadline hdeadline, Bool.true_or]
      · exact hsome
    · intro hseen
      have hseen : s.session.run.eventSeen = false := hdone.eventSeen.symm.trans hseen
      rw [hdone.kept hseen, hdone.rx, ← htaken.kept hseen, hrx, audioOf_cons cmd rx]
      simp only [List.append_assoc]
    · intro hsome
      refine hflushed ?_
      rw [show (⟨_, s.sent⟩ : Utterance).session.run.own = _ from hdone.own, ticket_apply,
        hnoTicket] at hsome
      exact hsome
  have hfresh : run.replayed = false := hdone.replayed.trans h.fresh
  have hbehind : s.behind (.task (.command fails)) = run.rx := by
    change s.session.run.rx.tail = _
    rw [hrx]
    exact hdone.rx.symm
  rw [Passes, hbehind]
  cases outcome with
  | ok ended =>
    cases ended with
    | true => exact absurd rfl htrue
    | false => exact .inl ⟨⟨hfresh, fun _ => ⟨hrun, hstays rfl⟩, h.protocol⟩, hfresh⟩
  | error message => exact hrun.lost hfresh message

theorem First.queue (h : First s) {cmd : Cmd} (hfollows : follows s.sent cmd = true)
    (hclosed : s.session.closed = false) :
    First ⟨(s.session.queue cmd).1, s.sent ++ [cmd]⟩ := by
  obtain ⟨hended, hclose⟩ := follows_open hfollows
  rw [queue_open hclosed]
  have hprotocol := h.protocol.queue hended hclose
  refine ⟨h.fresh, fun hlive => ?_, hprotocol⟩
  obtain ⟨htaken, hbuf⟩ := h.live hlive
  obtain ⟨taken, hsent, hticket⟩ := htaken.taken
  refine ⟨⟨hprotocol, ⟨taken, ?_, hticket⟩, htaken.pending, htaken.deadline, fun hseen => ?_,
    htaken.endFlushed⟩, hbuf⟩
  · change s.sent ++ [cmd] = taken ++ (s.session.run.rx ++ [cmd])
    rw [← List.append_assoc, ← hsent]
  · change s.session.run.replay ++ s.session.run.buf ++ audioOf (s.session.run.rx ++ [cmd]) = _
    rw [audioOf_append, audioOf_append, ← htaken.kept hseen]
    simp only [List.append_assoc]

theorem First.gone (h : First s) {session : Session}
    (hreplayed : session.run.replayed = s.session.run.replayed)
    (hopening : session.phase ≠ .opening) (hserving : session.phase ≠ .serving) (i : UtteranceInput) :
    Passes s i ⟨session, s.sent⟩ := by
  have hfresh : session.run.replayed = false := hreplayed.trans h.fresh
  refine .inl ⟨⟨hfresh, fun hlive => ?_, h.protocol⟩, hfresh⟩
  rcases hlive with hlive | hlive
  · exact absurd hlive hopening
  · exact absurd hlive hserving

theorem First.same (h : First s) (hlive : s.session.phase = .opening ∨ s.session.phase = .serving)
    {session : Session} {seen rxOpen : Bool} {replay : List UInt8} {text : String}
    (hrun : session.run = { s.session.run with
      eventSeen := seen
      replay := replay
      text := text
      rxOpen := rxOpen })
    (hseen : seen = true ∨ (seen = s.session.run.eventSeen ∧ replay = s.session.run.replay))
    (i : UtteranceInput) : Passes s i ⟨session, s.sent⟩ := by
  obtain ⟨htaken, hbuf⟩ := h.live hlive
  have hfresh : session.run.replayed = false := by
    rw [hrun]
    exact h.fresh
  refine .inl ⟨⟨hfresh, fun _ => ⟨⟨h.protocol, ?_, ?_, ?_, ?_, ?_⟩, ?_⟩, h.protocol⟩, hfresh⟩
  · simp only [hrun]
    exact htaken.taken
  · simp only [hrun]
    exact htaken.pending
  · simp only [hrun]
    exact htaken.deadline
  · simp only [hrun]
    intro hno
    rcases hseen with hseen | ⟨hsame, hreplay⟩
    · rw [hseen] at hno
      cases hno
    · rw [hreplay]
      exact htaken.kept (hsame.symm.trans hno)
  · simp only [hrun]
    exact htaken.endFlushed
  · simp only [hrun]
    exact hbuf

theorem First.event (h : First s) (hserving : s.session.phase = .serving) (event : ServerEvent) :
    Passes s (.task (.event event)) ⟨(s.session.event event).1, s.sent⟩ := by
  obtain ⟨seen, replay, hnote, hseen⟩ := s.session.run.noteEvent_eq
  cases event with
  | updated =>
    rw [Session.event, hnote]
    exact h.same (.inr hserving) (by rfl) hseen _
  | delta delta =>
    rw [Session.event, hnote]
    split <;> exact h.same (.inr hserving) (by rfl) hseen _
  | done text =>
    rw [Session.event, hnote]
    split
    · exact h.same (.inr hserving) (by rfl) hseen _
    · exact h.gone (by rfl) (by simp) (by simp) _
  | error message =>
    rw [Session.event, hnote]
    exact h.gone (by rfl) (by simp) (by simp) _
  | other => exact .inl ⟨h, h.fresh⟩

theorem First.step (h : First s) (hs : s.step i = some (t, out)) : Passes s i t := by
  cases i with rw [Utterance.step] at hs
  | queue cmd =>
    split_ifs at hs with hfollows
    obtain ⟨hfollows, hclosed⟩ := Bool.and_eq_true_iff.mp hfollows
    have hclosed : s.session.closed = false := by simpa using hclosed
    cases hs
    refine .inl ⟨h.queue hfollows hclosed, ?_⟩
    rw [queue_open hclosed]
    exact h.fresh
  | task event =>
    split_ifs at hs
    rw [Option.map_eq_some_iff] at hs
    obtain ⟨⟨session, effects⟩, hstep, heq⟩ := hs
    cases heq
    cases event with rw [Session.step] at hstep
    | opened fails =>
      split at hstep
      · next hopening =>
        rw [if_neg (by rw [h.fresh]; exact Bool.false_ne_true)] at hstep
        cases hstep
        exact h.same (.inl hopening) (by rfl) (.inr ⟨rfl, rfl⟩) _
      · cases hstep
    | openFailed message | timer =>
      split at hstep <;> cases hstep
      exact h.gone (by rfl) (by simp) (by simp) _
    | command fails =>
      split at hstep
      · next hserving =>
        have hpending := (h.live (.inr hserving)).1.pending
        split at hstep
        · next heq =>
          rw [hpending] at heq
          cases heq
        · next cmd rx _ hrx =>
          split at hstep <;> cases hstep
          exact h.command hserving hrx fails
        · cases hstep
      · cases hstep
    | disconnected =>
      split_ifs at hstep with hguard
      rw [Run.command] at hstep
      split at hstep <;> cases hstep
      · exact h.same (.inr hguard.1) (by rfl) (.inr ⟨rfl, rfl⟩) _
      · exact h.gone (by rfl) (by simp [Session.commanded, Session.finish])
          (by simp [Session.commanded, Session.finish]) _
    | event event =>
      split_ifs at hstep with hguard
      have hsession : (s.session.event event).1 = session :=
        congrArg Prod.fst (Option.some.inj hstep)
      rw [← hsession]
      exact h.event hguard.1 event
    | socketEnd message =>
      split_ifs at hstep with hguard
      cases hstep
      exact (h.live (.inr hguard.1)).1.lost h.fresh message
    | close =>
      split at hstep <;> cases hstep
      exact h.gone (by rfl) (by simp [Session.closeChannel]) (by simp [Session.closeChannel]) _
    | report =>
      split at hstep <;> cases hstep
      next message used _ =>
        exact h.gone (by rfl) (by dsimp only; split <;> simp) (by dsimp only; split <;> simp) _

/-! ## The replay -/

theorem lost_replayed {s : Session} (h : s.run.replayed = true) (message : String) :
    (s.lost message).run.replayed = true := by
  rw [Session.lost]
  split
  · exact h
  · rfl

theorem commanded_replayed {s : Session} {done : Run × Socket × Except String Bool}
    (h : done.1.replayed = true) : (s.commanded done).run.replayed = true := by
  obtain ⟨run, ws, outcome⟩ := done
  cases outcome with
  | ok ended => cases ended <;> exact h
  | error message => exact lost_replayed h message

theorem event_replayed (s : Session) (event : ServerEvent) :
    (s.event event).1.run.replayed = s.run.replayed := by
  obtain ⟨seen, replay, hnote, -⟩ := s.run.noteEvent_eq
  cases event with
  | updated | error => rw [Session.event, hnote]
  | delta delta | done text =>
    rw [Session.event, hnote]
    split <;> rfl
  | other => rfl

theorem replayed_step (h : s.session.run.replayed = true) (hs : s.step i = some (t, out)) :
    t.session.run.replayed = true := by
  cases i with rw [Utterance.step] at hs
  | queue cmd =>
    split at hs <;> cases hs
    rw [Session.queue]
    split <;> exact h
  | task event =>
    split_ifs at hs
    rw [Option.map_eq_some_iff] at hs
    obtain ⟨⟨session, effects⟩, hstep, heq⟩ := hs
    cases heq
    cases event with rw [Session.step] at hstep
    | opened fails =>
      split_ifs at hstep
      have hrestore := s.session.run.restore_replayed ⟨[], fails⟩
      split at hstep
      all_goals
        next heq =>
          rw [heq] at hrestore
          cases hstep
          exact hrestore.trans h
    | command fails =>
      split at hstep
      · split at hstep
        · cases hstep
          exact commanded_replayed ((Run.command_replayed ..).trans h)
        · split at hstep <;> cases hstep
          exact commanded_replayed ((Run.command_replayed ..).trans h)
        · cases hstep
      · cases hstep
    | disconnected =>
      split_ifs at hstep
      have hsession : _ = session := congrArg Prod.fst (Option.some.inj hstep)
      rw [← hsession]
      exact commanded_replayed ((Run.command_replayed ..).trans h)
    | event event =>
      split_ifs at hstep
      have hsession : (s.session.event event).1 = session :=
        congrArg Prod.fst (Option.some.inj hstep)
      rw [← hsession, event_replayed, h]
    | socketEnd message =>
      split at hstep <;> cases hstep
      exact lost_replayed h message
    | openFailed message | timer | close | report =>
      split at hstep <;> cases hstep
      exact h

theorem second_of_run {is : List UtteranceInput} {os : List Effect} (h : Second doubled s)
    (hi : ∀ i ∈ is, undisturbed i = true) (hr : Machine.run step s is = some (t, os)) :
    Second doubled t :=
  Machine.run_invariant (C := fun _ i => undisturbed i = true)
    (fun _ _ _ _ hs hc hstep => hs.step hc hstep) h (Machine.along_of_forall_mem hi s) hr

theorem first_of_run {is : List UtteranceInput} {os : List Effect}
    (hr : Machine.run step new is = some (s, os)) (hfresh : s.session.run.replayed = false) :
    First s := by
  have hpasses : First s ∨ s.session.run.replayed = true := by
    refine Machine.run_invariant (C := fun _ _ => True)
      (I := fun s => First s ∨ s.session.run.replayed = true) ?_ (.inl first_new)
      (Machine.along_of_forall_mem (P := fun _ => True) (fun _ _ => trivial) _) hr
    intro s i t out hs _ hstep
    rcases hs with hs | hs
    · rcases hs.step hstep with ⟨hfirst, -⟩ | ⟨-, hreplayed⟩
      · exact .inl hfirst
      · exact .inr hreplayed
    · exact .inr (replayed_step hs hstep)
  rcases hpasses with hfirst | hreplayed
  · exact hfirst
  · rw [hfresh] at hreplayed
    cases hreplayed

end Utterance

end NodeWebrtc.Vendors.Mistral
