import NodeWebrtc.Vendors.MistralTickets

/-! # A session that owes a ticket gets to its answer

While a session owes a ticket there is a step it takes by itself, and every such step lowers its
rank.
-/

namespace NodeWebrtc.Vendors.Mistral

/-- A step the task takes by itself, each of its waits being bounded by a timeout. -/
def TaskEvent.isOwn : TaskEvent → Bool
  | .event _ | .socketEnd _ => false
  | _ => true

namespace Session

/-- How many steps of its own a task has at most, when no command is queued any more. -/
def rank (s : Session) : Nat :=
  let commands := s.run.pending.length + s.run.rx.length + s.run.rxOpen.toNat
  match s.phase with
  | .opening => commands + if s.run.replayed then 4 else 6
  | .serving => commands + if s.run.replayed then 3 else 5
  | .failing _ _ => 2
  | .reporting _ _ => 1
  | .sparing | .storing | .finished => 0

/-- The deadline runs once the end was sent, and the first socket knows no ticket before it is
open. -/
structure Ready (s : Session) : Prop where
  rxOpen : s.run.rxOpen = false → s.run.rx = [] ∧ s.run.told = true
  first : s.phase = .opening → s.run.replayed = false → s.run.own.ticket = none
  armed : s.phase = .serving → s.run.own.ticket.isSome = true → ended s.run.pending = false →
    s.run.deadline = true

theorem ready_new : new.Ready :=
  ⟨fun h => (by cases h), fun _ _ => rfl, fun h => (by cases h)⟩

variable {s : Session}

theorem Ready.enabled (h : s.Ready) (howes : s.owes.isSome = true) :
    ∃ event : TaskEvent, event.isOwn = true ∧ event ≠ .disconnected ∧
      (s.step event).isSome = true := by
  have hboth : s.live = true ∧ s.run.told = true := by
    rw [owes] at howes
    split at howes
    · next hboth => simpa using hboth
    · cases howes
  obtain ⟨hlive, htold⟩ := hboth
  cases hphase : s.phase with
  | opening => exact ⟨.openFailed "", rfl, by simp, by rw [step, if_pos hphase]; rfl⟩
  | failing message used => exact ⟨.close, rfl, by simp, by simp [step, hphase]⟩
  | reporting message used => exact ⟨.report, rfl, by simp, by simp [step, hphase]⟩
  | sparing | storing | finished => rw [live, hphase] at hlive; cases hlive
  | serving =>
    cases hpending : s.run.pending with
    | cons cmd pending => exact ⟨.command none, rfl, by simp, by simp [step, hphase, hpending]⟩
    | nil =>
      cases hrx : s.run.rx with
      | cons cmd rx =>
        have hopen : s.run.rxOpen = true := by
          cases ho : s.run.rxOpen with
          | true => rfl
          | false =>
            rw [(h.rxOpen ho).1] at hrx
            cases hrx
        exact ⟨.command none, rfl, by simp, by simp [step, hphase, hpending, hrx, hopen]⟩
      | nil =>
        have hticket : s.run.own.ticket.isSome = true := by
          rwa [Run.told, hrx, ended_nil, Bool.or_false] at htold
        have hdeadline := h.armed hphase hticket (by rw [hpending]; rfl)
        exact ⟨.timer, rfl, by simp, by simp [step, hphase, hpending, hdeadline]⟩

/-- A step keeps the timers, and lowers the rank if it is the task's own. -/
structure Advances (s s' : Session) (own : Bool) : Prop where
  ready : s'.Ready
  rank : s'.rank + own.toNat ≤ s.rank

theorem ready_lost {run : Run} (hfits : run.Fits s.adopted)
    (hrx : run.rxOpen = false → run.rx = [] ∧ run.told = true) (socket : List WsMessage)
    (message : String) {n : Nat} (hn : run.pending.length + run.rx.length + run.rxOpen.toNat +
      (if run.replayed then 3 else 5) ≤ n + 1) :
    let lost := ({ s with
      run := run
      socket := socket } : Session).lost message
    lost.Ready ∧ lost.rank ≤ n := by
  obtain ⟨-, htold⟩ := hfits.drainPending
  have hdrained : run.drainPending.rxOpen = false →
      run.drainPending.rx = [] ∧ run.drainPending.told = true :=
    fun hopen => ⟨rfl, htold.trans (hrx hopen).2⟩
  rw [Session.lost]
  split
  · refine ⟨⟨hdrained, fun hno => (by cases hno), fun hno => (by cases hno)⟩, ?_⟩
    change 2 ≤ n
    split at hn <;> omega
  · next hstays =>
    have hfresh : run.replayed = false := by
      have hno : ¬ run.drainPending.replayed = true := fun hr => hstays (by rw [hr]; simp)
      simpa [Run.drainPending] using hno
    refine ⟨⟨hdrained, fun _ hno => (by cases hno), fun hno => (by cases hno)⟩, ?_⟩
    change (run.pending ++ run.rx).length + 0 + run.rxOpen.toNat + 4 ≤ n
    rw [hfresh] at hn
    rw [List.length_append]
    simp only [Bool.false_eq_true, if_false] at hn
    omega

theorem Ready.command (h : s.Ready) (hfits : s.Fits) (hserving : s.phase = .serving)
    (cmd : Cmd) (pending rx : List Cmd)
    (hnext : (s.run.pending = cmd :: pending ∧ s.run.rx = rx) ∨
      (s.run.pending = [] ∧ pending = [] ∧ s.run.rx = cmd :: rx)) (ws : Socket) :
    Advances s (s.commanded (({ s.run with
      pending := pending
      rx := rx } : Run).command ws (some cmd))) true := by
  have hknown : cmd.Known s.adopted := by
    refine hfits.run.known cmd ?_
    rcases hnext with ⟨hpending, -⟩ | ⟨hpending, -, hrx⟩
    · rw [hpending]
      exact List.mem_append_left _ List.mem_cons_self
    · rw [hrx]
      exact List.mem_append_right _ List.mem_cons_self
  have hclose : cmd ≠ .close := fun heq => by rw [heq] at hknown; exact hknown
  obtain ⟨hdone, htrue, -⟩ := Run.command_commanded hclose { s.run with
    pending := pending
    rx := rx } ws
  have hend := fun ticket => @Run.command_endOf_armed { s.run with
    pending := pending
    rx := rx } ws ticket
  obtain ⟨hrun, htold⟩ := hfits.run.command hnext hdone
  have hcommands : s.run.pending.length + s.run.rx.length = pending.length + rx.length + 1 := by
    rcases hnext with ⟨hpending, hrx⟩ | ⟨hpending, hnil, hrx⟩
    · rw [hpending, hrx, List.length_cons]
      omega
    · rw [hpending, hnil, hrx, List.length_cons, List.length_nil]
      omega
  have hrank : s.rank = s.run.pending.length + s.run.rx.length + s.run.rxOpen.toNat +
      (if s.run.replayed then 3 else 5) := by
    rw [rank, hserving]
  have hclosedRx : s.run.rxOpen = false → rx = [] := by
    intro hopen
    have hnil := (h.rxOpen hopen).1
    rcases hnext with ⟨-, hrx⟩ | ⟨-, -, hrx⟩
    · rw [← hrx, hnil]
    · rw [hrx] at hnil
      cases hnil
  generalize hresult : Run.command _ ws (some cmd) = result at hdone htrue hrun htold ⊢
  obtain ⟨run, ws', outcome⟩ := result
  have hrxOpen : run.rxOpen = s.run.rxOpen := hdone.rxOpen
  have hrx' : run.rx = rx := hdone.rx
  have hpending' : run.pending = pending := hdone.pending
  have hreplayed : run.replayed = s.run.replayed := hdone.replayed
  have hready : run.rxOpen = false → run.rx = [] ∧ run.told = true := by
    intro hopen
    rw [hrxOpen] at hopen
    exact ⟨hrx'.trans (hclosedRx hopen), htold.trans (h.rxOpen hopen).2⟩
  cases outcome with
  | ok finished =>
    cases finished with
    | true => exact absurd rfl htrue
    | false =>
      refine ⟨⟨hready, fun hno => ?_, fun _ hticket hnone => ?_⟩, ?_⟩
      · rw [show s.phase = .opening from hno] at hserving
        cases hserving
      · change run.deadline = true
        change run.own.ticket.isSome = true at hticket
        change ended run.pending = false at hnone
        by_cases hisEnd : cmd.isEnd = true
        · cases cmd with
          | endOf ticket =>
            have harmed := hend ticket
            rw [hresult] at harmed
            exact harmed rfl
          | claim | audio | close => cases hisEnd
        · have hno := Bool.eq_false_iff.mpr hisEnd
          refine hdone.stillArmed (h.armed hserving ?_ ?_)
          · rw [hdone.own, ticket_apply, hno, Bool.or_false] at hticket
            exact hticket
          · rw [hpending'] at hnone
            rcases hnext with ⟨hpending, -⟩ | ⟨hpending, -, -⟩
            · rw [hpending, ended_cons, hno, hnone]
              rfl
            · rw [hpending]
              rfl
      · rw [hrank]
        change (match s.phase with
          | .opening => run.pending.length + run.rx.length + run.rxOpen.toNat +
              if run.replayed then 4 else 6
          | .serving => run.pending.length + run.rx.length + run.rxOpen.toNat +
              if run.replayed then 3 else 5
          | .failing _ _ => 2
          | .reporting _ _ => 1
          | .sparing | .storing | .finished => 0) + 1 ≤ _
        rw [hserving]
        dsimp only
        rw [hpending', hrx', hrxOpen, hreplayed]
        omega
  | error message =>
    have hlost := ready_lost (s := s) hrun hready ws'.sent message
      (n := s.rank - 1) (by rw [hrank, hpending', hrx', hrxOpen, hreplayed]; omega)
    refine ⟨hlost.1, ?_⟩
    have hle := hlost.2
    change _ + 1 ≤ _
    have hpos : 1 ≤ s.rank := by
      rw [hrank]
      omega
    exact Nat.add_le_of_le_sub hpos hle

theorem rank_serving (hserving : s.phase = .serving) :
    s.rank = s.run.pending.length + s.run.rx.length + s.run.rxOpen.toNat +
      (if s.run.replayed then 3 else 5) := by
  rw [rank, hserving]

theorem Ready.opened (h : s.Ready) (hopening : s.phase = .opening)
    {fails : Option (Nat × String)} {s' : Session} {es : List Effect}
    (hs : s.step (.opened fails) = some (s', es)) : Advances s s' true := by
  have hrank : s.rank = s.run.pending.length + s.run.rx.length + s.run.rxOpen.toNat +
      (if s.run.replayed then 4 else 6) := by
    rw [rank, hopening]
  rw [Session.step, if_pos hopening] at hs
  split at hs
  · next hreplayed =>
    rw [hreplayed] at hrank
    have hrestore : ∀ run ws outcome, s.run.restore ⟨[], fails⟩ = (run, ws, outcome) →
        ∃ deadline, run = { s.run with deadline := deadline } ∧
          (outcome = .ok () → s.run.own.ticket.isSome = true → deadline = true) := by
      intro run ws outcome heq
      rw [Run.restore] at heq
      split at heq
      · cases heq
        exact ⟨s.run.deadline, rfl, fun hno => (by cases hno)⟩
      · split at heq
        · split at heq <;> cases heq
          · exact ⟨s.run.deadline, rfl, fun hno => (by cases hno)⟩
          · exact ⟨true, rfl, fun _ _ => rfl⟩
        · next hticket =>
          cases heq
          exact ⟨s.run.deadline, rfl, fun _ hno => absurd hno hticket⟩
    split at hs
    · next run ws heq =>
      obtain ⟨deadline, rfl, harmed⟩ := hrestore _ _ _ heq
      cases hs
      refine ⟨⟨h.rxOpen, fun hno => (by cases hno), fun _ hticket _ => harmed rfl hticket⟩, ?_⟩
      rw [hrank]
      change _ + (if s.run.replayed then 3 else 5) + 1 ≤ _
      rw [hreplayed]
      exact le_rfl
    · next run ws message heq =>
      obtain ⟨deadline, rfl, -⟩ := hrestore _ _ _ heq
      cases hs
      refine ⟨⟨h.rxOpen, fun hno => (by cases hno), fun hno => (by cases hno)⟩, ?_⟩
      rw [hrank]
      change 2 + 1 ≤ _ + 4
      omega
  · next hfresh =>
    have hfresh : s.run.replayed = false := by simpa using hfresh
    cases hs
    refine ⟨⟨h.rxOpen, fun hno => (by cases hno), fun _ hticket _ => ?_⟩, ?_⟩
    · rw [h.first hopening hfresh] at hticket
      cases hticket
    · rw [hrank]
      change _ + (if s.run.replayed then 3 else 5) + 1 ≤ _
      rw [hfresh]
      exact le_rfl

theorem Ready.event (h : s.Ready) (hserving : s.phase = .serving) (event : ServerEvent) :
    Advances s (s.event event).1 false := by
  obtain ⟨seen, replay, hnote, -⟩ := s.run.noteEvent_eq
  have hstays : ∀ text, Advances s { s with run := { s.run with
      eventSeen := seen
      replay := replay
      text := text } } false :=
    fun text => ⟨⟨h.rxOpen, h.first, h.armed⟩, le_rfl⟩
  have hpos : 2 ≤ s.rank := by
    rw [rank_serving hserving]
    split <;> omega
  cases event with
  | updated =>
    rw [Session.event, hnote]
    exact hstays s.run.text
  | delta delta =>
    rw [Session.event, hnote]
    split
    · exact hstays (s.run.text ++ delta)
    · exact hstays s.run.text
  | done text =>
    rw [Session.event, hnote]
    split
    · exact hstays s.run.text
    · exact ⟨⟨h.rxOpen, fun hno => (by cases hno), fun hno => (by cases hno)⟩, Nat.zero_le _⟩
  | error message =>
    rw [Session.event, hnote]
    exact ⟨⟨h.rxOpen, fun hno => (by cases hno), fun hno => (by cases hno)⟩, hpos⟩
  | other => exact ⟨h, le_rfl⟩

theorem Ready.step {s' : Session} {event : TaskEvent} {es : List Effect} (h : s.Ready)
    (hfits : s.Fits) (hs : s.step event = some (s', es)) : Advances s s' event.isOwn := by
  cases event with
  | opened fails =>
    by_cases hopening : s.phase = .opening
    · exact h.opened hopening hs
    · rw [Session.step, if_neg hopening] at hs
      cases hs
  | openFailed message =>
    rw [Session.step] at hs
    split_ifs at hs with hopening
    cases hs
    refine ⟨⟨h.rxOpen, fun hno => (by cases hno), fun hno => (by cases hno)⟩, ?_⟩
    change 2 + 1 ≤ s.rank
    rw [rank, hopening]
    dsimp only
    split <;> omega
  | command fails =>
    rw [Session.step] at hs
    split at hs
    · next hserving =>
      split at hs
      · next cmd pending hpending =>
        cases hs
        exact h.command hfits hserving cmd pending s.run.rx (.inl ⟨hpending, rfl⟩) _
      · next cmd rx hpending hrx =>
        split at hs <;> cases hs
        have hcommand := h.command hfits hserving cmd [] rx
          (.inr ⟨hpending, rfl, hrx⟩) ⟨s.socket, fails⟩
        rwa [← hpending] at hcommand
      · cases hs
    · cases hs
  | disconnected =>
    rw [Session.step] at hs
    split_ifs at hs with hguard
    obtain ⟨hserving, hpending, hopen, hrx⟩ := hguard
    have hrank := rank_serving hserving
    rw [hopen] at hrank
    cases hs
    rw [Run.command]
    split
    · next hticket =>
      have htold : s.run.told = true := by rw [Run.told, hticket, Bool.true_or]
      refine ⟨⟨fun _ => ⟨hrx, htold⟩, fun hno => ?_, fun _ => h.armed hserving⟩, ?_⟩
      · rw [show s.phase = .opening from hno] at hserving
        cases hserving
      · have hserving' : (s.commanded ({ s.run with rxOpen := false },
            ⟨s.socket, none⟩, .ok false)).phase = .serving := hserving
        rw [rank_serving hserving', hrank]
        change s.run.pending.length + s.run.rx.length + 0 +
          (if s.run.replayed then 3 else 5) + 1 ≤ _ + 1 + _
        omega
    · refine ⟨⟨fun hno => ?_, fun hno => (by cases hno), fun hno => (by cases hno)⟩, ?_⟩
      · rw [show s.run.rxOpen = false from hno] at hopen
        cases hopen
      · rw [hrank]
        change 0 + 1 ≤ _
        simp only [Bool.toNat_true]
        omega
  | event event =>
    rw [Session.step] at hs
    split_ifs at hs with hguard
    have hevent := h.event hguard.1 event
    rwa [Option.some.inj hs] at hevent
  | socketEnd message =>
    rw [Session.step] at hs
    split_ifs at hs with hguard
    cases hs
    have hlost := ready_lost (s := s) hfits.run h.rxOpen s.socket message (n := s.rank)
      (by rw [rank_serving hguard.1]; omega)
    exact ⟨hlost.1, hlost.2⟩
  | timer =>
    rw [Session.step] at hs
    split_ifs at hs with hguard
    cases hs
    refine ⟨⟨h.rxOpen, fun hno => (by cases hno), fun hno => (by cases hno)⟩, ?_⟩
    change 2 + 1 ≤ s.rank
    rw [rank_serving hguard.1]
    split <;> omega
  | close =>
    rw [Session.step] at hs
    split at hs <;> cases hs
    next message used hphase =>
      refine ⟨⟨fun hopen => ⟨rfl, hfits.run.closed.2.trans (h.rxOpen hopen).2⟩,
        fun hno => (by cases hno), fun hno => (by cases hno)⟩, ?_⟩
      rw [show s.rank = 2 by rw [rank, hphase]]
      exact le_rfl
  | report =>
    rw [Session.step] at hs
    split at hs <;> cases hs
    next message used hphase =>
      have hphase' : (if used then Phase.sparing else .finished) = .sparing ∨
          (if used then Phase.sparing else .finished) = .finished := by
        cases used
        · exact .inr rfl
        · exact .inl rfl
      have hzero : (s.report message used).1.rank = 0 := by
        rcases hphase' with heq | heq <;> simp [Session.report, rank, heq]
      have hnot : (s.report message used).1.phase ≠ .opening ∧
          (s.report message used).1.phase ≠ .serving := by
        rcases hphase' with heq | heq <;> simp [Session.report, heq]
      refine ⟨⟨h.rxOpen, fun hno => absurd hno hnot.1, fun hno => absurd hno hnot.2⟩, ?_⟩
      rw [show s.rank = 1 by rw [rank, hphase]]
      exact le_of_eq (congrArg (· + 1) hzero)

end Session

end NodeWebrtc.Vendors.Mistral
