import NodeWebrtc.Vendors.MistralMessages

/-! # The ticket of a session

A session that was told its ticket owes the answer until the task is over. Every step of the task
writes one of a few things: nothing, a partial, the answer with the final, or its one failure.
-/

namespace NodeWebrtc.Vendors.Mistral

/-! ## The bookkeeping of a run -/

/-- A command of the utterance that was claimed after finalize `adopted`. -/
def Cmd.Known (adopted : Option Nat) : Cmd → Prop
  | .claim after => adopted = some after
  | .audio _ => adopted.isSome = true
  | .endOf ticket => ∃ after, adopted = some after ∧ ticket = after + 1
  | .close => False

theorem Cmd.Known.isSome {adopted : Option Nat} {cmd : Cmd} (h : cmd.Known adopted) :
    adopted.isSome = true := by
  cases cmd with
  | claim after =>
    rw [show adopted = some after from h]
    rfl
  | audio pcm => exact h
  | endOf ticket =>
    obtain ⟨after, hadopted, -⟩ := h
    rw [hadopted]
    rfl
  | close => exact h.elim

structure Local.Fits (adopted : Option Nat) (own : Local) : Prop where
  claimed : own.claimed = true → adopted = some own.after
  ticket : ∀ ticket, own.ticket = some ticket → ∃ after, adopted = some after ∧ ticket = after + 1

theorem Local.Fits.apply {adopted : Option Nat} {own : Local} (h : own.Fits adopted) {cmd : Cmd}
    (hcmd : cmd.Known adopted) (hfirst : own.claimed = true ∨ ∃ after, cmd = .claim after) :
    (own.apply cmd).Fits adopted ∧ (own.apply cmd).claimed = true := by
  have hclaimed : (∀ after, cmd ≠ .claim after) → own.claimed = true := by
    intro hno
    rcases hfirst with hclaimed | ⟨after, hcmd⟩
    · exact hclaimed
    · exact absurd hcmd (hno after)
  cases cmd with
  | claim after => exact ⟨⟨fun _ => hcmd, h.ticket⟩, rfl⟩
  | audio pcm => exact ⟨⟨fun _ => h.claimed (hclaimed (by simp)), h.ticket⟩, rfl⟩
  | endOf ticket =>
    have hclaimed := hclaimed (by simp)
    refine ⟨⟨h.claimed, fun t ht => ?_⟩, hclaimed⟩
    cases ht
    exact hcmd
  | close => exact hcmd.elim

theorem Local.Fits.foldl {adopted : Option Nat} {own : Local} (h : own.Fits adopted)
    {cmds : List Cmd} (hknown : ∀ cmd ∈ cmds, cmd.Known adopted)
    (hfirst : own.claimed = false → cmds = [] ∨ ∃ after rest, cmds = .claim after :: rest) :
    (cmds.foldl Local.apply own).Fits adopted ∧
      ((cmds.foldl Local.apply own).claimed = false → own.claimed = false ∧ cmds = []) := by
  induction cmds generalizing own with
  | nil => exact ⟨h, fun hno => ⟨hno, rfl⟩⟩
  | cons cmd cmds ih =>
    have hcmd : own.claimed = true ∨ ∃ after, cmd = .claim after := by
      cases hclaimed : own.claimed with
      | true => exact .inl rfl
      | false =>
        rcases hfirst hclaimed with hnil | ⟨after, rest, heq⟩
        · cases hnil
        · exact .inr ⟨after, (List.cons.inj heq).1⟩
    obtain ⟨hfits, hclaimed⟩ := h.apply (hknown cmd List.mem_cons_self) hcmd
    obtain ⟨hall, hno⟩ := ih hfits (fun c hc => hknown c (List.mem_cons_of_mem cmd hc))
      fun hfalse => by rw [hclaimed] at hfalse; cases hfalse
    refine ⟨hall, fun hfalse => ?_⟩
    have hfirst := (hno hfalse).1
    rw [hclaimed] at hfirst
    cases hfirst

namespace Run

/-- The bookkeeping of a run agrees with the commands it was given. -/
structure Fits (adopted : Option Nat) (run : Run) : Prop where
  own : run.own.Fits adopted
  known : ∀ cmd ∈ run.pending ++ run.rx, cmd.Known adopted
  unclaimed : run.own.claimed = false → run.own.ticket = none ∧ run.pending = [] ∧
    (adopted = none ∨ ∃ after rest, run.rx = .claim after :: rest)
  applied : ended run.pending = true → run.own.ticket.isSome = true

/-- The ticket has reached the task or its channel. -/
def told (run : Run) : Bool := run.own.ticket.isSome || ended run.rx

theorem fits_new : new.Fits none := by
  refine ⟨⟨fun h => ?_, fun _ h => ?_⟩, fun _ h => ?_, fun _ => ⟨rfl, rfl, .inl rfl⟩, fun h => ?_⟩
  all_goals cases h

variable {adopted : Option Nat} {run run' : Run}

theorem Fits.same (h : run.Fits adopted) (run' : Run) (hrx : run'.rx = run.rx)
    (hpending : run'.pending = run.pending) (hown : run'.own = run.own) :
    run'.Fits adopted ∧ run'.told = run.told := by
  refine ⟨⟨?_, ?_, ?_, ?_⟩, by rw [told, told, hown, hrx]⟩
  · rw [hown]
    exact h.own
  · rw [hpending, hrx]
    exact h.known
  · rw [hown, hpending, hrx]
    exact h.unclaimed
  · rw [hpending, hown]
    exact h.applied

theorem Fits.rx_nil (h : run.Fits none) : run.rx = [] ∧ run.pending = [] := by
  have hnil : run.pending ++ run.rx = [] := by
    refine List.eq_nil_iff_forall_not_mem.mpr fun cmd hmem => ?_
    cases (h.known cmd hmem).isSome
  exact (List.append_eq_nil_iff.mp hnil).symm

section

variable (h : run.Fits adopted)
include h

theorem Fits.opens (hclaimed : run.own.claimed = false) :
    run.rx = [] ∨ ∃ after rest, run.rx = .claim after :: rest := by
  rcases (h.unclaimed hclaimed).2.2 with hnone | hclaim
  · rw [hnone] at h
    exact .inl h.rx_nil.1
  · exact .inr hclaim

theorem Fits.drained :
    (run.rx.foldl Local.apply run.own).Fits adopted ∧
      ((run.rx.foldl Local.apply run.own).claimed = false → adopted = none) ∧
      (run.rx.foldl Local.apply run.own).ticket.isSome = run.told := by
  obtain ⟨hfits, hno⟩ := h.own.foldl
    (fun cmd hmem => h.known cmd (List.mem_append_right run.pending hmem)) h.opens
  refine ⟨hfits, fun hfalse => ?_, ticket_foldl _ _⟩
  obtain ⟨hclaimed, hrx⟩ := hno hfalse
  rcases (h.unclaimed hclaimed).2.2 with hnone | ⟨after, rest, heq⟩
  · exact hnone
  · rw [hrx] at heq
    cases heq

theorem Fits.drainPending : run.drainPending.Fits adopted ∧ run.drainPending.told = run.told := by
  obtain ⟨hown, hnone, hticket⟩ := h.drained
  refine ⟨⟨hown, fun cmd hmem => ?_, fun hfalse => ?_, fun hended => ?_⟩, ?_⟩
  · exact h.known cmd (by simpa [Run.drainPending] using hmem)
  · have hadopted := hnone hfalse
    rw [hadopted] at h hown
    refine ⟨?_, ?_, .inl hadopted⟩
    · cases hsome : run.drainPending.own.ticket with
      | none => rfl
      | some ticket =>
        obtain ⟨after, hcontra, -⟩ := hown.ticket ticket hsome
        cases hcontra
    · change run.pending ++ run.rx = []
      rw [h.rx_nil.1, h.rx_nil.2]
      rfl
  · change ended (run.pending ++ run.rx) = true at hended
    change (run.rx.foldl Local.apply run.own).ticket.isSome = true
    rw [hticket, told]
    rw [ended_append, Bool.or_eq_true] at hended
    rcases hended with hended | hended
    · rw [h.applied hended, Bool.true_or]
    · rw [hended, Bool.or_true]
  · change ((run.rx.foldl Local.apply run.own).ticket.isSome || ended []) = _
    rw [hticket, ended_nil, Bool.or_false]

theorem Fits.closed :
    Fits adopted { run with
      rx := []
      own := run.rx.foldl Local.apply run.own } ∧
    told { run with
      rx := []
      own := run.rx.foldl Local.apply run.own } = run.told := by
  obtain ⟨hown, hnone, hticket⟩ := h.drained
  refine ⟨⟨hown, fun cmd hmem => ?_, fun hfalse => ?_, fun hended => ?_⟩, ?_⟩
  · rw [List.append_nil] at hmem
    exact h.known cmd (List.mem_append_left run.rx hmem)
  · have hadopted := hnone hfalse
    rw [hadopted] at h hown
    refine ⟨?_, h.rx_nil.2, .inl hadopted⟩
    cases hsome : (run.rx.foldl Local.apply run.own).ticket with
    | none => rfl
    | some ticket =>
      obtain ⟨after, hcontra, -⟩ := hown.ticket ticket hsome
      cases hcontra
  · change (run.rx.foldl Local.apply run.own).ticket.isSome = true
    rw [hticket, told, h.applied hended, Bool.true_or]
  · change ((run.rx.foldl Local.apply run.own).ticket.isSome || ended []) = _
    rw [hticket, ended_nil, Bool.or_false]

theorem Fits.command {cmd : Cmd} {pending rx : List Cmd}
    (hnext : (run.pending = cmd :: pending ∧ run.rx = rx) ∨
      (run.pending = [] ∧ pending = [] ∧ run.rx = cmd :: rx)) (hdone : Commanded cmd { run with
      pending := pending
      rx := rx } run') : run'.Fits adopted ∧ run'.told = run.told := by
  have hmem : cmd ∈ run.pending ++ run.rx ∧ ∀ c ∈ pending ++ rx, c ∈ run.pending ++ run.rx := by
    rcases hnext with ⟨hpending, hrx⟩ | ⟨hpending, hnil, hrx⟩
    · rw [hpending, hrx]
      exact ⟨List.mem_cons_self, fun c hc => List.mem_cons_of_mem cmd hc⟩
    · rw [hpending, hnil, hrx]
      exact ⟨List.mem_cons_self, fun c hc => List.mem_cons_of_mem cmd hc⟩
  have hfirst : run.own.claimed = true ∨ ∃ after, cmd = .claim after := by
    cases hclaimed : run.own.claimed with
    | true => exact .inl rfl
    | false =>
      rcases hnext with ⟨hpending, -⟩ | ⟨-, -, hrx⟩
      · rw [(h.unclaimed hclaimed).2.1] at hpending
        cases hpending
      · rcases h.opens hclaimed with hnil | ⟨after, rest, heq⟩
        · rw [hnil] at hrx
          cases hrx
        · rw [hrx] at heq
          exact .inr ⟨after, (List.cons.inj heq).1⟩
  obtain ⟨hown, hclaimed⟩ := h.own.apply (h.known cmd hmem.1) hfirst
  have hticket : run'.own.ticket.isSome = (run.own.ticket.isSome || cmd.isEnd) := by
    rw [hdone.own]
    exact ticket_apply run.own cmd
  refine ⟨⟨?_, ?_, ?_, ?_⟩, ?_⟩
  · rw [hdone.own]
    exact hown
  · rw [hdone.pending, hdone.rx]
    exact fun c hc => h.known c (hmem.2 c hc)
  · rw [hdone.own]
    intro hfalse
    rw [show (Local.apply _ cmd).claimed = true from hclaimed] at hfalse
    cases hfalse
  · rw [hdone.pending, hticket]
    intro hended
    rcases hnext with ⟨hpending, -⟩ | ⟨-, hnil, -⟩
    · rw [h.applied (by rw [hpending, ended_cons, hended, Bool.or_true]), Bool.true_or]
    · rw [show pending = [] from hnil] at hended
      cases hended
  · rw [told, told, hticket, hdone.rx]
    rcases hnext with ⟨hpending, hrx⟩ | ⟨-, -, hrx⟩
    · rw [hrx]
      cases hend : cmd.isEnd with
      | false => rw [Bool.or_false]
      | true => rw [h.applied (by rw [hpending, ended_cons, hend, Bool.true_or]), Bool.true_or]
    · rw [hrx, ended_cons, Bool.or_assoc]

end

end Run

/-! ## The session -/

namespace Session

/-- The task still has to answer for its utterance. -/
def live (s : Session) : Bool :=
  match s.phase with
  | .opening | .serving | .failing _ _ | .reporting _ _ => true
  | .sparing | .storing | .finished => false

def owes (s : Session) : Option Nat :=
  if s.live && s.run.told then s.adopted.map (· + 1) else none

def listens (s : Session) : Bool :=
  match s.phase with
  | .opening | .serving | .failing _ _ => true
  | _ => false

structure Fits (s : Session) : Prop where
  run : s.run.Fits s.adopted
  closed : s.listens = true → s.closed = false
  answered : s.closed = false → s.listens = true ∨ s.run.told = true
  drained : ∀ message used, s.phase = .reporting message used →
    s.run.rx = [] ∧ s.closed = true
  reported : s.reported = true → s.live = false

theorem fits_new : new.Fits :=
  ⟨Run.fits_new, fun _ => rfl, fun _ => .inl rfl, fun _ _ h => (by cases h), fun h => (by cases h)⟩

inductive Writes (s s' : Session) : List Effect → Prop where
  | silent (howes : s'.owes = s.owes) (hreported : s'.reported = s.reported) : Writes s s' []
  | partialText (after : Nat) (text : String) (hadopted : s.adopted = some after)
      (hserving : s.phase = .serving) (hafter : s'.run.own.after = after)
      (howes : s'.owes = s.owes) (hreported : s'.reported = s.reported) :
      Writes s s' [.emit after (.partialText text)]
  | done (after : Nat) (items : List Item) (hadopted : s.adopted = some after)
      (hafter : s'.run.own.after = after) (howed : s.owes = some (after + 1))
      (hpaid : s'.owes = none) (hreported : s'.reported = s.reported)
      (hitems : ∀ item ∈ items, item.isTranscript = true) :
      Writes s s' [.answer (after + 1) items]
  | answered (after : Nat) (message : String) (hadopted : s.adopted = some after)
      (hafter : s'.run.own.after = after) (howed : s.owes = some (after + 1))
      (hpaid : s'.owes = none) (hfirst : s.reported = false) (hreported : s'.reported = true) :
      Writes s s' [.answer (after + 1) [.failure message]]
  | failed (after : Nat) (message : String) (hadopted : s.adopted = some after)
      (hafter : s'.run.own.after = after) (howed : s.owes = none)
      (hpaid : s'.owes = none) (hfirst : s.reported = false) (hreported : s'.reported = true) :
      Writes s s' [.emit after (.failure message)]
  | unused (hadopted : s.adopted = none) (howed : s.owes = none) (hpaid : s'.owes = none)
      (hfirst : s.reported = false) (hreported : s'.reported = true) : Writes s s' []

/-- A step of the task: its bookkeeping still fits, and what it writes. -/
structure Moves (s s' : Session) (es : List Effect) : Prop where
  fits : s'.Fits
  adopted : s'.adopted = s.adopted
  told : s'.run.told = s.run.told
  closed : s.closed = true → s'.closed = true
  writes : Writes s s' es

variable {s : Session}

theorem live_of_listens (h : s.listens = true) : s.live = true := by
  unfold listens at h
  unfold live
  split at h <;> simp_all

theorem Fits.unreported (h : s.Fits) (hlive : s.live = true) : s.reported = false := by
  cases hr : s.reported with
  | false => rfl
  | true =>
    have hdead := h.reported hr
    rw [hlive] at hdead
    cases hdead

theorem Fits.stays (h : s.Fits) (hlistens : s.listens = true) {run : Run} {phase : Phase}
    {socket : List WsMessage}
    (hrun : run.Fits s.adopted ∧ run.told = s.run.told)
    (hphase : ({ s with
      run := run
      phase := phase
      socket := socket } : Session).listens = true) :
    Moves s { s with
      run := run
      phase := phase
      socket := socket } [] := by
  refine ⟨⟨hrun.1, fun _ => h.closed hlistens, fun _ => .inl hphase, ?_, ?_⟩, rfl, hrun.2,
    fun hclosed => hclosed, .silent ?_ rfl⟩
  · intro message used hreporting
    unfold listens at hphase
    rw [hreporting] at hphase
    cases hphase
  · intro hr
    have hfirst := h.unreported (live_of_listens hlistens)
    rw [show s.reported = true from hr] at hfirst
    cases hfirst
  · rw [owes, owes, live_of_listens hphase, live_of_listens hlistens, hrun.2]

theorem Fits.lost (h : s.Fits) (hlistens : s.listens = true) {run : Run}
    {socket : List WsMessage} (hrun : run.Fits s.adopted ∧ run.told = s.run.told)
    (message : String) :
    Moves s (({ s with
      run := run
      socket := socket } : Session).lost message) [] := by
  obtain ⟨hfits, htold⟩ := hrun.1.drainPending
  rw [Session.lost]
  split
  · exact h.stays hlistens ⟨hfits, htold.trans hrun.2⟩ rfl
  · obtain ⟨hfits', htold'⟩ := hfits.same
      { run.drainPending with replayed := true } rfl rfl rfl
    exact h.stays hlistens ⟨hfits', htold'.trans (htold.trans hrun.2)⟩ rfl

theorem Fits.command (h : s.Fits) (hserving : s.phase = .serving) (cmd : Cmd)
    (pending rx : List Cmd)
    (hnext : (s.run.pending = cmd :: pending ∧ s.run.rx = rx) ∨
      (s.run.pending = [] ∧ pending = [] ∧ s.run.rx = cmd :: rx)) (ws : Socket) :
    Moves s (s.commanded (({ s.run with
      pending := pending
      rx := rx } : Run).command ws (some cmd))) [] := by
  have hlistens : s.listens = true := by rw [listens, hserving]
  have hknown : cmd.Known s.adopted := by
    refine h.run.known cmd ?_
    rcases hnext with ⟨hpending, -⟩ | ⟨hpending, -, hrx⟩
    · rw [hpending]
      exact List.mem_append_left _ List.mem_cons_self
    · rw [hrx]
      exact List.mem_append_right _ List.mem_cons_self
  have hclose : cmd ≠ .close := fun heq => by rw [heq] at hknown; exact hknown
  obtain ⟨hdone, htrue, -⟩ := Run.command_commanded hclose { s.run with
    pending := pending
    rx := rx } ws
  have hrun := h.run.command hnext hdone
  generalize Run.command _ ws (some cmd) = result at hdone htrue hrun ⊢
  obtain ⟨run, ws', outcome⟩ := result
  cases outcome with
  | ok ended =>
    cases ended with
    | true => exact absurd rfl htrue
    | false => exact h.stays hlistens hrun hlistens
  | error message => exact h.lost hlistens hrun message

theorem Fits.disconnected (h : s.Fits) (hserving : s.phase = .serving)
    (hrx : s.run.rx = []) (ws : Socket) : Moves s (s.commanded (s.run.command ws none)) [] := by
  have hlistens : s.listens = true := by rw [listens, hserving]
  rw [Run.command]
  split
  · exact h.stays hlistens (h.run.same _ rfl rfl rfl) hlistens
  · next hticket =>
    have htold : s.run.told = false := by
      rw [Run.told, hrx]
      simpa using hticket
    refine ⟨⟨h.run, fun hno => (by cases hno), fun hno => (by cases hno),
      fun _ _ hno => (by cases hno), fun _ => rfl⟩, rfl, rfl, fun _ => rfl, .silent ?_ rfl⟩
    rw [owes, owes, htold, Bool.and_false]
    exact if_neg (by rw [show (s.commanded (s.run, ws, .ok true)).live = false from rfl]; simp)

theorem finals_transcript (run : Run) (text : Option String) :
    ∀ item ∈ finals run text, item.isTranscript = true := by
  intro item hitem
  unfold finals at hitem
  dsimp only at hitem
  split at hitem
  · cases hitem
  · rw [List.mem_singleton.mp hitem]
    rfl

theorem Fits.ticket (h : s.Fits) {ticket : Nat} (hticket : s.run.own.ticket = some ticket) :
    s.adopted = some s.run.own.after ∧ ticket = s.run.own.after + 1 := by
  have hclaimed : s.run.own.claimed = true := by
    cases hclaimed : s.run.own.claimed with
    | true => rfl
    | false =>
      rw [(h.run.unclaimed hclaimed).1] at hticket
      cases hticket
  have hadopted := h.run.own.claimed hclaimed
  obtain ⟨after, hafter, heq⟩ := h.run.own.ticket ticket hticket
  rw [hadopted, Option.some.injEq] at hafter
  exact ⟨hadopted, by rw [heq, hafter]⟩

theorem Fits.event (h : s.Fits) (hserving : s.phase = .serving) (event : ServerEvent) :
    Moves s (s.event event).1 (s.event event).2 := by
  have hlistens : s.listens = true := by rw [listens, hserving]
  obtain ⟨seen, replay, hnote, -⟩ := s.run.noteEvent_eq
  cases event with
  | updated =>
    rw [Session.event, hnote]
    exact h.stays hlistens (h.run.same _ rfl rfl rfl) hlistens
  | delta delta =>
    rw [Session.event, hnote]
    dsimp only
    split
    · next hclaimed =>
      have hstays : Moves s { s with run := { s.run with
          eventSeen := seen
          replay := replay
          text := s.run.text ++ delta } } [] :=
        h.stays hlistens (h.run.same _ rfl rfl rfl) hlistens
      split
      · exact hstays
      · refine ⟨hstays.fits, rfl, hstays.told, hstays.closed, ?_⟩
        refine .partialText _ _ (h.run.own.claimed hclaimed) hserving rfl ?_ rfl
        rfl
    · exact h.stays hlistens (h.run.same _ rfl rfl rfl) hlistens
  | done text =>
    rw [Session.event, hnote]
    split
    · exact h.stays hlistens (h.run.same _ rfl rfl rfl) hlistens
    · next ticket hticket =>
      obtain ⟨hadopted, heq⟩ := h.ticket hticket
      obtain ⟨hfits, htold⟩ := h.run.same { s.run with
        eventSeen := seen
        replay := replay } rfl rfl rfl
      have hsome : s.run.told = true := by
        rw [Run.told, hticket]
        rfl
      refine ⟨⟨hfits, fun hno => (by cases hno), fun _ => .inr (htold.trans hsome),
        fun _ _ hno => (by cases hno), fun _ => rfl⟩, rfl, htold, fun hclosed => hclosed, ?_⟩
      rw [heq]
      refine .done _ _ hadopted rfl ?_ rfl rfl (finals_transcript _ _)
      rw [owes, live_of_listens hlistens, hsome, hadopted]
      rfl
  | error message =>
    rw [Session.event, hnote]
    exact h.stays hlistens (h.run.same _ rfl rfl rfl) rfl
  | other => exact h.stays hlistens ⟨h.run, rfl⟩ hlistens

theorem Fits.report (h : s.Fits) {message : String} {used : Bool}
    (hphase : s.phase = .reporting message used) :
    Moves s (s.report message used).1 (s.report message used).2 := by
  obtain ⟨hrx, hclosed⟩ := h.drained message used hphase
  have hlive : s.live = true := by rw [live, hphase]
  have hfirst := h.unreported hlive
  have hphase' : (if used then Phase.sparing else .finished) = .sparing ∨
      (if used then Phase.sparing else .finished) = .finished := by
    cases used
    · exact .inr rfl
    · exact .inl rfl
  have hover : (s.report message used).1.live = false ∧
      (s.report message used).1.listens = false ∧
      ∀ m u, (s.report message used).1.phase ≠ .reporting m u := by
    rcases hphase' with heq | heq <;> simp [Session.report, live, listens, heq]
  obtain ⟨hdead, hdeaf, hnot⟩ := hover
  have hpaid : (s.report message used).1.owes = none := by
    rw [owes, hdead]
    rfl
  refine ⟨⟨h.run, fun hno => ?_, fun hno => ?_, fun m u hno => absurd hno (hnot m u),
    fun _ => hdead⟩, rfl, rfl, fun _ => hclosed, ?_⟩
  · rw [hdeaf] at hno
    cases hno
  · rw [show (s.report message used).1.closed = s.closed from rfl, hclosed] at hno
    cases hno
  · have htold : s.run.told = s.run.own.ticket.isSome := by
      rw [Run.told, hrx, ended_nil, Bool.or_false]
    cases hticket : s.run.own.ticket with
    | some ticket =>
      obtain ⟨hadopted, heq⟩ := h.ticket hticket
      have howed : s.owes = some (s.run.own.after + 1) := by
        rw [owes, hlive, htold, hticket, hadopted]
        rfl
      have hes : (s.report message used).2 =
          [.answer (s.run.own.after + 1) [.failure message]] := by
        rw [Session.report, hticket, heq]
      rw [hes]
      exact .answered _ _ hadopted rfl howed hpaid hfirst rfl
    | none =>
      have howed : s.owes = none := by
        rw [owes, hlive, htold, hticket]
        rfl
      cases hclaimed : s.run.own.claimed with
      | true =>
        have hes : (s.report message used).2 = [.emit s.run.own.after (.failure message)] := by
          rw [Session.report, hticket, hclaimed]
          rfl
        rw [hes]
        exact .failed _ _ (h.run.own.claimed hclaimed) rfl howed hpaid hfirst rfl
      | false =>
        have hes : (s.report message used).2 = [] := by
          rw [Session.report, hticket, hclaimed]
          rfl
        have hunused : s.adopted = none := by
          rcases (h.run.unclaimed hclaimed).2.2 with hnone | ⟨after, rest, heq⟩
          · exact hnone
          · rw [hrx] at heq
            cases heq
        rw [hes]
        exact .unused hunused howed hpaid hfirst rfl

theorem Fits.step {s' : Session} {event : TaskEvent} {es : List Effect} (h : s.Fits)
    (hs : s.step event = some (s', es)) : Moves s s' es := by
  cases event with rw [Session.step] at hs
  | opened fails =>
    split at hs
    · next hopening =>
      have hlistens : s.listens = true := by rw [listens, hopening]
      split at hs
      · have hrestore := Run.restore_same s.run ⟨[], fails⟩
        split at hs
        all_goals
          next heq =>
            rw [heq] at hrestore
            cases hs
            exact h.stays hlistens (h.run.same _ hrestore.1 hrestore.2.1 hrestore.2.2) rfl
      · cases hs
        exact h.stays hlistens ⟨h.run, rfl⟩ rfl
    · cases hs
  | openFailed message =>
    split_ifs at hs with hopening
    cases hs
    exact h.stays (by rw [listens, hopening]) ⟨h.run, rfl⟩ rfl
  | command fails =>
    split at hs
    · next hserving =>
      split at hs
      · next cmd pending hpending =>
        cases hs
        exact h.command hserving cmd pending s.run.rx (.inl ⟨hpending, rfl⟩) _
      · next cmd rx hpending hrx =>
        split at hs <;> cases hs
        have hcommand := h.command hserving cmd [] rx
          (.inr ⟨hpending, rfl, hrx⟩) ⟨s.socket, fails⟩
        rwa [← hpending] at hcommand
      · cases hs
    · cases hs
  | disconnected =>
    split_ifs at hs with hguard
    obtain ⟨hserving, -, -, hrx⟩ := hguard
    cases hs
    exact h.disconnected hserving hrx _
  | event event =>
    split_ifs at hs with hguard
    have hmoves := h.event hguard.1 event
    rwa [Option.some.inj hs] at hmoves
  | socketEnd message =>
    split_ifs at hs with hguard
    cases hs
    exact h.lost (by rw [listens, hguard.1]) ⟨h.run, rfl⟩ message
  | timer =>
    split_ifs at hs with hguard
    cases hs
    exact h.stays (by rw [listens, hguard.1]) ⟨h.run, rfl⟩ rfl
  | close =>
    split at hs <;> cases hs
    next message used hphase =>
      have hlive : s.live = true := by rw [live, hphase]
      obtain ⟨hfits, htold⟩ := h.run.closed
      refine ⟨⟨hfits, fun hno => (by cases hno), fun hno => (by cases hno),
        fun _ _ _ => ⟨rfl, rfl⟩, fun hr => ?_⟩, rfl, htold, fun _ => rfl, .silent ?_ rfl⟩
      · have hfirst := h.unreported hlive
        rw [show s.reported = true from hr] at hfirst
        cases hfirst
      · rw [owes, owes, hlive]
        exact congrArg (fun told => if true && told then s.adopted.map (· + 1) else none) htold
  | report =>
    split at hs
    · next message used hphase =>
      have hmoves := h.report hphase
      rwa [Option.some.inj hs] at hmoves
    · cases hs

/-! ## What the provider does to a session -/

theorem queue_eq (hopen : s.closed = false) (cmd : Cmd) :
    s.queue cmd = ({ s with run := { s.run with rx := s.run.rx ++ [cmd] } }, true) :=
  if_neg (by rw [hopen]; exact Bool.false_ne_true)

theorem queue_closed (hclosed : s.closed = true) (cmd : Cmd) : s.queue cmd = (s, false) :=
  if_pos hclosed

theorem Fits.unadopted (h : s.Fits) (hadopted : s.adopted = none) :
    s.run.rx = [] ∧ s.run.pending = [] ∧ s.run.own.claimed = false ∧ s.run.own.ticket = none ∧
      s.run.told = false ∧ s.owes = none := by
  have hrun := h.run
  rw [hadopted] at hrun
  obtain ⟨hrx, hpending⟩ := hrun.rx_nil
  have hclaimed : s.run.own.claimed = false := by
    cases hc : s.run.own.claimed with
    | false => rfl
    | true => cases hrun.own.claimed hc
  have hticket := (hrun.unclaimed hclaimed).1
  refine ⟨hrx, hpending, hclaimed, hticket, ?_, ?_⟩
  · rw [Run.told, hticket, hrx]
    rfl
  · rw [owes, hadopted]
    split <;> rfl

theorem Fits.claim (h : s.Fits) (hadopted : s.adopted = none) (hopen : s.closed = false)
    (after : Nat) :
    let s' : Session := { (s.queue (.claim after)).1 with adopted := some after }
    s'.Fits ∧ s'.run.told = false ∧ s'.owes = none ∧ s'.reported = false := by
  obtain ⟨hrx, hpending, hclaimed, hticket, htold, -⟩ := h.unadopted hadopted
  have hlistens : s.listens = true := by
    rcases h.answered hopen with hlistens | hsome
    · exact hlistens
    · rw [htold] at hsome
      cases hsome
  have hfirst := h.unreported (live_of_listens hlistens)
  rw [queue_eq hopen, hrx]
  have htold' : Run.told { s.run with rx := [] ++ [.claim after] } = false := by
    rw [Run.told, hticket]
    rfl
  refine ⟨⟨⟨⟨fun hc => ?_, fun t ht => ?_⟩, fun cmd hmem => ?_, fun _ => ⟨hticket, hpending,
    .inr ⟨after, [], rfl⟩⟩, fun hended => ?_⟩, fun _ => hopen, fun _ => .inl hlistens,
    fun m u hphase => ?_, fun hr => ?_⟩, htold', ?_, hfirst⟩
  · rw [show s.run.own.claimed = true from hc] at hclaimed
    cases hclaimed
  · rw [show s.run.own.ticket = some t from ht] at hticket
    cases hticket
  · rw [show s.run.pending = [] from hpending] at hmem
    rw [List.mem_singleton.mp hmem]
    rfl
  · rw [show s.run.pending = [] from hpending] at hended
    cases hended
  · rw [(h.drained m u hphase).2] at hopen
    cases hopen
  · rw [show s.reported = true from hr] at hfirst
    cases hfirst
  · rw [owes, htold', Bool.and_false]
    rfl

theorem Fits.queue (h : s.Fits) (hadopted : s.adopted.isSome = true) (hopen : s.closed = false)
    {cmd : Cmd} (hknown : cmd.Known s.adopted) :
    (s.queue cmd).1.Fits ∧ (s.queue cmd).1.run.told = (s.run.told || cmd.isEnd) := by
  rw [queue_eq hopen]
  have htold : Run.told { s.run with rx := s.run.rx ++ [cmd] } = (s.run.told || cmd.isEnd) := by
    rw [Run.told, Run.told, ended_append, ended_cons, ended_nil, Bool.or_false, Bool.or_assoc]
  refine ⟨⟨⟨h.run.own, fun c hc => ?_, fun hclaimed => ?_, h.run.applied⟩, h.closed, fun hc => ?_,
    fun m u hphase => ?_, h.reported⟩, htold⟩
  · rw [← List.append_assoc] at hc
    rcases List.mem_append.mp hc with hc | hc
    · exact h.run.known c hc
    · rw [List.mem_singleton.mp hc]
      exact hknown
  · obtain ⟨hticket, hpending, hfirst⟩ := h.run.unclaimed hclaimed
    refine ⟨hticket, hpending, ?_⟩
    rcases hfirst with hnone | ⟨after, rest, hrx⟩
    · rw [hnone] at hadopted
      cases hadopted
    · refine .inr ⟨after, rest ++ [cmd], ?_⟩
      rw [hrx]
      rfl
  · rcases h.answered hc with hlistens | hsome
    · exact .inl hlistens
    · exact .inr (by rw [htold, hsome, Bool.true_or])
  · rw [(h.drained m u hphase).2] at hopen
    cases hopen

theorem Fits.queue_audio (h : s.Fits) (hadopted : s.adopted.isSome = true) (pcm : List UInt8) :
    let s' := (s.queue (.audio pcm)).1
    s'.Fits ∧ s'.run.told = s.run.told ∧ s'.owes = s.owes ∧ s'.closed = s.closed ∧
      s'.adopted = s.adopted ∧ s'.reported = s.reported := by
  cases hclosed : s.closed with
  | true =>
    have hqueue : s.queue (.audio pcm) = (s, false) := if_pos hclosed
    rw [hqueue]
    exact ⟨h, rfl, rfl, hclosed, rfl, rfl⟩
  | false =>
    obtain ⟨hfits, htold⟩ := h.queue hadopted hclosed (show Cmd.Known s.adopted (.audio pcm) from hadopted)
    rw [show Cmd.isEnd (.audio pcm) = false from rfl, Bool.or_false] at htold
    refine ⟨hfits, htold, ?_, ?_⟩
    · rw [owes, htold, queue_eq hclosed]
      rfl
    · rw [queue_eq hclosed]
      exact ⟨hclosed, rfl, rfl⟩

theorem Fits.queue_end (h : s.Fits) {after : Nat} (hadopted : s.adopted = some after)
    (hopen : s.closed = false) (htold : s.run.told = false) :
    let s' := (s.queue (.endOf (after + 1))).1
    s'.Fits ∧ s'.run.told = true ∧ s'.owes = some (after + 1) ∧ s'.adopted = s.adopted ∧
      s'.reported = s.reported := by
  obtain ⟨hfits, htold'⟩ := h.queue (by rw [hadopted]; rfl) hopen
    (show Cmd.Known s.adopted (.endOf (after + 1)) from ⟨after, hadopted, rfl⟩)
  rw [show Cmd.isEnd (.endOf (after + 1)) = true from rfl, Bool.or_true] at htold'
  have hlistens : s.listens = true := by
    rcases h.answered hopen with hlistens | hsome
    · exact hlistens
    · rw [htold] at hsome
      cases hsome
  refine ⟨hfits, htold', ?_, ?_⟩
  · rw [owes, htold', queue_eq hopen]
    change (if s.live && true then s.adopted.map (· + 1) else none) = _
    rw [live_of_listens hlistens, hadopted]
    rfl
  · rw [queue_eq hopen]
    exact ⟨rfl, rfl⟩

theorem Fits.rests (h : s.Fits) (hphase : s.phase = .sparing ∨ s.phase = .storing) :
    (Fits { s with phase := .storing } ∧ Fits s.finish) ∧ s.owes = none ∧
      ({ s with phase := .storing } : Session).owes = none ∧ s.finish.owes = none := by
  have hdeaf : s.listens = false := by rcases hphase with hphase | hphase <;> rw [listens, hphase]
  have hdead : s.live = false := by rcases hphase with hphase | hphase <;> rw [live, hphase]
  refine ⟨⟨⟨h.run, fun hno => (by cases hno), fun hopen => ?_, fun _ _ hno => (by cases hno),
    fun _ => rfl⟩, ⟨h.run, fun hno => (by cases hno), fun hno => (by cases hno),
    fun _ _ hno => (by cases hno), fun _ => rfl⟩⟩, ?_, rfl, rfl⟩
  · rcases h.answered hopen with hno | htold
    · rw [hdeaf] at hno
      cases hno
    · exact .inr htold
  · rw [owes, hdead]
    rfl

end Session

end NodeWebrtc.Vendors.Mistral
