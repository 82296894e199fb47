import NodeWebrtc.Vendors.MistralRelease
import NodeWebrtc.Vendors.MistralTickets

/-! # Every finalize answered once, in order

A ticket without an answer is owed by exactly one session, whichever way the sessions fail and
whenever the provider finds out. So every finalize is answered once, and a claimed session that
fails is reported once.
-/

namespace NodeWebrtc.Vendors.Mistral

namespace MistralStt

/-! ## Who has which session -/

/-- The provider's sessions: the one in use is claimed and not told its ticket, the spare is not
claimed, and no other session waits for commands. -/
structure Assigned (p : MistralStt) : Prop where
  fits : ∀ g, (p.sessions g).Fits
  unspawned : ∀ g, p.state.nextGeneration < g → p.sessions g = .new
  spare : ∀ g, p.state.spare = some g →
    g ≤ p.state.nextGeneration ∧ (p.sessions g).adopted = none
  current : ∀ g, p.current = some g → g ≤ p.state.nextGeneration ∧
    (p.sessions g).adopted = some p.state.lastTicket ∧ (p.sessions g).run.told = false
  inUse : ∀ g, (p.sessions g).adopted.isSome = true → (p.sessions g).run.told = false →
    (p.sessions g).closed = false → p.current = some g
  adopted : ∀ g after, (p.sessions g).adopted = some after → after ≤ p.state.lastTicket ∧
    ((p.sessions g).run.told = true → after < p.state.lastTicket)
  claiming : ∀ pcm rounds, p.call = .claiming pcm rounds → p.current = none

/-- A session that has failed after it was claimed. -/
def failed (s : Session) : Bool := s.reported && s.adopted.isSome

def isFailureOf (g : Nat) (o : Output) : Bool := o.session == g && !o.item.isTranscript

/-- The tickets without an answer are those that sessions owe, each owed by one, and each claimed
session that failed has written one failure. -/
structure Ledger (p : MistralStt) : Prop where
  ordered : State.Ordered p.polled p.state
  waits : ∀ t, p.state.Waits t ↔ ∃ g, (p.sessions g).owes = some t
  unique : ∀ g g' t, (p.sessions g).owes = some t → (p.sessions g').owes = some t → g = g'
  failures : ∀ g, (State.contents p.polled p.state).countP (isFailureOf g) =
    (failed (p.sessions g)).toNat

variable {p : MistralStt}

theorem assigned_started : Assigned started := by
  refine ⟨fun _ => Session.fits_new, fun _ _ => rfl, fun g hg => ?_, fun g hg => ?_,
    fun g hg => ?_, fun g after hg => ?_, fun _ _ h => ?_⟩
  · cases hg
    exact ⟨le_rfl, rfl⟩
  · cases hg
  · cases hg
  · cases hg
  · cases h

theorem ledger_started : Ledger started := by
  refine ⟨⟨⟨0, rfl, rfl, rfl⟩, fun _ h => ?_, fun _ h => ?_⟩, fun t => ⟨?_, ?_⟩, fun _ _ _ h => ?_,
    fun _ => rfl⟩
  · cases h
  · cases h
  · rintro ⟨slot, hmem, -⟩
    cases hmem
  · rintro ⟨g, hg⟩
    cases hg
  · cases h

@[simp] theorem setSession_self (p : MistralStt) (g : Nat) (s : Session) :
    (p.setSession g s).sessions g = s := by
  simp [setSession]

theorem setSession_other (p : MistralStt) {g g' : Nat} (s : Session) (hne : g' ≠ g) :
    (p.setSession g s).sessions g' = p.sessions g' := by
  simp [setSession, hne]

theorem Assigned.setSession (h : Assigned p) {g : Nat} (hg : g ≤ p.state.nextGeneration)
    {s : Session} (hfits : s.Fits) (hadopted : s.adopted = (p.sessions g).adopted)
    (htold : s.run.told = (p.sessions g).run.told)
    (hclosed : (p.sessions g).closed = true → s.closed = true) :
    Assigned (p.setSession g s) := by
  have hother : ∀ g', g' ≠ g → (p.setSession g s).sessions g' = p.sessions g' :=
    fun g' hne => setSession_other p s hne
  have hself := setSession_self p g s
  have hsame : ∀ g', ((p.setSession g s).sessions g').adopted = (p.sessions g').adopted ∧
      ((p.setSession g s).sessions g').run.told = (p.sessions g').run.told ∧
      (((p.setSession g s).sessions g').closed = false → (p.sessions g').closed = false) := by
    intro g'
    by_cases hne : g' = g
    · rw [hne, hself]
      refine ⟨hadopted, htold, fun hopen => ?_⟩
      cases hc : (p.sessions g).closed with
      | false => rfl
      | true =>
        rw [hclosed hc] at hopen
        cases hopen
    · rw [hother g' hne]
      exact ⟨rfl, rfl, id⟩
  refine ⟨fun g' => ?_, fun g' hg' => ?_, fun g' hg' => ?_, fun g' hg' => ?_, fun g' ha ht hc => ?_,
    fun g' after ha => ?_, h.claiming⟩
  · by_cases hne : g' = g
    · rw [hne, hself]
      exact hfits
    · rw [hother g' hne]
      exact h.fits g'
  · rw [hother g' (by rintro rfl; exact absurd hg (Nat.not_le.mpr hg'))]
    exact h.unspawned g' hg'
  · rw [(hsame g').1]
    exact h.spare g' hg'
  · rw [(hsame g').1, (hsame g').2.1]
    exact h.current g' hg'
  · rw [(hsame g').1] at ha
    rw [(hsame g').2.1] at ht
    exact h.inUse g' ha ht ((hsame g').2.2 hc)
  · rw [(hsame g').1] at ha
    rw [(hsame g').2.1]
    exact h.adopted g' after ha

theorem Assigned.setState (h : Assigned p) {state : State}
    (hlast : state.lastTicket = p.state.lastTicket) (hspare : state.spare = p.state.spare)
    (hnext : state.nextGeneration = p.state.nextGeneration) (polled : List Entry) :
    Assigned { p with
      state := state
      polled := polled } := by
  refine ⟨h.fits, ?_, ?_, ?_, h.inUse, ?_, h.claiming⟩
  · rw [hnext]
    exact h.unspawned
  · rw [hspare, hnext]
    exact h.spare
  · rw [hlast, hnext]
    exact h.current
  · rw [hlast]
    exact h.adopted

theorem Assigned.setCall (h : Assigned p) {call : Call}
    (hcall : ∀ pcm rounds, call = .claiming pcm rounds → p.current = none) :
    Assigned { p with call := call } :=
  ⟨h.fits, h.unspawned, h.spare, h.current, h.inUse, h.adopted, hcall⟩

theorem spawnSession_sessions (h : Assigned p) : p.spawnSession.sessions = p.sessions := by
  change Function.update p.sessions (p.state.nextGeneration + 1) .new = p.sessions
  rw [← h.unspawned (p.state.nextGeneration + 1) (Nat.lt_succ_self _), Function.update_eq_self]

theorem Assigned.spawnSession (h : Assigned p) : Assigned p.spawnSession := by
  have hsame := spawnSession_sessions h
  refine ⟨?_, ?_, ?_, ?_, ?_, ?_, h.claiming⟩ <;> rw [hsame]
  · exact h.fits
  · exact fun g hg => h.unspawned g (Nat.lt_of_succ_lt hg)
  · exact fun g hg => ⟨Nat.le_succ_of_le (h.spare g hg).1, (h.spare g hg).2⟩
  · exact fun g hg => ⟨Nat.le_succ_of_le (h.current g hg).1, (h.current g hg).2⟩
  · exact h.inUse
  · exact h.adopted

theorem Assigned.spawnSpare (h : Assigned p) : Assigned p.spawnSpare := by
  have hspawned := h.spawnSession
  refine ⟨hspawned.fits, hspawned.unspawned, fun g hg => ?_, hspawned.current, hspawned.inUse,
    hspawned.adopted, h.claiming⟩
  cases hg
  refine ⟨le_rfl, ?_⟩
  change (p.spawnSession.sessions (p.state.nextGeneration + 1)).adopted = none
  rw [spawnSession_sessions h, h.unspawned _ (Nat.lt_succ_self _)]
  rfl

/-! ## One change of the ledger at a time -/

theorem Ledger.congr (h : Ledger p) {q : MistralStt} (hpolled : q.polled = p.polled)
    (hqueue : q.state.queue = p.state.queue) (hheld : q.state.held = p.state.held)
    (htickets : q.state.tickets = p.state.tickets)
    (hlast : q.state.lastTicket = p.state.lastTicket)
    (howes : ∀ g, (q.sessions g).owes = (p.sessions g).owes)
    (hfailed : ∀ g, failed (q.sessions g) = failed (p.sessions g)) : Ledger q := by
  refine ⟨⟨?_, ?_, ?_⟩, fun t => ?_, fun g g' t => ?_, fun g => ?_⟩
  · rw [hpolled, hqueue, htickets, hlast]
    exact h.ordered.numbered
  · rw [htickets]
    exact h.ordered.front
  · rw [hheld, htickets]
    exact h.ordered.held
  · simp only [howes]
    rw [← h.waits t, State.Waits, State.Waits, htickets]
  · rw [howes, howes]
    exact h.unique g g' t
  · rw [hfailed, ← h.failures g, State.contents, State.contents, hpolled, hqueue, hheld, htickets]

theorem Ledger.emits (h : Ledger p) {g : Nat} {s : Session} (after : Nat) (o : Output)
    (howes : s.owes = (p.sessions g).owes)
    (hfailed : ∀ g', (failed ((p.setSession g s).sessions g')).toNat =
      (failed (p.sessions g')).toNat + [o].countP (isFailureOf g')) :
    Ledger { p.setSession g s with state := p.state.emit after o } := by
  have hsame : ∀ g', ((p.setSession g s).sessions g').owes = (p.sessions g').owes := by
    intro g'
    by_cases hne : g' = g
    · rw [hne, setSession_self, howes]
    · rw [setSession_other p s hne]
  refine ⟨h.ordered.emit after o, fun t => ?_, fun g₁ g₂ t => ?_, fun g' => ?_⟩
  · simp only [hsame]
    rw [← h.waits t]
    exact State.waits_emit after o t
  · rw [hsame, hsame]
    exact h.unique g₁ g₂ t
  · rw [hfailed, ← h.failures g']
    exact State.countP_contents_emit _ after o

theorem Ledger.answers (h : Ledger p) {g ticket : Nat} {s : Session} (items : List Output)
    (howed : (p.sessions g).owes = some ticket) (hpaid : s.owes = none)
    (hfailed : ∀ g', (failed ((p.setSession g s).sessions g')).toNat =
      (failed (p.sessions g')).toNat + items.countP (isFailureOf g')) :
    Ledger { p.setSession g s with state := p.state.answer ticket items } := by
  have hwaits : p.state.Waits ticket := (h.waits ticket).mpr ⟨g, howed⟩
  have hids := h.ordered.nodup
  have howes : ∀ g' t, ((p.setSession g s).sessions g').owes = some t ↔
      (p.sessions g').owes = some t ∧ t ≠ ticket := by
    intro g' t
    by_cases hne : g' = g
    · rw [hne, setSession_self, hpaid, howed]
      refine ⟨fun hno => (by cases hno), fun ⟨heq, hne⟩ => ?_⟩
      exact absurd (Option.some.inj heq).symm hne
    · rw [setSession_other p s hne]
      refine ⟨fun hg' => ⟨hg', fun heq => hne ?_⟩, fun hg' => hg'.1⟩
      exact h.unique g' g ticket (heq ▸ hg') howed
  refine ⟨h.ordered.answer ticket items, fun t => ?_, fun g₁ g₂ t h₁ h₂ => ?_, fun g' => ?_⟩
  · change (p.state.answer ticket items).Waits t ↔ _
    rw [State.waits_answer hids, h.waits t]
    simp only [howes]
    exact ⟨fun ⟨⟨g', hg'⟩, hne⟩ => ⟨g', hg', hne⟩, fun ⟨g', hg', hne⟩ => ⟨⟨g', hg'⟩, hne⟩⟩
  · exact h.unique g₁ g₂ t ((howes g₁ t).mp h₁).1 ((howes g₂ t).mp h₂).1
  · rw [hfailed, ← h.failures g']
    obtain ⟨slot, hmem, hid, hanswer⟩ := hwaits
    refine State.countP_contents_answer _ items (hid ▸ List.mem_map_of_mem hmem) ?_
    intro other hother heq
    rw [List.inj_on_of_nodup_map hids hother hmem (heq.trans hid.symm)]
    exact hanswer

/-! ## The steps -/

structure Kept (p : MistralStt) : Prop where
  assigned : Assigned p
  ledger : Ledger p

theorem kept_started : Kept started := ⟨assigned_started, ledger_started⟩

theorem Kept.task (h : Kept p) {g : Nat} (hg : g ≤ p.state.nextGeneration) {s : Session}
    {es : List Effect} (hmoves : Session.Moves (p.sessions g) s es) :
    Kept { p.setSession g s with state := es.foldl (applyEffect g s) p.state } := by
  have hassigned := h.assigned.setSession hg hmoves.fits hmoves.adopted hmoves.told hmoves.closed
  have hfailed : ∀ (items : List Output), (∀ o ∈ items, o.session = g) →
      (failed s).toNat = (failed (p.sessions g)).toNat + items.countP (isFailureOf g) →
      ∀ g', (failed ((p.setSession g s).sessions g')).toNat =
        (failed (p.sessions g')).toNat + items.countP (isFailureOf g') := by
    intro items hsession hself g'
    by_cases hne : g' = g
    · rw [hne, setSession_self, hself]
    · rw [setSession_other p s hne, List.countP_eq_zero.mpr fun o ho => ?_, Nat.add_zero]
      simp [isFailureOf, hsession o ho, Ne.symm hne]
  have hsame : s.reported = (p.sessions g).reported → failed s = failed (p.sessions g) := by
    intro hreported
    rw [failed, failed, hreported, hmoves.adopted]
  have hnew : ∀ after, (p.sessions g).adopted = some after → (p.sessions g).reported = false →
      s.reported = true → failed s = true ∧ failed (p.sessions g) = false := by
    intro after hadopted hfirst hreported
    rw [failed, failed, hmoves.adopted, hadopted, hfirst, hreported]
    exact ⟨rfl, rfl⟩
  cases hmoves.writes with
  | silent howes hreported =>
    refine ⟨hassigned, h.ledger.congr rfl rfl rfl rfl rfl (fun g' => ?_) fun g' => ?_⟩
    · by_cases hne : g' = g
      · rw [hne]
        exact (congrArg Session.owes (setSession_self p g s)).trans howes
      · exact congrArg Session.owes (setSession_other p s hne)
    · by_cases hne : g' = g
      · rw [hne]
        exact (congrArg failed (setSession_self p g s)).trans (hsame hreported)
      · exact congrArg failed (setSession_other p s hne)
  | partialText after text hadopted hserving hafter howes hreported =>
    obtain ⟨hlast, hspare, hnext⟩ := State.emit_frame (s := p.state) after
      ⟨s.run.own.after + 1, g, .partialText text⟩
    refine ⟨hassigned.setState hlast hspare hnext p.polled, h.ledger.emits after _ howes ?_⟩
    refine hfailed _ (fun o ho => by rw [List.mem_singleton.mp ho]) ?_
    rw [hsame hreported]
    simp [isFailureOf, Item.isTranscript]
  | done after items hadopted hafter howed hpaid hreported hitems =>
    obtain ⟨hlast, hspare, hnext⟩ := State.answer_frame (s := p.state) (after + 1)
      (items.map fun item => ⟨s.run.own.after + 1, g, item⟩)
    refine ⟨hassigned.setState hlast hspare hnext p.polled, h.ledger.answers _ howed hpaid ?_⟩
    refine hfailed _ (fun o ho => ?_) ?_
    · obtain ⟨item, -, rfl⟩ := List.mem_map.mp ho
      rfl
    · rw [hsame hreported, List.countP_eq_zero.mpr fun o ho => ?_, Nat.add_zero]
      obtain ⟨item, hitem, rfl⟩ := List.mem_map.mp ho
      simp [isFailureOf, hitems item hitem]
  | answered after message hadopted hafter howed hpaid hfirst hreported =>
    obtain ⟨hlast, hspare, hnext⟩ := State.answer_frame (s := p.state) (after + 1)
      ([.failure message].map fun item => ⟨s.run.own.after + 1, g, item⟩)
    refine ⟨hassigned.setState hlast hspare hnext p.polled, h.ledger.answers _ howed hpaid ?_⟩
    refine hfailed _ (fun o ho => by rw [List.mem_singleton.mp ho]) ?_
    rw [(hnew after hadopted hfirst hreported).1, (hnew after hadopted hfirst hreported).2]
    simp [isFailureOf, Item.isTranscript]
  | failed after message hadopted hafter howed hpaid hfirst hreported =>
    obtain ⟨hlast, hspare, hnext⟩ := State.emit_frame (s := p.state) after
      ⟨s.run.own.after + 1, g, .failure message⟩
    refine ⟨hassigned.setState hlast hspare hnext p.polled,
      h.ledger.emits after _ (hpaid.trans howed.symm) ?_⟩
    refine hfailed _ (fun o ho => by rw [List.mem_singleton.mp ho]) ?_
    rw [(hnew after hadopted hfirst hreported).1, (hnew after hadopted hfirst hreported).2]
    simp [isFailureOf, Item.isTranscript]
  | unused hadopted howed hpaid hfirst hreported =>
    refine ⟨hassigned, h.ledger.congr rfl rfl rfl rfl rfl (fun g' => ?_) fun g' => ?_⟩
    · by_cases hne : g' = g
      · rw [hne]
        exact (congrArg Session.owes (setSession_self p g s)).trans (hpaid.trans howed.symm)
      · exact congrArg Session.owes (setSession_other p s hne)
    · by_cases hne : g' = g
      · rw [hne]
        refine (congrArg MistralStt.failed (setSession_self p g s)).trans ?_
        rw [MistralStt.failed, MistralStt.failed, hmoves.adopted, hadopted]
        simp
      · exact congrArg MistralStt.failed (setSession_other p s hne)

theorem Kept.claim (h : Kept p) (hcurrent : p.current = none) {g : Nat}
    (hg : g ≤ p.state.nextGeneration) (hspare : p.state.spare ≠ some g)
    (hadopted : (p.sessions g).adopted = none) (hopen : (p.sessions g).closed = false)
    (pcm : List UInt8) :
    Kept { p.setSession g { ((p.sessions g).queue (.claim p.state.lastTicket)).1 with
        adopted := some p.state.lastTicket } with
      current := some g
      call := .sending pcm } := by
  obtain ⟨hfits, htold, howes, hreported⟩ :=
    (h.assigned.fits g).claim hadopted hopen p.state.lastTicket
  have hbefore := ((h.assigned.fits g).unadopted hadopted).2.2.2.2.2
  have hclaimed : ({ ((p.sessions g).queue (.claim p.state.lastTicket)).1 with
      adopted := some p.state.lastTicket } : Session).adopted = some p.state.lastTicket := rfl
  generalize ({ ((p.sessions g).queue (.claim p.state.lastTicket)).1 with
    adopted := some p.state.lastTicket } : Session) = s at hfits htold howes hreported hclaimed ⊢
  have hself := setSession_self p g s
  refine ⟨⟨fun g' => ?_, fun g' hg' => ?_, fun g' hg' => ?_, fun g' hg' => ?_,
    fun g' ha ht hc => ?_, fun g' after ha => ?_, fun _ _ hno => (by cases hno)⟩,
    h.ledger.congr rfl rfl rfl rfl rfl (fun g' => ?_) fun g' => ?_⟩
  · change ((p.setSession g s).sessions g').Fits
    by_cases hne : g' = g
    · rw [hne, hself]
      exact hfits
    · rw [setSession_other p s hne]
      exact h.assigned.fits g'
  · refine (setSession_other p s ?_).trans (h.assigned.unspawned g' hg')
    rintro rfl
    exact absurd hg (Nat.not_le.mpr hg')
  · have hne : g' ≠ g := fun heq => hspare (heq ▸ hg')
    rw [setSession_other p s hne]
    exact h.assigned.spare g' hg'
  · cases hg'
    rw [hself]
    exact ⟨hg, hclaimed, htold⟩
  · by_cases hne : g' = g
    · rw [hne]
    · have hold := h.assigned.inUse g'
      rw [← setSession_other p s hne] at hold
      have hcontra := hold ha ht hc
      rw [hcurrent] at hcontra
      cases hcontra
  · change ((p.setSession g s).sessions g').adopted = some after at ha
    by_cases hne : g' = g
    · rw [hne, hself] at ha ⊢
      rw [hclaimed, Option.some.injEq] at ha
      exact ⟨ha ▸ le_rfl, fun hno => by rw [htold] at hno; cases hno⟩
    · rw [setSession_other p s hne] at ha ⊢
      exact h.assigned.adopted g' after ha
  · by_cases hne : g' = g
    · rw [hne]
      exact (congrArg Session.owes hself).trans (howes.trans hbefore.symm)
    · exact congrArg Session.owes (setSession_other p s hne)
  · by_cases hne : g' = g
    · rw [hne]
      refine (congrArg failed hself).trans ?_
      rw [failed, failed, hreported, hadopted]
      exact (Bool.and_false _).symm
    · exact congrArg failed (setSession_other p s hne)

theorem Kept.setCall (h : Kept p) {call : Call}
    (hcall : ∀ pcm rounds, call = .claiming pcm rounds → p.current = none) :
    Kept { p with call := call } :=
  ⟨h.assigned.setCall hcall,
    h.ledger.congr rfl rfl rfl rfl rfl (fun _ => rfl) fun _ => rfl⟩

theorem Kept.dropSpare (h : Kept p) :
    Kept { p with state := { p.state with spare := none } } := by
  refine ⟨⟨h.assigned.fits, h.assigned.unspawned, fun _ hno => (by cases hno), h.assigned.current,
    h.assigned.inUse, h.assigned.adopted, h.assigned.claiming⟩, ?_⟩
  exact h.ledger.congr rfl rfl rfl rfl rfl (fun _ => rfl) fun _ => rfl

theorem Kept.spawnSession (h : Kept p) : Kept p.spawnSession := by
  have hsame := spawnSession_sessions h.assigned
  exact ⟨h.assigned.spawnSession, h.ledger.congr rfl rfl rfl rfl rfl
    (fun g => congrArg Session.owes (congrFun hsame g))
    fun g => congrArg failed (congrFun hsame g)⟩

theorem Kept.spawnSpare (h : Kept p) : Kept p.spawnSpare := by
  have hsame : p.spawnSpare.sessions = p.sessions := spawnSession_sessions h.assigned
  exact ⟨h.assigned.spawnSpare, h.ledger.congr rfl rfl rfl rfl rfl
    (fun g => congrArg Session.owes (congrFun hsame g))
    fun g => congrArg failed (congrFun hsame g)⟩

/-- A round of `claim_session` takes the spare or spawns a session, and claims it unless its task
has returned. -/
theorem claimRound_cases (p : MistralStt) (pcm : List UInt8) (rounds : Nat) :
    ∃ q g, ((p.state.spare = some g ∧ q = { p with state := { p.state with spare := none } }) ∨
        (p.state.spare = none ∧ q = p.spawnSession ∧ g = p.state.nextGeneration + 1)) ∧
      (((q.sessions g).closed = true ∧ p.claimRound pcm rounds =
          { q with call := if rounds = 0 then .claiming pcm 1 else .idle }) ∨
        ((q.sessions g).closed = false ∧ p.claimRound pcm rounds =
          { q.setSession g { ((q.sessions g).queue (.claim q.state.lastTicket)).1 with
              adopted := some q.state.lastTicket } with
            current := some g
            call := .sending pcm })) := by
  cases hspare : p.state.spare with
  | some g =>
    refine ⟨_, g, .inl ⟨rfl, rfl⟩, ?_⟩
    cases hclosed : (p.sessions g).closed with
    | true => exact .inl ⟨rfl, by simp only [claimRound, hspare, Session.queue_closed hclosed]⟩
    | false => exact .inr ⟨rfl, by simp only [claimRound, hspare, Session.queue_eq hclosed]⟩
  | none =>
    refine ⟨_, _, .inr ⟨rfl, rfl, rfl⟩, ?_⟩
    cases hclosed : (p.spawnSession.sessions (p.state.nextGeneration + 1)).closed with
    | true => exact .inl ⟨rfl, by simp only [claimRound, hspare, Session.queue_closed hclosed]⟩
    | false => exact .inr ⟨rfl, by simp only [claimRound, hspare, Session.queue_eq hclosed]⟩

theorem Kept.claimRound (h : Kept p) (hcurrent : p.current = none) (pcm : List UInt8)
    (rounds : Nat) : Kept (p.claimRound pcm rounds) := by
  obtain ⟨q, g, hround, hclaim⟩ := claimRound_cases p pcm rounds
  have hq : Kept q ∧ q.current = none ∧ g ≤ q.state.nextGeneration ∧ q.state.spare ≠ some g ∧
      (q.sessions g).adopted = none := by
    obtain ⟨hspare, rfl⟩ | ⟨hspare, rfl, rfl⟩ := hround
    · obtain ⟨hg, hadopted⟩ := h.assigned.spare g hspare
      exact ⟨h.dropSpare, hcurrent, hg, by simp, hadopted⟩
    · refine ⟨h.spawnSession, hcurrent, Nat.le_refl _, ?_, ?_⟩
      · change p.state.spare ≠ _
        rw [hspare]
        simp
      · rw [spawnSession_sessions h.assigned, h.assigned.unspawned _ (Nat.lt_succ_self _)]
        rfl
  obtain ⟨hkept, hnone, hg, hspare, hadopted⟩ := hq
  obtain ⟨-, heq⟩ | ⟨hopen, heq⟩ := hclaim <;> rw [heq]
  · exact hkept.setCall fun _ _ _ => hnone
  · exact hkept.claim hnone hg hspare hadopted hopen pcm

theorem Kept.settle (h : Kept p) {g : Nat} (hg : g ≤ p.state.nextGeneration) {s : Session}
    (hfits : s.Fits) (hadopted : s.adopted = (p.sessions g).adopted)
    (htold : s.run.told = (p.sessions g).run.told)
    (hclosed : (p.sessions g).closed = true → s.closed = true)
    (howes : s.owes = (p.sessions g).owes) (hreported : s.reported = (p.sessions g).reported) :
    Kept (p.setSession g s) := by
  refine ⟨h.assigned.setSession hg hfits hadopted htold hclosed,
    h.ledger.congr rfl rfl rfl rfl rfl (fun g' => ?_) fun g' => ?_⟩
  · by_cases hne : g' = g
    · rw [hne, setSession_self, howes]
    · rw [setSession_other p s hne]
  · by_cases hne : g' = g
    · rw [hne, setSession_self, failed, failed, hreported, hadopted]
    · rw [setSession_other p s hne]

theorem Assigned.spawned (h : Assigned p) {g : Nat} (hphase : (p.sessions g).phase ≠ .opening) :
    g ≤ p.state.nextGeneration := by
  by_contra hno
  rw [h.unspawned g (Nat.lt_of_not_le hno)] at hphase
  exact hphase rfl

theorem Kept.finalizeSent (h : Kept p) (hidle : p.call = .idle) {g : Nat}
    (hcurrent : p.current = some g) (hopen : (p.sessions g).closed = false) :
    Kept ({ p with
      state := p.state.registerTicket
      current := none }.setSession g
        ((p.sessions g).queue (.endOf (p.state.lastTicket + 1))).1) := by
  obtain ⟨hg, hadopted, htold⟩ := h.assigned.current g hcurrent
  obtain ⟨hfits, htold', howes, hadopted', hreported⟩ :=
    (h.assigned.fits g).queue_end hadopted hopen htold
  have hbefore : (p.sessions g).owes = none := by
    rw [Session.owes, htold, Bool.and_false]
    rfl
  rw [hadopted] at hadopted'
  generalize ((p.sessions g).queue (.endOf (p.state.lastTicket + 1))).1 = s
    at hfits htold' howes hadopted' hreported ⊢
  have hself : ({ p with
      state := p.state.registerTicket
      current := none }.setSession g s).sessions g = s := setSession_self _ g s
  have hother : ∀ g', g' ≠ g → ({ p with
      state := p.state.registerTicket
      current := none }.setSession g s).sessions g' = p.sessions g' :=
    fun g' hne => setSession_other { p with
      current := none } s hne
  have hbound : ∀ g' t, (p.sessions g').owes = some t → t ≤ p.state.lastTicket :=
    fun g' t ht => h.ledger.ordered.waits_le ((h.ledger.waits t).mpr ⟨g', ht⟩)
  refine ⟨⟨fun g' => ?_, fun g' hg' => ?_, fun g' hg' => ?_, fun g' hg' => (by cases hg'),
    fun g' ha ht hc => ?_, fun g' after ha => ?_, fun pcm rounds hno => ?_⟩,
    ⟨h.ledger.ordered.registerTicket, fun t => ?_, fun g₁ g₂ t h₁ h₂ => ?_, fun g' => ?_⟩⟩
  · by_cases hne : g' = g
    · rw [hne, hself]
      exact hfits
    · rw [hother g' hne]
      exact h.assigned.fits g'
  · refine (hother g' ?_).trans (h.assigned.unspawned g' hg')
    rintro rfl
    exact absurd hg (Nat.not_le.mpr hg')
  · obtain ⟨hle, hnone⟩ := h.assigned.spare g' hg'
    have hne : g' ≠ g := by
      rintro rfl
      rw [hadopted] at hnone
      cases hnone
    rw [hother g' hne]
    exact ⟨hle, hnone⟩
  · by_cases hne : g' = g
    · rw [hne, hself, htold'] at ht
      cases ht
    · rw [hother g' hne] at ha ht hc
      have hsame := h.assigned.inUse g' ha ht hc
      rw [hcurrent, Option.some.injEq] at hsame
      exact absurd hsame.symm hne
  · change after ≤ p.state.lastTicket + 1 ∧ (_ → after < p.state.lastTicket + 1)
    have hle : after ≤ p.state.lastTicket := by
      by_cases hne : g' = g
      · rw [hne, hself, hadopted', Option.some.injEq] at ha
        exact ha ▸ le_rfl
      · rw [hother g' hne] at ha
        exact (h.assigned.adopted g' after ha).1
    exact ⟨Nat.le_succ_of_le hle, fun _ => Nat.lt_succ_of_le hle⟩
  · cases hidle.symm.trans hno
  · change p.state.registerTicket.Waits t ↔ _
    rw [State.waits_registerTicket, h.ledger.waits t]
    constructor
    · rintro (⟨g', hg'⟩ | rfl)
      · refine ⟨g', ?_⟩
        rw [hother g' (by rintro rfl; rw [hbefore] at hg'; cases hg')]
        exact hg'
      · exact ⟨g, hself.symm ▸ howes⟩
    · rintro ⟨g', hg'⟩
      by_cases hne : g' = g
      · rw [hne, hself, howes, Option.some.injEq] at hg'
        exact .inr hg'.symm
      · rw [hother g' hne] at hg'
        exact .inl ⟨g', hg'⟩
  · have hlast : ∀ g', g' ≠ g →
        ({ p with
          current := none }.setSession g s).sessions g' = p.sessions g' := hother
    by_cases hne₁ : g₁ = g <;> by_cases hne₂ : g₂ = g
    · rw [hne₁, hne₂]
    · rw [hne₁, hself, howes, Option.some.injEq] at h₁
      rw [hother g₂ hne₂] at h₂
      exact absurd (hbound g₂ t h₂) (by omega)
    · rw [hne₂, hself, howes, Option.some.injEq] at h₂
      rw [hother g₁ hne₁] at h₁
      exact absurd (hbound g₁ t h₁) (by omega)
    · rw [hother g₁ hne₁] at h₁
      rw [hother g₂ hne₂] at h₂
      exact h.ledger.unique g₁ g₂ t h₁ h₂
  · refine (State.countP_contents_registerTicket _).trans ((h.ledger.failures g').trans ?_)
    by_cases hne : g' = g
    · rw [hne, hself, failed, failed, hreported, hadopted', hadopted]
    · rw [hother g' hne]

theorem Kept.finalizeUnsent (h : Kept p) (hidle : p.call = .idle)
    (hclosed : ∀ g, p.current = some g → (p.sessions g).closed = true) :
    Kept { p with
      state := p.state.registerTicket.answer (p.state.lastTicket + 1) []
      current := none } := by
  have hregistered := h.ledger.ordered.registerTicket
  obtain ⟨hlast, hspare, hnext⟩ := State.answer_frame (s := p.state.registerTicket)
    (p.state.lastTicket + 1) []
  have hfresh : ¬ p.state.Waits (p.state.lastTicket + 1) := by
    intro hwaits
    exact absurd (h.ledger.ordered.waits_le hwaits) (by omega)
  refine ⟨⟨h.assigned.fits, ?_, ?_, fun g hg => (by cases hg), fun g ha ht hc => ?_,
    fun g after ha => ?_, fun pcm rounds hno => ?_⟩,
    ⟨hregistered.answer _ _, fun t => ?_, h.ledger.unique, fun g => ?_⟩⟩
  · rw [hnext]
    exact h.assigned.unspawned
  · rw [hspare, hnext]
    exact h.assigned.spare
  · rw [hclosed g (h.assigned.inUse g ha ht hc)] at hc
    cases hc
  · rw [hlast]
    have hle := (h.assigned.adopted g after ha).1
    exact ⟨Nat.le_succ_of_le hle, fun _ => Nat.lt_succ_of_le hle⟩
  · cases hidle.symm.trans hno
  · change (p.state.registerTicket.answer (p.state.lastTicket + 1) []).Waits t ↔ _
    rw [State.waits_answer hregistered.nodup, State.waits_registerTicket, h.ledger.waits t]
    constructor
    · rintro ⟨hwaits | heq, hne⟩
      · exact hwaits
      · exact absurd heq hne
    · intro howed
      exact ⟨.inl howed, fun heq => hfresh ((h.ledger.waits _).mpr (heq ▸ howed))⟩
  · have hslot : (⟨p.state.lastTicket + 1, none⟩ : Slot) ∈ p.state.registerTicket.tickets :=
      List.mem_append_right _ (List.mem_singleton.mpr rfl)
    refine (State.countP_contents_answer _ [] (List.mem_map_of_mem hslot) ?_).trans
      ((State.countP_contents_registerTicket _).trans (h.ledger.failures g))
    intro slot hmem hid
    rw [List.inj_on_of_nodup_map hregistered.nodup hmem hslot hid]

theorem Kept.requestFinalize (h : Kept p) {q : MistralStt} {out : List Output}
    (hs : p.step .requestFinalize = some (q, out)) : Kept q := by
  rw [MistralStt.step] at hs
  split_ifs at hs with hidle
  cases hcurrent : p.current with
  | none =>
    rw [hcurrent] at hs
    cases hs
    exact h.finalizeUnsent hidle fun g hg => by rw [hcurrent] at hg; cases hg
  | some g =>
    cases hclosed : (p.sessions g).closed with
    | true =>
      have hqueue : (p.sessions g).queue (.endOf (p.state.lastTicket + 1)) =
          (p.sessions g, false) := if_pos hclosed
      simp only [hcurrent, Option.map_some, hqueue] at hs
      cases hs
      refine h.finalizeUnsent hidle fun g' hg' => ?_
      rw [hcurrent, Option.some.injEq] at hg'
      exact hg' ▸ hclosed
    | false =>
      have hsent := h.finalizeSent hidle hcurrent hclosed
      simp only [hcurrent, Option.map_some, Session.queue_eq hclosed] at hs hsent
      cases hs
      exact hsent

theorem Kept.step (h : Kept p) {q : MistralStt} {i : SttInput} {out : List Output}
    (hs : p.step i = some (q, out)) : Kept q := by
  cases i with rw [MistralStt.step] at hs
  | pushAudio pcm =>
    split at hs
    · split at hs <;> cases hs
      · next hclosed =>
        refine ⟨⟨h.assigned.fits, h.assigned.unspawned, h.assigned.spare,
          fun g hg => (by cases hg), fun g ha ht hc => ?_, h.assigned.adopted,
          fun _ _ _ => rfl⟩,
          h.ledger.congr rfl rfl rfl rfl rfl (fun _ => rfl) fun _ => rfl⟩
        rw [h.assigned.inUse g ha ht hc, isClosed, hc] at hclosed
        cases hclosed
      · exact h.setCall fun _ _ hno => (by cases hno)
    · cases hs
  | claimSession =>
    split at hs <;> cases hs
    next pcm rounds hcall =>
      exact h.claimRound (h.assigned.claiming pcm rounds hcall) pcm rounds
  | sendAudio =>
    split at hs
    · next pcm g _ hcurrent =>
      obtain ⟨hg, hadopted, -⟩ := h.assigned.current g hcurrent
      obtain ⟨hfits, htold, howes, hclosed, hadopted', hreported⟩ :=
        (h.assigned.fits g).queue_audio (by rw [hadopted]; rfl) pcm
      cases hs
      exact (h.settle hg hfits hadopted' htold (fun hc => hclosed.trans hc) howes
        hreported).setCall fun _ _ hno => (by cases hno)
    · cases hs
  | requestFinalize => exact h.requestFinalize hs
  | waitReady | lookForSpare =>
    split at hs <;> cases hs
    refine h.setCall fun pcm rounds hno => ?_
    split at hno <;> cases hno
  | storeSpare =>
    split at hs <;> cases hs
    exact h.spawnSpare.setCall fun _ _ hno => (by cases hno)
  | poll =>
    split at hs <;> cases hs
    · exact h
    · next entry queue hqueue =>
      have hlog : p.polled ++ [entry] ++ queue = p.polled ++ p.state.queue := by
        rw [hqueue, List.append_assoc]
        rfl
      refine ⟨h.assigned.setState (by rfl) (by rfl) (by rfl) _, ⟨⟨?_, h.ledger.ordered.front,
        h.ledger.ordered.held⟩, h.ledger.waits, h.ledger.unique, fun g => ?_⟩⟩
      · change ∃ n, dones (p.polled ++ [entry] ++ queue) = _ ∧ _
        rw [hlog]
        exact h.ledger.ordered.numbered
      · change (outputsOf (p.polled ++ [entry] ++ queue) ++ _ ++ _).countP _ = _
        rw [hlog]
        exact h.ledger.failures g
  | discardQueuedTranscripts =>
    cases hs
    have hkept : ∀ g (outputs : List Output),
        (outputs.filter fun o => !o.item.isTranscript).countP (isFailureOf g) =
          outputs.countP (isFailureOf g) := by
      refine fun g => countP_discard fun o ho => ?_
      rw [isFailureOf, Bool.and_eq_true, Bool.not_eq_true'] at ho
      exact ho.2
    refine ⟨h.assigned.setState (by rfl) (by rfl) (by rfl) _, ⟨⟨?_, h.ledger.ordered.front, fun x hx => ?_⟩,
      h.ledger.waits, h.ledger.unique, fun g => ?_⟩⟩
    · change ∃ n, dones (p.polled ++ p.state.queue.filter _) = _ ∧ _
      rw [dones_append, dones_discard, ← dones_append]
      exact h.ledger.ordered.numbered
    · exact h.ledger.ordered.held x (List.mem_filter.mp hx).1
    · have hfailures := h.ledger.failures g
      rw [State.countP_contents, outputsOf_append, List.countP_append] at hfailures ⊢
      rw [outputsOf_discard, map_discard, hkept, hkept]
      exact hfailures
  | task g event =>
    split_ifs at hs with hguard
    rw [Option.map_eq_some_iff] at hs
    obtain ⟨⟨s, es⟩, hstep, heq⟩ := hs
    cases heq
    exact h.task hguard.2.1 ((h.assigned.fits g).step hstep)
  | taskLooksForSpare g =>
    split at hs
    · next hphase =>
      obtain ⟨⟨hstoring, hfinish⟩, howed, hpaid, hpaid'⟩ :=
        (h.assigned.fits g).rests (.inl hphase)
      have hg : g ≤ p.state.nextGeneration := h.assigned.spawned (by rw [hphase]; simp)
      cases hs
      split
      · exact h.settle hg hstoring rfl rfl id (hpaid.trans howed.symm) rfl
      · exact h.settle hg hfinish rfl rfl (fun _ => rfl) (hpaid'.trans howed.symm) rfl
    · cases hs
  | taskStoresSpare g =>
    split_ifs at hs with hphase
    obtain ⟨⟨-, hfinish⟩, howed, -, hpaid⟩ := (h.assigned.fits g).rests (.inr hphase)
    have hg : g ≤ p.state.nextGeneration := h.assigned.spawned (by rw [hphase]; simp)
    cases hs
    exact (h.settle hg hfinish rfl rfl (fun _ => rfl) (hpaid.trans howed.symm) rfl).spawnSpare

end MistralStt

end NodeWebrtc.Vendors.Mistral
