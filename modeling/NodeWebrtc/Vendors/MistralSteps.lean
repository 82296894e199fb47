import NodeWebrtc.Vendors.MistralAnswers
import NodeWebrtc.Vendors.MistralProgress

/-! # What a step does to each session

A step of the provider touches one session, or none. No step raises the rank of a session that was
told its ticket or has failed, and the task's own steps lower it.
-/

namespace NodeWebrtc.Vendors.Mistral

/-- A step that the task of session `g` takes by itself. -/
def SttInput.isOwnOf (g : Nat) : SttInput → Bool
  | .task generation event => generation == g && event.isOwn
  | _ => false

/-- The steps that may write output or ask for an answer. -/
def SttInput.writes : SttInput → Bool
  | .requestFinalize | .task _ _ => true
  | _ => false

namespace Session

/-- The task has failed and has not reported it yet. -/
def dying (s : Session) : Bool :=
  match s.phase with
  | .failing _ _ | .reporting _ _ => true
  | _ => false

/-- A session that was told its ticket or has failed goes on towards its end. -/
structure Settles (s s' : Session) (own : Bool) : Prop where
  ready : s'.Ready
  told : s.run.told = true → s'.run.told = true
  adopted : s.adopted.isSome = true → s'.adopted = s.adopted
  rank : s.run.told = true ∨ s.dying = true → s'.rank + own.toNat ≤ s.rank
  dying : s.dying = true → s'.dying = true ∨ s'.reported = true
  reported : s.reported = true → s'.reported = true

variable {s : Session}

theorem Ready.stays (h : s.Ready) : Settles s s false :=
  ⟨h, id, fun _ => rfl, fun _ => le_rfl, .inl, id⟩

theorem Ready.queued (h : s.Ready) (htold : s.run.told = false) (cmd : Cmd) (adopted : Option Nat)
    (hadopted : s.adopted.isSome = true → adopted = s.adopted) :
    Settles s { (s.queue cmd).1 with adopted := adopted } false := by
  have hfirst : ∀ {P : Prop}, s.run.told = true → P := by
    intro P hno
    rw [htold] at hno
    cases hno
  cases hclosed : s.closed with
  | true =>
    rw [show s.queue cmd = (s, false) from if_pos hclosed]
    exact ⟨⟨h.rxOpen, h.first, h.armed⟩, hfirst, hadopted, fun _ => le_rfl, .inl, id⟩
  | false =>
    rw [queue_eq hclosed]
    refine ⟨⟨fun hno => hfirst (h.rxOpen hno).2, h.first, h.armed⟩, hfirst, hadopted, ?_, .inl, id⟩
    rintro (hno | hdying)
    · exact hfirst hno
    · rw [Session.dying] at hdying
      split at hdying
      · next heq =>
        rw [rank, rank, heq]
        exact le_rfl
      · next heq =>
        rw [rank, rank, heq]
        exact le_rfl
      · cases hdying

variable {es : List Effect}

theorem dying_step {s' : Session} {event : TaskEvent} (hs : s.step event = some (s', es))
    (hdying : s.dying = true) :
    s'.dying = true ∨ s'.reported = true := by
  have hphase : s.phase ≠ .opening ∧ s.phase ≠ .serving := by
    constructor <;> intro heq <;> rw [dying, heq] at hdying <;> cases hdying
  cases event with
  | opened fails | openFailed message =>
    rw [Session.step, if_neg hphase.1] at hs
    cases hs
  | command fails =>
    rw [Session.step, if_neg hphase.2] at hs
    cases hs
  | disconnected | event event | socketEnd message | timer =>
    rw [Session.step, if_neg fun hno => hphase.2 hno.1] at hs
    cases hs
  | close =>
    rw [Session.step] at hs
    split at hs <;> cases hs
    exact .inl rfl
  | report =>
    rw [Session.step] at hs
    split at hs <;> cases hs
    exact .inr rfl

theorem Writes.reported {s' : Session} (h : Writes s s' es) (hr : s.reported = true) :
    s'.reported = true := by
  cases h with
  | silent _ hsame | partialText _ _ _ _ _ _ hsame | done _ _ _ _ _ _ hsame => rw [hsame, hr]
  | answered _ _ _ _ _ _ _ hnow | failed _ _ _ _ _ _ _ hnow | unused _ _ _ _ hnow => exact hnow

theorem Ready.stepped (h : s.Ready) (hfits : s.Fits) {s' : Session} {event : TaskEvent}
    (hs : s.step event = some (s', es)) : Settles s s' event.isOwn := by
  have hmoves := hfits.step hs
  have hadvances := h.step hfits hs
  exact ⟨hadvances.ready, fun ht => hmoves.told.trans ht, fun _ => hmoves.adopted,
    fun _ => hadvances.rank, dying_step hs, hmoves.writes.reported⟩

theorem Ready.rests (h : s.Ready) (hphase : s.phase = .sparing ∨ s.phase = .storing) :
    Settles s { s with phase := .storing } false ∧ Settles s s.finish false := by
  have halive : s.dying = false := by rcases hphase with heq | heq <;> rw [dying, heq]
  have hnot : ∀ {P : Prop}, s.dying = true → P := by
    intro P hno
    rw [halive] at hno
    cases hno
  have hready : ∀ s' : Session, s'.run = s.run → s'.phase = .storing ∨ s'.phase = .finished →
      s'.Ready := by
    intro s' hrun hphase'
    refine ⟨fun hopen => ?_, fun hno => ?_, fun hno => ?_⟩
    · rw [hrun] at hopen ⊢
      exact h.rxOpen hopen
    · rcases hphase' with heq | heq <;> cases heq.symm.trans hno
    · rcases hphase' with heq | heq <;> cases heq.symm.trans hno
  exact ⟨⟨hready _ rfl (.inl rfl), id, fun _ => rfl, fun _ => Nat.zero_le _, hnot, id⟩,
    ⟨hready _ rfl (.inr rfl), id, fun _ => rfl, fun _ => Nat.zero_le _, hnot, id⟩⟩

end Session

namespace MistralStt

variable {p : MistralStt}

/-! ## One session at a time -/

/-- What a step of the provider makes of session `g`, and whether the task took it by itself. -/
inductive Touched (p : MistralStt) (g : Nat) : Session → Bool → Prop where
  | same : Touched p g (p.sessions g) false
  | claimed (hg : 1 ≤ g) (hadopted : (p.sessions g).adopted = none) :
      Touched p g { ((p.sessions g).queue (.claim p.state.lastTicket)).1 with
        adopted := some p.state.lastTicket } false
  | queued (cmd : Cmd) (hcurrent : p.current = some g) :
      Touched p g ((p.sessions g).queue cmd).1 false
  | stepped (event : TaskEvent) (s : Session) (es : List Effect)
      (hs : (p.sessions g).step event = some (s, es)) : Touched p g s event.isOwn
  | storing (hphase : (p.sessions g).phase = .sparing) :
      Touched p g { p.sessions g with phase := .storing } false
  | finished (hphase : (p.sessions g).phase = .sparing ∨ (p.sessions g).phase = .storing) :
      Touched p g (p.sessions g).finish false

variable {q : MistralStt} {g : Nat} {s : Session}

theorem touched_setSession {own : Bool} (ht : Touched p g s own)
    (hq : q.sessions = (p.setSession g s).sessions) (g' : Nat) :
    Touched p g' (q.sessions g') (g == g' && own) := by
  rw [hq]
  by_cases hne : g' = g
  · rw [hne, setSession_self, beq_self_eq_true, Bool.true_and]
    exact ht
  · rw [setSession_other p s hne, beq_false_of_ne (Ne.symm hne), Bool.false_and]
    exact .same

theorem touched_quiet (ht : Touched p g s false) (hq : q.sessions = (p.setSession g s).sessions)
    (g' : Nat) :
    Touched p g' (q.sessions g') false := by
  have h := touched_setSession ht hq g'
  rwa [Bool.and_false] at h

theorem touched_same (hq : q.sessions = p.sessions) (g : Nat) :
    Touched p g (q.sessions g) false := by
  rw [hq]
  exact .same

theorem touched_claimRound (h : Kept p) (hpos : ∀ g, p.state.spare = some g → 1 ≤ g)
    (pcm : List UInt8) (rounds g : Nat) :
    Touched p g ((p.claimRound pcm rounds).sessions g) false := by
  obtain ⟨q, g', hround, hclaim⟩ := claimRound_cases p pcm rounds
  have hq : q.sessions = p.sessions ∧ q.state.lastTicket = p.state.lastTicket ∧ 1 ≤ g' ∧
      (p.sessions g').adopted = none := by
    obtain ⟨hspare, rfl⟩ | ⟨-, rfl, rfl⟩ := hround
    · exact ⟨rfl, rfl, hpos g' hspare, (h.assigned.spare g' hspare).2⟩
    · refine ⟨spawnSession_sessions h.assigned, rfl, Nat.le_add_left 1 _, ?_⟩
      rw [h.assigned.unspawned _ (Nat.lt_succ_self _)]
      rfl
  obtain ⟨hsessions, hlast, hg', hadopted⟩ := hq
  obtain ⟨-, heq⟩ | ⟨hopen, heq⟩ := hclaim
  · rw [heq]
    exact touched_same hsessions g
  · have hclaimed := Touched.claimed hg' hadopted
    rw [← hsessions, ← hlast] at hclaimed
    rw [heq]
    refine touched_quiet hclaimed ?_ g
    change Function.update q.sessions g' _ = Function.update p.sessions g' _
    rw [hsessions]

variable {i : SttInput} {out : List Output}

theorem touched_step (h : Kept p) (hpos : ∀ g, p.state.spare = some g → 1 ≤ g)
    (hs : p.step i = some (q, out)) (g : Nat) :
    Touched p g (q.sessions g) (i.isOwnOf g) := by
  cases i with rw [MistralStt.step] at hs
  | pushAudio pcm =>
    split at hs
    · split at hs <;> cases hs <;> exact .same
    · cases hs
  | claimSession =>
    split at hs <;> cases hs
    next pcm rounds hcall =>
      exact touched_claimRound h hpos pcm rounds g
  | sendAudio =>
    split at hs <;> cases hs
    next pcm g' _ hcurrent =>
      exact touched_quiet (.queued (.audio pcm) hcurrent) (by rfl) g
  | requestFinalize =>
    split_ifs at hs
    cases hcurrent : p.current with
    | none =>
      rw [hcurrent] at hs
      cases hs
      exact .same
    | some g' =>
      cases hclosed : (p.sessions g').closed with
      | true =>
        have hqueue : (p.sessions g').queue (.endOf (p.state.lastTicket + 1)) =
            (p.sessions g', false) := if_pos hclosed
        simp only [hcurrent, Option.map_some, hqueue] at hs
        cases hs
        exact .same
      | false =>
        have hqueued := Touched.queued (.endOf (p.state.lastTicket + 1)) hcurrent
        simp only [hcurrent, Option.map_some, Session.queue_eq hclosed] at hs hqueued
        cases hs
        exact touched_quiet hqueued (by rfl) g
  | waitReady | lookForSpare =>
    split at hs <;> cases hs
    exact .same
  | storeSpare =>
    split at hs <;> cases hs
    exact touched_same (spawnSession_sessions h.assigned) g
  | poll =>
    split at hs <;> cases hs <;> exact .same
  | discardQueuedTranscripts =>
    cases hs
    exact .same
  | task g' event =>
    split_ifs at hs
    rw [Option.map_eq_some_iff] at hs
    obtain ⟨⟨s, es⟩, hstep, heq⟩ := hs
    cases heq
    exact touched_setSession (.stepped event s es hstep) (by rfl) g
  | taskLooksForSpare g' =>
    split at hs <;> cases hs
    next hphase =>
      split
      · exact touched_quiet (.storing hphase) (by rfl) g
      · exact touched_quiet (.finished (.inl hphase)) (by rfl) g
  | taskStoresSpare g' =>
    split_ifs at hs with hphase
    have hg' : g' ≤ p.state.nextGeneration := h.assigned.spawned (by rw [hphase]; simp)
    have hfinish := ((h.assigned.fits g').rests (.inr hphase)).1.2
    have hrest := h.assigned.setSession hg' hfinish rfl rfl fun _ => rfl
    cases hs
    exact touched_quiet (.finished (.inr hphase)) (spawnSession_sessions hrest) g

theorem Touched.settles (h : Kept p) (hready : (p.sessions g).Ready) {own : Bool}
    (ht : Touched p g s own) : Session.Settles (p.sessions g) s own := by
  cases ht with
  | same => exact hready.stays
  | claimed hg hadopted =>
    refine hready.queued ((h.assigned.fits g).unadopted hadopted).2.2.2.2.1 _ _ fun hno => ?_
    rw [hadopted] at hno
    cases hno
  | queued cmd hcurrent =>
    have hqueued := hready.queued (h.assigned.current g hcurrent).2.2 cmd
      ((p.sessions g).queue cmd).1.adopted fun _ => by
        rw [Session.queue]
        split <;> rfl
    exact hqueued
  | stepped event _ es hs => exact hready.stepped (h.assigned.fits g) hs
  | storing hphase => exact (hready.rests (.inl hphase)).1
  | finished hphase => exact (hready.rests hphase).2

theorem Touched.claimedBy (h : Kept p) {own : Bool} (ht : Touched p g s own)
    (hadopted : s.adopted.isSome = true) :
    (p.sessions g).adopted.isSome = true ∨ 1 ≤ g := by
  cases ht with
  | same | storing | finished => exact .inl hadopted
  | claimed hg _ => exact .inr hg
  | queued cmd hcurrent => exact .inl (by rw [(h.assigned.current g hcurrent).2.1]; rfl)
  | stepped event _ es hs => exact .inl (((h.assigned.fits g).step hs).adopted ▸ hadopted)

theorem Touched.toldBy (h : Kept p) {own : Bool} (ht : Touched p g s own)
    (htold : s.run.told = true) :
    (p.sessions g).run.told = true ∨ p.current = some g := by
  cases ht with
  | same | storing | finished => exact .inl htold
  | claimed hg hadopted =>
    cases hclosed : (p.sessions g).closed with
    | true =>
      rw [show (p.sessions g).queue (.claim p.state.lastTicket) = (p.sessions g, false) from
        if_pos hclosed] at htold
      exact .inl htold
    | false =>
      have hno := ((h.assigned.fits g).claim hadopted hclosed p.state.lastTicket).2.1
      cases hno.symm.trans htold
  | queued cmd hcurrent => exact .inr hcurrent
  | stepped event _ es hs => exact .inl (((h.assigned.fits g).step hs).told ▸ htold)

/-! ## What is kept beside the sessions -/

theorem applyEffects_frame (g : Nat) (s : Session) (es : List Effect) (state : State) :
    (es.foldl (applyEffect g s) state).lastTicket = state.lastTicket ∧
      (es.foldl (applyEffect g s) state).spare = state.spare ∧
      (es.foldl (applyEffect g s) state).nextGeneration = state.nextGeneration ∧
      state.queue <+: (es.foldl (applyEffect g s) state).queue := by
  induction es generalizing state with
  | nil => exact ⟨rfl, rfl, rfl, List.prefix_rfl⟩
  | cons e es ih =>
    rw [List.foldl_cons]
    obtain ⟨hlast, hspare, hnext, hqueue⟩ := ih (applyEffect g s state e)
    have hone : (applyEffect g s state e).lastTicket = state.lastTicket ∧
        (applyEffect g s state e).spare = state.spare ∧
        (applyEffect g s state e).nextGeneration = state.nextGeneration ∧
        state.queue <+: (applyEffect g s state e).queue := by
      cases e with
      | emit after item =>
        obtain ⟨hlast, hspare, hnext⟩ :=
          State.emit_frame (s := state) after ⟨s.run.own.after + 1, g, item⟩
        exact ⟨hlast, hspare, hnext, State.emit_queue _ _⟩
      | answer ticket items =>
        obtain ⟨hlast, hspare, hnext⟩ := State.answer_frame (s := state) ticket
          (items.map fun item => ⟨s.run.own.after + 1, g, item⟩)
        exact ⟨hlast, hspare, hnext, State.answer_queue _ _⟩
    exact ⟨hlast.trans hone.1, hspare.trans hone.2.1, hnext.trans hone.2.2.1,
      hone.2.2.2.trans hqueue⟩

/-- What a step of the provider makes of the queue and of the tickets. -/
inductive Wrote (p q : MistralStt) : SttInput → List Output → Prop where
  | nothing (i : SttInput) (hi : i.writes = false) (spare : Option Nat) (nextGeneration : Nat)
      (hspare : ∀ g, spare = some g → p.state.spare = some g ∨ 1 ≤ g)
      (hpolled : q.polled = p.polled) (hstate : q.state = { p.state with
        spare := spare
        nextGeneration := nextGeneration }) : Wrote p q i []
  | sent (g : Nat) (hcurrent : p.current = some g) (hopen : (p.sessions g).closed = false)
      (hpolled : q.polled = p.polled) (hstate : q.state = p.state.registerTicket) :
      Wrote p q .requestFinalize []
  | unsent (hcurrent : ∀ g, p.current = some g → (p.sessions g).closed = true)
      (hpolled : q.polled = p.polled)
      (hstate : q.state = p.state.registerTicket.answer (p.state.lastTicket + 1) []) :
      Wrote p q .requestFinalize []
  | polled (entry : Entry) (queue : List Entry) (hqueue : p.state.queue = entry :: queue)
      (hpolled : q.polled = p.polled ++ [entry])
      (hstate : q.state = { p.state with queue := queue }) : Wrote p q .poll []
  | discarded (hpolled : q.polled = p.polled) (hstate : q.state = { p.state with
      queue := p.state.queue.filter fun entry => !entry.isTranscript
      held := p.state.held.filter fun h => !h.2.item.isTranscript }) :
      Wrote p q .discardQueuedTranscripts []
  | task (g : Nat) (event : TaskEvent) (s : Session) (es : List Effect)
      (hs : (p.sessions g).step event = some (s, es)) (hpolled : q.polled = p.polled)
      (hstate : q.state = es.foldl (applyEffect g s) p.state) :
      Wrote p q (.task g event) (es.flatMap (outputs g s))

theorem wrote_spare {r : MistralStt} (hi : i.writes = false) (call : Call)
    (hpolled : r.polled = p.polled) (hstate : r.state = p.state) :
    Wrote p { r.spawnSpare with call := call } i [] := by
  refine .nothing i hi (some (p.state.nextGeneration + 1)) (p.state.nextGeneration + 1)
    (fun g hg => ?_) hpolled ?_
  · cases hg
    exact .inr (Nat.le_add_left 1 _)
  · change { r.state with
      spare := some (r.state.nextGeneration + 1)
      nextGeneration := r.state.nextGeneration + 1 } = _
    rw [hstate]

theorem wrote_claimRound (pcm : List UInt8) (rounds : Nat) :
    Wrote p (p.claimRound pcm rounds) .claimSession [] := by
  have hi : SttInput.claimSession.writes = false := rfl
  obtain ⟨q, g, ⟨-, rfl⟩ | ⟨-, rfl, -⟩, ⟨-, heq⟩ | ⟨-, heq⟩⟩ := claimRound_cases p pcm rounds
  all_goals rw [heq]
  · exact .nothing _ hi none p.state.nextGeneration (fun _ hno => (by cases hno)) rfl rfl
  · exact .nothing _ hi none p.state.nextGeneration (fun _ hno => (by cases hno)) rfl rfl
  · exact .nothing _ hi p.state.spare (p.state.nextGeneration + 1) (fun _ => .inl) rfl rfl
  · exact .nothing _ hi p.state.spare (p.state.nextGeneration + 1) (fun _ => .inl) rfl rfl

theorem wrote_step (hs : p.step i = some (q, out)) : Wrote p q i out := by
  have hnothing : ∀ {r : MistralStt}, i.writes = false → r.polled = p.polled →
      r.state = p.state → Wrote p r i [] :=
    fun hi hpolled hstate => .nothing i hi p.state.spare p.state.nextGeneration (fun _ => .inl)
      hpolled hstate
  cases i with rw [MistralStt.step] at hs
  | pushAudio pcm =>
    split at hs
    · split at hs <;> cases hs <;> exact hnothing rfl rfl rfl
    · cases hs
  | claimSession =>
    split at hs <;> cases hs
    exact wrote_claimRound _ _
  | sendAudio | waitReady | lookForSpare | taskLooksForSpare g =>
    split at hs <;> cases hs
    exact hnothing rfl rfl rfl
  | requestFinalize =>
    split_ifs at hs
    cases hcurrent : p.current with
    | none =>
      rw [hcurrent] at hs
      cases hs
      exact .unsent (fun g hg => by cases hcurrent.symm.trans hg) rfl rfl
    | some g =>
      cases hclosed : (p.sessions g).closed with
      | true =>
        have hqueue : (p.sessions g).queue (.endOf (p.state.lastTicket + 1)) =
            (p.sessions g, false) := if_pos hclosed
        simp only [hcurrent, Option.map_some, hqueue] at hs
        cases hs
        refine .unsent (fun g' hg' => ?_) rfl rfl
        rw [hcurrent, Option.some.injEq] at hg'
        exact hg' ▸ hclosed
      | false =>
        simp only [hcurrent, Option.map_some, Session.queue_eq hclosed] at hs
        cases hs
        exact .sent g hcurrent hclosed rfl rfl
  | storeSpare =>
    split at hs <;> cases hs
    exact wrote_spare rfl _ rfl rfl
  | poll =>
    split at hs <;> cases hs
    · exact hnothing rfl rfl rfl
    · next entry queue hqueue =>
      exact .polled entry queue hqueue rfl rfl
  | discardQueuedTranscripts =>
    cases hs
    exact .discarded rfl rfl
  | task g event =>
    split_ifs at hs
    rw [Option.map_eq_some_iff] at hs
    obtain ⟨⟨s, es⟩, hstep, heq⟩ := hs
    cases heq
    exact .task g event s es hstep rfl rfl
  | taskStoresSpare g =>
    split at hs <;> cases hs
    exact wrote_spare (r := p.setSession g (p.sessions g).finish) rfl p.call rfl rfl

theorem spare_step (hs : p.step i = some (q, out)) (hg : q.state.spare = some g) :
    p.state.spare = some g ∨ 1 ≤ g := by
  cases wrote_step hs with
  | nothing i hi spare nextGeneration hspare hpolled hstate =>
    rw [hstate] at hg
    exact hspare g hg
  | sent g' hcurrent hopen hpolled hstate | polled entry queue hqueue hpolled hstate
  | discarded hpolled hstate =>
    rw [hstate] at hg
    exact .inl hg
  | unsent hcurrent hpolled hstate =>
    rw [hstate, (State.answer_frame _ _).2.1] at hg
    exact .inl hg
  | task g' event s es hstep hpolled hstate =>
    rw [hstate, (applyEffects_frame g' s es p.state).2.1] at hg
    exact .inl hg

/-- Every session runs its timers, none has generation zero but idle ones, and a ticket is told to
one session. -/
structure Timely (p : MistralStt) : Prop where
  ready : ∀ g, (p.sessions g).Ready
  spare : ∀ g, p.state.spare = some g → 1 ≤ g
  claimed : ∀ g, (p.sessions g).adopted.isSome = true → 1 ≤ g
  unique : ∀ g g', (p.sessions g).run.told = true → (p.sessions g').run.told = true →
    (p.sessions g).adopted = (p.sessions g').adopted → g = g'

theorem timely_started : Timely started := by
  refine ⟨fun _ => Session.ready_new, fun g hg => ?_, fun _ hno => ?_, fun _ _ hno => ?_⟩
  · cases hg
    exact le_rfl
  · cases hno
  · cases hno

theorem Kept.toldBy (h : Kept p) (htold : (p.sessions g).run.told = true) :
    ∃ after, (p.sessions g).adopted = some after ∧ after < p.state.lastTicket := by
  cases hadopted : (p.sessions g).adopted with
  | none =>
    have hno := ((h.assigned.fits g).unadopted hadopted).2.2.2.2.1
    cases hno.symm.trans htold
  | some after => exact ⟨after, rfl, (h.assigned.adopted g after hadopted).2 htold⟩

theorem Timely.step (h : Timely p) (hk : Kept p) (hs : p.step i = some (q, out)) :
    Timely q ∧ ∀ g, Session.Settles (p.sessions g) (q.sessions g) (i.isOwnOf g) := by
  have htouched := touched_step hk h.spare hs
  have hsettles := fun g => (htouched g).settles hk (h.ready g)
  refine ⟨⟨fun g => (hsettles g).ready, fun g hg => ?_, fun g hg => ?_, fun g g' hg hg' heq => ?_⟩,
    hsettles⟩
  · exact (spare_step hs hg).elim (h.spare g) id
  · exact ((htouched g).claimedBy hk hg).elim (h.claimed g) id
  · -- a session told in this step is the one in use, which was claimed after the last finalize
    have hbefore : ∀ g, (p.sessions g).run.told = true → (q.sessions g).adopted =
        (p.sessions g).adopted ∧
        ∃ after, (p.sessions g).adopted = some after ∧ after < p.state.lastTicket := by
      intro g hg
      obtain ⟨after, hafter, hless⟩ := hk.toldBy hg
      exact ⟨(hsettles g).adopted (by rw [hafter]; rfl), after, hafter, hless⟩
    have hnow : ∀ g, p.current = some g →
        (q.sessions g).adopted = some p.state.lastTicket := by
      intro g hg
      have hadopted := (hk.assigned.current g hg).2.1
      exact ((hsettles g).adopted (by rw [hadopted]; rfl)).trans hadopted
    have hmixed : ∀ g g', (p.sessions g).run.told = true → p.current = some g' →
        (q.sessions g).adopted ≠ (q.sessions g').adopted := by
      intro g g' hg hg' heq
      obtain ⟨hsame, after, hafter, hless⟩ := hbefore g hg
      rw [hsame, hafter, hnow g' hg', Option.some.injEq] at heq
      omega
    rcases (htouched g).toldBy hk hg with htold | hcurrent
    · rcases (htouched g').toldBy hk hg' with htold' | hcurrent'
      · refine h.unique g g' htold htold' ?_
        rw [← (hbefore g htold).1, ← (hbefore g' htold').1, heq]
      · exact absurd heq (hmixed g g' htold hcurrent')
    · rcases (htouched g').toldBy hk hg' with htold' | hcurrent'
      · exact absurd heq.symm (hmixed g' g htold' hcurrent)
      · rw [hcurrent, Option.some.injEq] at hcurrent'
        exact hcurrent'

theorem dones_step (hs : p.step i = some (q, out)) : dones p.log <+: dones q.log := by
  rw [log, log]
  have hgrows : ∀ {queue : List Entry}, p.state.queue <+: queue →
      dones (p.polled ++ p.state.queue) <+: dones (p.polled ++ queue) := by
    intro queue hqueue
    rw [dones_append, dones_append]
    exact (List.prefix_append_right_inj _).mpr (hqueue.filterMap _)
  cases wrote_step hs with
  | nothing i hi spare nextGeneration hspare hpolled hstate => rw [hpolled, hstate]
  | sent g hcurrent hopen hpolled hstate =>
    rw [hpolled, hstate]
    exact List.prefix_rfl
  | unsent hcurrent hpolled hstate =>
    rw [hpolled, hstate]
    exact hgrows (State.answer_queue (s := p.state.registerTicket) _ _)
  | polled entry queue hqueue hpolled hstate =>
    rw [hpolled, hstate, hqueue, List.append_assoc]
    exact List.prefix_rfl
  | discarded hpolled hstate => rw [hpolled, hstate, dones_append, dones_append, dones_discard]
  | task g event s es hstep hpolled hstate =>
    rw [hpolled, hstate]
    exact hgrows (applyEffects_frame g s es p.state).2.2.2

end MistralStt

end NodeWebrtc.Vendors.Mistral
