import NodeWebrtc.Lib.Fairness
import NodeWebrtc.Vendors.MistralTags

/-! # Every finalize is answered

In a run without end in which every session task keeps taking its own steps, the answer of each
finalize gets to the queue, and so does the one error of each claimed session that failed.
-/

namespace NodeWebrtc.Vendors.Mistral.MistralStt

variable {p : MistralStt}

structure Booked (p : MistralStt) : Prop where
  kept : Kept p
  timely : Timely p
  tagged : Tagged p.adoptions p.polled p.state

theorem booked_started : Booked started := ⟨kept_started, timely_started, tagged_started⟩

theorem Booked.step (h : Booked p) {q : MistralStt} {i : SttInput} {out : List Output}
    (hs : p.step i = some (q, out)) : Booked q :=
  ⟨h.kept.step hs, (h.timely.step h.kept hs).1, tagged_step h.tagged h.kept h.timely hs⟩

theorem Booked.settles (h : Booked p) {q : MistralStt} {i : SttInput} {out : List Output}
    (hs : p.step i = some (q, out)) (g : Nat) :
    Session.Settles (p.sessions g) (q.sessions g) (i.isOwnOf g) :=
  (h.timely.step h.kept hs).2 g

theorem lastTicket_step {q : MistralStt} {i : SttInput} {out : List Output}
    (hs : p.step i = some (q, out)) :
    q.state.lastTicket = p.state.lastTicket + [i].count .requestFinalize := by
  have hother : ∀ {i : SttInput}, i ≠ .requestFinalize → [i].count .requestFinalize = 0 :=
    fun hi => List.count_eq_zero_of_not_mem (by simpa using Ne.symm hi)
  cases wrote_step hs with
  | nothing i hi spare nextGeneration hspare hpolled hstate =>
    rw [hstate, hother (by rintro rfl; cases hi), Nat.add_zero]
  | sent g hcurrent hopen hpolled hstate =>
    rw [hstate]
    rfl
  | unsent hcurrent hpolled hstate =>
    rw [hstate, (State.answer_frame _ _).1]
    rfl
  | polled entry queue hqueue hpolled hstate | discarded hpolled hstate =>
    rw [hstate, hother (by simp), Nat.add_zero]
  | task g event s es hstep hpolled hstate =>
    rw [hstate, (applyEffects_frame g s es p.state).1, hother (by simp), Nat.add_zero]

def released (p : MistralStt) : Nat := (dones p.log).length

theorem Booked.numbered (h : Booked p) : dones p.log = List.range' 1 p.released ∧
    p.state.tickets.map Slot.id = List.range' (p.released + 1) p.state.tickets.length ∧
    p.state.lastTicket = p.released + p.state.tickets.length := by
  obtain ⟨n, hdones, hids, hlast⟩ := h.kept.ledger.ordered.numbered
  have hn : p.released = n := by rw [released, log, hdones, List.length_range']
  rw [hn]
  exact ⟨hdones, hids, hlast⟩

theorem Booked.waits (h : Booked p) (hless : p.released < p.state.lastTicket) :
    p.state.Waits (p.released + 1) := by
  obtain ⟨-, hids, hlast⟩ := h.numbered
  cases htickets : p.state.tickets with
  | nil =>
    rw [htickets, List.length_nil] at hlast
    omega
  | cons slot slots =>
    rw [htickets, List.map_cons, List.length_cons, List.range'_succ] at hids
    exact ⟨slot, htickets ▸ List.mem_cons_self, (List.cons.inj hids).1,
      h.kept.ledger.ordered.front slot (by rw [htickets]; rfl)⟩

theorem owes_eq_some {s : Session} {t : Nat} (h : s.owes = some t) :
    s.run.told = true ∧ ∃ after, s.adopted = some after ∧ t = after + 1 := by
  rw [Session.owes] at h
  split_ifs at h with hboth
  rw [Option.map_eq_some_iff] at h
  obtain ⟨after, hadopted, rfl⟩ := h
  exact ⟨(Bool.and_eq_true _ _ ▸ hboth).2, after, hadopted, rfl⟩

theorem Booked.enabled (h : Booked p) {g after : Nat} (htold : (p.sessions g).run.told = true)
    (hadopted : (p.sessions g).adopted = some after) (hwaits : p.state.Waits (after + 1)) :
    ∃ i : SttInput, i.isOwnOf g = true ∧ (p.step i).isSome = true := by
  obtain ⟨g', howes⟩ := (h.kept.ledger.waits _).mp hwaits
  obtain ⟨htold', after', hadopted', heq⟩ := owes_eq_some howes
  obtain rfl : g' = g := by
    refine h.timely.unique g' g htold' htold ?_
    rw [hadopted, hadopted', Option.some.injEq]
    omega
  obtain ⟨event, hown, hconnected, hstep⟩ :=
    (h.timely.ready g').enabled (by rw [howes]; rfl)
  refine ⟨.task g' event, by rw [SttInput.isOwnOf, beq_self_eq_true, hown]; rfl, ?_⟩
  have hg : g' ≤ p.state.nextGeneration := by
    by_contra hno
    rw [h.kept.assigned.unspawned g' (Nat.lt_of_not_le hno)] at hadopted
    cases hadopted
  rw [MistralStt.step, if_pos ⟨h.timely.claimed g' (by rw [hadopted]; rfl), hg,
    fun hno => absurd hno hconnected⟩, Option.isSome_map]
  exact hstep

theorem Booked.dying (h : Booked p) {g : Nat} (hadopted : (p.sessions g).adopted.isSome = true)
    (hdying : (p.sessions g).dying = true) :
    ∃ i : SttInput, i.isOwnOf g = true ∧ (p.step i).isSome = true := by
  have hg : g ≤ p.state.nextGeneration := by
    by_contra hno
    rw [h.kept.assigned.unspawned g (Nat.lt_of_not_le hno)] at hadopted
    cases hadopted
  have htask : ∀ event : TaskEvent, event.isOwn = true → event ≠ .disconnected →
      ((p.sessions g).step event).isSome = true →
      ∃ i : SttInput, i.isOwnOf g = true ∧ (p.step i).isSome = true := by
    intro event hown hconnected hstep
    refine ⟨.task g event, by rw [SttInput.isOwnOf, beq_self_eq_true, hown]; rfl, ?_⟩
    rw [MistralStt.step, if_pos ⟨h.timely.claimed g hadopted, hg,
      fun hno => absurd hno hconnected⟩, Option.isSome_map]
    exact hstep
  rw [Session.dying] at hdying
  split at hdying
  · next heq => exact htask .close rfl (by simp) (by simp [Session.step, heq])
  · next heq => exact htask .report rfl (by simp) (by simp [Session.step, heq])
  · cases hdying

/-! ## Runs without end -/

section

variable (r : Machine.Forever MistralStt.step p)

/-- Every session task keeps taking the steps it can take by itself. -/
def Fair : Prop := ∀ g, r.FairTo fun i => i.isOwnOf g = true

variable {r}

theorem booked_forever {n : Nat} (h : Booked (r.state n)) {m : Nat} (hnm : n ≤ m) :
    Booked (r.state m) :=
  r.keeps (fun _ _ _ _ hb hs => hb.step hs) hnm h

theorem released_forever {n m : Nat} (hnm : n ≤ m) :
    (r.state n).released ≤ (r.state m).released ∧
      (r.state n).state.lastTicket ≤ (r.state m).state.lastTicket :=
  r.keeps (I := fun q => (r.state n).released ≤ q.released ∧
      (r.state n).state.lastTicket ≤ q.state.lastTicket)
    (fun _ _ _ _ h hs => ⟨h.1.trans (dones_step hs).length_le,
      h.2.trans ((Nat.le_add_right _ _).trans_eq (lastTicket_step hs).symm)⟩) hnm ⟨le_rfl, le_rfl⟩

theorem waits_ends (hfair : Fair r) {n t : Nat} (h : Booked (r.state n))
    (hwaits : (r.state n).state.Waits t) : ∃ m, n ≤ m ∧ ¬ (r.state m).state.Waits t := by
  obtain ⟨g, howes⟩ := (h.kept.ledger.waits t).mp hwaits
  obtain ⟨htold, after, hadopted, rfl⟩ := owes_eq_some howes
  refine r.reaches (hfair g)
    (fun q => Booked q ∧ (q.sessions g).run.told = true ∧ (q.sessions g).adopted = some after)
    (fun q => ¬ q.state.Waits (after + 1)) (fun q => (q.sessions g).rank)
    (fun q i q' out hI _ hs => ?_) (fun q hI hno => ?_) ⟨h, htold, hadopted⟩
  · obtain ⟨hb, htold, hadopted⟩ := hI
    have hsettles := hb.settles hs g
    have hrank := hsettles.rank (.inl htold)
    refine .inr ⟨⟨hb.step hs, hsettles.told htold,
      (hsettles.adopted (by rw [hadopted]; rfl)).trans hadopted⟩,
      (Nat.le_add_right _ _).trans hrank, fun hown => ?_⟩
    rwa [hown] at hrank
  · exact hI.1.enabled hI.2.1 hI.2.2 (not_not.mp hno)

theorem released_reaches (hfair : Fair r) {n : Nat} (h : Booked (r.state n)) {k : Nat}
    (hk : k ≤ (r.state n).state.lastTicket) : ∃ m, n ≤ m ∧ k ≤ (r.state m).released := by
  induction k with
  | zero => exact ⟨n, le_rfl, Nat.zero_le _⟩
  | succ k ih =>
    obtain ⟨m, hnm, hm⟩ := ih (Nat.le_of_succ_le hk)
    by_cases hdone : k + 1 ≤ (r.state m).released
    · exact ⟨m, hnm, hdone⟩
    · have hexact : (r.state m).released = k := by omega
      have hless : ∀ m', m ≤ m' → k < (r.state m').state.lastTicket := fun m' hmm' =>
        hk.trans (released_forever (hnm.trans hmm')).2
      have hwaits := (booked_forever h hnm).waits (hexact ▸ hless m le_rfl)
      obtain ⟨m', hmm', hno⟩ := waits_ends hfair (booked_forever h hnm) hwaits
      refine ⟨m', hnm.trans hmm', ?_⟩
      by_contra hless'
      have hle := (released_forever (r := r) hmm').1
      have hexact' : (r.state m').released = k := by omega
      have hcontra := (booked_forever h (hnm.trans hmm')).waits (hexact' ▸ hless m' hmm')
      rw [hexact'] at hcontra
      rw [hexact] at hno
      exact hno hcontra

theorem reported_reaches (hfair : Fair r) {n g : Nat} (h : Booked (r.state n))
    (hadopted : ((r.state n).sessions g).adopted.isSome = true)
    (hdying : ((r.state n).sessions g).dying = true) :
    ∃ m, n ≤ m ∧ ((r.state m).sessions g).reported = true := by
  refine r.reaches (hfair g)
    (fun q => Booked q ∧ (q.sessions g).adopted.isSome = true ∧ (q.sessions g).dying = true)
    (fun q => (q.sessions g).reported = true) (fun q => (q.sessions g).rank)
    (fun q i q' out hI _ hs => ?_) (fun q hI _ => hI.1.dying hI.2.1 hI.2.2) ⟨h, hadopted, hdying⟩
  obtain ⟨hb, hadopted, hdying⟩ := hI
  have hsettles := hb.settles hs g
  have hrank := hsettles.rank (.inr hdying)
  rcases hsettles.dying hdying with hdying' | hreported
  · refine .inr ⟨⟨hb.step hs, by rw [hsettles.adopted hadopted]; exact hadopted, hdying'⟩,
      (Nat.le_add_right _ _).trans hrank, fun hown => ?_⟩
    rwa [hown] at hrank
  · exact .inl hreported

end

/-- Once the finalize before an utterance is answered, and its own if it was requested, its output
is in the queue. -/
theorem Booked.queued (h : Booked p) {g after : Nat}
    (hadopted : (p.sessions g).adopted = some after) (hbefore : after ≤ p.released)
    (hown : p.state.lastTicket ≤ after ∨ after < p.released) :
    (outputsOf p.log).countP (isFailureOf g) = (failed (p.sessions g)).toNat := by
  obtain ⟨-, hids, hlast⟩ := h.numbered
  have hid : ∀ slot ∈ p.state.tickets, p.released < slot.id ∧ slot.id ≤ p.state.lastTicket := by
    intro slot hslot
    have hmem := List.mem_map_of_mem (f := Slot.id) hslot
    rw [hids, List.mem_range'_1] at hmem
    omega
  have hutterance : ∀ o ∈ State.contents p.polled p.state, isFailureOf g o = true →
      o.utterance = after + 1 := by
    intro o ho hfailure
    have htag := h.tagged.contents o ho
    rw [isFailureOf, Bool.and_eq_true, beq_iff_eq] at hfailure
    rw [adoptions, hfailure.1, hadopted] at htag
    exact (Option.some.inj htag).symm
  have hheld : (p.state.held.map Prod.snd).countP (isFailureOf g) = 0 := by
    refine List.countP_eq_zero.mpr fun o ho hfailure => ?_
    have htag := hutterance o (State.mem_contents.mpr (.inr (.inl ho))) hfailure
    obtain ⟨x, hx, rfl⟩ := List.mem_map.mp ho
    rw [h.tagged.held x hx] at htag
    have hblocked := h.kept.ledger.ordered.held x hx
    cases htickets : p.state.tickets with
    | nil =>
      rw [htickets] at hblocked
      cases hblocked
    | cons slot slots =>
      have hfirst := (hid slot (by rw [htickets]; exact List.mem_cons_self)).1
      rw [htickets] at hblocked
      have hle : ¬ x.1 < slot.id := of_decide_eq_false hblocked
      omega
  have hslots : (State.answers p.state.tickets).countP (isFailureOf g) = 0 := by
    refine List.countP_eq_zero.mpr fun o ho hfailure => ?_
    have htag := hutterance o (State.mem_contents.mpr (.inr (.inr ho))) hfailure
    obtain ⟨slot, hslot, ho⟩ := State.mem_answers.mp ho
    rw [h.tagged.slots slot hslot o ho] at htag
    have hbounds := hid slot hslot
    omega
  have hall := h.kept.ledger.failures g
  rw [State.countP_contents, hheld, hslots] at hall
  exact hall

/-- Every finalize is answered once, in order, and every claimed session that fails yields one
error, in whatever way sessions fail and calls and tasks interleave. -/
theorem finalizes_answered {is : List SttInput} {os : List Output}
    (hr : Machine.run MistralStt.step started is = some (p, os)) :
    (∃ n, dones p.log = List.range' 1 n ∧ n ≤ is.count .requestFinalize) ∧
      (∀ g, (State.contents p.polled p.state).countP (isFailureOf g) =
        (failed (p.sessions g)).toNat) ∧
      ∀ r : Machine.Forever MistralStt.step p, Fair r →
        (∀ k, 1 ≤ k → k ≤ is.count .requestFinalize → ∃ m, k ∈ dones (r.state m).log) ∧
        ∀ g, (p.sessions g).adopted.isSome = true →
          (p.sessions g).dying = true ∨ (p.sessions g).reported = true →
          ∃ m, ∀ m', m ≤ m' →
            (outputsOf (r.state m').log).countP (isFailureOf g) = 1 := by
  obtain ⟨hbooked, hlast⟩ : Booked p ∧ p.state.lastTicket = is.count .requestFinalize := by
    refine Machine.run_history (C := fun _ _ => True)
      (I := fun is _ q => Booked q ∧ q.state.lastTicket = is.count .requestFinalize)
      (fun is os q i q' out hI _ hs => ?_) ⟨booked_started, rfl⟩
      (Machine.along_of_forall_mem (P := fun _ => True) (fun _ _ => trivial) _) hr
    exact ⟨hI.1.step hs, by rw [lastTicket_step hs, hI.2, List.count_append]⟩
  obtain ⟨hdones, -, hsum⟩ := hbooked.numbered
  refine ⟨⟨p.released, hdones, by omega⟩, hbooked.kept.ledger.failures, fun r hfair => ?_⟩
  have hstart : Booked (r.state 0) := by
    rw [r.first]
    exact hbooked
  refine ⟨fun k hpos hk => ?_, fun g hadopted hfails => ?_⟩
  · obtain ⟨m, hm, hle⟩ := released_reaches hfair hstart (k := k) (by rw [r.first]; omega)
    refine ⟨m, ?_⟩
    rw [(booked_forever hstart hm).numbered.1, List.mem_range'_1]
    omega
  · -- the report first, then the finalizes it may have to wait for
    obtain ⟨after, hafter⟩ := Option.isSome_iff_exists.mp hadopted
    have hadopted : ∀ m, ((r.state m).sessions g).adopted = some after := by
      intro m
      refine (r.keeps (I := fun q => Booked q ∧ (q.sessions g).adopted = some after)
        (fun q i q' out hI hs => ⟨hI.1.step hs, ?_⟩) (Nat.zero_le m)
        ⟨hstart, by rw [r.first]; exact hafter⟩).2
      exact ((hI.1.settles hs g).adopted (by rw [hI.2]; rfl)).trans hI.2
    obtain ⟨n, hreported⟩ : ∃ n, ((r.state n).sessions g).reported = true := by
      rcases hfails with hdying | hreported
      · obtain ⟨n, -, hn⟩ := reported_reaches (g := g) hfair hstart
          (by rw [hadopted]; rfl) (by rw [r.first]; exact hdying)
        exact ⟨n, hn⟩
      · exact ⟨0, by rw [r.first]; exact hreported⟩
    have hfailed : ∀ m, n ≤ m → failed ((r.state m).sessions g) = true := by
      intro m hnm
      rw [failed, hadopted, (r.keeps
        (I := fun q => Booked q ∧ (q.sessions g).reported = true)
        (fun q i q' out hI hs => ⟨hI.1.step hs, (hI.1.settles hs g).reported hI.2⟩) hnm
        ⟨booked_forever hstart (Nat.zero_le n), hreported⟩).2]
      rfl
    have hle : ∀ m, after ≤ (r.state m).state.lastTicket := fun m =>
      ((booked_forever hstart (Nat.zero_le m)).kept.assigned.adopted g after (hadopted m)).1
    obtain ⟨m, hnm, hm⟩ : ∃ m, n ≤ m ∧ ∀ m', m ≤ m' → after ≤ (r.state m').released ∧
        ((r.state m').state.lastTicket ≤ after ∨ after < (r.state m').released) := by
      by_cases hever : ∃ m, n ≤ m ∧ after + 1 ≤ (r.state m).state.lastTicket
      · obtain ⟨m, hnm, hmore⟩ := hever
        obtain ⟨m', hmm', hle⟩ :=
          released_reaches hfair (booked_forever hstart (Nat.zero_le m)) hmore
        refine ⟨m', hnm.trans hmm', fun l hl => ?_⟩
        have hlater := (released_forever (r := r) hl).1
        exact ⟨by omega, .inr (by omega)⟩
      · obtain ⟨m, hnm, hle'⟩ :=
          released_reaches hfair (booked_forever hstart (Nat.zero_le n)) (hle n)
        refine ⟨m, hnm, fun l hl => ⟨hle'.trans (released_forever (r := r) hl).1, .inl ?_⟩⟩
        by_contra hmore
        exact hever ⟨l, hnm.trans hl, by omega⟩
    refine ⟨m, fun m' hmm' => ?_⟩
    obtain ⟨hbefore, hown⟩ := hm m' hmm'
    rw [(booked_forever hstart (Nat.zero_le m')).queued (hadopted m') hbefore hown,
      hfailed m' (hnm.trans hmm')]
    rfl

/-! ## A refused connection -/

theorem step_finished {s : Session} (h : s.phase = .finished) (event : TaskEvent) :
    s.step event = none := by
  cases event <;> simp [Session.step, h]

def refused : List SttInput :=
  [.pushAudio [0, 0], .claimSession, .sendAudio, .requestFinalize, .task 1 (.openFailed "refused")]

def reported : List SttInput := [.task 1 .close, .task 1 .report, .poll, .poll]

def stateAfter (is : List SttInput) : MistralStt :=
  ((Machine.run MistralStt.step started is).map Prod.fst).getD started

def refusedForever : Machine.Forever MistralStt.step (stateAfter refused) where
  state n := stateAfter (refused ++ reported.take n)
  input n := reported.getD n .poll
  first := rfl
  next n :=
    match n with
    | 0 => ⟨_, rfl⟩
    | 1 => ⟨_, rfl⟩
    | 2 => ⟨_, rfl⟩
    | 3 => ⟨_, rfl⟩
    | 4 => ⟨_, rfl⟩
    | _ + 5 => ⟨_, rfl⟩

theorem fair_refusedForever : Fair refusedForever := by
  intro g n henabled
  obtain ⟨i, hown, hstep⟩ := henabled (n + 5) (Nat.le_add_right n 5)
  cases i with
  | task g' event =>
    rw [SttInput.isOwnOf, Bool.and_eq_true, beq_iff_eq] at hown
    obtain ⟨rfl, -⟩ := hown
    rw [MistralStt.step] at hstep
    split at hstep
    · next hguard =>
      obtain rfl : g' = 1 := le_antisymm hguard.2.1 hguard.1
      rw [step_finished rfl] at hstep
      cases hstep
    · cases hstep
  | _ => cases hown

theorem finalizes_answered_refused :
    (∃ m, 1 ∈ dones (refusedForever.state m).log) ∧
      ∃ m, ∀ m', m ≤ m' →
        (outputsOf (refusedForever.state m').log).countP (isFailureOf 1) = 1 := by
  have hrun : Machine.run MistralStt.step started refused = some (stateAfter refused, []) := rfl
  obtain ⟨hanswered, hreported⟩ :=
    (finalizes_answered hrun).2.2 refusedForever fair_refusedForever
  exact ⟨hanswered 1 le_rfl (by decide), hreported 1 rfl (.inl rfl)⟩

end NodeWebrtc.Vendors.Mistral.MistralStt
