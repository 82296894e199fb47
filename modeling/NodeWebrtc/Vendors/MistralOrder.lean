import NodeWebrtc.Vendors.MistralFinalizes
import NodeWebrtc.Vendors.MistralPlaces

/-! # Output stays with its utterance

Held output is queued behind every answer that the same flush releases, and the error of a session
may come after the provider has answered its finalize for it. In the runs without such a step every
output is behind the finalize before its utterance and before its own.
-/

namespace NodeWebrtc.Vendors.Mistral.MistralStt

variable {p : MistralStt}

/-! ## The condition -/

/-- Output comes before the answer of its finalize, and an answer releases no finalize of which
there is output held. -/
def InTime (p : MistralStt) : Effect → Prop
  | .emit after _ => after + 1 ∉ dones p.log
  | .answer ticket _ => ∀ x ∈ p.state.held, ¬ Releases p.state.tickets ticket (x.1 + 1)

/-- The task writes in time, and so does the provider when it answers a finalize itself. -/
def Clean (p : MistralStt) : SttInput → Prop
  | .task generation event => ∀ s es, (p.sessions generation).step event = some (s, es) →
      ∀ e ∈ es, InTime p e
  | .requestFinalize => p.isClosed p.current = true → ∀ x ∈ p.state.held,
      ¬ Releases p.state.registerTicket.tickets (p.state.lastTicket + 1) (x.1 + 1)
  | _ => True

structure WithUtterance (inputs : List SttInput) (produced : List Output) (p : MistralStt) :
    Prop where
  placed : Placed p.log
  ordered : ∀ u, (transcripts u (outputsOf p.log)).Sublist (transcripts u produced)
  errors : ∀ u ∈ dones p.log,
    (outputsOf p.log).countP (isErrorOf u) = produced.countP (isErrorOf u)
  whole : .discardQueuedTranscripts ∉ inputs →
    ∀ u ∈ dones p.log, transcripts u (outputsOf p.log) = transcripts u produced

/-! ## What is kept -/

/-- What was put in, in the order in which it was produced. -/
structure Orderly (inputs : List SttInput) (produced : List Output) (p : MistralStt) : Prop where
  booked : Booked p
  placed : Placed p.log
  ordered : ∀ u, (State.line u p.polled p.state).Sublist (transcripts u produced)
  errors : ∀ u, (State.contents p.polled p.state).countP (isErrorOf u) =
    produced.countP (isErrorOf u)
  whole : .discardQueuedTranscripts ∉ inputs →
    ∀ u, State.line u p.polled p.state = transcripts u produced

theorem Booked.sorted (h : Booked p) : State.Sorted p.polled p.state := by
  refine ⟨h.kept.ledger.ordered, h.tagged.slots, fun x hx => ⟨h.tagged.held x hx, ?_⟩⟩
  have htag := h.tagged.contents x.2 (State.mem_contents.mpr (.inr (.inl (List.mem_map_of_mem hx))))
  rw [h.tagged.held x hx, Option.map_eq_some_iff] at htag
  obtain ⟨after, hadopted, heq⟩ := htag
  have hle := (h.kept.assigned.adopted _ after hadopted).1
  omega

theorem Booked.inLog (h : Booked p) {u : Nat} (hu : u ∈ dones p.log) :
    ∀ o ∈ p.state.held.map Prod.snd ++ State.answers p.state.tickets, o.utterance ≠ u := by
  obtain ⟨hdones, hids, hlast⟩ := h.numbered
  rw [hdones, List.mem_range'_1] at hu
  intro o ho
  rcases List.mem_append.mp ho with ho | ho
  · obtain ⟨x, hx, rfl⟩ := List.mem_map.mp ho
    have hblocked := h.kept.ledger.ordered.held x hx
    have hle := (h.sorted.held x hx).2
    have hnot : ¬ x.1 ≤ p.released := by
      rw [← State.unblocked_iff hids (by omega), hblocked]
      exact Bool.false_ne_true
    rw [h.tagged.held x hx]
    omega
  · obtain ⟨slot, hslot, ho⟩ := State.mem_answers.mp ho
    have hbounds := State.mem_range_of_ids hids hslot
    rw [h.tagged.slots slot hslot o ho]
    omega

variable {inputs : List SttInput} {produced : List Output}

theorem Orderly.withUtterance (h : Orderly inputs produced p) :
    WithUtterance inputs produced p := by
  have hin : ∀ {u}, u ∈ dones p.log →
      State.line u p.polled p.state = transcripts u (outputsOf p.log) := by
    intro u hu
    have hnone := h.booked.inLog hu
    rw [State.line, List.append_assoc, ← transcripts_append,
      transcripts_eq_nil fun o ho _ => hnone o ho, List.append_nil]
    rfl
  refine ⟨h.placed, fun u => ?_, fun u hu => ?_, fun hno u hu => ?_⟩
  · refine List.Sublist.trans ?_ (h.ordered u)
    rw [State.line, List.append_assoc]
    exact List.sublist_append_left _ _
  · have hnone := h.booked.inLog hu
    have hzero : (p.state.held.map Prod.snd ++ State.answers p.state.tickets).countP
        (isErrorOf u) = 0 := by
      refine List.countP_eq_zero.mpr fun o ho hmine => ?_
      rw [isErrorOf, Bool.and_eq_true, beq_iff_eq] at hmine
      exact hnone o ho hmine.1
    rw [← h.errors u, State.contents, List.append_assoc, List.countP_append, hzero]
    rfl
  · rw [← hin hu, h.whole hno u]

/-! ## The steps -/

/-- The places, the order and the errors after a write. -/
structure Follows (p : MistralStt) (state : State) (out : List Output) (clean : Prop) : Prop where
  placed : Placed (p.polled ++ state.queue) ↔ clean
  ordered : clean → ∀ u,
    State.line u p.polled state = State.line u p.polled p.state ++ transcripts u out
  errors : ∀ u, (State.contents p.polled state).countP (isErrorOf u) =
    (State.contents p.polled p.state).countP (isErrorOf u) + out.countP (isErrorOf u)

theorem Booked.emits (h : Booked p) (hplaced : Placed p.log) {after : Nat} {o : Output}
    (hlast : after ≤ p.state.lastTicket) (ho : o.utterance = after + 1)
    (hopen : o.item.isTranscript = true →
      ∀ slot ∈ p.state.tickets, slot.id = after + 1 → slot.answer = none) :
    Follows p (p.state.emit after o) [o] (after + 1 ∉ dones p.log) := by
  refine ⟨h.sorted.emit hplaced hlast ho, fun _ u => ?_,
    fun u => State.countP_contents_emit _ after o⟩
  refine State.line_emit u h.kept.ledger.ordered h.tagged.held ho fun htranscript => ?_
  refine transcripts_eq_nil fun x hx _ hsame => ?_
  obtain ⟨slot, hslot, hx⟩ := State.mem_answers.mp hx
  rw [h.tagged.slots slot hslot x hx] at hsame
  rw [hopen htranscript slot hslot hsame] at hx
  cases hx

theorem Booked.answers (h : Booked p) (hplaced : Placed p.log) {ticket : Nat}
    (hwaits : p.state.Waits ticket) {items : List Output}
    (hitems : ∀ o ∈ items, o.utterance = ticket) :
    Follows p (p.state.answer ticket items) items
      (∀ x ∈ p.state.held, ¬ Releases p.state.tickets ticket (x.1 + 1)) := by
  obtain ⟨hiff, hline⟩ := h.sorted.answer hplaced hwaits hitems
  refine ⟨hiff, hline, fun u => ?_⟩
  obtain ⟨slot, hslot, hid, hopen⟩ := hwaits
  refine State.countP_contents_answer _ items (hid ▸ List.mem_map_of_mem hslot) ?_
  intro other hother heq
  rw [List.inj_on_of_nodup_map h.kept.ledger.ordered.nodup hother hslot (heq.trans hid.symm)]
  exact hopen

theorem Booked.unanswered (h : Booked p) {g after : Nat}
    (hadopted : (p.sessions g).adopted = some after) (hserving : (p.sessions g).phase = .serving)
    {slot : Slot} (hslot : slot ∈ p.state.tickets) (hid : slot.id = after + 1) :
    slot.answer = none := by
  have hlistens : (p.sessions g).listens = true := by rw [Session.listens, hserving]
  cases htold : (p.sessions g).run.told with
  | true =>
    have howes : (p.sessions g).owes = some (after + 1) := by
      rw [Session.owes, Session.live_of_listens hlistens, htold, hadopted]
      rfl
    exact h.sorted.open_of_waits hslot (hid ▸ (h.kept.ledger.waits _).mpr ⟨g, howes⟩)
  | false =>
    -- the session in use, of the utterance whose finalize is not requested yet
    have hcurrent := h.kept.assigned.inUse g (by rw [hadopted]; rfl) htold
      ((h.kept.assigned.fits g).closed hlistens)
    have hlast := (h.kept.assigned.current g hcurrent).2.1
    rw [hadopted, Option.some.injEq] at hlast
    have hle := h.kept.ledger.ordered.mem_ids (List.mem_map_of_mem hslot)
    omega

theorem Booked.writes (h : Booked p) (hplaced : Placed p.log) {g : Nat} {s : Session}
    {es : List Effect} (hwrites : Session.Writes (p.sessions g) s es) :
    Follows p (es.foldl (applyEffect g s) p.state) (es.flatMap (outputs g s))
      (∀ e ∈ es, InTime p e) := by
  have hnothing : Follows p p.state [] (∀ e ∈ ([] : List Effect), InTime p e) :=
    ⟨iff_of_true hplaced fun _ hno => absurd hno List.not_mem_nil,
      fun _ u => (List.append_nil _).symm, fun u => rfl⟩
  have hlast : ∀ after, (p.sessions g).adopted = some after → after ≤ p.state.lastTicket :=
    fun after hadopted => (h.kept.assigned.adopted g after hadopted).1
  have hwaits : ∀ t, (p.sessions g).owes = some t → p.state.Waits t :=
    fun t howes => (h.kept.ledger.waits t).mpr ⟨g, howes⟩
  have hone : ∀ e : Effect, (∀ e' ∈ [e], InTime p e') ↔ InTime p e :=
    fun e => List.forall_mem_singleton
  cases hwrites with
  | silent | unused => exact hnothing
  | partialText after text hadopted hserving hafter =>
    rw [hone]
    refine h.emits hplaced (hlast after hadopted) (by rw [hafter]) fun _ slot hslot hid => ?_
    exact h.unanswered hadopted hserving hslot hid
  | failed after message hadopted hafter =>
    rw [hone]
    exact h.emits hplaced (hlast after hadopted) (by rw [hafter]) fun hno => by cases hno
  | done after items hadopted hafter howed | answered after message hadopted hafter howed =>
    rw [hone, List.flatMap_singleton]
    refine h.answers hplaced (hwaits _ howed) fun o ho => ?_
    obtain ⟨item, -, rfl⟩ := List.mem_map.mp ho
    exact congrArg (· + 1) hafter

theorem Orderly.follows (h : Orderly inputs produced p) {q : MistralStt} {i : SttInput}
    {out : List Output} (hs : p.step i = some (q, out)) (hpolled : q.polled = p.polled)
    (hfollows : Follows p q.state out (Clean p i)) :
    (WithUtterance (inputs ++ [i]) (produced ++ out) q ↔ Clean p i) ∧
      (Clean p i → Orderly (inputs ++ [i]) (produced ++ out) q) := by
  have hplaced : Placed q.log ↔ Clean p i := by
    rw [log, hpolled]
    exact hfollows.placed
  have horderly : Clean p i → Orderly (inputs ++ [i]) (produced ++ out) q := by
    intro hclean
    refine ⟨h.booked.step hs, hplaced.mpr hclean, fun u => ?_, fun u => ?_, fun hno u => ?_⟩
    · rw [hpolled, hfollows.ordered hclean u, transcripts_append]
      exact (h.ordered u).append_right _
    · rw [hpolled, hfollows.errors u, h.errors u, List.countP_append]
    · rw [hpolled, hfollows.ordered hclean u, transcripts_append,
        h.whole (fun hin => hno (List.mem_append_left _ hin)) u]
  exact ⟨⟨fun hw => hplaced.mp hw.placed, fun hclean => (horderly hclean).withUtterance⟩, horderly⟩

theorem Orderly.quiet (h : Orderly inputs produced p) {q : MistralStt} {i : SttInput}
    (hs : p.step i = some (q, [])) (hi : i.writes = false) (hplaced : Placed q.log)
    (hline : ∀ u, (State.line u q.polled q.state).Sublist (State.line u p.polled p.state) ∧
      (i ≠ .discardQueuedTranscripts →
        State.line u q.polled q.state = State.line u p.polled p.state))
    (herrors : ∀ u, (State.contents q.polled q.state).countP (isErrorOf u) =
      (State.contents p.polled p.state).countP (isErrorOf u)) :
    (WithUtterance (inputs ++ [i]) (produced ++ []) q ↔ Clean p i) ∧
      (Clean p i → Orderly (inputs ++ [i]) (produced ++ []) q) := by
  have hclean : Clean p i := by
    cases i with
    | task | requestFinalize => cases hi
    | _ => trivial
  have horderly : Orderly (inputs ++ [i]) (produced ++ []) q := by
    rw [List.append_nil]
    refine ⟨h.booked.step hs, hplaced, fun u => (hline u).1.trans (h.ordered u),
      fun u => (herrors u).trans (h.errors u), fun hno u => ?_⟩
    rw [List.mem_append, not_or, List.mem_singleton] at hno
    exact ((hline u).2 (Ne.symm hno.2)).trans (h.whole hno.1 u)
  exact ⟨iff_of_true horderly.withUtterance hclean, fun _ => horderly⟩

theorem placed_discard {polled queue : List Entry} (h : Placed (polled ++ queue)) :
    Placed (polled ++ queue.filter fun entry => !entry.isTranscript) := by
  induction queue generalizing polled with
  | nil => exact h
  | cons entry queue ih =>
    rw [List.filter_cons]
    split
    · rw [List.append_cons] at h ⊢
      exact ih h
    · next hdropped =>
      cases entry with
      | finalizeDone ticket => exact absurd rfl hdropped
      | output o =>
        refine ih ?_
        obtain ⟨hpolled, hrest⟩ := EachAfter.append_iff.mp h
        refine EachAfter.append_iff.mpr ⟨hpolled, ?_⟩
        have hqueue := (EachAfter.cons_iff.mp hrest).2
        refine hqueue.mono fun before e _ hplace o' he => ?_
        have hsame : dones (polled ++ .output o :: before) = dones (polled ++ before) := by
          rw [dones_append, dones_append]
          rfl
        rw [← hsame]
        exact hplace o' he

theorem line_discard (u : Nat) (polled : List Entry) (s : State) :
    (State.line u polled { s with
      queue := s.queue.filter fun entry => !entry.isTranscript
      held := s.held.filter fun h => !h.2.item.isTranscript }).Sublist (State.line u polled s) := by
  rw [State.line, State.line, outputsOf_append, outputsOf_append, transcripts_append,
    transcripts_append]
  rw [outputsOf_discard, transcripts_discard, map_discard, transcripts_discard]
  refine List.Sublist.append (List.Sublist.append ?_ (List.nil_sublist _)) (List.Sublist.refl _)
  exact List.Sublist.append (List.Sublist.refl _) (List.nil_sublist _)

theorem countP_discarded (u : Nat) (polled : List Entry) (s : State) :
    (State.contents polled { s with
      queue := s.queue.filter fun entry => !entry.isTranscript
      held := s.held.filter fun h => !h.2.item.isTranscript }).countP (isErrorOf u) =
      (State.contents polled s).countP (isErrorOf u) := by
  have hkept : ∀ outputs : List Output,
      (outputs.filter fun o => !o.item.isTranscript).countP (isErrorOf u) =
        outputs.countP (isErrorOf u) := by
    refine countP_discard fun o ho => ?_
    rw [isErrorOf, Bool.and_eq_true, Bool.not_eq_true'] at ho
    exact ho.2
  rw [State.countP_contents, State.countP_contents, outputsOf_append, outputsOf_append,
    List.countP_append, List.countP_append]
  rw [outputsOf_discard, map_discard, hkept, hkept]

theorem Orderly.step (h : Orderly inputs produced p) {q : MistralStt} {i : SttInput}
    {out : List Output} (hs : p.step i = some (q, out)) :
    (WithUtterance (inputs ++ [i]) (produced ++ out) q ↔ Clean p i) ∧
      (Clean p i → Orderly (inputs ++ [i]) (produced ++ out) q) := by
  cases wrote_step hs with
  | nothing i hi spare nextGeneration hspare hpolled hstate =>
    refine h.quiet hs hi ?_ (fun u => ?_) fun u => ?_
    · rw [log, hpolled, hstate]
      exact h.placed
    · rw [hpolled, hstate]
      exact ⟨List.Sublist.refl _, fun _ => rfl⟩
    · rw [hpolled, hstate]
      rfl
  | sent g hcurrent hopen hpolled hstate =>
    refine h.follows hs hpolled ?_
    have hclean : Clean p .requestFinalize := by
      intro hclosed
      rw [hcurrent, isClosed, hopen] at hclosed
      cases hclosed
    rw [hstate]
    refine ⟨iff_of_true h.placed hclean, fun _ u => ?_, fun u => ?_⟩
    · rw [State.line_registerTicket]
      exact (List.append_nil _).symm
    · exact State.countP_contents_registerTicket _
  | unsent hcurrent hpolled hstate =>
    refine h.follows hs hpolled ?_
    rw [hstate]
    have hclosed : p.isClosed p.current = true := by
      cases hcase : p.current with
      | none => rfl
      | some g => exact hcurrent g hcase
    have hsorted := h.booked.sorted.registerTicket
    have hwaits : p.state.registerTicket.Waits (p.state.lastTicket + 1) :=
      (State.waits_registerTicket _).mpr (.inr rfl)
    have hnone : ∀ o ∈ ([] : List Output), o.utterance = p.state.lastTicket + 1 :=
      fun _ hno => absurd hno List.not_mem_nil
    obtain ⟨hiff, hline⟩ := hsorted.answer h.placed hwaits hnone
    have hclean : Clean p .requestFinalize ↔ ∀ x ∈ p.state.held,
        ¬ Releases p.state.registerTicket.tickets (p.state.lastTicket + 1) (x.1 + 1) :=
      ⟨fun hc => hc hclosed, fun hc _ => hc⟩
    refine ⟨hiff.trans hclean.symm, fun hc u => ?_, fun u => ?_⟩
    · refine (hline (hclean.mp hc) u).trans ?_
      rw [State.line_registerTicket]
    · refine Eq.trans ?_ (State.countP_contents_registerTicket _)
      obtain ⟨slot, hslot, hid, hopen⟩ := hwaits
      refine State.countP_contents_answer _ [] (hid ▸ List.mem_map_of_mem hslot) ?_
      intro other hother heq
      rw [List.inj_on_of_nodup_map hsorted.ordered.nodup hother hslot (heq.trans hid.symm)]
      exact hopen
  | polled entry queue hqueue hpolled hstate =>
    have hlog : q.polled ++ q.state.queue = p.polled ++ p.state.queue := by
      rw [hpolled, hstate, hqueue, List.append_assoc]
      rfl
    refine h.quiet hs rfl ?_ (fun u => ?_) fun u => ?_
    · rw [log, hlog]
      exact h.placed
    · rw [State.line, State.line, hlog, hstate]
      exact ⟨List.Sublist.refl _, fun _ => rfl⟩
    · rw [State.contents, State.contents, hlog, hstate]
  | discarded hpolled hstate =>
    refine h.quiet hs rfl ?_ (fun u => ?_) fun u => ?_
    · rw [log, hpolled, hstate]
      exact placed_discard h.placed
    · rw [hpolled, hstate]
      exact ⟨line_discard u p.polled p.state, fun hno => absurd rfl hno⟩
    · rw [hpolled, hstate]
      exact countP_discarded u p.polled p.state
  | task g event s es hstep hpolled hstate =>
    refine h.follows hs hpolled ?_
    have hfollows := h.booked.writes h.placed ((h.booked.kept.assigned.fits g).step hstep).writes
    have hclean : Clean p (.task g event) ↔ ∀ e ∈ es, InTime p e := by
      refine ⟨fun hc => hc s es hstep, fun hc s' es' hstep' => ?_⟩
      rw [hstep, Option.some.injEq, Prod.mk.injEq] at hstep'
      rw [← hstep'.2]
      exact hc
    rw [hstate]
    exact ⟨hfollows.placed.trans hclean.symm, fun hc => hfollows.ordered (hclean.mp hc),
      hfollows.errors⟩

theorem orderly_started : Orderly [] [] started :=
  ⟨booked_started, placed_nil, fun _ => List.Sublist.refl _, fun _ => rfl, fun _ _ => rfl⟩

/-- Output is with its utterance all through a run exactly when every step writes in time. -/
theorem withUtterance_iff_clean {is : List SttInput} {os : List Output}
    (hr : Machine.run MistralStt.step started is = some (p, os)) :
    (∀ pre q qs, pre <+: is → Machine.run MistralStt.step started pre = some (q, qs) →
      WithUtterance pre qs q) ↔ Machine.Along MistralStt.step Clean started is := by
  refine Machine.history_iff_of_run (J := Orderly) (P := WithUtterance)
    (fun past outs s i t out h hs => h.step hs) [] [] orderly_started ?_ hr
  exact orderly_started.withUtterance

theorem withUtterance_iff_clean_refused : WithUtterance refused [] (stateAfter refused) := by
  have hrun : Machine.run MistralStt.step started refused = some (stateAfter refused, []) := rfl
  refine (withUtterance_iff_clean hrun).mpr ?_ refused _ _ (List.prefix_refl refused) hrun
  refine .cons trivial rfl (.cons trivial rfl (.cons trivial rfl (.cons ?_ rfl (.cons ?_ rfl ?_))))
  · intro hclosed
    cases hclosed
  · intro s es hs e he
    cases hs
    cases he
  · trivial

/-- The second utterance is over before the first is answered. -/
def overtaken : List SttInput :=
  [.pushAudio [1, 0], .claimSession, .sendAudio, .requestFinalize,
    .pushAudio [2, 0], .claimSession, .sendAudio,
    .task 2 (.opened none), .task 2 (.command none), .task 2 (.command none),
    .task 2 (.event (.delta "two")), .requestFinalize,
    .task 2 (.command none), .task 2 (.event (.done none)),
    .task 1 (.opened none), .task 1 (.command none), .task 1 (.command none),
    .task 1 (.command none), .task 1 (.event (.done (some "one")))]

/-- The partial of the second utterance is queued behind its `FinalizeDone`. -/
theorem partial_behind_finalizeDone : ∃ p os,
    Machine.run MistralStt.step started overtaken = some (p, os) ∧
      p.log = [.output ⟨1, 1, .finalText "one"⟩, .finalizeDone 1,
        .output ⟨2, 2, .finalText "two"⟩, .finalizeDone 2, .output ⟨2, 2, .partialText "two"⟩] ∧
      ¬ WithUtterance overtaken os p := by
  have hlog : (stateAfter overtaken).log = [.output ⟨1, 1, .finalText "one"⟩, .finalizeDone 1,
      .output ⟨2, 2, .finalText "two"⟩, .finalizeDone 2,
      .output ⟨2, 2, .partialText "two"⟩] := by decide
  refine ⟨stateAfter overtaken, [⟨2, 2, .partialText "two"⟩, ⟨2, 2, .finalText "two"⟩,
    ⟨1, 1, .finalText "one"⟩], rfl, hlog, fun h => ?_⟩
  have hplace := h.placed [.output ⟨1, 1, .finalText "one"⟩, .finalizeDone 1,
    .output ⟨2, 2, .finalText "two"⟩, .finalizeDone 2] _ [] hlog _ rfl
  revert hplace
  decide

end NodeWebrtc.Vendors.Mistral.MistralStt
