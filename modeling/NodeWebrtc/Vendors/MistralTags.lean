import NodeWebrtc.Vendors.MistralSteps

/-! # Whose output waits where

Every output is of the utterance its session was claimed for. Output that is held has the finalize
before its utterance as its tag, and an answer waits in the slot of its own utterance.
-/

namespace NodeWebrtc.Vendors.Mistral

namespace State

variable {polled : List Entry} {s : State} {o : Output}

theorem mem_contents : o ∈ contents polled s ↔
    o ∈ outputsOf (polled ++ s.queue) ∨ o ∈ s.held.map Prod.snd ∨ o ∈ answers s.tickets := by
  rw [contents, List.mem_append, List.mem_append, or_assoc]

theorem mem_answers {slots : List Slot} :
    o ∈ answers slots ↔ ∃ slot ∈ slots, o ∈ slot.answer.getD [] :=
  List.mem_flatMap

theorem mem_iff_countP {outputs : List Output} : o ∈ outputs ↔ 0 < outputs.countP (· == o) :=
  List.count_pos_iff.symm

theorem mem_contents_flush : o ∈ contents polled s.flush ↔ o ∈ contents polled s := by
  rw [mem_iff_countP, mem_iff_countP, countP_contents_flush]

theorem mem_contents_emit {after : Nat} {x : Output} :
    x ∈ contents polled (s.emit after o) ↔ x ∈ contents polled s ∨ x = o := by
  rw [← List.mem_singleton, mem_iff_countP, mem_iff_countP, mem_iff_countP, countP_contents_emit]
  omega

theorem mem_contents_answer {ticket : Nat} {items : List Output}
    (h : o ∈ contents polled (s.answer ticket items)) : o ∈ contents polled s ∨ o ∈ items := by
  rw [State.answer] at h
  split at h
  · exact .inl h
  · next slots hset =>
    obtain ⟨front, slot, back, hsplit, -, hslots⟩ := setAnswer_eq_some hset
    rw [mem_contents_flush, mem_contents] at h
    rcases h with h | h | h
    · exact .inl (mem_contents.mpr (.inl h))
    · exact .inl (mem_contents.mpr (.inr (.inl h)))
    · change o ∈ answers slots at h
      rw [hslots, answers_append, answers_cons, List.mem_append, List.mem_append] at h
      have hin : o ∈ answers front ∨ o ∈ answers back → o ∈ contents polled s := by
        intro hparts
        refine mem_contents.mpr (.inr (.inr ?_))
        rw [hsplit, answers_append, answers_cons, List.mem_append, List.mem_append]
        exact hparts.imp_right .inr
      rcases h with h | h | h
      · exact .inl (hin (.inl h))
      · exact .inr h
      · exact .inl (hin (.inr h))

theorem mem_tickets_flush {slot : Slot} (h : slot ∈ s.flush.tickets) : slot ∈ s.tickets := by
  obtain ⟨front, hsplit, -⟩ := release_spec s.tickets
  rw [hsplit]
  exact List.mem_append_right front h

end State

/-- The sessions being claimed after the finalizes `adopted`. -/
structure Tagged (adopted : Nat → Option Nat) (polled : List Entry) (state : State) : Prop where
  contents : ∀ o ∈ State.contents polled state, (adopted o.session).map (· + 1) = some o.utterance
  held : ∀ h ∈ state.held, h.2.utterance = h.1 + 1
  slots : ∀ slot ∈ state.tickets, ∀ o ∈ slot.answer.getD [], o.utterance = slot.id

/-- An effect of the utterance that was claimed after a finalize. -/
def Effect.IsOf (after : Nat) : Effect → Prop
  | .emit tag _ => tag = after
  | .answer ticket _ => ticket = after + 1

namespace Tagged

variable {adopted adopted' : Nat → Option Nat} {polled : List Entry} {state : State}

section

variable (h : Tagged adopted polled state)
include h

theorem mono (hadopted : ∀ g, (adopted g).isSome = true → adopted' g = adopted g) :
    Tagged adopted' polled state := by
  refine ⟨fun o ho => ?_, h.held, h.slots⟩
  have hsome := h.contents o ho
  cases hcase : adopted o.session with
  | none =>
    rw [hcase] at hsome
    cases hsome
  | some after =>
    rw [hadopted _ (by rw [hcase]; rfl)]
    exact hsome

theorem emit {after : Nat} {o : Output} (hsession : adopted o.session = some after)
    (hutterance : o.utterance = after + 1) :
    Tagged adopted polled (state.emit after o) := by
  refine ⟨fun x hx => ?_, fun x hx => ?_, ?_⟩
  · rcases State.mem_contents_emit.mp hx with hx | rfl
    · exact h.contents x hx
    · rw [hsession, hutterance]
      rfl
  · rw [State.emit] at hx
    split at hx
    · exact h.held x hx
    · rcases List.mem_append.mp hx with hx | hx
      · exact h.held x hx
      · rw [List.mem_singleton.mp hx]
        exact hutterance
  · rw [State.emit]
    split <;> exact h.slots

theorem answer {ticket : Nat} {items : List Output}
    (hitems : ∀ o ∈ items, (adopted o.session).map (· + 1) = some o.utterance ∧
      o.utterance = ticket) : Tagged adopted polled (state.answer ticket items) := by
  refine ⟨fun o ho => ?_, ?_, ?_⟩
  · rcases State.mem_contents_answer ho with ho | ho
    · exact h.contents o ho
    · exact (hitems o ho).1
  · rw [State.answer]
    split
    · exact h.held
    · exact fun x hx => h.held x (List.mem_filter.mp hx).1
  · rw [State.answer]
    split
    · exact h.slots
    · next slots hset =>
      obtain ⟨front, slot, back, hsplit, hid, hslots⟩ := State.setAnswer_eq_some hset
      intro x hx o ho
      have hx : x ∈ slots := State.mem_tickets_flush hx
      rw [hslots, List.mem_append, List.mem_cons] at hx
      rcases hx with hx | rfl | hx
      · exact h.slots x (hsplit ▸ List.mem_append_left _ hx) o ho
      · exact (hitems o ho).2.trans hid.symm
      · exact h.slots x (hsplit ▸ List.mem_append_right _ (List.mem_cons_of_mem _ hx)) o ho

theorem registerTicket : Tagged adopted polled state.registerTicket := by
  refine ⟨fun o ho => h.contents o ?_, h.held, fun slot hslot => ?_⟩
  · rw [State.mem_iff_countP, State.countP_contents_registerTicket] at ho
    exact State.mem_iff_countP.mpr ho
  · rcases List.mem_append.mp hslot with hslot | hslot
    · exact h.slots slot hslot
    · rw [List.mem_singleton.mp hslot]
      exact fun o ho => absurd ho List.not_mem_nil

theorem applyEffect {g : Nat} {s : Session} {e : Effect}
    (hadopted : adopted g = some s.run.own.after) (he : e.IsOf s.run.own.after) :
    Tagged adopted polled (MistralStt.applyEffect g s state e) := by
  cases e with
  | emit after item =>
    have he : after = s.run.own.after := he
    exact h.emit (hadopted.trans (congrArg some he.symm)) (by rw [he])
  | answer ticket items =>
    have he : ticket = s.run.own.after + 1 := he
    refine h.answer fun o ho => ?_
    obtain ⟨item, -, rfl⟩ := List.mem_map.mp ho
    exact ⟨by rw [hadopted]; rfl, he.symm⟩

end

end Tagged

theorem Session.Writes.tags {s s' : Session} {es : List Effect} (h : Session.Writes s s' es)
    {e : Effect} (he : e ∈ es) :
    s.adopted = some s'.run.own.after ∧ e.IsOf s'.run.own.after := by
  cases h with
  | silent | unused => cases he
  | partialText after text hadopted hserving hafter | failed after message hadopted hafter =>
    rw [List.mem_singleton.mp he]
    exact ⟨hafter ▸ hadopted, hafter.symm⟩
  | done after items hadopted hafter | answered after message hadopted hafter =>
    rw [List.mem_singleton.mp he]
    exact ⟨hafter ▸ hadopted, congrArg (· + 1) hafter.symm⟩

theorem Tagged.applyEffects {adopted : Nat → Option Nat} {polled : List Entry} {state : State}
    (h : Tagged adopted polled state) {g : Nat} {s s' : Session} {es : List Effect}
    (hadopted : adopted g = s.adopted) (hwrites : Session.Writes s s' es) :
    Tagged adopted polled (es.foldl (MistralStt.applyEffect g s') state) := by
  have htags := fun e he => hwrites.tags (e := e) he
  clear hwrites
  induction es generalizing state with
  | nil => exact h
  | cons e es ih =>
    obtain ⟨hafter, he⟩ := htags e List.mem_cons_self
    exact ih (h.applyEffect (hadopted.trans hafter) he) fun e' he' =>
      htags e' (List.mem_cons_of_mem e he')

namespace MistralStt

variable {p : MistralStt}

/-- The finalizes after which the sessions were claimed. -/
def adoptions (p : MistralStt) (g : Nat) : Option Nat := (p.sessions g).adopted

theorem tagged_started : Tagged started.adoptions started.polled started.state := by
  refine ⟨fun _ ho => ?_, fun _ hh => ?_, fun _ hslot => ?_⟩
  · cases ho
  · cases hh
  · cases hslot

theorem tagged_step (h : Tagged p.adoptions p.polled p.state) (hk : Kept p) (ht : Timely p)
    {q : MistralStt} {i : SttInput} {out : List Output} (hs : p.step i = some (q, out)) :
    Tagged q.adoptions q.polled q.state := by
  refine Tagged.mono ?_ fun g => ((ht.step hk hs).2 g).adopted
  change Tagged p.adoptions q.polled q.state
  cases wrote_step hs with rw [hpolled, hstate]
  | nothing i hi spare nextGeneration hspare hpolled hstate =>
    exact ⟨h.contents, h.held, h.slots⟩
  | sent g hcurrent hopen hpolled hstate =>
    exact h.registerTicket
  | unsent hcurrent hpolled hstate =>
    exact h.registerTicket.answer fun _ ho => absurd ho List.not_mem_nil
  | polled entry queue hqueue hpolled hstate =>
    refine ⟨fun o ho => h.contents o ?_, h.held, h.slots⟩
    rw [State.contents] at ho ⊢
    rwa [hqueue, ← List.singleton_append, ← List.append_assoc]
  | discarded hpolled hstate =>
    refine ⟨fun o ho => h.contents o ?_, fun x hx => h.held x (List.mem_filter.mp hx).1, h.slots⟩
    rw [State.mem_contents] at ho ⊢
    rw [outputsOf_append, List.mem_append, outputsOf_discard, map_discard] at ho
    rw [outputsOf_append, List.mem_append]
    rcases ho with (ho | ho) | ho | ho
    · exact .inl (.inl ho)
    · exact .inl (.inr (List.mem_filter.mp ho).1)
    · exact .inr (.inl (List.mem_filter.mp ho).1)
    · exact .inr (.inr ho)
  | task g event s es hstep hpolled hstate =>
    exact h.applyEffects rfl ((hk.assigned.fits g).step hstep).writes

end MistralStt

end NodeWebrtc.Vendors.Mistral
