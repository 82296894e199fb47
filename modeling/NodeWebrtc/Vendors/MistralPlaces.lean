import NodeWebrtc.Lib.Trace
import NodeWebrtc.Vendors.MistralTags

/-! # Where output is queued

An output is in its place between the answers of the finalize before its utterance and of its own.
`flush` queues what was held behind all the answers it releases, so it keeps the places exactly
when nothing that is held belongs before one of them.
-/

namespace NodeWebrtc.Vendors.Mistral

/-- Every output of the utterance that finalize `k` closes is behind `FinalizeDone` `k - 1` and
before `FinalizeDone` `k`. -/
def Placed (entries : List Entry) : Prop :=
  EachAfter (fun before e => ∀ o, e = .output o → o.utterance = (dones before).length + 1) entries

def transcripts (u : Nat) (outputs : List Output) : List Output :=
  outputs.filter fun o => o.utterance == u && o.item.isTranscript

def isErrorOf (u : Nat) (o : Output) : Bool := o.utterance == u && !o.item.isTranscript

/-- The answer of `ticket` would release finalize `id`: nothing up to it waits for another one. -/
def Releases (tickets : List Slot) (ticket id : Nat) : Prop :=
  (∃ slot ∈ tickets, slot.id = id) ∧
    ∀ slot ∈ tickets, slot.id ≤ id → slot.answer.isSome = true ∨ slot.id = ticket

/-! ## Placed outputs -/

theorem placed_nil : Placed [] := EachAfter.nil

theorem placed_append_outputs {entries : List Entry} (h : Placed entries) (outputs : List Output) :
    Placed (entries ++ outputs.map .output) ↔
      ∀ o ∈ outputs, o.utterance = (dones entries).length + 1 := by
  induction outputs generalizing entries with
  | nil => simpa using h
  | cons o outputs ih =>
    have hone : Placed (entries ++ [.output o]) ↔ o.utterance = (dones entries).length + 1 := by
      rw [Placed, EachAfter.append_iff, EachAfter.cons_iff, List.append_nil]
      constructor
      · exact fun hall => hall.2.1 o rfl
      · exact fun ho => ⟨h, fun x hx => by cases hx; exact ho, EachAfter.nil⟩
    have hdones : dones (entries ++ [.output o]) = dones entries := by
      rw [dones_append]
      exact List.append_nil _
    rw [List.map_cons, List.append_cons, List.forall_mem_cons]
    constructor
    · intro hall
      have ho : Placed (entries ++ [.output o]) := (EachAfter.append_iff.mp hall).1
      have hrest := (ih ho).mp hall
      rw [hdones] at hrest
      exact ⟨hone.mp ho, hrest⟩
    · rintro ⟨ho, hrest⟩
      refine (ih (hone.mpr ho)).mpr ?_
      rwa [hdones]

theorem placed_released {slots : List Slot} {entries : List Entry} (h : Placed entries)
    (hids : slots.map Slot.id = List.range' ((dones entries).length + 1) slots.length)
    (hslots : ∀ slot ∈ slots, ∀ o ∈ slot.answer.getD [], o.utterance = slot.id) :
    Placed (entries ++ slots.flatMap State.released) := by
  induction slots generalizing entries with
  | nil => rwa [List.flatMap_nil, List.append_nil]
  | cons slot slots ih =>
    rw [List.map_cons, List.length_cons, List.range'_succ] at hids
    obtain ⟨hid, hids⟩ := List.cons.inj hids
    have hanswer : Placed (entries ++ (slot.answer.getD []).map .output) :=
      (placed_append_outputs h _).mpr fun o ho => (hslots slot List.mem_cons_self o ho).trans hid
    have hreleased : Placed (entries ++ State.released slot) := by
      rw [State.released, ← List.append_assoc]
      exact EachAfter.snoc hanswer fun o ho => by cases ho
    have hdones : (dones (entries ++ State.released slot)).length =
        (dones entries).length + 1 := by
      rw [State.released, dones_append, dones_append, dones_map_output, List.nil_append,
        List.length_append]
      rfl
    rw [List.flatMap_cons, ← List.append_assoc]
    refine ih hreleased ?_ fun s hs => hslots s (List.mem_cons_of_mem slot hs)
    rw [hdones]
    exact hids

/-! ## The transcripts of an utterance -/

@[simp] theorem transcripts_append (u : Nat) (front back : List Output) :
    transcripts u (front ++ back) = transcripts u front ++ transcripts u back :=
  List.filter_append _ _

theorem transcripts_eq_nil {u : Nat} {outputs : List Output}
    (h : ∀ o ∈ outputs, o.item.isTranscript = true → o.utterance ≠ u) :
    transcripts u outputs = [] := by
  refine List.filter_eq_nil_iff.mpr fun o ho hboth => ?_
  rw [Bool.and_eq_true, beq_iff_eq] at hboth
  exact h o ho hboth.2 hboth.1

theorem transcripts_discard (u : Nat) (outputs : List Output) :
    transcripts u (outputs.filter fun o => !o.item.isTranscript) = [] :=
  transcripts_eq_nil fun o ho hyes => by
    have hno := (List.mem_filter.mp ho).2
    rw [hyes] at hno
    cases hno

namespace State

/-- The transcripts of an utterance that were put in and not discarded, as they will be queued. -/
def line (u : Nat) (polled : List Entry) (s : State) : List Output :=
  transcripts u (outputsOf (polled ++ s.queue)) ++ transcripts u (s.held.map Prod.snd) ++
    transcripts u (answers s.tickets)

variable {polled : List Entry} {s : State}

theorem line_emit (u : Nat) (h : Ordered polled s) (hheld : ∀ x ∈ s.held, x.2.utterance = x.1 + 1)
    {after : Nat} {o : Output} (ho : o.utterance = after + 1)
    (hopen : o.item.isTranscript = true → transcripts (after + 1) (answers s.tickets) = []) :
    line u polled (s.emit after o) = line u polled s ++ transcripts u [o] := by
  by_cases hmine : o.utterance = u ∧ o.item.isTranscript = true
  · obtain ⟨rfl, htranscript⟩ := hmine
    have hanswers := hopen htranscript
    rw [← ho] at hanswers
    rw [line, line, State.emit]
    split
    · next hfree =>
      have hnil : transcripts o.utterance (s.held.map Prod.snd) = [] := by
        refine transcripts_eq_nil fun x hx _ hsame => ?_
        obtain ⟨y, hy, rfl⟩ := List.mem_map.mp hx
        rw [hheld y hy, ho] at hsame
        have hblocked := h.held y hy
        rw [Nat.succ.inj hsame, hfree] at hblocked
        cases hblocked
      change transcripts _ (outputsOf (polled ++ (s.queue ++ [.output o]))) ++ _ ++ _ = _
      rw [← List.append_assoc polled, outputsOf_append, transcripts_append, hnil, hanswers]
      simp only [List.append_nil]
      rfl
    · change _ ++ transcripts _ ((s.held ++ [(after, o)]).map Prod.snd) ++ _ = _
      rw [List.map_append, transcripts_append, hanswers]
      simp only [List.append_nil, List.append_assoc]
      rfl
  · have hnone : transcripts u [o] = [] :=
      transcripts_eq_nil fun x hx hyes hsame => hmine (by
        rw [List.mem_singleton.mp hx] at hyes hsame
        exact ⟨hsame, hyes⟩)
    rw [hnone, List.append_nil, line, line, State.emit]
    split
    · change transcripts _ (outputsOf (polled ++ (s.queue ++ [.output o]))) ++ _ ++ _ = _
      rw [← List.append_assoc polled, outputsOf_append, transcripts_append,
        show outputsOf [.output o] = [o] from rfl, hnone, List.append_nil]
    · change _ ++ transcripts _ ((s.held ++ [(after, o)]).map Prod.snd) ++ _ = _
      rw [List.map_append, transcripts_append, show [(after, o)].map Prod.snd = [o] from rfl, hnone,
        List.append_nil]

theorem flush_parts {n : Nat} (hids : s.tickets.map Slot.id = List.range' (n + 1) s.tickets.length) :
    ∃ front, s.tickets = front ++ s.flush.tickets ∧
      s.flush.queue = s.queue ++ front.flatMap released ++
        ((s.held.filter fun h => unblocked s.flush.tickets h.1).map Prod.snd).map .output ∧
      front.map Slot.id = List.range' (n + 1) front.length ∧
      s.flush.tickets.map Slot.id =
        List.range' (n + front.length + 1) s.flush.tickets.length ∧
      (∀ slot ∈ front, slot.answer.isSome = true) ∧
      ∀ slot, s.flush.tickets.head? = some slot → slot.answer = none := by
  obtain ⟨front, hsplit, hanswered, hentries, hhead⟩ := release_spec s.tickets
  have hparts := hids
  rw [hsplit, List.map_append, List.length_append, ← List.range'_append_1] at hparts
  obtain ⟨hfront, hback⟩ := List.append_inj hparts (by simp)
  refine ⟨front, hsplit, ?_, hfront, ?_, hanswered, hhead⟩
  · rw [flush, hentries]
  · rw [show n + front.length + 1 = n + 1 + front.length by omega]
    exact hback

theorem mem_range_of_ids {slots : List Slot} {n : Nat}
    (hids : slots.map Slot.id = List.range' (n + 1) slots.length) {slot : Slot}
    (hslot : slot ∈ slots) : n + 1 ≤ slot.id ∧ slot.id ≤ n + slots.length := by
  have hmem := List.mem_map_of_mem (f := Slot.id) hslot
  rw [hids, List.mem_range'_1] at hmem
  omega

theorem unblocked_iff {slots : List Slot} {n after : Nat}
    (hids : slots.map Slot.id = List.range' (n + 1) slots.length)
    (hlast : after ≤ n + slots.length) : unblocked slots after = true ↔ after ≤ n := by
  cases slots with
  | nil => exact ⟨fun _ => hlast, fun _ => rfl⟩
  | cons slot slots =>
    rw [List.map_cons, List.length_cons, List.range'_succ] at hids
    rw [unblocked, decide_eq_true_iff, (List.cons.inj hids).1]
    exact Nat.lt_succ_iff

theorem placed_emit (h : Placed (polled ++ s.queue)) {n : Nat}
    (hdones : dones (polled ++ s.queue) = List.range' 1 n)
    (hids : s.tickets.map Slot.id = List.range' (n + 1) s.tickets.length) {after : Nat} {o : Output}
    (hlast : after ≤ n + s.tickets.length) (ho : o.utterance = after + 1) :
    Placed (polled ++ (s.emit after o).queue) ↔ after + 1 ∉ dones (polled ++ s.queue) := by
  rw [hdones, List.mem_range'_1, State.emit]
  split
  · next hfree =>
    rw [unblocked_iff hids hlast] at hfree
    change Placed (polled ++ (s.queue ++ [o].map .output)) ↔ _
    rw [← List.append_assoc, placed_append_outputs h, List.forall_mem_singleton, ho, hdones,
      List.length_range']
    omega
  · next hblocked =>
    rw [unblocked_iff hids hlast] at hblocked
    exact ⟨fun _ => by omega, fun _ => h⟩

theorem placed_flush (h : Placed (polled ++ s.queue)) {n : Nat}
    (hdones : dones (polled ++ s.queue) = List.range' 1 n)
    (hids : s.tickets.map Slot.id = List.range' (n + 1) s.tickets.length)
    (hslots : ∀ slot ∈ s.tickets, ∀ o ∈ slot.answer.getD [], o.utterance = slot.id)
    (hheld : ∀ x ∈ s.held, x.2.utterance = x.1 + 1 ∧ x.1 ≤ n + s.tickets.length) :
    Placed (polled ++ s.flush.queue) ↔
      ∀ x ∈ s.held, n + s.tickets.length ≤ x.1 + s.flush.tickets.length := by
  obtain ⟨front, hsplit, hqueue, hfront, hback, -, -⟩ := flush_parts hids
  have hlength : s.tickets.length = front.length + s.flush.tickets.length := by
    rw [hsplit, List.length_append]
  have hreleased : Placed (polled ++ s.queue ++ front.flatMap released) := by
    refine placed_released h ?_ fun slot hslot => hslots slot ?_
    · rw [hdones, List.length_range']
      exact hfront
    · rw [hsplit]
      exact List.mem_append_left _ hslot
  have hcount : (dones (polled ++ s.queue ++ front.flatMap released)).length = n + front.length := by
    rw [dones_append, hdones, dones_released, List.length_append, List.length_range',
      List.length_map]
  have hfree : ∀ x ∈ s.held, unblocked s.flush.tickets x.1 = true ↔ x.1 ≤ n + front.length :=
    fun x hx => unblocked_iff hback (by have hle := (hheld x hx).2; omega)
  rw [hqueue, ← List.append_assoc, ← List.append_assoc, placed_append_outputs hreleased, hcount]
  constructor
  · intro hall x hx
    by_cases hle : x.1 ≤ n + front.length
    · have hplace := hall x.2 (List.mem_map_of_mem
        (List.mem_filter.mpr ⟨hx, (hfree x hx).mpr hle⟩))
      rw [(hheld x hx).1] at hplace
      omega
    · omega
  · intro hall o ho
    obtain ⟨x, hx, rfl⟩ := List.mem_map.mp ho
    obtain ⟨hx, hunblocked⟩ := List.mem_filter.mp hx
    have hle := (hfree x hx).mp hunblocked
    have hge := hall x hx
    rw [(hheld x hx).1]
    omega

theorem transcripts_held (u : Nat) {held : List (Nat × Output)}
    (hheld : ∀ x ∈ held, x.2.utterance = x.1 + 1) (free : Nat → Bool) :
    transcripts u ((held.filter fun h => free h.1).map Prod.snd) ++
        transcripts u ((held.filter fun h => !free h.1).map Prod.snd) =
      transcripts u (held.map Prod.snd) := by
  have hall : ∀ free : Nat × Output → Bool, (∀ x ∈ held, x.2.utterance = u → free x = true) →
      transcripts u ((held.filter free).map Prod.snd) = transcripts u (held.map Prod.snd) := by
    intro free hfree
    rw [transcripts, transcripts, List.filter_map, List.filter_map, List.filter_filter]
    congr 1
    refine List.filter_congr fun x hx => ?_
    by_cases hmine : x.2.utterance = u
    · simp [hfree x hx hmine]
    · simp [hmine]
  have hnone : ∀ free : Nat × Output → Bool, (∀ x ∈ held, x.2.utterance = u → free x = false) →
      transcripts u ((held.filter free).map Prod.snd) = [] := by
    intro free hfree
    refine transcripts_eq_nil fun o ho _ hsame => ?_
    obtain ⟨x, hx, rfl⟩ := List.mem_map.mp ho
    obtain ⟨hx, hyes⟩ := List.mem_filter.mp hx
    rw [hfree x hx hsame] at hyes
    cases hyes
  have htag : ∀ x ∈ held, x.2.utterance = u → x.1 = u - 1 := by
    intro x hx hsame
    rw [hheld x hx] at hsame
    omega
  cases hfree : free (u - 1) with
  | true =>
    rw [hall _ fun x hx hmine => by rw [htag x hx hmine, hfree],
      hnone _ fun x hx hmine => by rw [htag x hx hmine, hfree]; rfl, List.append_nil]
  | false =>
    rw [hnone _ fun x hx hmine => by rw [htag x hx hmine, hfree],
      hall _ fun x hx hmine => by rw [htag x hx hmine, hfree]; rfl, List.nil_append]

theorem line_flush (u : Nat) {n : Nat}
    (hids : s.tickets.map Slot.id = List.range' (n + 1) s.tickets.length)
    (hslots : ∀ slot ∈ s.tickets, ∀ o ∈ slot.answer.getD [], o.utterance = slot.id)
    (hheld : ∀ x ∈ s.held, x.2.utterance = x.1 + 1)
    (hclean : ∀ x ∈ s.held, n + s.tickets.length ≤ x.1 + s.flush.tickets.length) :
    line u polled s.flush = line u polled s := by
  obtain ⟨front, hsplit, hqueue, hfront, hback, -, -⟩ := flush_parts hids
  have hlength : s.tickets.length = front.length + s.flush.tickets.length := by
    rw [hsplit, List.length_append]
  have hanswers : answers s.tickets = answers front ++ answers s.flush.tickets := by
    rw [← answers_append, ← hsplit]
  have hnotOf : ∀ {slots : List Slot}, (∀ slot ∈ slots, slot ∈ s.tickets ∧ slot.id ≠ u) →
      transcripts u (answers slots) = [] := by
    intro slots hall
    refine transcripts_eq_nil fun o ho _ hsame => ?_
    obtain ⟨slot, hslot, ho⟩ := mem_answers.mp ho
    obtain ⟨hmem, hne⟩ := hall slot hslot
    exact hne ((hslots slot hmem o ho).symm.trans hsame)
  have hmemFront : ∀ slot ∈ front, slot ∈ s.tickets := by
    intro slot hslot
    rw [hsplit]
    exact List.mem_append_left _ hslot
  have hmemBack : ∀ slot ∈ s.flush.tickets, slot ∈ s.tickets := fun slot => mem_tickets_flush
  have hqueued : transcripts u (outputsOf (polled ++ s.flush.queue)) =
      transcripts u (outputsOf (polled ++ s.queue)) ++ transcripts u (answers front) ++
        transcripts u ((s.held.filter fun h => unblocked s.flush.tickets h.1).map Prod.snd) := by
    rw [hqueue, ← List.append_assoc, ← List.append_assoc, outputsOf_append, outputsOf_append,
      outputsOf_released, outputsOf_map_output, transcripts_append, transcripts_append]
  have hkept : s.flush.held = s.held.filter fun h => !unblocked s.flush.tickets h.1 := rfl
  rw [line, line, hqueued, hkept, hanswers, transcripts_append]
  by_cases hu : u ≤ n + front.length
  · have hnone : ∀ held : List (Nat × Output), (∀ x ∈ held, x ∈ s.held) →
        transcripts u (held.map Prod.snd) = [] := by
      intro held hall
      refine transcripts_eq_nil fun o ho _ hsame => ?_
      obtain ⟨x, hx, rfl⟩ := List.mem_map.mp ho
      have hge := hclean x (hall x hx)
      rw [hheld x (hall x hx)] at hsame
      omega
    rw [hnone _ fun x hx => (List.mem_filter.mp hx).1, hnone _ fun x hx => (List.mem_filter.mp hx).1,
      hnone _ fun _ hx => hx, hnotOf fun slot hslot => ⟨hmemBack slot hslot, ?_⟩]
    · simp only [List.append_nil]
    · have hbounds := mem_range_of_ids hback hslot
      omega
  · have hnil : transcripts u (answers front) = [] := by
      refine hnotOf fun slot hslot => ⟨hmemFront slot hslot, ?_⟩
      have hbounds := mem_range_of_ids hfront hslot
      omega
    rw [hnil, List.append_nil, List.nil_append,
      ← transcripts_held u hheld (unblocked s.flush.tickets)]
    simp only [List.append_assoc]

/-! ## An answer -/

theorem setAnswer_ids {ticket : Nat} {items : List Output} {tickets slots : List Slot}
    (hset : setAnswer ticket items tickets = some slots) :
    slots.map Slot.id = tickets.map Slot.id ∧ slots.length = tickets.length := by
  obtain ⟨before, slot, back, rfl, -, rfl⟩ := setAnswer_eq_some hset
  simp

theorem releases_iff {n ticket id : Nat} {items : List Output}
    (hids : s.tickets.map Slot.id = List.range' (n + 1) s.tickets.length)
    (hticket : ticket ∈ s.tickets.map Slot.id) :
    Releases s.tickets ticket id ↔
      n < id ∧ id + (s.answer ticket items).tickets.length ≤ n + s.tickets.length := by
  rw [State.answer]
  cases hset : setAnswer ticket items s.tickets with
  | none => exact absurd hticket (setAnswer_eq_none.mp hset)
  | some slots =>
    obtain ⟨before, slot, back, hsplit, hid, hslots⟩ := setAnswer_eq_some hset
    have hsame := setAnswer_ids hset
    have hids' : slots.map Slot.id = List.range' (n + 1) slots.length := by
      rw [hsame.1, hsame.2, hids]
    obtain ⟨front, hparts, -, hfront, hback, hanswered, hhead⟩ :=
      flush_parts (s := { s with tickets := slots }) hids'
    change slots = front ++ _ at hparts
    generalize ({ s with tickets := slots } : State).flush.tickets = rest at hparts hback hhead ⊢
    have hlength : s.tickets.length = front.length + rest.length := by
      rw [← hsame.2, hparts, List.length_append]
    constructor
    · rintro ⟨⟨found, hfound, rfl⟩, hall⟩
      have hbounds := mem_range_of_ids hids hfound
      refine ⟨by omega, ?_⟩
      by_contra hmore
      -- the first slot left has no answer, and is not the ticket's
      cases rest with
      | nil =>
        rw [List.length_nil] at hmore hlength
        omega
      | cons first rest =>
        have hopen := hhead first rfl
        have hmem : first ∈ slots := hparts ▸ List.mem_append_right front List.mem_cons_self
        have hfirst : first ∈ s.tickets ∧ first.id ≠ ticket := by
          have hnodup : (slots.map Slot.id).Nodup := by
            rw [hids']
            exact List.nodup_range'
          have hanswered : first.id ≠ ticket := by
            intro heq
            have hin : ({ slot with answer := some items } : Slot) ∈ slots := by
              rw [hslots]
              exact List.mem_append_right _ List.mem_cons_self
            have hsame := List.inj_on_of_nodup_map hnodup hmem hin (heq.trans hid.symm)
            rw [hsame] at hopen
            cases hopen
          refine ⟨?_, hanswered⟩
          rw [hslots, List.mem_append, List.mem_cons] at hmem
          rw [hsplit, List.mem_append, List.mem_cons]
          rcases hmem with hmem | rfl | hmem
          · exact .inl hmem
          · exact absurd hid hanswered
          · exact .inr (.inr hmem)
        rw [List.map_cons, List.length_cons, List.range'_succ] at hback
        rw [List.length_cons] at hmore hlength
        rcases hall first hfirst.1 (by rw [(List.cons.inj hback).1]; omega) with hsome | heq
        · rw [hopen] at hsome
          cases hsome
        · exact hfirst.2 heq
    · rintro ⟨hless, hle⟩
      have hmem : id ∈ s.tickets.map Slot.id := by
        rw [hids, List.mem_range'_1]
        omega
      refine ⟨by simpa using hmem, fun earlier hearlier hup => ?_⟩
      by_cases heq : earlier.id = ticket
      · exact .inr heq
      · refine .inl ?_
        have hin : earlier ∈ slots := by
          rw [hsplit, List.mem_append, List.mem_cons] at hearlier
          rw [hslots, List.mem_append, List.mem_cons]
          rcases hearlier with hmem | rfl | hmem
          · exact .inl hmem
          · exact absurd hid heq
          · exact .inr (.inr hmem)
        rw [hparts, List.mem_append] at hin
        rcases hin with hin | hin
        · exact hanswered earlier hin
        · have hbounds := mem_range_of_ids hback hin
          omega

/-- The slots and what is held, between the steps of the provider. -/
structure Sorted (polled : List Entry) (s : State) : Prop where
  ordered : Ordered polled s
  slots : ∀ slot ∈ s.tickets, ∀ o ∈ slot.answer.getD [], o.utterance = slot.id
  held : ∀ x ∈ s.held, x.2.utterance = x.1 + 1 ∧ x.1 ≤ s.lastTicket

theorem line_registerTicket (u : Nat) : line u polled s.registerTicket = line u polled s := by
  rw [line, line]
  change _ ++ transcripts u (answers (s.tickets ++ [_])) = _
  rw [answers_append, transcripts_append]
  exact congrArg (_ ++ ·) (List.append_nil _)

section

variable (h : Sorted polled s)
include h

theorem Sorted.registerTicket : Sorted polled s.registerTicket := by
  refine ⟨h.ordered.registerTicket, fun slot hslot => ?_, fun x hx => ?_⟩
  · rcases List.mem_append.mp hslot with hslot | hslot
    · exact h.slots slot hslot
    · rw [List.mem_singleton.mp hslot]
      exact fun o ho => absurd ho List.not_mem_nil
  · exact ⟨(h.held x hx).1, Nat.le_succ_of_le (h.held x hx).2⟩

theorem Sorted.emit (hplaced : Placed (polled ++ s.queue)) {after : Nat} {o : Output}
    (hlast : after ≤ s.lastTicket) (ho : o.utterance = after + 1) :
    Placed (polled ++ (s.emit after o).queue) ↔ after + 1 ∉ dones (polled ++ s.queue) := by
  obtain ⟨n, hdones, hids, hsum⟩ := h.ordered.numbered
  exact placed_emit hplaced hdones hids (by omega) ho

theorem Sorted.open_of_waits {slot : Slot} (hslot : slot ∈ s.tickets) (hwaits : s.Waits slot.id) :
    slot.answer = none := by
  obtain ⟨waiting, hwaiting, hid, hopen⟩ := hwaits
  rw [List.inj_on_of_nodup_map h.ordered.nodup hslot hwaiting hid.symm]
  exact hopen

theorem Sorted.line_setAnswer {ticket : Nat} (hwaits : s.Waits ticket) {items : List Output}
    (hitems : ∀ o ∈ items, o.utterance = ticket) {slots : List Slot}
    (hset : setAnswer ticket items s.tickets = some slots) (u : Nat) :
    line u polled { s with tickets := slots } = line u polled s ++ transcripts u items := by
  obtain ⟨before, slot, back, hsplit, hslot, hslots⟩ := setAnswer_eq_some hset
  have hnone : slot.answer = none := by
    refine h.open_of_waits ?_ (hslot ▸ hwaits)
    rw [hsplit]
    exact List.mem_append_right _ List.mem_cons_self
  rw [line, line, List.append_assoc _ _ (transcripts u items)]
  congr 1
  rw [hslots, hsplit, answers_append, answers_append, answers_cons, answers_cons, hnone]
  simp only [transcripts_append, Option.getD_some, Option.getD_none]
  rw [show transcripts u [] = [] from rfl, List.nil_append]
  by_cases hu : u = ticket
  · have hnodup := h.ordered.nodup
    rw [hsplit, List.map_append, List.map_cons, List.nodup_append, List.nodup_cons] at hnodup
    have hback : transcripts u (answers back) = [] := by
      refine transcripts_eq_nil fun o ho _ heq => ?_
      obtain ⟨x, hx, ho⟩ := mem_answers.mp ho
      have hid := h.slots x (hsplit ▸ List.mem_append_right _ (List.mem_cons_of_mem _ hx)) o ho
      refine hnodup.2.1.1 ?_
      rw [hslot, ← hu, ← heq, hid]
      exact List.mem_map_of_mem hx
    rw [hback, List.append_nil, List.append_nil]
  · have hitems' : transcripts u items = [] :=
      transcripts_eq_nil fun o ho _ heq => hu (heq.symm.trans (hitems o ho))
    rw [hitems', List.nil_append, List.append_nil]

theorem Sorted.answer (hplaced : Placed (polled ++ s.queue)) {ticket : Nat}
    (hwaits : s.Waits ticket) {items : List Output} (hitems : ∀ o ∈ items, o.utterance = ticket) :
    (Placed (polled ++ (s.answer ticket items).queue) ↔
      ∀ x ∈ s.held, ¬ Releases s.tickets ticket (x.1 + 1)) ∧
    ((∀ x ∈ s.held, ¬ Releases s.tickets ticket (x.1 + 1)) →
      ∀ u, line u polled (s.answer ticket items) = line u polled s ++ transcripts u items) := by
  obtain ⟨n, hdones, hids, hsum⟩ := h.ordered.numbered
  have hticket : ticket ∈ s.tickets.map Slot.id := by
    obtain ⟨waiting, hwaiting, hid, -⟩ := hwaits
    exact hid ▸ List.mem_map_of_mem hwaiting
  have hreleases := fun id => @releases_iff s n ticket id items hids hticket
  have hblocked : ∀ x ∈ s.held, n < x.1 := by
    intro x hx
    by_contra hle
    have hfree := (unblocked_iff hids (by have hlast := (h.held x hx).2; omega)).mpr
      (Nat.le_of_not_lt hle)
    rw [h.ordered.held x hx] at hfree
    cases hfree
  rw [State.answer] at hreleases ⊢
  cases hset : setAnswer ticket items s.tickets with
  | none => exact absurd hticket (setAnswer_eq_none.mp hset)
  | some slots =>
    rw [hset] at hreleases
    dsimp only at hreleases ⊢
    obtain ⟨hsame, hlength⟩ := setAnswer_ids hset
    have hids' : slots.map Slot.id = List.range' (n + 1) slots.length := by
      rw [hsame, hlength, hids]
    have hslots' : ∀ x ∈ slots, ∀ o ∈ x.answer.getD [], o.utterance = x.id := by
      obtain ⟨before, slot, back, hsplit, hslot, hslots⟩ := setAnswer_eq_some hset
      intro x hx o ho
      rw [hslots, List.mem_append, List.mem_cons] at hx
      rcases hx with hx | rfl | hx
      · exact h.slots x (hsplit ▸ List.mem_append_left _ hx) o ho
      · exact (hitems o ho).trans hslot.symm
      · exact h.slots x (hsplit ▸ List.mem_append_right _ (List.mem_cons_of_mem _ hx)) o ho
    have hheld : ∀ x ∈ s.held, x.2.utterance = x.1 + 1 ∧ x.1 ≤ n + slots.length := by
      intro x hx
      obtain ⟨htag, hlast⟩ := h.held x hx
      exact ⟨htag, by omega⟩
    have hclean : (∀ x ∈ s.held, ¬ Releases s.tickets ticket (x.1 + 1)) ↔
        ∀ x ∈ s.held, n + slots.length ≤
          x.1 + ({ s with tickets := slots } : State).flush.tickets.length := by
      refine forall₂_congr fun x hx => ?_
      have hpos := hblocked x hx
      rw [hreleases, hlength]
      omega
    refine ⟨(placed_flush (s := { s with tickets := slots }) hplaced hdones hids' hslots'
      hheld).trans hclean.symm, fun hno u => ?_⟩
    rw [line_flush (s := { s with tickets := slots }) u hids' hslots'
      (fun x hx => (h.held x hx).1) (hclean.mp hno)]
    exact h.line_setAnswer hwaits hitems hset u

end

end State

end NodeWebrtc.Vendors.Mistral
