import Mathlib.Data.List.Perm.Basic
import Mathlib.Data.List.Nodup
import Mathlib.Data.List.Range
import NodeWebrtc.Vendors.MistralStt

/-! # The release of answers

The tickets are numbered from one and released in order, each when it and all before it are
answered. Whatever is put in comes out once, or waits.
-/

namespace NodeWebrtc.Vendors.Mistral

/-- The finalizes answered in a part of the queue. -/
def dones (entries : List Entry) : List Nat :=
  entries.filterMap fun entry =>
    match entry with
    | .output _ => none
    | .finalizeDone ticket => some ticket

def outputsOf (entries : List Entry) : List Output :=
  entries.filterMap fun entry =>
    match entry with
    | .output o => some o
    | .finalizeDone _ => none

@[simp] theorem dones_append (front back : List Entry) :
    dones (front ++ back) = dones front ++ dones back :=
  List.filterMap_append

@[simp] theorem outputsOf_append (front back : List Entry) :
    outputsOf (front ++ back) = outputsOf front ++ outputsOf back :=
  List.filterMap_append

@[simp] theorem dones_map_output (items : List Output) : dones (items.map .output) = [] := by
  induction items with
  | nil => rfl
  | cons item items ih => exact ih

@[simp] theorem outputsOf_map_output (items : List Output) :
    outputsOf (items.map .output) = items := by
  induction items with
  | nil => rfl
  | cons item items ih => exact congrArg (item :: ·) ih

/-! ## Discarded transcripts -/

theorem dones_discard (entries : List Entry) :
    dones (entries.filter fun entry => !entry.isTranscript) = dones entries := by
  induction entries with
  | nil => rfl
  | cons entry entries ih =>
    rw [List.filter_cons]
    cases entry with
    | output o =>
      change dones _ = dones entries
      split <;> exact ih
    | finalizeDone ticket => exact congrArg (ticket :: ·) ih

theorem outputsOf_discard (entries : List Entry) :
    outputsOf (entries.filter fun entry => !entry.isTranscript) =
      (outputsOf entries).filter fun o => !o.item.isTranscript := by
  induction entries with
  | nil => rfl
  | cons entry entries ih =>
    cases entry with
    | output o =>
      change _ = (o :: outputsOf entries).filter _
      rw [List.filter_cons, List.filter_cons]
      change outputsOf (if (!o.item.isTranscript) = true then _ else _) = _
      split
      · exact congrArg (o :: ·) ih
      · exact ih
    | finalizeDone ticket => exact ih

theorem countP_discard {q : Output → Bool} (hq : ∀ o, q o = true → o.item.isTranscript = false)
    (outputs : List Output) :
    (outputs.filter fun o => !o.item.isTranscript).countP q = outputs.countP q := by
  rw [List.countP_filter]
  refine List.countP_congr fun o _ => ?_
  rw [Bool.and_eq_true, Bool.not_eq_true']
  exact and_iff_left_of_imp (hq o)

theorem map_discard (held : List (Nat × Output)) :
    (held.filter fun h => !h.2.item.isTranscript).map Prod.snd =
      (held.map Prod.snd).filter fun o => !o.item.isTranscript := by
  rw [List.filter_map]
  rfl

namespace State

/-! ## Slots -/

def released (slot : Slot) : List Entry :=
  (slot.answer.getD []).map .output ++ [.finalizeDone slot.id]

theorem release_spec (slots : List Slot) :
    ∃ front, slots = front ++ (release slots).2 ∧ (∀ slot ∈ front, slot.answer.isSome = true) ∧
      (release slots).1 = front.flatMap released ∧
      ∀ slot, (release slots).2.head? = some slot → slot.answer = none := by
  induction slots with
  | nil => exact ⟨[], rfl, fun _ h => absurd h List.not_mem_nil, rfl, fun _ h => by cases h⟩
  | cons slot slots ih =>
    obtain ⟨front, hsplit, hanswered, hentries, hhead⟩ := ih
    cases hanswer : slot.answer with
    | none =>
      refine ⟨[], ?_, fun _ h => absurd h List.not_mem_nil, ?_, ?_⟩ <;> simp [release, hanswer]
    | some items =>
      refine ⟨slot :: front, ?_, ?_, ?_, ?_⟩
      · simpa [release, hanswer] using hsplit
      · intro s hs
        rcases List.mem_cons.mp hs with rfl | hs
        · rw [hanswer]
          rfl
        · exact hanswered s hs
      · simp [release, hanswer, hentries, released]
      · simpa [release, hanswer] using hhead

theorem dones_released (slots : List Slot) :
    dones (slots.flatMap released) = slots.map Slot.id := by
  induction slots with
  | nil => rfl
  | cons slot slots ih =>
    rw [List.flatMap_cons, dones_append, ih, released, dones_append, dones_map_output]
    rfl

def answers (slots : List Slot) : List Output := slots.flatMap fun slot => slot.answer.getD []

theorem outputsOf_released (slots : List Slot) :
    outputsOf (slots.flatMap released) = answers slots := by
  induction slots with
  | nil => rfl
  | cons slot slots ih =>
    rw [List.flatMap_cons, outputsOf_append, ih, released, outputsOf_append,
      outputsOf_map_output, answers, answers, List.flatMap_cons]
    exact congrArg (· ++ _) (List.append_nil _)

theorem setAnswer_eq_none {ticket : Nat} {items : List Output} {slots : List Slot} :
    setAnswer ticket items slots = none ↔ ticket ∉ slots.map Slot.id := by
  induction slots with
  | nil => simp [setAnswer]
  | cons slot slots ih =>
    rw [setAnswer]
    split
    · next heq => simp [heq]
    · next hne =>
      rw [Option.map_eq_none_iff, ih, List.map_cons, List.mem_cons, not_or]
      exact (and_iff_right (Ne.symm hne)).symm

theorem setAnswer_eq_some {ticket : Nat} {items : List Output} {slots slots' : List Slot}
    (h : setAnswer ticket items slots = some slots') :
    ∃ front slot back, slots = front ++ slot :: back ∧ slot.id = ticket ∧
      slots' = front ++ { slot with answer := some items } :: back := by
  induction slots generalizing slots' with
  | nil => cases h
  | cons slot slots ih =>
    rw [setAnswer] at h
    split at h
    · next heq =>
      cases h
      exact ⟨[], slot, slots, rfl, heq, rfl⟩
    · rw [Option.map_eq_some_iff] at h
      obtain ⟨rest, hrest, rfl⟩ := h
      obtain ⟨front, found, back, rfl, hid, rfl⟩ := ih hrest
      exact ⟨slot :: front, found, back, rfl, hid, rfl⟩

/-! ## The order of the answers -/

/-- The tickets released and waiting, `polled` being what was taken off the queue. -/
structure Ordered (polled : List Entry) (s : State) : Prop where
  numbered : ∃ n, dones (polled ++ s.queue) = List.range' 1 n ∧
    s.tickets.map Slot.id = List.range' (n + 1) s.tickets.length ∧
    s.lastTicket = n + s.tickets.length
  front : ∀ slot, s.tickets.head? = some slot → slot.answer = none
  held : ∀ h ∈ s.held, unblocked s.tickets h.1 = false

variable {polled : List Entry} {s : State}

theorem Ordered.mem_ids (h : Ordered polled s) {ticket : Nat} (hmem : ticket ∈ s.tickets.map Slot.id) :
    ticket ≤ s.lastTicket := by
  obtain ⟨n, -, hids, hlast⟩ := h.numbered
  rw [hids, List.mem_range'_1] at hmem
  omega

theorem Ordered.emit (h : Ordered polled s) (after : Nat) (o : Output) :
    Ordered polled (s.emit after o) := by
  obtain ⟨n, hdones, hids, hlast⟩ := h.numbered
  rw [State.emit]
  split
  · refine ⟨⟨n, ?_, hids, hlast⟩, h.front, h.held⟩
    rw [← List.append_assoc, dones_append, hdones]
    exact List.append_nil _
  · next hblocked =>
    refine ⟨⟨n, hdones, hids, hlast⟩, h.front, fun x hx => ?_⟩
    rcases List.mem_append.mp hx with hx | hx
    · exact h.held x hx
    · rw [List.mem_singleton.mp hx]
      exact Bool.eq_false_iff.mpr hblocked

theorem unblocked_append {tickets : List Slot} {after : Nat} (h : unblocked tickets after = false)
    (slots : List Slot) : unblocked (tickets ++ slots) after = false := by
  cases tickets with
  | nil => cases h
  | cons slot tickets => exact h

theorem Ordered.registerTicket (h : Ordered polled s) : Ordered polled s.registerTicket := by
  obtain ⟨n, hdones, hids, hlast⟩ := h.numbered
  refine ⟨⟨n, hdones, ?_, ?_⟩, fun slot hslot => ?_, fun x hx => ?_⟩
  · change (s.tickets ++ [_]).map Slot.id = List.range' (n + 1) (s.tickets ++ [_]).length
    rw [List.map_append, hids, List.length_append, List.length_singleton,
      List.range'_concat, Nat.one_mul, hlast]
    simp only [List.map_cons, List.map_nil]
    congr 2
    omega
  · change s.lastTicket + 1 = n + (s.tickets ++ [_]).length
    rw [List.length_append, List.length_singleton, hlast]
    omega
  · change (s.tickets ++ [_]).head? = some slot at hslot
    rw [List.head?_append] at hslot
    cases hhead : s.tickets.head? with rw [hhead] at hslot
    | none =>
      cases hslot
      rfl
    | some first =>
      cases hslot
      exact h.front _ hhead
  · exact unblocked_append (h.held x hx) _

theorem ordered_flush {n : Nat} (hdones : dones (polled ++ s.queue) = List.range' 1 n)
    (hids : s.tickets.map Slot.id = List.range' (n + 1) s.tickets.length)
    (hlast : s.lastTicket = n + s.tickets.length) : Ordered polled s.flush := by
  obtain ⟨front, hsplit, hanswered, hentries, hhead⟩ := release_spec s.tickets
  have hparts := hids
  rw [hsplit, List.map_append, List.length_append, ← List.range'_append_1] at hparts
  obtain ⟨hfront, hback⟩ := List.append_inj hparts (by simp)
  refine ⟨⟨n + front.length, ?_, ?_, ?_⟩, hhead, fun x hx => ?_⟩
  · change dones (polled ++ (s.queue ++ (release s.tickets).1 ++ _)) = _
    rw [← List.append_assoc, ← List.append_assoc, dones_append, dones_append, hdones, hentries,
      dones_released, hfront, dones_map_output, List.append_nil,
      show n + 1 = 1 + n from Nat.add_comm n 1, List.range'_append_1]
  · change (release s.tickets).2.map Slot.id = List.range' _ (release s.tickets).2.length
    rw [hback]
    congr 1
    omega
  · change s.lastTicket = n + front.length + (release s.tickets).2.length
    rw [hlast, hsplit, List.length_append]
    simp only [← hsplit]
    omega
  · have hno := (List.mem_filter.mp hx).2
    rw [Bool.not_eq_true'] at hno
    exact hno

theorem Ordered.answer (h : Ordered polled s) (ticket : Nat) (items : List Output) :
    Ordered polled (s.answer ticket items) := by
  obtain ⟨n, hdones, hids, hlast⟩ := h.numbered
  rw [State.answer]
  split
  · exact h
  · next slots hset =>
    obtain ⟨front, slot, back, hsplit, hid, hslots⟩ := setAnswer_eq_some hset
    have hmap : slots.map Slot.id = s.tickets.map Slot.id := by
      rw [hslots, hsplit]
      simp
    have hlength : slots.length = s.tickets.length := by
      rw [hslots, hsplit]
      simp
    refine ordered_flush (s := { s with tickets := slots }) hdones ?_ ?_
    · change slots.map Slot.id = List.range' (n + 1) slots.length
      rw [hmap, hlength, hids]
    · change s.lastTicket = n + slots.length
      rw [hlength, hlast]

/-! ## Nothing is lost -/

/-- Every output that was put in and not discarded: queued, held or in an answer that waits. -/
def contents (polled : List Entry) (s : State) : List Output :=
  outputsOf (polled ++ s.queue) ++ s.held.map Prod.snd ++ answers s.tickets

theorem answers_cons (slot : Slot) (slots : List Slot) :
    answers (slot :: slots) = slot.answer.getD [] ++ answers slots :=
  List.flatMap_cons

theorem answers_append (front back : List Slot) :
    answers (front ++ back) = answers front ++ answers back :=
  List.flatMap_append

variable (q : Output → Bool)

theorem countP_contents (polled : List Entry) (s : State) :
    (contents polled s).countP q =
      (outputsOf (polled ++ s.queue)).countP q + (s.held.map Prod.snd).countP q +
        (answers s.tickets).countP q := by
  rw [contents, List.countP_append, List.countP_append]

theorem countP_contents_flush :
    (contents polled s.flush).countP q = (contents polled s).countP q := by
  obtain ⟨front, hsplit, -, hentries, -⟩ := release_spec s.tickets
  have hheld : ∀ free : Nat × Output → Bool, (s.held.map Prod.snd).countP q =
      ((s.held.filter free).map Prod.snd).countP q +
        ((s.held.filter fun h => !free h).map Prod.snd).countP q := by
    intro free
    rw [← List.countP_append, ← List.map_append]
    exact (((List.filter_append_perm free s.held).map Prod.snd).countP_eq q).symm
  have hqueue : outputsOf (polled ++ s.flush.queue) =
      outputsOf (polled ++ s.queue) ++ answers front ++
        (s.held.filter fun h => unblocked (release s.tickets).2 h.1).map Prod.snd := by
    change outputsOf (polled ++ (s.queue ++ (release s.tickets).1 ++ _)) = _
    rw [← List.append_assoc, ← List.append_assoc, outputsOf_append, outputsOf_append, hentries,
      outputsOf_released, outputsOf_map_output]
  rw [countP_contents, countP_contents, hqueue, List.countP_append, List.countP_append,
    hheld fun h => unblocked (release s.tickets).2 h.1]
  change _ + ((s.held.filter fun h => !unblocked (release s.tickets).2 h.1).map Prod.snd).countP q +
    (answers (release s.tickets).2).countP q = _
  have hanswers : (answers s.tickets).countP q =
      (answers front).countP q + (answers (release s.tickets).2).countP q := by
    rw [← List.countP_append, ← answers_append, ← hsplit]
  omega

theorem countP_contents_emit (after : Nat) (o : Output) :
    (contents polled (s.emit after o)).countP q = (contents polled s).countP q + [o].countP q := by
  rw [countP_contents, countP_contents, State.emit]
  split
  · change (outputsOf (polled ++ (s.queue ++ [.output o]))).countP q + _ + _ = _
    rw [← List.append_assoc, outputsOf_append, List.countP_append,
      show outputsOf [.output o] = [o] from rfl]
    dsimp only
    omega
  · change _ + ((s.held ++ [(after, o)]).map Prod.snd).countP q + _ = _
    rw [List.map_append, List.countP_append]
    simp only [List.map_cons, List.map_nil]
    omega

theorem countP_contents_answer {ticket : Nat} (items : List Output)
    (hmem : ticket ∈ s.tickets.map Slot.id)
    (hopen : ∀ slot ∈ s.tickets, slot.id = ticket → slot.answer = none) :
    (contents polled (s.answer ticket items)).countP q =
      (contents polled s).countP q + items.countP q := by
  rw [State.answer]
  split
  · next hnone => exact absurd hmem (setAnswer_eq_none.mp hnone)
  · next slots hset =>
    obtain ⟨front, slot, back, hsplit, hid, hslots⟩ := setAnswer_eq_some hset
    have hanswer : slot.answer = none := by
      refine hopen slot ?_ hid
      rw [hsplit]
      exact List.mem_append_right front List.mem_cons_self
    rw [countP_contents_flush, countP_contents, countP_contents]
    have hbefore : (answers s.tickets).countP q =
        (answers front).countP q + (answers back).countP q := by
      rw [hsplit, answers_append, answers_cons, hanswer, List.countP_append]
      rfl
    have hafter : (answers slots).countP q =
        (answers front).countP q + (items.countP q + (answers back).countP q) := by
      rw [hslots, answers_append, answers_cons, List.countP_append, List.countP_append]
      rfl
    change _ + _ + (answers slots).countP q = _
    rw [hbefore, hafter]
    dsimp only
    omega

theorem countP_contents_registerTicket :
    (contents polled s.registerTicket).countP q = (contents polled s).countP q := by
  rw [countP_contents, countP_contents]
  change _ + (answers (s.tickets ++ [_])).countP q = _
  rw [answers_append, List.countP_append]
  rfl

/-! ## Which slots are open -/

def Waits (s : State) (ticket : Nat) : Prop :=
  ∃ slot ∈ s.tickets, slot.id = ticket ∧ slot.answer = none

theorem waits_emit (after : Nat) (o : Output) (ticket : Nat) :
    Waits (s.emit after o) ticket ↔ Waits s ticket := by
  rw [State.emit]
  split <;> exact Iff.rfl

theorem waits_registerTicket (ticket : Nat) :
    Waits s.registerTicket ticket ↔ Waits s ticket ∨ ticket = s.lastTicket + 1 := by
  constructor
  · rintro ⟨slot, hmem, hid, hanswer⟩
    rcases List.mem_append.mp hmem with hmem | hmem
    · exact .inl ⟨slot, hmem, hid, hanswer⟩
    · rw [List.mem_singleton.mp hmem] at hid
      exact .inr hid.symm
  · rintro (⟨slot, hmem, hid, hanswer⟩ | rfl)
    · exact ⟨slot, List.mem_append_left _ hmem, hid, hanswer⟩
    · exact ⟨_, List.mem_append_right _ (List.mem_singleton.mpr rfl), rfl, rfl⟩

theorem waits_flush (ticket : Nat) : Waits s.flush ticket ↔ Waits s ticket := by
  obtain ⟨front, hsplit, hanswered, -, -⟩ := release_spec s.tickets
  constructor
  · rintro ⟨slot, hmem, hopen⟩
    refine ⟨slot, ?_, hopen⟩
    rw [hsplit]
    exact List.mem_append_right front hmem
  · rintro ⟨slot, hmem, hid, hanswer⟩
    rw [hsplit] at hmem
    rcases List.mem_append.mp hmem with hmem | hmem
    · have hsome := hanswered slot hmem
      rw [hanswer] at hsome
      cases hsome
    · exact ⟨slot, hmem, hid, hanswer⟩

theorem waits_answer (hids : (s.tickets.map Slot.id).Nodup) (ticket : Nat)
    (items : List Output) (t : Nat) :
    Waits (s.answer ticket items) t ↔ Waits s t ∧ t ≠ ticket := by
  rw [State.answer]
  split
  · next hnone =>
    have hno := setAnswer_eq_none.mp hnone
    refine ⟨fun h => ⟨h, fun heq => ?_⟩, fun h => h.1⟩
    obtain ⟨slot, hmem, hid, -⟩ := h
    exact hno (heq ▸ hid ▸ List.mem_map_of_mem hmem)
  · next slots hset =>
    obtain ⟨front, slot, back, hsplit, hid, hslots⟩ := setAnswer_eq_some hset
    rw [waits_flush]
    have hothers : ∀ x, x ∈ front ∨ x ∈ back → x.id ≠ ticket := by
      intro x hx heq
      rw [hsplit, List.map_append, List.map_cons, List.nodup_append, List.nodup_cons] at hids
      rcases hx with hx | hx
      · exact hids.2.2 x.id (List.mem_map_of_mem hx) slot.id List.mem_cons_self (by rw [heq, hid])
      · exact hids.2.1.1 (by rw [hid, ← heq]; exact List.mem_map_of_mem hx)
    constructor
    · rintro ⟨x, hmem, hx, hanswer⟩
      change x ∈ slots at hmem
      rw [hslots, List.mem_append, List.mem_cons] at hmem
      have hin : x ∈ front ∨ x ∈ back := by
        rcases hmem with hmem | rfl | hmem
        · exact .inl hmem
        · cases hanswer
        · exact .inr hmem
      refine ⟨⟨x, ?_, hx, hanswer⟩, fun heq => hothers x hin (hx.trans heq)⟩
      rw [hsplit, List.mem_append, List.mem_cons]
      exact hin.elim .inl fun hback => .inr (.inr hback)
    · rintro ⟨⟨x, hmem, hx, hanswer⟩, hne⟩
      refine ⟨x, ?_, hx, hanswer⟩
      change x ∈ slots
      rw [hsplit, List.mem_append, List.mem_cons] at hmem
      rw [hslots, List.mem_append, List.mem_cons]
      rcases hmem with hmem | rfl | hmem
      · exact .inl hmem
      · exact absurd (hx.symm.trans hid) hne
      · exact .inr (.inr hmem)

/-! ## What writes leave alone -/

theorem emit_frame (after : Nat) (o : Output) : (s.emit after o).lastTicket = s.lastTicket ∧
    (s.emit after o).spare = s.spare ∧ (s.emit after o).nextGeneration = s.nextGeneration := by
  rw [State.emit]
  split <;> exact ⟨rfl, rfl, rfl⟩

theorem answer_frame (ticket : Nat) (items : List Output) :
    (s.answer ticket items).lastTicket = s.lastTicket ∧
      (s.answer ticket items).spare = s.spare ∧
      (s.answer ticket items).nextGeneration = s.nextGeneration := by
  rw [State.answer]
  split <;> exact ⟨rfl, rfl, rfl⟩

theorem emit_queue (after : Nat) (o : Output) : s.queue <+: (s.emit after o).queue := by
  rw [State.emit]
  split
  · exact List.prefix_append _ _
  · exact List.prefix_rfl

theorem answer_queue (ticket : Nat) (items : List Output) :
    s.queue <+: (s.answer ticket items).queue := by
  rw [State.answer]
  split
  · exact List.prefix_rfl
  · rw [flush, List.append_assoc]
    exact List.prefix_append _ _

theorem Ordered.nodup (h : Ordered polled s) : (s.tickets.map Slot.id).Nodup := by
  obtain ⟨n, -, hids, -⟩ := h.numbered
  rw [hids]
  exact List.nodup_range'

theorem Ordered.waits_le (h : Ordered polled s) {ticket : Nat} (hwaits : s.Waits ticket) :
    ticket ≤ s.lastTicket := by
  obtain ⟨slot, hmem, hid, -⟩ := hwaits
  exact h.mem_ids (hid ▸ List.mem_map_of_mem hmem)

end State

end NodeWebrtc.Vendors.Mistral
