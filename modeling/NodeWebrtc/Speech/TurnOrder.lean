import Mathlib.Order.Interval.Set.Basic
import NodeWebrtc.Speech.TtsSendOrder

/-! # Turns come in ticket order

What a run puts out says which tickets were released and which a cut covers. The turn is
the least ticket that is neither, whatever the order of the releases, and a claim succeeds
only on the turn. A send that waits for a turn that has come, or for a cut that has come,
is woken or has a wake-up on its way.
-/

namespace NodeWebrtc.Speech

open Std Machine

/-! ## What one step can do -/

/-- Every transition of the order, with what it asks of the state before. -/
inductive OrderStep (o : TtsSendOrder) : OrderInput → TtsSendOrder → List OrderEvent → Prop
  | reserve (replyId : Option String) :
      OrderStep o (.reserve replyId)
        { o with
          state := (o.state.reserveWithReply replyId).2
          sends := o.sends ++ [⟨replyId, .reserved⟩] } [.reserved o.state.nextTicket]
  | waitTurn (id : Nat) (h : o.phase? id = some .reserved) :
      OrderStep o (.waitTurn id) (o.setPhase id .polling) []
  | enable (id : Nat) (h : o.phase? id = some .polling) :
      OrderStep o (.enable id) (o.setPhase id (.enabled false)) []
  | checkCancelled (id : Nat) (woken : Bool) (h : o.phase? id = some (.enabled woken))
      (hcut : id < o.state.cancelBelow) :
      OrderStep o (.check id) (o.setPhase id .cancelled) [.cancelled id]
  | checkTurn (id : Nat) (woken : Bool) (h : o.phase? id = some (.enabled woken))
      (hlive : o.state.cancelBelow ≤ id) (hturn : o.state.nextTurn = id) :
      OrderStep o (.check id) (o.setPhase id .turn) [.turn id]
  | checkWait (id : Nat) (woken : Bool) (h : o.phase? id = some (.enabled woken))
      (hlive : o.state.cancelBelow ≤ id) (hturn : o.state.nextTurn ≠ id) :
      OrderStep o (.check id) (o.setPhase id (.awaiting woken)) []
  | wake (id : Nat) (h : o.phase? id = some (.awaiting true)) :
      OrderStep o (.wake id) (o.setPhase id .polling) []
  | claimed (id : Nat) (h : o.phase? id = some .turn) (hlive : o.state.cancelBelow ≤ id) :
      OrderStep o (.claim id)
        ({ o with state := { o.state with pendingReply := o.state.pendingReply.erase id } }.setPhase
          id .claimed) [.claimed id]
  | claimFailed (id : Nat) (h : o.phase? id = some .turn) (hcut : id < o.state.cancelBelow) :
      OrderStep o (.claim id) (o.setPhase id .cancelled) [.claimFailed id]
  | release (id : Nat) (phase : SendPhase) (h : o.phase? id = some phase)
      (hphase : phase ≠ .released) :
      OrderStep o (.release id)
        ({ o with state := o.state.release id, notifying := o.notifying + 1 }.setPhase id .released)
        [.released id]
  | cut :
      OrderStep o .cut { o with state := o.state.cut.2, notifying := o.notifying + 1 }
        [.cut o.state.cut.1]
  | notify (h : 0 < o.notifying) :
      OrderStep o .notify { o with notifying := o.notifying - 1 }.notifyWaiters []

variable (s : OrderState)

theorem reserveWithReply_fst (replyId : Option String) :
    (s.reserveWithReply replyId).1 = s.nextTicket := by
  cases replyId <;> rfl

variable {o o' : TtsSendOrder} {i : OrderInput} {es : List OrderEvent}

theorem orderStep_of_step (hs : o.step i = some (o', es)) : OrderStep o i o' es := by
  cases i with simp only [TtsSendOrder.step] at hs
  | reserve replyId =>
    simp only [reserveWithReply_fst] at hs
    obtain ⟨rfl, rfl⟩ := hs
    exact .reserve replyId
  | waitTurn id =>
    split at hs
    · next h =>
      obtain ⟨rfl, rfl⟩ := hs
      exact .waitTurn id h
    · simp at hs
  | enable id =>
    split at hs
    · next h =>
      obtain ⟨rfl, rfl⟩ := hs
      exact .enable id h
    · simp at hs
  | check id =>
    split at hs
    · next woken h =>
      simp only [TtsSendOrder.checkTurn] at hs
      by_cases hcut : id < o.state.cancelBelow
      · simp only [if_pos hcut] at hs
        obtain ⟨rfl, rfl⟩ := hs
        exact .checkCancelled id woken h hcut
      · by_cases hturn : o.state.nextTurn = id
        · simp only [if_neg hcut, if_pos hturn] at hs
          obtain ⟨rfl, rfl⟩ := hs
          exact .checkTurn id woken h (Nat.le_of_not_lt hcut) hturn
        · simp only [if_neg hcut, if_neg hturn] at hs
          obtain ⟨rfl, rfl⟩ := hs
          exact .checkWait id woken h (Nat.le_of_not_lt hcut) hturn
    · simp at hs
  | wake id =>
    split at hs
    · next h =>
      obtain ⟨rfl, rfl⟩ := hs
      exact .wake id h
    · simp at hs
  | claim id =>
    split at hs
    · next h =>
      simp only [TtsSendOrder.claimTurn, OrderState.claim] at hs
      by_cases hcut : id < o.state.cancelBelow
      · simp only [if_pos hcut] at hs
        obtain ⟨rfl, rfl⟩ := hs
        exact .claimFailed id h hcut
      · simp only [if_neg hcut] at hs
        obtain ⟨rfl, rfl⟩ := hs
        exact .claimed id h (Nat.le_of_not_lt hcut)
    · simp at hs
  | release id =>
    split at hs
    · simp at hs
    · simp at hs
    · next phase hne h =>
      obtain ⟨rfl, rfl⟩ := hs
      exact .release id phase h hne
  | cut =>
    obtain ⟨rfl, rfl⟩ := hs
    exact .cut
  | notify =>
    split at hs
    · simp at hs
    · next h =>
      obtain ⟨rfl, rfl⟩ := hs
      exact .notify (Nat.pos_of_ne_zero h)

/-! ## Phases after a step -/

@[simp] theorem phase?_setPhase (o : TtsSendOrder) (id t : Nat) (phase : SendPhase) :
    (o.setPhase id phase).phase? t =
      if t = id then (o.phase? id).map (fun _ => phase) else o.phase? t := by
  simp only [TtsSendOrder.phase?, TtsSendOrder.setPhase]
  by_cases h : t = id
  · subst h
    simp [Function.comp_def]
  · have hne : ¬ id = t := fun heq => h heq.symm
    simp [h, hne]

theorem phase?_notifyWaiters (o : TtsSendOrder) (t : Nat) :
    o.notifyWaiters.phase? t = (o.phase? t).map TtsSendOrder.wakePhase := by
  simp [TtsSendOrder.phase?, TtsSendOrder.notifyWaiters, Function.comp_def]

theorem phase?_eq_none (o : TtsSendOrder) (t : Nat) :
    o.phase? t = none ↔ o.sends.length ≤ t := by
  simp [TtsSendOrder.phase?]

theorem phase?_append (o : TtsSendOrder) (state : OrderState) (send : TtsSend) (t : Nat) :
    TtsSendOrder.phase? { o with state := state, sends := o.sends ++ [send] } t =
      if t = o.sends.length then some send.phase else o.phase? t := by
  simp only [TtsSendOrder.phase?]
  rcases Nat.lt_trichotomy t o.sends.length with h | h | h
  · rw [List.getElem?_append_left h, if_neg (Nat.ne_of_lt h)]
  · subst h
    simp
  · rw [if_neg (Nat.ne_of_gt h)]
    rw [List.getElem?_eq_none (by simp; omega), List.getElem?_eq_none (Nat.le_of_lt h)]

/-! ## What the outputs say -/

def Released (out : List OrderEvent) (t : Nat) : Prop := .released t ∈ out

def CutOff (out : List OrderEvent) (t : Nat) : Prop := ∃ c, .cut c ∈ out ∧ t < c.below

def closedTickets (out : List OrderEvent) : Set Nat := {t | Released out t ∨ CutOff out t}

/-- An event that neither releases a ticket nor is a cut. -/
def OrderEvent.Keeps : OrderEvent → Prop
  | .released _ | .cut _ => False
  | _ => True

variable {out : List OrderEvent}

theorem released_append_keeps (hes : ∀ e ∈ es, e.Keeps) (t : Nat) :
    Released (out ++ es) t ↔ Released out t := by
  refine ⟨fun h => ?_, fun h => List.mem_append_left es h⟩
  rcases List.mem_append.mp h with hout | hnew
  · exact hout
  · exact (hes _ hnew).elim

theorem cutOff_append_keeps (hes : ∀ e ∈ es, e.Keeps) (t : Nat) :
    CutOff (out ++ es) t ↔ CutOff out t := by
  refine ⟨fun h => ?_, fun h => ?_⟩
  · obtain ⟨c, hc, ht⟩ := h
    rcases List.mem_append.mp hc with hout | hnew
    · exact ⟨c, hout, ht⟩
    · exact (hes _ hnew).elim
  · obtain ⟨c, hc, ht⟩ := h
    exact ⟨c, List.mem_append_left es hc, ht⟩

theorem closed_append_keeps (hes : ∀ e ∈ es, e.Keeps) :
    closedTickets (out ++ es) = closedTickets out := by
  simp only [closedTickets, released_append_keeps hes, cutOff_append_keeps hes]

theorem closed_append_released (out : List OrderEvent) (id : Nat) :
    closedTickets (out ++ [.released id]) = insert id (closedTickets out) := by
  ext t
  simp only [closedTickets, Released, CutOff, Set.mem_ofPred_eq, Set.mem_insert_iff,
    List.mem_append, List.mem_singleton, OrderEvent.released.injEq, reduceCtorEq, or_false]
  rw [or_comm (a := OrderEvent.released t ∈ out), or_assoc]

theorem closed_append_cut (out : List OrderEvent) (c : TtsFlushCut) :
    closedTickets (out ++ [.cut c]) = closedTickets out ∪ Set.Iio c.below := by
  ext t
  simp only [closedTickets, Released, CutOff,
    List.mem_append, List.mem_singleton, OrderEvent.cut.injEq, reduceCtorEq, or_false]
  constructor
  · intro h
    obtain hreleased | ⟨d, hd | rfl, ht⟩ := h
    · exact Or.inl (Or.inl hreleased)
    · exact Or.inl (Or.inr ⟨d, hd, ht⟩)
    · exact Or.inr ht
  · intro h
    obtain (hreleased | ⟨d, hd, ht⟩) | ht := h
    · exact Or.inl hreleased
    · exact Or.inr ⟨d, Or.inl hd, ht⟩
    · exact Or.inr ⟨c, Or.inr rfl, ht⟩

/-! ## The turn is the frontier of the closed tickets -/

theorem release_fields (id : Nat) :
    (s.release id).nextTicket = s.nextTicket ∧ (s.release id).cancelBelow = s.cancelBelow ∧
      (s.release id).pendingReply = s.pendingReply.erase id := by
  unfold OrderState.release
  simp only
  split
  · exact ⟨rfl, rfl, rfl⟩
  · split <;> exact ⟨rfl, rfl, rfl⟩

theorem release_frontier {s : OrderState} {closed : Set Nat}
    (h : Frontier closed s.nextTurn s.releasedAhead) (id : Nat) :
    Frontier (insert id closed) (s.release id).nextTurn (s.release id).releasedAhead := by
  unfold OrderState.release
  simp only
  split
  · next heq =>
    subst heq
    exact h.close_front
  · next hne =>
    split
    · next hgt => exact h.close_ahead hgt
    · next hle => exact h.close_below (Nat.lt_of_le_of_ne (Nat.le_of_not_lt hle) hne)

theorem le_release_nextTurn (id : Nat) : s.nextTurn ≤ (s.release id).nextTurn := by
  unfold OrderState.release
  simp only
  split
  · exact Nat.le_trans (Nat.le_succ _) (Frontier.le_advance _ _ _)
  · split <;> exact Nat.le_refl _

theorem cut_fields (h : s.cancelBelow ≤ s.nextTicket) :
    s.cut.1.below = s.nextTicket ∧ s.cut.2.nextTicket = s.nextTicket ∧
      s.cut.2.cancelBelow = s.nextTicket := by
  unfold OrderState.cut
  simp only
  split <;> exact ⟨rfl, rfl, Nat.max_eq_right h⟩

theorem cut_frontier {s : OrderState} {closed : Set Nat} (hbounded : s.cancelBelow ≤ s.nextTicket)
    (h : Frontier closed s.nextTurn s.releasedAhead) :
    Frontier (closed ∪ Set.Iio s.nextTicket) s.cut.2.nextTurn s.cut.2.releasedAhead := by
  unfold OrderState.cut
  simp only [Nat.max_eq_right hbounded]
  split
  · next hlt => exact h.close_until hlt
  · next hle => exact h.close_until_reached (Nat.le_of_not_lt hle)

theorem le_cut_nextTurn : s.nextTurn ≤ s.cut.2.nextTurn := by
  unfold OrderState.cut
  simp only
  split
  · next hlt => exact Nat.le_trans (Nat.le_of_lt hlt) (Frontier.le_advance _ _ _)
  · exact Nat.le_refl _

structure Ordered (o : TtsSendOrder) (out : List OrderEvent) : Prop where
  issued : o.state.nextTicket = o.sends.length
  released : ∀ t, Released out t ↔ o.phase? t = some .released
  cutOff : ∀ t, CutOff out t ↔ t < o.state.cancelBelow
  bounded : o.state.cancelBelow ≤ o.state.nextTicket
  frontier : Frontier (closedTickets out) o.state.nextTurn o.state.releasedAhead

theorem Ordered.init : Ordered .init [] where
  issued := rfl
  released := by simp [Released, TtsSendOrder.phase?, TtsSendOrder.init]
  cutOff := by simp [CutOff, TtsSendOrder.init, OrderState.default]
  bounded := Nat.le_refl 0
  frontier := by
    have hnone : closedTickets [] = ∅ := by simp [closedTickets, Released, CutOff]
    rw [hnone]
    exact Frontier.zero

theorem Ordered.keeps (h : Ordered o out) (hes : ∀ e ∈ es, e.Keeps)
    (hissued : o'.state.nextTicket = o'.sends.length)
    (hticket : o.state.nextTicket ≤ o'.state.nextTicket)
    (hcancel : o'.state.cancelBelow = o.state.cancelBelow)
    (hturn : o'.state.nextTurn = o.state.nextTurn)
    (hahead : o'.state.releasedAhead = o.state.releasedAhead)
    (hphase : ∀ t, o'.phase? t = some .released ↔ o.phase? t = some .released) :
    Ordered o' (out ++ es) where
  issued := hissued
  released := fun t => by rw [released_append_keeps hes, hphase, h.released]
  cutOff := fun t => by rw [cutOff_append_keeps hes, hcancel, h.cutOff]
  bounded := by
    rw [hcancel]
    exact Nat.le_trans h.bounded hticket
  frontier := by
    rw [closed_append_keeps hes, hturn, hahead]
    exact h.frontier

variable {id : Nat} {phase : SendPhase}

theorem Ordered.setPhase {phase' : SendPhase} (h : Ordered o out) (hes : ∀ e ∈ es, e.Keeps)
    (hphase : o.phase? id = some phase) (hne : phase ≠ .released) (hne' : phase' ≠ .released) :
    Ordered (o.setPhase id phase') (out ++ es) := by
  refine h.keeps hes (by simp [TtsSendOrder.setPhase, h.issued]) (Nat.le_refl _) rfl rfl rfl ?_
  intro t
  rw [phase?_setPhase]
  split
  · next heq =>
    subst heq
    simp [hphase, hne, hne']
  · exact Iff.rfl

theorem reserve_fields (replyId : Option String) :
    (s.reserveWithReply replyId).2.nextTicket = s.nextTicket + 1 ∧
      (s.reserveWithReply replyId).2.cancelBelow = s.cancelBelow ∧
      (s.reserveWithReply replyId).2.nextTurn = s.nextTurn ∧
      (s.reserveWithReply replyId).2.releasedAhead = s.releasedAhead := by
  cases replyId <;> exact ⟨rfl, rfl, rfl, rfl⟩

theorem wakePhase_eq_released (phase : SendPhase) :
    TtsSendOrder.wakePhase phase = .released ↔ phase = .released := by
  cases phase <;> simp [TtsSendOrder.wakePhase]

section

variable (h : Ordered o out)
include h

theorem Ordered.reserve (replyId : Option String) :
    Ordered { o with
      state := (o.state.reserveWithReply replyId).2
      sends := o.sends ++ [⟨replyId, .reserved⟩] } (out ++ [.reserved o.state.nextTicket]) := by
  obtain ⟨hticket, hcancel, hturn, hahead⟩ := reserve_fields o.state replyId
  refine h.keeps (by simp [OrderEvent.Keeps]) ?_ ?_ hcancel hturn hahead fun t => ?_
  · simp [hticket, h.issued]
  · rw [hticket]
    exact Nat.le_succ _
  · rw [phase?_append]
    split
    · next heq =>
      have hnone : o.phase? t = none := (phase?_eq_none o t).mpr (Nat.le_of_eq heq.symm)
      simp [hnone]
    · exact Iff.rfl

theorem Ordered.release (hphase : o.phase? id = some phase) :
    Ordered ({ o with state := o.state.release id, notifying := o.notifying + 1 }.setPhase id
      .released) (out ++ [.released id]) := by
  obtain ⟨hticket, hcancel, -⟩ := release_fields o.state id
  refine ⟨?_, fun t => ?_, fun t => ?_, ?_, ?_⟩
  · simp [TtsSendOrder.setPhase, hticket, h.issued]
  · rw [phase?_setPhase]
    have hsame : TtsSendOrder.phase?
        { o with state := o.state.release id, notifying := o.notifying + 1 } id = some phase :=
      hphase
    split
    · next heq =>
      subst heq
      simp [Released, hsame]
    · next hne =>
      have hold := h.released t
      simp only [Released, List.mem_append, List.mem_singleton, OrderEvent.released.injEq, hne,
        or_false]
      exact hold
  · have hold := h.cutOff t
    simp only [CutOff, List.mem_append, List.mem_singleton, reduceCtorEq, or_false,
      TtsSendOrder.setPhase, hcancel]
    exact hold
  · simp only [TtsSendOrder.setPhase, hcancel, hticket]
    exact h.bounded
  · rw [closed_append_released]
    exact release_frontier h.frontier id

theorem Ordered.cut : Ordered { o with state := o.state.cut.2, notifying := o.notifying + 1 }
      (out ++ [.cut o.state.cut.1]) := by
  obtain ⟨hbelow, hticket, hcancel⟩ := cut_fields o.state h.bounded
  refine ⟨?_, fun t => ?_, fun t => ?_, ?_, ?_⟩
  · exact hticket.trans h.issued
  · have hold := h.released t
    simp only [Released, List.mem_append, List.mem_singleton, reduceCtorEq, or_false]
    exact hold
  · have hold := h.cutOff t
    simp only [CutOff, List.mem_append, List.mem_singleton, OrderEvent.cut.injEq, hcancel] at hold ⊢
    constructor
    · intro hcut
      obtain ⟨c, hc | rfl, ht⟩ := hcut
      · exact Nat.lt_of_lt_of_le (hold.mp ⟨c, hc, ht⟩) h.bounded
      · exact hbelow ▸ ht
    · exact fun ht => ⟨_, Or.inr rfl, hbelow ▸ ht⟩
  · exact Nat.le_of_eq (hcancel.trans hticket.symm)
  · rw [closed_append_cut, hbelow]
    exact cut_frontier h.bounded h.frontier

theorem Ordered.notify (notifying : Nat) :
    Ordered { o with notifying := notifying }.notifyWaiters (out ++ []) := by
  refine h.keeps (by simp) ?_ (Nat.le_refl _) rfl rfl rfl fun t => ?_
  · simp [TtsSendOrder.notifyWaiters, h.issued]
  · rw [phase?_notifyWaiters]
    simp only [Option.map_eq_some_iff, wakePhase_eq_released]
    exact ⟨fun hsome => hsome.elim fun p hp => hp.2 ▸ hp.1, fun hsome => ⟨_, hsome, rfl⟩⟩

theorem Ordered.step (hs : OrderStep o i o' es) : Ordered o' (out ++ es) := by
  cases hs with
  | reserve replyId => exact h.reserve replyId
  | waitTurn id hphase | enable id hphase | checkWait id woken hphase | wake id hphase =>
    exact h.setPhase (by simp) hphase (by simp) (by simp)
  | checkCancelled id woken hphase | checkTurn id woken hphase | claimFailed id hphase =>
    exact h.setPhase (by simp [OrderEvent.Keeps]) hphase (by simp) (by simp)
  | claimed id hphase =>
    have hclaim : Ordered { o with state :=
        { o.state with pendingReply := o.state.pendingReply.erase id } } out :=
      ⟨h.issued, h.released, h.cutOff, h.bounded, h.frontier⟩
    exact hclaim.setPhase (by simp [OrderEvent.Keeps]) hphase (by simp) (by simp)
  | release id phase hphase => exact h.release hphase
  | cut => exact h.cut
  | notify => exact h.notify _

end

theorem OrderStep.le_nextTurn (hs : OrderStep o i o' es) :
    o.state.nextTurn ≤ o'.state.nextTurn := by
  cases hs with
  | reserve replyId => exact Nat.le_of_eq (reserve_fields o.state replyId).2.2.1.symm
  | release id => exact le_release_nextTurn o.state id
  | cut => exact le_cut_nextTurn o.state
  | _ => exact Nat.le_refl _

/-! ## Turns and claims -/

def OrderEvent.claimed? : OrderEvent → Option Nat
  | .claimed id => some id
  | _ => none

/-- The tickets claimed, in the order of the claims. -/
def claimedTickets (out : List OrderEvent) : List Nat := out.filterMap OrderEvent.claimed?

theorem claimedTickets_append (out es : List OrderEvent) :
    claimedTickets (out ++ es) = claimedTickets out ++ claimedTickets es := List.filterMap_append

variable {t : Nat}

theorem mem_claimedTickets : t ∈ claimedTickets out ↔ .claimed t ∈ out := by
  simp only [claimedTickets, List.mem_filterMap]
  constructor
  · intro h
    obtain ⟨e, he, ht⟩ := h
    cases e with
    | claimed id =>
      simp only [OrderEvent.claimed?, Option.some.injEq] at ht
      exact ht ▸ he
    | _ => simp [OrderEvent.claimed?] at ht
  · exact fun h => ⟨_, h, rfl⟩

/-- A send that is past its claim, if it made one. -/
def SendPhase.PastClaim (phase : SendPhase) : Prop := phase = .claimed ∨ phase = .released

/-- The sends that were given their turn against what was put out. -/
structure Turned (o : TtsSendOrder) (out : List OrderEvent) : Prop where
  reached : ∀ t, .turn t ∈ out → t ≤ o.state.nextTurn
  given : ∀ t, o.phase? t = some .turn → .turn t ∈ out
  claimed : ∀ t, .claimed t ∈ out →
    .turn t ∈ out ∧ ∃ phase, o.phase? t = some phase ∧ phase.PastClaim
  increasing : (claimedTickets out).Pairwise (· < ·)

theorem Turned.init : Turned .init [] where
  reached := by simp
  given := by simp [TtsSendOrder.phase?, TtsSendOrder.init]
  claimed := by simp
  increasing := List.Pairwise.nil

/-- An event that neither gives a turn nor claims it. -/
def OrderEvent.Waits : OrderEvent → Prop
  | .turn _ | .claimed _ => False
  | _ => True

section

variable (h : Turned o out)
include h

theorem Turned.keeps (hes : ∀ e ∈ es, e.Waits) (hturn : o.state.nextTurn ≤ o'.state.nextTurn)
    (hgiven : ∀ t, o'.phase? t = some .turn → o.phase? t = some .turn)
    (hpast : ∀ t phase, o.phase? t = some phase → phase.PastClaim →
      ∃ phase', o'.phase? t = some phase' ∧ phase'.PastClaim) :
    Turned o' (out ++ es) := by
  have hturnOld : ∀ t, .turn t ∈ out ++ es → .turn t ∈ out := by
    intro t ht
    exact (List.mem_append.mp ht).resolve_right fun hnew => hes _ hnew
  have hclaimOld : ∀ t, .claimed t ∈ out ++ es → .claimed t ∈ out := by
    intro t ht
    exact (List.mem_append.mp ht).resolve_right fun hnew => hes _ hnew
  refine ⟨fun t ht => ?_, fun t ht => ?_, fun t ht => ?_, ?_⟩
  · exact Nat.le_trans (h.reached t (hturnOld t ht)) hturn
  · exact List.mem_append_left es (h.given t (hgiven t ht))
  · obtain ⟨hgave, phase, hphase, hpc⟩ := h.claimed t (hclaimOld t ht)
    exact ⟨List.mem_append_left es hgave, hpast t phase hphase hpc⟩
  · have hnone : claimedTickets es = [] := by
      refine List.filterMap_eq_nil_iff.mpr fun e he => ?_
      cases e with
      | claimed id => exact (hes _ he).elim
      | _ => rfl
    rw [claimedTickets_append, hnone, List.append_nil]
    exact h.increasing

theorem Turned.setPhase {phase' : SendPhase} (hes : ∀ e ∈ es, e.Waits)
    (hphase : o.phase? id = some phase) (hne : phase' ≠ .turn)
    (hpast : phase.PastClaim → phase'.PastClaim) :
    Turned (o.setPhase id phase') (out ++ es) := by
  refine h.keeps hes (Nat.le_refl _) (fun t ht => ?_) (fun t p hp hpc => ?_)
  · rw [phase?_setPhase] at ht
    split at ht
    · simp [hne] at ht
    · exact ht
  · rw [phase?_setPhase]
    split
    · next heq =>
      subst heq
      rw [hphase] at hp
      cases hp
      exact ⟨phase', by rw [hphase]; rfl, hpast hpc⟩
    · exact ⟨p, hp, hpc⟩

theorem Turned.turn {woken : Bool} (hphase : o.phase? id = some (.enabled woken))
    (hturn : o.state.nextTurn = id) : Turned (o.setPhase id .turn) (out ++ [.turn id]) := by
  refine ⟨fun t ht => ?_, fun t ht => ?_, fun t ht => ?_, ?_⟩
  · rcases List.mem_append.mp ht with hold | hnew
    · exact h.reached t hold
    · rw [List.mem_singleton, OrderEvent.turn.injEq] at hnew
      exact Nat.le_of_eq (hnew.trans hturn.symm)
  · rw [phase?_setPhase] at ht
    split at ht
    · next heq => exact List.mem_append_right out (heq ▸ List.mem_singleton_self _)
    · exact List.mem_append_left _ (h.given t ht)
  · have hold : .claimed t ∈ out := (List.mem_append.mp ht).resolve_right (by simp)
    obtain ⟨hgave, p, hp, hpc⟩ := h.claimed t hold
    refine ⟨List.mem_append_left _ hgave, p, ?_, hpc⟩
    rw [phase?_setPhase, if_neg]
    · exact hp
    · intro heq
      rw [heq, hphase] at hp
      cases hp
      simp [SendPhase.PastClaim] at hpc
  · rw [claimedTickets_append, show claimedTickets [.turn id] = [] from rfl, List.append_nil]
    exact h.increasing

theorem Turned.has_turn (hordered : Ordered o out) (hgave : .turn t ∈ out)
    (hopen : t ∉ closedTickets out) :
    o.state.nextTurn = t := by
  rcases Nat.lt_or_eq_of_le (h.reached t hgave) with hlt | heq
  · exact absurd (hordered.frontier.below t hlt) hopen
  · exact heq.symm

theorem Turned.claim (hordered : Ordered o out) (hphase : o.phase? id = some .turn)
    (hlive : o.state.cancelBelow ≤ id) :
    Turned ({ o with state := { o.state with pendingReply := o.state.pendingReply.erase id } }.setPhase
      id .claimed) (out ++ [.claimed id]) := by
  have hopen : id ∉ closedTickets out := by
    intro hclosed
    rcases hclosed with hreleased | hcut
    · rw [hordered.released, hphase] at hreleased
      simp at hreleased
    · exact absurd ((hordered.cutOff id).mp hcut) (Nat.not_lt.mpr hlive)
  have hgave := h.given id hphase
  have hturn := h.has_turn hordered hgave hopen
  have hsame : ∀ t, TtsSendOrder.phase?
      { o with state := { o.state with pendingReply := o.state.pendingReply.erase id } } t =
        o.phase? t := fun _ => rfl
  refine ⟨fun t ht => ?_, fun t ht => ?_, fun t ht => ?_, ?_⟩
  · exact h.reached t ((List.mem_append.mp ht).resolve_right (by simp))
  · rw [phase?_setPhase] at ht
    split at ht
    · simp [hphase] at ht
    · exact List.mem_append_left _ (h.given t ht)
  · rw [phase?_setPhase, hsame, hphase]
    rcases List.mem_append.mp ht with hold | hnew
    · obtain ⟨hturned, p, hp, hpc⟩ := h.claimed t hold
      refine ⟨List.mem_append_left _ hturned, ?_⟩
      split
      · exact ⟨.claimed, rfl, Or.inl rfl⟩
      · exact ⟨p, hp, hpc⟩
    · rw [List.mem_singleton, OrderEvent.claimed.injEq] at hnew
      rw [if_pos hnew, hnew]
      exact ⟨List.mem_append_left _ hgave, .claimed, rfl, Or.inl rfl⟩
  · rw [claimedTickets_append, List.pairwise_append]
    refine ⟨h.increasing, List.pairwise_singleton _ _, fun t ht u hu => ?_⟩
    obtain ⟨hturned, p, hp, hpc⟩ := h.claimed t (mem_claimedTickets.mp ht)
    have hu' : u = id := by simpa using mem_claimedTickets.mp hu
    have hne : t ≠ id := by
      intro heq
      rw [heq, hphase] at hp
      cases hp
      simp [SendPhase.PastClaim] at hpc
    rw [hu']
    exact Nat.lt_of_le_of_ne (hturn ▸ h.reached t hturned) hne

theorem Turned.step (hordered : Ordered o out) (hs : OrderStep o i o' es) :
    Turned o' (out ++ es) := by
  have hle := hs.le_nextTurn
  cases hs with
  | reserve replyId =>
    refine h.keeps (by simp [OrderEvent.Waits]) hle (fun t ht => ?_) (fun t p hp hpc => ?_)
    · rw [phase?_append] at ht
      split at ht
      · simp at ht
      · exact ht
    · rw [phase?_append, if_neg]
      · exact ⟨p, hp, hpc⟩
      · intro heq
        rw [(phase?_eq_none o t).mpr (Nat.le_of_eq heq.symm)] at hp
        simp at hp
  | waitTurn id hphase | enable id hphase | wake id hphase | checkWait id woken hphase =>
    exact h.setPhase (by simp) hphase (by simp) (by simp [SendPhase.PastClaim])
  | checkCancelled id woken hphase | claimFailed id hphase =>
    exact h.setPhase (by simp [OrderEvent.Waits]) hphase (by simp) (by simp [SendPhase.PastClaim])
  | checkTurn id woken hphase _ hturn => exact h.turn hphase hturn
  | claimed id hphase hlive => exact h.claim hordered hphase hlive
  | release id phase hphase =>
    have hstate : Turned { o with
        state := o.state.release id, notifying := o.notifying + 1 } (out ++ []) :=
      h.keeps (by simp) (le_release_nextTurn o.state id) (fun t ht => ht)
        (fun t p hp hpc => ⟨p, hp, hpc⟩)
    rw [List.append_nil] at hstate
    exact hstate.setPhase (by simp [OrderEvent.Waits]) hphase (by simp) fun _ => Or.inr rfl
  | cut =>
    exact h.keeps (by simp [OrderEvent.Waits]) hle (fun t ht => ht) (fun t p hp hpc => ⟨p, hp, hpc⟩)
  | notify =>
    refine h.keeps (by simp) hle (fun t ht => ?_) (fun t p hp hpc => ?_)
    · rw [phase?_notifyWaiters, Option.map_eq_some_iff] at ht
      obtain ⟨p, hp, hwake⟩ := ht
      cases p <;> simp [TtsSendOrder.wakePhase] at hwake
      exact hp
    · rw [phase?_notifyWaiters]
      have hp' : o.phase? t = some p := hp
      refine ⟨TtsSendOrder.wakePhase p, congrArg (Option.map _) hp', ?_⟩
      rcases hpc with rfl | rfl
      · exact Or.inl rfl
      · exact Or.inr rfl

end

/-! ## Wake-ups -/

/-- The ticket's wait is over: its turn has come or a cut covers it. -/
def TtsSendOrder.Due (o : TtsSendOrder) (t : Nat) : Prop :=
  t < o.state.cancelBelow ∨ o.state.nextTurn = t

/-- A send that waits unwoken though its wait is over has a wake-up on its way. -/
def WakesPending (o : TtsSendOrder) : Prop :=
  ∀ t, o.phase? t = some (.awaiting false) → o.Due t → 0 < o.notifying

theorem WakesPending.setPhase (h : WakesPending o) (hphase : phase = .awaiting false → ¬ o.Due id) :
    WakesPending (o.setPhase id phase) := by
  intro t ht hdue
  rw [phase?_setPhase] at ht
  split at ht
  · next heq =>
    obtain ⟨p, -, hp⟩ := Option.map_eq_some_iff.mp ht
    subst heq
    exact absurd hdue (hphase hp)
  · exact h t ht hdue

theorem WakesPending.step (h : WakesPending o) (hs : OrderStep o i o' es) : WakesPending o' := by
  cases hs with
  | reserve replyId =>
    obtain ⟨-, hcancel, hturn, -⟩ := reserve_fields o.state replyId
    intro t ht hdue
    rw [phase?_append] at ht
    split at ht
    · simp at ht
    · refine h t ht ?_
      simp only [TtsSendOrder.Due, hcancel, hturn] at hdue
      exact hdue
  | checkWait id woken _ hlive hturn =>
    refine h.setPhase fun _ hdue => ?_
    rcases hdue with hcut | heq
    · exact absurd hcut (Nat.not_lt.mpr hlive)
    · exact hturn heq
  | claimed id =>
    have hclaim : WakesPending { o with state :=
        { o.state with pendingReply := o.state.pendingReply.erase id } } := h
    exact hclaim.setPhase (by simp)
  | release id | cut => exact fun t _ _ => Nat.succ_pos o.notifying
  | notify =>
    -- After a wake-up no send waits unwoken.
    intro t ht
    rw [phase?_notifyWaiters, Option.map_eq_some_iff] at ht
    obtain ⟨p, -, hwake⟩ := ht
    cases p <;> simp [TtsSendOrder.wakePhase] at hwake
  | _ => exact h.setPhase (by simp)

/-! ## Runs -/

structure OrderInv (o : TtsSendOrder) (out : List OrderEvent) : Prop where
  ordered : Ordered o out
  turned : Turned o out
  wakes : WakesPending o

theorem OrderInv.init : OrderInv .init [] where
  ordered := Ordered.init
  turned := Turned.init
  wakes := by simp [WakesPending, TtsSendOrder.phase?, TtsSendOrder.init]

theorem OrderInv.step (h : OrderInv o out) (hs : o.step i = some (o', es)) :
    OrderInv o' (out ++ es) := by
  have hspec := orderStep_of_step hs
  exact ⟨h.ordered.step hspec, h.turned.step h.ordered hspec, h.wakes.step hspec⟩

theorem run_orderInv {inputs : List OrderInput}
    (hrun : run TtsSendOrder.step .init inputs = some (o, out)) : OrderInv o out :=
  run_history (C := fun _ _ => True) (I := fun _ out o => OrderInv o out)
    (fun _ _ _ _ _ _ h _ hs => h.step hs) OrderInv.init (along_of_forall_mem (by simp) _) hrun

/-- A ticket that was issued, is not released and is covered by no cut. -/
def Live (o : TtsSendOrder) (out : List OrderEvent) (t : Nat) : Prop :=
  t < o.state.nextTicket ∧ ¬ Released out t ∧ ¬ CutOff out t

def SendPhase.Waiting : SendPhase → Prop
  | .polling | .enabled _ | .awaiting _ => True
  | _ => False

/-- A step of the wait of one send, or a wake-up. -/
def OrderInput.WaitStep (t : Nat) : OrderInput → Prop
  | .enable id | .check id | .wake id => id = t
  | .notify => True
  | _ => False

/-- The send can take its turn by its own steps and a wake-up on its way. -/
def CanTakeTurn (o : TtsSendOrder) (t : Nat) : Prop :=
  ∃ is o' es, (∀ i ∈ is, i.WaitStep t) ∧ run TtsSendOrder.step o is = some (o', es) ∧
    .turn t ∈ es

theorem CanTakeTurn.after (hi : i.WaitStep t) (hs : o.step i = some (o', [])) (h : CanTakeTurn o' t) :
    CanTakeTurn o t := by
  obtain ⟨is, o'', es, hall, hrun, hmem⟩ := h
  refine ⟨i :: is, o'', es, ?_, run_cons_eq_some.mpr ⟨o', [], es, hs, hrun, rfl⟩, hmem⟩
  intro j hj
  rcases List.mem_cons.mp hj with rfl | hrest
  · exact hi
  · exact hall j hrest

section Taking

variable {o : TtsSendOrder} {t : Nat} (hlive : o.state.cancelBelow ≤ t)
  (hturn : o.state.nextTurn = t)

include hlive hturn

theorem enabled_takes_turn (woken : Bool) (hphase : o.phase? t = some (.enabled woken)) :
    CanTakeTurn o t := by
  refine ⟨[.check t], o.setPhase t .turn, [.turn t], by simp [OrderInput.WaitStep], ?_, by simp⟩
  rw [run_singleton]
  simp only [TtsSendOrder.step, hphase, TtsSendOrder.checkTurn, if_neg (Nat.not_lt.mpr hlive),
    if_pos hturn]

theorem polling_takes_turn (hphase : o.phase? t = some .polling) : CanTakeTurn o t := by
  have hs : o.step (.enable t) = some (o.setPhase t (.enabled false), []) := by
    simp only [TtsSendOrder.step, hphase]
  refine CanTakeTurn.after (i := .enable t) rfl hs (enabled_takes_turn hlive hturn false ?_)
  rw [phase?_setPhase, if_pos rfl, hphase]
  rfl

theorem woken_takes_turn (hphase : o.phase? t = some (.awaiting true)) : CanTakeTurn o t := by
  have hs : o.step (.wake t) = some (o.setPhase t .polling, []) := by
    simp only [TtsSendOrder.step, hphase]
  refine CanTakeTurn.after (i := .wake t) rfl hs (polling_takes_turn hlive hturn ?_)
  rw [phase?_setPhase, if_pos rfl, hphase]
  rfl

theorem awaiting_takes_turn (hpending : 0 < o.notifying)
    (hphase : o.phase? t = some (.awaiting false)) : CanTakeTurn o t := by
  have hs : o.step .notify =
      some ({ o with notifying := o.notifying - 1 }.notifyWaiters, []) := by
    simp only [TtsSendOrder.step, if_neg (Nat.ne_of_gt hpending)]
  refine CanTakeTurn.after (i := .notify) trivial hs (woken_takes_turn hlive hturn ?_)
  rw [phase?_notifyWaiters]
  exact congrArg (Option.map _) hphase

end Taking

theorem OrderInv.takes_turn (h : OrderInv o out) (hphase : o.phase? t = some phase)
    (hwaiting : phase.Waiting) (hlive : o.state.cancelBelow ≤ t) (hturn : o.state.nextTurn = t) :
    CanTakeTurn o t := by
  cases phase with
  | polling => exact polling_takes_turn hlive hturn hphase
  | enabled woken => exact enabled_takes_turn hlive hturn woken hphase
  | awaiting woken =>
    cases woken with
    | true => exact woken_takes_turn hlive hturn hphase
    | false => exact awaiting_takes_turn hlive hturn (h.wakes t hphase (Or.inr hturn)) hphase
  | _ => exact hwaiting.elim

theorem OrderInv.claim_iff (h : OrderInv o out) (hs : o.step (.claim t) = some (o', es)) :
    (es = [.claimFailed t] ↔ CutOff out t) ∧ (es = [.claimed t] ↔ ¬ CutOff out t) := by
  rw [h.ordered.cutOff]
  cases orderStep_of_step hs with
  | claimed _ _ hlive => simp [hlive]
  | claimFailed _ _ hcut => simp [hcut]

/-- Over every interleaving of the sends, the releases and the cuts: the turn is the least
ticket neither released nor cut; of the live tickets at most one was given the turn; claims
succeed in ticket order; a live ticket with nothing live before it has the turn, a wait that
is over has a wake-up on its way, and a waiting send can take its turn; and a claim fails
exactly when a cut covers the ticket. -/
theorem turns_in_order {inputs : List OrderInput} {o : TtsSendOrder} {out : List OrderEvent}
    (hrun : run TtsSendOrder.step .init inputs = some (o, out)) :
    IsLeast {t | ¬ Released out t ∧ ¬ CutOff out t} o.state.nextTurn ∧
      (∀ t u, Live o out t → Live o out u → .turn t ∈ out → .turn u ∈ out → t = u) ∧
      (claimedTickets out).Pairwise (· < ·) ∧
      (∀ t, Live o out t → (∀ u < t, Released out u ∨ CutOff out u) → o.state.nextTurn = t) ∧
      (∀ t, o.phase? t = some (.awaiting false) → CutOff out t ∨ o.state.nextTurn = t →
        0 < o.notifying) ∧
      (∀ t phase, Live o out t → (∀ u < t, Released out u ∨ CutOff out u) →
        o.phase? t = some phase → phase.Waiting → CanTakeTurn o t) ∧
      (∀ t o' es, o.step (.claim t) = some (o', es) →
        (es = [.claimFailed t] ↔ CutOff out t) ∧ (es = [.claimed t] ↔ ¬ CutOff out t)) := by
  have h := run_orderInv hrun
  have hopen : ∀ t, Live o out t → t ∉ closedTickets out := by
    intro t hlive hclosed
    exact hclosed.elim hlive.2.1 hlive.2.2
  have hfirst : ∀ t, Live o out t → (∀ u < t, Released out u ∨ CutOff out u) →
      o.state.nextTurn = t := by
    intro t hlive hbefore
    exact h.ordered.frontier.eq_front (hopen t hlive) hbefore
  refine ⟨?_, fun t u ht hu hgave hgave' => ?_, h.turned.increasing, hfirst, fun t ht hdue => ?_,
    fun t phase hlive hbefore hphase hwaiting => ?_, fun t o' es hs => h.claim_iff hs⟩
  · have hset : {t | ¬ Released out t ∧ ¬ CutOff out t} = {t | t ∉ closedTickets out} := by
      simp only [closedTickets, Set.mem_ofPred_eq, not_or]
    rw [hset]
    exact h.ordered.frontier.isLeast
  · have hturn := h.turned.has_turn h.ordered hgave (hopen t ht)
    exact hturn.symm.trans (h.turned.has_turn h.ordered hgave' (hopen u hu))
  · exact h.wakes t ht (hdue.imp_left (h.ordered.cutOff t).mp)
  · have hlate : o.state.cancelBelow ≤ t :=
      Nat.le_of_not_lt fun hlt => hlive.2.2 ((h.ordered.cutOff t).mpr hlt)
    exact h.takes_turn hphase hwaiting hlate (hfirst t hlive hbefore)

/-- Three sends, of which the second gives up first: the third waits, is woken when the first
is done, and claims; a fourth is cut on its way. -/
theorem turns_in_order_overtaken :
    ∃ o out, run TtsSendOrder.step .init
        [.reserve (some "a"), .reserve none, .reserve (some "c"), .release 1,
          .waitTurn 2, .enable 2, .check 2, .waitTurn 0, .enable 0, .check 0, .claim 0,
          .release 0, .notify, .notify, .wake 2, .enable 2, .check 2, .claim 2,
          .reserve (some "d"), .cut, .release 2] = some (o, out) ∧
      o.state.nextTurn = 4 ∧ (claimedTickets out).Pairwise (· < ·) := by
  obtain ⟨o, out, hrun, hturn⟩ : ∃ o out, run TtsSendOrder.step .init
      [.reserve (some "a"), .reserve none, .reserve (some "c"), .release 1,
        .waitTurn 2, .enable 2, .check 2, .waitTurn 0, .enable 0, .check 0, .claim 0,
        .release 0, .notify, .notify, .wake 2, .enable 2, .check 2, .claim 2,
        .reserve (some "d"), .cut, .release 2] = some (o, out) ∧ o.state.nextTurn = 4 :=
    ⟨_, _, rfl, rfl⟩
  exact ⟨o, out, hrun, hturn, (turns_in_order hrun).2.2.1⟩

end NodeWebrtc.Speech
