import Mathlib.Data.List.Nodup
import Mathlib.Data.List.TakeWhile
import NodeWebrtc.Lib.Machine

/-! # TTS synthesis slots with two priorities

A fixed number of slots is shared by every session. A free slot is taken at once; otherwise
the caller waits in the queue of its priority for a grant. Dropping a permit releases its
slot: the release picks a waiter under the lock and sends it the permit outside the lock, and
a waiter may go away at any moment in between.

A waiter is the index of its channel. A step is one critical section of the lock, one
operation on a channel, or one drop; the steps of all tasks interleave in any order.
-/

namespace NodeWebrtc.Sherpa

def MAX_FIRST_IN_A_ROW : Nat := 3

inductive TtsPriority where
  | first
  | continuation
deriving DecidableEq, Repr

/-- The channel of a waiter: nothing sent, a permit sent and not received, the permit received,
or the waiter gone. -/
inductive Channel where
  | waiting
  | granted
  | received
  | closed
deriving DecidableEq, Repr

/-! ## The locked state -/

structure SlotState where
  free : Nat
  first : List Nat
  continuation : List Nat
  /-- `First` grants in a row while a `Continuation` was waiting. -/
  firstStreak : Nat
deriving DecidableEq, Repr

namespace SlotState

/-- Drops waiters whose future was dropped, from the front of both queues. -/
def pruneClosedFront (s : SlotState) (closed : Nat → Bool) : SlotState :=
  { s with
    first := s.first.dropWhile closed
    continuation := s.continuation.dropWhile closed }

def pickPruned (s : SlotState) : Option Nat × SlotState :=
  let continuationWaiting := !s.continuation.isEmpty
  let serveContinuation :=
    continuationWaiting && (s.first.isEmpty || decide (MAX_FIRST_IN_A_ROW ≤ s.firstStreak))
  if serveContinuation then
    (s.continuation.head?, { s with firstStreak := 0, continuation := s.continuation.tail })
  else
    match s.first with
    | [] => (none, s)
    | next :: rest =>
      (some next, { s with
        first := rest
        firstStreak := if continuationWaiting then s.firstStreak + 1 else 0 })

def pick (s : SlotState) (closed : Nat → Bool) : Option Nat × SlotState :=
  (s.pruneClosedFront closed).pickPruned

def pushBack (s : SlotState) (priority : TtsPriority) (waiter : Nat) : SlotState :=
  match priority with
  | .first => { s with first := s.first ++ [waiter] }
  | .continuation => { s with continuation := s.continuation ++ [waiter] }

def queued (s : SlotState) : List Nat := s.first ++ s.continuation

end SlotState

/-! ## The tasks -/

/-- The slots and what the tasks hold: `permits` in use, `picking` releases about to take the
lock, and the waiters that a release picked and has not sent to yet. -/
structure TtsSlots where
  state : SlotState
  channels : List Channel
  permits : Nat
  picking : Nat
  delivering : List Nat
deriving DecidableEq, Repr

inductive SlotOp where
  | acquire (priority : TtsPriority)
  | receive (waiter : Nat)
  /-- A waiter's future is dropped; a permit already in its channel is dropped with it. -/
  | cancel (waiter : Nat)
  | dropPermit
  | pick
  /-- A release sends the permit, or finds the receiver gone and goes round. -/
  | deliver (waiter : Nat)
deriving DecidableEq, Repr

namespace TtsSlots

def new (slots : Nat) : TtsSlots := ⟨⟨slots, [], [], 0⟩, [], 0, 0, []⟩

def isClosed (s : TtsSlots) (waiter : Nat) : Bool := s.channels[waiter]? == some .closed

def setChannel (s : TtsSlots) (waiter : Nat) (c : Channel) : TtsSlots :=
  { s with channels := s.channels.set waiter c }

def acquire (s : TtsSlots) (priority : TtsPriority) : TtsSlots :=
  if 0 < s.state.free then
    { s with state := { s.state with free := s.state.free - 1 }, permits := s.permits + 1 }
  else
    { s with
      state := s.state.pushBack priority s.channels.length
      channels := s.channels ++ [.waiting] }

def releasePick (s : TtsSlots) : TtsSlots :=
  match s.state.pick s.isClosed with
  | (some waiter, state) =>
    { s with state, picking := s.picking - 1, delivering := s.delivering ++ [waiter] }
  | (none, state) =>
    { s with state := { state with free := state.free + 1 }, picking := s.picking - 1 }

/-- The outputs are the waiters a permit was sent to. -/
def step (s : TtsSlots) : SlotOp → Option (TtsSlots × List Nat)
  | .acquire priority => some (s.acquire priority, [])
  | .receive waiter =>
    if s.channels[waiter]? = some .granted then
      some ({ s.setChannel waiter .received with permits := s.permits + 1 }, [])
    else none
  | .cancel waiter =>
    match s.channels[waiter]? with
    | some .waiting => some (s.setChannel waiter .closed, [])
    | some .granted => some ({ s.setChannel waiter .closed with picking := s.picking + 1 }, [])
    | _ => none
  | .dropPermit =>
    if 0 < s.permits then
      some ({ s with permits := s.permits - 1, picking := s.picking + 1 }, [])
    else none
  | .pick => if 0 < s.picking then some (s.releasePick, []) else none
  | .deliver waiter =>
    if waiter ∈ s.delivering then
      let sent := { s with delivering := s.delivering.erase waiter }
      if s.isClosed waiter then some ({ sent with picking := s.picking + 1 }, [])
      else some (sent.setChannel waiter .granted, [waiter])
    else none

/-! ## What is counted -/

/-- Releases that hold a slot without a live waiter to send it to. -/
def returning (s : TtsSlots) : Nat := s.picking + s.delivering.countP s.isClosed

/-- Permits that exist: a permit lives until its drop has passed the slot on or freed it. -/
def livePermits (s : TtsSlots) : Nat := s.permits + s.returning

/-- Grants picked for, or sent to, a waiter that is still there. -/
def inTransit (s : TtsSlots) : Nat :=
  s.channels.count .granted + s.delivering.countP fun w => !s.isClosed w

/-- The waiters whose sender exists, in a queue or in a release. -/
def senders (s : TtsSlots) : List Nat := s.state.queued ++ s.delivering

structure Conserved (slots : Nat) (s : TtsSlots) : Prop where
  total : s.state.free + s.permits + s.picking + s.delivering.length + s.channels.count .granted =
    slots
  idle : 0 < s.state.free → s.state.queued = []
  distinct : s.senders.Nodup
  unsent : ∀ w ∈ s.senders, s.channels[w]? = some .waiting ∨ s.channels[w]? = some .closed
  kept : ∀ w : Nat, s.channels[w]? = some .waiting → w ∈ s.senders

/-! ## Picking -/

theorem pickPruned_spec (s : SlotState) : s.pickPruned.2.free = s.free ∧
    ((∃ w, s.pickPruned.1 = some w ∧ s.queued.Perm (w :: s.pickPruned.2.queued)) ∨
      (s.pickPruned.1 = none ∧ s.pickPruned.2 = s ∧ s.queued = [])) := by
  unfold SlotState.pickPruned
  dsimp only
  split <;> rename_i hserve
  · cases hcontinuation : s.continuation with
    | nil =>
      rw [hcontinuation] at hserve
      contradiction
    | cons w rest =>
      refine ⟨rfl, .inl ⟨w, rfl, ?_⟩⟩
      unfold SlotState.queued
      rw [hcontinuation]
      exact List.perm_middle
  · cases hfirst : s.first with
    | nil =>
      rw [hfirst] at hserve
      have hnone : s.continuation = [] := by simpa using hserve
      refine ⟨rfl, .inr ⟨rfl, rfl, ?_⟩⟩
      unfold SlotState.queued
      rw [hfirst, hnone]
      rfl
    | cons w rest =>
      refine ⟨rfl, .inl ⟨w, rfl, ?_⟩⟩
      unfold SlotState.queued
      rw [hfirst]
      exact List.Perm.refl _

theorem pruneClosedFront_spec (s : SlotState) (closed : Nat → Bool) :
    (s.pruneClosedFront closed).free = s.free ∧ ∃ dropped, (∀ w ∈ dropped, closed w = true) ∧
      s.queued.Perm (dropped ++ (s.pruneClosedFront closed).queued) := by
  refine ⟨rfl, s.first.takeWhile closed ++ s.continuation.takeWhile closed, fun w hw => ?_, ?_⟩
  · rcases List.mem_append.mp hw with hw | hw <;> exact List.mem_takeWhile_imp hw
  · show (s.first ++ s.continuation).Perm
      ((s.first.takeWhile closed ++ s.continuation.takeWhile closed) ++
        (s.first.dropWhile closed ++ s.continuation.dropWhile closed))
    conv_lhs => rw [← List.takeWhile_append_dropWhile (p := closed) (l := s.first),
      ← List.takeWhile_append_dropWhile (p := closed) (l := s.continuation)]
    rw [List.append_assoc, List.append_assoc]
    apply List.Perm.append_left
    rw [← List.append_assoc, ← List.append_assoc]
    exact List.perm_append_comm.append_right _

theorem pick_spec (s : SlotState) (closed : Nat → Bool) : (s.pick closed).2.free = s.free ∧
    ∃ dropped, (∀ w ∈ dropped, closed w = true) ∧
      ((∃ w, (s.pick closed).1 = some w ∧
          s.queued.Perm (dropped ++ w :: (s.pick closed).2.queued)) ∨
        ((s.pick closed).1 = none ∧ (s.pick closed).2.queued = [] ∧ s.queued.Perm dropped)) := by
  obtain ⟨hprunedFree, dropped, hdropped, hpruned⟩ := pruneClosedFront_spec s closed
  obtain ⟨hfree, hpicked⟩ := pickPruned_spec (s.pruneClosedFront closed)
  refine ⟨hfree.trans hprunedFree, dropped, hdropped, ?_⟩
  rcases hpicked with ⟨w, hw, hperm⟩ | ⟨hnone, hsame, hempty⟩
  · exact .inl ⟨w, hw, hpruned.trans (hperm.append_left _)⟩
  · rw [hempty, List.append_nil] at hpruned
    exact .inr ⟨hnone, by rw [SlotState.pick, hsame, hempty], hpruned⟩

/-! ## What every step keeps -/

variable {slots : Nat} {s : TtsSlots}

theorem Conserved.moves {t : TtsSlots} (h : s.Conserved slots) (hchannels : t.channels = s.channels)
    (hqueued : t.state.queued = s.state.queued) (hdelivering : t.delivering = s.delivering)
    (htotal : t.state.free + t.permits + t.picking = s.state.free + s.permits + s.picking)
    (hidle : 0 < t.state.free → s.state.queued = []) : t.Conserved slots := by
  have hsenders : t.senders = s.senders := by
    unfold senders
    rw [hqueued, hdelivering]
  have hold := h.total
  refine ⟨?_, fun hfree => hqueued.trans (hidle hfree), hsenders ▸ h.distinct, ?_, ?_⟩
  · rw [hchannels, hdelivering]
    omega
  · rw [hsenders, hchannels]
    exact h.unsent
  · rw [hsenders, hchannels]
    exact h.kept

theorem queued_pushBack (state : SlotState) (priority : TtsPriority) (w : Nat) :
    (state.pushBack priority w).queued.Perm (w :: state.queued) := by
  cases priority with
  | first =>
    show (state.first ++ [w] ++ state.continuation).Perm _
    rw [List.append_assoc]
    exact List.perm_middle
  | continuation =>
    show (state.first ++ (state.continuation ++ [w])).Perm _
    rw [← List.append_assoc]
    exact List.perm_append_comm

theorem Conserved.lt_length (h : s.Conserved slots) {w : Nat} (hw : w ∈ s.senders) :
    w < s.channels.length := by
  rcases h.unsent w hw with hsome | hsome <;> exact (List.getElem?_eq_some_iff.mp hsome).1

theorem Conserved.acquire (h : s.Conserved slots) (priority : TtsPriority) :
    (s.acquire priority).Conserved slots := by
  unfold TtsSlots.acquire
  by_cases hfree : 0 < s.state.free
  · rw [if_pos hfree]
    refine h.moves rfl rfl rfl ?_ fun _ => h.idle hfree
    show s.state.free - 1 + (s.permits + 1) + s.picking = _
    omega
  · rw [if_neg hfree]
    have hsenders : (senders { s with
        state := s.state.pushBack priority s.channels.length
        channels := s.channels ++ [.waiting] }).Perm (s.channels.length :: s.senders) :=
      (queued_pushBack s.state priority s.channels.length).append_right _
    have hold := h.total
    have hsame : (s.state.pushBack priority s.channels.length).free = s.state.free := by
      cases priority <;> rfl
    refine ⟨?_, fun hpos => ?_, ?_, fun w hw => ?_, fun w hw => ?_⟩
    · show (s.state.pushBack priority s.channels.length).free + s.permits + s.picking +
        s.delivering.length + (s.channels ++ [Channel.waiting]).count Channel.granted = slots
      rw [hsame, List.count_append]
      exact hold
    · exact absurd (hsame ▸ hpos) hfree
    · rw [hsenders.nodup_iff, List.nodup_cons]
      exact ⟨fun hmem => absurd (h.lt_length hmem) (Nat.lt_irrefl _), h.distinct⟩
    · rcases List.mem_cons.mp (hsenders.mem_iff.mp hw) with rfl | hw
      · left
        exact List.getElem?_concat_length
      · show (s.channels ++ [.waiting])[w]? = _ ∨ (s.channels ++ [.waiting])[w]? = _
        rw [List.getElem?_append_left (h.lt_length hw)]
        exact h.unsent w hw
    · apply hsenders.mem_iff.mpr
      have hw' : (s.channels ++ [.waiting])[w]? = some .waiting := hw
      rcases Nat.lt_trichotomy w s.channels.length with hlt | heq | hgt
      · rw [List.getElem?_append_left hlt] at hw'
        exact List.mem_cons_of_mem _ (h.kept w hw')
      · exact heq ▸ List.mem_cons_self
      · rw [List.getElem?_eq_none (by rw [List.length_append, List.length_singleton]; omega)] at hw'
        contradiction

theorem Conserved.releasePick (h : s.Conserved slots) (hpicking : 0 < s.picking) :
    s.releasePick.Conserved slots := by
  obtain ⟨hfree, dropped, hdropped, hcases⟩ := pick_spec s.state s.isClosed
  have hold := h.total
  unfold TtsSlots.releasePick
  generalize s.state.pick s.isClosed = picked at hfree hcases ⊢
  obtain ⟨next, state⟩ := picked
  rcases hcases with ⟨w, rfl, hperm⟩ | ⟨rfl, hempty, hperm⟩
  · have hsenders : s.senders.Perm (dropped ++ (state.queued ++ (s.delivering ++ [w]))) := by
      apply (hperm.append_right s.delivering).trans
      rw [List.append_assoc, List.cons_append]
      apply List.Perm.append_left
      rw [← List.append_assoc]
      exact @List.perm_append_comm _ [w] _
    have hdistinct := hsenders.nodup_iff.mp h.distinct
    refine ⟨?_, fun hpos => ?_, (List.nodup_append.mp hdistinct).2.1, fun x hx => ?_, fun x hx => ?_⟩
    · show state.free + s.permits + (s.picking - 1) + (s.delivering ++ [w]).length +
        s.channels.count .granted = slots
      rw [List.length_append, List.length_singleton, hfree]
      omega
    · have hnone := h.idle (hfree ▸ hpos)
      rw [hnone] at hperm
      have hlength := hperm.length_eq
      rw [List.length_append, List.length_cons, List.length_nil] at hlength
      omega
    · exact h.unsent x (hsenders.mem_iff.mpr (List.mem_append_right _ hx))
    · rcases List.mem_append.mp (hsenders.mem_iff.mp (h.kept x hx)) with hgone | hx'
      · have hclosed := hdropped x hgone
        unfold isClosed at hclosed
        rw [show s.channels[x]? = some .waiting from hx] at hclosed
        contradiction
      · exact hx'
  · have hsenders : s.senders.Perm (dropped ++ s.delivering) := hperm.append_right s.delivering
    have hkept : senders { s with
        state := { state with free := state.free + 1 }, picking := s.picking - 1 } =
        s.delivering := by
      show state.queued ++ s.delivering = _
      rw [hempty]
      rfl
    have hdistinct := hsenders.nodup_iff.mp h.distinct
    refine ⟨?_, fun _ => hempty, ?_, fun x hx => ?_, fun x hx => ?_⟩
    · show state.free + 1 + s.permits + (s.picking - 1) + s.delivering.length +
        s.channels.count .granted = slots
      rw [hfree]
      omega
    · rw [hkept]
      exact (List.nodup_append.mp hdistinct).2.1
    · rw [hkept] at hx
      exact h.unsent x (hsenders.mem_iff.mpr (List.mem_append_right _ hx))
    · rw [hkept]
      rcases List.mem_append.mp (hsenders.mem_iff.mp (h.kept x hx)) with hgone | hx'
      · have hclosed := hdropped x hgone
        unfold isClosed at hclosed
        rw [show s.channels[x]? = some .waiting from hx] at hclosed
        contradiction
      · exact hx'

theorem getElem?_setChannel {w : Nat} {old : Channel} (hold : s.channels[w]? = some old)
    (c : Channel) (x : Nat) :
    (s.channels.set w c)[x]? = if x = w then some c else s.channels[x]? := by
  obtain ⟨hlt, -⟩ := List.getElem?_eq_some_iff.mp hold
  rw [List.getElem?_set]
  by_cases hx : w = x
  · rw [if_pos hx, if_pos (hx ▸ hlt), if_pos hx.symm]
  · rw [if_neg hx, if_neg (fun heq => hx heq.symm)]

theorem count_setChannel {w : Nat} {old : Channel} (hold : s.channels[w]? = some old)
    (c : Channel) : (s.channels.set w c).count .granted + (if old = .granted then 1 else 0) =
      s.channels.count .granted + if c = .granted then 1 else 0 := by
  obtain ⟨hlt, hget⟩ := List.getElem?_eq_some_iff.mp hold
  rw [List.count_set hlt, hget]
  have hcount : old = .granted → 0 < s.channels.count .granted := fun heq => by
    rw [List.count_pos_iff, ← heq]
    exact List.mem_of_getElem? hold
  by_cases hgranted : old = .granted
  · have hpos := hcount hgranted
    simp only [hgranted, beq_self_eq_true, if_true, beq_iff_eq]
    omega
  · simp only [hgranted, beq_iff_eq, if_false]
    omega

theorem Conserved.setChannel {t : TtsSlots} (h : s.Conserved slots) {w : Nat} {old c : Channel}
    (hold : s.channels[w]? = some old) (hchannels : t.channels = s.channels.set w c)
    (hstate : t.state = s.state) (hdelivering : t.delivering = s.delivering)
    (htotal : t.permits + t.picking + (if c = .granted then 1 else 0) =
      s.permits + s.picking + if old = .granted then 1 else 0)
    (hunsent : w ∈ s.senders → c = .waiting ∨ c = .closed)
    (hkept : c = .waiting → w ∈ s.senders) : t.Conserved slots := by
  have hsum := h.total
  have hcount := count_setChannel hold c
  have hsenders : t.senders = s.senders := by
    unfold senders
    rw [hstate, hdelivering]
  refine ⟨?_, hstate ▸ h.idle, hsenders ▸ h.distinct, fun x hx => ?_, fun x hx => ?_⟩
  · rw [hstate, hdelivering, hchannels]
    omega
  · rw [hsenders] at hx
    rw [hchannels, getElem?_setChannel hold]
    by_cases heq : x = w
    · rw [if_pos heq, Option.some.injEq, Option.some.injEq]
      exact hunsent (heq ▸ hx)
    · rw [if_neg heq]
      exact h.unsent x hx
  · rw [hsenders]
    rw [hchannels, getElem?_setChannel hold] at hx
    by_cases heq : x = w
    · rw [if_pos heq, Option.some.injEq] at hx
      exact heq ▸ hkept hx
    · rw [if_neg heq] at hx
      exact h.kept x hx

theorem Conserved.deliver {t : TtsSlots} (h : s.Conserved slots) {w : Nat}
    (hmem : w ∈ s.delivering) (hstate : t.state = s.state) (hpermits : t.permits = s.permits)
    (hdelivering : t.delivering = s.delivering.erase w)
    (hcases : (s.isClosed w = true ∧ t.channels = s.channels ∧ t.picking = s.picking + 1) ∨
      (s.isClosed w = false ∧ t.channels = s.channels.set w .granted ∧ t.picking = s.picking)) :
    t.Conserved slots := by
  have hsenders : s.senders.Perm (w :: t.senders) := by
    unfold senders
    rw [hstate, hdelivering]
    exact ((List.perm_cons_erase hmem).append_left _).trans List.perm_middle
  have hdistinct := List.nodup_cons.mp (hsenders.nodup_iff.mp h.distinct)
  have hlength := hsenders.length_eq
  have hsum := h.total
  have hshorter : s.delivering.length = t.delivering.length + 1 := by
    rw [hdelivering, List.length_erase_of_mem hmem]
    have hpos := List.length_pos_of_mem hmem
    omega
  have hw : w ∈ s.senders := hsenders.mem_iff.mpr List.mem_cons_self
  rcases hcases with ⟨hclosed, hchannels, hpicking⟩ | ⟨hopen, hchannels, hpicking⟩
  · refine ⟨?_, hstate ▸ h.idle, hdistinct.2, fun x hx => ?_, fun x hx => ?_⟩
    · rw [hstate, hpermits, hchannels, hpicking]
      omega
    · rw [hchannels]
      exact h.unsent x (hsenders.mem_iff.mpr (List.mem_cons_of_mem w hx))
    · rw [hchannels] at hx
      rcases List.mem_cons.mp (hsenders.mem_iff.mp (h.kept x hx)) with rfl | hx'
      · unfold isClosed at hclosed
        rw [hx] at hclosed
        contradiction
      · exact hx'
  · have hwaiting : s.channels[w]? = some .waiting := by
      rcases h.unsent w hw with hwaiting | hgone
      · exact hwaiting
      · unfold isClosed at hopen
        rw [hgone] at hopen
        contradiction
    have hcount := count_setChannel hwaiting .granted
    rw [if_neg (by simp), if_pos rfl] at hcount
    refine ⟨?_, hstate ▸ h.idle, hdistinct.2, fun x hx => ?_, fun x hx => ?_⟩
    · rw [hstate, hpermits, hchannels, hpicking]
      omega
    · have hne : x ≠ w := fun heq => hdistinct.1 (heq ▸ hx)
      rw [hchannels, getElem?_setChannel hwaiting, if_neg hne]
      exact h.unsent x (hsenders.mem_iff.mpr (List.mem_cons_of_mem w hx))
    · rw [hchannels, getElem?_setChannel hwaiting] at hx
      by_cases heq : x = w
      · rw [if_pos heq] at hx
        contradiction
      · rw [if_neg heq] at hx
        exact List.mem_of_ne_of_mem heq (hsenders.mem_iff.mp (h.kept x hx))

theorem step_conserved {t : TtsSlots} {op : SlotOp} {out : List Nat} (h : s.Conserved slots)
    (hs : s.step op = some (t, out)) : t.Conserved slots := by
  cases op with
  | acquire priority =>
    cases hs
    exact h.acquire priority
  | receive w =>
    obtain ⟨hgranted, hs⟩ := Option.ite_none_right_eq_some.mp hs
    cases hs
    refine h.setChannel hgranted rfl rfl rfl ?_ (fun hw => ?_) (fun hno => by contradiction)
    · show s.permits + 1 + s.picking + 0 = s.permits + s.picking + 1
      omega
    · rcases h.unsent w hw with hno | hno
      all_goals
        rw [hgranted] at hno
        contradiction
  | cancel w =>
    unfold step at hs
    dsimp only at hs
    cases hchannel : s.channels[w]? with rw [hchannel] at hs
    | none =>
      contradiction
    | some c =>
      cases c with
      | waiting | granted =>
        cases hs
        exact h.setChannel hchannel rfl rfl rfl rfl (fun _ => .inr rfl)
          (fun hno => by contradiction)
      | received | closed => contradiction
  | dropPermit =>
    obtain ⟨hpermits, hs⟩ := Option.ite_none_right_eq_some.mp hs
    cases hs
    refine h.moves rfl rfl rfl ?_ h.idle
    show s.state.free + (s.permits - 1) + (s.picking + 1) = _
    omega
  | pick =>
    obtain ⟨hpicking, hs⟩ := Option.ite_none_right_eq_some.mp hs
    cases hs
    exact h.releasePick hpicking
  | deliver w =>
    obtain ⟨hmem, hs⟩ := Option.ite_none_right_eq_some.mp hs
    cases hclosed : s.isClosed w with
    | true =>
      rw [hclosed, if_pos rfl] at hs
      cases hs
      exact h.deliver hmem rfl rfl rfl (.inl ⟨hclosed, rfl, rfl⟩)
    | false =>
      rw [hclosed, if_neg Bool.false_ne_true] at hs
      cases hs
      exact h.deliver hmem rfl rfl rfl (.inr ⟨hclosed, rfl, rfl⟩)

theorem new_conserved (slots : Nat) : (new slots).Conserved slots := by
  refine ⟨rfl, fun _ => rfl, List.nodup_nil, fun w hw => ?_, fun w hw => ?_⟩
  · exact absurd hw List.not_mem_nil
  · rw [show (new slots).channels = [] from rfl, List.getElem?_nil] at hw
    contradiction

/-! ## Releases end -/

def IsRelease : SlotOp → Bool
  | .pick => true
  | .deliver _ => true
  | _ => false

def backlog (s : TtsSlots) : Nat := 2 * s.senders.length + s.picking

theorem release_decreases {t : TtsSlots} {op : SlotOp} {out : List Nat} (hop : IsRelease op = true)
    (hs : s.step op = some (t, out)) : t.backlog < s.backlog := by
  unfold backlog
  cases op with
  | acquire | receive | cancel | dropPermit => contradiction
  | pick =>
    obtain ⟨hpicking, hs⟩ := Option.ite_none_right_eq_some.mp hs
    cases hs
    obtain ⟨-, dropped, -, hcases⟩ := pick_spec s.state s.isClosed
    unfold TtsSlots.releasePick
    generalize s.state.pick s.isClosed = picked at hcases ⊢
    obtain ⟨next, state⟩ := picked
    dsimp only at hcases ⊢
    rcases hcases with ⟨w, rfl, hperm⟩ | ⟨rfl, hempty, hperm⟩
    · have hlength := hperm.length_eq
      rw [List.length_append, List.length_cons] at hlength
      show 2 * (state.queued ++ (s.delivering ++ [w])).length + (s.picking - 1) <
        2 * (s.state.queued ++ s.delivering).length + s.picking
      rw [List.length_append, List.length_append, List.length_append, List.length_singleton]
      omega
    · show 2 * (state.queued ++ s.delivering).length + (s.picking - 1) <
        2 * (s.state.queued ++ s.delivering).length + s.picking
      rw [hempty, List.length_append, List.length_append, List.length_nil]
      omega
  | deliver w =>
    obtain ⟨hmem, hs⟩ := Option.ite_none_right_eq_some.mp hs
    have hpos := List.length_pos_of_mem hmem
    have herase := List.length_erase_of_mem hmem
    have hlonger : (s.state.queued ++ s.delivering.erase w).length + 1 = s.senders.length := by
      unfold senders
      rw [List.length_append, List.length_append]
      omega
    cases hclosed : s.isClosed w with
    | true =>
      rw [hclosed, if_pos rfl] at hs
      cases hs
      show 2 * (s.state.queued ++ s.delivering.erase w).length + (s.picking + 1) < _
      omega
    | false =>
      rw [hclosed, if_neg Bool.false_ne_true] at hs
      cases hs
      show 2 * (s.state.queued ++ s.delivering.erase w).length + s.picking < _
      omega

theorem releases_bounded {ops : List SlotOp} {t : TtsSlots} {out : List Nat}
    (hops : ∀ op ∈ ops, IsRelease op = true) (hrun : Machine.run step s ops = some (t, out)) :
    ops.length ≤ s.backlog := by
  induction ops generalizing s out with
  | nil => exact Nat.zero_le _
  | cons op ops ih =>
    obtain ⟨u, first, rest, hs, htail, -⟩ := Machine.run_cons_eq_some.mp hrun
    have hless := release_decreases (hops op List.mem_cons_self) hs
    have htailLe := ih (fun o ho => hops o (List.mem_cons_of_mem op ho)) htail
    rw [List.length_cons]
    omega

theorem release_enabled (hbusy : s.picking ≠ 0 ∨ s.delivering ≠ []) :
    ∃ op t out, IsRelease op = true ∧ s.step op = some (t, out) := by
  by_cases hpicking : 0 < s.picking
  · exact ⟨.pick, _, _, rfl, if_pos hpicking⟩
  · cases hdelivering : s.delivering with
    | nil =>
      rcases hbusy with hbusy | hbusy
      · omega
      · contradiction
    | cons w rest =>
      have hmem : w ∈ s.delivering := hdelivering ▸ List.mem_cons_self
      cases hclosed : s.isClosed w with
      | true => exact ⟨.deliver w, _, _, rfl, (if_pos hmem).trans (if_pos hclosed)⟩
      | false => exact ⟨.deliver w, _, _, rfl, (if_pos hmem).trans (if_neg (by rw [hclosed]; simp))⟩

/-- In every state of every interleaving: free slots, live permits and grants on their way to a
live waiter make up all slots; a free slot means that nobody waits; and every waiter that is
still there is in one queue or about to be sent to. The releases under way end: they take at
most `backlog` steps, and while one holds a slot it can go on, to the next waiter or to the
free slots. -/
theorem slots_conserved (slots : Nat) {ops : List SlotOp} {s : TtsSlots} {out : List Nat}
    (hrun : Machine.run step (new slots) ops = some (s, out)) :
    s.state.free + s.livePermits + s.inTransit = slots ∧
      (0 < s.state.free → s.state.first = [] ∧ s.state.continuation = []) ∧
      (∀ w : Nat, s.channels[w]? = some .waiting → s.senders.count w = 1) ∧
      (∀ rest t out', (∀ op ∈ rest, IsRelease op = true) →
        Machine.run step s rest = some (t, out') → rest.length ≤ s.backlog) ∧
      (s.picking ≠ 0 ∨ s.delivering ≠ [] →
        ∃ op t out', IsRelease op = true ∧ s.step op = some (t, out')) := by
  have h : s.Conserved slots := Machine.run_invariant (C := fun _ _ => True)
    (I := Conserved slots) (fun _ _ _ _ h _ hs => step_conserved h hs) (new_conserved slots)
    (Machine.along_of_forall_mem (P := fun _ => True) (fun _ _ => trivial) _) hrun
  refine ⟨?_, fun hfree => ?_, fun w hw => ?_, fun rest t out' hops hrest => ?_, release_enabled⟩
  · have htotal := h.total
    have hsplit := List.length_eq_countP_add_countP s.isClosed (l := s.delivering)
    unfold livePermits returning inTransit
    have hsame : (s.delivering.countP fun w => !s.isClosed w) =
        s.delivering.countP fun w => decide (¬ s.isClosed w = true) := by
      congr 1
      funext w
      cases s.isClosed w <;> rfl
    omega
  · exact List.append_eq_nil_iff.mp (h.idle hfree)
  · exact List.count_eq_one_of_mem h.distinct (h.kept w hw)
  · exact releases_bounded hops hrest

/-- One slot, taken, dropped to a waiter that goes away before the permit is sent. -/
theorem slots_conserved_race :
    ∃ s, Machine.run step (new 1) [.acquire .first, .acquire .continuation, .dropPermit, .pick,
        .cancel 0, .deliver 0, .pick] = some (s, []) ∧
      s.state.free = 1 ∧ s.state.free + s.livePermits + s.inTransit = 1 :=
  ⟨_, rfl, rfl, (@slots_conserved 1 [.acquire .first, .acquire .continuation, .dropPermit, .pick, .cancel 0,
    .deliver 0, .pick] _ _ rfl).1⟩

end TtsSlots

end NodeWebrtc.Sherpa
