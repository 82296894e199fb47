import NodeWebrtc.Speech.FinalizeLedger

/-! # Every end of an utterance is answered once

Each `EndUtterance` is either still waiting in the outstanding queue or has been answered by
one `FinalizeDone`. Timed-out entries stay queued until their marker comes or the grace is
over, always in front of the waiting ones.
-/

namespace NodeWebrtc.SttActor

/-! ## Counting answers -/

namespace SttResult

def closes (key : Nat) : SttResult → Bool
  | .finalizeDone k _ _ => k == key
  | _ => false

end SttResult

def closings (key : Nat) (rs : List SttResult) : Nat := rs.countP (SttResult.closes key)

/-- How many entries of `key` still wait for the vendor. -/
def waiting (key : Nat) (q : List Outstanding) : Nat :=
  q.countP fun o => o.key == key && !o.timedOut

/-- No entry stands behind a waiting one and has timed out. -/
def TimedOutFirst (q : List Outstanding) : Prop :=
  q.Pairwise fun x y => y.timedOut = true → x.timedOut = true

theorem closings_append (key : Nat) (rs rs' : List SttResult) :
    closings key (rs ++ rs') = closings key rs + closings key rs' := List.countP_append ..

theorem closings_singleton (key : Nat) (r : SttResult) :
    closings key [r] = if r.closes key then 1 else 0 := by
  unfold closings
  cases h : r.closes key
  · simp [h]
  · simp [h]

theorem waiting_append (key : Nat) (q q' : List Outstanding) :
    waiting key (q ++ q') = waiting key q + waiting key q' := List.countP_append ..

theorem waiting_cons (key : Nat) (o : Outstanding) (q : List Outstanding) :
    waiting key (o :: q) = (if o.key == key && !o.timedOut then 1 else 0) + waiting key q := by
  unfold waiting
  rw [List.countP_cons, Nat.add_comm]

variable {q : List Outstanding}

theorem waiting_eq_zero (h : ∀ o ∈ q, o.timedOut = true) (key : Nat) : waiting key q = 0 := by
  unfold waiting
  rw [List.countP_eq_zero]
  intro o ho
  simp [h o ho]

/-! ## The order of the queue -/

theorem TimedOutFirst.sublist {q' : List Outstanding} (h : TimedOutFirst q) (hsub : q'.Sublist q) :
    TimedOutFirst q' := List.Pairwise.sublist hsub h

variable {o : Outstanding}

theorem TimedOutFirst.tail (h : TimedOutFirst (o :: q)) :
    TimedOutFirst q := h.sublist (List.sublist_cons_self o q)

theorem TimedOutFirst.snoc (h : TimedOutFirst q) (ho : o.timedOut = false) :
    TimedOutFirst (q ++ [o]) := by
  unfold TimedOutFirst at *
  rw [List.pairwise_append]
  refine ⟨h, List.pairwise_singleton _ _, fun x _ y hy hlate => ?_⟩
  rw [List.mem_singleton.mp hy, ho] at hlate
  contradiction

theorem TimedOutFirst.map {f : Outstanding → Outstanding} (h : TimedOutFirst q)
    (hf : ∀ o, (f o).timedOut = o.timedOut) : TimedOutFirst (q.map f) := by
  unfold TimedOutFirst at *
  rw [List.pairwise_map]
  simpa only [hf] using h

theorem TimedOutFirst.mark {old young : List Outstanding} {o' : Outstanding}
    (h : TimedOutFirst (old ++ o :: young)) (hold : ∀ x ∈ old, x.timedOut = true)
    (ho' : o'.timedOut = true) : TimedOutFirst (old ++ o' :: young) := by
  unfold TimedOutFirst at *
  rw [List.pairwise_append, List.pairwise_cons] at h ⊢
  obtain ⟨hpairs, ⟨-, hyoung⟩, -⟩ := h
  exact ⟨hpairs, ⟨fun _ _ _ => ho', hyoung⟩, fun x hx _ _ _ => hold x hx⟩

theorem TimedOutFirst.split (h : TimedOutFirst q) :
    ∃ old young, q = old ++ young ∧ (∀ o ∈ old, o.timedOut = true) ∧
      ∀ o ∈ young, o.timedOut = false := by
  induction q with
  | nil => exact ⟨[], [], rfl, by simp, by simp⟩
  | cons o q ih =>
    cases ho : o.timedOut with
    | true =>
      obtain ⟨old, young, rfl, hold, hyoung⟩ := ih h.tail
      exact ⟨o :: old, young, rfl, by simpa [ho] using hold, hyoung⟩
    | false =>
      refine ⟨[], o :: q, rfl, by simp, fun x hx => ?_⟩
      rcases List.mem_cons.mp hx with rfl | hx
      · exact ho
      · refine Bool.eq_false_iff.mpr fun hlate => ?_
        have hfront := (List.pairwise_cons.mp h).1 x hx hlate
        rw [ho] at hfront
        contradiction

theorem waiting_map (key : Nat) (q : List Outstanding) {f : Outstanding → Outstanding}
    (hf : ∀ o, (f o).key = o.key ∧ (f o).timedOut = o.timedOut) :
    waiting key (q.map f) = waiting key q := by
  unfold waiting
  rw [List.countP_map]
  congr 1
  funext o
  simp [hf o]

/-! ## Every utterance is answered once -/

/-- The ledger accounts for the utterances that ended: each is answered or waiting. -/
structure Ledger.Accounted (seen : List LedgerEvent) (l : Ledger) : Prop where
  answered : ∀ key, closings key l.produced + waiting key l.queue = (endedKeys seen).count key
  first : TimedOutFirst l.queue
  marked : ∀ o ∈ l.queue, o.timedOutAt.isSome → o.timedOut = true

theorem endedKeys_append (es es' : List LedgerEvent) :
    endedKeys (es ++ es') = endedKeys es ++ endedKeys es' := List.filterMap_append

namespace Ledger

variable {seen : List LedgerEvent} {l : Ledger}

section

variable (h : l.Accounted seen)
include h

theorem Accounted.rebalance {m : Ledger}
    (hbalance : ∀ key, closings key m.produced + waiting key m.queue =
      closings key l.produced + waiting key l.queue) (hfirst : TimedOutFirst m.queue)
    (hmarked : ∀ o ∈ m.queue, o.timedOutAt.isSome → o.timedOut = true) : m.Accounted seen :=
  ⟨fun key => (hbalance key).trans (h.answered key), hfirst, hmarked⟩

theorem Accounted.say {r : SttResult} (hr : ∀ key, r.closes key = false) :
    (l.say r).Accounted seen := by
  refine h.rebalance (fun key => ?_) h.first h.marked
  show closings key (l.produced ++ [r]) + _ = _
  rw [closings_append, closings_singleton, hr key]
  rfl

theorem Accounted.forward (fallbackKey : Option Nat) (t : SttTranscript) :
    (l.forward fallbackKey t).Accounted seen :=
  h.say fun _ => rfl

theorem Accounted.close (q : List Outstanding) (o : Outstanding) (late : Bool)
    (hbalance : ∀ key, (if o.key == key then 1 else 0) + waiting key q = waiting key l.queue)
    (hfirst : TimedOutFirst q) (hmarked : ∀ o ∈ q, o.timedOutAt.isSome → o.timedOut = true) :
    ({ l with queue := q }.say (.finalizeDone o.key o.gen late)).Accounted seen := by
  refine h.rebalance (fun key => ?_) hfirst hmarked
  show closings key (l.produced ++ [.finalizeDone o.key o.gen late]) + waiting key q = _
  have hkey := hbalance key
  have hcloses : (SttResult.finalizeDone o.key o.gen late).closes key = (o.key == key) := rfl
  rw [closings_append, closings_singleton, hcloses]
  omega

theorem Accounted.onMarker : l.onMarker.Accounted seen := by
  unfold Ledger.onMarker
  cases hq : l.queue with
  | nil => exact h
  | cons done rest =>
    have hfirst := h.first
    have hmarked := h.marked
    rw [hq] at hfirst hmarked
    have hrest : ∀ o ∈ rest, o.timedOutAt.isSome → o.timedOut = true := fun o ho =>
      hmarked o (List.mem_cons_of_mem done ho)
    dsimp only
    by_cases hlate : done.timedOut = true
    · rw [if_pos hlate]
      refine h.rebalance (fun key => ?_) hfirst.tail hrest
      rw [hq, waiting_cons, hlate]
      simp
    · rw [if_neg hlate]
      refine h.close rest done false (fun key => ?_) hfirst.tail hrest
      rw [hq, waiting_cons]
      simp [hlate]

theorem Accounted.drain (fallbackKey : Option Nat) (items : List SttOutput) :
    (l.drain fallbackKey items).Accounted seen := by
  have hitems : ∀ (items : List SttOutput) (m : Ledger), m.Accounted seen →
      (items.foldl (fun l o => l.onOutput fallbackKey o) m).Accounted seen := by
    intro items
    induction items with
    | nil => exact fun _ hm => hm
    | cons o items ih =>
      intro m hm
      refine ih _ ?_
      cases o with
      | transcript t => exact hm.forward fallbackKey t
      | finalizeDone => exact hm.onMarker
  exact hitems items _ ⟨h.answered, h.first, h.marked⟩

end

end Ledger

open Ledger in
variable {es : List LedgerEvent}

theorem LedgerStep.accounted {l m : Ledger} (hs : LedgerStep l es m) {seen : List LedgerEvent}
    (h : l.Accounted seen) : m.Accounted (seen ++ es) := by
  have hsilent : ∀ {es : List LedgerEvent} {m : Ledger}, endedKeys es = [] → m.Accounted seen →
      m.Accounted (seen ++ es) := by
    intro es m hes hm
    refine ⟨fun key => ?_, hm.first, hm.marked⟩
    rw [endedKeys_append, hes, List.append_nil]
    exact hm.answered key
  cases hs with
  | aside r haside =>
    refine hsilent rfl (h.say fun key => ?_)
    cases r with
    | transcript | finalizeDone => contradiction
    | vendorError | swapApplied | barrierReached => rfl
  | pushed t _ => exact hsilent rfl (h.forward none t)
  | drained fallbackKey items _ _ => exact hsilent rfl (h.drain fallbackKey items)
  | restarted now base =>
    have hsame := Actor.restartWait_same now base
    refine hsilent rfl (h.rebalance (fun key => ?_) (h.first.map fun o => (hsame o).2.1) ?_)
    · exact congrArg _ (waiting_map key l.queue fun o => ⟨(hsame o).1, (hsame o).2.1⟩)
    · intro x hx
      obtain ⟨o, ho, rfl⟩ := List.mem_map.mp hx
      rw [(hsame o).2.2.2, (hsame o).2.1]
      exact h.marked o ho
  | timedOut old young o now hqueue hold hwaits =>
    have hfirst := h.first
    have hmarked := h.marked
    rw [hqueue] at hfirst hmarked
    refine hsilent rfl (h.close _ o true (fun key => ?_) ?_ ?_)
    · rw [hqueue, waiting_append, waiting_append, waiting_cons, waiting_cons]
      simp only [hwaits, Bool.not_false, Bool.and_true, Bool.not_true, Bool.and_false,
        Bool.false_eq_true, if_false]
      omega
    · exact hfirst.mark hold rfl
    · intro x hx hmark
      rcases List.mem_append.mp hx with hx | hx
      · exact hold x hx
      · rcases List.mem_cons.mp hx with rfl | hx
        · rfl
        · exact hmarked x (List.mem_append_right _ (List.mem_cons_of_mem o hx)) hmark
  | dropped o rest hqueue hlate =>
    have hfirst := h.first
    have hmarked := h.marked
    rw [hqueue] at hfirst hmarked
    refine hsilent rfl (h.rebalance (fun key => ?_) hfirst.tail fun x hx =>
      hmarked x (List.mem_cons_of_mem o hx))
    rw [hqueue, waiting_cons, hmarked o List.mem_cons_self hlate]
    simp
  | vendor markers | started clears markers => exact hsilent rfl ⟨h.answered, h.first, h.marked⟩
  | ended o accepted hwaits hnever _ _ =>
    refine ⟨fun key => ?_, h.first.snoc hwaits, ?_⟩
    · have hkey := h.answered key
      rw [endedKeys_append, List.count_append, ← hkey, waiting_append, waiting_cons]
      simp [hwaits, endedKeys, LedgerEvent.endedKey?, waiting, List.count_cons]
      omega
    · intro x hx
      rcases List.mem_append.mp hx with hx | hx
      · exact h.marked x hx
      · rw [List.mem_singleton.mp hx, hnever]
        simp
  | answered key late =>
    refine ⟨fun other => ?_, h.first, h.marked⟩
    have hkey := h.answered other
    have hcloses : (SttResult.finalizeDone key l.gen late).closes other = (key == other) := rfl
    show closings other (l.produced ++ [.finalizeDone key l.gen late]) + waiting other l.queue = _
    rw [endedKeys_append, List.count_append, closings_append, closings_singleton, hcloses]
    have hone : (endedKeys [.ended key false,
        .closedAtOnce (l.queue.any fun x => !x.timedOut)]).count other =
        if key == other then 1 else 0 := by
      show [key].count other = _
      rw [List.count_singleton]
    omega
  | closedAtOnce q o late hqueue hwaits =>
    have hmarked := h.marked
    rw [hqueue] at hmarked
    refine hsilent rfl (h.close q o late (fun key => ?_) ?_ fun x hx =>
      hmarked x (List.mem_append_left _ hx))
    · rw [hqueue, waiting_append, waiting_cons]
      simp [hwaits, waiting]
      omega
    · have hfirst := h.first
      rw [hqueue] at hfirst
      exact hfirst.sublist (List.sublist_append_left q [o])
  | swapped mode markers hdone =>
    refine hsilent rfl (h.rebalance (fun key => ?_) List.Pairwise.nil (by simp))
    rw [waiting_eq_zero hdone key]
    rfl

/-! ## Markers meet their own finalize -/

/-- The utterances whose finalize the provider accepted, in order. -/
def requests (calls : List ProviderCall) : List Nat :=
  calls.filterMap fun c => match c with
    | .requested key => some key
    | .polled _ => none

def answers (calls : List ProviderCall) : Nat := calls.count (.polled .finalizeDone)

/-- The accepted finalizes whose marker was not taken yet: markers come in request order. -/
def awaited (calls : List ProviderCall) : List Nat := (requests calls).drop (answers calls)

theorem requests_append (calls calls' : List ProviderCall) :
    requests (calls ++ calls') = requests calls ++ requests calls' := List.filterMap_append

theorem requests_polled (items : List SttOutput) :
    requests (items.map ProviderCall.polled) = [] := by
  unfold requests
  rw [List.filterMap_map, List.filterMap_eq_nil_iff]
  exact fun _ _ => rfl

theorem answers_append (calls calls' : List ProviderCall) :
    answers (calls ++ calls') = answers calls + answers calls' := List.count_append

theorem answers_polled (items : List SttOutput) :
    answers (items.map ProviderCall.polled) = items.count .finalizeDone := by
  unfold answers
  induction items with
  | nil => rfl
  | cons o items ih =>
    rw [List.map_cons, List.count_cons, List.count_cons, ih]
    cases o with
    | transcript | finalizeDone => rfl

/-- What the vendor may still queue, and whether an utterance is being closed at once. -/
structure Allowance where
  left : Nat
  opened : Bool

namespace Allowance

/-- Markers of open requests may be queued; no open request is forgotten or dropped. -/
def spend (b : Allowance) : LedgerEvent → Option Allowance
  | .ended _ accepted =>
    if b.opened then none else some ⟨b.left + if accepted then 1 else 0, !accepted⟩
  | .vendor markers => if markers ≤ b.left then some ⟨b.left - markers, b.opened⟩ else none
  | .started forgets markers =>
    if forgets || b.opened then none
    else if markers ≤ b.left then some ⟨b.left - markers, false⟩ else none
  | .dropped => none
  | .closedAtOnce _ => if b.opened then some ⟨b.left, false⟩ else none
  | .swapped markers => if markers = 0 then some ⟨0, false⟩ else none

def spendAll (b : Allowance) (es : List LedgerEvent) : Option Allowance := es.foldlM spend b

theorem spendAll_append (b : Allowance) (es es' : List LedgerEvent) :
    b.spendAll (es ++ es') = (b.spendAll es).bind fun c => c.spendAll es' := List.foldlM_append ..

theorem spendAll_singleton (b : Allowance) (e : LedgerEvent) : b.spendAll [e] = b.spend e := by
  unfold spendAll
  rw [List.foldlM_cons]
  cases b.spend e with
  | none | some => rfl

end Allowance

namespace Ledger

/-- The queue holds the awaited finalizes, in order, and the one being closed at once. -/
structure Aligned (l : Ledger) (b : Allowance) : Prop where
  queue : ∃ extra, l.queue.map Outstanding.key = awaited l.calls ++ extra ∧
    extra.length = if b.opened then 1 else 0
  inlined : b.opened = true → l.mode = some .inlined
  answered : answers l.calls ≤ (requests l.calls).length
  allowance : l.queued + b.left = (awaited l.calls).length

theorem foldl_onOutput_keys (fallbackKey : Option Nat) (items : List SttOutput) (l : Ledger) :
    (items.foldl (fun l o => l.onOutput fallbackKey o) l).queue =
      l.queue.drop (items.count .finalizeDone) := by
  induction items generalizing l with
  | nil => rfl
  | cons o items ih =>
    rw [List.foldl_cons, ih]
    cases o with
    | transcript t => rfl
    | finalizeDone =>
      have hmarker : l.onMarker.queue = l.queue.tail := by
        unfold onMarker
        cases hq : l.queue with
        | nil => rw [hq]; rfl
        | cons done rest =>
          dsimp only
          split <;> rfl
      rw [List.count_cons]
      show l.onMarker.queue.drop _ = _
      rw [hmarker, List.drop_tail, beq_self_eq_true, if_pos rfl]

theorem Aligned.drain {l : Ledger} {b : Allowance} (h : l.Aligned b) (fallbackKey : Option Nat)
    (items : List SttOutput) (hheld : items.count .finalizeDone ≤ l.queued) :
    (l.drain fallbackKey items).Aligned b := by
  obtain ⟨hmode, hqueued, hcalls, -⟩ := (l.takePolled items).foldl_onOutput_frame fallbackKey items
  have hqueue := foldl_onOutput_keys fallbackKey items (l.takePolled items)
  have htaken : (l.drain fallbackKey items).calls = l.calls ++ items.map .polled := hcalls
  have hrequests : requests (l.drain fallbackKey items).calls = requests l.calls := by
    rw [htaken, requests_append, requests_polled, List.append_nil]
  have hanswers : answers (l.drain fallbackKey items).calls =
      answers l.calls + items.count .finalizeDone := by
    rw [htaken, answers_append, answers_polled]
  have hawaited : awaited (l.drain fallbackKey items).calls =
      (awaited l.calls).drop (items.count .finalizeDone) := by
    unfold awaited
    rw [hrequests, hanswers, List.drop_drop]
  have hlength : (awaited l.calls).length = (requests l.calls).length - answers l.calls :=
    List.length_drop
  have hallowance := h.allowance
  have hanswered := h.answered
  obtain ⟨extra, hkeys, hextra⟩ := h.queue
  refine ⟨⟨extra, ?_, hextra⟩, fun hopen => hmode.trans (h.inlined hopen), ?_, ?_⟩
  · show List.map _ (items.foldl _ (l.takePolled items)).queue = _
    rw [hqueue, List.map_drop]
    show List.drop _ (l.queue.map Outstanding.key) = _
    rw [hkeys, hawaited, List.drop_append_of_le_length]
    omega
  · rw [hrequests]
    omega
  · rw [hawaited, List.length_drop]
    show (items.foldl _ (l.takePolled items)).queued + b.left = _
    rw [hqueued]
    show l.queued - items.count .finalizeDone + b.left = _
    omega

end Ledger

theorem awaited_request {calls : List ProviderCall} (h : answers calls ≤ (requests calls).length)
    (key : Nat) : awaited (calls ++ [.requested key]) = awaited calls ++ [key] := by
  have hanswers : answers (calls ++ [.requested key]) = answers calls := by
    rw [answers_append]
    rfl
  unfold awaited
  rw [hanswers, requests_append, List.drop_append_of_le_length h]
  rfl

open Ledger in
theorem LedgerStep.aligned {l m : Ledger} (hs : LedgerStep l es m) {b c : Allowance}
    (h : l.Aligned b) (hspend : b.spendAll es = some c) : m.Aligned c := by
  cases hs with
  | aside r _ | pushed t _ =>
    cases hspend
    exact ⟨h.queue, h.inlined, h.answered, h.allowance⟩
  | drained fallbackKey items _ hheld =>
    cases hspend
    exact h.drain fallbackKey items hheld
  | restarted now base =>
    cases hspend
    obtain ⟨extra, hkeys, hextra⟩ := h.queue
    refine ⟨⟨extra, ?_, hextra⟩, h.inlined, h.answered, h.allowance⟩
    rw [← hkeys, List.map_map]
    exact List.map_congr_left fun o _ => (Actor.restartWait_same now base o).1
  | timedOut old young o now hqueue _ _ =>
    cases hspend
    obtain ⟨extra, hkeys, hextra⟩ := h.queue
    refine ⟨⟨extra, ?_, hextra⟩, h.inlined, h.answered, h.allowance⟩
    rw [hqueue] at hkeys
    simpa [say] using hkeys
  | dropped o rest _ _ =>
    rw [Allowance.spendAll_singleton] at hspend
    contradiction
  | vendor markers =>
    rw [Allowance.spendAll_singleton, Allowance.spend, Option.ite_none_right_eq_some] at hspend
    obtain ⟨hle, hc⟩ := hspend
    cases hc
    have hallowance := h.allowance
    refine ⟨h.queue, h.inlined, h.answered, ?_⟩
    show l.queued + markers + (b.left - markers) = (awaited l.calls).length
    omega
  | started clears markers =>
    rw [Allowance.spendAll_singleton, Allowance.spend, Option.ite_none_left_eq_some,
      Option.ite_none_right_eq_some] at hspend
    obtain ⟨hkeeps, hle, hc⟩ := hspend
    cases hc
    simp only [Bool.or_eq_true, Bool.and_eq_true, Bool.not_eq_true', not_or, not_and,
      Bool.not_eq_true, Bool.not_eq_false, List.isEmpty_iff] at hkeeps
    have hallowance := h.allowance
    obtain ⟨extra, hkeys, hextra⟩ := h.queue
    rw [hkeeps.2] at hextra
    refine ⟨⟨extra, hkeys, hextra⟩, by simp, h.answered, ?_⟩
    show (if clears = true then 0 else l.queued) + markers + (b.left - markers) =
      (awaited l.calls).length
    cases hclears : clears with
    | false =>
      rw [if_neg Bool.false_ne_true]
      omega
    | true =>
      have hempty := hkeeps.1 hclears
      rw [hempty, List.map_nil] at hkeys
      have hnone : awaited l.calls = [] := (List.append_eq_nil_iff.mp hkeys.symm).1
      rw [hnone, List.length_nil] at hallowance ⊢
      rw [if_pos rfl]
      show 0 + markers + (b.left - markers) = 0
      omega
  | ended o accepted _ _ _ hmode =>
    rw [Allowance.spendAll_singleton, Allowance.spend, Option.ite_none_left_eq_some] at hspend
    obtain ⟨hclosed, hc⟩ := hspend
    cases hc
    obtain ⟨extra, hkeys, hextra⟩ := h.queue
    rw [if_neg hclosed, List.length_eq_zero_iff] at hextra
    rw [hextra, List.append_nil] at hkeys
    have hallowance := h.allowance
    have hanswered := h.answered
    cases accepted with
    | true =>
      have hawaited := awaited_request h.answered o.key
      refine ⟨⟨[], ?_, rfl⟩, by simp, ?_, ?_⟩
      · show (l.queue ++ [o]).map Outstanding.key = awaited (l.calls ++ [.requested o.key]) ++ []
        rw [hawaited, List.map_append, hkeys, List.append_nil]
        rfl
      · show answers (l.calls ++ [.requested o.key]) ≤
          (requests (l.calls ++ [.requested o.key])).length
        rw [answers_append, requests_append, List.length_append]
        show answers l.calls + 0 ≤ _ + 1
        omega
      · show l.queued + (b.left + 1) = (awaited (l.calls ++ [.requested o.key])).length
        rw [hawaited, List.length_append]
        show _ = _ + 1
        omega
    | false =>
      have hcalls : l.calls ++ (if false then [ProviderCall.requested o.key] else []) = l.calls :=
        List.append_nil _
      refine ⟨⟨[o.key], ?_, rfl⟩, fun _ => hmode, ?_, ?_⟩
      · show (l.queue ++ [o]).map Outstanding.key = awaited (l.calls ++ []) ++ [o.key]
        rw [List.append_nil, List.map_append, hkeys]
        rfl
      · show answers (l.calls ++ []) ≤ (requests (l.calls ++ [])).length
        rw [List.append_nil]
        exact hanswered
      · show l.queued + (b.left + 0) = (awaited (l.calls ++ [])).length
        rw [List.append_nil]
        omega
  | answered key late =>
    obtain ⟨left, opened⟩ := b
    cases opened with
    | true => cases hspend
    | false =>
      cases hspend
      exact ⟨h.queue, h.inlined, h.answered, h.allowance⟩
  | closedAtOnce q o late hqueue _ =>
    rw [Allowance.spendAll_singleton, Allowance.spend, Option.ite_none_right_eq_some] at hspend
    obtain ⟨hopen, hc⟩ := hspend
    cases hc
    obtain ⟨extra, hkeys, hextra⟩ := h.queue
    rw [if_pos hopen] at hextra
    obtain ⟨key, rfl⟩ := List.length_eq_one_iff.mp hextra
    rw [hqueue, List.map_append, List.map_singleton] at hkeys
    refine ⟨⟨[], ?_, rfl⟩, by simp, h.answered, h.allowance⟩
    rw [List.append_nil]
    exact (List.append_inj' hkeys rfl).1
  | swapped mode markers _ =>
    rw [Allowance.spendAll_singleton, Allowance.spend, Option.ite_none_right_eq_some] at hspend
    obtain ⟨rfl, hc⟩ := hspend
    cases hc
    exact ⟨⟨[], rfl, rfl⟩, by simp, Nat.le_refl _, rfl⟩

theorem Steps.aligned {l m : Ledger} (hs : Steps LedgerStep l es m) {b c : Allowance}
    (h : l.Aligned b) (hspend : b.spendAll es = some c) : m.Aligned c := by
  induction hs generalizing c with
  | refl =>
    cases hspend
    exact h
  | snoc _ hlast ih =>
    rw [Allowance.spendAll_append, Option.bind_eq_some_iff] at hspend
    obtain ⟨mid, hfirst, hrest⟩ := hspend
    exact hlast.aligned (ih hfirst) hrest

/-! ## Runs -/

def CallResult.isErr : CallResult → Bool
  | .err _ => true
  | _ => false

namespace Arm

/-- The markers the vendor queues during the branch. -/
def markers : Arm → Nat
  | .command _ .audio opened reply =>
    queuedMarkers opened.move.outputs + queuedMarkers reply.move.outputs
  | .command _ (.endUtterance _) _ reply => queuedMarkers reply.move.outputs
  | .command _ .start _ reply => queuedMarkers reply.move.outputs
  | .command _ .waitReady _ reply => queuedMarkers reply.move.outputs
  | _ => 0

/-- The branch ends an utterance and a deferred provider accepts its finalize. -/
def accepts (mode : Option FinalizeMode) : Arm → Bool
  | .command _ (.endUtterance _) _ reply => mode == some .deferred && !reply.result.isErr
  | _ => false

/-- The branch starts the provider, which drops what it held. -/
def forgets : Arm → Bool
  | .command _ .start _ reply => reply.clears
  | _ => false

def endedKey? : Arm → Option Nat
  | .command _ (.endUtterance key) _ _ => some key
  | _ => none

end Arm

namespace Actor

/-- The vendor's side of the contract in this iteration: one marker for each accepted
request, none before its request, and no start that forgets an open request. -/
structure Honest (a : Actor) (it : Iteration) : Prop where
  armed : (a.armed it).ledger.queued ≤ (awaited (a.armed it).ledger.calls).length
  replies : (a.armed it).ledger.queued + it.arm.markers ≤
    (awaited (a.armed it).ledger.calls).length +
      if it.arm.accepts (a.armed it).ledger.mode then 1 else 0
  keeps : it.arm.forgets = true → (a.armed it).outstanding = []
  fresh : queuedMarkers it.swap.started.move.outputs = 0

/-- No deadline fires after the grace of the oldest timed-out finalize: its marker was taken
before. -/
def InGrace (a : Actor) (it : Iteration) : Prop :=
  ∀ now, it.arm = .expireDeadlines now → GraceLeft now (a.armed it).outstanding

theorem ArmEvents.endedKeys {a : Actor} {arm : Arm} {es : List LedgerEvent}
    (h : a.ArmEvents arm es) : SttActor.endedKeys es = arm.endedKey?.toList := by
  cases arm with
  | releaseDue | poll => rw [show es = [] from h]; rfl
  | expireDeadlines now =>
    obtain ⟨n, rfl, -⟩ := h
    show List.filterMap _ (List.replicate n LedgerEvent.dropped) = []
    rw [List.filterMap_replicate_of_none rfl]
  | command now cmd opened reply =>
    cases cmd with
    | start | waitReady | swap | barrier => rw [show es = _ from h]; rfl
    | audio =>
      rcases h with h | h
      · rw [h]; rfl
      · rw [h]; rfl
    | endUtterance key =>
      rw [show es = a.endEvents key reply from h]
      unfold endEvents
      split <;> rfl

theorem marks_le (mode : Option FinalizeMode) (m : VendorMove) :
    marks mode m ≤ queuedMarkers m.outputs := by
  unfold marks
  split
  · exact Nat.le_refl _
  · exact Nat.zero_le _

end Actor

namespace Allowance

theorem spend_vendor {left markers : Nat} {opened : Bool} (h : markers ≤ left) :
    spend ⟨left, opened⟩ (.vendor markers) = some ⟨left - markers, opened⟩ := if_pos h

theorem spend_started {left markers : Nat} (h : markers ≤ left) :
    spend ⟨left, false⟩ (.started false markers) = some ⟨left - markers, false⟩ := if_pos h

theorem spendAll_cons {b c : Allowance} {e : LedgerEvent} (h : b.spend e = some c)
    (es : List LedgerEvent) : b.spendAll (e :: es) = c.spendAll es := by
  unfold spendAll
  rw [List.foldlM_cons, h]
  rfl

theorem spendAll_answered (left key : Nat) (overtakes : Bool) :
    spendAll ⟨left, false⟩ [.ended key false, .closedAtOnce overtakes] = some ⟨left, false⟩ := rfl

end Allowance

namespace Actor

open Allowance in
theorem ArmEvents.allowed {a : Actor} {arm : Arm} {es : List LedgerEvent} (h : a.ArmEvents arm es)
    {left : Nat} (hleft : arm.markers ≤ left + if arm.accepts a.ledger.mode then 1 else 0)
    (hkeeps : arm.forgets = true → a.outstanding = [])
    (hgrace : ∀ now, arm = .expireDeadlines now → GraceLeft now a.outstanding) :
    ∃ left', spendAll ⟨left, false⟩ es = some ⟨left', false⟩ := by
  cases arm with
  | releaseDue now | poll now => rw [show es = [] from h]; exact ⟨left, rfl⟩
  | expireDeadlines now =>
    obtain ⟨n, rfl, hnone⟩ := h
    rw [hnone (hgrace now rfl)]
    exact ⟨left, rfl⟩
  | command now cmd opened reply =>
    have hreply := marks_le a.ledger.mode reply.move
    have hopened := marks_le a.ledger.mode opened.move
    cases cmd with
    | swap | barrier => rw [show es = [] from h]; exact ⟨left, rfl⟩
    | start =>
      have hle : marks a.ledger.mode reply.move ≤ left := Nat.le_trans hreply hleft
      have hkept : (reply.clears && !a.outstanding.isEmpty) = false := by
        cases hclears : reply.clears with
        | false => rfl
        | true => rw [hkeeps hclears]; rfl
      rw [show es = _ from h, hkept, spendAll_singleton, spend_started hle]
      exact ⟨_, rfl⟩
    | waitReady =>
      have hle : marks a.ledger.mode reply.move ≤ left := Nat.le_trans hreply hleft
      rw [show es = _ from h, spendAll_singleton, spend_vendor hle]
      exact ⟨_, rfl⟩
    | audio =>
      have hboth : queuedMarkers opened.move.outputs + queuedMarkers reply.move.outputs ≤ left :=
        hleft
      have hfirst : marks a.ledger.mode opened.move ≤ left := by omega
      have hsecond : marks a.ledger.mode reply.move ≤ left - marks a.ledger.mode opened.move := by
        omega
      have halone : marks a.ledger.mode reply.move ≤ left := by omega
      rcases h with h | h
      · rw [h, spendAll_singleton, spend_vendor halone]
        exact ⟨_, rfl⟩
      · rw [h, spendAll_cons (spend_started hfirst), spendAll_singleton, spend_vendor hsecond]
        exact ⟨_, rfl⟩
    | endUtterance key =>
      rw [show es = a.endEvents key reply from h]
      have hleft : queuedMarkers reply.move.outputs ≤
          left + if a.ledger.mode == some .deferred && !reply.result.isErr then 1 else 0 := hleft
      unfold endEvents
      cases hmode : a.ledger.mode with
      | none => exact ⟨left, rfl⟩
      | some mode =>
        rw [hmode] at hleft hreply
        cases mode with
        | inlined =>
          have hle : marks (some .inlined) reply.move ≤ left := Nat.le_trans hreply hleft
          rw [spendAll_cons (spend_vendor hle), spendAll_answered]
          exact ⟨_, rfl⟩
        | deferred =>
          have haccepted : queuedMarkers reply.move.outputs ≤ left + 1 →
              ∃ left', spendAll ⟨left, false⟩ [.ended key true,
                .vendor (marks (some .deferred) reply.move)] = some ⟨left', false⟩ := by
            intro hle
            have hask : spend ⟨left, false⟩ (.ended key true) = some ⟨left + 1, false⟩ := rfl
            rw [spendAll_cons hask, spendAll_singleton, spend_vendor (Nat.le_trans hreply hle)]
            exact ⟨_, rfl⟩
          cases hres : reply.result with rw [hres] at hleft
          | ok | elapsed =>
            exact haccepted hleft
          | err message =>
            have hle : marks (some .deferred) reply.move ≤ left :=
              Nat.le_trans hreply hleft
            rw [spendAll_cons (spend_vendor hle), spendAll_answered]
            exact ⟨_, rfl⟩

theorem armed_ledger (a : Actor) (it : Iteration) :
    (a.armed it).ledger.mode = a.ledger.mode ∧ (a.armed it).ledger.calls = a.ledger.calls ∧
      (a.armed it).ledger.queued =
        a.ledger.queued + marks a.ledger.mode it.before + marks a.ledger.mode it.meanwhile := by
  have hbefore := a.vendorMoves_ledger it.before
  have hhead : (a.atHead it).ledger.mode = a.ledger.mode ∧
      (a.atHead it).ledger.calls = a.ledger.calls ∧
      (a.atHead it).ledger.queued = a.ledger.queued + marks a.ledger.mode it.before := by
    have hsame : (a.atHead it).ledger.mode = (a.vendorMoves it.before).ledger.mode ∧
        (a.atHead it).ledger.calls = (a.vendorMoves it.before).ledger.calls ∧
        (a.atHead it).ledger.queued = (a.vendorMoves it.before).ledger.queued := ⟨rfl, rfl, rfl⟩
    rw [hbefore] at hsame
    exact hsame
  have hmeanwhile := (a.atHead it).vendorMoves_ledger it.meanwhile
  unfold armed
  rw [hmeanwhile]
  rw [hhead.1, hhead.2.2]
  exact ⟨rfl, hhead.2.1, rfl⟩

open Allowance in
theorem iteration_spend {a : Actor} {it : Iteration} {arm parked : List LedgerEvent}
    (hes : a.IterationEvents it arm parked) {left : Nat}
    (h : a.ledger.Aligned ⟨left, false⟩) (hhonest : a.Honest it) (hgrace : a.InGrace it) :
    ∃ left', spendAll ⟨left, false⟩ (a.iterationLabels it arm parked) = some ⟨left', false⟩ := by
  obtain ⟨hmode, hcalls, hqueued⟩ := a.armed_ledger it
  have hallowance : a.ledger.queued + left = (awaited a.ledger.calls).length := h.allowance
  have harmed := hhonest.armed
  have hreplies := hhonest.replies
  rw [hcalls, hqueued] at harmed hreplies
  have hfirst : marks a.ledger.mode it.before ≤ left := by omega
  have hsecond : marks a.ledger.mode it.meanwhile ≤ left - marks a.ledger.mode it.before := by omega
  obtain ⟨mid, harm⟩ := @ArmEvents.allowed (a.armed it) it.arm arm hes.arm
    (left - marks a.ledger.mode it.before - marks a.ledger.mode it.meanwhile) (by omega) hhonest.keeps hgrace
  unfold iterationLabels
  rw [spendAll_append, spendAll_singleton, spend_vendor hfirst, Option.bind_some, spendAll_append,
    spendAll_singleton, spend_vendor hsecond, Option.bind_some, spendAll_append, harm,
    Option.bind_some]
  rcases hes.parked with rfl | ⟨k, rfl, hk⟩
  · exact ⟨mid, rfl⟩
  · rw [hhonest.fresh, Nat.le_zero] at hk
    rw [hk]
    exact ⟨0, rfl⟩

def endedBy (its : List Iteration) : List Nat := its.filterMap fun it => it.arm.endedKey?

theorem endedKeys_iteration {a : Actor} {it : Iteration} {arm parked : List LedgerEvent}
    (hes : a.IterationEvents it arm parked) :
    endedKeys (a.iterationLabels it arm parked) = it.arm.endedKey?.toList := by
  have hparked : endedKeys parked = [] := by
    rcases hes.parked with rfl | ⟨k, rfl, -⟩
    · rfl
    · rfl
  unfold iterationLabels
  rw [endedKeys_append, endedKeys_append, endedKeys_append, hparked, hes.arm.endedKeys,
    List.append_nil]
  rfl

theorem spawn_sound (provider : Option (FinalizeMode × ProviderView))
    (openWaitMaxMs testFinalDelayMs : Nat) :
    (spawnSttActor provider openWaitMaxMs testFinalDelayMs).Sound := by
  refine ⟨fun _ => rfl, fun hsome => absurd hsome (by simp [spawnSttActor]), fun _ => ?_⟩
  cases provider with
  | none | some => rfl

theorem spawn_ledger (provider : Option (FinalizeMode × ProviderView))
    (openWaitMaxMs testFinalDelayMs : Nat) :
    (spawnSttActor provider openWaitMaxMs testFinalDelayMs).ledger =
      ⟨provider.map Prod.fst, 0, [], [], 0, []⟩ := by
  cases provider with
  | none | some => rfl

theorem step_accounted {a b : Actor} {it : Iteration} {out : List SttResult}
    {seen : List LedgerEvent} (hsound : a.Sound) (h : a.ledger.Accounted seen)
    (hquiet : a.InlineQuiet it) (hs : step a it = some (b, out)) :
    b.Sound ∧ ∃ seen', b.ledger.Accounted seen' ∧
      endedKeys seen' = endedKeys seen ++ it.arm.endedKey?.toList := by
  obtain ⟨arm, parked, hwalk, hes⟩ := step_refines hsound hquiet hs
  have haccounted := hwalk.walk.keeps (I := fun seen l => l.Accounted seen)
    (fun _ _ _ _ hl hstep => hstep.accounted hl) h
  refine ⟨hwalk.sound, _, haccounted, ?_⟩
  rw [endedKeys_append, endedKeys_iteration hes]

theorem run_accounted {a b : Actor} (hsound : a.Sound) (h : a.ledger.Accounted [])
    {its : List Iteration} {out : List SttResult} (hquiet : Machine.Along step InlineQuiet a its)
    (hrun : Machine.run step a its = some (b, out)) :
    b.Sound ∧ ∃ seen, b.ledger.Accounted seen ∧ endedKeys seen = endedBy its := by
  refine Machine.run_history
    (I := fun is _ (c : Actor) => c.Sound ∧ ∃ seen, c.ledger.Accounted seen ∧
      endedKeys seen = endedBy is) ?_ ⟨hsound, [], h, rfl⟩ hquiet hrun
  intro is _ c it t out hc hq hs
  obtain ⟨hcsound, seen, hseen, hkeys⟩ := hc
  obtain ⟨ht, seen', hseen', hkeys'⟩ := step_accounted hcsound hseen hq hs
  refine ⟨ht, seen', hseen', ?_⟩
  have hone : [it].filterMap (fun it => it.arm.endedKey?) = it.arm.endedKey?.toList := by
    cases hkey : it.arm.endedKey? with
    | none | some => simp [hkey]
  rw [hkeys', hkeys]
  unfold endedBy
  rw [List.filterMap_append, hone]

theorem run_aligned {a b : Actor} (hsound : a.Sound) {left : Nat}
    (h : a.ledger.Aligned ⟨left, false⟩) {its : List Iteration} {out : List SttResult}
    (hquiet : Machine.Along step InlineQuiet a its)
    (hhonest : Machine.Along step (fun a it => a.Honest it ∧ a.InGrace it) a its)
    (hrun : Machine.run step a its = some (b, out)) :
    ∃ left', b.ledger.Aligned ⟨left', false⟩ := by
  refine (Machine.run_invariant
    (I := fun c : Actor => c.Sound ∧ ∃ left', c.ledger.Aligned ⟨left', false⟩) ?_
    ⟨hsound, left, h⟩ (hquiet.and hhonest) hrun).2
  intro c it t out hc hcond hs
  obtain ⟨hcsound, left, haligned⟩ := hc
  obtain ⟨hq, hh, hg⟩ := hcond
  obtain ⟨arm, parked, hwalk, hes⟩ := step_refines hcsound hq hs
  obtain ⟨left', hspend⟩ := iteration_spend hes haligned hh hg
  exact ⟨hwalk.sound, left', Steps.aligned hwalk.walk haligned hspend⟩

def delivers (a : Actor) (now : Instant) (fallbackKey : Option Nat) (items : List SttOutput) :
    Actor := items.foldl (fun s o => s.onOutput now fallbackKey o) a

theorem Aligned.marker {a : Actor} (hsound : a.Sound) {left : Nat}
    (h : a.ledger.Aligned ⟨left, false⟩) (now : Instant) (fallbackKey : Option Nat)
    (items : List SttOutput) {key : Nat} {rest : List Nat}
    (hnext : (awaited a.ledger.calls).drop (items.count .finalizeDone) = key :: rest) :
    ∃ o, (a.delivers now fallbackKey items).outstanding.head? = some o ∧ o.key = key ∧
      (a.delivers now fallbackKey (items ++ [.finalizeDone])).produced =
        (a.delivers now fallbackKey items).produced ++
          if o.timedOut then [] else [.finalizeDone key o.gen false] := by
  obtain ⟨hledger, hdelivered⟩ := foldl_onOutput_ledger hsound now fallbackKey items
  have hqueue : (a.delivers now fallbackKey items).outstanding =
      a.outstanding.drop (items.count .finalizeDone) := by
    have hkeys := Ledger.foldl_onOutput_keys fallbackKey items a.ledger
    rw [← hledger] at hkeys
    exact hkeys
  obtain ⟨extra, hkeys, hextra⟩ := h.queue
  have hempty : extra = [] := List.length_eq_zero_iff.mp hextra
  rw [hempty, List.append_nil] at hkeys
  have hmap : (a.delivers now fallbackKey items).outstanding.map Outstanding.key = key :: rest := by
    rw [hqueue, List.map_drop, ← hnext, ← hkeys]
    rfl
  obtain ⟨o, older, hcons, hkey, -⟩ := List.map_eq_cons_iff.mp hmap
  refine ⟨o, by rw [hcons]; rfl, hkey, ?_⟩
  have hlast : a.delivers now fallbackKey (items ++ [.finalizeDone]) =
      (a.delivers now fallbackKey items).onMarker now := List.foldl_append
  have hsound' : (a.delivers now fallbackKey items).Sound := hdelivered
  rw [hlast]
  unfold onMarker
  rw [hcons]
  dsimp only
  by_cases hlate : o.timedOut = true
  · rw [if_pos hlate, if_pos hlate, List.append_nil]
    rfl
  · rw [if_neg hlate, if_neg hlate, emit_produced (hsound'.withQueue older), hkey]
    rfl

/-- Every end of an utterance is answered by one `FinalizeDone` or still waits for it, and the
waiting ones stand behind the timed-out ones. With a vendor that keeps its contract and
markers taken within the grace, the next marker meets the finalize it answers: it is
swallowed when that one timed out, and closes no other utterance. -/
theorem utterances_answered_once (provider : Option (FinalizeMode × ProviderView))
    (openWaitMaxMs testFinalDelayMs : Nat) {its : List Iteration} {a : Actor} {out : List SttResult}
    (hquiet : Machine.Along step InlineQuiet
      (spawnSttActor provider openWaitMaxMs testFinalDelayMs) its)
    (hrun : Machine.run step (spawnSttActor provider openWaitMaxMs testFinalDelayMs) its =
      some (a, out)) :
    (∀ key, closings key a.produced + waiting key a.outstanding = (endedBy its).count key) ∧
      (∃ old young, a.outstanding = old ++ young ∧ (∀ o ∈ old, o.timedOut = true) ∧
        ∀ o ∈ young, o.timedOut = false) ∧
      (Machine.Along step (fun a it => a.Honest it ∧ a.InGrace it)
          (spawnSttActor provider openWaitMaxMs testFinalDelayMs) its →
        a.outstanding.map Outstanding.key = awaited a.ledger.calls ∧
        ∀ now fallbackKey items key rest,
          (awaited a.ledger.calls).drop (items.count .finalizeDone) = key :: rest →
          ∃ o, (a.delivers now fallbackKey items).outstanding.head? = some o ∧ o.key = key ∧
            (a.delivers now fallbackKey (items ++ [.finalizeDone])).produced =
              (a.delivers now fallbackKey items).produced ++
                if o.timedOut then [] else [.finalizeDone key o.gen false]) := by
  have hsound := spawn_sound provider openWaitMaxMs testFinalDelayMs
  have hspawn := spawn_ledger provider openWaitMaxMs testFinalDelayMs
  have haccounted : (spawnSttActor provider openWaitMaxMs testFinalDelayMs).ledger.Accounted [] := by
    rw [hspawn]
    exact ⟨fun _ => rfl, List.Pairwise.nil, by simp⟩
  have haligned : (spawnSttActor provider openWaitMaxMs testFinalDelayMs).ledger.Aligned
      ⟨0, false⟩ := by
    rw [hspawn]
    exact ⟨⟨[], rfl, rfl⟩, by simp, Nat.le_refl _, rfl⟩
  obtain ⟨hend, seen, hseen, hkeys⟩ := run_accounted hsound haccounted hquiet hrun
  refine ⟨fun key => ?_, hseen.first.split, fun hhonest => ?_⟩
  · rw [← hkeys]
    exact hseen.answered key
  · obtain ⟨left, h⟩ := run_aligned hsound haligned hquiet hhonest hrun
    obtain ⟨extra, hqueue, hextra⟩ := h.queue
    rw [List.length_eq_zero_iff.mp hextra, List.append_nil] at hqueue
    exact ⟨hqueue, fun now fallbackKey items key rest hnext =>
      Aligned.marker hend h now fallbackKey items hnext⟩

/-! ### Markers before and after the grace -/

/-- A vendor whose queries never change and whose finalize wait is ten seconds. -/
def steadyMove (outputs : List PollItem) : VendorMove := ⟨⟨10000, false, true, 0⟩, outputs⟩

def accepted (outputs : List PollItem) (now : Instant) : VendorReply :=
  ⟨.ok, [], false, steadyMove outputs, now⟩

def steadily (arm : Arm) (now : Instant) : Iteration where
  before := steadyMove []
  headAt := now
  meanwhile := steadyMove []
  arm := arm
  swap := ⟨.error "", accepted [] now⟩
  doneAt := now

def endsAt (key : Nat) (now : Instant) (outputs : List PollItem) : Iteration :=
  steadily (.command now (.endUtterance key) (accepted [] now) (accepted outputs now)) now

def expiresAt (now : Instant) : Iteration := steadily (.expireDeadlines now) now

def steadyActor : Actor := spawnSttActor (some (.deferred, ⟨10000, false, true, 0⟩)) 120000 0

/-- The marker of utterance 1 comes after its grace and closes utterance 2. -/
theorem late_marker_closes_newer :
    ∃ a, Machine.run step steadyActor
        [endsAt 1 0 [], expiresAt (fromMillis 10000), expiresAt (fromMillis 70000),
          endsAt 2 (fromMillis 71000) [.output .finalizeDone]] = some (a, []) ∧
      a.produced = [.finalizeDone 1 0 true, .finalizeDone 2 0 false] ∧
      a.ledger.calls = [.requested 1, .requested 2, .polled .finalizeDone] ∧
      awaited a.ledger.calls = [2] ∧ a.outstanding = [] := by
  refine ⟨_, rfl, ?_, ?_, ?_, ?_⟩ <;> decide

theorem steadily_quiet {a : Actor} (hmode : a.ledger.mode = some .deferred) (arm : Arm)
    (now : Instant) : a.InlineQuiet (steadily arm now) := by
  have hnot : a.ledger.mode ≠ some .inlined := by
    rw [hmode]
    simp
  have harmed : (a.armed (steadily arm now)).ledger.mode ≠ some .inlined := by
    rw [(a.armed_ledger _).1]
    exact hnot
  refine ⟨fun h => absurd h hnot, fun h => absurd h hnot, ?_, fun view h => by contradiction⟩
  cases arm with
  | command now' cmd opened reply => exact fun h => absurd h harmed
  | releaseDue | expireDeadlines | poll => trivial

/-- The marker of utterance 1 comes within its grace: it is swallowed and utterance 2 waits. -/
theorem utterances_answered_once_late :
    ∃ a, Machine.run step steadyActor
        [endsAt 1 0 [], expiresAt (fromMillis 10000),
          endsAt 2 (fromMillis 11000) [.output .finalizeDone]] = some (a, []) ∧
      (∀ key, closings key a.produced + waiting key a.outstanding = [1, 2].count key) ∧
      a.outstanding.map Outstanding.key = awaited a.ledger.calls ∧
      awaited a.ledger.calls = [2] := by
  have hquiet : Machine.Along step InlineQuiet steadyActor
      [endsAt 1 0 [], expiresAt (fromMillis 10000),
        endsAt 2 (fromMillis 11000) [.output .finalizeDone]] :=
    .cons (steadily_quiet rfl _ _) rfl (.cons (steadily_quiet rfl _ _) rfl
      (.cons (steadily_quiet rfl _ _) rfl trivial))
  have hhonest : Machine.Along step (fun a it => a.Honest it ∧ a.InGrace it) steadyActor
      [endsAt 1 0 [], expiresAt (fromMillis 10000),
        endsAt 2 (fromMillis 11000) [.output .finalizeDone]] := by
    refine .cons ⟨⟨by decide, by decide, by decide, rfl⟩, fun now h => by contradiction⟩ rfl
      (.cons ⟨⟨by decide, by decide, by decide, rfl⟩, fun now h => ?_⟩ rfl
        (.cons ⟨⟨by decide, by decide, by decide, rfl⟩, fun now h => by contradiction⟩ rfl trivial))
    intro o ho at' hat
    cases ho
    contradiction
  obtain ⟨hcount, -, haligned⟩ := utterances_answered_once _ _ _ hquiet rfl
  exact ⟨_, rfl, hcount, (haligned hhonest).1, by decide⟩

end Actor

end NodeWebrtc.SttActor
