import NodeWebrtc.Sherpa.TtsSlots

/-! # The order in which TTS slots are granted

A grant is the choice a release makes under the lock. A run notes who joins a queue and who is
granted a slot. Within a priority the grants follow the order of arrival; a `Continuation` waiter
is passed by at most three `First` waiters for each `Continuation` waiter served up to itself.
-/

namespace NodeWebrtc.Sherpa

namespace SlotState

def queue (s : SlotState) : TtsPriority → List Nat
  | .first => s.first
  | .continuation => s.continuation

/-- What a pick does: nobody waits; the oldest `Continuation` is served and the streak starts
over; or the oldest `First` is served, and counted when it passes a waiting `Continuation`. -/
theorem pick_cases (s : SlotState) (closed : Nat → Bool) :
    (s.first.dropWhile closed = [] ∧ s.continuation.dropWhile closed = [] ∧
      s.pick closed = (none, s.pruneClosedFront closed)) ∨
    (∃ w rest, s.continuation.dropWhile closed = w :: rest ∧
      s.pick closed = (some w, ⟨s.free, s.first.dropWhile closed, rest, 0⟩)) ∨
    (∃ w rest, s.first.dropWhile closed = w :: rest ∧
      (s.continuation.dropWhile closed = [] ∧ s.pick closed = (some w, ⟨s.free, rest, [], 0⟩) ∨
        s.continuation.dropWhile closed ≠ [] ∧ s.firstStreak < MAX_FIRST_IN_A_ROW ∧
        s.pick closed =
          (some w, ⟨s.free, rest, s.continuation.dropWhile closed, s.firstStreak + 1⟩))) := by
  unfold pick pickPruned pruneClosedFront
  cases hcontinuation : s.continuation.dropWhile closed with
  | nil =>
    cases hfirst : s.first.dropWhile closed with
    | nil => exact .inl ⟨rfl, rfl, rfl⟩
    | cons w rest => exact .inr (.inr ⟨w, rest, rfl, .inl ⟨rfl, rfl⟩⟩)
  | cons w rest =>
    cases hfirst : s.first.dropWhile closed with
    | nil => exact .inr (.inl ⟨w, rest, rfl, rfl⟩)
    | cons v others =>
      by_cases hstreak : MAX_FIRST_IN_A_ROW ≤ s.firstStreak
      · refine .inr (.inl ⟨w, rest, rfl, ?_⟩)
        simp [hstreak]
      · refine .inr (.inr ⟨v, others, rfl, .inr ⟨List.cons_ne_nil w rest, by omega, ?_⟩⟩)
        simp [hstreak]

end SlotState

namespace TtsSlots

/-! ## What a run notes -/

/-- The waiter that joins a queue, with its priority. -/
def joins (s : TtsSlots) : SlotOp → List (TtsPriority × Nat)
  | .acquire priority => if 0 < s.state.free then [] else [(priority, s.channels.length)]
  | _ => []

/-- The waiter a release picks, with its priority. -/
def grants (s : TtsSlots) : SlotOp → List (TtsPriority × Nat)
  | .pick =>
    (s.state.pick s.isClosed).1.toList.map fun w =>
      (if w ∈ s.state.first then .first else .continuation, w)
  | _ => []

theorem Conserved.not_first {slots : Nat} {s : TtsSlots} (h : s.Conserved slots) {w : Nat}
    (hw : w ∈ s.state.continuation) : w ∉ s.state.first := by
  have hdistinct := (List.nodup_append.mp h.distinct).1
  intro hfirst
  exact (List.nodup_append.mp hdistinct).2.2 w hfirst w hw rfl

theorem releasePick_cases {slots : Nat} {s : TtsSlots} (h : s.Conserved slots) :
    (s.state.first.dropWhile s.isClosed = [] ∧ s.state.continuation.dropWhile s.isClosed = [] ∧
      s.grants .pick = [] ∧ ∀ p, s.releasePick.state.queue p = []) ∨
    (∃ w rest, s.state.continuation.dropWhile s.isClosed = w :: rest ∧
      s.grants .pick = [(.continuation, w)] ∧
      s.releasePick.state = ⟨s.state.free, s.state.first.dropWhile s.isClosed, rest, 0⟩) ∨
    (∃ w rest, s.state.first.dropWhile s.isClosed = w :: rest ∧
      s.grants .pick = [(.first, w)] ∧
      s.releasePick.state.first = rest ∧
      s.releasePick.state.continuation = s.state.continuation.dropWhile s.isClosed ∧
      (s.state.continuation.dropWhile s.isClosed = [] ∧ s.releasePick.state.firstStreak = 0 ∨
        s.state.firstStreak < MAX_FIRST_IN_A_ROW ∧
        s.releasePick.state.firstStreak = s.state.firstStreak + 1)) := by
  unfold grants releasePick
  rcases s.state.pick_cases s.isClosed with ⟨hfirst, hcontinuation, hpick⟩ |
    ⟨w, rest, hcontinuation, hpick⟩ | ⟨w, rest, hfirst, hcases⟩
  · refine .inl ⟨hfirst, hcontinuation, by rw [hpick]; rfl, fun p => ?_⟩
    rw [hpick]
    cases p with
    | first => exact hfirst
    | continuation => exact hcontinuation
  · have hmem : w ∈ s.state.continuation :=
      (List.dropWhile_suffix _).subset (hcontinuation ▸ List.mem_cons_self)
    refine .inr (.inl ⟨w, rest, hcontinuation, ?_, by rw [hpick]⟩)
    rw [hpick]
    show [(if w ∈ s.state.first then TtsPriority.first else .continuation, w)] = _
    rw [if_neg (h.not_first hmem)]
  · have hmem : w ∈ s.state.first :=
      (List.dropWhile_suffix _).subset (hfirst ▸ List.mem_cons_self)
    have hnote : [(if w ∈ s.state.first then TtsPriority.first else .continuation, w)] =
        [(.first, w)] := by
      rw [if_pos hmem]
    rcases hcases with ⟨hnone, hpick⟩ | ⟨-, hstreak, hpick⟩ <;> rw [hpick]
    · exact .inr (.inr ⟨w, rest, hfirst, hnote, rfl, hnone.symm, .inl ⟨hnone, rfl⟩⟩)
    · exact .inr (.inr ⟨w, rest, hfirst, hnote, rfl, rfl, .inr ⟨hstreak, rfl⟩⟩)

/-! ## What the other steps leave alone -/

section Steps

variable {s t : TtsSlots} {op : SlotOp} {out : List Nat}

theorem step_channels (hs : s.step op = some (t, out)) :
    s.channels.length ≤ t.channels.length ∧ ∀ v, s.isClosed v = true → t.isClosed v = true := by
  have hset : ∀ (w : Nat) (c old : Channel), s.channels[w]? = some old →
      (old = .closed → c = .closed) →
      s.channels.length ≤ (s.channels.set w c).length ∧
        ∀ v, s.isClosed v = true → ((s.channels.set w c)[v]? == some .closed) = true := by
    intro w c old hold hc
    refine ⟨by rw [List.length_set], fun v hv => ?_⟩
    have hv' : s.channels[v]? = some .closed := eq_of_beq hv
    rw [getElem?_setChannel hold]
    by_cases heq : v = w
    · subst heq
      rw [hold, Option.some.injEq] at hv'
      rw [if_pos rfl, hc hv']
      rfl
    · rw [if_neg heq]
      exact hv
  cases op with
  | acquire priority =>
    cases hs
    unfold acquire
    by_cases hfree : 0 < s.state.free
    · rw [if_pos hfree]
      exact ⟨Nat.le_refl _, fun v hv => hv⟩
    · rw [if_neg hfree]
      refine ⟨by simp, fun v hv => ?_⟩
      have hv' : s.channels[v]? = some .closed := eq_of_beq hv
      have hlt := (List.getElem?_eq_some_iff.mp hv').1
      show ((s.channels ++ [Channel.waiting])[v]? == some .closed) = true
      rw [List.getElem?_append_left hlt]
      exact hv
  | receive w =>
    obtain ⟨hgranted, hs⟩ := Option.ite_none_right_eq_some.mp hs
    cases hs
    exact hset w .received .granted hgranted (fun hno => by contradiction)
  | cancel w =>
    unfold step at hs
    dsimp only at hs
    cases hchannel : s.channels[w]? with rw [hchannel] at hs
    | none =>
      contradiction
    | some c =>
      cases c with
      | waiting | granted =>
        cases hs
        exact hset w .closed _ hchannel (fun _ => rfl)
      | received | closed => contradiction
  | dropPermit =>
    obtain ⟨-, hs⟩ := Option.ite_none_right_eq_some.mp hs
    cases hs
    exact ⟨Nat.le_refl _, fun v hv => hv⟩
  | pick =>
    obtain ⟨-, hs⟩ := Option.ite_none_right_eq_some.mp hs
    cases hs
    have hsame : s.releasePick.channels = s.channels := by
      unfold releasePick
      split <;> rfl
    unfold isClosed
    rw [hsame]
    exact ⟨Nat.le_refl _, fun v hv => hv⟩
  | deliver w =>
    obtain ⟨-, hs⟩ := Option.ite_none_right_eq_some.mp hs
    cases hclosed : s.isClosed w with rw [hclosed] at hs
    | true =>
      cases hs
      exact ⟨Nat.le_refl _, fun v hv => hv⟩
    | false =>
      cases hs
      refine ⟨by simp [setChannel], fun v hv => ?_⟩
      have hne : w ≠ v := fun heq => by
        subst heq
        rw [hv] at hclosed
        contradiction
      show ((s.channels.set w Channel.granted)[v]? == some .closed) = true
      rw [List.getElem?_set_ne hne]
      exact hv

theorem step_cases (hs : s.step op = some (t, out)) :
    (op = .pick ∧ 0 < s.picking ∧ t = s.releasePick) ∨
    (∃ p, op = .acquire p ∧ ¬ 0 < s.state.free ∧ t.state = s.state.pushBack p s.channels.length ∧
      t.channels.length = s.channels.length + 1) ∨
    (op ≠ .pick ∧ s.joins op = [] ∧ s.grants op = [] ∧ (∀ p, t.state.queue p = s.state.queue p) ∧
      t.state.firstStreak = s.state.firstStreak) := by
  cases op with
  | acquire priority =>
    cases hs
    by_cases hfree : 0 < s.state.free
    · refine .inr (.inr ⟨by simp, if_pos hfree, rfl, fun p => ?_, ?_⟩) <;> unfold acquire
      · rw [if_pos hfree]
        cases p <;> rfl
      · rw [if_pos hfree]
    · refine .inr (.inl ⟨priority, rfl, hfree, ?_, ?_⟩) <;> unfold acquire
      · rw [if_neg hfree]
      · rw [if_neg hfree]
        exact List.length_append
  | receive w | dropPermit =>
    obtain ⟨-, hs⟩ := Option.ite_none_right_eq_some.mp hs
    cases hs
    exact .inr (.inr ⟨by simp, rfl, rfl, fun _ => rfl, rfl⟩)
  | cancel w =>
    unfold step at hs
    dsimp only at hs
    cases hchannel : s.channels[w]? with rw [hchannel] at hs
    | none =>
      contradiction
    | some c =>
      cases c with
      | waiting | granted =>
        cases hs
        exact .inr (.inr ⟨by simp, rfl, rfl, fun _ => rfl, rfl⟩)
      | received | closed => contradiction
  | pick =>
    obtain ⟨hpicking, hs⟩ := Option.ite_none_right_eq_some.mp hs
    cases hs
    exact .inl ⟨rfl, hpicking, rfl⟩
  | deliver w =>
    obtain ⟨-, hs⟩ := Option.ite_none_right_eq_some.mp hs
    refine .inr (.inr ?_)
    cases hclosed : s.isClosed w with
    | true | false =>
      rw [hclosed] at hs
      cases hs
      exact ⟨by simp, rfl, rfl, fun _ => rfl, rfl⟩

end Steps

/-! ## Order of arrival -/

def ofPriority (p : TtsPriority) (notes : List (TtsPriority × Nat)) : List (TtsPriority × Nat) :=
  notes.filter fun n => n.1 = p

/-- Waiters are numbered as they join; those who left a queue left it from its front, granted a
slot or gone. -/
structure Ordered (joined granted : List (TtsPriority × Nat)) (s : TtsSlots) : Prop where
  increasing : (joined.map Prod.snd).Pairwise (· < ·)
  known : ∀ n ∈ joined, n.2 < s.channels.length
  left : ∀ p, ∃ past, ofPriority p joined = past ++ (s.state.queue p).map (p, ·) ∧
    (ofPriority p granted).Sublist past ∧ ∀ n ∈ past, n ∈ granted ∨ s.isClosed n.2 = true

section Order

variable {slots : Nat} {s t : TtsSlots} {op : SlotOp} {out : List Nat}
  {joined granted : List (TtsPriority × Nat)}

theorem ofPriority_append (p : TtsPriority) (xs ys : List (TtsPriority × Nat)) :
    ofPriority p (xs ++ ys) = ofPriority p xs ++ ofPriority p ys := List.filter_append xs ys

theorem ofPriority_same (p : TtsPriority) (w : Nat) : ofPriority p [(p, w)] = [(p, w)] := by
  simp [ofPriority]

theorem ofPriority_other {p q : TtsPriority} (hne : q ≠ p) (w : Nat) :
    ofPriority p [(q, w)] = [] := by
  simp [ofPriority, hne]

theorem pruned_closed (p : TtsPriority) (waiters : List Nat) :
    ∀ n ∈ (waiters.takeWhile s.isClosed).map (p, ·), s.isClosed n.2 = true := by
  intro n hn
  obtain ⟨w, hw, rfl⟩ := List.mem_map.mp hn
  exact List.mem_takeWhile_imp hw

theorem left_pruned {p : TtsPriority} {past : List (TtsPriority × Nat)} {waiters : List Nat}
    (hjoined : ofPriority p joined = past ++ waiters.map (p, ·))
    (hgranted : (ofPriority p granted).Sublist past)
    (hpast : ∀ n ∈ past, n ∈ granted ∨ s.isClosed n.2 = true) :
    ∃ past', ofPriority p joined = past' ++ (waiters.dropWhile s.isClosed).map (p, ·) ∧
      (ofPriority p granted).Sublist past' ∧ ∀ n ∈ past', n ∈ granted ∨ s.isClosed n.2 = true := by
  refine ⟨past ++ (waiters.takeWhile s.isClosed).map (p, ·), ?_, ?_, fun n hn => ?_⟩
  · rw [hjoined, List.append_assoc, ← List.map_append, List.takeWhile_append_dropWhile]
  · exact hgranted.trans (List.sublist_append_left _ _)
  · rcases List.mem_append.mp hn with hn | hn
    · exact hpast n hn
    · exact .inr (pruned_closed p waiters n hn)

theorem left_served {p : TtsPriority} {past : List (TtsPriority × Nat)} {waiters rest : List Nat}
    {w : Nat} (hjoined : ofPriority p joined = past ++ waiters.map (p, ·))
    (hgranted : (ofPriority p granted).Sublist past)
    (hpast : ∀ n ∈ past, n ∈ granted ∨ s.isClosed n.2 = true)
    (hserved : waiters.dropWhile s.isClosed = w :: rest) :
    ∃ past', ofPriority p joined = past' ++ rest.map (p, ·) ∧
      (ofPriority p (granted ++ [(p, w)])).Sublist past' ∧
      ∀ n ∈ past', n ∈ granted ++ [(p, w)] ∨ s.isClosed n.2 = true := by
  obtain ⟨past', hjoined', hgranted', hpast'⟩ := left_pruned hjoined hgranted hpast
  rw [hserved] at hjoined'
  refine ⟨past' ++ [(p, w)], ?_, ?_, fun n hn => ?_⟩
  · rw [hjoined', List.append_assoc]
    rfl
  · rw [ofPriority_append, ofPriority_same]
    exact hgranted'.append (List.Sublist.refl _)
  · rcases List.mem_append.mp hn with hn | hn
    · exact (hpast' n hn).imp_left (List.mem_append_left _)
    · exact .inl (List.mem_append_right _ hn)

theorem releasePick_channels (s : TtsSlots) : s.releasePick.channels = s.channels := by
  unfold releasePick
  split <;> rfl

theorem releasePick_isClosed (s : TtsSlots) : s.releasePick.isClosed = s.isClosed := by
  unfold isClosed
  rw [releasePick_channels]

theorem Ordered.pick (h : Ordered joined granted s) (hc : s.Conserved slots) :
    Ordered joined (granted ++ s.grants .pick) s.releasePick := by
  refine ⟨h.increasing, fun n hn => releasePick_channels s ▸ h.known n hn, fun p => ?_⟩
  obtain ⟨past, hjoined, hgranted, hpast⟩ := h.left p
  rw [releasePick_isClosed]
  have hpruned := left_pruned hjoined hgranted hpast
  rcases releasePick_cases hc with ⟨hfirst, hcontinuation, hnote, hnone⟩ |
    ⟨w, rest, hserved, hnote, hstate⟩ | ⟨w, rest, hserved, hnote, hfirst, hcontinuation, -⟩
  · rw [hnote, List.append_nil, hnone p]
    have hempty : (s.state.queue p).dropWhile s.isClosed = [] := by
      cases p with
      | first => exact hfirst
      | continuation => exact hcontinuation
    rwa [hempty] at hpruned
  · rw [hnote, hstate]
    cases p with
    | first =>
      obtain ⟨past', hjoined', hgranted', hpast'⟩ := hpruned
      refine ⟨past', hjoined', ?_, fun n hn => (hpast' n hn).imp_left (List.mem_append_left _)⟩
      rw [ofPriority_append, ofPriority_other (by simp), List.append_nil]
      exact hgranted'
    | continuation => exact left_served hjoined hgranted hpast hserved
  · rw [hnote]
    cases p with
    | first =>
      show ∃ past', _ = past' ++ s.releasePick.state.first.map _ ∧ _
      rw [hfirst]
      exact left_served hjoined hgranted hpast hserved
    | continuation =>
      show ∃ past', _ = past' ++ s.releasePick.state.continuation.map _ ∧ _
      rw [hcontinuation]
      obtain ⟨past', hjoined', hgranted', hpast'⟩ := hpruned
      refine ⟨past', hjoined', ?_, fun n hn => (hpast' n hn).imp_left (List.mem_append_left _)⟩
      rw [ofPriority_append, ofPriority_other (by simp), List.append_nil]
      exact hgranted'

theorem queue_pushBack (state : SlotState) (p q : TtsPriority) (w : Nat) :
    (state.pushBack p w).queue q = state.queue q ++ if p = q then [w] else [] := by
  cases p <;> cases q <;> simp [SlotState.pushBack, SlotState.queue]

theorem Ordered.join (h : Ordered joined granted s) {p : TtsPriority}
    (hstate : t.state = s.state.pushBack p s.channels.length)
    (hlength : t.channels.length = s.channels.length + 1)
    (hclosed : ∀ v, s.isClosed v = true → t.isClosed v = true) :
    Ordered (joined ++ [(p, s.channels.length)]) granted t := by
  refine ⟨?_, fun n hn => ?_, fun q => ?_⟩
  · rw [List.map_append, List.pairwise_append]
    refine ⟨h.increasing, List.pairwise_singleton _ _, fun v hv w hw => ?_⟩
    obtain ⟨n, hn, rfl⟩ := List.mem_map.mp hv
    rw [List.map_singleton, List.mem_singleton] at hw
    exact hw ▸ h.known n hn
  · rw [hlength]
    rcases List.mem_append.mp hn with hn | hn
    · exact Nat.lt_succ_of_lt (h.known n hn)
    · rw [List.mem_singleton.mp hn]
      exact Nat.lt_succ_self _
  · obtain ⟨past, hjoined, hgranted, hpast⟩ := h.left q
    refine ⟨past, ?_, hgranted, fun n hn => (hpast n hn).imp_right (hclosed n.2)⟩
    rw [ofPriority_append, hjoined, hstate, queue_pushBack, List.map_append, List.append_assoc]
    by_cases heq : p = q
    · subst heq
      rw [ofPriority_same, if_pos rfl]
      rfl
    · rw [ofPriority_other heq, if_neg heq]
      rfl

theorem Ordered.step (h : Ordered joined granted s) (hc : s.Conserved slots)
    (hs : s.step op = some (t, out)) : Ordered (joined ++ s.joins op) (granted ++ s.grants op) t := by
  obtain ⟨hlonger, hclosed⟩ := step_channels hs
  rcases step_cases hs with ⟨rfl, -, rfl⟩ | ⟨p, rfl, hfree, hstate, hlength⟩ |
    ⟨-, hjoins, hgrants, hqueue, -⟩
  · rw [show s.joins .pick = [] from rfl, List.append_nil]
    exact h.pick hc
  · rw [show s.joins (.acquire p) = [(p, s.channels.length)] from if_neg hfree,
      show s.grants (.acquire p) = [] from rfl, List.append_nil]
    exact h.join hstate hlength hclosed
  · rw [hjoins, hgrants, List.append_nil, List.append_nil]
    refine ⟨h.increasing, fun n hn => (h.known n hn).trans_le hlonger, fun p => ?_⟩
    obtain ⟨past, hjoined, hgranted, hpast⟩ := h.left p
    rw [hqueue p]
    exact ⟨past, hjoined, hgranted, fun n hn => (hpast n hn).imp_right (hclosed n.2)⟩

theorem new_ordered (slots : Nat) : Ordered [] [] (new slots) :=
  ⟨List.Pairwise.nil, fun _ hn => absurd hn List.not_mem_nil, fun p =>
    ⟨[], by cases p <;> rfl, List.Sublist.refl _, fun _ hn => absurd hn List.not_mem_nil⟩⟩

theorem run_ordered (h : Ordered joined granted s) (hc : s.Conserved slots) {ops : List SlotOp}
    (hr : Machine.run step s ops = some (t, out)) :
    Ordered (joined ++ Machine.log step joins s ops) (granted ++ Machine.log step grants s ops) t ∧
      t.Conserved slots := by
  induction ops generalizing s joined granted out with
  | nil =>
    cases hr
    exact ⟨by simpa [Machine.log] using h, hc⟩
  | cons op ops ih =>
    obtain ⟨u, first, rest, hs, htail, -⟩ := Machine.run_cons_eq_some.mp hr
    rw [Machine.log_cons hs, Machine.log_cons hs, ← List.append_assoc, ← List.append_assoc]
    exact ih (h.step hc hs) (step_conserved hc hs) htail

/-- A waiter of the same priority that joined before one who is picked has had its grant, or is
gone. -/
theorem Ordered.no_overtaking (h : Ordered joined granted s) (hc : s.Conserved slots)
    {p : TtsPriority} {v w : Nat} (hw : (p, w) ∈ s.grants .pick) (hv : (p, v) ∈ joined)
    (hlt : v < w) : (p, v) ∈ granted ∨ s.isClosed v = true := by
  obtain ⟨past, hjoined, -, hpast⟩ := h.left p
  have hserved : ∃ rest, (s.state.queue p).dropWhile s.isClosed = w :: rest := by
    rcases releasePick_cases hc with ⟨-, -, hnote, -⟩ | ⟨x, rest, hserved, hnote, -⟩ |
      ⟨x, rest, hserved, hnote, -⟩
    · rw [hnote] at hw
      contradiction
    · rw [hnote, List.mem_singleton] at hw
      obtain ⟨rfl, rfl⟩ := hw
      exact ⟨rest, hserved⟩
    · rw [hnote, List.mem_singleton] at hw
      obtain ⟨rfl, rfl⟩ := hw
      exact ⟨rest, hserved⟩
  obtain ⟨rest, hserved⟩ := hserved
  have hmem : (p, v) ∈ ofPriority p joined := List.mem_filter.mpr ⟨hv, by simp⟩
  have hincreasing : (ofPriority p joined).Pairwise fun m n => m.2 < n.2 :=
    (List.pairwise_map.mp h.increasing).filter _
  rw [hjoined, ← List.takeWhile_append_dropWhile (p := s.isClosed) (l := s.state.queue p), hserved,
    List.map_append] at hmem hincreasing
  rcases List.mem_append.mp hmem with hmem | hmem
  · exact hpast _ hmem
  · rcases List.mem_append.mp hmem with hmem | hmem
    · exact .inr (pruned_closed p _ _ hmem)
    · have hbehind : w ≤ v := by
        rcases List.mem_cons.mp hmem with heq | hmem
        · exact (Prod.mk.inj heq).2.ge
        · have htail := (List.pairwise_append.mp (List.pairwise_append.mp hincreasing).2.1).2.1
          exact Nat.le_of_lt (List.rel_of_pairwise_cons htail hmem)
      omega

end Order

/-! ## A waiting `Continuation` -/

def grantsTo (p : TtsPriority) (granted : List (TtsPriority × Nat)) : Nat :=
  (ofPriority p granted).length

def live (s : TtsSlots) (waiters : List Nat) : Nat := waiters.countP fun w => !s.isClosed w

/-- Since some state, `given` has been granted and `w` still waits, with `k` the `Continuation`
waiters ahead of it at the time: each pick granted a slot, and the streak accounts for the `First`
grants since the last `Continuation` grant. -/
structure Waits (k w picks : Nat) (given : List (TtsPriority × Nat)) (s : TtsSlots) : Prop where
  not_granted : (TtsPriority.continuation, w) ∉ given
  picked : given.length = picks
  passed : grantsTo .first given ≤ 3 * grantsTo .continuation given + s.state.firstStreak
  ahead : ∃ ahead behind, s.state.continuation = ahead ++ w :: behind ∧
    grantsTo .continuation given + s.live ahead ≤ k

/-- The grants made before that of `w` keep to the bounds. -/
def Served (k w : Nat) (given : List (TtsPriority × Nat)) : Prop :=
  ∃ before after, given = before ++ (.continuation, w) :: after ∧
    (TtsPriority.continuation, w) ∉ before ∧
    grantsTo .first before ≤ 3 * (grantsTo .continuation before + 1) ∧
    grantsTo .continuation before ≤ k

section Waiting

variable {slots k w picks : Nat} {s t : TtsSlots} {op : SlotOp} {out : List Nat}
  {given : List (TtsPriority × Nat)}

theorem grantsTo_append (p : TtsPriority) (xs ys : List (TtsPriority × Nat)) :
    grantsTo p (xs ++ ys) = grantsTo p xs + grantsTo p ys := by
  unfold grantsTo
  rw [ofPriority_append, List.length_append]

@[simp] theorem grantsTo_same (p : TtsPriority) (w : Nat) : grantsTo p [(p, w)] = 1 := by
  unfold grantsTo
  rw [ofPriority_same]
  rfl

theorem grantsTo_other {p q : TtsPriority} (hne : q ≠ p) (w : Nat) : grantsTo p [(q, w)] = 0 := by
  unfold grantsTo
  rw [ofPriority_other hne]
  rfl

theorem length_eq_grantsTo (given : List (TtsPriority × Nat)) :
    given.length = grantsTo .first given + grantsTo .continuation given := by
  induction given with
  | nil => rfl
  | cons n given ih =>
    obtain ⟨p, w⟩ := n
    rw [← List.singleton_append, grantsTo_append, grantsTo_append, List.length_append]
    cases p with
    | first | continuation =>
      rw [grantsTo_same, grantsTo_other (by simp)]
      show 1 + _ = _
      omega

theorem Served.append (h : Served k w given) (more : List (TtsPriority × Nat)) :
    Served k w (given ++ more) := by
  obtain ⟨before, after, rfl, hbefore, hfirst, hcontinuation⟩ := h
  exact ⟨before, after ++ more, by simp, hbefore, hfirst, hcontinuation⟩

theorem live_le (hclosed : ∀ v, s.isClosed v = true → t.isClosed v = true) (waiters : List Nat) :
    t.live waiters ≤ s.live waiters := by
  refine List.countP_mono_left fun v _ hv => ?_
  cases hv' : s.isClosed v with
  | false => rfl
  | true =>
    rw [hclosed v hv'] at hv
    contradiction

theorem dropWhile_live {ahead behind : List Nat} (hw : s.isClosed w = false) :
    (ahead ++ w :: behind).dropWhile s.isClosed = ahead.dropWhile s.isClosed ++ w :: behind ∧
      s.live (ahead.dropWhile s.isClosed) = s.live ahead := by
  induction ahead with
  | nil => exact ⟨List.dropWhile_cons_of_neg (by simp [hw]), rfl⟩
  | cons v ahead ih =>
    cases hv : s.isClosed v with
    | true =>
      rw [List.cons_append, List.dropWhile_cons_of_pos hv, List.dropWhile_cons_of_pos hv]
      refine ⟨ih.1, ih.2.trans ?_⟩
      unfold live
      rw [List.countP_cons_of_neg (by simp [hv])]
    | false =>
      have hneg : ¬ s.isClosed v = true := by simp [hv]
      rw [List.cons_append, List.dropWhile_cons_of_neg hneg, List.dropWhile_cons_of_neg hneg]
      exact ⟨rfl, rfl⟩

theorem step_streak (hstreak : s.state.firstStreak ≤ MAX_FIRST_IN_A_ROW)
    (hs : s.step op = some (t, out)) : t.state.firstStreak ≤ MAX_FIRST_IN_A_ROW := by
  rcases step_cases hs with ⟨rfl, -, rfl⟩ | ⟨p, -, -, hstate, -⟩ | ⟨-, -, -, -, hsame⟩
  · unfold releasePick
    rcases s.state.pick_cases s.isClosed with ⟨-, -, hpick⟩ | ⟨v, rest, -, hpick⟩ |
      ⟨v, rest, -, ⟨-, hpick⟩ | ⟨-, hless, hpick⟩⟩
    · rw [hpick]
      exact hstreak
    · rw [hpick]
      exact Nat.zero_le _
    · rw [hpick]
      exact Nat.zero_le _
    · rw [hpick]
      exact hless
  · rw [hstate]
    cases p <;> exact hstreak
  · exact hsame ▸ hstreak

/-- While `w` waits a pick grants a slot: to a `First` waiter, which the streak counts; to a
`Continuation` waiter ahead; or to `w`. -/
theorem Waits.pick (h : Waits k w picks given s) (hc : s.Conserved slots)
    (hstreak : s.state.firstStreak ≤ MAX_FIRST_IN_A_ROW) (hw : s.isClosed w = false) :
    Served k w (given ++ s.grants .pick) ∨
      Waits k w (picks + 1) (given ++ s.grants .pick) s.releasePick := by
  obtain ⟨ahead, behind, hqueue, hahead⟩ := h.ahead
  have hpassed := h.passed
  obtain ⟨hdrop, hlive⟩ := @dropWhile_live w s ahead behind hw
  rw [← hqueue] at hdrop
  unfold MAX_FIRST_IN_A_ROW at hstreak
  rcases releasePick_cases hc with ⟨-, hnone, -, -⟩ | ⟨v, rest, hserved, hnote, hstate⟩ |
    ⟨v, rest, -, hnote, -, hcontinuation, hcases⟩
  · rw [hdrop] at hnone
    simp at hnone
  · rw [hdrop] at hserved
    rw [hnote]
    cases hkept : ahead.dropWhile s.isClosed with
    | nil =>
      rw [hkept] at hserved
      obtain ⟨rfl, rfl⟩ := List.cons.inj hserved
      refine .inl ⟨given, [], rfl, h.not_granted, by omega, by omega⟩
    | cons u others =>
      rw [hkept, List.cons_append] at hserved
      obtain ⟨rfl, rfl⟩ := List.cons.inj hserved
      have hlater : u ≠ w := by
        have hdistinct : (s.state.continuation.dropWhile s.isClosed).Nodup :=
          ((List.nodup_append.mp (List.nodup_append.mp hc.distinct).1).2.1).sublist
            (List.dropWhile_sublist _)
        rw [hdrop, hkept, List.cons_append, List.nodup_cons] at hdistinct
        exact fun heq => hdistinct.1 (heq ▸ List.mem_append_right _ List.mem_cons_self)
      have hopen : s.isClosed u = false := by
        have hhead := List.head?_dropWhile_not s.isClosed ahead
        rw [hkept] at hhead
        simpa using hhead
      have hone : s.live (u :: others) = s.live others + 1 :=
        List.countP_cons_of_pos (by simp [hopen])
      have hsame : s.releasePick.live others = s.live others := by
        unfold live
        rw [releasePick_isClosed]
      rw [hkept] at hlive
      refine .inr ⟨?_, ?_, ?_, others, behind, by rw [hstate], ?_⟩
      · rw [List.mem_append, List.mem_singleton, Prod.mk.injEq]
        rintro (hgiven | ⟨-, heq⟩)
        · exact h.not_granted hgiven
        · exact hlater heq.symm
      · rw [List.length_append, h.picked]
        rfl
      · rw [grantsTo_append, grantsTo_append, grantsTo_other (by simp), grantsTo_same]
        omega
      · rw [grantsTo_append, grantsTo_same]
        omega
  · have hadds : s.releasePick.state.firstStreak = s.state.firstStreak + 1 := by
      rcases hcases with ⟨hnone, -⟩ | ⟨-, hadds⟩
      · rw [hdrop] at hnone
        simp at hnone
      · exact hadds
    have hsame : s.releasePick.live (ahead.dropWhile s.isClosed) = s.live ahead := by
      rw [← hlive]
      unfold live
      rw [releasePick_isClosed]
    rw [hnote]
    refine .inr ⟨?_, ?_, ?_, ahead.dropWhile s.isClosed, behind, hcontinuation.trans hdrop, ?_⟩
    · rw [List.mem_append, List.mem_singleton, Prod.mk.injEq]
      rintro (hgiven | ⟨hno, -⟩)
      · exact h.not_granted hgiven
      · contradiction
    · rw [List.length_append, h.picked]
      rfl
    · rw [grantsTo_append, grantsTo_append, grantsTo_same]
      omega
    · rw [grantsTo_append, grantsTo_other (by simp)]
      omega

theorem Waits.step (h : Waits k w picks given s) (hc : s.Conserved slots)
    (hstreak : s.state.firstStreak ≤ MAX_FIRST_IN_A_ROW) (hw : s.isClosed w = false)
    (hs : s.step op = some (t, out)) :
    Served k w (given ++ s.grants op) ∨
      Waits k w (picks + [op].count .pick) (given ++ s.grants op) t := by
  obtain ⟨-, hclosed⟩ := step_channels hs
  obtain ⟨ahead, behind, hqueue, hahead⟩ := h.ahead
  have hfewer := live_le hclosed ahead
  rcases step_cases hs with ⟨rfl, -, rfl⟩ | ⟨p, rfl, -, hstate, -⟩ | ⟨hop, -, hgrants, hsame, hkept⟩
  · exact h.pick hc hstreak hw
  · refine .inr ?_
    rw [show s.grants (.acquire p) = [] from rfl, List.append_nil]
    refine ⟨h.not_granted, h.picked, ?_, ?_⟩ <;> rw [hstate]
    · cases p <;> exact h.passed
    · cases p with
      | first => exact ⟨ahead, behind, hqueue, by omega⟩
      | continuation =>
        refine ⟨ahead, behind ++ [s.channels.length], ?_, by omega⟩
        show s.state.continuation ++ _ = _
        rw [hqueue, List.append_assoc, List.cons_append]
  · refine .inr ?_
    have hcount : [op].count .pick = 0 := List.count_eq_zero.mpr fun hmem =>
      hop (List.mem_singleton.mp hmem).symm
    rw [hgrants, List.append_nil, hcount]
    refine ⟨h.not_granted, h.picked, hkept ▸ h.passed, ahead, behind, ?_, by omega⟩
    exact (hsame .continuation).trans hqueue

theorem grants_open {p : TtsPriority} {v : Nat} (hc : s.Conserved slots)
    (hv : (p, v) ∈ s.grants op) : s.isClosed v = false := by
  have hhead : ∀ (waiters rest : List Nat) (x : Nat), waiters.dropWhile s.isClosed = x :: rest →
      s.isClosed x = false := fun waiters rest x hx => by
    have hnot := List.head?_dropWhile_not s.isClosed waiters
    rw [hx] at hnot
    simpa using hnot
  cases op with
  | pick =>
    rcases releasePick_cases hc with ⟨-, -, hnote, -⟩ | ⟨x, rest, hserved, hnote, -⟩ |
      ⟨x, rest, hserved, hnote, -⟩
    · rw [hnote] at hv
      contradiction
    · rw [hnote, List.mem_singleton, Prod.mk.injEq] at hv
      exact hv.2 ▸ hhead _ rest x hserved
    · rw [hnote, List.mem_singleton, Prod.mk.injEq] at hv
      exact hv.2 ▸ hhead _ rest x hserved
  | acquire | receive | cancel | dropPermit | deliver => contradiction

/-- From a state where `w` waits with `k` live waiters ahead, a run serves it within the bounds,
finds it gone, or leaves it waiting. -/
theorem run_waits (hc : s.Conserved slots) (hstreak : s.state.firstStreak ≤ MAX_FIRST_IN_A_ROW)
    (h : Waits k w 0 [] s) (hw : s.isClosed w = false) {ops : List SlotOp}
    (hr : Machine.run TtsSlots.step s ops = some (t, out)) :
    Served k w (Machine.log TtsSlots.step grants s ops) ∨
      ((TtsPriority.continuation, w) ∉ Machine.log TtsSlots.step grants s ops ∧
        t.isClosed w = true) ∨
      (t.isClosed w = false ∧
        Waits k w (ops.count .pick) (Machine.log TtsSlots.step grants s ops) t) := by
  refine (Machine.run_log_history (C := fun _ _ => True)
    (I := fun ops given _ t => (t.Conserved slots ∧ t.state.firstStreak ≤ MAX_FIRST_IN_A_ROW) ∧
      (Served k w given ∨ ((TtsPriority.continuation, w) ∉ given ∧ t.isClosed w = true) ∨
        (t.isClosed w = false ∧ Waits k w (ops.count .pick) given t)))
    (fun ops given _ t op u _ hi _ hs => ?_) ⟨⟨hc, hstreak⟩, .inr (.inr ⟨hw, h⟩)⟩
    (Machine.along_of_forall_mem (P := fun _ => True) (fun _ _ => trivial) _) hr).2
  obtain ⟨⟨hc, hstreak⟩, hcases⟩ := hi
  obtain ⟨-, hclosed⟩ := step_channels hs
  refine ⟨⟨step_conserved hc hs, step_streak hstreak hs⟩, ?_⟩
  rcases hcases with hserved | ⟨hnot, hgone⟩ | ⟨hopen, hwaits⟩
  · exact .inl (hserved.append _)
  · refine .inr (.inl ⟨?_, hclosed w hgone⟩)
    rw [List.mem_append]
    rintro (hgiven | hgiven)
    · exact hnot hgiven
    · rw [grants_open hc hgiven] at hgone
      contradiction
  · rcases hwaits.step hc hstreak hopen hs with hserved | hwaits'
    · exact .inl hserved
    · rw [List.count_append]
      cases hgone : u.isClosed w with
      | true => exact .inr (.inl ⟨hwaits'.not_granted, rfl⟩)
      | false => exact .inr (.inr ⟨rfl, hwaits'⟩)

end Waiting

/-! ## Sending what was granted -/

section Sending

variable {slots : Nat} {s t : TtsSlots} {op : SlotOp} {out : List Nat}
  {joined granted : List (TtsPriority × Nat)}

theorem Ordered.granted_leaves (h : Ordered joined granted s) (hc : s.Conserved slots)
    {p : TtsPriority} {w : Nat} (hw : (p, w) ∈ granted) :
    w ∈ s.delivering ∨ s.channels[w]? ≠ some .waiting := by
  by_cases hwaiting : s.channels[w]? = some .waiting
  · refine .inl ?_
    rcases List.mem_append.mp (hc.kept w hwaiting) with hqueued | hdelivering
    · obtain ⟨q, hq⟩ : ∃ q, w ∈ s.state.queue q := by
        rcases List.mem_append.mp hqueued with hfirst | hcontinuation
        · exact ⟨.first, hfirst⟩
        · exact ⟨.continuation, hcontinuation⟩
      obtain ⟨past, hp, hpast, -⟩ := h.left p
      obtain ⟨others, hothers, -⟩ := h.left q
      have hmem : (p, w) ∈ past := hpast.subset (List.mem_filter.mpr ⟨hw, by simp⟩)
      have hmem' : (q, w) ∈ (s.state.queue q).map (q, ·) := List.mem_map.mpr ⟨w, hq, rfl⟩
      have hjoined : (p, w) ∈ ofPriority p joined := hp ▸ List.mem_append_left _ hmem
      have hjoined' : (q, w) ∈ ofPriority q joined := hothers ▸ List.mem_append_right _ hmem'
      have hdistinct : (joined.map Prod.snd).Nodup := h.increasing.imp Nat.ne_of_lt
      have hsame : (p, w) = (q, w) :=
        List.inj_on_of_nodup_map hdistinct (List.mem_filter.mp hjoined).1
          (List.mem_filter.mp hjoined').1 rfl
      cases hsame
      have hincreasing : (ofPriority p joined).Pairwise fun m n => m.2 < n.2 :=
        (List.pairwise_map.mp h.increasing).filter _
      rw [hp] at hincreasing
      exact absurd ((List.pairwise_append.mp hincreasing).2.2 _ hmem _ hmem') (Nat.lt_irrefl w)
    · exact hdelivering
  · exact .inr hwaiting

/-- A release that starts to pick once every earlier one has sent what it picked. -/
def OneByOne (s : TtsSlots) (op : SlotOp) : Prop := op = .pick → s.delivering = []

/-- The permits sent, and the one under way, follow the grants. -/
def SentInOrder (granted : List (TtsPriority × Nat)) (sent : List Nat) (s : TtsSlots) : Prop :=
  s.delivering.length ≤ 1 ∧ (sent ++ s.delivering).Sublist (granted.map Prod.snd)

theorem grants_map_snd (s : TtsSlots) :
    (s.grants .pick).map Prod.snd = (s.state.pick s.isClosed).1.toList := by
  unfold grants
  rw [List.map_map]
  exact List.map_id _

theorem SentInOrder.step {sent : List Nat} (h : SentInOrder granted sent s)
    (hone : OneByOne s op) (hs : s.step op = some (t, out)) :
    SentInOrder (granted ++ s.grants op) (sent ++ out) t := by
  obtain ⟨hlength, hsub⟩ := h
  unfold SentInOrder
  have hquiet : t.delivering = s.delivering → s.grants op = [] → out = [] →
      SentInOrder (granted ++ s.grants op) (sent ++ out) t := fun hsame hgrants hout => by
    unfold SentInOrder
    rw [hsame, hgrants, hout, List.append_nil, List.append_nil]
    exact ⟨hlength, hsub⟩
  cases op with
  | acquire priority =>
    cases hs
    refine hquiet ?_ rfl rfl
    unfold acquire
    split <;> rfl
  | receive w | dropPermit =>
    obtain ⟨-, hs⟩ := Option.ite_none_right_eq_some.mp hs
    cases hs
    exact hquiet rfl rfl rfl
  | cancel w =>
    unfold TtsSlots.step at hs
    dsimp only at hs
    cases hchannel : s.channels[w]? with rw [hchannel] at hs
    | none =>
      contradiction
    | some c =>
      cases c with
      | waiting | granted =>
        cases hs
        exact hquiet rfl rfl rfl
      | received | closed => contradiction
  | pick =>
    obtain ⟨-, hs⟩ := Option.ite_none_right_eq_some.mp hs
    cases hs
    have hdelivering : s.releasePick.delivering = (s.state.pick s.isClosed).1.toList := by
      unfold releasePick
      rcases s.state.pick s.isClosed with ⟨next, state⟩
      cases next with
      | none => exact hone rfl
      | some w =>
        rw [hone rfl]
        rfl
    rw [hone rfl, List.append_nil] at hsub
    rw [hdelivering, List.append_nil, List.map_append, grants_map_snd]
    refine ⟨?_, hsub.append (List.Sublist.refl _)⟩
    cases (s.state.pick s.isClosed).1 with
    | none => exact Nat.zero_le 1
    | some w => exact Nat.le_refl 1
  | deliver w =>
    obtain ⟨hmem, hs⟩ := Option.ite_none_right_eq_some.mp hs
    have hsingle : s.delivering = [w] := by
      obtain ⟨v, hv⟩ := List.length_eq_one_iff.mp
        (Nat.le_antisymm hlength (List.length_pos_of_mem hmem))
      rw [hv, List.mem_singleton] at hmem
      rw [hv, hmem]
    have hdone : s.delivering.erase w = [] := by rw [hsingle, List.erase_cons_head]
    rw [hsingle] at hsub
    rw [show s.grants (.deliver w) = [] from rfl, List.append_nil]
    cases hclosed : s.isClosed w with rw [hclosed] at hs
    | true =>
      cases hs
      rw [hdone, List.append_nil, List.append_nil]
      exact ⟨Nat.zero_le 1, (List.sublist_append_left _ _).trans hsub⟩
    | false =>
      cases hs
      show (s.delivering.erase w).length ≤ 1 ∧ (sent ++ [w] ++ s.delivering.erase w).Sublist _
      rw [hdone, List.append_nil]
      exact ⟨Nat.zero_le 1, hsub⟩

end Sending

/-- In every interleaving the grants of a priority follow the order in which its waiters joined,
and no waiter that is still there is passed by a later one of its priority. A `Continuation`
waiter with `k` live ones ahead, unless it goes away first, is granted a slot by one of the next
`4 * (k + 1)` picks, with at most three `First` grants for each `Continuation` grant up to its
own. A granted waiter is sent its permit unless it goes away, and releases that do not overlap
send in the order of the grants. -/
theorem slots_fair (slots : Nat) {ops : List SlotOp} {s : TtsSlots} {sent : List Nat}
    (hr : Machine.run step (new slots) ops = some (s, sent)) :
    let joined := Machine.log step joins (new slots) ops
    let granted := Machine.log step grants (new slots) ops
    (joined.map Prod.snd).Pairwise (· < ·) ∧
      (∀ p, (ofPriority p granted).Sublist (ofPriority p joined)) ∧
      (∀ p v w, (p, w) ∈ s.grants .pick → (p, v) ∈ joined → v < w →
        (p, v) ∈ granted ∨ s.isClosed v = true) ∧
      (∀ ahead w behind, s.state.continuation = ahead ++ w :: behind → s.isClosed w = false →
        ∀ later t more, Machine.run step s later = some (t, more) →
          let given := Machine.log step grants s later
          (.continuation, w) ∈ given ∨ t.isClosed w = false →
            let before := given.takeWhile (· ≠ (.continuation, w))
            grantsTo .first before ≤ 3 * (grantsTo .continuation before + 1) ∧
              grantsTo .continuation before ≤ s.live ahead ∧
              (4 * (s.live ahead + 1) ≤ later.count .pick →
                (.continuation, w) ∈ given.take (4 * (s.live ahead + 1)))) ∧
      (∀ p w, (p, w) ∈ granted → w ∈ s.delivering ∨ s.channels[w]? ≠ some .waiting) ∧
      (Machine.Along step OneByOne (new slots) ops → sent.Sublist (granted.map Prod.snd)) := by
  intro joined granted
  obtain ⟨hordered, hc⟩ := run_ordered (new_ordered slots) (new_conserved slots) hr
  rw [List.nil_append] at hordered
  have hstreak : s.state.firstStreak ≤ MAX_FIRST_IN_A_ROW :=
    Machine.run_invariant (C := fun _ _ => True)
      (I := fun s => s.state.firstStreak ≤ MAX_FIRST_IN_A_ROW)
      (fun _ _ _ _ h _ hs => step_streak h hs) (Nat.zero_le _)
      (Machine.along_of_forall_mem (P := fun _ => True) (fun _ _ => trivial) _) hr
  refine ⟨hordered.increasing, fun p => ?_, fun p v w hw hv hlt => hordered.no_overtaking hc hw hv hlt,
    fun ahead w behind hqueue hw later t more hlater hstays => ?_,
    fun p w hw => hordered.granted_leaves hc hw, fun hone => ?_⟩
  · obtain ⟨past, hjoined, hgranted, -⟩ := hordered.left p
    rw [hjoined]
    exact hgranted.trans (List.sublist_append_left _ _)
  · have hstart : Waits (s.live ahead) w 0 [] s :=
      ⟨List.not_mem_nil, rfl, Nat.zero_le _, ahead, behind, hqueue, by
        show 0 + _ ≤ _
        omega⟩
    rcases run_waits hc hstreak hstart hw hlater with
      ⟨before, after, hgiven, hbefore, hfirst, hcontinuation⟩ | ⟨hnot, hgone⟩ | ⟨-, hwaits⟩
    · have hpass : ∀ n ∈ before, decide (n ≠ (TtsPriority.continuation, w)) = true :=
        fun n hn => decide_eq_true fun heq => hbefore (heq ▸ hn)
      have htake : (Machine.log step grants s later).takeWhile
          (· ≠ (TtsPriority.continuation, w)) = before := by
        rw [hgiven, List.takeWhile_append_of_pos hpass]
        simp
      have hlength := length_eq_grantsTo before
      rw [htake]
      refine ⟨hfirst, hcontinuation, fun _ => ?_⟩
      rw [hgiven, List.take_append, List.mem_append]
      right
      obtain ⟨n, hn⟩ : ∃ n, 4 * (s.live ahead + 1) - before.length = n + 1 :=
        ⟨4 * (s.live ahead + 1) - before.length - 1, by omega⟩
      rw [hn]
      exact List.mem_cons_self
    · rcases hstays with hin | hopen
      · exact absurd hin hnot
      · rw [hgone] at hopen
        contradiction
    · have htake : (Machine.log step grants s later).takeWhile
          (· ≠ (TtsPriority.continuation, w)) = Machine.log step grants s later :=
        List.takeWhile_eq_self_iff.mpr fun n hn =>
          decide_eq_true fun heq : n = (TtsPriority.continuation, w) =>
            hwaits.not_granted (heq ▸ hn)
      obtain ⟨rest, others, -, hahead⟩ := hwaits.ahead
      have hpassed := hwaits.passed
      have hlength := length_eq_grantsTo (Machine.log step grants s later)
      have hpicked := hwaits.picked
      have hlast : t.state.firstStreak ≤ 3 :=
        Machine.run_invariant (C := fun _ _ => True)
          (I := fun s => s.state.firstStreak ≤ MAX_FIRST_IN_A_ROW)
          (fun _ _ _ _ h _ hs => step_streak h hs) hstreak
          (Machine.along_of_forall_mem (P := fun _ => True) (fun _ _ => trivial) _) hlater
      rw [htake]
      exact ⟨by omega, by omega, fun hmany => by omega⟩
  · have hsent : SentInOrder granted sent s :=
      Machine.run_log_history (I := fun _ granted sent s => SentInOrder granted sent s)
        (fun _ _ _ _ _ _ _ h hone hs => h.step hone hs)
        (show SentInOrder [] [] (new slots) from ⟨Nat.zero_le 1, List.Sublist.refl _⟩) hone hr
    exact (List.sublist_append_left _ _).trans hsent.2

/-- One slot, a `Continuation` waiter and four `First` waiters: three of them pass it. -/
theorem slots_fair_streak :
    Machine.run step (new 1) [.acquire .first, .acquire .continuation, .acquire .first,
      .acquire .first, .acquire .first, .acquire .first] =
        some (⟨⟨0, [1, 2, 3, 4], [0], 0⟩, List.replicate 5 .waiting, 1, 0, []⟩, []) ∧
    (.continuation, 0) ∈ (Machine.log step grants
      ⟨⟨0, [1, 2, 3, 4], [0], 0⟩, List.replicate 5 .waiting, 1, 0, []⟩
      [.dropPermit, .pick, .deliver 1, .receive 1, .dropPermit, .pick, .deliver 2, .receive 2,
        .dropPermit, .pick, .deliver 3, .receive 3, .dropPermit, .pick]).take 4 := by
  refine ⟨rfl, ?_⟩
  have hfair := (@slots_fair 1 [.acquire .first, .acquire .continuation, .acquire .first,
    .acquire .first, .acquire .first, .acquire .first] _ _ rfl).2.2.2.1 [] 0 [] rfl rfl
    [.dropPermit, .pick, .deliver 1, .receive 1, .dropPermit, .pick, .deliver 2, .receive 2,
      .dropPermit, .pick, .deliver 3, .receive 3, .dropPermit, .pick]
    ⟨⟨0, [4], [], 0⟩, [.waiting, .received, .received, .received, .waiting], 0, 0, [0]⟩ [1, 2, 3]
    rfl (.inr rfl)
  exact hfair.2.2 (Nat.le_refl 4)

end TtsSlots

end NodeWebrtc.Sherpa
