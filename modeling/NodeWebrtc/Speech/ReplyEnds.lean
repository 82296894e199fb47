import NodeWebrtc.Speech.TurnOrder

/-! # Every reserved reply ends once

A reply reserved with a ticket ends when the ticket is claimed, when the ticket is released
unclaimed, or when a cut returns it. The table of pending replies holds exactly the replies
of the tickets that are neither past their claim nor cut, so the three never meet.
-/

namespace NodeWebrtc.Speech

open Std Machine

/-! ## Counting the ends -/

def OrderEvent.returns (t : Nat) : OrderEvent → Bool
  | .cut c => decide (t ∈ c.inFlightReplies.map Prod.fst)
  | _ => false

def claims (out : List OrderEvent) (t : Nat) : Nat := out.count (.claimed t)

def releases (out : List OrderEvent) (t : Nat) : Nat := out.count (.released t)

/-- The cuts that returned the reply of the ticket. -/
def returns (out : List OrderEvent) (t : Nat) : Nat := out.countP (OrderEvent.returns t)

/-- The reply ended in exactly one of the three ways. -/
def ReplyEnded (out : List OrderEvent) (t : Nat) : Prop :=
  (claims out t = 1 ∧ returns out t = 0) ∨
    (claims out t = 0 ∧ returns out t = 1) ∨
    (claims out t = 0 ∧ returns out t = 0 ∧ releases out t = 1)

def OrderEvent.EndsNone : OrderEvent → Prop
  | .claimed _ | .released _ | .cut _ => False
  | _ => True

theorem counts_keep {out es : List OrderEvent} (hes : ∀ e ∈ es, e.EndsNone) (t : Nat) :
    claims (out ++ es) t = claims out t ∧ returns (out ++ es) t = returns out t ∧
      releases (out ++ es) t = releases out t := by
  refine ⟨?_, ?_, ?_⟩
  · have hnone : .claimed t ∉ es := fun hmem => hes (.claimed t) hmem
    rw [claims, List.count_append, List.count_eq_zero.mpr hnone]
    rfl
  · have hnone : es.countP (OrderEvent.returns t) = 0 := by
      refine List.countP_eq_zero.mpr fun e he => ?_
      cases e with
      | cut c => exact (hes _ he).elim
      | _ => simp [OrderEvent.returns]
    rw [returns, List.countP_append, hnone]
    rfl
  · have hnone : .released t ∉ es := fun hmem => hes (.released t) hmem
    rw [releases, List.count_append, List.count_eq_zero.mpr hnone]
    rfl

theorem counts_claimed (out : List OrderEvent) (id t : Nat) :
    claims (out ++ [.claimed id]) t = claims out t + (if id = t then 1 else 0) ∧
      returns (out ++ [.claimed id]) t = returns out t ∧
      releases (out ++ [.claimed id]) t = releases out t := by
  simp [claims, returns, releases, List.count_append, List.count_singleton, OrderEvent.returns]

theorem counts_released (out : List OrderEvent) (id t : Nat) :
    claims (out ++ [.released id]) t = claims out t ∧
      returns (out ++ [.released id]) t = returns out t ∧
      releases (out ++ [.released id]) t = releases out t + (if id = t then 1 else 0) := by
  simp [claims, returns, releases, List.count_append, List.count_singleton, OrderEvent.returns]

theorem counts_cut (out : List OrderEvent) (c : TtsFlushCut) (t : Nat) :
    claims (out ++ [.cut c]) t = claims out t ∧
      returns (out ++ [.cut c]) t =
        returns out t + (if t ∈ c.inFlightReplies.map Prod.fst then 1 else 0) ∧
      releases (out ++ [.cut c]) t = releases out t := by
  refine ⟨?_, ?_, ?_⟩
  · simp [claims, List.count_append]
  · simp only [returns, List.countP_append, List.countP_singleton, OrderEvent.returns,
      decide_eq_true_eq]
  · simp [releases, List.count_append]

/-! ## The table of pending replies -/

/-- The ticket was issued and its send is not past its claim. -/
def TtsSendOrder.Unclaimed (o : TtsSendOrder) (t : Nat) : Prop :=
  ∃ phase, o.phase? t = some phase ∧ ¬ phase.PastClaim

structure Replies (o : TtsSendOrder) (out : List OrderEvent) : Prop where
  pending : ∀ t r, o.state.pendingReply[t]? = some r ↔
    o.replyId? t = some r ∧ o.Unclaimed t ∧ o.state.cancelBelow ≤ t
  released : ∀ t, releases out t = if o.phase? t = some .released then 1 else 0
  untouched : ∀ t, o.state.pendingReply[t]? ≠ none ∨ o.phase? t = none →
    claims out t = 0 ∧ returns out t = 0
  ended : ∀ t r, o.replyId? t = some r → o.state.pendingReply[t]? = none → ReplyEnded out t
  cuts : ∀ c, .cut c ∈ out → (c.inFlightReplies.map Prod.fst).Pairwise (· < ·) ∧
    ∀ entry ∈ c.inFlightReplies, o.replyId? entry.1 = some entry.2

theorem Replies.init : Replies .init [] where
  pending := by
    intro t r
    simp [TtsSendOrder.init, OrderState.default, TtsSendOrder.replyId?]
  released := by simp [TtsSendOrder.init, TtsSendOrder.phase?, releases]
  untouched := by simp [claims, returns]
  ended := by simp [TtsSendOrder.init, TtsSendOrder.replyId?]
  cuts := by simp

@[simp] theorem replyId?_setPhase (o : TtsSendOrder) (id t : Nat) (phase : SendPhase) :
    (o.setPhase id phase).replyId? t = o.replyId? t := by
  simp only [TtsSendOrder.replyId?, TtsSendOrder.setPhase, List.getElem?_modify]
  by_cases h : id = t
  · subst h
    cases o.sends[id]? <;> simp
  · simp [h]

@[simp] theorem replyId?_notifyWaiters (o : TtsSendOrder) (t : Nat) :
    o.notifyWaiters.replyId? t = o.replyId? t := by
  simp only [TtsSendOrder.replyId?, TtsSendOrder.notifyWaiters, List.getElem?_map]
  cases o.sends[t]? <;> rfl

theorem replyId?_append (o : TtsSendOrder) (state : OrderState) (send : TtsSend) (t : Nat) :
    TtsSendOrder.replyId? { o with state := state, sends := o.sends ++ [send] } t =
      if t = o.sends.length then send.replyId else o.replyId? t := by
  simp only [TtsSendOrder.replyId?]
  rcases Nat.lt_trichotomy t o.sends.length with h | h | h
  · rw [List.getElem?_append_left h, if_neg (Nat.ne_of_lt h)]
  · subst h
    simp
  · rw [if_neg (Nat.ne_of_gt h), List.getElem?_eq_none (by simp; omega),
      List.getElem?_eq_none (Nat.le_of_lt h)]

theorem phase?_of_replyId? {o : TtsSendOrder} {t : Nat} {r : String}
    (h : o.replyId? t = some r) : ∃ phase, o.phase? t = some phase := by
  simp only [TtsSendOrder.replyId?, Option.bind_eq_some_iff] at h
  obtain ⟨send, hsend, -⟩ := h
  exact ⟨send.phase, by rw [TtsSendOrder.phase?, hsend]; rfl⟩

section

variable {o : TtsSendOrder} {out : List OrderEvent} (h : Replies o out)
include h

theorem Replies.keeps {o' : TtsSendOrder} {es : List OrderEvent} (hes : ∀ e ∈ es, e.EndsNone)
    (hpending : o'.state.pendingReply = o.state.pendingReply)
    (hcancel : o'.state.cancelBelow = o.state.cancelBelow)
    (hreply : ∀ t, o'.replyId? t = o.replyId? t) (hopen : ∀ t, o'.Unclaimed t ↔ o.Unclaimed t)
    (hreleased : ∀ t, o'.phase? t = some .released ↔ o.phase? t = some .released)
    (hnone : ∀ t, o'.phase? t = none ↔ o.phase? t = none) : Replies o' (out ++ es) where
  pending := fun t r => by rw [hpending, hreply, hopen, hcancel, h.pending]
  released := fun t => by
    rw [(counts_keep hes t).2.2, h.released]
    simp only [hreleased]
  untouched := fun t ht => by
    rw [(counts_keep hes t).1, (counts_keep hes t).2.1]
    rw [hpending, hnone] at ht
    exact h.untouched t ht
  ended := fun t r hr ht => by
    rw [hreply] at hr
    rw [hpending] at ht
    simp only [ReplyEnded, counts_keep hes t]
    exact h.ended t r hr ht
  cuts := fun c hc => by
    have hold : .cut c ∈ out := (List.mem_append.mp hc).resolve_right fun hnew => hes _ hnew
    simp only [hreply]
    exact h.cuts c hold

theorem Replies.setPhase {es : List OrderEvent} {id : Nat} {phase phase' : SendPhase}
    (hes : ∀ e ∈ es, e.EndsNone) (hphase : o.phase? id = some phase) (hopen : ¬ phase.PastClaim)
    (hopen' : ¬ phase'.PastClaim) :
    Replies (o.setPhase id phase') (out ++ es) := by
  have hsame : ∀ t, t ≠ id → (o.setPhase id phase').phase? t = o.phase? t := by
    intro t hne
    rw [phase?_setPhase, if_neg hne]
  have hmoved : (o.setPhase id phase').phase? id = some phase' := by
    rw [phase?_setPhase, if_pos rfl, hphase]
    rfl
  refine h.keeps hes rfl rfl (replyId?_setPhase o id · phase') (fun t => ?_) (fun t => ?_)
    (fun t => ?_)
  all_goals by_cases hid : t = id
  · subst hid
    exact ⟨fun _ => ⟨phase, hphase, hopen⟩, fun _ => ⟨phase', hmoved, hopen'⟩⟩
  · simp only [TtsSendOrder.Unclaimed, hsame t hid]
  · subst hid
    rw [hmoved, hphase, Option.some.injEq, Option.some.injEq]
    exact ⟨fun heq => absurd (Or.inr heq) hopen', fun heq => absurd (Or.inr heq) hopen⟩
  · rw [hsame t hid]
  · subst hid
    simp [hphase]
  · rw [hsame t hid]

theorem Replies.close {o' : TtsSendOrder} {e : OrderEvent} {id : Nat} (phase : SendPhase)
    (hpast : phase.PastClaim) (hmoved : o'.phase? id = some phase)
    (hsame : ∀ t, t ≠ id → o'.phase? t = o.phase? t) (hreply : ∀ t, o'.replyId? t = o.replyId? t)
    (hpending : o'.state.pendingReply = o.state.pendingReply.erase id)
    (hcancel : o'.state.cancelBelow = o.state.cancelBelow) (hcut : ∀ c, e ≠ .cut c)
    (hothers : ∀ t, t ≠ id → claims (out ++ [e]) t = claims out t ∧
      returns (out ++ [e]) t = returns out t ∧ releases (out ++ [e]) t = releases out t)
    (hreleased : releases (out ++ [e]) id = if phase = .released then 1 else 0)
    (hend : ∀ r, o.replyId? id = some r → ReplyEnded (out ++ [e]) id) :
    Replies o' (out ++ [e]) where
  pending := fun t r => by
    rw [hpending, OrdMap.lookup_erase, hreply, hcancel]
    by_cases hid : t = id
    · subst hid
      rw [if_pos rfl]
      refine ⟨fun hnone => by simp at hnone, fun hopen => ?_⟩
      obtain ⟨-, ⟨p, hp, hopen⟩, -⟩ := hopen
      rw [hmoved, Option.some.injEq] at hp
      exact absurd (hp ▸ hpast) hopen
    · rw [if_neg hid, h.pending]
      simp only [TtsSendOrder.Unclaimed, hsame t hid]
  released := fun t => by
    by_cases hid : t = id
    · subst hid
      simp only [hreleased, hmoved, Option.some.injEq]
    · rw [(hothers t hid).2.2, hsame t hid, h.released]
  untouched := fun t ht => by
    have hid : t ≠ id := by
      intro heq
      subst heq
      rw [hpending, OrdMap.lookup_erase, if_pos rfl, hmoved] at ht
      simp at ht
    rw [hpending, OrdMap.lookup_erase, if_neg hid, hsame t hid] at ht
    rw [(hothers t hid).1, (hothers t hid).2.1]
    exact h.untouched t ht
  ended := fun t r hr ht => by
    rw [hreply] at hr
    by_cases hid : t = id
    · subst hid
      exact hend r hr
    · rw [hpending, OrdMap.lookup_erase, if_neg hid] at ht
      simp only [ReplyEnded, hothers t hid]
      exact h.ended t r hr ht
  cuts := fun c hc => by
    have hold : .cut c ∈ out :=
      (List.mem_append.mp hc).resolve_right fun hnew => hcut c (List.mem_singleton.mp hnew).symm
    simp only [hreply]
    exact h.cuts c hold

theorem Replies.claim {id : Nat} (hphase : o.phase? id = some .turn)
    (hlive : o.state.cancelBelow ≤ id) :
    Replies ({ o with state := { o.state with pendingReply := o.state.pendingReply.erase id } }.setPhase
      id .claimed) (out ++ [.claimed id]) := by
  refine h.close .claimed (Or.inl rfl) ?_ (fun t hne => ?_) (fun t => ?_) rfl rfl (by simp)
    (fun t hne => ?_) ?_ (fun r hr => ?_)
  · rw [phase?_setPhase, if_pos rfl]
    exact congrArg (Option.map _) hphase
  · rw [phase?_setPhase, if_neg hne]
    rfl
  · rw [replyId?_setPhase]
    rfl
  · have hcounts := counts_claimed out id t
    rw [if_neg (Ne.symm hne)] at hcounts
    exact hcounts
  · rw [(counts_claimed out id id).2.2, h.released, hphase]
    simp
  · -- The reply is still in the table, so nothing has ended it before.
    have hpending : o.state.pendingReply[id]? = some r :=
      (h.pending id r).mpr ⟨hr, ⟨.turn, hphase, by simp [SendPhase.PastClaim]⟩, hlive⟩
    obtain ⟨hclaims, hreturns⟩ := h.untouched id (Or.inl (by simp [hpending]))
    obtain ⟨hclaims', hreturns', -⟩ := counts_claimed out id id
    refine Or.inl ⟨?_, hreturns'.trans hreturns⟩
    rw [hclaims', hclaims, if_pos rfl]

theorem Replies.release {id : Nat} {phase : SendPhase} (hphase : o.phase? id = some phase)
    (hne : phase ≠ .released) :
    Replies ({ o with state := o.state.release id, notifying := o.notifying + 1 }.setPhase id
      .released) (out ++ [.released id]) := by
  obtain ⟨-, hcancel, hpending⟩ := release_fields o.state id
  obtain ⟨hclaims, hreturns, hreleases⟩ := counts_released out id id
  have hfirst : releases (out ++ [.released id]) id = 1 := by
    rw [hreleases, h.released, hphase, if_neg (by simpa using hne), if_pos rfl]
  refine h.close .released (Or.inr rfl) ?_ (fun t hne => ?_) (fun t => ?_) hpending
    hcancel (by simp) (fun t hne => ?_) (by simp [hfirst]) (fun r hr => ?_)
  · rw [phase?_setPhase, if_pos rfl]
    exact congrArg (Option.map _) hphase
  · rw [phase?_setPhase, if_neg hne]
    rfl
  · rw [replyId?_setPhase]
    rfl
  · have hcounts := counts_released out id t
    rw [if_neg (Ne.symm hne)] at hcounts
    exact hcounts
  · rw [ReplyEnded, hclaims, hreturns, hfirst]
    by_cases hnone : o.state.pendingReply[id]? = none
    · -- The reply had ended before, and not by a release.
      rcases h.ended id r hr hnone with hclaimed | hreturned | hgone
      · exact Or.inl hclaimed
      · exact Or.inr (Or.inl hreturned)
      · rw [h.released, hphase, if_neg (by simpa using hne)] at hgone
        exact absurd hgone.2.2 (by simp)
    · obtain ⟨hclaims0, hreturns0⟩ := h.untouched id (Or.inl hnone)
      exact Or.inr (Or.inr ⟨hclaims0, hreturns0, rfl⟩)

end

theorem cut_replies (s : OrderState) (h : s.cancelBelow ≤ s.nextTicket) :
    s.cut.2.pendingReply = s.pendingReply.filter (fun id _ => s.nextTicket ≤ id) ∧
      s.cut.1.inFlightReplies =
        (s.pendingReply.filter fun id _ => id < s.nextTicket).toList := by
  unfold OrderState.cut
  simp only [Nat.max_eq_right h]
  split <;> exact ⟨rfl, rfl⟩

theorem Replies.cut_spec {o : TtsSendOrder} {out : List OrderEvent} (h : Replies o out)
    (hordered : Ordered o out) :
    (∀ t : Nat, o.state.cut.2.pendingReply[t]? = none) ∧
      (∀ t r, (t, r) ∈ o.state.cut.1.inFlightReplies ↔ o.state.pendingReply[t]? = some r) ∧
      (o.state.cut.1.inFlightReplies.map Prod.fst).Pairwise (· < ·) := by
  obtain ⟨hkeep, htake⟩ := cut_replies o.state hordered.bounded
  have hissued : ∀ t r, o.state.pendingReply[t]? = some r → t < o.state.nextTicket := by
    intro t r hr
    obtain ⟨-, ⟨phase, hphase, -⟩, -⟩ := (h.pending t r).mp hr
    rw [hordered.issued]
    refine Nat.lt_of_not_le fun hle => ?_
    rw [(phase?_eq_none o t).mpr hle] at hphase
    simp at hphase
  refine ⟨fun t => ?_, fun t r => ?_, ?_⟩
  · rw [hkeep, ExtTreeMap.getElem?_filter']
    cases hr : o.state.pendingReply[t]? with
    | none => rfl
    | some r => simp [hissued t r hr]
  · rw [htake, ExtTreeMap.mem_toList_iff_getElem?_eq_some, ExtTreeMap.getElem?_filter']
    cases hr : o.state.pendingReply[t]? with
    | none => simp
    | some r' => simp [hissued t r' hr]
  · rw [htake, List.pairwise_map]
    refine ExtTreeMap.ordered_keys_toList.imp fun {a b} hlt => ?_
    exact Nat.compare_eq_lt.mp hlt

theorem Replies.cut {o : TtsSendOrder} {out : List OrderEvent} (h : Replies o out)
    (hordered : Ordered o out) :
    Replies { o with state := o.state.cut.2, notifying := o.notifying + 1 }
      (out ++ [.cut o.state.cut.1]) := by
  obtain ⟨hempty, htaken, hinOrder⟩ := h.cut_spec hordered
  obtain ⟨-, -, hcancel⟩ := cut_fields o.state hordered.bounded
  have hreturned : ∀ t, t ∈ o.state.cut.1.inFlightReplies.map Prod.fst ↔
      o.state.pendingReply[t]? ≠ none := by
    intro t
    rw [List.mem_map, Option.ne_none_iff_exists']
    constructor
    · intro hmem
      obtain ⟨⟨u, r⟩, hentry, rfl⟩ := hmem
      exact ⟨r, (htaken u r).mp hentry⟩
    · intro hsome
      obtain ⟨r, hr⟩ := hsome
      exact ⟨(t, r), (htaken t r).mpr hr, rfl⟩
  have hphase : ∀ t, TtsSendOrder.phase?
      { o with state := o.state.cut.2, notifying := o.notifying + 1 } t = o.phase? t :=
    fun _ => rfl
  refine ⟨fun t r => ?_, fun t => ?_, fun t ht => ?_, fun t r hr _ => ?_, fun c hc => ?_⟩
  · rw [hempty t]
    refine ⟨fun hnone => by simp at hnone, fun hopen => ?_⟩
    obtain ⟨-, ⟨phase, hsome, -⟩, hlate⟩ := hopen
    have hbeyond : o.phase? t = none :=
      (phase?_eq_none o t).mpr (hordered.issued ▸ hcancel ▸ hlate)
    rw [hphase, hbeyond] at hsome
    simp at hsome
  · rw [(counts_cut out _ t).2.2, hphase, h.released]
  · obtain ⟨hclaims, hreturns, -⟩ := counts_cut out o.state.cut.1 t
    have hbeyond : o.phase? t = none := ht.resolve_left (fun hsome => hsome (hempty t))
    have hnone : o.state.pendingReply[t]? = none := by
      refine Option.eq_none_iff_forall_ne_some.mpr fun r hr => ?_
      obtain ⟨-, ⟨phase, hsome, -⟩, -⟩ := (h.pending t r).mp hr
      rw [hbeyond] at hsome
      simp at hsome
    rw [hclaims, hreturns, if_neg (by simpa [hnone] using hreturned t)]
    exact h.untouched t (Or.inr hbeyond)
  · obtain ⟨hclaims, hreturns, hreleases⟩ := counts_cut out o.state.cut.1 t
    by_cases hnone : o.state.pendingReply[t]? = none
    · have hkept : t ∉ o.state.cut.1.inFlightReplies.map Prod.fst :=
        fun hmem => (hreturned t).mp hmem hnone
      rw [ReplyEnded, hclaims, hreturns, hreleases, if_neg hkept]
      exact h.ended t r hr hnone
    · obtain ⟨hclaims0, hreturns0⟩ := h.untouched t (Or.inl hnone)
      rw [ReplyEnded, hclaims, hreturns, if_pos ((hreturned t).mpr hnone), hclaims0, hreturns0]
      exact Or.inr (Or.inl ⟨rfl, rfl⟩)
  · rcases List.mem_append.mp hc with hold | hnew
    · exact h.cuts c hold
    · rw [List.mem_singleton, OrderEvent.cut.injEq] at hnew
      subst hnew
      refine ⟨hinOrder, fun entry hentry => ?_⟩
      exact ((h.pending entry.1 entry.2).mp ((htaken entry.1 entry.2).mp hentry)).1

theorem reserve_pending (s : OrderState) (replyId : Option String)
    (hfresh : s.pendingReply[s.nextTicket]? = none) (t : Nat) :
    (s.reserveWithReply replyId).2.pendingReply[t]? =
      if t = s.nextTicket then replyId else s.pendingReply[t]? := by
  cases replyId with
  | none =>
    split
    · next heq => exact heq ▸ hfresh
    · rfl
  | some r => exact OrdMap.lookup_insert s.pendingReply s.nextTicket t r

section

variable {o : TtsSendOrder} {out : List OrderEvent} (h : Replies o out)
include h

theorem Replies.reserve (hordered : Ordered o out) (replyId : Option String) :
    Replies { o with
      state := (o.state.reserveWithReply replyId).2
      sends := o.sends ++ [⟨replyId, .reserved⟩] } (out ++ [.reserved o.state.nextTicket]) := by
  have hcounts := @counts_keep out [.reserved o.state.nextTicket] (by simp [OrderEvent.EndsNone])
  have hbeyond : o.phase? o.state.nextTicket = none :=
    (phase?_eq_none o _).mpr (Nat.le_of_eq hordered.issued.symm)
  have hfresh : o.state.pendingReply[o.state.nextTicket]? = none := by
    refine Option.eq_none_iff_forall_ne_some.mpr fun r hr => ?_
    obtain ⟨-, ⟨phase, hsome, -⟩, -⟩ := (h.pending _ r).mp hr
    rw [hbeyond] at hsome
    simp at hsome
  have hpending := reserve_pending o.state replyId hfresh
  obtain ⟨-, hcancel, -, -⟩ := reserve_fields o.state replyId
  have hphase := phase?_append o (o.state.reserveWithReply replyId).2 ⟨replyId, .reserved⟩
  have hreply := replyId?_append o (o.state.reserveWithReply replyId).2 ⟨replyId, .reserved⟩
  simp only [← hordered.issued] at hphase hreply
  refine ⟨fun t r => ?_, fun t => ?_, fun t ht => ?_, fun t r hr ht => ?_, fun c hc => ?_⟩
  · simp only [TtsSendOrder.Unclaimed, hpending, hreply, hphase, hcancel]
    by_cases hid : t = o.state.nextTicket
    · simp [hid, hordered.bounded, SendPhase.PastClaim]
    · simp only [if_neg hid]
      exact h.pending t r
  · rw [(hcounts t).2.2, h.released, hphase]
    by_cases hid : t = o.state.nextTicket
    · simp [hid, hbeyond]
    · simp only [if_neg hid]
  · rw [(hcounts t).1, (hcounts t).2.1]
    by_cases hid : t = o.state.nextTicket
    · exact h.untouched t (Or.inr (hid ▸ hbeyond))
    · simp only [hpending, hphase, if_neg hid] at ht
      exact h.untouched t ht
  · simp only [ReplyEnded, hcounts t]
    simp only [hpending, hreply] at hr ht
    by_cases hid : t = o.state.nextTicket
    · rw [if_pos hid] at hr ht
      rw [hr] at ht
      simp at ht
    · rw [if_neg hid] at hr ht
      exact h.ended t r hr ht
  · have hold : .cut c ∈ out := (List.mem_append.mp hc).resolve_right (by simp)
    refine ⟨(h.cuts c hold).1, fun entry hentry => ?_⟩
    have hsome := (h.cuts c hold).2 entry hentry
    have hne : entry.1 ≠ o.state.nextTicket := by
      intro heq
      obtain ⟨phase, hphase⟩ := phase?_of_replyId? hsome
      rw [heq, hbeyond] at hphase
      simp at hphase
    rw [hreply, if_neg hne]
    exact hsome

theorem Replies.notify (notifying : Nat) :
    Replies { o with notifying := notifying }.notifyWaiters (out ++ []) := by
  have hphase : ∀ t, TtsSendOrder.phase? { o with notifying := notifying }.notifyWaiters t =
      (o.phase? t).map TtsSendOrder.wakePhase := fun t => phase?_notifyWaiters _ t
  have hpast : ∀ phase, (TtsSendOrder.wakePhase phase).PastClaim ↔ phase.PastClaim := by
    intro phase
    cases phase <;> simp [TtsSendOrder.wakePhase, SendPhase.PastClaim]
  refine h.keeps (by simp) rfl rfl (fun t => ?_) (fun t => ?_) (fun t => ?_) (fun t => ?_)
  · rw [replyId?_notifyWaiters]
    rfl
  · simp only [TtsSendOrder.Unclaimed, hphase, Option.map_eq_some_iff]
    constructor
    · intro hopen
      obtain ⟨_, ⟨phase, hsome, rfl⟩, hne⟩ := hopen
      exact ⟨phase, hsome, fun hp => hne ((hpast phase).mpr hp)⟩
    · intro hopen
      obtain ⟨phase, hsome, hne⟩ := hopen
      exact ⟨_, ⟨phase, hsome, rfl⟩, fun hp => hne ((hpast phase).mp hp)⟩
  · simp only [hphase, Option.map_eq_some_iff, wakePhase_eq_released]
    exact ⟨fun hsome => hsome.elim fun p hp => hp.2 ▸ hp.1, fun hsome => ⟨_, hsome, rfl⟩⟩
  · simp [hphase]

theorem Replies.step {o' : TtsSendOrder} {es : List OrderEvent} {i : OrderInput}
    (hordered : Ordered o out) (hs : OrderStep o i o' es) :
    Replies o' (out ++ es) := by
  have waits : ∀ phase : SendPhase, phase ≠ .claimed → phase ≠ .released → ¬ phase.PastClaim :=
    fun phase hclaimed hreleased hpast => hpast.elim hclaimed hreleased
  cases hs with
  | reserve replyId => exact h.reserve hordered replyId
  | claimed id hphase hlive => exact h.claim hphase hlive
  | release id phase hphase hne => exact h.release hphase hne
  | cut => exact h.cut hordered
  | notify => exact h.notify _
  | checkCancelled id woken hphase | checkTurn id woken hphase | claimFailed id hphase =>
    exact h.setPhase (by simp [OrderEvent.EndsNone]) hphase (waits _ (by simp) (by simp))
      (waits _ (by simp) (by simp))
  | waitTurn id hphase | enable id hphase | checkWait id woken hphase | wake id hphase =>
    exact h.setPhase (by simp) hphase (waits _ (by simp) (by simp)) (waits _ (by simp) (by simp))

end

/-! ## Runs -/

theorem run_replies {inputs : List OrderInput} {o : TtsSendOrder} {out : List OrderEvent}
    (hrun : run TtsSendOrder.step .init inputs = some (o, out)) : Ordered o out ∧ Replies o out :=
  run_history (C := fun _ _ => True) (I := fun _ out o => Ordered o out ∧ Replies o out)
    (fun _ _ _ _ _ _ h _ hs =>
      ⟨h.1.step (orderStep_of_step hs), h.2.step h.1 (orderStep_of_step hs)⟩)
    ⟨Ordered.init, Replies.init⟩ (along_of_forall_mem (by simp) _) hrun

/-- Over every interleaving, a reply reserved with a ticket is pending until it ends in exactly
one of three ways: the ticket is claimed, one cut returns it, or the ticket is released
unclaimed and uncut. It has ended once the ticket is released. A cut returns replies in ticket
order, each with the ticket it was reserved with. -/
theorem every_reply_ends_once {inputs : List OrderInput} {o : TtsSendOrder}
    {out : List OrderEvent} (hrun : run TtsSendOrder.step .init inputs = some (o, out)) :
    (∀ t r, o.replyId? t = some r →
      (o.state.pendingReply[t]? = some r ∧ claims out t = 0 ∧ returns out t = 0 ∧
        releases out t = 0) ∨
      (o.state.pendingReply[t]? = none ∧ ReplyEnded out t ∧ releases out t ≤ 1)) ∧
      (∀ t r, o.replyId? t = some r → Released out t → ReplyEnded out t) ∧
      (∀ c, .cut c ∈ out → (c.inFlightReplies.map Prod.fst).Pairwise (· < ·) ∧
        ∀ entry ∈ c.inFlightReplies, o.replyId? entry.1 = some entry.2) := by
  obtain ⟨hordered, h⟩ := run_replies hrun
  have hfate : ∀ t r, o.replyId? t = some r →
      (o.state.pendingReply[t]? = some r ∧ claims out t = 0 ∧ returns out t = 0 ∧
        releases out t = 0) ∨
      (o.state.pendingReply[t]? = none ∧ ReplyEnded out t ∧ releases out t ≤ 1) := by
    intro t r hr
    cases hpending : o.state.pendingReply[t]? with
    | none =>
      refine Or.inr ⟨rfl, h.ended t r hr hpending, ?_⟩
      rw [h.released]
      split <;> omega
    | some r' =>
      obtain ⟨hr', ⟨phase, hphase, hopen⟩, -⟩ := (h.pending t r').mp hpending
      obtain ⟨hclaims, hreturns⟩ := h.untouched t (Or.inl (by simp [hpending]))
      rw [hr, Option.some.injEq] at hr'
      refine Or.inl ⟨congrArg some hr'.symm, hclaims, hreturns, ?_⟩
      rw [h.released, hphase, if_neg]
      intro heq
      exact hopen (Or.inr (Option.some.inj heq))
  refine ⟨hfate, fun t r hr hreleased => ?_, h.cuts⟩
  rcases hfate t r hr with hpending | hended
  · have hnone : releases out t = 0 := hpending.2.2.2
    exact absurd hreleased (List.count_eq_zero.mp hnone)
  · exact hended.2.1

/-- A claim, a ticket given up, and a cut of two of the three others, one of which has no
reply. -/
theorem every_reply_ends_once_cut :
    ∃ o out, run TtsSendOrder.step .init
        [.reserve (some "a"), .reserve (some "b"), .reserve none, .reserve (some "gone"),
          .waitTurn 0, .enable 0, .check 0, .claim 0, .release 3, .cut,
          .release 0, .release 1, .cut] = some (o, out) ∧
      ReplyEnded out 0 ∧ ReplyEnded out 1 ∧ ReplyEnded out 3 := by
  obtain ⟨o, out, hrun, hreplies⟩ : ∃ o out, run TtsSendOrder.step .init
      [.reserve (some "a"), .reserve (some "b"), .reserve none, .reserve (some "gone"),
        .waitTurn 0, .enable 0, .check 0, .claim 0, .release 3, .cut,
        .release 0, .release 1, .cut] = some (o, out) ∧
      (o.replyId? 0 = some "a" ∧ .released 0 ∈ out) ∧
      (o.replyId? 1 = some "b" ∧ .released 1 ∈ out) ∧
      (o.replyId? 3 = some "gone" ∧ .released 3 ∈ out) :=
    ⟨_, _, rfl, ⟨rfl, by decide +kernel⟩, ⟨rfl, by decide +kernel⟩, ⟨rfl, by decide +kernel⟩⟩
  obtain ⟨⟨h0, hr0⟩, ⟨h1, hr1⟩, ⟨h3, hr3⟩⟩ := hreplies
  have hended := (every_reply_ends_once hrun).2.1
  exact ⟨o, out, hrun, hended 0 "a" h0 hr0, hended 1 "b" h1 hr1, hended 3 "gone" h3 hr3⟩

end NodeWebrtc.Speech
