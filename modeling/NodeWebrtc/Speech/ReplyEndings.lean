import NodeWebrtc.Speech.Playback

/-! # Starts and ends of replies

The ledger reports a reply's start when its first bytes are written. From then on its entry is
in the ledger until its end is reported, or a flush moves it to the replies to be reported as
interrupted. So what started has ended, or its end is still to come.
-/

namespace NodeWebrtc.Speech

variable {β : Type}

def ReplyTransition.startOf (r : ReplyId) : ReplyTransition → Bool
  | .started id _ => id == r
  | .ended .. => false

def ReplyTransition.endOf (r : ReplyId) : ReplyTransition → Bool
  | .started .. => false
  | .ended id _ _ => id == r

def PlaybackEvent.replyStart (r : ReplyId) : PlaybackEvent β → Bool
  | .replyTransition t => t.startOf r
  | _ => false

def PlaybackEvent.replyEnd (r : ReplyId) : PlaybackEvent β → Bool
  | .replyTransition t => t.endOf r
  | .replyFlushed f => f.id == r
  | _ => false

def ReplyLedgerEntry.startedFor (r : ReplyId) (e : ReplyLedgerEntry) : Bool :=
  e.started && e.replyId == r

theorem start_book (r : ReplyId) (e : ReplyLedgerEntry) (take : Nat) :
    (if 0 < take && !e.started then [e.startTransition] else []).countP (·.startOf r) +
        (e.startedFor r).toNat = ((e.book take).startedFor r).toNat := by
  unfold ReplyLedgerEntry.startedFor ReplyLedgerEntry.book
  by_cases htake : 0 < take
  · rw [if_pos htake]
    cases hs : e.started <;> cases hr : e.replyId == r <;>
      simp [htake, hr, ReplyLedgerEntry.startTransition, ReplyTransition.startOf]
  · rw [if_neg htake]
    simp [htake]

theorem countP_cons_toNat {α : Type} (q : α → Bool) (a : α) (l : List α) :
    (a :: l).countP q = (q a).toNat + l.countP q := by
  rw [List.countP_cons]
  cases q a <;> simp [Nat.add_comm]

theorem end_book {e : ReplyLedgerEntry} {take : Nat} (r : ReplyId)
    (h : (e.book take).finished = true) :
    (e.book take).endTransition.endOf r = (e.book take).startedFor r := by
  rw [ReplyLedgerEntry.finished, Bool.and_eq_true, Bool.and_eq_true] at h
  rw [ReplyLedgerEntry.startedFor, h.1.2, Bool.true_and]
  rfl

theorem consumeLedger_counts (r : ReplyId) (n : Nat) (ledger : List ReplyLedgerEntry) :
    (consumeLedger n ledger).1.countP (·.startOf r) + ledger.countP (·.startedFor r) =
      (consumeLedger n ledger).1.countP (·.endOf r) +
        (consumeLedger n ledger).2.countP (·.startedFor r) := by
  induction ledger generalizing n with
  | nil => rfl
  | cons head rest ih =>
    have hstart := start_book r head (min n head.owes)
    have hends : (if 0 < min n head.owes && !head.started then [head.startTransition]
        else []).countP (·.endOf r) = 0 := by
      split <;> rfl
    rw [consumeLedger, countP_cons_toNat]
    split
    · next hfinished =>
      have hrest := ih (n - min n head.owes)
      have hend := end_book r hfinished
      simp only [List.countP_append, countP_cons_toNat, List.countP_nil, hends, hend]
      have hno : (head.book (min n head.owes)).endTransition.startOf r = false := rfl
      rw [hno, Bool.toNat_false]
      omega
    · dsimp only
      rw [countP_cons_toNat, hends]
      omega

/-- What started has ended, or its end is to come: it is in the ledger, or flushed and not
reported. -/
def Playback.Ends (p : Playback β) (out : List (PlaybackEvent β)) : Prop :=
  ∀ r, out.countP (·.replyStart r) ≤ out.countP (·.replyEnd r) +
    p.buffer.flushedReplies.countP (·.id == r) + p.buffer.replyLedger.countP (·.startedFor r)

namespace Playback

variable {p p' : Playback β} {d : DrainPass β} {out es : List (PlaybackEvent β)}

theorem Ends.new : Ends (.new : Playback β) [] := fun _ => Nat.zero_le _

theorem Ends.keep (h : p.Ends out) (hes : ∀ e ∈ es, ∀ r, e.replyStart r = false)
    (hflushed : p'.buffer.flushedReplies = p.buffer.flushedReplies)
    (hledger : ∀ r, p.buffer.replyLedger.countP (·.startedFor r) ≤
      p'.buffer.replyLedger.countP (·.startedFor r)) : p'.Ends (out ++ es) := by
  intro r
  have hold := h r
  have hnew := hledger r
  have hnone : es.countP (·.replyStart r) = 0 :=
    List.countP_eq_zero.mpr fun e he => by simp [hes e he r]
  rw [List.countP_append, List.countP_append, hflushed, hnone]
  omega

theorem countP_replyTransitions (ts : List ReplyTransition) (r : ReplyId) :
    (ts.map PlaybackEvent.replyTransition : List (PlaybackEvent β)).countP (·.replyStart r) =
        ts.countP (·.startOf r) ∧
      (ts.map PlaybackEvent.replyTransition : List (PlaybackEvent β)).countP (·.replyEnd r) =
        ts.countP (·.endOf r) := by
  rw [List.countP_map, List.countP_map]
  exact ⟨rfl, rfl⟩

theorem Ends.consume (h : p.Ends out) (bytes : Nat) (hbuffer : p'.buffer.replyLedger =
      (p.buffer.consumePlayed bytes).2.replyLedger)
    (hflushed : p'.buffer.flushedReplies = p.buffer.flushedReplies) :
    p'.Ends (out ++ (p.buffer.consumePlayed bytes).1.map PlaybackEvent.replyTransition) := by
  intro r
  have hold := h r
  have hcounts := consumeLedger_counts r bytes p.buffer.replyLedger
  obtain ⟨hstart, hend⟩ := @countP_replyTransitions β (p.buffer.consumePlayed bytes).1 r
  rw [List.countP_append, List.countP_append, hstart, hend, hflushed, hbuffer]
  simp only [TtsBuffer.consumePlayed] at hcounts ⊢
  omega

theorem Ends.flush (h : p.Ends out) (hbuffer : p'.buffer = p.buffer.flush) :
    p'.Ends (out ++ [.flushed]) := by
  intro r
  have hold := h r
  have hmoved : p.buffer.replyLedger.countP (·.startedFor r) ≤
      (p.buffer.replyLedger.map ReplyLedgerEntry.flushed).countP (·.id == r) := by
    rw [List.countP_map]
    refine List.countP_mono_left fun e _ he => ?_
    rw [ReplyLedgerEntry.startedFor, Bool.and_eq_true] at he
    exact he.2
  have hnone : [(.flushed : PlaybackEvent β)].countP (·.replyStart r) = 0 := rfl
  have hnone' : [(.flushed : PlaybackEvent β)].countP (·.replyEnd r) = 0 := rfl
  rw [List.countP_append, List.countP_append, hbuffer, hnone, hnone', TtsBuffer.flush]
  rw [List.countP_append, List.countP_nil]
  omega

theorem Ends.takeFlushed (h : p.Ends out) (hledger : p'.buffer.replyLedger = p.buffer.replyLedger)
    (hflushed : p'.buffer.flushedReplies = []) :
    p'.Ends (out ++ p.buffer.flushedReplies.map PlaybackEvent.replyFlushed) := by
  intro r
  have hold := h r
  rw [List.countP_append, List.countP_append, hledger, hflushed, List.countP_map, List.countP_map]
  have hnone : p.buffer.flushedReplies.countP
      ((fun e : PlaybackEvent β => e.replyStart r) ∘ PlaybackEvent.replyFlushed) = 0 :=
    List.countP_eq_zero.mpr fun e _ => by simp [PlaybackEvent.replyStart]
  have hall : p.buffer.flushedReplies.countP
      ((fun e : PlaybackEvent β => e.replyEnd r) ∘ PlaybackEvent.replyFlushed) =
        p.buffer.flushedReplies.countP (·.id == r) := rfl
  rw [hnone, hall, List.countP_nil]
  omega

/-! ### The steps of the playback -/

structure LedgerStep (p : Playback β) (r : Playback β × List (PlaybackEvent β)) : Prop where
  flushed : r.1.buffer.flushedReplies = p.buffer.flushedReplies
  ledger : (∃ bytes, r.1.buffer.replyLedger = (p.buffer.consumePlayed bytes).2.replyLedger ∧
      r.2 = (p.buffer.consumePlayed bytes).1.map PlaybackEvent.replyTransition) ∨
    (r.1.buffer.replyLedger = p.buffer.replyLedger ∧
      ∀ e ∈ r.2, ∀ id, e.replyStart id = false)

theorem LedgerStep.silent {q : Playback β} {es : List (PlaybackEvent β)}
    (hflushed : q.buffer.flushedReplies = p.buffer.flushedReplies)
    (hledger : q.buffer.replyLedger = p.buffer.replyLedger)
    (hes : ∀ e ∈ es, ∀ id, e.replyStart id = false) : LedgerStep p (q, es) :=
  ⟨hflushed, Or.inr ⟨hledger, hes⟩⟩

theorem endEvent_silent (was : Bool) (id : ReplyId) :
    ∀ e ∈ (endEvent was : List (PlaybackEvent β)), e.replyStart id = false := by
  intro e he
  cases was with
  | false => cases he
  | true =>
    rw [List.mem_singleton.mp he]
    rfl

theorem stepDrain_ledger (p : Playback β) (d : DrainPass β) : LedgerStep p (p.stepDrain d) := by
  have hnil : ∀ e ∈ ([] : List (PlaybackEvent β)), ∀ id, e.replyStart id = false :=
    fun e he => absurd he List.not_mem_nil
  have hone : ∀ e' : PlaybackEvent β, (∀ id, e'.replyStart id = false) →
      ∀ e ∈ [e'], ∀ id, e.replyStart id = false := fun e' he' e he => by
    rw [List.mem_singleton.mp he]
    exact he'
  obtain ⟨phase, generation, startEmitted, playedAny, carry, left⟩ := d
  cases phase with
  | popping =>
    rw [stepDrain]
    rw [TtsBuffer.popChunkMarking]
    cases p.buffer.queue <;> exact .silent rfl rfl hnil
  | announcing frames => exact .silent rfl rfl (hone _ fun _ => rfl)
  | checking frames =>
    cases frames with
    | nil => exact .silent rfl rfl hnil
    | cons frame frames =>
      rw [stepDrain]
      dsimp only
      split
      · exact .silent rfl rfl (hone _ fun _ => rfl)
      · exact .silent rfl rfl hnil
  | booking bytes frames => exact ⟨rfl, Or.inl ⟨bytes, rfl, rfl⟩⟩
  | aborted was | quieted was => exact .silent rfl rfl fun e he id => endEvent_silent _ id e he
  | ending =>
    rw [stepDrain]
    dsimp only
    split
    · exact .silent rfl rfl hnil
    · split <;> exact .silent rfl rfl hnil
  | settling =>
    rw [stepDrain]
    dsimp only
    split <;> exact ⟨rfl, Or.inl ⟨0, rfl, rfl⟩⟩
  | finishing =>
    rw [stepDrain]
    dsimp only
    split <;> exact .silent rfl rfl hnil
  | _ => exact .silent rfl rfl hnil

theorem Ends.drain (h : p.Ends out) (d : DrainPass β) :
    (p.stepDrain d).1.Ends (out ++ (p.stepDrain d).2) := by
  obtain ⟨hflushed, hledger⟩ := p.stepDrain_ledger d
  rcases hledger with ⟨bytes, hledger, hes⟩ | ⟨hledger, hes⟩
  · rw [hes]
    exact h.consume bytes hledger hflushed
  · exact h.keep hes hflushed fun r => Nat.le_of_eq (by rw [hledger])

theorem countP_bookQueued (ledger : List ReplyLedgerEntry) (id : ReplyId) (ms : Option Nat)
    (bytes : Nat) (r : ReplyId) : ledger.countP (·.startedFor r) ≤
      (bookQueued ledger id ms bytes).countP (·.startedFor r) := by
  rw [bookQueued]
  cases hlast : ledger.getLast? with dsimp only
  | none =>
    rw [List.countP_append]
    exact Nat.le_add_right _ _
  | some tail =>
    split
    · have hsplit : ledger.dropLast ++ [tail] = ledger :=
        List.dropLast_append_getLast? tail hlast
      refine Nat.le_of_eq ?_
      conv_lhs => rw [← hsplit]
      rw [List.countP_append, List.countP_append, countP_cons_toNat, countP_cons_toNat]
      rfl
    · rw [List.countP_append]
      exact Nat.le_add_right _ _

theorem countP_completeFirst (id r : ReplyId) (ledger : List ReplyLedgerEntry) :
    (completeFirst id ledger).countP (·.startedFor r) = ledger.countP (·.startedFor r) := by
  induction ledger with
  | nil => rfl
  | cons e ledger ih =>
    rw [completeFirst]
    split
    · rw [countP_cons_toNat, countP_cons_toNat]
      rfl
    · rw [countP_cons_toNat, countP_cons_toNat, ih]

theorem Ends.ender (h : p.Ends out) {k : Nat} {e : Ender}
    (hs : p.stepEnder k e = some (p', es)) : p'.Ends (out ++ es) := by
  rw [stepEnder] at hs
  split at hs <;> cases hs
  · exact h.keep (by simp) rfl fun r => Nat.le_refl _
  · exact h.flush rfl
  · exact h.takeFlushed rfl rfl
  · exact h.keep (by simp [PlaybackEvent.replyStart]) rfl fun r => Nat.le_refl _
  · exact h.keep (fun e he r => endEvent_silent _ r e he) rfl fun r => Nat.le_refl _

theorem setProducing_ledger (b : TtsBuffer β) (producing : Bool) :
    (b.setProducing producing).replyLedger = b.replyLedger ∧
      (b.setProducing producing).flushedReplies = b.flushedReplies := by
  cases producing <;> exact ⟨rfl, rfl⟩

theorem Ends.step {i : PlaybackInput β} (h : p.Ends out) (hs : p.step i = some (p', es)) :
    p'.Ends (out ++ es) := by
  cases i with
  | begin | writeFails | call todo =>
    rw [Playback.step] at hs
    split at hs <;> cases hs
    exact h.keep (by simp) rfl fun r => Nat.le_refl _
  | drain =>
    rw [Playback.step, Option.map_eq_some_iff] at hs
    obtain ⟨d, -, heq⟩ := hs
    have hdrain := h.drain d
    rw [heq] at hdrain
    exact hdrain
  | enqueue chunks expect reply =>
    rw [Playback.step, TtsBuffer.enqueueTaggedIfGeneration] at hs
    split at hs <;> cases hs
    · refine h.keep (by simp [PlaybackEvent.replyStart]) rfl fun r => ?_
      cases reply with
      | none => exact Nat.le_refl _
      | some reply =>
        dsimp only
        split
        · exact countP_bookQueued _ _ _ _ r
        · exact Nat.le_refl _
    · exact h.keep (by simp) rfl fun r => Nat.le_refl _
  | setProducing producing =>
    cases hs
    obtain ⟨hledger, hflushed⟩ := setProducing_ledger p.buffer producing
    exact h.keep (by simp) hflushed fun r => Nat.le_of_eq (by rw [hledger])
  | markReplyComplete id =>
    cases hs
    refine h.keep (by simp) rfl fun r => Nat.le_of_eq ?_
    rw [TtsBuffer.markReplyComplete]
    rw [List.countP_reverse, countP_completeFirst, List.countP_reverse]
  | flush =>
    cases hs
    exact h.flush rfl
  | ender k =>
    rw [Playback.step, Option.bind_eq_some_iff] at hs
    obtain ⟨e, -, hs⟩ := hs
    exact h.ender hs

end Playback

end NodeWebrtc.Speech
