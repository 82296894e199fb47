import NodeWebrtc.Speech.BargeIn
import NodeWebrtc.Speech.CleanCut
import NodeWebrtc.Speech.ReplyEndings
import NodeWebrtc.Speech.ReplyEnds
import NodeWebrtc.Speech.SynthesisOwners

/-! # What a barge-in silences

Between the flush of a barge-in and its cut a job can read the new generation and still find
its epoch the current one. Where no job passes its epoch check in between with the generation
it found there, nothing sent before the cut is queued or written once the barge-in is done,
and every reply that had started has ended.
-/

namespace NodeWebrtc.Speech

open Machine

variable {β : Type}

/-! ## The sends and the workers -/

structure OrderOnward (o o' : TtsSendOrder) (es : List OrderEvent) : Prop where
  cancel : o.state.cancelBelow ≤ o'.state.cancelBelow
  replies : ∀ t r, o.replyId? t = some r → o'.replyId? t = some r
  claims : ∀ t, es = [.claimed t] → o.state.cancelBelow ≤ t

theorem replyId?_append_some {o : TtsSendOrder} {state : OrderState} {send : TtsSend} {t : Nat}
    {r : String} (h : o.replyId? t = some r) :
    TtsSendOrder.replyId? { o with state := state, sends := o.sends ++ [send] } t = some r := by
  obtain ⟨s, hs, hr⟩ := Option.bind_eq_some_iff.mp h
  have hlt := (List.getElem?_eq_some_iff.mp hs).1
  rw [TtsSendOrder.replyId?]
  rw [List.getElem?_append_left hlt, hs]
  exact hr

theorem cancelBelow_cut (s : OrderState) :
    s.cut.2.cancelBelow = max s.cancelBelow s.nextTicket := by
  unfold OrderState.cut
  simp only
  split <;> rfl

theorem OrderStep.onward {o o' : TtsSendOrder} {i : OrderInput} {es : List OrderEvent}
    (hs : OrderStep o i o' es) : OrderOnward o o' es := by
  cases hs with
  | reserve replyId =>
    refine ⟨Nat.le_of_eq ?_, fun t r h => replyId?_append_some h, by simp⟩
    exact (reserve_fields o.state replyId).2.1.symm
  | claimed id h hlive =>
    refine ⟨Nat.le_refl _, fun t r h => (replyId?_setPhase _ _ t _).trans h, fun t ht => ?_⟩
    cases ht
    exact hlive
  | release id phase h hphase =>
    refine ⟨Nat.le_of_eq ?_, fun t r h => (replyId?_setPhase _ _ t _).trans h, by simp⟩
    exact (release_fields o.state id).2.1.symm
  | cut =>
    refine ⟨?_, fun t r h => h, by simp⟩
    rw [cancelBelow_cut]
    exact Nat.le_max_left _ _
  | notify h => exact ⟨Nat.le_refl _, fun t r h => (replyId?_notifyWaiters _ t).trans h, by simp⟩
  | _ => exact ⟨Nat.le_refl _, fun t r h => (replyId?_setPhase _ _ t _).trans h, by simp⟩

namespace TtsSynthesis

variable {s s' : TtsSynthesis} {out es : List SynthesisEvent}

/-- The jobs that wait: the held one and the queued ones. -/
def waiting (s : TtsSynthesis) : List Nat := s.held.toList ++ s.queue

/-- The cuts and the replies of the sends stay, and a job comes to wait only past the cuts. -/
structure Onward (s s' : TtsSynthesis) : Prop where
  cancel : s.order.state.cancelBelow ≤ s'.order.state.cancelBelow
  replies : ∀ t r, s.order.replyId? t = some r → s'.order.replyId? t = some r
  waiting : ∀ t ∈ s'.waiting, t ∈ s.waiting ∨ s.order.state.cancelBelow ≤ t

theorem Onward.fewer (horder : s'.order = s.order) (hwaiting : s'.waiting ⊆ s.waiting) :
    s.Onward s' := by
  refine ⟨?_, ?_, fun t ht => Or.inl (hwaiting ht)⟩ <;> rw [horder]
  exact fun _ _ hr => hr

theorem Onward.same (horder : s'.order = s.order) (hheld : s'.held = s.held)
    (hqueue : s'.queue = s.queue) : s.Onward s' := by
  refine .fewer horder fun t ht => ?_
  rw [TtsSynthesis.waiting, hheld, hqueue] at ht
  exact ht

theorem Onward.sent {i : OrderInput} {o : TtsSendOrder} {es : List OrderEvent}
    (hs : s.order.step i = some (o, es)) : s.Onward ({ s with order := o }.pushClaimed es) := by
  obtain ⟨hcancel, hreplies, hclaims⟩ := (orderStep_of_step hs).onward
  rcases pushClaimed_cases { s with order := o } es with ⟨t, hes, heq⟩ | ⟨-, heq⟩ <;> rw [heq]
  · refine ⟨hcancel, hreplies, fun u hu => ?_⟩
    rw [TtsSynthesis.waiting] at hu
    rw [← List.append_assoc] at hu
    rcases List.mem_append.mp hu with hu | hu
    · exact Or.inl hu
    · rw [List.mem_singleton.mp hu]
      exact Or.inr (hclaims t hes)
  · exact ⟨hcancel, hreplies, fun u hu => Or.inl hu⟩

section

variable (s)

theorem Onward.cut : s.Onward s.cutOrder.1 := by
  have hs : s.order.step .cut = some (s.cutOrder.1.order, [.cut s.order.state.cut.1]) := rfl
  obtain ⟨hcancel, hreplies, -⟩ := (orderStep_of_step hs).onward
  exact ⟨hcancel, hreplies, fun t ht => Or.inl ht⟩

theorem Onward.popped (w : Nat) : s.Onward (s.popJob w).1 := by
  refine .fewer ?_ fun t ht => ?_
  · rw [popJob]
    cases s.queue <;> rfl
  · rw [popJob] at ht
    cases hqueue : s.queue with rw [hqueue] at ht
    | nil =>
      exact ht
    | cons a queue =>
      rw [TtsSynthesis.waiting, hqueue]
      exact List.mem_append_right _ ht

theorem Onward.taken (w : Nat) : s.Onward (s.takeHeld w) := by
  refine .fewer ?_ fun t ht => ?_
  · rw [takeHeld]
    cases s.held <;> rfl
  · rw [takeHeld] at ht
    cases hheld : s.held with rw [hheld] at ht
    | none =>
      exact ht
    | some u =>
      exact List.mem_append_right _ ht

theorem waiting_collect (below : Nat) : (s.collectBefore below).1.waiting ⊆ s.waiting := by
  refine (List.Sublist.append ?_ (List.dropWhile_sublist _)).subset
  show (s.held.filter (below ≤ ·)).toList.Sublist _
  cases s.held with
  | none => exact List.Sublist.refl _
  | some t =>
    rw [Option.filter_some]
    split
    · exact List.Sublist.refl _
    · exact List.nil_sublist _

end

theorem Queued.collected (h : s.Queued out) (below : Nat) :
    ∀ t ∈ (s.collectBefore below).1.waiting, below ≤ t := by
  intro t ht
  rcases List.mem_append.mp ht with ht | ht
  · have hfilter : s.held.filter (below ≤ ·) = some t := Option.mem_toList.mp ht
    exact of_decide_eq_true (Option.filter_eq_some_iff.mp hfilter).2
  · exact le_of_mem_dropWhile h.sorted ht

theorem SynthesisStep.onward {i : SynthesisInput} (hs : SynthesisStep s i s' es)
    (hi : Voice.aside i = true ∨ (∃ w, i = .take w ∨ i = .finish w) ∨
      ∃ below, i = .flushCollect below) : s.Onward s' := by
  cases hs with
  | sent i o es h => exact .sent h
  | flagged t h => exact .same rfl rfl rfl
  | ensured t h =>
    rw [ensureSlot]
    split <;> exact .same rfl rfl rfl
  | notified t next s' h hn =>
    obtain ⟨hqueue, hheld, -, -, horder⟩ := notifyOne_frame hn
    exact .same horder hheld hqueue
  | popped w h => exact .popped s w
  | taken w h => exact .taken s w
  | flushCut =>
    obtain ⟨hcancel, hreplies, hwaiting⟩ := Onward.cut s
    exact ⟨hcancel, hreplies, hwaiting⟩
  | flushCollected below =>
    exact .fewer rfl (waiting_collect { s with flushes := s.flushes.erase below } below)
  | woken _ _ h | permitted _ _ h | looked _ h | checked _ h | finished _ _ h | rested _ h =>
    exact .same rfl rfl rfl
  | _ => simp [Voice.aside] at hi

end TtsSynthesis

/-! ## The playback beside the jobs -/

def TtsBuffer.replyIds (b : TtsBuffer β) : List ReplyId :=
  b.replyLedger.map ReplyLedgerEntry.replyId ++ b.flushedReplies.map FlushedReply.id

theorem book_replyId (e : ReplyLedgerEntry) (take : Nat) : (e.book take).replyId = e.replyId := by
  rw [ReplyLedgerEntry.book]
  split <;> rfl

theorem consumeLedger_ids (n : Nat) (ledger : List ReplyLedgerEntry) :
    (consumeLedger n ledger).2.map ReplyLedgerEntry.replyId ⊆
      ledger.map ReplyLedgerEntry.replyId := by
  induction ledger generalizing n with
  | nil => exact List.Subset.refl _
  | cons head rest ih =>
    rw [consumeLedger]
    split
    · exact List.subset_cons_of_subset _ (ih _)
    · rw [List.map_cons, book_replyId]
      exact List.Subset.refl _

theorem completeFirst_ids (id : ReplyId) (ledger : List ReplyLedgerEntry) :
    (completeFirst id ledger).map ReplyLedgerEntry.replyId =
      ledger.map ReplyLedgerEntry.replyId := by
  induction ledger with
  | nil => rfl
  | cons e ledger ih =>
    rw [completeFirst]
    split
    · rfl
    · rw [List.map_cons, List.map_cons, ih]

namespace Playback

variable {p p' : Playback β} {es : List (PlaybackEvent β)}

def flushes (p : Playback β) : PlaybackInput β → Bool
  | .flush => true
  | .ender k => p.enders[k]?.any fun e => e.todo.head? == some .flush
  | _ => false

/-- What a step that enqueues nothing does to the bytes and the replies. -/
structure Beside (p : Playback β) (i : PlaybackInput β) (p' : Playback β)
    (es : List (PlaybackEvent β)) : Prop where
  ids : p'.buffer.replyIds ⊆ p.buffer.replyIds
  ledger : p.buffer.replyLedger = [] → p'.buffer.replyLedger = []
  flushed : p.buffer.replyLedger = [] → p.buffer.flushedReplies = [] →
    p'.buffer.flushedReplies = []
  stays : p.flushes i = false → p'.buffer.generation = p.buffer.generation ∧
    ∀ out, enqueuedSince (out ++ es) = enqueuedSince out
  moves : p.flushes i = true → p'.buffer.generation = (p.buffer.generation + 1) % 2 ^ 64 ∧
    p'.buffer.replyLedger = [] ∧ ∀ out, enqueuedSince (out ++ es) = []

variable {i : PlaybackInput β}

theorem Beside.keep (hi : p.flushes i = false)
    (hledger : p'.buffer.replyLedger = p.buffer.replyLedger)
    (hflushed : p'.buffer.flushedReplies = p.buffer.flushedReplies)
    (hgen : p'.buffer.generation = p.buffer.generation) (hes : ∀ e ∈ es, OfPass e) :
    Beside p i p' es where
  ids := by rw [TtsBuffer.replyIds, TtsBuffer.replyIds, hledger, hflushed]; exact fun _ h => h
  ledger := fun h => hledger.trans h
  flushed := fun _ h => hflushed.trans h
  stays := fun _ => ⟨hgen, enqueuedSince_ofPass hes⟩
  moves := fun h => by rw [hi] at h; cases h

theorem Beside.drain (p : Playback β) (d : DrainPass β) :
    Beside p .drain (p.stepDrain d).1 (p.stepDrain d).2 := by
  obtain ⟨hflushed, hledger⟩ := p.stepDrain_ledger d
  obtain ⟨hgen, -, -⟩ := p.stepDrain_frame d
  refine ⟨fun id hid => ?_, fun h => ?_, fun _ h => hflushed.trans h,
    fun _ => ⟨hgen, enqueuedSince_ofPass (p.stepDrain_ofPass d)⟩, (fun h => by cases h)⟩
  · rw [TtsBuffer.replyIds, hflushed] at hid
    rcases hledger with ⟨bytes, hledger, -⟩ | ⟨hledger, -⟩ <;> rw [hledger] at hid
    · rcases List.mem_append.mp hid with hid | hid
      · exact List.mem_append_left _ (consumeLedger_ids _ _ hid)
      · exact List.mem_append_right _ hid
    · exact hid
  · rcases hledger with ⟨bytes, hledger, -⟩ | ⟨hledger, -⟩
    · rw [hledger, TtsBuffer.consumePlayed, h]
      rfl
    · rw [hledger, h]

theorem Beside.flush (hi : p.flushes i = true) (hb : p'.buffer = p.buffer.flush) :
    Beside p i p' [.flushed] where
  ids := fun id hid => by
    rw [hb, TtsBuffer.replyIds, TtsBuffer.flush] at hid
    rw [List.map_append, List.map_map] at hid
    rw [TtsBuffer.replyIds]
    exact (List.perm_append_comm.mem_iff).mp hid
  ledger := fun _ => by rw [hb]; rfl
  flushed := fun hledger hflushed => by
    rw [hb, TtsBuffer.flush]
    rw [hledger, hflushed]
    rfl
  stays := fun h => by rw [hi] at h; cases h
  moves := fun _ => ⟨by rw [hb]; rfl, by rw [hb]; rfl, fun out => (since_flushed out).1⟩

theorem flushes_ender {k : Nat} {e : Ender} (hk : p.enders[k]? = some e) :
    p.flushes (.ender k) = (e.todo.head? == some .flush) := by
  rw [flushes, hk]
  rfl

theorem Beside.ender {k : Nat} {e : Ender} (hk : p.enders[k]? = some e)
    (hs : p.stepEnder k e = some (p', es)) : Beside p (.ender k) p' es := by
  have hflushes := flushes_ender hk
  rw [stepEnder] at hs
  split at hs
  · cases hs
  · next htodo =>
    rw [htodo] at hflushes
    cases hs
    exact .keep hflushes rfl rfl rfl fun e he => absurd he List.not_mem_nil
  · next htodo =>
    rw [htodo] at hflushes
    cases hs
    exact .flush hflushes rfl
  · next htodo =>
    rw [htodo] at hflushes
    cases hs
    refine ⟨fun id hid => ?_, fun h => h, fun _ _ => rfl,
      fun _ => ⟨rfl, enqueuedSince_ofPass fun e he => ?_⟩, fun h => ?_⟩
    · rw [TtsBuffer.replyIds] at hid
      rcases List.mem_append.mp hid with hid | hid
      · exact List.mem_append_left _ hid
      · cases hid
    · obtain ⟨r, -, rfl⟩ := List.mem_map.mp he
      trivial
    · rw [hflushes] at h
      cases h
  · next htodo =>
    rw [htodo] at hflushes
    cases hs
    refine .keep hflushes rfl rfl rfl fun e he => ?_
    rw [List.mem_singleton.mp he]
    trivial
  · next htodo =>
    rw [htodo] at hflushes
    cases hs
    exact .keep hflushes rfl rfl rfl (endEvent_ofPass _)

theorem beside_step (hi : ∀ c g r, i ≠ .enqueue c g r) (hs : p.step i = some (p', es)) :
    Beside p i p' es := by
  have hnil : ∀ e ∈ ([] : List (PlaybackEvent β)), OfPass e :=
    fun e he => absurd he List.not_mem_nil
  cases i with
  | begin | writeFails | call todo =>
    rw [Playback.step] at hs
    split at hs <;> cases hs
    exact .keep rfl rfl rfl rfl hnil
  | drain =>
    rw [Playback.step, Option.map_eq_some_iff] at hs
    obtain ⟨d, -, heq⟩ := hs
    have hdrain := Beside.drain p d
    rw [heq] at hdrain
    exact hdrain
  | enqueue chunks expect reply => exact absurd rfl (hi chunks expect reply)
  | setProducing producing =>
    cases hs
    obtain ⟨hledger, hflushed⟩ := setProducing_ledger p.buffer producing
    exact .keep rfl hledger hflushed (setProducing_same _ _).generation hnil
  | markReplyComplete id =>
    cases hs
    refine ⟨fun r hr => ?_, fun h => ?_, fun _ h => h, fun _ => ⟨rfl, ?_⟩, (fun h => by cases h)⟩
    · rw [TtsBuffer.replyIds, TtsBuffer.markReplyComplete] at hr
      rw [List.map_reverse, completeFirst_ids, ← List.map_reverse, List.reverse_reverse] at hr
      exact hr
    · rw [TtsBuffer.markReplyComplete, h]
      rfl
    · exact enqueuedSince_ofPass hnil
  | flush =>
    cases hs
    exact .flush rfl rfl
  | ender k =>
    rw [Playback.step, Option.bind_eq_some_iff] at hs
    obtain ⟨e, hk, hs⟩ := hs
    exact .ender hk hs

theorem stepDrain_enders (p : Playback β) (d : DrainPass β) :
    (p.stepDrain d).1.enders = p.enders := by
  rw [stepDrain]
  split
  all_goals first
    | rfl
    | (split <;> first | rfl | (split <;> rfl))

theorem enders_other {k : Nat} {e : Ender} (hi : i ≠ .ender k) (hk : p.enders[k]? = some e)
    (hs : p.step i = some (p', es)) : p'.enders[k]? = some e := by
  have hlt := (List.getElem?_eq_some_iff.mp hk).1
  cases i with
  | begin =>
    rw [Playback.step] at hs
    split at hs <;> cases hs
    exact hk
  | drain =>
    rw [Playback.step, Option.map_eq_some_iff] at hs
    obtain ⟨d, -, heq⟩ := hs
    have henders := p.stepDrain_enders d
    rw [heq] at henders
    rw [henders]
    exact hk
  | writeFails | call todo =>
    rw [Playback.step] at hs
    split at hs <;> cases hs
    rw [List.getElem?_append_left hlt]
    exact hk
  | enqueue | setProducing | markReplyComplete | flush =>
    cases hs
    exact hk
  | ender j =>
    have hjk : j ≠ k := fun heq => hi (by rw [heq])
    rw [Playback.step, Option.bind_eq_some_iff] at hs
    obtain ⟨e', -, hs⟩ := hs
    rw [stepEnder] at hs
    split at hs
    all_goals cases hs
    all_goals
      rw [List.getElem?_set_ne hjk]
      exact hk

theorem ender_self {k : Nat} {e : Ender} (hk : p.enders[k]? = some e)
    (hs : p.step (.ender k) = some (p', es)) : ∃ step todo e', e.todo = step :: todo ∧
      p'.enders[k]? = some e' ∧ e'.todo = todo ∧
      (step = .takeFlushed → p'.buffer.flushedReplies = []) := by
  have hlt := (List.getElem?_eq_some_iff.mp hk).1
  rw [Playback.step, hk, Option.bind_some, stepEnder] at hs
  split at hs
  · cases hs
  all_goals
    next htodo =>
      cases hs
      refine ⟨_, _, _, htodo, List.getElem?_set_self hlt, rfl, ?_⟩
      first
        | exact fun _ => rfl
        | exact fun heq => by cases heq

end Playback

/-! ## The barge-in -/

def JobPhase.generation? : JobPhase β → Option Nat
  | .captured g | .cleared g | .ready g | .streaming g _ _ _ | .synthesizing g
  | .checked g _ => some g
  | _ => none

/-- The generation of a job past its epoch check, until its audio has gone to the buffer. -/
def JobPhase.armed? : JobPhase β → Option Nat
  | .ready g | .streaming g _ _ _ | .checked g _ => some g
  | _ => none

def VoiceEvent.playback? : VoiceEvent β → Option (PlaybackEvent (Nat × β))
  | .playback e => some e
  | _ => none

def VoiceEvent.synthesis? : VoiceEvent β → Option SynthesisEvent
  | .synthesis e => some e
  | _ => none

def playbackOf (out : List (VoiceEvent β)) : List (PlaybackEvent (Nat × β)) :=
  out.filterMap VoiceEvent.playback?

def synthesisOf (out : List (VoiceEvent β)) : List SynthesisEvent :=
  out.filterMap VoiceEvent.synthesis?

theorem playbackOf_append (out es : List (VoiceEvent β)) :
    playbackOf (out ++ es) = playbackOf out ++ playbackOf es := List.filterMap_append

theorem synthesisOf_append (out es : List (VoiceEvent β)) :
    synthesisOf (out ++ es) = synthesisOf out ++ synthesisOf es := List.filterMap_append

theorem of_playback (es : List (PlaybackEvent (Nat × β))) :
    playbackOf (es.map VoiceEvent.playback) = es ∧ synthesisOf (es.map VoiceEvent.playback) = [] := by
  rw [playbackOf, synthesisOf, List.filterMap_map, List.filterMap_map]
  exact ⟨List.filterMap_some, List.filterMap_eq_nil_iff.mpr fun _ _ => rfl⟩

theorem of_synthesis (es : List SynthesisEvent) :
    playbackOf (es.map VoiceEvent.synthesis : List (VoiceEvent β)) = [] ∧
      synthesisOf (es.map VoiceEvent.synthesis : List (VoiceEvent β)) = es := by
  rw [playbackOf, synthesisOf, List.filterMap_map, List.filterMap_map]
  exact ⟨List.filterMap_eq_nil_iff.mpr fun _ _ => rfl, List.filterMap_some⟩

namespace Voice

/-- The barge-in has flushed, and its cut has not been applied. -/
def Flushed (v : Voice β) : Prop :=
  match v.barge with
  | .ending k => ∃ e, v.playback.enders[k]? = some e ∧ .flush ∉ e.todo
  | .cutting _ => True
  | _ => False

/-- The barge-in has flushed and reported what it flushed, and its cut has not been applied. -/
def Reported (v : Voice β) : Prop :=
  match v.barge with
  | .ending k => ∃ e, v.playback.enders[k]? = some e ∧ .flush ∉ e.todo ∧ .takeFlushed ∉ e.todo
  | .cutting _ => True
  | _ => False

/-- A flush does not bring back the generation of a job past its epoch check. -/
def MovesOn (v : Voice β) : Prop :=
  ∀ w job, v.jobs.get w = some job →
    job.phase.armed? ≠ some ((v.playback.buffer.generation + 1) % 2 ^ 64)

/-- The job's epoch check passes only with a generation from before the barge-in's flush, or
after its cut. -/
def ChecksApart (v : Voice β) (w : Nat) : Prop :=
  v.Flushed → ∀ job, v.jobs.get w = some job → v.epoch = job.epochAtStart →
    job.phase.generation? ≠ some v.playback.buffer.generation

/-- The drain's steps cut cleanly, no job passes its epoch check between the flush of the
barge-in and its cut with the generation of after the flush, and the barge-in flushes. -/
def Meets (v : Voice β) : VoiceInput β → Prop
  | .playback i => v.playback.Meets i ∧ (v.playback.flushes i = true → v.MovesOn)
  | .job w .checkEpoch | .job w (.synthesized _) => v.ChecksApart w
  | .bargeIn flushTts => flushTts = true
  | _ => True

structure Cleared (v : Voice β) (out : List (PlaybackEvent (Nat × β))) : Prop where
  bytes : enqueuedSince out = []
  ledger : v.playback.buffer.replyLedger = []
  jobs : ∀ w job, v.jobs.get w = some job →
    job.phase.armed? ≠ some v.playback.buffer.generation

structure Done (v : Voice β) (below : Nat) (out : List (PlaybackEvent (Nat × β))) : Prop where
  bound : below ≤ v.synthesis.order.state.cancelBelow
  waiting : ∀ t ∈ v.synthesis.waiting, below ≤ t
  jobs : ∀ w job, v.jobs.get w = some job → below ≤ job.ticket ∨
    (job.epochAtStart < v.epoch ∧ job.phase.armed? ≠ some v.playback.buffer.generation)
  bytes : ∀ b ∈ enqueuedSince out, below ≤ b.1
  replies : ∀ id ∈ v.playback.buffer.replyIds, ∃ t, below ≤ t ∧
    v.synthesis.order.replyId? t = some id

structure Silent (v : Voice β) (out : List (VoiceEvent β)) : Prop where
  clean : v.playback.Clean (playbackOf out)
  ends : v.playback.Ends (playbackOf out)
  queued : v.synthesis.Queued (synthesisOf out)
  epochs : ∀ w job, v.jobs.get w = some job → job.epochAtStart ≤ v.epoch
  ender : ∀ k, v.barge = .ending k → ∃ e, v.playback.enders[k]? = some e ∧
    e.todo <:+ bargeInSteps true
  cleared : v.Flushed → v.Cleared (playbackOf out)
  reported : v.Reported → v.playback.buffer.flushedReplies = []
  cutting : ∀ below, v.barge = .cutting below → below ≤ v.synthesis.order.state.cancelBelow
  done : ∀ below, v.barge = .done below → v.Done below (playbackOf out)

variable {v v' : Voice β} {out es : List (VoiceEvent β)}

theorem Silent.new : Silent (.new : Voice β) [] where
  clean := .new
  ends := .new
  queued := .new
  epochs := fun w job h => by cases h
  ender := fun k h => by cases h
  cleared := fun h => h.elim
  reported := fun h => h.elim
  cutting := fun below h => by cases h
  done := fun below h => by cases h

/-! ### Steps of the sends and the workers -/

theorem Silent.onSynthesis (h : Silent v out) {i : SynthesisInput}
    (hi : aside i = true ∨ (∃ w, i = .take w ∨ i = .finish w) ∨ ∃ below, i = .flushCollect below)
    (hs : v.onSynthesis i = some (v', es)) : Silent v' (out ++ es) := by
  rw [Voice.onSynthesis, Option.map_eq_some_iff] at hs
  obtain ⟨⟨s, es'⟩, hs, heq⟩ := hs
  cases heq
  have hstep := TtsSynthesis.synthesisStep_of_step hs
  obtain ⟨hcancel, hreplies, hwaiting⟩ := hstep.onward hi
  obtain ⟨hplay, hsyn⟩ := @of_synthesis β es'
  have hsame : playbackOf (out ++ es'.map VoiceEvent.synthesis) = playbackOf out := by
    rw [playbackOf_append, hplay, List.append_nil]
  refine ⟨?_, ?_, ?_, h.epochs, h.ender, fun hf => ?_, h.reported,
    fun below hb => Nat.le_trans (h.cutting below hb) hcancel, fun below hb => ?_⟩
  · rw [hsame]
    exact h.clean
  · rw [hsame]
    exact h.ends
  · rw [synthesisOf_append, hsyn]
    exact h.queued.step hstep
  · rw [hsame]
    exact ⟨(h.cleared hf).bytes, (h.cleared hf).ledger, (h.cleared hf).jobs⟩
  · rw [hsame]
    have hd := h.done below hb
    refine ⟨Nat.le_trans hd.bound hcancel, fun t ht => ?_, hd.jobs, hd.bytes, fun id hid => ?_⟩
    · rcases hwaiting t ht with ht | ht
      · exact hd.waiting t ht
      · exact Nat.le_trans hd.bound ht
    · obtain ⟨t, ht, hr⟩ := hd.replies id hid
      exact ⟨t, ht, hreplies t id hr⟩

/-! ### Steps of the jobs -/

structure Fits (v : Voice β) (job : SynthesisJob β) : Prop where
  epoch : job.epochAtStart ≤ v.epoch
  cleared : v.Flushed → job.phase.armed? ≠ some v.playback.buffer.generation
  done : ∀ below, v.barge = .done below → below ≤ job.ticket ∨
    (job.epochAtStart < v.epoch ∧ job.phase.armed? ≠ some v.playback.buffer.generation)

variable {w : Nat}

theorem Silent.fits (h : Silent v out) {job : SynthesisJob β} (hjob : v.jobs.get w = some job) :
    Fits v job where
  epoch := h.epochs w job hjob
  cleared := fun hf => (h.cleared hf).jobs w job hjob
  done := fun below hb => (h.done below hb).jobs w job hjob

theorem Fits.phase {job : SynthesisJob β} (h : Fits v job) {phase : JobPhase β}
    (harm : phase.armed? = none ∨ phase.armed? = job.phase.armed?) :
    Fits v { job with phase := phase } := by
  rcases harm with harm | harm
  · refine ⟨h.epoch, fun _ => by simp [harm], fun below hb => ?_⟩
    exact (h.done below hb).imp_right fun hold => ⟨hold.1, by simp [harm]⟩
  · refine ⟨h.epoch, fun hf => ?_, fun below hb => ?_⟩ <;> rw [harm]
    · exact h.cleared hf
    · exact h.done below hb

theorem Fits.pass {job : SynthesisJob β} (h : Fits v job) {phase : JobPhase β}
    (hepoch : v.epoch = job.epochAtStart) (harm : phase.armed? = job.phase.generation?)
    (hapart : v.Flushed → job.phase.generation? ≠ some v.playback.buffer.generation) :
    Fits v { job with phase := phase } := by
  refine ⟨h.epoch, fun hf => ?_, fun below hb => Or.inl ?_⟩
  · rw [harm]
    exact hapart hf
  · rcases h.done below hb with hlive | ⟨hlt, -⟩
    · exact hlive
    · rw [hepoch] at hlt
      exact absurd hlt (Nat.lt_irrefl _)

theorem Silent.retask (h : Silent v out) (hsyn : v'.synthesis = v.synthesis)
    (hplay : v'.playback = v.playback) (hbarge : v'.barge = v.barge) (hepoch : v'.epoch = v.epoch)
    (hfits : ∀ w job, v'.jobs.get w = some job → Fits v job) : Silent v' out := by
  have hflushed : v'.Flushed → v.Flushed := by
    rw [Flushed, hbarge, hplay]
    exact id
  refine ⟨?_, ?_, ?_, fun w job hjob => ?_, ?_, fun hf => ?_, ?_, ?_, fun below hb => ?_⟩
  · rw [hplay]
    exact h.clean
  · rw [hplay]
    exact h.ends
  · rw [hsyn]
    exact h.queued
  · rw [hepoch]
    exact (hfits w job hjob).epoch
  · rw [hbarge, hplay]
    exact h.ender
  · have hc := h.cleared (hflushed hf)
    refine ⟨hc.bytes, ?_, fun w job hjob => ?_⟩ <;> rw [hplay]
    · exact hc.ledger
    · exact (hfits w job hjob).cleared (hflushed hf)
  · rw [Reported, hbarge, hplay]
    exact h.reported
  · rw [hbarge, hsyn]
    exact h.cutting
  · rw [hbarge] at hb
    have hd := h.done below hb
    refine ⟨?_, ?_, fun w job hjob => ?_, hd.bytes, ?_⟩
    · rw [hsyn]
      exact hd.bound
    · rw [hsyn]
      exact hd.waiting
    · rw [hepoch, hplay]
      exact (hfits w job hjob).done below hb
    · rw [hplay, hsyn]
      exact hd.replies

theorem Silent.setJob (h : Silent v out) {job : SynthesisJob β} {phase : JobPhase β}
    (hfits : Fits v { job with phase := phase }) : Silent (v.setJob w job phase) out := by
  refine h.retask rfl rfl rfl rfl fun u job' hjob' => ?_
  rw [Voice.setJob] at hjob'
  rw [InsertMap.get_set] at hjob'
  split at hjob'
  · cases hjob'
    exact hfits
  · exact h.fits hjob'

/-! ### Steps of the playback -/

theorem flushed_of_reported (h : v.Reported) : v.Flushed := by
  rw [Reported] at h
  rw [Flushed]
  split at h
  · obtain ⟨e, he, hflush, -⟩ := h
    exact ⟨e, he, hflush⟩
  · trivial
  · exact h.elim

theorem script_flush {todo : List EnderStep} (h : .flush :: todo <:+ bargeInSteps true) :
    .takeFlushed ∈ todo := by
  simp only [bargeInSteps, if_true, List.suffix_cons_iff, List.cons.injEq] at h
  rcases h with ⟨heq, -⟩ | ⟨-, rfl⟩ | ⟨heq, -⟩ | ⟨heq, -⟩ | ⟨heq, -⟩ | h
  · cases heq
  · exact List.mem_cons_self
  · cases heq
  · cases heq
  · cases heq
  · cases List.suffix_nil.mp h

variable {i : PlaybackInput (Nat × β)} {p : Playback (Nat × β)}

theorem Silent.flushed_back (h : Silent v out) {es : List (PlaybackEvent (Nat × β))}
    (hs : v.playback.step i = some (p, es)) (hi : v.playback.flushes i = false)
    (hf : { v with playback := p }.Flushed) : v.Flushed := by
  rw [Flushed] at hf ⊢
  dsimp only at hf
  split at hf
  · next k hb =>
    obtain ⟨e', he', hno⟩ := hf
    obtain ⟨e, he, -⟩ := h.ender k hb
    refine ⟨e, he, ?_⟩
    by_cases hk : i = .ender k
    · subst hk
      obtain ⟨step, todo, e'', htodo, he'', hrest, -⟩ := Playback.ender_self he hs
      rw [he'', Option.some.injEq] at he'
      subst he'
      rw [Playback.flushes_ender he, htodo] at hi
      rw [htodo, List.mem_cons, not_or]
      refine ⟨fun heq => ?_, hrest ▸ hno⟩
      rw [← heq] at hi
      cases hi
    · rw [Playback.enders_other hk he hs, Option.some.injEq] at he'
      rw [he']
      exact hno
  · trivial
  · exact hf.elim

theorem Silent.reports (h : Silent v out) {es : List (PlaybackEvent (Nat × β))}
    (hbeside : v.playback.Beside i p es) (hs : v.playback.step i = some (p, es))
    (hr : { v with playback := p }.Reported) : p.buffer.flushedReplies = [] := by
  have hkeep : v.Reported → p.buffer.flushedReplies = [] := fun hr =>
    hbeside.flushed (h.cleared (flushed_of_reported hr)).ledger (h.reported hr)
  rw [Reported] at hr
  split at hr
  · next k hb =>
    obtain ⟨e', he', hno, hnot⟩ := hr
    obtain ⟨e, he, hscript⟩ := h.ender k hb
    by_cases hk : i = .ender k
    · subst hk
      obtain ⟨step, todo, e'', htodo, he'', hrest, htake⟩ := Playback.ender_self he hs
      rw [he'', Option.some.injEq] at he'
      subst he'
      rw [hrest] at hno hnot
      rw [htodo] at hscript
      by_cases hstep : step = .takeFlushed
      · exact htake hstep
      · refine hkeep ?_
        rw [Reported, hb]
        refine ⟨e, he, ?_, ?_⟩ <;> rw [htodo, List.mem_cons, not_or]
        · refine ⟨fun heq => hnot ?_, hno⟩
          rw [← heq] at hscript
          exact script_flush hscript
        · exact ⟨fun heq => hstep heq.symm, hnot⟩
    · rw [Playback.enders_other hk he hs, Option.some.injEq] at he'
      refine hkeep ?_
      rw [Reported, hb]
      exact ⟨e, he, he' ▸ hno, he' ▸ hnot⟩
  · next below hb =>
    refine hkeep ?_
    rw [Reported, hb]
    trivial
  · exact hr.elim

theorem Silent.onPlayback (h : Silent v out) (hi : ∀ c g r, i ≠ .enqueue c g r)
    (hm : v.playback.Meets i) (hmoves : v.playback.flushes i = true → v.MovesOn)
    (hs : v.onPlayback i = some (v', es)) : Silent v' (out ++ es) := by
  rw [Voice.onPlayback, Option.map_eq_some_iff] at hs
  obtain ⟨⟨p, es'⟩, hs, heq⟩ := hs
  cases heq
  have hbeside := Playback.beside_step hi hs
  obtain ⟨hplay, hsyn⟩ := @of_playback β es'
  have hsame : playbackOf (out ++ es'.map VoiceEvent.playback) = playbackOf out ++ es' := by
    rw [playbackOf_append, hplay]
  have hqueued : synthesisOf (out ++ es'.map VoiceEvent.playback) = synthesisOf out := by
    rw [synthesisOf_append, hsyn, List.append_nil]
  have hgen : ∀ w job, v.jobs.get w = some job →
      job.phase.armed? ≠ some v.playback.buffer.generation →
      job.phase.armed? ≠ some p.buffer.generation := by
    intro w job hjob hne
    cases hflush : v.playback.flushes i with
    | false =>
      rw [(hbeside.stays hflush).1]
      exact hne
    | true =>
      rw [(hbeside.moves hflush).1]
      exact hmoves hflush w job hjob
  refine ⟨?_, ?_, ?_, h.epochs, fun k hk => ?_, fun hf => ?_, h.reports hbeside hs, h.cutting,
    fun below hb => ?_⟩
  · rw [hsame]
    exact h.clean.step hm hs
  · rw [hsame]
    exact h.ends.step hs
  · rw [hqueued]
    exact h.queued
  · obtain ⟨e, he, hscript⟩ := h.ender k hk
    by_cases hik : i = .ender k
    · subst hik
      obtain ⟨step, todo, e', htodo, he', hrest, -⟩ := Playback.ender_self he hs
      refine ⟨e', he', ?_⟩
      rw [htodo] at hscript
      rw [hrest]
      exact (List.suffix_cons step todo).trans hscript
    · exact ⟨e, Playback.enders_other hik he hs, hscript⟩
  · rw [hsame]
    cases hflush : v.playback.flushes i with
    | true =>
      obtain ⟨hnext, hledger, hbytes⟩ := hbeside.moves hflush
      refine ⟨hbytes _, hledger, fun w job hjob => ?_⟩
      rw [hnext]
      exact hmoves hflush w job hjob
    | false =>
      obtain ⟨hstay, hbytes⟩ := hbeside.stays hflush
      have hc := h.cleared (h.flushed_back hs hflush hf)
      exact ⟨(hbytes _).trans hc.bytes, hbeside.ledger hc.ledger,
        fun w job hjob => hgen w job hjob (hc.jobs w job hjob)⟩
  · rw [hsame]
    have hd := h.done below hb
    refine ⟨hd.bound, hd.waiting, fun w job hjob => ?_, fun b hb => ?_, fun id hid => ?_⟩
    · exact (hd.jobs w job hjob).imp_right fun hold => ⟨hold.1, hgen w job hjob hold.2⟩
    · cases hflush : v.playback.flushes i with
      | true =>
        rw [(hbeside.moves hflush).2.2] at hb
        cases hb
      | false =>
        rw [(hbeside.stays hflush).2] at hb
        exact hd.bytes b hb
    · exact hd.replies id (hbeside.ids hid)

theorem ids_bookQueued (ledger : List ReplyLedgerEntry) (id : ReplyId) (ms : Option Nat)
    (bytes : Nat) : ∀ r ∈ (bookQueued ledger id ms bytes).map ReplyLedgerEntry.replyId,
      r ∈ ledger.map ReplyLedgerEntry.replyId ∨ r = id := by
  intro r hr
  rw [bookQueued] at hr
  have hsnoc : ∀ l : List ReplyLedgerEntry, ∀ e : ReplyLedgerEntry,
      r ∈ (l ++ [e]).map ReplyLedgerEntry.replyId →
      r ∈ l.map ReplyLedgerEntry.replyId ∨ r = e.replyId := by
    intro l e hr
    rw [List.map_append] at hr
    exact (List.mem_append.mp hr).imp_right fun h => List.mem_singleton.mp h
  cases hlast : ledger.getLast? with rw [hlast] at hr
  | none =>
    exact hsnoc _ _ hr
  | some tail =>
    dsimp only at hr
    split at hr
    · have hsplit : ledger.dropLast ++ [tail] = ledger :=
        List.dropLast_append_getLast? tail hlast
      refine Or.inl ?_
      rw [← hsplit, List.map_append]
      rw [List.map_append] at hr
      exact hr
    · exact hsnoc _ _ hr

theorem replyIds_enqueued {b : TtsBuffer (Nat × β)} {chunks : List (TtsAudioChunk (Nat × β))}
    {expect : Option Nat} {reply : Option (ReplyId × Option Nat)} {id : ReplyId}
    (hid : id ∈ (b.enqueueTaggedIfGeneration chunks expect reply).2.replyIds) :
    id ∈ b.replyIds ∨ reply.map Prod.fst = some id := by
  rw [TtsBuffer.enqueueTaggedIfGeneration] at hid
  split at hid
  · rw [TtsBuffer.replyIds] at hid
    rcases List.mem_append.mp hid with hid | hid
    · cases reply with
      | none => exact Or.inl (List.mem_append_left _ hid)
      | some reply =>
        dsimp only at hid
        split at hid
        · rcases ids_bookQueued _ _ _ _ id hid with hid | rfl
          · exact Or.inl (List.mem_append_left _ hid)
          · exact Or.inr rfl
        · exact Or.inl (List.mem_append_left _ hid)
    · exact Or.inl (List.mem_append_right _ hid)
  · exact Or.inl hid

theorem reply_id {ticket : Nat} {ms : Option Nat} {id : ReplyId}
    (h : (v.reply ticket ms).map Prod.fst = some id) :
    v.synthesis.order.replyId? ticket = some id := by
  rw [Voice.reply] at h
  rw [← h]
  cases v.synthesis.order.replyId? ticket <;> rfl

variable {generation : Nat}

theorem accepts_generation {b : TtsBuffer (Nat × β)} {chunks : List (TtsAudioChunk (Nat × β))}
    (h : b.accepts chunks (some generation) = true) :
    generation = b.generation := by
  rw [TtsBuffer.accepts, Bool.and_eq_true] at h
  exact (beq_iff_eq.mp h.2).symm

theorem mark_ticket {ticket : Nat} {chunks : List (TtsAudioChunk β)} {b : Nat × β}
    (h : b ∈ (chunks.map (TtsAudioChunk.mark ticket)).flatMap TtsAudioChunk.pcm) :
    b.1 = ticket := by
  obtain ⟨c, hc, hb⟩ := List.mem_flatMap.mp h
  obtain ⟨c', -, rfl⟩ := List.mem_map.mp hc
  obtain ⟨x, -, rfl⟩ := List.mem_map.mp hb
  rfl

theorem Silent.enqueueFor (h : Silent v out) {job : SynthesisJob β}
    {chunks : List (TtsAudioChunk β)} {ms : Option Nat}
    (hmay : generation = v.playback.buffer.generation → ¬ v.Flushed ∧
      ∀ below, v.barge = .done below → below ≤ job.ticket)
    (hs : v.enqueueFor job chunks generation ms = some (v', es)) : Silent v' (out ++ es) := by
  rw [Voice.enqueueFor, Voice.onPlayback, Option.map_eq_some_iff] at hs
  obtain ⟨⟨p, es'⟩, hs, heq⟩ := hs
  cases heq
  have hclean := h.clean.step (show v.playback.Meets (.enqueue _ _ _) from trivial) hs
  have hends := h.ends.step hs
  rw [Playback.step] at hs
  have hids : ∀ id ∈ p.buffer.replyIds, id ∈ v.playback.buffer.replyIds ∨
      v.synthesis.order.replyId? job.ticket = some id := fun id hid => by
    cases hs
    exact (replyIds_enqueued hid).imp_right reply_id
  rw [TtsBuffer.enqueueTaggedIfGeneration] at hs
  split at hs
  · next haccepts =>
    have hgen := accepts_generation haccepts
    obtain ⟨hnot, hlive⟩ := hmay hgen
    cases hs
    have hsame : ∀ e : PlaybackEvent (Nat × β),
        playbackOf (out ++ [e].map VoiceEvent.playback) = playbackOf out ++ [e] := fun e => by
      rw [playbackOf_append]
      rfl
    have hqueued : ∀ e : PlaybackEvent (Nat × β),
        synthesisOf (out ++ [e].map VoiceEvent.playback) = synthesisOf out := fun e => by
      rw [synthesisOf_append]
      exact List.append_nil _
    refine ⟨?_, ?_, ?_, h.epochs, h.ender, fun hf => absurd hf hnot,
      fun hr => absurd (flushed_of_reported hr) hnot, h.cutting, fun below hb => ?_⟩
    · rw [if_pos rfl, hsame]
      exact hclean
    · rw [if_pos rfl, hsame]
      exact hends
    · rw [if_pos rfl, hqueued]
      exact h.queued
    · have hd := h.done below hb
      rw [if_pos rfl, hsame]
      refine ⟨hd.bound, hd.waiting, hd.jobs, fun b hb' => ?_, fun id hid => ?_⟩
      · rw [(since_enqueued _ _).1] at hb'
        rcases List.mem_append.mp hb' with hb' | hb'
        · exact hd.bytes b hb'
        · rw [mark_ticket hb']
          exact hlive below hb
      · rcases hids id hid with hid | hid
        · exact hd.replies id hid
        · exact ⟨job.ticket, hlive below hb, hid⟩
  · cases hs
    rw [if_neg Bool.false_ne_true, List.map_nil, List.append_nil]
    exact h

/-! ### A step -/

theorem Silent.discard (h : Silent v out) (ticket : Nat) :
    Silent v (out ++ [.discarded ticket]) := by
  have hplay : playbackOf (out ++ [.discarded ticket]) = playbackOf out := by
    rw [playbackOf_append]
    exact List.append_nil _
  have hsyn : synthesisOf (out ++ [.discarded ticket]) = synthesisOf out := by
    rw [synthesisOf_append]
    exact List.append_nil _
  obtain ⟨hclean, hends, hqueued, hepochs, hender, hcleared, hreported, hcutting, hdone⟩ := h
  rw [← hplay] at hclean hends hcleared hdone
  rw [← hsyn] at hqueued
  exact ⟨hclean, hends, hqueued, hepochs, hender, hcleared, hreported, hcutting, hdone⟩

theorem Silent.beside (h : Silent v out)
    (hi : (∃ producing, i = .setProducing producing) ∨ ∃ id, i = .markReplyComplete id)
    (hs : v.onPlayback i = some (v', es)) : Silent v' (out ++ es) := by
  rcases hi with ⟨producing, rfl⟩ | ⟨id, rfl⟩
  all_goals
    refine h.onPlayback ?_ ?_ ?_ hs
    · exact fun c g r heq => by cases heq
    · trivial
    · exact fun hf => by cases hf

theorem Silent.completeFor (h : Silent v out) {job : SynthesisJob β}
    (hs : v.completeFor job = some (v', es)) : Silent v' (out ++ es) := by
  rw [Voice.completeFor] at hs
  split at hs
  · exact h.beside (Or.inr ⟨_, rfl⟩) hs
  · cases hs
    rw [List.append_nil]
    exact h

theorem Fits.may {job : SynthesisJob β} (h : Fits v job) (harm : job.phase.armed? = some generation)
    :
    generation = v.playback.buffer.generation → ¬ v.Flushed ∧
      ∀ below, v.barge = .done below → below ≤ job.ticket := by
  intro heq
  rw [heq] at harm
  refine ⟨fun hf => h.cleared hf harm, fun below hb => ?_⟩
  rcases h.done below hb with hlive | ⟨-, hne⟩
  · exact hlive
  · exact absurd harm hne

section

variable (h : Silent v out)
include h

theorem Silent.job {job : SynthesisJob β} {i : JobInput β} (hjob : v.jobs.get w = some job)
    (hm : v.Meets (.job w i)) (hs : v.stepJob w job job.phase i = some (v', es)) :
    Silent v' (out ++ es) := by
  have hfits := h.fits hjob
  have hfree : ∀ phase : JobPhase β, phase.armed? = none → Silent (v.setJob w job phase) out :=
    fun phase harm => h.setJob (hfits.phase (Or.inl harm))
  have hnil : ∀ {u : Voice β}, Silent u out → Silent u (out ++ []) := fun hu => by
    rw [List.append_nil]
    exact hu
  unfold Voice.stepJob at hs
  split at hs
  · cases hs
    exact hnil (hfree _ rfl)
  · cases hs
    refine hnil ?_
    exact Silent.retask (hfree _ rfl) rfl rfl rfl rfl fun u job' hjob' => (hfree _ rfl).fits hjob'
  · next g hphase =>
    split at hs <;> cases hs
    · next hepoch =>
      refine hnil (h.setJob (hfits.pass hepoch ?_ fun hf => hm hf job hjob hepoch))
      rw [hphase]
      rfl
    · exact (hfree _ rfl).discard _
  · next g hphase =>
    have hset : Silent (v.setJob w job (.streaming g [] true true)) out :=
      h.setJob (hfits.phase (Or.inr (by rw [hphase]; rfl)))
    exact hset.beside (Or.inl ⟨_, rfl⟩) hs
  · next g channel receiving chunk hphase =>
    split at hs <;> cases hs
    · exact hnil h
    · exact hnil (h.setJob (hfits.phase (Or.inr (by rw [hphase]; rfl))))
  · next g channel calling count ms hphase =>
    split_ifs at hs
    have hset : Silent (v.setJob w job (.streaming g (channel.drop count) calling
        (v.accepts (channel.take count) g))) out :=
      h.setJob (hfits.phase (Or.inr (by rw [hphase]; rfl)))
    refine hset.enqueueFor ?_ hs
    exact hfits.may (by rw [hphase]; rfl)
  · next g channel receiving hphase =>
    cases hs
    exact hnil (h.setJob (hfits.phase (Or.inr (by rw [hphase]; rfl))))
  · split at hs <;> cases hs
    exact hnil (hfree _ rfl)
  · exact (hfree _ rfl).completeFor hs
  · exact (hfree _ rfl).beside (Or.inl ⟨_, rfl⟩) hs
  · cases hs
    exact hnil (hfree _ rfl)
  · cases hs
    exact hnil (hfree _ rfl)
  · next g chunks hphase =>
    split at hs <;> cases hs
    · next hepoch =>
      refine hnil (h.setJob (hfits.pass hepoch ?_ fun hf => hm hf job hjob hepoch))
      rw [hphase]
      rfl
    · exact (hfree _ rfl).discard _
  · next g chunks ms hphase =>
    split at hs
    · cases hs
      exact hnil (hfree _ rfl)
    · split at hs
      · refine (hfree .enqueued rfl).enqueueFor ?_ hs
        exact hfits.may (by rw [hphase]; rfl)
      · cases hs
        exact (hfree _ rfl).discard _
  · exact (hfree _ rfl).completeFor hs
  · cases hs
    exact hnil (hfree _ rfl)
  · cases hs
    exact hnil (hfree _ rfl)
  · cases hs
    exact hnil (hfree _ rfl)
  · cases hs

theorem Silent.invalidate : Silent v.invalidate out where
  clean := h.clean
  ends := h.ends
  queued := h.queued
  epochs := fun w job hjob => Nat.le_succ_of_le (h.epochs w job hjob)
  ender := h.ender
  cleared := fun hf =>
    have hc := h.cleared hf
    ⟨hc.bytes, hc.ledger, hc.jobs⟩
  reported := h.reported
  cutting := h.cutting
  done := fun below hb =>
    have hd := h.done below hb
    ⟨hd.bound, hd.waiting, fun w job hjob =>
      (hd.jobs w job hjob).imp_right fun hold => ⟨Nat.lt_succ_of_lt hold.1, hold.2⟩,
      hd.bytes, hd.replies⟩

theorem Silent.take {t : Nat} {stream : Bool} (hheld : v.synthesis.held = some t) :
    Silent { v with jobs := v.jobs.set w ⟨t, v.epoch, .taken stream⟩ } out := by
  refine h.retask rfl rfl rfl rfl fun u job hjob => ?_
  rw [InsertMap.get_set] at hjob
  split at hjob
  · cases hjob
    refine ⟨Nat.le_refl _, fun _ => (fun h => by cases h), fun below hb => Or.inl ?_⟩
    refine (h.done below hb).waiting t ?_
    rw [TtsSynthesis.waiting, hheld]
    exact List.mem_append_left _ (List.mem_singleton_self t)
  · exact h.fits hjob

theorem Silent.finish (w : Nat) : Silent { v with jobs := v.jobs.delete w } out := by
  refine h.retask rfl rfl rfl rfl fun u job hjob => ?_
  rw [InsertMap.get_delete] at hjob
  split_ifs at hjob
  exact h.fits hjob

theorem Silent.bargeIn (hs : { v with barge := .ending v.playback.enders.length }.onPlayback
      (.call (bargeInSteps true)) = some (v', es)) : Silent v' (out ++ es) := by
  rw [Voice.onPlayback, Option.map_eq_some_iff] at hs
  obtain ⟨⟨p, es'⟩, hs, heq⟩ := hs
  cases heq
  have hclean := h.clean.step (show v.playback.Meets (.call _) from trivial) hs
  have hends := h.ends.step hs
  cases hs
  rw [List.append_nil] at hclean hends
  rw [List.map_nil, List.append_nil]
  have hself : (v.playback.enders ++ [⟨bargeInSteps true, false⟩])[v.playback.enders.length]? =
      some ⟨bargeInSteps true, false⟩ := by
    rw [List.getElem?_append_right (Nat.le_refl _), Nat.sub_self]
    rfl
  refine ⟨hclean, hends, h.queued, h.epochs, fun k hk => ?_, fun hf => ?_, fun hr => ?_,
    fun below hb => (by cases hb), fun below hb => (by cases hb)⟩
  · cases hk
    exact ⟨_, hself, List.suffix_refl _⟩
  · obtain ⟨e, he, hno⟩ := hf
    rw [hself] at he
    cases he
    exact absurd (by decide) hno
  · obtain ⟨e, he, hno, -⟩ := hr
    rw [hself] at he
    cases he
    exact absurd (by decide) hno

theorem Silent.bargeCut {k : Nat} (hb : v.barge = .ending k) (hended : v.ended k = true)
    (hs : { v with barge := .cutting v.synthesis.cutOrder.2.1 }.onSynthesis .flushCut =
      some (v', es)) : Silent v' (out ++ es) := by
  have hnone : ∃ e, v.playback.enders[k]? = some e ∧ e.todo = [] := by
    rw [Voice.ended, Option.any_eq_true] at hended
    obtain ⟨e, he, hempty⟩ := hended
    exact ⟨e, he, List.isEmpty_iff.mp hempty⟩
  obtain ⟨e, he, hempty⟩ := hnone
  have hflushed : v.Flushed := by
    rw [Flushed, hb]
    exact ⟨e, he, by rw [hempty]; exact List.not_mem_nil⟩
  have hreported : v.Reported := by
    rw [Reported, hb]
    exact ⟨e, he, by rw [hempty]; exact ⟨List.not_mem_nil, List.not_mem_nil⟩⟩
  rw [Voice.onSynthesis, Option.map_eq_some_iff] at hs
  obtain ⟨⟨s, es'⟩, hs, heq⟩ := hs
  cases heq
  have hqueued := h.queued.step (TtsSynthesis.synthesisStep_of_step hs)
  have hcut : v.synthesis.cutOrder.2.1 ≤ s.order.state.cancelBelow := by
    cases hs
    have hbounded := h.queued.order.ordered.bounded
    obtain ⟨hbelow, -, hcancel⟩ := cut_fields v.synthesis.order.state hbounded
    show v.synthesis.order.state.cut.1.below ≤ v.synthesis.order.state.cut.2.cancelBelow
    rw [hbelow, hcancel]
  obtain ⟨hplay, hsyn⟩ := @of_synthesis β es'
  have hsame : playbackOf (out ++ es'.map VoiceEvent.synthesis) = playbackOf out := by
    rw [playbackOf_append, hplay, List.append_nil]
  have hc := h.cleared hflushed
  refine ⟨?_, ?_, ?_, h.epochs, fun k hk => (by cases hk), fun _ => ?_, fun _ => h.reported hreported,
    fun below hb => ?_, fun below hb => by cases hb⟩
  · rw [hsame]
    exact h.clean
  · rw [hsame]
    exact h.ends
  · rw [synthesisOf_append, hsyn]
    exact hqueued
  · rw [hsame]
    exact ⟨hc.bytes, hc.ledger, hc.jobs⟩
  · cases hb
    exact hcut

end

variable {below : Nat}

theorem Silent.bargeCollect (h : Silent v out) (hb : v.barge = .cutting below)
    (hs : { v.invalidate with barge := .done below }.onSynthesis (.flushCollect below) =
      some (v', es)) : Silent v' (out ++ es) := by
  have hflushed : v.Flushed := by
    rw [Flushed, hb]
    trivial
  have hreported : v.Reported := by
    rw [Reported, hb]
    trivial
  have hc := h.cleared hflushed
  rw [Voice.onSynthesis, Option.map_eq_some_iff] at hs
  obtain ⟨⟨s, es'⟩, hs, heq⟩ := hs
  cases heq
  have hqueued := h.queued.step (TtsSynthesis.synthesisStep_of_step hs)
  have hwaiting : ∀ t ∈ s.waiting, below ≤ t := by
    have hkept : { v.synthesis with flushes := v.synthesis.flushes.erase below }.Queued
        (synthesisOf out) := ⟨h.queued.order, h.queued.claimed⟩
    rw [TtsSynthesis.step] at hs
    split at hs <;> cases hs
    exact hkept.collected below
  have horder : s.order = v.synthesis.order := by
    rw [TtsSynthesis.step] at hs
    split at hs <;> cases hs
    rfl
  obtain ⟨hplay, hsyn⟩ := @of_synthesis β es'
  have hsame : playbackOf (out ++ es'.map VoiceEvent.synthesis) = playbackOf out := by
    rw [playbackOf_append, hplay, List.append_nil]
  refine ⟨?_, ?_, ?_, h.invalidate.epochs, fun k hk => (by cases hk), fun hf => hf.elim,
    fun hr => hr.elim, fun below hb => (by cases hb), fun below' hb' => ?_⟩
  · rw [hsame]
    exact h.clean
  · rw [hsame]
    exact h.ends
  · rw [synthesisOf_append, hsyn]
    exact hqueued
  · cases hb'
    rw [hsame]
    refine ⟨?_, hwaiting, fun w job hjob => Or.inr ⟨?_, hc.jobs w job hjob⟩, fun b hb' => ?_,
      fun id hid => ?_⟩
    · show below ≤ s.order.state.cancelBelow
      rw [horder]
      exact h.cutting below hb
    · exact Nat.lt_succ_of_le (h.epochs w job hjob)
    · rw [hc.bytes] at hb'
      cases hb'
    · replace hid : id ∈ v.playback.buffer.replyIds := hid
      rw [TtsBuffer.replyIds, hc.ledger, h.reported hreported] at hid
      cases hid

theorem Silent.step {i : VoiceInput β} (h : Silent v out) (hm : v.Meets i)
    (hs : v.step i = some (v', es)) : Silent v' (out ++ es) := by
  cases i with
  | synthesis i =>
    rw [Voice.step] at hs
    split_ifs at hs with hi
    exact h.onSynthesis (Or.inl hi) hs
  | collect below => exact h.invalidate.onSynthesis (Or.inr (Or.inr ⟨below, rfl⟩)) hs
  | take w stream =>
    rw [Voice.step] at hs
    split at hs
    · next hheld => exact (h.take hheld).onSynthesis (Or.inr (Or.inl ⟨w, Or.inl rfl⟩)) hs
    · exact h.onSynthesis (Or.inr (Or.inl ⟨w, Or.inl rfl⟩)) hs
  | job w i =>
    rw [Voice.step, Option.bind_eq_some_iff] at hs
    obtain ⟨job, hjob, hs⟩ := hs
    exact h.job hjob hm hs
  | finish w =>
    rw [Voice.step] at hs
    split at hs
    · exact (h.finish w).onSynthesis (Or.inr (Or.inl ⟨w, Or.inr rfl⟩)) hs
    · cases hs
  | playback i =>
    rw [Voice.step] at hs
    split_ifs at hs with hi
    refine h.onPlayback (fun c g r heq => ?_) hm.1 hm.2 hs
    rw [heq] at hi
    cases hi
  | bargeIn flushTts =>
    have htrue : flushTts = true := hm
    subst htrue
    rw [Voice.step] at hs
    split_ifs at hs
    exact h.bargeIn hs
  | bargeCut =>
    rw [Voice.step] at hs
    split at hs
    · next k hb =>
      split_ifs at hs with hended
      exact h.bargeCut hb hended hs
    · cases hs
  | bargeCollect =>
    rw [Voice.step] at hs
    split at hs
    · next below hb => exact h.bargeCollect hb hs
    · cases hs

theorem run_silent {inputs : List (VoiceInput β)} (ha : Along Voice.step Meets .new inputs)
    (hr : run Voice.step .new inputs = some (v, out)) : Silent v out :=
  run_history (I := fun _ out v => Silent v out) (fun _ _ _ _ _ _ h hm hs => h.step hm hs)
    Silent.new ha hr

/-! ### What a step puts out -/

/-- The bytes of the event come from sends from the cut on. -/
def After (below : Nat) : PlaybackEvent (Nat × β) → Prop
  | .enqueued bytes => ∀ b ∈ bytes, below ≤ b.1
  | .wrote frame => ∀ b ∈ frame.pcm, below ≤ b.1
  | _ => True

theorem After.still {e : PlaybackEvent (Nat × β)} (h : e.Still) : After below e := by
  cases e with
  | enqueued bytes | wrote frame => exact h.elim
  | _ => trivial

theorem After.single {e : PlaybackEvent (Nat × β)} {out : List (PlaybackEvent (Nat × β))}
    (hclean : p.Clean (out ++ [e])) (hbytes : ∀ b ∈ enqueuedSince (out ++ [e]), below ≤ b.1) :
    After below e := by
  cases e with
  | enqueued bytes =>
    intro b hb
    refine hbytes b ?_
    rw [(since_enqueued _ _).1]
    exact List.mem_append_right _ hb
  | wrote frame =>
    intro b hb
    refine hbytes b ?_
    rw [hclean.bytes, (since_wrote _ _).2]
    exact List.mem_append_left _ (List.mem_append_right _ hb)
  | _ => trivial

theorem replies_still (ts : List ReplyTransition) :
    ∀ e ∈ (ts.map .replyTransition : List (PlaybackEvent β)), e.Still := by
  intro e he
  obtain ⟨t, -, rfl⟩ := List.mem_map.mp he
  trivial

theorem flushed_still (rs : List FlushedReply) :
    ∀ e ∈ (rs.map .replyFlushed : List (PlaybackEvent β)), e.Still := by
  intro e he
  obtain ⟨r, -, rfl⟩ := List.mem_map.mp he
  trivial

theorem single_or_still {p p' : Playback β} {i : PlaybackInput β} {es : List (PlaybackEvent β)}
    (hs : p.step i = some (p', es)) : (∃ e, es = [e]) ∨ ∀ e ∈ es, e.Still := by
  have hnil : ∀ e ∈ ([] : List (PlaybackEvent β)), e.Still :=
    fun e he => absurd he List.not_mem_nil
  cases i with
  | drain =>
    rw [Playback.step, Option.map_eq_some_iff] at hs
    obtain ⟨d, -, heq⟩ := hs
    have hevents := p.stepDrain_events d
    rw [heq] at hevents
    dsimp only at hevents
    rcases hevents with h | ⟨e, h, -⟩ | ⟨ts, h⟩
    · rw [h]
      exact Or.inr hnil
    · exact Or.inl ⟨e, h⟩
    · rw [h]
      exact Or.inr (replies_still ts)
  | begin | writeFails | call todo =>
    rw [Playback.step] at hs
    split at hs <;> cases hs
    exact Or.inr hnil
  | enqueue chunks expect reply =>
    cases hs
    split
    · exact Or.inl ⟨_, rfl⟩
    · exact Or.inr hnil
  | setProducing producing | markReplyComplete id =>
    cases hs
    exact Or.inr hnil
  | flush =>
    cases hs
    exact Or.inl ⟨_, rfl⟩
  | ender k =>
    rw [Playback.step, Option.bind_eq_some_iff] at hs
    obtain ⟨e, -, hs⟩ := hs
    rw [Playback.stepEnder] at hs
    split at hs <;> cases hs
    · exact Or.inr hnil
    · exact Or.inl ⟨_, rfl⟩
    · exact Or.inr (flushed_still _)
    · exact Or.inl ⟨_, rfl⟩
    · exact Or.inr (endEvent_still _)

/-- A step beside the barge-in's own: it leaves the barge-in, and its events are those of one
step of the playback, or none of the playback. -/
structure Plain (v v' : Voice β) (es : List (VoiceEvent β)) : Prop where
  barge : v'.barge = v.barge
  events : playbackOf es = [] ∨ ∃ j p, v.playback.step j = some (p, playbackOf es)

theorem Plain.onPlayback {u : Voice β} {j : PlaybackInput (Nat × β)}
    (hs : u.onPlayback j = some (v', es)) (hplay : u.playback = v.playback)
    (hbarge : u.barge = v.barge) : Plain v v' es := by
  rw [Voice.onPlayback, Option.map_eq_some_iff] at hs
  obtain ⟨⟨p, es'⟩, hs, heq⟩ := hs
  cases heq
  refine ⟨hbarge, Or.inr ⟨j, p, ?_⟩⟩
  rw [(@of_playback β es').1, ← hplay]
  exact hs

theorem Plain.onSynthesis {u : Voice β} {j : SynthesisInput}
    (hs : u.onSynthesis j = some (v', es)) (hbarge : u.barge = v.barge) : Plain v v' es := by
  rw [Voice.onSynthesis, Option.map_eq_some_iff] at hs
  obtain ⟨⟨s, es'⟩, -, heq⟩ := hs
  cases heq
  exact ⟨hbarge, Or.inl (@of_synthesis β es').1⟩

theorem Plain.completeFor {u : Voice β} {job : SynthesisJob β}
    (hs : u.completeFor job = some (v', es)) (hplay : u.playback = v.playback)
    (hbarge : u.barge = v.barge) : Plain v v' es := by
  rw [Voice.completeFor] at hs
  split at hs
  · exact .onPlayback hs hplay hbarge
  · cases hs
    exact ⟨hbarge, Or.inl rfl⟩

theorem Plain.job {job : SynthesisJob β} {i : JobInput β}
    (hs : v.stepJob w job job.phase i = some (v', es)) : Plain v v' es := by
  unfold Voice.stepJob at hs
  split at hs
  case h_4 | h_10 => exact .onPlayback hs rfl rfl
  case h_9 | h_15 => exact .completeFor hs rfl rfl
  case h_6 =>
    split_ifs at hs
    exact .onPlayback hs rfl rfl
  case h_14 =>
    split at hs
    · cases hs
      exact ⟨rfl, Or.inl rfl⟩
    · split at hs
      · exact .onPlayback hs rfl rfl
      · cases hs
        exact ⟨rfl, Or.inl rfl⟩
  case h_3 | h_5 | h_8 | h_13 =>
    split at hs
    all_goals
      cases hs
      try exact ⟨rfl, Or.inl rfl⟩
  all_goals
    cases hs
    try exact ⟨rfl, Or.inl rfl⟩

theorem Plain.step {i : VoiceInput β} (hb : v.barge = .done below) (hs : v.step i = some (v', es)) :
    Plain v v' es := by
  cases i with rw [Voice.step] at hs
  | synthesis i | finish w =>
    split at hs
    · exact .onSynthesis hs rfl
    · cases hs
  | collect below => exact .onSynthesis hs rfl
  | take w stream =>
    split at hs <;> exact .onSynthesis hs rfl
  | job w i =>
    rw [Option.bind_eq_some_iff] at hs
    obtain ⟨job, -, hs⟩ := hs
    exact .job hs
  | playback i =>
    split_ifs at hs
    exact .onPlayback hs rfl rfl
  | bargeIn flushTts | bargeCut | bargeCollect =>
    rw [hb] at hs
    cases hs

theorem Silent.after {i : VoiceInput β} (h : Silent v out) (hm : v.Meets i)
    (hb : v.barge = .done below) (hs : v.step i = some (v', es)) :
    ∀ e ∈ playbackOf es, After below e := by
  have h' := h.step hm hs
  have hbytes := (h'.done below ((Plain.step hb hs).barge.trans hb)).bytes
  have hclean := h'.clean
  rw [playbackOf_append] at hbytes hclean
  rcases (Plain.step hb hs).events with hnone | ⟨j, p, hstep⟩
  · rw [hnone]
    exact fun e he => absurd he List.not_mem_nil
  · rcases single_or_still hstep with ⟨e, he⟩ | hstill
    · rw [he] at hbytes hclean ⊢
      intro e' he'
      rw [List.mem_singleton.mp he']
      exact .single hclean hbytes
    · exact fun e he => .still (hstill e he)

theorem Silent.run_after {more : List (VoiceInput β)} (h : Silent v out)
    (hb : v.barge = .done below) (ha : Along Voice.step Meets v more)
    (hr : run Voice.step v more = some (v', es)) : ∀ e ∈ playbackOf es, After below e := by
  induction more generalizing v out es with
  | nil =>
    cases hr
    exact fun e he => absurd he List.not_mem_nil
  | cons i more ih =>
    obtain ⟨u, es₁, es₂, hs, hrest, rfl⟩ := run_cons_eq_some.mp hr
    intro e he
    rw [playbackOf_append] at he
    rcases List.mem_append.mp he with he | he
    · exact h.after ha.1 hb hs e he
    · exact ih (h.step ha.1 hs) ((Plain.step hb hs).barge.trans hb) (ha.2 u es₁ hs) hrest e he

theorem Silent.reply_ended (h : Silent v out) (hb : v.barge = .done below) {id : ReplyId}
    (hid : ∀ t, v.synthesis.order.replyId? t = some id → t < below) :
    (playbackOf out).countP (·.replyStart id) ≤ (playbackOf out).countP (·.replyEnd id) := by
  have hends := h.ends id
  have hgone : id ∉ v.playback.buffer.replyIds := fun hmem => by
    obtain ⟨t, ht, hr⟩ := (h.done below hb).replies id hmem
    exact absurd (hid t hr) (Nat.not_lt.mpr ht)
  rw [TtsBuffer.replyIds, List.mem_append, not_or] at hgone
  have hflushed : v.playback.buffer.flushedReplies.countP (·.id == id) = 0 :=
    List.countP_eq_zero.mpr fun r hr heq => hgone.2 (List.mem_map.mpr ⟨r, hr, beq_iff_eq.mp heq⟩)
  have hledger : v.playback.buffer.replyLedger.countP (·.startedFor id) = 0 :=
    List.countP_eq_zero.mpr fun e he heq => by
      rw [ReplyLedgerEntry.startedFor, Bool.and_eq_true] at heq
      exact hgone.1 (List.mem_map.mpr ⟨e, he, beq_iff_eq.mp heq.2⟩)
  omega

end Voice

/-! ## The barge-in -/

/-- A send reaches the queue, and a barge-in runs to its end. -/
def bargedSend : List (VoiceInput Nat) :=
  [.synthesis (.send (.reserve none)), .synthesis (.send (.waitTurn 0)),
    .synthesis (.send (.enable 0)), .synthesis (.send (.check 0)),
    .synthesis (.send (.claim 0)), .bargeIn true] ++
    List.replicate 5 (.playback (.ender 0)) ++ [.bargeCut, .bargeCollect]

theorem meets_ender {v : Voice Nat} {k : Nat} (hpass : v.playback.pass = none)
    (hjobs : v.jobs = .empty) : v.Meets (.playback (.ender k)) := by
  refine ⟨fun e todo he htodo d hd => ?_, fun hf w job hjob => ?_⟩
  · rw [hpass] at hd
    cases hd
  · rw [hjobs] at hjob
    cases hjob

end NodeWebrtc.Speech
