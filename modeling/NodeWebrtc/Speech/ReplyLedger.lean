import Mathlib.Data.List.Nodup
import Mathlib.Data.List.ReduceOption
import NodeWebrtc.Lib.Machine
import NodeWebrtc.Speech.TtsBuffer

/-! # The reply ledger against the audio written

The ledger sees byte counts, not whose bytes they are. Here every byte carries the reply it
was enqueued for, so the ledger's books can be compared with the audio that was written.
-/

namespace NodeWebrtc.Speech

/-! ## The ledger as a queue of owed bytes -/

/-- The bytes the ledger still expects, reply by reply. -/
def owed (ledger : List ReplyLedgerEntry) : List ReplyId :=
  ledger.flatMap fun e => List.replicate e.owes e.replyId

/-- The ledger of replies queued one after another: only the newest may be incomplete, and only
the oldest has bytes written. -/
structure LedgerOrder (ledger : List ReplyLedgerEntry) : Prop where
  distinct : (ledger.map ReplyLedgerEntry.replyId).Nodup
  booked : ∀ e ∈ ledger, 0 < e.queuedBytes ∧ e.playedBytes ≤ e.queuedBytes ∧
    (e.started = true ↔ 0 < e.playedBytes)
  closed : ∀ e ∈ ledger.dropLast, e.complete = true
  untouched : ∀ e ∈ ledger.tail, e.playedBytes = 0

theorem LedgerOrder.rest {e : ReplyLedgerEntry} {rest : List ReplyLedgerEntry}
    (h : LedgerOrder (e :: rest)) : LedgerOrder rest := by
  refine ⟨(List.nodup_cons.mp h.distinct).2, fun f hf => h.booked f (List.mem_cons_of_mem e hf),
    fun f hf => h.closed f ?_, fun f hf => h.untouched f (List.mem_of_mem_tail hf)⟩
  cases rest with
  | nil => contradiction
  | cons g rest => exact List.mem_cons_of_mem e hf

theorem LedgerOrder.nil : LedgerOrder [] := ⟨List.nodup_nil, nofun, nofun, nofun⟩

variable {ledger : List ReplyLedgerEntry} {id : ReplyId}

theorem mem_owed (h : id ∈ owed ledger) : ∃ e ∈ ledger, e.replyId = id := by
  obtain ⟨e, he, hid⟩ := List.mem_flatMap.mp h
  exact ⟨e, he, (List.eq_of_mem_replicate hid).symm⟩

variable {e : ReplyLedgerEntry}

theorem LedgerOrder.head_fresh {rest : List ReplyLedgerEntry} (h : LedgerOrder (e :: rest))
    (bytes : Nat) : ((owed rest).take bytes).count e.replyId = 0 := by
  rw [List.count_eq_zero]
  intro hmem
  obtain ⟨f, hf, hid⟩ := mem_owed (List.mem_of_mem_take hmem)
  exact (List.nodup_cons.mp h.distinct).1 (List.mem_map.mpr ⟨f, hf, hid⟩)

/-- The boundaries an entry crosses when `take` of its bytes are written. -/
def ReplyLedgerEntry.crosses (e : ReplyLedgerEntry) (take : Nat) : List ReplyTransition :=
  (if 0 < take && !e.started then [e.startTransition] else []) ++
    if (e.book take).finished then [(e.book take).endTransition] else []

theorem ReplyLedgerEntry.book_zero (e : ReplyLedgerEntry) : e.book 0 = e := rfl

theorem LedgerOrder.unfinished (h : LedgerOrder ledger) (he : e ∈ ledger)
    (hplayed : e.playedBytes = 0) : e.finished = false := by
  have hstarted : ¬ e.started = true := fun hs => by
    have hpos := (h.booked e he).2.2.mp hs
    omega
  unfold ReplyLedgerEntry.finished
  rw [Bool.not_eq_true] at hstarted
  rw [hstarted, Bool.and_false, Bool.false_and]

theorem LedgerOrder.finishes (h : LedgerOrder ledger) (he : e ∈ ledger)
    (hcomplete : e.complete = true) {take : Nat} (htake : e.owes ≤ take) :
    (e.book take).finished = true := by
  obtain ⟨hqueued, hplayed, hstarted⟩ := h.booked e he
  unfold ReplyLedgerEntry.owes at htake
  unfold ReplyLedgerEntry.book
  by_cases hpos : 0 < take
  · rw [if_pos hpos]
    simp only [ReplyLedgerEntry.finished, hcomplete, Bool.true_and, decide_eq_true_eq]
    omega
  · rw [if_neg hpos]
    have hsome : 0 < e.playedBytes := by omega
    simp only [ReplyLedgerEntry.finished, hcomplete, hstarted.mpr hsome, Bool.true_and,
      decide_eq_true_eq]
    omega

/-- `consume_played` books to every entry the bytes that the written prefix of the owed bytes
holds for it, and drops the entries that finishes. -/
theorem consumeLedger_eq {ledger : List ReplyLedgerEntry} (h : LedgerOrder ledger) (bytes : Nat) :
    consumeLedger bytes ledger =
      (ledger.flatMap fun e => e.crosses (((owed ledger).take bytes).count e.replyId),
        (ledger.map fun e => e.book (((owed ledger).take bytes).count e.replyId)).filter
          fun e => !e.finished) := by
  induction ledger generalizing bytes with
  | nil => rfl
  | cons e rest ih =>
    have htaken : (owed (e :: rest)).take bytes =
        List.replicate (min bytes e.owes) e.replyId ++ (owed rest).take (bytes - e.owes) := by
      show (List.replicate e.owes e.replyId ++ owed rest).take bytes = _
      rw [List.take_append, List.take_replicate, List.length_replicate]
    have hhead : ((owed (e :: rest)).take bytes).count e.replyId = min bytes e.owes := by
      rw [htaken, List.count_append, List.count_replicate_self, h.head_fresh, Nat.add_zero]
    have hrest : ∀ f ∈ rest, ((owed (e :: rest)).take bytes).count f.replyId =
        ((owed rest).take (bytes - e.owes)).count f.replyId := by
      intro f hf
      have hne : e.replyId ≠ f.replyId := fun heq =>
        (List.nodup_cons.mp h.distinct).1 (List.mem_map.mpr ⟨f, hf, heq.symm⟩)
      rw [htaken, List.count_append, List.count_replicate, if_neg (by simpa using hne),
        Nat.zero_add]
    have hcrosses : (rest.flatMap fun f =>
        f.crosses (((owed (e :: rest)).take bytes).count f.replyId)) =
        rest.flatMap fun f => f.crosses (((owed rest).take (bytes - e.owes)).count f.replyId) :=
      List.flatMap_congr fun f hf => by rw [hrest f hf]
    have hbooks : (rest.map fun f =>
        f.book (((owed (e :: rest)).take bytes).count f.replyId)) =
        rest.map fun f => f.book (((owed rest).take (bytes - e.owes)).count f.replyId) :=
      List.map_congr_left fun f hf => by rw [hrest f hf]
    rw [List.flatMap_cons, List.map_cons, hhead, hcrosses, hbooks, consumeLedger]
    cases hfinished : (e.book (min bytes e.owes)).finished with
    | true =>
      have hleft : bytes - min bytes e.owes = bytes - e.owes := by omega
      rw [hleft, ih h.rest]
      simp [ReplyLedgerEntry.crosses, hfinished]
    | false =>
      -- The loop stops: all bytes are booked, or this is the newest reply.
      have hstop : ∀ f ∈ rest, ((owed rest).take (bytes - e.owes)).count f.replyId = 0 := by
        intro f hf
        have hcomplete : e.complete = true := by
          apply h.closed e
          cases rest with
          | nil => contradiction
          | cons g rest => exact List.mem_cons_self
        have hshort : bytes - e.owes = 0 := by
          by_contra hlong
          have hall : e.owes ≤ min bytes e.owes := by omega
          rw [h.finishes List.mem_cons_self hcomplete hall] at hfinished
          contradiction
        rw [hshort, List.take_zero, List.count_nil]
      have hopen : ∀ f ∈ rest, f.finished = false := fun f hf =>
        h.unfinished (List.mem_cons_of_mem e hf) (h.untouched f hf)
      have hnone : (rest.flatMap fun f =>
          f.crosses (((owed rest).take (bytes - e.owes)).count f.replyId)) = [] := by
        rw [List.flatMap_eq_nil_iff]
        intro f hf
        rw [hstop f hf]
        simp [ReplyLedgerEntry.crosses, ReplyLedgerEntry.book_zero, hopen f hf]
      have hsame : (rest.map fun f =>
          f.book (((owed rest).take (bytes - e.owes)).count f.replyId)) = rest := by
        conv_rhs => rw [← List.map_id rest]
        exact List.map_congr_left fun f hf => by rw [hstop f hf, ReplyLedgerEntry.book_zero, id]
      have hkeep : (rest.filter fun f => !f.finished) = rest := by
        rw [List.filter_eq_self]
        intro f hf
        rw [hopen f hf]
        rfl
      rw [hnone, hsame, List.filter_cons, hkeep]
      simp [ReplyLedgerEntry.crosses, hfinished]

/-! ### Changes of the ledger -/

theorem bookQueued_tail {old : List ReplyLedgerEntry} {tail : ReplyLedgerEntry}
    (hopen : tail.complete = false) (firstChunkMs : Option Nat) (bytes : Nat) :
    bookQueued (old ++ [tail]) tail.replyId firstChunkMs bytes = old ++ [tail.addQueued bytes] := by
  unfold bookQueued
  simp [hopen]

theorem bookQueued_new (hfresh : ∀ e ∈ ledger, e.replyId ≠ id) (firstChunkMs : Option Nat)
    (bytes : Nat) :
    bookQueued ledger id firstChunkMs bytes = ledger ++ [.opened id firstChunkMs bytes] := by
  unfold bookQueued
  cases hlast : ledger.getLast? with
  | none => rfl
  | some tail =>
    have hne := hfresh tail (List.mem_of_getLast? hlast)
    simp [hne]

theorem owed_append (ledger more : List ReplyLedgerEntry) :
    owed (ledger ++ more) = owed ledger ++ owed more := List.flatMap_append

theorem owed_singleton (e : ReplyLedgerEntry) : owed [e] = List.replicate e.owes e.replyId :=
  List.flatMap_singleton _ _

theorem completeFirst_eq (h : (ledger.map ReplyLedgerEntry.replyId).Nodup) :
    completeFirst id ledger =
      ledger.map fun e => if e.replyId = id then { e with complete := true } else e := by
  induction ledger with
  | nil => rfl
  | cons e rest ih =>
    rw [completeFirst, List.map_cons]
    by_cases hid : e.replyId = id
    · rw [if_pos hid, if_pos hid]
      congr 1
      conv_lhs => rw [← List.map_id rest]
      apply List.map_congr_left
      intro f hf
      have hne : f.replyId ≠ id := fun heq =>
        (List.nodup_cons.mp h).1 (List.mem_map.mpr ⟨f, hf, heq.trans hid.symm⟩)
      rw [if_neg hne]
      rfl
    · rw [if_neg hid, if_neg hid, ih (List.nodup_cons.mp h).2]

theorem LedgerOrder.single (h : LedgerOrder ledger) {f : ReplyLedgerEntry → ReplyLedgerEntry}
    (hid : ∀ e, (f e).replyId = e.replyId)
    (hbytes : ∀ e, (f e).queuedBytes = e.queuedBytes ∧ (f e).playedBytes = e.playedBytes ∧
      (f e).started = e.started) (hcomplete : ∀ e, e.complete = true → (f e).complete = true) :
    LedgerOrder (ledger.map f) := by
  refine ⟨?_, fun e he => ?_, fun e he => ?_, fun e he => ?_⟩
  · rw [List.map_map]
    have hsame : (ReplyLedgerEntry.replyId ∘ f) = ReplyLedgerEntry.replyId := funext hid
    rw [hsame]
    exact h.distinct
  · obtain ⟨g, hg, rfl⟩ := List.mem_map.mp he
    rw [(hbytes g).1, (hbytes g).2.1, (hbytes g).2.2]
    exact h.booked g hg
  · rw [← List.map_dropLast] at he
    obtain ⟨g, hg, rfl⟩ := List.mem_map.mp he
    exact hcomplete g (h.closed g hg)
  · rw [← List.map_tail] at he
    obtain ⟨g, hg, rfl⟩ := List.mem_map.mp he
    rw [(hbytes g).2.1]
    exact h.untouched g hg

theorem LedgerOrder.grow {old : List ReplyLedgerEntry} {tail : ReplyLedgerEntry}
    (h : LedgerOrder (old ++ [tail])) (bytes : Nat) :
    LedgerOrder (old ++ [tail.addQueued bytes]) := by
  have htail := h.booked tail (List.mem_append_right _ List.mem_cons_self)
  refine ⟨?_, fun e he => ?_, fun e he => ?_, fun e he => ?_⟩
  · have hdistinct := h.distinct
    rw [List.map_append] at hdistinct ⊢
    exact hdistinct
  · rcases List.mem_append.mp he with he | he
    · exact h.booked e (List.mem_append_left _ he)
    · rw [List.mem_singleton.mp he]
      exact ⟨Nat.add_pos_left htail.1 _, Nat.le_add_right_of_le htail.2.1, htail.2.2⟩
  · rw [List.dropLast_concat] at he
    exact h.closed e (by rwa [List.dropLast_concat])
  · cases old with
    | nil => contradiction
    | cons first old =>
      have huntouched := h.untouched
      rcases List.mem_append.mp he with he | he
      · exact huntouched e (List.mem_append_left _ he)
      · rw [List.mem_singleton.mp he]
        exact huntouched tail (List.mem_append_right _ List.mem_cons_self)

theorem LedgerOrder.enter (h : LedgerOrder ledger) (hclosed : ∀ e ∈ ledger, e.complete = true)
    (hfresh : ∀ e ∈ ledger, e.replyId ≠ id) (firstChunkMs : Option Nat) {bytes : Nat}
    (hbytes : 0 < bytes) : LedgerOrder (ledger ++ [.opened id firstChunkMs bytes]) := by
  refine ⟨?_, fun e he => ?_, fun e he => ?_, fun e he => ?_⟩
  · rw [List.map_append]
    refine List.nodup_append.mpr ⟨h.distinct, List.pairwise_singleton _ _, ?_⟩
    intro a ha b hb
    obtain ⟨e, he, rfl⟩ := List.mem_map.mp ha
    rw [List.mem_singleton.mp hb]
    exact hfresh e he
  · rcases List.mem_append.mp he with he | he
    · exact h.booked e he
    · rw [List.mem_singleton.mp he]
      exact ⟨hbytes, Nat.zero_le _, by simp [ReplyLedgerEntry.opened]⟩
  · rw [List.dropLast_concat] at he
    exact hclosed e he
  · cases ledger with
    | nil => contradiction
    | cons first rest =>
      rcases List.mem_append.mp he with he | he
      · exact h.untouched e he
      · rw [List.mem_singleton.mp he]
        rfl

theorem book_keeps (e : ReplyLedgerEntry) (take : Nat) :
    (e.book take).replyId = e.replyId ∧ (e.book take).queuedBytes = e.queuedBytes ∧
      (e.book take).complete = e.complete ∧ (e.book take).playedBytes = e.playedBytes + take := by
  unfold ReplyLedgerEntry.book
  by_cases hpos : 0 < take
  · rw [if_pos hpos]
    exact ⟨rfl, rfl, rfl, rfl⟩
  · rw [if_neg hpos]
    exact ⟨rfl, rfl, rfl, by omega⟩

theorem book_started (e : ReplyLedgerEntry) (take : Nat) :
    (e.book take).started = true ↔ e.started = true ∨ 0 < take := by
  unfold ReplyLedgerEntry.book
  by_cases hpos : 0 < take <;> simp [hpos]

theorem LedgerOrder.book {rest : List ReplyLedgerEntry} (h : LedgerOrder (e :: rest)) {take : Nat}
    (htake : take ≤ e.owes) :
    LedgerOrder (e.book take :: rest) := by
  obtain ⟨hid, hqueued, hcomplete, hplayed⟩ := book_keeps e take
  obtain ⟨hsome, hle, hstarted⟩ := h.booked e List.mem_cons_self
  refine ⟨?_, fun f hf => ?_, fun f hf => ?_, h.untouched⟩
  · rw [List.map_cons, hid]
    exact h.distinct
  · rcases List.mem_cons.mp hf with rfl | hf
    · unfold ReplyLedgerEntry.owes at htake
      rw [hqueued, book_started, hstarted]
      exact ⟨hsome, by omega, by omega⟩
    · exact h.booked f (List.mem_cons_of_mem e hf)
  · cases rest with
    | nil => contradiction
    | cons g rest =>
      rcases List.mem_cons.mp hf with rfl | hf
      · rw [hcomplete]
        exact h.closed e List.mem_cons_self
      · exact h.closed f (List.mem_cons_of_mem e hf)

theorem LedgerOrder.consume {ledger : List ReplyLedgerEntry} (h : LedgerOrder ledger)
    (bytes : Nat) : LedgerOrder (consumeLedger bytes ledger).2 := by
  induction ledger generalizing bytes with
  | nil => exact h
  | cons e rest ih =>
    rw [consumeLedger]
    cases (e.book (min bytes e.owes)).finished with
    | true => exact ih h.rest _
    | false => exact h.book (Nat.min_le_right _ _)

/-! ## The buffer and its drain -/

/-- The buffer with one drain worker. A byte is labelled with the reply it was enqueued for.
`hand` is what the current drain pass holds, `written` what went to the outbound track. -/
structure Outbound where
  buffer : TtsBuffer (Option ReplyId)
  hand : List (Option ReplyId)
  written : List (Option ReplyId)
deriving DecidableEq, Repr

inductive OutboundOp where
  | enqueue (chunks : List (TtsAudioChunk (Option ReplyId))) (expectGeneration : Option Nat)
      (reply : Option (ReplyId × Option Nat))
  | markReplyComplete (id : ReplyId)
  | setProducing (producing : Bool)
  | takeFrameCarry
  | popChunk
  /-- The first `bytes` in hand are written and booked; none after a pass. -/
  | write (bytes : Nat)
  | storeFrameCarry
  | dropHold
  | flush
  | takeFlushedReplies
deriving DecidableEq, Repr

namespace Outbound

def new : Outbound := ⟨.new, [], []⟩

/-- The audio accepted and not yet written, oldest byte first. -/
def waiting (o : Outbound) : List (Option ReplyId) :=
  o.hand ++ o.buffer.frameCarry ++ o.buffer.queue.flatMap TtsAudioChunk.pcm

def fresh (o : Outbound) (id : ReplyId) : Bool :=
  o.buffer.replyLedger.all (fun e => e.complete && e.replyId != id) && !o.written.contains (some id)

def current (o : Outbound) (id : ReplyId) : Bool :=
  o.buffer.replyLedger.getLast?.any fun tail => !tail.complete && tail.replyId == id

/-- What the callers keep to: bytes carry the tag they are enqueued under, replies come one
at a time, and the drain writes in FIFO order. -/
def allows (o : Outbound) : OutboundOp → Bool
  | .enqueue chunks expectGeneration reply =>
    (chunks.all fun c => c.pcm.all fun b => b == reply.map Prod.fst) &&
      (!o.buffer.accepts chunks expectGeneration ||
        reply.all fun r => o.current r.1 || o.fresh r.1)
  | .takeFrameCarry => o.hand.isEmpty
  | .popChunk => o.buffer.frameCarry.isEmpty
  | .write bytes => decide (bytes ≤ o.hand.length)
  | .storeFrameCarry => o.buffer.frameCarry.isEmpty
  | _ => true

def apply (o : Outbound) : OutboundOp → Outbound × List ReplyTransition
  | .enqueue chunks expectGeneration reply =>
    ({ o with
      buffer := (o.buffer.enqueueTaggedIfGeneration chunks expectGeneration reply).2 }, [])
  | .markReplyComplete id => ({ o with buffer := o.buffer.markReplyComplete id }, [])
  | .setProducing producing => ({ o with buffer := o.buffer.setProducing producing }, [])
  | .takeFrameCarry =>
    ({ o with buffer := o.buffer.takeFrameCarry.2, hand := o.buffer.takeFrameCarry.1 }, [])
  | .popChunk =>
    ({ o with
      buffer := (o.buffer.popChunkMarking true).2
      hand := o.hand ++ ((o.buffer.popChunkMarking true).1.map TtsAudioChunk.pcm).getD [] }, [])
  | .write bytes =>
    ({ buffer := (o.buffer.consumePlayed bytes).2
       hand := o.hand.drop bytes
       written := o.written ++ o.hand.take bytes }, (o.buffer.consumePlayed bytes).1)
  | .storeFrameCarry => ({ o with buffer := o.buffer.storeFrameCarry o.hand, hand := [] }, [])
  | .dropHold => ({ o with buffer := o.buffer.dropHold }, [])
  -- A pass finds the new generation and stops before its next write.
  | .flush => ({ o with buffer := o.buffer.flush, hand := [] }, [])
  | .takeFlushedReplies => ({ o with buffer := o.buffer.takeFlushedReplies.2 }, [])

def step (o : Outbound) (op : OutboundOp) : Option (Outbound × List ReplyTransition) :=
  if o.allows op then some (o.apply op) else none

/-- The books are right: the bytes still owed are the tagged bytes not yet written, in order,
and each entry counts its own reply's bytes. -/
structure Follows (o : Outbound) : Prop where
  owes : owed o.buffer.replyLedger = o.waiting.reduceOption
  played : ∀ e ∈ o.buffer.replyLedger, e.playedBytes = o.written.count (some e.replyId)
  queued : ∀ e ∈ o.buffer.replyLedger, e.queuedBytes =
    o.written.count (some e.replyId) + o.waiting.count (some e.replyId)

/-- The write holds no untagged byte, or leaves no tagged byte unwritten. -/
def BooksOwn (o : Outbound) : OutboundOp → Prop
  | .write bytes => none ∉ o.waiting.take bytes ∨ (o.waiting.drop bytes).reduceOption = []
  | _ => True

/-! ### What the ledger keeps on any run -/

variable {o : Outbound} {id : ReplyId}

theorem fresh_spec (h : o.fresh id = true) :
    (∀ e ∈ o.buffer.replyLedger, e.complete = true) ∧
      (∀ e ∈ o.buffer.replyLedger, e.replyId ≠ id) ∧ some id ∉ o.written := by
  unfold fresh at h
  rw [Bool.and_eq_true, List.all_eq_true] at h
  refine ⟨fun e he => ?_, fun e he => ?_, by simpa using h.2⟩
  · have hboth := h.1 e he
    rw [Bool.and_eq_true] at hboth
    exact hboth.1
  · have hboth := h.1 e he
    rw [Bool.and_eq_true] at hboth
    simpa using hboth.2

theorem current_spec (h : o.current id = true) :
    ∃ old tail, o.buffer.replyLedger = old ++ [tail] ∧ tail.complete = false ∧
      tail.replyId = id := by
  unfold current at h
  rw [Option.any_eq_true] at h
  obtain ⟨tail, hlast, htail⟩ := h
  obtain ⟨old, hledger⟩ := List.getLast?_eq_some_iff.mp hlast
  exact ⟨old, tail, hledger, by simpa using htail⟩

theorem enqueue_cases (b : TtsBuffer (Option ReplyId))
    (chunks : List (TtsAudioChunk (Option ReplyId))) (expectGeneration : Option Nat)
    (reply : Option (ReplyId × Option Nat)) :
    (b.accepts chunks expectGeneration = false ∧
        (b.enqueueTaggedIfGeneration chunks expectGeneration reply).2 = b) ∨
      (b.accepts chunks expectGeneration = true ∧
        ∃ b', (b.enqueueTaggedIfGeneration chunks expectGeneration reply).2 = b' ∧
          b'.frameCarry = b.frameCarry ∧ b'.queue = b.queue ++ chunks ∧
          ((b'.replyLedger = b.replyLedger ∧
              (reply = none ∨ (chunks.flatMap TtsAudioChunk.pcm).length = 0)) ∨
            ∃ id ms, reply = some (id, ms) ∧ 0 < (chunks.flatMap TtsAudioChunk.pcm).length ∧
              b'.replyLedger = bookQueued b.replyLedger id ms
                (chunks.flatMap TtsAudioChunk.pcm).length)) := by
  have hlength : (chunks.map fun c => c.pcm.length).sum =
      (chunks.flatMap TtsAudioChunk.pcm).length := List.length_flatMap.symm
  unfold TtsBuffer.enqueueTaggedIfGeneration
  cases haccepts : b.accepts chunks expectGeneration with
  | false => exact .inl ⟨rfl, rfl⟩
  | true =>
    refine .inr ⟨rfl, _, rfl, rfl, rfl, ?_⟩
    rw [hlength]
    cases reply with
    | none => exact .inl ⟨rfl, .inl rfl⟩
    | some r =>
      obtain ⟨id, ms⟩ := r
      dsimp only
      by_cases hpos : 0 < (chunks.flatMap TtsAudioChunk.pcm).length <;> rw [if_pos rfl]
      · rw [if_pos hpos]
        exact .inr ⟨id, ms, rfl, hpos, rfl⟩
      · rw [if_neg hpos]
        exact .inl ⟨rfl, .inr (Nat.eq_zero_of_not_pos hpos)⟩

theorem allows_enqueue {chunks : List (TtsAudioChunk (Option ReplyId))}
    {expectGeneration : Option Nat} {reply : Option (ReplyId × Option Nat)}
    (h : o.allows (.enqueue chunks expectGeneration reply) = true) :
    chunks.flatMap TtsAudioChunk.pcm =
        List.replicate (chunks.flatMap TtsAudioChunk.pcm).length (reply.map Prod.fst) ∧
      ∀ id ms, o.buffer.accepts chunks expectGeneration = true → reply = some (id, ms) →
        o.current id = true ∨ o.fresh id = true := by
  rw [allows, Bool.and_eq_true, List.all_eq_true] at h
  refine ⟨List.eq_replicate_of_mem fun b hb => ?_, fun id ms haccepts hreply => ?_⟩
  · obtain ⟨c, hc, hb⟩ := List.mem_flatMap.mp hb
    exact beq_iff_eq.mp (List.all_eq_true.mp (h.1 c hc) b hb)
  · have hturn := h.2
    rw [haccepts, hreply] at hturn
    simpa using hturn

theorem markReplyComplete_ledger (b : TtsBuffer (Option ReplyId)) (id : ReplyId)
    (h : LedgerOrder b.replyLedger) : (b.markReplyComplete id).replyLedger =
      b.replyLedger.map fun e => if e.replyId = id then { e with complete := true } else e := by
  show (completeFirst id b.replyLedger.reverse).reverse = _
  rw [completeFirst_eq (by rw [List.map_reverse]; exact List.nodup_reverse.mpr h.distinct),
    List.map_reverse, List.reverse_reverse]

theorem apply_ordered {op : OutboundOp} (h : LedgerOrder o.buffer.replyLedger)
    (hallows : o.allows op = true) : LedgerOrder (o.apply op).1.buffer.replyLedger := by
  cases op with
  | enqueue chunks expectGeneration reply =>
    obtain ⟨-, hturn⟩ := allows_enqueue hallows
    show LedgerOrder (o.buffer.enqueueTaggedIfGeneration chunks expectGeneration reply).2.replyLedger
    rcases enqueue_cases o.buffer chunks expectGeneration reply with ⟨-, hsame⟩ |
      ⟨haccepts, b', hb', -, -, ⟨hledger, -⟩ | ⟨id, ms, hreply, hpos, hledger⟩⟩
    · rw [hsame]
      exact h
    · rw [hb', hledger]
      exact h
    · rw [hb', hledger]
      rcases hturn id ms haccepts hreply with hcurrent | hfresh
      · obtain ⟨old, tail, hold, hopen, rfl⟩ := current_spec hcurrent
        rw [hold] at h ⊢
        rw [bookQueued_tail hopen]
        exact h.grow _
      · obtain ⟨hclosed, hother, -⟩ := fresh_spec hfresh
        rw [bookQueued_new hother]
        exact h.enter hclosed hother ms hpos
  | markReplyComplete id =>
    show LedgerOrder (o.buffer.markReplyComplete id).replyLedger
    rw [markReplyComplete_ledger _ _ h]
    apply h.single
    · intro e
      split <;> rfl
    · intro e
      split <;> exact ⟨rfl, rfl, rfl⟩
    · intro e he
      split
      · rfl
      · exact he
  | setProducing producing =>
    cases producing with
    | true | false => exact h
  | popChunk =>
    show LedgerOrder (o.buffer.popChunkMarking true).2.replyLedger
    unfold TtsBuffer.popChunkMarking
    split <;> exact h
  | write bytes => exact h.consume bytes
  | flush => exact LedgerOrder.nil
  | takeFrameCarry | storeFrameCarry | dropHold | takeFlushedReplies => exact h

/-! ### Books that follow the audio -/

theorem count_reduceOption (bytes : List (Option ReplyId)) (id : ReplyId) :
    bytes.reduceOption.count id = bytes.count (some id) := by
  induction bytes with
  | nil => rfl
  | cons b bytes ih =>
    cases b with
    | none => rw [List.reduceOption_cons_of_none, ih, List.count_cons_of_ne (by simp)]
    | some r =>
      rw [List.reduceOption_cons_of_some, List.count_cons, List.count_cons, ih]
      simp

theorem reduceOption_replicate_some (n : Nat) (id : ReplyId) :
    (List.replicate n (some id)).reduceOption = List.replicate n id := by
  induction n with
  | zero => rfl
  | succ n ih => rw [List.replicate_succ, List.replicate_succ, List.reduceOption_cons_of_some, ih]

theorem Follows.none_waits (h : o.Follows) (hother : ∀ e ∈ o.buffer.replyLedger, e.replyId ≠ id) :
    o.waiting.count (some id) = 0 := by
  rw [← count_reduceOption, ← h.owes, List.count_eq_zero]
  intro hmem
  obtain ⟨e, he, hid⟩ := mem_owed hmem
  exact hother e he hid

variable {o' : Outbound}

theorem Follows.keep (h : o.Follows) (hwaiting : o'.waiting = o.waiting)
    (hwritten : o'.written = o.written) {f : ReplyLedgerEntry → ReplyLedgerEntry}
    (hledger : o'.buffer.replyLedger = o.buffer.replyLedger.map f)
    (hbooks : ∀ e, (f e).replyId = e.replyId ∧ (f e).queuedBytes = e.queuedBytes ∧
      (f e).playedBytes = e.playedBytes) : o'.Follows := by
  refine ⟨?_, fun e he => ?_, fun e he => ?_⟩
  · rw [hledger, hwaiting, ← h.owes]
    unfold owed
    rw [List.flatMap_map]
    apply List.flatMap_congr
    intro e _
    unfold ReplyLedgerEntry.owes
    rw [(hbooks e).1, (hbooks e).2.1, (hbooks e).2.2]
  · rw [hledger] at he
    obtain ⟨g, hg, rfl⟩ := List.mem_map.mp he
    rw [(hbooks g).1, (hbooks g).2.2, hwritten]
    exact h.played g hg
  · rw [hledger] at he
    obtain ⟨g, hg, rfl⟩ := List.mem_map.mp he
    rw [(hbooks g).1, (hbooks g).2.1, hwritten, hwaiting]
    exact h.queued g hg

theorem Follows.same (h : o.Follows) (hwaiting : o'.waiting = o.waiting)
    (hwritten : o'.written = o.written) (hledger : o'.buffer.replyLedger = o.buffer.replyLedger) :
    o'.Follows :=
  h.keep hwaiting hwritten (hledger.trans (List.map_id _).symm) fun _ => ⟨rfl, rfl, rfl⟩

theorem Follows.untagged (h : o.Follows) (n : Nat)
    (hwaiting : o'.waiting = o.waiting ++ List.replicate n none) (hwritten : o'.written = o.written)
    (hledger : o'.buffer.replyLedger = o.buffer.replyLedger) : o'.Follows := by
  refine ⟨?_, fun e he => ?_, fun e he => ?_⟩
  · rw [hledger, hwaiting, List.reduceOption_append, List.reduceOption_replicate_none,
      List.append_nil]
    exact h.owes
  · rw [hledger] at he
    rw [hwritten]
    exact h.played e he
  · rw [hledger] at he
    rw [hwritten, hwaiting, List.count_append, List.count_replicate]
    exact h.queued e he

theorem Follows.grow (h : o.Follows) (horder : LedgerOrder o.buffer.replyLedger)
    {old : List ReplyLedgerEntry} {tail : ReplyLedgerEntry} {n : Nat}
    (hold : o.buffer.replyLedger = old ++ [tail])
    (hwaiting : o'.waiting = o.waiting ++ List.replicate n (some tail.replyId))
    (hwritten : o'.written = o.written)
    (hledger : o'.buffer.replyLedger = old ++ [tail.addQueued n]) : o'.Follows := by
  have htail : tail ∈ o.buffer.replyLedger := hold ▸ List.mem_append_right _ List.mem_cons_self
  have hle := (horder.booked tail htail).2.1
  refine ⟨?_, fun e he => ?_, fun e he => ?_⟩
  · have howes := h.owes
    have hmore : (tail.addQueued n).owes = tail.owes + n := by
      show tail.queuedBytes + n - tail.playedBytes = tail.queuedBytes - tail.playedBytes + n
      omega
    rw [hold, owed_append, owed_singleton] at howes
    rw [hledger, hwaiting, List.reduceOption_append, ← howes, owed_append, owed_singleton, hmore,
      reduceOption_replicate_some, List.replicate_add, List.append_assoc]
    rfl
  · rw [hledger] at he
    rw [hwritten]
    rcases List.mem_append.mp he with he | he
    · exact h.played e (hold ▸ List.mem_append_left _ he)
    · rw [List.mem_singleton.mp he]
      exact h.played tail htail
  · rw [hledger] at he
    rw [hwritten, hwaiting, List.count_append, List.count_replicate]
    rcases List.mem_append.mp he with he | he
    · have hne : tail.replyId ≠ e.replyId := by
        have hdistinct := horder.distinct
        rw [hold, List.map_append, List.nodup_append] at hdistinct
        exact fun heq => hdistinct.2.2 _ (List.mem_map_of_mem he) _ List.mem_cons_self heq.symm
      rw [if_neg (by simpa using hne)]
      exact h.queued e (hold ▸ List.mem_append_left _ he)
    · rw [List.mem_singleton.mp he]
      have hqueued := h.queued tail htail
      show tail.queuedBytes + n = o.written.count (some tail.replyId) +
        (o.waiting.count (some tail.replyId) +
          if (some tail.replyId == some tail.replyId) = true then n else 0)
      rw [if_pos (beq_self_eq_true _)]
      omega

theorem Follows.enter (h : o.Follows) {ms : Option Nat} {n : Nat}
    (hother : ∀ e ∈ o.buffer.replyLedger, e.replyId ≠ id) (hunwritten : some id ∉ o.written)
    (hwaiting : o'.waiting = o.waiting ++ List.replicate n (some id))
    (hwritten : o'.written = o.written)
    (hledger : o'.buffer.replyLedger = o.buffer.replyLedger ++ [.opened id ms n]) :
    o'.Follows := by
  have hzero := List.count_eq_zero.mpr hunwritten
  refine ⟨?_, fun e he => ?_, fun e he => ?_⟩
  · rw [hledger, hwaiting, List.reduceOption_append, ← h.owes, owed_append, owed_singleton,
      reduceOption_replicate_some]
    rfl
  · rw [hledger] at he
    rw [hwritten]
    rcases List.mem_append.mp he with he | he
    · exact h.played e he
    · rw [List.mem_singleton.mp he]
      exact hzero.symm
  · rw [hledger] at he
    rw [hwritten, hwaiting, List.count_append, List.count_replicate]
    rcases List.mem_append.mp he with he | he
    · rw [if_neg (by simpa using (hother e he).symm)]
      exact h.queued e he
    · rw [List.mem_singleton.mp he]
      have hnone := h.none_waits hother
      show n = o.written.count (some id) +
        (o.waiting.count (some id) + if (some id == some id) = true then n else 0)
      rw [if_pos (beq_self_eq_true _)]
      omega

theorem owed_consume {ledger : List ReplyLedgerEntry} (h : LedgerOrder ledger) (bytes : Nat) :
    owed (consumeLedger bytes ledger).2 = (owed ledger).drop bytes := by
  induction ledger generalizing bytes with
  | nil => exact List.drop_nil.symm
  | cons e rest ih =>
    have hdrop : (owed (e :: rest)).drop bytes =
        List.replicate (e.owes - bytes) e.replyId ++ (owed rest).drop (bytes - e.owes) := by
      show (List.replicate e.owes e.replyId ++ owed rest).drop bytes = _
      rw [List.drop_append, List.drop_replicate, List.length_replicate]
    obtain ⟨hid, hqueued, hcomplete, hplayed⟩ := book_keeps e (min bytes e.owes)
    rw [hdrop, consumeLedger]
    cases hfinished : (e.book (min bytes e.owes)).finished with
    | true =>
      have hall : e.owes ≤ bytes := by
        unfold ReplyLedgerEntry.finished at hfinished
        rw [Bool.and_eq_true, decide_eq_true_eq, hqueued, hplayed] at hfinished
        unfold ReplyLedgerEntry.owes at hfinished ⊢
        omega
      have hleft : bytes - min bytes e.owes = bytes - e.owes := by omega
      rw [Nat.sub_eq_zero_of_le hall, hleft]
      exact ih h.rest _
    | false =>
      have howes : (e.book (min bytes e.owes)).owes = e.owes - bytes := by
        show (e.book (min bytes e.owes)).queuedBytes - (e.book (min bytes e.owes)).playedBytes = _
        rw [hqueued, hplayed]
        unfold ReplyLedgerEntry.owes
        omega
      have hrest : (owed rest).drop (bytes - e.owes) = owed rest := by
        cases rest with
        | nil => exact List.drop_nil
        | cons g rest =>
          have hdone : e.complete = true := h.closed e List.mem_cons_self
          have hshort : bytes - e.owes = 0 := by
            by_contra hlong
            have hall : e.owes ≤ min bytes e.owes := by omega
            rw [h.finishes List.mem_cons_self hdone hall] at hfinished
            contradiction
          rw [hshort, List.drop_zero]
      rw [hrest]
      show List.replicate (e.book _).owes (e.book _).replyId ++ owed rest = _
      rw [howes, hid]

variable {bytes : Nat} {e : ReplyLedgerEntry}

theorem mem_consume {ledger : List ReplyLedgerEntry} (h : LedgerOrder ledger)
    (he : e ∈ (consumeLedger bytes ledger).2) :
    ∃ g ∈ ledger, e = g.book (((owed ledger).take bytes).count g.replyId) ∧ e.finished = false := by
  rw [consumeLedger_eq h] at he
  obtain ⟨hmem, hopen⟩ := List.mem_filter.mp he
  obtain ⟨g, hg, rfl⟩ := List.mem_map.mp hmem
  exact ⟨g, hg, rfl, by simpa using hopen⟩

theorem waiting_write (hle : bytes ≤ o.hand.length) :
    (o.apply (.write bytes)).1.waiting = o.waiting.drop bytes ∧
      (o.apply (.write bytes)).1.written = o.written ++ o.waiting.take bytes := by
  constructor
  · show o.hand.drop bytes ++ o.buffer.frameCarry ++ _ = (o.hand ++ o.buffer.frameCarry ++ _).drop _
    rw [List.append_assoc, List.append_assoc, List.drop_append_of_le_length hle]
    rfl
  · show o.written ++ o.hand.take bytes = _ ++ (o.hand ++ o.buffer.frameCarry ++ _).take _
    rw [List.append_assoc, List.take_append_of_le_length hle]

theorem booksOwn_iff (h : o.Follows) (hle : bytes ≤ o.hand.length) :
    o.BooksOwn (.write bytes) ↔
      (owed o.buffer.replyLedger).drop bytes = (o.waiting.drop bytes).reduceOption := by
  have hsplit : owed o.buffer.replyLedger =
      (o.waiting.take bytes).reduceOption ++ (o.waiting.drop bytes).reduceOption := by
    rw [h.owes, ← List.reduceOption_append, List.take_append_drop]
  have hlength : (o.waiting.take bytes).length = bytes := by
    rw [List.length_take]
    unfold waiting
    rw [List.length_append, List.length_append]
    omega
  have hshort := List.reduceOption_length_le (o.waiting.take bytes)
  have hfull := List.reduceOption_length_lt_iff (l := o.waiting.take bytes)
  rw [hlength] at hshort hfull
  show none ∉ o.waiting.take bytes ∨ (o.waiting.drop bytes).reduceOption = [] ↔ _
  rw [hsplit, ← hfull]
  constructor
  · intro hbooks
    rcases hbooks with hown | hnone
    · exact List.drop_left' (Nat.le_antisymm hshort (Nat.le_of_not_lt hown))
    · rw [hnone, List.append_nil]
      exact List.drop_of_length_le hshort
  · intro hbooks
    have hcount := congrArg List.length hbooks
    rw [List.length_drop, List.length_append] at hcount
    by_cases hnone : (o.waiting.drop bytes).reduceOption = []
    · exact .inr hnone
    · have hpos := List.length_pos_of_ne_nil hnone
      omega

theorem BooksOwn.takes (h : o.Follows) (hle : bytes ≤ o.hand.length)
    (hbooks : o.BooksOwn (.write bytes)) :
    (owed o.buffer.replyLedger).take bytes = (o.waiting.take bytes).reduceOption := by
  have hdrop := (booksOwn_iff h hle).mp hbooks
  have hsplit : (owed o.buffer.replyLedger).take bytes ++ (owed o.buffer.replyLedger).drop bytes =
      (o.waiting.take bytes).reduceOption ++ (o.waiting.drop bytes).reduceOption := by
    rw [List.take_append_drop, h.owes, ← List.reduceOption_append, List.take_append_drop]
  rw [hdrop] at hsplit
  exact List.append_cancel_right hsplit

theorem write_follows (horder : LedgerOrder o.buffer.replyLedger) (h : o.Follows)
    (hle : bytes ≤ o.hand.length) :
    (o.apply (.write bytes)).1.Follows ↔ o.BooksOwn (.write bytes) := by
  obtain ⟨hwaiting, hwritten⟩ := waiting_write hle
  have howed : owed (o.apply (.write bytes)).1.buffer.replyLedger =
      (owed o.buffer.replyLedger).drop bytes := owed_consume horder bytes
  constructor
  · intro hfollows
    rw [booksOwn_iff h hle, ← howed, ← hwaiting]
    exact hfollows.owes
  · intro hbooks
    have htake := hbooks.takes h hle
    refine ⟨?_, fun e he => ?_, fun e he => ?_⟩
    · rw [howed, hwaiting]
      exact (booksOwn_iff h hle).mp hbooks
    · obtain ⟨g, hg, rfl, -⟩ := mem_consume horder he
      have hkeeps := book_keeps g (((owed o.buffer.replyLedger).take bytes).count g.replyId)
      rw [hkeeps.1, hkeeps.2.2.2, h.played g hg, htake, count_reduceOption, hwritten,
        List.count_append]
    · obtain ⟨g, hg, rfl, -⟩ := mem_consume horder he
      have hkeeps := book_keeps g (((owed o.buffer.replyLedger).take bytes).count g.replyId)
      have hall := congrArg (List.count (some g.replyId)) (List.take_append_drop bytes o.waiting)
      rw [List.count_append] at hall
      rw [hkeeps.1, hkeeps.2.1, h.queued g hg, hwritten, hwaiting, List.count_append]
      omega

theorem waiting_enqueue {chunks : List (TtsAudioChunk (Option ReplyId))}
    {b' : TtsBuffer (Option ReplyId)} (hcarry : b'.frameCarry = o.buffer.frameCarry)
    (hqueue : b'.queue = o.buffer.queue ++ chunks) :
    waiting { o with buffer := b' } = o.waiting ++ chunks.flatMap TtsAudioChunk.pcm := by
  unfold waiting
  rw [hcarry, hqueue, List.flatMap_append, ← List.append_assoc]

theorem popChunk_keeps (hcarry : o.buffer.frameCarry = []) :
    (o.apply .popChunk).1.waiting = o.waiting ∧
      (o.apply .popChunk).1.buffer.replyLedger = o.buffer.replyLedger := by
  unfold apply TtsBuffer.popChunkMarking waiting
  cases hqueue : o.buffer.queue with
  | nil => simp
  | cons chunk rest => simp [hcarry]

theorem apply_follows (horder : LedgerOrder o.buffer.replyLedger) (h : o.Follows) {op : OutboundOp}
    (hallows : o.allows op = true) :
    (o.apply op).1.Follows ↔ o.BooksOwn op := by
  cases op with
  | write bytes => exact write_follows horder h (of_decide_eq_true hallows)
  | enqueue chunks expectGeneration reply =>
    refine iff_of_true ?_ trivial
    obtain ⟨hbytes, hturn⟩ := allows_enqueue hallows
    show Follows { o with
      buffer := (o.buffer.enqueueTaggedIfGeneration chunks expectGeneration reply).2 }
    rcases enqueue_cases o.buffer chunks expectGeneration reply with ⟨-, hsame⟩ |
      ⟨haccepts, b', hb', hcarry, hqueue, ⟨hledger, hnone⟩ | ⟨id, ms, rfl, hpos, hledger⟩⟩
    · rw [hsame]
      exact h
    · rw [hb']
      have hwaiting := waiting_enqueue hcarry hqueue
      rw [hbytes] at hwaiting
      rcases hnone with rfl | hzero
      · exact h.untagged _ hwaiting rfl hledger
      · rw [hzero] at hwaiting
        exact h.untagged 0 hwaiting rfl hledger
    · rw [hb']
      have hwaiting := waiting_enqueue hcarry hqueue
      rw [hbytes] at hwaiting
      rcases hturn id ms haccepts rfl with hcurrent | hfresh
      · obtain ⟨old, tail, hold, hopen, rfl⟩ := current_spec hcurrent
        rw [hold, bookQueued_tail hopen] at hledger
        exact h.grow horder hold hwaiting rfl hledger
      · obtain ⟨-, hother, hunwritten⟩ := fresh_spec hfresh
        rw [bookQueued_new hother] at hledger
        exact h.enter hother hunwritten hwaiting rfl hledger
  | markReplyComplete id =>
    refine iff_of_true ?_ trivial
    refine h.keep rfl rfl (markReplyComplete_ledger _ id horder) fun e => ?_
    split <;> exact ⟨rfl, rfl, rfl⟩
  | setProducing producing =>
    refine iff_of_true ?_ trivial
    cases producing with
    | true | false => exact h.same rfl rfl rfl
  | takeFrameCarry =>
    refine iff_of_true (h.same ?_ rfl rfl) trivial
    have hempty : o.hand = [] := List.isEmpty_iff.mp hallows
    show o.buffer.frameCarry ++ [] ++ _ = o.hand ++ o.buffer.frameCarry ++ _
    rw [hempty, List.append_nil]
    rfl
  | popChunk =>
    obtain ⟨hwaiting, hledger⟩ := popChunk_keeps (List.isEmpty_iff.mp hallows)
    exact iff_of_true (h.same hwaiting rfl hledger) trivial
  | storeFrameCarry =>
    refine iff_of_true (h.same ?_ rfl rfl) trivial
    have hempty : o.buffer.frameCarry = [] := List.isEmpty_iff.mp hallows
    show [] ++ o.hand ++ _ = o.hand ++ o.buffer.frameCarry ++ _
    rw [hempty, List.append_nil]
    rfl
  | dropHold | takeFlushedReplies => exact iff_of_true (h.same rfl rfl rfl) trivial
  | flush =>
    refine iff_of_true ⟨rfl, fun e he => ?_, fun e he => ?_⟩ trivial
    all_goals exact absurd he List.not_mem_nil

/-! ### Runs -/

/-- What one call of `consume_played` reports, against the audio written before and after it. -/
structure CallExact (o o' : Outbound) (out : List ReplyTransition) : Prop where
  /-- A reply starts in the call that writes its first byte. -/
  started : ∀ id, (∃ ms, .started id ms ∈ out) ↔
    some id ∉ o.written ∧ some id ∈ o'.written
  /-- A reply ends in the call that finds it complete and written. -/
  ended : ∀ id, (∃ played synthesized, .ended id played synthesized ∈ out) ↔
    ∃ e ∈ o.buffer.replyLedger, e.replyId = id ∧ e.complete = true ∧ some id ∉ o'.waiting
  /-- No earlier call left a complete and written reply. -/
  settled : ∀ e ∈ o'.buffer.replyLedger, e.complete = true → some e.replyId ∈ o'.waiting
  playedAll : ∀ id played synthesized, .ended id played synthesized ∈ out →
    played = playedMs (o'.written.count (some id)) ∧ synthesized = played

/-- What a flush reports of each reply: the bytes of its own audio, written and queued. -/
def FlushExact (o : Outbound) : Prop :=
  o.buffer.flush.flushedReplies = o.buffer.flushedReplies ++ o.buffer.replyLedger.map fun e =>
    { id := e.replyId
      playedMs := playedMs (o.written.count (some e.replyId))
      synthesizedMs := playedMs
        (o.written.count (some e.replyId) + o.waiting.count (some e.replyId))
      synthesisComplete := e.complete }

theorem Follows.flushExact (h : o.Follows) : o.FlushExact := by
  refine congrArg (o.buffer.flushedReplies ++ ·) (List.map_congr_left fun e he => ?_)
  unfold ReplyLedgerEntry.flushed
  rw [h.played e he, h.queued e he]

theorem mem_crosses {ledger : List ReplyLedgerEntry} {take : ReplyLedgerEntry → Nat}
    {t : ReplyTransition} : t ∈ (ledger.flatMap fun e => e.crosses (take e)) ↔
      ∃ e ∈ ledger, (t = e.startTransition ∧ 0 < take e ∧ e.started = false) ∨
        (t = (e.book (take e)).endTransition ∧ (e.book (take e)).finished = true) := by
  rw [List.mem_flatMap]
  apply exists_congr
  intro e
  apply and_congr_right
  intro _
  unfold ReplyLedgerEntry.crosses
  rw [List.mem_append]
  apply or_congr
  · by_cases hcross : (decide (0 < take e) && !e.started) = true
    · rw [if_pos hcross, List.mem_singleton]
      rw [Bool.and_eq_true, decide_eq_true_eq, Bool.not_eq_true'] at hcross
      exact (and_iff_left hcross).symm
    · rw [if_neg hcross]
      rw [Bool.and_eq_true, decide_eq_true_eq, Bool.not_eq_true'] at hcross
      exact iff_of_false List.not_mem_nil fun h => hcross h.2
  · by_cases hdone : (e.book (take e)).finished = true
    · rw [if_pos hdone, List.mem_singleton]
      exact (and_iff_left hdone).symm
    · rw [if_neg hdone]
      exact iff_of_false List.not_mem_nil fun h => hdone h.2

/-- The bytes booked to an entry are its own bytes in the write, and they are all it is owed
exactly when none of its bytes is left. -/
theorem Follows.takes (h : o.Follows) (hle : bytes ≤ o.hand.length)
    (hbooks : o.BooksOwn (.write bytes)) (he : e ∈ o.buffer.replyLedger) :
    ((owed o.buffer.replyLedger).take bytes).count e.replyId =
        (o.waiting.take bytes).count (some e.replyId) ∧
      (e.queuedBytes ≤ e.playedBytes + (o.waiting.take bytes).count (some e.replyId) ↔
        some e.replyId ∉ o.waiting.drop bytes) := by
  have hall := congrArg (List.count (some e.replyId)) (List.take_append_drop bytes o.waiting)
  rw [List.count_append] at hall
  refine ⟨by rw [hbooks.takes h hle, count_reduceOption], ?_⟩
  rw [h.queued e he, h.played e he, ← List.count_eq_zero]
  omega

theorem endTransition_book (e : ReplyLedgerEntry) (take : Nat) : (e.book take).endTransition =
    .ended e.replyId (playedMs (e.playedBytes + take)) (playedMs e.queuedBytes) := by
  unfold ReplyLedgerEntry.endTransition
  obtain ⟨hid, hqueued, -, hplayed⟩ := book_keeps e take
  rw [hid, hqueued, hplayed]

theorem finished_book {take : Nat} (hdone : (e.book take).finished = true) :
    e.complete = true ∧ e.queuedBytes ≤ e.playedBytes + take := by
  unfold ReplyLedgerEntry.finished at hdone
  rw [Bool.and_eq_true, Bool.and_eq_true, decide_eq_true_eq] at hdone
  obtain ⟨-, hqueued, hcomplete, hplayed⟩ := book_keeps e take
  rw [hqueued, hcomplete, hplayed] at hdone
  exact ⟨hdone.1.1, hdone.2⟩

theorem write_exact (horder : LedgerOrder o.buffer.replyLedger) (h : o.Follows)
    (hle : bytes ≤ o.hand.length) (hbooks : o.BooksOwn (.write bytes)) :
    CallExact o (o.apply (.write bytes)).1 (o.apply (.write bytes)).2 := by
  obtain ⟨hwaiting, hwritten⟩ := waiting_write hle
  have hout : (o.apply (.write bytes)).2 = o.buffer.replyLedger.flatMap fun e =>
      e.crosses (((owed o.buffer.replyLedger).take bytes).count e.replyId) :=
    congrArg Prod.fst (consumeLedger_eq horder bytes)
  have htakes := fun e (he : e ∈ o.buffer.replyLedger) => h.takes hle hbooks he
  refine ⟨fun id => ?_, fun id => ?_, fun e he hcomplete => ?_, fun id played synthesized ht => ?_⟩
  · rw [hout, hwritten]
    constructor
    · intro hstarted
      obtain ⟨ms, ht⟩ := hstarted
      obtain ⟨e, he, ⟨hid, hpos, hnot⟩ | ⟨hno, -⟩⟩ := mem_crosses.mp ht
      · obtain ⟨rfl, -⟩ := ReplyTransition.started.inj hid
        rw [(htakes e he).1] at hpos
        refine ⟨?_, List.mem_append_right _ (List.count_pos_iff.mp hpos)⟩
        have hzero : ¬ 0 < e.playedBytes := fun hp => by
          rw [(horder.booked e he).2.2.mpr hp] at hnot
          contradiction
        rw [h.played e he] at hzero
        exact fun hmem => hzero (List.count_pos_iff.mpr hmem)
      · contradiction
    · intro hfirst
      obtain ⟨hunwritten, hmem⟩ := hfirst
      have htaken := (List.mem_append.mp hmem).resolve_left hunwritten
      have howed : id ∈ (owed o.buffer.replyLedger).take bytes := by
        rw [hbooks.takes h hle, ← List.count_pos_iff, count_reduceOption, List.count_pos_iff]
        exact htaken
      obtain ⟨e, he, rfl⟩ := mem_owed (List.mem_of_mem_take howed)
      refine ⟨e.firstChunkMs, mem_crosses.mpr ⟨e, he, .inl ⟨rfl, ?_, ?_⟩⟩⟩
      · exact List.count_pos_iff.mpr howed
      · rw [← Bool.not_eq_true, (horder.booked e he).2.2, h.played e he, List.count_pos_iff]
        exact hunwritten
  · rw [hout, hwaiting]
    constructor
    · intro hended
      obtain ⟨played, synthesized, ht⟩ := hended
      obtain ⟨e, he, ⟨hno, -⟩ | ⟨hid, hdone⟩⟩ := mem_crosses.mp ht
      · contradiction
      · obtain ⟨hcomplete, hall⟩ := finished_book hdone
        rw [(htakes e he).1] at hall
        rw [endTransition_book] at hid
        obtain ⟨rfl, -, -⟩ := ReplyTransition.ended.inj hid
        exact ⟨e, he, rfl, hcomplete, (htakes e he).2.mp hall⟩
    · intro hend
      obtain ⟨e, he, rfl, hcomplete, hnone⟩ := hend
      have hall := (htakes e he).2.mpr hnone
      rw [← (htakes e he).1] at hall
      have howes : e.owes ≤ ((owed o.buffer.replyLedger).take bytes).count e.replyId := by
        unfold ReplyLedgerEntry.owes
        omega
      have hdone := horder.finishes he hcomplete howes
      exact ⟨_, _, mem_crosses.mpr ⟨e, he, .inr ⟨(endTransition_book e _).symm, hdone⟩⟩⟩
  · obtain ⟨g, hg, rfl, hopen⟩ := mem_consume horder he
    rw [(book_keeps g _).2.2.1] at hcomplete
    rw [(book_keeps g _).1, hwaiting]
    by_contra hnone
    have hall := (htakes g hg).2.mpr hnone
    rw [← (htakes g hg).1] at hall
    have howes : g.owes ≤ ((owed o.buffer.replyLedger).take bytes).count g.replyId := by
      unfold ReplyLedgerEntry.owes
      omega
    rw [horder.finishes hg hcomplete howes] at hopen
    contradiction
  · rw [hout] at ht
    obtain ⟨e, he, ⟨hno, -⟩ | ⟨hid, hdone⟩⟩ := mem_crosses.mp ht
    · contradiction
    · obtain ⟨-, hall⟩ := finished_book hdone
      rw [endTransition_book, (htakes e he).1] at hid
      rw [(htakes e he).1] at hall
      obtain ⟨rfl, rfl, rfl⟩ := ReplyTransition.ended.inj hid
      have hqueued := h.queued e he
      have hcount := congrArg (List.count (some e.replyId)) (List.take_append_drop bytes o.waiting)
      rw [List.count_append] at hcount
      have hsame : e.queuedBytes =
          e.playedBytes + (o.waiting.take bytes).count (some e.replyId) := by
        rw [h.played e he] at hall ⊢
        omega
      rw [hwritten, List.count_append, ← h.played e he, hsame]
      exact ⟨rfl, rfl⟩

theorem step_some {op : OutboundOp} {out : List ReplyTransition} (hs : o.step op = some (o', out)) :
    o.allows op = true ∧ o' = (o.apply op).1 ∧ out = (o.apply op).2 := by
  unfold step at hs
  rw [Option.ite_none_right_eq_some, Option.some.injEq] at hs
  exact ⟨hs.1, congrArg Prod.fst hs.2.symm, congrArg Prod.snd hs.2.symm⟩

theorem new_follows : new.Follows := by
  refine ⟨rfl, fun e he => ?_, fun e he => ?_⟩ <;> exact absurd he List.not_mem_nil

theorem run_ordered {ops : List OutboundOp} {out : List ReplyTransition}
    (hrun : Machine.run step new ops = some (o, out)) : LedgerOrder o.buffer.replyLedger := by
  refine Machine.run_invariant (C := fun _ _ => True)
    (I := fun o : Outbound => LedgerOrder o.buffer.replyLedger) (fun o op o' out h _ hs => ?_)
    LedgerOrder.nil
    (Machine.along_of_forall_mem (P := fun _ => True) (fun _ _ => trivial) _) hrun
  obtain ⟨hallows, rfl, -⟩ := step_some hs
  exact apply_ordered h hallows

/-- The books follow the audio in every state of a run exactly when every write holds no untagged
byte or leaves no tagged byte unwritten. Then a reply's start and end are reported by the call
that books its first byte and by the first one that finds it complete and written, and a flush
reports of every reply the bytes of its own audio. -/
theorem ledger_follows_audio {ops : List OutboundOp} {o : Outbound} {out : List ReplyTransition}
    (hrun : Machine.run step new ops = some (o, out)) :
    ((∀ pre o' out', pre <+: ops → Machine.run step new pre = some (o', out') → o'.Follows) ↔
        Machine.Along step BooksOwn new ops) ∧
      (Machine.Along step BooksOwn new ops → ∀ pre o' out', pre <+: ops →
        Machine.run step new pre = some (o', out') → o'.FlushExact ∧
          ∀ bytes, pre ++ [.write bytes] <+: ops →
            CallExact o' (o'.apply (.write bytes)).1 (o'.apply (.write bytes)).2) := by
  have hiff : (∀ pre o' out', pre <+: ops → Machine.run step new pre = some (o', out') →
      o'.Follows) ↔ Machine.Along step BooksOwn new ops := by
    refine Machine.prefix_invariant_iff_of_run
      (J := fun o : Outbound => LedgerOrder o.buffer.replyLedger) (fun o op o' out hj hp hs => ?_)
      LedgerOrder.nil new_follows hrun
    obtain ⟨hallows, rfl, -⟩ := step_some hs
    exact ⟨apply_ordered hj hallows, apply_follows hj hp hallows⟩
  refine ⟨hiff, fun hbooks pre o' out' hpre hrun' => ?_⟩
  have hfollows := hiff.mpr hbooks pre o' out' hpre hrun'
  refine ⟨hfollows.flushExact, fun bytes hwrite => ?_⟩
  obtain ⟨o₂, out₂, hrun₂⟩ := Machine.run_prefix hrun hwrite
  obtain ⟨o₁, first, second, hfirst, hlast, -⟩ := Machine.run_append_eq_some.mp hrun₂
  rw [hrun'] at hfirst
  obtain ⟨rfl, -⟩ := hfirst
  obtain ⟨hallows, -, -⟩ := step_some (Machine.run_singleton.mp hlast)
  obtain ⟨rest, rfl⟩ := hwrite
  rw [List.append_assoc, Machine.along_append] at hbooks
  exact write_exact (run_ordered hrun') hfollows (of_decide_eq_true hallows) (hbooks.2 _ _ hrun').1

/-! ### Untagged audio before a tagged reply -/

def chunkOf (bytes : Nat) (owner : Option ReplyId) : List (TtsAudioChunk (Option ReplyId)) :=
  [⟨List.replicate bytes owner, 20⟩]

theorem chunkOf_bytes (bytes : Nat) (owner : Option ReplyId) :
    (chunkOf bytes owner).flatMap TtsAudioChunk.pcm = List.replicate bytes owner :=
  List.flatMap_singleton _ _

/-- One frame without a tag and one of reply `a` are queued; the first frame is written. -/
def untaggedFirst : List OutboundOp :=
  [.enqueue (chunkOf 3840 none) none none,
    .enqueue (chunkOf 3840 (some "a")) none (some ("a", none)), .markReplyComplete "a",
    .popChunk, .write 3840]

/-- After these the reply has ended, and its audio still waits. -/
def endedUnheard : Outbound where
  buffer := { (TtsBuffer.new : TtsBuffer (Option ReplyId)) with
    queue := chunkOf 3840 (some "a")
    speaking := true
    held := true }
  hand := []
  written := List.replicate 3840 none

/-- The untagged frame starts and ends the reply, of which no byte is written. -/
theorem untagged_ends_reply :
    Machine.run step new untaggedFirst =
        some (endedUnheard, [.started "a" none, .ended "a" 20 20]) ∧
      some "a" ∉ endedUnheard.written ∧
      endedUnheard.waiting = List.replicate 3840 (some "a") ∧ ¬ endedUnheard.Follows := by
  have hwaiting : endedUnheard.waiting = List.replicate 3840 (some "a") := by
    show [] ++ [] ++ (chunkOf 3840 (some "a")).flatMap TtsAudioChunk.pcm = _
    rw [chunkOf_bytes, List.append_nil, List.nil_append]
  refine ⟨by decide +kernel, fun hmem => ?_, hwaiting, fun hfollows => ?_⟩
  · cases List.eq_of_mem_replicate hmem
  · have howes := hfollows.owes
    rw [hwaiting, reduceOption_replicate_some] at howes
    have hlength : 0 = (List.replicate 3840 "a").length := congrArg List.length howes
    rw [List.length_replicate] at hlength
    exact Nat.noConfusion hlength

/-- A reply and untagged audio behind it: the write of both leaves nothing tagged behind. -/
def taggedFirst : List OutboundOp :=
  [.enqueue (chunkOf 4 (some "a")) none (some ("a", none)), .enqueue (chunkOf 4 none) none none,
    .markReplyComplete "a", .popChunk, .popChunk, .write 6]

theorem ledger_follows_audio_tail :
    ∃ o, Machine.run step new taggedFirst = some (o, [.started "a" none, .ended "a" 0 0]) ∧
      o.Follows ∧ o.FlushExact := by
  have hbooks : Machine.Along step BooksOwn new taggedFirst := by
    refine .cons trivial rfl (.cons trivial rfl (.cons trivial rfl (.cons trivial rfl
      (.cons trivial rfl (.cons (.inr ?_) rfl trivial)))))
    decide
  have hrun : ∃ o, Machine.run step new taggedFirst =
      some (o, [.started "a" none, .ended "a" 0 0]) := ⟨_, rfl⟩
  obtain ⟨_, hrun⟩ := hrun
  obtain ⟨hiff, hexact⟩ := ledger_follows_audio hrun
  exact ⟨_, hrun, hiff.mpr hbooks _ _ _ (List.prefix_refl _) hrun,
    (hexact hbooks _ _ _ (List.prefix_refl _) hrun).1⟩

end Outbound

end NodeWebrtc.Speech
