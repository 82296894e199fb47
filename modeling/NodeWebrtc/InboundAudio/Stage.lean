import Mathlib.Algebra.GroupWithZero.Nat
import Mathlib.Algebra.BigOperators.Group.List.Basic
import NodeWebrtc.InboundAudio.ReorderTiling

/-! # The inbound audio stage

`read_sample` takes packets from the reader task, puts them through the reorder buffer and decodes
what comes out; a run of lost packets is concealed. The Opus decoder is a parameter. The path
without the reorder buffer is not part of the model.
-/

namespace NodeWebrtc.InboundAudio

/-- At most this many lost packets are concealed per gap. -/
def MAX_CONCEALED_PACKETS : Nat := 5

/-- The decoder: its state `δ`, its frames `φ`, and `none` for an error. -/
structure OpusDecoder (δ φ : Type) where
  tryDecodePayload : δ → List UInt8 → Option (List φ) × δ
  concealPlc : δ → Nat → Option (List φ) × δ
  decodeFec : δ → List UInt8 → Nat → Option (List φ) × δ
  lastPacketSamples : δ → Nat
  silenceFrame : φ

/-- The counters that decoding and concealment write. -/
structure ConcealStats where
  plcDecodes : Nat
  fecDecodes : Nat
  lostNotConcealed : Nat
  concealmentEvents : Nat
  concealedSamples : Nat
  undecodable : Nat
deriving DecidableEq, Repr

inductive Means where
  | plc
  | fec (payload : List UInt8)
deriving DecidableEq, Repr

/-- One concealed packet: how, and the frames unless the decoder failed. -/
structure Attempt (φ : Type) where
  means : Means
  frames : Option (List φ)

variable {δ φ : Type}

/-- FEC for the last concealed packet, if the packet after the gap is there and all of the gap is
concealed. -/
def meansOf (count i n : Nat) (next : Option (List UInt8)) : Means :=
  match next with
  | some payload => if i = n - 1 ∧ count ≤ MAX_CONCEALED_PACKETS then .fec payload else .plc
  | none => .plc

def Means.count (stats : ConcealStats) : Means → ConcealStats
  | .plc => { stats with plcDecodes := stats.plcDecodes + 1 }
  | .fec _ => { stats with fecDecodes := stats.fecDecodes + 1 }

def Means.run (D : OpusDecoder δ φ) (d : δ) (samples : Nat) : Means → Option (List φ) × δ
  | .plc => D.concealPlc d samples
  | .fec payload => D.decodeFec d payload samples

def countResult (stats : ConcealStats) (samples : Nat) : Option (List φ) → ConcealStats
  | some _ => { stats with concealedSamples := stats.concealedSamples + samples }
  | none => { stats with undecodable := stats.undecodable + 1 }

def concealFrom (D : OpusDecoder δ φ) (count n samples : Nat) (next : Option (List UInt8)) :
    List Nat → δ → ConcealStats → List (Attempt φ) × δ × ConcealStats
  | [], d, stats => ([], d, stats)
  | i :: rest, d, stats =>
    let means := meansOf count i n next
    let (frames, d) := means.run D d samples
    let (attempts, d, stats) :=
      concealFrom D count n samples next rest d (countResult (means.count stats) samples frames)
    (⟨means, frames⟩ :: attempts, d, stats)

/-- Conceals `count` lost packets before the packet with the payload `next`. -/
def concealLost (D : OpusDecoder δ φ) (d : δ) (count : Nat) (next : Option (List UInt8))
    (stats : ConcealStats) : List (Attempt φ) × δ × ConcealStats :=
  let n := min count MAX_CONCEALED_PACKETS
  let stats :=
    if n < count then { stats with lostNotConcealed := stats.lostNotConcealed + (count - n) }
    else stats
  if n = 0 then ([], d, stats)
  else
    concealFrom D count n (D.lastPacketSamples d) next (List.range n) d
      { stats with concealmentEvents := stats.concealmentEvents + 1 }

/-- The frames of a packet and whether they stand in for an undecodable payload. -/
def decodePacket (D : OpusDecoder δ φ) (d : δ) (packet : RtpPacket) (stats : ConcealStats) :
    (List φ × Bool) × δ × ConcealStats :=
  match D.tryDecodePayload d packet.payload with
  | (some frames, d) => ((frames, false), d, stats)
  | (none, d) =>
    let stats := { stats with undecodable := stats.undecodable + 1 }
    match D.concealPlc d (D.lastPacketSamples d) with
    | (some frames, d) => ((frames, true), d, stats)
    | (none, d) => (([D.silenceFrame], true), d, stats)

/-! ## Reading samples -/

/-- What one round of `read_sample` delivers, in place of the sample it makes of the frames; a
round without frames goes on without a sample. -/
inductive Delivered (φ : Type) where
  | packet (packet : RtpPacket) (frames : List φ) (concealed : Bool)
  | concealed (count : Nat) (next : Option (List UInt8)) (attempts : List (Attempt φ))
  | ended (reason : String)

def Delivered.source : Delivered φ → Option StageOut
  | .packet p _ _ => some (.packet p)
  | .concealed count next _ => some (.lost count next)
  | .ended _ => none

structure Stage (δ : Type) where
  buffer : InboundReorderBuffer
  decoder : δ
  pending : List StageOut
  ended : Option String
  stats : ConcealStats
  /-- A call waits for a message or for its deadline. -/
  waiting : Bool

inductive StageOp where
  /-- One round of the loop; `wall` gives what the clock reads during a flush. -/
  | round (now : Instant) (wall : Nat → Instant)
  /-- A packet or an error of the reader arrives, or its channel is closed. -/
  | message (msg : Option (RtpPacket ⊕ String)) (now : Instant) (wall : Nat → Instant)
  /-- The deadline passes, or the call is dropped while it waits and another one starts. -/
  | wake

namespace Stage

def new (d : δ) : Stage δ where
  buffer := .new
  decoder := d
  pending := []
  ended := none
  stats := ⟨0, 0, 0, 0, 0, 0⟩
  waiting := false

/-- Decodes or conceals what stood at the front of the pending output. -/
def deliver (D : OpusDecoder δ φ) (s : Stage δ) : StageOut → Stage δ × Delivered φ
  | .packet p =>
    let ((frames, concealed), decoder, stats) := decodePacket D s.decoder p s.stats
    ({ s with decoder, stats }, .packet p frames concealed)
  | .lost count next =>
    let (attempts, decoder, stats) := concealLost D s.decoder count next s.stats
    ({ s with decoder, stats }, .concealed count next attempts)

def round (D : OpusDecoder δ φ) (s : Stage δ) (now : Instant) (wall : Nat → Instant) :
    Option (Stage δ × List (Delivered φ)) :=
  match s.pending with
  | out :: rest =>
    let delivered := deliver D { s with pending := rest } out
    some (delivered.1, [delivered.2])
  | [] =>
    (s.buffer.poll now).map fun (buffer, out) =>
      if out ≠ [] then ({ s with buffer, pending := out }, [])
      else match s.ended with
        | some reason =>
          let (buffer, out) := buffer.flush wall
          if out ≠ [] then ({ s with buffer, pending := out }, [])
          else ({ s with buffer }, [.ended reason])
        | none => ({ s with buffer, waiting := true }, [])

def message (s : Stage δ) (msg : Option (RtpPacket ⊕ String)) (now : Instant)
    (wall : Nat → Instant) : Option (Stage δ) :=
  match msg with
  | some (.inl p) =>
    (s.buffer.push p now wall).map fun buffer => { s with buffer, waiting := false }
  | some (.inr e) => some { s with ended := some e, waiting := false }
  | none => some { s with ended := some "track ended", waiting := false }

def step (D : OpusDecoder δ φ) (s : Stage δ) : StageOp → Option (Stage δ × List (Delivered φ))
  | .round now wall => if s.waiting then none else s.round D now wall
  | .message msg now wall =>
    if s.waiting then (s.message msg now wall).map fun s => (s, []) else none
  | .wake => if s.waiting then some ({ s with waiting := false }, []) else none

end Stage

/-! ## Counting lost packets -/

def lostOf (out : List StageOut) : Nat :=
  (out.map fun
    | .packet _ => 0
    | .lost count _ => count).sum

theorem lostOf_append (out more : List StageOut) :
    lostOf (out ++ more) = lostOf out + lostOf more := by
  unfold lostOf
  rw [List.map_append, List.sum_append]

namespace InboundReorderBuffer

/-- Of the packets declared lost `k` have left the buffer and the others are ready. -/
def LostIs (k : Nat) (b : InboundReorderBuffer) : Prop := b.stats.lost = k + lostOf b.ready

section Lost

variable {k : Nat} {b c : InboundReorderBuffer}

section

variable (h : LostIs k b)
include h

theorem LostIs.of_eq (hready : c.ready = b.ready) (hlost : c.stats.lost = b.stats.lost) :
    LostIs k c := by
  unfold LostIs
  rw [hready, hlost]
  exact h

theorem LostIs.setWait (observations : List (Instant × Duration)) (wait : Duration) (waitMs : Nat) :
    LostIs k { b with
      observations := observations
      wait := wait
      stats := { b.stats with currentWaitMs := waitMs } } := h.of_eq rfl rfl

theorem LostIs.refreshWait (now : Instant) : LostIs k (b.refreshWait now) :=
  h.setWait _ _ _

theorem LostIs.observe (now : Instant) (delay : Duration) :
    LostIs k (b.observe now delay) := h.setWait _ _ _

theorem LostIs.setHeld (held : Std.ExtTreeMap Int Held) :
    LostIs k { b with held := held } := h.of_eq rfl rfl

theorem LostIs.packet {p : RtpPacket} (hready : c.ready = b.ready ++ [.packet p])
    (hlost : c.stats.lost = b.stats.lost) : LostIs k c := by
  unfold LostIs
  rw [hready, hlost, lostOf_append]
  exact h

theorem LostIs.declareLost (start stop : Int) (reading : Instant) :
    LostIs k (b.declareLost start stop reading) := by
  show b.stats.lost + (stop - start).toNat = k + lostOf (b.ready ++ [.lost _ _])
  rw [lostOf_append, h, Nat.add_assoc]
  rfl

theorem LostIs.emitHeldHead : LostIs k b.emitHeldHead := by
  unfold InboundReorderBuffer.emitHeldHead
  split
  · exact h
  · exact h.packet rfl rfl

theorem LostIs.flushHeld (wall : Nat → Instant) : LostIs k (b.flushHeld wall) := by
  induction hsize : b.held.size using Nat.strongRecOn generalizing b wall with
  | ind size ih =>
    rw [InboundReorderBuffer.flushHeld]
    split
    · exact h.of_eq rfl rfl
    · rename_i first held hfirst
      have hless := flushRound_size hfirst (wall 0)
      refine ih _ (by omega) ?_ _ rfl
      unfold flushRound
      dsimp only
      split
      · exact (h.declareLost _ _ _).emitHeldHead
      · exact h.emitHeldHead

theorem LostIs.advance {now : Instant} (hc : b.advance now = some c) : LostIs k c := by
  induction hpending : b.pending using Nat.strongRecOn generalizing b with
  | ind size ih =>
    subst hpending
    rw [InboundReorderBuffer.advance] at hc
    split at hc
    · exact Option.some.inj hc ▸ h.of_eq rfl rfl
    · rename_i first head hfirst
      split at hc
      · contradiction
      · rename_i next hnext
        split at hc
        · rename_i heq
          have hbefore := pending_of_filled hfirst (heq ▸ hnext)
          have hafter := pending_le b.emitNext
          have hsize := size_emitHeldHead hfirst
          refine ih _ ?_ (h.emitHeldHead.of_eq rfl rfl : LostIs k b.emitNext) hc rfl
          unfold emitNext at hafter ⊢
          dsimp only at hafter ⊢
          omega
        · rename_i hne
          dsimp only at hc
          split at hc
          · have hbefore := pending_of_gap hfirst hnext hne
            have hafter := @pending_of_filled
              (giveUpGap { b with gapSince := some (b.gapSince.getD head.arrived) } next first now)
              first _ hfirst rfl
            refine ih _ ?_ ?_ hc rfl
            · rw [hbefore, hafter]
              exact Nat.lt_succ_self _
            · have hgap : LostIs k { b with gapSince := some (b.gapSince.getD head.arrived) } :=
                h.of_eq rfl rfl
              exact (hgap.declareLost next first now).of_eq rfl rfl
          · exact Option.some.inj hc ▸ h.of_eq rfl rfl

theorem LostIs.discardLate (ext : Int) (now : Instant) : LostIs k (b.discardLate ext now) := by
  unfold InboundReorderBuffer.discardLate
  dsimp only
  split
  · exact h.of_eq rfl rfl
  · refine LostIs.observe ?_ now _
    exact h.of_eq rfl rfl

theorem LostIs.accept {p : RtpPacket} {next ext : Int} {now : Instant}
    (hc : b.accept p next ext now = some c) : LostIs k c := by
  unfold InboundReorderBuffer.accept at hc
  dsimp only at hc
  obtain ⟨b₁, hb₁, h₁⟩ : ∃ c, c = (if ext < b.maxExt then
      { b with stats := { b.stats with reordered := b.stats.reordered + 1 } } else b) ∧
      LostIs k c := by
    refine ⟨_, rfl, ?_⟩
    split
    · exact h.of_eq rfl rfl
    · exact h
  rw [← hb₁] at hc
  obtain ⟨b₂, hb₂, h₂⟩ : ∃ c, c = (if b₁.maxExt < ext then { b₁ with maxExt := ext } else b₁) ∧
      LostIs k c := by
    refine ⟨_, rfl, ?_⟩
    split
    · exact h₁.of_eq rfl rfl
    · exact h₁
  rw [← hb₂] at hc
  split at hc
  · exact Option.some.inj hc ▸ h₂.packet rfl rfl
  · split at hc
    · split at hc
      · refine LostIs.advance ?_ hc
        exact (h₂.observe now _).setHeld _
      · exact LostIs.advance (h₂.setHeld _) hc
    · exact LostIs.advance (h₂.setHeld _) hc

theorem LostIs.reset (p : RtpPacket) (wall : Nat → Instant) : LostIs k (b.reset p wall) := by
  have hcounted : LostIs k { b with stats := { b.stats with resets := b.stats.resets + 1 } } :=
    h.of_eq rfl rfl
  exact (hcounted.flushHeld wall).packet rfl rfl

theorem LostIs.push {p : RtpPacket} {now : Instant} {wall : Nat → Instant}
    (hc : b.push p now wall = some c) : LostIs k c := by
  have hcounted : LostIs k b.countReceived := h.of_eq rfl rfl
  have hwait := hcounted.refreshWait now
  unfold InboundReorderBuffer.push at hc
  dsimp only at hc
  split at hc
  · exact Option.some.inj hc ▸ hwait.packet rfl rfl
  · split at hc
    · exact Option.some.inj hc ▸ hwait.reset p wall
    · split at hc
      · exact Option.some.inj hc ▸ hwait.discardLate _ now
      · split at hc
        · exact Option.some.inj hc ▸ hwait.of_eq rfl rfl
        · exact hwait.accept hc

theorem LostIs.drain : LostIs (k + lostOf b.ready) { b with ready := [] } := by
  exact h

theorem LostIs.poll {now : Instant} {out : List StageOut} (hc : b.poll now = some (c, out)) :
    LostIs (k + lostOf out) c := by
  obtain ⟨d, hd, heq⟩ := Option.map_eq_some_iff.mp hc
  cases heq
  exact ((h.refreshWait now).advance hd).drain

theorem LostIs.flush (wall : Nat → Instant) :
    LostIs (k + lostOf (b.flush wall).2) (b.flush wall).1 := (h.flushHeld wall).drain

end

end Lost

end InboundReorderBuffer

/-! ## What a gap is concealed with -/

/-- The lost packets that the counters account for. -/
def ConcealStats.classified (stats : ConcealStats) : Nat :=
  stats.plcDecodes + stats.fecDecodes + stats.lostNotConcealed

section Conceal

variable (D : OpusDecoder δ φ)

theorem classified_count (stats : ConcealStats) (means : Means) :
    (means.count stats).classified = stats.classified + 1 := by
  unfold ConcealStats.classified Means.count
  cases means with dsimp only
  | plc | fec payload =>
    omega

theorem classified_countResult (stats : ConcealStats) (samples : Nat) (frames : Option (List φ)) :
    (countResult stats samples frames).classified = stats.classified := by
  cases frames <;> rfl

theorem concealFrom_spec (count n samples : Nat) (next : Option (List UInt8)) (rounds : List Nat)
    (d : δ) (stats : ConcealStats) :
    (concealFrom D count n samples next rounds d stats).1.map Attempt.means =
        rounds.map (fun i => meansOf count i n next) ∧
      (concealFrom D count n samples next rounds d stats).2.2.classified =
        stats.classified + rounds.length := by
  induction rounds generalizing d stats with
  | nil => exact ⟨rfl, rfl⟩
  | cons i rounds ih =>
    obtain ⟨hmeans, hcount⟩ := ih ((meansOf count i n next).run D d samples).2
      (countResult ((meansOf count i n next).count stats) samples
        ((meansOf count i n next).run D d samples).1)
    refine ⟨congrArg (meansOf count i n next :: ·) hmeans, hcount.trans ?_⟩
    rw [classified_countResult, classified_count, List.length_cons]
    omega

theorem concealLost_spec (d : δ) (count : Nat) (next : Option (List UInt8)) (stats : ConcealStats) :
    (concealLost D d count next stats).1.map Attempt.means =
        (List.range (min count MAX_CONCEALED_PACKETS)).map
          (fun i => meansOf count i (min count MAX_CONCEALED_PACKETS) next) ∧
      (concealLost D d count next stats).2.2.classified = stats.classified + count := by
  unfold concealLost
  dsimp only
  obtain ⟨capped, hcapped, hclassified⟩ : ∃ capped : ConcealStats, capped =
      (if min count MAX_CONCEALED_PACKETS < count then
        { stats with lostNotConcealed :=
            stats.lostNotConcealed + (count - min count MAX_CONCEALED_PACKETS) }
      else stats) ∧
      capped.classified = stats.classified + (count - min count MAX_CONCEALED_PACKETS) := by
    refine ⟨_, rfl, ?_⟩
    split
    · unfold ConcealStats.classified
      dsimp only
      omega
    · omega
  rw [← hcapped]
  by_cases hzero : min count MAX_CONCEALED_PACKETS = 0
  · rw [hzero]
    refine ⟨rfl, hclassified.trans ?_⟩
    omega
  · rw [if_neg hzero]
    obtain ⟨hmeans, hcount⟩ := concealFrom_spec D count (min count MAX_CONCEALED_PACKETS)
      (D.lastPacketSamples d) next (List.range (min count MAX_CONCEALED_PACKETS)) d
      { capped with concealmentEvents := capped.concealmentEvents + 1 }
    refine ⟨hmeans, hcount.trans ?_⟩
    have hsame : ({ capped with concealmentEvents := capped.concealmentEvents + 1 } :
        ConcealStats).classified = capped.classified := rfl
    rw [List.length_range]
    omega

/-- Up to five packets of a gap are concealed; FEC serves the last packet of the gap alone, with
the payload of the packet after it. -/
def FecLast (count : Nat) (next : Option (List UInt8)) (attempts : List (Attempt φ)) : Prop :=
  attempts.length = min count MAX_CONCEALED_PACKETS ∧
    ∀ (i : Nat) (attempt : Attempt φ) (payload : List UInt8), attempts[i]? = some attempt →
      (attempt.means = .fec payload ↔ i + 1 = count ∧ next = some payload)

theorem concealLost_fecLast (d : δ) (count : Nat) (next : Option (List UInt8))
    (stats : ConcealStats) : FecLast count next (concealLost D d count next stats).1 := by
  obtain ⟨hmeans, -⟩ := concealLost_spec D d count next stats
  have hlength := congrArg List.length hmeans
  rw [List.length_map, List.length_map, List.length_range] at hlength
  refine ⟨hlength, fun i attempt payload hi => ?_⟩
  have hlt : i < min count MAX_CONCEALED_PACKETS :=
    hlength ▸ (List.getElem?_eq_some_iff.mp hi).1
  have hi' : attempt.means = meansOf count i (min count MAX_CONCEALED_PACKETS) next := by
    have hget := congrArg (fun means : List Means => means[i]?) hmeans
    rw [List.getElem?_map, List.getElem?_map, hi, List.getElem?_range hlt, Option.map_some,
      Option.map_some, Option.some.injEq] at hget
    exact hget
  rw [hi']
  unfold meansOf
  cases next with
  | none => simp
  | some other =>
    dsimp only
    by_cases hlast : i = min count MAX_CONCEALED_PACKETS - 1 ∧ count ≤ MAX_CONCEALED_PACKETS
    · rw [if_pos hlast, Means.fec.injEq, Option.some.injEq]
      exact ⟨fun heq => ⟨by omega, heq⟩, And.right⟩
    · rw [if_neg hlast]
      refine ⟨fun hno => by contradiction, fun h => absurd ⟨?_, ?_⟩ hlast⟩
      · omega
      · omega

end Conceal

/-! ## Every run -/

namespace Stage

/-- What was delivered, what is pending and what the buffer has ready are the buffer's output in
order, and the counters account for every lost packet that was delivered. -/
structure Accounts (outs : List (Delivered φ)) (s : Stage δ) : Prop where
  ordered : ∃ notes segments,
    s.buffer.Accounted notes (outs.filterMap Delivered.source ++ s.pending) segments
  lost : s.buffer.LostIs (lostOf (outs.filterMap Delivered.source ++ s.pending))
  classified : s.stats.classified = lostOf (outs.filterMap Delivered.source)
  drained : s.waiting = true → s.pending = [] ∧ s.buffer.ready = []

section Runs

variable (D : OpusDecoder δ φ) {s t : Stage δ} {outs more : List (Delivered φ)}

theorem deliver_spec (s : Stage δ) (out : StageOut) :
    (deliver D s out).1.buffer = s.buffer ∧ (deliver D s out).1.pending = s.pending ∧
      (deliver D s out).1.waiting = s.waiting ∧ (deliver D s out).2.source = some out ∧
      (deliver D s out).1.stats.classified = s.stats.classified + lostOf [out] ∧
      ∀ count next attempts, (deliver D s out).2 = .concealed count next attempts →
        FecLast count next attempts := by
  cases out with
  | packet p =>
    refine ⟨rfl, rfl, rfl, rfl, ?_, fun _ _ _ hno => by contradiction⟩
    show (decodePacket D s.decoder p s.stats).2.2.classified = _
    unfold decodePacket
    rcases D.tryDecodePayload s.decoder p.payload with ⟨frames, d⟩
    cases frames with
    | some frames => rfl
    | none =>
      dsimp only
      rcases D.concealPlc d (D.lastPacketSamples d) with ⟨frames, d'⟩
      cases frames <;> rfl
  | lost count next =>
    refine ⟨rfl, rfl, rfl, rfl, (concealLost_spec D s.decoder count next s.stats).2,
      fun c n attempts heq => ?_⟩
    have hsame : Delivered.concealed count next (concealLost D s.decoder count next s.stats).1 =
        Delivered.concealed c n attempts := heq
    obtain ⟨rfl, rfl, rfl⟩ := Delivered.concealed.inj hsame
    exact concealLost_fecLast D s.decoder count next s.stats

theorem Accounts.take {buffer : InboundReorderBuffer} {out : List StageOut}
    (h : Accounts outs s) (hpending : s.pending = [])
    (hordered : ∃ notes segments, buffer.Accounted notes
      (outs.filterMap Delivered.source ++ s.pending ++ out) segments)
    (hlost : buffer.LostIs (lostOf (outs.filterMap Delivered.source ++ s.pending) + lostOf out))
    (hwaiting : s.waiting = false) : Accounts outs { s with buffer, pending := out } := by
  rw [hpending, List.append_nil] at hordered hlost
  refine ⟨hordered, ?_, h.classified, fun hw => ?_⟩
  · rw [← lostOf_append] at hlost
    exact hlost
  · rw [hwaiting] at hw
    contradiction

theorem poll_ready {b c : InboundReorderBuffer} {now : Instant} {out : List StageOut}
    (h : b.poll now = some (c, out)) : c.ready = [] := by
  obtain ⟨d, -, heq⟩ := Option.map_eq_some_iff.mp h
  cases heq
  rfl

theorem poll_accounts {b c : InboundReorderBuffer} {now : Instant} {out returned : List StageOut}
    (h : ∃ notes segments, b.Accounted notes out segments) (hpoll : b.poll now = some (c, returned)) :
    ∃ notes segments, c.Accounted notes (out ++ returned) segments := by
  obtain ⟨notes, segments, h⟩ := h
  obtain ⟨c', returned', segments', hpoll', h'⟩ := InboundReorderBuffer.poll_accounted h now
  simp only [hpoll] at hpoll'
  cases hpoll'
  exact ⟨notes, segments', h'⟩

theorem Accounts.round {now : Instant} {wall : Nat → Instant} (h : Accounts outs s)
    (hwaiting : s.waiting = false) (hs : s.round D now wall = some (t, more)) :
    Accounts (outs ++ more) t ∧ ∀ count next attempts,
      .concealed count next attempts ∈ more → FecLast count next attempts := by
  unfold Stage.round at hs
  cases hpending : s.pending with rw [hpending] at hs
  | cons out rest =>
    cases hs
    obtain ⟨hbuffer, hrest, hwaits, hsource, hclassified, hfec⟩ :=
      deliver_spec D { s with pending := rest } out
    have hmore : (outs ++ [(deliver D { s with pending := rest } out).2]).filterMap
        Delivered.source = outs.filterMap Delivered.source ++ [out] := by
      simp [hsource]
    have hsplit : outs.filterMap Delivered.source ++ [out] ++ rest =
        outs.filterMap Delivered.source ++ s.pending := by
      rw [hpending, List.append_assoc, List.singleton_append]
    refine ⟨⟨?_, ?_, ?_, fun hw => ?_⟩, fun count next attempts hin => ?_⟩
    · rw [hmore, hbuffer, hrest, hsplit]
      exact h.ordered
    · rw [hmore, hbuffer, hrest, hsplit]
      exact h.lost
    · rw [hclassified, hmore, lostOf_append]
      exact congrArg (· + lostOf [out]) h.classified
    · rw [hwaits] at hw
      exact absurd (hw : s.waiting = true) (by rw [hwaiting]; simp)
    · exact hfec count next attempts (List.mem_singleton.mp hin).symm
  | nil =>
    obtain ⟨⟨buffer, out⟩, hpoll, heq⟩ := Option.map_eq_some_iff.mp hs
    dsimp only at heq
    have hready := poll_ready hpoll
    have hlost := h.lost.poll hpoll
    have hordered := poll_accounts h.ordered hpoll
    split at heq
    · cases heq
      rw [List.append_nil]
      exact ⟨h.take hpending hordered hlost hwaiting, fun _ _ _ hin => absurd hin List.not_mem_nil⟩
    · rename_i hnone
      have hout : out = [] := not_not.mp hnone
      rw [hout, List.append_nil] at hordered
      rw [hout] at hlost
      split at heq
      · rename_i reason hended
        have hflushed : ∃ notes segments, (buffer.flush wall).1.Accounted notes
            (outs.filterMap Delivered.source ++ s.pending ++ (buffer.flush wall).2) segments := by
          obtain ⟨notes, segments, hordered⟩ := hordered
          obtain ⟨segments', h'⟩ := InboundReorderBuffer.flush_accounted hordered wall
          exact ⟨notes, segments', h'⟩
        have hlost' := InboundReorderBuffer.LostIs.flush hlost wall
        split at heq
        · cases heq
          rw [List.append_nil]
          exact ⟨h.take hpending hflushed hlost' hwaiting,
            fun _ _ _ hin => absurd hin List.not_mem_nil⟩
        · rename_i hempty
          have hflush : (buffer.flush wall).2 = [] := not_not.mp hempty
          cases heq
          rw [hflush, hpending] at hlost' hflushed
          rw [List.append_nil (_ ++ _)] at hflushed
          have hmore : (outs ++ [Delivered.ended reason]).filterMap Delivered.source =
              outs.filterMap Delivered.source := by
            rw [List.filterMap_append]
            exact List.append_nil _
          refine ⟨⟨?_, ?_, ?_, fun hw => ?_⟩, fun count next attempts hin => ?_⟩
          · rw [hmore]
            exact hflushed
          · rw [hmore]
            exact hlost'
          · rw [hmore]
            exact h.classified
          · exact absurd (hw : s.waiting = true) (by rw [hwaiting]; simp)
          · rw [List.mem_singleton] at hin
            contradiction
      · cases heq
        rw [hpending] at hordered hlost
        rw [List.append_nil]
        exact ⟨⟨hordered, hlost, h.classified, fun _ => ⟨rfl, hready⟩⟩,
          fun _ _ _ hin => absurd hin List.not_mem_nil⟩

theorem Accounts.message {msg : Option (RtpPacket ⊕ String)} {now : Instant}
    {wall : Nat → Instant} (h : Accounts outs s) (hs : s.message msg now wall = some t) :
    Accounts outs t := by
  cases msg with
  | none =>
    cases hs
    exact ⟨h.ordered, h.lost, h.classified, fun hw => by contradiction⟩
  | some msg =>
    cases msg with
    | inr e =>
      cases hs
      exact ⟨h.ordered, h.lost, h.classified, fun hw => by contradiction⟩
    | inl p =>
      obtain ⟨buffer, hpush, rfl⟩ := Option.map_eq_some_iff.mp hs
      refine ⟨?_, h.lost.push hpush, h.classified, fun hw => by contradiction⟩
      obtain ⟨notes, segments, hordered⟩ := h.ordered
      obtain ⟨c, segments', hpush', h'⟩ :=
        InboundReorderBuffer.push_accounted hordered p now wall
      rw [hpush, Option.some.injEq] at hpush'
      exact ⟨_, segments', hpush' ▸ h'⟩

theorem Accounts.goes_on (h : Accounts outs s) :
    (∀ now wall, s.waiting = false → (s.step D (.round now wall)).isSome) ∧
      ∀ msg now wall, s.waiting = true → (s.step D (.message msg now wall)).isSome := by
  obtain ⟨notes, segments, hordered⟩ := h.ordered
  constructor
  · intro now wall hwaiting
    obtain ⟨buffer, out, -, hpoll, -⟩ := InboundReorderBuffer.poll_accounted hordered now
    unfold Stage.step
    dsimp only
    rw [if_neg (by rw [hwaiting]; simp)]
    unfold Stage.round
    cases s.pending with
    | cons out rest => rfl
    | nil =>
      rw [hpoll]
      rfl
  · intro msg now wall hwaiting
    unfold Stage.step
    dsimp only
    rw [if_pos hwaiting]
    unfold Stage.message
    cases msg with
    | none => rfl
    | some msg =>
      cases msg with
      | inr e => rfl
      | inl p =>
        obtain ⟨buffer, segments', hpush, -⟩ :=
          InboundReorderBuffer.push_accounted hordered p now wall
        dsimp only
        rw [hpush]
        rfl

theorem new_accounts (d : δ) : Accounts ([] : List (Delivered φ)) (new d) :=
  ⟨⟨[], [], InboundReorderBuffer.new_accounted⟩, rfl, rfl, fun hw => by contradiction⟩

end Runs

/-- In every run: the output of the buffer leaves in order, delivered, pending and ready parts cut
at the resets into segments that tile the sequence numbers; once nothing is pending or ready, which
is so whenever a call waits, every packet declared lost has been counted once, as concealed by PLC,
by FEC, or not concealed; FEC serves only the last packet of a gap, with the payload of the packet
that follows; and the loop is never stuck. -/
theorem stage_accounts (D : OpusDecoder δ φ) (d : δ) {ops : List StageOp} {s : Stage δ}
    {outs : List (Delivered φ)} (hr : Machine.run (step D) (new d) ops = some (s, outs)) :
    (s.pending = [] → s.buffer.ready = [] → s.buffer.stats.lost =
      s.stats.plcDecodes + s.stats.fecDecodes + s.stats.lostNotConcealed) ∧
    (s.waiting = true → s.pending = [] ∧ s.buffer.ready = []) ∧
    (∀ count next attempts, .concealed count next attempts ∈ outs →
      attempts.length = min count MAX_CONCEALED_PACKETS ∧
        ∀ (i : Nat) (attempt : Attempt φ) (payload : List UInt8), attempts[i]? = some attempt →
          (attempt.means = .fec payload ↔ i + 1 = count ∧ next = some payload)) ∧
    (∃ segments : List (List StageOut),
      outs.filterMap Delivered.source ++ s.pending ++ s.buffer.ready = segments.flatten ∧
      ∀ segment ∈ segments, ∃ p m, segment.head? = some (.packet p) ∧
        Tiles p.sequenceNumber segment m) ∧
    (∀ now wall, s.waiting = false → (s.step D (.round now wall)).isSome) ∧
    ∀ msg now wall, s.waiting = true → (s.step D (.message msg now wall)).isSome := by
  obtain ⟨h, hfec⟩ := Machine.run_history (C := fun _ _ => True)
    (I := fun _ outs s => Accounts outs s ∧ ∀ count next attempts,
      .concealed count next attempts ∈ outs → FecLast count next attempts)
    (fun _ outs s op t more ⟨h, hfec⟩ _ hs => by
      cases op with
      | round now wall =>
        obtain ⟨hwaiting, hs⟩ := Option.ite_none_left_eq_some.mp hs
        obtain ⟨h', hfec'⟩ := h.round D (Bool.not_eq_true _ ▸ hwaiting) hs
        exact ⟨h', fun count next attempts hin =>
          (List.mem_append.mp hin).elim (hfec _ _ _) (hfec' _ _ _)⟩
      | message msg now wall =>
        obtain ⟨-, hs⟩ := Option.ite_none_right_eq_some.mp hs
        obtain ⟨u, hmessage, heq⟩ := Option.map_eq_some_iff.mp hs
        cases heq
        rw [List.append_nil]
        exact ⟨h.message hmessage, hfec⟩
      | wake =>
        obtain ⟨-, hs⟩ := Option.ite_none_right_eq_some.mp hs
        cases hs
        rw [List.append_nil]
        exact ⟨⟨h.ordered, h.lost, h.classified, fun hw => by contradiction⟩, hfec⟩)
    ⟨new_accounts d, fun _ _ _ hin => absurd hin List.not_mem_nil⟩
    (Machine.along_of_forall_mem (P := fun _ => True) (fun _ _ => trivial) _) hr
  refine ⟨fun hpending hready => ?_, h.drained, hfec, ?_, h.goes_on D⟩
  · have hlost : s.buffer.stats.lost = _ + lostOf s.buffer.ready := h.lost
    rw [hready, hpending, List.append_nil, ← h.classified] at hlost
    exact hlost
  · obtain ⟨notes, segments, hordered⟩ := h.ordered
    exact ⟨segments, hordered.output, hordered.tiled⟩

/-- A decoder without state that always succeeds with one frame. -/
def frameDecoder : OpusDecoder Unit Nat where
  tryDecodePayload := fun d _ => (some [1], d)
  concealPlc := fun d _ => (some [2], d)
  decodeFec := fun d _ _ => (some [3], d)
  lastPacketSamples := fun _ => 960
  silenceFrame := 0

theorem zero_lt_two_pow_16 : 0 < 2 ^ 16 := by decide

theorem three_lt_two_pow_16 : 3 < 2 ^ 16 := by decide

/-- Packets 0 and 3 arrive; the gap between them is given up at 30 ms. -/
def gapOfTwo : List StageOp :=
  [.round 0 fun _ => 0, .message (some (.inl ⟨[], 0, 0, 111, zero_lt_two_pow_16⟩)) 0 fun _ => 0,
    .round 0 fun _ => 0, .round 0 fun _ => 0, .round 0 fun _ => 0,
    .message (some (.inl ⟨[7], 3, 0, 111, three_lt_two_pow_16⟩)) 0 fun _ => 0,
    .round (fromMillis 30) fun _ => 0, .round (fromMillis 30) fun _ => 0,
    .round (fromMillis 30) fun _ => 0, .round (fromMillis 30) fun _ => 0]

/-- One packet is concealed by PLC and one by FEC. -/
theorem stage_accounts_gap : ∃ s outs,
    Machine.run (step frameDecoder) (new ()) gapOfTwo = some (s, outs) ∧
      s.stats.plcDecodes = 1 ∧ s.stats.fecDecodes = 1 ∧ s.buffer.stats.lost = 2 := by
  have hruns : (Machine.run (step frameDecoder) (new ()) gapOfTwo).any (fun r => r.1.waiting &&
      r.1.stats.plcDecodes == 1 && r.1.stats.fecDecodes == 1 &&
      r.1.stats.lostNotConcealed == 0) = true := by
    decide +kernel
  obtain ⟨⟨s, outs⟩, hr, hcounts⟩ := (Option.any_eq_true _ _).mp hruns
  simp only [Bool.and_eq_true, beq_iff_eq] at hcounts
  obtain ⟨⟨⟨hwaiting, hplc⟩, hfec⟩, hnot⟩ := hcounts
  obtain ⟨hpending, hready⟩ := (stage_accounts frameDecoder () hr).2.1 hwaiting
  refine ⟨s, outs, hr, hplc, hfec, ?_⟩
  rw [(stage_accounts frameDecoder () hr).1 hpending hready, hplc, hfec, hnot]

end Stage

end NodeWebrtc.InboundAudio
