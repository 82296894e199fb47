import NodeWebrtc.Lib.Machine
import NodeWebrtc.Lib.OrdMap
import NodeWebrtc.Lib.Word

/-! # The inbound RTP reorder buffer

Packets are pushed as they arrive and leave in sequence order; a gap is declared lost when
it has waited long enough or more than 50 packets are held behind it. Sequence numbers are
unwrapped to integers around the highest one seen. The counters of the stage that this
buffer writes are kept; the rest of the stage is not part of the model.
-/

namespace NodeWebrtc.InboundAudio

open Std

def MIN_WAIT : Duration := fromMillis 20
def MAX_WAIT : Duration := fromMillis 60
def WAIT_MARGIN : Duration := fromMillis 5
def OBSERVATION_WINDOW : Duration := fromMillis 10000
def MAX_OBSERVATIONS : Nat := 64
def RESET_JUMP : Nat := 1000
def MAX_HELD : Nat := 50
def MAX_LOST_RANGES : Nat := 64

/-- One RTP packet; its sequence number is a `u16`. -/
structure RtpPacket where
  payload : List UInt8
  sequenceNumber : Nat
  timestamp : Nat
  payloadType : Nat
  sequenceNumber_lt : sequenceNumber < 2 ^ 16
deriving DecidableEq

/-- Output of the reorder buffer, in sequence order. -/
inductive StageOut where
  | packet (p : RtpPacket)
  | lost (count : Nat) (next : Option (List UInt8))
deriving DecidableEq

structure Held where
  packet : RtpPacket
  arrived : Instant

structure LostRange where
  start : Int
  stop : Int
  gapSince : Instant

structure InboundAudioStageStats where
  packetsReceived : Nat
  packetsDiscarded : Nat
  reordered : Nat
  lost : Nat
  lateAfterLoss : Nat
  resets : Nat
  currentWaitMs : Nat

structure InboundReorderBuffer where
  stats : InboundAudioStageStats
  next : Option Int
  maxExt : Int
  held : ExtTreeMap Int Held
  ready : List StageOut
  gapSince : Option Instant
  lostRanges : List LostRange
  observations : List (Instant × Duration)
  wait : Duration

def wrappingSubAsI16 (x y : Nat) : Int :=
  let d := asU16 (x + 2 ^ 16 - y)
  if d < 2 ^ 15 then d else (d : Int) - 2 ^ 16

def asU16OfInt (x : Int) : Nat := (x % 2 ^ 16).toNat

/-- The last `n` entries of a queue that is popped at its front. -/
def keepLast {α : Type} (n : Nat) (xs : List α) : List α := xs.drop (xs.length - n)

namespace InboundReorderBuffer

def new : InboundReorderBuffer where
  stats := ⟨0, 0, 0, 0, 0, 0, MIN_WAIT / 1000000⟩
  next := none
  maxExt := 0
  held := ∅
  ready := []
  gapSince := none
  lostRanges := []
  observations := []
  wait := MIN_WAIT

def nextDeadline (b : InboundReorderBuffer) : Option Instant :=
  if b.held.isEmpty then none else b.gapSince.map (· + b.wait)

/-- Drops expired observations and derives the wait from the rest. -/
def refreshWait (b : InboundReorderBuffer) (now : Instant) : InboundReorderBuffer :=
  let observations := b.observations.dropWhile fun o =>
    decide (OBSERVATION_WINDOW ≤ saturatingDurationSince now o.1)
  let longest := (observations.map Prod.snd).foldl max 0
  let wait := max MIN_WAIT (min MAX_WAIT (longest + WAIT_MARGIN))
  { b with
    observations := observations
    wait := wait
    stats := { b.stats with currentWaitMs := wait / 1000000 } }

def observe (b : InboundReorderBuffer) (now : Instant) (delay : Duration) :
    InboundReorderBuffer :=
  { b with observations := keepLast MAX_OBSERVATIONS (b.observations ++ [(now, delay)]) }.refreshWait
    now

/-- Declares `start .. stop` lost. The gap is not negative, so the cast of its width to
`u64` is exact. -/
def declareLost (b : InboundReorderBuffer) (start stop : Int) (gapSinceFallback : Instant) :
    InboundReorderBuffer :=
  let count := (stop - start).toNat
  { b with
    stats := { b.stats with lost := b.stats.lost + count }
    lostRanges := keepLast MAX_LOST_RANGES
      (b.lostRanges ++ [⟨start, stop, b.gapSince.getD gapSinceFallback⟩])
    ready := b.ready ++ [.lost count (b.held[stop]?.map (·.packet.payload))]
    next := some stop }

/-- Moves the held packet with the lowest number to the ready queue. -/
def emitHeldHead (b : InboundReorderBuffer) : InboundReorderBuffer :=
  match OrdMap.first? b.held with
  | none => b
  | some (ext, h) =>
    { b with
      held := b.held.erase ext
      next := some (ext + 1)
      ready := b.ready ++ [.packet h.packet] }

theorem emitHeldHead_eq {b : InboundReorderBuffer} {ext : Int} {h : Held}
    (hfirst : OrdMap.first? b.held = some (ext, h)) :
    b.emitHeldHead =
      { b with
        held := b.held.erase ext
        next := some (ext + 1)
        ready := b.ready ++ [.packet h.packet] } := by
  unfold emitHeldHead
  rw [hfirst]

theorem size_emitHeldHead {b : InboundReorderBuffer} {ext : Int} {h : Held}
    (hfirst : OrdMap.first? b.held = some (ext, h)) :
    b.emitHeldHead.held.size + 1 = b.held.size := by
  rw [emitHeldHead_eq hfirst, ← ExtTreeMap.length_toList, ← ExtTreeMap.length_toList,
    (OrdMap.toList_erase_perm (OrdMap.first?_eq_some hfirst).1).length_eq]
  rfl

/-- One round of `flushHeld` for the lowest held number `first`. -/
def flushRound (b : InboundReorderBuffer) (first : Int) (reading : Instant) :
    InboundReorderBuffer :=
  let next := b.next.getD first
  let b := if first ≠ next then b.declareLost next first reading else b
  b.emitHeldHead

theorem flushRound_size {b : InboundReorderBuffer} {first : Int} {h : Held}
    (hfirst : OrdMap.first? b.held = some (first, h)) (reading : Instant) :
    (b.flushRound first reading).held.size + 1 = b.held.size := by
  unfold flushRound
  dsimp only
  split
  · exact size_emitHeldHead (b := b.declareLost _ first reading) hfirst
  · exact size_emitHeldHead hfirst

/-- Empties the held packets into the ready queue; `wall` gives the readings of the clock,
one a round. -/
def flushHeld (b : InboundReorderBuffer) (wall : Nat → Instant) : InboundReorderBuffer :=
  match hfirst : OrdMap.first? b.held with
  | none => { b with gapSince := none }
  | some (first, _) => (b.flushRound first (wall 0)).flushHeld fun round => wall (round + 1)
termination_by b.held.size
decreasing_by
  have hsize := flushRound_size hfirst (wall 0)
  omega

/-- Twice the packets held, and one more while a gap stands before them. -/
def pending (b : InboundReorderBuffer) : Nat :=
  2 * b.held.size + if b.next = (OrdMap.first? b.held).map Prod.fst then 0 else 1

theorem pending_of_gap {b : InboundReorderBuffer} {first next : Int} {h : Held}
    (hfirst : OrdMap.first? b.held = some (first, h)) (hnext : b.next = some next)
    (hne : first ≠ next) : b.pending = 2 * b.held.size + 1 := by
  unfold pending
  rw [hfirst, hnext, if_neg]
  simp [Ne.symm hne]

theorem pending_of_filled {b : InboundReorderBuffer} {first : Int} {h : Held}
    (hfirst : OrdMap.first? b.held = some (first, h)) (hnext : b.next = some first) :
    b.pending = 2 * b.held.size := by
  unfold pending
  rw [hfirst, hnext, if_pos]
  · rfl
  · rfl

theorem pending_le (b : InboundReorderBuffer) : b.pending ≤ 2 * b.held.size + 1 := by
  unfold pending
  split <;> omega

/-- The round of `advance` for a lowest held packet that is the next one. -/
def emitNext (b : InboundReorderBuffer) : InboundReorderBuffer :=
  { b.emitHeldHead with gapSince := none }

/-- The round of `advance` for a gap that has waited long enough. -/
def giveUpGap (b : InboundReorderBuffer) (next first : Int) (now : Instant) :
    InboundReorderBuffer :=
  { b.declareLost next first now with gapSince := none }

set_option linter.unusedVariables false in
/-- Emits what is in order, and declares the head gap lost once it has waited or too much
is held behind it. `none` is the failed `expect`: something is held before a first packet. -/
def advance (b : InboundReorderBuffer) (now : Instant) : Option InboundReorderBuffer :=
  match hfirst : OrdMap.first? b.held with
  | none => some { b with gapSince := none }
  | some (first, head) =>
    match hnext : b.next with
    | none => none
    | some next =>
      if first = next then b.emitNext.advance now
      else
        let since := b.gapSince.getD head.arrived
        let b' := { b with gapSince := some since }
        if since + b.wait ≤ now ∨ MAX_HELD < b.held.size then
          (b'.giveUpGap next first now).advance now
        else some b'
termination_by b.pending
decreasing_by
  · rename_i heq
    have hbefore := pending_of_filled hfirst (heq ▸ hnext)
    have hafter := pending_le b.emitNext
    have hsize := size_emitHeldHead hfirst
    unfold emitNext at hafter ⊢
    dsimp only at hafter ⊢
    omega
  · rename_i hne _
    have hbefore := pending_of_gap hfirst hnext hne
    have hafter := @pending_of_filled (b'.giveUpGap next first now) first _ hfirst rfl
    rw [hbefore, hafter]
    exact Nat.lt_succ_self _

/-- Starts over at a packet that is too far from the highest number seen. -/
def reset (b : InboundReorderBuffer) (packet : RtpPacket) (wall : Nat → Instant) :
    InboundReorderBuffer :=
  let b := { b with stats := { b.stats with resets := b.stats.resets + 1 } }
  let b := b.flushHeld wall
  let ext : Int := packet.sequenceNumber
  { b with
    lostRanges := []
    gapSince := none
    next := some (ext + 1)
    maxExt := ext
    ready := b.ready ++ [.packet packet] }

/-- The signed distance of a sequence number from the highest one seen. -/
def distance (b : InboundReorderBuffer) (packet : RtpPacket) : Int :=
  wrappingSubAsI16 packet.sequenceNumber (asU16OfInt b.maxExt)

def countReceived (b : InboundReorderBuffer) : InboundReorderBuffer :=
  { b with stats := { b.stats with packetsReceived := b.stats.packetsReceived + 1 } }

def countDiscarded (b : InboundReorderBuffer) : InboundReorderBuffer :=
  { b with stats := { b.stats with packetsDiscarded := b.stats.packetsDiscarded + 1 } }

/-- A packet before the next one: counted, and observed when its gap is remembered. -/
def discardLate (b : InboundReorderBuffer) (ext : Int) (now : Instant) : InboundReorderBuffer :=
  let b := b.countDiscarded
  match b.lostRanges.find? fun r => decide (r.start ≤ ext) && decide (ext < r.stop) with
  | none => b
  | some r =>
    { b with
      stats := { b.stats with lateAfterLoss := b.stats.lateAfterLoss + 1 } }.observe now
      (saturatingDurationSince now r.gapSince)

/-- The rest of `push` for a packet that is neither late nor held. -/
def accept (b : InboundReorderBuffer) (packet : RtpPacket) (next ext : Int) (now : Instant) :
    Option InboundReorderBuffer :=
  let b :=
    if ext < b.maxExt then { b with stats := { b.stats with reordered := b.stats.reordered + 1 } }
    else b
  let b := if b.maxExt < ext then { b with maxExt := ext } else b
  if ext = next ∧ b.held.isEmpty then
    some { b with next := some (next + 1), ready := b.ready ++ [.packet packet] }
  else
    let b :=
      if ext = next then
        match b.gapSince with
        | some since => b.observe now (saturatingDurationSince now since)
        | none => b
      else b
    { b with held := b.held.insert ext ⟨packet, now⟩ }.advance now

def push (b : InboundReorderBuffer) (packet : RtpPacket) (now : Instant) (wall : Nat → Instant) :
    Option InboundReorderBuffer :=
  let b := b.countReceived.refreshWait now
  match b.next with
  | none =>
    let ext : Int := packet.sequenceNumber
    some { b with next := some (ext + 1), maxExt := ext, ready := b.ready ++ [.packet packet] }
  | some next =>
    let diff := b.distance packet
    if RESET_JUMP < diff.natAbs then some (b.reset packet wall)
    else
      let ext := b.maxExt + diff
      if ext < next then some (b.discardLate ext now)
      else if b.held.contains ext then some b.countDiscarded
      else b.accept packet next ext now

def poll (b : InboundReorderBuffer) (now : Instant) :
    Option (InboundReorderBuffer × List StageOut) :=
  ((b.refreshWait now).advance now).map fun b => ({ b with ready := [] }, b.ready)

def flush (b : InboundReorderBuffer) (wall : Nat → Instant) :
    InboundReorderBuffer × List StageOut :=
  let b := b.flushHeld wall
  ({ b with ready := [] }, b.ready)

end InboundReorderBuffer

/-! ## Calls as a machine -/

/-- A call on the buffer; `wall` gives what the clock reads during the call. -/
inductive ReorderCall where
  | push (packet : RtpPacket) (now : Instant) (wall : Nat → Instant)
  | poll (now : Instant)
  | flush (wall : Nat → Instant)

def InboundReorderBuffer.step : Machine.Step InboundReorderBuffer ReorderCall StageOut
  | b, .push packet now wall => (b.push packet now wall).map fun b => (b, [])
  | b, .poll now => b.poll now
  | b, .flush wall => some (b.flush wall)

end NodeWebrtc.InboundAudio
