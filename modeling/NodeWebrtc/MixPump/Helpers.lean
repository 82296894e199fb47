import NodeWebrtc.MixPump.Native

/-! # The helpers mix pump

The pump of the helpers package for one peer: the queue that the sidecar tee fills, and
`pumpMixFrame`. Times are nanoseconds on the clock of `performance.now`, as integers, since
a rebase may put the start of the slot clock before its origin. A tick takes effect at once.
-/

namespace NodeWebrtc.MixPump

def PCM_FULL_FRAME_BYTES : Nat := 3840
def PCM_FRAME_DURATION_MS : Int := 20
def TTS_ACTIVE_WINDOW_MS : Int := 60

def ms (n : Int) : Int := n * 1000000

structure PeerMixState where
  ttsQueue : List (List UInt8)
  sidecarLeftover : List UInt8
  pumpInterval : Bool
  pumpT0 : Int
  pumpWritten : Int
  lastSidecarEnqueueAt : Option Int
  queueWasNonEmptyLastTick : Bool
  consecutiveTtsSkips : Nat

namespace PeerMixState

/-- A fresh peer whose pump has just been started. -/
def startMixPump (now : Int) : PeerMixState := ⟨[], [], true, now, 0, none, false, 0⟩

def enqueueTtsFrame (s : PeerMixState) (frame : List UInt8) (now : Int) : PeerMixState :=
  { s with
    ttsQueue := s.ttsQueue ++ [frame]
    lastSidecarEnqueueAt := some now
    consecutiveTtsSkips := 0 }

/-- The tee of the TTS sidecar: queues the full frames and keeps the rest. -/
def writeSampleTee (s : PeerMixState) (pcm : List UInt8) (now : Int) : PeerMixState :=
  let combined := s.sidecarLeftover ++ pcm
  let s := (Stream.chunks PCM_FULL_FRAME_BYTES combined).foldl
    (fun s frame => s.enqueueTtsFrame frame now) s
  { s with sidecarLeftover := Stream.remainder PCM_FULL_FRAME_BYTES combined }

def discardQueuedTts (s : PeerMixState) : PeerMixState :=
  { s with ttsQueue := [], sidecarLeftover := [], queueWasNonEmptyLastTick := false }

def pauseMixPump (s : PeerMixState) : PeerMixState := { s with pumpInterval := false }

def resumeMixPump (s : PeerMixState) (now : Int) : PeerMixState :=
  if s.pumpInterval then s
  else { s with pumpT0 := now, pumpWritten := 0, consecutiveTtsSkips := 0, pumpInterval := true }

def tryDequeueTts (s : PeerMixState) : Option (List UInt8) × PeerMixState :=
  (s.ttsQueue.head?, { s with ttsQueue := s.ttsQueue.tail })

def isTtsStreamActive (s : PeerMixState) (now : Int) : Bool :=
  s.queueWasNonEmptyLastTick ||
    match s.lastSidecarEnqueueAt with
    | some t => decide (now - t ≤ ms TTS_ACTIVE_WINDOW_MS)
    | none => false

/-- One round of the slot loop of `pumpMixFrame`, given what was dequeued. -/
def playSlot (s : PeerMixState) (now : Int) (tts : Option (List UInt8)) :
    PeerMixState × SlotDecision Int :=
  let slotMs := s.pumpT0 + (s.pumpWritten + 1) * ms PCM_FRAME_DURATION_MS
  match tts with
  | some frame =>
    ({ s with pumpWritten := s.pumpWritten + 1, consecutiveTtsSkips := 0 }, .tts frame slotMs)
  | none =>
    if s.isTtsStreamActive now ∧ s.consecutiveTtsSkips < TTS_MAX_CONSECUTIVE_SKIPS then
      ({ s with
        consecutiveTtsSkips := s.consecutiveTtsSkips + 1
        pumpWritten := s.pumpWritten + 1 }, .skip slotMs)
    else ({ s with pumpWritten := s.pumpWritten + 1, consecutiveTtsSkips := 0 }, .silence slotMs)

def pumpSlots (now : Int) (s : PeerMixState) : Nat → PeerMixState × List (PumpEvent Int)
  | 0 => (s, [])
  | budget + 1 =>
    let (tts, s) := s.tryDequeueTts
    let (s, decision) := s.playSlot now tts
    let (s, more) := s.pumpSlots now budget
    (s, .slot now decision :: more)

def rebasePumpClock (s : PeerMixState) (now : Int) : PeerMixState :=
  { s with pumpT0 := now - s.pumpWritten * ms PCM_FRAME_DURATION_MS }

def skipStalled (s : PeerMixState) (due : Int) : PeerMixState :=
  if due > PUMP_MAX_FRAMES_PER_TICK then
    { s with pumpWritten := s.pumpWritten + (due - PUMP_MAX_FRAMES_PER_TICK) }
  else s

def pumpMixFrame (s : PeerMixState) (now : Int) : PeerMixState × List (PumpEvent Int) :=
  let due := (now - s.pumpT0) / ms PCM_FRAME_DURATION_MS - s.pumpWritten
  if due ≤ 0 then (s, [])
  else
    let slotBudget := (min due PUMP_MAX_FRAMES_PER_TICK).toNat
    let (s, events) := (s.skipStalled due).pumpSlots now slotBudget
    let s := { s with queueWasNonEmptyLastTick := !s.ttsQueue.isEmpty }
    if due > PUMP_MAX_FRAMES_PER_TICK then
      (s.rebasePumpClock now, events ++ [.rebase (s.rebasePumpClock now).pumpT0])
    else (s, events)

end PeerMixState

/-! ## Twin operations -/

/-- An operation that reaches whichever of the two pumps the peer uses. -/
inductive TwinOp where
  | queueTts (pcm : List UInt8) (now : Instant)
  | discardQueuedTts
  | pauseMixPump
  | resumeMixPump (now : Instant)
  | timer (now : Instant)

def TwinOp.native : TwinOp → PumpInput
  | .queueTts pcm now => .queue (.pushPcm pcm now)
  | .discardQueuedTts => .queue .discard
  | .pauseMixPump => .pause
  | .resumeMixPump now => .resume now
  | .timer now => .tick now fun _ => []

def nativeStep : Machine.Step Pump TwinOp (PumpEvent Instant) := fun p op => p.step op.native

/-- The helpers pump under the operations. The interval does not fire while it is cleared. -/
def helpersStep : Machine.Step PeerMixState TwinOp (PumpEvent Int)
  | s, .queueTts pcm now => some (s.writeSampleTee pcm now, [.pushed pcm])
  | s, .discardQueuedTts =>
    some (s.discardQueuedTts, [.discarded (s.ttsQueue.flatten ++ s.sidecarLeftover)])
  | s, .pauseMixPump => some (s.pauseMixPump, [])
  | s, .resumeMixPump now => some (s.resumeMixPump now, [])
  | s, .timer now => some (if s.pumpInterval then s.pumpMixFrame now else (s, []))

def SlotDecision.map {T U : Type} (f : T → U) : SlotDecision T → SlotDecision U
  | .tts frame at_ => .tts frame (f at_)
  | .silence at_ => .silence (f at_)
  | .skip at_ => .skip (f at_)

def PumpEvent.map {T U : Type} (f : T → U) : PumpEvent T → PumpEvent U
  | .slot now decision => .slot (f now) (decision.map f)
  | .rebase anchor => .rebase (f anchor)
  | .burst tts at_ => .burst tts (f at_)
  | .pushed pcm => .pushed pcm
  | .discarded bytes => .discarded bytes

end NodeWebrtc.MixPump
