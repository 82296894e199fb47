import NodeWebrtc.Lib.Machine
import NodeWebrtc.Lib.Stream
import NodeWebrtc.Mixer.Frame

/-! # The native mix pump

A queue of full TTS frames fed in pieces of any size, a scheduler that plans the 20 ms
slots due at a timer tick, and the loop that drives both. Calls on the queue come from
other threads: while a tick or a burst pops frames, any of them may take effect in between.
Mixing and writing a frame is not part of the model; what is planned and what leaves the
queue is put out as events.
-/

namespace NodeWebrtc.MixPump

open Mixer (FRAME_BYTES)

def PUMP_FRAME : Duration := fromMillis 20
def PUMP_MAX_FRAMES_PER_TICK : Nat := 4
def TTS_ACTIVE_WINDOW : Duration := fromMillis 60
def TTS_MAX_CONSECUTIVE_SKIPS : Nat := 3

/-! ## The queue -/

structure NativeTtsQueue where
  frames : List (List UInt8)
  carry : List UInt8
  lastEnqueue : Option Instant
  maxDepth : Nat

namespace NativeTtsQueue

def new : NativeTtsQueue := ⟨[], [], none, 0⟩

def completeFrames (bytes : List UInt8) : List (List UInt8) := Stream.chunks FRAME_BYTES bytes

/-- Appends PCM; every complete chunk becomes one queued frame. -/
def pushPcm (q : NativeTtsQueue) (pcm : List UInt8) (now : Instant) : NativeTtsQueue :=
  let carry := q.carry ++ pcm
  let n := carry.length / FRAME_BYTES
  if n = 0 then { q with carry := carry }
  else
    let frames := q.frames ++ completeFrames carry
    { frames := frames
      carry := Stream.remainder FRAME_BYTES carry
      lastEnqueue := some now
      maxDepth := max q.maxDepth frames.length }

def pop (q : NativeTtsQueue) : Option (List UInt8) × NativeTtsQueue :=
  (q.frames.head?, { q with frames := q.frames.tail })

/-- Drops queued frames and the partial carry; returns the discarded frame count. -/
def discard (q : NativeTtsQueue) : Nat × NativeTtsQueue :=
  (asU32 q.frames.length, { q with frames := [], carry := [] })

/-- The bytes in the queue, in the order they were pushed. -/
def bytes (q : NativeTtsQueue) : List UInt8 := q.frames.flatten ++ q.carry

end NativeTtsQueue

/-! ## Events -/

/-- What a pump does in one due slot, at the slot's time. -/
inductive SlotDecision (T : Type) where
  | tts (frame : List UInt8) (at_ : T)
  | silence (at_ : T)
  | skip (at_ : T)
deriving DecidableEq

def SlotDecision.time {T : Type} : SlotDecision T → T
  | .tts _ at_ | .silence at_ | .skip at_ => at_

/-- What happens at a pump: the slots it plans at a tick, the clock rebase after a stall, a
burst frame, and the bytes that enter the queue or are discarded. -/
inductive PumpEvent (T : Type) where
  | slot (now : T) (decision : SlotDecision T)
  | rebase (anchor : T)
  | burst (tts : Option (List UInt8)) (at_ : T)
  | pushed (pcm : List UInt8)
  | discarded (bytes : List UInt8)
deriving DecidableEq

inductive QueueCall where
  | pushPcm (pcm : List UInt8) (now : Instant)
  | discard

def NativeTtsQueue.call (q : NativeTtsQueue) : QueueCall → NativeTtsQueue × List (PumpEvent Instant)
  | .pushPcm pcm now => (q.pushPcm pcm now, [.pushed pcm])
  | .discard => (q.discard.2, [.discarded q.bytes])

def NativeTtsQueue.calls (q : NativeTtsQueue) :
    List QueueCall → NativeTtsQueue × List (PumpEvent Instant)
  | [] => (q, [])
  | call :: rest =>
    let (q, first) := q.call call
    let (q, more) := q.calls rest
    (q, first ++ more)

/-! ## The scheduler -/

structure PumpScheduler where
  anchor : Instant
  written : Nat
  consecutiveSkips : Nat
  queueWasNonEmpty : Bool
  rebases : Nat
  skipped : Nat

namespace PumpScheduler

def new (now : Instant) : PumpScheduler := ⟨now, 0, 0, false, 0, 0⟩

def resume (s : PumpScheduler) (now : Instant) : PumpScheduler :=
  { s with anchor := now, written := 0, consecutiveSkips := 0 }

/-- One round of the slot loop of `planTick`, given what the queue popped. -/
def planSlot (s : PumpScheduler) (ttsActive : Bool) (tts : Option (List UInt8)) :
    PumpScheduler × SlotDecision Instant :=
  let at_ := s.anchor + PUMP_FRAME * asU32 (s.written + 1)
  match tts with
  | some frame => ({ s with written := s.written + 1, consecutiveSkips := 0 }, .tts frame at_)
  | none =>
    if ttsActive ∧ s.consecutiveSkips < TTS_MAX_CONSECUTIVE_SKIPS then
      ({ s with
        consecutiveSkips := s.consecutiveSkips + 1
        written := s.written + 1
        skipped := s.skipped + 1 }, .skip at_)
    else ({ s with written := s.written + 1, consecutiveSkips := 0 }, .silence at_)

/-- The slot loop: `budget` rounds, with what happens to the queue before each pop. -/
def planSlots (now : Instant) (ttsActive : Bool) (s : PumpScheduler) (q : NativeTtsQueue)
    (meanwhile : Nat → List QueueCall) :
    Nat → PumpScheduler × NativeTtsQueue × List (PumpEvent Instant)
  | 0 => (s, q, [])
  | budget + 1 =>
    let (q, before) := q.calls (meanwhile 0)
    let (tts, q) := q.pop
    let (s, decision) := s.planSlot ttsActive tts
    let (s, q, more) :=
      s.planSlots now ttsActive q (fun round => meanwhile (round + 1)) budget
    (s, q, before ++ .slot now decision :: more)

def elapsedSlots (s : PumpScheduler) (now : Instant) : Nat :=
  asU64 (saturatingDurationSince now s.anchor / PUMP_FRAME)

def skipStalled (s : PumpScheduler) (due : Nat) : PumpScheduler :=
  if due > PUMP_MAX_FRAMES_PER_TICK then
    { s with written := s.written + (due - PUMP_MAX_FRAMES_PER_TICK) }
  else s

def rebase (s : PumpScheduler) (now : Instant) : PumpScheduler :=
  let back := PUMP_FRAME * asU32 s.written
  { s with anchor := (checkedSub now back).getD now, rebases := s.rebases + 1 }

/-- The slot loop, and the reading of the queue length for the next tick. -/
def planDue (s : PumpScheduler) (q : NativeTtsQueue) (now : Instant) (ttsActive : Bool)
    (meanwhile : Nat → List QueueCall) (budget : Nat) :
    PumpScheduler × NativeTtsQueue × List (PumpEvent Instant) :=
  let (s, q, slots) := s.planSlots now ttsActive q meanwhile budget
  let (q, after) := q.calls (meanwhile budget)
  ({ s with queueWasNonEmpty := !q.frames.isEmpty }, q, slots ++ after)

def planTick (s : PumpScheduler) (q : NativeTtsQueue) (now : Instant) (ttsActiveRecent : Bool)
    (meanwhile : Nat → List QueueCall) :
    PumpScheduler × NativeTtsQueue × List (PumpEvent Instant) :=
  let due := s.elapsedSlots now - s.written
  if due = 0 then (s, q, [])
  else
    let ttsActive := s.queueWasNonEmpty || ttsActiveRecent
    let (s, q, events) := (s.skipStalled due).planDue q now ttsActive meanwhile
      (min due PUMP_MAX_FRAMES_PER_TICK)
    if due > PUMP_MAX_FRAMES_PER_TICK then
      (s.rebase now, q, events ++ [.rebase (s.rebase now).anchor])
    else (s, q, events)

end PumpScheduler

/-! ## The pump loop -/

structure Pump where
  sched : PumpScheduler
  paused : Bool
  seenEnqueue : Option Instant
  queue : NativeTtsQueue

/-- A queue call, a pump command or a timer tick; `meanwhile` gives the queue calls that
take effect before each pop of a tick or burst, and `clock` the readings during a burst. -/
inductive PumpInput where
  | queue (call : QueueCall)
  | pause
  | resume (now : Instant)
  | burst (frames : Nat) (clock : Nat → Instant) (meanwhile : Nat → List QueueCall)
  | tick (now : Instant) (meanwhile : Nat → List QueueCall)

namespace Pump

def spawn (now : Instant) : Pump := ⟨.new now, false, none, .new⟩

/-- The frames of a burst: a queued frame each, or silence. -/
def burstFrames (q : NativeTtsQueue) (clock : Nat → Instant) (meanwhile : Nat → List QueueCall) :
    Nat → NativeTtsQueue × List (PumpEvent Instant)
  | 0 => (q, [])
  | frames + 1 =>
    let (q, before) := q.calls (meanwhile 0)
    let (tts, q) := q.pop
    let (q, more) := burstFrames q (fun i => clock (i + 1)) (fun i => meanwhile (i + 1)) frames
    (q, before ++ .burst tts (clock 0) :: more)

def noteEnqueue (p : Pump) : Pump :=
  if p.queue.lastEnqueue ≠ p.seenEnqueue then
    { p with
      seenEnqueue := p.queue.lastEnqueue
      sched := { p.sched with consecutiveSkips := 0 } }
  else p

/-- Whether a frame was queued within the active window. -/
def enqueuedRecently (last : Option Instant) (now : Instant) : Bool :=
  match last with
  | some t => decide (saturatingDurationSince now t ≤ TTS_ACTIVE_WINDOW)
  | none => false

/-- One round of the loop. The timer does not fire while the pump is paused. -/
def step : Machine.Step Pump PumpInput (PumpEvent Instant)
  | p, .queue call =>
    let (q, events) := p.queue.call call
    some ({ p with queue := q }, events)
  | p, .pause => some ({ p with paused := true }, [])
  | p, .resume now => some ({ p with sched := p.sched.resume now, paused := false }, [])
  | p, .burst frames clock meanwhile =>
    let (q, events) := burstFrames p.queue clock meanwhile frames
    some ({ p with queue := q }, events)
  | p, .tick now meanwhile =>
    if p.paused then some (p, [])
    else
      let recent := enqueuedRecently p.queue.lastEnqueue now
      let p := p.noteEnqueue
      let (sched, q, events) := p.sched.planTick p.queue now recent meanwhile
      some ({ p with sched := sched, queue := q }, events)

end Pump

end NodeWebrtc.MixPump
