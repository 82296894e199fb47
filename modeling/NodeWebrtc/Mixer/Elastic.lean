import NodeWebrtc.Mixer.Frame

/-! # The elastic per-source queue

A source pushes frames whenever they arrive; the mix graph pops one per 20 ms media
tick. The queue prefills to an adaptive target, merges two frames per tick while it is
too deep, conceals one empty tick by a faded repeat, and merges its two oldest frames
at capacity. Log lines and metrics are not part of the model.
-/

namespace NodeWebrtc.Mixer

def QUEUE_CAPACITY : Nat := 50
def MIN_TARGET_FRAMES : Nat := 2
def MAX_TARGET_FRAMES : Nat := 8
def SHRINK_MARGIN_FRAMES : Nat := 2
def SHRINK_AFTER_TICKS : Nat := 10
def REPREFILL_AFTER_EMPTY_TICKS : Nat := 3
def TALKSPURT_GAP : Duration := fromMillis 200

structure SourceStats where
  pushed : Nat
  played : Nat
  compressed : Nat
  concealed : Nat
  overflowCompressed : Nat
  decodeErrors : Nat
  listenerCatchupCompressed : Nat
  listenerSkipped : Nat
  depth : Nat
  target : Nat
deriving DecidableEq

/-- Adaptive FIFO for one mix source, oldest frame first. -/
structure ElasticFrameQueue (D : MixDsp) where
  frames : List Frame
  prefilling : Bool
  prefillWaited : Nat
  overTicks : Nat
  emptyTicks : Nat
  lastPlayed : Option Frame
  lastArrival : Option Instant
  jitterMs : D.Jitter
  target : Nat
  pushed : Nat
  played : Nat
  compressed : Nat
  concealed : Nat
  overflowCompressed : Nat
  decodeErrors : Nat

namespace ElasticFrameQueue

variable {D : MixDsp}

def new (D : MixDsp) : ElasticFrameQueue D where
  frames := []
  prefilling := true
  prefillWaited := 0
  overTicks := 0
  emptyTicks := 0
  lastPlayed := none
  lastArrival := none
  jitterMs := D.jitterZero
  target := MIN_TARGET_FRAMES
  pushed := 0
  played := 0
  compressed := 0
  concealed := 0
  overflowCompressed := 0
  decodeErrors := 0

/-- `frames.clamp(MIN_TARGET_FRAMES, MAX_TARGET_FRAMES)`. -/
def clampTarget (frames : Nat) : Nat := max MIN_TARGET_FRAMES (min MAX_TARGET_FRAMES frames)

/-- A gap above `TALKSPURT_GAP` is a pause and re-enters prefill; a shorter one moves
the jitter average and the target. -/
def updateJitter (q : ElasticFrameQueue D) (now : Instant) : ElasticFrameQueue D :=
  match q.lastArrival with
  | none => { q with lastArrival := some now }
  | some prev =>
    let gap := saturatingDurationSince now prev
    if gap > TALKSPURT_GAP then
      { q with prefilling := true, prefillWaited := 0, lastArrival := some now }
    else
      let jitterMs := D.jitterStep q.jitterMs gap
      { q with
        jitterMs := jitterMs
        target := clampTarget (D.jitterFrames jitterMs)
        lastArrival := some now }

/-- Merges the two oldest frames when the queue is full. -/
def makeRoom (q : ElasticFrameQueue D) : ElasticFrameQueue D :=
  if QUEUE_CAPACITY ≤ q.frames.length then
    match q.frames with
    | a :: b :: rest =>
      { q with
        frames := D.mergePair a b :: rest
        overflowCompressed := q.overflowCompressed + 1 }
    | _ => q
  else q

/-- Appends a frame that arrived at `now`; a frame of another length is ignored. -/
def push (q : ElasticFrameQueue D) (frame : Frame) (now : Instant) : ElasticFrameQueue D :=
  if !frame.isValid then q
  else
    let q := q.updateJitter now
    let q := { q with pushed := q.pushed + 1 }
    let q := q.makeRoom
    { q with frames := q.frames ++ [frame] }

def noteDecodeError (q : ElasticFrameQueue D) : ElasticFrameQueue D :=
  { q with decodeErrors := q.decodeErrors + 1 }

/-- The first empty tick replays the last played frame faded; a third re-enters prefill. -/
def underrun (q : ElasticFrameQueue D) : Frame × ElasticFrameQueue D :=
  let emptyTicks := q.emptyTicks + 1
  let q := { q with emptyTicks := emptyTicks }
  let (out, q) :=
    if emptyTicks = 1 then
      match q.lastPlayed with
      | some last => (D.fadeOut last, { q with concealed := q.concealed + 1 })
      | none => (silenceFrame, q)
    else (silenceFrame, q)
  let q :=
    if REPREFILL_AFTER_EMPTY_TICKS ≤ emptyTicks then
      { q with prefilling := true, prefillWaited := 0 }
    else q
  (out, q)

/-- The part of `pop` after prefill: slims an over-deep queue, plays the oldest frame,
or conceals. -/
def popReady (q : ElasticFrameQueue D) : Frame × ElasticFrameQueue D :=
  let overTicks :=
    if q.target + SHRINK_MARGIN_FRAMES < q.frames.length then q.overTicks + 1 else 0
  let q := { q with overTicks := overTicks }
  match q.frames with
  | [] => q.underrun
  | first :: rest =>
    let q := { q with emptyTicks := 0 }
    match rest with
    | second :: rest' =>
      if SHRINK_AFTER_TICKS ≤ overTicks then
        let out := D.mergePair first second
        (out, { q with
          frames := rest'
          compressed := q.compressed + 1
          played := q.played + 1
          lastPlayed := some out })
      else
        (first, { q with
          frames := rest
          played := q.played + 1
          lastPlayed := some first })
    | [] =>
      (first, { q with
        frames := []
        played := q.played + 1
        lastPlayed := some first })

/-- Takes the frame for the next 20 ms media tick. -/
def pop (q : ElasticFrameQueue D) : Frame × ElasticFrameQueue D :=
  if q.prefilling then
    let prefillWaited := if q.frames.isEmpty then q.prefillWaited else q.prefillWaited + 1
    let ready :=
      q.target ≤ q.frames.length || (!q.frames.isEmpty && q.target ≤ prefillWaited)
    let q := { q with prefillWaited := prefillWaited }
    if !ready then (silenceFrame, q)
    else { q with prefilling := false, prefillWaited := 0 }.popReady
  else q.popReady

/-- Counters and depth; the listener-level counters of a bare queue are zero. -/
def stats (q : ElasticFrameQueue D) : SourceStats where
  pushed := q.pushed
  played := q.played
  compressed := q.compressed
  concealed := q.concealed
  overflowCompressed := q.overflowCompressed
  decodeErrors := q.decodeErrors
  listenerCatchupCompressed := 0
  listenerSkipped := 0
  depth := q.frames.length
  target := q.target

end ElasticFrameQueue

end NodeWebrtc.Mixer
