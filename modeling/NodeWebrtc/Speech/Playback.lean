import NodeWebrtc.Lib.Machine
import NodeWebrtc.Speech.TtsBuffer

/-! # The TTS drain and what ends its speaking

A drain pass captures the buffer's generation, takes the carry of the pass before it, and
pops, cuts into frames and writes what the buffer holds; it compares generations before each
frame and while it paces. Barge-ins, flushes and playback aborts flush the buffer and clear
the speaking flag beside it.

A step is a critical section of the buffer or of the agent's state; an event that is emitted
after the section's lock is released is a step of its own.
-/

namespace NodeWebrtc.Speech

universe u

def STEREO_FRAME_20MS_BYTES : Nat := 3840

/-- A frame for the track: PCM of the buffer, then zero bytes. -/
structure StereoFrame (β : Type) where
  pcm : List β
  padding : Nat
deriving DecidableEq, Repr

section Frames

variable {β : Type}

/-- `data.chunks(STEREO_FRAME_20MS_BYTES)`, for a count of whole frames. -/
def splitFrames : Nat → List β → List (StereoFrame β)
  | 0, _ => []
  | n + 1, data =>
    ⟨data.take STEREO_FRAME_20MS_BYTES, 0⟩ :: splitFrames n (data.drop STEREO_FRAME_20MS_BYTES)

/-- The complete frames of the carry, and the remainder. -/
def takeCompleteStereoFrames (carry : List β) : List (StereoFrame β) × List β :=
  let complete := carry.length / STEREO_FRAME_20MS_BYTES
  (splitFrames complete carry, carry.drop (complete * STEREO_FRAME_20MS_BYTES))

def padStereoFrame20ms (frame : List β) : StereoFrame β :=
  ⟨frame.take STEREO_FRAME_20MS_BYTES, STEREO_FRAME_20MS_BYTES - frame.length⟩

end Frames

/-! ## The state -/

inductive DrainPhase (β : Type) where
  | captured
  | taking
  | popping
  /-- Found no chunk; asks whether synthesis still produces. -/
  | starved
  | pausing
  | storing
  | starting (frames : List (StereoFrame β))
  | announcing (frames : List (StereoFrame β))
  /-- Compares the generation and writes the first frame. -/
  | checking (frames : List (StereoFrame β))
  | booking (bytes : Nat) (frames : List (StereoFrame β))
  /-- Paces: compares the generation before and after the sleep. -/
  | pacing (slept : Bool) (frames : List (StereoFrame β))
  /-- The generation changed: clears the speaking flag. -/
  | aborting
  /-- Emits the end if it was speaking, and ends the pass. -/
  | aborted (was : Bool)
  /-- Out of the loop with a carry; asks whether synthesis produces. -/
  | trailing
  /-- Compares the generation before it pads the carry. -/
  | padding
  | closing
  /-- Compares the generation before it reports finished replies. -/
  | ending
  | settling
  | finishing
  | quieting
  /-- Emits the end if it was speaking, and ends the pass. -/
  | quieted (was : Bool)
deriving DecidableEq, Repr

structure DrainPass (β : Type) where
  phase : DrainPhase β
  generation : Nat
  agentStartEmitted : Bool
  playedAny : Bool
  carry : List β
  left : Bool
deriving DecidableEq, Repr

inductive EnderStep where
  /-- `end_agent_speaking`; whether it was speaking is kept for `emitSpeakingEnd`. -/
  | endSpeaking
  | flush
  /-- Takes the flushed replies and emits their ends. -/
  | takeFlushed
  | emit (event : String)
  | emitSpeakingEnd
deriving DecidableEq, Repr

/-- A running call that ends speaking: what is left of it to do. -/
structure Ender where
  todo : List EnderStep
  ended : Bool
deriving DecidableEq, Repr

def bargeInSteps (flushTts : Bool) : List EnderStep :=
  if flushTts then [.endSpeaking, .flush, .takeFlushed, .emit "barge_in", .emitSpeakingEnd]
  else [.emit "barge_in", .emitSpeakingEnd]

/-- The flush of `flush_tts_from` when no barge-in is configured for it. -/
def flushTtsSteps : List EnderStep := [.flush, .takeFlushed, .endSpeaking, .emitSpeakingEnd]

def abortSteps : List EnderStep :=
  [.endSpeaking, .flush, .takeFlushed, .emit "error", .emitSpeakingEnd]

structure Playback (β : Type) where
  buffer : TtsBuffer β
  agentSpeaking : Bool
  pass : Option (DrainPass β)
  enders : List Ender
deriving DecidableEq, Repr

inductive PlaybackInput (β : Type) where
  | begin
  | drain
  /-- The writer refuses the frame: the pass ends and the drain worker aborts playback. -/
  | writeFails
  | enqueue (chunks : List (TtsAudioChunk β)) (expectGeneration : Option Nat)
      (reply : Option (ReplyId × Option Nat))
  | setProducing (producing : Bool)
  | markReplyComplete (id : ReplyId)
  | flush
  | call (todo : List EnderStep)
  | ender (k : Nat)

inductive PlaybackEvent (β : Type) where
  | enqueued (bytes : List β)
  | flushed
  | wrote (frame : StereoFrame β)
  | agentSpeakingStart
  | agentSpeakingEnd
  | replyTransition (t : ReplyTransition)
  | replyFlushed (r : FlushedReply)
  | emitted (event : String)
deriving DecidableEq, Repr

namespace DrainPass

variable {β : Type}

def goto (d : DrainPass β) (phase : DrainPhase β) : DrainPass β := { d with phase := phase }

/-- The next frame of `write_paced_tts_frames`, or what follows the last one. -/
def onFrames (d : DrainPass β) : List (StereoFrame β) → DrainPass β
  | [] => d.goto (if d.left then .closing else .popping)
  | frame :: frames =>
    { d with
      playedAny := true
      phase := if d.agentStartEmitted then .checking (frame :: frames)
        else .starting (frame :: frames) }

def leaveLoop (d : DrainPass β) : DrainPass β :=
  { d with left := true, phase := if d.carry.isEmpty then .closing else .trailing }

end DrainPass

namespace Playback

variable {β : Type}

def new : Playback β := ⟨.new, false, none, []⟩

def withPass (p : Playback β) (d : DrainPass β) : Playback β := { p with pass := some d }

def endPass (p : Playback β) : Playback β := { p with pass := none, buffer := p.buffer.dropHold }

def endEvent (was : Bool) : List (PlaybackEvent β) := if was then [.agentSpeakingEnd] else []

/-- A drain pass begins: it captures the generation. -/
def beginPass (p : Playback β) : Playback β :=
  p.withPass ⟨.captured, p.buffer.generation, false, false, [], false⟩

def stepDrain (p : Playback β) (d : DrainPass β) : Playback β × List (PlaybackEvent β) :=
  match d.phase with
  | .captured => (p.withPass { d with agentStartEmitted := p.agentSpeaking, phase := .taking }, [])
  | .taking =>
    ({ p with buffer := p.buffer.takeFrameCarry.2 }.withPass
      { d with carry := p.buffer.takeFrameCarry.1, phase := .popping }, [])
  | .popping =>
    match p.buffer.popChunkMarking true with
    | (none, buffer) => ({ p with buffer := buffer }.withPass (d.goto .starved), [])
    | (some chunk, buffer) =>
      let taken := takeCompleteStereoFrames (d.carry ++ chunk.pcm)
      ({ p with buffer := buffer }.withPass ({ d with carry := taken.2 }.onFrames taken.1), [])
  | .starved => (p.withPass (if p.buffer.producing then d.goto .pausing else d.leaveLoop), [])
  | .pausing =>
    (p.withPass (if p.buffer.generation = d.generation then d.goto .storing else d.leaveLoop), [])
  | .storing => ({ p with buffer := p.buffer.storeFrameCarry d.carry }.endPass, [])
  | .starting frames =>
    ({ p with agentSpeaking := true }.withPass (d.goto (.announcing frames)), [])
  | .announcing frames =>
    (p.withPass { d with agentStartEmitted := true, phase := .checking frames },
      [.agentSpeakingStart])
  | .checking [] => (p.withPass (d.onFrames []), [])
  | .checking (frame :: frames) =>
    if p.buffer.generation = d.generation then
      (p.withPass (d.goto (.booking frame.pcm.length frames)), [.wrote frame])
    else (p.withPass (d.goto .aborting), [])
  | .booking bytes frames =>
    ({ p with buffer := (p.buffer.consumePlayed bytes).2 }.withPass
      (d.goto (.pacing false frames)),
      (p.buffer.consumePlayed bytes).1.map PlaybackEvent.replyTransition)
  | .pacing slept frames =>
    (p.withPass
      (if p.buffer.generation ≠ d.generation then d.goto .aborting
        else if slept then d.onFrames frames
        else d.goto (.pacing true frames)), [])
  | .aborting =>
    ({ p with agentSpeaking := false }.withPass (d.goto (.aborted p.agentSpeaking)), [])
  | .aborted was => (p.endPass, endEvent was)
  | .trailing => (p.withPass (d.goto (if p.buffer.producing then .closing else .padding)), [])
  | .padding =>
    (p.withPass
      (if p.buffer.generation = d.generation then
        { d with carry := [] }.onFrames [padStereoFrame20ms d.carry]
      else d.goto .closing), [])
  | .closing =>
    ({ p with buffer := (p.buffer.storeFrameCarry d.carry).dropHold }.withPass
      { d with carry := [], phase := .ending }, [])
  | .ending =>
    if p.buffer.generation = d.generation then (p.withPass (d.goto .settling), [])
    else if d.playedAny && d.agentStartEmitted then (p.withPass (d.goto .finishing), [])
    else (p.endPass, [])
  | .settling =>
    let buffer := (p.buffer.consumePlayed 0).2
    let out := (p.buffer.consumePlayed 0).1.map PlaybackEvent.replyTransition
    if d.playedAny && d.agentStartEmitted then
      ({ p with buffer := buffer }.withPass (d.goto .finishing), out)
    else ({ p with buffer := buffer }.endPass, out)
  | .finishing =>
    if p.buffer.producing then (p.endPass, []) else (p.withPass (d.goto .quieting), [])
  | .quieting =>
    ({ p with agentSpeaking := false }.withPass (d.goto (.quieted p.agentSpeaking)), [])
  | .quieted was => (p.endPass, endEvent was)

/-- The first frame of the pass, when its next step would write it. -/
def writes (p : Playback β) (d : DrainPass β) : Option (StereoFrame β) :=
  match d.phase with
  | .checking (frame :: _) => if p.buffer.generation = d.generation then some frame else none
  | _ => none

def stepEnder (p : Playback β) (k : Nat) (e : Ender) :
    Option (Playback β × List (PlaybackEvent β)) :=
  match e.todo with
  | [] => none
  | .endSpeaking :: todo =>
    some ({ p with agentSpeaking := false, enders := p.enders.set k ⟨todo, p.agentSpeaking⟩ }, [])
  | .flush :: todo =>
    some ({ p with buffer := p.buffer.flush, enders := p.enders.set k ⟨todo, e.ended⟩ },
      [.flushed])
  | .takeFlushed :: todo =>
    some ({ p with
        buffer := p.buffer.takeFlushedReplies.2
        enders := p.enders.set k ⟨todo, e.ended⟩ },
      p.buffer.takeFlushedReplies.1.map PlaybackEvent.replyFlushed)
  | .emit event :: todo =>
    some ({ p with enders := p.enders.set k ⟨todo, e.ended⟩ }, [.emitted event])
  | .emitSpeakingEnd :: todo =>
    some ({ p with enders := p.enders.set k ⟨todo, false⟩ }, endEvent e.ended)

def step : Machine.Step (Playback β) (PlaybackInput β) (PlaybackEvent β)
  | p, .begin => if p.pass.isNone then some (p.beginPass, []) else none
  | p, .drain => p.pass.map p.stepDrain
  | p, .writeFails =>
    if ((p.pass.bind p.writes).isSome) then
      some ({ p.endPass with enders := p.enders ++ [⟨abortSteps, false⟩] }, [])
    else none
  | p, .enqueue chunks expectGeneration reply =>
    let accepted := p.buffer.enqueueTaggedIfGeneration chunks expectGeneration reply
    some ({ p with buffer := accepted.2 },
      if accepted.1 then [.enqueued (chunks.flatMap TtsAudioChunk.pcm)] else [])
  | p, .setProducing producing => some ({ p with buffer := p.buffer.setProducing producing }, [])
  | p, .markReplyComplete id => some ({ p with buffer := p.buffer.markReplyComplete id }, [])
  | p, .flush => some ({ p with buffer := p.buffer.flush }, [.flushed])
  | p, .call todo =>
    if todo = bargeInSteps true ∨ todo = bargeInSteps false ∨ todo = flushTtsSteps ∨
        todo = abortSteps then
      some ({ p with enders := p.enders ++ [⟨todo, false⟩] }, [])
    else none
  | p, .ender k => (p.enders[k]?).bind (p.stepEnder k)

end Playback

end NodeWebrtc.Speech
