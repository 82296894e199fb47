import Mathlib.Algebra.GroupWithZero.Nat
import NodeWebrtc.Lib.Machine
import NodeWebrtc.Mixer.Frame
import NodeWebrtc.Player.Decoder

/-! # Clip playback sessions

A session owns the status, the PCM queue and a decode thread. The host takes 20 ms frames while
the thread enqueues PCM. The two decode loops are step machines over the session: `Growing`
reads a source the writer still appends to, `Static` reads bytes that are all there. Each access
to shared state is a step of its own, so the host and the writer come in between.
-/

namespace NodeWebrtc.Player

open Machine
open Mixer (FRAME_BYTES FRAME_MS CHANNELS SAMPLE_RATE)

/-! ## MP4 layout -/

inductive Mp4Layout
  | unknown
  | fastStart
  | moovAtEnd
  | moovAvailable
  deriving DecidableEq, Repr

def ftyp : List UInt8 := [0x66, 0x74, 0x79, 0x70]
def moov : List UInt8 := [0x6D, 0x6F, 0x6F, 0x76]
def mdat : List UInt8 := [0x6D, 0x64, 0x61, 0x74]

def readU32Be (data : List UInt8) (offset : Nat) : Nat :=
  (data.getD offset 0).toNat * 2 ^ 24 + (data.getD (offset + 1) 0).toNat * 2 ^ 16 +
    (data.getD (offset + 2) 0).toNat * 2 ^ 8 + (data.getD (offset + 3) 0).toNat

def readBoxType (data : List UInt8) (offset : Nat) : List UInt8 := (data.drop offset).take 4

structure SeenBoxes where
  ftyp : Bool
  moov : Bool
  mdat : Bool
  moovComplete : Bool

/-- The answer after the loop of `probe_mp4_layout`. -/
def SeenBoxes.layout (seen : SeenBoxes) : Mp4Layout :=
  if seen.moovComplete then .moovAvailable
  else if seen.ftyp && seen.moov then .fastStart
  else .unknown

/-- The loop of `probe_mp4_layout`, from a box header on. -/
def scanBoxes (data : List UInt8) (offset : Nat) (seen : SeenBoxes) : Mp4Layout :=
  if offset + 8 ≤ data.length then
    let boxSize := readU32Be data offset
    let boxType := readBoxType data (offset + 4)
    if boxSize < 8 then seen.layout
    else if offset + boxSize > data.length then
      if boxType = moov then if seen.mdat && !seen.moov then .moovAtEnd else .unknown
      else seen.layout
    else
      let seen' : SeenBoxes :=
        { ftyp := seen.ftyp || boxType = ftyp, moov := seen.moov || boxType = moov,
          mdat := seen.mdat || boxType = mdat, moovComplete := seen.moovComplete || boxType = moov }
      if seen'.mdat && !seen'.moov then .moovAtEnd
      else scanBoxes data (offset + boxSize) seen'
  else seen.layout
termination_by data.length - offset

def probeMp4Layout (data : List UInt8) : Mp4Layout :=
  if data.length < 8 then .unknown else scanBoxes data 0 ⟨false, false, false, false⟩

def mp4ReadyForDecode (data : List UInt8) (eof : Bool) : Bool :=
  match probeMp4Layout data with
  | .fastStart | .moovAvailable => true
  | .moovAtEnd => eof && probeMp4Layout data = .moovAvailable
  | .unknown => if eof then probeMp4Layout data = .moovAvailable else false

/-- Whether `wait_until_decode_ready` returns on this snapshot. -/
def decodeReady (snap : List UInt8) (eof : Bool) : Bool :=
  if snap = [] then false
  else if probeMp4Layout snap ≠ .unknown || (8 ≤ snap.length && readBoxType snap 4 = ftyp) then
    mp4ReadyForDecode snap eof
  else 512 ≤ snap.length

/-! ## The state the host and the thread share -/

inductive ClipStatus
  | buffering
  | playing
  | stopped
  | ended
  | error
  deriving DecidableEq, Repr

def prerollMinMs : Nat := 200

/-- `PREROLL_TARGET_MS`, the `preroll_ms` of every session. -/
def prerollMs : Nat := 300

/-- `SessionState`, with the fields of its `ClipPlayerStatus`. -/
structure SessionState where
  status : ClipStatus
  positionMs : Nat
  durationMs : Option Nat
  bufferedMs : Nat
  error : Option String
  pcmQueue : List (List UInt8)
  stopRequested : Bool
  decodeDone : Bool
  deriving DecidableEq, Repr

def SessionState.spawned : SessionState :=
  { status := .buffering, positionMs := 0, durationMs := none, bufferedMs := 0, error := none,
    pcmQueue := [], stopRequested := false, decodeDone := false }

def stereoByteLenToMs (byteLen : Nat) : Nat :=
  if byteLen = 0 then 0 else byteLen / (2 * CHANNELS) * 1000 / SAMPLE_RATE

def tryTransitionToPlaying (st : SessionState) : SessionState :=
  if st.status ≠ .buffering then st
  else if prerollMs ≤ st.bufferedMs || (st.decodeDone && prerollMinMs ≤ st.bufferedMs) ||
      (st.decodeDone && (0 < st.bufferedMs && st.bufferedMs < prerollMinMs)) then
    { st with status := .playing }
  else st

/-- The loop of `pop_frame_bytes`: the bytes taken and the queue that is left. -/
def takeBytes : Nat → List (List UInt8) → List UInt8 × List (List UInt8)
  | _, [] => ([], [])
  | need, front :: queue =>
    if need = 0 then ([], front :: queue)
    else if front.length ≤ need then
      (front ++ (takeBytes (need - front.length) queue).1, (takeBytes (need - front.length) queue).2)
    else (front.take need, front.drop need :: queue)

def popFrameBytes (queue : List (List UInt8)) : Option (List UInt8 × List (List UInt8)) :=
  if (queue.map List.length).sum < FRAME_BYTES then none else some (takeBytes FRAME_BYTES queue)

def SessionState.takeFrame (st : SessionState) : SessionState × Option (List UInt8) :=
  if st.status ≠ .playing then (st, none)
  else
    match popFrameBytes st.pcmQueue with
    | some (pcm, queue) =>
      let position := st.positionMs + FRAME_MS
      ({ st with
          pcmQueue := queue
          bufferedMs := if FRAME_MS ≤ st.bufferedMs then st.bufferedMs - FRAME_MS else 0
          positionMs := match st.durationMs with
            | some dur => min position dur
            | none => position },
        some pcm)
    | none => (if st.decodeDone then { st with status := .ended } else st, none)

def SessionState.stop (st : SessionState) : SessionState :=
  { st with
    stopRequested := true
    status := if st.status = .playing ∨ st.status = .buffering then .stopped else st.status }

def SessionState.setError (st : SessionState) (message : String) : SessionState :=
  { st with status := .error, error := some message }

/-- What a session puts out: PCM enqueued for playback, frames handed to the host. -/
inductive Output
  | enqueued (pcm : List UInt8)
  | frame (pcm : List UInt8)
  deriving DecidableEq, Repr

def enqueuedPcm : List Output → List UInt8
  | [] => []
  | .enqueued pcm :: os => pcm ++ enqueuedPcm os
  | .frame _ :: os => enqueuedPcm os

@[simp] theorem enqueuedPcm_append (os os' : List Output) :
    enqueuedPcm (os ++ os') = enqueuedPcm os ++ enqueuedPcm os' := by
  induction os with
  | nil => rfl
  | cons o os ih => cases o <;> simp [enqueuedPcm, ih]

/-- Where `enqueue_pcm` is: the queue, the buffered time and the status are locked in turn. -/
inductive EnqueueStep
  | push (pcm : List UInt8)
  | credit (addedMs : Nat)
  | transition
  deriving DecidableEq, Repr

/-- One step of `enqueue_pcm`, and the step after it. -/
def enqueueStep (st : SessionState) : EnqueueStep → SessionState × Option EnqueueStep × List Output
  | .push pcm =>
    ({ st with pcmQueue := st.pcmQueue ++ [pcm] }, some (.credit (stereoByteLenToMs pcm.length)),
      [.enqueued pcm])
  | .credit addedMs => ({ st with bufferedMs := st.bufferedMs + addedMs }, some .transition, [])
  | .transition => (tryTransitionToPlaying st, none, [])

/-- The end of `decode_loop`, after the decode function returned. -/
inductive LoopEnd
  | result (err : Option PlayerError)
  | storeDone
  | settle
  | exited
  deriving DecidableEq, Repr

def loopEndStep (st : SessionState) : LoopEnd → Option (SessionState × LoopEnd)
  | .result (some err) => some (st.setError err.toText, .storeDone)
  | .result none => some (st, .storeDone)
  | .storeDone => some ({ st with decodeDone := true }, .settle)
  | .settle => some (tryTransitionToPlaying st, .exited)
  | .exited => none

/-- What happens next: the writer, the host, or the decode thread's next step. -/
inductive Input
  | append (chunk : List UInt8)
  | markEof
  | takeFrame
  | stop
  | decode
  deriving DecidableEq, Repr

def frameOutput : Option (List UInt8) → List Output
  | some pcm => [.frame pcm]
  | none => []

/-! ## A growing source -/

inductive GrowingPhase
  | openLoop
  /-- `while !source.is_eof()` of `wait_until_decode_ready`. -/
  | pollEof
  | pollBytes
  | emptyCheck
  | snapshot
  | opening (hint : Option String)
  /-- `Err(err)` of the open: the end-of-stream check. -/
  | refused (err : PlayerError)
  | opened (d : DecoderSession) (durationMs : Option Nat)
  | measure (d : DecoderSession)
  | loop (d : DecoderSession) (prevLen : Nat)
  | pass (d : DecoderSession) (prevLen : Nat) (pcmOut : List UInt8) (packets : Nat)
  | enqueue (d : DecoderSession) (prevLen : Nat) (e : EnqueueStep)
  | preroll (d : DecoderSession) (prevLen : Nat) (hadPcm : Bool)
  | endCheck (d : DecoderSession) (prevLen : Nat) (hadPcm : Bool)
  | passFailed (d : DecoderSession) (prevLen : Nat) (err : PlayerError)
  | stopCheck (d : DecoderSession) (prevLen : Nat)
  | eofBreak (d : DecoderSession) (prevLen : Nat)
  | waiting (d : DecoderSession) (prevLen : Nat)
  | woken (d : DecoderSession)
  /-- `decode_growing` has returned; the session as it was dropped. -/
  | returned (d : Option DecoderSession) (e : LoopEnd)

structure Growing where
  state : SessionState
  data : List UInt8
  eof : Bool
  phase : GrowingPhase

def Growing.start : Growing := ⟨.spawned, [], false, .openLoop⟩

def Growing.goto (s : Growing) (phase : GrowingPhase) : Option (Growing × List Output) :=
  some ({ s with phase }, [])

def Growing.return (s : Growing) (d : Option DecoderSession) (err : Option PlayerError) :
    Option (Growing × List Output) :=
  s.goto (.returned d (.result err))

def Growing.decode (S : Symphonia) (s : Growing) : Option (Growing × List Output) :=
  match s.phase with
  | .openLoop => if s.state.stopRequested then s.return none none else s.goto .pollEof
  | .pollEof => if s.eof then s.goto .emptyCheck else s.goto .pollBytes
  | .pollBytes => if decodeReady s.data s.eof then s.goto .emptyCheck else s.goto .pollEof
  | .emptyCheck =>
    if s.eof && s.data.isEmpty then s.return none (some (.decodeFailed "empty stream"))
    else s.goto .snapshot
  | .snapshot => s.goto (.opening (hintFromBytes s.data))
  | .opening hint =>
    match DecoderSession.open S s.data hint with
    | .ok (d, durationMs) => s.goto (.opened d durationMs)
    | .error err => s.goto (.refused err)
  | .refused err => if s.eof then s.return none (some err) else s.goto .openLoop
  | .opened d durationMs =>
    match durationMs with
    | some dur => some ({ s with state.durationMs := some dur, phase := .measure d }, [])
    | none => s.goto (.measure d)
  | .measure d => s.goto (.loop d s.data.length)
  | .loop d prevLen =>
    if s.state.stopRequested then s.return (some d) none else s.goto (.pass d prevLen [] 0)
  | .pass d prevLen pcmOut packets =>
    match passRound S s.data d pcmOut packets with
    | .next d' pcmOut' packets' => s.goto (.pass d' prevLen pcmOut' packets')
    | .ended d' (.ok pcm) =>
      if pcm = [] then s.goto (.preroll d' prevLen false)
      else s.goto (.enqueue d' prevLen (.push pcm))
    | .ended d' (.error err) => s.goto (.passFailed d' prevLen err)
  | .enqueue d prevLen e =>
    match enqueueStep s.state e with
    | (state, some e', out) => some ({ s with state, phase := .enqueue d prevLen e' }, out)
    | (state, none, out) => some ({ s with state, phase := .preroll d prevLen true }, out)
  | .preroll d prevLen hadPcm =>
    if prerollMs ≤ s.state.bufferedMs then s.return (some d) none
    else s.goto (.endCheck d prevLen hadPcm)
  | .endCheck d prevLen hadPcm =>
    if s.eof && !hadPcm then s.return (some d) none else s.goto (.stopCheck d prevLen)
  | .passFailed d prevLen err =>
    if s.eof then s.return (some d) (some err) else s.goto (.stopCheck d prevLen)
  | .stopCheck d prevLen =>
    if s.state.stopRequested then s.return (some d) none else s.goto (.eofBreak d prevLen)
  | .eofBreak d prevLen => if s.eof then s.return (some d) none else s.goto (.waiting d prevLen)
  | .waiting d prevLen =>
    if s.data.length = prevLen && !s.eof then
      if s.state.stopRequested then s.goto (.woken d) else s.goto (.waiting d prevLen)
    else s.goto (.woken d)
  | .woken d => if s.state.stopRequested then s.return (some d) none else s.goto (.measure d)
  | .returned d e => (loopEndStep s.state e).map fun p => ({ s with state := p.1, phase := .returned d p.2 }, [])

/-- One step of the session, its writer or its host. -/
def Growing.step (S : Symphonia) : Step Growing Input Output := fun s i =>
  match i with
  | .append chunk => some ({ s with data := s.data ++ chunk }, [])
  | .markEof => some ({ s with eof := true }, [])
  | .takeFrame => some ({ s with state := s.state.takeFrame.1 }, frameOutput s.state.takeFrame.2)
  | .stop => some ({ s with state := s.state.stop }, [])
  | .decode => s.decode S

/-! ## A static source -/

inductive StaticPhase
  | opening (hint : Option String)
  | opened (d : DecoderSession) (durationMs : Option Nat)
  | loop (d : DecoderSession)
  | pass (d : DecoderSession) (pcmOut : List UInt8) (packets : Nat)
  | enqueue (d : DecoderSession) (e : EnqueueStep)
  /-- `buffered_ms >= preroll_ms`, then `!had_pcm`. -/
  | preroll (d : DecoderSession) (hadPcm : Bool)
  | returned (e : LoopEnd)

structure Static where
  state : SessionState
  data : List UInt8
  phase : StaticPhase

/-- `decode_from_source` on these bytes, with the hint of `start_from_bytes` or of the path. -/
def Static.start (data : List UInt8) (hint : Option String) : Static := ⟨.spawned, data, .opening hint⟩

def Static.goto (s : Static) (phase : StaticPhase) : Option (Static × List Output) :=
  some ({ s with phase }, [])

def Static.return (s : Static) (err : Option PlayerError) : Option (Static × List Output) :=
  s.goto (.returned (.result err))

def Static.decode (S : Symphonia) (s : Static) : Option (Static × List Output) :=
  match s.phase with
  | .opening hint =>
    match DecoderSession.open S s.data hint with
    | .ok (d, durationMs) => s.goto (.opened d durationMs)
    | .error err => s.return (some err)
  | .opened d durationMs =>
    match durationMs with
    | some dur => some ({ s with state.durationMs := some dur, phase := .loop d }, [])
    | none => s.goto (.loop d)
  | .loop d => if s.state.stopRequested then s.return none else s.goto (.pass d [] 0)
  | .pass d pcmOut packets =>
    match passRound S s.data d pcmOut packets with
    | .next d' pcmOut' packets' => s.goto (.pass d' pcmOut' packets')
    | .ended d' (.ok pcm) =>
      if pcm = [] then s.goto (.preroll d' false) else s.goto (.enqueue d' (.push pcm))
    | .ended _ (.error err) => s.return (some err)
  | .enqueue d e =>
    match enqueueStep s.state e with
    | (state, some e', out) => some ({ s with state, phase := .enqueue d e' }, out)
    | (state, none, out) => some ({ s with state, phase := .preroll d true }, out)
  | .preroll d hadPcm =>
    if prerollMs ≤ s.state.bufferedMs then s.return none
    else if !hadPcm then s.return none
    else s.goto (.loop d)
  | .returned e => (loopEndStep s.state e).map fun p => ({ s with state := p.1, phase := .returned p.2 }, [])

/-- One step of the session or its host; there is no writer. -/
def Static.step (S : Symphonia) : Step Static Input Output := fun s i =>
  match i with
  | .append _ | .markEof => none
  | .takeFrame => some ({ s with state := s.state.takeFrame.1 }, frameOutput s.state.takeFrame.2)
  | .stop => some ({ s with state := s.state.stop }, [])
  | .decode => s.decode S

end NodeWebrtc.Player
