import NodeWebrtc.Lib.Word

/-! # PCM frames and the summing bus

A frame is its bytes and an optional timestamp. The summing bus is integer arithmetic
and is modelled exactly. Every operation of the mixer that computes in floating point
(the cross-fade of two frames, the concealment fade, the jitter average and the pan
gains) is a field of `MixDsp`, so a statement over every `MixDsp` does not depend on
how these round.
-/

namespace NodeWebrtc.Mixer

/-! ## Frames -/

def FRAME_MS : Nat := 20
def SAMPLE_RATE : Nat := 48000
def CHANNELS : Nat := 2
def FRAME_BYTES : Nat := 3840
def SAMPLES_PER_CHANNEL : Nat := SAMPLE_RATE * FRAME_MS / 1000
def SAMPLES_PER_FRAME : Nat := SAMPLES_PER_CHANNEL * CHANNELS

/-- One 20 ms stereo PCM frame: interleaved little-endian `i16` samples. -/
structure Frame where
  pcm : List UInt8
  timestampUs : Option Nat
deriving DecidableEq

def Frame.isValid (f : Frame) : Bool := f.pcm.length == FRAME_BYTES

def silenceFrame : Frame := ⟨List.replicate FRAME_BYTES 0, none⟩

/-! ## Parameters computed in floating point -/

/-- Named listener-relative placement when positional mixing is off. -/
inductive MixPlacement where
  | center | left | right | front | behind | below | above
deriving DecidableEq

/-- The floating-point operations of the mixer and the values they work on. -/
structure MixDsp where
  Jitter : Type
  jitterZero : Jitter
  /-- One update of the average from an inter-arrival gap. -/
  jitterStep : Jitter → Duration → Jitter
  jitterFrames : Jitter → Nat
  mergePair : Frame → Frame → Frame
  fadeOut : Frame → Frame
  ClientPose : Type
  centerPose : ClientPose
  DistanceParams : Type
  defaultDistanceParams : DistanceParams
  PanGains : Type
  panGainsPositional : ClientPose → ClientPose → DistanceParams → PanGains
  panGainsPlacement : MixPlacement → DistanceParams → PanGains
  applyPanGains : Frame → PanGains → Frame

/-- Operations that are exact on silent frames: a pair of which the first is silent
merges to the second, a silent frame fades and pans to itself, and with no jitter one
frame of depth is asked for. -/
def silentDsp : MixDsp where
  Jitter := Unit
  jitterZero := ()
  jitterStep := fun _ _ => ()
  jitterFrames := fun _ => 1
  mergePair := fun _ b => b
  fadeOut := fun f => f
  ClientPose := Unit
  centerPose := ()
  DistanceParams := Unit
  defaultDistanceParams := ()
  PanGains := Unit
  panGainsPositional := fun _ _ _ => ()
  panGainsPlacement := fun _ _ => ()
  applyPanGains := fun f _ => f

/-! ## The summing bus -/

def i16FromLeBytes (lo hi : UInt8) : Int :=
  let n := lo.toNat + 256 * hi.toNat
  if n < 32768 then n else (n : Int) - 65536

def i16ToLeBytes (x : Int) : List UInt8 :=
  let n := (x % 65536).toNat
  [UInt8.ofNat (n % 256), UInt8.ofNat (n / 256)]

/-- The `i16` samples of interleaved PCM bytes; a trailing odd byte is no sample. -/
def samples : List UInt8 → List Int
  | lo :: hi :: rest => i16FromLeBytes lo hi :: samples rest
  | _ => []

def saturatingAddI32 (a b : Int) : Int := max (-2 ^ 31) (min (2 ^ 31 - 1) (a + b))

/-- Soft-knee limiter above about 90 % of full scale, hard cap at the `i16` bounds. -/
def softClip (sample : Int) : Int :=
  let sign : Int := if 0 ≤ sample then 1 else -1
  let abs : Int := sample.natAbs
  let limited := if abs ≤ 29491 then abs else 29491 + (abs - 29491) / 4
  let capped := min limited 32767
  max (-32768) (min 32767 (sign * capped))

/-- Adds one input to the accumulator; an input of another length is skipped. -/
def MixBus.accumulate (accum : List Int) (input : Frame) : List Int :=
  if input.pcm.length ≠ FRAME_BYTES then accum
  else List.zipWith saturatingAddI32 accum (samples input.pcm)

/-- Sums the inputs sample by sample and soft-clips the sums. -/
def MixBus.mix (inputs : List Frame) : Frame :=
  let accum := inputs.foldl MixBus.accumulate (List.replicate SAMPLES_PER_FRAME 0)
  ⟨accum.flatMap fun sample => i16ToLeBytes (softClip sample), none⟩

end NodeWebrtc.Mixer
