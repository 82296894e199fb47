import Mathlib.Algebra.Ring.Int.Defs
import NodeWebrtc.Lib.Resample
import NodeWebrtc.Mixer.Frame

/-! # Clip audio to 48 kHz stereo

Decoded samples of any layout become 48 kHz stereo: the channels of a frame are averaged and the
averages are interpolated at exact fractions of the source rate. The averages take the place of
the samples they came from.
-/

namespace NodeWebrtc.Player

open Mixer (SAMPLE_RATE CHANNELS i16ToLeBytes)
open Resample

/-- Its rate and channel count were made at least 1. -/
structure Stereo48kResampler where
  srcRate : Nat
  srcChannels : Nat
  src : List Int
  nextOut : Nat
deriving DecidableEq

namespace Stereo48kResampler

variable (K : Interpolation Int)

def new (srcRate srcChannels : Nat) : Stereo48kResampler :=
  ⟨max srcRate 1, max srcChannels 1, [], 0⟩

def stereo (sample : Int) : List UInt8 := i16ToLeBytes sample ++ i16ToLeBytes sample

/-- The loop of `emit_linear_resample_mono`: at most so many rounds, until the position leaves
the source. -/
def rounds (r : Stereo48kResampler) (frames : Nat) : Nat → Nat → List Int
  | 0, _ => []
  | n + 1, k =>
    let left := k * r.srcRate / SAMPLE_RATE
    if frames ≤ left then []
    else
      K.value (r.src.getD left default) (r.src.getD (min (left + 1) (frames - 1)) default)
        (k * r.srcRate % SAMPLE_RATE) :: rounds r frames n (k + 1)

def maxOut (r : Stereo48kResampler) (frames : Nat) (finished : Bool) : Nat :=
  if finished then frames * SAMPLE_RATE / r.srcRate + 1
  else (frames - 1) * SAMPLE_RATE / r.srcRate + 1 - r.nextOut

def emitLinearResampleMono (r : Stereo48kResampler) (frames : Nat) (finished : Bool) :
    Stereo48kResampler × List Int :=
  let out := r.rounds K frames (r.maxOut frames finished) r.nextOut
  if finished then ({ r with src := [], nextOut := 0 }, out)
  else ({ r with nextOut := r.nextOut + out.length }, out)

def emitMonoPassthrough (r : Stereo48kResampler) (frames : Nat) (finished : Bool) :
    Stereo48kResampler × List Int :=
  if r.srcRate = SAMPLE_RATE then
    if frames ≤ r.nextOut then (r, [])
    else ({ r with nextOut := frames }, (r.src.take frames).drop r.nextOut)
  else r.emitLinearResampleMono K frames finished

def averages (channels : Nat) (src : List Int) (frames : Nat) : List Int :=
  (List.range frames).map fun i => ((src.drop (i * channels)).take channels).sum.tdiv channels

def emitDownmixStereo (r : Stereo48kResampler) (frames : Nat) (finished : Bool) :
    Stereo48kResampler × List Int :=
  let mono := averages r.srcChannels r.src frames
  let emitted :=
    { r with src := mono, nextOut := 0, srcChannels := 1 }.emitMonoPassthrough K mono.length finished
  ({ emitted.1 with srcChannels := r.srcChannels }, emitted.2)

def emitAvailable (r : Stereo48kResampler) (finished : Bool) : Stereo48kResampler × List UInt8 :=
  let frames := r.src.length / r.srcChannels
  if frames = 0 then (r, [])
  else
    let emitted :=
      if r.srcChannels = 1 then r.emitMonoPassthrough K frames finished
      else r.emitDownmixStereo K frames finished
    (emitted.1, emitted.2.flatMap stereo)

def pushI16Interleaved (r : Stereo48kResampler) (samples : List Int) :
    Stereo48kResampler × List UInt8 :=
  if samples.isEmpty then (r, []) else { r with src := r.src ++ samples }.emitAvailable K false

def finish (r : Stereo48kResampler) : Stereo48kResampler × List UInt8 := r.emitAvailable K true

def pushAll (r : Stereo48kResampler) : List (List Int) → Stereo48kResampler × List UInt8
  | [] => (r, [])
  | piece :: pieces =>
    let pushed := r.pushI16Interleaved K piece
    let others := pushed.1.pushAll pieces
    (others.1, pushed.2 ++ others.2)

/-- The pieces pushed, then the end of the stream. -/
def convert (r : Stereo48kResampler) (pieces : List (List Int)) : List UInt8 :=
  (r.pushAll K pieces).2 ++ ((r.pushAll K pieces).1.finish K).2

end Stereo48kResampler

/-- `f32_interleaved_to_stereo_48k`; each sample is clamped, scaled and cast. -/
def f32InterleavedToStereo48k {F : Type} (quantize : F → Int) (K : Interpolation Int)
    (samples : List F) (srcRate srcChannels : Nat) : List UInt8 :=
  if samples.isEmpty ∨ srcChannels = 0 then []
  else if srcRate = SAMPLE_RATE ∧ srcChannels = CHANNELS then
    samples.flatMap fun sample => i16ToLeBytes (quantize sample)
  else
    let frames := samples.length / srcChannels
    let resampler := Stereo48kResampler.new srcRate srcChannels
    resampler.convert K [(samples.map quantize).take (frames * srcChannels)]

end NodeWebrtc.Player
