import NodeWebrtc.Lib.Resample
import NodeWebrtc.Speech.Pcm

/-! # The streaming TTS resampler

Mono samples come in pieces; each push puts out the frames that interpolate between samples that
are known, and drops the samples that no later frame looks at. Positions are exact fractions;
rounding of samples is left to a quantization and an interpolation of 16-bit values. Indexing and
subtraction are checked, as in the source.
-/

namespace NodeWebrtc.Sherpa

open Resample Speech

/-- The 48 kHz clock; the rate of the source was made at least 1. -/
structure StreamingStereo48kResampler where
  srcRate : Nat
  src : List Int
  base : Nat
  totalSrc : Nat
  nextOut : Nat
deriving DecidableEq

/-- `a - b` on unsigned numbers; the subtraction fails below zero. -/
def checkedSub (a b : Nat) : Option Nat := if b ≤ a then some (a - b) else none

def drain (src : List Int) (n : Nat) : Option (List Int) :=
  if n ≤ src.length then some (src.drop n) else none

namespace StreamingStereo48kResampler

variable {F : Type} (quantize : F → Int) (K : Interpolation Int)

def new (srcRate : Nat) : StreamingStereo48kResampler := ⟨max srcRate 1, [], 0, 0, 0⟩

def sampleAt (r : StreamingStereo48kResampler) (i : Nat) : Option Int := do
  let offset ← checkedSub i r.base
  r.src[offset]?

def frameAt (r : StreamingStereo48kResampler) (k : Nat) : Option Int := do
  let left := k * r.srcRate / WEBRTC_PCM_SAMPLE_RATE
  let last ← checkedSub r.totalSrc 1
  let leftSample ← r.sampleAt left
  let rightSample ← r.sampleAt (min (left + 1) last)
  some (K.value leftSample rightSample (k * r.srcRate % WEBRTC_PCM_SAMPLE_RATE))

def emitPassthrough (r : StreamingStereo48kResampler) : StreamingStereo48kResampler × List UInt8 :=
  ({ r with src := [], base := r.totalSrc, nextOut := r.totalSrc }, r.src.flatMap stereo)

/-- The frames there are once the stream is finished, or so far. -/
def maxOut (r : StreamingStereo48kResampler) (finished : Bool) : Nat :=
  if finished then max (r.totalSrc * WEBRTC_PCM_SAMPLE_RATE / r.srcRate) 1
  else if r.totalSrc < 2 then 0
  else (r.totalSrc - 1) * WEBRTC_PCM_SAMPLE_RATE / r.srcRate

def emitLinear (r : StreamingStereo48kResampler) (finished : Bool) :
    Option (StreamingStereo48kResampler × List UInt8) :=
  let maxOut := r.maxOut finished
  if maxOut ≤ r.nextOut then some (r, [])
  else do
    let output ← (List.range' r.nextOut (maxOut - r.nextOut)).mapM (r.frameAt K)
    let r := { r with nextOut := maxOut }
    let r ←
      if finished then some { r with src := [], base := r.totalSrc }
      else do
        let last ← checkedSub r.totalSrc 1
        let keepFrom := max (min (r.nextOut * r.srcRate / WEBRTC_PCM_SAMPLE_RATE) last) r.base
        let src ← drain r.src (keepFrom - r.base)
        some { r with src := src, base := keepFrom }
    some (r, output.flatMap stereo)

def emitAvailable (r : StreamingStereo48kResampler) (finished : Bool) :
    Option (StreamingStereo48kResampler × List UInt8) :=
  if r.src.isEmpty then some (r, [])
  else if r.srcRate = WEBRTC_PCM_SAMPLE_RATE then some r.emitPassthrough
  else r.emitLinear K finished

def pushF32 (r : StreamingStereo48kResampler) (samples : List F) :
    Option (StreamingStereo48kResampler × List UInt8) :=
  if samples.isEmpty then some (r, [])
  else
    { r with
      src := r.src ++ samples.map quantize
      totalSrc := r.totalSrc + samples.length }.emitAvailable K false

def finish (r : StreamingStereo48kResampler) : Option (StreamingStereo48kResampler × List UInt8) :=
  r.emitAvailable K true

def pushAll (r : StreamingStereo48kResampler) :
    List (List F) → Option (StreamingStereo48kResampler × List UInt8)
  | [] => some (r, [])
  | piece :: pieces => do
      let (r, out) ← r.pushF32 quantize K piece
      let (r, rest) ← r.pushAll pieces
      some (r, out ++ rest)

/-- The pieces pushed, then the end of the stream. -/
def convert (srcRate : Nat) (pieces : List (List F)) : Option (List UInt8) := do
  let (r, out) ← (new srcRate).pushAll quantize K pieces
  let (_, tail) ← r.finish K
  some (out ++ tail)

def f32MonoToStereo48kS16leRaw (samples : List F) (srcRate : Nat) : Option (List UInt8) :=
  convert quantize K srcRate [samples]

end StreamingStereo48kResampler

end NodeWebrtc.Sherpa
