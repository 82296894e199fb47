import Mathlib.Data.List.Infix
import NodeWebrtc.Mixer.Frame

/-! # The PCM encoder

`PcmEncoder` turns one frame of interleaved stereo PCM into an Opus payload. The scratch
buffers live in the shared state and are moved out of it around the call of the Opus encoder,
so what an error leaves there decides whether later frames can still be encoded.

The Opus encoder is a parameter. Encoder calls are atomic: the state is behind a mutex, and
no call panics while it holds the lock.
-/

namespace NodeWebrtc.Core

open Mixer (samples)

def OPUS_MAX_PAYLOAD_BYTES : Nat := 1000

/-- Default Opus encode bitrate (stereo Audio mode). -/
def OPUS_TARGET_BITRATE_BPS : Int := 400000

def OPUS_BITRATE_MIN_BPS : Int := 6000

inductive CoreError where
  | track (message : String)
deriving DecidableEq, Repr

/-! ## The text of a duration -/

/-- The decimals after the point, at most `width` of them, without trailing zeros. -/
def fractionDigits : Nat → Nat → List Char
  | 0, _ => []
  | width + 1, part =>
    if part = 0 then []
    else Nat.digitChar (part / 10 ^ width) :: fractionDigits width (part % 10 ^ width)

def fmtDecimal (integer part width : Nat) (suffix : String) : String :=
  let digits := fractionDigits width part
  toString integer ++ (if digits.isEmpty then "" else "." ++ String.ofList digits) ++ suffix

def durationDebug (d : Duration) : String :=
  if 10 ^ 9 ≤ d then fmtDecimal (d / 10 ^ 9) (d % 10 ^ 9) 9 "s"
  else if 10 ^ 6 ≤ d then fmtDecimal (d / 10 ^ 6) (d % 10 ^ 6) 6 "ms"
  else if 10 ^ 3 ≤ d then fmtDecimal (d / 10 ^ 3) (d % 10 ^ 3) 3 "µs"
  else fmtDecimal d 0 1 "ns"

example : durationDebug (fromMillis 20) = "20ms" ∧ durationDebug 2500000 = "2.5ms" := by
  decide +kernel

/-! ## The negotiated format -/

/-- Audio format agreed during SDP negotiation for one track binding. -/
structure NegotiatedAudioFormat where
  mimeType : String
  clockRate : Nat
  channels : Nat
deriving DecidableEq, Repr

namespace NegotiatedAudioFormat

/-- Default advertised WebRTC Opus (48 kHz stereo). -/
def advertisedOpus : NegotiatedAudioFormat := ⟨"audio/opus", 48000, 2⟩

def isOpus (format : NegotiatedAudioFormat) : Bool :=
  decide ("opus".toList <:+: format.mimeType.toList.map Char.toLower)

end NegotiatedAudioFormat

/-- Encode bitrate for a packet of `durationMs`, capped so the payload stays within
`OPUS_MAX_PAYLOAD_BYTES`. -/
def opusBitrateForDuration (baseBps : Int) (durationMs : Nat) : Int :=
  if durationMs = 0 then baseBps
  else
    let cap : Int := (OPUS_MAX_PAYLOAD_BYTES * 8 * 1000 / durationMs : Nat)
    max (min baseBps cap) OPUS_BITRATE_MIN_BPS

def samplesPerChannelForDuration (duration : Duration) (pcmLen : Nat) : Except CoreError Nat :=
  let fromDuration := asU64 (asU64 (asMicros duration) * 48000) / 1000000
  let fromBuffer := pcmLen / (2 * 2)
  if fromDuration = 0 ∧ 0 < fromBuffer then .ok fromBuffer
  else if fromDuration ≠ fromBuffer then
    .error (.track ("PCM duration mismatch: " ++ durationDebug duration ++ " implies " ++
      toString fromDuration ++ " samples/channel, buffer implies " ++ toString fromBuffer))
  else .ok fromDuration

/-! ## The Opus encoder -/

/-- An Opus encoder with states `ε`. A call returns the next state and its result; `encode`
also returns what it left in the output buffer. -/
structure Audiopus (ε : Type) where
  new : Except String ε
  setBitrate : ε → Int → ε × Except String Unit
  setComplexity : ε → Nat → ε × Except String Unit
  encode : ε → List Int → List UInt8 → ε × List UInt8 × Except String Nat

/-- What is documented of the Opus encoder: an error leaves its state alone, an empty output
buffer is an error, and a payload has at least one byte and fits the output buffer, which
keeps its size. -/
structure Audiopus.Documented {ε : Type} (opus : Audiopus ε) : Prop where
  setBitrate_error : ∀ e bps err,
    (opus.setBitrate e bps).2 = .error err → (opus.setBitrate e bps).1 = e
  encode_error : ∀ e pcm buf err,
    (opus.encode e pcm buf).2.2 = .error err → (opus.encode e pcm buf).1 = e
  encode_empty : ∀ e pcm, ∃ err, (opus.encode e pcm []).2.2 = .error err
  encode_ok : ∀ e pcm buf len, (opus.encode e pcm buf).2.2 = .ok len →
    0 < len ∧ len ≤ buf.length ∧ (opus.encode e pcm buf).2.1.length = buf.length

structure OpusEncoderState (ε : Type) where
  encoder : ε
  pcmScratch : List Int
  opusScratch : List UInt8
  baseBitrateBps : Int
  currentBitrateBps : Int
deriving DecidableEq, Repr

structure EncodeCall where
  format : NegotiatedAudioFormat
  pcm : List UInt8
  duration : Duration
deriving DecidableEq, Repr

section Encoder

variable {ε : Type} (opus : Audiopus ε)

def newWithBitrate (bitrateBps : Int) : Except CoreError (OpusEncoderState ε) :=
  match opus.new with
  | .error e => .error (.track ("Opus encoder init: " ++ e))
  | .ok encoder =>
    match opus.setBitrate encoder bitrateBps with
    | (_, .error e) => .error (.track ("Opus encoder bitrate: " ++ e))
    | (encoder, .ok _) =>
      match opus.setComplexity encoder 10 with
      | (_, .error e) => .error (.track ("Opus encoder complexity: " ++ e))
      | (encoder, .ok _) =>
        .ok ⟨encoder, [], List.replicate OPUS_MAX_PAYLOAD_BYTES 0, bitrateBps, bitrateBps⟩

/-- The checks of `encode` and `encode_opus` before the lock is taken. -/
def checkFrame (call : EncodeCall) : Except CoreError Unit :=
  if !call.format.isOpus then
    .error (.track ("PCM writeSample does not support negotiated codec " ++
      call.format.mimeType ++ " yet"))
  else if call.format.clockRate ≠ 48000 ∨ call.format.channels ≠ 2 then
    .error (.track ("Opus encoder supports 48 kHz stereo only (negotiated " ++
      toString call.format.clockRate ++ " Hz " ++ toString call.format.channels ++ " ch)"))
  else
    match samplesPerChannelForDuration call.duration call.pcm.length with
    | .error e => .error e
    | .ok samplesPerChannel =>
      let expectedBytes := samplesPerChannel * call.format.channels * 2
      if call.pcm.length ≠ expectedBytes then
        .error (.track ("PCM length " ++ toString call.pcm.length ++ " does not match " ++
          toString (asMillis call.duration) ++ " ms frame (expected " ++
          toString expectedBytes ++ " bytes)"))
      else .ok ()

/-- The bitrate is set when the one for this duration is not the current one. -/
def applyBitrate (s : OpusEncoderState ε) (duration : Duration) :
    OpusEncoderState ε × Except CoreError Unit :=
  let effective := opusBitrateForDuration s.baseBitrateBps (min (asMillis duration) (2 ^ 32 - 1))
  if effective ≠ s.currentBitrateBps then
    match opus.setBitrate s.encoder effective with
    | (encoder, .error e) =>
      ({ s with encoder := encoder }, .error (.track ("Opus encoder bitrate: " ++ e)))
    | (encoder, .ok _) => ({ s with encoder := encoder, currentBitrateBps := effective }, .ok ())
  else (s, .ok ())

/-- The frame goes through the Opus encoder. Both scratch buffers are taken out of the state
for the call, and put back after a success only. -/
def encodeTaken (s : OpusEncoderState ε) (call : EncodeCall) :
    OpusEncoderState ε × Except CoreError (List UInt8 × Duration) :=
  let pcmSamples := samples call.pcm
  let opusBuf := s.opusScratch
  let s := { s with pcmScratch := [], opusScratch := [] }
  match opus.encode s.encoder pcmSamples opusBuf with
  | (encoder, _, .error e) =>
    ({ s with encoder := encoder }, .error (.track ("Opus encode: " ++ e)))
  | (encoder, opusBuf, .ok len) =>
    let s := { s with encoder := encoder, pcmScratch := pcmSamples, opusScratch := opusBuf }
    if len = 0 then (s, .error (.track "Opus encoder produced empty payload"))
    else (s, .ok (s.opusScratch.take len, call.duration))

def encode (s : OpusEncoderState ε) (call : EncodeCall) :
    OpusEncoderState ε × Except CoreError (List UInt8 × Duration) :=
  match checkFrame call with
  | .error e => (s, .error e)
  | .ok _ =>
    match applyBitrate opus s call.duration with
    | (s, .error e) => (s, .error e)
    | (s, .ok _) => encodeTaken opus s call

/-! ## Sequences of calls -/

/-- The state after a sequence of `encode` calls. -/
def afterCalls (s : OpusEncoderState ε) : List EncodeCall → OpusEncoderState ε
  | [] => s
  | call :: calls => afterCalls (encode opus s call).1 calls

/-- The calls of the sequence that returned a payload. -/
def acceptedCalls (s : OpusEncoderState ε) : List EncodeCall → List EncodeCall
  | [] => []
  | call :: calls =>
    let result := encode opus s call
    (if result.2.isOk then [call] else []) ++ acceptedCalls result.1 calls

/-- The frame passes the checks and the Opus encoder answers it with an error. -/
def rejectedByOpus (s : OpusEncoderState ε) (call : EncodeCall) : Bool :=
  (checkFrame call).isOk && (applyBitrate opus s call.duration).2.isOk &&
    !(opus.encode (applyBitrate opus s call.duration).1.encoder (samples call.pcm)
      s.opusScratch).2.2.isOk

/-- No frame of the sequence was rejected by the Opus encoder. -/
def NoneRejected (s : OpusEncoderState ε) : List EncodeCall → Prop
  | [] => True
  | call :: calls => rejectedByOpus opus s call = false ∧ NoneRejected (encode opus s call).1 calls

/-- After `calls` the buffers have their sizes and every frame that the encoder would have
encoded without the failed calls is encoded to the same payload. -/
structure Survives (s : OpusEncoderState ε) (calls : List EncodeCall) : Prop where
  opusScratch : (afterCalls opus s calls).opusScratch.length = OPUS_MAX_PAYLOAD_BYTES
  pcmScratch : (afterCalls opus s calls).pcmScratch.length =
    (afterCalls opus s (acceptedCalls opus s calls)).pcmScratch.length
  later : ∀ frame payload,
    (encode opus (afterCalls opus s (acceptedCalls opus s calls)) frame).2 = .ok payload →
      (encode opus (afterCalls opus s calls) frame).2 = .ok payload

/-! ## What one call does -/

variable {opus}

variable {s : OpusEncoderState ε}

theorem newWithBitrate_opusScratch {bitrateBps : Int} (h : newWithBitrate opus bitrateBps = .ok s) :
    s.opusScratch.length = OPUS_MAX_PAYLOAD_BYTES := by
  unfold newWithBitrate at h
  split at h
  · cases h
  · split at h
    · cases h
    · split at h <;> cases h
      exact List.length_replicate

theorem applyBitrate_error (hd : opus.Documented) (duration : Duration)
    (h : (applyBitrate opus s duration).2.isOk = false) : (applyBitrate opus s duration).1 = s := by
  unfold applyBitrate at h ⊢
  dsimp only at h ⊢
  split
  · rename_i hne
    rw [if_pos hne] at h
    split
    · rename_i encoder err herr
      have hkept := hd.setBitrate_error s.encoder _ err (by rw [herr])
      rw [herr] at hkept
      cases hkept
      rfl
    · rename_i hok
      rw [hok] at h
      cases h
  · rfl

variable (opus) in
theorem applyBitrate_opusScratch (s : OpusEncoderState ε) (duration : Duration) :
    (applyBitrate opus s duration).1.opusScratch = s.opusScratch := by
  unfold applyBitrate
  dsimp only
  split
  · split <;> rfl
  · rfl

theorem encodeTaken_error {call : EncodeCall}
    (h : (opus.encode s.encoder (samples call.pcm) s.opusScratch).2.2.isOk = false) :
    (encodeTaken opus s call).1.opusScratch = [] ∧ (encodeTaken opus s call).2.isOk = false := by
  unfold encodeTaken
  dsimp only
  split
  · exact ⟨rfl, rfl⟩
  · rename_i hok
    rw [hok] at h
    cases h

theorem encodeTaken_ok (hd : opus.Documented) {call : EncodeCall}
    (h : (opus.encode s.encoder (samples call.pcm) s.opusScratch).2.2.isOk = true) :
    (encodeTaken opus s call).1.opusScratch.length = s.opusScratch.length ∧
      (encodeTaken opus s call).2.isOk = true := by
  unfold encodeTaken
  dsimp only
  split
  · rename_i herr
    rw [herr] at h
    cases h
  · rename_i encoder buf len hok
    have hlen := hd.encode_ok s.encoder (samples call.pcm) s.opusScratch len (by rw [hok])
    rw [hok] at hlen
    rw [if_neg (Nat.ne_of_gt hlen.1)]
    exact ⟨hlen.2.2, rfl⟩

inductive EncodeOutcome (opus : Audiopus ε) (s : OpusEncoderState ε) (call : EncodeCall) : Prop
  | refused (state : (encode opus s call).1 = s) (result : (encode opus s call).2.isOk = false)
      (reached : rejectedByOpus opus s call = false)
  | rejected (buffer : (encode opus s call).1.opusScratch = [])
      (result : (encode opus s call).2.isOk = false) (reached : rejectedByOpus opus s call = true)
  | encoded (buffer : (encode opus s call).1.opusScratch.length = s.opusScratch.length)
      (result : (encode opus s call).2.isOk = true) (reached : rejectedByOpus opus s call = false)

theorem encode_cases (hd : opus.Documented) (s : OpusEncoderState ε) (call : EncodeCall) :
    EncodeOutcome opus s call := by
  cases hcheck : checkFrame call with
  | error e => apply EncodeOutcome.refused <;> simp only [encode, rejectedByOpus, hcheck] <;> rfl
  | ok u =>
    have hstate := applyBitrate_error hd (s := s) call.duration
    have hbuf := applyBitrate_opusScratch opus s call.duration
    cases hrate : applyBitrate opus s call.duration with
    | mk t rate =>
      rw [hrate] at hstate hbuf
      cases rate with
      | error e =>
        have ht : t = s := hstate rfl
        apply EncodeOutcome.refused <;> simp only [encode, rejectedByOpus, hcheck, hrate]
        · exact ht
        · rfl
        · rfl
      | ok u =>
        have hencode : encode opus s call = encodeTaken opus t call := by
          simp only [encode, hcheck, hrate]
        have hreached : rejectedByOpus opus s call =
            !(opus.encode t.encoder (samples call.pcm) t.opusScratch).2.2.isOk := by
          simp only [rejectedByOpus, hcheck, hrate, Except.isOk, Except.toBool, Bool.true_and]
          rw [← hbuf]
        cases hopus : (opus.encode t.encoder (samples call.pcm) t.opusScratch).2.2.isOk with
        | false =>
          have herr := encodeTaken_error hopus
          apply EncodeOutcome.rejected
          · rw [hencode]
            exact herr.1
          · rw [hencode]
            exact herr.2
          · rw [hreached, hopus]
            rfl
        | true =>
          have hok := encodeTaken_ok hd hopus
          apply EncodeOutcome.encoded
          · rw [hencode, hok.1, hbuf]
          · rw [hencode]
            exact hok.2
          · rw [hreached, hopus]
            rfl

theorem encode_of_empty (hd : opus.Documented) (call : EncodeCall) (h : s.opusScratch = []) :
    (encode opus s call).1.opusScratch = [] ∧ (encode opus s call).2.isOk = false := by
  unfold encode
  split
  · exact ⟨h, rfl⟩
  · have hbuf := applyBitrate_opusScratch opus s call.duration
    split
    · rename_i t e hrate
      rw [hrate] at hbuf
      exact ⟨hbuf.trans h, rfl⟩
    · rename_i t u hrate
      rw [hrate] at hbuf
      have hempty : t.opusScratch = [] := hbuf.trans h
      obtain ⟨err, herr⟩ := hd.encode_empty t.encoder (samples call.pcm)
      exact encodeTaken_error (by rw [hempty, herr]; rfl)

/-! ## What a sequence of calls does -/

theorem afterCalls_of_empty (hd : opus.Documented) (calls : List EncodeCall)
    (h : s.opusScratch = []) :
    (afterCalls opus s calls).opusScratch = [] := by
  induction calls generalizing s with
  | nil => exact h
  | cons call calls ih => exact ih (encode_of_empty hd call h).1

variable {calls : List EncodeCall}

theorem afterCalls_acceptedCalls (hd : opus.Documented) (h : NoneRejected opus s calls) :
    afterCalls opus s (acceptedCalls opus s calls) = afterCalls opus s calls := by
  induction calls generalizing s with
  | nil => rfl
  | cons call calls ih =>
    have hrest := ih h.2
    cases encode_cases hd s call with
    | refused state result =>
      rw [state] at hrest
      simp only [acceptedCalls, result, afterCalls, state, Bool.false_eq_true, if_false,
        List.nil_append]
      exact hrest
    | rejected _ _ reached =>
      rw [h.1] at reached
      cases reached
    | encoded _ result =>
      simp only [acceptedCalls, result, afterCalls, if_true, List.singleton_append]
      exact hrest

theorem afterCalls_opusScratch (hd : opus.Documented) (h : NoneRejected opus s calls) :
    (afterCalls opus s calls).opusScratch.length = s.opusScratch.length := by
  induction calls generalizing s with
  | nil => rfl
  | cons call calls ih =>
    have hrest := ih h.2
    cases encode_cases hd s call with
    | refused state =>
      rw [state] at hrest
      rw [afterCalls, state]
      exact hrest
    | rejected _ _ reached =>
      rw [h.1] at reached
      cases reached
    | encoded buffer => exact hrest.trans buffer

theorem afterCalls_of_rejected (hd : opus.Documented) (h : ¬NoneRejected opus s calls) :
    (afterCalls opus s calls).opusScratch = [] := by
  induction calls generalizing s with
  | nil => exact absurd trivial h
  | cons call calls ih =>
    cases hreached : rejectedByOpus opus s call with
    | false => exact ih fun hrest => h ⟨hreached, hrest⟩
    | true =>
      cases encode_cases hd s call with
      | refused _ _ reached | encoded _ _ reached =>
        rw [hreached] at reached
        cases reached
      | rejected buffer => exact afterCalls_of_empty hd calls buffer

/-- The encoder survives a sequence of calls exactly when the Opus encoder rejected none of
its frames; after a rejected frame no call returns a payload again. -/
theorem survives_iff (hd : opus.Documented) {bitrateBps : Int} {s : OpusEncoderState ε}
    (hnew : newWithBitrate opus bitrateBps = .ok s) (calls : List EncodeCall) :
    (Survives opus s calls ↔ NoneRejected opus s calls) ∧
      (¬NoneRejected opus s calls →
        ∀ frame, (encode opus (afterCalls opus s calls) frame).2.isOk = false) := by
  have hsize := newWithBitrate_opusScratch hnew
  constructor
  · constructor
    · intro h
      by_contra hrejected
      have hbuf := h.opusScratch
      rw [afterCalls_of_rejected hd hrejected] at hbuf
      cases hbuf
    · intro h
      have hsame := afterCalls_acceptedCalls hd h
      refine ⟨(afterCalls_opusScratch hd h).trans hsize, by rw [hsame], ?_⟩
      intro frame payload hframe
      rwa [hsame] at hframe
  · intro h frame
    exact (encode_of_empty hd frame (afterCalls_of_rejected hd h)).2

end Encoder

/-! ## An encoder that rejects an illegal frame -/

/-- The states count the frames encoded. Legal frames have 120, 240, 480, 960, 1920 or 2880
samples per channel. -/
def countingOpus : Audiopus Nat where
  new := .ok 0
  setBitrate e _ := (e, .ok ())
  setComplexity e _ := (e, .ok ())
  encode e pcm buf :=
    if [120, 240, 480, 960, 1920, 2880].contains (pcm.length / 2) ∧ 3 ≤ buf.length then
      (e + 1, buf.set 0 (UInt8.ofNat (e + 1)), .ok 3)
    else (e, buf, .error "bad argument")

theorem countingOpus_documented : countingOpus.Documented where
  setBitrate_error _ _ _ _ := rfl
  encode_error e pcm buf err h := by
    unfold countingOpus at h ⊢
    dsimp only at h ⊢
    split
    · rename_i hlegal
      rw [if_pos hlegal] at h
      cases h
    · rfl
  encode_empty e pcm := by
    refine ⟨"bad argument", ?_⟩
    unfold countingOpus
    dsimp only
    rw [if_neg (fun h => absurd h.2 (by decide))]
  encode_ok e pcm buf len h := by
    unfold countingOpus at h ⊢
    dsimp only at h ⊢
    split
    · rename_i hlegal
      rw [if_pos hlegal] at h
      cases h
      exact ⟨by omega, hlegal.2, List.length_set⟩
    · rename_i hillegal
      rw [if_neg hillegal] at h
      cases h

def countingEncoder : OpusEncoderState Nat :=
  ⟨0, [], List.replicate OPUS_MAX_PAYLOAD_BYTES 0, OPUS_TARGET_BITRATE_BPS,
    OPUS_TARGET_BITRATE_BPS⟩

def silence (n : Nat) (duration : Duration) : EncodeCall :=
  ⟨.advertisedOpus, List.replicate (n * 4) 0, duration⟩

/-- One frame of 1 ms, which no Opus encoder takes. -/
def oneMillisecond : List EncodeCall := [silence 48 (fromMillis 1)]

theorem survives_iff_oneMillisecond :
    (Survives countingOpus countingEncoder oneMillisecond ↔
        NoneRejected countingOpus countingEncoder oneMillisecond) ∧
      (¬NoneRejected countingOpus countingEncoder oneMillisecond →
        ∀ frame, (encode countingOpus (afterCalls countingOpus countingEncoder oneMillisecond)
          frame).2.isOk = false) :=
  survives_iff countingOpus_documented
    (show newWithBitrate countingOpus OPUS_TARGET_BITRATE_BPS = .ok countingEncoder from rfl)
    oneMillisecond

/-- After a rejected frame of 1 ms a frame of 2.5 ms fails that a fresh encoder encodes. -/
theorem rejected_frame_ends_encoding :
    newWithBitrate countingOpus OPUS_TARGET_BITRATE_BPS = .ok countingEncoder ∧
      acceptedCalls countingOpus countingEncoder oneMillisecond = [] ∧
      (encode countingOpus countingEncoder (silence 120 2500000)).2 =
        .ok ([1, 0, 0], 2500000) ∧
      (encode countingOpus (afterCalls countingOpus countingEncoder oneMillisecond)
        (silence 120 2500000)).2 = .error (.track "Opus encode: bad argument") ∧
      ¬Survives countingOpus countingEncoder oneMillisecond := by
  refine ⟨rfl, by decide +kernel, by decide +kernel, by decide +kernel, ?_⟩
  intro h
  have hbuf : (afterCalls countingOpus countingEncoder oneMillisecond).opusScratch.length = 0 := by
    decide +kernel
  rw [h.opusScratch] at hbuf
  cases hbuf

end NodeWebrtc.Core
