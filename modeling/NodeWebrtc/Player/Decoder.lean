import Mathlib.Data.List.Basic

/-! # The clip decoder

`DecoderSession` opens a clip and, on each call of `decode_available`, decodes until the
demuxer has no further packet. The demuxer and the codecs are a parameter: what they answer
depends on the bytes that are there and on the packets read so far, not on the calls.
`available` is what a pass over the bytes would yield, and it only grows with the bytes.
-/

namespace NodeWebrtc.Player

/-- `PlayerError`, the part the decode thread raises. -/
inductive PlayerError
  | decodeFailed (message : String)
  | invalidInput (message : String)
  | io (message : String)
  deriving DecidableEq, Repr

def PlayerError.toText : PlayerError → String
  | .decodeFailed message => "decode failed: " ++ message
  | .invalidInput message => "invalid input: " ++ message
  | .io message => "io error: " ++ message

/-! ## What the demuxer and the codecs answer -/

structure Packet where
  trackId : Nat
  payload : List UInt8
  deriving DecidableEq, Repr

structure Track where
  id : Nat
  codec : Nat
  nFrames : Option Nat
  sampleRate : Option Nat
  deriving DecidableEq, Repr

def codecTypeNull : Nat := 0

inductive ReadError
  | unexpectedEof
  | resetRequired
  | other (err : String)
  deriving DecidableEq, Repr

inductive DecodeError
  | decodeError (err : String)
  | unexpectedEof
  | other (err : String)
  deriving DecidableEq, Repr

/-- The demuxer and the codecs. `nextPacket bytes n` is the answer to the next read after `n`
packets, `decode fed packet` the stereo 48 kHz PCM of a packet after the packets the decoder
was fed before. A packet takes bytes. -/
structure Symphonia where
  probe : List UInt8 → Option String → Except String (List Track)
  make : Nat → Except String Unit
  nextPacket : List UInt8 → Nat → Except ReadError Packet
  decode : List Packet → Packet → Except DecodeError (List UInt8)
  nextPacket_lt : ∀ {bytes n packet}, nextPacket bytes n = .ok packet → n < bytes.length

/-- The track a session decodes, how far its reader is and what its decoder was fed. -/
structure DecoderSession where
  trackId : Nat
  read : Nat
  fed : List Packet
  deriving DecidableEq, Repr

/-! ## Opening -/

def looksLikeMp3Frame : List UInt8 → Bool
  | b0 :: b1 :: _ => b0 = 0xFF && b1 &&& 0xE0 = 0xE0
  | _ => false

/-- `hint_from_bytes`: the extension the leading bytes suggest. -/
def hintFromBytes (data : List UInt8) : Option String :=
  if data.take 3 = [0x49, 0x44, 0x33] || looksLikeMp3Frame data then some "mp3"
  else if data.take 4 = [0x4F, 0x67, 0x67, 0x53] then some "ogg"
  else if data.take 4 = [0x66, 0x4C, 0x61, 0x43] then some "flac"
  else if (data.drop 4).take 4 = [0x66, 0x74, 0x79, 0x70] then some "m4a"
  else if 2 ≤ data.length && (data.getD 0 0 = 0xFF && data.getD 1 0 &&& 0xF0 = 0xF0) then some "aac"
  else if data.take 4 = [0x52, 0x49, 0x46, 0x46] then some "wav"
  else none

/-- `DecoderSession::open`: the session at its first packet, and the track's duration. -/
def DecoderSession.open (S : Symphonia) (bytes : List UInt8) (hint : Option String) :
    Except PlayerError (DecoderSession × Option Nat) :=
  match S.probe bytes hint with
  | .error e => .error (.decodeFailed ("probe failed: " ++ e))
  | .ok tracks =>
    match tracks.find? fun t => t.codec ≠ codecTypeNull with
    | none => .error (.decodeFailed "no audio track")
    | some track =>
      match S.make track.codec with
      | .error e => .error (.decodeFailed ("codec open failed: " ++ e))
      | .ok () =>
        .ok (⟨track.id, 0, []⟩,
          track.nFrames.bind fun frames => track.sampleRate.map fun rate => frames * 1000 / rate)

/-! ## Decoding -/

/-- What one round of the loop of `decode_available` reads and decodes. -/
inductive Fetched
  /-- The session after the packet, and the packet's PCM: none for another track's packet. -/
  | packet (session : DecoderSession) (pcm : List UInt8)
  | unexpectedEof (session : DecoderSession)
  | readError (err : String)
  | failed (session : DecoderSession) (err : PlayerError)

/-- Reads one packet and, when it is of the session's track, decodes it. -/
def fetch (S : Symphonia) (bytes : List UInt8) (d : DecoderSession) : Fetched :=
  match S.nextPacket bytes d.read with
  | .error .unexpectedEof => .unexpectedEof d
  | .error .resetRequired => .failed d (.decodeFailed "decoder reset required")
  | .error (.other err) => .readError err
  | .ok packet =>
    if packet.trackId ≠ d.trackId then .packet { d with read := d.read + 1 } []
    else
      match S.decode d.fed packet with
      | .ok pcm => .packet { d with read := d.read + 1, fed := d.fed ++ [packet] } pcm
      | .error (.decodeError err) =>
        .failed { d with read := d.read + 1 } (.decodeFailed ("decode: " ++ err))
      | .error .unexpectedEof => .unexpectedEof { d with read := d.read + 1 }
      | .error (.other err) =>
        .failed { d with read := d.read + 1 } (.decodeFailed ("decode: " ++ err))

/-- A round of the loop: what it goes on with, or how the pass ends. -/
inductive PassRound
  | next (session : DecoderSession) (pcmOut : List UInt8) (packets : Nat)
  | ended (session : DecoderSession) (out : Except PlayerError (List UInt8))

def passRound (S : Symphonia) (bytes : List UInt8) (d : DecoderSession) (pcmOut : List UInt8)
    (packets : Nat) : PassRound :=
  match fetch S bytes d with
  | .packet d' pcm => .next d' (pcmOut ++ pcm) (packets + 1)
  | .unexpectedEof d' => .ended d' (.ok pcmOut)
  | .readError err =>
    if pcmOut = [] then
      .ended d (.error (.decodeFailed
        ("read packet after " ++ toString packets ++ " packets: " ++ err)))
    else .ended d (.ok pcmOut)
  | .failed d' err => .ended d' (.error err)

theorem fetch_packet_read {S : Symphonia} {bytes : List UInt8} {d d' : DecoderSession}
    {pcm : List UInt8} (h : fetch S bytes d = .packet d' pcm) :
    d'.read = d.read + 1 ∧ d.read < bytes.length := by
  rw [fetch] at h
  split at h
  next => cases h
  next => cases h
  next => cases h
  next packet hpacket =>
    have hlt := S.nextPacket_lt hpacket
    split_ifs at h
    · cases h
      exact ⟨rfl, hlt⟩
    · split at h
      next => cases h; exact ⟨rfl, hlt⟩
      next => cases h
      next => cases h
      next => cases h

theorem passRound_next {S : Symphonia} {bytes pcmOut pcmOut' : List UInt8} {d d' : DecoderSession}
    {packets packets' : Nat} (h : passRound S bytes d pcmOut packets = .next d' pcmOut' packets') :
    d'.read = d.read + 1 ∧ d.read < bytes.length := by
  rw [passRound] at h
  split at h
  next hf => cases h; exact fetch_packet_read hf
  next => cases h
  next => split_ifs at h
  next => cases h

/-- The loop of `decode_available` over bytes that stay as they are. -/
def decodePackets (S : Symphonia) (bytes : List UInt8) (d : DecoderSession) (pcmOut : List UInt8)
    (packets : Nat) : DecoderSession × Except PlayerError (List UInt8) :=
  match _h : passRound S bytes d pcmOut packets with
  | .next d' pcmOut' packets' => decodePackets S bytes d' pcmOut' packets'
  | .ended d' out => (d', out)
termination_by bytes.length - d.read
decreasing_by
  have hread := passRound_next _h
  omega

def decodeAvailable (S : Symphonia) (bytes : List UInt8) (d : DecoderSession) :
    DecoderSession × Except PlayerError (List UInt8) :=
  decodePackets S bytes d [] 0

/-- The PCM `decode_available` would yield over these bytes. -/
def available (S : Symphonia) (bytes : List UInt8) (d : DecoderSession) : List UInt8 :=
  match (decodeAvailable S bytes d).2 with
  | .ok pcm => pcm
  | .error _ => []

/-! ## A demuxer that keeps up with its bytes -/

/-- The demuxer yields the packets whose bytes are there, in order, and reports the end of the
bytes when it has caught up; the decoder decodes them. The probe goes by the leading bytes, so
a format it knows it still knows when more bytes follow. -/
structure InOrder (S : Symphonia) : Prop where
  probe_append : ∀ {bytes hint tracks}, S.probe bytes hint = .ok tracks → ∀ more hint',
    ∃ tracks', S.probe (bytes ++ more) hint' = .ok tracks' ∧
      tracks'.map (fun t => (t.id, t.codec)) = tracks.map fun t => (t.id, t.codec)
  nextPacket_append : ∀ {bytes n packet}, S.nextPacket bytes n = .ok packet → ∀ more,
    S.nextPacket (bytes ++ more) n = .ok packet
  caught_up : ∀ {bytes n err}, S.nextPacket bytes n = .error err → err = .unexpectedEof
  decodes : ∀ {bytes n packet}, S.nextPacket bytes n = .ok packet → ∀ fed,
    ∃ pcm, S.decode fed packet = .ok pcm

section

variable {S : Symphonia} {bytes pcm : List UInt8} {d d' : DecoderSession}

private theorem find?_codec_map (tracks : List Track) :
    (tracks.find? fun t => t.codec ≠ codecTypeNull).map (fun t => (t.id, t.codec)) =
      (tracks.map fun t => (t.id, t.codec)).find? fun p => p.2 ≠ codecTypeNull := by
  rw [List.find?_map]
  rfl

theorem InOrder.open_append (hS : InOrder S) {hint : Option String} {dur : Option Nat}
    (h : DecoderSession.open S bytes hint = .ok (d, dur)) (more : List UInt8)
    (hint' : Option String) :
    ∃ dur', DecoderSession.open S (bytes ++ more) hint' = .ok (d, dur') := by
  rw [DecoderSession.open] at h
  split at h
  next => cases h
  next tracks htracks =>
    obtain ⟨tracks', hprobe, hmap⟩ := hS.probe_append htracks more hint'
    have hfind := find?_codec_map tracks'
    rw [hmap, ← find?_codec_map tracks] at hfind
    split at h
    next => cases h
    next track htrack =>
      rw [htrack] at hfind
      obtain ⟨track', htrack', heq⟩ := Option.map_eq_some_iff.mp hfind
      rw [Prod.mk.injEq] at heq
      obtain ⟨hid, hcodec⟩ := heq
      split at h
      next => cases h
      next hmake =>
        cases h
        rw [← hcodec] at hmake
        refine ⟨track'.nFrames.bind fun frames => track'.sampleRate.map fun rate =>
          frames * 1000 / rate, ?_⟩
        simp only [DecoderSession.open, hprobe, htrack', hmake, hid]

theorem InOrder.fetch_cases (hS : InOrder S) (bytes : List UInt8) (d : DecoderSession) :
    (∃ d' pcm, fetch S bytes d = .packet d' pcm) ∨ fetch S bytes d = .unexpectedEof d := by
  rw [fetch]
  cases h : S.nextPacket bytes d.read with
  | error err =>
    rw [hS.caught_up h]
    exact Or.inr rfl
  | ok packet =>
    left
    by_cases hid : packet.trackId ≠ d.trackId
    · exact ⟨_, _, if_pos hid⟩
    · obtain ⟨pcm, hpcm⟩ := hS.decodes h d.fed
      refine ⟨{ d with read := d.read + 1, fed := d.fed ++ [packet] }, pcm, ?_⟩
      simp only [if_neg hid, hpcm]

theorem InOrder.fetch_append (hS : InOrder S) (h : fetch S bytes d = .packet d' pcm)
    (more : List UInt8) : fetch S (bytes ++ more) d = .packet d' pcm := by
  rw [fetch] at h ⊢
  cases hp : S.nextPacket bytes d.read with
  | error err =>
    rw [hS.caught_up hp] at hp
    rw [hp] at h
    cases h
  | ok packet =>
    rw [hp] at h
    rw [hS.nextPacket_append hp more]
    exact h

theorem InOrder.decodePackets_eq (hS : InOrder S) (bytes : List UInt8) (d : DecoderSession) :
    ∃ d' out, ∀ pcmOut packets, decodePackets S bytes d pcmOut packets = (d', .ok (pcmOut ++ out)) := by
  induction hn : bytes.length - d.read using Nat.strongRecOn generalizing d with
  | ind n ih =>
    rcases hS.fetch_cases bytes d with ⟨d1, pcm, hf⟩ | hf
    · have hread := fetch_packet_read hf
      obtain ⟨d', out, hout⟩ := ih (bytes.length - d1.read) (by omega) d1 rfl
      refine ⟨d', pcm ++ out, fun pcmOut packets => ?_⟩
      rw [decodePackets]
      have hround : passRound S bytes d pcmOut packets = .next d1 (pcmOut ++ pcm) (packets + 1) := by
        rw [passRound, hf]
      split
      next hr =>
        rw [hround] at hr
        cases hr
        rw [hout, List.append_assoc]
      next hr => rw [hround] at hr; cases hr
    · refine ⟨d, [], fun pcmOut packets => ?_⟩
      rw [decodePackets]
      have hround : passRound S bytes d pcmOut packets = .ended d (.ok pcmOut) := by
        rw [passRound, hf]
      split
      next hr => rw [hround] at hr; cases hr
      next hr =>
        rw [hround] at hr
        cases hr
        rw [List.append_nil]

theorem InOrder.available_packet (hS : InOrder S) (h : fetch S bytes d = .packet d' pcm) :
    available S bytes d = pcm ++ available S bytes d' := by
  obtain ⟨e, out, hout⟩ := hS.decodePackets_eq bytes d'
  have hround : ∀ pcmOut packets,
      passRound S bytes d pcmOut packets = .next d' (pcmOut ++ pcm) (packets + 1) := by
    intro pcmOut packets
    rw [passRound, h]
  have hd : decodePackets S bytes d [] 0 = (e, .ok (pcm ++ out)) := by
    rw [decodePackets]
    split
    next hr =>
      rw [hround] at hr
      cases hr
      rw [hout, List.nil_append]
    next hr => rw [hround] at hr; cases hr
  rw [available, available, decodeAvailable, decodeAvailable, hd, hout]
  simp

theorem available_caught_up (h : fetch S bytes d = .unexpectedEof d) : available S bytes d = [] := by
  have hround : passRound S bytes d [] 0 = .ended d (.ok []) := by rw [passRound, h]
  have hd : decodePackets S bytes d [] 0 = (d, .ok []) := by
    rw [decodePackets]
    split
    next hr => rw [hround] at hr; cases hr
    next hr =>
      rw [hround] at hr
      cases hr
      rfl
  rw [available, decodeAvailable, hd]

theorem InOrder.available_prefix (hS : InOrder S) (bytes more : List UInt8) (d : DecoderSession) :
    available S bytes d <+: available S (bytes ++ more) d := by
  induction hn : bytes.length - d.read using Nat.strongRecOn generalizing d with
  | ind n ih =>
    rcases hS.fetch_cases bytes d with ⟨d1, pcm, hf⟩ | hf
    · have hread := fetch_packet_read hf
      rw [hS.available_packet hf, hS.available_packet (hS.fetch_append hf more),
        List.prefix_append_right_inj]
      exact ih (bytes.length - d1.read) (by omega) d1 rfl
    · rw [available_caught_up hf]
      exact List.nil_prefix

end

/-! ## What a session has read -/

/-- The session `d'` was reached from `d` by reading packets of the bytes, with this PCM. -/
inductive Reads (S : Symphonia) (bytes : List UInt8) (d : DecoderSession) :
    List UInt8 → DecoderSession → Prop
  | refl : Reads S bytes d [] d
  | packet {out pcm : List UInt8} {d' d'' : DecoderSession} (h : Reads S bytes d out d')
      (hf : fetch S bytes d' = .packet d'' pcm) : Reads S bytes d (out ++ pcm) d''

namespace Reads

variable {S : Symphonia} {bytes out : List UInt8} {d d' : DecoderSession}

theorem append (hS : InOrder S) (h : Reads S bytes d out d') (more : List UInt8) :
    Reads S (bytes ++ more) d out d' := by
  induction h with
  | refl => exact .refl
  | packet _ hf ih => exact ih.packet (hS.fetch_append hf more)

theorem available_eq (hS : InOrder S) (h : Reads S bytes d out d') :
    available S bytes d = out ++ available S bytes d' := by
  induction h with
  | refl => rfl
  | packet _ hf ih => rw [ih, hS.available_packet hf, List.append_assoc]

end Reads

end NodeWebrtc.Player
