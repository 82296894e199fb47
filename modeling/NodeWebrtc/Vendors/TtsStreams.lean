import Mathlib.Data.List.Basic
import NodeWebrtc.Lib.Word

/-! # Streamed speech of the vendor clients

A synthesis reads mono audio from an HTTP body or from socket messages, sends each piece to the
progressive sink as stereo and gives the whole as its result. The HTTP loops keep a split sample
for the next piece; the socket loops take each message as it is.

A read is what the loop finds after one wait. The sink takes every chunk until it is cancelled.
-/

namespace NodeWebrtc.Vendors

structure TtsAudioChunk where
  pcm : List UInt8
  durationMs : Nat
deriving DecidableEq, Repr

/-- `mono_s16le_to_stereo`; a byte without its other half is dropped. -/
def monoS16leToStereo : List UInt8 → List UInt8
  | lo :: hi :: rest => lo :: hi :: lo :: hi :: monoS16leToStereo rest
  | _ => []

def WEBRTC_PCM_SAMPLE_RATE : Nat := 48000

def durationMsFromMonoS16le (byteLen sampleRate : Nat) : Nat :=
  if sampleRate = 0 then 1 else asU32 (max (byteLen / 2 * 1000 / sampleRate) 1)

def pcmChunkFromMono (mono : List UInt8) : TtsAudioChunk :=
  ⟨monoS16leToStereo mono, durationMsFromMonoS16le mono.length WEBRTC_PCM_SAMPLE_RATE⟩

/-- What a synthesis sent to its sink, and its result. -/
structure Synthesis where
  sent : List TtsAudioChunk
  result : Except String (List TtsAudioChunk)

inductive LoopEnd where
  | finished
  | cancelled
  | failed (message : String)
deriving DecidableEq, Repr

def FIRST_AUDIO_TIMEOUT_MS : Nat := 15000

def CHUNK_IDLE_TIMEOUT_MS : Nat := 10000

def timeoutMessage (what : String) (mono : List UInt8) : String :=
  if mono.isEmpty then
    what ++ " first audio timed out after " ++ toString FIRST_AUDIO_TIMEOUT_MS ++ " ms"
  else what ++ " stalled after " ++ toString CHUNK_IDLE_TIMEOUT_MS ++ " ms"

/-! ## HTTP bodies -/

inductive BodyRead where
  | chunk (bytes : List UInt8)
  | failed (error : String)
  | timedOut
  /-- The sink is cancelled by the time the wait ends. -/
  | cancelled
deriving DecidableEq, Repr

/-- `RiffGuard`: the first four bytes are held back until they are known. -/
structure RiffGuard where
  head : List UInt8
  decided : Bool
deriving DecidableEq, Repr

def RIFF : List UInt8 := [82, 73, 70, 70]

def RiffGuard.feed (riff : RiffGuard) (incoming : List UInt8) :
    Except String (RiffGuard × List UInt8) :=
  if riff.decided then .ok (riff, incoming)
  else
    let head := riff.head ++ incoming
    if head.length < 4 then .ok (⟨head, false⟩, [])
    else if RIFF.isPrefixOf head then
      .error "deepgram rest returned a wav container; expected raw linear16 (container=none)"
    else .ok (⟨[], true⟩, head)

structure BodyAudio where
  mono : List UInt8
  carry : Option UInt8
  sent : List TtsAudioChunk
deriving DecidableEq, Repr

namespace BodyAudio

def empty : BodyAudio := ⟨[], none, []⟩

/-- The part of a loop round that takes the bytes: an odd trailing byte is carried over. -/
def take (sink : Bool) (s : BodyAudio) (incoming : List UInt8) : BodyAudio :=
  let bytes := s.carry.toList ++ incoming
  let carry := if bytes.length % 2 = 1 then bytes.getLast? else none
  let bytes := if bytes.length % 2 = 1 then bytes.dropLast else bytes
  if bytes.isEmpty then { s with carry := carry }
  else ⟨s.mono ++ bytes, carry, s.sent ++ if sink then [pcmChunkFromMono bytes] else []⟩

end BodyAudio

/-- The read loop of an HTTP body; only one client has a guard. -/
def readBody (vendor : String) (sink : Bool) :
    Option RiffGuard → BodyAudio → List BodyRead → BodyAudio × LoopEnd
  | _, s, [] => (s, .finished)
  | _, s, .failed error :: _ => (s, .failed error)
  | _, s, .timedOut :: _ => (s, .failed (timeoutMessage (vendor ++ " http") s.mono))
  | _, s, .cancelled :: _ => (s, .cancelled)
  | none, s, .chunk bytes :: reads => readBody vendor sink none (s.take sink bytes) reads
  | some riff, s, .chunk bytes :: reads =>
    match riff.feed bytes with
    | .error message => (s, .failed message)
    | .ok (riff, bytes) => readBody vendor sink (some riff) (s.take sink bytes) reads

/-- The result of a client that takes an empty body for an error. -/
def nonEmptyAudio (message : String) (read : BodyAudio × LoopEnd) : Synthesis :=
  match read.2 with
  | .failed error => ⟨read.1.sent, .error error⟩
  | _ =>
    if read.1.mono.isEmpty then ⟨read.1.sent, .error message⟩
    else ⟨read.1.sent, .ok [pcmChunkFromMono read.1.mono]⟩

namespace Cartesia

def synthesizeText (sink : Bool) (reads : List BodyRead) : Synthesis :=
  nonEmptyAudio "Cartesia bytes returned no audio" (readBody "cartesia" sink none .empty reads)

end Cartesia

namespace Deepgram

def synthesizeRest (sink : Bool) (reads : List BodyRead) : Synthesis :=
  nonEmptyAudio "Deepgram speak REST returned no audio"
    (readBody "deepgram" sink (some ⟨[], false⟩) .empty reads)

end Deepgram

namespace ElevenLabs

/-- `synthesize_http_stream`; `fullBody` is the body of `synthesize_full_body`, when the model's
plan asks for it. -/
def synthesizeHttpStream (sink : Bool) (fullBody : Option (Except String (List UInt8)))
    (reads : List BodyRead) : Synthesis :=
  let read := readBody "elevenlabs" sink none .empty reads
  match read.2 with
  | .failed error => ⟨read.1.sent, .error error⟩
  | .cancelled => ⟨read.1.sent, .ok [pcmChunkFromMono read.1.mono]⟩
  | .finished =>
    if read.1.mono.isEmpty then
      match fullBody with
      | some (.error error) => ⟨read.1.sent, .error error⟩
      | some (.ok mono) =>
        ⟨read.1.sent ++ (if sink then [pcmChunkFromMono mono] else []),
          .ok [pcmChunkFromMono mono]⟩
      | none => ⟨read.1.sent, .ok [pcmChunkFromMono read.1.mono]⟩
    else ⟨read.1.sent, .ok [pcmChunkFromMono read.1.mono]⟩

end ElevenLabs

/-! ## Socket messages -/

/-- What a socket gives; `μ` are the text messages of the vendor. -/
inductive WsRead (μ : Type) where
  | text (value : Except String μ)
  | binary (bytes : List UInt8)
  | other
  | close (reason : String)
  | failed (error : String)
  | timedOut
  | cancelled
deriving Repr

inductive WsItem where
  | audio (bytes : List UInt8)
  | skip
  | finished
  | failed (message : String)
  | timedOut
  | cancelled
deriving DecidableEq, Repr

structure SocketAudio where
  mono : List UInt8
  sent : List TtsAudioChunk
deriving DecidableEq, Repr

def SocketAudio.empty : SocketAudio := ⟨[], []⟩

def SocketAudio.take (sink : Bool) (s : SocketAudio) (bytes : List UInt8) : SocketAudio :=
  ⟨s.mono ++ bytes, s.sent ++ if sink then [pcmChunkFromMono bytes] else []⟩

/-- The read loop of a socket; a socket that ends is closed. -/
def readSocket (vendor closed : String) (sink : Bool) :
    SocketAudio → List WsItem → SocketAudio × LoopEnd
  | s, [] => (s, .failed closed)
  | s, .audio bytes :: items => readSocket vendor closed sink (s.take sink bytes) items
  | s, .skip :: items => readSocket vendor closed sink s items
  | s, .finished :: _ => (s, .finished)
  | s, .failed message :: _ => (s, .failed message)
  | s, .timedOut :: _ => (s, .failed (timeoutMessage (vendor ++ " ws") s.mono))
  | s, .cancelled :: _ => (s, .cancelled)

namespace Cartesia

structure Message where
  contextId : Option String
  type : Option String
  done : Option Bool
  message : Option String
  title : Option String
  data : Option (Except String (List UInt8))

def closedBeforeDone : String := "cartesia ws closed before done"

def Message.errorText (m : Message) : String :=
  match m.message, m.title with
  | some message, _ => message
  | none, some title => title
  | none, none => "cartesia ws error"

def item (contextId : String) : WsRead Message → WsItem
  | .text (.error error) => .failed error
  | .text (.ok m) =>
    if m.contextId.any fun id => id ≠ contextId then .skip
    else if m.type = some "done" ∧ m.done = some true then .finished
    else if m.type = some "error" then .failed m.errorText
    else if m.type = some "chunk" then
      match m.data with
      | none => .skip
      | some (.error error) => .failed error
      | some (.ok bytes) => .audio bytes
    else .skip
  | .binary _ | .other => .skip
  | .close _ => .failed closedBeforeDone
  | .failed error => .failed error
  | .timedOut => .timedOut
  | .cancelled => .cancelled

def runUtterance (contextId : String) (sink : Bool) (reads : List (WsRead Message)) :
    SocketAudio × LoopEnd :=
  readSocket "cartesia" closedBeforeDone sink .empty (reads.map (item contextId))

/-- `synthesize_progressive` over the socket: the REST body when nothing reached the sink. -/
def synthesizeProgressive (contextId : String) (sink : Bool) (reads : List (WsRead Message))
    (body : List BodyRead) : Synthesis :=
  let read := runUtterance contextId sink reads
  match read.2 with
  | .failed error =>
    if read.1.sent.isEmpty then synthesizeText sink body else ⟨read.1.sent, .error error⟩
  | _ => ⟨read.1.sent, .ok [pcmChunkFromMono read.1.mono]⟩

end Cartesia

namespace Deepgram

structure Message where
  type : Option String
  description : Option String

def closedBeforeFlushed : String := "deepgram ws closed before Flushed"

def item : WsRead Message → WsItem
  | .binary bytes => .audio bytes
  -- A text that does not parse is ignored.
  | .text (.error _) => .skip
  | .text (.ok m) =>
    if m.type = some "SpeechMetadata" ∨ m.type = some "Flushed" ∨ m.type = some "Cleared" then
      .finished
    else if m.type = some "Error" then
      .failed (m.description.getD "Deepgram speak error")
    else .skip
  | .other => .skip
  | .close _ => .failed closedBeforeFlushed
  | .failed error => .failed ("deepgram ws read failed: " ++ error)
  | .timedOut => .timedOut
  | .cancelled => .cancelled

/-- `synthesize_websocket` with its `run_utterance`. -/
def synthesizeWebsocket (sink : Bool) (reads : List (WsRead Message)) : Synthesis :=
  let read := readSocket "deepgram" closedBeforeFlushed sink .empty (reads.map item)
  match read.2 with
  | .failed error => ⟨read.1.sent, .error error⟩
  | .cancelled =>
    if read.1.mono.isEmpty then ⟨read.1.sent, .error "deepgram ws cancelled before audio"⟩
    else ⟨read.1.sent, .ok [pcmChunkFromMono read.1.mono]⟩
  | .finished =>
    if read.1.mono.isEmpty then
      ⟨read.1.sent, .error "Deepgram speak websocket returned no audio"⟩
    else ⟨read.1.sent, .ok [pcmChunkFromMono read.1.mono]⟩

end Deepgram

namespace ElevenLabs

structure Message where
  isFinal : Option Bool
  audio : Option (Except String (List UInt8))

def closedBeforeFinal (reason : String) : String :=
  if reason.isEmpty then "elevenlabs ws closed before isFinal"
  else "elevenlabs ws closed before isFinal: " ++ reason

def item : WsRead Message → WsItem
  | .text (.error error) => .failed error
  | .text (.ok m) =>
    if m.isFinal = some true then .finished
    else
      match m.audio with
      | none => .skip
      | some (.error error) => .failed error
      | some (.ok bytes) => .audio bytes
  | .binary _ | .other => .skip
  | .close reason => .failed (closedBeforeFinal reason)
  | .failed error => .failed ("elevenlabs ws read failed: " ++ error)
  | .timedOut => .timedOut
  | .cancelled => .cancelled

def synthesizeWebsocketStream (sink : Bool) (reads : List (WsRead Message)) : Synthesis :=
  let read := readSocket "elevenlabs" (closedBeforeFinal "") sink .empty (reads.map item)
  match read.2 with
  | .failed error => ⟨read.1.sent, .error error⟩
  | _ => ⟨read.1.sent, .ok [pcmChunkFromMono read.1.mono]⟩

end ElevenLabs

/-! ## One synthesis of any client -/

inductive Feed where
  | cartesiaHttp (reads : List BodyRead)
  | deepgramHttp (reads : List BodyRead)
  | elevenlabsHttp (fullBody : Option (Except String (List UInt8))) (reads : List BodyRead)
  | cartesiaWs (contextId : String) (reads : List (WsRead Cartesia.Message)) (body : List BodyRead)
  | deepgramWs (reads : List (WsRead Deepgram.Message))
  | elevenlabsWs (reads : List (WsRead ElevenLabs.Message))

namespace Feed

def synthesize (sink : Bool) : Feed → Synthesis
  | .cartesiaHttp reads => Cartesia.synthesizeText sink reads
  | .deepgramHttp reads => Deepgram.synthesizeRest sink reads
  | .elevenlabsHttp fullBody reads => ElevenLabs.synthesizeHttpStream sink fullBody reads
  | .cartesiaWs contextId reads body => Cartesia.synthesizeProgressive contextId sink reads body
  | .deepgramWs reads => Deepgram.synthesizeWebsocket sink reads
  | .elevenlabsWs reads => ElevenLabs.synthesizeWebsocketStream sink reads

/-- The items of a socket, or the reads of a body. -/
def items : Feed → List WsItem ⊕ List BodyRead
  | .cartesiaHttp reads | .deepgramHttp reads | .elevenlabsHttp _ reads => .inr reads
  | .cartesiaWs contextId reads _ => .inl (reads.map (Cartesia.item contextId))
  | .deepgramWs reads => .inl (reads.map Deepgram.item)
  | .elevenlabsWs reads => .inl (reads.map ElevenLabs.item)

end Feed

end NodeWebrtc.Vendors
