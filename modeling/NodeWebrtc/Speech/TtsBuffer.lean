import Mathlib.Algebra.GroupWithZero.Nat
import NodeWebrtc.Lib.Word

/-! # The outbound TTS buffer

Chunks of PCM wait here for the drain worker. A ledger books the bytes of tagged enqueues,
one entry for each reply in queue order, and tells when written bytes cross the start or the
end of a reply. A flush drops everything and moves to a new generation. The bytes are of any
type: the buffer only moves and counts them.
-/

namespace NodeWebrtc.Speech

/-- Outbound PCM is 48 kHz stereo s16le: 192 bytes per millisecond. -/
def PCM_BYTES_PER_MS : Nat := 192

abbrev ReplyId := String

structure TtsAudioChunk (β : Type) where
  pcm : List β
  durationMs : Nat
deriving DecidableEq, Repr

/-- Bytes of one reply that were queued and played, in queue order. -/
structure ReplyLedgerEntry where
  replyId : ReplyId
  queuedBytes : Nat
  playedBytes : Nat
  /-- Some of this reply's bytes have been written to the outbound track. -/
  started : Bool
  complete : Bool
  /-- Speak request to the first PCM chunk from the TTS vendor. -/
  firstChunkMs : Option Nat
deriving DecidableEq, Repr

/-- A reply boundary crossed while PCM was written. -/
inductive ReplyTransition where
  | started (id : ReplyId) (firstChunkMs : Option Nat)
  | ended (id : ReplyId) (playedMs synthesizedMs : Nat)
deriving DecidableEq, Repr

structure FlushedReply where
  id : ReplyId
  playedMs : Nat
  synthesizedMs : Nat
  synthesisComplete : Bool
deriving DecidableEq, Repr

/-- `u32::try_from(played_bytes / PCM_BYTES_PER_MS).unwrap_or(u32::MAX)`. -/
def playedMs (playedBytes : Nat) : Nat := min (playedBytes / PCM_BYTES_PER_MS) (2 ^ 32 - 1)

/-- Queue of TTS PCM chunks awaiting injection to the outbound track. -/
structure TtsBuffer (β : Type) where
  queue : List (TtsAudioChunk β)
  speaking : Bool
  producing : Bool
  /-- Less than one 20 ms frame of PCM, held across drain passes. -/
  frameCarry : List β
  flushedGeneration : Nat
  generation : Nat
  /-- Replies (tagged enqueues only) in queue order. -/
  replyLedger : List ReplyLedgerEntry
  flushedReplies : List FlushedReply
  held : Bool
deriving DecidableEq, Repr

namespace ReplyLedgerEntry

def addQueued (e : ReplyLedgerEntry) (bytes : Nat) : ReplyLedgerEntry :=
  { e with queuedBytes := e.queuedBytes + bytes }

def opened (id : ReplyId) (firstChunkMs : Option Nat) (bytes : Nat) : ReplyLedgerEntry where
  replyId := id
  queuedBytes := bytes
  playedBytes := 0
  started := false
  complete := false
  firstChunkMs := firstChunkMs

def startTransition (e : ReplyLedgerEntry) : ReplyTransition := .started e.replyId e.firstChunkMs

def endTransition (e : ReplyLedgerEntry) : ReplyTransition :=
  .ended e.replyId (playedMs e.playedBytes) (playedMs e.queuedBytes)

def flushed (e : ReplyLedgerEntry) : FlushedReply where
  id := e.replyId
  playedMs := NodeWebrtc.Speech.playedMs e.playedBytes
  synthesizedMs := NodeWebrtc.Speech.playedMs e.queuedBytes
  synthesisComplete := e.complete

def owes (e : ReplyLedgerEntry) : Nat := e.queuedBytes - e.playedBytes

/-- The entry after `take` of its bytes were written. -/
def book (e : ReplyLedgerEntry) (take : Nat) : ReplyLedgerEntry :=
  if 0 < take then { e with started := true, playedBytes := e.playedBytes + take } else e

/-- The test of `consume_played` for the end of a reply. -/
def finished (e : ReplyLedgerEntry) : Bool :=
  e.complete && e.started && decide (e.queuedBytes ≤ e.playedBytes)

end ReplyLedgerEntry

/-- Books the bytes of a tagged enqueue: to the tail entry when its id matches and it is not
complete, else to a new entry. -/
def bookQueued (ledger : List ReplyLedgerEntry) (id : ReplyId) (firstChunkMs : Option Nat)
    (bytes : Nat) : List ReplyLedgerEntry :=
  match ledger.getLast? with
  | some tail =>
    if !tail.complete && tail.replyId == id then ledger.dropLast ++ [tail.addQueued bytes]
    else ledger ++ [.opened id firstChunkMs bytes]
  | none => ledger ++ [.opened id firstChunkMs bytes]

def completeFirst (id : ReplyId) : List ReplyLedgerEntry → List ReplyLedgerEntry
  | [] => []
  | e :: rest =>
    if e.replyId = id then { e with complete := true } :: rest else e :: completeFirst id rest

/-- The loop of `consume_played`: books `remaining` bytes, oldest reply first. -/
def consumeLedger (remaining : Nat) :
    List ReplyLedgerEntry → List ReplyTransition × List ReplyLedgerEntry
  | [] => ([], [])
  | head :: rest =>
    let take := min remaining head.owes
    let startOut := if 0 < take && !head.started then [head.startTransition] else []
    let head' := head.book take
    if head'.finished then
      let (out, ledger) := consumeLedger (remaining - take) rest
      (startOut ++ [head'.endTransition] ++ out, ledger)
    else (startOut, head' :: rest)

namespace TtsBuffer

variable {β : Type}

def new : TtsBuffer β := ⟨[], false, false, [], 0, 0, [], [], false⟩

/-- Chunks are accepted when there are any and the generation is the expected one. -/
def accepts (b : TtsBuffer β) (chunks : List (TtsAudioChunk β)) (expectGeneration : Option Nat) :
    Bool :=
  !chunks.isEmpty && (expectGeneration.all fun expected => b.generation == expected)

def enqueueTaggedIfGeneration (b : TtsBuffer β) (chunks : List (TtsAudioChunk β))
    (expectGeneration : Option Nat) (reply : Option (ReplyId × Option Nat)) :
    Bool × TtsBuffer β :=
  if b.accepts chunks expectGeneration then
    let bytes := (chunks.map fun c => c.pcm.length).sum
    let replyLedger :=
      match reply with
      | some (id, firstChunkMs) =>
        if 0 < bytes then bookQueued b.replyLedger id firstChunkMs bytes else b.replyLedger
      | none => b.replyLedger
    (true, { b with speaking := true, replyLedger, queue := b.queue ++ chunks })
  else (false, b)

def enqueueIfGeneration (b : TtsBuffer β) (chunks : List (TtsAudioChunk β))
    (expectGeneration : Option Nat) : Bool × TtsBuffer β :=
  b.enqueueTaggedIfGeneration chunks expectGeneration none

/-- No more bytes will be queued for the reply: its newest entry is complete. -/
def markReplyComplete (b : TtsBuffer β) (id : ReplyId) : TtsBuffer β :=
  { b with replyLedger := (completeFirst id b.replyLedger.reverse).reverse }

/-- Books `bytes` of PCM written to the outbound track against the ledger. -/
def consumePlayed (b : TtsBuffer β) (bytes : Nat) : List ReplyTransition × TtsBuffer β :=
  ((consumeLedger bytes b.replyLedger).1,
    { b with replyLedger := (consumeLedger bytes b.replyLedger).2 })

def takeFlushedReplies (b : TtsBuffer β) : List FlushedReply × TtsBuffer β :=
  (b.flushedReplies, { b with flushedReplies := [] })

def setProducing (b : TtsBuffer β) (producing : Bool) : TtsBuffer β :=
  if producing then { b with producing, speaking := true }
  else { b with producing, speaking := if b.queue.isEmpty then false else b.speaking }

def flush (b : TtsBuffer β) : TtsBuffer β :=
  let generation := (b.generation + 1) % 2 ^ 64
  { b with
    queue := []
    frameCarry := []
    replyLedger := []
    flushedReplies := b.flushedReplies ++ b.replyLedger.map ReplyLedgerEntry.flushed
    speaking := false
    producing := false
    held := false
    generation
    flushedGeneration := generation }

def takeFrameCarry (b : TtsBuffer β) : List β × TtsBuffer β :=
  (b.frameCarry, { b with frameCarry := [] })

def storeFrameCarry (b : TtsBuffer β) (carry : List β) : TtsBuffer β :=
  { b with frameCarry := carry }

/-- `TtsDrainHold::pop_chunk` with `hold`, else `TtsBuffer::pop_chunk`. -/
def popChunkMarking (b : TtsBuffer β) (hold : Bool) : Option (TtsAudioChunk β) × TtsBuffer β :=
  match b.queue with
  | [] => (none, { b with speaking := if b.producing then b.speaking else false })
  | chunk :: rest => (some chunk, { b with queue := rest, held := hold || b.held })

def dropHold (b : TtsBuffer β) : TtsBuffer β := { b with held := false }

def isSpeaking (b : TtsBuffer β) : Bool := b.speaking || b.producing || b.held

end TtsBuffer

end NodeWebrtc.Speech
