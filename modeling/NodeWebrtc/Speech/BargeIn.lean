import NodeWebrtc.Speech.Playback
import NodeWebrtc.Speech.SynthesisWorker

/-! # A barge-in over synthesis and playback

The synthesis worker runs a job from the moment it takes it back: the job reads the epoch, then
the buffer's generation, and compares the epoch once before its audio can reach the buffer. A
barge-in flushes the buffer first and takes its cut afterwards; the cut moves the epoch and
sets the cancel flag. The bytes in the buffer are marked with the ticket of their send.
-/

namespace NodeWebrtc.Speech

inductive JobPhase (β : Type) where
  | taken (stream : Bool)
  | captured (generation : Nat)
  | cleared (generation : Nat)
  | ready (generation : Nat)
  /-- Streaming: the chunks between the vendor and the enqueue task, whether the vendor call is
  still running and whether the enqueue task is. -/
  | streaming (generation : Nat) (channel : List (TtsAudioChunk β)) (calling receiving : Bool)
  | joined
  | completed
  /-- Buffered: has read the generation; the vendor call runs. -/
  | synthesizing (generation : Nat)
  | checked (generation : Nat) (chunks : List (TtsAudioChunk β))
  | enqueued
  | done

structure SynthesisJob (β : Type) where
  ticket : Nat
  epochAtStart : Nat
  phase : JobPhase β

/-- Where the barge-in is: its ender of the playback runs, then its cut is taken and applied. -/
inductive BargePhase where
  | idle
  | ending (ender : Nat)
  | cutting (below : Nat)
  | done (below : Nat)
deriving DecidableEq

structure Voice (β : Type) where
  synthesis : TtsSynthesis
  playback : Playback (Nat × β)
  epoch : Nat
  generateCancel : Bool
  jobs : InsertMap Nat (SynthesisJob β)
  barge : BargePhase

inductive JobInput (β : Type) where
  | readGeneration
  | clearCancel
  | checkEpoch
  | startProducing
  | vendorSend (chunk : TtsAudioChunk β)
  /-- The enqueue task takes the first `count` chunks, those the prebuffer held back together. -/
  | enqueue (count : Nat) (firstChunkMs : Option Nat)
  | vendorReturn
  | join
  | markComplete
  | stopProducing
  /-- The vendor returns all the audio of a buffered job. -/
  | synthesized (chunks : List (TtsAudioChunk β))
  | enqueueAll (firstChunkMs : Option Nat)
  /-- A pending config fails to apply, or no TTS is configured. -/
  | abandon

inductive VoiceInput (β : Type) where
  /-- A step of the sends or the workers that neither takes nor ends a job, and a cut of
  another call. -/
  | synthesis (i : SynthesisInput)
  | collect (below : Nat)
  | take (worker : Nat) (stream : Bool)
  | job (worker : Nat) (i : JobInput β)
  | finish (worker : Nat)
  /-- A step of the drain, or of a call that ends speaking. -/
  | playback (i : PlaybackInput (Nat × β))
  | bargeIn (flushTts : Bool)
  | bargeCut
  | bargeCollect

inductive VoiceEvent (β : Type) where
  | synthesis (event : SynthesisEvent)
  | playback (event : PlaybackEvent (Nat × β))
  | discarded (ticket : Nat)

def TtsAudioChunk.mark {β : Type} (ticket : Nat) (chunk : TtsAudioChunk β) :
    TtsAudioChunk (Nat × β) :=
  ⟨chunk.pcm.map fun b => (ticket, b), chunk.durationMs⟩

namespace Voice

variable {β : Type}

def new : Voice β := ⟨.new, .new, 0, false, .empty, .idle⟩

def setJob (v : Voice β) (w : Nat) (job : SynthesisJob β) (phase : JobPhase β) : Voice β :=
  { v with jobs := v.jobs.set w { job with phase := phase } }

/-- The reply of a send, with the time of its first chunk. -/
def reply (v : Voice β) (ticket : Nat) (firstChunkMs : Option Nat) :
    Option (ReplyId × Option Nat) :=
  (v.synthesis.order.replyId? ticket).map fun id => (id, firstChunkMs)

def onPlayback (v : Voice β) (i : PlaybackInput (Nat × β)) :
    Option (Voice β × List (VoiceEvent β)) :=
  (v.playback.step i).map fun p => ({ v with playback := p.1 }, p.2.map VoiceEvent.playback)

def onSynthesis (v : Voice β) (i : SynthesisInput) : Option (Voice β × List (VoiceEvent β)) :=
  (v.synthesis.step i).map fun p => ({ v with synthesis := p.1 }, p.2.map VoiceEvent.synthesis)

def invalidate (v : Voice β) : Voice β := { v with epoch := v.epoch + 1, generateCancel := true }

def enqueueFor (v : Voice β) (job : SynthesisJob β) (chunks : List (TtsAudioChunk β))
    (generation : Nat) (firstChunkMs : Option Nat) : Option (Voice β × List (VoiceEvent β)) :=
  v.onPlayback (.enqueue (chunks.map (TtsAudioChunk.mark job.ticket)) (some generation)
    (v.reply job.ticket firstChunkMs))

def accepts (v : Voice β) (chunks : List (TtsAudioChunk β)) (generation : Nat) : Bool :=
  v.playback.buffer.accepts (chunks.map (TtsAudioChunk.mark 0)) (some generation)

def completeFor (v : Voice β) (job : SynthesisJob β) : Option (Voice β × List (VoiceEvent β)) :=
  match v.synthesis.order.replyId? job.ticket with
  | some id => v.onPlayback (.markReplyComplete id)
  | none => some (v, [])

def stepJob (v : Voice β) (w : Nat) (job : SynthesisJob β) :
    JobPhase β → JobInput β → Option (Voice β × List (VoiceEvent β))
  | .taken true, .readGeneration =>
    some (v.setJob w job (.captured v.playback.buffer.generation), [])
  | .captured generation, .clearCancel =>
    some ({ v with generateCancel := false }.setJob w job (.cleared generation), [])
  | .cleared generation, .checkEpoch =>
    if v.epoch = job.epochAtStart then some (v.setJob w job (.ready generation), [])
    else some (v.setJob w job .done, [.discarded job.ticket])
  | .ready generation, .startProducing =>
    (v.setJob w job (.streaming generation [] true true)).onPlayback (.setProducing true)
  | .streaming generation channel true receiving, .vendorSend chunk =>
    if v.generateCancel || !receiving then some (v, [])
    else some (v.setJob w job (.streaming generation (channel ++ [chunk]) true receiving), [])
  | .streaming generation channel calling true, .enqueue count firstChunkMs =>
    if count = 0 ∨ channel.length < count then none
    else
      (v.setJob w job (.streaming generation (channel.drop count) calling
        (v.accepts (channel.take count) generation))).enqueueFor job (channel.take count)
        generation firstChunkMs
  | .streaming generation channel true receiving, .vendorReturn =>
    some (v.setJob w job (.streaming generation channel false receiving), [])
  | .streaming _ channel false receiving, .join =>
    if channel.isEmpty || !receiving then some (v.setJob w job .joined, []) else none
  | .joined, .markComplete => (v.setJob w job .completed).completeFor job
  | .completed, .stopProducing => (v.setJob w job .done).onPlayback (.setProducing false)
  | .taken false, .readGeneration =>
    some (v.setJob w job (.synthesizing v.playback.buffer.generation), [])
  | .synthesizing _, .vendorReturn => some (v.setJob w job .done, [])
  | .synthesizing generation, .synthesized chunks =>
    if v.epoch = job.epochAtStart then some (v.setJob w job (.checked generation chunks), [])
    else some (v.setJob w job .done, [.discarded job.ticket])
  | .checked generation chunks, .enqueueAll firstChunkMs =>
    if chunks.isEmpty then some (v.setJob w job .done, [])
    else if v.accepts chunks generation then
      (v.setJob w job .enqueued).enqueueFor job chunks generation firstChunkMs
    else some (v.setJob w job .done, [.discarded job.ticket])
  | .enqueued, .markComplete => (v.setJob w job .done).completeFor job
  | .taken _, .abandon | .streaming .., .abandon | .synthesizing _, .abandon =>
    some (v.setJob w job .done, [])
  | _, _ => none

/-- The steps of the sends and the workers that leave the running jobs alone. -/
def aside : SynthesisInput → Bool
  | .send _ | .ensureFlag _ | .ensureSlot _ | .notifyOne _ _ | .wake _ | .look _ | .check _
  | .pop _ | .rest _ | .flushCut => true
  | _ => false

/-- The steps of the playback that are not a job's. -/
def ofPlayback : PlaybackInput (Nat × β) → Bool
  | .enqueue .. | .setProducing _ | .markReplyComplete _ => false
  | _ => true

def ended (v : Voice β) (k : Nat) : Bool :=
  v.playback.enders[k]?.any fun e => e.todo.isEmpty

def step : Machine.Step (Voice β) (VoiceInput β) (VoiceEvent β)
  | v, .synthesis i => if aside i then v.onSynthesis i else none
  | v, .collect below => v.invalidate.onSynthesis (.flushCollect below)
  | v, .take w stream =>
    match v.synthesis.held with
    | some t => { v with jobs := v.jobs.set w ⟨t, v.epoch, .taken stream⟩ }.onSynthesis (.take w)
    | none => v.onSynthesis (.take w)
  | v, .job w i => (v.jobs.get w).bind fun job => v.stepJob w job job.phase i
  | v, .finish w =>
    match v.jobs.get w with
    | some ⟨_, _, .done⟩ => { v with jobs := v.jobs.delete w }.onSynthesis (.finish w)
    | _ => none
  | v, .playback i => if ofPlayback i then v.onPlayback i else none
  | v, .bargeIn flushTts =>
    if v.barge = .idle then
      { v with barge := .ending v.playback.enders.length }.onPlayback
        (.call (bargeInSteps flushTts))
    else none
  | v, .bargeCut =>
    match v.barge with
    | .ending k =>
      if v.ended k then
        { v with barge := .cutting v.synthesis.cutOrder.2.1 }.onSynthesis .flushCut
      else none
    | _ => none
  | v, .bargeCollect =>
    match v.barge with
    | .cutting below => { v.invalidate with barge := .done below }.onSynthesis (.flushCollect below)
    | _ => none

end Voice

end NodeWebrtc.Speech
