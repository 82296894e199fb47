import NodeWebrtc.Vendors.TtsStreams

/-! # The backlog of an utterance

Both transports count the milliseconds that were pushed. A commit freezes the count of its
utterance, which is reported until a final was delivered; the next utterance is counted apart.
-/

namespace NodeWebrtc.OpenAi

open Vendors (durationMsFromMonoS16le)

def STT_PCM_SAMPLE_RATE : Nat := 16000
def STT_MIN_BATCH_BYTES : Nat := 3200

/-- Two counters that wrap at 32 bits, and the flag of a commit. -/
structure Backlog where
  liveBacklogMs : Nat
  frozenBacklogMs : Nat
  commitWaiting : Bool
deriving DecidableEq

namespace Backlog

def new : Backlog := ⟨0, 0, false⟩

def notePushedAudio (b : Backlog) (pcmLen : Nat) : Backlog :=
  if pcmLen = 0 then b
  else
    let ms := durationMsFromMonoS16le pcmLen STT_PCM_SAMPLE_RATE
    { b with liveBacklogMs := (b.liveBacklogMs + ms) % 2 ^ 32 }

def freezeBacklogForCommit (b : Backlog) : Backlog := ⟨0, b.liveBacklogMs, true⟩

def clearBacklog (_ : Backlog) : Backlog := ⟨0, 0, false⟩

def onFinalDelivered (b : Backlog) : Backlog := { b with frozenBacklogMs := 0, commitWaiting := false }

def decodeBacklogMs (b : Backlog) : Nat :=
  if b.commitWaiting then b.frozenBacklogMs else b.liveBacklogMs

@[simp] theorem commitWaiting_notePushedAudio (b : Backlog) (pcmLen : Nat) :
    (b.notePushedAudio pcmLen).commitWaiting = b.commitWaiting := by
  rw [notePushedAudio]
  split <;> rfl

@[simp] theorem commitWaiting_freezeBacklogForCommit (b : Backlog) :
    b.freezeBacklogForCommit.commitWaiting = true := rfl

@[simp] theorem commitWaiting_clearBacklog (b : Backlog) :
    b.clearBacklog.commitWaiting = false := rfl

@[simp] theorem commitWaiting_onFinalDelivered (b : Backlog) :
    b.onFinalDelivered.commitWaiting = false := rfl

end Backlog

end NodeWebrtc.OpenAi
