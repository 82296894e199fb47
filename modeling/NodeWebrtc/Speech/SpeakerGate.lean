import NodeWebrtc.Lib.InsertMap
import NodeWebrtc.Lib.Machine

/-! # The speaker gate

The feed side collects the speech of the live utterance and sends it to the verifier task in
windows; a window that ended short is re-opened when its utterance goes on. The verifier takes
one message after another: it drops a check that a re-open superseded, scores the others,
stores the verdict and hands it to the agent, where a task of its own applies it under the
step lock.

A step is one call on the feed side, one critical section of the verifier or one handler that
got the step lock. PCM is a list of bytes, the embedding of a clip comes in with the step.
-/

namespace NodeWebrtc.Speech

def bytesPerMs : Nat := 32

def preRollMs : Nat := 300

def bookCap : Nat := 32

def endedCap : Nat := 4

def pushCapped {α : Type} (q : List α) (v : α) : List α :=
  (q ++ [v]).drop (q.length + 1 - bookCap)

inductive Outcome where
  | caller
  | other
  | unknown
deriving DecidableEq

inductive UnknownReason where
  | notEnrolled
  | short
  | timeout
  | error
  | noEmbedding
deriving DecidableEq

structure Verdict where
  key : Nat
  outcome : Outcome
  timedOut : Bool
  reason : Option UnknownReason
  recheck : Bool
  window : Nat
deriving DecidableEq

inductive SpeakerGateBargeIn where
  | callerOnly
  | anyone
deriving DecidableEq

structure SpeakerGateConfig (ε : Type) where
  enabled : Bool
  enrollSpeechMs : Nat
  checkSpeechMs : Nat
  minCheckSpeechMs : Nat
  suppressShortBargeIn : Bool
  recheckOnOther : Bool
  recheckMaxWindows : Nat
  bargeIn : SpeakerGateBargeIn
  /-- `cosine` of the reference and an embedding, compared with `threshold`; `none` where
  there is no score. -/
  isCaller : ε → ε → Option Bool

inductive UttGate where
  | off
  | loading
  | active
deriving DecidableEq

structure UttSettings where
  gate : UttGate
  bargeIn : SpeakerGateBargeIn
  cut : Bool
deriving DecidableEq

structure GateRuntime where
  enabled : Bool
  loaded : Bool
  loading : Bool
  bargeIn : SpeakerGateBargeIn
  utts : List (Nat × UttSettings)

inductive BargeDecision where
  | proceed
  | suppress
  | defer
deriving DecidableEq

structure Check (β : Type) where
  key : Nat
  pcm : List β
  speechBytes : Nat
  recheck : Bool
  window : Nat
  attempt : Nat

inductive GateMsg (β : Type) where
  | enroll (pcm : List β)
  | check (check : Check β)
  | reset

structure GateBook where
  verdicts : List (Nat × Outcome)
  reasons : List (Nat × UnknownReason)
  sent : List Nat
  rechecksInFlight : List Nat
  windowsScored : List (Nat × Nat)
  closed : List Nat
  reopenedAfter : InsertMap Nat Nat

structure GateCur (β : Type) where
  key : Nat
  buf : List β
  pre : Nat
  sent : Bool
  windowsSent : Nat
  speechSeen : Nat
  rechecksClosed : Bool
  reopened : Bool

structure GateFeed (β : Type) where
  ring : List β
  cur : Option (GateCur β)
  ended : List (Nat × List β)
  /-- Utterance key to the playback epoch the barge-in was raised against. -/
  pendingBarge : InsertMap Nat Nat
  shorts : List (Nat × Nat × Nat)
  attempts : Nat

/-- Where the verifier task is: in its receive, in the embedding for an enrollment, before the
superseded test, past it and in the embedding of the clip, and past the store. -/
inductive GateVerifier (β : Type) where
  | receiving
  | enrolling
  | received (check : Check β)
  | checking (check : Check β)
  | stored (attempt : Nat) (verdict : Verdict)

structure SpeakerGate (β ε : Type) where
  cfg : SpeakerGateConfig ε
  enrolled : Bool
  runtime : GateRuntime
  feed : GateFeed β
  book : GateBook
  channel : List (GateMsg β)
  verifier : GateVerifier β
  reference : Option ε
  enrollPcm : List β
  /-- The handler tasks that wait for the step lock. The attempt of a verdict is kept beside
  it; no step reads it. -/
  deliveries : List (Nat × Verdict)

inductive EmbedFail where
  | timeout
  | error

inductive GateInput (β ε : Type) where
  | begin (key : Nat) (frame : List β)
  | pushFrame (frame : List β)
  | endUtterance
  | bargeIn (key epoch : Nat) (rejoinWindowOpen : Bool)
  /-- A final, a gate hold that expired or a disabled gate takes the held barge-in. -/
  | takePendingBarge (key : Nat)
  | closeRecheck (key : Nat)
  | enrollUtterance (key : Nat)
  | reset
  | setPolicy (bargeIn : SpeakerGateBargeIn)
  | setEnabled
  | loadTimedOut
  | lateLoadReturned
  | finishLoad (ok : Bool)
  | setDisabled
  | receive
  | enroll (embedded : Except EmbedFail (Option ε))
  | testSuperseded
  /-- The embedding of a check settles and its verdict is stored. -/
  | store (embedded : Except EmbedFail (Option ε))
  | onVerdict
  /-- The `task`-th waiting handler gets the step lock. -/
  | apply (task : Nat) (rejoinWindowOpen : Bool)

inductive GateEvent where
  /-- The key was re-opened after so many attempts. -/
  | reopened (key after : Nat)
  | stored (key attempt : Nat) (recheck : Bool) (outcome : Outcome)
  /-- The verdict of the attempt released the barge-in held for its key. -/
  | released (key attempt epoch : Nat)
deriving DecidableEq

/-! ## The book and the settings -/

namespace GateBook

def new : GateBook := ⟨[], [], [], [], [], [], .empty⟩

def outcomeFor (b : GateBook) (key : Nat) : Option Outcome :=
  (b.verdicts.reverse.find? fun e => e.1 = key).map Prod.snd

def storedUnknownReason (b : GateBook) (key : Nat) : Option UnknownReason :=
  (b.reasons.reverse.find? fun e => e.1 = key).map Prod.snd

/-- `windows_scored`, zero when no window settled. -/
def scored (b : GateBook) (key : Nat) : Nat :=
  ((b.windowsScored.find? fun e => e.1 = key).map Prod.snd).getD 0

def windowsSentFor (b : GateBook) (key : Nat) : Nat :=
  max (b.scored key + if key ∈ b.rechecksInFlight then 1 else 0) (if key ∈ b.sent then 1 else 0)

def recheckDue (b : GateBook) (key : Nat) : Bool :=
  b.outcomeFor key = some .other && key ∉ b.closed && key ∉ b.rechecksInFlight

def markSent (b : GateBook) (key : Nat) : GateBook :=
  if key ∈ b.sent then b else { b with sent := pushCapped b.sent key }

def markClosed (b : GateBook) (key : Nat) : GateBook :=
  if key ∈ b.closed then b else { b with closed := pushCapped b.closed key }

def reopen (b : GateBook) (key attempts : Nat) : GateBook :=
  { b with
    verdicts := b.verdicts.filter fun e => e.1 ≠ key
    reasons := b.reasons.filter fun e => e.1 ≠ key
    reopenedAfter := ((b.reopenedAfter.delete key).set key attempts).keepLast bookCap }

def isSuperseded (b : GateBook) (key attempt : Nat) : Bool :=
  (b.reopenedAfter.get key).any fun after => attempt ≤ after

def noteScored (b : GateBook) (key window : Nat) : GateBook :=
  if key ∈ b.windowsScored.map Prod.fst then
    { b with
      windowsScored := b.windowsScored.map fun e => if e.1 = key then (e.1, max e.2 window) else e }
  else { b with windowsScored := pushCapped b.windowsScored (key, window) }

/-- The verdict of a first check; a re-check only upgrades to `caller`. -/
def storeVerdict (b : GateBook) (v : Verdict) : GateBook :=
  if v.recheck then
    { b with
      verdicts := if v.outcome = .caller then pushCapped b.verdicts (v.key, v.outcome)
        else b.verdicts
      rechecksInFlight := b.rechecksInFlight.filter fun k => k ≠ v.key }
  else
    { b with
      verdicts := pushCapped b.verdicts (v.key, v.outcome)
      reasons := match v.reason with
        | some r => pushCapped b.reasons (v.key, r)
        | none => b.reasons }

end GateBook

namespace GateRuntime

def currentSettings (rt : GateRuntime) : UttSettings :=
  ⟨if ¬rt.enabled then .off else if rt.loaded then .active else .loading, rt.bargeIn, false⟩

def uttSettings (rt : GateRuntime) (key : Nat) : UttSettings :=
  ((rt.utts.find? fun e => e.1 = key).map Prod.snd).getD rt.currentSettings

/-- `snapshot_utt`, which returns the settings of the utterance too. -/
def snapshotUtt (rt : GateRuntime) (key : Nat) : GateRuntime :=
  if key ∈ rt.utts.map Prod.fst then rt
  else { rt with utts := pushCapped rt.utts (key, rt.currentSettings) }

/-- An active utterance that is not cut is scored. -/
def scores (rt : GateRuntime) (key : Nat) : Bool :=
  (rt.uttSettings key).gate = .active && !(rt.uttSettings key).cut

def holdsBargeFor (rt : GateRuntime) (key : Nat) : Bool :=
  rt.scores key && (rt.uttSettings key).bargeIn = .callerOnly

def disable (rt : GateRuntime) : GateRuntime :=
  { rt with
    enabled := false
    utts := rt.utts.map fun e => if e.2.gate = .active then (e.1, { e.2 with cut := true }) else e }

end GateRuntime

namespace SpeakerGate

variable {β ε : Type}

def new (cfg : SpeakerGateConfig ε) : SpeakerGate β ε where
  cfg := cfg
  enrolled := false
  runtime := ⟨cfg.enabled, cfg.enabled, false, cfg.bargeIn, []⟩
  feed := ⟨[], none, [], .empty, [], 0⟩
  book := .new
  channel := []
  verifier := .receiving
  reference := none
  enrollPcm := []
  deliveries := []

/-! ## The feed side -/

def checkBytes (g : SpeakerGate β ε) : Nat := g.cfg.checkSpeechMs * bytesPerMs

def keepBytes (g : SpeakerGate β ε) : Nat := preRollMs * bytesPerMs + g.checkBytes

def minCheckBytes (g : SpeakerGate β ε) : Nat := g.cfg.minCheckSpeechMs * bytesPerMs

def enrollBytes (g : SpeakerGate β ε) : Nat := g.cfg.enrollSpeechMs * bytesPerMs

def rolling (g : SpeakerGate β ε) : Bool := g.cfg.recheckOnOther && g.enrolled

def capBytes (g : SpeakerGate β ε) : Nat :=
  (if g.enrolled then g.cfg.checkSpeechMs
    else max g.cfg.checkSpeechMs g.cfg.enrollSpeechMs) * bytesPerMs

def windowsRemain (g : SpeakerGate β ε) (windowsSent : Nat) : Bool :=
  g.cfg.recheckMaxWindows = 0 || windowsSent < g.cfg.recheckMaxWindows

def setCur (g : SpeakerGate β ε) (cur : Option (GateCur β)) : SpeakerGate β ε :=
  { g with feed := { g.feed with cur := cur } }

def setBook (g : SpeakerGate β ε) (book : GateBook) : SpeakerGate β ε := { g with book := book }

def sendCheck (g : SpeakerGate β ε) (key : Nat) (pcm : List β) (speechBytes : Nat) (recheck : Bool)
    (window : Nat) : SpeakerGate β ε :=
  { g with
    feed := { g.feed with attempts := g.feed.attempts + 1 }
    channel := g.channel ++
      [.check ⟨key, pcm, speechBytes, recheck, window, g.feed.attempts + 1⟩] }

def takePendingBarge (g : SpeakerGate β ε) (key : Nat) : SpeakerGate β ε :=
  { g with feed := { g.feed with pendingBarge := g.feed.pendingBarge.delete key } }

def setPendingBarge (g : SpeakerGate β ε) (key epoch : Nat) : SpeakerGate β ε :=
  { g with feed := { g.feed with pendingBarge := g.feed.pendingBarge.set key epoch } }

def hasPendingBarge (g : SpeakerGate β ε) (key : Nat) : Bool :=
  (g.feed.pendingBarge.get key).isSome

def collect (g : SpeakerGate β ε) (cur : GateCur β) (frame : List β) : GateCur β :=
  { cur with
    buf := if g.rolling || cur.reopened then cur.buf ++ frame
      else cur.buf ++ frame.take (g.capBytes - (cur.buf.length - cur.pre))
    speechSeen := cur.speechSeen + frame.length }

def firstDue (g : SpeakerGate β ε) (cur : GateCur β) : Bool :=
  !cur.sent && g.checkBytes ≤ cur.buf.length - cur.pre &&
    (cur.windowsSent + 1) * g.checkBytes ≤ cur.speechSeen

def nextDue (g : SpeakerGate β ε) (cur : GateCur β) : Bool :=
  g.cfg.recheckOnOther && cur.sent && !cur.rechecksClosed && g.windowsRemain cur.windowsSent &&
    (cur.windowsSent + 1) * g.checkBytes ≤ cur.speechSeen && g.enrolled &&
    g.book.recheckDue cur.key

/-- A rolling buffer keeps the latest pre-roll and check. -/
def trim (g : SpeakerGate β ε) (cur : GateCur β) : GateCur β :=
  if (g.rolling || cur.reopened) && (cur.sent || cur.reopened) && g.keepBytes < cur.buf.length then
    { cur with buf := cur.buf.drop (cur.buf.length - g.keepBytes), pre := 0 }
  else cur

def clip (g : SpeakerGate β ε) (cur : GateCur β) : List β :=
  cur.buf.drop (cur.buf.length - g.keepBytes)

def pushSpeech (g : SpeakerGate β ε) (cur : GateCur β) (frame : List β) : SpeakerGate β ε :=
  let cur := g.collect cur frame
  if g.firstDue cur then
    let cur := { cur with sent := true, windowsSent := cur.windowsSent + 1 }
    ((g.setCur (some (g.trim cur))).setBook (g.book.markSent cur.key)).sendCheck cur.key
      (g.clip cur) g.checkBytes false cur.windowsSent
  else if g.nextDue cur then
    let cur := { cur with windowsSent := cur.windowsSent + 1 }
    ((g.setCur (some (g.trim cur))).setBook
      { g.book with rechecksInFlight := pushCapped g.book.rechecksInFlight cur.key }).sendCheck
      cur.key (g.clip cur) g.checkBytes true cur.windowsSent
  else g.setCur (some (g.trim cur))

def pushFrame (g : SpeakerGate β ε) (frame : List β) : SpeakerGate β ε :=
  match g.feed.cur with
  | some cur => g.pushSpeech cur frame
  | none =>
    let ring := g.feed.ring ++ frame
    { g with feed := { g.feed with ring := ring.drop (ring.length - preRollMs * bytesPerMs) } }

/-- What `end_locked` sends for an utterance without a check. -/
def endUnsent (g : SpeakerGate β ε) (cur : GateCur β) : SpeakerGate β ε :=
  let speech := if 0 < cur.windowsSent then 0 else min (cur.buf.length - cur.pre) g.checkBytes
  let nextWindow := if cur.reopened then cur.windowsSent + 1 else max cur.windowsSent 1 + 1
  let shorts :=
    if speech < g.minCheckBytes then
      pushCapped (g.feed.shorts.filter fun e => e.1 ≠ cur.key) (cur.key, cur.speechSeen, nextWindow)
    else g.feed.shorts
  ({ g with
    feed := { g.feed with shorts := shorts }
    book := g.book.markSent cur.key }).sendCheck cur.key (cur.buf.take (cur.pre + speech)) speech
    false (cur.windowsSent + 1)

/-- An utterance that ends on a settled `other` drops its held barge-in. -/
def endSent (g : SpeakerGate β ε) (cur : GateCur β) : SpeakerGate β ε :=
  if g.cfg.recheckOnOther && g.book.outcomeFor cur.key = some .other &&
      cur.key ∉ g.book.rechecksInFlight then g.takePendingBarge cur.key
  else g

def keepEnded (g : SpeakerGate β ε) (cur : GateCur β) : SpeakerGate β ε :=
  if g.enrolled then g
  else
    let ended := g.feed.ended ++ [(cur.key, cur.buf.drop cur.pre)]
    { g with feed := { g.feed with ended := ended.drop (ended.length - endedCap) } }

def endUtterance (g : SpeakerGate β ε) : SpeakerGate β ε :=
  match g.feed.cur with
  | none => g
  | some cur =>
    let g := g.setCur none
    (if cur.sent then g.endSent cur else g.endUnsent cur).keepEnded cur

/-- The short record of the key, when its final has not read the verdict. -/
def reopens (g : SpeakerGate β ε) (key : Nat) : Option (Nat × Nat × Nat) :=
  if key ∈ g.book.closed then none else g.feed.shorts.find? fun e => e.1 = key

/-- `reopen_short`: the short record goes, and a key whose final has not read the verdict
starts over. -/
def reopenShort (g : SpeakerGate β ε) (key : Nat) :
    SpeakerGate β ε × Option (GateCur β) × List GateEvent :=
  let shorts := g.feed.shorts.eraseP fun e => e.1 = key
  let g' := { g with feed := { g.feed with shorts := shorts } }
  match g.reopens key with
  | none => (g', none, [])
  | some (_, speechSeen, nextWindow) =>
    (g'.setBook (g.book.reopen key g.feed.attempts),
      some ⟨key, [], 0, false, nextWindow - 1, speechSeen, false, true⟩,
      [.reopened key g.feed.attempts])

/-- The utterance that joins a key without a re-open. -/
def joined (g : SpeakerGate β ε) (key : Nat) (buf : List β) (pre : Nat) (sent : Bool) : GateCur β :=
  let windowsSent := if sent then g.book.windowsSentFor key else 0
  ⟨key, buf, pre, sent, windowsSent, windowsSent * g.checkBytes, key ∈ g.book.closed, false⟩

/-- The PCM of the utterance that ended last, when it is this one. -/
def resumed (g : SpeakerGate β ε) (key : Nat) : Option (List β) :=
  (g.feed.ended.getLast?.filter fun e => e.1 = key).map Prod.snd

/-- The part of `begin` that opens the utterance. -/
def openCur (g : SpeakerGate β ε) (key : Nat) : SpeakerGate β ε × List GateEvent :=
  match g.resumed key with
  | some buf =>
    let g := { g with feed := { g.feed with ended := g.feed.ended.dropLast } }
    match g.reopenShort key with
    | (g, some cur, es) => (g.setCur (some { cur with buf := buf, pre := 0 }), es)
    | (g, none, es) => (g.setCur (some (g.joined key buf 0 true)), es)
  | none =>
    let buf := g.feed.ring
    match g.reopenShort key with
    | (g, some cur, es) =>
      (({ g with feed := { g.feed with ring := [] } }).setCur
        (some { cur with buf := buf, pre := buf.length }), es)
    | (g, none, es) =>
      (({ g with feed := { g.feed with ring := [] } }).setCur
        (some (g.joined key buf buf.length (key ∈ g.book.sent))), es)

/-- The settings of the key are taken and the utterance of another key ends. -/
def leaveOther (g : SpeakerGate β ε) (key : Nat) : SpeakerGate β ε :=
  let g := { g with runtime := g.runtime.snapshotUtt key }
  if g.feed.cur.any fun cur => cur.key ≠ key then g.endUtterance else g

def begin (g : SpeakerGate β ε) (key : Nat) (frame : List β) : SpeakerGate β ε × List GateEvent :=
  let g := g.leaveOther key
  if ¬g.runtime.scores key then (g, [])
  else if g.feed.cur.isSome then (g.pushFrame frame, [])
  else
    let opened := g.openCur key
    (opened.1.pushFrame frame, opened.2)

def closeRecheck (g : SpeakerGate β ε) (key : Nat) : SpeakerGate β ε :=
  { g with
    feed := { g.feed with
      cur := g.feed.cur.map fun cur =>
        if cur.key = key then { cur with rechecksClosed := true } else cur }
    book := g.book.markClosed key }

/-- The PCM of an utterance for the enrollment: of the live one, or of one that ended. -/
def enrollUtterance (g : SpeakerGate β ε) (key : Nat) : SpeakerGate β ε :=
  if g.enrolled then g
  else
    match g.feed.cur.filter fun cur => cur.key = key with
    | some cur =>
      if (cur.buf.drop cur.pre).isEmpty then g
      else { g with channel := g.channel ++ [.enroll (cur.buf.drop cur.pre)] }
    | none =>
      match g.feed.ended.find? fun e => e.1 = key with
      | none => g
      | some (_, pcm) =>
        let g := { g with
          feed := { g.feed with ended := g.feed.ended.eraseP fun e => e.1 = key } }
        if pcm.isEmpty then g else { g with channel := g.channel ++ [.enroll pcm] }

def reset (g : SpeakerGate β ε) : SpeakerGate β ε :=
  { g with
    enrolled := false
    feed := { g.feed with ended := [], pendingBarge := .empty, shorts := [] }
    channel := g.channel ++ [.reset] }

def setDisabled (g : SpeakerGate β ε) : SpeakerGate β ε :=
  { g with
    runtime := g.runtime.disable
    feed := { g.feed with cur := none, shorts := [] } }

/-! ## Barge-ins -/

def recheckOpen (g : SpeakerGate β ε) (key : Nat) : Bool :=
  g.cfg.recheckOnOther &&
    (key ∈ g.book.rechecksInFlight ||
      ((g.feed.cur.any fun cur =>
        cur.key = key && cur.sent && !cur.rechecksClosed && g.windowsRemain cur.windowsSent) &&
        key ∉ g.book.closed))

def shortCanRejoin (g : SpeakerGate β ε) (key : Nat) : Bool :=
  key ∈ g.feed.shorts.map Prod.fst && key ∉ g.book.closed

def bargeDecision (g : SpeakerGate β ε) (key : Nat) : BargeDecision :=
  if ¬g.enrolled then .proceed
  else
    match g.book.outcomeFor key with
    | some .other => if g.recheckOpen key then .defer else .suppress
    | some .unknown =>
      if g.cfg.suppressShortBargeIn && g.book.storedUnknownReason key = some .short then .suppress
      else if g.book.storedUnknownReason key = some .short && g.shortCanRejoin key then .defer
      else .proceed
    | some .caller => .proceed
    | none => .defer

/-- `speaker_gate_holds_barge` for the live utterance: the barge-in it holds is recorded. -/
def holdsBarge (g : SpeakerGate β ε) (key epoch : Nat) (rejoinWindowOpen : Bool) :
    SpeakerGate β ε × Bool :=
  if ¬g.runtime.holdsBargeFor key then (g, false)
  else
    match g.bargeDecision key with
    | .proceed => (g, false)
    | .suppress => (g, true)
    | .defer =>
      if g.book.outcomeFor key = some .unknown && !rejoinWindowOpen then (g, false)
      else (g.setPendingBarge key epoch, true)

def vetoesBarge (g : SpeakerGate β ε) (v : Verdict) : Bool :=
  if v.recheck then v.outcome ≠ .caller
  else v.outcome = .other ||
    g.cfg.suppressShortBargeIn && v.outcome = .unknown && v.reason = some .short

/-- `apply_speaker_verdict`, for the verdict of the given attempt. -/
def applySpeakerVerdict (g : SpeakerGate β ε) (attempt : Nat) (v : Verdict)
    (rejoinWindowOpen : Bool) : SpeakerGate β ε × List GateEvent :=
  match g.feed.pendingBarge.get v.key with
  | none => (g, [])
  | some epoch =>
    if v.key ∈ g.book.closed then (g, [])
    else if v.outcome = .unknown && v.reason = some .short && g.shortCanRejoin v.key &&
        rejoinWindowOpen then (g, [])
    else
      let taken := g.takePendingBarge v.key
      if ¬g.vetoesBarge v then (taken, [.released v.key attempt epoch])
      else if (v.outcome = .other || v.recheck) && taken.recheckOpen v.key then
        (taken.setPendingBarge v.key epoch, [])
      else (taken, [])

/-! ## The verifier -/

def score (g : SpeakerGate β ε) (speechBytes : Nat) (embedded : Except EmbedFail (Option ε)) :
    Outcome × Bool × Option UnknownReason :=
  match g.reference with
  | none => (.unknown, false, some .notEnrolled)
  | some reference =>
    if speechBytes < g.minCheckBytes then (.unknown, false, some .short)
    else
      match embedded with
      | .ok (some v) =>
        match g.cfg.isCaller reference v with
        | some true => (.caller, false, none)
        | some false => (.other, false, none)
        | none => (.unknown, false, some .noEmbedding)
      | .ok none => (.unknown, false, some .noEmbedding)
      | .error .timeout => (.unknown, true, some .timeout)
      | .error .error => (.unknown, false, some .error)

def verdictOf (g : SpeakerGate β ε) (c : Check β) (embedded : Except EmbedFail (Option ε)) : Verdict :=
  let scored := g.score c.speechBytes embedded
  ⟨c.key, scored.1, scored.2.1, scored.2.2, c.recheck, c.window⟩

def receive (g : SpeakerGate β ε) (msg : GateMsg β) : SpeakerGate β ε :=
  match msg with
  | .reset => { g with reference := none, enrollPcm := [], enrolled := false }
  | .enroll pcm =>
    if g.reference.isSome then g
    else if (g.enrollPcm ++ pcm).length < g.enrollBytes then
      { g with enrollPcm := g.enrollPcm ++ pcm }
    else { g with enrollPcm := g.enrollPcm ++ pcm, verifier := .enrolling }
  | .check c => { g with verifier := .received c }

/-- The end of an enrollment; after a timeout it goes on with what is left, bounded. -/
def enrolledWith (g : SpeakerGate β ε) (embedded : Except EmbedFail (Option ε)) : SpeakerGate β ε :=
  match embedded with
  | .ok (some v) =>
    { g with reference := some v, enrollPcm := [], enrolled := true, verifier := .receiving }
  | .error .timeout =>
    { g with
      enrollPcm := g.enrollPcm.drop (g.enrollPcm.length - g.enrollBytes * 2)
      verifier := .receiving }
  | .ok none | .error .error => { g with enrollPcm := [], verifier := .receiving }

def storedEvents (attempt : Nat) (v : Verdict) : List GateEvent :=
  if v.recheck && v.outcome ≠ .caller then [] else [.stored v.key attempt v.recheck v.outcome]

def storeCheck (g : SpeakerGate β ε) (c : Check β) (embedded : Except EmbedFail (Option ε)) :
    SpeakerGate β ε × List GateEvent :=
  let v := g.verdictOf c embedded
  ({ g with
    book := (g.book.storeVerdict v).noteScored c.key c.window
    verifier := .stored c.attempt v }, storedEvents c.attempt v)

def step (g : SpeakerGate β ε) : GateInput β ε → Option (SpeakerGate β ε × List GateEvent)
  | .begin key frame => some (g.begin key frame)
  | .pushFrame frame => some (g.pushFrame frame, [])
  | .endUtterance => some (g.endUtterance, [])
  | .bargeIn key epoch rejoin => some ((g.holdsBarge key epoch rejoin).1, [])
  | .takePendingBarge key => some (g.takePendingBarge key, [])
  | .closeRecheck key => some (g.closeRecheck key, [])
  | .enrollUtterance key => some (g.enrollUtterance key, [])
  | .reset => some (g.reset, [])
  | .setPolicy bargeIn => some ({ g with runtime := { g.runtime with bargeIn := bargeIn } }, [])
  | .setEnabled =>
    let loading := g.runtime.loading || !g.runtime.loaded
    some ({ g with runtime := { g.runtime with enabled := true, loading := loading } }, [])
  | .loadTimedOut => some ({ g with runtime := { g.runtime with enabled := false } }, [])
  | .lateLoadReturned =>
    if g.runtime.enabled then some (g, [])
    else some ({ g with runtime := { g.runtime with loading := false } }, [])
  | .finishLoad ok =>
    let rt := { g.runtime with loading := false }
    some ({ g with
      runtime := if ok then { rt with loaded := true } else { rt with enabled := false } }, [])
  | .setDisabled => some (g.setDisabled, [])
  | .receive =>
    match g.verifier, g.channel with
    | .receiving, msg :: rest => some (({ g with channel := rest }).receive msg, [])
    | _, _ => none
  | .enroll embedded =>
    match g.verifier with
    | .enrolling => some (g.enrolledWith embedded, [])
    | _ => none
  | .testSuperseded =>
    match g.verifier with
    | .received c =>
      if g.book.isSuperseded c.key c.attempt then some ({ g with verifier := .receiving }, [])
      else some ({ g with verifier := .checking c }, [])
    | _ => none
  | .store embedded =>
    match g.verifier with
    | .checking c => some (g.storeCheck c embedded)
    | _ => none
  | .onVerdict =>
    match g.verifier with
    | .stored attempt v =>
      some ({ g with
        deliveries := g.deliveries ++ [(attempt, v)], verifier := .receiving }, [])
    | _ => none
  | .apply task rejoin =>
    match g.deliveries[task]? with
    | none => none
    | some (attempt, v) =>
      some (({ g with deliveries := g.deliveries.eraseIdx task }).applySpeakerVerdict attempt v
        rejoin)

end SpeakerGate

end NodeWebrtc.Speech
