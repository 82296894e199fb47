import NodeWebrtc.Lib.Stream
import NodeWebrtc.Speech.LeadIn

/-! # Onset audio held back from a closing stream

During the gate hold and a pending close, frames the VAD is still deciding about are held
back, so that the stream that closes does not count them. They leave the hold to the open
stream, to the pre-roll ring, or at a SpeechStart to the stream it opens or goes on with.
A copy of what the open stream was sent meanwhile is kept, to lead in the next stream.

A call takes the agent's lock several times, and agent playback may start in between. The
VAD, the gate hold and the stream are read as they come.
-/

namespace NodeWebrtc.Speech

open Machine

namespace HoldBack

/-- The VAD settings that bear on the hold. They do not change while the agent lives. -/
structure Config where
  enabled : Bool
  gateStt : Bool
  gateSttOpenOnPending : Bool
  sttGateHoldMs : UInt32
  speechPadMs : UInt32
  minSpeechDurationMs : UInt32
deriving DecidableEq

/-- How much mono audio to retain before VAD SpeechStart. -/
def sttPreRollCapacityMs (c : Config) : UInt32 :=
  saturatingAddU32 c.speechPadMs c.minSpeechDurationMs

def holdCapBytes (c : Config) : Nat :=
  monoS16leBytesForDurationMs (saturatingAddU32 c.sttGateHoldMs (sttPreRollCapacityMs c))

def lookbackCapBytes (c : Config) : Nat := monoS16leBytesForDurationMs (sttPreRollCapacityMs c)

/-- One call with an inbound frame: its mono audio, what the VAD said, what the later locks
read, and where agent playback started in between. -/
structure Call where
  monoBytes : List UInt8
  whole : monoBytes.length % 2 = 0
  concealed : Bool
  durationMs : UInt32
  frameActive : Bool
  vadPending : Bool
  vadSpeaking : Bool
  speechStart : Bool
  sttActive : Bool
  /-- Whether the SpeechStart finds no open stream. -/
  newStream : Bool
  streamOpen : Bool
  sttGateHoldMs : UInt32
  utteranceClosing : Bool
  playbackBeforeLeadIn : Bool
  playbackBeforeGate : Bool
  playbackBeforeRoute : Bool

inductive Input where
  | inbound (call : Call)
  | agentStart

/-- What a move of audio was: the frame itself, or held-back or copied audio. -/
inductive Source where
  | frame
  | held
  | lookback
deriving DecidableEq

inductive Move where
  | intoHold (bytes : List UInt8)
  | toStream (source : Source) (bytes : List UInt8)
  | toRing (source : Source) (bytes : List UInt8)
  /-- The lead-in a SpeechStart sends, after `held` went to the ring. -/
  | leadIn (held : List UInt8) (bytes : List UInt8)
  | discarded (bytes : List UInt8)
deriving DecidableEq

structure State where
  buffers : PreRollState
  holdPendingPcm : List UInt8
  holdLookbackPcm : List UInt8
deriving DecidableEq

def start (c : Config) : State where
  buffers :=
    ⟨if c.enabled && c.gateStt then some (SttPreRollBuffer.new (sttPreRollCapacityMs c)) else none,
      ShortBurstRetainer.new⟩
  holdPendingPcm := []
  holdLookbackPcm := []

/-! ## The sections of a call -/

/-- The first outbound frame of agent playback drops all user audio that waits. -/
def playbackStart (s : State) : State × List Move :=
  (⟨⟨s.buffers.sttPreRoll.map SttPreRollBuffer.emptied, ShortBurstRetainer.new⟩, [], []⟩,
    [.discarded s.holdPendingPcm])

def playbackIf (starts : Bool) (s : State) : State × List Move :=
  if starts then playbackStart s else (s, [])

/-- Pieces of 20 ms, the granularity of live frames. -/
def pushSttAudioFrames (source : Source) (bytes : List UInt8) : List Move :=
  (Stream.chunks 640 bytes ++
    (if Stream.remainder 640 bytes = [] then [] else [Stream.remainder 640 bytes])).map
      (Move.toStream source)

/-- Appends to the lookback copy and keeps the last pre-roll capacity of it. -/
def pushHoldLookback (c : Config) (lookback bytes : List UInt8) : List UInt8 :=
  let all := lookback ++ bytes
  if all.length > lookbackCapBytes c then all.drop ((all.length - lookbackCapBytes c) / 2 * 2)
  else all

/-- What the SpeechStart pushes to the ring, as moves. -/
def leadInMoves (ring newStream : Bool) (onset lookback : List UInt8) (out : LeadIn) :
    List Move :=
  (if ring && newStream && !lookback.isEmpty then [Move.toRing .lookback lookback] else []) ++
    (if ring && newStream && !onset.isEmpty then [Move.toRing .held onset] else []) ++
    (if newStream then [Move.leadIn onset (out.preRollAfterStart.getD [])]
      else (out.preRollAfterStart.toList.map (Move.leadIn []))) ++
    out.heldSameStream.elim [] (pushSttAudioFrames .held)

/-- At a SpeechStart the held onset and the copy are taken, and go to the new stream's ring or
on to the stream that is open. -/
def speechStart (c : Config) (s : State) (call : Call) : Option (State × List Move) :=
  if call.speechStart && call.sttActive then
    let onset := s.holdPendingPcm
    let lookback := s.holdLookbackPcm
    let taken := playbackIf call.playbackBeforeLeadIn
      { s with holdPendingPcm := [], holdLookbackPcm := [] }
    if c.gateStt then
      (taken.1.buffers.speechStart call.newStream onset lookback).map fun out =>
        ({ taken.1 with buffers := out.1 },
          taken.2 ++ leadInMoves taken.1.buffers.sttPreRoll.isSome call.newStream onset lookback
            out.2)
    else some taken
  else some (s, [])

/-- The frame is held back. Without a VAD nothing is pending. -/
def holdBack (c : Config) (call : Call) : Bool :=
  c.gateStt && call.sttActive && call.streamOpen && (c.enabled && call.vadPending) &&
    !call.vadSpeaking && !call.speechStart && (decide (call.sttGateHoldMs > 0) ||
      call.utteranceClosing)

/-- The frame is copied for the next stream's lead-in. -/
def lookbackCopy (c : Config) (call : Call) : Bool :=
  c.gateStt && call.sttActive && !holdBack c call && call.streamOpen && !call.vadSpeaking &&
    !call.speechStart && (decide (call.sttGateHoldMs > 0) || call.utteranceClosing)

/-- `hold_back`: the frame joins the hold, and the oldest excess goes to the open stream. -/
def hold (c : Config) (s : State) (bytes : List UInt8) : State × List Move :=
  let pending := s.holdPendingPcm ++ bytes
  if pending.length > holdCapBytes c then
    let excessLen := (pending.length - holdCapBytes c) / 2 * 2
    ({ s with
      holdPendingPcm := pending.drop excessLen
      holdLookbackPcm := pushHoldLookback c s.holdLookbackPcm (pending.take excessLen) },
      .intoHold bytes :: pushSttAudioFrames .held (pending.take excessLen))
  else ({ s with holdPendingPcm := pending }, [.intoHold bytes])

/-- The hold ended without a SpeechStart: what it holds goes to the open stream, else to the
ring. -/
def resolve (c : Config) (s : State) (streamOpen : Bool) : Option (State × List Move) :=
  if s.holdPendingPcm.isEmpty then some (s, [])
  else if streamOpen then
    some ({ s with
      holdPendingPcm := []
      holdLookbackPcm := pushHoldLookback c s.holdLookbackPcm s.holdPendingPcm },
      pushSttAudioFrames .held s.holdPendingPcm)
  else
    (s.buffers.push s.holdPendingPcm false).map fun buffers =>
      ({ s with buffers := buffers, holdPendingPcm := [] },
        if s.buffers.sttPreRoll.isSome then [.toRing .held s.holdPendingPcm] else [])

/-- The copy goes on, or is cleared by a frame that is neither copied nor held. -/
def copyLookback (c : Config) (s : State) (call : Call) : State :=
  if lookbackCopy c call then
    { s with holdLookbackPcm := pushHoldLookback c s.holdLookbackPcm call.monoBytes }
  else if !holdBack c call then { s with holdLookbackPcm := [] }
  else s

def gate (c : Config) (s : State) (call : Call) : Option (State × List Move) :=
  (if holdBack c call then some (hold c s call.monoBytes) else resolve c s call.streamOpen).map
    fun p => (copyLookback c p.1 call, p.2)

def sttAudioOpen (c : Config) (call : Call) : Bool :=
  if !c.enabled then true
  else if c.gateStt then
    call.streamOpen && (call.vadSpeaking || decide (call.sttGateHoldMs > 0) ||
      (c.gateSttOpenOnPending && (c.enabled && call.vadPending)) || call.utteranceClosing)
  else true

def route (c : Config) (s : State) (call : Call) : Option (State × List Move) :=
  if holdBack c call then some (s, [])
  else if !c.gateStt || sttAudioOpen c call then some (s, [.toStream .frame call.monoBytes])
  else if c.gateStt && call.sttActive then
    (s.buffers.push call.monoBytes call.concealed).map fun buffers =>
      ({ s with buffers :=
          { buffers with
            shortBurst := buffers.shortBurst.onFrame call.monoBytes
              (call.frameActive && (c.enabled && call.vadPending) && !call.vadSpeaking)
              call.durationMs } },
        if s.buffers.sttPreRoll.isSome then [.toRing .frame call.monoBytes] else [])
  else some (s, [])

/-- `process_inbound_pcm_with_meta` with STT enabled and no VAD error, as far as the buffers
go. -/
def processInbound (c : Config) (s : State) (call : Call) : Option (State × List Move) :=
  (speechStart c s call).bind fun p₁ =>
    let p₂ := playbackIf call.playbackBeforeGate p₁.1
    (gate c p₂.1 call).bind fun p₃ =>
      let p₄ := playbackIf call.playbackBeforeRoute p₃.1
      (route c p₄.1 call).map fun p₅ => (p₅.1, p₁.2 ++ p₂.2 ++ p₃.2 ++ p₄.2 ++ p₅.2)

def step (c : Config) : Step State Input Move := fun s i =>
  match i with
  | .inbound call => processInbound c s call
  | .agentStart => some (playbackStart s)

/-! ## What the buffers are given -/

def ringCapBytes (c : Config) : Nat := monoS16leBytesForDurationMs (max (sttPreRollCapacityMs c) 1)

/-- There is a ring exactly with a VAD and a gate, and it holds what is kept of its history. -/
def RingReady (c : Config) (b : PreRollState) : Prop :=
  if c.enabled && c.gateStt then
    ∃ ring l, b.sttPreRoll = some ring ∧ ring.HoldsKept (ringCapBytes c) l
  else b.sttPreRoll = none

variable {l : List (UInt8 × Bool)}

theorem holdsKept_emptied {ring : SttPreRollBuffer} {cap : Nat} (h : ring.HoldsKept cap l) :
    ring.emptied.HoldsKept cap [] :=
  ⟨⟨[], ⟨rfl, rfl, rfl, rfl, by simp, by simp⟩, rfl⟩, h.maxBytes, h.maxConcealed⟩

theorem RingReady.start (c : Config) : RingReady c (HoldBack.start c).buffers := by
  unfold RingReady HoldBack.start
  by_cases hgated : (c.enabled && c.gateStt) = true
  · rw [if_pos hgated, if_pos hgated]
    exact ⟨_, _, rfl, SttPreRollBuffer.holdsKept_new _⟩
  · rw [if_neg hgated, if_neg hgated]

variable {c : Config} {b : PreRollState}

theorem RingReady.playback (h : RingReady c b) :
    RingReady c ⟨b.sttPreRoll.map SttPreRollBuffer.emptied, ShortBurstRetainer.new⟩ := by
  unfold RingReady at h ⊢
  split at h
  · next hgated =>
    obtain ⟨ring, l, hring, hkept⟩ := h
    rw [if_pos hgated, hring]
    exact ⟨_, _, rfl, holdsKept_emptied hkept⟩
  · next hgated =>
    rw [if_neg hgated, h]
    rfl

variable {bytes : List UInt8}

theorem RingReady.push (h : RingReady c b) (heven : bytes.length % 2 = 0) (concealed : Bool) :
    ∃ b', b.push bytes concealed = some b' ∧ RingReady c b' ∧
      b'.sttPreRoll.isSome = b.sttPreRoll.isSome ∧
      ∀ ring l, b.sttPreRoll = some ring → ring.HoldsKept (ringCapBytes c) l →
        ∃ ring', b'.sttPreRoll = some ring' ∧
          ring'.HoldsKept (ringCapBytes c) (l ++ bytes.map fun byte => (byte, concealed)) := by
  have hcap : ringCapBytes c % 2 = 0 := SttPreRollBuffer.capacity_even _
  unfold RingReady at h
  split at h
  · next hgated =>
    obtain ⟨ring, l, hring, hkept⟩ := h
    obtain ⟨ring', hpush, hkept'⟩ := hkept.pushFrame hcap heven concealed
    refine ⟨{ b with sttPreRoll := some ring' }, ?_, ?_, ?_, ?_⟩
    · rw [PreRollState.push, hring]
      simp only [hpush, Option.map_some]
    · unfold RingReady
      rw [if_pos hgated]
      exact ⟨ring', _, rfl, hkept'⟩
    · rw [hring]
      rfl
    · intro other m hother hm
      rw [hring] at hother
      cases hother
      obtain ⟨ring'', hpush', hm'⟩ := hm.pushFrame hcap heven concealed
      obtain rfl := Option.some.inj (hpush.symm.trans hpush')
      exact ⟨ring', rfl, hm'⟩
  · next hgated =>
    refine ⟨b, ?_, ?_, rfl, fun ring l hring => ?_⟩
    · rw [PreRollState.push, h]
    · unfold RingReady
      rw [if_neg hgated]
      exact h
    · rw [h] at hring
      cases hring

theorem RingReady.sttPreRoll_eq {b' : PreRollState} (h : RingReady c b)
    (hsame : b'.sttPreRoll = b.sttPreRoll) : RingReady c b' := by
  unfold RingReady at h ⊢
  rw [hsame]
  exact h

theorem RingReady.ring (h : RingReady c b) {ring : SttPreRollBuffer}
    (hring : b.sttPreRoll = some ring) :
    (c.enabled && c.gateStt) = true ∧ ∃ l, ring.HoldsKept (ringCapBytes c) l := by
  unfold RingReady at h
  split at h
  · next hgated =>
    obtain ⟨ring', l, hring', hkept⟩ := h
    obtain rfl := Option.some.inj (hring'.symm.trans hring)
    exact ⟨hgated, l, hkept⟩
  · rw [h] at hring
    cases hring

theorem RingReady.of_ring {ring : SttPreRollBuffer} (hgated : (c.enabled && c.gateStt) = true)
    (hring : b.sttPreRoll = some ring) (hkept : ring.HoldsKept (ringCapBytes c) l) :
    RingReady c b := by
  unfold RingReady
  rw [if_pos hgated]
  exact ⟨ring, l, hring, hkept⟩

variable {onset lookback : List UInt8}

theorem RingReady.takeHeld (h : RingReady c b) (newStream : Bool) (honset : onset.length % 2 = 0)
    (hlookback : lookback.length % 2 = 0) :
    ∃ b', b.takeHeld newStream onset lookback =
        some (b', if newStream && b.sttPreRoll.isSome then [] else onset) ∧
      RingReady c b' ∧ b'.sttPreRoll.isSome = b.sttPreRoll.isSome ∧
      (newStream = true → ∀ ring, b'.sttPreRoll = some ring →
        ∃ l, ring.HoldsKept (ringCapBytes c) (l ++ onset.map fun byte => (byte, false))) := by
  cases newStream with
  | false =>
    refine ⟨b, ?_, h, rfl, fun hnew => by cases hnew⟩
    simp [PreRollState.takeHeld]
  | true =>
    obtain ⟨b₁, hpush₁, hready₁, hsome₁⟩ : ∃ b₁,
        (if (true && !lookback.isEmpty) = true then b.push lookback false else some b) =
          some b₁ ∧ RingReady c b₁ ∧ b₁.sttPreRoll.isSome = b.sttPreRoll.isSome := by
      split
      · obtain ⟨b₁, hpush₁, hready₁, hsome₁, -⟩ := h.push hlookback false
        exact ⟨b₁, hpush₁, hready₁, hsome₁⟩
      · exact ⟨b, rfl, h, rfl⟩
    rw [PreRollState.takeHeld, hpush₁]
    by_cases hempty : onset = []
    · subst hempty
      refine ⟨b₁, ?_, hready₁, hsome₁, fun _ ring hring => ?_⟩
      · simp
      · obtain ⟨-, l, hkept⟩ := hready₁.ring hring
        exact ⟨l, by simpa using hkept⟩
    · cases hsome : b.sttPreRoll.isSome with
      | false =>
        refine ⟨b₁, ?_, hready₁, hsome₁.trans hsome, fun _ ring hring => ?_⟩
        · simp [hsome₁, hsome]
        · rw [hsome, hring] at hsome₁
          cases hsome₁
      | true =>
        obtain ⟨b₂, hpush₂, hready₂, hsome₂, hkept₂⟩ := hready₁.push honset false
        refine ⟨b₂, ?_, hready₂, (hsome₂.trans hsome₁).trans hsome, fun _ ring hring => ?_⟩
        · simp [hsome₁, hsome, hempty, hpush₂]
        · rw [hsome] at hsome₁
          obtain ⟨ring₁, hring₁⟩ := Option.isSome_iff_exists.mp hsome₁
          obtain ⟨-, l, hkept⟩ := hready₁.ring hring₁
          obtain ⟨ring', hring', hkept'⟩ := hkept₂ ring₁ l hring₁ hkept
          obtain rfl := Option.some.inj (hring.symm.trans hring')
          exact ⟨l, hkept'⟩

theorem suffix_joined (burstHead : Option (List UInt8 × Bool)) (buffered : List UInt8) :
    buffered <:+ PreRollState.joined burstHead buffered := by
  unfold PreRollState.joined
  split
  · exact List.suffix_refl _
  · exact List.suffix_append _ _

theorem suffix_drain (ring : SttPreRollBuffer) : ring.data <:+ ring.drain.1 := by
  unfold SttPreRollBuffer.drain
  split
  · next hempty => exact List.suffix_nil.mpr (List.isEmpty_iff.mp hempty)
  · exact List.suffix_refl _

theorem suffix_drainPadded (ring : SttPreRollBuffer) :
    ring.data <:+ ring.drainPaddedToCapacity.1 := by
  unfold SttPreRollBuffer.drainPaddedToCapacity
  split
  · next hempty => exact List.suffix_nil.mpr (List.isEmpty_iff.mp hempty)
  · split
    · exact suffix_drain ring
    · exact List.suffix_append _ _

theorem drained_kept {ring : SttPreRollBuffer} {cap : Nat} (h : ring.HoldsKept cap l) :
    (∃ m, ring.drain.2.HoldsKept cap m) ∧ ∃ m, ring.drainPaddedToCapacity.2.HoldsKept cap m := by
  have hdrain : ∃ m, ring.drain.2.HoldsKept cap m := by
    unfold SttPreRollBuffer.drain
    split
    · exact ⟨l, h⟩
    · exact ⟨[], holdsKept_emptied h⟩
  refine ⟨hdrain, ?_⟩
  unfold SttPreRollBuffer.drainPaddedToCapacity
  split
  · exact ⟨l, h⟩
  · split
    · exact hdrain
    · exact ⟨[], holdsKept_emptied h⟩

theorem RingReady.drainLeadIn (h : RingReady c b) (newStream : Bool) :
    RingReady c (b.drainLeadIn newStream).1 ∧
      ∀ ring, b.sttPreRoll = some ring →
        ring.data <:+ ((b.drainLeadIn newStream).2.1).getD [] := by
  have hgetD : ∀ bytes : List UInt8,
      (if bytes.isEmpty then none else some bytes).getD [] = bytes := by
    intro bytes
    cases bytes <;> rfl
  cases hring : b.sttPreRoll with
  | none =>
    refine ⟨h.sttPreRoll_eq ?_, fun ring hsome => by cases hsome⟩
    rw [PreRollState.drainLeadIn, hring]
  | some ring =>
    obtain ⟨hgated, l, hkept⟩ := h.ring hring
    have hdrained : ∀ padded : Bool,
        (∃ m, (if padded then ring.drainPaddedToCapacity else ring.drain).2.HoldsKept
          (ringCapBytes c) m) ∧
        ring.data <:+ (if padded then ring.drainPaddedToCapacity else ring.drain).1 := by
      intro padded
      cases padded with
      | false => exact ⟨(drained_kept hkept).1, suffix_drain ring⟩
      | true => exact ⟨(drained_kept hkept).2, suffix_drainPadded ring⟩
    unfold PreRollState.drainLeadIn
    simp only [hring, hgetD, Option.some.injEq, forall_eq']
    constructor
    · obtain ⟨m, hm⟩ := (hdrained _).1
      exact RingReady.of_ring hgated rfl hm
    · exact List.IsSuffix.trans (hdrained _).2 (suffix_joined _ _)

/-- A SpeechStart: the held onset goes to the ring of the new stream, and the lead-in ends
with as much of it as the ring takes; else it goes on to the stream. -/
theorem RingReady.speechStart (h : RingReady c b) (newStream : Bool) (honset : onset.length % 2 = 0)
    (hlookback : lookback.length % 2 = 0) :
    ∃ b' out, b.speechStart newStream onset lookback = some (b', out) ∧ RingReady c b' ∧
      out.heldSameStream =
        (if newStream && b.sttPreRoll.isSome || onset.isEmpty then none else some onset) ∧
      (newStream = true → b.sttPreRoll.isSome = true →
        onset.rtake (ringCapBytes c) <:+ out.preRollAfterStart.getD []) := by
  obtain ⟨b₁, htake, hready, hsome, hkept⟩ := h.takeHeld newStream honset hlookback
  obtain ⟨hready', hsuffix⟩ := hready.drainLeadIn newStream
  refine ⟨_, _, by rw [PreRollState.speechStart, htake, Option.map_some], hready', ?_, ?_⟩
  · cases newStream && b.sttPreRoll.isSome <;> cases onset <;> rfl
  · intro hnew hring
    rw [hring] at hsome
    obtain ⟨ring, hring'⟩ := Option.isSome_iff_exists.mp hsome
    obtain ⟨l, hholds⟩ := hkept hnew ring hring'
    refine List.IsSuffix.trans ?_ (hsuffix ring hring')
    have hunflagged : ∀ x ∈ onset.map fun byte => (byte, false), x.2 = false := by
      intro x hx
      rw [List.mem_map] at hx
      obtain ⟨byte, -, rfl⟩ := hx
      rfl
    rw [hholds.data, Budget.kept_append, Budget.kept_of_unflagged hunflagged, List.map_append]
    unfold List.rtake
    rw [List.map_drop, List.length_map, List.map_map]
    change _ <:+ _ ++ List.drop _ (List.map id onset)
    rw [List.map_id]
    exact List.suffix_append _ _

/-! ## The account of the held audio -/

def Move.inHold : Move → List UInt8
  | .intoHold bytes => bytes
  | _ => []

/-- Audio that left the hold, and where to: the open stream, the ring, or nowhere. -/
def Move.outOfHold : Move → List UInt8
  | .toStream .held bytes => bytes
  | .toRing .held bytes => bytes
  | .discarded bytes => bytes
  | _ => []

def Move.thrown : Move → List UInt8
  | .discarded bytes => bytes
  | _ => []

def heldIn (moves : List Move) : List UInt8 := moves.flatMap Move.inHold

def heldOut (moves : List Move) : List UInt8 := moves.flatMap Move.outOfHold

def thrownAway (moves : List Move) : List UInt8 := moves.flatMap Move.thrown

@[simp] theorem heldIn_append (l m : List Move) : heldIn (l ++ m) = heldIn l ++ heldIn m :=
  List.flatMap_append

@[simp] theorem heldOut_append (l m : List Move) : heldOut (l ++ m) = heldOut l ++ heldOut m :=
  List.flatMap_append

@[simp] theorem thrownAway_append (l m : List Move) :
    thrownAway (l ++ m) = thrownAway l ++ thrownAway m := List.flatMap_append

/-- What a section moves: nothing enters or leaves the hold unseen, whatever leaves is the
oldest of it, and a lead-in ends with as much of the onset as the ring takes. -/
structure Moved (c : Config) (s : State) (moves : List Move) (s' : State) : Prop where
  ledger : s.holdPendingPcm ++ heldIn moves = heldOut moves ++ s'.holdPendingPcm
  leadIn : ∀ onset bytes, Move.leadIn onset bytes ∈ moves → onset.rtake (ringCapBytes c) <:+ bytes

theorem Moved.refl (c : Config) (s : State) : Moved c s [] s :=
  ⟨by simp [heldIn, heldOut], fun _ _ h => by cases h⟩

variable {s : State}

theorem Moved.trans {t u : State} {l m : List Move} (hs : Moved c s l t) (ht : Moved c t m u) :
    Moved c s (l ++ m) u where
  ledger := by
    rw [heldIn_append, heldOut_append, ← List.append_assoc, hs.ledger, List.append_assoc,
      ht.ledger, List.append_assoc]
  leadIn := by
    intro onset bytes h
    rw [List.mem_append] at h
    exact h.elim (hs.leadIn onset bytes) (ht.leadIn onset bytes)

theorem pushSttAudioFrames_flatten {f : Move → List UInt8} {source : Source}
    (hf : ∀ bytes, f (.toStream source bytes) = bytes) (bytes : List UInt8) :
    (pushSttAudioFrames source bytes).flatMap f = bytes := by
  have hsame : ∀ pieces : List (List UInt8),
      (pieces.map (Move.toStream source)).flatMap f = pieces.flatten := by
    intro pieces
    induction pieces with
    | nil => rfl
    | cons piece pieces ih => rw [List.map_cons, List.flatMap_cons, hf, ih, List.flatten_cons]
  have hchunks := Stream.flatten_chunks_append 640 bytes
  rw [pushSttAudioFrames, hsame]
  split
  · next hnone =>
    rw [hnone] at hchunks
    simpa using hchunks
  · simpa using hchunks

theorem pushSttAudioFrames_silent {f : Move → List UInt8} {source : Source}
    (hf : ∀ bytes, f (.toStream source bytes) = []) (bytes : List UInt8) :
    (pushSttAudioFrames source bytes).flatMap f = [] := by
  rw [List.flatMap_eq_nil_iff]
  intro move hmove
  simp only [pushSttAudioFrames, List.mem_map] at hmove
  obtain ⟨piece, -, rfl⟩ := hmove
  exact hf piece

theorem leadIn_not_mem_frames {source : Source} {out : List UInt8} :
    Move.leadIn onset out ∉ pushSttAudioFrames source bytes := by
  intro h
  simp only [pushSttAudioFrames, List.mem_map] at h
  obtain ⟨piece, -, hpiece⟩ := h
  cases hpiece

/-- What holds between two calls: the copy and the hold together are the newest of the
inbound audio. -/
structure Contiguous (c : Config) (mono : List UInt8) (s : State) : Prop where
  suffix : (s.holdLookbackPcm ++ s.holdPendingPcm) <:+ mono
  pending_whole : s.holdPendingPcm.length % 2 = 0
  lookback_whole : s.holdLookbackPcm.length % 2 = 0
  capped : s.holdPendingPcm.length ≤ holdCapBytes c
  gated : s.holdPendingPcm ≠ [] → (c.enabled && c.gateStt) = true
  ready : RingReady c s.buffers

theorem contiguous_start (c : Config) : Contiguous c [] (start c) :=
  ⟨List.suffix_refl _, rfl, rfl, Nat.zero_le _, fun h => absurd rfl h, RingReady.start c⟩

variable {mono : List UInt8}

theorem Contiguous.playback (h : Contiguous c mono s) (starts : Bool) :
    Contiguous c mono (playbackIf starts s).1 ∧
      Moved c s (playbackIf starts s).2 (playbackIf starts s).1 ∧
      (starts = false → thrownAway (playbackIf starts s).2 = []) := by
  cases starts with
  | false => exact ⟨h, Moved.refl c s, fun _ => rfl⟩
  | true =>
    refine ⟨⟨List.nil_suffix, rfl, rfl, Nat.zero_le _, fun hne => absurd rfl hne,
        h.ready.playback⟩,
      ⟨?_, ?_⟩, fun hfalse => by cases hfalse⟩
    · simp [playbackIf, playbackStart, heldIn, heldOut, Move.inHold, Move.outOfHold]
    · intro onset bytes hmem
      simp [playbackIf, playbackStart] at hmem

theorem leadInMoves_account {ring newStream : Bool} {onset lookback : List UInt8}
    {out : LeadIn} (hsame : out.heldSameStream =
      if newStream && ring || onset.isEmpty then none else some onset) :
    heldOut (leadInMoves ring newStream onset lookback out) = onset ∧
      heldIn (leadInMoves ring newStream onset lookback out) = [] ∧
      thrownAway (leadInMoves ring newStream onset lookback out) = [] := by
  have hlookback : ∀ moved : Bool, ∀ moves : List Move, moves =
      (if moved then [Move.toRing .lookback lookback] else []) →
        heldOut moves = [] ∧ heldIn moves = [] ∧ thrownAway moves = [] := by
    rintro moved moves rfl
    cases moved <;> exact ⟨rfl, rfl, rfl⟩
  have hleadIn : ∀ moves : List Move, moves =
      (if newStream then [Move.leadIn onset (out.preRollAfterStart.getD [])]
        else out.preRollAfterStart.toList.map (Move.leadIn [])) →
      heldOut moves = [] ∧ heldIn moves = [] ∧ thrownAway moves = [] := by
    rintro moves rfl
    cases newStream with
    | true => exact ⟨rfl, rfl, rfl⟩
    | false => cases out.preRollAfterStart <;> exact ⟨rfl, rfl, rfl⟩
  obtain ⟨hl₁, hl₂, hl₃⟩ := hlookback (ring && newStream && !lookback.isEmpty) _ rfl
  obtain ⟨hs₁, hs₂, hs₃⟩ := hleadIn _ rfl
  have hheld : ∀ moves : List Move, moves =
      (if ring && newStream && !onset.isEmpty then [Move.toRing .held onset] else []) ++
        out.heldSameStream.elim [] (pushSttAudioFrames .held) →
      heldOut moves = onset ∧ heldIn moves = [] ∧ thrownAway moves = [] := by
    rintro moves rfl
    rw [hsame]
    cases honset : onset with
    | nil => cases ring <;> cases newStream <;> exact ⟨rfl, rfl, rfl⟩
    | cons byte bytes =>
      by_cases hring : (ring && newStream) = true
      · rw [Bool.and_eq_true] at hring
        rw [hring.1, hring.2]
        simp [heldOut, heldIn, thrownAway, Move.outOfHold, Move.inHold, Move.thrown]
      · have hnew : (newStream && ring) = false := by
          rw [Bool.and_comm]
          simpa using hring
        rw [hnew, Bool.eq_false_iff.mpr hring]
        refine ⟨?_, ?_, ?_⟩
        · exact pushSttAudioFrames_flatten (fun _ => rfl) _
        · exact pushSttAudioFrames_silent (fun _ => rfl) _
        · exact pushSttAudioFrames_silent (fun _ => rfl) _
  obtain ⟨hh₁, hh₂, hh₃⟩ := hheld _ rfl
  rw [heldOut_append] at hh₁
  rw [heldIn_append] at hh₂
  rw [thrownAway_append] at hh₃
  unfold leadInMoves
  simp only [heldOut_append, heldIn_append, thrownAway_append, hl₁, hl₂, hl₃, hs₁, hs₂, hs₃, List.append_nil]
  exact ⟨hh₁, hh₂, hh₃⟩

theorem mem_leadInMoves {ring newStream : Bool} {onset' : List UInt8} {out : LeadIn}
    (h : Move.leadIn onset' bytes ∈ leadInMoves ring newStream onset lookback out) :
    onset' = [] ∨ newStream = true ∧ onset' = onset ∧ bytes = out.preRollAfterStart.getD [] := by
  simp only [leadInMoves, List.mem_append] at h
  rcases h with ((h | h) | h) | h
  · split at h <;> simp at h
  · split at h <;> simp at h
  · cases newStream with
    | true => exact .inr ⟨rfl, by simpa using h⟩
    | false =>
      simp only [Bool.false_eq_true, if_false, List.mem_map] at h
      obtain ⟨lead, -, hlead⟩ := h
      cases hlead
      exact .inl rfl
  · cases hsame : out.heldSameStream with rw [hsame] at h
    | none =>
      cases h
    | some held =>
      exact absurd h leadIn_not_mem_frames

theorem rtake_nil (n : Nat) : ([] : List UInt8).rtake n = [] := by simp [List.rtake]

/-! ## The sections -/

theorem playbackIf_of_empty (hempty : s.holdPendingPcm = []) (starts : Bool) :
    (playbackIf starts s).1.holdPendingPcm = [] ∧ heldIn (playbackIf starts s).2 = [] ∧
      heldOut (playbackIf starts s).2 = [] ∧ thrownAway (playbackIf starts s).2 = [] := by
  cases starts with
  | false => exact ⟨hempty, rfl, rfl, rfl⟩
  | true =>
    refine ⟨rfl, rfl, ?_, ?_⟩
    · simp [playbackIf, playbackStart, heldOut, Move.outOfHold, hempty]
    · simp [playbackIf, playbackStart, thrownAway, Move.thrown, hempty]

theorem Contiguous.speechStart (h : Contiguous c mono s) (call : Call) :
    ∃ s' moves, speechStart c s call = some (s', moves) ∧ Contiguous c mono s' ∧
      Moved c s moves s' ∧ thrownAway moves = [] := by
  unfold HoldBack.speechStart
  by_cases htaken : (call.speechStart && call.sttActive) = true
  · rw [if_pos htaken]
    have hcleared : Contiguous c mono { s with holdPendingPcm := [], holdLookbackPcm := [] } :=
      ⟨List.nil_suffix, rfl, rfl, Nat.zero_le _, fun hne => absurd rfl hne, h.ready⟩
    obtain ⟨htaken', hmoved, -⟩ := hcleared.playback call.playbackBeforeLeadIn
    obtain ⟨hpending, hin, hout, hthrown⟩ := @playbackIf_of_empty
      { s with holdPendingPcm := [], holdLookbackPcm := [] } rfl call.playbackBeforeLeadIn
    by_cases hgate : c.gateStt = true
    · rw [if_pos hgate]
      obtain ⟨b, out, hstart, hready, hsame, hsuffix⟩ :=
        htaken'.ready.speechStart call.newStream h.pending_whole h.lookback_whole
      obtain ⟨hout', hin', hthrown'⟩ := @leadInMoves_account _ _ _ s.holdLookbackPcm _ hsame
      refine ⟨_, _, by rw [hstart, Option.map_some], ?_, ⟨?_, ?_⟩, ?_⟩
      · exact { htaken' with ready := hready }
      · rw [heldIn_append, heldOut_append, hin, hin', hout, hout', hpending]
        simp
      · intro onset bytes hmem
        rw [List.mem_append] at hmem
        rcases hmem with hmem | hmem
        · exact hmoved.leadIn onset bytes hmem
        · rcases mem_leadInMoves hmem with rfl | ⟨hnew, rfl, rfl⟩
          · rw [rtake_nil]
            exact List.nil_suffix
          · cases hring : (playbackIf call.playbackBeforeLeadIn
                { s with holdPendingPcm := [], holdLookbackPcm := [] }).1.buffers.sttPreRoll with
            | some ring => exact hsuffix hnew (by rw [hring]; rfl)
            | none =>
              have hnone : s.holdPendingPcm = [] := by
                by_contra hne
                have hready' := htaken'.ready
                unfold RingReady at hready'
                rw [if_pos (h.gated hne)] at hready'
                obtain ⟨ring, l, hsome, -⟩ := hready'
                rw [hsome] at hring
                cases hring
              rw [hnone, rtake_nil]
              exact List.nil_suffix
      · rw [thrownAway_append, hthrown, hthrown']
        rfl
    · rw [if_neg hgate]
      refine ⟨(playbackIf call.playbackBeforeLeadIn
          { s with holdPendingPcm := [], holdLookbackPcm := [] }).1,
        (playbackIf call.playbackBeforeLeadIn
          { s with holdPendingPcm := [], holdLookbackPcm := [] }).2, rfl, htaken',
        ⟨?_, hmoved.leadIn⟩, hthrown⟩
      have hnone : s.holdPendingPcm = [] := by
        by_contra hne
        have hgated := h.gated hne
        rw [Bool.and_eq_true] at hgated
        exact hgate hgated.2
      rw [hin, hout, hpending, hnone]
  · rw [if_neg htaken]
    exact ⟨s, [], rfl, h, Moved.refl c s, rfl⟩

theorem holdCapBytes_even (c : Config) : holdCapBytes c % 2 = 0 := SttPreRollBuffer.capacity_even _

theorem pushHoldLookback_suffix (c : Config) (lookback bytes : List UInt8) :
    pushHoldLookback c lookback bytes <:+ lookback ++ bytes := by
  unfold pushHoldLookback
  dsimp only
  split
  · exact List.drop_suffix _ _
  · exact List.suffix_refl _

theorem pushHoldLookback_whole (c : Config) (hlookback : lookback.length % 2 = 0)
    (hbytes : bytes.length % 2 = 0) :
    (pushHoldLookback c lookback bytes).length % 2 = 0 := by
  unfold pushHoldLookback
  dsimp only
  split
  · rw [List.length_drop, List.length_append]
    omega
  · rw [List.length_append]
    omega

theorem suffix_append_right {l m : List UInt8} (h : l <:+ m) (n : List UInt8) :
    l ++ n <:+ m ++ n := by
  obtain ⟨t, rfl⟩ := h
  exact ⟨t, by rw [List.append_assoc]⟩

section

variable (h : Contiguous c mono s)
include h

theorem Contiguous.hold (heven : bytes.length % 2 = 0) (hgated : (c.enabled && c.gateStt) = true) :
    Contiguous c (mono ++ bytes) (hold c s bytes).1 ∧
      Moved c s (hold c s bytes).2 (hold c s bytes).1 ∧
      thrownAway (hold c s bytes).2 = [] := by
  have hpending := h.pending_whole
  have hall : s.holdLookbackPcm ++ (s.holdPendingPcm ++ bytes) <:+ mono ++ bytes := by
    rw [← List.append_assoc]
    exact suffix_append_right h.suffix bytes
  unfold HoldBack.hold
  dsimp only
  split
  · refine ⟨⟨?_, ?_, ?_, ?_, fun _ => hgated, h.ready⟩, ⟨?_, ?_⟩, ?_⟩
    · refine List.IsSuffix.trans (suffix_append_right (pushHoldLookback_suffix c _ _) _) ?_
      rw [List.append_assoc, List.take_append_drop]
      exact hall
    · rw [List.length_drop, List.length_append]
      omega
    · apply pushHoldLookback_whole c h.lookback_whole
      rw [List.length_take]
      omega
    · have hcap := holdCapBytes_even c
      rw [List.length_drop, List.length_append]
      omega
    · have hin := @pushSttAudioFrames_silent Move.inHold .held (fun _ => rfl)
        ((s.holdPendingPcm ++ bytes).take
          (((s.holdPendingPcm ++ bytes).length - holdCapBytes c) / 2 * 2))
      have hout := @pushSttAudioFrames_flatten Move.outOfHold .held (fun _ => rfl)
      rw [heldIn, heldOut, List.flatMap_cons, List.flatMap_cons, hin, hout, List.append_nil]
      exact (List.take_append_drop _ _).symm
    · intro onset out hmem
      rw [List.mem_cons] at hmem
      rcases hmem with hmem | hmem
      · cases hmem
      · exact absurd hmem leadIn_not_mem_frames
    · rw [thrownAway]
      exact pushSttAudioFrames_silent (fun _ => rfl) _
  · next hroom =>
    refine ⟨⟨hall, ?_, h.lookback_whole, Nat.le_of_not_gt hroom, fun _ => hgated, h.ready⟩,
      ⟨?_, ?_⟩, rfl⟩
    · rw [List.length_append]
      omega
    · simp [heldIn, heldOut, Move.inHold, Move.outOfHold]
    · intro onset out hmem
      simp at hmem

theorem Contiguous.resolve (streamOpen : Bool) :
    ∃ s' moves, resolve c s streamOpen = some (s', moves) ∧ Moved c s moves s' ∧
      thrownAway moves = [] ∧ s'.holdPendingPcm = [] ∧ s'.holdLookbackPcm.length % 2 = 0 ∧
      (streamOpen = true → s'.holdLookbackPcm <:+ mono) ∧ RingReady c s'.buffers := by
  unfold HoldBack.resolve
  by_cases hempty : s.holdPendingPcm = []
  · have hsuffix := h.suffix
    rw [hempty, List.append_nil] at hsuffix
    rw [if_pos (by rw [hempty]; rfl)]
    exact ⟨s, [], rfl, Moved.refl c s, rfl, hempty, h.lookback_whole, fun _ => hsuffix, h.ready⟩
  · rw [if_neg (by simpa using hempty)]
    cases streamOpen with
    | true =>
      refine ⟨_, _, rfl, ⟨?_, ?_⟩, ?_, rfl, ?_, fun _ => ?_, h.ready⟩
      · have hin := @pushSttAudioFrames_silent Move.inHold .held (fun _ => rfl) s.holdPendingPcm
        have hout := @pushSttAudioFrames_flatten Move.outOfHold .held (fun _ => rfl)
        rw [heldIn, heldOut, hin, hout]
      · intro onset out hmem
        exact absurd hmem leadIn_not_mem_frames
      · exact pushSttAudioFrames_silent (fun _ => rfl) _
      · exact pushHoldLookback_whole c h.lookback_whole h.pending_whole
      · exact (pushHoldLookback_suffix c _ _).trans h.suffix
    | false =>
      obtain ⟨b, hpush, hready, -, -⟩ := h.ready.push h.pending_whole false
      have hring : s.buffers.sttPreRoll.isSome = true := by
        have hgated := h.gated hempty
        have hready := h.ready
        unfold RingReady at hready
        rw [if_pos hgated] at hready
        obtain ⟨ring, l, hsome, -⟩ := hready
        rw [hsome]
        rfl
      rw [hpush, if_pos hring]
      refine ⟨_, _, rfl, ⟨?_, ?_⟩, rfl, rfl, h.lookback_whole,
        fun hopen => absurd hopen (by simp), hready⟩
      · simp [heldIn, heldOut, Move.inHold, Move.outOfHold]
      · intro onset out hmem
        simp at hmem

theorem Contiguous.gate (call : Call) :
    ∃ s' moves, gate c s call = some (s', moves) ∧ Contiguous c (mono ++ call.monoBytes) s' ∧
      Moved c s moves s' ∧ thrownAway moves = [] ∧
      (holdBack c call = false → s'.holdPendingPcm = []) := by
  unfold HoldBack.gate
  by_cases hheld : holdBack c call = true
  · have hgated : (c.enabled && c.gateStt) = true := by
      unfold holdBack at hheld
      simp only [Bool.and_eq_true] at hheld ⊢
      exact ⟨hheld.1.1.1.2.1, hheld.1.1.1.1.1.1⟩
    obtain ⟨hcontiguous, hmoved, hthrown⟩ := h.hold call.whole hgated
    have hcopy : lookbackCopy c call = false := by
      unfold lookbackCopy
      rw [hheld]
      simp
    have hsame : ∀ t, copyLookback c t call = t := by
      intro t
      rw [copyLookback, hcopy, hheld]
      rfl
    rw [if_pos hheld, Option.map_some, hsame]
    exact ⟨_, _, rfl, hcontiguous, hmoved, hthrown, fun hfree => absurd hheld (by simp [hfree])⟩
  · obtain ⟨t, moves, hresolve, hmoved, hthrown, hpending, hwhole, hcopied, hready⟩ :=
      h.resolve call.streamOpen
    rw [if_neg hheld, hresolve]
    by_cases hcopy : lookbackCopy c call = true
    · have hopen : call.streamOpen = true := by
        unfold lookbackCopy at hcopy
        simp only [Bool.and_eq_true] at hcopy
        exact hcopy.1.1.1.2
      have hnew : copyLookback c t call =
          { t with holdLookbackPcm := pushHoldLookback c t.holdLookbackPcm call.monoBytes } := by
        rw [copyLookback, if_pos hcopy]
      refine ⟨_, _, rfl, ?_, ?_, hthrown, fun _ => ?_⟩ <;> rw [hnew]
      · refine ⟨?_, ?_, ?_, ?_, fun hne => absurd hpending hne, hready⟩
        · rw [hpending, List.append_nil]
          exact (pushHoldLookback_suffix c _ _).trans
            (suffix_append_right (hcopied hopen) call.monoBytes)
        · rw [hpending]
          rfl
        · exact pushHoldLookback_whole c hwhole call.whole
        · rw [hpending]
          exact Nat.zero_le _
      · exact ⟨hmoved.ledger, hmoved.leadIn⟩
      · exact hpending
    · have hnew : copyLookback c t call = { t with holdLookbackPcm := [] } := by
        rw [copyLookback, if_neg hcopy, if_pos (by simpa using hheld)]
      refine ⟨_, _, rfl, ?_, ?_, hthrown, fun _ => ?_⟩ <;> rw [hnew]
      · refine ⟨?_, ?_, rfl, ?_, fun hne => absurd hpending hne, hready⟩ <;> dsimp only
        · rw [hpending]
          exact List.nil_suffix
        · rw [hpending]
          rfl
        · rw [hpending]
          exact Nat.zero_le _
      · exact ⟨hmoved.ledger, hmoved.leadIn⟩
      · exact hpending

theorem Contiguous.route (call : Call) :
    ∃ s' moves, route c s call = some (s', moves) ∧ Contiguous c mono s' ∧
      Moved c s moves s' ∧ thrownAway moves = [] ∧ s'.holdPendingPcm = s.holdPendingPcm := by
  unfold HoldBack.route
  split
  · exact ⟨s, [], rfl, h, Moved.refl c s, rfl, rfl⟩
  · split
    · refine ⟨s, _, rfl, h, ⟨?_, ?_⟩, rfl, rfl⟩
      · simp [heldIn, heldOut, Move.inHold, Move.outOfHold]
      · intro onset out hmem
        simp at hmem
    · split
      · obtain ⟨b, hpush, hready, -, -⟩ := h.ready.push call.whole call.concealed
        rw [hpush]
        refine ⟨_, _, rfl, { h with ready := hready.sttPreRoll_eq rfl }, ⟨?_, ?_⟩, ?_, rfl⟩
        · split <;> simp [heldIn, heldOut, Move.inHold, Move.outOfHold]
        · intro onset out hmem
          split at hmem <;> simp at hmem
        · split <;> rfl
      · exact ⟨s, [], rfl, h, Moved.refl c s, rfl, rfl⟩

end

/-! ## A whole run -/

def inboundMono : List Input → List UInt8 :=
  List.flatMap fun
    | .inbound call => call.monoBytes
    | .agentStart => []

def Input.startsPlayback : Input → Bool
  | .inbound call =>
    call.playbackBeforeLeadIn || call.playbackBeforeGate || call.playbackBeforeRoute
  | .agentStart => true

/-- One input: the copy and the hold stay the newest of the inbound audio, and the account of
the hold is kept. -/
theorem Contiguous.step (h : Contiguous c mono s) (i : Input) :
    ∃ s' moves, step c s i = some (s', moves) ∧ Contiguous c (mono ++ inboundMono [i]) s' ∧
      Moved c s moves s' ∧ (i.startsPlayback = false → thrownAway moves = []) ∧
      ∀ call, i = .inbound call → holdBack c call = false → s'.holdPendingPcm = [] := by
  cases i with
  | agentStart =>
    obtain ⟨hcontiguous, hmoved, -⟩ := h.playback true
    have hsame : mono ++ inboundMono [.agentStart] = mono := by simp [inboundMono]
    refine ⟨_, _, rfl, ?_, hmoved, fun hquiet => absurd hquiet (by simp [Input.startsPlayback]),
      fun call hcall => absurd hcall (by simp)⟩
    rw [hsame]
    exact hcontiguous
  | inbound call =>
    obtain ⟨s₁, m₁, hrun₁, hc₁, hm₁, ht₁⟩ := h.speechStart call
    obtain ⟨hc₂, hm₂, ht₂⟩ := hc₁.playback call.playbackBeforeGate
    obtain ⟨s₃, m₃, hrun₃, hc₃, hm₃, ht₃, hfree₃⟩ := hc₂.gate call
    obtain ⟨hc₄, hm₄, ht₄⟩ := hc₃.playback call.playbackBeforeRoute
    obtain ⟨s₅, m₅, hrun₅, hc₅, hm₅, ht₅, hsame₅⟩ := hc₄.route call
    refine ⟨s₅, _, ?_, ?_, ((hm₁.trans hm₂).trans hm₃).trans hm₄ |>.trans hm₅, ?_, ?_⟩
    · simp only [HoldBack.step, processInbound, hrun₁, Option.bind_some, hrun₃, hrun₅,
        Option.map_some]
    · simpa [inboundMono] using hc₅
    · intro hquiet
      simp only [Input.startsPlayback, Bool.or_eq_false_iff] at hquiet
      simp only [thrownAway_append, ht₁, ht₂ hquiet.1.2, ht₃, ht₄ hquiet.2, ht₅, List.append_nil]
    · intro call' hcall hfree
      cases hcall
      have hnone := hfree₃ hfree
      rw [hsame₅]
      exact (playbackIf_of_empty hnone call.playbackBeforeRoute).1

/-- Whatever the VAD, the gate hold and the stream do: after every frame the copy followed by
the hold is the newest inbound audio; what entered the hold leaves it once and in order, to
the stream, to the ring, or at a start of agent playback to nowhere; the hold is bounded, and
a frame that is not held back leaves it empty; and a new stream's lead-in ends with the held
onset, as much of it as the ring takes. -/
theorem hold_back_contiguous (c : Config) (inputs : List Input) :
    ∃ s moves, run (step c) (start c) inputs = some (s, moves) ∧
      (s.holdLookbackPcm ++ s.holdPendingPcm) <:+ inboundMono inputs ∧
      heldIn moves = heldOut moves ++ s.holdPendingPcm ∧
      ((∀ i ∈ inputs, i.startsPlayback = false) → thrownAway moves = []) ∧
      s.holdPendingPcm.length ≤ holdCapBytes c ∧
      (∀ earlier call, inputs = earlier ++ [.inbound call] → holdBack c call = false →
        s.holdPendingPcm = []) ∧
      ∀ onset bytes, Move.leadIn onset bytes ∈ moves → onset.rtake (ringCapBytes c) <:+ bytes := by
  obtain ⟨s, moves, hrun, hcontiguous, hmoved, hquiet, hlast⟩ := run_total
    (I := fun is os s => Contiguous c (inboundMono is) s ∧ Moved c (start c) os s ∧
      ((∀ i ∈ is, i.startsPlayback = false) → thrownAway os = []) ∧
      ∀ earlier call, is = earlier ++ [.inbound call] → holdBack c call = false →
        s.holdPendingPcm = [])
    (by
      intro is os s i h
      obtain ⟨hcontiguous, hmoved, hquiet, -⟩ := h
      obtain ⟨t, out, hstep, hcontiguous', hmoved', hquiet', hfree⟩ := hcontiguous.step i
      refine ⟨t, out, hstep, ?_, hmoved.trans hmoved', ?_, ?_⟩
      · simpa [inboundMono] using hcontiguous'
      · intro hall
        rw [thrownAway_append, hquiet fun j hj => hall j (List.mem_append_left _ hj),
          hquiet' (hall i (List.mem_append_right _ List.mem_cons_self))]
        rfl
      · intro earlier call hlast
        exact hfree call (List.singleton_inj.mp (List.append_inj' hlast rfl).2))
    ⟨contiguous_start c, Moved.refl c _, fun _ => rfl, fun earlier call hnil => by simp at hnil⟩
    inputs
  exact ⟨s, moves, hrun, hcontiguous.suffix, hmoved.ledger, hquiet, hcontiguous.capped, hlast,
    hmoved.leadIn⟩

end HoldBack

end NodeWebrtc.Speech
