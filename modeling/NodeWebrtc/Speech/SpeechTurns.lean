import Mathlib.Data.List.Flatten
import NodeWebrtc.Speech.Pcm

/-! # The session recorder and its speech turns

Each channel is recorded on a media clock of its own. Before the two are mixed, the runs of speech
of both are put one after another by the wall clock: `serialize_speech_turns_by_wall_time`. Mixing
and encoding are not part of the model. Overflow checks are off, as in a release build.
-/

namespace NodeWebrtc.Speech.Recorder

open Mixer (samples)

def SESSION_AUDIO_SAMPLE_RATE : Nat := 48000
def SPEECH_RUN_MERGE_GAP_MS : Nat := 250
def DEFAULT_PEAK_THRESHOLD : Int := 200
def DEFAULT_MAX_DURATION_MS : Nat := 90000

def u32Max : Nat := 2 ^ 32 - 1

def saturatingAdd (a b : Nat) : Nat := min (a + b) u32Max

def i16Abs (sample : Int) : Int := asI16 sample.natAbs

structure PcmChunk where
  offsetMs : Nat
  wallOffsetMs : Nat
  mono : List Int
deriving DecidableEq, Repr

inductive SessionChannel where
  | outbound | inbound
deriving DecidableEq, Repr

/-- True when every sample is below the threshold. -/
def isNearlySilentMono (mono : List Int) (peakThreshold : Int) : Bool :=
  mono.all fun sample => decide (i16Abs sample < peakThreshold)

def chunkDurationMs (sampleCount sampleRate : Nat) : Nat :=
  if sampleRate = 0 then 0 else asU32 (sampleCount * 1000 / sampleRate)

def PcmChunk.durationMs (c : PcmChunk) (sampleRate : Nat) : Nat :=
  chunkDurationMs c.mono.length sampleRate

/-! ## Runs of speech on one channel -/

structure SpeechRun where
  channel : SessionChannel
  wallStartMs : Nat
  wallEndMs : Nat
  chunks : List PcmChunk
  nonempty : chunks ≠ []

namespace SpeechRun

def first (run : SpeechRun) : PcmChunk := run.chunks.head run.nonempty

def last (run : SpeechRun) : PcmChunk := run.chunks.getLast run.nonempty

def single (channel : SessionChannel) (chunk : PcmChunk) (dur : Nat) : SpeechRun where
  channel := channel
  wallStartMs := chunk.wallOffsetMs
  wallEndMs := saturatingAdd chunk.wallOffsetMs dur
  chunks := [chunk]
  nonempty := by simp

def push (run : SpeechRun) (chunk : PcmChunk) (dur : Nat) : SpeechRun where
  channel := run.channel
  wallStartMs := run.wallStartMs
  wallEndMs := saturatingAdd chunk.wallOffsetMs dur
  chunks := run.chunks ++ [chunk]
  nonempty := by simp

end SpeechRun

/-- The variables of the loop of `collect_speech_runs`. -/
structure Collecting where
  runs : List SpeechRun
  lastMediaEndMs : Nat
  lastWallMs : Nat

def collectChunk (channel : SessionChannel) (sampleRate : Nat) (peakThreshold : Int)
    (mergeGapMs : Nat) (s : Collecting) (chunk : PcmChunk) : Collecting :=
  if isNearlySilentMono chunk.mono peakThreshold then s
  else
    let dur := chunk.durationMs sampleRate
    if dur = 0 then s
    else
      let mediaGap := chunk.offsetMs - s.lastMediaEndMs
      let wallGap := chunk.wallOffsetMs - s.lastWallMs
      let runs :=
        match s.runs.getLast? with
        | some run =>
          if mediaGap ≤ mergeGapMs ∧ wallGap ≤ mergeGapMs then
            s.runs.dropLast ++ [run.push chunk dur]
          else s.runs ++ [.single channel chunk dur]
        | none => s.runs ++ [.single channel chunk dur]
      { runs
        lastMediaEndMs := saturatingAdd chunk.offsetMs dur
        lastWallMs := chunk.wallOffsetMs }

/-- Groups the non-silent chunks of one channel into runs. -/
def collectSpeechRuns (chunks : List PcmChunk) (channel : SessionChannel) (sampleRate : Nat)
    (peakThreshold : Int) (mergeGapMs : Nat) : List SpeechRun :=
  (chunks.foldl (collectChunk channel sampleRate peakThreshold mergeGapMs) ⟨[], 0, 0⟩).runs

def speechRunMediaDurationMs (run : SpeechRun) (sampleRate : Nat) : Nat :=
  saturatingAdd run.last.offsetMs (run.last.durationMs sampleRate) - run.first.offsetMs

/-! ## Placing the runs of both channels -/

structure SerializeSpeechTurnsParams where
  outbound : List PcmChunk
  inbound : List PcmChunk
  sampleRate : Nat
  peakThreshold : Int

def SerializeSpeechTurnsParams.on (p : SerializeSpeechTurnsParams) :
    SessionChannel → List PcmChunk
  | .outbound => p.outbound
  | .inbound => p.inbound

structure SerializeSpeechTurnsResult where
  outbound : List PcmChunk
  inbound : List PcmChunk
deriving DecidableEq, Repr

def SerializeSpeechTurnsResult.on (r : SerializeSpeechTurnsResult) :
    SessionChannel → List PcmChunk
  | .outbound => r.outbound
  | .inbound => r.inbound

def compareChannels : SessionChannel → SessionChannel → Ordering
  | .inbound, .outbound => .lt
  | .outbound, .inbound => .gt
  | _, _ => .eq

def compareRuns (a b : SpeechRun) : Ordering :=
  (compare a.wallStartMs b.wallStartMs).then (compareChannels a.channel b.channel)

/-- The variables of the loop that places the runs. -/
structure Placing where
  outbound : List PcmChunk
  inbound : List PcmChunk
  mediaPos : Nat
  prevWallEndMs : Option Nat

def placeChunk (mediaPos base : Nat) (chunk : PcmChunk) : PcmChunk :=
  { chunk with offsetMs := saturatingAdd mediaPos (chunk.offsetMs - base) }

def placedEnd (sampleRate : Nat) (placed : PcmChunk) : Nat :=
  saturatingAdd placed.offsetMs (placed.durationMs sampleRate)

/-- Where a run goes: behind the last one, and behind the silence between the two. -/
def runStart (s : Placing) (run : SpeechRun) : Nat :=
  match s.prevWallEndMs with
  | some prev => saturatingAdd s.mediaPos (run.wallStartMs - prev)
  | none => s.mediaPos

def placeRun (sampleRate : Nat) (s : Placing) (run : SpeechRun) : Placing :=
  let mediaDur := speechRunMediaDurationMs run sampleRate
  let runWallEndMs := max run.wallEndMs (saturatingAdd run.wallStartMs mediaDur)
  let mediaPos := runStart s run
  let placed := run.chunks.map (placeChunk mediaPos run.first.offsetMs)
  let runEnd := placed.foldl (fun e c => max e (placedEnd sampleRate c)) mediaPos
  { outbound := if run.channel = .outbound then s.outbound ++ placed else s.outbound
    inbound := if run.channel = .inbound then s.inbound ++ placed else s.inbound
    mediaPos := runEnd
    prevWallEndMs := some runWallEndMs }

/-- The runs of both channels in the order in which they are placed. -/
def orderedRuns (p : SerializeSpeechTurnsParams) : List SpeechRun :=
  let runs :=
    collectSpeechRuns p.outbound .outbound p.sampleRate p.peakThreshold SPEECH_RUN_MERGE_GAP_MS ++
      collectSpeechRuns p.inbound .inbound p.sampleRate p.peakThreshold SPEECH_RUN_MERGE_GAP_MS
  runs.mergeSort fun a b => (compareRuns a b).isLE

def serializeSpeechTurnsByWallTime (p : SerializeSpeechTurnsParams) :
    SerializeSpeechTurnsResult :=
  let placed := (orderedRuns p).foldl (placeRun p.sampleRate) ⟨[], [], 0, none⟩
  ⟨placed.outbound, placed.inbound⟩

/-! ## The recorder -/

structure MediaClockState where
  mediaEndMs : Nat
  lastWallMs : Nat
  lastDurationMs : Nat
deriving DecidableEq, Repr

/-- Where the next chunk of a channel goes on the media clock: behind the last one. -/
def resolveMediaClockOffsetMs (wallOffsetMs durationMs nowWallMs : Nat)
    (state : Option MediaClockState) : Nat × MediaClockState :=
  let offsetMs :=
    match state with
    | none => wallOffsetMs
    | some state => state.mediaEndMs
  (offsetMs, ⟨saturatingAdd offsetMs durationMs, nowWallMs, durationMs⟩)

/-- Averages the channels of interleaved stereo PCM; other lengths are read as mono. -/
def pcmToMonoS16 (pcm : List UInt8) : List Int :=
  if pcm.length < 2 then []
  else if pcm.length % 4 = 0 ∧ 4 ≤ pcm.length then
    (List.range (pcm.length / 4)).map fun frame =>
      let l := (samples pcm).getD (2 * frame) 0
      let r := (samples pcm).getD (2 * frame + 1) 0
      asI16 ((l + r).tdiv 2)
  else samples pcm

structure SessionRecorder where
  maxDurationMs : Nat
  startedAtMs : Nat
  firstPushAtMs : Option Nat
  outbound : List PcmChunk
  inbound : List PcmChunk
  outboundClock : Option MediaClockState
  inboundClock : Option MediaClockState
  outboundFrames : Nat
  inboundFrames : Nat
  closed : Bool

inductive RecorderOp where
  | push (side : SessionChannel) (pcm : List UInt8) (nowWallMs : Nat)
  | finalize

namespace SessionRecorder

def new (maxDurationMs : Option Nat) : SessionRecorder where
  maxDurationMs := maxDurationMs.getD DEFAULT_MAX_DURATION_MS
  startedAtMs := 0
  firstPushAtMs := none
  outbound := []
  inbound := []
  outboundClock := none
  inboundClock := none
  outboundFrames := 0
  inboundFrames := 0
  closed := false

def accepting (r : SessionRecorder) (nowWallMs : Nat) : Bool :=
  !r.closed &&
    match r.firstPushAtMs with
    | none => true
    | some epoch => decide (nowWallMs - epoch < r.maxDurationMs)

/-- The first push starts the clock of both channels. -/
def ensureEpoch (r : SessionRecorder) (nowWallMs : Nat) : SessionRecorder × Nat :=
  match r.firstPushAtMs with
  | some epoch => (r, epoch)
  | none =>
    let startedAtMs := if r.startedAtMs = 0 then nowWallMs else r.startedAtMs
    ({ r with firstPushAtMs := some nowWallMs, startedAtMs }, nowWallMs)

def pushChannel (r : SessionRecorder) (side : SessionChannel) (pcm : List UInt8)
    (nowWallMs : Nat) : SessionRecorder :=
  if r.closed then r
  else if !r.accepting nowWallMs then r
  else
    let mono := pcmToMonoS16 pcm
    if mono = [] then r
    else
      let (r, epoch) := r.ensureEpoch nowWallMs
      let durationMs := chunkDurationMs mono.length SESSION_AUDIO_SAMPLE_RATE
      let wallOffsetMs := asU32 (nowWallMs - epoch)
      match side with
      | .outbound =>
        let (offsetMs, next) :=
          resolveMediaClockOffsetMs wallOffsetMs durationMs nowWallMs r.outboundClock
        { r with
          outboundClock := some next
          outbound := r.outbound ++ [⟨offsetMs, wallOffsetMs, mono⟩]
          outboundFrames := r.outboundFrames + 1 }
      | .inbound =>
        let (offsetMs, next) :=
          resolveMediaClockOffsetMs wallOffsetMs durationMs nowWallMs r.inboundClock
        { r with
          inboundClock := some next
          inbound := r.inbound ++ [⟨offsetMs, wallOffsetMs, mono⟩]
          inboundFrames := r.inboundFrames + 1 }

def apply (r : SessionRecorder) : RecorderOp → SessionRecorder
  | .push side pcm nowWallMs => r.pushChannel side pcm nowWallMs
  | .finalize => { r with closed := true }

def turnsParams (r : SessionRecorder) : SerializeSpeechTurnsParams where
  outbound := r.outbound
  inbound := r.inbound
  sampleRate := SESSION_AUDIO_SAMPLE_RATE
  peakThreshold := DEFAULT_PEAK_THRESHOLD

end SessionRecorder

/-! ## Which chunks are kept -/

def audible (sampleRate : Nat) (peakThreshold : Int) (c : PcmChunk) : Bool :=
  !isNearlySilentMono c.mono peakThreshold && decide (c.durationMs sampleRate ≠ 0)

theorem i16Abs_of_ne_min {x : Int} (h : IsI16 x) (hmin : x ≠ -32768) : i16Abs x = x.natAbs := by
  unfold IsI16 at h
  unfold i16Abs asI16
  omega

variable (sampleRate : Nat)

theorem audible_iff (peakThreshold : Int) (c : PcmChunk) (hc : ∀ x ∈ c.mono, IsI16 x ∧ x ≠ -32768) :
    audible sampleRate peakThreshold c = true ↔
      (∃ x ∈ c.mono, peakThreshold ≤ x.natAbs) ∧ c.durationMs sampleRate ≠ 0 := by
  have hpeak : isNearlySilentMono c.mono peakThreshold = false ↔
      ∃ x ∈ c.mono, peakThreshold ≤ x.natAbs := by
    simp only [isNearlySilentMono, List.all_eq_false, decide_eq_true_eq, Int.not_lt]
    refine exists_congr fun x => and_congr_right fun hx => ?_
    rw [i16Abs_of_ne_min (hc x hx).1 (hc x hx).2]
  simp only [audible, Bool.and_eq_true, Bool.not_eq_true', decide_eq_true_eq, hpeak]

section Collecting

variable (channel : SessionChannel) (sampleRate : Nat) (peakThreshold : Int) (mergeGapMs : Nat)

theorem collectChunk_cases (s : Collecting) (c : PcmChunk) :
    (audible sampleRate peakThreshold c = false ∧
      collectChunk channel sampleRate peakThreshold mergeGapMs s c = s) ∨
    (audible sampleRate peakThreshold c = true ∧
      ((∃ before run, s.runs = before ++ [run] ∧
        (collectChunk channel sampleRate peakThreshold mergeGapMs s c).runs =
          before ++ [run.push c (c.durationMs sampleRate)]) ∨
      (collectChunk channel sampleRate peakThreshold mergeGapMs s c).runs =
        s.runs ++ [.single channel c (c.durationMs sampleRate)])) := by
  by_cases hsilent : isNearlySilentMono c.mono peakThreshold = true
  · exact .inl ⟨by simp [audible, hsilent], by simp [collectChunk, hsilent]⟩
  by_cases hdur : c.durationMs sampleRate = 0
  · exact .inl ⟨by simp [audible, hdur], by simp [collectChunk, hdur]⟩
  refine .inr ⟨by simp [audible, hsilent, hdur], ?_⟩
  simp only [collectChunk, hsilent, hdur, if_false, Bool.false_eq_true]
  rcases List.eq_nil_or_concat' s.runs with hnil | ⟨before, run, hruns⟩
  · exact .inr (by simp [hnil])
  · rw [hruns, List.getLast?_append_of_ne_nil _ (by simp), List.getLast?_singleton]
    simp only [List.dropLast_concat]
    split
    · exact .inl ⟨before, run, rfl, rfl⟩
    · exact .inr rfl

theorem collectChunk_chunks (s : Collecting) (c : PcmChunk) :
    (collectChunk channel sampleRate peakThreshold mergeGapMs s c).runs.flatMap SpeechRun.chunks =
      s.runs.flatMap SpeechRun.chunks ++ [c].filter (audible sampleRate peakThreshold) := by
  rcases collectChunk_cases channel sampleRate peakThreshold mergeGapMs s c with
    ⟨haudible, hs⟩ | ⟨haudible, ⟨before, run, hruns, hs⟩ | hs⟩
  · simp [hs, haudible]
  · simp [hs, hruns, haudible, SpeechRun.push]
  · simp [hs, haudible, SpeechRun.single]

theorem collectChunk_channel (s : Collecting) (c : PcmChunk)
    (h : ∀ run ∈ s.runs, run.channel = channel) :
    ∀ run ∈ (collectChunk channel sampleRate peakThreshold mergeGapMs s c).runs,
      run.channel = channel := by
  rcases collectChunk_cases channel sampleRate peakThreshold mergeGapMs s c with
    ⟨-, hs⟩ | ⟨-, ⟨before, run, hruns, hs⟩ | hs⟩
  · rwa [hs]
  · rw [hruns] at h
    intro r hr
    rw [hs] at hr
    rcases List.mem_append.mp hr with hr | hr
    · exact h r (List.mem_append_left _ hr)
    · rw [List.mem_singleton.mp hr]
      exact h run (by simp)
  · intro r hr
    rw [hs] at hr
    rcases List.mem_append.mp hr with hr | hr
    · exact h r hr
    · rw [List.mem_singleton.mp hr]
      rfl

theorem collectSpeechRuns_chunks (chunks : List PcmChunk) :
    (collectSpeechRuns chunks channel sampleRate peakThreshold mergeGapMs).flatMap
      SpeechRun.chunks = chunks.filter (audible sampleRate peakThreshold) := by
  have hfold : ∀ s : Collecting,
      (chunks.foldl (collectChunk channel sampleRate peakThreshold mergeGapMs) s).runs.flatMap
        SpeechRun.chunks =
      s.runs.flatMap SpeechRun.chunks ++ chunks.filter (audible sampleRate peakThreshold) := by
    induction chunks with
    | nil => simp
    | cons c rest ih =>
      intro s
      rw [List.foldl_cons, ih, collectChunk_chunks, List.append_assoc, ← List.filter_append]
      rfl
  exact hfold ⟨[], 0, 0⟩

theorem collectSpeechRuns_channel (chunks : List PcmChunk) :
    ∀ run ∈ collectSpeechRuns chunks channel sampleRate peakThreshold mergeGapMs,
      run.channel = channel := by
  have hfold : ∀ s : Collecting, (∀ run ∈ s.runs, run.channel = channel) →
      ∀ run ∈ (chunks.foldl (collectChunk channel sampleRate peakThreshold mergeGapMs) s).runs,
        run.channel = channel := by
    induction chunks with
    | nil => exact fun s h => h
    | cons c rest ih =>
      intro s h
      exact ih _ (collectChunk_channel channel sampleRate peakThreshold mergeGapMs s c h)
  exact hfold ⟨[], 0, 0⟩ (by simp)

end Collecting

/-! ## The order of the runs -/

theorem compareRuns_isLE (a b : SpeechRun) :
    (compareRuns a b).isLE = true ↔ a.wallStartMs < b.wallStartMs ∨
      (a.wallStartMs = b.wallStartMs ∧ (a.channel = .outbound → b.channel = .outbound)) := by
  unfold compareRuns
  rcases Nat.lt_trichotomy a.wallStartMs b.wallStartMs with hlt | heq | hgt
  · simp [Nat.compare_eq_lt.mpr hlt, hlt]
  · rw [Nat.compare_eq_eq.mpr heq]
    cases a.channel <;> cases b.channel <;> simp [compareChannels, heq]
  · have hne : a.wallStartMs ≠ b.wallStartMs := Nat.ne_of_gt hgt
    simp [Nat.compare_eq_gt.mpr hgt, Nat.not_lt_of_gt hgt, hne]

variable (p : SerializeSpeechTurnsParams)

theorem orderedRuns_pairwise :
    (orderedRuns p).Pairwise fun a b => a.wallStartMs ≤ b.wallStartMs := by
  have htrans : ∀ a b c : SpeechRun, (compareRuns a b).isLE = true →
      (compareRuns b c).isLE = true → (compareRuns a c).isLE = true := by
    intro a b c hab hbc
    rw [compareRuns_isLE] at *
    rcases hab with hab | ⟨hab, ha⟩ <;> rcases hbc with hbc | ⟨hbc, hb⟩
    · exact .inl (Nat.lt_trans hab hbc)
    · exact .inl (hbc ▸ hab)
    · exact .inl (hab ▸ hbc)
    · exact .inr ⟨hab.trans hbc, fun h => hb (ha h)⟩
  have htotal : ∀ a b : SpeechRun, ((compareRuns a b).isLE || (compareRuns b a).isLE) = true := by
    intro a b
    rw [Bool.or_eq_true, compareRuns_isLE, compareRuns_isLE]
    rcases Nat.lt_trichotomy a.wallStartMs b.wallStartMs with hlt | heq | hgt
    · exact .inl (.inl hlt)
    · cases hb : b.channel with
      | outbound => exact .inl (.inr ⟨heq, fun _ => rfl⟩)
      | inbound => exact .inr (.inr ⟨heq.symm, fun h => nomatch h⟩)
    · exact .inr (.inl hgt)
  refine (List.pairwise_mergeSort htrans htotal _).imp ?_
  intro a b hab
  rcases (compareRuns_isLE a b).mp hab with hlt | ⟨heq, -⟩
  · exact Nat.le_of_lt hlt
  · exact Nat.le_of_eq heq

theorem filter_channel_self {runs : List SpeechRun} {channel : SessionChannel}
    (h : ∀ run ∈ runs, run.channel = channel) :
    (runs.filter fun run => run.channel = channel) = runs :=
  List.filter_eq_self.mpr fun run hrun => decide_eq_true (h run hrun)

theorem filter_channel_other {runs : List SpeechRun} {channel other : SessionChannel}
    (h : ∀ run ∈ runs, run.channel = other) (hne : other ≠ channel) :
    (runs.filter fun run => run.channel = channel) = [] :=
  List.filter_eq_nil_iff.mpr fun run hrun => by simp [h run hrun, hne]

variable (channel : SessionChannel)

theorem orderedRuns_filter :
    ((orderedRuns p).filter fun run => run.channel = channel).Perm
      (collectSpeechRuns (p.on channel) channel p.sampleRate p.peakThreshold
        SPEECH_RUN_MERGE_GAP_MS) := by
  refine ((List.mergeSort_perm _ _).filter _).trans ?_
  rw [List.filter_append]
  have hout := collectSpeechRuns_channel .outbound p.sampleRate p.peakThreshold
    SPEECH_RUN_MERGE_GAP_MS p.outbound
  have hin := collectSpeechRuns_channel .inbound p.sampleRate p.peakThreshold
    SPEECH_RUN_MERGE_GAP_MS p.inbound
  cases channel with
  | outbound =>
    rw [filter_channel_self hout, filter_channel_other hin (by decide), List.append_nil]
    exact .refl _
  | inbound =>
    rw [filter_channel_other hout (by decide), filter_channel_self hin]
    exact .refl _

/-! ## Turns: the runs where they are placed -/

/-- A run and where it starts on the media timeline. -/
structure Turn where
  run : SpeechRun
  start : Nat

namespace Turn

def place (t : Turn) : PcmChunk → PcmChunk := placeChunk t.start t.run.first.offsetMs

def placed (t : Turn) : List PcmChunk := t.run.chunks.map t.place

end Turn

def turnsFrom (sampleRate : Nat) : Placing → List SpeechRun → List Turn
  | _, [] => []
  | s, run :: rest => ⟨run, runStart s run⟩ :: turnsFrom sampleRate (placeRun sampleRate s run) rest

def turns (p : SerializeSpeechTurnsParams) : List Turn :=
  turnsFrom p.sampleRate ⟨[], [], 0, none⟩ (orderedRuns p)

theorem turnsFrom_run (s : Placing) (runs : List SpeechRun) :
    (turnsFrom sampleRate s runs).map Turn.run = runs := by
  induction runs generalizing s with
  | nil => rfl
  | cons run rest ih => simp [turnsFrom, ih]

def Placing.on (s : Placing) : SessionChannel → List PcmChunk
  | .outbound => s.outbound
  | .inbound => s.inbound

theorem placeRun_on (s : Placing) (run : SpeechRun) (channel : SessionChannel) :
    (placeRun sampleRate s run).on channel = s.on channel ++
      if run.channel = channel then (Turn.mk run (runStart s run)).placed else [] := by
  cases channel <;> cases h : run.channel <;>
    simp [placeRun, Placing.on, h, Turn.placed, Turn.place]

theorem foldl_placeRun_on (s : Placing) (runs : List SpeechRun) (channel : SessionChannel) :
    (runs.foldl (placeRun sampleRate) s).on channel = s.on channel ++
      ((turnsFrom sampleRate s runs).filter fun t => t.run.channel = channel).flatMap
        Turn.placed := by
  induction runs generalizing s with
  | nil => simp [turnsFrom]
  | cons run rest ih =>
    rw [List.foldl_cons, ih, placeRun_on]
    by_cases h : run.channel = channel <;> simp [turnsFrom, h]

/-! ## Turns do not overlap -/

theorem saturatingAdd_le (a b : Nat) : saturatingAdd a b ≤ u32Max := Nat.min_le_right _ _

theorem le_saturatingAdd {a : Nat} (h : a ≤ u32Max) (b : Nat) : a ≤ saturatingAdd a b :=
  Nat.le_min.mpr ⟨Nat.le_add_right a b, h⟩

theorem foldl_max_placedEnd (placed : List PcmChunk) (e : Nat) :
    e ≤ placed.foldl (fun e c => max e (placedEnd sampleRate c)) e ∧
      (∀ c ∈ placed, placedEnd sampleRate c ≤
        placed.foldl (fun e c => max e (placedEnd sampleRate c)) e) ∧
      (e ≤ u32Max → placed.foldl (fun e c => max e (placedEnd sampleRate c)) e ≤ u32Max) := by
  induction placed generalizing e with
  | nil => simp
  | cons c rest ih =>
    obtain ⟨hle, hends, hmax⟩ := ih (max e (placedEnd sampleRate c))
    refine ⟨Nat.le_trans (Nat.le_max_left _ _) hle, ?_, ?_⟩
    · intro d hd
      rcases List.mem_cons.mp hd with rfl | hd
      · exact Nat.le_trans (Nat.le_max_right _ _) hle
      · exact hends d hd
    · exact fun h => hmax (Nat.max_le.mpr ⟨h, saturatingAdd_le _ _⟩)

variable {s : Placing}

theorem runStart_bounds (h : s.mediaPos ≤ u32Max) (run : SpeechRun) :
    s.mediaPos ≤ runStart s run ∧ runStart s run ≤ u32Max := by
  unfold runStart
  split
  · exact ⟨le_saturatingAdd h _, saturatingAdd_le _ _⟩
  · exact ⟨Nat.le_refl _, h⟩

theorem placeRun_mediaPos (h : s.mediaPos ≤ u32Max) (run : SpeechRun) :
    runStart s run ≤ (placeRun sampleRate s run).mediaPos ∧
      (placeRun sampleRate s run).mediaPos ≤ u32Max ∧
      ∀ c ∈ (Turn.mk run (runStart s run)).placed,
        placedEnd sampleRate c ≤ (placeRun sampleRate s run).mediaPos := by
  obtain ⟨hle, hends, hmax⟩ := foldl_max_placedEnd sampleRate
    (Turn.mk run (runStart s run)).placed (runStart s run)
  exact ⟨hle, hmax (runStart_bounds h run).2, hends⟩

theorem start_le_placed {t : Turn} (h : t.start ≤ u32Max) :
    ∀ c ∈ t.placed, t.start ≤ c.offsetMs ∧ c.offsetMs ≤ u32Max := by
  intro c hc
  obtain ⟨d, -, rfl⟩ := List.mem_map.mp hc
  exact ⟨le_saturatingAdd h _, saturatingAdd_le _ _⟩

theorem turnsFrom_start (h : s.mediaPos ≤ u32Max) (runs : List SpeechRun) :
    ∀ t ∈ turnsFrom sampleRate s runs, s.mediaPos ≤ t.start ∧ t.start ≤ u32Max := by
  induction runs generalizing s with
  | nil => simp [turnsFrom]
  | cons run rest ih =>
    intro t ht
    have hstart := runStart_bounds h run
    obtain ⟨hpos, hmax, -⟩ := placeRun_mediaPos sampleRate h run
    rcases List.mem_cons.mp ht with rfl | ht
    · exact hstart
    · have := ih hmax t ht
      exact ⟨Nat.le_trans hstart.1 (Nat.le_trans hpos this.1), this.2⟩

theorem turnsFrom_apart (h : s.mediaPos ≤ u32Max) (runs : List SpeechRun) :
    (turnsFrom sampleRate s runs).Pairwise fun a b =>
      ∀ c ∈ a.placed, ∀ d ∈ b.placed, placedEnd sampleRate c ≤ d.offsetMs := by
  induction runs generalizing s with
  | nil => exact List.Pairwise.nil
  | cons run rest ih =>
    obtain ⟨-, hmax, hends⟩ := placeRun_mediaPos sampleRate h run
    refine List.pairwise_cons.mpr ⟨?_, ih hmax⟩
    intro b hb c hc d hd
    have hb := turnsFrom_start sampleRate hmax rest b hb
    calc placedEnd sampleRate c ≤ (placeRun sampleRate s run).mediaPos := hends c hc
      _ ≤ b.start := hb.1
      _ ≤ d.offsetMs := (start_le_placed hb.2 d hd).1

/-! ## The recorded media clock -/

def InMediaOrder (chunks : List PcmChunk) : Prop :=
  chunks.Pairwise fun c d => c.offsetMs ≤ d.offsetMs

/-- The chunks of a channel are in order, and its clock is past their starts. -/
structure Clocked (chunks : List PcmChunk) (clock : Option MediaClockState) : Prop where
  inOrder : InMediaOrder chunks
  within : ∀ c ∈ chunks, ∃ state, clock = some state ∧ c.offsetMs ≤ state.mediaEndMs
  bounded : ∀ state, clock = some state → state.mediaEndMs ≤ u32Max

theorem Clocked.nil : Clocked [] none :=
  ⟨List.Pairwise.nil, by simp, by simp⟩

theorem asU32_le (x : Nat) : asU32 x ≤ u32Max := by
  unfold asU32 u32Max
  omega

theorem Clocked.append {chunks : List PcmChunk} {clock : Option MediaClockState}
    (h : Clocked chunks clock) {wallOffsetMs : Nat} (hwall : wallOffsetMs ≤ u32Max)
    (durationMs nowWallMs : Nat) (mono : List Int) :
    Clocked
      (chunks ++ [⟨(resolveMediaClockOffsetMs wallOffsetMs durationMs nowWallMs clock).1,
        wallOffsetMs, mono⟩])
      (some (resolveMediaClockOffsetMs wallOffsetMs durationMs nowWallMs clock).2) := by
  obtain ⟨offset, hoffset⟩ : ∃ o,
      o = (resolveMediaClockOffsetMs wallOffsetMs durationMs nowWallMs clock).1 := ⟨_, rfl⟩
  have hend : (resolveMediaClockOffsetMs wallOffsetMs durationMs nowWallMs clock).2.mediaEndMs =
      saturatingAdd offset durationMs := by
    rw [hoffset]
    rfl
  have hbehind : offset ≤ u32Max ∧ ∀ c ∈ chunks, c.offsetMs ≤ offset := by
    cases clock with
    | none =>
      refine ⟨hoffset ▸ hwall, fun c hc => ?_⟩
      obtain ⟨state, hstate, -⟩ := h.within c hc
      cases hstate
    | some state =>
      refine ⟨hoffset ▸ h.bounded state rfl, fun c hc => ?_⟩
      obtain ⟨state', hstate, hle⟩ := h.within c hc
      cases hstate
      exact hoffset ▸ hle
  have hpast : offset ≤ saturatingAdd offset durationMs := le_saturatingAdd hbehind.1 _
  rw [← hoffset]
  constructor
  · refine List.pairwise_append.mpr ⟨h.inOrder, List.pairwise_singleton _ _, ?_⟩
    intro c hc d hd
    rw [List.mem_singleton.mp hd]
    exact hbehind.2 c hc
  · intro c hc
    refine ⟨_, rfl, ?_⟩
    rw [hend]
    rcases List.mem_append.mp hc with hc | hc
    · exact Nat.le_trans (hbehind.2 c hc) hpast
    · rw [List.mem_singleton.mp hc]
      exact hpast
  · intro state hstate
    cases hstate
    exact saturatingAdd_le _ _

structure SessionRecorder.Inv (r : SessionRecorder) : Prop where
  outbound : Clocked r.outbound r.outboundClock
  inbound : Clocked r.inbound r.inboundClock

namespace SessionRecorder

theorem new_inv (maxDurationMs : Option Nat) : (new maxDurationMs).Inv := ⟨.nil, .nil⟩

variable {r : SessionRecorder}

theorem ensureEpoch_inv (h : r.Inv) (nowWallMs : Nat) : (r.ensureEpoch nowWallMs).1.Inv := by
  unfold ensureEpoch
  split
  · exact h
  · exact ⟨h.outbound, h.inbound⟩

theorem pushChannel_inv (h : r.Inv) (side : SessionChannel) (pcm : List UInt8) (nowWallMs : Nat) :
    (r.pushChannel side pcm nowWallMs).Inv := by
  unfold pushChannel
  split
  · exact h
  split
  · exact h
  by_cases hmono : pcmToMonoS16 pcm = []
  · simpa only [hmono, if_true] using h
  simp only [hmono]
  have h := ensureEpoch_inv h nowWallMs
  have hwall := asU32_le (nowWallMs - (r.ensureEpoch nowWallMs).2)
  cases side with
  | outbound => exact ⟨h.outbound.append hwall _ _ _, h.inbound⟩
  | inbound => exact ⟨h.outbound, h.inbound.append hwall _ _ _⟩

theorem apply_inv (h : r.Inv) (op : RecorderOp) : (r.apply op).Inv := by
  cases op with
  | push side pcm nowWallMs => exact pushChannel_inv h side pcm nowWallMs
  | finalize => exact ⟨h.outbound, h.inbound⟩

theorem foldl_apply_inv (h : r.Inv) (ops : List RecorderOp) : (ops.foldl apply r).Inv := by
  induction ops generalizing r with
  | nil => exact h
  | cons op rest ih => exact ih (apply_inv h op)

end SessionRecorder

/-! ## Offsets within a run -/

theorem orderedRuns_inMediaOrder (h : ∀ channel, InMediaOrder (p.on channel)) :
    ∀ run ∈ orderedRuns p, InMediaOrder run.chunks := by
  intro run hrun
  have hmem : run ∈ collectSpeechRuns (p.on run.channel) run.channel p.sampleRate
      p.peakThreshold SPEECH_RUN_MERGE_GAP_MS :=
    (orderedRuns_filter p run.channel).mem_iff.mp
      (List.mem_filter.mpr ⟨hrun, decide_eq_true rfl⟩)
  have hflat : InMediaOrder ((collectSpeechRuns (p.on run.channel) run.channel p.sampleRate
      p.peakThreshold SPEECH_RUN_MERGE_GAP_MS).flatMap SpeechRun.chunks) := by
    rw [collectSpeechRuns_chunks]
    exact (h run.channel).filter _
  exact (List.pairwise_flatMap.mp hflat).1 run hmem

theorem SpeechRun.first_le {run : SpeechRun} (h : InMediaOrder run.chunks) :
    ∀ c ∈ run.chunks, run.first.offsetMs ≤ c.offsetMs := by
  intro c hc
  have hcons : run.chunks = run.first :: run.chunks.tail := (List.cons_head_tail run.nonempty).symm
  rw [hcons] at h hc
  rcases List.mem_cons.mp hc with rfl | hc
  · exact Nat.le_refl _
  · exact (List.pairwise_cons.mp h).1 c hc

theorem Turn.place_offset {t : Turn} {c : PcmChunk} (h : t.run.first.offsetMs ≤ c.offsetMs)
    (hlt : (t.place c).offsetMs < u32Max) :
    (t.place c).offsetMs + t.run.first.offsetMs = t.start + c.offsetMs := by
  have heq : (t.place c).offsetMs =
      min (t.start + (c.offsetMs - t.run.first.offsetMs)) u32Max := rfl
  omega

/-! ## The serialized recording -/

/-- A chunk without its place on the media timeline. -/
def PcmChunk.audio (c : PcmChunk) : Nat × List Int := (c.wallOffsetMs, c.mono)

/-- What serializing makes of a recording, told by the turns it places. -/
structure Serialized (p : SerializeSpeechTurnsParams) (r : SerializeSpeechTurnsResult)
    (turns : List Turn) : Prop where
  /-- Each channel gets the chunks of its own turns. -/
  ownChannel : ∀ channel, r.on channel =
    (turns.filter fun t => t.run.channel = channel).flatMap Turn.placed
  keptOnce : ∀ channel, ((r.on channel).map PcmChunk.audio).Perm
    (((p.on channel).filter (audible p.sampleRate p.peakThreshold)).map PcmChunk.audio)
  turnsAreRuns : ∀ channel, ((turns.map Turn.run).filter fun run => run.channel = channel).Perm
    (collectSpeechRuns (p.on channel) channel p.sampleRate p.peakThreshold
      SPEECH_RUN_MERGE_GAP_MS)
  byWallStart : turns.Pairwise fun a b => a.run.wallStartMs ≤ b.run.wallStartMs
  /-- A later turn starts behind an earlier one, or where the timeline ends. -/
  apart : turns.Pairwise fun a b => ∀ c ∈ a.placed, ∀ d ∈ b.placed,
    c.offsetMs + c.durationMs p.sampleRate ≤ d.offsetMs ∨ d.offsetMs = u32Max
  offsetsKept : (∀ channel, InMediaOrder (p.on channel)) → ∀ t ∈ turns,
    ∀ c ∈ t.run.chunks, ∀ d ∈ t.run.chunks,
      (t.place c).offsetMs < u32Max → (t.place d).offsetMs < u32Max →
      (t.place c).offsetMs + d.offsetMs = (t.place d).offsetMs + c.offsetMs

theorem turns_run : (turns p).map Turn.run = orderedRuns p :=
  turnsFrom_run _ _ _

theorem serialize_on :
    (serializeSpeechTurnsByWallTime p).on channel =
      ((turns p).filter fun t => t.run.channel = channel).flatMap Turn.placed := by
  have h := foldl_placeRun_on p.sampleRate ⟨[], [], 0, none⟩ (orderedRuns p) channel
  cases channel with
  | outbound | inbound => exact h

theorem Turn.placed_audio (t : Turn) :
    t.placed.map PcmChunk.audio = t.run.chunks.map PcmChunk.audio := by
  rw [Turn.placed, List.map_map]
  rfl

theorem turns_keptOnce :
    (((serializeSpeechTurnsByWallTime p).on channel).map PcmChunk.audio).Perm
      (((p.on channel).filter (audible p.sampleRate p.peakThreshold)).map PcmChunk.audio) := by
  have hturns : ((serializeSpeechTurnsByWallTime p).on channel).map PcmChunk.audio =
      (((orderedRuns p).filter fun run => run.channel = channel).flatMap SpeechRun.chunks).map
        PcmChunk.audio := by
    rw [serialize_on, ← turns_run, List.filter_map, List.flatMap_map, List.map_flatMap,
      List.map_flatMap]
    simp only [Turn.placed_audio]
    rfl
  rw [hturns]
  refine List.Perm.map _ ?_
  rw [← collectSpeechRuns_chunks channel p.sampleRate p.peakThreshold SPEECH_RUN_MERGE_GAP_MS]
  exact (orderedRuns_filter p channel).flatMap_right _

theorem turns_apart :
    (turns p).Pairwise fun a b => ∀ c ∈ a.placed, ∀ d ∈ b.placed,
      c.offsetMs + c.durationMs p.sampleRate ≤ d.offsetMs ∨ d.offsetMs = u32Max := by
  have hpos : (Placing.mk [] [] 0 none).mediaPos ≤ u32Max := Nat.zero_le _
  have hstart := turnsFrom_start p.sampleRate hpos (orderedRuns p)
  refine (List.Pairwise.and_mem.mp (turnsFrom_apart p.sampleRate hpos (orderedRuns p))).imp ?_
  rintro a b ⟨-, hb, h⟩ c hc d hd
  have hend : min (c.offsetMs + c.durationMs p.sampleRate) u32Max ≤ d.offsetMs := h c hc d hd
  have hmax := (start_le_placed (hstart b hb).2 d hd).2
  omega

theorem turns_offsetsKept (h : ∀ channel, InMediaOrder (p.on channel)) :
    ∀ t ∈ turns p, ∀ c ∈ t.run.chunks, ∀ d ∈ t.run.chunks,
      (t.place c).offsetMs < u32Max → (t.place d).offsetMs < u32Max →
      (t.place c).offsetMs + d.offsetMs = (t.place d).offsetMs + c.offsetMs := by
  intro t ht c hc d hd hltc hltd
  have hrun : t.run ∈ orderedRuns p := turns_run p ▸ List.mem_map_of_mem ht
  have hfirst := SpeechRun.first_le (orderedRuns_inMediaOrder p h t.run hrun)
  have hc := Turn.place_offset (hfirst c hc) hltc
  have hd := Turn.place_offset (hfirst d hd) hltd
  omega

/-- Every recording is serialized turn by turn: nothing audible is lost or doubled, turns follow
the wall clock, do not overlap and are not torn. What a recorder holds is in media order. -/
theorem speech_turns_serialized :
    (∀ p : SerializeSpeechTurnsParams,
      ∃ turns, Serialized p (serializeSpeechTurnsByWallTime p) turns) ∧
    (∀ sampleRate peakThreshold c, (∀ x ∈ PcmChunk.mono c, IsI16 x ∧ x ≠ -32768) →
      (audible sampleRate peakThreshold c = true ↔
        (∃ x ∈ c.mono, peakThreshold ≤ x.natAbs) ∧ c.durationMs sampleRate ≠ 0)) ∧
    (∀ maxDurationMs (ops : List RecorderOp) channel, InMediaOrder
      ((ops.foldl SessionRecorder.apply (.new maxDurationMs)).turnsParams.on channel)) := by
  refine ⟨fun p => ⟨turns p, ?_⟩, audible_iff, ?_⟩
  · constructor
    · exact serialize_on p
    · exact turns_keptOnce p
    · intro channel
      rw [turns_run]
      exact orderedRuns_filter p channel
    · have h := orderedRuns_pairwise p
      rw [← turns_run] at h
      exact (List.pairwise_map (f := Turn.run)).mp h
    · exact turns_apart p
    · exact turns_offsetsKept p
  · intro maxDurationMs ops channel
    have h := SessionRecorder.foldl_apply_inv (SessionRecorder.new_inv maxDurationMs) ops
    cases channel with
    | outbound => exact h.outbound.inOrder
    | inbound => exact h.inbound.inOrder

/-- Less than a millisecond of loud audio, as a recorder takes it, is not kept. -/
theorem short_chunk_is_dropped :
    let pcm := (List.replicate 47 [0x88, 0x13, 0x88, 0x13]).flatten
    let p := ((SessionRecorder.new none).pushChannel .outbound pcm 1000).turnsParams
    p.outbound = [⟨0, 0, List.replicate 47 5000⟩] ∧
      isNearlySilentMono (List.replicate 47 5000) p.peakThreshold = false ∧
      serializeSpeechTurnsByWallTime p = ⟨[], []⟩ := by
  decide +kernel

end NodeWebrtc.Speech.Recorder
