import NodeWebrtc.Player.Session

/-! # Sessions of every input

A clip comes from a file, from bytes, from a source that still grows or as raw PCM. Whatever its
input, the decode thread enqueues PCM, returns from its decode function and runs the end of
`decode_loop`. This is all that the status depends on, so each kind of session is seen as one
`Clip`.
-/

namespace NodeWebrtc.Player

open Machine (Step run)

/-! ## Raw PCM -/

inductive RawPhase
  | lengthCheck
  | enqueue (e : EnqueueStep)
  | enqueued
  | returned (e : LoopEnd)
  deriving DecidableEq, Repr

/-- A session over interleaved 16-bit stereo PCM. -/
structure RawPcm where
  state : SessionState
  data : List UInt8
  phase : RawPhase
  deriving DecidableEq, Repr

def RawPcm.start (data : List UInt8) : RawPcm :=
  ⟨{ SessionState.spawned with durationMs := some (stereoByteLenToMs data.length) }, data, .lengthCheck⟩

def RawPcm.decode (s : RawPcm) : Option (RawPcm × List Output) :=
  match s.phase with
  | .lengthCheck =>
    if s.data.length % 4 = 0 then some ({ s with phase := .enqueue (.push s.data) }, [])
    else
      let err := PlayerError.invalidInput "raw PCM must be s16le stereo (4 bytes per frame)"
      some ({ s with phase := .returned (.result (some err)) }, [])
  | .enqueue e =>
    match enqueueStep s.state e with
    | (state, some e', out) => some ({ s with state, phase := .enqueue e' }, out)
    | (state, none, out) => some ({ s with state, phase := .enqueued }, out)
  | .enqueued => some ({ s with phase := .returned (.result none) }, [])
  | .returned e =>
    (loopEndStep s.state e).map fun p => ({ s with state := p.1, phase := .returned p.2 }, [])

def RawPcm.step : Step RawPcm Input Output := fun s i =>
  match i with
  | .append _ | .markEof => none
  | .takeFrame => some ({ s with state := s.state.takeFrame.1 }, frameOutput s.state.takeFrame.2)
  | .stop => some ({ s with state := s.state.stop }, [])
  | .decode => s.decode

/-! ## Any input -/

def SessionState.requestStop (st : SessionState) : SessionState := { st with stopRequested := true }

def SessionState.stopStatus (st : SessionState) : SessionState :=
  { st with status := if st.status = .playing ∨ st.status = .buffering then .stopped else st.status }

theorem SessionState.stop_eq (st : SessionState) : st.stop = st.requestStop.stopStatus := rfl

/-- What a session is started on; a file is read by the thread. -/
inductive InputKind
  | path (file : Except String (List UInt8)) (hint : Option String)
  | bytes (data : List UInt8)
  | growing
  | rawPcm (data : List UInt8)

inductive ClipSession
  | growing (s : Growing)
  | static (s : Static)
  | rawPcm (s : RawPcm)

namespace ClipSession

/-- What happens next; the two steps of `stop` may have others between them. -/
inductive Input
  | session (i : Player.Input)
  | requestStop
  | stopStatus

variable (S : Symphonia)

/-- `spawn`; a file that cannot be read has failed when the thread starts. -/
def spawn : InputKind → ClipSession
  | .path (.ok data) hint => .static (.start data hint)
  | .path (.error message) _ => .static ⟨.spawned, [], .returned (.result (some (.io message)))⟩
  | .bytes data => .static (.start data (hintFromBytes data))
  | .growing => .growing .start
  | .rawPcm data => .rawPcm (.start data)

def mapState (f : SessionState → SessionState) : ClipSession → ClipSession
  | .growing s => .growing { s with state := f s.state }
  | .static s => .static { s with state := f s.state }
  | .rawPcm s => .rawPcm { s with state := f s.state }

/-- One step of the session, its writer or its host. -/
def step : Step ClipSession Input Output
  | .growing s, .session i => (s.step S i).map fun p => (.growing p.1, p.2)
  | .static s, .session i => (s.step S i).map fun p => (.static p.1, p.2)
  | .rawPcm s, .session i => (s.step i).map fun p => (.rawPcm p.1, p.2)
  | s, .requestStop => some (s.mapState .requestStop, [])
  | s, .stopStatus => some (s.mapState .stopStatus, [])

end ClipSession

/-! ## What they have in common -/

inductive ThreadPhase
  /-- In its decode function, between two chunks of PCM. -/
  | decoding
  | enqueue (e : EnqueueStep)
  | returned (e : LoopEnd)
  deriving DecidableEq, Repr

/-- The state of a session and its decode thread. -/
structure Clip where
  state : SessionState
  thread : ThreadPhase
  deriving DecidableEq, Repr

def GrowingPhase.thread : GrowingPhase → ThreadPhase
  | .enqueue _ _ e => .enqueue e
  | .returned _ e => .returned e
  | _ => .decoding

def StaticPhase.thread : StaticPhase → ThreadPhase
  | .enqueue _ e => .enqueue e
  | .returned e => .returned e
  | _ => .decoding

def RawPhase.thread : RawPhase → ThreadPhase
  | .enqueue e => .enqueue e
  | .returned e => .returned e
  | _ => .decoding

def ClipSession.clip : ClipSession → Clip
  | .growing s => ⟨s.state, s.phase.thread⟩
  | .static s => ⟨s.state, s.phase.thread⟩
  | .rawPcm s => ⟨s.state, s.phase.thread⟩

def ThreadPhase.Next : ThreadPhase → Prop
  | .decoding => True
  | .enqueue e => ∃ pcm, e = .push pcm
  | .returned e => ∃ err, e = .result err

inductive Clip.Moves (c : Clip) : ClipSession.Input → Clip → List Output → Prop
  | append (chunk : List UInt8) : c.Moves (.session (.append chunk)) c []
  | markEof : c.Moves (.session .markEof) c []
  | takeFrame :
      c.Moves (.session .takeFrame) ⟨c.state.takeFrame.1, c.thread⟩ (frameOutput c.state.takeFrame.2)
  | stop : c.Moves (.session .stop) ⟨c.state.stop, c.thread⟩ []
  | requestStop : c.Moves .requestStop ⟨c.state.requestStop, c.thread⟩ []
  | stopStatus : c.Moves .stopStatus ⟨c.state.stopStatus, c.thread⟩ []
  /-- In the decode function; only the length of the clip may become known. -/
  | decodes (durationMs : Option Nat) {thread : ThreadPhase} (hthread : c.thread = .decoding)
      (hnext : thread.Next) :
      c.Moves (.session .decode) ⟨{ c.state with durationMs := durationMs }, thread⟩ []
  | enqueues {e : EnqueueStep} (hthread : c.thread = .enqueue e) :
      c.Moves (.session .decode)
        ⟨(enqueueStep c.state e).1, ((enqueueStep c.state e).2.1.map .enqueue).getD .decoding⟩
        (enqueueStep c.state e).2.2
  | ends {e e' : LoopEnd} {state : SessionState} (hthread : c.thread = .returned e)
      (hend : loopEndStep c.state e = some (state, e')) : c.Moves (.session .decode) ⟨state, .returned e'⟩ []

/-! ## Each kind moves so -/

theorem Clip.moves_goto {c : Clip} {thread : ThreadPhase} (hthread : c.thread = .decoding)
    (hnext : thread.Next) : c.Moves (.session .decode) ⟨c.state, thread⟩ [] :=
  .decodes c.state.durationMs hthread hnext

variable {out : List Output}

theorem Clip.moves_enqueue {state state' : SessionState} {e : EnqueueStep}
    {next : Option EnqueueStep} (h : enqueueStep state e = (state', next, out)) :
    Clip.Moves ⟨state, .enqueue e⟩ (.session .decode) ⟨state', (next.map .enqueue).getD .decoding⟩ out := by
  have hmoves := Moves.enqueues (c := ⟨state, .enqueue e⟩) rfl
  rwa [h] at hmoves

theorem Clip.moves_end {c : Clip} {e : LoopEnd} {p : SessionState × LoopEnd}
    (hthread : c.thread = .returned e) (hend : loopEndStep c.state e = some p) :
    c.Moves (.session .decode) ⟨p.1, .returned p.2⟩ [] := .ends hthread hend

theorem RawPcm.moves {s t : RawPcm} {i : Input} (h : s.step i = some (t, out)) :
    Clip.Moves ⟨s.state, s.phase.thread⟩ (.session i) ⟨t.state, t.phase.thread⟩ out := by
  cases i with
  | append | markEof => cases h
  | takeFrame =>
    cases h
    exact .takeFrame
  | stop =>
    cases h
    exact .stop
  | decode =>
    have hd : s.decode = some (t, out) := h
    rw [RawPcm.decode] at hd
    cases hph : s.phase with rw [hph] at hd
    | lengthCheck =>
      split_ifs at hd <;> cases hd
      all_goals exact Clip.moves_goto rfl ⟨_, rfl⟩
    | enqueue e =>
      simp only at hd
      split at hd
      next he =>
        cases hd
        exact Clip.moves_enqueue he
      next he =>
        cases hd
        exact Clip.moves_enqueue he
    | enqueued =>
      cases hd
      exact Clip.moves_goto rfl ⟨_, rfl⟩
    | returned e =>
      obtain ⟨p, hp, hd⟩ := Option.map_eq_some_iff.mp hd
      cases hd
      exact Clip.moves_end rfl hp

theorem Static.moves_goto {s t : Static} {phase : StaticPhase} (h : s.goto phase = some (t, out))
    (hthread : s.phase.thread = .decoding) (hnext : phase.thread.Next) :
    Clip.Moves ⟨s.state, s.phase.thread⟩ (.session .decode) ⟨t.state, t.phase.thread⟩ out := by
  cases h
  exact Clip.moves_goto hthread hnext

variable {S : Symphonia}

theorem Static.decode_moves {s t : Static} (h : s.decode S = some (t, out)) :
    Clip.Moves ⟨s.state, s.phase.thread⟩ (.session .decode) ⟨t.state, t.phase.thread⟩ out := by
  rw [Static.decode] at h
  cases hph : s.phase with rw [hph] at h
  | opening hint =>
    rw [← hph]
    simp only at h
    split at h
    next => exact moves_goto h (by rw [hph]; rfl) trivial
    next => exact moves_goto h (by rw [hph]; rfl) ⟨_, rfl⟩
  | opened d durationMs =>
    cases durationMs with
    | some dur =>
      cases h
      exact .decodes (some dur) rfl trivial
    | none =>
      rw [← hph]
      exact moves_goto h (by rw [hph]; rfl) trivial
  | loop d =>
    rw [← hph]
    simp only at h
    split_ifs at h
    · exact moves_goto h (by rw [hph]; rfl) ⟨_, rfl⟩
    · exact moves_goto h (by rw [hph]; rfl) trivial
  | pass d pcmOut packets =>
    rw [← hph]
    simp only at h
    split at h
    next => exact moves_goto h (by rw [hph]; rfl) trivial
    next =>
      split_ifs at h
      · exact moves_goto h (by rw [hph]; rfl) trivial
      · exact moves_goto h (by rw [hph]; rfl) ⟨_, rfl⟩
    next => exact moves_goto h (by rw [hph]; rfl) ⟨_, rfl⟩
  | enqueue d e =>
    simp only at h
    split at h
    next he =>
      cases h
      exact Clip.moves_enqueue he
    next he =>
      cases h
      exact Clip.moves_enqueue he
  | preroll d hadPcm =>
    rw [← hph]
    simp only at h
    split_ifs at h
    · exact moves_goto h (by rw [hph]; rfl) ⟨_, rfl⟩
    · exact moves_goto h (by rw [hph]; rfl) ⟨_, rfl⟩
    · exact moves_goto h (by rw [hph]; rfl) trivial
  | returned e =>
    obtain ⟨p, hp, h⟩ := Option.map_eq_some_iff.mp h
    cases h
    exact Clip.moves_end rfl hp

theorem Growing.moves_goto {s t : Growing} {phase : GrowingPhase} (h : s.goto phase = some (t, out))
    (hthread : s.phase.thread = .decoding) (hnext : phase.thread.Next) :
    Clip.Moves ⟨s.state, s.phase.thread⟩ (.session .decode) ⟨t.state, t.phase.thread⟩ out := by
  cases h
  exact Clip.moves_goto hthread hnext

theorem Growing.decode_moves {s t : Growing} (h : s.decode S = some (t, out)) :
    Clip.Moves ⟨s.state, s.phase.thread⟩ (.session .decode) ⟨t.state, t.phase.thread⟩ out := by
  rw [Growing.decode] at h
  cases hph : s.phase with
  | opening hint =>
    rw [hph] at h
    rw [← hph]
    simp only at h
    split at h
    next => exact moves_goto h (by rw [hph]; rfl) trivial
    next => exact moves_goto h (by rw [hph]; rfl) trivial
  | opened d durationMs =>
    rw [hph] at h
    cases durationMs with
    | some dur =>
      cases h
      exact .decodes (some dur) rfl trivial
    | none =>
      rw [← hph]
      exact moves_goto h (by rw [hph]; rfl) trivial
  | pass d prevLen pcmOut packets =>
    rw [hph] at h
    rw [← hph]
    simp only at h
    split at h
    next => exact moves_goto h (by rw [hph]; rfl) trivial
    next =>
      split_ifs at h
      · exact moves_goto h (by rw [hph]; rfl) trivial
      · exact moves_goto h (by rw [hph]; rfl) ⟨_, rfl⟩
    next => exact moves_goto h (by rw [hph]; rfl) trivial
  | enqueue d prevLen e =>
    rw [hph] at h
    simp only at h
    split at h
    next he =>
      cases h
      exact Clip.moves_enqueue he
    next he =>
      cases h
      exact Clip.moves_enqueue he
  | returned d e =>
    rw [hph] at h
    obtain ⟨p, hp, h⟩ := Option.map_eq_some_iff.mp h
    cases h
    exact Clip.moves_end rfl hp
  | snapshot | measure =>
    rw [hph] at h
    rw [← hph]
    exact moves_goto h (by rw [hph]; rfl) trivial
  | waiting d prevLen =>
    rw [hph] at h
    rw [← hph]
    simp only at h
    split_ifs at h <;> exact moves_goto h (by rw [hph]; rfl) trivial
  | _ =>
    -- a check: the function returns or goes on
    rw [hph] at h
    rw [← hph]
    simp only at h
    split_ifs at h <;>
      first
      | exact moves_goto h (by rw [hph]; rfl) trivial
      | exact moves_goto h (by rw [hph]; rfl) ⟨_, rfl⟩

theorem Growing.moves {s t : Growing} {i : Input} (h : s.step S i = some (t, out)) :
    Clip.Moves ⟨s.state, s.phase.thread⟩ (.session i) ⟨t.state, t.phase.thread⟩ out := by
  cases i with
  | append chunk =>
    cases h
    exact .append chunk
  | markEof =>
    cases h
    exact .markEof
  | takeFrame =>
    cases h
    exact .takeFrame
  | stop =>
    cases h
    exact .stop
  | decode => exact decode_moves h

theorem Static.moves {s t : Static} {i : Input} (h : s.step S i = some (t, out)) :
    Clip.Moves ⟨s.state, s.phase.thread⟩ (.session i) ⟨t.state, t.phase.thread⟩ out := by
  cases i with
  | append | markEof => cases h
  | takeFrame =>
    cases h
    exact .takeFrame
  | stop =>
    cases h
    exact .stop
  | decode => exact decode_moves h

namespace ClipSession

theorem clip_mapState (f : SessionState → SessionState) (s : ClipSession) :
    (s.mapState f).clip = ⟨f s.clip.state, s.clip.thread⟩ := by
  cases s <;> rfl

theorem step_moves {S : Symphonia} {s t : ClipSession} {i : Input} {out : List Output}
    (h : step S s i = some (t, out)) : s.clip.Moves i t.clip out := by
  cases i with
  | session i =>
    cases s with
    | growing s =>
      obtain ⟨⟨g, out⟩, hs, h⟩ := Option.map_eq_some_iff.mp h
      cases h
      exact Growing.moves hs
    | static s =>
      obtain ⟨⟨u, out⟩, hs, h⟩ := Option.map_eq_some_iff.mp h
      cases h
      exact Static.moves hs
    | rawPcm s =>
      obtain ⟨⟨r, out⟩, hs, h⟩ := Option.map_eq_some_iff.mp h
      cases h
      exact RawPcm.moves hs
  | requestStop =>
    have hstep : t = s.mapState .requestStop ∧ out = [] := by
      cases s <;> cases h <;> exact ⟨rfl, rfl⟩
    rw [hstep.1, hstep.2, clip_mapState]
    exact .requestStop
  | stopStatus =>
    have hstep : t = s.mapState .stopStatus ∧ out = [] := by
      cases s <;> cases h <;> exact ⟨rfl, rfl⟩
    rw [hstep.1, hstep.2, clip_mapState]
    exact .stopStatus

end ClipSession

end NodeWebrtc.Player
