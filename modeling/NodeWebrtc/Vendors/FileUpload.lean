import NodeWebrtc.Speech.SttActor
import NodeWebrtc.Vendors.CommitBacklog

/-! # File uploads and their polls

A finalized utterance is uploaded by a task of its own, which sends transcripts on a channel and
ends with a result. A poll looks at the channel, then asks whether the task is finished, and else
waits on the channel. The task may take steps between these: its sender is gone when it ends, and
only after that is it finished. So a poll sees the end in one of two places, and each drops the
upload. A poll may be given up where it waits.

A started backend; the answer of the service is what the task sends and its result.
-/

namespace NodeWebrtc.OpenAi

open Machine (Step run Along)
open SttActor (SttTranscript)

inductive TaskResult where
  | ok
  | failed (message : String)
  | aborted
deriving DecidableEq

def TaskResult.error? : TaskResult → Option String
  | .ok => none
  | .failed message => some message
  | .aborted => some "transcription task aborted"

/-- `poll_rx` and `poll_task`, which are set and dropped together. -/
structure Upload where
  rx : List SttTranscript
  result : Option TaskResult
  finished : Bool
deriving DecidableEq

inductive Phase where
  | idle
  | checking
  | waiting
deriving DecidableEq

structure HttpBackend where
  buffered : List UInt8
  upload : Option Upload
  backlog : Backlog
  phase : Phase
deriving DecidableEq

/-- Calls, the parts of a poll, and the steps of the upload task. -/
inductive UploadInput where
  | pushAudio (pcm : List UInt8)
  /-- With the key of the configuration or the environment. -/
  | finalizeUtterance (apiKey : Except String String)
  | poll
  | check
  | wake
  | cancel
  | sends (transcript : SttTranscript)
  | ends (result : TaskResult)
  | finishes
deriving DecidableEq

inductive UploadEffect where
  | called (result : Except String Unit)
  | polled (result : Except String (Option SttTranscript))
deriving DecidableEq

namespace HttpBackend

def started : HttpBackend := ⟨[], none, .new, .idle⟩

def pushAudio (s : HttpBackend) (pcm : List UInt8) : HttpBackend :=
  if pcm.isEmpty then s
  else
    { s with
      buffered := s.buffered ++ pcm
      backlog := s.backlog.notePushedAudio pcm.length }

def finalizeUtterance (s : HttpBackend) (apiKey : Except String String) :
    HttpBackend × Except String Unit :=
  if s.upload.isSome then (s, .ok ())
  else if s.buffered.length < STT_MIN_BATCH_BYTES then
    ({ s with buffered := [], backlog := s.backlog.clearBacklog }, .ok ())
  else
    let s := { s with buffered := [], backlog := s.backlog.freezeBacklogForCommit }
    match apiKey with
    | .error message => (s, .error message)
    | .ok _ => ({ s with upload := some ⟨[], none, false⟩ }, .ok ())

/-- A transcript taken from the channel; a final drops the upload. -/
def deliver (s : HttpBackend) (u : Upload) (rx : List SttTranscript) :
    SttTranscript → HttpBackend × List UploadEffect
  | .finalText text =>
    ({ s with upload := none, backlog := s.backlog.onFinalDelivered, phase := .idle },
      [.polled (.ok (some (.finalText text)))])
  | .partialText text =>
    ({ s with upload := some { u with rx := rx }, phase := .idle },
      [.polled (.ok (some (.partialText text)))])

def poll (s : HttpBackend) : HttpBackend × List UploadEffect :=
  match s.upload with
  | none => (s, [.polled (.ok none)])
  | some u =>
    match u.rx with
    | transcript :: rx => s.deliver u rx transcript
    | [] => ({ s with phase := .checking }, [])

/-- `is_finished`; a finished task is awaited and its error is returned. -/
def check (s : HttpBackend) (u : Upload) : HttpBackend × List UploadEffect :=
  if u.finished then
    match u.result.bind TaskResult.error? with
    | some message => ({ s with upload := none, phase := .idle }, [.polled (.error message)])
    | none =>
      ({ s with upload := none, backlog := s.backlog.onFinalDelivered, phase := .idle },
        [.polled (.ok none)])
  else ({ s with phase := .waiting }, [])

/-- `recv`; nothing wakes it before there is a transcript or the sender is gone. -/
def wake (s : HttpBackend) (u : Upload) : Option (HttpBackend × List UploadEffect) :=
  match u.rx with
  | transcript :: rx => some (s.deliver u rx transcript)
  | [] =>
    if u.result.isSome then
      some ({ s with upload := none, backlog := s.backlog.onFinalDelivered, phase := .idle },
        [.polled (.ok none)])
    else none

def task (s : HttpBackend) (step : Upload → Option Upload) :
    Option (HttpBackend × List UploadEffect) := do
  let u ← s.upload
  let u ← step u
  some ({ s with upload := some u }, [])

def step : Step HttpBackend UploadInput UploadEffect
  | s, .pushAudio pcm =>
    if s.phase = .idle then some (s.pushAudio pcm, [.called (.ok ())]) else none
  | s, .finalizeUtterance apiKey =>
    if s.phase = .idle then
      some ((s.finalizeUtterance apiKey).1, [.called (s.finalizeUtterance apiKey).2])
    else none
  | s, .poll => if s.phase = .idle then some s.poll else none
  | s, .check => if s.phase = .checking then s.upload.map s.check else none
  | s, .wake => if s.phase = .waiting then s.upload.bind s.wake else none
  | s, .cancel => if s.phase = .idle then none else some ({ s with phase := .idle }, [])
  | s, .sends transcript =>
    s.task fun u => if u.result = none then some { u with rx := u.rx ++ [transcript] } else none
  | s, .ends result =>
    s.task fun u => if u.result = none then some { u with result := some result } else none
  | s, .finishes =>
    s.task fun u => if u.result = none then none else some { u with finished := true }

/-! ## Ends that are seen -/

def sees (s : HttpBackend) (u : Upload) : UploadInput → Prop
  | .check => s.phase = .checking ∧ u.finished = true
  | .wake => s.phase = .waiting ∧ u.rx = [] ∧ u.result ≠ none
  | _ => False

/-- A step returns an error exactly when it sees an upload end with that error, and an end that was
seen leaves no backlog frozen. -/
structure Reported (s : HttpBackend) (i : UploadInput) (t : HttpBackend) (out : List UploadEffect) :
    Prop where
  error : ∀ message, .polled (.error message) ∈ out ↔
    ∃ u, s.upload = some u ∧ s.sees u i ∧ u.result.bind TaskResult.error? = some message
  backlog : ∀ u, s.upload = some u → s.sees u i →
    t.upload = none ∧ t.backlog.commitWaiting = false

def EndsWell (s : HttpBackend) (i : UploadInput) : Prop :=
  ∀ u, s.upload = some u → s.sees u i → u.result = some .ok

/-- An upload in flight has its backlog frozen, and a finished task has a result. -/
structure InFlight (s : HttpBackend) : Prop where
  frozen : s.upload.isSome = true → s.backlog.commitWaiting = true
  result : ∀ u, s.upload = some u → u.finished = true → u.result ≠ none

variable {t : HttpBackend}

theorem inFlight_of_none (h : t.upload = none) : t.InFlight :=
  ⟨by simp [h], by simp [h]⟩

variable {s : HttpBackend} {u : Upload}

theorem InFlight.of_some (h : s.InFlight) {v : Upload} (hu : s.upload = some u)
    (hv : t.upload = some v) (hflag : t.backlog.commitWaiting = s.backlog.commitWaiting)
    (hresult : v.finished = true → v.result ≠ none) : t.InFlight where
  frozen _ := hflag.trans (h.frozen (hu ▸ rfl))
  result w hw hfinished := by
    obtain rfl := Option.some.inj (hv.symm.trans hw)
    exact hresult hfinished

theorem InFlight.pushAudio (h : s.InFlight) (pcm : List UInt8) : (s.pushAudio pcm).InFlight := by
  rw [HttpBackend.pushAudio]
  split
  · exact h
  · exact ⟨fun hu => (Backlog.commitWaiting_notePushedAudio _ _).trans (h.frozen hu), h.result⟩

theorem InFlight.finalizeUtterance (h : s.InFlight) (apiKey : Except String String) :
    (s.finalizeUtterance apiKey).1.InFlight := by
  rw [HttpBackend.finalizeUtterance]
  split
  · exact h
  · next hnone =>
    have hupload : s.upload = none := by simpa using hnone
    split
    · exact inFlight_of_none hupload
    · cases apiKey with
      | error message => exact inFlight_of_none hupload
      | ok key =>
        refine ⟨fun _ => rfl, fun u hu hfinished => ?_⟩
        cases hu
        cases hfinished

theorem InFlight.deliver (h : s.InFlight) (hu : s.upload = some u) (rx : List SttTranscript)
    (transcript : SttTranscript) :
    (s.deliver u rx transcript).1.InFlight := by
  cases transcript with
  | partialText text => exact h.of_some hu rfl rfl (h.result u hu)
  | finalText text => exact inFlight_of_none rfl

variable {out : List UploadEffect}

theorem InFlight.task (h : s.InFlight) {step : Upload → Option Upload}
    (hstep : ∀ u v, step u = some v → (u.finished = true → u.result ≠ none) →
      v.finished = true → v.result ≠ none) (hs : s.task step = some (t, out)) :
    t.InFlight ∧ out = [] := by
  obtain ⟨u, hu, hs⟩ := Option.bind_eq_some_iff.mp hs
  obtain ⟨v, hv, hs⟩ := Option.bind_eq_some_iff.mp hs
  cases hs
  exact ⟨h.of_some hu rfl rfl (hstep u v hv (h.result u hu)), rfl⟩

/-! ## One step -/

variable {i : UploadInput}

theorem reported_of_not_sees (hnot : ∀ u, s.upload = some u → ¬ s.sees u i)
    (hout : ∀ message, .polled (.error message) ∉ out) :
    Reported s i t out ↔ s.EndsWell i := by
  refine iff_of_true ⟨fun message => ?_, fun u hu hsees => absurd hsees (hnot u hu)⟩
    fun u hu hsees => absurd hsees (hnot u hu)
  exact iff_of_false (hout message) fun ⟨u, hu, hsees, _⟩ => hnot u hu hsees

theorem deliver_no_error (s : HttpBackend) (u : Upload) (rx : List SttTranscript)
    (transcript : SttTranscript) (message : String) :
    .polled (.error message) ∉ (s.deliver u rx transcript).2 := by
  cases transcript <;> simp [deliver]

theorem endsWell_iff (hu : s.upload = some u) (hsees : s.sees u i) :
    s.EndsWell i ↔ u.result = some .ok := by
  refine ⟨fun h => h u hu hsees, fun h v hv _ => ?_⟩
  obtain rfl := Option.some.inj (hu.symm.trans hv)
  exact h

theorem error?_eq_none_iff {r : TaskResult} : r.error? = none ↔ r = .ok := by
  cases r <;> simp [TaskResult.error?]

theorem reported_iff_of_sees (hu : s.upload = some u) (hsees : s.sees u i) :
    Reported s i t out ↔
      (∀ message, .polled (.error message) ∈ out ↔
        u.result.bind TaskResult.error? = some message) ∧
      t.upload = none ∧ t.backlog.commitWaiting = false := by
  have herror : ∀ message, (∃ v, s.upload = some v ∧ s.sees v i ∧
      v.result.bind TaskResult.error? = some message) ↔
      u.result.bind TaskResult.error? = some message := by
    intro message
    refine ⟨fun ⟨v, hv, _, h⟩ => ?_, fun h => ⟨u, hu, hsees, h⟩⟩
    obtain rfl := Option.some.inj (hu.symm.trans hv)
    exact h
  refine ⟨fun h => ⟨fun message => (h.error message).trans (herror message), h.backlog u hu hsees⟩,
    fun h => ⟨fun message => (h.1 message).trans (herror message).symm, fun v hv _ => ?_⟩⟩
  exact h.2

theorem check_reported_iff (h : s.InFlight) (hphase : s.phase = .checking) (hu : s.upload = some u)
    :
    Reported s .check (s.check u).1 (s.check u).2 ↔ s.EndsWell .check := by
  rw [check]
  split
  · next hfinished =>
    have hsees : s.sees u .check := ⟨hphase, hfinished⟩
    obtain ⟨result, hresult⟩ := Option.ne_none_iff_exists'.mp (h.result u hu hfinished)
    rw [reported_iff_of_sees hu hsees, endsWell_iff hu hsees, hresult, Option.bind_some,
      Option.some.injEq, ← error?_eq_none_iff]
    cases result.error? with
    | none => simp
    | some message => simp [h.frozen (hu ▸ rfl)]
  · next hrunning =>
    refine reported_of_not_sees (fun v hv hsees => hrunning ?_) (by simp)
    obtain rfl := Option.some.inj (hu.symm.trans hv)
    exact hsees.2

theorem wake_reported_iff (hphase : s.phase = .waiting) (hu : s.upload = some u)
    (hs : s.wake u = some (t, out)) : Reported s .wake t out ↔ s.EndsWell .wake := by
  rw [wake] at hs
  cases hrx : u.rx with rw [hrx] at hs
  | cons transcript rx =>
    have hout : (s.deliver u rx transcript).2 = out := congrArg Prod.snd (Option.some.inj hs)
    refine reported_of_not_sees (fun v hv hsees => ?_) (hout ▸ deliver_no_error s u rx transcript)
    obtain rfl := Option.some.inj (hu.symm.trans hv)
    exact List.cons_ne_nil _ _ (hrx.symm.trans hsees.2.1)
  | nil =>
    obtain ⟨hended, hs⟩ := Option.ite_none_right_eq_some.mp hs
    obtain ⟨result, hresult⟩ := Option.isSome_iff_exists.mp hended
    have hsees : s.sees u .wake := ⟨hphase, hrx, by simp [hresult]⟩
    cases hs
    rw [reported_iff_of_sees hu hsees, endsWell_iff hu hsees, hresult, Option.bind_some,
      Option.some.injEq, ← error?_eq_none_iff]
    cases result.error? <;> simp

theorem InFlight.poll (h : s.InFlight) : s.poll.1.InFlight := by
  rw [HttpBackend.poll]
  cases hu : s.upload with
  | none => exact h
  | some u =>
    dsimp only
    split
    · exact h.deliver hu _ _
    · exact h.of_some hu rfl rfl (h.result u hu)

theorem poll_no_error (s : HttpBackend) (message : String) :
    .polled (.error message) ∉ s.poll.2 := by
  rw [poll]
  cases s.upload with
  | none => simp
  | some u =>
    dsimp only
    split
    · exact deliver_no_error s u _ _ message
    · simp

theorem InFlight.check (h : s.InFlight) (hu : s.upload = some u) : (s.check u).1.InFlight := by
  rw [HttpBackend.check]
  split
  · split <;> exact inFlight_of_none rfl
  · exact h.of_some hu hu rfl (h.result u hu)

theorem InFlight.wake (h : s.InFlight) (hu : s.upload = some u) (hs : s.wake u = some (t, out)) :
    t.InFlight := by
  rw [HttpBackend.wake] at hs
  split at hs
  · have ht : (s.deliver u _ _).1 = t := congrArg Prod.fst (Option.some.inj hs)
    exact ht ▸ h.deliver hu _ _
  · obtain ⟨-, hs⟩ := Option.ite_none_right_eq_some.mp hs
    cases hs
    exact inFlight_of_none rfl

theorem step_spec (h : s.InFlight) (hs : step s i = some (t, out)) :
    t.InFlight ∧ (Reported s i t out ↔ s.EndsWell i) := by
  cases i with
  | pushAudio pcm =>
    obtain ⟨-, hs⟩ := Option.ite_none_right_eq_some.mp hs
    cases hs
    exact ⟨h.pushAudio pcm, reported_of_not_sees (fun _ _ => id) (by simp)⟩
  | finalizeUtterance apiKey =>
    obtain ⟨-, hs⟩ := Option.ite_none_right_eq_some.mp hs
    cases hs
    exact ⟨h.finalizeUtterance apiKey, reported_of_not_sees (fun _ _ => id) (by simp)⟩
  | poll =>
    obtain ⟨-, hs⟩ := Option.ite_none_right_eq_some.mp hs
    obtain ⟨rfl, rfl⟩ : s.poll.1 = t ∧ s.poll.2 = out := Prod.mk.inj (Option.some.inj hs)
    exact ⟨h.poll, reported_of_not_sees (fun _ _ => id) s.poll_no_error⟩
  | check =>
    obtain ⟨hphase, hs⟩ := Option.ite_none_right_eq_some.mp hs
    obtain ⟨u, hu, hs⟩ := Option.map_eq_some_iff.mp hs
    obtain ⟨rfl, rfl⟩ : (s.check u).1 = t ∧ (s.check u).2 = out := Prod.mk.inj hs
    exact ⟨h.check hu, check_reported_iff h hphase hu⟩
  | wake =>
    obtain ⟨hphase, hs⟩ := Option.ite_none_right_eq_some.mp hs
    obtain ⟨u, hu, hs⟩ := Option.bind_eq_some_iff.mp hs
    exact ⟨h.wake hu hs, wake_reported_iff hphase hu hs⟩
  | cancel =>
    obtain ⟨-, hs⟩ := Option.ite_none_left_eq_some.mp hs
    cases hs
    exact ⟨⟨h.frozen, h.result⟩, reported_of_not_sees (fun _ _ => id) (by simp)⟩
  | sends transcript =>
    obtain ⟨ht, rfl⟩ := h.task (fun u v hv hu => by
      obtain ⟨-, hv⟩ := Option.ite_none_right_eq_some.mp hv
      cases hv
      exact hu) hs
    exact ⟨ht, reported_of_not_sees (fun _ _ => id) (by simp)⟩
  | ends result =>
    obtain ⟨ht, rfl⟩ := h.task (fun u v hv _ _ => by
      obtain ⟨-, hv⟩ := Option.ite_none_right_eq_some.mp hv
      cases hv
      exact Option.some_ne_none result) hs
    exact ⟨ht, reported_of_not_sees (fun _ _ => id) (by simp)⟩
  | finishes =>
    obtain ⟨ht, rfl⟩ := h.task (fun u v hv _ _ => by
      obtain ⟨hresult, hv⟩ := Option.ite_none_left_eq_some.mp hv
      cases hv
      exact hresult) hs
    exact ⟨ht, reported_of_not_sees (fun _ _ => id) (by simp)⟩

/-! ## Runs -/

/-- Polls of an upload whose task is finished do not wait: one takes what is queued, or sees the
end. -/
theorem poll_of_finished (hphase : s.phase = .idle) (hu : s.upload = some u)
    (hfinished : u.finished = true) :
    (∃ transcript rx, u.rx = transcript :: rx ∧
      step s .poll = some (s.deliver u rx transcript)) ∨
    ∃ t, step s .poll = some (t, []) ∧ t.upload = some u ∧ t.sees u .check := by
  have hpoll : step s .poll = some s.poll := if_pos hphase
  cases hrx : u.rx with
  | cons transcript rx =>
    have hdeliver : s.poll = s.deliver u rx transcript := by
      rw [poll, hu]
      dsimp only
      rw [hrx]
    exact .inl ⟨transcript, rx, rfl, hdeliver ▸ hpoll⟩
  | nil =>
    have hempty : s.poll = ({ s with phase := .checking }, []) := by
      rw [poll, hu]
      dsimp only
      rw [hrx]
    exact .inr ⟨{ s with phase := .checking }, hempty ▸ hpoll, hu, rfl, hfinished⟩

theorem inFlight_started : started.InFlight := inFlight_of_none rfl

/-- Along a run every end is reported, once and with its own error or as no error, and leaves no
backlog frozen, exactly when every end that a poll sees is one without an error. And the polls of a
finished task come to its end. -/
theorem reported_iff {is : List UploadInput} {s : HttpBackend} {os : List UploadEffect}
    (hr : run step started is = some (s, os)) :
    ((∀ pre i t out v es, pre ++ [i] <+: is → run step started pre = some (t, out) →
        step t i = some (v, es) → Reported t i v es) ↔ Along step EndsWell started is) ∧
    ∀ (t : HttpBackend) (u : Upload), t.phase = .idle → t.upload = some u → u.finished = true →
      (∃ transcript rx, u.rx = transcript :: rx ∧
        step t .poll = some (t.deliver u rx transcript)) ∨
      ∃ v, step t .poll = some (v, []) ∧ v.upload = some u ∧ v.sees u .check := by
  refine ⟨?_, fun t u => poll_of_finished⟩
  refine Machine.steps_iff_of_run (J := fun _ s => s.InFlight)
    (P := fun _ s i es t => Reported s i t es) (fun _ s i t out h hs => ?_)
    [] inFlight_started hr
  obtain ⟨hkeep, hiff⟩ := step_spec h hs
  exact ⟨hiff, fun _ => hkeep⟩

theorem reported_iff_oneUpload :
    ((∀ pre i t out v es, pre ++ [i] <+:
          [.pushAudio (List.replicate 3200 0), .finalizeUtterance (.ok "key")] →
        run step started pre = some (t, out) → step t i = some (v, es) → Reported t i v es) ↔
      Along step EndsWell started
        [.pushAudio (List.replicate 3200 0), .finalizeUtterance (.ok "key")]) ∧
    ∀ (t : HttpBackend) (u : Upload), t.phase = .idle → t.upload = some u → u.finished = true →
      (∃ transcript rx, u.rx = transcript :: rx ∧
        step t .poll = some (t.deliver u rx transcript)) ∨
      ∃ v, step t .poll = some (v, []) ∧ v.upload = some u ∧ v.sees u .check :=
  reported_iff (s := ⟨[], some ⟨[], none, false⟩, ⟨0, 100, true⟩, .idle⟩)
    (show _ = some (_, [.called (.ok ()), .called (.ok ())]) by decide +kernel)

/-- The error of a task that ends while a poll waits is lost; that of a task that was finished
before is returned, with the backlog still frozen. -/
theorem not_reported :
    ((run step started
        [.pushAudio (List.replicate 3200 0), .finalizeUtterance (.ok "key"), .poll, .check,
          .ends (.failed "boom"), .wake]).map
        fun p => (p.2.getLast?, p.1.backlog.decodeBacklogMs)) = some (some (.polled (.ok none)), 0) ∧
      ((run step started
        [.pushAudio (List.replicate 3200 0), .finalizeUtterance (.ok "key"),
          .ends (.failed "boom"), .finishes, .poll, .check]).map
        fun p => (p.2.getLast?, p.1.backlog.decodeBacklogMs)) =
          some (some (.polled (.error "boom")), 100) := by
  decide +kernel

end HttpBackend

end NodeWebrtc.OpenAi
