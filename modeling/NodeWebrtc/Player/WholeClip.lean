import NodeWebrtc.Player.Session

/-! # Progressive playback of a whole clip

What `decode_growing` has enqueued and what its source still holds unread make up the whole
clip in every state. So the growing run enqueues what a static run over the same bytes does
exactly when `decode_growing` leaves nothing unread: neither at its return nor through bytes
that arrive after it.
-/

namespace NodeWebrtc.Player

open Machine

variable {S : Symphonia}

/-! ## What a thread has read and not enqueued -/

def GrowingPhase.session? : GrowingPhase → Option DecoderSession
  | .openLoop | .pollEof | .pollBytes | .emptyCheck | .snapshot | .opening _ | .refused _ => none
  | .opened d _ | .measure d | .loop d _ | .pass d _ _ _ | .enqueue d _ _ | .preroll d _ _
  | .endCheck d _ _ | .passFailed d _ _ | .stopCheck d _ | .eofBreak d _ | .waiting d _
  | .woken d => some d
  | .returned d _ => d

def EnqueueStep.pending : EnqueueStep → List UInt8
  | .push pcm => pcm
  | .credit _ | .transition => []

def GrowingPhase.pending : GrowingPhase → List UInt8
  | .pass _ _ pcmOut _ => pcmOut
  | .enqueue _ _ e => e.pending
  | _ => []

def GrowingPhase.hasReturned : GrowingPhase → Bool
  | .returned _ _ => true
  | _ => false

def wholePcm (S : Symphonia) (data : List UInt8) : List UInt8 :=
  match DecoderSession.open S data (hintFromBytes data) with
  | .ok (d, _) => available S data d
  | .error _ => []

/-- The PCM a further pass over the source would yield. -/
def unread (S : Symphonia) (data : List UInt8) (phase : GrowingPhase) : List UInt8 :=
  match phase.session? with
  | some d => available S data d
  | none => wholePcm S data

/-- The thread is at a check that makes `decode_growing` return. -/
def Growing.leaves (s : Growing) : Bool :=
  match s.phase with
  | .openLoop | .loop _ _ | .stopCheck _ _ | .woken _ => s.state.stopRequested
  | .emptyCheck => s.eof && s.data.isEmpty
  | .refused _ | .passFailed _ _ _ | .eofBreak _ _ => s.eof
  | .preroll _ _ _ => prerollMs ≤ s.state.bufferedMs
  | .endCheck _ _ hadPcm => s.eof && !hadPcm
  | _ => false

/-- `decode_growing` does not leave PCM behind: it returns only when nothing is unread, and no
bytes that arrive after it has returned complete a packet with PCM. -/
def KeepsUp (S : Symphonia) (s : Growing) : Input → Prop
  | .decode => s.leaves = true → unread S s.data s.phase = []
  | .append chunk => s.phase.hasReturned = true → unread S (s.data ++ chunk) s.phase = []
  | .markEof | .takeFrame | .stop => True

/-! ## Opening -/

variable {data : List UInt8} {hint : Option String}

theorem InOrder.wholePcm_eq (hS : InOrder S) {d : DecoderSession} {dur : Option Nat}
    (h : DecoderSession.open S data hint = .ok (d, dur)) :
    wholePcm S data = available S data d := by
  obtain ⟨dur', hopen⟩ := hS.open_append h [] (hintFromBytes data)
  rw [List.append_nil] at hopen
  rw [wholePcm, hopen]

theorem InOrder.wholePcm_refused (hS : InOrder S) {err : PlayerError}
    (h : DecoderSession.open S data hint = .error err) : wholePcm S data = [] := by
  rw [wholePcm]
  split
  next d dur hopen =>
    obtain ⟨dur', hopen'⟩ := hS.open_append hopen [] hint
    rw [List.append_nil, h] at hopen'
    cases hopen'
  next => rfl

theorem InOrder.unread_prefix (hS : InOrder S) (data more : List UInt8) (phase : GrowingPhase) :
    unread S data phase <+: unread S (data ++ more) phase := by
  rw [unread, unread]
  cases phase.session? with
  | some d => exact hS.available_prefix data more d
  | none =>
    simp only
    rw [wholePcm]
    split
    next d dur hopen =>
      obtain ⟨dur', hopen'⟩ := hS.open_append hopen more (hintFromBytes data)
      rw [hS.wholePcm_eq hopen']
      exact hS.available_prefix data more d
    next => exact List.nil_prefix

/-! ## One step of the growing thread -/

theorem InOrder.passRound_cases (hS : InOrder S) (data : List UInt8) (d : DecoderSession)
    (pcmOut : List UInt8) (packets : Nat) :
    (∃ d' pcm, fetch S data d = .packet d' pcm ∧
      passRound S data d pcmOut packets = .next d' (pcmOut ++ pcm) (packets + 1)) ∨
    (fetch S data d = .unexpectedEof d ∧ passRound S data d pcmOut packets = .ended d (.ok pcmOut)) := by
  rcases hS.fetch_cases data d with ⟨d', pcm, hf⟩ | hf
  · exact Or.inl ⟨d', pcm, hf, by rw [passRound, hf]⟩
  · exact Or.inr ⟨hf, by rw [passRound, hf]⟩

/-- What a step of the decode thread does to the session and to the PCM of the pass: PCM moves
from the pass to the queue, the clip opens, or a packet is read. -/
inductive DecodeEffect (S : Symphonia) (s t : Growing) (out : List Output) : Prop
  | moved (hd : t.phase.session? = s.phase.session?)
      (hp : enqueuedPcm out ++ t.phase.pending = s.phase.pending)
  | opened (d : DecoderSession) (hint : Option String) (dur : Option Nat)
      (hs : s.phase.session? = none) (hsp : s.phase.pending = [])
      (hopen : DecoderSession.open S s.data hint = .ok (d, dur))
      (ht : t.phase.session? = some d) (htp : enqueuedPcm out ++ t.phase.pending = [])
  | read (d d' : DecoderSession) (pcm : List UInt8) (hs : s.phase.session? = some d)
      (hf : fetch S s.data d = .packet d' pcm) (ht : t.phase.session? = some d')
      (hp : enqueuedPcm out ++ t.phase.pending = s.phase.pending ++ pcm)

variable {s t : Growing} {out : List Output}

theorem goto_eq {phase : GrowingPhase} (h : s.goto phase = some (t, out)) :
    t = { s with phase } ∧ out = [] := by
  cases h
  exact ⟨rfl, rfl⟩

private theorem moved_of_goto {before phase : GrowingPhase} (hph : s.phase = before)
    (h : s.goto phase = some (t, out)) (hd : phase.session? = before.session?)
    (hp : phase.pending = before.pending) :
    t.data = s.data ∧ DecodeEffect S s t out := by
  obtain ⟨rfl, rfl⟩ := goto_eq h
  rw [← hph] at hd hp
  exact ⟨rfl, .moved hd hp⟩

theorem InOrder.decode_effect (hS : InOrder S) (h : s.decode S = some (t, out)) :
    t.data = s.data ∧ DecodeEffect S s t out := by
  rw [Growing.decode] at h
  cases hph : s.phase with rw [hph] at h
  | opening hint =>
    simp only at h
    split at h
    next d dur hopen =>
      obtain ⟨rfl, rfl⟩ := goto_eq h
      exact ⟨rfl, .opened d hint dur (by rw [hph]; rfl) (by rw [hph]; rfl) hopen rfl rfl⟩
    next => exact moved_of_goto hph h rfl rfl
  | opened d dur =>
    cases dur with
    | some dur =>
      cases h
      exact ⟨rfl, .moved (by rw [hph]; rfl) (by rw [hph]; rfl)⟩
    | none => exact moved_of_goto hph h rfl rfl
  | pass d prevLen pcmOut packets =>
    simp only at h
    rcases hS.passRound_cases s.data d pcmOut packets with ⟨d', pcm, hf, hround⟩ | ⟨-, hround⟩
    · rw [hround] at h
      obtain ⟨rfl, rfl⟩ := goto_eq h
      exact ⟨rfl, .read d d' pcm (by rw [hph]; rfl) hf rfl (by rw [hph]; rfl)⟩
    · rw [hround] at h
      simp only at h
      split_ifs at h with hpcm
      · exact moved_of_goto hph h rfl hpcm.symm
      · exact moved_of_goto hph h rfl rfl
  | enqueue d prevLen e =>
    cases e with
    | push pcm =>
      cases h
      refine ⟨rfl, .moved (by rw [hph]; rfl) ?_⟩
      rw [hph]
      simp [enqueuedPcm, GrowingPhase.pending, EnqueueStep.pending]
    | credit addedMs | transition =>
      cases h
      exact ⟨rfl, .moved (by rw [hph]; rfl) (by rw [hph]; rfl)⟩
  | returned d e =>
    obtain ⟨p, -, hp⟩ := Option.map_eq_some_iff.mp h
    cases hp
    exact ⟨rfl, .moved (by rw [hph]; rfl) (by rw [hph]; rfl)⟩
  | snapshot | measure =>
    exact moved_of_goto hph h rfl rfl
  | waiting d prevLen =>
    simp only at h
    split_ifs at h <;> exact moved_of_goto hph h rfl rfl
  | _ =>
    simp only at h
    split_ifs at h <;> exact moved_of_goto hph h rfl rfl

/-- A step of the decode thread is in `decode_growing` no longer when it was not before, or
when it was at a check that returns; the decoder session is the one it had. -/
theorem decode_returned (h : s.decode S = some (t, out)) :
    (t.phase.hasReturned = true ↔ s.phase.hasReturned = true ∨ s.leaves = true) ∧
      (t.phase.hasReturned = true → t.phase.session? = s.phase.session?) := by
  rw [Growing.decode] at h
  cases hph : s.phase with rw [hph] at h
  | opening hint =>
    simp only at h
    split at h <;> cases h <;> simp [Growing.leaves, hph, GrowingPhase.hasReturned]
  | opened d dur =>
    cases dur <;> cases h <;> simp [Growing.leaves, hph, GrowingPhase.hasReturned]
  | pass d prevLen pcmOut packets =>
    simp only at h
    split at h
    next => cases h; simp [Growing.leaves, hph, GrowingPhase.hasReturned]
    next => split_ifs at h <;> cases h <;> simp [Growing.leaves, hph, GrowingPhase.hasReturned]
    next => cases h; simp [Growing.leaves, hph, GrowingPhase.hasReturned]
  | enqueue d prevLen e =>
    cases e <;> cases h <;> simp [Growing.leaves, hph, GrowingPhase.hasReturned]
  | returned d e =>
    obtain ⟨p, -, hp⟩ := Option.map_eq_some_iff.mp h
    cases hp
    simp [GrowingPhase.hasReturned, GrowingPhase.session?]
  | snapshot | measure =>
    cases h
    simp [Growing.leaves, hph, GrowingPhase.hasReturned]
  | waiting d prevLen =>
    simp only at h
    split_ifs at h <;> cases h <;> simp [Growing.leaves, hph, GrowingPhase.hasReturned]
  | _ =>
    simp only at h
    split_ifs at h with hc <;> cases h <;>
      simp [Growing.leaves, hph, GrowingPhase.hasReturned, GrowingPhase.session?] at hc ⊢ <;>
      assumption

/-! ## Runs of the growing thread -/

/-- What is enqueued and what the pass holds is what the decoder session has read of the clip. -/
def HasRead (S : Symphonia) (pcm : List UInt8) (s : Growing) : Prop :=
  match s.phase.session? with
  | none => pcm ++ s.phase.pending = []
  | some d => ∃ d0 hint dur, DecoderSession.open S s.data hint = .ok (d0, dur) ∧
      Reads S s.data d0 (pcm ++ s.phase.pending) d

variable {pcm : List UInt8}

theorem InOrder.hasRead_append (hS : InOrder S) (h : HasRead S pcm s) (chunk : List UInt8) :
    HasRead S pcm { s with data := s.data ++ chunk } := by
  rw [HasRead] at h ⊢
  cases hd : s.phase.session? with
  | none => rwa [hd] at h
  | some d =>
    rw [hd] at h
    obtain ⟨d0, hint, dur, hopen, hreads⟩ := h
    obtain ⟨dur', hopen'⟩ := hS.open_append hopen chunk hint
    exact ⟨d0, hint, dur', hopen', hreads.append hS chunk⟩

theorem InOrder.hasRead_decode (hS : InOrder S) (h : HasRead S pcm s)
    (hs : s.decode S = some (t, out)) :
    HasRead S (pcm ++ enqueuedPcm out) t := by
  obtain ⟨hdata, heffect⟩ := hS.decode_effect hs
  rw [HasRead] at h ⊢
  rw [hdata, List.append_assoc]
  cases heffect with
  | moved hd hp => rwa [hd, hp]
  | opened d hint dur hsd hsp hopen ht htp =>
    rw [hsd] at h
    rw [ht, htp]
    simp only [hsp] at h ⊢
    rw [h]
    exact ⟨d, hint, dur, hopen, .refl⟩
  | read d d' pcm' hsd hf ht hp =>
    rw [hsd] at h
    rw [ht, hp, ← List.append_assoc]
    obtain ⟨d0, hint, dur, hopen, hreads⟩ := h
    exact ⟨d0, hint, dur, hopen, hreads.packet hf⟩

@[simp] theorem enqueuedPcm_frameOutput (frame : Option (List UInt8)) :
    enqueuedPcm (frameOutput frame) = [] := by
  cases frame <;> rfl

variable {is : List Input} {os : List Output}

theorem InOrder.hasRead_run (hS : InOrder S) (hr : run (Growing.step S) .start is = some (t, os)) :
    HasRead S (enqueuedPcm os) t := by
  refine run_history (C := fun _ _ => True) (I := fun _ os s => HasRead S (enqueuedPcm os) s) ?_
    (show HasRead S [] .start from rfl)
    (along_of_forall_mem (P := fun _ => True) (fun _ _ => trivial) _) hr
  intro _ os s i t out h _ hs
  rw [enqueuedPcm_append]
  cases i with
  | append chunk =>
    cases hs
    rw [enqueuedPcm, List.append_nil]
    exact hS.hasRead_append h chunk
  | markEof | stop => cases hs; rwa [enqueuedPcm, List.append_nil]
  | takeFrame => cases hs; rwa [enqueuedPcm_frameOutput, List.append_nil]
  | decode => exact hS.hasRead_decode h hs

theorem InOrder.enqueued_unread (hS : InOrder S) (h : HasRead S pcm s)
    (hret : s.phase.hasReturned = true) :
    wholePcm S s.data = pcm ++ unread S s.data s.phase := by
  have hpending : s.phase.pending = [] := by
    cases hph : s.phase <;> rw [hph] at hret <;> first | rfl | cases hret
  rw [HasRead, hpending, List.append_nil] at h
  rw [unread]
  cases hd : s.phase.session? with rw [hd] at h
  | none =>
    rw [h, List.nil_append]
  | some d =>
    obtain ⟨d0, hint, dur, hopen, hreads⟩ := h
    rw [hS.wholePcm_eq hopen, hreads.available_eq hS]

theorem InOrder.returned_run (hS : InOrder S) (hret : s.phase.hasReturned = true)
    (hr : run (Growing.step S) s is = some (t, os)) :
    t.phase.session? = s.phase.session? ∧ s.data <+: t.data := by
  have hkeeps : t.phase.hasReturned = true ∧ t.phase.session? = s.phase.session? ∧
      s.data <+: t.data := by
    refine run_invariant (C := fun _ _ => True) (I := fun t => t.phase.hasReturned = true ∧
      t.phase.session? = s.phase.session? ∧ s.data <+: t.data) ?_ ⟨hret, rfl, List.prefix_rfl⟩
      (along_of_forall_mem (P := fun _ => True) (fun _ _ => trivial) _) hr
    intro u i v out hu _ hs
    obtain ⟨huret, hud, hdata⟩ := hu
    cases i with
    | append chunk =>
      cases hs
      exact ⟨huret, hud, hdata.trans (List.prefix_append _ _)⟩
    | markEof | takeFrame | stop => cases hs; exact ⟨huret, hud, hdata⟩
    | decode =>
      obtain ⟨hiff, hsame⟩ := decode_returned hs
      have hvret := hiff.mpr (Or.inl huret)
      exact ⟨hvret, (hsame hvret).trans hud, (hS.decode_effect hs).1 ▸ hdata⟩
  exact hkeeps.2

theorem InOrder.unread_iff_keepsUp (hS : InOrder S)
    (hr : run (Growing.step S) .start is = some (t, os)) (hret : t.phase.hasReturned = true) :
    unread S t.data t.phase = [] ↔ Along (Growing.step S) (KeepsUp S) .start is := by
  rw [← prefix_invariant_iff_of_run (J := fun _ => True)
    (P := fun s => s.phase.hasReturned = true → unread S s.data s.phase = []) ?_ trivial
    (fun h => by cases h) hr]
  · constructor
    · intro h pre s os' hpre hrun hsret
      obtain ⟨rest, rfl⟩ := hpre
      obtain ⟨s', first, second, hfirst, hrest, -⟩ := run_append_eq_some.mp hr
      simp only [hrun] at hfirst
      cases hfirst
      obtain ⟨hsession, more, hmore⟩ := hS.returned_run hsret hrest
      have hle := hS.unread_prefix s.data more s.phase
      rw [hmore] at hle
      rw [unread, hsession, ← unread] at h
      rw [h] at hle
      exact List.prefix_nil.mp hle
    · intro h
      exact h is t os List.prefix_rfl hr hret
  · intro s i t out _ hs hstep
    refine ⟨trivial, ?_⟩
    cases i with
    | append chunk => cases hstep; exact Iff.rfl
    | markEof | takeFrame | stop => cases hstep; exact ⟨fun _ => trivial, fun _ => hs⟩
    | decode =>
      obtain ⟨hiff, hsame⟩ := decode_returned hstep
      have hunread : t.phase.hasReturned = true →
          unread S t.data t.phase = unread S s.data s.phase := by
        intro htret
        rw [unread, unread, (hS.decode_effect hstep).1, hsame htret]
      constructor
      · intro h hleaves
        have htret := hiff.mpr (Or.inr hleaves)
        rw [← hunread htret]
        exact h htret
      · intro h htret
        rw [hunread htret]
        rcases hiff.mp htret with hsret | hleaves
        · exact hs hsret
        · exact h hleaves

/-! ## Runs of the static thread -/

def StaticPhase.hasReturned : StaticPhase → Bool
  | .returned _ => true
  | _ => false

/-- The session has read these bytes of the clip, from its first packet on. -/
def ReadFrom (S : Symphonia) (data pcm : List UInt8) (d : DecoderSession) : Prop :=
  ∃ d0 hint dur, DecoderSession.open S data hint = .ok (d0, dur) ∧ Reads S data d0 pcm d

/-- What a static thread has enqueued: what its passes read, and the whole clip once a pass
has ended. -/
def StaticRead (S : Symphonia) (data pcm : List UInt8) (s : Static) : Prop :=
  s.data = data ∧ s.state.stopRequested = false ∧
    match s.phase with
    | .opening _ => pcm = []
    | .opened d _ | .loop d => ReadFrom S data pcm d
    | .pass d pcmOut _ => ReadFrom S data (pcm ++ pcmOut) d
    | .enqueue d e => ReadFrom S data (pcm ++ e.pending) d ∧ pcm ++ e.pending = wholePcm S data
    | .preroll d _ => ReadFrom S data pcm d ∧ pcm = wholePcm S data
    | .returned _ => pcm = wholePcm S data

theorem InOrder.read_whole (hS : InOrder S) {d : DecoderSession} (h : ReadFrom S data pcm d)
    (hf : fetch S data d = .unexpectedEof d) :
    pcm = wholePcm S data := by
  obtain ⟨d0, hint, dur, hopen, hreads⟩ := h
  rw [hS.wholePcm_eq hopen, hreads.available_eq hS, available_caught_up hf, List.append_nil]

theorem tryTransition_stopRequested (st : SessionState) :
    (tryTransitionToPlaying st).stopRequested = st.stopRequested := by
  rw [tryTransitionToPlaying]
  split_ifs <;> rfl

theorem InOrder.staticRead_decode (hS : InOrder S) {s t : Static} (h : StaticRead S data pcm s)
    (hs : s.decode S = some (t, out)) :
    StaticRead S data (pcm ++ enqueuedPcm out) t := by
  obtain ⟨rfl, hstop, h⟩ := h
  rw [Static.decode] at hs
  cases hph : s.phase with rw [hph] at h hs
  | opening hint =>
    simp only at h hs
    split at hs
    next d dur hopen =>
      cases hs
      refine ⟨rfl, hstop, d, hint, dur, hopen, ?_⟩
      rw [h]
      exact .refl
    next err hopen =>
      cases hs
      refine ⟨rfl, hstop, ?_⟩
      rw [h, hS.wholePcm_refused hopen]
      rfl
  | opened d dur =>
    cases dur <;> cases hs <;> exact ⟨rfl, hstop, by rwa [enqueuedPcm, List.append_nil]⟩
  | loop d =>
    simp only [hstop] at h hs
    cases hs
    refine ⟨rfl, hstop, ?_⟩
    simp only [enqueuedPcm, List.append_nil]
    exact h
  | pass d pcmOut packets =>
    simp only at h hs
    rcases hS.passRound_cases s.data d pcmOut packets with ⟨d', pcm', hf, hround⟩ | ⟨hf, hround⟩
    · rw [hround] at hs
      cases hs
      obtain ⟨d0, hint, dur, hopen, hreads⟩ := h
      refine ⟨rfl, hstop, d0, hint, dur, hopen, ?_⟩
      simp only [enqueuedPcm, List.append_nil, ← List.append_assoc]
      exact hreads.packet hf
    · rw [hround] at hs
      have hwhole := hS.read_whole h hf
      simp only at hs
      split_ifs at hs with hpcm <;> cases hs
      · rw [hpcm, List.append_nil] at h hwhole
        refine ⟨rfl, hstop, ?_⟩
        simp only [enqueuedPcm, List.append_nil]
        exact ⟨h, hwhole⟩
      · refine ⟨rfl, hstop, ?_⟩
        simp only [enqueuedPcm, List.append_nil]
        exact ⟨h, hwhole⟩
  | enqueue d e =>
    cases e with
    | push pcm' | credit addedMs =>
      cases hs
      refine ⟨rfl, hstop, ?_⟩
      simpa [enqueuedPcm, EnqueueStep.pending] using h
    | transition =>
      cases hs
      refine ⟨rfl, (tryTransition_stopRequested s.state).trans hstop, ?_⟩
      simpa [enqueuedPcm, EnqueueStep.pending] using h
  | preroll d hadPcm =>
    simp only at h hs
    split_ifs at hs <;> cases hs <;> refine ⟨rfl, hstop, ?_⟩ <;>
      simp only [enqueuedPcm, List.append_nil]
    · exact h.2
    · exact h.2
    · exact h.1
  | returned e =>
    obtain ⟨⟨state, e'⟩, hend, hp⟩ := Option.map_eq_some_iff.mp hs
    cases hp
    refine ⟨rfl, ?_, by simpa [enqueuedPcm] using h⟩
    rw [← hstop]
    cases e with
    | result err => cases err <;> cases hend <;> rfl
    | storeDone => cases hend; rfl
    | settle => cases hend; exact tryTransition_stopRequested s.state
    | exited => cases hend

theorem takeFrame_stopRequested (st : SessionState) :
    st.takeFrame.1.stopRequested = st.stopRequested := by
  rw [SessionState.takeFrame]
  by_cases hplaying : st.status ≠ .playing
  · rw [if_pos hplaying]
  · rw [if_neg hplaying]
    cases popFrameBytes st.pcmQueue with
    | some p => rfl
    | none => cases st.decodeDone <;> simp

theorem InOrder.static_whole (hS : InOrder S) {t : Static} (hstop : .stop ∉ is)
    (hr : run (Static.step S) (.start data hint) is = some (t, os))
    (hret : t.phase.hasReturned = true) : enqueuedPcm os = wholePcm S data := by
  have hread : StaticRead S data (enqueuedPcm os) t := by
    refine run_history (C := fun _ i => i ≠ .stop)
      (I := fun _ os s => StaticRead S data (enqueuedPcm os) s) ?_ ⟨rfl, rfl, rfl⟩
      (along_of_forall_mem (fun i hi => ne_of_mem_of_not_mem hi hstop) _) hr
    intro _ os s i u out h hi hs
    rw [enqueuedPcm_append]
    cases i with
    | append | markEof => cases hs
    | takeFrame =>
      cases hs
      obtain ⟨hdata, hnostop, hphase⟩ := h
      rw [enqueuedPcm_frameOutput, List.append_nil]
      exact ⟨hdata, (takeFrame_stopRequested s.state).trans hnostop, hphase⟩
    | stop => exact absurd rfl hi
    | decode => exact hS.staticRead_decode h hs
  obtain ⟨-, -, h⟩ := hread
  cases hph : t.phase with
  | returned e => rwa [hph] at h
  | _ => rw [hph] at hret; cases hret

/-! ## The thread returns -/

/-! ## The whole clip -/

/-- An index of sixteen bytes, and then a packet for each byte. -/
def beeps (pcm : List UInt8) : Symphonia where
  probe bytes _ := if 16 ≤ bytes.length then .ok [⟨1, 1, none, none⟩] else .error "unknown format"
  make _ := .ok ()
  nextPacket bytes n := if 16 + n < bytes.length then .ok ⟨1, []⟩ else .error .unexpectedEof
  decode _ _ := .ok pcm
  nextPacket_lt {bytes n packet} h := by
    split_ifs at h with hlt
    omega

theorem beeps_inOrder (pcm : List UInt8) : InOrder (beeps pcm) where
  probe_append {bytes hint tracks} h more hint' := by
    simp only [beeps] at h ⊢
    split_ifs at h with hle
    rw [if_pos (by rw [List.length_append]; omega)]
    exact ⟨tracks, h, rfl⟩
  nextPacket_append {bytes n packet} h more := by
    simp only [beeps] at h ⊢
    split_ifs at h with hlt
    rw [if_pos (by rw [List.length_append]; omega)]
    exact h
  caught_up {bytes n err} h := by
    simp only [beeps] at h
    split_ifs at h
    cases h
    rfl
  decodes {bytes n packet} _ fed := ⟨pcm, rfl⟩

def movieIndex : List UInt8 := [0, 0, 0, 8] ++ ftyp ++ [0, 0, 0, 8] ++ moov

theorem movieIndex_ready : decodeReady (movieIndex ++ [1]) false = true := by
  have hprobe : probeMp4Layout (movieIndex ++ [1]) = .moovAvailable := by
    simp [probeMp4Layout, scanBoxes, readU32Be, readBoxType, movieIndex, ftyp, moov, mdat,
      SeenBoxes.layout]
  rw [decodeReady, mp4ReadyForDecode, hprobe]
  rfl

/-- The clip arrives in two parts; the thread runs in between. -/
def twoParts : List Input :=
  ([.append (movieIndex ++ [1]), .decode, .decode] ++ [.decode]) ++
    (List.replicate 11 .decode ++ ([.decode] ++ [.append [2], .markEof]))

/-- All of the clip is there before the thread looks. -/
def onePart : List Input :=
  [.append (movieIndex ++ [1, 2]), .markEof, .takeFrame] ++ List.replicate 18 .decode

theorem tryTransition_bufferedMs (st : SessionState) :
    (tryTransitionToPlaying st).bufferedMs = st.bufferedMs := by
  rw [tryTransitionToPlaying]
  split_ifs <;> rfl

theorem beeps_ready (pcm : List UInt8) :
    run (Growing.step (beeps pcm)) .start ([.append (movieIndex ++ [1]), .decode, .decode] ++ [.decode]) =
      some (⟨.spawned, movieIndex ++ [1], false, .emptyCheck⟩, []) := by
  rw [run_append_eq_some]
  refine ⟨⟨.spawned, movieIndex ++ [1], false, .pollBytes⟩, [], [], rfl, ?_, rfl⟩
  rw [run_singleton, Growing.step, Growing.decode]
  simp only [movieIndex_ready]
  rfl

/-- The session after `enqueue_pcm` of its first PCM. -/
def withPcm (pcm : List UInt8) : SessionState :=
  tryTransitionToPlaying { SessionState.spawned with
    pcmQueue := [pcm], bufferedMs := 0 + stereoByteLenToMs pcm.length }

theorem withPcm_bufferedMs (pcm : List UInt8) :
    (withPcm pcm).bufferedMs = stereoByteLenToMs pcm.length := by
  rw [withPcm, tryTransition_bufferedMs, Nat.zero_add]

theorem beeps_twoParts (b : UInt8) (pcm : List UInt8)
    (hlong : prerollMs ≤ stereoByteLenToMs (b :: pcm).length) :
    ∃ t, run (Growing.step (beeps (b :: pcm))) .start twoParts = some (t, [.enqueued (b :: pcm)]) ∧
      t.eof = true ∧ t.phase.hasReturned = true ∧ t.data = movieIndex ++ [1] ++ [2] := by
  have hpass : ∃ d prevLen, run (Growing.step (beeps (b :: pcm)))
      ⟨.spawned, movieIndex ++ [1], false, .emptyCheck⟩ (List.replicate 11 .decode) =
        some (⟨withPcm (b :: pcm), movieIndex ++ [1], false, .preroll d prevLen true⟩,
          [.enqueued (b :: pcm)]) := ⟨_, _, rfl⟩
  obtain ⟨d, prevLen, hpass⟩ := hpass
  have hreturn : run (Growing.step (beeps (b :: pcm)))
      ⟨withPcm (b :: pcm), movieIndex ++ [1], false, .preroll d prevLen true⟩
        ([.decode] ++ [.append [2], .markEof]) =
          some (⟨withPcm (b :: pcm), movieIndex ++ [1] ++ [2], true,
            .returned (some d) (.result none)⟩, []) := by
    rw [run_append_eq_some]
    refine ⟨⟨withPcm (b :: pcm), movieIndex ++ [1], false, .returned (some d) (.result none)⟩,
      [], [], ?_, rfl, rfl⟩
    rw [run_singleton, Growing.step, Growing.decode]
    simp only [withPcm_bufferedMs, if_pos hlong]
    rfl
  have hrest := run_append_eq_some.mpr ⟨_, _, _, hpass, hreturn, rfl⟩
  exact ⟨_, run_append_eq_some.mpr ⟨_, [], _, beeps_ready _, hrest, rfl⟩, rfl, rfl, rfl⟩

theorem beeps_static (b : UInt8) (pcm : List UInt8) (hint : Option String)
    (hlong : prerollMs ≤ stereoByteLenToMs (b :: pcm ++ (b :: pcm)).length) :
    ∃ u, run (Static.step (beeps (b :: pcm))) (.start (movieIndex ++ [1] ++ [2]) hint)
        (List.replicate 9 .decode ++ [.decode]) = some (u, [.enqueued (b :: pcm ++ (b :: pcm))]) ∧
      u.phase.hasReturned = true := by
  have hpass : ∃ d, run (Static.step (beeps (b :: pcm))) (.start (movieIndex ++ [1] ++ [2]) hint)
      (List.replicate 9 .decode) = some (⟨withPcm (b :: pcm ++ (b :: pcm)),
        movieIndex ++ [1] ++ [2], .preroll d true⟩, [.enqueued (b :: pcm ++ (b :: pcm))]) :=
    ⟨_, rfl⟩
  obtain ⟨d, hpass⟩ := hpass
  refine ⟨⟨withPcm (b :: pcm ++ (b :: pcm)), movieIndex ++ [1] ++ [2], .returned (.result none)⟩,
    run_append_eq_some.mpr ⟨_, _, [], hpass, ?_, rfl⟩, rfl⟩
  rw [run_singleton, Static.step, Static.decode]
  simp only [withPcm_bufferedMs, if_pos hlong]
  rfl

end NodeWebrtc.Player
