import NodeWebrtc.Speech.UtteranceWalk

/-! # The texts of finals, and what a panic stops

`Utterance` takes every line of the log for granted. Here the two that cut a text are formatted,
as the code does whether the line is printed or not: `&text[..80]` panics inside a character. A
panic ends the task of the STT result pump. What kind of record a final is for is an input.
-/

namespace NodeWebrtc.VoiceAgent

open SttActor (SttTranscript SttResult)

inductive UttKind where
  | live
  | replay
deriving DecidableEq, Repr

/-- `&text[..n]`: `none` is the panic when `n` is not a character boundary. -/
def sliceTo (text : String) (n : Nat) : Option String :=
  if (String.Pos.Raw.mk n).isValid text then some ((String.Pos.Raw.mk 0).extract text ⟨n⟩) else none

def shorten (text : String) : Option String :=
  if 80 < text.utf8ByteSize then (sliceTo text 80).map fun s => s ++ "…" else some text

/-- At most 80 bytes, or the first 80 of them are whole characters. -/
def CutsWhole (text : String) : Prop :=
  text.utf8ByteSize ≤ 80 ∨ (String.Pos.Raw.mk 80).isValid text = true

instance (text : String) : Decidable (CutsWhole text) := by
  unfold CutsWhole
  infer_instance

/-- What a task has done: all of it, or what was done when it panicked. -/
abbrev Done := Except Agent Agent

/-- The line of the log that shows the text of a final. -/
def voiceDebugFinal (s : Agent) (line text : String) : Done :=
  match (shorten text).map fun shown => line ++ shown with
  | some _ => .ok s
  | none => .error s

namespace SttPump

def applyFinal (s : Agent) (key : Nat) (text : String) (kind : UttKind) (dropsMismatch : Bool) :
    Done :=
  match s.recordRef key with
  | none => .ok s
  | some _ =>
    match kind with
    | .replay => if isBlank text then .ok s else .ok (s.emitUtteranceFinal key text dropsMismatch)
    | .live =>
      let isLive := s.liveKey == some key
      if isBlank text && isLive && s.vadSpeaking then .ok s
      else do
        let s := (s.emitUserSpeakingStartIfNeeded key).endVendorStream key isLive
        let s ← voiceDebugFinal s "emit user_speech_final: " text
        return s.emitUtteranceFinal key text dropsMismatch

def finishWithForcedFinal (s : Agent) (key : Nat) (inlineLive dropsMismatch : Bool)
    (text : String) : Done := do
  let s := s.updateRecord key fun r => { r with finalEmitted := true }
  let s := if inlineLive then
      { s with sttFinalizePending := false, sttEndpointClosingStarted := false }
    else s
  let s ← voiceDebugFinal (s.endSpeakingOnce key)
    "emit user_speech_final (last partial fallback): " text
  return s.emitUtteranceFinal key text dropsMismatch

def finishRecordClose (s : Agent) (key : Nat) (inlineLive : Bool) (kind : UttKind)
    (dropsMismatch : Bool) : Done :=
  match s.recordRef key with
  | none => .ok s
  | some rec =>
    match kind with
    | .replay => .ok s
    | .live =>
      let noFinal := !rec.finalEmitted
      let needForced := noFinal && rec.partialsEmitted && rec.hasText
      let notFound := noFinal && !rec.hasText &&
        (rec.streamOpen || rec.userSttSessionOpen || rec.forcedReason) && !rec.notFoundEmitted
      let s := s.updateRecord key fun r =>
        (if notFound then { r with notFoundEmitted := true }.markTerminal else r).endStream
      let s := if inlineLive then s.clearSttListenTimer.clearUtteranceFinalizeTimer else s
      let s := s.emitIf rec.streamOpen (.sttStreamEnd rec.closeReason key)
      let s := s.emitIf notFound (.userSttNotFound .noTranscript key)
      let s := s.emitIf rec.userSttSessionOpen (.userSttEnd key)
      if needForced then finishWithForcedFinal s key inlineLive dropsMismatch rec.forcedText
      else .ok (s.finishWithoutFinal key inlineLive rec.forcedReason)

/-- `apply_transcript_result`; the partials of a replay are out already. -/
def applyTranscriptResult (s : Agent) (now : Instant) (key : Option Nat) (t : SttTranscript)
    (kind : UttKind) (dropsMismatch : Bool) : Done :=
  if !s.sttEnabled then .ok s
  else
    let target := s.resolveTranscriptTarget key
    match target.2 with
    | none => .ok target.1
    | some key =>
      match t with
      | .partialText text =>
        .ok (if kind = .replay then target.1 else target.1.applyPartial now key text)
      | .finalText text => applyFinal target.1 key text kind dropsMismatch

def applyFinalizeDone (s : Agent) (key : Nat) (kind : UttKind) (dropsMismatch : Bool) : Done :=
  if s.closing.any fun r => r.key == key then do
    let s ← finishRecordClose s key false kind dropsMismatch
    return { s with closing := s.closing.eraseP fun r => r.key == key }
  else .ok s

def handleSttResult (s : Agent) (now : Instant) (r : SttResult) (kind : UttKind)
    (dropsMismatch : Bool) : Done :=
  match r with
  | .transcript key _ t => applyTranscriptResult s now key t kind dropsMismatch
  | .finalizeDone key _ _ => applyFinalizeDone s key kind dropsMismatch
  | r => .ok (s.handleSttResult now r dropsMismatch)

/-- The pump, and between two results whatever else happens to the agent: a panic ends it. -/
def step : Machine.Step Agent (AgentInput × UttKind) Empty := fun s i =>
  match i.1 with
  | .result now r dropsMismatch =>
    (handleSttResult s now r i.2 dropsMismatch).toOption.map fun t => (t, [])
  | input => some (s.apply input, [])

end SttPump

/-! ## Cutting a text -/

theorem shorten_isSome (text : String) : (shorten text).isSome = true ↔ CutsWhole text := by
  unfold shorten CutsWhole sliceTo
  by_cases hlong : 80 < text.utf8ByteSize
  · rw [if_pos hlong]
    split
    · next hvalid => simp [hvalid]
    · next hvalid => simp [hvalid, hlong]
  · simp [hlong, Nat.not_lt.mp hlong]

theorem voiceDebugFinal_whole {text : String} (h : CutsWhole text) (s : Agent) (line : String) :
    voiceDebugFinal s line text = .ok s := by
  obtain ⟨shown, hshown⟩ := Option.isSome_iff_exists.mp ((shorten_isSome text).mpr h)
  unfold voiceDebugFinal
  rw [hshown]
  rfl

theorem voiceDebugFinal_torn {text : String} (h : ¬ CutsWhole text) (s : Agent) (line : String) :
    voiceDebugFinal s line text = .error s := by
  have hnone : shorten text = none := by
    rw [← Option.not_isSome_iff_eq_none, shorten_isSome]
    exact h
  unfold voiceDebugFinal
  rw [hnone]
  rfl

/-! ## Where no text is torn, the steps are the agent's -/

namespace SttPump

theorem applyFinal_whole {text : String} (h : CutsWhole text) (s : Agent) (key : Nat)
    (dropsMismatch : Bool) :
    applyFinal s key text .live dropsMismatch = .ok (s.applyFinal key text dropsMismatch) := by
  unfold applyFinal Agent.applyFinal
  cases s.recordRef key with
  | none => rfl
  | some r =>
    dsimp only
    split
    · rfl
    · rw [voiceDebugFinal_whole h]
      rfl

theorem finishWithForcedFinal_whole {text : String} (h : CutsWhole text) (s : Agent) (key : Nat)
    (inlineLive dropsMismatch : Bool) :
    finishWithForcedFinal s key inlineLive dropsMismatch text =
      .ok (s.finishWithForcedFinal key inlineLive dropsMismatch text) := by
  unfold finishWithForcedFinal
  dsimp only
  rw [voiceDebugFinal_whole h]
  rfl

theorem finishRecordClose_whole {s : Agent} {key : Nat} (inlineLive dropsMismatch : Bool)
    (h : ∀ r, s.recordRef key = some r → r.needsForced = true → CutsWhole r.forcedText) :
    finishRecordClose s key inlineLive .live dropsMismatch =
      .ok (s.finishRecordClose key inlineLive dropsMismatch) := by
  unfold finishRecordClose Agent.finishRecordClose
  cases hrecord : s.recordRef key with
  | none => rfl
  | some r =>
    dsimp only
    split
    · next hforced => exact finishWithForcedFinal_whole (h r hrecord hforced) _ _ _ _
    · rfl

end SttPump

/-! ## The finals that are out -/

def SpeechEvent.final? : SpeechEvent → Option (String × Nat)
  | .userSpeechFinal text key => some (text, key)
  | _ => none

namespace Agent

def finals (s : Agent) : List (String × Nat) := s.events.filterMap SpeechEvent.final?

variable (s : Agent)

theorem emit_finals (e : SpeechEvent) : (s.emit e).finals = s.finals ++ e.final?.toList := by
  unfold finals emit
  rw [List.filterMap_append]
  cases he : e.final? with
  | none => rw [List.filterMap_cons_none he]; rfl
  | some final => rw [List.filterMap_cons_some he]; rfl

theorem emit_other {e : SpeechEvent} (he : e.final? = none) : (s.emit e).finals = s.finals := by
  rw [emit_finals, he]
  exact List.append_nil _

theorem emitIf_other (b : Bool) {e : SpeechEvent} (he : e.final? = none) :
    (s.emitIf b e).finals = s.finals := by
  unfold emitIf
  split
  · exact s.emit_other he
  · rfl

theorem updateRecord_finals (key : Nat) (f : SttUtterance → SttUtterance) :
    (s.updateRecord key f).finals = s.finals := by
  unfold updateRecord
  split <;> rfl

theorem resetFlags_finals (b : Bool) :
    (if b then { s with sttFinalizePending := false, sttEndpointClosingStarted := false }
      else s).finals = s.finals := by
  split <;> rfl

theorem emitUserSpeakingStartIfNeeded_finals (key : Nat) :
    (s.emitUserSpeakingStartIfNeeded key).finals = s.finals := by
  unfold emitUserSpeakingStartIfNeeded
  split
  · rfl
  split
  · rfl
  split
  · rfl
  · rw [emit_other _ rfl, updateRecord_finals]

theorem endSpeakingOnce_finals (key : Nat) : (s.endSpeakingOnce key).finals = s.finals := by
  unfold endSpeakingOnce
  split
  · rfl
  split
  · rfl
  unfold emitUserSpeakingEndFor
  split
  · exact updateRecord_finals s key _
  · rw [emit_other _ rfl, updateRecord_finals]

theorem endVendorStream_finals (key : Nat) (isLive : Bool) :
    (s.endVendorStream key isLive).finals = s.finals := by
  unfold endVendorStream
  split
  · rfl
  · rw [endSpeakingOnce_finals, emitIf_other _ _ rfl, emitIf_other _ _ rfl]
    split <;> exact updateRecord_finals s key _

section

variable {s : Agent} {key : Nat} {r : SttUtterance} (hrecord : s.turns.record key = some r)
include hrecord

theorem emitUtteranceFinal_finals {text : String} (htext : isBlank text = false) :
    (s.emitUtteranceFinal key text false).finals = s.finals ++ [(text, key)] := by
  have href : s.recordRef key = some r := hrecord
  unfold emitUtteranceFinal
  rw [href]
  dsimp only
  rw [if_neg (Bool.eq_false_iff.mp htext), emit_finals, updateRecord_finals]
  rfl

theorem applyFinal_finals {text : String} (htext : isBlank text = false) :
    (s.applyFinal key text false).finals = s.finals ++ [(text, key)] := by
  have href : s.recordRef key = some r := hrecord
  obtain ⟨r1, halike1, hstart⟩ := emitUserSpeakingStartIfNeeded_touches key s r hrecord
  have hkey := Turns.record_key hrecord
  have hrecord1 := hstart.record hrecord (halike1.key.trans hkey)
  obtain ⟨r2, halike2, hend⟩ := endVendorStream_writes hrecord1 (s.liveKey == some key)
  have hkey2 : r2.key = r1.key := halike2.key
  have hrecord2 := hend.record hrecord1 (hkey2.trans (halike1.key.trans hkey))
  unfold applyFinal
  rw [href]
  dsimp only
  rw [htext, Bool.false_and, Bool.false_and, if_neg Bool.false_ne_true,
    emitUtteranceFinal_finals hrecord2 htext, endVendorStream_finals,
    emitUserSpeakingStartIfNeeded_finals]

theorem finishWithForcedFinal_finals (inlineLive : Bool) {text : String}
    (htext : isBlank text = false) :
    (s.finishWithForcedFinal key inlineLive false text).finals = s.finals ++ [(text, key)] := by
  have hkey := Turns.record_key hrecord
  have hfinal := updateRecord_writes hrecord (f := fun r => { r with finalEmitted := true }) rfl
  have hrecord1 := hfinal.record hrecord hkey
  have hsame := s.updateRecord_finals key fun r => { r with finalEmitted := true }
  unfold finishWithForcedFinal
  dsimp only
  generalize (s.updateRecord key fun r => { r with finalEmitted := true }) = b at *
  obtain ⟨hturns, hdeadline⟩ := b.resetFlags_silent inlineLive
  have hflagged := b.resetFlags_finals inlineLive
  generalize (if inlineLive then
    { b with sttFinalizePending := false, sttEndpointClosingStarted := false } else b) = c at *
  have hrecord2 := (Writes.silent hrecord1 hturns (.inl hdeadline)).record hrecord1 hkey
  obtain ⟨r3, halike, hend⟩ := endSpeakingOnce_touches key c _ hrecord2
  have hkey3 : r3.key = ({ r with finalEmitted := true } : SttUtterance).key := halike.key
  have hrecord3 := hend.record hrecord2 (hkey3.trans hkey)
  rw [emitUtteranceFinal_finals hrecord3 htext, endSpeakingOnce_finals, hflagged, hsame]

theorem finishRecordClose_finals (inlineLive : Bool) (hforced : r.needsForced = true) :
    (s.finishRecordClose key inlineLive false).finals = s.finals ++ [(r.forcedText, key)] := by
  have href : s.recordRef key = some r := hrecord
  have htext : isBlank r.forcedText = false := by
    have hhas : r.hasText = true := (Bool.and_eq_true_iff.mp hforced).2
    unfold SttUtterance.hasText at hhas
    simpa using hhas
  have hneeds : (!r.finalEmitted && r.partialsEmitted && r.hasText) = true := hforced
  have hnot : (!r.finalEmitted && !r.hasText &&
      (r.streamOpen || r.userSttSessionOpen || r.forcedReason) && !r.notFoundEmitted) =
        r.needsNotFound := rfl
  have hhead := finishHead_writes hrecord inlineLive
  have hkey1 : r.missed.endStream.key = key := r.missed_key.trans (Turns.record_key hrecord)
  unfold finishRecordClose
  rw [href]
  dsimp only
  rw [if_pos hneeds, hnot,
    finishWithForcedFinal_finals (hhead.record hrecord hkey1) inlineLive htext,
    emitIf_other _ _ rfl, emitIf_other _ _ rfl, emitIf_other _ _ rfl]
  have hsame : ∀ f, (s.updateRecord key f).finals ++ [(r.forcedText, key)] =
      s.finals ++ [(r.forcedText, key)] := fun f => by rw [updateRecord_finals]
  split <;> exact hsame _

end

end Agent

/-! ## When a text survives -/

/-- The task ran to its end and put out one final, with exactly this text. -/
def Emits (s : Agent) (done : Done) (key : Nat) (text : String) : Prop :=
  ∃ t, done = .ok t ∧ t.finals = s.finals ++ [(text, key)]

namespace SttPump

theorem applyFinal_emits_iff {s : Agent} {key : Nat} {r : SttUtterance}
    (hrecord : s.recordRef key = some r) {text : String} (htext : isBlank text = false)
    (kind : UttKind) :
    Emits s (applyFinal s key text kind false) key text ↔ kind = .replay ∨ CutsWhole text := by
  cases kind with
  | replay =>
    refine ⟨fun _ => .inl rfl, fun _ => ⟨_, ?_, Agent.emitUtteranceFinal_finals hrecord htext⟩⟩
    unfold applyFinal
    rw [hrecord]
    rw [htext, if_neg Bool.false_ne_true]
  | live =>
    by_cases hwhole : CutsWhole text
    · exact ⟨fun _ => .inr hwhole, fun _ =>
        ⟨_, applyFinal_whole hwhole s key false, Agent.applyFinal_finals hrecord htext⟩⟩
    · have htorn : ∃ t, applyFinal s key text .live false = .error t := by
        unfold applyFinal
        rw [hrecord]
        dsimp only
        rw [htext, Bool.false_and, Bool.false_and, if_neg Bool.false_ne_true,
          voiceDebugFinal_torn hwhole]
        exact ⟨_, rfl⟩
      obtain ⟨t, ht⟩ := htorn
      constructor
      · rintro ⟨u, hu, -⟩
        rw [ht] at hu
        cases hu
      · rintro (hkind | h)
        · cases hkind
        · exact absurd h hwhole

theorem finishRecordClose_emits_iff {s : Agent} {key : Nat} {r : SttUtterance}
    (hrecord : s.recordRef key = some r) (hforced : r.needsForced = true) (inlineLive : Bool) :
    Emits s (finishRecordClose s key inlineLive .live false) key r.forcedText ↔
      CutsWhole r.forcedText := by
  by_cases hwhole : CutsWhole r.forcedText
  · refine ⟨fun _ => hwhole, fun _ => ⟨_, finishRecordClose_whole inlineLive false ?_,
      Agent.finishRecordClose_finals hrecord inlineLive hforced⟩⟩
    intro r' hr' _
    rw [hrecord, Option.some.injEq] at hr'
    rwa [← hr']
  · have htorn : ∃ t, finishRecordClose s key inlineLive .live false = .error t := by
      have hneeds : (!r.finalEmitted && r.partialsEmitted && r.hasText) = true := hforced
      unfold finishRecordClose
      rw [hrecord]
      dsimp only
      rw [if_pos hneeds]
      unfold finishWithForcedFinal
      dsimp only
      rw [voiceDebugFinal_torn hwhole]
      exact ⟨_, rfl⟩
    obtain ⟨t, ht⟩ := htorn
    constructor
    · rintro ⟨u, hu, -⟩
      rw [ht] at hu
      cases hu
    · exact fun h => absurd h hwhole

/-- No text is torn that this result sends through the log. -/
def TextsWhole (s : Agent) : SttResult → UttKind → Prop
  | .transcript key _ (.finalText text), .live =>
    s.sttEnabled = true → ∀ k, (s.resolveTranscriptTarget key).2 = some k →
      ((s.resolveTranscriptTarget key).1.recordRef k).isSome = true →
      ¬ (isBlank text = true ∧ (s.resolveTranscriptTarget key).1.liveKey = some k ∧
        (s.resolveTranscriptTarget key).1.vadSpeaking = true) → CutsWhole text
  | .finalizeDone key _ _, .live =>
    (s.closing.any fun r => r.key == key) = true → ∀ r, s.recordRef key = some r →
      r.needsForced = true → CutsWhole r.forcedText
  | _, _ => True

theorem toOption_isSome {d : Done} : d.toOption.isSome = true ↔ ∃ t, d = .ok t := by
  cases d with
  | ok t => exact ⟨fun _ => ⟨t, rfl⟩, fun _ => rfl⟩
  | error t =>
    constructor
    · intro h
      cases h
    · rintro ⟨u, hu⟩
      cases hu

theorem voiceDebugFinal_bind {line text : String} {s : Agent} (f : Agent → Agent) :
    (∃ t, (do let s ← voiceDebugFinal s line text; return f s : Done) = .ok t) ↔
      CutsWhole text := by
  by_cases hwhole : CutsWhole text
  · rw [voiceDebugFinal_whole hwhole]
    exact ⟨fun _ => hwhole, fun _ => ⟨_, rfl⟩⟩
  · rw [voiceDebugFinal_torn hwhole]
    constructor
    · rintro ⟨t, ht⟩
      cases ht
    · exact fun h => absurd h hwhole

variable (s : Agent)

theorem applyFinal_ok_iff (key : Nat) (text : String) (dropsMismatch : Bool) :
    (∃ t, applyFinal s key text .live dropsMismatch = .ok t) ↔
      ((s.recordRef key).isSome = true →
        ¬ (isBlank text = true ∧ s.liveKey = some key ∧ s.vadSpeaking = true) →
        CutsWhole text) := by
  unfold applyFinal
  cases s.recordRef key with
  | none => simp
  | some r =>
    by_cases hleft : (isBlank text && s.liveKey == some key && s.vadSpeaking) = true
    · rw [if_pos hleft]
      simp only [Bool.and_eq_true, beq_iff_eq] at hleft
      exact ⟨fun _ _ h => absurd ⟨hleft.1.1, hleft.1.2, hleft.2⟩ h, fun _ => ⟨s, rfl⟩⟩
    · rw [if_neg hleft, voiceDebugFinal_bind]
      simp only [Bool.and_eq_true, beq_iff_eq] at hleft
      have hnot : ¬ (isBlank text = true ∧ s.liveKey = some key ∧ s.vadSpeaking = true) :=
        fun h => hleft ⟨⟨h.1, h.2.1⟩, h.2.2⟩
      exact ⟨fun h _ _ => h, fun h => h rfl hnot⟩

theorem finishRecordClose_ok_iff (key : Nat) (inlineLive dropsMismatch : Bool) :
    (∃ t, finishRecordClose s key inlineLive .live dropsMismatch = .ok t) ↔
      ∀ r, s.recordRef key = some r → r.needsForced = true → CutsWhole r.forcedText := by
  constructor
  · intro h r hrecord hforced
    have hneeds : (!r.finalEmitted && r.partialsEmitted && r.hasText) = true := hforced
    unfold finishRecordClose at h
    rw [hrecord] at h
    dsimp only at h
    rw [if_pos hneeds] at h
    exact (voiceDebugFinal_bind _).mp h
  · exact fun h => ⟨_, finishRecordClose_whole inlineLive dropsMismatch h⟩

theorem replay_ok (key : Nat) (text : String) (inlineLive dropsMismatch : Bool) :
    (∃ t, applyFinal s key text .replay dropsMismatch = .ok t) ∧
      ∃ t, finishRecordClose s key inlineLive .replay dropsMismatch = .ok t := by
  unfold applyFinal finishRecordClose
  cases s.recordRef key with
  | none => exact ⟨⟨s, rfl⟩, ⟨s, rfl⟩⟩
  | some r =>
    dsimp only
    split
    · exact ⟨⟨s, rfl⟩, ⟨s, rfl⟩⟩
    · exact ⟨⟨_, rfl⟩, ⟨s, rfl⟩⟩

theorem applyTranscriptResult_ok_iff (now : Instant) (key : Option Nat) (gen : Nat)
    (t : SttTranscript) (kind : UttKind) (dropsMismatch : Bool) :
    (∃ u, applyTranscriptResult s now key t kind dropsMismatch = .ok u) ↔
      TextsWhole s (.transcript key gen t) kind := by
  unfold applyTranscriptResult
  by_cases henabled : s.sttEnabled = true
  · rw [if_neg (by simp [henabled])]
    dsimp only
    cases htarget : (s.resolveTranscriptTarget key).2 with
    | none => cases t <;> cases kind <;> simp [TextsWhole, htarget]
    | some k =>
      cases t with
      | partialText text => cases kind <;> simp [TextsWhole]
      | finalText text =>
        cases kind with
        | replay => exact ⟨fun _ => trivial, fun _ => (replay_ok _ k text false _).1⟩
        | live =>
          rw [applyFinal_ok_iff]
          refine ⟨fun h _ k' hk' => ?_, fun h => h henabled k htarget⟩
          rw [htarget, Option.some.injEq] at hk'
          rwa [← hk']
  · rw [if_pos (by simp [henabled])]
    cases t <;> cases kind <;> simp [TextsWhole, henabled]

theorem applyFinalizeDone_ok_iff (key gen : Nat) (late : Bool) (kind : UttKind)
    (dropsMismatch : Bool) :
    (∃ u, applyFinalizeDone s key kind dropsMismatch = .ok u) ↔
      TextsWhole s (.finalizeDone key gen late) kind := by
  have hbind : ∀ d : Done, (∃ u, (do
      let t ← d
      return { t with closing := t.closing.eraseP fun r => r.key == key } : Done) = .ok u) ↔
      ∃ u, d = .ok u := by
    intro d
    cases d with
    | ok t => exact ⟨fun _ => ⟨t, rfl⟩, fun _ => ⟨_, rfl⟩⟩
    | error t =>
      constructor
      all_goals
        rintro ⟨u, hu⟩
        cases hu
  unfold applyFinalizeDone
  by_cases hclosing : (s.closing.any fun r => r.key == key) = true
  · rw [if_pos hclosing, hbind]
    cases kind with
    | replay => exact ⟨fun _ => trivial, fun _ => (replay_ok s key "" false dropsMismatch).2⟩
    | live =>
      rw [finishRecordClose_ok_iff]
      exact ⟨fun h _ => h, fun h => h hclosing⟩
  · rw [if_neg hclosing]
    cases kind with
    | replay => exact ⟨fun _ => trivial, fun _ => ⟨s, rfl⟩⟩
    | live => exact ⟨fun _ h => absurd h hclosing, fun _ => ⟨s, rfl⟩⟩

theorem handleSttResult_ok_iff (now : Instant) (r : SttResult) (kind : UttKind)
    (dropsMismatch : Bool) :
    (∃ t, handleSttResult s now r kind dropsMismatch = .ok t) ↔ TextsWhole s r kind := by
  cases r with
  | transcript key gen t => exact applyTranscriptResult_ok_iff s now key gen t kind dropsMismatch
  | finalizeDone key gen late => exact applyFinalizeDone_ok_iff s key gen late kind dropsMismatch
  | vendorError key gen message | swapApplied config refused | barrierReached =>
    cases kind <;> exact ⟨fun _ => trivial, fun _ => ⟨_, rfl⟩⟩

def Needs (s : Agent) (i : AgentInput × UttKind) : Prop :=
  ∀ now r dropsMismatch, i.1 = .result now r dropsMismatch → TextsWhole s r i.2

theorem step_isSome_iff (i : AgentInput × UttKind) : (step s i).isSome = true ↔ Needs s i := by
  unfold step Needs
  cases hi : i.1 with
  | result now r dropsMismatch =>
    simp only [Option.isSome_map]
    rw [toOption_isSome, handleSttResult_ok_iff]
    constructor
    · intro h now' r' drops' heq
      cases heq
      exact h
    · exact fun h => h now r dropsMismatch rfl
  | inbound | tick | peek | playbackEnded | setSttEnabled => simp

end SttPump

/-! ## Which texts reach the host -/

/-- With the gate off a text reaches the host, from a final or as the fallback of a close, exactly
when the log tears no character of it, and the pump lives exactly as long as that is so. -/
theorem final_texts_survive_iff (s : Agent) :
    (∀ key r text kind, s.recordRef key = some r → isBlank text = false →
      (Emits s (SttPump.applyFinal s key text kind false) key text ↔
        kind = .replay ∨ CutsWhole text)) ∧
    (∀ key r inlineLive, s.recordRef key = some r → r.needsForced = true →
      (Emits s (SttPump.finishRecordClose s key inlineLive .live false) key r.forcedText ↔
        CutsWhole r.forcedText)) ∧
    ∀ is, (Machine.run SttPump.step s is).isSome = true ↔
      Machine.Along SttPump.step SttPump.Needs s is :=
  ⟨fun _ _ _ kind hrecord htext => SttPump.applyFinal_emits_iff hrecord htext kind,
    fun _ _ inlineLive hrecord hforced =>
      SttPump.finishRecordClose_emits_iff hrecord hforced inlineLive,
    fun is => Machine.run_isSome_iff SttPump.step_isSome_iff s is⟩

/-- 81 bytes, of which the 81st belongs to the 27th character: the final is lost with the pump. -/
theorem long_final_is_lost :
    let s := (Agent.new ⟨true, true, false, 500, 8000, 500, 0, 3000, 4000⟩ true).ensureLive
    let text := String.ofList (List.replicate 27 '字')
    s.recordRef 1 = some (.new 1) ∧ s.sttEnabled = true ∧ isBlank text = false ∧
      ¬ Emits s (SttPump.applyFinal s 1 text .live false) 1 text ∧
      Machine.run SttPump.step s
        [(.result 0 (.transcript none 0 (.finalText text)) false, .live)] = none := by
  have hblank : isBlank (String.ofList (List.replicate 27 '字')) = false := by decide +kernel
  have htorn : ¬ CutsWhole (String.ofList (List.replicate 27 '字')) := by decide +kernel
  refine ⟨rfl, rfl, hblank, ?_, ?_⟩
  · rw [SttPump.applyFinal_emits_iff (r := .new 1) rfl hblank]
    rintro (hkind | h)
    · cases hkind
    · exact htorn h
  · rw [← Option.not_isSome_iff_eq_none, Machine.run_isSome_iff SttPump.step_isSome_iff]
    rintro ⟨h, -⟩
    refine htorn (h 0 _ false rfl rfl 1 rfl rfl ?_)
    rw [hblank]
    rintro ⟨hb, -⟩
    cases hb

end NodeWebrtc.VoiceAgent
