import NodeWebrtc.Speech.UtteranceTurns

/-! # Every input is a walk of the turns

Each function of the agent, as the changes of the turns it makes, and with them the condition
under which C2 runs. The functions that work on one record are followed through that record.
-/

namespace NodeWebrtc.VoiceAgent

open SttActor (SttTranscript SttResult)
open SttUtterance (Alike)

namespace Agent

def turns (s : Agent) : Turns where
  live := s.live
  closing := s.closing
  nextKey := s.nextUtteranceKey
  terminals := s.events.filterMap SpeechEvent.terminal?
  ended := s.commands

/-- The records stand in order, and C2 runs only on a live record that has partials. -/
structure Sound (s : Agent) : Prop where
  ordered : s.turns.Ordered
  armed : 0 < s.utteranceFinalizeDeadlineMs → s.turns.LiveHeard

/-- `b` comes from `a` by a walk whose events all satisfy `P`. -/
def Refines (P : TurnEvent → Prop) (a b : Agent) : Prop :=
  a.Sound → ∃ es, Steps TurnStep a.turns es b.turns ∧ (∀ e ∈ es, P e) ∧ b.Sound

variable {P : TurnEvent → Prop} {a b : Agent}

theorem Refines.trans {c : Agent} (h : Refines P a b) (h' : Refines P b c) : Refines P a c := by
  intro hsound
  obtain ⟨es, hwalk, hes, hb⟩ := h hsound
  obtain ⟨es', hwalk', hes', hc⟩ := h' hb
  refine ⟨es ++ es', hwalk.trans hwalk', fun e he => ?_, hc⟩
  rcases List.mem_append.mp he with he | he
  · exact hes e he
  · exact hes' e he

theorem Refines.mono {Q : TurnEvent → Prop} (h : Refines P a b) (hPQ : ∀ e, P e → Q e) :
    Refines Q a b := by
  intro hsound
  obtain ⟨es, hwalk, hes, hb⟩ := h hsound
  exact ⟨es, hwalk, fun e he => hPQ e (hes e he), hb⟩

theorem Refines.single (es : List TurnEvent) (hstep : TurnStep a.turns es b.turns)
    (hes : ∀ e ∈ es, P e) (harmed : 0 < b.utteranceFinalizeDeadlineMs → b.turns.LiveHeard) :
    Refines P a b :=
  fun hsound => ⟨es, .single hstep, hes, hstep.ordered hsound.ordered, harmed⟩

theorem Refines.unseen (hturns : b.turns = a.turns)
    (harmed : 0 < b.utteranceFinalizeDeadlineMs → a.utteranceFinalizeDeadlineMs = 0 →
      a.turns.LiveHeard) : Refines P a b := by
  intro hsound
  refine ⟨[], ?_, by simp, ?_, ?_⟩
  · rw [hturns]
    exact .refl _
  · rw [hturns]
    exact hsound.ordered
  · intro hpos
    rw [hturns]
    by_cases hzero : a.utteranceFinalizeDeadlineMs = 0
    · exact harmed hpos hzero
    · exact hsound.armed (Nat.pos_of_ne_zero hzero)

/-! ## Writing one record -/

/-- `b` comes from `a` by writing one record, which ends as `r`, with the terminal events
`keys`; the C2 timer is left or cleared. -/
structure Writes (a b : Agent) (r : SttUtterance) (keys : List Nat) : Prop where
  turns : b.turns = (a.turns.put r).tell keys
  deadline : b.utteranceFinalizeDeadlineMs = a.utteranceFinalizeDeadlineMs ∨
    b.utteranceFinalizeDeadlineMs = 0

variable {key : Nat} {r r' : SttUtterance}

theorem Writes.record {keys : List Nat} (h : Writes a b r' keys)
    (hrecord : a.turns.record key = some r) (hkey : r'.key = key) :
    b.turns.record key = some r' := by
  rw [h.turns]
  exact Turns.record_put hrecord hkey

theorem Writes.trans {c : Agent} {keys keys' : List Nat} (h : Writes a b r keys)
    (h' : Writes b c r' keys') (hkey : r'.key = r.key) :
    Writes a c r' (keys ++ keys') := by
  refine ⟨?_, ?_⟩
  · rw [h'.turns, h.turns, Turns.put_tell, Turns.put_put _ hkey]
    unfold Turns.tell
    rw [List.append_assoc]
  · rcases h'.deadline with hdeadline | hzero
    · rw [hdeadline]
      exact h.deadline
    · exact .inr hzero

theorem Writes.silent (hrecord : a.turns.record key = some r) (hturns : b.turns = a.turns)
    (hdeadline : b.utteranceFinalizeDeadlineMs = a.utteranceFinalizeDeadlineMs ∨
      b.utteranceFinalizeDeadlineMs = 0) : Writes a b r [] := by
  refine ⟨?_, hdeadline⟩
  rw [hturns, Turns.put_self hrecord, Turns.tell_nil]

theorem updateRecord_writes (hrecord : a.turns.record key = some r)
    {f : SttUtterance → SttUtterance} (hkey : (f r).key = r.key) :
    Writes a (a.updateRecord key f) (f r) [] := by
  have hk : (f r).key = key := hkey.trans (Turns.record_key hrecord)
  subst hk
  unfold updateRecord
  by_cases hlive : (a.turns.live.any fun x => x.key == (f r).key) = true
  · have hr : a.live = some r := (Turns.record_of_live hlive).mp hrecord
    refine ⟨?_, .inl ?_⟩
    · rw [Turns.tell_nil]
      unfold Turns.put
      rw [if_pos hlive, if_pos (show (a.live.any fun x => x.key == (f r).key) = true from hlive), hr]
      rfl
    · rw [if_pos (show (a.live.any fun x => x.key == (f r).key) = true from hlive)]
  · have hr : a.closing.find? (fun x => x.key == (f r).key) = some r := by
      rw [Turns.record_of_not_live hlive] at hrecord
      exact hrecord
    refine ⟨?_, .inl ?_⟩
    · rw [Turns.tell_nil]
      unfold Turns.put
      rw [if_neg hlive, if_neg (show ¬ (a.live.any fun x => x.key == (f r).key) = true from hlive),
        Turns.modifyFirst_of_find? hr]
      rfl
    · rw [if_neg (show ¬ (a.live.any fun x => x.key == (f r).key) = true from hlive)]

variable (s : Agent)

theorem emit_turns (e : SpeechEvent) : (s.emit e).turns = s.turns.tell e.terminal?.toList := by
  unfold emit turns Turns.tell
  rw [List.filterMap_append]
  cases he : e.terminal? with
  | none => rw [List.filterMap_cons_none he]; rfl
  | some key => rw [List.filterMap_cons_some he]; rfl

variable {e : SpeechEvent}

theorem emit_silent (he : e.terminal? = none) : (s.emit e).turns = s.turns := by
  rw [emit_turns, he]
  exact Turns.tell_nil _

theorem emitIf_silent (b : Bool) (he : e.terminal? = none) : (s.emitIf b e).turns = s.turns := by
  unfold emitIf
  split
  · exact s.emit_silent he
  · rfl

theorem emitIf_deadline (b : Bool) (e : SpeechEvent) :
    (s.emitIf b e).utteranceFinalizeDeadlineMs = s.utteranceFinalizeDeadlineMs := by
  unfold emitIf
  split <;> rfl

theorem emit_writes (hrecord : a.turns.record key = some r) (e : SpeechEvent) :
    Writes a (a.emit e) r e.terminal?.toList := by
  refine ⟨?_, .inl rfl⟩
  rw [emit_turns, Turns.put_self hrecord]

theorem emitIf_writes (hrecord : a.turns.record key = some r) (b : Bool) (he : e.terminal? = none) :
    Writes a (a.emitIf b e) r [] :=
  .silent hrecord (a.emitIf_silent b he) (.inl (a.emitIf_deadline b e))

/-- A function that changes only what no terminal event depends on. -/
def Touches (f : Agent → Agent) (key : Nat) : Prop :=
  ∀ a r, a.turns.record key = some r → ∃ r', r.Alike r' ∧ Writes a (f a) r' []

theorem emitUserSpeakingEndFor_silent (key : Nat) :
    (s.emitUserSpeakingEndFor key).turns = s.turns ∧
      (s.emitUserSpeakingEndFor key).utteranceFinalizeDeadlineMs =
        s.utteranceFinalizeDeadlineMs := by
  unfold emitUserSpeakingEndFor
  split
  · exact ⟨rfl, rfl⟩
  · exact ⟨s.emit_silent rfl, rfl⟩

theorem emitUserSpeakingStartIfNeeded_touches (key : Nat) :
    Touches (fun s => s.emitUserSpeakingStartIfNeeded key) key := by
  intro a r hrecord
  have hsame : ∃ r', r.Alike r' ∧ Writes a a r' [] := ⟨r, .refl r, .silent hrecord rfl (.inl rfl)⟩
  have href : a.recordRef key = some r := hrecord
  unfold emitUserSpeakingStartIfNeeded
  dsimp only
  by_cases henabled : (!a.sttEnabled) = true
  · rw [if_pos henabled]
    exact hsame
  · rw [if_neg henabled, href]
    dsimp only
    by_cases hout : r.speakingStartEmitted = true
    · rw [if_pos hout]
      exact hsame
    · rw [if_neg hout]
      have hkey := Turns.record_key hrecord
      have hwrite := updateRecord_writes hrecord
        (f := fun r => { r with speakingStartEmitted := true }) rfl
      have hevent := emit_writes (hwrite.record hrecord hkey) (.userSpeakingStart key)
      refine ⟨_, ?_, hwrite.trans hevent rfl⟩
      exact ⟨rfl, rfl, rfl, rfl, rfl, rfl, id⟩

theorem endSpeakingOnce_touches (key : Nat) : Touches (fun s => s.endSpeakingOnce key) key := by
  intro a r hrecord
  have href : a.recordRef key = some r := hrecord
  unfold endSpeakingOnce
  dsimp only
  rw [href]
  dsimp only
  by_cases hout : r.speakingEndEmitted = true
  · rw [if_pos hout]
    exact ⟨r, .refl r, .silent hrecord rfl (.inl rfl)⟩
  · rw [if_neg hout]
    have hkey := Turns.record_key hrecord
    have hwrite := updateRecord_writes hrecord
      (f := fun r => { r with speakingEndEmitted := true }) rfl
    obtain ⟨hturns, hdeadline⟩ := emitUserSpeakingEndFor_silent
      (a.updateRecord key fun r => { r with speakingEndEmitted := true }) key
    have hevent := Writes.silent (hwrite.record hrecord hkey) hturns (.inl hdeadline)
    refine ⟨_, ?_, hwrite.trans hevent rfl⟩
    exact ⟨rfl, rfl, rfl, rfl, rfl, rfl, id⟩

theorem emitUtteranceFinal_writes (hrecord : a.turns.record key = some r) (text : String)
    (dropsMismatch : Bool) (hfinal : r.finalEmitted = true) :
    Writes a (a.emitUtteranceFinal key text dropsMismatch) (r.finish text)
      (if r.finishTells text then [key] else []) := by
  have href : a.recordRef key = some r := hrecord
  have hkey := Turns.record_key hrecord
  have hsame : { r with finalEmitted := true } = r := by
    cases r
    dsimp only at hfinal ⊢
    rw [hfinal]
  unfold emitUtteranceFinal SttUtterance.finish SttUtterance.finishTells
  rw [href]
  dsimp only
  by_cases hblank : isBlank text = true
  · rw [if_pos hblank, if_pos hblank, hblank]
    by_cases hnot : r.notFoundEmitted = true
    · rw [if_pos hnot, if_pos hnot, hsame, if_neg (by rw [hnot]; exact Bool.false_ne_true)]
      exact .silent hrecord rfl (.inl rfl)
    · rw [Bool.eq_false_iff.mpr hnot]
      have hwrite := updateRecord_writes hrecord
        (f := fun r => { r with notFoundEmitted := true }.markTerminal) rfl
      have hevent := emit_writes (hwrite.record hrecord hkey) (.userSttNotFound .emptyFinal key)
      have hfinish : ({ r with notFoundEmitted := true } : SttUtterance).markTerminal =
          { r with finalEmitted := true, notFoundEmitted := true }.markTerminal := by
        rw [hfinal]
      have hboth := hwrite.trans hevent rfl
      rw [hfinish] at hboth
      exact hboth
  · rw [Bool.eq_false_iff.mpr hblank]
    have hwrite := updateRecord_writes hrecord
      (f := fun r => { r with finalEmitted := true }.markTerminal) rfl
    have hevent := emit_writes (hwrite.record hrecord hkey)
      (if dropsMismatch then .userSpeechIgnored key else .userSpeechFinal text key)
    have hboth := hwrite.trans hevent rfl
    have hterminal : (if dropsMismatch then SpeechEvent.userSpeechIgnored key
        else .userSpeechFinal text key).terminal? = some key := by
      cases dropsMismatch with
      | true | false => rfl
    rw [hterminal] at hboth
    exact hboth

/-! ## Timers -/

theorem Writes.armed {keys : List Nat} (h : Writes a b r' keys)
    (hrecord : a.turns.record r.key = some r) (hkey : r'.key = r.key)
    (hheard : r.partialsEmitted = true → r'.partialsEmitted = true)
    (harmed : 0 < a.utteranceFinalizeDeadlineMs → a.turns.LiveHeard) :
    0 < b.utteranceFinalizeDeadlineMs → b.turns.LiveHeard := by
  intro hpos
  rcases h.deadline with hdeadline | hzero
  · rw [hdeadline] at hpos
    rw [h.turns]
    exact (harmed hpos).put hrecord hkey hheard
  · omega

theorem c2EndOfTurnReady_liveHeard {s : Agent} (h : s.c2EndOfTurnReady = true) :
    s.turns.LiveHeard := by
  unfold c2EndOfTurnReady at h
  simp only [Bool.and_eq_true] at h
  have hflag := h.1.1.1
  unfold liveFlag at hflag
  rw [Option.any_eq_true] at hflag
  obtain ⟨r, hlive, hawaits⟩ := hflag
  exact ⟨r, hlive, (Bool.and_eq_true_iff.mp hawaits).1⟩

theorem armUtteranceFinalizeTimer_armed (now : Instant) :
    (s.armUtteranceFinalizeTimer now).turns = s.turns ∧
      (0 < (s.armUtteranceFinalizeTimer now).utteranceFinalizeDeadlineMs → s.turns.LiveHeard) := by
  unfold armUtteranceFinalizeTimer
  split
  · rename_i hready
    exact ⟨rfl, fun _ => c2EndOfTurnReady_liveHeard hready⟩
  · exact ⟨rfl, fun hpos => absurd hpos (Nat.lt_irrefl 0)⟩

theorem refreshUtteranceFinalizeAfterPartial_armed (now : Instant) :
    (s.refreshUtteranceFinalizeAfterPartial now).turns = s.turns ∧
      (0 < (s.refreshUtteranceFinalizeAfterPartial now).utteranceFinalizeDeadlineMs →
        s.turns.LiveHeard) := by
  unfold refreshUtteranceFinalizeAfterPartial
  split
  · exact s.armUtteranceFinalizeTimer_armed now
  · exact ⟨rfl, fun hpos => absurd hpos (Nat.lt_irrefl 0)⟩

/-! ## Transcripts -/

theorem applyPartial_refines {key : Option Nat} (now : Instant) (text : String)
    (hnames : a.turns.Names key r) :
    Refines (fun e => e = .applied key r) a (a.applyPartial now r.key text) := by
  intro hsound
  have hrecord := hnames.record hsound.ordered
  have href : a.recordRef r.key = some r := hrecord
  have hheard := updateRecord_writes hrecord
    (f := fun r => { r with partialsEmitted := true, lastPartialText := some text }) rfl
  -- The timers are refreshed only for the live record, which now has partials.
  have htimers : ∃ b, (if a.liveKey == some r.key then
        (a.updateRecord r.key fun r =>
          { r with partialsEmitted := true, lastPartialText := some text
            }).clearSttListenTimer.refreshUtteranceFinalizeAfterPartial now
      else a.updateRecord r.key fun r =>
        { r with partialsEmitted := true, lastPartialText := some text }) = b ∧
      b.turns = a.turns.put (r.hear text) ∧
        (0 < b.utteranceFinalizeDeadlineMs → b.turns.LiveHeard) := by
    have hturns := hheard.turns
    rw [Turns.tell_nil] at hturns
    refine ⟨_, rfl, ?_⟩
    by_cases hlive : (a.liveKey == some r.key) = true
    · rw [if_pos hlive]
      have hrefresh := refreshUtteranceFinalizeAfterPartial_armed
        (a.updateRecord r.key fun r =>
          { r with partialsEmitted := true, lastPartialText := some text }).clearSttListenTimer now
      rw [hrefresh.1]
      exact ⟨hturns, hrefresh.2⟩
    · rw [if_neg hlive]
      exact ⟨hturns, hheard.armed hrecord rfl (fun _ => rfl) hsound.armed⟩
  unfold applyPartial
  rw [href]
  dsimp only
  obtain ⟨b, hb, hturns, harmed⟩ := htimers
  rw [hb]
  have hrecord' : b.turns.record r.key = some (r.hear text) := by
    rw [hturns]
    exact Turns.record_put hrecord rfl
  obtain ⟨r', halike, hstart⟩ := emitUserSpeakingStartIfNeeded_touches r.key b _ hrecord'
  have hrecord'' := hstart.record hrecord' halike.key
  have hwrites := hstart.trans (emit_writes hrecord'' (.userSpeechPartial text r.key)) rfl
  have hkey : r'.key = (r.hear text).key := halike.key
  refine Refines.single (a := a) [.applied key r] ?_ (by simp) ?_ hsound
  · rw [hwrites.turns, hturns, Turns.put_put _ hkey]
    exact (Turns.tell_nil _).symm ▸ .heard _ key r r' text hnames halike
  · exact hwrites.armed hrecord' hkey (fun h => halike.partials.trans h) harmed

theorem endVendorStream_writes (hrecord : a.turns.record key = some r) (isLive : Bool) :
    ∃ r', Alike { r with finalEmitted := true } r' ∧
      Writes a (a.endVendorStream key isLive) r' [] := by
  have href : a.recordRef key = some r := hrecord
  have hkey := Turns.record_key hrecord
  have hended := updateRecord_writes hrecord
    (f := fun r => { r with finalEmitted := true }.endStream) rfl
  have hrecord' := hended.record hrecord hkey
  unfold endVendorStream
  rw [href]
  dsimp only
  generalize (a.updateRecord key fun r => { r with finalEmitted := true }.endStream) = b at *
  -- Only the timers of a live record are cleared.
  have htimers : ∃ c, (if isLive = true then
        { b with
          sttFinalizePending := false
          sttEndpointClosingStarted := false }.clearSttListenTimer.clearUtteranceFinalizeTimer
      else b) = c ∧ c.turns = b.turns ∧
        (c.utteranceFinalizeDeadlineMs = b.utteranceFinalizeDeadlineMs ∨
          c.utteranceFinalizeDeadlineMs = 0) := by
    refine ⟨_, rfl, ?_⟩
    split
    · exact ⟨rfl, .inr rfl⟩
    · exact ⟨rfl, .inl rfl⟩
  obtain ⟨c, hc, hturns, hdeadline⟩ := htimers
  rw [hc]
  have hsilent : Writes b c _ [] := .silent hrecord' hturns hdeadline
  have hrecordc := hsilent.record hrecord' hkey
  have hstream := emitIf_writes hrecordc (r.streamOpen || r.userSttSessionOpen)
    (e := .sttStreamEnd .vendorFinal key) rfl
  have hrecords := hstream.record hrecordc hkey
  have hsession := emitIf_writes hrecords (r.streamOpen || r.userSttSessionOpen)
    (e := .userSttEnd key) rfl
  have hrecorde := hsession.record hrecords hkey
  obtain ⟨r', halike, hspeaking⟩ := endSpeakingOnce_touches key _ _ hrecorde
  have hkey' : r'.key = ({ r with finalEmitted := true } : SttUtterance).endStream.key := halike.key
  refine ⟨r', (SttUtterance.endStream_alike _).trans halike, ?_⟩
  exact (((hended.trans hsilent rfl).trans hstream rfl).trans hsession rfl).trans hspeaking hkey'

theorem applyFinal_refines {key : Option Nat} (text : String) (dropsMismatch : Bool)
    (hnames : a.turns.Names key r) :
    Refines (fun e => e = .applied key r ∧
        ¬ (isBlank text = true ∧ a.turns.live = some r ∧ a.vadSpeaking = true))
      a (a.applyFinal r.key text dropsMismatch) := by
  intro hsound
  have hrecord := hnames.record hsound.ordered
  have href : a.recordRef r.key = some r := hrecord
  unfold applyFinal
  rw [href]
  dsimp only
  by_cases hleft : (isBlank text && a.liveKey == some r.key && a.vadSpeaking) = true
  · rw [if_pos hleft]
    exact Refines.unseen rfl (fun hpos hzero => by omega) hsound
  · rw [if_neg hleft]
    have hkept : ¬ (isBlank text = true ∧ a.turns.live = some r ∧ a.vadSpeaking = true) := by
      rintro ⟨hblank, hlive, hspeaking⟩
      refine hleft ?_
      have hlive' : a.live = some r := hlive
      unfold liveKey
      rw [hblank, hlive', hspeaking]
      simp
    obtain ⟨r1, halike1, hstart⟩ := emitUserSpeakingStartIfNeeded_touches r.key a r hrecord
    have hrecord1 := hstart.record hrecord halike1.key
    obtain ⟨r2, halike2, hend⟩ := endVendorStream_writes hrecord1 (a.liveKey == some r.key)
    have hkey2 : r2.key = r1.key := halike2.key
    have hrecord2 := hend.record hrecord1 (hkey2.trans halike1.key)
    have hlast := emitUtteranceFinal_writes hrecord2 text dropsMismatch halike2.final
    have hkey3 := SttUtterance.finish_key text r2
    have hwrites := (hstart.trans hend hkey2).trans hlast hkey3
    have halike : (r.finish text).Alike (r2.finish text) := by
      refine SttUtterance.finish_alike text (Alike.trans ?_ halike2)
      exact ⟨halike1.key, rfl, halike1.notFound, halike1.terminal, halike1.partials, halike1.text,
        halike1.paired⟩
    have htells : r2.finishTells text = r.finishTells text := by
      have hnot : r2.notFoundEmitted = r.notFoundEmitted := halike2.notFound.trans halike1.notFound
      unfold SttUtterance.finishTells
      rw [hnot]
    refine Refines.single (a := a) [.applied key r] ?_ ?_ ?_ hsound
    · rw [hwrites.turns, htells]
      exact .finished _ key r _ text hnames halike
    · intro e he
      exact ⟨List.mem_singleton.mp he, hkept⟩
    · refine hwrites.armed hrecord (halike.key.trans (SttUtterance.finish_key text r)) (fun h => ?_)
        hsound.armed
      rw [halike.partials, SttUtterance.finish_partials]
      exact h

/-! ## Closes -/

theorem resetFlags_silent (b : Bool) :
    (if b then { s with sttFinalizePending := false, sttEndpointClosingStarted := false }
      else s).turns = s.turns ∧
    (if b then { s with sttFinalizePending := false, sttEndpointClosingStarted := false }
      else s).utteranceFinalizeDeadlineMs = s.utteranceFinalizeDeadlineMs := by
  split <;> exact ⟨rfl, rfl⟩

section

variable (hrecord : a.turns.record key = some r)
include hrecord

theorem finishWithForcedFinal_writes (inlineLive dropsMismatch : Bool) {text : String}
    (htext : isBlank text = false) :
    ∃ r', Alike ({ r with finalEmitted := true } : SttUtterance).markTerminal r' ∧
      Writes a (a.finishWithForcedFinal key inlineLive dropsMismatch text) r' [key] := by
  have hkey := Turns.record_key hrecord
  have hfinal := updateRecord_writes hrecord (f := fun r => { r with finalEmitted := true }) rfl
  have hrecord1 := hfinal.record hrecord hkey
  unfold finishWithForcedFinal
  dsimp only
  generalize (a.updateRecord key fun r => { r with finalEmitted := true }) = b at *
  obtain ⟨hturns, hdeadline⟩ := b.resetFlags_silent inlineLive
  generalize (if inlineLive then
    { b with sttFinalizePending := false, sttEndpointClosingStarted := false } else b) = c at *
  have hflags := Writes.silent hrecord1 hturns (.inl hdeadline)
  have hrecord2 := hflags.record hrecord1 hkey
  obtain ⟨r3, halike, hend⟩ := endSpeakingOnce_touches key c _ hrecord2
  have hkey3 : r3.key = ({ r with finalEmitted := true } : SttUtterance).key := halike.key
  have hrecord3 := hend.record hrecord2 (hkey3.trans hkey)
  have hlast := emitUtteranceFinal_writes hrecord3 text dropsMismatch halike.final
  have hfinish : r3.finish text = ({ r3 with finalEmitted := true } : SttUtterance).markTerminal := by
    unfold SttUtterance.finish
    rw [htext]
    rfl
  have htells : r3.finishTells text = true := by
    unfold SttUtterance.finishTells
    rw [htext]
    rfl
  rw [hfinish, htells] at hlast
  refine ⟨_, ?_, ((hfinal.trans hflags rfl).trans hend hkey3).trans hlast rfl⟩
  exact ⟨halike.key, rfl, halike.notFound, rfl, halike.partials, halike.text, halike.paired⟩

theorem finishWithoutFinal_writes (inlineLive forced : Bool) :
    ∃ r', Alike (if forced && !r.finalEmitted then { r with finalEmitted := true } else r) r' ∧
      Writes a (a.finishWithoutFinal key inlineLive forced) r' [] := by
  have hkey := Turns.record_key hrecord
  have hfinal := updateRecord_writes hrecord
    (f := fun r => if forced && !r.finalEmitted then { r with finalEmitted := true } else r)
    (by split <;> rfl)
  have hkey1 : (if forced && !r.finalEmitted then { r with finalEmitted := true } else r).key = key := by
    rw [← hkey]
    split <;> rfl
  have hrecord1 := hfinal.record hrecord hkey1
  unfold finishWithoutFinal
  dsimp only
  generalize (a.updateRecord key fun r =>
    if forced && !r.finalEmitted then { r with finalEmitted := true } else r) = b at *
  obtain ⟨hturns, hdeadline⟩ := b.resetFlags_silent
    (inlineLive && (b.recordRef key).any fun r => !r.speakingEndEmitted)
  generalize (if (inlineLive && (b.recordRef key).any fun r => !r.speakingEndEmitted) then
    { b with sttFinalizePending := false, sttEndpointClosingStarted := false } else b) = c at *
  have hflags := Writes.silent hrecord1 hturns (.inl hdeadline)
  have hrecord2 := hflags.record hrecord1 hkey1
  obtain ⟨r3, halike, hend⟩ := endSpeakingOnce_touches key c _ hrecord2
  exact ⟨r3, halike, (hfinal.trans hflags rfl).trans hend halike.key⟩

theorem emitIf_writes_terminal (b : Bool) (he : e.terminal? = some key) :
    Writes a (a.emitIf b e) r (if b then [key] else []) := by
  cases b with
  | true =>
    have hevent := emit_writes hrecord e
    rw [he] at hevent
    exact hevent
  | false => exact .silent hrecord rfl (.inl rfl)

theorem finishHead_writes (inlineLive : Bool) :
    Writes a
      ((((if inlineLive then
        (a.updateRecord key fun r' => (if r.needsNotFound then
          { r' with notFoundEmitted := true }.markTerminal
          else r').endStream).clearSttListenTimer.clearUtteranceFinalizeTimer
        else a.updateRecord key fun r' => (if r.needsNotFound then
          { r' with notFoundEmitted := true }.markTerminal else r').endStream).emitIf r.streamOpen
            (.sttStreamEnd r.closeReason key)).emitIf r.needsNotFound
              (.userSttNotFound .noTranscript key)).emitIf r.userSttSessionOpen (.userSttEnd key))
      r.missed.endStream (if r.needsNotFound then [key] else []) := by
  have hkey := Turns.record_key hrecord
  have hended : Writes a (a.updateRecord key fun r' => (if r.needsNotFound then
      { r' with notFoundEmitted := true }.markTerminal else r').endStream) r.missed.endStream [] :=
    updateRecord_writes hrecord (f := fun r' => (if r.needsNotFound then
      { r' with notFoundEmitted := true }.markTerminal else r').endStream) (by split <;> rfl)
  have hkey1 : r.missed.endStream.key = key := r.missed_key.trans hkey
  have hrecord1 := hended.record hrecord hkey1
  generalize (a.updateRecord key fun r' => (if r.needsNotFound then
    { r' with notFoundEmitted := true }.markTerminal else r').endStream) = b at *
  -- The timers of the turn are cleared for the live record.
  have hsilent : Writes b (if inlineLive then b.clearSttListenTimer.clearUtteranceFinalizeTimer
      else b) r.missed.endStream [] := by
    refine .silent hrecord1 ?_ ?_
    · split <;> rfl
    · split
      · exact .inr rfl
      · exact .inl rfl
  have hrecord2 := hsilent.record hrecord1 hkey1
  have hstream := emitIf_writes hrecord2 r.streamOpen (e := .sttStreamEnd r.closeReason key) rfl
  have hrecord3 := hstream.record hrecord2 hkey1
  have hmissing := emitIf_writes_terminal hrecord3 r.needsNotFound
    (e := .userSttNotFound .noTranscript key) rfl
  have hrecord4 := hmissing.record hrecord3 hkey1
  have hsession := emitIf_writes hrecord4 r.userSttSessionOpen (e := .userSttEnd key) rfl
  have hhead := (((hended.trans hsilent rfl).trans hstream rfl).trans hmissing rfl).trans hsession rfl
  simpa only [List.nil_append, List.append_nil] using hhead

theorem finishRecordClose_writes (inlineLive dropsMismatch : Bool) :
    ∃ r', r.close.Alike r' ∧ Writes a (a.finishRecordClose key inlineLive dropsMismatch) r'
      (if r.closeTells then [key] else []) := by
  have href : a.recordRef key = some r := hrecord
  have hkey := Turns.record_key hrecord
  have hnot : (!r.finalEmitted && !r.hasText &&
      (r.streamOpen || r.userSttSessionOpen || r.forcedReason) && !r.notFoundEmitted) =
        r.needsNotFound := rfl
  have hforced : (!r.finalEmitted && r.partialsEmitted && r.hasText) = r.needsForced := rfl
  have hhead := finishHead_writes hrecord inlineLive
  have hkey1 : r.missed.endStream.key = key := r.missed_key.trans hkey
  have hrecord1 := hhead.record hrecord hkey1
  unfold finishRecordClose
  rw [href]
  dsimp only
  rw [hnot, hforced]
  generalize ((((if inlineLive = true then _ else _ : Agent).emitIf r.streamOpen
    (.sttStreamEnd r.closeReason key)).emitIf r.needsNotFound
      (.userSttNotFound .noTranscript key)).emitIf r.userSttSessionOpen (.userSttEnd key)) = b at *
  unfold SttUtterance.close SttUtterance.closeTells
  by_cases hneeds : r.needsForced = true
  · have hquiet := SttUtterance.needsNotFound_of_forced hneeds
    have hmissed : r.missed = r := by
      unfold SttUtterance.missed
      rw [if_neg (Bool.eq_false_iff.mp hquiet)]
    have hblank : isBlank r.forcedText = false := by
      have htext : r.hasText = true := (Bool.and_eq_true_iff.mp hneeds).2
      unfold SttUtterance.hasText at htext
      simpa using htext
    obtain ⟨r', halike, hlast⟩ := finishWithForcedFinal_writes hrecord1 inlineLive dropsMismatch hblank
    have hboth := hhead.trans hlast halike.key
    rw [hneeds]
    rw [hmissed] at halike
    rw [hquiet] at hboth
    exact ⟨r', halike, hboth⟩
  · rw [Bool.eq_false_iff.mpr hneeds]
    obtain ⟨r', halike, hlast⟩ := finishWithoutFinal_writes hrecord1 inlineLive r.forcedReason
    have hfinal : r.missed.endStream.finalEmitted = r.finalEmitted := r.missed_final
    rw [hfinal] at halike
    have hkey' : r'.key = r.missed.endStream.key := by
      rw [halike.key]
      split <;> rfl
    have hboth := hhead.trans hlast hkey'
    rw [List.append_nil] at hboth
    exact ⟨r', halike, hboth⟩

end

theorem applyFinalizeDone_refines (a : Agent) (key : Nat) (dropsMismatch : Bool) :
    Refines (fun e => e = .closed key) a (a.applyFinalizeDone key dropsMismatch) := by
  intro hsound
  unfold applyFinalizeDone
  by_cases hany : (a.closing.any fun r => r.key == key) = true
  · rw [if_pos hany]
    obtain ⟨r, hfind⟩ : ∃ r, a.turns.closing.find? (fun r => r.key == key) = some r := by
      rw [← Option.isSome_iff_exists, List.find?_isSome]
      exact List.any_eq_true.mp hany
    have hkey : r.key = key := by
      have hfound := List.find?_some hfind
      exact beq_iff_eq.mp hfound
    subst hkey
    have hnot := hsound.ordered.not_live (List.mem_of_find?_eq_some hfind)
    have hrecord : a.turns.record r.key = some r := by
      rw [Turns.record_of_not_live hnot]
      exact hfind
    obtain ⟨r', halike, hwrites⟩ := finishRecordClose_writes hrecord false dropsMismatch
    have hkey' : r'.key = r.key := halike.key.trans r.close_key
    have hput : a.turns.put r' = { a.turns with
        closing := modifyFirst (fun x => x.key == r.key) (fun _ => r') a.turns.closing } := by
      unfold Turns.put
      rw [hkey', if_neg hnot]
    have hturns := hwrites.turns
    rw [hput] at hturns
    generalize a.finishRecordClose r.key false dropsMismatch = b at *
    have hfinal : turns { b with closing := b.closing.eraseP fun x => x.key == r.key } =
        { a.turns with
          closing := a.turns.closing.eraseP fun x => x.key == r.key
          terminals := a.turns.terminals ++ if r.closeTells then [r.key] else [] } := by
      have hclosing : b.closing = modifyFirst (fun x => x.key == r.key) (fun _ => r') a.turns.closing :=
        congrArg Turns.closing hturns
      have herase : b.closing.eraseP (fun x => x.key == r.key) =
          a.turns.closing.eraseP fun x => x.key == r.key := by
        rw [hclosing]
        exact Turns.eraseP_modifyFirst _ (beq_iff_eq.mpr hkey')
      show ({ b.turns with closing := b.closing.eraseP fun x => x.key == r.key } : Turns) = _
      rw [herase, hturns]
      rfl
    refine Refines.single (a := a) [.closed r.key] ?_ (by simp) ?_ hsound
    · rw [hfinal]
      exact .closed _ r.key r hfind
    · intro hpos
      rw [hfinal]
      rcases hwrites.deadline with hdeadline | hzero
      · exact hsound.armed (hdeadline ▸ hpos)
      · exact absurd hpos (by rw [hzero]; exact Nat.lt_irrefl 0)
  · rw [if_neg hany]
    exact Refines.unseen rfl (fun hpos hzero => by omega) hsound

section

variable (P)

theorem beginUtteranceClose_refines (a : Agent) (reason : CloseReason) :
    Refines P a (a.beginUtteranceClose reason) := by
  unfold beginUtteranceClose
  dsimp only
  have hlive : a.resetTurnCloseFlags.live = a.live := rfl
  rw [hlive]
  cases hr : a.live with
  | none => exact .unseen rfl fun hpos => absurd hpos (Nat.lt_irrefl 0)
  | some r =>
    refine .single [] ?_ (by simp) fun hpos => absurd hpos (Nat.lt_irrefl 0)
    exact .moved a.turns r { r with closeReason := reason } hr ⟨rfl, rfl, rfl, rfl, rfl, rfl, id⟩

theorem completePendingUtteranceIfAny_refines (a : Agent) :
    Refines P a a.completePendingUtteranceIfAny := by
  have hsame : Refines P a a := .unseen rfl fun hpos hzero => by omega
  unfold completePendingUtteranceIfAny
  split
  · exact hsame
  · split
    · exact beginUtteranceClose_refines P a _
    · exact hsame

theorem forceCloseUtterance_refines (hheard : a.turns.LiveHeard) (reason : CloseReason)
    (dropsMismatch : Bool) :
    Refines P a (a.forceCloseUtterance reason dropsMismatch) := by
  unfold forceCloseUtterance
  split
  · exact beginUtteranceClose_refines P a reason
  · intro hsound
    obtain ⟨r, hlive, hpartials⟩ := hheard
    have hlive' : a.live = some r := hlive
    have hlabel : (a.updateLive fun r => { r with closeReason := reason }).turns =
        { a.turns with live := some { r with closeReason := reason } } := by
      unfold updateLive turns
      rw [hlive']
      rfl
    have hkey : (a.updateLive fun r => { r with closeReason := reason }).liveKey = some r.key := by
      unfold updateLive liveKey
      rw [hlive']
      rfl
    dsimp only
    rw [hkey]
    generalize (a.updateLive fun r => { r with closeReason := reason }) = b at *
    have hliveb : b.turns.live = some { r with closeReason := reason } := by rw [hlabel]
    have hrecordb : b.turns.record r.key = some { r with closeReason := reason } :=
      Turns.record_live hliveb
    obtain ⟨r', halike, hwrites⟩ := finishRecordClose_writes hrecordb true dropsMismatch
    have hkey' : r'.key = ({ r with closeReason := reason } : SttUtterance).key :=
      halike.key.trans (SttUtterance.close_key _)
    have htouch : TurnStep a.turns [] b.turns := by
      rw [hlabel]
      exact .touchedLive hlive ⟨rfl, rfl, rfl, rfl, rfl, rfl, id⟩
    have hclose : TurnStep b.turns [] (b.finishRecordClose r.key true dropsMismatch).turns := by
      rw [hwrites.turns, Turns.put_of_live hliveb hkey']
      exact .closedLive b.turns _ r' hliveb hpartials halike
    have hwalk := (Steps.single htouch).trans (.single hclose)
    refine ⟨_, hwalk, by simp, Steps.turns_ordered hwalk hsound.ordered, fun _ => ?_⟩
    rw [hwrites.turns, Turns.put_of_live hliveb hkey']
    exact ⟨r', rfl, (halike.partials.trans (SttUtterance.close_partials _)).trans hpartials⟩

theorem expireHead_turns (hlive : a.live = some r) :
    (((((a.updateLive fun r => (if r.userSttSessionOpen then
        { r with notFoundEmitted := true }.markTerminal
        else r).endStream).clearSttListenTimer.clearUtteranceFinalizeTimer).emitIf r.streamOpen
          (.sttStreamEnd .listenTimeout r.key)).emitIf r.userSttSessionOpen
            (.userSttNotFound .noPartial r.key)).emitIf r.userSttSessionOpen
              (.userSttEnd r.key)).turns =
      { a.turns with
        live := some r.expire
        terminals := a.turns.terminals ++ if r.userSttSessionOpen then [r.key] else [] } := by
  have hupdate : ((a.updateLive fun r => (if r.userSttSessionOpen then
      { r with notFoundEmitted := true }.markTerminal
      else r).endStream).clearSttListenTimer.clearUtteranceFinalizeTimer).turns =
        { a.turns with live := some r.expire } := by
    show ({ a.turns with live := a.live.map SttUtterance.expire } : Turns) = _
    rw [hlive]
    rfl
  rw [emitIf_silent _ _ rfl]
  generalize (a.updateLive fun r => (if r.userSttSessionOpen then
    { r with notFoundEmitted := true }.markTerminal
    else r).endStream).clearSttListenTimer.clearUtteranceFinalizeTimer = b at *
  have hstream := b.emitIf_silent r.streamOpen (e := .sttStreamEnd .listenTimeout r.key) rfl
  rw [hupdate] at hstream
  generalize b.emitIf r.streamOpen (.sttStreamEnd .listenTimeout r.key) = c at *
  unfold emitIf
  cases r.userSttSessionOpen with
  | true =>
    rw [if_pos rfl, emit_turns, hstream]
    rfl
  | false => rw [if_neg Bool.false_ne_true, if_neg Bool.false_ne_true, hstream, List.append_nil]

theorem closeSttStreamNotFound_refines (hawaits : a.c1Awaits = true) :
    Refines (fun e => ∃ r, a.live = some r ∧ e = .timedOut r a.closing) a
      a.closeSttStreamNotFound := by
  intro hsound
  obtain ⟨r, hlive, hflags⟩ := Option.any_eq_true _ _ |>.mp hawaits
  obtain ⟨hstream, hquiet⟩ := Bool.and_eq_true_iff.mp hflags
  have hquiet' : r.partialsEmitted = false := by simpa using hquiet
  have hsession : r.userSttSessionOpen = true := (hsound.ordered.paired r hlive).symm.trans hstream
  have hhead := expireHead_turns hlive
  unfold closeSttStreamNotFound
  rw [hlive]
  dsimp only
  have hdeadline : ((((((a.updateLive fun r => (if r.userSttSessionOpen then
      { r with notFoundEmitted := true }.markTerminal
      else r).endStream).clearSttListenTimer.clearUtteranceFinalizeTimer).emitIf r.streamOpen
        (.sttStreamEnd .listenTimeout r.key)).emitIf r.userSttSessionOpen
          (.userSttNotFound .noPartial r.key)).emitIf r.userSttSessionOpen
            (.userSttEnd r.key)).utteranceFinalizeDeadlineMs = 0) := by
    rw [emitIf_deadline, emitIf_deadline, emitIf_deadline]
    rfl
  generalize (((((a.updateLive fun r => (if r.userSttSessionOpen then
    { r with notFoundEmitted := true }.markTerminal
    else r).endStream).clearSttListenTimer.clearUtteranceFinalizeTimer).emitIf r.streamOpen
      (.sttStreamEnd .listenTimeout r.key)).emitIf r.userSttSessionOpen
        (.userSttNotFound .noPartial r.key)).emitIf r.userSttSessionOpen (.userSttEnd r.key)) = b at *
  have hfire : TurnStep a.turns [.timedOut r a.closing] b.turns := by
    rw [hhead]
    exact .timedOut a.turns r hlive hstream hquiet'
  have hliveb : b.turns.live = some r.expire := by rw [hhead]
  have hterminal : r.expire.terminal = true := by
    unfold SttUtterance.expire
    rw [if_pos hsession]
    rfl
  by_cases hspeaking : b.vadSpeaking = true
  · rw [if_pos hspeaking]
    have hask : TurnStep b.turns [] (b.sendEndUtterance r.key).turns := by
      have hstep := TurnStep.asked b.turns r.expire hliveb hterminal
      rw [r.expire_key] at hstep
      exact hstep
    have hwalk := (Steps.single hfire).trans (.single hask)
    refine ⟨_, hwalk, ?_, Steps.turns_ordered hwalk hsound.ordered, ?_⟩
    · intro e he
      exact ⟨r, rfl, List.mem_singleton.mp he⟩
    · intro hpos
      have hpos' : 0 < b.utteranceFinalizeDeadlineMs := hpos
      omega
  · rw [if_neg hspeaking]
    have hrecordb : b.turns.record r.key = some r.expire := by
      have hrecord := Turns.record_live hliveb
      rwa [r.expire_key] at hrecord
    obtain ⟨r', halike, hwrites⟩ := endSpeakingOnce_touches r.key b r.expire hrecordb
    have hspoken := hwrites.turns
    rw [Turns.tell_nil, Turns.put_of_live hliveb halike.key] at hspoken
    have hclear := hwrites.deadline
    dsimp only at hspoken hclear ⊢
    generalize b.endSpeakingOnce r.key = c at *
    have htouch : TurnStep b.turns [] c.turns := by
      rw [hspoken]
      exact .touchedLive hliveb halike
    have hlivec : c.live = some r' := congrArg Turns.live hspoken
    have hmove := TurnStep.moved c.turns r' { r' with closeReason := .listenTimeout } hlivec
      ⟨rfl, rfl, rfl, rfl, rfl, rfl, id⟩
    have hkey' : r'.key = r.key := halike.key.trans r.expire_key
    have hend : (c.sendEndUtterance r'.key).live = some r' := hlivec
    rw [← hkey', hend]
    have hwalk := ((Steps.single hfire).trans (.single htouch)).trans (.single hmove)
    refine ⟨_, hwalk, ?_, Steps.turns_ordered hwalk hsound.ordered, ?_⟩
    · intro e he
      exact ⟨r, rfl, List.mem_singleton.mp he⟩
    · intro hpos
      have hpos' : 0 < c.utteranceFinalizeDeadlineMs := hpos
      omega

/-! ## New records -/

section

variable (a)

theorem Refines.refl : Refines P a a :=
  .unseen rfl fun hpos hzero => by omega

theorem ensureLive_turns : a.ensureLive.turns = a.turns.ensureLive := by
  unfold ensureLive Turns.ensureLive
  split
  · rename_i hnone
    rw [if_pos (show a.turns.live.isNone = true from hnone)]
    rfl
  · rename_i hsome
    rw [if_neg (show ¬ a.turns.live.isNone = true from hsome)]

theorem ensureLive_refines : Refines P a a.ensureLive := by
  unfold ensureLive
  by_cases hnone : a.live.isNone = true
  · rw [if_pos hnone]
    intro hsound
    refine Refines.single (a := a) [] (.opened a.turns) (by simp) (fun hpos => ?_) hsound
    -- Without a live record C2 is not armed.
    obtain ⟨r, hlive, -⟩ := hsound.armed hpos
    have hlive' : a.live = some r := hlive
    rw [hlive'] at hnone
    contradiction
  · rw [if_neg hnone]
    exact .refl P a

theorem startNewLiveRecord_refines : Refines P a a.startNewLiveRecord :=
  .single [] (.opened a.turns) (by simp) fun hpos => absurd hpos (Nat.lt_irrefl 0)

theorem speechRecord_refines (longPause : Bool) : Refines P a (a.speechRecord longPause) := by
  unfold speechRecord
  split
  · exact startNewLiveRecord_refines P a
  · exact .unseen rfl fun hpos => absurd hpos (Nat.lt_irrefl 0)

theorem beginSpeech_refines : Refines P a a.beginSpeech := by
  refine Refines.trans ?_ (speechRecord_refines P _ _)
  split
  · exact completePendingUtteranceIfAny_refines P a
  · exact .refl P a

end

theorem emitUserSpeakingStart_refines (hkey : a.liveKey = some key) :
    Refines P a (a.emitUserSpeakingStartIfNeeded key) := by
  cases hlive : a.live with
  | none =>
    unfold liveKey at hkey
    rw [hlive] at hkey
    contradiction
  | some r =>
    have hr : r.key = key := by
      unfold liveKey at hkey
      rw [hlive] at hkey
      exact Option.some.inj hkey
    subst hr
    have hturns : a.turns.live = some r := hlive
    obtain ⟨r', halike, hwrites⟩ :=
      emitUserSpeakingStartIfNeeded_touches r.key a r (Turns.record_live hturns)
    have hb := hwrites.turns
    rw [Turns.tell_nil, Turns.put_of_live hturns halike.key] at hb
    intro hsound
    refine Refines.single (a := a) [] ?_ (by simp) ?_ hsound
    · rw [hb]
      exact .touchedLive hturns halike
    · exact hwrites.armed (Turns.record_live hturns) halike.key
        (fun hheard => halike.partials.trans hheard) hsound.armed

theorem ensureLive_live (a : Agent) : ∃ r, a.ensureLive.live = some r := by
  unfold ensureLive
  cases hlive : a.live with
  | none => exact ⟨_, rfl⟩
  | some r => exact ⟨r, by rw [if_neg (by simp), hlive]⟩

theorem emitLiveSpeakingStart_refines (a : Agent) : Refines P a a.emitLiveSpeakingStart := by
  obtain ⟨r, hlive⟩ := a.ensureLive_live
  have hkey : a.ensureLive.liveKey = some r.key := by
    unfold liveKey
    rw [hlive]
    rfl
  unfold emitLiveSpeakingStart
  rw [hkey]
  exact (ensureLive_refines P a).trans (emitUserSpeakingStart_refines P hkey)

/-! ## The start of speech -/

theorem ensureLive_of_live (hlive : a.live = some r) : a.ensureLive = a := by
  unfold ensureLive
  rw [hlive]
  rfl

theorem emitUserSttStartIfNeeded_turns (hlive : a.ensureLive.live = some r) :
    a.emitUserSttStartIfNeeded.turns =
      { a.ensureLive.turns with live := some { r with userSttSessionOpen := true } } := by
  unfold emitUserSttStartIfNeeded
  dsimp only
  rw [hlive]
  dsimp only
  split
  · rename_i hopen
    have hsame : { r with userSttSessionOpen := true } = r := by rw [← hopen]
    rw [hsame, ← hlive]
    rfl
  · rw [emit_silent _ rfl]
    unfold updateLive turns
    rw [hlive]
    rfl

theorem emitSttStreamStartIfNeeded_turns (hlive : a.live = some r) :
    a.emitSttStreamStartIfNeeded.turns =
      { a.turns with live := some { r with streamOpen := true } } := by
  unfold emitSttStreamStartIfNeeded
  rw [ensureLive_of_live hlive]
  dsimp only
  rw [hlive]
  dsimp only
  split
  · rename_i hopen
    have hsame : { r with streamOpen := true } = r := by rw [← hopen]
    rw [hsame, ← hlive]
    rfl
  · rw [emit_silent _ rfl]
    unfold updateLive turns
    rw [hlive]
    rfl

section

variable (a)

theorem openStream_turns : ∃ r r', a.ensureLive.live = some r ∧ r.Alike r' ∧
    a.emitUserSttStartIfNeeded.emitSttStreamStartIfNeeded.turns =
      { a.ensureLive.turns with live := some r' } := by
  obtain ⟨r, hlive⟩ := a.ensureLive_live
  have hsession := emitUserSttStartIfNeeded_turns hlive
  have hlive' : a.emitUserSttStartIfNeeded.live = some { r with userSttSessionOpen := true } :=
    congrArg Turns.live hsession
  have hstream := emitSttStreamStartIfNeeded_turns hlive'
  rw [hsession] at hstream
  refine ⟨r, _, hlive, ?_, hstream⟩
  exact ⟨rfl, rfl, rfl, rfl, rfl, rfl, fun _ => rfl⟩

variable (f : Frame)

theorem onVadSpeechStart_turns : ∃ r r', a.ensureLive.live = some r ∧
    r.Alike r' ∧ (a.onVadSpeechStart f).turns = { a.ensureLive.turns with live := some r' } ∧
      (0 < (a.onVadSpeechStart f).utteranceFinalizeDeadlineMs →
        (a.onVadSpeechStart f).turns.LiveHeard) := by
  have hopened : ∃ b r r', (if (a.emit .vadTriggered).sttPipelineActive then
      (a.emit .vadTriggered).emitUserSttStartIfNeeded.emitSttStreamStartIfNeeded
      else a.emit .vadTriggered) = b ∧ a.ensureLive.live = some r ∧ r.Alike r' ∧
        b.ensureLive.live = some r' ∧
        b.ensureLive.turns = { a.ensureLive.turns with live := some r' } := by
    have hensure : (a.emit .vadTriggered).ensureLive.turns = a.ensureLive.turns := by
      rw [ensureLive_turns, ensureLive_turns, a.emit_silent rfl]
    by_cases hstt : (a.emit .vadTriggered).sttPipelineActive = true
    · rw [if_pos hstt]
      obtain ⟨r, r', hlive, halike, hturns⟩ := (a.emit .vadTriggered).openStream_turns
      have hlive' := congrArg Turns.live hturns
      have hsame := ensureLive_of_live hlive'
      refine ⟨_, r, r', rfl, ?_, halike, ?_, ?_⟩
      · exact (congrArg Turns.live hensure).symm.trans hlive
      · rw [hsame]
        exact hlive'
      · rw [hsame, hturns, hensure]
    · rw [if_neg hstt]
      obtain ⟨r, hlive⟩ := a.ensureLive_live
      refine ⟨_, r, r, rfl, hlive, .refl r, ?_, ?_⟩
      · exact (congrArg Turns.live hensure).trans hlive
      · rw [hensure, ← hlive]
        rfl
  obtain ⟨b, r, r', hb, hlive, halike, hliveb, hturns⟩ := hopened
  unfold onVadSpeechStart
  dsimp only
  rw [hb]
  generalize b.ensureLive = c at *
  have hvad : (c.updateLive fun r => { r with vadTriggered := true }).turns =
      { a.ensureLive.turns with live := some { r' with vadTriggered := true } } := by
    have hupdate : (c.updateLive fun r => { r with vadTriggered := true }).turns =
        { c.turns with live := some { r' with vadTriggered := true } } := by
      unfold updateLive turns
      rw [hliveb]
      rfl
    rw [hupdate, hturns]
  have halike' : r.Alike { r' with vadTriggered := true } :=
    halike.trans ⟨rfl, rfl, rfl, rfl, rfl, rfl, id⟩
  refine ⟨r, _, hlive, halike', ?_⟩
  generalize c.updateLive (fun r => { r with vadTriggered := true }) = d at *
  by_cases hheard : d.liveFlag SttUtterance.partialsEmitted = true
  · rw [if_pos hheard]
    refine ⟨hvad, fun _ => ?_⟩
    obtain ⟨x, hx, hpartials⟩ := Option.any_eq_true _ _ |>.mp hheard
    exact ⟨x, hx, hpartials⟩
  · rw [if_neg hheard]
    refine ⟨?_, fun hpos => absurd hpos (Nat.lt_irrefl 0)⟩
    rw [← hvad]
    split <;> rfl

theorem speechStart_refines :
    Refines P a ((if a.sttPipelineActive then a else a.openRecord).onVadSpeechStart f) := by
  have hstart : ∃ b, (if a.sttPipelineActive then a else a.openRecord) = b ∧
      (a.turns.Ordered → Steps TurnStep a.turns [] b.turns) := by
    refine ⟨_, rfl, fun _ => ?_⟩
    split
    · exact .refl _
    · exact .single (.opened a.turns)
  obtain ⟨b, hb, hopen⟩ := hstart
  rw [hb]
  obtain ⟨r, r', hlive, halike, hturns, harmed⟩ := b.onVadSpeechStart_turns f
  intro hsound
  have hensure : Steps TurnStep b.turns [] b.ensureLive.turns := by
    unfold ensureLive
    split
    · exact .single (.opened b.turns)
    · exact .refl _
  have htouch : TurnStep b.ensureLive.turns [] (b.onVadSpeechStart f).turns := by
    rw [hturns]
    exact .touchedLive hlive halike
  have hwalk := ((hopen hsound.ordered).trans hensure).trans (.single htouch)
  exact ⟨_, hwalk, by simp, Steps.turns_ordered hwalk hsound.ordered, harmed⟩

theorem onVadTransition_refines (t : VadTransition) : Refines P a (a.onVadTransition f t) := by
  cases t with
  | speechStart => exact (speechStart_refines P a f).trans (emitLiveSpeakingStart_refines P _)
  | speechEnd =>
    unfold onVadTransition
    dsimp only
    split
    · exact .refl P a
    · split
      · exact .refl P a
      · rename_i key _
        obtain ⟨hturns, hdeadline⟩ := a.emitUserSpeakingEndFor_silent key
        exact .unseen hturns fun hpos hzero => by omega

theorem onVadTransitions_refines (ts : List VadTransition) (a : Agent) :
    Refines P a (ts.foldl (fun s t => s.onVadTransition f t) a) := by
  induction ts generalizing a with
  | nil => exact .refl P a
  | cons t ts ih => exact (onVadTransition_refines P a f t).trans (ih _)

/-! ## Frames and checks -/

theorem noteFrame_refines (durationMs : Nat) :
    (a.noteFrame durationMs).turns = a.turns ∧ Refines P a (a.noteFrame durationMs) := by
  unfold noteFrame
  split
  · exact ⟨rfl, .unseen rfl fun hpos hzero => by dsimp only at hpos; omega⟩
  · exact ⟨rfl, .refl P a⟩

theorem holdAfterSpeechEnd_refines (now : Instant) :
    (a.holdAfterSpeechEnd now).turns = a.turns ∧ Refines P a (a.holdAfterSpeechEnd now) := by
  unfold holdAfterSpeechEnd
  split
  · dsimp only
    split
    · exact ⟨rfl, .unseen rfl fun hpos => absurd hpos (Nat.lt_irrefl 0)⟩
    · exact ⟨rfl, .unseen rfl fun hpos hzero => by dsimp only at hpos; omega⟩
  · split
    · obtain ⟨hturns, harmed⟩ := a.armUtteranceFinalizeTimer_armed now
      exact ⟨hturns, .unseen hturns fun hpos _ => harmed hpos⟩
    · exact ⟨rfl, .refl P a⟩

theorem runGateHold_refines (now : Instant) (durationMs : Nat) :
    (a.runGateHold now durationMs).1.turns = a.turns ∧
      Refines P a (a.runGateHold now durationMs).1 := by
  unfold runGateHold
  split <;> dsimp only
  · split
    · exact ⟨rfl, .refl P a⟩
    · exact ⟨rfl, .unseen rfl fun hpos => absurd hpos (Nat.lt_irrefl 0)⟩
  · split
    · obtain ⟨hturns, harmed⟩ := armUtteranceFinalizeTimer_armed
        { a with
          sttGateHoldMs := a.sttGateHoldMs - durationMs
          deferUtteranceFinalizeUntilHold := false } now
      exact ⟨hturns, .unseen hturns fun hpos _ => harmed hpos⟩
    · exact ⟨rfl, .unseen rfl fun hpos hzero => by dsimp only at hpos; omega⟩

theorem vadPass_refines (v : VadReading) :
    (a.vadPass f v).1.turns = a.turns ∧ Refines P a (a.vadPass f v).1 := by
  have hspeaking : Refines P a { a with vadSpeaking := a.config.enabled && v.speaking } :=
    .unseen rfl fun hpos hzero => by dsimp only at hpos; omega
  unfold vadPass
  dsimp only
  split
  · obtain ⟨hturns, hrefines⟩ := holdAfterSpeechEnd_refines P
      { a with vadSpeaking := a.config.enabled && v.speaking } f.now
    exact ⟨hturns, hspeaking.trans hrefines⟩
  · split
    · obtain ⟨hturns, hrefines⟩ := runGateHold_refines P
        { a with vadSpeaking := a.config.enabled && v.speaking } f.now f.durationMs
      exact ⟨hturns, hspeaking.trans hrefines⟩
    · exact ⟨rfl, hspeaking⟩

theorem frameC1Input_refines (v : VadReading) :
    (a.frameC1Input f v).turns = a.turns ∧ Refines P a (a.frameC1Input f v) := by
  obtain ⟨hnote, hnoted⟩ := noteFrame_refines P a f.durationMs
  obtain ⟨hpass, hpassed⟩ := vadPass_refines P (a.noteFrame f.durationMs) f v
  exact ⟨hpass.trans hnote, hnoted.trans hpassed⟩

theorem c1Check_silent (now : Instant) (backlogMs : Nat) (openPending : Bool) (pcmIdle : Duration) :
    (a.c1Check now backlogMs openPending pcmIdle).1.turns = a.turns ∧
      (a.c1Check now backlogMs openPending pcmIdle).1.utteranceFinalizeDeadlineMs =
        a.utteranceFinalizeDeadlineMs := by
  have hheld : ∀ pending, (a.c1HoldForSttOpen now pending).1.turns = a.turns ∧
      (a.c1HoldForSttOpen now pending).1.utteranceFinalizeDeadlineMs =
        a.utteranceFinalizeDeadlineMs := by
    intro pending
    unfold c1HoldForSttOpen
    split
    · exact ⟨rfl, rfl⟩
    · split
      · exact ⟨rfl, rfl⟩
      · split <;> exact ⟨rfl, rfl⟩
  unfold c1Check
  dsimp only
  split <;> exact hheld _

theorem frameC1_silent :
    (a.frameC1 f).1.turns = a.turns ∧ (a.frameC1 f).1.utteranceFinalizeDeadlineMs =
      a.utteranceFinalizeDeadlineMs ∧ ((a.frameC1 f).2 = true → a.c1Awaits = true) := by
  unfold frameC1
  split
  · exact ⟨rfl, rfl, fun h => absurd h Bool.false_ne_true⟩
  · split
    · rename_i hawaits
      obtain ⟨hturns, hdeadline⟩ := a.c1Check_silent f.now f.backlogMs f.openPending 0
      exact ⟨hturns, hdeadline, fun _ => (Bool.and_eq_true_iff.mp hawaits).1⟩
    · exact ⟨rfl, rfl, fun h => absurd h Bool.false_ne_true⟩

theorem tickC1_silent (t : Tick) :
    (a.tickC1 t).1.turns = a.turns ∧ (a.tickC1 t).1.utteranceFinalizeDeadlineMs =
      a.utteranceFinalizeDeadlineMs ∧ ((a.tickC1 t).2 = true → a.c1Awaits = true) := by
  unfold tickC1
  split
  · exact ⟨rfl, rfl, fun h => absurd h Bool.false_ne_true⟩
  · split
    · rename_i hawaits
      obtain ⟨hturns, hdeadline⟩ := a.c1Check_silent t.now t.backlogMs t.openPending t.pcmIdle
      exact ⟨hturns, hdeadline, fun _ => hawaits⟩
    · exact ⟨rfl, rfl, fun h => absurd h Bool.false_ne_true⟩

theorem frameC2_silent :
    (a.frameC2 f).1.turns = a.turns ∧
      ((a.frameC2 f).2 = true → 0 < a.utteranceFinalizeDeadlineMs) ∧
      (0 < (a.frameC2 f).1.utteranceFinalizeDeadlineMs → 0 < a.utteranceFinalizeDeadlineMs) := by
  unfold frameC2
  split
  · exact ⟨rfl, fun h => absurd h Bool.false_ne_true, id⟩
  · unfold c2CountDown
    split
    · rename_i hruns
      simp only [Bool.and_eq_true, decide_eq_true_eq] at hruns
      exact ⟨rfl, fun _ => hruns.1.1.1, fun _ => hruns.1.1.1⟩
    · exact ⟨rfl, fun h => absurd h Bool.false_ne_true, id⟩

end

theorem c1Awaits_not_heard (h : a.c1Awaits = true) : ¬ a.turns.LiveHeard := by
  rintro ⟨r, hlive, hheard⟩
  obtain ⟨x, hx, hflags⟩ := Option.any_eq_true _ _ |>.mp h
  have hlive' : a.live = some r := hlive
  rw [hlive'] at hx
  cases hx
  simp [hheard] at hflags

theorem c1Awaits_of_turns (h : b.turns = a.turns) (ha : a.c1Awaits = true) : b.c1Awaits = true := by
  have hlive : b.live = a.live := congrArg Turns.live h
  unfold c1Awaits liveFlag at *
  rwa [hlive]

theorem finishFrame_refines (a : Agent) (f : Frame) (v : VadReading) :
    Refines P a (a.finishFrame f v) := by
  unfold finishFrame
  dsimp only
  have hpush : Refines P a (if a.pushesToSttDirectly v then a.pushSttAudioBytes else a) := by
    split
    · unfold pushSttAudioBytes
      split
      · exact ensureLive_refines P a
      · exact .refl P a
    · exact .refl P a
  generalize (if a.pushesToSttDirectly v then a.pushSttAudioBytes else a) = b at *
  split
  · exact hpush.trans (beginUtteranceClose_refines P b _)
  · exact hpush

def FrameC1Fires (a : Agent) (f : Frame) : Prop :=
  ∃ v, f.vad = some v ∧ ((a.frameC1Input f v).frameC1 f).2 = true

def C1Shows (a : Agent) (fires : Prop) (e : TurnEvent) : Prop :=
  fires ∧ ∃ r, a.live = some r ∧ e = .timedOut r a.closing

theorem timeouts_refine {fires : Prop} {c1 c2 : Bool} (hc1 : c1 = true → fires)
    (hawaits : c1 = true → a.c1Awaits = true) (hheard : c2 = true → a.turns.LiveHeard)
    (reason : CloseReason) (dropsMismatch : Bool) :
    Refines (a.C1Shows fires) a
      (if c2 then (if c1 then a.closeSttStreamNotFound else a).forceCloseUtterance reason dropsMismatch
      else if c1 then a.closeSttStreamNotFound else a) := by
  cases c1 with
  | true =>
    have hquiet : c2 = false := by
      cases c2 with
      | false => rfl
      | true => exact absurd (hheard rfl) (c1Awaits_not_heard (hawaits rfl))
    rw [hquiet]
    exact (closeSttStreamNotFound_refines (hawaits rfl)).mono fun e he => ⟨hc1 rfl, he⟩
  | false =>
    cases c2 with
    | true => exact forceCloseUtterance_refines _ (hheard rfl) reason dropsMismatch
    | false => exact .refl _ a

theorem C1Shows.of_turns {fires : Prop} {e : TurnEvent} (hturns : b.turns = a.turns)
    (h : b.C1Shows fires e) : a.C1Shows fires e := by
  obtain ⟨hfires, r, hlive, he⟩ := h
  have hlive' : b.live = a.live := congrArg Turns.live hturns
  have hclosing : b.closing = a.closing := congrArg Turns.closing hturns
  rw [hlive'] at hlive
  rw [hclosing] at he
  exact ⟨hfires, r, hlive, he⟩

section

variable (a)

theorem frameTail_refines (f : Frame) (v : VadReading) (completePrevious : Bool) :
    Refines P a
      (let s := if completePrevious && a.sttPipelineActive then a.completePendingUtteranceIfAny else a
      let s := if (s.transitionsOf v).contains .speechStart && s.sttPipelineActive then s.beginSpeech
        else s
      let s := (s.transitionsOf v).foldl (fun s t => s.onVadTransition f t) s
      if s.sttEnabled then s.finishFrame f v else s) := by
  have hcomplete : Refines P a
      (if completePrevious && a.sttPipelineActive then a.completePendingUtteranceIfAny else a) := by
    split
    · exact completePendingUtteranceIfAny_refines P a
    · exact .refl P a
  generalize (if completePrevious && a.sttPipelineActive then a.completePendingUtteranceIfAny
    else a) = b at *
  have hbegin : Refines P b (if (b.transitionsOf v).contains .speechStart && b.sttPipelineActive then
      b.beginSpeech else b) := by
    split
    · exact beginSpeech_refines P b
    · exact .refl P b
  dsimp only
  generalize (if (b.transitionsOf v).contains .speechStart && b.sttPipelineActive then
    b.beginSpeech else b) = c at *
  have htransitions := onVadTransitions_refines P f (c.transitionsOf v) c
  generalize (c.transitionsOf v).foldl (fun s t => s.onVadTransition f t) c = d at *
  have hfinish : Refines P d (if d.sttEnabled then d.finishFrame f v else d) := by
    split
    · exact finishFrame_refines P d f v
    · exact .refl P d
  exact ((hcomplete.trans hbegin).trans htransitions).trans hfinish

theorem processInboundPcm_refines (f : Frame) :
    Refines (a.C1Shows (a.FrameC1Fires f)) a (a.processInboundPcm f) := by
  unfold processInboundPcm
  cases hv : f.vad with
  | none => exact (noteFrame_refines _ a f.durationMs).2
  | some v =>
    dsimp only
    obtain ⟨hinput, hread⟩ := frameC1Input_refines (a.C1Shows (a.FrameC1Fires f)) a f v
    have hfires : ((a.frameC1Input f v).frameC1 f).2 = true → a.FrameC1Fires f :=
      fun h => ⟨v, hv, h⟩
    generalize a.frameC1Input f v = b at *
    obtain ⟨hc1, hdeadline1, hawaits⟩ := b.frameC1_silent f
    obtain ⟨hc2, hruns, hleft⟩ := (b.frameC1 f).1.frameC2_silent f
    have hturns : ((b.frameC1 f).1.frameC2 f).1.turns = b.turns := hc2.trans hc1
    intro hsound
    obtain ⟨-, -, -, hsoundb⟩ := hread hsound
    have hheard : 0 < (b.frameC1 f).1.utteranceFinalizeDeadlineMs → b.turns.LiveHeard := by
      rw [hdeadline1]
      exact hsoundb.armed
    have hchecked : Refines (a.C1Shows (a.FrameC1Fires f)) b ((b.frameC1 f).1.frameC2 f).1 :=
      .unseen hturns fun hpos _ => hheard (hleft hpos)
    have htimeouts := timeouts_refine (a := ((b.frameC1 f).1.frameC2 f).1) hfires
      (fun h => c1Awaits_of_turns hturns (hawaits h))
      (fun h => hturns ▸ hheard (hruns h)) .finalizeTimeout f.dropsMismatch
    have hshows := htimeouts.mono fun e he => C1Shows.of_turns (hturns.trans hinput) he
    exact ((hread.trans hchecked).trans (hshows.trans (frameTail_refines _ _ f v _))) hsound

theorem c2WallClockTick_refines (t : Tick) :
    Refines (a.C1Shows ((a.tickC1 t).2 = true)) a (a.c2WallClockTick t) := by
  unfold c2WallClockTick
  dsimp only
  obtain ⟨hc1, hdeadline, hawaits⟩ := a.tickC1_silent t
  intro hsound
  have hchecked : Refines (a.C1Shows ((a.tickC1 t).2 = true)) a (a.tickC1 t).1 :=
    .unseen hc1 fun hpos hzero => by omega
  have hlast : Refines (a.C1Shows ((a.tickC1 t).2 = true)) (a.tickC1 t).1
      (if (a.tickC1 t).2 then (a.tickC1 t).1.closeSttStreamNotFound else (a.tickC1 t).1) := by
    split
    · rename_i h
      exact (closeSttStreamNotFound_refines (c1Awaits_of_turns hc1 (hawaits h))).mono fun e he =>
        C1Shows.of_turns hc1 ⟨h, he⟩
    · exact .refl _ _
  have hboth := hchecked.trans hlast
  generalize (if (a.tickC1 t).2 then (a.tickC1 t).1.closeSttStreamNotFound else (a.tickC1 t).1) = b at *
  obtain ⟨-, -, -, hsoundb⟩ := hboth hsound
  by_cases hforce : b.tickC2 t = true
  · rw [if_pos hforce]
    have hpos : 0 < b.utteranceFinalizeDeadlineMs := by
      unfold tickC2 at hforce
      simp only [Bool.and_eq_true, bne_iff_ne] at hforce
      exact Nat.pos_of_ne_zero hforce.1.1.1.1.1
    exact (hboth.trans (forceCloseUtterance_refines _ (hsoundb.armed hpos) _ _)) hsound
  · rw [if_neg hforce]
    exact hboth hsound

/-! ## Results of the STT actor -/

def leftover (a : Agent) : SttTranscript → Bool
  | .finalText text => isBlank text && a.vadSpeaking
  | .partialText _ => false

/-- The target of a transcript: the walk that may open the live record, and the record, which is
terminal only when it is the live one. -/
theorem resolveTranscriptTarget_names (key : Option Nat) :
    Refines P a (a.resolveTranscriptTarget key).1 ∧
      ∀ k, (a.resolveTranscriptTarget key).2 = some k →
        ∃ r, r.key = k ∧ (a.resolveTranscriptTarget key).1.turns.Names key r ∧
          (r.terminal = true → key = none ∧ a.closing = [] ∧ a.live = some r ∧
            (a.resolveTranscriptTarget key).1 = a) := by
  unfold resolveTranscriptTarget
  cases key with
  | some key =>
    dsimp only
    cases href : a.recordRef key with
    | none => exact ⟨.refl P a, fun k hk => by cases hk⟩
    | some r =>
      dsimp only
      refine ⟨.refl P a, fun k hk => ?_⟩
      by_cases hterminal : r.terminal = true
      · rw [if_pos hterminal] at hk
        cases hk
      · rw [if_neg hterminal, Option.some.injEq] at hk
        have hkey : r.key = key := Turns.record_key (t := a.turns) href
        exact ⟨r, hkey.trans hk, .keyed key r href (Bool.eq_false_iff.mpr hterminal),
          fun h => absurd h hterminal⟩
  | none =>
    cases hclosing : a.closing with
    | cons front rest =>
      dsimp only [List.head?_cons]
      refine ⟨.refl P a, fun k hk => ?_⟩
      by_cases hterminal : front.terminal = true
      · rw [if_pos hterminal] at hk
        cases hk
      · rw [if_neg hterminal, Option.some.injEq] at hk
        exact ⟨front, hk, .oldest front rest hclosing (Bool.eq_false_iff.mpr hterminal),
          fun h => absurd h hterminal⟩
    | nil =>
      refine ⟨ensureLive_refines P a, fun k hk => ?_⟩
      obtain ⟨r, hlive⟩ := a.ensureLive_live
      have hkey : r.key = k := by
        unfold liveKey at hk
        rw [hlive] at hk
        exact Option.some.inj hk
      have hclosing' : a.ensureLive.closing = [] := by
        unfold ensureLive
        split <;> exact hclosing
      refine ⟨r, hkey, .spoken r hclosing' hlive, fun hterminal => ⟨rfl, rfl, ?_⟩⟩
      cases hold : a.live with
      | none =>
        unfold ensureLive at hlive
        rw [hold] at hlive
        have hnew : r = .new a.nextUtteranceKey := (Option.some.inj hlive).symm
        rw [hnew] at hterminal
        cases hterminal
      | some x =>
        have hsame := ensureLive_of_live hold
        rw [hsame, hold] at hlive
        exact ⟨hlive, hsame⟩

/-- What a transcript shows: the record it is applied to; a terminal one is the live record,
reached without a key while nothing closes. -/
def TranscriptShows (a : Agent) (key : Option Nat) (t : SttTranscript) (e : TurnEvent) : Prop :=
  ∃ r, e = .applied key r ∧
    (r.terminal = true → key = none ∧ a.closing = [] ∧ a.live = some r ∧ a.sttEnabled = true ∧
      a.leftover t = false)

theorem applyTranscriptResult_refines (now : Instant) (key : Option Nat) (t : SttTranscript)
    (dropsMismatch : Bool) :
    Refines (a.TranscriptShows key t) a (a.applyTranscriptResult now key t dropsMismatch) := by
  obtain ⟨hresolve, hnames⟩ := resolveTranscriptTarget_names (a.TranscriptShows key t) a key
  unfold applyTranscriptResult
  by_cases henabled : (!a.sttEnabled) = true
  · rw [if_pos henabled]
    exact .refl _ a
  · rw [if_neg henabled]
    have henabled' : a.sttEnabled = true := by simpa using henabled
    dsimp only
    cases htarget : (a.resolveTranscriptTarget key).2 with
    | none => exact hresolve
    | some k =>
      obtain ⟨r, rfl, hnames, hlate⟩ := hnames k htarget
      refine hresolve.trans ?_
      cases t with
      | partialText text =>
        refine (applyPartial_refines now text hnames).mono fun e he => ⟨r, he, fun hr => ?_⟩
        obtain ⟨hkey, hclosing, hlive, -⟩ := hlate hr
        exact ⟨hkey, hclosing, hlive, henabled', rfl⟩
      | finalText text =>
        refine (applyFinal_refines text dropsMismatch hnames).mono fun e he =>
          ⟨r, he.1, fun hr => ?_⟩
        obtain ⟨hkey, hclosing, hlive, hsame⟩ := hlate hr
        refine ⟨hkey, hclosing, hlive, henabled', ?_⟩
        rw [Bool.eq_false_iff]
        intro hleft
        obtain ⟨hblank, hspeaking⟩ := Bool.and_eq_true_iff.mp hleft
        refine he.2 ⟨hblank, ?_, ?_⟩ <;> rw [hsame]
        · exact hlive
        · exact hspeaking

/-! ## Every input -/

theorem terminalKeyOf_refines (r : SttResult) : Refines P a (a.terminalKeyOf r) := by
  unfold terminalKeyOf
  split
  · exact (resolveTranscriptTarget_names P a _).1
  · exact .refl P a

theorem armSttHoldIfIdle_refines : Refines P a a.armSttHoldIfIdle := by
  unfold armSttHoldIfIdle
  dsimp only
  split
  · exact .refl P a
  · exact .unseen rfl fun hpos hzero => by dsimp only at hpos; omega

theorem setSttEnabled_refines (enabled : Bool) : Refines P a (a.setSttEnabled enabled) := by
  unfold setSttEnabled
  split
  · exact .unseen rfl fun hpos hzero => by dsimp only at hpos; omega
  · exact .single [] (.dropped a.turns) (by simp) fun hpos => absurd hpos (Nat.lt_irrefl 0)

theorem emitIf_refines (b : Bool) (he : e.terminal? = none) : Refines P a (a.emitIf b e) := by
  have hdeadline := a.emitIf_deadline b e
  exact .unseen (a.emitIf_silent b he) fun hpos hzero => by omega

end

end

def Shows (a : Agent) : AgentInput → TurnEvent → Prop
  | .inbound f => a.C1Shows (a.FrameC1Fires f)
  | .tick t => a.C1Shows ((a.tickC1 t).2 = true)
  | .result _ (.transcript key _ t) _ => a.TranscriptShows key t
  | .result _ (.finalizeDone key _ _) _ => fun e => e = .closed key
  | _ => fun _ => False

theorem apply_refines (a : Agent) (i : AgentInput) : Refines (a.Shows i) a (a.apply i) := by
  cases i with
  | inbound f => exact a.processInboundPcm_refines f
  | tick t => exact a.c2WallClockTick_refines t
  | peek r => exact terminalKeyOf_refines _ a r
  | playbackEnded => exact armSttHoldIfIdle_refines _ a
  | setSttEnabled enabled => exact setSttEnabled_refines _ a enabled
  | result now r dropsMismatch =>
    cases r with
    | transcript key gen t => exact a.applyTranscriptResult_refines now key t dropsMismatch
    | finalizeDone key gen late => exact a.applyFinalizeDone_refines key dropsMismatch
    | vendorError key gen message | swapApplied config refused => exact emitIf_refines _ a _ rfl
    | barrierReached => exact .refl _ a

theorem new_sound (config : VadConfig) (hasStt : Bool) : (new config hasStt).Sound := by
  refine ⟨⟨List.Pairwise.nil, fun k hk => ?_, fun c hc => absurd hc List.not_mem_nil, fun r hr => ?_⟩,
    fun hpos => absurd hpos (Nat.lt_irrefl 0)⟩
  · cases hk
  · cases hr

end Agent

end NodeWebrtc.VoiceAgent
