import Mathlib.Data.List.Infix
import NodeWebrtc.Speech.SttHold

/-! # The audio of a host STT hold

What the buffer of a hold keeps is what it was given, less the bytes it counts as dropped, and
nothing else is sent while the hold lasts. So after a release the new provider receives the audio
of the open utterance, then everything handed in since. After a cancel the old provider receives
the same bytes, of which it had received the first ones before.
-/

namespace NodeWebrtc.HeldStt

open Machine

/-! ## What the providers receive -/

def SttCommand.pcm : SttCommand → Pcm
  | .audio pcm => pcm
  | _ => []

def audio (cmds : List SttCommand) : Pcm := cmds.flatMap SttCommand.pcm

/-- What the provider in place has received once it handled one more command. -/
def received (got : Pcm) : SttCommand → Pcm
  | .audio pcm => got ++ pcm
  | .swap true => []
  | _ => got

/-- What the provider in place after the commands has received: the audio since it was swapped in.
The actor handles commands in the order they were sent. -/
def receives (cmds : List SttCommand) : Pcm := cmds.foldl received []

/-- A provider is swapped in by one of the commands. -/
def SwapsIn (cmds : List SttCommand) : Prop := .swap true ∈ cmds

@[simp] theorem audio_append (xs ys : List SttCommand) : audio (xs ++ ys) = audio xs ++ audio ys :=
  List.flatMap_append

@[simp] theorem audio_singleton (cmd : SttCommand) : audio [cmd] = cmd.pcm :=
  List.flatMap_singleton _ _

theorem audio_map_audio (chunks : List Pcm) : audio (chunks.map .audio) = chunks.flatten := by
  rw [audio, List.flatMap_map]
  exact List.flatMap_id

theorem flatten_sendChunks (pcm : Pcm) : (sendChunks pcm).flatten = pcm := by
  have hcut := Stream.flatten_chunks_append 640 pcm
  rw [sendChunks]
  split
  · next hempty =>
    rw [List.isEmpty_iff.mp hempty] at hcut
    simpa using hcut
  · simpa using hcut

theorem foldl_received {cmds : List SttCommand} (h : ¬ SwapsIn cmds) (got : Pcm) :
    cmds.foldl received got = got ++ audio cmds := by
  induction cmds generalizing got with
  | nil => exact (List.append_nil got).symm
  | cons cmd cmds ih =>
    have hrest : ¬ SwapsIn cmds := fun hmem => h (List.mem_cons_of_mem cmd hmem)
    rw [List.foldl_cons, ih hrest]
    cases cmd with
    | audio pcm => exact List.append_assoc got pcm _
    | endUtterance | waitReady => rfl
    | swap accepted =>
      cases accepted with
      | false => rfl
      | true => exact absurd List.mem_cons_self h

theorem receives_append {xs ys : List SttCommand} (h : ¬ SwapsIn ys) :
    receives (xs ++ ys) = receives xs ++ audio ys := by
  rw [receives, List.foldl_append, foldl_received h, receives]

theorem receives_of_swapsIn {xs ys : List SttCommand} (h : SwapsIn ys) (hquiet : audio ys = []) :
    receives (xs ++ ys) = [] := by
  obtain ⟨before, after, rfl⟩ := List.append_of_mem h
  rw [audio_append, List.append_eq_nil_iff] at hquiet
  have hafter : ∀ (cmds : List SttCommand), audio cmds = [] → cmds.foldl received [] = [] := by
    intro cmds
    induction cmds with
    | nil => exact fun _ => rfl
    | cons cmd cmds ih =>
      intro hnone
      obtain ⟨hcmd, hcmds⟩ := List.append_eq_nil_iff.mp hnone
      cases cmd with
      | audio pcm => rw [show pcm = [] from hcmd]; exact ih hcmds
      | endUtterance | waitReady => exact ih hcmds
      | swap accepted => cases accepted <;> exact ih hcmds
  rw [receives, ← List.append_assoc, List.foldl_append]
  exact hafter after hquiet.2

/-! ## What the buffer keeps -/

/-- The hold was given `all`, and keeps it but for the bytes it counts as dropped. -/
structure Buffers (hold : SttHold) (all : Pcm) : Prop where
  mode : hold.mode = .bufferReplay
  dropped : hold.droppedBytes ≤ all.length
  pcm : hold.pcm = all.drop hold.droppedBytes

namespace Buffers

variable {hold : SttHold} {all : Pcm}

theorem append (h : Buffers hold all) (chunk : Pcm) :
    Buffers (hold.append chunk) (all ++ chunk) := by
  have hpcm : hold.pcm ++ chunk = (all ++ chunk).drop hold.droppedBytes := by
    rw [List.drop_append_of_le_length h.dropped, h.pcm]
  have hlength : (hold.pcm ++ chunk).length + hold.droppedBytes = (all ++ chunk).length := by
    have hle := h.dropped
    rw [hpcm, List.length_drop, List.length_append]
    omega
  refine ⟨h.mode, ?_, ?_⟩ <;> simp only [SttHold.append]
  · split
    · have hmin := Nat.min_le_right ((hold.pcm ++ chunk).length - hold.maxBytes +
        ((hold.pcm ++ chunk).length - hold.maxBytes) % 2) (hold.pcm ++ chunk).length
      omega
    · omega
  · rw [hpcm, List.drop_drop]

theorem push (h : Buffers hold all) (chunk : Pcm) : Buffers (hold.push chunk) (all ++ chunk) := by
  rw [SttHold.push, if_neg (by simp [h.mode])]
  exact h.append chunk

theorem noteFinalize (h : Buffers hold all) : Buffers hold.noteFinalize all :=
  ⟨h.mode, h.dropped, h.pcm⟩

theorem new {mode : SttHoldMode} (hmode : mode = .bufferReplay) (maxBufferMs : Nat)
    (seed : Option Pcm) (generation : Nat) :
    Buffers { SttHold.new mode maxBufferMs seed with genAtBegin := generation } (seed.getD []) := by
  subst hmode
  have hempty : Buffers (SttHold.new .bufferReplay maxBufferMs none) [] :=
    ⟨rfl, Nat.le_refl 0, rfl⟩
  cases seed with
  | none => exact ⟨rfl, Nat.le_refl 0, rfl⟩
  | some seed =>
    have happend := hempty.append seed
    exact ⟨rfl, happend.dropped, happend.pcm⟩

end Buffers

/-! ## The replay ring -/

/-- The ring of an open utterance holds the newest audio of `all`. -/
def Recent (ring : UtteranceReplayBuffer) (all : Pcm) : Prop :=
  ring.active = true → ring.overflow = false ∧ ring.pcm <:+ all

variable {ring : UtteranceReplayBuffer}

theorem Recent.push {all : Pcm} (h : Recent ring all) (chunk : Pcm) :
    Recent (ring.push chunk) (all ++ chunk) := by
  unfold UtteranceReplayBuffer.push
  split
  · next hoff =>
    intro hactive
    rw [hactive, (h hactive).1] at hoff
    cases hoff
  · split
    · exact fun hactive => absurd hactive Bool.false_ne_true
    · exact fun hactive => ⟨(h hactive).1, List.suffix_append_self_iff.mpr (h hactive).2⟩

theorem Recent.seed {all : Pcm} (h : Recent ring all) : ring.seed.getD [] <:+ all := by
  unfold UtteranceReplayBuffer.seed UtteranceReplayBuffer.snapshotPcm
  split
  · next hactive =>
    split
    · exact List.nil_suffix
    · exact (h hactive).2
  · exact List.nil_suffix

theorem recent_inactive (h : ring.active = false) (all : Pcm) :
    Recent ring all := fun hactive => by rw [h] at hactive; cases hactive

/-! ## What a step of the inbound side does -/

/-- At most one caller is in the sections that the step lock guards. -/
structure Disciplined (s : Feed) : Prop where
  enabled : s.sttEnabled = true
  inHand : s.inHand ≠ none → s.utteranceStep = some .inbound

/-- Without a hold: the audio handed in is sent, but for a frame in hand. -/
structure Passes (s t : Feed) (cmds : List SttCommand) (pcm : Pcm) : Prop where
  disciplined : Disciplined t
  hold : t.sttHold = none
  host : t.host = s.host
  lock : t.utteranceStep ≠ some .host
  commands : t.commands = s.commands ++ cmds
  handed : t.handed = s.handed ++ pcm
  balance : audio cmds ++ t.inHand.getD [] = s.inHand.getD [] ++ pcm
  ring : Recent s.utteranceReplayBuffer s.handed → Recent t.utteranceReplayBuffer t.handed

/-- Under a hold: the audio handed in goes to the buffer, and none is sent. -/
structure Diverts (s t : Feed) (cmds : List SttCommand) (pcm : Pcm) : Prop where
  disciplined : Disciplined t
  host : t.host = s.host
  lock : t.utteranceStep ≠ some .host
  inHand : t.inHand = none
  commands : t.commands = s.commands ++ cmds
  quiet : audio cmds = []
  handed : t.handed = s.handed ++ pcm
  buffers : ∀ {hold all}, s.sttHold = some hold → Buffers hold all →
    ∃ hold', t.sttHold = some hold' ∧ Buffers hold' (all ++ pcm)

variable {s t : Feed}

theorem Passes.trans {u : Feed} {cs ds : List SttCommand} {p q : Pcm} (h : Passes s t cs p)
    (h' : Passes t u ds q) : Passes s u (cs ++ ds) (p ++ q) where
  disciplined := h'.disciplined
  hold := h'.hold
  host := h'.host.trans h.host
  lock := h'.lock
  commands := by rw [h'.commands, h.commands, List.append_assoc]
  handed := by rw [h'.handed, h.handed, List.append_assoc]
  balance := by
    rw [audio_append, List.append_assoc, h'.balance, ← List.append_assoc, h.balance,
      List.append_assoc]
  ring hring := h'.ring (h.ring hring)

theorem Diverts.trans {u : Feed} {cs ds : List SttCommand} {p q : Pcm} (h : Diverts s t cs p)
    (h' : Diverts t u ds q) : Diverts s u (cs ++ ds) (p ++ q) where
  disciplined := h'.disciplined
  host := h'.host.trans h.host
  lock := h'.lock
  inHand := h'.inHand
  commands := by rw [h'.commands, h.commands, List.append_assoc]
  quiet := by rw [audio_append, h.quiet, h'.quiet, List.append_nil]
  handed := by rw [h'.handed, h.handed, List.append_assoc]
  buffers hhold hall := by
    obtain ⟨hold', hhold', hall'⟩ := h.buffers hhold hall
    obtain ⟨hold'', hhold'', hall''⟩ := h'.buffers hhold' hall'
    exact ⟨hold'', hhold'', by rwa [List.append_assoc] at hall''⟩

/-- The inputs of inbound frames, ticker checks and config swaps. -/
def FeedInput.isInbound : FeedInput → Bool
  | .enter | .beginUtterance _ | .push _ | .send | .close _ _ _ | .leave | .sendSwap _ => true
  | _ => false

section Inbound

variable {s t : Feed}

theorem Passes.idle (hd : Disciplined s) (hhold : s.sttHold = none)
    (hlock : s.utteranceStep ≠ some .host) : Passes s s [] [] where
  disciplined := hd
  hold := hhold
  host := rfl
  lock := hlock
  commands := (List.append_nil _).symm
  handed := (List.append_nil _).symm
  balance := (List.append_nil _).symm
  ring h := h

theorem Diverts.idle (hd : Disciplined s) (hhand : s.inHand = none)
    (hlock : s.utteranceStep ≠ some .host) : Diverts s s [] [] where
  disciplined := hd
  host := rfl
  lock := hlock
  inHand := hhand
  commands := (List.append_nil _).symm
  quiet := rfl
  handed := (List.append_nil _).symm
  buffers hhold hall := ⟨_, hhold, by rwa [List.append_nil]⟩

theorem atWork_iff : s.atWork = true ↔ s.utteranceStep = some .inbound ∧ s.inHand = none := by
  rw [Feed.atWork, decide_eq_true_iff]

theorem passes_pushTails (hd : Disciplined s) (hhold : s.sttHold = none)
    (hlock : s.utteranceStep ≠ some .host) (hhand : s.inHand = none) (n : Nat) :
    ∃ cmds pcm, Passes s (Feed.pushTails n s) cmds pcm ∧ (Feed.pushTails n s).inHand = none := by
  induction n generalizing s with
  | zero => exact ⟨[], [], .idle hd hhold hlock, hhand⟩
  | succ n ih =>
    have htail : s.pushTail =
        { s with
          utteranceReplayBuffer := s.utteranceReplayBuffer.push tailChunk
          commands := s.commands ++ [.audio tailChunk]
          handed := s.handed ++ tailChunk } := by
      rw [Feed.pushTail, hhold]
    have hfirst : Passes s s.pushTail [.audio tailChunk] tailChunk := by
      rw [htail]
      refine ⟨⟨hd.enabled, hd.inHand⟩, hhold, rfl, hlock, rfl, rfl, ?_, fun h => h.push tailChunk⟩
      rw [hhand, audio_singleton]
      exact List.append_nil _
    have hhand' : s.pushTail.inHand = none := by rw [htail]; exact hhand
    obtain ⟨cmds, pcm, hrest, hend⟩ :=
      ih hfirst.disciplined hfirst.hold hfirst.lock hhand'
    exact ⟨_, _, hfirst.trans hrest, hend⟩

theorem diverts_pushTails {hold : SttHold} (hd : Disciplined s) (hhold : s.sttHold = some hold)
    (hlock : s.utteranceStep ≠ some .host) (hhand : s.inHand = none) (n : Nat) :
    ∃ cmds pcm, Diverts s (Feed.pushTails n s) cmds pcm := by
  induction n generalizing s hold with
  | zero => exact ⟨[], [], .idle hd hhand hlock⟩
  | succ n ih =>
    have htail : s.pushTail =
        { s with
          sttHold := some (hold.push tailChunk)
          handed := s.handed ++ tailChunk } := by
      rw [Feed.pushTail, hhold]
    have hfirst : Diverts s s.pushTail [] tailChunk := by
      rw [htail]
      refine ⟨⟨hd.enabled, hd.inHand⟩, rfl, hlock, hhand, (List.append_nil _).symm, rfl, rfl, ?_⟩
      intro hold' all hsame hall
      rw [hhold] at hsame
      cases hsame
      exact ⟨_, rfl, hall.push tailChunk⟩
    have hhold' : s.pushTail.sttHold = some (hold.push tailChunk) := by rw [htail]
    obtain ⟨cmds, pcm, hrest⟩ := ih hfirst.disciplined hhold' hfirst.lock hfirst.inHand
    exact ⟨_, _, hfirst.trans hrest⟩

theorem Passes.endUtterance {cmds : List SttCommand} {pcm : Pcm} (h : Passes s t cmds pcm)
    (hhand : t.inHand = none) :
    Passes s
      { t with
        utteranceReplayBuffer := t.utteranceReplayBuffer.endUtterance
        commands := t.commands ++ [.endUtterance] } (cmds ++ [.endUtterance]) (pcm ++ []) := by
  refine h.trans ⟨⟨h.disciplined.enabled, h.disciplined.inHand⟩, h.hold, rfl, h.lock, rfl,
    (List.append_nil _).symm, ?_, fun _ => recent_inactive rfl _⟩
  rw [hhand]
  rfl

theorem passes_beginUtteranceClose (hd : Disciplined s) (hhold : s.sttHold = none)
    (hlock : s.utteranceStep ≠ some .host) (hhand : s.inHand = none) (live withTail : Bool)
    (chunks : Nat) : ∃ cmds pcm, Passes s (s.beginUtteranceClose live withTail chunks) cmds pcm := by
  have hidle : Passes s s [] [] := .idle hd hhold hlock
  simp only [Feed.beginUtteranceClose, hhold]
  split
  · exact ⟨[], [], hidle⟩
  · by_cases htail : (withTail && s.sttEnabled) = true
    · obtain ⟨cmds, pcm, hpass, hnone⟩ := passes_pushTails hd hhold hlock hhand chunks
      simp only [if_pos htail]
      exact ⟨_, _, hpass.endUtterance hnone⟩
    · simp only [if_neg htail]
      exact ⟨_, _, hidle.endUtterance hhand⟩

theorem diverts_beginUtteranceClose {hold : SttHold} (hd : Disciplined s)
    (hhold : s.sttHold = some hold) (hlock : s.utteranceStep ≠ some .host) (hhand : s.inHand = none)
    (live withTail : Bool) (chunks : Nat) :
    ∃ cmds pcm, Diverts s (s.beginUtteranceClose live withTail chunks) cmds pcm := by
  have hnote : ∀ {u : Feed} {cmds : List SttCommand} {pcm : Pcm}, Diverts s u cmds pcm →
      Diverts s { u with sttHold := u.sttHold.map SttHold.noteFinalize } (cmds ++ [])
        (pcm ++ []) := by
    intro u cmds pcm h
    refine h.trans ⟨⟨h.disciplined.enabled, h.disciplined.inHand⟩, rfl, h.lock, h.inHand,
      (List.append_nil _).symm, rfl, (List.append_nil _).symm, fun hsame hall => ?_⟩
    exact ⟨_, by rw [hsame]; rfl, by rw [List.append_nil]; exact hall.noteFinalize⟩
  simp only [Feed.beginUtteranceClose, hhold]
  cases withTail with
  | false => exact ⟨_, _, hnote (.idle hd hhand hlock)⟩
  | true =>
    obtain ⟨cmds, pcm, hdivert⟩ := diverts_pushTails hd hhold hlock hhand chunks
    exact ⟨_, _, hnote hdivert⟩

theorem Disciplined.inHand_none (h : Disciplined s) (hfree : s.utteranceStep = none) :
    s.inHand = none := by
  by_contra hsome
  rw [h.inHand hsome] at hfree
  cases hfree

theorem passes_apply (hd : Disciplined s) (hhold : s.sttHold = none)
    (hlock : s.utteranceStep ≠ some .host) {i : FeedInput} (hi : i.isInbound = true)
    (h : s.apply i = some t) : ∃ cmds pcm, Passes s t cmds pcm := by
  have hnil : ∀ {α : Type} (xs : List α), xs = xs ++ [] := fun xs => (List.append_nil xs).symm
  cases i with
  | enter =>
    simp only [Feed.apply, Option.ite_none_right_eq_some, Option.some.injEq] at h
    obtain ⟨hfree, rfl⟩ := h
    exact ⟨[], [], ⟨hd.enabled, fun hsome => absurd (hd.inHand_none hfree) hsome⟩, hhold, rfl,
      by simp, hnil _, hnil _, hnil _, fun hring => hring⟩
  | beginUtterance atPreRoll =>
    simp only [Feed.apply, hhold, Option.isSome_none, Bool.and_false, Bool.false_eq_true, if_false,
      Option.ite_none_left_eq_some, Option.some.injEq] at h
    obtain ⟨-, rfl⟩ := h
    exact ⟨[], [], ⟨hd.enabled, hd.inHand⟩, rfl, rfl, hlock, hnil _, hnil _, hnil _,
      fun _ _ => ⟨rfl, List.nil_suffix⟩⟩
  | push pcm =>
    simp only [Feed.apply, Option.ite_none_right_eq_some, Option.some.injEq] at h
    obtain ⟨hwork, rfl⟩ := h
    obtain ⟨hinbound, hhand⟩ := atWork_iff.mp hwork
    have hpush : s.pushSttAudioBytes pcm =
        { s with
          utteranceReplayBuffer := s.utteranceReplayBuffer.push pcm
          inHand := some pcm
          handed := s.handed ++ pcm } := by
      simp [Feed.pushSttAudioBytes, hd.enabled, hhold]
    rw [hpush]
    refine ⟨[], pcm, ⟨hd.enabled, fun _ => hinbound⟩, hhold, rfl, hlock, hnil _, rfl, ?_,
      fun hring => hring.push pcm⟩
    rw [hhand]
    rfl
  | send =>
    simp only [Feed.apply, Option.map_eq_some_iff] at h
    obtain ⟨pcm, hhand, rfl⟩ := h
    refine ⟨[.audio pcm], [], ⟨hd.enabled, fun hnone => absurd rfl hnone⟩, hhold, rfl, hlock, rfl,
      hnil _, ?_, fun hring => hring⟩
    rw [hhand, audio_singleton]
    rfl
  | close live withTail chunks =>
    simp only [Feed.apply, Option.ite_none_right_eq_some, Option.some.injEq] at h
    obtain ⟨hwork, rfl⟩ := h
    exact passes_beginUtteranceClose hd hhold hlock (atWork_iff.mp hwork).2 live withTail chunks
  | leave =>
    simp only [Feed.apply, Option.ite_none_right_eq_some, Option.some.injEq] at h
    obtain ⟨hwork, rfl⟩ := h
    exact ⟨[], [], ⟨hd.enabled, fun hsome => absurd (atWork_iff.mp hwork).2 hsome⟩, hhold, rfl,
      by simp, hnil _, hnil _, hnil _, fun hring => hring⟩
  | sendSwap accepted =>
    simp only [Feed.apply, Option.ite_none_left_eq_some, Option.some.injEq] at h
    obtain ⟨-, rfl⟩ := h
    refine ⟨[.swap accepted], [], ⟨hd.enabled, hd.inHand⟩, hhold, rfl, hlock, rfl, hnil _, ?_,
      fun hring => hring⟩
    exact hnil _
  | beginHold | release | waitReady | cancel | lock | feed => cases hi

theorem diverts_apply {hold : SttHold} (hd : Disciplined s) (hhold : s.sttHold = some hold)
    (hlock : s.utteranceStep ≠ some .host) (hhand : s.inHand = none) {i : FeedInput}
    (hi : i.isInbound = true) (h : s.apply i = some t) : ∃ cmds pcm, Diverts s t cmds pcm := by
  have hnil : ∀ {α : Type} (xs : List α), xs = xs ++ [] := fun xs => (List.append_nil xs).symm
  have hkeep : ∀ {hold' : SttHold} {all : Pcm}, s.sttHold = some hold' → Buffers hold' all →
      ∃ hold'', s.sttHold = some hold'' ∧ Buffers hold'' (all ++ []) := fun hsame hall =>
    ⟨_, hsame, by rwa [List.append_nil]⟩
  cases i with
  | enter | leave =>
    simp only [Feed.apply, Option.ite_none_right_eq_some, Option.some.injEq] at h
    obtain ⟨-, rfl⟩ := h
    exact ⟨[], [], ⟨hd.enabled, fun hsome => absurd hhand hsome⟩, rfl, by simp, hhand, hnil _, rfl,
      hnil _, hkeep⟩
  | beginUtterance atPreRoll =>
    simp only [Feed.apply, Option.ite_none_left_eq_some] at h
    obtain ⟨-, h⟩ := h
    split at h <;> cases h
    · exact ⟨[], [], .idle hd hhand hlock⟩
    · exact ⟨[], [], ⟨hd.enabled, hd.inHand⟩, rfl, hlock, hhand, hnil _, rfl, hnil _, hkeep⟩
  | push pcm =>
    simp only [Feed.apply, Option.ite_none_right_eq_some, Option.some.injEq] at h
    obtain ⟨-, rfl⟩ := h
    have hpush : s.pushSttAudioBytes pcm =
        { s with sttHold := some (hold.push pcm), handed := s.handed ++ pcm } := by
      simp [Feed.pushSttAudioBytes, hd.enabled, hhold]
    rw [hpush]
    refine ⟨[], pcm, ⟨hd.enabled, hd.inHand⟩, rfl, hlock, hhand, hnil _, rfl, rfl, ?_⟩
    intro hold' all hsame hall
    rw [hhold] at hsame
    cases hsame
    exact ⟨_, rfl, hall.push pcm⟩
  | send =>
    rw [Feed.apply, hhand] at h
    cases h
  | close live withTail chunks =>
    simp only [Feed.apply, Option.ite_none_right_eq_some, Option.some.injEq] at h
    obtain ⟨-, rfl⟩ := h
    exact diverts_beginUtteranceClose hd hhold hlock hhand live withTail chunks
  | sendSwap accepted =>
    simp only [Feed.apply, Option.ite_none_left_eq_some, Option.some.injEq] at h
    obtain ⟨-, rfl⟩ := h
    exact ⟨[.swap accepted], [], ⟨hd.enabled, hd.inHand⟩, rfl, hlock, hhand, rfl, rfl, hnil _,
      hkeep⟩
  | beginHold | release | waitReady | cancel | lock | feed => cases hi

end Inbound

/-! ## The phases of a hold -/

/-- The audio a hold is given: the seed from the ring, then what is handed in. -/
def held (ring : UtteranceReplayBuffer) (begun : Mark) (handed : Pcm) : Pcm :=
  ring.seed.getD [] ++ handed.drop begun.handed.length

/-- From the first mark to the second no audio was sent, and the seed was sent before. -/
structure Silent (ring : UtteranceReplayBuffer) (begun locked : Mark) : Prop where
  commands : begun.commands <+: locked.commands
  handed : begun.handed <+: locked.handed
  quiet : audio (locked.commands.drop begun.commands.length) = []
  seed : ring.seed.getD [] <:+ audio begun.commands

structure Direct (s : Feed) : Prop where
  hold : s.sttHold = none
  lock : s.utteranceStep ≠ some .host
  sent : audio s.commands ++ s.inHand.getD [] = s.handed
  ring : Recent s.utteranceReplayBuffer s.handed

/-- The hold is active and nobody empties its buffer. -/
structure Holding (s : Feed) (ring : UtteranceReplayBuffer) (begun : Mark) : Prop where
  lock : s.utteranceStep ≠ some .host
  inHand : s.inHand = none
  silent : Silent ring begun s.mark
  buffers : ∃ hold, s.sttHold = some hold ∧ Buffers hold (held ring begun s.handed)

/-- The loop over the held audio: what it sent and what the buffer still keeps. -/
structure Feeding (s : Feed) (ring : UtteranceReplayBuffer) (begun locked : Mark) : Prop where
  lock : s.utteranceStep = some .host
  inHand : s.inHand = none
  silent : Silent ring begun locked
  commands : locked.commands <+: s.commands
  handed : s.handed = locked.handed
  buffers : ∃ hold, s.sttHold = some hold ∧
    hold.droppedBytes ≤ (held ring begun locked.handed).length ∧
    audio (s.commands.drop locked.commands.length) ++ hold.pcm =
      (held ring begun locked.handed).drop hold.droppedBytes

/-- The hold has ended: the held audio was sent, and then what was handed in later. -/
structure Over (s : Feed) (ring : UtteranceReplayBuffer) (begun locked : Mark)
    (droppedBytes : Nat) : Prop where
  hold : s.sttHold = none
  lock : s.utteranceStep ≠ some .host
  silent : Silent ring begun locked
  commands : locked.commands <+: s.commands
  handed : locked.handed <+: s.handed
  dropped : droppedBytes ≤ (held ring begun locked.handed).length
  sent : audio (s.commands.drop locked.commands.length) ++ s.inHand.getD [] =
    (held ring begun locked.handed).drop droppedBytes ++ s.handed.drop locked.handed.length

def Kept (s : Feed) : Prop :=
  Disciplined s ∧
    match s.host with
    | .idle => Direct s
    | .held ring begun => Holding s ring begun
    | .releasing ring begun => Holding s ring begun
    | .ready ring begun => Holding s ring begun
    | .cancelling ring begun => Holding s ring begun
    | .feeding _ ring begun locked _ => Feeding s ring begun locked
    | .ended _ ring begun locked droppedBytes => Over s ring begun locked droppedBytes

section Phases

variable {s t : Feed} {ring : UtteranceReplayBuffer} {begun locked : Mark} {droppedBytes : Nat}
  {cmds : List SttCommand} {pcm : Pcm}

theorem held_append {handed : Pcm} (h : begun.handed <+: handed) (pcm : Pcm) :
    held ring begun (handed ++ pcm) = held ring begun handed ++ pcm := by
  rw [held, held, List.drop_append_of_le_length h.length_le, List.append_assoc]

theorem Direct.passes (h : Direct s) (hp : Passes s t cmds pcm) : Direct t where
  hold := hp.hold
  lock := hp.lock
  sent := by
    rw [hp.commands, hp.handed, audio_append, List.append_assoc, hp.balance, ← List.append_assoc,
      h.sent]
  ring := hp.ring h.ring

theorem Silent.diverts (h : Silent ring begun s.mark) (hd : Diverts s t cmds pcm) :
    Silent ring begun t.mark where
  commands := by
    rw [Feed.mark, hd.commands]
    exact h.commands.trans (List.prefix_append _ _)
  handed := by
    rw [Feed.mark, hd.handed]
    exact h.handed.trans (List.prefix_append _ _)
  quiet := by
    have hprefix : begun.commands <+: s.commands := h.commands
    have hquiet : audio (s.commands.drop begun.commands.length) = [] := h.quiet
    change audio (t.commands.drop begun.commands.length) = []
    rw [hd.commands, List.drop_append_of_le_length hprefix.length_le, audio_append, hquiet, hd.quiet]
    rfl
  seed := h.seed

theorem Holding.diverts (h : Holding s ring begun) (hd : Diverts s t cmds pcm) :
    Holding t ring begun where
  lock := hd.lock
  inHand := hd.inHand
  silent := h.silent.diverts hd
  buffers := by
    obtain ⟨hold, hhold, hall⟩ := h.buffers
    have hprefix : begun.handed <+: s.handed := h.silent.handed
    rw [hd.handed, held_append hprefix]
    exact hd.buffers hhold hall

theorem Over.passes (h : Over s ring begun locked droppedBytes) (hp : Passes s t cmds pcm) :
    Over t ring begun locked droppedBytes where
  hold := hp.hold
  lock := hp.lock
  silent := h.silent
  commands := by
    rw [hp.commands]
    exact h.commands.trans (List.prefix_append _ _)
  handed := by
    rw [hp.handed]
    exact h.handed.trans (List.prefix_append _ _)
  dropped := h.dropped
  sent := by
    rw [hp.commands, hp.handed, List.drop_append_of_le_length h.commands.length_le,
      List.drop_append_of_le_length h.handed.length_le, audio_append, List.append_assoc, hp.balance,
      ← List.append_assoc, h.sent, List.append_assoc]

theorem Direct.begins (h : Direct s) (hfree : s.utteranceStep = none) (hhand : s.inHand = none)
    {options : BeginSttHoldOptions} (hmode : options.mode = .bufferReplay) (generation : Nat) :
    Holding (s.beginSttHold options generation) s.utteranceReplayBuffer s.mark where
  lock := by
    rw [show (s.beginSttHold options generation).utteranceStep = none from hfree]
    exact nofun
  inHand := hhand
  silent := by
    refine ⟨List.prefix_rfl, List.prefix_rfl, ?_, ?_⟩
    · change audio (s.commands.drop s.commands.length) = []
      rw [List.drop_length]
      rfl
    · have hsent := h.sent
      rw [hhand, Option.getD_none, List.append_nil] at hsent
      rw [Feed.mark, hsent]
      exact h.ring.seed
  buffers := by
    refine ⟨_, rfl, ?_⟩
    have hnone : held s.utteranceReplayBuffer s.mark s.handed =
        s.utteranceReplayBuffer.seed.getD [] := by
      rw [held, Feed.mark, List.drop_length, List.append_nil]
    rw [show (s.beginSttHold options generation).handed = s.handed from rfl, hnone]
    exact Buffers.new hmode _ _ generation

theorem Holding.locks (h : Holding s ring begun) (exit : Exit) :
    Feeding (s.lockHost exit ring begun) ring begun s.mark where
  lock := rfl
  inHand := h.inHand
  silent := h.silent
  commands := List.prefix_rfl
  handed := rfl
  buffers := by
    obtain ⟨hold, hhold, hall⟩ := h.buffers
    refine ⟨hold, hhold, hall.dropped, ?_⟩
    rw [show (s.lockHost exit ring begun).commands = s.commands from rfl, Feed.mark,
      List.drop_length, hall.pcm]
    rfl

theorem Holding.next (h : Holding s ring begun) (host : HostCall) :
    Holding { s with host := host } ring begun :=
  ⟨h.lock, h.inHand, h.silent, h.buffers⟩

theorem Holding.waits (h : Holding s ring begun) (hd : Disciplined s) (host : HostCall) :
    Holding { s.sendStt [.waitReady] with host := host } ring begun := by
  have hsent : Diverts s (s.sendStt [.waitReady]) [.waitReady] [] :=
    ⟨⟨hd.enabled, hd.inHand⟩, rfl, h.lock, h.inHand, rfl, rfl, (List.append_nil _).symm,
      fun hsame hall => ⟨_, hsame, by rwa [List.append_nil]⟩⟩
  exact (h.diverts hsent).next host

theorem Feeding.sends (h : Feeding s ring begun locked) {hold : SttHold}
    (hhold : s.sttHold = some hold) (host : HostCall) :
    Feeding
      { s.sendStt ((sendChunks hold.pcm).map .audio) with
        sttHold := some hold.taken
        host := host } ring begun locked where
  lock := h.lock
  inHand := h.inHand
  silent := h.silent
  commands := h.commands.trans (List.prefix_append _ _)
  handed := h.handed
  buffers := by
    obtain ⟨hold', hsame, hdropped, hsent⟩ := h.buffers
    rw [hhold] at hsame
    cases hsame
    refine ⟨_, rfl, hdropped, ?_⟩
    change audio ((s.commands ++ _).drop locked.commands.length) ++ [] = _
    rw [List.drop_append_of_le_length h.commands.length_le, audio_append, audio_map_audio,
      flatten_sendChunks, List.append_nil, hsent]
    rfl

theorem Feeding.ends (h : Feeding s ring begun locked) {hold : SttHold}
    (hhold : s.sttHold = some hold) (hempty : hold.pcm = []) :
    Over { s with sttHold := none, utteranceStep := none } ring begun locked hold.droppedBytes := by
  obtain ⟨hold', hsame, hdropped, hsent⟩ := h.buffers
  rw [hhold] at hsame
  cases hsame
  refine ⟨rfl, nofun, h.silent, h.commands, by rw [h.handed], hdropped, ?_⟩
  rw [hempty] at hsent
  rw [h.inHand, h.handed, List.drop_length, List.append_nil, ← hsent]
  rfl

theorem Over.next (h : Over s ring begun locked droppedBytes) (host : HostCall) :
    Over { s with host := host } ring begun locked droppedBytes :=
  ⟨h.hold, h.lock, h.silent, h.commands, h.handed, h.dropped, h.sent⟩

end Phases

/-! ## Every step keeps the invariant -/

theorem kept_feedRound {exit : Exit} {begun locked : Mark} {fedBytes : Nat} (hd : Disciplined s)
    (hhost : s.host = .feeding exit ring begun locked fedBytes) (h : Feeding s ring begun locked)
    {live liveOpen : Bool} (hs : s.feedRound live liveOpen = some t) : Kept t := by
  obtain ⟨hold, hhold, -⟩ := h.buffers
  simp only [Feed.feedRound, hhost, hhold] at hs
  split at hs <;> cases hs
  · next hempty =>
    have hover := h.ends hhold (List.isEmpty_iff.mp hempty)
    have hd' : Disciplined { s with sttHold := none, utteranceStep := none } :=
      ⟨hd.enabled, fun hsome => absurd h.inHand hsome⟩
    have hidle : Passes { s with sttHold := none, utteranceStep := none } _ [] [] :=
      .idle hd' rfl nofun
    have hpass : ∃ cmds pcm, Passes { s with sttHold := none, utteranceStep := none }
        (s.endSttHold hold live liveOpen exit fedBytes) cmds pcm := by
      cases exit with simp only [Feed.endSttHold]
      | release =>
        split
        · exact ⟨[.endUtterance], [], ⟨hd'.enabled, hd'.inHand⟩, rfl, rfl, nofun, rfl,
            (List.append_nil _).symm, (List.append_nil _).symm, fun hring => hring⟩
        · exact ⟨_, _, hidle⟩
      | cancel =>
        split
        · exact passes_beginUtteranceClose hd' rfl nofun h.inHand live false 0
        · exact ⟨_, _, hidle⟩
    obtain ⟨cmds, pcm, hpass⟩ := hpass
    exact ⟨⟨hpass.disciplined.enabled, hpass.disciplined.inHand⟩, (hover.passes hpass).next _⟩
  · exact ⟨⟨hd.enabled, fun hsome => absurd h.inHand hsome⟩, h.sends hhold _⟩

variable {i : FeedInput}

theorem apply_eq_none (hlock : s.utteranceStep = some .host) (hhand : s.inHand = none)
    (hi : i.isInbound = true) : s.apply i = none := by
  have hwork : s.atWork = false := by
    rw [Bool.eq_false_iff]
    intro hwork
    have hinbound := (atWork_iff.mp hwork).1
    rw [hlock] at hinbound
    cases hinbound
  cases i with
  | enter => rw [Feed.apply, hlock, if_neg nofun]
  | beginUtterance | push | close | leave => rw [Feed.apply, hwork]; rfl
  | send => rw [Feed.apply, hhand]; rfl
  | sendSwap accepted => rw [Feed.apply, if_pos (.inl hlock)]
  | beginHold | release | waitReady | cancel | lock | feed => cases hi

theorem kept_inbound (h : Kept s) (hi : i.isInbound = true) (hs : s.apply i = some t) : Kept t := by
  obtain ⟨hd, hphase⟩ := h
  have hholding : ∀ {ring : UtteranceReplayBuffer} {begun : Mark}, Holding s ring begun →
      Disciplined t ∧ t.host = s.host ∧ Holding t ring begun := by
    intro ring begun hholding
    obtain ⟨hold, hhold, -⟩ := hholding.buffers
    obtain ⟨cmds, pcm, hdiv⟩ := diverts_apply hd hhold hholding.lock hholding.inHand hi hs
    exact ⟨hdiv.disciplined, hdiv.host, hholding.diverts hdiv⟩
  cases hhost : s.host with rw [hhost] at hphase
  | idle | ended exit ring begun locked droppedBytes =>
    obtain ⟨cmds, pcm, hpass⟩ := passes_apply hd hphase.hold hphase.lock hi hs
    refine ⟨hpass.disciplined, ?_⟩
    rw [hpass.host, hhost]
    exact hphase.passes hpass
  | held ring begun | releasing ring begun | ready ring begun | cancelling ring begun =>
    obtain ⟨hd', hsame, hnext⟩ := hholding hphase
    exact ⟨hd', by rwa [hsame, hhost]⟩
  | feeding exit ring begun locked fedBytes =>
    rw [apply_eq_none hphase.lock hphase.inHand hi] at hs
    cases hs

/-- The hold that the inputs may begin keeps all audio. -/
def FeedInput.buffersAll : FeedInput → Bool
  | .beginHold options _ => options.mode = .bufferReplay
  | _ => true

theorem kept_hostStep (h : Kept s) (hmode : i.buffersAll = true) (hs : s.hostStep i = some t) :
    Kept t := by
  obtain ⟨hd, hphase⟩ := h
  cases i with
  | beginHold options generation =>
    simp only [Feed.hostStep, Option.ite_none_left_eq_some, Option.isSome_iff_ne_none, Decidable.not_not] at hs
    obtain ⟨hfree, hs⟩ := hs
    split at hs
    · next hhost =>
      rw [hhost] at hphase
      cases hs
      have hhand := hd.inHand_none hfree
      exact ⟨⟨hd.enabled, fun hsome => absurd hhand hsome⟩,
        hphase.begins hfree hhand (of_decide_eq_true hmode) generation⟩
    · cases hs
      exact ⟨hd, hphase⟩
    · cases hs
  | release | cancel =>
    simp only [Feed.hostStep] at hs
    split at hs
    · cases hs
      exact ⟨hd, hphase⟩
    · cases hs
      exact ⟨hd, hphase⟩
    · next ring begun hhost =>
      rw [hhost] at hphase
      cases hs
      exact ⟨⟨hd.enabled, hd.inHand⟩, hphase.next _⟩
    · cases hs
  | waitReady =>
    simp only [Feed.hostStep] at hs
    split at hs
    · next ring begun hhost =>
      rw [hhost] at hphase
      cases hs
      exact ⟨⟨hd.enabled, hd.inHand⟩, hphase.waits hd _⟩
    · cases hs
  | lock =>
    simp only [Feed.hostStep, Option.ite_none_left_eq_some] at hs
    obtain ⟨-, hs⟩ := hs
    split at hs
    · next ring begun hhost =>
      rw [hhost] at hphase
      cases hs
      exact ⟨⟨hd.enabled, fun hsome => absurd hphase.inHand hsome⟩, hphase.locks .release⟩
    · next ring begun hhost =>
      rw [hhost] at hphase
      cases hs
      exact ⟨⟨hd.enabled, fun hsome => absurd hphase.inHand hsome⟩, hphase.locks .cancel⟩
    · cases hs
  | feed live liveOpen =>
    have hrounds := hs
    simp only [Feed.hostStep, Feed.feedRound] at hs
    split at hs
    · next exit ring begun locked fedBytes hold hhost _ =>
      rw [hhost] at hphase
      exact kept_feedRound hd hhost hphase hrounds
    · cases hs
  | enter | beginUtterance | push | send | close | leave | sendSwap => cases hs

theorem kept_step {out : List Empty} (h : Kept s) (hmode : i.buffersAll = true)
    (hs : Feed.step s i = some (t, out)) : Kept t := by
  obtain ⟨u, hu, heq⟩ := Option.map_eq_some_iff.mp hs
  cases heq
  cases hi : i.isInbound with
  | true => exact kept_inbound h hi hu
  | false =>
    have hhost : s.apply i = s.hostStep i := by cases i <;> first | rfl | cases hi
    rw [hhost] at hu
    exact kept_hostStep h hmode hu

theorem kept_new : Kept .new :=
  ⟨⟨rfl, fun hsome => absurd rfl hsome⟩, rfl, nofun, rfl, recent_inactive rfl _⟩

theorem kept_run {is : List FeedInput} {os : List Empty} (hmode : ∀ i ∈ is, i.buffersAll = true)
    (hr : run Feed.step .new is = some (s, os)) : Kept s :=
  run_invariant (C := fun _ i => i.buffersAll = true) (fun _ _ _ _ h hi hs => kept_step h hi hs)
    kept_new (along_of_forall_mem hmode _) hr

/-! ## What the providers get of a hold -/

/-- `got` is `all` without as many of its bytes as were dropped. -/
def ReachesOnce (got all : Pcm) (droppedBytes : Nat) : Prop :=
  got.Sublist all ∧ got.length + droppedBytes = all.length

/-- After a release: the provider that was swapped in during the hold has received the seed of the
open utterance and every frame since the hold began, less the oldest bytes, which are counted as
dropped, and the live frames since. A frame in hand is sent next. -/
def ReleasedWhole (s : Feed) : Prop :=
  ∀ ring begun locked droppedBytes, s.host = .ended .release ring begun locked droppedBytes →
    SwapsIn (locked.commands.drop begun.commands.length) →
    ¬ SwapsIn (s.commands.drop locked.commands.length) →
    receives s.commands ++ s.inHand.getD [] =
      (held ring begun locked.handed).drop droppedBytes ++ s.handed.drop locked.handed.length

/-- After a cancel: of what the old provider had received from `start` on and what was handed in
since the hold began, it has received each byte once, less the bytes counted as dropped. -/
def CancelledOnce (s : Feed) (begun : Mark) (droppedBytes start : Nat) : Prop :=
  ReachesOnce ((receives s.commands ++ s.inHand.getD []).drop start)
    ((receives begun.commands ++ s.handed.drop begun.handed.length).drop start) droppedBytes

theorem seed_eq_none_iff : ring.seed = none ↔ ring.seed.getD [] = [] := by
  unfold UtteranceReplayBuffer.seed UtteranceReplayBuffer.snapshotPcm
  split
  · split
    · exact ⟨fun _ => rfl, fun _ => rfl⟩
    · next hfull =>
      refine ⟨nofun, fun hempty => absurd ?_ hfull⟩
      rw [show ring.pcm = [] from hempty, List.isEmpty_nil, Bool.or_true]
  · exact ⟨fun _ => rfl, fun _ => rfl⟩

section Exits

variable {s : Feed} {ring : UtteranceReplayBuffer} {begun locked : Mark} {droppedBytes : Nat}

section

variable (h : Over s ring begun locked droppedBytes)
include h

theorem Over.releasedWhole (hswap : SwapsIn (locked.commands.drop begun.commands.length))
    (hlast : ¬ SwapsIn (s.commands.drop locked.commands.length)) :
    receives s.commands ++ s.inHand.getD [] =
      (held ring begun locked.handed).drop droppedBytes ++ s.handed.drop locked.handed.length := by
  have hlocked : receives locked.commands = [] := by
    rw [← List.prefix_iff_eq_append.mp h.silent.commands]
    exact receives_of_swapsIn hswap h.silent.quiet
  rw [← List.prefix_iff_eq_append.mp h.commands, receives_append hlast, hlocked]
  exact h.sent

/-- What the old provider has received after a cancel: the held audio behind what it had received
before. -/
theorem Over.receives_eq (hold : ¬ SwapsIn (s.commands.drop begun.commands.length)) :
    receives s.commands ++ s.inHand.getD [] =
      receives begun.commands ++ ((held ring begun locked.handed).drop droppedBytes ++
        s.handed.drop locked.handed.length) := by
  have hsince : s.commands.drop begun.commands.length =
      locked.commands.drop begun.commands.length ++ s.commands.drop locked.commands.length := by
    rw [← List.drop_append_of_le_length h.silent.commands.length_le,
      List.prefix_iff_eq_append.mp h.commands]
  have haudio : audio (s.commands.drop begun.commands.length) =
      audio (s.commands.drop locked.commands.length) := by
    rw [hsince, audio_append, h.silent.quiet, List.nil_append]
  rw [← List.prefix_iff_eq_append.mp (h.silent.commands.trans h.commands), receives_append hold,
    haudio, List.append_assoc, h.sent]

theorem Over.handed_eq :
    s.handed.drop begun.handed.length =
      locked.handed.drop begun.handed.length ++ s.handed.drop locked.handed.length := by
  rw [← List.drop_append_of_le_length h.silent.handed.length_le,
    List.prefix_iff_eq_append.mp h.handed]

theorem Over.cancelledOnce_iff (hold : ¬ SwapsIn (s.commands.drop begun.commands.length))
    {start : Nat} (hstart : start ≤ (receives begun.commands).length) :
    CancelledOnce s begun droppedBytes start ↔ ring.seed = none := by
  have hdropped := h.dropped
  rw [CancelledOnce, h.receives_eq hold, h.handed_eq, List.drop_append_of_le_length hstart,
    List.drop_append_of_le_length hstart, seed_eq_none_iff]
  constructor
  · intro honce
    have hlength := honce.2
    simp only [List.length_append, held, List.length_drop] at hlength hdropped
    exact List.length_eq_zero_iff.mp (by omega)
  · intro hseed
    rw [held, hseed, List.nil_append] at hdropped ⊢
    refine ⟨((List.drop_sublist _ _).append (List.Sublist.refl _)).append_left _, ?_⟩
    simp only [List.length_append, List.length_drop] at hdropped ⊢
    omega

end

end Exits

/-- After every run with one hold: a release hands the new provider the whole of the held audio.
A cancel hands the old provider everything once exactly when the ring held no audio of an open
utterance as the hold began. -/
theorem hold_keeps_audio {s : Feed} {is : List FeedInput} {os : List Empty}
    (hmode : ∀ i ∈ is, i.buffersAll = true) (hr : run Feed.step .new is = some (s, os)) :
    ReleasedWhole s ∧
      ∀ ring begun locked droppedBytes, s.host = .ended .cancel ring begun locked droppedBytes →
        ¬ SwapsIn (s.commands.drop begun.commands.length) →
        ∀ start ≤ (receives begun.commands).length,
          (CancelledOnce s begun droppedBytes start ↔ ring.seed = none) := by
  have hkept := (kept_run hmode hr).2
  constructor
  · intro ring begun locked droppedBytes hhost hswap hlast
    rw [hhost] at hkept
    exact hkept.releasedWhole hswap hlast
  · intro ring begun locked droppedBytes hhost hold start hstart
    rw [hhost] at hkept
    exact hkept.cancelledOnce_iff hold hstart

/-- A frame of an open utterance, and a hold that buffers a second frame. -/
def holdRun : List FeedInput :=
  [.enter, .beginUtterance true, .push [1, 2], .send, .leave,
    .beginHold ⟨.bufferReplay, none⟩ 0, .enter, .push [3, 4], .leave]

def openRing : UtteranceReplayBuffer :=
  { UtteranceReplayBuffer.new with pcm := [1, 2], active := true }

def heldFrom : Mark := ⟨[.audio [1, 2]], [1, 2]⟩

/-- The feed after the hold, with what was sent since it began. -/
def afterHold (exit : Exit) (swapped sent : List SttCommand) : Feed where
  sttEnabled := true
  sttHold := none
  utteranceReplayBuffer := UtteranceReplayBuffer.new.invalidate
  utteranceStep := none
  inHand := none
  commands := heldFrom.commands ++ swapped ++ sent
  handed := [1, 2, 3, 4]
  host := .ended exit openRing heldFrom ⟨heldFrom.commands ++ swapped, [1, 2, 3, 4]⟩ 0

theorem hold_keeps_audio_released :
    let s := afterHold .release [.swap true, .waitReady] [.audio [1, 2, 3, 4]]
    receives s.commands = [1, 2, 3, 4] ∧ ReleasedWhole s :=
  ⟨rfl, (@hold_keeps_audio _
    (holdRun ++ [.sendSwap true, .release, .waitReady, .lock, .feed true true, .feed true true]) []
    (by decide) rfl).1⟩

/-- A cancel sends the frame again that the old provider has received. -/
theorem cancel_repeats_seed :
    let s := afterHold .cancel [] [.audio [1, 2, 3, 4]]
    run Feed.step .new (holdRun ++ [.cancel, .lock, .feed true true, .feed true true]) =
        some (s, []) ∧
      receives s.commands = [1, 2, 1, 2, 3, 4] ∧ ¬ CancelledOnce s heldFrom 0 0 := by
  refine ⟨rfl, rfl, fun honce => ?_⟩
  have hlength : 6 + 0 = 4 := honce.2
  cases hlength

end NodeWebrtc.HeldStt
