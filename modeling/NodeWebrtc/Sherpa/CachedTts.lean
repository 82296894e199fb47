import NodeWebrtc.Lib.Machine
import NodeWebrtc.Lib.Trace
import NodeWebrtc.Sherpa.Sentences
import NodeWebrtc.Speech.PhraseCache

/-! # Speech through the phrase cache

Providers of one process share a phrase cache. A call looks its key up, else it runs the
inner provider, which synthesises the engine pieces of its text one after another and may be
cancelled or fail in between. The engine and its resampler are parameters.
-/

namespace NodeWebrtc.Sherpa

open Text Speech Std

def STEREO_FRAME_20MS_BYTES : Nat := 3840

inductive SpeechError where
  | config (message : String)
  | internal (message : String)
  | vendor (message : String)
deriving DecidableEq, Repr

/-- What the engine knows of a configuration. The code reads an absent text like an empty
one: both leave the speaker and the speed at their defaults and the directory to the
environment. -/
structure EngineVoice where
  provider : TtsVendor
  model : String
  modelPath : String
  voice : String
  endpoint : String
deriving DecidableEq, Repr

def EngineVoice.ofConfig (cfg : TtsConfig) : EngineVoice where
  provider := cfg.provider
  model := cfg.model.getD ""
  modelPath := cfg.modelPath.getD ""
  voice := cfg.voice.getD ""
  endpoint := cfg.endpoint.getD ""

/-- The engine and the resampler that spans the pieces of one synthesis. -/
structure TtsEngine (β : Type) where
  Resampler : Type
  /-- The PCM of one piece; the first piece creates the resampler. -/
  sentence : EngineVoice → Option Resampler → List Char → List (List β) × Option Resampler
  finish : Resampler → List β
  silence : β

/-- What a process brings to every synthesis in it. -/
structure SherpaHost (β : Type) where
  tables : CharTables
  engine : TtsEngine β
  defaultModelPath : Option String

/-- Why a synthesis does not get past a piece. -/
inductive Interrupt where
  | cancelled
  /-- The sink was cancelled or gone while the piece was generated. -/
  | stopped
  | failed (error : SpeechError)
deriving DecidableEq, Repr

/-- What happens to one synthesis: a failure before the first piece, the pieces that do not
complete, and a sink cancelled at the very end. -/
structure Interrupts where
  openError : Option SpeechError
  piece : Nat → Option Interrupt
  tailCancelled : Bool

def Interrupts.none : Interrupts := ⟨Option.none, fun _ => Option.none, false⟩

structure TtsSynthesis (β : Type) where
  chunks : List (TtsAudioChunk β)
  complete : Bool
deriving DecidableEq, Repr

def TtsSynthesis.pcm {β : Type} (s : TtsSynthesis β) : List β := s.chunks.flatMap TtsAudioChunk.pcm

/-! ## The inner provider -/

def fileName (path : List Char) : Option (List Char) :=
  ((path.splitOn '/').filter fun part => part ≠ [] ∧ part ≠ ['.']).getLast?.filter
    (· ≠ ['.', '.'])

def isKittenDirName (U : CharTables) (dir : List Char) : Bool :=
  (fileName dir).any fun name => ['k', 'i', 't', 't', 'e', 'n'].isPrefixOf (U.lowercase name)

def padLenTo20ms (len : Nat) : Nat :=
  if len % STEREO_FRAME_20MS_BYTES = 0 then 0
  else STEREO_FRAME_20MS_BYTES - len % STEREO_FRAME_20MS_BYTES

def stereoDurationMs (stereoLen : Nat) : Nat :=
  max (stereoLen / 2 / 2 * 1000 / 48000) 1 % 2 ^ 32

namespace SherpaHost

variable {β : Type}

def resolveTtsModelDir (H : SherpaHost β) (cfg : TtsConfig) : Option String :=
  (cfg.modelPath.filter (· ≠ "")).or H.defaultModelPath

def modelFamily (H : SherpaHost β) (cfg : TtsConfig) : TtsModelFamily :=
  if (H.resolveTtsModelDir cfg).any fun dir => isKittenDirName H.tables dir.toList then .kitten
  else .vits

def phraseCacheText (H : SherpaHost β) (cfg : TtsConfig) (normalized : List Char) : List Char :=
  familyText H.tables (H.modelFamily cfg) normalized

/-- The sentence loop of `synthesize_miss`: the PCM so far, and whether every piece completed. -/
def sentences (H : SherpaHost β) (voice : EngineVoice) (interrupt : Nat → Option Interrupt)
    (index : Nat) (resampler : Option H.engine.Resampler) (pcm : List β) :
    List (List Char) → Except SpeechError (Bool × Option H.engine.Resampler × List β)
  | [] => .ok (true, resampler, pcm)
  | sentence :: rest =>
    let out := H.engine.sentence voice resampler sentence
    match interrupt index with
    | some .cancelled => .ok (false, resampler, pcm)
    | some .stopped => .ok (false, out.2, pcm ++ out.1.flatten)
    | some (.failed error) => .error error
    | none => H.sentences voice interrupt (index + 1) out.2 (pcm ++ out.1.flatten) rest

/-- The clip of a completed synthesis: the resampler's tail, then silence up to 20 ms. -/
def clip (H : SherpaHost β) (resampler : Option H.engine.Resampler) (pcm : List β) :
    TtsAudioChunk β :=
  let pcm := pcm ++ (resampler.map H.engine.finish).getD []
  if pcm.isEmpty then ⟨[], 1⟩
  else
    let padded := pcm ++ List.replicate (padLenTo20ms pcm.length) H.engine.silence
    ⟨padded, stereoDurationMs padded.length⟩

/-- Synthesises `normalized` one piece at a time. -/
def synthesizeMiss (H : SherpaHost β) (cfg : TtsConfig) (normalized : List Char)
    (interrupts : Interrupts) : Except SpeechError (TtsAudioChunk β × Bool) :=
  match interrupts.openError with
  | some error => .error error
  | none =>
    let pieces := enginePieces H.tables normalized cfg.sentenceCase (H.modelFamily cfg)
    match H.sentences (.ofConfig cfg) interrupts.piece 0 none [] pieces with
    | .error error => .error error
    | .ok (completed, resampler, pcm) =>
      if !completed || interrupts.tailCancelled then .ok (⟨[], 0⟩, false)
      else .ok (H.clip resampler pcm, true)

/-- Normalises `text`, synthesises it and reports whether it ran to the end. -/
def synthesizeText (H : SherpaHost β) (cfg : TtsConfig) (text : List Char)
    (interrupts : Interrupts) : Except SpeechError (TtsSynthesis β) :=
  let normalized := normalizePhraseText text
  if normalized.isEmpty then .ok ⟨[], true⟩
  else
    match H.synthesizeMiss cfg normalized interrupts with
    | .error error => .error error
    | .ok (_, false) => .ok ⟨[], false⟩
    | .ok (chunk, true) => .ok ⟨[chunk], true⟩

end SherpaHost

/-! ## Providers over one cache -/

/-- A provider of one agent, with the project it is bound to. -/
structure CachingTtsProvider where
  config : TtsConfig
  projectId : String
deriving DecidableEq, Repr

def CachingTtsProvider.bindSessionContext (p : CachingTtsProvider) (projectId : Option String) :
    CachingTtsProvider :=
  { p with projectId := (projectId.map trim).getD "" }

structure Call where
  config : TtsConfig
  projectId : String
  text : List Char
deriving DecidableEq, Repr

/-- An answer of a call, with where it came from, or a clip put into the cache. -/
inductive CacheEvent (β : Type) where
  | hit (call : Call) (clip : TtsAudioChunk β)
  | synthesized (call : Call) (result : Except SpeechError (TtsSynthesis β))
  | stored (call : Call) (clip : TtsAudioChunk β)

structure SpeechProcess (β : Type) where
  providers : List CachingTtsProvider
  cache : PhraseCache β
  /-- Calls that missed and are in the inner provider. -/
  pending : List Call
  /-- The sentence case of the call that stored each phrase last; no code reads it. -/
  storedCase : ExtTreeMap PhraseKey SentenceCase

inductive CacheOp where
  | wrap (config : TtsConfig)
  | bind (provider : Nat) (projectId : Option String)
  | synthesize (provider : Nat) (text : List Char)
  /-- The inner provider is done with a pending call. -/
  | finish (call : Nat) (interrupts : Interrupts)

namespace SherpaHost

variable {β : Type}

def key (H : SherpaHost β) (call : Call) : PhraseKey :=
  .new call.config call.projectId (H.phraseCacheText call.config (normalizePhraseText call.text))

/-- The start of a call: it is answered from the cache, or goes on to the inner provider. -/
def start (H : SherpaHost β) (s : SpeechProcess β) (call : Call) :
    SpeechProcess β × List (CacheEvent β) :=
  if (normalizePhraseText call.text).isEmpty then (s, [.synthesized call (.ok ⟨[], true⟩)])
  else
    let found := s.cache.get (H.key call)
    match found.1 with
    | some clip => ({ s with cache := found.2 }, [.hit call clip])
    | none => ({ s with cache := found.2, pending := s.pending ++ [call] }, [])

/-- The end of a call that missed: a complete synthesis with audio is stored. -/
def answer (H : SherpaHost β) (s : SpeechProcess β) (call : Call) (interrupts : Interrupts) :
    SpeechProcess β × List (CacheEvent β) :=
  let result := H.synthesizeText call.config call.text interrupts
  match result with
  | .error _ => (s, [.synthesized call result])
  | .ok out =>
    match (if out.complete then concatChunks out.chunks else none) with
    | none => (s, [.synthesized call result])
    | some clip =>
      let s' := { s with cache := s.cache.insert (H.key call) clip }
      if s.cache.accepts clip then
        ({ s' with
            storedCase := s.storedCase.insert (H.key call) call.config.sentenceCase },
          [.stored call clip, .synthesized call result])
      else (s', [.synthesized call result])

def step (H : SherpaHost β) : Machine.Step (SpeechProcess β) CacheOp (CacheEvent β) := fun s op =>
  match op with
  | .wrap config => some ({ s with providers := s.providers ++ [⟨config, ""⟩] }, [])
  | .bind provider projectId =>
    s.providers[provider]?.map fun p =>
      ({ s with providers := s.providers.set provider (p.bindSessionContext projectId) }, [])
  | .synthesize provider text =>
    s.providers[provider]?.map fun p => H.start s ⟨p.config, p.projectId, text⟩
  | .finish call interrupts =>
    s.pending[call]?.map fun c =>
      H.answer { s with pending := s.pending.eraseIdx call } c interrupts

/-- A process with no providers and an empty cache. -/
def initial (β : Type) (maxBytes maxEntryBytes : Nat) : SpeechProcess β :=
  ⟨[], .new β maxBytes maxEntryBytes, [], ∅⟩

/-! ## The clip of a call -/

def keyPieces (U : CharTables) (text : List Char) (mode : SentenceCase) : List (List Char) :=
  let engineText := (prepareEngineText U text mode).text
  let pieces := splitForFirstAudio U engineText
  if pieces.isEmpty then [engineText] else pieces

def speak (H : SherpaHost β) (voice : EngineVoice) (resampler : Option H.engine.Resampler)
    (pcm : List β) : List (List Char) → Option H.engine.Resampler × List β
  | [] => (resampler, pcm)
  | sentence :: rest =>
    let out := H.engine.sentence voice resampler sentence
    H.speak voice out.2 (pcm ++ out.1.flatten) rest

/-- The complete audio of the pieces: a function of them and of the voice. -/
def audio (H : SherpaHost β) (voice : EngineVoice) (pieces : List (List Char)) : TtsAudioChunk β :=
  let spoken := H.speak voice none [] pieces
  H.clip spoken.1 spoken.2

variable {H : SherpaHost β}

theorem sentences_complete {voice : EngineVoice} {interrupt : Nat → Option Interrupt}
    {pieces : List (List Char)} {index : Nat} {r r' : Option H.engine.Resampler} {pcm pcm' : List β}
    (h : H.sentences voice interrupt index r pcm pieces = .ok (true, r', pcm')) :
    H.speak voice r pcm pieces = (r', pcm') := by
  induction pieces generalizing index r pcm with
  | nil =>
    simp only [sentences, Except.ok.injEq, Prod.mk.injEq, true_and] at h
    rw [speak, h.1, h.2]
  | cons sentence rest ih =>
    unfold sentences at h
    cases hi : interrupt index with rw [hi] at h
    | none =>
      exact ih h
    | some why =>
      cases why <;> simp at h

theorem sentences_uninterrupted (H : SherpaHost β) (voice : EngineVoice)
    (pieces : List (List Char)) (index : Nat) (r : Option H.engine.Resampler) (pcm : List β) :
    H.sentences voice (fun _ => none) index r pcm pieces =
      .ok (true, H.speak voice r pcm pieces) := by
  induction pieces generalizing index r pcm with
  | nil => rfl
  | cons sentence rest ih => exact ih _ _ _

theorem synthesizeText_uninterrupted (H : SherpaHost β) (cfg : TtsConfig) {text : List Char}
    (htext : (normalizePhraseText text).isEmpty = false) :
    H.synthesizeText cfg text .none =
      .ok ⟨[H.audio (.ofConfig cfg)
        (keyPieces H.tables (H.phraseCacheText cfg (normalizePhraseText text)) cfg.sentenceCase)],
        true⟩ := by
  unfold synthesizeText synthesizeMiss Interrupts.none
  simp only [htext, sentences_uninterrupted]
  rfl

theorem synthesizeText_complete {cfg : TtsConfig} {text : List Char} {interrupts : Interrupts}
    {out : TtsSynthesis β} (h : H.synthesizeText cfg text interrupts = .ok out)
    (hc : out.complete = true) :
    H.synthesizeText cfg text .none = .ok out := by
  by_cases htext : (normalizePhraseText text).isEmpty = true
  · unfold synthesizeText at h ⊢
    simp only [htext, if_true] at h ⊢
    exact h
  · rw [Bool.not_eq_true] at htext
    rw [synthesizeText_uninterrupted H cfg htext]
    unfold synthesizeText synthesizeMiss at h
    simp only [htext, Bool.false_eq_true, if_false] at h
    cases hopen : interrupts.openError with
    | some error => simp [hopen] at h
    | none =>
      simp only [hopen] at h
      cases hs : H.sentences (.ofConfig cfg) interrupts.piece 0 none []
          (enginePieces H.tables (normalizePhraseText text) cfg.sentenceCase
            (H.modelFamily cfg)) with
      | error error => simp [hs] at h
      | ok spoken =>
        obtain ⟨completed, resampler, pcm⟩ := spoken
        simp only [hs] at h
        by_cases hend : (!completed || interrupts.tailCancelled) = true
        · rw [if_pos hend] at h
          simp only [Except.ok.injEq] at h
          rw [← h] at hc
          simp at hc
        · rw [if_neg hend] at h
          have hcompleted : completed = true := by
            cases completed with
            | true => rfl
            | false => simp at hend
          rw [hcompleted] at hs
          have hspeak : H.speak (.ofConfig cfg) none [] (keyPieces H.tables
              (H.phraseCacheText cfg (normalizePhraseText text)) cfg.sentenceCase) =
              (resampler, pcm) := sentences_complete hs
          unfold audio
          rw [hspeak]
          exact h

/-! ## What an answer is worth -/

/-- `pcm` is what the call returns without the cache when nothing interrupts it. -/
def Transparent (H : SherpaHost β) (call : Call) (pcm : List β) : Prop :=
  ∃ uncached, H.synthesizeText call.config call.text .none = .ok uncached ∧
    uncached.complete = true ∧ pcm = uncached.pcm

def Faithful (H : SherpaHost β) : CacheEvent β → Prop
  | .hit call clip => H.Transparent call clip.pcm
  | .synthesized call (.ok out) => out.complete = true → H.Transparent call out.pcm
  | .synthesized _ (.error _) => True
  | .stored call clip => H.Transparent call clip.pcm

/-- A clip from the cache was stored before by a call of the same project. -/
def OwnClip (before : List (CacheEvent β)) : CacheEvent β → Prop
  | .hit call clip => ∃ storer, .stored storer clip ∈ before ∧ storer.projectId = call.projectId
  | _ => True

/-- A call that finds its phrase has the engine pieces of the call that stored it. -/
def CaseAgrees (H : SherpaHost β) (s : SpeechProcess β) : CacheOp → Prop
  | .synthesize provider text =>
    ∀ p, s.providers[provider]? = some p →
      let key := H.key ⟨p.config, p.projectId, text⟩
      (s.cache.clip? key).isSome → ∀ mode, s.storedCase[key]? = some mode →
        keyPieces H.tables key.text mode = keyPieces H.tables key.text p.config.sentenceCase
  | _ => True

/-- Every clip held was stored by a call with its key, and is that call's audio. -/
def ClipsKnown (H : SherpaHost β) (s : SpeechProcess β) (out : List (CacheEvent β)) : Prop :=
  ∀ key clip, s.cache.clip? key = some clip → ∃ storer, .stored storer clip ∈ out ∧
    H.key storer = key ∧ (normalizePhraseText storer.text).isEmpty = false ∧
    s.storedCase[key]? = some storer.config.sentenceCase ∧ H.Transparent storer clip.pcm

theorem asStr_injective : Function.Injective TtsVendor.asStr := by
  intro a b h
  cases a <;> cases b <;> first | rfl | (simp [TtsVendor.asStr] at h)

theorem key_eq {a b : Call} (h : H.key a = H.key b) :
    a.projectId = b.projectId ∧ EngineVoice.ofConfig a.config = .ofConfig b.config ∧
      H.phraseCacheText a.config (normalizePhraseText a.text) =
        H.phraseCacheText b.config (normalizePhraseText b.text) := by
  simp only [key, PhraseKey.new, PhraseKey.mk.injEq] at h
  obtain ⟨hproject, hvendor, hmodel, hpath, hvoice, hendpoint, htext⟩ := h
  refine ⟨hproject, ?_, htext⟩
  unfold EngineVoice.ofConfig
  rw [asStr_injective hvendor, hmodel, hpath, hvoice, hendpoint]

theorem Transparent.of_key {storer call : Call} {pcm : List β} (h : H.Transparent storer pcm)
    (hkey : H.key storer = H.key call) (hs : (normalizePhraseText storer.text).isEmpty = false)
    (hc : (normalizePhraseText call.text).isEmpty = false)
    (hpieces : keyPieces H.tables (H.key call).text storer.config.sentenceCase =
      keyPieces H.tables (H.key call).text call.config.sentenceCase) :
    H.Transparent call pcm := by
  obtain ⟨-, hvoice, htext⟩ := key_eq hkey
  obtain ⟨uncached, hrun, hcomplete, hpcm⟩ := h
  refine ⟨uncached, ?_, hcomplete, hpcm⟩
  rw [synthesizeText_uninterrupted H _ hs] at hrun
  rw [synthesizeText_uninterrupted H _ hc, ← hrun, ← hvoice, htext]
  have hsame : keyPieces H.tables (H.phraseCacheText call.config (normalizePhraseText call.text))
      storer.config.sentenceCase = _ := hpieces
  rw [hsame]
  rfl

theorem concatChunks_pcm {chunks : List (TtsAudioChunk β)} {clip : TtsAudioChunk β}
    (h : concatChunks chunks = some clip) : clip.pcm = chunks.flatMap TtsAudioChunk.pcm := by
  unfold concatChunks at h
  dsimp only at h
  split at h
  · contradiction
  · rw [Option.some.injEq] at h
    rw [← h]

/-! ## One step -/

variable {s : SpeechProcess β} {out : List (CacheEvent β)}

theorem ClipsKnown.mono (h : H.ClipsKnown s out) (new : List (CacheEvent β)) :
    H.ClipsKnown s (out ++ new) := by
  intro key clip hclip
  obtain ⟨storer, hstored, hrest⟩ := h key clip hclip
  exact ⟨storer, List.mem_append_left _ hstored, hrest⟩

variable {t : SpeechProcess β}

theorem ClipsKnown.of_cache (h : H.ClipsKnown s out) (hcase : t.storedCase = s.storedCase)
    (hcache : ∀ key, t.cache.clip? key = s.cache.clip? key) : H.ClipsKnown t out := by
  intro key clip hclip
  rw [hcache] at hclip
  rw [hcase]
  exact h key clip hclip

/-- What holds of a run so far: the clips held are known, and every hit was the project's own. -/
structure Known (H : SherpaHost β) (s : SpeechProcess β) (out : List (CacheEvent β)) : Prop where
  clips : H.ClipsKnown s out
  own : EachAfter OwnClip out

theorem Known.start (h : H.Known s out) (call : Call) :
    H.Known (H.start s call).1 (out ++ (H.start s call).2) ∧
      ((∀ mode, (s.cache.clip? (H.key call)).isSome → s.storedCase[H.key call]? = some mode →
          keyPieces H.tables (H.key call).text mode =
            keyPieces H.tables (H.key call).text call.config.sentenceCase) →
        ∀ e ∈ (H.start s call).2, H.Faithful e) := by
  unfold SherpaHost.start
  by_cases htext : (normalizePhraseText call.text).isEmpty = true
  · rw [if_pos htext]
    refine ⟨⟨h.clips.mono _, h.own.snoc trivial⟩, fun _ e he => ?_⟩
    rw [List.mem_singleton.mp he]
    intro _
    refine ⟨⟨[], true⟩, ?_, rfl, rfl⟩
    unfold synthesizeText
    simp only [htext, if_true]
  · rw [if_neg htext]
    dsimp only
    rw [PhraseCache.get_fst]
    have hsame := fun k => s.cache.clip?_get (H.key call) k
    cases hclip : s.cache.clip? (H.key call) with
    | none =>
      rw [List.append_nil]
      exact ⟨⟨h.clips.of_cache rfl hsame, h.own⟩, fun _ e he => absurd he List.not_mem_nil⟩
    | some clip =>
      obtain ⟨storer, hstored, hkey, hstext, hcase, htrans⟩ := h.clips _ clip hclip
      have hclips : H.ClipsKnown { s with cache := (s.cache.get (H.key call)).2 } out :=
        h.clips.of_cache rfl hsame
      refine ⟨⟨hclips.mono _, h.own.snoc ⟨storer, hstored, (key_eq hkey).1⟩⟩, fun hagree e he => ?_⟩
      rw [List.mem_singleton.mp he]
      exact htrans.of_key hkey hstext (Bool.not_eq_true _ ▸ htext) (hagree _ rfl hcase)

theorem Known.synthesized (h : H.Known s out) (call : Call) (interrupts : Interrupts) :
    H.Known s
        (out ++ [.synthesized call (H.synthesizeText call.config call.text interrupts)]) ∧
      H.Faithful (.synthesized call (H.synthesizeText call.config call.text interrupts)) := by
  refine ⟨⟨h.clips.mono _, h.own.snoc trivial⟩, ?_⟩
  cases hr : H.synthesizeText call.config call.text interrupts with
  | error error => trivial
  | ok result =>
    intro hcomplete
    exact ⟨result, synthesizeText_complete hr hcomplete, hcomplete, rfl⟩

theorem transparent_of_concat {call : Call} {interrupts : Interrupts} {result : TtsSynthesis β}
    {clip : TtsAudioChunk β} (hr : H.synthesizeText call.config call.text interrupts = .ok result)
    (hclip : (if result.complete then concatChunks result.chunks else none) = some clip) :
    (normalizePhraseText call.text).isEmpty = false ∧ H.Transparent call clip.pcm := by
  by_cases hcomplete : result.complete = true
  · rw [if_pos hcomplete] at hclip
    constructor
    · rw [← Bool.not_eq_true]
      intro htext
      unfold synthesizeText at hr
      simp only [htext, if_true, Except.ok.injEq] at hr
      rw [← hr] at hclip
      exact absurd hclip (by simp [concatChunks])
    · exact ⟨result, synthesizeText_complete hr hcomplete, hcomplete, concatChunks_pcm hclip⟩
  · rw [if_neg hcomplete] at hclip
    contradiction

theorem Known.answer (h : H.Known s out) (call : Call) (interrupts : Interrupts) :
    H.Known (H.answer s call interrupts).1 (out ++ (H.answer s call interrupts).2) ∧
      ∀ e ∈ (H.answer s call interrupts).2, H.Faithful e := by
  have hplain := h.synthesized call interrupts
  unfold SherpaHost.answer
  cases hr : H.synthesizeText call.config call.text interrupts with rw [hr] at hplain
  | error error =>
    exact ⟨hplain.1, fun e he => List.mem_singleton.mp he ▸ hplain.2⟩
  | ok result =>
    dsimp only
    cases hclip : (if result.complete then concatChunks result.chunks else none) with
    | none => exact ⟨hplain.1, fun e he => List.mem_singleton.mp he ▸ hplain.2⟩
    | some clip =>
      dsimp only
      by_cases ha : s.cache.accepts clip = true
      · rw [if_pos ha]
        obtain ⟨htext, htrans⟩ := transparent_of_concat hr hclip
        refine ⟨⟨?_, ?_⟩, ?_⟩
        · intro key v hv
          rcases PhraseCache.clip?_insert ha hv with ⟨rfl, rfl⟩ | ⟨hne, hold⟩
          · refine ⟨call, by simp, rfl, htext, ?_, htrans⟩
            rw [OrdMap.lookup_insert, if_pos rfl]
          · obtain ⟨storer, hstored, hkey, hstext, hcase, hsound⟩ := h.clips key v hold
            refine ⟨storer, List.mem_append_left _ hstored, hkey, hstext, ?_, hsound⟩
            rw [OrdMap.lookup_insert, if_neg hne]
            exact hcase
        · have hstored : EachAfter OwnClip (out ++ [.stored call clip]) := h.own.snoc trivial
          rw [List.append_cons]
          exact hstored.snoc trivial
        · intro e he
          rcases List.mem_cons.mp he with rfl | he
          · exact htrans
          · exact List.mem_singleton.mp he ▸ hplain.2
      · rw [if_neg ha, PhraseCache.insert_of_not_accepts (Bool.not_eq_true _ ▸ ha)]
        exact ⟨hplain.1, fun e he => List.mem_singleton.mp he ▸ hplain.2⟩

theorem Known.step {op : CacheOp} {new : List (CacheEvent β)} (h : H.Known s out)
    (hstep : H.step s op = some (t, new)) :
    H.Known t (out ++ new) ∧ (H.CaseAgrees s op → ∀ e ∈ new, H.Faithful e) := by
  cases op with simp only [SherpaHost.step, Option.map_eq_some_iff] at hstep
  | wrap config =>
    cases hstep
    rw [List.append_nil]
    exact ⟨⟨h.clips.of_cache rfl fun _ => rfl, h.own⟩, fun _ e he => absurd he List.not_mem_nil⟩
  | bind provider projectId =>
    obtain ⟨p, -, rfl, rfl⟩ := hstep
    rw [List.append_nil]
    exact ⟨⟨h.clips.of_cache rfl fun _ => rfl, h.own⟩, fun _ e he => absurd he List.not_mem_nil⟩
  | synthesize provider text =>
    obtain ⟨p, hp, heq⟩ := hstep
    obtain ⟨hknown, hfaithful⟩ := h.start ⟨p.config, p.projectId, text⟩
    rw [heq] at hknown hfaithful
    exact ⟨hknown, fun hagree => hfaithful fun mode hsome hmode => hagree p hp hsome mode hmode⟩
  | finish call interrupts =>
    obtain ⟨c, -, heq⟩ := hstep
    have hpending : H.Known { s with pending := s.pending.eraseIdx call } out :=
      ⟨h.clips.of_cache rfl fun _ => rfl, h.own⟩
    obtain ⟨hknown, hfaithful⟩ := hpending.answer c interrupts
    rw [heq] at hknown hfaithful
    exact ⟨hknown, fun _ => hfaithful⟩

/-! ## Runs -/

theorem initial_known (H : SherpaHost β) (maxBytes maxEntryBytes : Nat) :
    H.Known (initial β maxBytes maxEntryBytes) [] where
  clips := by
    intro key clip hclip
    simp [initial, PhraseCache.new, PhraseCache.clip?] at hclip
  own := EachAfter.nil

/-- Every configuration of the process has the sentence case `mode`. -/
structure OneCase (mode : SentenceCase) (s : SpeechProcess β) : Prop where
  providers : ∀ p ∈ s.providers, p.config.sentenceCase = mode
  pending : ∀ call ∈ s.pending, call.config.sentenceCase = mode
  stored : ∀ (key : PhraseKey) (m : SentenceCase), s.storedCase[key]? = some m → m = mode

/-- An operation that brings no other sentence case in. -/
def WrapsCase (mode : SentenceCase) : CacheOp → Prop
  | .wrap config => config.sentenceCase = mode
  | _ => True

variable {mode : SentenceCase}

theorem OneCase.caseAgrees (h : OneCase mode s) (op : CacheOp) : H.CaseAgrees s op := by
  cases op with
  | synthesize provider text =>
    intro p hp _ _ m hm
    rw [h.stored _ m hm, h.providers p (List.mem_of_getElem? hp)]
  | _ => trivial

theorem OneCase.step {op : CacheOp} (h : OneCase mode s) (hop : WrapsCase mode op)
    (hstep : H.step s op = some (t, out)) : OneCase mode t := by
  cases op with simp only [SherpaHost.step, Option.map_eq_some_iff] at hstep
  | wrap config =>
    cases hstep
    refine ⟨fun p hp => ?_, h.pending, h.stored⟩
    rcases List.mem_append.mp hp with hp | hp
    · exact h.providers p hp
    · rw [List.mem_singleton.mp hp]
      exact hop
  | bind provider projectId =>
    obtain ⟨p, hp, rfl, -⟩ := hstep
    refine ⟨fun q hq => ?_, h.pending, h.stored⟩
    rcases List.mem_or_eq_of_mem_set hq with hq | rfl
    · exact h.providers q hq
    · exact h.providers p (List.mem_of_getElem? hp)
  | synthesize provider text =>
    obtain ⟨p, hp, heq⟩ := hstep
    have hcase := h.providers p (List.mem_of_getElem? hp)
    unfold SherpaHost.start at heq
    dsimp only at heq
    split at heq
    · rw [Prod.mk.injEq] at heq
      exact heq.1 ▸ h
    · split at heq <;> rw [Prod.mk.injEq] at heq
      · exact heq.1 ▸ ⟨h.providers, h.pending, h.stored⟩
      · refine heq.1 ▸ ⟨h.providers, fun call hcall => ?_, h.stored⟩
        rcases List.mem_append.mp hcall with hcall | hcall
        · exact h.pending call hcall
        · rw [List.mem_singleton.mp hcall]
          exact hcase
  | finish call interrupts =>
    obtain ⟨c, hc, heq⟩ := hstep
    have hcase := h.pending c (List.mem_of_getElem? hc)
    have hrest : OneCase mode { s with pending := s.pending.eraseIdx call } :=
      ⟨h.providers, fun d hd => h.pending d (List.mem_of_mem_eraseIdx hd), h.stored⟩
    unfold SherpaHost.answer at heq
    dsimp only at heq
    split at heq
    · rw [Prod.mk.injEq] at heq
      exact heq.1 ▸ hrest
    · split at heq
      · rw [Prod.mk.injEq] at heq
        exact heq.1 ▸ hrest
      · split at heq <;> rw [Prod.mk.injEq] at heq
        · refine heq.1 ▸ ⟨hrest.providers, hrest.pending, fun key m hm => ?_⟩
          rw [OrdMap.lookup_insert] at hm
          split at hm
          · exact (Option.some.inj hm).symm.trans hcase
          · exact h.stored key m hm
        · exact heq.1 ▸ ⟨hrest.providers, hrest.pending, hrest.stored⟩

theorem along_caseAgrees (H : SherpaHost β) {ops : List CacheOp} (h : ∀ op ∈ ops, WrapsCase mode op)
    (maxBytes maxEntryBytes : Nat) :
    Machine.Along H.step H.CaseAgrees (initial β maxBytes maxEntryBytes) ops :=
  Machine.along_of_invariant (I := OneCase mode) (P := WrapsCase mode)
    (fun _ _ _ _ hs hop hstep => hs.step hop hstep) (fun _ op hs _ => hs.caseAgrees op)
    ⟨fun p hp => absurd hp List.not_mem_nil, fun c hc => absurd hc List.not_mem_nil,
      fun key m hm => by simp [initial] at hm⟩ h

end SherpaHost

/-! ## Two sentence cases over one cache -/

def echoEngine : TtsEngine Char where
  Resampler := Unit
  sentence := fun _ r text => ([text], r)
  finish := fun _ => []
  silence := ' '

def echoHost : SherpaHost Char := ⟨.ascii, echoEngine, none⟩

def sherpaConfig (mode : SentenceCase) : TtsConfig where
  provider := .localSherpa
  model := none
  modelPath := none
  voice := none
  endpoint := none
  sentenceCase := mode

def lowercaseReply : List Char :=
  ['o', 'k', 'a', 'y', '.', ' ', 'e', 'i', 'g', 'h', 't', ' ', 'o', 'n', 'e']

/-- Two agents whose configurations differ in the sentence case speak the same reply. -/
def twoCases (second : SentenceCase) : List CacheOp :=
  [.wrap (sherpaConfig .auto), .wrap (sherpaConfig second), .synthesize 0 lowercaseReply,
    .finish 0 .none, .synthesize 1 lowercaseReply]

/-- The hits among the answers, with the first PCM of their clips. -/
def hitStarts : List (CacheEvent Char) → List (Call × List Char)
  | [] => []
  | .hit call clip :: rest => (call, clip.pcm.take 15) :: hitStarts rest
  | _ :: rest => hitStarts rest

theorem mem_hitStarts {out : List (CacheEvent Char)} {call : Call} {pcm : List Char}
    (h : (call, pcm) ∈ hitStarts out) :
    ∃ clip, CacheEvent.hit call clip ∈ out ∧ clip.pcm.take 15 = pcm := by
  induction out with
  | nil => simp [hitStarts] at h
  | cons e out ih =>
    cases e with
    | hit c clip =>
      rcases List.mem_cons.mp h with heq | h
      · rw [Prod.mk.injEq] at heq
        exact ⟨clip, heq.1 ▸ List.mem_cons_self, heq.2.symm⟩
      · obtain ⟨clip', hmem, hpcm⟩ := ih h
        exact ⟨clip', List.mem_cons_of_mem _ hmem, hpcm⟩
    | synthesized c result | stored c clip =>
      obtain ⟨clip', hmem, hpcm⟩ := ih h
      exact ⟨clip', List.mem_cons_of_mem _ hmem, hpcm⟩

namespace SherpaHost

end SherpaHost

end NodeWebrtc.Sherpa
