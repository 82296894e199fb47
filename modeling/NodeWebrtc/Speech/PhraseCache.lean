import NodeWebrtc.Lib.OrdMap
import NodeWebrtc.Speech.TtsBuffer
import NodeWebrtc.Speech.TtsText

/-! # The phrase cache

Completed clips by phrase, bounded by their total bytes: a map of entries and the recency
order of their stamps. The bytes are of any type.
-/

namespace NodeWebrtc.Speech

open Std

inductive TtsVendor where
  | openai | deepgram | elevenlabs | google | cartesia | fishaudio | mistral | groq | azure | aws
  | localSherpa | clusterSherpa | mock
deriving DecidableEq, Repr

def TtsVendor.asStr : TtsVendor → String
  | .openai => "openai"
  | .deepgram => "deepgram"
  | .elevenlabs => "elevenlabs"
  | .google => "google"
  | .cartesia => "cartesia"
  | .fishaudio => "fishaudio"
  | .mistral => "mistral"
  | .groq => "groq"
  | .azure => "azure"
  | .aws => "aws"
  | .localSherpa => "local-sherpa"
  | .clusterSherpa => "cluster-sherpa"
  | .mock => "mock"

/-- The fields of a TTS configuration that a synthesis reads. -/
structure TtsConfig where
  provider : TtsVendor
  model : Option String
  modelPath : Option String
  voice : Option String
  endpoint : Option String
  sentenceCase : SentenceCase
deriving DecidableEq, Repr

structure PhraseKey where
  projectId : String
  vendor : String
  model : String
  modelPath : String
  voice : String
  endpoint : String
  text : List Char
deriving DecidableEq, Repr

namespace PhraseKey

def new (cfg : TtsConfig) (projectId : String) (normalized : List Char) : PhraseKey where
  projectId := projectId
  vendor := cfg.provider.asStr
  model := cfg.model.getD ""
  modelPath := cfg.modelPath.getD ""
  voice := cfg.voice.getD ""
  endpoint := cfg.endpoint.getD ""
  text := normalized

/-- Keys in lexicographic order of their fields; the map of the source has no order. -/
def cmp : PhraseKey → PhraseKey → Ordering :=
  compareLex (compareOn projectId) <| compareLex (compareOn vendor) <|
  compareLex (compareOn model) <| compareLex (compareOn modelPath) <|
  compareLex (compareOn voice) <| compareLex (compareOn endpoint) (compareOn text)

instance : Ord PhraseKey := ⟨cmp⟩

instance : TransOrd PhraseKey :=
  inferInstanceAs (TransCmp (compareLex (compareOn projectId) <| compareLex (compareOn vendor) <|
    compareLex (compareOn model) <| compareLex (compareOn modelPath) <|
    compareLex (compareOn voice) <| compareLex (compareOn endpoint) (compareOn text)))

instance : LawfulEqOrd PhraseKey where
  compare_self := by
    intro a
    show cmp a a = .eq
    simp [cmp, compareLex, compareOn]
  eq_of_compare := by
    intro a b h
    have hcmp : cmp a b = .eq := h
    simp only [cmp, compareLex, compareOn, Ordering.then_eq_eq, Std.compare_eq_iff_eq] at hcmp
    obtain ⟨h1, h2, h3, h4, h5, h6, h7⟩ := hcmp
    cases a
    cases b
    simp_all

end PhraseKey

structure CacheEntry (β : Type) where
  value : TtsAudioChunk β
  stamp : Nat

/-- Completed phrases; the lowest stamp of the order is the oldest entry. -/
structure PhraseCache (β : Type) where
  map : ExtTreeMap PhraseKey (CacheEntry β)
  order : ExtTreeMap Nat PhraseKey
  bytes : Nat
  nextStamp : Nat
  maxBytes : Nat
  maxEntryBytes : Nat

namespace PhraseCache

variable {β : Type}

def new (β : Type) (maxBytes maxEntryBytes : Nat) : PhraseCache β :=
  ⟨∅, ∅, 0, 0, maxBytes, maxEntryBytes⟩

/-- Looks up `key` and marks it most recently used. -/
def get (c : PhraseCache β) (key : PhraseKey) : Option (TtsAudioChunk β) × PhraseCache β :=
  let stamp := c.nextStamp
  let c := { c with nextStamp := c.nextStamp + 1 }
  match c.map[key]? with
  | none => (none, c)
  | some entry =>
    (some entry.value,
      { c with
        map := c.map.insert key { entry with stamp }
        order := (c.order.erase entry.stamp).insert stamp key })

/-- Takes the entry of `key` out of the map and its bytes off the count. -/
def forget (c : PhraseCache β) (key : PhraseKey) : PhraseCache β :=
  match c.map[key]? with
  | none => c
  | some entry => { c with map := c.map.erase key, bytes := c.bytes - entry.value.pcm.length }

/-- Drops the entry of the key that was replaced. -/
def replaceOld (c : PhraseCache β) (key : PhraseKey) : PhraseCache β :=
  match c.map[key]? with
  | none => c
  | some old => { c.forget key with order := c.order.erase old.stamp }

/-- The eviction loop; every round takes one key out of the order, so as many rounds as the
order has keys are enough. -/
def evict : Nat → PhraseCache β → PhraseCache β
  | 0, c => c
  | fuel + 1, c =>
    if c.maxBytes < c.bytes then
      match OrdMap.first? c.order with
      | none => c
      | some (stamp, oldest) => evict fuel ({ c with order := c.order.erase stamp }.forget oldest)
    else c

def enter (c : PhraseCache β) (key : PhraseKey) (value : TtsAudioChunk β) : PhraseCache β :=
  { c with
    nextStamp := c.nextStamp + 1
    order := c.order.insert c.nextStamp key
    map := c.map.insert key ⟨value, c.nextStamp⟩
    bytes := c.bytes + value.pcm.length }

/-- Clips that are neither empty nor over the limit of one entry. -/
def accepts (c : PhraseCache β) (value : TtsAudioChunk β) : Bool :=
  !(value.pcm.length = 0 || c.maxEntryBytes < value.pcm.length)

/-- Stores `value`. Empty and over-limit phrases are skipped; the least recently used entries
go until the byte budget holds. -/
def insert (c : PhraseCache β) (key : PhraseKey) (value : TtsAudioChunk β) : PhraseCache β :=
  if c.accepts value then
    let c := (c.replaceOld key).enter key value
    c.evict c.order.size
  else c

def clip? (c : PhraseCache β) (key : PhraseKey) : Option (TtsAudioChunk β) :=
  c.map[key]?.map CacheEntry.value

/-! ## What the operations do to the clips -/

theorem get_fst (c : PhraseCache β) (key : PhraseKey) : (c.get key).1 = c.clip? key := by
  unfold get clip?
  dsimp only
  cases c.map[key]? <;> rfl

theorem clip?_get (c : PhraseCache β) (key k : PhraseKey) : (c.get key).2.clip? k = c.clip? k := by
  unfold get clip?
  dsimp only
  cases h : c.map[key]? with
  | none => rfl
  | some entry =>
    rw [OrdMap.lookup_insert]
    by_cases hk : k = key
    · rw [if_pos hk, hk, h]
      rfl
    · rw [if_neg hk]

theorem clip?_forget (c : PhraseCache β) (key k : PhraseKey) :
    (c.forget key).clip? k = if k = key then none else c.clip? k := by
  unfold forget clip?
  cases h : c.map[key]? with
  | none =>
    by_cases hk : k = key
    · rw [if_pos hk, hk, h]
      rfl
    · rw [if_neg hk]
  | some entry =>
    rw [OrdMap.lookup_erase]
    split <;> rfl

theorem clip?_evict {fuel : Nat} {c : PhraseCache β} {k : PhraseKey} {v : TtsAudioChunk β}
    (h : (c.evict fuel).clip? k = some v) : c.clip? k = some v := by
  induction fuel generalizing c with
  | zero => exact h
  | succ fuel ih =>
    unfold evict at h
    split at h
    · cases hfirst : OrdMap.first? c.order with rw [hfirst] at h
      | none =>
        exact h
      | some oldest =>
        have hforget := ih h
        rw [clip?_forget] at hforget
        split at hforget
        · contradiction
        · exact hforget
    · exact h

theorem clip?_insert {c : PhraseCache β} {key k : PhraseKey} {value v : TtsAudioChunk β}
    (ha : c.accepts value = true) (h : (c.insert key value).clip? k = some v) :
    (k = key ∧ v = value) ∨ (k ≠ key ∧ c.clip? k = some v) := by
  unfold insert at h
  rw [if_pos ha] at h
  have henter := clip?_evict h
  unfold enter clip? at henter
  rw [OrdMap.lookup_insert] at henter
  by_cases hk : k = key
  · rw [if_pos hk, Option.map_some, Option.some.injEq] at henter
    exact .inl ⟨hk, henter.symm⟩
  · rw [if_neg hk] at henter
    have hold : (c.replaceOld key).clip? k = some v := henter
    refine .inr ⟨hk, ?_⟩
    unfold replaceOld at hold
    cases hkey : c.map[key]? with rw [hkey] at hold
    | none =>
      exact hold
    | some old =>
      have hforget : (c.forget key).clip? k = some v := hold
      rw [clip?_forget, if_neg hk] at hforget
      exact hforget

theorem insert_of_not_accepts {c : PhraseCache β} {value : TtsAudioChunk β}
    (ha : c.accepts value = false) (key : PhraseKey) : c.insert key value = c := by
  unfold insert
  rw [ha]
  rfl

end PhraseCache

/-! ## The text of a request -/

def normalizePhraseText (text : List Char) : List Char :=
  List.intercalate [' '] (Text.splitWhitespace text)

/-- One chunk that holds all of `chunks`; `none` when there is no audio. -/
def concatChunks {β : Type} (chunks : List (TtsAudioChunk β)) : Option (TtsAudioChunk β) :=
  let total := (chunks.map fun chunk => chunk.pcm.length).sum
  if total = 0 then none
  else some ⟨chunks.flatMap TtsAudioChunk.pcm, (chunks.map TtsAudioChunk.durationMs).sum⟩

end NodeWebrtc.Speech
