import NodeWebrtc.Lib.Machine
import NodeWebrtc.Lib.Trace

/-! # The clip disk cache

`UrlClipDiskCache` as the files of its directory and the fetches under way; a call runs to its next
`await` in one step. The names of the files are a parameter, the file times are inputs, and no file
operation fails.
-/

namespace NodeWebrtc.Clips

structure CachedFile (π : Type) where
  path : π
  mtime : Nat
  bytes : List UInt8

/-- A fetch under way, with what it has delivered. -/
structure ClipFetch (υ : Type) where
  url : υ
  progressive : Bool
  chunks : List (List UInt8)

structure UrlClipDiskCache (υ π : Type) where
  files : List (CachedFile π)
  fetches : List (ClipFetch υ)

inductive CacheInput (υ : Type) where
  | loadUrlBytes (url : υ)
  | startProgressiveUrl (url : υ)
  | chunk (k : Nat) (bytes : List UInt8)
  | fetched (k : Nat) (now : Nat)
  | failed (k : Nat)

/-- A hit serves the bytes of the file, and a fetch that succeeds completes. -/
inductive CacheEvent (υ : Type) where
  | served (url : υ) (bytes : List UInt8)
  | append (bytes : List UInt8)
  | markEof
  | completed (url : υ) (bytes : List UInt8)
  | threw (url : υ)

variable {υ π : Type}

def totalCacheBytes : List (CachedFile π) → Nat
  | [] => 0
  | file :: files => file.bytes.length + totalCacheBytes files

/-- The loop over the files, the oldest first; `total` is what the code still counts. -/
def evictOldest (maxBytes incomingBytes : Nat) : Nat → List (CachedFile π) → List (CachedFile π)
  | _, [] => []
  | total, file :: files =>
    if maxBytes < total + incomingBytes then
      evictOldest maxBytes incomingBytes (total - file.bytes.length) files
    else file :: files

def evictIfNeeded (maxBytes incomingBytes : Nat) (files : List (CachedFile π)) :
    List (CachedFile π) :=
  evictOldest maxBytes incomingBytes (totalCacheBytes files)
    (files.mergeSort fun a b => a.mtime ≤ b.mtime)

variable [DecidableEq π]

/-- `writeFileSync`: the file of that name is replaced. -/
def writeFile (file : CachedFile π) (files : List (CachedFile π)) : List (CachedFile π) :=
  files.filter (·.path ≠ file.path) ++ [file]

namespace UrlClipDiskCache

variable (cachedPathForUrl : υ → π) (maxBytes : Nat)

/-- `hasCached` and `readCached`: an empty file is no hit. -/
def readCached (c : UrlClipDiskCache υ π) (url : υ) : Option (List UInt8) :=
  ((c.files.find? (·.path = cachedPathForUrl url)).map CachedFile.bytes).filter (!·.isEmpty)

def startFetch (c : UrlClipDiskCache υ π) (url : υ) (progressive : Bool) :
    UrlClipDiskCache υ π × List (CacheEvent υ) :=
  match c.readCached cachedPathForUrl url with
  | some bytes => (c, [.served url bytes])
  | none => ({ c with fetches := c.fetches ++ [⟨url, progressive, []⟩] }, [])

def writeCached (c : UrlClipDiskCache υ π) (url : υ) (now : Nat) (bytes : List UInt8) :
    UrlClipDiskCache υ π :=
  { c with
    files := writeFile ⟨cachedPathForUrl url, now, bytes⟩
      (evictIfNeeded maxBytes bytes.length c.files) }

def step (c : UrlClipDiskCache υ π) :
    CacheInput υ → Option (UrlClipDiskCache υ π × List (CacheEvent υ))
  | .loadUrlBytes url => some (c.startFetch cachedPathForUrl url false)
  | .startProgressiveUrl url => some (c.startFetch cachedPathForUrl url true)
  | .chunk k bytes => c.fetches[k]?.map fun fetch =>
      ({ c with fetches := c.fetches.set k { fetch with chunks := fetch.chunks ++ [bytes] } },
        if fetch.progressive then [.append bytes] else [])
  | .fetched k now => c.fetches[k]?.map fun fetch =>
      ({ c with fetches := c.fetches.eraseIdx k }.writeCached cachedPathForUrl maxBytes fetch.url
          now fetch.chunks.flatten,
        (if fetch.progressive then [.markEof] else []) ++
          [.completed fetch.url fetch.chunks.flatten])
  | .failed k => c.fetches[k]?.map fun fetch =>
      ({ c with fetches := c.fetches.eraseIdx k },
        (if fetch.progressive then [.markEof] else []) ++ [.threw fetch.url])

/-! ## What a write is to keep -/

/-- The budget holds after the write, and the files that go are the oldest, no more of them than
there is need for beside the files that stay. -/
structure WriteKeeps (file : CachedFile π) (before after : List (CachedFile π)) :
    Prop where
  budget : totalCacheBytes before ≤ maxBytes → totalCacheBytes after ≤ maxBytes
  evicts : ∃ evicted kept, (evicted ++ kept).Perm before ∧ after = writeFile file kept ∧
    evicted.Pairwise (·.mtime ≤ ·.mtime) ∧ (∀ e ∈ evicted, ∀ f ∈ kept, e.mtime ≤ f.mtime) ∧
    ∀ older youngest, evicted = older ++ [youngest] →
      maxBytes < totalCacheBytes (writeFile file (youngest :: kept))

/-- Only a fetch that succeeds writes, and its write keeps the budget. -/
def StepKeeps (c : UrlClipDiskCache υ π) (i : CacheInput υ) : Prop :=
  ∀ c' out, c.step cachedPathForUrl maxBytes i = some (c', out) →
    match i with
    | .fetched k now => ∀ fetch, c.fetches[k]? = some fetch →
      WriteKeeps maxBytes ⟨cachedPathForUrl fetch.url, now, fetch.chunks.flatten⟩ c.files c'.files
    | _ => c'.files = c.files

/-- A clip that is fetched fits the budget, and no file of it is there when others have to go. -/
def ClipFits (c : UrlClipDiskCache υ π) : CacheInput υ → Prop
  | .fetched k _ => ∀ fetch, c.fetches[k]? = some fetch →
    fetch.chunks.flatten.length ≤ maxBytes ∧
      ((∀ file ∈ c.files, file.path ≠ cachedPathForUrl fetch.url) ∨
        totalCacheBytes c.files + fetch.chunks.flatten.length ≤ maxBytes)
  | _ => True

/-! ## Eviction -/

omit [DecidableEq π] in
theorem totalCacheBytes_append (xs ys : List (CachedFile π)) :
    totalCacheBytes (xs ++ ys) = totalCacheBytes xs + totalCacheBytes ys := by
  induction xs with
  | nil => exact (Nat.zero_add _).symm
  | cons x xs ih => rw [List.cons_append, totalCacheBytes, totalCacheBytes, ih, Nat.add_assoc]

omit [DecidableEq π] in
theorem totalCacheBytes_perm {xs ys : List (CachedFile π)} (h : xs.Perm ys) :
    totalCacheBytes xs = totalCacheBytes ys := by
  induction h with
  | nil => rfl
  | cons x _ ih => rw [totalCacheBytes, totalCacheBytes, ih]
  | swap x y l => simp only [totalCacheBytes, Nat.add_left_comm]
  | trans _ _ ih ih' => exact ih.trans ih'

theorem totalCacheBytes_writeFile_le (file : CachedFile π) (files : List (CachedFile π)) :
    totalCacheBytes (writeFile file files) ≤ totalCacheBytes files + file.bytes.length := by
  rw [writeFile, totalCacheBytes_append]
  refine Nat.add_le_add ?_ (by simp [totalCacheBytes])
  induction files with
  | nil => exact Nat.le_refl _
  | cons f files ih =>
    rw [List.filter_cons]
    split <;> simp only [totalCacheBytes] <;> omega

omit [DecidableEq π] in
/-- The loop drops a first part of the files: the last of it had to go, and what is left fits. -/
theorem evictOldest_spec (maxBytes incoming : Nat) (files : List (CachedFile π)) :
    ∃ evicted kept, evictOldest maxBytes incoming (totalCacheBytes files) files = kept ∧
      files = evicted ++ kept ∧ (kept = [] ∨ totalCacheBytes kept + incoming ≤ maxBytes) ∧
      ∀ older youngest, evicted = older ++ [youngest] →
        maxBytes < totalCacheBytes (youngest :: kept) + incoming := by
  induction files with
  | nil => exact ⟨[], [], rfl, rfl, .inl rfl, by simp⟩
  | cons f files ih =>
    rw [evictOldest]
    split
    · next hover =>
      obtain ⟨evicted, kept, hkept, hfiles, hfits, hlast⟩ := ih
      refine ⟨f :: evicted, kept, ?_, by rw [hfiles]; rfl, hfits, fun older youngest heq => ?_⟩
      · rw [totalCacheBytes, Nat.add_sub_cancel_left, hkept]
      · rcases List.eq_nil_or_concat' evicted with rfl | ⟨init, last, rfl⟩
        · obtain ⟨-, hy⟩ := List.append_inj' (show [] ++ [f] = older ++ [youngest] from heq) rfl
          cases hy
          rwa [hfiles] at hover
        · rw [← List.cons_append] at heq
          obtain ⟨-, heq⟩ := List.append_inj' heq rfl
          cases heq
          exact hlast init youngest rfl
    · next hfits => exact ⟨[], f :: files, rfl, rfl, .inr (Nat.le_of_not_lt hfits), by simp⟩

theorem writeCached_keeps {maxBytes : Nat} {file : CachedFile π} {files : List (CachedFile π)}
    (hsmall : file.bytes.length ≤ maxBytes)
    (hfree : (∀ f ∈ files, f.path ≠ file.path) ∨
      totalCacheBytes files + file.bytes.length ≤ maxBytes) :
    WriteKeeps maxBytes file files
      (writeFile file (evictIfNeeded maxBytes file.bytes.length files)) := by
  have hperm : (files.mergeSort fun a b => a.mtime ≤ b.mtime).Perm files := List.mergeSort_perm _ _
  have hsorted : (files.mergeSort fun a b => a.mtime ≤ b.mtime).Pairwise
      fun a b => decide (a.mtime ≤ b.mtime) = true :=
    List.pairwise_mergeSort (by simp; omega) (by simp; omega) files
  simp only [decide_eq_true_eq] at hsorted
  rw [evictIfNeeded, ← totalCacheBytes_perm hperm]
  generalize (files.mergeSort fun a b => a.mtime ≤ b.mtime) = sorted at hperm hsorted ⊢
  obtain ⟨evicted, kept, hkept, rfl, hfits, hlast⟩ :=
    evictOldest_spec maxBytes file.bytes.length sorted
  obtain ⟨hevicted, -, hages⟩ := List.pairwise_append.mp hsorted
  rw [hkept]
  refine ⟨fun _ => ?_, evicted, kept, hperm, rfl, hevicted, hages, fun older youngest heq => ?_⟩
  · rcases hfits with rfl | hfits
    · simpa [writeFile, totalCacheBytes] using hsmall
    · exact Nat.le_trans (totalCacheBytes_writeFile_le file kept) hfits
  · have hover := hlast older youngest heq
    rcases hfree with hfree | hroom
    · have hother : ∀ f ∈ youngest :: kept, (decide (f.path ≠ file.path)) = true := by
        intro f hf
        refine decide_eq_true (hfree f (hperm.subset ?_))
        rw [heq, List.append_assoc]
        exact List.mem_append_right _ hf
      rw [writeFile, List.filter_eq_self.mpr hother, totalCacheBytes_append]
      simpa [totalCacheBytes] using hover
    · have htotal := totalCacheBytes_perm hperm
      rw [heq, List.append_assoc, List.singleton_append, totalCacheBytes_append] at htotal
      omega

/-! ## Hits -/

/-- What a hit serves has been completed before. -/
def Whole (past : List (CacheEvent υ)) : CacheEvent υ → Prop
  | .served url bytes => .completed url bytes ∈ past
  | _ => True

/-- Every file is what a fetch of its url has completed with. -/
def FromFetches (c : UrlClipDiskCache υ π) (past : List (CacheEvent υ)) : Prop :=
  ∀ file ∈ c.files, ∀ url, cachedPathForUrl url = file.path → .completed url file.bytes ∈ past

variable {cachedPathForUrl maxBytes} {c c' : UrlClipDiskCache υ π} {past out : List (CacheEvent υ)} {i : CacheInput υ}

theorem whole_of_not_served (h : ∀ url bytes, .served url bytes ∉ out) :
    EachAfter (fun before e => Whole (past ++ before) e) out := by
  intro before e after heq
  cases e with
  | served url bytes => exact absurd (by simp [heq]) (h url bytes)
  | _ => trivial

omit [DecidableEq π] in
theorem FromFetches.later (h : FromFetches cachedPathForUrl c past) (out : List (CacheEvent υ)) :
    FromFetches cachedPathForUrl c (past ++ out) :=
  fun file hfile url hurl => List.mem_append_left _ (h file hfile url hurl)

theorem FromFetches.startFetch (h : FromFetches cachedPathForUrl c past) (url : υ) (b : Bool) :
    FromFetches cachedPathForUrl (c.startFetch cachedPathForUrl url b).1
        (past ++ (c.startFetch cachedPathForUrl url b).2) ∧
      EachAfter (fun before e => Whole (past ++ before) e)
        (c.startFetch cachedPathForUrl url b).2 := by
  rw [UrlClipDiskCache.startFetch]
  cases hread : c.readCached cachedPathForUrl url with
  | none => exact ⟨h.later _, EachAfter.nil⟩
  | some bytes =>
    refine ⟨h.later _, EachAfter.cons_iff.mpr ⟨?_, EachAfter.nil⟩⟩
    obtain ⟨hbytes, -⟩ := Option.filter_eq_some_iff.mp hread
    obtain ⟨file, hfind, rfl⟩ := Option.map_eq_some_iff.mp hbytes
    rw [List.append_nil]
    exact h file (List.mem_of_find?_eq_some hfind) url
      (Eq.symm (by simpa using List.find?_some hfind))

omit [DecidableEq π] in
theorem mem_evictIfNeeded {incoming : Nat} {f : CachedFile π} {files : List (CachedFile π)}
    (h : f ∈ evictIfNeeded maxBytes incoming files) : f ∈ files := by
  have hperm : (files.mergeSort fun a b => a.mtime ≤ b.mtime).Perm files := List.mergeSort_perm _ _
  rw [evictIfNeeded, ← totalCacheBytes_perm hperm] at h
  obtain ⟨evicted, kept, hkept, hfiles, -⟩ := evictOldest_spec maxBytes incoming
    (files.mergeSort fun a b => a.mtime ≤ b.mtime)
  refine hperm.subset ?_
  rw [hfiles]
  exact List.mem_append_right _ (hkept ▸ h)

theorem FromFetches.step (hpath : Function.Injective cachedPathForUrl)
    (h : FromFetches cachedPathForUrl c past)
    (hs : c.step cachedPathForUrl maxBytes i = some (c', out)) :
    FromFetches cachedPathForUrl c' (past ++ out) ∧
      EachAfter (fun before e => Whole (past ++ before) e) out := by
  cases i with
  | loadUrlBytes url =>
    have hstart := h.startFetch url false
    rwa [Option.some.inj hs] at hstart
  | startProgressiveUrl url =>
    have hstart := h.startFetch url true
    rwa [Option.some.inj hs] at hstart
  | chunk k bytes | failed k =>
    obtain ⟨fetch, -, heq⟩ := Option.map_eq_some_iff.mp hs
    cases heq
    exact ⟨h.later _, whole_of_not_served fun url bytes => by split <;> simp⟩
  | fetched k now =>
    obtain ⟨fetch, -, heq⟩ := Option.map_eq_some_iff.mp hs
    cases heq
    refine ⟨fun file hfile url hurl => ?_, whole_of_not_served fun url bytes => by split <;> simp⟩
    rcases List.mem_append.mp hfile with hold | hnew
    · exact h.later _ file (mem_evictIfNeeded (List.mem_of_mem_filter hold)) url hurl
    · rw [List.mem_singleton.mp hnew] at hurl ⊢
      rw [hpath hurl]
      simp

theorem stepKeeps_of_clipFits (h : ClipFits cachedPathForUrl maxBytes c i) :
    StepKeeps cachedPathForUrl maxBytes c i := by
  intro c' out hs
  cases i with
  | loadUrlBytes url | startProgressiveUrl url =>
    have hfiles (b : Bool) : (c.startFetch cachedPathForUrl url b).1.files = c.files := by
      rw [startFetch]
      split <;> rfl
    rw [← hfiles, ← show _ = c' from congrArg Prod.fst (Option.some.inj hs)]
  | chunk k bytes | failed k =>
    obtain ⟨fetch, -, heq⟩ := Option.map_eq_some_iff.mp hs
    cases heq
    rfl
  | fetched k now =>
    obtain ⟨fetch, hfetch, heq⟩ := Option.map_eq_some_iff.mp hs
    cases heq
    intro fetch' hfetch'
    cases hfetch.symm.trans hfetch'
    obtain ⟨hsmall, hfree⟩ := h fetch hfetch
    exact writeCached_keeps hsmall hfree

end UrlClipDiskCache

end NodeWebrtc.Clips
