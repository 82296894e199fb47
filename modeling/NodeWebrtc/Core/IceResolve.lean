import Mathlib.Algebra.GroupWithZero.Nat
import Mathlib.Data.List.Nodup
import NodeWebrtc.Core.IceUrl
import NodeWebrtc.Lib.OrdMap

/-! # Resolving ICE server names

`resolve_with` looks every name up before ICE gathering starts and hands on URLs with addresses.
A call passes over the URLs three times: it collects the names that the cache does not answer, it
waits for all lookups and stores each answer as it comes, and it rewrites each URL from the cache.

Times are readings of a clock, in nanoseconds. A call comes to each URL twice, at a time of its
own. One call at a time works on the cache.
-/

namespace NodeWebrtc.Core

open Std Net

def POSITIVE_TTL : Nat := 60 * 1000000000

def NEGATIVE_TTL : Nat := 30 * 1000000000

inductive IceCredentialType where
  | password
  | oauth
deriving DecidableEq, Repr

structure IceServer (υ : Type) where
  urls : List υ
  username : Option String
  credential : Option String
  credentialType : IceCredentialType
deriving DecidableEq, Repr

/-- A URL and when the call looks its name up in the cache: to find out whether to ask the
resolver, and to rewrite it. -/
structure TimedUrl where
  url : List Char
  looked : Nat
  rewritten : Nat
deriving DecidableEq, Repr

/-! ## The cache -/

/-- The last answer for a name and when it came; no address is a recent failure. -/
abbrev Cache := ExtTreeMap (List Char) (Option IpAddr × Nat)

def ttl (ip : Option IpAddr) : Nat := if ip.isSome then POSITIVE_TTL else NEGATIVE_TTL

def isFresh (entry : Option IpAddr × Nat) (now : Nat) : Bool := now - entry.2 < ttl entry.1

def Cache.get (cache : Cache) (key : List Char) (now : Nat) : Option (Option IpAddr) × Cache :=
  match cache[key]? with
  | some entry => if isFresh entry now then (some entry.1, cache) else (none, cache.erase key)
  | none => (none, cache)

def Cache.put (cache : Cache) (key : List Char) (ip : Option IpAddr) (now : Nat) : Cache :=
  cache.insert key (ip, now)

/-! ## One call -/

def needsResolution (url : IceUrl) : Bool :=
  !url.scheme.isTls && (parseIp url.host).isNone && url.host != "localhost".toList

def cacheKey (url : IceUrl) : List Char := url.host ++ ':' :: printU16 (url.port.getD 3478)

structure SocketAddr where
  ip : IpAddr
  port : UInt16
deriving DecidableEq, Repr

/-- The first IPv4 address, else the first address. -/
def pick (addrs : List SocketAddr) : Option IpAddr :=
  ((addrs.find? fun a => a.ip.isIpv4).or addrs.head?).map SocketAddr.ip

/-- How the task of one lookup ends within the timeout. -/
inductive Lookup where
  | addresses (addrs : List SocketAddr)
  | failed
  | timedOut
  | panicked
deriving DecidableEq, Repr

def nameOf (url : List Char) : Option (List Char) :=
  (parseIceUrl url).bind fun parsed =>
    if needsResolution parsed then some (cacheKey parsed) else none

def collectUrl (s : Cache × List (List Char)) (u : TimedUrl) : Cache × List (List Char) :=
  match nameOf u.url with
  | none => s
  | some key =>
    match s.1.get key u.looked with
    | (some _, cache) => (cache, s.2)
    | (none, cache) => (cache, if key ∈ s.2 then s.2 else s.2 ++ [key])

def collect (cache : Cache) (servers : List (IceServer TimedUrl)) : Cache × List (List Char) :=
  (servers.flatMap IceServer.urls).foldl collectUrl (cache, [])

/-- What a task brings back: an address or a failure; nothing when it panicked. -/
def Lookup.outcome : Lookup → Option (Option IpAddr)
  | .addresses addrs => some (pick addrs)
  | .failed | .timedOut => some none
  | .panicked => none

def storeAnswer (resolver : List Char → Lookup) (cache : Cache) (joined : List Char × Nat) : Cache :=
  match (resolver joined.1).outcome with
  | some ip => cache.put joined.1 ip joined.2
  | none => cache

def rewriteUrl (cache : Cache) (u : TimedUrl) : Option (List Char) × Cache :=
  match parseIceUrl u.url with
  | none => (some u.url, cache)
  | some parsed =>
    if needsResolution parsed then
      match cache.get (cacheKey parsed) u.rewritten with
      | (some (some ip), cache) => (some (rewriteIceUrl parsed ip), cache)
      | (_, cache) => (none, cache)
    else (some u.url, cache)

def rewriteUrls : Cache → List TimedUrl → List (List Char) × Cache
  | cache, [] => ([], cache)
  | cache, u :: us =>
    let (url, cache) := rewriteUrl cache u
    let (urls, cache) := rewriteUrls cache us
    (url.toList ++ urls, cache)

def rewriteServers : Cache → List (IceServer TimedUrl) → List (IceServer (List Char))
  | _, [] => []
  | cache, server :: servers =>
    let (urls, cache) := rewriteUrls cache server.urls
    let rest := rewriteServers cache servers
    if urls = [] then rest
    else ⟨urls, server.username, server.credential, server.credentialType⟩ :: rest

/-- The lookups end in the order of `joined`, which lists every name that was asked for with the
time of its end. -/
def resolveWith (servers : List (IceServer TimedUrl)) (resolver : List Char → Lookup)
    (joined : List (List Char × Nat)) (cache : Cache) : List (IceServer (List Char)) :=
  rewriteServers (joined.foldl (storeAnswer resolver) (collect cache servers).1) servers

/-! ## What a call is to do -/

/-- The address of a name: the answer of its lookup, or that of the cache if it was not asked
for. -/
def answer (cache : Cache) (resolver : List Char → Lookup) (joined : List (List Char × Nat))
    (key : List Char) : Option IpAddr :=
  if key ∈ joined.map Prod.fst then (resolver key).outcome.join else cache[key]?.bind Prod.fst

def answeredAt (cache : Cache) (joined : List (List Char × Nat)) (key : List Char) : Nat :=
  match joined.find? fun j => j.1 = key with
  | some j => j.2
  | none => (cache[key]?.map Prod.snd).getD 0

/-- TLS URLs, addresses, `localhost` and texts that are no URL stay; a URL whose name has an
address is rewritten; the others go. -/
def expectedUrl (address : List Char → Option IpAddr) (url : List Char) : Option (List Char) :=
  match parseIceUrl url with
  | none => some url
  | some parsed =>
    if parsed.scheme.isTls ∨ (parseIp parsed.host).isSome ∨ parsed.host = "localhost".toList then
      some url
    else (address (cacheKey parsed)).map (rewriteIceUrl parsed)

def expectedServer (address : List Char → Option IpAddr) (server : IceServer TimedUrl) :
    IceServer (List Char) where
  urls := server.urls.filterMap fun u => expectedUrl address u.url
  username := server.username
  credential := server.credential
  credentialType := server.credentialType

/-- Servers and URLs in their order; a server without URLs is left out. -/
def expectedServers (address : List Char → Option IpAddr) (servers : List (IceServer TimedUrl)) :
    List (IceServer (List Char)) :=
  (servers.map (expectedServer address)).filter fun server => server.urls ≠ []

/-- Every address is still in the cache's keeping when its URL is rewritten. -/
def KeptFresh (servers : List (IceServer TimedUrl)) (resolver : List Char → Lookup)
    (joined : List (List Char × Nat)) (cache : Cache) : Prop :=
  ∀ server ∈ servers, ∀ u ∈ server.urls, ∀ key ∈ nameOf u.url,
    (answer cache resolver joined key).isSome →
      u.rewritten - answeredAt cache joined key < POSITIVE_TTL

/-! ## Looking up and storing -/

theorem Cache.get_cases (cache : Cache) (key : List Char) (now : Nat) :
    (∃ entry, cache[key]? = some entry ∧ isFresh entry now = true ∧
      cache.get key now = (some entry.1, cache)) ∨
    (∃ entry, cache[key]? = some entry ∧ isFresh entry now = false ∧
      cache.get key now = (none, cache.erase key)) ∨
    (cache[key]? = none ∧ cache.get key now = (none, cache)) := by
  unfold Cache.get
  cases hentry : cache[key]? with
  | none => exact .inr (.inr ⟨rfl, rfl⟩)
  | some entry =>
    cases hfresh : isFresh entry now with
    | true => exact .inl ⟨entry, rfl, hfresh, if_pos hfresh⟩
    | false =>
      exact .inr (.inl ⟨entry, rfl, hfresh, if_neg (by rw [hfresh]; exact Bool.false_ne_true)⟩)

section Collecting

variable {cache : Cache} {resolver : List Char → Lookup}

/-- The cache without the names that are asked for, each of which is listed once. -/
structure Collected (cache : Cache) (s : Cache × List (List Char)) : Prop where
  distinct : s.2.Nodup
  asked : ∀ key ∈ s.2, s.1[key]? = none
  others : ∀ key, key ∉ s.2 → s.1[key]? = cache[key]?

theorem Collected.collectUrl {s : Cache × List (List Char)} (h : Collected cache s) (u : TimedUrl) :
    Collected cache (collectUrl s u) := by
  unfold Core.collectUrl
  cases nameOf u.url with
  | none => exact h
  | some key =>
    dsimp only
    have hask : ∀ d : Cache, d[key]? = none → (∀ k, k ≠ key → d[k]? = s.1[k]?) →
        Collected cache (d, if key ∈ s.2 then s.2 else s.2 ++ [key]) := by
      intro d hkey hsame
      by_cases hin : key ∈ s.2
      · rw [if_pos hin]
        refine ⟨h.distinct, fun k hk => ?_, fun k hk => ?_⟩
        · by_cases heq : k = key
          · exact heq ▸ hkey
          · exact (hsame k heq).trans (h.asked k hk)
        · exact (hsame k fun heq => hk (heq ▸ hin)).trans (h.others k hk)
      · rw [if_neg hin]
        refine ⟨?_, fun k hk => ?_, fun k hk => ?_⟩
        · rw [List.nodup_append]
          exact ⟨h.distinct, List.nodup_singleton key, fun a ha b hb heq =>
            hin (List.mem_singleton.mp hb ▸ heq ▸ ha)⟩
        · by_cases heq : k = key
          · exact heq ▸ hkey
          · rcases List.mem_append.mp hk with hk | hk
            · exact (hsame k heq).trans (h.asked k hk)
            · exact absurd (List.mem_singleton.mp hk) heq
        · rw [List.mem_append, List.mem_singleton, not_or] at hk
          exact (hsame k hk.2).trans (h.others k hk.1)
    rcases s.1.get_cases key u.looked with ⟨entry, hentry, -, hget⟩ | ⟨entry, hentry, -, hget⟩ |
      ⟨hnone, hget⟩
    · rw [hget]
      exact h
    · rw [hget]
      refine hask _ ?_ fun k hk => ?_
      · rw [OrdMap.lookup_erase, if_pos rfl]
      · rw [OrdMap.lookup_erase, if_neg hk]
    · rw [hget]
      exact hask _ hnone fun k _ => rfl

theorem collected (cache : Cache) (servers : List (IceServer TimedUrl)) :
    Collected cache (collect cache servers) := by
  suffices general : ∀ (us : List TimedUrl) (s : Cache × List (List Char)), Collected cache s →
      Collected cache (us.foldl Core.collectUrl s) from
    general _ _ ⟨List.nodup_nil, fun _ hk => absurd hk List.not_mem_nil, fun _ _ => rfl⟩
  intro us
  induction us with
  | nil => exact fun s h => h
  | cons u us ih => exact fun s h => ih _ (h.collectUrl u)

theorem storeAnswer_other {joined : List Char × Nat} {key : List Char} (hne : key ≠ joined.1) :
    (storeAnswer resolver cache joined)[key]? = cache[key]? := by
  unfold storeAnswer Cache.put
  cases (resolver joined.1).outcome with
  | none => rfl
  | some ip => exact (OrdMap.lookup_insert _ _ _ _).trans (if_neg hne)

theorem storeAnswer_same {key : List Char} (hnone : cache[key]? = none) (t : Nat) :
    (storeAnswer resolver cache (key, t))[key]? = (resolver key).outcome.map fun ip => (ip, t) := by
  unfold storeAnswer Cache.put
  cases (resolver key).outcome with
  | none => exact hnone
  | some ip => exact (OrdMap.lookup_insert _ _ _ _).trans (if_pos rfl)

theorem foldl_storeAnswer_other {joined : List (List Char × Nat)} {key : List Char}
    (hkey : key ∉ joined.map Prod.fst) :
    (joined.foldl (storeAnswer resolver) cache)[key]? = cache[key]? := by
  induction joined generalizing cache with
  | nil => rfl
  | cons j joined ih =>
    rw [List.map_cons, List.mem_cons, not_or] at hkey
    rw [List.foldl_cons, ih hkey.2, storeAnswer_other hkey.1]

theorem foldl_storeAnswer_same {joined : List (List Char × Nat)} {key : List Char} {t : Nat}
    (hdistinct : (joined.map Prod.fst).Nodup) (hmem : (key, t) ∈ joined)
    (hnone : cache[key]? = none) :
    (joined.foldl (storeAnswer resolver) cache)[key]? =
      (resolver key).outcome.map fun ip => (ip, t) := by
  induction joined generalizing cache with
  | nil => exact absurd hmem List.not_mem_nil
  | cons j joined ih =>
    rw [List.map_cons, List.nodup_cons] at hdistinct
    rw [List.foldl_cons]
    rcases List.mem_cons.mp hmem with rfl | hmem
    · rw [foldl_storeAnswer_other hdistinct.1, storeAnswer_same hnone]
    · have hne : key ≠ j.1 := fun heq =>
        hdistinct.1 (heq ▸ List.mem_map.mpr ⟨(key, t), hmem, rfl⟩)
      exact ih hdistinct.2 hmem ((storeAnswer_other hne).trans hnone)

theorem held_after_lookups {servers : List (IceServer TimedUrl)} {joined : List (List Char × Nat)}
    (hjoined : (joined.map Prod.fst).Perm (collect cache servers).2) (key : List Char) :
    let held := (joined.foldl (storeAnswer resolver) (collect cache servers).1)[key]?
    held.bind Prod.fst = answer cache resolver joined key ∧
      ∀ entry ∈ held, entry.2 = answeredAt cache joined key := by
  have hc := collected cache servers
  have hdistinct : (joined.map Prod.fst).Nodup := hjoined.nodup_iff.mpr hc.distinct
  unfold answer answeredAt
  by_cases hin : key ∈ joined.map Prod.fst
  · obtain ⟨⟨k, t⟩, hmem, rfl⟩ := List.mem_map.mp hin
    have hfind : joined.find? (fun j => decide (j.1 = k)) = some (k, t) := by
      cases hfind : joined.find? (fun j => decide (j.1 = k)) with
      | none =>
        have hno := List.find?_eq_none.mp hfind (k, t) hmem
        simp at hno
      | some j =>
        have hkey : j.1 = k := by simpa using List.find?_some hfind
        rw [List.inj_on_of_nodup_map hdistinct (List.mem_of_find?_eq_some hfind) hmem hkey]
    rw [if_pos hin, hfind,
      foldl_storeAnswer_same hdistinct hmem (hc.asked k (hjoined.mem_iff.mp hin))]
    cases (resolver k).outcome with
    | none => exact ⟨rfl, fun entry hentry => by contradiction⟩
    | some ip => exact ⟨rfl, fun entry hentry => by cases hentry; rfl⟩
  · have hfind : joined.find? (fun j => decide (j.1 = key)) = none :=
      List.find?_eq_none.mpr fun j hj heq => hin (List.mem_map.mpr ⟨j, hj, of_decide_eq_true heq⟩)
    rw [if_neg hin, hfind, foldl_storeAnswer_other hin,
      hc.others key fun hasked => hin (hjoined.mem_iff.mpr hasked)]
    refine ⟨rfl, fun entry hentry => ?_⟩
    rw [Option.mem_def.mp hentry]
    rfl

end Collecting

/-! ## Rewriting -/

section Rewriting

variable {address : List Char → Option IpAddr} {since : List Char → Nat} {cache : Cache}
  {u : TimedUrl}

/-- An address in the cache is that of its name, with the time it came. -/
def Sound (address : List Char → Option IpAddr) (since : List Char → Nat) (cache : Cache) : Prop :=
  ∀ key entry, cache[key]? = some entry →
    (entry.1.isSome → address key = entry.1) ∧ entry.2 = since key

def Complete (address : List Char → Option IpAddr) (cache : Cache) : Prop :=
  ∀ key, (address key).isSome → ∃ entry, cache[key]? = some entry ∧ entry.1 = address key

def InTime (address : List Char → Option IpAddr) (since : List Char → Nat) (u : TimedUrl) : Prop :=
  ∀ key ∈ nameOf u.url, (address key).isSome → u.rewritten - since key < POSITIVE_TTL

theorem needsResolution_iff (url : IceUrl) : needsResolution url = true ↔
    ¬ (url.scheme.isTls ∨ (parseIp url.host).isSome ∨ url.host = "localhost".toList) := by
  unfold needsResolution
  cases parseIp url.host <;> simp

theorem rewriteUrl_cases (address : List Char → Option IpAddr) (cache : Cache) (u : TimedUrl) :
    (nameOf u.url = none ∧ rewriteUrl cache u = (some u.url, cache) ∧
      expectedUrl address u.url = some u.url) ∨
    ∃ key parsed, nameOf u.url = some key ∧
      rewriteUrl cache u = ((cache.get key u.rewritten).1.join.map (rewriteIceUrl parsed),
        (cache.get key u.rewritten).2) ∧
      expectedUrl address u.url = (address key).map (rewriteIceUrl parsed) := by
  unfold nameOf rewriteUrl expectedUrl
  cases hparse : parseIceUrl u.url with
  | none => exact .inl ⟨rfl, rfl, rfl⟩
  | some parsed =>
    dsimp only [Option.bind_some]
    cases hneeds : needsResolution parsed with
    | false =>
      have hkept : parsed.scheme.isTls ∨ (parseIp parsed.host).isSome ∨
          parsed.host = "localhost".toList := by
        by_contra hno
        rw [(needsResolution_iff parsed).mpr hno] at hneeds
        contradiction
      exact .inl ⟨rfl, rfl, if_pos hkept⟩
    | true =>
      refine .inr ⟨cacheKey parsed, parsed, rfl, ?_,
        if_neg ((needsResolution_iff parsed).mp hneeds)⟩
      rcases cache.get (cacheKey parsed) u.rewritten with ⟨found, after⟩
      cases found with
      | none => rfl
      | some ip => cases ip <;> rfl

theorem Sound.get (h : Sound address since cache) (key : List Char) (now : Nat) :
    Sound address since (cache.get key now).2 := by
  rcases cache.get_cases key now with ⟨_, -, -, hget⟩ | ⟨_, -, -, hget⟩ | ⟨-, hget⟩ <;> rw [hget]
  · exact h
  · intro k entry hentry
    rw [OrdMap.lookup_erase] at hentry
    split at hentry
    · contradiction
    · exact h k entry hentry
  · exact h

theorem expired {entry : Option IpAddr × Nat} {now : Nat} (h : isFresh entry now = false)
    (hsome : entry.1.isSome = true) : ¬ now - entry.2 < POSITIVE_TTL := by
  unfold isFresh ttl at h
  rw [if_pos hsome] at h
  exact of_decide_eq_false h

theorem Sound.found (h : Sound address since cache) {key : List Char} {now : Nat} {ip : IpAddr}
    (hfound : (cache.get key now).1.join = some ip) :
    address key = some ip ∧ now - since key < POSITIVE_TTL := by
  rcases cache.get_cases key now with ⟨entry, hentry, hfresh, hget⟩ | ⟨_, -, -, hget⟩ | ⟨-, hget⟩
  · rw [hget] at hfound
    have hip : entry.1 = some ip := hfound
    obtain ⟨haddress, hsince⟩ := h key entry hentry
    refine ⟨(haddress (hip ▸ rfl)).trans hip, ?_⟩
    unfold isFresh ttl at hfresh
    rw [if_pos (by rw [hip]; rfl), hsince] at hfresh
    exact of_decide_eq_true hfresh
  · rw [hget] at hfound
    contradiction
  · rw [hget] at hfound
    contradiction

theorem Complete.get (hc : Complete address cache) (hs : Sound address since cache)
    {key : List Char} {now : Nat}
    (hfresh : (address key).isSome → now - since key < POSITIVE_TTL) :
    (cache.get key now).1.join = address key ∧ Complete address (cache.get key now).2 := by
  have hheld : ∀ entry, cache[key]? = some entry → entry.1 = address key := by
    intro entry hentry
    cases haddress : address key with
    | none =>
      cases hip : entry.1 with
      | none => rfl
      | some ip =>
        have hsame := (hs key entry hentry).1 (hip ▸ rfl)
        rw [haddress, hip] at hsame
        contradiction
    | some ip =>
      obtain ⟨other, hother, hsame⟩ := hc key (haddress ▸ rfl)
      rw [hentry, Option.some.injEq] at hother
      rw [hother, hsame, haddress]
  rcases cache.get_cases key now with ⟨entry, hentry, -, hget⟩ | ⟨entry, hentry, hold, hget⟩ |
    ⟨hnone, hget⟩
  · rw [hget]
    exact ⟨hheld entry hentry, hc⟩
  · have haddress : address key = none := by
      by_contra hsome
      have hsome' := Option.isSome_iff_ne_none.mpr hsome
      refine expired hold (hheld entry hentry ▸ hsome') ?_
      rw [(hs key entry hentry).2]
      exact hfresh hsome'
    rw [hget]
    refine ⟨haddress.symm, fun k hk => ?_⟩
    have hne : k ≠ key := fun heq => by
      rw [heq, haddress] at hk
      contradiction
    obtain ⟨other, hother, hsame⟩ := hc k hk
    exact ⟨other, (OrdMap.lookup_erase _ _ _).trans ((if_neg hne).trans hother), hsame⟩
  · rw [hget]
    refine ⟨?_, hc⟩
    cases haddress : address key with
    | none => rfl
    | some ip =>
      obtain ⟨other, hother, -⟩ := hc key (haddress ▸ rfl)
      rw [hnone] at hother
      contradiction

theorem rewriteUrl_inTime (hs : Sound address since cache) (hc : Complete address cache)
    (hu : InTime address since u) :
    (rewriteUrl cache u).1 = expectedUrl address u.url ∧
      Sound address since (rewriteUrl cache u).2 ∧ Complete address (rewriteUrl cache u).2 := by
  rcases rewriteUrl_cases address cache u with ⟨-, hrewrite, hexpected⟩ |
    ⟨key, parsed, hname, hrewrite, hexpected⟩
  · rw [hrewrite, hexpected]
    exact ⟨rfl, hs, hc⟩
  · obtain ⟨hfound, hcomplete⟩ := hc.get hs (hu key hname)
    rw [hrewrite, hexpected, hfound]
    exact ⟨rfl, hs.get key u.rewritten, hcomplete⟩

theorem rewriteUrl_sound (hs : Sound address since cache) :
    (rewriteUrl cache u).1.toList.length ≤ (expectedUrl address u.url).toList.length ∧
      (¬ InTime address since u →
        (rewriteUrl cache u).1.toList.length < (expectedUrl address u.url).toList.length) ∧
      Sound address since (rewriteUrl cache u).2 := by
  rcases rewriteUrl_cases address cache u with ⟨hname, hrewrite, hexpected⟩ |
    ⟨key, parsed, hname, hrewrite, hexpected⟩
  · rw [hrewrite, hexpected]
    refine ⟨Nat.le_refl _, fun hlate => absurd (fun key hkey => ?_) hlate, hs⟩
    rw [hname] at hkey
    contradiction
  · rw [hrewrite, hexpected]
    refine ⟨?_, fun hlate => ?_, hs.get key u.rewritten⟩
    · cases hfound : (cache.get key u.rewritten).1.join with
      | none => exact Nat.zero_le _
      | some ip => exact Nat.le_of_eq (by rw [(hs.found hfound).1])
    · have hlate' : (address key).isSome ∧ ¬ u.rewritten - since key < POSITIVE_TTL := by
        by_contra hno
        refine hlate fun k hk hsome => ?_
        rw [hname, Option.mem_def] at hk
        cases hk
        by_contra hover
        exact hno ⟨hsome, hover⟩
      obtain ⟨ip, hip⟩ := Option.isSome_iff_exists.mp hlate'.1
      cases hfound : (cache.get key u.rewritten).1.join with
      | none =>
        rw [hip]
        exact Nat.zero_lt_one
      | some other => exact absurd (hs.found hfound).2 hlate'.2

theorem rewriteUrls_inTime {us : List TimedUrl} (hs : Sound address since cache)
    (hc : Complete address cache) (hus : ∀ u ∈ us, InTime address since u) :
    (rewriteUrls cache us).1 = us.filterMap (fun u => expectedUrl address u.url) ∧
      Sound address since (rewriteUrls cache us).2 ∧ Complete address (rewriteUrls cache us).2 := by
  induction us generalizing cache with
  | nil => exact ⟨rfl, hs, hc⟩
  | cons u us ih =>
    obtain ⟨hurl, hs', hc'⟩ := rewriteUrl_inTime hs hc (hus u List.mem_cons_self)
    obtain ⟨hurls, hs'', hc''⟩ := ih hs' hc' fun v hv => hus v (List.mem_cons_of_mem u hv)
    refine ⟨?_, hs'', hc''⟩
    show (rewriteUrl cache u).1.toList ++ (rewriteUrls (rewriteUrl cache u).2 us).1 = _
    rw [hurls, hurl, List.filterMap_cons]
    cases expectedUrl address u.url <;> rfl

theorem rewriteUrls_sound {us : List TimedUrl} (hs : Sound address since cache) :
    (rewriteUrls cache us).1.length ≤
        (us.filterMap fun u => expectedUrl address u.url).length ∧
      ((∃ u ∈ us, ¬ InTime address since u) → (rewriteUrls cache us).1.length <
        (us.filterMap fun u => expectedUrl address u.url).length) ∧
      Sound address since (rewriteUrls cache us).2 := by
  induction us generalizing cache with
  | nil => exact ⟨Nat.le_refl _, fun ⟨u, hu, _⟩ => absurd hu List.not_mem_nil, hs⟩
  | cons u us ih =>
    obtain ⟨hfew, hfewer, hs'⟩ := @rewriteUrl_sound address since cache u hs
    obtain ⟨hrest, hrestFewer, hs''⟩ := ih hs'
    have hlength : (rewriteUrls cache (u :: us)).1.length = (rewriteUrl cache u).1.toList.length +
        (rewriteUrls (rewriteUrl cache u).2 us).1.length := List.length_append
    have hexpected : ((u :: us).filterMap fun u => expectedUrl address u.url).length =
        (expectedUrl address u.url).toList.length +
          (us.filterMap fun u => expectedUrl address u.url).length := by
      rw [List.filterMap_cons]
      cases expectedUrl address u.url with
      | none => exact (Nat.zero_add _).symm
      | some url => exact Nat.add_comm _ _
    refine ⟨by omega, fun ⟨v, hv, hlate⟩ => ?_, hs''⟩
    rcases List.mem_cons.mp hv with heq | hv
    · have hless := hfewer (heq ▸ hlate)
      omega
    · have hless := hrestFewer ⟨v, hv, hlate⟩
      omega

end Rewriting

/-! ## The whole call -/

section Calls

variable {address : List Char → Option IpAddr} {since : List Char → Nat} {cache : Cache}

theorem rewriteServers_cons (cache : Cache) (server : IceServer TimedUrl)
    (servers : List (IceServer TimedUrl)) : rewriteServers cache (server :: servers) =
      if (rewriteUrls cache server.urls).1 = [] then
        rewriteServers (rewriteUrls cache server.urls).2 servers
      else ⟨(rewriteUrls cache server.urls).1, server.username, server.credential,
        server.credentialType⟩ :: rewriteServers (rewriteUrls cache server.urls).2 servers := rfl

theorem expectedServers_cons (server : IceServer TimedUrl) (servers : List (IceServer TimedUrl)) :
    expectedServers address (server :: servers) =
      if (expectedServer address server).urls = [] then expectedServers address servers
      else expectedServer address server :: expectedServers address servers := by
  unfold expectedServers
  rw [List.map_cons, List.filter_cons]
  by_cases hempty : (expectedServer address server).urls = []
  · rw [if_pos hempty, if_neg (by simpa using hempty)]
  · rw [if_neg hempty, if_pos (decide_eq_true hempty)]

theorem rewriteServers_inTime {servers : List (IceServer TimedUrl)}
    (hs : Sound address since cache) (hc : Complete address cache)
    (hus : ∀ server ∈ servers, ∀ u ∈ server.urls, InTime address since u) :
    rewriteServers cache servers = expectedServers address servers := by
  induction servers generalizing cache with
  | nil => rfl
  | cons server servers ih =>
    obtain ⟨hurls, hs', hc'⟩ := rewriteUrls_inTime hs hc (hus server List.mem_cons_self)
    have hrest := ih hs' hc' fun other hother => hus other (List.mem_cons_of_mem server hother)
    rw [rewriteServers_cons, hrest, hurls, expectedServers_cons]
    rfl

def urlCount (servers : List (IceServer (List Char))) : Nat :=
  (servers.map fun server => server.urls.length).sum

theorem urlCount_expectedServers (servers : List (IceServer TimedUrl)) :
    urlCount (expectedServers address servers) =
      (servers.map fun server => (expectedServer address server).urls.length).sum := by
  induction servers with
  | nil => rfl
  | cons server servers ih =>
    rw [expectedServers_cons, List.map_cons, List.sum_cons, ← ih]
    by_cases hempty : (expectedServer address server).urls = []
    · rw [hempty]
      exact (Nat.zero_add _).symm
    · rw [if_neg hempty]
      unfold urlCount
      rw [List.map_cons, List.sum_cons]

theorem urlCount_rewriteServers {servers : List (IceServer TimedUrl)}
    (hs : Sound address since cache) :
    urlCount (rewriteServers cache servers) ≤ urlCount (expectedServers address servers) ∧
      ((∃ server ∈ servers, ∃ u ∈ server.urls, ¬ InTime address since u) →
        urlCount (rewriteServers cache servers) < urlCount (expectedServers address servers)) := by
  rw [urlCount_expectedServers]
  induction servers generalizing cache with
  | nil => exact ⟨Nat.le_refl _, fun ⟨_, hserver, _⟩ => absurd hserver List.not_mem_nil⟩
  | cons server servers ih =>
    obtain ⟨hfew, hfewer, hs'⟩ := @rewriteUrls_sound address since cache server.urls hs
    obtain ⟨hrest, hrestFewer⟩ := ih hs'
    rw [show server.urls.filterMap (fun u => expectedUrl address u.url) =
      (expectedServer address server).urls from rfl] at hfew hfewer
    have hcount : urlCount (rewriteServers cache (server :: servers)) =
        (rewriteUrls cache server.urls).1.length +
          urlCount (rewriteServers (rewriteUrls cache server.urls).2 servers) := by
      rw [rewriteServers_cons]
      by_cases hempty : (rewriteUrls cache server.urls).1 = []
      · rw [hempty]
        exact (Nat.zero_add _).symm
      · rw [if_neg hempty]
        unfold urlCount
        rw [List.map_cons, List.sum_cons]
    rw [List.map_cons, List.sum_cons]
    refine ⟨by omega, fun ⟨other, hother, u, hu, hlate⟩ => ?_⟩
    rcases List.mem_cons.mp hother with heq | hother
    · have hless := hfewer ⟨u, heq ▸ hu, hlate⟩
      omega
    · have hless := hrestFewer ⟨other, hother, u, hu, hlate⟩
      omega

end Calls

/-- For every URL and address the rewritten URL reads back with the address as its host. For all
servers, lookups and cache contents a call keeps the order, leaves alone what has no name to look
up, and drops exactly the URLs whose name has no address, if and only if no address expires
before its URL is rewritten. -/
theorem resolveWith_exact (servers : List (IceServer TimedUrl)) (resolver : List Char → Lookup)
    (joined : List (List Char × Nat)) (cache : Cache)
    (hjoined : (joined.map Prod.fst).Perm (collect cache servers).2) :
    (∀ url parsed ip, parseIceUrl url = some parsed →
      parseIceUrl (rewriteIceUrl parsed ip) = some { parsed with host := ip.display }) ∧
    (resolveWith servers resolver joined cache =
        expectedServers (answer cache resolver joined) servers ↔
      KeptFresh servers resolver joined cache) := by
  refine ⟨fun _ parsed ip _ => parseIceUrl_rewriteIceUrl parsed ip, ?_⟩
  have hheld := @held_after_lookups cache resolver servers joined hjoined
  have hsound : Sound (answer cache resolver joined) (answeredAt cache joined)
      (joined.foldl (storeAnswer resolver) (collect cache servers).1) := fun key entry hentry => by
    obtain ⟨haddress, hsince⟩ := hheld key
    rw [hentry] at haddress
    exact ⟨fun _ => haddress.symm, hsince entry hentry⟩
  have hcomplete : Complete (answer cache resolver joined)
      (joined.foldl (storeAnswer resolver) (collect cache servers).1) := fun key hsome => by
    obtain ⟨haddress, -⟩ := hheld key
    rw [← haddress] at hsome
    obtain ⟨ip, hip⟩ := Option.isSome_iff_exists.mp hsome
    obtain ⟨entry, hentry, hfst⟩ := Option.bind_eq_some_iff.mp hip
    exact ⟨entry, hentry, hfst.trans (hip.symm.trans haddress)⟩
  constructor
  · intro hexact server hserver u hu key hkey hsome
    by_contra hlate
    have hfewer := (urlCount_rewriteServers hsound).2
      ⟨server, hserver, u, hu, fun hin => hlate (hin key hkey hsome)⟩
    unfold resolveWith at hexact
    rw [hexact] at hfewer
    exact Nat.lt_irrefl _ hfewer
  · intro hfresh
    exact rewriteServers_inTime hsound hcomplete hfresh

def plainServer (urls : List TimedUrl) : IceServer TimedUrl := ⟨urls, none, none, .password⟩

/-- A bracketed host, and a call with one name to look up. -/
theorem resolveWith_exact_one :
    parseIceUrl (rewriteIceUrl ⟨.stun, "::1".toList, some 3478, none⟩ (.v4 #v[1, 2, 3, 4])) =
        some ⟨.stun, "1.2.3.4".toList, some 3478, none⟩ ∧
      (resolveWith [plainServer [⟨"turn:a.example?transport=udp".toList, 0, 5⟩]]
          (fun _ => .addresses [⟨.v4 #v[1, 2, 3, 4], 3478⟩]) [("a.example:3478".toList, 4)] ∅ =
          expectedServers (answer ∅ (fun _ => .addresses [⟨.v4 #v[1, 2, 3, 4], 3478⟩])
            [("a.example:3478".toList, 4)])
            [plainServer [⟨"turn:a.example?transport=udp".toList, 0, 5⟩]] ↔
        KeptFresh [plainServer [⟨"turn:a.example?transport=udp".toList, 0, 5⟩]]
          (fun _ => .addresses [⟨.v4 #v[1, 2, 3, 4], 3478⟩]) [("a.example:3478".toList, 4)] ∅) := by
  have hone := resolveWith_exact [plainServer [⟨"turn:a.example?transport=udp".toList, 0, 5⟩]]
    (fun _ => .addresses [⟨.v4 #v[1, 2, 3, 4], 3478⟩]) [("a.example:3478".toList, 4)] ∅
    (by decide +kernel)
  exact ⟨hone.1 "stun:[::1]:3478".toList ⟨.stun, "::1".toList, some 3478, none⟩
    (.v4 #v[1, 2, 3, 4]) (by decide +kernel), hone.2⟩

/-- A name in the cache and another that fails to resolve: while the call waits for the second the
address of the first expires, and both URLs are dropped. -/
theorem expired_address_is_dropped :
    let servers := [plainServer [⟨"turn:a.example".toList, 59900000000, 60500000000⟩,
      ⟨"turn:b.example".toList, 59900000000, 60500000000⟩]]
    let cache : Cache := (∅ : Cache).insert "a.example:3478".toList (some (.v4 #v[1, 2, 3, 4]), 0)
    let joined := [("b.example:3478".toList, 60400000000)]
    let resolver := fun _ => Lookup.failed
    (collect cache servers).2 = joined.map Prod.fst ∧
      resolveWith servers resolver joined cache = [] ∧
      (expectedServers (answer cache resolver joined) servers).map IceServer.urls =
        [["turn:1.2.3.4".toList]] := by
  decide +kernel

end NodeWebrtc.Core
