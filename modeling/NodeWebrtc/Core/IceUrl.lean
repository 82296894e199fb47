import NodeWebrtc.Lib.Net

/-! # ICE server URLs

A STUN or TURN URL is a scheme, a host that may stand in brackets, an optional port and an optional
query. A rewritten URL has an address in place of the host.
-/

namespace NodeWebrtc.Core

open Net

inductive Scheme where
  | stun
  | stuns
  | turn
  | turns
deriving DecidableEq, Repr

namespace Scheme

def asStr : Scheme → List Char
  | .stun => "stun".toList
  | .stuns => "stuns".toList
  | .turn => "turn".toList
  | .turns => "turns".toList

def isTls : Scheme → Bool
  | .stuns | .turns => true
  | .stun | .turn => false

def ofText (text : List Char) : Option Scheme :=
  [Scheme.stun, .stuns, .turn, .turns].find? fun scheme => scheme.asStr = text

end Scheme

structure IceUrl where
  scheme : Scheme
  host : List Char
  port : Option UInt16
  query : Option (List Char)
deriving DecidableEq, Repr

/-- What follows a bracketed host: nothing, or a colon and a port. -/
def parsePort : List Char → Option (Option UInt16)
  | [] => some none
  | ':' :: p => (parseU16 p).map some
  | _ => none

/-- The host between brackets, without the opening one. -/
def parseBracketed (stripped : List Char) : Option (List Char × Option UInt16) :=
  (splitOnce ']' stripped).bind fun (h, after) => (parsePort after).map fun port => (h, port)

def parsePlain (authority : List Char) : Option (List Char × Option UInt16) :=
  match splitOnce ':' authority with
  | some (h, p) => if ':' ∈ p then none else (parseU16 p).map fun port => (h, some port)
  | none => some (authority, none)

def parseAuthority : List Char → Option (List Char × Option UInt16)
  | '[' :: stripped => parseBracketed stripped
  | authority => parsePlain authority

def splitQuery (rest : List Char) : List Char × Option (List Char) :=
  match splitOnce '?' rest with
  | some (a, q) => (a, some q)
  | none => (rest, none)

def parseIceUrl (url : List Char) : Option IceUrl :=
  (splitOnce ':' url).bind fun (schemeStr, rest) =>
    (Scheme.ofText (schemeStr.map Char.toLower)).bind fun scheme =>
      let (authority, query) := splitQuery rest
      if authority = [] then none
      else
        (parseAuthority authority).bind fun (host, port) =>
          if host = [] then none else some { scheme, host, port, query }

def hostText : IpAddr → List Char
  | .v4 octets => (IpAddr.v4 octets).display
  | .v6 segments => '[' :: (IpAddr.v6 segments).display ++ [']']

def portText : Option UInt16 → List Char
  | some port => ':' :: printU16 port
  | none => []

def queryText : Option (List Char) → List Char
  | some q => '?' :: q
  | none => []

def rewriteIceUrl (url : IceUrl) (ip : IpAddr) : List Char :=
  url.scheme.asStr ++ ':' :: (hostText ip ++ portText url.port) ++ queryText url.query

/-! ## Reading a rewritten URL -/

theorem ofText_asStr (scheme : Scheme) : Scheme.ofText (scheme.asStr.map Char.toLower) = some scheme := by
  cases scheme <;> rfl

theorem colon_not_mem_asStr (scheme : Scheme) : ':' ∉ scheme.asStr := by cases scheme <;> decide

theorem isText_display (ip : IpAddr) : IsText ['.', ':'] ip.display := by
  cases ip with
  | v4 octets =>
    exact fun c hc => (isText_displayV4 octets.toList c hc).imp_right fun hdot => by
      rw [List.mem_singleton.mp hdot]
      exact List.mem_cons_self
  | v6 segments => exact isText_displayV6 segments.toList

theorem printU16_not_mem {c : Char} (hdigit : ∀ d : Nat, d.digitChar ≠ c) (port : UInt16) :
    c ∉ printU16 port := fun hc => by
  obtain ⟨d, rfl⟩ := mem_toDigits (by omega) hc
  exact hdigit d rfl

theorem question_not_mem_authority (ip : IpAddr) (port : Option UInt16) :
    '?' ∉ hostText ip ++ portText port := by
  have hdisplay : ∀ ip : IpAddr, '?' ∉ ip.display := fun ip =>
    (isText_display ip).not_mem (fun d => Nat.digitChar_ne '?' rfl) (by simp)
  rw [List.mem_append, not_or]
  constructor
  · cases ip with
    | v4 octets => exact hdisplay (.v4 octets)
    | v6 segments =>
      have hinner := hdisplay (.v6 segments)
      simpa [hostText] using hinner
  · cases port with
    | none => exact List.not_mem_nil
    | some port =>
      have hport := printU16_not_mem (fun d => Nat.digitChar_ne '?' rfl) port
      simpa [portText] using hport

theorem parsePort_portText (port : Option UInt16) : parsePort (portText port) = some port := by
  cases port with
  | none => rfl
  | some port =>
    show (parseU16 (printU16 port)).map some = _
    rw [parseU16_printU16]
    rfl

theorem display_v4_head (octets : Vector UInt8 4) :
    ∃ c rest, (IpAddr.v4 octets).display = c :: rest ∧ c ≠ '[' := by
  obtain ⟨c, rest, hdisplay⟩ := List.exists_cons_of_ne_nil (display_ne_nil (.v4 octets))
  refine ⟨c, rest, hdisplay, fun heq => ?_⟩
  refine (isText_display (.v4 octets)).not_mem (c := '[') (fun d => Nat.digitChar_ne '[' rfl)
    (by simp) ?_
  rw [hdisplay, heq]
  exact List.mem_cons_self

theorem parseAuthority_rewritten (ip : IpAddr) (port : Option UInt16) :
    parseAuthority (hostText ip ++ portText port) = some (ip.display, port) := by
  cases ip with
  | v6 segments =>
    have hbracket : ']' ∉ (IpAddr.v6 segments).display :=
      (isText_display (.v6 segments)).not_mem (fun d => Nat.digitChar_ne ']' rfl) (by simp)
    show parseBracketed ((IpAddr.v6 segments).display ++ [']'] ++ portText port) = _
    unfold parseBracketed
    rw [List.append_assoc, List.singleton_append, splitOnce_append hbracket]
    show (parsePort (portText port)).map _ = _
    rw [parsePort_portText]
    rfl
  | v4 octets =>
    obtain ⟨c, rest, hdisplay, hc⟩ := display_v4_head octets
    have hcolon : ':' ∉ (IpAddr.v4 octets).display := fun hin => by
      refine (isText_displayV4 octets.toList).not_mem (c := ':')
        (fun d => Nat.digitChar_ne ':' rfl) (by simp) hin
    show parseAuthority ((IpAddr.v4 octets).display ++ portText port) = _
    have hplain : parseAuthority ((IpAddr.v4 octets).display ++ portText port) =
        parsePlain ((IpAddr.v4 octets).display ++ portText port) := by
      rw [hdisplay, List.cons_append]
      unfold parseAuthority
      split
      · rename_i stripped heq
        exact absurd (List.cons.inj heq).1 hc
      · rfl
    rw [hplain]
    unfold parsePlain
    cases port with
    | none => rw [show portText none = [] from rfl, List.append_nil, splitOnce_of_not_mem hcolon]
    | some port =>
      have hport : ':' ∉ printU16 port :=
        printU16_not_mem (fun d => Nat.digitChar_ne ':' rfl) port
      rw [show portText (some port) = ':' :: printU16 port from rfl, splitOnce_append hcolon]
      dsimp only
      rw [if_neg hport, parseU16_printU16]
      rfl

theorem splitQuery_queryText {authority : List Char} (h : '?' ∉ authority)
    (query : Option (List Char)) : splitQuery (authority ++ queryText query) = (authority, query) := by
  unfold splitQuery
  cases query with
  | none => rw [show queryText none = [] from rfl, List.append_nil, splitOnce_of_not_mem h]
  | some q => rw [show queryText (some q) = '?' :: q from rfl, splitOnce_append h]

theorem parseIceUrl_rewriteIceUrl (url : IceUrl) (ip : IpAddr) :
    parseIceUrl (rewriteIceUrl url ip) = some { url with host := ip.display } := by
  unfold parseIceUrl rewriteIceUrl
  rw [List.append_assoc, List.cons_append, splitOnce_append (colon_not_mem_asStr url.scheme)]
  dsimp only [Option.bind_some]
  rw [ofText_asStr, splitQuery_queryText (question_not_mem_authority ip url.port)]
  have hne : hostText ip ++ portText url.port ≠ [] := by
    have hhost : hostText ip ≠ [] := by
      cases ip with
      | v4 octets => exact display_ne_nil (.v4 octets)
      | v6 segments => exact List.cons_ne_nil _ _
    exact fun heq => hhost (List.append_eq_nil_iff.mp heq).1
  dsimp only [Option.bind_some]
  rw [if_neg hne, parseAuthority_rewritten]
  dsimp only [Option.bind_some]
  rw [if_neg (display_ne_nil ip)]

end NodeWebrtc.Core
