import Mathlib.Algebra.Group.Nat.Defs
import Mathlib.Data.List.TakeWhile

/-! # Numbers and addresses as text

Splitting at a character, port numbers, and the text of IP addresses as the standard library
reads and writes it.
-/

namespace NodeWebrtc.Net

/-- Before and after the first `sep`. -/
def splitOnce (sep : Char) (s : List Char) : Option (List Char × List Char) :=
  match s.dropWhile (· ≠ sep) with
  | [] => none
  | _ :: rest => some (s.takeWhile (· ≠ sep), rest)

theorem splitOnce_append {sep : Char} {before : List Char} (h : sep ∉ before) (after : List Char) :
    splitOnce sep (before ++ sep :: after) = some (before, after) := by
  have hpass : ∀ c ∈ before, decide (c ≠ sep) = true :=
    fun c hc => decide_eq_true fun heq => h (heq ▸ hc)
  unfold splitOnce
  rw [List.dropWhile_append_of_pos hpass, List.takeWhile_append_of_pos hpass]
  simp

theorem splitOnce_of_not_mem {sep : Char} {s : List Char} (h : sep ∉ s) : splitOnce sep s = none := by
  have hpass : ∀ c ∈ s, decide (c ≠ sep) = true :=
    fun c hc => decide_eq_true fun heq => h (heq ▸ hc)
  unfold splitOnce
  rw [List.dropWhile_eq_nil_iff.mpr hpass]

/-! ## Numbers -/

/-- The value of a digit in a base of at most 16, letters in either case. -/
def toDigit (base : Nat) (c : Char) : Option Nat :=
  let value :=
    if c.isDigit then c.toNat - '0'.toNat
    else if 'a' ≤ c ∧ c ≤ 'f' then c.toNat - 'a'.toNat + 10
    else if 'A' ≤ c ∧ c ≤ 'F' then c.toNat - 'A'.toNat + 10
    else base
  if value < base then some value else none

def withoutPlus : List Char → List Char
  | '+' :: rest => rest
  | s => s

/-- A decimal number below `2 ^ 16`, with an optional plus sign. -/
def parseU16 (s : List Char) : Option UInt16 :=
  let digits := withoutPlus s
  let value := Nat.ofDigitChars 10 digits 0
  if digits ≠ [] ∧ digits.all Char.isDigit ∧ value < 2 ^ 16 then some (UInt16.ofNat value)
  else none

def printU16 (n : UInt16) : List Char := Nat.toDigits 10 n.toNat

theorem mem_toDigits {b n : Nat} (hb : 1 < b) {c : Char} (hc : c ∈ Nat.toDigits b n) :
    ∃ d : Nat, c = d.digitChar := by
  induction n using Nat.strongRecOn generalizing c with
  | ind n ih =>
    rw [Nat.toDigits_eq_if hb] at hc
    split at hc
    · exact ⟨n, List.mem_singleton.mp hc⟩
    · rename_i hle
      rcases List.mem_append.mp hc with hc | hc
      · exact ih (n / b) (Nat.div_lt_self (by omega) hb) hc
      · exact ⟨n % b, List.mem_singleton.mp hc⟩

/-- A port that was written reads back. -/
theorem parseU16_printU16 (n : UInt16) : parseU16 (printU16 n) = some n := by
  have hdigits : ∀ c ∈ Nat.toDigits 10 n.toNat, c.isDigit = true := fun c hc =>
    Nat.isDigit_of_mem_toDigits (by omega) (by omega) hc
  have hplain : withoutPlus (Nat.toDigits 10 n.toNat) = Nat.toDigits 10 n.toNat := by
    unfold withoutPlus
    split
    · rename_i rest heq
      have hplus := hdigits '+' (heq ▸ List.mem_cons_self)
      contradiction
    · rfl
  unfold parseU16 printU16
  rw [hplain, if_pos]
  · rw [Nat.ofDigitChars_ten_toDigits, UInt16.ofNat_toNat]
  · refine ⟨Nat.toDigits_ne_nil, List.all_eq_true.mpr hdigits, ?_⟩
    rw [Nat.ofDigitChars_ten_toDigits]
    exact n.toNat_lt

/-! ## Addresses -/

inductive IpAddr where
  | v4 (octets : Vector UInt8 4)
  | v6 (segments : Vector UInt16 8)
deriving DecidableEq, Repr

def IpAddr.isIpv4 : IpAddr → Bool
  | .v4 _ => true
  | .v6 _ => false

def displayV4 (octets : List UInt8) : List Char :=
  List.intercalate ['.'] (octets.map fun octet => Nat.toDigits 10 octet.toNat)

/-- Groups in lower-case hexadecimal, separated by colons. -/
def displaySegments (segments : List UInt16) : List Char :=
  List.intercalate [':'] (segments.map fun segment => Nat.toDigits 16 segment.toNat)

/-- A run of zero groups. -/
structure Span where
  start : Nat
  len : Nat
deriving DecidableEq, Repr

/-- The longest run of zero groups so far and the run that is open. -/
def scanSpan (spans : Span × Span) (segment : UInt16 × Nat) : Span × Span :=
  if segment.1 = 0 then
    let current : Span :=
      ⟨if spans.2.len = 0 then segment.2 else spans.2.start, spans.2.len + 1⟩
    (if spans.1.len < current.len then current else spans.1, current)
  else (spans.1, ⟨0, 0⟩)

/-- The first longest run of zero groups. -/
def longestZeroes (segments : List UInt16) : Span :=
  (segments.zipIdx.foldl scanSpan (⟨0, 0⟩, ⟨0, 0⟩)).1

/-- An address that stands for an IPv4 address, as its octets. -/
def toIpv4Mapped : List UInt16 → Option (List UInt8)
  | [0, 0, 0, 0, 0, 0xffff, ab, cd] => some [(ab >>> 8).toUInt8, ab.toUInt8, (cd >>> 8).toUInt8, cd.toUInt8]
  | _ => none

def displayV6 (segments : List UInt16) : List Char :=
  match toIpv4Mapped segments with
  | some octets => "::ffff:".toList ++ displayV4 octets
  | none =>
    let zeroes := longestZeroes segments
    if 1 < zeroes.len then
      displaySegments (segments.take zeroes.start) ++ "::".toList ++
        displaySegments (segments.drop (zeroes.start + zeroes.len))
    else displaySegments segments

/-- The text of an address, without brackets. -/
def IpAddr.display : IpAddr → List Char
  | .v4 octets => displayV4 octets.toList
  | .v6 segments => displayV6 segments.toList

/-! ## Reading an address -/

/-- The digits at the front: at least one, at most `maxDigits`, below `bound`. -/
def readNumber (base maxDigits : Nat) (allowZeroPrefix : Bool) (bound : Nat) (s : List Char) :
    Option (Nat × List Char) :=
  let digits := s.takeWhile fun c => (toDigit base c).isSome
  let value := digits.foldl (fun sofar c => sofar * base + (toDigit base c).getD 0) 0
  if digits = [] ∨ maxDigits < digits.length ∨
      (!allowZeroPrefix ∧ s.head? = some '0' ∧ 1 < digits.length) ∨ bound ≤ value then none
  else some (value, s.drop digits.length)

/-- Every part but the first follows a separator. -/
def readSeparated {α : Type} (sep : Char) (first : Bool)
    (inner : List Char → Option (α × List Char)) (s : List Char) : Option (α × List Char) :=
  if first then inner s
  else match s with
    | [] => none
    | c :: rest => if c = sep then inner rest else none

def readOctets : Nat → Bool → List Char → Option (List UInt8 × List Char)
  | 0, _, s => some ([], s)
  | n + 1, first, s =>
    (readSeparated '.' first (readNumber 10 3 false 256) s).bind fun (octet, rest) =>
      (readOctets n false rest).map fun (octets, rest) => (UInt8.ofNat octet :: octets, rest)

def readIpv4 (s : List Char) : Option (List UInt8 × List Char) := readOctets 4 true s

/-- Up to `limit` groups, the last two of which may be an IPv4 address; whether one was read. -/
def readGroups : Nat → Bool → List Char → List UInt16 × Bool × List Char
  | 0, _, s => ([], false, s)
  | limit + 1, first, s =>
    match if 0 < limit then readSeparated ':' first readIpv4 s else none with
    | some ([a, b, c, d], rest) =>
      ([a.toUInt16 <<< 8 ||| b.toUInt16, c.toUInt16 <<< 8 ||| d.toUInt16], true, rest)
    | _ =>
      match readSeparated ':' first (readNumber 16 4 true (2 ^ 16)) s with
      | some (group, rest) =>
        let (groups, ipv4, rest) := readGroups limit false rest
        (UInt16.ofNat group :: groups, ipv4, rest)
      | none => ([], false, s)

/-- Eight groups, or fewer around a double colon. -/
def readIpv6 (s : List Char) : Option (List UInt16 × List Char) :=
  let (head, headIpv4, rest) := readGroups 8 true s
  if head.length = 8 then some (head, rest)
  else if headIpv4 then none
  else match rest with
    | ':' :: ':' :: rest =>
      let (tail, _, rest) := readGroups (8 - (head.length + 1)) true rest
      some (head ++ List.replicate (8 - head.length - tail.length) 0 ++ tail, rest)
    | _ => none

def toVector {α : Type} (n : Nat) (l : List α) : Option (Vector α n) :=
  if h : l.length = n then some ⟨l.toArray, by rw [List.size_toArray, h]⟩ else none

/-- The address that is the whole text. -/
def parseIp (s : List Char) : Option IpAddr :=
  match readIpv4 s with
  | some (octets, []) => (toVector 4 octets).map .v4
  | some _ => none
  | none =>
    match readIpv6 s with
    | some (segments, []) => (toVector 8 segments).map .v6
    | _ => none

/-! ## The characters of an address -/

theorem mem_intercalate {sep c : Char} {parts : List (List Char)}
    (hc : c ∈ List.intercalate [sep] parts) : c = sep ∨ ∃ part ∈ parts, c ∈ part := by
  induction parts with
  | nil => simp at hc
  | cons part parts ih =>
    cases parts with
    | nil => exact .inr ⟨part, List.mem_cons_self, by simpa using hc⟩
    | cons next parts =>
      rw [List.intercalate_cons_cons] at hc
      rcases List.mem_append.mp hc with hc | hc
      · rcases List.mem_append.mp hc with hc | hc
        · exact .inr ⟨part, List.mem_cons_self, hc⟩
        · exact .inl (List.mem_singleton.mp hc)
      · exact (ih hc).imp_right fun ⟨p, hp, hin⟩ => ⟨p, List.mem_cons_of_mem _ hp, hin⟩

/-- The text of an IPv4 address is digits and dots, that of any address digits, dots and
colons. -/
def IsText (allowed : List Char) (s : List Char) : Prop :=
  ∀ c ∈ s, (∃ d : Nat, c = d.digitChar) ∨ c ∈ allowed

theorem isText_displayV4 (octets : List UInt8) : IsText ['.'] (displayV4 octets) := by
  intro c hc
  rcases mem_intercalate hc with rfl | ⟨part, hpart, hin⟩
  · exact .inr List.mem_cons_self
  · obtain ⟨octet, -, rfl⟩ := List.mem_map.mp hpart
    exact .inl (mem_toDigits (by omega) hin)

theorem isText_displaySegments (segments : List UInt16) :
    IsText ['.', ':'] (displaySegments segments) := by
  intro c hc
  rcases mem_intercalate hc with rfl | ⟨part, hpart, hin⟩
  · exact .inr (by simp)
  · obtain ⟨segment, -, rfl⟩ := List.mem_map.mp hpart
    exact .inl (mem_toDigits (by omega) hin)

theorem IsText.append {allowed s t : List Char} (hs : IsText allowed s) (ht : IsText allowed t) :
    IsText allowed (s ++ t) := fun c hc => (List.mem_append.mp hc).elim (hs c) (ht c)

theorem isText_displayV6 (segments : List UInt16) : IsText ['.', ':'] (displayV6 segments) := by
  have hcolons : IsText ['.', ':'] "::".toList := fun c hc => .inr (by
    simp at hc
    simp [hc])
  unfold displayV6
  split
  · rename_i octets _
    have hmapped : IsText ['.', ':'] "::ffff:".toList := fun c hc => by
      simp at hc
      rcases hc with hcolon | rfl | hcolon
      · exact .inr (by simp [hcolon])
      · exact .inl ⟨15, rfl⟩
      · exact .inr (by simp [hcolon])
    exact hmapped.append fun c hc => (isText_displayV4 octets c hc).imp_right fun hdot => by
      simp at hdot
      simp [hdot]
  · dsimp only
    split
    · exact ((isText_displaySegments _).append hcolons).append (isText_displaySegments _)
    · exact isText_displaySegments segments

/-- A character that is neither a digit nor a separator is in no address. -/
theorem IsText.not_mem {allowed s : List Char} (h : IsText allowed s) {c : Char}
    (hdigit : ∀ d : Nat, d.digitChar ≠ c) (hallowed : c ∉ allowed) : c ∉ s := fun hc => by
  rcases h c hc with ⟨d, rfl⟩ | hin
  · exact hdigit d rfl
  · exact hallowed hin

theorem intercalate_ne_nil {sep part : List Char} (h : part ≠ []) (parts : List (List Char)) :
    List.intercalate sep (part :: parts) ≠ [] := by
  cases parts with
  | nil => rwa [List.intercalate_singleton]
  | cons next parts =>
    rw [List.intercalate_cons_cons, List.append_assoc]
    exact List.append_ne_nil_of_left_ne_nil h _

theorem display_ne_nil (ip : IpAddr) : ip.display ≠ [] := by
  cases ip with
  | v4 octets =>
    obtain ⟨a, rest, hlist⟩ := List.exists_cons_of_length_pos
      (show 0 < octets.toList.length by rw [Vector.length_toList]; omega)
    show displayV4 octets.toList ≠ []
    unfold displayV4
    rw [hlist, List.map_cons]
    exact intercalate_ne_nil Nat.toDigits_ne_nil _
  | v6 segments =>
    obtain ⟨a, rest, hlist⟩ := List.exists_cons_of_length_pos
      (show 0 < segments.toList.length by rw [Vector.length_toList]; omega)
    show displayV6 segments.toList ≠ []
    unfold displayV6
    split
    · simp
    · dsimp only
      split
      · simp
      · unfold displaySegments
        rw [hlist, List.map_cons]
        exact intercalate_ne_nil Nat.toDigits_ne_nil _

end NodeWebrtc.Net
