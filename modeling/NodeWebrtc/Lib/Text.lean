import Mathlib.Data.List.Basic

/-! # Text as the code sees it

The string functions of the modelled language's standard library that are not Lean's
own: whitespace is the Unicode `White_Space` property, not ASCII whitespace. The larger
Unicode tables are a parameter, so a statement over every table does not depend on the
Unicode version.
-/

namespace NodeWebrtc.Text

/-- `char::is_whitespace`: the Unicode property `White_Space`. -/
def isWhitespace (c : Char) : Bool :=
  let n := c.toNat
  (0x9 ≤ n && n ≤ 0xD) || n == 0x20 || n == 0x85 || n == 0xA0 || n == 0x1680 ||
    (0x2000 ≤ n && n ≤ 0x200A) || n == 0x2028 || n == 0x2029 || n == 0x202F || n == 0x205F ||
    n == 0x3000

def trimStart (s : List Char) : List Char := s.dropWhile isWhitespace

def trimEnd (s : List Char) : List Char := (s.reverse.dropWhile isWhitespace).reverse

def trimChars (s : List Char) : List Char := trimEnd (trimStart s)

/-- `str::trim`. -/
def trim (s : String) : String := String.ofList (trimEnd (trimStart s.toList))

/-- The words of `s`, each with the position just after it; `word` is the word being read
and `pos` the position of the next character. -/
def wordsFrom (pos : Nat) (word : List Char) : List Char → List (List Char × Nat)
  | [] => if word.isEmpty then [] else [(word, pos)]
  | c :: rest =>
    if isWhitespace c then
      if word.isEmpty then wordsFrom (pos + 1) [] rest
      else (word, pos) :: wordsFrom (pos + 1) [] rest
    else wordsFrom (pos + 1) (word ++ [c]) rest

/-- `str::split_whitespace`, with the end position of each word. -/
def wordEnds (s : List Char) : List (List Char × Nat) := wordsFrom 0 [] s

/-- `str::split_whitespace`. -/
def splitWhitespace (s : List Char) : List (List Char) := (wordEnds s).map Prod.fst

/-- `[_]::rposition`: the last position that satisfies `p`. -/
def rposition (p : Char → Bool) (s : List Char) : Option Nat :=
  (s.reverse.findIdx? p).map fun back => s.length - 1 - back

/-- The Unicode tables behind the `char` methods. -/
structure CharTables where
  isAlphabetic : Char → Bool
  isNumeric : Char → Bool
  isLowercase : Char → Bool
  toUppercase : Char → List Char
  toLowercase : Char → List Char

namespace CharTables

/-- `char::is_alphanumeric`. -/
def isAlphanumeric (U : CharTables) (c : Char) : Bool := U.isAlphabetic c || U.isNumeric c

/-- `str::to_lowercase`, character by character. The one rule of it that looks at the
neighbours, the final sigma, never changes whether the result is an ASCII word. -/
def lowercase (U : CharTables) (s : List Char) : List Char := s.flatMap U.toLowercase

/-- The tables on ASCII text. -/
def ascii : CharTables where
  isAlphabetic := Char.isAlpha
  isNumeric := Char.isDigit
  isLowercase := Char.isLower
  toUppercase := fun c => [c.toUpper]
  toLowercase := fun c => [c.toLower]

end CharTables

end NodeWebrtc.Text
