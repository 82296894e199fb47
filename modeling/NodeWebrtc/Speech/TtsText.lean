import NodeWebrtc.Lib.Text

/-! # The text a TTS engine receives

Sentence-start capitalization, and the merge of a short opener into the sentence after it.
Text is its list of characters.
-/

namespace NodeWebrtc.Speech

open Text

/-- Whether the TTS engine input gets sentence-start capitalization. -/
inductive SentenceCase where
  | auto | off
deriving DecidableEq, Repr

/-- Engine input text and the number of letters uppercased to produce it. -/
structure EngineText where
  text : List Char
  adjusted : Nat
deriving DecidableEq, Repr

/-- Abbreviations, lowercased and without the `.`, that do not end a sentence. -/
def NON_TERMINAL_ABBREVIATIONS : List (List Char) :=
  [['m', 'r'], ['m', 'r', 's'], ['m', 's'], ['d', 'r'], ['s', 't'], ['v', 's'], ['e', 't', 'c']]

def MIN_CAPITALIZED_FRAGMENT_WORDS : Nat := 2

/-- Longest opener, in letters, that is merged into the next sentence. -/
def MAX_OPENER_LETTERS : Nat := 6

def isTerminator (c : Char) : Bool := c == '.' || c == '!' || c == '?'

/-- Where the whitespace-separated token that ends before position `i` starts. -/
def tokenStart (chars : List Char) (i : Nat) : Nat :=
  ((rposition isWhitespace (chars.take i)).map (· + 1)).getD 0

/-- The token that ends at the terminator at `i`, terminator excluded, is one letter. -/
def isSingleLetterToken (U : CharTables) (chars : List Char) (i : Nat) : Bool :=
  let start := tokenStart chars i
  i - start == 1 && (chars[start]?.any U.isAlphabetic)

/-- Words from position `start` up to and including the next terminator, or the end. -/
def fragmentWordCount (chars : List Char) (start : Nat) : Nat :=
  let rest := chars.drop start
  let fragment := match rest.findIdx? isTerminator with
    | some p => rest.take (p + 1)
    | none => rest
  (splitWhitespace fragment).length

def endsSentenceAt (U : CharTables) (chars : List Char) (i : Nat) : Bool :=
  if chars[i]? ≠ some '.' then true
  else if 0 < i && chars[i - 1]? == some '.' then false
  else
    let token := (chars.take i).drop (tokenStart chars i)
    if token.contains '.' then false
    else !NON_TERMINAL_ABBREVIATIONS.contains (U.lowercase token)

structure EngineScan where
  out : List Char
  adjusted : Nat
  /-- Position of the character to uppercase, once the loop reaches it. -/
  upperAt : Option Nat
deriving DecidableEq, Repr

namespace EngineScan

/-- Copies the character at `i`, uppercased when the loop was told to. -/
def copy (U : CharTables) (s : EngineScan) (i : Nat) (c : Char) : EngineScan :=
  if s.upperAt = some i then ⟨s.out ++ U.toUppercase c, s.adjusted + 1, none⟩
  else { s with out := s.out ++ [c] }

/-- One round of the loop, for the character `c` at `i`. -/
def step (U : CharTables) (chars : List Char) (s : EngineScan) (i : Nat) (c : Char) : EngineScan :=
  let s := s.copy U i c
  if !isTerminator c || !endsSentenceAt U chars i then s
  else
    let j := i + 1 + ((chars.drop (i + 1)).takeWhile isWhitespace).length
    if i + 1 < j && (chars[j]?.any U.isLowercase) && !isSingleLetterToken U chars i &&
        MIN_CAPITALIZED_FRAGMENT_WORDS ≤ fragmentWordCount chars j then
      { s with upperAt := some j }
    else s

def run (U : CharTables) (chars : List Char) (s : EngineScan) (i : Nat) : List Char → EngineScan
  | [] => s
  | c :: rest => (s.step U chars i c).run U chars (i + 1) rest

end EngineScan

/-- The text handed to the TTS engine, and how many letters were uppercased to get it. -/
def prepareEngineText (U : CharTables) (text : List Char) (mode : SentenceCase) : EngineText :=
  match mode with
  | .off => ⟨text, 0⟩
  | .auto =>
    let scan := EngineScan.run U text ⟨[], 0, none⟩ 0 text
    ⟨scan.out, scan.adjusted⟩

/-- The first word is an ASCII capitalized word of two or more letters. -/
def startsWithCapitalizedWord (U : CharTables) (rest : List Char) : Bool :=
  let word := rest.takeWhile Char.isAlpha
  match word with
  | first :: tail =>
    2 ≤ word.length && first.isUpper && tail.all Char.isLower &&
      !((rest.drop word.length).head?.any U.isAlphabetic)
  | [] => false

def stripOpenerEnd (token : List Char) : Option (List Char) :=
  match token.getLast? with
  | some '!' | some '.' => some token.dropLast
  | _ => none

def isOpener (U : CharTables) (word : List Char) : Bool :=
  2 ≤ word.length && word.length ≤ MAX_OPENER_LETTERS && word.all Char.isAlpha &&
    !NON_TERMINAL_ABBREVIATIONS.contains (U.lowercase word)

/-- Merges a lone short opener into the sentence after it: `Hi! Ask me.` becomes
`Hi, ask me.`. -/
def mergeShortOpener (U : CharTables) (text : List Char) : List Char :=
  match text.findIdx? isWhitespace with
  | none => text
  | some tokenEnd =>
    match stripOpenerEnd (text.take tokenEnd) with
    | none => text
    | some word =>
      let rest := trimStart (text.drop tokenEnd)
      if !isOpener U word || !rest.any U.isAlphanumeric then text
      else if startsWithCapitalizedWord U rest then
        word ++ [',', ' '] ++ (rest.take 1).flatMap U.toLowercase ++ rest.drop 1
      else word ++ [',', ' '] ++ rest

end NodeWebrtc.Speech
