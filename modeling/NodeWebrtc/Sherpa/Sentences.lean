import NodeWebrtc.Speech.TtsText

/-! # Sentence splitting

A request is synthesised one piece at a time. The splitter cuts after sentence ends, merges
pieces that are too small to be spoken on their own and cuts pieces that are too long.
-/

namespace NodeWebrtc.Sherpa

open Text Speech

/-- Upper bound, in characters, for one synthesised piece. -/
def MAX_SENTENCE_CHARS : Nat := 300

/-- A piece with fewer words is merged into its neighbour. -/
def MIN_SENTENCE_WORDS : Nat := 4

/-- A first piece with more words is cut at a comma. -/
def FIRST_PIECE_MAX_WORDS : Nat := 12

def ASCII_TERMINATORS : List Char := ['.', '!', '?', ';']
def CJK_TERMINATORS : List Char := ['。', '！', '？', '；']

inductive TtsModelFamily where
  | vits | kokoro | kitten
deriving DecidableEq, Repr

def pushTrimmed (out : List (List Char)) (current : List Char) : List (List Char) :=
  let trimmed := trimChars current
  if trimmed.isEmpty then out else out ++ [trimmed]

/-- The loop of `splitSentences` that cuts after each sentence end. -/
def cutSentences (raw : List (List Char)) (current : List Char) : List Char → List (List Char)
  | [] => pushTrimmed raw current
  | c :: chars =>
    let current := current ++ [c]
    let isCjkEnd := CJK_TERMINATORS.contains c
    let isAsciiEnd := ASCII_TERMINATORS.contains c && chars.head?.all isWhitespace
    if isCjkEnd || isAsciiEnd then cutSentences (pushTrimmed raw current) [] chars
    else cutSentences raw current chars

def hasAlphanumeric (U : CharTables) (piece : List Char) : Bool := piece.any U.isAlphanumeric

/-- `out.last_mut()` followed by a change of the piece found. -/
def changeLast (out : List (List Char)) (f : List Char → List Char) : List (List Char) :=
  match out.getLast? with
  | some last => out.dropLast ++ [f last]
  | none => out

/-- The loop of `merge_symbol_only`: a piece without letters or digits joins its neighbour. -/
def mergeSymbolOnlyLoop (U : CharTables) (out : List (List Char)) (pendingPrefix : Option (List Char)) :
    List (List Char) → List (List Char)
  | [] => out
  | piece :: pieces =>
    let joined := match pendingPrefix with
      | some head => head ++ [' '] ++ piece
      | none => piece
    if hasAlphanumeric U piece then mergeSymbolOnlyLoop U (out ++ [joined]) none pieces
    else if out.isEmpty then mergeSymbolOnlyLoop U out (some joined) pieces
    else mergeSymbolOnlyLoop U (changeLast out (· ++ [' '] ++ piece)) pendingPrefix pieces

def mergeSymbolOnly (U : CharTables) (pieces : List (List Char)) : List (List Char) :=
  mergeSymbolOnlyLoop U [] none pieces

def isCjkLetter (c : Char) : Bool :=
  let n := c.toNat
  (0x3040 ≤ n && n ≤ 0x30FF) || (0x3400 ≤ n && n ≤ 0x9FFF) || (0xAC00 ≤ n && n ≤ 0xD7AF) ||
    (0xF900 ≤ n && n ≤ 0xFAFF)

def isShort (U : CharTables) (piece : List Char) : Bool :=
  if piece.any isCjkLetter then (piece.filter U.isAlphanumeric).length < MIN_SENTENCE_WORDS
  else (splitWhitespace piece).length < MIN_SENTENCE_WORDS

/-- Joins two pieces with one space, or none after CJK text. -/
def joinPieces (first second : List Char) : List Char :=
  if first.getLast?.any fun c => isCjkLetter c || CJK_TERMINATORS.contains c then first ++ second
  else first ++ [' '] ++ second

/-- The loop of `merge_short`: a short piece is merged forward, a short tail backward. -/
def mergeShortLoop (U : CharTables) (out : List (List Char)) (current : Option (List Char)) :
    List (List Char) → List (List Char)
  | [] =>
    match current with
    | some tail => if out.isEmpty then [tail] else changeLast out (joinPieces · tail)
    | none => out
  | piece :: pieces =>
    let combined := match current with
      | some head => joinPieces head piece
      | none => piece
    if isShort U combined then mergeShortLoop U out (some combined) pieces
    else mergeShortLoop U (out ++ [combined]) none pieces

def mergeShort (U : CharTables) (pieces : List (List Char)) : List (List Char) :=
  mergeShortLoop U [] none pieces

/-- Where a piece longer than the limit is cut: the length of its head, and how many
characters after it are dropped. -/
def longCut (rest : List Char) : Nat × Nat :=
  let comma := rposition (· == ',') (rest.take MAX_SENTENCE_CHARS)
  let space := (rposition isWhitespace (rest.take (MAX_SENTENCE_CHARS + 1))).filter (0 < ·)
  match comma, space with
  | some index, _ => (index + 1, 0)
  | none, some index => (index, 1)
  | none, none => (MAX_SENTENCE_CHARS, 0)

/-- The loop of `split_long`; every round drops at least one character, so as many rounds as
there are characters are enough. -/
def splitLongLoop (out : List (List Char)) : Nat → List Char → List (List Char)
  | 0, rest => pushTrimmed out rest
  | fuel + 1, rest =>
    if rest.length ≤ MAX_SENTENCE_CHARS then pushTrimmed out rest
    else
      let cut := longCut rest
      splitLongLoop (pushTrimmed out (rest.take cut.1)) fuel
        (trimStart (rest.drop (cut.1 + cut.2)))

def splitLong (out : List (List Char)) (sentence : List Char) : List (List Char) :=
  splitLongLoop out sentence.length sentence

/-- Splits `text` into sentences for per-sentence synthesis. -/
def splitSentences (U : CharTables) (text : List Char) : List (List Char) :=
  (mergeShort U (mergeSymbolOnly U (cutSentences [] [] text))).foldl splitLong []

/-- The end of the first word, from the `MIN_SENTENCE_WORDS`-th on, that ends in a comma. -/
def commaCut (first : List Char) : Option Nat :=
  (((wordEnds first).drop (MIN_SENTENCE_WORDS - 1)).find? fun word =>
    word.1.getLast? == some ',').map Prod.snd

/-- Like `splitSentences`, with a long first piece cut at a comma. -/
def splitForFirstAudio (U : CharTables) (text : List Char) : List (List Char) :=
  match splitSentences U text with
  | [] => []
  | first :: pieces =>
    if (splitWhitespace first).length ≤ FIRST_PIECE_MAX_WORDS then first :: pieces
    else
      match commaCut first with
      | none => first :: pieces
      | some cut =>
        let head := trimEnd (first.take cut)
        let rest := trimChars (first.drop cut)
        if (splitWhitespace rest).length < MIN_SENTENCE_WORDS then first :: pieces
        else head :: rest :: pieces

/-- The text of a request after the merge of a short opener, which only one family makes. -/
def familyText (U : CharTables) (family : TtsModelFamily) (normalized : List Char) : List Char :=
  if family = .kitten then mergeShortOpener U normalized else normalized

/-- The pieces handed to the engine for `normalized` text, in order. -/
def enginePieces (U : CharTables) (normalized : List Char) (mode : SentenceCase)
    (family : TtsModelFamily) : List (List Char) :=
  let engineText := (prepareEngineText U (familyText U family normalized) mode).text
  let pieces := splitForFirstAudio U engineText
  if pieces.isEmpty then [engineText] else pieces

end NodeWebrtc.Sherpa
