import NodeWebrtc.Lib.Text

/-! # Text that comes in pieces

Lines of a text, and a text that is cut at separators as far as it is there. However a text is cut,
what lies before its last separator reads the same line by line, when the reader of a line does not
see white space at its end.
-/

namespace NodeWebrtc.Text

universe u

/-! ## Finding a pattern -/

/-- `str::find`. -/
def find (pattern : List Char) : List Char → Option Nat
  | [] => if pattern.isEmpty then some 0 else none
  | c :: s => if pattern.isPrefixOf (c :: s) then some 0 else (find pattern s).map (· + 1)

theorem find_eq_some {pattern s : List Char} {pos : Nat} (h : find pattern s = some pos) :
    ∃ before after, s = before ++ (pattern ++ after) ∧ before.length = pos := by
  induction s generalizing pos with rw [find] at h
  | nil =>
    obtain ⟨hempty, h⟩ := Option.ite_none_right_eq_some.mp h
    cases h
    exact ⟨[], [], by rw [List.isEmpty_iff.mp hempty]; rfl, rfl⟩
  | cons c s ih =>
    split_ifs at h with hprefix
    · obtain ⟨after, hs⟩ := List.isPrefixOf_iff_prefix.mp hprefix
      cases h
      exact ⟨[], after, hs.symm, rfl⟩
    · obtain ⟨pos, hpos, rfl⟩ := Option.map_eq_some_iff.mp h
      obtain ⟨before, after, rfl, rfl⟩ := ih hpos
      exact ⟨c :: before, after, rfl, rfl⟩

theorem find_eq_none {pattern s : List Char} (h : find pattern s = none) : ¬ pattern <:+: s := by
  induction s with rw [find] at h
  | nil =>
    rw [List.infix_nil]
    rintro rfl
    cases h
  | cons c s ih =>
    split_ifs at h with hprefix
    rw [List.infix_cons_iff]
    rintro (hhere | hlater)
    · exact hprefix (List.isPrefixOf_iff_prefix.mpr hhere)
    · exact ih (Option.map_eq_none_iff.mp h) hlater

/-! ## Lines -/

/-- `str::split_inclusive` at line feeds. -/
def splitInclusive : List Char → List (List Char)
  | [] => []
  | c :: s =>
    if c = '\n' then [c] :: splitInclusive s
    else
      match splitInclusive s with
      | [] => [[c]]
      | line :: lines => (c :: line) :: lines

/-- A line without its end. -/
def chomp (line : List Char) : List Char :=
  match line.reverse with
  | '\n' :: '\r' :: rest => rest.reverse
  | '\n' :: rest => rest.reverse
  | _ => line

/-- `str::lines`. -/
def lines (s : List Char) : List (List Char) := (splitInclusive s).map chomp

theorem chomp_white (line : List Char) :
    ∃ white, (∀ c ∈ white, isWhitespace c = true) ∧ line = chomp line ++ white := by
  rw [chomp]
  split
  next rest h =>
    refine ⟨['\r', '\n'], List.all_eq_true.mp rfl, ?_⟩
    rw [← List.reverse_reverse line, h]
    simp
  next rest _ h =>
    refine ⟨['\n'], List.all_eq_true.mp rfl, ?_⟩
    rw [← List.reverse_reverse line, h]
    simp
  next => exact ⟨[], nofun, (List.append_nil _).symm⟩

/-- What is read of a line does not depend on white space at its end. -/
structure LineReader (β : Type u) where
  read : List Char → List β
  read_nil : read [] = []
  read_append : ∀ line white, (∀ c ∈ white, isWhitespace c = true) → read (line ++ white) = read line

namespace LineReader

variable {β : Type u} (r : LineReader β)

/-- All lines of a text. -/
def readText (s : List Char) : List β := (lines s).flatMap r.read

/-- What is read of a text that follows the start of a line. -/
def readFrom (line : List Char) : List Char → List β
  | [] => r.read line
  | c :: s => if c = '\n' then r.read line ++ readFrom [] s else readFrom (line ++ [c]) s

theorem read_chomp (line : List Char) : r.read (chomp line) = r.read line := by
  obtain ⟨white, hwhite, hline⟩ := chomp_white line
  have hread := r.read_append (chomp line) white hwhite
  rwa [← hline, eq_comm] at hread

/-- Pieces of which the first goes on with the line. -/
def readPieces (line : List Char) : List (List Char) → List β
  | [] => r.read line
  | piece :: pieces => r.read (line ++ piece) ++ pieces.flatMap r.read

theorem readPieces_nil (pieces : List (List Char)) :
    r.readPieces [] pieces = pieces.flatMap r.read := by
  cases pieces with
  | nil => exact r.read_nil
  | cons piece pieces => rfl

theorem readFrom_eq (line s : List Char) :
    r.readFrom line s = r.readPieces line (splitInclusive s) := by
  induction s generalizing line with
  | nil => rfl
  | cons c s ih =>
    rw [readFrom, splitInclusive]
    split_ifs with hc
    · have hnewline : ∀ d ∈ [c], isWhitespace d = true := by
        rw [hc]
        exact List.all_eq_true.mp rfl
      rw [ih, readPieces_nil, readPieces, r.read_append line [c] hnewline]
    · rw [ih]
      cases splitInclusive s with
      | nil => exact (List.append_nil _).symm
      | cons piece pieces =>
        rw [readPieces, readPieces, List.append_assoc, List.singleton_append]

theorem readText_eq (s : List Char) : r.readText s = r.readFrom [] s := by
  have hchomp : ∀ pieces : List (List Char),
      (pieces.map chomp).flatMap r.read = pieces.flatMap r.read := by
    intro pieces
    rw [List.flatMap_map]
    exact List.flatMap_congr fun piece _ => r.read_chomp piece
  rw [readText, lines, hchomp, readFrom_eq, readPieces_nil]

/-- White space at the end of a text reads as nothing. -/
theorem readFrom_white {white : List Char} (h : ∀ c ∈ white, isWhitespace c = true)
    (line : List Char) : r.readFrom line white = r.read line := by
  induction white generalizing line with
  | nil => rfl
  | cons c white ih =>
    obtain ⟨hc, hwhite⟩ := List.forall_mem_cons.mp h
    rw [readFrom, ih hwhite, ih hwhite, r.read_nil, List.append_nil,
      r.read_append line [c] (by simpa using hc), ite_self]

theorem readFrom_append_white {white : List Char} (h : ∀ c ∈ white, isWhitespace c = true)
    (line s : List Char) : r.readFrom line (s ++ white) = r.readFrom line s := by
  induction s generalizing line with
  | nil => exact r.readFrom_white h line
  | cons c s ih => rw [List.cons_append, readFrom, readFrom, ih, ih]

/-- A line feed ends a line. -/
theorem readFrom_newline (line s t : List Char) :
    r.readFrom line (s ++ '\n' :: t) = r.readFrom line s ++ r.readFrom [] t := by
  induction s generalizing line with
  | nil => exact if_pos rfl
  | cons c s ih =>
    rw [List.cons_append, readFrom, readFrom, ih, ih]
    split_ifs
    · rw [List.append_assoc]
    · rfl

end LineReader

/-! ## Cutting at separators -/

/-- A text cut in two: the first part ends with a separator, the second holds none. -/
structure Cut (separators : List (List Char)) (text closed rest : List Char) : Prop where
  text_eq : text = closed ++ rest
  ends : closed = [] ∨ ∃ separator ∈ separators, separator <:+ closed
  rest_free : ∀ separator ∈ separators, ¬ separator <:+: rest

/-- White space that ends a line. -/
def IsBreak (separator : List Char) : Prop :=
  (∀ c ∈ separator, isWhitespace c = true) ∧ ∃ before, separator = before ++ ['\n']

namespace Cut

variable {separators : List (List Char)} {text closed rest : List Char}

/-- More text, cut after what is left. -/
theorem append {more closed' rest' : List Char} (h : Cut separators text closed rest)
    (h' : Cut separators (rest ++ more) closed' rest') :
    Cut separators (text ++ more) (closed ++ closed') rest' where
  text_eq := by rw [h.text_eq, List.append_assoc, h'.text_eq, List.append_assoc]
  ends := by
    rcases h'.ends with rfl | ⟨separator, hmem, hsuffix⟩
    · rw [List.append_nil]
      exact h.ends
    · exact .inr ⟨separator, hmem, hsuffix.trans (List.suffix_append _ _)⟩
  rest_free := h'.rest_free

/-- Two cuts of a text differ by less than a separator. -/
theorem exists_append {closed' rest' : List Char} (h : Cut separators text closed rest)
    (h' : Cut separators text closed' rest') (hle : closed.length ≤ closed'.length) :
    ∃ more, closed' = closed ++ more ∧ (more = [] ∨ ∃ separator ∈ separators, more <:+ separator) := by
  have hprefix : closed <+: closed' := by
    have htext : closed <+: text := by
      rw [h.text_eq]
      exact List.prefix_append _ _
    have htext' : closed' <+: text := by
      rw [h'.text_eq]
      exact List.prefix_append _ _
    exact List.prefix_of_prefix_length_le htext htext' hle
  obtain ⟨more, rfl⟩ := hprefix
  refine ⟨more, rfl, ?_⟩
  have hrest : rest = more ++ rest' := by
    have htext := h.text_eq.symm.trans h'.text_eq
    rwa [List.append_assoc, List.append_cancel_left_eq] at htext
  rcases h'.ends with hnil | ⟨separator, hmem, hsuffix⟩
  · exact .inl (List.append_eq_nil_iff.mp hnil).2
  · rcases List.suffix_or_suffix_of_suffix hsuffix (List.suffix_append closed more) with hinside | hmore
    · refine absurd ?_ (h.rest_free separator hmem)
      rw [hrest]
      exact hinside.isInfix.trans (List.prefix_append _ _).isInfix
    · exact .inr ⟨separator, hmem, hmore⟩

variable {β : Type u} (r : LineReader β)

/-- Closed text and what follows it are read one after the other. -/
theorem readText_append (h : Cut separators text closed rest)
    (hbreak : ∀ separator ∈ separators, IsBreak separator) (more : List Char) :
    r.readText (closed ++ more) = r.readText closed ++ r.readText more := by
  rcases h.ends with rfl | ⟨separator, hmem, before, rfl⟩
  · rw [List.nil_append, r.readText_eq [], LineReader.readFrom, r.read_nil, List.nil_append]
  · obtain ⟨-, line, rfl⟩ := hbreak separator hmem
    rw [r.readText_eq, r.readText_eq, r.readText_eq, ← List.append_assoc, List.append_assoc _ _ more,
      List.singleton_append, r.readFrom_newline, r.readFrom_newline]
    rw [LineReader.readFrom, r.read_nil, List.append_nil]

/-- However a text is cut, its closed part reads the same. -/
theorem readText_congr {closed' rest' : List Char} (h : Cut separators text closed rest)
    (h' : Cut separators text closed' rest') (hbreak : ∀ separator ∈ separators, IsBreak separator) :
    r.readText closed = r.readText closed' := by
  have hmore : ∀ {closed closed' rest rest' : List Char}, Cut separators text closed rest →
      Cut separators text closed' rest' → closed.length ≤ closed'.length →
      r.readText closed = r.readText closed' := by
    intro closed closed' rest rest' h h' hle
    obtain ⟨more, rfl, hmore⟩ := h.exists_append h' hle
    have hwhite : ∀ c ∈ more, isWhitespace c = true := by
      rcases hmore with rfl | ⟨separator, hmem, hsuffix⟩
      · exact nofun
      · exact fun c hc => (hbreak separator hmem).1 c (hsuffix.subset hc)
    rw [r.readText_eq, r.readText_eq, r.readFrom_append_white hwhite]
  rcases Nat.le_total closed.length closed'.length with hle | hle
  · exact hmore h h' hle
  · exact (hmore h' h hle).symm

end Cut

end NodeWebrtc.Text
