import Mathlib.Data.List.DropRight
import Mathlib.Data.List.TakeWhile
import NodeWebrtc.Lib.Text

/-! # What trimming keeps

The visible characters of a text are the ones that are not white space. Trimming and
cutting at white space keep them in order, so a chain of such passes can be followed by
its visible characters alone. Word counts only grow when text is added at the end.
-/

namespace NodeWebrtc.Text

/-- The characters of `s` that are not white space, in order. -/
def visible (s : List Char) : List Char := s.filter fun c => !isWhitespace c

@[simp] theorem visible_nil : visible [] = [] := rfl

@[simp] theorem visible_append (s t : List Char) : visible (s ++ t) = visible s ++ visible t :=
  List.filter_append s t

@[simp] theorem visible_space_cons (s : List Char) : visible (' ' :: s) = visible s := by
  have hspace : isWhitespace ' ' = true := by decide
  simp [visible, hspace]

theorem visible_of_forall {s : List Char} (h : ∀ c ∈ s, isWhitespace c = true) :
    visible s = [] := by
  apply List.filter_eq_nil_iff.mpr
  intro c hc
  simp [h c hc]

theorem mem_visible {s : List Char} {c : Char} :
    c ∈ visible s ↔ c ∈ s ∧ isWhitespace c = false := by
  simp [visible]

@[simp] theorem visible_trimStart (s : List Char) : visible (trimStart s) = visible s := by
  have hsplit := congrArg visible (List.takeWhile_append_dropWhile (p := isWhitespace) (l := s))
  rw [visible_append, visible_of_forall fun c hc => List.mem_takeWhile_imp hc] at hsplit
  exact hsplit

@[simp] theorem visible_trimEnd (s : List Char) : visible (trimEnd s) = visible s := by
  have hrev := visible_trimStart s.reverse
  unfold trimStart visible at hrev
  rw [List.filter_reverse] at hrev
  unfold trimEnd visible
  rw [List.filter_reverse, hrev, List.reverse_reverse]

@[simp] theorem visible_trimChars (s : List Char) : visible (trimChars s) = visible s := by
  rw [trimChars, visible_trimEnd, visible_trimStart]

/-! ## Trimmed text -/

/-- Text that starts and ends with a visible character. -/
structure Trimmed (s : List Char) : Prop where
  ne_nil : s ≠ []
  first : ∀ c ∈ s.head?, isWhitespace c = false
  last : ∀ c ∈ s.getLast?, isWhitespace c = false

theorem trimStart_first (s : List Char) : ∀ c ∈ (trimStart s).head?, isWhitespace c = false := by
  intro c hc
  have hnot := List.head?_dropWhile_not isWhitespace s
  unfold trimStart at hc
  rw [Option.mem_def] at hc
  rw [hc] at hnot
  exact hnot

variable {s : List Char}

theorem trimStart_of_first (h : ∀ c ∈ s.head?, isWhitespace c = false) : trimStart s = s := by
  cases s with
  | nil => rfl
  | cons c s => exact List.dropWhile_cons_of_neg (by simp [h c rfl])

theorem trimEnd_last (s : List Char) : ∀ c ∈ (trimEnd s).getLast?, isWhitespace c = false := by
  intro c hc
  unfold trimEnd at hc
  rw [List.getLast?_reverse] at hc
  exact trimStart_first s.reverse c hc

theorem trimEnd_of_last (h : ∀ c ∈ s.getLast?, isWhitespace c = false) : trimEnd s = s := by
  unfold trimEnd
  rw [← List.head?_reverse] at h
  have hrev := trimStart_of_first h
  unfold trimStart at hrev
  rw [hrev, List.reverse_reverse]

theorem trimEnd_isPrefix (s : List Char) : trimEnd s <+: s := List.rdropWhile_prefix _ _

variable {t : List Char}

theorem head?_of_isPrefix (h : s <+: t) {c : Char} (hc : c ∈ s.head?) : c ∈ t.head? := by
  obtain ⟨rest, rfl⟩ := h
  cases s with
  | nil => cases hc
  | cons d s => exact hc

theorem getLast?_of_suffix (h : s <:+ t) {c : Char} (hc : c ∈ s.getLast?) : c ∈ t.getLast? := by
  rw [← List.head?_reverse] at hc ⊢
  exact head?_of_isPrefix (List.reverse_prefix.mpr h) hc

theorem Trimmed.trimChars (h : Trimmed s) : trimChars s = s := by
  rw [Text.trimChars, trimStart_of_first h.first, trimEnd_of_last h.last]

/-- What trimming leaves is trimmed, when it leaves anything. -/
theorem trimmed_trimChars (h : trimChars s ≠ []) : Trimmed (trimChars s) where
  ne_nil := h
  first c hc := trimStart_first s c (head?_of_isPrefix (trimEnd_isPrefix _) hc)
  last := trimEnd_last _

theorem trimChars_ne_nil (h : visible s ≠ []) : trimChars s ≠ [] := by
  intro hnil
  rw [← visible_trimChars, hnil] at h
  exact h rfl

theorem Trimmed.visible_ne_nil (h : Trimmed s) : visible s ≠ [] := by
  cases s with
  | nil => exact absurd rfl h.ne_nil
  | cons c s =>
    intro hnil
    have hmem : c ∈ visible (c :: s) := mem_visible.mpr ⟨List.mem_cons_self, h.first c rfl⟩
    rw [hnil] at hmem
    cases hmem

theorem trimChars_eq_nil_iff : trimChars s = [] ↔ visible s = [] := by
  refine ⟨fun h => ?_, fun h => ?_⟩
  · rw [← visible_trimChars, h, visible_nil]
  · by_contra hne
    have hvisible := (trimmed_trimChars hne).visible_ne_nil
    rw [visible_trimChars] at hvisible
    exact hvisible h

theorem forall_of_visible_eq_nil (h : visible s = []) : ∀ c ∈ s, isWhitespace c = true := by
  intro c hc
  have hnot := List.filter_eq_nil_iff.mp h c hc
  simpa using hnot

/-- What stands before visible text changes the trimmed text, unless it is white space. -/
theorem trimChars_append_eq_iff (p s : List Char) :
    trimChars (p ++ s) = trimChars s ↔ visible p = [] := by
  refine ⟨fun h => ?_, fun h => ?_⟩
  · have hvisible := congrArg visible h
    rw [visible_trimChars, visible_trimChars, visible_append] at hvisible
    exact List.append_left_eq_self.mp hvisible
  · rw [trimChars, trimChars, trimStart, trimStart,
      List.dropWhile_append_of_pos (forall_of_visible_eq_nil h)]

/-- White space at the end is trimmed. -/
theorem trimChars_append_white (s : List Char) {white : List Char}
    (h : ∀ c ∈ white, isWhitespace c = true) : trimChars (s ++ white) = trimChars s := by
  have hdrop : white.dropWhile isWhitespace = [] := List.dropWhile_eq_nil_iff.mpr h
  rw [trimChars, trimChars, trimStart, trimStart, List.dropWhile_append, hdrop]
  split_ifs with hempty
  · rw [List.isEmpty_iff.mp hempty]
  · rw [trimEnd, trimEnd, List.reverse_append, List.dropWhile_append_of_pos]
    exact fun c hc => h c (List.mem_reverse.mp hc)

/-- Trimmed pieces with anything between them. -/
theorem Trimmed.append (hs : Trimmed s) (ht : Trimmed t) (middle : List Char) :
    Trimmed (s ++ middle ++ t) where
  ne_nil h := hs.ne_nil (List.append_eq_nil_iff.mp (List.append_eq_nil_iff.mp h).1).1
  first c hc := by
    cases hhead : s with
    | nil => exact absurd hhead hs.ne_nil
    | cons d s' =>
      apply hs.first c
      rw [hhead] at hc ⊢
      exact hc
  last c hc := by
    rw [List.getLast?_append_of_ne_nil _ ht.ne_nil] at hc
    exact ht.last c hc

/-! ## Positions and words -/

theorem rposition_eq_some {p : Char → Bool} {i : Nat} (h : rposition p s = some i) :
    ∃ c, s[i]? = some c ∧ p c = true := by
  unfold rposition at h
  rw [Option.map_eq_some_iff] at h
  obtain ⟨back, hback, rfl⟩ := h
  rw [List.findIdx?_eq_some_iff_getElem] at hback
  obtain ⟨hlt, hp, -⟩ := hback
  rw [List.length_reverse] at hlt
  rw [List.getElem_reverse] at hp
  exact ⟨_, List.getElem?_eq_getElem (by omega), hp⟩

/-- The words of `s`, counted. -/
def wordCount (s : List Char) : Nat := (splitWhitespace s).length

theorem wordsFrom_length_pos (s : List Char) (pos : Nat) {word : List Char} (h : word ≠ []) :
    0 < (wordsFrom pos word s).length := by
  induction s generalizing pos word with
  | nil => simp [wordsFrom, h]
  | cons c s ih =>
    simp only [wordsFrom, List.isEmpty_iff, h, if_false]
    split
    · simp
    · exact ih _ (by simp)

/-- Text added at the end takes no word away. -/
theorem wordsFrom_length_append (s t : List Char) (pos : Nat) (word : List Char) :
    (wordsFrom pos word s).length ≤ (wordsFrom pos word (s ++ t)).length := by
  induction s generalizing pos word with
  | nil =>
    by_cases h : word = []
    · simp [wordsFrom, h]
    · have hpos := wordsFrom_length_pos t pos h
      simp only [wordsFrom, List.isEmpty_iff, h, if_false, List.length_singleton, List.nil_append]
      omega
  | cons c s ih =>
    simp only [List.cons_append, wordsFrom]
    split
    · split
      · exact ih _ _
      · simpa using ih (pos + 1) []
    · exact ih _ _

theorem wordCount_append (s t : List Char) : wordCount s ≤ wordCount (s ++ t) := by
  unfold wordCount splitWhitespace wordEnds
  rw [List.length_map, List.length_map]
  exact wordsFrom_length_append s t 0 []

/-- White space at the end adds no word. -/
theorem wordsFrom_append_white (s t : List Char) (h : ∀ c ∈ t, isWhitespace c = true) (pos : Nat)
    (word : List Char) : wordsFrom pos word (s ++ t) = wordsFrom pos word s := by
  induction s generalizing pos word with
  | nil =>
    induction t generalizing pos word with
    | nil => rfl
    | cons c t ih =>
      have hrest := ih (fun d hd => h d (List.mem_cons_of_mem c hd)) (pos + 1) []
      rw [List.nil_append] at hrest ⊢
      simp only [wordsFrom, h c List.mem_cons_self, if_true, hrest, List.isEmpty_nil]
  | cons c s ih => simp only [List.cons_append, wordsFrom, ih]

theorem wordCount_trimEnd (s : List Char) : wordCount (trimEnd s) = wordCount s := by
  have hsplit : trimEnd s ++ s.rtakeWhile isWhitespace = s := List.rdropWhile_append_rtakeWhile
  have hwhite : ∀ c ∈ s.rtakeWhile isWhitespace, isWhitespace c = true :=
    fun c hc => List.mem_rtakeWhile_imp hc
  unfold wordCount splitWhitespace wordEnds
  rw [← wordsFrom_append_white (trimEnd s) _ hwhite, hsplit]

/-- Up to the end of its `i`-th word a text has more than `i` words. -/
theorem wordsFrom_take_length {pos : Nat} {word : List Char} {i : Nat} {w : List Char × Nat}
    (h : (wordsFrom pos word s)[i]? = some w) :
    pos ≤ w.2 ∧ i < (wordsFrom pos word (s.take (w.2 - pos))).length := by
  induction s generalizing pos word i with
  | nil =>
    have hi := (List.getElem?_eq_some_iff.mp h).1
    by_cases hword : word = []
    · simp [wordsFrom, hword] at h
    · simp only [wordsFrom, List.isEmpty_iff, hword, if_false] at h hi
      simp only [List.length_singleton, Nat.lt_one_iff] at hi
      subst hi
      cases h
      refine ⟨Nat.le_refl _, ?_⟩
      simp [wordsFrom, hword]
  | cons c s ih =>
    -- One more character is taken: the position of the word is past this one.
    have htake {n : Nat} (hn : pos + 1 ≤ n) :
        (c :: s).take (n - pos) = c :: s.take (n - (pos + 1)) := by
      rw [show n - pos = n - (pos + 1) + 1 by omega, List.take_succ_cons]
    simp only [wordsFrom] at h
    split at h
    · rename_i hwhite
      split at h
      · rename_i hempty
        have hrest := ih h
        refine ⟨by omega, ?_⟩
        rw [htake hrest.1]
        simp only [wordsFrom, hwhite, hempty, if_true]
        exact hrest.2
      · rename_i hword
        cases i with
        | zero =>
          rw [List.getElem?_cons_zero] at h
          cases h
          refine ⟨Nat.le_refl _, ?_⟩
          apply wordsFrom_length_pos
          intro hnil
          exact hword (List.isEmpty_iff.mpr hnil)
        | succ i =>
          rw [List.getElem?_cons_succ] at h
          have hrest := ih h
          refine ⟨by omega, ?_⟩
          rw [htake hrest.1]
          simp only [wordsFrom, hwhite, hword, if_true, if_false, Bool.false_eq_true,
            List.length_cons]
          omega
    · rename_i hvisible
      have hrest := ih h
      refine ⟨by omega, ?_⟩
      rw [htake hrest.1]
      simp only [wordsFrom, hvisible, if_false, Bool.false_eq_true]
      exact hrest.2

end NodeWebrtc.Text
