import Mathlib.Data.List.Infix
import NodeWebrtc.Sherpa.SentenceContent

/-! # Which texts give tiny pieces

Short pieces are merged before long sentences are cut, so only a cut of a sentence over the
limit can leave a piece that is too small to be spoken on its own.
-/

namespace NodeWebrtc.Sherpa

open Text

variable (U : CharTables)

/-- Fewer than four words, and no CJK text with four letters or digits. -/
def Tiny (piece : List Char) : Prop :=
  wordCount piece < MIN_SENTENCE_WORDS ∧
    ¬(piece.any isCjkLetter = true ∧ MIN_SENTENCE_WORDS ≤ (piece.filter U.isAlphanumeric).length)

/-- The piece lies in a word of the text that is over the limit by itself. -/
def PartOfLongWord (text piece : List Char) : Prop :=
  ∃ word ∈ splitWhitespace text, MAX_SENTENCE_CHARS < word.length ∧ piece <:+: word

def Speakable (text piece : List Char) : Prop := ¬Tiny U piece ∨ PartOfLongWord text piece

def NoTinyPiece (text : List Char) (pieces : List (List Char)) : Prop :=
  1 < pieces.length → ∀ piece ∈ pieces, Speakable U text piece

/-- The cuts of a sentence over the limit: enough words lie between the last cut and the
comma or space that `longCut` picks next, and enough are left after the last cut. -/
inductive CutsKeepWords (text : List Char) : List Char → Prop
  | last {rest : List Char} (fits : rest.length ≤ MAX_SENTENCE_CHARS)
      (enough : Speakable U text rest) : CutsKeepWords text rest
  | round {rest : List Char} (long : MAX_SENTENCE_CHARS < rest.length)
      (enough : Speakable U text (trimChars (rest.take (longCut rest).1)))
      (next : CutsKeepWords text
        (trimStart (rest.drop ((longCut rest).1 + (longCut rest).2)))) : CutsKeepWords text rest

/-- Every sentence over the limit has its commas and spaces where the cuts keep words. -/
def LongCutsKeepWords (text : List Char) : Prop :=
  ∀ sentence ∈ mergedSentences U text, MAX_SENTENCE_CHARS < sentence.length →
    CutsKeepWords U text sentence

variable {U}

/-! ## The merges -/

variable {piece : List Char}

theorem not_tiny_of_wordCount (h : MIN_SENTENCE_WORDS ≤ wordCount piece) :
    ¬Tiny U piece := fun htiny => Nat.not_lt_of_le h htiny.1

theorem not_tiny_of_not_short (h : isShort U piece = false) : ¬Tiny U piece := by
  unfold isShort at h
  intro htiny
  split at h
  · rename_i hcjk
    exact htiny.2 ⟨hcjk, Nat.le_of_not_lt (of_decide_eq_false h)⟩
  · exact of_decide_eq_false h htiny.1

theorem not_tiny_append (h : ¬Tiny U piece) (more : List Char) : ¬Tiny U (piece ++ more) := by
  intro htiny
  apply h
  refine ⟨Nat.lt_of_le_of_lt (wordCount_append piece more) htiny.1, ?_⟩
  intro hcjk
  apply htiny.2
  rw [List.any_append, List.filter_append, List.length_append, hcjk.1, Bool.true_or]
  exact ⟨rfl, Nat.le_trans hcjk.2 (Nat.le_add_right _ _)⟩

theorem not_tiny_joinPieces {first : List Char} (h : ¬Tiny U first) (second : List Char) :
    ¬Tiny U (joinPieces first second) := by
  unfold joinPieces
  split
  · exact not_tiny_append h second
  · rw [List.append_assoc]
    exact not_tiny_append h _

variable {out : List (List Char)}

theorem changeLast_of_ne_nil (h : out ≠ []) (f : List Char → List Char) :
    changeLast out f = out.dropLast ++ [f (out.getLast h)] := by
  unfold changeLast
  rw [List.getLast?_eq_some_getLast h]

theorem forall_mem_changeLast {P : List Char → Prop} {f : List Char → List Char}
    (hout : ∀ piece ∈ out, P piece) (hf : ∀ piece, P piece → P (f piece)) :
    ∀ piece ∈ changeLast out f, P piece := by
  by_cases h : out = []
  · subst h
    exact hout
  · intro piece hpiece
    rw [changeLast_of_ne_nil h] at hpiece
    cases List.mem_append.mp hpiece with
    | inl hmem => exact hout piece (List.mem_of_mem_dropLast hmem)
    | inr hmem =>
      cases List.mem_singleton.mp hmem
      exact hf _ (hout _ (List.getLast_mem h))

theorem mergeShortLoop_not_tiny (current : Option (List Char)) (pieces : List (List Char))
    (hout : ∀ piece ∈ out, ¬Tiny U piece) :
    (∀ piece ∈ mergeShortLoop U out current pieces, ¬Tiny U piece) ∨
      ∃ tail, mergeShortLoop U out current pieces = [tail] := by
  induction pieces generalizing out current with
  | nil =>
    cases current with
    | none => exact Or.inl hout
    | some tail =>
      simp only [mergeShortLoop]
      split
      · exact Or.inr ⟨tail, rfl⟩
      · exact Or.inl (forall_mem_changeLast hout fun piece h => not_tiny_joinPieces h tail)
  | cons piece pieces ih =>
    have hpush {combined : List Char} (h : ¬isShort U combined = true) :
        ∀ piece ∈ out ++ [combined], ¬Tiny U piece := by
      intro other hother
      cases List.mem_append.mp hother with
      | inl hmem => exact hout other hmem
      | inr hmem =>
        cases List.mem_singleton.mp hmem
        exact not_tiny_of_not_short (Bool.eq_false_iff.mpr h)
    cases current <;> simp only [mergeShortLoop] <;> split
    · exact ih _ hout
    · exact ih _ (hpush ‹_›)
    · exact ih _ hout
    · exact ih _ (hpush ‹_›)

/-! ## Merged sentences are trimmed -/

variable {current : List Char}

theorem cutSentences_trimmed {raw : List (List Char)} {chars : List Char}
    (hraw : ∀ piece ∈ raw, Trimmed piece) :
    ∀ piece ∈ cutSentences raw current chars, Trimmed piece := by
  have hpush {raw : List (List Char)} {current : List Char} (hraw : ∀ piece ∈ raw, Trimmed piece) :
      ∀ piece ∈ pushTrimmed raw current, Trimmed piece := by
    intro piece hpiece
    cases mem_pushTrimmed.mp hpiece with
    | inl h => exact hraw piece h
    | inr h =>
      obtain ⟨hne, rfl⟩ := h
      exact trimmed_trimChars hne
  induction chars generalizing raw current with
  | nil => exact hpush hraw
  | cons c chars ih =>
    simp only [cutSentences]
    split
    · exact ih (hpush hraw)
    · exact ih hraw

theorem forall_mem_push {P : List Char → Prop} (hout : ∀ piece ∈ out, P piece) (hpiece : P piece) :
    ∀ other ∈ out ++ [piece], P other := by
  intro other hother
  cases List.mem_append.mp hother with
  | inl hmem => exact hout other hmem
  | inr hmem =>
    cases List.mem_singleton.mp hmem
    exact hpiece

theorem mergeSymbolOnlyLoop_trimmed {pendingPrefix : Option (List Char)} {pieces : List (List Char)}
    (hout : ∀ piece ∈ out, Trimmed piece) (hpending : ∀ head ∈ pendingPrefix, Trimmed head)
    (hpieces : ∀ piece ∈ pieces, Trimmed piece) :
    ∀ piece ∈ mergeSymbolOnlyLoop U out pendingPrefix pieces, Trimmed piece := by
  induction pieces generalizing out pendingPrefix with
  | nil => exact hout
  | cons piece pieces ih =>
    have hpiece := hpieces piece List.mem_cons_self
    have hrest : ∀ piece ∈ pieces, Trimmed piece :=
      fun p hp => hpieces p (List.mem_cons_of_mem piece hp)
    have hchanged := forall_mem_changeLast (P := Trimmed) (f := fun p => p ++ [' '] ++ piece) hout
      fun p hp => hp.append hpiece [' ']
    cases pendingPrefix with
    | none =>
      simp only [mergeSymbolOnlyLoop]
      split
      · exact ih (forall_mem_push hout hpiece) (fun _ h => by cases h) hrest
      · split
        · exact ih hout (fun _ h => by cases h; exact hpiece) hrest
        · exact ih hchanged (fun _ h => by cases h) hrest
    | some head =>
      have hjoined : Trimmed (head ++ [' '] ++ piece) := (hpending head rfl).append hpiece [' ']
      simp only [mergeSymbolOnlyLoop]
      split
      · exact ih (forall_mem_push hout hjoined) (fun _ h => by cases h) hrest
      · split
        · exact ih hout (fun _ h => by cases h; exact hjoined) hrest
        · exact ih hchanged hpending hrest

theorem joinPieces_trimmed {first second : List Char} (hfirst : Trimmed first)
    (hsecond : Trimmed second) : Trimmed (joinPieces first second) := by
  unfold joinPieces
  split
  · have h := hfirst.append hsecond []
    rwa [List.append_nil] at h
  · exact hfirst.append hsecond [' ']

theorem mergeShortLoop_trimmed {current : Option (List Char)} {pieces : List (List Char)}
    (hout : ∀ piece ∈ out, Trimmed piece) (hcurrent : ∀ head ∈ current, Trimmed head)
    (hpieces : ∀ piece ∈ pieces, Trimmed piece) :
    ∀ piece ∈ mergeShortLoop U out current pieces, Trimmed piece := by
  induction pieces generalizing out current with
  | nil =>
    cases current with
    | none => exact hout
    | some tail =>
      have htail := hcurrent tail rfl
      simp only [mergeShortLoop]
      split
      · intro piece hpiece
        cases List.mem_singleton.mp hpiece
        exact htail
      · exact forall_mem_changeLast hout fun piece hp => joinPieces_trimmed hp htail
  | cons piece pieces ih =>
    have hpiece := hpieces piece List.mem_cons_self
    have hrest : ∀ piece ∈ pieces, Trimmed piece :=
      fun p hp => hpieces p (List.mem_cons_of_mem piece hp)
    cases current with
    | none =>
      simp only [mergeShortLoop]
      split
      · exact ih hout (fun _ h => by cases h; exact hpiece) hrest
      · exact ih (forall_mem_push hout hpiece) (fun _ h => by cases h) hrest
    | some head =>
      have hjoined := joinPieces_trimmed (hcurrent head rfl) hpiece
      simp only [mergeShortLoop]
      split
      · exact ih hout (fun _ h => by cases h; exact hjoined) hrest
      · exact ih (forall_mem_push hout hjoined) (fun _ h => by cases h) hrest

variable (text : List Char)

theorem mergedSentences_trimmed : ∀ sentence ∈ mergedSentences U text, Trimmed sentence := by
  have hnone : ∀ head ∈ (none : Option (List Char)), Trimmed head := fun _ h => by cases h
  have hnil : ∀ piece ∈ ([] : List (List Char)), Trimmed piece := fun _ h => by cases h
  exact mergeShortLoop_trimmed hnil hnone
    (mergeSymbolOnlyLoop_trimmed hnil hnone (cutSentences_trimmed hnil))

/-! ## The cuts -/

theorem pushTrimmed_eq (out : List (List Char)) (h : trimChars current ≠ []) :
    pushTrimmed out current = out ++ [trimChars current] := by
  unfold pushTrimmed
  rw [if_neg fun hempty => h (List.isEmpty_iff.mp hempty)]

theorem pushTrimmed_of_trimmed (out : List (List Char)) (h : Trimmed current) :
    pushTrimmed out current = out ++ [current] := by
  have hne : trimChars current ≠ [] := by
    rw [h.trimChars]
    exact h.ne_nil
  rw [pushTrimmed_eq out hne, h.trimChars]

variable {rest : List Char}

theorem longCut_head_ne_nil (h : Trimmed rest) : trimChars (rest.take (longCut rest).1) ≠ [] := by
  have hpos := (longCut_spec rest).1
  apply trimChars_ne_nil
  cases rest with
  | nil => exact absurd rfl h.ne_nil
  | cons c rest =>
    obtain ⟨n, hn⟩ := Nat.exists_eq_succ_of_ne_zero (Nat.ne_of_gt hpos)
    have hmem : c ∈ visible ((c :: rest).take (longCut (c :: rest)).1) := by
      rw [hn, List.take_succ_cons]
      exact mem_visible.mpr ⟨List.mem_cons_self, h.first c rfl⟩
    intro hnil
    rw [hnil] at hmem
    cases hmem

theorem longCut_rest_trimmed (h : Trimmed rest) (hlong : MAX_SENTENCE_CHARS < rest.length) :
    Trimmed (trimStart (rest.drop ((longCut rest).1 + (longCut rest).2))) := by
  obtain ⟨-, hle, hskip⟩ := longCut_spec rest
  have hsuffix : trimStart (rest.drop ((longCut rest).1 + (longCut rest).2)) <:+ rest :=
    (List.dropWhile_suffix isWhitespace).trans (List.drop_suffix _ _)
  refine ⟨?_, trimStart_first _, fun c hc => h.last c (getLast?_of_suffix hsuffix hc)⟩
  have htail : rest.drop (longCut rest).1 ≠ [] := by
    intro hnil
    have hlength := List.drop_eq_nil_iff.mp hnil
    omega
  have hlast :
      (rest.drop (longCut rest).1).getLast htail ∈ visible (rest.drop (longCut rest).1) := by
    apply mem_visible.mpr
    refine ⟨List.getLast_mem htail, h.last _ ?_⟩
    exact getLast?_of_suffix (List.drop_suffix _ _) (List.getLast?_eq_some_getLast htail)
  intro hnil
  have hsplit := congrArg visible
    (List.take_append_drop (longCut rest).2 (rest.drop (longCut rest).1))
  rw [visible_append, hskip, List.drop_drop, ← visible_trimStart (rest.drop (_ + _)),
    hnil] at hsplit
  rw [← hsplit] at hlast
  cases hlast

/-- The pieces of one sentence: two or more when it is over the limit, and all of them
speakable exactly when its cuts keep words. -/
theorem SplitLong.cuts {result : List (List Char)} (h : SplitLong out rest result)
    (hrest : Trimmed rest) :
    ∃ pieces, result = out ++ pieces ∧ pieces ≠ [] ∧
      (MAX_SENTENCE_CHARS < rest.length → 1 < pieces.length) ∧
      ((∀ piece ∈ pieces, Speakable U text piece) ↔ CutsKeepWords U text rest) := by
  induction h with
  | @last out rest fits =>
    have hpush := pushTrimmed_of_trimmed out hrest
    refine ⟨[rest], hpush, List.cons_ne_nil _ _, fun hlong => absurd hlong (by omega), ?_⟩
    constructor
    · intro h
      exact .last fits (h rest List.mem_cons_self)
    · intro h piece hpiece
      cases List.mem_singleton.mp hpiece
      cases h with
      | last _ enough => exact enough
      | round long => exact absurd fits (Nat.not_le_of_lt long)
  | @round out result rest long next ih =>
    obtain ⟨pieces, hresult, hne, -, hcuts⟩ := ih (longCut_rest_trimmed hrest long)
    rw [pushTrimmed_eq out (longCut_head_ne_nil hrest), List.append_assoc] at hresult
    refine ⟨_, hresult, by simp, fun _ => ?_, ?_⟩
    · have hpos := List.length_pos_iff.mpr hne
      simp only [List.length_append, List.length_singleton]
      omega
    · rw [List.singleton_append, List.forall_mem_cons, hcuts]
      constructor
      · intro h
        exact .round long h.1 h.2
      · intro h
        cases h with
        | last fits => exact absurd fits (Nat.not_le_of_lt long)
        | round _ enough next => exact ⟨enough, next⟩

theorem pushTrimmed_append (out more : List (List Char)) (current : List Char) :
    pushTrimmed (out ++ more) current = out ++ pushTrimmed more current := by
  unfold pushTrimmed
  dsimp only
  split
  · rfl
  · rw [List.append_assoc]

theorem splitLongLoop_append (out more : List (List Char)) (fuel : Nat) (rest : List Char) :
    splitLongLoop (out ++ more) fuel rest = out ++ splitLongLoop more fuel rest := by
  induction fuel generalizing more rest with
  | zero => exact pushTrimmed_append out more rest
  | succ fuel ih =>
    simp only [splitLongLoop]
    split
    · exact pushTrimmed_append out more rest
    · rw [pushTrimmed_append, ih]

theorem foldl_splitLong (out sentences : List (List Char)) :
    sentences.foldl splitLong out = out ++ sentences.flatMap (splitLong []) := by
  induction sentences generalizing out with
  | nil => simp
  | cons sentence sentences ih =>
    have hsplit := splitLongLoop_append out [] sentence.length sentence
    rw [List.append_nil] at hsplit
    rw [List.foldl_cons, ih, List.flatMap_cons, ← List.append_assoc]
    exact congrArg (· ++ sentences.flatMap (splitLong [])) hsplit

theorem splitSentences_eq :
    splitSentences U text = (mergedSentences U text).flatMap (splitLong []) :=
  foldl_splitLong [] _

variable {sentence : List Char}

theorem splitLong_cuts (h : Trimmed sentence) :
    splitLong [] sentence ≠ [] ∧
      (MAX_SENTENCE_CHARS < sentence.length → 1 < (splitLong [] sentence).length) ∧
      ((∀ piece ∈ splitLong [] sentence, Speakable U text piece) ↔
        CutsKeepWords U text sentence) := by
  obtain ⟨pieces, hpieces, hcuts⟩ := (splitLong_run [] sentence).cuts (U := U) text h
  rw [List.nil_append] at hpieces
  rw [hpieces]
  exact hcuts

theorem splitLong_of_fits (h : Trimmed sentence) (hfits : sentence.length ≤ MAX_SENTENCE_CHARS) :
    splitLong [] sentence = [sentence] := by
  have hpush := pushTrimmed_of_trimmed [] h
  rw [List.nil_append] at hpush
  unfold splitLong
  cases hlength : sentence.length with
  | zero => exact absurd (List.length_eq_zero_iff.mp hlength) h.ne_nil
  | succ fuel =>
    rw [splitLongLoop, if_pos hfits]
    exact hpush

theorem length_le_flatMap {sentences : List (List Char)} {f : List Char → List (List Char)}
    (h : sentence ∈ sentences) :
    (f sentence).length ≤ (sentences.flatMap f).length := by
  induction sentences with
  | nil => cases h
  | cons other sentences ih =>
    rw [List.flatMap_cons, List.length_append]
    cases h with
    | head => exact Nat.le_add_right _ _
    | tail _ hmem => exact Nat.le_trans (ih hmem) (Nat.le_add_left _ _)

/-! ## The pieces of a text -/

theorem noTinyPiece_splitSentences :
    NoTinyPiece U text (splitSentences U text) ↔ LongCutsKeepWords U text := by
  have htrimmed := mergedSentences_trimmed (U := U) text
  rw [splitSentences_eq]
  constructor
  · intro h sentence hmem hlong
    obtain ⟨-, htwo, hcuts⟩ := splitLong_cuts (U := U) text (htrimmed sentence hmem)
    have hseveral := Nat.lt_of_lt_of_le (htwo hlong) (length_le_flatMap (f := splitLong []) hmem)
    apply hcuts.mp
    intro piece hpiece
    exact h hseveral piece (List.mem_flatMap.mpr ⟨sentence, hmem, hpiece⟩)
  · intro h hseveral piece hpiece
    obtain ⟨sentence, hmem, hpiece⟩ := List.mem_flatMap.mp hpiece
    have hsentence := htrimmed sentence hmem
    by_cases hlong : MAX_SENTENCE_CHARS < sentence.length
    · exact (splitLong_cuts text hsentence).2.2.mpr (h sentence hmem hlong) piece hpiece
    · have hfits := splitLong_of_fits hsentence (Nat.le_of_not_lt hlong)
      rw [hfits, List.mem_singleton] at hpiece
      subst hpiece
      have hnil : ∀ piece ∈ ([] : List (List Char)), ¬Tiny U piece := fun _ h => by cases h
      cases mergeShortLoop_not_tiny none (mergeSymbolOnly U (cutSentences [] [] text)) hnil with
      | inl hall => exact Or.inl (hall piece hmem)
      | inr hone =>
        -- The only sentence is one piece, so there are not several.
        obtain ⟨tail, htail⟩ := hone
        change mergedSentences U text = [tail] at htail
        rw [htail, List.mem_singleton] at hmem
        subst hmem
        rw [htail, List.flatMap_singleton, hfits] at hseveral
        exact absurd hseveral (Nat.lt_irrefl 1)

theorem noTinyPiece_splitForFirstAudio :
    NoTinyPiece U text (splitForFirstAudio U text) ↔
      NoTinyPiece U text (splitSentences U text) := by
  cases splitForFirstAudio_cases U text with
  | inl hsame => rw [hsame]
  | inr hcut =>
    obtain ⟨first, pieces, cut, hsplit, hwords, hcut, hrest, hresult⟩ := hcut
    have hfirst : Speakable U text first :=
      Or.inl (not_tiny_of_wordCount (Nat.le_trans (by decide) hwords))
    have hhead : Speakable U text (trimEnd (first.take cut)) := by
      apply Or.inl ∘ not_tiny_of_wordCount
      rw [wordCount_trimEnd]
      exact commaCut_wordCount hcut
    have htail : Speakable U text (trimChars (first.drop cut)) :=
      Or.inl (not_tiny_of_wordCount hrest)
    rw [hresult, hsplit]
    constructor
    · intro h _
      have hall := List.forall_mem_cons.mp (h (by simp))
      exact List.forall_mem_cons.mpr ⟨hfirst, (List.forall_mem_cons.mp hall.2).2⟩
    · intro h _
      have hpieces : ∀ piece ∈ pieces, Speakable U text piece := by
        intro piece hpiece
        have hpos := List.length_pos_of_mem hpiece
        exact h (by rw [List.length_cons]; omega) piece (List.mem_cons_of_mem first hpiece)
      exact List.forall_mem_cons.mpr ⟨hhead, List.forall_mem_cons.mpr ⟨htail, hpieces⟩⟩

/-- A comma after the first word, and 300 characters without one after it. -/
def commaEarly : List Char := "Hi,".toList ++ (List.replicate 60 " word".toList).flatten

end NodeWebrtc.Sherpa
