import NodeWebrtc.Lib.Trim
import NodeWebrtc.Sherpa.Sentences

/-! # Sentence splitting loses nothing

Each pass of the splitter keeps the visible characters of its pieces in order. The cut of
long sentences is followed as the loop of the source, with no bound on the rounds.
-/

namespace NodeWebrtc.Sherpa

open Text

/-- The visible characters of the pieces, in order. -/
def content (pieces : List (List Char)) : List Char := visible pieces.flatten

@[simp] theorem content_nil : content [] = [] := rfl

@[simp] theorem content_cons (piece : List Char) (pieces : List (List Char)) :
    content (piece :: pieces) = visible piece ++ content pieces := by
  simp [content]

@[simp] theorem content_append (first second : List (List Char)) :
    content (first ++ second) = content first ++ content second := by
  simp [content]

theorem content_changeLast {out : List (List Char)} {f : List Char → List Char} (more : List Char)
    (hout : out ≠ []) (hf : ∀ piece, visible (f piece) = visible piece ++ more) :
    content (changeLast out f) = content out ++ more := by
  unfold changeLast
  rw [List.getLast?_eq_some_getLast hout]
  have hsplit := congrArg content (List.dropLast_append_getLast hout)
  rw [content_append, content_cons, content_nil, List.append_nil] at hsplit
  rw [content_append, content_cons, content_nil, List.append_nil, hf, ← List.append_assoc, hsplit]

theorem content_pushTrimmed (out : List (List Char)) (current : List Char) :
    content (pushTrimmed out current) = content out ++ visible current := by
  unfold pushTrimmed
  dsimp only
  rw [← visible_trimChars current]
  split
  · rename_i hempty
    rw [List.isEmpty_iff.mp hempty, visible_nil, List.append_nil]
  · rw [content_append, content_cons, content_nil, List.append_nil]

/-! ## The passes before the cut of long sentences -/

theorem content_cutSentences (raw : List (List Char)) (current chars : List Char) :
    content (cutSentences raw current chars) = content raw ++ visible current ++ visible chars := by
  induction chars generalizing raw current with
  | nil => rw [cutSentences, content_pushTrimmed, visible_nil, List.append_nil]
  | cons c chars ih =>
    have hvisible : visible (c :: chars) = visible [c] ++ visible chars :=
      visible_append [c] chars
    simp only [cutSentences]
    split <;> rw [ih] <;> simp [content_pushTrimmed, hvisible]

variable (U : CharTables)

theorem content_mergeSymbolOnlyLoop {out : List (List Char)} {pendingPrefix : Option (List Char)}
    {pieces : List (List Char)} (hpending : out ≠ [] → pendingPrefix = none)
    (hsome : out ≠ [] ∨ ∃ piece ∈ pieces, hasAlphanumeric U piece = true) :
    content (mergeSymbolOnlyLoop U out pendingPrefix pieces) =
      content out ++ visible (pendingPrefix.getD []) ++ content pieces := by
  induction pieces generalizing out pendingPrefix with
  | nil =>
    have hout : out ≠ [] := by
      cases hsome with
      | inl h => exact h
      | inr h =>
        obtain ⟨piece, hmem, -⟩ := h
        cases hmem
    rw [hpending hout]
    simp [mergeSymbolOnlyLoop]
  | cons piece pieces ih =>
    simp only [mergeSymbolOnlyLoop]
    split
    · rw [ih (fun _ => rfl) (Or.inl (by simp))]
      cases pendingPrefix <;> simp
    · rename_i hsymbols
      split
      · rename_i hempty
        rw [List.isEmpty_iff.mp hempty]
        rw [ih (fun h => absurd rfl h)]
        · cases pendingPrefix <;> simp
        · cases hsome with
          | inl h => exact absurd (List.isEmpty_iff.mp hempty) h
          | inr h =>
            obtain ⟨other, hmem, hother⟩ := h
            cases List.mem_cons.mp hmem with
            | inl heq => exact absurd (heq ▸ hother) hsymbols
            | inr hmem => exact Or.inr ⟨other, hmem, hother⟩
      · rename_i hne
        have hout : out ≠ [] := fun h => hne (List.isEmpty_iff.mpr h)
        have hlast : changeLast out (fun p => p ++ [' '] ++ piece) ≠ [] := by
          unfold changeLast
          rw [List.getLast?_eq_some_getLast hout]
          simp
        rw [hpending hout, ih (fun _ => rfl) (Or.inl hlast),
          content_changeLast (visible piece) hout (by simp)]
        simp

theorem visible_joinPieces (first second : List Char) :
    visible (joinPieces first second) = visible first ++ visible second := by
  unfold joinPieces
  split <;> simp

theorem content_mergeShortLoop (out : List (List Char)) (current : Option (List Char))
    (pieces : List (List Char)) :
    content (mergeShortLoop U out current pieces) =
      content out ++ visible (current.getD []) ++ content pieces := by
  induction pieces generalizing out current with
  | nil =>
    cases current with
    | none => simp [mergeShortLoop]
    | some tail =>
      simp only [mergeShortLoop]
      split
      · rename_i hempty
        rw [List.isEmpty_iff.mp hempty]
        simp
      · rename_i hne
        have hout : out ≠ [] := fun h => hne (List.isEmpty_iff.mpr h)
        rw [content_changeLast (visible tail) hout fun piece => visible_joinPieces piece tail]
        simp
  | cons piece pieces ih =>
    cases current <;> simp only [mergeShortLoop] <;> split <;> rw [ih] <;> simp [visible_joinPieces]

/-- The sentences of a text before long ones are cut. -/
def mergedSentences (text : List Char) : List (List Char) :=
  mergeShort U (mergeSymbolOnly U (cutSentences [] [] text))

variable {U}

theorem content_mergedSentences (hU : ∀ c, U.isAlphanumeric c = true → isWhitespace c = false)
    {text : List Char} (htext : ∃ c ∈ text, U.isAlphanumeric c = true) :
    content (mergedSentences U text) = visible text := by
  have hcut : content (cutSentences [] [] text) = visible text := content_cutSentences [] [] text
  obtain ⟨c, hc, halpha⟩ := htext
  have hmem : c ∈ content (cutSentences [] [] text) := by
    rw [hcut]
    exact mem_visible.mpr ⟨hc, hU c halpha⟩
  obtain ⟨piece, hpiece, hcpiece⟩ := List.mem_flatten.mp (mem_visible.mp hmem).1
  have hsome : ∃ piece ∈ cutSentences [] [] text, hasAlphanumeric U piece = true :=
    ⟨piece, hpiece, List.any_eq_true.mpr ⟨c, hcpiece, halpha⟩⟩
  unfold mergedSentences mergeShort mergeSymbolOnly
  rw [content_mergeShortLoop, content_mergeSymbolOnlyLoop U (fun _ => rfl) (Or.inr hsome)]
  simpa using hcut

/-! ## The cut of long sentences -/

/-- The loop of `split_long` from `out` and `rest` to its end: a round for as long as `rest`
is over the limit, then the last piece. -/
inductive SplitLong : List (List Char) → List Char → List (List Char) → Prop
  | last {out : List (List Char)} {rest : List Char} (fits : rest.length ≤ MAX_SENTENCE_CHARS) :
      SplitLong out rest (pushTrimmed out rest)
  | round {out result : List (List Char)} {rest : List Char}
      (long : MAX_SENTENCE_CHARS < rest.length)
      (next : SplitLong (pushTrimmed out (rest.take (longCut rest).1))
        (trimStart (rest.drop ((longCut rest).1 + (longCut rest).2))) result) :
      SplitLong out rest result

theorem longCut_spec (rest : List Char) :
    0 < (longCut rest).1 ∧ (longCut rest).1 ≤ MAX_SENTENCE_CHARS ∧
      visible ((rest.drop (longCut rest).1).take (longCut rest).2) = [] := by
  unfold longCut
  dsimp only
  split
  · rename_i _ _ index hcomma
    obtain ⟨c, hc, -⟩ := rposition_eq_some hcomma
    have hlt := (List.getElem?_eq_some_iff.mp hc).1
    rw [List.length_take] at hlt
    exact ⟨Nat.succ_pos index, by omega, by simp⟩
  · rename_i index _ hspace
    rw [Option.filter_eq_some_iff] at hspace
    obtain ⟨c, hc, hwhite⟩ := rposition_eq_some hspace.1
    have hlt := (List.getElem?_eq_some_iff.mp hc).1
    rw [List.length_take] at hlt
    refine ⟨of_decide_eq_true hspace.2, by dsimp only; omega, ?_⟩
    rw [List.getElem?_take_of_lt (by omega)] at hc
    apply visible_of_forall
    intro d hd
    rw [List.take_one, List.head?_drop, hc] at hd
    cases List.mem_singleton.mp hd
    exact hwhite
  · exact ⟨by decide, Nat.le_refl _, by simp⟩

theorem longCut_rest_length {rest : List Char} (h : MAX_SENTENCE_CHARS < rest.length) :
    (trimStart (rest.drop ((longCut rest).1 + (longCut rest).2))).length < rest.length := by
  have hpos := (longCut_spec rest).1
  have hle := List.length_dropWhile_le (p := isWhitespace)
    (rest.drop ((longCut rest).1 + (longCut rest).2))
  rw [List.length_drop] at hle
  unfold trimStart
  omega

theorem longCut_visible (rest : List Char) :
    visible (rest.take (longCut rest).1) ++
      visible (trimStart (rest.drop ((longCut rest).1 + (longCut rest).2))) = visible rest := by
  have hskip := (longCut_spec rest).2.2
  have hrest : visible (rest.drop (longCut rest).1) =
      visible (rest.drop ((longCut rest).1 + (longCut rest).2)) := by
    rw [← List.drop_drop]
    conv_lhs => rw [← List.take_append_drop (longCut rest).2 (rest.drop (longCut rest).1)]
    rw [visible_append, hskip, List.nil_append]
  rw [visible_trimStart, ← hrest, ← visible_append, List.take_append_drop]

theorem splitLongLoop_run {fuel : Nat} {rest : List Char} (h : rest.length ≤ fuel)
    (out : List (List Char)) : SplitLong out rest (splitLongLoop out fuel rest) := by
  induction fuel generalizing rest out with
  | zero =>
    have hfits : rest.length ≤ MAX_SENTENCE_CHARS := by omega
    exact SplitLong.last hfits
  | succ fuel ih =>
    simp only [splitLongLoop]
    split
    · rename_i hfits
      exact SplitLong.last hfits
    · rename_i hlong
      have hlong : MAX_SENTENCE_CHARS < rest.length := Nat.lt_of_not_le hlong
      apply SplitLong.round hlong
      apply ih
      have hshorter := longCut_rest_length hlong
      omega

theorem splitLong_run (out : List (List Char)) (sentence : List Char) :
    SplitLong out sentence (splitLong out sentence) :=
  splitLongLoop_run (Nat.le_refl _) out

theorem SplitLong.content {out result : List (List Char)} {rest : List Char}
    (h : SplitLong out rest result) : content result = content out ++ visible rest := by
  induction h with
  | last => exact content_pushTrimmed _ _
  | round long next ih => rw [ih, content_pushTrimmed, List.append_assoc, longCut_visible]

theorem content_foldl_splitLong (out sentences : List (List Char)) :
    content (sentences.foldl splitLong out) = content out ++ content sentences := by
  induction sentences generalizing out with
  | nil => simp
  | cons sentence sentences ih =>
    rw [List.foldl_cons, ih, (splitLong_run out sentence).content, content_cons, List.append_assoc]

/-! ## The pieces -/

/-- What the engine is handed: a trimmed text within the limit. -/
structure EnginePiece (piece : List Char) : Prop where
  trimmed : Trimmed piece
  fits : piece.length ≤ MAX_SENTENCE_CHARS

theorem length_trimChars_le (s : List Char) : (trimChars s).length ≤ s.length := by
  have hend := (trimEnd_isPrefix (trimStart s)).length_le
  have hstart := List.length_dropWhile_le (p := isWhitespace) s
  exact Nat.le_trans hend hstart

theorem mem_pushTrimmed {out : List (List Char)} {current piece : List Char} :
    piece ∈ pushTrimmed out current ↔
      piece ∈ out ∨ trimChars current ≠ [] ∧ piece = trimChars current := by
  unfold pushTrimmed
  dsimp only
  split
  · rename_i hempty
    simp [List.isEmpty_iff.mp hempty]
  · rename_i hne
    rw [List.isEmpty_iff] at hne
    simp [hne]

theorem pushTrimmed_pieces {out : List (List Char)} {current : List Char}
    (hout : ∀ piece ∈ out, EnginePiece piece) (hcurrent : current.length ≤ MAX_SENTENCE_CHARS) :
    ∀ piece ∈ pushTrimmed out current, EnginePiece piece := by
  intro piece hpiece
  cases mem_pushTrimmed.mp hpiece with
  | inl h => exact hout piece h
  | inr h =>
    obtain ⟨hne, rfl⟩ := h
    exact ⟨trimmed_trimChars hne, Nat.le_trans (length_trimChars_le current) hcurrent⟩

theorem SplitLong.pieces {out result : List (List Char)} {rest : List Char}
    (h : SplitLong out rest result) (hout : ∀ piece ∈ out, EnginePiece piece) :
    ∀ piece ∈ result, EnginePiece piece := by
  induction h with
  | last fits => exact pushTrimmed_pieces hout fits
  | @round out result rest long next ih =>
    apply ih
    apply pushTrimmed_pieces hout
    have hcut := (longCut_spec rest).2.1
    rw [List.length_take]
    omega

theorem foldl_splitLong_pieces {out sentences : List (List Char)}
    (hout : ∀ piece ∈ out, EnginePiece piece) :
    ∀ piece ∈ sentences.foldl splitLong out, EnginePiece piece := by
  induction sentences generalizing out with
  | nil => exact hout
  | cons sentence sentences ih => exact ih ((splitLong_run out sentence).pieces hout)

theorem splitSentences_pieces (U : CharTables) (text : List Char) :
    ∀ piece ∈ splitSentences U text, EnginePiece piece :=
  foldl_splitLong_pieces fun _ h => absurd h List.not_mem_nil

/-! ## The cut of the first piece -/

theorem splitForFirstAudio_cases (U : CharTables) (text : List Char) :
    splitForFirstAudio U text = splitSentences U text ∨
      ∃ first pieces cut, splitSentences U text = first :: pieces ∧
        FIRST_PIECE_MAX_WORDS < wordCount first ∧ commaCut first = some cut ∧
        MIN_SENTENCE_WORDS ≤ wordCount (trimChars (first.drop cut)) ∧
        splitForFirstAudio U text =
          trimEnd (first.take cut) :: trimChars (first.drop cut) :: pieces := by
  unfold splitForFirstAudio
  cases hsplit : splitSentences U text with
  | nil => exact Or.inl rfl
  | cons first pieces =>
    dsimp only
    split
    · exact Or.inl rfl
    · rename_i hwords
      cases hcut : commaCut first with
      | none => exact Or.inl rfl
      | some cut =>
        dsimp only
        split
        · exact Or.inl rfl
        · rename_i hrest
          exact Or.inr ⟨first, pieces, cut, rfl, Nat.lt_of_not_le hwords, hcut,
            Nat.le_of_not_lt hrest, rfl⟩

theorem commaCut_wordCount {first : List Char} {cut : Nat} (h : commaCut first = some cut) :
    MIN_SENTENCE_WORDS ≤ wordCount (first.take cut) := by
  unfold commaCut at h
  rw [Option.map_eq_some_iff] at h
  obtain ⟨word, hfind, rfl⟩ := h
  obtain ⟨i, hi⟩ := List.getElem?_of_mem (List.mem_of_find?_eq_some hfind)
  rw [List.getElem?_drop] at hi
  have hwords := (wordsFrom_take_length hi).2
  unfold wordCount splitWhitespace wordEnds
  rw [List.length_map]
  rw [Nat.sub_zero] at hwords
  omega

theorem content_splitForFirstAudio (U : CharTables) (text : List Char) :
    content (splitForFirstAudio U text) = content (splitSentences U text) := by
  cases splitForFirstAudio_cases U text with
  | inl hsame => rw [hsame]
  | inr hcut =>
    obtain ⟨first, pieces, cut, hsplit, -, -, -, hresult⟩ := hcut
    rw [hresult, hsplit]
    simp only [content_cons, visible_trimEnd, visible_trimChars]
    rw [← List.append_assoc, ← visible_append, List.take_append_drop]

theorem trimChars_ne_nil_of_wordCount {s : List Char} (h : 0 < wordCount (trimChars s)) :
    trimChars s ≠ [] := by
  intro hnil
  rw [hnil] at h
  cases h

theorem splitForFirstAudio_pieces (U : CharTables) (text : List Char) :
    ∀ piece ∈ splitForFirstAudio U text, EnginePiece piece := by
  have hpieces := splitSentences_pieces U text
  cases splitForFirstAudio_cases U text with
  | inl hsame =>
    rw [hsame]
    exact hpieces
  | inr hcut =>
    obtain ⟨first, pieces, cut, hsplit, -, hcut, hrest, hresult⟩ := hcut
    rw [hsplit] at hpieces
    rw [hresult]
    have hfirst := hpieces first List.mem_cons_self
    have hhead : 0 < wordCount (trimEnd (first.take cut)) := by
      rw [wordCount_trimEnd]
      exact Nat.lt_of_lt_of_le (by decide) (commaCut_wordCount hcut)
    have hstart : trimStart (first.take cut) = first.take cut := by
      apply trimStart_of_first
      intro c hc
      exact hfirst.trimmed.first c (head?_of_isPrefix (List.take_prefix cut first) hc)
    have htrim : trimChars (first.take cut) = trimEnd (first.take cut) := by rw [trimChars, hstart]
    intro piece hpiece
    cases hpiece with
    | head =>
      rw [← htrim] at hhead ⊢
      refine ⟨trimmed_trimChars (trimChars_ne_nil_of_wordCount hhead), ?_⟩
      have hle := length_trimChars_le (first.take cut)
      have hfits := hfirst.fits
      rw [List.length_take] at hle
      omega
    | tail _ hpiece =>
      cases hpiece with
      | head =>
        have hpos : 0 < wordCount (trimChars (first.drop cut)) :=
          Nat.lt_of_lt_of_le (by decide) hrest
        refine ⟨trimmed_trimChars (trimChars_ne_nil_of_wordCount hpos), ?_⟩
        have hle := length_trimChars_le (first.drop cut)
        have hfits := hfirst.fits
        rw [List.length_drop] at hle
        omega
      | tail _ hpiece => exact hpieces piece (List.mem_cons_of_mem first hpiece)

/-- Sentence splitting loses nothing: of a text with a letter or digit both splitters keep
the visible characters in order, their pieces are non-empty, trimmed and within the limit,
and the loop that cuts long sentences ends. -/
theorem splitting_loses_nothing (hU : ∀ c, U.isAlphanumeric c = true → isWhitespace c = false)
    (text : List Char) (htext : ∃ c ∈ text, U.isAlphanumeric c = true) :
    visible (splitSentences U text).flatten = visible text ∧
      visible (splitForFirstAudio U text).flatten = visible text ∧
      (∀ piece ∈ splitSentences U text ++ splitForFirstAudio U text,
        piece ≠ [] ∧ trimChars piece = piece ∧ piece.length ≤ MAX_SENTENCE_CHARS) ∧
      ∀ out sentence, SplitLong out sentence (splitLong out sentence) := by
  have hsentences : content (splitSentences U text) = visible text := by
    rw [splitSentences, content_foldl_splitLong]
    exact content_mergedSentences hU htext
  refine ⟨hsentences, ?_, ?_, splitLong_run⟩
  · exact (content_splitForFirstAudio U text).trans hsentences
  · intro piece hpiece
    have hengine : EnginePiece piece := by
      cases List.mem_append.mp hpiece with
      | inl h => exact splitSentences_pieces U text piece h
      | inr h => exact splitForFirstAudio_pieces U text piece h
    exact ⟨hengine.trimmed.ne_nil, hengine.trimmed.trimChars, hengine.fits⟩

theorem ascii_alphanumeric_visible (c : Char) (h : CharTables.ascii.isAlphanumeric c = true) :
    isWhitespace c = false := by
  change (decide (c.val ≥ 'A'.val ∧ c.val ≤ 'Z'.val) ||
    (decide (c.val ≥ 'a'.val) && decide (c.val ≤ 'z'.val)) ||
    (decide (c.val ≥ '0'.val) && decide (c.val ≤ '9'.val))) = true at h
  simp only [Bool.or_eq_true, Bool.and_eq_true, decide_eq_true_eq, UInt32.le_iff_toNat_le] at h
  have hnat : c.toNat = c.val.toNat := rfl
  have hA : (65 : UInt32).toNat = 65 := rfl
  simp only [isWhitespace, hnat]
  simp at h ⊢
  omega

/-- Two sentences, the second one only symbols. -/
theorem splitting_loses_nothing_okay :
    visible (splitSentences .ascii "Okay. ...".toList).flatten = visible "Okay. ...".toList ∧
      visible (splitForFirstAudio .ascii "Okay. ...".toList).flatten =
        visible "Okay. ...".toList ∧
      (∀ piece ∈ splitSentences .ascii "Okay. ...".toList ++
          splitForFirstAudio .ascii "Okay. ...".toList,
        piece ≠ [] ∧ trimChars piece = piece ∧ piece.length ≤ MAX_SENTENCE_CHARS) ∧
      ∀ out sentence, SplitLong out sentence (splitLong out sentence) :=
  splitting_loses_nothing ascii_alphanumeric_visible "Okay. ...".toList
    ⟨'O', by decide, by decide⟩

end NodeWebrtc.Sherpa
