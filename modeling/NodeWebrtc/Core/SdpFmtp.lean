import Mathlib.Data.List.DropRight
import Mathlib.Data.List.SplitBy
import NodeWebrtc.Lib.Lines

/-! # Opus parameters in a session description

`enrichOpusSdpFmtp` collects the payload types that any line of the text maps to Opus, but what a
payload type means is said in the media section around it.
-/

namespace NodeWebrtc.Core

open Text

/-- `str::strip_prefix`. -/
def stripPrefix (p s : List Char) : Option (List Char) :=
  if p <+: s then some (s.drop p.length) else none

def FMTP : List Char := ['a', '=', 'f', 'm', 't', 'p', ':']

def RTPMAP : List Char := ['a', '=', 'r', 't', 'p', 'm', 'a', 'p', ':']

/-- The advertised parameters; `bps` is the bitrate that the environment sets. -/
def opusSdpFmtpLine (bps : Option Nat) : List Char :=
  "minptime=10;useinbandfec=1;stereo=1;sprop-stereo=1".toList ++
    match bps with
    | none => []
    | some bps => ";maxaveragebitrate=".toList ++ Nat.toDigits 10 bps

/-- The payload type that an `a=rtpmap:` line maps to Opus. -/
def opusPt (line : List Char) : Option (List Char) :=
  (stripPrefix RTPMAP line).bind fun rest =>
    match splitWhitespace rest with
    | pt :: codec :: _ => if "opus/".toList <+: codec.map Char.toLower then some pt else none
    | _ => none

/-- The payload type of an `a=fmtp:` line with parameters. -/
def fmtpPt (line : List Char) : Option (List Char) :=
  (stripPrefix FMTP line).bind fun rest =>
    if rest.any isWhitespace then some (rest.takeWhile fun c => !isWhitespace c) else none

def fmtpLine (bps : Option Nat) (pt : List Char) : List Char :=
  FMTP ++ pt ++ ' ' :: opusSdpFmtpLine bps

def enrichLine (bps : Option Nat) (opusPts : List (List Char)) (line : List Char) : List Char :=
  match fmtpPt line with
  | some pt => if opusPts.contains pt then fmtpLine bps pt else line
  | none => line

def trimCr (line : List Char) : List Char := line.rdropWhile (· == '\r')

/-- The payload types that some line of the text maps to Opus. -/
def opusPts (sdp : List Char) : List (List Char) :=
  (lines sdp).filterMap fun line => opusPt (line.rdropWhile fun c => c == '\r' || c == '\n')

def lineEnd (sdp : List Char) : List Char :=
  if (find ['\r', '\n'] sdp).isSome then ['\r', '\n'] else ['\n']

def enrichOpusSdpFmtp (bps : Option Nat) (sdp : List Char) : List Char :=
  if (opusPts sdp).isEmpty then sdp
  else
    let out := (lines sdp).map fun line => enrichLine bps (opusPts sdp) (trimCr line)
    let joined := (lineEnd sdp).intercalate out
    if sdp.getLast? = some '\n' then joined ++ lineEnd sdp else joined

/-! ## What the rewriting is to keep -/

/-- What stands between the line ends. -/
def contents (sdp : List Char) : List (List Char) := (sdp.splitOn '\n').map trimCr

/-- The lines up to the first `m=` line, and the lines of each `m=` line. -/
def sections (ls : List (List Char)) : List (List (List Char)) :=
  ls.splitBy fun _ line => !"m=".toList.isPrefixOf line

/-- The text with the Opus lines of each section rewritten and one kind of line end. -/
def sectionwise (bps : Option Nat) (sdp : List Char) : List Char :=
  if ((contents sdp).filterMap opusPt).isEmpty then sdp
  else (lineEnd sdp).intercalate ((sections (contents sdp)).flatMap fun lines =>
    lines.map (enrichLine bps (lines.filterMap opusPt)))

structure TouchesOnlyOpus (bps : Option Nat) (sdp : List Char) : Prop where
  sections : enrichOpusSdpFmtp bps sdp = sectionwise bps sdp
  again : enrichOpusSdpFmtp bps (enrichOpusSdpFmtp bps sdp) = enrichOpusSdpFmtp bps sdp

/-- A payload type with parameters that is Opus anywhere is Opus in that section, unless they are the
advertised ones already. -/
def OpusBySection (bps : Option Nat) (sdp : List Char) : Prop :=
  ∀ lines ∈ sections (contents sdp), ∀ line ∈ lines, ∀ pt, fmtpPt line = some pt →
    pt ∈ (contents sdp).filterMap opusPt → pt ∈ lines.filterMap opusPt ∨ line = fmtpLine bps pt

/-! ## One line -/

theorem stripPrefix_append (p s : List Char) : stripPrefix p (p ++ s) = some s := by
  rw [stripPrefix, if_pos (List.prefix_append p s), List.drop_left]

theorem fmtpPt_fmtpLine {bps : Option Nat} {pt : List Char}
    (h : ∀ c ∈ pt, isWhitespace c = false) : fmtpPt (fmtpLine bps pt) = some pt := by
  have hspace : (pt ++ ' ' :: opusSdpFmtpLine bps).any isWhitespace = true :=
    List.any_eq_true.mpr ⟨' ', by simp, by decide⟩
  rw [fmtpPt, fmtpLine, List.append_assoc, stripPrefix_append, Option.bind_some, if_pos hspace,
    List.takeWhile_append_of_pos (by simpa using h), List.takeWhile_cons_of_neg (by decide),
    List.append_nil]

theorem fmtpPt_eq {line pt : List Char} (h : fmtpPt line = some pt) :
    FMTP <+: line ∧ (∀ c ∈ pt, isWhitespace c = false) ∧ ∀ c ∈ pt, c ∈ line := by
  obtain ⟨rest, hrest, hpt⟩ := Option.bind_eq_some_iff.mp h
  obtain ⟨hhead, hrest⟩ := Option.ite_none_right_eq_some.mp hrest
  obtain ⟨-, hpt⟩ := Option.ite_none_right_eq_some.mp hpt
  cases hpt
  cases hrest
  refine ⟨hhead, fun c hc => by simpa using List.mem_takeWhile_imp hc, fun c hc => ?_⟩
  exact List.mem_of_mem_drop (List.takeWhile_sublist _ |>.subset hc)

theorem opusPt_of_fmtp {line : List Char} (h : FMTP <+: line) : opusPt line = none := by
  obtain ⟨rest, rfl⟩ := h
  rw [opusPt, stripPrefix, if_neg (by simp [FMTP, RTPMAP]), Option.bind_none]

variable (bps : Option Nat)

theorem fmtpLine_head (pt : List Char) : FMTP <+: fmtpLine bps pt := by
  rw [fmtpLine, List.append_assoc]
  exact List.prefix_append _ _

@[simp] theorem opusPt_enrichLine (pts : List (List Char)) (line : List Char) :
    opusPt (enrichLine bps pts line) = opusPt line := by
  rw [enrichLine]
  cases hpt : fmtpPt line with
  | none => rfl
  | some pt =>
    dsimp only
    split
    · rw [opusPt_of_fmtp (fmtpPt_eq hpt).1, opusPt_of_fmtp (fmtpLine_head bps pt)]
    · rfl

theorem enrichLine_enrichLine (pts : List (List Char)) (line : List Char) :
    enrichLine bps pts (enrichLine bps pts line) = enrichLine bps pts line := by
  cases hpt : fmtpPt line with
  | none => simp [enrichLine, hpt]
  | some pt =>
    by_cases hmem : pt ∈ pts
    · simp [enrichLine, hpt, hmem, fmtpPt_fmtpLine (fmtpPt_eq hpt).2.1]
    · simp [enrichLine, hpt, hmem]

/-- Fewer payload types rewrite the same line exactly when none that is left out is at stake. -/
theorem enrichLine_eq_iff {bps : Option Nat} {pts some' : List (List Char)} {line : List Char}
    (h : some' ⊆ pts) : enrichLine bps pts line = enrichLine bps some' line ↔
      ∀ pt, fmtpPt line = some pt → pt ∈ pts → pt ∈ some' ∨ line = fmtpLine bps pt := by
  cases hpt : fmtpPt line with
  | none => simp [enrichLine, hpt]
  | some pt =>
    by_cases hmem : pt ∈ pts <;> by_cases hsome : pt ∈ some'
    all_goals simp [enrichLine, hpt, hmem, hsome, eq_comm]
    exact absurd (h hsome) hmem

/-! ## The text as its lines -/

/-- A line without its end. -/
def Clean (line : List Char) : Prop := '\n' ∉ line ∧ line.getLast? ≠ some '\r'

theorem trimCr_of_clean {line : List Char} (h : Clean line) : trimCr line = line := by
  refine List.rdropWhile_eq_self_iff.mpr fun hne hlast => h.2 ?_
  rw [List.getLast?_eq_some_getLast hne, beq_iff_eq.mp hlast]

theorem not_feed_of_mem_splitOn {s : List Char} : ∀ piece ∈ s.splitOn '\n', '\n' ∉ piece := by
  induction s with
  | nil => simp
  | cons c s ih =>
    rw [List.splitOn_cons_eq_if_modifyHead]
    cases hsplit : s.splitOn '\n' with
    | nil => exact absurd hsplit (List.splitOn_ne_nil _ _)
    | cons piece more =>
      rw [hsplit] at ih
      split
      · simpa using ih
      · next hc => simpa [Ne.symm (by simpa using hc)] using ih

theorem clean_of_mem_contents {sdp line : List Char} (h : line ∈ contents sdp) : Clean line := by
  obtain ⟨piece, hpiece, rfl⟩ := List.mem_map.mp h
  refine ⟨fun hmem => ?_, fun hlast => ?_⟩
  · exact not_feed_of_mem_splitOn piece hpiece ((List.rdropWhile_prefix _ _).subset hmem)
  · obtain ⟨init, hinit⟩ := List.getLast?_eq_some_iff.mp hlast
    rw [trimCr] at hinit
    have hkept := List.rdropWhile_last_not (· == '\r') piece (by simp [hinit])
    simp [hinit] at hkept

theorem splitInclusive_feed {k : List Char} (hk : '\n' ∉ k) (s : List Char) :
    splitInclusive (k ++ '\n' :: s) = (k ++ ['\n']) :: splitInclusive s := by
  induction k with
  | nil => rfl
  | cons c k ih =>
    rw [List.mem_cons, not_or] at hk
    rw [List.cons_append, splitInclusive, if_neg (Ne.symm hk.1), ih hk.2]
    rfl

theorem splitInclusive_last {k : List Char} (hk : '\n' ∉ k) :
    splitInclusive k = if k = [] then [] else [k] := by
  induction k with
  | nil => rfl
  | cons c k ih =>
    rw [List.mem_cons, not_or] at hk
    rw [splitInclusive, if_neg (Ne.symm hk.1), ih hk.2]
    cases k <;> rfl

theorem chomp_feed {trim : List Char → List Char} (h : ∀ k, '\n' ∉ k → trim k = trimCr k)
    {k : List Char} (hk : '\n' ∉ k) : trim (chomp (k ++ ['\n'])) = trimCr k := by
  rcases List.eq_nil_or_concat' k with rfl | ⟨k, c, rfl⟩
  · exact h [] hk
  · by_cases hc : c = '\r'
    · rw [show chomp (k ++ [c] ++ ['\n']) = k by simp [chomp, hc], trimCr,
        List.rdropWhile_concat_pos _ _ _ (by simp [hc])]
      exact h k fun hmem => hk (List.mem_append_left _ hmem)
    · rw [show chomp (k ++ [c] ++ ['\n']) = k ++ [c] by simp [chomp, hc]]
      exact h _ hk

/-- The lines that the code reads, whichever way it trims them, are those between the line ends but
for an empty last one. -/
theorem map_lines {trim : List Char → List Char} (h : ∀ k, '\n' ∉ k → trim k = trimCr k)
    (sdp : List Char) :
    (lines sdp).map trim ++ (if sdp = [] ∨ sdp.getLast? = some '\n' then [[]] else []) =
      contents sdp := by
  have hsdp : ['\n'].intercalate (sdp.splitOn '\n') = sdp := List.intercalate_splitOn '\n'
  have hfree := not_feed_of_mem_splitOn (s := sdp)
  have hne := List.splitOn_ne_nil '\n' sdp
  rw [contents]
  generalize sdp.splitOn '\n' = pieces at hsdp hfree hne ⊢
  induction pieces generalizing sdp with
  | nil => exact absurd rfl hne
  | cons k pieces ih =>
    rw [List.forall_mem_cons] at hfree
    by_cases hp : pieces = []
    · rw [hp, List.intercalate_singleton] at hsdp
      rw [← hsdp, hp, lines, splitInclusive_last hfree.1]
      rcases List.eq_nil_or_concat' k with rfl | ⟨k, c, rfl⟩
      · rfl
      · have hc : c ≠ '\n' := fun hc => hfree.1 (by simp [hc])
        have hchomp : chomp (k ++ [c]) = k ++ [c] := by simp [chomp, hc]
        simp [hc, hchomp, h _ hfree.1]
    · rw [List.intercalate_cons_of_ne_nil hp, List.append_assoc, List.singleton_append] at hsdp
      have hrest := ih _ rfl hfree.2 hp
      rw [List.map_cons, ← hrest, ← hsdp, lines, splitInclusive_feed hfree.1, List.map_cons,
        List.map_cons, chomp_feed h hfree.1, ← lines, List.cons_append]
      generalize ['\n'].intercalate pieces = s
      cases s <;> simp

theorem contents_intercalate {nl : List Char} (hnl : nl = ['\r', '\n'] ∨ nl = ['\n'])
    {ls : List (List Char)} (hne : ls ≠ []) (h : ∀ line ∈ ls, Clean line) :
    contents (nl.intercalate ls) = ls := by
  induction ls with
  | nil => exact absurd rfl hne
  | cons line ls ih =>
    have hline := h line List.mem_cons_self
    by_cases hls : ls = []
    · rw [hls, List.intercalate_singleton, contents, List.splitOn_eq_singleton hline.1]
      exact congrArg (· :: []) (trimCr_of_clean hline)
    · have hrest := ih hls fun l hl => h l (List.mem_cons_of_mem line hl)
      rw [List.intercalate_cons_of_ne_nil hls, contents]
      rcases hnl with rfl | rfl
      · have hcr : '\n' ∉ line ++ ['\r'] := by simp [hline.1]
        rw [show line ++ ['\r', '\n'] = line ++ ['\r'] ++ ['\n'] by simp, List.append_assoc,
          List.singleton_append, List.splitOn_append_cons_self_of_not_mem hcr, List.map_cons,
          ← contents, hrest, trimCr, List.rdropWhile_concat_pos _ _ _ rfl, ← trimCr,
          trimCr_of_clean hline]
      · rw [List.append_assoc, List.singleton_append,
          List.splitOn_append_cons_self_of_not_mem hline.1, List.map_cons, ← contents, hrest,
          trimCr_of_clean hline]

variable (sdp : List Char)

theorem opusPts_eq : opusPts sdp = (contents sdp).filterMap opusPt := by
  have htrim (k : List Char) (hk : '\n' ∉ k) :
      (k.rdropWhile fun c => c == '\r' || c == '\n') = trimCr k := by
    induction k using List.reverseRecOn with
    | nil => rfl
    | append_singleton k c ih =>
      rw [List.mem_append, not_or] at hk
      rw [trimCr, List.rdropWhile_concat, List.rdropWhile_concat, ih hk.1, ← trimCr]
      have hc : c ≠ '\n' := fun hc => hk.2 (by simp [hc])
      simp [hc]
  rw [← map_lines htrim, List.filterMap_append, opusPts, List.filterMap_map]
  split <;> simp [show opusPt [] = none from rfl]

theorem intercalate_concat_nil (nl : List Char) {ls : List (List Char)} (h : ls ≠ []) :
    nl.intercalate (ls ++ [[]]) = nl.intercalate ls ++ nl := by
  induction ls with
  | nil => exact absurd rfl h
  | cons l ls ih =>
    by_cases hls : ls = []
    · simp [hls, List.intercalate_cons_cons]
    · rw [List.cons_append, List.intercalate_cons_of_ne_nil (by simp), ih hls,
        List.intercalate_cons_of_ne_nil hls, List.append_assoc (_ ++ nl)]

/-- The code in terms of the text's lines. -/
theorem enrichOpusSdpFmtp_eq :
    enrichOpusSdpFmtp bps sdp =
      if ((contents sdp).filterMap opusPt).isEmpty then sdp
      else (lineEnd sdp).intercalate
        ((contents sdp).map (enrichLine bps ((contents sdp).filterMap opusPt))) := by
  rw [← opusPts_eq, enrichOpusSdpFmtp]
  refine ite_congr rfl (fun _ => rfl) fun hpts => ?_
  have hlines : lines sdp ≠ [] := fun hnone => hpts (by simp [opusPts, hnone])
  have hsdp : sdp ≠ [] := by
    rintro rfl
    exact hlines rfl
  rw [← map_lines (fun _ _ => rfl) sdp, List.map_append, List.map_map]
  by_cases hclosed : sdp.getLast? = some '\n'
  · rw [if_pos hclosed, if_pos (.inr hclosed)]
    exact (intercalate_concat_nil _ (by simpa using hlines)).symm
  · rw [if_neg hclosed, if_neg (by simp [hsdp, hclosed]), List.map_nil, List.append_nil]
    rfl

/-! ## Writing and reading again -/

theorem lineEnd_cases : lineEnd sdp = ['\r', '\n'] ∨ lineEnd sdp = ['\n'] := by
  rw [lineEnd]
  split
  · exact .inl rfl
  · exact .inr rfl

theorem opusSdpFmtpLine_clean : ∀ c ∈ opusSdpFmtpLine bps, c ≠ '\n' ∧ c ≠ '\r' := by
  refine List.forall_mem_append.mpr ⟨by simp, ?_⟩
  cases bps with
  | none => nofun
  | some bps =>
    refine List.forall_mem_append.mpr ⟨by simp, fun c hc => ?_⟩
    have hdigit : c.isDigit = true := Nat.isDigit_of_mem_toDigits (by decide) (by decide) hc
    exact ⟨(by rintro rfl; cases hdigit), (by rintro rfl; cases hdigit)⟩

theorem enrichLine_clean {bps : Option Nat} {pts : List (List Char)} {line : List Char}
    (h : Clean line) : Clean (enrichLine bps pts line) := by
  cases hpt : fmtpPt line with
  | none => rwa [enrichLine, hpt]
  | some pt =>
    rw [enrichLine, hpt]
    dsimp only
    split
    · have hparams := opusSdpFmtpLine_clean bps
      refine ⟨?_, ?_⟩
      · rw [fmtpLine, List.mem_append, List.mem_append, List.mem_cons]
        rintro ((hmem | hmem) | hmem | hmem)
        · exact absurd hmem (by decide)
        · exact h.1 ((fmtpPt_eq hpt).2.2 _ hmem)
        · cases hmem
        · exact (hparams _ hmem).1 rfl
      · rw [fmtpLine, List.getLast?_append, List.getLast?_cons, Option.some_or]
        cases hlast : (opusSdpFmtpLine bps).getLast? with
        | none => decide
        | some c => exact fun hc => (hparams c (List.mem_of_getLast? hlast)).2 (Option.some.inj hc)
    · exact h

theorem exists_cr_mem_splitOn (s : List Char) :
    ∃ piece ∈ (s ++ ['\r']).splitOn '\n', piece.getLast? = some '\r' := by
  induction s with
  | nil => exact ⟨_, List.mem_singleton_self _, rfl⟩
  | cons c s ih =>
    obtain ⟨piece, hpiece, hlast⟩ := ih
    rw [List.cons_append, List.splitOn_cons_eq_if_modifyHead]
    split
    · exact ⟨piece, List.mem_cons_of_mem _ hpiece, hlast⟩
    · cases hsplit : (s ++ ['\r']).splitOn '\n' with
      | nil => exact absurd hsplit (List.splitOn_ne_nil _ _)
      | cons head more =>
        rw [hsplit, List.mem_cons] at hpiece
        rcases hpiece with rfl | hmore
        · exact ⟨c :: piece, List.mem_cons_self, by simp [List.getLast?_cons, hlast]⟩
        · exact ⟨piece, List.mem_cons_of_mem _ hmore, hlast⟩

theorem lineEnd_intercalate {nl : List Char} (hnl : nl = ['\r', '\n'] ∨ nl = ['\n'])
    {ls : List (List Char)} (h : ∀ line ∈ ls, Clean line) (hlen : 2 ≤ ls.length) :
    lineEnd (nl.intercalate ls) = nl := by
  rw [lineEnd]
  rcases hnl with rfl | rfl
  · obtain ⟨a, b, more, rfl⟩ : ∃ a b more, ls = a :: b :: more := by
      match ls, hlen with
      | a :: b :: more, _ => exact ⟨a, b, more, rfl⟩
    rw [List.intercalate_cons_cons, if_pos]
    refine Option.isSome_iff_ne_none.mpr fun hnone => find_eq_none hnone ?_
    exact ⟨a, _, rfl⟩
  · cases hfind : find ['\r', '\n'] (['\n'].intercalate ls) with
    | none => rfl
    | some pos =>
      obtain ⟨before, after, hs, -⟩ := find_eq_some hfind
      obtain ⟨piece, hpiece, hlast⟩ := exists_cr_mem_splitOn before
      have hne : ls ≠ [] := List.ne_nil_of_length_pos (by omega)
      have hsplit := List.splitOn_intercalate '\n' (fun l hl => (h l hl).1) hne
      rw [hs, show before ++ (['\r', '\n'] ++ after) = before ++ ['\r'] ++ '\n' :: after by simp,
        List.splitOn_append_cons_self] at hsplit
      exact absurd hlast (h piece (hsplit ▸ List.mem_append_left _ hpiece)).2

theorem enrichOpusSdpFmtp_again :
    enrichOpusSdpFmtp bps (enrichOpusSdpFmtp bps sdp) = enrichOpusSdpFmtp bps sdp := by
  have hsame := enrichOpusSdpFmtp_eq bps sdp
  have hnl := lineEnd_cases sdp
  split at hsame
  · rw [hsame, hsame]
  · next hpts =>
    have hne : contents sdp ≠ [] := fun hnil => hpts (by simp [hnil])
    generalize hls : (contents sdp).map (enrichLine bps ((contents sdp).filterMap opusPt)) = ls
      at hsame
    have hclean : ∀ line ∈ ls, Clean line := by
      intro line hl
      rw [← hls] at hl
      obtain ⟨line, hmem, rfl⟩ := List.mem_map.mp hl
      exact enrichLine_clean (clean_of_mem_contents hmem)
    have hls0 : ls ≠ [] := by
      rw [← hls]
      simpa using hne
    have hcontents := contents_intercalate hnl hls0 hclean
    have hpt : ls.filterMap opusPt = (contents sdp).filterMap opusPt := by
      rw [← hls, List.filterMap_map]
      exact List.filterMap_congr fun line _ => opusPt_enrichLine ..
    have hmap : ls.map (enrichLine bps ((contents sdp).filterMap opusPt)) = ls := by
      rw [← hls, List.map_map]
      exact List.map_congr_left fun line _ => enrichLine_enrichLine ..
    rw [hsame, enrichOpusSdpFmtp_eq, hcontents, hpt, if_neg hpts, hmap]
    by_cases hlen : 2 ≤ ls.length
    · rw [lineEnd_intercalate hnl hclean hlen]
    · have hpos := List.length_pos_iff.mpr hls0
      obtain ⟨line, rfl⟩ := List.length_eq_one_iff.mp (show ls.length = 1 by omega)
      rw [List.intercalate_singleton, List.intercalate_singleton]

theorem flatMap_inj {α β : Type} {f g : α → List β} {xs : List α}
    (h : ∀ x ∈ xs, (f x).length = (g x).length) :
    xs.flatMap f = xs.flatMap g ↔ ∀ x ∈ xs, f x = g x := by
  induction xs with
  | nil => simp
  | cons x xs ih =>
    rw [List.forall_mem_cons] at h
    rw [List.flatMap_cons, List.flatMap_cons, List.forall_mem_cons, ← ih h.2]
    exact ⟨fun heq => List.append_inj heq h.1, fun heq => by rw [heq.1, heq.2]⟩

theorem flatten_sections (ls : List (List Char)) : (sections ls).flatten = ls :=
  List.flatten_splitBy _ _

theorem mem_of_section {ls lines : List (List Char)} (h : lines ∈ sections ls) {line : List Char}
    (hline : line ∈ lines) : line ∈ ls := by
  rw [← flatten_sections ls]
  exact List.mem_flatten_of_mem h hline

theorem map_sections_iff :
    (contents sdp).map (enrichLine bps ((contents sdp).filterMap opusPt)) =
      (sections (contents sdp)).flatMap (fun lines =>
        lines.map (enrichLine bps (lines.filterMap opusPt))) ↔ OpusBySection bps sdp := by
  have hwhole (f : List Char → List Char) : (contents sdp).map f =
      (sections (contents sdp)).flatMap (·.map f) := by
    rw [List.flatMap_def, ← List.map_flatten, flatten_sections]
  rw [OpusBySection, hwhole, flatMap_inj fun _ _ => by rw [List.length_map, List.length_map]]
  refine forall₂_congr fun lines hlines => ?_
  rw [List.map_inj_left]
  refine forall₂_congr fun line _ => enrichLine_eq_iff fun pt hpt => ?_
  obtain ⟨mapping, hmapping, hpt⟩ := List.mem_filterMap.mp hpt
  exact List.mem_filterMap.mpr ⟨mapping, mem_of_section hlines hmapping, hpt⟩

/-- Only Opus lines are rewritten exactly when no section has parameters under a number that only
another section maps to Opus. -/
theorem enrichOpusSdpFmtp_touches_iff (bps : Option Nat) (sdp : List Char) :
    TouchesOnlyOpus bps sdp ↔ OpusBySection bps sdp := by
  constructor
  · intro h lines hlines line hline pt hpt hmem
    have heq := congrArg contents h.sections
    have hpts : ¬((contents sdp).filterMap opusPt).isEmpty = true := by
      rw [List.isEmpty_iff]
      exact List.ne_nil_of_mem hmem
    have hcontents : contents sdp ≠ [] := fun hnil => hpts (by rw [hnil]; rfl)
    rw [enrichOpusSdpFmtp_eq, sectionwise, if_neg hpts, if_neg hpts,
      contents_intercalate (lineEnd_cases sdp), contents_intercalate (lineEnd_cases sdp)] at heq
    · exact (map_sections_iff bps sdp).mp heq lines hlines line hline pt hpt hmem
    · intro hnil
      refine hcontents (List.eq_nil_iff_forall_not_mem.mpr fun line hline => ?_)
      rw [← flatten_sections (contents sdp)] at hline
      obtain ⟨lines, hlines, hline⟩ := List.mem_flatten.mp hline
      simpa [List.ne_nil_of_mem hline] using List.flatMap_eq_nil_iff.mp hnil lines hlines
    · intro line hl
      obtain ⟨lines, hlines, hl⟩ := List.mem_flatMap.mp hl
      obtain ⟨line, hline, rfl⟩ := List.mem_map.mp hl
      exact enrichLine_clean (clean_of_mem_contents (mem_of_section hlines hline))
    · simpa using hcontents
    · intro line hl
      obtain ⟨line, hline, rfl⟩ := List.mem_map.mp hl
      exact enrichLine_clean (clean_of_mem_contents hline)
  · intro h
    refine ⟨?_, enrichOpusSdpFmtp_again bps sdp⟩
    rw [enrichOpusSdpFmtp_eq, sectionwise, (map_sections_iff bps sdp).mpr h]

/-- A number that is Opus in one section and VP8 in the next. -/
theorem enrichOpusSdpFmtp_rewrites_video :
    ¬ TouchesOnlyOpus none
      "m=audio\na=rtpmap:96 opus/48000\nm=video\na=rtpmap:96 VP8/90000\na=fmtp:96 a=1\n".toList :=
  fun h => absurd h.sections (by decide +kernel)

end NodeWebrtc.Core
