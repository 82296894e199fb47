import NodeWebrtc.Lib.Trim
import NodeWebrtc.Speech.SttActor

/-! # Realtime deltas

The realtime socket names an item in each event. The assembler holds the deltas of one item; a
delta of another item starts over. What it returns is compared with all deltas of the item.
-/

namespace NodeWebrtc.OpenAi

open SttActor (SttTranscript)
open Text

/-- A parsed event of the socket, with the fields that it carries as strings. -/
inductive RealtimeEvent where
  | delta (itemId : Option String) (delta : Option (List Char))
  | completed (itemId : Option String) (transcript : Option (List Char))
  | other
deriving DecidableEq

structure TranscriptAssembler where
  itemId : String
  text : List Char
deriving DecidableEq

namespace TranscriptAssembler

def new : TranscriptAssembler := ⟨"", []⟩

def push (a : TranscriptAssembler) : RealtimeEvent → TranscriptAssembler × Option SttTranscript
  | .delta itemId delta =>
    let itemId := itemId.getD ""
    let a := if itemId ≠ a.itemId then ⟨itemId, []⟩ else a
    let a := match delta with
      | some delta => { a with text := a.text ++ delta }
      | none => a
    let text := trimChars a.text
    (a, if text.isEmpty then none else some (.partialText (String.ofList text)))
  | .completed _ transcript =>
    -- the item of the event is not looked at
    let transcript := trimChars (transcript.getD a.text)
    (⟨"", []⟩, if transcript.isEmpty then none else some (.finalText (String.ofList transcript)))
  | .other => (a, none)

def after (past : List RealtimeEvent) : TranscriptAssembler :=
  past.foldl (fun a event => (a.push event).1) new

/-! ## What an item has said -/

def added (item : String) : RealtimeEvent → List Char
  | .delta itemId delta => if itemId.getD "" = item then delta.getD [] else []
  | _ => []

def deltas (item : String) (events : List RealtimeEvent) : List Char := events.flatMap (added item)

/-- What may be returned for an event: the trimmed text of its item, or the transcript it carries. -/
def expected (past : List RealtimeEvent) : RealtimeEvent → Option SttTranscript
  | .delta itemId delta =>
    let text := deltas (itemId.getD "") past ++ delta.getD []
    some (.partialText (String.ofList (trimChars text)))
  | .completed itemId transcript =>
    let text := transcript.getD (deltas (itemId.getD "") past)
    some (.finalText (String.ofList (trimChars text)))
  | .other => none

/-- What the assembler returns for an event is right. -/
def Right (past : List RealtimeEvent) (event : RealtimeEvent) : Prop :=
  ∀ t ∈ ((after past).push event).2, expected past event = some t

/-! ## What is held of it -/

/-- Neither a completion nor a delta of another item. -/
def continues (item : String) : RealtimeEvent → Bool
  | .delta itemId _ => itemId.getD "" == item
  | .completed _ _ => false
  | .other => true

/-- The deltas of an item since the last completion or delta of another item. -/
def kept (item : String) (past : List RealtimeEvent) : List Char :=
  deltas item (past.rtakeWhile (continues item))

def lost (item : String) (past : List RealtimeEvent) : List Char :=
  deltas item (past.rdropWhile (continues item))

variable (item : String)

theorem deltas_append (first second : List RealtimeEvent) :
    deltas item (first ++ second) = deltas item first ++ deltas item second :=
  List.flatMap_append

theorem deltas_singleton (event : RealtimeEvent) :
    deltas item [event] = added item event := List.append_nil _

theorem deltas_eq (past : List RealtimeEvent) :
    deltas item past = lost item past ++ kept item past := by
  rw [lost, kept, ← deltas_append, List.rdropWhile_append_rtakeWhile]

variable (past : List RealtimeEvent)

theorem kept_append {item : String} {event : RealtimeEvent} (h : continues item event = true) :
    kept item (past ++ [event]) = kept item past ++ added item event := by
  rw [kept, List.rtakeWhile_concat_pos _ _ _ h, deltas_append, deltas_singleton, kept]

theorem kept_append_of_not {item : String} {event : RealtimeEvent}
    (h : continues item event = false) : kept item (past ++ [event]) = [] := by
  rw [kept, List.rtakeWhile_concat_neg _ _ _ (by simp [h])]
  rfl

theorem after_append (event : RealtimeEvent) :
    after (past ++ [event]) = ((after past).push event).1 := by
  rw [after, List.foldl_append]
  rfl

theorem push_delta (a : TranscriptAssembler) (itemId : Option String) (delta : Option (List Char)) :
    (a.push (.delta itemId delta)).1 =
      ⟨itemId.getD "", (if itemId.getD "" = a.itemId then a.text else []) ++ delta.getD []⟩ := by
  by_cases hitem : itemId.getD "" = a.itemId <;> cases delta <;> simp [push, hitem]

theorem kept_eq :
    kept item past = if item = (after past).itemId then (after past).text else [] := by
  induction past using List.reverseRecOn generalizing item with
  | nil => exact (ite_self _).symm
  | append_singleton past event ih =>
    rw [after_append]
    cases event with
    | delta itemId delta =>
      rw [push_delta]
      by_cases hitem : itemId.getD "" = item
      · have hgoes : continues item (.delta itemId delta) = true := beq_iff_eq.mpr hitem
        rw [kept_append past hgoes, ih, ← hitem, if_pos rfl, added, if_pos rfl]
      · have hstops : continues item (.delta itemId delta) = false := beq_false_of_ne hitem
        rw [kept_append_of_not past hstops, if_neg (Ne.symm hitem)]
    | completed itemId transcript =>
      rw [kept_append_of_not past rfl]
      simp [push]
    | other =>
      rw [kept_append past rfl, ih]
      exact List.append_nil _

/-! ## What is returned -/

/-- The deltas of an item that were given up are white space, or nothing can be returned for its
next one; and a completion without a transcript finds no other text than that of its item. -/
def Fits (past : List RealtimeEvent) : RealtimeEvent → Prop
  | .delta itemId delta =>
    visible (lost (itemId.getD "") past) = [] ∨
      visible (kept (itemId.getD "") past ++ delta.getD []) = []
  | .completed itemId none =>
    ∀ item, visible (kept item past) = [] ∨
      (item = itemId.getD "" ∧ visible (lost item past) = []) ∨
      (item ≠ itemId.getD "" ∧
        trimChars (kept item past) = trimChars (deltas (itemId.getD "") past))
  | .completed _ (some _) => True
  | .other => True

theorem ofList_eq_iff {s t : List Char} : String.ofList s = String.ofList t ↔ s = t :=
  ⟨fun h => String.ofList_injective h, fun h => congrArg _ h⟩

theorem trim_kept_iff (past : List RealtimeEvent) (more : List Char) :
    trimChars (deltas item past ++ more) = trimChars (kept item past ++ more) ↔
      visible (lost item past) = [] := by
  rw [deltas_eq, List.append_assoc]
  exact trimChars_append_eq_iff _ _

theorem right_delta_iff (itemId : Option String) (delta : Option (List Char)) :
    Right past (.delta itemId delta) ↔ Fits past (.delta itemId delta) := by
  have htext : ((after past).push (.delta itemId delta)).1.text =
      kept (itemId.getD "") past ++ delta.getD [] := by
    rw [push_delta, kept_eq]
  have hreturn : ((after past).push (.delta itemId delta)).2 =
      if (trimChars (kept (itemId.getD "") past ++ delta.getD [])).isEmpty then none
      else some (.partialText
        (String.ofList (trimChars (kept (itemId.getD "") past ++ delta.getD [])))) := by
    rw [← htext]
    rfl
  rw [Right, hreturn, Fits, expected]
  by_cases hblank : visible (kept (itemId.getD "") past ++ delta.getD []) = []
  · simp [trimChars_eq_nil_iff.mpr hblank, hblank]
  · rw [if_neg (by simpa using mt trimChars_eq_nil_iff.mp hblank), or_iff_left hblank,
      ← trim_kept_iff _ past (delta.getD [])]
    simp [ofList_eq_iff]

theorem fits_completed_iff (itemId : Option String) :
    Fits past (.completed itemId none) ↔
      visible (after past).text = [] ∨
        trimChars (deltas (itemId.getD "") past) = trimChars (after past).text := by
  have hheld : kept (after past).itemId past = (after past).text := by rw [kept_eq, if_pos rfl]
  have hsame := trim_kept_iff (after past).itemId past []
  rw [List.append_nil, List.append_nil, hheld] at hsame
  rw [Fits]
  constructor
  · intro h
    have hitem := h (after past).itemId
    rw [hheld] at hitem
    rcases hitem with hblank | ⟨heq, hlost⟩ | ⟨-, htrim⟩
    · exact .inl hblank
    · exact .inr (heq ▸ hsame.mpr hlost)
    · exact .inr htrim.symm
  · intro h item
    by_cases hitem : item = (after past).itemId
    · subst hitem
      rw [hheld]
      refine h.imp id fun htrim => ?_
      by_cases heq : (after past).itemId = itemId.getD ""
      · exact .inl ⟨heq, hsame.mp (heq ▸ htrim)⟩
      · exact .inr ⟨heq, htrim.symm⟩
    · rw [kept_eq, if_neg hitem]
      exact .inl rfl

theorem right_completed_iff (itemId : Option String) (transcript : Option (List Char)) :
    Right past (.completed itemId transcript) ↔ Fits past (.completed itemId transcript) := by
  cases transcript with
  | some text =>
    refine iff_of_true (fun t ht => ?_) trivial
    simp only [push, Option.getD_some, Option.mem_def, Option.ite_none_left_eq_some] at ht
    rw [expected, Option.getD_some]
    exact ht.2
  | none =>
    rw [fits_completed_iff, Right, expected]
    by_cases hblank : visible (after past).text = []
    · simp [push, trimChars_eq_nil_iff.mpr hblank, hblank]
    · rw [or_iff_right hblank]
      simp [push, mt trimChars_eq_nil_iff.mp hblank, ofList_eq_iff]

theorem right_iff (event : RealtimeEvent) : Right past event ↔ Fits past event := by
  cases event with
  | delta itemId delta => exact right_delta_iff past itemId delta
  | completed itemId transcript => exact right_completed_iff past itemId transcript
  | other => exact iff_of_true (fun t ht => by cases ht) trivial

/-- Over a sequence of events all texts are right exactly when every event finds what fits it. -/
theorem assembled_iff (events : List RealtimeEvent) :
    (∀ past event rest, events = past ++ event :: rest → Right past event) ↔
      ∀ past event rest, events = past ++ event :: rest → Fits past event := by
  simp only [right_iff]

/-- An item that goes on after a delta of the next item has lost its first text. -/
theorem not_right_back_and_forth :
    ((after [.delta (some "A") (some ['a']), .delta (some "B") (some ['b'])]).push
        (.delta (some "A") (some ['c']))).2 = some (.partialText "c") ∧
      ¬ Right [.delta (some "A") (some ['a']), .delta (some "B") (some ['b'])]
        (.delta (some "A") (some ['c'])) := by
  have hreturn : ((after [.delta (some "A") (some ['a']), .delta (some "B") (some ['b'])]).push
      (.delta (some "A") (some ['c']))).2 = some (.partialText "c") := by decide
  refine ⟨hreturn, fun h => ?_⟩
  have hexpected := h _ hreturn
  revert hexpected
  decide

end TranscriptAssembler

end NodeWebrtc.OpenAi
