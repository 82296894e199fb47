import NodeWebrtc.Lib.Trace
import NodeWebrtc.Speech.SttDeferred

/-! # Deferred finals with what they came from

`DeferredFinals` matches answers by position and joins texts. Here each text keeps the finalize it
is the answer to, and each marker what closed the finalize; both are for statements only. Every
operation also tells what it puts on the queue.
-/

namespace NodeWebrtc.Vendors.Deferred

open SttActor (SttTranscript SttOutput)
open SttDeferred (DeferredFinals Item SpeechError joined)

/-- A text of the utterance in progress, and the finalize that the server answered with it. -/
structure Piece where
  answers : Option Nat
  text : String
deriving DecidableEq, Repr

inductive Cause where
  | answer (request : Nat)
  | serverCommit
  | unsent (request : Nat)
  | error
  | expired
  | lost
deriving DecidableEq, Repr

inductive Shown where
  | partialText (pieces : List Piece)
  | finalText (pieces : List Piece)
  | failure (message : String)
  | finalizeDone (cause : Cause)
deriving DecidableEq, Repr

def textOf (pieces : List Piece) : String := joined (pieces.map Piece.text)

def Shown.item : Shown → Item
  | .partialText pieces => .output (.transcript (.partialText (textOf pieces)))
  | .finalText pieces => .output (.transcript (.finalText (textOf pieces)))
  | .failure message => .failure message
  | .finalizeDone _ => .output .finalizeDone

def Shown.pieces : Shown → List Piece
  | .partialText pieces => pieces
  | .finalText pieces => pieces
  | _ => []

def Shown.isDone : Shown → Bool
  | .finalizeDone _ => true
  | _ => false

def closings (shown : List Shown) : Nat := shown.countP Shown.isDone

/-- What closes finalize `request` is not the answer to another one, and not a commit that answers
none. -/
def Cause.Closes (request : Nat) : Cause → Prop
  | .answer k => k = request
  | .unsent k => k = request
  | .serverCommit => False
  | _ => True

/-- The text of an answer is shown in front of the marker of its own finalize and behind the one
before, and each marker is due to its own finalize. -/
def InPlace (shown : List Shown) : Prop :=
  EachAfter (fun before e =>
    (∀ piece ∈ e.pieces, ∀ k, piece.answers = some k → k = closings before + 1) ∧
      ∀ cause, e = .finalizeDone cause → cause.Closes (closings before + 1)) shown

/-! ## The operations -/

/-- The pieces are those joined in `segments`; `requested` counts the requests. -/
structure Finals where
  finals : DeferredFinals
  pieces : List Piece
  requested : Nat
deriving DecidableEq, Repr

namespace Finals

def new : Finals := ⟨.new, [], 0⟩

def interim (f : Finals) (text : String) : Finals × List Shown :=
  ({ f with finals := f.finals.interim text },
    if (Text.trim text).isEmpty then []
    else [.partialText (f.pieces ++ [⟨none, Text.trim text⟩])])

def segment (f : Finals) (answers : Option Nat) (text : String) : Finals × List Shown :=
  if (Text.trim text).isEmpty then ({ f with finals := f.finals.segment text }, [])
  else ({ f with
      finals := f.finals.segment text
      pieces := f.pieces ++ [⟨answers, Text.trim text⟩] },
    [.partialText (f.pieces ++ [⟨answers, Text.trim text⟩])])

def request (f : Finals) (now : Instant) : Finals :=
  { f with
    finals := f.finals.request now
    requested := f.requested + 1 }

/-- What the flush and the marker of one closing put on the queue. -/
def closing (pieces : List Piece) (cause : Cause) : List Shown :=
  (if pieces.isEmpty then [] else [.finalText pieces]) ++ [.finalizeDone cause]

def answer (f : Finals) (cause : Cause) : Finals × List Shown :=
  match f.finals.pending with
  | [] => (f, [])
  | _ :: _ => ({ f with
      finals := f.finals.answer.2
      pieces := [] }, closing f.pieces cause)

def fail (f : Finals) (message : String) : Finals × List Shown :=
  match f.finals.pending with
  | [] => ({ f with finals := f.finals.fail message }, [.failure message])
  | _ :: _ => ({ f with
      finals := f.finals.fail message
      pieces := [] }, .failure message :: closing f.pieces .error)

def failWithoutAnswer (f : Finals) (message : String) : Finals × List Shown :=
  ({ f with finals := f.finals.failWithoutAnswer message }, [.failure message])

/-- What the loop over the pending finalizes that are due puts on the queue. -/
def closingsOf (due : Instant → Bool) (cause : Cause) : List Piece → List Instant → List Shown
  | _, [] => []
  | pieces, oldest :: rest =>
    if due oldest then closing pieces cause ++ closingsOf due cause [] rest else []

def answerWhile (f : Finals) (due : Instant → Bool) (cause : Cause) : Finals × List Shown :=
  ({ f with
    finals := f.finals.answerWhile due
    pieces := if (f.finals.pending.head?.any due) then [] else f.pieces },
    closingsOf due cause f.pieces f.finals.pending)

def expire (f : Finals) (now : Instant) (wait : Duration) : Finals × List Shown :=
  f.answerWhile (fun requestedAt => decide (wait ≤ now - requestedAt)) .expired

def lost (f : Finals) (message : String) : Finals × List Shown :=
  if f.finals.pending.isEmpty && f.finals.segments.isEmpty then (f, [])
  else ({ f with
    finals := f.finals.lost message
    pieces := [] }, .failure message :: closingsOf (fun _ => true) .lost f.pieces f.finals.pending)

def discardTranscripts (f : Finals) : Nat × Finals :=
  (f.finals.discardTranscripts.1, { f with finals := f.finals.discardTranscripts.2 })

def pollOutput (f : Finals) (now : Instant) (wait : Duration) :
    Except SpeechError (Option SttOutput) × Finals × List Shown :=
  let expired := f.expire now wait
  (expired.1.finals.nextOutput.1, { expired.1 with finals := expired.1.finals.nextOutput.2 },
    expired.2)

/-- What the `poll_transcript` of a provider does. -/
def pollTranscript (f : Finals) (now : Instant) (wait : Duration) :
    Except SpeechError (Option SttTranscript) × Finals × List Shown :=
  let expired := f.expire now wait
  (expired.1.finals.nextTranscript.1,
    { expired.1 with finals := expired.1.finals.nextTranscript.2 }, expired.2)

/-- A finalize that is closed as it is made, since nothing is sent for it. -/
def requestUnsent (f : Finals) (now : Instant) : Finals × List Shown :=
  (f.request now).answer (.unsent (f.requested + 1))

/-- The text of an answer, and the marker behind it. -/
def answered (f : Finals) (request : Nat) (text : String) : Finals × List Shown :=
  let segment := f.segment (some request) text
  let answer := segment.1.answer (.answer request)
  (answer.1, segment.2 ++ answer.2)

def committed (f : Finals) (text : String) : Finals × List Shown :=
  let segment := f.segment none text
  let answer := segment.1.answer .serverCommit
  (answer.1, segment.2 ++ answer.2)

/-- `request` is the oldest finalize that is open. -/
def IsOldest (f : Finals) (request : Nat) : Prop :=
  request + f.finals.pending.length = f.requested + 1

end Finals

/-- The finalizes that the server was sent, and the last one it answered. -/
structure Ledger where
  sent : List Nat
  lastAnswered : Nat
deriving DecidableEq, Repr

namespace Ledger

def new : Ledger := ⟨[], 0⟩

/-- The server answers what it was sent, each at most once and in request order. -/
def awaits (l : Ledger) (request : Nat) : Bool :=
  decide (request ∈ l.sent) && decide (l.lastAnswered < request)

def send (l : Ledger) (request : Nat) : Ledger := { l with sent := l.sent ++ [request] }

def answer (l : Ledger) (request : Nat) : Ledger := { l with lastAnswered := request }

end Ledger

/-! ## What stays in place -/

-- Whether a text is blank is never computed below.
attribute [local irreducible] Text.trim

/-- All answers among the pieces are to the oldest finalize that is open. -/
def Fits (shown : List Shown) (pieces : List Piece) : Prop :=
  ∀ piece ∈ pieces, ∀ k, piece.answers = some k → k = closings shown + 1

@[simp] theorem closings_append (front back : List Shown) :
    closings (front ++ back) = closings front + closings back :=
  List.countP_append

theorem inPlace_snoc {shown : List Shown} {e : Shown} :
    InPlace (shown ++ [e]) ↔ InPlace shown ∧ Fits shown e.pieces ∧
      ∀ cause, e = .finalizeDone cause → cause.Closes (closings shown + 1) := by
  rw [InPlace, EachAfter.append_iff, EachAfter.cons_iff, List.append_nil]
  exact ⟨fun h => ⟨h.1, h.2.1⟩, fun h => ⟨h.1, h.2, EachAfter.nil⟩⟩

theorem InPlace.front {shown more : List Shown} (h : InPlace (shown ++ more)) : InPlace shown :=
  (EachAfter.append_iff.mp h).1

theorem fits_nil (shown : List Shown) : Fits shown [] := fun _ h => absurd h List.not_mem_nil

theorem fits_append {shown : List Shown} {pieces more : List Piece} :
    Fits shown (pieces ++ more) ↔ Fits shown pieces ∧ Fits shown more :=
  List.forall_mem_append

theorem fits_of_untagged {pieces : List Piece} (h : ∀ piece ∈ pieces, piece.answers = none)
    (shown : List Shown) : Fits shown pieces := by
  intro piece hpiece k hk
  rw [h piece hpiece] at hk
  cases hk

theorem inPlace_partialText {shown : List Shown} {pieces : List Piece} :
    InPlace (shown ++ [.partialText pieces]) ↔ InPlace shown ∧ Fits shown pieces := by
  rw [inPlace_snoc]
  exact ⟨fun h => ⟨h.1, h.2.1⟩, fun h => ⟨h.1, h.2, fun _ hno => by cases hno⟩⟩

theorem InPlace.failure {shown : List Shown} (h : InPlace shown) (message : String) :
    InPlace (shown ++ [.failure message]) :=
  inPlace_snoc.mpr ⟨h, fits_nil shown, fun _ hno => by cases hno⟩

namespace Finals

theorem closings_closing (pieces : List Piece) (cause : Cause) :
    closings (closing pieces cause) = 1 := by
  rw [closing]
  split <;> rfl

theorem inPlace_closing {shown : List Shown} {pieces : List Piece} {cause : Cause}
    (h : InPlace shown) (hpieces : Fits shown pieces) :
    InPlace (shown ++ closing pieces cause) ↔ cause.Closes (closings shown + 1) := by
  have hdone : ∀ {shown' : List Shown}, InPlace shown' → closings shown' = closings shown →
      (InPlace (shown' ++ [.finalizeDone cause]) ↔ cause.Closes (closings shown + 1)) := by
    intro shown' h' heq
    rw [inPlace_snoc, heq]
    exact ⟨fun hall => hall.2.2 cause rfl,
      fun hc => ⟨h', fits_nil _, fun _ heq => by cases heq; exact hc⟩⟩
  rw [closing]
  split
  · exact hdone h rfl
  · rw [← List.append_assoc]
    refine hdone (inPlace_snoc.mpr ⟨h, hpieces, fun _ hno => by cases hno⟩) ?_
    rw [closings_append]
    rfl

theorem inPlace_closingsOf {cause : Cause} (hcause : ∀ request, cause.Closes request)
    (due : Instant → Bool) {shown : List Shown} {pieces : List Piece} (h : InPlace shown)
    (hpieces : Fits shown pieces) (pending : List Instant) :
    InPlace (shown ++ closingsOf due cause pieces pending) := by
  induction pending generalizing shown pieces with
  | nil => rwa [closingsOf, List.append_nil]
  | cons oldest rest ih =>
    rw [closingsOf]
    split
    · rw [← List.append_assoc]
      exact ih ((inPlace_closing h hpieces).mpr (hcause _)) (fits_nil _)
    · rwa [List.append_nil]

/-! ## What is on the queue -/

structure Tied (f : Finals) : Prop where
  segments : f.finals.segments = textOf f.pieces
  someText : ∀ piece ∈ f.pieces, piece.text ≠ ""

/-- An operation puts `out` on the queue, and counts what it closes. -/
structure Puts (f f' : Finals) (out : List Shown) : Prop where
  queue : f'.finals.queue = f.finals.queue ++ out.map Shown.item
  tied : f'.Tied
  counted : closings out + f'.finals.pending.length + f.requested =
    f.finals.pending.length + f'.requested

variable {f f' f'' : Finals}

theorem Puts.trans {out out' : List Shown} (h : Puts f f' out) (h' : Puts f' f'' out') :
    Puts f f'' (out ++ out') := by
  refine ⟨?_, h'.tied, ?_⟩
  · rw [h'.queue, h.queue, List.map_append, List.append_assoc]
  · have hfirst := h.counted
    have hsecond := h'.counted
    rw [closings_append]
    omega

theorem Tied.texts (h : f.Tied) : ∀ t ∈ f.pieces.map Piece.text, t ≠ "" := by
  intro t ht
  obtain ⟨piece, hpiece, rfl⟩ := List.mem_map.mp ht
  exact h.someText piece hpiece

theorem Tied.isEmpty (h : f.Tied) : f.finals.segments.isEmpty = f.pieces.isEmpty := by
  rw [Bool.eq_iff_iff, String.isEmpty_iff, h.segments, textOf, SttDeferred.joined_eq_empty h.texts,
    List.map_eq_nil_iff, List.isEmpty_iff]

theorem Tied.join (h : f.Tied) (answers : Option Nat) (text : String) :
    DeferredFinals.join f.finals.segments text = textOf (f.pieces ++ [⟨answers, text⟩]) := by
  rw [h.segments, textOf, textOf, SttDeferred.join_joined h.texts, List.map_append]
  rfl

theorem tied_new : new.Tied := ⟨rfl, fun _ h => absurd h List.not_mem_nil⟩

theorem Tied.interim (h : f.Tied) (text : String) :
    Puts f (f.interim text).1 (f.interim text).2 := by
  rw [Finals.interim, DeferredFinals.interim]
  split
  · exact ⟨(List.append_nil _).symm, h, Nat.zero_add _ ▸ rfl⟩
  · refine ⟨?_, ⟨h.segments, h.someText⟩, Nat.zero_add _ ▸ rfl⟩
    rw [h.join none]
    rfl

theorem Tied.segment (h : f.Tied) (answers : Option Nat) (text : String) :
    Puts f (f.segment answers text).1 (f.segment answers text).2 := by
  rw [Finals.segment, DeferredFinals.segment]
  split
  · exact ⟨(List.append_nil _).symm, h, Nat.zero_add _ ▸ rfl⟩
  · next hfull =>
    refine ⟨?_, ⟨h.join answers _, fun piece hpiece => ?_⟩, Nat.zero_add _ ▸ rfl⟩
    · rw [h.join answers]
      rfl
    · rcases List.mem_append.mp hpiece with hpiece | hpiece
      · exact h.someText piece hpiece
      · rw [List.mem_singleton.mp hpiece]
        exact fun hno => hfull (String.isEmpty_iff.mpr hno)

theorem segment_pending (f : Finals) (answers : Option Nat) (text : String) :
    (f.segment answers text).1.finals.pending = f.finals.pending := by
  rw [Finals.segment, DeferredFinals.segment]
  split <;> rfl

theorem Tied.request (h : f.Tied) (now : Instant) : Puts f (f.request now) [] := by
  refine ⟨(List.append_nil _).symm, ⟨h.segments, h.someText⟩, ?_⟩
  change 0 + (f.finals.pending ++ [now]).length + f.requested = _ + (f.requested + 1)
  rw [List.length_append, List.length_singleton]
  omega

theorem Tied.flush (h : f.Tied) (pending : List Instant) (cause : Cause) :
    let d := ({ f.finals with pending := pending }.flush.pushBack (.output .finalizeDone))
    d.queue = f.finals.queue ++ (closing f.pieces cause).map Shown.item ∧ d.segments = "" ∧
      d.pending = pending := by
  rw [DeferredFinals.flush]
  have hempty := h.isEmpty
  rw [closing]
  cases hpieces : f.pieces.isEmpty with rw [hpieces] at hempty
  | true =>
    rw [if_pos hempty]
    exact ⟨rfl, String.isEmpty_iff.mp hempty, rfl⟩
  | false =>
    rw [if_neg (by rw [hempty]; exact Bool.false_ne_true)]
    refine ⟨?_, rfl, rfl⟩
    change f.finals.queue ++ [.output (.transcript (.finalText f.finals.segments))] ++
      [.output .finalizeDone] = _
    rw [h.segments, List.append_assoc]
    rfl

theorem tied_of_empty (hsegments : f.finals.segments = "") (hpieces : f.pieces = []) : f.Tied := by
  refine ⟨?_, fun piece hpiece => ?_⟩
  · rw [hsegments, hpieces]
    rfl
  · rw [hpieces] at hpiece
    cases hpiece

theorem Tied.answer (h : f.Tied) (cause : Cause) :
    Puts f (f.answer cause).1 (f.answer cause).2 := by
  rw [Finals.answer]
  cases hpending : f.finals.pending with
  | nil => exact ⟨(List.append_nil _).symm, h, by rw [hpending]; exact Nat.zero_add _ ▸ rfl⟩
  | cons oldest rest =>
    obtain ⟨hqueue, hsegments, hrest⟩ := h.flush rest cause
    have hanswer : f.finals.answer.2 =
        { f.finals with pending := rest }.flush.pushBack (.output .finalizeDone) := by
      rw [DeferredFinals.answer, hpending]
    rw [← hanswer] at hqueue hsegments hrest
    refine ⟨hqueue, tied_of_empty hsegments rfl, ?_⟩
    dsimp only
    rw [closings_closing, hrest, hpending, List.length_cons]
    omega

theorem Tied.fail (h : f.Tied) (message : String) :
    Puts f (f.fail message).1 (f.fail message).2 := by
  rw [Finals.fail]
  have htold : Tied { f with finals := f.finals.pushBack (.failure message) } :=
    ⟨h.segments, h.someText⟩
  cases hpending : f.finals.pending with
  | nil =>
    have hfail : f.finals.fail message = f.finals.pushBack (.failure message) := by
      simp only [DeferredFinals.fail, DeferredFinals.pushBack_pending, hpending]
    rw [hfail]
    exact ⟨rfl, htold, Nat.zero_add _ ▸ rfl⟩
  | cons oldest rest =>
    obtain ⟨hqueue, hsegments, hrest⟩ := htold.flush rest .error
    have hfail : f.finals.fail message =
        { f.finals.pushBack (.failure message) with pending := rest }.flush.pushBack
          (.output .finalizeDone) := by
      simp only [DeferredFinals.fail, DeferredFinals.pushBack_pending, hpending]
    rw [← hfail] at hqueue hsegments hrest
    refine ⟨?_, tied_of_empty hsegments rfl, ?_⟩
    · rw [hqueue, DeferredFinals.pushBack_queue, List.append_assoc]
      rfl
    · change closings (closing f.pieces .error) + _ + _ = _
      rw [closings_closing, hrest, hpending, List.length_cons]
      dsimp only
      omega

theorem Tied.answerWhile (h : f.Tied) (due : Instant → Bool) (cause : Cause) :
    Puts f (f.answerWhile due cause).1 (f.answerWhile due cause).2 := by
  obtain ⟨d, pieces, requested⟩ := f
  induction d using DeferredFinals.answerWhile_induction due generalizing pieces with
  | done d hpending =>
    rw [Finals.answerWhile]
    rw [DeferredFinals.answerWhile, hpending]
    exact ⟨(List.append_nil _).symm, h, by rw [hpending]; exact Nat.zero_add _ ▸ rfl⟩
  | answered d oldest rest hpending hdue ih =>
    have hfirst := h.answer cause
    have hone : (Finals.answer ⟨d, pieces, requested⟩ cause) =
        (⟨d.answer.2, [], requested⟩, closing pieces cause) := by
      rw [Finals.answer]
      rw [hpending]
    rw [hone] at hfirst
    have hrest := ih [] hfirst.tied
    have hboth := hfirst.trans hrest
    have hpending' : d.answer.2.pending = rest := by
      rw [DeferredFinals.answer_pending, hpending]
      rfl
    rw [Finals.answerWhile] at hboth ⊢
    rw [DeferredFinals.answerWhile, hpending]
    dsimp only
    rw [if_pos hdue, closingsOf, if_pos hdue]
    rw [hpending', ite_self] at hboth
    rw [List.head?_cons, Option.any_some, if_pos hdue]
    exact hboth
  | stopped d oldest rest hpending hdue =>
    rw [Finals.answerWhile]
    rw [DeferredFinals.answerWhile, hpending]
    dsimp only
    rw [if_neg hdue, closingsOf, if_neg hdue, List.head?_cons, Option.any_some, if_neg hdue]
    exact ⟨(List.append_nil _).symm, h, by rw [hpending]; exact Nat.zero_add _ ▸ rfl⟩

theorem Tied.expire (h : f.Tied) (now : Instant) (wait : Duration) :
    Puts f (f.expire now wait).1 (f.expire now wait).2 :=
  h.answerWhile _ .expired

theorem Tied.failure (h : f.Tied) (message : String) :
    Puts f { f with finals := f.finals.pushBack (.failure message) } [.failure message] :=
  ⟨rfl, ⟨h.segments, h.someText⟩, Nat.zero_add _ ▸ rfl⟩

theorem Tied.lost (h : f.Tied) (message : String) :
    Puts f (f.lost message).1 (f.lost message).2 := by
  rw [Finals.lost]
  have htold := h.failure message
  split
  · exact ⟨(List.append_nil _).symm, h, Nat.zero_add _ ▸ rfl⟩
  · next hsome =>
    have hlost : f.finals.lost message =
        if f.finals.pending.isEmpty then
          { f.finals.pushBack (.failure message) with segments := "" }
        else (f.finals.pushBack (.failure message)).answerWhile fun _ => true := by
      rw [DeferredFinals.lost, if_neg hsome]
      rfl
    rw [hlost]
    cases hpending : f.finals.pending with
    | nil =>
      refine ⟨rfl, tied_of_empty rfl rfl, ?_⟩
      change 0 + f.finals.pending.length + f.requested = _
      rw [Nat.zero_add]
    | cons oldest rest =>
      have hall := htold.tied.answerWhile (fun _ => true) .lost
      have hboth := htold.trans hall
      rw [Finals.answerWhile] at hboth
      rw [DeferredFinals.pushBack_pending, hpending] at hboth
      refine ⟨hboth.queue, hboth.tied, ?_⟩
      have hcounted := hboth.counted
      rw [hpending] at hcounted
      rw [hpending]
      exact hcounted

/-! ## In place so far -/

/-- What was queued is in place, and no answer waits among the pieces. -/
structure Sound (shown : List Shown) (f : Finals) : Prop where
  tied : f.Tied
  counted : f.requested = closings shown + f.finals.pending.length
  untagged : ∀ piece ∈ f.pieces, piece.answers = none
  inPlace : InPlace shown

theorem sound_new : Sound [] new :=
  ⟨tied_new, rfl, fun _ h => absurd h List.not_mem_nil, EachAfter.nil⟩

variable {shown out : List Shown}

theorem Sound.fits (h : f.Sound shown) : Fits shown f.pieces := fits_of_untagged h.untagged shown

theorem Sound.puts (h : f.Sound shown) (hputs : Puts f f' out) (hplace : InPlace (shown ++ out))
    (huntagged : ∀ piece ∈ f'.pieces, piece.answers = none) : f'.Sound (shown ++ out) := by
  refine ⟨hputs.tied, ?_, huntagged, hplace⟩
  have hcounted := hputs.counted
  have hbefore := h.counted
  rw [closings_append]
  omega

theorem Sound.dequeue (h : f.Sound shown) {d : DeferredFinals}
    (hsegments : d.segments = f.finals.segments) (hpending : d.pending = f.finals.pending) :
    Sound shown { f with finals := d } := by
  refine ⟨⟨hsegments.trans h.tied.segments, h.tied.someText⟩, ?_, h.untagged, h.inPlace⟩
  rw [hpending]
  exact h.counted

theorem untagged_append {pieces : List Piece} (h : ∀ piece ∈ pieces, piece.answers = none)
    (text : String) : ∀ piece ∈ pieces ++ [⟨none, text⟩], piece.answers = none := by
  intro piece hpiece
  rcases List.mem_append.mp hpiece with hpiece | hpiece
  · exact h piece hpiece
  · rw [List.mem_singleton.mp hpiece]

section

variable (h : f.Sound shown)
include h

theorem Sound.interim (text : String) : (f.interim text).1.Sound (shown ++ (f.interim text).2) := by
  refine h.puts (h.tied.interim text) ?_ h.untagged
  rw [Finals.interim]
  split
  · rw [List.append_nil]
    exact h.inPlace
  · exact inPlace_partialText.mpr ⟨h.inPlace, fits_of_untagged (untagged_append h.untagged _) _⟩

theorem Sound.segment (text : String) :
    (f.segment none text).1.Sound (shown ++ (f.segment none text).2) := by
  have hputs := h.tied.segment none text
  rw [Finals.segment] at hputs ⊢
  split
  · next hblank =>
    rw [if_pos hblank] at hputs
    exact h.puts hputs (by rw [List.append_nil]; exact h.inPlace) h.untagged
  · next hfull =>
    rw [if_neg hfull] at hputs
    have huntagged := untagged_append h.untagged (Text.trim text)
    exact h.puts hputs (inPlace_partialText.mpr ⟨h.inPlace, fits_of_untagged huntagged _⟩)
      huntagged

variable (now : Instant)

theorem Sound.request : (f.request now).Sound shown := by
  have hputs := h.puts (h.tied.request now) (by rw [List.append_nil]; exact h.inPlace) h.untagged
  rwa [List.append_nil] at hputs

theorem Sound.answer (hopen : f.finals.pending ≠ []) (cause : Cause) :
    (InPlace (shown ++ (f.answer cause).2) ↔ cause.Closes (closings shown + 1)) ∧
      (cause.Closes (closings shown + 1) →
        (f.answer cause).1.Sound (shown ++ (f.answer cause).2)) := by
  have hputs := h.tied.answer cause
  have hiff : InPlace (shown ++ closing f.pieces cause) ↔ _ := inPlace_closing h.inPlace h.fits
  rw [Finals.answer] at hputs ⊢
  cases hpending : f.finals.pending with
  | nil => exact absurd hpending hopen
  | cons oldest rest =>
    rw [hpending] at hputs
    exact ⟨hiff, fun hc => h.puts hputs (hiff.mpr hc) fun _ hno => absurd hno List.not_mem_nil⟩

theorem Sound.answered (hopen : f.finals.pending ≠ []) (k : Nat) (text : String) :
    (InPlace (shown ++ (f.answered k text).2) ↔ k = closings shown + 1) ∧
      (k = closings shown + 1 → (f.answered k text).1.Sound (shown ++ (f.answered k text).2)) := by
  have hfirst := h.tied.segment (some k) text
  have hboth := hfirst.trans (hfirst.tied.answer (.answer k))
  rw [Finals.answered]
  rw [Finals.segment] at hfirst hboth ⊢
  split
  · next hblank =>
    have hsame : Sound shown { f with finals := f.finals.segment text } := by
      refine h.dequeue ?_ ?_ <;> rw [DeferredFinals.segment, if_pos hblank]
    refine hsame.answer ?_ (.answer k)
    change (f.finals.segment text).pending ≠ []
    rwa [DeferredFinals.segment, if_pos hblank]
  · next hfull =>
    rw [if_neg hfull] at hfirst hboth
    have hpending : (f.finals.segment text).pending = f.finals.pending := by
      rw [DeferredFinals.segment, if_neg hfull]
      rfl
    rw [Finals.answer] at hboth ⊢
    rw [hpending] at hboth ⊢
    cases hcase : f.finals.pending with
    | nil => exact absurd hcase hopen
    | cons oldest rest =>
      rw [hcase] at hboth
      have hiff : InPlace (shown ++ ([.partialText (f.pieces ++ [⟨some k, Text.trim text⟩])] ++
          closing (f.pieces ++ [⟨some k, Text.trim text⟩]) (.answer k))) ↔
            k = closings shown + 1 := by
        rw [← List.append_assoc]
        constructor
        · intro hall
          exact (inPlace_partialText.mp hall.front).2 ⟨some k, Text.trim text⟩
            (List.mem_append_right _ (List.mem_singleton.mpr rfl)) k rfl
        · intro hk
          have hpieces : Fits shown (f.pieces ++ [⟨some k, Text.trim text⟩]) := by
            refine fits_append.mpr ⟨h.fits, fun piece hpiece k' hk' => ?_⟩
            rw [List.mem_singleton.mp hpiece, Option.some.injEq] at hk'
            exact hk'.symm.trans hk
          have hpartial := inPlace_partialText.mpr ⟨h.inPlace, hpieces⟩
          have hsame : closings (shown ++
              [.partialText (f.pieces ++ [⟨some k, Text.trim text⟩])]) = closings shown := by
            rw [closings_append]
            rfl
          refine (inPlace_closing hpartial ?_).mpr (hsame ▸ hk)
          intro piece hpiece k' hk'
          rw [hsame]
          exact hpieces piece hpiece k' hk'
      exact ⟨hiff, fun hk => h.puts hboth (hiff.mpr hk) fun _ hno => absurd hno List.not_mem_nil⟩

theorem Sound.fail (message : String) : (f.fail message).1.Sound (shown ++ (f.fail message).2) := by
  have hputs := h.tied.fail message
  rw [Finals.fail] at hputs ⊢
  cases hpending : f.finals.pending with rw [hpending] at hputs
  | nil =>
    exact h.puts hputs (h.inPlace.failure message) h.untagged
  | cons oldest rest =>
    refine h.puts hputs ?_ fun _ hno => absurd hno List.not_mem_nil
    rw [List.append_cons]
    have hfits : Fits (shown ++ [.failure message]) f.pieces := fits_of_untagged h.untagged _
    exact (inPlace_closing (h.inPlace.failure message) hfits).mpr trivial

theorem Sound.failWithoutAnswer (message : String) :
    (f.failWithoutAnswer message).1.Sound (shown ++ (f.failWithoutAnswer message).2) :=
  h.puts (h.tied.failure message) (h.inPlace.failure message) h.untagged

theorem Sound.expire (wait : Duration) :
    (f.expire now wait).1.Sound (shown ++ (f.expire now wait).2) := by
  have hexpired : ∀ request, Cause.Closes request .expired := fun _ => trivial
  refine h.puts (h.tied.expire now wait)
    (inPlace_closingsOf hexpired _ h.inPlace h.fits _) fun piece hpiece => ?_
  rw [Finals.expire, Finals.answerWhile] at hpiece
  split at hpiece
  · cases hpiece
  · exact h.untagged piece hpiece

theorem Sound.pollOutput (wait : Duration) :
    (f.pollOutput now wait).2.1.Sound (shown ++ (f.pollOutput now wait).2.2) := by
  have hexpire := h.expire now wait
  refine hexpire.dequeue ?_ ?_ <;> rw [DeferredFinals.nextOutput] <;> split <;> rfl

theorem Sound.pollTranscript (wait : Duration) :
    (f.pollTranscript now wait).2.1.Sound (shown ++ (f.pollTranscript now wait).2.2) := by
  have hexpire := h.expire now wait
  exact hexpire.dequeue (by rfl) (by rfl)

theorem Sound.discardTranscripts : f.discardTranscripts.2.Sound shown :=
  h.dequeue (by rfl) (by rfl)

theorem Sound.isOldest_iff (request : Nat) : f.IsOldest request ↔ request = closings shown + 1 := by
  have hcounted := h.counted
  rw [IsOldest]
  omega

theorem Sound.requestUnsent :
    (InPlace (shown ++ (f.requestUnsent now).2) ↔ f.finals.pending = []) ∧
      (f.finals.pending = [] →
        (f.requestUnsent now).1.Sound (shown ++ (f.requestUnsent now).2)) := by
  have hopen : (f.request now).finals.pending ≠ [] := List.concat_ne_nil _ _
  obtain ⟨hiff, hkeep⟩ := (h.request now).answer hopen (.unsent (f.requested + 1))
  have hcause : Cause.Closes (closings shown + 1) (.unsent (f.requested + 1)) ↔
      f.finals.pending = [] := by
    have hcounted := h.counted
    rw [Cause.Closes, ← List.length_eq_zero_iff]
    omega
  exact ⟨hiff.trans hcause, fun hnone => hkeep (hcause.mpr hnone)⟩

theorem Sound.lost (message : String) : (f.lost message).1.Sound (shown ++ (f.lost message).2) := by
  have hputs := h.tied.lost message
  rw [Finals.lost] at hputs ⊢
  split
  · rw [List.append_nil]
    exact h
  · next hsome =>
    rw [if_neg hsome] at hputs
    refine h.puts hputs ?_ fun _ hno => absurd hno List.not_mem_nil
    have hlost : ∀ request, Cause.Closes request .lost := fun _ => trivial
    rw [List.append_cons]
    exact inPlace_closingsOf hlost _ (h.inPlace.failure message) (fits_of_untagged h.untagged _) _

end

/-! ## One step of a provider -/

/-- What a provider does with its finals in one step, what it shows, and whether that is on
time. -/
inductive Does (f : Finals) : Finals → List Shown → Prop → Prop where
  | keeps : Does f f [] True
  | interim (text : String) : Does f (f.interim text).1 (f.interim text).2 True
  | segment (text : String) : Does f (f.segment none text).1 (f.segment none text).2 True
  | request (now : Instant) : Does f (f.request now) [] True
  | requestUnsent (now : Instant) :
      Does f (f.requestUnsent now).1 (f.requestUnsent now).2 (f.finals.pending = [])
  | answered (request : Nat) (text : String) (hopen : f.finals.pending ≠ []) :
      Does f (f.answered request text).1 (f.answered request text).2 (f.IsOldest request)
  /-- The text of an answer that finds no finalize open joins the next utterance. -/
  | joins (request : Nat) (text : String) (hnone : f.finals.pending = [])
      (hmade : request ≤ f.requested) :
      Does f (f.segment (some request) text).1 (f.segment (some request) text).2
        ((Text.trim text).isEmpty = true)
  /-- A commit that the server makes by itself closes the oldest finalize that is open. -/
  | committed (text : String) (hopen : f.finals.pending ≠ []) :
      Does f (f.committed text).1 (f.committed text).2 False
  | fail (message : String) : Does f (f.fail message).1 (f.fail message).2 True
  | failWithoutAnswer (message : String) :
      Does f (f.failWithoutAnswer message).1 (f.failWithoutAnswer message).2 True
  | lost (message : String) : Does f (f.lost message).1 (f.lost message).2 True
  | pollTranscript (now : Instant) (wait : Duration) :
      Does f (f.pollTranscript now wait).2.1 (f.pollTranscript now wait).2.2 True
  | pollOutput (now : Instant) (wait : Duration) :
      Does f (f.pollOutput now wait).2.1 (f.pollOutput now wait).2.2 True
  | discardTranscripts : Does f f.discardTranscripts.2 [] True

theorem segment_requested (f : Finals) (answers : Option Nat) (text : String) :
    (f.segment answers text).1.requested = f.requested := by
  rw [Finals.segment]
  split <;> rfl

theorem answer_requested (f : Finals) (cause : Cause) :
    (f.answer cause).1.requested = f.requested := by
  rw [Finals.answer]
  split <;> rfl

theorem Does.requested_le {p : Prop} (hd : Does f f' out p) : f.requested ≤ f'.requested := by
  cases hd with
  | segment text => exact Nat.le_of_eq (segment_requested f none text).symm
  | request now => exact Nat.le_succ _
  | requestUnsent now =>
    rw [Finals.requestUnsent, answer_requested]
    exact Nat.le_succ _
  | answered request text | committed text =>
    exact Nat.le_of_eq ((answer_requested _ _).trans (segment_requested f _ text)).symm
  | joins request text => exact Nat.le_of_eq (segment_requested f _ text).symm
  | fail message =>
    rw [Finals.fail]
    split <;> exact Nat.le_refl _
  | lost message =>
    rw [Finals.lost]
    split <;> exact Nat.le_refl _
  | _ => exact Nat.le_refl _

theorem Sound.kept {p : Prop} (h : f'.Sound (shown ++ out)) (hp : p) :
    (InPlace (shown ++ out) ↔ p) ∧ (p → f'.Sound (shown ++ out)) :=
  ⟨iff_of_true h.inPlace hp, fun _ => h⟩

theorem Sound.more (h : f'.Sound shown) : f'.Sound (shown ++ []) :=
  (List.append_nil shown).symm ▸ h

theorem Sound.joins (h : f.Sound shown) {request : Nat} {text : String}
    (hnone : f.finals.pending = []) (hmade : request ≤ f.requested) :
    (InPlace (shown ++ (f.segment (some request) text).2) ↔ (Text.trim text).isEmpty = true) ∧
      ((Text.trim text).isEmpty = true → (f.segment (some request) text).1.Sound
        (shown ++ (f.segment (some request) text).2)) := by
  rw [Finals.segment]
  split
  · next hblank =>
    have hsame : Sound shown { f with finals := f.finals.segment text } := by
      refine h.dequeue ?_ ?_ <;> rw [DeferredFinals.segment, if_pos hblank]
    exact hsame.more.kept hblank
  · next hfull =>
    refine ⟨iff_of_false (fun hplace => ?_) hfull, fun hblank => absurd hblank hfull⟩
    have hlast := (inPlace_partialText.mp hplace).2 ⟨some request, Text.trim text⟩
      (List.mem_append_right _ (List.mem_singleton.mpr rfl)) request rfl
    have hcounted := h.counted
    rw [hnone, List.length_nil] at hcounted
    omega

theorem Sound.committed (h : f.Sound shown) (text : String) (hopen : f.finals.pending ≠ []) :
    ¬ InPlace (shown ++ (f.committed text).2) := by
  have hsegment := h.segment text
  have hstill : (f.segment none text).1.finals.pending ≠ [] := by
    rw [Finals.segment_pending]
    exact hopen
  rw [Finals.committed]
  rw [← List.append_assoc]
  exact fun hplace => (hsegment.answer hstill .serverCommit).1.mp hplace

theorem Sound.does (h : f.Sound shown) {p : Prop} (hd : Does f f' out p) :
    (InPlace (shown ++ out) ↔ p) ∧ (p → f'.Sound (shown ++ out)) := by
  cases hd with
  | keeps => exact h.more.kept trivial
  | interim text => exact (h.interim text).kept trivial
  | segment text => exact (h.segment text).kept trivial
  | request now => exact (h.request now).more.kept trivial
  | requestUnsent now => exact h.requestUnsent now
  | answered request text hopen =>
    rw [h.isOldest_iff]
    exact h.answered hopen request text
  | joins request text hnone hmade => exact h.joins hnone hmade
  | committed text hopen => exact ⟨iff_of_false (h.committed text hopen) id, False.elim⟩
  | fail message => exact (h.fail message).kept trivial
  | failWithoutAnswer message => exact (h.failWithoutAnswer message).kept trivial
  | lost message => exact (h.lost message).kept trivial
  | pollTranscript now wait => exact (h.pollTranscript now wait).kept trivial
  | pollOutput now wait => exact (h.pollOutput now wait).kept trivial
  | discardTranscripts => exact h.discardTranscripts.more.kept trivial

end Finals

end NodeWebrtc.Vendors.Deferred
