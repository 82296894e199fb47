import NodeWebrtc.Lib.Text
import NodeWebrtc.Speech.SttActor

/-! # The output queue of a deferred STT provider

A vendor streams several final segments per utterance and answers the agent's finalize
requests one by one. The queue shows segments as partials and delivers them as one final
in front of the marker that answers the request.
-/

namespace NodeWebrtc.SttDeferred

open SttActor (SttTranscript SttOutput)

inductive SpeechError where
  | stt (message : String)
deriving DecidableEq, Repr

inductive Item where
  | output (o : SttOutput)
  /-- A vendor error, surfaced as `Err` from the next poll. -/
  | failure (message : String)
deriving DecidableEq, Repr

namespace Item

def isTranscript : Item → Bool
  | .output (.transcript _) => true
  | _ => false

end Item

structure DeferredFinals where
  queue : List Item
  /-- Finalizes requested and not yet answered, oldest first (request time). -/
  pending : List Instant
  /-- Final segments of the utterance in progress, joined by single spaces. -/
  segments : String
deriving DecidableEq, Repr

namespace DeferredFinals

def new : DeferredFinals := ⟨[], [], ""⟩

def join (head tail : String) : String := if head.isEmpty then tail else head ++ " " ++ tail

def pushBack (d : DeferredFinals) (i : Item) : DeferredFinals := { d with queue := d.queue ++ [i] }

/-- Interim text of the segment being spoken: a partial of segments and interim. -/
def interim (d : DeferredFinals) (text : String) : DeferredFinals :=
  if (Text.trim text).isEmpty then d
  else d.pushBack (.output (.transcript (.partialText (join d.segments (Text.trim text)))))

/-- A final segment of the utterance in progress, shown as a partial. -/
def segment (d : DeferredFinals) (text : String) : DeferredFinals :=
  if (Text.trim text).isEmpty then d
  else
    let segments := join d.segments (Text.trim text)
    { d with segments }.pushBack (.output (.transcript (.partialText segments)))

def request (d : DeferredFinals) (now : Instant) : DeferredFinals :=
  { d with pending := d.pending ++ [now] }

def flush (d : DeferredFinals) : DeferredFinals :=
  if d.segments.isEmpty then d
  else { d with segments := "" }.pushBack (.output (.transcript (.finalText d.segments)))

/-- The vendor answered the oldest pending finalize; false, and nothing done, when none is. -/
def answer (d : DeferredFinals) : Bool × DeferredFinals :=
  match d.pending with
  | [] => (false, d)
  | _ :: rest => (true, { d with pending := rest }.flush.pushBack (.output .finalizeDone))

/-- The vendor failed the oldest pending finalize: the error, then the closing marker. -/
def fail (d : DeferredFinals) (message : String) : DeferredFinals :=
  let told := d.pushBack (.failure message)
  match told.pending with
  | [] => told
  | _ :: rest => { told with pending := rest }.flush.pushBack (.output .finalizeDone)

/-- A vendor error that is not the answer to a finalize. -/
def failWithoutAnswer (d : DeferredFinals) (message : String) : DeferredFinals :=
  d.pushBack (.failure message)

variable (d : DeferredFinals)

@[simp] theorem pushBack_pending (i : Item) : (d.pushBack i).pending = d.pending := rfl

@[simp] theorem pushBack_queue (i : Item) : (d.pushBack i).queue = d.queue ++ [i] := rfl

theorem flush_pending : d.flush.pending = d.pending := by
  unfold flush
  split <;> rfl

theorem answer_pending : d.answer.2.pending = d.pending.tail := by
  unfold answer
  split
  · rename_i hnone
    rw [hnone]
    rfl
  · rename_i rest hsome
    rw [hsome, pushBack_pending, flush_pending]
    rfl

/-- `while pending.front().is_some_and(due) { answer() }`. -/
def answerWhile (due : Instant → Bool) (d : DeferredFinals) : DeferredFinals :=
  match _hp : d.pending with
  | [] => d
  | oldest :: _ => if due oldest then d.answer.2.answerWhile due else d
termination_by d.pending.length
decreasing_by
  rw [answer_pending, _hp]
  exact Nat.lt_succ_self _

/-- Induction along the loop: it ends with nothing pending, answers the oldest finalize when
that is due, and stops when it is not. -/
theorem answerWhile_induction (due : Instant → Bool) {P : DeferredFinals → Prop}
    (done : ∀ d : DeferredFinals, d.pending = [] → P d)
    (answered : ∀ (d : DeferredFinals) (oldest : Instant) (rest : List Instant),
      d.pending = oldest :: rest → due oldest = true → P d.answer.2 → P d)
    (stopped : ∀ (d : DeferredFinals) (oldest : Instant) (rest : List Instant),
      d.pending = oldest :: rest → ¬due oldest = true → P d) (d : DeferredFinals) : P d := by
  induction hlength : d.pending.length generalizing d with
  | zero => exact done d (List.length_eq_zero_iff.mp hlength)
  | succ n ih =>
    cases hpending : d.pending with
    | nil =>
      rw [hpending] at hlength
      cases hlength
    | cons oldest rest =>
      by_cases hdue : due oldest = true
      · apply answered d oldest rest hpending hdue
        apply ih
        rw [hpending] at hlength
        rw [answer_pending, hpending]
        exact Nat.succ.inj hlength
      · exact stopped d oldest rest hpending hdue

/-- Closes every finalize older than `wait` that the vendor never answered. -/
def expire (d : DeferredFinals) (now : Instant) (wait : Duration) : DeferredFinals :=
  d.answerWhile fun requestedAt => decide (wait ≤ now - requestedAt)

def lost (d : DeferredFinals) (message : String) : DeferredFinals :=
  if d.pending.isEmpty && d.segments.isEmpty then d
  else
    let told := d.pushBack (.failure message)
    -- Text of an utterance whose end never came: nothing to attribute it to.
    if told.pending.isEmpty then { told with segments := "" }
    else told.answerWhile fun _ => true

/-- Drops queued transcripts (markers stay), and counts them. -/
def discardTranscripts (d : DeferredFinals) : Nat × DeferredFinals :=
  let kept := d.queue.filter fun i => !i.isTranscript
  (d.queue.length - kept.length, { d with queue := kept })

/-- Forget everything (provider start and stop): what follows is a run from `new`. -/
def clear (_ : DeferredFinals) : DeferredFinals := ⟨[], [], ""⟩

def nextOutput (d : DeferredFinals) : Except SpeechError (Option SttOutput) × DeferredFinals :=
  match d.queue with
  | [] => (.ok none, d)
  | .failure message :: rest => (.error (.stt message), { d with queue := rest })
  | .output o :: rest => (.ok (some o), { d with queue := rest })

/-- The loop of `next_transcript` over the queue: the result and what stays queued. -/
def popTranscript : List Item → Except SpeechError (Option SttTranscript) × List Item
  | [] => (.ok none, [])
  | .failure message :: rest => (.error (.stt message), rest)
  | .output (.transcript t) :: rest => (.ok (some t), rest)
  | .output .finalizeDone :: rest => popTranscript rest

def nextTranscript (d : DeferredFinals) :
    Except SpeechError (Option SttTranscript) × DeferredFinals :=
  ((popTranscript d.queue).1, { d with queue := (popTranscript d.queue).2 })

/-! ## Runs -/

end DeferredFinals

inductive DeferredOp where
  | interim (text : String)
  | segment (text : String)
  | request (now : Instant)
  | answer
  | fail (message : String)
  | failWithoutAnswer (message : String)
  | expire (now : Instant) (wait : Duration)
  | lost (message : String)
  | discardTranscripts
  | nextOutput
  | nextTranscript
deriving DecidableEq, Repr

/-- What left the queue or the segments other than into the queue. -/
inductive FinalsEvent where
  | polled (i : Item)
  | dropped (i : Item)
  /-- Text of an utterance without an end that `lost` cleared. -/
  | forgotten (text : String)
deriving DecidableEq, Repr

namespace DeferredFinals

/-- The items a poll took: the queue before it up to the queue after it. -/
def takenBy (d next : DeferredFinals) : List FinalsEvent :=
  (d.queue.take (d.queue.length - next.queue.length)).map .polled

def forgottenBy (d : DeferredFinals) : List FinalsEvent :=
  if d.pending.isEmpty && !d.segments.isEmpty then [.forgotten d.segments] else []

def step (d : DeferredFinals) : DeferredOp → Option (DeferredFinals × List FinalsEvent)
  | .interim text => some (d.interim text, [])
  | .segment text => some (d.segment text, [])
  | .request now => some (d.request now, [])
  | .answer => some (d.answer.2, [])
  | .fail message => some (d.fail message, [])
  | .failWithoutAnswer message => some (d.failWithoutAnswer message, [])
  | .expire now wait => some (d.expire now wait, [])
  | .lost message => some (d.lost message, d.forgottenBy)
  | .discardTranscripts =>
    some (d.discardTranscripts.2, (d.queue.filter Item.isTranscript).map .dropped)
  | .nextOutput => some (d.nextOutput.2, d.takenBy d.nextOutput.2)
  | .nextTranscript => some (d.nextTranscript.2, d.takenBy d.nextTranscript.2)

end DeferredFinals

/-! ## What is accounted for -/

/-- The non-empty segment text an operation brings. -/
def DeferredOp.spoken : DeferredOp → List String
  | .segment text => if (Text.trim text).isEmpty then [] else [Text.trim text]
  | _ => []

/-- The non-empty segment texts of a sequence of operations, in order. -/
def spoken (ops : List DeferredOp) : List String := ops.flatMap DeferredOp.spoken

def requests (ops : List DeferredOp) : Nat :=
  ops.countP fun
    | .request _ => true
    | _ => false

def polled (events : List FinalsEvent) : List Item :=
  events.filterMap fun
    | .polled i => some i
    | _ => none

def finals (items : List Item) : List String :=
  items.filterMap fun
    | .output (.transcript (.finalText text)) => some text
    | _ => none

/-- The texts of explicit discards: finals dropped from the queue, and text without an end. -/
def discarded (events : List FinalsEvent) : List String :=
  events.flatMap fun
    | .dropped i => finals [i]
    | .forgotten text => [text]
    | .polled _ => []

def markers (items : List Item) : Nat := items.count (.output .finalizeDone)

/-- Every final stands directly in front of a marker. -/
def FinalsClosed : List Item → Prop
  | [] => True
  | i :: rest => (finals [i] ≠ [] → rest.head? = some (.output .finalizeDone)) ∧ FinalsClosed rest

def joined (texts : List String) : String := " ".intercalate texts

/-- The texts, in arrival order, are consecutive groups and the ones that still wait. Each
group is one final or one discarded text, and the finals come in the order of their groups. -/
structure Grouped (texts : List String) (groups : List (List String)) (waiting : List String)
    (finals discarded : List String) : Prop where
  texts : texts = groups.flatten ++ waiting
  someText : ∀ g ∈ groups, g ≠ []
  delivered : finals.Sublist (groups.map joined)
  settled : (finals ++ discarded).Perm (groups.map joined)

section

variable {texts waiting finals discarded : List String} {groups : List (List String)}
  (h : Grouped texts groups waiting finals discarded)
include h

theorem Grouped.hear (text : String) :
    Grouped (texts ++ [text]) groups (waiting ++ [text]) finals discarded := by
  refine ⟨?_, h.someText, h.delivered, h.settled⟩
  rw [h.texts, List.append_assoc]

theorem Grouped.close (hsome : waiting ≠ []) :
    texts = (groups ++ [waiting]).flatten ++ [] ∧ ∀ g ∈ groups ++ [waiting], g ≠ [] := by
  constructor
  · rw [h.texts, List.flatten_append, List.flatten_singleton, List.append_nil]
  · intro g hg
    rcases List.mem_append.mp hg with hg | hg
    · exact h.someText g hg
    · rw [List.mem_singleton.mp hg]
      exact hsome

theorem Grouped.deliver (hsome : waiting ≠ []) :
    Grouped texts (groups ++ [waiting]) [] (finals ++ [joined waiting]) discarded := by
  refine ⟨(h.close hsome).1, (h.close hsome).2, ?_, ?_⟩
  · rw [List.map_append]
    exact h.delivered.append (List.Sublist.refl _)
  · rw [List.map_append, List.append_assoc]
    apply ((List.perm_append_comm).append_left finals).trans
    rw [← List.append_assoc]
    exact h.settled.append_right _

theorem Grouped.forget (hsome : waiting ≠ []) :
    Grouped texts (groups ++ [waiting]) [] finals (discarded ++ [joined waiting]) := by
  refine ⟨(h.close hsome).1, (h.close hsome).2, ?_, ?_⟩
  · rw [List.map_append]
    exact h.delivered.trans (List.sublist_append_left _ _)
  · rw [List.map_append, ← List.append_assoc]
    exact h.settled.append_right _

end

theorem Grouped.discard {texts waiting finals dropped discarded : List String}
    {groups : List (List String)} (h : Grouped texts groups waiting (finals ++ dropped) discarded) :
    Grouped texts groups waiting finals (discarded ++ dropped) := by
  refine ⟨h.texts, h.someText, (List.sublist_append_left _ _).trans h.delivered, ?_⟩
  apply List.Perm.trans _ h.settled
  rw [List.append_assoc]
  exact List.perm_append_comm.append_left finals

/-! ### Joined texts -/

theorem joined_eq_empty {texts : List String} (hsome : ∀ t ∈ texts, t ≠ "") :
    joined texts = "" ↔ texts = [] := by
  constructor
  · intro hempty
    cases texts with
    | nil => rfl
    | cons t rest =>
      have ht := hsome t List.mem_cons_self
      unfold joined at hempty
      cases rest with
      | nil => exact absurd hempty ht
      | cons u rest =>
        rw [String.intercalate_cons_cons, String.append_eq_empty_iff,
          String.append_eq_empty_iff] at hempty
        exact absurd hempty.1.1 ht
  · intro hnil
    rw [hnil]
    rfl

theorem join_joined {texts : List String} (hsome : ∀ t ∈ texts, t ≠ "") (text : String) :
    DeferredFinals.join (joined texts) text = joined (texts ++ [text]) := by
  unfold DeferredFinals.join
  by_cases hnil : texts = []
  · rw [hnil]
    exact String.intercalate_singleton.symm
  · have hfull : ¬ (joined texts).isEmpty = true := by
      rw [String.isEmpty_iff, joined_eq_empty hsome]
      exact hnil
    rw [if_neg hfull]
    unfold joined
    rw [String.intercalate_append_of_ne_nil hnil (List.cons_ne_nil _ _),
      String.intercalate_singleton]

/-! ### Items -/

theorem finals_append (items more : List Item) :
    finals (items ++ more) = finals items ++ finals more := List.filterMap_append

theorem markers_append (items more : List Item) :
    markers (items ++ more) = markers items + markers more := List.count_append

theorem finals_cons (i : Item) (items : List Item) : finals (i :: items) = finals [i] ++ finals items :=
  finals_append [i] items

theorem FinalsClosed.append {items more : List Item} (h : FinalsClosed items)
    (hmore : FinalsClosed more) : FinalsClosed (items ++ more) := by
  induction items with
  | nil => exact hmore
  | cons i items ih =>
    refine ⟨fun hfinal => ?_, ih h.2⟩
    have hhead := h.1 hfinal
    cases items with
    | nil => contradiction
    | cons j items => exact hhead

theorem FinalsClosed.of_finals_nil {items : List Item} (h : finals items = []) :
    FinalsClosed items := by
  induction items with
  | nil => trivial
  | cons i items ih =>
    rw [finals_cons, List.append_eq_nil_iff] at h
    exact ⟨fun hfinal => absurd h.1 hfinal, ih h.2⟩

variable (items : List Item)

theorem finals_kept : finals (items.filter fun i => !i.isTranscript) = [] := by
  unfold finals
  rw [List.filterMap_eq_nil_iff]
  intro i hi
  have hnot := (List.mem_filter.mp hi).2
  match i with
  | .failure _ | .output .finalizeDone | .output (.transcript (.partialText _)) => rfl
  | .output (.transcript (.finalText _)) => contradiction

theorem markers_kept : markers (items.filter fun i => !i.isTranscript) = markers items :=
  List.count_filter rfl

theorem finals_dropped : finals (items.filter Item.isTranscript) = finals items := by
  unfold finals
  rw [List.filterMap_filter]
  congr 1
  funext i
  match i with
  | .failure _ | .output .finalizeDone | .output (.transcript (.partialText _)) => rfl
  | .output (.transcript (.finalText _)) => rfl

theorem FinalsClosed.keep {taken queue : List Item} (h : FinalsClosed (taken ++ queue)) :
    FinalsClosed (taken ++ queue.filter fun i => !i.isTranscript) := by
  induction taken with
  | nil => exact .of_finals_nil (finals_kept queue)
  | cons i taken ih =>
    refine ⟨fun hfinal => ?_, ih h.2⟩
    have hhead := h.1 hfinal
    cases taken with
    | cons j taken => exact hhead
    | nil =>
      cases queue with
      | nil => contradiction
      | cons j queue =>
        obtain rfl : j = .output .finalizeDone := Option.some.inj hhead
        rfl

theorem polled_append (events more : List FinalsEvent) :
    polled (events ++ more) = polled events ++ polled more := List.filterMap_append

theorem discarded_append (events more : List FinalsEvent) :
    discarded (events ++ more) = discarded events ++ discarded more := List.flatMap_append

theorem polled_taken : polled (items.map .polled) = items := by
  induction items with
  | nil => rfl
  | cons i items ih => exact congrArg (i :: ·) ih

theorem discarded_taken : discarded (items.map .polled) = [] := by
  induction items with
  | nil => rfl
  | cons i items ih => exact ih

theorem polled_dropped : polled (items.map .dropped) = [] := by
  induction items with
  | nil => rfl
  | cons i items ih => exact ih

theorem discarded_dropped : discarded (items.map .dropped) = finals items := by
  induction items with
  | nil => rfl
  | cons i items ih =>
    rw [finals_cons, ← ih]
    rfl

/-! ## What every operation keeps -/

namespace DeferredFinals

/-- After `requested` requests, with the segment `texts` so far, the items `taken` by polls
and the texts `discarded`: the markers answer the requests, finals stand in front of markers,
and the texts are in the finals, discarded or still in `segments`. -/
structure Conserves (requested : Nat) (texts : List String) (taken : List Item)
    (discarded : List String) (d : DeferredFinals) : Prop where
  someText : ∀ t ∈ texts, t ≠ ""
  marked : markers (taken ++ d.queue) + d.pending.length = requested
  closed : FinalsClosed (taken ++ d.queue)
  grouped : ∃ groups waiting, Grouped texts groups waiting (finals (taken ++ d.queue)) discarded ∧
    d.segments = joined waiting

variable {requested : Nat} {texts dropped : List String} {taken : List Item} {d : DeferredFinals}

section

variable (h : d.Conserves requested texts taken dropped)
include h

theorem Conserves.pushBack {i : Item} (hfinal : finals [i] = []) (hmarker : markers [i] = 0) :
    (d.pushBack i).Conserves requested texts taken dropped := by
  have hqueue : taken ++ (d.pushBack i).queue = taken ++ d.queue ++ [i] :=
    (List.append_assoc _ _ _).symm
  refine ⟨h.someText, ?_, ?_, ?_⟩
  · rw [hqueue, markers_append, hmarker]
    exact h.marked
  · rw [hqueue]
    exact h.closed.append (.of_finals_nil hfinal)
  · rw [hqueue, finals_append, hfinal, List.append_nil]
    exact h.grouped

theorem Conserves.interim (text : String) :
    (d.interim text).Conserves requested texts taken dropped := by
  unfold DeferredFinals.interim
  split
  · exact h
  · exact h.pushBack rfl rfl

theorem Conserves.segment (text : String) :
    (d.segment text).Conserves requested (texts ++ DeferredOp.spoken (.segment text)) taken
      dropped := by
  unfold DeferredFinals.segment DeferredOp.spoken
  dsimp only
  by_cases hempty : (Text.trim text).isEmpty = true
  · rw [if_pos hempty, if_pos hempty, List.append_nil]
    exact h
  · rw [if_neg hempty, if_neg hempty]
    obtain ⟨groups, waiting, hgrouped, hsegments⟩ := h.grouped
    have hwaiting : ∀ t ∈ waiting, t ≠ "" := fun t ht =>
      h.someText t (hgrouped.texts ▸ List.mem_append_right _ ht)
    have hheard : ({ d with segments := join d.segments (Text.trim text) }).Conserves requested
        (texts ++ [Text.trim text]) taken dropped := by
      refine ⟨fun t ht => ?_, h.marked, h.closed, groups, _, hgrouped.hear (Text.trim text), ?_⟩
      · rcases List.mem_append.mp ht with ht | ht
        · exact h.someText t ht
        · rw [List.mem_singleton.mp ht]
          exact fun heq => hempty (String.isEmpty_iff.mpr heq)
      · show join d.segments (Text.trim text) = _
        rw [hsegments, join_joined hwaiting]
    exact hheard.pushBack rfl rfl

theorem Conserves.request (now : Instant) :
    (d.request now).Conserves (requested + 1) texts taken dropped := by
  refine ⟨h.someText, ?_, h.closed, h.grouped⟩
  have hmarked := h.marked
  show markers (taken ++ d.queue) + (d.pending ++ [now]).length = _
  rw [List.length_append, List.length_singleton]
  omega

theorem Conserves.mark {oldest : Instant} {rest : List Instant}
    (hpending : d.pending = oldest :: rest) :
    ({ d with pending := rest }.flush.pushBack (.output .finalizeDone)).Conserves requested texts
      taken dropped := by
  have hmarked := h.marked
  rw [hpending, List.length_cons] at hmarked
  obtain ⟨groups, waiting, hgrouped, hsegments⟩ := h.grouped
  unfold flush
  by_cases hempty : d.segments.isEmpty = true
  · rw [if_pos hempty]
    refine ⟨h.someText, ?_, ?_, groups, waiting, ?_, hsegments⟩
    · show markers (taken ++ (d.queue ++ [.output .finalizeDone])) + rest.length = requested
      rw [← List.append_assoc, markers_append]
      show markers (taken ++ d.queue) + 1 + rest.length = requested
      omega
    · show FinalsClosed (taken ++ (d.queue ++ [.output .finalizeDone]))
      rw [← List.append_assoc]
      exact h.closed.append (.of_finals_nil rfl)
    · show Grouped texts groups waiting (finals (taken ++ (d.queue ++ [.output .finalizeDone]))) _
      rw [← List.append_assoc, finals_append]
      show Grouped texts groups waiting (finals (taken ++ d.queue) ++ []) _
      rw [List.append_nil]
      exact hgrouped
  · rw [if_neg hempty]
    have hsome : waiting ≠ [] := fun hnil => by
      rw [hnil] at hsegments
      exact hempty (String.isEmpty_iff.mpr hsegments)
    have hqueue : taken ++ (d.queue ++ [.output (.transcript (.finalText d.segments))] ++
        [.output .finalizeDone]) = taken ++ d.queue ++
          [.output (.transcript (.finalText d.segments)), .output .finalizeDone] := by
      simp
    refine ⟨h.someText, ?_, ?_, groups ++ [waiting], [], ?_, rfl⟩
    · show markers (taken ++ (d.queue ++ _ ++ _)) + rest.length = requested
      rw [hqueue, markers_append]
      show markers (taken ++ d.queue) + 1 + rest.length = requested
      omega
    · show FinalsClosed (taken ++ (d.queue ++ _ ++ _))
      rw [hqueue]
      exact h.closed.append ⟨fun _ => rfl, fun hfinal => absurd rfl hfinal, trivial⟩
    · show Grouped texts _ _ (finals (taken ++ (d.queue ++ _ ++ _))) _
      rw [hqueue, finals_append]
      rw [hsegments]
      exact hgrouped.deliver hsome

end

section

variable (h : d.Conserves requested texts taken dropped)
include h

theorem Conserves.answer : d.answer.2.Conserves requested texts taken dropped := by
  unfold DeferredFinals.answer
  split
  · exact h
  · rename_i hpending
    exact h.mark hpending

theorem Conserves.fail (message : String) :
    (d.fail message).Conserves requested texts taken dropped := by
  have htold := h.pushBack (i := .failure message) rfl rfl
  unfold DeferredFinals.fail
  dsimp only
  split
  · exact htold
  · rename_i hpending
    exact htold.mark hpending

theorem Conserves.answerWhile (due : Instant → Bool) :
    (d.answerWhile due).Conserves requested texts taken dropped := by
  induction d using DeferredFinals.answerWhile_induction due with
  | done d hpending =>
    rw [DeferredFinals.answerWhile, hpending]
    exact h
  | answered d oldest rest hpending hdue ih =>
    rw [DeferredFinals.answerWhile, hpending]
    dsimp only
    rw [if_pos hdue]
    exact ih h.answer
  | stopped d oldest rest hpending hdue =>
    rw [DeferredFinals.answerWhile, hpending]
    dsimp only
    rw [if_neg hdue]
    exact h

end

theorem lost_cases (d : DeferredFinals) (message : String) :
    (d.lost message = d ∧ d.forgottenBy = []) ∨
      (d.segments ≠ "" ∧ d.forgottenBy = [.forgotten d.segments] ∧
        d.lost message = { d.pushBack (.failure message) with segments := "" }) ∨
      (d.lost message = (d.pushBack (.failure message)).answerWhile (fun _ => true) ∧
        d.forgottenBy = []) := by
  unfold DeferredFinals.lost forgottenBy
  cases hpending : d.pending with
  | nil =>
    by_cases hsegments : d.segments = ""
    · left
      simp [hsegments]
    · right
      simp [hsegments, hpending]
  | cons oldest rest => simp [hpending]

section

variable (h : d.Conserves requested texts taken dropped)
include h

theorem Conserves.lost (message : String) :
    (d.lost message).Conserves requested texts taken (dropped ++ discarded d.forgottenBy) := by
  have htold := h.pushBack (i := .failure message) rfl rfl
  rcases d.lost_cases message with ⟨hlost, hforgot⟩ | ⟨hsegments, hforgot, hlost⟩ | ⟨hlost, hforgot⟩
  · rw [hlost, hforgot]
    show d.Conserves requested texts taken (dropped ++ [])
    rw [List.append_nil]
    exact h
  · rw [hlost, hforgot]
    obtain ⟨groups, waiting, hgrouped, hjoined⟩ := htold.grouped
    have hsome : waiting ≠ [] := fun hnil => by
      rw [hnil] at hjoined
      exact hsegments hjoined
    refine ⟨htold.someText, htold.marked, htold.closed, groups ++ [waiting], [], ?_, rfl⟩
    rw [show d.segments = joined waiting from hjoined]
    exact hgrouped.forget hsome
  · rw [hlost, hforgot]
    show Conserves requested texts taken (dropped ++ []) _
    rw [List.append_nil]
    exact htold.answerWhile _

theorem Conserves.discardTranscripts :
    d.discardTranscripts.2.Conserves requested texts taken (dropped ++ finals d.queue) := by
  obtain ⟨groups, waiting, hgrouped, hjoined⟩ := h.grouped
  rw [finals_append] at hgrouped
  refine ⟨h.someText, ?_, h.closed.keep, groups, waiting, ?_, hjoined⟩
  · show markers (taken ++ d.queue.filter _) + d.pending.length = requested
    rw [markers_append, markers_kept, ← markers_append]
    exact h.marked
  · show Grouped texts groups waiting (finals (taken ++ d.queue.filter _)) _
    rw [finals_append, finals_kept, List.append_nil]
    exact hgrouped.discard

theorem Conserves.poll {front rest : List Item} (hqueue : d.queue = front ++ rest) :
    ({ d with queue := rest }).Conserves requested texts (taken ++ front) dropped := by
  have hwhole : taken ++ front ++ rest = taken ++ d.queue := by rw [hqueue, List.append_assoc]
  refine ⟨h.someText, ?_, ?_, ?_⟩
  · show markers (taken ++ front ++ rest) + _ = _
    rw [hwhole]
    exact h.marked
  · show FinalsClosed (taken ++ front ++ rest)
    rw [hwhole]
    exact h.closed
  · show ∃ groups waiting, Grouped _ _ _ (finals (taken ++ front ++ rest)) _ ∧ _
    rw [hwhole]
    exact h.grouped

end

theorem takenBy_eq {next : DeferredFinals} {front : List Item}
    (hqueue : d.queue = front ++ next.queue) : d.takenBy next = front.map .polled := by
  unfold takenBy
  rw [hqueue, List.length_append, Nat.add_sub_cancel, List.take_left]

theorem popTranscript_front (queue : List Item) :
    ∃ front, queue = front ++ (popTranscript queue).2 := by
  induction queue using popTranscript.induct with
  | case1 => exact ⟨[], rfl⟩
  | case2 message rest => exact ⟨[.failure message], rfl⟩
  | case3 t rest => exact ⟨[.output (.transcript t)], rfl⟩
  | case4 rest ih =>
    obtain ⟨front, hfront⟩ := ih
    exact ⟨.output .finalizeDone :: front, congrArg (.output .finalizeDone :: ·) hfront⟩

theorem nextOutput_front (d : DeferredFinals) :
    ∃ front rest, d.queue = front ++ rest ∧ d.nextOutput.2 = { d with queue := rest } := by
  unfold nextOutput
  split
  · rename_i hnone
    exact ⟨[], [], hnone, by rw [← hnone]⟩
  · rename_i message rest hsome
    exact ⟨[.failure message], rest, hsome, rfl⟩
  · rename_i o rest hsome
    exact ⟨[.output o], rest, hsome, rfl⟩

/-! ## Runs -/

/-- What holds after the operations `ops` with the events `events`. -/
def Conserved (ops : List DeferredOp) (events : List FinalsEvent) (d : DeferredFinals) : Prop :=
  d.Conserves (requests ops) (spoken ops) (polled events) (discarded events)

theorem Conserved.polls {ops : List DeferredOp} {events : List FinalsEvent}
    (h : d.Conserved ops events) {front rest : List Item} (hqueue : d.queue = front ++ rest)
    {next : DeferredFinals} (hnext : next = { d with queue := rest }) :
    next.Conserves (requests ops) (spoken ops) (polled (events ++ d.takenBy next))
      (discarded (events ++ d.takenBy next)) := by
  have htaken : d.takenBy next = front.map .polled := takenBy_eq (by rw [hqueue, hnext])
  rw [htaken, polled_append, discarded_append, polled_taken, discarded_taken, List.append_nil,
    hnext]
  exact Conserves.poll h hqueue

theorem spoken_snoc (ops : List DeferredOp) (op : DeferredOp) :
    spoken (ops ++ [op]) = spoken ops ++ op.spoken := by
  unfold spoken
  rw [List.flatMap_append, List.flatMap_singleton]

theorem step_conserved {ops : List DeferredOp} {events : List FinalsEvent}
    (h : d.Conserved ops events) (op : DeferredOp) :
    ∃ next out, d.step op = some (next, out) ∧ next.Conserved (ops ++ [op]) (events ++ out) := by
  unfold Conserved
  rw [spoken_snoc, requests, List.countP_append, ← requests]
  cases op with
  | interim text => exact ⟨_, _, rfl, by simpa [DeferredOp.spoken] using Conserves.interim h text⟩
  | segment text => exact ⟨_, _, rfl, by simpa using Conserves.segment h text⟩
  | request now => exact ⟨_, _, rfl, by simpa [DeferredOp.spoken] using Conserves.request h now⟩
  | answer => exact ⟨_, _, rfl, by simpa [DeferredOp.spoken] using Conserves.answer h⟩
  | fail message => exact ⟨_, _, rfl, by simpa [DeferredOp.spoken] using Conserves.fail h message⟩
  | failWithoutAnswer message =>
    have htold : (d.failWithoutAnswer message).Conserves _ _ _ _ := Conserves.pushBack h rfl rfl
    exact ⟨_, _, rfl, by simpa [DeferredOp.spoken] using htold⟩
  | expire now wait =>
    have hclosed : (d.expire now wait).Conserves _ _ _ _ := Conserves.answerWhile h _
    exact ⟨_, _, rfl, by simpa [DeferredOp.spoken] using hclosed⟩
  | lost message =>
    have hpolled : polled d.forgottenBy = [] := by
      unfold forgottenBy
      split <;> rfl
    refine ⟨_, _, rfl, ?_⟩
    rw [polled_append, discarded_append, hpolled]
    simpa [DeferredOp.spoken] using Conserves.lost h message
  | discardTranscripts =>
    refine ⟨_, _, rfl, ?_⟩
    rw [polled_append, discarded_append, polled_dropped, discarded_dropped, finals_dropped]
    simpa [DeferredOp.spoken] using Conserves.discardTranscripts h
  | nextOutput =>
    obtain ⟨front, rest, hqueue, hnext⟩ := nextOutput_front d
    refine ⟨_, _, rfl, ?_⟩
    simpa [DeferredOp.spoken] using Conserved.polls h hqueue hnext
  | nextTranscript =>
    obtain ⟨front, hqueue⟩ := popTranscript_front d.queue
    have hnext : d.nextTranscript.2 = { d with queue := (popTranscript d.queue).2 } := rfl
    refine ⟨_, _, rfl, ?_⟩
    simpa [DeferredOp.spoken] using Conserved.polls h hqueue hnext

/-- After every sequence of operations: markers answer requests one by one, every final stands
directly in front of its marker, and the segment texts, in arrival order, are each in one final,
in one discarded text, or still wait for the next marker. -/
theorem finals_conserved (ops : List DeferredOp) :
    ∃ d events, Machine.run step new ops = some (d, events) ∧
      markers (polled events ++ d.queue) + d.pending.length = requests ops ∧
      FinalsClosed (polled events ++ d.queue) ∧
      ∃ groups waiting, Grouped (spoken ops) groups waiting (finals (polled events ++ d.queue))
        (discarded events) ∧ d.segments = joined waiting ∧
        ∀ oldest rest, d.pending = oldest :: rest → waiting ≠ [] →
          d.answer.2.queue = d.queue ++
            [.output (.transcript (.finalText (joined waiting))), .output .finalizeDone] := by
  have hstart : new.Conserved [] [] :=
    ⟨by simp [spoken], rfl, trivial, [], [], ⟨rfl, by simp, List.Sublist.refl _, .refl _⟩, rfl⟩
  obtain ⟨d, events, hruns, hend⟩ :=
    Machine.run_total (I := Conserved) (fun _ _ _ op h => step_conserved h op) hstart ops
  obtain ⟨groups, waiting, hgrouped, hsegments⟩ := hend.grouped
  refine ⟨d, events, hruns, hend.marked, hend.closed, groups, waiting, hgrouped, hsegments, ?_⟩
  intro oldest rest hpending hsome
  have hwaiting : ∀ t ∈ waiting, t ≠ "" := fun t ht =>
    hend.someText t (hgrouped.texts ▸ List.mem_append_right _ ht)
  have hfull : ¬ d.segments.isEmpty = true := by
    rw [String.isEmpty_iff, hsegments, joined_eq_empty hwaiting]
    exact hsome
  unfold DeferredFinals.answer flush
  rw [hpending]
  dsimp only
  rw [if_neg hfull, ← hsegments]
  exact List.append_assoc _ _ _

end DeferredFinals

end NodeWebrtc.SttDeferred
