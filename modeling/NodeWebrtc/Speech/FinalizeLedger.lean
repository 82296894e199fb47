import NodeWebrtc.Lib.Trace
import NodeWebrtc.Speech.SttActor

/-! # The ledger of finalizes

What the actor's queue, its results and its provider's calls amount to, without clocks,
parked commands and the test delay. Every iteration of the actor is a walk of the ledger,
so what the ledger's few steps preserve holds of the actor.
-/

namespace NodeWebrtc.SttActor

def queuedMarkers (items : List PollItem) : Nat := items.count (.output .finalizeDone)

/-! ## The ledger -/


/-- The part of the actor its answers depend on. `queued` counts the markers the provider
holds. -/
structure Ledger where
  mode : Option FinalizeMode
  queued : Nat
  calls : List ProviderCall
  queue : List Outstanding
  gen : Nat
  produced : List SttResult

/-- What a ledger step shows: an utterance ended, with its request accepted or not; markers
the vendor queued; a start of the stream, which may forget open requests; an entry dropped
after its grace; an utterance closed at once, past waiting ones or not; a new provider. -/
inductive LedgerEvent where
  | ended (key : Nat) (accepted : Bool)
  | vendor (markers : Nat)
  | started (forgets : Bool) (markers : Nat)
  | dropped
  | closedAtOnce (overtakes : Bool)
  | swapped (markers : Nat)

namespace LedgerEvent

def endedKey? : LedgerEvent → Option Nat
  | .ended key _ => some key
  | _ => none

end LedgerEvent

def endedKeys (es : List LedgerEvent) : List Nat := es.filterMap LedgerEvent.endedKey?

/-- Results that neither close an utterance nor carry a transcript. -/
def SttResult.isAside : SttResult → Bool
  | .transcript _ _ _ => false
  | .finalizeDone _ _ _ => false
  | _ => true

namespace Ledger

def frontKeyGen (l : Ledger) : Option Nat × Nat :=
  match l.queue.head? with
  | some o => (some o.key, o.gen)
  | none => (none, l.gen)

def say (l : Ledger) (r : SttResult) : Ledger := { l with produced := l.produced ++ [r] }

def forward (l : Ledger) (fallbackKey : Option Nat) (t : SttTranscript) : Ledger :=
  l.say (.transcript (l.frontKeyGen.1.or fallbackKey) l.frontKeyGen.2 t)

def onMarker (l : Ledger) : Ledger :=
  match l.queue with
  | [] => l
  | done :: rest =>
    if done.timedOut then { l with queue := rest }
    else { l with queue := rest }.say (.finalizeDone done.key done.gen false)

def onOutput (l : Ledger) (fallbackKey : Option Nat) : SttOutput → Ledger
  | .transcript t => l.forward fallbackKey t
  | .finalizeDone => l.onMarker

def takePolled (l : Ledger) (items : List SttOutput) : Ledger :=
  { l with
    queued := l.queued - items.count .finalizeDone
    calls := l.calls ++ items.map .polled }

def drain (l : Ledger) (fallbackKey : Option Nat) (items : List SttOutput) : Ledger :=
  items.foldl (fun l o => l.onOutput fallbackKey o) (l.takePolled items)

end Ledger

inductive LedgerStep : Ledger → List LedgerEvent → Ledger → Prop
  | aside (l : Ledger) (r : SttResult) (haside : r.isAside) : LedgerStep l [] (l.say r)
  | pushed (l : Ledger) (t : SttTranscript) (hmode : l.mode = some .inlined) :
      LedgerStep l [] (l.forward none t)
  | drained (l : Ledger) (fallbackKey : Option Nat) (items : List SttOutput)
      (hfallback : fallbackKey.isSome → l.mode = some .inlined)
      (hheld : items.count .finalizeDone ≤ l.queued) :
      LedgerStep l [] (l.drain fallbackKey items)
  | restarted (l : Ledger) (now : Instant) (base : Nat) :
      LedgerStep l [] { l with queue := l.queue.map (Actor.restartWait now base) }
  | timedOut (l : Ledger) (old young : List Outstanding) (o : Outstanding) (now : Instant)
      (hqueue : l.queue = old ++ o :: young) (hold : ∀ x ∈ old, x.timedOut = true)
      (hwaits : o.timedOut = false) :
      LedgerStep l [] ({ l with
        queue := old ++ { o with timedOut := true, timedOutAt := some now } :: young }.say
          (.finalizeDone o.key o.gen true))
  | dropped (l : Ledger) (o : Outstanding) (rest : List Outstanding)
      (hqueue : l.queue = o :: rest) (hlate : o.timedOutAt.isSome) :
      LedgerStep l [.dropped] { l with queue := rest }
  | vendor (l : Ledger) (markers : Nat) :
      LedgerStep l [.vendor markers] { l with queued := l.queued + markers }
  | started (l : Ledger) (clears : Bool) (markers : Nat) :
      LedgerStep l [.started (clears && !l.queue.isEmpty) markers]
        { l with queued := (if clears then 0 else l.queued) + markers }
  | ended (l : Ledger) (o : Outstanding) (accepted : Bool) (hwaits : o.timedOut = false)
      (hnever : o.timedOutAt = none) (hgen : o.gen = l.gen)
      (hmode : l.mode = some (if accepted then .deferred else .inlined)) :
      LedgerStep l [.ended o.key accepted] { l with
        queue := l.queue ++ [o]
        calls := l.calls ++ if accepted then [.requested o.key] else [] }
  | answered (l : Ledger) (key : Nat) (late : Bool) :
      LedgerStep l [.ended key false, .closedAtOnce (l.queue.any fun x => !x.timedOut)]
        (l.say (.finalizeDone key l.gen late))
  | closedAtOnce (l : Ledger) (q : List Outstanding) (o : Outstanding) (late : Bool)
      (hqueue : l.queue = q ++ [o]) (hwaits : o.timedOut = false) :
      LedgerStep l [.closedAtOnce (q.any fun x => !x.timedOut)]
        ({ l with queue := q }.say (.finalizeDone o.key o.gen late))
  | swapped (l : Ledger) (mode : FinalizeMode) (markers : Nat)
      (hdone : ∀ o ∈ l.queue, o.timedOut = true) :
      LedgerStep l [.swapped markers] { l with
        mode := some mode
        queued := markers
        calls := []
        queue := []
        gen := l.gen + 1 }

namespace Ledger

theorem onOutput_frame (l : Ledger) (fallbackKey : Option Nat) (o : SttOutput) :
    (l.onOutput fallbackKey o).mode = l.mode ∧ (l.onOutput fallbackKey o).queued = l.queued ∧
      (l.onOutput fallbackKey o).calls = l.calls ∧ (l.onOutput fallbackKey o).gen = l.gen := by
  cases o with
  | transcript t => exact ⟨rfl, rfl, rfl, rfl⟩
  | finalizeDone =>
    unfold onOutput onMarker
    dsimp only
    split
    · exact ⟨rfl, rfl, rfl, rfl⟩
    · split <;> exact ⟨rfl, rfl, rfl, rfl⟩

theorem foldl_onOutput_frame (l : Ledger) (fallbackKey : Option Nat) (items : List SttOutput) :
    (items.foldl (fun l o => l.onOutput fallbackKey o) l).mode = l.mode ∧
      (items.foldl (fun l o => l.onOutput fallbackKey o) l).queued = l.queued ∧
      (items.foldl (fun l o => l.onOutput fallbackKey o) l).calls = l.calls ∧
      (items.foldl (fun l o => l.onOutput fallbackKey o) l).gen = l.gen := by
  induction items generalizing l with
  | nil => exact ⟨rfl, rfl, rfl, rfl⟩
  | cons o items ih =>
    obtain ⟨hmode, hqueued, hcalls, hgen⟩ := l.onOutput_frame fallbackKey o
    obtain ⟨hmode', hqueued', hcalls', hgen'⟩ := ih (l.onOutput fallbackKey o)
    exact ⟨hmode'.trans hmode, hqueued'.trans hqueued, hcalls'.trans hcalls, hgen'.trans hgen⟩

end Ledger

theorem LedgerStep.mode {l m : Ledger} {es : List LedgerEvent} (h : LedgerStep l es m)
    (hes : ∀ k, .swapped k ∉ es) : m.mode = l.mode := by
  cases h with
  | drained fallbackKey items _ _ =>
    exact ((l.takePolled items).foldl_onOutput_frame fallbackKey items).1
  | swapped mode markers _ => exact absurd List.mem_cons_self (hes markers)
  | aside | pushed | restarted | timedOut | dropped | vendor | started | ended | answered | closedAtOnce => rfl

theorem Steps.ledger_mode {l m : Ledger} {es : List LedgerEvent} (h : Steps LedgerStep l es m)
    (hes : ∀ k, .swapped k ∉ es) : m.mode = l.mode := by
  induction h with
  | refl => rfl
  | snoc _ hs ih =>
    have hprior := ih fun k hk => hes k (List.mem_append_left _ hk)
    have hlast := hs.mode fun k hk => hes k (List.mem_append_right _ hk)
    exact hlast.trans hprior

/-! ## The ledger of an actor -/

namespace Actor

/-- Everything the actor produced: sent, or held back by the test delay. -/
def produced (a : Actor) : List SttResult := a.results ++ a.delayed.map Prod.snd

def ledger (a : Actor) : Ledger where
  mode := a.provider.map SttProvider.finalizeMode
  queued := queuedMarkers ((a.provider.map SttProvider.outputs).getD [])
  calls := (a.provider.map SttProvider.calls).getD []
  queue := a.outstanding
  gen := a.gen
  produced := a.produced

/-- Without a test delay nothing is held back; only an inline provider leaves a late key, and
it holds no marker. -/
structure Sound (a : Actor) : Prop where
  prompt : a.testFinalDelayMs = 0 → a.delayed = []
  late : a.inlineLateKey.isSome → a.ledger.mode = some .inlined
  quiet : a.ledger.mode = some .inlined → a.ledger.queued = 0

/-- What `emit` and the queue operations leave alone. -/
structure Frame (a b : Actor) : Prop where
  provider : b.provider = a.provider
  gen : b.gen = a.gen
  lateKey : b.inlineLateKey = a.inlineLateKey
  delay : b.testFinalDelayMs = a.testFinalDelayMs

/-- `b` comes from `a` by a walk of the ledger that shows `es`. -/
structure Refines (a : Actor) (es : List LedgerEvent) (b : Actor) : Prop where
  walk : Steps LedgerStep a.ledger es b.ledger
  sound : b.Sound

variable {a b : Actor} {es : List LedgerEvent}

theorem Refines.trans {c : Actor} {es' : List LedgerEvent} (h : a.Refines es b)
    (h' : b.Refines es' c) : a.Refines (es ++ es') c :=
  ⟨h.walk.trans h'.walk, h'.sound⟩

theorem Refines.unseen (hledger : b.ledger = a.ledger) (hsound : b.Sound) : a.Refines [] b := by
  refine ⟨?_, hsound⟩
  rw [hledger]
  exact .refl _

theorem Sound.frame (h : a.Sound) (hframe : a.Frame b)
    (hprompt : b.testFinalDelayMs = 0 → b.delayed = []) : b.Sound := by
  have hmode : b.ledger.mode = a.ledger.mode := by
    unfold ledger
    rw [hframe.provider]
  have hqueued : b.ledger.queued = a.ledger.queued := by
    unfold ledger
    rw [hframe.provider]
  refine ⟨hprompt, ?_, ?_⟩
  · rw [hframe.lateKey, hmode]
    exact h.late
  · rw [hmode, hqueued]
    exact h.quiet

/-! ### Results -/

theorem emit_frame (a : Actor) (now : Instant) (r : SttResult) : a.Frame (a.emit now r) := by
  unfold emit
  split <;> exact ⟨rfl, rfl, rfl, rfl⟩

theorem emit_outstanding (a : Actor) (now : Instant) (r : SttResult) :
    (a.emit now r).outstanding = a.outstanding := by
  unfold emit
  split <;> rfl

section

variable (h : a.Sound)
include h

variable (now : Instant)

theorem emit_produced (r : SttResult) : (a.emit now r).produced = a.produced ++ [r] := by
  unfold emit produced
  by_cases hdelay : a.testFinalDelayMs = 0
  · rw [if_pos hdelay]
    simp [h.prompt hdelay]
  · rw [if_neg hdelay]
    simp

theorem emit_ledger (r : SttResult) : (a.emit now r).ledger = a.ledger.say r := by
  have hframe := a.emit_frame now r
  unfold ledger Ledger.say
  rw [hframe.provider, hframe.gen, emit_outstanding, emit_produced h]

theorem Sound.emit (r : SttResult) : (a.emit now r).Sound := by
  refine h.frame (a.emit_frame now r) ?_
  unfold Actor.emit
  by_cases hdelay : a.testFinalDelayMs = 0
  · rw [if_pos hdelay]
    exact fun _ => h.prompt hdelay
  · rw [if_neg hdelay]
    exact fun hzero => absurd hzero hdelay

theorem emit_aside {r : SttResult} (hr : r.isAside) : a.Refines [] (a.emit now r) := by
  refine ⟨?_, h.emit now r⟩
  rw [emit_ledger h]
  exact .single (.aside _ r hr)

theorem emitVendorError_refines (key : Option Nat) (message : String) :
    a.Refines [] (a.emitVendorError now key message) := emit_aside h now rfl

theorem releaseDue_refines : a.Refines [] (a.releaseDue now) := by
  refine .unseen ?_ (h.frame ⟨rfl, rfl, rfl, rfl⟩ fun hzero => ?_)
  · unfold ledger produced releaseDue
    simp only [List.append_assoc, ← List.map_append, List.takeWhile_append_dropWhile]
  · unfold releaseDue
    rw [h.prompt hzero]
    rfl

/-! ### Outputs -/

variable (fallbackKey : Option Nat)

theorem emitTranscript_ledger (t : SttTranscript) :
    (a.emitTranscript now fallbackKey t).ledger = a.ledger.forward fallbackKey t :=
  emit_ledger h now _

theorem Sound.withQueue (q : List Outstanding) : Sound { a with outstanding := q } :=
  h.frame ⟨rfl, rfl, rfl, rfl⟩ h.prompt

theorem onMarker_ledger : (a.onMarker now).ledger = a.ledger.onMarker ∧ (a.onMarker now).Sound := by
  unfold onMarker Ledger.onMarker
  have hqueue : a.ledger.queue = a.outstanding := rfl
  rw [hqueue]
  cases hq : a.outstanding with
  | nil => exact ⟨rfl, h⟩
  | cons done rest =>
    dsimp only
    by_cases hlate : done.timedOut = true
    · rw [if_pos hlate, if_pos hlate]
      exact ⟨rfl, h.withQueue rest⟩
    · rw [if_neg hlate, if_neg hlate]
      have hrest := h.withQueue rest
      exact ⟨emit_ledger hrest now _, hrest.emit now _⟩

theorem onOutput_ledger (o : SttOutput) :
    (a.onOutput now fallbackKey o).ledger = a.ledger.onOutput fallbackKey o ∧
      (a.onOutput now fallbackKey o).Sound := by
  cases o with
  | transcript t => exact ⟨emitTranscript_ledger h now fallbackKey t, h.emit now _⟩
  | finalizeDone => exact onMarker_ledger h now

theorem foldl_onOutput_ledger (items : List SttOutput) :
    (items.foldl (fun s o => s.onOutput now fallbackKey o) a).ledger =
        items.foldl (fun l o => l.onOutput fallbackKey o) a.ledger ∧
      (items.foldl (fun s o => s.onOutput now fallbackKey o) a).Sound := by
  induction items generalizing a with
  | nil => exact ⟨rfl, h⟩
  | cons o items ih =>
    obtain ⟨hledger, hsound⟩ := onOutput_ledger h now fallbackKey o
    obtain ⟨hrest, hsound'⟩ := ih hsound
    rw [List.foldl_cons, List.foldl_cons]
    refine ⟨?_, hsound'⟩
    rw [hrest, hledger]

end

theorem pollAll_markers (outputs : List PollItem) :
    queuedMarkers outputs =
      (pollAll outputs).1.count .finalizeDone + queuedMarkers (pollAll outputs).2.2 := by
  induction outputs with
  | nil => rfl
  | cons item rest ih =>
    unfold queuedMarkers at ih ⊢
    cases item with
    | error message => simp [pollAll]
    | output o =>
      cases o with
      | transcript t => simpa [pollAll] using ih
      | finalizeDone =>
        simp only [pollAll, List.count_cons, beq_self_eq_true]
        omega

theorem takePolled_ledger (a : Actor) (now : Instant) :
    (a.takePolled now (pollAll ((a.provider.map SttProvider.outputs).getD [])).1
        (pollAll ((a.provider.map SttProvider.outputs).getD [])).2.2).ledger =
      a.ledger.takePolled (pollAll ((a.provider.map SttProvider.outputs).getD [])).1 := by
  unfold takePolled ledger Ledger.takePolled
  cases a.provider with
  | none => rfl
  | some p =>
    have hmarkers := pollAll_markers p.outputs
    simp only [Option.map_some, Option.getD_some, Ledger.mk.injEq, true_and]
    refine ⟨?_, rfl⟩
    omega

theorem drainOutputs_refines (h : a.Sound) (now : Instant) (fallbackKey : Option Nat)
    (hfallback : fallbackKey.isSome → a.ledger.mode = some .inlined) :
    a.Refines [] (a.drainOutputs now fallbackKey) := by
  have hmarkers := pollAll_markers ((a.provider.map SttProvider.outputs).getD [])
  have htaken := a.takePolled_ledger now
  unfold drainOutputs
  revert hmarkers htaken
  rcases pollAll ((a.provider.map SttProvider.outputs).getD []) with ⟨items, error, left⟩
  intro hmarkers htaken
  dsimp only at hmarkers htaken ⊢
  have hheld : items.count .finalizeDone ≤ a.ledger.queued := by
    show _ ≤ queuedMarkers ((a.provider.map SttProvider.outputs).getD [])
    omega
  have hsound : (a.takePolled now items left).Sound := by
    refine ⟨h.prompt, ?_, ?_⟩ <;> rw [htaken]
    · exact h.late
    · intro hmode
      have hzero := h.quiet hmode
      unfold Ledger.takePolled
      dsimp only
      omega
  obtain ⟨hledger, hdrained⟩ := foldl_onOutput_ledger hsound now fallbackKey items
  have hwalk : a.Refines [] (items.foldl (fun s o => s.onOutput now fallbackKey o)
      (a.takePolled now items left)) := by
    refine ⟨?_, hdrained⟩
    rw [hledger, htaken]
    exact .single (.drained _ fallbackKey items hfallback hheld)
  cases error with
  | none => exact hwalk
  | some message => exact hwalk.trans (emit_aside hdrained now rfl)

/-! ### The vendor -/

/-- The markers a move adds, when there is a provider. -/
def marks (mode : Option FinalizeMode) (m : VendorMove) : Nat :=
  if mode.isSome then queuedMarkers m.outputs else 0

theorem queuedMarkers_append (xs ys : List PollItem) :
    queuedMarkers (xs ++ ys) = queuedMarkers xs + queuedMarkers ys := List.count_append

theorem vendorMoves_ledger (a : Actor) (m : VendorMove) :
    (a.vendorMoves m).ledger = { a.ledger with queued := a.ledger.queued + marks a.ledger.mode m } := by
  unfold vendorMoves ledger marks
  cases a.provider with
  | none => rfl
  | some p => simp [SttProvider.moves, queuedMarkers_append, produced]

theorem vendorMoves_refines (h : a.Sound) (m : VendorMove)
    (hquiet : a.ledger.mode = some .inlined → marks a.ledger.mode m = 0) :
    a.Refines [.vendor (marks a.ledger.mode m)] (a.vendorMoves m) := by
  have hledger := a.vendorMoves_ledger m
  refine ⟨?_, h.prompt, ?_, ?_⟩ <;> rw [hledger]
  · exact .single (.vendor _ _)
  · exact h.late
  · intro hmode
    have hzero := h.quiet hmode
    have hnone := hquiet hmode
    dsimp only
    omega

theorem startProvider_ledger (a : Actor) (reply : VendorReply) :
    (a.startProvider reply).ledger =
      { a.ledger with
        queued := (if reply.clears then 0 else a.ledger.queued) + marks a.ledger.mode reply.move } := by
  unfold startProvider ledger marks
  cases a.provider with
  | none =>
    simp only [Option.map_none, Option.getD_none, queuedMarkers, List.count_nil, ite_self]
    rfl
  | some p =>
    cases hclears : reply.clears <;> simp [SttProvider.starts, produced, hclears, queuedMarkers]

theorem startProvider_refines (h : a.Sound) (reply : VendorReply)
    (hquiet : a.ledger.mode = some .inlined → marks a.ledger.mode reply.move = 0) :
    a.Refines [.started (reply.clears && !a.outstanding.isEmpty) (marks a.ledger.mode reply.move)]
      (a.startProvider reply) := by
  have hledger := a.startProvider_ledger reply
  refine ⟨?_, h.prompt, ?_, ?_⟩ <;> rw [hledger]
  · exact .single (.started _ _ _)
  · exact h.late
  · intro hmode
    have hzero := h.quiet hmode
    have hnone := hquiet hmode
    dsimp only
    split <;> omega

/-! ### Deadlines -/

theorem observeOpenTransition_refines (h : a.Sound) (now : Instant) :
    a.Refines [] (a.observeOpenTransition now) := by
  have hsound : (a.observeOpenTransition now).Sound := h.frame ⟨rfl, rfl, rfl, rfl⟩ h.prompt
  refine ⟨?_, hsound⟩
  by_cases hflip : (a.lastOpenPending && !a.openPending) = true
  · cases hp : a.provider with
    | none =>
      have hsame : (a.observeOpenTransition now).ledger = a.ledger := by
        unfold observeOpenTransition ledger produced
        rw [hp]
      rw [hsame]
      exact .refl _
    | some p =>
      have hmap : (a.observeOpenTransition now).ledger =
          { a.ledger with
            queue := a.ledger.queue.map (restartWait now p.view.finalizeWaitMs) } := by
        unfold observeOpenTransition ledger produced
        rw [hp]
        dsimp only
        rw [if_pos hflip]
      rw [hmap]
      exact .single (.restarted _ now _)
  · have hsame : (a.observeOpenTransition now).ledger = a.ledger := by
      unfold observeOpenTransition ledger produced
      cases hp : a.provider with
      | none => rfl
      | some p =>
        dsimp only
        rw [if_neg hflip]
    rw [hsame]
    exact .refl _

def GraceLeft (now : Instant) (q : List Outstanding) : Prop :=
  ∀ o ∈ q.head?, ∀ at' ∈ graceExpiryOf o, now < at'

theorem dropUnanswered_walk (now : Instant) (l : Ledger) (q : List Outstanding) :
    ∃ n, Steps LedgerStep { l with queue := q } (List.replicate n .dropped)
        { l with queue := dropUnanswered now q } ∧
      (GraceLeft now q → n = 0) := by
  induction q with
  | nil => exact ⟨0, .refl _, fun _ => rfl⟩
  | cons o rest ih =>
    unfold dropUnanswered
    rw [List.dropWhile_cons]
    by_cases hgone : ((graceExpiryOf o).any fun at' => decide (at' ≤ now)) = true
    · rw [if_pos hgone]
      obtain ⟨n, hwalk, -⟩ := ih
      obtain ⟨at', hat, hle⟩ := (Option.any_eq_true ..).mp hgone
      have hlate : o.timedOutAt.isSome := by
        unfold graceExpiryOf at hat
        rw [← Option.isSome_map, hat]
        rfl
      have hdrop : Steps LedgerStep { l with queue := o :: rest } [.dropped]
          { l with queue := rest } := .single (.dropped _ o rest rfl hlate)
      refine ⟨n + 1, ?_, fun hleft => ?_⟩
      · exact hdrop.trans hwalk
      · have hlt := hleft o rfl at' hat
        have hnot := of_decide_eq_true hle
        exact absurd hlt (Nat.not_lt.mpr hnot)
    · rw [if_neg hgone]
      exact ⟨0, .refl _, fun _ => rfl⟩

theorem expireWaiting_walk (a : Actor) (now : Instant) (q old : List Outstanding) (l : Ledger)
    (hold : ∀ x ∈ old, x.timedOut = true) :
    Steps LedgerStep { l with queue := old ++ q } [] { l with
      queue := old ++ (a.expireWaiting now q).1
      produced := l.produced ++
        (a.expireWaiting now q).2.map fun o => .finalizeDone o.key o.gen true } := by
  induction q generalizing old l with
  | nil =>
    simp only [expireWaiting, List.map_nil, List.append_nil]
    exact .refl _
  | cons o rest ih =>
    unfold expireWaiting
    by_cases hlate : o.timedOut = true
    · rw [if_pos hlate]
      have hnext := ih (old ++ [o]) l (by simpa [or_imp, forall_and, hlate] using hold)
      simpa only [List.append_assoc, List.singleton_append] using hnext
    · rw [if_neg hlate]
      by_cases hahead : a.deadlineOf o > now
      · rw [if_pos hahead, List.map_nil, List.append_nil]
        exact .refl _
      · rw [if_neg hahead]
        have hwaits : o.timedOut = false := Bool.eq_false_iff.mpr hlate
        have hmark := Steps.single (LedgerStep.timedOut { l with queue := old ++ o :: rest }
          old rest o now rfl hold hwaits)
        have hnext := ih (old ++ [{ o with timedOut := true, timedOutAt := some now }])
          (l.say (.finalizeDone o.key o.gen true)) (by simpa [or_imp, forall_and] using hold)
        simp only [List.append_assoc] at hnext
        have hboth := hmark.silent hnext
        simpa [Ledger.say] using hboth

theorem foldl_emit (h : a.Sound) (now : Instant) (f : Outstanding → SttResult)
    (xs : List Outstanding) :
    (xs.foldl (fun s o => s.emit now (f o)) a).ledger =
        { a.ledger with produced := a.ledger.produced ++ xs.map f } ∧
      (xs.foldl (fun s o => s.emit now (f o)) a).Sound := by
  induction xs generalizing a with
  | nil =>
    rw [List.map_nil, List.append_nil]
    exact ⟨rfl, h⟩
  | cons x xs ih =>
    obtain ⟨hledger, hsound⟩ := ih (h.emit now (f x))
    rw [List.foldl_cons]
    refine ⟨?_, hsound⟩
    rw [hledger, emit_ledger h]
    simp [Ledger.say]

theorem restartWait_same (now : Instant) (base : Nat) (o : Outstanding) :
    (restartWait now base o).key = o.key ∧ (restartWait now base o).timedOut = o.timedOut ∧
      (restartWait now base o).gen = o.gen ∧ (restartWait now base o).timedOutAt = o.timedOutAt := by
  unfold restartWait
  split <;> exact ⟨rfl, rfl, rfl, rfl⟩

theorem GraceLeft.observe {now : Instant} (h : GraceLeft now a.outstanding) (at' : Instant) :
    GraceLeft now (a.observeOpenTransition at').outstanding := by
  unfold observeOpenTransition
  split
  · split
    · intro o ho
      rw [List.head?_map, Option.mem_def, Option.map_eq_some_iff] at ho
      obtain ⟨o', ho', rfl⟩ := ho
      unfold graceExpiryOf
      rw [(restartWait_same ..).2.2.2]
      exact h o' ho'
    · exact h
  · exact h

theorem expireDeadlines_refines (h : a.Sound) (now : Instant) :
    ∃ n, a.Refines (List.replicate n .dropped) (a.expireDeadlines now) ∧
      (GraceLeft now a.outstanding → n = 0) := by
  have hseen := observeOpenTransition_refines h now
  have hleft := fun hgrace : GraceLeft now a.outstanding => hgrace.observe (a := a) now
  unfold expireDeadlines
  revert hseen hleft
  generalize a.observeOpenTransition now = b
  intro hseen hleft
  obtain ⟨n, hdrop, hnone⟩ := dropUnanswered_walk now b.ledger b.outstanding
  have hexpire := expireWaiting_walk b now (dropUnanswered now b.outstanding) [] b.ledger (by simp)
  obtain ⟨hledger, hsound⟩ := foldl_emit
    (hseen.sound.withQueue (b.expireWaiting now (dropUnanswered now b.outstanding)).1) now
    (fun o => .finalizeDone o.key o.gen true)
    (b.expireWaiting now (dropUnanswered now b.outstanding)).2
  refine ⟨n, ⟨?_, hsound⟩, fun hgrace => hnone (hleft hgrace)⟩
  have hwalk := (hseen.walk.silent hdrop).thenSilent hexpire
  rw [hledger]
  exact hwalk

/-! ### Commands -/

theorem Refines.mode (h : a.Refines es b) (hes : ∀ k, .swapped k ∉ es) :
    b.ledger.mode = a.ledger.mode :=
  Steps.ledger_mode h.walk hes

theorem Refines.silentMode (h : a.Refines [] b) : b.ledger.mode = a.ledger.mode :=
  h.mode (by simp)

theorem foldl_onOutput_outstanding (now : Instant) (fallbackKey : Option Nat)
    (items : List SttOutput) (a : Actor)
    (h : a.outstanding = [] ∨ .finalizeDone ∉ items) :
    (items.foldl (fun s o => s.onOutput now fallbackKey o) a).outstanding = a.outstanding := by
  induction items generalizing a with
  | nil => rfl
  | cons o items ih =>
    have hhead : (a.onOutput now fallbackKey o).outstanding = a.outstanding := by
      cases o with
      | transcript t => exact emit_outstanding ..
      | finalizeDone =>
        rcases h with h | h
        · unfold onOutput onMarker
          rw [h]
          exact h
        · exact absurd List.mem_cons_self h
    have hnext : (a.onOutput now fallbackKey o).outstanding = [] ∨ .finalizeDone ∉ items := by
      rcases h with h | h
      · exact .inl (hhead.trans h)
      · exact .inr fun hmem => h (List.mem_cons_of_mem o hmem)
    exact (ih _ hnext).trans hhead

theorem drainOutputs_outstanding (a : Actor) (now : Instant) (fallbackKey : Option Nat)
    (h : a.outstanding = [] ∨ a.ledger.queued = 0) :
    (a.drainOutputs now fallbackKey).outstanding = a.outstanding := by
  have hmarkers := pollAll_markers ((a.provider.map SttProvider.outputs).getD [])
  have hqueued : a.ledger.queued = queuedMarkers ((a.provider.map SttProvider.outputs).getD []) := rfl
  unfold drainOutputs
  revert hmarkers
  rcases pollAll ((a.provider.map SttProvider.outputs).getD []) with ⟨items, error, left⟩
  intro hmarkers
  dsimp only at hmarkers ⊢
  have hnone : (a.takePolled now items left).outstanding = [] ∨ .finalizeDone ∉ items := by
    rcases h with h | h
    · exact .inl h
    · refine .inr (List.count_eq_zero.mp ?_)
      omega
  have hkept := foldl_onOutput_outstanding now fallbackKey items (a.takePolled now items left) hnone
  cases error with
  | none => exact hkept
  | some message => exact (emit_outstanding ..).trans hkept

theorem reopenDeadStream_refines (h : a.Sound) (now : Instant) (opened : VendorReply)
    (hquiet : a.ledger.mode = some .inlined → marks a.ledger.mode opened.move = 0) :
    a.Refines (if a.mustReopen now then [.started false (marks a.ledger.mode opened.move)] else [])
      (a.reopenDeadStream now opened) := by
  unfold reopenDeadStream
  by_cases hmust : a.mustReopen now = true
  · rw [if_pos hmust, if_pos hmust]
    have hempty : a.outstanding = [] := by
      unfold mustReopen at hmust
      simp only [Bool.and_eq_true, List.isEmpty_iff] at hmust
      exact hmust.1.2
    have hdrain := drainOutputs_refines h now none (by simp)
    have hqueue := (a.drainOutputs_outstanding now none (.inl hempty)).trans hempty
    have hmode := hdrain.silentMode
    have hstart := startProvider_refines hdrain.sound opened (by rw [hmode]; exact hquiet)
    rw [hqueue, hmode, List.isEmpty_nil, Bool.not_true, Bool.and_false] at hstart
    have hopen := hdrain.trans hstart
    generalize (a.drainOutputs now none).startProvider opened = b at hopen
    cases startError opened.result with
    | none =>
      have hclear : b.Refines [] { b with reopenNotBefore := none } :=
        .unseen rfl (hopen.sound.frame ⟨rfl, rfl, rfl, rfl⟩ hopen.sound.prompt)
      have hstatus := observeOpenTransition_refines hclear.sound opened.answeredAt
      exact hopen.trans (hclear.trans hstatus)
    | some message =>
      have hblock : b.Refines [] (b.blockReopen opened.answeredAt) :=
        .unseen rfl (hopen.sound.frame ⟨rfl, rfl, rfl, rfl⟩ hopen.sound.prompt)
      have hsaid := emit_aside hblock.sound opened.answeredAt
        (r := .vendorError none (b.blockReopen opened.answeredAt).gen message) rfl
      have hstatus := observeOpenTransition_refines hsaid.sound opened.answeredAt
      exact hopen.trans (hblock.trans (hsaid.trans hstatus))
  · rw [if_neg hmust, if_neg hmust]
    exact .unseen rfl h

theorem drainInlineLate_refines (h : a.Sound) (now : Instant) :
    a.Refines [] (a.drainInlineLate now) := by
  unfold drainInlineLate
  cases hkey : a.inlineLateKey with
  | none => exact .unseen rfl h
  | some key =>
    have hlate := h.late (by rw [hkey]; rfl)
    have hcleared : Sound { a with inlineLateKey := none } :=
      ⟨h.prompt, fun hsome => absurd hsome (by simp), h.quiet⟩
    have hdrain := drainOutputs_refines hcleared now (some key) fun _ => hlate
    exact ⟨hdrain.walk, hdrain.sound⟩

theorem foldl_emitTranscript_refines (h : a.Sound) (hmode : a.ledger.mode = some .inlined)
    (now : Instant) (ts : List SttTranscript) :
    a.Refines [] (ts.foldl (fun s t => s.emitTranscript now none t) a) := by
  induction ts generalizing a with
  | nil => exact .unseen rfl h
  | cons t ts ih =>
    have hfirst : a.Refines [] (a.emitTranscript now none t) := by
      refine ⟨?_, h.emit now _⟩
      rw [emitTranscript_ledger h]
      exact .single (.pushed _ t hmode)
    have hrest := ih hfirst.sound (hfirst.silentMode.trans hmode)
    exact hfirst.trans hrest

theorem pushAudio_refines (h : a.Sound) (pushed : VendorReply)
    (hquiet : a.ledger.mode = some .inlined → marks a.ledger.mode pushed.move = 0) :
    a.Refines [.vendor (marks a.ledger.mode pushed.move)] (a.pushAudio pushed) := by
  unfold pushAudio
  cases hp : a.provider with
  | none =>
    have hmode : a.ledger.mode = none := by
      unfold ledger
      rw [hp]
      rfl
    rw [hmode]
    exact ⟨.single (.vendor a.ledger 0), h⟩
  | some p =>
    have hmode : a.ledger.mode = some p.finalizeMode := by
      unfold ledger
      rw [hp]
      rfl
    have hmove := vendorMoves_refines h pushed.move hquiet
    have hmode' := (hmove.mode (by simp)).trans hmode
    dsimp only
    cases hkind : p.finalizeMode with
    | inlined =>
      rw [hkind] at hmode'
      have hpushed := foldl_emitTranscript_refines hmove.sound hmode' pushed.answeredAt
        pushed.transcripts
      apply hmove.trans
      apply hpushed.trans
      cases pushed.result with
      | err message => exact emit_aside hpushed.sound _ rfl
      | ok | elapsed => exact .unseen rfl hpushed.sound
    | deferred =>
      apply hmove.trans
      cases pushed.result with
      | err message =>
        have htold := emitVendorError_refines hmove.sound pushed.answeredAt none message
        exact htold.trans (drainOutputs_refines htold.sound pushed.answeredAt none (by simp))
      | ok | elapsed => exact drainOutputs_refines hmove.sound pushed.answeredAt none (by simp)

def hasWaiting (a : Actor) : Bool := a.outstanding.any fun o => !o.timedOut

def endEvents (a : Actor) (key : Nat) (reply : VendorReply) : List LedgerEvent :=
  match a.ledger.mode, reply.result with
  | none, _ => [.ended key false, .closedAtOnce a.hasWaiting]
  | some .deferred, .ok | some .deferred, .elapsed =>
    [.ended key true, .vendor (marks a.ledger.mode reply.move)]
  | some .deferred, .err _ | some .inlined, _ =>
    [.vendor (marks a.ledger.mode reply.move), .ended key false, .closedAtOnce a.hasWaiting]

theorem pushEntry_ledger (a : Actor) (o : Outstanding) :
    (a.pushEntry o).ledger = { a.ledger with queue := a.ledger.queue ++ [o] } := rfl

variable {p : SttProvider}

theorem noteRequest_ledger (hp : a.provider = some p) (key : Nat) :
    (a.noteRequest key).ledger =
      { a.ledger with calls := a.ledger.calls ++ [.requested key] } := by
  unfold noteRequest ledger
  rw [hp]
  rfl

theorem request_accepted_refines (h : a.Sound) (hp : a.provider = some p)
    (hmode : a.ledger.mode = some .deferred) (now : Instant) (key waitMs : Nat)
    (reply : VendorReply) :
    a.Refines [.ended key true, .vendor (marks a.ledger.mode reply.move)]
      ((((a.noteRequest key).vendorMoves reply.move).pushEntry
        (a.newEntry now key waitMs)).drainOutputs reply.answeredAt none) := by
  have hnoted := noteRequest_ledger hp key
  have hnotedSound : (a.noteRequest key).Sound := by
    refine ⟨h.prompt, ?_, ?_⟩ <;> rw [hnoted]
    · exact h.late
    · exact h.quiet
  have hmove := vendorMoves_ledger (a.noteRequest key) reply.move
  rw [hnoted] at hmove
  have hmoveSound := (vendorMoves_refines hnotedSound reply.move (by
    rw [hnoted, hmode]
    simp)).sound
  have hpush := pushEntry_ledger ((a.noteRequest key).vendorMoves reply.move)
  rw [hmove] at hpush
  have hpushSound := hmoveSound.withQueue
    (((a.noteRequest key).vendorMoves reply.move).outstanding ++ [a.newEntry now key waitMs])
  have hend := LedgerStep.ended a.ledger (a.newEntry now key waitMs) true rfl rfl rfl hmode
  have hvendor := LedgerStep.vendor { a.ledger with
    queue := a.ledger.queue ++ [a.newEntry now key waitMs]
    calls := a.ledger.calls ++ [.requested key] } (marks a.ledger.mode reply.move)
  have hasked : a.Refines [.ended key true, .vendor (marks a.ledger.mode reply.move)]
      (((a.noteRequest key).vendorMoves reply.move).pushEntry (a.newEntry now key waitMs)) := by
    refine ⟨?_, hpushSound⟩
    rw [hpush]
    exact (Steps.single hend).snoc hvendor
  have hdrain := drainOutputs_refines hasked.sound reply.answeredAt none (by simp)
  exact hasked.trans hdrain

theorem answered_refines (key : Nat) (late : Bool) (hb : a.Refines es b)
    (hqueue : b.outstanding = a.outstanding) (hgen : b.gen = a.gen) (at' : Instant) :
    a.Refines (es ++ [.ended key false, .closedAtOnce a.hasWaiting])
      (b.emit at' (.finalizeDone key a.gen late)) := by
  have hwalk := Steps.single (LedgerStep.answered b.ledger key late)
  have hsame : b.ledger.gen = a.gen := hgen
  have hwaiting : (b.ledger.queue.any fun x => !x.timedOut) = a.hasWaiting := by
    show (b.outstanding.any fun x => !x.timedOut) = _
    rw [hqueue]
    rfl
  rw [hwaiting, hsame] at hwalk
  refine ⟨?_, hb.sound.emit at' _⟩
  rw [emit_ledger hb.sound]
  exact hb.walk.trans hwalk

theorem popBack_pushEntry (a : Actor) (o : Outstanding) :
    (a.pushEntry o).popBack = a := by
  unfold pushEntry popBack
  rw [List.dropLast_concat]

theorem failAtOnce_refines (now : Instant) (key : Nat) (message : String) (hb : a.Refines es b)
    (hqueue : b.outstanding = a.outstanding) (hgen : b.gen = a.gen) (o : Outstanding) :
    a.Refines (es ++ [.ended key false, .closedAtOnce a.hasWaiting])
      ((b.pushEntry o).failAtOnce now key a.gen message) := by
  unfold failAtOnce
  rw [popBack_pushEntry]
  have htold := hb.trans (emit_aside hb.sound now (r := .vendorError (some key) b.gen message) rfl)
  have hanswered := answered_refines key false htold
    ((emit_outstanding ..).trans hqueue) ((emit_frame ..).gen.trans hgen) now
  rwa [List.append_nil] at hanswered

theorem requestFinalize_refines (h : a.Sound) (hp : a.provider = some p)
    (hmode : a.ledger.mode = some .deferred) (now : Instant) (key waitMs : Nat)
    (reply : VendorReply) :
    a.Refines (a.endEvents key reply) (a.requestFinalize now key waitMs reply) := by
  have haccepted := request_accepted_refines h hp hmode now key waitMs reply
  unfold requestFinalize endEvents
  rw [hmode] at haccepted ⊢
  cases reply.result with
  | ok | elapsed => exact haccepted
  | err message =>
    have hmove := vendorMoves_refines h reply.move (by
      rw [hmode]
      simp)
    rw [hmode] at hmove
    exact failAtOnce_refines reply.answeredAt key message hmove rfl rfl _

theorem closeAtOnce_refines (h : a.Sound) {q : List Outstanding} {o : Outstanding}
    (hqueue : a.outstanding = q ++ [o]) (hwaits : o.timedOut = false) (now : Instant) (late : Bool)
    :
    a.Refines [.closedAtOnce (q.any fun x => !x.timedOut)] (a.closeAtOnce now o.key o.gen late) := by
  have hpop : a.popBack = { a with outstanding := q } := by
    unfold popBack
    rw [hqueue, List.dropLast_concat]
  unfold closeAtOnce
  rw [hpop]
  refine ⟨?_, (h.withQueue q).emit now _⟩
  rw [emit_ledger (h.withQueue q)]
  exact .single (.closedAtOnce a.ledger q o late hqueue hwaits)

theorem inline_answer_refines (h : a.Sound) (hmode : a.ledger.mode = some .inlined) (now : Instant)
    (key waitMs : Nat) (at' : Instant) :
    a.Refines [.ended key false, .closedAtOnce a.hasWaiting]
      (((a.pushEntry (a.newEntry now key waitMs)).drainOutputs at' none).closeAtOnce at' key a.gen
        false) := by
  have hpushSound := h.withQueue (a.outstanding ++ [a.newEntry now key waitMs])
  have hpush : a.Refines [.ended key false] (a.pushEntry (a.newEntry now key waitMs)) := by
    refine ⟨?_, hpushSound⟩
    have hend := LedgerStep.ended a.ledger (a.newEntry now key waitMs) false rfl rfl rfl hmode
    simp only [Bool.false_eq_true, if_false, List.append_nil] at hend
    exact .single hend
  have hquiet : (a.pushEntry (a.newEntry now key waitMs)).ledger.queued = 0 := h.quiet hmode
  have hkept := drainOutputs_outstanding (a.pushEntry (a.newEntry now key waitMs)) at' none
    (.inr hquiet)
  have hdrain := drainOutputs_refines hpush.sound at' none (by simp)
  have hclose := closeAtOnce_refines hdrain.sound hkept rfl at' false
  exact hpush.trans (hdrain.trans hclose)

theorem finalizeUtterance_refines (h : a.Sound) (hmode : a.ledger.mode = some .inlined)
    (now : Instant) (key waitMs : Nat) (reply : VendorReply)
    (hquiet : marks a.ledger.mode reply.move = 0) :
    a.Refines (a.endEvents key reply) (a.finalizeUtterance now key waitMs reply) := by
  have hmove := vendorMoves_refines h reply.move fun _ => hquiet
  have hmode' := (hmove.mode (by simp)).trans hmode
  have hlabels : a.endEvents key reply = [.vendor (marks a.ledger.mode reply.move)] ++
      [.ended key false, .closedAtOnce a.hasWaiting] := by
    unfold endEvents
    rw [hmode]
    rfl
  have hkeyed : ∀ {b : Actor}, a.Refines (a.endEvents key reply) b →
      a.Refines (a.endEvents key reply) { b with inlineLateKey := some key } := by
    intro b hb
    have hinlined := (hb.mode (by rw [hlabels]; simp)).trans hmode
    exact ⟨hb.walk, hb.sound.prompt, fun _ => hinlined, hb.sound.quiet⟩
  refine hkeyed ?_
  rw [hlabels]
  cases reply.result with
  | ok => exact hmove.trans (inline_answer_refines hmove.sound hmode' now key waitMs reply.answeredAt)
  | elapsed =>
    unfold closeAtOnce
    rw [popBack_pushEntry]
    exact answered_refines key true hmove rfl rfl reply.answeredAt
  | err message => exact failAtOnce_refines reply.answeredAt key message hmove rfl rfl _

theorem onEndUtterance_refines (h : a.Sound) (now : Instant) (key : Nat) (reply : VendorReply)
    (hquiet : a.ledger.mode = some .inlined → marks a.ledger.mode reply.move = 0) :
    a.Refines (a.endEvents key reply) (a.onEndUtterance now key reply) := by
  have hworked : a.Refines [] (a.noteWork now) :=
    .unseen rfl (h.frame ⟨rfl, rfl, rfl, rfl⟩ h.prompt)
  unfold onEndUtterance
  cases hp : a.provider with
  | none =>
    have hmode : a.ledger.mode = none := by
      unfold ledger
      rw [hp]
      rfl
    unfold endEvents
    rw [hmode]
    exact answered_refines key false hworked rfl rfl now
  | some p =>
    have hmode : a.ledger.mode = some p.finalizeMode := by
      unfold ledger
      rw [hp]
      rfl
    dsimp only
    cases hkind : p.finalizeMode with rw [hkind] at hmode
    | deferred =>
      have hrequest := requestFinalize_refines hworked.sound hp hmode now key
        p.view.finalizeWaitMs reply
      exact hworked.trans hrequest
    | inlined =>
      have hfinalize := finalizeUtterance_refines hworked.sound hmode now key
        p.view.finalizeWaitMs reply (hquiet hmode)
      exact hworked.trans hfinalize

/-! ### One iteration -/

/-- What a branch of the loop shows, fired in the state `a`. -/
def ArmEvents (a : Actor) (arm : Arm) (es : List LedgerEvent) : Prop :=
  match arm with
  | .releaseDue _ => es = []
  | .expireDeadlines now => ∃ n, es = List.replicate n .dropped ∧
      (GraceLeft now a.outstanding → n = 0)
  | .command _ cmd opened reply =>
    match cmd with
    | .start => es = [.started (reply.clears && !a.outstanding.isEmpty)
        (marks a.ledger.mode reply.move)]
    | .audio => es = [.vendor (marks a.ledger.mode reply.move)] ∨
        es = [.started false (marks a.ledger.mode opened.move),
          .vendor (marks a.ledger.mode reply.move)]
    | .endUtterance key => es = a.endEvents key reply
    | .waitReady => es = [.vendor (marks a.ledger.mode reply.move)]
    | .swap _ _ | .barrier => es = []
  | .poll _ => es = []

/-- The moves of an inline provider in this branch hold no marker. -/
def ArmQuiet (a : Actor) (arm : Arm) : Prop :=
  match arm with
  | .command _ _ opened reply => a.ledger.mode = some .inlined →
      queuedMarkers opened.move.outputs = 0 ∧ queuedMarkers reply.move.outputs = 0
  | _ => True

theorem marks_eq_zero {mode : Option FinalizeMode} {m : VendorMove}
    (h : queuedMarkers m.outputs = 0) : marks mode m = 0 := by
  unfold marks
  rw [h, ite_self]

theorem onAudio_refines (h : a.Sound) (now : Instant) (opened pushed : VendorReply)
    (hquiet : a.ledger.mode = some .inlined →
      queuedMarkers opened.move.outputs = 0 ∧ queuedMarkers pushed.move.outputs = 0) :
    ∃ es, a.Refines es (a.onAudio now opened pushed) ∧
      (es = [.vendor (marks a.ledger.mode pushed.move)] ∨
        es = [.started false (marks a.ledger.mode opened.move),
          .vendor (marks a.ledger.mode pushed.move)]) := by
  have hworked : a.Refines [] (a.noteWork now) :=
    .unseen rfl (h.frame ⟨rfl, rfl, rfl, rfl⟩ h.prompt)
  have hopen := reopenDeadStream_refines hworked.sound now opened fun hmode =>
    marks_eq_zero (hquiet hmode).1
  have hmode : ((a.noteWork now).reopenDeadStream now opened).ledger.mode = a.ledger.mode := by
    refine (hopen.mode ?_).trans rfl
    split <;> simp
  have hlate := drainInlineLate_refines hopen.sound now
  have hpush := pushAudio_refines hlate.sound pushed fun hinlined =>
    marks_eq_zero (hquiet (hmode.symm.trans (hlate.silentMode.symm.trans hinlined))).2
  rw [hlate.silentMode, hmode] at hpush
  refine ⟨_, hworked.trans (hopen.trans (hlate.trans hpush)), ?_⟩
  by_cases hmust : (a.noteWork now).mustReopen now = true
  · rw [if_pos hmust]
    exact .inr rfl
  · rw [if_neg hmust]
    exact .inl rfl

theorem handleCommand_refines (h : a.Sound) (now : Instant) (cmd : SttCommand)
    (opened reply : VendorReply) (hquiet : a.ArmQuiet (.command now cmd opened reply)) :
    ∃ es, a.Refines es (a.handleCommand now opened reply cmd) ∧
      a.ArmEvents (.command now cmd opened reply) es := by
  have hreply : a.ledger.mode = some .inlined → marks a.ledger.mode reply.move = 0 :=
    fun hmode => marks_eq_zero (hquiet hmode).2
  have hparked : ∀ c : SttCommand, a.Refines [] { a with parked := some c } := fun c =>
    .unseen rfl (h.frame ⟨rfl, rfl, rfl, rfl⟩ h.prompt)
  cases cmd with
  | start => exact ⟨_, startProvider_refines h reply hreply, rfl⟩
  | audio => exact onAudio_refines h now opened reply hquiet
  | endUtterance key => exact ⟨_, onEndUtterance_refines h now key reply hreply, rfl⟩
  | waitReady => exact ⟨_, vendorMoves_refines h reply.move hreply, rfl⟩
  | swap | barrier => exact ⟨[], hparked _, rfl⟩

/-- Leftovers are drained first only when nothing is outstanding, so the branch shows the same
after that drain. -/
theorem ArmEvents.drained {now : Instant} {cmd : SttCommand} {opened reply : VendorReply}
    (hmode : b.ledger.mode = a.ledger.mode) (hqueue : b.outstanding = a.outstanding)
    (h : b.ArmEvents (.command now cmd opened reply) es) :
    a.ArmEvents (.command now cmd opened reply) es := by
  unfold ArmEvents endEvents hasWaiting at *
  rw [hmode, hqueue] at h
  exact h

theorem fire_refines (h : a.Sound) {hasDeadline busy : Bool} {arm : Arm}
    (hbusy : busy = false → a.outstanding = []) (hquiet : a.ArmQuiet arm)
    (hfire : a.fire hasDeadline busy arm = some b) :
    ∃ es, a.Refines es b ∧ a.ArmEvents arm es := by
  cases arm with unfold fire at hfire
  | releaseDue now =>
    dsimp only at hfire
    split at hfire
    · contradiction
    · cases hfire
      exact ⟨[], releaseDue_refines h now, rfl⟩
  | expireDeadlines now =>
    dsimp only at hfire
    split at hfire
    · cases hfire
      obtain ⟨n, hwalk, hnone⟩ := expireDeadlines_refines h now
      exact ⟨_, hwalk, n, rfl, hnone⟩
    · contradiction
  | command now cmd opened reply =>
    dsimp only at hfire
    split at hfire
    · contradiction
    · split at hfire
      · rename_i hidle
        cases hfire
        simp only [Bool.and_eq_true, Bool.not_eq_true'] at hidle
        have hempty := hbusy hidle.1.1
        have hdrain := drainOutputs_refines h now a.inlineLateKey h.late
        have hqueue := a.drainOutputs_outstanding now a.inlineLateKey (.inl hempty)
        have hquiet' : (a.drainOutputs now a.inlineLateKey).ArmQuiet
            (.command now cmd opened reply) := fun hmode =>
          hquiet (hdrain.silentMode.symm.trans hmode)
        obtain ⟨es, hwalk, hes⟩ := handleCommand_refines hdrain.sound now cmd opened reply hquiet'
        exact ⟨es, hdrain.trans hwalk, hes.drained hdrain.silentMode hqueue⟩
      · cases hfire
        exact handleCommand_refines h now cmd opened reply hquiet
  | poll now =>
    dsimp only at hfire
    split at hfire
    · cases hfire
      exact ⟨[], drainOutputs_refines h now a.inlineLateKey h.late, rfl⟩
    · contradiction

theorem applySwap_refines (h : a.Sound) (now : Instant) (config : SttConfig) (new : SttProvider)
    (hnew : new.calls = []) (hdone : ∀ o ∈ a.outstanding, o.timedOut = true)
    (hquiet : new.finalizeMode = .inlined → queuedMarkers new.outputs = 0) :
    a.Refines [.swapped (queuedMarkers new.outputs)] (a.applySwap now config new) := by
  have hswap := Steps.single
    (LedgerStep.swapped a.ledger new.finalizeMode (queuedMarkers new.outputs) hdone)
  have hswapped : Actor.Refines a [.swapped (queuedMarkers new.outputs)] { a with
      provider := some new
      gen := a.gen + 1
      outstanding := []
      inlineLateKey := none } := by
    refine ⟨?_, h.prompt, ?_, ?_⟩
    · unfold ledger at hswap ⊢
      simpa [hnew, produced] using hswap
    · intro hsome
      exact absurd hsome (by simp)
    · intro hmode
      exact hquiet (Option.some.inj hmode)
  exact hswapped.trans (emit_aside hswapped.sound now rfl)

/-- The move at the start of a new inline provider holds no marker. -/
def SwapReply.Quiet (reply : SwapReply) : Prop :=
  ∀ view, reply.created = .ok (.inlined, view) → queuedMarkers reply.started.move.outputs = 0

theorem runSwap_refines (h : a.Sound) (config : SttConfig) (running : Bool) (reply : SwapReply)
    (hquiet : reply.Quiet) (hdone : ∀ o ∈ a.outstanding, o.timedOut = true) :
    ∃ es, a.Refines es (a.runSwap config running reply) ∧
      (es = [] ∨ ∃ k, es = [.swapped k] ∧ k ≤ queuedMarkers reply.started.move.outputs) := by
  unfold runSwap
  cases hcreated : reply.created with
  | error message => exact ⟨[], emit_aside h _ rfl, .inl rfl⟩
  | ok new =>
    obtain ⟨mode, view⟩ := new
    cases running with
    | false =>
      have hswap := applySwap_refines h reply.started.answeredAt config (.create mode view) rfl
        hdone fun _ => rfl
      exact ⟨_, hswap, .inr ⟨_, rfl, Nat.zero_le _⟩⟩
    | true =>
      cases startError reply.started.result with
      | some message => exact ⟨[], emit_aside h _ rfl, .inl rfl⟩
      | none =>
        have houtputs : ((SttProvider.create mode view).starts reply.started).outputs =
            reply.started.move.outputs := by
          simp [SttProvider.create, SttProvider.starts]
        have hswap := applySwap_refines h reply.started.answeredAt config
          ((SttProvider.create mode view).starts reply.started) rfl hdone (by
            intro hmode
            obtain rfl : mode = .inlined := hmode
            rw [houtputs]
            exact hquiet view hcreated)
        exact ⟨_, hswap, .inr ⟨_, rfl, Nat.le_of_eq (congrArg queuedMarkers houtputs)⟩⟩

theorem runParked_refines (h : a.Sound) (reply : SwapReply) (hquiet : reply.Quiet) :
    ∃ es, a.Refines es (a.runParked reply) ∧
      (es = [] ∨ ∃ k, es = [.swapped k] ∧ k ≤ queuedMarkers reply.started.move.outputs) := by
  have hfree : a.Refines [] { a with parked := none } :=
    .unseen rfl (h.frame ⟨rfl, rfl, rfl, rfl⟩ h.prompt)
  unfold runParked
  by_cases hwaits : (a.outstanding.any fun o => !o.timedOut) = true
  · rw [if_pos hwaits]
    exact ⟨[], .unseen rfl h, .inl rfl⟩
  · rw [if_neg hwaits]
    have hdone : ∀ o ∈ a.outstanding, o.timedOut = true := by simpa using hwaits
    cases a.parked with
    | none => exact ⟨[], .unseen rfl h, .inl rfl⟩
    | some cmd =>
      cases cmd with
      | barrier => exact ⟨[], hfree.trans (emit_aside hfree.sound _ rfl), .inl rfl⟩
      | swap config running =>
        obtain ⟨es, hswap, hes⟩ := runSwap_refines hfree.sound config running reply hquiet hdone
        exact ⟨es, hfree.trans hswap, hes⟩
      | start | audio | endUtterance key | waitReady => exact ⟨[], hfree, .inl rfl⟩

/-- No inline provider emits a marker in this iteration: its `poll_output` yields
transcripts only. -/
structure InlineQuiet (a : Actor) (it : Iteration) : Prop where
  before : a.ledger.mode = some .inlined → queuedMarkers it.before.outputs = 0
  meanwhile : a.ledger.mode = some .inlined → queuedMarkers it.meanwhile.outputs = 0
  arm : (a.armed it).ArmQuiet it.arm
  swap : it.swap.Quiet

theorem armed_refines (h : a.Sound) {it : Iteration} (hquiet : a.InlineQuiet it) :
    (a.Refines [.vendor (marks a.ledger.mode it.before)] (a.atHead it)) ∧
      (a.atHead it).Refines [.vendor (marks a.ledger.mode it.meanwhile)] (a.armed it) := by
  have hbefore := vendorMoves_refines h it.before fun hmode => marks_eq_zero (hquiet.before hmode)
  have hhead := hbefore.trans (observeOpenTransition_refines hbefore.sound it.headAt)
  have hmode : (a.atHead it).ledger.mode = a.ledger.mode := hhead.mode (by simp)
  have hmeanwhile := vendorMoves_refines hhead.sound it.meanwhile fun hinlined =>
    marks_eq_zero (hquiet.meanwhile (hmode.symm.trans hinlined))
  rw [show ((a.vendorMoves it.before).observeOpenTransition it.headAt).ledger.mode =
    a.ledger.mode from hmode] at hmeanwhile
  exact ⟨hhead, hmeanwhile⟩

/-- What one iteration shows: the vendor's moves, the branch, and a swap. -/
structure IterationEvents (a : Actor) (it : Iteration) (arm parked : List LedgerEvent) : Prop where
  arm : (a.armed it).ArmEvents it.arm arm
  parked : parked = [] ∨
    ∃ k, parked = [.swapped k] ∧ k ≤ queuedMarkers it.swap.started.move.outputs

def iterationLabels (a : Actor) (it : Iteration) (arm parked : List LedgerEvent) :
    List LedgerEvent :=
  [.vendor (marks a.ledger.mode it.before)] ++
    ([.vendor (marks a.ledger.mode it.meanwhile)] ++ (arm ++ parked))

theorem step_refines (h : a.Sound) {it : Iteration} (hquiet : a.InlineQuiet it)
    {out : List SttResult} (hs : step a it = some (b, out)) :
    ∃ arm parked, a.Refines (a.iterationLabels it arm parked) b ∧
      a.IterationEvents it arm parked := by
  obtain ⟨hhead, harmed⟩ := armed_refines h hquiet
  unfold step at hs
  rw [Option.map_eq_some_iff] at hs
  obtain ⟨fired, hfire, hb⟩ := hs
  cases hb
  have hbusy : (a.atHead it).busy it.headAt = false → (a.armed it).outstanding = [] := by
    intro hbusy
    unfold busy at hbusy
    simp only [Bool.or_eq_false_iff, Bool.not_eq_false', List.isEmpty_iff] at hbusy
    exact hbusy.1.1.1.1.1
  obtain ⟨arm, hwalk, harm⟩ := fire_refines harmed.sound hbusy hquiet.arm hfire
  obtain ⟨parked, hparked, hes⟩ := runParked_refines hwalk.sound it.swap hquiet.swap
  have hstatus := observeOpenTransition_refines hparked.sound it.doneAt
  refine ⟨arm, parked, ?_, harm, hes⟩
  have hlast := hparked.trans hstatus
  rw [List.append_nil] at hlast
  exact hhead.trans (harmed.trans (hwalk.trans hlast))

end Actor

end NodeWebrtc.SttActor
