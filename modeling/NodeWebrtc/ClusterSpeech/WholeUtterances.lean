import NodeWebrtc.ClusterSpeech.StreamWorker
import Mathlib.Data.List.Chain

/-! # Utterances stay whole

With one stream per utterance and streams that neither fail nor time out, every item the channel
took is handled in order: sent, or, for a finalize with no stream open, answered at once. An
utterance is whole when each of its audio chunks is followed on its stream by more of its audio
or by its finalize. The answer to a finalize closes the stream; that splits an utterance when the
replay of the carry has started the next one on it.
-/

namespace NodeWebrtc.ClusterSpeech

open Machine

/-! ## Items and placements -/

inductive Placed
  | audio (stream : Nat)
  | finalize (stream : Nat)
  | nothingOpen
  | idleClosed (stream : Nat)
  deriving DecidableEq, Repr

def placed : List Output → List Placed
  | [] => []
  | .request k (.audio _) :: os => .audio k :: placed os
  | .request k (.finalize _) :: os => .finalize k :: placed os
  | .nothingOpen _ :: os => .nothingOpen :: placed os
  | .idleClosed k :: os => .idleClosed k :: placed os
  | .request _ .start :: os | .request _ .stop :: os | .transcript _ :: os
  | .finalizeDone _ :: os => placed os

/-- After audio on a stream comes audio or a finalize on that stream. -/
def OnItsStream : Placed → Placed → Prop
  | .audio k, .audio k' => k' = k
  | .audio k, .finalize k' => k' = k
  | .audio _, .nothingOpen => False
  | .audio _, .idleClosed _ => False
  | _, _ => True

instance : DecidableRel OnItsStream
  | .audio k, .audio k' => inferInstanceAs (Decidable (k' = k))
  | .audio k, .finalize k' => inferInstanceAs (Decidable (k' = k))
  | .audio _, .nothingOpen => isFalse id
  | .audio _, .idleClosed _ => isFalse id
  | .finalize _, _ => isTrue trivial
  | .nothingOpen, _ => isTrue trivial
  | .idleClosed _, _ => isTrue trivial

/-- Audio stays on one stream up to its finalize, and no stream is closed for idle behind audio
that no finalize has ended. -/
def Whole (os : List Output) : Prop := (placed os).IsChain OnItsStream

instance (os : List Output) : Decidable (Whole os) :=
  inferInstanceAs (Decidable ((placed os).IsChain OnItsStream))

/-- The audio and finalize commands handled, in order. -/
def handled : List Output → List CarryItem
  | [] => []
  | .request _ (.audio pcm) :: os => .audio pcm :: handled os
  | .request _ (.finalize ticket) :: os => .finalize ticket :: handled os
  | .nothingOpen ticket :: os => .finalize ticket :: handled os
  | .request _ .start :: os | .request _ .stop :: os | .idleClosed _ :: os | .transcript _ :: os
  | .finalizeDone _ :: os => handled os

/-- The audio and finalize commands in the channel. -/
def StreamCommand.items : List StreamCommand → List CarryItem
  | [] => []
  | .audio pcm :: cmds => .audio pcm :: items cmds
  | .finalize ticket :: cmds => .finalize ticket :: items cmds
  | .stop :: cmds => items cmds

/-- The audio and finalize commands sent, finalizes numbered from `n`. -/
def sentItems (n : Nat) : List Input → List CarryItem
  | [] => []
  | .send (.audio pcm) :: is => .audio pcm :: sentItems n is
  | .send .finalize :: is => .finalize n :: sentItems (n + 1) is
  | _ :: is => sentItems n is

/-- Commands and server answers, with no stop, stream failure, relocate or timeout. An open may
be refused or time out; it is tried again. -/
def Input.calm : Input → Bool
  | .send .stop | .answer .relocate | .answer (.error _ _) | .answer .endOfStream
  | .answer (.status _) | .readyTimeout | .idleTimeout => false
  | .connected ok | .replay ok | .receive ok => ok
  | _ => true

/-- The answer to the last pending finalize closes the stream for carried items, and audio was
sent on the stream after that finalize. -/
def Worker.splits (w : Worker) (i : Input) : Bool :=
  match w.phase, i with
  | .streaming st, .answer .finalized =>
    w.perUtterance && (w.pending.drop 1).isEmpty && !w.carry.isEmpty && st.audioSinceFinalize
  | _, _ => false

/-! ## Lemmas about placements -/

@[simp] theorem placed_append (os os' : List Output) : placed (os ++ os') = placed os ++ placed os' := by
  induction os with
  | nil => rfl
  | cons o os ih =>
    cases o with
    | request k msg => cases msg <;> simp [placed, ih]
    | _ => simp [placed, ih]

@[simp] theorem handled_append (os os' : List Output) :
    handled (os ++ os') = handled os ++ handled os' := by
  induction os with
  | nil => rfl
  | cons o os ih =>
    cases o with
    | request k msg => cases msg <;> simp [handled, ih]
    | _ => simp [handled, ih]

@[simp] theorem placed_answered (l : List Nat) : placed (l.map .finalizeDone) = [] := by
  induction l with
  | nil => rfl
  | cons n l ih => simpa [placed] using ih

@[simp] theorem handled_answered (l : List Nat) : handled (l.map .finalizeDone) = [] := by
  induction l with
  | nil => rfl
  | cons n l ih => simpa [handled] using ih

@[simp] theorem StreamCommand.items_append (cmds cmds' : List StreamCommand) :
    items (cmds ++ cmds') = items cmds ++ items cmds' := by
  induction cmds with
  | nil => rfl
  | cons c cmds ih => cases c <;> simp [items, ih]

theorem sentItems_append (n : Nat) (is js : List Input) :
    sentItems n (is ++ js) = sentItems n is ++ sentItems (n + is.count (.send .finalize)) js := by
  induction is generalizing n with
  | nil => rfl
  | cons i is ih =>
    cases i with
    | send cmd => cases cmd <;> simp [sentItems, ih, Nat.add_assoc, Nat.add_comm 1]
    | _ => simp [sentItems, ih]

def Placed.audioOn : Placed → Option Nat
  | .audio k => some k
  | .finalize _ | .nothingOpen | .idleClosed _ => none

/-- The stream of the audio that no placement has followed yet. -/
def lastAudio (os : List Output) : Option Nat := (placed os).getLast?.bind Placed.audioOn

variable {os out : List Output}

theorem lastAudio_append_nil (h : placed out = []) : lastAudio (os ++ out) = lastAudio os := by
  rw [lastAudio, placed_append, h, List.append_nil, ← lastAudio]

theorem lastAudio_append_singleton {p : Placed} (h : placed out = [p]) :
    lastAudio (os ++ out) = p.audioOn := by
  rw [lastAudio, placed_append, h, List.getLast?_concat, Option.bind_some]

theorem Whole.prefix {os' : List Output} (h : Whole (os ++ os')) : Whole os := by
  rw [Whole, placed_append] at h
  exact (List.isChain_append.mp h).1

/-- A placement after outputs that are whole keeps them whole exactly when it continues the
audio that waits. -/
theorem whole_snoc_iff {p : Placed} (h : Whole os) (hp : placed out = [p]) :
    Whole (os ++ out) ↔ ∀ k, lastAudio os = some k → OnItsStream (.audio k) p := by
  rw [Whole, placed_append, hp, List.isChain_append]
  rw [Whole] at h
  simp only [List.head?_cons, Option.mem_def, Option.some.injEq, forall_eq', lastAudio]
  constructor
  · intro hchain k hk
    obtain ⟨x, hx, hxk⟩ := Option.bind_eq_some_iff.mp hk
    cases x <;> cases hxk
    exact hchain.2.2 _ hx
  · intro hlast
    refine ⟨h, List.isChain_singleton _, fun x hx => ?_⟩
    cases x with
    | audio k => exact hlast k (by rw [hx]; rfl)
    | finalize | nothingOpen | idleClosed => trivial

theorem whole_append_nil_iff (hp : placed out = []) : Whole (os ++ out) ↔ Whole os := by
  rw [Whole, placed_append, hp, List.append_nil, ← Whole]

/-! ## One step -/

/-- The stream that carries audio no finalize has ended. -/
def Worker.unfinished (w : Worker) : Option Nat :=
  match w.phase with
  | .replaying st | .streaming st => if st.audioSinceFinalize then some st.id else none
  | _ => none

/-- A worker that streams per utterance and lives: nothing is carried without a finalize pending
on the open stream. -/
structure Orderly (w : Worker) : Prop where
  perUtterance : w.perUtterance = true
  alive : w.phase ≠ .exited
  unstopped : .stop ∉ w.channel
  settled : w.phase = .connecting ∨ w.phase = .idle → w.carry = []
  behind : ∀ st, w.phase = .streaming st → w.carry ≠ [] → w.pending ≠ []

inductive Placement (w : Worker) (i : Input) (t : Worker) (out : List Output) : Prop
  | silent (hp : placed out = []) (hu : t.unfinished = w.unfinished) (hs : w.splits i = false)
  | audio (k : Nat) (hp : placed out = [.audio k]) (ht : t.unfinished = some k)
      (hw : ∀ k', w.unfinished = some k' → k' = k) (hs : w.splits i = false)
  | finalize (k : Nat) (hp : placed out = [.finalize k]) (ht : t.unfinished = none)
      (hw : ∀ k', w.unfinished = some k' → k' = k) (hs : w.splits i = false)
  | nothingOpen (hp : placed out = [.nothingOpen]) (ht : t.unfinished = none)
      (hw : w.unfinished = none) (hs : w.splits i = false)
  | idleClosed (k : Nat) (hp : placed out = [.idleClosed k]) (ht : t.unfinished = none)
      (hs : w.splits i = w.unfinished.isSome)

/-- What a calm step does: the worker stays orderly, items are handled in order, and at most one
placement is made. -/
structure CalmStep (w : Worker) (i : Input) (t : Worker) (out : List Output) : Prop where
  orderly : Orderly t
  items : handled out ++ (t.carry ++ StreamCommand.items t.channel) =
    w.carry ++ StreamCommand.items w.channel ++ sentItems w.accepted [i]
  accepted : t.accepted = w.accepted + [i].count (.send .finalize)
  placement : Placement w i t out

variable {t w : Worker}

private theorem calm_silent {i : Input} (ht : Orderly t) (hi : i ≠ .send .finalize)
    (hitems : handled out ++ (t.carry ++ StreamCommand.items t.channel) =
      w.carry ++ StreamCommand.items w.channel ++ sentItems w.accepted [i])
    (haccepted : t.accepted = w.accepted) (hp : placed out = []) (hu : t.unfinished = w.unfinished)
    (hs : w.splits i = false) : CalmStep w i t out := by
  refine ⟨ht, hitems, ?_, .silent hp hu hs⟩
  rw [haccepted, List.count_eq_zero_of_not_mem (by simpa using Ne.symm hi), Nat.add_zero]

theorem calm_send (hw : Orderly w) {cmd : ClientCommand} (hi : cmd ≠ .stop) :
    CalmStep w (.send cmd) (w.send cmd) [] := by
  have hs : w.splits (.send cmd) = false := by cases hph : w.phase <;> simp [Worker.splits, hph]
  rw [Worker.send.eq_def, if_neg hw.alive]
  cases cmd with
  | audio pcm | finalize =>
    refine ⟨⟨hw.perUtterance, hw.alive, by simpa using hw.unstopped, hw.settled, hw.behind⟩, ?_, ?_,
      .silent rfl rfl hs⟩
    · simp [handled, StreamCommand.items, sentItems]
    · simp
  | stop => exact absurd rfl hi

variable {st : Stream}

theorem calm_replay (hw : Orderly w) (hph : w.phase = .replaying st) :
    CalmStep w (.replay true) (w.replayItem st true).1 (w.replayItem st true).2 := by
  have hs : w.splits (.replay true) = false := by simp [Worker.splits, hph]
  have hopen : ∀ k', w.unfinished = some k' → k' = st.id := by
    intro k' hk
    simp only [Worker.unfinished, hph] at hk
    split_ifs at hk
    exact (Option.some.inj hk).symm
  rw [Worker.replayItem]
  split
  next hcarry =>
    refine calm_silent ⟨hw.perUtterance, by simp, hw.unstopped, by simp, ?_⟩ (by simp)
      (by simp [handled, sentItems]) rfl rfl ?_ hs
    · intro _ _ hne
      exact absurd hcarry hne
    · simp [Worker.unfinished, hph]
  next pcm carry hcarry =>
    refine ⟨⟨hw.perUtterance, by simp [Worker.sendAudio], hw.unstopped,
      by simp [Worker.sendAudio], by simp [Worker.sendAudio]⟩, ?_, rfl, ?_⟩
    · simp [Worker.sendAudio, Worker.releaseQueued, handled, sentItems, hcarry]
    · exact .audio st.id rfl (by simp [Worker.sendAudio, Worker.unfinished]) hopen hs
  next ticket carry hcarry =>
    refine ⟨⟨hw.perUtterance, by simp [Worker.sendFinalize], hw.unstopped,
      by simp [Worker.sendFinalize], by simp [Worker.sendFinalize]⟩, ?_, rfl, ?_⟩
    · simp [Worker.sendFinalize, handled, sentItems, hcarry]
    · exact .finalize st.id rfl (by simp [Worker.sendFinalize, Worker.unfinished]) hopen hs

theorem calm_receiveOpen (hw : Orderly w) (hph : w.phase = .streaming st)
    (h : w.receiveOpen st true = some (t, out)) :
    CalmStep w (.receive true) t out := by
  have hs : w.splits (.receive true) = false := by simp [Worker.splits, hph]
  have hopen : ∀ k', w.unfinished = some k' → k' = st.id := by
    intro k' hk
    simp only [Worker.unfinished, hph] at hk
    split_ifs at hk
    exact (Option.some.inj hk).symm
  rw [Worker.receiveOpen] at h
  split at h
  next => cases h
  next pcm channel hchannel =>
    have htail : .stop ∉ channel := fun hmem =>
      hw.unstopped (by rw [hchannel]; exact List.mem_cons_of_mem _ hmem)
    simp only [hw.perUtterance, Bool.true_and] at h
    split_ifs at h with hpending
    · have hne : w.pending ≠ [] := by simpa using hpending
      cases h
      refine calm_silent ⟨rfl, hw.alive, htail, ?_, fun _ _ _ => hne⟩ (by simp) ?_ rfl rfl rfl hs
      · simp [hph]
      · simp [handled, sentItems, hchannel, StreamCommand.items]
    · have hcarry : w.carry = [] := by
        by_contra hne
        exact hw.behind st hph hne (by simpa using hpending)
      cases h
      refine ⟨⟨rfl, by simp, htail, by simp, ?_⟩, ?_, rfl, ?_⟩
      · intro _ _ hne
        exact absurd hcarry hne
      · simp [Worker.releaseQueued, handled, sentItems, hchannel, hcarry, StreamCommand.items]
      · exact .audio st.id rfl (by simp [Worker.unfinished]) hopen hs
  next ticket channel hchannel =>
    have htail : .stop ∉ channel := fun hmem =>
      hw.unstopped (by rw [hchannel]; exact List.mem_cons_of_mem _ hmem)
    simp only at h
    split_ifs at h with hcarried
    · have hne : w.carry ≠ [] := by simpa using hcarried
      cases h
      refine calm_silent ⟨hw.perUtterance, hw.alive, htail, ?_, ?_⟩ (by simp) ?_ rfl rfl rfl hs
      · simp [hph]
      · intro st' hst' _
        exact hw.behind st' hst' hne
      · simp [handled, sentItems, hchannel, StreamCommand.items]
    · have hcarry : w.carry = [] := by simpa using hcarried
      cases h
      refine ⟨⟨hw.perUtterance, by simp, htail, by simp, ?_⟩, ?_, rfl, ?_⟩
      · intro _ _ _
        simp
      · simp [handled, sentItems, hchannel, hcarry, StreamCommand.items]
      · exact .finalize st.id rfl (by simp [Worker.unfinished]) hopen hs
  next channel hchannel => exact absurd (by rw [hchannel]; simp) hw.unstopped

theorem calm_receiveIdle (hw : Orderly w) (hph : w.phase = .idle)
    (h : w.receiveIdle = some (t, out)) :
    CalmStep w (.receive true) t out := by
  have hs : w.splits (.receive true) = false := by simp [Worker.splits, hph]
  have hcarry := hw.settled (Or.inr hph)
  have hunfinished : w.unfinished = none := by simp [Worker.unfinished, hph]
  rw [Worker.receiveIdle] at h
  split at h
  next => cases h
  next pcm channel hchannel =>
    have htail : .stop ∉ channel := fun hmem =>
      hw.unstopped (by rw [hchannel]; exact List.mem_cons_of_mem _ hmem)
    cases h
    refine calm_silent ⟨hw.perUtterance, by simp [Worker.openHead], htail,
      by simp [Worker.openHead], by simp [Worker.openHead]⟩ (by simp) ?_ rfl rfl ?_ hs
    · simp [Worker.openHead, handled, sentItems, hchannel, hcarry, StreamCommand.items]
    · rw [hunfinished]
      rfl
  next ticket channel hchannel =>
    have htail : .stop ∉ channel := fun hmem =>
      hw.unstopped (by rw [hchannel]; exact List.mem_cons_of_mem _ hmem)
    cases h
    refine ⟨⟨hw.perUtterance, hw.alive, htail, hw.settled, hw.behind⟩, ?_, rfl,
      .nothingOpen rfl ?_ hunfinished hs⟩
    · simp [handled, sentItems, hchannel, hcarry, StreamCommand.items]
    · simp [Worker.unfinished, hph]
  next channel hchannel => exact absurd (by rw [hchannel]; simp) hw.unstopped

theorem goIdle_effect (hper : w.perUtterance = true) (hstop : .stop ∉ w.channel) (stream : Nat) :
    Orderly (w.afterLoop stream .goIdle).1 ∧ handled (w.afterLoop stream .goIdle).2 = [] ∧
      placed (w.afterLoop stream .goIdle).2 = [.idleClosed stream] ∧
      (w.afterLoop stream .goIdle).1.unfinished = none ∧
      (w.afterLoop stream .goIdle).1.carry = w.carry ∧
      (w.afterLoop stream .goIdle).1.channel = w.channel ∧
      (w.afterLoop stream .goIdle).1.accepted = w.accepted := by
  by_cases hcarry : w.carry = []
  · simp only [Worker.afterLoop, hcarry, ne_eq, not_true, if_false]
    refine ⟨⟨hper, by simp, hstop, fun _ => rfl, by simp⟩, ?_, ?_, rfl, trivial, trivial, trivial⟩
    · rw [handled_append, handled_answered]
      rfl
    · rw [placed_append, placed_answered]
      rfl
  · simp only [Worker.afterLoop, hcarry, ne_eq, not_false_eq_true, if_true]
    refine ⟨⟨hper, by simp [Worker.openHead], hstop, by simp [Worker.openHead],
      by simp [Worker.openHead]⟩, ?_, ?_, rfl, rfl, rfl, rfl⟩
    · rw [handled_append, handled_answered]
      rfl
    · rw [placed_append, placed_answered]
      rfl

theorem calm_finalized (hw : Orderly w) (hph : w.phase = .streaming st) :
    CalmStep w (.answer .finalized) (w.finalized st).1 (w.finalized st).2 := by
  have hunfinished : w.unfinished = if st.audioSinceFinalize then some st.id else none := by
    simp [Worker.unfinished, hph]
  have hsplits : w.splits (.answer .finalized) =
      ((w.pending.drop 1).isEmpty && !w.carry.isEmpty && st.audioSinceFinalize) := by
    simp [Worker.splits, hph, hw.perUtterance]
  rw [Worker.finalized]
  split_ifs with hclose <;> rw [hw.perUtterance, Bool.true_and, Bool.and_eq_true] at hclose
  · obtain ⟨hlast, hwhy⟩ := hclose
    obtain ⟨horderly, hhandled, hplaced, hnone, hcarry, hchannel, haccepted⟩ :=
      goIdle_effect (w := { w with pending := w.pending.drop 1 }) hw.perUtterance hw.unstopped st.id
    refine ⟨horderly, ?_, haccepted, .idleClosed st.id ?_ hnone ?_⟩
    · rw [handled_append, handled_answered, hhandled, hcarry, hchannel]
      simp [sentItems]
    · rw [placed_append, placed_answered, hplaced, List.nil_append]
    · rw [hsplits, hunfinished, hlast]
      cases hsince : st.audioSinceFinalize with
      | true =>
        rw [hsince, Bool.not_true, Bool.false_or] at hwhy
        simp [hwhy]
      | false => simp
  · refine calm_silent ⟨hw.perUtterance, by simp, hw.unstopped, by simp, ?_⟩ (by simp) ?_ rfl
      (placed_answered _) ?_ ?_
    · intro _ _ hne hlast
      exact hclose ⟨by simp only at hlast; simp [hlast], by simpa using Or.inr hne⟩
    · rw [handled_answered]
      simp [sentItems]
    · rw [hunfinished]
      rfl
    · rw [hsplits]
      by_contra htrue
      simp only [Bool.not_eq_false, Bool.and_eq_true] at htrue
      exact hclose ⟨htrue.1.1, by rw [htrue.1.2, Bool.or_true]⟩

theorem calm_handle (hw : Orderly w) (hph : w.phase = .streaming st) {a : ServerAnswer}
    (ha : Input.calm (.answer a) = true) :
    CalmStep w (.answer a) (w.handle st a).1 (w.handle st a).2 := by
  cases a with
  | ready =>
    refine calm_silent ⟨hw.perUtterance, by simp [Worker.handle], hw.unstopped,
      by simp [Worker.handle], fun _ _ => hw.behind st hph⟩ (by simp)
      (by simp [Worker.handle, handled, sentItems]) rfl rfl ?_ (by simp [Worker.splits, hph])
    simp [Worker.handle, Worker.unfinished, hph]
  | transcript isFinal text | empty =>
    exact calm_silent hw (by simp) (by simp [Worker.handle, handled, sentItems]) rfl rfl rfl
      (by simp [Worker.splits, hph])
  | finalized => exact calm_finalized hw hph
  | relocate | error | endOfStream | status => cases ha

theorem calm_step {i : Input} (hw : Orderly w) (hi : i.calm = true) (h : w.step i = some (t, out)) :
    CalmStep w i t out := by
  cases i with
  | send cmd =>
    have hcmd : cmd ≠ .stop := by
      rintro rfl
      cases hi
    simp only [Worker.step] at h
    cases h
    exact calm_send hw hcmd
  | connected ok =>
    simp only [Worker.step] at h
    split at h
    next hph =>
      rw [show ok = true from hi] at h
      cases h
      refine calm_silent ⟨hw.perUtterance, by simp [Worker.openHead], hw.unstopped,
        by simp [Worker.openHead], by simp [Worker.openHead]⟩ (by simp)
        (by simp [Worker.openHead, handled, sentItems]) rfl rfl ?_ (by simp [Worker.splits, hph])
      simp [Worker.openHead, Worker.unfinished, hph]
    next => cases h
  | transcribe result =>
    simp only [Worker.step] at h
    split at h
    next hph =>
      have hs : w.splits (.transcribe result) = false := by simp [Worker.splits, hph]
      have hreopen : CalmStep w (.transcribe result) w.openHead [] := by
        refine calm_silent ⟨hw.perUtterance, by simp [Worker.openHead], hw.unstopped,
          by simp [Worker.openHead], by simp [Worker.openHead]⟩ (by simp)
          (by simp [Worker.openHead, handled, sentItems]) rfl rfl ?_ hs
        simp [Worker.openHead, Worker.unfinished, hph]
      cases result with
      | opened =>
        cases h
        refine calm_silent ⟨hw.perUtterance, by simp, hw.unstopped, by simp, by simp⟩ (by simp)
          (by simp [handled, sentItems]) rfl rfl ?_ hs
        simp [Worker.unfinished, hph]
      | refused | timedOut => cases h; exact hreopen
    next => cases h
  | replay ok =>
    rw [show ok = true from hi] at h ⊢
    simp only [Worker.step] at h
    split at h
    next st hph =>
      have heffect := calm_replay hw hph
      rw [Option.some.inj h] at heffect
      exact heffect
    next => cases h
  | receive ok =>
    rw [show ok = true from hi] at h ⊢
    simp only [Worker.step] at h
    split at h
    next st hph => exact calm_receiveOpen hw hph h
    next hph => exact calm_receiveIdle hw hph h
    next => cases h
  | answer a =>
    simp only [Worker.step] at h
    split at h
    next st hph =>
      have heffect := calm_handle hw hph hi
      rw [Option.some.inj h] at heffect
      exact heffect
    next => cases h
  | readyTimeout | idleTimeout => cases hi

/-! ## Calm runs -/

theorem orderly_spawn : Orderly (.spawn true) :=
  ⟨rfl, by simp [Worker.spawn], by simp [Worker.spawn], fun _ => rfl, by simp [Worker.spawn]⟩

/-- Every item sent is handled once, in order: what is handled, carried and in the channel are
the items sent. -/
theorem items_in_order {is : List Input} (hr : run Worker.step (.spawn true) is = some (t, os))
    (hcalm : ∀ i ∈ is, i.calm = true) :
    handled os ++ (t.carry ++ StreamCommand.items t.channel) = sentItems 0 is := by
  have hkeeps : Orderly t ∧ t.accepted = is.count (.send .finalize) ∧
      handled os ++ (t.carry ++ StreamCommand.items t.channel) = sentItems 0 is := by
    refine run_history (C := fun _ i => i.calm = true) (I := fun is os t => Orderly t ∧
      t.accepted = is.count (.send .finalize) ∧
      handled os ++ (t.carry ++ StreamCommand.items t.channel) = sentItems 0 is) ?_
      ⟨orderly_spawn, rfl, rfl⟩ (along_of_forall_mem hcalm _) hr
    intro past os s i u out h hi hs
    obtain ⟨horderly, haccepted, hitems⟩ := h
    have hstep := calm_step horderly hi hs
    refine ⟨hstep.orderly, ?_, ?_⟩
    · rw [hstep.accepted, haccepted, List.count_append]
    · rw [handled_append, List.append_assoc, hstep.items, sentItems_append, ← hitems, haccepted,
        Nat.zero_add]
      simp only [List.append_assoc]
  exact hkeeps.2.2

/-- The audio whose utterance is unfinished is on the open stream. -/
def Placing (os : List Output) (w : Worker) : Prop :=
  Orderly w ∧ Whole os ∧ lastAudio os = w.unfinished

theorem placing_keep {i : Input} (h : Placing os w) (hi : i.calm = true)
    (hsplit : w.splits i = false) (hs : w.step i = some (t, out)) :
    Placing (os ++ out) t := by
  obtain ⟨horderly, hwhole, hlast⟩ := h
  have hstep := calm_step horderly hi hs
  refine ⟨hstep.orderly, ?_⟩
  cases hstep.placement with
  | silent hp hu _ =>
    exact ⟨(whole_append_nil_iff hp).mpr hwhole, by rw [lastAudio_append_nil hp, hlast, hu]⟩
  | audio k hp ht hw _ | finalize k hp ht hw _ =>
    refine ⟨(whole_snoc_iff hwhole hp).mpr fun k' hk => ?_, by
      rw [lastAudio_append_singleton hp, ht]; rfl⟩
    exact (hw k' (hlast ▸ hk)).symm
  | nothingOpen hp ht hw _ =>
    refine ⟨(whole_snoc_iff hwhole hp).mpr fun k' hk => ?_, by
      rw [lastAudio_append_singleton hp, ht]; rfl⟩
    rw [hlast, hw] at hk
    cases hk
  | idleClosed k hp ht hs' =>
    refine ⟨(whole_snoc_iff hwhole hp).mpr fun k' hk => ?_, by
      rw [lastAudio_append_singleton hp, ht]; rfl⟩
    rw [hsplit, ← hlast, hk] at hs'
    cases hs'

theorem placing_lose {i : Input} (h : Placing os w) (hi : i.calm = true)
    (hsplit : ¬ w.splits i = false) (hs : w.step i = some (t, out)) :
    ¬ Whole (os ++ out) := by
  obtain ⟨horderly, hwhole, hlast⟩ := h
  rw [Bool.not_eq_false] at hsplit
  cases (calm_step horderly hi hs).placement with
  | silent _ _ hs' | audio _ _ _ _ hs' | finalize _ _ _ _ hs' | nothingOpen _ _ _ hs' =>
    rw [hs'] at hsplit; cases hsplit
  | idleClosed k hp ht hs' =>
    rw [whole_snoc_iff hwhole hp, hlast]
    rw [hsplit] at hs'
    obtain ⟨k', hk'⟩ := Option.isSome_iff_exists.mp hs'.symm
    exact fun hall => hall k' hk'

/-- In a calm run every item sent is handled once and in order, and utterances stay whole exactly
when no answer closes a stream behind audio that a finalize has not ended. -/
theorem utterances_whole_iff {is : List Input} {t : Worker} {os : List Output}
    (hr : run Worker.step (.spawn true) is = some (t, os)) (hcalm : ∀ i ∈ is, i.calm = true) :
    (handled os ++ (t.carry ++ StreamCommand.items t.channel) = sentItems 0 is ∧ Whole os) ↔
      Along Worker.step (fun w i => w.splits i = false) (.spawn true) is := by
  rw [and_iff_right (items_in_order hr hcalm)]
  exact run_outputs_iff (I := Placing) (fun _ _ => Whole.prefix) (fun _ _ h => h.2.1)
    (fun _ _ _ _ _ => placing_keep) (fun _ _ _ _ _ => placing_lose)
    (show Placing [] (.spawn true) from ⟨orderly_spawn, List.isChain_nil, rfl⟩) hcalm hr

/-- The start of a session, up to its first stream. -/
def sessionStart : List Input := [.connected true, .transcribe .opened, .replay true, .answer .ready]

def command (cmd : ClientCommand) : List Input := [.send cmd, .receive true]

/-- Two utterances, the second spoken while the finalize of the first is pending. -/
def twoUtterances : List Input :=
  sessionStart ++ command (.audio [0]) ++ command .finalize ++ command (.audio [1]) ++
    [.answer .finalized, .transcribe .opened, .replay true, .replay true] ++ command .finalize ++
    [.answer .finalized]

theorem utterances_whole_twoUtterances : ∃ t os,
    run Worker.step (.spawn true) twoUtterances = some (t, os) ∧
    ((handled os ++ (t.carry ++ StreamCommand.items t.channel) = sentItems 0 twoUtterances ∧
      Whole os) ↔
      Along Worker.step (fun w i => w.splits i = false) (.spawn true) twoUtterances) :=
  ⟨_, _, rfl, utterances_whole_iff rfl (by decide)⟩

/-- The third utterance starts while the first finalize is pending, so the second stream replays
a finalize and the third utterance's audio; more of that audio is carried on. -/
def thirdUtterance : List Input :=
  sessionStart ++ command (.audio [0]) ++ command .finalize ++ command (.audio [1]) ++
    command .finalize ++ command (.audio [2]) ++
    [.answer .finalized, .transcribe .opened, .replay true, .replay true, .replay true,
      .replay true] ++ command (.audio [3]) ++ [.answer .finalized]

/-- The second stream is closed behind the first chunk of the third utterance. -/
theorem utterance_split : ∃ t os, run Worker.step (.spawn true) thirdUtterance = some (t, os) ∧
    (∀ i ∈ thirdUtterance, i.calm = true) ∧
    ¬ (handled os ++ (t.carry ++ StreamCommand.items t.channel) = sentItems 0 thirdUtterance ∧
      Whole os) := by
  refine ⟨_, _, rfl, by decide, ?_⟩
  intro h
  exact absurd h.2 (by decide)

end NodeWebrtc.ClusterSpeech
