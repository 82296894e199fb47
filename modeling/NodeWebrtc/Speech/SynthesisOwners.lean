import NodeWebrtc.Speech.SynthesisWorker
import NodeWebrtc.Speech.TurnOrder

/-! # Every queued job has a worker that comes back to it

A job in the queue is kept by one of three: its sender, as long as it has not passed its
wake-up; a stop that has yet to collect it; or a worker that comes back to the queue. The
sender hands over only if a worker is alive, and that is what can fail: a sender that found
the shutdown flag set, or the slot taken, creates no worker.
-/

namespace NodeWebrtc.Speech

open Machine

/-! ## Who keeps a job -/

namespace SynthesisPhase

def live : SynthesisPhase → Bool
  | .exited | .aborted => false
  | _ => true

/-- The phases from which the worker comes back to the queue without a further wake-up. -/
def attends (shutdown : Bool) : SynthesisPhase → Bool
  | .parked notified _ => notified
  | .woken | .leaving => true
  | .checking | .popping | .holding | .running _ => !shutdown
  | .resting | .exited | .aborted => false

theorem live_of_attends {shutdown : Bool} {p : SynthesisPhase} (h : p.attends shutdown = true) :
    p.live = true := by
  cases p <;> simp_all [attends, live]

theorem attends_of_shutdown {shutdown : Bool} {p : SynthesisPhase}
    (h : p.attends shutdown = true) : p.attends false = true := by
  cases p <;> simp_all [attends]

end SynthesisPhase

/-- The stop has still to collect the ticket: its cut is to come or covers it. -/
def StopPhase.Covers (t : Nat) : StopPhase → Prop
  | .halted | .raised => True
  | .cut below => t < below
  | _ => False

namespace TtsSynthesis

def Live (s : TtsSynthesis) : Prop := ∃ w p, s.phase? w = some p ∧ p.live = true

/-- The worker is alive and will look at the queue, whatever happens to the flag: it is on
its way, or a wake-up waits for it. -/
def WillLook (s : TtsSynthesis) (w : Nat) : Prop :=
  ∃ p, s.phase? w = some p ∧ p.live = true ∧ (s.permit = true ∨ p.attends s.shutdown = true)

def Attended (s : TtsSynthesis) : Prop := ∃ w, s.WillLook w

def Covered (s : TtsSynthesis) (t : Nat) : Prop := ∃ p ∈ s.stops, p.Covers t

/-- The sender has still to see whether a worker is needed. -/
def Ensuring (s : TtsSynthesis) (t : Nat) : Prop :=
  s.handOff.get t = some .claimed ∨ s.handOff.get t = some .ensuring

def Keeps (s : TtsSynthesis) (t : Nat) : Prop :=
  s.Covered t ∨ s.Attended ∨ s.Ensuring t ∨ (s.handOff.get t = some .notifying ∧ s.Live)

/-- A sender may go on to its wake-up without creating a worker. -/
def Backed (s : TtsSynthesis) (t : Nat) : Prop := t ∉ s.queue ∨ s.Covered t ∨ s.Live

/-- The worker may be dropped: it holds no job, and every queued job has its sender, a stop
or another worker, which looks by itself, takes over the wake-up of the dropped one or is
still to be woken by the sender. -/
def Spare (s : TtsSynthesis) (w : Nat) : Prop :=
  (s.held = none ∨ ∃ v, v ≠ w ∧ s.phase? v = some .holding) ∧
    ∀ t ∈ s.queue, s.Covered t ∨ s.Ensuring t ∨
      ∃ v, v ≠ w ∧ (s.WillLook v ∨
        ∃ p, s.phase? v = some p ∧ p.live = true ∧
          ((∃ roused, s.phase? w = some (.parked true roused)) ∨
            s.handOff.get t = some .notifying))

/-- What a step must find so that no job is left behind. -/
def Meets (s : TtsSynthesis) : SynthesisInput → Prop
  | .ensureFlag t => s.shutdown = true → s.Backed t
  | .ensureSlot t => s.slot ≠ none → s.Backed t
  | .drop w _ => s.Spare w
  | _ => True

/-- Every queued job is kept, and a held job has a worker that holds it. -/
structure Owned (s : TtsSynthesis) : Prop where
  kept : ∀ t ∈ s.queue, s.Keeps t
  holder : s.held ≠ none → ∃ w, s.phase? w = some .holding

theorem Owned.new : Owned .new where
  kept := fun _ ht => absurd ht List.not_mem_nil
  holder := fun h => absurd rfl h

/-! ## What a step does -/

variable {s s' : TtsSynthesis}

theorem phase?_setPhase (s : TtsSynthesis) (w v : Nat) (p : SynthesisPhase) :
    (s.setPhase w p).phase? v = if v = w then (s.phase? v).map fun _ => p else s.phase? v := by
  simp only [phase?, setPhase, List.getElem?_modify]
  by_cases h : v = w
  · subst h
    cases s.workers[v]? <;> simp
  · have hne : w ≠ v := Ne.symm h
    simp [h, hne]

variable {w : Nat} {p q : SynthesisPhase}

theorem phase?_setPhase_self (h : s.phase? w = some p) : (s.setPhase w q).phase? w = some q := by
  rw [phase?_setPhase, if_pos rfl, h]
  rfl

theorem phase?_setPhase_ne {v : Nat} (q : SynthesisPhase) (h : v ≠ w) :
    (s.setPhase w q).phase? v = s.phase? v := by
  rw [phase?_setPhase, if_neg h]

theorem phase?_rouseAll (s : TtsSynthesis) (w : Nat) :
    s.rouseAll.phase? w = (s.phase? w).map rousePhase := by
  simp only [phase?, rouseAll, List.getElem?_map]
  cases s.workers[w]? <;> rfl

theorem phase?_abortRequested (s : TtsSynthesis) (w v : Nat) :
    ({ s with workers := s.workers.modify w fun worker =>
        { worker with abortRequested := true } } : TtsSynthesis).phase? v = s.phase? v := by
  simp only [phase?, List.getElem?_modify]
  by_cases h : w = v
  · subst h
    cases s.workers[w]? <;> simp
  · simp [h]

theorem phase?_append (s : TtsSynthesis) (worker : SynthesisWorker) (h : s.phase? w = some p) :
    ({ s with workers := s.workers ++ [worker] } : TtsSynthesis).phase? w = some p := by
  simp only [phase?, Option.map_eq_some_iff] at h ⊢
  obtain ⟨x, hx, rfl⟩ := h
  exact ⟨x, by rw [List.getElem?_append_left (List.getElem?_eq_some_iff.mp hx).1, hx], rfl⟩

inductive SynthesisStep (s : TtsSynthesis) :
    SynthesisInput → TtsSynthesis → List SynthesisEvent → Prop
  | sent (i : OrderInput) (o : TtsSendOrder) (es : List OrderEvent)
      (h : s.order.step i = some (o, es)) :
      SynthesisStep s (.send i) ({ s with order := o }.pushClaimed es)
        (es.map SynthesisEvent.order)
  | flagged (t : Nat) (h : s.handOff.get t = some .claimed) :
      SynthesisStep s (.ensureFlag t) (s.ensureFlag t) []
  | ensured (t : Nat) (h : s.handOff.get t = some .ensuring) :
      SynthesisStep s (.ensureSlot t) (s.ensureSlot t) []
  | notified (t : Nat) (next : Option Nat) (s' : TtsSynthesis)
      (h : s.handOff.get t = some .notifying)
      (hn : { s with handOff := s.handOff.delete t }.notifyOne next = some s') :
      SynthesisStep s (.notifyOne t next) s' []
  | woken (w : Nat) (roused : Bool) (h : s.phase? w = some (.parked true roused)) :
      SynthesisStep s (.wake w) (s.setPhase w .woken) []
  | permitted (w : Nat) (roused : Bool) (h : s.phase? w = some (.parked false roused)) :
      SynthesisStep s (.wake w) ({ s with permit := false }.setPhase w .woken) []
  | roused (w : Nat) (notified roused : Bool) (next : Option Nat) (s' : TtsSynthesis)
      (h : s.phase? w = some (.parked notified roused))
      (hn : (s.setPhase w .woken).passOn notified next = some s') :
      SynthesisStep s (.rouse w next) s' []
  | looked (w : Nat) (h : s.phase? w = some .woken) :
      SynthesisStep s (.look w) (s.setPhase w (if s.shutdown then .leaving else .checking)) []
  | checked (w : Nat) (h : s.phase? w = some .checking) :
      SynthesisStep s (.check w) (s.setPhase w (if s.shutdown then .resting else .popping)) []
  | popped (w : Nat) (h : s.phase? w = some .popping) :
      SynthesisStep s (.pop w) (s.popJob w).1 (s.popJob w).2
  | taken (w : Nat) (h : s.phase? w = some .holding) :
      SynthesisStep s (.take w) (s.takeHeld w) []
  | finished (w t : Nat) (h : s.phase? w = some (.running t)) :
      SynthesisStep s (.finish w) (s.setPhase w .checking) [.ended t]
  | rested (w : Nat) (h : s.phase? w = some .resting) :
      SynthesisStep s (.rest w)
        (s.setPhase w (if s.shutdown then .leaving else .parked false false)) []
  | left (w : Nat) (h : s.phase? w = some .leaving) :
      SynthesisStep s (.leave w) (s.dropLeftovers w).1 (s.dropLeftovers w).2
  | dropped (w : Nat) (next : Option Nat) (p : SynthesisPhase) (s' : TtsSynthesis)
      (es : List SynthesisEvent) (h : s.phase? w = some p)
      (hd : s.dropWorker w next p = some (s', es)) : SynthesisStep s (.drop w next) s' es
  | started : SynthesisStep s .start { s with running := true, starts := s.starts + 1 } []
  | cleared :
      SynthesisStep s .clearShutdown { s with shutdown := false, starts := s.starts - 1 } []
  | stopped : SynthesisStep s .stop { s with running := false, stops := s.stops ++ [.halted] } []
  | raised (k : Nat) (h : s.stops[k]? = some .halted) :
      SynthesisStep s (.raiseShutdown k) ({ s with shutdown := true }.setStop k .raised) []
  | stopCut (k : Nat) (h : s.stops[k]? = some .raised) :
      SynthesisStep s (.stopCut k) (s.cutOrder.1.setStop k (.cut s.cutOrder.2.1)) s.cutOrder.2.2
  | collected (k below : Nat) (h : s.stops[k]? = some (.cut below)) :
      SynthesisStep s (.stopCollect k) ((s.collectBefore below).1.setStop k .collected)
        (s.collectBefore below).2
  | waiters (k : Nat) (h : s.stops[k]? = some .collected) :
      SynthesisStep s (.notifyWaiters k) (s.rouseAll.setStop k .notified) []
  | slotTaken (k : Nat) (h : s.stops[k]? = some .notified) :
      SynthesisStep s (.takeSlot k) (s.takeSlot k) []
  | timedOut (k w : Nat) (h : s.stops[k]? = some (.joining w)) :
      SynthesisStep s (.joinTimeout k)
        ({ s with workers := s.workers.modify w fun worker =>
            { worker with abortRequested := true } }.setStop k .aborting) []
  | joined (k w : Nat) (h : s.stops[k]? = some (.joining w) ∨ s.stops[k]? = some .aborting) :
      SynthesisStep s (.joined k) (s.setStop k .finished) []
  | flushCut :
      SynthesisStep s .flushCut { s.cutOrder.1 with flushes := s.flushes ++ [s.cutOrder.2.1] }
        s.cutOrder.2.2
  | flushCollected (below : Nat) :
      SynthesisStep s (.flushCollect below)
        ({ s with flushes := s.flushes.erase below }.collectBefore below).1
        ({ s with flushes := s.flushes.erase below }.collectBefore below).2

variable {i : SynthesisInput} {es : List SynthesisEvent}

theorem workerStep_of_step (hp : s.phase? w = some p)
    (hi : i = .wake w ∨ (∃ next, i = .rouse w next) ∨ i = .look w ∨ i = .check w ∨ i = .pop w ∨
      i = .take w ∨ i = .finish w ∨ i = .rest w ∨ i = .leave w)
    (hs : s.stepWorker w p i = some (s', es)) : SynthesisStep s i s' es := by
  rcases hi with rfl | ⟨next, rfl⟩ | rfl | rfl | rfl | rfl | rfl | rfl | rfl
  · cases p with
    | parked notified roused =>
      rw [stepWorker] at hs
      split at hs
      · next hn =>
        cases hs
        exact .woken w roused (hn ▸ hp)
      · next hn =>
        rw [Bool.not_eq_true] at hn
        split at hs <;> cases hs
        exact .permitted w roused (hn ▸ hp)
    | _ => cases hs
  · cases p with
    | parked notified roused =>
      rw [stepWorker] at hs
      split_ifs at hs
      rw [Option.map_eq_some_iff] at hs
      obtain ⟨t, ht, heq⟩ := hs
      cases heq
      exact .roused w notified roused next s' hp ht
    | _ => cases hs
  · cases p with
    | woken =>
      cases hs
      exact .looked w hp
    | _ => cases hs
  · cases p with
    | checking =>
      cases hs
      exact .checked w hp
    | _ => cases hs
  · cases p with
    | popping =>
      have hpop := SynthesisStep.popped w hp
      rw [stepWorker, Option.some.injEq] at hs
      rwa [hs] at hpop
    | _ => cases hs
  · cases p with
    | holding =>
      cases hs
      exact .taken w hp
    | _ => cases hs
  · cases p with
    | running t =>
      cases hs
      exact .finished w t hp
    | _ => cases hs
  · cases p with
    | resting =>
      cases hs
      exact .rested w hp
    | _ => cases hs
  · cases p with
    | leaving =>
      cases hs
      exact .left w hp
    | _ => cases hs

variable {k : Nat}

theorem stopStep_of_step {p : StopPhase} (hp : s.stops[k]? = some p)
    (hi : i = .raiseShutdown k ∨ i = .stopCut k ∨ i = .stopCollect k ∨ i = .notifyWaiters k ∨
      i = .takeSlot k ∨ i = .joinTimeout k ∨ i = .joined k) (hs : s.stepStop k p i = some (s', es)) :
    SynthesisStep s i s' es := by
  rcases hi with rfl | rfl | rfl | rfl | rfl | rfl | rfl
  · cases p with
    | halted =>
      cases hs
      exact .raised k hp
    | _ => cases hs
  · cases p with
    | raised =>
      cases hs
      exact .stopCut k hp
    | _ => cases hs
  · cases p with
    | cut below =>
      cases hs
      exact .collected k below hp
    | _ => cases hs
  · cases p with
    | collected =>
      cases hs
      exact .waiters k hp
    | _ => cases hs
  · cases p with
    | notified =>
      cases hs
      exact .slotTaken k hp
    | _ => cases hs
  · cases p with
    | joining w =>
      cases hs
      exact .timedOut k w hp
    | _ => cases hs
  · cases p with
    | joining w =>
      rw [stepStop] at hs
      split at hs <;> cases hs
      · exact .joined k w (Or.inl hp)
      · exact .joined k w (Or.inl hp)
    | aborting =>
      cases hs
      exact .joined k 0 (Or.inr hp)
    | _ => cases hs

theorem synthesisStep_of_step (hs : s.step i = some (s', es)) : SynthesisStep s i s' es := by
  cases i with
  | send i =>
    cases i with
    | cut => cases hs
    | _ =>
      rw [step, Option.map_eq_some_iff] at hs
      · obtain ⟨⟨o, out⟩, ho, heq⟩ := hs
        cases heq
        exact .sent _ o out ho
      · intro heq
        cases heq
  | ensureFlag t =>
    rw [step] at hs
    split_ifs at hs with h
    cases hs
    exact .flagged t h
  | ensureSlot t =>
    rw [step] at hs
    split_ifs at hs with h
    cases hs
    exact .ensured t h
  | notifyOne t next =>
    rw [step] at hs
    split_ifs at hs with h
    rw [Option.map_eq_some_iff] at hs
    obtain ⟨u, hu, heq⟩ := hs
    cases heq
    exact .notified t next s' h hu
  | start =>
    rw [step] at hs
    split at hs <;> cases hs
    exact .started
  | clearShutdown =>
    rw [step] at hs
    split at hs <;> cases hs
    exact .cleared
  | stop =>
    rw [step] at hs
    split at hs <;> cases hs
    exact .stopped
  | flushCut =>
    cases hs
    exact .flushCut
  | flushCollect below =>
    rw [step] at hs
    split at hs <;> cases hs
    exact .flushCollected below
  | drop w next =>
    rw [step] at hs
    split at hs
    · next p hw => exact .dropped w next p s' es (by rw [phase?, hw]; rfl) hs
    · cases hs
  | raiseShutdown k | stopCut k | stopCollect k | notifyWaiters k | takeSlot k | joinTimeout k
  | joined k =>
    rw [step, Option.bind_eq_some_iff] at hs
    obtain ⟨p, hp, hs⟩ := hs
    exact stopStep_of_step hp (by simp) hs
  | wake w | rouse w next | look w | check w | pop w | take w | finish w | rest w | leave w =>
    rw [step, Option.bind_eq_some_iff] at hs
    obtain ⟨p, hp, hs⟩ := hs
    exact workerStep_of_step hp (by simp) hs

/-! ## Workers from one state to the next -/

/-- The live workers live on and come back to the queue if they did, and a stored wake-up
stays. -/
structure Carries (s s' : TtsSynthesis) : Prop where
  worker : ∀ w p, s.phase? w = some p → p.live = true →
    ∃ q, s'.phase? w = some q ∧ q.live = true ∧
      (p.attends s.shutdown = true → q.attends s'.shutdown = true)
  permit : s.permit = true → s'.permit = true

theorem Carries.live (h : Carries s s') (hl : s.Live) : s'.Live := by
  obtain ⟨w, p, hp, hlive⟩ := hl
  obtain ⟨q, hq, hlive', -⟩ := h.worker w p hp hlive
  exact ⟨w, q, hq, hlive'⟩

theorem Carries.attended (h : Carries s s') (ha : s.Attended) : s'.Attended := by
  obtain ⟨w, p, hp, hlive, hlook⟩ := ha
  obtain ⟨q, hq, hlive', hattends⟩ := h.worker w p hp hlive
  exact ⟨w, q, hq, hlive', hlook.imp h.permit hattends⟩

theorem Carries.trans {u : TtsSynthesis} (h : Carries s s') (h' : Carries s' u) : Carries s u where
  worker := by
    intro w p hp hlive
    obtain ⟨q, hq, hlive', hattends⟩ := h.worker w p hp hlive
    obtain ⟨r, hr, hlive'', hattends'⟩ := h'.worker w q hq hlive'
    exact ⟨r, hr, hlive'', fun hlook => hattends' (hattends hlook)⟩
  permit := fun hpermit => h'.permit (h.permit hpermit)

theorem Carries.frame (hw : s'.workers = s.workers) (hshut : s'.shutdown = true → s.shutdown = true)
    (hpermit : s.permit = true → s'.permit = true) : Carries s s' where
  worker := by
    intro w p hp hlive
    refine ⟨p, by rw [phase?, hw]; exact hp, hlive, fun hattends => ?_⟩
    cases hs' : s'.shutdown with
    | false => exact SynthesisPhase.attends_of_shutdown hattends
    | true =>
      rw [hshut hs'] at hattends
      exact hattends
  permit := hpermit

theorem Carries.setPhase (hp : s.phase? w = some p) (hlive : p.live = true → q.live = true)
    (hattends : p.attends s.shutdown = true → q.attends s.shutdown = true) :
    Carries s (s.setPhase w q) where
  worker := by
    intro v r hr hr'
    by_cases hv : v = w
    · subst hv
      rw [hp] at hr
      cases hr
      exact ⟨q, phase?_setPhase_self hp, hlive hr', hattends⟩
    · exact ⟨r, by rw [phase?_setPhase_ne q hv, hr], hr', id⟩
  permit := id

variable {next : Option Nat}

theorem Carries.notifyOne (h : s.notifyOne next = some s') : Carries s s' := by
  cases next with
  | none =>
    cases h
    exact .frame rfl id fun _ => rfl
  | some w =>
    rw [TtsSynthesis.notifyOne] at h
    split at h <;> cases h
    next roused hp =>
      exact .setPhase hp (fun _ => rfl) fun _ => rfl

theorem Carries.passOn {notified : Bool} (h : s.passOn notified next = some s') : Carries s s' := by
  cases notified with
  | false =>
    cases h
    exact .frame rfl id id
  | true => exact .notifyOne h

theorem Carries.rouseAll (s : TtsSynthesis) : Carries s s.rouseAll where
  worker := by
    intro w p hp hlive
    refine ⟨rousePhase p, by rw [phase?_rouseAll, hp]; rfl, ?_, fun hattends => ?_⟩
    · cases p <;> exact hlive
    · cases p <;> exact hattends
  permit := id

variable {r : SynthesisPhase}

theorem phase_notifyOne (h : s.notifyOne next = some s')
    (hr : ∀ notified roused, r ≠ .parked notified roused) (hw : s.phase? w = some r) :
    s'.phase? w = some r := by
  cases next with
  | none =>
    cases h
    exact hw
  | some x =>
    rw [notifyOne] at h
    split at h <;> cases h
    next roused hp =>
      rw [phase?_setPhase_ne _ fun heq => ?_, hw]
      rw [← heq, hw, Option.some.injEq] at hp
      exact hr _ _ hp

theorem phase_passOn {notified : Bool} (h : s.passOn notified next = some s')
    (hr : ∀ notified roused, r ≠ .parked notified roused) (hw : s.phase? w = some r) :
    s'.phase? w = some r := by
  cases notified with
  | false =>
    cases h
    exact hw
  | true => exact phase_notifyOne h hr hw

theorem phase_setPhase {v : Nat} (hp : s.phase? w = some p) (hne : p ≠ r) (hv : s.phase? v = some r) :
    (s.setPhase w q).phase? v = some r := by
  rw [phase?_setPhase_ne q fun heq => ?_, hv]
  rw [heq, hp, Option.some.injEq] at hv
  exact hne hv

theorem notifyOne_frame (h : s.notifyOne next = some s') :
    s'.queue = s.queue ∧ s'.held = s.held ∧ s'.stops = s.stops ∧ s'.handOff = s.handOff ∧
      s'.order = s.order := by
  cases next with
  | none =>
    cases h
    exact ⟨rfl, rfl, rfl, rfl, rfl⟩
  | some w =>
    rw [notifyOne] at h
    split at h <;> cases h
    exact ⟨rfl, rfl, rfl, rfl, rfl⟩

theorem passOn_frame {notified : Bool} (h : s.passOn notified next = some s') :
    s'.queue = s.queue ∧ s'.held = s.held ∧ s'.stops = s.stops ∧ s'.handOff = s.handOff ∧
      s'.order = s.order := by
  cases notified with
  | false =>
    cases h
    exact ⟨rfl, rfl, rfl, rfl, rfl⟩
  | true => exact notifyOne_frame h

theorem attended_of_notifyOne (h : s.notifyOne next = some s') (hl : s.Live) : s'.Attended := by
  cases next with
  | none =>
    cases h
    obtain ⟨w, p, hp, hlive⟩ := hl
    exact ⟨w, p, hp, hlive, Or.inl rfl⟩
  | some w =>
    rw [notifyOne] at h
    split at h <;> cases h
    next roused hp =>
      exact ⟨w, _, phase?_setPhase_self hp, rfl, Or.inr rfl⟩

/-! ## What keeps a job from one state to the next -/

variable {t : Nat}

theorem Covered.frame (h : s.Covered t) (hstops : s'.stops = s.stops) : s'.Covered t := by
  rw [Covered, hstops]
  exact h

theorem Covered.setStop {p q : StopPhase} (h : s.Covered t) (hk : s.stops[k]? = some p)
    (hcovers : p.Covers t → q.Covers t) :
    (s.setStop k q).Covered t := by
  obtain ⟨r, hr, hrt⟩ := h
  obtain ⟨j, hj⟩ := List.getElem?_of_mem hr
  by_cases hjk : k = j
  · subst hjk
    rw [hk] at hj
    cases hj
    exact ⟨q, List.mem_of_getElem? (List.getElem?_set_self
      (List.getElem?_eq_some_iff.mp hk).1), hcovers hrt⟩
  · refine ⟨r, List.mem_of_getElem? (i := j) ?_, hrt⟩
    show (s.stops.set k q)[j]? = some r
    rw [List.getElem?_set_ne hjk, hj]

theorem Keeps.carry (h : s.Keeps t) (hc : Carries s s') (hcov : s.Covered t → s'.Covered t)
    (hhand : s'.handOff.get t = s.handOff.get t) :
    s'.Keeps t := by
  rcases h with h | h | h | h
  · exact Or.inl (hcov h)
  · exact Or.inr (Or.inl (hc.attended h))
  · refine Or.inr (Or.inr (Or.inl ?_))
    rw [Ensuring, hhand]
    exact h
  · refine Or.inr (Or.inr (Or.inr ⟨?_, hc.live h.2⟩))
    rw [hhand]
    exact h.1

theorem Owned.carry (h : s.Owned) (hc : Carries s s') (hqueue : s'.queue.Sublist s.queue)
    (hcov : ∀ t ∈ s'.queue, s.Covered t → s'.Covered t) (hhand : s'.handOff = s.handOff)
    (hholder : s'.held ≠ none → ∃ w, s'.phase? w = some .holding) : s'.Owned where
  kept := fun t ht => (h.kept t (hqueue.subset ht)).carry hc (hcov t ht) (by rw [hhand])
  holder := hholder

theorem holder_setPhase (hp : s.phase? w = some p) (hne : p ≠ .holding)
    (h : s.held ≠ none → ∃ w, s.phase? w = some .holding) (hheld : s.held ≠ none) :
    ∃ v, (s.setPhase w q).phase? v = some .holding := by
  obtain ⟨v, hv⟩ := h hheld
  exact ⟨v, phase_setPhase hp hne hv⟩

theorem Owned.move (h : s.Owned) (hp : s.phase? w = some p) (hne : p ≠ .holding)
    (hlive : p.live = true → q.live = true)
    (hattends : p.attends s.shutdown = true → q.attends s.shutdown = true) :
    (s.setPhase w q).Owned :=
  h.carry (.setPhase hp hlive hattends) (List.Sublist.refl _) (fun _ _ => id) rfl
    (holder_setPhase hp hne h.holder)

theorem Owned.attended (ha : s'.Attended)
    (hholder : s'.held ≠ none → ∃ w, s'.phase? w = some .holding) : s'.Owned :=
  ⟨fun _ _ => Or.inr (Or.inl ha), hholder⟩

theorem attended_setPhase (hp : s.phase? w = some p) (hattends : q.attends s.shutdown = true) :
    (s.setPhase w q).Attended :=
  ⟨w, q, phase?_setPhase_self hp, SynthesisPhase.live_of_attends hattends, Or.inr hattends⟩

theorem pushClaimed_cases (s : TtsSynthesis) (es : List OrderEvent) :
    (∃ t, es = [.claimed t] ∧ s.pushClaimed es =
      { s with queue := s.queue ++ [t], handOff := s.handOff.set t .claimed }) ∨
    ((∀ t, es ≠ [.claimed t]) ∧ s.pushClaimed es = s) := by
  unfold pushClaimed
  split
  · next t => exact Or.inl ⟨t, rfl, rfl⟩
  · next hne => exact Or.inr ⟨fun t heq => hne t heq, rfl⟩

theorem Owned.sent (h : s.Owned) (o : TtsSendOrder) (es : List OrderEvent) :
    ({ s with order := o }.pushClaimed es).Owned := by
  rcases pushClaimed_cases { s with order := o } es with ⟨t, -, heq⟩ | ⟨-, heq⟩ <;> rw [heq]
  · refine ⟨fun u hu => ?_, h.holder⟩
    by_cases hut : u = t
    · refine Or.inr (Or.inr (Or.inl (Or.inl ?_)))
      rw [InsertMap.get_set, if_pos hut]
    · have hqueued : u ∈ s.queue := by
        rcases List.mem_append.mp hu with hu | hu
        · exact hu
        · exact absurd (List.mem_singleton.mp hu) hut
      refine (h.kept u hqueued).carry (.frame rfl id id) (fun hc => hc.frame rfl) ?_
      rw [InsertMap.get_set, if_neg hut]
  · exact h.carry (.frame rfl id id) (List.Sublist.refl _) (fun _ _ => id) rfl h.holder

theorem Keeps.setHandOff {u : Nat} {v : HandOff} (h : s.Keeps u) (hut : u ≠ t)
    (hhand : s'.handOff = s.handOff.set t v) (hc : Carries s s') (hstops : s'.stops = s.stops) :
    s'.Keeps u := by
  refine h.carry hc (fun hcov => hcov.frame hstops) ?_
  rw [hhand, InsertMap.get_set, if_neg hut]

section

variable (h : s.Owned)
include h

theorem Owned.ensureFlag (hm : s.shutdown = true → s.Backed t) : (s.ensureFlag t).Owned := by
  have hcarries : Carries s (s.ensureFlag t) := .frame rfl id id
  refine ⟨fun u hu => ?_, h.holder⟩
  by_cases hut : u = t
  · subst hut
    have hget : (s.ensureFlag u).handOff.get u =
        some (if s.shutdown then .notifying else .ensuring) := by
      rw [TtsSynthesis.ensureFlag, InsertMap.get_set, if_pos rfl]
    cases hshut : s.shutdown with rw [hshut] at hget
    | false =>
      exact Or.inr (Or.inr (Or.inl (Or.inr hget)))
    | true =>
      rcases hm hshut with hout | hcov | hlive
      · exact absurd hu hout
      · exact Or.inl (hcov.frame rfl)
      · exact Or.inr (Or.inr (Or.inr ⟨hget, hcarries.live hlive⟩))
  · exact (h.kept u hu).setHandOff hut rfl hcarries rfl

theorem Owned.ensureSlot (hm : s.slot ≠ none → s.Backed t) : (s.ensureSlot t).Owned := by
  rw [TtsSynthesis.ensureSlot]
  split
  · next w hslot =>
    have hcarries : Carries s { s with handOff := s.handOff.set t .notifying } :=
      .frame rfl id id
    refine ⟨fun u hu => ?_, h.holder⟩
    by_cases hut : u = t
    · subst hut
      have hslot' : s.slot = some w := hslot
      rcases hm (by rw [hslot']; exact Option.some_ne_none w) with hout | hcov | hlive
      · exact absurd hu hout
      · exact Or.inl (hcov.frame rfl)
      · refine Or.inr (Or.inr (Or.inr ⟨?_, hcarries.live hlive⟩))
        rw [InsertMap.get_set, if_pos rfl]
    · exact (h.kept u hu).setHandOff hut rfl hcarries rfl
  · have hcarries : Carries s { s with
        handOff := s.handOff.set t .notifying
        workers := s.workers ++ [⟨.parked false false, false⟩]
        slot := some s.workers.length } :=
      ⟨fun w p hp hlive => ⟨p, phase?_append s _ hp, hlive, id⟩, id⟩
    refine ⟨fun u hu => ?_, fun hne => ?_⟩
    · by_cases hut : u = t
      · refine Or.inr (Or.inr (Or.inr ⟨?_, s.workers.length, .parked false false, ?_, rfl⟩))
        · rw [InsertMap.get_set, if_pos hut]
        · simp [phase?]
      · exact (h.kept u hu).setHandOff hut rfl hcarries rfl
    · obtain ⟨w, hw⟩ := h.holder hne
      exact ⟨w, phase?_append s _ hw⟩

theorem Owned.notifyOne (ht : s.handOff.get t = some .notifying)
    (hn : { s with handOff := s.handOff.delete t }.notifyOne next = some s') : s'.Owned := by
  obtain ⟨hqueue, hheld, hstops, hhand, -⟩ := notifyOne_frame hn
  have hfirst : Carries s { s with handOff := s.handOff.delete t } := .frame rfl id id
  have hcarries : Carries s s' := hfirst.trans (.notifyOne hn)
  refine ⟨fun u hu => ?_, fun hne => ?_⟩
  · rw [hqueue] at hu
    have hkept := h.kept u hu
    by_cases hut : u = t
    · subst hut
      rcases hkept with hcov | hatt | hens | hlive
      · exact Or.inl (hcov.frame hstops)
      · exact Or.inr (Or.inl (hcarries.attended hatt))
      · rw [Ensuring, ht] at hens
        simp at hens
      · exact Or.inr (Or.inl (attended_of_notifyOne hn (hfirst.live hlive.2)))
    · refine hkept.carry hcarries (fun hc => hc.frame hstops) ?_
      rw [hhand, InsertMap.get_delete, if_neg hut]
  · rw [hheld] at hne
    obtain ⟨w, hw⟩ := h.holder hne
    exact ⟨w, phase_notifyOne hn (by simp) hw⟩

theorem Owned.rouse {notified roused : Bool} (hp : s.phase? w = some (.parked notified roused))
    (hn : (s.setPhase w .woken).passOn notified next = some s') : s'.Owned := by
  obtain ⟨-, hheld, -⟩ := passOn_frame hn
  have hwoken : (s.setPhase w .woken).Attended := attended_setPhase hp rfl
  refine .attended ((Carries.passOn hn).attended hwoken) fun hne => ?_
  rw [hheld] at hne
  obtain ⟨v, hv⟩ := holder_setPhase (q := .woken) hp (by simp) h.holder hne
  exact ⟨v, phase_passOn hn (by simp) hv⟩

theorem Owned.look (hp : s.phase? w = some .woken) :
    (s.setPhase w (if s.shutdown then .leaving else .checking)).Owned := by
  refine .attended (attended_setPhase hp ?_) (holder_setPhase hp (by simp) h.holder)
  cases s.shutdown <;> rfl

theorem Owned.check (hp : s.phase? w = some .checking) :
    (s.setPhase w (if s.shutdown then .resting else .popping)).Owned := by
  refine h.move hp (by simp) (fun _ => ?_) fun hattends => ?_
  · cases s.shutdown <;> rfl
  · cases hs : s.shutdown with
    | false => rfl
    | true =>
      rw [hs] at hattends
      cases hattends

theorem Owned.rest (hp : s.phase? w = some .resting) :
    (s.setPhase w (if s.shutdown then .leaving else .parked false false)).Owned := by
  refine h.move hp (by simp) (fun _ => ?_) fun hattends => by cases hattends
  cases s.shutdown <;> rfl

theorem Owned.pop (hp : s.phase? w = some .popping) : (s.popJob w).1.Owned := by
  rw [popJob]
  split
  · next hempty =>
    refine ⟨fun t ht => ?_, holder_setPhase hp (by simp) h.holder⟩
    have ht' : t ∈ s.queue := ht
    rw [hempty] at ht'
    cases ht'
  · next t queue hqueue =>
    have hcarries : Carries s ({ s with queue := queue, held := some t }.setPhase w .holding) :=
      (Carries.setPhase (q := .holding) hp (fun _ => rfl) id).trans (.frame rfl id id)
    refine h.carry hcarries ?_ (fun _ _ => id) rfl fun _ => ⟨w, phase?_setPhase_self hp⟩
    rw [hqueue]
    exact List.sublist_cons_self t queue

theorem Owned.takeHeld (hp : s.phase? w = some .holding) : (s.takeHeld w).Owned := by
  rw [TtsSynthesis.takeHeld]
  split
  · next hnone =>
    exact h.carry (.setPhase hp (fun _ => rfl) id) (List.Sublist.refl _) (fun _ _ => id) rfl
      fun hne => absurd hnone hne
  · next t hsome =>
    have hcarries : Carries s ({ s with held := none }.setPhase w (.running t)) :=
      (Carries.setPhase (q := .running t) hp (fun _ => rfl) id).trans (.frame rfl id id)
    exact h.carry hcarries (List.Sublist.refl _) (fun _ _ => id) rfl fun hne => absurd rfl hne

end

theorem Owned.dropLeftovers (s : TtsSynthesis) (w : Nat) : (s.dropLeftovers w).1.Owned where
  kept := fun _ ht => absurd ht List.not_mem_nil
  holder := fun hne => absurd rfl hne

/-! ## A worker is dropped -/

theorem dropWorker_cases (hd : s.dropWorker w next p = some (s', es)) :
    ∃ notified, (s.setPhase w .aborted).passOn notified next = some s' ∧
      ((∃ roused, p = .parked true roused) → notified = true) := by
  cases p with
  | parked notified roused =>
    rw [dropWorker, Option.map_eq_some_iff] at hd
    obtain ⟨t, ht, heq⟩ := hd
    cases heq
    refine ⟨notified, ht, ?_⟩
    rintro ⟨_, heq⟩
    cases heq
    rfl
  | popping | holding | leaving | running t =>
    cases hd
    exact ⟨false, rfl, by simp⟩
  | _ => cases hd

theorem owned_drop (hp : s.phase? w = some p) (hm : s.Spare w)
    (hd : s.dropWorker w next p = some (s', es)) : s'.Owned := by
  obtain ⟨notified, hn, hwake⟩ := dropWorker_cases hd
  obtain ⟨hqueue, hheld, hstops, hhand, -⟩ := passOn_frame hn
  have hcarries : Carries (s.setPhase w .aborted) s' := .passOn hn
  have hother : ∀ v q, v ≠ w → s.phase? v = some q → (s.setPhase w .aborted).phase? v = some q :=
    fun v q hv hq => by rw [phase?_setPhase_ne _ hv, hq]
  refine ⟨fun t ht => ?_, fun hne => ?_⟩
  · rw [hqueue] at ht
    rcases hm.2 t ht with hcov | hens | ⟨v, hv, hlook⟩
    · exact Or.inl (hcov.frame hstops)
    · refine Or.inr (Or.inr (Or.inl ?_))
      rw [Ensuring, hhand]
      exact hens
    · rcases hlook with ⟨q, hq, hlive, hlook⟩ | ⟨q, hq, hlive, hwoken | hhanded⟩
      · exact Or.inr (Or.inl (hcarries.attended ⟨v, q, hother v q hv hq, hlive, hlook⟩))
      · refine Or.inr (Or.inl ?_)
        rw [hp] at hwoken
        simp only [Option.some.injEq] at hwoken
        rw [hwake hwoken] at hn
        exact attended_of_notifyOne hn ⟨v, q, hother v q hv hq, hlive⟩
      · refine Or.inr (Or.inr (Or.inr ⟨?_, hcarries.live ⟨v, q, hother v q hv hq, hlive⟩⟩))
        rw [hhand]
        exact hhanded
  · rw [hheld] at hne
    rcases hm.1 with hnone | ⟨v, hv, hhold⟩
    · exact absurd hnone hne
    · exact ⟨v, phase_passOn hn (by simp) (hother v _ hv hhold)⟩

/-! ## Stops, starts and cuts -/

section

variable (h : s.Owned)
include h

theorem Owned.setStop {p q : StopPhase} (hk : s.stops[k]? = some p)
    (hcovers : ∀ t ∈ s.queue, p.Covers t → q.Covers t) : (s.setStop k q).Owned :=
  h.carry (.frame rfl id id) (List.Sublist.refl _)
    (fun t ht hc => hc.setStop hk (hcovers t ht)) rfl h.holder

theorem Owned.raiseShutdown (hk : s.stops[k]? = some .halted) :
    ({ s with shutdown := true }.setStop k .raised).Owned where
  kept := fun _ _ => Or.inl ⟨.raised, List.mem_of_getElem? (List.getElem?_set_self
    (List.getElem?_eq_some_iff.mp hk).1), trivial⟩
  holder := h.holder

theorem Owned.stop : Owned { s with running := false, stops := s.stops ++ [.halted] } where
  kept := fun _ _ => Or.inl ⟨.halted, by simp, trivial⟩
  holder := h.holder

theorem Owned.start : Owned { s with running := true, starts := s.starts + 1 } :=
  h.carry (.frame rfl id id) (List.Sublist.refl _) (fun _ _ => id) rfl h.holder

theorem Owned.clearShutdown : Owned { s with shutdown := false, starts := s.starts - 1 } :=
  h.carry (.frame rfl (fun hs => by cases hs) id) (List.Sublist.refl _) (fun _ _ => id) rfl
    h.holder

theorem Owned.rouseAll : s.rouseAll.Owned := by
  refine h.carry (.rouseAll s) (List.Sublist.refl _) (fun _ _ => id) rfl fun hne => ?_
  obtain ⟨w, hw⟩ := h.holder hne
  exact ⟨w, by rw [phase?_rouseAll, hw]; rfl⟩

theorem Owned.takeSlot (hk : s.stops[k]? = some .notified) : (s.takeSlot k).Owned := by
  rw [TtsSynthesis.takeSlot]
  split
  · exact h.setStop hk fun _ _ hc => hc.elim
  · next w _ =>
    have hslot : Owned { s with slot := none } :=
      h.carry (.frame rfl id id) (List.Sublist.refl _) (fun _ _ => id) rfl h.holder
    exact hslot.setStop hk fun _ _ hc => hc.elim

theorem Owned.requestAbort (w : Nat) : Owned { s with workers := s.workers.modify w fun worker =>
      { worker with abortRequested := true } } where
  kept := fun t ht => by
    refine (h.kept t ht).carry ⟨fun v p hp hlive => ?_, id⟩ (fun hc => hc.frame rfl) rfl
    exact ⟨p, by rw [phase?_abortRequested, hp], hlive, id⟩
  holder := fun hne => by
    obtain ⟨v, hv⟩ := h.holder hne
    exact ⟨v, by rw [phase?_abortRequested, hv]⟩

theorem Owned.cutOrder : s.cutOrder.1.Owned :=
  h.carry (.frame rfl id id) (List.Sublist.refl _) (fun _ _ => id) rfl h.holder

theorem Owned.collectBefore (below : Nat) : (s.collectBefore below).1.Owned := by
  refine h.carry (.frame rfl id id) (List.dropWhile_sublist _) (fun _ _ => id) rfl fun hne => ?_
  refine h.holder fun hnone => hne ?_
  show s.held.filter _ = none
  rw [hnone]
  rfl

end

/-! ## The tickets in the queue -/

end TtsSynthesis

def SynthesisEvent.order? : SynthesisEvent → Option OrderEvent
  | .order e => some e
  | .ended _ => none

def orderEvents (out : List SynthesisEvent) : List OrderEvent :=
  out.filterMap SynthesisEvent.order?

theorem orderEvents_append (out es : List SynthesisEvent) :
    orderEvents (out ++ es) = orderEvents out ++ orderEvents es := List.filterMap_append

theorem orderEvents_order (es : List OrderEvent) :
    orderEvents (es.map SynthesisEvent.order) = es := by
  rw [orderEvents, List.filterMap_map]
  exact List.filterMap_some

theorem orderEvents_ended (ts : List Nat) : orderEvents (ts.map SynthesisEvent.ended) = [] := by
  rw [orderEvents, List.filterMap_map]
  exact List.filterMap_eq_nil_iff.mpr fun _ _ => rfl

theorem le_of_mem_dropWhile {below t : Nat} {l : List Nat} (hl : l.Pairwise (· < ·))
    (ht : t ∈ l.dropWhile (· < below)) : below ≤ t := by
  induction l with
  | nil => cases ht
  | cons a l ih =>
    rw [List.pairwise_cons] at hl
    rw [List.dropWhile_cons] at ht
    split at ht
    · exact ih hl.2 ht
    · next ha =>
      rw [decide_eq_true_eq, Nat.not_lt] at ha
      rcases List.mem_cons.mp ht with rfl | ht
      · exact ha
      · exact Nat.le_trans ha (Nat.le_of_lt (hl.1 t ht))

namespace TtsSynthesis

variable {s s' : TtsSynthesis} {out es : List SynthesisEvent}

/-- The send order of the run, and the queue against the claims. -/
structure Queued (s : TtsSynthesis) (out : List SynthesisEvent) : Prop where
  order : OrderInv s.order (orderEvents out)
  claimed : s.queue.Sublist (claimedTickets (orderEvents out))

theorem Queued.sorted (h : Queued s out) : s.queue.Pairwise (· < ·) :=
  h.order.turned.increasing.sublist h.claimed

variable {t : Nat}

theorem Queued.issued (h : Queued s out) (ht : t ∈ s.queue) : t < s.order.state.nextTicket := by
  obtain ⟨-, p, hp, -⟩ := h.order.turned.claimed t (mem_claimedTickets.mp (h.claimed.subset ht))
  rw [h.order.ordered.issued]
  rw [TtsSendOrder.phase?, Option.map_eq_some_iff] at hp
  obtain ⟨send, hsend, -⟩ := hp
  exact (List.getElem?_eq_some_iff.mp hsend).1

theorem Queued.new : Queued .new [] := ⟨OrderInv.init, List.nil_sublist _⟩

theorem Queued.keep (h : Queued s out) (horder : s'.order = s.order)
    (hqueue : s'.queue.Sublist s.queue) (hes : orderEvents es = []) : Queued s' (out ++ es) := by
  refine ⟨?_, ?_⟩
  · rw [orderEvents_append, hes, List.append_nil, horder]
    exact h.order
  · rw [orderEvents_append, hes, List.append_nil]
    exact hqueue.trans h.claimed

theorem Queued.cutOrder (h : Queued s out) : Queued s.cutOrder.1 (out ++ s.cutOrder.2.2) := by
  have hcut : s.order.step .cut = some (s.cutOrder.1.order, [.cut s.order.state.cut.1]) := rfl
  have horder := h.order.step hcut
  refine ⟨?_, ?_⟩
  · rw [orderEvents_append]
    exact horder
  · rw [orderEvents_append, claimedTickets_append]
    exact h.claimed.trans (List.sublist_append_left _ _)

theorem Queued.sent (h : Queued s out) {i : OrderInput} {o : TtsSendOrder}
    {es : List OrderEvent} (hi : s.order.step i = some (o, es)) :
    Queued ({ s with order := o }.pushClaimed es) (out ++ es.map SynthesisEvent.order) := by
  have horder := h.order.step hi
  have hkeep : s.queue.Sublist (claimedTickets (orderEvents out ++ es)) := by
    rw [claimedTickets_append]
    exact h.claimed.trans (List.sublist_append_left _ _)
  rcases pushClaimed_cases { s with order := o } es with ⟨t, rfl, heq⟩ | ⟨-, heq⟩ <;> rw [heq]
  · refine ⟨?_, ?_⟩
    · rw [orderEvents_append]
      exact horder
    · rw [orderEvents_append, claimedTickets_append]
      exact h.claimed.append (List.Sublist.refl [t])
  · refine ⟨?_, ?_⟩ <;> rw [orderEvents_append, orderEvents_order]
    · exact horder
    · exact hkeep

variable {w : Nat} {next : Option Nat} {p : SynthesisPhase}

theorem orderEvents_dropWorker (hd : s.dropWorker w next p = some (s', es)) :
    orderEvents es = [] := by
  cases p with
  | parked notified roused =>
    rw [dropWorker, Option.map_eq_some_iff] at hd
    obtain ⟨t, -, heq⟩ := hd
    cases heq
    rfl
  | popping | holding | leaving | running t =>
    cases hd
    rfl
  | _ => cases hd

theorem orderEvents_popJob (s : TtsSynthesis) (w : Nat) : orderEvents (s.popJob w).2 = [] := by
  rw [popJob]
  split
  · rfl
  · rw [Option.toList_map]
    exact orderEvents_ended _

theorem collectBefore_frame (s : TtsSynthesis) (below : Nat) :
    (s.collectBefore below).1.order = s.order ∧
      (s.collectBefore below).1.queue.Sublist s.queue ∧
      orderEvents (s.collectBefore below).2 = [] :=
  ⟨rfl, List.dropWhile_sublist _, orderEvents_ended _⟩

variable {i : SynthesisInput}

theorem Queued.step (h : Queued s out) (hs : SynthesisStep s i s' es) : Queued s' (out ++ es) := by
  cases hs with
  | sent i o es hi => exact h.sent hi
  | notified t next _ ht hn =>
    obtain ⟨hqueue, -, -, -, horder⟩ := notifyOne_frame hn
    exact h.keep horder (hqueue ▸ List.Sublist.refl _) rfl
  | roused w notified roused next _ hp hn =>
    obtain ⟨hqueue, -, -, -, horder⟩ := passOn_frame hn
    exact h.keep horder (hqueue ▸ List.Sublist.refl _) rfl
  | dropped w next p _ es hp hd =>
    obtain ⟨notified, hn, -⟩ := dropWorker_cases hd
    obtain ⟨hqueue, -, -, -, horder⟩ := passOn_frame hn
    exact h.keep horder (hqueue ▸ List.Sublist.refl _) (orderEvents_dropWorker hd)
  | ensured t ht =>
    refine h.keep ?_ ?_ rfl <;> rw [TtsSynthesis.ensureSlot]
    · split <;> rfl
    · split <;> exact List.Sublist.refl _
  | popped w hp =>
    refine h.keep ?_ ?_ ?_
    · rw [popJob]
      split <;> rfl
    · rw [popJob]
      split
      · exact List.Sublist.refl _
      · next hqueue =>
        rw [hqueue]
        exact List.sublist_cons_self _ _
    · exact orderEvents_popJob s w
  | taken w hp =>
    refine h.keep ?_ ?_ rfl <;> rw [TtsSynthesis.takeHeld]
    · split <;> rfl
    · split <;> exact List.Sublist.refl _
  | slotTaken k hk =>
    refine h.keep ?_ ?_ rfl <;> rw [TtsSynthesis.takeSlot]
    · split <;> rfl
    · split <;> exact List.Sublist.refl _
  | left w hp => exact h.keep rfl (List.nil_sublist _) (orderEvents_ended _)
  | collected k below hk =>
    obtain ⟨horder, hqueue, hes⟩ := s.collectBefore_frame below
    exact h.keep horder hqueue hes
  | flushCollected below =>
    obtain ⟨horder, hqueue, hes⟩ :=
      { s with flushes := s.flushes.erase below }.collectBefore_frame below
    exact h.keep horder hqueue hes
  | stopCut k hk | flushCut =>
    obtain ⟨horder, hclaimed⟩ := h.cutOrder
    exact ⟨horder, hclaimed⟩
  | _ => exact h.keep rfl (List.Sublist.refl _) rfl

theorem Owned.step (h : s.Owned) (hq : Queued s out) (hm : s.Meets i) (hs : SynthesisStep s i s' es) :
    s'.Owned := by
  cases hs with
  | sent i o es hi => exact h.sent o es
  | flagged t ht => exact h.ensureFlag hm
  | ensured t ht => exact h.ensureSlot hm
  | notified t next _ ht hn => exact h.notifyOne ht hn
  | woken w roused hp =>
    exact .attended (attended_setPhase hp rfl) (holder_setPhase hp (by simp) h.holder)
  | permitted w roused hp =>
    refine .attended ⟨w, .woken, phase?_setPhase_self hp, rfl, Or.inr rfl⟩ fun hne => ?_
    exact holder_setPhase hp (by simp) h.holder hne
  | roused w notified roused next _ hp hn => exact h.rouse hp hn
  | looked w hp => exact h.look hp
  | checked w hp => exact h.check hp
  | popped w hp => exact h.pop hp
  | taken w hp => exact h.takeHeld hp
  | finished w t hp => exact h.move hp (by simp) (fun _ => rfl) id
  | rested w hp => exact h.rest hp
  | left w hp => exact .dropLeftovers s w
  | dropped w next p _ es hp hd => exact owned_drop hp hm hd
  | started => exact h.start
  | cleared => exact h.clearShutdown
  | stopped => exact h.stop
  | raised k hk => exact h.raiseShutdown hk
  | stopCut k hk =>
    refine h.cutOrder.setStop hk fun t ht _ => ?_
    show t < s.order.state.cut.1.below
    rw [(cut_fields _ hq.order.ordered.bounded).1]
    exact hq.issued ht
  | collected k below hk =>
    refine (h.collectBefore below).setStop hk fun t ht hc => ?_
    exact absurd hc (Nat.not_lt.mpr (le_of_mem_dropWhile hq.sorted ht))
  | waiters k hk => exact h.rouseAll.setStop hk fun _ _ hc => hc.elim
  | slotTaken k hk => exact h.takeSlot hk
  | timedOut k w hk => exact (h.requestAbort w).setStop hk fun _ _ hc => hc.elim
  | joined k w hk =>
    rcases hk with hk | hk <;> exact h.setStop hk fun _ _ hc => hc.elim
  | flushCut =>
    have hcut := h.cutOrder
    refine ⟨fun t ht => ?_, hcut.holder⟩
    exact (hcut.kept t ht).carry (.frame rfl id id) (fun hc => hc.frame rfl) rfl
  | flushCollected below =>
    have hflush : Owned { s with flushes := s.flushes.erase below } :=
      h.carry (.frame rfl id id) (List.Sublist.refl _) (fun _ _ => id) rfl h.holder
    exact hflush.collectBefore below

/-! ## Where a claimed job is -/

def Placed (s : TtsSynthesis) (t : Nat) : Prop :=
  t ∈ s.queue ∨ s.held = some t ∨ ∃ w, s.phase? w = some (.running t)

section

variable (h : s.Placed t)
include h

theorem Placed.setPhase {q : SynthesisPhase} (hp : s.phase? w = some p) (hne : p ≠ .running t) :
    (s.setPhase w q).Placed t := by
  refine h.imp_right fun h => h.imp_right fun h => ?_
  obtain ⟨v, hv⟩ := h
  exact ⟨v, phase_setPhase hp hne hv⟩

theorem Placed.notifyOne (hn : s.notifyOne next = some s') : s'.Placed t := by
  obtain ⟨hqueue, hheld, -⟩ := notifyOne_frame hn
  rw [Placed, hqueue, hheld]
  refine h.imp_right fun h => h.imp_right fun h => ?_
  obtain ⟨v, hv⟩ := h
  exact ⟨v, phase_notifyOne hn (by simp) hv⟩

theorem Placed.passOn {notified : Bool} (hn : s.passOn notified next = some s') : s'.Placed t := by
  cases notified with
  | false =>
    cases hn
    exact h
  | true => exact h.notifyOne hn

theorem Placed.pop (hp : s.phase? w = some .popping) :
    (s.popJob w).1.Placed t ∨ .ended t ∈ (s.popJob w).2 := by
  rw [popJob]
  split
  · exact Or.inl (h.setPhase hp (by simp))
  · next u queue hqueue =>
    rcases h with h | h | ⟨v, hv⟩
    · rw [hqueue, List.mem_cons] at h
      rcases h with rfl | h
      · exact Or.inl (Or.inr (Or.inl rfl))
      · exact Or.inl (Or.inl h)
    · refine Or.inr ?_
      rw [h]
      exact List.mem_singleton.mpr rfl
    · exact Or.inl (Or.inr (Or.inr ⟨v, phase_setPhase hp (by simp) hv⟩))

theorem Placed.takeHeld (hp : s.phase? w = some .holding) : (s.takeHeld w).Placed t := by
  rw [TtsSynthesis.takeHeld]
  split
  · exact h.setPhase hp (by simp)
  · next u hu =>
    rcases h with h | h | ⟨v, hv⟩
    · exact Or.inl h
    · rw [hu] at h
      cases h
      exact Or.inr (Or.inr ⟨w, phase?_setPhase_self hp⟩)
    · exact Or.inr (Or.inr ⟨v, phase_setPhase hp (by simp) hv⟩)

theorem Placed.dropLeftovers (hp : s.phase? w = some .leaving) :
    (s.dropLeftovers w).1.Placed t ∨ .ended t ∈ (s.dropLeftovers w).2 := by
  rcases h with h | h | ⟨v, hv⟩
  · exact Or.inr (List.mem_map_of_mem (List.mem_append_right _ h))
  · refine Or.inr (List.mem_map_of_mem (List.mem_append_left _ ?_))
    rw [h]
    exact List.mem_singleton.mpr rfl
  · exact Or.inl (Or.inr (Or.inr ⟨v, phase_setPhase hp (by simp) hv⟩))

theorem Placed.drop (hp : s.phase? w = some p) (hd : s.dropWorker w next p = some (s', es)) :
    s'.Placed t ∨ .ended t ∈ es := by
  by_cases hrun : p = .running t
  · subst hrun
    cases hd
    exact Or.inr (List.mem_singleton.mpr rfl)
  · obtain ⟨notified, hn, -⟩ := dropWorker_cases hd
    exact Or.inl ((h.setPhase hp hrun).passOn hn)

theorem Placed.collectBefore (below : Nat) :
    (s.collectBefore below).1.Placed t ∨ .ended t ∈ (s.collectBefore below).2 := by
  rcases h with h | h | h
  · rw [← List.takeWhile_append_dropWhile (p := (· < below)) (l := s.queue),
      List.mem_append] at h
    rcases h with h | h
    · exact Or.inr (List.mem_map_of_mem (List.mem_append_right _ h))
    · exact Or.inl (Or.inl h)
  · by_cases ht : t < below
    · refine Or.inr (List.mem_map_of_mem (List.mem_append_left _ ?_))
      rw [h]
      simp [ht]
    · refine Or.inl (Or.inr (Or.inl ?_))
      show s.held.filter _ = some t
      rw [h]
      simp [Nat.le_of_not_lt ht]
  · exact Or.inl (Or.inr (Or.inr h))

theorem Placed.step (hs : SynthesisStep s i s' es) : s'.Placed t ∨ .ended t ∈ es := by
  cases hs with
  | sent i o es hi =>
    rcases pushClaimed_cases { s with order := o } es with ⟨u, -, heq⟩ | ⟨-, heq⟩ <;> rw [heq]
    · exact Or.inl (h.imp_left fun h => List.mem_append_left _ h)
    · exact Or.inl h
  | ensured u hu =>
    rw [TtsSynthesis.ensureSlot]
    split
    · exact Or.inl h
    · refine Or.inl (h.imp_right fun h => h.imp_right fun h => ?_)
      obtain ⟨v, hv⟩ := h
      exact ⟨v, phase?_append s _ hv⟩
  | notified u next _ hu hn =>
    have hsame : Placed { s with handOff := s.handOff.delete u } t := h
    exact Or.inl (hsame.notifyOne hn)
  | woken w roused hp | permitted w roused hp | looked w hp | checked w hp | rested w hp =>
    exact Or.inl (h.setPhase hp (by simp))
  | roused w notified roused next _ hp hn => exact Or.inl ((h.setPhase hp (by simp)).passOn hn)
  | popped w hp => exact h.pop hp
  | taken w hp => exact Or.inl (h.takeHeld hp)
  | finished w u hp =>
    by_cases hut : u = t
    · exact Or.inr (List.mem_singleton.mpr (hut ▸ rfl))
    · exact Or.inl (h.setPhase hp (by simp [hut]))
  | left w hp => exact h.dropLeftovers hp
  | dropped w next p _ es hp hd => exact h.drop hp hd
  | collected k below hk => exact h.collectBefore below
  | flushCollected below =>
    have hsame : Placed { s with flushes := s.flushes.erase below } t := h
    exact hsame.collectBefore below
  | waiters k hk =>
    refine Or.inl (h.imp_right fun h => h.imp_right fun h => ?_)
    obtain ⟨v, hv⟩ := h
    refine ⟨v, ?_⟩
    show s.rouseAll.phase? v = _
    rw [phase?_rouseAll, hv]
    rfl
  | slotTaken k hk =>
    rw [TtsSynthesis.takeSlot]
    split <;> exact Or.inl h
  | timedOut k w hk =>
    refine Or.inl (h.imp_right fun h => h.imp_right fun h => ?_)
    obtain ⟨v, hv⟩ := h
    exact ⟨v, (phase?_abortRequested s w v).trans hv⟩
  | _ => exact Or.inl h

end

/-- Every claimed job is in its place, or its end was put out. -/
def Accounted (s : TtsSynthesis) (out : List SynthesisEvent) : Prop :=
  ∀ t ∈ claimedTickets (orderEvents out), s.Placed t ∨ .ended t ∈ out

theorem claimed_of_order {o o' : TtsSendOrder} {i : OrderInput} {es : List OrderEvent}
    (h : o.step i = some (o', es)) (ht : t ∈ claimedTickets es) : es = [.claimed t] := by
  rw [mem_claimedTickets] at ht
  cases orderStep_of_step h with
  | claimed id hp hlive =>
    rw [List.mem_singleton] at ht
    rw [ht]
  | _ => simp at ht

theorem claimed_queued (hs : SynthesisStep s i s' es) (ht : t ∈ claimedTickets (orderEvents es)) :
    t ∈ s'.queue := by
  cases hs with
  | sent i o es hi =>
    rw [orderEvents_order] at ht
    obtain rfl := claimed_of_order hi ht
    exact List.mem_append_right _ (List.mem_singleton.mpr rfl)
  | popped w hp =>
    rw [orderEvents_popJob] at ht
    cases ht
  | left w hp =>
    rw [dropLeftovers, orderEvents_ended] at ht
    cases ht
  | dropped w next p _ es hp hd =>
    rw [orderEvents_dropWorker hd] at ht
    cases ht
  | collected k below hk =>
    rw [(s.collectBefore_frame below).2.2] at ht
    cases ht
  | flushCollected below =>
    have hframe := { s with flushes := s.flushes.erase below }.collectBefore_frame below
    rw [hframe.2.2] at ht
    cases ht
  | _ => cases ht

theorem Accounted.step (h : s.Accounted out) (hs : SynthesisStep s i s' es) :
    s'.Accounted (out ++ es) := by
  intro t ht
  rw [orderEvents_append, claimedTickets_append, List.mem_append] at ht
  rcases ht with ht | ht
  · rcases h t ht with hplaced | hended
    · exact (hplaced.step hs).imp_right fun h => List.mem_append_right _ h
    · exact Or.inr (List.mem_append_left _ hended)
  · refine Or.inl (Or.inl ?_)
    exact claimed_queued hs ht

/-! ## A worker that will look reaches the queue -/

def OwnStep (w : Nat) (i : SynthesisInput) : Prop :=
  i = .wake w ∨ i = .look w ∨ i = .check w ∨ i = .take w ∨ i = .finish w ∨ i = .rest w

/-- By steps of its own the worker comes to pop the queue or to drop what is left in it. -/
inductive ReachesQueue (w : Nat) : TtsSynthesis → Prop
  | here {s : TtsSynthesis} (h : s.phase? w = some .popping ∨ s.phase? w = some .leaving) :
      ReachesQueue w s
  | after {s s' : TtsSynthesis} {i : SynthesisInput} {es : List SynthesisEvent}
      (hi : OwnStep w i) (hs : s.step i = some (s', es)) (h : ReachesQueue w s') :
      ReachesQueue w s

theorem step_worker (hp : s.phase? w = some p) (hi : OwnStep w i) :
    s.step i = s.stepWorker w p i := by
  rcases hi with rfl | rfl | rfl | rfl | rfl | rfl
  all_goals
    rw [step, hp]
    rfl

theorem reaches_checking (hp : s.phase? w = some .checking) : ReachesQueue w s := by
  have hi : OwnStep w (.check w) := by simp [OwnStep]
  refine .after hi ((step_worker hp hi).trans rfl) ?_
  cases hs : s.shutdown with
  | false => exact .here (Or.inl (phase?_setPhase_self hp))
  | true =>
    have hp' : (s.setPhase w .resting).phase? w = some .resting := phase?_setPhase_self hp
    have hi' : OwnStep w (.rest w) := by simp [OwnStep]
    refine .after hi' ((step_worker hp' hi').trans rfl) (.here (Or.inr ?_))
    rw [phase?_setPhase_self hp']
    show some (if s.shutdown = true then SynthesisPhase.leaving else .parked false false) = _
    rw [hs]
    rfl

theorem reaches_woken (hp : s.phase? w = some .woken) : ReachesQueue w s := by
  have hi : OwnStep w (.look w) := by simp [OwnStep]
  refine .after hi ((step_worker hp hi).trans rfl) ?_
  cases hs : s.shutdown with
  | true => exact .here (Or.inr (phase?_setPhase_self hp))
  | false => exact reaches_checking (phase?_setPhase_self hp)

theorem reaches_parked {notified roused : Bool} (hp : s.phase? w = some (.parked notified roused))
    (h : s.permit = true ∨ notified = true) : ReachesQueue w s := by
  have hi : OwnStep w (.wake w) := by simp [OwnStep]
  cases notified with
  | true =>
    exact .after hi ((step_worker hp hi).trans rfl) (reaches_woken (phase?_setPhase_self hp))
  | false =>
    have hpermit : s.permit = true := h.resolve_right (by simp)
    have hstep : s.step (.wake w) = some ({ s with permit := false }.setPhase w .woken, []) := by
      rw [step_worker hp hi, stepWorker, if_neg (by simp), if_pos hpermit]
    exact .after hi hstep (reaches_woken (phase?_setPhase_self hp))

theorem reaches_running (hp : s.phase? w = some (.running t)) : ReachesQueue w s := by
  have hi : OwnStep w (.finish w) := by simp [OwnStep]
  exact .after hi ((step_worker hp hi).trans rfl) (reaches_checking (phase?_setPhase_self hp))

theorem WillLook.reaches (h : s.WillLook w) : ReachesQueue w s := by
  obtain ⟨p, hp, hlive, hlook⟩ := h
  cases p with
  | parked notified roused => exact reaches_parked hp hlook
  | woken => exact reaches_woken hp
  | checking => exact reaches_checking hp
  | popping => exact .here (Or.inl hp)
  | leaving => exact .here (Or.inr hp)
  | holding =>
    have hi : OwnStep w (.take w) := by simp [OwnStep]
    refine .after hi ((step_worker hp hi).trans rfl) ?_
    rw [TtsSynthesis.takeHeld]
    split
    · exact reaches_checking (phase?_setPhase_self hp)
    · next t _ =>
      have hp' : ({ s with held := none }.setPhase w (.running t)).phase? w =
          some (.running t) := phase?_setPhase_self hp
      exact reaches_running hp'
  | running t => exact reaches_running hp
  | resting =>
    have hpermit : s.permit = true := hlook.resolve_right (by simp [SynthesisPhase.attends])
    have hi : OwnStep w (.rest w) := by simp [OwnStep]
    refine .after hi ((step_worker hp hi).trans rfl) ?_
    cases hs : s.shutdown with
    | true => exact .here (Or.inr (phase?_setPhase_self hp))
    | false => exact reaches_parked (phase?_setPhase_self hp) (Or.inl hpermit)
  | exited | aborted => cases hlive

end TtsSynthesis

/-! ## Runs -/

open TtsSynthesis

variable {inputs : List SynthesisInput} {s : TtsSynthesis} {out : List SynthesisEvent}

theorem run_owned (ha : Along step Meets .new inputs) (hr : run step .new inputs = some (s, out)) :
    s.Owned := by
  have hrun := run_history (C := Meets) (I := fun _ out s => Queued s out ∧ s.Owned)
    (fun _ out s i t es hI hm hs => ⟨hI.1.step (synthesisStep_of_step hs),
      hI.2.step hI.1 hm (synthesisStep_of_step hs)⟩) ⟨Queued.new, Owned.new⟩ ha hr
  exact hrun.2

theorem run_accounted (hr : run step .new inputs = some (s, out)) : s.Accounted out :=
  run_history (C := fun _ _ => True) (I := fun _ out s => s.Accounted out)
    (fun _ _ _ _ _ _ hI _ hs => hI.step (synthesisStep_of_step hs))
    (fun _ ht => absurd ht List.not_mem_nil) (along_of_forall_mem (fun _ _ => trivial) _) hr

namespace TtsSynthesis

/-- No send is between its claim and its wake-up, and no stop is running. -/
def Quiet (s : TtsSynthesis) : Prop :=
  (∀ t, s.handOff.get t = none) ∧ ∀ p ∈ s.stops, p = .finished

/-- A queued job has a live worker that comes to the queue by its own steps, a held one the
worker that holds it. -/
def NoneStranded (s : TtsSynthesis) : Prop :=
  (s.queue ≠ [] → ∃ w, s.WillLook w ∧ ReachesQueue w s) ∧
    (s.held ≠ none → ∃ w, s.phase? w = some .holding)

theorem Owned.noneStranded {s : TtsSynthesis} (h : s.Owned) (hq : s.Quiet) : s.NoneStranded := by
  refine ⟨fun hne => ?_, h.holder⟩
  obtain ⟨t, ht⟩ := List.exists_mem_of_ne_nil s.queue hne
  rcases h.kept t ht with hcov | hatt | hens | hnot
  · obtain ⟨p, hp, hcovers⟩ := hcov
    rw [hq.2 p hp] at hcovers
    exact hcovers.elim
  · obtain ⟨w, hw⟩ := hatt
    exact ⟨w, hw, hw.reaches⟩
  · rw [Ensuring, hq.1 t] at hens
    simp at hens
  · rw [hq.1 t] at hnot
    cases hnot.1

end TtsSynthesis

/-- No job is stranded, over every interleaving of the sends, the workers, the stops, the
starts and the cuts in which a send creates a worker or finds one alive, or its job collected,
and only spare workers are dropped: whenever no send is handing over and no stop is running, a
queued job has a worker that comes to the queue and a held job its worker. In every
interleaving a claimed job is queued, held, run or ended. -/
theorem no_stranded_job (hr : run step .new inputs = some (s, out)) :
    (Along step Meets .new inputs → s.Quiet → s.NoneStranded) ∧ s.Accounted out :=
  ⟨fun ha hq => (run_owned ha hr).noneStranded hq, run_accounted hr⟩

def sendWakesWorker : List SynthesisInput :=
  [.start, .clearShutdown, .send (.reserve none), .send (.waitTurn 0), .send (.enable 0),
    .send (.check 0), .send (.claim 0), .send (.release 0), .ensureFlag 0, .ensureSlot 0,
    .notifyOne 0 (some 0)]

theorem no_stranded_job_sendWakesWorker :
    ∃ s out, run step .new sendWakesWorker = some (s, out) ∧ s.queue = [0] ∧
      s.NoneStranded ∧ s.Accounted out := by
  have hmeets : Along step Meets .new sendWakesWorker := by
    refine Along.cons trivial rfl (Along.cons trivial rfl (Along.cons trivial rfl
      (Along.cons trivial rfl (Along.cons trivial rfl (Along.cons trivial rfl
      (Along.cons trivial rfl (Along.cons trivial rfl (Along.cons ?_ rfl
      (Along.cons ?_ rfl (Along.cons trivial rfl trivial))))))))))
    · intro hshut
      cases hshut
    · exact fun hslot => absurd rfl hslot
  obtain ⟨hnone, hacc⟩ := @no_stranded_job sendWakesWorker _ _ rfl
  exact ⟨_, _, rfl, rfl, hnone hmeets ⟨fun _ => rfl, fun _ hp => absurd hp List.not_mem_nil⟩, hacc⟩

/-- A send that is called after the stop is over claims its ticket and finds the flag set. -/
def sendAfterStop : List SynthesisInput :=
  [.start, .clearShutdown, .stop, .raiseShutdown 0, .stopCut 0, .stopCollect 0, .notifyWaiters 0,
    .takeSlot 0, .send (.reserve none), .send (.waitTurn 0), .send (.enable 0), .send (.check 0),
    .send (.claim 0), .send (.release 0), .ensureFlag 0, .notifyOne 0 none]

/-- Its job stays in the queue and no worker exists. -/
theorem late_send_stranded :
    ∃ s out, run step .new sendAfterStop = some (s, out) ∧ s.Quiet ∧ s.queue = [0] ∧
      .ended 0 ∉ out ∧ ¬ s.NoneStranded := by
  refine ⟨_, _, rfl, ⟨fun _ => rfl, ?_⟩, rfl, by decide, ?_⟩
  · intro p hp
    exact List.mem_singleton.mp hp
  · intro hnone
    obtain ⟨w, ⟨p, hp, -⟩, -⟩ := hnone.1 (List.cons_ne_nil _ _)
    cases hp

end NodeWebrtc.Speech
