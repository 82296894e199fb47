import Mathlib.Data.List.Basic

/-! # Runs of a partial state machine with outputs

A machine is a partial step function. A refused input, or a check of the modelled
code that fails, is `none`; an accepted one gives the next state and what it puts
out. A run keeps the complete output list in order, so equal outputs of different
steps remain positionally distinct. The rules below are inductions over runs: what
one step preserves, every run preserves.
-/

namespace NodeWebrtc.Machine

universe u v w x y

variable {σ : Type u} {τ : Type x} {ι : Type v} {ο : Type w}

/-- One step: the next state and the outputs, or `none` when the step is refused. -/
abbrev Step (σ : Type u) (ι : Type v) (ο : Type w) := σ → ι → Option (σ × List ο)

/-- Feeds the inputs in order and concatenates the outputs. -/
def run (step : Step σ ι ο) : σ → List ι → Option (σ × List ο)
  | s, [] => some (s, [])
  | s, i :: is => (step s i).bind fun p => (run step p.1 is).map fun q => (q.1, p.2 ++ q.2)

/-- The condition `C` holds at every step the run takes, on the state before it. -/
def Along (step : Step σ ι ο) (C : σ → ι → Prop) : σ → List ι → Prop
  | _, [] => True
  | s, i :: is => C s i ∧ ∀ t out, step s i = some (t, out) → Along step C t is

/-- What `f` notes at each step of a run, on the state before the step. -/
def log {α : Type y} (step : Step σ ι ο) (f : σ → ι → List α) : σ → List ι → List α
  | _, [] => []
  | s, i :: is => f s i ++ ((step s i).map fun p => log step f p.1 is).getD []

/-! ## Composition -/

@[simp] theorem run_nil (step : Step σ ι ο) (s : σ) : run step s [] = some (s, []) := rfl

variable {step : Step σ ι ο} {s u : σ} {is : List ι} {os : List ο}

theorem run_cons_eq_some {i : ι} :
    run step s (i :: is) = some (u, os) ↔
      ∃ t out outs, step s i = some (t, out) ∧ run step t is = some (u, outs) ∧
        os = out ++ outs := by
  simp only [run, Option.bind_eq_some_iff, Option.map_eq_some_iff, Prod.mk.injEq]
  constructor
  · intro h
    obtain ⟨⟨t, out⟩, hs, ⟨v, outs⟩, hr, rfl, rfl⟩ := h
    exact ⟨t, out, outs, hs, hr, rfl⟩
  · intro h
    obtain ⟨t, out, outs, hs, hr, rfl⟩ := h
    exact ⟨(t, out), hs, (u, outs), hr, rfl, rfl⟩

theorem run_append_eq_some {js : List ι} :
    run step s (is ++ js) = some (u, os) ↔
      ∃ t first second, run step s is = some (t, first) ∧ run step t js = some (u, second) ∧
        os = first ++ second := by
  induction is generalizing s os with
  | nil => simp
  | cons i is ih =>
    simp only [List.cons_append, run_cons_eq_some, ih]
    constructor
    · intro h
      obtain ⟨t, out, outs, hs, ⟨t', first, second, h1, h2, rfl⟩, rfl⟩ := h
      exact ⟨t', out ++ first, second, ⟨t, out, first, hs, h1, rfl⟩, h2, by simp⟩
    · intro h
      obtain ⟨t', first, second, ⟨t, out, outs, hs, h1, rfl⟩, h2, rfl⟩ := h
      exact ⟨t, out, outs ++ second, hs, ⟨t', outs, second, h1, h2, rfl⟩, by simp⟩

theorem run_singleton {i : ι} : run step s [i] = some (u, os) ↔ step s i = some (u, os) := by
  simp [run_cons_eq_some]

variable {t : σ}

theorem log_cons {α : Type y} {f : σ → ι → List α} {i : ι} {out : List ο}
    (hs : step s i = some (t, out)) (is : List ι) :
    log step f s (i :: is) = f s i ++ log step f t is := by
  simp [log, hs]

variable {C : σ → ι → Prop}

theorem along_append {js : List ι} :
    Along step C s (is ++ js) ↔
      Along step C s is ∧ ∀ t os, run step s is = some (t, os) → Along step C t js := by
  induction is generalizing s with
  | nil => simp [Along]
  | cons i is ih =>
    simp only [List.cons_append, Along, ih, run_cons_eq_some]
    constructor
    · intro h
      obtain ⟨hc, hrest⟩ := h
      refine ⟨⟨hc, fun t out hs => (hrest t out hs).1⟩, ?_⟩
      intro u os hu
      obtain ⟨t, out, outs, hs, hr, rfl⟩ := hu
      exact (hrest t out hs).2 u outs hr
    · intro h
      obtain ⟨⟨hc, hfirst⟩, hsecond⟩ := h
      exact ⟨hc, fun t out hs =>
        ⟨hfirst t out hs, fun u outs hr => hsecond u _ ⟨t, out, outs, hs, hr, rfl⟩⟩⟩

/-- A condition along a run, one known step at a time. -/
theorem Along.cons {i : ι} {out : List ο} (hc : C s i) (hs : step s i = some (t, out))
    (h : Along step C t is) :
    Along step C s (i :: is) := by
  refine ⟨hc, fun u out' hs' => ?_⟩
  simp only [hs] at hs'
  cases hs'
  exact h

variable {D : σ → ι → Prop}

theorem Along.mono (h : ∀ s i, C s i → D s i) (ha : Along step C s is) : Along step D s is := by
  induction is generalizing s with
  | nil => trivial
  | cons i is ih => exact ⟨h s i ha.1, fun t out hs => ih (ha.2 t out hs)⟩

variable {P : ι → Prop}

/-- A condition on the input alone holds along every run over inputs that meet it. -/
theorem along_of_forall_mem (h : ∀ i ∈ is, P i) (s : σ) : Along step (fun _ i => P i) s is := by
  induction is generalizing s with
  | nil => trivial
  | cons i is ih =>
    exact ⟨h i List.mem_cons_self, fun t _ _ => ih (fun j hj => h j (List.mem_cons_of_mem i hj)) t⟩

/-- Along a run that is defined, a condition on the input alone is one on every input. -/
theorem along_iff_forall_mem (hr : run step s is = some (u, os)) :
    Along step (fun _ i => P i) s is ↔ ∀ i ∈ is, P i := by
  refine ⟨fun ha => ?_, fun h => along_of_forall_mem h s⟩
  induction is generalizing s os with
  | nil => exact nofun
  | cons i is ih =>
    obtain ⟨t, out, outs, hs, htail, -⟩ := run_cons_eq_some.mp hr
    exact List.forall_mem_cons.mpr ⟨ha.1, ih htail (ha.2 t out hs)⟩

variable {I : σ → Prop}

/-- A condition that follows from an invariant of the steps taken holds along the run. -/
theorem along_of_invariant (hkeep : ∀ s i t out, I s → P i → step s i = some (t, out) → I t)
    (hC : ∀ s i, I s → P i → C s i) (hs : I s) (hP : ∀ i ∈ is, P i) :
    Along step C s is := by
  induction is generalizing s with
  | nil => trivial
  | cons i is ih =>
    have hi := hP i List.mem_cons_self
    exact ⟨hC s i hs hi, fun t out hstep =>
      ih (hkeep s i t out hs hi hstep) fun j hj => hP j (List.mem_cons_of_mem i hj)⟩

/-- Two conditions that agree in every state with an invariant of the steps agree along a run. -/
theorem along_congr (hkeep : ∀ s i t out, I s → step s i = some (t, out) → I t)
    (h : ∀ s i, I s → (C s i ↔ D s i)) (hs : I s) (is : List ι) :
    Along step C s is ↔ Along step D s is := by
  induction is generalizing s with
  | nil => exact Iff.rfl
  | cons i is ih =>
    rw [Along, Along, h s i hs]
    constructor
    · intro ha
      exact ⟨ha.1, fun t out hi => (ih (hkeep s i t out hs hi)).mp (ha.2 t out hi)⟩
    · intro ha
      exact ⟨ha.1, fun t out hi => (ih (hkeep s i t out hs hi)).mpr (ha.2 t out hi)⟩

/-- A condition along a run gives another one when an invariant is kept under the first. -/
theorem Along.of_kept (h : ∀ s i, I s → C s i → D s i ∧ ∀ t out, step s i = some (t, out) → I t)
    (hs : I s) (ha : Along step C s is) : Along step D s is := by
  induction is generalizing s with
  | nil => trivial
  | cons i is ih =>
    obtain ⟨hd, hkeep⟩ := h s i hs ha.1
    exact ⟨hd, fun t out hi => ih (hkeep t out hi) (ha.2 t out hi)⟩

/-- A decidable condition can be checked along a run by taking its steps. -/
instance decidableAlong (step : Step σ ι ο) (C : σ → ι → Prop) [∀ s i, Decidable (C s i)] :
    ∀ s is, Decidable (Along step C s is)
  | _, [] => .isTrue trivial
  | s, i :: is =>
    match h : step s i with
    | none => decidable_of_iff (C s i) (by simp [Along, h])
    | some (t, out) =>
      have := decidableAlong step C t is
      decidable_of_iff (C s i ∧ Along step C t is) (by
        rw [Along, h]
        refine and_congr_right fun _ => ⟨?_, fun hall => hall t out rfl⟩
        intro ha t' out' heq
        cases heq
        exact ha)

theorem Along.and (hc : Along step C s is) (hd : Along step D s is) :
    Along step (fun s i => C s i ∧ D s i) s is := by
  induction is generalizing s with
  | nil => trivial
  | cons i is ih => exact ⟨⟨hc.1, hd.1⟩, fun t out hs => ih (hc.2 t out hs) (hd.2 t out hs)⟩

/-! ## Induction rules -/

/-- History rule with progress: a relation between the inputs fed so far, the outputs
so far and the state, that every step taken under `C` is defined on and preserves,
holds at the end of a run that is itself defined. -/
theorem run_spec {I : List ι → List ο → σ → Prop} (hstep : ∀ is os s i, I is os s → C s i →
      ∃ t out, step s i = some (t, out) ∧ I (is ++ [i]) (os ++ out) t) (h0 : I [] [] s)
    (ha : Along step C s is) :
    ∃ t os, run step s is = some (t, os) ∧ I is os t := by
  suffices general : ∀ (is ps : List ι) (os : List ο) (s : σ), I ps os s → Along step C s is →
      ∃ t outs, run step s is = some (t, outs) ∧ I (ps ++ is) (os ++ outs) t by
    simpa using general is [] [] s h0 ha
  intro is
  induction is with
  | nil => intro ps os s h _; exact ⟨s, [], rfl, by simpa using h⟩
  | cons i is ih =>
    intro ps os s h ha
    obtain ⟨t, out, hs, ht⟩ := hstep ps os s i h ha.1
    obtain ⟨u, outs, hr, hu⟩ := ih (ps ++ [i]) (os ++ out) t ht (ha.2 t out hs)
    exact ⟨u, out ++ outs, run_cons_eq_some.mpr ⟨t, out, outs, hs, hr, rfl⟩, by simpa using hu⟩

/-- History rule for a step that is always defined. -/
theorem run_total {I : List ι → List ο → σ → Prop} (hstep : ∀ is os s i, I is os s →
      ∃ t out, step s i = some (t, out) ∧ I (is ++ [i]) (os ++ out) t) (h0 : I [] [] s)
    (is : List ι) : ∃ t os, run step s is = some (t, os) ∧ I is os t :=
  run_spec (C := fun _ _ => True) (fun is os s i h _ => hstep is os s i h) h0
    (along_of_forall_mem (P := fun _ => True) (fun _ _ => trivial) _)

/-- The history rule with progress for what a run notes instead of what it is fed. -/
theorem run_log_spec {α : Type y} {step : Step σ ι ο} {f : σ → ι → List α} {C : σ → ι → Prop}
    {I : List α → List ο → σ → Prop}
    (hstep : ∀ notes os s i, I notes os s → C s i →
      ∃ t out, step s i = some (t, out) ∧ I (notes ++ f s i) (os ++ out) t)
    {s : σ} (h0 : I [] [] s) {is : List ι} (ha : Along step C s is) :
    ∃ t os, run step s is = some (t, os) ∧ I (log step f s is) os t := by
  suffices general : ∀ (is : List ι) (notes : List α) (os : List ο) (s : σ), I notes os s →
      Along step C s is →
      ∃ t outs, run step s is = some (t, outs) ∧ I (notes ++ log step f s is) (os ++ outs) t by
    simpa using general is [] [] s h0 ha
  intro is
  induction is with
  | nil => intro notes os s h _; exact ⟨s, [], rfl, by simpa [log] using h⟩
  | cons i is ih =>
    intro notes os s h ha
    obtain ⟨t, out, hs, ht⟩ := hstep notes os s i h ha.1
    obtain ⟨u, outs, hr, hu⟩ := ih (notes ++ f s i) (os ++ out) t ht (ha.2 t out hs)
    refine ⟨u, out ++ outs, run_cons_eq_some.mpr ⟨t, out, outs, hs, hr, rfl⟩, ?_⟩
    simpa [log, hs] using hu

/-- History rule for runs that are given. -/
theorem run_history {I : List ι → List ο → σ → Prop}
    (hstep : ∀ is os s i t out, I is os s → C s i → step s i = some (t, out) →
      I (is ++ [i]) (os ++ out) t) (h0 : I [] [] s) (ha : Along step C s is)
    (hr : run step s is = some (t, os)) : I is os t := by
  suffices general : ∀ (is ps : List ι) (os outs : List ο) (s t : σ), I ps os s →
      Along step C s is → run step s is = some (t, outs) → I (ps ++ is) (os ++ outs) t by
    simpa using general is [] [] os s t h0 ha hr
  intro is
  induction is with
  | nil =>
    intro ps os outs s t h _ hr
    simp only [run_nil] at hr
    cases hr
    simpa using h
  | cons i is ih =>
    intro ps os outs s t h ha hr
    obtain ⟨u, out, outs', hs, hr', rfl⟩ := run_cons_eq_some.mp hr
    have hu := hstep ps os s i u out h ha.1 hs
    simpa using ih (ps ++ [i]) (os ++ out) outs' u t hu (ha.2 u out hs) hr'

/-- The history rule for a run that is given and for what it notes. -/
theorem run_log_history {α : Type y} {step : Step σ ι ο} {f : σ → ι → List α} {C : σ → ι → Prop}
    {I : List ι → List α → List ο → σ → Prop}
    (hstep : ∀ is notes os s i t out, I is notes os s → C s i → step s i = some (t, out) →
      I (is ++ [i]) (notes ++ f s i) (os ++ out) t)
    {s t : σ} (h0 : I [] [] [] s) {is : List ι} {os : List ο} (ha : Along step C s is)
    (hr : run step s is = some (t, os)) : I is (log step f s is) os t := by
  suffices general : ∀ (is ps : List ι) (notes : List α) (os outs : List ο) (s t : σ),
      I ps notes os s → Along step C s is → run step s is = some (t, outs) →
      I (ps ++ is) (notes ++ log step f s is) (os ++ outs) t by
    simpa using general is [] [] [] os s t h0 ha hr
  intro is
  induction is with
  | nil =>
    intro ps notes os outs s t h _ hr
    simp only [run_nil] at hr
    cases hr
    simpa [log] using h
  | cons i is ih =>
    intro ps notes os outs s t h ha hr
    obtain ⟨u, out, outs', hs, hr', rfl⟩ := run_cons_eq_some.mp hr
    have hu := hstep ps notes os s i u out h ha.1 hs
    have htail := ih (ps ++ [i]) (notes ++ f s i) (os ++ out) outs' u t hu (ha.2 u out hs) hr'
    simpa [log, hs] using htail

/-- An invariant of the steps taken under `C` holds at the end of every run under `C`. -/
theorem run_invariant (hstep : ∀ s i t out, I s → C s i → step s i = some (t, out) → I t) (h0 : I s)
    (ha : Along step C s is) (hr : run step s is = some (t, os)) : I t :=
  run_history (I := fun _ _ s => I s) (fun _ _ s i t out => hstep s i t out) h0 ha hr

/-- When each step from a state with `J` and `P` is defined, keeps `J`, and keeps `P`
exactly under `C`, the runs that keep `P` throughout are the runs along which `C` holds. -/
theorem prefix_invariant_iff {A : ι → Prop} {J P : σ → Prop}
    (hstep : ∀ s i, J s → P s → A i → ∃ t out, step s i = some (t, out) ∧ J t ∧ (P t ↔ C s i))
    (hj : J s) (hs : P s) (hA : ∀ i ∈ is, A i) :
    (∀ pre t os, pre <+: is → run step s pre = some (t, os) → P t) ↔ Along step C s is := by
  induction is generalizing s with
  | nil =>
    refine ⟨fun _ => trivial, fun _ pre t os hpre hr => ?_⟩
    rw [List.prefix_nil.mp hpre, run_nil, Option.some.injEq, Prod.mk.injEq] at hr
    exact hr.1 ▸ hs
  | cons i is ih =>
    obtain ⟨t, out, hi, hj', hiff⟩ := hstep s i hj hs (hA i List.mem_cons_self)
    have hA' : ∀ j ∈ is, A j := fun j hj => hA j (List.mem_cons_of_mem i hj)
    constructor
    · intro h
      have ht : P t := h [i] t out ⟨is, rfl⟩ (run_singleton.mpr hi)
      refine ⟨hiff.mp ht, fun t' out' hi' => ?_⟩
      simp only [hi] at hi'
      cases hi'
      refine (ih hj' ht hA').mp fun pre u os hpre hr => ?_
      exact h (i :: pre) u (out ++ os) (List.prefix_cons_inj i |>.mpr hpre)
        (run_cons_eq_some.mpr ⟨t, out, os, hi, hr, rfl⟩)
    · intro h pre u os hpre hr
      have ht : P t := hiff.mpr h.1
      cases pre with
      | nil =>
        rw [run_nil, Option.some.injEq, Prod.mk.injEq] at hr
        exact hr.1 ▸ hs
      | cons j pre =>
        obtain ⟨rfl, htail⟩ := List.cons_prefix_cons.mp hpre
        obtain ⟨t', out', os', hi', hr', rfl⟩ := run_cons_eq_some.mp hr
        simp only [hi] at hi'
        cases hi'
        exact (ih hj' ht hA').mpr (h.2 t out hi) pre u os' htail hr'

/-- The same for a run that is given, with `J` and `P` about the inputs fed and the outputs put
out so far too; here `J` may hold along `C` only. -/
theorem history_iff_of_run {J P : List ι → List ο → σ → Prop}
    (hstep : ∀ past outs s i t out, J past outs s → step s i = some (t, out) →
      (P (past ++ [i]) (outs ++ out) t ↔ C s i) ∧ (C s i → J (past ++ [i]) (outs ++ out) t))
    (past : List ι) (outs : List ο) (hj : J past outs s) (hs : P past outs s)
    (hr : run step s is = some (u, os)) :
    (∀ pre t os, pre <+: is → run step s pre = some (t, os) → P (past ++ pre) (outs ++ os) t) ↔
      Along step C s is := by
  induction is generalizing past outs s os with
  | nil =>
    refine ⟨fun _ => trivial, fun _ pre t os hpre hr => ?_⟩
    rw [List.prefix_nil.mp hpre, run_nil, Option.some.injEq, Prod.mk.injEq] at hr
    rw [List.prefix_nil.mp hpre, List.append_nil, ← hr.2, List.append_nil]
    exact hr.1 ▸ hs
  | cons i is ih =>
    obtain ⟨t, out, rest, hi, htail, rfl⟩ := run_cons_eq_some.mp hr
    obtain ⟨hiff, hkeep⟩ := hstep past outs s i t out hj hi
    have hfirst : ∀ v out', step s i = some (v, out') → v = t ∧ out' = out := fun v out' hv => by
      rw [hi, Option.some.injEq, Prod.mk.injEq] at hv
      exact ⟨hv.1.symm, hv.2.symm⟩
    constructor
    · intro h
      have ht : P (past ++ [i]) (outs ++ out) t :=
        h [i] t out ⟨is, rfl⟩ (run_singleton.mpr hi)
      have hc := hiff.mp ht
      refine ⟨hc, fun v out' hv => ?_⟩
      obtain ⟨rfl, rfl⟩ := hfirst v out' hv
      refine (ih (past ++ [i]) (outs ++ out') (hkeep hc) ht htail).mp fun pre w os hpre hrun => ?_
      have hw := h (i :: pre) w _ (List.prefix_cons_inj i |>.mpr hpre)
        (run_cons_eq_some.mpr ⟨_, _, os, hi, hrun, rfl⟩)
      rwa [List.append_assoc, List.append_assoc]
    · intro h pre w os hpre hrun
      cases pre with
      | nil =>
        rw [run_nil, Option.some.injEq, Prod.mk.injEq] at hrun
        rw [List.append_nil, ← hrun.2, List.append_nil]
        exact hrun.1 ▸ hs
      | cons j pre =>
        obtain ⟨rfl, hrest⟩ := List.cons_prefix_cons.mp hpre
        obtain ⟨v, out', os', hv, hrun', rfl⟩ := run_cons_eq_some.mp hrun
        obtain ⟨rfl, rfl⟩ := hfirst v out' hv
        have hw := (ih (past ++ [j]) (outs ++ out') (hkeep h.1) (hiff.mpr h.1) htail).mpr
          (h.2 _ _ hi) pre w os' hrest hrun'
        rwa [List.append_assoc, List.append_assoc] at hw

/-- The same with `J` and `P` about the inputs fed so far: every step the run takes keeps `J`, and
`P` exactly under `C`. -/
theorem prefix_history_iff_of_run {J P : List ι → σ → Prop}
    (hstep : ∀ past s i t out, J past s → P past s → step s i = some (t, out) →
      J (past ++ [i]) t ∧ (P (past ++ [i]) t ↔ C s i)) (past : List ι) (hj : J past s)
    (hs : P past s) (hr : run step s is = some (u, os)) :
    (∀ pre t os, pre <+: is → run step s pre = some (t, os) → P (past ++ pre) t) ↔
      Along step C s is := by
  refine history_iff_of_run (J := fun past _ s => J past s ∧ P past s) (P := fun past _ s => P past s)
    (fun past _ s i t out h hi => ?_) past [] ⟨hj, hs⟩ hs hr
  obtain ⟨hj', hiff⟩ := hstep past s i t out h.1 h.2 hi
  exact ⟨hiff, fun hc => ⟨hj', hiff.mpr hc⟩⟩

/-- The same with `J` and `P` about the state alone: every step the run takes keeps `J`, and
`P` exactly under `C`. -/
theorem prefix_invariant_iff_of_run {J P : σ → Prop}
    (hstep : ∀ s i t out, J s → P s → step s i = some (t, out) → J t ∧ (P t ↔ C s i)) (hj : J s)
    (hs : P s) (hr : run step s is = some (u, os)) :
    (∀ pre t os, pre <+: is → run step s pre = some (t, os) → P t) ↔ Along step C s is :=
  prefix_history_iff_of_run (J := fun _ => J) (P := fun _ => P)
    (fun _ s i t out => hstep s i t out) [] hj hs hr

/-- When a property of the outputs, once lost, stays lost, and a step keeps the invariant under
`C` and loses the property without it, the outputs of a run have the property exactly when `C`
holds along it. -/
theorem run_outputs_iff {A : ι → Prop} {I : List ο → σ → Prop} {Q : List ο → Prop}
    (hQ : ∀ os os', Q (os ++ os') → Q os) (hI : ∀ os s, I os s → Q os)
    (hkeep : ∀ os s i t out, I os s → A i → C s i → step s i = some (t, out) → I (os ++ out) t)
    (hlose : ∀ os s i t out, I os s → A i → ¬ C s i → step s i = some (t, out) → ¬ Q (os ++ out))
    {outs : List ο} (h0 : I os s) (hA : ∀ i ∈ is, A i) (hr : run step s is = some (u, outs)) :
    Q (os ++ outs) ↔ Along step C s is := by
  induction is generalizing s os outs with
  | nil =>
    rw [run_nil, Option.some.injEq, Prod.mk.injEq] at hr
    rw [← hr.2, List.append_nil]
    exact ⟨fun _ => trivial, fun _ => hI os s h0⟩
  | cons i is ih =>
    obtain ⟨t, out, outs, hi, htail, rfl⟩ := run_cons_eq_some.mp hr
    have hAi := hA i List.mem_cons_self
    rw [← List.append_assoc]
    constructor
    · intro h
      by_cases hc : C s i
      · have ht := hkeep os s i t out h0 hAi hc hi
        have hrest := (ih ht (fun j hj => hA j (List.mem_cons_of_mem i hj)) htail).mp h
        exact Along.cons hc hi hrest
      · exact absurd (hQ _ _ h) (hlose os s i t out h0 hAi hc hi)
    · intro h
      have ht := hkeep os s i t out h0 hAi h.1 hi
      exact (ih ht (fun j hj => hA j (List.mem_cons_of_mem i hj)) htail).mpr (h.2 t out hi)

/-- When each step from a state with the invariant has the property exactly under `C`, and under
`C` keeps the invariant, every step of a run has the property exactly when `C` holds along it. -/
theorem steps_iff_of_run {J : List ο → σ → Prop} {P : List ο → σ → ι → List ο → σ → Prop}
    (hstep : ∀ os s i t out, J os s → step s i = some (t, out) →
      (P os s i out t ↔ C s i) ∧ (C s i → J (os ++ out) t)) (os : List ο) {outs : List ο}
    (hj : J os s) (hr : run step s is = some (u, outs)) :
    (∀ pre i t out v es, pre ++ [i] <+: is → run step s pre = some (t, out) →
      step t i = some (v, es) → P (os ++ out) t i es v) ↔ Along step C s is := by
  induction is generalizing s os outs with
  | nil =>
    refine ⟨fun _ => trivial, fun _ pre i t out v es hpre => ?_⟩
    simp at hpre
  | cons i is ih =>
    obtain ⟨t, out, outs, hi, htail, rfl⟩ := run_cons_eq_some.mp hr
    obtain ⟨hiff, hkeep⟩ := hstep os s i t out hj hi
    constructor
    · intro h
      have hc : C s i := by
        refine hiff.mp ?_
        have hp := h [] i s [] t out (List.prefix_append [i] is) rfl hi
        rwa [List.append_nil] at hp
      refine Along.cons hc hi ((ih _ (hkeep hc) htail).mp fun pre j v first w es hpre hrun hj => ?_)
      rw [List.append_assoc]
      exact h (i :: pre) j v (out ++ first) w es (List.prefix_cons_inj i |>.mpr hpre)
        (run_cons_eq_some.mpr ⟨t, out, first, hi, hrun, rfl⟩) hj
    · intro h pre j v first w es hpre hrun hj
      cases pre with
      | nil =>
        rw [List.nil_append, List.cons_prefix_cons] at hpre
        obtain ⟨rfl, -⟩ := hpre
        simp only [run_nil] at hrun
        cases hrun
        simp only [hi] at hj
        cases hj
        rw [List.append_nil]
        exact hiff.mpr h.1
      | cons k pre =>
        rw [List.cons_append, List.cons_prefix_cons] at hpre
        obtain ⟨rfl, hpre⟩ := hpre
        obtain ⟨t', out', first, hi', hrun', rfl⟩ := run_cons_eq_some.mp hrun
        simp only [hi] at hi'
        cases hi'
        rw [← List.append_assoc]
        exact (ih _ (hkeep h.1) htail).mpr (h.2 t out hi) pre j v first w es hpre hrun' hj

/-- A prefix of a defined run is defined. -/
theorem run_prefix {pre : List ι} (hr : run step s is = some (u, os)) (hpre : pre <+: is) :
    ∃ t first, run step s pre = some (t, first) := by
  obtain ⟨rest, rfl⟩ := hpre
  obtain ⟨t, first, second, hfirst, -, -⟩ := run_append_eq_some.mp hr
  exact ⟨t, first, hfirst⟩

/-- Steps that are defined exactly under `C` give a run that is defined exactly when `C` holds
along it. -/
theorem run_isSome_iff (hstep : ∀ s i, (step s i).isSome = true ↔ C s i) (s : σ) (is : List ι) :
    (run step s is).isSome = true ↔ Along step C s is := by
  induction is generalizing s with
  | nil => simp [Along]
  | cons i is ih =>
    rw [Along, ← hstep]
    cases hs : step s i with
    | none => simp [run, hs]
    | some p =>
      simp only [run, hs, Option.bind_some, Option.isSome_map, ih, Option.isSome_some,
        true_and, Option.some.injEq]
      exact ⟨fun h t out heq => by rw [heq] at h; exact h, fun h => h p.1 p.2 rfl⟩

end NodeWebrtc.Machine
