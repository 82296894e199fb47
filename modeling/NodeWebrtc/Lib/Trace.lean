import Mathlib.Data.List.Basic

/-! # Labelled steps

A step relation whose steps carry a list of labels; a silent step carries none. The
closure concatenates the labels, so a property of the label list is a property of the
whole walk, and an invariant may speak about the labels seen so far.
-/

namespace NodeWebrtc

universe u v

variable {σ : Type u} {ε : Type v}

/-- Finitely many steps, with the labels in order. -/
inductive Steps (R : σ → List ε → σ → Prop) : σ → List ε → σ → Prop
  | refl (s : σ) : Steps R s [] s
  | snoc {s t u : σ} {es es' : List ε} (h : Steps R s es t) (hs : R t es' u) :
      Steps R s (es ++ es') u

namespace Steps

variable {R : σ → List ε → σ → Prop} {s t u : σ} {es es' : List ε}

theorem single (h : R s es t) : Steps R s es t := by
  have hsteps := (refl s).snoc h
  rwa [List.nil_append] at hsteps

theorem trans (h : Steps R s es t) (h' : Steps R t es' u) : Steps R s (es ++ es') u := by
  induction h' with
  | refl => rwa [List.append_nil]
  | snoc _ hs ih =>
    rw [← List.append_assoc]
    exact ih.snoc hs

/-- Silent steps compose without labels. -/
theorem silent (h : Steps R s [] t) (h' : Steps R t es u) : Steps R s es u := h.trans h'

theorem thenSilent (h : Steps R s es t) (h' : Steps R t [] u) : Steps R s es u := by
  have htrans := h.trans h'
  rwa [List.append_nil] at htrans

/-- What every step preserves, given the labels before it, holds at the end of the walk. -/
theorem keeps {I : List ε → σ → Prop} {seen : List ε}
    (hstep : ∀ seen s es t, I seen s → R s es t → I (seen ++ es) t)
    (h : Steps R s es t) (hi : I seen s) : I (seen ++ es) t := by
  induction h with
  | refl => rwa [List.append_nil]
  | snoc _ hs ih =>
    rw [← List.append_assoc]
    exact hstep _ _ _ _ ih hs

end Steps

/-! ## What came before -/

/-- Every entry of the list is related to the entries before it. -/
def EachAfter {α : Type u} (P : List α → α → Prop) (l : List α) : Prop :=
  ∀ before e after, l = before ++ e :: after → P before e

namespace EachAfter

variable {α : Type u} {P : List α → α → Prop}

theorem nil : EachAfter P [] := fun before e after h => by simp at h

theorem cons_iff {x : α} {l : List α} :
    EachAfter P (x :: l) ↔ P [] x ∧ EachAfter (fun before e => P (x :: before) e) l := by
  constructor
  · intro h
    refine ⟨h [] x l rfl, fun before e after heq => ?_⟩
    exact h (x :: before) e after (by rw [heq, List.cons_append])
  · intro h before e after heq
    cases before with
    | nil =>
      rw [List.nil_append, List.cons.injEq] at heq
      rw [← heq.1]
      exact h.1
    | cons b before =>
      rw [List.cons_append, List.cons.injEq] at heq
      rw [← heq.1]
      exact h.2 before e after heq.2

theorem append_iff {l l' : List α} :
    EachAfter P (l ++ l') ↔ EachAfter P l ∧ EachAfter (fun before e => P (l ++ before) e) l' := by
  induction l generalizing P with
  | nil => exact ⟨fun h => ⟨nil, h⟩, fun h => h.2⟩
  | cons x l ih =>
    rw [List.cons_append, cons_iff, cons_iff, ih, and_assoc]
    rfl

theorem snoc {l : List α} {e : α} (hl : EachAfter P l) (he : P l e) : EachAfter P (l ++ [e]) := by
  rw [append_iff, cons_iff, List.append_nil]
  exact ⟨hl, he, nil⟩

theorem mono {Q : List α → α → Prop} {l : List α} (h : EachAfter P l)
    (hpq : ∀ before e, e ∈ l → P before e → Q before e) : EachAfter Q l := by
  intro before e after heq
  exact hpq before e (by rw [heq]; simp) (h before e after heq)

/-- Puts an entry in: it is related to what is before it, and the entries behind it do not
mind it. -/
theorem insert {l l' : List α} {x : α} (h : EachAfter P (l ++ l')) (hx : P l x)
    (hP : ∀ mid e, e ∈ l' → P (l ++ mid) e → P (l ++ x :: mid) e) :
    EachAfter P (l ++ x :: l') := by
  obtain ⟨hl, hl'⟩ := append_iff.mp h
  rw [append_iff, cons_iff, List.append_nil]
  exact ⟨hl, hx, hl'.mono hP⟩

/-- Replaces an entry. -/
theorem replace {l l' : List α} {x y : α} (h : EachAfter P (l ++ x :: l')) (hy : P l y)
    (hP : ∀ mid e, e ∈ l' → P (l ++ x :: mid) e → P (l ++ y :: mid) e) :
    EachAfter P (l ++ y :: l') := by
  obtain ⟨hl, hrest⟩ := append_iff.mp h
  rw [append_iff, cons_iff, List.append_nil]
  exact ⟨hl, hy, (cons_iff.mp hrest).2.mono hP⟩

end EachAfter

/-! ## Loops -/

/-- The condition holds at every round of a loop, on the state before the round. -/
def Throughout {α : Type u} {β : Type v} (round : α → β → α) (C : α → β → Prop) : α → List β → Prop
  | _, [] => True
  | a, b :: bs => C a b ∧ Throughout round C (round a b) bs

end NodeWebrtc
