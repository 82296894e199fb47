import Mathlib.Algebra.Order.Group.Nat
import NodeWebrtc.Lib.Machine

/-! # Runs without end

A run without end is its states and its inputs. A party is treated fairly when it takes a step
whenever it could always take one from some point on. A rank that no step raises and that the
party's steps lower then runs out.
-/

namespace NodeWebrtc.Machine

universe u v w

variable {σ : Type u} {ι : Type v} {ο : Type w}

/-- A run without end from `s`. -/
structure Forever (step : Step σ ι ο) (s : σ) where
  state : Nat → σ
  input : Nat → ι
  first : state 0 = s
  next : ∀ n, ∃ out, step (state n) (input n) = some (state (n + 1), out)

namespace Forever

variable {step : Step σ ι ο} {s : σ}

/-- Weak fairness to the party whose steps are `own`. -/
def FairTo (r : Forever step s) (own : ι → Prop) : Prop :=
  ∀ n, (∀ m, n ≤ m → ∃ i, own i ∧ (step (r.state m) i).isSome = true) →
    ∃ m, n ≤ m ∧ own (r.input m)

/-- What every step preserves holds from then on. -/
theorem keeps (r : Forever step s) {I : σ → Prop}
    (hstep : ∀ s i t out, I s → step s i = some (t, out) → I t) {n m : Nat} (hnm : n ≤ m)
    (h : I (r.state n)) : I (r.state m) := by
  induction m, hnm using Nat.le_induction with
  | base => exact h
  | succ m _ ih =>
    obtain ⟨out, hs⟩ := r.next m
    exact hstep _ _ _ out ih hs

/-- Until `Q` holds the party can take a step and no step raises the rank; so `Q` holds at some
time. -/
theorem reaches (r : Forever step s) {own : ι → Prop} (hfair : r.FairTo own) (I Q : σ → Prop)
    (rank : σ → Nat)
    (hstep : ∀ s i t out, I s → ¬ Q s → step s i = some (t, out) →
      Q t ∨ (I t ∧ rank t ≤ rank s ∧ (own i → rank t < rank s)))
    (henabled : ∀ s, I s → ¬ Q s → ∃ i, own i ∧ (step s i).isSome = true)
    {n : Nat} (h : I (r.state n)) : ∃ m, n ≤ m ∧ Q (r.state m) := by
  induction hrank : rank (r.state n) using Nat.strong_induction_on generalizing n with
  | _ k ih =>
    by_cases hever : ∃ m, n ≤ m ∧ Q (r.state m)
    · exact hever
    · have hnever : ∀ m, n ≤ m → ¬ Q (r.state m) := fun m hnm hq => hever ⟨m, hnm, hq⟩
      have hkeeps : ∀ m, n ≤ m → I (r.state m) ∧ rank (r.state m) ≤ k := by
        intro m hnm
        induction m, hnm using Nat.le_induction with
        | base => exact ⟨h, le_of_eq hrank⟩
        | succ m hnm ihm =>
          obtain ⟨out, hs⟩ := r.next m
          obtain ⟨hi, hle⟩ := ihm
          rcases hstep _ _ _ out hi (hnever m hnm) hs with hq | ⟨hi', hle', -⟩
          · exact absurd hq (hnever (m + 1) (Nat.le_succ_of_le hnm))
          · exact ⟨hi', hle'.trans hle⟩
      obtain ⟨m, hnm, hown⟩ := hfair n fun m hnm => henabled _ (hkeeps m hnm).1 (hnever m hnm)
      obtain ⟨out, hs⟩ := r.next m
      have hnm' : n ≤ m + 1 := Nat.le_succ_of_le hnm
      rcases hstep _ _ _ out (hkeeps m hnm).1 (hnever m hnm) hs with hq | ⟨hi, -, hless⟩
      · exact absurd hq (hnever (m + 1) hnm')
      · obtain ⟨m', hmm', hq⟩ := ih _ ((hless hown).trans_le (hkeeps m hnm).2) hi rfl
        exact ⟨m', hnm'.trans hmm', hq⟩

end Forever

end NodeWebrtc.Machine
