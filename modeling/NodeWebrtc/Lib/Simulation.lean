import NodeWebrtc.Lib.Machine

/-! # Lock-step simulation

Two machines fed the same inputs. When every step from related states is taken by both,
ends in related states and puts out the same up to a renaming, so does every run. The rule
is relative to a condition on the two states and the input, which is asked at every step.
-/

namespace NodeWebrtc.Machine

universe u v w x y

variable {σ : Type u} {τ : Type v} {ι : Type w} {ο : Type x} {π : Type y}

/-- The condition `C` holds at every step two machines take together. -/
def AlongPair (f : Step σ ι ο) (g : Step τ ι π) (C : σ → τ → ι → Prop) : σ → τ → List ι → Prop
  | _, _, [] => True
  | s, t, i :: is =>
    C s t i ∧ ∀ s' t' os ps, f s i = some (s', os) → g t i = some (t', ps) →
      AlongPair f g C s' t' is

theorem alongPair_true (f : Step σ ι ο) (g : Step τ ι π) (s : σ) (t : τ) (is : List ι) :
    AlongPair f g (fun _ _ _ => True) s t is := by
  induction is generalizing s t with
  | nil => trivial
  | cons i is ih => exact ⟨trivial, fun s' t' _ _ _ _ => ih s' t'⟩

/-- Related machines that step together run together. -/
theorem run_simulation {f : Step σ ι ο} {g : Step τ ι π} {C : σ → τ → ι → Prop}
    {R : σ → τ → Prop} (rename : ο → π)
    (hstep : ∀ s t i, R s t → C s t i → ∃ s' t' os, f s i = some (s', os) ∧
      g t i = some (t', os.map rename) ∧ R s' t')
    {s : σ} {t : τ} (h : R s t) {is : List ι} (ha : AlongPair f g C s t is) :
    ∃ s' t' os, run f s is = some (s', os) ∧ run g t is = some (t', os.map rename) ∧ R s' t' := by
  induction is generalizing s t with
  | nil => exact ⟨s, t, [], rfl, rfl, h⟩
  | cons i is ih =>
    obtain ⟨s', t', os, hf, hg, h'⟩ := hstep s t i h ha.1
    obtain ⟨s'', t'', os', hrf, hrg, h''⟩ := ih h' (ha.2 s' t' os (os.map rename) hf hg)
    refine ⟨s'', t'', os ++ os', ?_, ?_, h''⟩
    · exact run_cons_eq_some.mpr ⟨s', os, os', hf, hrf, rfl⟩
    · exact run_cons_eq_some.mpr ⟨t', os.map rename, os'.map rename, hg, hrg, List.map_append⟩

end NodeWebrtc.Machine
