import Mathlib.Data.List.GetD
import Mathlib.Data.List.Range

/-! # Resampling by interpolation

Frame `k` of the output lies `k * rate / dst` source samples in, between the sample there and the
one after it; past the last sample, that one is held. A frame that needs no sample past the end of
what is known so far stays the same when more comes.
-/

namespace NodeWebrtc.Resample

/-- The value `pos` parts of the way from one sample to the next. -/
structure Interpolation (α : Type) where
  value : α → α → Nat → α
  /-- At a sample, the next one does not count. -/
  start : ∀ a b, value a b 0 = a

variable {α : Type} [Inhabited α] (K : Interpolation α) (rate dst : Nat)

def frame (s : List α) (k : Nat) : α :=
  let i := k * rate / dst
  K.value (s.getD i default) (s.getD (min (i + 1) (s.length - 1)) default) (k * rate % dst)

/-- The frames from `a` up to `b`. -/
def frames (s : List α) (a b : Nat) : List α := (List.range' a (b - a)).map (frame K rate dst s)

/-- The position of a frame is not past the last sample. -/
def Reaches (s : List α) (k : Nat) : Prop := k * rate ≤ (s.length - 1) * dst

variable {K rate dst}

omit [Inhabited α] in
theorem index_le_of_reaches {s : List α} {k : Nat} (hdst : 0 < dst) (h : Reaches rate dst s k) :
    k * rate / dst ≤ s.length - 1 := by
  rw [Nat.div_le_iff_le_mul_add_pred hdst]
  rw [Reaches, Nat.mul_comm _ dst] at h
  omega

/-- A frame that is not past the last sample does not depend on what comes later. -/
theorem frame_append {s : List α} (t : List α) {k : Nat} (hdst : 0 < dst) (hs : s ≠ [])
    (h : Reaches rate dst s k) : frame K rate dst (s ++ t) k = frame K rate dst s k := by
  have hpos : 0 < s.length := List.length_pos_iff.mpr hs
  have hle := index_le_of_reaches hdst h
  have hleft : (s ++ t).getD (k * rate / dst) default = s.getD (k * rate / dst) default :=
    List.getD_append _ _ _ _ (by omega)
  simp only [frame, hleft]
  rcases Nat.lt_or_ge (k * rate / dst + 1) s.length with hlt | hge
  · rw [List.length_append, Nat.min_eq_left (by omega), Nat.min_eq_left (by omega),
      List.getD_append _ _ _ _ hlt]
  · -- at the last sample the position is exact
    have hexact : k * rate % dst = 0 := by
      have hlast : k * rate / dst = s.length - 1 := by omega
      have hdiv := Nat.div_add_mod (k * rate) dst
      rw [hlast, Nat.mul_comm dst] at hdiv
      rw [Reaches] at h
      omega
    rw [hexact, K.start, K.start]

theorem frames_append {s : List α} (t : List α) {a b : Nat} (hdst : 0 < dst) (hs : s ≠ [])
    (h : ∀ k, a ≤ k → k < b → Reaches rate dst s k) :
    frames K rate dst (s ++ t) a b = frames K rate dst s a b := by
  refine List.map_congr_left fun k hk => ?_
  rw [List.mem_range'_1] at hk
  exact frame_append t hdst hs (h k hk.1 (by omega))

variable (s : List α)

theorem frames_append_frames {a b c : Nat} (hab : a ≤ b) (hbc : b ≤ c) :
    frames K rate dst s a b ++ frames K rate dst s b c = frames K rate dst s a c := by
  have hcut : c - a = (b - a) + (c - b) := by omega
  rw [frames, frames, frames, hcut, ← List.range'_append_1, List.map_append]
  congr 3
  omega

theorem frames_eq_cons {a b : Nat} (hab : a < b) :
    frames K rate dst s a b = frame K rate dst s a :: frames K rate dst s (a + 1) b := by
  have hcut : b - a = b - (a + 1) + 1 := by omega
  rw [frames, frames, hcut, List.range'_succ, List.map_cons]

@[simp] theorem frames_self (a : Nat) : frames K rate dst s a a = [] := by
  rw [frames, Nat.sub_self]
  rfl

theorem length_frames (a b : Nat) : (frames K rate dst s a b).length = b - a := by
  rw [frames, List.length_map, List.length_range']

/-- Where equal samples interpolate to themselves and only one value is left, it is held. -/
theorem frame_eq_of_level (hold : ∀ a p, K.value a a p = a) {s : List α} {k : Nat} {x : α}
    (hk : k * rate / dst < s.length)
    (h : ∀ i, k * rate / dst ≤ i → i < s.length → s.getD i default = x) :
    frame K rate dst s k = x := by
  have hright : k * rate / dst ≤ min (k * rate / dst + 1) (s.length - 1) :=
    Nat.le_min.mpr ⟨Nat.le_succ _, Nat.le_sub_one_of_lt hk⟩
  have hlast : min (k * rate / dst + 1) (s.length - 1) < s.length :=
    Nat.lt_of_le_of_lt (Nat.min_le_right _ _) (Nat.sub_lt (Nat.zero_lt_of_lt hk) Nat.one_pos)
  rw [frame, h _ (Nat.le_refl _) hk, h _ hright hlast, hold]

/-- Without a change of rate the frames are the samples. -/
theorem frame_same_rate {s : List α} {k : Nat} (hdst : 0 < dst) :
    frame K dst dst s k = s.getD k default := by
  rw [frame, Nat.mul_div_cancel k hdst, Nat.mul_mod_left, K.start]

theorem frames_same_rate (a : Nat) (hdst : 0 < dst) : frames K dst dst s a s.length = s.drop a := by
  refine List.ext_getElem (by rw [length_frames, List.length_drop]) fun k hk hk' => ?_
  rw [List.length_drop] at hk'
  simp only [frames, List.getElem_map, List.getElem_range', List.getElem_drop, Nat.one_mul]
  rw [frame_same_rate hdst, List.getD_eq_getElem s default (by omega)]

end NodeWebrtc.Resample
