import Mathlib.Algebra.GroupWithZero.Nat
import Mathlib.Algebra.Order.BigOperators.Group.List
import Mathlib.Tactic.Ring
import NodeWebrtc.Player.Resample

/-! # Which layouts are resampled right

The right audio interpolates the average of the channels at every position before the end of the
source. A mono source keeps its samples, so what a push could not put out yet is put out later, in
any split. Of several channels only the averages are kept, and the next call takes them for
samples and averages them again.
-/

namespace NodeWebrtc.Player

open Mixer (SAMPLE_RATE CHANNELS i16ToLeBytes)
open Resample

namespace Stereo48kResampler

variable {K : Interpolation Int} {rate : Nat} {r : Stereo48kResampler}

/-- The frames of so many source frames: their time, rounded up. -/
def frameCount (rate n : Nat) : Nat := (n * SAMPLE_RATE + (rate - 1)) / rate

/-- The frames whose position is not past the last of so many source frames. -/
def known (rate n : Nat) : Nat := if n = 0 then 0 else (n - 1) * SAMPLE_RATE / rate + 1

/-- The frames of a mono source from one up to another, as bytes. -/
def bytes (K : Interpolation Int) (rate : Nat) (s : List Int) (a b : Nat) : List UInt8 :=
  (frames K rate SAMPLE_RATE s a b).flatMap stereo

def whole (K : Interpolation Int) (rate : Nat) (s : List Int) : List UInt8 :=
  bytes K rate s 0 (frameCount rate s.length)

/-! ## Positions -/

theorem sampleRate_pos : 0 < SAMPLE_RATE := by decide

variable {k n : Nat}

theorem lt_frameCount_iff (hrate : 0 < rate) :
    k < frameCount rate n ↔ k * rate < n * SAMPLE_RATE := by
  rw [frameCount, ← Nat.succ_le_iff, Nat.le_div_iff_mul_le hrate, Nat.succ_mul]
  omega

theorem le_position_iff (hrate : 0 < rate) :
    n ≤ k * rate / SAMPLE_RATE ↔ frameCount rate n ≤ k := by
  rw [Nat.le_div_iff_mul_le sampleRate_pos, ← Nat.not_lt, ← Nat.not_lt, lt_frameCount_iff hrate]

theorem lt_known_iff (hrate : 0 < rate) (hn : 0 < n) :
    k < known rate n ↔ k * rate ≤ (n - 1) * SAMPLE_RATE := by
  rw [known, if_neg (by omega), Nat.lt_succ_iff, Nat.le_div_iff_mul_le hrate]

@[simp] theorem known_zero (rate : Nat) : known rate 0 = 0 := rfl

@[simp] theorem frameCount_zero (hrate : 0 < rate) : frameCount rate 0 = 0 := by
  rw [frameCount, Nat.div_eq_of_lt (by omega)]

theorem known_le_frameCount (hrate : 0 < rate) (n : Nat) : known rate n ≤ frameCount rate n := by
  rcases Nat.eq_zero_or_pos n with rfl | hn
  · exact Nat.zero_le _
  · refine Nat.le_of_not_lt fun hlt => ?_
    have hle := (lt_known_iff hrate hn).mp hlt
    have hge : ¬ frameCount rate n * rate < n * SAMPLE_RATE := fun h =>
      Nat.lt_irrefl _ ((lt_frameCount_iff hrate).mpr h)
    rw [SAMPLE_RATE] at hle hge
    omega

theorem known_mono {m : Nat} (h : n ≤ m) : known rate n ≤ known rate m := by
  rw [known, known]
  split
  · exact Nat.zero_le _
  · rw [if_neg (by omega)]
    exact Nat.succ_le_succ (Nat.div_le_div_right (Nat.mul_le_mul_right _ (by omega)))

@[simp] theorem known_same (n : Nat) : known SAMPLE_RATE n = n := by
  rw [known]
  split
  · next h => exact h.symm
  · rw [Nat.mul_div_cancel _ sampleRate_pos]
    omega

@[simp] theorem frameCount_same (n : Nat) : frameCount SAMPLE_RATE n = n := by
  rw [frameCount, SAMPLE_RATE]
  omega

/-! ## One call -/

theorem rounds_eq (hrate : 0 < r.srcRate) (n k : Nat) :
    r.rounds K r.src.length n k =
      frames K r.srcRate SAMPLE_RATE r.src k (min (k + n) (frameCount r.srcRate r.src.length)) := by
  induction n generalizing k with
  | zero =>
    have hnone : min (k + 0) (frameCount r.srcRate r.src.length) - k = 0 := by omega
    rw [frames, hnone]
    rfl
  | succ n ih =>
    rw [rounds, ih, frames, frames]
    by_cases hend : frameCount r.srcRate r.src.length ≤ k
    · rw [if_pos ((le_position_iff hrate).mpr hend),
        show min (k + (n + 1)) (frameCount r.srcRate r.src.length) - k = 0 by omega]
      rfl
    · rw [if_neg (mt (le_position_iff hrate).mp hend),
        show min (k + (n + 1)) (frameCount r.srcRate r.src.length) - k =
          min (k + 1 + n) (frameCount r.srcRate r.src.length) - (k + 1) + 1 by omega]
      rfl

theorem emitMonoPassthrough_push (hrate : 0 < r.srcRate) (hsrc : r.src ≠ [])
    (hnext : r.nextOut ≤ known r.srcRate r.src.length) :
    r.emitMonoPassthrough K r.src.length false =
      ({ r with nextOut := known r.srcRate r.src.length },
        frames K r.srcRate SAMPLE_RATE r.src r.nextOut (known r.srcRate r.src.length)) := by
  have hpos := List.length_pos_iff.mpr hsrc
  rw [emitMonoPassthrough]
  by_cases hsame : r.srcRate = SAMPLE_RATE
  · rw [if_pos hsame, hsame, known_same, frames_same_rate _ _ sampleRate_pos]
    rw [hsame, known_same] at hnext
    split
    · next hle =>
      have heq : r.nextOut = r.src.length := Nat.le_antisymm hnext hle
      rw [← hsame, ← heq, List.drop_eq_nil_of_le heq.ge]
    · rw [List.take_length]
  · have hmax : r.maxOut r.src.length false = known r.srcRate r.src.length - r.nextOut := by
      rw [maxOut, if_neg Bool.false_ne_true, known, if_neg (by omega)]
    have hstop : min (r.nextOut + (known r.srcRate r.src.length - r.nextOut))
        (frameCount r.srcRate r.src.length) = known r.srcRate r.src.length := by
      rw [Nat.add_sub_cancel' hnext, Nat.min_eq_left (known_le_frameCount hrate _)]
    rw [if_neg hsame, emitLinearResampleMono, rounds_eq hrate, hmax, hstop,
      if_neg Bool.false_ne_true, length_frames, Nat.add_sub_cancel' hnext]

theorem emitMonoPassthrough_finish (hrate : 0 < r.srcRate) :
    (r.emitMonoPassthrough K r.src.length true).2 =
      frames K r.srcRate SAMPLE_RATE r.src r.nextOut (frameCount r.srcRate r.src.length) := by
  rw [emitMonoPassthrough]
  by_cases hsame : r.srcRate = SAMPLE_RATE
  · rw [if_pos hsame, hsame, frameCount_same, frames_same_rate _ _ sampleRate_pos]
    split
    · next hle => rw [List.drop_eq_nil_of_le hle]
    · rw [List.take_length]
  · have hstop : min (r.nextOut + r.maxOut r.src.length true)
        (frameCount r.srcRate r.src.length) = frameCount r.srcRate r.src.length := by
      have hle : frameCount r.srcRate r.src.length ≤
          r.src.length * SAMPLE_RATE / r.srcRate + 1 := by
        rw [← Nat.add_div_right _ hrate]
        exact Nat.div_le_div_right (by omega)
      rw [maxOut, if_pos rfl]
      omega
    rw [if_neg hsame, emitLinearResampleMono, rounds_eq hrate, hstop, if_pos rfl]

/-! ## One channel -/

/-- A mono source after some calls: all samples are kept, and every frame that they determine is
out. -/
structure Mono (rate : Nat) (s : List Int) (r : Stereo48kResampler) : Prop where
  positive : 0 < rate
  srcRate : r.srcRate = rate
  srcChannels : r.srcChannels = 1
  src : r.src = s
  nextOut : r.nextOut = known rate s.length

theorem mono_new (srcRate : Nat) : Mono (max srcRate 1) [] (new srcRate 1) :=
  ⟨Nat.lt_of_lt_of_le Nat.one_pos (Nat.le_max_right _ _), rfl, rfl, rfl, rfl⟩

theorem bytes_append (hrate : 0 < rate) (s t : List Int) (a : Nat) :
    bytes K rate (s ++ t) a (known rate s.length) = bytes K rate s a (known rate s.length) := by
  cases s with
  | nil => rw [bytes, bytes, List.length_nil, known_zero, frames, frames, Nat.zero_sub]; rfl
  | cons x s =>
    rw [bytes, bytes, frames_append t sampleRate_pos (List.cons_ne_nil x s)]
    exact fun k _ hk => (lt_known_iff hrate (Nat.succ_pos _)).mp hk

theorem bytes_append_bytes (s : List Int) {a b c : Nat} (hab : a ≤ b) (hbc : b ≤ c) :
    bytes K rate s a b ++ bytes K rate s b c = bytes K rate s a c := by
  rw [bytes, bytes, bytes, ← List.flatMap_append, frames_append_frames s hab hbc]

@[simp] theorem bytes_self (s : List Int) (a : Nat) : bytes K rate s a a = [] := by
  rw [bytes, frames_self]
  rfl

theorem emitAvailable_mono (hrate : 0 < r.srcRate) (hchannels : r.srcChannels = 1)
    (hsrc : r.src ≠ []) (hnext : r.nextOut ≤ known r.srcRate r.src.length) :
    r.emitAvailable K false =
      ({ r with nextOut := known r.srcRate r.src.length },
        bytes K r.srcRate r.src r.nextOut (known r.srcRate r.src.length)) := by
  have hpos := List.length_pos_iff.mpr hsrc
  have hpush := emitMonoPassthrough_push (K := K) hrate hsrc hnext
  rw [emitAvailable]
  rw [hchannels, Nat.div_one, if_neg (by omega), if_pos rfl, hpush, bytes, hchannels]

variable {s : List Int}

section

variable (K)

theorem Mono.push (h : Mono rate s r) (t : List Int) :
    ∃ r', r.pushI16Interleaved K t =
        (r', bytes K rate (s ++ t) (known rate s.length) (known rate (s ++ t).length)) ∧
      Mono rate (s ++ t) r' := by
  cases t with
  | nil =>
    rw [List.append_nil, bytes_self]
    exact ⟨r, rfl, h⟩
  | cons x t =>
    obtain ⟨hrate, rfl, hchannels, rfl, hnext⟩ := h
    have hle : r.nextOut ≤ known r.srcRate (r.src ++ x :: t).length :=
      hnext.trans_le (known_mono (by simp))
    have hpush : r.pushI16Interleaved K (x :: t) = _ :=
      emitAvailable_mono (r := { r with src := r.src ++ x :: t }) hrate hchannels (by simp) hle
    rw [hpush, ← hnext]
    exact ⟨_, rfl, hrate, rfl, hchannels, rfl, rfl⟩

theorem Mono.pushAll (h : Mono rate s r) (pieces : List (List Int)) :
    Mono rate (s ++ pieces.flatten) (r.pushAll K pieces).1 ∧
      bytes K rate s 0 (known rate s.length) ++ (r.pushAll K pieces).2 =
        bytes K rate (s ++ pieces.flatten) 0 (known rate (s ++ pieces.flatten).length) := by
  induction pieces generalizing s r with
  | nil =>
    rw [List.flatten_nil, List.append_nil]
    exact ⟨h, List.append_nil _⟩
  | cons piece pieces ih =>
    obtain ⟨r', hpush, h'⟩ := h.push K piece
    obtain ⟨hall, hout⟩ := ih h'
    have hmono : known rate s.length ≤ known rate (s ++ piece).length :=
      known_mono (by simp)
    rw [Stereo48kResampler.pushAll, hpush, List.flatten_cons, ← List.append_assoc]
    refine ⟨hall, ?_⟩
    rw [← hout, ← List.append_assoc, ← bytes_append h.positive s piece,
      bytes_append_bytes _ (Nat.zero_le _) hmono]

theorem Mono.finish (h : Mono rate s r) :
    bytes K rate s 0 (known rate s.length) ++ (r.finish K).2 = whole K rate s := by
  obtain ⟨hrate, rfl, hchannels, rfl, hnext⟩ := h
  rw [Stereo48kResampler.finish, emitAvailable, whole]
  dsimp only
  rw [hchannels, Nat.div_one, if_pos rfl]
  split
  · next hnone => rw [hnone, known_zero, frameCount_zero hrate, List.append_nil]
  · rw [emitMonoPassthrough_finish hrate, hnext]
    exact bytes_append_bytes _ (Nat.zero_le _) (known_le_frameCount hrate _)

end

theorem convert_mono (srcRate : Nat) (pieces : List (List Int)) :
    (new srcRate 1).convert K pieces = whole K (max srcRate 1) pieces.flatten := by
  obtain ⟨hall, hout⟩ := (mono_new srcRate).pushAll K pieces
  have hfinish := hall.finish K
  rw [List.nil_append] at hout hfinish
  rw [List.length_nil, known_zero, bytes_self, List.nil_append] at hout
  rw [convert, hout, hfinish]

/-! ## Several channels -/

@[simp] theorem length_averages (channels : Nat) (src : List Int) (n : Nat) :
    (averages channels src n).length = n := by
  rw [averages, List.length_map, List.length_range]

def mixed (r : Stereo48kResampler) : List Int :=
  averages r.srcChannels r.src (r.src.length / r.srcChannels)

theorem emitAvailable_several (hrate : 0 < r.srcRate) (hchannels : 1 < r.srcChannels)
    (hwhole : r.src.length / r.srcChannels ≠ 0) :
    r.emitAvailable K false =
      ({ r with src := r.mixed, nextOut := known r.srcRate r.mixed.length },
        bytes K r.srcRate r.mixed 0 (known r.srcRate r.mixed.length)) := by
  have hmixed : r.mixed ≠ [] := List.ne_nil_of_length_pos (by
    rw [mixed, length_averages]
    exact Nat.pos_of_ne_zero hwhole)
  have hpush := emitMonoPassthrough_push (K := K)
    (r := { r with src := r.mixed, nextOut := 0, srcChannels := 1 }) hrate hmixed (Nat.zero_le _)
  have hdown : r.emitDownmixStereo K (r.src.length / r.srcChannels) false =
      ({ r with src := r.mixed, nextOut := known r.srcRate r.mixed.length },
        frames K r.srcRate SAMPLE_RATE r.mixed 0 (known r.srcRate r.mixed.length)) := by
    simp only [emitDownmixStereo]
    rw [mixed] at hpush ⊢
    rw [hpush]
  rw [emitAvailable]
  rw [if_neg hwhole, if_neg (by omega), hdown, bytes]

theorem finish_several (hrate : 0 < r.srcRate) (hchannels : 1 < r.srcChannels) :
    (r.finish K).2 = whole K r.srcRate r.mixed := by
  have hfinish := emitMonoPassthrough_finish (K := K)
    (r := { r with src := r.mixed, nextOut := 0, srcChannels := 1 }) hrate
  rw [Stereo48kResampler.finish, emitAvailable, whole]
  split
  · next hnone => rw [mixed, length_averages, hnone, frameCount_zero hrate, bytes_self]
  · rw [if_neg (by omega), emitDownmixStereo]
    rw [mixed] at hfinish ⊢
    rw [hfinish, bytes]

variable {channels : Nat}

/-- Several channels at once: the frames that a push determines, and then all frames of the
averages of the averages. -/
theorem convert_several {srcRate : Nat} (hchannels : 1 < channels) (hs : s.length = n * channels)
    (hn : 0 < n) :
    (new srcRate channels).convert K [s] =
      bytes K (max srcRate 1) (averages channels s n) 0 (known (max srcRate 1) n) ++
        whole K (max srcRate 1) (averages channels (averages channels s n) (n / channels)) := by
  have hrate : 0 < max srcRate 1 := Nat.lt_of_lt_of_le Nat.one_pos (Nat.le_max_right _ _)
  have hmax : max channels 1 = channels := Nat.max_eq_left (by omega)
  have hdiv : s.length / channels = n := by rw [hs, Nat.mul_div_cancel _ (by omega)]
  have hpos : 0 < s.length := by
    rw [hs]
    exact Nat.mul_pos hn (by omega)
  have hpush : (new srcRate channels).pushI16Interleaved K s = _ :=
    (if_neg (by simp [List.ne_nil_of_length_pos hpos])).trans
      (emitAvailable_several (r := ⟨max srcRate 1, max channels 1, s, 0⟩) hrate (by rw [hmax]; omega)
        (by rw [hmax, hdiv]; omega))
  rw [convert, pushAll, pushAll, hpush]
  rw [List.append_nil, finish_several hrate (by rw [hmax]; omega)]
  simp only [mixed, hmax, hdiv, length_averages]

/-! ## One frame at a time -/

def mixedFrame (channels : Nat) (held piece : List Int) : Int :=
  ((held ++ piece).take channels).sum.tdiv channels

/-- What frames that come one by one are averaged to: each behind the average before it. -/
def carried (channels : Nat) : List Int → List (List Int) → List Int
  | _, [] => []
  | held, piece :: pieces =>
    mixedFrame channels held piece :: carried channels [mixedFrame channels held piece] pieces

@[simp] theorem length_carried (channels : Nat) (held : List Int) (pieces : List (List Int)) :
    (carried channels held pieces).length = pieces.length := by
  induction pieces generalizing held with
  | nil => rfl
  | cons piece pieces ih => rw [carried, List.length_cons, ih, List.length_cons]

theorem averages_succ (channels : Nat) (s : List Int) (n : Nat) :
    averages channels s (n + 1) =
      mixedFrame channels [] s :: averages channels (s.drop channels) n := by
  rw [averages, List.range_succ_eq_map, List.map_cons, List.map_map, Nat.zero_mul]
  refine congrArg _ (List.map_congr_left fun i _ => ?_)
  rw [Function.comp_apply, Nat.succ_mul, List.drop_drop, Nat.add_comm]

theorem averages_one (channels : Nat) (s : List Int) :
    averages channels s 1 = [mixedFrame channels [] s] := averages_succ channels s 0

theorem known_one (rate : Nat) : known rate 1 = 1 := by
  rw [known, if_neg Nat.one_ne_zero, Nat.zero_mul, Nat.zero_div]

theorem bytes_first (rate : Nat) (s : List Int) :
    bytes K rate s 0 1 = stereo (s.getD 0 default) := by
  simp [bytes, frames, frame, K.start]

section

variable (K)

theorem push_frame (hrate : 0 < r.srcRate) (hchannels : 1 < r.srcChannels)
    (hheld : r.src.length ≤ 1) {piece : List Int} (hpiece : piece.length = r.srcChannels) :
    r.pushI16Interleaved K piece =
      ({ r with src := [mixedFrame r.srcChannels r.src piece], nextOut := 1 },
        stereo (mixedFrame r.srcChannels r.src piece)) := by
  have hone : (r.src ++ piece).length / r.srcChannels = 1 := by
    rw [List.length_append, hpiece, Nat.add_div_right _ (by omega), Nat.div_eq_of_lt (by omega)]
  have hmixed : ({ r with src := r.src ++ piece } : Stereo48kResampler).mixed =
      [mixedFrame r.srcChannels r.src piece] := by
    rw [mixed, hone, averages_one, mixedFrame, mixedFrame, List.nil_append]
  have hpush : r.pushI16Interleaved K piece = _ :=
    (if_neg (by simp [List.ne_nil_of_length_pos (hpiece.trans_gt (Nat.lt_of_succ_lt hchannels))])).trans
      (emitAvailable_several (r := { r with src := r.src ++ piece }) hrate hchannels
        (by rw [hone]; exact Nat.one_ne_zero))
  rw [hpush, hmixed, List.length_singleton, known_one, bytes_first]
  rfl

theorem pushAll_frames (hrate : 0 < r.srcRate) (hchannels : 1 < channels)
    (hsame : r.srcChannels = channels) (hheld : r.src.length ≤ 1) {pieces : List (List Int)}
    (hpieces : ∀ piece ∈ pieces, piece.length = channels) :
    (r.pushAll K pieces).2 = (carried channels r.src pieces).flatMap stereo ∧
      ((r.pushAll K pieces).1.finish K).2 = [] := by
  induction pieces generalizing r with
  | nil =>
    refine ⟨rfl, ?_⟩
    have hnone : r.src.length / r.srcChannels = 0 := Nat.div_eq_of_lt (by omega)
    rw [pushAll, finish, emitAvailable]
    rw [if_pos hnone]
  | cons piece pieces ih =>
    obtain ⟨hpiece, hothers⟩ := List.forall_mem_cons.mp hpieces
    subst hsame
    rw [pushAll, push_frame K hrate hchannels hheld hpiece]
    obtain ⟨hout, hfinish⟩ := ih
      (r := { r with src := [mixedFrame r.srcChannels r.src piece], nextOut := 1 })
      hrate rfl (Nat.le_refl 1) hothers
    refine ⟨?_, hfinish⟩
    rw [carried, List.flatMap_cons, ← hout]

theorem convert_frames (srcRate : Nat) (hchannels : 1 < channels) {pieces : List (List Int)}
    (hpieces : ∀ piece ∈ pieces, piece.length = channels) :
    (new srcRate channels).convert K pieces = (carried channels [] pieces).flatMap stereo := by
  obtain ⟨hout, hfinish⟩ := pushAll_frames (r := new srcRate channels) K
    (Nat.lt_of_lt_of_le Nat.one_pos (Nat.le_max_right _ _)) hchannels
    (Nat.max_eq_left (by omega)) (Nat.zero_le 1) hpieces
  rw [convert, hout, hfinish, List.append_nil]
  rfl

end

/-! ## Layouts -/

/-- The channels of each frame averaged, the averages interpolated up to the end of the source. -/
def rightAudio (K : Interpolation Int) (srcRate channels : Nat) (s : List Int) : List UInt8 :=
  whole K (max srcRate 1) (averages channels s (s.length / channels))

section Layout

variable {F : Type} (quantize : F → Int) (K : Interpolation Int) (srcRate channels n : Nat)

/-- Every input of so many frames of the layout is right in one call. -/
def OneShotRight : Prop := ∀ samples : List F, samples.length = n * channels →
  f32InterleavedToStereo48k quantize K samples srcRate channels =
    rightAudio K srcRate channels (samples.map quantize)

/-- So it is in every split into pieces of whole frames. -/
def PiecesRight : Prop := ∀ pieces : List (List F), (∀ piece ∈ pieces, channels ∣ piece.length) →
  pieces.flatten.length = n * channels →
    (new srcRate channels).convert K (pieces.map (List.map quantize)) =
      rightAudio K srcRate channels (pieces.flatten.map quantize)

end Layout

section

variable {F : Type} {quantize : F → Int} {srcRate channels n : Nat}

theorem averages_mono (s : List Int) : averages 1 s s.length = s := by
  induction s with
  | nil => rfl
  | cons x s ih =>
    rw [List.length_cons, averages_succ, List.drop_one, List.tail_cons, ih, mixedFrame]
    simp

theorem rightAudio_mono (srcRate : Nat) (s : List Int) :
    rightAudio K srcRate 1 s = whole K (max srcRate 1) s := by
  rw [rightAudio, Nat.div_one, averages_mono]

theorem whole_nil (hrate : 0 < rate) : whole K rate [] = [] := by
  rw [whole, List.length_nil, frameCount_zero hrate, bytes_self]

theorem rate_pos (srcRate : Nat) : 0 < max srcRate 1 :=
  Nat.lt_of_lt_of_le Nat.one_pos (Nat.le_max_right _ _)

theorem rightAudio_nil (srcRate channels : Nat) : rightAudio K srcRate channels [] = [] := by
  rw [rightAudio, List.length_nil, Nat.zero_div]
  exact whole_nil (rate_pos srcRate)

variable {pieces : List (List Int)}

theorem pushAll_of_flatten_nil (h : pieces.flatten = []) : r.pushAll K pieces = (r, []) := by
  induction pieces with
  | nil => rfl
  | cons piece pieces ih =>
    obtain ⟨rfl, hothers⟩ := List.append_eq_nil_iff.mp h
    have hpush : r.pushI16Interleaved K [] = (r, []) := rfl
    rw [pushAll, hpush, ih hothers, List.append_nil]

theorem convert_of_flatten_nil (h : pieces.flatten = []) :
    (new srcRate channels).convert K pieces = [] := by
  rw [convert, pushAll_of_flatten_nil h, finish, emitAvailable, new]
  rw [List.length_nil, Nat.zero_div, if_pos rfl, List.append_nil]

theorem f32_eq_convert (hchannels : 0 < channels)
    (hdirect : ¬ (srcRate = SAMPLE_RATE ∧ channels = CHANNELS)) {samples : List F}
    (hlen : samples.length = n * channels) :
    f32InterleavedToStereo48k quantize K samples srcRate channels =
      (new srcRate channels).convert K [samples.map quantize] := by
  cases samples with
  | nil =>
    rw [convert_of_flatten_nil rfl]
    rfl
  | cons x samples =>
    rw [f32InterleavedToStereo48k, if_neg (by simp [hchannels.ne']), if_neg hdirect]
    dsimp only
    rw [Nat.div_mul_cancel (Dvd.intro_left n hlen.symm), List.take_of_length_le (by simp)]

theorem oneShotRight_iff_convert (hchannels : 0 < channels)
    (hdirect : ¬ (srcRate = SAMPLE_RATE ∧ channels = CHANNELS)) :
    OneShotRight quantize K srcRate channels n ↔
      ∀ samples : List F, samples.length = n * channels →
        (new srcRate channels).convert K [samples.map quantize] =
          rightAudio K srcRate channels (samples.map quantize) := by
  refine forall_congr' fun samples => forall_congr' fun hlen => ?_
  rw [f32_eq_convert hchannels hdirect hlen]

/-! ### What is right -/

theorem oneShot_right (hlayout : channels = 1 ∨ n = 0 ∨ n < channels ∧
      frameCount (max srcRate 1) n = known (max srcRate 1) n)
    {s : List Int} (hlen : s.length = n * channels) :
    (new srcRate channels).convert K [s] = rightAudio K srcRate channels s := by
  rcases Nat.eq_zero_or_pos n with rfl | hn
  · obtain rfl : s = [] := List.length_eq_zero_iff.mp (by rw [hlen, Nat.zero_mul])
    rw [convert_of_flatten_nil rfl, rightAudio_nil]
  rcases hlayout with rfl | hzero | ⟨hlt, hcount⟩
  · rw [convert_mono, rightAudio_mono, List.flatten_singleton]
  · omega
  · rcases Nat.lt_or_ge 1 channels with hmany | hfew
    · have hrest : whole K (max srcRate 1) (averages channels (averages channels s n) 0) = [] :=
        whole_nil (rate_pos srcRate)
      rw [convert_several hmany hlen hn, Nat.div_eq_of_lt hlt, hrest, List.append_nil, rightAudio,
        hlen, Nat.mul_div_cancel _ (by omega), whole, length_averages, hcount]
    · omega

theorem pushAll_one_frame (hrate : 0 < r.srcRate) (hchannels : 1 < r.srcChannels)
    (hsrc : r.src = []) (hpieces : ∀ piece ∈ pieces, r.srcChannels ∣ piece.length)
    (hlen : pieces.flatten.length = r.srcChannels) :
    (r.pushAll K pieces).2 = stereo (mixedFrame r.srcChannels [] pieces.flatten) ∧
      ((r.pushAll K pieces).1.finish K).2 = [] := by
  induction pieces with
  | nil =>
    rw [List.flatten_nil, List.length_nil] at hlen
    omega
  | cons piece pieces ih =>
    obtain ⟨hpiece, hothers⟩ := List.forall_mem_cons.mp hpieces
    rw [List.flatten_cons, List.length_append] at hlen
    rcases Nat.eq_zero_or_pos piece.length with hnone | hsome
    · obtain rfl := List.length_eq_zero_iff.mp hnone
      exact ih hothers (by rwa [List.length_nil, Nat.zero_add] at hlen)
    · have hall := Nat.le_of_dvd hsome hpiece
      have hrest : pieces.flatten = [] := List.length_eq_zero_iff.mp (by omega)
      have hpush := push_frame (r := r) K hrate hchannels (by simp [hsrc])
        (show piece.length = r.srcChannels by omega)
      rw [hsrc] at hpush
      have hfinish := (pushAll_frames K (r := { r with
        src := [mixedFrame r.srcChannels [] piece], nextOut := 1 }) hrate hchannels rfl
          (Nat.le_refl 1) (List.forall_mem_nil _)).2
      rw [pushAll, hpush, pushAll_of_flatten_nil hrest, List.flatten_cons, hrest,
        List.append_nil, List.append_nil]
      exact ⟨rfl, hfinish⟩

theorem frameCount_one (hrate : SAMPLE_RATE ≤ rate) : frameCount rate 1 = 1 := by
  have hpos := sampleRate_pos
  rw [frameCount, Nat.div_eq_iff (by omega)]
  omega

theorem pieces_right (hchannels : 0 < channels)
    (hlayout : channels = 1 ∨ n = 0 ∨ n = 1 ∧ SAMPLE_RATE ≤ srcRate)
    (hpieces : ∀ piece ∈ pieces, channels ∣ piece.length)
    (hlen : pieces.flatten.length = n * channels) :
    (new srcRate channels).convert K pieces = rightAudio K srcRate channels pieces.flatten := by
  rcases Nat.lt_or_ge 1 channels with hmany | hfew
  · rcases hlayout with hone | rfl | ⟨rfl, hrate⟩
    · omega
    · have hnil : pieces.flatten = [] := List.length_eq_zero_iff.mp (by rw [hlen, Nat.zero_mul])
      rw [convert_of_flatten_nil hnil, hnil, rightAudio_nil]
    · have hmax : max channels 1 = channels := Nat.max_eq_left hchannels
      rw [Nat.one_mul] at hlen
      have hdvd : ∀ piece ∈ pieces, (new srcRate channels).srcChannels ∣ piece.length := by
        rwa [new, hmax]
      obtain ⟨hout, hfinish⟩ := pushAll_one_frame (K := K) (r := new srcRate channels)
        (rate_pos srcRate) (by rwa [new, hmax]) rfl hdvd (by rwa [new, hmax])
      rw [convert, hout, hfinish, rightAudio, hlen, Nat.div_self hchannels,
        averages_one, whole, List.length_singleton, frameCount_one (by omega), bytes_first, new, hmax]
      rfl
  · obtain rfl : channels = 1 := by omega
    rw [convert_mono, rightAudio_mono]

/-! ### What is wrong -/

theorem i16ToLeBytes_inj {a b : Int} (ha : 0 ≤ a ∧ a ≤ 32767) (hb : 0 ≤ b ∧ b ≤ 32767)
    (h : i16ToLeBytes a = i16ToLeBytes b) : a = b := by
  simp only [i16ToLeBytes, List.cons.injEq, ← UInt8.toNat_inj, UInt8.toNat_ofNat'] at h
  omega

theorem map_bytes_of_stereo {l l' : List Int} (h : l.flatMap stereo = l'.flatMap stereo) :
    l.map i16ToLeBytes = l'.map i16ToLeBytes := by
  induction l generalizing l' with
  | nil =>
    cases l' with
    | nil => rfl
    | cons b l' => simp [stereo, i16ToLeBytes] at h
  | cons a l ih =>
    cases l' with
    | nil => simp [stereo, i16ToLeBytes] at h
    | cons b l' =>
      obtain ⟨hhead, htail⟩ := List.append_inj h rfl
      rw [List.map_cons, List.map_cons, ih htail, (List.append_inj hhead rfl).1]

theorem averages_flatten {channels : Nat} (hpieces : ∀ piece ∈ pieces, piece.length = channels) :
    averages channels pieces.flatten pieces.length = pieces.map (mixedFrame channels []) := by
  induction pieces with
  | nil => rfl
  | cons piece pieces ih =>
    obtain ⟨hpiece, hothers⟩ := List.forall_mem_cons.mp hpieces
    rw [List.length_cons, averages_succ, List.flatten_cons, List.map_cons,
      List.drop_left' hpiece, ih hothers, mixedFrame, mixedFrame, List.nil_append,
      List.nil_append, List.take_left' hpiece, ← hpiece, List.take_length]

theorem mixedFrame_replicate {channels : Nat} (hchannels : 0 < channels) (x : Int) :
    mixedFrame channels [] (List.replicate channels x) = x := by
  have hcancel := Int.mul_tdiv_cancel_left x (show (channels : Int) ≠ 0 by omega)
  rwa [mixedFrame, List.nil_append, List.take_of_length_le (by simp), List.sum_replicate,
    nsmul_eq_mul]

theorem mixedFrame_lt {channels : Nat} {held piece : List Int}
    (hpos : 0 ≤ ((held ++ piece).take channels).sum)
    (hlt : ((held ++ piece).take channels).sum < 32767 * channels) :
    0 ≤ mixedFrame channels held piece ∧ mixedFrame channels held piece < 32767 := by
  rw [mixedFrame, Int.tdiv_eq_ediv_of_nonneg hpos]
  refine ⟨Int.ediv_nonneg hpos (Int.natCast_nonneg _), ?_⟩
  exact Int.ediv_lt_of_lt_mul (by omega) hlt

def loudLast (n : Nat) : List Int := List.replicate n 0 ++ [32767]

def loudEnd (channels n : Nat) : List (List Int) :=
  List.replicate n (List.replicate channels 0) ++ [List.replicate channels 32767]

theorem length_flatten_loudEnd (channels n : Nat) :
    (loudEnd channels n).flatten.length = (n + 1) * channels := by
  simp [loudEnd, Nat.succ_mul]

theorem averages_loudEnd {channels : Nat} (hchannels : 0 < channels) (n : Nat) :
    averages channels (loudEnd channels n).flatten (n + 1) = loudLast n := by
  have hpieces : ∀ piece ∈ loudEnd channels n, piece.length = channels := by
    intro piece hpiece
    rcases List.mem_append.mp hpiece with hsilent | hloud
    · rw [List.eq_of_mem_replicate hsilent, List.length_replicate]
    · rw [List.mem_singleton.mp hloud, List.length_replicate]
  have hcount : (loudEnd channels n).length = n + 1 := by simp [loudEnd]
  rw [← hcount, averages_flatten hpieces, loudEnd, List.map_append, List.map_replicate,
    List.map_singleton, mixedFrame_replicate hchannels, mixedFrame_replicate hchannels, loudLast]

theorem frame_loudLast (hold : ∀ a p, K.value a a p = a) (hrate : 0 < rate) {n k : Nat}
    (hfrom : known rate (n + 1) ≤ k) (hto : k < frameCount rate (n + 1)) :
    frame K rate SAMPLE_RATE (loudLast n) k = 32767 := by
  have hlast : n ≤ k * rate / SAMPLE_RATE := by
    have hnot : ¬ k * rate ≤ n * SAMPLE_RATE :=
      mt (lt_known_iff hrate (Nat.succ_pos n)).mpr (Nat.not_lt.mpr hfrom)
    exact (Nat.le_div_iff_mul_le sampleRate_pos).mpr (Nat.le_of_not_le hnot)
  have hwithin : k * rate / SAMPLE_RATE < n + 1 :=
    Nat.lt_of_not_le fun hle => absurd ((le_position_iff hrate).mp hle) (by omega)
  refine frame_eq_of_level hold (by simpa [loudLast] using hwithin) fun i hi hlen => ?_
  have hi : i = n := by
    rw [loudLast, List.length_append, List.length_replicate, List.length_singleton] at hlen
    omega
  rw [loudLast, hi, List.getD_append_right _ _ _ _ (by simp), List.length_replicate, Nat.sub_self]
  rfl

theorem mixedFrame_loudLast {channels : Nat} (hmany : 1 < channels) (n : Nat) :
    0 ≤ mixedFrame channels [] (loudLast n) ∧ mixedFrame channels [] (loudLast n) < 32767 := by
  have hnonneg : ∀ x ∈ loudLast n, (0 : Int) ≤ x := by
    intro x hx
    rcases List.mem_append.mp hx with hx | hx
    · exact (List.eq_of_mem_replicate hx).ge
    · rw [List.mem_singleton.mp hx]
      decide
  have hsum : (loudLast n).sum = 32767 := by simp [loudLast]
  have hle : ((loudLast n).take channels).sum ≤ (loudLast n).sum :=
    (List.take_sublist channels _).sum_le_sum hnonneg
  refine mixedFrame_lt ?_ ?_
  · exact List.sum_nonneg fun x hx => hnonneg x (List.mem_of_mem_take hx)
  · rw [List.nil_append]
    omega

theorem layout_of_loudEnd (hold : ∀ a p, K.value a a p = a) {channels n : Nat}
    (hmany : 1 < channels)
    (h : (new srcRate channels).convert K [(loudEnd channels n).flatten] =
      rightAudio K srcRate channels (loudEnd channels n).flatten) :
    n + 1 < channels ∧
      frameCount (max srcRate 1) (n + 1) = known (max srcRate 1) (n + 1) := by
  have hrate := rate_pos srcRate
  have hknown := known_le_frameCount hrate (n + 1)
  have hlen := length_flatten_loudEnd channels n
  have hcount : (loudLast n).length = n + 1 := by simp [loudLast]
  rw [convert_several hmany hlen (Nat.succ_pos n), rightAudio, hlen,
    Nat.mul_div_cancel _ (by omega), averages_loudEnd (by omega), whole.eq_1 K _ (loudLast n), hcount,
    ← bytes_append_bytes _ (Nat.zero_le _) hknown] at h
  have htail := map_bytes_of_stereo (List.append_cancel_left h)
  have hlength := congrArg List.length htail
  rw [List.length_map, List.length_map, length_frames, length_frames, length_averages] at hlength
  cases hfew : (n + 1) / channels with
  | zero =>
    rw [hfew, frameCount_zero hrate] at hlength
    refine ⟨(Nat.div_eq_zero_iff_lt (by omega)).mp hfew, by omega⟩
  | succ m =>
    rw [hfew] at htail hlength
    have hsome : 0 < frameCount (max srcRate 1) (m + 1) := by
      rw [lt_frameCount_iff hrate, Nat.zero_mul]
      exact Nat.mul_pos (Nat.succ_pos m) sampleRate_pos
    have hdue : known (max srcRate 1) (n + 1) < frameCount (max srcRate 1) (n + 1) := by omega
    rw [length_averages, frames_eq_cons _ hsome, frames_eq_cons (loudLast n) hdue, List.map_cons,
      List.map_cons, frame_loudLast hold hrate (Nat.le_refl _) hdue, averages_succ] at htail
    have hhead := (List.cons.inj htail).1
    have hquiet := mixedFrame_loudLast hmany n
    have hfirst : frame K (max srcRate 1) SAMPLE_RATE (mixedFrame channels [] (loudLast n) ::
        averages channels ((loudLast n).drop channels) m) 0 =
        mixedFrame channels [] (loudLast n) := by
      simp [frame, K.start]
    have hequal := i16ToLeBytes_inj (by omega) (by decide) hhead
    omega

def loudRest (channels n : Nat) : List (List Int) :=
  List.replicate channels 0 :: List.replicate n (List.replicate channels 32767)

theorem length_flatten_loudRest (channels n : Nat) :
    (loudRest channels n).flatten.length = (n + 1) * channels := by
  simp [loudRest, Nat.succ_mul, Nat.add_comm]

theorem averages_loudRest {channels : Nat} (hchannels : 0 < channels) (n : Nat) :
    averages channels (loudRest channels n).flatten (n + 1) = 0 :: List.replicate n 32767 := by
  have hpieces : ∀ piece ∈ loudRest channels n, piece.length = channels := by simp [loudRest]
  have hcount : (loudRest channels n).length = n + 1 := by simp [loudRest]
  rw [← hcount, averages_flatten hpieces, loudRest, List.map_cons, List.map_replicate,
    mixedFrame_replicate hchannels, mixedFrame_replicate hchannels]

theorem mixedFrame_behind {channels : Nat} (hmany : 1 < channels) :
    0 ≤ mixedFrame channels [0] (List.replicate channels 32767) ∧
      mixedFrame channels [0] (List.replicate channels 32767) < 32767 := by
  obtain ⟨c, rfl⟩ : ∃ c, channels = c + 2 := ⟨channels - 2, by omega⟩
  have hsum : (([0] ++ List.replicate (c + 2) 32767 : List Int).take (c + 2)).sum =
      (c + 1) * 32767 := by
    simp [List.take_replicate]
  refine mixedFrame_lt ?_ ?_ <;> rw [hsum]
  · omega
  · push_cast
    omega

theorem layout_of_loudRest (hold : ∀ a p, K.value a a p = a) {channels n : Nat}
    (hmany : 1 < channels)
    (h : (new srcRate channels).convert K (loudRest channels n) =
      rightAudio K srcRate channels (loudRest channels n).flatten) :
    n = 0 ∧ SAMPLE_RATE ≤ srcRate := by
  have hrate := rate_pos srcRate
  have hpieces : ∀ piece ∈ loudRest channels n, piece.length = channels := by simp [loudRest]
  have hlen : (loudRest channels n).flatten.length / channels = n + 1 := by
    rw [length_flatten_loudRest, Nat.mul_div_cancel _ (by omega)]
  rw [convert_frames K srcRate hmany hpieces, rightAudio, hlen, averages_loudRest (by omega),
    whole, List.length_cons, List.length_replicate] at h
  have hbytes := map_bytes_of_stereo h
  have hlength := congrArg List.length hbytes
  rw [List.length_map, List.length_map, length_carried, length_frames, loudRest, List.length_cons,
    List.length_replicate] at hlength
  have hfast : SAMPLE_RATE ≤ srcRate := by
    refine Nat.le_of_not_lt fun hslow => ?_
    have hmax : max srcRate 1 < SAMPLE_RATE := Nat.max_lt.mpr ⟨hslow, by decide⟩
    have hmore : n + 1 < frameCount (max srcRate 1) (n + 1) :=
      (lt_frameCount_iff hrate).mpr ((Nat.mul_lt_mul_left (Nat.succ_pos n)).mpr hmax)
    omega
  refine ⟨Nat.eq_zero_of_not_pos fun hn => ?_, hfast⟩
  obtain ⟨m, rfl⟩ : ∃ m, n = m + 1 := ⟨n - 1, by omega⟩
  have hsecond :
      frame K (max srcRate 1) SAMPLE_RATE (0 :: List.replicate (m + 1) 32767) 1 = 32767 := by
    have hlow : 1 ≤ 1 * max srcRate 1 / SAMPLE_RATE := by
      rw [Nat.le_div_iff_mul_le sampleRate_pos, Nat.one_mul, Nat.one_mul]
      exact Nat.le_trans hfast (Nat.le_max_left _ _)
    have hwithin : 1 * max srcRate 1 / SAMPLE_RATE < m + 1 + 1 :=
      Nat.lt_of_not_le fun hle => absurd ((le_position_iff hrate).mp hle) (by omega)
    refine frame_eq_of_level hold (by simpa using hwithin) fun i hi hin => ?_
    obtain ⟨j, rfl⟩ : ∃ j, i = j + 1 := ⟨i - 1, by omega⟩
    rw [List.length_cons, List.length_replicate] at hin
    rw [List.getD_cons_succ, List.getD_replicate _ (by omega)]
  have hquiet := mixedFrame_behind hmany
  rw [loudRest, carried, frames_eq_cons _ (by omega),
    frames_eq_cons _ (by omega), hsecond, mixedFrame_replicate (by omega)] at hbytes
  have hequal := i16ToLeBytes_inj (by omega) (by decide) (List.cons.inj (List.cons.inj hbytes).2).1
  omega

/-! ### The layouts -/

end

/-- Interpolation in whole numbers, rounded towards zero. -/
def linear : Interpolation Int where
  value a b p := a + ((b - a) * p).tdiv SAMPLE_RATE
  start a b := by simp

theorem linear_hold (a : Int) (p : Nat) : linear.value a a p = a := by simp [linear]

end Stereo48kResampler

end NodeWebrtc.Player
