import Mathlib.Tactic.Ring
import NodeWebrtc.Sherpa.StreamingResampler

/-! # Streamed and one-shot resampling

Between pushes the converter has put out every frame whose position has a sample after it, and
keeps the samples from the position of the next frame on. So no index is missing, few samples stay,
and the end of the stream adds exactly the frames that the whole sequence has left.
-/

namespace NodeWebrtc.Sherpa

open Resample Speech

namespace StreamingStereo48kResampler

variable {F : Type} {quantize : F → Int} {K : Interpolation Int} {rate : Nat} {s : List Int}
  {r : StreamingStereo48kResampler}

def oneShot (K : Interpolation Int) (rate : Nat) (s : List Int) : List Int :=
  if s = [] then []
  else frames K rate WEBRTC_PCM_SAMPLE_RATE s 0 (max (s.length * WEBRTC_PCM_SAMPLE_RATE / rate) 1)

/-- The frames whose position has a sample after it. -/
def ready (rate : Nat) (s : List Int) : Nat := (s.length - 1) * WEBRTC_PCM_SAMPLE_RATE / rate

/-- The samples pushed so far are known from the position of the next frame on. -/
structure Loaded (rate : Nat) (s : List Int) (r : StreamingStereo48kResampler) : Prop where
  positive : 0 < rate
  srcRate : r.srcRate = rate
  totalSrc : r.totalSrc = s.length
  src : r.src = s.drop r.base
  low : r.base ≤ r.nextOut * rate / WEBRTC_PCM_SAMPLE_RATE
  within : r.base ≤ s.length

structure Settled (rate : Nat) (s : List Int) (r : StreamingStereo48kResampler) : Prop
    extends Loaded rate s r where
  same : rate = WEBRTC_PCM_SAMPLE_RATE → r.base = s.length ∧ r.nextOut = s.length
  other : rate ≠ WEBRTC_PCM_SAMPLE_RATE → r.nextOut = ready rate s ∧
    r.base = r.nextOut * rate / WEBRTC_PCM_SAMPLE_RATE

theorem settled_new (srcRate : Nat) : Settled (max srcRate 1) [] (new srcRate) where
  positive := by omega
  srcRate := rfl
  totalSrc := rfl
  src := rfl
  low := Nat.zero_le _
  within := Nat.le_refl 0
  same := fun _ => ⟨rfl, rfl⟩
  other := fun _ => by simp [new, ready]

theorem mapM_eq_some {α β : Type} {f : α → Option β} {g : α → β} {l : List α}
    (h : ∀ x ∈ l, f x = some (g x)) : l.mapM f = some (l.map g) := by
  induction l with
  | nil => rfl
  | cons x l ih =>
    obtain ⟨hx, hl⟩ := List.forall_mem_cons.mp h
    rw [List.mapM_cons, hx, ih hl]
    rfl

theorem Loaded.sampleAt (h : Loaded rate s r) {i : Nat} (hlow : r.base ≤ i) (hi : i < s.length) :
    r.sampleAt i = some (s.getD i default) := by
  have hget : (s.drop r.base)[i - r.base]? = some (s.getD i default) := by
    rw [List.getElem?_drop, Nat.add_sub_cancel' hlow, List.getElem?_eq_getElem hi,
      List.getD_eq_getElem s default hi]
  rw [StreamingStereo48kResampler.sampleAt, checkedSub, if_pos hlow, h.src]
  exact hget

theorem Loaded.frameAt (h : Loaded rate s r) {k : Nat} (hk : r.nextOut ≤ k)
    (hi : k * rate / WEBRTC_PCM_SAMPLE_RATE < s.length) :
    r.frameAt K k = some (frame K rate WEBRTC_PCM_SAMPLE_RATE s k) := by
  have hlow : r.base ≤ k * rate / WEBRTC_PCM_SAMPLE_RATE :=
    Nat.le_trans h.low (Nat.div_le_div_right (Nat.mul_le_mul_right rate hk))
  rw [StreamingStereo48kResampler.frameAt, h.srcRate, h.totalSrc, checkedSub, if_pos (by omega)]
  simp only [Option.bind_eq_bind, Option.bind_some]
  rw [h.sampleAt hlow hi, h.sampleAt (by omega) (by omega)]
  rfl

theorem Loaded.frames (h : Loaded rate s r) {m : Nat}
    (hm : ∀ k < m, k * rate / WEBRTC_PCM_SAMPLE_RATE < s.length) :
    (List.range' r.nextOut (m - r.nextOut)).mapM (r.frameAt K) =
      some (Resample.frames K rate WEBRTC_PCM_SAMPLE_RATE s r.nextOut m) := by
  refine mapM_eq_some fun k hk => ?_
  rw [List.mem_range'_1] at hk
  exact h.frameAt hk.1 (hm k (by omega))

/-! ## Positions -/

theorem index_lt_of_lt_ready {k : Nat} (hrate : 0 < rate) (hk : k < ready rate s) :
    k * rate < (s.length - 1) * WEBRTC_PCM_SAMPLE_RATE := by
  have hle : (k + 1) * rate ≤ (s.length - 1) * WEBRTC_PCM_SAMPLE_RATE :=
    (Nat.le_div_iff_mul_le hrate).mp hk
  rw [Nat.add_mul] at hle
  omega

theorem div_lt_length {k n : Nat} (h : k * rate < n * WEBRTC_PCM_SAMPLE_RATE) :
    k * rate / WEBRTC_PCM_SAMPLE_RATE < n := by
  rwa [Nat.div_lt_iff_lt_mul (by decide)]

theorem index_lt_of_lt_whole {k n : Nat} (hn : 0 < n)
    (hk : k < max (n * WEBRTC_PCM_SAMPLE_RATE / rate) 1) (hrate : 0 < rate) :
    k * rate / WEBRTC_PCM_SAMPLE_RATE < n := by
  refine div_lt_length ?_
  rcases Nat.lt_or_ge k (n * WEBRTC_PCM_SAMPLE_RATE / rate) with hlt | hge
  · have hle : (k + 1) * rate ≤ n * WEBRTC_PCM_SAMPLE_RATE := (Nat.le_div_iff_mul_le hrate).mp hlt
    rw [Nat.add_mul] at hle
    omega
  · obtain rfl : k = 0 := by omega
    rw [Nat.zero_mul, WEBRTC_PCM_SAMPLE_RATE]
    omega

theorem ready_mono (rate : Nat) (s t : List Int) : ready rate s ≤ ready rate (s ++ t) := by
  refine Nat.div_le_div_right (Nat.mul_le_mul_right _ ?_)
  rw [List.length_append]
  omega

theorem ready_le_whole (rate : Nat) (s : List Int) :
    ready rate s ≤ max (s.length * WEBRTC_PCM_SAMPLE_RATE / rate) 1 := by
  refine Nat.le_trans (Nat.div_le_div_right (Nat.mul_le_mul_right _ ?_)) (Nat.le_max_left _ _)
  omega

theorem ready_index_le (hrate : 0 < rate) (s : List Int) :
    ready rate s * rate / WEBRTC_PCM_SAMPLE_RATE ≤ s.length - 1 := by
  have hle : ready rate s * rate ≤ (s.length - 1) * WEBRTC_PCM_SAMPLE_RATE :=
    (Nat.le_div_iff_mul_le hrate).mp (Nat.le_refl _)
  rw [WEBRTC_PCM_SAMPLE_RATE] at hle ⊢
  omega

theorem kept_le (hrate : 0 < rate) (s : List Int) :
    s.length - ready rate s * rate / WEBRTC_PCM_SAMPLE_RATE ≤
      (rate + (WEBRTC_PCM_SAMPLE_RATE - 1)) / WEBRTC_PCM_SAMPLE_RATE + 1 := by
  have hrem : (s.length - 1) * WEBRTC_PCM_SAMPLE_RATE < ready rate s * rate + rate := by
    have hdiv : rate * ready rate s + (s.length - 1) * WEBRTC_PCM_SAMPLE_RATE % rate =
        (s.length - 1) * WEBRTC_PCM_SAMPLE_RATE := Nat.div_add_mod _ rate
    have hmod := Nat.mod_lt ((s.length - 1) * WEBRTC_PCM_SAMPLE_RATE) hrate
    rw [Nat.mul_comm rate] at hdiv
    omega
  rw [WEBRTC_PCM_SAMPLE_RATE] at hrem ⊢
  omega

/-! ## Pushes -/

/-- The frames of a sequence from the next one on, as bytes. -/
def bytes (K : Interpolation Int) (rate : Nat) (s : List Int) (a b : Nat) : List UInt8 :=
  (frames K rate WEBRTC_PCM_SAMPLE_RATE s a b).flatMap stereo

@[simp] theorem bytes_self (K : Interpolation Int) (rate : Nat) (s : List Int) (a : Nat) :
    bytes K rate s a a = [] := by
  rw [bytes, frames_self]
  rfl

theorem Loaded.maxOut_false (h : Loaded rate s r) : r.maxOut false = ready rate s := by
  rw [maxOut, if_neg Bool.false_ne_true, h.totalSrc, h.srcRate, ready]
  split
  · next hshort =>
    have hzero : s.length - 1 = 0 := by omega
    rw [hzero, Nat.zero_mul, Nat.zero_div]
  · rfl

theorem Loaded.keepFrom (h : Loaded rate s r) (hnext : r.nextOut ≤ ready rate s) :
    max (min (ready rate s * rate / WEBRTC_PCM_SAMPLE_RATE) (s.length - 1)) r.base =
      ready rate s * rate / WEBRTC_PCM_SAMPLE_RATE := by
  have hlast := ready_index_le h.positive s
  have hlow : r.base ≤ ready rate s * rate / WEBRTC_PCM_SAMPLE_RATE :=
    Nat.le_trans h.low (Nat.div_le_div_right (Nat.mul_le_mul_right rate hnext))
  omega

theorem Loaded.emitLinear_push (h : Loaded rate s r) (hs : s ≠ [])
    (hrate : rate ≠ WEBRTC_PCM_SAMPLE_RATE) (hnext : r.nextOut ≤ ready rate s)
    (hbase : r.base = r.nextOut * rate / WEBRTC_PCM_SAMPLE_RATE) :
    ∃ r', r.emitLinear K false = some (r', bytes K rate s r.nextOut r'.nextOut) ∧
      Settled rate s r' := by
  have hpos : 0 < s.length := List.length_pos_iff.mpr hs
  rw [emitLinear, h.maxOut_false]
  rcases Nat.lt_or_ge r.nextOut (ready rate s) with hlt | hge
  · have hframes := h.frames (K := K) (m := ready rate s) fun k hk =>
      Nat.lt_of_lt_of_le (div_lt_length (index_lt_of_lt_ready h.positive hk)) (Nat.sub_le _ 1)
    have hkeep := h.keepFrom hnext
    have hwithin : ready rate s * rate / WEBRTC_PCM_SAMPLE_RATE ≤ s.length :=
      Nat.le_trans (ready_index_le h.positive s) (Nat.sub_le _ 1)
    have hdrain : drain r.src (ready rate s * rate / WEBRTC_PCM_SAMPLE_RATE - r.base) =
        some (s.drop (ready rate s * rate / WEBRTC_PCM_SAMPLE_RATE)) := by
      rw [drain, h.src, if_pos (by rw [List.length_drop]; omega), List.drop_drop]
      congr 2
      omega
    rw [if_neg (by omega)]
    simp only [hframes, Option.bind_eq_bind, Option.bind_some, Bool.false_eq_true, if_false,
      checkedSub, h.totalSrc, if_pos (show 1 ≤ s.length from hpos), h.srcRate, hkeep, hdrain]
    refine ⟨_, rfl, ⟨⟨h.positive, rfl, rfl, rfl, Nat.le_refl _, hwithin⟩,
      fun heq => absurd heq hrate, fun _ => ⟨rfl, rfl⟩⟩⟩
  · rw [if_pos hge]
    refine ⟨r, by rw [bytes_self], ⟨h, fun heq => absurd heq hrate, fun _ => ⟨by omega, hbase⟩⟩⟩

theorem Settled.load (h : Settled rate s r) (t : List Int) :
    Loaded rate (s ++ t) { r with src := r.src ++ t, totalSrc := r.totalSrc + t.length } where
  positive := h.positive
  srcRate := h.srcRate
  totalSrc := by
    show r.totalSrc + t.length = _
    rw [h.totalSrc, List.length_append]
  src := by
    show r.src ++ t = (s ++ t).drop r.base
    rw [h.src, List.drop_append_of_le_length h.within]
  low := h.low
  within := by
    rw [List.length_append]
    exact Nat.le_trans h.within (Nat.le_add_right _ _)

theorem Settled.passthrough (h : Settled rate s r) (hrate : rate = WEBRTC_PCM_SAMPLE_RATE)
    (t : List Int) :
    let loaded : StreamingStereo48kResampler :=
      { r with src := r.src ++ t, totalSrc := r.totalSrc + t.length }
    loaded.emitPassthrough.2 = bytes K rate (s ++ t) r.nextOut (s ++ t).length ∧
      Settled rate (s ++ t) loaded.emitPassthrough.1 := by
  intro loaded
  have hload := h.load t
  obtain ⟨hbase, hnext⟩ := h.same hrate
  have hsrc : loaded.src = t := by
    rw [hload.src]
    show (s ++ t).drop r.base = t
    rw [hbase, List.drop_left]
  have htotal : loaded.totalSrc = (s ++ t).length := hload.totalSrc
  constructor
  · rw [emitPassthrough, hsrc, bytes, hrate, hnext,
      frames_same_rate (s ++ t) s.length (by decide), List.drop_left]
  · exact {
      positive := h.positive
      srcRate := h.srcRate
      totalSrc := htotal
      src := by
        show [] = (s ++ t).drop loaded.totalSrc
        rw [htotal, List.drop_length]
      low := by
        rw [hrate]
        exact (Nat.mul_div_cancel loaded.totalSrc (show 0 < WEBRTC_PCM_SAMPLE_RATE by decide)).ge
      within := htotal.le
      same := fun _ => ⟨htotal, htotal⟩
      other := fun hne => absurd hrate hne }

theorem Settled.pushF32 (quantize : F → Int) (K : Interpolation Int) (h : Settled rate s r)
    (piece : List F) :
    ∃ r', r.pushF32 quantize K piece =
        some (r', bytes K rate (s ++ piece.map quantize) r.nextOut r'.nextOut) ∧
      Settled rate (s ++ piece.map quantize) r' := by
  cases piece with
  | nil =>
    rw [List.map_nil, List.append_nil]
    exact ⟨r, by rw [bytes_self]; rfl, h⟩
  | cons sample piece =>
    have hload := h.load ((sample :: piece).map quantize)
    rw [List.length_map] at hload
    rw [StreamingStereo48kResampler.pushF32, emitAvailable, if_neg (by simp), if_neg (by simp)]
    by_cases hrate : rate = WEBRTC_PCM_SAMPLE_RATE
    · obtain ⟨hout, hsettled⟩ :=
        h.passthrough (K := K) hrate ((sample :: piece).map quantize)
      rw [List.length_map] at hout hsettled
      rw [if_pos (h.srcRate.trans hrate)]
      refine ⟨_, congrArg some (Prod.ext rfl ?_), hsettled⟩
      rw [hout]
      congr 1
      exact hload.totalSrc.symm
    · obtain ⟨hnext, hbase⟩ := h.other hrate
      rw [if_neg fun heq => hrate (h.srcRate.symm.trans heq)]
      exact hload.emitLinear_push (by simp) hrate (hnext.trans_le (ready_mono rate s _)) hbase

/-! ## Whole streams -/

theorem Settled.reaches (h : Settled rate s r) {k : Nat} (hk : k < r.nextOut) :
    Reaches rate WEBRTC_PCM_SAMPLE_RATE s k := by
  by_cases hrate : rate = WEBRTC_PCM_SAMPLE_RATE
  · rw [(h.same hrate).2] at hk
    rw [hrate]
    exact Nat.mul_le_mul_right _ (by omega)
  · rw [(h.other hrate).1] at hk
    exact (index_lt_of_lt_ready h.positive hk).le

theorem Settled.nextOut_le {t : List Int} {r' : StreamingStereo48kResampler} (h : Settled rate s r)
    (h' : Settled rate (s ++ t) r') : r.nextOut ≤ r'.nextOut := by
  by_cases hrate : rate = WEBRTC_PCM_SAMPLE_RATE
  · rw [(h.same hrate).2, (h'.same hrate).2, List.length_append]
    exact Nat.le_add_right _ _
  · rw [(h.other hrate).1, (h'.other hrate).1]
    exact ready_mono rate s t

theorem Settled.bytes_append (h : Settled rate s r) (t : List Int) :
    bytes K rate (s ++ t) 0 r.nextOut = bytes K rate s 0 r.nextOut := by
  by_cases hs : s = []
  · have hzero : r.nextOut = 0 := by
      by_cases hrate : rate = WEBRTC_PCM_SAMPLE_RATE
      · rw [(h.same hrate).2, hs]
        rfl
      · rw [(h.other hrate).1, hs, ready]
        simp
    rw [hzero, bytes_self, bytes_self]
  · exact congrArg (List.flatMap stereo) (frames_append t (by decide) hs fun k _ hk => h.reaches hk)

theorem bytes_append_bytes (s : List Int) {a b c : Nat} (hab : a ≤ b) (hbc : b ≤ c) :
    bytes K rate s a b ++ bytes K rate s b c = bytes K rate s a c := by
  rw [bytes, bytes, ← List.flatMap_append, frames_append_frames s hab hbc, bytes]

theorem Settled.pushAll (quantize : F → Int) (K : Interpolation Int) (h : Settled rate s r)
    (pieces : List (List F)) :
    ∃ r' out, r.pushAll quantize K pieces = some (r', out) ∧
      Settled rate (s ++ pieces.flatten.map quantize) r' ∧
      bytes K rate s 0 r.nextOut ++ out =
        bytes K rate (s ++ pieces.flatten.map quantize) 0 r'.nextOut := by
  induction pieces generalizing s r with
  | nil =>
    refine ⟨r, [], rfl, ?_, ?_⟩
    · rwa [List.flatten_nil, List.map_nil, List.append_nil]
    · rw [List.flatten_nil, List.map_nil, List.append_nil, List.append_nil]
  | cons piece pieces ih =>
    obtain ⟨r₁, hpush, h₁⟩ := h.pushF32 quantize K piece
    obtain ⟨r₂, out, hall, h₂, hout⟩ := ih h₁
    have hsamples : s ++ (piece :: pieces).flatten.map quantize =
        s ++ piece.map quantize ++ pieces.flatten.map quantize := by simp
    rw [hsamples]
    refine ⟨r₂, bytes K rate (s ++ piece.map quantize) r.nextOut r₁.nextOut ++ out, ?_, h₂, ?_⟩
    · rw [StreamingStereo48kResampler.pushAll, hpush]
      simp only [Option.bind_eq_bind, Option.bind_some, hall]
    · rw [← List.append_assoc, ← h.bytes_append (piece.map quantize),
        bytes_append_bytes _ (Nat.zero_le _) (h.nextOut_le h₁), hout]

theorem oneShot_bytes {K : Interpolation Int} (hs : s ≠ []) :
    (oneShot K rate s).flatMap stereo =
      bytes K rate s 0 (max (s.length * WEBRTC_PCM_SAMPLE_RATE / rate) 1) := by
  rw [oneShot, if_neg hs, bytes]

theorem Settled.finish_same (h : Settled rate s r) (hrate : rate = WEBRTC_PCM_SAMPLE_RATE) :
    r.finish K = some (r, []) ∧ bytes K rate s 0 r.nextOut = (oneShot K rate s).flatMap stereo := by
  obtain ⟨hbase, hnext⟩ := h.same hrate
  have hsrc : r.src = [] := by rw [h.src, hbase, List.drop_length]
  refine ⟨by rw [finish, emitAvailable, hsrc]; rfl, ?_⟩
  by_cases hs : s = []
  · rw [hnext, oneShot, if_pos hs, hs]
    exact bytes_self K rate [] 0
  · have hpos := List.length_pos_iff.mpr hs
    rw [oneShot_bytes hs, hrate, Nat.mul_div_cancel _ (by decide), Nat.max_eq_left hpos, hnext]

theorem Settled.finish_linear (h : Settled rate s r) (hs : s ≠ [])
    (hrate : rate ≠ WEBRTC_PCM_SAMPLE_RATE) :
    ∃ r' tail, r.emitLinear K true = some (r', tail) ∧
      bytes K rate s 0 r.nextOut ++ tail = (oneShot K rate s).flatMap stereo := by
  have hpos : 0 < s.length := List.length_pos_iff.mpr hs
  have hmax : r.maxOut true = max (s.length * WEBRTC_PCM_SAMPLE_RATE / rate) 1 := by
    rw [maxOut, if_pos rfl, h.totalSrc, h.srcRate]
  have hle : r.nextOut ≤ max (s.length * WEBRTC_PCM_SAMPLE_RATE / rate) 1 :=
    (h.other hrate).1 ▸ ready_le_whole rate s
  rw [emitLinear, hmax, oneShot_bytes hs]
  rcases Nat.lt_or_ge r.nextOut (max (s.length * WEBRTC_PCM_SAMPLE_RATE / rate) 1) with hlt | hge
  · have hframes := h.frames (K := K) (m := max (s.length * WEBRTC_PCM_SAMPLE_RATE / rate) 1)
      fun k hk => index_lt_of_lt_whole hpos hk h.positive
    rw [if_neg (by omega)]
    simp only [hframes, Option.bind_eq_bind, Option.bind_some, if_pos]
    exact ⟨_, _, rfl, bytes_append_bytes s (Nat.zero_le _) hle⟩
  · rw [if_pos hge]
    exact ⟨r, [], rfl, by rw [List.append_nil, Nat.le_antisymm hle hge]⟩

theorem Settled.finish (h : Settled rate s r) :
    ∃ r' tail, r.finish K = some (r', tail) ∧
      bytes K rate s 0 r.nextOut ++ tail = (oneShot K rate s).flatMap stereo := by
  by_cases hrate : rate = WEBRTC_PCM_SAMPLE_RATE
  · obtain ⟨hfinish, hbytes⟩ := h.finish_same (K := K) hrate
    exact ⟨r, [], hfinish, by rw [List.append_nil, hbytes]⟩
  · by_cases hs : s = []
    · have hsrc : r.src = [] := by rw [h.src, hs, List.drop_nil]
      have hzero : r.nextOut = 0 := by
        rw [(h.other hrate).1, hs, ready]
        simp
      refine ⟨r, [], by rw [StreamingStereo48kResampler.finish, emitAvailable, hsrc]; rfl, ?_⟩
      rw [hzero, bytes_self, oneShot, if_pos hs]
      rfl
    · have hkept : r.src ≠ [] := by
        have hlast := ready_index_le h.positive s
        have hpos := List.length_pos_iff.mpr hs
        rw [h.src, (h.other hrate).2, (h.other hrate).1, ne_eq, List.drop_eq_nil_iff]
        omega
      rw [StreamingStereo48kResampler.finish, emitAvailable, if_neg (by simpa using hkept),
        if_neg fun heq => hrate (h.srcRate.symm.trans heq)]
      exact h.finish_linear hs hrate

theorem convert_eq_oneShot (srcRate : Nat) (pieces : List (List F)) :
    convert quantize K srcRate pieces =
      some ((oneShot K (max srcRate 1) (pieces.flatten.map quantize)).flatMap stereo) := by
  obtain ⟨r, out, hall, hsettled, hout⟩ :=
    (settled_new srcRate).pushAll quantize K pieces
  obtain ⟨r', tail, hfinish, htail⟩ := hsettled.finish (K := K)
  rw [List.nil_append] at hout htail
  have hempty : bytes K (max srcRate 1) [] 0 (new srcRate).nextOut = [] := bytes_self K _ [] 0
  rw [hempty, List.nil_append] at hout
  rw [convert, hall]
  simp only [Option.bind_eq_bind, Option.bind_some, hfinish]
  rw [hout, htail]

theorem Settled.length_src_le (h : Settled rate s r) :
    r.src.length ≤
      (rate + (WEBRTC_PCM_SAMPLE_RATE - 1)) / WEBRTC_PCM_SAMPLE_RATE + 1 := by
  rw [h.src, List.length_drop]
  by_cases hrate : rate = WEBRTC_PCM_SAMPLE_RATE
  · rw [(h.same hrate).1, Nat.sub_self]
    exact Nat.zero_le _
  · rw [(h.other hrate).2, (h.other hrate).1]
    exact kept_le h.positive s

/-- Any split of the samples is converted, without a failed index or subtraction, to the frames of
the whole sequence, which the one-shot converter puts out too; and after every push only the
samples around the position of the next frame are kept. -/
theorem streamed_eq_oneShot (srcRate : Nat) (pieces : List (List F)) :
    convert quantize K srcRate pieces =
        some ((oneShot K (max srcRate 1) (pieces.flatten.map quantize)).flatMap stereo) ∧
      convert quantize K srcRate pieces =
        f32MonoToStereo48kS16leRaw quantize K pieces.flatten srcRate ∧
      ∃ r out, (new srcRate).pushAll quantize K pieces = some (r, out) ∧
        r.src.length ≤
          (max srcRate 1 + (WEBRTC_PCM_SAMPLE_RATE - 1)) / WEBRTC_PCM_SAMPLE_RATE + 1 := by
  refine ⟨convert_eq_oneShot srcRate pieces, ?_, ?_⟩
  · rw [f32MonoToStereo48kS16leRaw, convert_eq_oneShot, convert_eq_oneShot, List.flatten_singleton]
  · obtain ⟨r, out, hall, hsettled, -⟩ :=
      (settled_new srcRate).pushAll quantize K pieces
    exact ⟨r, out, hall, hsettled.length_src_le⟩

end StreamingStereo48kResampler

end NodeWebrtc.Sherpa
