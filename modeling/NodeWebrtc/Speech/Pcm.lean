import Mathlib.Data.List.GetD
import Mathlib.Data.List.Induction
import NodeWebrtc.Mixer.Frame

/-! # The streaming resampler

Vendor PCM (mono `s16le` at 8 to 48 kHz) becomes 48 kHz stereo by linear interpolation.
The output position is counted in 1/48000 of a source sample, so it is exact. A byte
left over by one call is kept for the next, and each source sample waits for its right
neighbour until it is known or the stream ends.
-/

namespace NodeWebrtc.Speech

open Mixer (i16FromLeBytes i16ToLeBytes samples)

def WEBRTC_PCM_SAMPLE_RATE : Nat := 48000

def asI16 (x : Int) : Int := (x + 32768) % 65536 - 32768

def IsI16 (x : Int) : Prop := -32768 ≤ x ∧ x ≤ 32767

/-- The value `pos / 48000` of the way from `a` to `b`; division truncates. -/
def lerp (a b : Int) (pos : Nat) : Int :=
  asI16 (a + ((b - a) * pos).tdiv WEBRTC_PCM_SAMPLE_RATE)

def stereo (sample : Int) : List UInt8 := i16ToLeBytes sample ++ i16ToLeBytes sample

/-- A converter; its rate was checked when it was built. -/
structure MonoToStereo48k where
  srcRate : Nat
  last : Option Int
  pos : Nat
  odd : Option UInt8
  supported : 8000 ≤ srcRate ∧ srcRate ≤ WEBRTC_PCM_SAMPLE_RATE

namespace MonoToStereo48k

/-- The error is the message of a `SpeechError::Config`. -/
def new (srcRate : Nat) : Except String MonoToStereo48k :=
  if h : 8000 ≤ srcRate ∧ srcRate ≤ WEBRTC_PCM_SAMPLE_RATE then
    .ok { srcRate := srcRate, last := none, pos := 0, odd := none, supported := h }
  else
    .error ("unsupported TTS sample rate " ++ toString srcRate ++
      " Hz; supported: 8000..=48000")

/-- `while self.pos < 48000`: one frame per position, then the position moves on. -/
def fillInterval (srcRate : Nat) (hrate : 0 < srcRate) (sampleAt : Nat → Int) (pos : Nat)
    (out : List UInt8) : List UInt8 × Nat :=
  if pos < WEBRTC_PCM_SAMPLE_RATE then
    fillInterval srcRate hrate sampleAt (pos + srcRate) (out ++ stereo (sampleAt pos))
  else (out, pos)
termination_by WEBRTC_PCM_SAMPLE_RATE - pos

theorem srcRate_pos (c : MonoToStereo48k) : 0 < c.srcRate :=
  Nat.lt_of_lt_of_le (by decide) c.supported.1

/-- One source sample: the frames between its left neighbour and itself. -/
def pushSample (c : MonoToStereo48k) (out : List UInt8) (cur : Int) :
    MonoToStereo48k × List UInt8 :=
  if c.srcRate = WEBRTC_PCM_SAMPLE_RATE then (c, out ++ stereo cur)
  else
    match c.last with
    | none => ({ c with last := some cur, pos := 0 }, out)
    | some prev =>
      let (out, pos) := fillInterval c.srcRate c.srcRate_pos (lerp prev cur) c.pos out
      ({ c with last := some cur, pos := pos - WEBRTC_PCM_SAMPLE_RATE }, out)

/-- Converts mono `s16le` bytes; an odd trailing byte is carried to the next call. -/
def push (c : MonoToStereo48k) (monoS16le : List UInt8) : MonoToStereo48k × List UInt8 :=
  let input := c.odd.toList ++ monoS16le
  let (odd, input) :=
    if input.length % 2 = 1 then (input.getLast?, input.dropLast) else (none, input)
  (samples input).foldl (fun (c, out) cur => c.pushSample out cur) ({ c with odd := odd }, [])

/-- Flushes the tail, the last sample held until the end of its interval, and resets. -/
def finish (c : MonoToStereo48k) : MonoToStereo48k × List UInt8 :=
  let out :=
    match c.last with
    | some prev => (fillInterval c.srcRate c.srcRate_pos (fun _ => prev) c.pos []).1
    | none => []
  ({ c with last := none, pos := 0, odd := none }, out)

/-- Pushes the pieces one after another, appending to what was put out before. -/
def pushAll (c : MonoToStereo48k) (out : List UInt8) :
    List (List UInt8) → MonoToStereo48k × List UInt8
  | [] => (c, out)
  | piece :: pieces => (c.push piece).1.pushAll (out ++ (c.push piece).2) pieces

/-- The output of pushing the pieces and finishing. -/
def convert (c : MonoToStereo48k) (pieces : List (List UInt8)) : List UInt8 :=
  (c.pushAll [] pieces).2 ++ (c.pushAll [] pieces).1.finish.2

/-! ## What the output should be -/

/-- Output frame `k`: `k * rate / 48000` source samples in, interpolated to the next
sample; the last sample is held. -/
def frameAt (rate : Nat) (s : List Int) (k : Nat) : Int :=
  let i := k * rate / WEBRTC_PCM_SAMPLE_RATE
  lerp (s.getD i 0) (s.getD (min (i + 1) (s.length - 1)) 0)
    (k * rate - WEBRTC_PCM_SAMPLE_RATE * i)

def framesUpTo (rate : Nat) (s : List Int) (n : Nat) : List UInt8 :=
  (List.range n).flatMap fun k => stereo (frameAt rate s k)

theorem asI16_of_isI16 {x : Int} (h : IsI16 x) : asI16 x = x := by
  unfold IsI16 at h
  unfold asI16
  omega

theorem lerp_eq {a b : Int} {pos : Nat} (ha : IsI16 a) (hb : IsI16 b)
    (hpos : pos ≤ WEBRTC_PCM_SAMPLE_RATE) :
    lerp a b pos = a + ((b - a) * pos).tdiv WEBRTC_PCM_SAMPLE_RATE := by
  apply asI16_of_isI16
  unfold IsI16 at ha hb ⊢
  have hpos' : (pos : Int) ≤ 48000 := by
    unfold WEBRTC_PCM_SAMPLE_RATE at hpos
    omega
  change -32768 ≤ a + ((b - a) * pos).tdiv 48000 ∧ a + ((b - a) * pos).tdiv 48000 ≤ 32767
  rcases Int.le_total a b with hle | hle
  · have h0 : 0 ≤ (b - a) * pos := Int.mul_nonneg (by omega) (by omega)
    have h1 : (b - a) * pos ≤ (b - a) * 48000 := Int.mul_le_mul_of_nonneg_left hpos' (by omega)
    rw [Int.tdiv_eq_ediv_of_nonneg h0]
    have h2 := Int.ediv_le_of_le_mul (by decide) h1
    have h3 := Int.ediv_nonneg h0 (by decide : (0 : Int) ≤ 48000)
    omega
  · have h0 : 0 ≤ (a - b) * pos := Int.mul_nonneg (by omega) (by omega)
    have h1 : (a - b) * pos ≤ (a - b) * 48000 := Int.mul_le_mul_of_nonneg_left hpos' (by omega)
    have hneg : (b - a) * pos = -((a - b) * pos) := by
      rw [← Int.neg_mul]
      congr 1
      omega
    rw [hneg, Int.neg_tdiv, Int.tdiv_eq_ediv_of_nonneg h0]
    have h2 := Int.ediv_le_of_le_mul (by decide) h1
    have h3 := Int.ediv_nonneg h0 (by decide : (0 : Int) ≤ 48000)
    omega

theorem frameAt_eq {rate k i : Nat} (s : List Int) (hlow : WEBRTC_PCM_SAMPLE_RATE * i ≤ k * rate)
    (hhigh : k * rate < WEBRTC_PCM_SAMPLE_RATE * (i + 1)) :
    frameAt rate s k = lerp (s.getD i 0) (s.getD (min (i + 1) (s.length - 1)) 0)
      (k * rate - WEBRTC_PCM_SAMPLE_RATE * i) := by
  have hi : k * rate / WEBRTC_PCM_SAMPLE_RATE = i :=
    Nat.div_eq_of_lt_le (Nat.mul_comm i _ ▸ hlow) (Nat.mul_comm (i + 1) _ ▸ hhigh)
  simp only [frameAt, hi]

theorem frameAt_append {rate k : Nat} (s t : List Int)
    (h : k * rate < WEBRTC_PCM_SAMPLE_RATE * (s.length - 1)) :
    frameAt rate (s ++ t) k = frameAt rate s k := by
  have hi : k * rate / WEBRTC_PCM_SAMPLE_RATE < s.length - 1 :=
    Nat.div_lt_of_lt_mul h
  simp only [frameAt, List.length_append]
  generalize k * rate / WEBRTC_PCM_SAMPLE_RATE = i at hi ⊢
  rw [Nat.min_eq_left (by omega), Nat.min_eq_left (by omega), List.getD_append _ _ _ _ (by omega),
    List.getD_append _ _ _ _ (by omega)]

theorem framesUpTo_append {rate n : Nat} (s t : List Int)
    (h : ∀ k < n, k * rate < WEBRTC_PCM_SAMPLE_RATE * (s.length - 1)) :
    framesUpTo rate (s ++ t) n = framesUpTo rate s n := by
  apply List.flatMap_congr
  intro k hk
  rw [frameAt_append s t (h k (List.mem_range.mp hk))]

theorem framesUpTo_add (rate : Nat) (s : List Int) (k m : Nat) :
    framesUpTo rate s (k + m) = framesUpTo rate s k ++
      (List.range' k m).flatMap fun j => stereo (frameAt rate s j) := by
  unfold framesUpTo
  rw [List.range_eq_range', List.range_eq_range', ← List.flatMap_append]
  congr 1
  simpa using (List.range'_append_1 (s := 0) (m := k) (n := m)).symm

/-! ## One sample -/

theorem fillInterval_spec (rate : Nat) (hrate : 0 < rate) (sampleAt : Nat → Int) (i k pos : Nat)
    (out : List UInt8) (hk : k * rate = WEBRTC_PCM_SAMPLE_RATE * i + pos)
    (hpos : pos < WEBRTC_PCM_SAMPLE_RATE + rate) :
    ∃ m pos', fillInterval rate hrate sampleAt pos out =
        (out ++ (List.range' k m).flatMap fun j =>
          stereo (sampleAt (j * rate - WEBRTC_PCM_SAMPLE_RATE * i)), pos') ∧
      (k + m) * rate = WEBRTC_PCM_SAMPLE_RATE * i + pos' ∧
      WEBRTC_PCM_SAMPLE_RATE ≤ pos' ∧ pos' < WEBRTC_PCM_SAMPLE_RATE + rate := by
  induction hleft : WEBRTC_PCM_SAMPLE_RATE + rate - pos using Nat.strongRecOn
    generalizing k pos out with
  | _ left ih =>
    by_cases hlt : pos < WEBRTC_PCM_SAMPLE_RATE
    · have hk' : (k + 1) * rate = WEBRTC_PCM_SAMPLE_RATE * i + (pos + rate) := by
        rw [Nat.succ_mul, hk, Nat.add_assoc]
      obtain ⟨m, pos', hrun, hsum, hlow, hhigh⟩ :=
        ih _ (by omega) (k + 1) (pos + rate) (out ++ stereo (sampleAt pos)) hk' (by omega) rfl
      refine ⟨m + 1, pos', ?_, ?_, hlow, hhigh⟩
      · have hfirst : k * rate - WEBRTC_PCM_SAMPLE_RATE * i = pos := by omega
        rw [fillInterval, if_pos hlt, hrun, List.range'_succ, List.flatMap_cons, hfirst,
          List.append_assoc]
      · rw [← hsum]
        congr 1
        omega
    · refine ⟨0, pos, ?_, hk, by omega, hpos⟩
      rw [fillInterval, if_neg hlt]
      simp

/-- What has been emitted and kept after the samples `s`. -/
def After (c : MonoToStereo48k) (s : List Int) (out : List UInt8) : Prop :=
  if c.srcRate = WEBRTC_PCM_SAMPLE_RATE then
    c.last = none ∧ out = framesUpTo c.srcRate s s.length
  else
    c.last = s.getLast? ∧ ∃ k, out = framesUpTo c.srcRate s k ∧
      k * c.srcRate = WEBRTC_PCM_SAMPLE_RATE * (s.length - 1) + c.pos ∧ c.pos < c.srcRate

variable {s : List Int}

theorem framesUpTo_passthrough (hs : ∀ x ∈ s, IsI16 x) :
    framesUpTo WEBRTC_PCM_SAMPLE_RATE s s.length = s.flatMap stereo := by
  have hframe : ∀ k (hk : k < s.length), frameAt WEBRTC_PCM_SAMPLE_RATE s k = s[k] := by
    intro k hk
    have hkk : k * WEBRTC_PCM_SAMPLE_RATE = WEBRTC_PCM_SAMPLE_RATE * k := Nat.mul_comm _ _
    rw [frameAt_eq (i := k) s (by omega) (by unfold WEBRTC_PCM_SAMPLE_RATE at *; omega), hkk,
      Nat.sub_self, List.getD_eq_getElem _ _ hk]
    unfold lerp
    simpa using asI16_of_isI16 (hs _ (List.getElem_mem hk))
  have hall : (List.range s.length).map (frameAt WEBRTC_PCM_SAMPLE_RATE s) = s := by
    apply List.ext_getElem
    · simp
    · intro k hk hk'
      simp [hframe k hk']
  unfold framesUpTo
  rw [← List.flatMap_map, hall]

variable {c : MonoToStereo48k} {out : List UInt8}

theorem After.pushSample (h : After c s out) (cur : Int) (hs : ∀ x ∈ s ++ [cur], IsI16 x) :
    After (c.pushSample out cur).1 (s ++ [cur]) (c.pushSample out cur).2 ∧
      (c.pushSample out cur).1.srcRate = c.srcRate ∧ (c.pushSample out cur).1.odd = c.odd := by
  by_cases hrate : c.srcRate = WEBRTC_PCM_SAMPLE_RATE
  · rw [After, if_pos hrate, hrate] at h
    obtain ⟨hlast, rfl⟩ := h
    have hrun : c.pushSample (framesUpTo WEBRTC_PCM_SAMPLE_RATE s s.length) cur =
        (c, framesUpTo WEBRTC_PCM_SAMPLE_RATE s s.length ++ stereo cur) := by
      rw [MonoToStereo48k.pushSample, if_pos hrate]
    rw [hrun]
    refine ⟨?_, rfl, rfl⟩
    rw [After, if_pos hrate, hrate]
    refine ⟨hlast, ?_⟩
    rw [framesUpTo_passthrough hs, framesUpTo_passthrough fun x hx => hs x (by simp [hx])]
    simp
  · rw [After, if_neg hrate] at h
    obtain ⟨hlast, k, rfl, hk, hpos⟩ := h
    cases s using List.reverseRecOn with
    | nil =>
      have hk0 : k = 0 := by
        rcases Nat.eq_zero_or_pos k with hk0 | hk0
        · exact hk0
        · have hle := Nat.le_mul_of_pos_left c.srcRate hk0
          simp only [List.length_nil, Nat.zero_sub, Nat.mul_zero, Nat.zero_add] at hk
          omega
      subst hk0
      have hlast' : c.last = none := hlast
      rw [MonoToStereo48k.pushSample, if_neg hrate, hlast']
      refine ⟨?_, rfl, rfl⟩
      rw [After, if_neg hrate]
      exact ⟨rfl, 0, rfl, by simp, c.srcRate_pos⟩
    | append_singleton init prev =>
      have hlast' : c.last = some prev := by simpa using hlast
      have hk' : k * c.srcRate = WEBRTC_PCM_SAMPLE_RATE * init.length + c.pos := by simpa using hk
      obtain ⟨m, pos', hfill, hsum, hlow, hhigh⟩ := fillInterval_spec c.srcRate c.srcRate_pos
        (lerp prev cur) init.length k c.pos (framesUpTo c.srcRate (init ++ [prev]) k) hk'
        (by omega)
      have hrun : c.pushSample (framesUpTo c.srcRate (init ++ [prev]) k) cur =
          ({ c with last := some cur, pos := pos' - WEBRTC_PCM_SAMPLE_RATE },
            framesUpTo c.srcRate (init ++ [prev] ++ [cur]) (k + m)) := by
        simp only [MonoToStereo48k.pushSample, if_neg hrate, hlast', hfill, Prod.mk.injEq, true_and]
        rw [framesUpTo_add, framesUpTo_append (init ++ [prev]) [cur]]
        · congr 1
          apply List.flatMap_congr
          intro j hj
          rw [List.mem_range'_1] at hj
          have hjlow : k * c.srcRate ≤ j * c.srcRate := Nat.mul_le_mul_right _ hj.1
          have hjhigh : (j + 1) * c.srcRate ≤ (k + m) * c.srcRate :=
            Nat.mul_le_mul_right _ (by omega)
          rw [Nat.succ_mul] at hjhigh
          rw [frameAt_eq (i := init.length) _ (by omega) (by rw [Nat.mul_succ]; omega)]
          simp
        · intro j hj
          have hjhigh : (j + 1) * c.srcRate ≤ k * c.srcRate :=
            Nat.mul_le_mul_right _ (by omega)
          rw [Nat.succ_mul] at hjhigh
          simp only [List.length_append, List.length_singleton, Nat.add_sub_cancel]
          omega
      rw [hrun]
      refine ⟨?_, rfl, rfl⟩
      rw [After, if_neg hrate]
      refine ⟨by simp, k + m, rfl, ?_, ?_⟩
      · simp only [List.length_append, List.length_singleton, Nat.add_sub_cancel, Nat.mul_succ]
        omega
      · dsimp only
        omega

theorem lerp_self {a : Int} (ha : IsI16 a) (pos : Nat) : lerp a a pos = a := by
  unfold lerp
  simpa using asI16_of_isI16 ha

theorem After.finish (h : After c s out) (hs : ∀ x ∈ s, IsI16 x) :
    out ++ c.finish.2 = framesUpTo c.srcRate s
      (divCeil (s.length * WEBRTC_PCM_SAMPLE_RATE) c.srcRate) := by
  have hpos := c.srcRate_pos
  by_cases hrate : c.srcRate = WEBRTC_PCM_SAMPLE_RATE
  · rw [After, if_pos hrate] at h
    obtain ⟨hlast, rfl⟩ := h
    have hcount : divCeil (s.length * WEBRTC_PCM_SAMPLE_RATE) WEBRTC_PCM_SAMPLE_RATE =
        s.length := by
      unfold divCeil WEBRTC_PCM_SAMPLE_RATE
      omega
    rw [hrate, hcount]
    simp [MonoToStereo48k.finish, hlast]
  · rw [After, if_neg hrate] at h
    obtain ⟨hlast, k, rfl, hk, hkpos⟩ := h
    have hcount : ∀ n pos', n * c.srcRate = WEBRTC_PCM_SAMPLE_RATE * (s.length - 1) + pos' →
        pos' + WEBRTC_PCM_SAMPLE_RATE * (s.length - 1) <
          s.length * WEBRTC_PCM_SAMPLE_RATE + c.srcRate →
        s.length * WEBRTC_PCM_SAMPLE_RATE ≤ pos' + WEBRTC_PCM_SAMPLE_RATE * (s.length - 1) →
        divCeil (s.length * WEBRTC_PCM_SAMPLE_RATE) c.srcRate = n := by
      intro n pos' hn hhigh hlow
      apply Nat.div_eq_of_lt_le
      · omega
      · rw [Nat.succ_mul]
        omega
    cases s using List.reverseRecOn with
    | nil =>
      have hlast' : c.last = none := hlast
      rw [hcount k c.pos hk (by simpa using hkpos) (by simp)]
      simp [MonoToStereo48k.finish, hlast']
    | append_singleton init prev =>
      have hlast' : c.last = some prev := by simpa using hlast
      have hlen : (init ++ [prev]).length - 1 = init.length := by simp
      rw [hlen] at hk hcount
      obtain ⟨m, pos', hfill, hsum, hlow, hhigh⟩ := fillInterval_spec c.srcRate hpos
        (fun _ => prev) init.length k c.pos [] hk (by omega)
      have hprev : IsI16 prev := hs prev (by simp)
      have hlast_end : (init ++ [prev]).length * WEBRTC_PCM_SAMPLE_RATE =
          WEBRTC_PCM_SAMPLE_RATE * init.length + WEBRTC_PCM_SAMPLE_RATE := by
        rw [List.length_append, List.length_singleton, Nat.mul_comm, Nat.mul_succ]
      rw [hcount (k + m) pos' hsum (by omega) (by omega), framesUpTo_add]
      simp only [MonoToStereo48k.finish, hlast', hfill, List.nil_append]
      congr 1
      apply List.flatMap_congr
      intro j hj
      rw [List.mem_range'_1] at hj
      have hjlow : k * c.srcRate ≤ j * c.srcRate := Nat.mul_le_mul_right _ hj.1
      have hjhigh : (j + 1) * c.srcRate ≤ (k + m) * c.srcRate :=
        Nat.mul_le_mul_right _ (by omega)
      rw [Nat.succ_mul] at hjhigh
      rw [frameAt_eq (i := init.length) _ (by omega) (by rw [Nat.mul_succ]; omega)]
      simp [lerp_self hprev]

/-! ## Whole pushes -/

theorem fillInterval_out (rate : Nat) (hrate : 0 < rate) (sampleAt : Nat → Int) (pos : Nat)
    (out : List UInt8) :
    fillInterval rate hrate sampleAt pos out =
      (out ++ (fillInterval rate hrate sampleAt pos []).1,
        (fillInterval rate hrate sampleAt pos []).2) := by
  induction hleft : WEBRTC_PCM_SAMPLE_RATE - pos using Nat.strongRecOn generalizing pos out with
  | _ left ih =>
    by_cases hlt : pos < WEBRTC_PCM_SAMPLE_RATE
    · have hstep : ∀ out, fillInterval rate hrate sampleAt pos out =
          fillInterval rate hrate sampleAt (pos + rate) (out ++ stereo (sampleAt pos)) := by
        intro out
        rw [fillInterval, if_pos hlt]
      have hless : WEBRTC_PCM_SAMPLE_RATE - (pos + rate) < left := by omega
      have hrest := ih _ hless (pos + rate)
      rw [hstep, hstep [], hrest (out ++ _) rfl, hrest ([] ++ _) rfl]
      simp
    · have hstop : ∀ out, fillInterval rate hrate sampleAt pos out = (out, pos) := by
        intro out
        rw [fillInterval, if_neg hlt]
      rw [hstop, hstop []]
      simp

theorem pushSample_out (c : MonoToStereo48k) (out : List UInt8) (cur : Int) :
    c.pushSample out cur = ((c.pushSample [] cur).1, out ++ (c.pushSample [] cur).2) := by
  unfold pushSample
  split
  · rfl
  · split
    · simp
    · rw [fillInterval_out]

theorem foldl_out (xs : List Int) (c : MonoToStereo48k) (out : List UInt8) :
    xs.foldl (fun (c, out) cur => c.pushSample out cur) (c, out) =
      ((xs.foldl (fun (c, out) cur => c.pushSample out cur) (c, [])).1,
        out ++ (xs.foldl (fun (c, out) cur => c.pushSample out cur) (c, [])).2) := by
  induction xs generalizing c out with
  | nil => simp
  | cons x xs ih =>
    simp only [List.foldl_cons]
    rw [pushSample_out, ih, ih _ (c.pushSample [] x).2, List.append_assoc]

theorem After.foldl {xs : List Int} (h : After c s out) (hs : ∀ x ∈ s ++ xs, IsI16 x) :
    After (xs.foldl (fun (c, out) cur => c.pushSample out cur) (c, out)).1 (s ++ xs)
        (xs.foldl (fun (c, out) cur => c.pushSample out cur) (c, out)).2 ∧
      (xs.foldl (fun (c, out) cur => c.pushSample out cur) (c, out)).1.srcRate = c.srcRate ∧
      (xs.foldl (fun (c, out) cur => c.pushSample out cur) (c, out)).1.odd = c.odd := by
  induction xs generalizing c s out with
  | nil => simpa using h
  | cons x xs ih =>
    have hone := h.pushSample x fun y hy => hs y (by
      rw [List.mem_append, List.mem_singleton] at hy
      simpa using hy.imp id (Or.inl ·))
    have hrest := ih hone.1 (by simpa using hs)
    simp only [List.foldl_cons]
    refine ⟨?_, hrest.2.1.trans hone.2.1, hrest.2.2.trans hone.2.2⟩
    simpa using hrest.1

theorem isI16_of_mem_samples {bytes : List UInt8} {x : Int} (h : x ∈ samples bytes) :
    IsI16 x := by
  induction bytes using Mixer.samples.induct with
  | case1 lo hi rest ih =>
    rw [samples, List.mem_cons] at h
    rcases h with rfl | h
    · have hlo := lo.toNat_lt
      have hhi := hi.toNat_lt
      unfold IsI16 i16FromLeBytes
      dsimp only
      split <;> omega
    · exact ih h
  | case2 bytes hshort =>
    rw [samples] at h
    · cases h
    · exact hshort

theorem samples_append {a : List UInt8} (b : List UInt8) (h : a.length % 2 = 0) :
    samples (a ++ b) = samples a ++ samples b := by
  induction a using Mixer.samples.induct with
  | case1 lo hi rest ih =>
    have hrest : rest.length % 2 = 0 := by
      rw [List.length_cons, List.length_cons] at h
      omega
    rw [List.cons_append, List.cons_append, samples, samples, ih hrest]
    rfl
  | case2 bytes hshort =>
    match bytes with
    | [] => rfl
    | [_] => cases h
    | lo :: hi :: rest => exact (hshort lo hi rest rfl).elim

theorem length_samples (bytes : List UInt8) : (samples bytes).length = bytes.length / 2 := by
  induction bytes using Mixer.samples.induct with
  | case1 lo hi rest ih =>
    rw [samples, List.length_cons, ih, List.length_cons, List.length_cons]
    omega
  | case2 bytes hshort =>
    match bytes with
    | [] => rfl
    | [_] => simp [samples]
    | lo :: hi :: rest => exact (hshort lo hi rest rfl).elim

/-- After the bytes `received`: whole samples are converted, an odd byte is kept. -/
def Fed (c : MonoToStereo48k) (received out : List UInt8) : Prop :=
  ∃ body, received = body ++ c.odd.toList ∧ body.length % 2 = 0 ∧ After c (samples body) out

theorem Fed.push {received : List UInt8} (h : Fed c received out) (piece : List UInt8) :
    Fed (c.push piece).1 (received ++ piece) (out ++ (c.push piece).2) ∧
      (c.push piece).1.srcRate = c.srcRate := by
  obtain ⟨body, rfl, hbody, hafter⟩ := h
  -- the whole samples of the input, and the byte that is left
  obtain ⟨odd, input, hpush, hinput, heven⟩ : ∃ odd input,
      c.push piece = (samples input).foldl (fun (c, out) cur => c.pushSample out cur)
        ({ c with odd := odd }, []) ∧
      c.odd.toList ++ piece = input ++ odd.toList ∧ input.length % 2 = 0 := by
    by_cases hodd : (c.odd.toList ++ piece).length % 2 = 1
    · have hne : c.odd.toList ++ piece ≠ [] := by
        intro hnil
        rw [hnil] at hodd
        cases hodd
      refine ⟨some ((c.odd.toList ++ piece).getLast hne), (c.odd.toList ++ piece).dropLast,
        ?_, ?_, ?_⟩
      · rw [MonoToStereo48k.push, if_pos hodd, List.getLast?_eq_some_getLast hne]
      · exact (List.dropLast_append_getLast hne).symm
      · rw [List.length_dropLast]
        omega
    · refine ⟨none, c.odd.toList ++ piece, ?_, by simp, by omega⟩
      rw [MonoToStereo48k.push, if_neg hodd]
  have hstart : After { c with odd := odd } (samples body) out := hafter
  have hsamples : samples (body ++ input) = samples body ++ samples input :=
    samples_append input hbody
  have hrange : ∀ x ∈ samples body ++ samples input, IsI16 x := by
    rw [← hsamples]
    exact fun x hx => isI16_of_mem_samples hx
  obtain ⟨hdone, hrate, hkept⟩ := hstart.foldl hrange
  rw [foldl_out, ← hpush] at hdone hrate hkept
  refine ⟨⟨body ++ input, ?_, ?_, ?_⟩, hrate⟩
  · rw [hkept, List.append_assoc, hinput, List.append_assoc]
  · rw [List.length_append]
    omega
  · rw [hsamples]
    exact hdone

theorem Fed.pieces {received : List UInt8} (h : Fed c received out) (pieces : List (List UInt8)) :
    Fed (c.pushAll out pieces).1 (received ++ pieces.flatten) (c.pushAll out pieces).2 ∧
      (c.pushAll out pieces).1.srcRate = c.srcRate := by
  induction pieces generalizing c received out with
  | nil => simpa [pushAll] using h
  | cons piece pieces ih =>
    obtain ⟨hone, hrate⟩ := h.push piece
    obtain ⟨hrest, hrate'⟩ := ih hone
    rw [List.flatten_cons, ← List.append_assoc]
    exact ⟨hrest, hrate'.trans hrate⟩

theorem convert_eq (hlast : c.last = none) (hpos : c.pos = 0) (hodd : c.odd = none)
    (pieces : List (List UInt8)) :
    c.convert pieces = framesUpTo c.srcRate (samples pieces.flatten)
      (divCeil ((samples pieces.flatten).length * WEBRTC_PCM_SAMPLE_RATE) c.srcRate) := by
  have hfresh : Fed c [] [] := by
    refine ⟨[], by rw [hodd]; rfl, rfl, ?_⟩
    unfold After
    split
    · exact ⟨hlast, rfl⟩
    · exact ⟨hlast, 0, rfl, by simp [samples, hpos], hpos ▸ c.srcRate_pos⟩
  obtain ⟨⟨body, hbody, heven, hafter⟩, hrate⟩ := hfresh.pieces pieces
  have hsamples : samples pieces.flatten = samples body := by
    rw [← List.nil_append pieces.flatten, hbody, samples_append _ heven]
    cases (c.pushAll [] pieces).1.odd <;> simp [samples]
  rw [hsamples, ← hrate]
  exact hafter.finish fun x hx => isI16_of_mem_samples hx

/-- For every supported rate and every way of cutting the bytes into pieces, the output
is that of one push of everything. With `n` whole samples it has
`ceil(n * 48000 / rate)` stereo frames, and frame `k` is interpolated exactly between
samples `i` and `i + 1` for `i = k * rate / 48000`, the last sample being held. -/
theorem convert_spec (rate : Nat) (hrate : 8000 ≤ rate ∧ rate ≤ WEBRTC_PCM_SAMPLE_RATE) :
    ∃ c, new rate = .ok c ∧ ∀ pieces : List (List UInt8),
      c.convert pieces = c.convert [pieces.flatten] ∧
      (∃ frames : List Int, c.convert pieces = frames.flatMap stereo ∧
        frames.length = divCeil (pieces.flatten.length / 2 * WEBRTC_PCM_SAMPLE_RATE) rate ∧
        ∀ k (hk : k < frames.length),
          ∃ i a b, i = k * rate / WEBRTC_PCM_SAMPLE_RATE ∧
            (samples pieces.flatten)[i]? = some a ∧
            (samples pieces.flatten)[min (i + 1) (pieces.flatten.length / 2 - 1)]? = some b ∧
            frames[k] = a + ((b - a) * ((k * rate - WEBRTC_PCM_SAMPLE_RATE * i : Nat) : Int)).tdiv
              WEBRTC_PCM_SAMPLE_RATE) := by
  refine ⟨⟨rate, none, 0, none, hrate⟩, dif_pos hrate, fun pieces => ?_⟩
  have heq : ∀ ps : List (List UInt8), (⟨rate, none, 0, none, hrate⟩ : MonoToStereo48k).convert ps =
      framesUpTo rate (samples ps.flatten)
        (divCeil ((samples ps.flatten).length * WEBRTC_PCM_SAMPLE_RATE) rate) :=
    fun ps => convert_eq rfl rfl rfl ps
  have hlen := length_samples pieces.flatten
  refine ⟨by rw [heq, heq]; simp, (List.range
    (divCeil ((samples pieces.flatten).length * WEBRTC_PCM_SAMPLE_RATE) rate)).map
      (frameAt rate (samples pieces.flatten)), ?_, ?_, ?_⟩
  · rw [heq, framesUpTo, ← List.flatMap_map]
  · rw [List.length_map, List.length_range, hlen]
  · intro k hk
    rw [List.length_map, List.length_range] at hk
    -- frame `k` starts before the end of the last sample
    have hstart : k * rate < WEBRTC_PCM_SAMPLE_RATE * (samples pieces.flatten).length := by
      have hmul := (Nat.le_div_iff_mul_le (by omega : 0 < rate)).mp (Nat.succ_le_of_lt hk)
      rw [Nat.succ_mul, Nat.mul_comm _ WEBRTC_PCM_SAMPLE_RATE] at hmul
      omega
    have hi : k * rate / WEBRTC_PCM_SAMPLE_RATE < (samples pieces.flatten).length :=
      Nat.div_lt_of_lt_mul hstart
    have hnext : min (k * rate / WEBRTC_PCM_SAMPLE_RATE + 1)
        ((samples pieces.flatten).length - 1) < (samples pieces.flatten).length :=
      Nat.lt_of_le_of_lt (Nat.min_le_right _ _) (Nat.sub_one_lt (Nat.ne_zero_of_lt hi))
    refine ⟨_, (samples pieces.flatten)[k * rate / WEBRTC_PCM_SAMPLE_RATE],
      (samples pieces.flatten)[min (k * rate / WEBRTC_PCM_SAMPLE_RATE + 1)
        ((samples pieces.flatten).length - 1)], rfl, List.getElem?_eq_getElem hi, ?_, ?_⟩
    · rw [← hlen]
      exact List.getElem?_eq_getElem hnext
    · rw [List.getElem_map, List.getElem_range]
      simp only [frameAt]
      rw [List.getD_eq_getElem _ _ hi, List.getD_eq_getElem _ _ hnext]
      apply lerp_eq
      · exact isI16_of_mem_samples (List.getElem_mem hi)
      · exact isI16_of_mem_samples (List.getElem_mem hnext)
      · have hmod := Nat.mod_lt (k * rate) (by decide : 0 < WEBRTC_PCM_SAMPLE_RATE)
        have hdiv := Nat.div_add_mod (k * rate) WEBRTC_PCM_SAMPLE_RATE
        omega

/-- Two samples at 24 kHz pushed byte by byte. -/
theorem convert_spec_24k :
    (8000 ≤ 24000 ∧ 24000 ≤ WEBRTC_PCM_SAMPLE_RATE) ∧
      ∃ c, new 24000 = .ok c ∧ c.convert [[100], [0, 44], [1]] = c.convert [[100, 0, 44, 1]] := by
  obtain ⟨c, hnew, hconvert⟩ := convert_spec 24000 ⟨by decide, by decide⟩
  exact ⟨⟨by decide, by decide⟩, c, hnew, (hconvert [[100], [0, 44], [1]]).1⟩

end MonoToStereo48k

end NodeWebrtc.Speech
