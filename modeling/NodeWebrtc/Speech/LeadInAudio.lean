import Mathlib.Data.List.ReduceOption
import NodeWebrtc.Speech.LeadIn

/-! # What a lead-in says of the inbound audio

A lead-in is laid out over the positions of the inbound stream: each of its bytes is the
byte at a position, or silence. The layout does not depend on what was said, and what was
said tells the layout. A head repeats audio exactly when the ring still holds something
older than the head's end, and that is a matter of how much was received, and how much
concealed, since then.
-/

namespace NodeWebrtc.Speech

open Machine Budget

/-! ## Layouts -/

def render (content : Nat → UInt8) (layout : List (Option Nat)) : List UInt8 :=
  layout.map fun o => o.elim 0 content

variable (content : Nat → UInt8)

theorem render_append (l m : List (Option Nat)) :
    render content (l ++ m) = render content l ++ render content m := List.map_append

theorem render_silence (n : Nat) : render content (List.replicate n none) = List.replicate n 0 := by
  simp [render]

theorem render_injective {l m : List (Option Nat)}
    (h : ∀ content, render content l = render content m) : l = m := by
  have hsingle : ∀ o p : Option Nat,
      (∀ content : Nat → UInt8, o.elim 0 content = p.elim 0 content) → o = p := by
    intro o p hop
    cases o with
    | none =>
      cases p with
      | none => rfl
      | some j => exact absurd (hop fun _ => 1) (by simp)
    | some i =>
      have hi := hop fun j => if j = i then 1 else 0
      cases p with
      | none => exact absurd hi (by simp)
      | some j =>
        by_cases hji : j = i
        · rw [hji]
        · exact absurd hi (by simp [hji])
  induction l generalizing m with
  | nil =>
    have hlen := congrArg List.length (h fun _ => 0)
    exact (List.eq_nil_of_length_eq_zero (by simpa [render] using hlen.symm)).symm
  | cons o l ih =>
    cases m with
    | nil => exact absurd (congrArg List.length (h fun _ => 0)) (by simp [render])
    | cons p m =>
      have hparts : ∀ content : Nat → UInt8, o.elim 0 content = p.elim 0 content ∧
          render content l = render content m := fun content => List.cons.inj (h content)
      rw [hsingle o p fun content => (hparts content).1, ih fun content => (hparts content).2]

/-! ## The frames that reach the buffers -/

/-- Whether frame `k` was synthesized by loss concealment. -/
def concealedAt (frames : List GateFrame) (k : Nat) : Bool := frames[k]?.any (·.concealed)

/-- The positions of the stream, each with the flag of its frame. -/
def marks (frames : List GateFrame) : List (Nat × Bool) :=
  (List.range' 0 (640 * frames.length)).map fun i => (i, concealedAt frames (i / 640))

def inbound (content : Nat → UInt8) (frames : List GateFrame) : List InboundFrame :=
  frames.zipIdx.map fun x => ⟨frameBytes content x.2, x.1.voicedPending, x.1.concealed, 20⟩

theorem inbound_append (frames : List GateFrame) (f : GateFrame) :
    inbound content (frames ++ [f]) = inbound content frames ++
      [⟨frameBytes content frames.length, f.voicedPending, f.concealed, 20⟩] := by
  simp [inbound, List.zipIdx_append]

theorem marks_append (frames : List GateFrame) (f : GateFrame) :
    marks (frames ++ [f]) = marks frames ++
      (List.range' (640 * frames.length) 640).map fun i => (i, f.concealed) := by
  have hsplit : List.range' 0 (640 * (frames ++ [f]).length) =
      List.range' 0 (640 * frames.length) ++ List.range' (640 * frames.length) 640 := by
    rw [List.length_append, List.length_singleton, Nat.mul_add,
      ← List.range'_append_1 (s := 0), Nat.zero_add]
  unfold marks
  rw [hsplit, List.map_append]
  congr 1
  · apply List.map_congr_left
    intro i hi
    rw [List.mem_range'_1] at hi
    rw [concealedAt, List.getElem?_append_left (by omega), concealedAt]
  · apply List.map_congr_left
    intro i hi
    rw [List.mem_range'_1] at hi
    have hk : i / 640 = frames.length := by omega
    rw [concealedAt, hk, List.getElem?_concat_length]
    rfl

def markedBytes (content : Nat → UInt8) (frames : List GateFrame) : List (UInt8 × Bool) :=
  (marks frames).map (Prod.map content id)

/-- The bytes the ring may receive, and how many concealed ones it may hold. -/
def ringBytes (capacityMs : UInt32) : Nat := monoS16leBytesForDurationMs (max capacityMs 1)

def concealedBudget : Nat := monoS16leBytesForDurationMs PRE_ROLL_MAX_CONCEALED_MS

/-- Every run of gate-closed frames ends without a panic, with the ring and the retainer as
their histories tell. -/
theorem run_gateClosed (capacityMs : UInt32) (content : Nat → UInt8) (frames : List GateFrame) :
    ∃ ring burst,
      run PreRollState.gateClosed (PreRollState.new capacityMs) (inbound content frames) =
        some (⟨some ring, burst⟩, []) ∧
      ring.HoldsKept (ringBytes capacityMs) (markedBytes content frames) ∧
      burst.Tracks content frames (heard frames) := by
  induction frames using List.reverseRecOn with
  | nil =>
    exact ⟨_, _, rfl, SttPreRollBuffer.holdsKept_new capacityMs,
      ShortBurstRetainer.tracks_new content⟩
  | append_singleton frames f ih =>
    obtain ⟨ring, burst, hrun, hring, hburst⟩ := ih
    have heven : (frameBytes content frames.length).length % 2 = 0 := by simp [frameBytes]
    obtain ⟨ring', hpush, hring'⟩ :=
      hring.pushFrame (SttPreRollBuffer.capacity_even _) heven f.concealed
    refine ⟨ring', _, ?_, ?_, hburst.append f⟩
    · rw [inbound_append, run_append_eq_some]
      refine ⟨_, [], [], hrun, ?_, rfl⟩
      rw [run_singleton]
      simp only [PreRollState.gateClosed, PreRollState.push, hpush, Option.map_some]
    · have hmarked : markedBytes content (frames ++ [f]) = markedBytes content frames ++
          (frameBytes content frames.length).map fun byte => (byte, f.concealed) := by
        unfold markedBytes frameBytes
        rw [marks_append, List.map_append, List.map_map, List.map_map]
        rfl
      rw [hmarked]
      exact hring'

/-! ## The head -/

/-- The milliseconds of retained audio that are older than the ring's nominal capacity. -/
def headMs (cap : Nat) (h : Heard) : Nat :=
  20 * (h.stop - h.start) - (cap - 20 * (h.frames - h.stop))

theorem take_slice (frames : List GateFrame) {a b n : Nat} (hn : n ≤ 640 * (b - a)) :
    (slice content frames a b).take n = (List.range' (640 * a) n).map (muted content frames) := by
  unfold slice
  rw [← List.map_take, List.take_range'_of_length_ge hn]

variable {frames : List GateFrame}

theorem ShortBurstRetainer.Tracks.take {content : Nat → UInt8} {h : Heard} {r : ShortBurstRetainer}
    (ht : r.Tracks content frames h) (ho : h.Ordered frames) (ringCapacityMs : UInt32) :
    r.takeForNewStream ringCapacityMs =
      (if headMs ringCapacityMs.toNat h = 0 then none
        else some ((List.range' (640 * h.start) (32 * headMs ringCapacityMs.toNat h)).map
            (muted content frames), decide (20 * (h.frames - h.stop) < ringCapacityMs.toNat)),
        ShortBurstRetainer.new) := by
  have hshort := ho.short
  have hcap := ringCapacityMs.toNat_lt
  have hsince := ht.since
  unfold takeForNewStream
  dsimp only
  rw [ht.retained, slice_isEmpty]
  by_cases hne : h.start < h.stop
  · rw [if_pos hne] at hsince
    have hretained : (monoDurationMsFromBytes (slice content frames h.start h.stop).length).toNat =
        20 * (h.stop - h.start) := by
      rw [length_slice, monoDurationMsFromBytes_toNat (by omega) (by omega)]
    have hinRing : (minU32 (saturatingSubU32 ringCapacityMs r.sinceRetainedEndMs)
        (monoDurationMsFromBytes (slice content frames h.start h.stop).length)).toNat =
          min (ringCapacityMs.toNat - 20 * (h.frames - h.stop)) (20 * (h.stop - h.start)) := by
      rw [minU32_toNat, saturatingSubU32_toNat]
      omega
    have hout : (monoDurationMsFromBytes (slice content frames h.start h.stop).length -
        minU32 (saturatingSubU32 ringCapacityMs r.sinceRetainedEndMs)
          (monoDurationMsFromBytes (slice content frames h.start h.stop).length)).toNat =
            headMs ringCapacityMs.toNat h := by
      rw [UInt32.toNat_sub_of_le]
      · rw [headMs]
        omega
      · rw [UInt32.le_iff_toNat_le, hretained, hinRing]
        exact Nat.min_le_right _ _
    rw [if_neg (by simpa using hne)]
    by_cases hzero : headMs ringCapacityMs.toNat h = 0
    · rw [if_pos hzero, if_pos]
      rw [← UInt32.toNat_inj, hout, hzero]
      rfl
    · rw [if_neg hzero, if_neg]
      · rw [monoS16leBytesForDurationMs_eq, hout, take_slice]
        · congr 3
          rw [decide_eq_decide, gt_iff_lt, UInt32.lt_iff_toNat_lt]
          change 0 < _ ↔ _
          omega
        · unfold headMs
          omega
      · rw [← UInt32.toNat_inj, hout]
        exact hzero
  · have hzero : headMs ringCapacityMs.toNat h = 0 := by
      unfold headMs
      omega
    rw [if_pos (by simpa using hne), if_pos hzero]

/-! ## The layout of a lead-in -/

def capMs (capacityMs : UInt32) : Nat := max capacityMs.toNat 1

def ringMarks (capacityMs : UInt32) (frames : List GateFrame) : List (Nat × Bool) :=
  kept (ringBytes capacityMs) concealedBudget (marks frames)

def ringLayout (capacityMs : UInt32) (frames : List GateFrame) : List (Option Nat) :=
  (ringMarks capacityMs frames).map fun x => some x.1

/-- Silence in front of a ring that is not full, when there is no head. -/
def padBytes (capacityMs : UInt32) (frames : List GateFrame) : Nat :=
  if ringMarks capacityMs frames = [] then 0
  else (ringBytes capacityMs - count false (ringMarks capacityMs frames)) / 2 * 2

/-- The positions of the head: the voiced frames of the stretch it covers. -/
def headLayout (capacityMs : UInt32) (frames : List GateFrame) : List (Option Nat) :=
  (List.range' (640 * (heard frames).start) (32 * headMs (capMs capacityMs) (heard frames))).map
    fun i => if voicedAt frames (i / 640) then some i else none

/-- Whether the head is reported to be contiguous with the ring. -/
def contiguous (capacityMs : UInt32) (frames : List GateFrame) : Bool :=
  decide (20 * ((heard frames).frames - (heard frames).stop) < capMs capacityMs)

def leadInLayout (capacityMs : UInt32) (frames : List GateFrame) : List (Option Nat) :=
  if headMs (capMs capacityMs) (heard frames) = 0 then
    List.replicate (padBytes capacityMs frames) none ++ ringLayout capacityMs frames
  else
    headLayout capacityMs frames ++
      ((if contiguous capacityMs frames then [] else List.replicate 6400 none) ++
        ringLayout capacityMs frames)

theorem ringBytes_eq (capacityMs : UInt32) : ringBytes capacityMs = 32 * capMs capacityMs := by
  have hmax : (max capacityMs 1).toNat = capMs capacityMs := by
    change (if capacityMs ≤ 1 then (1 : UInt32) else capacityMs).toNat = max capacityMs.toNat 1
    split
    · next hle => exact (Nat.max_eq_right hle).symm
    · next hlt => exact (Nat.max_eq_left (Nat.le_of_not_le hlt)).symm
  rw [ringBytes, monoS16leBytesForDurationMs_eq, hmax]

variable {capacityMs : UInt32}

theorem capacityMs_toNat {ring : SttPreRollBuffer} (h : ring.maxBytes = ringBytes capacityMs) :
    ring.capacityMs.toNat = capMs capacityMs := by
  have hbound := capacityMs.toNat_lt
  unfold SttPreRollBuffer.capacityMs monoDurationMsFromBytes STT_PCM_SAMPLE_RATE
  rw [h, ringBytes_eq, UInt32.toNat_ofNat']
  unfold capMs
  omega

theorem kept_markedBytes (frames : List GateFrame) (capacityMs : UInt32) :
    kept (ringBytes capacityMs) concealedBudget (markedBytes content frames) =
      (ringMarks capacityMs frames).map (Prod.map content id) := kept_map content

section Rendered

variable {capacityMs : UInt32} {content : Nat → UInt8} {frames : List GateFrame}
  {ring : SttPreRollBuffer} {burst : ShortBurstRetainer}

theorem ring_data (h : ring.HoldsKept (ringBytes capacityMs) (markedBytes content frames)) :
    ring.data = render content (ringLayout capacityMs frames) := by
  have hdata := h.data
  change _ = (kept (ringBytes capacityMs) concealedBudget _).map Prod.fst at hdata
  rw [hdata, kept_markedBytes, render, ringLayout, List.map_map, List.map_map]
  rfl

theorem ring_received (h : ring.HoldsKept (ringBytes capacityMs) (markedBytes content frames)) :
    ring.receivedBytes = count false (ringMarks capacityMs frames) := by
  have hreceived := h.received
  change _ = count false (kept (ringBytes capacityMs) concealedBudget _) at hreceived
  rw [hreceived, kept_markedBytes, count_map]

theorem drain_data (ring : SttPreRollBuffer) : ring.drain.1 = ring.data := by
  unfold SttPreRollBuffer.drain
  split
  · next hempty => exact (List.isEmpty_iff.mp hempty).symm
  · rfl

theorem drainPadded_data
    (h : ring.HoldsKept (ringBytes capacityMs) (markedBytes content frames)) :
    ring.drainPaddedToCapacity.1 = render content
      (List.replicate (padBytes capacityMs frames) none ++ ringLayout capacityMs frames) := by
  have hdata := ring_data h
  have hreceived := ring_received h
  rw [render_append, render_silence, ← hdata]
  unfold SttPreRollBuffer.drainPaddedToCapacity padBytes
  by_cases hempty : ringMarks capacityMs frames = []
  · have hnone : ring.data = [] := by
      rw [hdata, ringLayout, hempty]
      rfl
    rw [if_pos hempty, hnone]
    rfl
  · have hsome : ¬ ring.data.isEmpty = true := by
      rw [hdata]
      simpa [render, ringLayout] using hempty
    rw [if_neg hsome, hreceived, h.maxBytes]
    split
    · next hfull =>
      rw [drain_data, Nat.sub_eq_zero_of_le hfull]
      rfl
    · rfl

theorem head_data :
    (List.range' (640 * (heard frames).start)
      (32 * headMs (capMs capacityMs) (heard frames))).map (muted content frames) =
        render content (headLayout capacityMs frames) := by
  unfold headLayout render
  rw [List.map_map]
  apply List.map_congr_left
  intro i _
  rw [muted, Function.comp_apply]
  split <;> rfl

theorem speechStart_layout
    (hring : ring.HoldsKept (ringBytes capacityMs) (markedBytes content frames))
    (hburst : burst.Tracks content frames (heard frames)) :
    ∃ s out, PreRollState.speechStart ⟨some ring, burst⟩ true [] [] = some (s, out) ∧
      out.preRollAfterStart.getD [] = render content (leadInLayout capacityMs frames) ∧
      out.burstHead.map Prod.snd =
        if headMs (capMs capacityMs) (heard frames) = 0 then none
        else some (contiguous capacityMs frames) := by
  have htake := hburst.take (heard_ordered frames) ring.capacityMs
  rw [capacityMs_toNat hring.maxBytes] at htake
  have hgetD : ∀ bytes : List UInt8,
      (if bytes.isEmpty then none else some bytes).getD [] = bytes := by
    intro bytes
    cases bytes <;> rfl
  refine ⟨_, _, rfl, ?_⟩
  simp only [PreRollState.drainLeadIn, if_true, Option.elim_some, Bool.true_and, htake, hgetD]
  unfold leadInLayout
  by_cases hzero : headMs (capMs capacityMs) (heard frames) = 0
  · simp only [if_pos hzero, Option.map_none,
      and_true]
    exact drainPadded_data hring
  · simp only [if_neg hzero, Option.isNone_some, Bool.false_eq_true, if_false,
      PreRollState.joined]
    refine ⟨?_, rfl⟩
    rw [drain_data, head_data, ring_data hring, render_append, render_append, List.append_assoc]
    unfold contiguous
    by_cases hcont : 20 * ((heard frames).frames - (heard frames).stop) < capMs capacityMs
    · rw [decide_eq_true hcont]
      rfl
    · rw [decide_eq_false hcont, if_neg (by simp), if_neg (by simp), render_silence]
      rfl

end Rendered

/-! ## What is asked of a lead-in -/

/-- The inbound bytes of a layout come in the order of the stream, each at most once. -/
structure InOrder (frames : List GateFrame) (layout : List (Option Nat)) : Prop where
  increasing : layout.reduceOption.Pairwise (· < ·)
  inbound : ∀ i, some i ∈ layout → i < 640 * frames.length

/-- From the first retained frame to the end of the stream every byte stands in its place,
and only inactive frames are silence. -/
structure GapFree (frames : List GateFrame) (layout : List (Option Nat)) : Prop where
  toEnd : 640 * (heard frames).start + layout.length = 640 * frames.length
  inPlace : ∀ j i, layout[j]? = some (some i) → i = 640 * (heard frames).start + j
  silent : ∀ j, layout[j]? = some none →
    voicedAt frames ((640 * (heard frames).start + j) / 640) = false

/-- After these frames a SpeechStart that opens a new stream prepends no audio twice or out
of order, and a head that is reported contiguous is. -/
def LeadInSound (capacityMs : UInt32) (frames : List GateFrame) : Prop :=
  ∃ layout, InOrder frames layout ∧ ∀ content, ∃ s s' out,
    run PreRollState.gateClosed (PreRollState.new capacityMs) (inbound content frames) =
      some (s, []) ∧
    s.speechStart true [] [] = some (s', out) ∧
    out.preRollAfterStart.getD [] = render content layout ∧
    ∀ head, out.burstHead = some (head, true) → GapFree frames layout

theorem leadInSound_iff_layout :
    LeadInSound capacityMs frames ↔
      InOrder frames (leadInLayout capacityMs frames) ∧
        (headMs (capMs capacityMs) (heard frames) ≠ 0 → contiguous capacityMs frames = true →
          GapFree frames (leadInLayout capacityMs frames)) := by
  have hcode : ∀ content, ∃ s s' out,
      run PreRollState.gateClosed (PreRollState.new capacityMs) (inbound content frames) =
        some (s, []) ∧ s.speechStart true [] [] = some (s', out) ∧
      out.preRollAfterStart.getD [] = render content (leadInLayout capacityMs frames) ∧
      out.burstHead.map Prod.snd =
        if headMs (capMs capacityMs) (heard frames) = 0 then none
        else some (contiguous capacityMs frames) := by
    intro content
    obtain ⟨ring, burst, hrun, hring, hburst⟩ := run_gateClosed capacityMs content frames
    obtain ⟨s', out, hstart, hbytes, hhead⟩ := speechStart_layout hring hburst
    exact ⟨_, s', out, hrun, hstart, hbytes, hhead⟩
  constructor
  · intro h
    obtain ⟨layout, horder, hall⟩ := h
    have hsame : layout = leadInLayout capacityMs frames := by
      apply render_injective
      intro content
      obtain ⟨s, s', out, hrun, hstart, hbytes, -⟩ := hall content
      obtain ⟨t, t', out', hrun', hstart', hbytes', -⟩ := hcode content
      obtain ⟨rfl, -⟩ := Prod.mk.inj (Option.some.inj (hrun.symm.trans hrun'))
      obtain ⟨-, rfl⟩ := Prod.mk.inj (Option.some.inj (hstart.symm.trans hstart'))
      exact hbytes.symm.trans hbytes'
    subst hsame
    refine ⟨horder, fun hsome hcont => ?_⟩
    obtain ⟨s, s', out, hrun, hstart, -, hgap⟩ := hall fun _ => 0
    obtain ⟨t, t', out', hrun', hstart', -, hhead⟩ := hcode fun _ => 0
    obtain ⟨rfl, -⟩ := Prod.mk.inj (Option.some.inj (hrun.symm.trans hrun'))
    obtain ⟨-, rfl⟩ := Prod.mk.inj (Option.some.inj (hstart.symm.trans hstart'))
    rw [if_neg hsome, hcont, Option.map_eq_some_iff] at hhead
    obtain ⟨⟨head, flag⟩, hhead, rfl⟩ := hhead
    exact hgap head hhead
  · intro h
    refine ⟨_, h.1, fun content => ?_⟩
    obtain ⟨s, s', out, hrun, hstart, hbytes, hhead⟩ := hcode content
    refine ⟨s, s', out, hrun, hstart, hbytes, fun head hsome => ?_⟩
    rw [hsome] at hhead
    split at hhead
    · cases hhead
    · next hne => exact h.2 hne (Option.some.inj hhead).symm

/-! ## When the ring has forgotten the head -/

/-- Bytes with the flag `c` among the newest `n` of these frames, newest frame first. -/
def newest (c : Bool) : List GateFrame → Nat → Nat
  | [], _ => 0
  | f :: fs, n => (if f.concealed = c then min n 640 else 0) + newest c fs (n - 640)

/-- Bytes with the flag `c` among the newest `n` of the stream. -/
def newestBytes (c : Bool) (frames : List GateFrame) (n : Nat) : Nat := newest c frames.reverse n

/-- What is older than the newest `reach` bytes does not fit: received audio since then, the
byte before it included, exceeds the capacity, or the concealed budget is used up and no
received byte fits either. -/
def Forgets (capacityMs : UInt32) (frames : List GateFrame) (reach : Nat) : Prop :=
  ringBytes capacityMs < newestBytes false frames (reach + 1) ∨
    concealedBudget ≤ newestBytes true frames reach ∧
      (ringBytes capacityMs ≤ newestBytes false frames reach ∨
        newestBytes false frames (640 * frames.length) = newestBytes false frames reach)

/-- No retained burst, or one that began within the capacity, or the ring has forgotten what
is older than the head's end and lost nothing after it. -/
def LeadInClean (capacityMs : UInt32) (frames : List GateFrame) : Prop :=
  (heard frames).start = (heard frames).stop ∨
    20 * (frames.length - (heard frames).start) ≤ capMs capacityMs ∨
      Forgets capacityMs frames
          (max (640 * (frames.length - (heard frames).stop)) (ringBytes capacityMs)) ∧
        (20 * (frames.length - (heard frames).stop) < capMs capacityMs →
          newestBytes true frames (ringBytes capacityMs) ≤ concealedBudget)

instance (capacityMs : UInt32) (frames : List GateFrame) (reach : Nat) :
    Decidable (Forgets capacityMs frames reach) := inferInstanceAs (Decidable (_ ∨ _ ∧ (_ ∨ _)))

instance (capacityMs : UInt32) (frames : List GateFrame) :
    Decidable (LeadInClean capacityMs frames) := inferInstanceAs (Decidable (_ ∨ _ ∨ _ ∧ (_ → _)))

theorem length_marks (frames : List GateFrame) : (marks frames).length = 640 * frames.length := by
  simp [marks]

theorem newestBytes_eq (c : Bool) (frames : List GateFrame) (n : Nat) :
    newestBytes c frames n = count c ((marks frames).rtake n) := by
  induction frames using List.reverseRecOn generalizing n with
  | nil => simp [newestBytes, newest, marks]
  | append_singleton frames f ih =>
    have hlast : ∀ m : Nat, count c
        (((List.range' (640 * frames.length) 640).map fun i => (i, f.concealed)).drop m) =
          if f.concealed = c then 640 - m else 0 := by
      intro m
      rw [← List.map_drop, count, List.countP_map]
      by_cases hf : f.concealed = c
      · rw [if_pos hf, List.countP_eq_length.mpr (by simp [hf])]
        simp
      · rw [if_neg hf, List.countP_eq_zero.mpr (by simp [hf])]
    have hreverse : newestBytes c (frames ++ [f]) n =
        (if f.concealed = c then min n 640 else 0) + newestBytes c frames (n - 640) := by
      unfold newestBytes
      rw [List.reverse_concat]
      rfl
    rw [hreverse, ih, marks_append]
    unfold List.rtake
    rw [List.drop_append, count_append, hlast, Nat.add_comm]
    simp only [List.length_append, List.length_map, List.length_range', length_marks]
    have hfirst : (marks frames).drop (640 * frames.length + 640 - n) =
        (marks frames).drop (640 * frames.length - (n - 640)) := by
      have hlen := length_marks frames
      by_cases hn : 640 ≤ n
      · have hsame : 640 * frames.length + 640 - n = 640 * frames.length - (n - 640) ∨
            640 * frames.length + 640 - n = 0 ∧ 640 * frames.length - (n - 640) = 0 := by
          omega
        rcases hsame with hsame | ⟨h₁, h₂⟩
        · rw [hsame]
        · rw [h₁, h₂]
      · rw [List.drop_of_length_le (by omega), List.drop_of_length_le (by omega)]
    have hsecond : min n 640 = 640 - (640 * frames.length + 640 - n - 640 * frames.length) := by
      omega
    rw [hfirst, hsecond]

theorem marks_split (frames : List GateFrame) {reach : Nat} (hreach : reach < 640 * frames.length) :
    ∃ older x, marks frames = (older ++ [x]) ++ (marks frames).rtake reach ∧
      (marks frames).rtake (reach + 1) = x :: (marks frames).rtake reach ∧
      (older ++ [x]).length = 640 * frames.length - reach := by
  have hlen := length_marks frames
  have hx : (marks frames).length - (reach + 1) < (marks frames).length := by omega
  have hnext : (marks frames).length - (reach + 1) + 1 = (marks frames).length - reach := by omega
  refine ⟨(marks frames).take ((marks frames).length - (reach + 1)),
    (marks frames)[(marks frames).length - (reach + 1)], ?_, ?_, ?_⟩
  · unfold List.rtake
    rw [← List.take_succ_eq_append_getElem hx, hnext, List.take_append_drop]
  · unfold List.rtake
    rw [List.drop_eq_getElem_cons hx, hnext]
  · rw [List.length_append, List.length_take, List.length_singleton]
    omega

theorem forgets_iff {reach : Nat} (hreach : reach < 640 * frames.length) :
    Forgets capacityMs frames reach ↔
      keptBefore (ringBytes capacityMs) concealedBudget
        (count false ((marks frames).rtake reach)) (count true ((marks frames).rtake reach))
        ((marks frames).take (640 * frames.length - reach)) = [] := by
  obtain ⟨older, x, hsplit, hnext, hlen⟩ := marks_split frames hreach
  have htotal : (marks frames).rtake (640 * frames.length) = marks frames := by
    unfold List.rtake
    rw [length_marks, Nat.sub_self, List.drop_zero]
  have htake : (marks frames).take (640 * frames.length - reach) = older ++ [x] := by
    rw [hsplit, ← hlen]
    exact List.take_left
  have hold : count false (marks frames) =
      count false (older ++ [x]) + count false ((marks frames).rtake reach) := by
    rw [← count_append, ← hsplit]
  rw [htake, keptBefore_concat_eq_nil_iff, Forgets, newestBytes_eq, newestBytes_eq, newestBytes_eq,
    newestBytes_eq, hnext, htotal, count_cons, count_cons, count_nil]
  omega

/-! ## Positions of the head and of the ring -/

theorem map_fst_marks (frames : List GateFrame) :
    (marks frames).map Prod.fst = List.range' 0 (640 * frames.length) := by
  unfold marks
  rw [List.map_map]
  exact List.map_id _

theorem lt_of_mem_take_marks {n : Nat} {x : Nat × Bool} (hx : x ∈ (marks frames).take n) :
    x.1 < n := by
  have hmem := List.mem_map_of_mem (f := Prod.fst) hx
  rw [List.map_take, map_fst_marks] at hmem
  rcases Nat.le_total n (640 * frames.length) with hle | hle
  · rw [List.take_range'_of_length_ge hle, List.mem_range'_1] at hmem
    omega
  · rw [List.take_range'_of_length_le hle, List.mem_range'_1] at hmem
    omega

theorem map_fst_rtake_marks {reach : Nat} (hreach : reach ≤ 640 * frames.length) :
    ((marks frames).rtake reach).map Prod.fst =
      List.range' (640 * frames.length - reach) reach := by
  unfold List.rtake
  rw [List.map_drop, map_fst_marks, length_marks, List.drop_range']
  congr 1 <;> omega

theorem ringMarks_eq (capacityMs : UInt32) {reach : Nat} :
    ringMarks capacityMs frames =
      keptBefore (ringBytes capacityMs) concealedBudget
        (count false ((marks frames).rtake reach)) (count true ((marks frames).rtake reach))
        ((marks frames).take (640 * frames.length - reach)) ++
      kept (ringBytes capacityMs) concealedBudget ((marks frames).rtake reach) := by
  rw [← kept_append]
  unfold List.rtake
  rw [length_marks, List.take_append_drop]
  rfl

theorem ringMarks_pairwise (capacityMs : UInt32) (frames : List GateFrame) :
    ((ringMarks capacityMs frames).map Prod.fst).Pairwise (· < ·) := by
  have hsub := (@kept_sublist _ (ringBytes capacityMs) concealedBudget (marks frames)).map Prod.fst
  rw [map_fst_marks] at hsub
  exact (List.pairwise_lt_range' (s := 0)).sublist hsub

theorem lt_of_mem_ringMarks {x : Nat × Bool} (hx : x ∈ ringMarks capacityMs frames) :
    x.1 < 640 * frames.length := by
  have hmem := List.mem_map_of_mem (f := Prod.fst) (kept_sublist.subset hx)
  rw [map_fst_marks, List.mem_range'_1] at hmem
  omega

theorem reduceOption_ringLayout (capacityMs : UInt32) (frames : List GateFrame) :
    (ringLayout capacityMs frames).reduceOption =
      (ringMarks capacityMs frames).map Prod.fst := by
  unfold ringLayout List.reduceOption
  rw [List.filterMap_map]
  change List.filterMap (some ∘ Prod.fst) _ = _
  rw [List.filterMap_eq_map]

theorem reduceOption_headLayout (capacityMs : UInt32) (frames : List GateFrame) :
    (headLayout capacityMs frames).reduceOption =
      (List.range' (640 * (heard frames).start)
        (32 * headMs (capMs capacityMs) (heard frames))).filter
          fun i => voicedAt frames (i / 640) := by
  unfold headLayout List.reduceOption
  rw [List.filterMap_map, ← List.filterMap_eq_filter]
  rfl

theorem reduceOption_leadInLayout (hhead : headMs (capMs capacityMs) (heard frames) ≠ 0) :
    (leadInLayout capacityMs frames).reduceOption =
      (headLayout capacityMs frames).reduceOption ++
        (ringMarks capacityMs frames).map Prod.fst := by
  rw [leadInLayout, if_neg hhead, List.reduceOption_append, List.reduceOption_append,
    reduceOption_ringLayout]
  split
  · rfl
  · rw [List.reduceOption_replicate_none]
    rfl

theorem head_end (hhead : headMs (capMs capacityMs) (heard frames) ≠ 0) :
    max (640 * (frames.length - (heard frames).stop)) (ringBytes capacityMs) <
        640 * frames.length ∧
      640 * (heard frames).start + 32 * headMs (capMs capacityMs) (heard frames) =
        640 * frames.length -
          max (640 * (frames.length - (heard frames).stop)) (ringBytes capacityMs) := by
  have ho := heard_ordered frames
  have hlen := ho.frames_eq
  have hstop := ho.stop_le
  have honset := ho.onset_le
  rw [ringBytes_eq]
  unfold headMs at hhead ⊢
  omega

theorem mem_leadInLayout {i : Nat} (hi : some i ∈ leadInLayout capacityMs frames) :
    i < 640 * frames.length := by
  have hring : some i ∈ ringLayout capacityMs frames → i < 640 * frames.length := by
    intro h
    simp only [ringLayout, List.mem_map, Option.some.injEq] at h
    obtain ⟨x, hx, rfl⟩ := h
    exact lt_of_mem_ringMarks hx
  unfold leadInLayout at hi
  split at hi
  · rw [List.mem_append, List.mem_replicate] at hi
    rcases hi with ⟨-, hnone⟩ | hi
    · cases hnone
    · exact hring hi
  · next hhead =>
    rw [List.mem_append, List.mem_append] at hi
    rcases hi with hi | hi | hi
    · obtain ⟨hlt, hend⟩ := head_end hhead
      simp only [headLayout, List.mem_map, List.mem_range'_1] at hi
      obtain ⟨j, hj, hsome⟩ := hi
      split_ifs at hsome
      rw [Option.some.injEq] at hsome
      omega
    · split at hi
      · cases hi
      · rw [List.mem_replicate] at hi
        cases hi.2
    · exact hring hi

/-! ## When a lead-in is sound -/

section Sound

variable {capacityMs : UInt32} {frames : List GateFrame} {reach : Nat}

theorem ringMarks_of_forgets (hreach : reach < 640 * frames.length)
    (hforgets : Forgets capacityMs frames reach) :
    ringMarks capacityMs frames =
      kept (ringBytes capacityMs) concealedBudget ((marks frames).rtake reach) := by
  rw [ringMarks_eq capacityMs, (forgets_iff hreach).mp hforgets, List.nil_append]

theorem forgets_of_forall (hreach : reach < 640 * frames.length)
    (hnew : ∀ x ∈ ringMarks capacityMs frames, 640 * frames.length - reach ≤ x.1) :
    Forgets capacityMs frames reach := by
  rw [forgets_iff hreach, List.eq_nil_iff_forall_not_mem]
  intro x hx
  have hold := hnew x (by
    rw [ringMarks_eq capacityMs]
    exact List.mem_append_left _ hx)
  have holder : x ∈ (marks frames).take (640 * frames.length - reach) := by
    have hsub : ∀ {r c : Nat} {l : List (Nat × Bool)},
        x ∈ keptBefore (ringBytes capacityMs) concealedBudget r c l → x ∈ l := by
      intro r c l
      induction l with
      | nil => exact id
      | cons y l ih =>
        intro hy
        rw [keptBefore] at hy
        split at hy
        · rw [List.mem_cons] at hy ⊢
          exact hy.imp_right ih
        · exact List.mem_cons_of_mem y (ih hy)
    exact hsub hx
  exact absurd (lt_of_mem_take_marks holder) (Nat.not_lt_of_le hold)

theorem inOrder_of_forgets (hhead : headMs (capMs capacityMs) (heard frames) ≠ 0)
    (hforgets : Forgets capacityMs frames
      (max (640 * (frames.length - (heard frames).stop)) (ringBytes capacityMs))) :
    InOrder frames (leadInLayout capacityMs frames) := by
  obtain ⟨hreach, hend⟩ := head_end hhead
  refine ⟨?_, fun i hi => mem_leadInLayout hi⟩
  rw [reduceOption_leadInLayout hhead, reduceOption_headLayout, List.pairwise_append]
  refine ⟨(List.pairwise_lt_range').filter _, ringMarks_pairwise capacityMs frames, ?_⟩
  intro i hi j hj
  have hold : i < 640 * frames.length -
      max (640 * (frames.length - (heard frames).stop)) (ringBytes capacityMs) := by
    rw [← hend]
    exact (List.mem_range'_1.mp (List.mem_filter.mp hi).1).2
  have hring := ringMarks_of_forgets hreach hforgets
  have hnew : 640 * frames.length -
      max (640 * (frames.length - (heard frames).stop)) (ringBytes capacityMs) ≤ j := by
    rw [hring] at hj
    have hmem := (kept_sublist.map Prod.fst).subset hj
    rw [map_fst_rtake_marks (Nat.le_of_lt hreach), List.mem_range'_1] at hmem
    exact hmem.1
  exact Nat.lt_of_lt_of_le hold hnew

theorem inOrder_of_no_head (hhead : headMs (capMs capacityMs) (heard frames) = 0) :
    InOrder frames (leadInLayout capacityMs frames) := by
  refine ⟨?_, fun i hi => mem_leadInLayout hi⟩
  rw [leadInLayout, if_pos hhead, List.reduceOption_append, List.reduceOption_replicate_none, reduceOption_ringLayout]
  exact ringMarks_pairwise capacityMs frames

theorem forgets_of_inOrder (hhead : headMs (capMs capacityMs) (heard frames) ≠ 0)
    (hseparated : ¬ 20 * (frames.length - (heard frames).stop) < capMs capacityMs)
    (horder : InOrder frames (leadInLayout capacityMs frames)) :
    Forgets capacityMs frames
      (max (640 * (frames.length - (heard frames).stop)) (ringBytes capacityMs)) := by
  have ho := heard_ordered frames
  have hlen := ho.frames_eq
  have hne : (heard frames).start < (heard frames).stop := by
    unfold headMs at hhead
    omega
  have hall : headMs (capMs capacityMs) (heard frames) =
      20 * ((heard frames).stop - (heard frames).start) := by
    unfold headMs
    omega
  obtain ⟨hreach, hend⟩ := head_end hhead
  have hincreasing := horder.increasing
  rw [reduceOption_leadInLayout hhead, reduceOption_headLayout, List.pairwise_append] at hincreasing
  have hlast : 640 * (heard frames).stop - 1 ∈
      (List.range' (640 * (heard frames).start)
        (32 * headMs (capMs capacityMs) (heard frames))).filter
          fun i => voicedAt frames (i / 640) := by
    rw [List.mem_filter, List.mem_range'_1]
    have hframe : (640 * (heard frames).stop - 1) / 640 = (heard frames).stop - 1 := by omega
    rw [hframe]
    exact ⟨by omega, ho.last hne⟩
  apply forgets_of_forall hreach
  intro x hx
  have hlt := hincreasing.2.2 _ hlast x.1 (List.mem_map_of_mem hx)
  omega

theorem getElem?_headLayout {j : Nat}
    (hj : j < 32 * headMs (capMs capacityMs) (heard frames)) :
    (headLayout capacityMs frames)[j]? =
      some (if voicedAt frames ((640 * (heard frames).start + j) / 640) then
        some (640 * (heard frames).start + j) else none) := by
  unfold headLayout
  rw [List.getElem?_map, List.getElem?_range' hj, Option.map_some, Nat.one_mul]

theorem length_headLayout : (headLayout capacityMs frames).length =
    32 * headMs (capMs capacityMs) (heard frames) := by
  simp [headLayout]

section

variable (hhead : headMs (capMs capacityMs) (heard frames) ≠ 0)
include hhead

theorem leadInLayout_of_contiguous (hcont : contiguous capacityMs frames = true) :
    leadInLayout capacityMs frames =
      headLayout capacityMs frames ++ ringLayout capacityMs frames := by
  rw [leadInLayout, if_neg hhead, if_pos hcont, List.nil_append]

theorem gapFree_of_forgets (hcont : 20 * (frames.length - (heard frames).stop) < capMs capacityMs)
    (hforgets : Forgets capacityMs frames
      (max (640 * (frames.length - (heard frames).stop)) (ringBytes capacityMs)))
    (hbudget : newestBytes true frames (ringBytes capacityMs) ≤ concealedBudget) :
    GapFree frames (leadInLayout capacityMs frames) := by
  have hlen := (heard_ordered frames).frames_eq
  obtain ⟨hreach, hend⟩ := head_end hhead
  have hmax : max (640 * (frames.length - (heard frames).stop)) (ringBytes capacityMs) =
      ringBytes capacityMs := by
    rw [ringBytes_eq]
    omega
  rw [hmax] at hreach hend hforgets
  have hring := ringMarks_of_forgets hreach hforgets
  have hall : kept (ringBytes capacityMs) concealedBudget
      ((marks frames).rtake (ringBytes capacityMs)) =
        (marks frames).rtake (ringBytes capacityMs) := by
    rw [kept_eq_self_iff, ← newestBytes_eq true]
    refine ⟨Nat.le_trans List.countP_le_length ?_, hbudget⟩
    unfold List.rtake
    rw [List.length_drop]
    omega
  have hpositions : ringLayout capacityMs frames =
      (List.range' (640 * frames.length - ringBytes capacityMs) (ringBytes capacityMs)).map
        some := by
    rw [← map_fst_rtake_marks (Nat.le_of_lt hreach), ringLayout, hring, hall, List.map_map]
    rfl
  rw [leadInLayout_of_contiguous hhead (decide_eq_true (hlen ▸ hcont)), hpositions]
  have hget : ∀ j, 32 * headMs (capMs capacityMs) (heard frames) ≤ j → ∀ o,
      (headLayout capacityMs frames ++
        (List.range' (640 * frames.length - ringBytes capacityMs) (ringBytes capacityMs)).map
          some)[j]? = some o → o = some (640 * (heard frames).start + j) := by
    intro j hj o ho
    rw [List.getElem?_append_right (by rw [length_headLayout]; exact hj), length_headLayout,
      List.getElem?_map, Option.map_eq_some_iff] at ho
    obtain ⟨i, hi, rfl⟩ := ho
    rw [List.getElem?_eq_some_iff] at hi
    obtain ⟨hlt, rfl⟩ := hi
    rw [List.getElem_range']
    congr 1
    omega
  refine ⟨?_, ?_, ?_⟩
  · rw [List.length_append, length_headLayout, List.length_map, List.length_range']
    omega
  · intro j i hi
    by_cases hj : j < 32 * headMs (capMs capacityMs) (heard frames)
    · rw [List.getElem?_append_left (by rw [length_headLayout]; exact hj),
        getElem?_headLayout hj] at hi
      split at hi
      · simpa using hi.symm
      · simp at hi
    · exact Option.some.inj (hget j (Nat.le_of_not_lt hj) _ hi)
  · intro j hi
    by_cases hj : j < 32 * headMs (capMs capacityMs) (heard frames)
    · rw [List.getElem?_append_left (by rw [length_headLayout]; exact hj),
        getElem?_headLayout hj] at hi
      split at hi
      · simp at hi
      · next hsilent => simpa using hsilent
    · cases hget j (Nat.le_of_not_lt hj) _ hi

theorem forgets_of_gapFree (hcont : 20 * (frames.length - (heard frames).stop) < capMs capacityMs)
    (hgap : GapFree frames (leadInLayout capacityMs frames)) :
    Forgets capacityMs frames
        (max (640 * (frames.length - (heard frames).stop)) (ringBytes capacityMs)) ∧
      newestBytes true frames (ringBytes capacityMs) ≤ concealedBudget := by
  have hlen := (heard_ordered frames).frames_eq
  obtain ⟨hreach, hend⟩ := head_end hhead
  have hmax : max (640 * (frames.length - (heard frames).stop)) (ringBytes capacityMs) =
      ringBytes capacityMs := by
    rw [ringBytes_eq]
    omega
  rw [hmax] at hreach hend ⊢
  obtain ⟨htoEnd, hinPlace, -⟩ := hgap
  rw [leadInLayout_of_contiguous hhead (decide_eq_true (hlen ▸ hcont))] at htoEnd hinPlace
  rw [List.length_append, length_headLayout] at htoEnd
  have hforgets : Forgets capacityMs frames (ringBytes capacityMs) := by
    apply forgets_of_forall hreach
    intro x hx
    obtain ⟨k, hk, hxk⟩ := List.getElem_of_mem hx
    have hi := hinPlace (32 * headMs (capMs capacityMs) (heard frames) + k) x.1 (by
      rw [List.getElem?_append_right (by rw [length_headLayout]; omega), length_headLayout,
        Nat.add_sub_cancel_left, ringLayout, List.getElem?_map,
        List.getElem?_eq_getElem hk, hxk]
      rfl)
    omega
  refine ⟨hforgets, ?_⟩
  have hring := ringMarks_of_forgets hreach hforgets
  have hlength : (kept (ringBytes capacityMs) concealedBudget
      ((marks frames).rtake (ringBytes capacityMs))).length =
        ((marks frames).rtake (ringBytes capacityMs)).length := by
    rw [← hring]
    unfold List.rtake
    rw [List.length_drop, length_marks]
    rw [ringLayout, List.length_map] at htoEnd
    omega
  rw [newestBytes_eq]
  exact (kept_eq_self_iff.mp (kept_sublist.eq_of_length hlength)).2

end

theorem leadInSound_of_clean (h : LeadInClean capacityMs frames) :
    LeadInSound capacityMs frames := by
  have hlen := (heard_ordered frames).frames_eq
  have hstop := (heard_ordered frames).stop_le
  have honset := (heard_ordered frames).onset_le
  rw [leadInSound_iff_layout]
  by_cases hhead : headMs (capMs capacityMs) (heard frames) = 0
  · exact ⟨inOrder_of_no_head hhead, fun hsome => absurd hhead hsome⟩
  · have hpart := h.resolve_left (fun hsame => hhead (by unfold headMs; omega))
    obtain ⟨hforgets, hbudget⟩ := hpart.resolve_left (fun hwithin => hhead (by
      unfold headMs
      omega))
    refine ⟨inOrder_of_forgets hhead hforgets, fun _ hcont => ?_⟩
    have hlt : 20 * (frames.length - (heard frames).stop) < capMs capacityMs := by
      rw [← hlen]
      exact of_decide_eq_true hcont
    exact gapFree_of_forgets hhead hlt hforgets (hbudget hlt)

theorem clean_of_leadInSound (h : LeadInSound capacityMs frames) :
    LeadInClean capacityMs frames := by
  have hlen := (heard_ordered frames).frames_eq
  have hstart := (heard_ordered frames).start_le
  obtain ⟨horder, hgap⟩ := leadInSound_iff_layout.mp h
  by_cases hhead : headMs (capMs capacityMs) (heard frames) = 0
  · by_cases hsame : (heard frames).start = (heard frames).stop
    · exact .inl hsame
    · refine .inr (.inl ?_)
      unfold headMs at hhead
      omega
  · refine .inr (.inr ?_)
    by_cases hlt : 20 * (frames.length - (heard frames).stop) < capMs capacityMs
    · have hcont : contiguous capacityMs frames = true := decide_eq_true (hlen ▸ hlt)
      obtain ⟨hforgets, hbudget⟩ := forgets_of_gapFree hhead hlt (hgap hhead hcont)
      exact ⟨hforgets, fun _ => hbudget⟩
    · exact ⟨forgets_of_inOrder hhead hlt horder, fun hcont => absurd hcont hlt⟩

/-- The lead-in of a new stream repeats no audio, keeps its order, and is gap-free where it
says so, exactly when the ring has forgotten what is older than the head's end. -/
theorem lead_in_sound_iff (capacityMs : UInt32) (frames : List GateFrame) :
    LeadInSound capacityMs frames ↔ LeadInClean capacityMs frames :=
  ⟨clean_of_leadInSound, leadInSound_of_clean⟩

/-- A voiced frame, a concealed one and 26 silent ones, with the default ring of 550 ms: the
head is the first 10 ms of the voiced frame, and the ring still holds all of it. -/
theorem concealed_frame_repeats_the_head :
    ¬ LeadInSound 550 (⟨true, false⟩ :: ⟨false, true⟩ :: List.replicate 26 ⟨false, false⟩) := by
  intro h
  exact absurd (clean_of_leadInSound h) (by decide)

end Sound

end NodeWebrtc.Speech
