import Mathlib.Data.Nat.Init
import NodeWebrtc.Mixer.ListenerTicks

/-! # The order of two renders

Listeners render on their own timers, so a render may come before or after the clock was
advanced by another listener. A graph on which some renders ran inside the catch-up window
is the first graph with its clock moved by whole ticks, some listener counts added and some
cursors set, and a render is computed on this form. Two renders of different listeners then
commute, except where the microsecond rounding of `behind` lets a render that comes before
the clock hear the tick after its own.
-/

namespace NodeWebrtc.Mixer

open Std

/-! ## Ticks of the clock -/

theorem TICK_eq : TICK = 20000000 := rfl

/-- The latest time one advance reaches tick by tick. -/
def catchupWindow : Duration := TICK * MAX_CATCHUP_TICKS

theorem asMicros_TICK (d : Duration) : asMicros d / asMicros TICK = d / TICK := by
  unfold asMicros
  rw [TICK_eq, Nat.div_div_eq_div_mul]

theorem elapsedTicks_eq {clock now : Instant} (h : now ≤ clock + catchupWindow) :
    MixGraph.elapsedTicks clock now = (now - clock) / TICK := by
  have hlate : now - clock ≤ 160000000 := Nat.sub_le_iff_le_add'.mpr h
  unfold MixGraph.elapsedTicks saturatingDurationSince
  rw [asMicros_TICK]
  apply asU64_of_lt
  exact Nat.lt_of_le_of_lt (Nat.div_le_self _ _) (Nat.lt_of_le_of_lt hlate (by decide))

/-- A render at `now` lies in the last microsecond of its tick. -/
def LastMicro (clock now : Instant) : Prop := TICK - 1000 < (now - clock) % TICK

instance (clock now : Instant) : Decidable (LastMicro clock now) :=
  inferInstanceAs (Decidable (_ < _))

/-- The rounding of `behind` over nanoseconds: `early` ns before a tick boundary, `r` ns into
its tick. -/
theorem divCeil_micros {early gap r : Nat} (hgap : early + r = 20000000 * gap)
    (hr : r < 20000000) (hpos : 0 < early) :
    divCeil (early / 1000) (20000000 / 1000) = if 19999000 < r then gap - 1 else gap := by
  unfold divCeil
  split <;> omega

/-- `behind` counts the whole ticks between the tick of `now` and the clock, less one in the
last microsecond of a tick. -/
theorem behind_eq {clock now : Instant} {m : Nat} (hle : clock ≤ now) (hm : m ≤ MAX_CATCHUP_TICKS) :
    MixGraph.behind (some (clock + TICK * m)) now =
      if LastMicro clock now then m - (now - clock) / TICK - 1 else m - (now - clock) / TICK := by
  have hm' : m ≤ 8 := hm
  obtain ⟨t, rfl⟩ : ∃ t : Nat, now = clock + t := ⟨now - clock, (Nat.add_sub_cancel' hle).symm⟩
  have hback : clock + t - clock = t := Nat.add_sub_cancel_left clock t
  have hgap : clock + TICK * m - (clock + t) = TICK * m - t := Nat.add_sub_add_left clock _ t
  have hmicro : LastMicro clock (clock + t) ↔ 19999000 < t % 20000000 := by
    unfold LastMicro
    rw [hback, TICK_eq]
  have hmax : m - t / TICK ≤ u64Max :=
    Nat.le_trans (Nat.sub_le _ _) (Nat.le_trans hm' (by decide))
  unfold MixGraph.behind saturatingDurationSince asMicros
  dsimp only
  rw [hback, hgap]
  by_cases hearly : clock + t < clock + TICK * m
  · have ht : t < 20000000 * m := Nat.lt_of_add_lt_add_left hearly
    have hceil : divCeil ((TICK * m - t) / 1000) (TICK / 1000) =
        if 19999000 < t % 20000000 then m - t / TICK - 1 else m - t / TICK := by
      rw [TICK_eq]
      exact divCeil_micros (by omega) (by omega) (by omega)
    rw [if_pos hearly, hceil]
    by_cases hlast : LastMicro clock (clock + t)
    · rw [if_pos hlast, if_pos (hmicro.mp hlast)]
      exact Nat.min_eq_right (Nat.le_trans (Nat.sub_le _ _) hmax)
    · rw [if_neg hlast, if_neg (fun h => hlast (hmicro.mpr h))]
      exact Nat.min_eq_right hmax
  · have ht : 20000000 * m ≤ t := Nat.le_of_add_le_add_left (Nat.le_of_not_lt hearly)
    have hzero : m - t / TICK = 0 := by
      rw [TICK_eq]
      omega
    rw [if_neg hearly, hzero]
    split <;> rfl

/-! ## A listener step near the clock -/

/-- The listener step when the newest tick is at most a catch-up window before the clock. -/
def nearStep (tickCount newest cursor : Nat) : ListenerStep × Nat :=
  if newest - cursor = 0 then (.single (tickCount - cursor), cursor)
  else if newest - cursor = 1 then (.single (tickCount - (cursor + 1)), cursor + 1)
  else if newest - cursor ≤ MAX_CATCHUP_TICKS then
    (.merged (tickCount - (cursor + 1)) (tickCount - (cursor + 2)), cursor + 2)
  else (.skipped (tickCount - newest) (newest - cursor - 1), newest)

theorem listenerStepAt_near {T n c : Nat} (hc : c ≤ n) (hn : n ≤ T)
    (hnear : T - n ≤ MAX_CATCHUP_TICKS) : listenerStepAt T n c = some (nearStep T n c) := by
  have hT : HISTORY_TICKS = 18 := rfl
  have hM : MAX_CATCHUP_TICKS = 8 := rfl
  unfold listenerStepAt nearStep
  by_cases hgone : n - c > 0 ∧ c + 1 < T - (HISTORY_TICKS - 1)
  · have hheld : ¬ n < T - (HISTORY_TICKS - 1) := by omega
    have hroom : n - (T - (HISTORY_TICKS - 1)) ≥ MAX_CATCHUP_TICKS := by omega
    simp only [if_pos hgone, if_neg hheld]
    rw [checkedSub_of_le (by omega : T - (HISTORY_TICKS - 1) ≤ n)]
    simp only [Option.bind_eq_bind, Option.bind_some, if_pos hroom]
    rw [checkedSub_of_le (by omega : 1 ≤ n - c), checkedSub_of_le hn,
      if_neg (by omega), if_neg (by omega), if_neg (by omega)]
    rfl
  · rw [if_neg hgone]
    by_cases hzero : n - c = 0
    · rw [if_pos (by omega : n - c ≤ 1), if_neg (by omega : ¬ n - c = 1), if_pos hzero]
      dsimp only
      rw [checkedSub_of_le (by omega : c ≤ T)]
      rfl
    · rw [if_neg hzero]
      by_cases hone : n - c = 1
      · rw [if_pos (by omega : n - c ≤ 1), if_pos hone, if_pos hone]
        dsimp only
        rw [checkedSub_of_le (by omega : c + 1 ≤ T)]
        rfl
      · rw [if_neg (by omega : ¬ n - c ≤ 1), if_neg hone]
        by_cases hfar : n - c > MAX_CATCHUP_TICKS
        · rw [if_pos hfar, if_neg (by omega : ¬ n - c ≤ MAX_CATCHUP_TICKS),
            checkedSub_of_le (by omega : 1 ≤ n - c), checkedSub_of_le hn]
          rfl
        · rw [if_neg hfar, if_pos (by omega : n - c ≤ MAX_CATCHUP_TICKS)]
          dsimp only
          rw [checkedSub_of_le (by omega : 1 ≤ c + 2), checkedSub_of_le (by omega : c + 2 ≤ T)]
          simp only [Option.bind_eq_bind, Option.bind_some]
          rw [checkedSub_of_le (by omega : c + 2 - 1 ≤ T)]
          rfl

/-- The same step with every lag `d` ticks longer. -/
def ListenerStep.shift (d : Nat) : ListenerStep → ListenerStep
  | .single lag => .single (lag + d)
  | .merged olderLag newerLag => .merged (olderLag + d) (newerLag + d)
  | .skipped lag n => .skipped (lag + d) n

def ListenerStep.Within (bound : Nat) : ListenerStep → Prop
  | .single lag => lag < bound
  | .merged olderLag newerLag => olderLag < bound ∧ newerLag < bound
  | .skipped lag _ => lag < bound

@[simp] theorem stepCounts_shift (d : Nat) (step : ListenerStep) :
    MixGraph.stepCounts (step.shift d) = MixGraph.stepCounts step := by
  cases step <;> rfl

theorem nearStep_shift {n c d : Nat} (hc : c ≤ n) :
    nearStep (n + d) n c = ((nearStep n n c).1.shift d, (nearStep n n c).2) := by
  unfold nearStep
  by_cases hzero : n - c = 0
  · simp only [if_pos hzero, ListenerStep.shift]
    rw [Nat.sub_add_comm hc]
  · by_cases hone : n - c = 1
    · simp only [if_neg hzero, if_pos hone, ListenerStep.shift]
      rw [Nat.sub_add_comm (by omega : c + 1 ≤ n)]
    · by_cases hclose : n - c ≤ MAX_CATCHUP_TICKS
      · simp only [if_neg hzero, if_neg hone, if_pos hclose, ListenerStep.shift]
        rw [Nat.sub_add_comm (by omega : c + 1 ≤ n), Nat.sub_add_comm (by omega : c + 2 ≤ n)]
      · simp only [if_neg hzero, if_neg hone, if_neg hclose, ListenerStep.shift]
        rw [Nat.sub_add_comm (Nat.le_refl n)]

theorem nearStep_within (n c : Nat) : (nearStep n n c).1.Within MAX_CATCHUP_TICKS := by
  have hM : MAX_CATCHUP_TICKS = 8 := rfl
  unfold nearStep
  by_cases hzero : n - c = 0
  · simp only [if_pos hzero, ListenerStep.Within]
    omega
  · by_cases hone : n - c = 1
    · simp only [if_neg hzero, if_pos hone, ListenerStep.Within]
      omega
    · by_cases hclose : n - c ≤ MAX_CATCHUP_TICKS
      · simp only [if_neg hzero, if_neg hone, if_pos hclose, ListenerStep.Within]
        omega
      · simp only [if_neg hzero, if_neg hone, if_neg hclose, ListenerStep.Within]
        omega

/-- One tick more to hear moves the cursor further, except within a merge of two of several
trailing ticks, which is then the same step. -/
theorem nearStep_succ (T : Nat) {n c : Nat} (hc : c ≤ n) :
    if 2 ≤ n - c ∧ n - c < MAX_CATCHUP_TICKS then nearStep T (n + 1) c = nearStep T n c
    else (nearStep T (n + 1) c).2 ≠ (nearStep T n c).2 := by
  have hM : MAX_CATCHUP_TICKS = 8 := rfl
  unfold nearStep
  by_cases hmerge : 2 ≤ n - c ∧ n - c < MAX_CATCHUP_TICKS
  · rw [if_pos hmerge, if_neg (by omega), if_neg (by omega), if_pos (by omega), if_neg (by omega),
      if_neg (by omega), if_pos (by omega)]
  · rw [if_neg hmerge]
    by_cases hzero : n - c = 0
    · rw [if_neg (by omega), if_pos (by omega), if_pos hzero]
      exact Nat.succ_ne_self c
    · rw [if_neg hzero]
      by_cases hone : n - c = 1
      · rw [if_pos hone, if_neg (by omega), if_neg (by omega), if_pos (by omega)]
        exact Nat.succ_ne_self (c + 1)
      · rw [if_neg hone, if_neg (by omega), if_neg (by omega), if_neg (by omega)]
        split <;> dsimp only <;> omega

/-! ## Slots -/

namespace SourceSlot

variable {D : MixDsp}

variable (slot : SourceSlot D)

theorem count_count (m k m' k' : Nat) :
    (slot.count m k).count m' k' = slot.count (m + m') (k + k') := by
  simp only [count, Nat.add_assoc]

theorem ticks_count (m k run : Nat) : (slot.count m k).ticks run = (slot.ticks run).count m k := by
  induction run generalizing slot with
  | zero => rfl
  | succ run ih => exact ih slot.tick

theorem ticks_ticks (run more : Nat) : (slot.ticks run).ticks more = slot.ticks (run + more) := by
  induction run generalizing slot with
  | zero => rw [Nat.zero_add, ticks]
  | succ run ih =>
    rw [Nat.succ_add]
    exact ih slot.tick

theorem frameAtLag_tick {lag : Nat} (h : lag + 1 < HISTORY_TICKS) :
    slot.tick.frameAtLag (lag + 1) = slot.frameAtLag lag := by
  unfold frameAtLag tick
  by_cases hfull : slot.history.length = HISTORY_TICKS
  · rw [if_pos hfull]
    rw [checkedSub_of_le (by simp; omega), checkedSub_of_le (by omega)]
    simp only [Option.bind_some, List.length_append, List.length_tail, List.length_singleton]
    rw [List.getElem?_append_left (by rw [List.length_tail]; omega), List.getElem?_tail]
    congr 2
    omega
  · rw [if_neg hfull]
    by_cases hheld : 1 + lag ≤ slot.history.length
    · rw [checkedSub_of_le (by simp; omega), checkedSub_of_le hheld]
      simp only [Option.bind_some, List.length_append, List.length_singleton]
      rw [List.getElem?_append_left (by omega)]
      congr 2
      omega
    · unfold checkedSub
      rw [if_neg (by simp; omega), if_neg hheld]
      rfl

theorem frameAtLag_ticks {lag d : Nat} (h : lag + d < HISTORY_TICKS) :
    (slot.ticks d).frameAtLag (lag + d) = slot.frameAtLag lag := by
  induction d generalizing slot lag with
  | zero => rfl
  | succ d ih =>
    rw [ticks, show lag + (d + 1) = lag + 1 + d by omega, ih slot.tick (by omega)]
    exact slot.frameAtLag_tick (by omega)

end SourceSlot

namespace MixGraph

variable {D : MixDsp}

theorem rawFrame_shift (slot : SourceSlot D) {step : ListenerStep} {bound d : Nat}
    (h : step.Within bound) (hd : bound + d ≤ HISTORY_TICKS) :
    rawFrame (slot.ticks d) (step.shift d) = rawFrame slot step := by
  cases step with
  | single lag | skipped lag n =>
    have hlag : lag < bound := h
    exact slot.frameAtLag_ticks (by omega)
  | merged olderLag newerLag =>
    obtain ⟨holder, hnewer⟩ : olderLag < bound ∧ newerLag < bound := h
    show D.mergePair _ _ = D.mergePair _ _
    rw [slot.frameAtLag_ticks (by omega), slot.frameAtLag_ticks (by omega)]

/-! ## The graph after some renders -/

/-- The graph after `run` ticks from `clock`, with listener counts added to its sources and
the cursors set. -/
def played (g : MixGraph D) (clock : Instant) (run : Nat) (counts : ParticipantId → Nat × Nat)
    (cursors : ExtTreeMap ParticipantId Nat) : MixGraph D :=
  { g with
    clock := some (clock + TICK * run)
    inputs := g.inputs.map fun id slot => (slot.ticks run).count (counts id).1 (counts id).2
    tickCount := g.tickCount + run
    listenerTicks := cursors }

variable {g : MixGraph D} {clock : Instant}

theorem played_zero (h : g.clock = some clock) :
    g.played clock 0 (fun _ => (0, 0)) g.listenerTicks = g := by
  unfold played
  have hinputs : (g.inputs.map fun _ slot => (slot.ticks 0).count 0 0) = g.inputs :=
    ExtTreeMap.map_id
  rw [Nat.mul_zero, Nat.add_zero, ← h]
  exact congrArg (fun inputs => { g with inputs }) hinputs

variable {now : Instant}

section

variable (g)

theorem advanceTo_played (run : Nat) (counts : ParticipantId → Nat × Nat)
    (cursors : ExtTreeMap ParticipantId Nat) (hwindow : now ≤ clock + catchupWindow) :
    (g.played clock run counts cursors).advanceTo now =
      g.played clock (max run (elapsedTicks clock now)) counts cursors := by
  have hfrom : elapsedTicks (clock + TICK * run) now = elapsedTicks clock now - run := by
    rw [elapsedTicks_eq hwindow, elapsedTicks_eq (Nat.le_trans hwindow (by omega)),
      ← Nat.sub_sub, Nat.sub_mul_div]
  unfold advanceTo
  simp only [played]
  rw [hfrom]
  by_cases hdone : elapsedTicks clock now - run = 0
  · rw [if_pos hdone, Nat.max_eq_left (by omega)]
  · have hclose : elapsedTicks clock now ≤ MAX_CATCHUP_TICKS := by
      rw [elapsedTicks_eq hwindow]
      have hlate : now - clock ≤ TICK * MAX_CATCHUP_TICKS := Nat.sub_le_iff_le_add'.mpr hwindow
      exact Nat.div_le_of_le_mul hlate
    have hM : MAX_CATCHUP_TICKS = 8 := rfl
    have hclock : clock + TICK * run + TICK * asU32 (elapsedTicks clock now - run) =
        clock + TICK * elapsedTicks clock now := by
      rw [asU32_of_lt (by omega), Nat.add_assoc, ← Nat.mul_add, Nat.add_sub_cancel' (by omega)]
    have hcount : g.tickCount + run + (elapsedTicks clock now - run) =
        g.tickCount + elapsedTicks clock now := by omega
    have hslots : (fun (id : ParticipantId) (slot : SourceSlot D) =>
        ((slot.ticks run).count (counts id).1 (counts id).2).ticks
          (elapsedTicks clock now - run)) =
        fun id slot =>
          (slot.ticks (elapsedTicks clock now)).count (counts id).1 (counts id).2 := by
      funext id slot
      rw [SourceSlot.ticks_count, SourceSlot.ticks_ticks, Nat.add_sub_cancel' (by omega)]
    rw [if_neg hdone, if_neg (by omega), Nat.max_eq_right (by omega), ExtTreeMap.map_map, hslots]
    rw [hclock, hcount]

theorem newestTick_played {run : Nat} (counts : ParticipantId → Nat × Nat)
    (cursors : ExtTreeMap ParticipantId Nat) (hle : clock ≤ now)
    (hwindow : now ≤ clock + catchupWindow) (hrun : elapsedTicks clock now ≤ run)
    (hmax : run ≤ MAX_CATCHUP_TICKS) :
    (g.played clock run counts cursors).newestTick now =
      if elapsedTicks clock now < run ∧ LastMicro clock now then
        g.tickCount + elapsedTicks clock now + 1
      else g.tickCount + elapsedTicks clock now := by
  have hbehind := behind_eq hle hmax
  rw [← elapsedTicks_eq hwindow] at hbehind
  unfold newestTick
  simp only [played]
  rw [hbehind]
  by_cases hlast : LastMicro clock now
  · rw [if_pos hlast]
    by_cases hearly : elapsedTicks clock now < run
    · rw [if_pos ⟨hearly, hlast⟩]
      omega
    · rw [if_neg (fun h => hearly h.1)]
      omega
  · rw [if_neg hlast, if_neg (fun h => hlast h.2)]
    omega

/-! ## What a render mixes -/

/-- The sources a render counts: none when mixing is off. -/
def heardIds (g : MixGraph D) (listener : ParticipantId) : List ParticipantId :=
  if !g.mixingEnabled then [] else (g.heardSources listener).map Prod.fst

/-- The frame a listener hears for `step` after `run` more ticks. -/
def heardFrame (g : MixGraph D) (listener : ParticipantId) (run : Nat) (step : ListenerStep) :
    Frame :=
  if !g.mixingEnabled then silenceFrame
  else MixBus.mix ((g.heardSources listener).map fun entry =>
    g.panSourceForListener listener entry.1 (rawFrame (entry.2.ticks run) step))

/-- Adds what a step counts to each source it mixed. -/
def tally (counts : ParticipantId → Nat × Nat) (heard : List ParticipantId) (step : ListenerStep)
    (id : ParticipantId) : Nat × Nat :=
  if id ∈ heard then
    ((counts id).1 + (stepCounts step).1, (counts id).2 + (stepCounts step).2)
  else counts id

theorem heardSources_nodup (listener : ParticipantId) :
    ((g.heardSources listener).map Prod.fst).Nodup := by
  have hkeys : (g.inputs.toList.map Prod.fst).Nodup := by
    rw [ExtTreeMap.map_fst_toList_eq_keys]
    exact ExtTreeMap.nodup_keys
  exact hkeys.sublist (List.filter_sublist.map Prod.fst)

theorem heardSources_played (clock : Instant) (run : Nat) (counts : ParticipantId → Nat × Nat)
    (cursors : ExtTreeMap ParticipantId Nat) (listener : ParticipantId) :
    (g.played clock run counts cursors).heardSources listener =
      (g.heardSources listener).map fun entry =>
        (entry.1, (entry.2.ticks run).count (counts entry.1).1 (counts entry.1).2) := by
  unfold heardSources
  rw [show (g.played clock run counts cursors).inputs = g.inputs.map fun id slot =>
      (slot.ticks run).count (counts id).1 (counts id).2 from rfl,
    ExtTreeMap.toList_map, List.filter_map]
  rfl

theorem countHeard_played (clock : Instant) (run : Nat) (counts : ParticipantId → Nat × Nat)
    (cursors : ExtTreeMap ParticipantId Nat) {heard : List ParticipantId} (hnodup : heard.Nodup)
    (step : ListenerStep) :
    (g.played clock run counts cursors).countHeard heard step =
      g.played clock run (tally counts heard step) cursors := by
  have hinputs : heard.foldl (fun inputs id => inputs.modify id
        (·.count (stepCounts step).1 (stepCounts step).2))
        (g.played clock run counts cursors).inputs =
      (g.played clock run (tally counts heard step) cursors).inputs := by
    apply ExtTreeMap.ext_getElem?
    intro id
    rw [OrdMap.getElem?_foldl_modify hnodup]
    simp only [played, ExtTreeMap.getElem?_map, tally]
    split
    · rw [Option.map_map]
      congr 1
      funext slot
      exact SourceSlot.count_count ..
    · rfl
  unfold countHeard
  dsimp only
  by_cases hsome : 0 < (stepCounts step).1 + (stepCounts step).2
  · rw [if_pos hsome, hinputs]
    rfl
  · have hsame : tally counts heard step = counts := by
      funext id
      unfold tally
      rw [show (stepCounts step).1 = 0 by omega, show (stepCounts step).2 = 0 by omega]
      exact ite_self _
    rw [if_neg hsome, hsame]

end

variable {listener : ParticipantId}

theorem renderOutput_eq {t : MixGraph D} {call : ListenerRender}
    (h : (g.advanceTo now).nextListenerStep listener now = some (call, t)) :
    g.renderOutput listener now =
      some (t.heardFrame listener 0 call.step, t.countHeard (t.heardIds listener) call.step) := by
  unfold renderOutput render
  rw [h]
  unfold heardFrame heardIds
  simp only [Option.map_some]
  cases t.mixingEnabled with
  | true => rfl
  | false =>
    have hnone : t.countHeard [] call.step = t := by
      unfold countHeard
      dsimp only
      split <;> rfl
    simp only [Bool.not_false, if_true, hnone]

section

variable (g)

theorem heardFrame_played (clock : Instant) (run : Nat) (counts : ParticipantId → Nat × Nat)
    (cursors : ExtTreeMap ParticipantId Nat) (listener : ParticipantId) (step : ListenerStep) :
    (g.played clock run counts cursors).heardFrame listener 0 step =
      g.heardFrame listener run step := by
  unfold heardFrame
  rw [heardSources_played, List.map_map]
  rfl

theorem heardIds_played (clock : Instant) (run : Nat) (counts : ParticipantId → Nat × Nat)
    (cursors : ExtTreeMap ParticipantId Nat) (listener : ParticipantId) :
    (g.played clock run counts cursors).heardIds listener = g.heardIds listener := by
  unfold heardIds
  rw [heardSources_played, List.map_map]
  rfl

theorem heardIds_nodup (listener : ParticipantId) : (g.heardIds listener).Nodup := by
  unfold heardIds
  split
  · exact List.nodup_nil
  · exact g.heardSources_nodup listener

theorem renderOutput_played (run : Nat) (counts : ParticipantId → Nat × Nat)
    (cursors : ExtTreeMap ParticipantId Nat) (listener : ParticipantId)
    (hwindow : now ≤ clock + catchupWindow) {run' newest cursor : Nat}
    (hrun : max run (elapsedTicks clock now) = run')
    (hnewest : (g.played clock run' counts cursors).newestTick now = newest)
    (hcursor : cursors[listener]?.getD newest = cursor) (hc : cursor ≤ newest)
    (hn : newest ≤ g.tickCount + run') (hnear : g.tickCount + run' - newest ≤ MAX_CATCHUP_TICKS) :
    (g.played clock run counts cursors).renderOutput listener now =
      some (g.heardFrame listener run' (nearStep (g.tickCount + run') newest cursor).1,
        g.played clock run'
          (tally counts (g.heardIds listener) (nearStep (g.tickCount + run') newest cursor).1)
          (cursors.insert listener (nearStep (g.tickCount + run') newest cursor).2)) := by
  subst hcursor
  have hstep := listenerStepAt_near hc hn hnear
  have hnext : (g.played clock run' counts cursors).nextListenerStep listener now =
      some (⟨listener, g.tickCount + run', newest, cursors[listener]?.getD newest,
          (nearStep (g.tickCount + run') newest (cursors[listener]?.getD newest)).1,
          (nearStep (g.tickCount + run') newest (cursors[listener]?.getD newest)).2⟩,
        g.played clock run' counts (cursors.insert listener
          (nearStep (g.tickCount + run') newest (cursors[listener]?.getD newest)).2)) := by
    unfold nextListenerStep
    rw [hnewest]
    show Option.map _ (listenerStepAt (g.tickCount + run') newest (cursors[listener]?.getD newest))
      = _
    rw [hstep]
    rfl
  rw [← hrun] at hnext
  rw [← advanceTo_played g run counts cursors hwindow] at hnext
  rw [renderOutput_eq hnext, hrun, heardFrame_played, heardIds_played,
    countHeard_played _ _ _ _ _ (g.heardIds_nodup listener)]

end

/-! ## Two renders -/

/-- The frames of two renders, one after the other, and the graph they leave. -/
def renderPair (g : MixGraph D) (a : ParticipantId) (t₁ : Instant) (b : ParticipantId)
    (t₂ : Instant) : Option (Frame × Frame × MixGraph D) :=
  (g.renderOutput a t₁).bind fun first =>
    (first.2.renderOutput b t₂).map fun second => (first.1, second.1, second.2)

/-- Both orders of two renders are defined, give each listener the same frame and leave the
same graph. -/
def RendersCommute (g : MixGraph D) (a : ParticipantId) (t₁ : Instant) (b : ParticipantId)
    (t₂ : Instant) : Prop :=
  ∃ frameA frameB t, g.renderPair a t₁ b t₂ = some (frameA, frameB, t) ∧
    g.renderPair b t₂ a t₁ = some (frameB, frameA, t)

/-- A render that comes before the clock another render reaches is not in the last microsecond
of its tick, or its listener trails by two to seven ticks there. -/
def Settled (g : MixGraph D) (clock : Instant) (listener : ParticipantId) (now other : Instant) :
    Prop :=
  ¬ (elapsedTicks clock now < elapsedTicks clock other ∧ LastMicro clock now) ∨
    ∃ cursor, g.listenerTicks[listener]? = some cursor ∧
      2 ≤ g.tickCount + elapsedTicks clock now - cursor ∧
      g.tickCount + elapsedTicks clock now - cursor < MAX_CATCHUP_TICKS

/-- The listener step of a render at `now` that no other render was ahead of. -/
def firstMove (g : MixGraph D) (clock : Instant) (listener : ParticipantId) (now : Instant) :
    ListenerStep × Nat :=
  let newest := g.tickCount + elapsedTicks clock now
  nearStep newest newest (g.listenerTicks[listener]?.getD newest)

/-- The listener step of a render at `now` after a render of another listener at `other`. -/
def secondMove (g : MixGraph D) (clock : Instant) (listener : ParticipantId)
    (now other : Instant) : ListenerStep × Nat :=
  let newest :=
    if elapsedTicks clock now < elapsedTicks clock other ∧ LastMicro clock now then
      g.tickCount + elapsedTicks clock now + 1
    else g.tickCount + elapsedTicks clock now
  nearStep (g.tickCount + max (elapsedTicks clock other) (elapsedTicks clock now)) newest
    (g.listenerTicks[listener]?.getD newest)

theorem elapsedTicks_le (h : now ≤ clock + catchupWindow) :
    elapsedTicks clock now ≤ MAX_CATCHUP_TICKS := by
  rw [elapsedTicks_eq h]
  have hlate : now - clock ≤ TICK * MAX_CATCHUP_TICKS := Nat.sub_le_iff_le_add'.mpr h
  exact Nat.div_le_of_le_mul hlate

theorem CursorsBounded.getD_le (h : g.CursorsBounded) (listener : ParticipantId) {newest : Nat}
    (hn : g.tickCount ≤ newest) :
    g.listenerTicks[listener]?.getD newest ≤ newest := by
  cases hc : g.listenerTicks[listener]? with
  | none => exact Nat.le_refl _
  | some cursor => exact Nat.le_trans (h listener cursor hc) hn

theorem renderOutput_first (hg : g.CursorsBounded) (hclock : g.clock = some clock)
    (listener : ParticipantId) (hle : clock ≤ now) (hwindow : now ≤ clock + catchupWindow) :
    g.renderOutput listener now =
      some (g.heardFrame listener (elapsedTicks clock now) (g.firstMove clock listener now).1,
        g.played clock (elapsedTicks clock now)
          (tally (fun _ => (0, 0)) (g.heardIds listener) (g.firstMove clock listener now).1)
          (g.listenerTicks.insert listener (g.firstMove clock listener now).2)) := by
  have hclose := elapsedTicks_le hwindow
  have hnewest := newestTick_played g (fun _ => (0, 0)) g.listenerTicks hle hwindow
    (Nat.le_refl _) hclose
  rw [if_neg (fun h => Nat.lt_irrefl _ h.1)] at hnewest
  have hrender := g.renderOutput_played 0 _ _ listener hwindow (Nat.zero_max _) hnewest rfl
    (hg.getD_le listener (Nat.le_add_right _ _)) (Nat.le_refl _) (by omega)
  rw [played_zero hclock] at hrender
  exact hrender

variable {other : Instant}

theorem renderOutput_second (hg : g.CursorsBounded) (counts : ParticipantId → Nat × Nat)
    {cursors : ExtTreeMap ParticipantId Nat} (listener : ParticipantId)
    (hcursors : cursors[listener]? = g.listenerTicks[listener]?) (hle : clock ≤ now)
    (hwindow : now ≤ clock + catchupWindow) (hother : other ≤ clock + catchupWindow) :
    (g.played clock (elapsedTicks clock other) counts cursors).renderOutput listener now =
      some (g.heardFrame listener (max (elapsedTicks clock other) (elapsedTicks clock now))
          (g.secondMove clock listener now other).1,
        g.played clock (max (elapsedTicks clock other) (elapsedTicks clock now))
          (tally counts (g.heardIds listener) (g.secondMove clock listener now other).1)
          (cursors.insert listener (g.secondMove clock listener now other).2)) := by
  have hnow := elapsedTicks_le hwindow
  have hthen := elapsedTicks_le hother
  have hnewest := newestTick_played g counts cursors hle hwindow
    (Nat.le_max_right (elapsedTicks clock other) (elapsedTicks clock now))
    (Nat.max_le.mpr ⟨hthen, hnow⟩)
  have hearly : elapsedTicks clock now < max (elapsedTicks clock other) (elapsedTicks clock now) ↔
      elapsedTicks clock now < elapsedTicks clock other := by omega
  simp only [hearly] at hnewest
  have hrender := g.renderOutput_played (elapsedTicks clock other) counts cursors listener hwindow
    rfl hnewest (by rw [hcursors]) (hg.getD_le listener (by split <;> omega))
    (by split <;> omega) (by split <;> omega)
  exact hrender

theorem renderPair_eq (hg : g.CursorsBounded) (hclock : g.clock = some clock) {a b : ParticipantId}
    (hab : a ≠ b) {t₁ t₂ : Instant} (ht₁ : clock ≤ t₁) (hw₁ : t₁ ≤ clock + catchupWindow)
    (ht₂ : clock ≤ t₂) (hw₂ : t₂ ≤ clock + catchupWindow) :
    g.renderPair a t₁ b t₂ =
      some (g.heardFrame a (elapsedTicks clock t₁) (g.firstMove clock a t₁).1,
        g.heardFrame b (max (elapsedTicks clock t₁) (elapsedTicks clock t₂))
          (g.secondMove clock b t₂ t₁).1,
        g.played clock (max (elapsedTicks clock t₁) (elapsedTicks clock t₂))
          (tally (tally (fun _ => (0, 0)) (g.heardIds a) (g.firstMove clock a t₁).1)
            (g.heardIds b) (g.secondMove clock b t₂ t₁).1)
          ((g.listenerTicks.insert a (g.firstMove clock a t₁).2).insert b
            (g.secondMove clock b t₂ t₁).2)) := by
  have hcursors : (g.listenerTicks.insert a (g.firstMove clock a t₁).2)[b]? =
      g.listenerTicks[b]? := by
    rw [OrdMap.lookup_insert, if_neg hab.symm]
  unfold renderPair
  rw [renderOutput_first hg hclock a ht₁ hw₁, Option.bind_some,
    renderOutput_second hg _ b hcursors ht₂ hw₂ hw₁, Option.map_some]

/-! ## When the second render is the first -/

theorem Settled.secondMove (hg : g.CursorsBounded) (h : g.Settled clock listener now other) :
    g.secondMove clock listener now other =
      ((g.firstMove clock listener now).1.shift
          (max (elapsedTicks clock other) (elapsedTicks clock now) - elapsedTicks clock now),
        (g.firstMove clock listener now).2) := by
  have hclock : g.tickCount + max (elapsedTicks clock other) (elapsedTicks clock now) =
      g.tickCount + elapsedTicks clock now +
        (max (elapsedTicks clock other) (elapsedTicks clock now) - elapsedTicks clock now) := by
    omega
  have hsame : ∀ cursor, g.listenerTicks[listener]?.getD (g.tickCount + elapsedTicks clock now) =
      cursor → nearStep (g.tickCount + max (elapsedTicks clock other) (elapsedTicks clock now))
        (g.tickCount + elapsedTicks clock now) cursor = _ := fun cursor hc => by
    rw [hclock, nearStep_shift (hc ▸ hg.getD_le listener (Nat.le_add_right _ _))]
  unfold MixGraph.secondMove firstMove
  dsimp only
  by_cases hearly : elapsedTicks clock now < elapsedTicks clock other ∧ LastMicro clock now
  · rcases h with hnot | ⟨cursor, hcursor, htrail⟩
    · exact absurd hearly hnot
    · have hsucc := nearStep_succ
        (g.tickCount + max (elapsedTicks clock other) (elapsedTicks clock now))
        (show cursor ≤ g.tickCount + elapsedTicks clock now by omega)
      rw [if_pos htrail] at hsucc
      rw [if_pos hearly, hcursor, Option.getD_some, hsucc]
      exact hsame cursor (by rw [hcursor, Option.getD_some])
  · rw [if_neg hearly]
    exact hsame _ rfl

theorem secondMove_ne_of_not_settled (hg : g.CursorsBounded)
    (h : ¬ g.Settled clock listener now other) :
    (g.secondMove clock listener now other).2 ≠ (g.firstMove clock listener now).2 := by
  obtain ⟨hearly, hfar⟩ := not_or.mp h
  have hclock : g.tickCount + max (elapsedTicks clock other) (elapsedTicks clock now) =
      g.tickCount + elapsedTicks clock now +
        (max (elapsedTicks clock other) (elapsedTicks clock now) - elapsedTicks clock now) := by
    omega
  unfold secondMove firstMove
  rw [if_pos (not_not.mp hearly)]
  cases hcursor : g.listenerTicks[listener]? with
  | none =>
    simp only [Option.getD_none, nearStep, Nat.sub_self]
    exact Nat.succ_ne_self _
  | some cursor =>
    have hle : cursor ≤ g.tickCount + elapsedTicks clock now :=
      Nat.le_trans (hg listener cursor hcursor) (Nat.le_add_right _ _)
    have hsucc := nearStep_succ
      (g.tickCount + max (elapsedTicks clock other) (elapsedTicks clock now)) hle
    rw [if_neg (fun htrail => hfar ⟨cursor, hcursor, htrail⟩)] at hsucc
    rw [hclock, nearStep_shift hle, ← hclock] at hsucc
    exact hsucc

theorem heardFrame_shift (g : MixGraph D) (listener : ParticipantId) {run run' : Nat}
    {step : ListenerStep} (h : step.Within MAX_CATCHUP_TICKS) (hle : run ≤ run')
    (hmax : run' ≤ MAX_CATCHUP_TICKS) :
    g.heardFrame listener run' (step.shift (run' - run)) = g.heardFrame listener run step := by
  have hT : HISTORY_TICKS = 2 * MAX_CATCHUP_TICKS + 2 := rfl
  have hraw : ∀ entry : ParticipantId × SourceSlot D,
      rawFrame (entry.2.ticks run') (step.shift (run' - run)) =
        rawFrame (entry.2.ticks run) step := fun entry => by
    rw [← Nat.add_sub_cancel' hle, ← SourceSlot.ticks_ticks, Nat.add_sub_cancel_left]
    exact rawFrame_shift _ h (by omega)
  unfold heardFrame
  simp only [hraw]

theorem tally_comm (counts : ParticipantId → Nat × Nat) (heardA heardB : List ParticipantId)
    (stepA stepB : ListenerStep) :
    tally (tally counts heardA stepA) heardB stepB =
      tally (tally counts heardB stepB) heardA stepA := by
  funext id
  unfold tally
  by_cases ha : id ∈ heardA
  · by_cases hb : id ∈ heardB
    · simp only [if_pos ha, if_pos hb, Nat.add_right_comm]
    · simp only [if_neg hb]
  · by_cases hb : id ∈ heardB
    · simp only [if_neg ha]
    · simp only [if_neg hb]

theorem tally_shift (counts : ParticipantId → Nat × Nat) (heard : List ParticipantId)
    (step : ListenerStep) (d : Nat) : tally counts heard (step.shift d) = tally counts heard step := by
  unfold tally
  rw [stepCounts_shift]

theorem rendersCommute_iff (hg : g.CursorsBounded) (hclock : g.clock = some clock)
    {a b : ParticipantId} (hab : a ≠ b) {t₁ t₂ : Instant}
    (ht₁ : clock ≤ t₁ ∧ t₁ ≤ clock + catchupWindow) (ht₂ : clock ≤ t₂ ∧ t₂ ≤ clock + catchupWindow)
    :
    g.RendersCommute a t₁ b t₂ ↔ g.Settled clock a t₁ t₂ ∧ g.Settled clock b t₂ t₁ := by
  obtain ⟨hle₁, hw₁⟩ := ht₁
  obtain ⟨hle₂, hw₂⟩ := ht₂
  have hmax : max (elapsedTicks clock t₁) (elapsedTicks clock t₂) ≤ MAX_CATCHUP_TICKS :=
    Nat.max_le.mpr ⟨elapsedTicks_le hw₁, elapsedTicks_le hw₂⟩
  have hcomm : max (elapsedTicks clock t₂) (elapsedTicks clock t₁) =
      max (elapsedTicks clock t₁) (elapsedTicks clock t₂) := Nat.max_comm ..
  unfold RendersCommute
  rw [renderPair_eq hg hclock hab hle₁ hw₁ hle₂ hw₂,
    renderPair_eq hg hclock hab.symm hle₂ hw₂ hle₁ hw₁]
  constructor
  · intro h
    obtain ⟨frameA, frameB, t, hforth, hback⟩ := h
    simp only [Option.some.injEq, Prod.mk.injEq] at hforth hback
    have hticks := congrArg MixGraph.listenerTicks (hforth.2.2.trans hback.2.2.symm)
    simp only [played] at hticks
    have ha := congrArg (fun ticks : ExtTreeMap ParticipantId Nat => ticks[a]?) hticks
    have hb := congrArg (fun ticks : ExtTreeMap ParticipantId Nat => ticks[b]?) hticks
    simp only [OrdMap.lookup_insert, if_pos, if_neg hab, if_neg hab.symm,
      Option.some.injEq] at ha hb
    constructor
    · exact not_not.mp fun hnot => secondMove_ne_of_not_settled hg hnot ha.symm
    · exact not_not.mp fun hnot => secondMove_ne_of_not_settled hg hnot hb
  · intro h
    obtain ⟨ha, hb⟩ := h
    have hwithin : ∀ listener now, (g.firstMove clock listener now).1.Within MAX_CATCHUP_TICKS :=
      fun listener now => nearStep_within _ _
    have hcursors : (g.listenerTicks.insert b (g.firstMove clock b t₂).2).insert a
          (g.firstMove clock a t₁).2 =
        (g.listenerTicks.insert a (g.firstMove clock a t₁).2).insert b
          (g.firstMove clock b t₂).2 := by
      apply ExtTreeMap.ext_getElem?
      intro id
      simp only [OrdMap.lookup_insert]
      by_cases hida : id = a
      · rw [if_pos hida, if_neg (fun hidb => hab (hida.symm.trans hidb)), if_pos hida]
      · rw [if_neg hida, if_neg hida]
    rw [ha.secondMove hg, hb.secondMove hg, hcomm]
    rw [g.heardFrame_shift a (hwithin a t₁) (Nat.le_max_left ..) hmax,
      g.heardFrame_shift b (hwithin b t₂) (Nat.le_max_right ..) hmax,
      tally_shift, tally_shift, hcursors, tally_comm]
    exact ⟨_, _, _, rfl, rfl⟩

/-- From any state a run reaches with its clock set, two listeners may render inside the
catch-up window in either order exactly when neither render comes before the clock in the last
microsecond of its tick, unless its listener trails by two to seven ticks. -/
theorem renders_commute_iff {ops : List (MixOp D)} {g : MixGraph D} {out : List Rendered}
    (hrun : Machine.run step (MixGraph.new D) ops = some (g, out)) {clock : Instant}
    (hclock : g.clock = some clock) {a b : ParticipantId} (hab : a ≠ b) {t₁ t₂ : Instant}
    (ht₁ : clock ≤ t₁ ∧ t₁ ≤ clock + catchupWindow) (ht₂ : clock ≤ t₂ ∧ t₂ ≤ clock + catchupWindow) :
    g.RendersCommute a t₁ b t₂ ↔ g.Settled clock a t₁ t₂ ∧ g.Settled clock b t₂ t₁ :=
  rendersCommute_iff (new_cursorsBounded.run hrun) hclock hab ht₁ ht₂

/-- Renders 14 ms apart, the later slot first. -/
theorem renders_commute_iff_phases :
    ((new silentDsp).pushFrameAt "speaker" silenceFrame 0).RendersCommute
        "s" (fromMillis 34) "l" (fromMillis 20) ↔
      ((new silentDsp).pushFrameAt "speaker" silenceFrame 0).Settled
          0 "s" (fromMillis 34) (fromMillis 20) ∧
        ((new silentDsp).pushFrameAt "speaker" silenceFrame 0).Settled
          0 "l" (fromMillis 20) (fromMillis 34) :=
  renders_commute_iff
    (show Machine.run step (new silentDsp) [.pushFrameAt "speaker" silenceFrame 0] =
      some (_, []) from rfl)
    rfl (by decide) (by decide) (by decide)

/-- A render one nanosecond before the tick the other listener rendered hears that tick. -/
theorem renders_do_not_commute_before_tick :
    ∃ g out, Machine.run step (new silentDsp) [.pushFrameAt "speaker" silenceFrame 0] =
        some (g, out) ∧ g.clock = some 0 ∧
      ¬ g.RendersCommute "a" (fromMillis 20) "b" (fromMillis 20 - 1) := by
  have hbounded : ((new silentDsp).pushFrameAt "speaker" silenceFrame 0).CursorsBounded :=
    new_cursorsBounded.control (.pushFrameAt "speaker" silenceFrame 0)
  refine ⟨(new silentDsp).pushFrameAt "speaker" silenceFrame 0, [], rfl, rfl, fun h => ?_⟩
  obtain ⟨-, hnot | ⟨cursor, hcursor, -⟩⟩ :=
    (rendersCommute_iff hbounded rfl (by decide) (by decide) (by decide)).mp h
  · exact hnot (by decide)
  · simp [pushFrameAt, new] at hcursor

end MixGraph

end NodeWebrtc.Mixer
