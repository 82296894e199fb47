import NodeWebrtc.Mixer.Ops

/-! # Listener accounting

Every render moves one listener's cursor over the ticks of the media clock. The cases of
one listener step are stated once; from them, every tick the cursor passes is heard once
or counted once as skipped, at every point of every run, and no subtraction of the step
underflows.
-/

namespace NodeWebrtc.Mixer

open Std

/-! ## One listener step -/

/-- The cases of a listener step at tick count `T` for newest tick `n` and cursor `c`. -/
inductive ListenerStepSpec (T n c : Nat) : ListenerStep → Nat → Prop
  | replay : n ≤ c → ListenerStepSpec T n c (.single (T - c)) c
  | next : n = c + 1 → T - (c + 1) < HISTORY_TICKS →
      ListenerStepSpec T n c (.single (T - (c + 1))) (c + 1)
  | merge : c + 2 ≤ n → T - (c + 1) < HISTORY_TICKS →
      ListenerStepSpec T n c (.merged (T - (c + 1)) (T - (c + 2))) (c + 2)
  | jump (landing : Nat) : c < landing → landing ≤ n → T - landing < HISTORY_TICKS →
      ListenerStepSpec T n c (.skipped (T - landing) (landing - c - 1)) landing
  | lost : c < n → HISTORY_TICKS ≤ T - n → ListenerStepSpec T n c (.skipped (T - n) (n - c)) n

/-- With the cursor and the newest tick inside the clock, no subtraction of the step
underflows and the step is one of the five cases. -/
theorem listenerStepAt_spec {T n c : Nat} (hc : c ≤ T) (hn : n ≤ T) :
    ∃ step after, listenerStepAt T n c = some (step, after) ∧ ListenerStepSpec T n c step after := by
  have hT : HISTORY_TICKS = 18 := rfl
  have hM : MAX_CATCHUP_TICKS = 8 := rfl
  unfold listenerStepAt
  by_cases hgone : n - c > 0 ∧ c + 1 < T - (HISTORY_TICKS - 1)
  · simp only [if_pos hgone]
    by_cases hlost : n < T - (HISTORY_TICKS - 1)
    · rw [if_pos hlost, checkedSub_of_le hn]
      exact ⟨_, _, rfl, .lost (by omega) (by omega)⟩
    · rw [if_neg hlost, checkedSub_of_le (by omega : T - (HISTORY_TICKS - 1) ≤ n)]
      simp only [Option.bind_eq_bind, Option.bind_some]
      by_cases hroom : n - (T - (HISTORY_TICKS - 1)) ≥ MAX_CATCHUP_TICKS
      · rw [if_pos hroom, checkedSub_of_le (by omega : 1 ≤ n - c), checkedSub_of_le hn]
        exact ⟨_, _, rfl, .jump n (by omega) (by omega) (by omega)⟩
      · rw [if_neg hroom, checkedSub_of_le (by omega : c ≤ T - (HISTORY_TICKS - 1)),
          checkedSub_of_le (by omega : T - (HISTORY_TICKS - 1) ≤ T)]
        simp only [Option.bind_some]
        rw [checkedSub_of_le (by omega : 1 ≤ T - (HISTORY_TICKS - 1) - c)]
        exact ⟨_, _, rfl, .jump _ (by omega) (by omega) (by omega)⟩
  · rw [if_neg hgone]
    by_cases hclose : n - c ≤ 1
    · rw [if_pos hclose]
      by_cases hone : n - c = 1
      · rw [if_pos hone]
        dsimp only
        rw [checkedSub_of_le (by omega : c + 1 ≤ T)]
        exact ⟨_, _, rfl, .next (by omega) (by omega)⟩
      · rw [if_neg hone]
        dsimp only
        rw [checkedSub_of_le hc]
        exact ⟨_, _, rfl, .replay (by omega)⟩
    · rw [if_neg hclose]
      by_cases hfar : n - c > MAX_CATCHUP_TICKS
      · rw [if_pos hfar, checkedSub_of_le (by omega : 1 ≤ n - c), checkedSub_of_le hn]
        exact ⟨_, _, rfl, .jump n (by omega) (by omega) (by omega)⟩
      · rw [if_neg hfar]
        dsimp only
        rw [checkedSub_of_le (by omega : 1 ≤ c + 2), checkedSub_of_le (by omega : c + 2 ≤ T)]
        simp only [Option.bind_eq_bind, Option.bind_some]
        rw [checkedSub_of_le (by omega : c + 2 - 1 ≤ T)]
        exact ⟨_, _, rfl, .merge (by omega) (by omega)⟩

theorem ListenerStepSpec.cursor_le {T n c : Nat} {step : ListenerStep} {after : Nat}
    (h : ListenerStepSpec T n c step after) : c ≤ after ∧ (after = c ∨ after ≤ n) := by
  cases h <;> omega

/-! ## What one render hears -/

namespace ListenerRender

/-- The ticks whose frames the render reads from the history. -/
def played (r : ListenerRender) : List Nat :=
  match r.step with
  | .single lag | .skipped lag _ => if lag < HISTORY_TICKS then [r.tickCount - lag] else []
  | .merged olderLag newerLag => [r.tickCount - olderLag, r.tickCount - newerLag]

/-- The ticks newly heard: the tick of a single step that advances, both ticks of a merged
step, the landing tick of a skip that the history still holds. -/
def heard (r : ListenerRender) : List Nat :=
  match r.step with
  | .single lag => if r.before < r.after then [r.tickCount - lag] else []
  | .merged olderLag newerLag => [r.tickCount - olderLag, r.tickCount - newerLag]
  | .skipped lag _ => if lag < HISTORY_TICKS then [r.tickCount - lag] else []

def passed (r : ListenerRender) : List Nat := List.range' (r.before + 1) (r.after - r.before)

/-- The ticks the cursor moves over without hearing them. -/
def missed (r : ListenerRender) : List Nat := r.passed.filter (· ∉ r.heard)

def skippedCount (r : ListenerRender) : Nat := (MixGraph.stepCounts r.step).2

/-- The call is one of the cases of a listener step, inside the clock. -/
structure Lawful (r : ListenerRender) : Prop where
  spec : ListenerStepSpec r.tickCount r.newest r.before r.step r.after
  before_le : r.before ≤ r.tickCount
  newest_le : r.newest ≤ r.tickCount

variable {r : ListenerRender}

theorem mem_passed {t : Nat} (h : r.before ≤ r.after) :
    t ∈ r.passed ↔ r.before < t ∧ t ≤ r.after := by
  simp only [passed, List.mem_range'_1]
  omega

section

variable (h : r.Lawful)
include h

theorem Lawful.after_le : r.after ≤ r.tickCount := by
  obtain ⟨hspec, hb, hn⟩ := h
  have := hspec.cursor_le
  omega

theorem Lawful.heard_spec :
    r.heard.Pairwise (· < ·) ∧ (∀ t ∈ r.heard, r.before < t ∧ t ≤ r.after) ∧
      ∀ t ∈ r.heard, r.tickCount - t < HISTORY_TICKS := by
  obtain ⟨hspec, hb, hn⟩ := h
  obtain ⟨listener, T, n, c, step, c'⟩ := r
  dsimp only at hspec hb hn
  cases hspec with
  | replay hle => simp [heard]
  | next hnext hheld =>
    have hback : T - (T - (c + 1)) = c + 1 := by omega
    simp [heard, hback, hheld]
  | merge hle hheld =>
    have hold : T - (T - (c + 1)) = c + 1 := by omega
    have hnew : T - (T - (c + 2)) = c + 2 := by omega
    simp only [heard, hold, hnew, List.pairwise_cons, List.mem_cons, List.not_mem_nil,
      or_false, forall_eq_or_imp, forall_eq]
    refine ⟨⟨by omega, by simp, List.Pairwise.nil⟩, ⟨by omega, by omega⟩, hheld, by omega⟩
  | jump _ hlt hle hheld =>
    have hback : T - (T - c') = c' := by omega
    simp [heard, hback, hheld, hlt]
  | lost hlt hgone =>
    have hnot : ¬ T - n < HISTORY_TICKS := by omega
    simp [heard, hnot]

theorem Lawful.partition : (r.heard ++ r.missed).Perm r.passed := by
  obtain ⟨hsorted, hrange, _⟩ := h.heard_spec
  have hle := h.spec.cursor_le.1
  have hheard : r.heard.Perm (r.passed.filter (· ∈ r.heard)) := by
    apply (List.perm_ext_iff_of_nodup _ _).mpr
    · intro t
      simp only [List.mem_filter, mem_passed hle, decide_eq_true_eq]
      exact ⟨fun ht => ⟨hrange t ht, ht⟩, fun ht => ht.2⟩
    · exact hsorted.imp Nat.ne_of_lt
    · exact (List.nodup_range' ..).filter _
  have hsplit := List.filter_append_perm (fun t => decide (t ∈ r.heard)) r.passed
  have hmissed : r.missed = r.passed.filter (fun t => !decide (t ∈ r.heard)) := by
    simp [missed, decide_not]
  rw [hmissed]
  exact (hheard.append_right _).trans hsplit

theorem Lawful.missed_length : r.missed.length = r.skippedCount := by
  have hlen := h.partition.length_eq
  obtain ⟨hspec, hb, hn⟩ := h
  obtain ⟨listener, T, n, c, step, c'⟩ := r
  dsimp only at hspec hb hn
  rw [List.length_append] at hlen
  cases hspec with
  | replay hle | next hnext hheld | merge hle hheld =>
    simp_all [heard, passed, skippedCount, MixGraph.stepCounts]
  | jump landing hlt hle hheld =>
    simp only [heard, hheld, if_true, passed, List.length_range', List.length_singleton] at hlen
    simp only [skippedCount, MixGraph.stepCounts]
    omega
  | lost hlt hgone =>
    have hnot : ¬ T - n < HISTORY_TICKS := by omega
    simp only [heard, hnot, if_false, passed, List.length_range', List.length_nil] at hlen
    simp only [skippedCount, MixGraph.stepCounts]
    omega

/-- A render that plays a tick at or before its cursor is a single step with nothing
trailing, and the tick is the one under the cursor. -/
theorem Lawful.replay_spec {t : Nat} (ht : t ∈ r.played) :
    t ∈ r.heard ∨ t = r.before ∧ (∃ lag, r.step = .single lag) ∧ r.newest - r.before = 0 := by
  obtain ⟨hspec, hb, hn⟩ := h
  obtain ⟨listener, T, n, c, step, c'⟩ := r
  dsimp only at hspec hb hn
  cases hspec with
  | replay hle =>
    right
    have hback : T - (T - c) = c := by omega
    simp only [played] at ht
    split at ht
    · simp only [hback, List.mem_singleton] at ht
      exact ⟨ht, ⟨_, rfl⟩, by dsimp only; omega⟩
    · simp at ht
  | next hnext hheld =>
    left
    simpa [heard, played, hheld] using ht
  | merge | jump | lost => exact .inl ht

theorem Lawful.played_le {t : Nat} (ht : t ∈ r.played) : t ≤ r.after := by
  have hle := h.spec.cursor_le.1
  rcases h.replay_spec ht with hnew | hold
  · exact (h.heard_spec.2.1 t hnew).2
  · omega

theorem Lawful.replayed {t : Nat} (ht : t ∈ r.played) (hb : t ≤ r.before) :
    (∃ lag, r.step = .single lag) ∧ r.newest - r.before = 0 := by
  rcases h.replay_spec ht with hnew | hold
  · have := (h.heard_spec.2.1 t hnew).1
    omega
  · exact hold.2

end

end ListenerRender

/-! ## The account of a sequence of renders -/

/-- The ticks newly heard over `calls`, in order. -/
def heardTicks (calls : List ListenerRender) : List Nat := calls.flatMap ListenerRender.heard

/-- The ticks passed without being heard over `calls`, in order. -/
def missedTicks (calls : List ListenerRender) : List Nat := calls.flatMap ListenerRender.missed

/-- The account of `calls` that moved a cursor from `c₀` to `c`. -/
structure TicksAccounted (calls : List ListenerRender) (c₀ c : Nat) : Prop where
  cursor_le : c₀ ≤ c
  /-- Every tick of `(c₀, c]` is heard once or missed once. -/
  partition : (heardTicks calls ++ missedTicks calls).Perm (List.range' (c₀ + 1) (c - c₀))
  /-- The missed ticks of a call are counted in its `skipped`. -/
  counted : ∀ r ∈ calls, r.missed.length = r.skippedCount
  increasing : (heardTicks calls).Pairwise (· < ·)
  held : ∀ r ∈ calls, ∀ t ∈ r.heard, t ≤ r.tickCount ∧ r.tickCount - t < HISTORY_TICKS
  played_le : ∀ r ∈ calls, ∀ t ∈ r.played, t ≤ c
  /-- Only a single step with nothing trailing plays a tick of an earlier call again. -/
  replayed : ∀ earlier r later, calls = earlier ++ r :: later → ∀ s ∈ earlier,
    ∀ t ∈ s.played, t ∈ r.played → (∃ lag, r.step = .single lag) ∧ r.newest - r.before = 0

theorem TicksAccounted.nil (c : Nat) : TicksAccounted [] c c where
  cursor_le := Nat.le_refl c
  partition := by simp [heardTicks, missedTicks]
  counted := by simp
  increasing := by simp [heardTicks]
  held := by simp
  played_le := by simp
  replayed := by simp

theorem TicksAccounted.snoc {calls : List ListenerRender} {r : ListenerRender} {c₀ : Nat}
    (h : TicksAccounted calls c₀ r.before) (hr : r.Lawful) :
    TicksAccounted (calls ++ [r]) c₀ r.after := by
  have hle := hr.spec.cursor_le.1
  have h₀ := h.cursor_le
  have hbefore : ∀ t ∈ heardTicks calls, t ≤ r.before := by
    intro t ht
    have hmem := h.partition.mem_iff.mp (List.mem_append_left _ ht)
    rw [List.mem_range'_1] at hmem
    omega
  obtain ⟨hsorted, hrange, hheld⟩ := hr.heard_spec
  refine ⟨by omega, ?_, ?_, ?_, ?_, ?_, ?_⟩
  · have hjoin : List.range' (c₀ + 1) (r.after - c₀) =
        List.range' (c₀ + 1) (r.before - c₀) ++ r.passed := by
      have hstart : r.before + 1 = c₀ + 1 + 1 * (r.before - c₀) := by omega
      have hlen : r.after - c₀ = r.before - c₀ + (r.after - r.before) := by omega
      rw [ListenerRender.passed, hstart, List.range'_append, hlen]
    have hswap : (heardTicks (calls ++ [r]) ++ missedTicks (calls ++ [r])).Perm
        (heardTicks calls ++ missedTicks calls ++ (r.heard ++ r.missed)) := by
      simp only [heardTicks, missedTicks, List.flatMap_append, List.flatMap_singleton,
        List.append_assoc]
      apply List.Perm.append_left
      rw [← List.append_assoc, ← List.append_assoc]
      exact List.perm_append_comm.append_right _
    rw [hjoin]
    exact hswap.trans (h.partition.append hr.partition)
  · intro s hs
    rcases List.mem_append.mp hs with hs | hs
    · exact h.counted s hs
    · rw [List.mem_singleton.mp hs]
      exact hr.missed_length
  · simp only [heardTicks, List.flatMap_append, List.flatMap_singleton]
    refine List.pairwise_append.mpr ⟨h.increasing, hsorted, ?_⟩
    intro a ha b hb
    have := hbefore a ha
    have := (hrange b hb).1
    omega
  · intro s hs t ht
    rcases List.mem_append.mp hs with hs | hs
    · exact h.held s hs t ht
    · rw [List.mem_singleton.mp hs] at ht ⊢
      have := (hrange t ht).2
      exact ⟨Nat.le_trans this hr.after_le, hheld t ht⟩
  · intro s hs t ht
    rcases List.mem_append.mp hs with hs | hs
    · exact Nat.le_trans (h.played_le s hs t ht) hle
    · rw [List.mem_singleton.mp hs] at ht
      exact hr.played_le ht
  · intro earlier s later heq q hq t htq hts
    rcases List.append_eq_append_iff.mp heq with ⟨mid, hearlier, hmid⟩ | ⟨mid, hcalls, hmid⟩
    · cases mid with
      | nil =>
        simp only [List.append_nil, List.nil_append, List.cons.injEq] at hearlier hmid
        obtain ⟨rfl, -⟩ := hmid
        rw [hearlier] at hq
        exact hr.replayed hts (h.played_le q hq t htq)
      | cons m mid => simp at hmid
    · cases mid with
      | nil =>
        simp only [List.append_nil, List.nil_append, List.cons.injEq] at hcalls hmid
        obtain ⟨rfl, -⟩ := hmid
        rw [← hcalls] at hq
        exact hr.replayed hts (h.played_le q hq t htq)
      | cons m mid =>
        simp only [List.cons_append, List.cons.injEq] at hmid
        obtain ⟨rfl, -⟩ := hmid
        exact h.replayed earlier s mid hcalls q hq t htq hts

/-! ## Cursors and the clock across operations -/

namespace MixGraph

variable {D : MixDsp}

def CursorsBounded (g : MixGraph D) : Prop :=
  ∀ (l : ParticipantId) (c : Nat), g.listenerTicks[l]? = some c → c ≤ g.tickCount

variable {g t : MixGraph D}

theorem OnlyRouting.listenerTicks (h : g.OnlyRouting t) : t.listenerTicks = g.listenerTicks := by
  rw [h]

theorem OnlyRouting.tickCount (h : g.OnlyRouting t) : t.tickCount = g.tickCount := by
  rw [h]

theorem advanceTo_listenerTicks (g : MixGraph D) (now : Instant) :
    (g.advanceTo now).listenerTicks = g.listenerTicks := by
  unfold advanceTo
  cases g.clock with
  | none => rfl
  | some clock =>
    dsimp only
    split <;> rfl

theorem advanceTo_tickCount_le (g : MixGraph D) (now : Instant) :
    g.tickCount ≤ (g.advanceTo now).tickCount := by
  unfold advanceTo
  cases g.clock with
  | none => exact Nat.le_refl _
  | some clock =>
    dsimp only
    split
    · exact Nat.le_refl _
    · exact Nat.le_add_right _ _

/-- A control operation keeps the clock from running back, drops no cursor but that of a
removed input, and moves none. -/
theorem control_cursors (g : MixGraph D) (op : MixOp D) :
    g.tickCount ≤ (g.control op).tickCount ∧
      ((g.control op).listenerTicks = g.listenerTicks ∨
        ∃ id, op = .removeInput id ∧ (g.control op).listenerTicks = g.listenerTicks.erase id) := by
  cases op with
  | removeInput id =>
    have h := g.removeInput_onlyRouting id
    exact ⟨Nat.le_of_eq h.tickCount.symm, .inr ⟨id, rfl, h.listenerTicks⟩⟩
  | setGlobalMute target muted =>
    unfold control setGlobalMute
    dsimp only
    split <;> exact ⟨Nat.le_refl _, .inl rfl⟩
  | setListenerMute listener target muted =>
    unfold control setListenerMute
    dsimp only
    split <;> exact ⟨Nat.le_refl _, .inl rfl⟩
  | setListenerSources listener sources =>
    have h := g.setListenerSources_onlyRouting listener sources
    exact ⟨Nat.le_of_eq h.tickCount.symm, .inl h.listenerTicks⟩
  | setGroupMembers groupId members =>
    have h := g.setGroupMembers_onlyRouting groupId members
    exact ⟨Nat.le_of_eq h.tickCount.symm, .inl h.listenerTicks⟩
  | moveToGroup id groupId =>
    have h := g.moveToGroup_onlyRouting id groupId
    exact ⟨Nat.le_of_eq h.tickCount.symm, .inl h.listenerTicks⟩
  | removeFromGroup id =>
    have h := g.removeFromGroup_onlyRouting id
    exact ⟨Nat.le_of_eq h.tickCount.symm, .inl h.listenerTicks⟩
  | advanceTo now => exact ⟨g.advanceTo_tickCount_le now, .inl (g.advanceTo_listenerTicks now)⟩
  | _ => exact ⟨Nat.le_refl _, .inl rfl⟩

theorem CursorsBounded.control (h : g.CursorsBounded) (op : MixOp D) :
    (g.control op).CursorsBounded := by
  obtain ⟨hclock, hsame | ⟨id, -, herase⟩⟩ := g.control_cursors op
  · intro l c hc
    rw [hsame] at hc
    exact Nat.le_trans (h l c hc) hclock
  · intro l c hc
    rw [herase, OrdMap.lookup_erase] at hc
    split at hc
    · simp at hc
    · exact Nat.le_trans (h l c hc) hclock

theorem countHeard_cursors (g : MixGraph D) (heard : List ParticipantId) (step : ListenerStep) :
    (g.countHeard heard step).listenerTicks = g.listenerTicks ∧
      (g.countHeard heard step).tickCount = g.tickCount := by
  unfold countHeard
  dsimp only
  split <;> exact ⟨rfl, rfl⟩

/-- With every cursor inside the clock a render is defined: its call starts at the
listener's cursor (at the newest tick when there is none), is lawful, and leaves the
listener's cursor where it ends. -/
theorem render_spec (h : g.CursorsBounded) (listener : ParticipantId) (now : Instant) :
    ∃ rendered t, g.render listener now = some (rendered, t) ∧
      rendered.call.listener = listener ∧ rendered.call.Lawful ∧
      rendered.call.before = g.listenerTicks[listener]?.getD rendered.call.newest ∧
      t.listenerTicks = g.listenerTicks.insert listener rendered.call.after ∧
      g.tickCount ≤ t.tickCount ∧ rendered.call.tickCount = t.tickCount := by
  have hclock := g.advanceTo_tickCount_le now
  have hticks := g.advanceTo_listenerTicks now
  have hnewest : (g.advanceTo now).newestTick now ≤ (g.advanceTo now).tickCount :=
    Nat.sub_le _ _
  have hbefore : g.listenerTicks[listener]?.getD ((g.advanceTo now).newestTick now) ≤
      (g.advanceTo now).tickCount := by
    cases hc : g.listenerTicks[listener]? with
    | none => exact hnewest
    | some c => exact Nat.le_trans (h listener c hc) hclock
  obtain ⟨step, after, hstep, hspec⟩ := listenerStepAt_spec hbefore hnewest
  unfold render nextListenerStep
  rw [hticks]
  dsimp only
  rw [hstep]
  simp only [Option.map_some]
  split
  · exact ⟨_, _, rfl, rfl, ⟨hspec, hbefore, hnewest⟩, rfl, rfl, hclock, rfl⟩
  · refine ⟨_, _, rfl, rfl, ⟨hspec, hbefore, hnewest⟩, rfl, ?_, ?_, ?_⟩
    · rw [(countHeard_cursors _ _ _).1]
    · rw [(countHeard_cursors _ _ _).2]
      exact hclock
    · rw [(countHeard_cursors _ _ _).2]

variable {listener : ParticipantId}

theorem CursorsBounded.render (h : g.CursorsBounded) {now : Instant} {rendered : Rendered}
    (hr : g.render listener now = some (rendered, t)) :
    t.CursorsBounded := by
  obtain ⟨rendered', t', hr', -, hlawful, -, hticks, hclock, hcount⟩ :=
    render_spec h listener now
  simp only [hr] at hr'
  cases hr'
  intro l c hc
  rw [hticks, OrdMap.lookup_insert] at hc
  split at hc
  · cases hc
    exact hcount ▸ hlawful.after_le
  · exact Nat.le_trans (h l c hc) hclock

theorem CursorsBounded.step (h : g.CursorsBounded) (op : MixOp D) :
    ∃ t out, g.step op = some (t, out) ∧ t.CursorsBounded := by
  by_cases hrender : ∃ l instant, op = .renderOutput l instant
  · obtain ⟨l, instant, rfl⟩ := hrender
    obtain ⟨rendered, t, hr, -⟩ := render_spec h l instant
    exact ⟨t, [rendered], by simp only [MixGraph.step, hr, Option.map_some], h.render hr⟩
  · exact ⟨g.control op, [], step_control fun l instant heq => hrender ⟨l, instant, heq⟩,
      h.control op⟩

theorem new_cursorsBounded : (MixGraph.new D).CursorsBounded := by
  intro l c hc
  simp [MixGraph.new] at hc

theorem CursorsBounded.run {ops : List (MixOp D)} {s : MixGraph D} {out : List Rendered}
    (hs : s.CursorsBounded) (h : Machine.run MixGraph.step s ops = some (g, out)) :
    g.CursorsBounded :=
  Machine.run_invariant (C := fun _ _ => True)
    (fun s op t out hs _ hstep => by
      obtain ⟨t', out', hstep', ht⟩ := CursorsBounded.step hs op
      rw [hstep, Option.some.injEq, Prod.mk.injEq] at hstep'
      exact hstep'.1 ▸ ht)
    hs (Machine.along_of_forall_mem (P := fun _ => True) (fun _ _ => trivial) _) h

/-! ## Runs -/

/-- The calls of one listener among the renders of a run, in order. -/
def callsOf (listener : ParticipantId) (out : List Rendered) : List ListenerRender :=
  (out.map Rendered.call).filter fun call => call.listener = listener

/-- The account of a listener's calls against its cursor in the graph they led to. -/
inductive ListenerAccount (g : MixGraph D) (listener : ParticipantId) :
    List ListenerRender → Prop
  | unheard : g.listenerTicks[listener]? = none → ListenerAccount g listener []
  | heard (first : ListenerRender) (rest : List ListenerRender) (c : Nat) :
      g.listenerTicks[listener]? = some c → c ≤ g.tickCount →
      TicksAccounted (first :: rest) first.before c → ListenerAccount g listener (first :: rest)

variable {calls : List ListenerRender}

section

variable (h : g.ListenerAccount listener calls)
include h

theorem ListenerAccount.control {op : MixOp D} (hop : op ≠ .removeInput listener) :
    (g.control op).ListenerAccount listener calls := by
  obtain ⟨hclock, hticks⟩ := g.control_cursors op
  have hcursor : (g.control op).listenerTicks[listener]? = g.listenerTicks[listener]? := by
    rcases hticks with hsame | ⟨id, rfl, herase⟩
    · rw [hsame]
    · have hne : listener ≠ id := fun heq => hop (heq ▸ rfl)
      rw [herase, OrdMap.lookup_erase, if_neg hne]
  cases h with
  | unheard hnone => exact .unheard (hcursor.trans hnone)
  | heard first rest c hc hle hacc =>
    exact .heard first rest c (hcursor.trans hc) (Nat.le_trans hle hclock) hacc

theorem ListenerAccount.snoc {r : ListenerRender} (hr : r.Lawful)
    (hbefore : r.before = g.listenerTicks[listener]?.getD r.newest)
    (hcursor : t.listenerTicks[listener]? = some r.after) (hclock : r.tickCount = t.tickCount) :
    t.ListenerAccount listener (calls ++ [r]) := by
  have hle : r.after ≤ t.tickCount := hclock ▸ hr.after_le
  cases h with
  | unheard hnone => exact .heard r [] r.after hcursor hle ((TicksAccounted.nil _).snoc hr)
  | heard first rest c hc _ hacc =>
    rw [hc, Option.getD_some] at hbefore
    rw [← hbefore] at hacc
    exact .heard first (rest ++ [r]) r.after hcursor hle (hacc.snoc hr)

theorem ListenerAccount.frame (hcursor : t.listenerTicks[listener]? = g.listenerTicks[listener]?)
    (hclock : g.tickCount ≤ t.tickCount) : t.ListenerAccount listener calls := by
  cases h with
  | unheard hnone => exact .unheard (hcursor.trans hnone)
  | heard first rest c hc hle hacc =>
    exact .heard first rest c (hcursor.trans hc) (Nat.le_trans hle hclock) hacc

end

theorem step_account (hb : g.CursorsBounded) {out : List Rendered}
    (h : g.ListenerAccount listener (callsOf listener out)) {op : MixOp D}
    (hop : op ≠ .removeInput listener) :
    ∃ t now, g.step op = some (t, now) ∧ t.CursorsBounded ∧
      t.ListenerAccount listener (callsOf listener (out ++ now)) := by
  by_cases hrender : ∃ l instant, op = .renderOutput l instant
  · obtain ⟨l, instant, rfl⟩ := hrender
    obtain ⟨rendered, t, hr, hlistener, hlawful, hbefore, hticks, hclock, hcount⟩ :=
      render_spec hb l instant
    have hstep : g.step (.renderOutput l instant) = some (t, [rendered]) := by
      simp only [step, hr, Option.map_some]
    refine ⟨t, [rendered], hstep, hb.render hr, ?_⟩
    by_cases heq : l = listener
    · subst heq
      have hcalls : callsOf l (out ++ [rendered]) = callsOf l out ++ [rendered.call] := by
        simp [callsOf, hlistener]
      rw [hcalls]
      refine h.snoc hlawful hbefore ?_ hcount
      rw [hticks, ExtTreeMap.getElem?_insert_self]
    · have hcalls : callsOf listener (out ++ [rendered]) = callsOf listener out := by
        simp [callsOf, hlistener, heq]
      rw [hcalls]
      refine h.frame ?_ hclock
      rw [hticks, OrdMap.lookup_insert, if_neg (Ne.symm heq)]
  · have hcontrol : g.step op = some (g.control op, []) :=
      step_control fun l instant heq => hrender ⟨l, instant, heq⟩
    refine ⟨g.control op, [], hcontrol, hb.control op, ?_⟩
    rw [List.append_nil]
    exact h.control hop

/-- Every run of operations that does not remove the listener's input is defined, and the
ticks its cursor has moved over since its first render are accounted for. -/
theorem listener_ticks_accounted (listener : ParticipantId) (ops : List (MixOp D))
    (hops : ∀ op ∈ ops, op ≠ .removeInput listener) :
    ∃ g out, Machine.run step (MixGraph.new D) ops = some (g, out) ∧
      g.ListenerAccount listener (callsOf listener out) := by
  have hempty : (MixGraph.new D).ListenerAccount listener (callsOf listener []) :=
    .unheard (by simp [MixGraph.new])
  have halong : Machine.Along step (fun _ op => op ≠ .removeInput listener) (MixGraph.new D) ops :=
    Machine.along_of_forall_mem hops _
  obtain ⟨g, out, hrun, -, haccount⟩ := Machine.run_spec
    (I := fun _ out g => g.CursorsBounded ∧ g.ListenerAccount listener (callsOf listener out))
    (fun _ out g op hi hop => by
      obtain ⟨t, now, hstep, hb, ha⟩ := step_account hi.1 hi.2 hop
      exact ⟨t, now, hstep, hb, ha⟩)
    ⟨new_cursorsBounded, hempty⟩ halong
  exact ⟨g, out, hrun, haccount⟩

/-- A stalled listener that bursts, with a render before the clock in between. -/
theorem listener_ticks_accounted_burst :
    ∃ g out, Machine.run step (new silentDsp)
        [.pushFrameAt "speaker" silenceFrame 0, .renderOutput "listener" (fromMillis 40),
          .advanceTo (fromMillis 160), .renderOutput "listener" (fromMillis 100),
          .renderOutput "listener" (fromMillis 161), .renderOutput "listener" (fromMillis 900)] =
        some (g, out) ∧ g.ListenerAccount "listener" (callsOf "listener" out) :=
  listener_ticks_accounted "listener" _ (by simp)

end MixGraph

end NodeWebrtc.Mixer

