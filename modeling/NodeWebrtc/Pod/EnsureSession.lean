import NodeWebrtc.Pod.SessionPod

/-! # What an `ensureSession` call leaves behind

A call that resolves should find a committed slot outside a teardown, and a call that rejects
should leave no slot, timer or connected client. Both hold when no call comes while the slot is
being torn down or is not committed yet, and the `created` hook settles on the slot it was
called for.
-/

namespace NodeWebrtc.Pod

open Machine

namespace SessionPod

variable {H : HostModel} {pod pod' pod'' : SessionPod H}

/-! ## Steps that leave the slots in place -/

/-- What timers, hooks and the start of a teardown do: no slot comes or goes, a flight may begin
on a slot that has none, and timers are only cancelled or armed anew. -/
structure Quiet (pod pod' : SessionPod H) : Prop where
  preparing : pod'.preparingSessions = pod.preparingSessions
  orphans : pod'.orphans = pod.orphans
  absent : ∀ s, pod'.slots.get s = none ↔ pod.slots.get s = none
  kept : ∀ s slot slot', pod.slots.get s = some slot → pod'.slots.get s = some slot' →
    slot'.signaling = slot.signaling ∧ (slot.reconnectEnabled = false → slot'.reconnectEnabled = false)
  flights : ∀ s, pod'.teardownFlights.get s = pod.teardownFlights.get s ∨
    pod.teardownFlights.get s = none ∧ (∃ r, pod'.teardownFlights.get s = some (.closing r)) ∧
      (∃ slot', pod'.slots.get s = some slot' ∧ slot'.reconnectEnabled = false) ∧
      ∀ timer, pod'.teardownTimers.get s = some timer → pod.nextTimer ≤ timer.handle
  timers : ∀ s timer, pod'.teardownTimers.get s = some timer →
    pod.teardownTimers.get s = some timer ∨
      pod.nextTimer ≤ timer.handle ∧ timer.handle < pod'.nextTimer
  next : pod.nextTimer ≤ pod'.nextTimer

theorem Quiet.refl (pod : SessionPod H) : Quiet pod pod where
  preparing := rfl
  orphans := rfl
  absent := fun _ => Iff.rfl
  kept := fun s slot slot' h h' => by
    rw [h, Option.some.injEq] at h'
    exact h' ▸ ⟨rfl, id⟩
  flights := fun _ => .inl rfl
  timers := fun _ _ h => .inl h
  next := Nat.le_refl _

theorem Quiet.trans (h : Quiet pod pod') (h' : Quiet pod' pod'') : Quiet pod pod'' where
  preparing := h'.preparing.trans h.preparing
  orphans := h'.orphans.trans h.orphans
  absent := fun s => (h'.absent s).trans (h.absent s)
  kept := fun s slot slot'' hs hs'' => by
    cases hs' : pod'.slots.get s with
    | none => rw [(h.absent s).mp hs'] at hs; cases hs
    | some slot' =>
      have hfirst := h.kept s slot slot' hs hs'
      have hsecond := h'.kept s slot' slot'' hs' hs''
      exact ⟨hsecond.1.trans hfirst.1, fun hr => hsecond.2 (hfirst.2 hr)⟩
  flights := fun s => by
    have hnext := h.next
    rcases h'.flights s with heq | ⟨hnone, hflight, hslot, hfresh⟩
    · rcases h.flights s with heq' | ⟨hnone, ⟨r, hflight⟩, ⟨slot', hslot', hoff⟩, hfresh⟩
      · exact .inl (heq.trans heq')
      · refine .inr ⟨hnone, ⟨r, heq.trans hflight⟩, ?_, fun timer htimer => ?_⟩
        · cases hs'' : pod''.slots.get s with
          | none => rw [(h'.absent s).mp hs''] at hslot'; cases hslot'
          | some slot'' => exact ⟨slot'', rfl, (h'.kept s slot' slot'' hslot' hs'').2 hoff⟩
        · rcases h'.timers s timer htimer with hold | ⟨hle, -⟩
          · exact hfresh timer hold
          · omega
    · rcases h.flights s with heq' | ⟨-, ⟨r, hflight'⟩, -⟩
      · refine .inr ⟨heq' ▸ hnone, hflight, hslot, fun timer htimer => ?_⟩
        have hle := hfresh timer htimer
        omega
      · rw [hflight'] at hnone
        cases hnone
  timers := fun s timer htimer => by
    have hnext := h.next
    have hnext' := h'.next
    rcases h'.timers s timer htimer with hold | ⟨hle, hlt⟩
    · rcases h.timers s timer hold with holder | ⟨hle, hlt⟩
      · exact .inl holder
      · exact .inr ⟨hle, by omega⟩
    · exact .inr ⟨by omega, hlt⟩
  next := Nat.le_trans h.next h'.next

theorem Quiet.of_eq (hpreparing : pod'.preparingSessions = pod.preparingSessions)
    (horphans : pod'.orphans = pod.orphans) (hslots : pod'.slots = pod.slots)
    (hflights : pod'.teardownFlights = pod.teardownFlights)
    (htimers : ∀ s timer, pod'.teardownTimers.get s = some timer →
      pod.teardownTimers.get s = some timer)
    (hnext : pod'.nextTimer = pod.nextTimer) : Quiet pod pod' where
  preparing := hpreparing
  orphans := horphans
  absent := fun _ => by rw [hslots]
  kept := fun s slot slot' h h' => by
    rw [hslots, h, Option.some.injEq] at h'
    exact h' ▸ ⟨rfl, id⟩
  flights := fun _ => .inl (by rw [hflights])
  timers := fun s timer h => .inl (htimers s timer h)
  next := Nat.le_of_eq hnext.symm

theorem updateSlot_quiet (pod : SessionPod H) (s : String) {f : SessionSlot → SessionSlot}
    (hf : ∀ slot, (f slot).signaling = slot.signaling ∧
      (slot.reconnectEnabled = false → (f slot).reconnectEnabled = false)) :
    Quiet pod (pod.updateSlot s f) := by
  unfold updateSlot
  cases hs : pod.slots.get s with
  | none => exact Quiet.refl pod
  | some slot =>
    refine ⟨rfl, rfl, fun a => ?_, fun a old new hold hnew => ?_, fun _ => .inl rfl,
      fun _ _ h => .inl h, Nat.le_refl _⟩
    · rw [InsertMap.get_set]
      by_cases ha : a = s
      · rw [ha, hs]
        simp
      · rw [if_neg ha]
    · rw [InsertMap.get_set] at hnew
      by_cases ha : a = s
      · rw [if_pos ha, Option.some.injEq] at hnew
        rw [ha, hs, Option.some.injEq] at hold
        rw [← hnew, ← hold]
        exact hf slot
      · rw [if_neg ha, hold, Option.some.injEq] at hnew
        exact hnew ▸ ⟨rfl, id⟩

theorem cancelTeardownTimer_quiet (pod : SessionPod H) (s : String) :
    Quiet pod (pod.cancelTeardownTimer s) := by
  have hdelete : Quiet pod { pod with teardownTimers := pod.teardownTimers.delete s } := by
    refine Quiet.of_eq rfl rfl rfl rfl (fun a timer h => ?_) rfl
    rw [InsertMap.get_delete] at h
    by_cases ha : a = s
    · rw [if_pos ha] at h
      cases h
    · rwa [if_neg ha] at h
  refine hdelete.trans (updateSlot_quiet _ s fun slot => ?_)
  split <;> exact ⟨rfl, id⟩

theorem onPeerHook_quiet (pod : SessionPod H) (s : String) (hook : PeerHook) :
    Quiet pod (pod.onPeerHook s hook) := by
  have hpoll : ∀ graceMs, Quiet pod (pod.maybeScheduleIdleTeardownAfterLastPeer s graceMs) := by
    intro graceMs
    unfold maybeScheduleIdleTeardownAfterLastPeer
    split
    · exact Quiet.of_eq rfl rfl rfl rfl (fun _ _ h => h) rfl
    · exact Quiet.refl pod
  have hcancel : Quiet pod
      (if pod.options.teardownIdleSessions then pod.cancelTeardownTimer s else pod) := by
    split
    · exact cancelTeardownTimer_quiet pod s
    · exact Quiet.refl pod
  cases hook with
  | onPeerTransportReady | onPeerConnected => exact hcancel
  | onPeerDisconnected | onPeerSignalingLost => exact hpoll _

theorem hostHandles_quiet {k : Nat} {i : H.Input} (h : pod.hostHandles k i = some pod') :
    Quiet pod pod' := by
  simp only [hostHandles, Option.bind_eq_some_iff, Option.map_eq_some_iff] at h
  obtain ⟨⟨s, st⟩, -, r, -, rfl⟩ := h
  have hset : Quiet pod { pod with hosts := pod.hosts.set k (s, r.1) } :=
    Quiet.of_eq rfl rfl rfl rfl (fun _ _ h => h) rfl
  refine hset.trans ?_
  generalize { pod with hosts := pod.hosts.set k (s, r.1) } = start
  induction r.2 generalizing start with
  | nil => exact Quiet.refl start
  | cons hook hooks ih => exact (onPeerHook_quiet start s hook).trans (ih _)

variable {s : String} {slot : SessionSlot}

theorem teardownSessionOnce_quiet (hslot : pod.slots.get s = some slot)
    (hflight : pod.teardownFlights.get s = none) (endReason : Option String) :
    Quiet pod (pod.teardownSessionOnce s slot endReason) := by
  have hbegin : Quiet pod { pod with
      slots := pod.slots.set s { slot with pendingEndReason := none, reconnectEnabled := false }
      teardownFlights := pod.teardownFlights.set s (.closing (endReason.or slot.pendingEndReason))
      teardownTimers := pod.teardownTimers.delete s } := by
    refine ⟨rfl, rfl, fun a => ?_, fun a old new hold hnew => ?_, fun a => ?_, fun a timer h => ?_,
      Nat.le_refl _⟩
    · rw [InsertMap.get_set]
      by_cases ha : a = s
      · rw [ha, hslot]
        simp
      · rw [if_neg ha]
    · rw [InsertMap.get_set] at hnew
      by_cases ha : a = s
      · rw [if_pos ha, Option.some.injEq] at hnew
        rw [ha, hslot, Option.some.injEq] at hold
        rw [← hnew, ← hold]
        exact ⟨rfl, fun _ => rfl⟩
      · rw [if_neg ha, hold, Option.some.injEq] at hnew
        exact hnew ▸ ⟨rfl, id⟩
    · by_cases ha : a = s
      · refine .inr ⟨ha ▸ hflight, ⟨endReason.or slot.pendingEndReason, ?_⟩,
          ⟨{ slot with pendingEndReason := none, reconnectEnabled := false }, ?_, rfl⟩,
          fun timer h => ?_⟩
        · rw [InsertMap.get_set, if_pos ha]
        · rw [InsertMap.get_set, if_pos ha]
        · rw [InsertMap.get_delete, if_pos ha] at h
          cases h
      · left
        rw [InsertMap.get_set, if_neg ha]
    · rw [InsertMap.get_delete] at h
      by_cases ha : a = s
      · rw [if_pos ha] at h
        cases h
      · rw [if_neg ha] at h
        exact .inl h
  have hcancelled := hbegin.trans (updateSlot_quiet _ s (f := fun slot =>
    if slot.pendingEndReason = some "never_connected" then { slot with pendingEndReason := none }
    else slot) fun slot => by split <;> exact ⟨rfl, id⟩)
  unfold teardownSessionOnce
  dsimp only
  cases hclose : hostHandles _ slot.host H.close with
  | none => exact hcancelled
  | some closed => exact hcancelled.trans (hostHandles_quiet hclose)

theorem teardownSession_quiet (pod : SessionPod H) (s : String) (endReason : Option String) :
    Quiet pod (pod.teardownSession s endReason) := by
  unfold teardownSession
  cases hflight : pod.teardownFlights.get s with
  | some phase => exact updateSlot_quiet pod s fun _ => ⟨rfl, id⟩
  | none =>
    cases hslot : pod.slots.get s with
    | none => exact Quiet.refl pod
    | some slot => exact teardownSessionOnce_quiet hslot hflight endReason

theorem scheduleIdleTeardown_quiet (pod : SessionPod H) (s : String) (endReason : Option String)
    (graceMs : Nat) : Quiet pod (pod.scheduleIdleTeardown s endReason graceMs) := by
  unfold scheduleIdleTeardown
  split
  · exact Quiet.refl pod
  · have hreason := updateSlot_quiet pod s (f := fun slot =>
      { slot with pendingEndReason := endReason.or slot.pendingEndReason }) fun _ => ⟨rfl, id⟩
    generalize pod.updateSlot s _ = noted at hreason
    dsimp only
    refine hreason.trans ?_
    split
    · exact Quiet.refl noted
    · split
      · exact teardownSession_quiet noted s endReason
      · refine ⟨rfl, rfl, fun _ => Iff.rfl, fun a slot slot' h h' => ?_, fun _ => .inl rfl,
          fun a timer h => ?_, Nat.le_succ _⟩
        · rw [h, Option.some.injEq] at h'
          exact h' ▸ ⟨rfl, id⟩
        · rw [InsertMap.get_set] at h
          by_cases ha : a = s
          · rw [if_pos ha, Option.some.injEq] at h
            rw [← h]
            exact .inr ⟨Nat.le_refl _, Nat.lt_succ_self _⟩
          · rw [if_neg ha] at h
            exact .inl h

/-! ## The invariant -/

/-- The handle of the idle timer that the call preparing `s` armed. -/
def armedTimer (pod : SessionPod H) (s : String) : Option Nat :=
  match pod.preparingSessions.get s with
  | some (.hooking timer) => timer
  | _ => none

structure Consistent (pod : SessionPod H) : Prop where
  /-- The timer of a preparation is gone once a teardown of the slot began. -/
  armed : ∀ s h timer, pod.armedTimer s = some h → pod.teardownTimers.get s = some timer →
    timer.handle = h → pod.slots.get s ≠ none ∧ pod.teardownFlights.get s = none
  armedPast : ∀ s h, pod.armedTimer s = some h → h < pod.nextTimer
  timersPast : ∀ s timer, pod.teardownTimers.get s = some timer → timer.handle < pod.nextTimer
  flying : ∀ s, pod.teardownFlights.get s ≠ none → ∃ slot, pod.slots.get s = some slot ∧
    slot.reconnectEnabled = false
  disconnected : ∀ s r slot, pod.teardownFlights.get s = some (.hooking r) →
    pod.slots.get s = some slot → slot.signaling = .closed

/-- A call that still connects has no slot. -/
def Uncommitted (pod : SessionPod H) : Prop :=
  ∀ s, pod.preparingSessions.get s = some .connecting → pod.slots.get s = none

theorem Consistent.new (options : SessionPodOptions) : Consistent (new H options) where
  armed := fun _ _ _ h => by cases h
  armedPast := fun _ _ h => by cases h
  timersPast := fun _ _ h => by cases h
  flying := fun _ h => absurd rfl h
  disconnected := fun _ _ _ h => by cases h

theorem Quiet.armedTimer (h : Quiet pod pod') (s : String) : pod'.armedTimer s = pod.armedTimer s := by
  unfold SessionPod.armedTimer
  rw [h.preparing]

theorem Uncommitted.quiet (hu : Uncommitted pod) (h : Quiet pod pod') : Uncommitted pod' := by
  intro s hs
  rw [h.preparing] at hs
  exact (h.absent s).mpr (hu s hs)

theorem Consistent.quiet (hc : Consistent pod) (h : Quiet pod pod') : Consistent pod' := by
  refine ⟨fun s n timer hs htimer hn => ?_, fun s n hs => ?_, fun s timer hs => ?_,
    fun s hs => ?_, fun s r slot' hs hslot' => ?_⟩
  · rw [h.armedTimer] at hs
    have hpast := hc.armedPast s n hs
    rcases h.timers s timer htimer with hold | ⟨hle, -⟩
    · have hbefore := hc.armed s n timer hs hold hn
      refine ⟨fun hnone => hbefore.1 ((h.absent s).mp hnone), ?_⟩
      rcases h.flights s with heq | ⟨-, -, -, hfresh⟩
      · exact heq.trans hbefore.2
      · have hle := hfresh timer htimer
        omega
    · omega
  · rw [h.armedTimer] at hs
    exact Nat.lt_of_lt_of_le (hc.armedPast s n hs) h.next
  · rcases h.timers s timer hs with hold | ⟨-, hlt⟩
    · exact Nat.lt_of_lt_of_le (hc.timersPast s timer hold) h.next
    · exact hlt
  · rcases h.flights s with heq | ⟨-, -, hslot, -⟩
    · rw [heq] at hs
      obtain ⟨slot, hslot, hoff⟩ := hc.flying s hs
      cases hslot' : pod'.slots.get s with
      | none => rw [(h.absent s).mp hslot'] at hslot; cases hslot
      | some slot' => exact ⟨slot', rfl, (h.kept s slot slot' hslot hslot').2 hoff⟩
    · exact hslot
  · rcases h.flights s with heq | ⟨-, ⟨r', hflight⟩, -⟩
    · rw [heq] at hs
      cases hslot : pod.slots.get s with
      | none => rw [(h.absent s).mpr hslot] at hslot'; cases hslot'
      | some slot =>
        rw [(h.kept s slot slot' hslot hslot').1]
        exact hc.disconnected s r slot hs hslot
    · rw [hflight] at hs
      cases hs

theorem Consistent.prepared (hc : Consistent pod) {calls : InsertMap String PreparePhase}
    (horphans : List String)
    (h : ∀ s n, armedTimer { pod with preparingSessions := calls } s = some n →
      n < pod.nextTimer ∧ ∀ timer, pod.teardownTimers.get s = some timer → timer.handle = n →
        pod.slots.get s ≠ none ∧ pod.teardownFlights.get s = none) :
    Consistent { pod with preparingSessions := calls, orphans := horphans } where
  armed := fun s n timer hs htimer hn => (h s n hs).2 timer htimer hn
  armedPast := fun s n hs => (h s n hs).1
  timersPast := hc.timersPast
  flying := hc.flying
  disconnected := hc.disconnected

theorem armedTimer_delete {a : String} {n : Nat}
    (h : armedTimer { pod with preparingSessions := pod.preparingSessions.delete s } a = some n) :
    pod.armedTimer a = some n := by
  unfold armedTimer at h ⊢
  rw [InsertMap.get_delete] at h
  by_cases ha : a = s
  · rw [if_pos ha] at h
    cases h
  · rwa [if_neg ha] at h

theorem Consistent.settled (hc : Consistent pod) (s : String) (outcome : EnsureOutcome)
    (orphans : List String) :
    Consistent ({ pod with orphans := orphans }.settleEnsure s outcome).1 :=
  hc.prepared orphans fun a n h =>
    ⟨hc.armedPast a n (armedTimer_delete h), fun timer => hc.armed a n timer (armedTimer_delete h)⟩

/-! ## The commit of a slot -/

@[simp] theorem nextTimer_updateSlot (pod : SessionPod H) (s : String)
    (f : SessionSlot → SessionSlot) : (pod.updateSlot s f).nextTimer = pod.nextTimer := by
  unfold updateSlot
  split <;> rfl

@[simp] theorem nextTimer_cancelTeardownTimer (pod : SessionPod H) (s : String) :
    (pod.cancelTeardownTimer s).nextTimer = pod.nextTimer := by
  rw [cancelTeardownTimer, nextTimer_updateSlot]

theorem nextTimer_onPeerHook (pod : SessionPod H) (s : String) (hook : PeerHook) :
    (pod.onPeerHook s hook).nextTimer = pod.nextTimer := by
  unfold onPeerHook maybeScheduleIdleTeardownAfterLastPeer
  cases hook <;> dsimp only <;> split <;> simp

theorem nextTimer_hostHandles {k : Nat} {i : H.Input} (h : pod.hostHandles k i = some pod') :
    pod'.nextTimer = pod.nextTimer := by
  simp only [hostHandles, Option.bind_eq_some_iff, Option.map_eq_some_iff] at h
  obtain ⟨⟨s, st⟩, -, r, -, rfl⟩ := h
  have hfold : ∀ (hooks : List PeerHook) (start : SessionPod H),
      (hooks.foldl (fun pod hook => pod.onPeerHook s hook) start).nextTimer = start.nextTimer := by
    intro hooks
    induction hooks with
    | nil => exact fun _ => rfl
    | cons hook hooks ih => exact fun start => (ih _).trans (nextTimer_onPeerHook start s hook)
  exact hfold r.2 _

theorem nextTimer_teardownSession (pod : SessionPod H) (s : String) (endReason : Option String) :
    (pod.teardownSession s endReason).nextTimer = pod.nextTimer := by
  unfold teardownSession
  split
  · exact nextTimer_updateSlot pod s _
  · split
    · rfl
    · next slot _ =>
      unfold teardownSessionOnce
      dsimp only
      cases hclose : hostHandles _ slot.host H.close with
      | none => exact nextTimer_cancelTeardownTimer _ s
      | some closed =>
        exact (nextTimer_hostHandles hclose).trans (nextTimer_cancelTeardownTimer _ s)

theorem flights_of_armed {endReason : Option String} {graceMs : Nat}
    (h : pod.nextTimer < (pod.scheduleIdleTeardown s endReason graceMs).nextTimer) :
    (pod.scheduleIdleTeardown s endReason graceMs).teardownFlights = pod.teardownFlights := by
  have hkeep : ∀ f, (pod.updateSlot s f).teardownFlights = pod.teardownFlights := by
    intro f
    unfold updateSlot
    split <;> rfl
  unfold scheduleIdleTeardown at h ⊢
  by_cases hidle : pod.options.teardownIdleSessions
  · rw [if_neg (not_not.mpr hidle)] at h ⊢
    have hnext := nextTimer_updateSlot pod s fun slot =>
      { slot with pendingEndReason := endReason.or slot.pendingEndReason }
    have hflights := hkeep fun slot =>
      { slot with pendingEndReason := endReason.or slot.pendingEndReason }
    generalize (pod.updateSlot s fun slot =>
      { slot with pendingEndReason := endReason.or slot.pendingEndReason }) = noted at *
    dsimp only at h ⊢
    cases htimer : noted.teardownTimers.get s with
    | some timer => omega
    | none =>
      simp only [htimer] at h ⊢
      by_cases hgrace : graceMs = 0
      · rw [if_pos hgrace, nextTimer_teardownSession] at h
        omega
      · rw [if_neg hgrace]
        exact hflights
  · rw [if_pos hidle] at h
    omega

theorem addSlot_consistent (hc : Consistent pod) (hslot : pod.slots.get s = none) :
    Consistent (pod.addSlot s) := by
  have hflight : pod.teardownFlights.get s = none := by
    by_contra hflight
    obtain ⟨slot, hsome, -⟩ := hc.flying s hflight
    rw [hslot] at hsome
    cases hsome
  refine ⟨fun a n timer ha htimer hn => ?_, hc.armedPast, hc.timersPast, fun a ha => ?_,
    fun a r slot ha hs => ?_⟩
  · have hbefore := hc.armed a n timer ha htimer hn
    rw [addSlot, InsertMap.get_set]
    by_cases has : a = s
    · exact absurd hslot (has ▸ hbefore.1)
    · rwa [if_neg has]
  · rw [addSlot, InsertMap.get_set]
    by_cases has : a = s
    · exact absurd hflight (has ▸ ha)
    · rw [if_neg has]
      exact hc.flying a ha
  · rw [addSlot, InsertMap.get_set] at hs
    by_cases has : a = s
    · have hnone : (pod.addSlot s).teardownFlights.get a = none := has ▸ hflight
      rw [hnone] at ha
      cases ha
    · rw [if_neg has] at hs
      exact hc.disconnected a r slot ha hs

theorem commitSlot_consistent (hc : Consistent pod) (hslot : pod.slots.get s = none) :
    Consistent (pod.commitSlot s).1 := by
  have hadded := addSlot_consistent hc hslot
  have hpresent : (pod.addSlot s).slots.get s ≠ none := by
    rw [addSlot, InsertMap.get_set, if_pos rfl]
    exact fun h => by cases h
  have hflight : (pod.addSlot s).teardownFlights.get s = none := by
    by_contra hflight
    obtain ⟨slot, hsome, -⟩ := hc.flying s hflight
    rw [hslot] at hsome
    cases hsome
  have hcalls : (pod.addSlot s).preparingSessions = pod.preparingSessions := rfl
  have hquiet := scheduleIdleTeardown_quiet (pod.addSlot s) s (some "never_connected")
    pod.options.preparedSessionJoinGraceMs
  have hbegun := @flights_of_armed _ (pod.addSlot s) s (some "never_connected")
    pod.options.preparedSessionJoinGraceMs
  rw [commitSlot]
  generalize (pod.addSlot s).scheduleIdleTeardown s _ _ = scheduled at hquiet hbegun ⊢
  have hscheduled := hadded.quiet hquiet
  refine hscheduled.prepared scheduled.orphans fun a n h => ?_
  rw [armedTimer, InsertMap.get_set] at h
  by_cases has : a = s
  · rw [if_pos has] at h
    dsimp only [armedSince] at h
    split_ifs at h with hlt
    cases htimer : scheduled.teardownTimers.get s with
    | none => rw [htimer] at h; cases h
    | some timer =>
      rw [htimer, Option.map_some, Option.some.injEq] at h
      rw [has]
      refine ⟨h ▸ hscheduled.timersPast s timer htimer, fun _ _ _ =>
        ⟨fun hnone => hpresent ((hquiet.absent s).mp hnone), ?_⟩⟩
      rw [hbegun hlt]
      exact hflight
  · rw [if_neg has] at h
    have hbefore : scheduled.armedTimer a = some n := by
      rw [armedTimer, hquiet.preparing]
      exact h
    exact ⟨hscheduled.armedPast a n hbefore, fun timer => hscheduled.armed a n timer hbefore⟩

theorem commitSlot_uncommitted (hu : Uncommitted pod) (s : String) :
    Uncommitted (pod.commitSlot s).1 := by
  intro a ha
  have hquiet := scheduleIdleTeardown_quiet (pod.addSlot s) s (some "never_connected")
    pod.options.preparedSessionJoinGraceMs
  rw [commitSlot] at ha ⊢
  rw [InsertMap.get_set] at ha
  by_cases has : a = s
  · rw [if_pos has] at ha
    cases ha
  · rw [if_neg has] at ha
    rw [hquiet.absent, addSlot, InsertMap.get_set, if_neg has]
    exact hu a ha

/-! ## The other steps -/

theorem Consistent.reconnecting (hc : Consistent pod) {new : SessionSlot}
    (hslot : pod.slots.get s = some slot)
    (hoff : slot.reconnectEnabled = false → new.reconnectEnabled = false)
    (hclosed : slot.reconnectEnabled = false → slot.signaling = .closed → new.signaling = .closed) :
    Consistent { pod with slots := pod.slots.set s new } := by
  refine ⟨fun a n timer ha htimer hn => ?_, hc.armedPast, hc.timersPast, fun a ha => ?_,
    fun a r slot' ha hs => ?_⟩
  · have hbefore := hc.armed a n timer ha htimer hn
    refine ⟨?_, hbefore.2⟩
    rw [InsertMap.get_set]
    by_cases has : a = s
    · rw [if_pos has]
      exact fun h => by cases h
    · rw [if_neg has]
      exact hbefore.1
  · obtain ⟨old, hold, hdisabled⟩ := hc.flying a ha
    rw [InsertMap.get_set]
    by_cases has : a = s
    · rw [has, hslot, Option.some.injEq] at hold
      exact ⟨new, if_pos has, hoff (hold ▸ hdisabled)⟩
    · exact ⟨old, (if_neg has).trans hold, hdisabled⟩
  · rw [InsertMap.get_set] at hs
    by_cases has : a = s
    · rw [if_pos has, Option.some.injEq] at hs
      obtain ⟨old, hold, hdisabled⟩ := hc.flying a (by rw [ha]; exact fun h => by cases h)
      have hsocket := hc.disconnected a r old ha hold
      rw [has, hslot, Option.some.injEq] at hold
      rw [← hs]
      exact hclosed (hold ▸ hdisabled) (hold ▸ hsocket)
    · rw [if_neg has] at hs
      exact hc.disconnected a r slot' ha hs

theorem Uncommitted.reconnecting (hu : Uncommitted pod) {new : SessionSlot}
    (hslot : pod.slots.get s = some slot) :
    Uncommitted { pod with slots := pod.slots.set s new } := by
  intro a ha
  rw [InsertMap.get_set]
  by_cases has : a = s
  · rw [has] at ha
    rw [hu s ha] at hslot
    cases hslot
  · rw [if_neg has]
    exact hu a ha

theorem reconnectAgentSignaling_enabled (slot : SessionSlot) :
    (reconnectAgentSignaling slot).reconnectEnabled = slot.reconnectEnabled := by
  unfold reconnectAgentSignaling
  split <;> rfl

theorem reconnectAgentSignaling_of_disabled (h : slot.reconnectEnabled = false) :
    reconnectAgentSignaling slot = slot := by
  rw [reconnectAgentSignaling, if_pos (.inl (by simp [h]))]

theorem Consistent.failTeardown (hc : Consistent pod) (s : String) :
    Consistent (pod.failTeardown s) := by
  have hback : ∀ a, (pod.failTeardown s).teardownFlights.get a =
      if a = s then none else pod.teardownFlights.get a := InsertMap.get_delete _ s
  refine ⟨fun a n timer ha htimer hn => ?_, hc.armedPast, hc.timersPast, fun a ha => ?_,
    fun a r slot ha hs => ?_⟩
  · have hbefore := hc.armed a n timer ha htimer hn
    rw [hback]
    refine ⟨hbefore.1, ?_⟩
    split
    · rfl
    · exact hbefore.2
  · rw [hback] at ha
    split at ha
    · exact absurd rfl ha
    · exact hc.flying a ha
  · rw [hback] at ha
    split_ifs at ha
    exact hc.disconnected a r slot ha hs

theorem Consistent.retireSlot (hc : Consistent pod) (hflight : pod.teardownFlights.get s ≠ none) :
    Consistent (pod.retireSlot s slot) := by
  have hback : ∀ a, (pod.retireSlot s slot).teardownFlights.get a =
      if a = s then none else pod.teardownFlights.get a := InsertMap.get_delete _ s
  have hslots : ∀ a, (pod.retireSlot s slot).slots.get a =
      if a = s then none else pod.slots.get a := InsertMap.get_delete _ s
  refine ⟨fun a n timer ha htimer hn => ?_, hc.armedPast, hc.timersPast, fun a ha => ?_,
    fun a r slot' ha hs => ?_⟩
  · have hbefore := hc.armed a n timer ha htimer hn
    rw [hback, hslots]
    by_cases has : a = s
    · exact absurd hbefore.2 (has ▸ hflight)
    · rw [if_neg has, if_neg has]
      exact hbefore
  · rw [hback] at ha
    rw [hslots]
    by_cases has : a = s
    · rw [if_pos has] at ha
      exact absurd rfl ha
    · rw [if_neg has] at ha ⊢
      exact hc.flying a ha
  · rw [hback] at ha
    rw [hslots] at hs
    by_cases has : a = s
    · rw [if_pos has] at ha
      cases ha
    · rw [if_neg has] at ha hs
      exact hc.disconnected a r slot' ha hs

theorem Consistent.hostClosed (hc : Consistent pod) {r : Option String}
    (hflight : pod.teardownFlights.get s = some (.closing r)) :
    Consistent ({ pod with
      teardownFlights := pod.teardownFlights.set s (.hooking r) }.updateSlot s
        fun slot => { slot with signaling := .closed }) := by
  obtain ⟨slot, hslot, hoff⟩ := hc.flying s (by rw [hflight]; exact fun h => by cases h)
  unfold updateSlot
  simp only [hslot]
  refine ⟨fun a n timer ha htimer hn => ?_, hc.armedPast, hc.timersPast, fun a ha => ?_,
    fun a r' slot' ha hs => ?_⟩
  · have hbefore := hc.armed a n timer ha htimer hn
    rw [InsertMap.get_set, InsertMap.get_set]
    by_cases has : a = s
    · rw [has, hflight] at hbefore
      cases hbefore.2
    · rw [if_neg has, if_neg has]
      exact hbefore
  · rw [InsertMap.get_set] at ha ⊢
    by_cases has : a = s
    · exact ⟨{ slot with signaling := .closed }, if_pos has, hoff⟩
    · rw [if_neg has] at ha ⊢
      exact hc.flying a ha
  · rw [InsertMap.get_set] at ha hs
    by_cases has : a = s
    · rw [if_pos has, Option.some.injEq] at hs
      rw [← hs]
    · rw [if_neg has] at ha hs
      exact hc.disconnected a r' slot' ha hs

theorem Uncommitted.hostClosed (hu : Uncommitted pod) (s : String) (r : Option String) :
    Uncommitted ({ pod with
      teardownFlights := pod.teardownFlights.set s (.hooking r) }.updateSlot s
        fun slot => { slot with signaling := .closed }) := by
  have hflown : Uncommitted { pod with teardownFlights := pod.teardownFlights.set s (.hooking r) } := hu
  unfold updateSlot
  cases hslot : { pod with
      teardownFlights := pod.teardownFlights.set s (.hooking r) }.slots.get s with
  | none => exact hflown
  | some slot => exact hflown.reconnecting hslot

theorem Uncommitted.settled (hu : Uncommitted pod) (s : String) (outcome : EnsureOutcome)
    (orphans : List String) :
    Uncommitted ({ pod with orphans := orphans }.settleEnsure s outcome).1 := by
  intro a ha
  rw [settleEnsure] at ha ⊢
  rw [InsertMap.get_delete] at ha
  split_ifs at ha
  exact hu a ha

theorem ensureSession_keeps (hc : Consistent pod) (hu : Uncommitted pod) (s : String) :
    Consistent (pod.ensureSession s).1 ∧ Uncommitted (pod.ensureSession s).1 := by
  have hpruned : Quiet pod pod.pruneRetiredHosts := Quiet.of_eq rfl rfl rfl rfl (fun _ _ h => h) rfl
  unfold ensureSession
  split
  · exact ⟨hc, hu⟩
  · next hnew =>
    split
    · exact ⟨hc.quiet hpruned, hu.quiet hpruned⟩
    · split
      · exact ⟨hc.quiet hpruned, hu.quiet hpruned⟩
      · refine ⟨(hc.quiet hpruned).prepared pod.orphans fun a n h => ?_, fun a ha => ?_⟩
        · rw [armedTimer, InsertMap.get_set] at h
          by_cases has : a = s
          · rw [if_pos has] at h
            cases h
          · rw [if_neg has] at h
            exact ⟨hc.armedPast a n h, fun timer => hc.armed a n timer h⟩
        · rw [InsertMap.get_set] at ha
          by_cases has : a = s
          · rw [has]
            exact Option.not_isSome_iff_eq_none.mp fun hslot => hnew (.inl hslot)
          · rw [if_neg has] at ha
            exact hu a ha

/-! ## All or nothing -/

/-- What a settled call finds, from the pod before the step to the pod after it. A call that
rejects leaves no slot, not the timer it armed and no further client. -/
def AllOrNothing (pod pod' : SessionPod H) (s : String) : EnsureOutcome → Prop
  | .resolved => pod'.slots.get s ≠ none ∧ pod'.teardownFlights.get s = none
  | _ => pod'.slots.get s = none ∧
      (∀ timer, pod'.teardownTimers.get s = some timer → pod.armedTimer s ≠ some timer.handle) ∧
      pod'.orphans = pod.orphans

/-- Every call that settles in the step finds all or nothing, and a slot that goes has a client
that is not connected. -/
def Settles (pod : SessionPod H) (i : PodInput H) : Prop :=
  ∀ pod' out, step pod i = some (pod', out) →
    (∀ s outcome, .ensured s outcome ∈ out → AllOrNothing pod pod' s outcome) ∧
    ∀ s slot, pod.slots.get s = some slot → pod'.slots.get s = none → slot.signaling ≠ .opened

/-- A call for `s` finds its slot outside a teardown or no other call for it; the host is built
once the client connected; the `created` hook resolves on a slot outside a teardown and rejects
only without a slot. -/
def CallsMeet (pod : SessionPod H) : PodInput H → Prop
  | .ensureSession s =>
    if pod.slots.get s = none then pod.preparingSessions.get s = none
    else pod.teardownFlights.get s = none
  | .connectSettled s outcome =>
    pod.preparingSessions.get s = some .connecting → outcome ≠ .openedThenThrows
  | .createdSettled s ok => ∀ timer, pod.preparingSessions.get s = some (.hooking timer) →
      if ok then pod.slots.get s ≠ none ∧ pod.teardownFlights.get s = none
      else pod.slots.get s = none
  | _ => True

inductive Effect (pod : SessionPod H) :
    PodInput H → SessionPod H → List PodEvent → Prop where
  | ensured (s : String) :
      Effect pod (.ensureSession s) (pod.ensureSession s).1 (pod.ensureSession s).2
  | rejected (s : String) (hcall : pod.preparingSessions.get s = some .connecting) :
      Effect pod (.connectSettled s .rejected) (pod.settleEnsure s .failed).1 [.ensured s .failed]
  | committed (s : String) (hcall : pod.preparingSessions.get s = some .connecting) (n : Nat) :
      Effect pod (.connectSettled s .opened) (pod.commitSlot s).1 [.created s n]
  | thrown (s : String) (hcall : pod.preparingSessions.get s = some .connecting) :
      Effect pod (.connectSettled s .openedThenThrows)
        ({ pod with orphans := pod.orphans ++ [s] }.settleEnsure s .failed).1 [.ensured s .failed]
  | created (s : String) (ok : Bool) (timer : Option Nat)
      (hcall : pod.preparingSessions.get s = some (.hooking timer)) :
      Effect pod (.createdSettled s ok) (pod.settleEnsure s .resolved).1
        [.ensured s (if ok then .resolved else .failed)]
  | hostClosed (s : String) (r : Option String)
      (hflight : pod.teardownFlights.get s = some (.closing r)) :
      Effect pod (.hostClosed s true)
        ({ pod with teardownFlights := pod.teardownFlights.set s (.hooking r) }.updateSlot s
          fun slot => { slot with signaling := .closed })
        [.destroyed s (pod.slots.size - 1) r]
  | destroyed (s : String) (r : Option String) (slot : SessionSlot)
      (hflight : pod.teardownFlights.get s = some (.hooking r))
      (hslot : pod.slots.get s = some slot) :
      Effect pod (.destroyedSettled s true) (pod.retireSlot s slot) [.teardownSettled s true]
  | failed (s : String) {i : PodInput H} (hi : CallsMeet pod i) :
      Effect pod i (pod.failTeardown s) [.teardownSettled s false]
  | quiet {i : PodInput H} {pod' : SessionPod H} (hi : CallsMeet pod i) (h : Quiet pod pod') :
      Effect pod i pod' []
  | reconnecting (s : String) {i : PodInput H} {slot new : SessionSlot} (hi : CallsMeet pod i)
      (hslot : pod.slots.get s = some slot)
      (hoff : slot.reconnectEnabled = false → new.reconnectEnabled = false)
      (hclosed : slot.reconnectEnabled = false → slot.signaling = .closed →
        new.signaling = .closed) :
      Effect pod i { pod with slots := pod.slots.set s new } []

theorem effect_of_step {i : PodInput H} {out : List PodEvent} (h : step pod i = some (pod', out)) :
    Effect pod i pod' out := by
  have hdrop : ∀ polls disconnects, Quiet pod { pod with polls := polls, disconnects := disconnects } :=
    fun _ _ => Quiet.of_eq rfl rfl rfl rfl (fun _ _ h => h) rfl
  cases i with
  | ensureSession s =>
    have heffect := @Effect.ensured _ pod s
    rwa [Option.some.inj h] at heffect
  | connectSettled s outcome =>
    simp only [step] at h
    split at h
    · next hcall =>
      cases outcome with
      | rejected =>
        cases h
        exact .rejected s hcall
      | opened =>
        cases h
        exact .committed s hcall _
      | openedThenThrows =>
        cases h
        exact .thrown s hcall
    · cases h
  | createdSettled s ok =>
    simp only [step] at h
    split at h <;> cases h
    next timer hcall =>
      exact .created s ok timer hcall
  | teardownSession s endReason =>
    cases h
    exact .quiet trivial (teardownSession_quiet pod s endReason)
  | hostClosed s ok =>
    simp only [step] at h
    split at h
    · next r hflight =>
      cases ok with
      | true =>
        cases h
        exact .hostClosed s r hflight
      | false =>
        cases h
        exact .failed s trivial
    · cases h
  | destroyedSettled s ok =>
    simp only [step] at h
    split at h
    · next r slot hflight hslot =>
      cases ok with
      | true =>
        cases h
        exact .destroyed s r slot hflight hslot
      | false =>
        cases h
        exact .failed s trivial
    · cases h
  | idleTimer s =>
    have hfired : Quiet pod { pod with teardownTimers := pod.teardownTimers.delete s } := by
      refine Quiet.of_eq rfl rfl rfl rfl (fun a timer h => ?_) rfl
      rw [InsertMap.get_delete] at h
      split_ifs at h
      exact h
    simp only [step] at h
    split at h
    · split_ifs at h
      split at h
      · split at h <;> cases h
        · exact .quiet trivial hfired
        · exact .quiet trivial (hfired.trans (teardownSession_quiet _ s _))
      · cases h
        exact .quiet trivial hfired
    · cases h
  | poll k =>
    simp only [step] at h
    split at h
    · split at h
      · cases h
      · split at h
        · cases h
          exact .quiet trivial (hdrop _ _)
        · split at h
          · split at h
            all_goals
              cases h
              exact .quiet trivial (hdrop _ _)
          · cases h
            exact .quiet trivial ((hdrop _ _).trans (scheduleIdleTeardown_quiet _ _ _ _))
    · cases h
  | clock ms =>
    cases h
    exact .quiet trivial (Quiet.of_eq rfl rfl rfl rfl (fun _ _ h => h) rfl)
  | peerJoined s peerId =>
    simp only [step] at h
    split at h
    · split_ifs at h
      simp only [Option.map_eq_some_iff] at h
      obtain ⟨handled, hhandled, rfl, rfl⟩ := h
      have hhost := hostHandles_quiet hhandled
      split
      · exact .quiet trivial (hhost.trans (cancelTeardownTimer_quiet handled s))
      · exact .quiet trivial hhost
    · cases h
  | host k i =>
    simp only [step, Option.map_eq_some_iff] at h
    obtain ⟨handled, hhandled, rfl, rfl⟩ := h
    exact .quiet trivial (hostHandles_quiet hhandled)
  | disconnectPeer s peerId endReason =>
    simp only [step] at h
    split at h
    · simp only [Option.map_eq_some_iff] at h
      obtain ⟨handled, hhandled, rfl, rfl⟩ := h
      exact .quiet trivial ((hostHandles_quiet hhandled).trans
        (Quiet.of_eq rfl rfl rfl rfl (fun _ _ h => h) rfl))
    · cases h
      exact .quiet trivial (Quiet.refl pod)
  | peerDisconnected k =>
    simp only [step] at h
    split at h
    · split at h <;> cases h
      · exact .quiet trivial ((hdrop _ _).trans (scheduleIdleTeardown_quiet _ _ _ _))
      · exact .quiet trivial (hdrop _ _)
    · cases h
  | signalingClosed s =>
    simp only [step] at h
    split at h
    · next slot hslot =>
      split_ifs at h with hopen
      cases h
      refine .reconnecting s trivial hslot (fun hoff => ?_)
        fun _ hclosed => absurd hclosed hopen
      rw [reconnectAgentSignaling_enabled]
      exact hoff
    · cases h
  | reconnectSettled s ok =>
    simp only [step] at h
    split at h
    · next slot hslot =>
      split at h <;> cases h
      next hpending =>
        refine .reconnecting s trivial hslot id fun _ hclosed => ?_
        rw [hclosed] at hpending
        cases hpending.1
    · cases h
  | retryReconnect s =>
    simp only [step] at h
    split at h
    · next slot hslot =>
      split at h <;> cases h
      refine .reconnecting s trivial hslot (fun hoff => ?_) fun hoff hclosed => ?_
      · rw [reconnectAgentSignaling_enabled]
        exact hoff
      · rw [reconnectAgentSignaling_of_disabled (by exact hoff)]
        exact hclosed
    · cases h

theorem step_keeps {i : PodInput H} {out : List PodEvent}
    (hinv : Consistent pod ∧ Uncommitted pod) (h : step pod i = some (pod', out)) :
    Consistent pod' ∧ Uncommitted pod' := by
  obtain ⟨hc, hu⟩ := hinv
  cases effect_of_step h with
  | ensured s => exact ensureSession_keeps hc hu s
  | rejected s hcall => exact ⟨hc.settled s .failed pod.orphans, hu.settled s .failed pod.orphans⟩
  | committed s hcall n =>
    exact ⟨commitSlot_consistent hc (hu s hcall), commitSlot_uncommitted hu s⟩
  | thrown s hcall => exact ⟨hc.settled s .failed _, hu.settled s .failed _⟩
  | created s ok timer hcall =>
    exact ⟨hc.settled s .resolved pod.orphans, hu.settled s .resolved pod.orphans⟩
  | hostClosed s r hflight => exact ⟨hc.hostClosed hflight, hu.hostClosed s r⟩
  | destroyed s r slot hflight hslot =>
    refine ⟨hc.retireSlot (by rw [hflight]; exact fun h => by cases h), fun a ha => ?_⟩
    rw [retireSlot, InsertMap.get_delete]
    split
    · rfl
    · exact hu a ha
  | failed s hi => exact ⟨hc.failTeardown s, hu⟩
  | quiet hi hquiet => exact ⟨hc.quiet hquiet, hu.quiet hquiet⟩
  | reconnecting s hi hslot hoff hclosed =>
    exact ⟨hc.reconnecting hslot hoff hclosed, hu.reconnecting hslot⟩

theorem ensureSession_settles (hmeet : CallsMeet pod (.ensureSession s)) (a : String)
    (outcome : EnsureOutcome) (h : .ensured a outcome ∈ (pod.ensureSession s).2) :
    AllOrNothing pod (pod.ensureSession s).1 a outcome := by
  simp only [CallsMeet] at hmeet
  unfold ensureSession at h ⊢
  split at h
  · next hold =>
    rw [if_pos hold]
    obtain ⟨rfl, rfl⟩ : a = s ∧ outcome = .resolved := by simpa using h
    by_cases hslot : pod.slots.get a = none
    · rw [if_pos hslot] at hmeet
      simp [hslot, hmeet] at hold
    · rw [if_neg hslot] at hmeet
      exact ⟨hslot, hmeet⟩
  · next hnew =>
    rw [if_neg hnew]
    have hslot : pod.slots.get s = none :=
      Option.not_isSome_iff_eq_none.mp fun hslot => hnew (.inl hslot)
    have hunarmed : ∀ timer : IdleTimer, pod.armedTimer s ≠ some timer.handle := by
      rw [armedTimer, Option.not_isSome_iff_eq_none.mp fun hcall => hnew (.inr hcall)]
      exact fun _ h => by cases h
    split at h
    · next hrecycle =>
      rw [if_pos hrecycle]
      obtain ⟨rfl, rfl⟩ : a = s ∧ outcome = .recycleRequired pod.quarantinedPeerCount := by
        simpa using h
      exact ⟨hslot, fun timer _ => hunarmed timer, rfl⟩
    · next hrecycle =>
      rw [if_neg hrecycle]
      split at h
      · next hfull =>
        rw [if_pos hfull]
        obtain ⟨rfl, rfl⟩ : a = s ∧
            outcome = .capacityFull pod.slots.size pod.options.maxPreparedSessions := by
          simpa using h
        exact ⟨hslot, fun timer _ => hunarmed timer, rfl⟩
      · cases h

theorem slots_ensureSession (pod : SessionPod H) (s : String) :
    (pod.ensureSession s).1.slots = pod.slots := by
  unfold ensureSession
  split
  · rfl
  · split
    · rfl
    · split <;> rfl

theorem settles_iff {i : PodInput H} (hinv : Consistent pod ∧ Uncommitted pod) :
    Settles pod i ↔ CallsMeet pod i := by
  obtain ⟨hc, hu⟩ := hinv
  constructor
  · intro h
    cases i with
    | ensureSession s =>
      have hcall := (h (pod.ensureSession s).1 (pod.ensureSession s).2 rfl).1 s .resolved
      have hresolved : (pod.slots.get s).isSome ∨ (pod.preparingSessions.get s).isSome →
          AllOrNothing pod pod s .resolved := fun hold => by
        have heq : pod.ensureSession s = (pod, [.ensured s .resolved]) := if_pos hold
        rw [heq] at hcall
        exact hcall (List.mem_singleton_self _)
      simp only [CallsMeet]
      by_cases hslot : pod.slots.get s = none
      · rw [if_pos hslot]
        by_contra hbusy
        exact (hresolved (.inr (Option.isSome_iff_ne_none.mpr hbusy))).1 hslot
      · rw [if_neg hslot]
        exact (hresolved (.inl (Option.isSome_iff_ne_none.mpr hslot))).2
    | connectSettled s outcome =>
      intro hcall hthrown
      have hstep := h _ _ (by simp only [step, hcall, hthrown]; rfl)
      have horphans := (hstep.1 s .failed (List.mem_singleton_self _)).2.2
      have hlength := congrArg List.length horphans
      simp only [List.length_append, List.length_singleton] at hlength
      omega
    | createdSettled s ok =>
      intro timer hcall
      have hstep := h _ _ (by simp only [step, hcall]; rfl)
      have hsettled := hstep.1 s _ (List.mem_singleton_self _)
      cases ok with
      | true => exact hsettled
      | false => exact hsettled.1
    | _ => trivial
  · intro hmeet pod' out hstep
    have hkept : (∀ s, pod'.slots.get s = none → pod.slots.get s = none) →
        ∀ s slot, pod.slots.get s = some slot → pod'.slots.get s = none →
          slot.signaling ≠ .opened := fun hkept s slot hslot hgone => by
      rw [hkept s hgone] at hslot
      cases hslot
    cases effect_of_step hstep with
    | ensured s =>
      exact ⟨ensureSession_settles hmeet, hkept fun a ha => by rwa [slots_ensureSession] at ha⟩
    | rejected s hcall =>
      refine ⟨fun a outcome h => ?_, hkept fun _ ha => ha⟩
      obtain ⟨rfl, rfl⟩ : a = s ∧ outcome = .failed := by simpa using h
      refine ⟨hu a hcall, fun _ _ => ?_, rfl⟩
      rw [armedTimer, hcall]
      exact fun h => by cases h
    | committed s hcall n =>
      refine ⟨fun a outcome h => by simp at h, hkept fun a ha => ?_⟩
      have hquiet := scheduleIdleTeardown_quiet (pod.addSlot s) s (some "never_connected")
        pod.options.preparedSessionJoinGraceMs
      rw [commitSlot, hquiet.absent, addSlot, InsertMap.get_set] at ha
      split_ifs at ha
      exact ha
    | thrown s hcall => exact absurd rfl (hmeet hcall)
    | created s ok timer hcall =>
      refine ⟨fun a outcome h => ?_, hkept fun _ ha => ha⟩
      obtain ⟨rfl, rfl⟩ : a = s ∧ outcome = if ok then .resolved else .failed := by simpa using h
      have hslot := hmeet timer hcall
      cases ok with
      | true => exact hslot
      | false =>
        refine ⟨hslot, fun armed harmed heq => ?_, rfl⟩
        exact (hc.armed a armed.handle armed heq harmed rfl).1 hslot
    | hostClosed s r hflight =>
      refine ⟨fun a outcome h => by simp at h, hkept fun a ha => ?_⟩
      unfold updateSlot at ha
      split at ha
      · rw [InsertMap.get_set] at ha
        split_ifs at ha
        exact ha
      · exact ha
    | destroyed s r slot hflight hslot =>
      refine ⟨fun a outcome h => by simp at h, fun a old hold hgone => ?_⟩
      rw [retireSlot, InsertMap.get_delete] at hgone
      by_cases has : a = s
      · rw [hc.disconnected a r old (has ▸ hflight) hold]
        exact fun h => by cases h
      · rw [if_neg has, hold] at hgone
        cases hgone
    | failed s hi => exact ⟨fun a outcome h => by simp at h, hkept fun _ ha => ha⟩
    | quiet hi hquiet =>
      exact ⟨fun a outcome h => (by cases h), hkept fun a ha => (hquiet.absent a).mp ha⟩
    | reconnecting s hi hslot hoff hclosed =>
      refine ⟨fun a outcome h => (by cases h), hkept fun a ha => ?_⟩
      rw [InsertMap.get_set] at ha
      split_ifs at ha
      exact ha

def emptyHost : HostModel where
  State := Unit
  Input := Unit
  new := ()
  step := fun _ _ => some ((), [])
  peerJoined := fun _ => ()
  disconnectPeer := fun _ => ()
  close := ()
  activeClientCount := fun _ => 0
  quarantinedCount := fun _ => 0
  isRecycleRequired := fun _ => false

/-- The defaults, with the grace of a prepared session. -/
def defaultOptions : SessionPodOptions := ⟨true, 5000, 60000, 60000, 0⟩

/-- A second call comes while the host of the first slot is closing. -/
def callDuringTeardown : List (PodInput emptyHost) :=
  [.ensureSession "room", .connectSettled "room" .opened, .createdSettled "room" true,
    .teardownSession "room" none, .ensureSession "room"]

/-- The `created` hook rejects once the slot is committed. -/
def createdRejects : List (PodInput emptyHost) :=
  [.ensureSession "room", .connectSettled "room" .opened, .createdSettled "room" false]

end SessionPod

end NodeWebrtc.Pod
