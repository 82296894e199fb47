import NodeWebrtc.Pod.EnsureSession
import Mathlib.Data.Finset.Card

/-! # Prepared-session capacity

A pod admits a session while fewer than `maxPreparedSessions` are held or being prepared. It adds
the sizes of both collections, so a session whose `created` hook runs counts twice: it never holds
too many, and may turn a session away while there is room.
-/

namespace NodeWebrtc

namespace InsertMap

variable {κ ν : Type} [DecidableEq κ]

def keys (m : InsertMap κ ν) : Finset κ := (m.entries.map Prod.fst).toFinset

theorem mem_keys (m : InsertMap κ ν) (k : κ) : k ∈ m.keys ↔ m.get k ≠ none := by
  rw [keys, List.mem_toFinset, mem_keys_iff, Option.ne_none_iff_exists']

theorem card_keys (m : InsertMap κ ν) : m.keys.card = m.size := by
  rw [keys, List.toFinset_card_of_nodup m.nodup, List.length_map, size]

end InsertMap

end NodeWebrtc

namespace NodeWebrtc.Pod

open Machine

namespace SessionPod

variable {H : HostModel} {pod pod' : SessionPod H} {s : String}

/-! ## The options stay -/

@[simp] theorem options_updateSlot (pod : SessionPod H) (s : String) (f : SessionSlot → SessionSlot) :
    (pod.updateSlot s f).options = pod.options := by
  unfold updateSlot
  split <;> rfl

@[simp] theorem options_cancelTeardownTimer (pod : SessionPod H) (s : String) :
    (pod.cancelTeardownTimer s).options = pod.options := options_updateSlot _ s _

@[simp] theorem options_onPeerHook (pod : SessionPod H) (s : String) (hook : PeerHook) :
    (pod.onPeerHook s hook).options = pod.options := by
  unfold onPeerHook maybeScheduleIdleTeardownAfterLastPeer
  cases hook <;> dsimp only <;> split <;> simp

theorem options_hostHandles {k : Nat} {i : H.Input} (h : pod.hostHandles k i = some pod') :
    pod'.options = pod.options := by
  simp only [hostHandles, Option.bind_eq_some_iff, Option.map_eq_some_iff] at h
  obtain ⟨⟨s, st⟩, -, r, -, rfl⟩ := h
  have hfold : ∀ (hooks : List PeerHook) (start : SessionPod H),
      (hooks.foldl (fun pod hook => pod.onPeerHook s hook) start).options = start.options := by
    intro hooks
    induction hooks with
    | nil => exact fun _ => rfl
    | cons hook hooks ih => exact fun start => (ih _).trans (options_onPeerHook _ _ _)
  exact hfold r.2 _

@[simp] theorem options_teardownSession (pod : SessionPod H) (s : String) (endReason : Option String) :
    (pod.teardownSession s endReason).options = pod.options := by
  unfold teardownSession
  split
  · exact options_updateSlot pod s _
  · split
    · rfl
    · unfold teardownSessionOnce
      dsimp only
      cases hhost : hostHandles _ _ _ with
      | none => exact options_cancelTeardownTimer _ s
      | some after => exact (options_hostHandles hhost).trans (options_cancelTeardownTimer _ s)

@[simp] theorem options_scheduleIdleTeardown (pod : SessionPod H) (s : String)
    (endReason : Option String) (graceMs : Nat) :
    (pod.scheduleIdleTeardown s endReason graceMs).options = pod.options := by
  unfold scheduleIdleTeardown
  split
  · rfl
  · dsimp only
    split
    · simp
    · split <;> simp

@[simp] theorem options_ensureSession (pod : SessionPod H) (s : String) :
    (pod.ensureSession s).1.options = pod.options := by
  unfold ensureSession
  split_ifs <;> rfl

theorem options_step {i : PodInput H} {out : List PodEvent} (h : step pod i = some (pod', out)) :
    pod'.options = pod.options := by
  have hhost : ∀ {k : Nat} {j : H.Input} {f : SessionPod H → SessionPod H},
      (∀ p, (f p).options = p.options) →
      ((pod.hostHandles k j).map fun p => (f p, ([] : List PodEvent))) = some (pod', out) →
      pod'.options = pod.options := by
    intro k j f hf hmap
    obtain ⟨p, hp, heq⟩ := Option.map_eq_some_iff.mp hmap
    cases heq
    exact (hf p).trans (options_hostHandles hp)
  cases i with simp only [step] at h
  | ensureSession s =>
    have hs : pod.ensureSession s = (pod', out) := Option.some.inj h
    rw [← options_ensureSession pod s, hs]
  | peerJoined s peerId =>
    split at h
    · split_ifs at h
      exact hhost (fun p => by split_ifs <;> simp) h
    · cases h
  | host k j => exact hhost (fun _ => rfl) h
  | disconnectPeer s peerId endReason =>
    split at h
    · exact hhost (f := fun p => { p with disconnects := p.disconnects ++ [_] }) (fun _ => rfl) h
    · cases h
      rfl
  | _ =>
    repeat' split at h
    all_goals
      cases h
      try simp [retireSlot, failTeardown, addSlot]

/-! ## The slots that are held or promised -/

/-- The sessions that have a slot or will get one when their client connects. -/
def reserved (pod : SessionPod H) : Finset String :=
  pod.slots.keys ∪ pod.preparingSessions.keys.filter fun s =>
    pod.preparingSessions.get s = some .connecting

theorem mem_reserved : s ∈ pod.reserved ↔
    pod.slots.get s ≠ none ∨ pod.preparingSessions.get s = some .connecting := by
  rw [reserved, Finset.mem_union, Finset.mem_filter, InsertMap.mem_keys, InsertMap.mem_keys]
  constructor
  · rintro (hslot | ⟨-, hcall⟩)
    · exact .inl hslot
    · exact .inr hcall
  · rintro (hslot | hcall)
    · exact .inl hslot
    · exact .inr ⟨by rw [hcall]; nofun, hcall⟩

theorem size_le_reserved (pod : SessionPod H) : pod.slots.size ≤ pod.reserved.card := by
  rw [← InsertMap.card_keys]
  exact Finset.card_le_card Finset.subset_union_left

/-- The invariant: what is held or promised fits. -/
def Fits (pod : SessionPod H) : Prop := pod.reserved.card ≤ pod.options.maxPreparedSessions

theorem Fits.of_subset (h : pod.Fits) (hoptions : pod'.options = pod.options)
    (hsub : ∀ s, s ∈ pod'.reserved → s ∈ pod.reserved) : pod'.Fits := by
  rw [Fits, hoptions]
  exact (Finset.card_le_card hsub).trans h

theorem Fits.ensureSession (h : pod.Fits) (hm : 0 < pod.options.maxPreparedSessions) (s : String) :
    (pod.ensureSession s).1.Fits := by
  unfold SessionPod.ensureSession
  split_ifs with hthere hrecycle hfull
  · exact h
  · exact h
  · exact h
  · have hroom : pod.slots.size + pod.preparingSessions.size < pod.options.maxPreparedSessions := by
      by_contra hover
      exact hfull ⟨hm, by omega⟩
    have hsub : ∀ a, a ∈ reserved { pod.pruneRetiredHosts with
        preparingSessions := pod.preparingSessions.set s .connecting } →
        a ∈ insert s (pod.slots.keys ∪ pod.preparingSessions.keys) := by
      intro a ha
      rw [mem_reserved, InsertMap.get_set] at ha
      rw [Finset.mem_insert, Finset.mem_union, InsertMap.mem_keys, InsertMap.mem_keys]
      by_cases has : a = s
      · exact .inl has
      · rw [if_neg has] at ha
        rcases ha with hslot | hcall
        · exact .inr (.inl hslot)
        · exact .inr (.inr (by simp [hcall]))
    have hcard := Finset.card_le_card hsub
    have hinsert := Finset.card_insert_le s (pod.slots.keys ∪ pod.preparingSessions.keys)
    have hunion := Finset.card_union_le pod.slots.keys pod.preparingSessions.keys
    rw [InsertMap.card_keys, InsertMap.card_keys] at hunion
    have hfits : (insert s (pod.slots.keys ∪ pod.preparingSessions.keys)).card ≤
        pod.options.maxPreparedSessions := by omega
    exact hcard.trans hfits

theorem reserved_quiet (h : Quiet pod pod') (hs : s ∈ pod'.reserved) : s ∈ pod.reserved := by
  rw [mem_reserved, h.preparing, ne_eq, h.absent] at hs
  exact mem_reserved.mpr hs

theorem fits_step {i : PodInput H} {out : List PodEvent} (hm : 0 < pod.options.maxPreparedSessions)
    (hf : pod.Fits) (h : step pod i = some (pod', out)) : pod'.Fits := by
  have hoptions := options_step h
  have hsettled : ∀ (s : String) (outcome : EnsureOutcome) (orphans : List String) (a : String),
      a ∈ ({ pod with orphans := orphans }.settleEnsure s outcome).1.reserved → a ∈ pod.reserved := by
    intro s outcome orphans a ha
    rw [mem_reserved, settleEnsure] at ha
    rw [mem_reserved]
    rw [InsertMap.get_delete] at ha
    split_ifs at ha
    · exact .inl (ha.resolve_right (by simp))
    · exact ha
  cases effect_of_step h with
  | ensured s => exact hf.ensureSession hm s
  | rejected s hcall => exact hf.of_subset hoptions (hsettled s .failed pod.orphans)
  | committed s hcall n =>
    refine hf.of_subset hoptions fun a ha => ?_
    have hquiet := scheduleIdleTeardown_quiet (pod.addSlot s) s (some "never_connected")
      pod.options.preparedSessionJoinGraceMs
    rw [mem_reserved, commitSlot] at ha
    rw [ne_eq, hquiet.absent, InsertMap.get_set, addSlot, InsertMap.get_set] at ha
    rw [mem_reserved]
    by_cases has : a = s
    · exact .inr (has ▸ hcall)
    · rw [if_neg has, if_neg has] at ha
      exact ha
  | thrown s hcall => exact hf.of_subset hoptions (hsettled s .failed _)
  | created s ok timer hcall => exact hf.of_subset hoptions (hsettled s .resolved pod.orphans)
  | hostClosed s r hflight =>
    refine hf.of_subset hoptions fun a ha => ?_
    rw [mem_reserved] at ha ⊢
    unfold updateSlot at ha
    split at ha
    next slot hslot =>
      have hheld : pod.slots.get s = some slot := hslot
      rw [InsertMap.get_set] at ha
      split_ifs at ha with has
      · exact .inl (by simp [has, hheld])
      · exact ha
    next => exact ha
  | destroyed s r slot hflight hslot =>
    refine hf.of_subset hoptions fun a ha => ?_
    rw [mem_reserved, retireSlot] at ha
    dsimp only at ha
    rw [InsertMap.get_delete] at ha
    rw [mem_reserved]
    split_ifs at ha
    · exact .inr (ha.resolve_left fun h => h rfl)
    · exact ha
  | failed s hi => exact hf
  | quiet hi hquiet => exact hf.of_subset hoptions fun a => reserved_quiet hquiet
  | reconnecting s hi hslot hoff hclosed =>
    refine hf.of_subset hoptions fun a ha => ?_
    rw [mem_reserved, InsertMap.get_set] at ha
    rw [mem_reserved]
    split_ifs at ha with has
    · exact .inl (by simp [has, hslot])
    · exact ha

/-! ## Exact capacity -/

/-- The sessions that are held or being prepared, each once. -/
def occupied (pod : SessionPod H) : Finset String := pod.slots.keys ∪ pod.preparingSessions.keys

/-- The sessions that are held while their call goes on. -/
def countedTwice (pod : SessionPod H) : Finset String := pod.slots.keys ∩ pod.preparingSessions.keys

/-- After the step no more slots are held than prepared, and a call that was turned away for lack of
capacity found as many other sessions. -/
def CapacityExact (pod : SessionPod H) (i : PodInput H) : Prop :=
  ∀ pod' out, step pod i = some (pod', out) →
    pod'.slots.size ≤ pod'.options.maxPreparedSessions ∧
    ∀ s active most, .ensured s (.capacityFull active most) ∈ out →
      pod.options.maxPreparedSessions ≤ (pod.occupied.erase s).card

/-- A call that gets to the capacity check finds the pod full, or it is not full even with the
sessions that count twice. -/
def CountsOnce (pod : SessionPod H) : PodInput H → Prop
  | .ensureSession s => s ∈ pod.occupied ∨ pod.isRecycleRequired = true ∨
      pod.options.maxPreparedSessions ≤ pod.occupied.card ∨
      pod.occupied.card + pod.countedTwice.card < pod.options.maxPreparedSessions
  | _ => True

theorem mem_occupied : s ∈ pod.occupied ↔
    (pod.slots.get s).isSome ∨ (pod.preparingSessions.get s).isSome := by
  rw [occupied, Finset.mem_union, InsertMap.mem_keys, InsertMap.mem_keys, Option.isSome_iff_ne_none,
    Option.isSome_iff_ne_none]

theorem size_add_size (pod : SessionPod H) :
    pod.slots.size + pod.preparingSessions.size = pod.occupied.card + pod.countedTwice.card := by
  rw [← InsertMap.card_keys, ← InsertMap.card_keys]
  exact (Finset.card_union_add_card_inter _ _).symm

section

variable (hm : 0 < pod.options.maxPreparedSessions)
include hm

theorem capacityFull_mem {a : String} {active most : Nat} :
    .ensured a (.capacityFull active most) ∈ (pod.ensureSession s).2 ↔
      a = s ∧ active = pod.slots.size ∧ most = pod.options.maxPreparedSessions ∧
        s ∉ pod.occupied ∧ ¬ pod.isRecycleRequired ∧
        pod.options.maxPreparedSessions ≤ pod.occupied.card + pod.countedTwice.card := by
  rw [← size_add_size, mem_occupied]
  unfold ensureSession
  split_ifs with hthere hrecycle hfull
  · simp [hthere]
  · simp [hrecycle]
  · have hle : pod.options.maxPreparedSessions ≤ pod.slots.size + pod.preparingSessions.size := by
      omega
    simp [hthere, hrecycle, hle]
  · have hlt : pod.slots.size + pod.preparingSessions.size < pod.options.maxPreparedSessions := by
      omega
    simp [hlt]

theorem ensureSession_of_full {i : PodInput H} {out : List PodEvent} {active most : Nat}
    (h : step pod i = some (pod', out)) (hout : .ensured s (.capacityFull active most) ∈ out) :
    i = .ensureSession s := by
  cases effect_of_step h with
  | ensured a => rw [((capacityFull_mem hm).mp hout).1]
  | created a ok timer hcall => cases ok <;> simp at hout
  | _ => simp at hout

theorem capacityExact_iff {i : PodInput H} (hf : pod.Fits) :
    CapacityExact pod i ↔ CountsOnce pod i := by
  have hslots : ∀ pod' out, step pod i = some (pod', out) →
      pod'.slots.size ≤ pod'.options.maxPreparedSessions := fun pod' out h =>
    pod'.size_le_reserved.trans (fits_step hm hf h)
  constructor
  · intro h
    cases i with
    | ensureSession s =>
      have hexact := (h _ _ rfl).2 s pod.slots.size pod.options.maxPreparedSessions
      by_contra hnot
      simp only [CountsOnce, not_or, not_le, not_lt] at hnot
      obtain ⟨hthere, hrecycle, hroom, hsum⟩ := hnot
      have hle := hexact ((capacityFull_mem hm).mpr ⟨rfl, rfl, rfl, hthere, hrecycle, hsum⟩)
      rw [Finset.erase_eq_of_notMem hthere] at hle
      omega
    | _ => trivial
  · intro h pod' out hs
    refine ⟨hslots pod' out hs, fun s active most hout => ?_⟩
    obtain rfl := ensureSession_of_full hm hs hout
    rw [← (Prod.mk.inj (Option.some.inj hs)).2] at hout
    obtain ⟨-, -, -, hthere, hrecycle, hsum⟩ := (capacityFull_mem hm).mp hout
    rw [Finset.erase_eq_of_notMem hthere]
    rcases h with hin | hrequired | hfull | hroom
    · exact absurd hin hthere
    · exact absurd hrequired hrecycle
    · exact hfull
    · omega

end

theorem capacity_exact_iff (options : SessionPodOptions) (hm : 0 < options.maxPreparedSessions)
    (is : List (PodInput H)) :
    Along step CapacityExact (new H options) is ↔ Along step CountsOnce (new H options) is :=
  along_congr (I := fun pod => 0 < pod.options.maxPreparedSessions ∧ pod.Fits)
    (fun _ _ _ _ h hs => ⟨(options_step hs).symm ▸ h.1, fits_step h.1 h.2 hs⟩)
    (fun _ _ h => capacityExact_iff h.1 h.2)
    ⟨hm, Nat.zero_le _⟩ is

/-- One slot is held with its hook over, and a second session is admitted. -/
theorem capacity_exact_iff_two :
    let is : List (PodInput emptyHost) := [.ensureSession "a", .connectSettled "a" .opened,
      .createdSettled "a" true, .ensureSession "b"]
    Along step CapacityExact (new emptyHost { defaultOptions with maxPreparedSessions := 2 }) is ↔
      Along step CountsOnce (new emptyHost { defaultOptions with maxPreparedSessions := 2 }) is :=
  capacity_exact_iff _ (by decide) _

/-- A second session is turned away while the `created` hook of the only other one runs. -/
theorem not_capacity_exact : ¬ Along step CapacityExact
    (new emptyHost { defaultOptions with maxPreparedSessions := 2 })
    [.ensureSession "a", .connectSettled "a" .opened, .ensureSession "b"] := by
  intro h
  have hlast := ((h.2 _ _ rfl).2 _ _ rfl).1 _ _ rfl
  exact absurd (hlast.2 "b" 1 2 (by decide)) (by decide)

end SessionPod

end NodeWebrtc.Pod
