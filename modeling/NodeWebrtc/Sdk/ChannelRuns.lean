import NodeWebrtc.Sdk.DataChannel

/-! # Runs of a data channel

What is sent while the channel is open goes straight to the native channel, in order; what is sent
earlier is dropped, and never queued. A close is undone by a create that resolves after it and by
a native open.
-/

namespace NodeWebrtc.Sdk

open Machine

namespace RTCDataChannel

/-! ## Payloads handed over -/

def SendsWhenOpen (c : RTCDataChannel) : ChannelInput → Prop
  | .send _ => c.readyState = .opened
  | _ => True

def owed (c : RTCDataChannel) : Nat := c.sending + c.reads.length

/-- A native send or read that fails leaves another answer to come. -/
def FailsBeforeLast (c : RTCDataChannel) : ChannelInput → Prop
  | .sendFailed _ => 2 ≤ c.owed
  | .readFailed _ _ => 2 ≤ c.owed
  | _ => True

/-- Once no answer is owed, the buffered amount is what the native channel answered last. -/
def Reported (is : List ChannelInput) (c : RTCDataChannel) : Prop :=
  c.owed = 0 → c.bufferedAmount = lastReported is

variable {i : ChannelInput}

theorem sentPayload_of_ne (h : ∀ data, i ≠ .send data) : sentPayload i = none := by
  cases i with
  | send data => exact absurd rfl (h data)
  | _ => rfl

variable {c c' : RTCDataChannel} {out : List ChannelEvent}

theorem handed_of_sendsWhenOpen (h : c.NeverQueues) (hs : c.step i = some (c', out))
    (hopen : SendsWhenOpen c i) :
    handed out = (sent [i]).map toNativeSendPayload := by
  cases move_of_step h hs with
  | created state creating result silent => rw [silent]; rfl
  | dropped data shut => exact absurd hopen shut
  | handed data shown handle result given => rw [given]; rfl
  | close result closes =>
    rw [closes]
    split <;> rfl
  | opened handle result event | closed result event => rw [event]; rfl
  | quiet hq sends => rw [hq.handed, sent, List.filterMap_cons_none (sentPayload_of_ne sends)]; rfl

theorem handed_of_shut (h : c.NeverQueues) (hs : c.step i = some (c', out))
    (hshut : ¬SendsWhenOpen c i) :
    handed out = [] ∧ (sent [i]).length = 1 := by
  cases move_of_step h hs with
  | dropped data shut result lost =>
    rw [lost]
    exact ⟨rfl, rfl⟩
  | handed data shown => exact absurd shown hshut
  | quiet hq sends =>
    cases i with
    | send data => exact absurd rfl (sends data)
    | _ => exact absurd trivial hshut
  | _ => exact absurd trivial hshut

variable {is : List ChannelInput} {os : List ChannelEvent}

theorem handed_run {u : RTCDataChannel} (h : c.NeverQueues) (hr : run step c is = some (u, os)) :
    (handed os).length ≤ (sent is).length ∧
      (handed os = (sent is).map toNativeSendPayload ↔ Along step SendsWhenOpen c is) := by
  induction is generalizing c os with
  | nil =>
    cases hr
    exact ⟨Nat.le_refl _, fun _ => trivial, fun _ => rfl⟩
  | cons i is ih =>
    obtain ⟨c', out, outs, hs, htail, rfl⟩ := run_cons_eq_some.mp hr
    obtain ⟨hle, hiff⟩ := ih (h.step hs) htail
    have hsent : sent (i :: is) = sent [i] ++ sent is := sent_append [i] is
    rw [handed_append, hsent, List.map_append]
    by_cases hopen : SendsWhenOpen c i
    · rw [handed_of_sendsWhenOpen h hs hopen]
      refine ⟨by simpa using hle, fun heq => ?_, fun ha => ?_⟩
      · exact Along.cons hopen hs (hiff.mp (List.append_cancel_left heq))
      · rw [hiff.mpr (ha.2 c' out hs)]
    · obtain ⟨hnone, hone⟩ := handed_of_shut h hs hopen
      rw [hnone, List.nil_append]
      refine ⟨by rw [List.length_append]; omega, fun heq => ?_, fun ha => absurd ha.1 hopen⟩
      have hlen := congrArg List.length heq
      rw [List.length_append, List.length_map, List.length_map, hone] at hlen
      omega

/-! ## The buffered amount -/

theorem Reported.same (h : Reported is c) (hlast : lastReported (is ++ [i]) = lastReported is)
    (howed : c.owed ≤ c'.owed) (hamount : c'.bufferedAmount = c.bufferedAmount ∨ 0 < c'.owed) :
    Reported (is ++ [i]) c' := by
  intro hnone
  rw [hlast]
  rcases hamount with hamount | hpos
  · rw [hamount]
    exact h (by omega)
  · omega

theorem Reported.step (h : Reported is c) (hq : c.NeverQueues) (hs : c.step i = some (c', out))
    (hlast : FailsBeforeLast c i) : Reported (is ++ [i]) c' := by
  have hlater := lastReported_append is i
  cases i with
  | created state =>
    simp only [RTCDataChannel.step, attach_eq hq] at hs
    split at hs <;> cases hs
    exact h.same hlater (Nat.le_refl _) (.inl rfl)
  | createFailed message =>
    simp only [RTCDataChannel.step] at hs
    split at hs <;> cases hs
    exact h.same hlater (Nat.le_refl _) (.inl rfl)
  | send data =>
    cases move_of_step hq hs with
    | dropped data shut result => exact result ▸ h.same hlater (Nat.le_refl _) (.inl rfl)
    | handed data shown handle result =>
      rw [result]
      refine h.same hlater ?_ (.inr ?_) <;> simp only [owed]
      · omega
      · omega
    | quiet _ sends => exact absurd rfl (sends data)
  | close =>
    cases hs
    exact h.same hlater (Nat.le_refl _) (.inl rfl)
  | nativeOpen | nativeBufferedAmountLow =>
    simp only [RTCDataChannel.step, onNative] at hs
    split at hs <;> cases hs
    exact h.same hlater (by simp only [owed, List.length_cons]; omega) (.inl rfl)
  | nativeMessage data | nativeClosed | nativeError message | nativeCloseFailed message =>
    simp only [RTCDataChannel.step, onNative] at hs
    split at hs <;> cases hs
    exact h.same hlater (Nat.le_refl _) (.inl rfl)
  | sendDone =>
    simp only [RTCDataChannel.step, onNative] at hs
    split at hs
    · split at hs <;> cases hs
      exact h.same hlater (by simp only [owed, List.length_cons]; omega) (.inl rfl)
    · cases hs
  | sendFailed message =>
    simp only [RTCDataChannel.step, onNative] at hs
    split at hs
    · split_ifs at hs with hpos
      cases hs
      intro hnone
      simp only [FailsBeforeLast, owed] at hlast hnone
      omega
    · cases hs
  | readDone cause amount =>
    simp only [RTCDataChannel.step, onNative] at hs
    split at hs
    · split at hs <;> cases hs
      exact fun _ => hlater.symm
    · cases hs
  | readFailed cause message =>
    simp only [RTCDataChannel.step, onNative] at hs
    split at hs
    · split at hs <;> cases hs
      next hin =>
        intro hnone
        have hlen := List.length_erase_of_mem hin
        simp only [FailsBeforeLast, owed] at hlast hnone
        omega
    · cases hs

theorem reported_run (hr : run step new is = some (c, os)) (ha : Along step FailsBeforeLast new is)
    :
    Reported is c := by
  have h := run_history (I := fun past _ s => NeverQueues s ∧ Reported past s)
    (fun past _ s i t out h hc hs => ⟨h.1.step hs, h.2.step h.1 hs hc⟩)
    ⟨neverQueues_new, fun _ => rfl⟩ ha hr
  exact h.2

/-- Over every run the native channel is handed exactly what was sent, in order, when each send
finds the channel open and only then; and once no answer is owed the buffered amount is what the
native channel answered last, unless the last answer was a failure. -/
theorem sends_handed_iff {c : RTCDataChannel} {is : List ChannelInput} {os : List ChannelEvent}
    (hr : run step new is = some (c, os)) :
    (handed os = (sent is).map toNativeSendPayload ↔ Along step SendsWhenOpen new is) ∧
      (Along step FailsBeforeLast new is → c.owed = 0 → c.bufferedAmount = lastReported is) :=
  ⟨(handed_run neverQueues_new hr).2, fun ha => reported_run hr ha⟩

theorem sends_handed_iff_two :
    handed [.opened, .handed (.text "a"), .handed (.text "b")] = [.text "a", .text "b"] ∧
      Along step SendsWhenOpen new
        [.created .connecting, .nativeOpen, .send (.text "a"), .send (.text "b")] := by
  have hr : run step new [.created .connecting, .nativeOpen, .send (.text "a"), .send (.text "b")] =
      some (⟨false, some .opened, .opened, 2, [], 2, [.opened]⟩,
        [.opened, .handed (.text "a"), .handed (.text "b")]) := by
    decide
  exact ⟨rfl, (sends_handed_iff hr).1.mp rfl⟩

/-- A text sent before the native channel exists is dropped, and neither the create nor the open
sends it. -/
theorem early_send_lost :
    ∃ c os, run step new [.send (.text "a"), .created .connecting, .nativeOpen, .readDone .opened 0] =
      some (c, os) ∧ c.readyState = .opened ∧ c.pendingSends = [] ∧
        handed os ≠ (sent [.send (.text "a"), .created .connecting, .nativeOpen,
          .readDone .opened 0]).map toNativeSendPayload :=
  ⟨_, _, rfl, rfl, rfl, by decide⟩

/-! ## Closed channels -/

/-- A create that resolves does so with a closed native channel, and no native channel opens. -/
def StaysShut : ChannelInput → Prop
  | .created state => state = .closed
  | .nativeOpen => False
  | _ => True

/-- The channel is closed, and its native channel, when there is one, is closed or was told to. -/
structure Shut (es : List ChannelEvent) (c : RTCDataChannel) : Prop where
  readyState : c.readyState = .closed
  native : ∀ state, c.native = some state → state = .closed ∨ .nativeClose ∈ es

theorem shut_close (c : RTCDataChannel) : Shut c.close.2 c.close.1 := by
  refine ⟨rfl, fun state hn => .inr ?_⟩
  have hn' : c.native = some state := hn
  simp [close, hn']

theorem Shut.step {es : List ChannelEvent} (h : Shut es c) (hq : c.NeverQueues)
    (hs : c.step i = some (c', out)) :
    (Shut (es ++ out) c' ∧ .opened ∉ out) ↔ StaysShut i := by
  have hkeep : ∀ {d : RTCDataChannel}, d.readyState = .closed → d.native = c.native →
      Shut (es ++ out) d := by
    intro d hstate hnative
    refine ⟨hstate, fun state hn => ?_⟩
    exact (h.native state (hnative ▸ hn)).imp_right (List.mem_append_left out)
  cases move_of_step hq hs with
  | created state creating result silent =>
    subst result silent
    constructor
    · exact fun hshut => hshut.1.readyState
    · intro hstate
      refine ⟨⟨hstate, fun shown hn => .inl ?_⟩, List.not_mem_nil⟩
      rw [← hstate]
      exact (Option.some.inj hn).symm
  | dropped data shut result lost =>
    subst result lost
    exact ⟨fun _ => trivial, fun _ => ⟨hkeep h.readyState rfl, by simp⟩⟩
  | handed data shown => rw [h.readyState] at shown; cases shown
  | close result closes =>
    subst result closes
    refine ⟨fun _ => trivial, fun _ => ⟨hkeep rfl rfl, ?_⟩⟩
    split <;> simp
  | opened handle result event =>
    subst event
    exact ⟨fun hshut => absurd (List.mem_singleton_self _) hshut.2, fun hfalse => hfalse.elim⟩
  | closed result event =>
    subst result event
    refine ⟨fun _ => trivial, fun _ => ⟨⟨rfl, fun shown hn => .inl ?_⟩, by simp⟩⟩
    exact (Option.some.inj hn).symm
  | quiet hquiet sends created opens =>
    refine ⟨fun _ => ?_, fun _ => ⟨?_, hquiet.opened⟩⟩
    · cases i with
      | created state => exact absurd rfl (created state)
      | nativeOpen => exact absurd rfl opens
      | _ => trivial
    · exact hkeep (hquiet.readyState.trans h.readyState) hquiet.native

theorem neverQueues_run {u : RTCDataChannel} (h : c.NeverQueues) (hr : run step c is = some (u, os)) :
    u.NeverQueues := by
  have hall : Along step (fun _ _ => True) c is :=
    along_of_forall_mem (P := fun _ => True) (fun _ _ => trivial) _
  exact run_invariant (fun _ _ _ _ hq _ hs => hq.step hs) h hall hr

/-- After a close, in any run, the channel stays closed, its native channel is closed as soon as
it is there and no open event comes, as long as no create resolves with a native channel that is
not closed and no native channel opens, and only then. -/
theorem closed_channel_stays_closed_iff {c u : RTCDataChannel} {is js : List ChannelInput}
    {os outs : List ChannelEvent} (hr : run step new is = some (c, os))
    (hpost : run step c.close.1 js = some (u, outs)) :
    (∀ pre v out, pre <+: js → run step c.close.1 pre = some (v, out) →
      Shut (c.close.2 ++ out) v ∧ .opened ∉ out) ↔ ∀ i ∈ js, StaysShut i := by
  have hq : c.close.1.NeverQueues := (neverQueues_run neverQueues_new hr).step (i := .close) rfl
  rw [← along_iff_forall_mem hpost]
  have hiff := history_iff_of_run (C := fun _ i => StaysShut i)
    (J := fun _ es s => NeverQueues s ∧ Shut (c.close.2 ++ es) s ∧ .opened ∉ es)
    (P := fun _ es s => Shut (c.close.2 ++ es) s ∧ .opened ∉ es)
    (fun past es s i t out hj hs => ?_) [] [] ⟨hq, ?_⟩ ?_ hpost
  · simpa using hiff
  · have hstep := hj.2.1.step hj.1 hs
    rw [List.append_assoc] at hstep
    have hboth : (Shut (c.close.2 ++ (es ++ out)) t ∧ .opened ∉ es ++ out) ↔ StaysShut i := by
      rw [← hstep, List.mem_append, not_or]
      exact and_congr_right fun _ => and_iff_right hj.2.2
    exact ⟨hboth, fun hc => ⟨hj.1.step hs, hboth.mpr hc⟩⟩
  all_goals exact ⟨by rw [List.append_nil]; exact shut_close c, List.not_mem_nil⟩

theorem closed_channel_stays_closed_iff_answers :
    (∀ pre v out, pre <+: [.sendDone, .nativeClosed] →
      run step ⟨false, some .opened, .closed, 1, [], 1, [.opened]⟩ pre = some (v, out) →
      Shut ([.nativeClose] ++ out) v ∧ .opened ∉ out) ↔ ∀ i ∈ [.sendDone, .nativeClosed], StaysShut i := by
  have hr : run step new [.created .connecting, .nativeOpen, .send (.text "a")] =
      some (⟨false, some .opened, .opened, 1, [], 1, [.opened]⟩, [.opened, .handed (.text "a")]) := by
    decide
  have hpost : run step (close ⟨false, some .opened, .opened, 1, [], 1, [.opened]⟩).1
      [.sendDone, .nativeClosed] =
        some (⟨false, some .closed, .closed, 1, [], 0, [.sent, .opened]⟩, [.closed]) := by
    decide
  exact closed_channel_stays_closed_iff hr hpost

/-- A close before the native channel exists: the create opens the channel again, and its native
channel is never closed. -/
theorem early_close_undone :
    ∃ c os, run step new [.close, .created .opened] = some (c, os) ∧ c.readyState = .opened ∧
      .nativeClose ∉ os :=
  ⟨_, _, rfl, rfl, by decide⟩

end RTCDataChannel

end NodeWebrtc.Sdk
