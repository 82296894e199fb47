import NodeWebrtc.InboundAudio.ReorderTiling

/-! # When the reorder buffer gives a gap up

The gap clock is the arrival of some held packet, and a gap is given up only when that
packet has waited or too many are held. The adaptive wait stays within its bounds, and a
loop that polls at the deadline makes progress.
-/

namespace NodeWebrtc.InboundAudio

open Std

/-- A gap that ends before `stop` may be declared lost: too many packets are held after
it, or one of them has waited long enough. -/
def Due (held : ExtTreeMap Int Held) (wait : Duration) (now : Instant) (stop : Int) : Prop :=
  MAX_HELD < (held.toList.filter fun e => decide (stop ≤ e.1)).length ∨
    ∃ k h, held[k]? = some h ∧ stop ≤ k ∧ h.arrived + wait ≤ now

/-- Every loss in an output that starts at `n` was due. -/
def LossesDue (held : ExtTreeMap Int Held) (wait : Duration) (now : Instant) :
    Int → List StageOut → Prop
  | _, [] => True
  | n, .packet _ :: out => LossesDue held wait now (n + 1) out
  | n, .lost count _ :: out =>
    Due held wait now (n + count) ∧ LossesDue held wait now (n + count) out

theorem Due.mono {held held' : ExtTreeMap Int Held} {wait : Duration} {now : Instant} {stop : Int}
    {k : Int} (herase : held' = held.erase k) (h : Due held' wait now stop) :
    Due held wait now stop := by
  subst herase
  rcases h with h | ⟨k', h', hk', hstop, harrived⟩
  · refine .inl (Nat.lt_of_lt_of_le h ?_)
    cases hk : held[k]? with
    | none =>
      have hsame : held.erase k = held := by
        apply ExtTreeMap.ext_getElem?
        intro a
        rw [OrdMap.lookup_erase]
        split
        · next heq => rw [heq, hk]
        · rfl
      exact Nat.le_of_eq (by rw [hsame])
    | some v =>
      rw [((OrdMap.toList_erase_perm hk).filter _).length_eq, List.filter_cons]
      split
      · exact Nat.le_succ _
      · exact Nat.le_refl _
  · rw [OrdMap.lookup_erase] at hk'
    split at hk'
    · cases hk'
    · exact .inr ⟨k', h', hk', hstop, harrived⟩

theorem LossesDue.mono {held held' : ExtTreeMap Int Held} {wait : Duration} {now : Instant}
    {k : Int} (herase : held' = held.erase k) {n : Int} {out : List StageOut}
    (h : LossesDue held' wait now n out) : LossesDue held wait now n out := by
  induction out generalizing n with
  | nil => trivial
  | cons o out ih =>
    cases o with
    | packet p => exact ih h
    | lost count next => exact ⟨h.1.mono herase, ih h.2⟩

namespace InboundReorderBuffer

/-- The gap clock shows the arrival of a held packet. -/
def ClockFromHeld (b : InboundReorderBuffer) : Prop :=
  ∀ t, b.gapSince = some t → ∃ (k : Int) (h : Held), b.held[k]? = some h ∧ h.arrived = t

/-- The buffer `b'` after `advance` at `now` from `b`: what went out, and why nothing more
did. -/
structure Settles (b b' : InboundReorderBuffer) (now : Instant) (n : Int)
    (produced : List StageOut) (m : Int) : Prop where
  emits : b.Emits b' n produced m
  wait : b'.wait = b.wait
  losses : LossesDue b.held b.wait now n produced
  clock : b'.ClockFromHeld
  waiting : ∀ t, b'.gapSince = some t → now < t + b'.wait
  clocked : b'.gapSince = none ↔ b'.held = ∅
  kept : ∀ (k : Int) (h : Held), b'.held[k]? = some h → b.held[k]? = some h

variable {b : InboundReorderBuffer}

theorem advance_gap {n first : Int} {h : Held} (now : Instant)
    (hfirst : OrdMap.first? b.held = some (first, h)) (hnext : b.next = some n) (hne : first ≠ n) :
    b.advance now =
      if b.gapSince.getD h.arrived + b.wait ≤ now ∨ MAX_HELD < b.held.size then
        (giveUpGap { b with gapSince := some (b.gapSince.getD h.arrived) } n first now).advance now
      else some { b with gapSince := some (b.gapSince.getD h.arrived) } := by
  rw [advance]
  split
  · next hnone => cases hnone.symm.trans hfirst
  · next first' h' hfirst' =>
    obtain ⟨rfl, rfl⟩ := Prod.mk.inj (Option.some.inj (hfirst'.symm.trans hfirst))
    split
    · next hnone => cases hnone.symm.trans hnext
    · next n' hnext' =>
      obtain rfl := Option.some.inj (hnext'.symm.trans hnext)
      rw [if_neg hne]

theorem ClockFromHeld.started {first : Int} {h : Held} (hclock : b.ClockFromHeld)
    (hk : b.held[first]? = some h) :
    ∃ (k : Int) (h' : Held), b.held[k]? = some h' ∧
      h'.arrived = b.gapSince.getD h.arrived := by
  cases hsince : b.gapSince with
  | none => exact ⟨first, h, hk, rfl⟩
  | some t => exact hclock t hsince

theorem due_of_giveUp {first : Int} {h : Held} {now : Instant} (hclock : b.ClockFromHeld)
    (hfirst : OrdMap.first? b.held = some (first, h))
    (hgive : b.gapSince.getD h.arrived + b.wait ≤ now ∨ MAX_HELD < b.held.size) :
    Due b.held b.wait now first := by
  obtain ⟨hk, hleast⟩ := OrdMap.first?_eq_some hfirst
  have hafter : ∀ k ∈ b.held, first ≤ k := by
    intro k hmem
    have hle := hleast k hmem
    rwa [isLE_compare] at hle
  rcases hgive with hwaited | hfull
  · obtain ⟨k, h', hk', harrived⟩ := hclock.started hk
    refine .inr ⟨k, h', hk', hafter k ?_, harrived ▸ hwaited⟩
    exact ExtTreeMap.mem_iff_isSome_getElem?.mpr (by rw [hk']; rfl)
  · refine .inl ?_
    rw [List.filter_eq_self.mpr, ExtTreeMap.length_toList]
    · exact hfull
    · intro e he
      obtain ⟨k, v⟩ := e
      have hmem : k ∈ b.held := by
        rw [ExtTreeMap.mem_iff_isSome_getElem?, ExtTreeMap.mem_toList_iff_getElem?_eq_some.mp he]
        rfl
      exact decide_eq_true (hafter k hmem)

theorem advance_settles {n : Int} (hb : b.StandsAt n) (hclock : b.ClockFromHeld) (now : Instant) :
    ∃ b' produced m, b.advance now = some b' ∧ b.Settles b' now n produced m := by
  induction hsize : b.held.size using Nat.strongRecOn generalizing b n with
  | _ size ih =>
    subst hsize
    cases hfirst : OrdMap.first? b.held with
    | none =>
      have hempty := OrdMap.first?_eq_none hfirst
      refine ⟨_, [], n, advance_of_empty hempty now, (Emits.refl hb).setGap none, rfl, trivial,
        ?_, ?_, ?_, fun k h hk => hk⟩
      · intro t ht
        cases ht
      · intro t ht
        cases ht
      · exact ⟨fun _ => hempty, fun _ => rfl⟩
    | some entry =>
      obtain ⟨first, h⟩ := entry
      have hk := (OrdMap.first?_eq_some hfirst).1
      -- the rounds that emit the head leave a smaller buffer whose clock is stopped
      have hrest : ∀ c : InboundReorderBuffer, c.held = b.held → c.wait = b.wait →
          c.emitNext.StandsAt (first + 1) → ∃ b' produced m, c.emitNext.advance now = some b' ∧
            c.emitNext.Settles b' now (first + 1) produced m ∧
            LossesDue b.held b.wait now (first + 1) produced ∧ b'.wait = b.wait ∧
            ∀ (k : Int) (h : Held), b'.held[k]? = some h → b.held[k]? = some h := by
        intro c hheld hwait hstands
        have hcfirst : OrdMap.first? c.held = some (first, h) := hheld ▸ hfirst
        have hless : c.emitNext.held.size < b.held.size :=
          hheld ▸ Nat.lt_of_succ_le (Nat.le_of_eq (size_emitHeldHead hcfirst))
        have hstopped : c.emitNext.ClockFromHeld := by
          intro t ht
          cases ht
        obtain ⟨b', produced, m, hadv, hsettles⟩ := ih _ hless hstands hstopped rfl
        have hheld' : c.emitNext.held = b.held.erase first := by
          rw [emitNext, emitHeldHead_eq hcfirst, ← hheld]
        have hwait' : c.emitNext.wait = b.wait := by rw [emitNext, emitHeldHead_eq hcfirst, ← hwait]
        refine ⟨b', produced, m, hadv, hsettles, ?_, hsettles.wait.trans hwait', ?_⟩
        · exact (hwait' ▸ hsettles.losses).mono hheld'
        · intro k h' hk'
          have hk := hsettles.kept k h' hk'
          rw [hheld', OrdMap.lookup_erase] at hk
          split_ifs at hk
          exact hk
      by_cases hfilled : first = n
      · subst hfilled
        have hout : b.Emits b.emitNext first [.packet h.packet] (first + 1) :=
          (emitHeldHead_emits hb hfirst).setGap none
        obtain ⟨b', produced, m, hadv, hs, hlosses, hwait, hkept⟩ :=
          hrest b rfl rfl hout.stands
        exact ⟨b', _, m, (advance_filled now hfirst hb.next).trans hadv, hout.trans hs.emits,
          hwait, hlosses, hs.clock, hs.waiting, hs.clocked, hkept⟩
      · by_cases hgive : b.gapSince.getD h.arrived + b.wait ≤ now ∨ MAX_HELD < b.held.size
        · have hwaiting : StandsAt { b with gapSince := some (b.gapSince.getD h.arrived) } n :=
            ⟨hb.next, hb.held⟩
          have hout := (giveUpGap_emits hwaiting hfirst hfilled now).ofGap
          have hnext := advance_filled
            (b := giveUpGap { b with gapSince := some (b.gapSince.getD h.arrived) } n first now)
            now hfirst rfl
          obtain ⟨b', produced, m, hadv, hs, hlosses, hwait, hkept⟩ := hrest
            (giveUpGap { b with gapSince := some (b.gapSince.getD h.arrived) } n first now)
            rfl rfl hout.stands
          have hend : n + ((first - n).toNat : Int) = first := by
            have hle := (hb.held first h hk).1
            omega
          refine ⟨b', _, m, ?_, hout.trans hs.emits, hwait, ?_, hs.clock, hs.waiting, hs.clocked,
            hkept⟩
          · rw [advance_gap now hfirst hb.next hfilled, if_pos hgive]
            exact hnext.trans hadv
          · change Due b.held b.wait now (n + ((first - n).toNat : Int)) ∧
              LossesDue b.held b.wait now (n + ((first - n).toNat : Int) + 1) produced
            rw [hend]
            exact ⟨due_of_giveUp hclock hfirst hgive, hlosses⟩
        · refine ⟨{ b with gapSince := some (b.gapSince.getD h.arrived) }, [], n, ?_,
            (Emits.refl hb).setGap _, rfl, trivial, ?_, ?_, ?_, fun k h hk => hk⟩
          · rw [advance_gap now hfirst hb.next hfilled, if_neg hgive]
          · intro t ht
            cases ht
            exact hclock.started hk
          · intro t ht
            cases ht
            exact Nat.lt_of_not_le fun hle => hgive (.inl hle)
          · refine ⟨fun hnone => (by cases hnone), fun hempty => ?_⟩
            have hheld : b.held = ∅ := hempty
            rw [hheld] at hk
            cases hk

/-! ## The calls -/

structure Waiting (b : InboundReorderBuffer) : Prop where
  stands : (b.next = none ∧ b.held = ∅) ∨ ∃ n, b.StandsAt n
  waitBounded : b.WaitBounded
  clock : b.ClockFromHeld
  clocked : b.gapSince = none ↔ b.held = ∅

theorem Waiting.of_eq {c : InboundReorderBuffer} (h : b.Waiting) (hnext : c.next = b.next)
    (hheld : c.held = b.held) (hgap : c.gapSince = b.gapSince) (hwait : c.WaitBounded) :
    c.Waiting where
  stands := by
    rcases h.stands with ⟨hnone, hempty⟩ | ⟨n, hstands⟩
    · exact .inl ⟨hnext.trans hnone, hheld.trans hempty⟩
    · exact .inr ⟨n, hnext.trans hstands.next, hheld ▸ hstands.held⟩
  waitBounded := hwait
  clock := by
    unfold ClockFromHeld
    rw [hgap, hheld]
    exact h.clock
  clocked := by
    rw [hgap, hheld]
    exact h.clocked

theorem Waiting.same {c : InboundReorderBuffer} (h : b.Waiting) (hsame : b.SameQueue c) :
    c.Waiting :=
  h.of_eq hsame.stream.next hsame.stream.held hsame.gapSince (hsame.waitBounded h.waitBounded)

variable {b' : InboundReorderBuffer}

theorem Settles.waiting_after {now : Instant} {n m : Int} {produced : List StageOut}
    (h : b.Settles b' now n produced m) (hb : b.WaitBounded) :
    b'.Waiting where
  stands := .inr ⟨m, h.emits.stands⟩
  waitBounded := by
    unfold WaitBounded
    rw [h.wait]
    exact hb
  clock := h.clock
  clocked := h.clocked

theorem flushHeld_gapSince (b : InboundReorderBuffer) (wall : Nat → Instant) :
    (b.flushHeld wall).gapSince = none ∧ (b.flushHeld wall).wait = b.wait := by
  induction hsize : b.held.size using Nat.strongRecOn generalizing b wall with
  | _ size ih =>
    rw [flushHeld]
    split
    · exact ⟨rfl, rfl⟩
    · rename_i first h hfirst
      have hless := flushRound_size hfirst (wall 0)
      have hwait : (b.flushRound first (wall 0)).wait = b.wait := by
        unfold flushRound
        dsimp only
        split
        · rw [emitHeldHead_eq (b := b.declareLost _ first (wall 0)) hfirst]
          rfl
        · rw [emitHeldHead_eq hfirst]
      obtain ⟨hgap, hrest⟩ := ih _ (by omega) (b.flushRound first (wall 0))
        (fun round => wall (round + 1)) rfl
      exact ⟨hgap, hrest.trans hwait⟩

theorem flushHeld_empty (h : b.Waiting) (wall : Nat → Instant) : (b.flushHeld wall).held = ∅ := by
  rcases h.stands with ⟨-, hempty⟩ | ⟨n, hstands⟩
  · rw [flushHeld_of_empty hempty]
    exact hempty
  · obtain ⟨-, -, -, hempty⟩ := flushHeld_emits hstands wall
    exact hempty

theorem discardLate_sameQueue (b : InboundReorderBuffer) (ext : Int) (now : Instant) :
    b.countDiscarded.SameQueue (b.discardLate ext now) := by
  unfold discardLate
  dsimp only
  split
  · exact SameQueue.refl _
  · refine SameQueue.trans ?_ (observe_sameQueue _ now _)
    exact ⟨⟨rfl, rfl, rfl, rfl, rfl, rfl⟩, rfl, id⟩

/-- A call at `now` left the buffer `b'`: what it holds was held before or just arrived. -/
def HoldsFrom (b b' : InboundReorderBuffer) (now : Instant) : Prop :=
  ∀ (k : Int) (h : Held), b'.held[k]? = some h → b.held[k]? = some h ∨ h.arrived = now

theorem HoldsFrom.of_eq (h : b'.held = b.held) (now : Instant) :
    b.HoldsFrom b' now := fun _ _ hk => .inl (h ▸ hk)

theorem HoldsFrom.of_empty (h : b'.held = ∅) (now : Instant) : b.HoldsFrom b' now := by
  intro k h' hk
  rw [h] at hk
  cases hk

def heldWith (b : InboundReorderBuffer) (packet : RtpPacket) (now : Instant) :
    ExtTreeMap Int Held :=
  b.held.insert (b.maxExt + b.distance packet) ⟨packet, now⟩

theorem accept_waits {n ext : Int} (h : b.Waiting) (hstands : b.StandsAt n) {p : RtpPacket}
    (hseq : (p.sequenceNumber : Int) = ext % 2 ^ 16) (hle : n ≤ ext) (hnew : b.held[ext]? = none)
    (now : Instant) :
    ∃ b' produced, b.accept p n ext now = some b' ∧ b'.Waiting ∧ b.HoldsFrom b' now ∧
      b'.ready = b.ready ++ produced ∧
      LossesDue (b.held.insert ext ⟨p, now⟩) b'.wait now n produced := by
  obtain ⟨c, hc, hcases⟩ := accept_cases b p n ext now
  have hwaiting := h.same hc
  rcases hcases with ⟨rfl, hempty, haccept⟩ | haccept
  · have hcheld : c.held = ∅ := hc.stream.held.trans hempty
    refine ⟨_, [.packet p], haccept, ⟨.inr ⟨ext + 1, rfl, ?_⟩, hwaiting.waitBounded,
      hwaiting.clock, hwaiting.clocked⟩, HoldsFrom.of_empty hcheld now, ?_, trivial⟩
    · intro k h' hk
      have hk' : c.held[k]? = some h' := hk
      rw [hcheld] at hk'
      cases hk'
    · exact congrArg (· ++ [.packet p]) hc.stream.ready
  · have hinserted : StandsAt { c with held := c.held.insert ext ⟨p, now⟩ } n := by
      refine ⟨hc.stream.next.trans hstands.next, fun k h' hk => ?_⟩
      have hk' : (c.held.insert ext ⟨p, now⟩)[k]? = some h' := hk
      rw [OrdMap.lookup_insert, hc.stream.held] at hk'
      split at hk'
      · next heq =>
        cases hk'
        exact heq ▸ ⟨hle, hseq⟩
      · exact hstands.held k h' hk'
    have hclock : ClockFromHeld { c with held := c.held.insert ext ⟨p, now⟩ } := by
      intro t ht
      obtain ⟨k, h', hk, harrived⟩ := hwaiting.clock t ht
      refine ⟨k, h', ?_, harrived⟩
      rw [OrdMap.lookup_insert, if_neg]
      · exact hk
      · rintro rfl
        rw [hc.stream.held, hnew] at hk
        cases hk
    obtain ⟨b', produced, m, hadv, hs⟩ := advance_settles hinserted hclock now
    refine ⟨b', produced, haccept.trans hadv, hs.waiting_after hwaiting.waitBounded, ?_, ?_, ?_⟩
    · intro k h' hk
      have hk' : (c.held.insert ext ⟨p, now⟩)[k]? = some h' := hs.kept k h' hk
      rw [OrdMap.lookup_insert, hc.stream.held] at hk'
      split at hk'
      · cases hk'
        exact .inr rfl
      · exact .inl hk'
    · rw [hs.emits.ready]
      exact congrArg (· ++ produced) hc.stream.ready
    · rw [hs.wait, ← hc.stream.held]
      exact hs.losses

theorem reset_waits (h : b.Waiting) (p : RtpPacket) (wall : Nat → Instant) :
    (b.reset p wall).Waiting ∧ (b.reset p wall).held = ∅ := by
  obtain ⟨c, hc⟩ : ∃ c, c = ({ b with stats := { b.stats with resets := b.stats.resets + 1 } } :
      InboundReorderBuffer) := ⟨_, rfl⟩
  have hcwaiting : c.Waiting := hc ▸ h.of_eq rfl rfl rfl h.waitBounded
  have hempty := flushHeld_empty hcwaiting wall
  have hwait : (c.flushHeld wall).wait = b.wait := by rw [(flushHeld_gapSince c wall).2, hc]
  unfold reset
  rw [← hc]
  refine ⟨⟨.inr ⟨_, rfl, ?_⟩, ?_, ?_, ⟨fun _ => hempty, fun _ => rfl⟩⟩, hempty⟩
  · intro k h' hk
    have hk' : (c.flushHeld wall).held[k]? = some h' := hk
    rw [hempty] at hk'
    cases hk'
  · unfold WaitBounded
    rw [hwait]
    exact h.waitBounded
  · intro t ht
    cases ht

/-- A push restarts the stream at a packet too far from the highest number seen. -/
def Resets (b : InboundReorderBuffer) (packet : RtpPacket) : Prop :=
  b.next ≠ none ∧ RESET_JUMP < (b.distance packet).natAbs

/-- `push` keeps what holds between two calls. It declares nothing lost that is not due,
unless it starts over. -/
theorem push_waits (h : b.Waiting) (p : RtpPacket) (now : Instant) (wall : Nat → Instant) :
    ∃ b', b.push p now wall = some b' ∧ b'.Waiting ∧ b.HoldsFrom b' now ∧
      (¬ b.Resets p → ∃ produced, b'.ready = b.ready ++ produced ∧
        LossesDue (b.heldWith p now) b'.wait now (b.next.getD p.sequenceNumber) produced) := by
  have hrefresh := refreshWait_sameQueue b.countReceived now
  have hmax : (b.countReceived.refreshWait now).maxExt = b.maxExt := refreshWait_maxExt _ now
  unfold push
  dsimp only
  obtain ⟨c, hc⟩ : ∃ c, c = b.countReceived.refreshWait now := ⟨_, rfl⟩
  rw [← hc] at hrefresh hmax ⊢
  have hnext : c.next = b.next := hrefresh.stream.next
  have hheld : c.held = b.held := hrefresh.stream.held
  have hready : c.ready = b.ready := hrefresh.stream.ready
  have hwaiting : c.Waiting :=
    h.of_eq hnext hheld hrefresh.gapSince (hrefresh.waitBounded h.waitBounded)
  have hdistance : c.distance p = b.distance p := by
    unfold distance
    rw [hmax]
  rcases h.stands with ⟨hnone, hempty⟩ | ⟨n, hstands⟩
  · rw [hnext, hnone]
    have hcempty : c.held = ∅ := hheld.trans hempty
    refine ⟨_, rfl, ⟨.inr ⟨_, rfl, ?_⟩, hwaiting.waitBounded, hwaiting.clock, hwaiting.clocked⟩,
      HoldsFrom.of_eq hheld now, fun _ => ⟨[.packet p], congrArg (· ++ [.packet p]) hready,
        trivial⟩⟩
    intro k h' hk
    have hk' : c.held[k]? = some h' := hk
    rw [hcempty] at hk'
    cases hk'
  · rw [hnext, hstands.next, hdistance, hmax]
    dsimp only
    by_cases hfar : RESET_JUMP < (b.distance p).natAbs
    · rw [if_pos hfar]
      have hresets : b.Resets p := ⟨by rw [hstands.next]; exact Option.some_ne_none n, hfar⟩
      obtain ⟨hwaits, hempty⟩ := reset_waits hwaiting p wall
      exact ⟨_, rfl, hwaits, HoldsFrom.of_empty hempty now, fun hno => (hno hresets).elim⟩
    · rw [if_neg hfar]
      by_cases hlate : b.maxExt + b.distance p < n
      · rw [if_pos hlate]
        have hlater := discardLate_sameQueue c (b.maxExt + b.distance p) now
        have hcounted : c.countDiscarded.Waiting :=
          hwaiting.of_eq rfl rfl rfl hwaiting.waitBounded
        refine ⟨_, rfl, hcounted.same hlater,
          HoldsFrom.of_eq (hlater.stream.held.trans hheld) now, fun _ => ⟨[], ?_, trivial⟩⟩
        rw [List.append_nil]
        exact hlater.stream.ready.trans hready
      · rw [if_neg hlate]
        by_cases hduplicate : c.held.contains (b.maxExt + b.distance p) = true
        · rw [if_pos hduplicate]
          refine ⟨_, rfl, hwaiting.of_eq rfl rfl rfl hwaiting.waitBounded,
            HoldsFrom.of_eq hheld now, fun _ => ⟨[], ?_, trivial⟩⟩
          rw [List.append_nil]
          exact hready
        · rw [if_neg hduplicate]
          have hcstands : c.StandsAt n := ⟨hnext.trans hstands.next, hheld ▸ hstands.held⟩
          have hnew : c.held[b.maxExt + b.distance p]? = none := by
            exact ExtTreeMap.getElem?_eq_none hduplicate
          obtain ⟨b', produced, haccept, hwaits, hholds, hout, hlosses⟩ := accept_waits hwaiting
            hcstands (distance_spec b p) (Int.not_lt.mp hlate) hnew now
          refine ⟨b', haccept, hwaits, ?_, fun _ => ⟨produced, ?_, ?_⟩⟩
          · unfold HoldsFrom
            rw [← hheld]
            exact hholds
          · rw [hout, hready]
          · unfold heldWith
            rw [← hheld]
            exact hlosses

/-- `poll` keeps what holds between two calls, declares nothing lost that is not due, and
leaves a deadline after `now` exactly when something is held. -/
theorem poll_waits (h : b.Waiting) (now : Instant) :
    ∃ b' out, b.poll now = some (b', out) ∧ b'.Waiting ∧ b.HoldsFrom b' now ∧
      (∃ produced, out = b.ready ++ produced ∧
        LossesDue b.held b'.wait now (b.next.getD 0) produced) ∧
      (b'.nextDeadline = none ↔ b'.held = ∅) ∧
      ∀ d, b'.nextDeadline = some d → now < d := by
  obtain ⟨c, hc⟩ : ∃ c, c = b.refreshWait now := ⟨_, rfl⟩
  have hsame : b.SameQueue c := hc ▸ refreshWait_sameQueue b now
  have hwaiting := h.same hsame
  rcases hwaiting.stands with ⟨hnone, hempty⟩ | ⟨n, hstands⟩
  · refine ⟨{ c with
      gapSince := none
      ready := [] }, c.ready, ?_, ?_, HoldsFrom.of_eq hsame.stream.held now, ⟨[], ?_, ?_⟩, ?_, ?_⟩
    · rw [poll, ← hc, advance_of_empty hempty now]
      rfl
    · refine ⟨.inl ⟨hnone, hempty⟩, hwaiting.waitBounded, ?_, ⟨fun _ => hempty, fun _ => rfl⟩⟩
      intro t ht
      cases ht
    · rw [List.append_nil]
      exact hsame.stream.ready
    · trivial
    · simp [nextDeadline, hempty]
    · intro d hd
      simp [nextDeadline] at hd
  · obtain ⟨b', produced, m, hadv, hs⟩ := advance_settles hstands hwaiting.clock now
    have hafter := hs.waiting_after hwaiting.waitBounded
    have hheld : b'.held.isEmpty = true ↔ b'.held = ∅ := ExtTreeMap.isEmpty_iff
    refine ⟨{ b' with ready := [] }, b'.ready, ?_,
      hafter.of_eq rfl rfl rfl hafter.waitBounded, ?_, ⟨produced, ?_, ?_⟩, ?_, ?_⟩
    · rw [poll, ← hc, hadv]
      rfl
    · intro k h' hk
      exact .inl (hsame.stream.held ▸ hs.kept k h' hk)
    · rw [hs.emits.ready, hsame.stream.ready]
    · rw [← hsame.stream.next, hstands.next]
      rw [hs.wait, ← hsame.stream.held]
      exact hs.losses
    · change (if b'.held.isEmpty then none else b'.gapSince.map (· + b'.wait)) = none ↔ b'.held = ∅
      rw [← hheld]
      split
      · next hempty => simp [hempty]
      · next hnonempty => rw [Option.map_eq_none_iff, hs.clocked, ← hheld]
    · intro d hd
      have hd' : (if b'.held.isEmpty then none else b'.gapSince.map (· + b'.wait)) = some d := hd
      split at hd'
      · cases hd'
      · rw [Option.map_eq_some_iff] at hd'
        obtain ⟨t, ht, rfl⟩ := hd'
        exact hs.waiting t ht

theorem flush_waits (h : b.Waiting) (wall : Nat → Instant) :
    (b.flush wall).1.Waiting ∧ (b.flush wall).1.held = ∅ := by
  have hempty := flushHeld_empty h wall
  obtain ⟨hgap, hwait⟩ := flushHeld_gapSince b wall
  refine ⟨⟨?_, ?_, ?_, ⟨fun _ => hempty, fun _ => hgap⟩⟩, hempty⟩
  · rcases h.stands with ⟨hnone, hnothing⟩ | ⟨n, hstands⟩
    · refine .inl ⟨?_, hempty⟩
      unfold flush
      rw [flushHeld_of_empty hnothing]
      exact hnone
    · obtain ⟨produced, m, hemits, -⟩ := flushHeld_emits hstands wall
      exact .inr ⟨m, hemits.stands.next, hemits.stands.held⟩
  · unfold WaitBounded
    exact hwait.symm ▸ h.waitBounded
  · intro t ht
    have ht' : (b.flushHeld wall).gapSince = some t := ht
    rw [hgap] at ht'
    cases ht'

theorem new_waits : InboundReorderBuffer.new.Waiting where
  stands := .inl ⟨rfl, rfl⟩
  waitBounded := ⟨Nat.le_refl MIN_WAIT, (by decide : MIN_WAIT ≤ MAX_WAIT)⟩
  clock := by
    intro t ht
    cases ht
  clocked := ⟨fun _ => rfl, fun _ => rfl⟩

theorem step_waits (h : b.Waiting) (call : ReorderCall) :
    ∃ b' out, b.step call = some (b', out) ∧ b'.Waiting := by
  cases call with
  | push p now wall =>
    obtain ⟨b', hpush, hwaits, -⟩ := push_waits h p now wall
    refine ⟨b', [], ?_, hwaits⟩
    rw [step, hpush]
    rfl
  | poll now =>
    obtain ⟨b', out, hpoll, hwaits, -⟩ := poll_waits h now
    exact ⟨b', out, hpoll, hwaits⟩
  | flush wall => exact ⟨_, _, rfl, (flush_waits h wall).1⟩

theorem run_waits (calls : List ReorderCall) :
    ∃ b out, Machine.run step InboundReorderBuffer.new calls = some (b, out) ∧ b.Waiting :=
  Machine.run_total (I := fun _ _ (b : InboundReorderBuffer) => b.Waiting)
    (fun _ _ _ call h => step_waits h call) new_waits calls

/-- After every sequence of calls the adaptive wait is within its bounds; a push that does
not start over, and a poll, declare only gaps lost that are due; and a poll leaves a
deadline exactly when something is held, and then a later one. -/
theorem losses_are_due (calls : List ReorderCall) :
    ∃ b out, Machine.run step InboundReorderBuffer.new calls = some (b, out) ∧
      MIN_WAIT ≤ b.wait ∧ b.wait ≤ MAX_WAIT ∧
      (∀ p now wall, ¬ b.Resets p →
        ∃ b' produced, b.push p now wall = some b' ∧ b'.ready = b.ready ++ produced ∧
          LossesDue (b.heldWith p now) b'.wait now (b.next.getD p.sequenceNumber) produced) ∧
      ∀ now, ∃ b' produced, b.poll now = some (b', b.ready ++ produced) ∧
        LossesDue b.held b'.wait now (b.next.getD 0) produced ∧
        (b'.nextDeadline = none ↔ b'.held = ∅) ∧
        ∀ deadline, b'.nextDeadline = some deadline → now < deadline := by
  obtain ⟨b, out, hrun, hwaits⟩ := run_waits calls
  refine ⟨b, out, hrun, hwaits.waitBounded.1, hwaits.waitBounded.2, ?_, ?_⟩
  · intro p now wall hno
    obtain ⟨b', hpush, -, -, hlosses⟩ := push_waits hwaits p now wall
    obtain ⟨produced, hready, hdue⟩ := hlosses hno
    exact ⟨b', produced, hpush, hready, hdue⟩
  · intro now
    obtain ⟨b', out', hpoll, -, -, ⟨produced, rfl, hdue⟩, hnone, hlater⟩ := poll_waits hwaits now
    exact ⟨b', produced, hpoll, hdue, hnone, hlater⟩

/-! ## How long a packet is held -/

/-- When a call is made, with the clock last seen at `last`; `flush` is given no time. -/
def callTime (last : Instant) : ReorderCall → Instant
  | .push _ now _ => now
  | .poll now => now
  | .flush _ => last

def timedStep : Machine.Step (InboundReorderBuffer × Instant) ReorderCall StageOut :=
  fun s call => (s.1.step call).map fun r => ((r.1, callTime s.2 call), r.2)

/-- The clock does not go back, and no time passes beyond the deadline without a call. -/
def Timely (s : InboundReorderBuffer × Instant) (call : ReorderCall) : Prop :=
  s.2 ≤ callTime s.2 call ∧
    ∀ deadline ∈ s.1.nextDeadline, callTime s.2 call ≤ max deadline s.2

/-- No packet has been held for longer than `MAX_WAIT` when the call is made. -/
def HeldInTime (s : InboundReorderBuffer × Instant) (call : ReorderCall) : Prop :=
  ∀ e ∈ s.1.held.toList, callTime s.2 call ≤ e.2.arrived + MAX_WAIT

/-- The gap clock is not later than the arrival of a held packet. It is when the clock
restarted at a head that arrived after other packets still held. -/
def ClockOldest (b : InboundReorderBuffer) : Prop :=
  ∀ t ∈ b.gapSince, ∀ e ∈ b.held.toList, t ≤ e.2.arrived

instance (s : InboundReorderBuffer × Instant) (call : ReorderCall) : Decidable (Timely s call) :=
  inferInstanceAs (Decidable (_ ∧ _))

instance (s : InboundReorderBuffer × Instant) (call : ReorderCall) :
    Decidable (HeldInTime s call) :=
  inferInstanceAs (Decidable (∀ e ∈ s.1.held.toList, _))

instance (b : InboundReorderBuffer) : Decidable b.ClockOldest :=
  inferInstanceAs (Decidable (∀ t ∈ b.gapSince, _))

theorem heldInTime_of_clockOldest {last : Instant} {call : ReorderCall} (h : b.Waiting)
    (htimely : Timely (b, last) call) (hlast : ∀ e ∈ b.held.toList, last ≤ e.2.arrived + MAX_WAIT)
    (hclock : b.ClockOldest) :
    HeldInTime (b, last) call := by
  intro e he
  have hlast := hlast e he
  have hk : b.held[e.1]? = some e.2 := ExtTreeMap.mem_toList_iff_getElem?_eq_some.mp he
  have hne : b.held ≠ ∅ := by
    intro hempty
    rw [hempty] at hk
    cases hk
  cases hgap : b.gapSince with
  | none => exact (hne (h.clocked.mp hgap)).elim
  | some t =>
    have hdeadline : b.nextDeadline = some (t + b.wait) := by
      unfold nextDeadline
      rw [if_neg (fun hempty => hne (ExtTreeMap.isEmpty_iff.mp hempty)), hgap]
      rfl
    have hcall := htimely.2 _ hdeadline
    have hoverdue : t + b.wait ≤ e.2.arrived + MAX_WAIT :=
      Nat.add_le_add (hclock t hgap e he) h.waitBounded.2
    exact Nat.le_trans hcall (Nat.max_le.mpr ⟨hoverdue, hlast⟩)

theorem timedStep_inTime {last last' : Instant} {call : ReorderCall} {out : List StageOut}
    (h : b.Waiting) (hheld : HeldInTime (b, last) call)
    (hstep : timedStep (b, last) call = some ((b', last'), out)) :
    b'.Waiting ∧ ∀ e ∈ b'.held.toList, last' ≤ e.2.arrived + MAX_WAIT := by
  simp only [timedStep, Option.map_eq_some_iff] at hstep
  obtain ⟨⟨c, out'⟩, hc, ⟨rfl, rfl⟩, rfl⟩ := hstep
  obtain ⟨b', out'', hb', hwaits⟩ := step_waits h call
  obtain ⟨rfl, rfl⟩ := Prod.mk.inj (Option.some.inj (hc.symm.trans hb'))
  refine ⟨hwaits, ?_⟩
  have hholds : b.HoldsFrom c (callTime last call) := by
    cases call with
    | push p now wall =>
      obtain ⟨d, hd, -, hholds, -⟩ := push_waits h p now wall
      rw [step, hd] at hc
      obtain rfl : d = c := (Prod.mk.inj (Option.some.inj hc)).1
      exact hholds
    | poll now =>
      obtain ⟨d, out', hd, -, hholds, -⟩ := poll_waits h now
      obtain ⟨rfl, -⟩ := Prod.mk.inj (Option.some.inj (hd.symm.trans hc))
      exact hholds
    | flush wall =>
      obtain rfl : (b.flush wall).1 = c := (Prod.mk.inj (Option.some.inj hc)).1
      exact HoldsFrom.of_empty (flush_waits h wall).2 last
  intro e he
  rcases hholds e.1 e.2 (ExtTreeMap.mem_toList_iff_getElem?_eq_some.mp he) with hold | harrived
  · exact hheld e (ExtTreeMap.mem_toList_iff_getElem?_eq_some.mpr hold)
  · rw [harrived]
    exact Nat.le_add_right _ _

theorem run_timedStep (calls : List ReorderCall) (b : InboundReorderBuffer) (last : Instant) :
    ∃ last', Machine.run timedStep (b, last) calls =
      (Machine.run step b calls).map fun r => ((r.1, last'), r.2) := by
  induction calls generalizing b last with
  | nil => exact ⟨last, rfl⟩
  | cons call calls ih =>
    cases hstep : b.step call with
    | none => exact ⟨last, by simp [Machine.run, timedStep, hstep]⟩
    | some r =>
      obtain ⟨last', hrest⟩ := ih r.1 (callTime last call)
      refine ⟨last', ?_⟩
      simp only [Machine.run, timedStep, hstep, Option.map_some, Option.bind_some, hrest,
        Option.map_map, Function.comp_def]

/-- In every run in which polls are not missed and the gap clock is never later than the
arrival of a held packet, no packet is held for longer than `MAX_WAIT`. What left the held
packets is output, in a tiling of the sequence numbers. -/
theorem held_at_most_max_wait (start : Instant) (calls : List ReorderCall)
    (h : Machine.Along timedStep (fun s call => Timely s call ∧ s.1.ClockOldest)
      (InboundReorderBuffer.new, start) calls) :
    Machine.Along timedStep HeldInTime (InboundReorderBuffer.new, start) calls ∧
      ∃ b last out segments,
        Machine.run timedStep (InboundReorderBuffer.new, start) calls = some ((b, last), out) ∧
        b.Accounted (Machine.log step noted InboundReorderBuffer.new calls) out segments := by
  constructor
  · apply h.of_kept (I := fun s : InboundReorderBuffer × Instant => s.1.Waiting ∧
      ∀ e ∈ s.1.held.toList, s.2 ≤ e.2.arrived + MAX_WAIT)
    · rintro ⟨b, last⟩ call ⟨hwaits, hlast⟩ ⟨htimely, hclock⟩
      have hheld := heldInTime_of_clockOldest hwaits htimely hlast hclock
      refine ⟨hheld, ?_⟩
      rintro ⟨b', last'⟩ out hstep
      exact timedStep_inTime hwaits hheld hstep
    · refine ⟨new_waits, fun e he => ?_⟩
      cases he
  · obtain ⟨b, out, segments, hrun, haccounted, -⟩ := reorder_accounted calls
    obtain ⟨last, htimed⟩ := run_timedStep calls InboundReorderBuffer.new start
    exact ⟨b, last, out, segments, by rw [htimed, hrun]; rfl, haccounted⟩

def packetOf (sequenceNumber : Nat) (h : sequenceNumber < 2 ^ 16) : RtpPacket :=
  ⟨[], sequenceNumber, 0, 111, h⟩

/-- Packet 1 is declared lost after 20 ms and arrives at 60 ms. -/
def lateFirst : List ReorderCall :=
  [.push (packetOf 0 (by decide)) 0 fun _ => 0, .push (packetOf 2 (by decide)) 0 fun _ => 0,
    .poll (fromMillis 20), .push (packetOf 1 (by decide)) (fromMillis 60) fun _ => 0]

/-- The run meets the conditions, also with a gap that fills in time. -/
theorem held_at_most_max_wait_lateFirst :
    Machine.Along timedStep (fun s call => Timely s call ∧ s.1.ClockOldest)
        (InboundReorderBuffer.new, 0) lateFirst ∧
      Machine.Along timedStep HeldInTime (InboundReorderBuffer.new, 0) lateFirst := by
  have h : Machine.Along timedStep (fun s call => Timely s call ∧ s.1.ClockOldest)
      (InboundReorderBuffer.new, 0) lateFirst := by
    decide +kernel
  exact ⟨h, (held_at_most_max_wait 0 lateFirst h).1⟩

/-- After the late packet the wait is 60 ms. Packet 10 arrives at 100 ms and packet 5 at
150 ms; packet 3 fills the head gap at 155 ms. -/
def refilledGap : List ReorderCall :=
  lateFirst ++ [.push (packetOf 10 (by decide)) (fromMillis 100) fun _ => 0,
    .push (packetOf 5 (by decide)) (fromMillis 150) fun _ => 0,
    .push (packetOf 3 (by decide)) (fromMillis 155) fun _ => 0, .poll (fromMillis 210)]

/-- When packet 3 fills the head gap the clock starts over at packet 5, so packet 10 is
still held when the poll at 210 ms is made. -/
theorem held_longer_than_max_wait :
    ¬ ∀ (start : Instant) (calls : List ReorderCall),
      Machine.Along timedStep Timely (InboundReorderBuffer.new, start) calls →
        Machine.Along timedStep HeldInTime (InboundReorderBuffer.new, start) calls := by
  intro hall
  have htimely : Machine.Along timedStep Timely (InboundReorderBuffer.new, 0) refilledGap := by
    decide +kernel
  have hlate : ¬ Machine.Along timedStep HeldInTime (InboundReorderBuffer.new, 0) refilledGap := by
    decide +kernel
  exact hlate (hall 0 refilledGap htimely)

end InboundReorderBuffer

end NodeWebrtc.InboundAudio
