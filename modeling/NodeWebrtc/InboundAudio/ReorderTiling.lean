import NodeWebrtc.InboundAudio.Reorder

/-! # Tiling and conservation of the reorder buffer

Between two resets the output tiles the sequence numbers: each packet carries the next one,
and each loss is positive and followed by the packet it announces. Every packet pushed is
emitted, held or discarded.
-/

namespace NodeWebrtc.InboundAudio

open Std

/-! ## Tilings -/

/-- `out` covers the extended sequence numbers from `n` up to `m`, in order. -/
inductive Tiles : Int → List StageOut → Int → Prop
  | nil (n : Int) : Tiles n [] n
  | packet {n m : Int} {p : RtpPacket} {out : List StageOut} :
      (p.sequenceNumber : Int) = n % 2 ^ 16 → Tiles (n + 1) out m →
      Tiles n (.packet p :: out) m
  | lost {n m : Int} {count : Nat} {p : RtpPacket} {out : List StageOut} : 0 < count →
      (p.sequenceNumber : Int) = (n + count) % 2 ^ 16 → Tiles (n + count + 1) out m →
      Tiles n (.lost count (some p.payload) :: .packet p :: out) m

theorem Tiles.append {n m k : Int} {out more : List StageOut} (h : Tiles n out m)
    (h' : Tiles m more k) : Tiles n (out ++ more) k := by
  induction h with
  | nil n => exact h'
  | packet hseq _ ih => exact .packet hseq (ih h')
  | lost hcount hseq _ ih => exact .lost hcount hseq (ih h')

def packetsOf (out : List StageOut) : List RtpPacket :=
  out.filterMap fun
    | .packet p => some p
    | .lost _ _ => none

theorem packetsOf_append (out more : List StageOut) :
    packetsOf (out ++ more) = packetsOf out ++ packetsOf more :=
  List.filterMap_append

namespace InboundReorderBuffer

def heldPackets (b : InboundReorderBuffer) : List RtpPacket :=
  b.held.toList.map fun entry => entry.2.packet

/-- The stream stands at `n`: everything held is at or after `n`, under its own number. -/
structure StandsAt (b : InboundReorderBuffer) (n : Int) : Prop where
  next : b.next = some n
  held : ∀ (k : Int) (h : Held), b.held[k]? = some h →
    n ≤ k ∧ (h.packet.sequenceNumber : Int) = k % 2 ^ 16

/-- `b'` is `b` after `produced`, which covers `n` to `m`, went to the ready queue. -/
structure Emits (b b' : InboundReorderBuffer) (n : Int) (produced : List StageOut) (m : Int) :
    Prop where
  ready : b'.ready = b.ready ++ produced
  tiles : Tiles n produced m
  stands : b'.StandsAt m
  conserved : (packetsOf produced ++ b'.heldPackets).Perm b.heldPackets
  received : b'.stats.packetsReceived = b.stats.packetsReceived
  discarded : b'.stats.packetsDiscarded = b.stats.packetsDiscarded
  resets : b'.stats.resets = b.stats.resets

theorem Emits.refl {b : InboundReorderBuffer} {n : Int} (h : b.StandsAt n) :
    b.Emits b n [] n where
  ready := (List.append_nil _).symm
  tiles := .nil n
  stands := h
  conserved := List.Perm.refl _
  received := rfl
  discarded := rfl
  resets := rfl

variable {out : List StageOut}

theorem Emits.trans {b c d : InboundReorderBuffer} {n m k : Int} {more : List StageOut}
    (h : b.Emits c n out m) (h' : c.Emits d m more k) : b.Emits d n (out ++ more) k where
  ready := by rw [h'.ready, h.ready, List.append_assoc]
  tiles := h.tiles.append h'.tiles
  stands := h'.stands
  conserved := by
    rw [packetsOf_append, List.append_assoc]
    exact (h'.conserved.append_left _).trans h.conserved
  received := h'.received.trans h.received
  discarded := h'.discarded.trans h.discarded
  resets := h'.resets.trans h.resets

theorem Emits.setGap {b c : InboundReorderBuffer} {n m : Int} (h : b.Emits c n out m)
    (gap : Option Instant) :
    b.Emits { c with gapSince := gap } n out m :=
  ⟨h.ready, h.tiles, ⟨h.stands.next, h.stands.held⟩, h.conserved, h.received,
    h.discarded, h.resets⟩

theorem Emits.ofGap {b c : InboundReorderBuffer} {n m : Int} {gap : Option Instant}
    (h : Emits { b with gapSince := gap } c n out m) : b.Emits c n out m :=
  ⟨h.ready, h.tiles, h.stands, h.conserved, h.received, h.discarded, h.resets⟩

/-! ## Emission of the lowest held packet -/

theorem heldPackets_erase {b : InboundReorderBuffer} {k : Int} {h : Held}
    (hk : b.held[k]? = some h) :
    (h.packet :: (b.held.erase k).toList.map fun entry => entry.2.packet).Perm b.heldPackets :=
  ((OrdMap.toList_erase_perm hk).map fun entry : Int × Held => entry.2.packet).symm

section

variable {b : InboundReorderBuffer} {n : Int} (hb : b.StandsAt n)
include hb

theorem StandsAt.erase_first {first : Int} {h : Held}
    (hfirst : OrdMap.first? b.held = some (first, h)) (k : Int) (h' : Held)
    (hk : (b.held.erase first)[k]? = some h') :
    first + 1 ≤ k ∧ (h'.packet.sequenceNumber : Int) = k % 2 ^ 16 := by
  rw [OrdMap.lookup_erase] at hk
  by_cases heq : k = first
  · simp [heq] at hk
  · rw [if_neg heq] at hk
    have hmem : k ∈ b.held := ExtTreeMap.mem_iff_isSome_getElem?.mpr (by rw [hk]; rfl)
    have hle := (OrdMap.first?_eq_some hfirst).2 k hmem
    rw [isLE_compare] at hle
    exact ⟨by omega, (hb.held k h' hk).2⟩

theorem emitHeldHead_emits {h : Held} (hfirst : OrdMap.first? b.held = some (n, h)) :
    b.Emits b.emitHeldHead n [.packet h.packet] (n + 1) := by
  have hk := (OrdMap.first?_eq_some hfirst).1
  rw [emitHeldHead_eq hfirst]
  exact ⟨rfl, .packet (hb.held n h hk).2 (.nil _), ⟨rfl, hb.erase_first hfirst⟩,
    heldPackets_erase hk, rfl, rfl, rfl⟩

theorem declareLost_emits {first : Int} {h : Held} (hfirst : OrdMap.first? b.held = some (first, h))
    (hne : first ≠ n) (reading : Instant) :
    b.Emits (b.declareLost n first reading).emitHeldHead n
      [.lost (first - n).toNat (some h.packet.payload), .packet h.packet] (first + 1) := by
  have hk := (OrdMap.first?_eq_some hfirst).1
  obtain ⟨hle, hseq⟩ := hb.held first h hk
  have hpos : 0 < (first - n).toNat := by omega
  have hend : n + (first - n).toNat = first := by omega
  have htiles : Tiles n [.lost (first - n).toNat (some h.packet.payload), .packet h.packet]
      (first + 1) := by
    refine .lost hpos ?_ ?_ <;> rw [hend]
    · exact hseq
    · exact .nil _
  rw [emitHeldHead_eq (b := b.declareLost n first reading) hfirst]
  refine ⟨?_, htiles, ⟨rfl, hb.erase_first hfirst⟩, heldPackets_erase hk, rfl, rfl, rfl⟩
  simp [declareLost, hk]

/-! ## The loops -/

theorem flushHeld_emits (wall : Nat → Instant) :
    ∃ produced m, b.Emits (b.flushHeld wall) n produced m ∧ (b.flushHeld wall).held = ∅ := by
  induction hsize : b.held.size using Nat.strongRecOn generalizing b n wall with
  | _ size ih =>
    rw [flushHeld]
    split
    · rename_i hfirst
      exact ⟨[], n, (Emits.refl hb).setGap none, OrdMap.first?_eq_none hfirst⟩
    · rename_i first h hfirst
      have hround : ∃ out, b.Emits (b.flushRound first (wall 0)) n out (first + 1) := by
        unfold flushRound
        dsimp only
        rw [hb.next, Option.getD_some]
        by_cases hgap : first ≠ n
        · rw [if_pos hgap]
          exact ⟨_, declareLost_emits hb hfirst hgap (wall 0)⟩
        · rw [if_neg hgap]
          rw [Decidable.not_not] at hgap
          subst hgap
          exact ⟨_, emitHeldHead_emits hb hfirst⟩
      obtain ⟨out, hout⟩ := hround
      have hless := flushRound_size hfirst (wall 0)
      obtain ⟨produced, m, hrest, hempty⟩ := ih _ (by omega) hout.stands
        (fun round => wall (round + 1)) rfl
      exact ⟨out ++ produced, m, hout.trans hrest, hempty⟩

end

theorem advance_filled {b : InboundReorderBuffer} {first : Int} {h : Held} (now : Instant)
    (hfirst : OrdMap.first? b.held = some (first, h)) (hnext : b.next = some first) :
    b.advance now = b.emitNext.advance now := by
  rw [advance]
  split
  · simp_all
  · split
    · simp_all
    · rw [if_pos (by simp_all)]

theorem giveUpGap_emits {b : InboundReorderBuffer} {n first : Int} {h : Held}
    (hb : b.StandsAt n) (hfirst : OrdMap.first? b.held = some (first, h)) (hne : first ≠ n)
    (now : Instant) :
    b.Emits (b.giveUpGap n first now).emitNext n
      [.lost (first - n).toNat (some h.packet.payload), .packet h.packet] (first + 1) := by
  have hout := (declareLost_emits hb hfirst hne now).setGap none
  rw [emitHeldHead_eq (b := b.declareLost n first now) hfirst] at hout
  unfold emitNext
  rw [emitHeldHead_eq (b := b.giveUpGap n first now) hfirst]
  exact hout

theorem advance_emits {b : InboundReorderBuffer} {n : Int} (hb : b.StandsAt n) (now : Instant) :
    ∃ b' produced m, b.advance now = some b' ∧ b.Emits b' n produced m := by
  induction hsize : b.held.size using Nat.strongRecOn generalizing b n with
  | _ size ih =>
    subst hsize
    rw [advance]
    split
    · exact ⟨_, [], n, rfl, (Emits.refl hb).setGap none⟩
    · rename_i first h hfirst
      split
      · rename_i hnone
        rw [hb.next] at hnone
        simp at hnone
      · rename_i next hnext
        rw [hb.next] at hnext
        cases hnext
        have hless := size_emitHeldHead hfirst
        by_cases hfilled : first = n
        · subst hfilled
          rw [if_pos rfl]
          have hout := (emitHeldHead_emits hb hfirst).setGap none
          obtain ⟨b', produced, m, hadv, hrest⟩ :=
            ih _ (Nat.lt_of_succ_le (Nat.le_of_eq hless)) hout.stands rfl
          exact ⟨b', _, m, hadv, hout.trans hrest⟩
        · rw [if_neg hfilled]
          dsimp only
          split
          · have hwaiting : StandsAt { b with gapSince := some (b.gapSince.getD h.arrived) } n :=
              ⟨hb.next, hb.held⟩
            have hout := (giveUpGap_emits hwaiting hfirst hfilled now).ofGap
            have hnext := advance_filled
              (b := giveUpGap { b with gapSince := some (b.gapSince.getD h.arrived) } n first now)
              now hfirst rfl
            have hemitted := @size_emitHeldHead
              (giveUpGap { b with gapSince := some (b.gapSince.getD h.arrived) } n first now)
              first h hfirst
            obtain ⟨b', produced, m, hadv, hrest⟩ :=
              ih _ (Nat.lt_of_succ_le (Nat.le_of_eq hemitted)) hout.stands rfl
            exact ⟨b', _, m, hnext.trans hadv, hout.trans hrest⟩
          · exact ⟨_, [], n, rfl, (Emits.refl hb).setGap _⟩

/-! ## The account of a run -/

/-- The packet of a push, and whether it starts a stream: it is the first one, or too far
from the highest number seen. -/
def noted (b : InboundReorderBuffer) : ReorderCall → List (RtpPacket × Bool)
  | .push packet _ _ =>
    [(packet, b.next.isNone || decide (RESET_JUMP < (b.distance packet).natAbs))]
  | _ => []

/-- Where the stream of a buffer stands: nowhere before the first packet, else at the end of
the last segment. -/
inductive Current (b : InboundReorderBuffer) : List (List StageOut) → Prop
  | unstarted : b.next = none → b.held = ∅ → b.stats.resets = 0 → Current b []
  | started {done : List (List StageOut)} {p : RtpPacket} {rest : List StageOut} {n : Int} :
      b.StandsAt n → Tiles p.sequenceNumber (.packet p :: rest) n →
      done.length = b.stats.resets → Current b (done ++ [.packet p :: rest])

/-- The account of a run: `notes` are the packets pushed, `out` is what was returned, and the
output so far, returned or ready, is cut into `segments` at the resets. -/
structure Accounted (notes : List (RtpPacket × Bool)) (out : List StageOut)
    (b : InboundReorderBuffer) (segments : List (List StageOut)) : Prop where
  output : out ++ b.ready = segments.flatten
  /-- The segments start with the packets that started a stream. -/
  starts : segments.map List.head? =
    (notes.filter Prod.snd).map fun note => some (.packet note.1)
  /-- Each segment tiles the sequence numbers from its first packet on. -/
  tiled : ∀ segment ∈ segments, ∃ p m, segment.head? = some (.packet p) ∧
    Tiles p.sequenceNumber segment m
  current : b.Current segments
  /-- Every packet pushed is emitted or ready, held, or discarded. -/
  conserved : ∃ discarded, discarded.length = b.stats.packetsDiscarded ∧
    (packetsOf (out ++ b.ready) ++ b.heldPackets ++ discarded).Perm (notes.map Prod.fst)
  received : b.stats.packetsReceived = notes.length

variable {notes : List (RtpPacket × Bool)} {segments : List (List StageOut)}

theorem Accounted.counts {b : InboundReorderBuffer} (h : b.Accounted notes out segments) :
    b.stats.packetsReceived =
      (packetsOf (out ++ b.ready)).length + b.held.size + b.stats.packetsDiscarded := by
  obtain ⟨discarded, hlength, hperm⟩ := h.conserved
  have := hperm.length_eq
  simp only [List.length_append, List.length_map, heldPackets, ExtTreeMap.length_toList] at this
  rw [h.received]
  omega

/-- What the account reads of a buffer is the same in both. -/
structure SameStream (b b' : InboundReorderBuffer) : Prop where
  next : b'.next = b.next
  held : b'.held = b.held
  ready : b'.ready = b.ready
  received : b'.stats.packetsReceived = b.stats.packetsReceived
  discarded : b'.stats.packetsDiscarded = b.stats.packetsDiscarded
  resets : b'.stats.resets = b.stats.resets

variable (b : InboundReorderBuffer)

theorem SameStream.refl : b.SameStream b := ⟨rfl, rfl, rfl, rfl, rfl, rfl⟩

theorem SameStream.trans {b c d : InboundReorderBuffer} (h : b.SameStream c)
    (h' : c.SameStream d) : b.SameStream d :=
  ⟨h'.next.trans h.next, h'.held.trans h.held, h'.ready.trans h.ready,
    h'.received.trans h.received, h'.discarded.trans h.discarded, h'.resets.trans h.resets⟩

theorem setWait_same (observations : List (Instant × Duration)) (wait : Duration) (waitMs : Nat) :
    b.SameStream { b with
      observations := observations
      wait := wait
      stats := { b.stats with currentWaitMs := waitMs } } := ⟨rfl, rfl, rfl, rfl, rfl, rfl⟩

theorem refreshWait_same (now : Instant) : b.SameStream (b.refreshWait now) := setWait_same b _ _ _

theorem refreshWait_maxExt (now : Instant) : (b.refreshWait now).maxExt = b.maxExt := by
  have hset : ∀ (observations : List (Instant × Duration)) (wait : Duration) (waitMs : Nat),
      ({ b with
        observations := observations
        wait := wait
        stats := { b.stats with currentWaitMs := waitMs } } : InboundReorderBuffer).maxExt =
          b.maxExt := fun _ _ _ => rfl
  exact hset _ _ _

theorem SameStream.countDiscarded {b c : InboundReorderBuffer} (h : b.SameStream c) :
    b.countDiscarded.SameStream c.countDiscarded :=
  ⟨h.next, h.held, h.ready, h.received, congrArg (· + 1) h.discarded, h.resets⟩

theorem observe_same (now : Instant) (delay : Duration) :
    b.SameStream (b.observe now delay) := setWait_same b _ _ _

theorem StandsAt.same {b b' : InboundReorderBuffer} {n : Int} (h : b.StandsAt n)
    (hsame : b.SameStream b') : b'.StandsAt n := by
  refine ⟨hsame.next.trans h.next, ?_⟩
  rw [hsame.held]
  exact h.held

theorem Current.same {b b' : InboundReorderBuffer} (h : b.Current segments)
    (hsame : b.SameStream b') : b'.Current segments := by
  cases h with
  | unstarted hnext hheld hresets =>
    exact .unstarted (hsame.next.trans hnext) (hsame.held.trans hheld) (hsame.resets.trans hresets)
  | started hstands htiles hdone =>
    exact .started (hstands.same hsame) htiles (hdone.trans hsame.resets.symm)

theorem Accounted.same {b b' : InboundReorderBuffer} (h : b.Accounted notes out segments)
    (hsame : b.SameStream b') :
    b'.Accounted notes out segments := by
  refine ⟨?_, h.starts, h.tiled, h.current.same hsame, ?_, hsame.received.trans h.received⟩
  · rw [hsame.ready]
    exact h.output
  · rw [hsame.discarded, hsame.ready, heldPackets, hsame.held]
    exact h.conserved

theorem Accounted.emits {produced : List StageOut} {b b' : InboundReorderBuffer} {n m : Int}
    (h : b.Accounted notes out segments) (hstands : b.StandsAt n) (hemits : b.Emits b' n produced m) :
    ∃ segments', b'.Accounted notes out segments' := by
  obtain ⟨houtput, hstarts, htiled, hcurrent, ⟨discarded, hlength, hperm⟩, hreceived⟩ := h
  cases hcurrent with
  | unstarted hnext hheld hresets =>
    rw [hstands.next] at hnext
    simp at hnext
  | @started done p rest k hk htiles hdone =>
    have hkn : k = n := Option.some.inj (hk.next.symm.trans hstands.next)
    subst hkn
    have htiles' : Tiles p.sequenceNumber (.packet p :: (rest ++ produced)) m :=
      htiles.append hemits.tiles
    refine ⟨done ++ [.packet p :: (rest ++ produced)], ?_, ?_, ?_, ?_, ⟨discarded, ?_, ?_⟩, ?_⟩
    · rw [hemits.ready, ← List.append_assoc, houtput]
      simp
    · rw [← hstarts]
      simp
    · intro segment hmem
      rcases List.mem_append.mp hmem with hmem | hmem
      · exact htiled segment (List.mem_append_left _ hmem)
      · rw [List.mem_singleton.mp hmem]
        exact ⟨p, m, rfl, htiles'⟩
    · exact .started hemits.stands htiles' (hdone.trans hemits.resets.symm)
    · rw [hlength, hemits.discarded]
    · refine List.Perm.trans ?_ hperm
      rw [hemits.ready, ← List.append_assoc, packetsOf_append, List.append_assoc (packetsOf _)]
      exact (hemits.conserved.append_left _).append_right _
    · rw [hemits.received, hreceived]

/-! ## One packet -/

theorem Accounted.discard {b : InboundReorderBuffer} (h : b.Accounted notes out segments)
    (p : RtpPacket) :
    b.countReceived.countDiscarded.Accounted (notes ++ [(p, false)]) out segments := by
  obtain ⟨houtput, hstarts, htiled, hcurrent, ⟨discarded, hlength, hperm⟩, hreceived⟩ := h
  refine ⟨houtput, ?_, htiled, ?_, ⟨discarded ++ [p], ?_, ?_⟩, ?_⟩
  · rw [hstarts]
    simp
  · cases hcurrent with
    | unstarted hnext hheld hresets => exact .unstarted hnext hheld hresets
    | started hstands htiles hdone => exact .started ⟨hstands.next, hstands.held⟩ htiles hdone
  · rw [List.length_append, hlength]
    rfl
  · rw [List.map_append, ← List.append_assoc]
    exact hperm.append_right _
  · rw [List.length_append, ← hreceived]
    rfl

theorem Accounted.hold {b : InboundReorderBuffer} {n ext : Int} (h : b.Accounted notes out segments)
    (hstands : b.StandsAt n) {p : RtpPacket} (hle : n ≤ ext)
    (hseq : (p.sequenceNumber : Int) = ext % 2 ^ 16) (hnew : b.held[ext]? = none) (now : Instant) :
    Accounted (notes ++ [(p, false)]) out
        { b.countReceived with held := b.held.insert ext ⟨p, now⟩ } segments ∧
      StandsAt { b.countReceived with held := b.held.insert ext ⟨p, now⟩ } n := by
  have hstands' : StandsAt { b.countReceived with held := b.held.insert ext ⟨p, now⟩ } n := by
    refine ⟨hstands.next, fun k held hk => ?_⟩
    rw [OrdMap.lookup_insert] at hk
    by_cases heq : k = ext
    · rw [if_pos heq, Option.some.injEq] at hk
      rw [heq, ← hk]
      exact ⟨hle, hseq⟩
    · rw [if_neg heq] at hk
      exact hstands.held k held hk
  obtain ⟨houtput, hstarts, htiled, hcurrent, ⟨discarded, hlength, hperm⟩, hreceived⟩ := h
  refine ⟨⟨houtput, ?_, htiled, ?_, ⟨discarded, hlength, ?_⟩, ?_⟩, hstands'⟩
  · rw [hstarts]
    simp
  · cases hcurrent with
    | unstarted hnext hheld hresets =>
      rw [hstands.next] at hnext
      simp at hnext
    | @started done p rest k hk htiles hdone =>
      have hkn : k = n := Option.some.inj (hk.next.symm.trans hstands.next)
      exact .started (hkn ▸ hstands') htiles hdone
  · have hheld : (heldPackets { b.countReceived with held := b.held.insert ext ⟨p, now⟩ }).Perm
        (p :: b.heldPackets) :=
      (OrdMap.toList_insert_perm (⟨p, now⟩ : Held) hnew).map
        fun entry : Int × Held => entry.2.packet
    have hfront := ((hheld.append_left (packetsOf (out ++ b.ready))).append_right discarded).trans
      (List.perm_middle.append_right discarded)
    rw [List.map_append]
    refine hfront.trans ?_
    exact (hperm.cons p).trans (List.perm_append_singleton p _).symm
  · rw [List.length_append, ← hreceived]
    rfl

theorem Accounted.pass {b : InboundReorderBuffer} {n : Int} (h : b.Accounted notes out segments)
    (hstands : b.StandsAt n) {p : RtpPacket} (hseq : (p.sequenceNumber : Int) = n % 2 ^ 16)
    (hempty : b.held = ∅) :
    ∃ segments', Accounted (notes ++ [(p, false)]) out
      { b.countReceived with next := some (n + 1), ready := b.ready ++ [.packet p] }
      segments' := by
  have hnew : b.held[n]? = none := by rw [hempty, ExtTreeMap.getElem?_empty]
  obtain ⟨hheld, hheld'⟩ := h.hold hstands (Int.le_refl n) hseq hnew 0
  refine @Accounted.emits _ _ _ [.packet p] _ _ _ (n + 1) hheld hheld' ?_
  have hnone : ∀ (k : Int) (held : Held), b.held[k]? = some held → False := by
    intro k held hk
    rw [hempty] at hk
    simp at hk
  refine ⟨rfl, .packet hseq (.nil _), ⟨rfl, fun k held hk => (hnone k held hk).elim⟩, ?_,
    rfl, rfl, rfl⟩
  have hone := (OrdMap.toList_insert_perm (⟨p, 0⟩ : Held) hnew).map
    fun entry : Int × Held => entry.2.packet
  exact hone.symm

theorem Accounted.start {b b' : InboundReorderBuffer} (h : b.Accounted notes out segments)
    (hempty : b.held = ∅) {p : RtpPacket} (hnext : b'.next = some ((p.sequenceNumber : Int) + 1))
    (hheld : b'.held = ∅) (hready : b'.ready = b.ready ++ [.packet p])
    (hreceived' : b'.stats.packetsReceived = b.stats.packetsReceived + 1)
    (hdiscarded' : b'.stats.packetsDiscarded = b.stats.packetsDiscarded)
    (hresets' : b'.stats.resets = b.stats.resets + if b.next.isSome then 1 else 0) :
    b'.Accounted (notes ++ [(p, true)]) out (segments ++ [[.packet p]]) := by
  have hseq : (p.sequenceNumber : Int) = (p.sequenceNumber : Int) % 2 ^ 16 := by
    have := p.sequenceNumber_lt
    omega
  have htiles : Tiles p.sequenceNumber [.packet p] (p.sequenceNumber + 1) :=
    .packet hseq (.nil _)
  have hstands : b'.StandsAt (p.sequenceNumber + 1) := by
    refine ⟨hnext, fun k held hk => ?_⟩
    rw [hheld] at hk
    simp at hk
  obtain ⟨houtput, hstarts, htiled, hcurrent, ⟨discarded, hlength, hperm⟩, hreceived⟩ := h
  refine ⟨?_, ?_, ?_, ?_, ⟨discarded, ?_, ?_⟩, ?_⟩
  · rw [hready, ← List.append_assoc, houtput]
    simp
  · rw [List.map_append, hstarts]
    simp
  · intro segment hmem
    rcases List.mem_append.mp hmem with hmem | hmem
    · exact htiled segment hmem
    · rw [List.mem_singleton.mp hmem]
      exact ⟨p, _, rfl, htiles⟩
  · refine .started hstands htiles ?_
    rw [hresets']
    cases hcurrent with
    | unstarted hnone _ hresets => simp [hnone, hresets]
    | started hk _ hdone => simp [hk.next, hdone]
  · rw [hlength, hdiscarded']
  · have hnow : packetsOf (out ++ b'.ready) = packetsOf (out ++ b.ready) ++ [p] := by
      rw [hready, ← List.append_assoc, packetsOf_append]
      rfl
    have hnone : b'.heldPackets = [] ∧ b.heldPackets = [] := by
      rw [heldPackets, heldPackets, hheld, hempty]
      exact ⟨rfl, rfl⟩
    rw [hnone.2, List.append_nil] at hperm
    rw [hnow, hnone.1, List.append_nil, List.map_append]
    refine List.Perm.trans ?_ (hperm.append_right [p])
    rw [List.append_assoc, List.append_assoc]
    exact List.perm_append_comm.append_left _
  · rw [hreceived', hreceived, List.length_append]
    rfl

/-! ## One call -/

theorem distance_spec (p : RtpPacket) :
    (p.sequenceNumber : Int) = (b.maxExt + b.distance p) % 2 ^ 16 := by
  have hlt := p.sequenceNumber_lt
  unfold distance wrappingSubAsI16 asU16 asU16OfInt
  dsimp only
  split <;> omega

theorem discardLate_same (ext : Int) (now : Instant) :
    b.countDiscarded.SameStream (b.discardLate ext now) := by
  unfold discardLate
  dsimp only
  split
  · exact SameStream.refl _
  · refine SameStream.trans ?_ (observe_same _ now _)
    exact ⟨rfl, rfl, rfl, rfl, rfl, rfl⟩

/-- The adaptive wait is between `MIN_WAIT` and `MAX_WAIT`. -/
def WaitBounded (b : InboundReorderBuffer) : Prop := MIN_WAIT ≤ b.wait ∧ b.wait ≤ MAX_WAIT

theorem clampWait_bounded (wait : Duration) :
    MIN_WAIT ≤ max MIN_WAIT (min MAX_WAIT wait) ∧ max MIN_WAIT (min MAX_WAIT wait) ≤ MAX_WAIT :=
  ⟨Nat.le_max_left _ _, Nat.max_le.mpr ⟨by decide, Nat.min_le_left _ _⟩⟩

/-- `c` is `b` up to the observations, the wait and what the account does not read. -/
structure SameQueue (b c : InboundReorderBuffer) : Prop where
  stream : b.SameStream c
  gapSince : c.gapSince = b.gapSince
  waitBounded : b.WaitBounded → c.WaitBounded

theorem SameQueue.refl : b.SameQueue b := ⟨.refl b, rfl, id⟩

theorem SameQueue.trans {b c d : InboundReorderBuffer} (h : b.SameQueue c) (h' : c.SameQueue d) :
    b.SameQueue d :=
  ⟨h.stream.trans h'.stream, h'.gapSince.trans h.gapSince, h'.waitBounded ∘ h.waitBounded⟩

theorem setWait_sameQueue (observations : List (Instant × Duration)) {wait : Duration}
    (waitMs : Nat) (h : MIN_WAIT ≤ wait ∧ wait ≤ MAX_WAIT) :
    b.SameQueue { b with
      observations := observations
      wait := wait
      stats := { b.stats with currentWaitMs := waitMs } } :=
  ⟨setWait_same b observations wait waitMs, rfl, fun _ => h⟩

theorem refreshWait_sameQueue (now : Instant) :
    b.SameQueue (b.refreshWait now) := setWait_sameQueue b _ _ (clampWait_bounded _)

theorem observe_sameQueue (now : Instant) (delay : Duration) :
    b.SameQueue (b.observe now delay) := setWait_sameQueue b _ _ (clampWait_bounded _)

theorem accept_cases (p : RtpPacket) (next ext : Int) (now : Instant) :
    ∃ c, b.SameQueue c ∧
      ((ext = next ∧ b.held = ∅ ∧ b.accept p next ext now =
          some { c with next := some (next + 1), ready := c.ready ++ [.packet p] }) ∨
        b.accept p next ext now =
          { c with held := c.held.insert ext ⟨p, now⟩ }.advance now) := by
  unfold accept
  dsimp only
  obtain ⟨c₁, hc₁, hsame₁⟩ : ∃ c, c = (if ext < b.maxExt then
      { b with stats := { b.stats with reordered := b.stats.reordered + 1 } } else b) ∧
      b.SameQueue c := by
    refine ⟨_, rfl, ?_⟩
    split
    · exact ⟨⟨rfl, rfl, rfl, rfl, rfl, rfl⟩, rfl, id⟩
    · exact SameQueue.refl b
  rw [← hc₁]
  obtain ⟨c₂, hc₂, hsame₂⟩ : ∃ c, c = (if c₁.maxExt < ext then { c₁ with maxExt := ext } else c₁) ∧
      c₁.SameQueue c := by
    refine ⟨_, rfl, ?_⟩
    split
    · exact ⟨⟨rfl, rfl, rfl, rfl, rfl, rfl⟩, rfl, id⟩
    · exact SameQueue.refl c₁
  rw [← hc₂]
  have hsame := hsame₁.trans hsame₂
  by_cases hpass : ext = next ∧ c₂.held.isEmpty = true
  · rw [if_pos hpass]
    refine ⟨c₂, hsame, .inl ⟨hpass.1, ?_, rfl⟩⟩
    rw [← hsame.stream.held]
    exact ExtTreeMap.isEmpty_iff.mp hpass.2
  · rw [if_neg hpass]
    by_cases hfills : ext = next
    · rw [if_pos hfills]
      cases c₂.gapSince with
      | none => exact ⟨c₂, hsame, .inr rfl⟩
      | some since => exact ⟨_, hsame.trans (observe_sameQueue c₂ now _), .inr rfl⟩
    · rw [if_neg hfills]
      exact ⟨c₂, hsame, .inr rfl⟩

/-! ## The calls -/

theorem advance_of_empty {b : InboundReorderBuffer} (hempty : b.held = ∅) (now : Instant) :
    b.advance now = some { b with gapSince := none } := by
  rw [advance]
  split
  · rfl
  · rename_i first h hfirst
    have hk := (OrdMap.first?_eq_some hfirst).1
    rw [hempty] at hk
    simp at hk

theorem flushHeld_of_empty {b : InboundReorderBuffer} (hempty : b.held = ∅)
    (wall : Nat → Instant) : b.flushHeld wall = { b with gapSince := none } := by
  rw [flushHeld]
  split
  · rfl
  · rename_i first h hfirst
    have hk := (OrdMap.first?_eq_some hfirst).1
    rw [hempty] at hk
    simp at hk

section

variable {b : InboundReorderBuffer} (h : b.Accounted notes out segments)
include h

theorem Accounted.unstarted_or_stands : (b.next = none ∧ b.held = ∅) ∨ ∃ n, b.StandsAt n := by
  cases h.current with
  | unstarted hnext hempty _ => exact .inl ⟨hnext, hempty⟩
  | started hstands _ _ => exact .inr ⟨_, hstands⟩

theorem Accounted.setGap (gap : Option Instant) :
    Accounted notes out { b with gapSince := gap } segments :=
  h.same ⟨rfl, rfl, rfl, rfl, rfl, rfl⟩

theorem Accounted.advance (now : Instant) :
    ∃ b' segments', b.advance now = some b' ∧ b'.Accounted notes out segments' := by
  rcases h.unstarted_or_stands with ⟨-, hempty⟩ | ⟨n, hstands⟩
  · exact ⟨_, segments, advance_of_empty hempty now, h.setGap none⟩
  · obtain ⟨b', produced, m, hadvance, hemits⟩ := advance_emits hstands now
    obtain ⟨segments', h'⟩ := h.emits hstands hemits
    exact ⟨b', segments', hadvance, h'⟩

theorem Accounted.flushHeld (wall : Nat → Instant) :
    ∃ segments', (b.flushHeld wall).Accounted notes out segments' := by
  rcases h.unstarted_or_stands with ⟨-, hempty⟩ | ⟨n, hstands⟩
  · rw [flushHeld_of_empty hempty]
    exact ⟨segments, h.setGap none⟩
  · obtain ⟨produced, m, hemits, -⟩ := flushHeld_emits hstands wall
    exact h.emits hstands hemits

theorem Accounted.drain : Accounted notes (out ++ b.ready) { b with ready := [] } segments := by
  obtain ⟨houtput, hstarts, htiled, hcurrent, hconserved, hreceived⟩ := h
  refine ⟨?_, hstarts, htiled, ?_, ?_, hreceived⟩
  · rw [List.append_nil]
    exact houtput
  · cases hcurrent with
    | unstarted hnext hheld hresets => exact .unstarted hnext hheld hresets
    | started hstands htiles hdone => exact .started ⟨hstands.next, hstands.held⟩ htiles hdone
  · rw [List.append_nil]
    exact hconserved

theorem reset_accounted {c : InboundReorderBuffer} {n : Int} (hsame : b.countReceived.SameStream c)
    (hstands : b.StandsAt n) (p : RtpPacket) (wall : Nat → Instant) :
    ∃ segments', (c.reset p wall).Accounted (notes ++ [(p, true)]) out segments' := by
  obtain ⟨d, hd⟩ : ∃ d, d = ({ c with stats := { c.stats with resets := c.stats.resets + 1 } } :
      InboundReorderBuffer) := ⟨_, rfl⟩
  have hstands' : d.StandsAt n := by
    rw [hd]
    refine ⟨hsame.next.trans hstands.next, ?_⟩
    rw [hsame.held]
    exact hstands.held
  obtain ⟨produced, m, hemits, hempty⟩ := flushHeld_emits hstands' wall
  -- the flushed buffer with the counters from before the call
  obtain ⟨e, he⟩ : ∃ e, e = ({ d.flushHeld wall with stats := b.stats } : InboundReorderBuffer) :=
    ⟨_, rfl⟩
  have hemits' : b.Emits e n produced m := by
    rw [he]
    refine ⟨?_, hemits.tiles, ⟨hemits.stands.next, hemits.stands.held⟩, ?_, rfl, rfl, rfl⟩
    · rw [hemits.ready, hd]
      exact congrArg (· ++ produced) hsame.ready
    · have hheld : d.heldPackets = b.heldPackets := by
        rw [hd]
        rw [hsame.held]
        rfl
      exact hheld ▸ hemits.conserved
  obtain ⟨segments', h'⟩ := h.emits hstands hemits'
  refine ⟨_, h'.start ?_ rfl ?_ ?_ ?_ ?_ ?_⟩
  · rw [he]
    exact hempty
  · unfold reset
    rw [← hd]
    exact hempty
  · unfold reset
    rw [← hd, he]
  · unfold reset
    rw [← hd, hemits.received, he, hd]
    exact hsame.received
  · unfold reset
    rw [← hd, hemits.discarded, he, hd]
    exact hsame.discarded
  · unfold reset
    rw [← hd, hemits.resets, he, hd]
    dsimp only
    rw [← hd, hemits.stands.next, hsame.resets]
    rfl

theorem accept_accounted {c : InboundReorderBuffer} {n ext : Int}
    (hsame : b.countReceived.SameStream c) (hstands : b.StandsAt n) {p : RtpPacket}
    (hseq : (p.sequenceNumber : Int) = ext % 2 ^ 16) (hle : n ≤ ext) (hnew : b.held[ext]? = none)
    (now : Instant) :
    ∃ b' segments', c.accept p n ext now = some b' ∧
      b'.Accounted (notes ++ [(p, false)]) out segments' := by
  obtain ⟨d, hcd, hcases⟩ := accept_cases c p n ext now
  have hbd := hsame.trans hcd.stream
  rcases hcases with ⟨rfl, hempty, haccept⟩ | haccept
  · rw [hsame.held] at hempty
    obtain ⟨segments', h'⟩ := h.pass hstands hseq hempty
    refine ⟨_, segments', haccept, h'.same ?_⟩
    exact ⟨rfl, hbd.held, congrArg (· ++ [.packet p]) hbd.ready, hbd.received, hbd.discarded,
      hbd.resets⟩
  · have h' := @Accounted.same _ _ _ _ { d with held := d.held.insert ext ⟨p, now⟩ }
      (h.hold hstands hle hseq hnew now).1 ⟨hbd.next, congrArg (·.insert ext ⟨p, now⟩) hbd.held, hbd.ready, hbd.received,
        hbd.discarded, hbd.resets⟩
    rw [haccept]
    exact h'.advance now

theorem push_accounted (p : RtpPacket) (now : Instant) (wall : Nat → Instant) :
    ∃ b' segments', b.push p now wall = some b' ∧
      b'.Accounted (notes ++ b.noted (.push p now wall)) out segments' := by
  have hsame := refreshWait_same b.countReceived now
  have hmax : (b.countReceived.refreshWait now).maxExt = b.maxExt := refreshWait_maxExt _ now
  unfold push noted
  dsimp only
  obtain ⟨c, hc⟩ : ∃ c, c = b.countReceived.refreshWait now := ⟨_, rfl⟩
  rw [← hc] at hsame hmax ⊢
  have hnext : c.next = b.next := hsame.next
  have hdistance : c.distance p = b.distance p := by
    unfold distance
    rw [hmax]
  rcases h.unstarted_or_stands with ⟨hnone, hempty⟩ | ⟨n, hstands⟩
  · rw [hnext, hnone]
    refine ⟨_, _, rfl, h.start hempty rfl (hsame.held.trans hempty) ?_ hsame.received
      hsame.discarded ?_⟩
    · exact congrArg (· ++ [.packet p]) hsame.ready
    · rw [hsame.resets, hnone]
      rfl
  · rw [hnext, hstands.next, hdistance, hmax]
    dsimp only [Bool.false_or]
    have hseq := distance_spec b p
    by_cases hfar : RESET_JUMP < (b.distance p).natAbs
    · rw [if_pos hfar, decide_eq_true hfar]
      obtain ⟨segments', h'⟩ := reset_accounted h hsame hstands p wall
      exact ⟨_, segments', rfl, h'⟩
    · rw [if_neg hfar, decide_eq_false hfar]
      by_cases hlate : b.maxExt + b.distance p < n
      · rw [if_pos hlate]
        refine ⟨_, _, rfl, (h.discard p).same ?_⟩
        exact hsame.countDiscarded.trans (discardLate_same c _ now)
      · rw [if_neg hlate]
        by_cases hheld : c.held.contains (b.maxExt + b.distance p) = true
        · rw [if_pos hheld]
          exact ⟨_, _, rfl, (h.discard p).same hsame.countDiscarded⟩
        · rw [if_neg hheld]
          refine accept_accounted h hsame hstands hseq (Int.not_lt.mp hlate) ?_ now
          rw [hsame.held] at hheld
          exact ExtTreeMap.getElem?_eq_none hheld

theorem poll_accounted (now : Instant) :
    ∃ b' returned segments', b.poll now = some (b', returned) ∧
      b'.Accounted notes (out ++ returned) segments' := by
  obtain ⟨c, segments', hadvance, h'⟩ := (h.same (refreshWait_same b now)).advance now
  refine ⟨_, _, segments', ?_, h'.drain⟩
  rw [poll, hadvance]
  rfl

theorem flush_accounted (wall : Nat → Instant) :
    ∃ segments', (b.flush wall).1.Accounted notes (out ++ (b.flush wall).2) segments' := by
  obtain ⟨segments', h'⟩ := h.flushHeld wall
  exact ⟨segments', h'.drain⟩

theorem step_accounted (call : ReorderCall) :
    ∃ b' returned, b.step call = some (b', returned) ∧
      ∃ segments', b'.Accounted (notes ++ b.noted call) (out ++ returned) segments' := by
  cases call with
  | push p now wall =>
    obtain ⟨b', segments', hpush, h'⟩ := push_accounted h p now wall
    refine ⟨b', [], ?_, segments', ?_⟩
    · rw [step, hpush]
      rfl
    · rw [List.append_nil]
      exact h'
  | poll now =>
    obtain ⟨b', returned, segments', hpoll, h'⟩ := poll_accounted h now
    have hnoted : b.noted (.poll now) = [] := rfl
    refine ⟨b', returned, hpoll, segments', ?_⟩
    rw [hnoted, List.append_nil]
    exact h'
  | flush wall =>
    obtain ⟨segments', h'⟩ := flush_accounted h wall
    have hnoted : b.noted (.flush wall) = [] := rfl
    refine ⟨_, _, rfl, segments', ?_⟩
    rw [hnoted, List.append_nil]
    exact h'

end

theorem new_accounted : InboundReorderBuffer.new.Accounted [] [] [] where
  output := rfl
  starts := rfl
  tiled := by simp
  current := .unstarted rfl rfl rfl
  conserved := ⟨[], rfl, by simp [packetsOf, heldPackets, InboundReorderBuffer.new]⟩
  received := rfl

/-- Every sequence of calls is defined. Its output, returned or ready, is cut at the resets
into segments that each start with the packet that started the stream and tile its sequence
numbers, and every packet pushed is emitted or ready, held, or discarded. -/
theorem reorder_accounted (calls : List ReorderCall) :
    ∃ b out segments, Machine.run step InboundReorderBuffer.new calls = some (b, out) ∧
      b.Accounted (Machine.log step noted InboundReorderBuffer.new calls) out segments ∧
      b.stats.packetsReceived =
        (packetsOf (out ++ b.ready)).length + b.held.size + b.stats.packetsDiscarded := by
  obtain ⟨b, out, hrun, segments, h⟩ := Machine.run_log_spec (C := fun _ _ => True)
    (I := fun notes out (b : InboundReorderBuffer) => ∃ segments, b.Accounted notes out segments)
    (fun notes out b call hi _ => by
      obtain ⟨segments, h⟩ := hi
      exact step_accounted h call)
    ⟨[], new_accounted⟩ (Machine.along_of_forall_mem (P := fun _ => True) (fun _ _ => trivial) _)
  exact ⟨b, out, segments, hrun, h, h.counts⟩

end InboundReorderBuffer

end NodeWebrtc.InboundAudio
