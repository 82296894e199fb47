import NodeWebrtc.Conference.Room
import NodeWebrtc.Lib.Trace
import NodeWebrtc.Mixer.Forgets

/-! # What a removed participant leaves in the graph

An inbound loop that holds a decoded sample when the input is removed pushes it afterwards, and
pushing to an unknown id makes a new slot; a poll of the outbound task that is under way renders
once more and makes a new cursor. Where neither happens, the graph forgets the participant with
its removal.
-/

namespace NodeWebrtc.Conference

open Machine Mixer Std

variable {D : MixDsp}

variable {g : MixGraph D} {id : ParticipantId}

/-! ## The frames of one sample -/

theorem pushFrames_keeps (h : Unrouted g) (other : ParticipantId)
    (frames : List (Frame × Instant)) :
    Unrouted (frames.foldl (fun g (frame, now) => g.pushFrameAt other frame now) g) ∧
      ∀ id, id ≠ other → Forgets g id →
        Forgets (frames.foldl (fun g (frame, now) => g.pushFrameAt other frame now) g) id := by
  induction frames generalizing g with
  | nil => exact ⟨h, fun _ _ hid => hid⟩
  | cons entry frames ih =>
    obtain ⟨frame, now⟩ := entry
    have hpush : Unrouted (g.pushFrameAt other frame now) := ⟨h.routes, h.groups⟩
    obtain ⟨hrest, hforgets⟩ := ih hpush
    exact ⟨hrest, fun id hne hid => hforgets id hne (forgets_pushFrameAt hid hne frame now)⟩

theorem pushUnderLock_keeps (h : Unrouted g) (other : ParticipantId) (undecodable : Bool)
    (frames : List (Frame × Instant)) :
    Unrouted (Room.pushUnderLock g other undecodable frames) ∧
      ∀ id, id ≠ other → Forgets g id →
        Forgets (Room.pushUnderLock g other undecodable frames) id := by
  have hnote : Unrouted (g.noteDecodeError other) := ⟨h.routes, h.groups⟩
  rw [Room.pushUnderLock]
  cases undecodable with
  | true =>
    rw [if_pos rfl]
    by_cases hmixing : (g.noteDecodeError other).mixingEnabled = true
    · rw [if_neg (not_not_intro hmixing)]
      obtain ⟨hrest, hforgets⟩ := pushFrames_keeps hnote other frames
      exact ⟨hrest, fun id hne hid => hforgets id hne (forgets_noteDecodeError hid other)⟩
    · rw [if_pos hmixing]
      exact ⟨hnote, fun id _ hid => forgets_noteDecodeError hid other⟩
  | false =>
    rw [if_neg Bool.false_ne_true]
    by_cases hmixing : g.mixingEnabled = true
    · rw [if_neg (not_not_intro hmixing)]
      exact pushFrames_keeps h other frames
    · rw [if_pos hmixing]
      exact ⟨h, fun _ _ hid => hid⟩

theorem pushUnderLock_idle {frames : List (Frame × Instant)} (other : ParticipantId)
    (undecodable : Bool) (hidle : g.mixingEnabled = false ∨ frames = []) (hid : Forgets g id) :
    Forgets (Room.pushUnderLock g other undecodable frames) id := by
  have hg : Room.pushUnderLock g other undecodable frames =
      if undecodable then g.noteDecodeError other else g := by
    rw [Room.pushUnderLock]
    rcases hidle with hoff | rfl
    · rw [if_pos]
      cases undecodable with
      | true =>
        show ¬(g.noteDecodeError other).mixingEnabled = true
        exact ne_true_of_eq_false hoff
      | false => exact ne_true_of_eq_false hoff
    · rw [List.foldl_nil, ite_self]
  rw [hg]
  split
  · exact forgets_noteDecodeError hid other
  · exact hid

/-! ## Linked participants -/

/-- The input of the participant has not been removed. -/
def Participant.Linked (p : Participant) : Prop := p.removal = .joined ∨ p.removal = .aborted

instance (p : Participant) : Decidable p.Linked := inferInstanceAs (Decidable (_ ∨ _))

namespace Room

variable {r : Room D}

def Links (r : Room D) (id : ParticipantId) : Prop :=
  ∃ p ∈ r.participants, p.id = id ∧ p.Linked

/-- The input of participant `i` has been removed. -/
def Unlinked (r : Room D) (i : Nat) : Prop := ∃ p, r.participants[i]? = some p ∧ ¬p.Linked

variable {i : Nat} {p : Participant}

theorem links_of_getElem (hp : r.participants[i]? = some p) (hlinked : p.Linked) : r.Links p.id :=
  ⟨p, List.mem_of_getElem? hp, rfl, hlinked⟩

variable {id : ParticipantId}

theorem links_of_present (h : r.present id = true) : r.Links id := by
  rw [present, List.any_eq_true] at h
  obtain ⟨p, hp, hq⟩ := h
  rw [Bool.and_eq_true, decide_eq_true_eq, decide_eq_true_eq] at hq
  exact ⟨p, hp, hq.1, .inl hq.2⟩

theorem getElem_update (i j : Nat) (f : Participant → Participant) :
    (r.update i f).participants[j]? =
      if i = j then (r.participants[j]?).map f else r.participants[j]? := by
  show (r.participants.modify i f)[j]? = _
  rw [List.getElem?_modify]
  split
  · rfl
  · cases r.participants[j]? <;> rfl

/-- An update that keeps the participant's id and its link. -/
structure KeepsLink (r : Room D) (i : Nat) (f : Participant → Participant) : Prop where
  id : ∀ p, r.participants[i]? = some p → (f p).id = p.id
  linked : ∀ p, r.participants[i]? = some p → ((f p).Linked ↔ p.Linked)

variable {f : Participant → Participant}

theorem Links.update (hf : r.KeepsLink i f) (h : r.Links id) : (r.update i f).Links id := by
  obtain ⟨p, hp, rfl, hlinked⟩ := h
  obtain ⟨j, hj⟩ := List.mem_iff_getElem?.mp hp
  by_cases hij : i = j
  · subst hij
    refine ⟨f p, List.mem_of_getElem? (i := i) ?_, hf.id p hj, (hf.linked p hj).mpr hlinked⟩
    rw [getElem_update, if_pos rfl, hj]
    rfl
  · refine ⟨p, List.mem_of_getElem? (i := j) ?_, rfl, hlinked⟩
    rw [getElem_update, if_neg hij, hj]

theorem Unlinked.update {k : Nat} (hf : ∀ p, r.participants[i]? = some p → (f p).Linked → p.Linked)
    (h : r.Unlinked k) :
    (r.update i f).Unlinked k := by
  obtain ⟨p, hp, hlinked⟩ := h
  by_cases hik : i = k
  · subst hik
    refine ⟨f p, ?_, fun hfp => hlinked (hf p hp hfp)⟩
    rw [getElem_update, if_pos rfl, hp]
    rfl
  · refine ⟨p, ?_, hlinked⟩
    rw [getElem_update, if_neg hik, hp]

/-! ## What holds throughout a run -/

/-- The room routes nobody, and the graph holds nothing for an id that is not linked. -/
structure Tidy (r : Room D) : Prop where
  unrouted : Unrouted r.graph
  forgets : ∀ id, ¬r.Links id → Forgets r.graph id

theorem tidy_new (n : Nat) : Tidy (Room.new D n) where
  unrouted := ⟨fun _ => ExtTreeMap.getElem?_empty, fun _ => ExtTreeMap.getElem?_empty⟩
  forgets := fun _ _ => forgets_new

theorem Tidy.update (h : r.Tidy) (hf : r.KeepsLink i f) : (r.update i f).Tidy :=
  ⟨h.unrouted, fun id hid => h.forgets id fun hlinks => hid (hlinks.update hf)⟩

variable {g : MixGraph D}

theorem Tidy.setGraph (h : r.Tidy) (hg : Unrouted g)
    (hforgets : ∀ id, ¬r.Links id → Forgets r.graph id → Forgets g id) : (r.setGraph g).Tidy :=
  ⟨hg, fun id hid => hforgets id hid (h.forgets id hid)⟩

theorem ne_of_links {other : ParticipantId} (hid : ¬r.Links id) (h : r.Links other) : id ≠ other :=
  fun heq => hid (heq ▸ h)

/-- What one step keeps: a participant whose input was removed stays so, and pushes nothing. -/
structure Keeps (r t : Room D) (out : List RoomEvent) : Prop where
  tidy : t.Tidy
  unlinked : ∀ k, r.Unlinked k → t.Unlinked k
  pushes : ∀ k frame, .pushed k frame ∈ out → ¬t.Unlinked k
  reports : ∀ k, .unlinked k ∈ out → t.Unlinked k

theorem keeps_update (h : r.Tidy) (hf : r.KeepsLink i f) :
    r.Keeps (r.update i f) [] where
  tidy := h.update hf
  unlinked := fun _ hk => hk.update fun p hp => (hf.linked p hp).mp
  pushes := fun _ _ hmem => by cases hmem
  reports := fun _ hmem => by cases hmem

variable {out : List RoomEvent}

theorem keeps_setGraph (h : r.Tidy) (hg : Unrouted g)
    (hforgets : ∀ id, ¬r.Links id → Forgets r.graph id → Forgets g id)
    (hout : ∀ e ∈ out, ∃ rendered, e = .rendered rendered) : r.Keeps (r.setGraph g) out where
  tidy := h.setGraph hg hforgets
  unlinked := fun _ hk => hk
  pushes := fun k frame hmem => by
    obtain ⟨rendered, heq⟩ := hout _ hmem
    cases heq
  reports := fun k hmem => by
    obtain ⟨rendered, heq⟩ := hout _ hmem
    cases heq

theorem keeps_same (h : r.Tidy) : r.Keeps r [] where
  tidy := h
  unlinked := fun _ hk => hk
  pushes := fun _ _ hmem => by cases hmem
  reports := fun _ hmem => by cases hmem

theorem keeps_update_setGraph (h : r.Tidy) (hf : r.KeepsLink i f) (hg : Unrouted g)
    (hforgets : ∀ id, ¬r.Links id → Forgets r.graph id → Forgets g id)
    (hpush : ∀ k frame, .pushed k frame ∈ out → ¬r.Unlinked k) (hout : ∀ k, .unlinked k ∉ out) :
    r.Keeps ((r.update i f).setGraph g) out where
  tidy := (h.update hf).setGraph hg fun id hid => hforgets id fun hlinks => hid (hlinks.update hf)
  unlinked := fun _ hk => Unlinked.update (fun p hp => (hf.linked p hp).mp) hk
  pushes := fun k frame hmem hk => by
    obtain ⟨q, hq, hlinked⟩ := hk
    refine hpush k frame hmem ?_
    rw [show ((r.update i f).setGraph g).participants = (r.update i f).participants from rfl,
      getElem_update] at hq
    by_cases hik : i = k
    · subst hik
      rw [if_pos rfl, Option.map_eq_some_iff] at hq
      obtain ⟨p, hp, rfl⟩ := hq
      exact ⟨p, hp, fun hp' => hlinked ((hf.linked p hp).mpr hp')⟩
    · rw [if_neg hik] at hq
      exact ⟨q, hq, hlinked⟩
  reports := fun k hmem => absurd hmem (hout k)

/-! ## The steps -/

/-- After the removal of the input no loop of the participant pushes a frame into a mixing
graph, and no poll that was under way renders. -/
def Meets (r : Room D) : RoomInput → Prop
  | .pushSample i t _ => r.Unlinked i → r.graph.mixingEnabled = true →
      ∃ undecodable, r.inboundOf i t = some (.holding [] undecodable)
  | .render i => ¬r.Unlinked i
  | _ => True

theorem setInbound_keepsLink (r : Room D) (i t : Nat) (phase : InboundPhase) :
    r.KeepsLink i fun p => { p with inbound := p.inbound.set t phase } :=
  ⟨fun _ _ => rfl, fun _ _ => Iff.rfl⟩

theorem setOutbound_keepsLink (r : Room D) (i : Nat) (phase : OutboundPhase) :
    r.KeepsLink i fun p => { p with outbound := phase } :=
  ⟨fun _ _ => rfl, fun _ _ => Iff.rfl⟩

theorem keeps_addParticipant (h : r.Tidy) (id : ParticipantId) : r.Keeps (r.addParticipant id) [] := by
  rw [addParticipant]
  split
  · exact keeps_same h
  · split
    · exact keeps_same h
    · refine ⟨⟨⟨h.unrouted.routes, h.unrouted.groups⟩, fun other hother => ?_⟩, fun k hk => ?_,
        fun _ _ hmem => (by cases hmem), fun _ hmem => (by cases hmem)⟩
      · have hne : other ≠ id := fun heq =>
          hother ⟨_, List.mem_append_right _ (List.mem_singleton_self _), heq.symm, .inl rfl⟩
        refine forgets_addInput (h.forgets other fun hlinks => hother ?_) hne
        obtain ⟨p, hp, hid, hlinked⟩ := hlinks
        exact ⟨p, List.mem_append_left _ hp, hid, hlinked⟩
      · obtain ⟨p, hp, hlinked⟩ := hk
        exact ⟨p, List.getElem?_append_left (List.getElem?_eq_some_iff.mp hp).1 ▸ hp, hlinked⟩

theorem keeps_pushSample (h : r.Tidy) {t : Nat} {frames : List Frame} {undecodable : Bool}
    (arrivals : List Instant) (hp : r.participants[i]? = some p)
    (hphase : p.inbound[t]? = some (.holding frames undecodable))
    (hmeets : r.Meets (.pushSample i t arrivals)) :
    r.Keeps ((r.setInbound i t .reading).setGraph
        (pushUnderLock r.graph p.id undecodable (frames.zip arrivals)))
      (if r.graph.mixingEnabled then frames.map (.pushed i) else []) := by
  have hinbound : r.inboundOf i t = some (.holding frames undecodable) := by
    rw [inboundOf, hp]
    exact hphase
  have hpush := pushUnderLock_keeps h.unrouted p.id undecodable (frames.zip arrivals)
  -- a sample of a participant whose input was removed does nothing
  have hidle : r.Unlinked i → r.graph.mixingEnabled = false ∨ frames = [] := fun hk => by
    cases hmixing : r.graph.mixingEnabled with
    | false => exact .inl rfl
    | true =>
      obtain ⟨u, hu⟩ := hmeets hk hmixing
      rw [hinbound] at hu
      exact .inr (InboundPhase.holding.inj (Option.some.inj hu)).1
  refine keeps_update_setGraph h (r.setInbound_keepsLink i t .reading) hpush.1 (fun id hid hf => ?_)
    (fun k frame hmem hk => ?_) (fun k hmem => ?_)
  · by_cases hlinked : p.Linked
    · exact hpush.2 id (ne_of_links hid (links_of_getElem hp hlinked)) hf
    · refine pushUnderLock_idle p.id undecodable ?_ hf
      rcases hidle ⟨p, hp, hlinked⟩ with hoff | rfl
      · exact .inl hoff
      · exact .inr List.zip_nil_left
  · split at hmem
    · next hmixing =>
      obtain ⟨held, hheld, heq⟩ := List.mem_map.mp hmem
      cases heq
      rcases hidle hk with hoff | rfl
      · rw [hmixing] at hoff
        cases hoff
      · cases hheld
    · cases hmem
  · split at hmem
    · obtain ⟨held, -, heq⟩ := List.mem_map.mp hmem
      cases heq
    · cases hmem

theorem keeps_removeInput (h : r.Tidy) (hp : r.participants[i]? = some p) :
    r.Keeps ((r.setRemoval i .unlinked).setGraph (r.graph.removeInput p.id)) [.unlinked i] := by
  have hself : (r.setRemoval i .unlinked).Unlinked i := by
    refine ⟨{ p with removal := .unlinked }, ?_, fun hlinked => ?_⟩
    · rw [setRemoval, getElem_update, if_pos rfl, hp]
      rfl
    · rcases hlinked with heq | heq <;> cases heq
  refine ⟨⟨(removeInput_unrouted h.unrouted p.id).1, fun id hid => ?_⟩, fun k hk => ?_,
    fun k frame hmem => ?_, fun k hmem => ?_⟩
  · refine forgets_removeInput h.unrouted ?_
    by_cases hne : id = p.id
    · exact .inl hne
    · refine .inr (h.forgets id fun hlinks => hid ?_)
      obtain ⟨q, hq, rfl, hlinked⟩ := hlinks
      obtain ⟨j, hj⟩ := List.mem_iff_getElem?.mp hq
      have hij : i ≠ j := fun heq => by
        subst heq
        rw [hp] at hj
        exact hne (congrArg _ (Option.some.inj hj)).symm
      refine ⟨q, List.mem_of_getElem? (i := j) ?_, rfl, hlinked⟩
      show (r.setRemoval i .unlinked).participants[j]? = some q
      rw [setRemoval, getElem_update, if_neg hij, hj]
  · show (r.setRemoval i .unlinked).Unlinked k
    refine Unlinked.update (fun q _ hlinked => ?_) hk
    rcases hlinked with heq | heq <;> cases heq
  · rw [List.mem_singleton] at hmem
    cases hmem
  · rw [List.mem_singleton] at hmem
    cases hmem
    exact hself

theorem keeps_render (h : r.Tidy) {now : Instant} {slots : List Instant} {rendered : Rendered}
    (hp : r.participants[i]? = some p) (hlinked : p.Linked)
    (hr : r.graph.render p.id now = some (rendered, g)) :
    r.Keeps ((r.setOutbound i (.running slots)).setGraph g) [.rendered rendered] := by
  refine keeps_update_setGraph h (r.setOutbound_keepsLink i _)
    (h.unrouted.same (MixGraph.render_sameRouting hr)) (fun id hid hf => ?_)
    (fun k frame hmem => ?_) (fun k hmem => ?_)
  · exact forgets_render hf (ne_of_links hid (links_of_getElem hp hlinked)) hr
  · rw [List.mem_singleton] at hmem
    cases hmem
  · rw [List.mem_singleton] at hmem
    cases hmem

theorem step_keeps {input : RoomInput} {t : Room D} (h : r.Tidy) (hmeets : r.Meets input)
    (hs : r.step input = some (t, out)) : r.Keeps t out := by
  cases input with rw [step] at hs
  | addParticipant id =>
    split at hs <;> cases hs
    exact keeps_addParticipant h id
  | onTrack i =>
    split at hs <;> cases hs
    exact keeps_update h ⟨fun _ _ => rfl, fun _ _ => Iff.rfl⟩
  | readSample i t frames undecodable | readFails i t =>
    split at hs <;> cases hs
    exact keeps_update h (r.setInbound_keepsLink i t _)
  | pushSample i t arrivals =>
    split at hs
    · cases hs
    · next p hp =>
      split at hs
      · next frames undecodable hphase =>
        split at hs <;> cases hs
        exact keeps_pushSample h arrivals hp hphase hmeets
      · cases hs
  | wake i due | dropOutbound i =>
    split at hs
    · cases hs
    · split at hs
      · split at hs <;> cases hs
        exact keeps_update h (r.setOutbound_keepsLink i _)
      · cases hs
  | render i =>
    split at hs
    · cases hs
    · next p hp =>
      split at hs
      · rw [Option.map_eq_some_iff] at hs
        obtain ⟨⟨rendered, g⟩, hrender, heq⟩ := hs
        cases heq
        have hlinked : p.Linked := by
          by_contra hnot
          exact hmeets ⟨p, hp, hnot⟩
        exact keeps_render h hp hlinked hrender
      · cases hs
  | park i | stopOutbound i =>
    split at hs
    · cases hs
    · split at hs <;> cases hs
      exact keeps_update h (r.setOutbound_keepsLink i _)
  | remove id =>
    split_ifs at hs
    split at hs <;> cases hs
    · exact keeps_same h
    · next i hfind =>
      refine keeps_update h ⟨fun _ _ => rfl, fun p hp => ⟨fun _ => .inl ?_, fun _ => .inr rfl⟩⟩
      obtain ⟨hi, hjoined, -⟩ := List.findIdx?_eq_some_iff_getElem.mp hfind
      rw [(List.getElem?_eq_some_iff.mp hp).2, Bool.and_eq_true] at hjoined
      exact of_decide_eq_true hjoined.2
  | removeInput i =>
    split at hs
    · cases hs
    · next p hp =>
      split at hs <;> cases hs
      exact keeps_removeInput h hp
  | closed i =>
    split at hs
    · cases hs
    · next p hp =>
      split_ifs at hs with hunlinked
      cases hs
      refine keeps_update h ⟨fun _ _ => rfl, fun q hq => ?_⟩
      rw [hp] at hq
      cases hq
      constructor
      · intro hlinked
        rcases hlinked with heq | heq <;> cases heq
      · intro hlinked
        rw [Participant.Linked, hunlinked] at hlinked
        rcases hlinked with heq | heq <;> cases heq
  | setMixingEnabled enabled =>
    split at hs <;> cases hs
    refine keeps_setGraph h ⟨h.unrouted.routes, h.unrouted.groups⟩ (fun id _ hf => ?_) ?_
    · exact ⟨hf.input, hf.cursor, hf.globalMute, hf.mutes, hf.route, hf.routed⟩
    · intro e he
      cases he
  | setGlobalMute target muted =>
    split at hs
    · cases hs
    · split at hs <;> cases hs
      · next hpresent =>
        refine keeps_setGraph h (h.unrouted.setGlobalMute target muted) (fun id hid hf => ?_) ?_
        · exact forgets_setGlobalMute hf (ne_of_links hid (links_of_present hpresent)) muted
        · intro e he
          cases he
      · exact keeps_same h
  | setListenerMute listener target muted =>
    split at hs
    · cases hs
    · split at hs <;> cases hs
      · next hpresent =>
        rw [Bool.and_eq_true] at hpresent
        refine keeps_setGraph h (h.unrouted.setListenerMute listener target muted)
          (fun id hid hf => ?_) ?_
        · exact forgets_setListenerMute hf (ne_of_links hid (links_of_present hpresent.2))
            (ne_of_links hid (links_of_present hpresent.1)) muted
        · intro e he
          cases he
      · exact keeps_same h
  | injectFrame id frame now =>
    split at hs
    · cases hs
    · split at hs <;> cases hs
      · next hpresent =>
        refine keeps_setGraph h ⟨h.unrouted.routes, h.unrouted.groups⟩ (fun other hid hf => ?_) ?_
        · exact forgets_pushFrameAt hf (ne_of_links hid (links_of_present hpresent)) frame now
        · intro e he
          cases he
      · exact keeps_same h
  | renderOutput id now =>
    split at hs
    · cases hs
    · split at hs
      · next hpresent =>
        rw [Option.map_eq_some_iff] at hs
        obtain ⟨⟨rendered, g⟩, hrender, heq⟩ := hs
        cases heq
        refine keeps_setGraph h (h.unrouted.same (MixGraph.render_sameRouting hrender))
          (fun other hid hf => ?_) ?_
        · exact forgets_render hf (ne_of_links hid (links_of_present hpresent)) hrender
        · intro e he
          exact ⟨rendered, List.mem_singleton.mp he⟩
      · cases hs
        exact keeps_same h

/-- A removed participant leaves nothing behind. -/
theorem removed_participant_leaves_nothing (n : Nat) (inputs : List RoomInput) (r : Room D)
    (out : List RoomEvent) (hrun : run step (Room.new D n) inputs = some (r, out))
    (hmeets : Along step Meets (Room.new D n) inputs) :
    EachAfter (fun before e => ∀ i frame, e = .pushed i frame → .unlinked i ∉ before) out ∧
      ∀ id, (∀ p ∈ r.participants, p.id = id → p.removal = .removed) → Forgets r.graph id := by
  have hinv := run_history (C := Meets)
    (I := fun _ os (s : Room D) => s.Tidy ∧ (∀ i, .unlinked i ∈ os → s.Unlinked i) ∧
      EachAfter (fun before e => ∀ i frame, e = .pushed i frame → .unlinked i ∉ before) os)
    (fun _ os s input t out hi hmeets hs => by
      obtain ⟨htidy, hreported, heach⟩ := hi
      have hkeeps := step_keeps htidy hmeets hs
      have hreports : ∀ i, .unlinked i ∈ os ++ out → t.Unlinked i := fun i hmem => by
        rcases List.mem_append.mp hmem with hold | hnew
        · exact hkeeps.unlinked i (hreported i hold)
        · exact hkeeps.reports i hnew
      refine ⟨hkeeps.tidy, hreports, EachAfter.append_iff.mpr ⟨heach, ?_⟩⟩
      intro before e after heq i frame hpushed hmem
      subst hpushed
      refine hkeeps.pushes i frame (by rw [heq]; simp) (hreports i ?_)
      rcases List.mem_append.mp hmem with hold | hnew
      · exact List.mem_append_left _ hold
      · exact List.mem_append_right _ (by rw [heq]; simp [hnew]))
    ⟨tidy_new n, fun _ hmem => (by cases hmem), .nil⟩ hmeets hrun
  refine ⟨hinv.2.2, fun id hremoved => hinv.1.forgets id fun hlinks => ?_⟩
  obtain ⟨p, hp, hid, hlinked⟩ := hlinks
  rw [Participant.Linked, hremoved p hp hid] at hlinked
  rcases hlinked with heq | heq <;> cases heq

/-- A loop that holds a sample when its participant is removed, with mixing off when it gets the
graph lock. -/
def removedWhileHolding : List RoomInput :=
  [.addParticipant "ann", .onTrack 0, .readSample 0 0 [silenceFrame] false, .setMixingEnabled false,
    .remove "ann", .removeInput 0, .pushSample 0 0 [0], .readFails 0 0, .closed 0, .dropOutbound 0]

theorem removed_participant_leaves_nothing_holding :
    ∃ r out, run step (Room.new silentDsp 8) removedWhileHolding = some (r, out) ∧
      EachAfter (fun before e => ∀ i frame, e = .pushed i frame → .unlinked i ∉ before) out ∧
      ∀ id, (∀ p ∈ r.participants, p.id = id → p.removal = .removed) → Forgets r.graph id := by
  refine ⟨_, _, rfl, removed_participant_leaves_nothing 8 removedWhileHolding _ _ rfl ?_⟩
  refine .cons trivial rfl (.cons trivial rfl (.cons trivial rfl (.cons trivial rfl
    (.cons trivial rfl (.cons trivial rfl (.cons ?_ rfl (.cons trivial rfl (.cons trivial rfl
    (.cons trivial rfl trivial)))))))))
  intro _ hmixing
  exact absurd hmixing (by decide)

/-- The same loop with mixing on, and a listener that joins later. -/
def pushedAfterRemoval : List RoomInput :=
  [.addParticipant "ann", .addParticipant "bob", .onTrack 0, .readSample 0 0 [silenceFrame] false,
    .remove "ann", .removeInput 0, .pushSample 0 0 [0], .readFails 0 0, .closed 0, .dropOutbound 0,
    .renderOutput "bob" 60000000]

/-- The slot of the kicked participant is back, and the listener hears it. -/
theorem removed_participant_heard :
    ∃ r rendered, run step (Room.new silentDsp 8) pushedAfterRemoval =
        some (r, [.unlinked 0, .pushed 0 silenceFrame, .rendered rendered]) ∧
      (∀ p ∈ r.participants, p.id = "ann" → p.removal = .removed ∧ p.inbound = [.ended]) ∧
      r.graph.inputs.contains "ann" = true ∧ ¬Forgets r.graph "ann" ∧
      "ann" ∈ rendered.heard := by
  refine ⟨_, _, rfl, by decide, rfl, fun hforgets => ?_, by decide⟩
  have hinput := hforgets.input
  cases hinput

end Room

end NodeWebrtc.Conference
