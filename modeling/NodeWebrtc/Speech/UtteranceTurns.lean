import NodeWebrtc.Lib.Trace
import NodeWebrtc.Speech.Utterance

/-! # What a step does to the utterances

The records, the ids under which terminal events went out and the finalizes asked for, without
timers, gates and the other events. Every input of the agent is a walk of the few changes
below, so what they preserve holds of the agent.
-/

namespace NodeWebrtc.VoiceAgent

open SttActor (SttTranscript SttResult)

namespace SttUtterance

/-! ## Changes of one record -/

def hear (text : String) (r : SttUtterance) : SttUtterance :=
  { r with partialsEmitted := true, lastPartialText := some text }

/-- What a final does; an empty one is a `not_found`. -/
def finish (text : String) (r : SttUtterance) : SttUtterance :=
  if isBlank text then
    if r.notFoundEmitted then { r with finalEmitted := true }
    else { r with finalEmitted := true, notFoundEmitted := true }.markTerminal
  else { r with finalEmitted := true }.markTerminal

def finishTells (text : String) (r : SttUtterance) : Bool := !(isBlank text && r.notFoundEmitted)

def needsForced (r : SttUtterance) : Bool := !r.finalEmitted && r.partialsEmitted && r.hasText

def needsNotFound (r : SttUtterance) : Bool :=
  !r.finalEmitted && !r.hasText &&
    (r.streamOpen || r.userSttSessionOpen || r.forcedReason) && !r.notFoundEmitted

/-- The record once its close has looked for a missing transcript. -/
def missed (r : SttUtterance) : SttUtterance :=
  if r.needsNotFound then { r with notFoundEmitted := true }.markTerminal else r

def close (r : SttUtterance) : SttUtterance :=
  if r.needsForced then { r with finalEmitted := true }.markTerminal.endStream
  else if r.forcedReason && !r.finalEmitted then { r.missed with finalEmitted := true }.endStream
  else r.missed.endStream

def closeTells (r : SttUtterance) : Bool := r.needsForced || r.needsNotFound

def expire (r : SttUtterance) : SttUtterance :=
  (if r.userSttSessionOpen then { r with notFoundEmitted := true }.markTerminal else r).endStream

/-- The session and the stream are open together. -/
def Paired (r : SttUtterance) : Prop := r.streamOpen = r.userSttSessionOpen

/-- The same record as far as terminal events go; the second may also differ in the flags no
terminal event depends on. -/
structure Alike (r r' : SttUtterance) : Prop where
  key : r'.key = r.key
  final : r'.finalEmitted = r.finalEmitted
  notFound : r'.notFoundEmitted = r.notFoundEmitted
  terminal : r'.terminal = r.terminal
  partials : r'.partialsEmitted = r.partialsEmitted
  text : r'.lastPartialText = r.lastPartialText
  paired : r.Paired → r'.Paired

theorem Alike.refl (r : SttUtterance) : Alike r r := ⟨rfl, rfl, rfl, rfl, rfl, rfl, id⟩

variable {r : SttUtterance}

theorem Alike.trans {r' r'' : SttUtterance} (h : Alike r r') (h' : Alike r' r'') : Alike r r'' where
  key := h'.key.trans h.key
  final := h'.final.trans h.final
  notFound := h'.notFound.trans h.notFound
  terminal := h'.terminal.trans h.terminal
  partials := h'.partials.trans h.partials
  text := h'.text.trans h.text
  paired := fun hr => h'.paired (h.paired hr)

theorem finish_key (text : String) (r : SttUtterance) : (r.finish text).key = r.key := by
  unfold finish
  split
  · split <;> rfl
  · rfl

theorem finish_paired (text : String) (h : r.Paired) : (r.finish text).Paired := by
  unfold finish
  split
  · split <;> exact h
  · exact h

theorem finish_partials (text : String) (r : SttUtterance) :
    (r.finish text).partialsEmitted = r.partialsEmitted := by
  unfold finish
  split
  · split <;> rfl
  · rfl

theorem finish_alike (text : String) {r' : SttUtterance}
    (h : Alike { r with finalEmitted := true } r') : (r.finish text).Alike (r'.finish text) := by
  have hnot : r'.notFoundEmitted = r.notFoundEmitted := h.notFound
  unfold finish
  rw [hnot]
  split
  · split
    · exact ⟨h.key, rfl, rfl, h.terminal, h.partials, h.text, h.paired⟩
    · exact ⟨h.key, rfl, rfl, rfl, h.partials, h.text, h.paired⟩
  · exact ⟨h.key, rfl, rfl, rfl, h.partials, h.text, h.paired⟩

theorem endStream_alike (r : SttUtterance) : r.Alike r.endStream :=
  ⟨rfl, rfl, rfl, rfl, rfl, rfl, fun _ => rfl⟩

theorem needsNotFound_of_forced (h : r.needsForced = true) : r.needsNotFound = false := by
  have htext : r.hasText = true := (Bool.and_eq_true_iff.mp h).2
  unfold needsNotFound
  rw [htext]
  simp

section

variable (r)

theorem missed_key : r.missed.key = r.key := by
  unfold missed
  split <;> rfl

theorem missed_final : r.missed.finalEmitted = r.finalEmitted := by
  unfold missed
  split <;> rfl

theorem missed_partials : r.missed.partialsEmitted = r.partialsEmitted := by
  unfold missed
  split <;> rfl

theorem close_key : r.close.key = r.key := by
  unfold close
  split
  · rfl
  · split <;> exact r.missed_key

theorem close_partials : r.close.partialsEmitted = r.partialsEmitted := by
  unfold close
  split
  · rfl
  · split <;> exact r.missed_partials

theorem close_paired : r.close.Paired := by
  unfold close
  split
  · rfl
  · split <;> rfl

theorem expire_key : r.expire.key = r.key := by
  unfold expire
  split <;> rfl

theorem expire_paired : r.expire.Paired := rfl

end

end SttUtterance

/-! ## Turns -/

/-- The part of the agent its terminal events depend on. -/
structure Turns where
  live : Option SttUtterance
  closing : List SttUtterance
  nextKey : Nat
  terminals : List Nat
  ended : List Nat

namespace Turns

def record (t : Turns) (key : Nat) : Option SttUtterance :=
  (t.live.filter fun r => r.key == key).or (t.closing.find? fun r => r.key == key)

def put (t : Turns) (r : SttUtterance) : Turns :=
  if t.live.any fun x => x.key == r.key then { t with live := some r }
  else { t with closing := modifyFirst (fun x => x.key == r.key) (fun _ => r) t.closing }

def tell (t : Turns) (keys : List Nat) : Turns := { t with terminals := t.terminals ++ keys }

def openLive (t : Turns) : Turns :=
  { t with live := some (.new t.nextKey), nextKey := t.nextKey + 1 }

def ensureLive (t : Turns) : Turns := if t.live.isNone then t.openLive else t

def records (t : Turns) : List SttUtterance := t.live.toList ++ t.closing

inductive Names (t : Turns) : Option Nat → SttUtterance → Prop
  | keyed (key : Nat) (r : SttUtterance) (hrecord : t.record key = some r)
      (hopen : r.terminal = false) : Names t (some key) r
  | oldest (r : SttUtterance) (rest : List SttUtterance) (hclosing : t.closing = r :: rest)
      (hopen : r.terminal = false) : Names t none r
  | spoken (r : SttUtterance) (hclosing : t.closing = []) (hlive : t.live = some r) :
      Names t none r

end Turns

/-- What a walk shows: a transcript was applied to a record, C1 fired on the live record while
others were closing, or a record that was closing is closed. -/
inductive TurnEvent where
  | applied (key : Option Nat) (r : SttUtterance)
  | timedOut (r : SttUtterance) (older : List SttUtterance)
  | closed (key : Nat)

inductive TurnStep : Turns → List TurnEvent → Turns → Prop
  | opened (t : Turns) : TurnStep t [] t.openLive
  | dropped (t : Turns) : TurnStep t [] { t with live := none, closing := [] }
  | touched (t : Turns) (r r' : SttUtterance) (hrecord : t.record r.key = some r)
      (halike : r.Alike r') : TurnStep t [] (t.put r')
  | asked (t : Turns) (r : SttUtterance) (hlive : t.live = some r) (hterminal : r.terminal = true) :
      TurnStep t [] { t with ended := t.ended ++ [r.key] }
  | moved (t : Turns) (r r' : SttUtterance) (hlive : t.live = some r) (halike : r.Alike r') :
      TurnStep t [] { t with
        live := none
        closing := t.closing ++ [r']
        ended := t.ended ++ [r.key] }
  | timedOut (t : Turns) (r : SttUtterance) (hlive : t.live = some r)
      (hstream : r.streamOpen = true) (hquiet : r.partialsEmitted = false) :
      TurnStep t [.timedOut r t.closing] { t with
        live := some r.expire
        terminals := t.terminals ++ if r.userSttSessionOpen then [r.key] else [] }
  | heard (t : Turns) (key : Option Nat) (r r' : SttUtterance) (text : String)
      (hnames : t.Names key r) (halike : (r.hear text).Alike r') :
      TurnStep t [.applied key r] (t.put r')
  | finished (t : Turns) (key : Option Nat) (r r' : SttUtterance) (text : String)
      (hnames : t.Names key r) (halike : (r.finish text).Alike r') :
      TurnStep t [.applied key r] ((t.put r').tell (if r.finishTells text then [r.key] else []))
  | closedLive (t : Turns) (r r' : SttUtterance) (hlive : t.live = some r)
      (hheard : r.partialsEmitted = true) (halike : r.close.Alike r') :
      TurnStep t [] { t with
        live := some r'
        terminals := t.terminals ++ if r.closeTells then [r.key] else [] }
  | closed (t : Turns) (key : Nat) (r : SttUtterance)
      (hrecord : t.closing.find? (fun r => r.key == key) = some r) :
      TurnStep t [.closed key] { t with
        closing := t.closing.eraseP fun r => r.key == key
        terminals := t.terminals ++ if r.closeTells then [key] else [] }

/-! ## Order of the records -/

namespace Turns

def liveKey (t : Turns) : Option Nat := t.live.map SttUtterance.key

def closingKeys (t : Turns) : List Nat := t.closing.map SttUtterance.key

/-- Keys are drawn in order: older utterances close before the live one, and the stream of
the live one is open with its session. -/
structure Ordered (t : Turns) : Prop where
  closing : t.closingKeys.Pairwise (· < ·)
  live : ∀ k, t.liveKey = some k → k < t.nextKey ∧ ∀ c ∈ t.closingKeys, c < k
  below : ∀ c ∈ t.closingKeys, c < t.nextKey
  paired : ∀ r, t.live = some r → r.Paired

theorem map_modifyFirst {α β : Type} {p : α → Bool} {f : α → α} {g : α → β} {xs : List α}
    (h : ∀ x ∈ xs, p x = true → g (f x) = g x) : (modifyFirst p f xs).map g = xs.map g := by
  induction xs with
  | nil => rfl
  | cons x xs ih =>
    unfold modifyFirst
    split
    · rename_i hp
      rw [List.map_cons, List.map_cons, h x List.mem_cons_self hp]
    · rw [List.map_cons, List.map_cons, ih fun y hy => h y (List.mem_cons_of_mem x hy)]

variable {t : Turns}

theorem live_of_any {key : Nat} (h : (t.live.any fun x => x.key == key) = true) :
    ∃ r, t.live = some r ∧ r.key = key := by
  cases hlive : t.live with rw [hlive] at h
  | none =>
    contradiction
  | some r =>
    exact ⟨r, rfl, beq_iff_eq.mp h⟩

theorem put_liveKey (t : Turns) (r : SttUtterance) : (t.put r).liveKey = t.liveKey := by
  unfold put
  split
  · rename_i hlive
    obtain ⟨x, hx, hkey⟩ := live_of_any hlive
    unfold liveKey
    rw [hx]
    exact congrArg some hkey.symm
  · rfl

theorem put_closingKeys (t : Turns) (r : SttUtterance) : (t.put r).closingKeys = t.closingKeys := by
  unfold put
  split
  · rfl
  · refine map_modifyFirst fun x _ hx => ?_
    exact (beq_iff_eq.mp hx).symm

theorem put_frame (t : Turns) (r : SttUtterance) :
    (t.put r).nextKey = t.nextKey ∧ (t.put r).terminals = t.terminals ∧
      (t.put r).ended = t.ended := by
  unfold put
  split <;> exact ⟨rfl, rfl, rfl⟩

variable {r : SttUtterance}

theorem put_live {x : SttUtterance} (h : (t.put r).live = some x) :
    t.live = some x ∨ (x = r ∧ ∃ y, t.live = some y ∧ y.key = r.key) := by
  unfold put at h
  split at h
  · rename_i hlive
    exact .inr ⟨(Option.some.inj h).symm, live_of_any hlive⟩
  · exact .inl h

theorem record_key {key : Nat} (h : t.record key = some r) : r.key = key := by
  unfold record at h
  rw [Option.or_eq_some_iff] at h
  rcases h with h | ⟨-, h⟩
  · obtain ⟨-, hkey⟩ := Option.filter_eq_some_iff.mp h
    exact beq_iff_eq.mp hkey
  · have hkey := List.find?_some h
    exact beq_iff_eq.mp hkey

theorem record_of_live {key : Nat} (h : (t.live.any fun x => x.key == key) = true) :
    t.record key = some r ↔ t.live = some r := by
  obtain ⟨x, hx, hkey⟩ := live_of_any h
  have hfilter : (some x).filter (fun y => y.key == key) = some x :=
    Option.filter_eq_some_iff.mpr ⟨rfl, beq_iff_eq.mpr hkey⟩
  unfold record
  rw [hx, hfilter, Option.some_or]

theorem record_of_not_live {key : Nat} (h : ¬ (t.live.any fun x => x.key == key) = true) :
    t.record key = t.closing.find? fun r => r.key == key := by
  unfold record
  cases hlive : t.live with
  | none => rfl
  | some r =>
    rw [hlive] at h
    have hfilter : (some r).filter (fun y => y.key == key) = none := by
      refine Option.eq_none_iff_forall_ne_some.mpr fun x hx => ?_
      obtain ⟨hr, hkey⟩ := Option.filter_eq_some_iff.mp hx
      rw [Option.some.injEq] at hr
      subst hr
      exact h hkey
    rw [hfilter, Option.none_or]

variable {r' : SttUtterance}

theorem put_paired (h : t.Ordered) (hkey : r'.key = r.key) (hrecord : t.record r.key = some r)
    (hpaired : r.Paired → r'.Paired) :
    ∀ x, (t.put r').live = some x → x.Paired := by
  intro x hx
  rcases put_live hx with hlive | ⟨rfl, y, hy, hykey⟩
  · exact h.paired x hlive
  · refine hpaired (h.paired r ?_)
    refine (record_of_live ?_).mp hrecord
    rw [hy]
    exact beq_iff_eq.mpr (hykey.trans hkey)

theorem Ordered.put (h : t.Ordered) (hkey : r'.key = r.key) (hrecord : t.record r.key = some r)
    (hpaired : r.Paired → r'.Paired) : (t.put r').Ordered where
  closing := by
    rw [put_closingKeys]
    exact h.closing
  live := by
    rw [put_closingKeys, put_liveKey, (t.put_frame r').1]
    exact h.live
  below := by
    rw [put_closingKeys, (t.put_frame r').1]
    exact h.below
  paired := put_paired h hkey hrecord hpaired

theorem record_live (h : t.live = some r) : t.record r.key = some r := by
  refine (record_of_live ?_).mpr h
  rw [h]
  exact beq_self_eq_true r.key

theorem put_of_live (h : t.live = some r) (hkey : r'.key = r.key) :
    t.put r' = { t with live := some r' } := by
  refine if_pos ?_
  rw [h]
  exact beq_iff_eq.mpr hkey.symm

theorem Ordered.not_live (h : t.Ordered) (hr : r ∈ t.closing) :
    ¬ (t.live.any fun x => x.key == r.key) = true := by
  intro hany
  obtain ⟨x, hx, hkey⟩ := live_of_any hany
  have hlive : t.liveKey = some x.key := by
    unfold liveKey
    rw [hx]
    rfl
  have hlt := (h.live _ hlive).2 r.key (List.mem_map_of_mem hr)
  omega

theorem Names.record {key : Option Nat} (h : t.Names key r) (hordered : t.Ordered) :
    t.record r.key = some r := by
  cases h with
  | keyed key _ hrecord hopen => rwa [record_key hrecord]
  | oldest _ rest hclosing hopen =>
    have hnot := hordered.not_live (r := r) (by rw [hclosing]; exact List.mem_cons_self)
    rw [record_of_not_live hnot, hclosing]
    exact List.find?_cons_of_pos (beq_self_eq_true r.key)
  | spoken _ hclosing hlive => exact record_live hlive

theorem Ordered.setLive (h : t.Ordered) (hlive : t.live = some r) (hkey : r'.key = r.key)
    (hpaired : r'.Paired) (terminals ended : List Nat) :
    Ordered { t with live := some r', terminals := terminals, ended := ended } where
  closing := h.closing
  live := by
    intro k hk
    refine h.live k ?_
    unfold liveKey at hk ⊢
    rw [hlive]
    rw [← hk]
    exact congrArg some hkey.symm
  below := h.below
  paired := by
    intro x hx
    rw [← Option.some.inj hx]
    exact hpaired

end Turns

open Turns in
theorem TurnStep.ordered {t u : Turns} {es : List TurnEvent} (hs : TurnStep t es u)
    (h : t.Ordered) : u.Ordered := by
  cases hs with
  | opened =>
    refine ⟨h.closing, fun k hk => ?_, fun c hc => Nat.lt_succ_of_lt (h.below c hc), fun r hr => ?_⟩
    · rw [← Option.some.inj hk]
      exact ⟨Nat.lt_succ_self _, h.below⟩
    · rw [← Option.some.inj hr]
      rfl
  | dropped =>
    refine ⟨List.Pairwise.nil, fun k hk => ?_, fun c hc => absurd hc List.not_mem_nil,
      fun r hr => ?_⟩
    · cases hk
    · cases hr
  | touched r r' hrecord halike => exact h.put halike.key hrecord halike.paired
  | asked r hlive hterminal => exact ⟨h.closing, h.live, h.below, h.paired⟩
  | moved r r' hlive halike =>
    have hkey : t.liveKey = some r.key := by
      unfold liveKey
      rw [hlive]
      rfl
    obtain ⟨hnext, hbelow⟩ := h.live _ hkey
    refine ⟨?_, fun k hk => ?_, ?_, fun x hx => ?_⟩
    · show ((t.closing ++ [r']).map SttUtterance.key).Pairwise (· < ·)
      rw [List.map_append, List.pairwise_append]
      refine ⟨h.closing, List.pairwise_singleton _ _, fun x hx y hy => ?_⟩
      rw [List.mem_singleton.mp hy, halike.key]
      exact hbelow x hx
    · cases hk
    · intro c hc
      have hc' : c ∈ (t.closing ++ [r']).map SttUtterance.key := hc
      rw [List.map_append, List.mem_append] at hc'
      rcases hc' with hc' | hc'
      · exact h.below c hc'
      · rw [List.mem_singleton.mp hc', halike.key]
        exact hnext
    · cases hx
  | timedOut r hlive hstream hquiet => exact h.setLive hlive r.expire_key r.expire_paired _ _
  | heard key r r' text hnames halike =>
    have hkey : r'.key = r.key := halike.key
    exact h.put hkey (hnames.record h) halike.paired
  | finished key r r' text hnames halike =>
    have hput := h.put (halike.key.trans (r.finish_key text)) (hnames.record h) fun hp =>
      halike.paired (SttUtterance.finish_paired text hp)
    exact ⟨hput.closing, hput.live, hput.below, hput.paired⟩
  | closedLive r r' hlive hheard halike =>
    exact h.setLive hlive (halike.key.trans r.close_key) (halike.paired r.close_paired) _ _
  | closed key r hrecord =>
    have hsub : ((t.closing.eraseP fun x => x.key == key).map SttUtterance.key).Sublist
        t.closingKeys := List.eraseP_sublist.map _
    refine ⟨h.closing.sublist hsub, fun k hk => ?_, fun c hc => h.below c (hsub.subset hc), h.paired⟩
    obtain ⟨hnext, hbelow⟩ := h.live k hk
    exact ⟨hnext, fun c hc => hbelow c (hsub.subset hc)⟩

theorem TurnStep.touchedLive {t : Turns} {r r' : SttUtterance} (hlive : t.live = some r)
    (halike : r.Alike r') : TurnStep t [] { t with live := some r' } := by
  rw [← Turns.put_of_live hlive halike.key]
  exact .touched t r r' (Turns.record_live hlive) halike

theorem Steps.turns_ordered {t u : Turns} {es : List TurnEvent} (hs : Steps TurnStep t es u)
    (h : t.Ordered) : u.Ordered := by
  induction hs with
  | refl => exact h
  | snoc _ hs ih => exact hs.ordered ih

/-! ## Writing one record -/

namespace Turns

section

variable {α : Type} {p : α → Bool} {x : α} {xs : List α} (h : xs.find? p = some x)
include h

theorem find?_modifyFirst {y : α} (hy : p y = true) :
    (modifyFirst p (fun _ => y) xs).find? p = some y := by
  induction xs with
  | nil => cases h
  | cons z xs ih =>
    unfold modifyFirst
    by_cases hz : p z = true
    · rw [if_pos hz]
      exact List.find?_cons_of_pos hy
    · rw [if_neg hz, List.find?_cons_of_neg hz]
      exact ih (by rwa [List.find?_cons_of_neg hz] at h)

theorem modifyFirst_of_find? {f : α → α} :
    modifyFirst p f xs = modifyFirst p (fun _ => f x) xs := by
  induction xs with
  | nil => cases h
  | cons z xs ih =>
    unfold modifyFirst
    by_cases hz : p z = true
    · rw [List.find?_cons_of_pos hz, Option.some.injEq] at h
      rw [if_pos hz, if_pos hz, h]
    · rw [List.find?_cons_of_neg hz] at h
      rw [if_neg hz, if_neg hz, ih h]

theorem modifyFirst_self : modifyFirst p (fun _ => x) xs = xs := by
  induction xs with
  | nil => rfl
  | cons z xs ih =>
    unfold modifyFirst
    by_cases hz : p z = true
    · rw [List.find?_cons_of_pos hz, Option.some.injEq] at h
      rw [if_pos hz, h]
    · rw [List.find?_cons_of_neg hz] at h
      rw [if_neg hz, ih h]

end

theorem modifyFirst_twice {α : Type} {p : α → Bool} {y z : α} (xs : List α) (hy : p y = true) :
    modifyFirst p (fun _ => z) (modifyFirst p (fun _ => y) xs) = modifyFirst p (fun _ => z) xs := by
  induction xs with
  | nil => rfl
  | cons x xs ih =>
    by_cases hx : p x = true
    · simp only [modifyFirst, if_pos hx, if_pos hy]
    · simp only [modifyFirst, if_neg hx]
      rw [ih]

variable {r r' : SttUtterance}

theorem record_put {t : Turns} {key : Nat} (h : t.record key = some r) (hkey : r'.key = key) :
    (t.put r').record key = some r' := by
  subst hkey
  unfold put
  by_cases hlive : (t.live.any fun x => x.key == r'.key) = true
  · rw [if_pos hlive]
    exact (record_of_live (t := { t with live := some r' }) (beq_self_eq_true _)).mpr rfl
  · rw [record_of_not_live hlive] at h
    rw [if_neg hlive, record_of_not_live (by exact hlive)]
    exact find?_modifyFirst h (beq_self_eq_true r'.key)

theorem put_self {t : Turns} {key : Nat} (h : t.record key = some r) : t.put r = t := by
  have hkey := record_key h
  subst hkey
  unfold put
  by_cases hlive : (t.live.any fun x => x.key == r.key) = true
  · rw [if_pos hlive, ← (record_of_live hlive).mp h]
  · rw [record_of_not_live hlive] at h
    rw [if_neg hlive, modifyFirst_self h]

theorem put_put (t : Turns) (hkey : r'.key = r.key) : (t.put r).put r' = t.put r' := by
  unfold put
  rw [hkey]
  by_cases hlive : (t.live.any fun x => x.key == r.key) = true
  · have hany : ((some r).any fun x => x.key == r.key) = true := beq_self_eq_true _
    rw [if_pos hlive, if_pos hlive, if_pos hany]
  · rw [if_neg hlive, if_neg hlive, if_neg hlive]
    rw [modifyFirst_twice t.closing (y := r) (beq_self_eq_true r.key)]

theorem eraseP_modifyFirst {α : Type} {p : α → Bool} {y : α} (xs : List α) (hy : p y = true) :
    (modifyFirst p (fun _ => y) xs).eraseP p = xs.eraseP p := by
  induction xs with
  | nil => rfl
  | cons x xs ih =>
    unfold modifyFirst
    by_cases hx : p x = true
    · rw [if_pos hx, List.eraseP_cons_of_pos hy, List.eraseP_cons_of_pos hx]
    · rw [if_neg hx, List.eraseP_cons_of_neg hx, List.eraseP_cons_of_neg hx, ih]

theorem tell_nil (t : Turns) : t.tell [] = t := by
  unfold tell
  rw [List.append_nil]

theorem put_tell (t : Turns) (r : SttUtterance) (keys : List Nat) :
    (t.tell keys).put r = (t.put r).tell keys := by
  unfold put tell
  split <;> rfl

def LiveHeard (t : Turns) : Prop := ∃ r, t.live = some r ∧ r.partialsEmitted = true

theorem LiveHeard.put {t : Turns} (h : t.LiveHeard) (hrecord : t.record r.key = some r)
    (hkey : r'.key = r.key) (hheard : r.partialsEmitted = true → r'.partialsEmitted = true) :
    (t.put r').LiveHeard := by
  obtain ⟨x, hlive, hx⟩ := h
  unfold Turns.put
  rw [hkey]
  by_cases hany : (t.live.any fun y => y.key == r.key) = true
  · rw [if_pos hany]
    refine ⟨r', rfl, hheard ?_⟩
    have hr := (record_of_live hany).mp hrecord
    rw [hlive, Option.some.injEq] at hr
    rwa [← hr]
  · rw [if_neg hany]
    exact ⟨x, hlive, hx⟩

end Turns

end NodeWebrtc.VoiceAgent
