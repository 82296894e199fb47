import NodeWebrtc.Vendors.DeepgramStt
import NodeWebrtc.Vendors.ElevenLabsStt

/-! # Late answers of Deepgram and ElevenLabs

Answers carry no request id, so they are matched by position against a list of finalizes from
which the wait bound takes entries away.
-/

namespace NodeWebrtc.Vendors.Deferred

def inBytes : DeepgramStt.Seconds Nat where
  zero := 0
  ofBytes bytes := bytes
  beyond at' boundary := decide (boundary + 1600 < at')
  within at' boundary := decide (at' ≤ boundary + 1600)

/-- For both providers, what a run shows is in place exactly when each answer that finds finalizes
open is to the oldest of them, a committed text that finds none open is blank or answers none, and
no finalize is closed as it is made while an older one is open. -/
theorem in_place_iff_on_time {Sec : Type} (seconds : DeepgramStt.Seconds Sec) :
    (∀ {is : List (DeepgramStt.Input Sec)} {st : DeepgramStt.State Sec} {os : List Shown},
      Machine.run (DeepgramStt.step seconds) (.started seconds) is = some (st, os) →
        (InPlace os ↔
          Machine.Along (DeepgramStt.step seconds) (DeepgramStt.OnTime seconds)
            (.started seconds) is)) ∧
      ∀ {is : List ElevenLabsStt.Input} {st : ElevenLabsStt.State} {os : List Shown},
        Machine.run ElevenLabsStt.step .started is = some (st, os) →
          (InPlace os ↔ Machine.Along ElevenLabsStt.step ElevenLabsStt.OnTime .started is) :=
  ⟨fun hr => DeepgramStt.inPlace_iff hr, fun hr => ElevenLabsStt.inPlace_iff hr⟩

/-- An answer that comes while its finalize is open. -/
theorem in_place_iff_on_time_prompt :
    (InPlace [.partialText [⟨some 1, "one"⟩], .finalText [⟨some 1, "one"⟩],
        .finalizeDone (.answer 1)] ↔
      Machine.Along (DeepgramStt.step inBytes) (DeepgramStt.OnTime inBytes) (.started inBytes)
        [.pushAudio 32000 true, .requestFinalize 0 true,
          .results ⟨"one", true, true, 32000⟩ 1]) ∧
      (InPlace [.finalizeDone (.answer 1)] ↔
        Machine.Along ElevenLabsStt.step ElevenLabsStt.OnTime .started
          [.pushAudio true, .requestFinalize 0 true, .message (.committed "") (some 1)]) := by
  have hdeepgram : Machine.run (DeepgramStt.step inBytes) (.started inBytes)
      [.pushAudio 32000 true, .requestFinalize 0 true, .results ⟨"one", true, true, 32000⟩ 1] =
        some (⟨true, true, ⟨⟨[.output (.transcript (.partialText "one")),
          .output (.transcript (.finalText "one")), .output .finalizeDone], [], ""⟩, [], 1⟩,
          32000, 32000, 0, ⟨[1], 1⟩⟩, [.partialText [⟨some 1, "one"⟩],
          .finalText [⟨some 1, "one"⟩], .finalizeDone (.answer 1)]) := by decide +kernel
  have heleven : Machine.run ElevenLabsStt.step .started
      [.pushAudio true, .requestFinalize 0 true, .message (.committed "") (some 1)] =
        some (⟨true, true, ⟨⟨[.output .finalizeDone], [], ""⟩, [], 1⟩, false, none, 0, ⟨[1], 1⟩⟩,
          [.finalizeDone (.answer 1)]) := by decide +kernel
  exact ⟨(in_place_iff_on_time inBytes).1 hdeepgram, (in_place_iff_on_time inBytes).2 heleven⟩

/-! ## An answer after the wait bound -/

/-- The first finalize expires; its answer comes after the second one is sent. -/
def lateResults : List (DeepgramStt.Input Nat) :=
  [.pushAudio 32000 true, .requestFinalize 0 true, .pollOutput 5000000000,
    .pushAudio 32000 true, .requestFinalize 6000000000 true,
    .results ⟨"one", true, true, 32000⟩ 1]

/-- The first commit expires; its answer comes while the second utterance is spoken. -/
def lateCommitted : List ElevenLabsStt.Input :=
  [.pushAudio true, .requestFinalize 0 true, .pollOutput 5000000000, .pushAudio true,
    .message (.committed "one") (some 1), .requestFinalize 6000000000 true,
    .message (.committed "two") (some 2)]

theorem not_inPlace_late (rest : List Shown) :
    ¬ InPlace (.finalizeDone .expired :: .partialText [⟨some 1, "one"⟩] :: rest) := by
  intro hplace
  have hdue := (hplace [.finalizeDone .expired] _ rest rfl).1 ⟨some 1, "one"⟩ List.mem_cons_self
  exact absurd (hdue 1 rfl) (by decide)

/-- The late answer to the first finalize closes the second one, or its text is shown as that of
the second utterance. -/
theorem late_answer_closes_next :
    (∃ os, (Machine.run (DeepgramStt.step inBytes) (.started inBytes) lateResults).map Prod.snd =
        some os ∧ .finalizeDone (.answer 1) ∈ os ∧ ¬ InPlace os) ∧
      ∃ os, (Machine.run ElevenLabsStt.step .started lateCommitted).map Prod.snd = some os ∧
        .finalText [⟨some 1, "one"⟩, ⟨some 2, "two"⟩] ∈ os ∧ ¬ InPlace os :=
  ⟨⟨[.finalizeDone .expired, .partialText [⟨some 1, "one"⟩], .finalText [⟨some 1, "one"⟩],
      .finalizeDone (.answer 1)], by decide +kernel, by decide, not_inPlace_late _⟩,
    ⟨[.finalizeDone .expired, .partialText [⟨some 1, "one"⟩],
      .partialText [⟨some 1, "one"⟩, ⟨some 2, "two"⟩],
      .finalText [⟨some 1, "one"⟩, ⟨some 2, "two"⟩], .finalizeDone (.answer 2)],
      by decide +kernel, by decide, not_inPlace_late _⟩⟩

end NodeWebrtc.Vendors.Deferred
