import Mathlib.Algebra.GroupWithZero.Nat
import NodeWebrtc.Lib.Text
import NodeWebrtc.Speech.SttActor

/-! # Fish Audio commits and their answers

The service answers each commit once and matches answers by position. The reader and the sender
task report messages and losses under the generation they were started in, and may outlive their
connection. Each section under the lock of the state is a step; a call that reconnects has several.
The provider is one that was started and not stopped.
-/

namespace NodeWebrtc.Vendors

open Machine
open SttActor (SttTranscript SttOutput PollItem)

namespace FishAudioStt

def sttProactiveReconnectMs : Nat := 3300000

inductive ServerMessage where
  | sessionStarted
  | committed (text : String)
  | error (message : String)
  | other
deriving DecidableEq, Repr

inductive Op where
  | pushAudio
  | requestFinalize
deriving DecidableEq, Repr

/-- Where a call is: it reconnects, waits for the socket, or is about to send. -/
inductive Phase where
  | idle
  | closing (op : Op)
  | opening (op : Op)
  | sending (op : Op)
deriving DecidableEq, Repr

inductive Input where
  | call (op : Op) (now : Nat)
  | close (keyFound : Bool)
  | opened (result : Except String Nat)
  /-- The call sends; `sent` is false when the channel is closed. -/
  | send (sent : Bool)
  | message (generation : Nat) (message : ServerMessage)
  | lost (generation : Nat) (message : String)
  | pollTranscript
  | pollOutput
  | discardQueuedTranscripts

inductive Event where
  | connected
  | audio
  | returned (op : Op) (result : Except String Unit)
  | lost (generation : Nat)
  /-- The items a poll took; the last is its result. -/
  | polled (items : List PollItem)

end FishAudioStt

structure FishAudioStt where
  generation : Nat
  alive : Bool
  outbound : Bool
  queue : List PollItem
  pending : Nat
  connectedAt : Option Nat
  uncommitted : Bool
  phase : FishAudioStt.Phase
deriving DecidableEq, Repr

namespace FishAudioStt

def started (generation now : Nat) : FishAudioStt :=
  ⟨generation, true, true, [], 0, some now, false, .idle⟩

def isDone : PollItem → Bool
  | .output .finalizeDone => true
  | _ => false

def onMessage (s : FishAudioStt) (generation : Nat) (message : ServerMessage) : FishAudioStt :=
  if s.generation ≠ generation ∨ s.alive = false then s
  else
    match message with
    | .sessionStarted | .other => s
    | .committed text =>
      -- an answer without a pending commit is dropped
      if s.pending = 0 then s
      else
        let final := if Text.trim text = "" then []
          else [.output (.transcript (.finalText (Text.trim text)))]
        { s with
          pending := s.pending - 1, queue := s.queue ++ final ++ [.output .finalizeDone] }
    | .error message =>
      { s with
        pending := s.pending - 1,
        queue := s.queue ++ .error message ::
          if s.pending = 0 then [] else [.output .finalizeDone] }

def connectionLost (s : FishAudioStt) (generation : Nat) (message : String) : FishAudioStt :=
  if s.generation ≠ generation ∨ s.alive = false then s
  else
    let s := { s with alive := false, outbound := false, connectedAt := none }
    if s.pending = 0 ∧ s.uncommitted = false then s
    else
      { s with
        queue := s.queue ++ .error message :: List.replicate s.pending (.output .finalizeDone),
        pending := 0, uncommitted := false }

def closeConnection (s : FishAudioStt) : FishAudioStt :=
  { s with generation := s.generation + 1, alive := false, outbound := false, connectedAt := none }

def ensureConnected (s : FishAudioStt) (op : Op) (now : Nat) : FishAudioStt :=
  let aged := op = .pushAudio ∧ s.alive ∧ s.pending = 0 ∧ s.uncommitted = false ∧
    s.connectedAt.any fun since => sttProactiveReconnectMs ≤ now - since
  { s with phase := if s.alive = false ∨ aged then .closing op else .sending op }

def connect (s : FishAudioStt) (now : Nat) : FishAudioStt :=
  { s with
    alive := true, outbound := true, connectedAt := some now, pending := 0, uncommitted := false }

def streamClosed : String := "fishaudio stt stream closed"

/-- The locked end of `push_audio` and of `request_finalize`. -/
def sendOut (s : FishAudioStt) (sent : Bool) : Op → FishAudioStt × List Event
  | .pushAudio =>
    if s.outbound && sent then ({ s with uncommitted := true }, [.audio, .returned .pushAudio (.ok ())])
    else (s, [.returned .pushAudio (.ok ())])
  | .requestFinalize =>
    if s.alive && s.outbound && sent then
      ({ s with pending := s.pending + 1, uncommitted := false },
        [.returned .requestFinalize (.ok ())])
    else (s, [.returned .requestFinalize (.error streamClosed)])

/-- The items that `poll_transcript` takes: markers are dropped. -/
def transcriptItems (queue : List PollItem) : List PollItem :=
  queue.takeWhile isDone ++ (queue.dropWhile isDone).take 1

def poll (s : FishAudioStt) (items : List PollItem) : FishAudioStt × List Event :=
  ({ s with queue := s.queue.drop items.length }, [.polled items])

def step (s : FishAudioStt) : Input → Option (FishAudioStt × List Event)
  | .message generation message => some (s.onMessage generation message, [])
  | .lost generation message =>
    some (s.connectionLost generation message,
      if s.generation = generation ∧ s.alive then [.lost generation] else [])
  | .call op now => if s.phase = .idle then some (s.ensureConnected op now, []) else none
  | .close keyFound =>
    match s.phase with
    | .closing op =>
      if keyFound then some ({ s.closeConnection with phase := .opening op }, [])
      else some ({ s with phase := .idle }, [.returned op (.error "missing FISH_API_KEY")])
    | _ => none
  | .opened result =>
    match s.phase with
    | .opening op =>
      match result with
      | .ok now => some ({ s.connect now with phase := .sending op }, [.connected])
      | .error err => some ({ s with phase := .idle }, [.returned op (.error err)])
    | _ => none
  | .send sent =>
    match s.phase with
    | .sending op => some ({ (s.sendOut sent op).1 with phase := .idle }, (s.sendOut sent op).2)
    | _ => none
  | .pollTranscript => if s.phase = .idle then some (s.poll (transcriptItems s.queue)) else none
  | .pollOutput => if s.phase = .idle then some (s.poll (s.queue.take 1)) else none
  | .discardQueuedTranscripts =>
    if s.phase = .idle then
      some ({ s with queue := s.queue.filter fun
        | .output (.transcript _) => false
        | _ => true }, [])
    else none

/-! ## Every commit is closed once -/

def finalizes (os : List Event) : Nat :=
  os.countP fun | .returned .requestFinalize (.ok _) => true | _ => false

def polledMarkers (os : List Event) : Nat :=
  (os.map fun | .polled items => items.countP isDone | _ => 0).sum

def lostGenerations (os : List Event) : List Nat :=
  os.filterMap fun | .lost generation => some generation | _ => none

/-- Whether the connection has taken audio that no commit followed. -/
def audioOutstanding (os : List Event) : Bool :=
  os.foldl (fun outstanding o =>
    match o with
    | .audio => true
    | .connected | .lost _ | .returned .requestFinalize (.ok _) => false
    | _ => outstanding) false

/-- Each finalize has its marker or is pending. A loss takes effect once for a connection; it gives
one error where something is outstanding, with the markers that are owed, and else none. Reports
of another generation change nothing. -/
structure ClosedOnce (s : FishAudioStt) (os : List Event) : Prop where
  markers : s.queue.countP isDone + polledMarkers os + s.pending = finalizes os
  losses : ∀ message, s.alive = true → (s.connectionLost s.generation message).queue = s.queue ++
    if 0 < s.pending ∨ audioOutstanding os = true then
      .error message :: List.replicate s.pending (.output .finalizeDone) else []
  once : (lostGenerations os).Nodup
  again : ∀ generation ∈ lostGenerations os, ∀ message, s.connectionLost generation message = s
  older : ∀ generation ≠ s.generation, (∀ message, s.onMessage generation message = s) ∧
    ∀ message, s.connectionLost generation message = s

structure Sound (s : FishAudioStt) (os : List Event) : Prop where
  outbound : s.outbound = s.alive
  markers : s.queue.countP isDone + polledMarkers os + s.pending = finalizes os
  audio : s.uncommitted = audioOutstanding os
  dead : s.alive = false → s.pending = 0 ∧ s.uncommitted = false
  closing : ∀ op, s.phase = .closing op → s.pending = 0 ∧ s.uncommitted = false
  opening : ∀ op, s.phase = .opening op → s.alive = false ∧ s.generation ∉ lostGenerations os
  once : (lostGenerations os).Nodup
  past : ∀ generation ∈ lostGenerations os, generation ≤ s.generation
  gone : s.alive = true → s.generation ∉ lostGenerations os

variable {s s' : FishAudioStt} {os out : List Event}

theorem connectionLost_of_other {generation : Nat} (message : String)
    (h : s.generation ≠ generation ∨ s.alive = false) : s.connectionLost generation message = s := by
  rw [connectionLost, if_pos h]

theorem Sound.closedOnce (h : Sound s os) : ClosedOnce s os where
  markers := h.markers
  losses message halive := by
    rw [connectionLost, if_neg (by simp [halive])]
    rw [← h.audio]
    by_cases hidle : s.pending = 0 ∧ s.uncommitted = false
    · rw [if_pos hidle, if_neg (by simp [hidle]), List.append_nil]
    · rw [if_neg hidle, if_pos]
      rcases Decidable.not_and_iff_or_not.mp hidle with hp | hu
      · exact Or.inl (Nat.pos_of_ne_zero hp)
      · exact Or.inr (by simpa using hu)
  once := h.once
  again generation hlost message := by
    refine connectionLost_of_other message ?_
    by_cases hg : s.generation = generation
    · exact Or.inr (Bool.eq_false_iff.mpr fun ha => h.gone ha (hg ▸ hlost))
    · exact Or.inl hg
  older generation hne := by
    refine ⟨fun message => ?_, fun message => connectionLost_of_other message (Or.inl hne.symm)⟩
    rw [onMessage.eq_def, if_pos (Or.inl hne.symm)]

theorem finalizes_append (os out : List Event) :
    finalizes (os ++ out) = finalizes os + finalizes out :=
  List.countP_append

theorem polledMarkers_append (os out : List Event) :
    polledMarkers (os ++ out) = polledMarkers os + polledMarkers out := by
  rw [polledMarkers, List.map_append, List.sum_append]
  rfl

theorem lostGenerations_append (os out : List Event) :
    lostGenerations (os ++ out) = lostGenerations os ++ lostGenerations out :=
  List.filterMap_append

/-- A step that leaves the connection alone. -/
theorem Sound.still {t : FishAudioStt} (h : Sound s os)
    (hconnection : t.generation = s.generation ∧ t.alive = s.alive ∧ t.outbound = s.outbound)
    (hmarkers : t.queue.countP isDone + polledMarkers out + t.pending =
      s.queue.countP isDone + s.pending + finalizes out)
    (hlost : lostGenerations out = []) (haudio : t.uncommitted = audioOutstanding (os ++ out))
    (hdead : s.alive = false → t.pending = 0 ∧ t.uncommitted = false)
    (hclosing : ∀ op, t.phase = .closing op → t.pending = 0 ∧ t.uncommitted = false)
    (hopening : ∀ op, t.phase ≠ .opening op) : Sound t (os ++ out) := by
  obtain ⟨hgeneration, halive, houtbound⟩ := hconnection
  have hsame : lostGenerations (os ++ out) = lostGenerations os := by
    rw [lostGenerations_append, hlost, List.append_nil]
  have hmarked := h.markers
  refine ⟨by rw [houtbound, halive, h.outbound], ?_, haudio, fun ha => hdead (halive ▸ ha),
    hclosing, fun op hp => absurd hp (hopening op), ?_, ?_, ?_⟩
  · rw [finalizes_append, polledMarkers_append]
    omega
  · rw [hsame]
    exact h.once
  · rw [hsame, hgeneration]
    exact h.past
  · rw [hsame, hgeneration, halive]
    exact h.gone

theorem Sound.onMessage (h : Sound s os) (generation : Nat) (message : ServerMessage) :
    Sound (s.onMessage generation message) os := by
  have hmarked := h.markers
  rw [FishAudioStt.onMessage.eq_def]
  split
  · exact h
  · next hcurrent =>
    have halive : s.alive = true := by
      by_contra hne
      exact hcurrent (Or.inr (Bool.eq_false_iff.mpr hne))
    have hdead : ∀ {p : Prop}, s.alive = false → p := fun hd => by
      rw [halive] at hd
      cases hd
    cases message with
    | sessionStarted | other => exact h
    | committed text =>
      dsimp only
      split
      · exact h
      · next hp =>
        refine { h with markers := ?_, dead := hdead, closing := fun op hc => ?_ }
        · split <;> simp [isDone] <;> omega
        · exact absurd (h.closing op hc).1 hp
    | error message =>
      refine { h with markers := ?_, dead := hdead, closing := fun op hc => ?_ }
      · by_cases hp : s.pending = 0
        · simp [hp, isDone] at hmarked ⊢
          omega
        · simp [hp, isDone]
          omega
      · have hidle := h.closing op hc
        exact ⟨by simp [hidle.1], hidle.2⟩

theorem Sound.lost (h : Sound s os) (generation : Nat) (message : String) :
    Sound (s.connectionLost generation message)
      (os ++ if s.generation = generation ∧ s.alive then [.lost generation] else []) := by
  have hmarked := h.markers
  by_cases hcurrent : s.generation = generation ∧ s.alive = true
  · obtain ⟨rfl, halive⟩ := hcurrent
    have hfresh := h.gone halive
    have hlost : lostGenerations (os ++ [.lost s.generation]) =
        lostGenerations os ++ [s.generation] := by
      simp [lostGenerations]
    have hcounts : finalizes (os ++ [.lost s.generation]) = finalizes os ∧
        polledMarkers (os ++ [.lost s.generation]) = polledMarkers os ∧
        audioOutstanding (os ++ [.lost s.generation]) = false := by
      simp [finalizes, polledMarkers, audioOutstanding]
    have hphase : ∀ op, s.phase ≠ .opening op := fun op hp => by
      rw [(h.opening op hp).1] at halive
      cases halive
    rw [if_pos ⟨rfl, halive⟩, connectionLost, if_neg (by simp [halive])]
    dsimp only
    have hrest : ∀ t : FishAudioStt, t.generation = s.generation → t.alive = false →
        t.outbound = false → t.pending = 0 → t.uncommitted = false → t.phase = s.phase →
        t.queue.countP isDone = s.queue.countP isDone + s.pending →
        Sound t (os ++ [.lost s.generation]) := by
      intro t hg ha hb hp hu hph hq
      refine ⟨hb.trans ha.symm, ?_, hu.trans hcounts.2.2.symm, fun _ => ⟨hp, hu⟩, fun _ _ => ⟨hp, hu⟩,
        fun op hop => absurd (hph ▸ hop) (hphase op), ?_, fun g hmem => ?_, fun hd => ?_⟩
      · rw [hcounts.1, hcounts.2.1, hp, hq]
        omega
      · rw [hlost]
        refine List.nodup_append.mpr ⟨h.once, List.pairwise_singleton _ _, fun g hg b hb => ?_⟩
        rintro rfl
        exact hfresh (List.mem_singleton.mp hb ▸ hg)
      · rw [hlost, List.mem_append, List.mem_singleton] at hmem
        rw [hg]
        exact hmem.elim (h.past g) Nat.le_of_eq
      · rw [ha] at hd
        cases hd
    split
    · next hidle => exact hrest _ rfl rfl rfl hidle.1 hidle.2 rfl (by simp [hidle.1])
    · exact hrest _ rfl rfl rfl rfl rfl rfl (by simp [isDone, List.countP_replicate])
  · rw [if_neg hcurrent, List.append_nil, connectionLost_of_other message]
    · exact h
    · by_cases hg : s.generation = generation
      · exact Or.inr (Bool.eq_false_iff.mpr fun ha => hcurrent ⟨hg, ha⟩)
      · exact Or.inl hg

theorem Sound.sendOut (h : Sound s os) (sent : Bool) (op : Op) :
    Sound { (s.sendOut sent op).1 with phase := .idle } (os ++ (s.sendOut sent op).2) := by
  have haudio := h.audio
  rw [audioOutstanding] at haudio
  cases op with rw [FishAudioStt.sendOut]
  | pushAudio =>
    split
    · next hs =>
      have halive : s.alive = true := by
        rw [← h.outbound]
        exact (Bool.and_eq_true_iff.mp hs).1
      refine h.still ⟨rfl, rfl, rfl⟩ ?_ rfl ?_ (fun ha => ?_) nofun nofun
      · simp [polledMarkers, finalizes]
      · simp [audioOutstanding]
      · rw [halive] at ha
        cases ha
    · refine h.still ⟨rfl, rfl, rfl⟩ ?_ rfl ?_ h.dead nofun nofun
      · simp [polledMarkers, finalizes]
      · simpa [audioOutstanding] using haudio
  | requestFinalize =>
    split
    · next hs =>
      have halive : s.alive = true := (Bool.and_eq_true_iff.mp (Bool.and_eq_true_iff.mp hs).1).1
      refine h.still ⟨rfl, rfl, rfl⟩ ?_ rfl ?_ (fun ha => ?_) nofun nofun
      · simp [polledMarkers, finalizes]
        omega
      · simp [audioOutstanding]
      · rw [halive] at ha
        cases ha
    · refine h.still ⟨rfl, rfl, rfl⟩ ?_ rfl ?_ h.dead nofun nofun
      · simp [polledMarkers, finalizes]
      · simpa [audioOutstanding] using haudio

/-- What a poll takes of the queue is counted as polled. -/
theorem Sound.poll (h : Sound s os) (hphase : s.phase = .idle) {taken : List PollItem}
    (htaken : taken <+: s.queue) :
    Sound (s.poll taken).1 (os ++ (s.poll taken).2) := by
  rw [FishAudioStt.poll]
  obtain ⟨rest, hqueue⟩ := htaken
  refine h.still ⟨rfl, rfl, rfl⟩ ?_ rfl ?_ h.dead h.closing fun op hp => ?_
  · rw [← hqueue, List.drop_left]
    simp [polledMarkers, finalizes]
    omega
  · rw [h.audio]
    simp [audioOutstanding]
  · rw [hphase] at hp
    cases hp

theorem transcriptItems_prefix (queue : List PollItem) : transcriptItems queue <+: queue := by
  have hsplit := List.takeWhile_append_dropWhile (p := isDone) (l := queue)
  refine ⟨(queue.dropWhile isDone).drop 1, ?_⟩
  rw [transcriptItems, List.append_assoc, List.take_append_drop, hsplit]

theorem Sound.ensureConnected (h : Sound s os) (op : Op) (now : Nat) :
    Sound (s.ensureConnected op now) os := by
  have hstill : Sound (s.ensureConnected op now) (os ++ []) := h.still ⟨rfl, rfl, rfl⟩
    (by simp [FishAudioStt.ensureConnected, polledMarkers, finalizes]) rfl
    (by rw [List.append_nil]; exact h.audio) h.dead ?_ ?_
  · rwa [List.append_nil] at hstill
  · intro op' hp
    rw [FishAudioStt.ensureConnected] at hp
    split_ifs at hp with haged
    rcases haged with hdead | ⟨-, -, hpending, huncommitted, -⟩
    · exact h.dead hdead
    · exact ⟨hpending, huncommitted⟩
  · intro op' hp
    rw [FishAudioStt.ensureConnected] at hp
    split at hp <;> cases hp

theorem Sound.close {op : Op} (h : Sound s os) (hp : s.phase = .closing op) :
    Sound { s.closeConnection with phase := .opening op } os := by
  have hidle := h.closing op hp
  have hfresh : s.generation + 1 ∉ lostGenerations os := fun hmem =>
    absurd (h.past _ hmem) (Nat.not_succ_le_self _)
  exact ⟨rfl, h.markers, h.audio, fun _ => hidle, nofun, fun _ _ => ⟨rfl, hfresh⟩, h.once,
    fun g hg => Nat.le_succ_of_le (h.past g hg), nofun⟩

theorem Sound.connect {op : Op} (h : Sound s os) (hp : s.phase = .opening op) (now : Nat) :
    Sound { s.connect now with phase := .sending op } (os ++ [.connected]) := by
  obtain ⟨hdead, hfresh⟩ := h.opening op hp
  have hmarked := h.markers
  rw [(h.dead hdead).1] at hmarked
  have hlost : lostGenerations (os ++ [.connected]) = lostGenerations os := by
    rw [lostGenerations_append]
    exact List.append_nil _
  refine ⟨rfl, ?_, ?_, nofun, nofun, nofun, hlost ▸ h.once, hlost ▸ h.past, fun _ => hlost ▸ hfresh⟩
  · rw [finalizes_append, polledMarkers_append]
    exact hmarked
  · simp [FishAudioStt.connect, audioOutstanding]

/-- A call that ends before it sends. -/
theorem Sound.fail (h : Sound s os) (op : Op) (err : String) :
    Sound { s with phase := .idle } (os ++ [.returned op (.error err)]) := by
  refine h.still ⟨rfl, rfl, rfl⟩ ?_ rfl ?_ h.dead nofun nofun
  · cases op <;> simp [polledMarkers, finalizes]
  · rw [h.audio]
    cases op <;> simp [audioOutstanding]

theorem sound_step (os : List Event) (s : FishAudioStt) (i : Input) (s' : FishAudioStt)
    (out : List Event) (h : Sound s os) (hstep : step s i = some (s', out)) :
    Sound s' (os ++ out) := by
  cases i with rw [step] at hstep
  | message generation message =>
    cases hstep
    rw [List.append_nil]
    exact h.onMessage generation message
  | lost generation message =>
    cases hstep
    exact h.lost generation message
  | call op now =>
    split at hstep <;> cases hstep
    rw [List.append_nil]
    exact h.ensureConnected op now
  | close keyFound =>
    split at hstep
    · next op hp =>
      split at hstep <;> cases hstep
      · rw [List.append_nil]
        exact h.close hp
      · exact h.fail op _
    · cases hstep
  | opened result =>
    split at hstep
    · next op hp =>
      cases result with
      | ok now =>
        cases hstep
        exact h.connect hp now
      | error err =>
        cases hstep
        exact h.fail op err
    · cases hstep
  | send sent =>
    split at hstep <;> cases hstep
    next op hp =>
      exact h.sendOut sent op
  | pollTranscript =>
    split_ifs at hstep with hp
    cases hstep
    exact h.poll hp ( transcriptItems_prefix s.queue)
  | pollOutput =>
    split_ifs at hstep with hp
    cases hstep
    exact h.poll hp (List.take_prefix 1 s.queue)
  | discardQueuedTranscripts =>
    split_ifs at hstep with hp
    cases hstep
    refine h.still ⟨rfl, rfl, rfl⟩ ?_ rfl ?_ h.dead h.closing fun op hop => ?_
    · have hkept : ∀ items : List PollItem, (items.filter fun
          | .output (.transcript _) => false
          | _ => true).countP isDone = items.countP isDone := by
        intro items
        rw [List.countP_filter]
        refine List.countP_congr fun item _ => ?_
        rcases item with (_ | _) | _ <;> simp [isDone]
      simp [hkept, polledMarkers, finalizes]
    · rw [List.append_nil]
      exact h.audio
    · rw [hp] at hop
      cases hop

/-- Every commit is closed once, in every state that a started provider reaches. -/
theorem closedOnce_of_run (generation now : Nat) (is : List Input) (s : FishAudioStt)
    (os : List Event) (h : run step (started generation now) is = some (s, os)) :
    ClosedOnce s os := by
  have hstart : Sound (started generation now) [] :=
    ⟨rfl, rfl, rfl, nofun, nofun, nofun, List.nodup_nil, nofun, fun _ => nofun⟩
  have hsound := run_history (C := fun _ _ => True) (I := fun _ os s => Sound s os)
    (fun _ os s i s' out hs _ hi => sound_step os s i s' out hs hi) hstart
    (along_of_forall_mem (P := fun _ => True) (fun _ _ => trivial) _) h
  exact hsound.closedOnce

/-- The socket closes behind a commit, and the sender task reports it again after a reconnect. -/
theorem closedOnce_of_run_reconnect :
    ClosedOnce ⟨2, true, true, [], 0, some 9, true, .idle⟩
      [.audio, .returned .pushAudio (.ok ()), .returned .requestFinalize (.ok ()), .lost 1,
        .polled [.error "closed"], .polled [.output .finalizeDone], .connected, .audio,
        .returned .pushAudio (.ok ())] :=
  closedOnce_of_run 1 0 [.call .pushAudio 0, .send true, .call .requestFinalize 1, .send true,
    .lost 1 "closed", .pollOutput, .pollOutput, .call .pushAudio 8, .close true, .opened (.ok 9),
    .lost 1 "send failed", .send true] _ _ rfl

end FishAudioStt

end NodeWebrtc.Vendors
