import NodeWebrtc.Lib.Machine

/-! # The inbound audio pump

A reader task queues what it reads from the remote track and a processor task feeds the agent. The
shared counter is raised before the send and lowered after the processing, so both are steps of
their own; a sleep of the reader is a point where other steps may come.
-/

namespace NodeWebrtc.Speech.InboundPump

open Machine

structure Frame where
  pcm : List UInt8
  durationMs : Nat
  concealed : Bool
deriving DecidableEq, Repr

/-- The result of one read from the remote track. -/
inductive InboundRead where
  | pcm (frame : Frame)
  | streamEnd
  | error (err : String)
deriving DecidableEq, Repr

def inboundSilenceTailFrames : Nat := 75
def inboundFrameMs : Nat := 20
def silenceFrameBytes : Nat := 3840

def silent : Frame := ⟨List.replicate silenceFrameBytes 0, inboundFrameMs, false⟩

/-- Where the reader is. In the silence tail `left` frames are still to be enqueued. -/
inductive Reader where
  | top
  | reading
  | tail (left : Nat)
  /-- `enqueue` is called, in the tail with `left` frames after this one. -/
  | counting (frame : Frame) (left : Option Nat)
  | sending (frame : Frame) (left : Option Nat)
  | ended
deriving DecidableEq, Repr

inductive Processor where
  | receiving
  | processing (frame : Frame)
  | exited
deriving DecidableEq, Repr

inductive Input where
  | stop
  | read (result : InboundRead)
  | reader
  | processor
  /-- The processing of a frame ends; an error is only logged. -/
  | processed (result : Except String Unit)

inductive Event where
  | onRead (pcm : List UInt8) (durationMs : Nat)
  | enqueued (frame : Frame)
  | process (frame : Frame)
  | ended (frame : Frame)
deriving DecidableEq, Repr

/-- `backlog` is the counter before it is cut to its width: below zero it would wrap. -/
structure Pump where
  running : Bool
  reader : Reader
  awaitingNextBurst : Bool
  queue : List Frame
  processor : Processor
  backlog : Int
  maxBacklog : Int
deriving DecidableEq, Repr

def spawnInboundPump : Pump := ⟨true, .top, false, [], .receiving, 0, 0⟩

def Pump.onInbound (p : Pump) : InboundRead → Pump × List Event
  | .pcm frame =>
    ({ p with awaitingNextBurst := false, reader := .counting frame none },
      [.onRead frame.pcm frame.durationMs])
  | .streamEnd =>
    if p.awaitingNextBurst then ({ p with reader := .top }, [])
    else ({ p with awaitingNextBurst := true, reader := .tail inboundSilenceTailFrames }, [])
  | .error _ => ({ p with reader := .top }, [])

def Pump.readerStep (p : Pump) : Option (Pump × List Event) :=
  match p.reader with
  | .top => some ({ p with reader := if p.running then .reading else .ended }, [])
  | .reading => none
  | .tail 0 => some ({ p with reader := .top }, [])
  | .tail (left + 1) =>
    some ({ p with reader := if p.running then .counting silent (some left) else .top }, [])
  | .counting frame left =>
    some ({ p with
      backlog := p.backlog + 1, maxBacklog := max p.maxBacklog (p.backlog + 1),
      reader := .sending frame left }, [.enqueued frame])
  | .sending frame left =>
    -- the receiver is gone once the processor has exited
    if p.processor = .exited then some ({ p with reader := .ended }, [])
    else some ({ p with queue := p.queue ++ [frame], reader := left.elim .top .tail }, [])
  | .ended => none

/-- The processor receives; the queue is closed once the reader has ended. -/
def Pump.processorStep (p : Pump) : Option (Pump × List Event) :=
  match p.processor, p.queue with
  | .receiving, frame :: queue =>
    some ({ p with queue := queue, processor := .processing frame }, [.process frame])
  | .receiving, [] => if p.reader = .ended then some ({ p with processor := .exited }, []) else none
  | _, _ => none

def step (p : Pump) : Input → Option (Pump × List Event)
  | .stop => some ({ p with running := false }, [])
  | .read result => if p.reader = .reading then some (p.onInbound result) else none
  | .reader => p.readerStep
  | .processor => p.processorStep
  | .processed _ =>
    match p.processor with
    | .processing frame =>
      some ({ p with processor := .receiving, backlog := p.backlog - 1 }, [.ended frame])
    | _ => none

/-! ## What has to be processed -/

def reads (is : List Input) : List InboundRead :=
  is.filterMap fun | .read result => some result | _ => none

def seenByOnRead (os : List Event) : List (List UInt8 × Nat) :=
  os.filterMap fun | .onRead pcm durationMs => some (pcm, durationMs) | _ => none

def enqueuedFrames (os : List Event) : List Frame :=
  os.filterMap fun | .enqueued frame => some frame | _ => none

def processedFrames (os : List Event) : List Frame :=
  os.filterMap fun | .process frame => some frame | _ => none

def endedFrames (os : List Event) : List Frame :=
  os.filterMap fun | .ended frame => some frame | _ => none

def pcms (rs : List InboundRead) : List Frame :=
  rs.filterMap fun | .pcm frame => some frame | _ => none

/-- Whether a stream end came since the last frame. -/
def silenced : Bool → List InboundRead → Bool
  | seen, [] => seen
  | _, .pcm _ :: rs => silenced false rs
  | _, .streamEnd :: rs => silenced true rs
  | seen, .error _ :: rs => silenced seen rs

/-- The frames read, with a whole tail at the first stream end after a frame or the start. -/
def flow : Bool → List InboundRead → List Frame
  | _, [] => []
  | _, .pcm frame :: rs => frame :: flow false rs
  | seen, .streamEnd :: rs =>
    (if seen then [] else List.replicate inboundSilenceTailFrames silent) ++ flow true rs
  | seen, .error _ :: rs => flow seen rs

/-- What the reader is about to enqueue for what it has read. -/
def Reader.ahead : Reader → List Frame
  | .tail left => List.replicate left silent
  | .counting frame left | .sending frame left => frame :: List.replicate (left.getD 0) silent
  | _ => []

/-- The frame that is counted and not sent yet. -/
def Reader.counted : Reader → List Frame
  | .sending frame _ => [frame]
  | _ => []

/-- The last read is a stream end that asks for a tail. -/
def AtTail (rs : List InboundRead) : Prop :=
  ∃ before, rs = before ++ [.streamEnd] ∧ silenced false before = false

/-- Frames are processed in order and each once: all that was read, with the tails. Only once
`running` is false is one tail shorter, the last. -/
structure Conserved (is : List Input) (p : Pump) (os : List Event) : Prop where
  frames : ∃ cut ≤ inboundSilenceTailFrames,
    processedFrames os ++ p.queue ++ p.reader.ahead ++ List.replicate cut silent =
      flow false (reads is) ∧ (cut ≠ 0 → p.running = false ∧ AtTail (reads is))
  onReads : seenByOnRead os = (pcms (reads is)).map fun frame => (frame.pcm, frame.durationMs)
  counted : enqueuedFrames os = processedFrames os ++ p.queue ++ p.reader.counted
  backlog : p.backlog = (enqueuedFrames os).length - (endedFrames os).length
  unwrapped : 0 ≤ p.backlog
  exits : p.processor = .exited → p.reader = .ended ∧ p.queue = [] ∧ endedFrames os = processedFrames os
  drains : p.reader = .ended → p.processor ≠ .exited →
    (step p .processor).isSome ∨ ∀ result, (step p (.processed result)).isSome
  stopped : p.reader = .ended → p.running = false

/-- The frames of the tail that come after the one being enqueued. -/
def Reader.left : Reader → Option Nat
  | .tail left => some left
  | .counting _ left | .sending _ left => left
  | _ => none

def Processor.frames : Processor → List Frame
  | .processing frame => [frame]
  | _ => []

structure Sound (is : List Input) (p : Pump) (os : List Event) : Prop where
  frames : ∃ cut ≤ inboundSilenceTailFrames,
    processedFrames os ++ p.queue ++ p.reader.ahead ++ List.replicate cut silent =
      flow false (reads is) ∧
    (cut ≠ 0 → p.running = false ∧ AtTail (reads is) ∧ (p.reader = .top ∨ p.reader = .ended))
  tail : ∀ left, p.reader.left = some left → left ≤ inboundSilenceTailFrames ∧ AtTail (reads is)
  silenced : p.awaitingNextBurst = silenced false (reads is)
  onReads : seenByOnRead os = (pcms (reads is)).map fun frame => (frame.pcm, frame.durationMs)
  counted : enqueuedFrames os = processedFrames os ++ p.queue ++ p.reader.counted
  ended : processedFrames os = endedFrames os ++ p.processor.frames
  backlog : p.backlog = (p.processor.frames ++ p.queue ++ p.reader.counted).length
  exits : p.processor = .exited → p.reader = .ended ∧ p.queue = []
  stopped : p.reader = .ended → p.running = false

variable {is : List Input} {p p' : Pump} {os out : List Event}

theorem Sound.conserved (h : Sound is p os) : Conserved is p os where
  frames := by
    obtain ⟨cut, hcut, hflow, hstop⟩ := h.frames
    exact ⟨cut, hcut, hflow, fun hne => ⟨(hstop hne).1, (hstop hne).2.1⟩⟩
  onReads := h.onReads
  counted := h.counted
  backlog := by
    rw [h.backlog, h.counted, h.ended]
    simp only [List.length_append, Int.natCast_add]
    omega
  unwrapped := by
    rw [h.backlog]
    exact Int.natCast_nonneg _
  exits hp := by
    have hended := h.ended
    rw [hp] at hended
    exact ⟨(h.exits hp).1, (h.exits hp).2, by simpa [Processor.frames] using hended.symm⟩
  drains hr hp := by
    cases hproc : p.processor with
    | receiving =>
      refine Or.inl ?_
      rw [step, Pump.processorStep, hproc]
      cases hq : p.queue with
      | nil => simp [hr]
      | cons frame queue => rfl
    | processing frame => exact Or.inr fun result => by rw [step, hproc]; rfl
    | exited => exact absurd hproc hp
  stopped := h.stopped

theorem flow_append (seen : Bool) (rs : List InboundRead) (r : InboundRead) :
    flow seen (rs ++ [r]) = flow seen rs ++ flow (silenced seen rs) [r] := by
  induction rs generalizing seen with
  | nil => rfl
  | cons s rs ih => cases s <;> simp [flow, silenced, ih]

theorem silenced_append (seen : Bool) (rs : List InboundRead) (r : InboundRead) :
    silenced seen (rs ++ [r]) = silenced (silenced seen rs) [r] := by
  induction rs generalizing seen with
  | nil => rfl
  | cons s rs ih => cases s <;> simp [silenced, ih]

theorem reads_append (is : List Input) (i : Input) : reads (is ++ [i]) = reads is ++ reads [i] :=
  List.filterMap_append

section

variable (h : Sound is p os)
include h

theorem Sound.reader (hstep : p.readerStep = some (p', out)) : Sound is p' (os ++ out) := by
  obtain ⟨cut, hcut, hflow, hstop⟩ := h.frames
  have htail := h.tail
  have hcounted := h.counted
  have hbacklog := h.backlog
  have hexits : p.reader ≠ .ended → p.processor ≠ .exited := fun hne hp => hne (h.exits hp).1
  rw [Pump.readerStep] at hstep
  split at hstep
  · next hr =>
    cases hstep
    rw [hr] at hflow hcounted hbacklog hexits
    rw [List.append_nil]
    cases hrun : p.running with
    | true =>
      have hzero : cut = 0 := by
        by_contra hne
        rw [hrun] at hstop
        cases (hstop hne).1
      exact { h with
        frames := ⟨0, Nat.zero_le _, by rw [← hflow, hzero]; rfl, fun hne => absurd rfl hne⟩
        tail := nofun
        counted := hcounted
        backlog := hbacklog
        exits := fun hp => absurd hp (hexits nofun)
        stopped := nofun }
    | false =>
      exact { h with
        frames := ⟨cut, hcut, hflow, fun hne => ⟨rfl, (hstop hne).2.1, Or.inr rfl⟩⟩
        tail := nofun
        counted := hcounted
        backlog := hbacklog
        exits := fun hp => absurd hp (hexits nofun)
        stopped := fun _ => rfl }
  · cases hstep
  · next hr =>
    cases hstep
    rw [hr] at hflow hcounted hbacklog hexits hstop
    rw [List.append_nil]
    exact { h with
      frames := ⟨cut, hcut, hflow, fun hne => ⟨(hstop hne).1, (hstop hne).2.1, Or.inl rfl⟩⟩
      tail := nofun
      counted := hcounted
      backlog := hbacklog
      exits := fun hp => absurd hp (hexits nofun)
      stopped := nofun }
  · next left hr =>
    cases hstep
    rw [hr] at hflow hcounted hbacklog hexits hstop htail
    rw [List.append_nil]
    obtain ⟨hle, hat⟩ := htail _ rfl
    have hzero : cut = 0 := by
      by_contra hne
      rcases (hstop hne).2.2 with htop | hend
      · cases htop
      · cases hend
    rw [hzero] at hflow
    cases hrun : p.running with
    | true =>
      exact { h with
        frames := ⟨0, Nat.zero_le _, hflow, fun hne => absurd rfl hne⟩
        tail := fun n hn => by
          obtain rfl : left = n := Option.some.inj hn
          exact ⟨Nat.le_of_succ_le hle, hat⟩
        counted := hcounted
        backlog := hbacklog
        exits := fun hp => absurd hp (hexits nofun)
        stopped := nofun }
    | false =>
      -- what is left of the tail is not injected
      exact { h with
        frames := ⟨left + 1, hle, by simpa [Reader.ahead] using hflow,
          fun _ => ⟨rfl, hat, Or.inl rfl⟩⟩
        tail := nofun
        counted := hcounted
        backlog := hbacklog
        exits := fun hp => absurd hp (hexits nofun)
        stopped := nofun }
  · next frame left hr =>
    cases hstep
    rw [hr] at hflow hcounted hbacklog hexits hstop htail
    have hrest : processedFrames (os ++ [.enqueued frame]) = processedFrames os ∧
        endedFrames (os ++ [.enqueued frame]) = endedFrames os ∧
        seenByOnRead (os ++ [.enqueued frame]) = seenByOnRead os := by
      simp [processedFrames, endedFrames, seenByOnRead]
    obtain ⟨hprocessed, hended, honReads⟩ := hrest
    exact {
      frames := ⟨cut, hcut, by rw [hprocessed]; exact hflow, fun hne => by
        rcases (hstop hne).2.2 with htop | hend
        · cases htop
        · cases hend⟩
      tail := htail
      silenced := h.silenced
      onReads := honReads.trans h.onReads
      counted := by
        rw [hprocessed, enqueuedFrames, List.filterMap_append]
        rw [enqueuedFrames] at hcounted
        rw [hcounted]
        simp [Reader.counted]
      ended := by rw [hprocessed, hended, h.ended]
      backlog := by
        rw [hbacklog]
        simp [Reader.counted]
        omega
      exits := fun hp => absurd hp (hexits nofun)
      stopped := nofun }
  · next frame left hr =>
    rw [hr] at hflow hcounted hbacklog hexits hstop htail
    rw [if_neg (hexits nofun)] at hstep
    cases hstep
    rw [List.append_nil]
    have hzero : cut = 0 := by
      by_contra hne
      rcases (hstop hne).2.2 with htop | hend
      · cases htop
      · cases hend
    have hnext : (left.elim .top .tail : Reader).ahead = List.replicate (left.getD 0) silent ∧
        (left.elim .top .tail : Reader).counted = [] := by
      cases left <;> exact ⟨rfl, rfl⟩
    exact { h with
      frames := ⟨0, Nat.zero_le _, by
        rw [← hflow, hzero, hnext.1]
        simp [Reader.ahead], fun hne => absurd rfl hne⟩
      tail := fun n hn => htail n (by cases left <;> exact hn)
      counted := by
        rw [hcounted, hnext.2]
        simp [Reader.counted]
      backlog := by
        rw [hbacklog, hnext.2]
        simp [Reader.counted]
      exits := fun hp => absurd hp (hexits nofun)
      stopped := fun hend => by cases left <;> cases hend }
  · cases hstep

theorem Sound.read {r : InboundRead} (hr : p.reader = .reading) :
    Sound (is ++ [.read r]) (p.onInbound r).1 (os ++ (p.onInbound r).2) := by
  obtain ⟨cut, hcut, hflow, hstop⟩ := h.frames
  have hzero : cut = 0 := by
    by_contra hne
    rcases (hstop hne).2.2 with htop | hend
    · rw [hr] at htop
      cases htop
    · rw [hr] at hend
      cases hend
  have hreads : reads (is ++ [.read r]) = reads is ++ [r] := reads_append is _
  have hproc : p.processor ≠ .exited := fun hp => by
    have hend := (h.exits hp).1
    rw [hr] at hend
    cases hend
  have honReads := h.onReads
  have hcounted := h.counted
  have hbacklog := h.backlog
  have hseen := h.silenced
  rw [hr] at hflow hcounted hbacklog
  rw [hzero] at hflow
  have hnew := flow_append false (reads is) r
  rw [← hflow, ← hseen] at hnew
  have hsilenced := silenced_append false (reads is) r
  rw [← hseen] at hsilenced
  cases r with
  | pcm frame =>
    have hrest : processedFrames (os ++ [.onRead frame.pcm frame.durationMs]) = processedFrames os ∧
        endedFrames (os ++ [.onRead frame.pcm frame.durationMs]) = endedFrames os ∧
        enqueuedFrames (os ++ [.onRead frame.pcm frame.durationMs]) = enqueuedFrames os := by
      simp [processedFrames, endedFrames, enqueuedFrames]
    obtain ⟨hprocessed, hended, henqueued⟩ := hrest
    rw [Pump.onInbound]
    exact {
      frames := ⟨0, Nat.zero_le _, by
        rw [hprocessed, hreads, hnew]
        simp [Reader.ahead, flow], fun hne => absurd rfl hne⟩
      tail := nofun
      silenced := by rw [hreads, hsilenced]; rfl
      onReads := by
        rw [seenByOnRead] at honReads
        rw [hreads, seenByOnRead, List.filterMap_append, honReads]
        simp [pcms]
      counted := by rw [henqueued, hprocessed]; exact hcounted
      ended := by rw [hprocessed, hended, h.ended]
      backlog := hbacklog
      exits := fun hp => absurd hp hproc
      stopped := nofun }
  | streamEnd =>
    have hpcms : pcms (reads (is ++ [.read .streamEnd])) = pcms (reads is) := by simp [hreads, pcms]
    rw [Pump.onInbound]
    split
    · next hs =>
      rw [hs] at hnew
      rw [List.append_nil]
      exact { h with
        frames := ⟨0, Nat.zero_le _, by
          rw [hreads, hnew]
          simp [Reader.ahead, flow], fun hne => absurd rfl hne⟩
        tail := nofun
        silenced := by rw [hreads, hsilenced]; exact hs
        onReads := by rw [hpcms]; exact honReads
        counted := hcounted
        backlog := hbacklog
        exits := fun hp => absurd hp hproc
        stopped := nofun }
    · next hs =>
      rw [Bool.eq_false_iff.mpr hs] at hnew hseen
      rw [List.append_nil]
      exact { h with
        frames := ⟨0, Nat.zero_le _, by
          rw [hreads, hnew]
          simp [Reader.ahead, flow], fun hne => absurd rfl hne⟩
        tail := fun n hn => by
          obtain rfl : inboundSilenceTailFrames = n := Option.some.inj hn
          exact ⟨Nat.le_refl _, reads is, hreads, hseen.symm⟩
        silenced := by rw [hreads, hsilenced]; rfl
        onReads := by rw [hpcms]; exact honReads
        counted := hcounted
        backlog := hbacklog
        exits := fun hp => absurd hp hproc
        stopped := nofun }
  | error err =>
    rw [Pump.onInbound, List.append_nil]
    exact { h with
      frames := ⟨0, Nat.zero_le _, by
        rw [hreads, hnew]
        simp [Reader.ahead, flow], fun hne => absurd rfl hne⟩
      tail := nofun
      silenced := by rw [hreads, hsilenced]; rfl
      onReads := by
        rw [hreads]
        simpa [pcms] using honReads
      counted := hcounted
      backlog := hbacklog
      exits := fun hp => absurd hp hproc
      stopped := nofun }

theorem Sound.processor (hstep : p.processorStep = some (p', out)) : Sound is p' (os ++ out) := by
  obtain ⟨cut, hcut, hflow, hstop⟩ := h.frames
  have hcounted := h.counted
  have hended := h.ended
  have hbacklog := h.backlog
  rw [Pump.processorStep] at hstep
  split at hstep
  · next frame queue hp hq =>
    cases hstep
    rw [hp] at hended hbacklog
    rw [hq] at hflow hcounted hbacklog
    have hrest : processedFrames (os ++ [.process frame]) = processedFrames os ++ [frame] ∧
        enqueuedFrames (os ++ [.process frame]) = enqueuedFrames os ∧
        endedFrames (os ++ [.process frame]) = endedFrames os ∧
        seenByOnRead (os ++ [.process frame]) = seenByOnRead os := by
      simp [processedFrames, endedFrames, seenByOnRead, enqueuedFrames]
    obtain ⟨hprocessed, henqueued, hends, honReads⟩ := hrest
    exact { h with
      frames := ⟨cut, hcut, by rw [hprocessed]; simpa using hflow, hstop⟩
      onReads := honReads.trans h.onReads
      counted := by rw [henqueued, hprocessed]; simpa using hcounted
      ended := by rw [hprocessed, hends, hended]; simp [Processor.frames]
      backlog := by rw [hbacklog]; simp [Processor.frames]
      exits := nofun }
  · next hp hq =>
    split_ifs at hstep with hr
    cases hstep
    rw [hp] at hended hbacklog
    rw [List.append_nil]
    exact { h with
      ended := hended
      backlog := hbacklog
      exits := fun _ => ⟨hr, hq⟩ }
  · cases hstep

theorem Sound.processed {frame : Frame} (hp : p.processor = .processing frame) :
    Sound is { p with processor := .receiving, backlog := p.backlog - 1 }
      (os ++ [.ended frame]) := by
  have hended := h.ended
  have hbacklog := h.backlog
  rw [hp] at hended hbacklog
  have hrest : processedFrames (os ++ [.ended frame]) = processedFrames os ∧
      enqueuedFrames (os ++ [.ended frame]) = enqueuedFrames os ∧
      endedFrames (os ++ [.ended frame]) = endedFrames os ++ [frame] ∧
      seenByOnRead (os ++ [.ended frame]) = seenByOnRead os := by
    simp [processedFrames, endedFrames, seenByOnRead, enqueuedFrames]
  obtain ⟨hprocessed, henqueued, hends, honReads⟩ := hrest
  exact { h with
    frames := by rw [hprocessed]; exact h.frames
    onReads := honReads.trans h.onReads
    counted := by rw [henqueued, hprocessed]; exact h.counted
    ended := by rw [hprocessed, hends, hended]; simp [Processor.frames]
    backlog := by
      rw [hbacklog]
      simp [Processor.frames]
    exits := nofun }

theorem Sound.of_reads {i : Input} (hi : reads [i] = []) : Sound (is ++ [i]) p os := by
  have hreads : reads (is ++ [i]) = reads is := by rw [reads_append, hi, List.append_nil]
  exact { h with
    frames := by rw [hreads]; exact h.frames
    tail := by rw [hreads]; exact h.tail
    silenced := by rw [hreads]; exact h.silenced
    onReads := by rw [hreads]; exact h.onReads }

end

theorem sound_step (is : List Input) (os : List Event) (p : Pump) (i : Input) (p' : Pump)
    (out : List Event) (h : Sound is p os) (hstep : step p i = some (p', out)) :
    Sound (is ++ [i]) p' (os ++ out) := by
  cases i with
  | stop =>
    cases hstep
    rw [List.append_nil]
    refine Sound.of_reads ?_ rfl
    obtain ⟨cut, hcut, hflow, hstop⟩ := h.frames
    exact { h with
      frames := ⟨cut, hcut, hflow, fun hne => ⟨rfl, (hstop hne).2⟩⟩
      stopped := fun _ => rfl }
  | read r =>
    rw [step] at hstep
    split_ifs at hstep with hr
    obtain ⟨rfl, rfl⟩ := Prod.mk.inj (Option.some.inj hstep)
    exact h.read hr
  | reader => exact (h.reader hstep).of_reads rfl
  | processor => exact (h.processor hstep).of_reads rfl
  | processed result =>
    rw [step] at hstep
    split at hstep <;> cases hstep
    next frame hp =>
      exact (h.processed hp).of_reads rfl

/-- The pump conserves what it reads, whatever the order of its two tasks. -/
theorem conserved_of_run (is : List Input) (p : Pump) (os : List Event)
    (h : run step spawnInboundPump is = some (p, os)) : Conserved is p os := by
  have hstart : Sound [] spawnInboundPump [] := {
    frames := ⟨0, Nat.zero_le _, rfl, fun hne => absurd rfl hne⟩
    tail := nofun
    silenced := rfl
    onReads := rfl
    counted := rfl
    ended := rfl
    backlog := rfl
    exits := nofun
    stopped := nofun }
  have hsound := run_history (C := fun _ _ => True) (I := fun is os p => Sound is p os)
    (fun is os p i p' out hs _ hi => sound_step is os p i p' out hs hi) hstart
    (along_of_forall_mem (P := fun _ => True) (fun _ _ => trivial) _) h
  exact hsound.conserved

/-- `running` turns false in the silence tail. -/
theorem conserved_of_run_stop :
    Conserved
      [.reader, .read .streamEnd, .reader, .reader, .stop, .reader, .reader, .reader,
        .processor, .processed (.ok ()), .processor]
      ⟨false, .ended, true, [], .exited, 0, 1⟩
      [.enqueued silent, .process silent, .ended silent] :=
  conserved_of_run _ _ _ rfl

end NodeWebrtc.Speech.InboundPump
