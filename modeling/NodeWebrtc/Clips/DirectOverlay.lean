import Mathlib.Algebra.GroupWithZero.Nat
import NodeWebrtc.Lib.Machine

/-! # The direct outbound overlay

A peer without a mix pump hears clips through an overlay: the clip tick puts the scaled frame of
each play into one cell and queues a pump job, an interval queues one too once the tee is wired,
and a job writes the sum of the clip cell and of the TTS cell. The drain writes a TTS frame to the
same track itself; the tee only copies it. Jobs run one after another, each until its write
settles, and start as soon as the tick or callback that queued them is over.

The overlay of one peer; the plays are those that target it.
-/

namespace NodeWebrtc.Clips.Overlay

open Machine

def frameSamples : Nat := 1920

structure PcmFrame where
  samples : List Int
  full : samples.length = frameSamples
  range : ∀ x ∈ samples, -32768 ≤ x ∧ x ≤ 32767

@[ext] theorem PcmFrame.ext {f g : PcmFrame} (h : f.samples = g.samples) : f = g := by
  cases f
  cases g
  cases h
  rfl

def clampSample (x : Int) : Int := max (-32768) (min 32767 x)

theorem clampSample_range (x : Int) : -32768 ≤ clampSample x ∧ clampSample x ≤ 32767 := by
  rw [clampSample]
  omega

theorem clampSample_of_range {x : Int} (h : -32768 ≤ x ∧ x ≤ 32767) : clampSample x = x := by
  rw [clampSample]
  omega

def silence : PcmFrame where
  samples := List.replicate frameSamples 0
  full := List.length_replicate
  range := by
    intro x hx
    rw [List.eq_of_mem_replicate hx]
    decide

def sumStereoPcm (f g : PcmFrame) : PcmFrame where
  samples := List.zipWith (fun x y => clampSample (x + y)) f.samples g.samples
  full := by rw [List.length_zipWith, f.full, g.full, Nat.min_self]
  range := by
    intro x hx
    obtain ⟨i, hi, heq⟩ := List.mem_iff_getElem.mp hx
    rw [List.getElem_zipWith] at heq
    exact heq ▸ clampSample_range _

def mixOf (frames : List PcmFrame) : PcmFrame := frames.foldl sumStereoPcm silence

theorem zipWith_replicate_zero (xs : List Int) (h : ∀ x ∈ xs, -32768 ≤ x ∧ x ≤ 32767) :
    List.zipWith (fun x y => clampSample (x + y)) (List.replicate xs.length 0) xs = xs := by
  induction xs with
  | nil => rfl
  | cons x xs ih =>
    obtain ⟨hx, hxs⟩ := List.forall_mem_cons.mp h
    rw [List.length_cons, List.replicate_succ, List.zipWith_cons_cons, ih hxs, Int.zero_add,
      clampSample_of_range hx]

@[simp] theorem sumStereoPcm_silence (f : PcmFrame) : sumStereoPcm silence f = f := by
  ext1
  have h := zipWith_replicate_zero f.samples f.range
  rw [f.full] at h
  exact h

@[simp] theorem mixOf_singleton (f : PcmFrame) : mixOf [f] = f := sumStereoPcm_silence f

/-! ## The overlay -/

/-- What a tick takes of a play: the full frame, if any, and whether the status then ends it. -/
structure Taken where
  frame : Option PcmFrame
  ended : Bool

structure ActivePlay (V : Type) where
  playId : Nat
  volume : V

structure DirectOverlayPeer (V : Type) where
  /-- The active plays that target the peer, oldest first. -/
  plays : List (ActivePlay V)
  pendingTts : Option PcmFrame
  pendingClip : Option PcmFrame
  pumpInterval : Bool
  teeCalls : List PcmFrame
  /-- Jobs of the write chain that have not begun. -/
  writeChain : Nat
  writing : Bool

inductive OverlayInput (V : Type) where
  | play (play : ActivePlay V)
  | stop (playId : Nat)
  | wireDirectOutboundTee
  /-- The clip tick, with what it takes of each play. -/
  | tick (taken : Nat → Taken)
  | pumpTick
  | drain (frame : PcmFrame)
  | tee
  | writeSettled

inductive OverlayEvent where
  | slot
  | clip (frame : PcmFrame)
  | tts (frame : PcmFrame)
  | wrote (frame : PcmFrame)
  | overwritten (frame : PcmFrame)

namespace DirectOverlayPeer

variable {V : Type} (scaleStereoPcmVolume : PcmFrame → V → PcmFrame)

def new : DirectOverlayPeer V := ⟨[], none, none, false, [], 0, false⟩

def overwrite : Option PcmFrame → List OverlayEvent
  | some frame => [.overwritten frame]
  | none => []

def offer (o : DirectOverlayPeer V) (frame : PcmFrame) : DirectOverlayPeer V × List OverlayEvent :=
  ({ o with pendingClip := some frame, writeChain := o.writeChain + 1 },
    .clip frame :: overwrite o.pendingClip)

def offerAll (o : DirectOverlayPeer V) :
    List PcmFrame → DirectOverlayPeer V × List OverlayEvent
  | [] => (o, [])
  | frame :: frames =>
    let first := o.offer frame
    let others := first.1.offerAll frames
    (others.1, first.2 ++ others.2)

/-- The scaled frames that a tick takes of the plays that go on. -/
def clips (o : DirectOverlayPeer V) (taken : Nat → Taken) : List PcmFrame :=
  o.plays.filterMap fun play =>
    if (taken play.playId).ended then none
    else (taken play.playId).frame.map fun frame => scaleStereoPcmVolume frame play.volume

/-- `pumpDirectOverlay` up to its write, for the job at the head of the chain. -/
def pumpDirectOverlay (o : DirectOverlayPeer V) : DirectOverlayPeer V × List OverlayEvent :=
  if 0 < o.writeChain ∧ o.writing = false then
    ({ o with
      pendingClip := none
      pendingTts := none
      writeChain := o.writeChain - 1
      writing := true },
      [.wrote (sumStereoPcm (o.pendingTts.getD silence) (o.pendingClip.getD silence))])
  else (o, [])

def thenPump (r : DirectOverlayPeer V × List OverlayEvent) :
    DirectOverlayPeer V × List OverlayEvent :=
  (r.1.pumpDirectOverlay.1, r.2 ++ r.1.pumpDirectOverlay.2)

def step (o : DirectOverlayPeer V) :
    OverlayInput V → Option (DirectOverlayPeer V × List OverlayEvent)
  | .play play => some ({ o with plays := o.plays ++ [play] }, [])
  | .stop playId => some ({ o with plays := o.plays.filter fun play => play.playId ≠ playId }, [])
  | .wireDirectOutboundTee => some ({ o with pumpInterval := true }, [])
  | .tick taken =>
    let offered := o.offerAll (o.clips scaleStereoPcmVolume taken)
    some (thenPump ({ offered.1 with
      plays := o.plays.filter fun play => !(taken play.playId).ended }, .slot :: offered.2))
  | .pumpTick =>
    if o.pumpInterval then some (thenPump ({ o with writeChain := o.writeChain + 1 }, []))
    else none
  | .drain frame =>
    some (if o.pumpInterval then { o with teeCalls := o.teeCalls ++ [frame] } else o,
      [.tts frame, .wrote frame])
  | .tee =>
    match o.teeCalls with
    | [] => none
    | frame :: rest =>
      some ({ o with teeCalls := rest, pendingTts := some frame }, overwrite o.pendingTts)
  | .writeSettled => if o.writing then some (thenPump ({ o with writing := false }, [])) else none

end DirectOverlayPeer

/-! ## Slots -/

/-- What the events of the slot so far gave the peer and wrote, after slots that were whole. -/
structure Slots where
  fine : Prop
  given : List PcmFrame
  wrote : List PcmFrame

/-- At most one frame, which is the sum of what was given. -/
structure Slots.Whole (s : Slots) : Prop where
  fine : s.fine
  atMostOne : s.wrote.length ≤ 1
  sum : ∀ frame ∈ s.wrote, frame = mixOf s.given

/-- A slot that ends also wrote what it was given. -/
def Slots.see (s : Slots) : OverlayEvent → Slots
  | .slot => ⟨s.Whole ∧ (s.given ≠ [] → s.wrote ≠ []), [], []⟩
  | .clip frame => { s with given := s.given ++ [frame] }
  | .tts frame => { s with given := s.given ++ [frame] }
  | .wrote frame => { s with wrote := s.wrote ++ [frame] }
  | .overwritten _ => { s with fine := False }

def slots (es : List OverlayEvent) : Slots := es.foldl Slots.see ⟨True, [], []⟩

end NodeWebrtc.Clips.Overlay
