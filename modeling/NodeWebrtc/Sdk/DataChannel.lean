import NodeWebrtc.Lib.Machine

/-! # Outgoing data channels of the SDK

A channel is there before its native channel: the create is in flight, and its continuation sets
the handle, takes over the native state and sends what was queued. The native channel calls back,
and its answers come in any order. A handler that calls the channel is a later step: the reads
that its callback begins are answered later anyway.
-/

namespace NodeWebrtc.Sdk

open Machine

inductive ReadyState where
  | connecting
  | opened
  | closing
  | closed
deriving DecidableEq

inductive SendPayload where
  | text (s : String)
  | buffer (bytes : List UInt8)
  | arrayBuffer (bytes : List UInt8)
  | uint8Array (bytes : List UInt8)
deriving DecidableEq

inductive NativePayload where
  | text (s : String)
  | binary (bytes : List UInt8)
deriving DecidableEq

def payloadByteLength : SendPayload → Nat
  | .text s => s.utf8ByteSize
  | .buffer bytes | .arrayBuffer bytes | .uint8Array bytes => bytes.length

def toNativeSendPayload : SendPayload → NativePayload
  | .text s => .text s
  | .buffer bytes | .arrayBuffer bytes | .uint8Array bytes => .binary bytes

/-- What made the channel read the native buffered amount. -/
inductive ReadCause where
  | sent
  | opened
  | bufferedAmountLow
deriving DecidableEq

/-- A channel from `fromNativePromise`, with what its native channel still owes it. -/
structure RTCDataChannel where
  creating : Bool
  /-- The native handle, with the state it last showed. -/
  native : Option ReadyState
  readyState : ReadyState
  bufferedAmount : Nat
  pendingSends : List SendPayload
  sending : Nat
  /-- Reads of the native buffered amount in flight. -/
  reads : List ReadCause
deriving DecidableEq

inductive ChannelInput where
  /-- The create resolves with a native channel in this state. -/
  | created (state : ReadyState)
  | createFailed (message : String)
  | send (data : SendPayload)
  | close
  | nativeOpen
  | nativeMessage (data : NativePayload)
  | nativeClosed
  | nativeError (message : String)
  | nativeBufferedAmountLow
  | sendDone
  | sendFailed (message : String)
  | readDone (cause : ReadCause) (amount : Nat)
  | readFailed (cause : ReadCause) (message : String)
  | nativeCloseFailed (message : String)
deriving DecidableEq

/-- What the native channel is handed and what the handlers see. -/
inductive ChannelEvent where
  | handed (payload : NativePayload)
  | dropped (data : SendPayload) (state : ReadyState)
  | nativeClose
  | opened
  | message (data : NativePayload)
  | closed
  | bufferedAmountLow
  | error (message : String)
deriving DecidableEq

namespace RTCDataChannel

def new : RTCDataChannel := ⟨true, none, .connecting, 0, [], 0, []⟩

def send (c : RTCDataChannel) (data : SendPayload) : RTCDataChannel × List ChannelEvent :=
  if c.readyState ≠ .opened then (c, [.dropped data c.readyState])
  else
    let buffered := c.bufferedAmount + payloadByteLength data
    match c.native with
    | none => ({ c with pendingSends := c.pendingSends ++ [data], bufferedAmount := buffered }, [])
    | some _ =>
      ({ c with bufferedAmount := buffered, sending := c.sending + 1 },
        [.handed (toNativeSendPayload data)])

def sendAll (c : RTCDataChannel) : List SendPayload → RTCDataChannel × List ChannelEvent
  | [] => (c, [])
  | data :: rest =>
    let first := c.send data
    let others := first.1.sendAll rest
    (others.1, first.2 ++ others.2)

/-- The continuation of the create, `attachNative` included. -/
def attach (c : RTCDataChannel) (state : ReadyState) : RTCDataChannel × List ChannelEvent :=
  { c with creating := false, native := some state, readyState := state, pendingSends := [] }.sendAll
    c.pendingSends

def close (c : RTCDataChannel) : RTCDataChannel × List ChannelEvent :=
  ({ c with readyState := .closed }, if c.native.isSome then [.nativeClose] else [])

def onNative (c : RTCDataChannel) : ChannelInput → Option (RTCDataChannel × List ChannelEvent)
  | .nativeOpen =>
    some ({ c with native := some .opened, readyState := .opened, reads := .opened :: c.reads },
      [.opened])
  | .nativeMessage data => some (c, [.message data])
  | .nativeClosed => some ({ c with native := some .closed, readyState := .closed }, [.closed])
  | .nativeError message => some (c, [.error message])
  | .nativeBufferedAmountLow => some ({ c with reads := .bufferedAmountLow :: c.reads }, [])
  | .sendDone =>
    if 0 < c.sending then some ({ c with sending := c.sending - 1, reads := .sent :: c.reads }, [])
    else none
  | .sendFailed message =>
    if 0 < c.sending then some ({ c with sending := c.sending - 1 }, [.error message]) else none
  | .readDone cause amount =>
    if cause ∈ c.reads then
      some ({ c with reads := c.reads.erase cause, bufferedAmount := amount },
        if cause = .bufferedAmountLow then [.bufferedAmountLow] else [])
    else none
  | .readFailed cause message =>
    if cause ∈ c.reads then
      some ({ c with reads := c.reads.erase cause },
        if cause = .sent then [.error message] else [])
    else none
  | .nativeCloseFailed message => some (c, [.error message])
  | _ => none

def step (c : RTCDataChannel) : ChannelInput → Option (RTCDataChannel × List ChannelEvent)
  | .created state => if c.creating then some (c.attach state) else none
  | .createFailed message =>
    if c.creating then some ({ c with creating := false }, [.error message]) else none
  | .send data => some (c.send data)
  | .close => some c.close
  | i => if c.native.isSome then c.onNative i else none

/-! ## Payloads -/

def handedPayload : ChannelEvent → Option NativePayload
  | .handed payload => some payload
  | _ => none

def handed (es : List ChannelEvent) : List NativePayload := es.filterMap handedPayload

def sentPayload : ChannelInput → Option SendPayload
  | .send data => some data
  | _ => none

def sent (is : List ChannelInput) : List SendPayload := is.filterMap sentPayload

@[simp] theorem handed_append (es es' : List ChannelEvent) :
    handed (es ++ es') = handed es ++ handed es' := List.filterMap_append

@[simp] theorem sent_append (is js : List ChannelInput) : sent (is ++ js) = sent is ++ sent js :=
  List.filterMap_append

def lastReported (is : List ChannelInput) : Nat :=
  is.foldl (fun amount i => match i with | .readDone _ reported => reported | _ => amount) 0

theorem lastReported_append (is : List ChannelInput) (i : ChannelInput) :
    lastReported (is ++ [i]) = match i with | .readDone _ reported => reported | _ => lastReported is := by
  rw [lastReported, List.foldl_append]
  rfl

/-! ## The queue -/

/-- An open channel has its native channel, so nothing is ever queued. -/
structure NeverQueues (c : RTCDataChannel) : Prop where
  handle : c.readyState = .opened → c.native.isSome = true
  empty : c.pendingSends = []

theorem neverQueues_new : NeverQueues new := ⟨nofun, rfl⟩

theorem attach_eq {c : RTCDataChannel} (h : c.NeverQueues) (state : ReadyState) :
    c.attach state = ({ c with creating := false, native := some state, readyState := state }, []) := by
  obtain ⟨creating, native, readyState, bufferedAmount, pendingSends, sending, reads⟩ := c
  obtain rfl : pendingSends = [] := h.empty
  rfl

/-- An answer or a message: the state stays and nothing is handed over. -/
structure Quiet (c c' : RTCDataChannel) (es : List ChannelEvent) : Prop where
  readyState : c'.readyState = c.readyState
  native : c'.native = c.native
  pendingSends : c'.pendingSends = c.pendingSends
  handed : handed es = []
  opened : .opened ∉ es

/-- What a step does to the state of the channel. -/
inductive Move (c c' : RTCDataChannel) (es : List ChannelEvent) : ChannelInput → Prop
  | created (state : ReadyState) (creating : c.creating = true)
      (result : c' = { c with creating := false, native := some state, readyState := state })
      (silent : es = []) : Move c c' es (.created state)
  | dropped (data : SendPayload) (shut : c.readyState ≠ .opened) (result : c' = c)
      (lost : es = [.dropped data c.readyState]) : Move c c' es (.send data)
  | handed (data : SendPayload) (shown : c.readyState = .opened) (handle : c.native.isSome = true)
      (result : c' = { c with
        bufferedAmount := c.bufferedAmount + payloadByteLength data
        sending := c.sending + 1 })
      (given : es = [.handed (toNativeSendPayload data)]) : Move c c' es (.send data)
  | close (result : c' = { c with readyState := .closed })
      (closes : es = if c.native.isSome then [.nativeClose] else []) : Move c c' es .close
  | opened (handle : c.native.isSome = true)
      (result : c' = { c with
        native := some .opened, readyState := .opened, reads := .opened :: c.reads })
      (event : es = [.opened]) : Move c c' es .nativeOpen
  | closed (result : c' = { c with native := some .closed, readyState := .closed })
      (event : es = [.closed]) : Move c c' es .nativeClosed
  | quiet {i : ChannelInput} (quiet : Quiet c c' es) (sends : ∀ data, i ≠ .send data)
      (created : ∀ state, i ≠ .created state) (opens : i ≠ .nativeOpen) : Move c c' es i

theorem move_of_step {c c' : RTCDataChannel} {i : ChannelInput} {es : List ChannelEvent}
    (h : c.NeverQueues) (hs : c.step i = some (c', es)) : Move c c' es i := by
  have hquiet : ∀ {d : RTCDataChannel} {fs : List ChannelEvent}, some (d, fs) = some (c', es) →
      Quiet c d fs → Quiet c c' es := by
    intro d fs heq hq
    cases heq
    exact hq
  cases i with simp only [step, onNative] at hs
  | created state =>
    split_ifs at hs with hc
    rw [attach_eq h] at hs
    cases hs
    exact .created state hc rfl rfl
  | createFailed | nativeMessage | nativeError | nativeBufferedAmountLow | nativeCloseFailed =>
    split_ifs at hs
    exact .quiet (hquiet hs ⟨rfl, rfl, rfl, rfl, by simp⟩) nofun nofun nofun
  | send data =>
    simp only [send] at hs
    split at hs
    · next hshut =>
      cases hs
      exact .dropped data hshut rfl rfl
    · next hopen =>
      have hshown : c.readyState = .opened := not_not.mp hopen
      cases hn : c.native with
      | none => exact absurd (h.handle hshown) (by simp [hn])
      | some state =>
        rw [hn] at hs
        cases hs
        exact .handed data hshown (by rw [hn]; rfl) (by rw [hn]) rfl
  | close =>
    cases hs
    exact .close rfl rfl
  | nativeOpen =>
    split_ifs at hs with hn
    cases hs
    exact .opened hn rfl rfl
  | nativeClosed =>
    split at hs <;> cases hs
    exact .closed rfl rfl
  | sendDone | sendFailed message =>
    split at hs
    · split_ifs at hs
      exact .quiet (hquiet hs ⟨rfl, rfl, rfl, rfl, by simp⟩) nofun nofun nofun
    · cases hs
  | readDone cause amount | readFailed cause message =>
    split at hs
    · split at hs
      · refine .quiet (hquiet hs ⟨rfl, rfl, rfl, ?_, ?_⟩) nofun nofun nofun
        · split <;> rfl
        · split <;> simp
      · cases hs
    · cases hs

theorem NeverQueues.step {c c' : RTCDataChannel} {i : ChannelInput} {es : List ChannelEvent}
    (h : c.NeverQueues) (hs : c.step i = some (c', es)) : c'.NeverQueues := by
  cases move_of_step h hs with
  | created state creating result | opened handle result => exact result ▸ ⟨fun _ => rfl, h.empty⟩
  | dropped data shut result => exact result ▸ h
  | handed data shown handle result => exact result ▸ ⟨fun _ => handle, h.empty⟩
  | close result | closed result => exact result ▸ ⟨nofun, h.empty⟩
  | quiet hq =>
    refine ⟨fun hopen => ?_, hq.pendingSends ▸ h.empty⟩
    rw [hq.native]
    exact h.handle (hq.readyState ▸ hopen)

end RTCDataChannel

end NodeWebrtc.Sdk
