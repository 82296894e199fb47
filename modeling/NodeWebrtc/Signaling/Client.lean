import NodeWebrtc.Lib.Machine

/-! # The signaling client

A client has at most one WebSocket in use. `connect` returns a promise that the listeners of its
socket settle; a socket that is not used any more loses its listeners. The pod reconnects with the
flag `reconnectInFlight` set until that promise has settled.
-/

namespace NodeWebrtc.Signaling

open Machine

inductive SocketState where
  | connecting
  | opened
  | closing
  | closed
deriving DecidableEq, Repr

structure WebSocket where
  readyState : SocketState
  /-- The listeners of `attachWebSocketHandlers` are there. -/
  listening : Bool
  hasOpened : Bool
deriving DecidableEq, Repr

/-- A promise returned by `connect`: its socket, and whether it resolved. -/
structure ConnectPromise where
  socket : Nat
  outcome : Option Bool
deriving DecidableEq, Repr

structure SignalingClient where
  sockets : List WebSocket
  ws : Option Nat
  promises : List ConnectPromise
deriving DecidableEq, Repr

/-- `discardSocket`. A handshake that goes on is aborted. -/
def discardSocket (s : WebSocket) : WebSocket :=
  { s with
    listening := false
    readyState := if s.readyState = .closed then .closed else .closing }

namespace SignalingClient

def new : SignalingClient := ⟨[], none, []⟩

def update (c : SignalingClient) (k : Nat) (s : WebSocket) : SignalingClient :=
  { c with sockets := c.sockets.set k s }

def current (c : SignalingClient) : Option (Nat × WebSocket) :=
  c.ws.bind fun k => (c.sockets[k]?).map fun s => (k, s)

def disconnect (c : SignalingClient) : SignalingClient :=
  match c.current with
  | some (k, s) => { c.update k (discardSocket s) with ws := none }
  | none => c

def connect (c : SignalingClient) : SignalingClient :=
  match c.current.filter fun e => e.2.readyState = .opened with
  | some (k, _) => { c with promises := c.promises ++ [⟨k, some true⟩] }
  | none =>
    let c := c.disconnect
    { sockets := c.sockets ++ [⟨.connecting, true, false⟩]
      ws := some c.sockets.length
      promises := c.promises ++ [⟨c.sockets.length, none⟩] }

/-- `onResolved` or `onRejected` of socket `k`; `connectPending` is that its promise is pending. -/
def settle (c : SignalingClient) (k : Nat) (resolved : Bool) : SignalingClient :=
  { c with promises := c.promises.map fun p =>
      if p.socket = k ∧ p.outcome = none then { p with outcome := some resolved } else p }

def onOpen (c : SignalingClient) (k : Nat) (s : WebSocket) : SignalingClient :=
  let c := c.update k { s with readyState := .opened, hasOpened := true }
  if s.listening then c.settle k true else c

def onError (c : SignalingClient) (k : Nat) (s : WebSocket) : SignalingClient :=
  let c := c.update k
    { s with readyState := if s.readyState = .connecting then .closing else s.readyState }
  if s.listening then c.settle k false else c

def onClose (c : SignalingClient) (k : Nat) (s : WebSocket) : SignalingClient :=
  c.update k { s with readyState := .closed }

end SignalingClient

structure AgentSignaling where
  client : SignalingClient
  /-- The promise that `reconnectAgentSignaling` awaits while its flag is set. -/
  reconnectInFlight : Option Nat
deriving DecidableEq, Repr

namespace AgentSignaling

inductive Input where
  | connect
  | disconnect
  | opened (k : Nat)
  | error (k : Nat)
  | close (k : Nat)
  /-- `reconnectAgentSignaling`, for a slot that is still there. -/
  | reconnect
deriving DecidableEq, Repr

def new : AgentSignaling := ⟨.new, none⟩

/-- What follows `await connect()`, once the promise has settled. -/
def settleReconnect (s : AgentSignaling) : AgentSignaling :=
  { s with reconnectInFlight :=
      s.reconnectInFlight.filter fun j => (s.client.promises[j]?).any fun p => p.outcome = none }

def reconnect (s : AgentSignaling) : AgentSignaling :=
  if s.reconnectInFlight.isSome then s
  else ⟨s.client.connect, some s.client.promises.length⟩

/-- A call, or an event of a socket. A socket opens only out of its handshake, and closes after
it. -/
def step (s : AgentSignaling) : Input → Option (AgentSignaling × List Empty)
  | .connect => some (settleReconnect { s with client := s.client.connect }, [])
  | .disconnect => some (settleReconnect { s with client := s.client.disconnect }, [])
  | .opened k => (s.client.sockets[k]?).bind fun socket =>
    if socket.readyState = .connecting then
      some (settleReconnect { s with client := s.client.onOpen k socket }, [])
    else none
  | .error k => (s.client.sockets[k]?).map fun socket =>
    (settleReconnect { s with client := s.client.onError k socket }, [])
  | .close k => (s.client.sockets[k]?).bind fun socket =>
    if socket.readyState ≠ .connecting then
      some (settleReconnect { s with client := s.client.onClose k socket }, [])
    else none
  | .reconnect => some (settleReconnect s.reconnect, [])

/-! ## Every promise settles -/

/-- Once no socket is in its handshake, each promise has settled as its socket opened or not, and
no reconnect is in flight. -/
def Settled (s : AgentSignaling) : Prop :=
  (∀ socket ∈ s.client.sockets, socket.readyState ≠ .connecting) →
    (∀ p ∈ s.client.promises, ∃ socket, s.client.sockets[p.socket]? = some socket ∧
      p.outcome = some socket.hasOpened) ∧
    s.reconnectInFlight = none

/-- A pending promise has a listening socket in its handshake; a settled one tells how the
handshake ended. -/
def Fits (socket : WebSocket) : Option Bool → Prop
  | none => socket.readyState = .connecting ∧ socket.listening = true ∧ socket.hasOpened = false
  | some resolved => socket.readyState ≠ .connecting ∧ socket.hasOpened = resolved

end AgentSignaling

namespace SignalingClient

open AgentSignaling (Fits)

/-- The invariant: every promise fits its socket. -/
structure Sound (c : SignalingClient) : Prop where
  fits : ∀ p ∈ c.promises, ∃ socket, c.sockets[p.socket]? = some socket ∧ Fits socket p.outcome
  opened : ∀ socket ∈ c.sockets, socket.readyState = .opened → socket.hasOpened = true

variable {c : SignalingClient} {k : Nat} {socket s' : WebSocket}

theorem getElem?_update (hk : c.sockets[k]? = some socket) (n : Nat) :
    (c.update k s').sockets[n]? = if n = k then some s' else c.sockets[n]? := by
  have hlt := (List.getElem?_eq_some_iff.mp hk).choose
  rw [update, List.getElem?_set]
  grind

theorem Sound.update_opened (h : c.Sound) (hopened : s'.readyState = .opened → s'.hasOpened = true) :
    ∀ socket ∈ (c.update k s').sockets, socket.readyState = .opened → socket.hasOpened = true := by
  intro socket hmem
  rcases List.mem_or_eq_of_mem_set hmem with hold | rfl
  · exact h.opened socket hold
  · exact hopened

theorem Sound.update (h : c.Sound) (hk : c.sockets[k]? = some socket)
    (hopened : s'.readyState = .opened → s'.hasOpened = true)
    (hfits : ∀ o, Fits socket o → Fits s' o) : (c.update k s').Sound := by
  refine ⟨fun p hp => ?_, h.update_opened hopened⟩
  obtain ⟨held, hheld, hfit⟩ := h.fits p hp
  rw [getElem?_update hk]
  split_ifs with hpk
  · rw [hpk, hk] at hheld
    cases hheld
    exact ⟨s', rfl, hfits _ hfit⟩
  · exact ⟨held, hheld, hfit⟩

theorem Sound.settle (h : c.Sound) (hk : c.sockets[k]? = some socket) (resolved : Bool)
    (hopened : s'.readyState = .opened → s'.hasOpened = true)
    (hfits : ∀ o, Fits socket o → Fits s' (o.or (some resolved))) :
    ((c.update k s').settle k resolved).Sound := by
  refine ⟨fun p hp => ?_, h.update_opened hopened⟩
  obtain ⟨q, hq, rfl⟩ := List.mem_map.mp hp
  obtain ⟨held, hheld, hfit⟩ := h.fits q hq
  have hsocket : ∀ n, ((c.update k s').settle k resolved).sockets[n]? =
      if n = k then some s' else c.sockets[n]? := getElem?_update hk
  by_cases hqk : q.socket = k
  · rw [hqk, hk] at hheld
    cases hheld
    have hnext := hfits _ hfit
    cases ho : q.outcome with rw [ho] at hnext
    | none =>
      rw [if_pos ⟨hqk, rfl⟩, hsocket, if_pos hqk]
      exact ⟨s', rfl, hnext⟩
    | some o =>
      rw [if_neg (fun hpending => by cases hpending.2), hsocket, if_pos hqk, ho]
      exact ⟨s', rfl, hnext⟩
  · rw [if_neg fun hpending => hqk hpending.1, hsocket, if_neg hqk]
    exact ⟨held, hheld, hfit⟩

theorem Sound.onOpen (h : c.Sound) (hk : c.sockets[k]? = some socket)
    (hconnecting : socket.readyState = .connecting) : (c.onOpen k socket).Sound := by
  rw [SignalingClient.onOpen]
  split_ifs with hlistening
  · refine h.settle hk true (fun _ => rfl) fun o ho => ?_
    cases o with
    | none => exact ⟨nofun, rfl⟩
    | some resolved => exact absurd hconnecting ho.1
  · refine h.update hk (fun _ => rfl) fun o ho => ?_
    cases o with
    | none => exact absurd ho.2.1 hlistening
    | some resolved => exact absurd hconnecting ho.1

theorem Sound.onError (h : c.Sound) (hk : c.sockets[k]? = some socket) :
    (c.onError k socket).Sound := by
  have hopened := h.opened socket (List.mem_of_getElem? hk)
  rw [SignalingClient.onError]
  split_ifs with hlistening hconnecting hconnecting
  · refine h.settle hk false nofun fun o ho => ?_
    cases o with
    | none => exact ⟨nofun, ho.2.2⟩
    | some resolved => exact absurd hconnecting ho.1
  · refine h.settle hk false hopened fun o ho => ?_
    cases o with
    | none => exact absurd ho.1 hconnecting
    | some resolved => exact ho
  · refine h.update hk nofun fun o ho => ?_
    cases o with
    | none => exact absurd ho.2.1 hlistening
    | some resolved => exact absurd hconnecting ho.1
  · exact h.update hk hopened fun o ho => ho

theorem Sound.onClose (h : c.Sound) (hk : c.sockets[k]? = some socket)
    (hended : socket.readyState ≠ .connecting) : (c.onClose k socket).Sound := by
  refine h.update hk nofun fun o ho => ?_
  cases o with
  | none => exact absurd ho.1 hended
  | some resolved => exact ⟨nofun, ho.2⟩

theorem getElem?_current (h : c.current = some (k, socket)) : c.sockets[k]? = some socket := by
  obtain ⟨n, -, hn⟩ := Option.bind_eq_some_iff.mp h
  obtain ⟨found, hfound, heq⟩ := Option.map_eq_some_iff.mp hn
  cases heq
  exact hfound

/-- The socket in use is not in its handshake. -/
def Quiet (c : SignalingClient) : Prop :=
  ∀ k socket, c.current = some (k, socket) → socket.readyState ≠ .connecting

theorem discardSocket_readyState (socket : WebSocket) :
    (discardSocket socket).readyState ≠ .connecting ∧ (discardSocket socket).readyState ≠ .opened := by
  rw [discardSocket]
  split_ifs <;> exact ⟨nofun, nofun⟩

theorem Sound.disconnect (h : c.Sound) (hquiet : c.Quiet) : c.disconnect.Sound := by
  rw [SignalingClient.disconnect]
  split
  next k socket hcurrent =>
    have hnot := discardSocket_readyState socket
    have hdiscarded : (c.update k (discardSocket socket)).Sound :=
      h.update (getElem?_current hcurrent) (fun hopened => absurd hopened hnot.2) fun o ho => by
        cases o with
        | none => exact absurd ho.1 (hquiet k socket hcurrent)
        | some resolved => exact ⟨hnot.1, ho.2⟩
    exact ⟨hdiscarded.fits, hdiscarded.opened⟩
  next => exact h

theorem Sound.connect (h : c.Sound) (hquiet : c.Quiet) : c.connect.Sound := by
  rw [SignalingClient.connect]
  split
  next k socket hopen =>
    obtain ⟨hcurrent, hopened⟩ := Option.filter_eq_some_iff.mp hopen
    have hk := getElem?_current hcurrent
    have hstate : socket.readyState = .opened := of_decide_eq_true hopened
    refine ⟨fun p hp => ?_, h.opened⟩
    rcases List.mem_append.mp hp with hold | hnew
    · exact h.fits p hold
    · rw [List.mem_singleton.mp hnew]
      refine ⟨socket, hk, ?_, h.opened socket (List.mem_of_getElem? hk) hstate⟩
      rw [hstate]
      nofun
  next =>
    have hd := h.disconnect hquiet
    refine ⟨fun p hp => ?_, fun socket hmem hopened => ?_⟩
    · rcases List.mem_append.mp hp with hold | hnew
      · obtain ⟨socket, hsocket, hfit⟩ := hd.fits p hold
        have hlt := (List.getElem?_eq_some_iff.mp hsocket).choose
        exact ⟨socket, by rw [List.getElem?_append_left hlt, hsocket], hfit⟩
      · rw [List.mem_singleton.mp hnew]
        exact ⟨_, List.getElem?_concat_length, rfl, rfl, rfl⟩
    · rcases List.mem_append.mp hmem with hold | hnew
      · exact hd.opened socket hold hopened
      · rw [List.mem_singleton.mp hnew] at hopened
        cases hopened

end SignalingClient

namespace AgentSignaling

/-- The call does not discard a socket that is in its handshake. -/
def Patient (s : AgentSignaling) : Input → Prop
  | .connect | .disconnect => s.client.Quiet
  | .reconnect => s.reconnectInFlight.isSome ∨ s.client.Quiet
  | .opened _ | .error _ | .close _ => True

/-- The invariant. Only a pending promise is awaited. -/
structure Sound (s : AgentSignaling) : Prop where
  client : s.client.Sound
  awaited : ∀ j, s.reconnectInFlight = some j → ∃ p ∈ s.client.promises, p.outcome = none

theorem sound_new : new.Sound where
  client := ⟨fun p hp => absurd hp List.not_mem_nil, fun s hs => absurd hs List.not_mem_nil⟩
  awaited j hj := by cases hj

theorem sound_settleReconnect {s : AgentSignaling} (h : s.client.Sound) : s.settleReconnect.Sound := by
  refine ⟨h, fun j hj => ?_⟩
  obtain ⟨-, hpending⟩ := Option.filter_eq_some_iff.mp hj
  obtain ⟨p, hp, hnone⟩ := (Option.any_eq_true _ _).mp hpending
  exact ⟨p, List.mem_of_getElem? hp, of_decide_eq_true hnone⟩

theorem Sound.settled {s : AgentSignaling} (h : s.Sound) : s.Settled := by
  intro hended
  have hsettled : ∀ p ∈ s.client.promises, ∃ socket, s.client.sockets[p.socket]? = some socket ∧
      p.outcome = some socket.hasOpened := by
    intro p hp
    obtain ⟨socket, hsocket, hfit⟩ := h.client.fits p hp
    refine ⟨socket, hsocket, ?_⟩
    cases ho : p.outcome with rw [ho] at hfit
    | none =>
      exact absurd hfit.1 (hended socket (List.mem_of_getElem? hsocket))
    | some resolved =>
      rw [hfit.2]
  refine ⟨hsettled, Option.eq_none_iff_forall_ne_some.mpr fun j hj => ?_⟩
  obtain ⟨p, hp, hnone⟩ := h.awaited j hj
  obtain ⟨socket, -, hsome⟩ := hsettled p hp
  rw [hnone] at hsome
  cases hsome

theorem sound_step (s : AgentSignaling) (i : Input) (t : AgentSignaling) (out : List Empty)
    (h : s.Sound) (hp : s.Patient i) (hs : s.step i = some (t, out)) : t.Sound := by
  cases i with
  | connect =>
    cases hs
    exact sound_settleReconnect (h.client.connect hp)
  | disconnect =>
    cases hs
    exact sound_settleReconnect (h.client.disconnect hp)
  | opened k =>
    obtain ⟨socket, hk, hs⟩ := Option.bind_eq_some_iff.mp hs
    obtain ⟨hconnecting, hs⟩ := Option.ite_none_right_eq_some.mp hs
    cases hs
    exact sound_settleReconnect (h.client.onOpen hk hconnecting)
  | error k =>
    obtain ⟨socket, hk, hs⟩ := Option.map_eq_some_iff.mp hs
    cases hs
    exact sound_settleReconnect (h.client.onError hk)
  | close k =>
    obtain ⟨socket, hk, hs⟩ := Option.bind_eq_some_iff.mp hs
    obtain ⟨hended, hs⟩ := Option.ite_none_right_eq_some.mp hs
    cases hs
    exact sound_settleReconnect (h.client.onClose hk hended)
  | reconnect =>
    cases hs
    refine sound_settleReconnect ?_
    rw [reconnect]
    split_ifs with hflight
    · exact h.client
    · exact h.client.connect (hp.resolve_left hflight)

/-- In every run in which no call discards a socket that is in its handshake, every promise
settles. -/
theorem settled_of_patient {is : List Input} {s : AgentSignaling} {os : List Empty}
    (hp : Along step Patient new is) (hr : run step new is = some (s, os)) : s.Settled :=
  (run_invariant sound_step sound_new hp hr).settled

/-- A connect that opens, then a reconnect that fails. -/
theorem settled_of_patient_reconnect : ∃ s, run step new
    [.connect, .opened 0, .close 0, .reconnect, .error 1] = some (s, []) ∧ s.Settled := by
  have hr : run step new [.connect, .opened 0, .close 0, .reconnect, .error 1] = some
      (⟨⟨[⟨.closed, false, true⟩, ⟨.closing, true, false⟩], some 1, [⟨0, some true⟩, ⟨1, some false⟩]⟩,
        none⟩, []) := by decide
  refine ⟨_, hr, settled_of_patient ?_ hr⟩
  exact .cons (fun k socket h => by cases h) rfl (.cons trivial rfl (.cons trivial rfl
    (.cons (.inr fun k socket h => by cases h; nofun) rfl (.cons trivial rfl trivial))))

/-- A disconnect in the handshake leaves the promise of the pod's reconnect pending. -/
theorem not_settled : ¬ ∀ is s os, run step new is = some (s, os) → s.Settled := by
  intro h
  have hr : run step new [.reconnect, .disconnect] = some
      (⟨⟨[⟨.closing, false, false⟩], none, [⟨0, none⟩]⟩, some 0⟩, []) := by decide
  exact absurd (h _ _ _ hr (by decide)).2 (by decide)

end AgentSignaling

end NodeWebrtc.Signaling
