import AsioKcp.Pair.System

/-! # The tunnel of `tcp_over_kcp`

One end of the tunnel is a connection, a TCP socket and the coroutines `kcp2tcp`
and `tcp2kcp`, each cut at its `co_await`s.  asio resumes a coroutine inside of
the handler that it awaits; here it may go on at any time from then on, which
includes that.  The reads of the TCP socket return any bytes, and each of its
operations may fail. -/
set_option autoImplicit false

namespace AsioKcp

open AsioKcp.Ikcp AsioKcp.Callback AsioKcp.Machine

def bufferSize : Nat := 8192

/-- Where `kcp2tcp` stands: before its start, in its read of the connection, in
its write of the bytes to the TCP socket, behind the `close` of its `catch`
clause, or at its end. -/
inductive Kcp2Tcp where
  | spawned
  | reading (handler : Nat)
  | writing (bytes : List UInt8)
  | closing
  | ended
  deriving DecidableEq

/-- Where `tcp2kcp` stands. -/
inductive Tcp2Kcp where
  | spawned
  | reading
  | writing (handler : Nat)
  | closing
  | ended
  deriving DecidableEq

structure Tunnel where
  kcp : Config Local
  kcp2tcp : Kcp2Tcp
  tcp2kcp : Tcp2Kcp
  tcpOpen : Bool
  /-- History: the bytes that the TCP socket has handed over, and taken. -/
  received : List UInt8
  written : List UInt8

inductive TunnelLabel where
  /-- The connection goes on by itself, or comes back from a handler. -/
  | kcp (label : Label Event Call)
  | startKcp2Tcp
  | resumeKcp2Tcp
  | tcpWritten (ec : ErrorCode) (size : Nat)
  /-- The `catch` clause ends; its `close` may have thrown before the TCP socket
  is closed. -/
  | endKcp2Tcp (threw : Bool)
  | startTcp2Kcp
  | tcpReceived (ec : ErrorCode) (bytes : List UInt8)
  | resumeTcp2Kcp
  | endTcp2Kcp (threw : Bool)

/-- What the handler has been invoked with. -/
def Env.answer (env : Env) (handler : Nat) : Option Completion :=
  env.invoked.find? fun c => c.handler = handler

/-- The `n` bytes that the last read has put into its buffer. -/
def Connection.lastRead (c : Connection) (n : Nat) : List UInt8 :=
  c.delivered.drop (c.delivered.length - n)

namespace Tunnel

def start (kcp : Config Local) : Tunnel where
  kcp := kcp
  kcp2tcp := .spawned
  tcp2kcp := .spawned
  tcpOpen := true
  received := []
  written := []

def call (t : Tunnel) (k : Call) : Option Tunnel :=
  (connectionSystem.step t.kcp (.call k)).map fun kcp => { t with kcp := kcp }

/-- The head of the loop of `kcp2tcp`. -/
def readSome (t : Tunnel) : Option Tunnel :=
  { t with kcp2tcp := .reading t.kcp.state.env.nextHandler }.call (.asyncReadSome bufferSize)

/-- The rest of the loop of `tcp2kcp`. -/
def write (t : Tunnel) (bytes : List UInt8) : Option Tunnel :=
  { t with tcp2kcp := .writing t.kcp.state.env.nextHandler }.call (.asyncWrite bytes)

/-- The `catch` clauses, up to the `close` of the connection. -/
def catchKcp2Tcp (t : Tunnel) : Option Tunnel :=
  { t with kcp2tcp := .closing }.call (.close .operationAborted)

def catchTcp2Kcp (t : Tunnel) : Option Tunnel :=
  { t with tcp2kcp := .closing }.call (.close .operationAborted)

/-- The rest of a `catch` clause: `shutdown` and `close`, if the socket is open. -/
def closeTcp (t : Tunnel) (threw : Bool) : Tunnel := { t with tcpOpen := t.tcpOpen && threw }

def step (t : Tunnel) : TunnelLabel → Option Tunnel
  | .kcp label =>
      match label with
      | .call _ => none
      | .raise => none
      | label => (connectionSystem.step t.kcp label).map fun kcp => { t with kcp := kcp }
  | .startKcp2Tcp => if t.kcp.isIdle ∧ t.kcp2tcp = .spawned then t.readSome else none
  | .resumeKcp2Tcp =>
      match t.kcp2tcp with
      | .reading handler =>
          match t.kcp.state.env.answer handler with
          | none => none
          | some c =>
              if c.ec = .success then
                some { t with kcp2tcp := .writing (t.kcp.state.conn.lastRead c.bytesTransferred) }
              else t.catchKcp2Tcp
      | _ => none
  | .tcpWritten ec size =>
      match t.kcp2tcp with
      | .writing bytes =>
          if ¬ t.kcp.isIdle then none
          else if ec = .success then { t with written := t.written ++ bytes }.readSome
          else { t with written := t.written ++ bytes.take size }.catchKcp2Tcp
      | _ => none
  | .endKcp2Tcp threw =>
      if t.kcp2tcp = .closing then some { t.closeTcp threw with kcp2tcp := .ended } else none
  | .startTcp2Kcp =>
      if t.kcp.isIdle ∧ t.tcp2kcp = .spawned then some { t with tcp2kcp := .reading } else none
  | .tcpReceived ec bytes =>
      if ¬ t.kcp.isIdle ∨ t.tcp2kcp ≠ .reading then none
      else if ec = .success then
        if 0 < bytes.length ∧ bytes.length ≤ bufferSize then
          { t with received := t.received ++ bytes }.write bytes
        else none
      else t.catchTcp2Kcp
  | .resumeTcp2Kcp =>
      match t.tcp2kcp with
      | .writing handler =>
          match t.kcp.state.env.answer handler with
          | none => none
          | some c => if c.ec = .success then some { t with tcp2kcp := .reading } else t.catchTcp2Kcp
      | _ => none
  | .endTcp2Kcp threw =>
      if t.tcp2kcp = .closing then some { t.closeTcp threw with tcp2kcp := .ended } else none

/-- What the connection hears in a step. -/
def hears (t : Tunnel) : TunnelLabel → Option (List UInt8 × Nat)
  | .kcp label => AsioKcp.hears t.kcp label
  | _ => none

/-- One end, whatever happens to it. -/
inductive Run (p : Tunnel) : Tunnel → Prop
  | refl : Run p p
  | tail {t t' : Tunnel} (label : TunnelLabel) : Run p t → t.step label = some t' → Run p t'

end Tunnel

/-! ## Two tunnels -/

/-- The end at the TCP clients, which has the client connection, and the end that
accepts connections. -/
structure Tunnels where
  near : Tunnel
  far : Tunnel

def Handshake.tunnels (h : Handshake) : Tunnels where
  near := .start h.pair.first.config
  far := .start h.pair.second.config

/-- The network may lose, repeat, reorder and delay what the other end has sent;
neither end has numbered `2 ^ 31` segments. -/
def Tunnel.Allows (own other : Tunnel) (label : TunnelLabel) : Prop :=
  Few own.kcp.state ∧ Few other.kcp.state ∧ Carries other.kcp.state.env.sent (own.hears label)

instance (own other : Tunnel) (label : TunnelLabel) : Decidable (own.Allows other label) :=
  inferInstanceAs (Decidable (_ ∧ _ ∧ _))

inductive Tunnels.Run (p : Tunnels) : Tunnels → Prop
  | refl : Tunnels.Run p p
  | near {q : Tunnels} {t : Tunnel} (label : TunnelLabel) : Tunnels.Run p q →
      q.near.Allows q.far label → q.near.step label = some t → Tunnels.Run p ⟨t, q.far⟩
  | far {q : Tunnels} {t : Tunnel} (label : TunnelLabel) : Tunnels.Run p q →
      q.far.Allows q.near label → q.far.step label = some t → Tunnels.Run p ⟨q.near, t⟩

/-! ## Runs on fixed labels -/

def Tunnel.exec : Tunnel → List TunnelLabel → Option Tunnel
  | t, [] => some t
  | t, label :: rest => do
      let next ← t.step label
      next.exec rest

theorem Tunnel.Run.trans {p t t' : Tunnel} (before : p.Run t) (after : t.Run t') : p.Run t' := by
  induction after with
  | refl => exact before
  | tail label _ stepped ih => exact ih.tail label stepped

theorem tunnel_checked (t : Tunnel) (labels : List TunnelLabel) (check : Tunnel → Bool)
    (ran : (t.exec labels).map check = some true) : ∃ t', t.Run t' ∧ check t' = true := by
  induction labels generalizing t with
  | nil => exact ⟨t, .refl, Option.some.inj ran⟩
  | cons label rest ih =>
      obtain ⟨t', reached, holds⟩ := Option.map_eq_some_iff.mp ran
      obtain ⟨next, stepped, continued⟩ := Option.bind_eq_some_iff.mp reached
      obtain ⟨last, run, checked⟩ := ih next (Option.map_eq_some_iff.mpr ⟨t', continued, holds⟩)
      exact ⟨last, (Tunnel.Run.tail label .refl stepped).trans run, checked⟩

/-- One step of the end that the flag names: the near one, if it is set. -/
def Tunnels.turn (q : Tunnels) (isNear : Bool) (label : TunnelLabel) : Option Tunnels :=
  match isNear with
  | true => if q.near.Allows q.far label then (q.near.step label).map (⟨·, q.far⟩) else none
  | false => if q.far.Allows q.near label then (q.far.step label).map (⟨q.near, ·⟩) else none

def Tunnels.exec : Tunnels → List (Bool × TunnelLabel) → Option Tunnels
  | q, [] => some q
  | q, (isNear, label) :: rest => do
      let next ← q.turn isNear label
      next.exec rest

theorem Tunnels.Run.trans {p q r : Tunnels} (before : p.Run q) (after : q.Run r) : p.Run r := by
  induction after with
  | refl => exact before
  | near label _ allowed stepped ih => exact ih.near label allowed stepped
  | far label _ allowed stepped ih => exact ih.far label allowed stepped

theorem run_of_turn {q r : Tunnels} {isNear : Bool} {label : TunnelLabel}
    (turned : q.turn isNear label = some r) : q.Run r := by
  cases isNear with
  | true =>
      simp only [Tunnels.turn] at turned
      split at turned
      · rename_i allowed
        obtain ⟨t, stepped, rfl⟩ := Option.map_eq_some_iff.mp turned
        exact .near label .refl allowed stepped
      · cases turned
  | false =>
      simp only [Tunnels.turn] at turned
      split at turned
      · rename_i allowed
        obtain ⟨t, stepped, rfl⟩ := Option.map_eq_some_iff.mp turned
        exact .far label .refl allowed stepped
      · cases turned

theorem tunnels_checked (q : Tunnels) (steps : List (Bool × TunnelLabel)) (check : Tunnels → Bool)
    (ran : (q.exec steps).map check = some true) : ∃ r, q.Run r ∧ check r = true := by
  induction steps generalizing q with
  | nil => exact ⟨q, .refl, Option.some.inj ran⟩
  | cons step rest ih =>
      obtain ⟨r, reached, holds⟩ := Option.map_eq_some_iff.mp ran
      obtain ⟨next, turned, continued⟩ := Option.bind_eq_some_iff.mp reached
      obtain ⟨last, run, checked⟩ := ih next (Option.map_eq_some_iff.mpr ⟨r, continued, holds⟩)
      exact ⟨last, (run_of_turn turned).trans run, checked⟩

end AsioKcp
