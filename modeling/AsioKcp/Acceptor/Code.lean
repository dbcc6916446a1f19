import AsioKcp.Connection.System
import AsioKcp.Lib.Bytes

/-! # The acceptor

`Acceptor` holds the members of `moon::kcp::acceptor`, the connections it has
made, and whether its two coroutines still run: an exception that leaves
`do_receive` or `do_update` ends it, and nobody else hears of it.  Nobody cancels
the timer of `do_update`, so its wait gives no error.

The socket is a local of `do_receive`, and a connection of the acceptor refers to
it: once `receiving` is false, a send by such a connection is undefined, which the
steps below do not show.  What a theorem says of the datagrams of an acceptor is
about the time until then. -/
set_option autoImplicit false

namespace AsioKcp

open AsioKcp.Ikcp AsioKcp.Callback AsioKcp.Bytes

/-- The part of `do_update` or `handshark` that takes a connection out of
`connections_`, with the handlers that were pending in it before its `close`. -/
structure Erasure where
  connection : Nat
  pending : List Nat

structure Acceptor where
  now : Int
  magic : List UInt8
  acceptOps : List Nat
  /-- `connections_`: endpoints, each with the number of its connection. -/
  connections : List (Endpoint × Nat)
  /-- The buffer of `do_receive`. -/
  buffer : List UInt8
  /-- Whether the coroutines `do_receive` and `do_update` still run.  The first
  owns the socket of every connection. -/
  receiving : Bool
  updating : Bool
  /-- The connections made so far are those with a smaller number. -/
  created : Nat
  conns : Nat → Connection
  env : Env
  /-- History: the handlers given to `async_accept`, the handlers completed
  with the connection each was given, and whether `front` was called on an empty
  `accept_ops_`. -/
  acceptCalls : List Nat
  accepts : List (Nat × Nat)
  emptyFront : Bool
  erasures : List Erasure
  /-- History: the code under way is that of `do_receive` or `do_update`, and not
  of a call that a handler makes. -/
  serving : Bool

/-- Connection `i` with the environment it shares. -/
def Acceptor.view (i : Nat) : Lens Acceptor Local where
  get a := ⟨a.conns i, a.env⟩
  put a l := { a with conns := Function.update a.conns i l.conn, env := l.env }
  get_put a l := by simp
  put_put a l m := by simp
  put_get a := by simp

def onConnection {α : Type} (i : Nat) (m : Comp Local α) : Comp Acceptor α :=
  Comp.zoom (Acceptor.view i) m

/-- `connections_.find`. -/
def Acceptor.find (a : Acceptor) (endpoint : Endpoint) : Option Nat := a.connections.lookup endpoint

/-- `connections_.erase`, of the entry of connection `i`. -/
def Acceptor.erase (a : Acceptor) (endpoint : Endpoint) (i : Nat) (pending : List Nat) : Acceptor :=
  { a with
    connections := a.connections.filter fun entry => entry.1 ≠ endpoint
    erasures := a.erasures ++ [⟨i, pending⟩] }

/-- `make_shared<connection>` and `connections_.emplace`. -/
def Acceptor.create (a : Acceptor) (conv : UInt32) (endpoint : Endpoint) (clock : Int) : Acceptor :=
  { a with
    created := a.created + 1
    conns := Function.update a.conns a.created (.make a.created conv endpoint true clock)
    connections := a.connections ++ [(endpoint, a.created)] }

/-- The end of `handshark`: the response, and the completion of an accept. -/
def answer (c : Nat) : Comp Acceptor Unit := do
  let a ← Comp.get
  onConnection c (rawSend (le32 (a.conns c).conv) opcodeHandsharkResponse)
  match a.acceptOps with
  | [] => Comp.modify fun a => { a with emptyFront := true }
  | op :: rest => do
      Comp.modify fun a => { a with acceptOps := rest, accepts := a.accepts ++ [(op, c)] }
      Comp.invoke

def handshark (conv : UInt32) (endpoint : Endpoint) (clock : Int) : Comp Acceptor Unit := do
  let a ← Comp.get
  match a.find endpoint with
  | some c =>
      if (a.conns c).idle then answer c
      else do
        onConnection c (close .operationAborted)
        Comp.modify fun b => b.erase endpoint c (a.conns c).slots
        let b ← Comp.get
        Comp.modify fun b => b.create conv endpoint clock
        answer b.created
  | none => do
      Comp.modify fun a => a.create conv endpoint clock
      answer a.created

/-- The loop of `do_update`, over the entries it has still to visit. -/
def updateConnections (now : Int) : List (Endpoint × Nat) → Comp Acceptor Unit
  | [] => pure ()
  | (endpoint, c) :: rest => do
      let a ← Comp.get
      let expired ← onConnection c (tick now)
      if expired then Comp.modify fun b => b.erase endpoint c (a.conns c).slots
      else pure ()
      updateConnections now rest

def Acceptor.serve (a : Acceptor) (serving : Bool) : Acceptor := { a with serving := serving }

/-- The timer of `do_update` expires when `clock()` is `now`.  The map gives its
entries in any order. -/
def doUpdate (order : List (Endpoint × Nat)) (now : Int) : Comp Acceptor Unit := do
  let a ← Comp.get
  if a.updating = true ∧ order.Perm a.connections then do
    Comp.modify fun a => { a with now := now, serving := true }
    Comp.tryCatch (updateConnections now order)
      (Comp.modify fun a => { a with updating := false })
    Comp.modify fun a => a.serve false
  else pure ()

/-- A datagram in the buffer of `do_receive`: what is longer is cut off, and what
is shorter leaves the rest of the buffer as it was. -/
def Acceptor.fill (a : Acceptor) (datagram : List UInt8) : Acceptor :=
  { a with buffer := datagram.take 2048 ++ a.buffer.drop datagram.length }

/-- The test of `do_receive` for a handshake of `n` bytes. -/
def Acceptor.greeted (a : Acceptor) (n : Nat) : Prop :=
  n = 1 + a.magic.length + 4 ∧ (a.buffer.drop 1).take a.magic.length = a.magic

instance (a : Acceptor) (n : Nat) : Decidable (a.greeted n) := inferInstanceAs (Decidable (_ ∧ _))

/-- The body of the loop of `do_receive`, with the result of the receive.  The
coroutine `handshark` is detached: an exception that leaves it is dropped.  One
that leaves `on_receive` ends `do_receive`, and takes its socket with it. -/
def acceptorReceive (ec : ErrorCode) (datagram : List UInt8) (sender : Endpoint) (clock : Int) :
    Comp Acceptor Unit := do
  let a ← Comp.get
  if a.receiving = false ∨ ec ≠ .success then pure ()
  else do
    let n := min datagram.length 2048
    Comp.modify fun a => a.fill datagram
    let a ← Comp.get
    let opcode := a.buffer.getD 0 0
    if opcode ≥ opcodeMax then pure ()
    else if opcode = opcodeHandshark then
      if a.greeted n then
        Comp.tryCatch (handshark (read32 (a.buffer.drop (1 + a.magic.length))) sender clock) (pure ())
      else pure ()
    else match a.find sender with
      | some c => do
          Comp.modify fun a => a.serve true
          Comp.tryCatch (onConnection c (onReceive a.buffer n a.now))
            (Comp.modify fun a => { a with receiving := false })
          Comp.modify fun a => a.serve false
      | none => pure ()

end AsioKcp
