import AsioKcp.Acceptor.Code

/-! # The acceptor with its users and its network

The user starts accepts and calls the connections made so far, from handlers or
outside; the events are the datagrams that arrive from any endpoint, the expiries
of the timer, and the posted tasks of the executor. -/
set_option autoImplicit false

namespace AsioKcp

open AsioKcp.Ikcp AsioKcp.Callback AsioKcp.Machine

inductive AcceptorCall where
  | asyncAccept
  | connection (c : Nat) (k : Call)

inductive AcceptorEvent where
  | receive (ec : ErrorCode) (datagram : List UInt8) (sender : Endpoint) (clock : Int)
  | timer (order : List (Endpoint × Nat)) (now : Int)
  | posted (i : Nat)

/-- `initiate_async_accept::operator()`. -/
def Acceptor.push (a : Acceptor) : Acceptor :=
  { a with
    acceptOps := a.acceptOps ++ [a.env.nextHandler]
    acceptCalls := a.acceptCalls ++ [a.env.nextHandler]
    env := { a.env with nextHandler := a.env.nextHandler + 1 } }

def asyncAccept : Comp Acceptor Unit := Comp.modify Acceptor.push

/-- While a call runs, the code that waits for its handler does not. -/
def asUser (m : Comp Acceptor Unit) : Comp Acceptor Unit := do
  let a ← Comp.get
  Comp.modify fun b => b.serve false
  Comp.tryCatch m do
    Comp.modify fun b => b.serve a.serving
    Comp.throw
  Comp.modify fun b => b.serve a.serving

def runAcceptorCall : AcceptorCall → Comp Acceptor Unit
  | .asyncAccept => asyncAccept
  | .connection c k => do
      let a ← Comp.get
      if c < a.created then asUser (onConnection c (runCall k)) else pure ()

def runAcceptorPosted (i : Nat) : Comp Acceptor Unit := do
  let a ← Comp.get
  match a.env.posted[i]? with
  | none => pure ()
  | some task => do
      Comp.modify fun a => { a with env := { a.env with posted := a.env.posted.eraseIdx i } }
      match task with
      | .completion c => do
          Comp.modify fun a => { a with env := { a.env with invoked := a.env.invoked ++ [c] } }
          Comp.invoke
      | .checkReadOp c => onConnection c (checkReadOp .success)

def runAcceptorEvent : AcceptorEvent → Comp Acceptor Unit
  | .receive ec datagram sender clock => acceptorReceive ec datagram sender clock
  | .timer order now => doUpdate order now
  | .posted i => runAcceptorPosted i

def acceptorSystem : System Acceptor AcceptorEvent AcceptorCall where
  event := runAcceptorEvent
  call := runAcceptorCall

/-- The constructor of `acceptor`, called when `clock()` is `now`. -/
def Acceptor.make (magic : List UInt8) (now : Int) (streambufs : Nat → StreamBuf) : Acceptor where
  now := now
  magic := magic
  acceptOps := []
  connections := []
  buffer := List.replicate 2048 0
  receiving := true
  updating := true
  created := 0
  conns c := .make c 0 ⟨.v4 0, 0⟩ true now
  env := .empty streambufs
  acceptCalls := []
  accepts := []
  emptyFront := false
  erasures := []
  serving := false

def acceptorStart (magic : List UInt8) (now : Int) (streambufs : Nat → StreamBuf) :
    Config Acceptor :=
  .idle (.make magic now streambufs)

end AsioKcp
