import AsioKcp.Connection.Code
import AsioKcp.Lib.Machine

/-! # One connection in an arbitrary environment

The calls are what user code may do with a connection, from a handler or
outside; the events are what the executor, the socket and, for a server
connection, the acceptor do to it. -/
set_option autoImplicit false

namespace AsioKcp

open AsioKcp.Ikcp AsioKcp.Callback AsioKcp.Machine

inductive Call where
  | asyncReadSome (size : Nat)
  | asyncRead (buffer need : Nat)
  | asyncWrite (buffer : List UInt8)
  | close (ec : ErrorCode)
  /-- The user changes one of its own stream buffers. -/
  | streambuf (id : Nat) (content : StreamBuf)

def runCall : Call → Comp Local Unit
  | .asyncReadSome size => asyncReadSome size
  | .asyncRead buffer need => asyncRead buffer need
  | .asyncWrite buffer => asyncWrite buffer
  | .close ec => close ec
  | .streambuf id content => modifyEnv fun env => env.setStreambuf id content

inductive Event where
  /-- A task of the executor's queue runs. -/
  | posted (i : Nat)
  /-- `acceptor::do_receive` passes a datagram on. -/
  | onReceive (data : List UInt8) (size : Nat) (t : Int)
  | update (now : Int)
  /-- The pass of `acceptor::do_update` over this connection. -/
  | tick (now : Int)
  /-- The timer expires: the outstanding wait is queued as complete. -/
  | timerExpires
  | timerRuns (now : Int)
  /-- The outstanding receive is queued as complete. -/
  | receiveCompletes (ec : ErrorCode) (data : List UInt8) (size : Nat)
  | receiveRuns (now : Int)

def runPosted (i : Nat) : Comp Local Unit := do
  let l ← Comp.get
  match l.env.posted[i]? with
  | none => pure ()
  | some task => do
      modifyEnv fun env => { env with posted := env.posted.eraseIdx i }
      match task with
      | .completion c => invokeHandler c
      | .checkReadOp _ => checkReadOp .success

/-- The body of the loop of `acceptor::do_update`, up to the erasure: whether the
connection is to be erased. -/
def tick (now : Int) : Comp Local Bool := do
  let lastrecvtime ← update now
  let l ← Comp.get
  if l.conn.closed ∨ now - lastrecvtime > timeoutDuration then do
    close (if l.conn.closed then .operationAborted else .timedOut)
    pure true
  else pure false

def Connection.timerExpired (c : Connection) : Connection :=
  if c.timerWaiting then { c with timerWaiting := false, timerQueued := c.timerQueued + 1 } else c

def timerRuns (now : Int) : Comp Local Unit := do
  let l ← Comp.get
  if l.conn.timerQueued = 0 then pure ()
  else do
    modifyConn fun c => { c with timerQueued := c.timerQueued - 1 }
    timerHandler now

def Connection.receiveCompleted (c : Connection) (ec : ErrorCode) (data : List UInt8)
    (size : Nat) : Connection :=
  if c.receiving then
    { c with receiving := false, receiveQueued := c.receiveQueued ++ [(ec, data, size)] } else c

def receiveRuns (now : Int) : Comp Local Unit := do
  let l ← Comp.get
  match l.conn.receiveQueued with
  | [] => pure ()
  | (ec, data, size) :: rest => do
      modifyConn fun c => { c with receiveQueued := rest }
      receiveHandler ec data size now

def runEvent : Event → Comp Local Unit
  | .posted i => runPosted i
  | .onReceive data size t => onReceive data size t
  | .update now => do
      let _ ← update now
      pure ()
  | .tick now => do
      let _ ← tick now
      pure ()
  | .timerExpires => modifyConn Connection.timerExpired
  | .timerRuns now => timerRuns now
  | .receiveCompletes ec data size => modifyConn fun c => c.receiveCompleted ec data size
  | .receiveRuns now => receiveRuns now

def connectionSystem : System Local Event Call where
  event := runEvent
  call := runCall

/-- A server connection as `handshark` makes it. -/
def serverStart (conv : UInt32) (endpoint : Endpoint) (now : Int)
    (streambufs : Nat → StreamBuf) : Config Local :=
  .idle ⟨.make 0 conv endpoint true now, .empty streambufs⟩

/-- A client connection as `async_connect` returns it, after `run_client`. -/
def clientStart (conv : UInt32) (endpoint : Endpoint) (now : Int)
    (streambufs : Nat → StreamBuf) : Config Local :=
  .enter [] (runClient ⟨.make 0 conv endpoint false now, .empty streambufs⟩)

end AsioKcp
