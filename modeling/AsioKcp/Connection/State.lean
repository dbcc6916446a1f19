import AsioKcp.Ikcp.Send
import AsioKcp.Ikcp.Input
import AsioKcp.Ikcp.Flush

/-! # The data of a connection

`Connection` holds the members of `moon::kcp::connection`, the asio objects of a
client (the outstanding wait of its timer, the outstanding receive, and their
queued completions) and, marked as history, what the theorems about streams speak
of.  `Env` is what connections of one executor share: the datagrams handed to
sockets, the posted completions, the handlers invoked so far, how often a
`prepare` has thrown, and the user's stream buffers.  A handler is named by the number of the call it was passed to. -/
set_option autoImplicit false

namespace AsioKcp

open AsioKcp.Ikcp

inductive Address where
  | v4 (bits : UInt32)
  | v6 (high low : UInt64) (scope : UInt32)
  deriving DecidableEq

structure Endpoint where
  address : Address
  port : UInt16
  deriving DecidableEq

/-- `asio::error_code`; every value other than `success` tests as true. -/
inductive ErrorCode where
  | success
  | eof
  | operationAborted
  | timedOut
  | inProgress
  | messageSize
  | invalidHandsharkResponse
  | other (value : Nat)
  deriving DecidableEq

def timeoutDuration : Int := 30 * 1000
def updateInterval : Int := 5
def opcodeHandshark : UInt8 := 1
def opcodeHandsharkResponse : UInt8 := 2
def opcodeKeepalive : UInt8 := 3
def opcodeData : UInt8 := 4
def opcodeDisconnect : UInt8 := 5
def opcodeMax : UInt8 := 6
def idleSendPacketCount : Nat := 128

structure Datagram where
  dest : Endpoint
  bytes : List UInt8
  deriving DecidableEq

/-- `asio::streambuf`: its readable bytes and `max_size`. -/
structure StreamBuf where
  data : List UInt8
  maxSize : Nat

structure Completion where
  handler : Nat
  ec : ErrorCode
  bytesTransferred : Nat
  deriving DecidableEq

inductive Task where
  | completion (c : Completion)
  | checkReadOp (connection : Nat)
  deriving DecidableEq

/-- `read_some_op` with the size of its buffer, or `read_op` with its stream
buffer and `need_`. -/
inductive ReadOperation where
  | readSome (handler : Nat) (size : Nat)
  | read (handler : Nat) (buffer : Nat) (need : Nat)
  deriving DecidableEq

def ReadOperation.handler : ReadOperation → Nat
  | .readSome handler _ => handler
  | .read handler _ _ => handler

structure Env where
  sent : List Datagram
  posted : List Task
  invoked : List Completion
  refused : Nat
  streambufs : Nat → StreamBuf
  nextHandler : Nat

inductive ConnectionState where
  | idle
  | opened
  | closed
  deriving DecidableEq

structure Connection where
  this : Nat
  isserver : Bool
  state : ConnectionState
  conv : UInt32
  nextTick : Int
  nowTick : Int
  endpoint : Endpoint
  obj : Ikcpcb
  readOp : Option ReadOperation
  /-- The handler of the pending `write_op`. -/
  writeOp : Option Nat
  sockOpen : Bool
  timerWaiting : Bool
  timerQueued : Nat
  receiving : Bool
  receiveQueued : List (ErrorCode × List UInt8 × Nat)
  /-- History: the waits and the receives started, and the waits cancelled. -/
  timersArmed : Nat
  receivesArmed : Nat
  timerCancels : Nat
  /-- History: whether the disconnect datagram has been handed to the socket. -/
  disconnectSent : Bool
  /-- History: the bytes read operations have moved out, and the buffers that
  `async_write` has accepted. -/
  delivered : List UInt8
  accepted : List UInt8

def Connection.closed (c : Connection) : Bool := c.state = .closed

def Connection.idle (c : Connection) : Bool := c.state = .idle

/-- The handlers of the pending operations. -/
def Connection.slots (c : Connection) : List Nat :=
  c.readOp.toList.map ReadOperation.handler ++ c.writeOp.toList

/-- `init_kcp_context`. -/
def initKcpContext (conv : UInt32) : Ikcpcb :=
  { ikcpSetmtu (ikcpNodelay (ikcpWndsize (ikcpCreate conv) 256 256) 1 10 2 1) 1200 with
    rxMinrto := 10, stream := 1 }

/-- The constructor of `connection`, called when `clock()` is `now`. -/
def Connection.make (this : Nat) (conv : UInt32) (endpoint : Endpoint) (isserver : Bool)
    (now : Int) : Connection where
  this := this
  isserver := isserver
  state := .idle
  conv := conv
  nextTick := 0
  nowTick := now
  endpoint := endpoint
  obj := initKcpContext conv
  readOp := none
  writeOp := none
  sockOpen := true
  timerWaiting := false
  timerQueued := 0
  receiving := false
  receiveQueued := []
  timersArmed := 0
  receivesArmed := 0
  timerCancels := 0
  disconnectSent := false
  delivered := []
  accepted := []

def Env.empty (streambufs : Nat → StreamBuf) : Env where
  sent := []
  posted := []
  invoked := []
  refused := 0
  streambufs := streambufs
  nextHandler := 0

/-- A connection with the environment its code runs in. -/
structure Local where
  conn : Connection
  env : Env

end AsioKcp
