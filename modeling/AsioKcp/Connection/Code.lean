import AsioKcp.Connection.State
import AsioKcp.Lib.Callback

/-! # The member functions of a connection

Each function is the code of `moon::kcp::connection` as a `Comp`: it gives
control away where the source invokes a handler inline, and asks for the outcome
of the one synchronous `send_to`, which throws when it fails.  `obj_` is never
null after construction. -/
set_option autoImplicit false

namespace AsioKcp

open AsioKcp.Ikcp AsioKcp.Callback

/-- The conversion of a `size_t` to `int`. -/
def narrow (size : Nat) : Int := (UInt32.ofNat size).toInt32.toInt

def modifyConn (f : Connection → Connection) : Comp Local Unit :=
  Comp.modify fun l => { l with conn := f l.conn }

def modifyEnv (f : Env → Env) : Comp Local Unit :=
  Comp.modify fun l => { l with env := f l.env }

def post (task : Task) : Comp Local Unit :=
  modifyEnv fun env => { env with posted := env.posted ++ [task] }

/-- The handler argument of an initiating function. -/
def newHandler : Comp Local Nat := do
  let l ← Comp.get
  modifyEnv fun env => { env with nextHandler := env.nextHandler + 1 }
  pure l.env.nextHandler

/-- Runs a handler: user code takes control here. -/
def invokeHandler (c : Completion) : Comp Local Unit := do
  modifyEnv fun env => { env with invoked := env.invoked ++ [c] }
  Comp.invoke

def Env.send (env : Env) (dest : Endpoint) (opcode : UInt8) (data : List UInt8) : Env :=
  { env with sent := env.sent ++ [⟨dest, opcode :: data⟩] }

/-- `raw_send`: `static_buffer::write` frames the data with the opcode. -/
def rawSend (data : List UInt8) (opcode : UInt8) : Comp Local Unit := do
  let l ← Comp.get
  if opcode ≠ opcodeDisconnect then
    modifyEnv fun env => env.send l.conn.endpoint opcode data
  else do
    let sent ← Comp.ask
    if sent then do
      modifyEnv fun env => env.send l.conn.endpoint opcode data
      modifyConn fun c => { c with disconnectSent := true }
    else Comp.throw

/-- The output callback of `init_kcp_context`, for every datagram of a flush. -/
def Local.output (l : Local) (datagrams : List (List UInt8)) : Local :=
  { l with env := datagrams.foldl (fun env d => env.send l.conn.endpoint opcodeData d) l.env }

def Local.setObj (l : Local) (obj : Ikcpcb) : Local := { l with conn := { l.conn with obj := obj } }

def Local.flush (l : Local) : Local :=
  let (obj, datagrams) := ikcpFlush l.conn.obj
  (l.setObj obj).output datagrams

/-- The loop of `read_op::do_complete`: the stream buffer is drained into until
`ikcp_recv` gives nothing; the flag says that `prepare` has thrown.  Every round
takes a segment off the receive side, which bounds the fuel. -/
def drain : Nat → Ikcpcb → StreamBuf → Ikcpcb × StreamBuf × List UInt8 × Bool
  | 0, obj, buffer => (obj, buffer, [], false)
  | fuel + 1, obj, buffer =>
      if buffer.data.length + 2048 > buffer.maxSize then (obj, buffer, [], true)
      else
        let (n, bytes, obj) := ikcpRecv obj 2048
        if n > 0 then
          let (obj, buffer, moved, threw) :=
            drain fuel obj { buffer with data := buffer.data ++ bytes }
          (obj, buffer, bytes ++ moved, threw)
        else (obj, buffer, [], false)

def Local.deliver (l : Local) (obj : Ikcpcb) (bytes : List UInt8) : Local :=
  { l with conn := { l.conn with obj := obj, delivered := l.conn.delivered ++ bytes } }

def Env.setStreambuf (env : Env) (id : Nat) (content : StreamBuf) : Env :=
  { env with streambufs := fun i => if i = id then content else env.streambufs i }

/-- `operation::complete` of a read operation: whether it is done. -/
def ReadOperation.complete (op : ReadOperation) (ec : ErrorCode) : Comp Local Bool :=
  if ec ≠ .success then do
    invokeHandler ⟨op.handler, ec, 0⟩
    pure true
  else do
    let l ← Comp.get
    match op with
    | .readSome handler size =>
        let (n, bytes, obj) := ikcpRecv l.conn.obj (narrow size)
        if n > 0 then do
          Comp.modify fun l => l.deliver obj bytes
          invokeHandler ⟨handler, ec, n.toNat⟩
          pure true
        else do
          Comp.modify fun l => l.setObj obj
          pure false
    | .read handler buffer need =>
        let fuel := l.conn.obj.rcvQueue.length + l.conn.obj.rcvBuf.length + 1
        let (obj, content, moved, threw) := drain fuel l.conn.obj (l.env.streambufs buffer)
        Comp.modify fun l => l.deliver obj moved
        modifyEnv fun env => env.setStreambuf buffer content
        if threw then do
          modifyEnv fun env => { env with refused := env.refused + 1 }
          Comp.throw
        else if content.data.length ≥ need then do
          invokeHandler ⟨handler, ec, need⟩
          pure true
        else pure false

/-- `operation::complete` of the write operation with this handler. -/
def completeWrite (handler : Nat) (ec : ErrorCode) : Comp Local Bool :=
  if ec ≠ .success then do
    invokeHandler ⟨handler, ec, 0⟩
    pure true
  else do
    let l ← Comp.get
    if ikcpWaitsnd l.conn.obj ≤ idleSendPacketCount then do
      invokeHandler ⟨handler, ec, 0⟩
      pure true
    else pure false

def checkWriteOp (ec : ErrorCode) : Comp Local Unit := do
  let l ← Comp.get
  match l.conn.writeOp with
  | none => pure ()
  | some op => do
      modifyConn fun c => { c with writeOp := none }
      let done ← completeWrite op ec
      if done then pure ()
      else modifyConn fun c => { c with writeOp := some op }

def checkReadOp (ec : ErrorCode) : Comp Local Unit := do
  let l ← Comp.get
  match l.conn.readOp with
  | none => pure ()
  | some op => do
      modifyConn fun c => { c with readOp := none }
      let done ← op.complete ec
      if done then pure ()
      else modifyConn fun c => { c with readOp := some op }
  checkWriteOp ec

/-- `initiate_async_read::operator()`, given the operation it would install. -/
def initiateAsyncRead (op : Nat → ReadOperation) : Comp Local Unit := do
  let handler ← newHandler
  let l ← Comp.get
  if l.conn.readOp ≠ none ∨ l.conn.closed then
    post (.completion ⟨handler, if l.conn.closed then .operationAborted else .inProgress, 0⟩)
  else do
    modifyConn fun c => { c with readOp := some (op handler) }
    post (.checkReadOp l.conn.this)

def asyncReadSome (size : Nat) : Comp Local Unit :=
  initiateAsyncRead fun handler => .readSome handler size

def asyncRead (buffer need : Nat) : Comp Local Unit :=
  initiateAsyncRead fun handler => .read handler buffer need

/-- `initiate_async_write::operator()`. -/
def asyncWrite (buffer : List UInt8) : Comp Local Unit := do
  let handler ← newHandler
  let l ← Comp.get
  if l.conn.writeOp ≠ none ∨ l.conn.closed then
    post (.completion ⟨handler, if l.conn.closed then .operationAborted else .inProgress, 0⟩)
  else
    let (result, obj) := ikcpSend l.conn.obj buffer (narrow buffer.length)
    if result < 0 then do
      modifyConn fun c => { c with nextTick := 0, obj := obj }
      post (.completion ⟨handler, .messageSize, 0⟩)
    else do
      modifyConn fun c => { c with nextTick := 0, obj := obj, accepted := c.accepted ++ buffer }
      if ikcpWaitsnd obj ≤ idleSendPacketCount then
        post (.completion ⟨handler, .success, 0⟩)
      else modifyConn fun c => { c with writeOp := some handler }

/-- `sock_->close(ignore)`: an outstanding receive completes with an error. -/
def Connection.closeSocket (c : Connection) : Connection :=
  { c with
    sockOpen := false
    receiving := false
    receiveQueued := if c.receiving then c.receiveQueued ++ [(.operationAborted, [], 0)]
      else c.receiveQueued }

/-- `timer_->cancel()`: a queued completion stays queued; the handler of a wait
that is cancelled does nothing. -/
def Connection.cancelTimer (c : Connection) : Connection :=
  { c with timerWaiting := false, timerCancels := c.timerCancels + 1 }

def close (ec : ErrorCode) : Comp Local Unit := do
  let l ← Comp.get
  if l.conn.state ≠ .opened then pure ()
  else do
    modifyConn fun c => { c with state := .closed }
    Comp.modify Local.flush
    checkReadOp ec
    rawSend (List.replicate 32 0) opcodeDisconnect
    let l ← Comp.get
    if l.conn.isserver then pure ()
    else modifyConn fun c => c.closeSocket.cancelTimer

/-- `on_receive` of the `size` bytes at the front of the memory `data`. -/
def onReceive (data : List UInt8) (size : Nat) (t : Int) : Comp Local Unit := do
  if size < 24 then pure ()
  else do
    modifyConn fun c =>
      { c with state := if c.state = .idle then .opened else c.state, nowTick := t }
    let opcode := data.getD 0 0
    if opcode = opcodeData then do
      modifyConn fun c =>
        { c with obj := (ikcpInput c.obj (data.drop 1) (size - 1)).2, nextTick := 0 }
      checkReadOp .success
    else if opcode = opcodeDisconnect then close .eof
    else pure ()

/-- `update`, up to its result `now_tick_`. -/
def Local.update (l : Local) (now : Int) : Local :=
  if l.conn.nextTick ≤ now then
    let (obj, datagrams) := ikcpUpdate l.conn.obj (UInt32.ofInt now)
    let l := (l.setObj obj).output datagrams
    let next : Int := (ikcpCheck obj (UInt32.ofInt now)).toNat
    let l := { l with conn := { l.conn with nextTick := next } }
    if next - now < updateInterval then l.flush else l
  else l

def update (now : Int) : Comp Local Int := do
  Comp.modify fun l => l.update now
  let l ← Comp.get
  pure l.conn.nowTick

def startTimer : Comp Local Unit :=
  modifyConn fun c => { c with timerWaiting := true, timersArmed := c.timersArmed + 1 }

/-- The completion handler that `start_timer` gives to the wait, run without an
error when `clock()` is `now`. -/
def timerHandler (now : Int) : Comp Local Unit := do
  let t ← update now
  if now - t > timeoutDuration then close .timedOut
  else startTimer

def doReceive : Comp Local Unit := do
  let l ← Comp.get
  if l.conn.state = .closed then pure ()
  else modifyConn fun c => { c with receiving := true, receivesArmed := c.receivesArmed + 1 }

/-- The completion handler that `do_receive` gives to the receive. -/
def receiveHandler (ec : ErrorCode) (data : List UInt8) (size : Nat) (now : Int) :
    Comp Local Unit :=
  if ec ≠ .success then close ec
  else do
    onReceive data size now
    doReceive

def runClient : Comp Local Unit := do
  let l ← Comp.get
  if l.conn.isserver = false ∧ l.conn.state = .idle then do
    modifyConn fun c => { c with state := .opened }
    doReceive
    startTimer
  else pure ()

end AsioKcp
