import AsioKcp.Connection.Polling
import AsioKcp.Connection.System

/-! # What the code of a connection can do

Every run of a connection is a sequence of `Act`s: the code between two points
where it gives control away, and the user's calls.  An event begins with its
`entry`, and goes on with acts.  `Terms` are the assumptions of a run. -/
set_option autoImplicit false

namespace AsioKcp

open AsioKcp.Ikcp AsioKcp.Callback AsioKcp.Machine

def Local.closed (l : Local) : Prop := l.conn.state = .closed

/-- The datagrams that the output callback hands to the socket. -/
def dataDatagrams (dest : Endpoint) (datagrams : List (List UInt8)) : List Datagram :=
  datagrams.map fun d => ⟨dest, opcodeData :: d⟩

theorem output_eq (l : Local) (datagrams : List (List UInt8)) :
    l.output datagrams = { l with env := { l.env with
      sent := l.env.sent ++ dataDatagrams l.conn.endpoint datagrams } } := by
  have sends : ∀ (env : Env), datagrams.foldl
      (fun env d => env.send l.conn.endpoint opcodeData d) env =
      { env with sent := env.sent ++ dataDatagrams l.conn.endpoint datagrams } := by
    induction datagrams with
    | nil => intro env; simp [dataDatagrams]
    | cons d rest ih =>
        intro env
        rw [List.foldl_cons, ih]
        simp [Env.send, dataDatagrams]
  rw [Local.output, sends]

theorem flush_eq (l : Local) :
    l.flush = ⟨{ l.conn with obj := (ikcpFlush l.conn.obj).1 }, { l.env with
      sent := l.env.sent ++ dataDatagrams l.conn.endpoint (ikcpFlush l.conn.obj).2 }⟩ :=
  output_eq (l.setObj (ikcpFlush l.conn.obj).1) (ikcpFlush l.conn.obj).2

/-- A call takes its handler and posts its completion. -/
def Local.postCompletion (l : Local) (ec : ErrorCode) : Local :=
  { l with env := { l.env with
      nextHandler := l.env.nextHandler + 1
      posted := l.env.posted ++ [.completion ⟨l.env.nextHandler, ec, 0⟩] } }

def Local.installRead (l : Local) (op : Nat → ReadOperation) : Local where
  conn := { l.conn with readOp := some (op l.env.nextHandler) }
  env := { l.env with
    nextHandler := l.env.nextHandler + 1
    posted := l.env.posted ++ [.checkReadOp l.conn.this] }

def Local.installWrite (l : Local) : Local where
  conn := { l.conn with writeOp := some l.env.nextHandler }
  env := { l.env with nextHandler := l.env.nextHandler + 1 }

/-- The result of `ikcp_send` for a buffer of `async_write`. -/
def Local.sendResult (l : Local) (buffer : List UInt8) : Int × Ikcpcb :=
  ikcpSend l.conn.obj buffer (narrow buffer.length)

def Local.write (l : Local) (buffer : List UInt8) : Local :=
  { l with conn := { l.conn with
      nextTick := 0, obj := (l.sendResult buffer).2, accepted := l.conn.accepted ++ buffer } }

def Local.writeRefused (l : Local) (buffer : List UInt8) : Local :=
  { l with conn := { l.conn with nextTick := 0, obj := (l.sendResult buffer).2 } }

/-- `close` up to its poll of the operations. -/
def Local.beginClose (l : Local) : Local :=
  Local.flush { l with conn := { l.conn with state := .closed } }

/-- The end of `close`, once the disconnect datagram is handed over. -/
def Local.disconnect (l : Local) : Local :=
  let conn := { l.conn with disconnectSent := true }
  { conn := if conn.isserver then conn else conn.closeSocket.cancelTimer
    env := l.env.send l.conn.endpoint opcodeDisconnect (List.replicate 32 0) }

def Local.armReceive (l : Local) : Local :=
  { l with conn := { l.conn with
      receiving := true, receivesArmed := l.conn.receivesArmed + 1 } }

/-- What a run assumes.  Under `strict` no handler lets an exception pass and no
`close` is given the success code; under `reliable` no disconnect send fails;
`calls` says which calls the user makes in which state. -/
structure Terms where
  strict : Prop
  reliable : Prop
  calls : Call → Local → Prop
  closes : strict → ∀ ec l, calls (.close ec) l → ec ≠ .success

inductive Act (T : Terms) : Local → Local → Prop
  | refuseRead {l : Local} : l.conn.readOp ≠ none ∨ l.conn.closed →
      Act T l (l.postCompletion (if l.conn.closed then .operationAborted else .inProgress))
  | readSome {l : Local} (size : Nat) : T.calls (.asyncReadSome size) l →
      l.conn.readOp = none → ¬ l.closed → Act T l (l.installRead fun h => .readSome h size)
  | read {l : Local} (buffer need : Nat) : T.calls (.asyncRead buffer need) l →
      l.conn.readOp = none → ¬ l.closed → Act T l (l.installRead fun h => .read h buffer need)
  | refuseWrite {l : Local} : l.conn.writeOp ≠ none ∨ l.conn.closed →
      Act T l (l.postCompletion (if l.conn.closed then .operationAborted else .inProgress))
  | messageSize {l : Local} (buffer : List UInt8) : T.calls (.asyncWrite buffer) l →
      l.conn.writeOp = none → ¬ l.closed → (l.sendResult buffer).1 < 0 →
      Act T l ((l.writeRefused buffer).postCompletion .messageSize)
  | write {l : Local} (buffer : List UInt8) : T.calls (.asyncWrite buffer) l →
      l.conn.writeOp = none → ¬ l.closed → ¬ (l.sendResult buffer).1 < 0 →
      Act T l ((l.write buffer).postCompletion .success)
  | writePending {l : Local} (buffer : List UInt8) : T.calls (.asyncWrite buffer) l →
      l.conn.writeOp = none → ¬ l.closed → ¬ (l.sendResult buffer).1 < 0 →
      Act T l (l.write buffer).installWrite
  | streambuf {l : Local} (id : Nat) (content : StreamBuf) : Act T l (l.setStreambuf id content)
  /-- Only `close` polls with an error, and in a strict run nothing is left to
  poll once a connection is closed. -/
  | pollRead {l : Local} (ec : ErrorCode) (op : ReadOperation) : l.conn.readOp = some op →
      (ec ≠ .success → l.closed) → (T.strict → ec = .success → ¬ l.closed) →
      Act T l (pollRead ec op l).2
  | pollWrite {l : Local} (ec : ErrorCode) (handler : Nat) : l.conn.writeOp = some handler →
      writeReady ec l → (ec ≠ .success → l.closed) → (T.strict → ec = .success → ¬ l.closed) →
      Act T l (l.takeWrite.record ⟨handler, ec, 0⟩)
  | beginClose {l : Local} : l.conn.state = .opened → Act T l l.beginClose
  | disconnect {l : Local} : l.closed → l.conn.disconnectSent = false → Act T l l.disconnect
  | armReceive {l : Local} : ¬ l.closed → Act T l l.armReceive

def Acts (T : Terms) : Local → Local → Prop := Relation.ReflTransGen (Act T)

/-- What other connections may do to the environment meanwhile. -/
structure Env.Grows (env env' : Env) : Prop where
  sent : env.sent <+: env'.sent
  invoked : env.invoked <+: env'.invoked
  refused : env.refused ≤ env'.refused
  nextHandler : env.nextHandler ≤ env'.nextHandler

/-- A predicate that acts keep, of this connection and of others. -/
structure Stable (T : Terms) (J : Local → Prop) : Prop where
  act : ∀ {l l'}, Act T l l' → J l → J l'
  env : ∀ {l : Local} {env'}, l.env.Grows env' → J l → J { l with env := env' }

/-- Where in its code a connection may be when a handler runs: outside of
`close`, or in one of its two polls. -/
inductive Phase where
  | settled
  | closingRead
  | closingWrite

def Phase.Holds (T : Terms) : Phase → Local → Prop
  | .settled, l => (l.conn.disconnectSent = true → l.closed) ∧
      (T.strict → l.closed → l.conn.readOp = none ∧ l.conn.writeOp = none) ∧
      (T.strict → T.reliable → l.closed → l.conn.disconnectSent = true)
  | .closingRead, l => l.closed ∧ l.conn.disconnectSent = false ∧
      (T.strict → l.conn.readOp = none)
  | .closingWrite, l => l.closed ∧ l.conn.disconnectSent = false ∧
      (T.strict → l.conn.readOp = none ∧ l.conn.writeOp = none)

/-- The contract of code whose exceptions matter to its caller: where it is
`firm`, neither its handlers nor its disconnect sends fail. -/
def Terms.contract (T : Terms) (firm : Prop) : Contract Local where
  relies P := ∃ phase J, Stable T J ∧ ∀ l, P l ↔ Phase.Holds T phase l ∧ J l
  passes _ := ¬ T.strict ∧ ¬ firm
  answers _ b := T.reliable ∨ firm → b = true
  guarantee := Acts T
  refl _ := Relation.ReflTransGen.refl
  trans := Relation.ReflTransGen.trans

/-- The handler has been invoked with an error. -/
def Env.Failed (env : Env) (handler : Nat) : Prop :=
  ∃ c ∈ env.invoked, c.handler = handler ∧ c.ec ≠ .success

/-- The poll of the pending read finds too little room in its stream buffer. -/
def Refuses (l : Local) : Prop :=
  ∃ op, l.conn.readOp = some op ∧ (pollRead .success op l).1 = .refused

instance (l : Local) : Decidable (Refuses l) :=
  inferInstanceAs (Decidable (∃ op ∈ l.conn.readOp, _ = _))

end AsioKcp
