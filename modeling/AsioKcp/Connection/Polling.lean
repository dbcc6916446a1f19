import AsioKcp.Connection.Code

/-! # One poll of the pending operations

`check_read_op` and `check_write_op` are the only functions that run handlers.
Each is one step of pure code, `pollRead` or `pollWrite`, that leaves the
operation pending, drops it with an exception, or ends in the invocation. -/
set_option autoImplicit false

namespace AsioKcp

open AsioKcp.Ikcp AsioKcp.Callback

inductive Poll where
  | pending
  | refused
  | done
  deriving DecidableEq

def Local.takeRead (l : Local) : Local := { l with conn := { l.conn with readOp := none } }

def Local.takeWrite (l : Local) : Local := { l with conn := { l.conn with writeOp := none } }

def Local.record (l : Local) (c : Completion) : Local :=
  { l with env := { l.env with invoked := l.env.invoked ++ [c] } }

def Local.setStreambuf (l : Local) (id : Nat) (content : StreamBuf) : Local :=
  { l with env := l.env.setStreambuf id content }

def Local.refuse (l : Local) : Local :=
  { l with env := { l.env with refused := l.env.refused + 1 } }

/-- The fuel with which `read_op::do_complete` drains a control block. -/
def drainFuel (obj : Ikcpcb) : Nat := obj.rcvQueue.length + obj.rcvBuf.length + 1

/-- The read of a `read_op` out of a connection into its stream buffer. -/
def Local.drained (l : Local) (buffer : Nat) : Ikcpcb × StreamBuf × List UInt8 × Bool :=
  drain (drainFuel l.conn.obj) l.conn.obj (l.env.streambufs buffer)

def Local.afterDrain (l : Local) (buffer : Nat) : Local :=
  (l.deliver (l.drained buffer).1 (l.drained buffer).2.2.1).setStreambuf buffer
    (l.drained buffer).2.1

/-- The pending read operation `op` is polled with `ec`. -/
def pollRead (ec : ErrorCode) (op : ReadOperation) (l : Local) : Poll × Local :=
  if ec ≠ .success then (.done, l.takeRead.record ⟨op.handler, ec, 0⟩)
  else match op with
    | .readSome handler size =>
        let result := ikcpRecv l.conn.obj (narrow size)
        if result.1 > 0 then
          (.done, (l.takeRead.deliver result.2.2 result.2.1).record ⟨handler, ec, result.1.toNat⟩)
        else (.pending, l.setObj result.2.2)
    | .read handler buffer need =>
        let after := l.afterDrain buffer
        if (l.drained buffer).2.2.2 then (.refused, after.takeRead.refuse)
        else if (l.drained buffer).2.1.data.length ≥ need then
          (.done, after.takeRead.record ⟨handler, ec, need⟩)
        else (.pending, after)

/-- Whether the pending write operation is done when polled with `ec`. -/
def writeReady (ec : ErrorCode) (l : Local) : Prop :=
  ec ≠ .success ∨ ikcpWaitsnd l.conn.obj ≤ idleSendPacketCount

instance (ec : ErrorCode) (l : Local) : Decidable (writeReady ec l) :=
  inferInstanceAs (Decidable (_ ∨ _))

theorem checkWriteOp_none {ec : ErrorCode} {l : Local} (empty : l.conn.writeOp = none) :
    checkWriteOp ec l = .ret l () := by
  simp [checkWriteOp, empty]

theorem checkWriteOp_ready {ec : ErrorCode} {l : Local} {handler : Nat}
    (pending : l.conn.writeOp = some handler) (ready : writeReady ec l) :
    checkWriteOp ec l = .invoke (l.takeWrite.record ⟨handler, ec, 0⟩)
      (fun t => .ret t ()) (fun t => .throw t) := by
  by_cases failed : ec = .success
  · have low : ikcpWaitsnd l.conn.obj ≤ idleSendPacketCount := ready.resolve_left (by simp [failed])
    simp [checkWriteOp, pending, completeWrite, failed, invokeHandler, modifyEnv, modifyConn, low,
      Local.record, Local.takeWrite]
  · simp [checkWriteOp, pending, completeWrite, failed, invokeHandler, modifyEnv, modifyConn,
      Local.record, Local.takeWrite]

theorem checkWriteOp_pending {ec : ErrorCode} {l : Local} (waiting : ¬ writeReady ec l) :
    checkWriteOp ec l = .ret l () := by
  obtain ⟨success, high⟩ := not_or.mp waiting
  obtain ⟨⟨_, _, _, _, _, _, _, obj, _, writeOp, _, _, _, _, _, _, _, _, _, _, _⟩, env⟩ := l
  cases writeOp with
  | none => exact checkWriteOp_none rfl
  | some handler =>
      have polled : ec = .success := Decidable.not_not.mp success
      have above : ¬ ikcpWaitsnd obj ≤ idleSendPacketCount := high
      simp [checkWriteOp, completeWrite, polled, above, modifyConn]

theorem checkReadOp_none {ec : ErrorCode} {l : Local} (empty : l.conn.readOp = none) :
    checkReadOp ec l = checkWriteOp ec l := by
  simp [checkReadOp, empty]

/-- The normal form of `check_read_op` on a pending operation. -/
theorem checkReadOp_some {ec : ErrorCode} {l : Local} {op : ReadOperation}
    (pending : l.conn.readOp = some op) :
    checkReadOp ec l = match pollRead ec op l with
      | (.pending, l') => checkWriteOp ec l'
      | (.refused, l') => .throw l'
      | (.done, l') => .invoke l' (checkWriteOp ec) (fun t => .throw t) := by
  obtain ⟨⟨_, _, _, _, _, _, _, obj, readOp, _, _, _, _, _, _, _, _, _, _, _, _⟩, env⟩ := l
  simp only at pending
  subst pending
  by_cases failed : ec = .success
  · cases op with
    | readSome handler size =>
        by_cases some : (ikcpRecv obj (narrow size)).1 > 0
        · simp [checkReadOp, ReadOperation.complete, pollRead, failed, some, modifyConn, modifyEnv,
            invokeHandler, Local.takeRead, Local.record, Local.deliver]
        · simp [checkReadOp, ReadOperation.complete, pollRead, failed, some, modifyConn,
            Local.setObj]
    | read handler buffer need =>
        simp only [checkReadOp, ReadOperation.complete, pollRead, failed, modifyConn, modifyEnv,
          invokeHandler, Comp.bind_apply, Comp.get_apply, Prog.bind_ret, Comp.modify_apply,
          Local.drained, Local.afterDrain, drainFuel, ne_eq, not_true_eq_false, if_false]
        split_ifs <;> rfl
  · simp [checkReadOp, ReadOperation.complete, pollRead, failed, modifyConn, modifyEnv,
      invokeHandler, Local.takeRead, Local.record]

end AsioKcp
