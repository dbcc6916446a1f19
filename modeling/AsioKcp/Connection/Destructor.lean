import AsioKcp.Connection.Quiescence

/-! # The destructor of a connection

`~connection` closes the connection when its last owner is gone, so that
`shared_from_this` in `raw_send` throws `bad_weak_ptr`. -/
set_option autoImplicit false

namespace AsioKcp

open AsioKcp.Ikcp AsioKcp.Callback AsioKcp.Machine

section Destructor
-- what a call of `shared_from_this` does without an owner
variable (share : Comp Local Unit)

/-- `raw_send` without an owner: only the disconnect datagram needs none. -/
def rawSendExpired (data : List UInt8) (opcode : UInt8) : Comp Local Unit :=
  if opcode ≠ opcodeDisconnect then share else rawSend data opcode

/-- The output callback, for every datagram of a flush. -/
def outputExpired : List (List UInt8) → Comp Local Unit
  | [] => pure ()
  | d :: rest => do
      rawSendExpired share d opcodeData
      outputExpired rest

/-- `ikcp_flush`; an exception of its callback leaves it in the middle. -/
def flushExpired : Comp Local Unit := do
  let l ← Comp.get
  outputExpired share (ikcpFlush l.conn.obj).2
  Comp.modify fun l => l.setObj (ikcpFlush l.conn.obj).1

/-- The end of `close`, with the disconnect datagram. -/
def disconnectExpired : Comp Local Unit := do
  rawSendExpired share (List.replicate 32 0) opcodeDisconnect
  let l ← Comp.get
  if l.conn.isserver then pure ()
  else modifyConn fun c => c.closeSocket.cancelTimer

/-- `close` as the destructor runs it. -/
def closeExpired (ec : ErrorCode) : Comp Local Unit := do
  let l ← Comp.get
  if l.conn.state ≠ .opened then pure ()
  else do
    modifyConn fun c => { c with state := .closed }
    flushExpired share
    checkReadOp ec
    disconnectExpired share

/-- `~connection`, up to the deletion of the socket. -/
def destroy : Comp Local Unit := closeExpired share .operationAborted

end Destructor

/-- The destructor never calls `shared_from_this`: it does the same whatever that does. -/
def NeverShares (l : Local) : Prop := ∀ share, destroy share l = destroy Comp.throw l

/-- Handlers may do what they like, and throw where `throwing` says so; the send of
the disconnect datagram may fail where `failing` does. -/
def parting (failing throwing : Prop) : Contract Local where
  relies P := P = fun _ => True
  passes _ := throwing
  answers _ b := failing ∨ b = true
  guarantee _ _ := True
  refl _ := trivial
  trans _ _ := trivial

/-- No exception leaves the code. -/
def Quietly (failing throwing : Prop) (start : Local) (p : Prog Local Unit) : Prop :=
  p.Meets (parting failing throwing) (fun _ _ => True) (fun _ => False) start

/-- No exception leaves the destructor. -/
def DestroyedSafely (failing throwing : Prop) (l : Local) : Prop :=
  Quietly failing throwing l (destroy Comp.throw l)

section Quietly
variable {failing throwing : Prop} {ec : ErrorCode} (start l : Local)

/-- A handler that is invoked may throw, and what follows it starts anywhere. -/
theorem quietly_invoke (back : Local → Prog Local Unit) (after : Comp Local Unit) :
    Quietly failing throwing start
        ((Prog.invoke l back fun t => .throw t).bind fun _ => after) ↔
      (∀ t, Quietly failing throwing t ((back t).bind fun _ => after)) ∧ ¬ throwing := by
  constructor
  · rintro ⟨_, _, rfl, _, rest⟩
    exact ⟨fun t => (rest t trivial).1, fun threw => ((rest l trivial).2 threw).2⟩
  · rintro ⟨rest, never⟩
    exact ⟨trivial, _, rfl, trivial, fun t _ => ⟨rest t, fun threw => absurd threw never⟩⟩

theorem disconnect_quietly (share : Comp Local Unit) :
    Quietly failing throwing start (disconnectExpired share l) ↔ ¬ failing := by
  have same : ¬ opcodeDisconnect ≠ opcodeDisconnect := fun other => other rfl
  simp only [disconnectExpired, rawSendExpired, if_neg same, rawSend, Comp.bind_apply,
    Comp.get_apply, Comp.ask_apply, Prog.bind_ret, Prog.bind_ask, Comp.ite_apply, modifyEnv,
    modifyConn, Comp.modify_apply]
  constructor
  · rintro ⟨_, answered⟩ fails
    exact (answered false (Or.inl fails)).2
  · intro succeeds
    refine ⟨trivial, fun sent answer => ?_⟩
    have sends : sent = true := answer.resolve_left succeeds
    subst sends
    simp only [if_true, Prog.bind_ret, Comp.bind_apply, Comp.get_apply, Comp.ite_apply]
    change Prog.Meets _ _ _ _ (if l.conn.isserver = true then _ else _)
    split <;> exact ⟨trivial, trivial⟩

theorem checkWriteOp_quietly (share : Comp Local Unit) (failed : ec ≠ .success) :
    Quietly failing throwing start ((checkWriteOp ec l).bind fun _ => disconnectExpired share) ↔
      ¬ failing ∧ (throwing → l.conn.writeOp = none) := by
  cases writeOp : l.conn.writeOp with
  | none =>
      rw [checkWriteOp_none writeOp, Prog.bind_ret, disconnect_quietly]
      simp
  | some handler =>
      rw [checkWriteOp_ready writeOp (Or.inl failed), quietly_invoke]
      simp only [Prog.bind_ret, disconnect_quietly, reduceCtorEq, imp_false]
      exact ⟨fun both => ⟨both.1 l, both.2⟩, fun both => ⟨fun _ => both.1, both.2⟩⟩

/-- A poll with an error hands both operations it finds to their handlers. -/
theorem checkReadOp_quietly (share : Comp Local Unit) (failed : ec ≠ .success) :
    Quietly failing throwing start ((checkReadOp ec l).bind fun _ => disconnectExpired share) ↔
      ¬ failing ∧ (throwing → l.conn.slots = []) := by
  cases readOp : l.conn.readOp with
  | none =>
      have slots : l.conn.slots = [] ↔ l.conn.writeOp = none := by
        simp [Connection.slots, readOp]
      rw [checkReadOp_none readOp, checkWriteOp_quietly start l share failed, slots]
  | some op =>
      have polled : pollRead ec op l = (.done, l.takeRead.record ⟨op.handler, ec, 0⟩) :=
        if_pos failed
      have slots : l.conn.slots ≠ [] := by simp [Connection.slots, readOp]
      rw [checkReadOp_some readOp, polled]
      refine (quietly_invoke start _ (checkWriteOp ec) _).trans ?_
      simp only [checkWriteOp_quietly _ _ share failed]
      constructor
      · rintro ⟨rest, never⟩
        exact ⟨(rest l).1, fun threw => absurd threw never⟩
      · rintro ⟨succeeds, free⟩
        have never : ¬ throwing := fun threw => slots (free threw)
        exact ⟨fun _ => ⟨succeeds, fun threw => absurd threw never⟩, never⟩

end Quietly

section Shares
variable {l : Local}

theorem flushExpired_silent (share : Comp Local Unit) (silent : (ikcpFlush l.conn.obj).2 = []) :
    flushExpired share l = .ret (l.setObj (ikcpFlush l.conn.obj).1) () := by
  simp only [flushExpired, Comp.bind_apply, Comp.get_apply, Prog.bind_ret, silent, outputExpired,
    Comp.pure_apply, Comp.modify_apply]

/-- The first datagram of a flush calls `shared_from_this`. -/
theorem flushExpired_shares (share : Comp Local Unit) (some : (ikcpFlush l.conn.obj).2 ≠ []) :
    ∃ rest : Comp Local Unit, flushExpired share l = (share l).bind fun _ => rest := by
  cases datagrams : (ikcpFlush l.conn.obj).2 with
  | nil => exact absurd datagrams some
  | cons d rest =>
      have other : opcodeData ≠ opcodeDisconnect := by decide
      refine ⟨(do
        outputExpired share rest
        Comp.modify fun l => l.setObj (ikcpFlush l.conn.obj).1), ?_⟩
      simp only [flushExpired, Comp.bind_apply, Comp.get_apply, Prog.bind_ret, datagrams,
        outputExpired, rawSendExpired, if_pos other, Prog.bind_assoc]
      rfl

theorem destroy_opened (share : Comp Local Unit) (opened : l.conn.state = .opened) :
    destroy share l = (flushExpired share { l with conn := { l.conn with state := .closed } }).bind
      fun _ => (do
        checkReadOp .operationAborted
        disconnectExpired share) := by
  simp only [destroy, closeExpired, Comp.bind_apply, Comp.get_apply, Prog.bind_ret,
    Comp.ite_apply, opened, ne_eq, not_true_eq_false, if_false, modifyConn, Comp.modify_apply]

theorem destroy_not_opened (share : Comp Local Unit) (other : l.conn.state ≠ .opened) :
    destroy share l = .ret l () := by
  simp only [destroy, closeExpired, Comp.bind_apply, Comp.get_apply, Prog.bind_ret,
    Comp.ite_apply, if_pos other, Comp.pure_apply]

/-- A connection that is opened with something due calls `shared_from_this` first of all. -/
theorem destroy_shares (share : Comp Local Unit) (opened : l.conn.state = .opened)
    (due : flushDue l.conn.obj) : ∃ rest : Comp Local Unit, destroy share l =
      (share { l with conn := { l.conn with state := .closed } }).bind fun _ => rest := by
  have some : (ikcpFlush l.conn.obj).2 ≠ [] := fun silent => (ikcpFlush_silent_iff _).mp silent due
  obtain ⟨rest, flushed⟩ := flushExpired_shares
    (l := { l with conn := { l.conn with state := .closed } }) share some
  rw [destroy_opened share opened, flushed, Prog.bind_assoc]
  exact ⟨_, rfl⟩

theorem destroy_silent (share : Comp Local Unit) (opened : l.conn.state = .opened)
    (quiet : ¬ flushDue l.conn.obj) : ∃ flushed : Local, flushed.conn.slots = l.conn.slots ∧
      destroy share l = (checkReadOp .operationAborted flushed).bind fun _ =>
        disconnectExpired share := by
  have silent := (ikcpFlush_silent_iff l.conn.obj).mpr quiet
  rw [destroy_opened share opened,
    flushExpired_silent (l := { l with conn := { l.conn with state := .closed } }) share silent]
  refine ⟨_, ?_, Prog.bind_ret _ _ _⟩
  rfl

theorem neverShares_iff : NeverShares l ↔ ¬ (l.conn.state = .opened ∧ flushDue l.conn.obj) := by
  constructor
  · rintro never ⟨opened, due⟩
    -- an action that asks is told from one that throws
    have same := never (Comp.ask >>= fun _ => pure ())
    obtain ⟨_, asks⟩ := destroy_shares (Comp.ask >>= fun _ => pure ()) opened due
    obtain ⟨_, throws⟩ := destroy_shares Comp.throw opened due
    rw [asks, throws] at same
    cases same
  · intro quiet share
    by_cases opened : l.conn.state = .opened
    · have silent := (ikcpFlush_silent_iff l.conn.obj).mpr fun due => quiet ⟨opened, due⟩
      rw [destroy_opened share opened, destroy_opened Comp.throw opened,
        flushExpired_silent (l := { l with conn := { l.conn with state := .closed } }) _ silent,
        flushExpired_silent (l := { l with conn := { l.conn with state := .closed } }) _ silent]
      rfl
    · rw [destroy_not_opened share opened, destroy_not_opened Comp.throw opened]

theorem destroy_throws (failing throwing : Prop) (opened : l.conn.state = .opened)
    (due : flushDue l.conn.obj) : ¬ DestroyedSafely failing throwing l := by
  obtain ⟨_, throws⟩ := destroy_shares Comp.throw opened due
  rw [DestroyedSafely, throws]
  exact fun safe => safe.2

end Shares

/-- The destructor calls `shared_from_this` exactly if the connection is opened and
its flush has an ack, a probe or a segment to send.  Where it does not, what still
can throw is the disconnect send and the handlers of the pending operations. -/
theorem destroyed_safely_iff (failing throwing : Prop) (l : Local) :
    (NeverShares l ↔ ¬ (l.conn.state = .opened ∧ flushDue l.conn.obj)) ∧
    ((NeverShares l ∧ DestroyedSafely failing throwing l) ↔ (l.conn.state = .opened →
      ¬ flushDue l.conn.obj ∧ ¬ failing ∧ (throwing → l.conn.slots = []))) := by
  refine ⟨neverShares_iff, ?_⟩
  rw [neverShares_iff]
  by_cases opened : l.conn.state = .opened
  · by_cases due : flushDue l.conn.obj
    · exact ⟨fun safe => absurd ⟨opened, due⟩ safe.1, fun quiet => absurd due (quiet opened).1⟩
    · obtain ⟨flushed, slots, destroyed⟩ := destroy_silent Comp.throw opened due
      rw [DestroyedSafely, destroyed, checkReadOp_quietly l flushed Comp.throw (by simp), slots]
      exact ⟨fun safe _ => ⟨due, safe.2⟩, fun quiet => ⟨fun both => due both.2, (quiet opened).2⟩⟩
  · rw [DestroyedSafely, destroy_not_opened _ opened]
    exact ⟨fun _ isOpened => absurd isOpened opened,
      fun _ => ⟨fun both => opened both.1, trivial, trivial⟩⟩

/-- A client with two writes, the first of them flushed. -/
def unsentWrite : List (Label Event Call) :=
  [.call (.asyncWrite [1]), .event (.update 0), .call (.asyncWrite [2])]

/-- It throws even where no send and no handler fails. -/
theorem destroyed_with_unsent_data :
    ¬ ∀ c : Config Local, connectionSystem.Steps (fun _ _ => True)
      (clientStart 7 loopback 0 noStreambufs) c →
        NeverShares c.state ∧ DestroyedSafely False False c.state := by
  intro claimed
  obtain ⟨c, ran, checked⟩ := run_checked connectionSystem (clientStart 7 loopback 0 noStreambufs)
    unsentWrite (fun c => decide (c.state.conn.state = .opened ∧ flushDue c.state.conn.obj))
    (by decide)
  have run := steps_of_run connectionSystem (fun _ => True) _ (fun _ _ => trivial) ran
  have due := of_decide_eq_true checked
  exact destroy_throws False False due.1 due.2 (claimed c run).2

end AsioKcp
