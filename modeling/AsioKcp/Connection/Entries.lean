import AsioKcp.Connection.Frames

/-! # The entries of events

The entry of an event is what it does before it runs the first poll or `close`. -/
set_option autoImplicit false

namespace AsioKcp

open AsioKcp.Ikcp AsioKcp.Callback AsioKcp.Machine

/-- `on_receive` up to its poll or its `close`. -/
def Local.received (l : Local) (data : List UInt8) (size : Nat) (t : Int) : Local :=
  if size < 24 then l
  else
    let conn := { l.conn with
      state := if l.conn.state = .idle then .opened else l.conn.state, nowTick := t }
    if data.getD 0 0 = opcodeData then
      { l with conn := { conn with
          obj := (ikcpInput l.conn.obj (data.drop 1) (size - 1)).2, nextTick := 0 } }
    else { l with conn := conn }

/-- The completion handler of the timer up to its `close`. -/
def Local.timerEntry (l : Local) (now : Int) : Local :=
  let after := Local.update { l with conn := { l.conn with timerQueued := l.conn.timerQueued - 1 } } now
  if now - after.conn.nowTick > timeoutDuration then after
  else { after with conn := { after.conn with
      timerWaiting := true, timersArmed := after.conn.timersArmed + 1 } }

/-- What an event does before it runs the first poll or `close`. -/
def entry (e : Event) (l : Local) : Local :=
  match e with
  | .posted i =>
      match l.env.posted[i]? with
      | none => l
      | some task =>
          let l := { l with env := { l.env with posted := l.env.posted.eraseIdx i } }
          match task with
          | .completion c => l.record c
          | .checkReadOp _ => l
  | .onReceive data size t => l.received data size t
  | .update now => l.update now
  | .tick now => l.update now
  | .timerExpires => { l with conn := l.conn.timerExpired }
  | .timerRuns now => if l.conn.timerQueued = 0 then l else l.timerEntry now
  | .receiveCompletes ec data size => { l with conn := l.conn.receiveCompleted ec data size }
  | .receiveRuns now =>
      match l.conn.receiveQueued with
      | [] => l
      | (ec, data, size) :: rest =>
          let l := { l with conn := { l.conn with receiveQueued := rest } }
          if ec ≠ .success then l else l.received data size now

theorem onReceive_eq (data : List UInt8) (size : Nat) (t : Int) (l : Local) :
    onReceive data size t l =
      if size < 24 then .ret l ()
      else if data.getD 0 0 = opcodeData then checkReadOp .success (l.received data size t)
      else if data.getD 0 0 = opcodeDisconnect then close .eof (l.received data size t)
      else .ret (l.received data size t) () := by
  unfold onReceive Local.received
  by_cases short : size < 24
  · simp only [if_pos short, Comp.pure_apply]
  · simp only [if_neg short, modifyConn, Comp.bind_apply, Comp.modify_apply, Prog.bind_ret]
    split
    · rfl
    · split <;> rfl

/-- The new control block and `next_tick_` of an update, and its datagrams. -/
def updateEffect (c : Connection) (now : Int) : Ikcpcb × Int × List (List UInt8) :=
  if c.nextTick ≤ now then
    let updated := ikcpUpdate c.obj (UInt32.ofInt now)
    let next : Int := (ikcpCheck updated.1 (UInt32.ofInt now)).toNat
    if next - now < updateInterval then
      ((ikcpFlush updated.1).1, next, updated.2 ++ (ikcpFlush updated.1).2)
    else (updated.1, next, updated.2)
  else (c.obj, c.nextTick, [])

theorem update_eq (l : Local) (now : Int) : l.update now =
    ⟨{ l.conn with obj := (updateEffect l.conn now).1, nextTick := (updateEffect l.conn now).2.1 },
      { l.env with sent := l.env.sent ++
          dataDatagrams l.conn.endpoint (updateEffect l.conn now).2.2 }⟩ := by
  unfold Local.update updateEffect
  split
  · simp only [output_eq, flush_eq, Local.setObj]
    split
    · simp only [dataDatagrams, List.map_append, List.append_assoc]
    · rfl
  · simp [dataDatagrams]

theorem update_onward (l : Local) (now : Int) : Onward l (l.update now) := by
  rw [update_eq]
  exact ⟨rfl, Iff.rfl, id, ⟨List.prefix_append _ _, List.prefix_refl _, le_refl _, le_refl _⟩,
    _, rfl, unanswering_data _ _⟩

/-- A datagram opens an idle connection and sets the time of the last receive. -/
theorem received_frame (l : Local) (data : List UInt8) (size : Nat) (t : Int) :
    (l.received data size t).conn.this = l.conn.this ∧
      (l.received data size t).conn.conv = l.conn.conv ∧
      (l.received data size t).conn.endpoint = l.conn.endpoint ∧
      (l.received data size t).env = l.env := by
  unfold Local.received
  dsimp only
  split_ifs <;> exact ⟨rfl, rfl, rfl, rfl⟩

/-- What the entry of an event leaves alone. -/
structure SameControl (l l' : Local) : Prop where
  closed : l'.closed ↔ l.closed
  disconnectSent : l'.conn.disconnectSent = l.conn.disconnectSent
  readOp : l'.conn.readOp = l.conn.readOp
  writeOp : l'.conn.writeOp = l.conn.writeOp

theorem received_control (l : Local) (data : List UInt8) (size : Nat) (t : Int) :
    SameControl l (l.received data size t) := by
  have opens : (if l.conn.state = .idle then ConnectionState.opened else l.conn.state) = .closed ↔
      l.conn.state = .closed := by
    split
    · rename_i idle
      simp [idle]
    · rfl
  unfold Local.received
  split
  · exact ⟨Iff.rfl, rfl, rfl, rfl⟩
  · dsimp only
    split <;> exact ⟨opens, rfl, rfl, rfl⟩

theorem update_control (l : Local) (now : Int) : SameControl l (l.update now) := by
  rw [update_eq]
  exact ⟨Iff.rfl, rfl, rfl, rfl⟩

theorem entry_control (e : Event) (l : Local) : SameControl l (entry e l) := by
  have same : SameControl l l := ⟨Iff.rfl, rfl, rfl, rfl⟩
  unfold entry
  cases e with
  | posted i =>
      dsimp only
      split
      · exact same
      · split <;> exact ⟨Iff.rfl, rfl, rfl, rfl⟩
  | onReceive data size t => exact received_control l data size t
  | update now => exact update_control l now
  | tick now => exact update_control l now
  | timerExpires =>
      dsimp only [Connection.timerExpired]
      split <;> exact ⟨Iff.rfl, rfl, rfl, rfl⟩
  | timerRuns now =>
      have updated := update_control
        { l with conn := { l.conn with timerQueued := l.conn.timerQueued - 1 } } now
      dsimp only
      split
      · exact same
      · unfold Local.timerEntry
        dsimp only
        split
        · exact ⟨updated.closed, updated.disconnectSent, updated.readOp, updated.writeOp⟩
        · exact ⟨updated.closed, updated.disconnectSent, updated.readOp, updated.writeOp⟩
  | receiveCompletes ec data size =>
      dsimp only [Connection.receiveCompleted]
      split <;> exact ⟨Iff.rfl, rfl, rfl, rfl⟩
  | receiveRuns now =>
      dsimp only
      split
      · exact same
      · rename_i ec data size rest shape
        split
        · exact ⟨Iff.rfl, rfl, rfl, rfl⟩
        · have received := received_control
            { l with conn := { l.conn with receiveQueued := rest } } data size now
          exact ⟨received.closed, received.disconnectSent, received.readOp, received.writeOp⟩

/-- No event changes which side a connection is, or what its peer is. -/
theorem entry_constructed (e : Event) (l : Local) :
    (entry e l).conn.isserver = l.conn.isserver ∧
      (entry e l).conn.endpoint = l.conn.endpoint := by
  have received : ∀ (l : Local) data size t,
      (l.received data size t).conn.isserver = l.conn.isserver ∧
        (l.received data size t).conn.endpoint = l.conn.endpoint := by
    intro l data size t
    unfold Local.received
    dsimp only
    split_ifs <;> exact ⟨rfl, rfl⟩
  have updated : ∀ (l : Local) now, (l.update now).conn.isserver = l.conn.isserver ∧
      (l.update now).conn.endpoint = l.conn.endpoint := by
    intro l now
    rw [update_eq]
    exact ⟨rfl, rfl⟩
  unfold entry
  cases e with
  | posted i =>
      dsimp only
      split
      · exact ⟨rfl, rfl⟩
      · split <;> exact ⟨rfl, rfl⟩
  | onReceive data size t => exact received l data size t
  | update now => exact updated l now
  | tick now => exact updated l now
  | timerExpires =>
      dsimp only [Connection.timerExpired]
      split <;> exact ⟨rfl, rfl⟩
  | timerRuns now =>
      have after := updated { l with conn := { l.conn with timerQueued := l.conn.timerQueued - 1 } } now
      dsimp only [Local.timerEntry]
      split_ifs
      · exact ⟨rfl, rfl⟩
      · exact after
      · exact after
  | receiveCompletes ec data size =>
      dsimp only [Connection.receiveCompleted]
      split <;> exact ⟨rfl, rfl⟩
  | receiveRuns now =>
      dsimp only
      split
      · exact ⟨rfl, rfl⟩
      · split
        · exact ⟨rfl, rfl⟩
        · exact received _ _ _ now

/-- Only a posted task touches more of the environment than its datagrams. -/
theorem entry_env (e : Event) (l : Local) (notPosted : ∀ i, e ≠ .posted i) :
    ∃ datagrams, (entry e l).env = { l.env with
      sent := l.env.sent ++ dataDatagrams l.conn.endpoint datagrams } := by
  have silent : ∃ datagrams, l.env = { l.env with
      sent := l.env.sent ++ dataDatagrams l.conn.endpoint datagrams } :=
    ⟨[], by simp [dataDatagrams]⟩
  have received : ∀ data size t, (l.received data size t).env = l.env := by
    intro data size t
    unfold Local.received
    dsimp only
    split_ifs <;> rfl
  unfold entry
  cases e with
  | posted i => exact absurd rfl (notPosted i)
  | onReceive data size t =>
      dsimp only
      rw [received]
      exact silent
  | update now => exact ⟨_, congrArg Local.env (update_eq l now)⟩
  | tick now => exact ⟨_, congrArg Local.env (update_eq l now)⟩
  | timerExpires => exact silent
  | timerRuns now =>
      dsimp only
      split
      · exact silent
      · unfold Local.timerEntry
        rw [update_eq]
        dsimp only
        split <;> exact ⟨_, rfl⟩
  | receiveCompletes ec data size => exact silent
  | receiveRuns now =>
      dsimp only
      split
      · exact silent
      · split
        · exact silent
        · rename_i ec data size rest shape success
          unfold Local.received
          dsimp only
          split_ifs <;> exact silent

/-- The datagram that an event passes to `on_receive`: the memory from its first
byte on, and its size. -/
def heard (c : Connection) : Event → Option (List UInt8 × Nat)
  | .onReceive data size _ => some (data, size)
  | .receiveRuns _ =>
      match c.receiveQueued with
      | (.success, data, size) :: _ => some (data, size)
      | _ => none
  | _ => none

end AsioKcp
