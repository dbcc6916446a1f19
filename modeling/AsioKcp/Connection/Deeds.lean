import AsioKcp.Connection.Backoff
import AsioKcp.Ikcp.Backlog
import AsioKcp.Lib.Actions

/-! # What a connection does by itself

Between the calls of its user the code of a connection does four things to what
the user can see: it polls the pending read or write, and it runs a posted task.
All the rest passes the operations, the streams and the executor's queue by. -/
set_option autoImplicit false

namespace AsioKcp

open AsioKcp.Ikcp AsioKcp.Callback AsioKcp.Machine Relation

/-- Nothing that the user can see has changed, and nothing new waits to be sent. -/
structure Passes (l l' : Local) : Prop where
  readOp : l'.conn.readOp = l.conn.readOp
  writeOp : l'.conn.writeOp = l.conn.writeOp
  delivered : l'.conn.delivered = l.conn.delivered
  accepted : l'.conn.accepted = l.conn.accepted
  posted : l'.env.posted = l.env.posted
  invoked : l'.env.invoked = l.env.invoked
  nextHandler : l'.env.nextHandler = l.env.nextHandler
  closed : l.closed → l'.closed
  lasting : ∀ {K}, Lasting K → K l.conn.obj → K l'.conn.obj
  backlog : backlog l'.conn.obj ≤ backlog l.conn.obj

inductive Deed : Local → Local → Prop
  | pass {l l' : Local} : Passes l l' → Deed l l'
  | read {l : Local} (ec : ErrorCode) (op : ReadOperation) : l.conn.readOp = some op →
      Deed l (pollRead ec op l).2
  | write {l : Local} (ec : ErrorCode) (handler : Nat) : l.conn.writeOp = some handler →
      writeReady ec l → Deed l (l.takeWrite.record ⟨handler, ec, 0⟩)
  | task {l : Local} (i : Nat) (connection : Nat) :
      l.env.posted[i]? = some (.checkReadOp connection) →
      Deed l { l with env := { l.env with posted := l.env.posted.eraseIdx i } }
  | completion {l : Local} (i : Nat) (c : Completion) : l.env.posted[i]? = some (.completion c) →
      Deed l (Local.record { l with env := { l.env with posted := l.env.posted.eraseIdx i } } c)

section Deeds

theorem passes_refl (l : Local) : Passes l l :=
  ⟨rfl, rfl, rfl, rfl, rfl, rfl, rfl, id, fun _ => id, le_refl _⟩

theorem deeds_pass {l l' : Local} (passes : Passes l l') : ReflTransGen Deed l l' :=
  .single (.pass passes)

/-- A change beside everything that counts. -/
theorem takes_aside {f : Local → Local} (passes : ∀ l, Passes l (f l)) :
    (Comp.modify f).Takes Deed := takes_modify fun l => deeds_pass (passes l)

/-! ## The polls -/

theorem checkWriteOp_takes (ec : ErrorCode) : (checkWriteOp ec).Takes Deed := by
  intro l
  cases pending : l.conn.writeOp with
  | none =>
      rw [checkWriteOp_none pending]
      exact ⟨.refl, trivial⟩
  | some handler =>
      by_cases ready : writeReady ec l
      · rw [checkWriteOp_ready pending ready]
        exact invoke_takes (.single (.write ec handler pending ready)) (fun _ => ⟨.refl, trivial⟩)
          fun _ => ⟨.refl, trivial⟩
      · rw [checkWriteOp_pending ready]
        exact ⟨.refl, trivial⟩

theorem checkReadOp_takes (ec : ErrorCode) : (checkReadOp ec).Takes Deed := by
  intro l
  cases pending : l.conn.readOp with
  | none =>
      rw [checkReadOp_none pending]
      exact checkWriteOp_takes ec l
  | some op =>
      have polled : ReflTransGen Deed l (pollRead ec op l).2 := .single (.read ec op pending)
      rw [checkReadOp_some pending]
      generalize pollRead ec op l = outcome at polled
      obtain ⟨outcome, after⟩ := outcome
      cases outcome with
      | pending => exact (checkWriteOp_takes ec).after polled
      | refused => exact ⟨polled, trivial⟩
      | done => exact invoke_takes polled (checkWriteOp_takes ec) fun _ => ⟨.refl, trivial⟩

/-! ## The control block -/

theorem beginClose_passes (l : Local) : Passes l l.beginClose := by
  rw [Local.beginClose, flush_eq]
  exact ⟨rfl, rfl, rfl, rfl, rfl, rfl, rfl, fun _ => rfl, fun lasting => lasting.flush,
    le_of_eq (ikcpFlush_backlog l.conn.obj)⟩

theorem updateEffect_backlog (c : Connection) (now : Int) :
    backlog (updateEffect c now).1 = backlog c.obj := by
  unfold updateEffect
  dsimp only
  split_ifs
  · rw [ikcpFlush_backlog, ikcpUpdate_backlog]
  · exact ikcpUpdate_backlog c.obj _
  · rfl

theorem update_passes (l : Local) (now : Int) : Passes l (l.update now) := by
  rw [update_eq]
  exact ⟨rfl, rfl, rfl, rfl, rfl, rfl, rfl, id, fun lasting => lasting_updateEffect lasting now,
    le_of_eq (updateEffect_backlog l.conn now)⟩

theorem received_passes (l : Local) (data : List UInt8) (size : Nat) (t : Int) :
    Passes l (l.received data size t) := by
  have stays := (received_control l data size t).closed.mpr
  unfold Local.received at stays ⊢
  by_cases short : size < 24
  · rw [if_pos short]
    exact passes_refl l
  · rw [if_neg short] at stays ⊢
    by_cases isData : data.getD 0 0 = opcodeData
    · rw [if_pos isData] at stays ⊢
      exact ⟨rfl, rfl, rfl, rfl, rfl, rfl, rfl, stays, fun lasting => lasting.input _ _,
        ikcpInput_backlog_le l.conn.obj _ _⟩
    · rw [if_neg isData] at stays ⊢
      exact ⟨rfl, rfl, rfl, rfl, rfl, rfl, rfl, stays, fun _ => id, le_refl _⟩

/-! ## The events -/

/-- A change of members that are none of the user's business. -/
theorem passes_members {l : Local} {conn : Connection} (readOp : conn.readOp = l.conn.readOp)
    (writeOp : conn.writeOp = l.conn.writeOp) (delivered : conn.delivered = l.conn.delivered)
    (accepted : conn.accepted = l.conn.accepted) (state : conn.state = l.conn.state)
    (obj : conn.obj = l.conn.obj) : Passes l { l with conn := conn } :=
  ⟨readOp, writeOp, delivered, accepted, rfl, rfl, rfl, state.trans, fun _ holds => obj ▸ holds,
    le_of_eq (congrArg AsioKcp.Ikcp.backlog obj)⟩

theorem disconnect_passes (l : Local) : Passes l l.disconnect := by
  unfold Local.disconnect
  dsimp only
  split
  · exact ⟨rfl, rfl, rfl, rfl, rfl, rfl, rfl, id, fun _ => id, le_refl _⟩
  · exact ⟨rfl, rfl, rfl, rfl, rfl, rfl, rfl, id, fun _ => id, le_refl _⟩

theorem close_takes (ec : ErrorCode) : (close ec).Takes Deed := by
  intro l
  by_cases opened : l.conn.state = .opened
  · rw [close_opened ec opened]
    have polls := (checkReadOp_takes ec).after (deeds_pass (beginClose_passes l))
    refine meets_bind _ (meets_mono (fun _ t _ => ?_) (fun _ _ => trivial) polls)
    refine ⟨.refl, fun sent _ => ?_⟩
    cases sent with
    | true => exact ⟨deeds_pass (disconnect_passes t), trivial⟩
    | false => exact ⟨.refl, trivial⟩
  · rw [close_not_opened ec opened]
    exact ⟨.refl, trivial⟩

theorem doReceive_takes : doReceive.Takes Deed := by
  refine takes_bind takes_get fun l => ?_
  split
  · exact takes_pure ()
  · exact takes_aside fun l => passes_members rfl rfl rfl rfl rfl rfl

theorem timerEntry_passes (l : Local) (now : Int) : Passes l (l.timerEntry now) := by
  unfold Local.timerEntry
  rw [update_eq]
  dsimp only
  split <;>
    exact ⟨rfl, rfl, rfl, rfl, rfl, rfl, rfl, id,
      fun lasting => lasting_updateEffect lasting now, le_of_eq (updateEffect_backlog _ now)⟩

/-- The entry of every event but a posted task. -/
theorem entry_passes {e : Event} (l : Local) (notPosted : ∀ i, e ≠ .posted i) :
    Passes l (entry e l) := by
  cases e with
  | posted i => exact absurd rfl (notPosted i)
  | onReceive data size t => exact received_passes l data size t
  | update now => exact update_passes l now
  | tick now => exact update_passes l now
  | timerExpires =>
      unfold entry Connection.timerExpired
      dsimp only
      split <;> exact passes_members rfl rfl rfl rfl rfl rfl
  | timerRuns now =>
      unfold entry
      dsimp only
      split
      · exact passes_refl l
      · exact timerEntry_passes l now
  | receiveCompletes ec data size =>
      unfold entry Connection.receiveCompleted
      dsimp only
      split <;> exact passes_members rfl rfl rfl rfl rfl rfl
  | receiveRuns now =>
      unfold entry
      dsimp only
      split
      · exact passes_refl l
      · split
        · exact passes_members rfl rfl rfl rfl rfl rfl
        · rename_i ec data size rest _ _
          have received := received_passes
            { l with conn := { l.conn with receiveQueued := rest } } data size now
          exact ⟨received.readOp, received.writeOp, received.delivered, received.accepted,
            received.posted, received.invoked, received.nextHandler, received.closed,
            received.lasting, received.backlog⟩

theorem entry_deed (e : Event) (l : Local) : ReflTransGen Deed l (entry e l) := by
  cases e with
  | posted i =>
      unfold entry
      dsimp only
      cases found : l.env.posted[i]? with
      | none => exact .refl
      | some task =>
          cases task with
          | completion c => exact .single (.completion i c found)
          | checkReadOp connection => exact .single (.task i connection found)
  | _ => exact deeds_pass (entry_passes l (by simp))

/-- Every event takes only deeds. -/
theorem runEvent_takes (e : Event) : (runEvent e).Takes Deed := by
  intro l
  obtain ⟨first, rest, continues, rearms, same⟩ := runEvent_continues e l
  have begins : first.Takes Deed := by
    cases continues with
    | idle _ => exact takes_pure ()
    | handler _ => exact fun l => invoke_takes .refl (fun _ => ⟨.refl, trivial⟩) fun _ => ⟨.refl, trivial⟩
    | poll _ => exact checkReadOp_takes .success
    | close ec _ _ => exact close_takes ec
  have ends : rest.Takes Deed := by
    rcases rearms with rfl | rfl
    · exact takes_pure ()
    · exact doReceive_takes
  rw [same]
  exact meets_bind _ (meets_mono (fun _ t _ => ends t) (fun _ _ => trivial)
    (begins.after (entry_deed e l)))

end Deeds

end AsioKcp
