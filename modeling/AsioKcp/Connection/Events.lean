import AsioKcp.Connection.Entries

/-! # What an event runs after its entry

After its entry an event does nothing more, invokes the handler of a posted
completion, polls the pending operations, or closes the connection; the receive
handler then starts the next receive. -/
set_option autoImplicit false

namespace AsioKcp

open AsioKcp.Ikcp AsioKcp.Callback AsioKcp.Machine

/-- The event polls the pending operations: it is a posted check, or it passes on
a data datagram. -/
def Polls (l : Local) (e : Event) : Prop :=
  (∃ i connection, e = .posted i ∧ l.env.posted[i]? = some (.checkReadOp connection)) ∨
    ∃ data size, heard l.conn e = some (data, size) ∧ ¬ size < 24 ∧ data.getD 0 0 = opcodeData

/-- The code that an event runs in the state of its entry. -/
inductive Continues (l : Local) (e : Event) : Comp Local Unit → Prop
  | idle : ¬ Polls l e → Continues l e (pure ())
  | handler : ¬ Polls l e → Continues l e Comp.invoke
  | poll : Polls l e → Continues l e (checkReadOp .success)
  | close (ec : ErrorCode) : ¬ Polls l e → ec ≠ .success → Continues l e (close ec)

/-- What the receive handler goes on with. -/
def Rearms (rest : Comp Local Unit) : Prop := rest = pure () ∨ rest = doReceive

theorem onReceive_continues {l : Local} {e : Event} {data : List UInt8} {size : Nat}
    (hears : heard l.conn e = some (data, size)) (t : Int) (l' : Local) (posted : ∀ i, e ≠ .posted i) :
    ∃ first, Continues l e first ∧ onReceive data size t l' = first (l'.received data size t) := by
  have polls : Polls l e ↔ ¬ size < 24 ∧ data.getD 0 0 = opcodeData := by
    constructor
    · rintro (⟨i, _, same, _⟩ | ⟨other, count, same, polled⟩)
      · exact absurd same (posted i)
      · rw [hears] at same
        cases same
        exact polled
    · exact fun polled => Or.inr ⟨data, size, hears, polled⟩
  rw [onReceive_eq]
  by_cases short : size < 24
  · have unchanged : l'.received data size t = l' := if_pos short
    rw [if_pos short, unchanged]
    exact ⟨pure (), .idle fun polled => (polls.mp polled).1 short, rfl⟩
  · rw [if_neg short]
    by_cases isData : data.getD 0 0 = opcodeData
    · rw [if_pos isData]
      exact ⟨_, .poll (polls.mpr ⟨short, isData⟩), rfl⟩
    · have quiet : ¬ Polls l e := fun polled => isData (polls.mp polled).2
      rw [if_neg isData]
      split
      · exact ⟨_, .close .eof quiet (by simp), rfl⟩
      · exact ⟨pure (), .idle quiet, rfl⟩

theorem not_polls {l : Local} {e : Event} (posted : ∀ i, e ≠ .posted i)
    (deaf : heard l.conn e = none) : ¬ Polls l e := by
  rintro (⟨i, _, same, _⟩ | ⟨data, size, hears, _⟩)
  · exact posted i same
  · rw [deaf] at hears
    cases hears

/-- An event is its entry, one piece of code, and perhaps the next receive. -/
theorem runEvent_continues (e : Event) (l : Local) : ∃ first rest, Continues l e first ∧
    Rearms rest ∧ runEvent e l = (first (entry e l)).bind fun _ => rest := by
  have done : Rearms (pure ()) := Or.inl rfl
  cases e with
  | posted i =>
      have polls : Polls l (.posted i) ↔
          ∃ connection, l.env.posted[i]? = some (.checkReadOp connection) := by
        constructor
        · rintro (⟨j, connection, same, found⟩ | ⟨data, size, hears, _⟩)
          · cases same
            exact ⟨connection, found⟩
          · cases hears
        · rintro ⟨connection, found⟩
          exact Or.inl ⟨i, connection, rfl, found⟩
      simp only [runEvent, runPosted, Comp.bind_apply, Comp.get_apply, Prog.bind_ret]
      unfold entry
      dsimp only
      cases found : l.env.posted[i]? with
      | none =>
          rw [found] at polls
          exact ⟨pure (), pure (), .idle fun polled => by simpa using polls.mp polled, done, rfl⟩
      | some task =>
          rw [found] at polls
          cases task with
          | completion c =>
              exact ⟨Comp.invoke, pure (), .handler fun polled => by simpa using polls.mp polled,
                done, rfl⟩
          | checkReadOp connection =>
              exact ⟨_, pure (), .poll (polls.mpr ⟨connection, rfl⟩), done,
                (Prog.bind_pure _).symm⟩
  | onReceive data size t =>
      have hears : heard l.conn (.onReceive data size t) = some (data, size) := rfl
      obtain ⟨first, continues, same⟩ := onReceive_continues hears t l (by simp)
      exact ⟨first, pure (), continues, done, same.trans (Prog.bind_pure _).symm⟩
  | update now => exact ⟨pure (), pure (), .idle (not_polls (by simp) rfl), done, rfl⟩
  | tick now =>
      have quiet : ¬ Polls l (.tick now) := not_polls (by simp) rfl
      simp only [runEvent, tick, update, Comp.bind_apply, Comp.modify_apply, Comp.get_apply,
        Comp.pure_apply, Prog.bind_ret, Comp.ite_apply]
      unfold entry
      dsimp only
      split
      · refine ⟨_, pure (), .close _ quiet ?_, done, Prog.bind_assoc _ _ _⟩
        split <;> simp
      · exact ⟨pure (), pure (), .idle quiet, done, rfl⟩
  | timerExpires => exact ⟨pure (), pure (), .idle (not_polls (by simp) rfl), done, rfl⟩
  | timerRuns now =>
      have quiet : ¬ Polls l (.timerRuns now) := not_polls (by simp) rfl
      simp only [runEvent, timerRuns, timerHandler, update, startTimer, modifyConn,
        Comp.bind_apply, Comp.modify_apply, Comp.get_apply, Comp.pure_apply, Prog.bind_ret,
        Comp.ite_apply]
      unfold entry Local.timerEntry
      dsimp only
      split
      · exact ⟨pure (), pure (), .idle quiet, done, rfl⟩
      · split
        · exact ⟨_, pure (), .close .timedOut quiet (by simp), done, (Prog.bind_pure _).symm⟩
        · exact ⟨pure (), pure (), .idle quiet, done, rfl⟩
  | receiveCompletes ec data size =>
      exact ⟨pure (), pure (), .idle (not_polls (by simp) rfl), done, rfl⟩
  | receiveRuns now =>
      simp only [runEvent, receiveRuns, Comp.bind_apply, Comp.get_apply, Prog.bind_ret]
      unfold entry
      dsimp only
      cases queue : l.conn.receiveQueued with
      | nil =>
          have quiet : ¬ Polls l (.receiveRuns now) :=
            not_polls (by simp) (by simp [heard, queue])
          exact ⟨pure (), pure (), .idle quiet, done, rfl⟩
      | cons completion rest =>
          obtain ⟨ec, data, size⟩ := completion
          simp only [modifyConn, Comp.bind_apply, Comp.modify_apply, Prog.bind_ret,
            receiveHandler]
          by_cases failed : ec = .success
          · subst failed
            simp only [ne_eq, not_true_eq_false, if_false]
            have hears : heard l.conn (.receiveRuns now) = some (data, size) := by
              simp [heard, queue]
            obtain ⟨first, continues, same⟩ := onReceive_continues hears now
              { l with conn := { l.conn with receiveQueued := rest } } (by simp)
            exact ⟨first, doReceive, continues, Or.inr rfl, congrArg (Prog.bind · _) same⟩
          · have quiet : ¬ Polls l (.receiveRuns now) :=
              not_polls (by simp) (by
                unfold heard
                rw [queue]
                cases ec <;> first | rfl | exact absurd rfl failed)
            simp only [ne_eq, failed, not_false_eq_true, if_true]
            exact ⟨_, pure (), .close ec quiet failed, done, (Prog.bind_pure _).symm⟩

end AsioKcp
