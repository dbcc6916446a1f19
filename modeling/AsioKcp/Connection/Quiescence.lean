import AsioKcp.Connection.Streams

/-! # After the disconnect

A closed connection that has handed over its disconnect datagram does nothing by
itself.  What still reaches it may set it going again: an update whose flush has
something due, a queued completion of the timer, a late datagram with new data. -/
set_option autoImplicit false

namespace AsioKcp

open AsioKcp.Ikcp AsioKcp.Callback AsioKcp.Machine

/-- Nothing has been sent or armed, and no byte has come into the queues. -/
structure Quiescent (l l' : Local) : Prop where
  sent : l'.env.sent = l.env.sent
  timers : l'.conn.timersArmed = l.conn.timersArmed
  receives : l'.conn.receivesArmed = l.conn.receivesArmed
  received : (payload l'.conn.obj.received).length ≤ (payload l.conn.obj.received).length
  pending : (payload l'.conn.obj.pending).length ≤ (payload l.conn.obj.pending).length

theorem Quiescent.refl (l : Local) : Quiescent l l :=
  ⟨rfl, rfl, rfl, Nat.le_refl _, Nat.le_refl _⟩

theorem Quiescent.trans {l l' l'' : Local} (first : Quiescent l l') (second : Quiescent l' l'') :
    Quiescent l l'' :=
  ⟨second.sent.trans first.sent, second.timers.trans first.timers,
    second.receives.trans first.receives, second.received.trans first.received,
    second.pending.trans first.pending⟩

theorem quiescent_same {l l' : Local} (sent : l'.env.sent = l.env.sent)
    (timers : l'.conn.timersArmed = l.conn.timersArmed)
    (receives : l'.conn.receivesArmed = l.conn.receivesArmed)
    (obj : l'.conn.obj = l.conn.obj) : Quiescent l l' :=
  ⟨sent, timers, receives, by rw [obj], by rw [obj]⟩

/-- The disconnect datagram has been handed to the socket. -/
def Gone (l : Local) : Prop := l.closed ∧ l.conn.disconnectSent = true

theorem quiescent_act {T : Terms} {l l' : Local} (act : Act T l l') (gone : Gone l) :
    Quiescent l l' ∧ Gone l' := by
  cases act with
  | refuseRead _ => exact ⟨quiescent_same rfl rfl rfl rfl, gone⟩
  | readSome _ _ _ opened => exact absurd gone.1 opened
  | read _ _ _ _ opened => exact absurd gone.1 opened
  | refuseWrite _ => exact ⟨quiescent_same rfl rfl rfl rfl, gone⟩
  | messageSize _ _ _ opened _ => exact absurd gone.1 opened
  | write _ _ _ opened _ => exact absurd gone.1 opened
  | writePending _ _ _ opened _ => exact absurd gone.1 opened
  | streambuf id content => exact ⟨quiescent_same rfl rfl rfl rfl, gone⟩
  | pollRead ec op pending _ _ =>
      obtain ⟨bytes, taken, polled⟩ := pollRead_stream ec op l
      have control := pollRead_control ec op l
      refine ⟨⟨polled.sent, polled.timers, polled.receives, ?_, ?_⟩, ?_, ?_⟩
      · rw [polled.received, List.length_append]
        omega
      · rw [sndSide_pending polled.sndSide]
      · rw [Local.closed, control.1]
        exact gone.1
      · rw [control.2.1]
        exact gone.2
  | pollWrite ec handler _ _ _ _ => exact ⟨quiescent_same rfl rfl rfl rfl, gone⟩
  | beginClose opened =>
      have closed := gone.1
      rw [Local.closed, opened] at closed
      cases closed
  | disconnect _ unsent =>
      rw [gone.2] at unsent
      cases unsent
  | armReceive opened => exact absurd gone.1 opened

/-! ## What still reaches the connection -/

/-- An update at `now` has something to send. -/
def updateDue (c : Connection) (now : Int) : Prop :=
  c.nextTick ≤ now ∧
    ((∃ ready, updateReady c.obj (UInt32.ofInt now) = some ready ∧ flushDue ready) ∨
      ((ikcpCheck (ikcpUpdate c.obj (UInt32.ofInt now)).1 (UInt32.ofInt now)).toNat - now <
          updateInterval ∧ flushDue (ikcpUpdate c.obj (UInt32.ofInt now)).1))

/-- A datagram brings in bytes that the connection does not hold. -/
def bringsBytes (c : Connection) (data : List UInt8) (size : Nat) : Prop :=
  ¬ size < 24 ∧ data.getD 0 0 = opcodeData ∧ datagramBytes c.obj (data.drop 1) (size - 1) ≠ 0

/-- The event does not set the connection going again. -/
def Harmless (c : Connection) : Event → Prop
  | .posted _ => True
  | .onReceive data size _ => ¬ bringsBytes c data size
  | .update now => ¬ updateDue c now
  | .tick now => ¬ updateDue c now
  | .timerExpires => True
  | .timerRuns now =>
      c.timerQueued = 0 ∨ (now - c.nowTick > timeoutDuration ∧ ¬ updateDue c now)
  | .receiveCompletes _ _ _ => True
  | .receiveRuns _ =>
      match c.receiveQueued with
      | [] => True
      | (ec, data, size) :: _ => ec ≠ .success ∨ ¬ bringsBytes c data size

theorem updateEffect_silent_iff (c : Connection) (now : Int) :
    (updateEffect c now).2.2 = [] ↔ ¬ updateDue c now := by
  have first : (ikcpUpdate c.obj (UInt32.ofInt now)).2 = [] ↔
      ¬ ∃ ready, updateReady c.obj (UInt32.ofInt now) = some ready ∧ flushDue ready := by
    rw [ikcpUpdate_ready]
    cases ready : updateReady c.obj (UInt32.ofInt now) with
    | none => simp
    | some kcp => simp [ikcpFlush_silent_iff]
  have second := ikcpFlush_silent_iff (ikcpUpdate c.obj (UInt32.ofInt now)).1
  unfold updateEffect updateDue
  by_cases due : c.nextTick ≤ now
  · simp only [due, if_true, true_and]
    split_ifs with soon
    · simp only [List.append_eq_nil_iff, first, second, soon, true_and, not_or]
    · simp only [first, soon, false_and, or_false]
  · simp [due]

theorem updateEffect_sides (c : Connection) (now : Int) :
    (updateEffect c now).1.rcvSide = c.obj.rcvSide ∧
      payload (updateEffect c now).1.pending = payload c.obj.pending := by
  have first := ikcpUpdate_sides c.obj (UInt32.ofInt now)
  have second := ikcpFlush_sides (ikcpUpdate c.obj (UInt32.ofInt now)).1
  unfold updateEffect
  dsimp only
  split_ifs
  · exact ⟨second.1.trans first.1, second.2.trans first.2⟩
  · exact first
  · exact ⟨rfl, rfl⟩

theorem update_quiescent_iff (l : Local) (now : Int) :
    Quiescent l (l.update now) ↔ ¬ updateDue l.conn now := by
  have sides := updateEffect_sides l.conn now
  rw [← updateEffect_silent_iff, update_eq]
  constructor
  · intro quiet
    have sent : l.env.sent ++ dataDatagrams l.conn.endpoint (updateEffect l.conn now).2.2 =
        l.env.sent := quiet.sent
    have silent := List.append_right_eq_self.mp sent
    exact List.map_eq_nil_iff.mp silent
  · intro silent
    refine ⟨by simp [silent, dataDatagrams], rfl, rfl, ?_, ?_⟩
    · exact Nat.le_of_eq (congrArg (fun segs => (payload segs).length) (rcvSide_received sides.1))
    · exact Nat.le_of_eq (congrArg List.length sides.2)

theorem received_quiescent_iff (l : Local) (data : List UInt8) (size : Nat) (t : Int) :
    Quiescent l (l.received data size t) ↔ ¬ bringsBytes l.conn data size := by
  have taken := ikcpInput_received l.conn.obj (data.drop 1) (size - 1)
  have acked := (ikcpInput_acked l.conn.obj (data.drop 1) (size - 1)).pending_le
  unfold Local.received bringsBytes
  by_cases short : size < 24
  · simp only [short, if_true, not_true_eq_false, false_and, not_false_eq_true, iff_true]
    exact Quiescent.refl l
  · by_cases isData : data.getD 0 0 = opcodeData
    · simp only [short, isData, if_true, if_false, not_false_eq_true, true_and, ne_eq,
        Decidable.not_not]
      constructor
      · intro quiet
        have fewer : (payload (ikcpInput l.conn.obj (data.drop 1) (size - 1)).2.received).length ≤
          (payload l.conn.obj.received).length := quiet.received
        omega
      · intro nothing
        refine ⟨rfl, rfl, rfl, ?_, acked⟩
        rw [taken, nothing]
        exact Nat.le_refl _
    · simp only [short, isData, if_false, false_and, and_false, not_false_eq_true, iff_true]
      exact quiescent_same rfl rfl rfl rfl

/-- Exactly the harmful events disturb a connection. -/
theorem entry_quiescent_iff (e : Event) (l : Local) :
    Quiescent l (entry e l) ↔ Harmless l.conn e := by
  have from_same : ∀ (l' : Local) {l'' : Local}, l'.env = l.env → l'.conn.timersArmed = l.conn.timersArmed →
      l'.conn.receivesArmed = l.conn.receivesArmed → l'.conn.obj = l.conn.obj →
      (Quiescent l l'' ↔ Quiescent l' l'') := by
    intro l' l'' env timers receives obj
    have there : Quiescent l l' := quiescent_same (by rw [env]) timers receives obj
    have back : Quiescent l' l := quiescent_same (by rw [env]) timers.symm receives.symm obj.symm
    exact ⟨back.trans, there.trans⟩
  unfold entry Harmless
  cases e with
  | posted i =>
      simp only [iff_true]
      split
      · exact Quiescent.refl l
      · split <;> exact quiescent_same rfl rfl rfl rfl
  | onReceive data size t => exact received_quiescent_iff l data size t
  | update now => exact update_quiescent_iff l now
  | tick now => exact update_quiescent_iff l now
  | timerExpires =>
      simp only [iff_true, Connection.timerExpired]
      split <;> exact quiescent_same rfl rfl rfl rfl
  | timerRuns now =>
      dsimp only
      split_ifs with none
      · simp [none, Quiescent.refl]
      · have updated := update_quiescent_iff
          { l with conn := { l.conn with timerQueued := l.conn.timerQueued - 1 } } now
        unfold Local.timerEntry
        rw [← from_same { l with conn := { l.conn with timerQueued := l.conn.timerQueued - 1 } }
          rfl rfl rfl rfl] at updated
        rw [update_eq] at updated ⊢
        dsimp only
        simp only [none, false_or]
        split_ifs with late
        · simp only [late, true_and]
          exact updated
        · simp only [late, false_and, iff_false]
          intro quiet
          have armed := quiet.timers
          dsimp only at armed
          omega
  | receiveCompletes ec data size =>
      simp only [iff_true, Connection.receiveCompleted]
      split <;> exact quiescent_same rfl rfl rfl rfl
  | receiveRuns now =>
      dsimp only
      cases l.conn.receiveQueued with
      | nil => simp [Quiescent.refl]
      | cons completion rest =>
          obtain ⟨ec, data, size⟩ := completion
          dsimp only
          split_ifs with failed
          · simp only [ne_eq, failed, not_false_eq_true, true_or, iff_true]
            exact quiescent_same rfl rfl rfl rfl
          · simp only [failed, false_or]
            have received := received_quiescent_iff
              { l with conn := { l.conn with receiveQueued := rest } } data size now
            rw [← from_same { l with conn := { l.conn with receiveQueued := rest } }
              rfl rfl rfl rfl] at received
            exact received

theorem gone_entry (e : Event) {l : Local} (gone : Gone l) : Gone (entry e l) := by
  have control := entry_control e l
  exact ⟨control.closed.mpr gone.1, control.disconnectSent.trans gone.2⟩

/-! ## The runs -/

/-- A step whose event does not disturb a connection that is gone. -/
def Undisturbed (c : Config Local) (label : Label Event Call) : Prop :=
  ∀ e, label = .event e → Harmless c.state.conn e

theorem disconnectSent_act {T : Terms} {l l' : Local} (act : Act T l l')
    (sound : l.conn.disconnectSent = true → l.closed) :
    l'.conn.disconnectSent = true → l'.closed := by
  cases act with
  | pollRead ec op _ _ _ =>
      have control := pollRead_control ec op l
      rw [control.2.1, Local.closed, control.1]
      exact sound
  | beginClose _ => exact fun _ => rfl
  | disconnect closed _ =>
      intro _
      unfold Local.disconnect Local.closed
      dsimp only
      split <;> exact closed
  | _ => exact sound

theorem quiescent_acts {T : Terms} {l l' : Local} (acts : Acts T l l') (gone : Gone l) :
    Quiescent l l' ∧ Gone l' := by
  induction acts with
  | refl => exact ⟨Quiescent.refl l, gone⟩
  | tail _ act ih =>
      obtain ⟨quiet, gone'⟩ := quiescent_act act ih.2
      exact ⟨ih.1.trans quiet, gone'⟩

/-- Once its disconnect datagram is handed over, a connection stays quiet along
every run whose events are harmless. -/
theorem quiet_after_disconnect {conv : UInt32} {start c d : Config Local}
    (started : Started conv start) (before : connectionSystem.Steps (fun _ _ => True) start c)
    (sent : c.state.conn.disconnectSent = true)
    (after : connectionSystem.Steps Undisturbed c d) : Quiescent c.state d.state := by
  have initially : start.state.conn.disconnectSent = true → start.state.closed := by
    obtain ⟨l, rfl, shape⟩ := started.cases
    rcases shape with ⟨_, _, _, rfl⟩ | ⟨_, _, _, rfl⟩ <;> simp [Config.idle, clientLocal, Connection.make]
  obtain ⟨keeps, sound⟩ := run_invariant (T := Terms.any) (fun c label _ => Terms.any_allows c label)
    (J := fun l => l.conn.disconnectSent = true → l.closed)
    (fun c e _ sound => by
      have control := entry_control e c.state
      rw [control.disconnectSent, control.closed]
      exact sound)
    disconnectSent_act (started.keeps _) initially before
  have along : Quiescent c.state d.state ∧ Gone d.state ∧ Keeps Terms.any d := by
    induction after with
    | refl => exact ⟨Quiescent.refl _, ⟨sound sent, sent⟩, keeps⟩
    | @tail d e label _ harmless stepped ih =>
        obtain ⟨quiet, gone, keeps⟩ := ih
        obtain ⟨acts, keeps'⟩ := keeps_step keeps (Terms.any_allows d label) stepped
        have entered : Quiescent d.state (begun label d.state) ∧ Gone (begun label d.state) := by
          cases label with
          | event e =>
              exact ⟨(entry_quiescent_iff e d.state).mpr (harmless e rfl), gone_entry e gone⟩
          | _ => exact ⟨Quiescent.refl _, gone⟩
        obtain ⟨quiet', gone'⟩ := quiescent_acts acts entered.2
        exact ⟨quiet.trans (entered.1.trans quiet'), gone', keeps'⟩
  exact along.1

/-- A server connection sends a byte that is never acked, and is closed. -/
def writeThenClose : List (Label Event Call) :=
  [.event (.onReceive keepalive 24 0), .call (.asyncWrite [1]), .event (.update 0),
    .call (.close .eof), .answer true]

/-- The events after the disconnect, in a run on fixed labels. -/
theorem writeThenClose_then (label : Label Event Call) (check : Config Local → Bool)
    (ran : (connectionSystem.run (serverStart 7 loopback 0 noStreambufs)
      (writeThenClose ++ [label])).map check = some true) :
    ∃ c d, connectionSystem.Steps (fun _ _ => True) (serverStart 7 loopback 0 noStreambufs) c ∧
      c.state.conn.disconnectSent = true ∧ c.state.env.sent.length = 2 ∧
      connectionSystem.step c label = some d ∧ check d = true := by
  obtain ⟨c, before, checked⟩ := run_checked connectionSystem
    (serverStart 7 loopback 0 noStreambufs) writeThenClose
    (fun c => c.state.conn.disconnectSent && c.state.env.sent.length == 2) (by decide)
  simp only [Bool.and_eq_true, beq_iff_eq] at checked
  obtain ⟨d, stepped, _, holds⟩ := step_checked connectionSystem before label check ran
  exact ⟨c, d, steps_of_run connectionSystem (fun _ => True) _ (fun _ _ => trivial) before,
    checked.1, checked.2, stepped, holds⟩

theorem quiet_after_disconnect_keepalive : ∃ c d,
    connectionSystem.step c (.event (.onReceive keepalive 24 1)) = some d ∧
      c.state.conn.disconnectSent = true ∧ Quiescent c.state d.state := by
  obtain ⟨c, d, before, sent, _, stepped, _⟩ := writeThenClose_then
    (.event (.onReceive keepalive 24 1)) (fun c => c.isIdle) (by decide)
  refine ⟨c, d, stepped, sent, ?_⟩
  refine quiet_after_disconnect (.server loopback 0 noStreambufs) before sent
    (.tail _ .refl ?_ stepped)
  intro e isEvent
  cases isEvent
  rintro ⟨_, isData, _⟩
  exact absurd isData (by decide)

/-- The tick before the erasure retransmits an unacked segment after the disconnect. -/
theorem tick_sends_after_disconnect : ¬ ∀ c d,
    connectionSystem.Steps (fun _ _ => True) (serverStart 7 loopback 0 noStreambufs) c →
    c.state.conn.disconnectSent = true → connectionSystem.Steps (fun _ _ => True) c d →
    Quiescent c.state d.state := by
  intro claim
  obtain ⟨c, d, before, sent, two, stepped, three⟩ := writeThenClose_then
    (.event (.tick 300)) (fun d => d.state.env.sent.length == 3) (by decide)
  have quiet := claim c d before sent (.tail _ .refl trivial stepped)
  rw [beq_iff_eq, quiet.sent, two] at three
  cases three

end AsioKcp
