import AsioKcp.Connection.Streams
import AsioKcp.Ikcp.Backlog
import AsioKcp.Ikcp.Wire

/-! # Back-pressure on writers

A write is pending while more than 128 segments wait.  Acks shorten the backlog
in the middle of an event, so between its entry and its poll of the write
operation a writer may be left waiting; the poll follows whatever the read
handler does meanwhile, unless an exception skips it. -/
set_option autoImplicit false

namespace AsioKcp

open AsioKcp.Ikcp AsioKcp.Serial AsioKcp.Callback AsioKcp.Machine

/-- What holds at every point: the counters are right, the backlog is bounded,
and it is low where a write may begin. -/
structure Bounded (l : Local) : Prop where
  counted : Counted l.conn.obj
  total : backlog l.conn.obj ≤ 255
  free : l.conn.writeOp = none → ¬ l.closed → backlog l.conn.obj ≤ 128

/-- No writer waits for a backlog that is low already. -/
structure Balanced (l : Local) : Prop extends Bounded l where
  high : l.conn.writeOp ≠ none → ¬ l.closed → 128 < backlog l.conn.obj

/-- Where the code may be when a handler runs: before its poll of the write
operation, after it, or inside of `close`. -/
inductive Stage where
  | due
  | balanced
  | shut

def Stage.Holds : Stage → Local → Prop
  | .due, l => Bounded l
  | .balanced, l => Balanced l
  | .shut, l => Bounded l ∧ l.closed

/-- Handlers let no exception pass; sends may fail. -/
def pressure : Contract Local where
  relies P := ∃ stage : Stage, P = stage.Holds
  passes _ := False
  answers _ _ := True
  guarantee l l' := Bounded l → Bounded l'
  refl _ := id
  trans first second := second ∘ first

theorem balanced_of_closed {l : Local} (bounded : Bounded l) (closed : l.closed) : Balanced l :=
  ⟨bounded, fun _ opened => absurd closed opened⟩

theorem Stage.Holds.bounded {stage : Stage} {l : Local} (holds : stage.Holds l) : Bounded l := by
  cases stage with
  | due => exact holds
  | balanced => exact holds.toBounded
  | shut => exact holds.1

theorem Stage.of_closed (stage : Stage) {l : Local} (bounded : Bounded l) (closed : l.closed) :
    stage.Holds l := by
  cases stage with
  | due => exact bounded
  | balanced => exact balanced_of_closed bounded closed
  | shut => exact ⟨bounded, closed⟩

/-- The backlog of a bounded connection as its code computes it. -/
theorem Bounded.waitsnd {l : Local} (bounded : Bounded l) :
    ikcpWaitsnd l.conn.obj = backlog l.conn.obj := by
  have total := bounded.total
  exact waitsnd_eq bounded.counted (by omega)

theorem Bounded.congr {l l' : Local} (bounded : Bounded l)
    (side : l'.conn.obj.sndSide = l.conn.obj.sndSide) (writeOp : l'.conn.writeOp = l.conn.writeOp)
    (state : l'.conn.state = l.conn.state) : Bounded l' where
  counted := bounded.counted.congr side
  total := by
    rw [backlog_congr side]
    exact bounded.total
  free := by
    rw [writeOp, Local.closed, state, backlog_congr side]
    exact bounded.free

/-- A stage looks at the send side, the pending write and the state only. -/
theorem Stage.Holds.congr {stage : Stage} {l l' : Local} (holds : stage.Holds l)
    (side : l'.conn.obj.sndSide = l.conn.obj.sndSide) (writeOp : l'.conn.writeOp = l.conn.writeOp)
    (state : l'.conn.state = l.conn.state) : stage.Holds l' := by
  have bounded := (holds.bounded).congr side writeOp state
  cases stage with
  | due => exact bounded
  | balanced =>
      refine ⟨bounded, ?_⟩
      rw [writeOp, Local.closed, state, backlog_congr side]
      exact holds.high
  | shut => exact ⟨bounded, state.trans holds.2⟩

theorem bounded_shut {l : Local} (bounded : Bounded l) {conn : Connection} {env : Env}
    (counted : Counted conn.obj) (low : backlog conn.obj ≤ backlog l.conn.obj)
    (closed : conn.state = .closed) : Bounded ⟨conn, env⟩ where
  counted := counted
  total := Nat.le_trans low bounded.total
  free := fun _ opened => absurd closed opened

/-! ## The polls -/

theorem takeWrite_bounded {l : Local} {c : Completion} (bounded : Bounded l)
    (low : ¬ l.closed → backlog l.conn.obj ≤ 128) : Bounded (l.takeWrite.record c) :=
  ⟨bounded.counted, bounded.total, fun _ => low⟩

/-- The poll of the write operation wakes the writer when the backlog is low. -/
theorem checkWriteOp_balances {l : Local} (bounded : Bounded l) {E : Local → Prop} :
    (checkWriteOp .success l).Meets pressure (fun _ => Balanced) E l := by
  cases writeOp : l.conn.writeOp with
  | none =>
      rw [checkWriteOp_none writeOp]
      exact ⟨id, bounded, fun pending => absurd writeOp pending⟩
  | some handler =>
      by_cases ready : writeReady .success l
      · have low : backlog l.conn.obj ≤ 128 := by
          rw [← bounded.waitsnd]
          exact ready.resolve_left (by simp)
        have woken : Balanced (l.takeWrite.record ⟨handler, .success, 0⟩) :=
          ⟨takeWrite_bounded bounded fun _ => low, fun pending => absurd rfl pending⟩
        rw [checkWriteOp_ready writeOp ready]
        refine ⟨fun _ => woken.toBounded, _, ⟨.balanced, rfl⟩, woken, fun t ht => ⟨⟨id, ht⟩, ?_⟩⟩
        exact False.elim
      · rw [checkWriteOp_pending ready]
        refine ⟨id, bounded, fun _ _ => ?_⟩
        rw [← bounded.waitsnd]
        exact Nat.lt_of_not_le fun low => ready (Or.inr low)

/-- A closed connection only stays closed in it. -/
theorem checkWriteOp_shut {l : Local} (ec : ErrorCode) (shut : Stage.shut.Holds l)
    {E : Local → Prop} : (checkWriteOp ec l).Meets pressure (fun _ => Stage.shut.Holds) E l := by
  cases writeOp : l.conn.writeOp with
  | none =>
      rw [checkWriteOp_none writeOp]
      exact ⟨id, shut⟩
  | some handler =>
      by_cases ready : writeReady ec l
      · have taken : Stage.shut.Holds (l.takeWrite.record ⟨handler, ec, 0⟩) :=
          ⟨takeWrite_bounded shut.1 fun opened => absurd shut.2 opened, shut.2⟩
        rw [checkWriteOp_ready writeOp ready]
        refine ⟨fun _ => taken.1, _, ⟨.shut, rfl⟩, taken, fun t ht => ⟨⟨id, ht⟩, ?_⟩⟩
        exact False.elim
      · rw [checkWriteOp_pending ready]
        exact ⟨id, shut⟩

theorem pollRead_stage (stage : Stage) {l : Local} (ec : ErrorCode) (op : ReadOperation)
    (holds : stage.Holds l) : stage.Holds (pollRead ec op l).2 := by
  obtain ⟨bytes, taken, polled⟩ := pollRead_stream ec op l
  obtain ⟨state, _, writeOp⟩ := pollRead_control ec op l
  exact holds.congr polled.sndSide writeOp state

/-- The poll of the read leaves a writer waiting that it should have woken. -/
def Strands (l : Local) : Prop :=
  Refuses l ∧ l.conn.writeOp ≠ none ∧ ¬ l.closed ∧ backlog l.conn.obj ≤ 128

theorem checkReadOp_balances {l : Local} (bounded : Bounded l) :
    (checkReadOp .success l).Meets pressure (fun _ => Balanced)
      (fun t => ¬ Strands l → Balanced t) l := by
  cases readOp : l.conn.readOp with
  | none =>
      rw [checkReadOp_none readOp]
      exact checkWriteOp_balances bounded
  | some op =>
      have after : Bounded (pollRead .success op l).2 :=
        pollRead_stage .due .success op bounded
      obtain ⟨bytes, taken, stream⟩ := pollRead_stream .success op l
      have control := pollRead_control .success op l
      rw [checkReadOp_some readOp]
      rcases polled : pollRead .success op l with ⟨outcome, l'⟩
      rw [polled] at after stream control
      cases outcome with
      | pending => exact meets_from (fun _ => after) (checkWriteOp_balances after)
      | refused =>
          -- The exception skips `check_write_op`.
          refine ⟨fun _ => after, fun woken => ⟨after, fun pending opened => ?_⟩⟩
          rw [backlog_congr stream.sndSide]
          by_contra low
          apply woken
          refine ⟨⟨op, readOp, congrArg Prod.fst polled⟩, ?_, ?_, Nat.le_of_not_lt low⟩
          · rw [← control.2.2]
            exact pending
          · rw [Local.closed, ← control.1]
            exact opened
      | done =>
          refine ⟨fun _ => after, _, ⟨.due, rfl⟩, after,
            fun t ht => ⟨checkWriteOp_balances ht, ?_⟩⟩
          exact False.elim

theorem checkReadOp_shut {l : Local} (ec : ErrorCode) (shut : Stage.shut.Holds l) :
    (checkReadOp ec l).Meets pressure (fun _ => Stage.shut.Holds) Stage.shut.Holds l := by
  cases readOp : l.conn.readOp with
  | none =>
      rw [checkReadOp_none readOp]
      exact checkWriteOp_shut ec shut
  | some op =>
      have after : Stage.shut.Holds (pollRead ec op l).2 := pollRead_stage .shut ec op shut
      rw [checkReadOp_some readOp]
      rcases polled : pollRead ec op l with ⟨outcome, l'⟩
      rw [polled] at after
      cases outcome with
      | pending => exact meets_from (fun _ => after.1) (checkWriteOp_shut ec after)
      | refused => exact ⟨fun _ => after.1, after⟩
      | done =>
          refine ⟨fun _ => after.1, _, ⟨.shut, rfl⟩, after,
            fun t ht => ⟨checkWriteOp_shut ec ht, ?_⟩⟩
          exact False.elim

/-! ## `close`, the calls and the events -/

theorem disconnect_shut {l : Local} (shut : Stage.shut.Holds l) :
    Stage.shut.Holds l.disconnect := by
  have same : l.disconnect.conn.obj = l.conn.obj := by
    unfold Local.disconnect
    dsimp only
    split <;> rfl
  obtain ⟨state, _, writeOp, _⟩ := disconnect_control l
  exact shut.congr (congrArg Ikcpcb.sndSide same) writeOp state

theorem close_stage (stage : Stage) {l : Local} (ec : ErrorCode) (holds : stage.Holds l) :
    (close ec l).Meets pressure (fun _ => stage.Holds) stage.Holds l := by
  by_cases opened : l.conn.state = .opened
  · have bounded := holds.bounded
    have begun : Stage.shut.Holds l.beginClose := by
      rw [Local.beginClose, flush_eq]
      exact ⟨bounded_shut bounded (ikcpFlush_counted bounded.counted)
        (Nat.le_of_eq (ikcpFlush_backlog _)) rfl, rfl⟩
    have shut : ∀ t, Stage.shut.Holds t → stage.Holds t := fun t h => stage.of_closed h.1 h.2
    rw [close_opened ec opened]
    refine meets_from (fun _ => begun.1) (meets_bind _ ?_)
    refine meets_mono ?_ shut (checkReadOp_shut ec begun)
    intro _ t ht
    refine ⟨id, fun sent _ => ?_⟩
    cases sent with
    | false => exact ⟨id, shut t ht⟩
    | true => exact ⟨fun _ => (disconnect_shut ht).1, shut _ (disconnect_shut ht)⟩
  · rw [close_not_opened ec opened]
    exact ⟨id, holds⟩

/-- A write that is begun with a low backlog. -/
theorem asyncWrite_stage {stage : Stage} {l : Local} (buffer : List UInt8)
    (holds : stage.Holds l) :
    (asyncWrite buffer l).Meets pressure (fun _ => stage.Holds) stage.Holds l := by
  have bounded := holds.bounded
  rw [asyncWrite_eq]
  split
  · have kept : stage.Holds (l.postCompletion
        (if l.conn.closed then .operationAborted else .inProgress)) :=
      holds.congr rfl rfl rfl
    exact ⟨fun _ => kept.bounded, kept⟩
  · rename_i accepted
    have opened := not_closed_of_open accepted
    have free : l.conn.writeOp = none := by simpa using fun h => accepted (Or.inl h)
    have low := bounded.free free opened
    have counted : Counted (l.sendResult buffer).2 := counted_lasting.send _ _ bounded.counted
    obtain ⟨added, buf, _, _, length, few, none⟩ :=
      ikcpSend_counts l.conn.obj buffer (narrow buffer.length)
    have grown : backlog (l.sendResult buffer).2 = backlog l.conn.obj + added := by
      rw [backlog, Local.sendResult, buf, length, backlog, Nat.add_assoc]
    have waitsnd : ikcpWaitsnd (l.sendResult buffer).2 = backlog (l.sendResult buffer).2 :=
      waitsnd_eq counted (by omega)
    -- Nothing but `due` and `balanced` is possible for a connection that is not closed.
    have balanced : ∀ l' : Local, l'.conn.state = l.conn.state → Balanced l' → stage.Holds l' := by
      intro l' state balanced
      cases stage with
      | due => exact balanced.toBounded
      | balanced => exact balanced
      | shut => exact absurd holds.2 opened
    have kept : ∀ l' : Local, l'.conn.state = l.conn.state → Balanced l' →
        (Prog.ret l' () : Prog Local Unit).Meets pressure (fun _ => stage.Holds) stage.Holds l :=
      fun l' state after => ⟨fun _ => after.toBounded, balanced l' state after⟩
    split
    · rename_i refused
      apply kept
      · rfl
      · refine ⟨⟨counted, ?_, fun _ _ => ?_⟩, fun pending => absurd free pending⟩
        · have := none refused
          change backlog (l.sendResult buffer).2 ≤ 255
          omega
        · have := none refused
          change backlog (l.sendResult buffer).2 ≤ 128
          omega
    · split
      · rename_i small
        rw [waitsnd] at small
        apply kept
        · rfl
        · refine ⟨⟨counted, ?_, fun _ _ => small⟩, fun pending => absurd free pending⟩
          change backlog (l.sendResult buffer).2 ≤ 255
          omega
      · rename_i large
        rw [waitsnd] at large
        apply kept
        · rfl
        · refine ⟨⟨counted, ?_, fun empty => ?_⟩, fun _ _ => Nat.lt_of_not_le large⟩
          · change backlog (l.sendResult buffer).2 ≤ 255
            omega
          · cases empty

theorem runCall_stage {stage : Stage} {l : Local} (k : Call) (holds : stage.Holds l) :
    (runCall k l).Meets pressure (fun _ => stage.Holds) stage.Holds l := by
  have read : ∀ op : Nat → ReadOperation,
      (initiateAsyncRead op l).Meets pressure (fun _ => stage.Holds) stage.Holds l := by
    intro op
    rw [initiateAsyncRead_eq]
    split
    · have kept : stage.Holds (l.postCompletion
          (if l.conn.closed then .operationAborted else .inProgress)) :=
        holds.congr rfl rfl rfl
      exact ⟨fun _ => kept.bounded, kept⟩
    · have kept : stage.Holds (l.installRead op) := holds.congr rfl rfl rfl
      exact ⟨fun _ => kept.bounded, kept⟩
  cases k with
  | asyncReadSome size => exact read _
  | asyncRead buffer need => exact read _
  | asyncWrite buffer => exact asyncWrite_stage buffer holds
  | close ec => exact close_stage stage ec holds
  | streambuf id content =>
      have kept : stage.Holds (l.setStreambuf id content) := holds.congr rfl rfl rfl
      exact ⟨fun _ => kept.bounded, kept⟩

/-- The entry of an event never adds to the backlog, and only a datagram that is
polled for takes from it. -/
theorem entry_pressure (e : Event) {l : Local} (bounded : Bounded l) :
    Bounded (entry e l) ∧ (¬ Polls l e → backlog (entry e l).conn.obj = backlog l.conn.obj) := by
  have control := entry_control e l
  have counted := lasting_entry counted_lasting e bounded.counted
  have below : backlog (entry e l).conn.obj ≤ backlog l.conn.obj ∧
      (¬ Polls l e → backlog (entry e l).conn.obj = backlog l.conn.obj) := by
    cases entry_effect e l with
    | same obj _ =>
        rw [obj]
        exact ⟨Nat.le_refl _, fun _ => rfl⟩
    | updated now obj _ =>
        have same : backlog (updateEffect l.conn now).1 = backlog l.conn.obj := by
          unfold updateEffect
          dsimp only
          split_ifs
          · rw [ikcpFlush_backlog, ikcpUpdate_backlog]
          · exact ikcpUpdate_backlog _ _
          · rfl
        rw [obj, same]
        exact ⟨Nat.le_refl _, fun _ => rfl⟩
    | received data size hears isData long obj _ =>
        rw [obj]
        exact ⟨ikcpInput_backlog_le _ _ _,
          fun quiet => absurd (Or.inr ⟨data, size, hears, long, isData⟩) quiet⟩
  refine ⟨⟨counted, Nat.le_trans below.1 bounded.total, ?_⟩, below.2⟩
  rw [control.writeOp, control.closed]
  exact fun free opened => Nat.le_trans below.1 (bounded.free free opened)

/-- After an event no writer is left waiting, unless its poll is cut short. -/
theorem runEvent_balances (e : Event) {l : Local} (balanced : Balanced l)
    (wakes : Polls l e → ¬ Strands (entry e l)) :
    (runEvent e l).Meets pressure (fun _ => Balanced) Balanced l := by
  obtain ⟨bounded, still⟩ := entry_pressure e balanced.toBounded
  have control := entry_control e l
  obtain ⟨first, rest, continues, rearms, same⟩ := runEvent_continues e l
  have quiet : ¬ Polls l e → Balanced (entry e l) := by
    intro quiet
    refine ⟨bounded, ?_⟩
    rw [control.writeOp, control.closed, still quiet]
    exact balanced.high
  have rearmed : ∀ t, Balanced t → (rest t).Meets pressure (fun _ => Balanced) Balanced t := by
    intro t ht
    rcases rearms with rfl | rfl
    · exact ⟨id, ht⟩
    · simp only [doReceive, Comp.bind_apply, Comp.get_apply, Prog.bind_ret, Comp.ite_apply,
        Comp.pure_apply]
      split
      · exact ⟨id, ht⟩
      · have before : Stage.balanced.Holds t := ht
        have armed : Stage.balanced.Holds t.armReceive := before.congr rfl rfl rfl
        exact ⟨fun _ => armed.bounded, armed⟩
  rw [same]
  refine meets_from (fun _ => bounded) (meets_bind _ ?_)
  refine meets_mono (fun _ t ht => rearmed t ht) (fun _ h => h) ?_
  cases continues with
  | idle silent => exact ⟨id, quiet silent⟩
  | handler silent =>
      refine ⟨id, _, ⟨.balanced, rfl⟩, quiet silent, fun t ht => ⟨⟨id, ht⟩, ?_⟩⟩
      exact False.elim
  | poll polls =>
      exact meets_mono (fun _ _ h => h) (fun _ h => h (wakes polls)) (checkReadOp_balances bounded)
  | close ec silent _ => exact close_stage .balanced ec (quiet silent)

/-! ## The runs -/

/-- No handler lets an exception pass, and no event strands a writer. -/
def Wakes (c : Config Local) (label : Label Event Call) : Prop :=
  label ≠ .unwind ∧ ∀ e, label = .event e → Polls c.state e → ¬ Strands (entry e c.state)

theorem pressure_step {c c' : Config Local} {label : Label Event Call}
    (meets : c.Meets pressure Balanced) (bounded : Bounded c.state) (wakes : Wakes c label)
    (stepped : connectionSystem.step c label = some c') :
    c'.Meets pressure Balanced ∧ Bounded c'.state := by
  have kept := step_meets connectionSystem c.state
    ⟨fun unwinds => absurd unwinds wakes.1, fun _ _ => trivial⟩ meets stepped (fun _ => rfl) ?_ ?_
  · exact ⟨kept.2, kept.1 bounded⟩
  · intro e isEvent balanced
    exact ⟨⟨.balanced, rfl⟩, runEvent_balances e balanced (wakes.2 e isEvent)⟩
  · rintro k _ _ ⟨stage, rfl⟩ holds
    exact runCall_stage k holds

theorem run_pressure {conv : UInt32} {start c : Config Local} (started : Started conv start)
    (run : connectionSystem.Steps Wakes start c) :
    c.Meets pressure Balanced ∧ Bounded c.state := by
  have fresh : Balanced start.state ∧ start = .idle start.state := by
    obtain ⟨l, rfl, shape⟩ := started.cases
    refine ⟨⟨⟨?_, ?_, fun _ _ => ?_⟩, fun pending => ?_⟩, rfl⟩ <;>
      rcases shape with ⟨_, _, _, rfl⟩ | ⟨_, _, _, rfl⟩
    · exact ⟨rfl, rfl⟩
    · exact ⟨rfl, rfl⟩
    · exact Nat.zero_le _
    · exact Nat.zero_le _
    · exact Nat.zero_le _
    · exact Nat.zero_le _
    · exact absurd rfl pending
    · exact absurd rfl pending
  induction run with
  | refl =>
      rw [fresh.2]
      exact ⟨idle_meets ⟨.balanced, rfl⟩ fresh.1, fresh.1.toBounded⟩
  | tail label _ wakes stepped ih => exact pressure_step ih.1 ih.2 wakes stepped

/-- Between events a write is pending exactly above 128 waiting segments, and the
backlog never exceeds 255. -/
structure Pressed (c : Config Local) : Prop where
  pending : c.Idle → ¬ c.state.closed →
    (c.state.conn.writeOp ≠ none ↔ 128 < ikcpWaitsnd c.state.conn.obj)
  counted : c.state.conn.obj.nsndBuf.toNat + c.state.conn.obj.nsndQue.toNat =
    c.state.conn.obj.sndBuf.length + c.state.conn.obj.sndQueue.length
  bounded : c.state.conn.obj.nsndBuf.toNat + c.state.conn.obj.nsndQue.toNat ≤ 255

theorem writers_wake {conv : UInt32} {start c : Config Local} (started : Started conv start)
    (run : connectionSystem.Steps Wakes start c) : Pressed c := by
  obtain ⟨meets, bounded⟩ := run_pressure started run
  have total := bounded.total
  have counts : c.state.conn.obj.nsndBuf.toNat + c.state.conn.obj.nsndQue.toNat =
      c.state.conn.obj.sndBuf.length + c.state.conn.obj.sndQueue.length := by
    rw [bounded.counted.nsndBuf, bounded.counted.nsndQue, UInt32.toNat_ofNat', UInt32.toNat_ofNat']
    unfold backlog at total
    omega
  refine ⟨fun idle opened => ?_, counts, counts.trans_le total⟩
  have balanced := meets_bottom meets idle
  rw [bounded.waitsnd]
  constructor
  · exact fun pending => balanced.high pending opened
  · intro high free
    have := bounded.free free opened
    omega

theorem writers_wake_byte : ∃ c, connectionSystem.run (clientStart 7 loopback 0 noStreambufs)
    [.call (.asyncWrite [1]), .event (.update 0)] = some c ∧ Pressed c := by
  obtain ⟨c, ran, _⟩ := run_checked connectionSystem (clientStart 7 loopback 0 noStreambufs)
    [.call (.asyncWrite [1]), .event (.update 0)] (fun c => c.isIdle) (by decide)
  have run := steps_of_run connectionSystem
    (fun label => label ≠ .unwind ∧ ∀ e l, label = .event e → ¬ Polls l e) _ ?_ ran
  · have wakes : ∀ (c : Config Local) (label : Label Event Call),
        (label ≠ .unwind ∧ ∀ e l, label = .event e → ¬ Polls l e) → Wakes c label :=
      fun c label quiet => ⟨quiet.1, fun e isEvent polls => absurd polls (quiet.2 e _ isEvent)⟩
    exact ⟨c, ran, writers_wake (.client loopback 0 noStreambufs) (run.mono wakes)⟩
  · intro label member
    rcases List.mem_cons.mp member with rfl | later
    · exact ⟨by simp, by simp⟩
    · rw [List.mem_singleton.mp later]
      refine ⟨by simp, ?_⟩
      rintro e l ⟨⟩
      exact not_polls (by simp) rfl

/-! ## A read without room strands a writer -/

section Stranded
variable {big small : List UInt8}

/-- A client whose operations are free. -/
structure Ready (l : Local) : Prop where
  opened : l.conn.state = .opened
  readOp : l.conn.readOp = none
  writeOp : l.conn.writeOp = none
  room : (l.env.streambufs 0).data.length + 2048 > (l.env.streambufs 0).maxSize

/-- All of the 127 segments of the first buffer are numbered and none is acked. -/
structure Crowded (kcp : Ikcpcb) : Prop where
  params : kcp.params = (initKcpContext 7).params
  counted : Counted kcp
  empty : kcp.sndQueue = []
  numbers : ∃ out : List (List UInt8), out.length = 127 ∧ Ikcp.Sending 7 out (List.range' 0 127) kcp

theorem asyncWrite_queues {l : Local} {buffer : List UInt8} {obj : Ikcpcb} (ready : Ready l)
    (sent : l.sendResult buffer = (0, obj)) :
    asyncWrite buffer l = .ret (if ikcpWaitsnd obj ≤ idleSendPacketCount
      then (l.write buffer).postCompletion .success else (l.write buffer).installWrite) () := by
  have free : ¬ (l.conn.writeOp ≠ none ∨ l.conn.closed = true) := by
    simp [ready.writeOp, Connection.closed, ready.opened]
  rw [asyncWrite_eq, if_neg free, sent, if_neg (Int.lt_irrefl 0)]

theorem call_step {l l' : Local} {k : Call} (accepts : runCall k l = .ret l' ()) :
    connectionSystem.step (.idle l) (.call k) = some (.idle l') := by
  change some (Config.enter [] (runCall k l)) = _
  rw [accepts]
  rfl

theorem sendResult_of_big (long : big.length = 127 * 1176) :
    (clientLocal 7 loopback 0 noStreambufs).sendResult big = (0, { initKcpContext 7 with
      sndQueue := sendFragments 1 1176 127 big, nsndQue := 127 }) := by
  have whole : narrow big.length = big.length := narrow_nonneg (by omega)
  have rounds : (if big.length ≤ (initKcpContext 7).mss.toNat then 1
      else (big.length + (initKcpContext 7).mss.toNat - 1) / (initKcpContext 7).mss.toNat) = 127 := by
    rw [long]
    decide
  exact ikcpSend_fresh (by decide) rfl whole (by omega) (Nat.le_refl _) rounds

/-- The first buffer leaves the backlog low. -/
theorem write_big (long : big.length = 127 * 1176) :
    asyncWrite big (clientLocal 7 loopback 0 noStreambufs) =
      .ret (((clientLocal 7 loopback 0 noStreambufs).write big).postCompletion .success) () := by
  have ready : Ready (clientLocal 7 loopback 0 noStreambufs) := ⟨rfl, rfl, rfl, by decide⟩
  have low : (127 : UInt32).toNat ≤ idleSendPacketCount := by decide
  rw [asyncWrite_queues ready (sendResult_of_big long)]
  exact congrArg (fun l => Prog.ret l ()) (if_pos low)

theorem ikcpFlush_crowded {kcp : Ikcpcb} (crowded : Crowded kcp) : Crowded (ikcpFlush kcp).1 := by
  obtain ⟨out, length, sending⟩ := crowded.numbers
  obtain ⟨empty, same⟩ := ikcpFlush_none sending crowded.empty
  exact ⟨(ikcpFlush_params kcp).trans crowded.params, ikcpFlush_counted crowded.counted, empty,
    out, length, same⟩

/-- The first update numbers the whole buffer. -/
theorem update_crowded {l : Local} (fresh : l.conn.nextTick = 0) (obj : l.conn.obj =
      { initKcpContext 7 with sndQueue := sendFragments 1 1176 127 big, nsndQue := 127 }) :
    Crowded (updateEffect l.conn 0).1 := by
  have updated : Crowded (ikcpUpdate l.conn.obj (UInt32.ofInt 0)).1 := by
    obtain ⟨tsFlush, flushed⟩ := @ikcpUpdate_first l.conn.obj (obj ▸ rfl) (UInt32.ofInt 0)
    rw [flushed, obj]
    generalize ready : ({ initKcpContext 7 with
      current := UInt32.ofInt 0, sndQueue := sendFragments 1 1176 127 big, nsndQue := 127,
      updated := 1, tsFlush := tsFlush } : Ikcpcb) = kcp
    have params : kcp.params = (initKcpContext 7).params := ready ▸ rfl
    have suited : Suited 7 kcp.params := params ▸ suited_init 7
    have length : kcp.sndQueue.length = 127 := ready ▸ sendFragments_length 1 1176 127 big
    have cwnd : flushCwnd kcp = 128 := ready ▸ rfl
    have running : kcp.updated = 1 := ready ▸ rfl
    have counted : Counted kcp := by
      refine ⟨ready ▸ rfl, ?_⟩
      rw [length]
      exact ready ▸ rfl
    have sending : Ikcp.Sending 7 [] [] kcp := by
      rw [← ready]
      refine ⟨rfl, rfl, rfl, .nil, by simp, by simp, ?_⟩
      exact sendFragments_whole (by decide) 1176 127 big
    have fits : ([] : List (List UInt8)).length + kcp.sndQueue.length ≤
        ([] : List Nat).headD ([] : List (List UInt8)).length + (flushCwnd kcp).toNat := by
      rw [length, cwnd]
      decide
    obtain ⟨empty, out, length', same⟩ :=
      ikcpFlush_all suited sending (by rw [running]; decide) fits
    rw [length] at length' same
    exact ⟨(ikcpFlush_params kcp).trans params, ikcpFlush_counted counted, empty, out, length', same⟩
  unfold updateEffect
  rw [if_pos (Int.le_of_eq fresh)]
  dsimp only
  split
  · exact ikcpFlush_crowded updated
  · exact updated

/-- A second buffer of two segments waits behind the first. -/
structure Overfull (kcp : Ikcpcb) : Prop where
  conv : kcp.conv = 7
  counted : Counted kcp
  high : backlog kcp = 129
  numbers : ∃ out, Ikcp.Sending 7 out (List.range' 0 127) kcp

theorem write_small {l : Local} (ready : Ready l) (crowded : Crowded l.conn.obj)
    (long : small.length = 1177) :
    asyncWrite small l = .ret (l.write small).installWrite () ∧
      Overfull (l.write small).conn.obj := by
  obtain ⟨out, _, sending⟩ := crowded.numbers
  have suited : Suited 7 l.conn.obj.params := crowded.params ▸ suited_init 7
  have mss : l.conn.obj.mss = 1176 := congrArg Params.mss crowded.params
  have rounds : (if small.length ≤ l.conn.obj.mss.toNat then 1
      else (small.length + l.conn.obj.mss.toNat - 1) / l.conn.obj.mss.toNat) = 2 := by
    rw [mss, long]
    decide
  have sent : l.sendResult small = (0, { l.conn.obj with
      sndQueue := sendFragments l.conn.obj.stream l.conn.obj.mss.toNat 2 small
      nsndQue := l.conn.obj.nsndQue + UInt32.ofNat 2 }) :=
    ikcpSend_fresh suited.stream crowded.empty (narrow_nonneg (by omega)) (by omega) (by omega)
      rounds
  have queued := (ikcpSend_queue suited sending.queue small (narrow small.length)
    (by rw [← Local.sendResult, sent]; exact Int.lt_irrefl 0)).2
  rw [← Local.sendResult, sent] at queued
  have overfull : Overfull (l.sendResult small).2 := by
    have counted : Counted (l.sendResult small).2 := counted_lasting.send _ _ crowded.counted
    refine ⟨?_, counted, ?_, out, ?_⟩
    · rw [sent]
      exact suited.conv_eq
    · rw [sent, backlog, sending.sndBuf_length, List.length_range']
      dsimp only
      rw [sendFragments_length]
    · rw [sent]
      exact ⟨sending.nxt, sending.una, sending.buf, sending.sorted, sending.below, sending.short,
        queued⟩
  have high : ¬ ikcpWaitsnd (l.sendResult small).2 ≤ idleSendPacketCount := by
    rw [waitsnd_eq overfull.counted (by rw [overfull.high]; decide), overfull.high]
    decide
  refine ⟨?_, overfull⟩
  rw [asyncWrite_queues ready (show l.sendResult small = (0, (l.sendResult small).2) by rw [sent])]
  exact congrArg (fun l => Prog.ret l ()) (if_neg high)

/-- The peer's window announcement that acks segment 0. -/
def tell : IkcpSeg :=
  { ikcpSegmentNew 0 [] with conv := 7, cmd := ikcpCmdWins, wnd := 128, una := 1 }

theorem input_tell {kcp : Ikcpcb} (overfull : Overfull kcp) :
    ikcpWaitsnd (ikcpInput kcp (encodeSegs [tell]) 24).2 ≤ idleSendPacketCount := by
  obtain ⟨out, sending⟩ := overfull.numbers
  have decodable : ∀ seg ∈ [tell], Decodable kcp.conv seg := by
    intro seg member
    rw [List.mem_singleton.mp member, overfull.conv]
    exact ⟨rfl, by decide, by decide⟩
  have alike := ikcpInput_encode [] decodable
  rw [List.append_nil] at alike
  have header : Ikcp.Sending 7 out ((List.range' 0 127).filter (1 ≤ ·)) (inputHeader kcp (onWire tell)) := by
    apply inputHeader_sending sending rfl
    intro i member
    have below : i < 127 := by simpa using List.mem_range'_1.mp member
    exact near_of_lt (by omega) (by omega)
  have left : (List.range' 0 127).filter (1 ≤ ·) = List.range' 1 126 := by
    rw [List.range'_succ, List.filter_cons_of_neg (by decide), List.filter_eq_self]
    intro i member
    simpa using (List.mem_range'_1.mp member).1
  rw [left] at header
  have fewer : backlog (ikcpInput kcp (encodeSegs [tell]) 24).2 = 128 := by
    have buf : (ikcpInput kcp (encodeSegs [tell]) 24).2.sndBuf.length = 126 := by
      have same := congrArg List.length alike.buf
      rw [List.length_map, List.length_map] at same
      exact same.trans (header.sndBuf_length.trans List.length_range')
    have queue : kcp.sndQueue.length = 2 := by
      have high := overfull.high
      rw [backlog, sending.sndBuf_length, List.length_range'] at high
      omega
    rw [backlog, buf, (ikcpInput_acked kcp _ _).sndQueue, queue]
  have counted := counted_lasting.input (encodeSegs [tell]) 24 overfull.counted
  rw [waitsnd_eq counted (by rw [fewer]; decide), fewer]
  decide

/-- The announcement is polled for a read whose stream buffer has no room. -/
theorem strand_run {l : Local} {h : Nat} (read : l.conn.readOp = some (.read h 0 1))
    (room : (l.env.streambufs 0).data.length + 2048 > (l.env.streambufs 0).maxSize)
    (opened : l.conn.state = .opened) : ∃ l',
      connectionSystem.run (.idle l)
        [.event (.onReceive (opcodeData :: encodeSegs [tell]) 25 0), .caught] = some (.idle l') ∧
      l'.conn.state = .opened ∧ l'.conn.writeOp = l.conn.writeOp ∧
      l'.conn.obj = (ikcpInput l.conn.obj (encodeSegs [tell]) 24).2 := by
  have received : l.received (opcodeData :: encodeSegs [tell]) 25 0 =
      { l with conn := { l.conn with
          nowTick := 0, nextTick := 0, obj := (ikcpInput l.conn.obj (encodeSegs [tell]) 24).2 } } := by
    unfold Local.received
    simp [opened]
  generalize made : l.received (opcodeData :: encodeSegs [tell]) 25 0 = m at received
  have drained : m.drained 0 = (m.conn.obj, l.env.streambufs 0, [], true) := by
    rw [received, Local.drained, drainFuel, drain, if_pos room]
  have polled : pollRead .success (.read h 0 1) m = (.refused, (m.afterDrain 0).takeRead.refuse) := by
    simp [pollRead, drained]
  have threw : onReceive (opcodeData :: encodeSegs [tell]) 25 0 l =
      .throw (m.afterDrain 0).takeRead.refuse := by
    have isData : (opcodeData :: encodeSegs [tell]).getD 0 0 = opcodeData := rfl
    have pending : m.conn.readOp = some (.read h 0 1) := by
      rw [received]
      exact read
    rw [onReceive_eq, if_neg (by decide), if_pos isData, made,
      checkReadOp_some pending, polled]
  refine ⟨(m.afterDrain 0).takeRead.refuse, ?_, ?_, ?_, ?_⟩
  · have stepped : connectionSystem.step (.idle l)
        (.event (.onReceive (opcodeData :: encodeSegs [tell]) 25 0)) =
          some ⟨(m.afterDrain 0).takeRead.refuse, .raising, []⟩ := by
      change some (Config.enter [] (onReceive _ 25 0 l)) = _
      rw [threw]
      rfl
    simp only [System.run, stepped]
    rfl
  · rw [received]
    exact opened
  · rw [received]
    rfl
  · change (m.drained 0).1 = _
    rw [drained, received]

/-- 127 segments are sent, two more make a write wait, and the ack that should
wake it is polled for a read that has no room. -/
theorem writers_wake_stranded :
    ¬ ∀ c : Config Local, connectionSystem.Steps (fun _ label => label ≠ .unwind)
      (clientStart 7 loopback 0 noStreambufs) c → Pressed c := by
  intro claimed
  obtain ⟨big, long⟩ : ∃ big : List UInt8, big.length = 127 * 1176 :=
    ⟨List.replicate (127 * 1176) 0, List.length_replicate⟩
  obtain ⟨small, short⟩ : ∃ small : List UInt8, small.length = 1177 :=
    ⟨List.replicate 1177 0, List.length_replicate⟩
  have first : connectionSystem.Steps (fun _ label => label ≠ .unwind)
      (clientStart 7 loopback 0 noStreambufs) (.idle
        (((clientLocal 7 loopback 0 noStreambufs).write big).postCompletion .success)) :=
    .tail (.call (.asyncWrite big)) .refl (by simp) (call_step (write_big long))
  generalize queued : ((clientLocal 7 loopback 0 noStreambufs).write big).postCompletion .success =
    l at first
  have obj : l.conn.obj = { initKcpContext 7 with
      sndQueue := sendFragments 1 1176 127 big, nsndQue := 127 } := by
    rw [← queued]
    exact congrArg Prod.snd (sendResult_of_big long)
  have crowded : Crowded (l.update 0).conn.obj := by
    rw [update_eq]
    exact update_crowded (by rw [← queued]; rfl) obj
  have ready : Ready (l.update 0) := by
    rw [update_eq, ← queued]
    exact ⟨rfl, rfl, rfl, show 0 + 2048 > 0 by decide⟩
  have second := first.tail (.event (.update 0)) (by simp) (e := .idle (l.update 0)) rfl
  obtain ⟨waits, overfull⟩ := write_small ready crowded short
  have third := second.tail (.call (.asyncWrite small)) (by simp) (call_step (k := .asyncWrite small) waits)
  have opened : ((l.update 0).write small).installWrite.conn.state = .opened := ready.opened
  have reads : asyncRead 0 1 ((l.update 0).write small).installWrite =
      .ret (((l.update 0).write small).installWrite.installRead fun h => .read h 0 1) () := by
    have free : ¬ (((l.update 0).write small).installWrite.conn.readOp ≠ none ∨
        ((l.update 0).write small).installWrite.conn.closed = true) := by
      have none : ((l.update 0).write small).installWrite.conn.readOp = none := ready.readOp
      simp [none, Connection.closed, opened]
    rw [asyncRead, initiateAsyncRead_eq, if_neg free]
  have fourth := third.tail (.call (.asyncRead 0 1)) (by simp) (call_step (k := .asyncRead 0 1) reads)
  obtain ⟨l', ran, still, pending, input⟩ := strand_run
    (l := ((l.update 0).write small).installWrite.installRead fun h => .read h 0 1) rfl ready.room opened
  have last := fourth.trans (steps_of_run connectionSystem (· ≠ .unwind) _ (by simp) ran)
  have pressed := (claimed _ last).pending ⟨rfl, rfl⟩ (by simp [Local.closed, Config.idle, still])
  have high : 128 < ikcpWaitsnd l'.conn.obj := by
    apply pressed.mp
    rw [show (Config.idle l').state = l' from rfl, pending]
    simp [Local.installRead, Local.installWrite]
  rw [input] at high
  exact absurd (input_tell overfull) (Nat.not_le.mpr high)

end Stranded

end AsioKcp
