import AsioKcp.Connection.Runs
import AsioKcp.Ikcp.Lasting

/-! # What the acts of a connection do to its byte streams -/
set_option autoImplicit false

namespace AsioKcp

open AsioKcp.Ikcp AsioKcp.Callback AsioKcp.Machine

theorem ikcpRecv_result (kcp : Ikcpcb) (len : Int) :
    (ikcpRecv kcp len).1 = (ikcpRecv kcp len).2.1.length ∨
      ((ikcpRecv kcp len).1 < 0 ∧ (ikcpRecv kcp len).2.1 = []) := by
  unfold ikcpRecv
  dsimp only
  split_ifs <;> first | exact Or.inr ⟨Int.negSucc_lt_zero _, rfl⟩ | exact Or.inl rfl

theorem ikcpRecv_empty {kcp : Ikcpcb} {len : Int} (nothing : (ikcpRecv kcp len).1 ≤ 0) :
    (ikcpRecv kcp len).2.1 = [] := by
  rcases ikcpRecv_result kcp len with count | ⟨_, empty⟩
  · exact List.eq_nil_of_length_eq_zero (by omega)
  · exact empty

theorem ikcpRecv_nonempty {kcp : Ikcpcb} {len : Int} (some : (ikcpRecv kcp len).1 > 0) :
    (ikcpRecv kcp len).2.1 ≠ [] := by
  rcases ikcpRecv_result kcp len with count | ⟨failed, _⟩
  · intro empty
    rw [empty, List.length_nil] at count
    omega
  · omega

/-- Draining takes the bytes it moves off the front of the receive side. -/
theorem drain_received (fuel : Nat) (obj : Ikcpcb) (buffer : StreamBuf) :
    payload obj.received =
        (drain fuel obj buffer).2.2.1 ++ payload (drain fuel obj buffer).1.received ∧
      (drain fuel obj buffer).1.sndSide = obj.sndSide ∧
      (drain fuel obj buffer).1.acklist = obj.acklist ∧
      (drain fuel obj buffer).1.params = obj.params := by
  induction fuel generalizing obj buffer with
  | zero => exact ⟨rfl, rfl, rfl, rfl⟩
  | succ fuel ih =>
      have side := ikcpRecv_sndSide obj 2048
      have read := ikcpRecv_received obj 2048
      have params := ikcpRecv_params obj 2048
      rw [if_neg (by decide)] at read
      simp only [drain]
      split_ifs with full some
      · exact ⟨rfl, rfl, rfl, rfl⟩
      · obtain ⟨rest, sides, acks, conf⟩ := ih (ikcpRecv obj 2048).2.2
          { buffer with data := buffer.data ++ (ikcpRecv obj 2048).2.1 }
        dsimp only
        refine ⟨?_, sides.trans side.1, acks.trans side.2, conf.trans params⟩
        rw [read, rest, List.append_assoc]
      · rw [ikcpRecv_empty (by omega)] at read
        exact ⟨read, side.1, side.2, params⟩

/-- The buffer of a `read_some_op` has a size that an `int` can hold. -/
def ReadOperation.Fits : ReadOperation → Prop
  | .readSome _ size => size < 2 ^ 31
  | .read _ _ _ => True

theorem narrow_nonneg {size : Nat} (fits : size < 2 ^ 31) : narrow size = size := by
  have value : narrow size = (BitVec.ofNat 32 size).toInt := rfl
  rw [value, BitVec.toInt_ofNat']
  exact Int.bmod_eq_of_le (by omega) (by omega)

/-- A size below `2 ^ 32` that does not turn negative is read back. -/
theorem narrow_of_nonneg {size : Nat} (short : size < 2 ^ 32) (positive : 0 ≤ narrow size) :
    narrow size = size := by
  apply narrow_nonneg
  by_contra long
  have value : narrow size = (BitVec.ofNat 32 size).toInt := rfl
  rw [value, BitVec.toInt_ofNat', Int.bmod_def] at positive
  omega

theorem narrow_le {size : Nat} (nonneg : 0 ≤ narrow size) : narrow size ≤ size := by
  have value : narrow size = (BitVec.ofNat 32 size).toInt := rfl
  rw [value, BitVec.toInt_ofNat', Int.bmod_def] at nonneg ⊢
  omega

/-- What a poll of the read operation moves, and what it leaves alone. -/
structure Polled (op : ReadOperation) (l l' : Local) (bytes taken : List UInt8) : Prop where
  delivered : l'.conn.delivered = l.conn.delivered ++ bytes
  received : payload l.conn.obj.received = taken ++ payload l'.conn.obj.received
  all : op.Fits → taken = bytes
  sndSide : l'.conn.obj.sndSide = l.conn.obj.sndSide
  acklist : l'.conn.obj.acklist = l.conn.obj.acklist
  params : l'.conn.obj.params = l.conn.obj.params
  accepted : l'.conn.accepted = l.conn.accepted
  sent : l'.env.sent = l.env.sent
  endpoint : l'.conn.endpoint = l.conn.endpoint
  nowTick : l'.conn.nowTick = l.conn.nowTick
  timers : l'.conn.timersArmed = l.conn.timersArmed
  receives : l'.conn.receivesArmed = l.conn.receivesArmed

theorem pollRead_stream (ec : ErrorCode) (op : ReadOperation) (l : Local) :
    ∃ bytes taken, Polled op l (pollRead ec op l).2 bytes taken := by
  unfold pollRead
  by_cases success : ec = .success
  · subst success
    rw [if_neg (by simp)]
    cases op with
    | readSome handler size =>
        have side := ikcpRecv_sndSide l.conn.obj (narrow size)
        have params := ikcpRecv_params l.conn.obj (narrow size)
        have read := ikcpRecv_received l.conn.obj (narrow size)
        have whole : size < 2 ^ 31 → ¬ narrow size < 0 := by
          intro fits
          rw [narrow_nonneg fits]
          omega
        dsimp only
        split_ifs with some
        · exact ⟨_, _, rfl, read, fun fits => if_neg (whole fits), side.1, side.2, params,
            rfl, rfl, rfl, rfl, rfl, rfl⟩
        · rw [ikcpRecv_empty (by omega), ite_self] at read
          exact ⟨[], [], (List.append_nil _).symm, read, fun _ => rfl, side.1, side.2, params,
            rfl, rfl, rfl, rfl, rfl, rfl⟩
    | read handler buffer need =>
        obtain ⟨read, side, acks, params⟩ :=
          drain_received (drainFuel l.conn.obj) l.conn.obj (l.env.streambufs buffer)
        dsimp only
        split_ifs <;>
          exact ⟨_, _, rfl, read, fun _ => rfl, side, acks, params, rfl, rfl, rfl, rfl, rfl, rfl⟩
  · rw [if_pos success]
    exact ⟨[], [], (List.append_nil _).symm, rfl, fun _ => rfl, rfl, rfl, rfl, rfl, rfl, rfl, rfl,
      rfl, rfl⟩

/-- The entry of an event leaves the streams alone; it leaves the control block
alone as well, updates it, or passes it the datagram that the event hears. -/
structure EntryStreams (l l' : Local) : Prop where
  delivered : l'.conn.delivered = l.conn.delivered
  accepted : l'.conn.accepted = l.conn.accepted
  readOp : l'.conn.readOp = l.conn.readOp

inductive EntryEffect (e : Event) (l l' : Local) : Prop
  | same : l'.conn.obj = l.conn.obj → l'.env.sent = l.env.sent → EntryEffect e l l'
  | updated (now : Int) : l'.conn.obj = (updateEffect l.conn now).1 →
      l'.env.sent = l.env.sent ++
        dataDatagrams l.conn.endpoint (updateEffect l.conn now).2.2 → EntryEffect e l l'
  | received (data : List UInt8) (size : Nat) : heard l.conn e = some (data, size) →
      data.getD 0 0 = opcodeData → ¬ size < 24 →
      l'.conn.obj = (ikcpInput l.conn.obj (data.drop 1) (size - 1)).2 →
      l'.env.sent = l.env.sent → EntryEffect e l l'

theorem received_effect {e : Event} (l : Local) {data : List UInt8} {size : Nat}
    (hears : heard l.conn e = some (data, size)) (t : Int) :
    EntryEffect e l (l.received data size t) := by
  unfold Local.received
  dsimp only
  split
  · exact .same rfl rfl
  · rename_i long
    split
    · rename_i isData
      exact .received data size hears isData long rfl rfl
    · exact .same rfl rfl

theorem update_effect (e : Event) (l : Local) (now : Int) : EntryEffect e l (l.update now) :=
  .updated now (by rw [update_eq]) (by rw [update_eq])

theorem entry_effect (e : Event) (l : Local) : EntryEffect e l (entry e l) := by
  unfold entry
  cases e with
  | posted i =>
      dsimp only
      split
      · exact .same rfl rfl
      · split <;> exact .same rfl rfl
  | onReceive data size t => exact received_effect l rfl t
  | update now => exact update_effect _ l now
  | tick now => exact update_effect _ l now
  | timerExpires =>
      dsimp only [Connection.timerExpired]
      split <;> exact .same rfl rfl
  | timerRuns now =>
      dsimp only
      split
      · exact .same rfl rfl
      · refine .updated now ?_ ?_ <;>
          · unfold Local.timerEntry
            rw [update_eq]
            dsimp only
            split <;> rfl
  | receiveCompletes ec data size =>
      dsimp only [Connection.receiveCompleted]
      split <;> exact .same rfl rfl
  | receiveRuns now =>
      dsimp only
      split
      · exact .same rfl rfl
      · rename_i ec data size rest shape
        split
        · exact .same rfl rfl
        · rename_i success
          have queued : heard l.conn (.receiveRuns now) = some (data, size) := by
            rw [heard, shape, Decidable.not_not.mp success]
          cases received_effect (e := .onReceive data size now)
              { l with conn := { l.conn with receiveQueued := rest } } rfl now with
          | same obj sent => exact .same obj sent
          | updated time obj sent => exact .updated time obj sent
          | received bytes count hears isData long obj sent =>
              cases hears
              exact .received data size queued isData long obj sent

theorem received_streams (l : Local) (data : List UInt8) (size : Nat) (t : Int) :
    EntryStreams l (l.received data size t) := by
  unfold Local.received
  dsimp only
  split_ifs <;> exact ⟨rfl, rfl, rfl⟩

theorem update_streams (l : Local) (now : Int) : EntryStreams l (l.update now) := by
  rw [update_eq]
  exact ⟨rfl, rfl, rfl⟩

theorem entry_streams (e : Event) (l : Local) : EntryStreams l (entry e l) := by
  unfold entry
  cases e with
  | posted i =>
      dsimp only
      split
      · exact ⟨rfl, rfl, rfl⟩
      · split <;> exact ⟨rfl, rfl, rfl⟩
  | onReceive data size t => exact received_streams l data size t
  | update now => exact update_streams l now
  | tick now => exact update_streams l now
  | timerExpires =>
      dsimp only [Connection.timerExpired]
      split <;> exact ⟨rfl, rfl, rfl⟩
  | timerRuns now =>
      dsimp only
      split
      · exact ⟨rfl, rfl, rfl⟩
      · unfold Local.timerEntry
        rw [update_eq]
        dsimp only
        split <;> exact ⟨rfl, rfl, rfl⟩
  | receiveCompletes ec data size =>
      dsimp only [Connection.receiveCompleted]
      split <;> exact ⟨rfl, rfl, rfl⟩
  | receiveRuns now =>
      dsimp only
      split
      · exact ⟨rfl, rfl, rfl⟩
      · split
        · exact ⟨rfl, rfl, rfl⟩
        · rename_i ec data size rest shape success
          have streams := received_streams
            { l with conn := { l.conn with receiveQueued := rest } } data size now
          exact ⟨streams.delivered, streams.accepted, streams.readOp⟩

/-! ## An invariant of the reads -/

/-- What every read out of a control block keeps, a drain keeps. -/
theorem drain_invariant {P : List UInt8 → Ikcpcb → Prop}
    (recv : ∀ got obj (len : Int), ¬ len < 0 → P got obj →
      P (got ++ (ikcpRecv obj len).2.1) (ikcpRecv obj len).2.2)
    (fuel : Nat) {got : List UInt8} {obj : Ikcpcb} (buffer : StreamBuf) (holds : P got obj) :
    P (got ++ (drain fuel obj buffer).2.2.1) (drain fuel obj buffer).1 := by
  have still : P (got ++ []) obj := by
    rw [List.append_nil]
    exact holds
  induction fuel generalizing got obj buffer with
  | zero => exact still
  | succ fuel ih =>
      have read := recv got obj 2048 (by decide) holds
      simp only [drain]
      split_ifs with full some
      · exact still
      · rw [← List.append_assoc]
        exact ih _ read (by rw [List.append_nil]; exact read)
      · rw [ikcpRecv_empty (by omega)] at read
        exact read

theorem pollRead_invariant {P : List UInt8 → Ikcpcb → Prop}
    (recv : ∀ got obj (len : Int), ¬ len < 0 → P got obj →
      P (got ++ (ikcpRecv obj len).2.1) (ikcpRecv obj len).2.2)
    (ec : ErrorCode) {op : ReadOperation} (fits : op.Fits) {l : Local}
    (holds : P l.conn.delivered l.conn.obj) :
    P (pollRead ec op l).2.conn.delivered (pollRead ec op l).2.conn.obj := by
  unfold pollRead
  split_ifs with failed
  · exact holds
  · cases op with
    | readSome handler size =>
        have whole : ¬ narrow size < 0 := by
          rw [narrow_nonneg fits]
          omega
        have read := recv l.conn.delivered l.conn.obj (narrow size) whole holds
        dsimp only
        split_ifs with some
        · exact read
        · rw [ikcpRecv_empty (by omega), List.append_nil] at read
          exact read
    | read handler buffer need =>
        have drained := drain_invariant recv (drainFuel l.conn.obj) (l.env.streambufs buffer) holds
        dsimp only
        split_ifs <;> exact drained

/-! ## An invariant of the control block -/

/-- A poll only ever reads from the control block. -/
theorem pollRead_obj {K : Ikcpcb → Prop} (recv : ∀ {kcp} len, K kcp → K (ikcpRecv kcp len).2.2)
    (ec : ErrorCode) (op : ReadOperation) {l : Local} (holds : K l.conn.obj) :
    K (pollRead ec op l).2.conn.obj := by
  have drained : ∀ fuel (obj : Ikcpcb) (buffer : StreamBuf), K obj → K (drain fuel obj buffer).1 :=
    fun fuel obj buffer holds => @drain_invariant (fun _ => K)
      (fun _ _ len _ before => recv len before) fuel [] obj buffer holds
  unfold pollRead
  split_ifs with failed
  · exact holds
  · cases op with
    | readSome handler size =>
        dsimp only
        split_ifs <;> exact recv _ holds
    | read handler buffer need =>
        dsimp only
        split_ifs <;> exact drained _ _ _ holds

theorem suited_init (conv : UInt32) : Suited conv (initKcpContext conv).params where
  conv_eq := rfl
  mss_pos := show 0 < (1176 : UInt32).toNat by decide
  mss_short := show (1176 : UInt32).toNat < 2 ^ 31 by decide
  stream := show (1 : Int) ≠ 0 by decide
  sndWnd := rfl
  rcvWnd := rfl
  nocwnd := show (1 : Int) ≠ 0 by decide

section Lasting
variable {K : Ikcpcb → Prop} (lasting : Lasting K)
include lasting

theorem lasting_act {T : Terms} {l l' : Local} (act : Act T l l') (holds : K l.conn.obj) :
    K l'.conn.obj := by
  have disconnected : l.disconnect.conn.obj = l.conn.obj := by
    unfold Local.disconnect
    dsimp only
    split <;> rfl
  cases act with
  | messageSize buffer _ _ _ _ => exact lasting.send _ _ holds
  | write buffer _ _ _ _ => exact lasting.send _ _ holds
  | writePending buffer _ _ _ _ => exact lasting.send _ _ holds
  | pollRead ec op _ _ _ => exact pollRead_obj lasting.recv ec op holds
  | beginClose _ =>
      rw [Local.beginClose, flush_eq]
      exact lasting.flush holds
  | disconnect _ _ =>
      rw [disconnected]
      exact holds
  | _ => exact holds

theorem lasting_updateEffect {c : Connection} (now : Int) (holds : K c.obj) :
    K (updateEffect c now).1 := by
  unfold updateEffect
  dsimp only
  split_ifs
  · exact lasting.flush (lasting.update _ holds)
  · exact lasting.update _ holds
  · exact holds

theorem lasting_entry (e : Event) {l : Local} (holds : K l.conn.obj) : K (entry e l).conn.obj := by
  cases entry_effect e l with
  | same obj _ =>
      rw [obj]
      exact holds
  | updated now obj _ =>
      rw [obj]
      exact lasting_updateEffect lasting now holds
  | received data size _ _ _ obj _ =>
      rw [obj]
      exact lasting.input _ _ holds

/-- What every operation on a control block keeps holds in every state that a
connection can reach. -/
theorem run_lasting {conv : UInt32} {start c : Config Local}
    {ok : Config Local → Label Event Call → Prop} (started : Started conv start)
    (initially : K (initKcpContext conv)) (run : connectionSystem.Steps ok start c) :
    K c.state.conn.obj := by
  have fresh : K start.state.conn.obj := by
    obtain ⟨l, rfl, shape⟩ := started.cases
    rcases shape with ⟨_, _, _, rfl⟩ | ⟨_, _, _, rfl⟩ <;> exact initially
  exact (run_invariant (T := Terms.any) (fun c label _ => Terms.any_allows c label)
    (J := fun l => K l.conn.obj) (fun c e _ holds => lasting_entry lasting e holds)
    (lasting_act lasting) (started.keeps _) fresh run).2

/-! ## What a connection sends -/

/-- What a connection hands to its socket: data whose bytes satisfy `P`, or the
disconnect datagram. -/
def Emits (P : List UInt8 → Prop) (d : Datagram) : Prop :=
  (∃ bytes, d.bytes = opcodeData :: bytes ∧ P bytes) ∨
    d.bytes = opcodeDisconnect :: List.replicate 32 0

omit lasting in
theorem emits_append {P : List UInt8 → Prop} {sent : List Datagram} {dest : Endpoint}
    {datagrams : List (List UInt8)} (before : ∀ d ∈ sent, Emits P d)
    (data : ∀ bytes ∈ datagrams, P bytes) :
    ∀ d ∈ sent ++ dataDatagrams dest datagrams, Emits P d := by
  intro d member
  rcases List.mem_append.mp member with member | member
  · exact before d member
  · obtain ⟨bytes, isData, rfl⟩ := List.mem_map.mp member
    exact Or.inl ⟨bytes, rfl, data bytes isData⟩

variable {P : List UInt8 → Prop} (flushes : ∀ {kcp}, K kcp → ∀ bytes ∈ (ikcpFlush kcp).2, P bytes)
include flushes

theorem emits_update {kcp : Ikcpcb} (current : UInt32) (holds : K kcp) :
    ∀ bytes ∈ (ikcpUpdate kcp current).2, P bytes := by
  obtain ⟨tsFlush, updated, flushed | idle⟩ := ikcpUpdate_retimed kcp current
  · rw [flushed]
    exact flushes (lasting.retimed _ _ _ holds)
  · rw [idle]
    simp

omit lasting in
theorem emits_act {T : Terms} {l l' : Local} (act : Act T l l') (holds : K l.conn.obj)
    (sent : ∀ d ∈ l.env.sent, Emits P d) : ∀ d ∈ l'.env.sent, Emits P d := by
  cases act with
  | pollRead ec op _ _ _ =>
      obtain ⟨bytes, taken, polled⟩ := pollRead_stream ec op l
      rw [polled.sent]
      exact sent
  | beginClose _ =>
      rw [Local.beginClose, flush_eq]
      exact emits_append sent (flushes holds)
  | disconnect _ _ =>
      intro d member
      rcases List.mem_append.mp member with member | member
      · exact sent d member
      · rw [List.mem_singleton.mp member]
        exact Or.inr rfl
  | _ => exact sent

theorem emits_entry (e : Event) {l : Local} (holds : K l.conn.obj)
    (sent : ∀ d ∈ l.env.sent, Emits P d) : ∀ d ∈ (entry e l).env.sent, Emits P d := by
  cases entry_effect e l with
  | same _ same =>
      rw [same]
      exact sent
  | updated now _ grown =>
      rw [grown]
      apply emits_append sent
      intro bytes member
      have updated := lasting.update (UInt32.ofInt now) holds
      unfold updateEffect at member
      dsimp only at member
      split_ifs at member
      · rcases List.mem_append.mp member with member | member
        · exact emits_update lasting flushes _ holds bytes member
        · exact flushes updated bytes member
      · exact emits_update lasting flushes _ holds bytes member
      · cases member
  | received _ _ _ _ _ _ same =>
      rw [same]
      exact sent

/-- Everything that a connection ever sends is the data of some flush, or its
disconnect datagram. -/
theorem run_emits {conv : UInt32} {start c : Config Local}
    {ok : Config Local → Label Event Call → Prop} (started : Started conv start)
    (initially : K (initKcpContext conv)) (run : connectionSystem.Steps ok start c) :
    ∀ d ∈ c.state.env.sent, Emits P d := by
  have fresh : K start.state.conn.obj ∧ ∀ d ∈ start.state.env.sent, Emits P d := by
    obtain ⟨l, rfl, shape⟩ := started.cases
    rcases shape with ⟨_, _, _, rfl⟩ | ⟨_, _, _, rfl⟩ <;>
      exact ⟨initially, fun _ member => nomatch member⟩
  exact (run_invariant (T := Terms.any) (fun c label _ => Terms.any_allows c label)
    (J := fun l => K l.conn.obj ∧ ∀ d ∈ l.env.sent, Emits P d)
    (fun c e _ holds => ⟨lasting_entry lasting e holds.1, emits_entry lasting flushes e holds.1 holds.2⟩)
    (fun act holds => ⟨lasting_act lasting act holds.1, emits_act flushes act holds.1 holds.2⟩)
    (started.keeps _) fresh run).2.2

end Lasting

end AsioKcp
