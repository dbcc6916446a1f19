import AsioKcp.Connection.Streams
import AsioKcp.Ikcp.Messages

/-! # Datagrams of another session

What a connection sends is tagged with its conv, or is a disconnect datagram,
which carries none.  `on_receive` compares the conv only inside of `ikcp_input`,
after it has changed the connection; so a datagram of another session leaves a
connection alone only in the states described here. -/
set_option autoImplicit false

namespace AsioKcp

open AsioKcp.Ikcp AsioKcp.Callback AsioKcp.Machine AsioKcp.Bytes

/-! ## What a connection sends -/

/-- The control block and the segments it has numbered carry the conv. -/
def Tagged (conv : UInt32) (kcp : Ikcpcb) : Prop :=
  kcp.conv = conv ∧ ∀ core ∈ kcp.sndBuf.map IkcpSeg.core, core.conv = conv

theorem tagged_of_acked {conv : UInt32} {kcp kcp' : Ikcpcb} (tagged : Tagged conv kcp)
    (params : kcp'.params = kcp.params) (acked : Acked kcp kcp') : Tagged conv kcp' :=
  ⟨(congrArg Params.conv params).trans tagged.1,
    fun core member => tagged.2 core (acked.sndBuf.subset member)⟩

theorem moveToSndBuf_tagged {conv : UInt32} (cwnd wnd : UInt32) (segs : List IkcpSeg) :
    ∀ {kcp : Ikcpcb}, Tagged conv kcp → Tagged conv (moveToSndBuf cwnd wnd segs kcp) := by
  induction segs with
  | nil => exact fun tagged => tagged
  | cons seg rest ih =>
      intro kcp tagged
      simp only [moveToSndBuf]
      split
      · refine ih ⟨tagged.1, fun core member => ?_⟩
        rw [List.map_append, List.mem_append] at member
        rcases member with member | member
        · exact tagged.2 core member
        · rw [List.map_singleton, List.mem_singleton] at member
          rw [member]
          exact tagged.1
      · exact tagged

theorem flushMoved_tagged {conv : UInt32} {kcp : Ikcpcb} (tagged : Tagged conv kcp) :
    Tagged conv (flushMoved kcp) :=
  moveToSndBuf_tagged _ _ _ tagged

theorem ikcpFlush_tagged {conv : UInt32} {kcp : Ikcpcb} (tagged : Tagged conv kcp) :
    Tagged conv (ikcpFlush kcp).1 := by
  have moved := flushMoved_tagged tagged
  unfold ikcpFlush
  split
  · exact tagged
  · refine ⟨moved.1, fun core member => moved.2 core ?_⟩
    change core ∈ ((flushMoved kcp).sndBuf.map _).map IkcpSeg.core at member
    rw [List.map_map] at member
    have same : IkcpSeg.core ∘ flushSegment (flushMoved kcp) (ikcpWndUnused kcp) =
        IkcpSeg.core := funext fun seg => flushSegment_core _ _ seg
    rwa [same] at member

/-- Every segment that a flush encodes carries the conv. -/
theorem flushSegs_tagged {conv : UInt32} {kcp : Ikcpcb} (tagged : Tagged conv kcp) :
    ∀ seg ∈ flushSegs kcp, seg.conv = conv := by
  have moved := flushMoved_tagged tagged
  have control : (lastControlSeg kcp).conv = conv := by
    have last : lastControlSeg kcp ∈ controlSeg kcp :: ackSegs kcp := List.getLastD_mem_cons
    rcases List.mem_cons.mp last with isControl | isAck
    · rw [isControl]
      exact tagged.1
    · obtain ⟨ack, _, same⟩ := List.mem_map.mp isAck
      rw [← same]
      exact tagged.1
  intro seg member
  rw [flushSegs, List.mem_append, List.mem_append] at member
  rcases member with (member | member) | member
  · obtain ⟨ack, _, rfl⟩ := List.mem_map.mp member
    exact tagged.1
  · rw [probeSegs, List.mem_append] at member
    rcases member with member | member <;>
      · split at member
        · rw [List.mem_singleton.mp member]
          exact control
        · cases member
  · obtain ⟨sent, isSent, rfl⟩ := List.mem_map.mp member
    have core := flushSegment_core (flushMoved kcp) (ikcpWndUnused kcp) sent
    rw [show (flushSegment _ _ sent).conv = sent.conv from congrArg SegCore.conv core]
    exact moved.2 _ (List.mem_map_of_mem (List.mem_of_mem_filter isSent))

/-- The bytes of a KCP datagram that begins with a segment of the conv. -/
def DataOf (conv : UInt32) (bytes : List UInt8) : Prop :=
  ∃ seg rest, bytes = encodeSegs (seg :: rest) ∧ seg.conv = conv

theorem ikcpFlush_dataOf {conv : UInt32} {kcp : Ikcpcb} (tagged : Tagged conv kcp) :
    ∀ bytes ∈ (ikcpFlush kcp).2, DataOf conv bytes := by
  intro bytes member
  by_cases fresh : kcp.updated = 0
  · rw [ikcpFlush_silent_of_not_updated fresh] at member
    cases member
  · obtain ⟨groups, datagrams, segs, nonempty⟩ := ikcpFlush_packs kcp fresh
    rw [datagrams] at member
    obtain ⟨group, isGroup, rfl⟩ := List.mem_map.mp member
    cases shape : group with
    | nil => exact absurd shape (nonempty group isGroup)
    | cons seg rest =>
        refine ⟨seg, rest, rfl, flushSegs_tagged tagged seg ?_⟩
        rw [← segs]
        exact List.mem_flatten.mpr ⟨group, isGroup, by rw [shape]; exact List.mem_cons_self ..⟩

/-- What a connection with this conv hands to its socket. -/
def EmittedBy (conv : UInt32) (d : Datagram) : Prop :=
  (∃ bytes, d.bytes = opcodeData :: bytes ∧ DataOf conv bytes) ∨
    d.bytes = opcodeDisconnect :: List.replicate 32 0

structure Signed (conv : UInt32) (l : Local) : Prop where
  tagged : Tagged conv l.conn.obj
  sent : ∀ d ∈ l.env.sent, EmittedBy conv d

theorem tagged_lasting (conv : UInt32) : Lasting (Tagged conv) where
  send := by
    intro kcp buffer len tagged
    have queues := ikcpSend_onlyQueues kcp buffer len
    refine ⟨(congrArg Params.conv (ikcpSend_params _ _ _)).trans tagged.1, ?_⟩
    rw [queues.sndBuf]
    exact tagged.2
  recv := fun len tagged =>
    tagged_of_acked tagged (ikcpRecv_params _ len) (acked_of_sndSide (ikcpRecv_sndSide _ len).1)
  input := fun data size tagged =>
    tagged_of_acked tagged (ikcpInput_params _ data size) (ikcpInput_acked _ data size)
  retimed := fun _ _ _ tagged => tagged
  flush := ikcpFlush_tagged

/-- Everything that a connection ever sends is signed with its conv. -/
theorem run_signed {conv : UInt32} {start c : Config Local} (started : Started conv start)
    (run : connectionSystem.Steps (fun _ _ => True) start c) : Signed conv c.state where
  tagged := run_lasting (tagged_lasting conv) started ⟨rfl, fun _ member => nomatch member⟩ run
  sent := run_emits (tagged_lasting conv) ikcpFlush_dataOf started
    ⟨rfl, fun _ member => nomatch member⟩ run

/-! ## What such a datagram does to another session -/

/-- What the datagram of another session must not change. -/
structure Untouched (l l' : Local) : Prop where
  state : l'.conn.state = l.conn.state
  nowTick : l'.conn.nowTick = l.conn.nowTick
  delivered : l'.conn.delivered = l.conn.delivered
  readOp : l'.conn.readOp = l.conn.readOp
  writeOp : l'.conn.writeOp = l.conn.writeOp

/-- The pending read can neither take bytes nor complete: the queue holds no message for it. -/
def readStalled (l : Local) : Prop :=
  match l.conn.readOp with
  | none => True
  | some (.readSome _ size) => Barren l.conn.obj (narrow size)
  | some (.read _ buffer need) =>
      (l.env.streambufs buffer).data.length + 2048 ≤ (l.env.streambufs buffer).maxSize ∧
        Barren l.conn.obj 2048 ∧ (l.env.streambufs buffer).data.length < need

def writeStalled (l : Local) : Prop :=
  l.conn.writeOp = none ∨ ikcpWaitsnd l.conn.obj > idleSendPacketCount

/-- The states in which a datagram of another session does no harm at time `t`. -/
def Isolated (l : Local) (opcode : UInt8) (t : Int) : Prop :=
  l.conn.nowTick = t ∧
    if opcode = opcodeData then l.conn.state ≠ .idle ∧ readStalled l ∧ writeStalled l
    else l.closed

theorem ikcpInput_foreign {kcp : Ikcpcb} {data : List UInt8} {size : Nat}
    (long : ¬ size < ikcpOverhead) (foreign : read32 data ≠ kcp.conv) :
    (ikcpInput kcp data size).2 = kcp := by
  have enough : size = (size - 1) + 1 := by
    simp only [ikcpOverhead] at long
    omega
  have conv : (decodeSeg data).conv = read32 data := rfl
  rw [ikcpInput_cases kcp data long, enough]
  simp only [inputLoop]
  rw [← enough, if_neg long, conv, if_pos foreign]

/-- One round of the loop of `read_op::do_complete`. -/
theorem drained_cases (l : Local) (buffer : Nat) :
    ((l.env.streambufs buffer).data.length + 2048 > (l.env.streambufs buffer).maxSize ∧
      (l.drained buffer).2.2.2 = true) ∨
    ((ikcpRecv l.conn.obj 2048).1 > 0 ∧ (l.drained buffer).2.2.1 ≠ []) ∨
    ((l.env.streambufs buffer).data.length + 2048 ≤ (l.env.streambufs buffer).maxSize ∧
      (ikcpRecv l.conn.obj 2048).1 ≤ 0 ∧ (l.drained buffer).2.2.2 = false ∧
      (l.drained buffer).2.2.1 = [] ∧ (l.drained buffer).2.1 = l.env.streambufs buffer ∧
      (l.drained buffer).1 = (ikcpRecv l.conn.obj 2048).2.2) := by
  unfold Local.drained drainFuel
  simp only [drain]
  split_ifs with full some
  · exact Or.inl ⟨full, rfl⟩
  · exact Or.inr (Or.inl ⟨some, by simp [ikcpRecv_nonempty some]⟩)
  · exact Or.inr (Or.inr ⟨by omega, by omega, rfl, rfl, rfl, rfl⟩)

/-- A poll of a stalled read moves nothing; any other does, or completes it. -/
theorem pollRead_stalled_iff {l : Local} {op : ReadOperation} (pending : l.conn.readOp = some op) :
    readStalled l ↔ (pollRead .success op l).1 = .pending ∧
      (pollRead .success op l).2.conn.delivered = l.conn.delivered := by
  unfold readStalled pollRead
  rw [pending, if_neg (by simp)]
  cases op with
  | readSome handler size =>
      dsimp only
      rw [← ikcpRecv_nonpos_iff]
      split_ifs with some
      · constructor
        · intro stalled
          omega
        · rintro ⟨isPending, _⟩
          cases isPending
      · exact ⟨fun _ => ⟨rfl, rfl⟩, fun _ => by omega⟩
  | read handler buffer need =>
      dsimp only
      rw [← ikcpRecv_nonpos_iff]
      have moves : (l.afterDrain buffer).conn.delivered =
          l.conn.delivered ++ (l.drained buffer).2.2.1 := rfl
      rcases drained_cases l buffer with ⟨full, threw⟩ | ⟨some, moved⟩ |
          ⟨fits, nothing, kept, unmoved, content, _⟩
      · rw [if_pos threw]
        constructor
        · rintro ⟨fits, _⟩
          omega
        · rintro ⟨isPending, _⟩
          cases isPending
      · constructor
        · rintro ⟨_, nothing, _⟩
          omega
        · rintro ⟨_, same⟩
          refine absurd ?_ moved
          have appended : l.conn.delivered ++ (l.drained buffer).2.2.1 = l.conn.delivered := by
            rw [← moves, ← same]
            split_ifs <;> rfl
          exact List.append_right_eq_self.mp appended
      · rw [if_neg (by simp [kept]), content]
        split_ifs with enough
        · constructor
          · rintro ⟨_, _, short⟩
            omega
          · rintro ⟨isPending, _⟩
            cases isPending
        · refine ⟨fun _ => ⟨rfl, ?_⟩, fun _ => ⟨fits, nothing, by omega⟩⟩
          rw [moves, unmoved, List.append_nil]

theorem checkWriteOp_stalled {l : Local} (stalled : writeStalled l) :
    checkWriteOp .success l = .ret l () := by
  rcases stalled with free | high
  · exact checkWriteOp_none free
  · have waiting : ¬ writeReady .success l := by
      rintro (error | low)
      · exact error rfl
      · omega
    exact checkWriteOp_pending waiting

theorem checkWriteOp_not_stalled {l : Local} (ready : ¬ writeStalled l) :
    (checkWriteOp .success l).state.conn.writeOp = none ∧
      l.conn.writeOp ≠ none := by
  obtain ⟨taken, low⟩ := not_or.mp ready
  cases pending : l.conn.writeOp with
  | none => exact absurd pending taken
  | some handler =>
      have done : writeReady .success l := Or.inr (by omega)
      rw [checkWriteOp_ready pending done]
      exact ⟨rfl, by simp⟩

/-- A poll does not complete the pending read. -/
def Local.ReadWaits (l : Local) : Prop :=
  ∀ op, l.conn.readOp = some op → (pollRead .success op l).1 = .pending

/-- After the poll of the pending read. -/
def Local.polled (l : Local) : Local :=
  match l.conn.readOp with
  | none => l
  | some op => (pollRead .success op l).2

theorem polled_none {l : Local} (empty : l.conn.readOp = none) : l.polled = l := by
  rw [Local.polled, empty]

theorem polled_some {l : Local} {op : ReadOperation} (pending : l.conn.readOp = some op) :
    l.polled = (pollRead .success op l).2 := by
  rw [Local.polled, pending]

/-- A poll of the read does not touch what the write waits for. -/
theorem pollRead_writeStalled (ec : ErrorCode) (op : ReadOperation) (l : Local) :
    writeStalled (pollRead ec op l).2 ↔ writeStalled l := by
  obtain ⟨bytes, taken, stream⟩ := pollRead_stream ec op l
  have waitsnd : ikcpWaitsnd (pollRead ec op l).2.conn.obj = ikcpWaitsnd l.conn.obj :=
    congrArg (fun side : SndSide => (side.nsndBuf + side.nsndQue).toNat) stream.sndSide
  unfold writeStalled
  rw [waitsnd, (pollRead_control ec op l).2.2]

/-- A poll keeps both operations exactly when it completes neither. -/
theorem checkReadOp_kept_iff (l : Local) :
    ((checkReadOp .success l).state.conn.readOp = l.conn.readOp ∧
      (checkReadOp .success l).state.conn.writeOp = l.conn.writeOp) ↔
    l.ReadWaits ∧ writeStalled l := by
  cases readOp : l.conn.readOp with
  | none =>
      have waits : l.ReadWaits := by
        intro op pending
        rw [readOp] at pending
        cases pending
      rw [checkReadOp_none readOp]
      constructor
      · rintro ⟨_, write⟩
        refine ⟨waits, Classical.byContradiction fun ready => ?_⟩
        obtain ⟨done, taken⟩ := checkWriteOp_not_stalled ready
        exact taken (write ▸ done)
      · rintro ⟨_, stalled⟩
        rw [checkWriteOp_stalled stalled]
        exact ⟨readOp, rfl⟩
  | some op =>
      have control := pollRead_control .success op l
      have write := pollRead_writeStalled .success op l
      have outcome : l.ReadWaits ↔ (pollRead .success op l).1 = .pending := by
        constructor
        · exact fun waits => waits op readOp
        · intro waits other pending
          rw [readOp] at pending
          cases pending
          exact waits
      rw [checkReadOp_some readOp, outcome]
      rcases polled : pollRead .success op l with ⟨poll, l'⟩
      rw [polled] at control write
      cases poll with
      | pending =>
          dsimp only
          constructor
          · rintro ⟨_, writes⟩
            refine ⟨rfl, write.mp (Classical.byContradiction fun ready => ?_)⟩
            obtain ⟨done, taken⟩ := checkWriteOp_not_stalled ready
            exact taken (control.2.2.trans (writes ▸ done))
          · rintro ⟨_, stalled⟩
            rw [checkWriteOp_stalled (write.mpr stalled)]
            exact ⟨(pollRead_pending polled).2.trans readOp, control.2.2⟩
      | refused =>
          constructor
          · rintro ⟨kept, _⟩
            change l'.conn.readOp = _ at kept
            rw [(pollRead_refused polled).2.1] at kept
            cases kept
          · rintro ⟨isPending, _⟩
            cases isPending
      | done =>
          constructor
          · rintro ⟨kept, _⟩
            change l'.conn.readOp = _ at kept
            rw [pollRead_done polled] at kept
            cases kept
          · rintro ⟨isPending, _⟩
            cases isPending

theorem checkReadOp_waits {l : Local} (waits : l.ReadWaits) (stalled : writeStalled l) :
    checkReadOp .success l = .ret l.polled () := by
  cases readOp : l.conn.readOp with
  | none => rw [checkReadOp_none readOp, checkWriteOp_stalled stalled, polled_none readOp]
  | some op =>
      have write := (pollRead_writeStalled .success op l).mpr stalled
      have outcome := waits op readOp
      rw [checkReadOp_some readOp, polled_some readOp]
      rcases polled : pollRead .success op l with ⟨poll, l'⟩
      rw [polled] at write outcome
      cases outcome
      exact checkWriteOp_stalled write

theorem readStalled_iff (l : Local) :
    readStalled l ↔ l.ReadWaits ∧ l.polled.conn.delivered = l.conn.delivered := by
  unfold Local.ReadWaits
  cases readOp : l.conn.readOp with
  | none => simp [readStalled, readOp, polled_none readOp]
  | some op => simp [pollRead_stalled_iff readOp, polled_some readOp]

/-- A poll, whatever it does, leaves the state and the receive time alone. -/
theorem checkReadOp_keeps (ec : ErrorCode) (l : Local) :
    (checkReadOp ec l).state.conn.state = l.conn.state ∧
      (checkReadOp ec l).state.conn.nowTick = l.conn.nowTick := by
  have write : ∀ l : Local, (checkWriteOp ec l).state.conn.state = l.conn.state ∧
      (checkWriteOp ec l).state.conn.nowTick = l.conn.nowTick := by
    intro l
    by_cases ready : writeReady ec l
    · cases pending : l.conn.writeOp with
      | none =>
          rw [checkWriteOp_none pending]
          exact ⟨rfl, rfl⟩
      | some handler =>
          rw [checkWriteOp_ready pending ready]
          exact ⟨rfl, rfl⟩
    · rw [checkWriteOp_pending ready]
      exact ⟨rfl, rfl⟩
  cases readOp : l.conn.readOp with
  | none =>
      rw [checkReadOp_none readOp]
      exact write l
  | some op =>
      have control := pollRead_control ec op l
      obtain ⟨bytes, taken, stream⟩ := pollRead_stream ec op l
      rw [checkReadOp_some readOp]
      rcases polled : pollRead ec op l with ⟨outcome, l'⟩
      rw [polled] at control stream
      cases outcome with
      | pending => exact ⟨(write l').1.trans control.1, (write l').2.trans stream.nowTick⟩
      | refused => exact ⟨control.1, stream.nowTick⟩
      | done => exact ⟨control.1, stream.nowTick⟩

/-- The poll of both operations changes nothing exactly when both are stalled. -/
theorem checkReadOp_untouched_iff (l : Local) :
    Untouched l (checkReadOp .success l).state ↔
      readStalled l ∧ writeStalled l := by
  have kept := checkReadOp_kept_iff l
  have keeps := checkReadOp_keeps .success l
  rw [readStalled_iff]
  constructor
  · intro untouched
    obtain ⟨waits, stalled⟩ := kept.mp ⟨untouched.readOp, untouched.writeOp⟩
    have delivered := untouched.delivered
    rw [checkReadOp_waits waits stalled] at delivered
    exact ⟨⟨waits, delivered⟩, stalled⟩
  · rintro ⟨⟨waits, delivered⟩, stalled⟩
    obtain ⟨readOp, writeOp⟩ := kept.mpr ⟨waits, stalled⟩
    refine ⟨keeps.1, keeps.2, ?_, readOp, writeOp⟩
    rw [checkReadOp_waits waits stalled]
    exact delivered

/-- A connection that `close` finds open is closed where it first gives control away. -/
theorem close_state {l : Local} (ec : ErrorCode) (opened : l.conn.state = .opened) :
    (close ec l).state.conn.state = .closed := by
  rw [close_opened ec opened]
  exact (congrArg (fun l : Local => l.conn.state) (Prog.state_bind (fun _ _ => rfl) _)).trans
    (checkReadOp_keeps ec l.beginClose).1

/-! ## The state before the opcode decides -/

/-- A datagram that is long enough has opened the connection and set its time. -/
def Local.touched (l : Local) (t : Int) : Local :=
  { l with conn := { l.conn with
      state := if l.conn.state = .idle then .opened else l.conn.state, nowTick := t } }

/-- `ikcp_input` has ignored the payload, and the poll is next. -/
def Local.unfed (l : Local) (t : Int) : Local :=
  { l with conn := { l.conn with
      state := if l.conn.state = .idle then .opened else l.conn.state
      nowTick := t, nextTick := 0 } }

section Touched
variable {l : Local} {data : List UInt8} {size : Nat} {t : Int}

theorem touched_state_iff (l : Local) (t : Int) :
    (l.touched t).conn.state = l.conn.state ↔ l.conn.state ≠ .idle := by
  change (if l.conn.state = .idle then .opened else l.conn.state) = l.conn.state ↔ _
  cases l.conn.state <;> decide

theorem received_touched (long : ¬ size < 24) (notData : data.getD 0 0 ≠ opcodeData) :
    l.received data size t = l.touched t := by
  rw [Local.received, if_neg long, if_neg notData, Local.touched]

theorem received_unfed (long : ¬ size < 24) (isData : data.getD 0 0 = opcodeData)
    (ignored : (ikcpInput l.conn.obj (data.drop 1) (size - 1)).2 = l.conn.obj) :
    l.received data size t = l.unfed t := by
  rw [Local.received, if_neg long, Local.unfed]
  simp only [isData, if_true, ignored]

end Touched

section Foreign
variable {a b : UInt32} {l : Local} {d : Datagram}

theorem onReceive_data_untouched_iff (conv : l.conn.obj.conv = b) (other : a ≠ b)
    {bytes : List UInt8} (data : DataOf a bytes) (stale : List UInt8) (t : Int) :
    Untouched l (onReceive (opcodeData :: bytes ++ stale) (bytes.length + 1) t l).state ↔
      Isolated l opcodeData t := by
  obtain ⟨seg, rest, rfl, tagged⟩ := data
  have long : 24 ≤ (encodeSegs (seg :: rest)).length := by
    simp only [encodeSegs_cons, List.length_append, ikcpEncodeSeg_length, ikcpOverhead]
    omega
  have header : read32 (encodeSegs (seg :: rest) ++ stale) = a := by
    rw [encodeSegs_cons, List.append_assoc, List.append_assoc, header_conv]
    exact tagged
  have ignored : (ikcpInput l.conn.obj (encodeSegs (seg :: rest) ++ stale)
      (encodeSegs (seg :: rest)).length).2 = l.conn.obj :=
    ikcpInput_foreign (by simp only [ikcpOverhead]; omega) (by rw [header, conv]; exact other)
  have enough : ¬ (encodeSegs (seg :: rest)).length + 1 < 24 := by omega
  have received : l.received (opcodeData :: encodeSegs (seg :: rest) ++ stale)
      ((encodeSegs (seg :: rest)).length + 1) t = l.unfed t :=
    received_unfed enough rfl ignored
  rw [onReceive_eq, if_neg enough, if_pos (by rfl), received]
  have poll := checkReadOp_untouched_iff (l.unfed t)
  have keeps := checkReadOp_keeps .success (l.unfed t)
  constructor
  · intro untouched
    have active := (touched_state_iff l t).mp (keeps.1.symm.trans untouched.state)
    have tick : t = l.conn.nowTick := keeps.2.symm.trans untouched.nowTick
    have stalled := poll.mp
      ⟨keeps.1, keeps.2, untouched.delivered, untouched.readOp, untouched.writeOp⟩
    refine ⟨tick.symm, ?_⟩
    rw [if_pos rfl]
    exact ⟨active, stalled⟩
  · rintro ⟨tick, rest⟩
    rw [if_pos rfl] at rest
    obtain ⟨active, stalled⟩ := rest
    have within := poll.mpr stalled
    exact ⟨within.state.trans ((touched_state_iff l t).mpr active), within.nowTick.trans tick.symm,
      within.delivered, within.readOp, within.writeOp⟩

theorem onReceive_disconnect_untouched_iff (stale : List UInt8) (t : Int) :
    Untouched l (onReceive (opcodeDisconnect :: List.replicate 32 0 ++ stale) 33 t l).state ↔
      Isolated l opcodeDisconnect t := by
  have opcode : (opcodeDisconnect :: List.replicate 32 0 ++ stale).getD 0 0 = opcodeDisconnect := rfl
  have notData : ¬ opcodeDisconnect = opcodeData := by decide
  have received : l.received (opcodeDisconnect :: List.replicate 32 0 ++ stale) 33 t = l.touched t :=
    received_touched (by decide) notData
  rw [onReceive_eq, if_neg (by decide), opcode, if_neg notData, if_pos rfl, received]
  by_cases closed : l.conn.state = .closed
  · have stays : (l.touched t).conn.state = l.conn.state :=
      (touched_state_iff l t).mpr (by rw [closed]; decide)
    have other : (l.touched t).conn.state ≠ .opened := by
      rw [stays, closed]
      decide
    rw [close_not_opened .eof other]
    constructor
    · intro untouched
      exact ⟨untouched.nowTick.symm, closed⟩
    · rintro ⟨tick, _⟩
      exact ⟨stays, tick.symm, rfl, rfl, rfl⟩
  · have opened : (l.touched t).conn.state = .opened := by
      change (if l.conn.state = .idle then .opened else l.conn.state) = .opened
      cases state : l.conn.state with
      | idle => rfl
      | opened => rfl
      | closed => exact absurd state closed
    constructor
    · intro untouched
      have state := untouched.state
      rw [close_state .eof opened] at state
      exact absurd state.symm closed
    · rintro ⟨_, isClosed⟩
      exact absurd isClosed closed

/-- `on_receive` of a datagram that another session sent. -/
theorem onReceive_untouched_iff (conv : l.conn.obj.conv = b) (other : a ≠ b)
    (emitted : EmittedBy a d) (stale : List UInt8) (t : Int) :
    Untouched l (onReceive (d.bytes ++ stale) d.bytes.length t l).state ↔
      Isolated l (d.bytes.getD 0 0) t := by
  rcases emitted with ⟨bytes, shape, data⟩ | shape
  · rw [shape]
    exact onReceive_data_untouched_iff conv other data stale t
  · rw [shape]
    exact onReceive_disconnect_untouched_iff stale t

end Foreign

/-- A datagram of the session `a` leaves the session `b` alone exactly in the
isolated states. -/
theorem foreign_datagram_iff {a b : UInt32} (other : a ≠ b) {start c : Config Local}
    (emitter : Started a start) (emits : connectionSystem.Steps (fun _ _ => True) start c)
    {d : Datagram} (sent : d ∈ c.state.env.sent) {start' e e' : Config Local}
    (receiver : Started b start') (run : connectionSystem.Steps (fun _ _ => True) start' e)
    (stale : List UInt8) (t : Int) (stepped : connectionSystem.step e
      (.event (.onReceive (d.bytes ++ stale) d.bytes.length t)) = some e') :
    Untouched e.state e'.state ↔ Isolated e.state (d.bytes.getD 0 0) t := by
  have emitted := (run_signed emitter emits).sent d sent
  have conv := (run_signed receiver run).tagged.1
  obtain ⟨_, rfl⟩ := step_event stepped
  rw [enter_state]
  exact onReceive_untouched_iff conv other emitted stale t

/-- The disconnect datagram of a client to `loopback`. -/
def disconnectDatagram : Datagram := ⟨loopback, opcodeDisconnect :: List.replicate 32 0⟩

theorem client_sends_disconnect : ∃ c, connectionSystem.Steps (fun _ _ => True)
    (clientStart 7 loopback 0 noStreambufs) c ∧ disconnectDatagram ∈ c.state.env.sent := by
  obtain ⟨c, ran, sent⟩ := run_checked connectionSystem (clientStart 7 loopback 0 noStreambufs)
    [.call (.close .eof), .answer true] (fun c => c.state.env.sent.contains disconnectDatagram)
    (by decide)
  exact ⟨c, steps_of_run connectionSystem (fun _ => True) _ (fun _ _ => trivial) ran,
    List.contains_iff_mem.mp sent⟩

/-- The disconnect datagram reaches an open connection of the session 8. -/
theorem disconnect_reaches_session (check : Config Local → Bool)
    (ran : (connectionSystem.run (serverStart 8 loopback 0 noStreambufs)
      [.event (.onReceive keepalive 24 0),
        .event (.onReceive (disconnectDatagram.bytes ++ []) disconnectDatagram.bytes.length 0)]).map
          check = some true) :
    ∃ e e', connectionSystem.Steps (fun _ _ => True) (serverStart 8 loopback 0 noStreambufs) e ∧
      e.state.conn.state = .opened ∧
      connectionSystem.step e (.event
        (.onReceive (disconnectDatagram.bytes ++ []) disconnectDatagram.bytes.length 0)) = some e' ∧
      check e' = true := by
  obtain ⟨e, before, opened⟩ := run_checked connectionSystem
    (serverStart 8 loopback 0 noStreambufs) [.event (.onReceive keepalive 24 0)]
    (fun e => decide (e.state.conn.state = .opened)) (by decide)
  have whole := run_append connectionSystem [.event (.onReceive keepalive 24 0)] [.event
    (.onReceive (disconnectDatagram.bytes ++ []) disconnectDatagram.bytes.length 0)] before
  rw [List.singleton_append] at whole
  rw [whole] at ran
  obtain ⟨e', after, holds⟩ := run_checked connectionSystem e _ check ran
  refine ⟨e, e', steps_of_run connectionSystem (fun _ => True) _ (fun _ _ => trivial) before,
    of_decide_eq_true opened, ?_, holds⟩
  simpa [System.run, Option.bind_eq_some_iff] using after

theorem client_sends_data : ∃ c d, connectionSystem.Steps (fun _ _ => True)
    (clientStart 7 loopback 0 noStreambufs) c ∧ d ∈ c.state.env.sent ∧
      d.bytes.getD 0 0 = opcodeData := by
  obtain ⟨c, ran, checked⟩ := run_checked connectionSystem (clientStart 7 loopback 0 noStreambufs)
    [.call (.asyncWrite [42]), .event (.update 0)]
    (fun c => c.state.env.sent.any fun d => d.bytes.getD 0 0 == opcodeData) (by decide)
  obtain ⟨d, sent, data⟩ := List.any_eq_true.mp checked
  exact ⟨c, d, steps_of_run connectionSystem (fun _ => True) _ (fun _ _ => trivial) ran, sent,
    eq_of_beq data⟩

/-- Data of the session 7 reaches the session 8 while it waits for its own. -/
theorem foreign_data_untouched : ∃ (d : Datagram) (e e' : Config Local),
    d.bytes.getD 0 0 = opcodeData ∧
    connectionSystem.Steps (fun _ _ => True) (serverStart 8 loopback 0 noStreambufs) e ∧
    e.state.conn.readOp = some (.readSome 0 10) ∧
    connectionSystem.step e (.event (.onReceive (d.bytes ++ []) d.bytes.length 0)) = some e' ∧
    Untouched e.state e'.state := by
  obtain ⟨c, d, emits, sent, isData⟩ := client_sends_data
  obtain ⟨e, ran, checked⟩ := run_checked connectionSystem (serverStart 8 loopback 0 noStreambufs)
    [.event (.onReceive keepalive 24 0), .call (.asyncReadSome 10)]
    (fun e => e.isIdle && decide (e.state.conn.nowTick = 0 ∧ e.state.conn.state = .opened ∧
      e.state.conn.readOp = some (.readSome 0 10) ∧ e.state.conn.writeOp = none ∧
      e.state.conn.obj.rcvQueue = [])) (by decide)
  obtain ⟨isIdle, shape⟩ := Bool.and_eq_true_iff.mp checked
  obtain ⟨tick, opened, pending, noWrite, empty⟩ := of_decide_eq_true shape
  have run := steps_of_run connectionSystem (fun _ => True) _ (fun _ _ => trivial) ran
  have idle := (idle_of_isIdle isIdle).eq
  have stepped : ∃ e', connectionSystem.step e
      (.event (.onReceive (d.bytes ++ []) d.bytes.length 0)) = some e' := by
    rw [idle]
    exact ⟨_, rfl⟩
  obtain ⟨e', stepped⟩ := stepped
  have stalled : readStalled e.state := by
    rw [readStalled, pending]
    exact Or.inl (Or.inl (not_complete_of_empty empty))
  refine ⟨d, e, e', isData, run, pending, stepped, ?_⟩
  refine (foreign_datagram_iff (by decide) (.client loopback 0 noStreambufs) emits sent
    (.server loopback 0 noStreambufs) run [] 0 stepped).mpr ⟨tick, ?_⟩
  rw [isData, if_pos rfl]
  exact ⟨by rw [opened]; decide, stalled, Or.inl noWrite⟩

/-- The disconnect datagram of an old session closes the connection of the new one. -/
theorem old_disconnect_closes_session : ¬ ∀ (c : Config Local) (d : Datagram) (e e' : Config Local),
    connectionSystem.Steps (fun _ _ => True) (clientStart 7 loopback 0 noStreambufs) c →
    d ∈ c.state.env.sent →
    connectionSystem.Steps (fun _ _ => True) (serverStart 8 loopback 0 noStreambufs) e →
    connectionSystem.step e (.event (.onReceive (d.bytes ++ []) d.bytes.length 0)) = some e' →
    Untouched e.state e'.state := by
  intro claim
  obtain ⟨c, emits, sent⟩ := client_sends_disconnect
  obtain ⟨e, e', run, opened, stepped, closed⟩ := disconnect_reaches_session
    (fun e' => decide (e'.state.conn.state = .closed)) (by decide)
  have untouched := claim c disconnectDatagram e e' emits sent run stepped
  have state := untouched.state
  rw [of_decide_eq_true closed, opened] at state
  cases state

end AsioKcp
