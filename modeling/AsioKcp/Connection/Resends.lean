import AsioKcp.Connection.Framing
import AsioKcp.Connection.Ticks
import AsioKcp.Ikcp.Resends

/-! # What one update sends

`update` may flush twice at one time, in `ikcp_update` and on its own account. -/
set_option autoImplicit false

namespace AsioKcp

open AsioKcp.Ikcp AsioKcp.Callback AsioKcp.Machine

/-- The segments that a connection with this conv reads out of `bytes`. -/
def wireSegs (conv : UInt32) (bytes : List UInt8) : List WireSeg :=
  (inputSegs conv bytes.length bytes bytes.length).map IkcpSeg.wire

/-- The segments in the datagrams that an update hands to the socket. -/
def transmitted (l : Local) (now : Int) : List WireSeg :=
  ((l.update now).env.sent.drop l.env.sent.length).flatMap fun d =>
    wireSegs l.conn.obj.conv (d.bytes.drop 1)

/-- No number is pushed twice, no pending ack is sent twice, and there is at
most one probe of each kind. -/
structure SentOnce (acklist : List (UInt32 × UInt32)) (sent : List WireSeg) : Prop where
  data : ((sent.filter fun seg => seg.cmd = ikcpCmdPush).map WireSeg.sn).Nodup
  acks : ((sent.filter fun seg => seg.cmd = ikcpCmdAck).map fun seg =>
    (seg.sn, seg.ts)).Sublist acklist
  asks : (sent.filter fun seg => seg.cmd = ikcpCmdWask).length ≤ 1
  tells : (sent.filter fun seg => seg.cmd = ikcpCmdWins).length ≤ 1

/-- An update at `now` flushes in `ikcp_update` and again itself. -/
def FlushesTwice (c : Connection) (now : Int) : Prop :=
  c.nextTick ≤ now ∧ (updateReady c.obj (UInt32.ofInt now)).isSome ∧
    (now + dueIn c.obj (UInt32.ofInt now)) % 2 ^ 32 - now < updateInterval

instance (c : Connection) (now : Int) : Decidable (FlushesTwice c now) :=
  inferInstanceAs (Decidable (_ ∧ _ ∧ _))

theorem extraFlush_iff {c : Connection} {now : Int} (interval : c.obj.interval = 10) :
    extraFlush c now ↔
      (now + dueIn c.obj (UInt32.ofInt now)) % 2 ^ 32 - now < updateInterval := by
  rw [extraFlush, nextTick_word interval]

/-! ## The kinds of segments -/

theorem dataSegs_push {conv : UInt32} {kcp : Ikcpcb} (outgoing : Outgoing conv kcp) :
    ∀ seg ∈ dataSegs kcp, seg.cmd = ikcpCmdPush := by
  obtain ⟨out, live, sending, _⟩ := (flushMoved_outgoing outgoing).numbering
  intro seg member
  obtain ⟨sent, isSent, rfl⟩ := List.mem_map.mp member
  have inBuf := List.mem_map_of_mem (f := IkcpSeg.core) (List.mem_of_mem_filter isSent)
  rw [sending.buf] at inBuf
  obtain ⟨i, _, same⟩ := List.mem_map.mp inBuf
  exact congrArg SegCore.cmd ((flushSegment_core _ _ sent).trans same.symm)

theorem ackSegs_ack (kcp : Ikcpcb) : ∀ seg ∈ ackSegs kcp, seg.cmd = ikcpCmdAck := by
  intro seg member
  obtain ⟨ack, _, rfl⟩ := List.mem_map.mp member
  rfl

/-- The commands of the probes, each at most once. -/
theorem probeSegs_cmds (kcp : Ikcpcb) : ∃ ask tell : List IkcpSeg, probeSegs kcp = ask ++ tell ∧
    (∀ seg ∈ ask, seg.cmd = ikcpCmdWask) ∧ (∀ seg ∈ tell, seg.cmd = ikcpCmdWins) ∧
    ask.length ≤ 1 ∧ tell.length ≤ 1 := by
  refine ⟨_, _, rfl, ?_, ?_, ?_, ?_⟩
  · intro seg member
    split at member
    · rw [List.mem_singleton.mp member]
    · cases member
  · intro seg member
    split at member
    · rw [List.mem_singleton.mp member]
    · cases member
  · split <;> simp
  · split <;> simp

theorem filter_cmd {segs : List IkcpSeg} {cmd : UInt32} (all : ∀ seg ∈ segs, seg.cmd = cmd)
    (c : UInt32) : (segs.filter fun seg => seg.cmd = c) = if cmd = c then segs else [] := by
  split
  · rename_i same
    exact List.filter_eq_self.mpr fun seg member => by simp [all seg member, same]
  · rename_i other
    exact List.filter_eq_nil_iff.mpr fun seg member => by simp [all seg member, other]

/-- What is sent behind the acks and probes of one flush decides. -/
theorem sentOnce_iff (kcp : Ikcpcb) {data : List IkcpSeg}
    (pushes : ∀ seg ∈ data, seg.cmd = ikcpCmdPush) :
    SentOnce kcp.acklist ((ackSegs kcp ++ probeSegs kcp ++ data).map IkcpSeg.wire) ↔
      (data.map IkcpSeg.sn).Nodup := by
  obtain ⟨ask, tell, probes, asks, tells, askOnce, tellOnce⟩ := probeSegs_cmds kcp
  have sections : ∀ c : UInt32,
      ((ackSegs kcp ++ probeSegs kcp ++ data).map IkcpSeg.wire).filter (fun seg => seg.cmd = c) =
        ((if ikcpCmdAck = c then ackSegs kcp else []) ++ ((if ikcpCmdWask = c then ask else []) ++
          (if ikcpCmdWins = c then tell else [])) ++
          (if ikcpCmdPush = c then data else [])).map IkcpSeg.wire := by
    intro c
    rw [List.filter_map, probes, ← filter_cmd (ackSegs_ack kcp), ← filter_cmd asks,
      ← filter_cmd tells, ← filter_cmd pushes, ← List.filter_append, ← List.filter_append,
      ← List.filter_append]
    rfl
  have acks : (ackSegs kcp).map (fun seg => (seg.sn, seg.ts)) = kcp.acklist := by
    rw [ackSegs, List.map_map]
    exact List.map_id _
  have push : ((ackSegs kcp ++ probeSegs kcp ++ data).map IkcpSeg.wire).filter
      (fun seg => seg.cmd = ikcpCmdPush) = data.map IkcpSeg.wire := sections ikcpCmdPush
  constructor
  · intro once
    have nodup := once.data
    rw [push, List.map_map] at nodup
    exact nodup
  · intro nodup
    refine ⟨?_, ?_, ?_, ?_⟩
    · rw [push, List.map_map]
      exact nodup
    · have isAck : ((ackSegs kcp ++ probeSegs kcp ++ data).map IkcpSeg.wire).filter
          (fun seg => seg.cmd = ikcpCmdAck) =
            (ackSegs kcp ++ ([] ++ []) ++ []).map IkcpSeg.wire := sections ikcpCmdAck
      rw [isAck, List.append_nil, List.append_nil, List.append_nil, List.map_map]
      exact (congrArg (List.Sublist · kcp.acklist) acks).mpr (List.Sublist.refl _)
    · have isAsk : ((ackSegs kcp ++ probeSegs kcp ++ data).map IkcpSeg.wire).filter
          (fun seg => seg.cmd = ikcpCmdWask) = ([] ++ (ask ++ []) ++ []).map IkcpSeg.wire :=
        sections ikcpCmdWask
      rw [isAsk, List.nil_append, List.append_nil, List.append_nil, List.length_map]
      exact askOnce
    · have isTell : ((ackSegs kcp ++ probeSegs kcp ++ data).map IkcpSeg.wire).filter
          (fun seg => seg.cmd = ikcpCmdWins) = ([] ++ ([] ++ tell) ++ []).map IkcpSeg.wire :=
        sections ikcpCmdWins
      rw [isTell, List.nil_append, List.nil_append, List.append_nil, List.length_map]
      exact tellOnce

/-! ## The segments of an update -/

/-- The segments of a flush are read out of its datagrams. -/
theorem flush_wireSegs {conv : UInt32} {kcp : Ikcpcb} (served : Served conv kcp)
    (updated : kcp.updated ≠ 0) :
    (ikcpFlush kcp).2.flatMap (wireSegs conv) = (flushSegs kcp).map IkcpSeg.wire := by
  obtain ⟨groups, datagrams, flatten, packed⟩ := flush_groups served
  rw [if_neg updated] at flatten
  have read : ∀ group ∈ groups, wireSegs conv (encodeSegs group) = group.map IkcpSeg.wire := by
    intro group member
    obtain ⟨_, encodable, _⟩ := packed group member
    have enough := length_le_encodeSegs group
    have fuel : group.length ≤ (encodeSegs group).length := by
      simp only [ikcpOverhead] at enough
      omega
    have decoded := inputSegs_encode group _ [] fuel fun seg inside =>
      (encodable seg inside).decodable
    rw [List.append_nil] at decoded
    rw [wireSegs, decoded, List.map_map]
    exact List.map_congr_left fun seg inside => (encodable seg inside).wire
  rw [datagrams, ← flatten, List.flatMap_map, List.map_flatten, List.flatMap_def]
  exact congrArg List.flatten (List.map_congr_left read)

/-- The datagrams of an update, read by its peer. -/
theorem transmitted_eq {conv : UInt32} {l : Local} (same : l.conn.obj.conv = conv) (now : Int) :
    transmitted l now = (updateEffect l.conn now).2.2.flatMap (wireSegs conv) := by
  rw [transmitted, update_eq, same, List.drop_left, dataDatagrams, List.flatMap_map]
  rfl

theorem ready_dueAgain {kcp ready : Ikcpcb} {now : UInt32} (readied : Readied kcp now ready)
    (seg : IkcpSeg) : DueAgain ready seg ↔ DueAgain { kcp with current := now } seg := by
  have same : transmit ready seg = transmit { kcp with current := now } seg :=
    @transmit_congr { kcp with current := now } ready readied.current readied.params seg
  rw [DueAgain, DueAgain, same]

theorem fast_init (conv : UInt32) : Fast (initKcpContext conv).params := ⟨rfl, rfl, rfl⟩

theorem paced_init (conv : UInt32) : Paced (initKcpContext conv) := by
  have rto : 0 < ikcpRtoDef.toUInt32.toNat ∧ ikcpRtoDef.toUInt32.toNat ≤ 60000 := by decide
  exact ⟨rfl, rto.1, rto.2, Nat.zero_le _⟩

/-- One flush repeats nothing. -/
theorem flush_sentOnce {conv : UInt32} {kcp : Ikcpcb} (served : Served conv kcp) :
    SentOnce kcp.acklist ((flushSegs kcp).map IkcpSeg.wire) :=
  (sentOnce_iff kcp (dataSegs_push served.2)).mpr (dataSegs_nodup served.2)

/-- Two flushes at one time. -/
theorem flush_flush_sentOnce_iff {conv : UInt32} {kcp : Ikcpcb} (served : Served conv kcp)
    (paced : Paced kcp) (updated : kcp.updated ≠ 0) :
    SentOnce kcp.acklist ((flushSegs kcp ++ flushSegs (ikcpFlush kcp).1).map IkcpSeg.wire) ↔
      ∀ seg ∈ kcp.sndBuf, ¬ DueAgain kcp seg := by
  have fast : Fast kcp.params := served.1 ▸ fast_init conv
  have later := (served_lasting conv).flush served
  have pushes : ∀ seg ∈ dataSegs kcp ++ dataSegs (ikcpFlush kcp).1, seg.cmd = ikcpCmdPush := by
    intro seg member
    rcases List.mem_append.mp member with first | second
    · exact dataSegs_push served.2 seg first
    · exact dataSegs_push later.2 seg second
  rw [flushSegs_after (ikcpFlush_after updated) paced.wait, flushSegs, List.append_assoc,
    sentOnce_iff kcp pushes]
  exact dataSegs_twice_iff served.2 fast paced updated

theorem updateEffect_datagrams (c : Connection) (now : Int) :
    (updateEffect c now).2.2 =
      if c.nextTick ≤ now then
        (ikcpUpdate c.obj (UInt32.ofInt now)).2 ++
          if extraFlush c now then (ikcpFlush (ikcpUpdate c.obj (UInt32.ofInt now)).1).2 else []
      else [] := by
  unfold updateEffect
  by_cases due : c.nextTick ≤ now
  · rw [if_pos due, if_pos due]
    by_cases extra : extraFlush c now
    · rw [if_pos extra]
      unfold extraFlush at extra
      dsimp only
      rw [if_pos extra]
    · rw [if_neg extra, List.append_nil]
      unfold extraFlush at extra
      dsimp only
      rw [if_neg extra]
  · rw [if_neg due, if_neg due]

/-- An update repeats nothing unless it flushes twice and its first transmission
leaves some segment of `snd_buf` due. -/
theorem update_sentOnce_iff {conv : UInt32} {start c : Config Local} (started : Started conv start)
    (run : connectionSystem.Steps (fun _ _ => True) start c) (now : Int) :
    SentOnce c.state.conn.obj.acklist (transmitted c.state now) ↔
      ¬ (FlushesTwice c.state.conn now ∧ ∃ seg ∈ c.state.conn.obj.sndBuf,
        DueAgain { c.state.conn.obj with current := UInt32.ofInt now } seg) := by
  have served : Served conv c.state.conn.obj :=
    run_lasting (served_lasting conv) started (served_init conv) run
  have paced : Paced c.state.conn.obj := run_lasting paced_lasting started (paced_init conv) run
  have interval := reachable_interval started run
  have same : c.state.conn.obj.conv = conv := congrArg Params.conv served.1
  have nothing : ∀ acklist, SentOnce acklist [] := fun acklist =>
    ⟨List.nodup_nil, List.nil_sublist _, Nat.zero_le _, Nat.zero_le _⟩
  rw [transmitted_eq same, updateEffect_datagrams, FlushesTwice, ← extraFlush_iff interval]
  generalize c.state.conn = conn at served paced interval ⊢
  have servedLater := (served_lasting conv).update (UInt32.ofInt now) served
  by_cases due : conn.nextTick ≤ now
  · rw [if_pos due]
    cases isReady : updateReady conn.obj (UInt32.ofInt now) with
    | none =>
        have idle : ikcpUpdate conn.obj (UInt32.ofInt now) =
            ({ conn.obj with current := UInt32.ofInt now }, []) := by
          rw [ikcpUpdate_eq, isReady]
        have updated : (ikcpUpdate conn.obj (UInt32.ofInt now)).1.updated ≠ 0 := by
          rw [idle]
          exact (updateReady_none isReady).1
        have acks : (ikcpUpdate conn.obj (UInt32.ofInt now)).1.acklist = conn.obj.acklist := by
          rw [idle]
        have silent : (ikcpUpdate conn.obj (UInt32.ofInt now)).2 = [] := by
          rw [idle]
        simp only [Option.isSome_none, Bool.false_eq_true, false_and, and_false, not_false_eq_true,
          iff_true, silent, List.nil_append]
        split
        · rw [flush_wireSegs servedLater updated, ← acks]
          exact flush_sentOnce servedLater
        · exact nothing _
    | some ready =>
        have ten : conn.obj.interval.toNat = 10 := congrArg UInt32.toNat interval
        have readied := updateReady_readied isReady (by omega) (by omega)
        have servedReady := (served_lasting conv).ready isReady served
        have pacedReady := paced_lasting.ready isReady paced
        have flushed : ikcpUpdate conn.obj (UInt32.ofInt now) = ikcpFlush ready := by
          rw [ikcpUpdate_eq, isReady]
        have updated : (ikcpFlush ready).1.updated ≠ 0 := by
          rw [(ikcpFlush_times ready).2]
          exact readied.updated
        have again : (∃ seg ∈ conn.obj.sndBuf,
              DueAgain { conn.obj with current := UInt32.ofInt now } seg) ↔
            ¬ ∀ seg ∈ ready.sndBuf, ¬ DueAgain ready seg := by
          simp only [readied.sndBuf, ready_dueAgain readied, not_forall, not_not, exists_prop]
        rw [flushed] at servedLater ⊢
        rw [List.flatMap_append, flush_wireSegs servedReady readied.updated, ← readied.acklist,
          again]
        by_cases extra : extraFlush conn now
        · rw [if_pos extra, flush_wireSegs servedLater updated, ← List.map_append,
            flush_flush_sentOnce_iff servedReady pacedReady readied.updated]
          simp only [due, extra, Option.isSome_some, true_and, not_not]
        · rw [if_neg extra, List.flatMap_nil, List.append_nil]
          simp only [extra, and_false, false_and, not_false_eq_true, iff_true]
          exact flush_sentOnce servedReady
  · rw [if_neg due]
    simp only [due, false_and, not_false_eq_true, iff_true]
    exact nothing _

/-- An ack of number `sn`, for the conv 7. -/
def ackDatagram (sn ts : UInt32) : List UInt8 :=
  opcodeData :: encodeSegs [{ ikcpSegmentNew 0 [] with
    conv := 7, cmd := ikcpCmdAck, wnd := 256, sn := sn, ts := ts }]

/-- Of three segments the acks of the last two have come, and the update that
resends the first flushes twice. -/
theorem update_sentOnce_iff_resent : ∃ c,
    connectionSystem.Steps (fun _ _ => True) (clientStart 7 loopback 0 noStreambufs) c ∧
      FlushesTwice c.state.conn 36 ∧ c.state.conn.obj.sndBuf.map IkcpSeg.sn = [0] ∧
      (transmitted c.state 36).map WireSeg.sn = [0] ∧
      SentOnce c.state.conn.obj.acklist (transmitted c.state 36) := by
  obtain ⟨c, ran, checked⟩ := run_checked connectionSystem (clientStart 7 loopback 0 noStreambufs)
    [.call (.asyncWrite [1]), .event (.update 0), .call (.asyncWrite [2]), .event (.update 10),
      .call (.asyncWrite [3]), .event (.update 20),
      .event (.onReceive (ackDatagram 1 10) 25 34), .event (.onReceive (ackDatagram 2 20) 25 34)]
    (fun c => decide (FlushesTwice c.state.conn 36 ∧ c.state.conn.obj.sndBuf.map IkcpSeg.sn = [0] ∧
      (transmitted c.state 36).map WireSeg.sn = [0] ∧ ∀ seg ∈ c.state.conn.obj.sndBuf,
        ¬ DueAgain { c.state.conn.obj with current := UInt32.ofInt 36 } seg)) (by decide)
  obtain ⟨twice, flight, sent, single⟩ := of_decide_eq_true checked
  have run := steps_of_run connectionSystem (fun _ => True) _ (fun _ _ => trivial) ran
  exact ⟨c, run, twice, flight, sent,
    (update_sentOnce_iff (.client loopback 0 noStreambufs) run 36).mpr
      fun ⟨_, seg, member, again⟩ => single seg member again⟩

/-- Three segments, of which the first is lost and the others acked so late that
its timeout comes before its fast resend. -/
def lateAcks : List (Label Event Call) :=
  [.call (.asyncWrite [1]), .event (.update 0), .call (.asyncWrite [2]), .event (.update 10),
    .call (.asyncWrite [3]), .event (.update 20), .event (.update 190),
    .event (.onReceive (ackDatagram 1 10) 25 195), .event (.onReceive (ackDatagram 2 20) 25 195)]

theorem update_sends_twice : ¬ ∀ c : Config Local, connectionSystem.Steps (fun _ _ => True)
    (clientStart 7 loopback 0 noStreambufs) c → ∀ now : Int,
      SentOnce c.state.conn.obj.acklist (transmitted c.state now) := by
  intro claimed
  obtain ⟨c, ran, checked⟩ := run_checked connectionSystem (clientStart 7 loopback 0 noStreambufs)
    lateAcks (fun c => decide (((transmitted c.state 206).filter fun seg =>
      seg.cmd = ikcpCmdPush).map WireSeg.sn = [0, 0])) (by decide)
  have run := steps_of_run connectionSystem (fun _ => True) _ (fun _ _ => trivial) ran
  have once := (claimed c run 206).data
  rw [of_decide_eq_true checked] at once
  exact absurd once (by decide)

end AsioKcp
