import AsioKcp.Ikcp.Lasting

/-! # The backlog of the send side

`nsnd_buf` and `nsnd_que` count the two queues of the send side.  Only
`ikcp_send` makes the backlog longer, by less than 128 segments, and not at all
when it refuses the buffer. -/
set_option autoImplicit false

namespace AsioKcp.Ikcp

open AsioKcp.Serial

def backlog (kcp : Ikcpcb) : Nat := kcp.sndBuf.length + kcp.sndQueue.length

structure Counted (kcp : Ikcpcb) : Prop where
  nsndBuf : kcp.nsndBuf = UInt32.ofNat kcp.sndBuf.length
  nsndQue : kcp.nsndQue = UInt32.ofNat kcp.sndQueue.length

section Backlog
variable {kcp kcp' : Ikcpcb}

theorem Counted.congr (counted : Counted kcp) (side : kcp'.sndSide = kcp.sndSide) :
    Counted kcp' where
  nsndBuf := by
    rw [show kcp'.nsndBuf = kcp.nsndBuf from congrArg SndSide.nsndBuf side,
      show kcp'.sndBuf = kcp.sndBuf from congrArg SndSide.sndBuf side]
    exact counted.nsndBuf
  nsndQue := by
    rw [show kcp'.nsndQue = kcp.nsndQue from congrArg SndSide.nsndQue side,
      show kcp'.sndQueue = kcp.sndQueue from congrArg SndSide.sndQueue side]
    exact counted.nsndQue

theorem backlog_congr (side : kcp'.sndSide = kcp.sndSide) : backlog kcp' = backlog kcp :=
  congrArg (fun side : SndSide => side.sndBuf.length + side.sndQueue.length) side

/-- `ikcp_waitsnd` is the backlog while this is below `2 ^ 32`. -/
theorem waitsnd_eq (counted : Counted kcp) (short : backlog kcp < 2 ^ 32) :
    ikcpWaitsnd kcp = backlog kcp := by
  rw [ikcpWaitsnd, counted.nsndBuf, counted.nsndQue, ← UInt32.ofNat_add, UInt32.toNat_ofNat']
  exact Nat.mod_eq_of_lt short

theorem ofNat_sub_removed {whole left : Nat} (fewer : left ≤ whole) :
    UInt32.ofNat whole - UInt32.ofNat (whole - left) = UInt32.ofNat left := by
  have split : UInt32.ofNat whole = UInt32.ofNat left + UInt32.ofNat (whole - left) := by
    rw [← UInt32.ofNat_add, Nat.add_sub_cancel' fewer]
  rw [split]
  exact UInt32.add_sub_cancel _ _

theorem removeAcked_length_le (sn : UInt32) (segs : List IkcpSeg) :
    (removeAcked sn segs).length ≤ segs.length :=
  (removeAcked_sublist sn segs).length_le

theorem ikcpParseAck_counted (sn : UInt32) (counted : Counted kcp) :
    Counted (ikcpParseAck kcp sn) := by
  unfold ikcpParseAck
  split
  · exact counted
  · refine ⟨?_, counted.nsndQue⟩
    dsimp only
    rw [counted.nsndBuf]
    exact ofNat_sub_removed (removeAcked_length_le sn kcp.sndBuf)

theorem ikcpParseUna_counted (una : UInt32) (counted : Counted kcp) :
    Counted (ikcpParseUna kcp una) := by
  refine ⟨?_, counted.nsndQue⟩
  unfold ikcpParseUna
  dsimp only
  rw [counted.nsndBuf]
  exact ofNat_sub_removed (List.dropWhile_sublist _).length_le

theorem ikcpShrinkBuf_counted (counted : Counted kcp) : Counted (ikcpShrinkBuf kcp) := by
  unfold ikcpShrinkBuf
  split
  · exact ⟨counted.nsndBuf, counted.nsndQue⟩
  · exact ⟨counted.nsndBuf, counted.nsndQue⟩

theorem inputKcp_counted (seg : IkcpSeg) (counted : Counted kcp) : Counted (inputKcp kcp seg) := by
  have header : Counted (inputHeader kcp seg) :=
    ikcpShrinkBuf_counted (ikcpParseUna_counted seg.una ⟨counted.nsndBuf, counted.nsndQue⟩)
  unfold inputKcp
  dsimp only
  split_ifs
  · apply ikcpShrinkBuf_counted
    apply ikcpParseAck_counted
    split
    · exact ⟨header.nsndBuf, header.nsndQue⟩
    · exact header
  · exact header.congr (inputPush_sndSide _ seg)
  · exact ⟨header.nsndBuf, header.nsndQue⟩
  · exact header

theorem moveToSndBuf_counted (cwnd wnd : UInt32) (segs : List IkcpSeg) :
    ∀ {kcp : Ikcpcb}, Counted { kcp with sndQueue := segs } →
      Counted (moveToSndBuf cwnd wnd segs kcp) := by
  induction segs with
  | nil => exact fun counted => counted
  | cons seg rest ih =>
      intro kcp counted
      simp only [moveToSndBuf]
      split
      · apply ih
        constructor
        · have buf : kcp.nsndBuf = UInt32.ofNat kcp.sndBuf.length := counted.nsndBuf
          rw [List.length_append, List.length_singleton, ← ofNat_succ, buf]
        · have que : kcp.nsndQue = UInt32.ofNat (rest.length + 1) := counted.nsndQue
          rw [que, ← ofNat_succ]
          exact UInt32.add_sub_cancel _ _
      · exact counted

theorem ikcpFlush_counted (counted : Counted kcp) : Counted (ikcpFlush kcp).1 := by
  have moved : Counted (flushMoved kcp) := by
    apply moveToSndBuf_counted
    exact ⟨counted.nsndBuf, counted.nsndQue⟩
  unfold ikcpFlush
  split
  · exact counted
  · refine ⟨?_, moved.nsndQue⟩
    dsimp only [flushSsthresh]
    rw [List.length_map]
    exact moved.nsndBuf

theorem sendFragments_length (stream : Int) (mss count : Nat) (buffer : List UInt8) :
    (sendFragments stream mss count buffer).length = count := by
  induction count generalizing buffer with
  | zero => rfl
  | succ count ih => simp [sendFragments, ih]

theorem sendExtend_counts (kcp : Ikcpcb) (buffer : List UInt8) :
    (sendExtend kcp buffer).1.sndBuf = kcp.sndBuf ∧
      (sendExtend kcp buffer).1.nsndBuf = kcp.nsndBuf ∧
      (sendExtend kcp buffer).1.nsndQue = kcp.nsndQue ∧
      (sendExtend kcp buffer).1.sndQueue.length = kcp.sndQueue.length := by
  unfold sendExtend
  cases last : kcp.sndQueue.getLast? with
  | none => exact ⟨rfl, rfl, rfl, rfl⟩
  | some old =>
      dsimp only
      split
      · refine ⟨rfl, rfl, rfl, ?_⟩
        have some : kcp.sndQueue ≠ [] := by
          rintro empty
          rw [empty] at last
          cases last
        have positive := List.length_pos_iff.mpr some
        rw [List.length_append, List.length_dropLast, List.length_singleton]
        omega
      · exact ⟨rfl, rfl, rfl, rfl⟩

/-- `ikcp_send` appends `added` segments to the queue. -/
theorem ikcpSend_counts (kcp : Ikcpcb) (buffer : List UInt8) (len : Int) :
    ∃ added, (ikcpSend kcp buffer len).2.sndBuf = kcp.sndBuf ∧
      (ikcpSend kcp buffer len).2.nsndBuf = kcp.nsndBuf ∧
      (ikcpSend kcp buffer len).2.nsndQue = kcp.nsndQue + UInt32.ofNat added ∧
      (ikcpSend kcp buffer len).2.sndQueue.length = kcp.sndQueue.length + added ∧
      added ≤ 127 ∧ ((ikcpSend kcp buffer len).1 < 0 → added = 0) := by
  have none : ∀ n : UInt32, n = n + UInt32.ofNat 0 := fun n => (UInt32.add_zero n).symm
  have extended : ∀ kcp' : Ikcpcb, ∀ rest : List UInt8,
      (kcp', rest) = (if kcp.stream ≠ 0 then sendExtend kcp (buffer.take len.toNat)
        else (kcp, buffer.take len.toNat)) →
      kcp'.sndBuf = kcp.sndBuf ∧ kcp'.nsndBuf = kcp.nsndBuf ∧ kcp'.nsndQue = kcp.nsndQue ∧
        kcp'.sndQueue.length = kcp.sndQueue.length := by
    intro kcp' rest same
    split at same
    · have counts := sendExtend_counts kcp (buffer.take len.toNat)
      rw [← same] at counts
      exact counts
    · cases same
      exact ⟨rfl, rfl, rfl, rfl⟩
  unfold ikcpSend
  dsimp only
  split
  · exact ⟨0, rfl, rfl, none _, rfl, by omega, fun _ => rfl⟩
  · generalize taken : (if kcp.stream ≠ 0 then sendExtend kcp (buffer.take len.toNat)
      else (kcp, buffer.take len.toNat)) = pair at extended
    obtain ⟨kcp', rest⟩ := pair
    obtain ⟨buf, nsndBuf, nsndQue, length⟩ := extended kcp' rest rfl
    dsimp only
    generalize (if rest.length ≤ kcp'.mss.toNat then 1
      else (rest.length + kcp'.mss.toNat - 1) / kcp'.mss.toNat) = count
    split
    · exact ⟨0, buf, nsndBuf, nsndQue.trans (none _), length, by omega, fun _ => rfl⟩
    · split
      · exact ⟨0, buf, nsndBuf, nsndQue.trans (none _), length, by omega, fun _ => rfl⟩
      · rename_i few
        have small : count ≤ 127 := by
          have limit : ikcpWndRcv.toNat = 128 := rfl
          omega
        refine ⟨_, buf, nsndBuf, ?_, ?_, small,
          fun failed => absurd (show (0 : Int) < 0 from failed) (by decide)⟩
        · rw [nsndQue, sendFragments_length]
        · rw [List.length_append, sendFragments_length, length]

theorem counted_lasting : Lasting Counted where
  send := by
    intro kcp buffer len counted
    obtain ⟨added, buf, nsndBuf, nsndQue, length, _⟩ := ikcpSend_counts kcp buffer len
    constructor
    · rw [buf, nsndBuf]
      exact counted.nsndBuf
    · rw [nsndQue, length, counted.nsndQue, UInt32.ofNat_add]
  recv := fun len counted => counted.congr (ikcpRecv_sndSide _ len).1
  input := ikcpInput_keeps (fun seg counted => inputKcp_counted seg counted)
    (fun sn counted => by
      unfold ikcpParseFastack
      split
      · exact counted
      · refine ⟨?_, counted.nsndQue⟩
        have same : ∀ segs, (countFastack sn segs).length = segs.length := fun segs => by
          simpa using congrArg List.length (countFastack_core sn segs)
        rw [same]
        exact counted.nsndBuf)
    fun _ _ counted => ⟨counted.nsndBuf, counted.nsndQue⟩
  retimed := fun _ _ _ counted => ⟨counted.nsndBuf, counted.nsndQue⟩
  flush := fun counted => ikcpFlush_counted counted

/-! ## How the backlog moves -/

theorem ikcpInput_backlog_le (kcp : Ikcpcb) (data : List UInt8) (size : Nat) :
    backlog (ikcpInput kcp data size).2 ≤ backlog kcp := by
  have acked := ikcpInput_acked kcp data size
  have fewer := acked.sndBuf.length_le
  rw [List.length_map, List.length_map] at fewer
  rw [backlog, backlog, acked.sndQueue]
  exact Nat.add_le_add_right fewer _

theorem pending_length (kcp : Ikcpcb) : (kcp.pending.map IkcpSeg.data).length = backlog kcp := by
  rw [List.length_map, Ikcpcb.pending, List.length_append, backlog]

theorem ikcpFlush_backlog (kcp : Ikcpcb) : backlog (ikcpFlush kcp).1 = backlog kcp := by
  unfold ikcpFlush
  split
  · rfl
  · have moved := congrArg List.length (moveToSndBuf_data
      (flushCwnd { flushProbed kcp with probe := 0 })
      (ikcpWndUnused { flushProbed kcp with probe := 0 }) kcp.sndQueue
      { flushProbed kcp with probe := 0 })
    rw [pending_length, List.length_map, List.length_append] at moved
    dsimp only [flushSsthresh]
    rw [backlog, List.length_map]
    exact moved

theorem ikcpUpdate_backlog (kcp : Ikcpcb) (current : UInt32) :
    backlog (ikcpUpdate kcp current).1 = backlog kcp := by
  obtain ⟨tsFlush, updated, flushed | idle⟩ := ikcpUpdate_retimed kcp current
  · rw [flushed]
    exact ikcpFlush_backlog _
  · rw [idle]
    rfl

/-- A queue that fits into the send window is numbered whole. -/
theorem moveToSndBuf_all {conv : UInt32} {cwnd : UInt32} (wnd : UInt32) (small : cwnd.toNat ≤ 256)
    (segs : List IkcpSeg) : ∀ {out : List (List UInt8)} {live : List Nat} {kcp : Ikcpcb},
      Suited conv kcp.params → Sending conv out live kcp → (∀ seg ∈ segs, Whole kcp.mss seg) →
      out.length + segs.length ≤ live.headD out.length + cwnd.toNat →
      (moveToSndBuf cwnd wnd segs kcp).sndQueue = [] := by
  induction segs with
  | nil => exact fun _ _ _ _ => rfl
  | cons newseg rest ih =>
      intro out live kcp suited sending whole fits
      rw [List.length_cons] at fits
      have head := sending.head_le_length
      have near : Near out.length (live.headD out.length + cwnd.toNat) := by
        constructor <;> omega
      have room : itimediff kcp.sndNxt (kcp.sndUna + cwnd) < 0 := by
        rw [sending.nxt, sending.una, ofNat_add_word, itimediff_neg_iff near]
        omega
      have first := numberSeg_sending suited sending wnd (whole newseg (List.mem_cons_self ..))
      have same : (live ++ [out.length]).headD (out ++ [newseg.data]).length =
          live.headD out.length := by
        cases live with
        | nil => rfl
        | cons oldest others => rfl
      have suited' : Suited conv (numberSeg wnd newseg kcp).params := suited
      rw [moveToSndBuf_cons, if_pos room]
      apply ih suited' first fun seg member => whole seg (List.mem_cons_of_mem _ member)
      rw [same, List.length_append, List.length_singleton]
      omega

theorem Sending.sndBuf_length {conv : UInt32} {out : List (List UInt8)} {live : List Nat}
    (sending : Sending conv out live kcp) : kcp.sndBuf.length = live.length := by
  simpa using congrArg List.length sending.buf

/-- A flush that moves the whole queue gives it the next numbers. -/
theorem ikcpFlush_all {conv : UInt32} {out : List (List UInt8)} {live : List Nat}
    (suited : Suited conv kcp.params) (sending : Sending conv out live kcp)
    (updated : kcp.updated ≠ 0)
    (fits : out.length + kcp.sndQueue.length ≤ live.headD out.length + (flushCwnd kcp).toNat) :
    (ikcpFlush kcp).1.sndQueue = [] ∧ ∃ out' : List (List UInt8),
      out'.length = out.length + kcp.sndQueue.length ∧
      Sending conv out' (live ++ List.range' out.length kcp.sndQueue.length) (ikcpFlush kcp).1 := by
  have small := (flushCwnd_le suited).1
  have head := sending.head_le_length
  have near : Near out.length (live.headD out.length + (flushCwnd kcp).toNat) := by
    constructor <;> omega
  have probed : Sending conv out live { flushProbed kcp with probe := 0 } :=
    sending.congr rfl rfl rfl rfl rfl
  have empty : (ikcpFlush kcp).1.sndQueue = [] := by
    unfold ikcpFlush
    rw [if_neg updated]
    exact moveToSndBuf_all _ small kcp.sndQueue suited probed sending.queue fits
  obtain ⟨moved, numbers⟩ := ikcpFlush_numbers suited sending near
  have same := ikcpFlush_backlog kcp
  have count : moved.length = kcp.sndQueue.length := by
    have after := numbers.sending.sndBuf_length
    have before := sending.sndBuf_length
    rw [List.length_append, List.length_range'] at after
    unfold backlog at same
    rw [empty, List.length_nil] at same
    omega
  refine ⟨empty, out ++ moved, by rw [List.length_append, count], ?_⟩
  rw [← count]
  exact numbers.sending

/-- A flush of an empty queue numbers nothing. -/
theorem ikcpFlush_none {conv : UInt32} {out : List (List UInt8)} {live : List Nat}
    (sending : Sending conv out live kcp) (empty : kcp.sndQueue = []) :
    (ikcpFlush kcp).1.sndQueue = [] ∧ Sending conv out live (ikcpFlush kcp).1 := by
  have moved : flushMoved kcp = { flushProbed kcp with probe := 0, sndQueue := [] } := by
    have queue : (flushProbed kcp).sndQueue = [] := empty
    rw [flushMoved]
    dsimp only
    rw [queue]
    rfl
  unfold ikcpFlush
  split
  · exact ⟨empty, sending⟩
  · rw [moved]
    refine ⟨rfl, sending.congr rfl rfl ?_ empty.symm rfl⟩
    dsimp only [flushSsthresh]
    rw [List.map_map]
    exact List.map_congr_left fun seg _ => flushSegment_core _ _ seg

/-- The first update flushes. -/
theorem ikcpUpdate_first (fresh : kcp.updated = 0) (current : UInt32) :
    ∃ tsFlush, ikcpUpdate kcp current =
      ikcpFlush { kcp with current := current, updated := 1, tsFlush := tsFlush } := by
  have now : itimediff current current = 0 := distance_self current
  unfold ikcpUpdate
  simp only [fresh, if_true, now]
  exact ⟨_, rfl⟩

/-- A send into an empty queue appends one segment for each `mss` bytes. -/
theorem ikcpSend_fresh {kcp : Ikcpcb} {buffer : List UInt8} {len : Int} {count : Nat}
    (stream : kcp.stream ≠ 0) (empty : kcp.sndQueue = []) (whole : len = buffer.length)
    (some : 0 < buffer.length) (few : count ≤ 127)
    (rounds : (if buffer.length ≤ kcp.mss.toNat then 1
      else (buffer.length + kcp.mss.toNat - 1) / kcp.mss.toNat) = count) :
    ikcpSend kcp buffer len = (0, { kcp with
      sndQueue := sendFragments kcp.stream kcp.mss.toNat count buffer
      nsndQue := kcp.nsndQue + UInt32.ofNat count }) := by
  have extended : sendExtend kcp buffer = (kcp, buffer) := by
    rw [sendExtend, empty]
    rfl
  have taken : buffer.take len.toNat = buffer := by
    rw [whole, Int.toNat_natCast, List.take_length]
  have positive : ¬ len < 0 := by omega
  have filled : ¬ buffer.length ≤ 0 := by omega
  have allowed : ¬ count ≥ ikcpWndRcv.toNat := by
    have limit : ikcpWndRcv.toNat = 128 := rfl
    omega
  unfold ikcpSend
  dsimp only
  rw [if_neg positive, taken, if_pos stream, extended]
  dsimp only
  rw [rounds, if_neg (fun h => filled h.2), if_neg allowed, sendFragments_length, empty]
  rfl

end Backlog

end AsioKcp.Ikcp
