import AsioKcp.Ikcp.Numbering

/-! # Invariants of a control block

A predicate is lasting when each operation keeps it that a connection performs
on its control block, whatever a datagram contains. -/
set_option autoImplicit false

namespace AsioKcp.Ikcp

open AsioKcp.Serial

structure Lasting (K : Ikcpcb → Prop) : Prop where
  send : ∀ {kcp} buffer len, K kcp → K (ikcpSend kcp buffer len).2
  recv : ∀ {kcp} len, K kcp → K (ikcpRecv kcp len).2.2
  input : ∀ {kcp} data size, K kcp → K (ikcpInput kcp data size).2
  retimed : ∀ {kcp} current tsFlush updated, K kcp →
    K { kcp with current := current, tsFlush := tsFlush, updated := updated }
  flush : ∀ {kcp}, K kcp → K (ikcpFlush kcp).1

/-- An update sets the times, and then flushes or not. -/
theorem ikcpUpdate_retimed (kcp : Ikcpcb) (current : UInt32) : ∃ tsFlush updated,
    ikcpUpdate kcp current =
        ikcpFlush { kcp with current := current, tsFlush := tsFlush, updated := updated } ∨
      ikcpUpdate kcp current =
        ({ kcp with current := current, tsFlush := tsFlush, updated := updated }, []) := by
  unfold ikcpUpdate
  dsimp only
  split_ifs <;> first | exact ⟨_, _, Or.inl rfl⟩ | exact ⟨_, _, Or.inr rfl⟩

theorem Lasting.update {K : Ikcpcb → Prop} (lasting : Lasting K) {kcp : Ikcpcb} (current : UInt32)
    (holds : K kcp) : K (ikcpUpdate kcp current).1 := by
  obtain ⟨tsFlush, updated, flushed | idle⟩ := ikcpUpdate_retimed kcp current
  · rw [flushed]
    exact lasting.flush (lasting.retimed _ _ _ holds)
  · rw [idle]
    exact lasting.retimed _ _ _ holds

/-- The control block that an update flushes. -/
theorem Lasting.ready {K : Ikcpcb → Prop} (lasting : Lasting K) {kcp ready : Ikcpcb}
    {current : UInt32} (isReady : updateReady kcp current = some ready) (holds : K kcp) :
    K ready := by
  unfold updateReady at isReady
  dsimp only at isReady
  split_ifs at isReady <;>
    · cases isReady
      exact lasting.retimed _ _ _ holds

theorem Lasting.and {K K' : Ikcpcb → Prop} (first : Lasting K) (second : Lasting K') :
    Lasting fun kcp => K kcp ∧ K' kcp where
  send := fun buffer len holds => ⟨first.send buffer len holds.1, second.send buffer len holds.2⟩
  recv := fun len holds => ⟨first.recv len holds.1, second.recv len holds.2⟩
  input := fun data size holds => ⟨first.input data size holds.1, second.input data size holds.2⟩
  retimed := fun current tsFlush updated holds =>
    ⟨first.retimed current tsFlush updated holds.1, second.retimed current tsFlush updated holds.2⟩
  flush := fun holds => ⟨first.flush holds.1, second.flush holds.2⟩

theorem params_lasting (p : Params) : Lasting fun kcp => kcp.params = p where
  send := fun buffer len holds => (ikcpSend_params _ buffer len).trans holds
  recv := fun len holds => (ikcpRecv_params _ len).trans holds
  input := fun data size holds => (ikcpInput_params _ data size).trans holds
  retimed := fun _ _ _ holds => holds
  flush := fun holds => (ikcpFlush_params _).trans holds

/-- `ikcp_input` keeps what every segment and the two steps at its end keep. -/
theorem ikcpInput_keeps {K : Ikcpcb → Prop} (segment : ∀ {kcp} seg, K kcp → K (inputKcp kcp seg))
    (fastack : ∀ {kcp} sn, K kcp → K (ikcpParseFastack kcp sn))
    (cwnd : ∀ {kcp} cwnd incr, K kcp → K { kcp with cwnd := cwnd, incr := incr })
    {kcp : Ikcpcb} (data : List UInt8) (size : Nat) (holds : K kcp) :
    K (ikcpInput kcp data size).2 := by
  have folded : ∀ (segs : List IkcpSeg) {kcp : Ikcpcb}, K kcp → K (segs.foldl inputKcp kcp) := by
    intro segs
    induction segs with
    | nil => exact fun holds => holds
    | cons seg rest ih => exact fun holds => ih (segment seg holds)
  by_cases short : size < ikcpOverhead
  · rw [ikcpInput, if_pos short]
    exact holds
  · have loop := inputLoop_segs size data size ⟨kcp, false, 0⟩
    have walked := folded (inputSegs kcp.conv size data size) holds
    rw [ikcpInput_cases kcp data short]
    cases ran : inputLoop size data size ⟨kcp, false, 0⟩ with
    | error failure =>
        obtain ⟨code, after⟩ := failure
        rw [ran] at loop
        exact (congrArg K loop).mpr walked
    | ok state =>
        rw [ran] at loop
        have looped : K state.kcp := (congrArg K loop).mpr walked
        apply cwnd
        split
        · exact fastack _ looped
        · exact looped

/-! ## The send side under arbitrary acks -/

/-- What a segment of the byte stream carries. -/
def Filled (mss : UInt32) (data : List UInt8) : Prop := data ≠ [] ∧ data.length ≤ mss.toNat

/-- The send side: `snd_buf` holds pushes under distinct numbers of one window,
and every segment has some bytes, but no more than fit. -/
structure Outgoing (conv : UInt32) (kcp : Ikcpcb) : Prop where
  suited : Suited conv kcp.params
  numbering : ∃ out live, Sending conv out live kcp ∧ out.length ≤ live.headD out.length + 256
  filled : ∀ data ∈ kcp.pending.map IkcpSeg.data, Filled kcp.mss data

section Outgoing
variable {conv : UInt32} {kcp kcp' : Ikcpcb}

theorem Outgoing.congr (outgoing : Outgoing conv kcp) (side : kcp'.sndSide = kcp.sndSide)
    (params : kcp'.params = kcp.params) : Outgoing conv kcp' where
  suited := by
    rw [params]
    exact outgoing.suited
  numbering := by
    obtain ⟨out, live, sending, window⟩ := outgoing.numbering
    exact ⟨out, live, sending.of_sndSide side params, window⟩
  filled := by
    rw [sndSide_pending side, show kcp'.mss = kcp.mss from congrArg Params.mss params]
    exact outgoing.filled

/-- Acks of any numbers, followed by `ikcp_shrink_buf`. -/
theorem Outgoing.acked (outgoing : Outgoing conv kcp) (acked : Acked kcp kcp')
    (nxt : kcp'.sndNxt = kcp.sndNxt) (params : kcp'.params = kcp.params) :
    Outgoing conv (ikcpShrinkBuf kcp') where
  suited := by
    rw [ikcpShrinkBuf_params, params]
    exact outgoing.suited
  numbering := by
    obtain ⟨out, live, sending, window⟩ := outgoing.numbering
    have fewer := acked.sndBuf
    rw [sending.buf] at fewer
    obtain ⟨left, sublist, buf⟩ := List.sublist_map_iff.mp fewer
    refine ⟨out, left, ikcpShrinkBuf_sending sending nxt acked.sndQueue params sublist buf, ?_⟩
    have above : live.headD out.length ≤ left.headD out.length := by
      cases left with
      | nil => exact sending.head_le_length
      | cons first rest => exact sending.head_le first (sublist.subset (List.mem_cons_self ..))
    omega
  filled := by
    have same : (ikcpShrinkBuf kcp').pending = kcp'.pending := by
      unfold ikcpShrinkBuf
      split <;> rfl
    have mss : (ikcpShrinkBuf kcp').mss = kcp.mss :=
      congrArg Params.mss ((ikcpShrinkBuf_params kcp').trans params)
    rw [same, mss]
    intro data member
    apply outgoing.filled data
    rw [Ikcpcb.pending, List.map_append, List.mem_append] at member ⊢
    rw [acked.sndQueue] at member
    refine member.imp_left fun inBuf => ?_
    rw [← map_core_data] at inBuf ⊢
    exact (acked.sndBuf.map SegCore.data).subset inBuf

theorem inputHeader_outgoing (seg : IkcpSeg) (outgoing : Outgoing conv kcp) :
    Outgoing conv (inputHeader kcp seg) := by
  have parsed : Acked kcp (ikcpParseUna { kcp with rmtWnd := seg.wnd } seg.una) :=
    ⟨(List.dropWhile_sublist _).map _, rfl⟩
  exact outgoing.acked parsed rfl rfl

theorem inputAck_outgoing (seg : IkcpSeg) (outgoing : Outgoing conv kcp) :
    Outgoing conv (inputAck kcp seg) := by
  have parsed : ∀ timed : Ikcpcb, timed.sndSide = kcp.sndSide → timed.params = kcp.params →
      Outgoing conv (ikcpShrinkBuf (ikcpParseAck timed seg.sn)) := by
    intro timed side params
    apply (outgoing.congr side params).acked (ikcpParseAck_acked timed seg.sn)
    · unfold ikcpParseAck
      split <;> rfl
    · exact ikcpParseAck_params timed seg.sn
  unfold inputAck
  dsimp only
  split
  · exact parsed _ rfl rfl
  · exact parsed _ rfl rfl

theorem inputKcp_outgoing (seg : IkcpSeg) (outgoing : Outgoing conv kcp) :
    Outgoing conv (inputKcp kcp seg) := by
  have header := inputHeader_outgoing seg outgoing
  unfold inputKcp
  dsimp only
  split_ifs
  · exact inputAck_outgoing seg header
  · exact header.congr (inputPush_sndSide _ seg) (inputPush_params _ seg)
  · exact header.congr rfl rfl
  · exact header

/-- Fields of the segments in `snd_buf` outside of their cores do not matter. -/
theorem Outgoing.recored (outgoing : Outgoing conv kcp) (nxt : kcp'.sndNxt = kcp.sndNxt)
    (una : kcp'.sndUna = kcp.sndUna)
    (buf : kcp'.sndBuf.map IkcpSeg.core = kcp.sndBuf.map IkcpSeg.core)
    (queue : kcp'.sndQueue = kcp.sndQueue) (params : kcp'.params = kcp.params) :
    Outgoing conv kcp' where
  suited := by
    rw [params]
    exact outgoing.suited
  numbering := by
    obtain ⟨out, live, sending, window⟩ := outgoing.numbering
    exact ⟨out, live, sending.congr nxt una buf queue params, window⟩
  filled := by
    have data : kcp'.pending.map IkcpSeg.data = kcp.pending.map IkcpSeg.data := by
      simp only [Ikcpcb.pending, List.map_append, ← map_core_data kcp'.sndBuf, buf, queue,
        map_core_data]
    rw [data, show kcp'.mss = kcp.mss from congrArg Params.mss params]
    exact outgoing.filled

theorem moveToSndBuf_data (cwnd wnd : UInt32) (segs : List IkcpSeg) (kcp : Ikcpcb) :
    (moveToSndBuf cwnd wnd segs kcp).pending.map IkcpSeg.data =
      (kcp.sndBuf ++ segs).map IkcpSeg.data := by
  induction segs generalizing kcp with
  | nil => rfl
  | cons seg rest ih =>
      simp only [moveToSndBuf]
      split
      · rw [ih]
        simp
      · rfl

theorem flushMoved_outgoing (outgoing : Outgoing conv kcp) : Outgoing conv (flushMoved kcp) where
  suited := by
    rw [flushMoved_params]
    exact outgoing.suited
  numbering := by
    obtain ⟨out, live, sending, window⟩ := outgoing.numbering
    have cwnd := (flushCwnd_le outgoing.suited).1
    have head := sending.head_le_length
    have near : Near out.length (live.headD out.length + (flushCwnd kcp).toNat) := by
      constructor <;> omega
    obtain ⟨moved, numbers⟩ := flushMoved_numbers outgoing.suited sending near
    refine ⟨_, _, numbers.sending, ?_⟩
    have same : (live ++ List.range' out.length moved.length).headD (out ++ moved).length =
        live.headD out.length := by
      cases live with
      | nil => cases moved <;> simp [List.range'_succ]
      | cons first rest => rfl
    rw [same, List.length_append]
    rcases numbers.window with none | some
    · rw [none, List.length_nil]
      omega
    · omega
  filled := by
    rw [show (flushMoved kcp).mss = kcp.mss from congrArg Params.mss (flushMoved_params kcp)]
    have data : (flushMoved kcp).pending.map IkcpSeg.data = kcp.pending.map IkcpSeg.data :=
      moveToSndBuf_data _ _ _ _
    rw [data]
    exact outgoing.filled

theorem ikcpFlush_outgoing (outgoing : Outgoing conv kcp) : Outgoing conv (ikcpFlush kcp).1 := by
  unfold ikcpFlush
  split
  · exact outgoing
  · apply (flushMoved_outgoing outgoing).recored
    · rfl
    · rfl
    · dsimp only [flushSsthresh]
      rw [List.map_map]
      exact List.map_congr_left fun seg _ => flushSegment_core _ _ seg
    · rfl
    · rfl

theorem sendFragments_filled {stream : Int} {mss : UInt32} (positive : 0 < mss.toNat)
    (count : Nat) (buffer : List UInt8) (needed : (count - 1) * mss.toNat < buffer.length) :
    ∀ seg ∈ sendFragments stream mss.toNat count buffer, Filled mss seg.data := by
  induction count generalizing buffer with
  | zero => simp [sendFragments]
  | succ count ih =>
      intro seg member
      rcases List.mem_cons.mp member with isFirst | later
      · have short := List.length_take_le mss.toNat buffer
        have first : seg.data = buffer.take mss.toNat := by
          rw [isFirst]
          rfl
        rw [first]
        refine ⟨fun empty => ?_, short⟩
        have length := congrArg List.length empty
        rw [List.length_take, List.length_nil] at length
        omega
      · cases count with
        | zero => cases later
        | succ count =>
            apply ih (buffer.drop mss.toNat) _ seg later
            simp only [Nat.add_sub_cancel, Nat.succ_mul] at needed ⊢
            rw [List.length_drop]
            omega

theorem sendExtend_filled (buffer : List UInt8)
    (filled : ∀ seg ∈ kcp.sndQueue, Filled kcp.mss seg.data) :
    ∀ seg ∈ (sendExtend kcp buffer).1.sndQueue, Filled kcp.mss seg.data := by
  unfold sendExtend
  cases last : kcp.sndQueue.getLast? with
  | none => exact filled
  | some old =>
      dsimp only
      split
      · intro seg member
        rcases List.mem_append.mp member with before | isLast
        · exact filled seg (List.dropLast_subset _ before)
        · have some := (filled old (List.mem_of_getLast? last)).1
          rw [List.mem_singleton.mp isLast]
          refine ⟨by simp [ikcpSegmentNew, some], ?_⟩
          simp only [ikcpSegmentNew, List.length_append, List.length_take]
          omega
      · exact filled

/-- The rounds of the `fragment` loop for a buffer that is not empty. -/
theorem fragment_count_needed {length mss : Nat} (positive : 0 < mss) (some : 0 < length) :
    ((if length ≤ mss then 1 else (length + mss - 1) / mss) - 1) * mss < length := by
  split
  · simpa using some
  · rename_i long
    have rounds := Nat.div_mul_le_self (length + mss - 1) mss
    rw [Nat.sub_mul]
    omega

theorem ikcpSend_outgoing (buffer : List UInt8) (len : Int) (outgoing : Outgoing conv kcp) :
    Outgoing conv (ikcpSend kcp buffer len).2 := by
  have stream : kcp.stream ≠ 0 := outgoing.suited.stream
  have positive : 0 < kcp.mss.toNat := outgoing.suited.mss_pos
  have queues := ikcpSend_onlyQueues kcp buffer len
  have params := ikcpSend_params kcp buffer len
  have queueFilled : ∀ seg ∈ kcp.sndQueue, Filled kcp.mss seg.data := fun seg member =>
    outgoing.filled _ (List.mem_map_of_mem (List.mem_append_right _ member))
  obtain ⟨out, live, sending, window⟩ := outgoing.numbering
  have extendedWhole := (sendExtend_queue sending.queue (buffer.take len.toNat)).2
  have extendedFilled := sendExtend_filled (buffer.take len.toNat) queueFilled
  have extendedParams := sendExtend_params kcp (buffer.take len.toNat)
  have mss : (sendExtend kcp (buffer.take len.toNat)).1.mss = kcp.mss :=
    congrArg Params.mss extendedParams
  have streaming : (sendExtend kcp (buffer.take len.toNat)).1.stream ≠ 0 := by
    rw [show (sendExtend kcp (buffer.take len.toNat)).1.stream = kcp.stream from
      congrArg Params.stream extendedParams]
    exact stream
  -- Every outcome leaves a queue of whole and filled segments.
  have queue : ∀ seg ∈ (ikcpSend kcp buffer len).2.sndQueue,
      Whole kcp.mss seg ∧ Filled kcp.mss seg.data := by
    have held : ∀ seg ∈ (sendExtend kcp (buffer.take len.toNat)).1.sndQueue,
        Whole kcp.mss seg ∧ Filled kcp.mss seg.data :=
      fun seg member => ⟨extendedWhole seg member, extendedFilled seg member⟩
    unfold ikcpSend
    by_cases negative : len < 0
    · rw [if_pos negative]
      exact fun seg member => ⟨sending.queue seg member, queueFilled seg member⟩
    · simp only [if_neg negative, stream, ne_eq, not_false_eq_true, if_true, streaming, true_and,
        mss]
      by_cases nothing : (sendExtend kcp (buffer.take len.toNat)).2.length ≤ 0
      · rw [if_pos nothing]
        exact held
      · have needed := fragment_count_needed positive (Nat.lt_of_not_le nothing)
        rw [if_neg nothing]
        by_cases tooMany : (if (sendExtend kcp (buffer.take len.toNat)).2.length ≤ kcp.mss.toNat then 1
            else ((sendExtend kcp (buffer.take len.toNat)).2.length + kcp.mss.toNat - 1) /
              kcp.mss.toNat) ≥ ikcpWndRcv.toNat
        · rw [if_pos tooMany]
          exact held
        · rw [if_neg tooMany]
          intro seg member
          rcases List.mem_append.mp member with before | fresh
          · exact held seg before
          · exact ⟨sendFragments_whole streaming _ _ _ seg fresh,
              sendFragments_filled positive _ _ needed seg fresh⟩
  have sameMss : (ikcpSend kcp buffer len).2.mss = kcp.mss := congrArg Params.mss params
  refine ⟨by rw [params]; exact outgoing.suited, ⟨out, live, ?_, window⟩, ?_⟩
  · refine ⟨queues.sndNxt.trans sending.nxt, queues.sndUna.trans sending.una, ?_, sending.sorted,
      sending.below, sending.short, ?_⟩
    · rw [queues.sndBuf]
      exact sending.buf
    · rw [sameMss]
      exact fun seg member => (queue seg member).1
  · intro data member
    rw [sameMss]
    rw [Ikcpcb.pending, queues.sndBuf, List.map_append, List.mem_append] at member
    rcases member with inBuf | inQueue
    · apply outgoing.filled data
      rw [Ikcpcb.pending, List.map_append]
      exact List.mem_append_left _ inBuf
    · obtain ⟨seg, isQueued, rfl⟩ := List.mem_map.mp inQueue
      exact (queue seg isQueued).2

theorem outgoing_lasting (conv : UInt32) : Lasting (Outgoing conv) where
  send := fun buffer len outgoing => ikcpSend_outgoing buffer len outgoing
  recv := fun len outgoing => outgoing.congr (ikcpRecv_sndSide _ len).1 (ikcpRecv_params _ len)
  input := ikcpInput_keeps (fun seg outgoing => inputKcp_outgoing seg outgoing)
    (fun sn outgoing => by
      unfold ikcpParseFastack
      split
      · exact outgoing
      · exact outgoing.recored rfl rfl (countFastack_core _ _) rfl rfl)
    fun _ _ outgoing => outgoing.recored rfl rfl rfl rfl rfl
  retimed := fun _ _ _ outgoing => outgoing.recored rfl rfl rfl rfl rfl
  flush := fun outgoing => ikcpFlush_outgoing outgoing

end Outgoing

end AsioKcp.Ikcp
