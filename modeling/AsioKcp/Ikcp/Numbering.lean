import AsioKcp.Ikcp.Queues

/-! # The numbers of the send side

`out` lists the payloads of the segments that a side has numbered so far, each
at its true number, and `live` the numbers of those still in `snd_buf`.  The
32-bit comparisons of the code agree with the comparisons of the true numbers
wherever these lie in one window of `2 ^ 31`. -/
set_option autoImplicit false

namespace AsioKcp.Ikcp

open AsioKcp.Serial

theorem itimediff_neg_iff {a b : Nat} (near : Near a b) :
    itimediff (UInt32.ofNat a) (UInt32.ofNat b) < 0 ↔ a < b :=
  distance_neg_iff near

theorem itimediff_pos_iff {a b : Nat} (near : Near a b) :
    itimediff (UInt32.ofNat a) (UInt32.ofNat b) > 0 ↔ b < a :=
  distance_pos_iff near

theorem ofNat_add_word (n : Nat) (w : UInt32) :
    UInt32.ofNat n + w = UInt32.ofNat (n + w.toNat) := by
  rw [UInt32.ofNat_add, UInt32.ofNat_toNat]

/-- The configuration that the numbering relies on. -/
structure Suited (conv : UInt32) (p : Params) : Prop where
  conv_eq : p.conv = conv
  mss_pos : 0 < p.mss.toNat
  mss_short : p.mss.toNat < 2 ^ 31
  stream : p.stream ≠ 0
  sndWnd : p.sndWnd = 256
  rcvWnd : p.rcvWnd = 256
  nocwnd : p.nocwnd ≠ 0

/-- The push segment number `i` of the stream with the payloads `out`. -/
def numbered (conv : UInt32) (out : List (List UInt8)) (i : Nat) : SegCore :=
  ⟨conv, ikcpCmdPush, 0, UInt32.ofNat i, out.getD i []⟩

theorem numbered_append {conv : UInt32} {out : List (List UInt8)} {i : Nat}
    (below : i < out.length) (more : List (List UInt8)) :
    numbered conv (out ++ more) i = numbered conv out i := by
  simp only [numbered, List.getD_eq_getElem?_getD, List.getElem?_append_left below]

theorem map_numbered_append {conv : UInt32} {out : List (List UInt8)} {ns : List Nat}
    (below : ∀ i ∈ ns, i < out.length) (more : List (List UInt8)) :
    ns.map (numbered conv (out ++ more)) = ns.map (numbered conv out) :=
  List.map_congr_left fun i member => numbered_append (below i member) more

/-- What may wait in `snd_queue` in streaming mode. -/
def Whole (mss : UInt32) (seg : IkcpSeg) : Prop := seg.frg = 0 ∧ seg.data.length ≤ mss.toNat

structure Sending (conv : UInt32) (out : List (List UInt8)) (live : List Nat) (kcp : Ikcpcb) :
    Prop where
  nxt : kcp.sndNxt = UInt32.ofNat out.length
  una : kcp.sndUna = UInt32.ofNat (live.headD out.length)
  buf : kcp.sndBuf.map IkcpSeg.core = live.map (numbered conv out)
  sorted : live.Pairwise (· < ·)
  below : ∀ i ∈ live, i < out.length
  short : ∀ data ∈ out, data.length < 2 ^ 31
  queue : ∀ seg ∈ kcp.sndQueue, Whole kcp.mss seg

section Sides
variable {conv : UInt32} {out : List (List UInt8)} {live : List Nat} {kcp kcp' : Ikcpcb}

/-- The numbering of the send side looks at nothing else. -/
theorem Sending.congr (sending : Sending conv out live kcp) (nxt : kcp'.sndNxt = kcp.sndNxt)
    (una : kcp'.sndUna = kcp.sndUna)
    (buf : kcp'.sndBuf.map IkcpSeg.core = kcp.sndBuf.map IkcpSeg.core)
    (queue : kcp'.sndQueue = kcp.sndQueue) (params : kcp'.params = kcp.params) :
    Sending conv out live kcp' where
  nxt := nxt.trans sending.nxt
  una := una.trans sending.una
  buf := buf.trans sending.buf
  sorted := sending.sorted
  below := sending.below
  short := sending.short
  queue := by
    rw [queue, show kcp'.mss = kcp.mss from congrArg Params.mss params]
    exact sending.queue

theorem Sending.of_sndSide (sending : Sending conv out live kcp)
    (side : kcp'.sndSide = kcp.sndSide) (params : kcp'.params = kcp.params) :
    Sending conv out live kcp' :=
  sending.congr (congrArg SndSide.sndNxt side) (congrArg SndSide.sndUna side)
    (congrArg (fun side : SndSide => side.sndBuf.map IkcpSeg.core) side)
    (congrArg SndSide.sndQueue side) params

/-- The oldest number without an ack lies at or below all live ones. -/
theorem Sending.head_le (sending : Sending conv out live kcp) :
    ∀ i ∈ live, live.headD out.length ≤ i := by
  intro i member
  have sorted := sending.sorted
  cases live with
  | nil => cases member
  | cons first rest =>
      rcases List.mem_cons.mp member with isFirst | later
      · exact Nat.le_of_eq isFirst.symm
      · exact Nat.le_of_lt (List.rel_of_pairwise_cons sorted later)

theorem Sending.head_le_length (sending : Sending conv out live kcp) :
    live.headD out.length ≤ out.length := by
  cases live with
  | nil => exact Nat.le_refl _
  | cons first rest => exact Nat.le_of_lt (sending.below first (List.mem_cons_self ..))

end Sides

/-! ## Acks -/

section Acks
variable {conv : UInt32} {out : List (List UInt8)} {live : List Nat} {kcp : Ikcpcb}

/-- `ikcp_shrink_buf` restores `snd_una` after acks have left the numbers `left`. -/
theorem ikcpShrinkBuf_sending {left : List Nat} (sending : Sending conv out live kcp)
    {after : Ikcpcb} (nxt : after.sndNxt = kcp.sndNxt) (queue : after.sndQueue = kcp.sndQueue)
    (params : after.params = kcp.params) (sublist : left.Sublist live)
    (buf : after.sndBuf.map IkcpSeg.core = left.map (numbered conv out)) :
    Sending conv out left (ikcpShrinkBuf after) := by
  have same : (ikcpShrinkBuf after).sndNxt = after.sndNxt ∧
      (ikcpShrinkBuf after).sndQueue = after.sndQueue ∧
      (ikcpShrinkBuf after).sndBuf = after.sndBuf := by
    unfold ikcpShrinkBuf
    split <;> exact ⟨rfl, rfl, rfl⟩
  have mss : (ikcpShrinkBuf after).mss = kcp.mss :=
    congrArg Params.mss ((ikcpShrinkBuf_params after).trans params)
  refine ⟨?_, ?_, ?_, sending.sorted.sublist sublist,
    fun i member => sending.below i (sublist.subset member), sending.short, ?_⟩
  · rw [same.1, nxt, sending.nxt]
  · unfold ikcpShrinkBuf
    cases held : after.sndBuf with
    | nil =>
        rw [held] at buf
        have empty : left = [] := List.map_eq_nil_iff.mp buf.symm
        rw [empty]
        exact nxt.trans sending.nxt
    | cons seg rest =>
        rw [held] at buf
        cases left with
        | nil => cases buf
        | cons first others =>
            have cores := (List.cons.injEq .. ▸ buf : seg.core = numbered conv out first ∧ _).1
            exact congrArg SegCore.sn cores
  · rw [same.2.2, buf]
  · rw [same.2.1, queue, mss]
    exact sending.queue

theorem dropWhile_numbered {x : Nat} {segs : List IkcpSeg}
    (buf : segs.map IkcpSeg.core = live.map (numbered conv out)) (sorted : live.Pairwise (· < ·))
    (near : ∀ i ∈ live, Near x i) :
    (segs.dropWhile fun seg => itimediff (UInt32.ofNat x) seg.sn > 0).map IkcpSeg.core =
      (live.filter (x ≤ ·)).map (numbered conv out) := by
  induction segs generalizing live with
  | nil =>
      have empty : live = [] := List.map_eq_nil_iff.mp buf.symm
      rw [empty]
      rfl
  | cons seg rest ih =>
      cases live with
      | nil => cases buf
      | cons i others =>
          obtain ⟨head, tail⟩ := List.cons.inj buf
          obtain ⟨least, ordered⟩ := List.pairwise_cons.mp sorted
          have sn : seg.sn = UInt32.ofNat i := congrArg SegCore.sn head
          have order := itimediff_pos_iff (near i (List.mem_cons_self ..))
          by_cases acked : i < x
          · have ahead : itimediff (UInt32.ofNat x) seg.sn > 0 := by
              rw [sn]
              exact order.mpr acked
            have gone : ¬ x ≤ i := by omega
            rw [List.dropWhile_cons_of_pos (by simpa using ahead),
              List.filter_cons_of_neg (by simpa using gone)]
            exact ih tail ordered fun k member => near k (List.mem_cons_of_mem _ member)
          · have behind : ¬ itimediff (UInt32.ofNat x) seg.sn > 0 := by
              rw [sn]
              exact fun ahead => acked (order.mp ahead)
            have all : (i :: others).filter (x ≤ ·) = i :: others := by
              apply List.filter_eq_self.mpr
              intro k member
              rcases List.mem_cons.mp member with isHead | later
              · simp only [decide_eq_true_eq]
                omega
              · have above := least k later
                simp only [decide_eq_true_eq]
                omega
            rw [List.dropWhile_cons_of_neg (by simpa using behind), all]
            exact buf

/-- The cumulative ack `x` leaves the numbers from `x` on. -/
theorem inputHeader_sending {x : Nat} {seg : IkcpSeg} (sending : Sending conv out live kcp)
    (una : seg.una = UInt32.ofNat x) (near : ∀ i ∈ live, Near x i) :
    Sending conv out (live.filter (x ≤ ·)) (inputHeader kcp seg) := by
  apply ikcpShrinkBuf_sending sending
  · rfl
  · rfl
  · rfl
  · exact List.filter_sublist
  · unfold ikcpParseUna
    rw [una]
    exact dropWhile_numbered sending.buf sending.sorted near

theorem removeAcked_numbered {j : Nat} {segs : List IkcpSeg}
    (buf : segs.map IkcpSeg.core = live.map (numbered conv out)) (sorted : live.Pairwise (· < ·))
    (near : ∀ i ∈ live, Near j i) :
    (removeAcked (UInt32.ofNat j) segs).map IkcpSeg.core =
      (live.filter (· ≠ j)).map (numbered conv out) := by
  induction segs generalizing live with
  | nil =>
      have empty : live = [] := List.map_eq_nil_iff.mp buf.symm
      rw [empty]
      rfl
  | cons seg rest ih =>
      cases live with
      | nil => cases buf
      | cons i others =>
          obtain ⟨head, tail⟩ := List.cons.inj buf
          obtain ⟨least, ordered⟩ := List.pairwise_cons.mp sorted
          have nearHead := near i (List.mem_cons_self ..)
          have sn : seg.sn = UInt32.ofNat i := congrArg SegCore.sn head
          have above : ∀ ns : List Nat, (∀ k ∈ ns, j < k) → ns.filter (· ≠ j) = ns := by
            intro ns later
            apply List.filter_eq_self.mpr
            intro k member
            have := later k member
            simp only [decide_eq_true_eq]
            omega
          rw [removeAcked, sn]
          by_cases found : j = i
          · subst found
            rw [if_pos rfl, List.filter_cons_of_neg (by simp), above others least]
            exact tail
          · have kept : (i :: others).filter (· ≠ j) = i :: others.filter (· ≠ j) :=
              List.filter_cons_of_pos (by simpa using fun same => found same.symm)
            rw [if_neg (fun same => found ((ofNat_eq_iff nearHead).mp same))]
            by_cases passed : j < i
            · rw [if_pos ((itimediff_neg_iff nearHead).mpr passed), kept,
                above others fun k member => Nat.lt_trans passed (least k member)]
              exact buf
            · rw [if_neg fun negative => passed ((itimediff_neg_iff nearHead).mp negative), kept,
                List.map_cons, List.map_cons, head,
                ih tail ordered fun k member => near k (List.mem_cons_of_mem _ member)]

/-- The ack of number `j` leaves the other numbers. -/
theorem inputAck_sending {j : Nat} {seg : IkcpSeg} (sending : Sending conv out live kcp)
    (sn : seg.sn = UInt32.ofNat j) (near : ∀ i ∈ live, Near j i)
    (nearUna : Near j (live.headD out.length)) (nearNxt : Near j out.length) :
    Sending conv out (live.filter (· ≠ j)) (inputAck kcp seg) := by
  have timed : ∃ timed : Ikcpcb, inputAck kcp seg = ikcpShrinkBuf (ikcpParseAck timed seg.sn) ∧
      Sending conv out live timed ∧ timed.sndNxt = kcp.sndNxt ∧ timed.sndQueue = kcp.sndQueue ∧
      timed.params = kcp.params := by
    unfold inputAck
    dsimp only
    split
    · exact ⟨_, rfl, sending.congr rfl rfl rfl rfl rfl, rfl, rfl, rfl⟩
    · exact ⟨_, rfl, sending, rfl, rfl, rfl⟩
  obtain ⟨timed, same, numberedTimed, nxt, queue, params⟩ := timed
  rw [same, sn]
  apply ikcpShrinkBuf_sending numberedTimed
  · unfold ikcpParseAck
    dsimp only
    split <;> rfl
  · unfold ikcpParseAck
    dsimp only
    split <;> rfl
  · exact ikcpParseAck_params _ _
  · exact List.filter_sublist
  · unfold ikcpParseAck
    split
    · rename_i outside
      -- An ack that the range check refuses names a number that is not live.
      have absent : live.filter (· ≠ j) = live := by
        apply List.filter_eq_self.mpr
        intro k member
        have above := sending.head_le k member
        have below := sending.below k member
        rw [numberedTimed.una, numberedTimed.nxt] at outside
        have out_of_range : j < live.headD out.length ∨ out.length ≤ j := by
          rcases outside with before | beyond
          · exact Or.inl ((itimediff_neg_iff nearUna).mp before)
          · right
            by_contra inside
            have := (itimediff_neg_iff nearNxt).mpr (by omega)
            omega
        simp only [decide_eq_true_eq]
        omega
      rw [absent]
      exact numberedTimed.buf
    · exact removeAcked_numbered numberedTimed.buf sending.sorted near

end Acks

/-! ## `ikcp_flush` -/

section Flush
variable {conv : UInt32} {out : List (List UInt8)} {live : List Nat}

/-- What the numbering of `moved` payloads under the send window `cwnd` makes of
the send side. -/
structure Numbers (conv : UInt32) (out : List (List UInt8)) (live : List Nat) (cwnd : Nat)
    (queue : List IkcpSeg) (moved : List (List UInt8)) (kcp' : Ikcpcb) : Prop where
  sending : Sending conv (out ++ moved) (live ++ List.range' out.length moved.length) kcp'
  queued : payload queue = moved.flatten ++ payload kcp'.sndQueue
  window : moved = [] ∨ out.length + moved.length ≤ live.headD out.length + cwnd

/-- One round of `moveToSndBuf`. -/
def numberSeg (wnd : UInt32) (newseg : IkcpSeg) (kcp : Ikcpcb) : Ikcpcb :=
  { kcp with
    sndBuf := kcp.sndBuf ++ [{ newseg with
      conv := kcp.conv, cmd := ikcpCmdPush, wnd := wnd, ts := kcp.current, sn := kcp.sndNxt
      una := kcp.rcvNxt, resendts := kcp.current, rto := kcp.rxRto.toUInt32, fastack := 0
      xmit := 0 }]
    nsndQue := kcp.nsndQue - 1
    nsndBuf := kcp.nsndBuf + 1
    sndNxt := kcp.sndNxt + 1 }

theorem moveToSndBuf_cons (cwnd wnd : UInt32) (newseg : IkcpSeg) (rest : List IkcpSeg)
    (kcp : Ikcpcb) :
    moveToSndBuf cwnd wnd (newseg :: rest) kcp =
      if itimediff kcp.sndNxt (kcp.sndUna + cwnd) < 0 then
        moveToSndBuf cwnd wnd rest (numberSeg wnd newseg kcp)
      else { kcp with sndQueue := newseg :: rest } := rfl

theorem numberSeg_sending {kcp : Ikcpcb} (suited : Suited conv kcp.params)
    (sending : Sending conv out live kcp) (wnd : UInt32) {newseg : IkcpSeg}
    (whole : Whole kcp.mss newseg) :
    Sending conv (out ++ [newseg.data]) (live ++ [out.length]) (numberSeg wnd newseg kcp) where
  nxt := by
    rw [List.length_append, List.length_singleton, ← ofNat_succ, ← sending.nxt]
    rfl
  una := by
    have una := sending.una
    cases live with
    | nil => exact una
    | cons first rest => exact una
  buf := by
    have last : numbered conv (out ++ [newseg.data]) out.length =
        ⟨kcp.conv, ikcpCmdPush, newseg.frg, kcp.sndNxt, newseg.data⟩ := by
      rw [whole.1, sending.nxt, show kcp.conv = conv from suited.conv_eq]
      simp [numbered]
    rw [List.map_append, map_numbered_append sending.below, List.map_singleton, last,
      ← sending.buf]
    simp [numberSeg, IkcpSeg.core]
  sorted := by
    apply List.pairwise_append.mpr
    refine ⟨sending.sorted, List.pairwise_singleton _ _, fun i member k isLast => ?_⟩
    rw [List.mem_singleton.mp isLast]
    exact sending.below i member
  below := by
    intro i member
    rw [List.length_append, List.length_singleton]
    rcases List.mem_append.mp member with old | new
    · exact Nat.lt_succ_of_lt (sending.below i old)
    · rw [List.mem_singleton.mp new]
      exact Nat.lt_succ_self _
  short := by
    intro data member
    rcases List.mem_append.mp member with old | new
    · exact sending.short data old
    · rw [List.mem_singleton.mp new]
      exact Nat.lt_of_le_of_lt whole.2 suited.mss_short
  queue := sending.queue

theorem moveToSndBuf_numbers (cwnd wnd : UInt32) (segs : List IkcpSeg) :
    ∀ {out : List (List UInt8)} {live : List Nat} {kcp : Ikcpcb}, Suited conv kcp.params →
      Sending conv out live kcp → (∀ seg ∈ segs, Whole kcp.mss seg) →
      Near out.length (live.headD out.length + cwnd.toNat) →
      ∃ moved, Numbers conv out live cwnd.toNat segs moved (moveToSndBuf cwnd wnd segs kcp) := by
  induction segs with
  | nil =>
      intro out live kcp suited sending _ _
      refine ⟨[], ?_, rfl, Or.inl rfl⟩
      simp only [List.append_nil, List.length_nil, List.range'_zero]
      exact ⟨sending.nxt, sending.una, sending.buf, sending.sorted, sending.below, sending.short,
        by simp [moveToSndBuf]⟩
  | cons newseg rest ih =>
      intro out live kcp suited sending whole near
      have head : (live ++ [out.length]).headD (out.length + 1) = live.headD out.length := by
        cases live <;> rfl
      have room_iff : itimediff kcp.sndNxt (kcp.sndUna + cwnd) < 0 ↔
          out.length < live.headD out.length + cwnd.toNat := by
        rw [sending.nxt, sending.una, ofNat_add_word, itimediff_neg_iff near]
      rw [moveToSndBuf_cons]
      split
      · rename_i free
        have room := room_iff.mp free
        have near' : Near (out ++ [newseg.data]).length
            ((live ++ [out.length]).headD (out ++ [newseg.data]).length + cwnd.toNat) := by
          rw [List.length_append, List.length_singleton, head]
          obtain ⟨_, low⟩ := near
          constructor <;> omega
        have first := numberSeg_sending suited sending wnd (whole newseg (List.mem_cons_self ..))
        have suited' : Suited conv (numberSeg wnd newseg kcp).params := suited
        obtain ⟨moved, numbers⟩ := ih suited' first
          (fun seg member => whole seg (List.mem_cons_of_mem _ member)) near'
        have window := numbers.window
        rw [List.length_append, List.length_singleton, head] at window
        refine ⟨newseg.data :: moved, ?_, ?_, Or.inr ?_⟩
        · have sending' := numbers.sending
          rw [List.append_assoc, List.append_assoc, List.length_append] at sending'
          exact sending'
        · rw [List.flatten_cons, List.append_assoc, ← numbers.queued, payload_cons]
        · rw [List.length_cons]
          rcases window with none | some
          · rw [none, List.length_nil]
            omega
          · omega
      · refine ⟨[], ?_, rfl, Or.inl rfl⟩
        simp only [List.append_nil, List.length_nil, List.range'_zero]
        exact ⟨sending.nxt, sending.una, sending.buf, sending.sorted, sending.below,
          sending.short, whole⟩

/-- The send window is what the smaller of the two sides allows. -/
theorem flushCwnd_le {kcp : Ikcpcb} (suited : Suited conv kcp.params) :
    (flushCwnd kcp).toNat ≤ 256 ∧ (kcp.rmtWnd = 0 → flushCwnd kcp = 0) := by
  have sndWnd : kcp.sndWnd = 256 := suited.sndWnd
  have nocwnd : kcp.nocwnd ≠ 0 := suited.nocwnd
  unfold flushCwnd imin
  dsimp only
  rw [if_neg nocwnd, sndWnd]
  split
  · rename_i small
    refine ⟨Nat.le_refl _, fun none => ?_⟩
    rw [none] at small
    exact absurd small (by decide)
  · rename_i large
    refine ⟨?_, id⟩
    have := UInt32.lt_iff_toNat_lt.mp (UInt32.not_le.mp large)
    exact Nat.le_of_lt this

/-- The segments that a flush numbers, and what it leaves of the send side. -/
theorem flushMoved_numbers {kcp : Ikcpcb} (suited : Suited conv kcp.params)
    (sending : Sending conv out live kcp)
    (near : Near out.length (live.headD out.length + (flushCwnd kcp).toNat)) :
    ∃ moved, Numbers conv out live (flushCwnd kcp).toNat kcp.sndQueue moved (flushMoved kcp) :=
  have probed : Sending conv out live { flushProbed kcp with probe := 0 } :=
    sending.congr rfl rfl rfl rfl rfl
  moveToSndBuf_numbers (flushCwnd kcp) (ikcpWndUnused kcp) kcp.sndQueue suited probed
    sending.queue near

theorem ikcpFlush_numbers {kcp : Ikcpcb} (suited : Suited conv kcp.params)
    (sending : Sending conv out live kcp)
    (near : Near out.length (live.headD out.length + (flushCwnd kcp).toNat)) :
    ∃ moved, Numbers conv out live (flushCwnd kcp).toNat kcp.sndQueue moved (ikcpFlush kcp).1 := by
  unfold ikcpFlush
  split
  · refine ⟨[], ?_, rfl, Or.inl rfl⟩
    simpa using sending
  · obtain ⟨moved, numbers⟩ := flushMoved_numbers suited sending near
    refine ⟨moved, numbers.sending.congr rfl rfl ?_ rfl ?_, numbers.queued, numbers.window⟩
    · dsimp only [flushSsthresh]
      rw [List.map_map]
      exact List.map_congr_left fun seg _ => flushSegment_core _ _ seg
    · rfl

end Flush

/-! ## `ikcp_send` -/

section Send
variable {conv : UInt32}

theorem sendFragments_whole {stream : Int} (streaming : stream ≠ 0) (mss : UInt32) (count : Nat)
    (buffer : List UInt8) :
    ∀ seg ∈ sendFragments stream mss.toNat count buffer, Whole mss seg := by
  induction count generalizing buffer with
  | zero => simp [sendFragments]
  | succ count ih =>
      intro seg member
      rcases List.mem_cons.mp member with isFirst | later
      · rw [isFirst]
        exact ⟨if_neg streaming, List.length_take_le _ _⟩
      · exact ih _ seg later

theorem sendFragments_payload (stream : Int) (mss : Nat) (count : Nat) (buffer : List UInt8)
    (enough : buffer.length ≤ count * mss) :
    payload (sendFragments stream mss count buffer) = buffer := by
  induction count generalizing buffer with
  | zero =>
      have empty : buffer = [] := List.eq_nil_of_length_eq_zero (by omega)
      rw [empty]
      rfl
  | succ count ih =>
      rw [sendFragments, payload_cons, ih]
      · exact List.take_append_drop mss buffer
      · rw [Nat.succ_mul] at enough
        rw [List.length_drop]
        omega

/-- The streaming-mode append puts the bytes it takes behind those queued. -/
theorem sendExtend_queue {kcp : Ikcpcb}
    (whole : ∀ seg ∈ kcp.sndQueue, Whole kcp.mss seg) (buffer : List UInt8) :
    payload (sendExtend kcp buffer).1.sndQueue ++ (sendExtend kcp buffer).2 =
        payload kcp.sndQueue ++ buffer ∧
      ∀ seg ∈ (sendExtend kcp buffer).1.sndQueue, Whole kcp.mss seg := by
  unfold sendExtend
  cases last : kcp.sndQueue.getLast? with
  | none => exact ⟨rfl, whole⟩
  | some old =>
      dsimp only
      split
      · rename_i room
        have shape : kcp.sndQueue = kcp.sndQueue.dropLast ++ [old] :=
          (List.dropLast_append_getLast? old last).symm
        refine ⟨?_, fun seg member => ?_⟩
        · conv_rhs => rw [shape]
          simp [ikcpSegmentNew]
        · rcases List.mem_append.mp member with before | isLast
          · exact whole seg (List.dropLast_subset _ before)
          · rw [List.mem_singleton.mp isLast]
            refine ⟨rfl, ?_⟩
            simp only [ikcpSegmentNew, List.length_append, List.length_take]
            omega
      · exact ⟨rfl, whole⟩

/-- An accepted send puts the first `len` bytes of the buffer behind those queued. -/
theorem ikcpSend_queue {kcp : Ikcpcb} (suited : Suited conv kcp.params)
    (whole : ∀ seg ∈ kcp.sndQueue, Whole kcp.mss seg) (buffer : List UInt8) (len : Int)
    (accepted : ¬ (ikcpSend kcp buffer len).1 < 0) :
    payload (ikcpSend kcp buffer len).2.sndQueue =
        payload kcp.sndQueue ++ buffer.take len.toNat ∧
      ∀ seg ∈ (ikcpSend kcp buffer len).2.sndQueue, Whole kcp.mss seg := by
  have stream : kcp.stream ≠ 0 := suited.stream
  have positive : 0 < kcp.mss.toNat := suited.mss_pos
  obtain ⟨extended, extendedWhole⟩ := sendExtend_queue whole (buffer.take len.toNat)
  have params := sendExtend_params kcp (buffer.take len.toNat)
  have mss : (sendExtend kcp (buffer.take len.toNat)).1.mss = kcp.mss := congrArg Params.mss params
  have streaming : (sendExtend kcp (buffer.take len.toNat)).1.stream ≠ 0 := by
    have same : (sendExtend kcp (buffer.take len.toNat)).1.stream = kcp.stream :=
      congrArg Params.stream params
    rwa [same]
  unfold ikcpSend at accepted ⊢
  by_cases negative : len < 0
  · rw [if_pos negative] at accepted
    exact absurd (show (-1 : Int) < 0 by decide) accepted
  · simp only [if_neg negative, stream, ne_eq, not_false_eq_true, if_true, streaming,
      true_and, mss] at accepted ⊢
    split_ifs at accepted ⊢ with nothing
    · refine ⟨?_, extendedWhole⟩
      rw [List.eq_nil_of_length_eq_zero (Nat.le_zero.mp nothing), List.append_nil] at extended
      exact extended
    · exact absurd (show (-2 : Int) < 0 by decide) accepted
    · refine ⟨?_, fun seg member => ?_⟩
      · rw [payload_append, sendFragments_payload, extended]
        omega
      · rcases List.mem_append.mp member with before | fresh
        · exact extendedWhole seg before
        · exact sendFragments_whole streaming _ _ _ seg fresh
    · exact absurd (show (-2 : Int) < 0 by decide) accepted
    · refine ⟨?_, fun seg member => ?_⟩
      · rw [payload_append, sendFragments_payload, extended]
        have enough := Nat.lt_div_mul_add
          (a := (sendExtend kcp (buffer.take len.toNat)).2.length + kcp.mss.toNat - 1) positive
        omega
      · rcases List.mem_append.mp member with before | fresh
        · exact extendedWhole seg before
        · exact sendFragments_whole streaming _ _ _ seg fresh

end Send

end AsioKcp.Ikcp
