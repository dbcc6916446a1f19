import AsioKcp.Ikcp.Lasting
import AsioKcp.Ikcp.Messages
import AsioKcp.Ikcp.Reassembly

/-! # The receive side under arbitrary datagrams

Whatever a peer sends, `rcv_buf` holds segments of distinct numbers inside the
receive window, in the order in which they are to be delivered, `rcv_queue` is no
longer than the window, and the two counters count what is there. -/
set_option autoImplicit false

namespace AsioKcp.Ikcp

open AsioKcp.Serial

/-- The segments from `base` on, oldest first, within a window of `wnd`. -/
structure Lined (base wnd : UInt32) (segs : List IkcpSeg) : Prop where
  sorted : segs.Pairwise fun seg seg' => offset base seg.sn < offset base seg'.sn
  span : ∀ seg ∈ segs, offset base seg.sn < wnd.toNat

structure Arrived (kcp : Ikcpcb) : Prop where
  narrow : kcp.rcvWnd.toNat < 2 ^ 31
  room : kcp.rcvQueue.length ≤ kcp.rcvWnd.toNat
  queued : kcp.nrcvQue = UInt32.ofNat kcp.rcvQueue.length
  lined : Lined kcp.rcvNxt kcp.rcvWnd kcp.rcvBuf
  buffered : kcp.nrcvBuf = UInt32.ofNat kcp.rcvBuf.length

/-- Moreover nothing that `rcv_queue` has room for waits in `rcv_buf`. -/
structure Incoming (kcp : Ikcpcb) : Prop extends Arrived kcp where
  settled : ¬ FrontMoves kcp

section Incoming
variable {kcp kcp' : Ikcpcb}

theorem Arrived.congr (arrived : Arrived kcp) (side : kcp'.rcvSide = kcp.rcvSide)
    (params : kcp'.params = kcp.params) : Arrived kcp' := by
  have nxt : kcp'.rcvNxt = kcp.rcvNxt := congrArg RcvSide.rcvNxt side
  have queue : kcp'.rcvQueue = kcp.rcvQueue := congrArg RcvSide.rcvQueue side
  have buf : kcp'.rcvBuf = kcp.rcvBuf := congrArg RcvSide.rcvBuf side
  have nque : kcp'.nrcvQue = kcp.nrcvQue := congrArg RcvSide.nrcvQue side
  have nbuf : kcp'.nrcvBuf = kcp.nrcvBuf := congrArg RcvSide.nrcvBuf side
  have wnd : kcp'.rcvWnd = kcp.rcvWnd := congrArg Params.rcvWnd params
  exact ⟨by rw [wnd]; exact arrived.narrow, by rw [wnd, queue]; exact arrived.room,
    by rw [nque, queue]; exact arrived.queued, by rw [nxt, wnd, buf]; exact arrived.lined,
    by rw [nbuf, buf]; exact arrived.buffered⟩

theorem Incoming.congr (incoming : Incoming kcp) (side : kcp'.rcvSide = kcp.rcvSide)
    (params : kcp'.params = kcp.params) : Incoming kcp' := by
  have nxt : kcp'.rcvNxt = kcp.rcvNxt := congrArg RcvSide.rcvNxt side
  have buf : kcp'.rcvBuf = kcp.rcvBuf := congrArg RcvSide.rcvBuf side
  have nque : kcp'.nrcvQue = kcp.nrcvQue := congrArg RcvSide.nrcvQue side
  have wnd : kcp'.rcvWnd = kcp.rcvWnd := congrArg Params.rcvWnd params
  refine ⟨incoming.toArrived.congr side params, ?_⟩
  simp only [FrontMoves, nxt, buf, nque, wnd]
  exact incoming.settled

/-- The comparison of the loop with the length of the queue. -/
theorem Arrived.free_iff (arrived : Arrived kcp) :
    kcp.nrcvQue < kcp.rcvWnd ↔ kcp.rcvQueue.length < kcp.rcvWnd.toNat := by
  have narrow := arrived.narrow
  have room := arrived.room
  rw [arrived.queued, UInt32.lt_iff_toNat_lt, UInt32.toNat_ofNat', Nat.mod_eq_of_lt (by omega)]

/-! ## The move to `rcv_queue` -/

theorem Lined.tail {base wnd : UInt32} {seg : IkcpSeg} {rest : List IkcpSeg}
    (lined : Lined base wnd (seg :: rest)) : Lined (base + 1) wnd rest := by
  have above : ∀ other ∈ rest, offset base other.sn ≠ 0 := by
    intro other member
    have := List.rel_of_pairwise_cons lined.sorted member
    omega
  constructor
  · apply lined.sorted.of_cons.imp_of_mem
    intro first second inFirst inSecond less
    rw [offset_succ (above first inFirst), offset_succ (above second inSecond)]
    have := above first inFirst
    omega
  · intro other member
    have := lined.span other (List.mem_cons_of_mem _ member)
    rw [offset_succ (above other member)]
    omega

theorem Arrived.takeSeg {seg : IkcpSeg} {rest : List IkcpSeg}
    (arrived : Arrived { kcp with rcvBuf := seg :: rest })
    (free : kcp.nrcvQue < kcp.rcvWnd) : Arrived { takeSeg seg kcp with rcvBuf := rest } where
  narrow := arrived.narrow
  room := by
    have inside := arrived.free_iff.mp free
    change kcp.rcvQueue.length < kcp.rcvWnd.toNat at inside
    change (kcp.rcvQueue ++ [seg]).length ≤ kcp.rcvWnd.toNat
    simpa using inside
  queued := by
    have count : kcp.nrcvQue = UInt32.ofNat kcp.rcvQueue.length := arrived.queued
    change kcp.nrcvQue + 1 = UInt32.ofNat (kcp.rcvQueue ++ [seg]).length
    rw [count, ofNat_succ]
    simp
  lined := arrived.lined.tail
  buffered := by
    have count : kcp.nrcvBuf = UInt32.ofNat (rest.length + 1) := arrived.buffered
    change kcp.nrcvBuf - 1 = UInt32.ofNat rest.length
    rw [count, ← ofNat_succ, UInt32.add_sub_cancel]

theorem moveToRcvQueue_incoming (segs : List IkcpSeg) :
    ∀ {kcp : Ikcpcb}, Arrived { kcp with rcvBuf := segs } → Incoming (moveToRcvQueue segs kcp) := by
  induction segs with
  | nil => exact fun arrived => ⟨arrived, fun ⟨_, _, front, _⟩ => nomatch front⟩
  | cons seg rest ih =>
      intro kcp arrived
      rw [moveToRcvQueue_cons]
      split
      · rename_i goes
        exact ih (arrived.takeSeg goes.2)
      · rename_i stays
        refine ⟨arrived, fun ⟨first, others, front, moves⟩ => stays ?_⟩
        obtain ⟨rfl, rfl⟩ := List.cons.inj front
        exact moves

/-! ## The operations -/

theorem ikcpRecv_incoming (len : Int) (incoming : Incoming kcp) :
    Incoming (ikcpRecv kcp len).2.2 := by
  have fewer := firstMessage_length_le kcp.rcvQueue
  have taken : Arrived { kcp with
      rcvQueue := kcp.rcvQueue.drop (firstMessage kcp.rcvQueue).length
      nrcvQue := kcp.nrcvQue - UInt32.ofNat (firstMessage kcp.rcvQueue).length } := by
    refine ⟨incoming.narrow, ?_, ?_, incoming.lined, incoming.buffered⟩
    · have room := incoming.room
      simp only [List.length_drop]
      omega
    · simp only [incoming.queued, List.length_drop]
      rw [UInt32.ofNat_sub fewer]
  unfold ikcpRecv
  dsimp only
  by_cases peek : len < 0
  · simp only [if_pos peek]
    have moved := moveToRcvQueue_incoming kcp.rcvBuf incoming.toArrived
    split_ifs
    · exact incoming
    · exact incoming
    · exact incoming
    · exact moved.congr rfl rfl
    · exact moved
  · simp only [if_neg peek]
    have moved : Incoming (moveToRcvQueue kcp.rcvBuf { kcp with
        rcvQueue := kcp.rcvQueue.drop (firstMessage kcp.rcvQueue).length
        nrcvQue := kcp.nrcvQue - UInt32.ofNat (firstMessage kcp.rcvQueue).length }) :=
      moveToRcvQueue_incoming kcp.rcvBuf taken
    split_ifs
    · exact incoming
    · exact incoming
    · exact incoming
    · exact moved.congr rfl rfl
    · exact moved

/-- A new segment finds its place, seen from the tail of `rcv_buf`. -/
theorem insertFromBack_sorted {base : UInt32} {newseg : IkcpSeg} {segs inserted : List IkcpSeg}
    (sorted : segs.Pairwise fun seg seg' => offset base seg'.sn < offset base seg.sn)
    (close : ∀ seg ∈ segs, offset base seg.sn < 2 ^ 31) (here : offset base newseg.sn < 2 ^ 31)
    (found : insertFromBack newseg segs = some inserted) :
    inserted.Pairwise fun seg seg' => offset base seg'.sn < offset base seg.sn := by
  induction segs generalizing inserted with
  | nil =>
      cases found
      exact List.pairwise_singleton _ _
  | cons seg rest ih =>
      obtain ⟨above, ordered⟩ := List.pairwise_cons.mp sorted
      have distance := distance_of_offsets here (close seg (List.mem_cons_self ..))
      simp only [insertFromBack] at found
      split_ifs at found with same ahead
      · cases found
        rw [itimediff, distance] at ahead
        refine List.pairwise_cons.mpr ⟨fun other member => ?_, sorted⟩
        rcases List.mem_cons.mp member with rfl | later
        · omega
        · have := above other later
          omega
      · obtain ⟨others, deeper, rfl⟩ := Option.map_eq_some_iff.mp found
        have differs : offset base seg.sn ≠ offset base newseg.sn := fun equal =>
          same (offset_inj.mp equal)
        rw [itimediff, distance] at ahead
        refine List.pairwise_cons.mpr ⟨fun other member => ?_,
          ih ordered (fun s inside => close s (List.mem_cons_of_mem _ inside)) deeper⟩
        rcases List.mem_cons.mp ((insertFromBack_perm deeper).mem_iff.mp member) with rfl | old
        · omega
        · exact above other old

theorem insertSeg_arrived {newseg : IkcpSeg} (arrived : Arrived kcp)
    (inside : inWindow kcp newseg.sn) : Arrived (insertSeg kcp newseg) := by
  have narrow := arrived.narrow
  have here : offset kcp.rcvNxt newseg.sn < kcp.rcvWnd.toNat :=
    (inside_iff (by omega)).mp inside
  have near : offset kcp.rcvNxt newseg.sn < 2 ^ 31 := by omega
  have close : ∀ seg ∈ kcp.rcvBuf.reverse, offset kcp.rcvNxt seg.sn < 2 ^ 31 := by
    intro seg member
    have := arrived.lined.span seg (List.mem_reverse.mp member)
    omega
  unfold insertSeg
  cases found : insertFromBack newseg kcp.rcvBuf.reverse with
  | none => exact arrived
  | some segs =>
      have perm := (List.reverse_perm segs).trans (insertFromBack_perm found)
      dsimp only
      refine ⟨arrived.narrow, arrived.room, arrived.queued, ⟨?_, fun seg member => ?_⟩, ?_⟩
      · apply List.pairwise_reverse.mpr
        exact insertFromBack_sorted (List.pairwise_reverse.mpr arrived.lined.sorted) close
          near found
      · rcases List.mem_cons.mp (perm.mem_iff.mp member) with rfl | old
        · exact here
        · exact arrived.lined.span seg (List.mem_reverse.mp old)
      · have length : segs.reverse.length = kcp.rcvBuf.length + 1 := by
          rw [perm.length_eq, List.length_cons, List.length_reverse]
        rw [length, arrived.buffered, ofNat_succ]

theorem ikcpParseData_incoming (newseg : IkcpSeg) (incoming : Incoming kcp) :
    Incoming (ikcpParseData kcp newseg) := by
  unfold ikcpParseData
  split
  · exact incoming
  · rename_i checked
    have inside : inWindow kcp newseg.sn := by
      constructor <;> omega
    exact moveToRcvQueue_incoming _ (insertSeg_arrived incoming.toArrived inside)

theorem inputKcp_incoming (seg : IkcpSeg) (incoming : Incoming kcp) :
    Incoming (inputKcp kcp seg) := by
  have header := incoming.congr (inputHeader_rcvSide kcp seg) (inputHeader_params kcp seg)
  unfold inputKcp
  dsimp only
  split_ifs
  · exact header.congr (inputAck_rcvSide _ seg) (inputAck_params _ seg)
  · unfold inputPush
    split
    · have acked : Incoming (ikcpAckPush (inputHeader kcp seg) seg.sn seg.ts) := header.congr rfl rfl
      dsimp only
      split
      · exact ikcpParseData_incoming seg acked
      · exact acked
    · exact header
  · exact header.congr rfl rfl
  · exact header

/-- No operation on a control block disturbs its receive side, whatever a
datagram contains. -/
theorem incoming_lasting : Lasting Incoming where
  send := fun buffer len incoming =>
    incoming.congr (ikcpSend_rcvSide _ buffer len) (ikcpSend_params _ buffer len)
  recv := fun len incoming => ikcpRecv_incoming len incoming
  input := ikcpInput_keeps (fun seg incoming => inputKcp_incoming seg incoming)
    (fun sn incoming => by
      unfold ikcpParseFastack
      split
      · exact incoming
      · exact incoming.congr rfl rfl)
    fun _ _ incoming => incoming.congr rfl rfl
  retimed := fun _ _ _ incoming => incoming.congr rfl rfl
  flush := fun incoming => incoming.congr (ikcpFlush_sides _).1 (ikcpFlush_params _)

end Incoming

/-! ## How much comes in -/

/-- Numbers in order below a bound are at most that many. -/
theorem length_le_of_sorted {ns : List Nat} {bound : Nat} (sorted : ns.Pairwise (· < ·))
    (below : ∀ n ∈ ns, n < bound) : ns.length ≤ bound := by
  have distinct : ns.Nodup := sorted.imp Nat.ne_of_lt
  have inside : ns ⊆ List.range bound := fun n member => List.mem_range.mpr (below n member)
  simpa using (List.subperm_of_subset distinct inside).length_le

theorem Lined.length_le {base wnd : UInt32} {segs : List IkcpSeg} (lined : Lined base wnd segs) :
    segs.length ≤ wnd.toNat := by
  have sorted := List.pairwise_map.mpr lined.sorted
  have below : ∀ n ∈ segs.map fun seg => offset base seg.sn, n < wnd.toNat := by
    simpa using lined.span
  simpa using length_le_of_sorted sorted below

theorem payload_length_le {most : Nat} {segs : List IkcpSeg}
    (short : ∀ seg ∈ segs, seg.data.length ≤ most) :
    (payload segs).length ≤ segs.length * most := by
  induction segs with
  | nil => simp
  | cons seg rest ih =>
      have first := short seg (List.mem_cons_self ..)
      have others := ih fun other member => short other (List.mem_cons_of_mem _ member)
      rw [payload_cons, List.length_append, List.length_cons, Nat.succ_mul]
      omega

theorem inputSegs_short (conv : UInt32) (fuel : Nat) : ∀ (data : List UInt8) (size : Nat),
    ∀ seg ∈ inputSegs conv fuel data size, seg.data.length + ikcpOverhead ≤ size := by
  induction fuel with
  | zero => simp [inputSegs]
  | succ fuel ih =>
      intro data size seg member
      simp only [inputSegs] at member
      split_ifs at member with short foreign beyond unknown
      · cases member
      · cases member
      · cases member
      · cases member
      · rcases List.mem_cons.mp member with rfl | later
        · have taken : (decodeSeg data).data.length ≤ (Bytes.read32 (data.drop 20)).toNat :=
            List.length_take_le _ _
          omega
        · have := ih _ _ seg later
          omega

theorem ikcpInput_short {most size : Nat} {kcp : Ikcpcb} (data : List UInt8)
    (fits : size ≤ most + ikcpOverhead) (short : ∀ seg ∈ kcp.received, seg.data.length ≤ most) :
    ∀ seg ∈ (ikcpInput kcp data size).2.received, seg.data.length ≤ most := by
  by_cases tiny : size < ikcpOverhead
  · rw [ikcpInput, if_pos tiny]
    exact short
  · rw [rcvSide_received (ikcpInput_rcvSide kcp data tiny)]
    intro seg member
    rcases foldl_inputKcp_mem _ member with old | ⟨new, _⟩
    · exact short seg old
    · have := inputSegs_short _ _ _ _ seg new
      omega

end AsioKcp.Ikcp
