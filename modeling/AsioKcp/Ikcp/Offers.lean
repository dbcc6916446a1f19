import AsioKcp.Ikcp.Backlog
import AsioKcp.Ikcp.Resends
import AsioKcp.Ikcp.Schedule
import AsioKcp.Ikcp.Uptake

/-! # What an update at the right time sends

Every deadline comes: at some time that is not before it an update flushes.  The
oldest segment is then sent (again), an unanswered probe too, and what is owed to
the peer at any flush. -/
set_option autoImplicit false

namespace AsioKcp.Ikcp

open AsioKcp.Serial

/-! ## The time of an update -/

theorem updateReady_retimed {kcp ready : Ikcpcb} {now : UInt32}
    (isReady : updateReady kcp now = some ready) : ∃ tsFlush updated, ready =
      { kcp with current := now, tsFlush := tsFlush, updated := updated } := by
  unfold updateReady at isReady
  dsimp only at isReady
  split_ifs at isReady <;> exact ⟨_, _, (Option.some.inj isReady).symm⟩

/-- An update flushes at `due` or ten seconds later. -/
theorem flushes_after (kcp : Ikcpcb) (due : UInt32) :
    ∃ now ready, updateReady kcp now = some ready ∧ itimediff now due ≥ 0 := by
  have here : itimediff due due = 0 := distance_self due
  cases early : updateReady kcp due with
  | some ready => exact ⟨due, ready, early, by omega⟩
  | none =>
      obtain ⟨updated, ahead, close⟩ := updateReady_none early
      have later : itimediff (due + 10000) due = 10000 := by
        rw [itimediff, distance_add (by rw [distance_self]; decide), distance_self]
        rfl
      cases late : updateReady kcp (due + 10000) with
      | some ready => exact ⟨due + 10000, ready, late, by omega⟩
      | none =>
          obtain ⟨_, ahead', close'⟩ := updateReady_none late
          have back : itimediff due kcp.tsFlush = -itimediff kcp.tsFlush due :=
            distance_swap (by rw [itimediff] at ahead; omega)
          have swapped : itimediff (due + 10000) kcp.tsFlush = 10000 - itimediff kcp.tsFlush due := by
            rw [itimediff, distance_add (by rw [itimediff] at back; rw [back]; change _ + 10000 < _; omega)]
            rw [itimediff] at back
            rw [back]
            change -_ + 10000 = _
            omega
          have again : itimediff kcp.tsFlush (due + 10000) = -itimediff (due + 10000) kcp.tsFlush :=
            distance_swap (by rw [itimediff] at swapped; omega)
          omega

/-- A clock reaches every 32-bit time. -/
theorem clock_reaches (clock : Nat) (now : UInt32) :
    ∃ later, clock ≤ later ∧ UInt32.ofNat later = now := by
  refine ⟨clock + (now - UInt32.ofNat clock).toNat, Nat.le_add_right _ _, ?_⟩
  rw [UInt32.ofNat_add, UInt32.ofNat_toNat, UInt32.add_comm, UInt32.sub_add_cancel]

/-! ## What a flush sends -/

/-- Each segment of a flush is in one of its datagrams. -/
theorem datagram_of_flushSegs {kcp : Ikcpcb} (updated : kcp.updated ≠ 0) {seg : IkcpSeg}
    (member : seg ∈ flushSegs kcp) : ∃ group, seg ∈ group ∧ (∀ other ∈ group, other ∈ flushSegs kcp) ∧
      encodeSegs group ∈ (ikcpFlush kcp).2 := by
  obtain ⟨groups, datagrams, flat, _⟩ := ikcpFlush_packs kcp updated
  rw [← flat] at member
  obtain ⟨group, isGroup, inside⟩ := List.mem_flatten.mp member
  refine ⟨group, inside, fun other also => ?_, ?_⟩
  · rw [← flat]
    exact List.mem_flatten.mpr ⟨group, isGroup, also⟩
  · rw [datagrams]
    exact List.mem_map_of_mem isGroup

theorem flushSegs_head {kcp : Ikcpcb} {seg : IkcpSeg} {rest : List IkcpSeg}
    (front : kcp.sndBuf = seg :: rest) (due : itimediff kcp.current seg.resendts ≥ 0) :
    ∃ sent ∈ flushSegs kcp, sent.core = seg.core := by
  obtain ⟨fresh, moved, _⟩ := moveToSndBuf_fresh (flushCwnd kcp) (ikcpWndUnused kcp) kcp.sndQueue
    { flushProbed kcp with probe := 0 }
  have grown : (flushMoved kcp).sndBuf = kcp.sndBuf ++ fresh := moved
  have buffered : seg ∈ (flushMoved kcp).sndBuf := by
    rw [grown, front]
    exact List.mem_append_left _ (List.mem_cons_self ..)
  have sent : transmit (flushMoved kcp) seg ≠ .skip := by
    unfold transmit
    rw [flushMoved_current, if_pos due]
    split <;> simp
  refine ⟨flushSegment (flushMoved kcp) (ikcpWndUnused kcp) seg, ?_, flushSegment_core _ _ seg⟩
  apply List.mem_append_right
  exact List.mem_map_of_mem (List.mem_filter.mpr ⟨buffered, by simpa using sent⟩)

theorem flushSegs_ack {kcp : Ikcpcb} {stamp : UInt32 × UInt32} (owed : stamp ∈ kcp.acklist) :
    ∃ seg ∈ flushSegs kcp, seg.cmd = ikcpCmdAck ∧ seg.sn = stamp.1 := by
  have acked := List.mem_map_of_mem
    (f := fun ack : UInt32 × UInt32 => { controlSeg kcp with sn := ack.1, ts := ack.2 }) owed
  exact ⟨_, List.mem_append_left _ (List.mem_append_left _ acked), rfl, rfl⟩

theorem windowProbe_probe (kcp : Ikcpcb) :
    (windowProbe kcp).2.2 = kcp.probe ∨ (windowProbe kcp).2.2 = kcp.probe ||| ikcpAskSend := by
  unfold windowProbe
  split_ifs <;> first | exact Or.inl rfl | exact Or.inr rfl

theorem flushSegs_tells {kcp : Ikcpcb} (telling : Telling kcp) :
    ∃ seg ∈ flushSegs kcp, seg.cmd = ikcpCmdWins := by
  have kept : (flushProbed kcp).probe &&& ikcpAskTell ≠ 0 := by
    change (windowProbe kcp).2.2 &&& ikcpAskTell ≠ 0
    rcases windowProbe_probe kcp with same | asks
    · rw [same]
      exact telling
    · rw [asks, or_and_apart (by decide)]
      exact telling
  refine ⟨{ lastControlSeg kcp with cmd := ikcpCmdWins }, ?_, rfl⟩
  apply List.mem_append_left
  apply List.mem_append_right
  apply List.mem_append_right
  rw [if_pos kept]
  exact List.mem_singleton_self _

/-- A probe whose time has come is sent. -/
theorem flushSegs_asks {kcp : Ikcpcb} (closed : kcp.rmtWnd = 0) (started : kcp.probeWait ≠ 0)
    (due : itimediff kcp.current kcp.tsProbe ≥ 0) :
    ∃ seg ∈ flushSegs kcp, seg.cmd = ikcpCmdWask := by
  have asks : (flushProbed kcp).probe &&& ikcpAskSend ≠ 0 := by
    change (windowProbe kcp).2.2 &&& ikcpAskSend ≠ 0
    unfold windowProbe
    rw [if_pos closed, if_neg started, if_pos due]
    dsimp only
    rw [or_and_self]
    decide
  refine ⟨{ lastControlSeg kcp with cmd := ikcpCmdWask }, ?_, rfl⟩
  apply List.mem_append_left
  apply List.mem_append_right
  apply List.mem_append_left
  rw [if_pos asks]
  exact List.mem_singleton_self _

/-- With an open window and nothing on the way a flush numbers the next segment. -/
theorem ikcpFlush_sndBuf {conv : UInt32} {out : List (List UInt8)} {kcp : Ikcpcb}
    (updated : kcp.updated ≠ 0) (suited : Suited conv kcp.params) (sending : Sending conv out [] kcp)
    (opened : kcp.rmtWnd ≠ 0) (waiting : kcp.sndQueue ≠ []) : (ikcpFlush kcp).1.sndBuf ≠ [] := by
  have small := (flushCwnd_le suited).1
  have some : 0 < (flushCwnd kcp).toNat := by
    have sndWnd : kcp.sndWnd = 256 := suited.sndWnd
    have nocwnd : kcp.nocwnd ≠ 0 := suited.nocwnd
    unfold flushCwnd imin
    dsimp only
    rw [if_neg nocwnd, sndWnd]
    split
    · decide
    · exact Nat.pos_of_ne_zero fun none => opened (UInt32.toNat_inj.mp none)
  have room : itimediff kcp.sndNxt (kcp.sndUna + flushCwnd kcp) < 0 := by
    have same : kcp.sndUna = kcp.sndNxt := sending.una.trans sending.nxt.symm
    rw [same]
    exact ((inside_iff (by omega)).mpr (by rw [offset_self]; exact some)).1
  have moved : (flushMoved kcp).sndBuf ≠ [] := by
    obtain ⟨newseg, rest, queue⟩ := List.exists_cons_of_ne_nil waiting
    have shape : flushMoved kcp = moveToSndBuf (flushCwnd kcp) (ikcpWndUnused kcp) (newseg :: rest)
        { flushProbed kcp with probe := 0 } := by
      rw [← queue]
      rfl
    obtain ⟨fresh, grown, _⟩ := moveToSndBuf_fresh (flushCwnd kcp) (ikcpWndUnused kcp) rest
      (numberSeg (ikcpWndUnused kcp) newseg { flushProbed kcp with probe := 0 })
    have first : moveToSndBuf (flushCwnd kcp) (ikcpWndUnused kcp) (newseg :: rest)
        { flushProbed kcp with probe := 0 } = moveToSndBuf (flushCwnd kcp) (ikcpWndUnused kcp) rest
          (numberSeg (ikcpWndUnused kcp) newseg { flushProbed kcp with probe := 0 }) := if_pos room
    rw [shape, first, grown]
    simp [numberSeg]
  rw [(ikcpFlush_after updated).sndBuf]
  simpa using moved

/-- The numbers after a flush, and that all it sends is true of them. -/
theorem Ledger.flush_tells {conv : UInt32} {peerOut : List (List UInt8)} {peerHas : Nat → Prop}
    {t : Tally} {got accepted : List UInt8} {kcp : Ikcpcb}
    (ledger : Ledger conv peerOut peerHas t got accepted kcp) (updated : kcp.updated ≠ 0)
    (few : t.out.length < 2 ^ 31) :
    ∃ moved, Ledger conv peerOut peerHas (t.number moved) got accepted (ikcpFlush kcp).1 ∧
      moved.length + (ikcpFlush kcp).1.sndQueue.length = kcp.sndQueue.length ∧
      ∀ seg ∈ flushSegs kcp, Told conv (t.number moved) seg := by
  have small := (flushCwnd_le ledger.suited).1
  have head : t.una ≤ t.out.length := ledger.sending.head_le_length
  obtain ⟨moved, sending, _, after⟩ := ledger.flush_numbers updated (by constructor <;> omega)
  refine ⟨moved, after, ?_, fun seg sent => ?_⟩
  · have same := ikcpFlush_backlog kcp
    rw [backlog, backlog, ledger.sending.sndBuf_length, after.sending.sndBuf_length] at same
    simp only [Tally.number, List.length_append, List.length_range'] at same
    omega
  · apply Tells.mono (flushSegs_tell ledger.suited sending ledger.acks ledger.receiving.nxt seg sent)
    · exact fun i isLive => ⟨sending.below i isLive, rfl⟩
    · exact fun j has => has
    · rintro x rfl i below
      exact Or.inl below

end AsioKcp.Ikcp
