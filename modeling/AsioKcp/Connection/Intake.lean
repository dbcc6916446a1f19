import AsioKcp.Connection.Framing
import AsioKcp.Connection.Quiescence
import AsioKcp.Connection.Reads
import AsioKcp.Ikcp.Incoming

/-! # What a peer can make a connection hold

The datagrams of a peer need not come from KCP at all.  The receive queues still
stay within the window of 256 segments, each of them inside one datagram, and the
window that the connection advertises is exactly what is left. -/
set_option autoImplicit false

namespace AsioKcp

open AsioKcp.Ikcp AsioKcp.Callback AsioKcp.Machine

/-- No datagram is longer than the buffer that it is received into. -/
def Fitting (limit : Nat) (c : Config Local) : Label Event Call → Prop
  | .event e => ∀ data size, heard c.state.conn e = some (data, size) → size ≤ limit
  | _ => True

/-- The receive side of a control block with a window of 256 segments of at most
`most` bytes. -/
structure Intake (most : Nat) (kcp : Ikcpcb) : Prop where
  incoming : Incoming kcp
  queue : kcp.rcvQueue.length ≤ 256
  buf : kcp.rcvBuf.length ≤ 256
  advertised : (ikcpWndUnused kcp).toNat + kcp.rcvQueue.length = 256
  counters : kcp.nrcvQue.toNat = kcp.rcvQueue.length ∧ kcp.nrcvBuf.toNat = kcp.rcvBuf.length
  short : ∀ seg ∈ kcp.received, seg.data.length ≤ most
  bytes : (payload kcp.received).length ≤ 512 * most

theorem intake_of_incoming {most : Nat} {kcp : Ikcpcb} (incoming : Incoming kcp)
    (rcvWnd : kcp.rcvWnd = 256) (short : ∀ seg ∈ kcp.received, seg.data.length ≤ most) :
    Intake most kcp := by
  have wide : kcp.rcvWnd.toNat = 256 := by rw [rcvWnd]; rfl
  have queue := incoming.room
  have buf := incoming.lined.length_le
  have free := incoming.free_iff
  rw [wide] at queue buf free
  have count : kcp.nrcvQue.toNat = kcp.rcvQueue.length := by
    rw [incoming.queued, UInt32.toNat_ofNat', Nat.mod_eq_of_lt (by omega)]
  have held : kcp.nrcvBuf.toNat = kcp.rcvBuf.length := by
    rw [incoming.buffered, UInt32.toNat_ofNat', Nat.mod_eq_of_lt (by omega)]
  refine ⟨incoming, queue, buf, ?_, ⟨count, held⟩, short, ?_⟩
  · unfold ikcpWndUnused
    split
    · rename_i less
      rw [UInt32.toNat_sub_of_le _ _ (UInt32.le_of_lt less), wide, count]
      omega
    · rename_i full
      have := mt free.mpr full
      simp only [UInt32.toNat_zero]
      omega
  · have bytes := payload_length_le short
    have total : kcp.received.length ≤ 512 := by
      rw [Ikcpcb.received, List.length_append]
      omega
    exact Nat.le_trans bytes (Nat.mul_le_mul_right most total)

/-! ## The length of what comes in -/

theorem short_entry {most : Nat} {l : Local} (e : Event)
    (fits : ∀ data size, heard l.conn e = some (data, size) → size ≤ most + 25)
    (short : ∀ seg ∈ l.conn.obj.received, seg.data.length ≤ most) :
    ∀ seg ∈ (entry e l).conn.obj.received, seg.data.length ≤ most := by
  cases entry_effect e l with
  | same obj _ =>
      rw [obj]
      exact short
  | updated now obj _ =>
      rw [obj, rcvSide_received (updateEffect_sides l.conn now).1]
      exact short
  | received data size hears _ _ obj _ =>
      rw [obj]
      apply ikcpInput_short _ _ short
      have := fits data size hears
      simp only [ikcpOverhead]
      omega

/-! ## The bound -/

theorem incoming_init (conv : UInt32) : Incoming (initKcpContext conv) where
  narrow := show (256 : UInt32).toNat < 2 ^ 31 by decide
  room := Nat.zero_le _
  queued := rfl
  lined := ⟨List.Pairwise.nil, nofun⟩
  buffered := rfl
  settled := fun ⟨_, _, front, _⟩ => nomatch front

/-- Whatever comes in, and whatever the user does, the receive side of every
reachable connection is bounded. -/
theorem receive_bounded {conv : UInt32} {start c : Config Local} {most : Nat}
    (started : Started conv start)
    (run : connectionSystem.Steps (Fitting (most + 25)) start c) :
    Intake most c.state.conn.obj := by
  have incoming := run_lasting incoming_lasting started (incoming_init conv) run
  have params := run_lasting (params_lasting (initKcpContext conv).params) started rfl run
  have initially : ∀ seg ∈ start.state.conn.obj.received, seg.data.length ≤ most := by
    obtain ⟨l, rfl, shape⟩ := started.cases
    rcases shape with ⟨_, _, _, rfl⟩ | ⟨_, _, _, rfl⟩ <;>
      exact fun _ member => (List.not_mem_nil member).elim
  have short := (run_invariant (T := Terms.any) (fun c label _ => Terms.any_allows c label)
    (J := fun l => ∀ seg ∈ l.conn.obj.received, seg.data.length ≤ most)
    (fun c e fits before => short_entry e fits before)
    (fun act before seg member => before seg (act_received act seg member))
    (started.keeps _) initially run).2
  exact intake_of_incoming incoming (congrArg Params.rcvWnd params) short

/-- A segment that comes in before its predecessors. -/
def gapDatagram : List UInt8 := opcodeData :: encodeSegs [pushSeg 3 [9]]

theorem receive_bounded_gap : ∃ c,
    connectionSystem.step (serverStart 7 loopback 0 noStreambufs)
      (.event (.onReceive gapDatagram 26 0)) = some c ∧
    c.state.conn.obj.rcvBuf.length = 1 ∧ Intake 2023 c.state.conn.obj := by
  obtain ⟨c, ran, held⟩ := Option.map_eq_some_iff.mp
    (show (connectionSystem.step (serverStart 7 loopback 0 noStreambufs)
      (.event (.onReceive gapDatagram 26 0))).map (fun c => c.state.conn.obj.rcvBuf.length) =
        some 1 by decide)
  have fits : Fitting (2023 + 25) (serverStart 7 loopback 0 noStreambufs)
      (.event (.onReceive gapDatagram 26 0)) := by
    intro data size hears
    cases hears
    decide
  exact ⟨c, ran, held, receive_bounded (.server loopback 0 noStreambufs) (.tail _ .refl fits ran)⟩

end AsioKcp
