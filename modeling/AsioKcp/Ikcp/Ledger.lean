import AsioKcp.Ikcp.Wire

/-! # One side of a transfer

A `Tally` gives a control block its true numbers.  Its `Ledger` says that the
numbers are right against those of the other side: every segment numbered here
is still in `snd_buf` or has arrived there, and what has been read here, with
what waits in `rcv_queue`, is the beginning of what was numbered there. -/
set_option autoImplicit false

namespace AsioKcp.Ikcp

open AsioKcp.Serial

structure Tally where
  out : List (List UInt8)
  live : List Nat
  next : Nat
  held : List Nat

namespace Tally

def start : Tally := ⟨[], [], 0, []⟩

def has (t : Tally) (i : Nat) : Prop := Has t.next t.held i

/-- The true value of `snd_una`. -/
def una (t : Tally) : Nat := t.live.headD t.out.length

def number (t : Tally) (moved : List (List UInt8)) : Tally :=
  { t with
    out := t.out ++ moved
    live := t.live ++ List.range' t.out.length moved.length }

def take (t : Tally) (held : List Nat) (k : Nat) : Tally :=
  { t with next := t.next + k, held := held.drop k }

def keep (t : Tally) (p : Nat → Bool) : Tally := { t with live := t.live.filter p }

/-- The other side may rely on what it has heard. -/
structure Later (t t' : Tally) : Prop where
  out : t.out <+: t'.out
  has : ∀ i, t.has i → t'.has i

theorem Later.refl (t : Tally) : Later t t := ⟨List.prefix_refl _, fun _ => id⟩

theorem Later.trans {t t' t'' : Tally} (first : Later t t') (second : Later t' t'') :
    Later t t'' :=
  ⟨first.out.trans second.out, fun i => second.has i ∘ first.has i⟩

theorem number_una (t : Tally) (moved : List (List UInt8)) (some : moved ≠ [] ∨ t.live ≠ []) :
    (t.number moved).una = t.una := by
  unfold number una
  cases live : t.live with
  | cons first rest => rfl
  | nil =>
      have fresh := some.resolve_right (fun isSome => isSome live)
      cases moved with
      | nil => exact absurd rfl fresh
      | cons data rest => rfl

theorem number_nil (t : Tally) : t.number [] = t := by
  simp [number]

/-- The numbers that a side may reach from `n` segments on, before an ack. -/
def Within (n : Nat) (t : Tally) : Prop :=
  t.una ≤ n ∧ (t.out.length ≤ n ∨ t.out.length ≤ t.una + 256)

end Tally

structure Ledger (conv : UInt32) (peerOut : List (List UInt8)) (peerHas : Nat → Prop) (t : Tally)
    (got accepted : List UInt8) (kcp : Ikcpcb) : Prop where
  suited : Suited conv kcp.params
  sending : Sending conv t.out t.live kcp
  receiving : Receiving conv peerOut t.next t.held got kcp
  tight : Tight t.next t.held kcp
  covers : ∀ i < t.out.length, peerHas i ∨ i ∈ t.live
  accepted_eq : accepted = t.out.flatten ++ payload kcp.sndQueue
  acks : ∀ stamp ∈ kcp.acklist, ∃ j, t.has j ∧ stamp.1 = UInt32.ofNat j

/-- What a side tells the other one. -/
def Told (conv : UInt32) (t : Tally) : IkcpSeg → Prop :=
  Tells conv t.out (· < t.out.length) t.has fun x => ∀ i < x, t.has i

/-- The bytes of a datagram in which every segment is true. -/
def ToldBytes (conv : UInt32) (t : Tally) (bytes : List UInt8) : Prop :=
  ∃ segs, bytes = encodeSegs segs ∧ ∀ seg ∈ segs, Told conv t seg

theorem Told.mono {conv : UInt32} {t t' : Tally} (later : t.Later t') {seg : IkcpSeg}
    (told : Told conv t seg) : Told conv t' seg := by
  obtain ⟨more, grown⟩ := later.out
  refine Tells.mono told (fun i below => ?_) later.has fun x all i below => later.has i (all i below)
  refine ⟨?_, ?_⟩
  · rw [← grown, List.length_append]
    omega
  · rw [← grown]
    exact numbered_append below more

theorem ToldBytes.mono {conv : UInt32} {t t' : Tally} (later : t.Later t') {bytes : List UInt8}
    (told : ToldBytes conv t bytes) : ToldBytes conv t' bytes := by
  obtain ⟨segs, same, each⟩ := told
  exact ⟨segs, same, fun seg member => (each seg member).mono later⟩

namespace Ledger

section Same
variable {conv : UInt32} {peerOut : List (List UInt8)} {peerHas : Nat → Prop} {t : Tally}
  {got accepted : List UInt8} {kcp kcp' : Ikcpcb}

theorem of_alike (ledger : Ledger conv peerOut peerHas t got accepted kcp)
    (alike : Alike kcp kcp') : Ledger conv peerOut peerHas t got accepted kcp' where
  suited := by
    rw [alike.params]
    exact ledger.suited
  sending := ledger.sending.congr alike.nxt alike.una alike.buf alike.queue alike.params
  receiving := ledger.receiving.of_rcvSide alike.rcvSide
  tight := ledger.tight.of_rcvSide alike.rcvSide
  covers := ledger.covers
  accepted_eq := by
    rw [alike.queue]
    exact ledger.accepted_eq
  acks := by
    rw [alike.acklist]
    exact ledger.acks

/-- The other side has gone on. -/
theorem peer_later {p p' : Tally} (later : p.Later p')
    (ledger : Ledger conv p.out p.has t got accepted kcp) :
    Ledger conv p'.out p'.has t got accepted kcp := by
  obtain ⟨more, grown⟩ := later.out
  refine { ledger with receiving := ?_, covers := fun i below => ?_ }
  · rw [← grown]
    exact ledger.receiving.append more
  · exact (ledger.covers i below).imp_left (later.has i)

end Same

/-! ## The operations -/

section Operations
variable {conv : UInt32} {peerOut : List (List UInt8)} {peerHas : Nat → Prop} {t : Tally}
  {got accepted : List UInt8} {kcp : Ikcpcb}

/-- A send queues the bytes `more`. -/
theorem queue (ledger : Ledger conv peerOut peerHas t got accepted kcp) {buffer more : List UInt8}
    {len : Int} (queued : payload (ikcpSend kcp buffer len).2.sndQueue = payload kcp.sndQueue ++ more)
    (whole : ∀ seg ∈ (ikcpSend kcp buffer len).2.sndQueue, Whole kcp.mss seg) :
    Ledger conv peerOut peerHas t got (accepted ++ more) (ikcpSend kcp buffer len).2 := by
  have only := ikcpSend_onlyQueues kcp buffer len
  have params := ikcpSend_params kcp buffer len
  have mss : (ikcpSend kcp buffer len).2.mss = kcp.mss := congrArg Params.mss params
  refine ⟨?_, ?_, ledger.receiving.of_rcvSide only.rcvSide, ledger.tight.of_rcvSide only.rcvSide,
    ledger.covers, ?_, ?_⟩
  · rw [params]
    exact ledger.suited
  · exact
      { ledger.sending with
        nxt := only.sndNxt.trans ledger.sending.nxt
        una := only.sndUna.trans ledger.sending.una
        buf := by
          rw [only.sndBuf]
          exact ledger.sending.buf
        queue := by
          rw [mss]
          exact whole }
  · rw [queued, ledger.accepted_eq, List.append_assoc]
  · rw [only.acklist]
    exact ledger.acks

theorem send (ledger : Ledger conv peerOut peerHas t got accepted kcp) (buffer : List UInt8)
    (len : Int) (ok : ¬ (ikcpSend kcp buffer len).1 < 0) :
    Ledger conv peerOut peerHas t got (accepted ++ buffer.take len.toNat)
      (ikcpSend kcp buffer len).2 := by
  obtain ⟨queued, whole⟩ := ikcpSend_queue ledger.suited ledger.sending.queue buffer len ok
  exact ledger.queue queued whole

/-- The segments leave with the numbers of `flushMoved`, which the flush keeps. -/
theorem flush_numbers (ledger : Ledger conv peerOut peerHas t got accepted kcp)
    (updated : kcp.updated ≠ 0) (near : Near t.out.length (t.una + (flushCwnd kcp).toNat)) :
    ∃ moved, Sending conv (t.number moved).out (t.number moved).live (flushMoved kcp) ∧
      (moved = [] ∨ t.out.length + moved.length ≤ t.una + (flushCwnd kcp).toNat) ∧
      Ledger conv peerOut peerHas (t.number moved) got accepted (ikcpFlush kcp).1 := by
  obtain ⟨moved, numbers⟩ := flushMoved_numbers ledger.suited ledger.sending near
  have cores : (ikcpFlush kcp).1.sndBuf.map IkcpSeg.core = (flushMoved kcp).sndBuf.map IkcpSeg.core := by
    rw [ikcpFlush, if_neg updated]
    dsimp only [flushSsthresh]
    rw [List.map_map]
    exact List.map_congr_left fun seg _ => flushSegment_core _ _ seg
  have same : (ikcpFlush kcp).1.sndNxt = (flushMoved kcp).sndNxt ∧
      (ikcpFlush kcp).1.sndUna = (flushMoved kcp).sndUna ∧
      (ikcpFlush kcp).1.sndQueue = (flushMoved kcp).sndQueue ∧
      (ikcpFlush kcp).1.acklist = (flushMoved kcp).acklist := by
    rw [ikcpFlush, if_neg updated]
    exact ⟨rfl, rfl, rfl, rfl⟩
  have params : (ikcpFlush kcp).1.params = (flushMoved kcp).params := by
    rw [ikcpFlush_params, flushMoved_params]
  have acklist : (ikcpFlush kcp).1.acklist = [] := by
    rw [same.2.2.2]
    exact moveToSndBuf_acklist _ _ _ _
  have rcvSide := (ikcpFlush_sides kcp).1
  refine ⟨moved, numbers.sending, numbers.window, ⟨?_, ?_, ?_, ?_, ?_, ?_, ?_⟩⟩
  · rw [ikcpFlush_params]
    exact ledger.suited
  · exact numbers.sending.congr same.1 same.2.1 cores same.2.2.1 params
  · exact ledger.receiving.of_rcvSide rcvSide
  · exact ledger.tight.of_rcvSide rcvSide
  · intro i below
    by_cases old : i < t.out.length
    · exact (ledger.covers i old).imp_right fun member => List.mem_append_left _ member
    · right
      apply List.mem_append_right
      change i < (t.out ++ moved).length at below
      rw [List.length_append] at below
      exact List.mem_range'_1.mpr ⟨by omega, below⟩
  · change accepted = (t.out ++ moved).flatten ++ _
    rw [ledger.accepted_eq, same.2.2.1, List.flatten_append, List.append_assoc, ← numbers.queued]
  · rw [acklist]
    simp

theorem flush (ledger : Ledger conv peerOut peerHas t got accepted kcp) {n : Nat}
    (within : t.Within n) (few : n < 2 ^ 31) :
    ∃ t', t.Later t' ∧ t'.Within n ∧
      Ledger conv peerOut peerHas t' got accepted (ikcpFlush kcp).1 ∧
      ∀ bytes ∈ (ikcpFlush kcp).2, ToldBytes conv t' bytes := by
  by_cases fresh : kcp.updated = 0
  · rw [ikcpFlush_silent_of_not_updated fresh]
    exact ⟨t, .refl t, within, ledger, by simp⟩
  have cwnd := (flushCwnd_le ledger.suited).1
  have near : Near t.out.length (t.una + (flushCwnd kcp).toNat) := by
    obtain ⟨low, high⟩ := within
    have : t.una ≤ t.out.length := ledger.sending.head_le_length
    constructor <;> omega
  obtain ⟨moved, sending, window, after⟩ := ledger.flush_numbers fresh near
  have later : t.Later (t.number moved) := ⟨List.prefix_append _ _, fun _ => id⟩
  have una : (t.number moved).una = t.una := by
    by_cases none : moved = []
    · rw [none, t.number_nil]
    · exact t.number_una moved (Or.inl none)
  refine ⟨t.number moved, later, ⟨by rw [una]; exact within.1, ?_⟩, after, ?_⟩
  · rw [una]
    rcases window with none | some
    · rw [none, t.number_nil]
      exact within.2
    · right
      change (t.out ++ moved).length ≤ t.una + 256
      rw [List.length_append]
      omega
  · intro bytes member
    obtain ⟨groups, datagrams, flat, _⟩ := ikcpFlush_packs kcp fresh
    rw [datagrams] at member
    obtain ⟨group, isGroup, rfl⟩ := List.mem_map.mp member
    refine ⟨group, rfl, fun seg inGroup => ?_⟩
    have sent : seg ∈ flushSegs kcp := by
      rw [← flat]
      exact List.mem_flatten.mpr ⟨group, isGroup, inGroup⟩
    have tells := flushSegs_tell ledger.suited sending ledger.acks ledger.receiving.nxt seg sent
    refine Tells.mono tells (fun i isLive => ⟨sending.below i isLive, rfl⟩)
      (fun j has => has) ?_
    rintro x rfl i below
    exact Or.inl below

theorem recv_moves (ledger : Ledger conv peerOut peerHas t got accepted kcp) {base : Nat}
    (spans : ∀ i ∈ t.held, Spans base i) (low : base ≤ t.next) (high : t.next ≤ base + 2 ^ 31)
    {len : Int} (whole : ¬ len < 0) :
    ∃ k, t.held.take k = List.range' t.next k ∧
      Ledger conv peerOut peerHas (t.take t.held k) (got ++ (ikcpRecv kcp len).2.1) accepted
        (ikcpRecv kcp len).2.2 := by
  obtain ⟨k, moves⟩ := ikcpRecv_receiving base ledger.suited ledger.receiving ledger.tight spans low
    high whole
  have side := ikcpRecv_sndSide kcp len
  have params := ikcpRecv_params kcp len
  refine ⟨k, moves.taken, ⟨?_, ?_, moves.receiving, moves.tight, ledger.covers, ?_, ?_⟩⟩
  · rw [params]
    exact ledger.suited
  · exact ledger.sending.of_sndSide side.1 params
  · rw [show (ikcpRecv kcp len).2.2.sndQueue = kcp.sndQueue from
      congrArg SndSide.sndQueue side.1]
    exact ledger.accepted_eq
  · rw [side.2]
    intro stamp member
    obtain ⟨j, has, same⟩ := ledger.acks stamp member
    exact ⟨j, moves.has has, same⟩

theorem recv (ledger : Ledger conv peerOut peerHas t got accepted kcp)
    (peerFew : peerOut.length < 2 ^ 31) {len : Int} (whole : ¬ len < 0) :
    ∃ t', t.Later t' ∧ t'.out = t.out ∧ t'.live = t.live ∧
      Ledger conv peerOut peerHas t' (got ++ (ikcpRecv kcp len).2.1) accepted
        (ikcpRecv kcp len).2.2 := by
  have bound := ledger.receiving.le
  have spans : ∀ i ∈ t.held, Spans 0 i := by
    intro i member
    have := ledger.receiving.below i member
    exact ⟨Nat.zero_le _, by omega⟩
  obtain ⟨k, taken, ledger'⟩ := ledger.recv_moves spans (Nat.zero_le _) (by omega) whole
  exact ⟨t.take t.held k, ⟨List.prefix_refl _, fun i has => has_of_taken taken has⟩, rfl, rfl, ledger'⟩

end Operations

/-! ## `ikcp_input` -/

section Input
variable {conv : UInt32} {peerOut : List (List UInt8)} {peerHas : Nat → Prop} {t : Tally}
  {got accepted : List UInt8} {kcp : Ikcpcb} {seg : IkcpSeg}

/-- Only segments that the other side has leave `snd_buf`. -/
theorem header (ledger : Ledger conv peerOut peerHas t got accepted kcp) {x : Nat}
    (una : seg.una = UInt32.ofNat x) (near : ∀ i ∈ t.live, Near x i) (acked : ∀ i < x, peerHas i) :
    Ledger conv peerOut peerHas (t.keep (x ≤ ·)) got accepted
      (inputHeader kcp seg) := by
  have side := inputHeader_rcvSide kcp seg
  refine ⟨?_, inputHeader_sending ledger.sending una near, ledger.receiving.of_rcvSide side,
    ledger.tight.of_rcvSide side, fun i below => ?_, ?_, ?_⟩
  · rw [inputHeader_params]
    exact ledger.suited
  · rcases ledger.covers i below with has | isLive
    · exact Or.inl has
    · by_cases old : i < x
      · exact Or.inl (acked i old)
      · exact Or.inr (List.mem_filter.mpr ⟨isLive, by simpa using by omega⟩)
  · rw [(inputHeader_acked kcp seg).sndQueue]
    exact ledger.accepted_eq
  · rw [inputHeader_acklist]
    exact ledger.acks

theorem ack (ledger : Ledger conv peerOut peerHas t got accepted kcp) {j : Nat}
    (sn : seg.sn = UInt32.ofNat j) (near : ∀ i ∈ t.live, Near j i) (nearUna : Near j t.una)
    (nearNxt : Near j t.out.length) (acked : peerHas j) :
    Ledger conv peerOut peerHas (t.keep (· ≠ j)) got accepted
      (inputAck kcp seg) := by
  have side := inputAck_rcvSide kcp seg
  refine ⟨?_, inputAck_sending ledger.sending sn near nearUna nearNxt,
    ledger.receiving.of_rcvSide side, ledger.tight.of_rcvSide side, fun i below => ?_, ?_, ?_⟩
  · rw [inputAck_params]
    exact ledger.suited
  · rcases ledger.covers i below with has | isLive
    · exact Or.inl has
    · by_cases same : i = j
      · rw [same]
        exact Or.inl acked
      · exact Or.inr (List.mem_filter.mpr ⟨isLive, by simpa using same⟩)
  · rw [(inputAck_acked kcp seg).sndQueue]
    exact ledger.accepted_eq
  · rw [inputAck_acklist]
    exact ledger.acks

/-- The numbers of the receive side after segment `i` has come in. -/
inductive Arrives (i : Nat) (t : Tally) : Tally → Prop
  | old : i < t.next → Arrives i t t
  | new (k : Nat) : t.next ≤ i → (arrive i t.held).take k = List.range' t.next k →
      Arrives i t (t.take (arrive i t.held) k)

theorem Arrives.later {i : Nat} {t t' : Tally} (arrives : Arrives i t t') :
    t.Later t' ∧ t'.out = t.out ∧ t'.live = t.live ∧ t'.has i := by
  cases arrives with
  | old taken => exact ⟨.refl t, rfl, rfl, Or.inl taken⟩
  | new k _ taken =>
      have has : ∀ j, Has t.next (arrive i t.held) j →
          (t.take (arrive i t.held) k).has j := fun j => has_of_taken taken
      refine ⟨⟨List.prefix_refl _, fun j old => ?_⟩, rfl, rfl, ?_⟩
      · exact has j (old.imp_right fun member => mem_arrive.mpr (Or.inr member))
      · exact has i (Or.inr (mem_arrive.mpr (Or.inl rfl)))

/-- A number is acked only if the segment is here. -/
theorem push (ledger : Ledger conv peerOut peerHas t got accepted kcp) {base i : Nat}
    (core : seg.core = numbered conv peerOut i) (below : i < peerOut.length)
    (spans : ∀ k ∈ t.held, Spans base k) (here : Spans base i) (low : base ≤ t.next)
    (high : t.next ≤ base + 2 ^ 31) :
    ∃ t', (t' = t ∧ (inputPush kcp seg).acklist = kcp.acklist ∧
          ¬ itimediff seg.sn (kcp.rcvNxt + kcp.rcvWnd) < 0 ∨
        Arrives i t t' ∧ (inputPush kcp seg).acklist = kcp.acklist ++ [(seg.sn, seg.ts)]) ∧
      Ledger conv peerOut peerHas t' got accepted (inputPush kcp seg) := by
  have sn : seg.sn = UInt32.ofNat i := congrArg SegCore.sn core
  have receiving := ledger.receiving
  have params := inputPush_params kcp seg
  have sending := ledger.sending.of_sndSide (inputPush_sndSide kcp seg) params
  have queue : (inputPush kcp seg).sndQueue = kcp.sndQueue :=
    congrArg SndSide.sndQueue (inputPush_sndSide kcp seg)
  -- Each branch gives the receive side after it, and that it has what it acks.
  have received : ∃ t', (t' = t ∧ (inputPush kcp seg).acklist = kcp.acklist ∧
        ¬ itimediff seg.sn (kcp.rcvNxt + kcp.rcvWnd) < 0 ∨
      Arrives i t t' ∧ (inputPush kcp seg).acklist = kcp.acklist ++ [(seg.sn, seg.ts)]) ∧
      Receiving conv peerOut t'.next t'.held got (inputPush kcp seg) ∧
      Tight t'.next t'.held (inputPush kcp seg) := by
    have near : Near i t.next := by
      obtain ⟨above, under⟩ := here
      constructor <;> omega
    have order := itimediff_neg_iff near
    rw [← receiving.nxt, ← sn] at order
    unfold inputPush
    split
    · rename_i upper
      dsimp only
      split
      · rename_i lower
        have ahead : t.next ≤ i := by
          by_contra behind
          have := order.mpr (by omega)
          change itimediff seg.sn kcp.rcvNxt ≥ 0 at lower
          omega
        have suited : Suited conv (ikcpAckPush kcp seg.sn seg.ts).params := ledger.suited
        obtain ⟨k, moves⟩ := ikcpParseData_moves suited (receiving.of_rcvSide rfl) core below spans
          here low high ⟨upper, lower⟩
        exact ⟨t.take (arrive i t.held) k, Or.inr ⟨.new k ahead moves.taken,
          ikcpParseData_acklist _ _⟩, moves.receiving, moves.tight⟩
      · rename_i lower
        have taken : i < t.next := order.mp (by
          change ¬ itimediff seg.sn kcp.rcvNxt ≥ 0 at lower
          omega)
        exact ⟨t, Or.inr ⟨.old taken, rfl⟩, receiving.of_rcvSide rfl, ledger.tight.of_rcvSide rfl⟩
    · rename_i upper
      exact ⟨t, Or.inl ⟨rfl, rfl, upper⟩, receiving, ledger.tight⟩
  obtain ⟨t', said, receiving', tight'⟩ := received
  have numbers : t.Later t' ∧ t'.out = t.out ∧ t'.live = t.live := by
    rcases said with ⟨rfl, _⟩ | ⟨arrives, _⟩
    · exact ⟨.refl t', rfl, rfl⟩
    · exact ⟨arrives.later.1, arrives.later.2.1, arrives.later.2.2.1⟩
  obtain ⟨later, out, live⟩ := numbers
  refine ⟨t', said, ⟨?_, ?_, receiving', tight', ?_, ?_, ?_⟩⟩
  · rw [params]
    exact ledger.suited
  · rw [out, live]
    exact sending
  · rw [out, live]
    exact ledger.covers
  · rw [out, queue]
    exact ledger.accepted_eq
  · intro stamp member
    have old : stamp ∈ kcp.acklist → ∃ j, t'.has j ∧ stamp.1 = UInt32.ofNat j := by
      intro pending
      obtain ⟨j, has, same⟩ := ledger.acks stamp pending
      exact ⟨j, later.has j has, same⟩
    rcases said with ⟨_, same, _⟩ | ⟨arrives, grown⟩
    · rw [same] at member
      exact old member
    · rw [grown] at member
      rcases List.mem_append.mp member with pending | isNew
      · exact old pending
      · rw [List.mem_singleton.mp isNew]
        exact ⟨i, arrives.later.2.2.2, sn⟩

/-- The numbers after a segment: nothing new is numbered, and none is revived. -/
structure Hears (t t' : Tally) : Prop where
  later : t.Later t'
  out : t'.out = t.out
  live : t'.live.Sublist t.live

theorem hears_keep (t : Tally) (p : Nat → Bool) : Hears t (t.keep p) :=
  ⟨⟨List.prefix_refl _, fun _ => id⟩, rfl, List.filter_sublist⟩

theorem Hears.trans {t t' t'' : Tally} (first : Hears t t') (second : Hears t' t'') : Hears t t'' :=
  ⟨first.later.trans second.later, second.out.trans first.out, second.live.trans first.live⟩

theorem segment (ledger : Ledger conv peerOut peerHas t got accepted kcp)
    (few : t.out.length < 2 ^ 31) (peerFew : peerOut.length < 2 ^ 31)
    (known : ∀ i, peerHas i → i < t.out.length)
    (told : Tells conv peerOut (· < peerOut.length) peerHas (fun x => ∀ i < x, peerHas i) seg) :
    ∃ t', Hears t t' ∧ Ledger conv peerOut peerHas t' got accepted (inputKcp kcp (onWire seg)) := by
  obtain ⟨x, acked, una⟩ := told.una
  have bound : x ≤ t.out.length := by
    by_contra beyond
    have := known (x - 1) (acked (x - 1) (by omega))
    omega
  have near : ∀ {a : Nat}, a ≤ t.out.length → ∀ i ∈ t.live, Near a i := by
    intro a le i member
    have := ledger.sending.below i member
    exact near_of_lt (by omega) (by omega)
  have onWireUna : (onWire seg).una = UInt32.ofNat x := una
  have headed := ledger.header onWireUna (near bound) acked
  have left : Hears t (t.keep (x ≤ ·)) := hears_keep t _
  have cmd := told.decodable.wire
  unfold inputKcp
  dsimp only
  split_ifs with isAck isPush
  · rw [cmd] at isAck
    obtain ⟨j, has, sn⟩ := told.ack isAck
    have onWireSn : (onWire seg).sn = UInt32.ofNat j := sn
    have below := known j has
    have head : (t.keep (x ≤ ·)).una ≤ t.out.length := headed.sending.head_le_length
    refine ⟨_, left.trans (hears_keep _ _), headed.ack onWireSn (fun i member => ?_)
      (near_of_lt (by omega) (by omega)) (near_of_lt (by omega) few) has⟩
    exact near (Nat.le_of_lt below) i (List.mem_of_mem_filter member)
  · rw [cmd] at isPush
    obtain ⟨i, below, core⟩ := told.push isPush
    have le := ledger.receiving.le
    have spans : ∀ k ∈ t.held, Spans 0 k := by
      intro k member
      have := ledger.receiving.below k member
      exact ⟨Nat.zero_le _, by omega⟩
    obtain ⟨t', said, pushed⟩ := headed.push (onWire_core core) below spans
      ⟨Nat.zero_le _, by omega⟩ (Nat.zero_le _) (by change t.next ≤ _; omega)
    refine ⟨t', left.trans ?_, pushed⟩
    rcases said with ⟨rfl, _⟩ | ⟨arrives, _⟩
    · exact ⟨.refl _, rfl, List.Sublist.refl _⟩
    · exact ⟨arrives.later.1, arrives.later.2.1, by rw [arrives.later.2.2.1]⟩
  · exact ⟨_, left, headed.of_alike ⟨rfl, rfl, rfl, rfl, rfl, rfl, rfl, rfl⟩⟩
  · exact ⟨_, left, headed⟩

theorem segments (few : t.out.length < 2 ^ 31) (peerFew : peerOut.length < 2 ^ 31)
    (known : ∀ i, peerHas i → i < t.out.length) (segs : List IkcpSeg)
    (told : ∀ seg ∈ segs,
      Tells conv peerOut (· < peerOut.length) peerHas (fun x => ∀ i < x, peerHas i) seg) :
    ∀ {kcp : Ikcpcb}, Ledger conv peerOut peerHas t got accepted kcp →
      ∃ t', Hears t t' ∧
        Ledger conv peerOut peerHas t' got accepted ((segs.map onWire).foldl inputKcp kcp) := by
  induction segs generalizing t with
  | nil =>
      intro kcp ledger
      exact ⟨t, ⟨.refl t, rfl, List.Sublist.refl _⟩, ledger⟩
  | cons seg rest ih =>
      intro kcp ledger
      obtain ⟨t', hears, ledger'⟩ :=
        ledger.segment few peerFew known (told seg (List.mem_cons_self ..))
      obtain ⟨t'', hears', ledger''⟩ := ih (by rw [hears.out]; exact few)
        (by rw [hears.out]; exact known)
        (fun other member => told other (List.mem_cons_of_mem _ member)) ledger'
      exact ⟨t'', hears.trans hears', ledger''⟩

/-- A datagram of the other side, followed by whatever bytes. -/
theorem input {p : Tally} (ledger : Ledger conv p.out p.has t got accepted kcp)
    (few : t.out.length < 2 ^ 31) (peerFew : p.out.length < 2 ^ 31)
    (known : ∀ i, p.has i → i < t.out.length) {bytes : List UInt8} (told : ToldBytes conv p bytes)
    (rest : List UInt8) :
    ∃ t', Hears t t' ∧
      Ledger conv p.out p.has t' got accepted (ikcpInput kcp (bytes ++ rest) bytes.length).2 := by
  obtain ⟨segs, rfl, each⟩ := told
  have conv_eq : kcp.conv = conv := ledger.suited.conv_eq
  have ok : ∀ seg ∈ segs, Decodable kcp.conv seg := by
    intro seg member
    rw [conv_eq]
    exact (each seg member).decodable
  obtain ⟨t', hears, applied⟩ := segments few peerFew known segs each ledger
  exact ⟨t', hears, applied.of_alike (ikcpInput_encode rest ok)⟩

end Input

end Ledger

end AsioKcp.Ikcp
