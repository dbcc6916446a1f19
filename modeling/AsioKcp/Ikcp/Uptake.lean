import AsioKcp.Ikcp.Flight

/-! # What a datagram of the peer brings about

`Ledger.segment` says that the numbers stay right.  Here is what else a segment of
the peer does: a push within the window is acknowledged, an ack leaves nothing to
send again, a window probe is remembered, and each segment carries the window. -/
set_option autoImplicit false

namespace AsioKcp.Ikcp

open AsioKcp.Serial

/-- What some segments of the other side make of the numbers and the control block. -/
structure Takes (peerOut : List (List UInt8)) (t t' : Tally) (segs : List IkcpSeg)
    (kcp kcp' : Ikcpcb) : Prop where
  hears : Ledger.Hears t t'
  next : t.next ≤ t'.next
  acklist : kcp.acklist <+: kcp'.acklist
  push : ∀ seg ∈ segs, ∀ i, seg.core = numbered kcp.conv peerOut i → i < t.next + 256 →
    i < peerOut.length → ∃ stamp ∈ kcp'.acklist, stamp.1 = UInt32.ofNat i
  ack : ∀ seg ∈ segs, ∀ j < t.out.length, seg.cmd = ikcpCmdAck → seg.sn = UInt32.ofNat j →
    j ∉ t'.live

theorem Takes.none (peerOut : List (List UInt8)) (t : Tally) (kcp : Ikcpcb) :
    Takes peerOut t t [] kcp kcp :=
  ⟨⟨.refl t, rfl, List.Sublist.refl _⟩, Nat.le_refl _, List.prefix_refl _, by simp, by simp⟩

/-- The effects of segments add up, since none takes back what another has done. -/
theorem Takes.append {peerOut : List (List UInt8)} {t t' t'' : Tally} {segs segs' : List IkcpSeg}
    {kcp kcp' kcp'' : Ikcpcb} (first : Takes peerOut t t' segs kcp kcp')
    (second : Takes peerOut t' t'' segs' kcp' kcp'') (conv : kcp'.conv = kcp.conv) :
    Takes peerOut t t'' (segs ++ segs') kcp kcp'' where
  hears := first.hears.trans second.hears
  next := Nat.le_trans first.next second.next
  acklist := first.acklist.trans second.acklist
  push := by
    intro seg member i core inside below
    rcases List.mem_append.mp member with early | late
    · obtain ⟨stamp, isOwed, same⟩ := first.push seg early i core inside below
      exact ⟨stamp, second.acklist.subset isOwed, same⟩
    · have next := first.next
      rw [← conv] at core
      exact second.push seg late i core (by omega) below
  ack := by
    intro seg member j below cmd sn
    rcases List.mem_append.mp member with early | late
    · exact fun isLive => first.ack seg early j below cmd sn (second.hears.live.subset isLive)
    · rw [← first.hears.out] at below
      exact second.ack seg late j below cmd sn

namespace Ledger

section Segment
variable {conv : UInt32} {peerOut : List (List UInt8)} {peerHas : Nat → Prop} {t : Tally}
  {got accepted : List UInt8} {kcp : Ikcpcb} {seg : IkcpSeg}

/-- A number within the window is below its upper end. -/
theorem window_above (ledger : Ledger conv peerOut peerHas t got accepted kcp) {i : Nat}
    (inside : i < t.next + 256) (peerFew : peerOut.length + 256 ≤ 2 ^ 31) :
    itimediff (UInt32.ofNat i) (kcp.rcvNxt + kcp.rcvWnd) < 0 := by
  have le := ledger.receiving.le
  have near : Near i (t.next + (256 : UInt32).toNat) := by
    change Near i (t.next + 256)
    constructor <;> omega
  rw [ledger.receiving.nxt, show kcp.rcvWnd = 256 from ledger.suited.rcvWnd, ofNat_add_word,
    itimediff_neg_iff near]
  exact inside

theorem takes (ledger : Ledger conv peerOut peerHas t got accepted kcp)
    (few : t.out.length < 2 ^ 31) (peerFew : peerOut.length + 256 ≤ 2 ^ 31)
    (known : ∀ i, peerHas i → i < t.out.length)
    (told : Tells conv peerOut (· < peerOut.length) peerHas (fun x => ∀ i < x, peerHas i) seg) :
    ∃ t', Takes peerOut t t' [onWire seg] kcp (inputKcp kcp (onWire seg)) ∧
      Ledger conv peerOut peerHas t' got accepted (inputKcp kcp (onWire seg)) := by
  obtain ⟨x, acked, una⟩ := told.una
  have bound : x ≤ t.out.length := by
    by_contra beyond
    have := known (x - 1) (acked (x - 1) (by omega))
    omega
  have near : ∀ {a : Nat}, a ≤ t.out.length → ∀ i ∈ t.live, Near a i := by
    intro a le i member
    have := ledger.sending.below i member
    exact near_of_lt (by omega) (by omega)
  have onWireUna : (onWire seg).una = UInt32.ofNat x := una
  have headed := ledger.header onWireUna (near bound) acked
  have left : Hears t (t.keep (x ≤ ·)) := hears_keep t _
  have acklist := inputHeader_acklist kcp (onWire seg)
  have cmd := told.decodable.wire
  have conv_eq : kcp.conv = conv := ledger.suited.conv_eq
  -- The header alone settles a segment that is neither an ack nor a push.
  have plain : seg.cmd ≠ ikcpCmdAck → seg.cmd ≠ ikcpCmdPush → ∀ kcp',
      kcp'.acklist = (inputHeader kcp (onWire seg)).acklist →
      Takes peerOut t (t.keep (x ≤ ·)) [onWire seg] kcp kcp' := by
    intro notAck notPush kcp' same
    refine ⟨left, Nat.le_refl _, ?_, List.forall_mem_singleton.mpr fun i core => ?_,
      List.forall_mem_singleton.mpr fun j _ isAck => ?_⟩
    · rw [same, acklist]
    · exact absurd (cmd.symm.trans (congrArg SegCore.cmd core)) notPush
    · exact absurd (cmd.symm.trans isAck) notAck
  unfold inputKcp
  dsimp only
  split_ifs with isAck isPush
  · rw [cmd] at isAck
    obtain ⟨j, has, sn⟩ := told.ack isAck
    have onWireSn : (onWire seg).sn = UInt32.ofNat j := sn
    have below := known j has
    have head : (t.keep (x ≤ ·)).una ≤ t.out.length := headed.sending.head_le_length
    refine ⟨_, ⟨left.trans (hears_keep _ (· ≠ j)), Nat.le_refl _, ?_,
      List.forall_mem_singleton.mpr fun i core => ?_,
      List.forall_mem_singleton.mpr fun k few' _ same isLive => ?_⟩, headed.ack onWireSn (fun i member => ?_)
      (near_of_lt (by omega) (by omega)) (near_of_lt (by omega) few) has⟩
    · rw [inputAck_acklist, acklist]
    · have isPush : seg.cmd = ikcpCmdPush := cmd.symm.trans (congrArg SegCore.cmd core)
      rw [isAck] at isPush
      exact absurd isPush (by decide)
    · rw [onWireSn, ofNat_eq_iff (near_of_lt (by omega) (by omega))] at same
      have stays := (List.mem_filter.mp isLive).2
      exact absurd same.symm (of_decide_eq_true stays)
    · exact near (Nat.le_of_lt below) i (List.mem_of_mem_filter member)
  · rw [cmd] at isPush
    obtain ⟨i, below, core⟩ := told.push isPush
    have le := ledger.receiving.le
    have spans : ∀ k ∈ t.held, Spans 0 k := by
      intro k member
      have := ledger.receiving.below k member
      exact ⟨Nat.zero_le _, by omega⟩
    obtain ⟨t', said, pushed⟩ := headed.push (onWire_core core) below spans
      ⟨Nat.zero_le _, by omega⟩ (Nat.zero_le _) (by change t.next ≤ _; omega)
    refine ⟨t', ⟨left.trans ?_, ?_, ?_, List.forall_mem_singleton.mpr fun j named inside few' => ?_,
      List.forall_mem_singleton.mpr fun j _ isAck => ?_⟩, pushed⟩
    · rcases said with ⟨rfl, _⟩ | ⟨arrives, _⟩
      · exact ⟨.refl _, rfl, List.Sublist.refl _⟩
      · exact ⟨arrives.later.1, arrives.later.2.1, by rw [arrives.later.2.2.1]⟩
    · rcases said with ⟨rfl, _⟩ | ⟨arrives, _⟩
      · exact Nat.le_refl _
      · cases arrives with
        | old _ => exact Nat.le_refl _
        | new k _ _ => exact Nat.le_add_right _ k
    · rcases said with ⟨_, same, _⟩ | ⟨_, grown⟩
      · rw [same, acklist]
      · rw [grown, acklist]
        exact List.prefix_append _ _
    · have sn : (onWire seg).sn = UInt32.ofNat j := congrArg SegCore.sn named
      rcases said with ⟨_, _, beyond⟩ | ⟨_, grown⟩
      · rw [sn] at beyond
        exact absurd (headed.window_above inside peerFew) beyond
      · rw [grown]
        exact ⟨_, List.mem_append_right _ (List.mem_singleton_self _), sn⟩
    · rw [cmd, isPush] at isAck
      exact absurd isAck (by decide)
  · rw [cmd] at isAck isPush
    exact ⟨_, plain isAck isPush _ rfl, headed.of_alike ⟨rfl, rfl, rfl, rfl, rfl, rfl, rfl, rfl⟩⟩
  · rw [cmd] at isAck isPush
    exact ⟨_, plain isAck isPush _ rfl, headed⟩

theorem takes_all (few : t.out.length < 2 ^ 31) (peerFew : peerOut.length + 256 ≤ 2 ^ 31)
    (known : ∀ i, peerHas i → i < t.out.length) (segs : List IkcpSeg)
    (told : ∀ seg ∈ segs,
      Tells conv peerOut (· < peerOut.length) peerHas (fun x => ∀ i < x, peerHas i) seg) :
    ∀ {kcp : Ikcpcb}, Ledger conv peerOut peerHas t got accepted kcp →
      ∃ t', Takes peerOut t t' (segs.map onWire) kcp ((segs.map onWire).foldl inputKcp kcp) ∧
        Ledger conv peerOut peerHas t' got accepted ((segs.map onWire).foldl inputKcp kcp) := by
  induction segs generalizing t with
  | nil => exact fun ledger => ⟨t, .none peerOut t _, ledger⟩
  | cons seg rest ih =>
      intro kcp ledger
      obtain ⟨t', takes, ledger'⟩ :=
        ledger.takes few peerFew known (told seg (List.mem_cons_self ..))
      obtain ⟨t'', takes', ledger''⟩ := ih (by rw [takes.hears.out]; exact few)
        (by rw [takes.hears.out]; exact known)
        (fun other member => told other (List.mem_cons_of_mem _ member)) ledger'
      have conv : (inputKcp kcp (onWire seg)).conv = kcp.conv :=
        congrArg Params.conv (inputKcp_params kcp (onWire seg))
      exact ⟨t'', takes.append takes' conv, ledger''⟩

end Segment

/-- A datagram of the other side, segment by segment. -/
theorem uptake {conv : UInt32} {p t : Tally} {got accepted : List UInt8} {kcp : Ikcpcb}
    (ledger : Ledger conv p.out p.has t got accepted kcp) (few : t.out.length < 2 ^ 31)
    (peerFew : p.out.length + 256 ≤ 2 ^ 31) (known : ∀ i, p.has i → i < t.out.length)
    {segs : List IkcpSeg} (told : ∀ seg ∈ segs, Told conv p seg) :
    ∃ t', Takes p.out t t' (segs.map onWire) kcp
        (ikcpInput kcp (encodeSegs segs) (encodeSegs segs).length).2 ∧
      Ledger conv p.out p.has t' got accepted
        (ikcpInput kcp (encodeSegs segs) (encodeSegs segs).length).2 := by
  have readable : ∀ seg ∈ segs, Decodable kcp.conv seg := by
    intro seg member
    rw [show kcp.conv = conv from ledger.suited.conv_eq]
    exact (told seg member).decodable
  have alike := ikcpInput_encode [] readable
  rw [List.append_nil] at alike
  obtain ⟨t', takes, after⟩ := takes_all few peerFew known segs told ledger
  refine ⟨t', { takes with acklist := ?_, push := ?_ }, after.of_alike alike⟩
  · rw [alike.acklist]
    exact takes.acklist
  · rw [alike.acklist]
    exact takes.push

end Ledger

/-! ## The window that each segment carries, and the probes -/

theorem inputKcp_rmtWnd (kcp : Ikcpcb) (seg : IkcpSeg) : (inputKcp kcp seg).rmtWnd = seg.wnd := by
  have header := inputHeader_rmtWnd kcp seg
  unfold inputKcp
  dsimp only
  split_ifs
  · rw [inputAck_rmtWnd, header]
  · rw [inputPush_rmtWnd, header]
  · exact header
  · exact header

/-- The window of the last segment stays. -/
theorem foldl_inputKcp_rmtWnd {wnd : UInt32} (segs : List IkcpSeg)
    (all : ∀ seg ∈ segs, seg.wnd = wnd) :
    ∀ {kcp : Ikcpcb}, kcp.rmtWnd = wnd ∨ segs ≠ [] → (segs.foldl inputKcp kcp).rmtWnd = wnd := by
  induction segs with
  | nil => simp
  | cons seg rest ih =>
      intro kcp _
      apply ih fun other member => all other (List.mem_cons_of_mem _ member)
      exact Or.inl ((inputKcp_rmtWnd kcp seg).trans (all seg (List.mem_cons_self ..)))

/-- The peer has asked for the window, and the next flush tells it. -/
def Telling (kcp : Ikcpcb) : Prop := kcp.probe &&& ikcpAskTell ≠ 0

theorem or_and_self (a b : UInt32) : (a ||| b) &&& b = b := by
  apply UInt32.toBitVec_inj.mp
  ext i inside
  simp only [UInt32.toBitVec_and, UInt32.toBitVec_or, BitVec.getElem_and, BitVec.getElem_or]
  cases b.toBitVec[i] <;> simp

theorem or_and_apart {a b c : UInt32} (apart : b &&& c = 0) : (a ||| b) &&& c = a &&& c := by
  have split : (a ||| b) &&& c = (a &&& c) ||| (b &&& c) := by
    apply UInt32.toBitVec_inj.mp
    ext i inside
    simp only [UInt32.toBitVec_and, UInt32.toBitVec_or, BitVec.getElem_and, BitVec.getElem_or]
    cases c.toBitVec[i] <;> simp
  rw [split, apart, UInt32.or_zero]

theorem inputKcp_probe (kcp : Ikcpcb) (seg : IkcpSeg) : (inputKcp kcp seg).probe =
    if seg.cmd = ikcpCmdWask then kcp.probe ||| ikcpAskTell else kcp.probe := by
  have shrunk : ∀ kcp, (ikcpShrinkBuf kcp).probe = kcp.probe := by
    intro kcp
    unfold ikcpShrinkBuf
    split <;> rfl
  have header : (inputHeader kcp seg).probe = kcp.probe := by
    rw [inputHeader, shrunk]
    rfl
  have pushed : (inputPush (inputHeader kcp seg) seg).probe = kcp.probe := by
    rw [inputPush_keeps Ikcpcb.probe (fun _ => rfl) (fun _ _ _ => rfl), header]
  have acked : (inputAck (inputHeader kcp seg) seg).probe = kcp.probe := by
    rw [inputAck, shrunk, ← header]
    unfold ikcpParseAck
    dsimp only
    split_ifs <;> rfl
  unfold inputKcp
  dsimp only
  by_cases isAck : seg.cmd = ikcpCmdAck
  · rw [if_pos isAck, acked, if_neg (by rw [isAck]; decide)]
  · rw [if_neg isAck]
    by_cases isPush : seg.cmd = ikcpCmdPush
    · rw [if_pos isPush, pushed, if_neg (by rw [isPush]; decide)]
    · rw [if_neg isPush]
      by_cases isWask : seg.cmd = ikcpCmdWask
      · rw [if_pos isWask, if_pos isWask, header]
      · rw [if_neg isWask, if_neg isWask, header]

theorem Telling.input {kcp : Ikcpcb} {seg : IkcpSeg}
    (asks : seg.cmd = ikcpCmdWask ∨ Telling kcp) : Telling (inputKcp kcp seg) := by
  unfold Telling at asks ⊢
  rw [inputKcp_probe]
  split
  · rw [or_and_self]
    decide
  · rename_i other
    exact asks.resolve_left other

theorem Telling.recv {kcp : Ikcpcb} (telling : Telling kcp) (len : Int) :
    Telling (ikcpRecv kcp len).2.2 := by
  have moved : ∀ (segs : List IkcpSeg) (kcp : Ikcpcb), (moveToRcvQueue segs kcp).probe = kcp.probe :=
    moveToRcvQueue_keeps Ikcpcb.probe fun _ => rfl
  have recovered : ∀ probe : UInt32, (probe ||| ikcpAskTell) &&& ikcpAskTell ≠ 0 := by
    intro probe
    rw [or_and_self]
    decide
  unfold Telling ikcpRecv
  dsimp only
  split_ifs <;>
    first
      | exact telling
      | exact recovered _
      | (rw [moved]; exact telling)

theorem foldl_inputKcp_telling (segs : List IkcpSeg) :
    ∀ {kcp : Ikcpcb}, (∃ seg ∈ segs, seg.cmd = ikcpCmdWask) ∨ Telling kcp →
      Telling (segs.foldl inputKcp kcp) := by
  induction segs with
  | nil => simp
  | cons seg rest ih =>
      intro kcp asks
      apply ih
      rcases asks with ⟨other, member, isWask⟩ | told
      · rcases List.mem_cons.mp member with rfl | later
        · exact Or.inr (.input (Or.inl isWask))
        · exact Or.inl ⟨other, later, isWask⟩
      · exact Or.inr (.input (Or.inr told))

/-- The end of `ikcp_input` leaves the probes alone. -/
theorem ikcpInput_encode_probe {kcp : Ikcpcb} {segs : List IkcpSeg} (some : segs ≠ [])
    (readable : ∀ seg ∈ segs, Decodable kcp.conv seg) :
    (ikcpInput kcp (encodeSegs segs) (encodeSegs segs).length).2.probe =
      ((segs.map onWire).foldl inputKcp kcp).probe := by
  have enough := length_le_encodeSegs segs
  have long : ¬ (encodeSegs segs).length < ikcpOverhead := by
    have := List.length_pos_iff.mpr some
    simp only [ikcpOverhead] at enough ⊢
    omega
  have fuel : segs.length ≤ (encodeSegs segs).length := by
    simp only [ikcpOverhead] at enough
    omega
  have loop := inputLoop_encode segs _ [] ⟨kcp, false, 0⟩ fuel readable
  rw [List.append_nil] at loop
  rw [ikcpInput_cases kcp _ long, loop, ← inputSegment_foldl segs ⟨kcp, false, 0⟩]
  dsimp only
  unfold ikcpParseFastack
  split_ifs <;> rfl

end AsioKcp.Ikcp
