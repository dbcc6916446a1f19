import AsioKcp.Ikcp.Resends
import AsioKcp.Lib.Smoothing

/-! # The round-trip estimator

`ikcp_update_ack` computes in 32 bits.  While its samples are below `2 ^ 28` this is
the estimator over the integers, and `rx_rto` the timeout that belongs to it. -/
set_option autoImplicit false

namespace AsioKcp.Ikcp

open AsioKcp.Smoothing

def Ikcpcb.estimate (kcp : Ikcpcb) : Estimate := ⟨kcp.rxSrtt.toInt, kcp.rxRttval.toInt⟩

/-- The timeout for an estimate, as the wrapper configures `interval` and `rx_minrto`. -/
def timeout (e : Estimate) : Int := min (e.mean + max 10 (4 * e.spread)) 60000

section Int32
variable {x y : Int32}

theorem toInt_of_small {n : Int} (low : -2 ^ 31 ≤ n) (high : n < 2 ^ 31) : n.bmod (2 ^ 32) = n :=
  Int.bmod_eq_of_le (by omega) (by omega)

theorem toInt_add_small (low : -2 ^ 31 ≤ x.toInt + y.toInt) (high : x.toInt + y.toInt < 2 ^ 31) :
    (x + y).toInt = x.toInt + y.toInt := by
  rw [Int32.toInt_add, toInt_of_small low high]

theorem toInt_sub_small (low : -2 ^ 31 ≤ x.toInt - y.toInt) (high : x.toInt - y.toInt < 2 ^ 31) :
    (x - y).toInt = x.toInt - y.toInt := by
  rw [Int32.toInt_sub, toInt_of_small low high]

theorem toInt_mul_small (low : -2 ^ 31 ≤ x.toInt * y.toInt) (high : x.toInt * y.toInt < 2 ^ 31) :
    (x * y).toInt = x.toInt * y.toInt := by
  rw [Int32.toInt_mul, toInt_of_small low high]

/-- A positive divisor of a number that is not negative. -/
theorem toInt_div_small (low : 0 ≤ x.toInt) (positive : 0 < y.toInt) :
    (x / y).toInt = x.toInt / y.toInt := by
  have high := x.toInt_lt
  have quotient : x.toInt / y.toInt ≤ x.toInt := Int.ediv_le_self _ low
  have nonneg : 0 ≤ x.toInt / y.toInt := Int.ediv_nonneg low (Int.le_of_lt positive)
  rw [Int32.toInt_div, Int.tdiv_eq_ediv_of_nonneg low, toInt_of_small (by omega) (by omega)]

theorem toUInt32_of_nonneg (low : 0 ≤ x.toInt) : (x.toUInt32.toNat : Int) = x.toInt := by
  have signed := BitVec.toInt_eq_toNat_cond x.toBitVec
  have bound := x.toBitVec.isLt
  change x.toInt = _ at signed
  change (x.toBitVec.toNat : Int) = x.toInt
  split at signed <;> omega

theorem toInt32_of_small {u : UInt32} (small : u.toNat < 2 ^ 31) : u.toInt32.toInt = u.toNat := by
  have signed := BitVec.toInt_eq_toNat_cond u.toBitVec
  change u.toInt32.toInt = _ at signed
  change u.toInt32.toInt = u.toBitVec.toNat
  change u.toBitVec.toNat < 2 ^ 31 at small
  split at signed <;> omega

/-- The new `rx_srtt`. -/
theorem mean_toInt {srtt rtt : Int32} (set : 0 ≤ srtt.toInt) (small : srtt.toInt < 2 ^ 28)
    (low : 0 ≤ rtt.toInt) (high : rtt.toInt < 2 ^ 28) :
    (if (7 * srtt + rtt) / 8 < 1 then 1 else (7 * srtt + rtt) / 8).toInt =
      max 1 (mix 7 srtt.toInt rtt.toInt) := by
  have seven : (7 * srtt).toInt = 7 * srtt.toInt :=
    toInt_mul_small (x := 7) (show -2 ^ 31 ≤ 7 * srtt.toInt by omega)
      (show 7 * srtt.toInt < 2 ^ 31 by omega)
  have sum : (7 * srtt + rtt).toInt = 7 * srtt.toInt + rtt.toInt := by
    rw [toInt_add_small (by omega) (by omega), seven]
  have mean : ((7 * srtt + rtt) / 8).toInt = mix 7 srtt.toInt rtt.toInt := by
    rw [toInt_div_small (by omega) (show 0 < (8 : Int32).toInt by decide), sum]
    rfl
  have one : (7 * srtt + rtt) / 8 < 1 ↔ mix 7 srtt.toInt rtt.toInt < 1 := by
    rw [← mean]
    exact Int32.lt_iff_toInt_lt
  by_cases less : (7 * srtt + rtt) / 8 < 1
  · rw [if_pos less, max_eq_left (Int.le_of_lt (one.mp less))]
    rfl
  · rw [if_neg less, mean, max_eq_right (Int.not_lt.mp (mt one.mpr less))]

/-- The new `rx_rttval`, for a sample at the distance `delta` of `rx_srtt`. -/
theorem spread_toInt {rttval : Int32} (set : 0 ≤ rttval.toInt) (small : rttval.toInt < 2 ^ 28)
    {delta : Int} (low : 0 ≤ delta) (high : delta < 2 ^ 28) :
    (Int32.ofInt (((3 * rttval).toInt + delta).tdiv 4)).toInt = mix 3 rttval.toInt delta := by
  have three : (3 * rttval).toInt = 3 * rttval.toInt :=
    toInt_mul_small (x := 3) (show -2 ^ 31 ≤ 3 * rttval.toInt by omega)
      (show 3 * rttval.toInt < 2 ^ 31 by omega)
  rw [three, Int32.toInt_ofInt, Int.tdiv_eq_ediv_of_nonneg (by omega)]
  exact toInt_of_small (by omega) (by omega)

end Int32

theorem imax_toNat (a b : UInt32) : (imax a b).toNat = max a.toNat b.toNat := by
  simp only [imax, ge_iff_le, UInt32.le_iff_toNat_le]
  split <;> omega

theorem imin_toNat (a b : UInt32) : (imin a b).toNat = min a.toNat b.toNat := by
  simp only [imin, UInt32.le_iff_toNat_le]
  split <;> omega

/-- The bounds that `ikcp_update_ack` puts on the timeout. -/
theorem rto_toNat {srtt spread : UInt32} (small : srtt.toNat < 2 ^ 31) (small' : spread.toNat < 2 ^ 31) :
    (ibound 10 (srtt + imax 10 spread) ikcpRtoMax).toNat =
      min (srtt.toNat + max 10 spread.toNat) 60000 := by
  have ten : (10 : UInt32).toNat = 10 := rfl
  have sixty : ikcpRtoMax.toNat = 60000 := rfl
  rw [ibound, imin_toNat, imax_toNat, UInt32.toNat_add, imax_toNat, ten, sixty]
  omega

section Estimate
variable {kcp : Ikcpcb} {most : Int} {rtt : Int32}

theorem smoothedRtt_next (within : kcp.estimate.Within most) (small : most < 2 ^ 28)
    (low : 0 ≤ rtt.toInt) (high : rtt.toInt ≤ most) :
    Estimate.mk (smoothedRtt kcp rtt).1.toInt (smoothedRtt kcp rtt).2.toInt =
      kcp.estimate.next rtt.toInt := by
  obtain ⟨⟨meanLow, meanHigh⟩, spreadLow, spreadHigh⟩ := within
  change 0 ≤ kcp.rxSrtt.toInt at meanLow
  change kcp.rxSrtt.toInt ≤ most at meanHigh
  change 0 ≤ kcp.rxRttval.toInt at spreadLow
  change kcp.rxRttval.toInt ≤ most at spreadHigh
  have unset : kcp.rxSrtt = 0 ↔ kcp.estimate.mean = 0 := Int32.toInt_inj.symm
  unfold smoothedRtt Estimate.next
  by_cases fresh : kcp.rxSrtt = 0
  · rw [if_pos fresh, if_pos (unset.mp fresh)]
    have half := toInt_div_small low (show 0 < (2 : Int32).toInt by decide)
    exact congrArg (Estimate.mk rtt.toInt) half
  · have distance : (rtt - kcp.rxSrtt).toInt = rtt.toInt - kcp.rxSrtt.toInt :=
      toInt_sub_small (by omega) (by omega)
    have absolute : ∀ d : Int, (if d < 0 then -d else d) = |d| := by
      intro d
      split
      · rw [abs_of_neg ‹_›]
      · rw [abs_of_nonneg (by omega)]
    have far : |rtt.toInt - kcp.rxSrtt.toInt| < 2 ^ 28 := by
      rw [abs_lt]
      constructor <;> omega
    have mean := mean_toInt meanLow (by omega) low (by omega)
    have spread := spread_toInt spreadLow (by omega)
      (abs_nonneg (rtt.toInt - kcp.rxSrtt.toInt)) far
    rw [if_neg fresh, if_neg (mt unset.mpr fresh)]
    dsimp only
    rw [distance, absolute, mean, spread]
    rfl

/-- One call of `ikcp_update_ack`. -/
theorem ikcpUpdateAck_estimate (interval : kcp.interval = 10) (minrto : kcp.rxMinrto = 10)
    (within : kcp.estimate.Within most) (small : most < 2 ^ 28) (low : 0 ≤ rtt.toInt)
    (high : rtt.toInt ≤ most) :
    (ikcpUpdateAck kcp rtt).estimate = kcp.estimate.next rtt.toInt ∧
      (ikcpUpdateAck kcp rtt).rxRto.toInt = timeout (kcp.estimate.next rtt.toInt) := by
  have same := smoothedRtt_next within small low high
  have after := within.next low high
  refine ⟨same, ?_⟩
  rw [← same] at after ⊢
  obtain ⟨⟨meanLow, meanHigh⟩, spreadLow, spreadHigh⟩ := after
  change (ibound kcp.rxMinrto.toUInt32 ((smoothedRtt kcp rtt).1.toUInt32 +
    imax kcp.interval (4 * (smoothedRtt kcp rtt).2).toUInt32) ikcpRtoMax).toInt32.toInt = _
  generalize (smoothedRtt kcp rtt).1 = srtt at *
  generalize (smoothedRtt kcp rtt).2 = rttval at *
  change 0 ≤ srtt.toInt at meanLow
  change srtt.toInt ≤ most at meanHigh
  change 0 ≤ rttval.toInt at spreadLow
  change rttval.toInt ≤ most at spreadHigh
  have four : (4 * rttval).toInt = 4 * rttval.toInt :=
    toInt_mul_small (x := 4) (show -2 ^ 31 ≤ 4 * rttval.toInt by omega)
      (show 4 * rttval.toInt < 2 ^ 31 by omega)
  have mean := toUInt32_of_nonneg meanLow
  have spread := toUInt32_of_nonneg (x := 4 * rttval) (by omega)
  have clamped := rto_toNat (show srtt.toUInt32.toNat < 2 ^ 31 by omega)
    (show (4 * rttval).toUInt32.toNat < 2 ^ 31 by omega)
  rw [interval, show kcp.rxMinrto.toUInt32 = 10 from congrArg Int32.toUInt32 minrto,
    toInt32_of_small (by omega), clamped]
  simp only [timeout]
  omega

end Estimate

/-! ## What leaves the estimator alone -/

/-- The clock of a control block with its estimator. -/
structure Clockwork where
  current : UInt32
  srtt : Int32
  rttval : Int32
  rto : Int32

def Ikcpcb.clockwork (kcp : Ikcpcb) : Clockwork :=
  ⟨kcp.current, kcp.rxSrtt, kcp.rxRttval, kcp.rxRto⟩

section Clockwork
variable {kcp : Ikcpcb}

theorem ikcpSend_clockwork (kcp : Ikcpcb) (buffer : List UInt8) (len : Int) :
    (ikcpSend kcp buffer len).2.clockwork = kcp.clockwork := by
  have extended : (sendExtend kcp (buffer.take len.toNat)).1.clockwork = kcp.clockwork := by
    unfold sendExtend
    split
    · rfl
    · split <;> rfl
  unfold ikcpSend
  dsimp only
  split_ifs <;> first | rfl | exact extended

theorem ikcpRecv_clockwork (kcp : Ikcpcb) (len : Int) :
    (ikcpRecv kcp len).2.2.clockwork = kcp.clockwork := by
  unfold ikcpRecv
  dsimp only
  split_ifs <;>
    first | rfl | exact moveToRcvQueue_keeps Ikcpcb.clockwork (fun _ => rfl) _ _

theorem ikcpFlush_clockwork (kcp : Ikcpcb) : (ikcpFlush kcp).1.clockwork = kcp.clockwork := by
  unfold ikcpFlush
  split
  · rfl
  · exact flushMoved_keeps Ikcpcb.clockwork (fun _ => rfl) kcp

theorem ikcpShrinkBuf_clockwork (kcp : Ikcpcb) : (ikcpShrinkBuf kcp).clockwork = kcp.clockwork := by
  unfold ikcpShrinkBuf
  split <;> rfl

theorem ikcpParseAck_clockwork (kcp : Ikcpcb) (sn : UInt32) :
    (ikcpParseAck kcp sn).clockwork = kcp.clockwork := by
  unfold ikcpParseAck
  split <;> rfl

/-- The control block once the round trip of `seg` has been counted. -/
def sampled (kcp : Ikcpcb) (seg : IkcpSeg) : Ikcpcb :=
  if seg.cmd = ikcpCmdAck ∧ itimediff kcp.current seg.ts ≥ 0 then
    ikcpUpdateAck kcp (Int32.ofInt (itimediff kcp.current seg.ts)) else kcp

theorem inputHeader_clockwork (kcp : Ikcpcb) (seg : IkcpSeg) :
    (inputHeader kcp seg).clockwork = kcp.clockwork :=
  ikcpShrinkBuf_clockwork _

theorem ikcpUpdateAck_clockwork {kcp' : Ikcpcb} (same : kcp'.clockwork = kcp.clockwork)
    (params : kcp'.params = kcp.params) (rtt : Int32) :
    (ikcpUpdateAck kcp' rtt).clockwork = (ikcpUpdateAck kcp rtt).clockwork := by
  have current : kcp'.current = kcp.current := congrArg Clockwork.current same
  have srtt : kcp'.rxSrtt = kcp.rxSrtt := congrArg Clockwork.srtt same
  have rttval : kcp'.rxRttval = kcp.rxRttval := congrArg Clockwork.rttval same
  have interval : kcp'.interval = kcp.interval := congrArg Params.interval params
  have minrto : kcp'.rxMinrto = kcp.rxMinrto := congrArg Params.rxMinrto params
  simp only [Ikcpcb.clockwork, ikcpUpdateAck, smoothedRtt, current, srtt, rttval, interval, minrto]

/-- Of what a segment does, only its round trip counts here. -/
theorem inputKcp_clockwork (kcp : Ikcpcb) (seg : IkcpSeg) :
    (inputKcp kcp seg).clockwork = (sampled kcp seg).clockwork := by
  have header := inputHeader_clockwork kcp seg
  have current : (inputHeader kcp seg).current = kcp.current := congrArg Clockwork.current header
  unfold inputKcp sampled
  dsimp only
  by_cases ack : seg.cmd = ikcpCmdAck
  · rw [if_pos ack, inputAck, ikcpShrinkBuf_clockwork, ikcpParseAck_clockwork, current]
    simp only [ack, true_and]
    split
    · exact ikcpUpdateAck_clockwork header (inputHeader_params kcp seg) _
    · exact header
  · have skip : ¬ (seg.cmd = ikcpCmdAck ∧ itimediff kcp.current seg.ts ≥ 0) := fun both => ack both.1
    rw [if_neg ack, if_neg skip]
    split_ifs
    · rw [inputPush_keeps Ikcpcb.clockwork (fun _ => rfl) fun _ _ _ => rfl]
      exact header
    · exact header
    · exact header

theorem inputKcp_acklist (kcp : Ikcpcb) (seg : IkcpSeg) :
    ∀ stamp ∈ (inputKcp kcp seg).acklist,
      stamp ∈ kcp.acklist ∨ seg.cmd = ikcpCmdPush ∧ stamp = (seg.sn, seg.ts) := by
  have header := inputHeader_acklist kcp seg
  unfold inputKcp
  dsimp only
  split_ifs with ack push ask
  · rw [inputAck_acklist, header]
    exact fun stamp member => Or.inl member
  · intro stamp member
    unfold inputPush at member
    dsimp only at member
    split_ifs at member
    · rw [ikcpParseData_acklist] at member
      rcases List.mem_append.mp member with old | new
      · exact Or.inl (header ▸ old)
      · exact Or.inr ⟨push, List.mem_singleton.mp new⟩
    · rcases List.mem_append.mp member with old | new
      · exact Or.inl (header ▸ old)
      · exact Or.inr ⟨push, List.mem_singleton.mp new⟩
    · exact Or.inl (header ▸ member)
  · rw [show _ = (inputHeader kcp seg).acklist from rfl, header]
    exact fun stamp member => Or.inl member
  · rw [header]
    exact fun stamp member => Or.inl member

/-- A datagram of `segs` does what they do one after the other, beside the congestion
window and the counts of `fastack`. -/
theorem ikcpInput_foldl {α : Type} (f : Ikcpcb → α)
    (fastack : ∀ kcp sn, f (ikcpParseFastack kcp sn) = f kcp)
    (cwnd : ∀ kcp una, f (inputCwnd una kcp) = f kcp) {segs : List IkcpSeg}
    (readable : ∀ seg ∈ segs, Decodable kcp.conv seg) :
    f (ikcpInput kcp (encodeSegs segs) (encodeSegs segs).length).2 =
      f ((segs.map onWire).foldl inputKcp kcp) := by
  have enough := length_le_encodeSegs segs
  by_cases short : (encodeSegs segs).length < ikcpOverhead
  · have none : segs = [] := by
      apply List.eq_nil_of_length_eq_zero
      simp only [ikcpOverhead] at enough short
      omega
    rw [ikcpInput, if_pos short, none]
    rfl
  · have fuel : segs.length ≤ (encodeSegs segs).length := by
      simp only [ikcpOverhead] at enough
      omega
    have loop := inputLoop_encode segs _ [] ⟨kcp, false, 0⟩ fuel readable
    rw [List.append_nil] at loop
    rw [ikcpInput_cases kcp _ short, loop, ← inputSegment_foldl segs ⟨kcp, false, 0⟩]
    dsimp only
    rw [cwnd]
    split
    · exact fastack _ _
    · rfl

end Clockwork

end AsioKcp.Ikcp
