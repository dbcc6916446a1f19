import AsioKcp.Ikcp.Lasting
import AsioKcp.Ikcp.Schedule
import AsioKcp.Ikcp.Wire

/-! # A flush after a flush

A flush empties the ack list and clears the probes, so that another one at the
same time repeats neither.  It repeats a data segment exactly if the first
transmission has left that segment due. -/
set_option autoImplicit false

namespace AsioKcp.Ikcp

open AsioKcp.Serial

/-! ## The retransmission timeout and the probe wait -/

/-- The bounds that `ikcp_update_ack` and `ikcp_flush` keep. -/
structure Paced (kcp : Ikcpcb) : Prop where
  minrto : kcp.rxMinrto = 10
  rto_pos : 0 < kcp.rxRto.toUInt32.toNat
  rto_le : kcp.rxRto.toUInt32.toNat ≤ 60000
  wait : kcp.probeWait.toNat ≤ 120000

section Paced
variable {kcp kcp' : Ikcpcb}

theorem Paced.congr (paced : Paced kcp) (params : kcp'.params = kcp.params)
    (rto : kcp'.rxRto = kcp.rxRto) (wait : kcp'.probeWait = kcp.probeWait) : Paced kcp' where
  minrto := (congrArg Params.rxMinrto params).trans paced.minrto
  rto_pos := rto ▸ paced.rto_pos
  rto_le := rto ▸ paced.rto_le
  wait := wait ▸ paced.wait

theorem ibound_toNat (lower middle upper : UInt32) (ordered : lower.toNat ≤ upper.toNat) :
    lower.toNat ≤ (ibound lower middle upper).toNat ∧
      (ibound lower middle upper).toNat ≤ upper.toNat := by
  simp only [ibound, imin, imax, ge_iff_le, UInt32.le_iff_toNat_le]
  split_ifs <;> omega

theorem ikcpUpdateAck_paced (rtt : Int32) (paced : Paced kcp) : Paced (ikcpUpdateAck kcp rtt) := by
  have bounds := ibound_toNat kcp.rxMinrto.toUInt32
    ((smoothedRtt kcp rtt).1.toUInt32 + imax kcp.interval (4 * (smoothedRtt kcp rtt).2).toUInt32)
    ikcpRtoMax (by rw [paced.minrto]; decide)
  have low : kcp.rxMinrto.toUInt32.toNat = 10 := by
    rw [paced.minrto]
    rfl
  have high : ikcpRtoMax.toNat = 60000 := rfl
  refine ⟨paced.minrto, ?_, ?_, paced.wait⟩
  · change 0 < (ibound _ _ _).toInt32.toUInt32.toNat
    rw [UInt32.toUInt32_toInt32]
    omega
  · change (ibound _ _ _).toInt32.toUInt32.toNat ≤ 60000
    rw [UInt32.toUInt32_toInt32]
    omega

theorem windowProbe_wait_le (wait : kcp.probeWait.toNat ≤ 120000) :
    (windowProbe kcp).1.toNat ≤ 120000 := by
  have limit : ikcpProbeLimit.toNat = 120000 := rfl
  unfold windowProbe
  dsimp only
  split_ifs with closed fresh due init longer longer
  · have init : ikcpProbeInit.toNat ≤ 120000 := by decide
    exact init
  · exact Nat.le_of_eq limit
  · rw [gt_iff_lt, UInt32.lt_iff_toNat_lt, limit] at longer
    exact Nat.le_of_not_lt longer
  · exact Nat.le_of_eq limit
  · rw [gt_iff_lt, UInt32.lt_iff_toNat_lt, limit] at longer
    exact Nat.le_of_not_lt longer
  · exact wait
  · exact Nat.zero_le _

theorem flushMoved_paced (paced : Paced kcp) : Paced (flushMoved kcp) := by
  have probed : Paced { flushProbed kcp with probe := 0 } :=
    ⟨paced.minrto, paced.rto_pos, paced.rto_le,
      @windowProbe_wait_le { kcp with acklist := [] } paced.wait⟩
  exact probed.congr (flushMoved_params kcp) (flushMoved_keeps Ikcpcb.rxRto (fun _ => rfl) kcp)
    (flushMoved_keeps Ikcpcb.probeWait (fun _ => rfl) kcp)

theorem ikcpFlush_paced (paced : Paced kcp) : Paced (ikcpFlush kcp).1 := by
  unfold ikcpFlush
  split
  · exact paced
  · exact (flushMoved_paced paced).congr rfl rfl rfl

theorem ikcpRecv_paced (len : Int) (paced : Paced kcp) : Paced (ikcpRecv kcp len).2.2 := by
  have rest : (ikcpRecv kcp len).2.2.rxRto = kcp.rxRto ∧
      (ikcpRecv kcp len).2.2.probeWait = kcp.probeWait := by
    unfold ikcpRecv
    dsimp only
    split_ifs <;>
      first
        | exact ⟨rfl, rfl⟩
        | exact ⟨moveToRcvQueue_keeps Ikcpcb.rxRto (fun _ => rfl) _ _,
            moveToRcvQueue_keeps Ikcpcb.probeWait (fun _ => rfl) _ _⟩
  exact paced.congr (ikcpRecv_params kcp len) rest.1 rest.2

theorem ikcpSend_paced (buffer : List UInt8) (len : Int) (paced : Paced kcp) :
    Paced (ikcpSend kcp buffer len).2 := by
  have extended : (sendExtend kcp (buffer.take len.toNat)).1.rxRto = kcp.rxRto ∧
      (sendExtend kcp (buffer.take len.toNat)).1.probeWait = kcp.probeWait := by
    unfold sendExtend
    split
    · exact ⟨rfl, rfl⟩
    · split <;> exact ⟨rfl, rfl⟩
  have rest : (ikcpSend kcp buffer len).2.rxRto = kcp.rxRto ∧
      (ikcpSend kcp buffer len).2.probeWait = kcp.probeWait := by
    unfold ikcpSend
    dsimp only
    split_ifs <;> first | exact ⟨rfl, rfl⟩ | exact extended
  exact paced.congr (ikcpSend_params kcp buffer len) rest.1 rest.2

theorem inputKcp_paced (seg : IkcpSeg) (paced : Paced kcp) : Paced (inputKcp kcp seg) := by
  have shrunk : ∀ {k : Ikcpcb}, Paced k → Paced (ikcpShrinkBuf k) := by
    intro k paced
    apply paced.congr (ikcpShrinkBuf_params k)
    · unfold ikcpShrinkBuf
      split <;> rfl
    · unfold ikcpShrinkBuf
      split <;> rfl
  have acked : ∀ {k : Ikcpcb}, Paced k → Paced (ikcpParseAck k seg.sn) := by
    intro k paced
    apply paced.congr (ikcpParseAck_params k seg.sn)
    · unfold ikcpParseAck
      split <;> rfl
    · unfold ikcpParseAck
      split <;> rfl
  have header : Paced (inputHeader kcp seg) := by
    unfold inputHeader
    exact shrunk (paced.congr rfl rfl rfl)
  unfold inputKcp
  dsimp only
  split_ifs
  · unfold inputAck
    dsimp only
    apply shrunk
    apply acked
    split
    · exact ikcpUpdateAck_paced _ header
    · exact header
  · exact header.congr (inputPush_params _ seg)
      (inputPush_keeps Ikcpcb.rxRto (fun _ => rfl) (fun _ _ _ => rfl) _ seg)
      (inputPush_keeps Ikcpcb.probeWait (fun _ => rfl) (fun _ _ _ => rfl) _ seg)
  · exact header.congr rfl rfl rfl
  · exact header

theorem paced_lasting : Lasting Paced where
  send := fun buffer len paced => ikcpSend_paced buffer len paced
  recv := fun len paced => ikcpRecv_paced len paced
  input := ikcpInput_keeps (fun seg paced => inputKcp_paced seg paced)
    (fun sn paced => by
      unfold ikcpParseFastack
      split
      · exact paced
      · exact paced.congr rfl rfl rfl)
    fun _ _ paced => paced.congr rfl rfl rfl
  retimed := fun _ _ _ paced => paced.congr rfl rfl rfl
  flush := fun paced => ikcpFlush_paced paced

end Paced

/-! ## The segments of two flushes at one time -/

/-- A resend time that is past when it is set. -/
def Overdue (rto : UInt32) : Prop := rto = 0 ∨ 2 ^ 31 < rto.toNat

instance (rto : UInt32) : Decidable (Overdue rto) := inferInstanceAs (Decidable (_ ∨ _))

theorem overdue_iff (now rto : UInt32) : itimediff now (now + rto) ≥ 0 ↔ Overdue rto := by
  have bound := rto.toNat_lt
  have zero : rto = 0 ↔ rto.toNat = 0 := UInt32.toNat_inj.symm
  rw [itimediff, distance_eq, UInt32.toNat_add, Overdue, zero]
  simp only [Int.bmod_def]
  omega

/-- A flush that sends this segment finds it due again at the same time. -/
def DueAgain (kcp : Ikcpcb) (seg : IkcpSeg) : Prop :=
  match transmit kcp seg with
  | .skip => False
  | .first => 2 ≤ seg.fastack.toNat
  | .timeout => seg.xmit + 1 = 0 ∨ Overdue (seg.rto + (seg.rto.toInt32 / 2).toUInt32) ∨
      2 ≤ seg.fastack.toNat ∧ (seg.xmit + 1).toInt32.toInt ≤ 5
  | .fast => seg.xmit + 1 = 0 ∨ Overdue seg.rto

instance (kcp : Ikcpcb) (seg : IkcpSeg) : Decidable (DueAgain kcp seg) := by
  unfold DueAgain
  exact match transmit kcp seg with
    | .skip => inferInstanceAs (Decidable False)
    | .first => inferInstanceAs (Decidable (_ ≤ _))
    | .timeout => inferInstanceAs (Decidable (_ ∨ _ ∨ _ ∧ _))
    | .fast => inferInstanceAs (Decidable (_ ∨ _))

/-- The configuration that decides on retransmissions. -/
structure Fast (p : Params) : Prop where
  nodelay : p.nodelay = 1
  fastresend : p.fastresend = 2
  fastlimit : p.fastlimit = 5

theorem transmit_congr {kcp kcp' : Ikcpcb} (current : kcp'.current = kcp.current)
    (params : kcp'.params = kcp.params) (seg : IkcpSeg) : transmit kcp' seg = transmit kcp seg := by
  have fastresend : kcp'.fastresend = kcp.fastresend := congrArg Params.fastresend params
  have fastlimit : kcp'.fastlimit = kcp.fastlimit := congrArg Params.fastlimit params
  simp only [transmit, resent, current, fastresend, fastlimit]
  rfl

/-- The decision on a segment with `fastresend` and `fastlimit` filled in. -/
theorem transmit_skip_iff {kcp : Ikcpcb} (fast : Fast kcp.params) (seg : IkcpSeg) :
    transmit kcp seg ≠ .skip ↔ seg.xmit = 0 ∨ itimediff kcp.current seg.resendts ≥ 0 ∨
      2 ≤ seg.fastack.toNat ∧ seg.xmit.toInt32.toInt ≤ 5 := by
  have fastresend : kcp.fastresend = 2 := fast.fastresend
  have fastlimit : kcp.fastlimit = 5 := fast.fastlimit
  have resent : resent kcp = 2 := by
    rw [Ikcp.resent, fastresend]
    rfl
  have two : (2 : UInt32).toNat = 2 := rfl
  simp only [transmit, resent, fastlimit, ge_iff_le, UInt32.le_iff_toNat_le, two]
  split_ifs <;> simp_all

theorem flushSegment_dueAgain {kcp : Ikcpcb} (fast : Fast kcp.params) (paced : Paced kcp)
    (wnd : UInt32) {seg : IkcpSeg} (sent : transmit kcp seg ≠ .skip) :
    transmit kcp (flushSegment kcp wnd seg) ≠ .skip ↔ DueAgain kcp seg := by
  have nodelay : kcp.nodelay = 1 := fast.nodelay
  have overdue := overdue_iff kcp.current
  have quick : rtomin kcp = 0 := by
    rw [rtomin, nodelay]
    rfl
  rw [transmit_skip_iff fast, DueAgain]
  unfold flushSegment
  cases decided : transmit kcp seg with
  | skip => exact absurd decided sent
  | first =>
      have fresh : seg.xmit = 0 := by
        by_contra old
        unfold transmit at decided
        rw [if_neg old] at decided
        split_ifs at decided
      have again : ¬ Overdue kcp.rxRto.toUInt32 := by
        have low := paced.rto_pos
        have high := paced.rto_le
        rintro (none | far)
        · rw [none] at low
          exact absurd low (by decide)
        · omega
      dsimp only
      rw [quick, UInt32.add_zero, overdue, fresh]
      simp [again]
  | timeout =>
      have step : (if kcp.nodelay = 0 then seg.rto + imax seg.rto kcp.rxRto.toUInt32
          else seg.rto + ((if kcp.nodelay < 2 then seg.rto.toInt32 else kcp.rxRto) / 2).toUInt32) =
          seg.rto + (seg.rto.toInt32 / 2).toUInt32 := by
        rw [nodelay]
        rfl
      dsimp only
      rw [step, overdue]
  | fast =>
      dsimp only
      rw [overdue]
      simp

/-- The segments that a flush numbers are new. -/
theorem moveToSndBuf_fresh (cwnd wnd : UInt32) (segs : List IkcpSeg) (kcp : Ikcpcb) :
    ∃ fresh, (moveToSndBuf cwnd wnd segs kcp).sndBuf = kcp.sndBuf ++ fresh ∧
      ∀ seg ∈ fresh, seg.xmit = 0 ∧ seg.fastack = 0 := by
  induction segs generalizing kcp with
  | nil => exact ⟨[], (List.append_nil _).symm, fun _ none => (List.not_mem_nil none).elim⟩
  | cons seg rest ih =>
      simp only [moveToSndBuf]
      split
      · obtain ⟨fresh, moved, new⟩ := ih _
        refine ⟨_, moved.trans (List.append_assoc ..), fun other member => ?_⟩
        rcases List.mem_cons.mp member with rfl | later
        · exact ⟨rfl, rfl⟩
        · exact new other later
      · exact ⟨[], (List.append_nil _).symm, fun _ none => (List.not_mem_nil none).elim⟩

theorem flushMoved_current (kcp : Ikcpcb) : (flushMoved kcp).current = kcp.current :=
  flushMoved_keeps Ikcpcb.current (fun _ => rfl) kcp

/-- The control block after a flush, as the next flush reads it. -/
structure AfterFlush (kcp after : Ikcpcb) : Prop where
  current : after.current = kcp.current
  acklist : after.acklist = []
  probe : after.probe = 0
  rmtWnd : after.rmtWnd = kcp.rmtWnd
  probeWait : after.probeWait = (windowProbe kcp).1
  tsProbe : after.tsProbe = (windowProbe kcp).2.1
  sndBuf : after.sndBuf =
    (flushMoved kcp).sndBuf.map (flushSegment (flushMoved kcp) (ikcpWndUnused kcp))

theorem ikcpFlush_after {kcp : Ikcpcb} (updated : kcp.updated ≠ 0) :
    AfterFlush kcp (ikcpFlush kcp).1 := by
  have acks := moveToSndBuf_acklist (flushCwnd kcp) (ikcpWndUnused kcp) kcp.sndQueue
    { flushProbed kcp with probe := 0 }
  unfold ikcpFlush
  rw [if_neg updated]
  exact ⟨flushMoved_current kcp, acks, flushMoved_keeps Ikcpcb.probe (fun _ => rfl) kcp,
    flushMoved_keeps Ikcpcb.rmtWnd (fun _ => rfl) kcp,
    flushMoved_keeps Ikcpcb.probeWait (fun _ => rfl) kcp,
    flushMoved_keeps Ikcpcb.tsProbe (fun _ => rfl) kcp, rfl⟩

/-- The probe timer is set to a time ahead. -/
theorem windowProbe_ahead {kcp : Ikcpcb} (closed : kcp.rmtWnd = 0)
    (wait : kcp.probeWait.toNat ≤ 120000) :
    (windowProbe kcp).1 ≠ 0 ∧ ¬ itimediff kcp.current (windowProbe kcp).2.1 ≥ 0 := by
  have init : ikcpProbeInit.toNat = 7000 := rfl
  have limit : ikcpProbeLimit.toNat = 120000 := rfl
  have nonzero : ∀ w : UInt32, 7000 ≤ w.toNat → w ≠ 0 := by
    rintro w long rfl
    exact absurd long (by decide)
  have ahead : ∀ w : UInt32, 7000 ≤ w.toNat → w.toNat ≤ 120000 →
      w ≠ 0 ∧ ¬ itimediff kcp.current (kcp.current + w) ≥ 0 := by
    intro w low high
    rw [overdue_iff]
    refine ⟨nonzero w low, fun overdue => ?_⟩
    rcases overdue with none | far
    · exact nonzero w low none
    · omega
  have grown : ∀ w : UInt32, 7000 ≤ w.toNat → w.toNat ≤ 120000 →
      7000 ≤ (if w + w / 2 > ikcpProbeLimit then ikcpProbeLimit else w + w / 2).toNat ∧
        (if w + w / 2 > ikcpProbeLimit then ikcpProbeLimit else w + w / 2).toNat ≤ 120000 := by
    intro w low high
    have two : (2 : UInt32).toNat = 2 := rfl
    have sum : (w + w / 2).toNat = w.toNat + w.toNat / 2 := by
      rw [UInt32.toNat_add, UInt32.toNat_div, two, Nat.mod_eq_of_lt (by omega)]
    simp only [gt_iff_lt, UInt32.lt_iff_toNat_lt, limit, sum]
    split_ifs
    · omega
    · rw [sum]
      omega
  unfold windowProbe
  rw [if_pos closed]
  split
  · exact ahead ikcpProbeInit (Nat.le_of_eq init.symm) (by omega)
  · rename_i started
    split
    · dsimp only
      have floor : 7000 ≤ (if kcp.probeWait < ikcpProbeInit then ikcpProbeInit
            else kcp.probeWait).toNat ∧
          (if kcp.probeWait < ikcpProbeInit then ikcpProbeInit else kcp.probeWait).toNat ≤
            120000 := by
        simp only [UInt32.lt_iff_toNat_lt, init]
        split_ifs <;> omega
      obtain ⟨low, high⟩ := grown _ floor.1 floor.2
      exact ahead _ low high
    · rename_i waiting
      exact ⟨started, waiting⟩

/-- No window probe follows a window probe at the same time. -/
theorem windowProbe_again {kcp after : Ikcpcb} (flushed : AfterFlush kcp after)
    (wait : kcp.probeWait.toNat ≤ 120000) : (windowProbe after).2.2 = 0 := by
  by_cases closed : kcp.rmtWnd = 0
  · obtain ⟨started, waiting⟩ := windowProbe_ahead closed wait
    unfold windowProbe
    rw [flushed.rmtWnd, if_pos closed, flushed.probeWait, if_neg started, flushed.current,
      flushed.tsProbe, if_neg waiting]
    exact flushed.probe
  · unfold windowProbe
    rw [flushed.rmtWnd, if_neg closed]
    exact flushed.probe

theorem flushSegs_after {kcp after : Ikcpcb} (flushed : AfterFlush kcp after)
    (wait : kcp.probeWait.toNat ≤ 120000) : flushSegs after = dataSegs after := by
  have acks : ackSegs after = [] := by
    rw [ackSegs, flushed.acklist]
    rfl
  have probe : (flushProbed after).probe = 0 := by
    have same : windowProbe { after with acklist := [] } = windowProbe after := rfl
    change (windowProbe { after with acklist := [] }).2.2 = 0
    rw [same]
    exact windowProbe_again flushed wait
  have probes : probeSegs after = [] := by
    rw [probeSegs, probe]
    rfl
  rw [flushSegs, acks, probes]
  rfl

/-! ## Which numbers are sent twice -/

/-- The numbers in `snd_buf` are different ones. -/
theorem Outgoing.sn_nodup {conv : UInt32} {kcp : Ikcpcb} (outgoing : Outgoing conv kcp) :
    (kcp.sndBuf.map IkcpSeg.sn).Nodup := by
  obtain ⟨out, live, sending, window⟩ := outgoing.numbering
  have sns : kcp.sndBuf.map IkcpSeg.sn = live.map UInt32.ofNat := by
    have cores := congrArg (List.map SegCore.sn) sending.buf
    rw [List.map_map, List.map_map] at cores
    exact cores
  rw [sns]
  apply List.Nodup.map_on
  · intro i isLive j isLive' same
    have low := sending.head_le i isLive
    have low' := sending.head_le j isLive'
    have high := sending.below i isLive
    have high' := sending.below j isLive'
    exact (ofNat_eq_iff (by constructor <;> omega)).mp same
  · exact sending.sorted.imp fun less => Nat.ne_of_lt less

theorem dataSegs_sn (kcp : Ikcpcb) : (dataSegs kcp).map IkcpSeg.sn =
    ((flushMoved kcp).sndBuf.filter fun seg => transmit (flushMoved kcp) seg ≠ .skip).map
      IkcpSeg.sn := by
  rw [dataSegs, List.map_map]
  exact List.map_congr_left fun seg _ =>
    congrArg SegCore.sn (flushSegment_core (flushMoved kcp) (ikcpWndUnused kcp) seg)

theorem dataSegs_nodup {conv : UInt32} {kcp : Ikcpcb} (outgoing : Outgoing conv kcp) :
    ((dataSegs kcp).map IkcpSeg.sn).Nodup := by
  rw [dataSegs_sn]
  exact (flushMoved_outgoing outgoing).sn_nodup.sublist (List.filter_sublist.map _)

theorem mem_dataSegs_sn {kcp : Ikcpcb} {sn : UInt32} :
    sn ∈ (dataSegs kcp).map IkcpSeg.sn ↔
      ∃ seg ∈ (flushMoved kcp).sndBuf, transmit (flushMoved kcp) seg ≠ .skip ∧ seg.sn = sn := by
  rw [dataSegs_sn, List.mem_map]
  simp only [List.mem_filter, decide_eq_true_eq, and_assoc]

/-- Two flushes at one time repeat a number exactly if they find a segment of
`snd_buf` due twice. -/
theorem dataSegs_twice_iff {conv : UInt32} {kcp : Ikcpcb} (outgoing : Outgoing conv kcp)
    (fast : Fast kcp.params) (paced : Paced kcp) (updated : kcp.updated ≠ 0) :
    ((dataSegs kcp ++ dataSegs (ikcpFlush kcp).1).map IkcpSeg.sn).Nodup ↔
      ∀ seg ∈ kcp.sndBuf, ¬ DueAgain kcp seg := by
  have flushed := ikcpFlush_after updated
  have later := ikcpFlush_outgoing outgoing
  have same : ∀ seg, transmit (flushMoved kcp) seg = transmit kcp seg :=
    transmit_congr (flushMoved_current kcp) (flushMoved_params kcp)
  have sameLater : ∀ seg, transmit (flushMoved (ikcpFlush kcp).1) seg = transmit (flushMoved kcp) seg :=
    transmit_congr ((flushMoved_current _).trans (flushed.current.trans (flushMoved_current kcp).symm))
      ((flushMoved_params _).trans ((ikcpFlush_params kcp).trans (flushMoved_params kcp).symm))
  have again : ∀ seg, transmit kcp seg ≠ .skip →
      (transmit (flushMoved kcp) (flushSegment (flushMoved kcp) (ikcpWndUnused kcp) seg) ≠ .skip ↔
        DueAgain kcp seg) := by
    intro seg sent
    rw [flushSegment_dueAgain ((flushMoved_params kcp).symm ▸ fast) (flushMoved_paced paced) _
      (by rw [same]; exact sent), DueAgain, DueAgain, same]
  obtain ⟨fresh, moved, new⟩ := moveToSndBuf_fresh (flushCwnd { flushProbed kcp with probe := 0 })
    (ikcpWndUnused { flushProbed kcp with probe := 0 }) kcp.sndQueue
    { flushProbed kcp with probe := 0 }
  have buffered : (flushMoved kcp).sndBuf = kcp.sndBuf ++ fresh := moved
  obtain ⟨fresh', moved', -⟩ := moveToSndBuf_fresh
    (flushCwnd { flushProbed (ikcpFlush kcp).1 with probe := 0 })
    (ikcpWndUnused { flushProbed (ikcpFlush kcp).1 with probe := 0 }) (ikcpFlush kcp).1.sndQueue
    { flushProbed (ikcpFlush kcp).1 with probe := 0 }
  have kept : ∀ seg ∈ (flushMoved kcp).sndBuf,
      flushSegment (flushMoved kcp) (ikcpWndUnused kcp) seg ∈
        (flushMoved (ikcpFlush kcp).1).sndBuf := by
    intro seg member
    have inAfter : flushSegment (flushMoved kcp) (ikcpWndUnused kcp) seg ∈
        (ikcpFlush kcp).1.sndBuf := by
      rw [flushed.sndBuf]
      exact List.mem_map_of_mem member
    have shape : (flushMoved (ikcpFlush kcp).1).sndBuf = (ikcpFlush kcp).1.sndBuf ++ fresh' := moved'
    rw [shape]
    exact List.mem_append_left _ inAfter
  rw [List.map_append, List.nodup_append]
  constructor
  · rintro ⟨-, -, apart⟩ seg member due
    have sent : transmit kcp seg ≠ .skip := by
      intro skipped
      rw [DueAgain, skipped] at due
      exact due
    have inMoved : seg ∈ (flushMoved kcp).sndBuf := by
      rw [buffered]
      exact List.mem_append_left _ member
    apply apart seg.sn _ seg.sn _ rfl
    · exact mem_dataSegs_sn.mpr ⟨seg, inMoved, by rw [same]; exact sent, rfl⟩
    · refine mem_dataSegs_sn.mpr ⟨_, kept seg inMoved, ?_, ?_⟩
      · rw [sameLater]
        exact (again seg sent).mpr due
      · exact congrArg SegCore.sn (flushSegment_core _ _ seg)
  · intro once
    refine ⟨dataSegs_nodup outgoing, dataSegs_nodup later, fun sn first sn' second equal => ?_⟩
    obtain ⟨seg, inMoved, sent, rfl⟩ := mem_dataSegs_sn.mp first
    obtain ⟨seg', inLater, sent', rfl⟩ := mem_dataSegs_sn.mp second
    have core : (flushSegment (flushMoved kcp) (ikcpWndUnused kcp) seg).sn = seg.sn :=
      congrArg SegCore.sn (flushSegment_core _ _ seg)
    have isSent := List.inj_on_of_nodup_map (flushMoved_outgoing later).sn_nodup
      (kept seg inMoved) inLater (core.trans equal)
    rw [sameLater, ← isSent] at sent'
    rw [same] at sent
    have due := (again seg sent).mp sent'
    rw [buffered] at inMoved
    rcases List.mem_append.mp inMoved with old | isFresh
    · exact once seg old due
    · obtain ⟨unsent, unacked⟩ := new seg isFresh
      have first : transmit kcp seg = .first := if_pos unsent
      have few : ¬ 2 ≤ (0 : UInt32).toNat := by decide
      rw [DueAgain, first, unacked] at due
      exact few due

end AsioKcp.Ikcp
