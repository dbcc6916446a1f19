import AsioKcp.Ikcp.Estimate
import AsioKcp.Ikcp.Offers

/-! # The round trips that acks measure

An ack gives back the stamp of a push, which its receiver has set from its own
clock: while that clock is below `2 ^ 28` no round trip is negative or longer than
the clock, and `ikcp_update_ack` is the estimator over the integers. -/
set_option autoImplicit false

namespace AsioKcp.Ikcp

open AsioKcp.Smoothing

/-- The round trips that the acks among `segs` measure at `clock`. -/
def trips (clock : Nat) (segs : List IkcpSeg) : List Int :=
  (segs.filter fun seg => seg.cmd = ikcpCmdAck).map fun seg => (clock : Int) - seg.ts.toNat

theorem trips_append (clock : Nat) (segs segs' : List IkcpSeg) :
    trips clock (segs ++ segs') = trips clock segs ++ trips clock segs' := by
  simp only [trips, List.filter_append, List.map_append]

theorem trips_onWire {conv : UInt32} {clock : Nat} {segs : List IkcpSeg}
    (readable : ∀ seg ∈ segs, Decodable conv seg) :
    trips clock (segs.map onWire) = trips clock segs := by
  induction segs with
  | nil => rfl
  | cons seg rest ih =>
      have same := (readable seg (List.mem_cons_self ..)).wire
      have others := ih fun other member => readable other (List.mem_cons_of_mem seg member)
      have here : trips clock [onWire seg] = trips clock [seg] := by
        rw [trips, trips, List.filter_singleton, List.filter_singleton, same]
        cases decide (seg.cmd = ikcpCmdAck) <;> rfl
      rw [List.map_cons, ← List.singleton_append, trips_append, others, here, ← trips_append]
      rfl

/-- From `kcp` to `kcp'` the estimator has counted these samples. -/
structure Measures (samples : List Int) (kcp kcp' : Ikcpcb) : Prop where
  estimate : kcp'.estimate = samples.foldl Estimate.next kcp.estimate
  rto : kcp'.rxRto.toInt = if samples = [] then kcp.rxRto.toInt else timeout kcp'.estimate

namespace Measures
variable {xs ys : List Int} {kcp kcp' kcp'' : Ikcpcb}

theorem of_same (estimate : kcp'.estimate = kcp.estimate) (rto : kcp'.rxRto = kcp.rxRto) :
    Measures [] kcp kcp' :=
  ⟨estimate, congrArg Int32.toInt rto⟩

theorem of_clockwork (same : kcp'.clockwork = kcp.clockwork) : Measures [] kcp kcp' := by
  have srtt : kcp'.rxSrtt = kcp.rxSrtt := congrArg Clockwork.srtt same
  have rttval : kcp'.rxRttval = kcp.rxRttval := congrArg Clockwork.rttval same
  apply of_same
  · simp only [Ikcpcb.estimate, srtt, rttval]
  · exact congrArg Clockwork.rto same

theorem append (first : Measures xs kcp kcp') (second : Measures ys kcp' kcp'') :
    Measures (xs ++ ys) kcp kcp'' where
  estimate := by rw [second.estimate, first.estimate, List.foldl_append]
  rto := by
    rw [second.rto]
    by_cases none : ys = []
    · subst none
      rw [if_pos rfl, first.rto, List.append_nil, second.estimate, List.foldl_nil]
    · rw [if_neg none, if_neg (List.append_ne_nil_of_right_ne_nil xs none)]

theorem within {most : Int} (measures : Measures xs kcp kcp')
    (small : ∀ x ∈ xs, 0 ≤ x ∧ x ≤ most) (before : kcp.estimate.Within most) :
    kcp'.estimate.Within most := by
  rw [measures.estimate]
  exact Estimate.foldl_next_within xs small before

end Measures

/-- A segment of a party at `clock`, while the other one is at `clock'`: pushes have
been stamped here, and acks give back stamps from there. -/
structure Timed (conv : UInt32) (clock clock' : Nat) (seg : IkcpSeg) : Prop where
  decodable : Decodable conv seg
  push : seg.cmd = ikcpCmdPush → seg.ts.toNat ≤ clock
  ack : seg.cmd = ikcpCmdAck → seg.ts.toNat ≤ clock'

theorem Timed.mono {conv : UInt32} {c c' d d' : Nat} {seg : IkcpSeg} (timed : Timed conv c c' seg)
    (own : c ≤ d) (other : c' ≤ d') : Timed conv d d' seg where
  decodable := timed.decodable
  push := fun isPush => Nat.le_trans (timed.push isPush) own
  ack := fun isAck => Nat.le_trans (timed.ack isAck) other

theorem Timed.wire {conv : UInt32} {c c' : Nat} {seg : IkcpSeg} (timed : Timed conv c c' seg) :
    Timed conv c c' (onWire seg) where
  decodable := by
    obtain ⟨tagged, known, short⟩ := timed.decodable
    exact ⟨tagged, by rw [timed.decodable.wire]; exact known, short⟩
  push := fun isPush => timed.push (timed.decodable.wire.symm.trans isPush)
  ack := fun isAck => timed.ack (timed.decodable.wire.symm.trans isAck)

theorem trips_small {conv : UInt32} {clock clock' : Nat} {segs : List IkcpSeg}
    (timed : ∀ seg ∈ segs, Timed conv clock' clock seg) :
    ∀ x ∈ trips clock segs, 0 ≤ x ∧ x ≤ clock := by
  intro x member
  obtain ⟨seg, isAck, rfl⟩ := List.mem_map.mp member
  obtain ⟨inside, ack⟩ := List.mem_filter.mp isAck
  have early := (timed seg inside).ack (of_decide_eq_true ack)
  omega

/-! ## A control block and the clocks -/

/-- The control block of a party at `clock`, while the other one is at `clock'`. -/
structure Timekept (clock clock' : Nat) (kcp : Ikcpcb) : Prop where
  interval : kcp.params.interval = 10
  minrto : kcp.params.rxMinrto = 10
  current : kcp.current = UInt32.ofNat clock
  stamps : ∀ stamp ∈ kcp.acklist, stamp.2.toNat ≤ clock'
  within : clock < 2 ^ 28 → kcp.estimate.Within clock

/-- A control block at the same clocks that has counted `samples` since `kcp`. -/
structure Counts (clock clock' : Nat) (samples : List Int) (kcp kcp' : Ikcpcb) : Prop where
  measures : clock < 2 ^ 28 → Measures samples kcp kcp'
  kept : Timekept clock clock' kcp'

section Timekept
variable {conv : UInt32} {clock clock' : Nat} {kcp kcp' : Ikcpcb}

theorem Timekept.counts (kept : Timekept clock clock' kcp) (params : kcp'.params = kcp.params)
    (same : kcp'.clockwork = kcp.clockwork) (stamps : ∀ stamp ∈ kcp'.acklist, stamp ∈ kcp.acklist) :
    Counts clock clock' [] kcp kcp' where
  measures := fun _ => .of_clockwork same
  kept := {
    interval := params ▸ kept.interval
    minrto := params ▸ kept.minrto
    current := (congrArg Clockwork.current same).trans kept.current
    stamps := fun stamp member => kept.stamps stamp (stamps stamp member)
    within := fun small => (Measures.of_clockwork same).within
      (fun _ member => (List.not_mem_nil member).elim) (kept.within small) }

theorem Timekept.mono {d' : Nat} (kept : Timekept clock clock' kcp) (later : clock' ≤ d') :
    Timekept clock d' kcp :=
  { kept with stamps := fun stamp member => Nat.le_trans (kept.stamps stamp member) later }

/-- The times of a control block set to `now`. -/
theorem Timekept.retimed {now : Nat} (kept : Timekept clock clock' kcp) (later : clock ≤ now)
    (tsFlush updated : UInt32) :
    Timekept now clock'
      { kcp with current := UInt32.ofNat now, tsFlush := tsFlush, updated := updated } where
  interval := kept.interval
  minrto := kept.minrto
  current := rfl
  stamps := kept.stamps
  within := fun small => (kept.within (by omega)).mono (Int.ofNat_le.mpr later)

theorem Counts.append {kcp'' : Ikcpcb} {xs ys : List Int} (first : Counts clock clock' xs kcp kcp')
    (second : Counts clock clock' ys kcp' kcp'') : Counts clock clock' (xs ++ ys) kcp kcp'' where
  measures := fun small => (first.measures small).append (second.measures small)
  kept := second.kept

/-- The distance of two stamps is the distance of the times. -/
theorem itimediff_clock {ts : UInt32} (small : clock < 2 ^ 28) (early : ts.toNat ≤ clock) :
    itimediff (UInt32.ofNat clock) ts = clock - ts.toNat := by
  have near : Serial.Near clock ts.toNat := Serial.near_of_lt (by omega) (by omega)
  have distance := Serial.distance_ofNat near
  rwa [UInt32.ofNat_toNat] at distance

theorem Timekept.sample (kept : Timekept clock clock' kcp) (small : clock < 2 ^ 28)
    {seg : IkcpSeg} (timed : Timed conv clock' clock seg) :
    Measures (trips clock [seg]) kcp (sampled kcp seg) := by
  unfold sampled
  by_cases ack : seg.cmd = ikcpCmdAck
  · have early := timed.ack ack
    have trip : itimediff kcp.current seg.ts = clock - seg.ts.toNat := by
      rw [kept.current]
      exact itimediff_clock small early
    have count : (Int32.ofInt (itimediff kcp.current seg.ts)).toInt = clock - seg.ts.toNat := by
      rw [trip, Int32.toInt_ofInt]
      exact toInt_of_small (by omega) (by omega)
    obtain ⟨estimate, rto⟩ := ikcpUpdateAck_estimate kept.interval kept.minrto (kept.within small)
      (by omega) (by rw [count]; omega) (by rw [count]; omega)
    have one : trips clock [seg] = [(clock : Int) - seg.ts.toNat] := by simp [trips, ack]
    rw [count] at estimate rto
    rw [if_pos ⟨ack, by omega⟩, one]
    exact ⟨estimate, by rw [rto, estimate]; rfl⟩
  · have none : trips clock [seg] = [] := by simp [trips, ack]
    rw [if_neg fun both => ack both.1, none]
    exact .of_clockwork rfl

theorem Timekept.segment (kept : Timekept clock clock' kcp) {seg : IkcpSeg}
    (timed : Timed conv clock' clock seg) :
    Counts clock clock' (trips clock [seg]) kcp (inputKcp kcp seg) := by
  have same := inputKcp_clockwork kcp seg
  have params := inputKcp_params kcp seg
  have measures : clock < 2 ^ 28 → Measures (trips clock [seg]) kcp (inputKcp kcp seg) := by
    intro small
    have counted := (kept.sample small timed).append (.of_clockwork same)
    rwa [List.append_nil] at counted
  have single : ∀ other ∈ [seg], Timed conv clock' clock other := by
    intro other member
    rwa [List.mem_singleton.mp member]
  refine ⟨measures, params ▸ kept.interval, params ▸ kept.minrto, ?_, ?_, ?_⟩
  · have current : (sampled kcp seg).current = kcp.current := by
      unfold sampled
      split <;> rfl
    exact (congrArg Clockwork.current same).trans (current.trans kept.current)
  · intro stamp member
    rcases inputKcp_acklist kcp seg stamp member with old | ⟨push, rfl⟩
    · exact kept.stamps stamp old
    · exact timed.push push
  · exact fun small => (measures small).within (trips_small single) (kept.within small)

theorem Timekept.segments {segs : List IkcpSeg} (timed : ∀ seg ∈ segs, Timed conv clock' clock seg)
    (kept : Timekept clock clock' kcp) :
    Counts clock clock' (trips clock segs) kcp (segs.foldl inputKcp kcp) := by
  induction segs generalizing kcp with
  | nil => exact kept.counts rfl rfl fun _ => id
  | cons seg rest ih =>
      have first := kept.segment (timed seg (List.mem_cons_self ..))
      have others := ih (fun other member => timed other (List.mem_cons_of_mem seg member)) first.kept
      have both := first.append others
      rwa [← trips_append] at both

/-- One datagram of the other party. -/
theorem Timekept.datagram (kept : Timekept clock clock' kcp) {group : List IkcpSeg}
    (timed : ∀ seg ∈ group, Timed kcp.conv clock' clock seg) :
    Counts clock clock' (trips clock group) kcp
      (ikcpInput kcp (encodeSegs group) (encodeSegs group).length).2 := by
  have readable : ∀ seg ∈ group, Decodable kcp.conv seg := fun seg member =>
    (timed seg member).decodable
  have wired : ∀ seg ∈ group.map onWire, Timed kcp.conv clock' clock seg := by
    intro seg member
    obtain ⟨said, isSaid, rfl⟩ := List.mem_map.mp member
    exact (timed said isSaid).wire
  have applied := kept.segments wired
  have clockwork := ikcpInput_foldl Ikcpcb.clockwork (fun _ _ => by
    unfold ikcpParseFastack
    split <;> rfl) (fun _ _ => rfl) readable
  have acklist := ikcpInput_foldl Ikcpcb.acklist (fun _ _ => by
    unfold ikcpParseFastack
    split <;> rfl) (fun _ _ => rfl) readable
  have params := ikcpInput_foldl Ikcpcb.params (fun _ _ => by
    unfold ikcpParseFastack
    split <;> rfl) (fun _ _ => rfl) readable
  have all := applied.append (applied.kept.counts params clockwork fun stamp member => by
    rwa [acklist] at member)
  rwa [List.append_nil, trips_onWire readable] at all

end Timekept

/-! ## The stamps of a flush -/

theorem Outgoing.buf_cmd {conv : UInt32} {kcp : Ikcpcb} (outgoing : Outgoing conv kcp) :
    ∀ seg ∈ kcp.sndBuf, seg.cmd = ikcpCmdPush := by
  obtain ⟨out, live, sending, _⟩ := outgoing.numbering
  intro seg member
  have core := List.mem_map_of_mem (f := IkcpSeg.core) member
  rw [sending.buf] at core
  obtain ⟨i, _, same⟩ := List.mem_map.mp core
  exact (congrArg SegCore.cmd same).symm

theorem flushSegment_ts {kcp : Ikcpcb} {seg : IkcpSeg} (sent : transmit kcp seg ≠ .skip)
    (wnd : UInt32) : (flushSegment kcp wnd seg).ts = kcp.current := by
  unfold flushSegment
  cases decided : transmit kcp seg with
  | skip => exact absurd decided sent
  | first => rfl
  | timeout => rfl
  | fast => rfl

/-- Pushes leave with the time of the flush, acks with a stamp of the ack list. -/
theorem flushSegs_times {conv : UInt32} {kcp : Ikcpcb} (outgoing : Outgoing conv kcp)
    {seg : IkcpSeg} (member : seg ∈ flushSegs kcp) :
    (seg.cmd = ikcpCmdPush → seg.ts = kcp.current) ∧
      (seg.cmd = ikcpCmdAck → ∃ stamp ∈ kcp.acklist, seg.ts = stamp.2) := by
  rw [flushSegs, List.mem_append, List.mem_append] at member
  rcases member with (isAck | isProbe) | isData
  · obtain ⟨stamp, owed, rfl⟩ := List.mem_map.mp isAck
    have apart : ikcpCmdAck ≠ ikcpCmdPush := by decide
    exact ⟨fun push => absurd push apart, fun _ => ⟨stamp, owed, rfl⟩⟩
  · have asks : seg.cmd = ikcpCmdWask ∨ seg.cmd = ikcpCmdWins := by
      rw [probeSegs, List.mem_append, List.mem_ite_nil_right, List.mem_ite_nil_right,
        List.mem_singleton, List.mem_singleton] at isProbe
      exact isProbe.imp (fun ask => congrArg IkcpSeg.cmd ask.2) fun tell => congrArg IkcpSeg.cmd tell.2
    constructor
    · intro push
      rw [push] at asks
      exact absurd asks (by decide)
    · intro ack
      rw [ack] at asks
      exact absurd asks (by decide)
  · obtain ⟨sent, isSent, rfl⟩ := List.mem_map.mp isData
    obtain ⟨buffered, transmitted⟩ := List.mem_filter.mp isSent
    have core := flushSegment_core (flushMoved kcp) (ikcpWndUnused kcp) sent
    have push : (flushSegment (flushMoved kcp) (ikcpWndUnused kcp) sent).cmd = ikcpCmdPush :=
      (congrArg SegCore.cmd core).trans ((flushMoved_outgoing outgoing).buf_cmd sent buffered)
    have time := flushSegment_ts (of_decide_eq_true transmitted) (ikcpWndUnused kcp)
    refine ⟨fun _ => time.trans (flushMoved_current kcp), fun ack => ?_⟩
    rw [push] at ack
    exact absurd ack (by decide)

end AsioKcp.Ikcp
