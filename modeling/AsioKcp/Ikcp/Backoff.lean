import AsioKcp.Ikcp.Estimate
import AsioKcp.Ikcp.Offers
import AsioKcp.Lib.Backoff

/-! # How often a segment is sent

Acks that overtake a segment of `snd_buf` send it again early while it has been sent
five times or less; after that only its timeout sends it, which grows by half each
time, rounded down. -/
set_option autoImplicit false

namespace AsioKcp.Ikcp

open AsioKcp.Backoff AsioKcp.Serial

/-- A segment of `snd_buf` that has been sent; its times are counted from `base` on, by
the time `age`.  At most six of its transmissions were not due to its timeout. -/
structure Backed (base : UInt32) (age : Nat) (seg : IkcpSeg) : Prop where
  sent : 1 ≤ seg.xmit.toNat
  resendts : seg.resendts = seg.ts + seg.rto
  stamped : offset base seg.ts ≤ age
  timer : ∃ start, 10 ≤ start ∧ start ≤ 60000 ∧
    Timer start (seg.xmit.toNat - 6) (offset base seg.ts) seg.rto.toNat

section Backed
variable {base : UInt32} {age : Nat} {seg : IkcpSeg}

theorem Backed.mono {later : Nat} (backed : Backed base age seg) (more : age ≤ later) :
    Backed base later seg :=
  { backed with stamped := Nat.le_trans backed.stamped more }

theorem Backed.counted (backed : Backed base age seg) (fastack : UInt32) :
    Backed base age { seg with fastack := fastack } :=
  ⟨backed.sent, backed.resendts, backed.stamped, backed.timer⟩

theorem Backed.rto (backed : Backed base age seg) :
    10 ≤ seg.rto.toNat ∧ seg.rto.toNat ≤ 60000 + age / 2 := by
  obtain ⟨start, low, high, timer⟩ := backed.timer
  have least := timer.start_le
  have spent := timer.spent
  have stamped := backed.stamped
  omega

/-- Within three days. -/
theorem Backed.xmit_le (backed : Backed base age seg) (early : age < 2 ^ 28) :
    seg.xmit.toNat ≤ 54 := by
  obtain ⟨start, low, _, timer⟩ := backed.timer
  have stamped := backed.stamped
  have few := timer.count_lt (2 ^ 28) 49 low (by omega) (by norm_num)
  omega

/-- A segment is due once it has waited out its timeout. -/
theorem Backed.due_iff (backed : Backed base age seg) (now : UInt32)
    (later : age ≤ offset base now) (early : offset base now < 2 ^ 28) :
    itimediff now seg.resendts ≥ 0 ↔
      offset base seg.ts + seg.rto.toNat ≤ offset base now := by
  have rto := backed.rto
  have stamped := backed.stamped
  have resend : offset base seg.resendts = offset base seg.ts + seg.rto.toNat := by
    have word := seg.ts.toNat_lt
    rw [offset_eq] at stamped ⊢
    rw [backed.resendts, UInt32.toNat_add, offset_eq]
    omega
  have apart : distance now seg.resendts = (offset base now : Int) - offset base seg.resendts :=
    distance_of_offsets (by omega) (by omega)
  change distance now seg.resendts ≥ 0 ↔ _
  omega

end Backed

/-! ## One walk over `snd_buf` -/

theorem half_toNat {rto : UInt32} (small : rto.toNat < 2 ^ 30) :
    (rto + (rto.toInt32 / 2).toUInt32).toNat = longer rto.toNat := by
  have whole := toInt32_of_small (u := rto) (by omega)
  have half := toInt_div_small (x := rto.toInt32) (y := 2) (by omega)
    (show 0 < (2 : Int32).toInt by decide)
  have two : (2 : Int32).toInt = 2 := by decide
  have nonneg : 0 ≤ (rto.toInt32 / 2).toInt := by
    rw [half, two, whole]
    omega
  have same := toUInt32_of_nonneg nonneg
  rw [half, two, whole] at same
  rw [UInt32.toNat_add, longer]
  omega

theorem transmit_first {kcp : Ikcpcb} {seg : IkcpSeg} (decided : transmit kcp seg = .first) :
    seg.xmit = 0 := by
  by_contra old
  unfold transmit at decided
  rw [if_neg old] at decided
  split_ifs at decided

theorem transmit_timeout {kcp : Ikcpcb} {seg : IkcpSeg} (decided : transmit kcp seg = .timeout) :
    itimediff kcp.current seg.resendts ≥ 0 := by
  unfold transmit at decided
  split_ifs at decided with fresh due
  exact due

theorem transmit_fast {kcp : Ikcpcb} (fast : Fast kcp.params) {seg : IkcpSeg}
    (decided : transmit kcp seg = .fast) : seg.xmit.toInt32.toInt ≤ 5 := by
  have limit : kcp.fastlimit = 5 := fast.fastlimit
  unfold transmit at decided
  rw [limit] at decided
  split_ifs at decided with fresh due acked few
  omega

/-- The configuration with the bounds of `rx_rto`. -/
structure Retrying (kcp : Ikcpcb) : Prop where
  fast : Fast kcp.params
  minrto : kcp.params.rxMinrto = 10
  low : 10 ≤ kcp.rxRto.toUInt32.toNat
  high : kcp.rxRto.toUInt32.toNat ≤ 60000

section Walk
variable {base : UInt32} {kcp : Ikcpcb} {seg : IkcpSeg}

theorem flushSegment_backed (retrying : Retrying kcp) (early : offset base kcp.current < 2 ^ 28)
    (wnd : UInt32) (before : seg.xmit = 0 ∨ Backed base (offset base kcp.current) seg) :
    Backed base (offset base kcp.current) (flushSegment kcp wnd seg) := by
  have nodelay : kcp.nodelay = 1 := retrying.fast.nodelay
  have sent : seg.xmit ≠ 0 → Backed base (offset base kcp.current) seg := before.resolve_left
  have one : (1 : UInt32).toNat = 1 := rfl
  unfold flushSegment
  cases decided : transmit kcp seg with
  | skip =>
      apply sent
      intro fresh
      rw [transmit, if_pos fresh] at decided
      cases decided
  | first =>
      have quick : rtomin kcp = 0 := by
        rw [rtomin, nodelay]
        rfl
      have count : (seg.xmit + 1).toNat = 1 := by
        rw [transmit_first decided]
        rfl
      refine ⟨Nat.le_of_eq count.symm, ?_, Nat.le_refl _, kcp.rxRto.toUInt32.toNat,
        retrying.low, retrying.high, ?_⟩
      · dsimp only
        rw [quick, UInt32.add_zero]
      · dsimp only
        rw [count]
        exact Timer.first _ _
  | timeout =>
      have old : seg.xmit ≠ 0 := by
        intro fresh
        rw [transmit, if_pos fresh] at decided
        cases decided
      have backed := sent old
      have waited := (backed.due_iff _ (Nat.le_refl _) early).mp (transmit_timeout decided)
      have few := backed.xmit_le early
      obtain ⟨low, high⟩ := backed.rto
      obtain ⟨start, least, most, timer⟩ := backed.timer
      have count : (seg.xmit + 1).toNat = seg.xmit.toNat + 1 := by
        rw [UInt32.toNat_add, one]
        omega
      have step : (if kcp.nodelay = 0 then seg.rto + imax seg.rto kcp.rxRto.toUInt32
          else seg.rto + ((if kcp.nodelay < 2 then seg.rto.toInt32 else kcp.rxRto) / 2).toUInt32) =
          seg.rto + (seg.rto.toInt32 / 2).toUInt32 := by
        rw [nodelay]
        rfl
      dsimp only
      rw [step]
      refine ⟨?_, rfl, Nat.le_refl _, start, least, most, ?_⟩
      · dsimp only
        omega
      · dsimp only
        rw [count, half_toNat (by omega)]
        exact (timer.expire (by omega) waited).fewer (by omega)
  | fast =>
      have old : seg.xmit ≠ 0 := by
        intro fresh
        rw [transmit, if_pos fresh] at decided
        cases decided
      have backed := sent old
      have few := backed.xmit_le early
      have five : seg.xmit.toNat ≤ 5 := by
        have limit := transmit_fast retrying.fast decided
        rw [toInt32_of_small (by omega)] at limit
        omega
      obtain ⟨start, least, most, timer⟩ := backed.timer
      have count : (seg.xmit + 1).toNat = seg.xmit.toNat + 1 := by
        rw [UInt32.toNat_add, one]
        omega
      refine ⟨?_, rfl, Nat.le_refl _, start, least, most, ?_⟩
      · dsimp only
        omega
      · dsimp only
        rw [count]
        exact (timer.again backed.stamped).fewer (by omega)

end Walk

/-! ## The operations of a control block -/

/-- The time since `base`; the control block has none before its first update. -/
def Ikcpcb.age (base : UInt32) (kcp : Ikcpcb) : Nat :=
  if kcp.updated = 0 then 0 else offset base kcp.current

/-- Every segment of `snd_buf` has been sent, with the pauses of its timer. -/
structure Retried (base : UInt32) (kcp : Ikcpcb) : Prop where
  retrying : Retrying kcp
  early : kcp.age base < 2 ^ 28
  fresh : kcp.updated = 0 → kcp.sndBuf = []
  backed : ∀ seg ∈ kcp.sndBuf, Backed base (kcp.age base) seg

section Retried
variable {base : UInt32} {kcp kcp' : Ikcpcb}

theorem Retrying.congr (retrying : Retrying kcp) (params : kcp'.params = kcp.params)
    (rto : kcp'.rxRto = kcp.rxRto) : Retrying kcp' where
  fast := params ▸ retrying.fast
  minrto := params ▸ retrying.minrto
  low := rto ▸ retrying.low
  high := rto ▸ retrying.high

theorem age_congr (current : kcp'.current = kcp.current) (updated : kcp'.updated = kcp.updated) :
    kcp'.age base = kcp.age base := by
  rw [Ikcpcb.age, Ikcpcb.age, current, updated]

theorem Retried.congr (retried : Retried base kcp) (params : kcp'.params = kcp.params)
    (clockwork : kcp'.clockwork = kcp.clockwork) (buf : kcp'.sndBuf = kcp.sndBuf)
    (updated : kcp'.updated = kcp.updated) : Retried base kcp' := by
  have age : kcp'.age base = kcp.age base :=
    age_congr (congrArg Clockwork.current clockwork) updated
  refine ⟨retried.retrying.congr params (congrArg Clockwork.rto clockwork), ?_, ?_, ?_⟩
  · rw [age]
    exact retried.early
  · rw [updated, buf]
    exact retried.fresh
  · rw [age, buf]
    exact retried.backed

theorem ikcpUpdateAck_retrying (rtt : Int32) (retrying : Retrying kcp) :
    Retrying (ikcpUpdateAck kcp rtt) := by
  have minrto : kcp.rxMinrto = 10 := retrying.minrto
  have ten : (Int32.toUInt32 10).toNat = 10 := by decide
  have most : ikcpRtoMax.toNat = 60000 := rfl
  have bounds := ibound_toNat kcp.rxMinrto.toUInt32
    ((smoothedRtt kcp rtt).1.toUInt32 + imax kcp.interval (4 * (smoothedRtt kcp rtt).2).toUInt32)
    ikcpRtoMax (by rw [minrto, ten, most]; decide)
  rw [minrto, ten, most] at bounds
  refine ⟨retrying.fast, retrying.minrto, ?_, ?_⟩
  · change 10 ≤ (ibound kcp.rxMinrto.toUInt32 _ _).toInt32.toUInt32.toNat
    rw [UInt32.toUInt32_toInt32, minrto]
    exact bounds.1
  · change (ibound kcp.rxMinrto.toUInt32 _ _).toInt32.toUInt32.toNat ≤ 60000
    rw [UInt32.toUInt32_toInt32, minrto]
    exact bounds.2

theorem inputKcp_retrying (seg : IkcpSeg) (retrying : Retrying kcp) :
    Retrying (inputKcp kcp seg) := by
  have rto : (inputKcp kcp seg).rxRto = (sampled kcp seg).rxRto :=
    congrArg Clockwork.rto (inputKcp_clockwork kcp seg)
  have counted : Retrying (sampled kcp seg) := by
    unfold sampled
    split
    · exact ikcpUpdateAck_retrying _ retrying
    · exact retrying
  have params : (sampled kcp seg).params = kcp.params := by
    unfold sampled
    split <;> rfl
  exact counted.congr ((inputKcp_params kcp seg).trans params.symm) rto

/-- `ikcp_input` takes segments out of `snd_buf` and counts `fastack`. -/
theorem inputKcp_sndBuf {P : IkcpSeg → Prop} (seg : IkcpSeg)
    (all : ∀ sent ∈ kcp.sndBuf, P sent) :
    ∀ sent ∈ (inputKcp kcp seg).sndBuf, P sent := by
  have shrunk : ∀ k : Ikcpcb, (ikcpShrinkBuf k).sndBuf = k.sndBuf := by
    intro k
    unfold ikcpShrinkBuf
    split <;> rfl
  have header : ∀ sent ∈ (inputHeader kcp seg).sndBuf, P sent := by
    intro sent member
    rw [inputHeader, shrunk] at member
    exact all sent ((List.dropWhile_suffix _).subset member)
  have acked : ∀ k : Ikcpcb, (∀ sent ∈ k.sndBuf, P sent) →
      ∀ sent ∈ (ikcpParseAck k seg.sn).sndBuf, P sent := by
    intro k before sent member
    unfold ikcpParseAck at member
    split at member
    · exact before sent member
    · exact before sent ((removeAcked_sublist _ _).subset member)
  unfold inputKcp
  dsimp only
  split_ifs
  · unfold inputAck
    rw [shrunk]
    apply acked
    split <;> exact header
  · rw [inputPush_keeps Ikcpcb.sndBuf (fun _ => rfl) fun _ _ _ => rfl]
    exact header
  · exact header
  · exact header

theorem countFastack_all {P : IkcpSeg → Prop}
    (counted : ∀ seg, P seg → ∀ fastack, P { seg with fastack := fastack }) (sn : UInt32)
    {segs : List IkcpSeg} (all : ∀ seg ∈ segs, P seg) :
    ∀ seg ∈ countFastack sn segs, P seg := by
  induction segs with
  | nil => exact all
  | cons seg rest ih =>
      obtain ⟨first, others⟩ := List.forall_mem_cons.mp all
      simp only [countFastack]
      split_ifs
      · exact all
      · exact List.forall_mem_cons.mpr ⟨counted seg first _, ih others⟩
      · exact List.forall_mem_cons.mpr ⟨first, ih others⟩

theorem inputKcp_current (kcp : Ikcpcb) (seg : IkcpSeg) :
    (inputKcp kcp seg).current = kcp.current := by
  have sampling : (sampled kcp seg).current = kcp.current := by
    unfold sampled
    split <;> rfl
  exact (congrArg Clockwork.current (inputKcp_clockwork kcp seg)).trans sampling

theorem inputKcp_updated (kcp : Ikcpcb) (seg : IkcpSeg) :
    (inputKcp kcp seg).updated = kcp.updated := by
  have shrunk : ∀ k : Ikcpcb, (ikcpShrinkBuf k).updated = k.updated := by
    intro k
    unfold ikcpShrinkBuf
    split <;> rfl
  have acked : ∀ k : Ikcpcb, (ikcpParseAck k seg.sn).updated = k.updated := by
    intro k
    unfold ikcpParseAck
    split <;> rfl
  have header : (inputHeader kcp seg).updated = kcp.updated := shrunk _
  unfold inputKcp
  dsimp only
  split_ifs
  · unfold inputAck
    rw [shrunk, acked]
    split <;> exact header
  · rw [inputPush_keeps Ikcpcb.updated (fun _ => rfl) fun _ _ _ => rfl]
    exact header
  · exact header
  · exact header

theorem Retried.input (retried : Retried base kcp) (data : List UInt8) (size : Nat) :
    Retried base (ikcpInput kcp data size).2 := by
  apply ikcpInput_keeps _ _ _ data size retried
  · intro k seg holds
    have age : (inputKcp k seg).age base = k.age base :=
      age_congr (inputKcp_current k seg) (inputKcp_updated k seg)
    refine ⟨inputKcp_retrying seg holds.retrying, ?_, fun none => ?_, ?_⟩
    · rw [age]
      exact holds.early
    · rw [inputKcp_updated] at none
      apply List.eq_nil_iff_forall_not_mem.mpr
      apply inputKcp_sndBuf (P := fun _ => False) seg
      rw [holds.fresh none]
      exact fun _ => List.not_mem_nil
    · rw [age]
      exact inputKcp_sndBuf seg holds.backed
  · intro k sn holds
    unfold ikcpParseFastack
    split
    · exact holds
    · refine ⟨holds.retrying.congr rfl rfl, holds.early, fun none => ?_, ?_⟩
      · dsimp only
        rw [holds.fresh none]
        rfl
      · exact countFastack_all (fun _ backed fastack => backed.counted fastack) sn holds.backed
  · exact fun _ _ holds => holds.congr rfl rfl rfl rfl

theorem ikcpSend_updated (kcp : Ikcpcb) (buffer : List UInt8) (len : Int) :
    (ikcpSend kcp buffer len).2.updated = kcp.updated := by
  have extended : (sendExtend kcp (buffer.take len.toNat)).1.updated = kcp.updated := by
    unfold sendExtend
    split
    · rfl
    · split <;> rfl
  unfold ikcpSend
  dsimp only
  split_ifs <;> first | rfl | exact extended

theorem Retried.send (retried : Retried base kcp) (buffer : List UInt8) (len : Int) :
    Retried base (ikcpSend kcp buffer len).2 :=
  retried.congr (ikcpSend_params kcp buffer len) (ikcpSend_clockwork kcp buffer len)
    (ikcpSend_onlyQueues kcp buffer len).sndBuf (ikcpSend_updated kcp buffer len)

theorem Retried.recv (retried : Retried base kcp) (len : Int) :
    Retried base (ikcpRecv kcp len).2.2 :=
  retried.congr (ikcpRecv_params kcp len) (ikcpRecv_clockwork kcp len)
    (congrArg SndSide.sndBuf (ikcpRecv_sndSide kcp len).1)
    (congrArg SndSide.updated (ikcpRecv_sndSide kcp len).1)

theorem Retried.flush (retried : Retried base kcp) : Retried base (ikcpFlush kcp).1 := by
  by_cases fresh : kcp.updated = 0
  · rw [ikcpFlush, if_pos fresh]
    exact retried
  · have clockwork := ikcpFlush_clockwork kcp
    have updated := (ikcpFlush_times kcp).2
    have age : (ikcpFlush kcp).1.age base = kcp.age base :=
      age_congr (congrArg Clockwork.current clockwork) updated
    have here : kcp.age base = offset base (flushMoved kcp).current := by
      rw [Ikcpcb.age, if_neg fresh, flushMoved_current]
    have moving : Retrying (flushMoved kcp) := retried.retrying.congr (flushMoved_params kcp)
      (flushMoved_keeps Ikcpcb.rxRto (fun _ => rfl) kcp)
    have early := retried.early
    obtain ⟨added, moved, new⟩ := moveToSndBuf_fresh (flushCwnd kcp) (ikcpWndUnused kcp)
      kcp.sndQueue { flushProbed kcp with probe := 0 }
    have grown : (flushMoved kcp).sndBuf = kcp.sndBuf ++ added := moved
    refine ⟨retried.retrying.congr (ikcpFlush_params kcp) (congrArg Clockwork.rto clockwork),
      by rwa [age], fun none => absurd (updated.symm.trans none) fresh, fun seg member => ?_⟩
    rw [(ikcpFlush_after fresh).sndBuf] at member
    obtain ⟨before, isBefore, rfl⟩ := List.mem_map.mp member
    rw [here] at early
    rw [age, here]
    apply flushSegment_backed moving early
    rw [grown] at isBefore
    rcases List.mem_append.mp isBefore with old | isNew
    · rw [← here]
      exact Or.inr (retried.backed before old)
    · exact Or.inl (new before isNew).1

theorem Retried.update (retried : Retried base kcp) (now : UInt32)
    (forward : kcp.age base ≤ offset base now) (early : offset base now < 2 ^ 28) :
    Retried base (ikcpUpdate kcp now).1 := by
  have retimed : ∀ ready : Ikcpcb, ready.params = kcp.params → ready.rxRto = kcp.rxRto →
      ready.sndBuf = kcp.sndBuf → ready.current = now → ready.updated ≠ 0 →
      Retried base ready := by
    intro ready params rto buf current updated
    have age : ready.age base = offset base now := by
      rw [Ikcpcb.age, if_neg updated, current]
    refine ⟨retried.retrying.congr params rto, by rwa [age],
      fun none => absurd none updated, ?_⟩
    rw [age, buf]
    exact fun seg member => (retried.backed seg member).mono forward
  rw [ikcpUpdate_eq]
  cases isReady : updateReady kcp now with
  | some ready =>
      have updated := updateReady_updated isReady
      obtain ⟨tsFlush, set, shape⟩ := updateReady_retimed isReady
      apply Retried.flush
      exact retimed ready (by rw [shape]; rfl) (by rw [shape]) (by rw [shape]) (by rw [shape])
        updated
  | none => exact retimed _ rfl rfl rfl rfl (updateReady_none isReady).1

end Retried

end AsioKcp.Ikcp
