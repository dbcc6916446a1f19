import AsioKcp.Ikcp.Packing

/-! # When KCP is due

`ikcp_check` names the next of the deadlines that an update leaves behind: the
next flush and the resend time of each segment in `snd_buf`, but no later than
one interval from now. -/
set_option autoImplicit false

namespace AsioKcp.Ikcp

open AsioKcp.Serial

/-- The milliseconds until the first of some deadlines, at most `interval`; a
deadline in the past is due at once. -/
def dueWithin (interval : Nat) (deadlines : List UInt32) (now : UInt32) : Nat :=
  (deadlines.map fun t => (itimediff t now).toNat).foldr min interval

def deadlines (kcp : Ikcpcb) : List UInt32 := kcp.tsFlush :: kcp.sndBuf.map IkcpSeg.resendts

/-- The deadlines that an update at `now` will leave. -/
def deadlinesAfter (kcp : Ikcpcb) (now : UInt32) : List UInt32 :=
  match updateReady kcp now with
  | none => deadlines kcp
  | some ready =>
      let moved := flushMoved ready
      ready.tsFlush :: moved.sndBuf.map fun seg =>
        (flushSegment moved (ikcpWndUnused ready) seg).resendts

/-- The milliseconds from an update at `now` until KCP is due again. -/
def dueIn (kcp : Ikcpcb) (now : UInt32) : Nat :=
  dueWithin kcp.interval.toNat (deadlinesAfter kcp now) now

theorem foldr_min_le (interval : Nat) (waits : List Nat) : waits.foldr min interval ≤ interval := by
  induction waits with
  | nil => exact Nat.le_refl _
  | cons wait rest ih => exact Nat.le_trans (Nat.min_le_right _ _) ih

theorem dueIn_le (kcp : Ikcpcb) (now : UInt32) : dueIn kcp now ≤ kcp.interval.toNat :=
  foldr_min_le _ _

theorem foldr_min_cap {interval large : Nat} (below : interval ≤ large) (waits : List Nat) :
    waits.foldr min interval = min interval (waits.foldr min large) := by
  induction waits with
  | nil => exact (Nat.min_eq_left below).symm
  | cons wait rest ih =>
      rw [List.foldr_cons, List.foldr_cons, ih]
      omega

/-! ## The loop of `ikcp_check` -/

theorem checkPacket_due {now : UInt32} {segs : List IkcpSeg} {tmPacket : Int}
    (due : checkPacket now segs tmPacket = none) (bound : Nat) :
    dueWithin bound (segs.map IkcpSeg.resendts) now = 0 := by
  induction segs generalizing tmPacket with
  | nil => cases due
  | cons seg rest ih =>
      simp only [checkPacket] at due
      simp only [dueWithin, List.map_cons, List.foldr_cons] at ih ⊢
      split at due
      · rename_i past
        rw [Int.toNat_of_nonpos past, Nat.zero_min]
      · rw [ih due, Nat.min_zero]

theorem checkPacket_waits {now : UInt32} {segs : List IkcpSeg} {tmPacket wait : Int}
    (positive : 0 < tmPacket) (waits : checkPacket now segs tmPacket = some wait) :
    0 < wait ∧ wait.toNat = dueWithin tmPacket.toNat (segs.map IkcpSeg.resendts) now := by
  induction segs generalizing tmPacket with
  | nil =>
      cases waits
      exact ⟨positive, rfl⟩
  | cons seg rest ih =>
      simp only [checkPacket] at waits
      simp only [dueWithin, List.map_cons, List.foldr_cons] at ih ⊢
      split at waits
      · cases waits
      · rename_i later
        split at waits
        · rename_i sooner
          obtain ⟨some, same⟩ := ih (by omega) waits
          have below : (itimediff seg.resendts now).toNat ≤ tmPacket.toNat := by omega
          exact ⟨some, same.trans (foldr_min_cap below _)⟩
        · obtain ⟨some, same⟩ := ih positive waits
          have capped := foldr_min_le tmPacket.toNat
            ((rest.map IkcpSeg.resendts).map fun t => (itimediff t now).toNat)
          exact ⟨some, by omega⟩

/-- With a flush ahead, `ikcp_check` adds the time until the next deadline. -/
theorem ikcpCheck_ahead {kcp : Ikcpcb} {now : UInt32} (updated : kcp.updated ≠ 0)
    (ahead : 0 < itimediff kcp.tsFlush now) (close : itimediff kcp.tsFlush now ≤ 10000)
    (short : kcp.interval.toNat ≤ 10000) :
    ikcpCheck kcp now =
      now + UInt32.ofNat (dueWithin kcp.interval.toNat (deadlines kcp) now) := by
  have late : itimediff now kcp.tsFlush = -itimediff kcp.tsFlush now := by
    apply distance_swap
    rw [itimediff] at ahead
    omega
  have ontime : ¬ (itimediff now kcp.tsFlush ≥ 10000 ∨ itimediff now kcp.tsFlush < -10000) := by
    omega
  have before : ¬ itimediff now kcp.tsFlush ≥ 0 := by omega
  have split : dueWithin kcp.interval.toNat (deadlines kcp) now =
      min (itimediff kcp.tsFlush now).toNat
        (dueWithin kcp.interval.toNat (kcp.sndBuf.map IkcpSeg.resendts) now) := rfl
  unfold ikcpCheck
  simp only [if_neg updated, if_neg ontime, if_neg before]
  rw [split]
  cases walked : checkPacket now kcp.sndBuf 0x7fffffff with
  | none =>
      rw [checkPacket_due walked, Nat.min_zero]
      exact (UInt32.add_zero now).symm
  | some wait =>
      obtain ⟨positive, same⟩ := checkPacket_waits (by omega) walked
      have cap : dueWithin kcp.interval.toNat (kcp.sndBuf.map IkcpSeg.resendts) now =
          min kcp.interval.toNat wait.toNat := by
        rw [same]
        exact foldr_min_cap (by omega) _
      have least : ∃ least : Nat, least = min wait.toNat (itimediff kcp.tsFlush now).toNat ∧
          (if wait < itimediff kcp.tsFlush now then wait else itimediff kcp.tsFlush now) = least := by
        refine ⟨_, rfl, ?_⟩
        split <;> omega
      obtain ⟨least, value, isLeast⟩ := least
      have small : (UInt32.ofNat least).toNat = least := by
        rw [UInt32.toNat_ofNat', Nat.mod_eq_of_lt (by omega)]
      have cast : UInt32.ofInt (least : Int) = UInt32.ofNat least := by
        apply UInt32.toNat_inj.mp
        rw [ofInt_toNat, small]
        omega
      dsimp only
      rw [isLeast, cast]
      generalize dueWithin kcp.interval.toNat (kcp.sndBuf.map IkcpSeg.resendts) now = resend at cap
      congr 1
      apply UInt32.toNat_inj.mp
      split
      · rename_i reached
        have reached := UInt32.le_iff_toNat_le.mp reached
        rw [UInt32.toNat_ofNat', Nat.mod_eq_of_lt (by omega)]
        omega
      · rename_i before
        have early : ¬ kcp.interval.toNat ≤ (UInt32.ofNat least).toNat :=
          fun reached => before (UInt32.le_iff_toNat_le.mpr reached)
        rw [small] at early ⊢
        rw [UInt32.toNat_ofNat', Nat.mod_eq_of_lt (by omega)]
        omega

/-! ## What an update leaves -/

theorem ikcpUpdate_eq (kcp : Ikcpcb) (now : UInt32) :
    ikcpUpdate kcp now =
      match updateReady kcp now with
      | some ready => ikcpFlush ready
      | none => ({ kcp with current := now }, []) := by
  have fresh : itimediff now now = 0 := distance_self now
  unfold ikcpUpdate updateReady
  by_cases updated : kcp.updated = 0
  · simp only [if_pos updated, fresh]
    rfl
  · simp only [if_neg updated]
    split_ifs with flushes reset before idle
    · rfl
    · rfl
    · rfl
    · rfl
    · exact absurd (Or.inl (by assumption)) flushes
    · rfl

/-- A control block that is ready for its flush at `now`. -/
structure Readied (kcp : Ikcpcb) (now : UInt32) (ready : Ikcpcb) : Prop where
  current : ready.current = now
  updated : ready.updated ≠ 0
  sndBuf : ready.sndBuf = kcp.sndBuf
  acklist : ready.acklist = kcp.acklist
  params : ready.params = kcp.params
  ahead : 0 < itimediff ready.tsFlush now
  close : itimediff ready.tsFlush now ≤ kcp.interval.toNat

theorem updateReady_readied {kcp ready : Ikcpcb} {now : UInt32}
    (isReady : updateReady kcp now = some ready) (some : 0 < kcp.interval.toNat)
    (short : kcp.interval.toNat ≤ 10000) : Readied kcp now ready := by
  have step : ∀ t : UInt32, 0 ≤ itimediff now t → itimediff now t < 10000 →
      itimediff (t + kcp.interval) now = kcp.interval.toNat - itimediff now t := by
    intro t past near
    have back : itimediff t now = -itimediff now t := distance_swap (by rw [itimediff] at past; omega)
    rw [itimediff, distance_add (by rw [itimediff] at back; omega), ← itimediff, back]
    omega
  have here : itimediff now now = 0 := distance_self now
  have fromNow : itimediff (now + kcp.interval) now = kcp.interval.toNat := by
    rw [step now (by omega) (by omega), here, Int.sub_zero]
  have next : ∀ t : UInt32, 0 ≤ itimediff now t → itimediff now t < 10000 →
      0 < itimediff (if itimediff now (t + kcp.interval) ≥ 0 then now + kcp.interval
          else t + kcp.interval) now ∧
        itimediff (if itimediff now (t + kcp.interval) ≥ 0 then now + kcp.interval
          else t + kcp.interval) now ≤ kcp.interval.toNat := by
    intro t past near
    have ahead := step t past near
    have swapped : itimediff now (t + kcp.interval) = -itimediff (t + kcp.interval) now :=
      distance_swap (by rw [itimediff] at ahead; omega)
    split <;> omega
  have times : ∀ t : UInt32, 0 ≤ itimediff now t → itimediff now t < 10000 →
      ready = { kcp with
        current := now
        updated := if kcp.updated = 0 then 1 else kcp.updated
        tsFlush := if itimediff now (t + kcp.interval) ≥ 0 then now + kcp.interval
          else t + kcp.interval } → Readied kcp now ready := by
    rintro t past near rfl
    refine ⟨rfl, ?_, rfl, rfl, rfl, (next t past near).1, (next t past near).2⟩
    dsimp only
    split
    · simp
    · assumption
  unfold updateReady at isReady
  dsimp only at isReady
  generalize (if kcp.updated = 0 then now else kcp.tsFlush) = t at isReady
  split at isReady
  · rename_i flushes
    have same := (Option.some.inj isReady).symm
    by_cases reset : itimediff now t ≥ 10000 ∨ itimediff now t < -10000
    · simp only [if_pos reset] at same
      exact times now (by omega) (by omega) same
    · simp only [if_neg reset] at same
      exact times t (by omega) (by omega) same
  · cases isReady

theorem updateReady_none {kcp : Ikcpcb} {now : UInt32} (idle : updateReady kcp now = none) :
    kcp.updated ≠ 0 ∧ 0 < itimediff kcp.tsFlush now ∧ itimediff kcp.tsFlush now ≤ 10000 := by
  have here : itimediff now now = 0 := distance_self now
  unfold updateReady at idle
  by_cases fresh : kcp.updated = 0
  · simp [fresh, here] at idle
  · simp only [if_neg fresh] at idle
    by_cases flushes : (itimediff now kcp.tsFlush ≥ 10000 ∨ itimediff now kcp.tsFlush < -10000) ∨
        itimediff now kcp.tsFlush ≥ 0
    · rw [if_pos flushes] at idle
      cases idle
    · have waits := flushes
      have back : itimediff kcp.tsFlush now = -itimediff now kcp.tsFlush := by
        apply distance_swap
        rw [itimediff] at waits
        omega
      exact ⟨fresh, by omega, by omega⟩

theorem updateReady_updated {kcp ready : Ikcpcb} {now : UInt32}
    (isReady : updateReady kcp now = some ready) : ready.updated ≠ 0 := by
  unfold updateReady at isReady
  dsimp only at isReady
  generalize (if kcp.updated = 0 then now else kcp.tsFlush) = t at isReady
  split at isReady
  · rw [← Option.some.inj isReady]
    dsimp only
    split
    · simp
    · assumption
  · cases isReady

theorem ikcpFlush_times (kcp : Ikcpcb) :
    (ikcpFlush kcp).1.tsFlush = kcp.tsFlush ∧ (ikcpFlush kcp).1.updated = kcp.updated := by
  unfold ikcpFlush
  split
  · exact ⟨rfl, rfl⟩
  · exact ⟨flushMoved_keeps Ikcpcb.tsFlush (fun _ => rfl) kcp,
      flushMoved_keeps Ikcpcb.updated (fun _ => rfl) kcp⟩

theorem ikcpFlush_deadlines {kcp : Ikcpcb} (updated : kcp.updated ≠ 0) :
    deadlines (ikcpFlush kcp).1 = kcp.tsFlush :: (flushMoved kcp).sndBuf.map fun seg =>
      (flushSegment (flushMoved kcp) (ikcpWndUnused kcp) seg).resendts := by
  have kept : (flushMoved kcp).tsFlush = kcp.tsFlush :=
    flushMoved_keeps Ikcpcb.tsFlush (fun _ => rfl) kcp
  unfold ikcpFlush
  rw [if_neg updated]
  dsimp only [deadlines, flushSsthresh]
  rw [kept, List.map_map]
  rfl

/-- The deadlines that stand after an update were known before it. -/
theorem ikcpUpdate_deadlines (kcp : Ikcpcb) (now : UInt32) :
    deadlines (ikcpUpdate kcp now).1 = deadlinesAfter kcp now := by
  rw [ikcpUpdate_eq, deadlinesAfter]
  cases isReady : updateReady kcp now with
  | none => rfl
  | some ready => exact ikcpFlush_deadlines (updateReady_updated isReady)

/-- `ikcp_check` right after an update at the same time. -/
theorem ikcpCheck_updated (kcp : Ikcpcb) (now : UInt32) (some : 0 < kcp.interval.toNat)
    (short : kcp.interval.toNat ≤ 10000) :
    ikcpCheck (ikcpUpdate kcp now).1 now = now + UInt32.ofNat (dueIn kcp now) := by
  have interval : (ikcpUpdate kcp now).1.interval = kcp.interval :=
    congrArg Params.interval (ikcpUpdate_params kcp now)
  have times : (ikcpUpdate kcp now).1.updated ≠ 0 ∧
      0 < itimediff (ikcpUpdate kcp now).1.tsFlush now ∧
      itimediff (ikcpUpdate kcp now).1.tsFlush now ≤ 10000 := by
    rw [ikcpUpdate_eq]
    cases isReady : updateReady kcp now with
    | none => exact updateReady_none isReady
    | some ready =>
        have readied := updateReady_readied isReady some short
        obtain ⟨tsFlush, updated⟩ := ikcpFlush_times ready
        dsimp only
        rw [tsFlush, updated]
        exact ⟨readied.updated, readied.ahead, by have := readied.close; omega⟩
  rw [ikcpCheck_ahead times.1 times.2.1 times.2.2 (by rw [interval]; exact short), interval,
    ikcpUpdate_deadlines, dueIn]

end AsioKcp.Ikcp
