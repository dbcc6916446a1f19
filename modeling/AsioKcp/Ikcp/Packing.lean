import AsioKcp.Ikcp.Codec

/-! # What a flush puts on the wire

The datagrams of a flush are the encodings of consecutive groups of one list of
segments: the pending acks, the probes, and the segments of `snd_buf` that are
first, late or fast retransmissions. -/
set_option autoImplicit false

namespace AsioKcp.Ikcp

/-- The segments that `ikcp_flush` encodes for the ack list. -/
def ackSegs (kcp : Ikcpcb) : List IkcpSeg :=
  kcp.acklist.map fun ack => { controlSeg kcp with sn := ack.1, ts := ack.2 }

/-- The stack segment after the acks. -/
def lastControlSeg (kcp : Ikcpcb) : IkcpSeg := (ackSegs kcp).getLastD (controlSeg kcp)

def probeSegs (kcp : Ikcpcb) : List IkcpSeg :=
  (if (flushProbed kcp).probe &&& ikcpAskSend ≠ 0 then
    [{ lastControlSeg kcp with cmd := ikcpCmdWask }] else []) ++
  (if (flushProbed kcp).probe &&& ikcpAskTell ≠ 0 then
    [{ lastControlSeg kcp with cmd := ikcpCmdWins }] else [])

/-- The data segments that one walk over `snd_buf` sends. -/
def dataSegs (kcp : Ikcpcb) : List IkcpSeg :=
  ((flushMoved kcp).sndBuf.filter fun seg => transmit (flushMoved kcp) seg ≠ .skip).map
    (flushSegment (flushMoved kcp) (ikcpWndUnused kcp))

def flushSegs (kcp : Ikcpcb) : List IkcpSeg := ackSegs kcp ++ probeSegs kcp ++ dataSegs kcp

/-- The output holds the encodings of `groups`, and of `current` in its buffer. -/
structure Packs (out : Output) (groups : List (List IkcpSeg)) (current : List IkcpSeg) :
    Prop where
  datagrams : out.datagrams = groups.map encodeSegs
  buffer : out.buffer = encodeSegs current
  nonempty : ∀ group ∈ groups, group ≠ []

theorem encodeSegs_length_eq_zero {segs : List IkcpSeg} (empty : (encodeSegs segs).length = 0) :
    segs = [] := by
  cases segs with
  | nil => rfl
  | cons seg rest =>
      simp only [encodeSegs_cons, List.length_append, ikcpEncodeSeg_length, ikcpOverhead] at empty
      omega

theorem packs_output {out : Output} {groups : List (List IkcpSeg)} {current : List IkcpSeg}
    (packs : Packs out groups current) :
    ∃ groups', Packs (ikcpOutput out) groups' [] ∧
      groups'.flatten = groups.flatten ++ current := by
  unfold ikcpOutput
  split
  · rename_i empty
    rw [packs.buffer] at empty
    have none := encodeSegs_length_eq_zero empty
    subst none
    exact ⟨groups, packs, by simp⟩
  · rename_i filled
    refine ⟨groups ++ [current], ⟨?_, rfl, ?_⟩, by simp⟩
    · simp [packs.datagrams, packs.buffer]
    · intro group member
      rcases List.mem_append.mp member with member | member
      · exact packs.nonempty group member
      · rw [List.mem_singleton.mp member]
        rintro rfl
        exact filled (by rw [packs.buffer]; rfl)

theorem packs_put (mtu : UInt32) {out : Output} {groups : List (List IkcpSeg)}
    {current : List IkcpSeg} (packs : Packs out groups current) (seg : IkcpSeg) :
    ∃ groups' current', Packs (out.put mtu seg) groups' current' ∧
      groups'.flatten ++ current' = groups.flatten ++ current ++ [seg] := by
  have append : ∀ {out : Output} {groups : List (List IkcpSeg)} {current : List IkcpSeg},
      Packs out groups current →
      Packs { out with buffer := out.buffer ++ (ikcpEncodeSeg seg ++ seg.data) } groups
        (current ++ [seg]) := fun packs =>
    ⟨packs.datagrams, by simp [packs.buffer, encodeSegs], packs.nonempty⟩
  unfold Output.put
  dsimp only
  split
  · obtain ⟨groups', packs', same⟩ := packs_output packs
    exact ⟨groups', [seg], append packs', by rw [same]⟩
  · exact ⟨groups, current ++ [seg], append packs, by simp⟩

theorem packs_foldl (mtu : UInt32) (segs : List IkcpSeg) :
    ∀ {out : Output} {groups : List (List IkcpSeg)} {current : List IkcpSeg},
      Packs out groups current →
      ∃ groups' current', Packs (segs.foldl (Output.put mtu) out) groups' current' ∧
        groups'.flatten ++ current' = groups.flatten ++ current ++ segs := by
  induction segs with
  | nil => intro out groups current packs; exact ⟨groups, current, packs, by simp⟩
  | cons seg rest ih =>
      intro out groups current packs
      obtain ⟨groups₁, current₁, packs₁, same₁⟩ := packs_put mtu packs seg
      obtain ⟨groups₂, current₂, packs₂, same₂⟩ := ih packs₁
      exact ⟨groups₂, current₂, packs₂, by rw [same₂, same₁]; simp⟩

theorem flushAcks_eq (mtu : UInt32) (acks : List (UInt32 × UInt32)) (seg : IkcpSeg)
    (out : Output) :
    flushAcks mtu acks seg out =
      ((acks.map fun ack => { seg with sn := ack.1, ts := ack.2 }).getLastD seg,
        (acks.map fun ack => { seg with sn := ack.1, ts := ack.2 }).foldl (Output.put mtu) out) := by
  induction acks generalizing seg out with
  | nil => rfl
  | cons ack rest ih =>
      obtain ⟨sn, ts⟩ := ack
      rw [flushAcks, ih]
      simp only [List.map_cons, List.foldl_cons, List.getLastD_cons]

theorem flushProbes_eq (kcp : Ikcpcb) (out : Output) :
    flushProbes (flushProbed kcp) (lastControlSeg kcp) out =
      (probeSegs kcp).foldl (Output.put (flushProbed kcp).mtu) out := by
  unfold flushProbes probeSegs
  dsimp only
  split_ifs <;> rfl

theorem flushData_eq (kcp : Ikcpcb) (wnd : UInt32) (segs : List IkcpSeg) (out : Output) :
    flushData kcp wnd segs out =
      ((segs.filter fun seg => transmit kcp seg ≠ .skip).map (flushSegment kcp wnd)).foldl
        (Output.put kcp.mtu) out := by
  induction segs generalizing out with
  | nil => rfl
  | cons seg rest ih =>
      rw [flushData, ih]
      by_cases skipped : transmit kcp seg = .skip
      · simp [skipped]
      · simp [skipped]

/-- A flush puts the segments of `flushSegs` into its output one after the other. -/
theorem ikcpFlush_output (kcp : Ikcpcb) (updated : kcp.updated ≠ 0) :
    (ikcpFlush kcp).2 =
      (ikcpOutput ((flushSegs kcp).foldl (Output.put kcp.mtu) ⟨[], []⟩)).datagrams := by
  have mtu₁ : (flushProbed kcp).mtu = kcp.mtu := rfl
  have mtu₂ : (flushMoved kcp).mtu = kcp.mtu := congrArg Params.mtu (flushMoved_params kcp)
  simp only [ikcpFlush, if_neg updated, flushAcks_eq]
  change (ikcpOutput (flushData (flushMoved kcp) _ _
    (flushProbes (flushProbed kcp) (lastControlSeg kcp) ((ackSegs kcp).foldl _ _)))).datagrams = _
  rw [flushProbes_eq, flushData_eq, mtu₁, mtu₂, flushSegs, List.foldl_append, List.foldl_append]
  rfl

/-- A flush sends exactly the segments of `flushSegs`, in order, in groups. -/
theorem ikcpFlush_packs (kcp : Ikcpcb) (updated : kcp.updated ≠ 0) :
    ∃ groups : List (List IkcpSeg), (ikcpFlush kcp).2 = groups.map encodeSegs ∧ groups.flatten = flushSegs kcp ∧
      ∀ group ∈ groups, group ≠ [] := by
  have start : Packs ⟨[], []⟩ [] [] := ⟨rfl, rfl, by simp⟩
  obtain ⟨groups₁, current₁, packs₁, same₁⟩ := packs_foldl kcp.mtu (flushSegs kcp) start
  obtain ⟨groups₂, packs₂, same₂⟩ := packs_output packs₁
  refine ⟨groups₂, ?_, ?_, packs₂.nonempty⟩
  · rw [ikcpFlush_output kcp updated, packs₂.datagrams]
  · rw [same₂, same₁]
    rfl

/-- No datagram is longer than `limit`, nor what waits in the buffer. -/
def Output.Within (limit : Nat) (out : Output) : Prop :=
  (∀ d ∈ out.datagrams, d.length ≤ limit) ∧ out.buffer.length ≤ limit

theorem ikcpOutput_within {limit : Nat} {out : Output} (within : out.Within limit) :
    (ikcpOutput out).Within limit := by
  unfold ikcpOutput
  split
  · exact within
  · refine ⟨fun d member => ?_, Nat.zero_le _⟩
    rcases List.mem_append.mp member with before | last
    · exact within.1 d before
    · rw [List.mem_singleton.mp last]
      exact within.2

/-- A segment that fits into a datagram of its own keeps the datagrams within the
limit, wherever the output is split. -/
theorem put_within {mtu : UInt32} {out : Output} {seg : IkcpSeg}
    (fits : ikcpOverhead + seg.data.length ≤ mtu.toNat) (within : out.Within mtu.toNat) :
    (out.put mtu seg).Within mtu.toNat := by
  have flushed := ikcpOutput_within within
  unfold Output.put
  dsimp only
  split
  · refine ⟨flushed.1, ?_⟩
    have empty : (ikcpOutput out).buffer = [] := by
      unfold ikcpOutput
      split
      · rename_i nothing
        exact List.eq_nil_of_length_eq_zero nothing
      · rfl
    simpa [empty] using fits
  · rename_i room
    refine ⟨within.1, ?_⟩
    rw [List.length_append, List.length_append, ikcpEncodeSeg_length]
    omega

theorem ikcpFlush_within {kcp : Ikcpcb}
    (fits : ∀ seg ∈ flushSegs kcp, ikcpOverhead + seg.data.length ≤ kcp.mtu.toNat) :
    ∀ d ∈ (ikcpFlush kcp).2, d.length ≤ kcp.mtu.toNat := by
  have folded : ∀ (segs : List IkcpSeg) {out : Output},
      (∀ seg ∈ segs, ikcpOverhead + seg.data.length ≤ kcp.mtu.toNat) → out.Within kcp.mtu.toNat →
      (segs.foldl (Output.put kcp.mtu) out).Within kcp.mtu.toNat := by
    intro segs
    induction segs with
    | nil => exact fun _ within => within
    | cons seg rest ih =>
        intro out fits within
        exact ih (fun other member => fits other (List.mem_cons_of_mem _ member))
          (put_within (fits seg (List.mem_cons_self ..)) within)
  by_cases fresh : kcp.updated = 0
  · simp [ikcpFlush, fresh]
  · have nothing : Output.Within kcp.mtu.toNat ⟨[], []⟩ := ⟨by simp, Nat.zero_le _⟩
    rw [ikcpFlush_output kcp fresh]
    exact (ikcpOutput_within (folded (flushSegs kcp) fits nothing)).1

/-- A flush has something to send. -/
def flushDue (kcp : Ikcpcb) : Prop := kcp.updated ≠ 0 ∧ flushSegs kcp ≠ []

instance (kcp : Ikcpcb) : Decidable (flushDue kcp) := inferInstanceAs (Decidable (_ ∧ _))

theorem ikcpFlush_silent_of_not_updated {kcp : Ikcpcb} (fresh : kcp.updated = 0) :
    ikcpFlush kcp = (kcp, []) := by
  rw [ikcpFlush, if_pos fresh]

theorem ikcpFlush_silent_iff (kcp : Ikcpcb) : (ikcpFlush kcp).2 = [] ↔ ¬ flushDue kcp := by
  by_cases fresh : kcp.updated = 0
  · simp [ikcpFlush_silent_of_not_updated fresh, flushDue, fresh]
  · obtain ⟨groups, datagrams, segs, nonempty⟩ := ikcpFlush_packs kcp fresh
    rw [datagrams, flushDue, ← segs]
    constructor
    · intro silent due
      rw [List.map_eq_nil_iff.mp silent] at due
      exact due.2 rfl
    · intro idle
      cases groups with
      | nil => rfl
      | cons group rest =>
          refine absurd ⟨fresh, ?_⟩ idle
          have := nonempty group (List.mem_cons_self ..)
          simp [this]

/-- The control block that `ikcp_update` flushes, when its clock says so. -/
def updateReady (kcp : Ikcpcb) (current : UInt32) : Option Ikcpcb :=
  let tsFlush := if kcp.updated = 0 then current else kcp.tsFlush
  let slap := itimediff current tsFlush
  let reset := slap ≥ 10000 ∨ slap < -10000
  if reset ∨ slap ≥ 0 then
    let next := (if reset then current else tsFlush) + kcp.interval
    some { kcp with
      current := current
      updated := if kcp.updated = 0 then 1 else kcp.updated
      tsFlush := if itimediff current next ≥ 0 then current + kcp.interval else next }
  else none

theorem ikcpUpdate_ready (kcp : Ikcpcb) (current : UInt32) :
    (ikcpUpdate kcp current).2 =
      match updateReady kcp current with
      | some ready => (ikcpFlush ready).2
      | none => [] := by
  unfold ikcpUpdate updateReady
  dsimp only
  by_cases fresh : kcp.updated = 0
  · simp only [if_pos fresh]
    split_ifs <;> rfl
  · simp only [if_neg fresh]
    split_ifs <;> rfl

end AsioKcp.Ikcp
