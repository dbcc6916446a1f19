import AsioKcp.Connection.Streams

/-! # Whether a write is all or nothing

`ikcp_send` tops up the last queued segment before it counts the segments that
the rest needs, and `async_write` narrows the length of its buffer to `int`. -/
set_option autoImplicit false

namespace AsioKcp

open AsioKcp.Ikcp AsioKcp.Callback AsioKcp.Machine

/-- What the last queued segment has room for. -/
def spare (kcp : Ikcpcb) : Nat :=
  match kcp.sndQueue.getLast? with
  | none => 0
  | some old => kcp.mss.toNat - old.data.length

/-- What one `ikcp_send` can queue: the rest may take up to 127 segments. -/
def capacity (kcp : Ikcpcb) : Nat := spare kcp + 127 * kcp.mss.toNat

section Send
variable {kcp : Ikcpcb}

theorem sendExtend_spare (kcp : Ikcpcb) (buffer : List UInt8) :
    (sendExtend kcp buffer).2 = buffer.drop (spare kcp) ∧
      payload (sendExtend kcp buffer).1.pending =
        payload kcp.pending ++ buffer.take (spare kcp) := by
  unfold sendExtend spare
  cases last : kcp.sndQueue.getLast? with
  | none =>
      dsimp only
      rw [List.drop_zero, List.take_zero, List.append_nil]
      exact ⟨rfl, rfl⟩
  | some old =>
      dsimp only
      split
      · have shape : kcp.sndQueue = kcp.sndQueue.dropLast ++ [old] :=
          (List.dropLast_append_getLast? old last).symm
        refine ⟨rfl, ?_⟩
        conv_rhs => rw [Ikcpcb.pending, shape]
        simp [Ikcpcb.pending, ikcpSegmentNew]
      · rename_i full
        rw [Nat.sub_eq_zero_of_le (Nat.le_of_not_lt full), List.drop_zero, List.take_zero,
          List.append_nil]
        exact ⟨rfl, rfl⟩

/-- The number of segments that the rest of a buffer needs, against the limit. -/
theorem rounds_few_iff (rest : Nat) {mss : Nat} (positive : 0 < mss) :
    (if rest ≤ mss then 1 else (rest + mss - 1) / mss) ≥ ikcpWndRcv.toNat ↔ 127 * mss < rest := by
  have limit : ikcpWndRcv.toNat = 128 := rfl
  rw [limit]
  split
  · omega
  · rw [ge_iff_le, Nat.le_div_iff_mul_le positive]
    omega

/-- `ikcp_send` in streaming mode, by what it can queue. -/
theorem ikcpSend_capacity {buffer : List UInt8} {len : Int} (stream : kcp.stream ≠ 0)
    (positive : 0 < kcp.mss.toNat) (nonneg : 0 ≤ len) :
    ((buffer.take len.toNat).length ≤ capacity kcp ∧ (ikcpSend kcp buffer len).1 = 0 ∧
      payload (ikcpSend kcp buffer len).2.pending =
        payload kcp.pending ++ buffer.take len.toNat) ∨
    (capacity kcp < (buffer.take len.toNat).length ∧ (ikcpSend kcp buffer len).1 = -2 ∧
      payload (ikcpSend kcp buffer len).2.pending =
        payload kcp.pending ++ (buffer.take len.toNat).take (spare kcp)) := by
  obtain ⟨left, filled⟩ := sendExtend_spare kcp (buffer.take len.toNat)
  have params := sendExtend_params kcp (buffer.take len.toNat)
  unfold ikcpSend
  dsimp only
  rw [if_neg (Int.not_lt.mpr nonneg), if_pos stream]
  generalize buffer.take len.toNat = taken at *
  generalize sendExtend kcp taken = extended at *
  obtain ⟨kcp', rest⟩ := extended
  have mss : kcp'.mss = kcp.mss := congrArg Params.mss params
  have streaming : kcp'.stream ≠ 0 := by
    rw [show kcp'.stream = kcp.stream from congrArg Params.stream params]
    exact stream
  have size : rest.length = taken.length - spare kcp := by
    rw [show rest = _ from left, List.length_drop]
  have few := rounds_few_iff rest.length positive
  have enough : rest.length ≤ (if rest.length ≤ kcp.mss.toNat then 1
      else (rest.length + kcp.mss.toNat - 1) / kcp.mss.toNat) * kcp.mss.toNat := by
    split
    · omega
    · have := Nat.lt_div_mul_add (a := rest.length + kcp.mss.toNat - 1) positive
      omega
  dsimp only
  rw [mss]
  generalize (if rest.length ≤ kcp.mss.toNat then 1
    else (rest.length + kcp.mss.toNat - 1) / kcp.mss.toNat) = count at few enough ⊢
  unfold capacity
  split
  · rename_i nothing
    left
    refine ⟨by omega, rfl, ?_⟩
    rw [filled, List.take_of_length_le (by omega)]
  · split
    · rename_i many
      have beyond := few.mp many
      exact Or.inr ⟨by omega, rfl, filled⟩
    · rename_i some
      have within := mt few.mpr some
      left
      refine ⟨by omega, rfl, ?_⟩
      have queued : payload (kcp'.pending ++ sendFragments kcp'.stream kcp.mss.toNat count rest) =
          payload kcp.pending ++ taken := by
        rw [payload_append, filled, sendFragments_payload _ _ _ _ enough, show rest = _ from left,
          List.append_assoc, List.take_append_drop]
      rw [← queued, Ikcpcb.pending, Ikcpcb.pending, List.append_assoc]

end Send

/-- What the caller of `async_write` may expect of the outgoing byte stream. -/
structure AllOrNothing (l l' : Local) (buffer : List UInt8) : Prop where
  accepted : l'.env.posted = l.env.posted ++ [.completion ⟨l.env.nextHandler, .success, 0⟩] ∨
      l'.conn.writeOp = some l.env.nextHandler →
    payload l'.conn.obj.pending = payload l.conn.obj.pending ++ buffer
  refused : l'.env.posted = l.env.posted ++ [.completion ⟨l.env.nextHandler, .messageSize, 0⟩] →
    payload l'.conn.obj.pending = payload l.conn.obj.pending

/-- The length is refused as negative, or it is kept and fits, or it is refused
where nothing has been topped up. -/
def TakenWhole (kcp : Ikcpcb) (size : Nat) : Prop :=
  narrow size < 0 ∨ (narrow size = size ∧ size ≤ capacity kcp) ∨
    ((capacity kcp : Int) < narrow size ∧ spare kcp = 0)

instance (kcp : Ikcpcb) (size : Nat) : Decidable (TakenWhole kcp size) :=
  inferInstanceAs (Decidable (_ ∨ _ ∨ _))

section Call
variable {l : Local} {buffer : List UInt8}

theorem refused_iff (free : l.conn.writeOp = none) :
    AllOrNothing l ((l.writeRefused buffer).postCompletion .messageSize) buffer ↔
      payload (l.sendResult buffer).2.pending = payload l.conn.obj.pending := by
  constructor
  · exact fun whole => whole.refused rfl
  · refine fun same => ⟨fun accepted => ?_, fun _ => same⟩
    rcases accepted with posted | pending
    · have tasks := List.append_cancel_left posted
      simp at tasks
    · have none : (none : Option Nat) = some l.env.nextHandler := free.symm.trans pending
      cases none

theorem completed_iff :
    AllOrNothing l ((l.write buffer).postCompletion .success) buffer ↔
      payload (l.sendResult buffer).2.pending = payload l.conn.obj.pending ++ buffer := by
  constructor
  · exact fun whole => whole.accepted (Or.inl rfl)
  · refine fun grown => ⟨fun _ => grown, fun posted => ?_⟩
    have tasks := List.append_cancel_left posted
    simp at tasks

theorem waiting_iff :
    AllOrNothing l (l.write buffer).installWrite buffer ↔
      payload (l.sendResult buffer).2.pending = payload l.conn.obj.pending ++ buffer := by
  constructor
  · exact fun whole => whole.accepted (Or.inr rfl)
  · refine fun grown => ⟨fun _ => grown, fun posted => ?_⟩
    have shorter := congrArg List.length posted
    simp [Local.installWrite, Local.write] at shorter

/-- What `async_write` does on a connection that may begin a write. -/
theorem asyncWrite_whole_iff (free : l.conn.writeOp = none) (opened : ¬ l.closed)
    (stream : l.conn.obj.stream ≠ 0) (positive : 0 < l.conn.obj.mss.toNat) :
    AllOrNothing l (asyncWrite buffer l).state buffer ↔ TakenWhole l.conn.obj buffer.length := by
  have begins : ¬ (l.conn.writeOp ≠ none ∨ l.conn.closed = true) := by
    rintro (busy | closed)
    · exact busy free
    · exact opened (show l.conn.state = .closed by simpa [Connection.closed] using closed)
  rw [asyncWrite_eq, if_neg begins, Prog.state]
  by_cases negative : narrow buffer.length < 0
  · have sent : l.sendResult buffer = (-1, l.conn.obj) := by
      rw [Local.sendResult, ikcpSend, if_pos negative]
    have refused : (l.sendResult buffer).1 < 0 := by
      rw [sent]
      exact Int.negSucc_lt_zero 0
    rw [if_pos refused, refused_iff free, sent]
    simp [TakenWhole, negative]
  · have nonneg := Int.not_lt.mp negative
    have narrowed := narrow_le nonneg
    have length : (buffer.take (narrow buffer.length).toNat).length =
        (narrow buffer.length).toNat := by
      rw [List.length_take]
      omega
    rcases @ikcpSend_capacity l.conn.obj buffer _ stream positive nonneg with
      ⟨fits, result, grown⟩ | ⟨large, result, grown⟩
    · have accepted : ¬ (l.sendResult buffer).1 < 0 := by
        rw [Local.sendResult, result]
        decide
      have whole : buffer.take (narrow buffer.length).toNat = buffer ↔
          TakenWhole l.conn.obj buffer.length := by
        rw [List.take_eq_self_iff, TakenWhole]
        omega
      rw [if_neg accepted]
      split
      · rw [completed_iff, Local.sendResult, grown, List.append_cancel_left_eq, whole]
      · rw [waiting_iff, Local.sendResult, grown, List.append_cancel_left_eq, whole]
    · have refused : (l.sendResult buffer).1 < 0 := by
        rw [Local.sendResult, result]
        decide
      rw [if_pos refused, refused_iff free, Local.sendResult, grown, List.append_right_eq_self,
        List.take_eq_nil_iff, TakenWhole]
      have some : buffer.take (narrow buffer.length).toNat ≠ [] := by
        rw [← List.length_pos_iff]
        omega
      simp only [some, or_false]
      omega

end Call

/-- A reachable connection takes the whole buffer or nothing exactly if its
length stays what it is and fits, or is refused before any byte is queued. -/
theorem asyncWrite_all_or_nothing {conv : UInt32} {start c c' : Config Local}
    {ok : Config Local → Label Event Call → Prop} (started : Started conv start)
    (run : connectionSystem.Steps ok start c) (opened : ¬ c.state.closed)
    (free : c.state.conn.writeOp = none) (buffer : List UInt8)
    (stepped : connectionSystem.step c (.call (.asyncWrite buffer)) = some c') :
    AllOrNothing c.state c'.state buffer ↔ TakenWhole c.state.conn.obj buffer.length := by
  have params := run_lasting (params_lasting (initKcpContext conv).params) started rfl run
  have stream : c.state.conn.obj.stream = 1 := congrArg Params.stream params
  have mss : c.state.conn.obj.mss = 1176 := congrArg Params.mss params
  obtain ⟨_, rfl⟩ := step_call stepped
  rw [enter_state]
  apply asyncWrite_whole_iff free opened
  · rw [stream]
    decide
  · rw [mss]
    decide

/-- The client once it has queued one byte. -/
def oneByte : Local := ((clientLocal 7 loopback 0 noStreambufs).write [1]).postCompletion .success

theorem oneByte_run : connectionSystem.Steps (fun _ _ => True)
    (clientStart 7 loopback 0 noStreambufs) (.idle oneByte) :=
  .tail (.call (.asyncWrite [1])) .refl trivial rfl

theorem oneByte_opened : ¬ oneByte.closed := by
  simp [Local.closed, oneByte, Local.postCompletion, Local.write, clientLocal]

theorem asyncWrite_all_or_nothing_byte :
    AllOrNothing oneByte (Config.enter [] (asyncWrite [2] oneByte)).state [2] := by
  have stepped : connectionSystem.step (.idle oneByte) (.call (.asyncWrite [2])) =
      some (.enter [] (asyncWrite [2] oneByte)) := rfl
  exact (asyncWrite_all_or_nothing (.client loopback 0 noStreambufs) oneByte_run oneByte_opened
    rfl [2] stepped).mpr (by decide)

/-- Of 128 full segments the first 1175 bytes join the byte that is queued, and
the rest is refused. -/
theorem asyncWrite_partial :
    ¬ ∀ (start c c' : Config Local) (buffer : List UInt8), Started 7 start →
      connectionSystem.Steps (fun _ _ => True) start c → ¬ c.state.closed →
      c.state.conn.writeOp = none →
      connectionSystem.step c (.call (.asyncWrite buffer)) = some c' →
      AllOrNothing c.state c'.state buffer := by
  intro claimed
  obtain ⟨buffer, long⟩ : ∃ buffer : List UInt8, buffer.length = 128 * 1176 :=
    ⟨List.replicate (128 * 1176) 0, List.length_replicate⟩
  have whole := claimed _ _ _ buffer (.client loopback 0 noStreambufs) oneByte_run oneByte_opened
    rfl rfl
  rw [enter_state] at whole
  have taken := (asyncWrite_whole_iff rfl oneByte_opened (by decide) (by decide)).mp whole
  rw [long] at taken
  exact absurd taken (by decide)

end AsioKcp
