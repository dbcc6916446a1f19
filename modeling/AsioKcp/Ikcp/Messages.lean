import AsioKcp.Ikcp.Queues

/-! # The messages of the receive queue

`ikcp_recv` takes the first message of `rcv_queue`, if it is complete and fits
the buffer.  `messages` are those that a buffer of any size would take out. -/
set_option autoImplicit false

namespace AsioKcp.Ikcp

def Ikcpcb.message (kcp : Ikcpcb) : List UInt8 := payload (firstMessage kcp.rcvQueue)

/-- `ikcp_peeksize` finds a complete message. -/
def Complete (kcp : Ikcpcb) : Prop := 0 ≤ ikcpPeeksize kcp

instance (kcp : Ikcpcb) : Decidable (Complete kcp) := inferInstanceAs (Decidable (_ ≤ _))

/-- The control block without its first message. -/
def Ikcpcb.taken (kcp : Ikcpcb) : Ikcpcb := (ikcpRecv kcp (ikcpPeeksize kcp)).2.2

/-- The room that the `len` of `ikcp_recv` stands for, also when it peeks. -/
def bufferRoom (len : Int) : Int := if len < 0 then negated len else len

section Recv
variable {kcp : Ikcpcb} {len : Int}

theorem not_complete_of_empty (empty : kcp.rcvQueue = []) : ¬ Complete kcp := by
  rw [Complete, ikcpPeeksize, empty]
  exact Int.not_le.mpr (Int.negSucc_lt_zero 0)

theorem Complete.queue (complete : Complete kcp) : ¬ kcp.rcvQueue.isEmpty = true := by
  rw [List.isEmpty_iff]
  exact fun empty => not_complete_of_empty empty complete

theorem Complete.size (complete : Complete kcp) : ikcpPeeksize kcp = kcp.message.length := by
  have incomplete : ¬ (0 : Int) ≤ -1 := by decide
  cases queue : kcp.rcvQueue with
  | nil => exact absurd complete (not_complete_of_empty queue)
  | cons seg rest =>
      unfold Complete at complete
      unfold ikcpPeeksize Ikcpcb.message at *
      rw [queue] at complete ⊢
      dsimp only at complete ⊢
      split
      · rename_i last
        rw [firstMessage, if_pos last, payload_cons, payload_nil, List.append_nil]
      · rename_i more
        rw [if_neg more] at complete
        split
        · rename_i few
          rw [if_pos few] at complete
          exact absurd complete incomplete
        · rfl

/-- The two tests of `ikcp_recv` that fail without a complete message. -/
theorem ikcpRecv_incomplete (incomplete : ¬ Complete kcp) (len : Int) :
    ∃ code < 0, ikcpRecv kcp len = (code, [], kcp) := by
  unfold ikcpRecv
  dsimp only
  split
  · exact ⟨-1, by decide, rfl⟩
  · rw [if_pos (Int.not_le.mp incomplete)]
    exact ⟨-2, by decide, rfl⟩

/-- A buffer that is too small is refused, also for a peek. -/
theorem ikcpRecv_large (complete : Complete kcp) (small : bufferRoom len < kcp.message.length) :
    ikcpRecv kcp len = (-3, [], kcp) := by
  unfold bufferRoom at small
  unfold ikcpRecv
  dsimp only
  rw [if_neg complete.queue, if_neg (Int.not_lt.mpr complete), complete.size, if_pos small]

theorem moveToRcvQueue_front (segs : List IkcpSeg) (kcp : Ikcpcb) : ∃ moved,
    segs = moved ++ (moveToRcvQueue segs kcp).rcvBuf ∧
      (moveToRcvQueue segs kcp).rcvQueue = kcp.rcvQueue ++ moved := by
  induction segs generalizing kcp with
  | nil => exact ⟨[], rfl, (List.append_nil _).symm⟩
  | cons seg rest ih =>
      simp only [moveToRcvQueue]
      split
      · obtain ⟨moved, buf, queue⟩ := ih { kcp with
          nrcvBuf := kcp.nrcvBuf - 1
          rcvQueue := kcp.rcvQueue ++ [seg]
          nrcvQue := kcp.nrcvQue + 1
          rcvNxt := kcp.rcvNxt + 1 }
        refine ⟨seg :: moved, congrArg (seg :: ·) buf, ?_⟩
        rw [queue, List.append_assoc]
        rfl
      · exact ⟨[], rfl, (List.append_nil _).symm⟩

/-- A complete message that fits is copied out, and removed unless `len` peeks. -/
theorem ikcpRecv_fits (complete : Complete kcp) (fits : kcp.message.length ≤ bufferRoom len) :
    ∃ (kcp' : Ikcpcb) (moved : List IkcpSeg),
      ikcpRecv kcp len = ((kcp.message.length : Int), kcp.message, kcp') ∧
      kcp.rcvBuf = moved ++ kcp'.rcvBuf ∧
      kcp'.rcvQueue = (if len < 0 then kcp.rcvQueue
        else kcp.rcvQueue.drop (firstMessage kcp.rcvQueue).length) ++ moved := by
  unfold bufferRoom at fits
  unfold ikcpRecv
  dsimp only
  rw [if_neg complete.queue, if_neg (Int.not_lt.mpr complete), complete.size,
    if_neg (Int.not_lt.mpr fits)]
  by_cases peek : len < 0
  · simp only [if_pos peek]
    obtain ⟨moved, buf, queue⟩ := moveToRcvQueue_front kcp.rcvBuf kcp
    split_ifs <;> exact ⟨_, moved, rfl, buf, queue⟩
  · simp only [if_neg peek]
    obtain ⟨moved, buf, queue⟩ := moveToRcvQueue_front kcp.rcvBuf { kcp with
      rcvQueue := kcp.rcvQueue.drop (firstMessage kcp.rcvQueue).length
      nrcvQue := kcp.nrcvQue - UInt32.ofNat (firstMessage kcp.rcvQueue).length }
    split_ifs <;> exact ⟨_, moved, rfl, buf, queue⟩

/-- A read does not depend on how much more room the buffer has. -/
theorem ikcpRecv_taken (complete : Complete kcp) (fits : (kcp.message.length : Int) ≤ len) :
    ikcpRecv kcp len = ((kcp.message.length : Int), kcp.message, kcp.taken) := by
  have nonneg : ¬ len < 0 := by omega
  have positive : ¬ (kcp.message.length : Int) < 0 := by omega
  have enough : ¬ (kcp.message.length : Int) > kcp.message.length := lt_irrefl _
  unfold Ikcpcb.taken ikcpRecv
  dsimp only
  rw [complete.size]
  simp only [if_neg complete.queue, if_neg positive, if_neg nonneg, if_neg enough,
    if_neg (Int.not_lt.mpr fits)]
  rfl

theorem firstMessage_length (complete : Complete kcp) : 0 < (firstMessage kcp.rcvQueue).length := by
  cases queue : kcp.rcvQueue with
  | nil => exact absurd complete (not_complete_of_empty queue)
  | cons seg rest =>
      rw [firstMessage]
      split <;> exact Nat.zero_lt_succ _

theorem taken_received (complete : Complete kcp) :
    payload kcp.received = kcp.message ++ payload kcp.taken.received ∧
      kcp.taken.received.length < kcp.received.length := by
  have room : (kcp.message.length : Int) ≤ bufferRoom kcp.message.length := by
    unfold bufferRoom
    split <;> omega
  obtain ⟨kcp', moved, read, buf, queue⟩ := ikcpRecv_fits complete room
  rw [ikcpRecv_taken complete (Int.le_refl _)] at read
  have same : kcp.taken = kcp' := congrArg (fun r => r.2.2) read
  rw [if_neg (by omega)] at queue
  have some := firstMessage_length complete
  have split := firstMessage_append kcp.rcvQueue
  have whole : kcp.received = firstMessage kcp.rcvQueue ++ kcp'.received := by
    rw [Ikcpcb.received, Ikcpcb.received, queue, buf, List.append_assoc, ← List.append_assoc _ _ (_ ++ _),
      split]
  rw [same, whole, payload_append, List.length_append]
  exact ⟨rfl, by omega⟩

/-- The front of `rcv_buf` can move to `rcv_queue`. -/
def FrontMoves (kcp : Ikcpcb) : Prop :=
  ∃ seg rest, kcp.rcvBuf = seg :: rest ∧ seg.sn = kcp.rcvNxt ∧ kcp.nrcvQue < kcp.rcvWnd

theorem moveToRcvQueue_shortens (moves : FrontMoves kcp) :
    (moveToRcvQueue kcp.rcvBuf kcp).rcvBuf.length < kcp.rcvBuf.length := by
  obtain ⟨seg, rest, front, next⟩ := moves
  rw [front, moveToRcvQueue, if_pos next]
  obtain ⟨moved, split, _⟩ := moveToRcvQueue_front rest { kcp with
    nrcvBuf := kcp.nrcvBuf - 1
    rcvQueue := kcp.rcvQueue ++ [seg]
    nrcvQue := kcp.nrcvQue + 1
    rcvNxt := kcp.rcvNxt + 1 }
  have length := congrArg List.length split
  rw [List.length_append] at length
  rw [List.length_cons]
  omega

theorem moveToRcvQueue_stays (stays : ¬ FrontMoves kcp) : moveToRcvQueue kcp.rcvBuf kcp = kcp := by
  cases buf : kcp.rcvBuf with
  | nil => rw [moveToRcvQueue, ← buf]
  | cons seg rest =>
      have still : ¬(seg.sn = kcp.rcvNxt ∧ kcp.nrcvQue < kcp.rcvWnd) :=
        fun next => stays ⟨seg, rest, buf, next⟩
      rw [moveToRcvQueue, if_neg still, ← buf]

/-- `ikcp_recv` gives an error: no message is complete, or it has no room. -/
def Refused (kcp : Ikcpcb) (len : Int) : Prop :=
  ¬ Complete kcp ∨ bufferRoom len < kcp.message.length

theorem ikcpRecv_negative_iff : (ikcpRecv kcp len).1 < 0 ↔ Refused kcp len := by
  by_cases complete : Complete kcp
  · by_cases fits : kcp.message.length ≤ bufferRoom len
    · obtain ⟨_, _, read, _, _⟩ := ikcpRecv_fits complete fits
      rw [read]
      refine ⟨fun negative => absurd negative (Int.not_lt.mpr (Int.natCast_nonneg _)), ?_⟩
      rintro (incomplete | large)
      · exact absurd complete incomplete
      · omega
    · rw [ikcpRecv_large complete (Int.not_le.mp fits)]
      exact ⟨fun _ => Or.inr (Int.not_le.mp fits), fun _ => Int.negSucc_lt_zero 2⟩
  · obtain ⟨code, negative, read⟩ := ikcpRecv_incomplete complete len
    rw [read]
    exact ⟨fun _ => Or.inl complete, fun _ => negative⟩

/-- A read gets no bytes: it is refused, or the message at the front is empty. -/
def Barren (kcp : Ikcpcb) (len : Int) : Prop := Refused kcp len ∨ kcp.message = []

theorem ikcpRecv_nonpos_iff : (ikcpRecv kcp len).1 ≤ 0 ↔ Barren kcp len := by
  unfold Barren
  rw [← ikcpRecv_negative_iff]
  by_cases refused : Refused kcp len
  · have negative := ikcpRecv_negative_iff.mpr refused
    exact ⟨fun _ => Or.inl negative, fun _ => by omega⟩
  · obtain ⟨complete, large⟩ := not_or.mp refused
    obtain ⟨_, _, read, _, _⟩ := ikcpRecv_fits (Decidable.not_not.mp complete) (Int.not_lt.mp large)
    rw [read, ← List.length_eq_zero_iff]
    constructor
    · intro none
      exact Or.inr (by omega)
    · rintro (negative | none) <;> omega

/-- A read gives no bytes and leaves the control block as it is: it is refused, or it
peeks at an empty message. -/
def Passive (kcp : Ikcpcb) (len : Int) : Prop :=
  Refused kcp len ∨ (len < 0 ∧ kcp.message.length = 0 ∧ ¬ FrontMoves kcp)

/-- A peek still moves the front of `rcv_buf`. -/
theorem ikcpRecv_peek (complete : Complete kcp) (fits : kcp.message.length ≤ bufferRoom len)
    (peek : len < 0) :
    (ikcpRecv kcp len).1 = kcp.message.length ∧
      ((ikcpRecv kcp len).2.2 = kcp ↔ ¬ FrontMoves kcp) := by
  unfold bufferRoom at fits
  unfold ikcpRecv
  dsimp only
  rw [if_neg complete.queue, if_neg (Int.not_lt.mpr complete), complete.size,
    if_neg (Int.not_lt.mpr fits), if_pos peek]
  refine ⟨rfl, fun same moves => ?_, fun stays => ?_⟩
  · have unmoved : (moveToRcvQueue kcp.rcvBuf kcp).rcvBuf = kcp.rcvBuf := by
      have kept := congrArg Ikcpcb.rcvBuf same
      split at kept <;> exact kept
    have shorter := moveToRcvQueue_shortens moves
    rw [unmoved] at shorter
    exact Nat.lt_irrefl _ shorter
  · rw [moveToRcvQueue_stays stays]
    refine if_neg ?_
    rintro ⟨low, high⟩
    exact absurd low (UInt32.not_lt.mpr high)

theorem passive_iff :
    ((ikcpRecv kcp len).1 ≤ 0 ∧ (ikcpRecv kcp len).2.2 = kcp) ↔ Passive kcp len := by
  unfold Passive
  rw [← ikcpRecv_negative_iff]
  by_cases complete : Complete kcp
  · by_cases fits : kcp.message.length ≤ bufferRoom len
    · by_cases peek : len < 0
      · obtain ⟨size, kept⟩ := ikcpRecv_peek complete fits peek
        rw [size, kept]
        constructor
        · rintro ⟨none, stays⟩
          exact Or.inr ⟨peek, by omega, stays⟩
        · rintro (negative | ⟨_, none, stays⟩)
          · omega
          · exact ⟨by omega, stays⟩
      · have room : (kcp.message.length : Int) ≤ len := by
          rw [bufferRoom, if_neg peek] at fits
          exact fits
        have shorter := (taken_received complete).2
        rw [ikcpRecv_taken complete room]
        constructor
        · rintro ⟨_, same⟩
          rw [show kcp.taken = kcp from same] at shorter
          exact absurd shorter (Nat.lt_irrefl _)
        · rintro (negative | ⟨peeks, _⟩)
          · exact absurd negative (Int.not_lt.mpr (Int.natCast_nonneg _))
          · exact absurd peeks peek
    · rw [ikcpRecv_large complete (Int.not_le.mp fits)]
      have refused : (-3 : Int) < 0 := Int.negSucc_lt_zero 2
      exact ⟨fun _ => Or.inl refused, fun _ => ⟨Int.le_of_lt refused, rfl⟩⟩
  · obtain ⟨code, negative, read⟩ := ikcpRecv_incomplete complete len
    rw [read]
    exact ⟨fun _ => Or.inl negative, fun _ => ⟨Int.le_of_lt negative, rfl⟩⟩

/-! ## All complete messages -/

/-- The messages that reads without limit take out, one after the other. -/
def messagesFrom : Nat → Ikcpcb → List (List UInt8)
  | 0, _ => []
  | fuel + 1, kcp => if Complete kcp then kcp.message :: messagesFrom fuel kcp.taken else []

def Ikcpcb.messages (kcp : Ikcpcb) : List (List UInt8) :=
  messagesFrom (kcp.received.length + 1) kcp

/-- The fuel does not matter once it exceeds the number of segments. -/
theorem messagesFrom_enough (fuel : Nat) : ∀ {other : Nat} {kcp : Ikcpcb},
    kcp.received.length < fuel → kcp.received.length < other →
      messagesFrom fuel kcp = messagesFrom other kcp := by
  induction fuel with
  | zero => exact fun enough => absurd enough (Nat.not_lt_zero _)
  | succ fuel ih =>
      intro other kcp enough enough'
      cases other with
      | zero => exact absurd enough' (Nat.not_lt_zero _)
      | succ other =>
          rw [messagesFrom, messagesFrom]
          split
          · rename_i complete
            have shorter := (taken_received complete).2
            rw [@ih other _ (by omega) (by omega)]
          · rfl

theorem messages_complete (complete : Complete kcp) :
    kcp.messages = kcp.message :: kcp.taken.messages := by
  have shorter := (taken_received complete).2
  rw [Ikcpcb.messages, messagesFrom, if_pos complete]
  exact congrArg (kcp.message :: ·) (messagesFrom_enough _ (by omega) (Nat.lt_succ_self _))

theorem messages_incomplete (incomplete : ¬ Complete kcp) : kcp.messages = [] := by
  rw [Ikcpcb.messages, messagesFrom, if_neg incomplete]

theorem messages_eq_nil_iff : kcp.messages = [] ↔ ¬ Complete kcp := by
  constructor
  · intro none complete
    rw [messages_complete complete] at none
    cases none
  · exact messages_incomplete

end Recv

/-! ## The segments of the receive side -/

theorem ikcpSend_rcvSide (kcp : Ikcpcb) (buffer : List UInt8) (len : Int) :
    (ikcpSend kcp buffer len).2.rcvSide = kcp.rcvSide := by
  have extended : (sendExtend kcp (buffer.take len.toNat)).1.rcvSide = kcp.rcvSide := by
    unfold sendExtend
    split
    · rfl
    · split <;> rfl
  unfold ikcpSend
  dsimp only
  split_ifs <;> first | rfl | exact extended

/-- A read adds no segment. -/
theorem ikcpRecv_mem {kcp : Ikcpcb} {len : Int} {seg : IkcpSeg}
    (member : seg ∈ (ikcpRecv kcp len).2.2.received) : seg ∈ kcp.received := by
  by_cases complete : Complete kcp
  · by_cases fits : kcp.message.length ≤ bufferRoom len
    · obtain ⟨kcp', moved, read, buf, queue⟩ := ikcpRecv_fits complete fits
      rw [read, Ikcpcb.received, queue, List.append_assoc, ← buf] at member
      rcases List.mem_append.mp member with queued | buffered
      · refine List.mem_append_left _ ?_
        split at queued
        · exact queued
        · exact List.mem_of_mem_drop queued
      · exact List.mem_append_right _ buffered
    · rw [ikcpRecv_large complete (Int.not_le.mp fits)] at member
      exact member
  · obtain ⟨code, _, read⟩ := ikcpRecv_incomplete complete len
    rw [read] at member
    exact member

theorem ikcpParseData_mem {kcp : Ikcpcb} {newseg seg : IkcpSeg}
    (member : seg ∈ (ikcpParseData kcp newseg).received) : seg ∈ kcp.received ∨ seg = newseg := by
  unfold ikcpParseData at member
  split at member
  · exact Or.inl member
  · rw [moveToRcvQueue_received] at member
    cases found : insertFromBack newseg kcp.rcvBuf.reverse with
    | none =>
        rw [found] at member
        exact Or.inl member
    | some inserted =>
        rw [found] at member
        rcases List.mem_append.mp member with queued | buffered
        · exact Or.inl (List.mem_append_left _ queued)
        · have here := (insertFromBack_perm found).mem_iff.mp (List.mem_reverse.mp buffered)
          rcases List.mem_cons.mp here with isNew | old
          · exact Or.inr isNew
          · exact Or.inl (List.mem_append_right _ (List.mem_reverse.mp old))

/-- Only a push segment of a datagram is added. -/
theorem inputKcp_mem {kcp : Ikcpcb} {newseg seg : IkcpSeg}
    (member : seg ∈ (inputKcp kcp newseg).received) :
    seg ∈ kcp.received ∨ (seg = newseg ∧ newseg.cmd = ikcpCmdPush) := by
  have header := inputHeader_rcvSide kcp newseg
  unfold inputKcp at member
  dsimp only at member
  split_ifs at member
  · rw [rcvSide_received ((inputAck_rcvSide _ newseg).trans header)] at member
    exact Or.inl member
  · rename_i notAck isPush
    have pushed : seg ∈ (inputHeader kcp newseg).received ∨ seg = newseg := by
      unfold inputPush at member
      dsimp only at member
      split_ifs at member
      · rcases ikcpParseData_mem member with old | isNew
        · exact Or.inl old
        · exact Or.inr isNew
      · exact Or.inl member
      · exact Or.inl member
    rw [rcvSide_received header] at pushed
    exact pushed.imp_right fun same => ⟨same, isPush⟩
  · rw [← rcvSide_received header]
    exact Or.inl member
  · rw [← rcvSide_received header]
    exact Or.inl member

theorem foldl_inputKcp_mem {seg : IkcpSeg} (segs : List IkcpSeg) : ∀ {kcp : Ikcpcb},
    seg ∈ (segs.foldl inputKcp kcp).received →
      seg ∈ kcp.received ∨ (seg ∈ segs ∧ seg.cmd = ikcpCmdPush) := by
  induction segs with
  | nil => exact fun member => Or.inl member
  | cons first rest ih =>
      intro kcp member
      rcases ih member with before | ⟨later, push⟩
      · rcases inputKcp_mem before with old | ⟨rfl, push⟩
        · exact Or.inl old
        · exact Or.inr ⟨List.mem_cons_self .., push⟩
      · exact Or.inr ⟨List.mem_cons_of_mem _ later, push⟩

end AsioKcp.Ikcp
