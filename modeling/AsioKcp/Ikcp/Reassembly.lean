import AsioKcp.Ikcp.Numbering

/-! # The numbers of the receive side

`out` lists the payloads that the other side has numbered, `next` is the true
value of `rcv_nxt` and `held` the numbers in `rcv_buf`.  What the reads have got,
followed by `rcv_queue`, is the stream up to `next`. -/
set_option autoImplicit false

namespace AsioKcp.Ikcp

open AsioKcp.Serial

structure Receiving (conv : UInt32) (out : List (List UInt8)) (next : Nat) (held : List Nat)
    (got : List UInt8) (kcp : Ikcpcb) : Prop where
  nxt : kcp.rcvNxt = UInt32.ofNat next
  le : next ≤ out.length
  queue : got ++ payload kcp.rcvQueue = (out.take next).flatten
  buf : kcp.rcvBuf.map IkcpSeg.core = held.map (numbered conv out)
  below : ∀ i ∈ held, i < out.length
  count : kcp.nrcvQue = UInt32.ofNat kcp.rcvQueue.length
  room : kcp.rcvQueue.length ≤ 256

/-- The next segment stays in `rcv_buf` only while `rcv_queue` is full. -/
def Tight (next : Nat) (held : List Nat) (kcp : Ikcpcb) : Prop :=
  held.head? = some next → kcp.rcvQueue.length = 256

/-- The segments that a receive side has, in either queue or read already. -/
def Has (next : Nat) (held : List Nat) (i : Nat) : Prop := i < next ∨ i ∈ held

section Sides
variable {conv : UInt32} {out : List (List UInt8)} {next : Nat} {held : List Nat}
  {got : List UInt8} {kcp kcp' : Ikcpcb}

theorem Receiving.of_rcvSide (receiving : Receiving conv out next held got kcp)
    (side : kcp'.rcvSide = kcp.rcvSide) : Receiving conv out next held got kcp' := by
  have queue : kcp'.rcvQueue = kcp.rcvQueue := congrArg RcvSide.rcvQueue side
  have buf : kcp'.rcvBuf = kcp.rcvBuf := congrArg RcvSide.rcvBuf side
  have count : kcp'.nrcvQue = kcp.nrcvQue := congrArg RcvSide.nrcvQue side
  refine ⟨(congrArg RcvSide.rcvNxt side).trans receiving.nxt, receiving.le, ?_, ?_,
    receiving.below, ?_, ?_⟩
  · rw [queue]
    exact receiving.queue
  · rw [buf]
    exact receiving.buf
  · rw [count, queue]
    exact receiving.count
  · rw [queue]
    exact receiving.room

theorem Tight.of_rcvSide (tight : Tight next held kcp) (side : kcp'.rcvSide = kcp.rcvSide) :
    Tight next held kcp' := by
  have queue : kcp'.rcvQueue = kcp.rcvQueue := congrArg RcvSide.rcvQueue side
  rw [Tight, queue]
  exact tight

/-- The other side numbers more segments. -/
theorem Receiving.append (receiving : Receiving conv out next held got kcp)
    (more : List (List UInt8)) : Receiving conv (out ++ more) next held got kcp where
  nxt := receiving.nxt
  le := by
    have := receiving.le
    rw [List.length_append]
    omega
  queue := by
    rw [List.take_append_of_le_length receiving.le]
    exact receiving.queue
  buf := by
    rw [map_numbered_append receiving.below]
    exact receiving.buf
  below := by
    intro i member
    have := receiving.below i member
    rw [List.length_append]
    omega
  count := receiving.count
  room := receiving.room

theorem Receiving.has_below (receiving : Receiving conv out next held got kcp) {i : Nat}
    (has : Has next held i) : i < out.length := by
  rcases has with taken | waiting
  · exact Nat.lt_of_lt_of_le taken receiving.le
  · exact receiving.below i waiting

end Sides

/-! ## `rcv_buf` to `rcv_queue` -/

/-- The numbers from `next` on leave `held`, and `next` goes up by as many. -/
structure Moves (conv : UInt32) (out : List (List UInt8)) (next : Nat) (held : List Nat)
    (got : List UInt8) (k : Nat) (kcp' : Ikcpcb) : Prop where
  receiving : Receiving conv out (next + k) (held.drop k) got kcp'
  tight : Tight (next + k) (held.drop k) kcp'
  taken : held.take k = List.range' next k

theorem has_of_taken {next k i : Nat} {held : List Nat} (taken : held.take k = List.range' next k)
    (has : Has next held i) : Has (next + k) (held.drop k) i := by
  rcases has with below | waiting
  · exact Or.inl (by omega)
  · rw [← List.take_append_drop k held] at waiting
    rcases List.mem_append.mp waiting with front | back
    · rw [taken] at front
      have := List.mem_range'_1.mp front
      exact Or.inl (by omega)
    · exact Or.inr back

theorem Moves.has {conv : UInt32} {out : List (List UInt8)} {next : Nat} {held : List Nat}
    {got : List UInt8} {k : Nat} {kcp' : Ikcpcb} (moves : Moves conv out next held got k kcp')
    {i : Nat} (has : Has next held i) : Has (next + k) (held.drop k) i :=
  has_of_taken moves.taken has

section Move
variable {conv : UInt32} {out : List (List UInt8)} {got : List UInt8}

/-- One round of `moveToRcvQueue`. -/
def takeSeg (seg : IkcpSeg) (kcp : Ikcpcb) : Ikcpcb :=
  { kcp with
    nrcvBuf := kcp.nrcvBuf - 1
    rcvQueue := kcp.rcvQueue ++ [seg]
    nrcvQue := kcp.nrcvQue + 1
    rcvNxt := kcp.rcvNxt + 1 }

theorem moveToRcvQueue_cons (seg : IkcpSeg) (rest : List IkcpSeg) (kcp : Ikcpcb) :
    moveToRcvQueue (seg :: rest) kcp =
      if seg.sn = kcp.rcvNxt ∧ kcp.nrcvQue < kcp.rcvWnd then moveToRcvQueue rest (takeSeg seg kcp)
      else { kcp with rcvBuf := seg :: rest } := rfl

theorem take_succ_flatten {out : List (List UInt8)} {next : Nat} (below : next < out.length) :
    (out.take (next + 1)).flatten = (out.take next).flatten ++ out.getD next [] := by
  rw [List.take_succ_eq_append_getElem below, List.flatten_append,
    List.getD_eq_getElem?_getD, List.getElem?_eq_getElem below]
  simp

theorem takeSeg_receiving {next : Nat} {rest : List Nat} {seg : IkcpSeg} {segs : List IkcpSeg}
    {kcp : Ikcpcb}
    (receiving : Receiving conv out next (next :: rest) got { kcp with rcvBuf := seg :: segs })
    (free : kcp.rcvQueue.length < 256) :
    Receiving conv out (next + 1) rest got { takeSeg seg kcp with rcvBuf := segs } := by
  obtain ⟨head, tail⟩ := List.cons.inj receiving.buf
  have data : seg.data = out.getD next [] := congrArg SegCore.data head
  have below := receiving.below next (List.mem_cons_self ..)
  have nxt : kcp.rcvNxt = UInt32.ofNat next := receiving.nxt
  have count : kcp.nrcvQue = UInt32.ofNat kcp.rcvQueue.length := receiving.count
  have queue : got ++ payload kcp.rcvQueue = (out.take next).flatten := receiving.queue
  refine ⟨?_, below, ?_, tail, fun i member => receiving.below i (List.mem_cons_of_mem _ member),
    ?_, ?_⟩
  · change kcp.rcvNxt + 1 = _
    rw [nxt, ofNat_succ]
  · change got ++ payload (kcp.rcvQueue ++ [seg]) = _
    rw [take_succ_flatten below, payload_append, ← List.append_assoc, queue, payload_cons, data,
      payload_nil, List.append_nil]
  · change kcp.nrcvQue + 1 = UInt32.ofNat (kcp.rcvQueue ++ [seg]).length
    rw [count, ofNat_succ, List.length_append, List.length_singleton]
  · change (kcp.rcvQueue ++ [seg]).length ≤ 256
    rw [List.length_append, List.length_singleton]
    omega

theorem moveToRcvQueue_moves (base : Nat) (segs : List IkcpSeg) :
    ∀ {next : Nat} {held : List Nat} {kcp : Ikcpcb}, Suited conv kcp.params →
      Receiving conv out next held got { kcp with rcvBuf := segs } →
      (∀ i ∈ held, Spans base i) → base ≤ next → next ≤ base + 2 ^ 31 →
      ∃ k, Moves conv out next held got k (moveToRcvQueue segs kcp) := by
  induction segs with
  | nil =>
      intro next held kcp _ receiving _ _ _
      have empty : held = [] := List.map_eq_nil_iff.mp receiving.buf.symm
      subst empty
      exact ⟨0, receiving, by simp [Tight], rfl⟩
  | cons seg rest ih =>
      intro next held kcp suited receiving spans low high
      cases held with
      | nil => exact absurd receiving.buf (by simp)
      | cons i others =>
          have head : seg.sn = UInt32.ofNat i :=
            congrArg SegCore.sn (List.cons.inj receiving.buf).1
          have near : Near i next := by
            obtain ⟨above, below⟩ := spans i (List.mem_cons_self ..)
            constructor <;> omega
          have nxt : kcp.rcvNxt = UInt32.ofNat next := receiving.nxt
          have isNext : seg.sn = kcp.rcvNxt ↔ i = next := by rw [head, nxt, ofNat_eq_iff near]
          have rcvWnd : kcp.rcvWnd = 256 := suited.rcvWnd
          have count : kcp.nrcvQue = UInt32.ofNat kcp.rcvQueue.length := receiving.count
          have room : kcp.rcvQueue.length ≤ 256 := receiving.room
          have free : kcp.nrcvQue < kcp.rcvWnd ↔ kcp.rcvQueue.length < 256 := by
            rw [rcvWnd, count, UInt32.lt_iff_toNat_lt, UInt32.toNat_ofNat', Nat.mod_eq_of_lt]
            · rfl
            · omega
          rw [moveToRcvQueue_cons]
          by_cases goes : seg.sn = kcp.rcvNxt ∧ kcp.nrcvQue < kcp.rcvWnd
          · rw [if_pos goes]
            obtain rfl := isNext.mp goes.1
            have suited' : Suited conv (takeSeg seg kcp).params := suited
            obtain ⟨_, inside⟩ := spans i (List.mem_cons_self ..)
            obtain ⟨k, moves⟩ := ih suited' (takeSeg_receiving receiving (free.mp goes.2))
              (fun j member => spans j (List.mem_cons_of_mem _ member)) (by omega) (by omega)
            refine ⟨k + 1, ?_, ?_, ?_⟩
            · rw [Nat.add_comm k 1, ← Nat.add_assoc]
              simpa [Nat.add_comm 1 k] using moves.receiving
            · rw [Nat.add_comm k 1, ← Nat.add_assoc]
              simpa [Nat.add_comm 1 k] using moves.tight
            · rw [List.take_succ_cons, List.range'_succ, moves.taken]
          · rw [if_neg goes]
            refine ⟨0, receiving, ?_, rfl⟩
            intro isHead
            have first : i = next := by simpa using isHead
            have full : ¬ kcp.rcvQueue.length < 256 := fun small =>
              goes ⟨isNext.mpr first, free.mpr small⟩
            change kcp.rcvQueue.length = 256
            omega

end Move

/-! ## `ikcp_recv` -/

section Recv
variable {conv : UInt32} {out : List (List UInt8)} {next : Nat} {held : List Nat}
  {got : List UInt8} {kcp : Ikcpcb}

theorem firstMessage_length_le (segs : List IkcpSeg) : (firstMessage segs).length ≤ segs.length := by
  have shape := congrArg List.length (firstMessage_append segs)
  rw [List.length_append] at shape
  omega

/-- What a read takes out goes to `got`. -/
theorem ikcpRecv_receiving (base : Nat) (suited : Suited conv kcp.params)
    (receiving : Receiving conv out next held got kcp) (tight : Tight next held kcp)
    (spans : ∀ i ∈ held, Spans base i) (low : base ≤ next) (high : next ≤ base + 2 ^ 31)
    {len : Int} (whole : ¬ len < 0) :
    ∃ k, Moves conv out next held (got ++ (ikcpRecv kcp len).2.1) k (ikcpRecv kcp len).2.2 := by
  have unread : ∃ k, Moves conv out next held (got ++ []) k kcp := by
    refine ⟨0, ?_, tight, rfl⟩
    rw [List.append_nil]
    exact receiving
  have taken : Receiving conv out next held (got ++ payload (firstMessage kcp.rcvQueue)) { kcp with
      rcvQueue := kcp.rcvQueue.drop (firstMessage kcp.rcvQueue).length
      nrcvQue := kcp.nrcvQue - UInt32.ofNat (firstMessage kcp.rcvQueue).length } := by
    have fewer := firstMessage_length_le kcp.rcvQueue
    have room := receiving.room
    refine ⟨receiving.nxt, receiving.le, ?_, receiving.buf, receiving.below, ?_, ?_⟩
    · rw [List.append_assoc, ← payload_append, firstMessage_append]
      exact receiving.queue
    · change kcp.nrcvQue - _ = UInt32.ofNat (kcp.rcvQueue.drop _).length
      rw [receiving.count, List.length_drop, UInt32.ofNat_sub fewer]
    · change (kcp.rcvQueue.drop _).length ≤ 256
      rw [List.length_drop]
      omega
  unfold ikcpRecv
  dsimp only
  rw [if_neg whole]
  split_ifs
  · exact unread
  · exact unread
  · exact unread
  all_goals
    let read := { kcp with
      rcvQueue := kcp.rcvQueue.drop (firstMessage kcp.rcvQueue).length
      nrcvQue := kcp.nrcvQue - UInt32.ofNat (firstMessage kcp.rcvQueue).length }
    have suited' : Suited conv read.params := suited
    obtain ⟨k, moves⟩ := moveToRcvQueue_moves base kcp.rcvBuf suited' taken spans low high
    exact ⟨k, moves.receiving.of_rcvSide rfl, moves.tight.of_rcvSide rfl, moves.taken⟩

end Recv

/-! ## `ikcp_parse_data` -/

/-- `insertFromBack` on the numbers of the segments. -/
def insertNumber (i : Nat) : List Nat → Option (List Nat)
  | [] => some [i]
  | k :: rest =>
      if k = i then none
      else if k < i then some (i :: k :: rest)
      else (insertNumber i rest).map (k :: ·)

/-- The numbers in `rcv_buf` once segment `i` has arrived. -/
def arrive (i : Nat) (held : List Nat) : List Nat :=
  match insertNumber i held.reverse with
  | some reversed => reversed.reverse
  | none => held

theorem insertNumber_mem (i : Nat) (ns : List Nat) :
    match insertNumber i ns with
    | some ns' => ∀ j, j ∈ ns' ↔ j = i ∨ j ∈ ns
    | none => i ∈ ns := by
  induction ns with
  | nil => simp [insertNumber]
  | cons k rest ih =>
      simp only [insertNumber]
      split_ifs with same smaller
      · exact List.mem_cons.mpr (Or.inl same.symm)
      · exact fun j => List.mem_cons
      · cases deeper : insertNumber i rest with
        | none =>
            rw [deeper] at ih
            exact List.mem_cons_of_mem _ ih
        | some ns' =>
            rw [deeper] at ih
            intro j
            simp only [List.mem_cons, ih j]
            tauto

theorem mem_arrive {i j : Nat} {held : List Nat} : j ∈ arrive i held ↔ j = i ∨ j ∈ held := by
  have inserted := insertNumber_mem i held.reverse
  unfold arrive
  cases found : insertNumber i held.reverse with
  | none =>
      rw [found] at inserted
      have member : i ∈ held := List.mem_reverse.mp inserted
      exact ⟨Or.inr, fun either => either.elim (fun same => same ▸ member) id⟩
  | some ns' =>
      rw [found] at inserted
      have := inserted j
      simpa using this

section Data
variable {conv : UInt32} {out : List (List UInt8)} {next : Nat} {held : List Nat}
  {got : List UInt8} {kcp : Ikcpcb} {base i : Nat} {newseg : IkcpSeg}

theorem insertFromBack_numbered (core : newseg.core = numbered conv out i) {ns : List Nat}
    {segs : List IkcpSeg} (buf : segs.map IkcpSeg.core = ns.map (numbered conv out))
    (spans : ∀ k ∈ ns, Spans base k) (here : Spans base i) :
    (insertFromBack newseg segs).map (List.map IkcpSeg.core) =
      (insertNumber i ns).map (List.map (numbered conv out)) := by
  induction segs generalizing ns with
  | nil =>
      have empty : ns = [] := List.map_eq_nil_iff.mp buf.symm
      subst empty
      simp [insertFromBack, insertNumber, core]
  | cons seg rest ih =>
      cases ns with
      | nil => cases buf
      | cons k others =>
          obtain ⟨head, tail⟩ := List.cons.inj buf
          have sn : newseg.sn = UInt32.ofNat i := congrArg SegCore.sn core
          have held : seg.sn = UInt32.ofNat k := congrArg SegCore.sn head
          have near := (spans k (List.mem_cons_self ..)).near here
          have deeper := ih tail fun j member => spans j (List.mem_cons_of_mem _ member)
          simp only [insertFromBack, insertNumber, sn, held, ofNat_eq_iff near,
            itimediff_pos_iff (here.near (spans k (List.mem_cons_self ..)))]
          split_ifs
          · rfl
          · simp only [Option.map_some, List.map_cons, core, head, tail]
          · cases found : insertFromBack newseg rest with
            | none =>
                rw [found] at deeper
                cases number : insertNumber i others with
                | none => rfl
                | some ns' => simp [number] at deeper
            | some inserted =>
                rw [found] at deeper
                cases number : insertNumber i others with
                | none => simp [number] at deeper
                | some ns' =>
                    rw [number] at deeper
                    have same : inserted.map IkcpSeg.core = ns'.map (numbered conv out) :=
                      Option.some.inj deeper
                    simp only [Option.map_some, List.map_cons, head, same]

/-- `rcv_buf` with the new segment in it, before the move to `rcv_queue`. -/
def insertSeg (kcp : Ikcpcb) (newseg : IkcpSeg) : Ikcpcb :=
  match insertFromBack newseg kcp.rcvBuf.reverse with
  | some reversed => { kcp with rcvBuf := reversed.reverse, nrcvBuf := kcp.nrcvBuf + 1 }
  | none => kcp

theorem insertSeg_receiving (receiving : Receiving conv out next held got kcp)
    (core : newseg.core = numbered conv out i) (below : i < out.length)
    (spans : ∀ k ∈ held, Spans base k) (here : Spans base i) :
    Receiving conv out next (arrive i held) got (insertSeg kcp newseg) := by
  have reversed : kcp.rcvBuf.reverse.map IkcpSeg.core = held.reverse.map (numbered conv out) := by
    rw [List.map_reverse, List.map_reverse, receiving.buf]
  have inserted := insertFromBack_numbered core reversed
    (fun k member => spans k (List.mem_reverse.mp member)) here
  have arrived : ∀ j ∈ arrive i held, j < out.length := by
    intro j member
    rcases mem_arrive.mp member with isNew | old
    · rw [isNew]
      exact below
    · exact receiving.below j old
  unfold insertSeg
  cases found : insertFromBack newseg kcp.rcvBuf.reverse with
  | none =>
      rw [found] at inserted
      cases number : insertNumber i held.reverse with
      | some ns' => simp [number] at inserted
      | none =>
          have same : arrive i held = held := by simp only [arrive, number]
          rw [same]
          exact receiving
  | some segs =>
      rw [found] at inserted
      cases number : insertNumber i held.reverse with
      | none => simp [number] at inserted
      | some ns' =>
          rw [number] at inserted
          have same : segs.map IkcpSeg.core = ns'.map (numbered conv out) :=
            Option.some.inj inserted
          refine ⟨receiving.nxt, receiving.le, receiving.queue, ?_, arrived, receiving.count,
            receiving.room⟩
          simp only [arrive, number, List.map_reverse, same]

/-- The range check of `ikcp_parse_data`, which `ikcp_input` makes as well. -/
def inWindow (kcp : Ikcpcb) (sn : UInt32) : Prop :=
  itimediff sn (kcp.rcvNxt + kcp.rcvWnd) < 0 ∧ itimediff sn kcp.rcvNxt ≥ 0

/-- A segment inside the window is in one of the queues afterwards. -/
theorem ikcpParseData_moves (suited : Suited conv kcp.params)
    (receiving : Receiving conv out next held got kcp)
    (core : newseg.core = numbered conv out i) (below : i < out.length)
    (spans : ∀ k ∈ held, Spans base k) (here : Spans base i) (low : base ≤ next)
    (high : next ≤ base + 2 ^ 31) (inside : inWindow kcp newseg.sn) :
    ∃ k, Moves conv out next (arrive i held) got k (ikcpParseData kcp newseg) := by
  have suited' : Suited conv (insertSeg kcp newseg).params := by
    unfold insertSeg
    split <;> exact suited
  have shape : ikcpParseData kcp newseg =
      moveToRcvQueue (insertSeg kcp newseg).rcvBuf (insertSeg kcp newseg) := by
    have checked : ¬ (itimediff newseg.sn (kcp.rcvNxt + kcp.rcvWnd) ≥ 0 ∨
        itimediff newseg.sn kcp.rcvNxt < 0) := by
      obtain ⟨upper, lower⟩ := inside
      omega
    unfold ikcpParseData
    rw [if_neg checked]
    rfl
  rw [shape]
  apply moveToRcvQueue_moves base _ suited'
    (insertSeg_receiving receiving core below spans here) _ low high
  intro k member
  rcases mem_arrive.mp member with isNew | old
  · rw [isNew]
    exact here
  · exact spans k old

end Data

end AsioKcp.Ikcp
