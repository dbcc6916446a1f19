import Mathlib.Tactic

/-! # A sliding window between two ends that hear each other in order

A sender numbers what it sends and keeps what is not acknowledged; a receiver
takes what lies within `w` of the next number that it waits for.  Both
directions deliver in order.  The numbers in flight then stay close to where the
two ends stand, however far these have come, and nothing that was sent is lost. -/
set_option autoImplicit false

namespace AsioKcp.Window

/-- `room` is what the sender has last heard of the receiver's queue. -/
structure Sender where
  out : Nat
  live : List Nat
  room : Bool

/-- `owed` are the numbers still to be acknowledged. -/
structure Receiver where
  next : Nat
  held : List Nat
  owed : List Nat

/-- A message, with how far its sender had come as a sender: `out`, and a number
`due` below which it had sent everything. -/
structure Note where
  push : Option Nat
  ack : Option Nat
  next : Nat
  room : Bool
  out : Nat
  due : Nat
  deriving Inhabited

/-- The oldest number that is not acknowledged. -/
def Sender.una (s : Sender) : Nat := s.live.headD s.out

def Sender.Acked (s : Sender) (i : Nat) : Prop := i < s.out ∧ i ∉ s.live

def Sender.number (s : Sender) (k : Nat) : Sender :=
  { s with out := s.out + k, live := s.live ++ List.range' s.out k }

def Receiver.Has (r : Receiver) (i : Nat) : Prop := i < r.next ∨ i ∈ r.held

variable {w : Nat}

structure Sender.Ordered (w : Nat) (s : Sender) : Prop where
  sorted : s.live.Pairwise (· < ·)
  below : ∀ i ∈ s.live, i < s.out
  narrow : s.out ≤ s.una + w

structure Receiver.Ordered (w : Nat) (r : Receiver) : Prop where
  sorted : r.held.Pairwise (· < ·)
  span : ∀ i ∈ r.held, r.next ≤ i ∧ i < r.next + w

theorem Sender.Ordered.una_le_out {s : Sender} (ordered : s.Ordered w) : s.una ≤ s.out := by
  unfold una
  cases live : s.live with
  | nil => exact Nat.le_refl _
  | cons first rest =>
      have below := ordered.below first (by simp [live])
      exact Nat.le_of_lt below

theorem Sender.Ordered.una_le {s : Sender} (ordered : s.Ordered w) {i : Nat} (isLive : i ∈ s.live) :
    s.una ≤ i := by
  have sorted := ordered.sorted
  unfold una
  cases live : s.live with
  | nil => simp [live] at isLive
  | cons first rest =>
      rw [live] at isLive sorted
      rcases List.mem_cons.mp isLive with rfl | later
      · exact Nat.le_refl _
      · exact Nat.le_of_lt (List.rel_of_pairwise_cons sorted later)

theorem Sender.Ordered.acked_of_lt {s : Sender} (ordered : s.Ordered w) {i : Nat}
    (below : i < s.una) : s.Acked i := by
  have least := ordered.una_le_out
  refine ⟨by omega, fun isLive => ?_⟩
  have := ordered.una_le isLive
  omega

/-- A number that is not acknowledged lies at or above the oldest one. -/
theorem Sender.Ordered.una_le_of_not_acked {s : Sender} (ordered : s.Ordered w) {i : Nat}
    (unacked : ¬ s.Acked i) : s.una ≤ i := by
  by_contra below
  exact unacked (ordered.acked_of_lt (by omega))

theorem Sender.Ordered.una_le_left {s s' : Sender} (ordered : s.Ordered w) (out : s'.out = s.out)
    (fewer : s'.live.Sublist s.live) : s.una ≤ s'.una := by
  cases live : s'.live with
  | nil =>
      rw [show s'.una = s'.out by rw [una, live]; rfl, out]
      exact ordered.una_le_out
  | cons first rest =>
      rw [show s'.una = first by rw [una, live]; rfl]
      exact ordered.una_le (fewer.subset (by simp [live]))

/-- Acknowledgements only leave some of the live numbers. -/
theorem Sender.Ordered.left {s s' : Sender} (ordered : s.Ordered w) (out : s'.out = s.out)
    (fewer : s'.live.Sublist s.live) : s'.Ordered w where
  sorted := ordered.sorted.sublist fewer
  below := by
    intro i isLive
    rw [out]
    exact ordered.below i (fewer.subset isLive)
  narrow := by
    have narrow := ordered.narrow
    have above := ordered.una_le_left out fewer
    omega

theorem Sender.number_acked (s : Sender) (k i : Nat) : (s.number k).Acked i ↔ s.Acked i := by
  simp only [Acked, number, List.mem_append, List.mem_range'_1, not_or]
  constructor
  · rintro ⟨below, old, new⟩
    exact ⟨by omega, old⟩
  · rintro ⟨below, old⟩
    exact ⟨by omega, old, by omega⟩

theorem Sender.number_una (s : Sender) (k : Nat) : (s.number k).una = s.una := by
  unfold una Sender.number
  cases s.live with
  | cons first rest => rfl
  | nil =>
      cases k with
      | zero => rfl
      | succ k => rfl

theorem Sender.Ordered.number {s : Sender} (ordered : s.Ordered w) {k : Nat}
    (fits : k = 0 ∨ s.out + k ≤ s.una + w) : (s.number k).Ordered w where
  sorted := by
    refine List.pairwise_append.mpr ⟨ordered.sorted, List.pairwise_lt_range', ?_⟩
    intro i old j new
    have below := ordered.below i old
    have := (List.mem_range'_1.mp new).1
    omega
  below := by
    intro i isLive
    change i < s.out + k
    rcases List.mem_append.mp isLive with old | new
    · have := ordered.below i old
      omega
    · exact (List.mem_range'_1.mp new).2
  narrow := by
    have narrow := ordered.narrow
    rw [s.number_una]
    change s.out + k ≤ s.una + w
    omega

/-! ## The receiver's numbers -/

/-- `r'` has what `r` has, and the number `push`. -/
structure Receiver.Gains (w : Nat) (r : Receiver) (push : Option Nat) (r' : Receiver) : Prop where
  ordered : r'.Ordered w
  next : r.next ≤ r'.next
  has : ∀ i, r'.Has i ↔ r.Has i ∨ push = some i
  owed : ∀ j ∈ r'.owed, j ∈ r.owed ∨ push = some j

theorem Receiver.Gains.same {r : Receiver} (ordered : r.Ordered w) : r.Gains w none r :=
  ⟨ordered, Nat.le_refl _, by simp, fun j owed => Or.inl owed⟩

/-- The `k` numbers from `next` on leave those held. -/
theorem Receiver.Ordered.drop {next k : Nat} {held owed owed' : List Nat}
    (ordered : Receiver.Ordered w ⟨next, held, owed⟩) (taken : held.take k = List.range' next k) :
    Receiver.Ordered w ⟨next + k, held.drop k, owed'⟩ where
  sorted := ordered.sorted.sublist (List.drop_sublist k held)
  span := by
    intro i isHeld
    obtain ⟨low, high⟩ := ordered.span i (List.mem_of_mem_drop isHeld)
    have sorted := ordered.sorted
    refine ⟨?_, Nat.lt_of_lt_of_le high (by simp only; omega)⟩
    change next + k ≤ i
    cases k with
    | zero => exact low
    | succ k =>
        change held.Pairwise (· < ·) at sorted
        rw [← List.take_append_drop (k + 1) held, taken] at sorted
        have last : next + k ∈ List.range' next (k + 1) := List.mem_range'_1.mpr ⟨by omega, by omega⟩
        have := (List.pairwise_append.mp sorted).2.2 (next + k) last i isHeld
        omega

theorem Receiver.has_drop {next k i : Nat} {held owed owed' : List Nat}
    (taken : held.take k = List.range' next k) :
    Receiver.Has ⟨next + k, held.drop k, owed'⟩ i ↔ Receiver.Has ⟨next, held, owed⟩ i := by
  have split : i ∈ held ↔ (next ≤ i ∧ i < next + k) ∨ i ∈ held.drop k := by
    conv_lhs => rw [← List.take_append_drop k held, taken]
    rw [List.mem_append, List.mem_range'_1]
  simp only [Has, split]
  constructor
  · rintro (below | isHeld)
    · by_cases old : i < next
      · exact Or.inl old
      · exact Or.inr (Or.inl ⟨by omega, below⟩)
    · exact Or.inr (Or.inr isHeld)
  · rintro (below | ⟨_, below⟩ | isHeld)
    · exact Or.inl (by omega)
    · exact Or.inl below
    · exact Or.inr isHeld

theorem Receiver.Ordered.next_not_held {r : Receiver} (ordered : r.Ordered w)
    (absent : r.held.head? ≠ some r.next) : r.next ∉ r.held := by
  intro isHeld
  have sorted := ordered.sorted
  cases held : r.held with
  | nil => simp [held] at isHeld
  | cons first rest =>
      rw [held] at isHeld sorted absent
      rcases List.mem_cons.mp isHeld with same | later
      · exact absent (by rw [same]; rfl)
      · have above := List.rel_of_pairwise_cons sorted later
        have := (ordered.span first (by simp [held])).1
        omega

/-! ## The invariant -/

/-- How the two ends of one direction stand to each other. -/
structure Ends (w : Nat) (s : Sender) (r : Receiver) : Prop where
  sender : s.Ordered w
  receiver : r.Ordered w
  below : ∀ i, r.Has i → i < s.out
  acked : ∀ i, s.Acked i → r.Has i
  window : s.out ≤ r.next + w
  credit : s.room = true → s.una ≤ r.next

/-- What the sender has sent and the receiver has not heard yet. -/
structure Sends (w : Nat) (s : Sender) (r : Receiver) (flight : List Note) : Prop where
  out_le : ∀ n ∈ flight, n.out ≤ s.out
  ahead : ∀ n ∈ flight, ∀ i, r.Has i → i < n.out
  close : ∀ n ∈ flight, ∀ i, n.push = some i → i < n.out ∧ n.out ≤ i + w
  ordered : flight.Pairwise (·.out ≤ ·.out)
  reaches : ∀ i < s.out, r.Has i ∨ ∃ n ∈ flight, n.push = some i
  due : ∀ before n after, flight = before ++ n :: after → ∀ i < n.due,
    r.Has i ∨ ∃ n' ∈ before, n'.push = some i

/-- What the receiver has answered and the sender has not heard yet. -/
structure Answers (w : Nat) (s : Sender) (r : Receiver) (flight : List Note) : Prop where
  next_le : ∀ n ∈ flight, n.next ≤ r.next
  has : ∀ n ∈ flight, ∀ j, n.ack = some j → r.Has j ∧ j < n.next + w ∧ n.next ≤ j + 3 * w
  known : ∀ n ∈ flight, ∀ i, s.Acked i → i < n.next + w
  room : ∀ n ∈ flight, n.room = true → ¬ s.Acked n.next ∧ n.ack ≠ some n.next
  ordered : flight.Pairwise fun n n' => n.next ≤ n'.next ∧ (n'.room = true → n.ack ≠ some n'.next)
  /-- Nothing has been acknowledged far beyond `base`, and what is owed came
  after it. -/
  owed : ∃ base ≤ r.next, (∀ n ∈ flight, n.next ≤ base) ∧ (∀ i, s.Acked i → i < base + w) ∧
    ∀ j ∈ r.owed, r.Has j ∧ base ≤ j + w

/-- One direction: `there` is in flight to the receiver, `back` to the sender. -/
structure Way (w : Nat) (s : Sender) (r : Receiver) (there back : List Note) : Prop where
  ends : Ends w s r
  sends : Sends w s r there
  answers : Answers w s r back

section Bounds
variable {s : Sender} {r : Receiver} {flight : List Note}

theorem next_le_of_below {r : Receiver} {n : Nat} (below : ∀ i, r.Has i → i < n) : r.next ≤ n := by
  cases next : r.next with
  | zero => exact Nat.zero_le _
  | succ k => exact below k (Or.inl (by omega))

theorem Ends.next_le (ends : Ends w s r) : r.next ≤ s.out := next_le_of_below ends.below

theorem Receiver.Ordered.has_lt (ordered : r.Ordered w) (positive : 0 < w) {i : Nat}
    (has : r.Has i) : i < r.next + w := by
  rcases has with taken | isHeld
  · omega
  · exact (ordered.span i isHeld).2

/-- A number in flight lies within the window, and not far behind it. -/
theorem push_near (ends : Ends w s r) (sends : Sends w s r flight) {n : Note} (member : n ∈ flight)
    {i : Nat} (push : n.push = some i) : i < r.next + w ∧ r.next ≤ i + w := by
  obtain ⟨below, high⟩ := sends.close n member i push
  have out := sends.out_le n member
  have next := next_le_of_below (sends.ahead n member)
  have window := ends.window
  constructor <;> omega

theorem una_le_of_known (ends : Ends w s r) {bound : Nat} (known : ∀ i, s.Acked i → i < bound) :
    s.una ≤ bound := by
  cases una : s.una with
  | zero => exact Nat.zero_le _
  | succ k => exact known k (ends.sender.acked_of_lt (by omega))

/-- The `next` of an answer in flight lies close to every live number. -/
theorem next_near (ends : Ends w s r) (answers : Answers w s r flight) {n : Note}
    (member : n ∈ flight) : s.una ≤ n.next + w ∧ n.next ≤ s.una + w := by
  have una := una_le_of_known ends (answers.known n member)
  have next := answers.next_le n member
  have out := ends.next_le
  have narrow := ends.sender.narrow
  exact ⟨una, by omega⟩

/-- So does the number that it acknowledges. -/
theorem ack_near (ends : Ends w s r) (answers : Answers w s r flight) {n : Note}
    (member : n ∈ flight) {j : Nat} (ack : n.ack = some j) :
    s.una ≤ j + 4 * w ∧ j ≤ s.una + 2 * w := by
  obtain ⟨una, next⟩ := next_near ends answers member
  obtain ⟨_, high, low⟩ := answers.has n member j ack
  constructor <;> omega

end Bounds

/-! ## The steps -/

section Steps
variable {s s' : Sender} {r r' : Receiver} {there back : List Note}

theorem way_start : Way w ⟨0, [], true⟩ ⟨0, [], []⟩ [] [] where
  ends := by
    refine ⟨⟨List.Pairwise.nil, ?_, Nat.zero_le _⟩, ⟨List.Pairwise.nil, ?_⟩, ?_, ?_, Nat.zero_le _,
      fun _ => Nat.le_refl _⟩
    · simp
    · simp
    · simp [Receiver.Has]
    · simp [Sender.Acked]
  sends := ⟨by simp, by simp, by simp, List.Pairwise.nil, by simp, by simp⟩
  answers := ⟨by simp, by simp, by simp, by simp, List.Pairwise.nil,
    0, Nat.le_refl _, by simp, by simp [Sender.Acked], by simp⟩

/-- The sender sends more messages, having perhaps numbered something. -/
theorem Sends.append {flight notes : List Note} (sends : Sends w s r flight) (grown : s.out ≤ s'.out)
    (below : ∀ i, r.Has i → i < s'.out) (out : ∀ n ∈ notes, n.out = s'.out)
    (due : ∀ n ∈ notes, n.due ≤ s.out)
    (close : ∀ n ∈ notes, ∀ i, n.push = some i → i < s'.out ∧ s'.out ≤ i + w)
    (all : ∀ i, s.out ≤ i → i < s'.out → ∃ n ∈ notes, n.push = some i) :
    Sends w s' r (flight ++ notes) where
  out_le := by
    intro n member
    rcases List.mem_append.mp member with old | new
    · exact Nat.le_trans (sends.out_le n old) grown
    · exact Nat.le_of_eq (out n new)
  ahead := by
    intro n member i has
    rcases List.mem_append.mp member with old | new
    · exact sends.ahead n old i has
    · rw [out n new]
      exact below i has
  close := by
    intro n member i push
    rcases List.mem_append.mp member with old | new
    · exact sends.close n old i push
    · rw [out n new]
      exact close n new i push
  ordered := by
    refine List.pairwise_append.mpr ⟨sends.ordered, ?_, fun n old n' new => ?_⟩
    · refine List.pairwise_iff_forall_sublist.mpr fun {n n'} pair => ?_
      rw [out n (pair.subset (by simp)), out n' (pair.subset (by simp))]
    · rw [out n' new]
      exact Nat.le_trans (sends.out_le n old) grown
  reaches := by
    intro i inside
    by_cases old : i < s.out
    · rcases sends.reaches i old with has | ⟨n, member, push⟩
      · exact Or.inl has
      · exact Or.inr ⟨n, List.mem_append_left _ member, push⟩
    · obtain ⟨n, member, push⟩ := all i (by omega) inside
      exact Or.inr ⟨n, List.mem_append_right _ member, push⟩
  due := by
    -- Before a new message stands everything that was in flight.
    have reached : ∀ n ∈ notes, ∀ before, flight <+: before → ∀ i < n.due,
        r.Has i ∨ ∃ n' ∈ before, n'.push = some i := by
      intro n new before behind i low
      rcases sends.reaches i (Nat.lt_of_lt_of_le low (due n new)) with has | ⟨n', member, push⟩
      · exact Or.inl has
      · exact Or.inr ⟨n', behind.subset member, push⟩
    intro before n after shape
    rcases List.append_eq_append_iff.mp shape with ⟨more, rfl, rest⟩ | ⟨more, shape', rest⟩
    · exact reached n (by rw [rest]; simp) _ (List.prefix_append _ _)
    · cases more with
      | nil =>
          rw [List.append_nil] at shape'
          have new : n ∈ notes := by
            rw [List.nil_append] at rest
            rw [← rest]
            exact List.mem_cons_self ..
          exact reached n new before (shape' ▸ List.prefix_refl _)
      | cons first others =>
          obtain ⟨rfl, _⟩ := List.cons.inj rest
          exact sends.due before n others shape'

/-- The receiver answers, with `base` in every answer. -/
theorem Answers.append {flight notes : List Note} (answers : Answers w s r flight) {base : Nat}
    (has : ∀ i, r'.Has i ↔ r.Has i) (next : r'.next = r.next) (low : base ≤ r.next)
    (behind : ∀ n ∈ flight, n.next ≤ base) (acked : ∀ i, s.Acked i → r.Has i)
    (known : ∀ i, s.Acked i → i < base + w) (tells : ∀ n ∈ notes, n.next = base)
    (acks : ∀ n ∈ notes, ∀ j, n.ack = some j → r.Has j ∧ j < base + w ∧ base ≤ j + 3 * w)
    (absent : ∀ n ∈ notes, n.room = true → ¬ r.Has base)
    (owed : ∀ j ∈ r'.owed, r.Has j ∧ base ≤ j + w) : Answers w s r' (flight ++ notes) where
  next_le := by
    intro n member
    rw [next]
    rcases List.mem_append.mp member with old | new
    · exact answers.next_le n old
    · rw [tells n new]
      exact low
  has := by
    intro n member j ack
    rw [has]
    rcases List.mem_append.mp member with old | new
    · exact answers.has n old j ack
    · rw [tells n new]
      exact acks n new j ack
  known := by
    intro n member i isAcked
    rcases List.mem_append.mp member with old | new
    · exact answers.known n old i isAcked
    · rw [tells n new]
      exact known i isAcked
  room := by
    intro n member free
    rcases List.mem_append.mp member with old | new
    · exact answers.room n old free
    · rw [tells n new]
      have unknown := absent n new free
      exact ⟨fun isAcked => unknown (acked _ isAcked), fun ack => unknown (acks n new _ ack).1⟩
  ordered := by
    refine List.pairwise_append.mpr ⟨answers.ordered, ?_, fun n old n' new => ?_⟩
    · refine List.pairwise_iff_forall_sublist.mpr fun {n n'} pair => ?_
      have first : n ∈ notes := pair.subset (by simp)
      have second : n' ∈ notes := pair.subset (by simp)
      rw [tells n first, tells n' second]
      exact ⟨Nat.le_refl _, fun free ack => absent n' second free (acks n first _ ack).1⟩
    · rw [tells n' new]
      exact ⟨behind n old, fun free ack => absent n' new free (answers.has n old _ ack).1⟩
  owed := by
    refine ⟨base, by rw [next]; exact low, fun n member => ?_, known, fun j isOwed => ?_⟩
    · rcases List.mem_append.mp member with old | new
      · exact behind n old
      · exact Nat.le_of_eq (tells n new)
    · rw [has]
      exact owed j isOwed

/-- The sender numbers `k` more, and sends them along with whatever is live. -/
theorem Way.number (way : Way w s r there back) {k : Nat} {notes : List Note}
    (fits : k = 0 ∨ s.room = true ∧ s.out + k ≤ s.una + w)
    (sent : ∀ n ∈ notes, n.out = s.out + k ∧ n.due = 0 ∧
      ∀ i, n.push = some i → i ∈ (s.number k).live)
    (all : ∀ i, s.out ≤ i → i < s.out + k → ∃ n ∈ notes, n.push = some i) :
    Way w (s.number k) r (there ++ notes) back := by
  obtain ⟨ends, sends, answers⟩ := way
  have ordered : (s.number k).Ordered w := ends.sender.number (fits.imp_right And.right)
  have una : (s.number k).una = s.una := s.number_una k
  have acked : ∀ i, (s.number k).Acked i ↔ s.Acked i := s.number_acked k
  have grown : s.out ≤ (s.number k).out := Nat.le_add_right _ _
  have below : ∀ i, r.Has i → i < (s.number k).out := fun i has =>
    Nat.lt_of_lt_of_le (ends.below i has) grown
  refine ⟨⟨ordered, ends.receiver, below, fun i isAcked => ?_, ?_, ?_⟩,
    sends.append grown below (fun n new => (sent n new).1) (fun n new => ?_) (fun n new i push => ?_)
      all, ?_⟩
  · exact ends.acked i ((acked i).mp isAcked)
  · change s.out + k ≤ r.next + w
    rcases fits with none | ⟨room, fits⟩
    · have := ends.window
      omega
    · have := ends.credit room
      omega
  · rw [una]
    exact ends.credit
  · rw [(sent n new).2.1]
    exact Nat.zero_le _
  · have isLive := (sent n new).2.2 i push
    have low := ordered.una_le isLive
    have narrow := ordered.narrow
    exact ⟨ordered.below i isLive, by omega⟩
  · obtain ⟨base, low, notes, high, owed⟩ := answers.owed
    refine ⟨answers.next_le, answers.has, fun n member i isAcked => ?_, fun n member room => ?_,
      answers.ordered, base, low, notes, fun i isAcked => high i ((acked i).mp isAcked), owed⟩
    · exact answers.known n member i ((acked i).mp isAcked)
    · rw [acked]
      exact answers.room n member room

/-- The receiver acknowledges what it owes. -/
theorem Way.answer (way : Way w s r there back) (positive : 0 < w) {notes : List Note}
    (answered : ∀ n ∈ notes, n.next = r.next ∧ (∀ j, n.ack = some j → j ∈ r.owed) ∧
      (n.room = true → r.next ∉ r.held)) :
    Way w s { r with owed := [] } there (back ++ notes) := by
  obtain ⟨ends, sends, answers⟩ := way
  obtain ⟨base, low, notes_le, high, owed⟩ := answers.owed
  have known : ∀ i, s.Acked i → i < r.next + w := fun i isAcked =>
    ends.receiver.has_lt positive (ends.acked i isAcked)
  refine ⟨⟨ends.sender, ⟨ends.receiver.sorted, ends.receiver.span⟩, ends.below, ends.acked,
    ends.window, ends.credit⟩, ⟨sends.out_le, sends.ahead, sends.close, sends.ordered,
    sends.reaches, sends.due⟩, answers.append (fun _ => Iff.rfl) rfl (Nat.le_refl _)
      answers.next_le ends.acked known (fun n new => (answered n new).1) ?_ ?_ nofun⟩
  · intro n new j ack
    obtain ⟨has, after⟩ := owed j ((answered n new).2.1 j ack)
    have una := una_le_of_known ends high
    have narrow := ends.sender.narrow
    have next_le := ends.next_le
    exact ⟨has, ends.receiver.has_lt positive has, by omega⟩
  · rintro n new room (taken | isHeld)
    · exact Nat.lt_irrefl _ taken
    · exact (answered n new).2.2 room isHeld

/-- The sender hears an answer. -/
theorem Way.hear_answer {n : Note} (way : Way w s r there (n :: back)) (out : s'.out = s.out)
    (fewer : s'.live.Sublist s.live)
    (dropped : ∀ i ∈ s.live, i ∈ s'.live ∨ i < n.next ∨ n.ack = some i)
    (room : s'.room = n.room) : Way w s' r there back := by
  obtain ⟨ends, sends, answers⟩ := way
  have first : n ∈ n :: back := List.mem_cons_self ..
  obtain ⟨before, ordered⟩ := List.pairwise_cons.mp answers.ordered
  have sender : s'.Ordered w := ends.sender.left out fewer
  -- What is acknowledged now was so before, or the answer says it.
  have acked : ∀ i, s'.Acked i → s.Acked i ∨ i < n.next ∨ n.ack = some i := by
    rintro i ⟨below, gone⟩
    rw [out] at below
    by_cases isLive : i ∈ s.live
    · exact Or.inr ((dropped i isLive).resolve_left gone)
    · exact Or.inl ⟨below, isLive⟩
  have has : ∀ i, s'.Acked i → r.Has i := by
    intro i isAcked
    rcases acked i isAcked with old | below | ack
    · exact ends.acked i old
    · exact Or.inl (Nat.lt_of_lt_of_le below (answers.next_le n first))
    · exact (answers.has n first i ack).1
  have known : ∀ bound, n.next ≤ bound → (∀ i, s.Acked i → i < bound + w) →
      ∀ i, s'.Acked i → i < bound + w := by
    intro bound low high i isAcked
    rcases acked i isAcked with old | below | ack
    · exact high i old
    · omega
    · have := (answers.has n first i ack).2.1
      omega
  have unacked : ∀ x, n.next ≤ x → ¬ s.Acked x → n.ack ≠ some x → ¬ s'.Acked x := by
    intro x low old ack isAcked
    rcases acked x isAcked with before | below | said
    · exact old before
    · omega
    · exact ack said
  refine ⟨⟨sender, ends.receiver, ?_, has, ?_, fun free => ?_⟩, ⟨?_, sends.ahead, sends.close,
    sends.ordered, ?_, sends.due⟩, ⟨fun m later => ?_, fun m later => ?_, fun m later => ?_,
    fun m later free => ?_, ordered, ?_⟩⟩
  · rw [out]
    exact ends.below
  · rw [out]
    exact ends.window
  · rw [room] at free
    obtain ⟨old, ack⟩ := answers.room n first free
    have una := sender.una_le_of_not_acked (unacked n.next (Nat.le_refl _) old ack)
    exact Nat.le_trans una (answers.next_le n first)
  · rw [out]
    exact sends.out_le
  · rw [out]
    exact sends.reaches
  · exact answers.next_le m (List.mem_cons_of_mem _ later)
  · exact answers.has m (List.mem_cons_of_mem _ later)
  · exact known m.next (before m later).1 (answers.known m (List.mem_cons_of_mem _ later))
  · obtain ⟨old, ack⟩ := answers.room m (List.mem_cons_of_mem _ later) free
    obtain ⟨low, other⟩ := before m later
    exact ⟨unacked m.next low old (other free), ack⟩
  · obtain ⟨base, low, notes, high, owed⟩ := answers.owed
    exact ⟨base, low, fun m later => notes m (List.mem_cons_of_mem _ later),
      known base (notes n first) high, owed⟩

theorem Ends.gains {push : Option Nat} (ends : Ends w s r) (gains : r.Gains w push r')
    (below : ∀ i, push = some i → i < s.out) : Ends w s r' where
  sender := ends.sender
  receiver := gains.ordered
  below := by
    intro i has
    rcases (gains.has i).mp has with old | new
    · exact ends.below i old
    · exact below i new
  acked := fun i isAcked => (gains.has i).mpr (Or.inl (ends.acked i isAcked))
  window := by
    have window := ends.window
    have next := gains.next
    omega
  credit := fun room => Nat.le_trans (ends.credit room) gains.next

theorem Answers.gains {push : Option Nat} (answers : Answers w s r back)
    (gains : r.Gains w push r') (close : ∀ i, push = some i → r.next ≤ i + w) :
    Answers w s r' back where
  next_le := fun n member => Nat.le_trans (answers.next_le n member) gains.next
  has := fun n member j ack => by
    obtain ⟨has, bounds⟩ := answers.has n member j ack
    exact ⟨(gains.has j).mpr (Or.inl has), bounds⟩
  known := answers.known
  room := answers.room
  ordered := answers.ordered
  owed := by
    obtain ⟨base, low, notes, high, owed⟩ := answers.owed
    refine ⟨base, Nat.le_trans low gains.next, notes, high, fun j isOwed => ?_⟩
    rcases gains.owed j isOwed with old | new
    · exact ⟨(gains.has j).mpr (Or.inl (owed j old).1), (owed j old).2⟩
    · have := close j new
      exact ⟨(gains.has j).mpr (Or.inr new), by omega⟩

/-- The receiver hears a message. -/
theorem Way.hear_push {n : Note} (way : Way w s r (n :: there) back)
    (gains : r.Gains w n.push r') : Way w s r' there back := by
  obtain ⟨ends, sends, answers⟩ := way
  have first : n ∈ n :: there := List.mem_cons_self ..
  obtain ⟨before, ordered⟩ := List.pairwise_cons.mp sends.ordered
  have out := sends.out_le n first
  have near : ∀ i, n.push = some i → r.next ≤ i + w := fun i push =>
    (push_near ends sends first push).2
  have below : ∀ i, n.push = some i → i < s.out := fun i push =>
    Nat.lt_of_lt_of_le (sends.close n first i push).1 out
  have arrives : ∀ (flight : List Note) (i : Nat), (r.Has i ∨ ∃ m ∈ n :: flight, m.push = some i) →
      r'.Has i ∨ ∃ m ∈ flight, m.push = some i := by
    rintro flight i (has | ⟨m, member, push⟩)
    · exact Or.inl ((gains.has i).mpr (Or.inl has))
    · rcases List.mem_cons.mp member with rfl | later
      · exact Or.inl ((gains.has i).mpr (Or.inr push))
      · exact Or.inr ⟨m, later, push⟩
  refine ⟨ends.gains gains below, ⟨fun m later => ?_, fun m later i has => ?_, fun m later => ?_,
    ordered, fun i low => ?_, ?_⟩, answers.gains gains near⟩
  · exact sends.out_le m (List.mem_cons_of_mem _ later)
  · rcases (gains.has i).mp has with old | new
    · exact sends.ahead m (List.mem_cons_of_mem _ later) i old
    · exact Nat.lt_of_lt_of_le (sends.close n first i new).1 (before m later)
  · exact sends.close m (List.mem_cons_of_mem _ later)
  · exact arrives there i (sends.reaches i low)
  · intro earlier m after shape i low
    exact arrives earlier i
      (sends.due (n :: earlier) m after (by rw [shape, List.cons_append]) i low)

/-- A message without a push leaves the receiver where it is. -/
theorem Way.hear_none {n : Note} (way : Way w s r (n :: there) back) (push : n.push = none) :
    Way w s r there back := by
  have same : r.Gains w n.push r := by
    rw [push]
    exact .same way.ends.receiver
  exact way.hear_push same

/-- The receiver moves on with what it has. -/
theorem Way.advance (way : Way w s r there back) (gains : r.Gains w none r') :
    Way w s r' there back := by
  obtain ⟨ends, sends, answers⟩ := way
  have has : ∀ i, r'.Has i ↔ r.Has i := by simpa using gains.has
  refine ⟨ends.gains gains nofun, ⟨sends.out_le, ?_, sends.close, sends.ordered, ?_, ?_⟩,
    answers.gains gains nofun⟩
  · simpa only [has] using sends.ahead
  · simpa only [has] using sends.reaches
  · simpa only [has] using sends.due

/-- The sender tells that it is done. -/
theorem Way.mark_sent (way : Way w s r there back) {n : Note} (push : n.push = none)
    (out : n.out = s.out) (due : n.due ≤ s.out) : Way w s r (there ++ [n]) back := by
  obtain ⟨ends, sends, answers⟩ := way
  refine ⟨ends, sends.append (Nat.le_refl _) ends.below ?_ ?_ ?_ ?_, answers⟩
  · intro m new
    rw [List.mem_singleton.mp new]
    exact out
  · intro m new
    rw [List.mem_singleton.mp new]
    exact due
  · intro m new i pushed
    rw [List.mem_singleton.mp new, push] at pushed
    cases pushed
  · intro i low high
    omega

/-- The same message on the way back acknowledges nothing. -/
theorem Way.mark_answered (way : Way w s r there back) :
    ∃ base, ∀ n : Note, n.next = base → n.ack = none → n.room = false →
      Way w s r there (back ++ [n]) := by
  obtain ⟨ends, sends, answers⟩ := way
  obtain ⟨base, low, notes, high, owed⟩ := answers.owed
  refine ⟨base, fun n next ack room => ⟨ends, sends, answers.append (fun _ => Iff.rfl) rfl low notes
    ends.acked high ?_ ?_ ?_ owed⟩⟩
  · intro m new
    rw [List.mem_singleton.mp new]
    exact next
  · intro m new j said
    rw [List.mem_singleton.mp new, ack] at said
    cases said
  · intro m new free
    rw [List.mem_singleton.mp new, room] at free
    cases free

/-- The sender does not look at a message that comes back. -/
theorem Way.skip_answer {n : Note} (way : Way w s r there (n :: back)) : Way w s r there back := by
  obtain ⟨ends, sends, answers⟩ := way
  have later : ∀ m ∈ back, m ∈ n :: back := fun m => List.mem_cons_of_mem n
  obtain ⟨base, low, notes, high, owed⟩ := answers.owed
  exact ⟨ends, sends, ⟨fun m member => answers.next_le m (later m member),
    fun m member => answers.has m (later m member), fun m member => answers.known m (later m member),
    fun m member => answers.room m (later m member), (List.pairwise_cons.mp answers.ordered).2,
    base, low, fun m member => notes m (later m member), high, owed⟩⟩

/-- When the receiver hears that the sender is done, it has exactly what was due. -/
theorem Way.complete {n : Note} (way : Way w s r (n :: there) back) (due : n.due = n.out) (i : Nat) :
    r.Has i ↔ i < n.due := by
  constructor
  · intro has
    rw [due]
    exact way.sends.ahead n (List.mem_cons_self ..) i has
  · intro below
    rcases way.sends.due [] n there rfl i below with has | ⟨m, member, _⟩
    · exact has
    · cases member

end Steps

end AsioKcp.Window
