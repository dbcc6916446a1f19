import AsioKcp.Connection.Frames
import AsioKcp.Ikcp.Flight
import AsioKcp.Pair.System

/-! # A pair whose network keeps the order

Each datagram arrives once, in the order in which it was sent.  What a side has
sent and the other has not heard is then the end of its list of datagrams, and
the two sides stand to each other as the window says, disconnect included. -/
set_option autoImplicit false

namespace AsioKcp

open AsioKcp.Ikcp AsioKcp.Callback AsioKcp.Machine AsioKcp.Window

/-- What a step hears is the next of the datagrams that the other side has sent. -/
def InOrder (sent : List Datagram) (count : Nat) : Option (List UInt8 × Nat) → Prop
  | none => True
  | some received => ∃ d, sent[count]? = some d ∧ d.ArrivedAs received

/-- The users of a transfer out of the side that `closer` names: no buffer that
the other side reads into is longer than an `int` can say, and the writes of
this side are accepted when their turn comes. -/
def Call.Fair (closer : Bool) (l : Local) : Call → Prop
  | .asyncReadSome size => l.conn.isserver ≠ closer → size < 2 ^ 31
  | .asyncWrite buffer => l.conn.isserver = closer → l.conn.writeOp = none → ¬ l.closed →
      buffer.length < 2 ^ 32 ∧ ¬ (l.sendResult buffer).1 < 0
  | _ => True

def userFair (closer : Bool) (l : Local) : Label Event Call → Prop
  | .call k => k.Fair closer l
  | _ => True

/-- `closer` says whether the side in question is the server. -/
def orderly (closer : Bool) : Peering Local Event Call Nat where
  system := connectionSystem
  allows own other label :=
    InOrder other.config.state.env.sent own.note (hears own.config label) ∧
      userFair closer own.config.state label
  mark := countHeard

instance (sent : List Datagram) (count : Nat) (received : Option (List UInt8 × Nat)) :
    Decidable (InOrder sent count received) :=
  match received with
  | none => inferInstanceAs (Decidable True)
  | some received =>
      decidable_of_iff (sent[count]?.any fun d => decide (d.ArrivedAs received))
        (by simp [InOrder, Option.any_eq_true])

instance (closer : Bool) (l : Local) (k : Call) : Decidable (k.Fair closer l) :=
  match k with
  | .asyncReadSome _ => inferInstanceAs (Decidable (_ ≠ _ → _ < _))
  | .asyncRead _ _ => inferInstanceAs (Decidable True)
  | .asyncWrite _ => inferInstanceAs (Decidable (_ = _ → _ = _ → ¬ _ → _ ∧ ¬ _))
  | .close _ => inferInstanceAs (Decidable True)
  | .streambuf _ _ => inferInstanceAs (Decidable True)

instance (closer : Bool) (l : Local) (label : Label Event Call) :
    Decidable (userFair closer l label) :=
  match label with
  | .event _ => inferInstanceAs (Decidable True)
  | .call k => inferInstanceAs (Decidable (k.Fair closer l))
  | .back => inferInstanceAs (Decidable True)
  | .answer _ => inferInstanceAs (Decidable True)
  | .raise => inferInstanceAs (Decidable True)
  | .caught => inferInstanceAs (Decidable True)
  | .unwind => inferInstanceAs (Decidable True)

instance (closer : Bool) (own other : Node Local Nat) (label : Label Event Call) :
    Decidable ((orderly closer).allows own other label) :=
  inferInstanceAs (Decidable (_ ∧ _))

/-- The terms on which both sides run. -/
def orderlyTerms (closer : Bool) : Terms where
  strict := False
  reliable := False
  calls k l := k.Fair closer l
  closes := False.elim

/-- A side that has sent its disconnect: how many segments it had numbered, and
the bytes that waited in `snd_queue` then. -/
structure Farewell where
  due : Nat
  left : List UInt8

/-- The notes of a datagram are those of its segments; that of the disconnect says
how much there is to come before it. -/
inductive Speaks (conv : UInt32) (out : List (List UInt8)) (bye : Option Farewell) (d : Datagram) :
    List Note → Prop
  | data (bytes : List UInt8) (notes : List Note) : d.bytes = opcodeData :: bytes →
      Bears conv out bytes notes → Speaks conv out bye d notes
  | disconnect (n : Note) (farewell : Farewell) :
      d.bytes = opcodeDisconnect :: List.replicate 32 0 → bye = some farewell → n.push = none →
      n.out = farewell.due → n.due = farewell.due → Speaks conv out bye d [n]

/-- One side: its control block, and what its history says of it. -/
structure Account (closer : Bool) (conv : UInt32) (peer : Tally) (s : Standing)
    (bye : Option Farewell) (got accepted : List UInt8) (l : Local) : Prop where
  stands : Stands conv peer s got accepted l.conn.obj
  reads : l.conn.isserver ≠ closer → got = l.conn.delivered
  writes : l.conn.isserver = closer → accepted = l.conn.accepted
  fits : l.conn.isserver ≠ closer → ∀ op, l.conn.readOp = some op → op.Fits
  stays : bye = none ↔ l.conn.disconnectSent = false
  parted : ∀ farewell, bye = some farewell → l.closed ∧ farewell.due ≤ s.tally.out.length ∧
    accepted = (s.tally.out.take farewell.due).flatten ++ farewell.left

/-- One side against the standing `p` of the other, which has heard `count` of its
datagrams; `groups` are the notes of the others, and `back` those on the way here. -/
structure Outlook (closer : Bool) (conv : UInt32) (p : Standing) (count : Nat) (back : List Note)
    (s : Standing) (bye : Option Farewell) (got accepted : List UInt8) (groups : List (List Note))
    (l : Local) : Prop where
  account : Account closer conv p.tally s bye got accepted l
  within : count ≤ l.env.sent.length
  flight : List.Forall₂ (Speaks conv s.tally.out bye) (l.env.sent.drop count) groups
  linked : Linked s p groups.flatten back

/-- A side while a step is under way that began with the numbers `start`, and
perhaps before the disconnect. -/
def Course (closer : Bool) (conv : UInt32) (p : Standing) (count : Nat) (back : List Note)
    (start : Tally) (before : Option Farewell) (l : Local) : Prop :=
  ∃ s bye got accepted groups, start.Later s.tally ∧
    Outlook closer conv p count back s bye got accepted groups l ∧
    (bye = before ∨ before = none ∧ ∃ due, bye = some ⟨due, payload l.conn.obj.sndQueue⟩)

section Local
variable {closer : Bool} {conv : UInt32} {p s s' : Standing} {count : Nat} {back : List Note}
  {start : Tally} {before bye bye' : Option Farewell} {got got' accepted accepted' : List UInt8}
  {groups more : List (List Note)} {l l' : Local}

theorem Speaks.mono {out out' : List (List UInt8)} (grown : out <+: out')
    (later : ∀ farewell, bye = some farewell → bye' = some farewell) {d : Datagram}
    {notes : List Note} (speaks : Speaks conv out bye d notes) : Speaks conv out' bye' d notes := by
  cases speaks with
  | data bytes _ shape bears => exact .data bytes _ shape (bears.mono grown)
  | disconnect n farewell shape said push out due =>
      exact .disconnect n farewell shape (later farewell said) push out due

theorem take_grown {α : Type} {out out' : List α} (grown : out <+: out') {due : Nat}
    (inside : due ≤ out.length) : out'.take due = out.take due := by
  obtain ⟨fresh, rfl⟩ := grown
  exact List.take_append_of_le_length inside

/-- The control block goes on, and the rest of the history stays. -/
theorem Account.moved (account : Account closer conv p.tally s bye got accepted l)
    (later : s.tally.Later s'.tally) (stands : Stands conv p.tally s' got' accepted l'.conn.obj)
    (onward : l'.conn.isserver = l.conn.isserver)
    (delivered : l.conn.isserver ≠ closer → got' = l'.conn.delivered)
    (written : l'.conn.accepted = l.conn.accepted)
    (fits : l.conn.isserver ≠ closer → ∀ op, l'.conn.readOp = some op → op.Fits)
    (closed : l.closed → l'.closed) (said : l'.conn.disconnectSent = l.conn.disconnectSent) :
    Account closer conv p.tally s' bye got' accepted l' where
  stands := stands
  reads := by
    rw [onward]
    exact delivered
  writes := by
    rw [onward, written]
    exact account.writes
  fits := by
    rw [onward]
    exact fits
  stays := by
    rw [said]
    exact account.stays
  parted := by
    intro farewell parts
    obtain ⟨isClosed, inside, whole⟩ := account.parted farewell parts
    have length := later.out.length_le
    refine ⟨closed isClosed, Nat.le_trans inside length, ?_⟩
    rw [take_grown later.out inside]
    exact whole

/-- What is in flight stays true when its sender goes on. -/
theorem Outlook.moved {back' : List Note}
    (outlook : Outlook closer conv p count back s bye got accepted groups l)
    (account : Account closer conv p.tally s' bye got' accepted' l')
    (later : s.tally.Later s'.tally) (sent : l'.env.sent = l.env.sent)
    (linked : Linked s' p groups.flatten back') :
    Outlook closer conv p count back' s' bye got' accepted' groups l' where
  account := account
  within := by
    rw [sent]
    exact outlook.within
  flight := by
    rw [sent]
    exact outlook.flight.imp fun _ _ => Speaks.mono later.out fun _ => id
  linked := linked

theorem Outlook.of_same (outlook : Outlook closer conv p count back s bye got accepted groups l)
    (onward : l'.conn.isserver = l.conn.isserver) (obj : l'.conn.obj = l.conn.obj)
    (delivered : l'.conn.delivered = l.conn.delivered)
    (written : l'.conn.accepted = l.conn.accepted) (sent : l'.env.sent = l.env.sent)
    (closed : l.closed → l'.closed) (said : l'.conn.disconnectSent = l.conn.disconnectSent)
    (readOp : l'.conn.readOp = l.conn.readOp ∨
      (l.conn.isserver ≠ closer → ∀ op, l'.conn.readOp = some op → op.Fits)) :
    Outlook closer conv p count back s bye got accepted groups l' := by
  have account := outlook.account
  refine outlook.moved (account.moved (.refl _) ?_ onward ?_ written ?_ closed said) (.refl _) sent
    outlook.linked
  · rw [obj]
    exact account.stands
  · rw [delivered]
    exact account.reads
  · rcases readOp with same | fits
    · rw [same]
      exact account.fits
    · exact fits

theorem Course.of_same (course : Course closer conv p count back start before l)
    (onward : l'.conn.isserver = l.conn.isserver) (obj : l'.conn.obj = l.conn.obj)
    (delivered : l'.conn.delivered = l.conn.delivered)
    (written : l'.conn.accepted = l.conn.accepted) (sent : l'.env.sent = l.env.sent)
    (closed : l.closed → l'.closed) (said : l'.conn.disconnectSent = l.conn.disconnectSent)
    (readOp : l'.conn.readOp = l.conn.readOp ∨
      (l.conn.isserver ≠ closer → ∀ op, l'.conn.readOp = some op → op.Fits)) :
    Course closer conv p count back start before l' := by
  obtain ⟨s, bye, got, accepted, groups, later, outlook, parting⟩ := course
  refine ⟨s, bye, got, accepted, groups, later,
    outlook.of_same onward obj delivered written sent closed said readOp, ?_⟩
  rw [obj]
  exact parting

/-- An open side has said no farewell. -/
theorem Outlook.open_stays (outlook : Outlook closer conv p count back s bye got accepted groups l)
    (opened : ¬ l.closed) : bye = none := by
  cases bye with
  | none => rfl
  | some farewell => exact absurd (outlook.account.parted farewell rfl).1 opened

/-- The datagrams of a flush join the flight. -/
theorem Outlook.emit {conn : Connection} {datagrams : List (List UInt8)}
    (outlook : Outlook closer conv p count back s bye got accepted groups l)
    (account : Account closer conv p.tally s' bye got accepted ⟨conn, l.env⟩)
    (later : s.tally.Later s'.tally)
    (linked : Linked s' p (groups.flatten ++ more.flatten) back)
    (bears : List.Forall₂ (Bears conv s'.tally.out) datagrams more) :
    Outlook closer conv p count back s' bye got accepted (groups ++ more) ⟨conn, { l.env with
      sent := l.env.sent ++ dataDatagrams l.conn.endpoint datagrams }⟩ where
  account := ⟨account.stands, account.reads, account.writes, account.fits, account.stays,
    account.parted⟩
  within := by
    have within := outlook.within
    dsimp only
    rw [List.length_append]
    omega
  flight := by
    dsimp only
    rw [List.drop_append_of_le_length outlook.within]
    refine List.rel_append (outlook.flight.imp fun _ _ => Speaks.mono later.out fun _ => id) ?_
    rw [dataDatagrams, List.forall₂_map_left_iff]
    exact bears.imp fun bytes notes isBorne => .data bytes notes rfl isBorne
  linked := by
    rw [List.flatten_append]
    exact linked

/-- Before it is closed, a side has said no farewell in this step either. -/
theorem Course.opened (course : Course closer conv p count back start before l)
    (opened : ¬ l.closed) : before = none ∧ ∃ s got accepted groups, start.Later s.tally ∧
      Outlook closer conv p count back s none got accepted groups l := by
  obtain ⟨s, bye, got, accepted, groups, later, outlook, parting⟩ := course
  obtain rfl := outlook.open_stays opened
  refine ⟨?_, s, got, accepted, groups, later, outlook⟩
  rcases parting with same | ⟨none, _, parts⟩
  · exact same.symm
  · exact none

/-! ## The acts -/

/-- A write, refused or not, of an open side. -/
theorem Course.write (course : Course closer conv p count back start before l)
    (opened : ¬ l.closed) (buffer : List UInt8)
    (proper : l.conn.isserver = closer → buffer.length < 2 ^ 32 ∧ ¬ (l.sendResult buffer).1 < 0)
    (onward : l'.conn.isserver = l.conn.isserver)
    (obj : l'.conn.obj = (l.sendResult buffer).2)
    (delivered : l'.conn.delivered = l.conn.delivered)
    (written : l.conn.isserver = closer → l'.conn.accepted = l.conn.accepted ++ buffer)
    (sent : l'.env.sent = l.env.sent) (said : l'.conn.disconnectSent = l.conn.disconnectSent)
    (readOp : l'.conn.readOp = l.conn.readOp) : Course closer conv p count back start before l' := by
  obtain ⟨rfl, s, got, accepted, groups, later, outlook⟩ := course.opened opened
  have account := outlook.account
  have stands : ∃ accepted', Stands conv p.tally s got accepted' l'.conn.obj ∧
      (l.conn.isserver = closer → accepted' = l'.conn.accepted) := by
    rw [obj]
    by_cases isCloser : l.conn.isserver = closer
    · obtain ⟨short, ok⟩ := proper isCloser
      have whole : buffer.take (narrow buffer.length).toNat = buffer := by
        have valid : ¬ narrow buffer.length < 0 := by
          intro negative
          apply ok
          rw [Local.sendResult, ikcpSend, if_pos negative]
          exact Int.negSucc_lt_zero 0
        rw [narrow_of_nonneg short (by omega)]
        exact List.take_of_length_le (Nat.le_refl _)
      have queued := account.stands.send ok
      rw [whole] at queued
      exact ⟨_, queued, fun _ => by rw [account.writes isCloser, written isCloser]⟩
    · obtain ⟨more, queued⟩ := account.stands.send_any buffer (narrow buffer.length)
      exact ⟨_, queued, fun same => absurd same isCloser⟩
  obtain ⟨accepted', stands, writes⟩ := stands
  refine ⟨s, none, got, accepted', groups, later, outlook.moved ⟨stands, ?_, ?_, ?_, ?_, nofun⟩
    (.refl _) sent outlook.linked, Or.inl rfl⟩
  · rw [onward, delivered]
    exact account.reads
  · rw [onward]
    exact writes
  · rw [onward, readOp]
    exact account.fits
  · rw [said]
    exact account.stays

/-- The reads of a poll go on from what has been delivered. -/
theorem Outlook.poll (outlook : Outlook closer conv p count back s bye got accepted groups l)
    (ec : ErrorCode) {op : ReadOperation} (pending : l.conn.readOp = some op) :
    ∃ s' got', s.tally.Later s'.tally ∧
      Stands conv p.tally s' got' accepted (pollRead ec op l).2.conn.obj ∧
      Linked s' p groups.flatten back ∧
      (l.conn.isserver ≠ closer → got' = (pollRead ec op l).2.conn.delivered) := by
  have account := outlook.account
  by_cases isCloser : l.conn.isserver = closer
  · let K (obj : Ikcpcb) : Prop := ∃ s' got', s.tally.Later s'.tally ∧
      Stands conv p.tally s' got' accepted obj ∧ Linked s' p groups.flatten back
    have read : ∀ {obj} (len : Int), K obj → K (ikcpRecv obj len).2.2 := by
      rintro obj len ⟨s', got', later, stands, linked⟩
      by_cases peeks : len < 0
      · rw [stands.peek linked peeks]
        exact ⟨s', got', later, stands, linked⟩
      · obtain ⟨s'', later', stands', linked'⟩ := stands.recv linked peeks
        exact ⟨s'', _, later.trans later', stands', linked'⟩
    have begins : K l.conn.obj := ⟨s, got, .refl _, account.stands, outlook.linked⟩
    obtain ⟨s', got', later, stands, linked⟩ := pollRead_obj read ec op begins
    exact ⟨s', got', later, stands, linked, fun other => absurd isCloser other⟩
  · let P (got : List UInt8) (obj : Ikcpcb) : Prop := ∃ s', s.tally.Later s'.tally ∧
      Stands conv p.tally s' got accepted obj ∧ Linked s' p groups.flatten back
    have read : ∀ got obj (len : Int), ¬ len < 0 → P got obj →
        P (got ++ (ikcpRecv obj len).2.1) (ikcpRecv obj len).2.2 := by
      rintro got obj len whole ⟨s', later, stands, linked⟩
      obtain ⟨s'', later', stands', linked'⟩ := stands.recv linked whole
      exact ⟨s'', later.trans later', stands', linked'⟩
    have begins : P l.conn.delivered l.conn.obj := by
      rw [← account.reads isCloser]
      exact ⟨s, .refl _, account.stands, outlook.linked⟩
    obtain ⟨s', later, stands, linked⟩ :=
      pollRead_invariant read ec (account.fits isCloser op pending) begins
    exact ⟨s', _, later, stands, linked, fun _ => rfl⟩

theorem Course.poll (course : Course closer conv p count back start before l)
    (ec : ErrorCode) {op : ReadOperation} (pending : l.conn.readOp = some op) :
    Course closer conv p count back start before (pollRead ec op l).2 := by
  obtain ⟨s, bye, got, accepted, groups, later, outlook, parting⟩ := course
  obtain ⟨bytes, taken, polled⟩ := pollRead_stream ec op l
  obtain ⟨state, said, _⟩ := pollRead_control ec op l
  have onward : (pollRead ec op l).2.conn.isserver = l.conn.isserver :=
    congrArg (fun identity => identity.2.1) (pollRead_onward ec op l).identity
  have queue : (pollRead ec op l).2.conn.obj.sndQueue = l.conn.obj.sndQueue :=
    congrArg SndSide.sndQueue polled.sndSide
  obtain ⟨s', got', later', stands, linked, reads⟩ := outlook.poll ec pending
  have account := outlook.account.moved later' stands onward reads polled.accepted
    (fun isReader op' pending' => ?_) (fun closed => ?_) said
  · refine ⟨s', bye, got', accepted, groups, later.trans later',
      outlook.moved account later' polled.sent linked, ?_⟩
    rw [queue]
    exact parting
  · rcases pollRead_cases ec op l with ⟨_, _, same⟩ | ⟨_, _, none, _⟩ | ⟨_, none⟩
    · rw [same] at pending'
      exact outlook.account.fits isReader op' pending'
    · rw [none] at pending'
      cases pending'
    · rw [none] at pending'
      cases pending'
  · exact state.trans closed

/-- The flush at the beginning of `close`. -/
theorem Course.beginClose (course : Course closer conv p count back start before l)
    (opened : l.conn.state = .opened) :
    Course closer conv p count back start before l.beginClose := by
  have isOpen : ¬ l.closed := by
    intro closed
    rw [Local.closed, opened] at closed
    cases closed
  obtain ⟨rfl, s, got, accepted, groups, later, outlook⟩ := course.opened isOpen
  have account := outlook.account
  obtain ⟨s', more, later', stands, linked, bears⟩ := account.stands.flush outlook.linked
  rw [Local.beginClose, flush_eq]
  refine ⟨s', none, got, accepted, groups ++ more, later.trans later',
    outlook.emit (account.moved later' stands rfl account.reads rfl account.fits ?_ rfl) later'
      linked bears, Or.inl rfl⟩
  intro closed
  exact absurd closed isOpen

/-- The disconnect says how much has been numbered. -/
theorem Course.disconnect (course : Course closer conv p count back start before l)
    (closed : l.closed) (unsaid : l.conn.disconnectSent = false) :
    Course closer conv p count back start before l.disconnect := by
  obtain ⟨s, bye, got, accepted, groups, later, outlook, parting⟩ := course
  have account := outlook.account
  obtain rfl := account.stays.mpr unsaid
  obtain ⟨n, push, out, due, linked⟩ := outlook.linked.mark
  obtain ⟨state, readOp, _, said⟩ := disconnect_control l
  have same : l.disconnect.conn.obj = l.conn.obj ∧ l.disconnect.conn.isserver = l.conn.isserver ∧
      l.disconnect.conn.delivered = l.conn.delivered ∧
      l.disconnect.conn.accepted = l.conn.accepted := by
    unfold Local.disconnect
    dsimp only
    split <;> exact ⟨rfl, rfl, rfl, rfl⟩
  obtain ⟨obj, onward, delivered, written⟩ := same
  have first : before = none := by
    rcases parting with same | ⟨none, _, parts⟩
    · exact same.symm
    · exact none
  refine ⟨s, some ⟨s.tally.out.length, payload l.conn.obj.sndQueue⟩, got, accepted,
    groups ++ [[n]], later, ⟨⟨?_, ?_, ?_, ?_, ?_, ?_⟩, ?_, ?_, ?_⟩,
    Or.inr ⟨first, s.tally.out.length, by rw [obj]⟩⟩
  · rw [obj]
    exact account.stands
  · rw [onward, delivered]
    exact account.reads
  · rw [onward, written]
    exact account.writes
  · rw [onward, readOp]
    exact account.fits
  · rw [said]
    exact ⟨nofun, nofun⟩
  · rintro _ ⟨⟩
    refine ⟨state.trans closed, Nat.le_refl _, ?_⟩
    rw [List.take_length]
    exact account.stands.ledger.accepted_eq
  · have within := outlook.within
    change count ≤ (l.env.sent ++ [_]).length
    rw [List.length_append]
    omega
  · change List.Forall₂ _ ((l.env.sent ++ [_]).drop count) _
    rw [List.drop_append_of_le_length outlook.within]
    have unsaid : ∀ farewell, (none : Option Farewell) = some farewell →
        (some ⟨s.tally.out.length, payload l.conn.obj.sndQueue⟩ : Option Farewell) =
          some farewell := nofun
    refine List.rel_append (outlook.flight.imp fun _ _ => Speaks.mono (List.prefix_refl _) unsaid) ?_
    exact .cons (.disconnect n _ rfl rfl push out due) .nil
  · rw [List.flatten_append]
    exact linked

theorem course_act (act : Act (orderlyTerms closer) l l')
    (course : Course closer conv p count back start before l) :
    Course closer conv p count back start before l' := by
  cases act with
  | refuseRead _ => exact course.of_same rfl rfl rfl rfl rfl id rfl (Or.inl rfl)
  | readSome size fair _ _ =>
      refine course.of_same rfl rfl rfl rfl rfl id rfl (Or.inr fun isReader op pending => ?_)
      cases pending
      exact fair isReader
  | read buffer need _ _ _ =>
      refine course.of_same rfl rfl rfl rfl rfl id rfl (Or.inr fun _ op pending => ?_)
      cases pending
      trivial
  | refuseWrite _ => exact course.of_same rfl rfl rfl rfl rfl id rfl (Or.inl rfl)
  | messageSize buffer fair idle opened refused =>
      refine course.write opened buffer (fun isCloser => fair isCloser idle opened) rfl rfl rfl
        (fun isCloser => ?_) rfl rfl rfl
      exact absurd refused (fair isCloser idle opened).2
  | write buffer fair idle opened ok =>
      exact course.write opened buffer (fun isCloser => fair isCloser idle opened) rfl rfl rfl
        (fun _ => rfl) rfl rfl rfl
  | writePending buffer fair idle opened ok =>
      exact course.write opened buffer (fun isCloser => fair isCloser idle opened) rfl rfl rfl
        (fun _ => rfl) rfl rfl rfl
  | streambuf _ _ => exact course.of_same rfl rfl rfl rfl rfl id rfl (Or.inl rfl)
  | pollRead ec op pending _ _ => exact course.poll ec pending
  | pollWrite _ _ _ _ _ _ => exact course.of_same rfl rfl rfl rfl rfl id rfl (Or.inl rfl)
  | beginClose opened => exact course.beginClose opened
  | disconnect closed unsaid => exact course.disconnect closed unsaid
  | armReceive _ => exact course.of_same rfl rfl rfl rfl rfl id rfl (Or.inl rfl)

/-! ## The entries -/

theorem entry_deaf {e : Event} {l : Local} (deaf : heard l.conn e = none) :
    ((entry e l).conn.obj = l.conn.obj ∧ (entry e l).env.sent = l.env.sent) ∨
      ∃ now, (entry e l).conn.obj = (updateEffect l.conn now).1 ∧
        (entry e l).env.sent = l.env.sent ++
          dataDatagrams l.conn.endpoint (updateEffect l.conn now).2.2 := by
  cases entry_effect e l with
  | same obj sent => exact Or.inl ⟨obj, sent⟩
  | updated now obj sent => exact Or.inr ⟨now, obj, sent⟩
  | received data size hears _ _ _ _ =>
      rw [deaf] at hears
      cases hears

/-- An event that hears a datagram passes it on to `on_receive`, with the time that
it takes itself and after its handler has left the queue of the executor. -/
theorem event_heard {e : Event} {l : Local} {data : List UInt8} {size : Nat}
    (hears : heard l.conn e = some (data, size)) : ∃ queued t rest,
      entry e l = ({ l with conn := { l.conn with receiveQueued := queued } } : Local).received
        data size t ∧
      runEvent e l = (onReceive data size t
        { l with conn := { l.conn with receiveQueued := queued } }).bind rest := by
  cases e with
  | onReceive data' size' t =>
      cases hears
      exact ⟨l.conn.receiveQueued, t, fun _ => pure (), rfl, (Prog.bind_pure _).symm⟩
  | receiveRuns now =>
      rw [heard] at hears
      split at hears
      · rename_i queue
        cases hears
        simp only [runEvent, receiveRuns, Comp.bind_apply, Comp.get_apply, Prog.bind_ret, queue,
          modifyConn, Comp.modify_apply, receiveHandler, ne_eq, not_true_eq_false, if_false, entry]
        exact ⟨_, now, _, rfl, rfl⟩
      · cases hears
  | _ => cases hears

theorem entry_heard {e : Event} {l : Local} {data : List UInt8} {size : Nat}
    (hears : heard l.conn e = some (data, size)) :
    (entry e l).env.sent = l.env.sent ∧ (entry e l).conn.obj =
      if size < 24 ∨ data.getD 0 0 ≠ opcodeData then l.conn.obj
      else (ikcpInput l.conn.obj (data.drop 1) (size - 1)).2 := by
  obtain ⟨queued, t, _, passed, _⟩ := event_heard hears
  rw [passed]
  unfold Local.received
  by_cases short : size < 24
  · rw [if_pos short, if_pos (Or.inl short)]
    exact ⟨rfl, rfl⟩
  · rw [if_neg short]
    dsimp only
    by_cases isData : data.getD 0 0 = opcodeData
    · rw [if_pos isData, if_neg (not_or.mpr ⟨short, not_not.mpr isData⟩)]
      exact ⟨rfl, rfl⟩
    · rw [if_neg isData, if_pos (Or.inr isData)]
      exact ⟨rfl, rfl⟩

theorem stands_updateEffect (stands : Stands conv p.tally s got accepted l.conn.obj) {there : List Note}
    (linked : Linked s p there back) (now : Int) :
    ∃ s' more, s.tally.Later s'.tally ∧
      Stands conv p.tally s' got accepted (updateEffect l.conn now).1 ∧
      Linked s' p (there ++ more.flatten) back ∧
      List.Forall₂ (Bears conv s'.tally.out) (updateEffect l.conn now).2.2 more := by
  have ticked : ∃ s' more, s.tally.Later s'.tally ∧
      Stands conv p.tally s' got accepted (ikcpUpdate l.conn.obj (UInt32.ofInt now)).1 ∧
      Linked s' p (there ++ more.flatten) back ∧
      List.Forall₂ (Bears conv s'.tally.out) (ikcpUpdate l.conn.obj (UInt32.ofInt now)).2 more := by
    obtain ⟨ready, alike, flushes | waits⟩ := ikcpUpdate_cases l.conn.obj (UInt32.ofInt now)
    · rw [flushes]
      exact (stands.of_alike alike).flush linked
    · rw [waits]
      exact ⟨s, [], .refl _, stands.of_alike alike, by simpa using linked, .nil⟩
  unfold updateEffect
  dsimp only
  split_ifs
  · obtain ⟨s', more, later, stands', linked', bears⟩ := ticked
    obtain ⟨s'', more', later', stands'', linked'', bears'⟩ := stands'.flush linked'
    refine ⟨s'', more ++ more', later.trans later', stands'', ?_, ?_⟩
    · rw [List.flatten_append, ← List.append_assoc]
      exact linked''
    · exact List.rel_append (bears.imp fun _ _ => Bears.mono later'.out) bears'
  · exact ticked
  · exact ⟨s, [], .refl _, stands, by simpa using linked, .nil⟩

/-- An entry only changes the control block and what has been sent. -/
theorem Outlook.account_entry (outlook : Outlook closer conv p count back s bye got accepted groups l)
    (e : Event) (later : s.tally.Later s'.tally)
    (stands : Stands conv p.tally s' got accepted (entry e l).conn.obj) :
    Account closer conv p.tally s' bye got accepted (entry e l) := by
  have account := outlook.account
  have streams := entry_streams e l
  have control := entry_control e l
  refine account.moved later stands (entry_constructed e l).1 ?_ streams.accepted ?_
    control.closed.mpr control.disconnectSent
  · rw [streams.delivered]
    exact account.reads
  · rw [streams.readOp]
    exact account.fits

theorem Outlook.pass (outlook : Outlook closer conv p count back s bye got accepted groups l)
    {e : Event} (deaf : heard l.conn e = none) :
    ∃ s' groups', s.tally.Later s'.tally ∧
      Outlook closer conv p count back s' bye got accepted groups' (entry e l) := by
  have stands := outlook.account.stands
  rcases entry_deaf deaf with ⟨obj, sent⟩ | ⟨now, obj, sent⟩
  · rw [← obj] at stands
    exact ⟨s, groups, .refl _,
      outlook.moved (outlook.account_entry e (.refl _) stands) (.refl _) sent outlook.linked⟩
  · obtain ⟨s', more, later, stands', linked, bears⟩ := stands_updateEffect stands outlook.linked now
    rw [← obj] at stands'
    have account := outlook.account_entry e later stands'
    have before : Account closer conv p.tally s' bye got accepted ⟨(entry e l).conn, l.env⟩ :=
      ⟨account.stands, account.reads, account.writes, account.fits, account.stays, account.parted⟩
    exact ⟨s', groups ++ more, later, (outlook.emit before later linked bears).of_same rfl rfl rfl rfl
      sent id rfl (Or.inl rfl)⟩

/-- The next datagram that the other side has sent leaves the flight. -/
theorem Outlook.hear {groups' : List (List Note)}
    (outlook : Outlook closer conv p count groups'.flatten s bye got accepted groups l)
    {e : Event} {data : List UInt8} {size : Nat} (hears : heard l.conn e = some (data, size))
    {d : Datagram} {rest : List Datagram} (arrived : d.ArrivedAs (data, size))
    (flight : List.Forall₂ (Speaks conv p.tally.out bye') (d :: rest) groups') :
    ∃ s' groups'', s.tally.Later s'.tally ∧
      Outlook closer conv p count groups''.flatten s' bye got accepted groups (entry e l) ∧
      List.Forall₂ (Speaks conv p.tally.out bye') rest groups'' := by
  obtain ⟨sent, obj⟩ := entry_heard hears
  have stands := outlook.account.stands
  have linked := outlook.linked
  have passes : ∀ {back s'}, s.tally.Later s'.tally →
      Stands conv p.tally s' got accepted (entry e l).conn.obj → Linked s' p groups.flatten back →
      Outlook closer conv p count back s' bye got accepted groups (entry e l) :=
    fun later stands linked => outlook.moved (outlook.account_entry e later stands) later sent linked
  obtain ⟨notes, groups'', speaks, others, rfl⟩ := List.forall₂_cons_left_iff.mp flight
  rw [List.flatten_cons] at linked
  obtain ⟨⟨stale, rfl⟩, rfl⟩ := arrived
  cases speaks with
  | data bytes _ shape bears =>
      rw [shape] at obj
      change _ = if bytes.length + 1 < 24 ∨ opcodeData ≠ opcodeData then l.conn.obj
        else (ikcpInput l.conn.obj (bytes ++ stale) bytes.length).2 at obj
      by_cases short : bytes.length + 1 < 24
      · -- Shorter than a header, it bears no segment.
        obtain ⟨segs, rfl, noted⟩ := bears
        have empty : segs = [] := by
          cases segs with
          | nil => rfl
          | cons seg segs =>
              simp only [encodeSegs_cons, List.length_append, ikcpEncodeSeg_length,
                ikcpOverhead] at short
              omega
        subst empty
        cases noted
        rw [if_pos (Or.inl short)] at obj
        rw [← obj] at stands
        exact ⟨s, groups'', .refl _, passes (.refl _) stands linked, others⟩
      · rw [if_neg (not_or.mpr ⟨short, not_not.mpr rfl⟩)] at obj
        obtain ⟨s', later, stands', linked'⟩ := Stands.input bears stands linked stale
        rw [← obj] at stands'
        exact ⟨s', groups'', later, passes later stands' linked', others⟩
  | disconnect n farewell shape _ push _ _ =>
      have isOther : ¬ (d.bytes ++ stale).getD 0 0 = opcodeData := by
        rw [shape]
        change ¬ opcodeDisconnect = opcodeData
        decide
      rw [if_pos (Or.inr isOther)] at obj
      rw [← obj] at stands
      exact ⟨s, groups'', .refl _, passes (.refl _) stands (linked.drop push), others⟩

/-- The other side, when this one has gone on. -/
theorem Outlook.facing {count' : Nat} {back' : List Note}
    (outlook : Outlook closer conv p count back s bye got accepted groups l) {p' : Standing}
    (later : p.tally.Later p'.tally) (within : count' ≤ l.env.sent.length)
    {groups' : List (List Note)}
    (flight : List.Forall₂ (Speaks conv s.tally.out bye) (l.env.sent.drop count') groups')
    (linked : Linked s p' groups'.flatten back') :
    Outlook closer conv p' count' back' s bye got accepted groups' l :=
  ⟨{ outlook.account with stands := outlook.account.stands.peer_later later }, within, flight, linked⟩

end Local

/-! ## The pair -/

def Paired (closer : Bool) (conv : UInt32) (bye bye' : Option Farewell)
    (own other : Node Local Nat) : Prop :=
  ∃ s p got accepted got' accepted' groups groups',
    Outlook closer conv p other.note (List.flatten groups') s bye got accepted groups
      own.config.state ∧
    Outlook closer conv s own.note (List.flatten groups) p bye' got' accepted' groups'
      other.config.state ∧
    Keeps (orderlyTerms closer) own.config ∧ Keeps (orderlyTerms closer) other.config

section Pair
variable {closer : Bool} {conv : UInt32} {bye bye' : Option Farewell}
  {own other own' : Node Local Nat} {label : Label Event Call}

theorem Paired.symm (paired : Paired closer conv bye bye' own other) :
    Paired closer conv bye' bye other own := by
  obtain ⟨s, p, got, accepted, got', accepted', groups, groups', outlook, outlook', keeps, keeps'⟩ :=
    paired
  exact ⟨p, s, got', accepted', got, accepted, groups', groups, outlook', outlook, keeps', keeps⟩

/-- The beginning of a step: what it hears leaves the flight. -/
theorem outlook_begun {p s : Standing} {got accepted : List UInt8}
    {groups groups' : List (List Note)}
    (outlook : Outlook closer conv p other.note groups'.flatten s bye got accepted groups
      own.config.state)
    (flight : List.Forall₂ (Speaks conv p.tally.out bye')
      (other.config.state.env.sent.drop own.note) groups')
    (within : own.note ≤ other.config.state.env.sent.length)
    (inOrder : InOrder other.config.state.env.sent own.note (hears own.config label)) :
    ∃ s' groups₁ groups₂, s.tally.Later s'.tally ∧
      Outlook closer conv p other.note groups₂.flatten s' bye got accepted groups₁
        (begun label own.config.state) ∧
      List.Forall₂ (Speaks conv p.tally.out bye')
        (other.config.state.env.sent.drop (countHeard own label)) groups₂ ∧
      countHeard own label ≤ other.config.state.env.sent.length := by
  unfold countHeard
  cases label with
  | event e =>
      change InOrder _ _ (heard own.config.state.conn e) at inOrder
      change ∃ s' groups₁ groups₂, _ ∧ _ ∧
        List.Forall₂ _ (List.drop (if (heard own.config.state.conn e).isSome then _ else _) _) _ ∧
        (if (heard own.config.state.conn e).isSome then _ else _) ≤ _
      cases hearing : heard own.config.state.conn e with
      | none =>
          obtain ⟨s', groups₁, later, outlook'⟩ := outlook.pass hearing
          exact ⟨s', groups₁, groups', later, outlook', flight, within⟩
      | some received =>
          rw [hearing] at inOrder
          obtain ⟨d, next, arrived⟩ := inOrder
          obtain ⟨inside, rfl⟩ := List.getElem?_eq_some_iff.mp next
          rw [List.drop_eq_getElem_cons inside] at flight
          obtain ⟨s', groups₂, later, outlook', rest⟩ := outlook.hear hearing arrived flight
          exact ⟨s', groups, groups₂, later, outlook', rest, inside⟩
  | _ => exact ⟨s, groups, groups', .refl _, outlook, flight, within⟩

theorem orderly_acts (move : (orderly closer).Move own other label own')
    (keeps : Keeps (orderlyTerms closer) own.config) :
    Acts (orderlyTerms closer) (begun label own.config.state) own'.config.state ∧
      Keeps (orderlyTerms closer) own'.config := by
  have fair := move.allowed.2
  refine keeps_step keeps ⟨fun _ => id, fun _ _ => False.elim, fun k isCall => ?_⟩ move.stepped
  rw [isCall] at fair
  exact fair

/-- One step of a side.  It can say its farewell once. -/
theorem paired_move (paired : Paired closer conv bye bye' own other)
    (move : (orderly closer).Move own other label own') :
    ∃ bye₁, Paired closer conv bye₁ bye' own' other ∧ (bye₁ = bye ∨ bye = none ∧
      ∃ due, bye₁ = some ⟨due, payload own'.config.state.conn.obj.sndQueue⟩) := by
  obtain ⟨s, p, got, accepted, got', accepted', groups, groups', outlook, outlook', keeps, keeps'⟩ :=
    paired
  obtain ⟨acts, after⟩ := orderly_acts move keeps
  obtain ⟨s₁, groups₁, groups₂, later₁, begins, flight, within⟩ :=
    outlook_begun outlook outlook'.flight outlook'.within move.allowed.1
  have course : Course closer conv p other.note groups₂.flatten s.tally bye
      (begun label own.config.state) :=
    ⟨s₁, bye, got, accepted, groups₁, later₁, begins, Or.inl rfl⟩
  obtain ⟨s₂, bye₂, got₂, accepted₂, groups₃, later₂, ends, parting⟩ :=
    acts_invariant course_act acts course
  refine ⟨bye₂, ⟨s₂, p, got₂, accepted₂, got', accepted', groups₃, groups₂, ends, ?_, after,
    keeps'⟩, parting⟩
  rw [move.note]
  exact outlook'.facing later₂ within flight ends.linked.symm

end Pair

end AsioKcp
