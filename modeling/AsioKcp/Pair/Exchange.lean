import AsioKcp.Connection.Intake
import AsioKcp.Ikcp.Offers
import AsioKcp.Lib.Progress
import AsioKcp.Pair.Integrity

/-! # Two control blocks and the network between them

The protocol on its own: each party has a control block, as the wrapper configures
it, and remembers what it has output, what its reads have returned and what its
sends were accepted for.  A party may get any datagram that the other one has
output, at any time and as often as the network likes. -/
set_option autoImplicit false

namespace AsioKcp

open AsioKcp.Ikcp AsioKcp.Progress

structure Party where
  kcp : Ikcpcb
  clock : Nat
  sent : List (List UInt8)
  got : List UInt8
  accepted : List UInt8

namespace Party

def start (conv : UInt32) : Party := ⟨initKcpContext conv, 0, [], [], []⟩

def send (own : Party) (buffer : List UInt8) : Party :=
  { own with
    kcp := (ikcpSend own.kcp buffer buffer.length).2
    accepted := if (ikcpSend own.kcp buffer buffer.length).1 < 0 then own.accepted
      else own.accepted ++ buffer }

def recv (own : Party) (len : Nat) : Party :=
  { own with
    kcp := (ikcpRecv own.kcp len).2.2
    got := own.got ++ (ikcpRecv own.kcp len).2.1 }

def input (own : Party) (bytes : List UInt8) : Party :=
  { own with kcp := (ikcpInput own.kcp bytes bytes.length).2 }

def update (own : Party) (now : Nat) : Party :=
  { own with
    kcp := (ikcpUpdate own.kcp (UInt32.ofNat now)).1
    clock := now
    sent := own.sent ++ (ikcpUpdate own.kcp (UInt32.ofNat now)).2 }

/-- The segments of the whole transfer so far, as far as the 32 bits of `snd_nxt` show. -/
def segments (own : Party) : Nat := own.kcp.sndNxt.toNat + own.kcp.sndQueue.length

/-- The send is accepted, and the sequence numbers last for it. -/
structure Sendable (own : Party) (buffer : List UInt8) : Prop where
  accepted : ¬ (ikcpSend own.kcp buffer buffer.length).1 < 0
  few : (own.send buffer).segments + 256 ≤ 2 ^ 31

instance (own : Party) (buffer : List UInt8) : Decidable (own.Sendable buffer) :=
  decidable_of_iff (_ ∧ _) ⟨fun both => ⟨both.1, both.2⟩, fun both => ⟨both.1, both.2⟩⟩

/-- One step of a party beside the other one, with the sends that `sends` allows. -/
inductive Moves (sends : Party → List UInt8 → Prop) (own other : Party) : Party → Prop
  | send (buffer : List UInt8) : sends own buffer → Moves sends own other (own.send buffer)
  | recv (len : Nat) : Moves sends own other (own.recv len)
  | input (bytes : List UInt8) : bytes ∈ other.sent → Moves sends own other (own.input bytes)
  | update (now : Nat) : own.clock ≤ now → Moves sends own other (own.update now)

end Party

/-- What a party keeps, against the numbers `p` of the other one. -/
structure Register (conv : UInt32) (p t : Tally) (l : Party) : Prop where
  ledger : Ledger conv p.out p.has t l.got l.accepted l.kcp
  incoming : Incoming l.kcp
  whole : ∀ seg ∈ l.kcp.received, seg.frg = 0
  few : t.out.length + l.kcp.sndQueue.length + 256 ≤ 2 ^ 31
  sent : ∀ bytes ∈ l.sent, ToldBytes conv t bytes

section Register
variable {conv : UInt32} {p t : Tally} {l : Party}

theorem Register.peer_later {p' : Tally} (later : p.Later p') (register : Register conv p t l) :
    Register conv p' t l :=
  { register with ledger := register.ledger.peer_later later }

theorem Register.send (register : Register conv p t l) {buffer : List UInt8}
    (sendable : l.Sendable buffer) : Register conv p t (l.send buffer) where
  ledger := by
    have sent := register.ledger.send buffer buffer.length sendable.accepted
    rw [show (buffer.length : Int).toNat = buffer.length from rfl, List.take_length] at sent
    unfold Party.send
    rwa [if_neg sendable.accepted]
  incoming := incoming_lasting.send _ _ register.incoming
  whole := by
    change ∀ seg ∈ (ikcpSend l.kcp buffer buffer.length).2.received, seg.frg = 0
    rw [rcvSide_received (ikcpSend_rcvSide _ _ _)]
    exact register.whole
  few := by
    have short := register.few
    have few := sendable.few
    have nxt : (l.send buffer).kcp.sndNxt = UInt32.ofNat t.out.length :=
      (ikcpSend_onlyQueues l.kcp buffer buffer.length).sndNxt.trans register.ledger.sending.nxt
    rw [Party.segments, nxt, UInt32.toNat_ofNat', Nat.mod_eq_of_lt (by omega)] at few
    exact few
  sent := register.sent

theorem Register.recv (register : Register conv p t l) (peerFew : p.out.length < 2 ^ 31) (len : Nat) :
    ∃ t', t.Later t' ∧ t'.out = t.out ∧ t'.live = t.live ∧ Register conv p t' (l.recv len) := by
  obtain ⟨t', later, out, live, ledger⟩ :=
    register.ledger.recv peerFew (Int.not_lt.mpr (Int.natCast_nonneg len))
  have queue : (ikcpRecv l.kcp len).2.2.sndQueue = l.kcp.sndQueue :=
    congrArg SndSide.sndQueue (ikcpRecv_sndSide l.kcp len).1
  refine ⟨t', later, out, live, ledger, incoming_lasting.recv _ register.incoming,
    fun seg member => register.whole seg (ikcpRecv_mem member), ?_, fun bytes member => ?_⟩
  · change t'.out.length + (ikcpRecv l.kcp len).2.2.sndQueue.length + 256 ≤ 2 ^ 31
    rw [out, queue]
    exact register.few
  · exact (register.sent bytes member).mono later

theorem Register.input (register : Register conv p t l) (peerFew : p.out.length + 256 ≤ 2 ^ 31)
    (known : ∀ i, p.has i → i < t.out.length) {group : List IkcpSeg}
    (told : ∀ seg ∈ group, Told conv p seg) :
    ∃ t', Takes p.out t t' (group.map onWire) l.kcp (l.input (encodeSegs group)).kcp ∧
      Register conv p t' (l.input (encodeSegs group)) := by
  have few := register.few
  obtain ⟨t', takes, ledger⟩ := register.ledger.uptake (by omega) peerFew known told
  have queue : (l.input (encodeSegs group)).kcp.sndQueue = l.kcp.sndQueue :=
    (ikcpInput_acked _ _ _).sndQueue
  have readable : ∀ seg ∈ group, Decodable l.kcp.conv seg := by
    intro seg member
    rw [show l.kcp.conv = conv from register.ledger.suited.conv_eq]
    exact (told seg member).decodable
  have alike := ikcpInput_encode [] readable
  rw [List.append_nil] at alike
  refine ⟨t', takes, ledger, incoming_lasting.input _ _ register.incoming, fun seg member => ?_, ?_,
    fun bytes member => (register.sent bytes member).mono takes.hears.later⟩
  · change seg ∈ (ikcpInput l.kcp (encodeSegs group) (encodeSegs group).length).2.received at member
    rw [rcvSide_received alike.rcvSide] at member
    rcases foldl_inputKcp_mem _ member with old | ⟨fresh, push⟩
    · exact register.whole seg old
    · obtain ⟨said, isSaid, rfl⟩ := List.mem_map.mp fresh
      have known := told said isSaid
      rw [known.decodable.wire] at push
      obtain ⟨i, _, core⟩ := known.push push
      exact congrArg SegCore.frg (onWire_core core)
  · rw [takes.hears.out, queue]
    exact few

theorem Register.flush (register : Register conv p t l) {now : Nat} {ready : Ikcpcb}
    (isReady : updateReady l.kcp (UInt32.ofNat now) = some ready) :
    ∃ moved, Register conv p (t.number moved) (l.update now) ∧
      ∀ seg ∈ flushSegs ready, Told conv (t.number moved) seg := by
  have few := register.few
  have updated := updateReady_updated isReady
  obtain ⟨tsFlush, set, shape⟩ := updateReady_retimed isReady
  have alike : Alike l.kcp ready := by
    rw [shape]
    exact alike_retimed l.kcp _ _ _
  have flushed : ikcpUpdate l.kcp (UInt32.ofNat now) = ikcpFlush ready := by
    rw [ikcpUpdate_eq, isReady]
  obtain ⟨moved, ledger, fewer, told⟩ :=
    (register.ledger.of_alike alike).flush_tells updated (by omega)
  have later : t.Later (t.number moved) := ⟨List.prefix_append _ _, fun _ => id⟩
  have kcp : (l.update now).kcp = (ikcpFlush ready).1 := congrArg Prod.fst flushed
  refine ⟨moved, ⟨?_, incoming_lasting.update _ register.incoming, ?_, ?_, ?_⟩, told⟩
  · rw [kcp]
    exact ledger
  · rw [kcp, rcvSide_received (ikcpFlush_sides ready).1, rcvSide_received alike.rcvSide]
    exact register.whole
  · rw [alike.queue] at fewer
    rw [kcp]
    change (t.out ++ moved).length + _ + 256 ≤ 2 ^ 31
    rw [List.length_append]
    omega
  · intro bytes member
    change bytes ∈ l.sent ++ (ikcpUpdate l.kcp (UInt32.ofNat now)).2 at member
    rw [flushed] at member
    rcases List.mem_append.mp member with old | new
    · exact (register.sent bytes old).mono later
    · obtain ⟨groups, datagrams, flat, _⟩ := ikcpFlush_packs ready updated
      rw [datagrams] at new
      obtain ⟨group, isGroup, rfl⟩ := List.mem_map.mp new
      refine ⟨group, rfl, fun seg inside => told seg ?_⟩
      rw [← flat]
      exact List.mem_flatten.mpr ⟨group, isGroup, inside⟩

theorem Register.update (register : Register conv p t l) (now : Nat) :
    ∃ moved, Register conv p (t.number moved) (l.update now) := by
  cases isReady : updateReady l.kcp (UInt32.ofNat now) with
  | some ready =>
      obtain ⟨moved, after, _⟩ := register.flush isReady
      exact ⟨moved, after⟩
  | none =>
      have idle : ikcpUpdate l.kcp (UInt32.ofNat now) =
          ({ l.kcp with current := UInt32.ofNat now }, []) := by
        rw [ikcpUpdate_eq, isReady]
      refine ⟨[], ?_⟩
      rw [Tally.number_nil]
      unfold Party.update
      rw [idle, List.append_nil]
      exact ⟨register.ledger.of_alike (alike_retimed l.kcp _ _ _), register.incoming.congr rfl rfl,
        register.whole, register.few, register.sent⟩

end Register

/-- Each party has its register against the other. -/
def Registers (conv : UInt32) (own other : Party) : Prop :=
  ∃ t p, Register conv p t own ∧ Register conv t p other

theorem Registers.symm {conv : UInt32} {own other : Party} (registers : Registers conv own other) :
    Registers conv other own := by
  obtain ⟨t, p, register, peer⟩ := registers
  exact ⟨p, t, peer, register⟩

theorem registers_move {conv : UInt32} {own other own' : Party}
    (registers : Registers conv own other) (move : own.Moves Party.Sendable other own') :
    Registers conv own' other := by
  obtain ⟨t, p, register, peer⟩ := registers
  have peerFew := peer.few
  have known : ∀ i, p.has i → i < t.out.length := fun i has => peer.ledger.receiving.has_below has
  cases move with
  | send buffer sendable => exact ⟨t, p, register.send sendable, peer⟩
  | recv len =>
      obtain ⟨t', later, _, _, after⟩ := register.recv (by omega) len
      exact ⟨t', p, after, peer.peer_later later⟩
  | input bytes sent =>
      obtain ⟨group, rfl, told⟩ := peer.sent bytes sent
      obtain ⟨t', takes, after⟩ := register.input (by omega) known told
      exact ⟨t', p, after, peer.peer_later takes.hears.later⟩
  | update now _ =>
      obtain ⟨moved, after⟩ := register.update now
      have later : t.Later (t.number moved) := ⟨List.prefix_append _ _, fun _ => id⟩
      exact ⟨_, p, after, peer.peer_later later⟩

theorem register_start (conv : UInt32) : Register conv .start .start (Party.start conv) where
  ledger := ledger_start conv
  incoming := incoming_init conv
  whole := fun _ member => (List.not_mem_nil member).elim
  few := show 0 + 0 + 256 ≤ 2 ^ 31 by decide
  sent := fun _ member => (List.not_mem_nil member).elim

/-- Every state of an exchange has its registers. -/
theorem run_registers {conv : UInt32} {q : Party × Party}
    (run : Steps (Party.Moves Party.Sendable) (Party.start conv, Party.start conv) q) :
    Registers conv q.1 q.2 :=
  run.invariant (I := Registers conv) (fun registers => registers.symm) registers_move
    ⟨.start, .start, register_start conv, register_start conv⟩

end AsioKcp
