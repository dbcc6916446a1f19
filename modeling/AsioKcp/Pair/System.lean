import AsioKcp.Connection.Streams
import AsioKcp.Lib.Duplex

/-! # Two connections and the network between them

The client and the server connection of one handshake take steps in any order.
What `on_receive` gets on one side is a datagram that the other has sent; the
note of a side counts the datagrams it has heard. -/
set_option autoImplicit false

namespace AsioKcp

open AsioKcp.Ikcp AsioKcp.Callback AsioKcp.Machine

/-- What the handshake and the two sides bring into a connection pair. -/
structure Handshake where
  conv : UInt32
  client : Endpoint
  server : Endpoint
  clientNow : Int
  serverNow : Int
  clientStreambufs : Nat → StreamBuf
  serverStreambufs : Nat → StreamBuf

def Handshake.pair (h : Handshake) : Duplex Local Nat where
  first := ⟨clientStart h.conv h.server h.clientNow h.clientStreambufs, 0⟩
  second := ⟨serverStart h.conv h.client h.serverNow h.serverStreambufs, 0⟩

def hears (c : Config Local) : Label Event Call → Option (List UInt8 × Nat)
  | .event e => heard c.state.conn e
  | _ => none

/-- The datagram has come in at the front of the memory, with its own size. -/
def Datagram.ArrivedAs (d : Datagram) (received : List UInt8 × Nat) : Prop :=
  d.bytes <+: received.1 ∧ received.2 = d.bytes.length

/-- A network that may lose, repeat, reorder and delay what has been sent. -/
def Carries (sent : List Datagram) : Option (List UInt8 × Nat) → Prop
  | none => True
  | some received => ∃ d ∈ sent, d.ArrivedAs received

/-- Fewer than `2 ^ 31` segments have been numbered. -/
def Few (l : Local) : Prop := l.conn.obj.sndNxt.toNat < 2 ^ 31

/-- The user's side of a transfer: no read buffer is longer than an `int` can
say, no write is refused with `message_size`, and the length of each buffer that
`async_write` accepts is within `limit`. -/
def Call.Proper (limit : Nat → Prop) (l : Local) : Call → Prop
  | .asyncReadSome size => size < 2 ^ 31
  | .asyncWrite buffer => l.conn.writeOp = none → ¬ l.closed →
      limit buffer.length ∧ ¬ (l.sendResult buffer).1 < 0
  | _ => True

def userProper (limit : Nat → Prop) (l : Local) : Label Event Call → Prop
  | .call k => k.Proper limit l
  | _ => True

def countHeard (own : Node Local Nat) (label : Label Event Call) : Nat :=
  if (hears own.config label).isSome then own.note + 1 else own.note

def lossy (limit : Nat → Prop) : Peering Local Event Call Nat where
  system := connectionSystem
  allows own other label := Few own.config.state ∧ Few other.config.state ∧
    Carries other.config.state.env.sent (hears own.config label) ∧
    userProper limit own.config.state label
  mark := countHeard

section Decidable
variable (limit : Nat → Prop) [DecidablePred limit]

instance (l : Local) : Decidable l.closed := inferInstanceAs (Decidable (_ = _))

instance (l : Local) : Decidable (Few l) := inferInstanceAs (Decidable (_ < _))

instance (d : Datagram) (received : List UInt8 × Nat) : Decidable (d.ArrivedAs received) :=
  inferInstanceAs (Decidable (_ ∧ _))

instance (sent : List Datagram) (received : Option (List UInt8 × Nat)) :
    Decidable (Carries sent received) :=
  match received with
  | none => inferInstanceAs (Decidable True)
  | some _ => inferInstanceAs (Decidable (∃ _ ∈ _, _))

instance (l : Local) (k : Call) : Decidable (k.Proper limit l) :=
  match k with
  | .asyncReadSome _ => inferInstanceAs (Decidable (_ < _))
  | .asyncRead _ _ => inferInstanceAs (Decidable True)
  | .asyncWrite _ => inferInstanceAs (Decidable (_ = _ → ¬ _ → _ ∧ ¬ _))
  | .close _ => inferInstanceAs (Decidable True)
  | .streambuf _ _ => inferInstanceAs (Decidable True)

instance (l : Local) (label : Label Event Call) : Decidable (userProper limit l label) :=
  match label with
  | .event _ => inferInstanceAs (Decidable True)
  | .call k => inferInstanceAs (Decidable (k.Proper limit l))
  | .back => inferInstanceAs (Decidable True)
  | .answer _ => inferInstanceAs (Decidable True)
  | .raise => inferInstanceAs (Decidable True)
  | .caught => inferInstanceAs (Decidable True)
  | .unwind => inferInstanceAs (Decidable True)

instance (own other : Node Local Nat) (label : Label Event Call) :
    Decidable ((lossy limit).allows own other label) :=
  inferInstanceAs (Decidable (_ ∧ _ ∧ _ ∧ _))

end Decidable

/-- The stream from `sender` to `receiver` is whole: what the writes have been
accepted for is what the reads have moved out, followed by what waits in
`rcv_queue`, by `chunks` that `rcv_buf` or `snd_buf` holds under the numbers from
`rcv_nxt` on, and by what waits in `snd_queue`. -/
structure Intact (sender receiver : Connection) : Prop where
  ordered : receiver.delivered <+: sender.accepted
  held : ∃ chunks : List (List UInt8),
    sender.accepted = receiver.delivered ++ payload receiver.obj.rcvQueue ++ chunks.flatten ++
      payload sender.obj.sndQueue ∧
    ∀ k (inside : k < chunks.length), ∃ seg ∈ receiver.obj.rcvBuf ++ sender.obj.sndBuf,
      seg.sn = receiver.obj.rcvNxt + UInt32.ofNat k ∧ seg.data = chunks.get ⟨k, inside⟩

end AsioKcp
