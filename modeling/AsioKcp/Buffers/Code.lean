import AsioKcp.Connection.Code
import Mathlib.Logic.Function.Basic

/-! # The buffers of `raw_send` and `do_receive`

A `static_buffer_pool` of each thread keeps the buffers whose `unique_ptr` has
been destroyed on it.  A buffer made on one thread may be given up on another
one, and what it held is not cleared. -/
set_option autoImplicit false

namespace AsioKcp.Buffers

/-! ## `static_buffer` -/

structure StaticBuffer where
  size : Nat
  data : List UInt8
  full : data.length = 2048

namespace StaticBuffer

def new : StaticBuffer := ⟨0, List.replicate 2048 0, List.length_replicate⟩

def maxSize (b : StaticBuffer) : Nat := b.data.length

def setSize (b : StaticBuffer) (n : Nat) : StaticBuffer := { b with size := n }

/-- The bytes of `const_buffer`, and of `mutable_buffer`. -/
def constBuffer (b : StaticBuffer) : List UInt8 := b.data.take b.size

/-- The bytes that are stored at the front of `data_`. -/
def store (b : StaticBuffer) (bytes : List UInt8) (fits : bytes.length ≤ 2048) : StaticBuffer where
  size := b.size
  data := bytes ++ b.data.drop bytes.length
  full := by
    rw [List.length_append, List.length_drop, b.full]
    omega

/-- `fits` is the assertion of `write`. -/
def write (b : StaticBuffer) (opcode : UInt8) (data : List UInt8) (fits : data.length + 1 < 2048) :
    StaticBuffer :=
  (b.store (opcode :: data) (Nat.le_of_lt fits)).setSize (1 + data.length)

end StaticBuffer

/-! ## `static_buffer_pool` -/

/-- The `container_` of every thread, with the back of its vector at the end; what
lies at each address; and the addresses that `new` has given out. -/
structure Pools (α τ : Type) where
  container : τ → List α
  buffers : α → StaticBuffer
  heap : List α

section Pools
variable {α τ : Type} [DecidableEq α] [DecidableEq τ]

def Pools.modify (s : Pools α τ) (a : α) (f : StaticBuffer → StaticBuffer) : Pools α τ :=
  { s with buffers := Function.update s.buffers a (f (s.buffers a)) }

/-- `make` on the thread `t`; `fresh` is what `new` would return. -/
def make (s : Pools α τ) (t : τ) (fresh : α) : α × Pools α τ :=
  match (s.container t).getLast? with
  | some buffer =>
      let s := { s with container := Function.update s.container t (s.container t).dropLast }
      (buffer, s.modify buffer (·.setSize 0))
  | none =>
      let s := { s with heap := fresh :: s.heap }
      (fresh, s.modify fresh fun _ => .new)

def delete (s : Pools α τ) (a : α) : Pools α τ := { s with heap := s.heap.filter (· ≠ a) }

/-- `static_buffer_deleter` on the thread `t`. -/
def deleter (s : Pools α τ) (t : τ) (p : α) : Pools α τ :=
  if (s.container t).length < 1024 then
    { s with container := Function.update s.container t (s.container t ++ [p]) }
  else delete s p

/-- The destructor of the container of `t`. -/
def destroyContainer (s : Pools α τ) (t : τ) : Pools α τ :=
  { s with
    heap := s.heap.filter (· ∉ s.container t)
    container := Function.update s.container t [] }

end Pools

/-! ## Who has a buffer -/

/-- A send that has been started holds its buffer until it completes, and so does a
receive; a receive handler holds it while `on_receive` runs.  `asked` are the
datagrams that `raw_send` was called for, `wire` those that have been
transmitted and `failed` those whose send failed or was never made. -/
structure Traffic (α τ : Type) extends Pools α τ where
  sending : List (α × List UInt8)
  receiving : List α
  handling : List α
  exited : List τ
  asked : List (List UInt8)
  wire : List (List UInt8)
  failed : List (List UInt8)

def Traffic.start (α τ : Type) : Traffic α τ where
  container _ := []
  buffers _ := .new
  heap := []
  sending := []
  receiving := []
  handling := []
  exited := []
  asked := []
  wire := []
  failed := []

namespace Traffic
variable {α τ : Type} [DecidableEq α] [DecidableEq τ]

/-- The front of `raw_send`: a new buffer with the datagram in it. -/
def written (s : Traffic α τ) (t : τ) (fresh : α) (opcode : UInt8) (data : List UInt8)
    (fits : data.length + 1 < 2048) : Traffic α τ :=
  let made := make s.toPools t fresh
  { s with toPools := made.2.modify made.1 (·.write opcode data fits) }

/-- What the socket makes of the bytes in a buffer. -/
def transmit (s : Traffic α τ) (a : α) (ok : Bool) : Traffic α τ :=
  { s with
    wire := if ok then s.wire ++ [(s.buffers a).constBuffer] else s.wire
    failed := if ok then s.failed else s.failed ++ [(s.buffers a).constBuffer] }

/-- The `unique_ptr` to `a` is destroyed on the thread `t`. -/
def giveUp (s : Traffic α τ) (t : τ) (a : α) : Traffic α τ :=
  { s with toPools := deleter s.toPools t a }

/-- `do_receive` up to the start of the operation. -/
def opened (s : Traffic α τ) (a : α) : Traffic α τ :=
  { s with
    toPools := s.toPools.modify a fun b => b.setSize b.maxSize
    receiving := a :: s.receiving }

/-- `raw_send` of anything but a disconnect: the send holds the buffer. -/
def rawSend (s : Traffic α τ) (t : τ) (fresh : α) (opcode : UInt8) (data : List UInt8)
    (fits : data.length + 1 < 2048) : Traffic α τ :=
  { s.written t fresh opcode data fits with
    sending := ((make s.toPools t fresh).1, opcode :: data) :: s.sending
    asked := s.asked ++ [opcode :: data] }

/-- A `raw_send` that gives its buffer up itself, when the datagram has been
transmitted or not. -/
def spend (s : Traffic α τ) (t : τ) (fresh : α) (opcode : UInt8) (data : List UInt8)
    (fits : data.length + 1 < 2048) (ok : Bool) : Traffic α τ :=
  let buffer := (make s.toPools t fresh).1
  let asked := { s.written t fresh opcode data fits with asked := s.asked ++ [opcode :: data] }
  (asked.transmit buffer ok).giveUp t buffer

/-- `raw_send` of a disconnect: `send_to`, with the outcome `ok`. -/
def sendTo (s : Traffic α τ) (t : τ) (fresh : α) (data : List UInt8)
    (fits : data.length + 1 < 2048) (ok : Bool) : Traffic α τ :=
  s.spend t fresh opcodeDisconnect data fits ok

/-- One step of any thread. -/
inductive Step (s : Traffic α τ) : Traffic α τ → Prop
  | rawSend (t : τ) (fresh : α) (opcode : UInt8) (data : List UInt8) (fits : data.length + 1 < 2048) :
      t ∉ s.exited → fresh ∉ s.heap → opcode ≠ opcodeDisconnect →
      Step s (s.rawSend t fresh opcode data fits)
  | sendTo (t : τ) (fresh : α) (data : List UInt8) (fits : data.length + 1 < 2048) (ok : Bool) :
      t ∉ s.exited → fresh ∉ s.heap → Step s (s.sendTo t fresh data fits ok)
  /-- `shared_from_this` throws in the destructor, before the send is started. -/
  | expired (t : τ) (fresh : α) (opcode : UInt8) (data : List UInt8) (fits : data.length + 1 < 2048) :
      t ∉ s.exited → fresh ∉ s.heap →
      Step s (s.spend t fresh opcode data fits false)
  | sent (t : τ) (a : α) (bytes : List UInt8) (before after : List (α × List UInt8)) (ok : Bool) :
      t ∉ s.exited → s.sending = before ++ (a, bytes) :: after →
      Step s (({ s with sending := before ++ after }.transmit a ok).giveUp t a)
  | runClient (t : τ) (fresh : α) : t ∉ s.exited → fresh ∉ s.heap →
      Step s ({ s with toPools := (make s.toPools t fresh).2 }.opened (make s.toPools t fresh).1)
  | receives (a : α) (bytes : List UInt8) (fits : bytes.length ≤ 2048) (before after : List α) :
      s.receiving = before ++ a :: after → bytes.length ≤ (s.buffers a).size →
      Step s { s with
        toPools := s.toPools.modify a (·.store bytes fits)
        receiving := before ++ after
        handling := a :: s.handling }
  | receivesAgain (a : α) (before after : List α) : s.handling = before ++ a :: after →
      Step s ({ s with handling := before ++ after }.opened a)
  /-- `do_receive` of a closed connection. -/
  | closed (t : τ) (a : α) (before after : List α) : t ∉ s.exited →
      s.handling = before ++ a :: after →
      Step s ({ s with handling := before ++ after }.giveUp t a)
  | aborted (t : τ) (a : α) (before after : List α) : t ∉ s.exited →
      s.receiving = before ++ a :: after →
      Step s ({ s with receiving := before ++ after }.giveUp t a)
  | exit (t : τ) : t ∉ s.exited →
      Step s { s with toPools := destroyContainer s.toPools t, exited := t :: s.exited }

end Traffic

end AsioKcp.Buffers
