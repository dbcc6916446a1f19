import AsioKcp.Acceptor.Connect
import Mathlib.Logic.Relation

/-! # The calls of `async_connect` on one thread

A call is a coroutine that is suspended three times.  The variable `conv` is a
local of the function template `async_connect<Executor>`: one for the thread and
the type of the executors that the calls are given.  A call increments it before
its first suspension, reads it after that, and overwrites it with the conv of the
server's answer. -/
set_option autoImplicit false

namespace AsioKcp

open AsioKcp.Bytes

/-- Where a call is suspended, or what it has returned: the conv of its connection. -/
inductive ConnectPhase where
  | connecting
  | sending
  | receiving
  | returned (result : Except ErrorCode UInt32)

structure ConnectCall where
  endpoint : Endpoint
  magic : List UInt8
  phase : ConnectPhase

/-- A request handed to a socket, with the magic of its call. -/
structure ConnectRequest where
  magic : List UInt8
  datagram : Datagram

/-- The conv in a request, where an acceptor reads it. -/
def ConnectRequest.conv (h : ConnectRequest) : UInt32 :=
  read32 (h.datagram.bytes.drop (1 + h.magic.length))

/-- The calls of one instantiation of `async_connect`. -/
structure Connector where
  /-- `thread_local static uint32_t conv`. -/
  conv : UInt32
  calls : List ConnectCall
  /-- History: the requests handed to sockets. -/
  requests : List ConnectRequest

def Connector.start : Connector := ⟨0, [], []⟩

inductive ConnectEvent where
  | asyncConnect (endpoint : Endpoint) (magic : List UInt8)
  | connected (i : Nat) (ec : ErrorCode)
  | sent (i : Nat) (ec : ErrorCode)
  | received (i : Nat) (ec : ErrorCode) (datagram : List UInt8)

/-- Call `i` goes on to `phase`. -/
def Connector.resume (t : Connector) (i : Nat) (phase : ConnectPhase) : Connector :=
  { t with calls := t.calls.modify i fun call => { call with phase := phase } }

def ConnectCall.request (call : ConnectCall) (conv : UInt32) : ConnectRequest :=
  ⟨call.magic, ⟨call.endpoint, connectRequest call.magic conv⟩⟩

/-- A call begins, or goes on from where it is suspended. -/
def Connector.step (t : Connector) : ConnectEvent → Option Connector
  | .asyncConnect endpoint magic =>
      some { t with conv := t.conv + 1, calls := t.calls ++ [⟨endpoint, magic, .connecting⟩] }
  | .connected i ec =>
      match t.calls[i]? with
      | some ⟨endpoint, magic, .connecting⟩ =>
          if ec ≠ .success then some (t.resume i (.returned (.error ec)))
          else some { t.resume i .sending with
            requests := t.requests ++ [ConnectCall.request ⟨endpoint, magic, .connecting⟩ t.conv] }
      | _ => none
  | .sent i ec =>
      match t.calls[i]? with
      | some ⟨_, _, .sending⟩ =>
          if ec ≠ .success then some (t.resume i (.returned (.error ec)))
          else some (t.resume i .receiving)
      | _ => none
  | .received i ec datagram =>
      match t.calls[i]? with
      | some ⟨_, _, .receiving⟩ =>
          if ec ≠ .success then some (t.resume i (.returned (.error ec)))
          else match connectResult datagram with
            | .error ec => some (t.resume i (.returned (.error ec)))
            | .ok conv => some { t.resume i (.returned (.ok conv)) with conv := conv }
      | _ => none

/-- The states that are reached by steps which `ok` allows. -/
def Connector.Reaches (ok : Connector → ConnectEvent → Prop) : Connector → Prop :=
  Relation.ReflTransGen (fun t t' => ∃ e, ok t e ∧ t.step e = some t') .start

def Connector.run : Connector → List ConnectEvent → Option Connector
  | t, [] => some t
  | t, e :: rest => do
      let next ← t.step e
      next.run rest

/-- What a step does to the counter and to the requests. -/
theorem Connector.step_cases {t t' : Connector} {e : ConnectEvent} (stepped : t.step e = some t') :
    (∃ endpoint magic, e = .asyncConnect endpoint magic ∧ t'.conv = t.conv + 1 ∧
      t'.requests = t.requests) ∨
    (∃ i call, e = .connected i .success ∧ t.calls[i]? = some call ∧ t'.conv = t.conv ∧
      t'.requests = t.requests ++ [call.request t.conv]) ∨
    (∃ i datagram conv, e = .received i .success datagram ∧ connectResult datagram = .ok conv ∧
      t'.conv = conv ∧ t'.requests = t.requests) ∨
    (t'.conv = t.conv ∧ t'.requests = t.requests) := by
  revert stepped
  fun_cases Connector.step t e with
  | case1 endpoint magic =>
      rintro ⟨⟩
      exact .inl ⟨endpoint, magic, rfl, rfl, rfl⟩
  | case2 i ec endpoint magic found failed =>
      rintro ⟨⟩
      exact .inr (.inr (.inr ⟨rfl, rfl⟩))
  | case3 i ec endpoint magic found success =>
      rintro ⟨⟩
      obtain rfl := not_not.mp success
      exact .inr (.inl ⟨i, _, rfl, found, rfl, rfl⟩)
  | case4 i ec other => rintro ⟨⟩
  | case5 i ec endpoint magic found failed =>
      rintro ⟨⟩
      exact .inr (.inr (.inr ⟨rfl, rfl⟩))
  | case6 i ec endpoint magic found success =>
      rintro ⟨⟩
      exact .inr (.inr (.inr ⟨rfl, rfl⟩))
  | case7 i ec other => rintro ⟨⟩
  | case8 i ec datagram endpoint magic found failed =>
      rintro ⟨⟩
      exact .inr (.inr (.inr ⟨rfl, rfl⟩))
  | case9 i ec datagram endpoint magic found success error result =>
      rintro ⟨⟩
      exact .inr (.inr (.inr ⟨rfl, rfl⟩))
  | case10 i ec datagram endpoint magic found success conv result =>
      rintro ⟨⟩
      obtain rfl := not_not.mp success
      exact .inr (.inr (.inl ⟨i, datagram, conv, rfl, result, rfl, rfl⟩))
  | case11 i ec datagram other => rintro ⟨⟩

/-- A run that succeeds reaches its last state. -/
theorem Connector.reaches_run (events : List ConnectEvent) {t t' : Connector}
    (reached : Connector.Reaches (fun _ _ => True) t) (ran : t.run events = some t') :
    Connector.Reaches (fun _ _ => True) t' := by
  induction events generalizing t with
  | nil =>
      cases ran
      exact reached
  | cons e rest ih =>
      simp only [Connector.run] at ran
      obtain ⟨next, stepped, continued⟩ := Option.bind_eq_some_iff.mp ran
      exact ih (reached.tail ⟨e, trivial, stepped⟩) continued

end AsioKcp
