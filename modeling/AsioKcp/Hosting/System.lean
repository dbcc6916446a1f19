import AsioKcp.Acceptor.Sessions
import AsioKcp.Pair.System

/-! # An acceptor and one of its clients

The guest is a client behind an endpoint of its own.  The network passes on what the
guest has sent, once, often or never and in any order, and its handshake while no
datagram has opened its session; and to the guest whatever the acceptor has sent
there.  All other endpoints send what they like, and the users of the other
sessions do what they like. -/
set_option autoImplicit false

namespace AsioKcp

open AsioKcp.Ikcp AsioKcp.Callback AsioKcp.Machine

structure Hosting where
  acceptor : Config Acceptor
  guest : Config Local

def Handshake.hosting (h : Handshake) (magic : List UInt8) : Hosting where
  acceptor := acceptorStart magic h.serverNow h.serverStreambufs
  guest := clientStart h.conv h.server h.clientNow h.clientStreambufs

def mailTo (endpoint : Endpoint) (sent : List Datagram) : List Datagram :=
  sent.filter fun d => d.dest = endpoint

/-- A handshake from the endpoint finds no connection of it but one that is still idle. -/
def Acceptor.Expects (a : Acceptor) (endpoint : Endpoint) : Prop :=
  ∀ c, c < a.created → (a.conns c).endpoint = endpoint →
    (a.conns c).state = .idle ∧ (endpoint, c) ∈ a.connections

/-- The network from the guest: its handshake, until a datagram has opened its
session, and what the guest has sent. -/
def Handshake.Brings (h : Handshake) (q : Hosting) (ec : ErrorCode) (datagram : List UInt8) : Prop :=
  (q.acceptor.state.Greeting ec datagram →
    q.acceptor.state.greetingConv datagram = h.conv ∧ q.acceptor.state.Expects h.client) ∧
  (¬ q.acceptor.state.Greeting ec datagram → ∃ d ∈ q.guest.state.env.sent, d.bytes = datagram)

/-- No session of the guest has numbered `2 ^ 31` segments, nor has the guest. -/
def Handshake.Modest (h : Handshake) (q : Hosting) : Prop :=
  (∀ c, c < q.acceptor.state.created → (q.acceptor.state.conns c).endpoint = h.client →
    Few ((Acceptor.view c).get q.acceptor.state)) ∧ Few q.guest.state

/-- What the guest's session is used for; the other sessions are used in any way. -/
def Handshake.Host (h : Handshake) (q : Hosting) : Label AcceptorEvent AcceptorCall → Prop
  | .event (.receive ec datagram sender _) => ec = .success → sender = h.client → h.Brings q ec datagram
  | .call (.connection c k) => (q.acceptor.state.conns c).endpoint = h.client →
      k.Proper (· < 2 ^ 32) ((Acceptor.view c).get q.acceptor.state)
  | _ => True

/-- What the guest hears, and what it is used for. -/
def Handshake.Guest (h : Handshake) (q : Hosting) (label : Label Event Call) : Prop :=
  Carries (mailTo h.client q.acceptor.state.env.sent) (hears q.guest label) ∧
    userProper (· < 2 ^ 32) q.guest.state label

inductive Hosting.Run (h : Handshake) (p : Hosting) : Hosting → Prop
  | refl : Hosting.Run h p p
  | host {q : Hosting} {c : Config Acceptor} (label : Label AcceptorEvent AcceptorCall) :
      Hosting.Run h p q → h.Modest q → h.Host q label →
      acceptorSystem.step q.acceptor label = some c → Hosting.Run h p ⟨c, q.guest⟩
  | guest {q : Hosting} {c : Config Local} (label : Label Event Call) :
      Hosting.Run h p q → h.Modest q → h.Guest q label →
      connectionSystem.step q.guest label = some c → Hosting.Run h p ⟨q.acceptor, c⟩

/-! ## Runs on fixed labels -/

section Decidable
variable (h : Handshake) (q : Hosting)

instance (a : Acceptor) (endpoint : Endpoint) : Decidable (a.Expects endpoint) :=
  inferInstanceAs (Decidable (∀ c, c < a.created → _ → _))

instance (ec : ErrorCode) (datagram : List UInt8) : Decidable (h.Brings q ec datagram) :=
  inferInstanceAs (Decidable ((_ → _ ∧ _) ∧ (_ → _)))

instance : Decidable (h.Modest q) :=
  inferInstanceAs (Decidable ((∀ c, c < q.acceptor.state.created → _ → _) ∧ _))

instance (label : Label AcceptorEvent AcceptorCall) : Decidable (h.Host q label) :=
  match label with
  | .event (.receive _ _ _ _) => inferInstanceAs (Decidable (_ → _ → _))
  | .event (.timer _ _) => inferInstanceAs (Decidable True)
  | .event (.posted _) => inferInstanceAs (Decidable True)
  | .call .asyncAccept => inferInstanceAs (Decidable True)
  | .call (.connection _ _) => inferInstanceAs (Decidable (_ → _))
  | .back => inferInstanceAs (Decidable True)
  | .answer _ => inferInstanceAs (Decidable True)
  | .raise => inferInstanceAs (Decidable True)
  | .caught => inferInstanceAs (Decidable True)
  | .unwind => inferInstanceAs (Decidable True)

instance (label : Label Event Call) : Decidable (h.Guest q label) :=
  inferInstanceAs (Decidable (_ ∧ _))

end Decidable

inductive HostingLabel where
  | host (label : Label AcceptorEvent AcceptorCall)
  | guest (label : Label Event Call)

def Hosting.turn (h : Handshake) (q : Hosting) : HostingLabel → Option Hosting
  | .host label =>
      if h.Modest q ∧ h.Host q label then
        (acceptorSystem.step q.acceptor label).map fun c => ⟨c, q.guest⟩
      else none
  | .guest label =>
      if h.Modest q ∧ h.Guest q label then
        (connectionSystem.step q.guest label).map fun c => ⟨q.acceptor, c⟩
      else none

def Hosting.exec (h : Handshake) : Hosting → List HostingLabel → Option Hosting
  | q, [] => some q
  | q, label :: rest => do
      let next ← q.turn h label
      next.exec h rest

theorem Hosting.Run.trans {h : Handshake} {p q r : Hosting} (before : Hosting.Run h p q)
    (after : Hosting.Run h q r) : Hosting.Run h p r := by
  induction after with
  | refl => exact before
  | host label _ modest allowed stepped ih => exact .host label ih modest allowed stepped
  | guest label _ modest allowed stepped ih => exact .guest label ih modest allowed stepped

theorem hosting_turn {h : Handshake} {q r : Hosting} {label : HostingLabel}
    (turned : q.turn h label = some r) : Hosting.Run h q r := by
  cases label with
  | host label =>
      obtain ⟨allowed, turned⟩ := Option.ite_none_right_eq_some.mp turned
      obtain ⟨c, stepped, rfl⟩ := Option.map_eq_some_iff.mp turned
      exact .host label .refl allowed.1 allowed.2 stepped
  | guest label =>
      obtain ⟨allowed, turned⟩ := Option.ite_none_right_eq_some.mp turned
      obtain ⟨c, stepped, rfl⟩ := Option.map_eq_some_iff.mp turned
      exact .guest label .refl allowed.1 allowed.2 stepped

theorem hosting_checked (h : Handshake) (q : Hosting) (labels : List HostingLabel)
    (check : Hosting → Bool) (ran : (q.exec h labels).map check = some true) :
    ∃ r, Hosting.Run h q r ∧ check r = true := by
  induction labels generalizing q with
  | nil => exact ⟨q, .refl, Option.some.inj ran⟩
  | cons label rest ih =>
      obtain ⟨r, reached, holds⟩ := Option.map_eq_some_iff.mp ran
      obtain ⟨next, turned, continued⟩ := Option.bind_eq_some_iff.mp reached
      obtain ⟨last, run, checked⟩ := ih next (Option.map_eq_some_iff.mpr ⟨r, continued, holds⟩)
      exact ⟨last, (hosting_turn turned).trans run, checked⟩

end AsioKcp
