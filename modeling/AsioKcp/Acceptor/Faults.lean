import AsioKcp.Acceptor.Accepts
import AsioKcp.Acceptor.Served
import AsioKcp.Connection.Handlers

/-! # Failures of one connection

A disconnect send that fails and a `prepare` that is refused throw.  In a call of
the user and in `handshark` the exception stays there; in `do_update` and in the
`on_receive` of `do_receive` it ends the coroutine that serves every connection. -/
set_option autoImplicit false

namespace AsioKcp

open AsioKcp.Ikcp AsioKcp.Callback AsioKcp.Machine AsioKcp.Bytes

/-! ## The end of `close` in a client -/

/-- The run is orderly, and every disconnect send is taken. -/
def Sending (c : Config Local) (label : Label Event Call) : Prop :=
  Orderly c label ∧ label ≠ .answer false

def Terms.sending : Terms where
  strict := True
  reliable := True
  calls k _ := k ≠ .close .success
  closes := Terms.orderly.closes

end AsioKcp
