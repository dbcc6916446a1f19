import AsioKcp.Connection.Quiescence

/-! # What `close` has done when it returns

A `close` that finds the connection opened completes the pending operations and
hands over the disconnect datagram, whatever the handlers it runs do meanwhile;
on a closed connection everything has been done by an earlier one.  Its guard
lets the remaining state, `idle`, through as well. -/
set_option autoImplicit false

namespace AsioKcp

open AsioKcp.Ikcp AsioKcp.Callback AsioKcp.Machine

/-! ## What runs while a connection is closed -/

/-- A `close` is under way. -/
def Shutting (l : Local) : Prop := l.closed ∧ l.conn.disconnectSent = false

/-- No `close` is under way. -/
structure Resting (l : Local) : Prop where
  sent : l.conn.disconnectSent = true → l.closed
  done : l.closed → l.conn.disconnectSent = true ∧ l.conn.readOp = none ∧ l.conn.writeOp = none

/-- What the user does to a closed connection, from a handler or otherwise. -/
structure Aside (l l' : Local) : Prop where
  conn : l'.conn = l.conn
  invoked : l'.env.invoked = l.env.invoked

theorem runCall_closed (k : Call) {l : Local} (closed : l.closed) :
    ∃ l', runCall k l = .ret l' () ∧ Aside l l' := by
  have isClosed : l.conn.closed = true := decide_eq_true closed
  have other : l.conn.state ≠ .opened := by
    rw [show l.conn.state = .closed from closed]
    simp
  cases k with
  | asyncReadSome size =>
      refine ⟨_, initiateAsyncRead_eq _ l, ?_⟩
      rw [if_pos (Or.inr isClosed)]
      exact ⟨rfl, rfl⟩
  | asyncRead buffer need =>
      refine ⟨_, initiateAsyncRead_eq _ l, ?_⟩
      rw [if_pos (Or.inr isClosed)]
      exact ⟨rfl, rfl⟩
  | asyncWrite buffer =>
      refine ⟨_, asyncWrite_eq buffer l, ?_⟩
      rw [if_pos (Or.inr isClosed)]
      exact ⟨rfl, rfl⟩
  | close ec => exact ⟨l, close_not_opened ec other, rfl, rfl⟩
  | streambuf id content => exact ⟨_, rfl, rfl, rfl⟩

/-- The contract under which every `close` comes to its end. -/
def closingContract : Contract Local where
  relies P := (∀ l, P l → Resting l ∨ Shutting l) ∧
    (P = Resting ∨ ((∀ l, P l → l.closed) ∧ ∀ l l', P l → Aside l l' → P l'))
  passes l := ¬ Shutting l
  answers _ b := b = true
  guarantee _ _ := True
  refl _ := trivial
  trans _ _ := trivial

theorem relies_resting : closingContract.relies Resting :=
  ⟨fun _ => Or.inl, Or.inl rfl⟩

theorem resting_of_control {l l' : Local} (resting : Resting l)
    (closed : l'.closed ↔ l.closed) (sent : l'.conn.disconnectSent = l.conn.disconnectSent)
    (slots : l.closed → l'.conn.readOp = l.conn.readOp ∧ l'.conn.writeOp = l.conn.writeOp) :
    Resting l' where
  sent := by
    rw [sent, closed]
    exact resting.sent
  done := by
    intro isClosed
    have before := closed.mp isClosed
    rw [sent, (slots before).1, (slots before).2]
    exact resting.done before

/-! ## `close` on an opened connection -/

/-- The operations that were pending in the slots of `handlers` have been
completed with `ec`, except for the write in `left`. -/
structure Completing (handlers : List Nat) (ec : ErrorCode) (left : Option Nat) (l : Local) :
    Prop where
  shutting : Shutting l
  readOp : l.conn.readOp = none
  writeOp : l.conn.writeOp = left
  completed : ∀ handler ∈ handlers, handler ∈ left ∨ ⟨handler, ec, 0⟩ ∈ l.env.invoked

/-- The `close` has returned. -/
structure Finished (handlers : List Nat) (ec : ErrorCode) (l : Local) : Prop where
  resting : Resting l
  closed : l.closed
  completed : ∀ handler ∈ handlers, ⟨handler, ec, 0⟩ ∈ l.env.invoked

theorem relies_completing (handlers : List Nat) (ec : ErrorCode) (left : Option Nat) :
    closingContract.relies (Completing handlers ec left) := by
  refine ⟨fun l holds => Or.inr holds.shutting, Or.inr ⟨fun l holds => holds.shutting.1, ?_⟩⟩
  intro l l' holds aside
  refine ⟨?_, ?_, ?_, ?_⟩
  · rw [Shutting, Local.closed, aside.conn]
    exact holds.shutting
  · rw [aside.conn]
    exact holds.readOp
  · rw [aside.conn]
    exact holds.writeOp
  · rw [aside.invoked]
    exact holds.completed

theorem relies_finished (handlers : List Nat) (ec : ErrorCode) :
    closingContract.relies (Finished handlers ec) := by
  refine ⟨fun l holds => Or.inl holds.resting, Or.inr ⟨fun l holds => holds.closed, ?_⟩⟩
  intro l l' holds aside
  have closed : l'.closed ↔ l.closed := by rw [Local.closed, Local.closed, aside.conn]
  refine ⟨?_, closed.mpr holds.closed, ?_⟩
  · refine resting_of_control holds.resting closed ?_ fun _ => ⟨?_, ?_⟩ <;> rw [aside.conn]
  · rw [aside.invoked]
    exact holds.completed

/-- The success code, with which a poll only completes what is ready, is given
where nothing is pending. -/
def Unpolled (ec : ErrorCode) (l : Local) : Prop := ec = .success → l.conn.slots = []

section Close
variable {ec : ErrorCode}

theorem checkWriteOp_completing {handlers : List Nat} {left : Option Nat} {l : Local}
    (error : ec = .success → left = none) (completing : Completing handlers ec left l) :
    (checkWriteOp ec l).Meets closingContract (fun _ => Completing handlers ec none)
      (fun _ => False) l := by
  cases left with
  | none =>
      rw [checkWriteOp_none completing.writeOp]
      exact ⟨trivial, completing⟩
  | some handler =>
      have failed : ec ≠ .success := fun success => by cases error success
      rw [checkWriteOp_ready completing.writeOp (Or.inl failed)]
      have taken : Completing handlers ec none (l.takeWrite.record ⟨handler, ec, 0⟩) := by
        refine ⟨completing.shutting, completing.readOp, rfl, fun other member => Or.inr ?_⟩
        rcases completing.completed other member with same | past
        · cases same
          exact List.mem_append_right _ (List.mem_singleton_self _)
        · exact List.mem_append_left _ past
      refine ⟨trivial, _, relies_completing handlers ec none, taken, fun t holds => ⟨?_, ?_⟩⟩
      · exact ⟨trivial, holds⟩
      · exact fun passes => absurd holds.shutting passes

/-- The poll of `close` completes the pending operations with its error. -/
theorem checkReadOp_completing {handlers : List Nat} {l : Local} (unpolled : Unpolled ec l)
    (shutting : Shutting l) (slots : handlers = l.conn.slots) :
    (checkReadOp ec l).Meets closingContract (fun _ => Completing handlers ec none)
      (fun _ => False) l := by
  cases readOp : l.conn.readOp with
  | none =>
      have free : ec = .success → l.conn.writeOp = none := by
        intro success
        have empty := unpolled success
        rw [Connection.slots, readOp] at empty
        exact Option.toList_eq_nil_iff.mp empty
      rw [checkReadOp_none readOp]
      refine checkWriteOp_completing free ⟨shutting, readOp, rfl, fun handler member => ?_⟩
      rw [slots, Connection.slots, readOp] at member
      exact Or.inl (Option.mem_toList.mp member)
  | some op =>
      have error : ec ≠ .success := by
        intro success
        have empty := unpolled success
        rw [Connection.slots, readOp] at empty
        cases empty
      have polled : pollRead ec op l = (.done, l.takeRead.record ⟨op.handler, ec, 0⟩) :=
        if_pos error
      rw [checkReadOp_some readOp, polled]
      have taken : Completing handlers ec l.conn.writeOp
          (l.takeRead.record ⟨op.handler, ec, 0⟩) := by
        refine ⟨shutting, rfl, rfl, fun handler member => ?_⟩
        rw [slots, Connection.slots, readOp] at member
        rcases List.mem_cons.mp member with rfl | pending
        · exact Or.inr (List.mem_append_right _ (List.mem_singleton_self _))
        · exact Or.inl (Option.mem_toList.mp pending)
      refine ⟨trivial, _, relies_completing handlers ec _, taken, fun t holds => ⟨?_, ?_⟩⟩
      · exact checkWriteOp_completing (fun success => absurd success error) holds
      · exact fun passes => absurd holds.shutting passes

theorem close_finished {l : Local} (unpolled : Unpolled ec l) (opened : l.conn.state = .opened)
    (unsent : l.conn.disconnectSent = false) :
    (close ec l).Meets closingContract (fun _ => Finished l.conn.slots ec) (fun _ => False) l := by
  have begins : closingContract.guarantee l l.beginClose := trivial
  have shutting : Shutting l.beginClose := ⟨rfl, unsent⟩
  have slots : l.conn.slots = l.beginClose.conn.slots := rfl
  rw [close_opened ec opened]
  apply meets_from begins
  apply meets_bind
  refine meets_mono ?_ (fun _ => id) (checkReadOp_completing unpolled shutting slots)
  intro _ t completing
  refine ⟨trivial, ?_⟩
  rintro _ rfl
  obtain ⟨state, readOp, writeOp, sent⟩ := disconnect_control t
  have closed : t.disconnect.closed := state.trans completing.shutting.1
  refine ⟨trivial, ⟨fun _ => closed, fun _ => ⟨sent, ?_, ?_⟩⟩, closed, fun handler member => ?_⟩
  · rw [readOp, completing.readOp]
  · rw [writeOp, completing.writeOp]
  · exact (completing.completed handler member).resolve_left (by simp)

theorem close_finishes {l : Local} (unpolled : Unpolled ec l) (resting : Resting l) (busy : l.conn.state ≠ .idle) :
    (close ec l).Meets closingContract (fun _ => Finished l.conn.slots ec)
      (Finished l.conn.slots ec) l := by
  cases state : l.conn.state with
  | idle => exact absurd state busy
  | opened =>
      have unsent : l.conn.disconnectSent = false := by
        by_contra sent
        have closed := resting.sent (by simpa using sent)
        rw [Local.closed, state] at closed
        cases closed
      exact meets_mono (fun _ _ h => h) (fun _ h => h.elim) (close_finished unpolled state unsent)
  | closed =>
      obtain ⟨_, readOp, writeOp⟩ := resting.done state
      rw [close_not_opened ec (by simp [state])]
      refine ⟨trivial, resting, state, fun handler member => ?_⟩
      rw [Connection.slots, readOp, writeOp] at member
      cases member

theorem close_resting {l : Local} (unpolled : Unpolled ec l) (resting : Resting l) :
    (close ec l).Meets closingContract (fun _ => Resting) Resting l := by
  by_cases idle : l.conn.state = .idle
  · rw [close_not_opened ec (by simp [idle])]
    exact ⟨trivial, resting⟩
  · exact meets_mono (fun _ _ finished => finished.resting) (fun _ finished => finished.resting)
      (close_finishes unpolled resting idle)

end Close

/-! ## The rest of the code -/

theorem resting_call (k : Call) {l : Local} (resting : Resting l)
    (unpolled : ∀ ec, k = .close ec → Unpolled ec l) :
    (runCall k l).Meets closingContract (fun _ => Resting) Resting l := by
  by_cases closed : l.closed
  · obtain ⟨l', returned, aside⟩ := runCall_closed k closed
    rw [returned]
    refine ⟨trivial, resting_of_control resting ?_ ?_ fun _ => ⟨?_, ?_⟩⟩
    · rw [Local.closed, Local.closed, aside.conn]
    · rw [aside.conn]
    · rw [aside.conn]
    · rw [aside.conn]
  · have kept : ∀ {l' : Local}, l'.conn.state = l.conn.state →
        l'.conn.disconnectSent = l.conn.disconnectSent → Resting l' := by
      intro l' state sent
      refine resting_of_control resting ?_ sent fun isClosed => absurd isClosed closed
      rw [Local.closed, Local.closed, state]
    cases k with
    | asyncReadSome size =>
        change (initiateAsyncRead _ l).Meets _ _ _ _
        rw [initiateAsyncRead_eq]
        split <;> exact ⟨trivial, kept rfl rfl⟩
    | asyncRead buffer need =>
        change (initiateAsyncRead _ l).Meets _ _ _ _
        rw [initiateAsyncRead_eq]
        split <;> exact ⟨trivial, kept rfl rfl⟩
    | asyncWrite buffer =>
        change (asyncWrite buffer l).Meets _ _ _ _
        rw [asyncWrite_eq]
        split_ifs <;> exact ⟨trivial, kept rfl rfl⟩
    | close ec => exact close_resting (unpolled ec rfl) resting
    | streambuf id content => exact ⟨trivial, kept rfl rfl⟩

theorem call_closing (k : Call) {P : Local → Prop} {l : Local}
    (unpolled : ∀ ec, k = .close ec → Unpolled ec l) (member : closingContract.relies P)
    (holds : P l) : (runCall k l).Meets closingContract (fun _ => P) P l := by
  obtain ⟨_, rfl | ⟨closed, stable⟩⟩ := member
  · exact resting_call k holds unpolled
  · obtain ⟨l', returned, aside⟩ := runCall_closed k (closed l holds)
    rw [returned]
    exact ⟨trivial, stable l l' holds aside⟩

theorem checkWriteOp_resting {l : Local} (resting : Resting l) :
    (checkWriteOp .success l).Meets closingContract (fun _ => Resting) Resting l := by
  cases pending : l.conn.writeOp with
  | none =>
      rw [checkWriteOp_none pending]
      exact ⟨trivial, resting⟩
  | some handler =>
      by_cases ready : writeReady .success l
      · have taken : Resting (l.takeWrite.record ⟨handler, .success, 0⟩) :=
          ⟨resting.sent, fun closed => ⟨(resting.done closed).1, (resting.done closed).2.1, rfl⟩⟩
        rw [checkWriteOp_ready pending ready]
        refine ⟨trivial, Resting, relies_resting, taken, fun t holds => ⟨?_, fun _ => ?_⟩⟩
        · exact ⟨trivial, holds⟩
        · exact ⟨trivial, holds⟩
      · rw [checkWriteOp_pending ready]
        exact ⟨trivial, resting⟩

theorem checkReadOp_resting {l : Local} (resting : Resting l) :
    (checkReadOp .success l).Meets closingContract (fun _ => Resting) Resting l := by
  cases readOp : l.conn.readOp with
  | none =>
      rw [checkReadOp_none readOp]
      exact checkWriteOp_resting resting
  | some op =>
      have opened : ¬ l.closed := by
        intro closed
        have empty := (resting.done closed).2.1
        rw [readOp] at empty
        cases empty
      have control := pollRead_control .success op l
      have kept : Resting (pollRead .success op l).2 := by
        refine resting_of_control resting ?_ control.2.1 fun closed => absurd closed opened
        rw [Local.closed, Local.closed, control.1]
      rw [checkReadOp_some readOp]
      rcases polled : pollRead .success op l with ⟨outcome, l'⟩
      rw [polled] at kept
      cases outcome with
      | pending => exact meets_from trivial (checkWriteOp_resting kept)
      | refused => exact ⟨trivial, kept⟩
      | done =>
          refine ⟨trivial, Resting, relies_resting, kept, fun t holds => ⟨?_, fun _ => ?_⟩⟩
          · exact checkWriteOp_resting holds
          · exact ⟨trivial, holds⟩

theorem event_closing (e : Event) {l : Local} (resting : Resting l) :
    (runEvent e l).Meets closingContract (fun _ => Resting) Resting l := by
  have control := entry_control e l
  have entered : Resting (entry e l) :=
    resting_of_control resting control.closed control.disconnectSent
      fun _ => ⟨control.readOp, control.writeOp⟩
  have rearmed : ∀ {rest : Comp Local Unit} {t : Local}, Rearms rest → Resting t →
      (rest t).Meets closingContract (fun _ => Resting) Resting t := by
    rintro rest t (rfl | rfl) holds
    · exact ⟨trivial, holds⟩
    · simp only [doReceive, Comp.bind_apply, Comp.get_apply, Prog.bind_ret, Comp.ite_apply]
      split
      · exact ⟨trivial, holds⟩
      · exact ⟨trivial, holds.sent, holds.done⟩
  obtain ⟨first, rest, continues, rearms, shape⟩ := runEvent_continues e l
  have begins : closingContract.guarantee l (entry e l) := trivial
  rw [shape]
  apply meets_from begins
  apply meets_bind
  refine meets_mono (fun _ t holds => rearmed rearms holds) (fun _ holds => holds) ?_
  cases continues with
  | idle _ => exact ⟨trivial, entered⟩
  | handler _ =>
      refine ⟨trivial, Resting, relies_resting, entered, fun t holds => ⟨?_, fun _ => ?_⟩⟩
      · exact ⟨trivial, holds⟩
      · exact ⟨trivial, holds⟩
  | poll _ => exact checkReadOp_resting entered
  | close ec _ error => exact close_resting (fun success => absurd success error) entered

/-! ## Runs -/

/-- A `close` with an operation pending is given an error code, no exception
leaves a `close`, and no send of a disconnect datagram fails. -/
def Ends (c : Config Local) (label : Label Event Call) : Prop :=
  (∀ ec, label = .call (.close ec) → Unpolled ec c.state) ∧ label ≠ .answer false ∧
    (label = .unwind → ¬ Shutting c.state)

theorem ends_respects (c : Config Local) (label : Label Event Call) (ends : Ends c label) :
    Respects closingContract c label where
  passes := ends.2.2
  answers := by
    rintro (_ | _) rfl
    · exact absurd rfl ends.2.1
    · rfl

theorem ends_call (c : Config Local) (k : Call) (P : Local → Prop) (ends : Ends c (.call k))
    (member : closingContract.relies P) (holds : P c.state) :
    (runCall k c.state).Meets closingContract (fun _ => P) P c.state := by
  apply call_closing k ?_ member holds
  rintro ec rfl
  exact ends.1 ec rfl

theorem run_closing {conv : UInt32} {start c : Config Local} (started : Started conv start)
    (run : connectionSystem.Steps Ends start c) : c.Meets closingContract Resting := by
  induction run with
  | refl =>
      obtain ⟨l, rfl, shape⟩ := started.cases
      apply idle_meets relies_resting
      rcases shape with ⟨_, _, _, rfl⟩ | ⟨_, _, _, rfl⟩ <;>
        exact ⟨by simp [Connection.make, clientLocal],
          by simp [Local.closed, Connection.make, clientLocal]⟩
  | @tail d e label _ ends stepped ih =>
      refine (step_meets connectionSystem d.state (ends_respects d label ends) ih stepped
        (fun _ => rfl) ?_ ?_).2
      · exact fun e _ resting => ⟨relies_resting, event_closing e resting⟩
      · rintro k P rfl member holds
        exact ends_call d k P ends member holds

/-! ## The disconnect datagram -/

def disconnectTo (dest : Endpoint) : Datagram :=
  ⟨dest, opcodeDisconnect :: List.replicate 32 0⟩

/-- The disconnect datagrams of a connection's whole life. -/
def Local.disconnects (l : Local) : List Datagram :=
  l.env.sent.filter fun d => d.bytes.head? = some opcodeDisconnect

/-- The peer has been sent no disconnect datagram but the one that is recorded. -/
structure DisconnectsOnce (peer : Endpoint) (l : Local) : Prop where
  endpoint : l.conn.endpoint = peer
  once : l.disconnects = if l.conn.disconnectSent then [disconnectTo peer] else []

theorem disconnects_data {l l' : Local} (datagrams : List (List UInt8))
    (sent : l'.env.sent = l.env.sent ++ dataDatagrams l.conn.endpoint datagrams) :
    l'.disconnects = l.disconnects := by
  have none : (dataDatagrams l.conn.endpoint datagrams).filter
      (fun d => d.bytes.head? = some opcodeDisconnect) = [] := by
    rw [List.filter_eq_nil_iff]
    intro d member
    obtain ⟨bytes, _, rfl⟩ := List.mem_map.mp member
    simp [opcodeData, opcodeDisconnect]
  rw [Local.disconnects, sent, List.filter_append, none, List.append_nil, Local.disconnects]

theorem disconnectsOnce_frame {peer : Endpoint} {l l' : Local} (before : DisconnectsOnce peer l)
    (endpoint : l'.conn.endpoint = l.conn.endpoint)
    (sent : l'.conn.disconnectSent = l.conn.disconnectSent)
    (disconnects : l'.disconnects = l.disconnects) : DisconnectsOnce peer l' where
  endpoint := endpoint.trans before.endpoint
  once := by
    rw [disconnects, sent]
    exact before.once

theorem disconnectsOnce_act {T : Terms} {peer : Endpoint} {l l' : Local} (act : Act T l l')
    (before : DisconnectsOnce peer l) : DisconnectsOnce peer l' := by
  have endpoint := (act_onward act).endpoint
  cases act with
  | pollRead ec op _ _ _ =>
      obtain ⟨bytes, taken, polled⟩ := pollRead_stream ec op l
      have control := pollRead_control ec op l
      refine disconnectsOnce_frame before endpoint control.2.1 ?_
      rw [Local.disconnects, polled.sent, Local.disconnects]
  | beginClose _ =>
      refine disconnectsOnce_frame before endpoint ?_
        (disconnects_data (ikcpFlush l.conn.obj).2 ?_)
      · rw [Local.beginClose, flush_eq]
      · rw [Local.beginClose, flush_eq]
  | disconnect _ unsent =>
      obtain ⟨_, _, _, recorded⟩ := disconnect_control l
      have nothing := before.once
      have sent : l.disconnect.env.sent = l.env.sent ++ [disconnectTo l.conn.endpoint] := rfl
      rw [unsent] at nothing
      refine ⟨endpoint.trans before.endpoint, ?_⟩
      rw [Local.disconnects] at nothing ⊢
      rw [recorded, sent, List.filter_append, nothing, before.endpoint]
      rfl
  | _ => exact disconnectsOnce_frame before endpoint rfl rfl

theorem disconnectsOnce_entry (e : Event) {peer : Endpoint} {l : Local}
    (before : DisconnectsOnce peer l) : DisconnectsOnce peer (entry e l) := by
  apply disconnectsOnce_frame before (entry_constructed e l).2 (entry_control e l).disconnectSent
  cases entry_effect e l with
  | same _ sent => rw [Local.disconnects, sent, Local.disconnects]
  | updated now _ sent => exact disconnects_data _ sent
  | received _ _ _ _ _ _ sent => rw [Local.disconnects, sent, Local.disconnects]

/-- In every state of every run the peer has been sent at most one disconnect
datagram. -/
theorem run_disconnectsOnce {conv : UInt32} {start c : Config Local} (started : Started conv start)
    (run : connectionSystem.Steps (fun _ _ => True) start c) :
    DisconnectsOnce start.state.conn.endpoint c.state := by
  have initially : DisconnectsOnce start.state.conn.endpoint start.state := by
    obtain ⟨l, rfl, shape⟩ := started.cases
    rcases shape with ⟨_, _, _, rfl⟩ | ⟨_, _, _, rfl⟩ <;> exact ⟨rfl, rfl⟩
  exact (run_invariant (T := Terms.any) (fun c label _ => Terms.any_allows c label)
    (J := DisconnectsOnce start.state.conn.endpoint)
    (fun _ e _ before => disconnectsOnce_entry e before)
    disconnectsOnce_act (started.keeps _) initially run).2

/-! ## After the call -/

def Any (_ : Config Local) (_ : Label Event Call) : Prop := True

/-- The step is taken while the call made in `c` is under way. -/
def During (c : Config Local) (d : Config Local) (label : Label Event Call) : Prop :=
  Ends d label ∧ Inside c.stack d label

def Transfers : Call → Prop
  | .asyncReadSome _ => True
  | .asyncRead _ _ => True
  | .asyncWrite _ => True
  | .close _ => False
  | .streambuf _ _ => False

/-- A `close(ec)` called in `c` that has returned in `m` has been effective. -/
structure CloseEffective (c m : Config Local) (ec : ErrorCode) : Prop where
  closed : ∀ e, connectionSystem.Steps Any m e → e.state.conn.closed = true
  completed : ∀ handler ∈ c.state.conn.slots, ⟨handler, ec, 0⟩ ∈ m.state.env.invoked
  refused : ∀ e k e', connectionSystem.Steps Any m e → Transfers k →
    connectionSystem.step e (.call k) = some e' →
    e' = { e with state := e.state.postCompletion .operationAborted }
  disconnects : ∀ e, connectionSystem.Steps Any m e →
    e.state.disconnects = [disconnectTo c.state.conn.endpoint]

theorem runCall_refused {k : Call} (transfers : Transfers k) {l : Local} (closed : l.closed) :
    runCall k l = .ret (l.postCompletion .operationAborted) () := by
  have isClosed : l.conn.closed = true := decide_eq_true closed
  cases k with
  | asyncReadSome size =>
      refine (initiateAsyncRead_eq _ l).trans ?_
      rw [if_pos (Or.inr isClosed), if_pos isClosed]
  | asyncRead buffer need =>
      refine (initiateAsyncRead_eq _ l).trans ?_
      rw [if_pos (Or.inr isClosed), if_pos isClosed]
  | asyncWrite buffer =>
      refine (asyncWrite_eq buffer l).trans ?_
      rw [if_pos (Or.inr isClosed), if_pos isClosed]
  | close ec => exact transfers.elim
  | streambuf id content => exact transfers.elim

theorem step_refused {k : Call} (transfers : Transfers k) {e e' : Config Local}
    (closed : e.state.closed) (stepped : connectionSystem.step e (.call k) = some e') :
    e' = { e with state := e.state.postCompletion .operationAborted } := by
  obtain ⟨running, rfl⟩ := step_call stepped
  have returns : connectionSystem.call k e.state = _ := runCall_refused transfers closed
  rw [returns, Config.enter, running]

/-- Once it is gone, a connection is gone for the rest of the run. -/
theorem run_gone {c d : Config Local} (keeps : Keeps Terms.any c) (gone : Gone c.state)
    (run : connectionSystem.Steps Any c d) : Gone d.state :=
  (run_invariant (T := Terms.any) (fun c label _ => Terms.any_allows c label)
    (J := Gone) (fun _ e _ gone => gone_entry e gone)
    (fun act gone => (quiescent_act act gone).2) keeps gone run).2

theorem finished_effective {conv : UInt32} {start c m : Config Local} {ec : ErrorCode}
    (started : Started conv start) (before : connectionSystem.Steps Any start c)
    (call : connectionSystem.Steps Any c m) (finished : Finished c.state.conn.slots ec m.state) :
    CloseEffective c m ec := by
  have toM := before.trans call
  have keeps : Keeps Terms.any m :=
    (run_invariant (T := Terms.any) (fun c label _ => Terms.any_allows c label)
      (J := fun _ => True) (fun _ _ _ _ => trivial) (fun _ _ => trivial)
      (started.keeps _) trivial toM).1
  have sent := (finished.resting.done finished.closed).1
  have gone : ∀ e, connectionSystem.Steps Any m e → Gone e.state :=
    fun e after => run_gone keeps ⟨finished.closed, sent⟩ after
  refine ⟨fun e after => ?_, finished.completed, fun e k e' after transfers stepped => ?_,
    fun e after => ?_⟩
  · exact decide_eq_true (gone e after).1
  · exact step_refused transfers (gone e after).1 stepped
  · have once := run_disconnectsOnce started (toM.trans after)
    have peer := (run_disconnectsOnce started before).endpoint
    rw [once.once, (gone e after).2, peer]
    rfl

/-- A `close` is effective exactly when it finds the connection opened, or closed
by a `close` that has ended. -/
theorem close_effective_iff {conv : UInt32} {start c d : Config Local} {ec : ErrorCode}
    (started : Started conv start) (run : connectionSystem.Steps Ends start c)
    (unpolled : Unpolled ec c.state) (called : connectionSystem.step c (.call (.close ec)) = some d) :
    (∀ m, connectionSystem.Steps (During c) d m → m.Back c.stack → CloseEffective c m ec) ↔
      c.state.conn.state ≠ .idle ∧ ¬ Shutting c.state := by
  have before : connectionSystem.Steps Any start c := run.mono fun _ _ _ => trivial
  obtain ⟨running, entered⟩ := step_call called
  constructor
  · intro effective
    -- a guarded `close` returns at once, in the state it was called in
    have unchanged : c.state.conn.state ≠ .opened → CloseEffective c c ec := by
      intro other
      have returned : connectionSystem.call (.close ec) c.state = .ret c.state () :=
        close_not_opened ec other
      rw [returned] at entered
      have same : d = c := by rw [entered, Config.enter, ← running]
      rw [same] at effective
      exact effective c .refl ⟨rfl, running⟩
    refine ⟨fun idle => ?_, fun shutting => ?_⟩
    · have closed := (unchanged (by simp [idle])).closed c .refl
      rw [Connection.closed, idle] at closed
      cases closed
    · have other : c.state.conn.state ≠ .opened := by
        rw [show c.state.conn.state = .closed from shutting.1]
        simp
      have one := (unchanged other).disconnects c .refl
      rw [(run_disconnectsOnce started before).once, shutting.2] at one
      cases one
  · rintro ⟨busy, ended⟩ m inside back
    obtain ⟨P, member, _, holds⟩ := run_closing started run
    rw [running] at holds
    have resting : Resting c.state := (member.1 c.state holds).resolve_right ended
    have call : connectionSystem.Steps Any c m := by
      have first : connectionSystem.Steps Any c d := .tail _ .refl trivial called
      exact first.trans (inside.mono fun _ _ _ => trivial)
    apply finished_effective started before call
    rw [entered] at inside
    exact back_meets ends_respects ends_call (relies_finished c.state.conn.slots ec)
      (close_finishes unpolled resting busy) inside back

/-- A server connection is opened and given a read. -/
def openedWithRead : List (Label Event Call) :=
  [.event (.onReceive keepalive 24 0), .call (.asyncReadSome 16)]

theorem close_effective_iff_eof : ∃ c d m,
    connectionSystem.Steps Ends (serverStart 7 loopback 0 noStreambufs) c ∧
      c.state.conn.slots = [0] ∧ connectionSystem.step c (.call (.close .eof)) = some d ∧
      connectionSystem.Steps (During c) d m ∧ m.Back c.stack ∧ CloseEffective c m .eof := by
  obtain ⟨c, atC, checked⟩ := run_checked connectionSystem (serverStart 7 loopback 0 noStreambufs)
    openedWithRead
    (fun c => c.isIdle && c.state.conn.state == .opened && c.state.conn.slots == [0]) (by decide)
  simp only [Bool.and_eq_true, beq_iff_eq] at checked
  obtain ⟨⟨idle, opened⟩, slots⟩ := checked
  obtain ⟨d, called, atD, framed⟩ := step_checked connectionSystem atC (.call (.close .eof))
    (fun d => !d.stack.isEmpty) (by decide)
  obtain ⟨e, back, atE, asking⟩ := step_checked connectionSystem atD .back
    (fun e => !e.isIdle && e.stack.isEmpty) (by decide)
  obtain ⟨m, answered, _, returned⟩ := step_checked connectionSystem atE (.answer true)
    (fun m => m.isIdle) (by decide)
  have empty : c.stack = [] := (idle_of_isIdle idle).1
  have run : connectionSystem.Steps Ends (serverStart 7 loopback 0 noStreambufs) c :=
    (steps_of_run connectionSystem (fun label => (∀ ec, label ≠ .call (.close ec)) ∧
      label ≠ .answer false ∧ label ≠ .unwind) _ (by simp [openedWithRead]) atC).mono
      fun _ _ allowed => ⟨fun ec isClose => absurd isClose (allowed.1 ec), allowed.2.1,
        fun unwinds => absurd unwinds allowed.2.2⟩
  have first : During c d .back := by
    refine ⟨⟨by simp, by simp, by simp⟩, fun home => ?_, by simp⟩
    rw [home.1, empty] at framed
    cases framed
  have second : During c e (.answer true) := by
    refine ⟨⟨by simp, by simp, by simp⟩, fun home => ?_, by simp⟩
    have ended : e.isIdle = true := by rw [Config.isIdle, home.1, home.2, empty]
    rw [ended] at asking
    cases asking
  have home : m.Back c.stack := by
    rw [empty]
    exact idle_of_isIdle returned
  have inside : connectionSystem.Steps (During c) d m :=
    .tail _ (.tail _ .refl first back) second answered
  have busy : c.state.conn.state ≠ .idle ∧ ¬ Shutting c.state := by
    rw [Shutting, Local.closed, opened]
    simp
  have unpolled : Unpolled .eof c.state := by
    intro success
    cases success
  exact ⟨c, d, m, run, slots, called, inside, home, (close_effective_iff
    (.server loopback 0 noStreambufs) run unpolled called).mpr busy m inside home⟩

/-- `close` lets a connection through that has not yet received a datagram. -/
theorem idle_close_ineffective : ¬ ∀ c d m ec,
    connectionSystem.Steps Any (serverStart 7 loopback 0 noStreambufs) c → ec ≠ .success →
    connectionSystem.step c (.call (.close ec)) = some d →
    connectionSystem.Steps (During c) d m → m.Back c.stack → CloseEffective c m ec := by
  intro claim
  have effective := claim (serverStart 7 loopback 0 noStreambufs)
    (serverStart 7 loopback 0 noStreambufs) (serverStart 7 loopback 0 noStreambufs)
    .operationAborted .refl (by simp) rfl .refl ⟨rfl, rfl⟩
  have closed := effective.closed _ .refl
  cases closed

end AsioKcp
