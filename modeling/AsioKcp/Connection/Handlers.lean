import AsioKcp.Connection.Runs
import Mathlib.Data.List.Perm.Basic

/-! # Every handler is completed once

A handler is numbered by the call that took it.  It is pending in a slot, posted,
or invoked, and an event or an act only moves it along. -/
set_option autoImplicit false

namespace AsioKcp

open AsioKcp.Ikcp AsioKcp.Callback AsioKcp.Machine

def Task.handler? : Task → Option Nat
  | .completion c => some c.handler
  | .checkReadOp _ => none

/-- Where a handler is: its slot, the executor's queue, or among the invoked. -/
def Local.places (l : Local) (handler : Nat) : Nat :=
  l.conn.slots.count handler + (l.env.posted.filterMap Task.handler?).count handler +
    (l.env.invoked.map Completion.handler).count handler

/-- Every handler taken so far is in exactly one place, and no other is anywhere. -/
def OncePlaced (l : Local) : Prop :=
  ∀ handler, l.places handler = if handler < l.env.nextHandler then 1 else 0

theorem places_postCompletion (l : Local) (ec : ErrorCode) (handler : Nat) :
    (l.postCompletion ec).places handler =
      l.places handler + if l.env.nextHandler = handler then 1 else 0 := by
  simp only [Local.places, Local.postCompletion, List.filterMap_append, List.count_append,
    List.filterMap_cons, Task.handler?, List.filterMap_nil, List.count_singleton, beq_iff_eq]
  omega

theorem oncePlaced_next {l l' : Local} (once : OncePlaced l)
    (next : l'.env.nextHandler = l.env.nextHandler + 1)
    (placed : ∀ handler, l'.places handler =
      l.places handler + if l.env.nextHandler = handler then 1 else 0) : OncePlaced l' := by
  intro handler
  rw [placed, once handler, next]
  split_ifs <;> omega

theorem places_installRead {l : Local} (op : Nat → ReadOperation) (free : l.conn.readOp = none)
    (own : ∀ n, (op n).handler = n) (handler : Nat) :
    (l.installRead op).places handler =
      l.places handler + if l.env.nextHandler = handler then 1 else 0 := by
  simp only [Local.places, Local.installRead, Connection.slots, free, List.filterMap_append,
    List.count_append, List.filterMap_cons, Task.handler?, List.filterMap_nil, Option.toList_some,
    Option.toList_none, List.map_cons, List.map_nil, own, List.count_singleton, List.count_nil,
    beq_iff_eq]
  omega

theorem places_installWrite {l : Local} (free : l.conn.writeOp = none) (handler : Nat) :
    l.installWrite.places handler =
      l.places handler + if l.env.nextHandler = handler then 1 else 0 := by
  simp only [Local.places, Local.installWrite, Connection.slots, free, List.count_append,
    Option.toList_some, Option.toList_none, List.count_singleton, List.count_nil, beq_iff_eq]
  omega

theorem oncePlaced_same {l l' : Local} (once : OncePlaced l)
    (next : l'.env.nextHandler = l.env.nextHandler)
    (places : ∀ handler, l'.places handler = l.places handler) : OncePlaced l' := by
  intro handler
  rw [places, once handler, next]

/-- A change of the connection and of the environment that moves no handler. -/
theorem oncePlaced_frame {l l' : Local} (once : OncePlaced l)
    (slots : l'.conn.slots = l.conn.slots) (posted : l'.env.posted = l.env.posted)
    (invoked : l'.env.invoked = l.env.invoked)
    (next : l'.env.nextHandler = l.env.nextHandler) : OncePlaced l' :=
  oncePlaced_same once next fun handler => by rw [Local.places, slots, posted, invoked]; rfl

/-- Taking the read operation out of its slot and recording its completion. -/
theorem oncePlaced_read_done {l l' : Local} {op : ReadOperation} {c : Completion}
    (once : OncePlaced l) (pending : l.conn.readOp = some op) (readOp : l'.conn.readOp = none)
    (writeOp : l'.conn.writeOp = l.conn.writeOp) (posted : l'.env.posted = l.env.posted)
    (invoked : l'.env.invoked = l.env.invoked ++ [c]) (own : c.handler = op.handler)
    (next : l'.env.nextHandler = l.env.nextHandler) : OncePlaced l' := by
  refine oncePlaced_same once next fun handler => ?_
  simp only [Local.places, Connection.slots, readOp, writeOp, posted, invoked, pending,
    List.map_append, List.count_append, List.map_cons, List.map_nil, Option.toList_some,
    Option.toList_none, List.count_nil, List.count_singleton, own]
  omega

theorem oncePlaced_write_done {l : Local} {handler : Nat} (ec : ErrorCode) (once : OncePlaced l)
    (pending : l.conn.writeOp = some handler) :
    OncePlaced (l.takeWrite.record ⟨handler, ec, 0⟩) := by
  refine oncePlaced_same once rfl fun other => ?_
  simp only [Local.places, Connection.slots, Local.takeWrite, Local.record, pending,
    List.map_append, List.count_append, List.map_cons, List.map_nil, Option.toList_some,
    Option.toList_none, List.count_nil, List.count_singleton]
  omega

/-- A poll of the read operation keeps the accounts, unless a `prepare` throws. -/
theorem oncePlaced_pollRead {l : Local} (ec : ErrorCode) {op : ReadOperation}
    (pending : l.conn.readOp = some op) (once : l.env.refused = 0 → OncePlaced l) :
    (pollRead ec op l).2.env.refused = 0 → OncePlaced (pollRead ec op l).2 := by
  unfold pollRead
  by_cases success : ec = .success
  · subst success
    rw [if_neg (by simp)]
    cases op with
    | readSome handler size =>
        dsimp only
        split_ifs
        · exact fun fits => oncePlaced_read_done (once fits) pending rfl rfl rfl rfl rfl rfl
        · exact once
    | read handler buffer need =>
        dsimp only
        split_ifs
        · exact fun fits => absurd fits (Nat.succ_ne_zero _)
        · exact fun fits => oncePlaced_read_done (once fits) pending rfl rfl rfl rfl rfl rfl
        · exact once
  · rw [if_pos success]
    exact fun fits => oncePlaced_read_done (once fits) pending rfl rfl rfl rfl rfl rfl

theorem oncePlaced_act {T : Terms} {l l' : Local} (act : Act T l l')
    (once : l.env.refused = 0 → OncePlaced l) : l'.env.refused = 0 → OncePlaced l' := by
  cases act with
  | refuseRead _ => exact fun fits => oncePlaced_next (once fits) rfl (places_postCompletion l _)
  | readSome size _ free _ =>
      exact fun fits => oncePlaced_next (once fits) rfl
        (places_installRead _ free fun _ => rfl)
  | read buffer need _ free _ =>
      exact fun fits => oncePlaced_next (once fits) rfl
        (places_installRead _ free fun _ => rfl)
  | refuseWrite _ => exact fun fits => oncePlaced_next (once fits) rfl (places_postCompletion l _)
  | messageSize buffer _ _ _ _ =>
      exact fun fits => oncePlaced_next (once fits) rfl
        (places_postCompletion (l.writeRefused buffer) _)
  | write buffer _ _ _ _ =>
      exact fun fits => oncePlaced_next (once fits) rfl
        (places_postCompletion (l.write buffer) _)
  | writePending buffer _ free _ _ =>
      exact fun fits => oncePlaced_next (once fits) rfl
        (places_installWrite (l := l.write buffer) free)
  | streambuf id content => exact once
  | pollRead ec op pending _ _ => exact oncePlaced_pollRead ec pending once
  | pollWrite ec handler pending _ _ _ =>
      exact fun fits => oncePlaced_write_done ec (once fits) pending
  | beginClose _ =>
      rw [Local.beginClose, flush_eq]
      exact fun fits => oncePlaced_frame (once fits) rfl rfl rfl rfl
  | disconnect _ _ =>
      intro fits
      refine oncePlaced_frame (once fits) ?_ rfl rfl rfl
      unfold Local.disconnect
      dsimp only
      split <;> rfl
  | armReceive _ => exact once

/-- A task that leaves the queue of the executor is a handler that is invoked. -/
theorem oncePlaced_posted {l : Local} (i : Nat) (once : OncePlaced l) :
    OncePlaced (entry (.posted i) l) := by
  unfold entry
  dsimp only
  cases found : l.env.posted[i]? with
  | none => exact once
  | some task =>
      obtain ⟨inside, same⟩ := List.getElem?_eq_some_iff.mp found
      have split : l.env.posted.Perm (task :: l.env.posted.eraseIdx i) := by
        rw [← same]
        exact (List.getElem_cons_eraseIdx_perm inside).symm
      have counts : ∀ handler, (l.env.posted.filterMap Task.handler?).count handler =
          ((task :: l.env.posted.eraseIdx i).filterMap Task.handler?).count handler :=
        fun handler => (split.filterMap _).count_eq handler
      cases task with
      | completion c =>
          refine oncePlaced_same once rfl fun handler => ?_
          have moved := counts handler
          simp only [Task.handler?, List.filterMap_cons, List.count_cons] at moved
          simp only [Local.places, Local.record, List.map_append, List.map_cons, List.map_nil,
            List.count_append, List.count_singleton, moved]
          omega
      | checkReadOp connection =>
          refine oncePlaced_same once rfl fun handler => ?_
          have moved := counts handler
          simp only [Task.handler?, List.filterMap_cons] at moved
          simp only [Local.places, moved]

theorem oncePlaced_entry (e : Event) {l : Local} (once : OncePlaced l) :
    OncePlaced (entry e l) := by
  by_cases posted : ∃ i, e = .posted i
  · obtain ⟨i, rfl⟩ := posted
    exact oncePlaced_posted i once
  · have control := entry_control e l
    obtain ⟨datagrams, env⟩ := entry_env e l fun i same => posted ⟨i, same⟩
    refine oncePlaced_frame once ?_ (by rw [env]) (by rw [env]) (by rw [env])
    rw [Connection.slots, control.readOp, control.writeOp, Connection.slots]

theorem entry_refused (e : Event) (l : Local) : (entry e l).env.refused = l.env.refused := by
  by_cases posted : ∃ i, e = .posted i
  · obtain ⟨i, rfl⟩ := posted
    unfold entry
    dsimp only
    split
    · rfl
    · split <;> rfl
  · obtain ⟨datagrams, env⟩ := entry_env e l fun i same => posted ⟨i, same⟩
    rw [env]

/-! ## The whole run -/

/-- No handler lets an exception pass, and no `close` is given the success code. -/
def Orderly (_ : Config Local) (label : Label Event Call) : Prop :=
  label ≠ .unwind ∧ label ≠ .call (.close .success)

def Terms.orderly : Terms where
  strict := True
  reliable := False
  calls k _ := k ≠ .close .success
  closes := by
    rintro _ ec _ allowed rfl
    exact allowed rfl

theorem orderly_allows (c : Config Local) (label : Label Event Call) (ok : Orderly c label) :
    Terms.orderly.Allows c label :=
  ⟨fun unwinds => absurd unwinds ok.1, fun _ _ => False.elim,
    fun _ isCall same => ok.2 (isCall.trans (congrArg _ same))⟩

/-- What a call that finds its slot taken does: it posts an error for its handler
and leaves everything else, the pending operation included, as it was. -/
def RefusedCall (l l' : Local) : Prop :=
  l' = l.postCompletion (if l.conn.closed then .operationAborted else .inProgress)

structure HandlersSafe (c : Config Local) : Prop where
  /-- Unless a `prepare` has thrown. -/
  once : c.state.env.refused = 0 → OncePlaced c.state
  closedEmpty : c.Idle → c.state.closed → c.state.conn.readOp = none ∧ c.state.conn.writeOp = none
  secondRead : ∀ k, (∃ size, k = .asyncReadSome size) ∨ (∃ buffer need, k = .asyncRead buffer need) →
    c.state.conn.readOp ≠ none → ∀ c', connectionSystem.step c (.call k) = some c' →
      RefusedCall c.state c'.state
  secondWrite : ∀ buffer, c.state.conn.writeOp ≠ none →
    ∀ c', connectionSystem.step c (.call (.asyncWrite buffer)) = some c' →
      RefusedCall c.state c'.state

theorem secondRead_refused {c c' : Config Local} (op : Nat → ReadOperation) {k : Call}
    (initiates : runCall k = initiateAsyncRead op) (taken : c.state.conn.readOp ≠ none)
    (stepped : connectionSystem.step c (.call k) = some c') : RefusedCall c.state c'.state := by
  obtain ⟨_, rfl⟩ := step_call stepped
  change RefusedCall c.state (Config.enter c.stack (runCall k c.state)).state
  rw [initiates, initiateAsyncRead_eq, if_pos (Or.inl taken)]
  rfl

theorem secondWrite_refused {c c' : Config Local} {buffer : List UInt8}
    (taken : c.state.conn.writeOp ≠ none)
    (stepped : connectionSystem.step c (.call (.asyncWrite buffer)) = some c') :
    RefusedCall c.state c'.state := by
  obtain ⟨_, rfl⟩ := step_call stepped
  change RefusedCall c.state (Config.enter c.stack (asyncWrite buffer c.state)).state
  rw [asyncWrite_eq, if_pos (Or.inl taken)]
  rfl

theorem handlers_safe {conv : UInt32} {start c : Config Local} (started : Started conv start)
    (run : connectionSystem.Steps Orderly start c) : HandlersSafe c := by
  have initially : start.state.env.refused = 0 → OncePlaced start.state := by
    obtain ⟨l, rfl, shape⟩ := started.cases
    intro _ handler
    rcases shape with ⟨_, _, _, rfl⟩ | ⟨_, _, _, rfl⟩ <;> rfl
  obtain ⟨keeps, once⟩ := run_invariant (T := Terms.orderly) orderly_allows
    (J := fun l => l.env.refused = 0 → OncePlaced l)
    (fun c e _ once fits => oncePlaced_entry e (once (by rwa [entry_refused] at fits)))
    oncePlaced_act (started.keeps _) initially run
  refine ⟨once, fun idle closed => (meets_bottom keeps idle).2.1 trivial closed, ?_, ?_⟩
  · rintro k (⟨size, rfl⟩ | ⟨buffer, need, rfl⟩) taken c' stepped
    · exact secondRead_refused (fun h => .readSome h size) rfl taken stepped
    · exact secondRead_refused (fun h => .read h buffer need) rfl taken stepped
  · exact fun buffer taken c' stepped => secondWrite_refused taken stepped

/-- A server connection is opened, given a read, and closed with `ec`. -/
def readThenClose (ec : ErrorCode) : List (Label Event Call) :=
  [.event (.onReceive keepalive 24 0), .call (.asyncReadSome 16), .call (.close ec)]

theorem handlers_safe_eof : ∃ c, connectionSystem.run (serverStart 7 loopback 0 noStreambufs)
    (readThenClose .eof ++ [.back, .answer true]) = some c ∧ HandlersSafe c := by
  obtain ⟨c, ran, _⟩ := run_checked connectionSystem (serverStart 7 loopback 0 noStreambufs)
    (readThenClose .eof ++ [.back, .answer true]) (fun c => c.isIdle) (by decide)
  have run := steps_of_run connectionSystem
    (fun label => label ≠ .unwind ∧ label ≠ .call (.close .success)) _
    (by simp [readThenClose]) ran
  exact ⟨c, ran, handlers_safe (.server loopback 0 noStreambufs) run⟩

/-- `close` with the success code polls the pending read instead of completing
it, and leaves it in its slot. -/
theorem success_close_strands_read : ¬ ∀ c, connectionSystem.Steps
    (fun _ label => label ≠ .unwind ∧ label ≠ .raise) (serverStart 7 loopback 0 noStreambufs) c →
    c.state.env.refused = 0 → HandlersSafe c := by
  intro claim
  obtain ⟨c, ran, checked⟩ := run_checked connectionSystem
    (serverStart 7 loopback 0 noStreambufs) (readThenClose .success ++ [.answer true])
    (fun c => c.isIdle && c.state.conn.closed && c.state.conn.readOp.isSome &&
      c.state.env.refused == 0) (by decide)
  simp only [Bool.and_eq_true, beq_iff_eq] at checked
  obtain ⟨⟨⟨idle, closed⟩, pending⟩, fits⟩ := checked
  have run := steps_of_run connectionSystem (fun label => label ≠ .unwind ∧ label ≠ .raise)
    _ (by simp [readThenClose]) ran
  have isClosed : c.state.closed := of_decide_eq_true (p := c.state.conn.state = .closed) closed
  have empty := (claim c run fits).closedEmpty (idle_of_isIdle idle) isClosed
  simp [empty.1] at pending

end AsioKcp
