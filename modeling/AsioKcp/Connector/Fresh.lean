import AsioKcp.Connector.Code

/-! # Fresh conversation ids

The requests carry increasing values as long as no request is built from the value
of the last one, no answer takes the counter back behind it, and no increment wraps. -/
set_option autoImplicit false

namespace AsioKcp

open AsioKcp.Bytes

/-- The conv values in the requests, in the order in which they were sent. -/
def Connector.convs (t : Connector) : List UInt32 := t.requests.map ConnectRequest.conv

/-- The step does not take a value a second time: a connect completes when a call
has begun, or an answer has moved the counter on, since the last request. -/
def Connector.Advances (t : Connector) : ConnectEvent → Prop
  | .asyncConnect _ _ => t.conv.toNat + 1 < 2 ^ 32
  | .connected _ ec => ec = .success → t.convs.getLast? ≠ some t.conv
  | .sent _ _ => True
  | .received _ ec datagram => ec = .success →
      ∀ conv, connectResult datagram = .ok conv →
        ∀ last, t.convs.getLast? = some last → last.toNat ≤ conv.toNat

/-- The values increase, and the counter is not behind them. -/
structure Connector.Ordered (t : Connector) : Prop where
  increasing : t.convs.Pairwise fun a b => a.toNat < b.toNat
  behind : ∀ conv ∈ t.convs, conv.toNat ≤ t.conv.toNat

theorem connectRequest_conv (call : ConnectCall) (conv : UInt32) : (call.request conv).conv = conv := by
  have dropped : (connectRequest call.magic conv).drop (1 + call.magic.length) = le32 conv := by
    rw [connectRequest, Nat.add_comm, List.cons_append, List.drop_succ_cons]
    exact List.drop_left
  simp only [ConnectCall.request, ConnectRequest.conv, dropped]
  exact read32_le32_append conv []

theorem convs_append {t t' : Connector} {call : ConnectCall} {conv : UInt32}
    (sent : t'.requests = t.requests ++ [call.request conv]) :
    t'.convs = t.convs ++ [conv] := by
  rw [Connector.convs, sent, List.map_append, List.map_singleton, connectRequest_conv]
  rfl

/-- The last value is the largest. -/
theorem Connector.Ordered.last {t : Connector} (ordered : t.Ordered) {conv : UInt32}
    (member : conv ∈ t.convs) :
    ∃ last, t.convs.getLast? = some last ∧ conv.toNat ≤ last.toNat := by
  have increasing := ordered.increasing
  obtain ⟨front, last, split⟩ :=
    t.convs.eq_nil_or_concat'.resolve_left (List.ne_nil_of_mem member)
  rw [split] at member increasing ⊢
  refine ⟨last, List.getLast?_concat, ?_⟩
  rcases List.mem_append.mp member with earlier | final
  · exact le_of_lt ((List.pairwise_append.mp increasing).2.2 conv earlier last List.mem_cons_self)
  · exact le_of_eq (congrArg UInt32.toNat (List.mem_singleton.mp final))

/-- A request that is built from another value than the last is the largest. -/
theorem Connector.Ordered.append {t t' : Connector} (ordered : t.Ordered)
    (advanced : t.convs.getLast? ≠ some t.conv) (kept : t'.conv = t.conv)
    (sent : t'.convs = t.convs ++ [t.conv]) : t'.Ordered := by
  have ahead : ∀ conv ∈ t.convs, conv.toNat < t.conv.toNat := by
    intro conv member
    obtain ⟨last, isLast, below⟩ := ordered.last member
    have bounded := ordered.behind last (List.mem_of_getLast? isLast)
    have differs : last.toNat ≠ t.conv.toNat := by
      intro same
      exact advanced (isLast.trans (congrArg some (UInt32.toNat_inj.mp same)))
    omega
  constructor
  · rw [sent, List.pairwise_append]
    refine ⟨ordered.increasing, List.pairwise_singleton _ _, fun conv member next isNext => ?_⟩
    rw [List.mem_singleton.mp isNext]
    exact ahead conv member
  · intro conv member
    rw [sent, List.mem_append, List.mem_singleton] at member
    rw [kept]
    rcases member with earlier | rfl
    · exact le_of_lt (ahead conv earlier)
    · exact le_rfl

/-- The requests stay, and the counter stays in front of them. -/
theorem Connector.Ordered.move {t t' : Connector} (ordered : t.Ordered)
    (sent : t'.requests = t.requests)
    (front : ∀ conv ∈ t.convs, conv.toNat ≤ t'.conv.toNat) : t'.Ordered := by
  have convs : t'.convs = t.convs := congrArg (List.map ConnectRequest.conv) sent
  constructor
  · rw [convs]
    exact ordered.increasing
  · rw [convs]
    exact front

theorem Connector.Ordered.step {t t' : Connector} {e : ConnectEvent} (ordered : t.Ordered)
    (advances : t.Advances e) (stepped : t.step e = some t') : t'.Ordered := by
  rcases Connector.step_cases stepped with ⟨endpoint, magic, rfl, counted, sent⟩ |
      ⟨i, call, rfl, _, kept, sent⟩ | ⟨i, datagram, conv, rfl, result, set, sent⟩ | ⟨kept, sent⟩
  · refine ordered.move sent fun conv member => ?_
    have wraps : t.conv.toNat + 1 < 2 ^ 32 := advances
    have next : (t.conv + 1).toNat = t.conv.toNat + 1 := by
      rw [UInt32.toNat_add]
      exact Nat.mod_eq_of_lt wraps
    rw [counted, next]
    exact Nat.le_succ_of_le (ordered.behind conv member)
  · exact ordered.append (advances rfl) kept (convs_append sent)
  · refine ordered.move sent fun earlier member => ?_
    obtain ⟨last, isLast, below⟩ := ordered.last member
    rw [set]
    exact below.trans (advances rfl conv result last isLast)
  · refine ordered.move sent fun conv member => ?_
    rw [kept]
    exact ordered.behind conv member

theorem reached_ordered {t : Connector} (run : Connector.Reaches Connector.Advances t) :
    t.Ordered := by
  induction run with
  | refl => exact ⟨List.Pairwise.nil, fun _ member => absurd member List.not_mem_nil⟩
  | tail _ step ih =>
      obtain ⟨e, advances, stepped⟩ := step
      exact ih.step advances stepped

theorem convs_nodup {t : Connector} (run : Connector.Reaches Connector.Advances t) :
    t.convs.Nodup :=
  (reached_ordered run).increasing.imp fun smaller same => by
    rw [same] at smaller
    exact lt_irrefl _ smaller

/-- Two calls wait in their connect together; an answer comes after the next request. -/
theorem convs_repeat :
    let overlapping : List ConnectEvent := [.asyncConnect loopback [], .asyncConnect loopback [],
      .connected 0 .success, .connected 1 .success, .sent 0 .success, .sent 1 .success]
    let answered : List ConnectEvent := [.asyncConnect loopback [], .connected 0 .success,
      .sent 0 .success, .asyncConnect loopback [], .connected 1 .success,
      .received 0 .success (opcodeHandsharkResponse :: le32 1), .asyncConnect loopback [],
      .connected 2 .success, .sent 1 .success, .sent 2 .success]
    (∃ t, Connector.start.run overlapping = some t ∧ Connector.Reaches (fun _ _ => True) t ∧
      t.calls.length = 2 ∧ t.convs = [2, 2] ∧ ¬t.convs.Nodup) ∧
    ∃ t, Connector.start.run answered = some t ∧ Connector.Reaches (fun _ _ => True) t ∧
      t.calls.length = 3 ∧ t.convs = [1, 2, 2] ∧ ¬t.convs.Nodup := by
  intro overlapping answered
  exact ⟨⟨_, rfl, Connector.reaches_run overlapping .refl rfl, by decide, by decide, by decide⟩,
    ⟨_, rfl, Connector.reaches_run answered .refl rfl, by decide, by decide, by decide⟩⟩

theorem convs_nodup_two_calls :
    ∃ t, Connector.Reaches Connector.Advances t ∧ t.convs = [1, 2] ∧ t.convs.Nodup := by
  have begun : Connector.Reaches Connector.Advances _ :=
    .tail .refl ⟨.asyncConnect loopback [], (by decide : (0 : UInt32).toNat + 1 < 2 ^ 32), rfl⟩
  have requested : Connector.Reaches Connector.Advances _ :=
    .tail begun ⟨.connected 0 .success, fun _ => by decide, rfl⟩
  have sent : Connector.Reaches Connector.Advances _ :=
    .tail requested ⟨.sent 0 .success, trivial, rfl⟩
  have again : Connector.Reaches Connector.Advances _ :=
    .tail sent ⟨.asyncConnect loopback [], (by decide : (1 : UInt32).toNat + 1 < 2 ^ 32), rfl⟩
  have both : Connector.Reaches Connector.Advances _ :=
    .tail again ⟨.connected 1 .success, fun _ => by decide, rfl⟩
  exact ⟨_, both, rfl, convs_nodup both⟩

end AsioKcp
