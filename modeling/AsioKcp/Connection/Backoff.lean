import AsioKcp.Connection.Streams
import AsioKcp.Ikcp.Backoff

/-! # How often a connection sends a segment

The times of its updates do not go back, and are within three days of each other. -/
set_option autoImplicit false

namespace AsioKcp

open AsioKcp.Ikcp AsioKcp.Callback AsioKcp.Machine

/-- The time at which a step calls `update`. -/
def updateTime : Label Event Call → Option Int
  | .event (.update now) => some now
  | .event (.tick now) => some now
  | .event (.timerRuns now) => some now
  | _ => none

/-- No update is before the last one, or three days after `base`. -/
def Forward (base : Int) (c : Config Local) (label : Label Event Call) : Prop :=
  ∀ now ∈ updateTime label,
    base + c.state.conn.obj.age (UInt32.ofInt base) ≤ now ∧ now < base + 2 ^ 28

instance (base : Int) (c : Config Local) (label : Label Event Call) :
    Decidable (Forward base c label) :=
  inferInstanceAs (Decidable (∀ now ∈ updateTime label, _))

/-- What an entry does with the control block. -/
inductive EntryObj (e : Event) (l l' : Local) : Prop
  | same : l'.conn.obj = l.conn.obj → EntryObj e l l'
  | updated (now : Int) : now ∈ updateTime (.event e) →
      l'.conn.obj = (updateEffect l.conn now).1 → EntryObj e l l'
  | received (data : List UInt8) (size : Nat) : l'.conn.obj = (ikcpInput l.conn.obj data size).2 →
      EntryObj e l l'

theorem received_obj {e : Event} {l l' : Local} (same : l'.conn.obj = l.conn.obj)
    (data : List UInt8) (size : Nat) (t : Int) : EntryObj e l (l'.received data size t) := by
  unfold Local.received
  dsimp only
  by_cases short : size < 24
  · rw [if_pos short]
    exact .same same
  · rw [if_neg short]
    by_cases isData : data.getD 0 0 = opcodeData
    · rw [if_pos isData, same]
      exact .received (data.drop 1) (size - 1) rfl
    · rw [if_neg isData]
      exact .same same

theorem update_obj (l : Local) (now : Int) : (l.update now).conn.obj = (updateEffect l.conn now).1 := by
  rw [update_eq]

theorem entry_obj (e : Event) (l : Local) : EntryObj e l (entry e l) := by
  unfold entry
  cases e with
  | posted i =>
      dsimp only
      split
      · exact .same rfl
      · split <;> exact .same rfl
  | onReceive data size t => exact received_obj rfl data size t
  | update now => exact .updated now rfl (update_obj l now)
  | tick now => exact .updated now rfl (update_obj l now)
  | timerExpires =>
      dsimp only [Connection.timerExpired]
      split <;> exact .same rfl
  | timerRuns now =>
      dsimp only
      split
      · exact .same rfl
      · apply EntryObj.updated now rfl
        unfold Local.timerEntry
        rw [update_eq]
        dsimp only
        split <;> rfl
  | receiveCompletes ec data size =>
      dsimp only [Connection.receiveCompleted]
      split <;> exact .same rfl
  | receiveRuns now =>
      dsimp only
      split
      · exact .same rfl
      · split
        · exact .same rfl
        · exact received_obj (by rfl) _ _ now

section Retried
variable {base : Int}

theorem offset_ofInt {now : Int} (later : base ≤ now) (near : now < base + 2 ^ 32) :
    Serial.offset (UInt32.ofInt base) (UInt32.ofInt now) = now - base := by
  rw [Serial.offset_eq, Serial.ofInt_toNat, Serial.ofInt_toNat]
  omega

theorem retried_updateEffect {c : Connection} {now : Int}
    (retried : Retried (UInt32.ofInt base) c.obj)
    (forward : base + c.obj.age (UInt32.ofInt base) ≤ now) (early : now < base + 2 ^ 28) :
    Retried (UInt32.ofInt base) (updateEffect c now).1 := by
  have word : Serial.offset (UInt32.ofInt base) (UInt32.ofInt now) = now - base :=
    offset_ofInt (by omega) (by omega)
  have updated := retried.update (UInt32.ofInt now) (by omega) (by omega)
  unfold updateEffect
  dsimp only
  split_ifs
  · exact updated.flush
  · exact updated
  · exact retried

theorem retried_act {T : Terms} {l l' : Local} (act : Act T l l')
    (retried : Retried (UInt32.ofInt base) l.conn.obj) :
    Retried (UInt32.ofInt base) l'.conn.obj := by
  have disconnected : l.disconnect.conn.obj = l.conn.obj := by
    unfold Local.disconnect
    dsimp only
    split <;> rfl
  cases act with
  | messageSize buffer _ _ _ _ => exact retried.send _ _
  | write buffer _ _ _ _ => exact retried.send _ _
  | writePending buffer _ _ _ _ => exact retried.send _ _
  | pollRead ec op _ _ _ => exact pollRead_obj (fun len before => before.recv len) ec op retried
  | beginClose _ =>
      rw [Local.beginClose, flush_eq]
      exact retried.flush
  | disconnect _ _ =>
      rw [disconnected]
      exact retried
  | _ => exact retried

theorem retried_entry (e : Event) {c : Config Local} (forward : Forward base c (.event e))
    (retried : Retried (UInt32.ofInt base) c.state.conn.obj) :
    Retried (UInt32.ofInt base) (entry e c.state).conn.obj := by
  cases entry_obj e c.state with
  | same obj =>
      rw [obj]
      exact retried
  | updated now time obj =>
      obtain ⟨later, early⟩ := forward now time
      rw [obj]
      exact retried_updateEffect retried later early
  | received data size obj =>
      rw [obj]
      exact retried.input data size

theorem retried_init (base conv : UInt32) : Retried base (initKcpContext conv) where
  retrying := ⟨⟨rfl, rfl, rfl⟩, rfl, show 10 ≤ ikcpRtoDef.toUInt32.toNat by decide,
    show ikcpRtoDef.toUInt32.toNat ≤ 60000 by decide⟩
  early := show 0 < 2 ^ 28 by decide
  fresh := fun _ => rfl
  backed := fun _ member => (List.not_mem_nil member).elim

end Retried

/-- Whatever it receives, a connection sends no segment more than 54 times in three days.
A segment in `snd_buf` is due exactly when its timeout has passed since it was last sent,
and from the sixth time on the timeout has grown by `7 / 5` at least each time. -/
theorem resends_bounded {conv : UInt32} (base : Int) {start c : Config Local}
    (started : Started conv start) (run : connectionSystem.Steps (Forward base) start c) :
    ∀ seg ∈ c.state.conn.obj.sndBuf, seg.xmit.toNat ≤ 54 ∧
      Backed (UInt32.ofInt base) (c.state.conn.obj.age (UInt32.ofInt base)) seg ∧
      ∀ now : Int, base + c.state.conn.obj.age (UInt32.ofInt base) ≤ now → now < base + 2 ^ 28 →
        (itimediff (UInt32.ofInt now) seg.resendts ≥ 0 ↔
          base + Serial.offset (UInt32.ofInt base) seg.ts + seg.rto.toNat ≤ now) := by
  have fresh : Retried (UInt32.ofInt base) start.state.conn.obj := by
    obtain ⟨l, rfl, shape⟩ := started.cases
    rcases shape with ⟨_, _, _, rfl⟩ | ⟨_, _, _, rfl⟩ <;> exact retried_init _ conv
  have retried : Retried (UInt32.ofInt base) c.state.conn.obj :=
    (run_invariant (T := Terms.any) (fun c label _ => Terms.any_allows c label)
      (J := fun l => Retried (UInt32.ofInt base) l.conn.obj)
      (fun c e forward holds => retried_entry e forward holds) retried_act (started.keeps _)
      fresh run).2
  intro seg member
  have backed := retried.backed seg member
  refine ⟨backed.xmit_le retried.early, backed, fun now later early => ?_⟩
  have word : Serial.offset (UInt32.ofInt base) (UInt32.ofInt now) = now - base :=
    offset_ofInt (by omega) (by omega)
  have due := backed.due_iff (UInt32.ofInt now) (by omega) (by omega)
  rw [due]
  omega

/-- A byte that is never acked, sent again after 200 and after 300 milliseconds more. -/
theorem resends_bounded_lost : ∃ c, connectionSystem.Steps (Forward 1000)
    (clientStart 7 loopback 1000 noStreambufs) c ∧
      ∃ seg ∈ c.state.conn.obj.sndBuf, (seg.xmit = 3 ∧ seg.rto = 450) ∧ seg.xmit.toNat ≤ 54 := by
  obtain ⟨c, run, lost⟩ := runIf_checked connectionSystem (Forward 1000)
    (clientStart 7 loopback 1000 noStreambufs)
    [.call (.asyncWrite [42]), .event (.update 1000), .event (.update 1200), .event (.update 1500)]
    (fun c => c.state.conn.obj.sndBuf.any fun seg => seg.xmit = 3 ∧ seg.rto = 450) (by decide)
  obtain ⟨seg, member, times⟩ := List.any_eq_true.mp lost
  exact ⟨c, run, seg, member, of_decide_eq_true times,
    (resends_bounded 1000 (.client loopback 1000 noStreambufs) run seg member).1⟩

end AsioKcp
