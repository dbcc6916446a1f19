import AsioKcp.Connection.Streams
import AsioKcp.Ikcp.Schedule

/-! # The times of updates

`update` narrows its clock to 32 bits and widens the answer of `ikcp_check` back
into `next_tick_`. -/
set_option autoImplicit false

namespace AsioKcp

open AsioKcp.Ikcp AsioKcp.Callback AsioKcp.Machine

/-- `update` calls `ikcp_flush` itself, after `ikcp_update`. -/
def extraFlush (c : Connection) (now : Int) : Prop :=
  (ikcpCheck (ikcpUpdate c.obj (UInt32.ofInt now)).1 (UInt32.ofInt now)).toNat - now <
    updateInterval

instance (c : Connection) (now : Int) : Decidable (extraFlush c now) :=
  inferInstanceAs (Decidable (_ < _))

/-- An update at `now` leaves the next one to a time within the interval of KCP,
skips all ticks before, and flushes once more only if KCP is about due. -/
structure Scheduled (l : Local) (now : Int) : Prop where
  low : now ≤ (l.update now).conn.nextTick
  high : (l.update now).conn.nextTick ≤ now + 10
  skipped : ∀ t < (l.update now).conn.nextTick, (l.update now).update t = l.update now
  extra : extraFlush l.conn now → dueIn l.conn.obj (UInt32.ofInt now) < 5

/-- `next_tick_` keeps the low 32 bits of the time at which KCP is due. -/
theorem nextTick_word {c : Connection} {now : Int} (interval : c.obj.interval = 10) :
    ((ikcpCheck (ikcpUpdate c.obj (UInt32.ofInt now)).1 (UInt32.ofInt now)).toNat : Int) =
      (now + dueIn c.obj (UInt32.ofInt now)) % 2 ^ 32 := by
  have ten : c.obj.interval.toNat = 10 := by
    rw [interval]
    rfl
  have soon := dueIn_le c.obj (UInt32.ofInt now)
  rw [ikcpCheck_updated c.obj _ (by omega) (by omega), UInt32.toNat_add, UInt32.toNat_ofNat',
    Serial.ofInt_toNat]
  omega

theorem update_nextTick {l : Local} {now : Int} (interval : l.conn.obj.interval = 10)
    (due : l.conn.nextTick ≤ now) :
    (l.update now).conn.nextTick = (now + dueIn l.conn.obj (UInt32.ofInt now)) % 2 ^ 32 := by
  rw [update_eq, updateEffect, if_pos due, ← nextTick_word interval]
  dsimp only
  split <;> rfl

theorem update_early {l : Local} {now : Int} (early : now < l.conn.nextTick) : l.update now = l :=
  if_neg (Int.not_le.mpr early)

theorem reachable_interval {conv : UInt32} {start c : Config Local} (started : Started conv start)
    (run : connectionSystem.Steps (fun _ _ => True) start c) : c.state.conn.obj.interval = 10 :=
  congrArg Params.interval
    (run_lasting (params_lasting (initKcpContext conv).params) started rfl run)

theorem scheduled_iff {l : Local} {now : Int} (interval : l.conn.obj.interval = 10)
    (uptime : 0 ≤ now) (due : l.conn.nextTick ≤ now) :
    Scheduled l now ↔ now + dueIn l.conn.obj (UInt32.ofInt now) < 2 ^ 32 := by
  have soon : dueIn l.conn.obj (UInt32.ofInt now) ≤ 10 := by
    have within := dueIn_le l.conn.obj (UInt32.ofInt now)
    rw [interval] at within
    exact within
  have next := update_nextTick interval due
  constructor
  · intro scheduled
    have low := scheduled.low
    rw [next] at low
    omega
  · intro unwrapped
    have same : (now + dueIn l.conn.obj (UInt32.ofInt now)) % 2 ^ 32 =
        now + dueIn l.conn.obj (UInt32.ofInt now) := Int.emod_eq_of_lt (by omega) unwrapped
    rw [same] at next
    refine ⟨by omega, by omega, fun t early => update_early early, fun extra => ?_⟩
    rw [extraFlush, nextTick_word interval, same, updateInterval] at extra
    omega

/-- The updates of a connection are scheduled exactly while the times at which
KCP is due fit into 32 bits. -/
theorem update_scheduled_iff {conv : UInt32} {start c : Config Local} (started : Started conv start)
    (run : connectionSystem.Steps (fun _ _ => True) start c) {now : Int} (uptime : 0 ≤ now)
    (due : c.state.conn.nextTick ≤ now) :
    Scheduled c.state now ↔ now + dueIn c.state.conn.obj (UInt32.ofInt now) < 2 ^ 32 :=
  scheduled_iff (reachable_interval started run) uptime due

/-- A segment is in flight, and a second write makes the next update come early. -/
theorem update_scheduled_iff_flight : ∃ c,
    connectionSystem.Steps (fun _ _ => True) (clientStart 7 loopback 0 noStreambufs) c ∧
      c.state.conn.obj.sndBuf.length = 1 ∧ extraFlush c.state.conn 7 ∧ Scheduled c.state 7 := by
  obtain ⟨c, ran, checked⟩ := run_checked connectionSystem (clientStart 7 loopback 0 noStreambufs)
    [.call (.asyncWrite [1]), .event (.update 0), .call (.asyncWrite [2])]
    (fun c => decide (c.state.conn.obj.sndBuf.length = 1 ∧ extraFlush c.state.conn 7 ∧
      c.state.conn.nextTick ≤ 7 ∧ (7 : Int) + dueIn c.state.conn.obj (UInt32.ofInt 7) < 2 ^ 32))
    (by decide)
  obtain ⟨flight, extra, due, unwrapped⟩ := of_decide_eq_true checked
  have run := steps_of_run connectionSystem (fun _ => True) _ (fun _ _ => trivial) ran
  exact ⟨c, run, flight, extra, (update_scheduled_iff (.client loopback 0 noStreambufs) run
    (by decide) due).mpr unwrapped⟩

/-- A process that has been up for `2 ^ 32` milliseconds. -/
theorem update_unscheduled : ¬ ∀ c : Config Local, connectionSystem.Steps (fun _ _ => True)
    (clientStart 7 loopback 0 noStreambufs) c → ∀ now : Int, 0 ≤ now →
      c.state.conn.nextTick ≤ now → Scheduled c.state now := by
  intro claimed
  have scheduled := claimed _ .refl (2 ^ 32) (by decide) (by decide)
  have unwrapped := (scheduled_iff rfl (by decide) (by decide)).mp scheduled
  omega

end AsioKcp
