import Mathlib.Tactic

/-! # A timer whose wait grows by half

Each time the timer expires it is set again, for half as long again as before.
The time that has passed pays for the growth of the wait, which is exponential in the
number of expirations: so in a limited time there are few of them. -/
set_option autoImplicit false

namespace AsioKcp.Backoff

def longer (wait : Nat) : Nat := wait + wait / 2

/-- A timer that was first set to `start`, has expired `count` times since or more often,
and was last set at the time `last`, to `wait`.  Of a wait of 5 or more at least
`7 / 5` are left of the growth by half when it is rounded down. -/
structure Timer (start count last wait : Nat) : Prop where
  spent : 2 * wait ≤ 2 * start + last
  grown : start * 7 ^ count ≤ wait * 5 ^ count

variable {start count last wait : Nat}

theorem Timer.first (start last : Nat) : Timer start 0 last start :=
  ⟨Nat.le_add_right _ _, Nat.le_refl _⟩

/-- The timer is set again to the same wait. -/
theorem Timer.again {last' : Nat} (timer : Timer start count last wait) (later : last ≤ last') :
    Timer start count last' wait :=
  ⟨Nat.le_trans timer.spent (Nat.add_le_add_left later _), timer.grown⟩

theorem Timer.expire {last' : Nat} (timer : Timer start count last wait) (five : 5 ≤ wait)
    (late : last + wait ≤ last') : Timer start (count + 1) last' (longer wait) where
  spent := by
    have spent := timer.spent
    unfold longer
    omega
  grown := by
    have half : wait * 7 ≤ longer wait * 5 := by
      unfold longer
      omega
    calc start * 7 ^ (count + 1) = start * 7 ^ count * 7 := by ring
      _ ≤ wait * 5 ^ count * 7 := Nat.mul_le_mul_right 7 timer.grown
      _ = wait * 7 * 5 ^ count := by ring
      _ ≤ longer wait * 5 * 5 ^ count := Nat.mul_le_mul_right _ half
      _ = longer wait * 5 ^ (count + 1) := by ring

theorem Timer.fewer {count' : Nat} (timer : Timer start count last wait) (fewer : count' ≤ count) :
    Timer start count' last wait where
  spent := timer.spent
  grown := by
    obtain ⟨more, rfl⟩ := Nat.exists_eq_add_of_le fewer
    have powers : 5 ^ more ≤ 7 ^ more := Nat.pow_le_pow_left (by decide) more
    apply Nat.le_of_mul_le_mul_right (c := 7 ^ more) _ (Nat.pow_pos (by decide))
    calc start * 7 ^ count' * 7 ^ more = start * 7 ^ (count' + more) := by ring
      _ ≤ wait * 5 ^ (count' + more) := timer.grown
      _ = wait * 5 ^ count' * 5 ^ more := by ring
      _ ≤ wait * 5 ^ count' * 7 ^ more := Nat.mul_le_mul_left _ powers

theorem Timer.start_le (timer : Timer start count last wait) : start ≤ wait := by
  have grown := (timer.fewer (Nat.zero_le count)).grown
  rwa [pow_zero, pow_zero, Nat.mul_one, Nat.mul_one] at grown

/-- How often the timer can have expired by the time `limit`. -/
theorem Timer.count_lt {least : Nat} (limit n : Nat) (timer : Timer start count last wait)
    (low : least ≤ start) (short : last ≤ limit)
    (enough : (2 * least + limit) * 5 ^ n < 2 * least * 7 ^ n) : count < n := by
  by_contra many
  obtain ⟨spent, grown⟩ := timer.fewer (Nat.not_lt.mp many)
  obtain ⟨extra, rfl⟩ := Nat.exists_eq_add_of_le low
  have powers : 5 ^ n ≤ 7 ^ n := Nat.pow_le_pow_left (by decide) n
  have paid : 2 * (least + extra) * 7 ^ n ≤ (2 * least + limit + 2 * extra) * 5 ^ n :=
    calc 2 * (least + extra) * 7 ^ n = 2 * ((least + extra) * 7 ^ n) := by ring
      _ ≤ 2 * (wait * 5 ^ n) := Nat.mul_le_mul_left 2 grown
      _ = 2 * wait * 5 ^ n := by ring
      _ ≤ (2 * least + limit + 2 * extra) * 5 ^ n := Nat.mul_le_mul_right _ (by omega)
  have rest : 2 * extra * 5 ^ n ≤ 2 * extra * 7 ^ n := Nat.mul_le_mul_left _ powers
  have left : 2 * (least + extra) * 7 ^ n = 2 * least * 7 ^ n + 2 * extra * 7 ^ n := by ring
  have right : (2 * least + limit + 2 * extra) * 5 ^ n =
      (2 * least + limit) * 5 ^ n + 2 * extra * 5 ^ n := by ring
  omega

end AsioKcp.Backoff
