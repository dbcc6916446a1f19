import Mathlib.Tactic

/-! # Serial numbers: 32-bit counters compared by signed distance

A protocol counter is a natural number of which only the low 32 bits are kept.
`distance a b` is the signed reading of the difference of two such counters; it
is the true difference whenever the true counters are less than `2 ^ 31` apart,
wherever the 32-bit values have wrapped. -/
set_option autoImplicit false

namespace AsioKcp.Serial

/-- The difference of two counters, read as a signed 32-bit number. -/
def distance (later earlier : UInt32) : Int := (later - earlier).toInt32.toInt

/-- Two counters are comparable when their true distance fits 31 bits. -/
def Near (a b : Nat) : Prop := (a : Int) - b < 2 ^ 31 ∧ -(2 ^ 31 : Int) ≤ (a : Int) - b

theorem near_of_lt {a b : Nat} (ha : a < 2 ^ 31) (hb : b < 2 ^ 31) : Near a b := by
  constructor <;> omega

/-- The counters of the window of `2 ^ 31` that begins at `base`. -/
def Spans (base n : Nat) : Prop := base ≤ n ∧ n < base + 2 ^ 31

theorem Spans.near {base a b : Nat} (ha : Spans base a) (hb : Spans base b) : Near a b := by
  obtain ⟨lowA, highA⟩ := ha
  obtain ⟨lowB, highB⟩ := hb
  constructor <;> omega

theorem distance_ofNat {a b : Nat} (near : Near a b) :
    distance (UInt32.ofNat a) (UInt32.ofNat b) = (a : Int) - b := by
  have unfolded : distance (UInt32.ofNat a) (UInt32.ofNat b) =
      (BitVec.ofNat 32 a - BitVec.ofNat 32 b).toInt := rfl
  obtain ⟨upper, lower⟩ := near
  rw [unfolded, BitVec.toInt_sub, BitVec.toInt_ofNat', BitVec.toInt_ofNat']
  simp only [Int.bmod_sub_bmod, Int.sub_bmod_bmod]
  rw [Int.bmod_eq_of_le] <;> omega

theorem distance_eq (later earlier : UInt32) :
    distance later earlier = ((later.toNat : Int) - earlier.toNat).bmod (2 ^ 32) := by
  have unfolded : distance later earlier = (later.toBitVec - earlier.toBitVec).toInt := rfl
  rw [unfolded, BitVec.toInt_sub]
  simp only [BitVec.toInt_eq_toNat_bmod, Int.bmod_sub_bmod, Int.sub_bmod_bmod]
  rfl

/-- A clock read from the other side. -/
theorem distance_swap {a b : UInt32} (some : distance a b ≠ -2 ^ 31) :
    distance b a = -distance a b := by
  rw [distance_eq] at some ⊢
  rw [distance_eq]
  simp only [Int.bmod_def] at some ⊢
  omega

/-- A distance grows with its later end as long as it fits. -/
theorem distance_add {a b n : UInt32}
    (fits : distance a b + n.toNat < 2 ^ 31) : distance (a + n) b = distance a b + n.toNat := by
  rw [distance_eq] at fits ⊢
  rw [distance_eq, UInt32.toNat_add]
  simp only [Int.bmod_def] at fits ⊢
  omega

@[simp] theorem distance_self (a : UInt32) : distance a a = 0 := by
  rw [distance, UInt32.sub_self]
  rfl

theorem distance_neg_iff {a b : Nat} (near : Near a b) :
    distance (UInt32.ofNat a) (UInt32.ofNat b) < 0 ↔ a < b := by
  rw [distance_ofNat near]
  omega

theorem distance_pos_iff {a b : Nat} (near : Near a b) :
    distance (UInt32.ofNat a) (UInt32.ofNat b) > 0 ↔ b < a := by
  rw [distance_ofNat near]
  omega

theorem ofNat_eq_iff {a b : Nat} (near : Near a b) :
    UInt32.ofNat a = UInt32.ofNat b ↔ a = b := by
  constructor
  · intro same
    have values := congrArg UInt32.toNat same
    simp only [UInt32.toNat_ofNat'] at values
    obtain ⟨upper, lower⟩ := near
    omega
  · rintro rfl
    rfl

theorem ofInt_toNat (n : Int) : (UInt32.ofInt n).toNat = (n % 2 ^ 32).toNat := by
  rw [UInt32.ofInt, UInt32.toNat_ofNat']
  omega

theorem ofNat_succ (n : Nat) : UInt32.ofNat n + 1 = UInt32.ofNat (n + 1) := by
  rw [UInt32.ofNat_add]
  rfl

/-! ## Counters from a base on -/

/-- How far `n` lies ahead of `base`, on the circle of the 32-bit counters. -/
def offset (base n : UInt32) : Nat := (n - base).toNat

theorem offset_eq (base n : UInt32) :
    offset base n = (2 ^ 32 - base.toNat + n.toNat) % 2 ^ 32 := by
  rw [offset, UInt32.toNat_sub]

theorem offset_inj {base a b : UInt32} : offset base a = offset base b ↔ a = b := by
  refine ⟨fun same => ?_, fun same => by rw [same]⟩
  have differences : a - base = b - base := UInt32.toNat_inj.mp same
  simpa using differences

@[simp] theorem offset_self (base : UInt32) : offset base base = 0 := by
  simp [offset]

/-- The offsets of what lies ahead of the base shrink as the base goes on. -/
theorem offset_succ {base n : UInt32} (ahead : offset base n ≠ 0) :
    offset (base + 1) n = offset base n - 1 := by
  have := base.toNat_lt
  have := n.toNat_lt
  rw [offset_eq] at ahead
  have one : (base + 1).toNat = (base.toNat + 1) % 2 ^ 32 := by simp [UInt32.toNat_add]
  rw [offset_eq, offset_eq, one]
  omega

theorem distance_of_offsets {base a b : UInt32} (nearA : offset base a < 2 ^ 31)
    (nearB : offset base b < 2 ^ 31) : distance a b = (offset base a : Int) - offset base b := by
  have := base.toNat_lt
  have := a.toNat_lt
  have := b.toNat_lt
  rw [offset_eq] at nearA nearB
  rw [distance_eq, offset_eq, offset_eq, Int.bmod_def]
  omega

/-- The window of `w` counters from `base` on, as two comparisons find it. -/
theorem inside_iff {base w n : UInt32} (narrow : w.toNat ≤ 2 ^ 31) :
    distance n (base + w) < 0 ∧ distance n base ≥ 0 ↔ offset base n < w.toNat := by
  have := base.toNat_lt
  have := n.toNat_lt
  rw [distance_eq, distance_eq, offset_eq, UInt32.toNat_add, Int.bmod_def, Int.bmod_def]
  omega

end AsioKcp.Serial
