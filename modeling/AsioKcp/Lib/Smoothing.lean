import Mathlib.Tactic

/-! # A smoothed mean of samples and of their spread

Each sample moves the mean by a part of its distance, and the spread towards that
distance.  Both stay within the samples: this is what bounds an implementation
in machine integers. -/
set_option autoImplicit false

namespace AsioKcp.Smoothing

/-- The weighted mean of `w` times `old` and of `new`, rounded down. -/
def mix (w : Nat) (old new : Int) : Int := (w * old + new) / (w + 1)

theorem mix_le {w : Nat} {old new most : Int} (oldLe : old ≤ most) (newLe : new ≤ most) :
    mix w old new ≤ most := by
  have positive : (0 : Int) < w + 1 := by omega
  have weighted : (w : Int) * old ≤ w * most := Int.mul_le_mul_of_nonneg_left oldLe (by omega)
  apply Int.le_of_lt_add_one
  apply Int.ediv_lt_of_lt_mul positive
  rw [Int.mul_comm, Int.add_mul]
  linarith

theorem le_mix {w : Nat} {old new least : Int} (leOld : least ≤ old) (leNew : least ≤ new) :
    least ≤ mix w old new := by
  have positive : (0 : Int) < w + 1 := by omega
  have weighted : (w : Int) * least ≤ w * old := Int.mul_le_mul_of_nonneg_left leOld (by omega)
  apply Int.le_ediv_of_mul_le positive
  rw [Int.mul_comm, Int.add_mul]
  linarith

structure Estimate where
  mean : Int
  spread : Int

namespace Estimate

def unset : Estimate := ⟨0, 0⟩

/-- The next estimate; a mean of zero stands for none. -/
def next (e : Estimate) (sample : Int) : Estimate :=
  if e.mean = 0 then ⟨sample, sample / 2⟩
  else ⟨max 1 (mix 7 e.mean sample), mix 3 e.spread |sample - e.mean|⟩

structure Within (most : Int) (e : Estimate) : Prop where
  mean : 0 ≤ e.mean ∧ e.mean ≤ most
  spread : 0 ≤ e.spread ∧ e.spread ≤ most

variable {most most' : Int} {e : Estimate}

theorem Within.mono (within : e.Within most) (more : most ≤ most') : e.Within most' :=
  ⟨⟨within.mean.1, Int.le_trans within.mean.2 more⟩,
    ⟨within.spread.1, Int.le_trans within.spread.2 more⟩⟩

theorem unset_within (positive : 0 ≤ most) : unset.Within most :=
  ⟨⟨Int.le_refl 0, positive⟩, ⟨Int.le_refl 0, positive⟩⟩

theorem Within.next (within : e.Within most) {sample : Int} (low : 0 ≤ sample)
    (high : sample ≤ most) : (e.next sample).Within most := by
  obtain ⟨meanLow, meanHigh⟩ := within.mean
  obtain ⟨spreadLow, spreadHigh⟩ := within.spread
  unfold Estimate.next
  split
  · refine ⟨⟨low, high⟩, ⟨?_, ?_⟩⟩ <;> dsimp only <;> omega
  · rename_i set
    have distance : |sample - e.mean| ≤ most := by
      rw [abs_le]
      constructor <;> omega
    refine ⟨⟨?_, ?_⟩, ⟨?_, ?_⟩⟩
    · exact Int.le_trans (by decide) (Int.le_max_left 1 _)
    · exact max_le (by omega) (mix_le meanHigh high)
    · exact le_mix spreadLow (abs_nonneg _)
    · exact mix_le spreadHigh distance

theorem foldl_next_within (samples : List Int) (small : ∀ x ∈ samples, 0 ≤ x ∧ x ≤ most) :
    e.Within most → (samples.foldl Estimate.next e).Within most := by
  induction samples generalizing e with
  | nil => exact id
  | cons x rest ih =>
      intro within
      obtain ⟨low, high⟩ := small x (List.mem_cons_self ..)
      exact ih (fun y later => small y (List.mem_cons_of_mem x later)) (within.next low high)

end Estimate

end AsioKcp.Smoothing
