import Mathlib

/-!
# One in N by a Wrapping Counter

A counter of `w` bits is advanced at every event, and an event is kept when the counter is a
multiple of the rate. `kept w rate m` is how many of the first `m` events are kept. As long as
the counter has not wrapped this is `m / rate` rounded up; a rate that does not divide `2 ^ w`
keeps its place in the sequence no longer than that.
-/

namespace OneInN

variable {w rate m : ℕ}

/-- How many of the first `m` events find the counter at a multiple of `rate`. -/
def kept (w rate m : ℕ) : ℕ := Nat.count (fun i => i % 2 ^ w % rate = 0) m

@[simp] theorem kept_zero (w rate : ℕ) : kept w rate 0 = 0 := Nat.count_zero _

theorem kept_succ (w rate m : ℕ) :
    kept w rate (m + 1) = kept w rate m + if m % 2 ^ w % rate = 0 then 1 else 0 :=
  Nat.count_succ _ _

/-- Before the counter wraps, the kept events are the multiples of the rate. -/
theorem kept_eq_ceilDiv (hrate : 0 < rate) (hm : m ≤ 2 ^ w) : kept w rate m = m ⌈/⌉ rate := by
  have hcount : kept w rate m = Nat.count (· ≡ 0 [MOD rate]) m := by
    unfold kept
    rw [Nat.count_eq_card_filter_range, Nat.count_eq_card_filter_range]
    congr 1
    apply Finset.filter_congr
    intro i hi
    have hlt : i < 2 ^ w := lt_of_lt_of_le (Finset.mem_range.mp hi) hm
    rw [Nat.mod_eq_of_lt hlt, Nat.modEq_zero_iff_dvd, Nat.dvd_iff_mod_eq_zero]
  rw [hcount, Nat.count_modEq_card m hrate, Nat.zero_mod, Nat.ceilDiv_eq_add_pred_div]
  have hdiv := Nat.div_add_mod m rate
  have hlt := Nat.mod_lt m hrate
  symm
  -- the remainder decides whether the division rounds up
  split
  next hpos =>
    apply Nat.div_eq_of_lt_le
    · rw [Nat.add_mul, Nat.mul_comm (m / rate)]
      omega
    · rw [Nat.add_mul, Nat.add_mul, Nat.mul_comm (m / rate)]
      omega
  next hzero =>
    apply Nat.div_eq_of_lt_le
    · rw [Nat.add_mul, Nat.mul_comm (m / rate)]
      omega
    · rw [Nat.add_mul, Nat.add_mul, Nat.mul_comm (m / rate)]
      omega

/-- Rounding up adds less than `rate`. -/
theorem mul_ceilDiv_le (hrate : 0 < rate) (m : ℕ) : rate * (m ⌈/⌉ rate) ≤ m + (rate - 1) := by
  rw [Nat.ceilDiv_eq_add_pred_div]
  have h := Nat.mul_div_le (m + rate - 1) rate
  omega

end OneInN
