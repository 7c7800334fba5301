import Mathlib

/-!
# Sums of Machine Words

An accumulator adds words one after the other, each time modulo `2 ^ w`. `Exact` says of such a
chain of additions that none of them leaves the range of the words, and `exact_iff` that this is a
matter of the total alone, whichever way the chain is ordered.

`deltas` goes the other way, from running totals to what was added in between; for totals that never
fall, adding the deltas up again gives the totals back (`scanl_deltas`).
-/

namespace WordSum

variable {w : ℕ}

/-- The sum of words as a number. -/
def total (ys : List (BitVec w)) : ℕ := (ys.map BitVec.toNat).sum

/-- None of the additions `x + y₁`, `(x + y₁) + y₂`, ... leaves the range. -/
def Exact : BitVec w → List (BitVec w) → Prop
  | _, [] => True
  | x, y :: ys => x.toNat + y.toNat < 2 ^ w ∧ Exact (x + y) ys

@[simp] theorem total_nil : total ([] : List (BitVec w)) = 0 := rfl

@[simp] theorem total_cons (y : BitVec w) (ys : List (BitVec w)) :
    total (y :: ys) = y.toNat + total ys := by
  simp [total]

@[simp] theorem total_append (xs ys : List (BitVec w)) :
    total (xs ++ ys) = total xs + total ys := by
  simp [total]

/-- A chain of additions stays in range exactly if its result as a number does. -/
theorem exact_iff (x : BitVec w) (ys : List (BitVec w)) :
    Exact x ys ↔ x.toNat + total ys < 2 ^ w := by
  induction ys generalizing x with
  | nil => simp [Exact, x.isLt]
  | cons y ys ih =>
    rw [Exact, ih, total_cons]
    constructor
    · rintro ⟨hy, hys⟩
      rw [BitVec.toNat_add_of_lt hy] at hys
      omega
    · intro h
      have hy : x.toNat + y.toNat < 2 ^ w := by omega
      rw [BitVec.toNat_add_of_lt hy]
      omega

/-- A sum of words is the sum of the numbers, modulo the range. -/
theorem toNat_sum (ys : List (BitVec w)) : ys.sum.toNat = total ys % 2 ^ w := by
  induction ys with
  | nil => simp
  | cons y ys ih => simp [BitVec.toNat_add, ih]

theorem toNat_sum_of_lt {ys : List (BitVec w)} (h : total ys < 2 ^ w) :
    ys.sum.toNat = total ys := by
  rw [toNat_sum, Nat.mod_eq_of_lt h]

/-! ## Deltas -/

/-- Subtraction that stops at zero. -/
def saturatingSub (x y : BitVec w) : BitVec w := if y ≤ x then x - y else 0

theorem toNat_saturatingSub {x y : BitVec w} (h : y ≤ x) :
    (saturatingSub x y).toNat = x.toNat - y.toNat := by
  rw [saturatingSub, if_pos h, BitVec.toNat_sub_of_le h]

/-- The steps from each word to the next, from `prev` on. -/
def deltas : BitVec w → List (BitVec w) → List (BitVec w)
  | _, [] => []
  | prev, x :: xs => saturatingSub x prev :: deltas x xs

@[simp] theorem length_deltas (prev : BitVec w) (xs : List (BitVec w)) :
    (deltas prev xs).length = xs.length := by
  induction xs generalizing prev with
  | nil => rfl
  | cons x xs ih => simp [deltas, ih]

/-- The running totals of the deltas are the words they came from. -/
theorem scanl_deltas {prev : BitVec w} {xs : List (BitVec w)}
    (h : (prev :: xs).Pairwise (· ≤ ·)) :
    ((deltas prev xs).map BitVec.toNat).scanl (· + ·) prev.toNat =
      (prev :: xs).map BitVec.toNat := by
  induction xs generalizing prev with
  | nil => rfl
  | cons x xs ih =>
    obtain ⟨hprev, htail⟩ := List.pairwise_cons.mp h
    have hx : prev ≤ x := hprev x List.mem_cons_self
    have hnext : prev.toNat + (saturatingSub x prev).toNat = x.toNat := by
      rw [toNat_saturatingSub hx]
      have hle := BitVec.le_def.mp hx
      omega
    rw [deltas, List.map_cons, List.scanl_cons, hnext, ih htail]
    rfl

/-- All deltas together lead from the first word to the last. -/
theorem total_deltas {prev last : BitVec w} {xs : List (BitVec w)}
    (h : (prev :: xs ++ [last]).Pairwise (· ≤ ·)) :
    prev.toNat + total (deltas prev (xs ++ [last])) = last.toNat := by
  induction xs generalizing prev with
  | nil =>
    have hle : prev ≤ last := by simpa using h
    have hnat := BitVec.le_def.mp hle
    simp only [List.nil_append, deltas, total_cons, total_nil, toNat_saturatingSub hle]
    omega
  | cons x xs ih =>
    obtain ⟨hprev, htail⟩ := List.pairwise_cons.mp h
    have hx : prev ≤ x := hprev x (by simp)
    have hnat := BitVec.le_def.mp hx
    have hrest := ih htail
    simp only [List.cons_append, deltas, total_cons, toNat_saturatingSub hx]
    omega

end WordSum
