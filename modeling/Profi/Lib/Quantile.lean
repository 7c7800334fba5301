import Mathlib
import Profi.Lib.KeySort

/-!
# Entries of a Sorted List

Quantiles are read off a sorted list at a place that depends on its length only. What stands at a
place is known from counting: it is at most `b` exactly if the place is within the entries up to `b`
(`place_le_iff`). So two quantiles, of different lists at different places, are compared without
sorting either (`place_eq_iff`).
-/

namespace Quantile

variable {α : Type*} [LinearOrder α]

/-- The entry at place `q` of the sorted list. -/
def place (l : List α) (q : ℕ) (d : α) : α := (l.mergeSort fun a b => decide (a ≤ b)).getD q d

/-- In a sorted list the entries up to `b` come first. -/
theorem getD_le_iff {s : List α} (hs : s.Pairwise (· ≤ ·)) {q : ℕ} (hq : q < s.length) (d b : α) :
    s.getD q d ≤ b ↔ q < s.countP (· ≤ b) := by
  induction s generalizing q with
  | nil => simp at hq
  | cons a s ih =>
    obtain ⟨hhead, htail⟩ := List.pairwise_cons.mp hs
    by_cases hab : a ≤ b
    · rw [List.countP_cons_of_pos (by simpa using hab)]
      cases q with
      | zero => simpa using hab
      | succ q =>
        rw [List.getD_cons_succ, ih htail (by simpa using hq)]
        omega
    · -- all that follows is greater than `b` as well
      have hnone : s.countP (· ≤ b) = 0 := by
        apply List.countP_eq_zero.mpr
        intro c hc
        simpa using lt_of_lt_of_le (not_le.mp hab) (hhead c hc)
      rw [List.countP_cons_of_neg (by simpa using hab), hnone]
      cases q with
      | zero => simpa using hab
      | succ q =>
        have hq' : q < s.length := by simpa using hq
        rw [List.getD_cons_succ, ih htail hq', hnone]
        simp

theorem place_le_iff {l : List α} {q : ℕ} (hq : q < l.length) (d b : α) :
    place l q d ≤ b ↔ q < l.countP (· ≤ b) := by
  have hperm := List.mergeSort_perm l fun a b => decide (a ≤ b)
  have hsorted : (l.mergeSort fun a b => decide (a ≤ b)).Pairwise (· ≤ ·) :=
    KeySort.pairwise_mergeSort id l
  unfold place
  rw [getD_le_iff hsorted (by rwa [hperm.length_eq]), hperm.countP_eq]

/-- Two entries are equal exactly if for every bound both are within what is up to it, or
    neither. -/
theorem place_eq_iff {l l' : List α} {q q' : ℕ} (hq : q < l.length) (hq' : q' < l'.length) (d : α) :
    place l q d = place l' q' d ↔ ∀ b, q < l.countP (· ≤ b) ↔ q' < l'.countP (· ≤ b) := by
  constructor
  · intro h b
    rw [← place_le_iff hq d, ← place_le_iff hq' d, h]
  · intro h
    apply eq_of_forall_ge_iff
    intro b
    rw [place_le_iff hq, place_le_iff hq']
    exact h b

end Quantile
