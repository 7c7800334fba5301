import Mathlib

/-!
# Cumulative Buckets

A histogram keeps one cell per bucket; readers want the cumulative counts. `upTo i cells` is
the sum of the cells with index at most `i`. It is additive in the cells, an observation moves
it by one when its bucket is in range (`upTo_update`), and a running sum over the list of cells
computes it (`sum_take_ofFn`).

`indexFrom 0 bounds x` is the bucket of an observation: the first bound that is not below it.
Over sorted bounds, being in a bucket up to `i` is being at most the `i`-th bound
(`indexFrom_le_iff`).

`IsBucket bounds x i` says what the bucket is without saying how it is found. An observation has
one bucket (`IsBucket.unique`), so that any two ways of finding it agree, and a greater one has no
earlier bucket (`IsBucket.mono`). The search above finds it over sorted bounds
(`isBucket_indexFrom`).
-/

namespace Buckets

variable {N : ℕ}

/-- The sum of the cells with index at most `i`. -/
def upTo (i : ℕ) (cells : Fin N → ℕ) : ℕ := ∑ j : Fin N, if j.val ≤ i then cells j else 0

@[simp] theorem upTo_zero (i : ℕ) : upTo i (fun _ : Fin N => 0) = 0 := by
  simp [upTo]

theorem upTo_add (i : ℕ) (cells cells' : Fin N → ℕ) :
    upTo i (fun j => cells j + cells' j) = upTo i cells + upTo i cells' := by
  unfold upTo
  rw [← Finset.sum_add_distrib]
  apply Finset.sum_congr rfl
  intro j _
  split <;> rfl

/-- Adding rows of cells and cumulating commute. -/
theorem upTo_sum {α : Type} (i : ℕ) (cells : α → Fin N → ℕ) (rows : List α) :
    upTo i (fun j => (rows.map fun row => cells row j).sum) =
      (rows.map fun row => upTo i (cells row)).sum := by
  induction rows with
  | nil => exact upTo_zero i
  | cons row rows ih =>
    simp only [List.map_cons, List.sum_cons]
    rw [upTo_add, ih]

/-- One more in cell `k` is one more in all sums that reach `k`. -/
theorem upTo_update (i : ℕ) (cells : Fin N → ℕ) (k : Fin N) (v : ℕ) (hv : v = cells k + 1) :
    upTo i (Function.update cells k v) = upTo i cells + if k.val ≤ i then 1 else 0 := by
  have hcells : Function.update cells k v = fun j => cells j + if j = k then 1 else 0 := by
    funext j
    by_cases hj : j = k
    · subst hj
      simp [hv]
    · simp [hj]
  rw [hcells, upTo_add]
  congr 1
  unfold upTo
  -- of the unit vector at `k` only the cell `k` is left
  rw [Finset.sum_eq_single k]
  · simp
  · intro j _ hj
    simp [hj]
  · intro hk
    exact absurd (Finset.mem_univ k) hk

/-- The running sum over the list of cells. -/
theorem sum_take_ofFn (i : ℕ) (cells : Fin N → ℕ) :
    ((List.ofFn cells).take (i + 1)).sum = upTo i cells := by
  unfold upTo
  induction N generalizing i with
  | zero => simp
  | succ N ih =>
    rw [List.ofFn_succ, List.take_succ_cons, List.sum_cons, Fin.sum_univ_succ]
    congr 1
    cases i with
    | zero => simp
    | succ i =>
      rw [ih i]
      apply Finset.sum_congr rfl
      intro j _
      simp

/-! ## The bucket of an observation -/

/-- The number of the first bound that `x` does not exceed, counting from `k`. -/
def indexFrom : ℕ → List ℕ → ℕ → ℕ
  | k, [], _ => k
  | k, bound :: bounds, x => if x ≤ bound then k else indexFrom (k + 1) bounds x

theorem le_indexFrom (k : ℕ) (bounds : List ℕ) (x : ℕ) : k ≤ indexFrom k bounds x := by
  induction bounds generalizing k with
  | nil => exact le_rfl
  | cons bound bounds ih =>
    unfold indexFrom
    split
    · exact le_rfl
    · exact (Nat.le_succ k).trans (ih (k + 1))

theorem indexFrom_le (k : ℕ) (bounds : List ℕ) (x : ℕ) :
    indexFrom k bounds x ≤ k + bounds.length := by
  induction bounds generalizing k with
  | nil => exact le_rfl
  | cons bound bounds ih =>
    unfold indexFrom
    split
    · exact Nat.le_add_right k _
    · have := ih (k + 1)
      rw [List.length_cons]
      omega

/-- Over sorted bounds the bucket is among the first iff the observation is below the bound. -/
theorem indexFrom_le_iff {bounds : List ℕ} (hsorted : bounds.Pairwise (· ≤ ·)) {i b : ℕ}
    (hi : bounds[i]? = some b) (k x : ℕ) : indexFrom k bounds x ≤ k + i ↔ x ≤ b := by
  induction bounds generalizing i k with
  | nil => simp at hi
  | cons bound bounds ih =>
    obtain ⟨hle, hsorted⟩ := List.pairwise_cons.mp hsorted
    unfold indexFrom
    cases i with
    | zero =>
      rw [List.getElem?_cons_zero, Option.some.injEq] at hi
      subst hi
      split
      next hx => simp [hx]
      · -- later buckets have higher numbers
        rename_i hx
        have := le_indexFrom (k + 1) bounds x
        omega
    | succ i =>
      split
      next hx =>
        have hb := hle b (List.mem_of_getElem? hi)
        simp [hx.trans hb]
      · rw [show k + (i + 1) = k + 1 + i by omega]
        exact ih hsorted hi (k + 1)

/-! ## What a bucket is -/

section IsBucket

variable {α : Type*} {n i j : ℕ}

/-- `i` is the bucket of `x`: the least number of a bound that `x` does not exceed, or the number
    of bounds if `x` exceeds the last one. -/
def IsBucket [LE α] (bounds : Fin (n + 1) → α) (x : α) (i : ℕ) : Prop :=
  (x ≤ bounds (Fin.last n) → ∃ k : Fin (n + 1), IsLeast {k | x ≤ bounds k} k ∧ i = k) ∧
    (¬ x ≤ bounds (Fin.last n) → i = n + 1)

/-- There is a cell for every bucket: one per bound, and one beyond. -/
theorem IsBucket.lt [LE α] {bounds : Fin (n + 1) → α} {x : α} (hi : IsBucket bounds x i) :
    i < n + 2 := by
  by_cases hx : x ≤ bounds (Fin.last n)
  · obtain ⟨k, -, rfl⟩ := hi.1 hx
    omega
  · rw [hi.2 hx]
    omega

/-- An observation has one bucket. -/
theorem IsBucket.unique [LE α] {bounds : Fin (n + 1) → α} {x : α} (hi : IsBucket bounds x i)
    (hj : IsBucket bounds x j) : i = j := by
  by_cases hx : x ≤ bounds (Fin.last n)
  · obtain ⟨k, hk, rfl⟩ := hi.1 hx
    obtain ⟨l, hl, rfl⟩ := hj.1 hx
    rw [hk.unique hl]
  · rw [hi.2 hx, hj.2 hx]

/-- A greater observation is not in an earlier bucket. -/
theorem IsBucket.mono [Preorder α] {bounds : Fin (n + 1) → α} {x y : α} (hxy : x ≤ y)
    (hi : IsBucket bounds x i) (hj : IsBucket bounds y j) : i ≤ j := by
  by_cases hy : y ≤ bounds (Fin.last n)
  · obtain ⟨k, hk, rfl⟩ := hi.1 (hxy.trans hy)
    obtain ⟨l, hl, rfl⟩ := hj.1 hy
    -- the bound that `y` does not exceed is one that `x` does not exceed
    have hxl : x ≤ bounds l := hxy.trans hl.1
    exact hk.2 hxl
  · rw [hj.2 hy]
    exact Nat.lt_succ_iff.mp hi.lt

/-- The search finds the bucket. -/
theorem isBucket_indexFrom {bounds : Fin (n + 1) → ℕ} (hmono : Monotone bounds) (x : ℕ) :
    IsBucket bounds x (indexFrom 0 (List.ofFn bounds) x) := by
  have hsorted : (List.ofFn bounds).Pairwise (· ≤ ·) :=
    List.pairwise_ofFn.mpr fun _ _ hlt => hmono hlt.le
  -- of the search only this is used: it stops by `k` iff the `k`-th bound is high enough
  have hstops : ∀ k : Fin (n + 1), indexFrom 0 (List.ofFn bounds) x ≤ k ↔ x ≤ bounds k := by
    intro k
    have hk : (List.ofFn bounds)[k.val]? = some (bounds k) := by
      rw [List.getElem?_ofFn, dif_pos k.isLt]
    simpa using indexFrom_le_iff hsorted hk 0 x
  constructor
  · intro hx
    have hlt := Nat.lt_succ_iff.mpr ((hstops (Fin.last n)).mpr hx)
    refine ⟨⟨_, hlt⟩, ⟨?_, ?_⟩, rfl⟩
    · exact (hstops ⟨_, hlt⟩).mp le_rfl
    · intro k hk
      exact (hstops k).mpr hk
  · intro hx
    have hle := indexFrom_le 0 (List.ofFn bounds) x
    rw [List.length_ofFn, Nat.zero_add] at hle
    have hgt : ¬ indexFrom 0 (List.ofFn bounds) x ≤ n := fun h => hx ((hstops (Fin.last n)).mp h)
    omega

end IsBucket

end Buckets
