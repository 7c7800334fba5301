import Mathlib

/-!
# Lists Sorted by a Key

A list is sorted by a key of its entries, and the result is searched for a key.

- Sorting keeps the order of entries with one key (`filter_mergeSort`), and commutes with a function
  that is monotone in the key (`map_mergeSort`).
- In a list of increasing keys a search for `k` comes out at the entry with the greatest key up to
  `k`: it is hit, or is the last one below (`search_of_greatest`).
-/

namespace KeySort

variable {α β κ : Type*} [LinearOrder α] [LinearOrder κ]

/-! ## Sorting -/

theorem key_trans (key : β → κ) (a b c : β) (hab : decide (key a ≤ key b) = true)
    (hbc : decide (key b ≤ key c) = true) : decide (key a ≤ key c) = true := by
  rw [decide_eq_true_eq] at *
  exact hab.trans hbc

theorem key_total (key : β → κ) (a b : β) :
    (decide (key a ≤ key b) || decide (key b ≤ key a)) = true := by
  rw [Bool.or_eq_true, decide_eq_true_eq, decide_eq_true_eq]
  exact le_total _ _

theorem pairwise_mergeSort (key : β → κ) (l : List β) :
    (l.mergeSort fun a b => decide (key a ≤ key b)).Pairwise fun a b => key a ≤ key b :=
  (List.pairwise_mergeSort (key_trans key) (key_total key) l).imp fun h => of_decide_eq_true h

/-- Sorting by a key, and then a function that is monotone in the key. -/
theorem map_mergeSort {key : β → κ} {f : β → α} (hf : ∀ a b, key a ≤ key b → f a ≤ f b)
    (l : List β) :
    (l.mergeSort fun a b => decide (key a ≤ key b)).map f =
      (l.map f).mergeSort fun a b => decide (a ≤ b) := by
  have hperm : ((l.mergeSort fun a b => decide (key a ≤ key b)).map f).Perm
      ((l.map f).mergeSort fun a b => decide (a ≤ b)) :=
    ((List.mergeSort_perm l _).map f).trans (List.mergeSort_perm (l.map f) _).symm
  have hleft : ((l.mergeSort fun a b => decide (key a ≤ key b)).map f).Pairwise (· ≤ ·) :=
    List.pairwise_map.mpr ((pairwise_mergeSort key l).imp fun h => hf _ _ h)
  exact hperm.eq_of_pairwise (fun a b _ _ hab hba => le_antisymm hab hba) hleft
    (pairwise_mergeSort id (l.map f))

/-- Sorting keeps the order of entries with one key. -/
theorem filter_mergeSort (key : β → κ) (l : List β) (k : κ) :
    (l.mergeSort fun a b => decide (key a ≤ key b)).filter (key · = k) = l.filter (key · = k) := by
  have hpairs : (l.filter (key · = k)).Pairwise fun a b => decide (key a ≤ key b) = true := by
    apply List.pairwise_of_forall_mem_list
    intro a ha b hb
    have hak : key a = k := by simpa using (List.mem_filter.mp ha).2
    have hbk : key b = k := by simpa using (List.mem_filter.mp hb).2
    rw [hak, hbk]
    exact decide_eq_true le_rfl
  -- the entries with key `k` are in order, so sorting leaves them as a sublist
  have hsub := (List.sublist_mergeSort (key_trans key) (key_total key) hpairs
    List.filter_sublist).filter (key · = k)
  rw [List.filter_filter] at hsub
  simp only [Bool.and_self] at hsub
  refine (hsub.eq_of_length ?_).symm
  exact ((List.mergeSort_perm l _).filter _).length_eq.symm

/-- An entry with a greater key than all others stands last. -/
theorem exists_eq_append_of_top (key : β → κ) {s : List β}
    (hs : s.Pairwise fun a b => key a ≤ key b) (hnodup : s.Nodup) {x : β} (hx : x ∈ s)
    (htop : ∀ y ∈ s, y ≠ x → key y < key x) :
    ∃ init, s = init ++ [x] := by
  obtain ⟨init, rest, rfl⟩ := List.append_of_mem hx
  cases rest with
  | nil => exact ⟨init, rfl⟩
  | cons y rest =>
    have hle : key x ≤ key y :=
      (List.pairwise_cons.mp (List.pairwise_append.mp hs).2.1).1 y List.mem_cons_self
    have hne : y ≠ x := by
      rintro rfl
      exact (List.nodup_cons.mp (List.nodup_append.mp hnodup).2.1).1 List.mem_cons_self
    exact absurd (htop y (by simp) hne) (not_lt.mpr hle)

/-! ## Searching -/

section Search

variable {key : β → κ} {l : List β} {k : κ}

theorem find?_eq_none (h : ∀ a ∈ l, key a ≠ k) : l.find? (key · = k) = none := by
  apply List.find?_eq_none.mpr
  intro a ha
  rw [decide_eq_true_eq]
  exact h a ha

theorem takeWhile_eq_nil (h : ∀ a ∈ l, k < key a) : l.takeWhile (key · < k) = [] := by
  cases l with
  | nil => rfl
  | cons a l =>
    apply List.takeWhile_cons_of_neg
    rw [decide_eq_true_eq]
    exact (h a List.mem_cons_self).asymm

/-- The entry with the greatest key up to `k` splits the list: smaller keys are before it, and keys
    above `k` behind it. -/
theorem exists_split_of_greatest (hl : l.Pairwise fun a b => key a < key b) {s : β} (hs : s ∈ l)
    (hlast : ∀ a ∈ l, key a ≤ k → key a ≤ key s) :
    ∃ below above, l = below ++ s :: above ∧ (∀ a ∈ below, key a < key s) ∧
      ∀ a ∈ above, k < key a := by
  obtain ⟨below, above, rfl⟩ := List.append_of_mem hs
  obtain ⟨-, htail, hcross⟩ := List.pairwise_append.mp hl
  refine ⟨below, above, rfl, fun a ha => hcross a ha s List.mem_cons_self, ?_⟩
  intro a ha
  have hsa : key s < key a := (List.pairwise_cons.mp htail).1 a ha
  have hmem : a ∈ below ++ s :: above := List.mem_append_right _ (List.mem_cons_of_mem s ha)
  exact lt_of_not_ge fun hle => (hlast a hmem hle).not_gt hsa

/-- A search ends at the entry with the greatest key up to `k`. -/
theorem search_of_greatest (hl : l.Pairwise fun a b => key a < key b) {s : β} (hs : s ∈ l)
    (hle : key s ≤ k) (hlast : ∀ a ∈ l, key a ≤ k → key a ≤ key s) :
    (key s = k ∧ l.find? (key · = k) = some s) ∨
      (key s ≠ k ∧ l.find? (key · = k) = none ∧ (l.takeWhile (key · < k)).getLast? = some s) := by
  obtain ⟨below, above, rfl, hbelow, habove⟩ := exists_split_of_greatest hl hs hlast
  have hmiss : below.find? (key · = k) = none :=
    find?_eq_none fun a ha => ((hbelow a ha).trans_le hle).ne
  rw [List.find?_append, hmiss, Option.none_or]
  by_cases heq : key s = k
  · exact .inl ⟨heq, List.find?_cons_of_pos (decide_eq_true heq)⟩
  · have hlt : key s < k := lt_of_le_of_ne hle heq
    refine .inr ⟨heq, ?_, ?_⟩
    · apply find?_eq_none
      intro a ha
      rcases List.mem_cons.mp ha with rfl | ha
      · exact heq
      · exact (habove a ha).ne'
    · rw [List.takeWhile_append_of_pos, List.takeWhile_cons_of_pos, takeWhile_eq_nil habove]
      · exact List.getLast?_concat
      · exact decide_eq_true hlt
      · intro a ha
        exact decide_eq_true ((hbelow a ha).trans hlt)

/-- Below the first entry a search finds nothing. -/
theorem search_of_none (h : ∀ a ∈ l, k < key a) :
    l.find? (key · = k) = none ∧ (l.takeWhile (key · < k)).getLast? = none := by
  rw [takeWhile_eq_nil h]
  exact ⟨find?_eq_none fun a ha => (h a ha).ne', rfl⟩

end Search

end KeySort
