import Mathlib

/-!
# Cumulative Counters

A histogram exported as plain counters has one counter for each bound, which counts what is at most
the bound, and one that counts everything. Whoever reads the counters relies on their shape: they
do not fall from one bound to the next, none is above the count, and the last is the count.

The shape is additive: it is kept when a histogram of that shape is added counter by counter
(`Cumulative.add`), and the running sums of a list of cells have it (`Cumulative.of_cells`). Whether
the last counter meets the count is a part of its own, under the condition `exact`.
-/

namespace Profi

/-- The counters `upTo`, one for each of `bounds`, and `count` have the shape of a histogram. -/
structure Cumulative {α : Type*} (exact : Prop) (bounds : List α) (upTo : α → ℕ) (count : ℕ) :
    Prop where
  sorted : (bounds.map upTo).Pairwise (· ≤ ·)
  le_count : ∀ b ∈ bounds, upTo b ≤ count
  last_eq : exact → ∀ b ∈ bounds.getLast?, upTo b = count

namespace Cumulative

variable {α : Type*} {exact exact' : Prop} {bounds : List α} {upTo upTo' : α → ℕ} {count count' : ℕ}

theorem mono (h : Cumulative exact bounds upTo count) (himp : exact' → exact) :
    Cumulative exact' bounds upTo count :=
  ⟨h.sorted, h.le_count, fun hexact => h.last_eq (himp hexact)⟩

/-- Only the counters of the bounds matter. -/
theorem congr (h : Cumulative exact bounds upTo count) (hupTo : ∀ b ∈ bounds, upTo' b = upTo b)
    (hcount : count' = count) : Cumulative exact bounds upTo' count' where
  sorted := by
    rw [List.map_congr_left hupTo]
    exact h.sorted
  le_count b hb := by
    rw [hupTo b hb, hcount]
    exact h.le_count b hb
  last_eq hexact b hb := by
    rw [hupTo b (List.mem_of_getLast? hb), hcount]
    exact h.last_eq hexact b hb

/-- A histogram of nothing. -/
theorem zero (exact : Prop) (bounds : List α) : Cumulative exact bounds (fun _ => 0) 0 where
  sorted := by
    rw [List.pairwise_map]
    exact List.pairwise_of_forall fun _ _ => le_rfl
  le_count _ _ := le_rfl
  last_eq _ _ _ := rfl

theorem add (h : Cumulative exact bounds upTo count) (h' : Cumulative exact bounds upTo' count') :
    Cumulative exact bounds (fun b => upTo b + upTo' b) (count + count') where
  sorted := by
    have hsorted := List.pairwise_map.mp h.sorted
    have hsorted' := List.pairwise_map.mp h'.sorted
    rw [List.pairwise_map]
    exact hsorted.imp₂ (fun _ _ hle hle' => Nat.add_le_add hle hle') hsorted'
  le_count b hb := Nat.add_le_add (h.le_count b hb) (h'.le_count b hb)
  last_eq hexact b hb := by rw [h.last_eq hexact b hb, h'.last_eq hexact b hb]

/-- The running sums of cells, one for each bound, and a count that is not below their sum. -/
theorem of_cells {cells : List ℕ} (hlength : cells.length = bounds.length)
    (hupTo : ∀ i b, bounds[i]? = some b → upTo b = (cells.take (i + 1)).sum)
    (hle : cells.sum ≤ count) (heq : exact → cells.sum = count) :
    Cumulative exact bounds upTo count where
  sorted := by
    rw [List.pairwise_map, List.pairwise_iff_getElem]
    intro i j hi hj hij
    rw [hupTo i _ (List.getElem?_eq_getElem hi), hupTo j _ (List.getElem?_eq_getElem hj)]
    have hsub : (cells.take (i + 1)).Sublist (cells.take (j + 1)) :=
      List.take_sublist_take_left (by omega)
    exact hsub.sum_le_sum fun _ _ => Nat.zero_le _
  le_count b hb := by
    obtain ⟨i, hi⟩ := List.getElem?_of_mem hb
    rw [hupTo i b hi]
    have hsub := List.take_sublist (i + 1) cells
    exact (hsub.sum_le_sum fun _ _ => Nat.zero_le _).trans hle
  last_eq hexact b hb := by
    rw [List.getLast?_eq_getElem?] at hb
    rw [hupTo _ b hb, List.take_of_length_le (by omega)]
    exact heq hexact

end Cumulative

end Profi
