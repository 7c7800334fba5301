import Mathlib

/-!
# First Come, First Admitted

A list of admitted values with a limit: a new value is admitted while there is room, and from
then on every other value is shown as a stand-in. What a value is shown as never changes once
it has been seen, as long as the list is only changed by admissions (`shown_of_grows`).
-/

namespace Admission

variable {α : Type*} [DecidableEq α] {limit : ℕ} {known known' known'' : List α} {x y standIn : α}

/-- The list after `x` was seen. -/
def note (limit : ℕ) (known : List α) (x : α) : List α :=
  if x ∈ known then known else if known.length < limit then known ++ [x] else known

/-- What `x` is shown as. -/
def shown (limit : ℕ) (standIn : α) (known : List α) (x : α) : α :=
  if x ∈ known ∨ known.length < limit then x else standIn

theorem length_note_le (h : known.length ≤ limit) (x : α) :
    (note limit known x).length ≤ limit := by
  unfold note
  split
  · exact h
  · split
    · rw [List.length_append]
      exact Nat.succ_le_of_lt ‹_›
    · exact h

theorem shown_of_mem (limit : ℕ) (standIn : α) (h : x ∈ known) :
    shown limit standIn known x = x := by
  rw [shown, if_pos (.inl h)]

/-- A value that is shown as something else than the stand-in is admitted. -/
theorem shown_mem_note (h : shown limit standIn known x ≠ standIn) :
    shown limit standIn known x ∈ note limit known x := by
  unfold shown at h ⊢
  unfold note
  by_cases hmem : x ∈ known
  · simp [hmem]
  · by_cases hroom : known.length < limit
    · simp [hmem, hroom]
    · simp [hmem, hroom] at h

/-! ## Growth -/

omit [DecidableEq α] in
/-- The list may have admitted more values, unless it was full. -/
structure Grows (limit : ℕ) (known known' : List α) : Prop where
  subset : known ⊆ known'
  full : limit ≤ known.length → known' = known

omit [DecidableEq α] in
theorem Grows.refl (limit : ℕ) (known : List α) : Grows limit known known :=
  ⟨List.Subset.refl _, fun _ => rfl⟩

omit [DecidableEq α] in
theorem Grows.trans (h : Grows limit known known') (h' : Grows limit known' known'') :
    Grows limit known known'' where
  subset := List.Subset.trans h.subset h'.subset
  full := by
    intro hfull
    have hsame := h.full hfull
    rw [h'.full (by rw [hsame]; exact hfull), hsame]

theorem grows_note (limit : ℕ) (known : List α) (x : α) :
    Grows limit known (note limit known x) := by
  unfold note
  split
  · exact .refl limit known
  · split
    next hroom => exact ⟨List.subset_append_left _ _, fun hfull => absurd hroom (not_lt.mpr hfull)⟩
    · exact .refl limit known

/-- Once seen, a value is shown the same for as long as the list only grows. -/
theorem shown_of_grows (standIn : α) (h : Grows limit (note limit known x) known') :
    shown limit standIn known' x = shown limit standIn known x := by
  unfold note at h
  by_cases hmem : x ∈ known
  · rw [if_pos hmem] at h
    simp [shown, hmem, h.subset hmem]
  · by_cases hroom : known.length < limit
    · rw [if_neg hmem, if_pos hroom] at h
      have hmem' : x ∈ known' := h.subset (by simp)
      simp [shown, hmem', hroom]
    · rw [if_neg hmem, if_neg hroom] at h
      rw [h.full (not_lt.mp hroom)]

end Admission
