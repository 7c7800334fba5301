import Profi.Lib.FinMap

/-!
# A Table Kept as the Union of Parts

A store holds an item under each of its keys, and every item has a table of parts.
`IsUnion parts store table` says that a flat table is the union of the parts of all items.
Instead of rebuilding the table when an item changes, one patches it:

- `IsUnion.remove`: take out the entries that carry the key of the item
- `IsUnion.add`: write the parts of the item over the table

Writing over is only right if no other item has these parts (`Apart`), and if an earlier version
of the item under the same key had no parts that it has not.
-/

namespace UnionMap

variable {K V I X : Type} [DecidableEq K] [DecidableEq I] {parts : V → FinMap I X}
  {store : K → Option V} {table table' : FinMap I X} {k : K} {v : V}

/-- The table is the union of the parts of all items in the store. -/
def IsUnion (parts : V → FinMap I X) (store : K → Option V) (table : FinMap I X) : Prop :=
  ∀ i x, table.lookup i = some x ↔ ∃ k v, store k = some v ∧ (parts v).lookup i = some x

/-- No two items have a part in common. -/
def Apart (parts : V → FinMap I X) (store : K → Option V) : Prop :=
  ∀ k k' v v' i, store k = some v → store k' = some v' → i ∈ parts v → i ∈ parts v' → k = k'

omit [DecidableEq K] in
theorem isUnion_empty : IsUnion parts (fun _ : K => none) ∅ := by
  intro i x
  simp

omit [DecidableEq K] [DecidableEq I] in
theorem apart_empty : Apart parts (fun _ : K => none) := by
  intro k k' v v' i hk
  cases hk

omit [DecidableEq I] in
/-- A store with one item. -/
theorem apart_single (k : K) (v : V) :
    Apart parts (Function.update (fun _ => none) k (some v)) := by
  have hkey : ∀ k' v', Function.update (fun _ : K => none) k (some v) k' = some v' → k' = k := by
    intro k' v' h
    by_contra hne
    rw [Function.update_of_ne hne] at h
    cases h
  intro k₁ k₂ v₁ v₂ i hk₁ hk₂ _ _
  rw [hkey k₁ v₁ hk₁, hkey k₂ v₂ hk₂]

/-- The item under `k` is replaced by one that has all of its parts. -/
def Covers (parts : V → FinMap I X) (store : K → Option V) (k : K) (v : V) : Prop :=
  ∀ v₀, store k = some v₀ → ∀ i ∈ parts v₀, i ∈ parts v

omit [DecidableEq I] in
/-- Items that are apart were apart before one of them was replaced by one with more parts. -/
theorem Apart.of_update (h : Apart parts (Function.update store k (some v)))
    (hcovers : Covers parts store k v) : Apart parts store := by
  -- every part of the old store is a part of the new one, under the same key
  have hmem : ∀ k₁ v₁ i, store k₁ = some v₁ → i ∈ parts v₁ →
      ∃ v₂, Function.update store k (some v) k₁ = some v₂ ∧ i ∈ parts v₂ := by
    intro k₁ v₁ i hk₁ hi
    by_cases hk : k₁ = k
    · subst hk
      exact ⟨v, Function.update_self _ _ _, hcovers v₁ hk₁ i hi⟩
    · exact ⟨v₁, by rw [Function.update_of_ne hk, hk₁], hi⟩
  intro k₁ k₂ v₁ v₂ i hk₁ hk₂ hi₁ hi₂
  obtain ⟨v₁, hk₁, hi₁⟩ := hmem k₁ v₁ i hk₁ hi₁
  obtain ⟨v₂, hk₂, hi₂⟩ := hmem k₂ v₂ i hk₂ hi₂
  exact h k₁ k₂ v₁ v₂ i hk₁ hk₂ hi₁ hi₂

/-- An item brings its part, if that covers the part of the item it replaces. -/
theorem IsUnion.add (h : IsUnion parts store table)
    (hapart : Apart parts (Function.update store k (some v))) (hcovers : Covers parts store k v) :
    IsUnion parts (Function.update store k (some v)) (parts v ∪ table) := by
  intro i x
  rw [← Option.mem_def, AList.mem_lookup_union]
  constructor
  · rintro (hpart | ⟨hnot, hold⟩)
    · exact ⟨k, v, Function.update_self _ _ _, hpart⟩
    · -- what `v` does not have is of another item
      obtain ⟨k₁, v₁, hk₁, hpart⟩ := (h i x).mp hold
      have hne : k₁ ≠ k := by
        rintro rfl
        exact hnot (hcovers v₁ hk₁ i (FinMap.mem_iff_lookup.mpr ⟨x, hpart⟩))
      exact ⟨k₁, v₁, by rw [Function.update_of_ne hne, hk₁], hpart⟩
  · rintro ⟨k₁, v₁, hk₁, hpart⟩
    by_cases hk : k₁ = k
    · subst hk
      rw [Function.update_self] at hk₁
      cases hk₁
      exact .inl hpart
    · -- another item's part, so not one of `v`
      refine .inr ⟨fun hi => hk ?_, (h i x).mpr ⟨k₁, v₁, ?_, hpart⟩⟩
      · exact hapart k₁ k v₁ v i hk₁ (Function.update_self _ _ _)
          (FinMap.mem_iff_lookup.mpr ⟨x, hpart⟩) hi
      · rw [Function.update_of_ne hk] at hk₁
        exact hk₁

theorem IsUnion.remove {owner : X → K} (h : IsUnion parts store table)
    (howner : ∀ k v i x, store k = some v → (parts v).lookup i = some x → owner x = k)
    (hkept : ∀ i x, table'.lookup i = some x ↔ table.lookup i = some x ∧ owner x ≠ k) :
    IsUnion parts (Function.update store k none) table' := by
  intro i x
  rw [hkept, h]
  constructor
  · rintro ⟨⟨k₁, v₁, hk₁, hpart⟩, hne⟩
    rw [howner k₁ v₁ i x hk₁ hpart] at hne
    exact ⟨k₁, v₁, by rw [Function.update_of_ne hne, hk₁], hpart⟩
  · rintro ⟨k₁, v₁, hk₁, hpart⟩
    have hne : k₁ ≠ k := by
      rintro rfl
      rw [Function.update_self] at hk₁
      cases hk₁
    rw [Function.update_of_ne hne] at hk₁
    exact ⟨⟨k₁, v₁, hk₁, hpart⟩, by rwa [howner k₁ v₁ i x hk₁ hpart]⟩

/-- Taking an item out and putting its new version in. -/
theorem IsUnion.replace {owner : X → K} (h : IsUnion parts store table)
    (howner : ∀ k v i x, store k = some v → (parts v).lookup i = some x → owner x = k)
    (hkept : ∀ i x, table'.lookup i = some x ↔ table.lookup i = some x ∧ owner x ≠ k)
    (hapart : Apart parts (Function.update store k (some v))) :
    IsUnion parts (Function.update store k (some v)) (parts v ∪ table') := by
  have hremoved := h.remove howner hkept
  have hidem : Function.update (Function.update store k none) k (some v) =
      Function.update store k (some v) := Function.update_idem _ _ _
  rw [← hidem] at hapart ⊢
  refine hremoved.add hapart ?_
  intro v₀ hv₀
  rw [Function.update_self] at hv₀
  cases hv₀

end UnionMap
