import Mathlib

/-!
# Finite Maps with Weighted Sums

A finite map is an association list without duplicate keys (`AList` with a constant
fibre), so that it can be enumerated and its entries can be summed. This file adds the
two notions the kernel map models need on top of Mathlib's `lookup`/`insert`/`erase`:

- `FinMap.size`: the number of entries (what a capacity bound is compared with)
- `FinMap.sum w`: the sum of a weight `w k v` over all entries

The sum lemmas say how a weighted sum moves under `insert` and `erase`. They are the only
place where the list representation of the map is looked at.
-/

/-- A finite map from `K` to `V`. -/
abbrev FinMap (K V : Type) := AList (fun _ : K => V)

/-- An order in which a hash table hands out its keys. Tables promise nothing about it, so
    it is chosen from outside. -/
structure KeyOrder (K : Type) where
  order : List K → List K
  perm : ∀ l, (order l).Perm l

/-- The keys in the order the list representation has them. -/
def KeyOrder.asListed (K : Type) : KeyOrder K := ⟨id, fun l => .refl l⟩

/-- The keys as listed, but `k` before all others. -/
def KeyOrder.first {K : Type} [DecidableEq K] (k : K) : KeyOrder K where
  order l := if k ∈ l then k :: l.erase k else l
  perm l := by
    by_cases hk : k ∈ l
    · simpa [hk] using (List.perm_cons_erase hk).symm
    · simp [hk]

namespace FinMap

variable {K V : Type} {W : Type*}

/-! ## Size and weighted sum -/

/-- Number of entries. -/
def size (m : FinMap K V) : ℕ := m.keys.length

/-- The sum of `w k v` over all entries `(k, v)`. -/
def sum [AddCommMonoid W] (w : K → V → W) (m : FinMap K V) : W :=
  (m.entries.map fun e => w e.1 e.2).sum

@[simp] theorem size_empty : size (∅ : FinMap K V) = 0 := rfl

@[simp] theorem sum_empty [AddCommMonoid W] (w : K → V → W) :
    sum w (∅ : FinMap K V) = 0 := rfl

variable (m : FinMap K V) (k : K)

theorem size_insert_le [DecidableEq K] (v : V) : size (m.insert k v) ≤ m.size + 1 := by
  unfold size
  rw [AList.keys_insert, List.length_cons]
  exact Nat.succ_le_succ (List.length_erase_le)

theorem size_insert_of_notMem [DecidableEq K] {m : FinMap K V} {k : K} (h : k ∉ m) (v : V) :
    size (m.insert k v) = m.size + 1 := by
  unfold size
  rw [AList.keys_insert, List.length_cons, List.erase_of_not_mem h]

theorem eq_empty_of_keys_eq_nil {m : FinMap K V} (h : m.keys = []) : m = ∅ := by
  apply AList.ext
  simpa [AList.keys, List.keys] using h

/-- The value bound to an enumerated key. -/
theorem exists_lookup_of_mem_keys [DecidableEq K] {m : FinMap K V} {k : K} (h : k ∈ m.keys) :
    ∃ v, m.lookup k = some v := by
  have hs : (m.lookup k).isSome := AList.lookup_isSome.mpr (AList.mem_keys.mpr h)
  exact Option.isSome_iff_exists.mp hs

theorem mem_keys_of_lookup [DecidableEq K] {m : FinMap K V} {k : K} {v : V}
    (h : m.lookup k = some v) : k ∈ m.keys := by
  rw [← AList.mem_keys, ← AList.lookup_isSome, h]
  rfl

/-! ## The set of keys -/

/-- The keys of the map, as a set. -/
def keySet [DecidableEq K] (m : FinMap K V) : Finset K := m.keys.toFinset

@[simp] theorem mem_keySet [DecidableEq K] {m : FinMap K V} {k : K} : k ∈ m.keySet ↔ k ∈ m :=
  List.mem_toFinset

theorem card_keySet [DecidableEq K] : m.keySet.card = m.size :=
  List.toFinset_card_of_nodup m.keys_nodup

theorem mem_iff_lookup [DecidableEq K] {m : FinMap K V} {k : K} :
    k ∈ m ↔ ∃ v, m.lookup k = some v := by
  rw [← AList.lookup_isSome, Option.isSome_iff_exists]

/-- What is found after an insertion is the new entry, or was there before. -/
theorem lookup_insert_cases [DecidableEq K] {m : FinMap K V} {k k' : K} {v v' : V}
    (h : (m.insert k v).lookup k' = some v') :
    k' = k ∧ v' = v ∨ k' ≠ k ∧ m.lookup k' = some v' := by
  by_cases hk : k' = k
  · rw [hk, AList.lookup_insert] at h
    exact .inl ⟨hk, (Option.some.inj h).symm⟩
  · rw [AList.lookup_insert_ne hk] at h
    exact .inr ⟨hk, h⟩

theorem lookup_insert_eq_ite [DecidableEq K] (k k' : K) (v : V) :
    (m.insert k v).lookup k' = if k' = k then some v else m.lookup k' := by
  by_cases hk : k' = k
  · rw [hk, AList.lookup_insert, if_pos rfl]
  · rw [AList.lookup_insert_ne hk, if_neg hk]

theorem lookup_erase_eq_ite [DecidableEq K] (k k' : K) :
    (m.erase k).lookup k' = if k' = k then none else m.lookup k' := by
  by_cases hk : k' = k
  · rw [hk, AList.lookup_erase, if_pos rfl]
  · rw [AList.lookup_erase_ne hk, if_neg hk]

theorem lookup_foldl_erase [DecidableEq K] (ks : List K) (m : FinMap K V) (k : K) :
    (ks.foldl (fun m k => m.erase k) m).lookup k = if k ∈ ks then none else m.lookup k := by
  induction ks generalizing m with
  | nil => simp
  | cons k' ks ih =>
    rw [List.foldl_cons, ih, lookup_erase_eq_ite]
    by_cases hmem : k ∈ ks <;> simp [hmem]

/-- The map without the entries that fail `p`. -/
def retain [DecidableEq K] (p : K → V → Bool) (m : FinMap K V) : FinMap K V :=
  (m.keys.filter fun k => (m.lookup k).any fun v => !p k v).foldl (fun m k => m.erase k) m

theorem lookup_retain [DecidableEq K] (p : K → V → Bool) (m : FinMap K V) (k : K) :
    (m.retain p).lookup k = (m.lookup k).filter (p k) := by
  rw [retain, lookup_foldl_erase]
  cases h : m.lookup k with
  | none => simp
  | some v =>
    have hmem : k ∈ m.keys := mem_keys_of_lookup h
    cases hp : p k v <;> simp [List.mem_filter, hmem, h, hp, Option.filter]

/-- An insertion changes nothing exactly if the binding was there. -/
theorem lookup_insert_eq_iff [DecidableEq K] (v : V) :
    (∀ k', (m.insert k v).lookup k' = m.lookup k') ↔ m.lookup k = some v := by
  constructor
  · intro h
    rw [← h k, AList.lookup_insert]
  · intro h k'
    by_cases hk : k' = k
    · rw [hk, h, AList.lookup_insert]
    · rw [AList.lookup_insert_ne hk]

/-- A deletion changes nothing exactly if there was nothing to delete. -/
theorem lookup_erase_eq_iff [DecidableEq K] :
    (∀ k', (m.erase k).lookup k' = m.lookup k') ↔ m.lookup k = none := by
  constructor
  · intro h
    rw [← h k, AList.lookup_erase]
  · intro h k'
    by_cases hk : k' = k
    · rw [hk, h, AList.lookup_erase]
    · rw [AList.lookup_erase_ne hk]

section Sum

variable [DecidableEq K] [AddCommMonoid W] (w : K → V → W)
variable {m : FinMap K V} {k : K}

/-- Taking the entry of `k` out of the map takes its weight out of the sum. -/
theorem sum_erase_of_lookup {v : V} (h : m.lookup k = some v) :
    w k v + sum w (m.erase k) = sum w m := by
  have hk : k ∈ m.entries.keys := mem_keys_of_lookup h
  obtain ⟨b, l₁, l₂, hnot, hsplit, herase⟩ := List.exists_of_kerase hk
  have hb : b = v := by
    have hmem : (⟨k, b⟩ : Sigma fun _ : K => V) ∈ m.entries := by rw [hsplit]; simp
    have hlook : m.entries.dlookup k = some b := (List.mem_dlookup_iff m.nodupKeys).mpr hmem
    exact Option.some.inj (hlook.symm.trans h)
  subst hb
  have herase' : (m.erase k).entries = l₁ ++ l₂ := herase
  unfold sum
  rw [herase', hsplit]
  simp only [List.map_append, List.map_cons, List.sum_append, List.sum_cons]
  exact add_left_comm _ _ _

theorem sum_erase_of_lookup_none (h : m.lookup k = none) : sum w (m.erase k) = sum w m := by
  have hk : k ∉ m.entries.keys := fun hmem => AList.lookup_eq_none.mp h hmem
  have herase : (m.erase k).entries = m.entries := List.kerase_of_notMem_keys hk
  unfold sum
  rw [herase]

/-- Inserting `(k, v)` replaces whatever weight `k` had by `w k v`. -/
theorem sum_insert (m : FinMap K V) (k : K) (v : V) :
    sum w (m.insert k v) = w k v + sum w (m.erase k) := by
  unfold sum
  rw [AList.entries_insert]
  rfl

theorem sum_insert_of_lookup_none (v : V) (h : m.lookup k = none) :
    sum w (m.insert k v) = w k v + sum w m := by
  rw [sum_insert, sum_erase_of_lookup_none w h]

end Sum

/-- The sum only looks at the entries of the map. -/
theorem sum_congr [DecidableEq K] [AddCommMonoid W] {w w' : K → V → W} {m : FinMap K V}
    (h : ∀ k v, m.lookup k = some v → w k v = w' k v) : sum w m = sum w' m := by
  unfold sum
  congr 1
  apply List.map_congr_left
  intro e he
  exact h e.1 e.2 ((List.mem_dlookup_iff m.nodupKeys).mpr he)

theorem sum_eq_zero [DecidableEq K] [AddCommMonoid W] {w : K → V → W} {m : FinMap K V}
    (h : ∀ k v, m.lookup k = some v → w k v = 0) : sum w m = 0 := by
  have hzero : sum w m = sum (fun _ _ => 0) m := sum_congr h
  rw [hzero]
  simp [sum]

/-- A sum over the entries of a single key. -/
theorem sum_ite_eq [DecidableEq K] [AddCommMonoid W] (f : V → W) (m : FinMap K V) (k : K) :
    sum (fun k' v => if k' = k then f v else 0) m = ((m.lookup k).map f).getD 0 := by
  have hrest : sum (fun k' v => if k' = k then f v else 0) (m.erase k) = 0 := by
    apply sum_eq_zero
    intro k' v hl
    have hne : k' ≠ k := by
      rintro rfl
      rw [AList.lookup_erase] at hl
      cases hl
    exact if_neg hne
  cases hk : m.lookup k with
  | none =>
    rw [← sum_erase_of_lookup_none _ hk, hrest]
    rfl
  | some v =>
    rw [← sum_erase_of_lookup (fun k' v => if k' = k then f v else 0) hk, hrest, add_zero]
    exact if_pos rfl

/-- What a map without some entries of another still holds, the other held, and it is none of
    those. -/
theorem mem_of_lookup_ite [DecidableEq K] {m m' : FinMap K V} {k : K} {q : Prop}
    [Decidable q] (h : m'.lookup k = if q then none else m.lookup k) (hk : k ∈ m') :
    ¬q ∧ k ∈ m := by
  obtain ⟨v, hv⟩ := mem_iff_lookup.mp hk
  rw [h] at hv
  split at hv
  · cases hv
  next hq => exact ⟨hq, mem_iff_lookup.mpr ⟨v, hv⟩⟩

end FinMap
