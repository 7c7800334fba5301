import Profi.Lib.FinMap

/-!
# Per-CPU Hash Maps

The kernel's per-CPU hash map: every key owns one value slot per CPU. A program running on
a CPU sees only the slot of that CPU; a reader outside the kernel gets the slots of all
CPUs at once.

- `lookup`: the slot of the running CPU, absent when the key is absent
- `update`: overwrite the slot of the running CPU; inserting a new key zeroes the other
  slots and fails when the map is at `maxEntries`
- `accumulate`: the read-modify-write pattern of aggregating programs, "add to the slot if
  the key is there, insert a fresh value otherwise"

The result used everywhere is `sum_accumulate`: accumulating one item moves a weighted sum
over the whole map by the weight of that item, whichever of the two branches is taken.
-/

/-- A per-CPU hash map over `n` CPUs with room for `maxEntries` keys. -/
structure PerCpuMap (n : ℕ) (K V : Type) where
  maxEntries : ℕ
  slots : FinMap K (Fin n → V)

namespace PerCpuMap

variable {n : ℕ} {K V : Type} [DecidableEq K]

/-! ## Operations -/

/-- The empty map. -/
def empty (maxEntries : ℕ) : PerCpuMap n K V := ⟨maxEntries, ∅⟩

/-- The slot of `k` on `cpu`. -/
def lookup (m : PerCpuMap n K V) (cpu : Fin n) (k : K) : Option V :=
  (m.slots.lookup k).map (· cpu)

/-- The slots of `k` on all CPUs, in CPU order. -/
def lookupPercpu (m : PerCpuMap n K V) (k : K) : Option (List V) :=
  (m.slots.lookup k).map List.ofFn

/-- Overwrite the slot of `k` on `cpu`; `none` when a new key finds the map full. -/
def update [Zero V] (m : PerCpuMap n K V) (cpu : Fin n) (k : K) (v : V) :
    Option (PerCpuMap n K V) :=
  match m.slots.lookup k with
  | some vals => some { m with slots := m.slots.insert k (Function.update vals cpu v) }
  | none =>
    if m.slots.size < m.maxEntries then
      some { m with slots := m.slots.insert k (Function.update (fun _ => 0) cpu v) }
    else none

def delete (m : PerCpuMap n K V) (k : K) : PerCpuMap n K V :=
  { m with slots := m.slots.erase k }

/-- Add to the slot of `k` on `cpu` when `k` is present, insert `fresh` otherwise. -/
def accumulate [Zero V] (m : PerCpuMap n K V) (cpu : Fin n) (k : K) (add : V → V) (fresh : V) :
    Option (PerCpuMap n K V) :=
  match m.lookup cpu k with
  | some val => m.update cpu k (add val)
  | none => m.update cpu k fresh

/-- The key is present, or there is room for it. -/
def HasRoom (m : PerCpuMap n K V) (k : K) : Prop :=
  k ∈ m.slots ∨ m.slots.size < m.maxEntries

instance (m : PerCpuMap n K V) (k : K) : Decidable (m.HasRoom k) :=
  inferInstanceAs (Decidable (_ ∨ _))

/-- The value of `k` on `cpu`, zero when the key is absent. -/
def slot [Zero V] (m : PerCpuMap n K V) (cpu : Fin n) (k : K) : V :=
  (m.lookup cpu k).getD 0

/-! ## Accumulating -/

theorem accumulate_isSome_iff [Zero V] (m : PerCpuMap n K V) (cpu : Fin n) (k : K)
    (add : V → V) (fresh : V) :
    (m.accumulate cpu k add fresh).isSome ↔ m.HasRoom k := by
  unfold accumulate update lookup HasRoom
  cases h : m.slots.lookup k with
  | some vals =>
    have hmem : k ∈ m.slots := by rw [← AList.lookup_isSome, h]; rfl
    simp [hmem]
  | none =>
    have hmem : k ∉ m.slots := AList.lookup_eq_none.mp h
    by_cases hroom : m.slots.size < m.maxEntries <;> simp [hroom, hmem]

/-- The map an accumulation leaves behind, when it does not fail: the slot of the running
    CPU changes and nothing else. -/
theorem accumulate_eq_some [Zero V] {m m' : PerCpuMap n K V} {cpu : Fin n} {k : K}
    {add : V → V} {fresh : V} (h : m.accumulate cpu k add fresh = some m')
    (hfresh : fresh = add 0) :
    m'.maxEntries = m.maxEntries ∧
      m'.slots = m.slots.insert k
        (Function.update ((m.slots.lookup k).getD fun _ => 0) cpu (add (m.slot cpu k))) := by
  subst hfresh
  unfold accumulate update lookup at h
  unfold slot lookup
  cases hk : m.slots.lookup k with
  | some vals =>
    simp only [hk, Option.map_some, Option.some.injEq] at h
    subst h
    simp
  | none =>
    simp only [hk, Option.map_none] at h
    by_cases hroom : m.slots.size < m.maxEntries
    · simp only [hroom, ↓reduceIte, Option.some.injEq] at h
      subst h
      simp
    · simp [hroom] at h

/-- Accumulating changes one slot of one key. -/
theorem slot_accumulate [Zero V] {m m' : PerCpuMap n K V} {cpu : Fin n} {k : K}
    {add : V → V} {fresh : V} (h : m.accumulate cpu k add fresh = some m')
    (hfresh : fresh = add 0) (cpu' : Fin n) (k' : K) :
    m'.slot cpu' k' = if cpu' = cpu ∧ k' = k then add (m.slot cpu k) else m.slot cpu' k' := by
  obtain ⟨-, hslots⟩ := accumulate_eq_some h hfresh
  by_cases hk : k' = k
  · subst hk
    by_cases hc : cpu' = cpu
    · subst hc
      simp [slot, lookup, hslots]
    · cases hl : m.slots.lookup k' <;> simp [slot, lookup, hslots, hc, hl]
  · simp [slot, lookup, hslots, hk, AList.lookup_insert_ne hk]

theorem mem_accumulate [Zero V] {m m' : PerCpuMap n K V} {cpu : Fin n} {k : K}
    {add : V → V} {fresh : V} (h : m.accumulate cpu k add fresh = some m')
    (hfresh : fresh = add 0) (k' : K) : k' ∈ m'.slots ↔ k' = k ∨ k' ∈ m.slots := by
  obtain ⟨-, hslots⟩ := accumulate_eq_some h hfresh
  rw [hslots, AList.mem_insert]

/-- What holds of all keys and of the one that is added to holds of all keys afterwards, also if
    the map is full. -/
theorem forall_mem_accumulate [Zero V] {m : PerCpuMap n K V} {cpu : Fin n} {k : K} {add : V → V}
    {P : K → Prop} (hk : P k) (h : ∀ k' ∈ m.slots, P k') :
    ∀ k' ∈ ((m.accumulate cpu k add (add 0)).getD m).slots, P k' := by
  cases hacc : m.accumulate cpu k add (add 0) with
  | none => exact h
  | some m' =>
    intro k' hmem
    rcases (mem_accumulate hacc rfl k').mp hmem with rfl | hold
    · exact hk
    · exact h k' hold

theorem lookup_delete_self (m : PerCpuMap n K V) (k : K) :
    (m.delete k).slots.lookup k = none :=
  AList.lookup_erase k m.slots

/-! ## Weighted sums over keys and CPUs -/

section Sum

variable {W : Type*} [AddCommMonoid W]

/-- The sum of `w k v` over all keys and CPUs. -/
def sum (w : K → V → W) (m : PerCpuMap n K V) : W :=
  m.slots.sum fun k vals => ∑ cpu, w k (vals cpu)

omit [DecidableEq K] in
@[simp] theorem sum_empty (w : K → V → W) (maxEntries : ℕ) :
    sum w (empty maxEntries : PerCpuMap n K V) = 0 := rfl

/-- Changing one slot of a row of slots changes the row's sum by the change of the slot. -/
theorem sum_update_slot (f : V → W) (vals : Fin n → V) (cpu : Fin n) (v : V) (c : W)
    (hv : f v = f (vals cpu) + c) :
    ∑ i, f (Function.update vals cpu v i) = (∑ i, f (vals i)) + c := by
  have hcomp : (fun i => f (Function.update vals cpu v i)) =
      Function.update (fun i => f (vals i)) cpu (f v) := by
    funext i
    by_cases hi : i = cpu
    · subst hi; simp
    · simp [hi]
  rw [hcomp, Finset.sum_update_of_mem (Finset.mem_univ cpu), hv,
    ← Finset.add_sum_erase _ (fun i => f (vals i)) (Finset.mem_univ cpu),
    Finset.sdiff_singleton_eq_erase]
  rw [add_right_comm]

/-- Accumulating one item of weight `c` moves the sum by `c`. -/
theorem sum_accumulate [Zero V] {m m' : PerCpuMap n K V} {cpu : Fin n} {k : K}
    {add : V → V} {fresh : V} (h : m.accumulate cpu k add fresh = some m')
    (hfresh : fresh = add 0) (w : K → V → W) (hzero : w k 0 = 0) (c : W)
    (hadd : w k (add (m.slot cpu k)) = w k (m.slot cpu k) + c) :
    sum w m' = sum w m + c := by
  obtain ⟨-, hslots⟩ := accumulate_eq_some h hfresh
  unfold sum
  rw [hslots, FinMap.sum_insert]
  unfold slot lookup at hadd ⊢
  cases hk : m.slots.lookup k with
  | some vals =>
    simp only [hk, Option.map_some, Option.getD_some] at hadd ⊢
    rw [sum_update_slot (w k) vals cpu _ c hadd, add_right_comm,
      FinMap.sum_erase_of_lookup (fun k vals => ∑ cpu, w k (vals cpu)) hk]
  | none =>
    simp only [hk, Option.map_none, Option.getD_none] at hadd ⊢
    rw [sum_update_slot (w k) (fun _ => 0) cpu _ c hadd,
      FinMap.sum_erase_of_lookup_none _ hk]
    simp [hzero, add_comm]

/-- Deleting a key takes the weight of its slots out of the sum. -/
theorem sum_delete (w : K → V → W) {m : PerCpuMap n K V} {k : K} {vals : Fin n → V}
    (h : m.slots.lookup k = some vals) :
    (∑ cpu, w k (vals cpu)) + sum w (m.delete k) = sum w m :=
  FinMap.sum_erase_of_lookup (fun k vals => ∑ cpu, w k (vals cpu)) h

/-- The row of slots handed to a reader has the same sum as the slots. -/
theorem sum_ofFn (f : V → W) (vals : Fin n → V) :
    ((List.ofFn vals).map f).sum = ∑ cpu, f (vals cpu) := by
  rw [List.map_ofFn, List.sum_ofFn]
  rfl

end Sum

end PerCpuMap
