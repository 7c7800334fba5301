import Profi.Metrics
import Profi.Lib.PerCpuMap

/-!
# Draining Per-CPU Maps

`drain_percpu_hash` and `inc_cumulative_bucket_counters` of `src/main.rs`.

A drain lists up to `PERCPU_HASH_DRAIN_KEY_BUDGET` keys and then, key by key, reads the
slots of all CPUs, hands them to `process` and deletes the key. Here the whole drain is one
step; what other steps can do between the read and the delete of a key is the subject of
`Profi.DrainRace`.

## Main results

- `drainPercpuHash_eq`: a drain hands out `drained` and leaves `undrained`
- `sum_drained`: what is handed out and what is left make up the map
- `Adds.incCumulativeBucketCounters`: the exported counters move by prefix sums
-/

namespace Profi

/-- `PERCPU_HASH_DRAIN_KEY_BUDGET`. -/
def percpuHashDrainKeyBudget : ℕ := 8192

section Drain

variable {n : ℕ} {K V S : Type} [DecidableEq K]

/-! ## The drain -/

/-- The loop body of `drain_percpu_hash`. The closures passed as `process` never fail. -/
def drainKey (process : S → K → List V → S) (s : S × PerCpuMap n K V) (key : K) :
    S × PerCpuMap n K V :=
  match s.2.lookupPercpu key with
  | none => s
  | some values => (process s.1 key values, s.2.delete key)

/-- The keys a drain looks at, in the order the map hands them out. -/
def drainKeys (order : KeyOrder K) (map : PerCpuMap n K V) : List K :=
  (order.order map.slots.keys).take percpuHashDrainKeyBudget

/-- `drain_percpu_hash`. -/
def drainPercpuHash (order : KeyOrder K) (process : S → K → List V → S) (s : S)
    (map : PerCpuMap n K V) : S × PerCpuMap n K V :=
  (drainKeys order map).foldl (drainKey process) (s, map)

/-- What reading the keys one after the other hands out. -/
def readKeys (map : PerCpuMap n K V) (keys : List K) : List (K × List V) :=
  keys.filterMap fun key => (map.lookupPercpu key).map (key, ·)

/-- What a drain hands to `process`. -/
def drained (order : KeyOrder K) (map : PerCpuMap n K V) : List (K × List V) :=
  readKeys map (drainKeys order map)

/-- What a drain leaves in the map. -/
def undrained (order : KeyOrder K) (map : PerCpuMap n K V) : PerCpuMap n K V :=
  (drainKeys order map).foldl PerCpuMap.delete map

/-! ## What a drain does -/

variable (order : KeyOrder K) {key : K} {keys : List K}

omit [DecidableEq K] in
theorem drainKeys_nodup (map : PerCpuMap n K V) : (drainKeys order map).Nodup := by
  have hkeys : (order.order map.slots.keys).Nodup :=
    (order.perm _).nodup_iff.mpr map.slots.keys_nodup
  exact hkeys.sublist (List.take_sublist _ _)

theorem delete_of_lookup_none {map : PerCpuMap n K V} (h : map.slots.lookup key = none) :
    map.delete key = map := by
  have hk : key ∉ map.slots.entries.keys := fun hmem => AList.lookup_eq_none.mp h hmem
  have herase : map.slots.erase key = map.slots := by
    apply AList.ext
    exact List.kerase_of_notMem_keys hk
  unfold PerCpuMap.delete
  rw [herase]

/-- Deleting a key does not change what is read at other keys. -/
theorem readKeys_delete {map : PerCpuMap n K V} (h : key ∉ keys) :
    readKeys (map.delete key) keys = readKeys map keys := by
  apply List.filterMap_congr
  intro k hk
  have hne : k ≠ key := by
    rintro rfl
    exact h hk
  simp [PerCpuMap.lookupPercpu, PerCpuMap.delete, AList.lookup_erase_ne hne]

theorem foldl_drainKey (hnodup : keys.Nodup) (process : S → K → List V → S) (s : S)
    (map : PerCpuMap n K V) :
    keys.foldl (drainKey process) (s, map) =
      ((readKeys map keys).foldl (fun s kv => process s kv.1 kv.2) s,
        keys.foldl PerCpuMap.delete map) := by
  induction keys generalizing s map with
  | nil => rfl
  | cons key keys ih =>
    obtain ⟨hkey, hnodup⟩ := List.nodup_cons.mp hnodup
    rw [List.foldl_cons, List.foldl_cons]
    -- a key without a row is skipped, and deleting it does nothing
    cases hl : map.slots.lookup key with
    | none =>
      have hp : map.lookupPercpu key = none := by simp [PerCpuMap.lookupPercpu, hl]
      have hstep : drainKey process (s, map) key = (s, map) := by simp [drainKey, hp]
      rw [hstep, ih hnodup, delete_of_lookup_none hl]
      simp [readKeys, hp]
    | some vals =>
      have hp : map.lookupPercpu key = some (List.ofFn vals) := by
        simp [PerCpuMap.lookupPercpu, hl]
      have hstep : drainKey process (s, map) key =
          (process s key (List.ofFn vals), map.delete key) := by simp [drainKey, hp]
      rw [hstep, ih hnodup, readKeys_delete hkey]
      simp [readKeys, hp]

theorem drainPercpuHash_eq (process : S → K → List V → S) (s : S) (map : PerCpuMap n K V) :
    drainPercpuHash order process s map =
      ((drained order map).foldl (fun s kv => process s kv.1 kv.2) s, undrained order map) :=
  foldl_drainKey (drainKeys_nodup order map) process s map

/-! ## Nothing is lost between `drained` and `undrained` -/

theorem sum_readKeys {W : Type*} [AddCommMonoid W] (w : K → V → W) (hnodup : keys.Nodup)
    (map : PerCpuMap n K V) :
    ((readKeys map keys).map fun kv => (kv.2.map (w kv.1)).sum).sum +
      (keys.foldl PerCpuMap.delete map).sum w = map.sum w := by
  induction keys generalizing map with
  | nil => simp [readKeys]
  | cons key keys ih =>
    obtain ⟨hkey, hnodup⟩ := List.nodup_cons.mp hnodup
    have ih := ih hnodup (map.delete key)
    rw [readKeys_delete hkey] at ih
    rw [List.foldl_cons]
    cases hl : map.slots.lookup key with
    | none =>
      rw [delete_of_lookup_none hl] at ih ⊢
      simpa [readKeys, PerCpuMap.lookupPercpu, hl] using ih
    | some vals =>
      rw [← PerCpuMap.sum_delete w hl, ← ih, ← PerCpuMap.sum_ofFn]
      simp [readKeys, PerCpuMap.lookupPercpu, hl, add_assoc]

/-- What a drain hands out and what it leaves make up the map it found. -/
theorem sum_drained {W : Type*} [AddCommMonoid W] (w : K → V → W) (order : KeyOrder K)
    (map : PerCpuMap n K V) :
    ((drained order map).map fun kv => (kv.2.map (w kv.1)).sum).sum +
      (undrained order map).sum w = map.sum w :=
  sum_readKeys w (drainKeys_nodup order map) map

/-- A read hands out rows of the map. -/
theorem mem_drained {order : KeyOrder K} {map : PerCpuMap n K V} {kv : K × List V}
    (h : kv ∈ drained order map) :
    ∃ vals, map.slots.lookup kv.1 = some vals ∧ kv.2 = List.ofFn vals := by
  obtain ⟨key, -, hkv⟩ := List.mem_filterMap.mp h
  obtain ⟨values, hvalues, rfl⟩ := Option.map_eq_some_iff.mp hkv
  obtain ⟨vals, hvals, rfl⟩ := Option.map_eq_some_iff.mp hvalues
  exact ⟨vals, hvals, rfl⟩

theorem lookup_foldl_delete (keys : List K) (map : PerCpuMap n K V) (key : K) :
    (keys.foldl PerCpuMap.delete map).slots.lookup key =
      if key ∈ keys then none else map.slots.lookup key := by
  induction keys generalizing map with
  | nil => simp
  | cons k keys ih =>
    rw [List.foldl_cons, ih, PerCpuMap.delete, FinMap.lookup_erase_eq_ite]
    by_cases hmem : key ∈ keys <;> simp [hmem]

/-- A drain takes the rows of its keys and leaves the others. -/
theorem lookup_undrained_eq_ite (map : PerCpuMap n K V) (key : K) :
    (undrained order map).slots.lookup key =
      if key ∈ drainKeys order map then none else map.slots.lookup key :=
  lookup_foldl_delete _ map key

theorem slot_undrained [Zero V] (map : PerCpuMap n K V) (cpu : Fin n) (key : K) :
    (undrained order map).slot cpu key =
      if key ∈ drainKeys order map then 0 else map.slot cpu key := by
  unfold PerCpuMap.slot PerCpuMap.lookup
  rw [lookup_undrained_eq_ite]
  split <;> rfl

/-- What is left was there before. -/
theorem lookup_undrained {order : KeyOrder K} {map : PerCpuMap n K V} {vals : Fin n → V}
    (h : (undrained order map).slots.lookup key = some vals) :
    map.slots.lookup key = some vals := by
  rw [lookup_undrained_eq_ite] at h
  split at h
  · cases h
  · exact h

theorem mem_of_mem_undrained {order : KeyOrder K} {map : PerCpuMap n K V}
    (h : key ∈ (undrained order map).slots) : key ∈ map.slots := by
  obtain ⟨vals, hvals⟩ := FinMap.mem_iff_lookup.mp h
  exact FinMap.mem_iff_lookup.mpr ⟨vals, lookup_undrained hvals⟩

/-! ## Draining to the end -/

theorem size_delete_of_mem {map : PerCpuMap n K V} (h : key ∈ map.slots) :
    (map.delete key).slots.size + 1 = map.slots.size := by
  have hk : key ∈ map.slots.keys := AList.mem_keys.mp h
  have hpos : 0 < map.slots.keys.length := List.length_pos_of_mem hk
  have hlen : (map.delete key).slots.keys.length = map.slots.keys.length - 1 := by
    have hkeys : (map.delete key).slots.keys = map.slots.keys.erase key := AList.keys_erase key _
    rw [hkeys, List.length_erase_of_mem hk]
  unfold FinMap.size
  omega

/-- Deleting the first listed key leaves the others in the map. -/
theorem mem_delete_of_cons {map : PerCpuMap n K V} (hkey : key ∉ keys)
    (hmem : ∀ k ∈ key :: keys, k ∈ map.slots) : ∀ k ∈ keys, k ∈ (map.delete key).slots := by
  intro k hk
  have hne : k ≠ key := by
    rintro rfl
    exact hkey hk
  exact AList.mem_erase.mpr ⟨hne, hmem k (by simp [hk])⟩

theorem size_foldl_delete (hnodup : keys.Nodup) (map : PerCpuMap n K V)
    (hmem : ∀ key ∈ keys, key ∈ map.slots) :
    (keys.foldl PerCpuMap.delete map).slots.size + keys.length = map.slots.size := by
  induction keys generalizing map with
  | nil => rfl
  | cons key keys ih =>
    obtain ⟨hkey, hnodup⟩ := List.nodup_cons.mp hnodup
    have hstep := size_delete_of_mem (hmem key (by simp))
    have hrest := mem_delete_of_cons hkey hmem
    have ih := ih hnodup (map.delete key) hrest
    simp only [List.foldl_cons, List.length_cons]
    omega

/-- Each drain takes a budget's worth of keys off the map. -/
theorem size_undrained (map : PerCpuMap n K V) :
    (undrained order map).slots.size = map.slots.size - percpuHashDrainKeyBudget := by
  have hlen : (drainKeys order map).length = min percpuHashDrainKeyBudget map.slots.size := by
    simp [drainKeys, FinMap.size, (order.perm _).length_eq]
  have hmem : ∀ key ∈ drainKeys order map, key ∈ map.slots := by
    intro key hkey
    exact AList.mem_keys.mpr ((order.perm _).mem_iff.mp (List.mem_of_mem_take hkey))
  have hsize := size_foldl_delete (drainKeys_nodup order map) map hmem
  unfold undrained
  omega

end Drain

/-! ## Cumulative bucket counters -/

/-- The loop of `inc_cumulative_bucket_counters`, with the running sum. -/
def incCumulativeFrom (family : CounterFamily) (baseLabels : List String) :
    Metrics → ℕ → List (String × ℕ) → Metrics
  | m, _, [] => m
  | m, cumulative, (le, count) :: rest =>
    let cumulative := cumulative + count
    if cumulative = 0 then incCumulativeFrom family baseLabels m cumulative rest
    else
      incCumulativeFrom family baseLabels
        (m.incLabels family (baseLabels ++ [le]) cumulative) cumulative rest

/-- `inc_cumulative_bucket_counters`. -/
def incCumulativeBucketCounters (m : Metrics) (family : CounterFamily) (baseLabels : List String)
    (leValues : List String) (bucketCounts : List ℕ) : Metrics :=
  incCumulativeFrom family baseLabels m 0 (leValues.zip bucketCounts)

/-- The increments of the loop; a skipped bucket is an increment by zero. -/
def bucketIncs (family : CounterFamily) (baseLabels : List String) :
    ℕ → List (String × ℕ) → List Inc
  | _, [] => []
  | cumulative, (le, count) :: rest =>
    ⟨family, baseLabels ++ [le], cumulative + count⟩ ::
      bucketIncs family baseLabels (cumulative + count) rest

theorem family_of_mem_bucketIncs {family : CounterFamily} {baseLabels : List String} {i : Inc}
    {cumulative : ℕ} {pairs : List (String × ℕ)}
    (h : i ∈ bucketIncs family baseLabels cumulative pairs) : i.family = family := by
  induction pairs generalizing cumulative with
  | nil => cases h
  | cons pair rest ih =>
    rcases List.mem_cons.mp h with rfl | h
    · rfl
    · exact ih h

/-- The loop adds exactly its increments. -/
theorem Adds.incCumulativeFrom {a m : Metrics} {xs : List Inc} (h : Adds a m xs)
    (family : CounterFamily) (baseLabels : List String) (cumulative : ℕ)
    (pairs : List (String × ℕ)) :
    Adds a (incCumulativeFrom family baseLabels m cumulative pairs)
      (xs ++ bucketIncs family baseLabels cumulative pairs) := by
  induction pairs generalizing m xs cumulative with
  | nil => simpa [Profi.incCumulativeFrom, bucketIncs] using h
  | cons pair rest ih =>
    obtain ⟨le, count⟩ := pair
    rw [bucketIncs, List.append_cons]
    simp only [Profi.incCumulativeFrom]
    split
    · -- nothing counted so far: the counter is not even created
      rename_i hzero
      rw [hzero]
      refine ih ⟨h.ext, ?_, ?_, h.drops, h.activeMemory⟩ 0
      · intro f p
        simpa using h.total f p
      · intro f labels hf
        simpa using h.value f labels hf
    · exact ih (h.incLabels family _ _) _

theorem Adds.incCumulativeBucketCounters {a m : Metrics} {xs : List Inc} (h : Adds a m xs)
    (family : CounterFamily) (baseLabels leValues : List String) (bucketCounts : List ℕ) :
    Adds a (incCumulativeBucketCounters m family baseLabels leValues bucketCounts)
      (xs ++ bucketIncs family baseLabels 0 (leValues.zip bucketCounts)) :=
  h.incCumulativeFrom family baseLabels 0 _

end Profi
