import Profi.Ledger

/-!
# Draining While Probes Fire

`drain_percpu_hash` of `src/main.rs` at the grain of its system calls. The drain lists keys
once; then, for each key, it looks the slots up, hands them to `process`, and deletes the
key. Probes add to the map between any two of these steps.

The window of a key opens at its lookup and closes at its delete. What a probe adds to the
key inside the window was not read and is deleted with the key. `lostIn` counts these
additions along a run; `handed_add_stored_add_lost` is the balance with the loss in it.

## Main results

- `handed_add_stored_add_lost`: handed out + stored + lost = added, outside of the window
- `drain_loses_nothing_iff`: for each of the three maps, nothing is lost iff no probe adds to
  a key inside the window of that key
- `run_uninterrupted`: without probes in between, the steps are the drain of `Profi.Drain`
-/

namespace Profi

namespace DrainRace

/-! ## The machine -/

/-- A value that counts calls: every addition is one call more. -/
structure Counting (V X : Type) [Zero V] where
  add : V → X → V
  count : V → ℕ
  count_zero : count 0 = 0
  count_add : ∀ val x, count (add val x) = count val + 1

/-- Where `drain_percpu_hash` stands. -/
inductive Phase (K V : Type) where
  | idle
  | listed (keys : List K)
  | read (key : K) (values : List V) (keys : List K)
  | processed (key : K) (keys : List K)

structure State (n : ℕ) (K V : Type) where
  map : PerCpuMap n K V
  phase : Phase K V
  handed : List (K × List V)

inductive Step (n : ℕ) (K X : Type) where
  | emit (cpu : Fin n) (key : K) (item : X)
  | list (order : KeyOrder K)
  | advance

variable {n : ℕ} {K V X : Type} [DecidableEq K]

/-- The map at the start, no drain running. -/
def State.init (n : ℕ) (K V : Type) (maxEntries : ℕ) : State n K V :=
  ⟨.empty maxEntries, .idle, []⟩

/-- One step of the running drain. A key that is gone is skipped. -/
def advance (s : State n K V) : State n K V :=
  match s.phase with
  | .idle => s
  | .listed [] => { s with phase := .idle }
  | .listed (key :: keys) =>
    match s.map.lookupPercpu key with
    | none => { s with phase := .listed keys }
    | some values => { s with phase := .read key values keys }
  | .read key values keys =>
    { s with handed := s.handed ++ [(key, values)], phase := .processed key keys }
  | .processed key keys => { s with map := s.map.delete key, phase := .listed keys }

/-- The drain starts with the list of keys; one drain runs at a time. -/
def list (s : State n K V) (order : KeyOrder K) : State n K V :=
  match s.phase with
  | .idle => { s with phase := .listed (drainKeys order s.map) }
  | _ => s

variable [Zero V] (c : Counting V X)

/-- What `emit_exit` does to the map: add to the slot of its CPU, insert if absent. -/
def emit (s : State n K V) (cpu : Fin n) (key : K) (item : X) : State n K V :=
  { s with map := (s.map.accumulate cpu key (c.add · item) (c.add 0 item)).getD s.map }

def step (s : State n K V) : Step n K X → State n K V
  | .emit cpu key item => emit c s cpu key item
  | .list order => list s order
  | .advance => advance s

/-! ## Windows -/

/-- The drain has looked `k` up and not deleted it yet. -/
def Window (k : K) : Phase K V → Prop
  | .read key _ _ => key = k
  | .processed key _ => key = k
  | _ => False

instance (k : K) : ∀ phase : Phase K V, Decidable (Window k phase)
  | .idle => inferInstanceAs (Decidable False)
  | .listed _ => inferInstanceAs (Decidable False)
  | .read key _ _ => inferInstanceAs (Decidable (key = k))
  | .processed key _ => inferInstanceAs (Decidable (key = k))

def Step.emits (k : K) : Step n K X → Bool
  | .emit _ key _ => key = k
  | _ => false

/-- A probe adds to `k` inside its window. -/
def Races (k : K) (s : State n K V) (e : Step n K X) : Prop :=
  e.emits k = true ∧ Window k s.phase

instance (k : K) (s : State n K V) (e : Step n K X) : Decidable (Races k s e) :=
  inferInstanceAs (Decidable (_ ∧ _))

/-- No insert finds the map full. -/
def Room (s : State n K V) : Step n K X → Prop
  | .emit _ key _ => s.map.HasRoom key
  | _ => True

instance (s : State n K V) : ∀ e : Step n K X, Decidable (Room s e)
  | .emit _ key _ => inferInstanceAs (Decidable (s.map.HasRoom key))
  | .list _ => inferInstanceAs (Decidable True)
  | .advance => inferInstanceAs (Decidable True)

/-! ## Counting -/

/-- The calls counted in the slots of `k`. -/
def weight (k : K) (key : K) (val : V) : ℕ := if key = k then c.count val else 0

/-- The calls of `k` handed to `process`. -/
def handedCount (k : K) (s : State n K V) : ℕ :=
  (s.handed.map fun kv => (kv.2.map (weight c k kv.1)).sum).sum

/-- The calls of `k` still in the map. -/
def storedCount (k : K) (s : State n K V) : ℕ := s.map.sum (weight c k)

/-- The additions made for `k`. -/
def additions (k : K) (es : List (Step n K X)) : ℕ := es.countP (·.emits k)

/-- The additions made for `k` inside its window. -/
def lostIn (k : K) : State n K V → List (Step n K X) → ℕ
  | _, [] => 0
  | s, e :: es => (if Races k s e then 1 else 0) + lostIn k (step c s e) es

/-! ## The balance -/

/-- The balance for `k` in every phase. Inside the window the slots of `k` no longer matter:
    what was read counts instead, until `process` has it. -/
def Balanced (k : K) (s : State n K V) (lost added : ℕ) : Prop :=
  match s.phase with
  | .read key values _ =>
    if key = k then handedCount c k s + (values.map c.count).sum + lost = added
    else handedCount c k s + storedCount c k s + lost = added
  | .processed key _ =>
    if key = k then handedCount c k s + lost = added
    else handedCount c k s + storedCount c k s + lost = added
  | _ => handedCount c k s + storedCount c k s + lost = added

variable {c} {k : K} {s : State n K V} {lost added : ℕ}

/-- Outside of the window the slots count. -/
theorem balanced_iff_of_not_window (h : ¬ Window k s.phase) :
    Balanced c k s lost added ↔ handedCount c k s + storedCount c k s + lost = added := by
  unfold Balanced
  cases hp : s.phase <;> simp_all [Window]

theorem weight_zero (key : K) : weight c k key 0 = 0 := by
  simp [weight, c.count_zero]

variable {key : K} (b : Bpf n)

/-- An addition with room is counted in the map. -/
theorem storedCount_emit (cpu : Fin n) (item : X) (hroom : s.map.HasRoom key) :
    storedCount c k (emit c s cpu key item) =
      storedCount c k s + if key = k then 1 else 0 := by
  have hsome := (PerCpuMap.accumulate_isSome_iff s.map cpu key (c.add · item)
    (c.add 0 item)).mpr hroom
  obtain ⟨m', hm'⟩ := Option.isSome_iff_exists.mp hsome
  unfold storedCount emit
  simp only [hm', Option.getD_some]
  refine PerCpuMap.sum_accumulate hm' rfl (weight c k) (weight_zero key) _ ?_
  unfold weight
  split <;> simp [c.count_add]

theorem weight_of_ne (h : key ≠ k) : weight c k key = fun _ => 0 := by
  funext val
  simp [weight, h]

theorem weight_self : weight c k k = c.count := by
  funext val
  simp [weight]

/-- Deleting `key` takes its calls out of the map and leaves those of other keys. -/
theorem storedCount_delete (key : K) :
    (s.map.delete key).sum (weight c k) = if key = k then 0 else storedCount c k s := by
  split
  next hkey =>
    subst hkey
    -- the weight is zero off `key`, and no row of `key` is left
    apply FinMap.sum_eq_zero
    intro key' row hrow
    have hne : key' ≠ key := by
      rintro rfl
      rw [PerCpuMap.lookup_delete_self] at hrow
      cases hrow
    simp [weight, hne]
  next hkey =>
    cases hl : s.map.slots.lookup key with
    | none =>
      rw [delete_of_lookup_none hl]
      rfl
    | some vals =>
      unfold storedCount
      rw [← PerCpuMap.sum_delete (weight c k) hl]
      simp [weight, hkey]

/-- The stored count of a key is what its slots hold. -/
theorem storedCount_eq_of_lookup {values : List V} (h : s.map.lookupPercpu k = some values) :
    storedCount c k s = (values.map c.count).sum := by
  obtain ⟨vals, hvals, rfl⟩ := Option.map_eq_some_iff.mp h
  unfold storedCount
  rw [← PerCpuMap.sum_delete (weight c k) hvals, storedCount_delete, if_pos rfl, add_zero,
    PerCpuMap.sum_ofFn, weight_self]

theorem handedCount_process (key : K) (values : List V) (phase : Phase K V) :
    handedCount c k { s with handed := s.handed ++ [(key, values)], phase } =
      handedCount c k s + (values.map (weight c k key)).sum := by
  simp [handedCount]

/-! ## What a step preserves -/

/-- An item is stored, and lost if the drain is between the read and the delete of its key. -/
theorem balanced_emit (cpu : Fin n) (item : X) (hroom : s.map.HasRoom key)
    (h : Balanced c k s lost added) :
    Balanced c k (emit c s cpu key item)
      (lost + if Races k s (.emit cpu key item : Step n K X) then 1 else 0)
      (added + if key = k then 1 else 0) := by
  have hstored := storedCount_emit (c := c) (k := k) cpu item hroom
  have hhanded : handedCount c k (emit c s cpu key item) = handedCount c k s := rfl
  by_cases hw : Window k s.phase
  · -- inside the window only the loss and the additions move
    have hraces : Races k s (.emit cpu key item : Step n K X) ↔ key = k := by
      simp [Races, Step.emits, hw]
    unfold Balanced at h ⊢
    simp only [hraces, hhanded, show (emit c s cpu key item).phase = s.phase from rfl]
    cases hp : s.phase with
    | idle => simp [hp, Window] at hw
    | listed keys => simp [hp, Window] at hw
    | read key' values keys =>
      simp only [hp, Window] at hw h ⊢
      simp only [hw, ↓reduceIte] at h ⊢
      omega
    | processed key' keys =>
      simp only [hp, Window] at hw h ⊢
      simp only [hw, ↓reduceIte] at h ⊢
      omega
  · have hraces : ¬ Races k s (.emit cpu key item : Step n K X) := fun hr => hw hr.2
    rw [balanced_iff_of_not_window hw] at h
    rw [balanced_iff_of_not_window (s := emit c s cpu key item) hw, hstored, hhanded]
    simp only [hraces, ↓reduceIte]
    omega

theorem balanced_list (order : KeyOrder K) (h : Balanced c k s lost added) :
    Balanced c k (list s order) lost added := by
  unfold list
  cases hp : s.phase with
  | idle =>
    simp only [Balanced, hp] at h
    exact h
  | _ => exact h

theorem balanced_advance (h : Balanced c k s lost added) :
    Balanced c k (advance s) lost added := by
  unfold advance
  cases hp : s.phase with
  | idle => exact h
  | listed keys =>
    simp only [Balanced, hp] at h
    cases keys with
    | nil => exact h
    | cons key keys =>
      dsimp only
      cases hl : s.map.lookupPercpu key with
      | none => exact h
      | some values =>
        -- the window opens: what was stored is now what was read
        simp only [Balanced]
        split
        next hkey =>
          subst hkey
          rw [← storedCount_eq_of_lookup (c := c) hl]
          exact h
        · exact h
  | read key values keys =>
    simp only [Balanced, hp] at h ⊢
    rw [handedCount_process]
    split at h
    next hkey =>
      subst hkey
      rw [if_pos rfl, weight_self]
      exact h
    next hkey =>
      have hzero : (values.map (weight c k key)).sum = 0 := by simp [weight_of_ne hkey]
      rw [if_neg hkey, hzero, add_zero]
      exact h
  | processed key keys =>
    -- the window closes: the slots are gone, with whatever was added to them
    simp only [Balanced, hp] at h ⊢
    have hdel : storedCount c k ⟨s.map.delete key, .listed keys, s.handed⟩ =
        if key = k then 0 else storedCount c k s := storedCount_delete key
    rw [hdel]
    split at h
    next hkey =>
      rw [if_pos hkey]
      exact h
    next hkey =>
      rw [if_neg hkey]
      exact h

theorem balanced_step {e : Step n K X} (hroom : Room s e) (h : Balanced c k s lost added) :
    Balanced c k (step c s e) (lost + if Races k s e then 1 else 0)
      (added + if e.emits k then 1 else 0) := by
  cases e with
  | emit cpu key item => simpa [step, Step.emits] using balanced_emit cpu item hroom h
  | list order => simpa [step, Step.emits, Races] using balanced_list order h
  | advance => simpa [step, Step.emits, Races] using balanced_advance h

/-! ## What a run preserves -/

theorem balanced_run (es : List (Step n K X)) (hes : Runs.Along (step c) Room s es)
    (h : Balanced c k s lost added) :
    Balanced c k (Runs.run (step c) s es) (lost + lostIn c k s es)
      (added + additions k es) := by
  induction es generalizing s lost added with
  | nil => simpa [lostIn, additions] using h
  | cons e es ih =>
    have hstep := ih hes.2 (balanced_step hes.1 h)
    rw [Runs.run_cons]
    convert hstep using 1
    · simp only [lostIn]
      omega
    · simp only [additions, List.countP_cons]
      omega

theorem balanced_init (maxEntries : ℕ) : Balanced c k (State.init n K V maxEntries) 0 0 := by
  simp [Balanced, State.init, handedCount, storedCount]

/-- Outside of the window of `k`: what was handed out, what is stored and what was lost are
    the additions. -/
theorem handed_add_stored_add_lost {maxEntries : ℕ} {es : List (Step n K X)}
    (hes : Runs.Along (step c) Room (State.init n K V maxEntries) es)
    (hend : ¬ Window k (Runs.run (step c) (State.init n K V maxEntries) es).phase) :
    handedCount c k (Runs.run (step c) (State.init n K V maxEntries) es) +
        storedCount c k (Runs.run (step c) (State.init n K V maxEntries) es) +
        lostIn c k (State.init n K V maxEntries) es = additions k es := by
  have hrun := balanced_run es hes (balanced_init (c := c) (k := k) maxEntries)
  rw [balanced_iff_of_not_window hend] at hrun
  simpa using hrun

theorem lostIn_eq_zero_iff (es : List (Step n K X)) :
    lostIn c k s es = 0 ↔ Runs.Along (step c) (fun s e => ¬ Races k s e) s es := by
  induction es generalizing s with
  | nil => simp [lostIn]
  | cons e es ih =>
    by_cases hr : Races k s e
    · simp [lostIn, hr]
    · simp [lostIn, hr, ih]

/-! ## The drain without probes in between -/

theorem run_advance_key {keys : List K} {map : PerCpuMap n K V} {handed : List (K × List V)}
    {vals : Fin n → V} (h : map.slots.lookup key = some vals) :
    Runs.run (step c) ⟨map, .listed (key :: keys), handed⟩ (List.replicate 3 .advance) =
      ⟨map.delete key, .listed keys, handed ++ [(key, List.ofFn vals)]⟩ := by
  have hl : map.lookupPercpu key = some (List.ofFn vals) := by simp [PerCpuMap.lookupPercpu, h]
  simp [List.replicate, step, advance, hl]

/-- Three steps for each listed key read it, hand it out and delete it. -/
theorem run_advance_keys {keys : List K} (hnodup : keys.Nodup) (map : PerCpuMap n K V)
    (hmem : ∀ key ∈ keys, key ∈ map.slots) (handed : List (K × List V)) :
    Runs.run (step c) ⟨map, .listed keys, handed⟩ (List.replicate (3 * keys.length) .advance) =
      ⟨keys.foldl PerCpuMap.delete map, .listed [], handed ++ readKeys map keys⟩ := by
  induction keys generalizing map handed with
  | nil => simp [readKeys]
  | cons key keys ih =>
    obtain ⟨hkey, hnodup⟩ := List.nodup_cons.mp hnodup
    obtain ⟨vals, hvals⟩ := FinMap.exists_lookup_of_mem_keys
      (AList.mem_keys.mp (hmem key (by simp)))
    have hrest := mem_delete_of_cons hkey hmem
    -- three advances for each key: look it up, hand it out, delete it
    have hsplit : 3 * (key :: keys).length = 3 + 3 * keys.length := by
      rw [List.length_cons]
      omega
    rw [hsplit, ← List.replicate_append_replicate, Runs.run_append, run_advance_key hvals,
      ih hnodup _ hrest, readKeys_delete hkey]
    simp [readKeys, PerCpuMap.lookupPercpu, hvals]

/-- **Refinement.** A drain that no probe interrupts is the atomic drain: it hands out
    `drained` and leaves `undrained`. -/
theorem run_uninterrupted (order : KeyOrder K) (map : PerCpuMap n K V)
    (handed : List (K × List V)) :
    Runs.run (step c) ⟨map, .idle, handed⟩
        (.list order :: List.replicate (3 * (drainKeys order map).length + 1) .advance) =
      ⟨undrained order map, .idle, handed ++ drained order map⟩ := by
  have hmem : ∀ key ∈ drainKeys order map, key ∈ map.slots := by
    intro key hkey
    exact AList.mem_keys.mpr ((order.perm _).mem_iff.mp (List.mem_of_mem_take hkey))
  rw [Runs.run_cons, List.replicate_succ', Runs.run_concat]
  simp only [step, list]
  rw [run_advance_keys (drainKeys_nodup order map) map hmem]
  rfl

/-! ## The three maps -/

/-- `AGGREGATED` counts calls when sampling is off. -/
def aggregated : Counting AggValue { x : AggItem // x.sampleMul = 1 } where
  add val x := val.add x
  count := AggValue.count
  count_zero := rfl
  count_add val x := by simp [AggValue.add, x.property]

/-- `NCCL_AGG`. -/
def ncclAgg : Counting NcclAggValue NcclItem where
  add := NcclAggValue.add
  count := NcclAggValue.count
  count_zero := rfl
  count_add _ _ := rfl

/-- `LAUNCH_AGG`. -/
def launchAgg : Counting LaunchAggValue LaunchItem where
  add := LaunchAggValue.add
  count := LaunchAggValue.count
  count_zero := rfl
  count_add _ _ := rfl

/-- The `AGGREGATED` branch of `emit_exit` is an `emit` step. -/
theorem emit_aggregated (ctx : Ctx n) (entry : EntryData) (hmul : b.sampleMul = 1)
    (phase : Phase AggKey AggValue) (handed : List (AggKey × List AggValue)) :
    emit aggregated ⟨b.aggregated, phase, handed⟩ ctx.cpu (Bpf.aggKey ctx entry)
        ⟨b.aggItem ctx entry, hmul⟩ =
      ⟨(b.recordAggregated ctx entry).aggregated, phase, handed⟩ := by
  rw [Bpf.recordAggregated_eq]
  rfl

/-- The `NCCL_AGG` branch of `emit_exit` is an `emit` step. -/
theorem emit_ncclAgg (ctx : Ctx n) (entry : EntryData) (phase : Phase AggKey NcclAggValue)
    (handed : List (AggKey × List NcclAggValue)) :
    emit ncclAgg ⟨b.ncclAgg, phase, handed⟩ ctx.cpu (Bpf.ncclKey ctx entry)
        (Bpf.ncclItem ctx entry) =
      ⟨(b.recordNccl ctx entry).ncclAgg, phase, handed⟩ := by
  rw [Bpf.recordNccl_eq]
  rfl

/-- The `LAUNCH_AGG` branch of `emit_exit` is an `emit` step. -/
theorem emit_launchAgg (ctx : Ctx n) (entry : EntryData) (phase : Phase LaunchKey LaunchAggValue)
    (handed : List (LaunchKey × List LaunchAggValue)) :
    emit launchAgg ⟨b.launchAgg, phase, handed⟩ ctx.cpu (b.launchKey ctx entry)
        (Bpf.launchItem ctx entry) =
      ⟨(b.recordLaunch ctx entry).launchAgg, phase, handed⟩ := by
  rw [Bpf.recordLaunch_eq]
  rfl

/-- On `n` CPUs, in every run without a full map that ends outside of the window of `k`, the
    additions for `k` are all handed out or stored exactly if none of them fell into a window
    of `k`. -/
def LosesNothingIff (K : Type) [DecidableEq K] (c : Counting V X) (n maxEntries : ℕ) : Prop :=
  ∀ (es : List (Step n K X)) (k : K),
    Runs.Along (step c) Room (State.init n K V maxEntries) es →
    ¬ Window k (Runs.run (step c) (State.init n K V maxEntries) es).phase →
    (handedCount c k (Runs.run (step c) (State.init n K V maxEntries) es) +
        storedCount c k (Runs.run (step c) (State.init n K V maxEntries) es) =
        additions k es ↔
      Runs.Along (step c) (fun s e => ¬ Races k s e) (State.init n K V maxEntries) es)

theorem losesNothingIff (K : Type) [DecidableEq K] (c : Counting V X) (n maxEntries : ℕ) :
    LosesNothingIff K c n maxEntries := by
  intro es k hes hend
  have hbalance := handed_add_stored_add_lost hes hend
  rw [← lostIn_eq_zero_iff]
  omega

/-- **The race of a drain.** For each of the three maps and any interleaving of probes with
    any number of drains: nothing is lost iff no probe adds to a key between the lookup and
    the delete of that key. -/
theorem drain_loses_nothing_iff (n maxEntries : ℕ) :
    LosesNothingIff AggKey aggregated n maxEntries ∧
      LosesNothingIff AggKey ncclAgg n maxEntries ∧
      LosesNothingIff LaunchKey launchAgg n maxEntries :=
  ⟨losesNothingIff AggKey aggregated n maxEntries, losesNothingIff AggKey ncclAgg n maxEntries,
    losesNothingIff LaunchKey launchAgg n maxEntries⟩

/-- A launch of process 7. -/
def launchOf7 : Step 1 LaunchKey LaunchItem := .emit (Fin.last 0) ⟨7, 0x401000, 0⟩ ⟨1500⟩

/-- Two launches, one before the key is listed and one before it is looked up. -/
def quietDrain : List (Step 1 LaunchKey LaunchItem) :=
  [launchOf7, .list (KeyOrder.asListed _), launchOf7, .advance, .advance, .advance, .advance]

theorem drain_loses_nothing_iff_quiet :
    handedCount launchAgg ⟨7, 0x401000, 0⟩
        (Runs.run (step launchAgg) (State.init 1 LaunchKey LaunchAggValue 16) quietDrain) +
      storedCount launchAgg ⟨7, 0x401000, 0⟩
        (Runs.run (step launchAgg) (State.init 1 LaunchKey LaunchAggValue 16) quietDrain) = 2 :=
  ((drain_loses_nothing_iff 1 16).2.2 quietDrain ⟨7, 0x401000, 0⟩ (by decide) (by decide)).mpr
    (by decide)

/-- Two launches, the second one after the lookup of the key. -/
def racingDrain : List (Step 1 LaunchKey LaunchItem) :=
  [launchOf7, .list (KeyOrder.asListed _), .advance, launchOf7, .advance, .advance, .advance]

/-- The drain is over, one launch was handed out, none is stored, two were added. -/
theorem launch_lost_by_drain :
    Runs.Along (step launchAgg) Room (State.init 1 LaunchKey LaunchAggValue 16) racingDrain ∧
      (Runs.run (step launchAgg) (State.init 1 LaunchKey LaunchAggValue 16) racingDrain).phase =
        .idle ∧
      handedCount launchAgg ⟨7, 0x401000, 0⟩
        (Runs.run (step launchAgg) (State.init 1 LaunchKey LaunchAggValue 16) racingDrain) = 1 ∧
      storedCount launchAgg ⟨7, 0x401000, 0⟩
        (Runs.run (step launchAgg) (State.init 1 LaunchKey LaunchAggValue 16) racingDrain) = 0 ∧
      additions ⟨7, 0x401000, 0⟩ racingDrain = 2 :=
  ⟨by decide, rfl, by decide, by decide, by decide⟩

end DrainRace

end Profi
