import Profi.Allocations

/-!
# Active Memory

The event loop keeps a running total of bytes per process, `active_memory`. An aggregate tick
collects the drained sizes of mallocs and frees per process, adds them to the total and sets
the gauge `profi_cuda_active_memory_bytes` to it. A gc tick drops the totals of processes that
have not been seen for the gc interval.

- `Loop.memoryOf`, `Loop.gauge`: the total and the exported value of a process
- `Sys.drainedByGc`: the bytes drained up to the last gc tick that found the process stale
- `Sys.memoryOf_add_drainedByGc`: the total is what was drained since then
- `Sys.gauge_eq_drained_iff`: when the gauge shows what was drained since the start
-/

namespace Profi

variable {n : ℕ} {args : Args} {env : LoopEnv}

/-- The active memory of a process, zero when there is no entry. -/
def Loop.memoryOf (l : Loop) (pid : U32) : I64 := (l.activeMemory.lookup pid).getD 0

/-- The gauge of a process, under the labels the environment gives it. -/
def Loop.gauge (l : Loop) (env : LoopEnv) (pid : U32) : Option I64 :=
  l.metrics.cudaActiveMemory.value (Loop.gaugeLabels env pid)

/-- Malloc bytes minus free bytes of a process in the rows a drain hands out. -/
def netRowBytes (pid : U32) (rows : List (AggKey × List AggValue)) : U64 :=
  (rows.map fun kv => (kv.2.map (sizeSumOf isMallocEvent pid kv.1)).sum).sum -
    (rows.map fun kv => (kv.2.map (sizeSumOf isFreeEvent pid kv.1)).sum).sum

/-! ## The change collected by a tick -/

theorem memSign_eq (eventType : EventType) (size : U64) :
    memSign eventType size =
      (if isMallocEvent eventType then size else 0) -
        (if isFreeEvent eventType then size else 0) := by
  cases eventType <;> simp [memSign, isMallocEvent, isFreeEvent]

theorem sum_sizeSumOf (kind : EventType → Bool) (pid : U32) (key : AggKey)
    (perCpu : List AggValue) :
    (perCpu.map (sizeSumOf kind pid key)).sum =
      if key.pid = pid ∧ kind key.eventType = true then (perCpu.map (·.sizeSum)).sum else 0 := by
  unfold sizeSumOf
  by_cases h : key.pid = pid ∧ kind key.eventType = true <;> simp [h]

/-- What one row contributes to the change of a process. -/
theorem netRowBytes_cons (pid : U32) (kv : AggKey × List AggValue)
    (rows : List (AggKey × List AggValue)) :
    netRowBytes pid (kv :: rows) =
      (if kv.1.pid = pid then memSign kv.1.eventType (kv.2.map (·.sizeSum)).sum else 0) +
        netRowBytes pid rows := by
  simp only [netRowBytes, List.map_cons, List.sum_cons, sum_sizeSumOf, memSign_eq]
  by_cases hpid : kv.1.pid = pid
  · simp only [hpid, true_and, ↓reduceIte]
    ring
  · simp only [hpid, false_and, ↓reduceIte]
    ring

theorem MemDelta.lookup_add (delta : MemDelta) (key : AggKey) (totalSize : U64) (pid : U32) :
    ((delta.add key totalSize).lookup pid).getD 0 =
      (delta.lookup pid).getD 0 +
        if key.pid = pid then memSign key.eventType totalSize else 0 := by
  by_cases hsize : totalSize > 0
  · -- a malloc or free moves the entry of its process, other keys leave the map alone
    have hmove : ((delta.insert key.pid ((delta.lookup key.pid).getD 0 +
        memSign key.eventType totalSize)).lookup pid).getD 0 =
        (delta.lookup pid).getD 0 +
          if key.pid = pid then memSign key.eventType totalSize else 0 := by
      by_cases hpid : key.pid = pid
      · subst hpid
        simp
      · rw [AList.lookup_insert_ne (Ne.symm hpid), if_neg hpid, add_zero]
    unfold MemDelta.add
    rw [if_pos hsize]
    split
    all_goals first
      | exact hmove
      | (rename_i h₁ h₂ h₃ h₄
         have hzero : memSign key.eventType totalSize = 0 := by
           unfold memSign
           split <;> first | rfl | contradiction
         rw [hzero]
         simp)
  · have hzero : totalSize = 0 := by simpa using hsize
    have hsign : memSign key.eventType totalSize = 0 := by
      rw [memSign_eq, hzero]
      simp
    unfold MemDelta.add
    rw [if_neg hsize, hsign]
    simp

variable (l : Loop) {perCpu : List AggValue}

/-- A row that counts nothing holds no bytes. -/
theorem sum_sizeSum_eq_zero (hvals : ∀ val ∈ perCpu, val.count = 0 → val = 0)
    (hcount : (perCpu.map (·.count)).sum = 0) : (perCpu.map (·.sizeSum)).sum = 0 := by
  apply List.sum_eq_zero
  intro x hx
  obtain ⟨val, hval, rfl⟩ := List.mem_map.mp hx
  rw [hvals val hval (List.sum_eq_zero_iff.mp hcount _ (List.mem_map_of_mem hval))]
  rfl

/-- One drained row moves the change of its process; `active_memory` itself waits for the end
    of the tick. -/
theorem processAggregated_memory (args : Args) (env : LoopEnv) (s : Loop × MemDelta) (key : AggKey)
    (hvals : ∀ val ∈ perCpu, val.count = 0 → val = 0) (pid : U32) :
    ((Loop.processAggregated args env s key perCpu).2.lookup pid).getD 0 =
      (s.2.lookup pid).getD 0 +
        if key.pid = pid then memSign key.eventType (perCpu.map (·.sizeSum)).sum else 0 := by
  by_cases hcount : (perCpu.map (·.count)).sum = 0
  · -- the closure skips a row that counts nothing
    have hsign : memSign key.eventType (perCpu.map (·.sizeSum)).sum = 0 := by
      rw [memSign_eq, sum_sizeSum_eq_zero hvals hcount]
      simp
    simp only [Loop.processAggregated, hcount, ↓reduceIte, hsign]
    simp
  · simp only [Loop.processAggregated, hcount, ↓reduceIte]
    exact MemDelta.lookup_add s.2 key _ pid

theorem foldl_processAggregated_memory (args : Args) (env : LoopEnv)
    {rows : List (AggKey × List AggValue)}
    (hvals : ∀ kv ∈ rows, ∀ val ∈ kv.2, val.count = 0 → val = 0) (s : Loop × MemDelta)
    (pid : U32) :
    ((rows.foldl (fun s kv => Loop.processAggregated args env s kv.1 kv.2) s).2.lookup
        pid).getD 0 = (s.2.lookup pid).getD 0 + netRowBytes pid rows := by
  induction rows generalizing s with
  | nil => simp [netRowBytes]
  | cons kv rows ih =>
    rw [List.foldl_cons, ih fun kv' h => hvals kv' (by simp [h]),
      processAggregated_memory args env s kv.1 (hvals kv (by simp)), netRowBytes_cons, add_assoc]

/-- The rows change the active memory of a process: one of its malloc or free rows holds
    bytes. -/
def ChangesMemory (pid : U32) (rows : List (AggKey × List AggValue)) : Prop :=
  ∃ kv ∈ rows, kv.1.pid = pid ∧
    (isMallocEvent kv.1.eventType = true ∨ isFreeEvent kv.1.eventType = true) ∧
    (kv.2.map (·.sizeSum)).sum ≠ 0

instance (pid : U32) (rows : List (AggKey × List AggValue)) : Decidable (ChangesMemory pid rows) :=
  inferInstanceAs (Decidable (∃ kv ∈ rows, kv.1.pid = pid ∧
    (isMallocEvent kv.1.eventType = true ∨ isFreeEvent kv.1.eventType = true) ∧
    (kv.2.map (·.sizeSum)).sum ≠ 0))

theorem MemDelta.mem_add {delta : MemDelta} {key : AggKey} {totalSize : U64} {pid : U32}
    (h : pid ∈ delta ∨ (key.pid = pid ∧
      (isMallocEvent key.eventType = true ∨ isFreeEvent key.eventType = true) ∧
      totalSize ≠ 0)) : pid ∈ delta.add key totalSize := by
  unfold MemDelta.add
  split
  · -- a malloc or free inserts under its pid; every other event type leaves the delta alone
    split
    all_goals first
      | (rw [AList.mem_insert]
         rcases h with h | ⟨h, -, -⟩
         · exact .inr h
         · exact .inl h.symm)
      | (refine h.resolve_right ?_
         rintro ⟨-, hkind, -⟩
         cases htype : key.eventType <;> simp_all [isMallocEvent, isFreeEvent])
  next hsize =>
    refine h.resolve_right ?_
    rintro ⟨-, -, hne⟩
    exact hne (by simpa using hsize)

theorem processAggregated_mem {s : Loop × MemDelta} {key : AggKey}
    (hvals : ∀ val ∈ perCpu, val.count = 0 → val = 0) {pid : U32}
    (h : pid ∈ s.2 ∨ (key.pid = pid ∧
      (isMallocEvent key.eventType = true ∨ isFreeEvent key.eventType = true) ∧
        (perCpu.map (·.sizeSum)).sum ≠ 0)) :
    pid ∈ (Loop.processAggregated args env s key perCpu).2 := by
  by_cases hcount : (perCpu.map (·.count)).sum = 0
  · simp only [Loop.processAggregated, hcount, ↓reduceIte]
    refine h.resolve_right ?_
    rintro ⟨-, -, hsize⟩
    exact hsize (sum_sizeSum_eq_zero hvals hcount)
  · simp only [Loop.processAggregated, hcount, ↓reduceIte]
    exact MemDelta.mem_add h

theorem foldl_processAggregated_mem {rows : List (AggKey × List AggValue)}
    (hvals : ∀ kv ∈ rows, ∀ val ∈ kv.2, val.count = 0 → val = 0) {s : Loop × MemDelta}
    {pid : U32} (h : pid ∈ s.2 ∨ ChangesMemory pid rows) :
    pid ∈ (rows.foldl (fun s kv => Loop.processAggregated args env s kv.1 kv.2) s).2 := by
  induction rows generalizing s with
  | nil => exact h.resolve_right (by simp [ChangesMemory])
  | cons kv rows ih =>
    apply ih fun kv' h' => hvals kv' (by simp [h'])
    rcases h with h | ⟨kv', hkv', hchange⟩
    · exact .inl (processAggregated_mem (hvals kv (by simp)) (.inl h))
    · rcases List.mem_cons.mp hkv' with rfl | hkv'
      · exact .inl (processAggregated_mem (hvals kv' (by simp)) (.inr hchange))
      · exact .inr ⟨kv', hkv', hchange⟩

/-! ## The end of a tick -/

theorem addActiveMemory_memoryOf (pid' : U32) (delta : I64) (pid : U32) :
    (l.addActiveMemory env pid' delta).memoryOf pid =
      l.memoryOf pid + if pid' = pid then delta else 0 := by
  unfold Loop.memoryOf Loop.addActiveMemory
  by_cases hpid : pid' = pid
  · subst hpid
    simp
  · simp only [AList.lookup_insert_ne (Ne.symm hpid), if_neg hpid, add_zero]

theorem flushActiveMemory_memoryOf (delta : MemDelta) (pid : U32) :
    (l.flushActiveMemory env delta).memoryOf pid =
      l.memoryOf pid + (delta.lookup pid).getD 0 := by
  have hfold : ∀ (entries : List (Sigma fun _ : U32 => I64)) (l : Loop),
      (entries.foldl (fun l e => l.addActiveMemory env e.1 e.2) l).memoryOf pid =
        l.memoryOf pid + (entries.map fun e => if e.1 = pid then e.2 else 0).sum := by
    intro entries
    induction entries with
    | nil => simp
    | cons e entries ih =>
      intro l
      rw [List.foldl_cons, ih, addActiveMemory_memoryOf, List.map_cons, List.sum_cons, add_assoc]
  have hpoint := FinMap.sum_ite_eq (fun x : I64 => x) delta pid
  rw [Option.map_id'] at hpoint
  rw [← hpoint]
  exact hfold delta.entries l

/-- The gauge of a process shows its active memory. -/
def Loop.GaugeShows (env : LoopEnv) (pid : U32) (l : Loop) : Prop :=
  l.gauge env pid = some (l.memoryOf pid)

theorem gaugeLabels_injective (env : LoopEnv) {pid pid' : U32}
    (h : Loop.gaugeLabels env pid = Loop.gaugeLabels env pid') : pid = pid' :=
  decString_injective (List.cons.inj h).1

theorem addActiveMemory_gauge (pid' : U32) (delta : I64) (pid : U32) :
    (l.addActiveMemory env pid' delta).gauge env pid =
      if pid = pid' then some ((l.addActiveMemory env pid' delta).memoryOf pid')
      else l.gauge env pid := by
  simp only [Loop.gauge, Loop.addActiveMemory, Metrics.setActiveMemory,
    MetricVec.value_modifyAt, Loop.memoryOf, AList.lookup_insert, Option.getD_some]
  by_cases hpid : pid = pid'
  · rw [hpid]
    simp
  · rw [if_neg hpid, if_neg fun h => hpid (gaugeLabels_injective env h)]

/-- The update of one process sets its gauge, and leaves the gauges of the others right. -/
theorem addActiveMemory_gaugeShows {l : Loop} {pid' : U32} {pid : U32}
    (h : pid = pid' ∨ l.GaugeShows env pid) (delta : I64) :
    (l.addActiveMemory env pid' delta).GaugeShows env pid := by
  unfold Loop.GaugeShows at h ⊢
  rw [addActiveMemory_gauge]
  by_cases hpid : pid = pid'
  · rw [if_pos hpid, hpid]
  · rw [if_neg hpid, h.resolve_left hpid, addActiveMemory_memoryOf, if_neg (Ne.symm hpid), add_zero]

/-- After a tick the gauges of all processes with a change show their active memory. -/
theorem flushActiveMemory_gaugeShows {delta : MemDelta} {pid : U32} (hpid : pid ∈ delta) :
    (l.flushActiveMemory env delta).GaugeShows env pid := by
  obtain ⟨e, he, hkey⟩ := List.mem_map.mp (AList.mem_keys.mp hpid)
  -- a later entry never hides the gauge again, so it is enough that `pid` is met once
  refine Runs.foldl_reached (I := fun l : Loop => l.GaugeShows env pid) (Q := fun e => pid = e.1)
    (fun l e h => ?_) (.inl ⟨e, he, hkey.symm⟩)
  exact addActiveMemory_gaugeShows h e.2

/-! ## Arms -/

namespace Sys

variable {s : Sys n}

/-- Malloc bytes minus free bytes of a process drained since the start. -/
def netDrained (pid : U32) (h : History n) : U64 := netRowBytes pid h.aggHanded

/-- The changes a tick collects are made by the `AGGREGATED` rows. -/
theorem handled_aggTick (s : Sys n) (env : LoopEnv) :
    (s.handled args (.aggTick env)).2 =
      ((drained env.aggOrder s.bpf.aggregated).foldl
        (fun x kv => Loop.processAggregated args env x kv.1 kv.2)
        (s.armStart args (.aggTick env), ∅)).2 := by
  have hfold := Loop.drainMaps_eq_foldl args env (s.bpf, s.armStart args (.aggTick env))
  refine (congrArg Prod.snd hfold).symm.trans ?_
  unfold Loop.drainMaps
  simp only [drainPercpuHash_eq]

/-- A tick adds the net bytes of the rows it drains. -/
theorem aggTick_memoryOf (hok : ValuesOk args s.bpf) (env : LoopEnv) (pid : U32) :
    (s.step args (.aggTick env)).loop.memoryOf pid =
      s.loop.memoryOf pid + netRowBytes pid (drained env.aggOrder s.bpf.aggregated) := by
  have hdelta := foldl_processAggregated_memory args env
    (fun kv (hkv : kv ∈ drained env.aggOrder s.bpf.aggregated) => View.forall_drained hok.agg hkv)
    (s.armStart args (.aggTick env), (∅ : MemDelta)) pid
  rw [← handled_aggTick] at hdelta
  have hstart : (s.armStart args (.aggTick env)).activeMemory = s.loop.activeMemory := by
    rw [armStart_aggTick]
  have hmem : (s.handled args (.aggTick env)).1.memoryOf pid = s.loop.memoryOf pid :=
    congrArg (fun memory : FinMap U32 I64 => (memory.lookup pid).getD 0)
      ((Loop.foldl_processRecord_frame args env _ _).1.trans hstart)
  rw [step_loop]
  refine (flushActiveMemory_memoryOf _ _ _).trans ?_
  rw [hmem, hdelta]
  simp

/-- A tick that changes the active memory of a process sets its gauge to the new total. -/
theorem aggTick_gauge (hok : ValuesOk args s.bpf) {env : LoopEnv} {pid : U32}
    (hchange : ChangesMemory pid (drained env.aggOrder s.bpf.aggregated)) :
    (s.step args (.aggTick env)).loop.gauge env pid =
      some ((s.step args (.aggTick env)).loop.memoryOf pid) := by
  rw [step_loop]
  refine flushActiveMemory_gaugeShows _ ?_
  rw [handled_aggTick]
  exact foldl_processAggregated_mem (fun _ hkv => View.forall_drained hok.agg hkv) (.inr hchange)

/-- Malloc bytes minus free bytes of a process that wait in `AGGREGATED`. -/
def netStored (pid : U32) (b : Bpf n) : U64 :=
  b.aggregated.sum (sizeSumOf isMallocEvent pid) - b.aggregated.sum (sizeSumOf isFreeEvent pid)

/-- Ticks move bytes from `AGGREGATED` to the totals. -/
theorem ticks_memoryOf (hok : ValuesOk args s.bpf) (ticks : List LoopEnv) (pid : U32) :
    (Runs.run (step args) s (ticks.map .aggTick)).loop.memoryOf pid +
        netStored pid (Runs.run (step args) s (ticks.map .aggTick)).bpf =
      s.loop.memoryOf pid + netStored pid s.bpf := by
  induction ticks generalizing s with
  | nil => rfl
  | cons env ticks ih =>
    -- a tick moves bytes from the map into the ledger; the sum of the two is what is kept
    have hmalloc := sum_drained (sizeSumOf isMallocEvent pid) env.aggOrder s.bpf.aggregated
    have hfree := sum_drained (sizeSumOf isFreeEvent pid) env.aggOrder s.bpf.aggregated
    have hmem := aggTick_memoryOf hok env pid
    have hagg : (s.aggTick args env).bpf.aggregated =
        undrained env.aggOrder s.bpf.aggregated := by rw [aggTick_bpf]
    rw [List.map_cons, Runs.run_cons, ih (valuesOk_step hok (.aggTick env))]
    rw [hmem]
    simp only [step]
    unfold netStored netRowBytes
    rw [hagg, ← hmalloc, ← hfree]
    ring

/-- Enough ticks bring everything that waits in `AGGREGATED` to the totals. -/
theorem drained_memoryOf (hok : ValuesOk args s.bpf) {ticks : List LoopEnv}
    (hticks : s.bpf.aggregated.slots.size ≤ percpuHashDrainKeyBudget * ticks.length)
    (pid : U32) :
    (Runs.run (step args) s (ticks.map .aggTick)).loop.memoryOf pid =
      s.loop.memoryOf pid + netStored pid s.bpf := by
  have hcount : (ticks.map (.aggTick : LoopEnv → Event n)).countP Event.isAggTick =
      ticks.length := by
    simp [Function.comp_def, Event.isAggTick]
  have harms : ∀ e ∈ ticks.map (.aggTick : LoopEnv → Event n),
      e.isAggTick = true ∨ e.isConsume = true := by
    intro e he
    obtain ⟨env, -, rfl⟩ := List.mem_map.mp he
    exact .inl rfl
  have hle : s.bpf.aggregated.slots.size ≤
      percpuHashDrainKeyBudget *
        (ticks.map (.aggTick : LoopEnv → Event n)).countP Event.isAggTick := by
    rwa [hcount]
  have hsize : (Runs.run (step args) s (ticks.map .aggTick)).bpf.aggregated.slots.size = 0 :=
    size_map_closing (fun b => b.aggregated) LoopEnv.aggOrder (fun s env => by rw [aggTick_bpf])
      (fun s env => by rw [consume_bpf]) harms hle
  -- enough ticks leave no key behind, so nothing of the kept sum is still in the map
  have hempty : ∀ kind : EventType → Bool,
      (Runs.run (step args) s (ticks.map .aggTick)).bpf.aggregated.sum (sizeSumOf kind pid) = 0 :=
    fun kind => (aggView args n).storedSum_eq_zero (sizeSumOf kind pid) hsize
  have h := ticks_memoryOf hok ticks pid
  rwa [netStored, hempty, hempty, sub_zero, add_zero] at h

theorem consume_memoryOf (env : LoopEnv) (pid : U32) :
    (s.step args (.consume env)).loop.memoryOf pid = s.loop.memoryOf pid := by
  have hstart : (s.armStart args (.consume env)).activeMemory = s.loop.activeMemory := by
    rw [armStart, Loop.invalidateChanged_eq]
  have hregs := Runs.foldl_frame Loop.activeMemory (Loop.registerKernel env)
    fun l reg => by rw [Loop.registerKernel_frame]
  rw [step_loop]
  exact congrArg (fun memory : FinMap U32 I64 => (memory.lookup pid).getD 0)
    ((hregs _ _).trans ((Loop.foldl_processRecord_frame args env _ _).1.trans hstart))

/-- The processes a gc tick finds stale. -/
def stalePids (args : Args) (s : Sys n) (env : LoopEnv) : List U32 :=
  s.loop.cache.stalePids env.now (args.gcInterval * 1000000000)

theorem gcTick_memoryOf (env : LoopEnv) (pid : U32) :
    (s.loop.gcTick args env).memoryOf pid =
      if pid ∈ s.stalePids args env then 0 else s.loop.memoryOf pid := by
  have hstale : (s.loop.cache.gc s.loop.metrics env.now (args.gcInterval * 1000000000)).1 =
      s.stalePids args env := Cache.gc_stalePids _ _ _ _
  unfold Loop.memoryOf Loop.gcTick
  simp only [hstale, FinMap.lookup_foldl_erase]
  split <;> rfl

/-! ## Runs -/

/-- Malloc bytes minus free bytes drained for a process up to now, noted by a gc tick that finds the
    process stale. -/
def drainedAtGc (args : Args) (pid : U32) (s : Sys n) : Event n → List U64
  | .gcTick env => if pid ∈ s.stalePids args env then [netDrained pid s.hist] else []
  | _ => []

/-- Malloc bytes minus free bytes drained for a process up to the last gc tick that found it stale,
    zero if none did. -/
def drainedByGc (args : Args) (pid : U32) (es : List (Event n)) : U64 :=
  (Runs.observed (step args) (drainedAtGc args pid) (Sys.init n args) es).getLast?.getD 0

/-- What was drained and is not in the total is what a gc tick notes, and otherwise stays. -/
theorem netDrained_step (hok : ValuesOk args s.bpf) (e : Event n) (pid : U32) :
    netDrained pid (s.step args e).hist - (s.step args e).loop.memoryOf pid =
      (s.drainedAtGc args pid e).getLast?.getD
        (netDrained pid s.hist - s.loop.memoryOf pid) := by
  cases e with
  | ret ctx =>
    simp only [step, drainedAtGc]
    cases hs : s.stack ctx.pidTgid with
    | nil => rw [ret_nil hs]; rfl
    | cons call rest => rw [ret_cons hs]; rfl
  | consume env =>
    rw [consume_memoryOf]
    rfl
  | aggTick env =>
    have happend : netDrained pid (s.aggTick args env).hist =
        netDrained pid s.hist + netRowBytes pid (drained env.aggOrder s.bpf.aggregated) := by
      simp only [netDrained, aggTick, handOut, netRowBytes, List.map_append, List.sum_append]
      ring
    simp only [drainedAtGc, List.getLast?_nil, Option.getD_none]
    rw [aggTick_memoryOf hok]
    simp only [step]
    rw [happend]
    ring
  | gcTick env =>
    -- the total of a stale process is dropped, so all that was drained is missing from it
    simp only [step, drainedAtGc]
    rw [gcTick_memoryOf]
    split <;> simp
  | _ => rfl

theorem valuesOk_run (args : Args) (es : List (Event n)) : ValuesOk args (run args n es).bpf :=
  invariant_run (fun s => ValuesOk args s.bpf) (valuesOk_init args)
    (fun _ e h => valuesOk_step h e) es

theorem drainedByGc_concat (args : Args) (pid : U32) (es : List (Event n)) (e : Event n) :
    drainedByGc args pid (es ++ [e]) =
      ((run args n es).drainedAtGc args pid e).getLast?.getD (drainedByGc args pid es) := by
  unfold drainedByGc
  rw [Runs.observed_concat, List.getLast?_append]
  exact Option.getD_or

/-- In every state, the active memory of a process is what was drained for it since the last gc tick
    that found it stale. -/
theorem memoryOf_add_drainedByGc (args : Args) (es : List (Event n)) (pid : U32) :
    (run args n es).loop.memoryOf pid + drainedByGc args pid es =
      netDrained pid (run args n es).hist := by
  rw [add_comm, ← eq_sub_iff_add_eq]
  induction es using List.reverseRecOn with
  | nil => simp [drainedByGc, Runs.observed, run, netDrained, netRowBytes, Loop.memoryOf, Sys.init,
      Loop.init]
  | append_singleton es e ih =>
    have hrun : run args n (es ++ [e]) = (run args n es).step args e := Runs.run_concat _ _ es e
    rw [drainedByGc_concat, ih, hrun, netDrained_step (valuesOk_run args es)]

/-- A tick that changes the active memory of a process sets its gauge to what was drained for
    the process since the start, exactly if the bytes drained up to the last gc tick that found it
    stale add up to nothing. -/
theorem gauge_eq_drained_iff (args : Args) (es : List (Event n)) {env : LoopEnv} {pid : U32}
    (hchange : ChangesMemory pid (drained env.aggOrder (run args n es).bpf.aggregated)) :
    (run args n (es ++ [.aggTick env])).loop.gauge env pid =
        some (netDrained pid (run args n (es ++ [.aggTick env])).hist) ↔
      drainedByGc args pid es = 0 := by
  have hrun : run args n (es ++ [.aggTick env]) = (run args n es).step args (.aggTick env) :=
    Runs.run_concat _ _ es _
  have htotal := memoryOf_add_drainedByGc args (es ++ [.aggTick env]) pid
  rw [drainedByGc_concat, hrun] at htotal
  rw [hrun, aggTick_gauge (valuesOk_run args es) hchange, ← htotal, Option.some.injEq]
  exact left_eq_add

/-- A process allocates and, after a gc tick at `idleUntil` nanoseconds, frees again. -/
def allocateIdleFree (idleUntil : ℕ) : List (Event 1) :=
  let ctx (ktimeNs : U64) : Ctx 1 :=
    { bareCtx 0x100000001 ktimeNs 0 with
      readUser := fun ptr => if ptr = 8 then some 4096 else none }
  [.enter (.cudaMalloc 8 100) (ctx 1), .ret (ctx 2), .aggTick .bare,
    .gcTick { LoopEnv.bare with now := idleUntil },
    .enter (.cudaFree 4096) (ctx 3), .ret (ctx 4)]

theorem gauge_eq_drained_iff_active :
    (run {} 1 (allocateIdleFree 60000000000 ++ [.aggTick .bare])).loop.gauge .bare 1 =
      some (netDrained 1 (run {} 1 (allocateIdleFree 60000000000 ++ [.aggTick .bare])).hist) :=
  (gauge_eq_drained_iff {} (allocateIdleFree 60000000000) (by decide)).mpr (by decide)

/-- One nanosecond more of idling, and the gauge shows a freed allocation as negative memory. -/
theorem idle_process_loses_active_memory :
    (run {} 1 (allocateIdleFree 60000000001 ++ [.aggTick .bare])).loop.gauge .bare 1 =
        some (-100) ∧
      netDrained 1 (run {} 1 (allocateIdleFree 60000000001 ++ [.aggTick .bare])).hist = 0 := by
  decide

end Sys

end Profi
