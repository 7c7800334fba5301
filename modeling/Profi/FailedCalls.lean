import Profi.ActiveMemory

/-!
# Calls That Fail

No memory program looks at what the call returned: a malloc's return records a size when the
caller's pointer variable holds something, a free's entry forgets the size before the call
has run, and both add to `AGGREGATED` with the return code as nothing but a part of the key.
This file says exactly when a malloc or free of an idle thread leaves the recorded sizes and
the active memory alone. The return code does not occur in the condition, so it is also the
condition for a call that fails.
-/

namespace Profi

variable {n : ℕ} {args : Args}

namespace Sys

variable {s : Sys n} {p : Probe} {ctx ctx' : Ctx n}

/-- A malloc counts for its process with one sign, a free with the other. -/
theorem signed_eq_zero_iff {entry : EntryData} {id m : U64}
    (hkind : isMallocEvent entry.eventType = true ∨ isFreeEvent entry.eventType = true) :
    (∀ pid, (sizeIf isMallocEvent pid id entry - sizeIf isFreeEvent pid id entry) * m = 0) ↔
      entry.arg0 * m = 0 := by
  -- which of the two it is decides the sign
  have hsign : (∀ pid, sizeIf isMallocEvent pid id entry - sizeIf isFreeEvent pid id entry =
        if pidOf id = pid then entry.arg0 else 0) ∨
      ∀ pid, sizeIf isMallocEvent pid id entry - sizeIf isFreeEvent pid id entry =
        if pidOf id = pid then -entry.arg0 else 0 := by
    unfold sizeIf
    rcases hkind with hkind | hkind
    · left
      intro pid
      have hfree : isFreeEvent entry.eventType = false := by
        cases h : entry.eventType <;> first | rfl | (rw [h] at hkind; cases hkind)
      simp [hkind, hfree]
    · right
      intro pid
      have hmalloc : isMallocEvent entry.eventType = false := by
        cases h : entry.eventType <;> first | rfl | (rw [h] at hkind; cases hkind)
      by_cases hpid : pidOf id = pid <;> simp [hkind, hmalloc, hpid]
  constructor
  · intro h
    have hpid := h (pidOf id)
    rcases hsign with hsign | hsign
    · rwa [hsign, if_pos rfl] at hpid
    · rwa [hsign, if_pos rfl, neg_mul, neg_eq_zero] at hpid
  · intro h pid
    rcases hsign with hsign | hsign
    · rw [hsign]
      split
      · exact h
      · exact zero_mul m
    · rw [hsign]
      split
      · rw [neg_mul, h, neg_zero]
      · exact zero_mul m

/-! ## One call -/

/-- A thread enters a function and returns from it. -/
def call (s : Sys n) (p : Probe) (ctx ctx' : Ctx n) : Sys n := (s.enter p ctx).ret ctx'

section Call

variable (hslots : SlotOk args s) (hptrs : PtrsOk s) (hidle : s.stack ctx.pidTgid = [])
  (hthread : ctx'.pidTgid = ctx.pidTgid)

include hidle hthread

theorem enter_stack_idle : (s.enter p ctx).stack ctx'.pidTgid = [s.opened p ctx] := by
  rw [hthread, enter_stack_self, hidle]
  rfl

theorem call_bpf : (s.call p ctx ctx').bpf = p.exit (s.enter p ctx).bpf ctx' := by
  rw [call, ret_cons (enter_stack_idle hidle hthread)]
  rfl

theorem call_loop : (s.call p ctx ctx').loop = s.loop := by
  rw [call, ret_cons (enter_stack_idle hidle hthread)]
  rfl

include hslots

theorem enter_slot_idle :
    (s.enter p ctx).bpf.inflight.lookup ctx'.pidTgid =
      if (s.opened p ctx).stored then some (s.opened p ctx).entry else none := by
  rw [hthread]
  exact Probe.enter_inflight_free (hslots.free hidle) p

/-- The recorded sizes after a malloc. -/
theorem call_mallocSizes_of_malloc (hptrs : PtrsOk s) (hp : p.isMalloc = true) :
    (s.call p ctx ctx').bpf.mallocSizes =
      match (if p.stores s.bpf ctx then (p.outPtr.bind ctx'.readUser).filter (· ≠ 0) else none) with
      | some devPtr => s.bpf.mallocSizes.insert ⟨ctx.pid, devPtr⟩ (p.entryData s.bpf ctx).arg0
      | none => s.bpf.mallocSizes := by
  have hpid : ctx'.pid = ctx.pid := by
    unfold Ctx.pid
    rw [hthread]
  have hsizes : (s.enter p ctx).bpf.mallocSizes = s.bpf.mallocSizes := by
    have hfreed : p.freedPtr = none := by cases p <;> first | rfl | cases hp
    simp only [enter]
    rw [(Probe.enter_mallocMaps s.bpf ctx p).2, Probe.prepare_mallocSizes, hfreed]
  -- the thread was idle, so the remembered pointer is that of this call
  have hptr : (s.enter p ctx).bpf.mallocPtrs.lookup ctx'.pidTgid = p.outPtr := by
    rw [hthread, enter_mallocPtrs_self, hptrs.free hidle, Option.or_none]
  rw [call_bpf hidle hthread, (Probe.exit_mallocMaps _ ctx' p).2, if_pos hp,
    Bpf.registerMalloc_mallocSizes, hsizes, Bpf.allocation, hptr,
    enter_slot_idle hslots hidle hthread, hpid]
  cases hstores : p.stores s.bpf ctx with
  | false => cases p.outPtr <;> simp [opened, hstores]
  | true =>
    cases p.outPtr with
    | none => simp
    | some ptrToPtr =>
      simp only [opened, hstores, ↓reduceIte, Option.bind_some]
      cases (ctx'.readUser ptrToPtr).filter (· ≠ 0) <;> rfl

omit hslots

/-- The recorded sizes after a free. -/
theorem call_mallocSizes_of_free (hp : isFreeEvent p.eventType = true) :
    (s.call p ctx ctx').bpf.mallocSizes =
      match p.freedPtr with
      | some ptr => s.bpf.mallocSizes.erase ⟨ctx.pid, ptr⟩
      | none => s.bpf.mallocSizes := by
  have hmalloc : p.isMalloc = false := by
    rw [← Probe.isMallocEvent_eventType]
    cases h : p.eventType <;> first | rfl | (rw [h] at hp; cases hp)
  rw [call_bpf hidle hthread, (Probe.exit_mallocMaps _ ctx' p).2, hmalloc]
  exact (Probe.enter_mallocMaps s.bpf ctx p).2.trans (Probe.prepare_mallocSizes s.bpf ctx p)

include hslots

/-- The key under which the return of a call is counted, if the sampler kept the call. -/
theorem aggView_key_call (hcall : profiIsAggregatable p.eventType = true) :
    (aggView args n).key ((s.enter p ctx).completed ctx' (s.opened p ctx) []) =
      if p.stores s.bpf ctx then some (Bpf.aggKey ctx' (p.entryData s.bpf ctx)) else none := by
  have hslot := enter_slot_idle (p := p) hslots hidle hthread
  -- `cuModuleGetFunction` is not aggregatable
  have hmgf : p.isModuleGetFunction = false := by
    by_contra hp
    rw [(Probe.eventType_eq_register p).mpr (by simpa using hp)] at hcall
    cases hcall
  have hentry : ((s.enter p ctx).completed ctx' (s.opened p ctx) []).aggEntry =
      if p.stores s.bpf ctx then some (p.entryData s.bpf ctx) else none := by
    have hagg : profiIsAggregatable (p.entryData s.bpf ctx).eventType = true := hcall
    simp only [Completed.aggEntry, completed, Probe.recorded, hslot]
    simp only [opened, hmgf, Bool.false_eq_true, ↓reduceIte]
    by_cases hstores : p.stores s.bpf ctx = true <;> simp [hstores, Option.filter_some, hagg]
  simp only [aggView, hentry]
  by_cases hstores : p.stores s.bpf ctx = true
  · simp only [hstores, ↓reduceIte, Option.map_some]
    rfl
  · simp only [hstores, Bool.false_eq_true, ↓reduceIte, Option.map_none]

/-- A call that the sampler dropped or whose key finds no room leaves `AGGREGATED` alone. -/
theorem call_aggregated_of_not_kept (hcall : profiIsAggregatable p.eventType = true)
    (hkeep : ¬ (p.stores s.bpf ctx = true ∧
      s.bpf.aggregated.HasRoom (Bpf.aggKey ctx' (p.entryData s.bpf ctx)))) :
    (aggView args n).get (p.exit (s.enter p ctx).bpf ctx') = s.bpf.aggregated := by
  have hget : (aggView args n).get (s.enter p ctx).bpf = s.bpf.aggregated :=
    (aggView args n).get_enter s.bpf ctx p
  have hkey := aggView_key_call hslots hidle hthread hcall
  by_cases hstores : p.stores s.bpf ctx = true
  · rw [if_pos hstores] at hkey
    have hfull := (aggView args n).get_exit_of_full hkey
      (by rw [hget]; exact fun hroom => hkeep ⟨hstores, hroom⟩)
    exact hfull.trans hget
  · rw [if_neg hstores] at hkey
    have hexit := (aggView args n).get_exit (s.enter p ctx) ctx' (s.opened p ctx) []
    rw [hkey] at hexit
    exact hexit.trans hget

/-- The bytes of a kind in `AGGREGATED` after a call: those of the call are added when the
    sampler kept it and its key finds room. -/
theorem call_storedBytes (hcall : profiIsAggregatable p.eventType = true) (kind : EventType → Bool)
    (hkind : ∀ eventType, kind eventType = true → profiIsAggregatable eventType = true)
    (pid : U32) :
    (s.call p ctx ctx').bpf.aggregated.sum (sizeSumOf kind pid) =
      s.bpf.aggregated.sum (sizeSumOf kind pid) +
        if p.stores s.bpf ctx = true ∧
            s.bpf.aggregated.HasRoom (Bpf.aggKey ctx' (p.entryData s.bpf ctx)) then
          sizeIf kind pid ctx.pidTgid (p.entryData s.bpf ctx) * args.sampleMul
        else 0 := by
  have hstack := enter_stack_idle (p := p) hidle hthread
  have hslot := enter_slot_idle (p := p) hslots hidle hthread
  have hcfg : ConfigOk args (s.enter p ctx).bpf := configOk_step hslots.config (.enter p ctx)
  have hbytes := completed_bytes hcfg hslot (show _ = p.eventType from rfl) [] kind hkind pid
  have hget : (aggView args n).get (s.enter p ctx).bpf = s.bpf.aggregated :=
    (aggView args n).get_enter s.bpf ctx p
  have hkey := aggView_key_call hslots hidle hthread hcall
  rw [call_bpf hidle hthread]
  by_cases hkeep : p.stores s.bpf ctx = true ∧
      s.bpf.aggregated.HasRoom (Bpf.aggKey ctx' (p.entryData s.bpf ctx))
  · -- kept and with room: the row of the key absorbs the bytes
    have habs : (aggView args n).Absorbs (sizeSumOf kind pid) (Completed.bytes kind pid)
        (s.enter p ctx) (.ret ctx') := by
      intro call rest hs k hk
      obtain ⟨rfl, rfl⟩ := List.cons_eq_cons.mp (hstack.symm.trans hs)
      refine ⟨?_, sizeSumOf_add kind pid _ k hk _⟩
      rw [hkey, if_pos hkeep.1, Option.some.injEq] at hk
      rw [hget, ← hk]
      exact hkeep.2
    have hexit := (aggView args n).storedSum_exit (sizeSumOf kind pid) (Completed.bytes kind pid)
      (sizeSumOf_zero kind pid) (bytes_of_key_eq_none kind pid) hstack habs
    have hstored : (s.opened p ctx).stored = true := hkeep.1
    rw [hbytes, if_pos hstored] at hexit
    have hstart : (aggView args n).storedSum (sizeSumOf kind pid) (s.enter p ctx).bpf =
        s.bpf.aggregated.sum (sizeSumOf kind pid) := by
      unfold View.storedSum
      rw [hget]
    rw [hstart, hthread] at hexit
    rw [if_pos hkeep]
    exact hexit
  · -- sampled out or without room: the map is as before
    rw [if_neg hkeep, add_zero]
    exact congrArg (PerCpuMap.sum (sizeSumOf kind pid))
      (call_aggregated_of_not_kept hslots hidle hthread hcall hkeep)

theorem call_netStored (hcall : profiIsAggregatable p.eventType = true) (pid : U32) :
    netStored pid (s.call p ctx ctx').bpf =
      netStored pid s.bpf +
        if p.stores s.bpf ctx = true ∧
            s.bpf.aggregated.HasRoom (Bpf.aggKey ctx' (p.entryData s.bpf ctx)) then
          (sizeIf isMallocEvent pid ctx.pidTgid (p.entryData s.bpf ctx) -
            sizeIf isFreeEvent pid ctx.pidTgid (p.entryData s.bpf ctx)) * args.sampleMul
        else 0 := by
  unfold netStored
  rw [call_storedBytes hslots hidle hthread hcall isMallocEvent aggregatable_of_isMallocEvent,
    call_storedBytes hslots hidle hthread hcall isFreeEvent aggregatable_of_isFreeEvent]
  split
  · ring
  · ring

/-- The active memory after the next drain is what it would have been without the call, unless
    the call is counted with a size that is not zero. -/
theorem call_memoryOf_iff (hp : p.isMalloc = true ∨ isFreeEvent p.eventType = true)
    (hok : ValuesOk args s.bpf) {ticks : List LoopEnv}
    (hticks : s.bpf.aggregated.slots.size < percpuHashDrainKeyBudget * ticks.length) :
    (∀ pid, (Runs.run (step args) (s.call p ctx ctx') (ticks.map .aggTick)).loop.memoryOf pid =
        (Runs.run (step args) s (ticks.map .aggTick)).loop.memoryOf pid) ↔
      (p.stores s.bpf ctx = true →
        s.bpf.aggregated.HasRoom (Bpf.aggKey ctx' (p.entryData s.bpf ctx)) →
          (p.entryData s.bpf ctx).arg0 * args.sampleMul = 0) := by
  have hcall : profiIsAggregatable p.eventType = true := by
    rcases hp with hp | hp
    · exact aggregatable_of_isMallocEvent _ (p.isMallocEvent_eventType.trans hp)
    · exact aggregatable_of_isFreeEvent _ hp
  have hok' : ValuesOk args (s.call p ctx ctx').bpf :=
    valuesOk_step (s := s.enter p ctx) (valuesOk_step hok (.enter p ctx)) (.ret ctx')
  -- the call adds at most one key, so the same number of ticks still drains the map
  have hsize : (s.call p ctx ctx').bpf.aggregated.slots.size ≤
      percpuHashDrainKeyBudget * ticks.length := by
    have hexit := (aggView args n).size_get_exit_le (s.enter p ctx) ctx' (s.opened p ctx) []
    have hget : (aggView args n).get (s.enter p ctx).bpf = s.bpf.aggregated :=
      (aggView args n).get_enter s.bpf ctx p
    rw [hget] at hexit
    rw [call_bpf hidle hthread]
    exact hexit.trans hticks
  have htotal : ∀ pid,
      (Runs.run (step args) (s.call p ctx ctx') (ticks.map .aggTick)).loop.memoryOf pid =
          (Runs.run (step args) s (ticks.map .aggTick)).loop.memoryOf pid ↔
        netStored pid (s.call p ctx ctx').bpf = netStored pid s.bpf := by
    intro pid
    rw [drained_memoryOf hok' hsize, drained_memoryOf hok hticks.le, call_loop hidle hthread,
      add_right_inj]
  simp only [htotal, call_netStored hslots hidle hthread hcall, add_eq_left]
  -- only a stored call that found room was counted, and then with its sampled size
  by_cases hkeep : p.stores s.bpf ctx = true ∧
      s.bpf.aggregated.HasRoom (Bpf.aggKey ctx' (p.entryData s.bpf ctx))
  · have hkind : isMallocEvent (p.entryData s.bpf ctx).eventType = true ∨
        isFreeEvent (p.entryData s.bpf ctx).eventType = true :=
      hp.imp_left p.isMallocEvent_eventType.trans
    simp only [if_pos hkeep, signed_eq_zero_iff hkind]
    exact ⟨fun h _ _ => h, fun h => h hkeep.1 hkeep.2⟩
  · simp only [if_neg hkeep, implies_true, true_iff]
    exact fun hstores hroom => absurd ⟨hstores, hroom⟩ hkeep

end Call

/-! ## When a call leaves the accounted memory alone -/

/-- The call changed neither the recorded sizes nor, once the ticks have drained `AGGREGATED`,
    the active memory of any process. -/
structure LeavesMemory (args : Args) (s s' : Sys n) (ticks : List LoopEnv) : Prop where
  sizes : ∀ key, s'.bpf.mallocSizes.lookup key = s.bpf.mallocSizes.lookup key
  memory : ∀ pid, (Runs.run (step args) s' (ticks.map .aggTick)).loop.memoryOf pid =
    (Runs.run (step args) s (ticks.map .aggTick)).loop.memoryOf pid

/-- A malloc is harmless when the sampler drops it, or when it records no pointer or one that
    was recorded with the same size, and is counted with no bytes or not at all. A free is
    harmless when its pointer is null or not recorded. -/
def Harmless (args : Args) (s : Sys n) (p : Probe) (ctx ctx' : Ctx n) : Prop :=
  if p.isMalloc then
    p.stores s.bpf ctx = false ∨
      ((∀ devPtr ∈ p.outPtr.bind ctx'.readUser, devPtr = 0 ∨
          s.bpf.mallocSizes.lookup ⟨ctx.pid, devPtr⟩ = some (p.entryData s.bpf ctx).arg0) ∧
        ((p.entryData s.bpf ctx).arg0 * args.sampleMul = 0 ∨
          ¬s.bpf.aggregated.HasRoom (Bpf.aggKey ctx' (p.entryData s.bpf ctx))))
  else ∀ ptr ∈ p.freedPtr, s.bpf.mallocSizes.lookup ⟨ctx.pid, ptr⟩ = none

section Harmless

variable (hslots : SlotOk args s) (hptrs : PtrsOk s) (hidle : s.stack ctx.pidTgid = [])
  (hthread : ctx'.pidTgid = ctx.pidTgid)

include hidle hthread

theorem free_sizes_iff (hp : isFreeEvent p.eventType = true) :
    (∀ key, (s.call p ctx ctx').bpf.mallocSizes.lookup key = s.bpf.mallocSizes.lookup key) ↔
      ∀ ptr ∈ p.freedPtr, s.bpf.mallocSizes.lookup ⟨ctx.pid, ptr⟩ = none := by
  rw [call_mallocSizes_of_free hidle hthread hp]
  cases p.freedPtr with
  | none => simp
  | some ptr =>
    simp only [Option.mem_some_iff, forall_eq']
    exact FinMap.lookup_erase_eq_iff _ _

include hslots hptrs

theorem malloc_sizes_iff (hp : p.isMalloc = true) :
    (∀ key, (s.call p ctx ctx').bpf.mallocSizes.lookup key = s.bpf.mallocSizes.lookup key) ↔
      (p.stores s.bpf ctx = true → ∀ devPtr ∈ p.outPtr.bind ctx'.readUser, devPtr = 0 ∨
        s.bpf.mallocSizes.lookup ⟨ctx.pid, devPtr⟩ = some (p.entryData s.bpf ctx).arg0) := by
  rw [call_mallocSizes_of_malloc hslots hidle hthread hptrs hp]
  by_cases hstores : p.stores s.bpf ctx = true
  · simp only [hstores, ↓reduceIte, forall_const]
    cases p.outPtr.bind ctx'.readUser with
    | none => simp
    | some devPtr =>
      by_cases hnull : devPtr = 0
      · simp [hnull, Option.filter_some]
      · rw [Option.filter_some, if_pos (decide_eq_true hnull)]
        simp only [Option.mem_some_iff, forall_eq', hnull, false_or]
        exact FinMap.lookup_insert_eq_iff s.bpf.mallocSizes ⟨ctx.pid, devPtr⟩
          (p.entryData s.bpf ctx).arg0
  · simp [hstores]

/-- From an idle thread, a malloc or free leaves the accounted memory alone exactly if it is
    harmless. -/
theorem leavesMemory_iff (hp : p.isMalloc = true ∨ isFreeEvent p.eventType = true)
    (hok : ValuesOk args s.bpf) {ticks : List LoopEnv}
    (hticks : s.bpf.aggregated.slots.size < percpuHashDrainKeyBudget * ticks.length) :
    LeavesMemory args s (s.call p ctx ctx') ticks ↔ Harmless args s p ctx ctx' := by
  have hsplit : LeavesMemory args s (s.call p ctx ctx') ticks ↔
      (∀ key, (s.call p ctx ctx').bpf.mallocSizes.lookup key = s.bpf.mallocSizes.lookup key) ∧
        (p.stores s.bpf ctx = true →
          s.bpf.aggregated.HasRoom (Bpf.aggKey ctx' (p.entryData s.bpf ctx)) →
            (p.entryData s.bpf ctx).arg0 * args.sampleMul = 0) := by
    rw [← call_memoryOf_iff hslots hidle hthread hp hok hticks]
    exact ⟨fun h => ⟨h.sizes, h.memory⟩, fun h => ⟨h.1, h.2⟩⟩
  rw [hsplit]
  unfold Harmless
  cases hmalloc : p.isMalloc with
  | true =>
    rw [malloc_sizes_iff hslots hptrs hidle hthread hmalloc, if_pos rfl]
    by_cases hstores : p.stores s.bpf ctx = true
    · simp only [hstores, forall_const, Bool.true_eq_false, false_or]
      refine and_congr_right fun _ => ?_
      rw [or_comm, imp_iff_not_or]
    · simp [hstores]
  | false =>
    have hfree := hp.resolve_left (by simp [hmalloc])
    rw [free_sizes_iff hidle hthread hfree, if_neg (by simp)]
    refine and_iff_left_of_imp fun hnone _ _ => ?_
    -- a pointer that is not recorded is freed with size zero
    rw [Probe.entryData_arg0_of_free s.bpf ctx hfree]
    cases hptr : p.freedPtr with
    | none => simp
    | some ptr => simp [hnone ptr (by rw [hptr]; rfl)]

end Harmless

/-- In every reachable state, a malloc or free that an idle thread enters and returns from,
    whatever it returns, leaves the recorded sizes and the active memory after the next drain
    as they were, exactly if it is harmless. -/
theorem failed_call_leaves_memory_iff (args : Args) (es : List (Event n)) {p : Probe}
    (hp : p.isMalloc = true ∨ isFreeEvent p.eventType = true) {ctx ctx' : Ctx n}
    (hidle : (run args n es).stack ctx.pidTgid = []) (hthread : ctx'.pidTgid = ctx.pidTgid)
    {ticks : List LoopEnv}
    (hticks : (run args n es).bpf.aggregated.slots.size <
      percpuHashDrainKeyBudget * ticks.length) :
    LeavesMemory args (run args n es) ((run args n es).call p ctx ctx') ticks ↔
      Harmless args (run args n es) p ctx ctx' :=
  leavesMemory_iff (slotOk_run args es) (ptrsOk_run args es) hidle hthread hp
    (valuesOk_run args es) hticks

/-- Process 1 allocates 100 bytes at 4096. -/
def trackedMalloc : List (Event 1) :=
  [.enter (.cudaMalloc 8 100) (bareCtx 0x100000001 1 0),
    .ret { bareCtx 0x100000001 2 0 with
      readUser := fun ptr => if ptr = 8 then some 4096 else none }]

/-- A process with an allocation can free a null pointer, with an error or without. -/
theorem failed_call_leaves_memory_iff_null :
    let s := run {} 1 trackedMalloc
    s.bpf.mallocSizes.lookup ⟨1, 4096⟩ = some 100 ∧
      LeavesMemory {} s
        (s.call (.cudaFree 0) (bareCtx 0x100000001 3 0) (bareCtx 0x100000001 4 1)) [.bare] :=
  ⟨by decide, (failed_call_leaves_memory_iff {} trackedMalloc (p := .cudaFree 0) (by decide)
    (by decide) (by decide) (by decide)).mpr (by simp [Harmless, Probe.isMalloc, Probe.freedPtr])⟩

/-- A malloc of 100 bytes fails for want of memory, with a null pointer in the caller's
    variable, and the next drain counts the bytes as allocated. -/
theorem failed_malloc_counted :
    let s : Sys 1 := run {} 1 []
    let s' := s.call (.cudaMalloc 8 100) (bareCtx 0x100000001 1 0)
      { bareCtx 0x100000001 2 2 with readUser := fun ptr => if ptr = 8 then some 0 else none }
    (s'.step {} (.aggTick .bare)).loop.memoryOf 1 = 100 ∧
      (s.step {} (.aggTick .bare)).loop.memoryOf 1 = 0 := by
  decide

end Sys

end Profi
