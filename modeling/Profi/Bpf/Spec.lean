import Profi.Bpf.Program

/-!
# What the Probe Programs Do to the Maps

One lemma per question a proof about runs asks of a probe program: which maps it can touch
(`enter_frame`, `exit_frame`), what it does to the thread's `INFLIGHT` slot, which entry a
return program turns into a record (`recorded`), and what recording changes
(`exit_records`, `record_aggregated`, ...). Proofs about runs use these and never unfold a
program.
-/

namespace Profi

variable {n : ℕ}

/-! ## Entry programs -/

namespace Probe

/-- The event type an entry program stores. -/
def eventType : Probe → EventType
  | cudaMalloc _ _ => .cudaMalloc
  | cudaFree _ => .cudaFree
  | cudaMemcpy _ _ => .cudaMemcpy
  | cudaMemcpyAsync _ _ _ => .cudaMemcpyAsync
  | cudaLaunchKernel _ | cuLaunchKernel _ | cuLaunchKernelEx _ | cuLaunchCooperativeKernel _
  | cuGraphLaunch _ _ => .cudaLaunchKernel
  | cudaMallocAsync _ _ _ => .cudaMallocAsync
  | cudaFreeAsync _ _ => .cudaFreeAsync
  | cuModuleGetFunction _ _ => .cudaRegisterFunction
  | cudaStreamSync _ => .cudaStreamSync
  | cudaEventSync _ => .cudaEventSync
  | cudaMallocHost _ => .cudaMallocHost
  | cudaFreeHost _ => .cudaFreeHost
  | cudaMemset _ => .cudaMemset
  | cudaMemsetAsync _ _ => .cudaMemsetAsync
  | cudaGraphLaunch _ _ => .cudaGraphLaunch
  | cudaGraphInstantiate => .cudaGraphInstantiate
  | cuModuleLoadData => .cudaModuleLoad
  | ncclCountDtype34 sym _ _ => sym.cookie
  | ncclCountDtype23 sym _ _ => sym.cookie
  | ncclAllReduce _ _ => .ncclAllReduce
  | ncclAllGather _ _ => .ncclAllGather
  | ncclReduceScatter _ _ => .ncclReduceScatter
  | ncclBroadcast _ _ => .ncclBroadcast
  | ncclSend _ _ => .ncclSend
  | ncclRecv _ _ => .ncclRecv

/-- The three arguments an entry program stores, from the registers, the stack and, for the
    frees, the recorded size of the pointer. -/
def savedArgs (s : Bpf n) (ctx : Ctx n) : Probe → U64 × U64 × U64
  | cudaMalloc _ size => (size, 0, 0)
  | cudaFree ptr => (s.freedSize ctx ptr, 0, 0)
  | cudaMemcpy count kind => (count, kind, 0)
  | cudaMemcpyAsync count kind stream => (count, kind, stream)
  | cudaLaunchKernel func | cuLaunchKernel func | cuLaunchKernelEx func => (func, 0, 0)
  | cudaMallocAsync _ size stream => (size, 0, stream)
  | cudaFreeAsync ptr stream => (s.freedSize ctx ptr, 0, stream)
  | cuModuleGetFunction hfuncPtr namePtr => (hfuncPtr, namePtr, 0)
  | cuLaunchCooperativeKernel func => (func, 0, ctx.parmStack 8)
  | cuGraphLaunch graph stream => (graph, 0, stream)
  | cudaStreamSync stream => (0, 0, stream)
  | cudaEventSync event => (event, 0, 0)
  | cudaMallocHost size => (size, 0, 0)
  | cudaFreeHost ptr => (ptr, 0, 0)
  | cudaMemset count => (count, 0, 0)
  | cudaMemsetAsync count stream => (count, 0, stream)
  | cudaGraphLaunch graph stream => (graph, 0, stream)
  | cudaGraphInstantiate | cuModuleLoadData => (0, 0, 0)
  | ncclCountDtype34 _ count datatype | ncclCountDtype23 _ count datatype
  | ncclAllReduce count datatype | ncclAllGather count datatype
  | ncclReduceScatter count datatype | ncclBroadcast count datatype
  | ncclSend count datatype | ncclRecv count datatype => (count, datatype, 0)

/-- What the entry program stores for the return program. -/
def entryData (s : Bpf n) (ctx : Ctx n) (p : Probe) : EntryData where
  timestampNs := ctx.ktimeNs
  arg0 := (p.savedArgs s ctx).1
  arg1 := (p.savedArgs s ctx).2.1
  arg2 := (p.savedArgs s ctx).2.2
  eventType := p.eventType

/-- Whether the function is `cuModuleGetFunction`, which has its own pair of programs. -/
def isModuleGetFunction : Probe → Bool
  | cuModuleGetFunction _ _ => true
  | _ => false

theorem eventType_eq_register (p : Probe) :
    p.eventType = .cudaRegisterFunction ↔ p.isModuleGetFunction = true := by
  cases p with
  | ncclCountDtype34 sym _ _ => cases sym <;> simp [eventType, isModuleGetFunction,
      NcclCollective.cookie]
  | ncclCountDtype23 sym _ _ => cases sym <;> simp [eventType, isModuleGetFunction,
      NcclPeer.cookie]
  | _ => simp [eventType, isModuleGetFunction]

theorem not_aggregatable_of_moduleGetFunction {p : Probe} (hp : p.isModuleGetFunction = true) :
    profiIsAggregatable p.eventType = false := by
  rw [(eventType_eq_register p).mpr hp]
  rfl

/-- Whether the entry program stores an entry when it finds the slot free. -/
def stores (s : Bpf n) (ctx : Ctx n) : Probe → Bool
  | cuModuleGetFunction hfuncPtr namePtr => !(hfuncPtr == 0 || namePtr == 0)
  | p => s.keepsSample ctx p.eventType

/-- What an entry program does before it stores: the mallocs remember where the pointer will
    be written, the frees forget the pointer's size. -/
def prepare (s : Bpf n) (ctx : Ctx n) : Probe → Bpf n
  | cudaMalloc ptrToPtr _ | cudaMallocAsync ptrToPtr _ _ => s.storeMallocPtr ctx ptrToPtr
  | cudaFree ptr | cudaFreeAsync ptr _ => s.forgetMallocSize ctx ptr
  | _ => s

/-- All entry programs but one are `prepare` followed by `save_entry`. -/
theorem enter_eq_saveEntry (s : Bpf n) (ctx : Ctx n) {p : Probe}
    (hp : p.isModuleGetFunction = false) :
    p.enter s ctx = (p.prepare s ctx).saveEntry ctx p.eventType (p.savedArgs s ctx).1
      (p.savedArgs s ctx).2.1 (p.savedArgs s ctx).2.2 := by
  cases p <;> first | rfl | simp [isModuleGetFunction] at hp

theorem stores_eq_keepsSample (s : Bpf n) (ctx : Ctx n) {p : Probe}
    (hp : p.isModuleGetFunction = false) : p.stores s ctx = s.keepsSample ctx p.eventType := by
  cases p <;> first | rfl | simp [isModuleGetFunction] at hp

theorem prepare_frame (s : Bpf n) (ctx : Ctx n) (p : Probe) :
    p.prepare s ctx =
      { s with
        mallocPtrs := (p.prepare s ctx).mallocPtrs
        mallocSizes := (p.prepare s ctx).mallocSizes } := by
  cases p <;> simp only [prepare, Bpf.storeMallocPtr, Bpf.forgetMallocSize] <;>
    first | rfl | (split <;> rfl)

end Probe

namespace Bpf

theorem saveEntry_frame (s : Bpf n) (ctx : Ctx n) (eventType : EventType)
    (arg0 arg1 arg2 : U64) :
    s.saveEntry ctx eventType arg0 arg1 arg2 =
      { s with
        inflight := (s.saveEntry ctx eventType arg0 arg1 arg2).inflight
        sampleCounter := (s.saveEntry ctx eventType arg0 arg1 arg2).sampleCounter } := by
  unfold saveEntry countSample
  repeat' split
  all_goals rfl

/-- The slot after `save_entry`: an entry that is there stays, a free slot takes the entry
    unless it is sampled out. -/
theorem saveEntry_inflight (s : Bpf n) (ctx : Ctx n) (eventType : EventType)
    (arg0 arg1 arg2 : U64) :
    (s.saveEntry ctx eventType arg0 arg1 arg2).inflight =
      if s.inflight.lookup ctx.pidTgid = none ∧ s.keepsSample ctx eventType = true then
        s.inflight.insert ctx.pidTgid
          { timestampNs := ctx.ktimeNs, arg0, arg1, arg2, eventType }
      else s.inflight := by
  have hcount : (s.countSample ctx eventType).inflight = s.inflight := by
    unfold countSample
    split <;> rfl
  unfold saveEntry
  cases h : s.inflight.lookup ctx.pidTgid with
  | some e => simp
  | none => by_cases hk : s.keepsSample ctx eventType = true <;> simp [hk, hcount]

end Bpf

namespace Probe

/-- An entry program touches the slot table, the sampling counter and the malloc maps. -/
theorem enter_frame (s : Bpf n) (ctx : Ctx n) (p : Probe) :
    p.enter s ctx =
      { s with
        inflight := (p.enter s ctx).inflight
        sampleCounter := (p.enter s ctx).sampleCounter
        mallocPtrs := (p.enter s ctx).mallocPtrs
        mallocSizes := (p.enter s ctx).mallocSizes } := by
  cases hp : p.isModuleGetFunction with
  | false =>
    rw [enter_eq_saveEntry s ctx hp, Bpf.saveEntry_frame, prepare_frame]
  | true =>
    cases p <;> simp only [isModuleGetFunction, Bool.false_eq_true] at hp
    simp only [enter, Bpf.cuModuleGetFunction]
    split <;> rfl

/-- The slot after an entry program. Only `cuModuleGetFunction` overwrites an entry. -/
theorem enter_inflight (s : Bpf n) (ctx : Ctx n) (p : Probe) :
    (p.enter s ctx).inflight =
      if (s.inflight.lookup ctx.pidTgid = none ∨ p.isModuleGetFunction = true) ∧
          p.stores s ctx = true then
        s.inflight.insert ctx.pidTgid (p.entryData s ctx)
      else s.inflight := by
  cases hp : p.isModuleGetFunction with
  | false =>
    have hprep : (p.prepare s ctx).inflight = s.inflight := by rw [prepare_frame]
    have hkeeps : (p.prepare s ctx).keepsSample ctx p.eventType =
        s.keepsSample ctx p.eventType := by rw [prepare_frame]; rfl
    rw [enter_eq_saveEntry s ctx hp, Bpf.saveEntry_inflight, hprep, hkeeps,
      stores_eq_keepsSample s ctx hp]
    simp [entryData]
  | true =>
    -- `cuModuleGetFunction` has its own entry probe: no sampling, and it overwrites the slot
    cases p <;> simp only [isModuleGetFunction, Bool.false_eq_true] at hp
    rename_i hfuncPtr namePtr
    simp only [enter, Bpf.cuModuleGetFunction, stores]
    by_cases h : hfuncPtr = 0#64 ∨ namePtr = 0#64
    · rcases h with h | h <;> simp [h]
    · rw [not_or] at h
      simp [h.1, h.2, entryData, savedArgs, eventType]

theorem enter_inflight_other (s : Bpf n) (ctx : Ctx n) (p : Probe) {id : U64}
    (h : id ≠ ctx.pidTgid) : (p.enter s ctx).inflight.lookup id = s.inflight.lookup id := by
  rw [enter_inflight]
  split
  · exact AList.lookup_insert_ne h
  · rfl

theorem enter_inflight_free {s : Bpf n} {ctx : Ctx n}
    (h : s.inflight.lookup ctx.pidTgid = none) (p : Probe) :
    (p.enter s ctx).inflight.lookup ctx.pidTgid =
      if p.stores s ctx then some (p.entryData s ctx) else none := by
  rw [enter_inflight]
  by_cases hs : p.stores s ctx = true <;> simp [h, hs]

/-- Whatever the slot held, it now holds that or the new entry. -/
theorem enter_inflight_cases (s : Bpf n) (ctx : Ctx n) (p : Probe) :
    (p.enter s ctx).inflight.lookup ctx.pidTgid = s.inflight.lookup ctx.pidTgid ∨
      (p.enter s ctx).inflight.lookup ctx.pidTgid = some (p.entryData s ctx) := by
  rw [enter_inflight]
  split
  · right
    exact AList.lookup_insert _
  · left
    rfl

end Probe

/-! ## Return programs -/

namespace Bpf

/-- What `emit_exit` does with the entry it found, before it deletes it. -/
def record (s : Bpf n) (ctx : Ctx n) (entry : EntryData) : Bpf n :=
  if profiIsAggregatable entry.eventType then s.recordAggregated ctx entry
  else if profiIsNcclEvent entry.eventType then s.recordNccl ctx entry
  else if entry.eventType = .cudaLaunchKernel then
    if s.launchToRing ctx.pid then (s.recordLaunch ctx entry).submitEvent ctx entry
    else s.recordLaunch ctx entry
  else s.submitEvent ctx entry

/-- Record the entry a return program consumed, if any. -/
def recordOpt (s : Bpf n) (ctx : Ctx n) : Option EntryData → Bpf n
  | some entry => s.record ctx entry
  | none => s

theorem emitExit_of_some {s : Bpf n} {ctx : Ctx n} {entry : EntryData}
    (h : s.inflight.lookup ctx.pidTgid = some entry) :
    s.emitExit ctx = (s.record ctx entry).deleteInflight ctx.pidTgid := by
  unfold emitExit record
  rw [h]
  simp only
  repeat' split
  all_goals rfl

theorem emitExit_of_none {s : Bpf n} {ctx : Ctx n}
    (h : s.inflight.lookup ctx.pidTgid = none) : s.emitExit ctx = s := by
  unfold emitExit
  rw [h]

variable (s : Bpf n) (ctx : Ctx n) (entry : EntryData)

/-- A recorded call stands for at least one call. -/
theorem sampleMul_ne_zero : s.sampleMul ≠ 0 := by
  unfold sampleMul
  split
  next h =>
    intro hzero
    bv_omega
  · decide

theorem recordAggregated_frame :
    s.recordAggregated ctx entry =
      { s with aggregated := (s.recordAggregated ctx entry).aggregated } := by
  unfold recordAggregated
  simp only
  split <;> rfl

theorem recordNccl_frame :
    s.recordNccl ctx entry = { s with ncclAgg := (s.recordNccl ctx entry).ncclAgg } := by
  unfold recordNccl
  simp only
  split <;> rfl

theorem recordLaunch_frame :
    s.recordLaunch ctx entry =
      { s with
        launchAgg := (s.recordLaunch ctx entry).launchAgg
        launchDropped := (s.recordLaunch ctx entry).launchDropped } := by
  unfold recordLaunch
  simp only
  split <;> rfl

theorem submitEvent_frame :
    s.submitEvent ctx entry =
      { s with
        events := (s.submitEvent ctx entry).events
        dropped := (s.submitEvent ctx entry).dropped } := by
  unfold submitEvent
  split <;> rfl

/-- A record goes to one of the aggregate maps or the ring, or to a drop counter. -/
theorem record_frame :
    s.record ctx entry =
      { s with
        aggregated := (s.record ctx entry).aggregated
        ncclAgg := (s.record ctx entry).ncclAgg
        launchAgg := (s.record ctx entry).launchAgg
        launchDropped := (s.record ctx entry).launchDropped
        events := (s.record ctx entry).events
        dropped := (s.record ctx entry).dropped } := by
  unfold record
  split
  · rw [recordAggregated_frame]
  split
  · rw [recordNccl_frame]
  split
  · split
    · rw [submitEvent_frame, recordLaunch_frame]
    · rw [recordLaunch_frame]
  · rw [submitEvent_frame]

theorem recordOpt_frame (entry : Option EntryData) :
    s.recordOpt ctx entry =
      { s with
        aggregated := (s.recordOpt ctx entry).aggregated
        ncclAgg := (s.recordOpt ctx entry).ncclAgg
        launchAgg := (s.recordOpt ctx entry).launchAgg
        launchDropped := (s.recordOpt ctx entry).launchDropped
        events := (s.recordOpt ctx entry).events
        dropped := (s.recordOpt ctx entry).dropped } := by
  cases entry with
  | none => rfl
  | some entry => exact record_frame s ctx entry

theorem registerMalloc_frame :
    s.registerMalloc ctx =
      { s with
        mallocPtrs := (s.registerMalloc ctx).mallocPtrs
        mallocSizes := (s.registerMalloc ctx).mallocSizes } := by
  unfold registerMalloc
  simp only
  repeat' split
  all_goals rfl

/-- `emit_exit` is recording the slot and emptying it. -/
theorem emitExit_eq :
    s.emitExit ctx =
      { s.recordOpt ctx (s.inflight.lookup ctx.pidTgid) with
        inflight := s.inflight.erase ctx.pidTgid } := by
  cases h : s.inflight.lookup ctx.pidTgid with
  | none =>
    have herase : s.inflight.erase ctx.pidTgid = s.inflight := by
      apply AList.ext
      exact List.kerase_of_notMem_keys fun hmem => AList.lookup_eq_none.mp h hmem
    rw [emitExit_of_none h, herase]
    rfl
  | some entry =>
    rw [emitExit_of_some h]
    simp only [recordOpt, deleteInflight]
    rw [record_frame]

end Bpf

namespace Probe

/-- The entry the return program of a function turns into a record: whatever is in the slot,
    except that `cuModuleGetFunction` makes no record. -/
def recorded (s : Bpf n) (ctx : Ctx n) (p : Probe) : Option EntryData :=
  if p.isModuleGetFunction then none else s.inflight.lookup ctx.pidTgid

/-- Whether the return program of a function first registers an allocation. -/
def isMalloc : Probe → Bool
  | cudaMalloc _ _ | cudaMallocAsync _ _ _ => true
  | _ => false

theorem exit_of_isMalloc (s : Bpf n) (ctx : Ctx n) {p : Probe} (hp : p.isMalloc = true) :
    p.exit s ctx = (s.registerMalloc ctx).emitExit ctx := by
  cases p <;> first | rfl | simp [isMalloc] at hp

theorem exit_of_plain (s : Bpf n) (ctx : Ctx n) {p : Probe} (hp : p.isMalloc = false)
    (hm : p.isModuleGetFunction = false) : p.exit s ctx = s.emitExit ctx := by
  cases p <;> first | rfl | (simp [isMalloc] at hp; done) | simp [isModuleGetFunction] at hm

theorem exit_of_moduleGetFunction (s : Bpf n) (ctx : Ctx n) {p : Probe}
    (hm : p.isModuleGetFunction = true) : p.exit s ctx = s.cuModuleGetFunctionRet ctx := by
  cases p <;> first | rfl | simp [isModuleGetFunction] at hm

end Probe

namespace Bpf

section MallocMaps

variable (s : Bpf n) (ctx : Ctx n) (entry : EntryData) (mallocPtrs : FinMap U64 U64)
  (mallocSizes : FinMap MallocKey U64)

private theorem recordAggregated_mallocMaps :
    { s with mallocPtrs, mallocSizes }.recordAggregated ctx entry =
      { s.recordAggregated ctx entry with mallocPtrs, mallocSizes } := by
  simp only [recordAggregated, aggItem, sampleMul]
  split <;> rfl

private theorem recordNccl_mallocMaps :
    { s with mallocPtrs, mallocSizes }.recordNccl ctx entry =
      { s.recordNccl ctx entry with mallocPtrs, mallocSizes } := by
  simp only [recordNccl]
  split <;> rfl

private theorem recordLaunch_mallocMaps :
    { s with mallocPtrs, mallocSizes }.recordLaunch ctx entry =
      { s.recordLaunch ctx entry with mallocPtrs, mallocSizes } := by
  have hkey : { s with mallocPtrs, mallocSizes }.launchKey ctx entry = s.launchKey ctx entry :=
    rfl
  simp only [recordLaunch, hkey]
  split <;> rfl

private theorem submitEvent_mallocMaps :
    { s with mallocPtrs, mallocSizes }.submitEvent ctx entry =
      { s.submitEvent ctx entry with mallocPtrs, mallocSizes } := by
  simp only [submitEvent, cudaEvent]
  split <;> rfl

/-- Recording does not look at the malloc maps. -/
theorem recordOpt_mallocMaps (entry : Option EntryData) :
    { s with mallocPtrs, mallocSizes }.recordOpt ctx entry =
      { s.recordOpt ctx entry with mallocPtrs, mallocSizes } := by
  cases entry with
  | none => rfl
  | some entry =>
    have hring : { s with mallocPtrs, mallocSizes }.launchToRing ctx.pid =
        s.launchToRing ctx.pid := rfl
    simp only [recordOpt, record, hring, recordAggregated_mallocMaps, recordNccl_mallocMaps,
      recordLaunch_mallocMaps, submitEvent_mallocMaps]
    repeat' split
    all_goals rfl

end MallocMaps

theorem cuModuleGetFunctionRet_frame (s : Bpf n) (ctx : Ctx n) :
    s.cuModuleGetFunctionRet ctx =
      { s with
        inflight := (s.cuModuleGetFunctionRet ctx).inflight
        kernelRegs := (s.cuModuleGetFunctionRet ctx).kernelRegs } := by
  unfold cuModuleGetFunctionRet
  repeat' split
  all_goals rfl

/-- `cuModuleGetFunction`'s return program empties the slot when the entry is one of its own
    kind, and leaves it alone otherwise. -/
theorem cuModuleGetFunctionRet_inflight (s : Bpf n) (ctx : Ctx n) :
    (s.cuModuleGetFunctionRet ctx).inflight =
      if (s.inflight.lookup ctx.pidTgid).any (·.eventType = .cudaRegisterFunction) then
        s.inflight.erase ctx.pidTgid
      else s.inflight := by
  unfold cuModuleGetFunctionRet
  cases h : s.inflight.lookup ctx.pidTgid with
  | none => simp
  | some entry =>
    by_cases ht : entry.eventType = .cudaRegisterFunction
    · simp only [ht, ne_eq, not_true_eq_false, ↓reduceIte, Option.any_some, decide_true,
        deleteInflight]
      repeat' split
      all_goals rfl
    · simp [ht]

end Bpf

namespace Probe

/-- A return program is: register the allocation (mallocs only), record the slot, and empty
    it; `cuModuleGetFunction` only reports the function it found. -/
theorem exit_eq (s : Bpf n) (ctx : Ctx n) (p : Probe) :
    p.exit s ctx =
      { s.recordOpt ctx (p.recorded s ctx) with
        inflight := (p.exit s ctx).inflight
        kernelRegs := (p.exit s ctx).kernelRegs
        mallocPtrs := (p.exit s ctx).mallocPtrs
        mallocSizes := (p.exit s ctx).mallocSizes } := by
  cases hm : p.isModuleGetFunction with
  | true =>
    rw [exit_of_moduleGetFunction s ctx hm, Bpf.cuModuleGetFunctionRet_frame]
    simp only [recorded, hm, ↓reduceIte, Bpf.recordOpt]
  | false =>
    simp only [recorded, hm, Bool.false_eq_true, ↓reduceIte]
    cases hp : p.isMalloc with
    | false => rw [exit_of_plain s ctx hp hm, Bpf.emitExit_eq, Bpf.recordOpt_frame]
    | true =>
      -- `registerMalloc` runs before the record and changes only the allocation tables
      rw [exit_of_isMalloc s ctx hp, Bpf.emitExit_eq, Bpf.registerMalloc_frame,
        Bpf.recordOpt_mallocMaps, Bpf.recordOpt_frame]

/-- A return program leaves the configuration, the promoted processes, the sampler and the NVTX
    ranges alone. -/
theorem exit_frame (s : Bpf n) (ctx : Ctx n) (p : Probe) :
    p.exit s ctx =
      { s with
        inflight := (p.exit s ctx).inflight
        kernelRegs := (p.exit s ctx).kernelRegs
        mallocPtrs := (p.exit s ctx).mallocPtrs
        mallocSizes := (p.exit s ctx).mallocSizes
        aggregated := (p.exit s ctx).aggregated
        ncclAgg := (p.exit s ctx).ncclAgg
        launchAgg := (p.exit s ctx).launchAgg
        launchDropped := (p.exit s ctx).launchDropped
        events := (p.exit s ctx).events
        dropped := (p.exit s ctx).dropped } := by
  rw [exit_eq, Bpf.recordOpt_frame]

/-- The slot after a return program. -/
theorem exit_inflight (s : Bpf n) (ctx : Ctx n) (p : Probe) :
    (p.exit s ctx).inflight =
      if p.isModuleGetFunction = false ∨
          (s.inflight.lookup ctx.pidTgid).any (·.eventType = .cudaRegisterFunction) then
        s.inflight.erase ctx.pidTgid
      else s.inflight := by
  cases hm : p.isModuleGetFunction with
  | true =>
    rw [exit_of_moduleGetFunction s ctx hm, Bpf.cuModuleGetFunctionRet_inflight]
    simp
  | false =>
    simp only [true_or, ↓reduceIte]
    cases hp : p.isMalloc with
    | false => rw [exit_of_plain s ctx hp hm, Bpf.emitExit_eq]
    | true =>
      rw [exit_of_isMalloc s ctx hp, Bpf.emitExit_eq, Bpf.registerMalloc_frame]

theorem exit_inflight_other (s : Bpf n) (ctx : Ctx n) (p : Probe) {id : U64}
    (h : id ≠ ctx.pidTgid) : (p.exit s ctx).inflight.lookup id = s.inflight.lookup id := by
  rw [exit_inflight]
  split
  · exact AList.lookup_erase_ne h
  · rfl

end Probe

/-! ## Where a record goes -/

namespace Bpf

/-- Whether the entry of a call ends up in the ring: when no aggregate map takes it, and launches
    only if they are sent there as well. -/
def ringBound (launchToRing : Bool) (entry : EntryData) : Bool :=
  !profiIsAggregatable entry.eventType && !profiIsNcclEvent entry.eventType &&
    (entry.eventType ≠ .cudaLaunchKernel || launchToRing)

def toRing (s : Bpf n) (ctx : Ctx n) (entry : EntryData) : Bool :=
  ringBound (s.launchToRing ctx.pid) entry

theorem record_aggregated (s : Bpf n) (ctx : Ctx n) (entry : EntryData) :
    (s.record ctx entry).aggregated =
      if profiIsAggregatable entry.eventType then (s.recordAggregated ctx entry).aggregated
      else s.aggregated := by
  unfold record
  split
  · rfl
  split
  · rw [recordNccl_frame]
  split
  · split
    · rw [submitEvent_frame, recordLaunch_frame]
    · rw [recordLaunch_frame]
  · rw [submitEvent_frame]

theorem record_ncclAgg (s : Bpf n) (ctx : Ctx n) (entry : EntryData) :
    (s.record ctx entry).ncclAgg =
      if profiIsNcclEvent entry.eventType then (s.recordNccl ctx entry).ncclAgg
      else s.ncclAgg := by
  unfold record
  split
  next h =>
    rw [not_nccl_of_aggregatable h, recordAggregated_frame]
    rfl
  split
  · rfl
  split
  · split
    · rw [submitEvent_frame, recordLaunch_frame]
    · rw [recordLaunch_frame]
  · rw [submitEvent_frame]

theorem record_launchAgg (s : Bpf n) (ctx : Ctx n) (entry : EntryData) :
    (s.record ctx entry).launchAgg =
      if entry.eventType = .cudaLaunchKernel then (s.recordLaunch ctx entry).launchAgg
      else s.launchAgg := by
  unfold record
  split
  next h => rw [if_neg (ne_launch_of_aggregatable h), recordAggregated_frame]
  split
  next h => rw [if_neg (ne_launch_of_nccl h), recordNccl_frame]
  split
  · split
    · rw [submitEvent_frame]
    · rfl
  · rw [submitEvent_frame]

theorem record_events (s : Bpf n) (ctx : Ctx n) (entry : EntryData) :
    (s.record ctx entry).events =
      if s.toRing ctx entry then (s.submitEvent ctx entry).events else s.events := by
  unfold record toRing ringBound
  split
  next h =>
    rw [recordAggregated_frame]
    simp [h]
  rename_i hagg
  split
  next h =>
    rw [recordNccl_frame]
    simp [h]
  rename_i hnccl
  split
  next hl =>
    split
    next hr =>
      -- in detailed mode a launch is aggregated first; that write does not touch the ring
      have hsub : ((s.recordLaunch ctx entry).submitEvent ctx entry).events =
          (s.submitEvent ctx entry).events := by
        rw [recordLaunch_frame]
        simp only [submitEvent, cudaEvent]
        split <;> rfl
      simp [hagg, hnccl, hr, hsub]
    next hr =>
      rw [recordLaunch_frame]
      simp [hl, hr]
  next hl => simp [hagg, hnccl, hl]

end Bpf

/-! ## Kernel registrations -/

namespace Bpf

/-- What `cu_module_get_function_ret` makes of an entry: the function the call stored through
    its pointer, under the name it was asked for. -/
def registrationOf (ctx : Ctx n) (entry : EntryData) : Option KernelRegEvent :=
  if entry.eventType = .cudaRegisterFunction then
    (ctx.readUser entry.arg0).map fun hfunc =>
      { pid := ctx.pid, hostFun := hfunc, namePtr := entry.arg1 }
  else none

/-- What `cu_module_get_function_ret` reports. -/
def registration (s : Bpf n) (ctx : Ctx n) : Option KernelRegEvent :=
  (s.inflight.lookup ctx.pidTgid).bind (registrationOf ctx)

theorem cuModuleGetFunctionRet_kernelRegs {s : Bpf n} {ctx : Ctx n}
    (hroom : s.registration ctx ≠ none → s.kernelRegs.CanReserve) :
    (s.cuModuleGetFunctionRet ctx).kernelRegs.records =
      s.kernelRegs.records ++ (s.registration ctx).toList := by
  unfold registration registrationOf at hroom ⊢
  unfold cuModuleGetFunctionRet
  cases hl : s.inflight.lookup ctx.pidTgid with
  | none => simp
  | some entry =>
    by_cases ht : entry.eventType = .cudaRegisterFunction
    · cases hr : ctx.readUser entry.arg0 with
      | none => simp [ht, hr, deleteInflight]
      | some hfunc =>
        have hres : s.kernelRegs.CanReserve := hroom (by simp [hl, ht, hr])
        simp [ht, hr, deleteInflight, RingBuf.submit, hres]
    · simp [ht]

end Bpf

namespace Probe

/-- The registration a return program reports. -/
def registered (s : Bpf n) (ctx : Ctx n) (p : Probe) : Option KernelRegEvent :=
  if p.isModuleGetFunction then s.registration ctx else none

theorem exit_kernelRegs {s : Bpf n} {ctx : Ctx n} {p : Probe}
    (hroom : p.registered s ctx ≠ none → s.kernelRegs.CanReserve) :
    (p.exit s ctx).kernelRegs.records =
      s.kernelRegs.records ++ (p.registered s ctx).toList := by
  unfold registered at hroom ⊢
  cases hm : p.isModuleGetFunction with
  | true =>
    rw [exit_of_moduleGetFunction s ctx hm]
    simp only [hm, ↓reduceIte] at hroom
    exact Bpf.cuModuleGetFunctionRet_kernelRegs hroom
  | false =>
    have hsame : (p.exit s ctx).kernelRegs = s.kernelRegs := by
      cases hp : p.isMalloc with
      | false => rw [exit_of_plain s ctx hp hm, Bpf.emitExit_eq, Bpf.recordOpt_frame]
      | true =>
        rw [exit_of_isMalloc s ctx hp, Bpf.emitExit_eq, Bpf.recordOpt_frame,
          Bpf.registerMalloc_frame]
    simp [hsame]

end Probe

/-! ## The malloc maps -/

namespace Probe

theorem enter_mallocMaps (s : Bpf n) (ctx : Ctx n) (p : Probe) :
    (p.enter s ctx).mallocPtrs = (p.prepare s ctx).mallocPtrs ∧
      (p.enter s ctx).mallocSizes = (p.prepare s ctx).mallocSizes := by
  cases hp : p.isModuleGetFunction with
  | false =>
    rw [enter_eq_saveEntry s ctx hp, Bpf.saveEntry_frame]
    exact ⟨rfl, rfl⟩
  | true =>
    cases p <;> simp only [isModuleGetFunction, Bool.false_eq_true] at hp
    simp only [enter, Bpf.cuModuleGetFunction, prepare]
    split <;> exact ⟨rfl, rfl⟩

theorem exit_mallocMaps (s : Bpf n) (ctx : Ctx n) (p : Probe) :
    (p.exit s ctx).mallocPtrs =
        (if p.isMalloc then (s.registerMalloc ctx).mallocPtrs else s.mallocPtrs) ∧
      (p.exit s ctx).mallocSizes =
        (if p.isMalloc then (s.registerMalloc ctx).mallocSizes else s.mallocSizes) := by
  cases hp : p.isMalloc with
  | true =>
    rw [exit_of_isMalloc s ctx hp, Bpf.emitExit_eq, Bpf.recordOpt_frame]
    exact ⟨rfl, rfl⟩
  | false =>
    cases hm : p.isModuleGetFunction with
    | true =>
      rw [exit_of_moduleGetFunction s ctx hm, Bpf.cuModuleGetFunctionRet_frame]
      exact ⟨rfl, rfl⟩
    | false =>
      rw [exit_of_plain s ctx hp hm, Bpf.emitExit_eq, Bpf.recordOpt_frame]
      exact ⟨rfl, rfl⟩

end Probe

end Profi
