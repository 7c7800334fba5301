import Profi.Bpf.State

/-!
# The eBPF Program

`save_entry`, `emit_exit` and the uprobe/uretprobe programs of `src/bpf/profi.bpf.c`.

`emit_exit` is one function in the source; here each of its four ways of recording a call
has a name (`recordAggregated`, `recordNccl`, `recordLaunch`, `submitEvent`) and `emitExit`
is the control flow around them. Most entry programs are a single `save_entry` call with
their own event type and arguments, and all return programs but three are a bare
`emit_exit`.
-/

namespace Profi

variable {n : ℕ}

namespace Bpf

/-! ## Entry side -/

/-- The sampling decision of `save_entry`: whether the event is kept. Only aggregatable
    events are sampled, and only for rates above one. -/
def keepsSample (s : Bpf n) (ctx : Ctx n) (eventType : EventType) : Bool :=
  if profiIsAggregatable eventType = true ∧ s.sampleRate > 1 then
    s.sampleCounter ctx.cpu % s.sampleRate.setWidth 64 = 0
  else true

/-- The sampling counter moves for every aggregatable event, kept or not. -/
def countSample (s : Bpf n) (ctx : Ctx n) (eventType : EventType) : Bpf n :=
  if profiIsAggregatable eventType = true ∧ s.sampleRate > 1 then
    { s with sampleCounter :=
        Function.update s.sampleCounter ctx.cpu (s.sampleCounter ctx.cpu + 1) }
  else s

/-- `save_entry`. -/
def saveEntry (s : Bpf n) (ctx : Ctx n) (eventType : EventType) (arg0 arg1 arg2 : U64) : Bpf n :=
  match s.inflight.lookup ctx.pidTgid with
  -- recursion guard: a call inside a recorded one leaves the slot to the outer call
  | some _ => s
  | none =>
    if s.keepsSample ctx eventType then
      let entry : EntryData := { timestampNs := ctx.ktimeNs, arg0, arg1, arg2, eventType }
      { s.countSample ctx eventType with inflight := s.inflight.insert ctx.pidTgid entry }
    else s.countSample ctx eventType

/-! ## Return side -/

/-- `bump_dropped` on a per-CPU counter. -/
def bumpDropped (counter : Fin n → U64) (cpu : Fin n) : Fin n → U64 :=
  Function.update counter cpu (counter cpu + 1)

/-- `now > entry.timestamp_ns ? now - entry.timestamp_ns : 0`. -/
def durationNs (now timestampNs : U64) : U64 :=
  if now > timestampNs then now - timestampNs else 0

/-- `sample_mul`, from the rate read at return time. -/
def sampleMul (s : Bpf n) : U64 :=
  if s.sampleRate > 1 then s.sampleRate.setWidth 64 else 1

/-- The `AGGREGATED` key of a call. -/
def aggKey (ctx : Ctx n) (entry : EntryData) : AggKey where
  eventType := entry.eventType
  pid := ctx.pid
  memcpyKind := entry.arg1.setWidth 32
  errorCode := ctx.returnCode
  stream := entry.arg2

/-- What a call adds to its `AGGREGATED` slot. -/
def aggItem (s : Bpf n) (ctx : Ctx n) (entry : EntryData) : AggItem where
  sampleMul := s.sampleMul
  durationNs := durationNs ctx.ktimeNs entry.timestampNs
  arg0 := entry.arg0

/-- The aggregatable branch of `emit_exit`. A failed insert is not noticed. -/
def recordAggregated (s : Bpf n) (ctx : Ctx n) (entry : EntryData) : Bpf n :=
  let x := s.aggItem ctx entry
  match s.aggregated.accumulate ctx.cpu (aggKey ctx entry) (·.add x) (AggValue.fresh x) with
  | some aggregated => { s with aggregated }
  | none => s

/-- The `NCCL_AGG` key of a call; the stream is not part of it. -/
def ncclKey (ctx : Ctx n) (entry : EntryData) : AggKey where
  eventType := entry.eventType
  pid := ctx.pid
  memcpyKind := entry.arg1.setWidth 32
  errorCode := ctx.returnCode
  stream := 0

/-- `datatype < 10 ? NCCL_DTYPE_SIZES[datatype] : 1`, on the full 64-bit register. -/
def dtypeSize (datatype : U64) : U64 :=
  if h : datatype.toNat < 10 then ncclDtypeSizes ⟨datatype.toNat, h⟩ else 1

/-- What a call adds to its `NCCL_AGG` slot. -/
def ncclItem (ctx : Ctx n) (entry : EntryData) : NcclItem where
  durationNs := durationNs ctx.ktimeNs entry.timestampNs
  bytes := entry.arg0 * dtypeSize entry.arg1

/-- The NCCL branch of `emit_exit`. A failed insert is not noticed. -/
def recordNccl (s : Bpf n) (ctx : Ctx n) (entry : EntryData) : Bpf n :=
  let x := ncclItem ctx entry
  match s.ncclAgg.accumulate ctx.cpu (ncclKey ctx entry) (·.add x) (NcclAggValue.fresh x) with
  | some ncclAgg => { s with ncclAgg }
  | none => s

/-- The launch mode of a process: `UPGRADED_PIDS` forces full-mode semantics. -/
def launchMode (s : Bpf n) (pid : U32) : U32 :=
  match s.upgradedPids.lookup pid with
  | some _ => 0
  | none => s.kernelAggMode

/-- The `LAUNCH_AGG` key of a call in a launch mode; the kernel is dropped in anonymous mode. -/
def launchKeyIn (mode : U32) (ctx : Ctx n) (entry : EntryData) : LaunchKey where
  pid := ctx.pid
  hostFun := if mode = 1 then 0 else entry.arg0
  stream := entry.arg2

def launchKey (s : Bpf n) (ctx : Ctx n) (entry : EntryData) : LaunchKey :=
  launchKeyIn (s.launchMode ctx.pid) ctx entry

/-- What a call adds to its `LAUNCH_AGG` slot. -/
def launchItem (ctx : Ctx n) (entry : EntryData) : LaunchItem where
  durationNs := durationNs ctx.ktimeNs entry.timestampNs

/-- The `LAUNCH_AGG` update of `emit_exit`. A failed insert bumps `LAUNCH_DROPPED`. -/
def recordLaunch (s : Bpf n) (ctx : Ctx n) (entry : EntryData) : Bpf n :=
  let x := launchItem ctx entry
  match s.launchAgg.accumulate ctx.cpu (s.launchKey ctx entry) (·.add x)
      (LaunchAggValue.fresh x) with
  | some launchAgg => { s with launchAgg }
  | none => { s with launchDropped := bumpDropped s.launchDropped ctx.cpu }

/-- Whether a launch also goes to the ring: not in anonymous mode, and only with detailed
    tracing. -/
def launchToRing (s : Bpf n) (pid : U32) : Bool :=
  !(s.launchMode pid == 1 || s.detailedLaunches != 1)

/-- The ring record of a call under an NVTX marker. -/
def cudaEventIn (marker : Option (List U8)) (ctx : Ctx n) (entry : EntryData) : CudaEvent where
  eventType := entry.eventType
  pid := ctx.pid
  tid := ctx.tid
  memcpyKind := entry.arg1.setWidth 32
  timestampNs := ctx.ktimeNs
  durationNs := durationNs ctx.ktimeNs entry.timestampNs
  -- one saved register serves both; user space picks the field by event type
  size := entry.arg0
  addr := entry.arg0
  stream := entry.arg2
  -- the stack holds 64 bytes, the record carries 16 of them
  nvtxMarker := (marker.getD (List.replicate 64 0)).take 16
  comm := ctx.comm
  errorCode := ctx.returnCode

def cudaEvent (s : Bpf n) (ctx : Ctx n) (entry : EntryData) : CudaEvent :=
  cudaEventIn (s.nvtxStack.lookup ctx.pidTgid) ctx entry

/-- The ring emission at the end of `emit_exit`. A refused reservation bumps `DROPPED`. -/
def submitEvent (s : Bpf n) (ctx : Ctx n) (entry : EntryData) : Bpf n :=
  match s.events.submit (s.cudaEvent ctx entry) with
  | some events => { s with events }
  | none => { s with dropped := bumpDropped s.dropped ctx.cpu }

/-- `bpf_map_delete_elem(&INFLIGHT, &id)`. -/
def deleteInflight (s : Bpf n) (pidTgid : U64) : Bpf n :=
  { s with inflight := s.inflight.erase pidTgid }

/-- `emit_exit`. -/
def emitExit (s : Bpf n) (ctx : Ctx n) : Bpf n :=
  match s.inflight.lookup ctx.pidTgid with
  -- nothing was saved: the call was sampled out, or its slot was evicted or taken
  | none => s
  | some entry =>
    if profiIsAggregatable entry.eventType then
      (s.recordAggregated ctx entry).deleteInflight ctx.pidTgid
    else if profiIsNcclEvent entry.eventType then
      (s.recordNccl ctx entry).deleteInflight ctx.pidTgid
    else if entry.eventType = .cudaLaunchKernel then
      -- `LAUNCH_AGG` always, the ring only for full mode with detailed tracing
      if s.launchToRing ctx.pid then
        ((s.recordLaunch ctx entry).submitEvent ctx entry).deleteInflight ctx.pidTgid
      else (s.recordLaunch ctx entry).deleteInflight ctx.pidTgid
    else (s.submitEvent ctx entry).deleteInflight ctx.pidTgid

end Bpf

/-! ## Probed calls -/

/-- Symbols attached to `nccl_count_dtype_3_4`; the attach cookie is the event type. -/
inductive NcclCollective where
  | allReduce | allGather | reduceScatter | broadcast
  deriving DecidableEq, Repr

/-- Symbols attached to `nccl_count_dtype_2_3`. -/
inductive NcclPeer where
  | send | recv
  deriving DecidableEq, Repr

def NcclCollective.cookie : NcclCollective → EventType
  | allReduce => .ncclAllReduce
  | allGather => .ncclAllGather
  | reduceScatter => .ncclReduceScatter
  | broadcast => .ncclBroadcast

def NcclPeer.cookie : NcclPeer → EventType
  | send => .ncclSend
  | recv => .ncclRecv

/-- The functions with an entry and a return probe, named after their entry program, with
    the arguments the program reads. -/
inductive Probe where
  | cudaMalloc (ptrToPtr size : U64)
  | cudaFree (ptr : U64)
  | cudaMemcpy (count kind : U64)
  | cudaMemcpyAsync (count kind stream : U64)
  | cudaLaunchKernel (func : U64)
  | cudaMallocAsync (ptrToPtr size stream : U64)
  | cudaFreeAsync (ptr stream : U64)
  | cuModuleGetFunction (hfuncPtr namePtr : U64)
  | cuLaunchKernel (func : U64)
  | cuLaunchKernelEx (func : U64)
  | cuLaunchCooperativeKernel (func : U64)
  | cuGraphLaunch (graph stream : U64)
  | cudaStreamSync (stream : U64)
  | cudaEventSync (event : U64)
  | cudaMallocHost (size : U64)
  | cudaFreeHost (ptr : U64)
  | cudaMemset (count : U64)
  | cudaMemsetAsync (count stream : U64)
  | cudaGraphLaunch (graph stream : U64)
  | cudaGraphInstantiate
  | cuModuleLoadData
  | ncclCountDtype34 (sym : NcclCollective) (count datatype : U64)
  | ncclCountDtype23 (sym : NcclPeer) (count datatype : U64)
  | ncclAllReduce (count datatype : U64)
  | ncclAllGather (count datatype : U64)
  | ncclReduceScatter (count datatype : U64)
  | ncclBroadcast (count datatype : U64)
  | ncclSend (count datatype : U64)
  | ncclRecv (count datatype : U64)
  deriving DecidableEq

/-! ## Entry programs -/

namespace Bpf

/-- `if (pp != 0) bpf_map_update_elem(&MALLOC_PTRS, ...)`. -/
def storeMallocPtr (s : Bpf n) (ctx : Ctx n) (ptrToPtr : U64) : Bpf n :=
  if ptrToPtr ≠ 0 then { s with mallocPtrs := s.mallocPtrs.insert ctx.pidTgid ptrToPtr } else s

/-- `freed_size` of a free: the recorded size of the pointer, zero for a null or unknown one. -/
def freedSize (s : Bpf n) (ctx : Ctx n) (ptr : U64) : U64 :=
  if ptr ≠ 0 then (s.mallocSizes.lookup ⟨ctx.pid, ptr⟩).getD 0 else 0

/-- The `MALLOC_SIZES` entry of the pointer is deleted at the entry of the free. -/
def forgetMallocSize (s : Bpf n) (ctx : Ctx n) (ptr : U64) : Bpf n :=
  if ptr ≠ 0 then { s with mallocSizes := s.mallocSizes.erase ⟨ctx.pid, ptr⟩ } else s

/-- `cu_module_get_function`: writes the slot without consulting the recursion guard. -/
def cuModuleGetFunction (s : Bpf n) (ctx : Ctx n) (hfuncPtr namePtr : U64) : Bpf n :=
  if hfuncPtr = 0 ∨ namePtr = 0 then s
  else
    let entry : EntryData :=
      { timestampNs := ctx.ktimeNs, arg0 := hfuncPtr, arg1 := namePtr, arg2 := 0,
        eventType := .cudaRegisterFunction }
    { s with inflight := s.inflight.insert ctx.pidTgid entry }

end Bpf

/-- The entry program of a probed function. -/
def Probe.enter (s : Bpf n) (ctx : Ctx n) : Probe → Bpf n
  | cudaMalloc ptrToPtr size =>
      (s.storeMallocPtr ctx ptrToPtr).saveEntry ctx .cudaMalloc size 0 0
  -- the size is looked up before the row is deleted
  | cudaFree ptr =>
      (s.forgetMallocSize ctx ptr).saveEntry ctx .cudaFree (s.freedSize ctx ptr) 0 0
  | cudaMemcpy count kind => s.saveEntry ctx .cudaMemcpy count kind 0
  | cudaMemcpyAsync count kind stream => s.saveEntry ctx .cudaMemcpyAsync count kind stream
  | cudaLaunchKernel func => s.saveEntry ctx .cudaLaunchKernel func 0 0
  | cudaMallocAsync ptrToPtr size stream =>
      (s.storeMallocPtr ctx ptrToPtr).saveEntry ctx .cudaMallocAsync size 0 stream
  | cudaFreeAsync ptr stream =>
      (s.forgetMallocSize ctx ptr).saveEntry ctx .cudaFreeAsync (s.freedSize ctx ptr) 0 stream
  | cuModuleGetFunction hfuncPtr namePtr => s.cuModuleGetFunction ctx hfuncPtr namePtr
  | cuLaunchKernel func => s.saveEntry ctx .cudaLaunchKernel func 0 0
  | cuLaunchKernelEx func => s.saveEntry ctx .cudaLaunchKernel func 0 0
  | cuLaunchCooperativeKernel func =>
      s.saveEntry ctx .cudaLaunchKernel func 0 (ctx.parmStack 8)
  | cuGraphLaunch graph stream => s.saveEntry ctx .cudaLaunchKernel graph 0 stream
  | cudaStreamSync stream => s.saveEntry ctx .cudaStreamSync 0 0 stream
  | cudaEventSync event => s.saveEntry ctx .cudaEventSync event 0 0
  | cudaMallocHost size => s.saveEntry ctx .cudaMallocHost size 0 0
  | cudaFreeHost ptr => s.saveEntry ctx .cudaFreeHost ptr 0 0
  | cudaMemset count => s.saveEntry ctx .cudaMemset count 0 0
  | cudaMemsetAsync count stream => s.saveEntry ctx .cudaMemsetAsync count 0 stream
  | cudaGraphLaunch graph stream => s.saveEntry ctx .cudaGraphLaunch graph 0 stream
  | cudaGraphInstantiate => s.saveEntry ctx .cudaGraphInstantiate 0 0 0
  | cuModuleLoadData => s.saveEntry ctx .cudaModuleLoad 0 0 0
  | ncclCountDtype34 sym count datatype => s.saveEntry ctx sym.cookie count datatype 0
  | ncclCountDtype23 sym count datatype => s.saveEntry ctx sym.cookie count datatype 0
  | ncclAllReduce count datatype => s.saveEntry ctx .ncclAllReduce count datatype 0
  | ncclAllGather count datatype => s.saveEntry ctx .ncclAllGather count datatype 0
  | ncclReduceScatter count datatype => s.saveEntry ctx .ncclReduceScatter count datatype 0
  | ncclBroadcast count datatype => s.saveEntry ctx .ncclBroadcast count datatype 0
  | ncclSend count datatype => s.saveEntry ctx .ncclSend count datatype 0
  | ncclRecv count datatype => s.saveEntry ctx .ncclRecv count datatype 0

/-! ## Return programs -/

namespace Bpf

/-- `MALLOC_SIZES` registration of `cuda_malloc_ret` / `cuda_malloc_async_ret`: needs the
    remembered pointer, an entry in flight, and a readable non-null device pointer. The
    return code plays no part. -/
def registerMalloc (s : Bpf n) (ctx : Ctx n) : Bpf n :=
  match s.mallocPtrs.lookup ctx.pidTgid with
  | none => s
  | some ptrToPtr =>
    -- the remembered pointer is used up whatever happens next
    let s := { s with mallocPtrs := s.mallocPtrs.erase ctx.pidTgid }
    match s.inflight.lookup ctx.pidTgid, ctx.readUser ptrToPtr with
    | some entry, some devPtr =>
      if devPtr ≠ 0 then
        { s with mallocSizes := s.mallocSizes.insert ⟨ctx.pid, devPtr⟩ entry.arg0 }
      else s
    | _, _ => s

/-- `cuda_malloc_ret`; `cuda_malloc_async_ret` has the same body. -/
def cudaMallocRet (s : Bpf n) (ctx : Ctx n) : Bpf n := (s.registerMalloc ctx).emitExit ctx

/-- `cu_module_get_function_ret`. -/
def cuModuleGetFunctionRet (s : Bpf n) (ctx : Ctx n) : Bpf n :=
  match s.inflight.lookup ctx.pidTgid with
  | none => s
  | some entry =>
    -- the slot belongs to another call and stays as it is
    if entry.eventType ≠ .cudaRegisterFunction then s
    else
      match ctx.readUser entry.arg0 with
      | none => s.deleteInflight ctx.pidTgid
      | some hfunc =>
        match s.kernelRegs.submit { pid := ctx.pid, hostFun := hfunc, namePtr := entry.arg1 } with
        | some kernelRegs => { s with kernelRegs }.deleteInflight ctx.pidTgid
        | none => s.deleteInflight ctx.pidTgid

end Bpf

/-- The return program of a probed function. -/
def Probe.exit (s : Bpf n) (ctx : Ctx n) : Probe → Bpf n
  | cudaMalloc _ _ | cudaMallocAsync _ _ _ => s.cudaMallocRet ctx
  | cuModuleGetFunction _ _ => s.cuModuleGetFunctionRet ctx
  | _ => s.emitExit ctx

/-! ## Probes without a return side -/

namespace Bpf

/-- `cuda_register_function`. -/
def cudaRegisterFunction (s : Bpf n) (ctx : Ctx n) (hostFun devName : U64) : Bpf n :=
  if hostFun = 0 ∨ devName = 0 then s
  else
    match s.kernelRegs.submit { pid := ctx.pid, hostFun, namePtr := devName } with
    | some kernelRegs => { s with kernelRegs }
    | none => s

/-- `nvtx_range_push`: the name is cut to 63 bytes and zero padded. -/
def nvtxRangePush (s : Bpf n) (ctx : Ctx n) (msgPtr : U64) : Bpf n :=
  if msgPtr = 0 then s
  else
    -- an unreadable message still replaces the marker, by an empty one
    let bytes := ((ctx.readUserStr msgPtr).getD []).take 63
    let name := bytes ++ List.replicate (64 - bytes.length) 0
    { s with nvtxStack := s.nvtxStack.insert ctx.pidTgid name }

/-- `nvtx_range_pop`. -/
def nvtxRangePop (s : Bpf n) (ctx : Ctx n) : Bpf n :=
  { s with nvtxStack := s.nvtxStack.erase ctx.pidTgid }

end Bpf

end Profi
