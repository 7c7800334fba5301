import Mathlib

/-!
# Shared Event Layout

The layout `src/bpf/profi_events.h` shares with its Rust mirror `src/events.rs`: event
types, the keys and values of the aggregate maps, the ring buffer record, and the latency
bucket tables with their index functions.

Machine words are bit vectors, so sums of sizes and durations wrap as they do in the
program. Call counts (`count`, a `u64`) are kept as naturals: no run makes 2^64 calls.
The histogram cells are `u32` and do wrap.
-/

namespace Profi

abbrev U8 := BitVec 8
abbrev U32 := BitVec 32
abbrev U64 := BitVec 64

instance : LawfulBEq U32 := inferInstance

/-- `i64` in two's complement: the cast `as i64` from `u64` keeps the bits. -/
abbrev I64 := BitVec 64

/-! ## Event types -/

/-- The `EVENT_*` constants. -/
inductive EventType where
  | cudaMalloc | cudaFree | cudaMemcpy | cudaLaunchKernel | cudaMemcpyAsync
  | cudaMallocAsync | cudaFreeAsync | cudaRegisterFunction
  | ncclAllReduce | ncclAllGather | ncclReduceScatter | ncclBroadcast | ncclSend | ncclRecv
  | cudaStreamSync | cudaEventSync | cudaMallocHost | cudaFreeHost | cudaMemset
  | cudaMemsetAsync | cudaGraphLaunch | cudaGraphInstantiate | cudaModuleLoad
  deriving DecidableEq, Repr

namespace EventType

/-- The numeric value of the constant. -/
def code : EventType → ℕ
  | cudaMalloc => 1
  | cudaFree => 2
  | cudaMemcpy => 3
  | cudaLaunchKernel => 4
  | cudaMemcpyAsync => 5
  | cudaMallocAsync => 6
  | cudaFreeAsync => 7
  | cudaRegisterFunction => 8
  | ncclAllReduce => 9
  | ncclAllGather => 10
  | ncclReduceScatter => 11
  | ncclBroadcast => 12
  | ncclSend => 13
  | ncclRecv => 14
  | cudaStreamSync => 15
  | cudaEventSync => 16
  | cudaMallocHost => 17
  | cudaFreeHost => 18
  | cudaMemset => 19
  | cudaMemsetAsync => 20
  | cudaGraphLaunch => 21
  | cudaGraphInstantiate => 22
  | cudaModuleLoad => 23

end EventType

/-- `profi_is_nccl_event`. -/
def profiIsNcclEvent (eventType : EventType) : Bool :=
  EventType.ncclAllReduce.code ≤ eventType.code && eventType.code ≤ EventType.ncclRecv.code

/-- `profi_is_aggregatable`. -/
def profiIsAggregatable : EventType → Bool
  | .cudaMalloc | .cudaFree | .cudaMemcpy | .cudaMemcpyAsync | .cudaMallocAsync
  | .cudaFreeAsync | .cudaMallocHost | .cudaFreeHost | .cudaMemset | .cudaMemsetAsync
  | .cudaStreamSync | .cudaEventSync | .cudaGraphLaunch | .cudaGraphInstantiate
  | .cudaModuleLoad => true
  | _ => false

variable {eventType : EventType} {N : ℕ}

/-- The three in-kernel routes are exclusive: no event type takes two of them. -/
theorem not_nccl_of_aggregatable (h : profiIsAggregatable eventType = true) :
    profiIsNcclEvent eventType = false := by
  cases eventType <;> first | rfl | simp [profiIsAggregatable] at h

theorem ne_launch_of_aggregatable (h : profiIsAggregatable eventType = true) :
    eventType ≠ .cudaLaunchKernel := by
  rintro rfl
  simp [profiIsAggregatable] at h

theorem ne_launch_of_nccl (h : profiIsNcclEvent eventType = true) :
    eventType ≠ .cudaLaunchKernel := by
  rintro rfl
  simp [profiIsNcclEvent, EventType.code] at h

/-! ## Bucket tables -/

/-- `NCCL_DTYPE_SIZES`. -/
def ncclDtypeSizes : Fin 10 → U64 := ![1, 1, 4, 4, 2, 4, 8, 8, 8, 2]

/-- `NCCL_BUCKET_BOUNDS_NS`. -/
def ncclBucketBoundsNs : Fin 11 → U64 :=
  ![10000, 50000, 100000, 500000, 1000000, 5000000, 10000000, 50000000, 100000000,
    500000000, 1000000000]

/-- `CUDA_BUCKET_BOUNDS_NS`. -/
def cudaBucketBoundsNs : Fin 13 → U64 :=
  ![1000, 5000, 10000, 50000, 100000, 500000, 1000000, 5000000, 10000000, 50000000,
    100000000, 500000000, 1000000000]

/-- `KERNEL_BUCKET_BOUNDS_NS`. -/
def kernelBucketBoundsNs : Fin 8 → U64 :=
  ![1000, 5000, 10000, 50000, 100000, 500000, 1000000, 10000000]

/-- `profi_nccl_bucket_idx`. -/
def profiNcclBucketIdx (durationNs : U64) : ℕ :=
  if durationNs ≤ ncclBucketBoundsNs 0 then 0
  else if durationNs ≤ ncclBucketBoundsNs 1 then 1
  else if durationNs ≤ ncclBucketBoundsNs 2 then 2
  else if durationNs ≤ ncclBucketBoundsNs 3 then 3
  else if durationNs ≤ ncclBucketBoundsNs 4 then 4
  else if durationNs ≤ ncclBucketBoundsNs 5 then 5
  else if durationNs ≤ ncclBucketBoundsNs 6 then 6
  else if durationNs ≤ ncclBucketBoundsNs 7 then 7
  else if durationNs ≤ ncclBucketBoundsNs 8 then 8
  else if durationNs ≤ ncclBucketBoundsNs 9 then 9
  else if durationNs ≤ ncclBucketBoundsNs 10 then 10
  else 11

/-- `profi_cuda_bucket_idx`. -/
def profiCudaBucketIdx (durationNs : U64) : ℕ :=
  if durationNs ≤ cudaBucketBoundsNs 0 then 0
  else if durationNs ≤ cudaBucketBoundsNs 1 then 1
  else if durationNs ≤ cudaBucketBoundsNs 2 then 2
  else if durationNs ≤ cudaBucketBoundsNs 3 then 3
  else if durationNs ≤ cudaBucketBoundsNs 4 then 4
  else if durationNs ≤ cudaBucketBoundsNs 5 then 5
  else if durationNs ≤ cudaBucketBoundsNs 6 then 6
  else if durationNs ≤ cudaBucketBoundsNs 7 then 7
  else if durationNs ≤ cudaBucketBoundsNs 8 then 8
  else if durationNs ≤ cudaBucketBoundsNs 9 then 9
  else if durationNs ≤ cudaBucketBoundsNs 10 then 10
  else if durationNs ≤ cudaBucketBoundsNs 11 then 11
  else if durationNs ≤ cudaBucketBoundsNs 12 then 12
  else 13

/-- `profi_kernel_bucket_idx`. -/
def profiKernelBucketIdx (durationNs : U64) : ℕ :=
  if durationNs ≤ kernelBucketBoundsNs 0 then 0
  else if durationNs ≤ kernelBucketBoundsNs 1 then 1
  else if durationNs ≤ kernelBucketBoundsNs 2 then 2
  else if durationNs ≤ kernelBucketBoundsNs 3 then 3
  else if durationNs ≤ kernelBucketBoundsNs 4 then 4
  else if durationNs ≤ kernelBucketBoundsNs 5 then 5
  else if durationNs ≤ kernelBucketBoundsNs 6 then 6
  else if durationNs ≤ kernelBucketBoundsNs 7 then 7
  else 8

/-! ## The bucket tables of the Rust mirror -/

namespace EventsRs

/-- `NCCL_BUCKET_BOUNDS_NS` of `src/events.rs`. -/
def ncclBucketBoundsNs : Fin 11 → U64 :=
  ![10000, 50000, 100000, 500000, 1000000, 5000000, 10000000, 50000000, 100000000,
    500000000, 1000000000]

/-- `CUDA_BUCKET_BOUNDS_NS` of `src/events.rs`. -/
def cudaBucketBoundsNs : Fin 13 → U64 :=
  ![1000, 5000, 10000, 50000, 100000, 500000, 1000000, 5000000, 10000000, 50000000,
    100000000, 500000000, 1000000000]

/-- `KERNEL_BUCKET_BOUNDS_NS` of `src/events.rs`. -/
def kernelBucketBoundsNs : Fin 8 → U64 :=
  ![1000, 5000, 10000, 50000, 100000, 500000, 1000000, 10000000]

/-- `nccl_bucket_idx`. -/
def ncclBucketIdx (durationNs : U64) : ℕ :=
  if durationNs ≤ ncclBucketBoundsNs 0 then 0
  else if durationNs ≤ ncclBucketBoundsNs 1 then 1
  else if durationNs ≤ ncclBucketBoundsNs 2 then 2
  else if durationNs ≤ ncclBucketBoundsNs 3 then 3
  else if durationNs ≤ ncclBucketBoundsNs 4 then 4
  else if durationNs ≤ ncclBucketBoundsNs 5 then 5
  else if durationNs ≤ ncclBucketBoundsNs 6 then 6
  else if durationNs ≤ ncclBucketBoundsNs 7 then 7
  else if durationNs ≤ ncclBucketBoundsNs 8 then 8
  else if durationNs ≤ ncclBucketBoundsNs 9 then 9
  else if durationNs ≤ ncclBucketBoundsNs 10 then 10
  else 11

/-- The body of `cuda_bucket_idx` and `kernel_bucket_idx`, over the table of either. -/
def bucketIdxLoop {N : ℕ} (bounds : Fin N → U64) (durationNs : U64) : ℕ := Id.run do
  -- `for (i, bound) in BOUNDS.iter().enumerate()`
  for (bound, i) in (List.ofFn bounds).zipIdx do
    if durationNs ≤ bound then
      return i
  return N

/-- `cuda_bucket_idx`. -/
def cudaBucketIdx (durationNs : U64) : ℕ := bucketIdxLoop cudaBucketBoundsNs durationNs

/-- `kernel_bucket_idx`. -/
def kernelBucketIdx (durationNs : U64) : ℕ := bucketIdxLoop kernelBucketBoundsNs durationNs

end EventsRs

/-! ## Records -/

/-- Ring buffer record. -/
structure CudaEvent where
  eventType : EventType
  pid : U32
  tid : U32
  memcpyKind : U32
  timestampNs : U64
  durationNs : U64
  size : U64
  addr : U64
  stream : U64
  nvtxMarker : List U8
  comm : List U8
  errorCode : U32
  deriving DecidableEq

/-- `__cudaRegisterFunction` / `cuModuleGetFunction` record. -/
structure KernelRegEvent where
  pid : U32
  hostFun : U64
  namePtr : U64
  deriving DecidableEq

/-- What an entry probe leaves for the return probe. -/
structure EntryData where
  timestampNs : U64
  arg0 : U64
  arg1 : U64
  arg2 : U64
  eventType : EventType
  deriving DecidableEq

structure AggKey where
  eventType : EventType
  pid : U32
  memcpyKind : U32
  errorCode : U32
  stream : U64
  deriving DecidableEq

structure LaunchKey where
  pid : U32
  hostFun : U64
  stream : U64
  deriving DecidableEq

structure MallocKey where
  pid : U32
  addr : U64
  deriving DecidableEq

/-! ## Aggregate values

The counts are natural numbers here and 64-bit words in the program. `Sys.countsFit_run` says how
many calls have to return before the two differ. -/

/-- `if (idx >= 0 && idx < N) bucket_counts[idx] += inc`. -/
def bumpBucket (bucketCounts : Fin N → U32) (idx : ℕ) (inc : U32) : Fin N → U32 :=
  if h : idx < N then Function.update bucketCounts ⟨idx, h⟩ (bucketCounts ⟨idx, h⟩ + inc)
  else bucketCounts

/-- `if (idx >= 0 && idx < N) new_val.bucket_counts[idx] = inc` on a zeroed array. -/
def freshBucket (idx : ℕ) (inc : U32) : Fin N → U32 :=
  if h : idx < N then Function.update (fun _ => 0) ⟨idx, h⟩ inc else fun _ => 0

theorem freshBucket_eq_bump (idx : ℕ) (inc : U32) :
    (freshBucket idx inc : Fin N → U32) = bumpBucket (fun _ => 0) idx inc := by
  unfold freshBucket bumpBucket
  split <;> simp

/-- Value of the `AGGREGATED` map. -/
structure AggValue where
  count : ℕ
  durationSumNs : U64
  sizeSum : U64
  bucketCounts : Fin 14 → U32

/-- Value of the `NCCL_AGG` map. -/
structure NcclAggValue where
  count : ℕ
  durationSumNs : U64
  bytesSum : U64
  bucketCounts : Fin 12 → U32

/-- Value of the `LAUNCH_AGG` map. -/
structure LaunchAggValue where
  count : ℕ
  totalDurationNs : U64
  maxDurationNs : U64
  bucketCounts : Fin 9 → U32

instance : Zero AggValue := ⟨⟨0, 0, 0, fun _ => 0⟩⟩
instance : Zero NcclAggValue := ⟨⟨0, 0, 0, fun _ => 0⟩⟩
instance : Zero LaunchAggValue := ⟨⟨0, 0, 0, fun _ => 0⟩⟩

/-- What one aggregatable call adds to its `AGGREGATED` slot. -/
structure AggItem where
  sampleMul : U64
  durationNs : U64
  arg0 : U64
  deriving DecidableEq

/-- What one collective adds to its `NCCL_AGG` slot. -/
structure NcclItem where
  durationNs : U64
  bytes : U64
  deriving DecidableEq

/-- What one launch adds to its `LAUNCH_AGG` slot. -/
structure LaunchItem where
  durationNs : U64
  deriving DecidableEq

/-- The in-place update of a found `AGGREGATED` value. -/
def AggValue.add (val : AggValue) (x : AggItem) : AggValue where
  count := val.count + x.sampleMul.toNat
  durationSumNs := val.durationSumNs + x.durationNs * x.sampleMul
  sizeSum := val.sizeSum + x.arg0 * x.sampleMul
  bucketCounts :=
    bumpBucket val.bucketCounts (profiCudaBucketIdx x.durationNs) (x.sampleMul.setWidth 32)

/-- The value inserted for a new `AGGREGATED` key. -/
def AggValue.fresh (x : AggItem) : AggValue where
  count := x.sampleMul.toNat
  durationSumNs := x.durationNs * x.sampleMul
  sizeSum := x.arg0 * x.sampleMul
  bucketCounts := freshBucket (profiCudaBucketIdx x.durationNs) (x.sampleMul.setWidth 32)

/-- The in-place update of a found `NCCL_AGG` value. -/
def NcclAggValue.add (val : NcclAggValue) (x : NcclItem) : NcclAggValue where
  count := val.count + 1
  durationSumNs := val.durationSumNs + x.durationNs
  bytesSum := val.bytesSum + x.bytes
  bucketCounts := bumpBucket val.bucketCounts (profiNcclBucketIdx x.durationNs) 1

/-- The value inserted for a new `NCCL_AGG` key. -/
def NcclAggValue.fresh (x : NcclItem) : NcclAggValue where
  count := 1
  durationSumNs := x.durationNs
  bytesSum := x.bytes
  bucketCounts := freshBucket (profiNcclBucketIdx x.durationNs) 1

/-- The in-place update of a found `LAUNCH_AGG` value. -/
def LaunchAggValue.add (val : LaunchAggValue) (x : LaunchItem) : LaunchAggValue where
  count := val.count + 1
  totalDurationNs := val.totalDurationNs + x.durationNs
  maxDurationNs := if x.durationNs > val.maxDurationNs then x.durationNs else val.maxDurationNs
  bucketCounts := bumpBucket val.bucketCounts (profiKernelBucketIdx x.durationNs) 1

/-- The value inserted for a new `LAUNCH_AGG` key. -/
def LaunchAggValue.fresh (x : LaunchItem) : LaunchAggValue where
  count := 1
  totalDurationNs := x.durationNs
  maxDurationNs := x.durationNs
  bucketCounts := freshBucket (profiKernelBucketIdx x.durationNs) 1

/-! The two branches of each update agree: inserting a fresh value is adding to the zeroed
slot, which is what a CPU finds when another CPU inserted the key first. -/

theorem AggValue.fresh_eq_add_zero (x : AggItem) : AggValue.fresh x = AggValue.add 0 x := by
  show AggValue.fresh x = AggValue.add ⟨0, 0, 0, fun _ => 0⟩ x
  simp [AggValue.fresh, AggValue.add, freshBucket_eq_bump]

theorem NcclAggValue.fresh_eq_add_zero (x : NcclItem) :
    NcclAggValue.fresh x = NcclAggValue.add 0 x := by
  show NcclAggValue.fresh x = NcclAggValue.add ⟨0, 0, 0, fun _ => 0⟩ x
  simp [NcclAggValue.fresh, NcclAggValue.add, freshBucket_eq_bump]

theorem LaunchAggValue.fresh_eq_add_zero (x : LaunchItem) :
    LaunchAggValue.fresh x = LaunchAggValue.add 0 x := by
  show LaunchAggValue.fresh x = LaunchAggValue.add ⟨0, 0, 0, fun _ => 0⟩ x
  simp [LaunchAggValue.fresh, LaunchAggValue.add, freshBucket_eq_bump]

end Profi
