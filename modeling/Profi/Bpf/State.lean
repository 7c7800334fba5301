import Profi.Events
import Profi.Lib.PerCpuMap
import Profi.Lib.RingBuf

/-!
# State of the eBPF Program

The maps of `src/bpf/profi.bpf.c`, the context a probe fires in, and the values `main`
writes into the configuration maps before attaching.

The LRU maps (`INFLIGHT`, `NVTX_STACK`, `MALLOC_SIZES`, `MALLOC_PTRS`) never refuse an
update; the kernel may evict any of their entries instead. Evictions are steps of their own
in the system model, so the maps here are plain finite maps. The per-CPU hash maps refuse a
new key when they hold `max_entries` keys.
-/

namespace Profi

/-! ## Probe context -/

/-- What a probe reads from its environment: the current thread and CPU, the clock, the
    registers it uses, and the memory of the probed process. `readUser` is an eight byte
    `bpf_probe_read_user`, `none` on a fault. -/
structure Ctx (n : ℕ) where
  pidTgid : U64
  cpu : Fin n
  ktimeNs : U64
  rc : U64
  sp : U64
  comm : List U8
  readUser : U64 → Option U64
  readUserStr : U64 → Option (List U8)

namespace Ctx

variable {n : ℕ}

/-- `id >> 32`. -/
def pid (ctx : Ctx n) : U32 := (ctx.pidTgid >>> 32).setWidth 32

/-- `(__u32)id`. -/
def tid (ctx : Ctx n) : U32 := ctx.pidTgid.setWidth 32

/-- `(__u32)PT_REGS_RC(ctx)`. -/
def returnCode (ctx : Ctx n) : U32 := ctx.rc.setWidth 32

/-- `PT_REGS_PARM_STACK(ctx, n)`: zero when the stack cannot be read. -/
def parmStack (ctx : Ctx n) (k : ℕ) : U64 :=
  (ctx.readUser (ctx.sp + 8 * BitVec.ofNat 64 (k - 5))).getD 0

end Ctx

/-! ## Maps -/

/-- The maps of the program, on a machine with `n` CPUs. -/
structure Bpf (n : ℕ) where
  inflight : FinMap U64 EntryData
  events : RingBuf CudaEvent
  kernelRegs : RingBuf KernelRegEvent
  aggregated : PerCpuMap n AggKey AggValue
  launchAgg : PerCpuMap n LaunchKey LaunchAggValue
  launchDropped : Fin n → U64
  detailedLaunches : U32
  upgradedPids : FinMap U32 U8
  ncclAgg : PerCpuMap n AggKey NcclAggValue
  dropped : Fin n → U64
  nvtxStack : FinMap U64 (List U8)
  kernelAggMode : U32
  sampleRate : U32
  sampleCounter : Fin n → U64
  mallocSizes : FinMap MallocKey U64
  mallocPtrs : FinMap U64 U64

/-- `max_entries` of `UPGRADED_PIDS`. -/
def upgradedPidsMaxEntries : ℕ := 1024

/-! ## Start-up configuration -/

/-- `--kernel-mode`. -/
inductive KernelMode where
  | full | anonymous | off
  deriving DecidableEq, Repr

/-- The command line options the modelled code reads. -/
structure Args where
  kernelMode : KernelMode := .anonymous
  detailedLaunches : Bool := false
  sampleRate : U32 := 1
  aggregatedSize : ℕ := 2048
  launchAggSize : ℕ := 8192
  maxTimeSeries : ℕ := 50000
  maxStreamsPerPid : ℕ := 32
  maxKernelsPerPid : ℕ := 512
  gcInterval : ℕ := 60

/-- The value `main` writes to `KERNEL_AGG_MODE`. -/
def Args.modeVal (args : Args) : U32 :=
  match args.kernelMode with
  | .anonymous => 1
  | _ => 0

/-- The maps after `main` has loaded the skeleton and set the configuration maps.
    `SAMPLE_RATE` is only written for rates above one. -/
def Bpf.init (n : ℕ) (args : Args) : Bpf n where
  inflight := ∅
  events := RingBuf.empty (2 * 1024 * 1024) 96
  kernelRegs := RingBuf.empty (256 * 1024) 24
  aggregated := PerCpuMap.empty args.aggregatedSize
  launchAgg := PerCpuMap.empty args.launchAggSize
  launchDropped := fun _ => 0
  detailedLaunches := if args.detailedLaunches then 1 else 0
  upgradedPids := ∅
  ncclAgg := PerCpuMap.empty 1024
  dropped := fun _ => 0
  nvtxStack := ∅
  kernelAggMode := args.modeVal
  sampleRate := if args.sampleRate > 1 then args.sampleRate else 0
  sampleCounter := fun _ => 0
  mallocSizes := ∅
  mallocPtrs := ∅

end Profi
