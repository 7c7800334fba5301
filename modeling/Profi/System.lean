import Profi.Bpf.Spec
import Profi.EventLoop
import Profi.Lib.Runs

/-!
# The Whole System

The probe programs and the event loop as one step function. Threads enter and return from
probed functions in any interleaving; the arms of the event loop, evictions from the LRU
maps and kernel name updates happen between any two of these.

`stack` is what the machine knows and the program does not: the probed calls each thread
has open, innermost first. A `ret` runs the return program of the thread's innermost open
call, so every run is well nested. `hist` is a record for specifications; no step reads it.
-/

namespace Profi

variable {n : ℕ}

/-! ## State -/

/-- An open call: what its entry program would store in a free slot, whether sampling lets
    it, and whether the thread has stayed out of other probed calls since. -/
structure OpenCall where
  probe : Probe
  entry : EntryData
  stored : Bool
  alone : Bool
  deriving DecidableEq

/-- A call that has returned, with what its return program found: the entry it consumed from
    the slot, the kernel it registered, and what it read from the other maps. -/
structure Completed (n : ℕ) where
  call : OpenCall
  outermost : Bool
  ctx : Ctx n
  recorded : Option EntryData
  registered : Option KernelRegEvent
  mode : U32
  sampleMul : U64
  nvtx : Option (List U8)

/-- What happened so far: returns in order, kernels registered outside of calls, and what the
    event loop took from the maps and the ring. -/
structure History (n : ℕ) where
  returns : List (Completed n)
  registrations : List KernelRegEvent
  aggHanded : List (AggKey × List AggValue)
  launchHanded : List (LaunchKey × List LaunchAggValue)
  ncclHanded : List (AggKey × List NcclAggValue)
  eventsConsumed : List CudaEvent

structure Sys (n : ℕ) where
  stack : U64 → List OpenCall
  bpf : Bpf n
  loop : Loop
  hist : History n

/-- The system when `main` has attached the probes. -/
def Sys.init (n : ℕ) (args : Args) : Sys n where
  stack := fun _ => []
  bpf := .init n args
  loop := .init args
  hist := ⟨[], [], [], [], [], []⟩

/-! ## Steps -/

/-- An entry the kernel may drop from one of the LRU maps. -/
inductive Eviction where
  | inflight (id : U64)
  | nvtxStack (id : U64)
  | mallocSizes (key : MallocKey)
  | mallocPtrs (id : U64)

inductive Event (n : ℕ) where
  | enter (probe : Probe) (ctx : Ctx n)
  | ret (ctx : Ctx n)
  | registerFunction (ctx : Ctx n) (hostFun devName : U64)
  | nvtxPush (ctx : Ctx n) (msgPtr : U64)
  | nvtxPop (ctx : Ctx n)
  | evict (e : Eviction)
  | consume (env : LoopEnv)
  | aggTick (env : LoopEnv)
  | gcTick (env : LoopEnv)
  | nameKernel (pid : U32) (addr : U64) (name : String)

def Bpf.evict (b : Bpf n) : Eviction → Bpf n
  | .inflight id => { b with inflight := b.inflight.erase id }
  | .nvtxStack id => { b with nvtxStack := b.nvtxStack.erase id }
  | .mallocSizes key => { b with mallocSizes := b.mallocSizes.erase key }
  | .mallocPtrs id => { b with mallocPtrs := b.mallocPtrs.erase id }

namespace Sys

/-- The call an entry opens. -/
def opened (s : Sys n) (p : Probe) (ctx : Ctx n) : OpenCall where
  probe := p
  entry := p.entryData s.bpf ctx
  stored := p.stores s.bpf ctx
  alone := true

/-- The completed call a return adds to the history. -/
def completed (s : Sys n) (ctx : Ctx n) (call : OpenCall) (rest : List OpenCall) :
    Completed n where
  call
  outermost := rest.isEmpty
  ctx
  recorded := call.probe.recorded s.bpf ctx
  registered := call.probe.registered s.bpf ctx
  mode := s.bpf.launchMode ctx.pid
  sampleMul := s.bpf.sampleMul
  nvtx := s.bpf.nvtxStack.lookup ctx.pidTgid

/-- A thread enters a probed function. -/
def enter (s : Sys n) (p : Probe) (ctx : Ctx n) : Sys n :=
  let outer := (s.stack ctx.pidTgid).map fun c => { c with alone := false }
  { s with
    bpf := p.enter s.bpf ctx
    stack := Function.update s.stack ctx.pidTgid (s.opened p ctx :: outer) }

/-- A thread returns from its innermost open call. -/
def ret (s : Sys n) (ctx : Ctx n) : Sys n :=
  match s.stack ctx.pidTgid with
  | [] => s
  | call :: rest =>
    { s with
      bpf := call.probe.exit s.bpf ctx
      stack := Function.update s.stack ctx.pidTgid rest
      hist := { s.hist with returns := s.hist.returns ++ [s.completed ctx call rest] } }

/-- The ring buffer arm. -/
def consume (args : Args) (s : Sys n) (env : LoopEnv) : Sys n :=
  let (bpf, loop) := Loop.consume args env (s.bpf, s.loop)
  let consumed := s.bpf.events.records.take ringbufConsumeBudget
  { s with bpf, loop, hist := { s.hist with eventsConsumed := s.hist.eventsConsumed ++ consumed } }

/-- The history after an aggregate tick. -/
def handOut (args : Args) (s : Sys n) (env : LoopEnv) : History n :=
  { s.hist with
    aggHanded := s.hist.aggHanded ++ drained env.aggOrder s.bpf.aggregated
    launchHanded := s.hist.launchHanded ++
      if args.detailedLaunches then [] else drained env.launchOrder s.bpf.launchAgg
    ncclHanded := s.hist.ncclHanded ++ drained env.ncclOrder s.bpf.ncclAgg }

/-- The aggregate tick arm. -/
def aggTick (args : Args) (s : Sys n) (env : LoopEnv) : Sys n :=
  let (bpf, loop) := Loop.aggTick args env (s.bpf, s.loop)
  { s with bpf, loop, hist := s.handOut args env }

def step (args : Args) (s : Sys n) : Event n → Sys n
  | .enter p ctx => s.enter p ctx
  | .ret ctx => s.ret ctx
  | .registerFunction ctx hostFun devName =>
      let registration := if hostFun = 0 ∨ devName = 0 then [] else [⟨ctx.pid, hostFun, devName⟩]
      { s with
        bpf := s.bpf.cudaRegisterFunction ctx hostFun devName
        hist := { s.hist with registrations := s.hist.registrations ++ registration } }
  | .nvtxPush ctx msgPtr => { s with bpf := s.bpf.nvtxRangePush ctx msgPtr }
  | .nvtxPop ctx => { s with bpf := s.bpf.nvtxRangePop ctx }
  | .evict e => { s with bpf := s.bpf.evict e }
  | .consume env => s.consume args env
  | .aggTick env => s.aggTick args env
  | .gcTick env => { s with loop := s.loop.gcTick args env }
  | .nameKernel pid addr name =>
      { s with loop :=
          { s.loop with kernelNames := s.loop.kernelNames.insert (pid, addr) name } }

/-- A context on a machine with one CPU whose memory cannot be read. -/
def bareCtx (pidTgid ktimeNs rc : U64) : Ctx 1 where
  pidTgid
  cpu := 0
  ktimeNs
  rc
  sp := 0
  comm := []
  readUser := fun _ => none
  readUserStr := fun _ => none

/-- The state reached by a run from the start. -/
def run (args : Args) (n : ℕ) (es : List (Event n)) : Sys n :=
  Runs.run (step args) (Sys.init n args) es

/-- A run in which every event meets `P` in the state before it. -/
abbrev Permitted (args : Args) (P : Sys n → Event n → Prop) (es : List (Event n)) : Prop :=
  Runs.Along (step args) P (Sys.init n args) es

theorem invariant_run {args : Args} (I : Sys n → Prop) (hinit : I (Sys.init n args))
    (hstep : ∀ s e, I s → I (s.step args e)) (es : List (Event n)) : I (run args n es) :=
  Runs.run_invariant_of_step hstep hinit es

theorem invariant_permitted {args : Args} (I : Sys n → Prop) {P : Sys n → Event n → Prop}
    (hinit : I (Sys.init n args)) (hstep : ∀ s e, I s → P s e → I (s.step args e))
    {es : List (Event n)} (hes : Permitted args P es) : I (run args n es) :=
  Runs.run_invariant hstep hinit hes

end Sys

/-! ## What the event loop does to the maps -/

/-- A ring buffer batch takes records off the front of the rings. -/
theorem Loop.consume_bpf (args : Args) (env : LoopEnv) (s : Bpf n × Loop) :
    (Loop.consume args env s).1 =
      { s.1 with
        events := { s.1.events with records := s.1.events.records.drop ringbufConsumeBudget }
        kernelRegs := (Loop.consume args env s).1.kernelRegs } := by
  unfold Loop.consume
  simp only [RingBuf.consume]
  split <;> rfl

/-- An aggregate tick may change `UPGRADED_PIDS`, and drains the maps. -/
theorem Loop.aggTick_bpf (args : Args) (env : LoopEnv) (s : Bpf n × Loop) :
    (Loop.aggTick args env s).1 =
      { s.1 with
        upgradedPids := (Loop.aggTick args env s).1.upgradedPids
        aggregated := undrained env.aggOrder s.1.aggregated
        launchAgg :=
          if args.detailedLaunches then s.1.launchAgg
          else undrained env.launchOrder s.1.launchAgg
        ncclAgg := undrained env.ncclOrder s.1.ncclAgg } := by
  unfold Loop.aggTick Loop.drainMaps
  simp only [drainPercpuHash_eq]
  cases args.detailedLaunches <;> cases env.upgradedPids <;> rfl

namespace Sys

variable {args : Args} {s : Sys n}

theorem consume_bpf (env : LoopEnv) :
    (s.consume args env).bpf =
      { s.bpf with
        events := { s.bpf.events with records := s.bpf.events.records.drop ringbufConsumeBudget }
        kernelRegs := (s.consume args env).bpf.kernelRegs } :=
  Loop.consume_bpf args env (s.bpf, s.loop)

theorem aggTick_bpf (env : LoopEnv) :
    (s.aggTick args env).bpf =
      { s.bpf with
        upgradedPids := (s.aggTick args env).bpf.upgradedPids
        aggregated := undrained env.aggOrder s.bpf.aggregated
        launchAgg :=
          if args.detailedLaunches then s.bpf.launchAgg
          else undrained env.launchOrder s.bpf.launchAgg
        ncclAgg := undrained env.ncclOrder s.bpf.ncclAgg } :=
  Loop.aggTick_bpf args env (s.bpf, s.loop)

theorem ret_nil {ctx : Ctx n} (h : s.stack ctx.pidTgid = []) : s.ret ctx = s := by
  unfold ret
  rw [h]

theorem ret_cons {ctx : Ctx n} {call : OpenCall} {rest : List OpenCall}
    (h : s.stack ctx.pidTgid = call :: rest) :
    s.ret ctx =
      { s with
        bpf := call.probe.exit s.bpf ctx
        stack := Function.update s.stack ctx.pidTgid rest
        hist := { s.hist with returns := s.hist.returns ++ [s.completed ctx call rest] } } := by
  unfold ret
  rw [h]

/-! ## Kinds of steps

A step enters a call, returns from one, loses an entry to the kernel, or happens in the
background of the calls: an arm of the event loop, a registration, an NVTX range, a kernel
name. -/

theorem cudaRegisterFunction_frame (b : Bpf n) (ctx : Ctx n) (hostFun devName : U64) :
    b.cudaRegisterFunction ctx hostFun devName =
      { b with kernelRegs := (b.cudaRegisterFunction ctx hostFun devName).kernelRegs } := by
  unfold Bpf.cudaRegisterFunction
  repeat' split
  all_goals rfl

theorem nvtxRangePush_frame (b : Bpf n) (ctx : Ctx n) (msgPtr : U64) :
    b.nvtxRangePush ctx msgPtr =
      { b with nvtxStack := (b.nvtxRangePush ctx msgPtr).nvtxStack } := by
  unfold Bpf.nvtxRangePush
  split <;> rfl

/-- No call is entered or left, and the maps the calls work on stay as they are. -/
structure Background (s s' : Sys n) : Prop where
  stack : s'.stack = s.stack
  returns : s'.hist.returns = s.hist.returns
  bpf : s'.bpf =
    { s.bpf with
      events := s'.bpf.events
      kernelRegs := s'.bpf.kernelRegs
      nvtxStack := s'.bpf.nvtxStack
      upgradedPids := s'.bpf.upgradedPids
      aggregated := s'.bpf.aggregated
      launchAgg := s'.bpf.launchAgg
      ncclAgg := s'.bpf.ncclAgg }

/-- Entering a call is not in the background of the calls. -/
theorem not_background_enter (s : Sys n) (p : Probe) (ctx : Ctx n) :
    ¬Background s (s.step args (.enter p ctx)) := by
  intro hbg
  have hlength := congrArg List.length (congrFun hbg.stack ctx.pidTgid)
  simp [step, enter] at hlength

/-- A step is an entry, the return of an open call, an eviction, or leaves the calls alone. -/
theorem step_cases (args : Args) (s : Sys n) (e : Event n) :
    (∃ p ctx, e = .enter p ctx ∧ s.step args e = s.enter p ctx) ∨
    (∃ ctx call rest, e = .ret ctx ∧ s.stack ctx.pidTgid = call :: rest ∧
      s.step args e =
        { s with
          bpf := call.probe.exit s.bpf ctx
          stack := Function.update s.stack ctx.pidTgid rest
          hist := { s.hist with returns := s.hist.returns ++ [s.completed ctx call rest] } }) ∨
    (∃ ev, e = .evict ev ∧ s.step args e = { s with bpf := s.bpf.evict ev }) ∨
    Background s (s.step args e) := by
  cases e with
  | enter p ctx => exact .inl ⟨p, ctx, rfl, rfl⟩
  | ret ctx =>
    cases hs : s.stack ctx.pidTgid with
    | nil =>
      refine .inr (.inr (.inr ?_))
      simp only [step, ret_nil hs]
      exact ⟨rfl, rfl, rfl⟩
    | cons call rest => exact .inr (.inl ⟨ctx, call, rest, rfl, hs, ret_cons hs⟩)
  | registerFunction ctx hostFun devName =>
    refine .inr (.inr (.inr ⟨rfl, rfl, ?_⟩))
    simp only [step]
    rw [cudaRegisterFunction_frame]
  | nvtxPush ctx msgPtr =>
    refine .inr (.inr (.inr ⟨rfl, rfl, ?_⟩))
    simp only [step]
    rw [nvtxRangePush_frame]
  | nvtxPop ctx => exact .inr (.inr (.inr ⟨rfl, rfl, rfl⟩))
  | evict ev => exact .inr (.inr (.inl ⟨ev, rfl, rfl⟩))
  | consume env =>
    refine .inr (.inr (.inr ⟨rfl, rfl, ?_⟩))
    simp only [step]
    rw [consume_bpf]
  | aggTick env =>
    refine .inr (.inr (.inr ⟨rfl, rfl, ?_⟩))
    simp only [step]
    rw [aggTick_bpf]
  | gcTick env => exact .inr (.inr (.inr ⟨rfl, rfl, rfl⟩))
  | nameKernel pid addr name => exact .inr (.inr (.inr ⟨rfl, rfl, rfl⟩))

/-- What holds of every call at the moment it returns holds of all completed calls. The
    states of the run may be assumed to satisfy an invariant `I`. -/
theorem forall_returns (I : Sys n → Prop) {P : Sys n → Event n → Prop}
    (hinit : I (Sys.init n args)) (hstep : ∀ s e, I s → P s e → I (s.step args e))
    {Q : Completed n → Prop}
    (hQ : ∀ s ctx call rest, I s → P s (.ret ctx) → s.stack ctx.pidTgid = call :: rest →
      Q (s.completed ctx call rest))
    {es : List (Event n)} (hes : Permitted args P es) :
    ∀ r ∈ (run args n es).hist.returns, Q r := by
  suffices hinv : I (run args n es) ∧ ∀ r ∈ (run args n es).hist.returns, Q r from hinv.2
  refine invariant_permitted (fun s => I s ∧ ∀ r ∈ s.hist.returns, Q r) ?_ ?_ hes
  · exact ⟨hinit, by simp [Sys.init]⟩
  · rintro s e ⟨hI, hreturns⟩ he
    refine ⟨hstep s e hI he, ?_⟩
    rcases step_cases args s e with ⟨p, ctx, -, hs'⟩ | ⟨ctx, call, rest, rfl, hs, hs'⟩ |
      ⟨ev, -, hs'⟩ | hbg
    · rw [hs']
      exact hreturns
    · rw [hs']
      intro r hr
      rcases List.mem_append.mp hr with hr | hr
      · exact hreturns r hr
      · rw [List.mem_singleton.mp hr]
        exact hQ s ctx call rest hI he hs
    · rw [hs']
      exact hreturns
    · rw [hbg.returns]
      exact hreturns

/-- The aggregate maps are as they were, and nothing was handed out. -/
structure MapsSame (s s' : Sys n) : Prop where
  aggregated : s'.bpf.aggregated = s.bpf.aggregated
  launchAgg : s'.bpf.launchAgg = s.bpf.launchAgg
  ncclAgg : s'.bpf.ncclAgg = s.bpf.ncclAgg
  aggHanded : s'.hist.aggHanded = s.hist.aggHanded
  launchHanded : s'.hist.launchHanded = s.hist.launchHanded
  ncclHanded : s'.hist.ncclHanded = s.hist.ncclHanded

/-- The buffers between the probes and the event loop are as they were. -/
structure BuffersSame (s s' : Sys n) : Prop extends MapsSame s s' where
  returns : s'.hist.returns = s.hist.returns
  events : s'.bpf.events = s.bpf.events
  eventsConsumed : s'.hist.eventsConsumed = s.hist.eventsConsumed
  upgradedPids : s'.bpf.upgradedPids = s.bpf.upgradedPids
  upgradedPidsSynced : s'.loop.upgradedPidsSynced = s.loop.upgradedPidsSynced

/-- The returns fill the buffers, and two arms of the event loop empty them. -/
def movesData : Event n → Bool
  | .ret _ | .consume _ | .aggTick _ => true
  | _ => false

/-- No other event touches the buffers. -/
theorem buffersSame (args : Args) (s : Sys n) (e : Event n) (h : movesData e = false) :
    BuffersSame s (s.step args e) := by
  cases e with
  | ret ctx | consume env | aggTick env => cases h
  | enter p ctx =>
    simp only [step, enter]
    rw [Probe.enter_frame]
    exact ⟨⟨rfl, rfl, rfl, rfl, rfl, rfl⟩, rfl, rfl, rfl, rfl, rfl⟩
  | registerFunction ctx hostFun devName =>
    simp only [step]
    rw [cudaRegisterFunction_frame]
    exact ⟨⟨rfl, rfl, rfl, rfl, rfl, rfl⟩, rfl, rfl, rfl, rfl, rfl⟩
  | nvtxPush ctx msgPtr =>
    simp only [step]
    rw [nvtxRangePush_frame]
    exact ⟨⟨rfl, rfl, rfl, rfl, rfl, rfl⟩, rfl, rfl, rfl, rfl, rfl⟩
  | evict ev => cases ev <;> exact ⟨⟨rfl, rfl, rfl, rfl, rfl, rfl⟩, rfl, rfl, rfl, rfl, rfl⟩
  | _ => exact ⟨⟨rfl, rfl, rfl, rfl, rfl, rfl⟩, rfl, rfl, rfl, rfl, rfl⟩

/-- Among the background steps only the aggregate tick touches the aggregate maps. -/
theorem background_cases {e : Event n} (hbg : Background s (s.step args e)) :
    (∃ env, e = .aggTick env) ∨ MapsSame s (s.step args e) := by
  have hsame := buffersSame args s e
  cases e with
  | aggTick env => exact .inl ⟨env, rfl⟩
  | ret ctx =>
    -- a background return is one on a thread without open calls
    right
    simp only [step] at hbg ⊢
    cases hs : s.stack ctx.pidTgid with
    | nil =>
      rw [ret_nil hs]
      exact ⟨rfl, rfl, rfl, rfl, rfl, rfl⟩
    | cons call rest =>
      have hreturns := hbg.returns
      rw [ret_cons hs] at hreturns
      simp at hreturns
  | consume env =>
    right
    refine ⟨?_, ?_, ?_, rfl, rfl, rfl⟩ <;> simp only [step] <;> rw [consume_bpf]
  | _ => exact .inr (hsame rfl).toMapsSame

/-! ## Configuration -/

/-- The configuration a run keeps: the sampling rate and the launch modes. -/
structure ConfigOk (args : Args) (b : Bpf n) : Prop where
  sampleRate : b.sampleRate = if args.sampleRate > 1 then args.sampleRate else 0
  kernelAggMode : b.kernelAggMode = args.modeVal
  detailedLaunches : b.detailedLaunches = if args.detailedLaunches then 1 else 0

theorem configOk_init (args : Args) : ConfigOk args (Bpf.init n args) := ⟨rfl, rfl, rfl⟩

theorem configOk_step (h : ConfigOk args s.bpf) (e : Event n) :
    ConfigOk args (s.step args e).bpf := by
  obtain ⟨h₁, h₂, h₃⟩ := h
  rcases step_cases args s e with ⟨p, ctx, -, hstep⟩ | ⟨ctx, call, rest, -, -, hstep⟩ |
    ⟨ev, -, hstep⟩ | hbg
  · rw [hstep]
    simp only [enter]
    rw [Probe.enter_frame]
    exact ⟨h₁, h₂, h₃⟩
  · rw [hstep]
    rw [Probe.exit_frame]
    exact ⟨h₁, h₂, h₃⟩
  · rw [hstep]
    cases ev <;> exact ⟨h₁, h₂, h₃⟩
  · rw [hbg.bpf]
    exact ⟨h₁, h₂, h₃⟩

theorem ConfigOk.sampleRate_eq_zero {b : Bpf n} (h : ConfigOk args b)
    (hrate : args.sampleRate ≤ 1) : b.sampleRate = 0 := by
  rw [h.sampleRate, if_neg (by simpa using hrate)]

end Sys

/-- What a recorded call counts for, and its size is multiplied with. -/
def Args.sampleMul (args : Args) : U64 :=
  if args.sampleRate > 1 then args.sampleRate.setWidth 64 else 1

namespace Sys

theorem ConfigOk.sampleMul {b : Bpf n} (h : ConfigOk args b) : b.sampleMul = args.sampleMul := by
  unfold Bpf.sampleMul Args.sampleMul
  rw [h.sampleRate]
  by_cases hrate : args.sampleRate > 1
  · rw [if_pos hrate]
  · rw [if_neg hrate, if_neg hrate]
    rfl

/-- Without sampling every record stands for one call. -/
theorem ConfigOk.sampleMul_eq_one {b : Bpf n} (h : ConfigOk args b) (hrate : args.sampleRate ≤ 1) :
    b.sampleMul = 1 := by
  simp [Bpf.sampleMul, h.sampleRate_eq_zero hrate]

end Sys

end Profi
