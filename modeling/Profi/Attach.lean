import Profi.Bpf.State
import Profi.Discovery

/-!
# Attaching Probes

The probe lists of `src/main.rs`, the functions that attach them, the attach to the configured
runtime library at startup, and the requests of the discovery thread as the event loop serves them.
The kernel's answers are free: any probe may be refused.

An attempt that fails should leave everything as it was, so that a later scan can try again. The
code keeps the links made before the refusal, counts the configured library if its file is there,
gives up the event loop over an NCCL library, and never forgets that a library has been requested.
The last alone means that no failed attempt on a discovered library is without a trace.
-/

namespace Profi

/-! ## Probe Lists -/

/-- A program and the function it is attached to. -/
structure UprobeSpec where
  prog : String
  func : String
deriving DecidableEq, Repr

/-- `ProbeProfile`. -/
inductive ProbeProfile where
  | lean
  | full
deriving DecidableEq, Repr

/-- `probes_base`. -/
def probesBase : List UprobeSpec :=
  [⟨"cuda_malloc", "cudaMalloc"⟩, ⟨"cuda_malloc_ret", "cudaMalloc"⟩,
    ⟨"cuda_free", "cudaFree"⟩, ⟨"cuda_free_ret", "cudaFree"⟩,
    ⟨"cuda_memcpy", "cudaMemcpy"⟩, ⟨"cuda_memcpy_ret", "cudaMemcpy"⟩,
    ⟨"cuda_memcpy_async", "cudaMemcpyAsync"⟩, ⟨"cuda_memcpy_async_ret", "cudaMemcpyAsync"⟩,
    ⟨"cuda_launch_kernel", "cudaLaunchKernel"⟩, ⟨"cuda_launch_kernel_ret", "cudaLaunchKernel"⟩,
    ⟨"cuda_malloc_async", "cudaMallocAsync"⟩, ⟨"cuda_malloc_async_ret", "cudaMallocAsync"⟩,
    ⟨"cuda_free_async", "cudaFreeAsync"⟩, ⟨"cuda_free_async_ret", "cudaFreeAsync"⟩,
    ⟨"cuda_graph_launch", "cudaGraphLaunch"⟩, ⟨"cuda_graph_launch_ret", "cudaGraphLaunch"⟩,
    ⟨"cuda_graph_instantiate", "cudaGraphInstantiate"⟩,
    ⟨"cuda_graph_instantiate_ret", "cudaGraphInstantiate"⟩]

/-- `DIAGNOSTIC_ONLY_FN_NAMES`. -/
def diagnosticOnlyFnNames : List String :=
  ["cudaStreamSynchronize", "cudaEventSynchronize", "cudaMemsetAsync", "cudaMemset",
    "cudaMallocHost", "cudaFreeHost"]

/-- The entry and return probe of a diagnostic function. -/
def diagnosticProbes (fnName : String) : List UprobeSpec :=
  match fnName with
  | "cudaStreamSynchronize" => [⟨"cuda_stream_sync", fnName⟩, ⟨"cuda_stream_sync_ret", fnName⟩]
  | "cudaEventSynchronize" => [⟨"cuda_event_sync", fnName⟩, ⟨"cuda_event_sync_ret", fnName⟩]
  | "cudaMemsetAsync" => [⟨"cuda_memset_async", fnName⟩, ⟨"cuda_memset_async_ret", fnName⟩]
  | "cudaMemset" => [⟨"cuda_memset", fnName⟩, ⟨"cuda_memset_ret", fnName⟩]
  | "cudaMallocHost" => [⟨"cuda_malloc_host", fnName⟩, ⟨"cuda_malloc_host_ret", fnName⟩]
  | "cudaFreeHost" => [⟨"cuda_free_host", fnName⟩, ⟨"cuda_free_host_ret", fnName⟩]
  | _ => []

/-- The driver probes of both modes that trace kernels. -/
def driverLaunchProbes : List UprobeSpec :=
  [⟨"cu_launch_kernel", "cuLaunchKernel"⟩, ⟨"cu_launch_kernel_ret", "cuLaunchKernel"⟩,
    ⟨"cu_launch_kernel_ex", "cuLaunchKernelEx"⟩, ⟨"cu_launch_kernel_ex_ret", "cuLaunchKernelEx"⟩,
    ⟨"cu_launch_cooperative_kernel", "cuLaunchCooperativeKernel"⟩,
    ⟨"cu_launch_cooperative_kernel_ret", "cuLaunchCooperativeKernel"⟩,
    ⟨"cu_graph_launch", "cuGraphLaunch"⟩, ⟨"cu_graph_launch_ret", "cuGraphLaunch"⟩,
    ⟨"cu_module_load_data", "cuModuleLoadData"⟩, ⟨"cu_module_load_data_ret", "cuModuleLoadData"⟩]

/-- The three lists of probes that are attached one by one. -/
structure ProbeSets where
  probes : List UprobeSpec
  driverProbes : List UprobeSpec
  nvtxProbes : List UprobeSpec
deriving DecidableEq, Repr

/-- The lists `main` puts together. -/
def probeSets (kernelMode : KernelMode) (probeProfile : ProbeProfile) : ProbeSets where
  probes := probesBase ++
    (if kernelMode = .full then [⟨"cuda_register_function", "__cudaRegisterFunction"⟩] else []) ++
    (if probeProfile = .full then diagnosticOnlyFnNames.flatMap diagnosticProbes else [])
  driverProbes :=
    match kernelMode with
    | .full =>
      ⟨"cu_module_get_function", "cuModuleGetFunction"⟩ ::
        ⟨"cu_module_get_function_ret", "cuModuleGetFunction"⟩ :: driverLaunchProbes
    | .anonymous => driverLaunchProbes
    | .off => []
  nvtxProbes := [⟨"nvtx_range_push", "nvtxRangePushA"⟩, ⟨"nvtx_range_pop", "nvtxRangePop"⟩]

/-- The program names `attach_uprobe` knows. -/
def bpfPrograms : List String :=
  ["cuda_malloc", "cuda_malloc_ret", "cuda_free", "cuda_free_ret", "cuda_memcpy",
    "cuda_memcpy_ret", "cuda_memcpy_async", "cuda_memcpy_async_ret", "cuda_launch_kernel",
    "cuda_launch_kernel_ret", "cuda_malloc_async", "cuda_malloc_async_ret", "cuda_free_async",
    "cuda_free_async_ret", "cuda_register_function", "cu_module_get_function",
    "cu_module_get_function_ret", "cu_launch_kernel", "cu_launch_kernel_ret",
    "cu_launch_kernel_ex", "cu_launch_kernel_ex_ret", "cu_launch_cooperative_kernel",
    "cu_launch_cooperative_kernel_ret", "cu_graph_launch", "cu_graph_launch_ret",
    "cuda_stream_sync", "cuda_stream_sync_ret", "cuda_event_sync", "cuda_event_sync_ret",
    "cuda_malloc_host", "cuda_malloc_host_ret", "cuda_free_host", "cuda_free_host_ret",
    "cuda_memset", "cuda_memset_ret", "cuda_memset_async", "cuda_memset_async_ret",
    "cuda_graph_launch", "cuda_graph_launch_ret", "cuda_graph_instantiate",
    "cuda_graph_instantiate_ret", "cu_module_load_data", "cu_module_load_data_ret",
    "nvtx_range_push", "nvtx_range_pop", "nccl_all_reduce", "nccl_all_reduce_ret",
    "nccl_all_gather", "nccl_all_gather_ret", "nccl_reduce_scatter", "nccl_reduce_scatter_ret",
    "nccl_broadcast", "nccl_broadcast_ret", "nccl_send", "nccl_send_ret", "nccl_recv",
    "nccl_recv_ret"]

/-! ## Attaching -/

/-- A live link of a program to functions of a file. -/
structure Link where
  prog : String
  funcs : List String
  path : List Char
  retprobe : Bool
deriving DecidableEq, Repr

/-- `attach_uprobe`; `answer` is the kernel's. -/
def attachUprobe (answer : Bool) (binaryPath : List Char) (p : UprobeSpec) : Except String Link :=
  if p.prog ∈ bpfPrograms then
    if answer then
      .ok
        { prog := p.prog
          funcs := [p.func]
          path := binaryPath
          retprobe := decide ("_ret".toList <:+ p.prog.toList) }
    else
      .error ("attach " ++ p.prog ++ " (" ++ p.func ++ ") → " ++ String.ofList binaryPath)
  else .error ("unknown BPF program: " ++ p.prog)

/-- One `uprobe_multi` attach: a program on several functions at once. -/
structure MultiProbe where
  prog : String
  syms : List String
  cookies : List EventType
  retprobe : Bool
  /-- What the error message calls it. -/
  what : String
deriving DecidableEq, Repr

/-- The attaches of `attach_nccl_probes_multi`. -/
def ncclMultiProbes : List MultiProbe :=
  [{ prog := "nccl_count_dtype_3_4"
     syms := ["ncclAllReduce", "ncclAllGather", "ncclReduceScatter", "ncclBroadcast"]
     cookies := [.ncclAllReduce, .ncclAllGather, .ncclReduceScatter, .ncclBroadcast]
     retprobe := false
     what := "NCCL uprobe_multi count/datatype args 3/4" },
   { prog := "nccl_count_dtype_2_3"
     syms := ["ncclSend", "ncclRecv"]
     cookies := [.ncclSend, .ncclRecv]
     retprobe := false
     what := "NCCL uprobe_multi count/datatype args 2/3" },
   { prog := "nccl_multi_ret"
     syms := ["ncclAllReduce", "ncclAllGather", "ncclReduceScatter", "ncclBroadcast", "ncclSend",
       "ncclRecv"]
     cookies := []
     retprobe := true
     what := "NCCL return uprobe_multi" }]

/-- `attach_uprobe_multi_with_opts`, with the context the caller adds to an error. -/
def attachUprobeMulti (answer : Bool) (binaryPath : List Char) (p : MultiProbe) :
    Except String Link :=
  if answer then
    .ok { prog := p.prog, funcs := p.syms, path := binaryPath, retprobe := p.retprobe }
  else
    .error ("attach " ++ p.what ++ " to " ++ String.ofList binaryPath ++
      " (Linux >= 6.6 required)")

/-- The loop all attaches share: push link after link, until one fails. The kernel is asked for the
    `k`-th. -/
def attachAll {α : Type} (attach : ℕ → α → Except String Link) :
    ℕ → List α → List Link → Except String Unit × List Link
  | _, [], links => (.ok (), links)
  | k, p :: ps, links =>
    match attach k p with
    | .ok link => attachAll attach (k + 1) ps (links ++ [link])
    | .error e => (.error e, links)

/-- `attach_probes`: the number of links made. -/
def attachProbes (answer : ℕ → Bool) (links : List Link) (probes : List UprobeSpec)
    (binaryPath : List Char) : Except String ℕ × List Link :=
  let r := attachAll (fun k => attachUprobe (answer k) binaryPath) 0 probes links
  (r.1.map fun _ => r.2.length - links.length, r.2)

/-- `attach_nccl_probes_multi`. -/
def attachNcclProbesMulti (answer : ℕ → Bool) (links : List Link) (binaryPath : List Char) :
    Except String ℕ × List Link :=
  let r := attachAll (fun k => attachUprobeMulti (answer k) binaryPath) 0 ncclMultiProbes links
  (r.1.map fun _ => r.2.length - links.length, r.2)

section AttachAll

variable {α : Type} {attach : ℕ → α → Except String Link}

/-- No item of the list is refused when its turn comes. -/
def AllAttach (attach : ℕ → α → Except String Link) : ℕ → List α → Prop
  | _, [] => True
  | k, p :: ps => (∃ link, attach k p = .ok link) ∧ AllAttach attach (k + 1) ps

/-- The very first item is refused. -/
def FirstRefused (attach : ℕ → α → Except String Link) (k : ℕ) (ps : List α) : Prop :=
  ∃ p ∈ ps.head?, ∃ e, attach k p = .error e

theorem attachAll_ok_iff {k : ℕ} {ps : List α} (links : List Link) :
    (attachAll attach k ps links).1 = .ok () ↔ AllAttach attach k ps := by
  induction ps generalizing k links with
  | nil => simp [attachAll, AllAttach]
  | cons p ps ih =>
    unfold attachAll AllAttach
    cases h : attach k p with
    | ok link => simp [ih]
    | error e => simp

/-- Links are only ever added. -/
theorem prefix_attachAll (attach : ℕ → α → Except String Link) (k : ℕ) (ps : List α)
    (links : List Link) :
    links <+: (attachAll attach k ps links).2 := by
  induction ps generalizing k links with
  | nil => exact List.prefix_rfl
  | cons p ps ih =>
    unfold attachAll
    cases attach k p with
    | ok link => exact (List.prefix_append _ _).trans (ih (k + 1) (links ++ [link]))
    | error e => exact List.prefix_rfl

/-- A failed attempt leaves the links alone exactly if it fails at once. -/
theorem attachAll_links_eq_iff {k : ℕ} {ps : List α} {links : List Link}
    (hfail : ¬ AllAttach attach k ps) :
    (attachAll attach k ps links).2 = links ↔ FirstRefused attach k ps := by
  cases ps with
  | nil => exact absurd trivial hfail
  | cons p ps =>
    unfold attachAll FirstRefused
    cases h : attach k p with
    | ok link =>
      simp only [List.head?_cons, Option.mem_some_iff, exists_eq_left', h, reduceCtorEq,
        exists_false, iff_false]
      intro heq
      -- one link was made, and the rest of the loop takes none back
      have hlen := (prefix_attachAll attach (k + 1) ps (links ++ [link])).length_le
      rw [heq, List.length_append, List.length_singleton] at hlen
      omega
    | error e => simp [h]

end AttachAll

/-! ## Startup and Event Loop -/

/-- What the attaching code is configured with. -/
structure AttachConfig where
  sets : ProbeSets
  cudart : List Char
  procPath : List Char
  enableNvtxTracing : Bool

/-- What `main` meets on its way to the event loop. -/
structure StartEnv where
  /-- The configured file exists when it is to be attached to. -/
  existsBefore : Bool
  /-- The kernel's answers. -/
  answer : ℕ → Bool
  /-- The file's metadata after a successful attach. -/
  metadata : Option DevInode
  /-- The file exists when `libs_attached` is set up. -/
  existsAfter : Bool

/-- The links, the requests in the channel, the count of libraries and the two threads. -/
structure AttachSys where
  links : List Link
  libsAttached : ℕ
  /-- The event loop has not been left. -/
  running : Bool
  channel : List AttachRequest
  discovery : Discovery

/-- What happens: a step of the discovery thread, the next request with the kernel's answers, or the
    end of the loop for other reasons. -/
inductive AttachEvent where
  | discovery (e : DiscoveryEvent)
  | handle (answer : ℕ → Bool)
  | stop

namespace AttachSys

/-- The attach at startup: the links and `initial_attached_cuda`. -/
def initialAttach (cfg : AttachConfig) (env : StartEnv) : List Link × Finset DevInode :=
  if env.existsBefore then
    match attachProbes env.answer [] cfg.sets.probes cfg.cudart with
    | (.ok _, links) => (links, env.metadata.toFinset)
    -- the links made before the refusal stay
    | (.error _, links) => (links, ∅)
  else ([], ∅)

/-- The state in which the event loop starts. -/
def start (cfg : AttachConfig) (env : StartEnv) : AttachSys where
  links := (initialAttach cfg env).1
  -- whether the file is there decides, not whether it could be attached to
  libsAttached := if env.existsAfter then 1 else 0
  running := true
  channel := []
  discovery := .init fun l => if l = .cudart then (initialAttach cfg env).2 else ∅

/-- The probes of a requested library other than NCCL. -/
def probeset (cfg : AttachConfig) (lib : String) : List UprobeSpec :=
  match Library.ofName? lib with
  | some .cudart => cfg.sets.probes
  | some .driver => cfg.sets.driverProbes
  | some .nvtx => if cfg.enableNvtxTracing then cfg.sets.nvtxProbes else []
  | _ => []

/-- The arm of the event loop that serves a request. -/
def handleRequest (cfg : AttachConfig) (answer : ℕ → Bool) (req : AttachRequest)
    (s : AttachSys) : AttachSys :=
  if req.lib = Library.nccl.name then
    match attachNcclProbesMulti answer s.links req.hostPath with
    | (.ok _, links) => { s with links, libsAttached := s.libsAttached + 1 }
    -- `break`
    | (.error _, links) => { s with links, running := false }
  else
    match attachAll (fun k => attachUprobe (answer k) req.hostPath) 0 (probeset cfg req.lib)
      s.links with
    | (.ok _, links) => { s with links, libsAttached := s.libsAttached + 1 }
    | (.error _, links) => { s with links }

/-- One step. While the loop runs, its end of the channel is open. -/
def step (cfg : AttachConfig) (s : AttachSys) : AttachEvent → AttachSys
  | .discovery e =>
    let e :=
      match e with
      | .next receiving => .next (receiving || s.running)
      | .scan knownPids snapshot order => .scan knownPids snapshot order
    let discovery := s.discovery.step cfg.procPath cfg.enableNvtxTracing e
    { s with discovery, channel := s.channel ++ discovery.sent.drop s.discovery.sent.length }
  | .handle answer =>
    if s.running then
      match s.channel with
      | [] => s
      | req :: channel => { s with channel }.handleRequest cfg answer req
    else s
  | .stop => { s with running := false }

end AttachSys

/-! ## Traces of Failed Attempts -/

/-- The kernel takes all probes of a request. -/
def AttachRequest.Attaches (cfg : AttachConfig) (answer : ℕ → Bool) (req : AttachRequest) : Prop :=
  if req.lib = Library.nccl.name then
    AllAttach (fun k => attachUprobeMulti (answer k) req.hostPath) 0 ncclMultiProbes
  else
    AllAttach (fun k => attachUprobe (answer k) req.hostPath) 0 (AttachSys.probeset cfg req.lib)

namespace AttachSys

/-- The request that an event has the loop serve. -/
def served (s : AttachSys) : AttachEvent → Option ((ℕ → Bool) × AttachRequest)
  | .handle answer => if s.running then s.channel.head?.map fun req => (answer, req) else none
  | _ => none

/-- If the event is an attempt that fails, the links, the count and the loop are as before it, and
    the file is not recorded as attached. -/
def NoTrace (cfg : AttachConfig) (s : AttachSys) (e : AttachEvent) : Prop :=
  ∀ answer req, s.served e = some (answer, req) → ¬ req.Attaches cfg answer →
    (s.step cfg e).links = s.links ∧ (s.step cfg e).libsAttached = s.libsAttached ∧
      (s.step cfg e).running = true ∧
      ∀ l : Library, req.lib = l.name → req.devinode ∉ (s.step cfg e).discovery.attached l

/-- If the event is an attempt, it succeeds. -/
def Succeeds (cfg : AttachConfig) (s : AttachSys) (e : AttachEvent) : Prop :=
  ∀ answer req, s.served e = some (answer, req) → req.Attaches cfg answer

/-- The attempt at startup is made and fails. -/
def StartFails (cfg : AttachConfig) (env : StartEnv) : Prop :=
  env.existsBefore = true ∧
    ¬ AllAttach (fun k => attachUprobe (env.answer k) cfg.cudart) 0 cfg.sets.probes

/-- If the attempt at startup fails, there are no links, no library is counted, and none is recorded
    as attached. -/
def StartNoTrace (cfg : AttachConfig) (env : StartEnv) : Prop :=
  StartFails cfg env →
    (start cfg env).links = [] ∧ (start cfg env).libsAttached = 0 ∧
      (start cfg env).running = true ∧ ∀ l, (start cfg env).discovery.attached l = ∅

/-- What an attempt at startup leaves that fails: the links made so far, and nothing recorded. -/
theorem initialAttach_of_fails {cfg : AttachConfig} {env : StartEnv} (h : StartFails cfg env) :
    initialAttach cfg env =
      ((attachAll (fun k => attachUprobe (env.answer k) cfg.cudart) 0 cfg.sets.probes []).2,
        ∅) := by
  obtain ⟨hexists, hfail⟩ := h
  rw [← attachAll_ok_iff []] at hfail
  unfold initialAttach attachProbes
  rw [if_pos hexists]
  dsimp only
  cases hr : (attachAll (fun k => attachUprobe (env.answer k) cfg.cudart) 0
      cfg.sets.probes []).1 with
  | ok u => exact absurd hr hfail
  | error e => rfl

/-- At startup there is no trace exactly if the first probe is refused and the file is gone when the
    count is set up. -/
theorem startNoTrace_iff (cfg : AttachConfig) (env : StartEnv) :
    StartNoTrace cfg env ↔
      (StartFails cfg env →
        FirstRefused (fun k => attachUprobe (env.answer k) cfg.cudart) 0 cfg.sets.probes ∧
          env.existsAfter = false) := by
  refine forall_congr' fun hfails => ?_
  unfold start
  rw [initialAttach_of_fails hfails]
  rw [attachAll_links_eq_iff hfails.2]
  refine and_congr_right fun _ => ?_
  constructor
  · rintro ⟨hcount, -⟩
    cases hafter : env.existsAfter with
    | false => rfl
    | true =>
      rw [hafter] at hcount
      cases hcount
  · intro hafter
    refine ⟨by rw [hafter]; rfl, rfl, fun l => ?_⟩
    exact ite_self _

/-! ### Requests Stay Recorded -/

/-- The thread has recorded what it has requested, and what is in the channel it has requested. -/
structure Recorded (initial : Library → Finset DevInode) (s : AttachSys) : Prop where
  once : s.discovery.Once initial
  channel : s.channel ⊆ s.discovery.sent

theorem handleRequest_discovery (cfg : AttachConfig) (answer : ℕ → Bool) (req : AttachRequest)
    (s : AttachSys) : (s.handleRequest cfg answer req).discovery = s.discovery := by
  unfold handleRequest
  split <;> split <;> rfl

theorem handleRequest_channel (cfg : AttachConfig) (answer : ℕ → Bool) (req : AttachRequest)
    (s : AttachSys) : (s.handleRequest cfg answer req).channel = s.channel := by
  unfold handleRequest
  split <;> split <;> rfl

variable {initial : Library → Finset DevInode} {s : AttachSys}

theorem recorded_start (cfg : AttachConfig) (env : StartEnv) :
    ∃ initial, Recorded initial (start cfg env) :=
  ⟨_, Discovery.once_init _, List.nil_subset _⟩

/-- What is in the channel has been asked for once. -/
theorem Recorded.step (h : s.Recorded initial) (cfg : AttachConfig) (e : AttachEvent) :
    (s.step cfg e).Recorded initial := by
  cases e with
  | discovery e =>
    refine ⟨h.once.step _ _ _, ?_⟩
    apply List.append_subset.mpr
    constructor
    · exact List.Subset.trans h.channel (Discovery.sent_subset_step _ _ _ _)
    · exact List.drop_subset _ _
  | handle answer =>
    unfold AttachSys.step
    dsimp only
    split
    · split
      · exact h
      next req rest hchannel =>
        constructor
        · rw [handleRequest_discovery]
          exact h.once
        · rw [handleRequest_discovery, handleRequest_channel]
          intro r hr
          apply h.channel
          rw [hchannel]
          exact List.mem_cons_of_mem req hr
    · exact h
  | stop => exact ⟨h.once, h.channel⟩

/-- The request an event serves is recorded, and serving it does not change that. -/
theorem Recorded.served_attached (h : s.Recorded initial) (cfg : AttachConfig) {e : AttachEvent}
    {answer : ℕ → Bool} {req : AttachRequest} (hserved : s.served e = some (answer, req)) :
    ∃ l : Library, req.lib = l.name ∧ req.devinode ∈ (s.step cfg e).discovery.attached l := by
  cases e with
  | discovery e => cases hserved
  | stop => cases hserved
  | handle answer' =>
    unfold served at hserved
    dsimp only at hserved
    split at hserved
    next hrunning =>
      cases hchannel : s.channel with
      | nil =>
        rw [hchannel] at hserved
        cases hserved
      | cons head rest =>
        rw [hchannel] at hserved
        cases hserved
        have hsent : req ∈ s.discovery.sent := by
          apply h.channel
          rw [hchannel]
          exact List.mem_cons_self
        obtain ⟨l, hl, hattached, -⟩ := h.once.recorded req hsent
        refine ⟨l, hl, ?_⟩
        unfold AttachSys.step
        dsimp only
        rw [if_pos hrunning, hchannel]
        rw [handleRequest_discovery]
        exact hattached
    · cases hserved

/-- So an attempt on a discovered library leaves no trace exactly if it does not fail. -/
theorem Recorded.noTrace_iff_succeeds (h : s.Recorded initial) (cfg : AttachConfig)
    (e : AttachEvent) : s.NoTrace cfg e ↔ s.Succeeds cfg e := by
  constructor
  · intro hnoTrace answer req hserved
    -- a failed attempt would find its file recorded still
    by_contra hfails
    obtain ⟨l, hl, hattached⟩ := h.served_attached cfg hserved
    obtain ⟨-, -, -, hforgotten⟩ := hnoTrace answer req hserved hfails
    exact hforgotten l hl hattached
  · intro hsucceeds answer req hserved hfails
    exact absurd (hsucceeds answer req hserved) hfails

/-- Failed attempts leave no trace in a run exactly if the one at startup, should it fail, fails
    with its first probe and finds the file gone afterwards, and no attempt on a discovered library
    fails. -/
theorem noTrace_run_iff (cfg : AttachConfig) (env : StartEnv) (es : List AttachEvent) :
    (StartNoTrace cfg env ∧ Runs.Along (step cfg) (NoTrace cfg) (start cfg env) es) ↔
      (StartFails cfg env →
        FirstRefused (fun k => attachUprobe (env.answer k) cfg.cudart) 0 cfg.sets.probes ∧
          env.existsAfter = false) ∧
      Runs.Along (step cfg) (Succeeds cfg) (start cfg env) es := by
  rw [startNoTrace_iff]
  refine and_congr_right fun _ => ?_
  obtain ⟨initial, hstart⟩ := recorded_start cfg env
  exact Runs.along_iff_of_invariant (P := fun _ _ => True) (I := Recorded initial)
    (fun s e h _ => h.step cfg e) (fun s e h _ => h.noTrace_iff_succeeds cfg e) hstart
    (Runs.along_true _ _ es)

/-! ### A Refused Return Probe -/

/-- `main` with its own probe lists, for anonymous kernels and the lean profile. -/
def defaultConfig : AttachConfig where
  sets := probeSets .anonymous .lean
  cudart := "/usr/lib/libcudart.so".toList
  procPath := "/proc".toList
  enableNvtxTracing := false

/-- The kernel takes the first probe and refuses the second. -/
def refuseSecond (k : ℕ) : Bool := k == 0

/-- Process 7 has mapped a library. -/
def mappedBy7 (library : String) : ProcSnapshot :=
  some [⟨"7".toList, some [some
    ⟨"7f00-7f01 r-xp 00000000 08:01 42 /".toList ++ library.toList ++ "\n".toList,
      fun _ => true⟩]⟩]

/-- A library is found, requested and not attached, and the process is scanned once more. -/
def refusedLibrary (library : String) : List AttachEvent :=
  [.discovery (.scan ∅ (mappedBy7 library) (.asListed _)), .discovery (.next true),
    .handle refuseSecond, .discovery (.scan {7} (mappedBy7 library) (.asListed _)),
    .discovery (.next true)]

/-- With the return probe of `cudaMalloc` refused, its entry probe stays: at startup, where the
    library is counted as well, and after discovery, where it is never requested again. A refused
    probe of NCCL ends the event loop. -/
theorem refused_return_probe :
    (start defaultConfig ⟨true, refuseSecond, none, true⟩).links =
      [⟨"cuda_malloc", ["cudaMalloc"], "/usr/lib/libcudart.so".toList, false⟩] ∧
    (start defaultConfig ⟨true, refuseSecond, none, true⟩).libsAttached = 1 ∧
    (Runs.run (step defaultConfig) (start defaultConfig ⟨false, refuseSecond, none, false⟩)
      (refusedLibrary "libcudart.so")).links =
      [⟨"cuda_malloc", ["cudaMalloc"], "/proc/7/root/libcudart.so".toList, false⟩] ∧
    (Runs.run (step defaultConfig) (start defaultConfig ⟨false, refuseSecond, none, false⟩)
      (refusedLibrary "libcudart.so")).discovery.attached .cudart =
      {⟨makedev 8 1, 42⟩} ∧
    (Runs.run (step defaultConfig) (start defaultConfig ⟨false, refuseSecond, none, false⟩)
      (refusedLibrary "libcudart.so")).discovery.sent.length = 1 ∧
    (Runs.run (step defaultConfig) (start defaultConfig ⟨false, refuseSecond, none, false⟩)
      (refusedLibrary "libnccl.so")).running = false := by
  decide +kernel

end AttachSys

end Profi
