import Profi.Eviction
import Profi.Symbols
import Profi.Lib.Fallible

/-!
# Names from the Resolver Thread

The event loop asks for the names of launched kernels and does not wait: requests and answers go
through two unbounded channels, and the resolver thread takes one request after the other in its
own time. The gc tick reads the answers and tells the resolver which processes it has evicted.

The two parties are one step function here. A step of the resolver takes its next request; the
other steps are those of the system, with the requests its records make. Names do not reach the
loop otherwise, so a `nameKernel` event does nothing.

A process that is evicted may still be asked for in the request channel. The answer comes in at a
later gc tick and is entered like any other (`NameSys.late_name`).
-/

namespace Profi

variable {n : ℕ}

/-- `SymRequest`. -/
inductive SymRequest where
  | resolve (pid : U32) (addr : U64)
  | evictPids (pids : List U32)
  deriving DecidableEq

/-- An answer of the resolver. -/
abbrev SymResult := U32 × U64 × String

/-- The system with its resolver thread. `gone` is a record for specifications, of the processes
    that were evicted and had no event since. -/
structure NameSys (n : ℕ) where
  sys : Sys n
  pendingResolve : Finset (U32 × U64)
  requests : List SymRequest
  results : List SymResult
  resolver : SymbolResolver
  panicked : Bool
  gone : Finset U32

inductive NameEvent (n : ℕ) where
  | sys (e : Event n)
  | resolver (fs : ProcFs)

/-- The kernel a record wants named. Ring events only ask in full kernel mode, drained launches in
    every mode. -/
def Record.launched (args : Args) : Record → Option (U32 × U64)
  | .ring event =>
    if args.kernelMode = .full ∧ event.eventType = .cudaLaunchKernel ∧ event.addr ≠ 0 then
      some (event.pid, event.addr)
    else none
  | .launch key perCpu =>
    if (Record.launch key perCpu).count ≠ 0 ∧ key.hostFun ≠ 0 then some (key.pid, key.hostFun)
    else none
  | .aggregated _ _ => none
  | .nccl _ _ => none

/-- `name.starts_with("unknown_")`. -/
def isUnknown (name : String) : Bool := "unknown_".toList.isPrefixOf name.toList

/-- The names a gc tick enters, normalized. A name that cannot be normalized panics. -/
def knownNames (table : CharTable) (results : List SymResult) : Except NameFault (List SymResult) :=
  (results.filter fun r => !isUnknown r.2.2).mapM fun r => do
    let name ← normalizeKernelName table r.2.2
    return (r.1, r.2.1, name)

namespace NameSys

variable (args : Args) (table : CharTable)

def init (n : ℕ) (procPath : String) : NameSys n where
  sys := .init n args
  pendingResolve := ∅
  requests := []
  results := []
  resolver := .new procPath
  panicked := false
  gone := ∅

/-- Ask for the kernel of a record, unless it is named or asked for. The channel only exists in
    full kernel mode. -/
def askName (kernelNames : KernelNames) (x : Finset (U32 × U64) × List SymRequest) (r : Record) :
    Finset (U32 × U64) × List SymRequest :=
  match r.launched args with
  | some k =>
    if k ∉ kernelNames ∧ k ∉ x.1 then
      (insert k x.1, if args.kernelMode = .full then x.2 ++ [.resolve k.1 k.2] else x.2)
    else x
  | none => x

/-- A step of the system other than a gc tick. The records of an arm do not name kernels, so they
    all look at the names from before it. -/
def sysStep (s : NameSys n) (e : Event n) : NameSys n :=
  let asked := (s.sys.records args e).foldl (askName args s.sys.loop.kernelNames)
    (s.pendingResolve, s.requests)
  { s with
    sys := s.sys.step args e
    pendingResolve := asked.1
    requests := asked.2
    gone := s.sys.nextGone args e s.gone }

/-- The system when a gc tick has entered the names. -/
def named (s : NameSys n) (names : List SymResult) : Sys n :=
  Runs.run (Sys.step args) s.sys (names.map fun r => .nameKernel r.1 r.2.1 r.2.2)

/-- The gc tick: the answers are entered before the stale processes are evicted. -/
def gcTick (s : NameSys n) (env : LoopEnv) : NameSys n :=
  match knownNames table s.results with
  | .error _ => { s with panicked := true }
  | .ok names =>
    let sys := s.named args names
    let stale := sys.evictedPids args (.gcTick env)
    let pending := s.pendingResolve \ (s.results.map fun r => (r.1, r.2.1)).toFinset
    let notice := if stale ≠ [] ∧ args.kernelMode = .full then [.evictPids stale] else []
    { s with
      sys := sys.step args (.gcTick env)
      pendingResolve := pending.filter fun k => k.1 ∉ stale
      requests := s.requests ++ notice
      results := []
      gone := sys.nextGone args (.gcTick env) s.gone }

/-- The resolver thread takes its next request. -/
def resolverStep (s : NameSys n) (fs : ProcFs) : NameSys n :=
  match s.requests with
  | [] => s
  | .resolve pid addr :: requests =>
    let (name, resolver) := s.resolver.resolve fs pid addr
    { s with requests, resolver, results := s.results ++ [(pid, addr, name)] }
  | .evictPids pids :: requests => { s with requests, resolver := s.resolver.evictPids pids }

def step (s : NameSys n) : NameEvent n → NameSys n
  | .resolver fs => s.resolverStep fs
  | .sys e =>
    if s.panicked then s
    else
      match e with
      | .gcTick env => s.gcTick args table env
      | .nameKernel _ _ _ => s
      | e => s.sysStep args e

/-- No kernel of a process that is gone has a name. -/
def NoNames (s : NameSys n) : Prop := ∀ p ∈ s.gone, ∀ addr, (p, addr) ∉ s.sys.loop.kernelNames

/-- A gc tick reads no name of a process that is gone. -/
def NoLateName (s : NameSys n) : NameEvent n → Prop
  | .sys (.gcTick _) =>
    s.panicked = false → ∀ names, knownNames table s.results = .ok names →
      ∀ r ∈ names, r.1 ∉ s.gone
  | _ => True

/-- The processes a gc tick evicts are not asked for in the request channel. -/
def NoneAsked (s : NameSys n) : NameEvent n → Prop
  | .sys (.gcTick env) => ∀ p ∈ s.sys.evictedPids args (.gcTick env), ∀ addr,
      SymRequest.resolve p addr ∉ s.requests
  | _ => True

/-! ## Where names come from -/

variable {args table} {s : NameSys n}
variable {env : LoopEnv} {names : List SymResult}

/-- A batch only names kernels of its registrations. -/
theorem mem_kernelNames_registrations {regs : List KernelRegEvent} {l : Loop} {k : U32 × U64}
    (h : k ∈ (regs.foldl (Loop.registerKernel env) l).kernelNames) :
    k ∈ l.kernelNames ∨ ∃ reg ∈ regs, k.1 = reg.pid := by
  refine Runs.foldl_origin (I := fun l : Loop => k ∈ l.kernelNames) (fun l reg h => ?_) h
  unfold Loop.registerKernel at h
  split at h
  · exact .inl h
  · split at h
    · rcases (AList.mem_insert _).mp h with rfl | hl
      · exact .inr rfl
      · exact .inl hl
    · exact .inl h

/-- A step other than a gc tick only names kernels of processes it has events of. -/
theorem mem_kernelNames_step {s : Sys n} {e : Event n} (hname : ∀ p a x, e ≠ .nameKernel p a x)
    (hgc : ∀ env, e ≠ .gcTick env) {k : U32 × U64} (h : k ∈ (s.step args e).loop.kernelNames) :
    k ∈ s.loop.kernelNames ∨ k.1 ∈ s.processed args e := by
  rw [s.step_loop] at h
  -- neither the start of an arm nor its records name a kernel
  have hstart : (s.armStart args e).kernelNames = s.loop.kernelNames := by
    cases e with
    | consume env =>
      show (s.loop.invalidateChanged env).kernelNames = _
      rw [Loop.invalidateChanged_eq]
    | aggTick env => rw [Sys.armStart_aggTick]
    | gcTick env => exact absurd rfl (hgc env)
    | _ => rfl
  have hhandled : (s.handled args e).1.kernelNames = s.loop.kernelNames :=
    (Loop.foldl_processRecord_frame args e.env _ _).2.2.trans hstart
  cases e with
  | consume env =>
    rcases mem_kernelNames_registrations h with hk | ⟨reg, hreg, hk⟩
    · exact .inl (hhandled ▸ hk)
    · exact .inr (hk ▸ Sys.mem_processed_of_registration hreg)
  | aggTick env =>
    have hflush : ((s.handled args (.aggTick env)).1.flushActiveMemory env
        (s.handled args (.aggTick env)).2).kernelNames =
          (s.handled args (.aggTick env)).1.kernelNames :=
      Runs.foldl_frame (fun l : Loop => l.kernelNames)
        (fun l (e : (_ : U32) × I64) => l.addActiveMemory env e.1 e.2) (fun _ _ => rfl) _ _
    change k ∈ ((s.handled args (.aggTick env)).1.flushActiveMemory env _).kernelNames at h
    rw [hflush, hhandled] at h
    exact .inl h
  | nameKernel p a x => exact absurd rfl (hname p a x)
  | gcTick env => exact absurd rfl (hgc env)
  | _ => exact .inl h

/-- A gc tick takes the names of the processes it evicts. -/
theorem mem_kernelNames_gcTick {s : Sys n} {k : U32 × U64} :
    k ∈ (s.step args (.gcTick env)).loop.kernelNames ↔
      k ∈ s.loop.kernelNames ∧ k.1 ∉ s.evictedPids args (.gcTick env) := by
  have hstale : (s.loop.cache.gc s.loop.metrics env.now (args.gcInterval * 1000000000)).1 =
      s.evictedPids args (.gcTick env) := Cache.gc_stalePids _ _ _ _
  show k ∈ (s.loop.gcTick args env).kernelNames ↔ _
  unfold Loop.gcTick
  simp only [hstale]
  rw [FinMap.mem_iff_lookup, FinMap.mem_iff_lookup, FinMap.lookup_foldl_erase]
  by_cases hk : k.1 ∈ s.evictedPids args (.gcTick env)
  · by_cases hmem : k ∈ s.loop.kernelNames.keys
    · simp [hk, hmem]
    · have hnone : s.loop.kernelNames.lookup k = none := AList.lookup_eq_none.mpr hmem
      simp [hk, hnone]
  · simp [hk]

theorem named_loop (s : NameSys n) (names : List SymResult) :
    (s.named args names).loop =
      { s.sys.loop with
        kernelNames :=
          names.foldl (fun m r => m.insert (r.1, r.2.1) r.2.2) s.sys.loop.kernelNames } := by
  unfold named
  generalize s.sys = sys
  induction names generalizing sys with
  | nil => rfl
  | cons r names ih => exact ih (sys.step args (.nameKernel r.1 r.2.1 r.2.2))

theorem mem_foldl_insert {m : KernelNames} {k : U32 × U64} :
    k ∈ names.foldl (fun m r => m.insert (r.1, r.2.1) r.2.2) m ↔
      k ∈ m ∨ ∃ r ∈ names, k = (r.1, r.2.1) := by
  induction names generalizing m with
  | nil => simp
  | cons r names ih =>
    rw [List.foldl_cons, ih, AList.mem_insert]
    simp only [List.mem_cons, exists_eq_or_imp]
    tauto

theorem mem_named {k : U32 × U64} :
    k ∈ (s.named args names).loop.kernelNames ↔
      k ∈ s.sys.loop.kernelNames ∨ ∃ r ∈ names, k = (r.1, r.2.1) := by
  rw [named_loop]
  exact mem_foldl_insert

/-! ## One step -/

theorem processed_gcTick (s : Sys n) (env : LoopEnv) : s.processed args (.gcTick env) = [] := rfl

theorem unseen_named (h : s.sys.Unseen s.gone) (names : List SymResult) :
    (s.named args names).Unseen s.gone := by
  intro p hp
  rw [named_loop]
  exact h p hp

theorem unseen_step (h : s.sys.Unseen s.gone) (e : NameEvent n) :
    (s.step args table e).sys.Unseen (s.step args table e).gone := by
  cases e with
  | resolver fs =>
    simp only [step, resolverStep]
    split <;> exact h
  | sys e =>
    simp only [step]
    split
    · exact h
    · split
      next env =>
        unfold gcTick
        split
        · exact h
        · exact Sys.unseen_step (unseen_named h _) _
      · exact h
      · exact Sys.unseen_step h e

/-- The names a gc tick leaves are those it found and read, but for the processes it evicts. A
    process that is gone is not evicted, so what it is given stays. -/
theorem noNames_gcTick (hunseen : s.sys.Unseen s.gone) (h : s.NoNames)
    (hnames : knownNames table s.results = .ok names) (env : LoopEnv) :
    (s.gcTick args table env).NoNames ↔ ∀ r ∈ names, r.1 ∉ s.gone := by
  have hnamed : (s.named args names).Unseen s.gone := unseen_named hunseen names
  unfold gcTick NoNames
  rw [hnames]
  simp only [Sys.mem_nextGone, mem_kernelNames_gcTick, mem_named, processed_gcTick,
    List.not_mem_nil, not_false_eq_true, and_true]
  constructor
  · intro hall r hr hgone
    exact hall r.1 (.inl hgone) r.2.1
      ⟨.inr ⟨r, hr, rfl⟩, Sys.not_evicted_of_unseen hnamed hgone _⟩
  · rintro hnone p hp addr ⟨hk, hstays⟩
    have hgone : p ∈ s.gone := hp.resolve_right hstays
    rcases hk with hk | ⟨r, hr, hk⟩
    · exact h p hgone addr hk
    · exact hnone r hr ((Prod.mk.inj hk).1 ▸ hgone)

/-- In the other steps a process is only given names if it has an event, and then it is not gone. -/
theorem noNames_sysStep (h : s.NoNames) {e : Event n} (hname : ∀ p a x, e ≠ .nameKernel p a x)
    (hgc : ∀ env, e ≠ .gcTick env) : (s.sysStep args e).NoNames := by
  intro p hp addr hk
  obtain ⟨hgone, hquiet⟩ := Sys.mem_nextGone.mp hp
  rw [Sys.evictedPids_eq_nil hgc] at hgone
  rcases mem_kernelNames_step hname hgc hk with hk | hprocessed
  · exact h p (hgone.resolve_right (by simp)) addr hk
  · exact hquiet hprocessed

/-- Only the names that a gc tick takes in can be of a process that is gone. -/
theorem noNames_step (hunseen : s.sys.Unseen s.gone) (h : s.NoNames) (e : NameEvent n) :
    (s.step args table e).NoNames ↔ s.NoLateName table e := by
  cases e with
  | resolver fs =>
    refine iff_of_true ?_ trivial
    simp only [step, resolverStep]
    split <;> exact h
  | sys e =>
    simp only [step]
    split
    next hpanicked =>
      refine iff_of_true h ?_
      unfold NoLateName
      split
      · exact fun hrunning => absurd hpanicked (by simp [hrunning])
      · trivial
    next hrunning =>
      split
      next env =>
        unfold NoLateName
        simp only [hrunning, forall_const]
        cases hnames : knownNames table s.results with
        | error fault =>
          refine iff_of_true ?_ (by simp)
          unfold gcTick
          rw [hnames]
          exact h
        | ok names =>
          rw [noNames_gcTick hunseen h hnames]
          simp
      · exact iff_of_true h trivial
      next hgc hname =>
        refine iff_of_true (noNames_sysStep h hname hgc) ?_
        unfold NoLateName
        split
        next env heq =>
          cases heq
          exact absurd rfl (hgc env)
        · trivial

/-! ## Requests in flight -/

/-- A name that is entered was answered. -/
theorem exists_of_mem_knownNames {results names : List SymResult}
    (h : knownNames table results = .ok names) {r : SymResult} (hr : r ∈ names) :
    ∃ r' ∈ results, r'.1 = r.1 := by
  obtain ⟨r', hr', heq⟩ := Fallible.exists_of_mem_mapM h hr
  refine ⟨r', List.mem_of_mem_filter hr', ?_⟩
  cases hname : normalizeKernelName table r'.2.2 with
  | error e =>
    rw [hname] at heq
    cases heq
  | ok name =>
    rw [hname] at heq
    cases heq
    rfl

theorem launched_pid {r : Record} {k : U32 × U64} (h : r.launched args = some k) :
    k.1 = r.pid ∧ r.request.isSome = true := by
  cases r with
  | ring event =>
    simp only [Record.launched] at h
    split at h
    · cases h
      exact ⟨rfl, rfl⟩
    · cases h
  | launch key perCpu =>
    simp only [Record.launched] at h
    split at h
    next hcount =>
      cases h
      refine ⟨rfl, ?_⟩
      rw [Record.request, if_neg hcount.1]
      rfl
    · cases h
  | aggregated key perCpu => cases h
  | nccl key perCpu => cases h

/-- A request that is made is one for the kernel of a record. -/
theorem mem_askName {kernelNames : KernelNames} {records : List Record}
    {x : Finset (U32 × U64) × List SymRequest} {q : SymRequest}
    (h : q ∈ (records.foldl (askName args kernelNames) x).2) :
    q ∈ x.2 ∨ ∃ r ∈ records, r.request.isSome = true ∧ ∃ addr, q = .resolve r.pid addr := by
  refine Runs.foldl_origin (I := fun x : Finset (U32 × U64) × List SymRequest => q ∈ x.2)
    (fun x r hq => ?_) h
  unfold askName at hq
  split at hq
  next k hk =>
    obtain ⟨hpid, hrequest⟩ := launched_pid hk
    split at hq
    · split at hq
      · rcases List.mem_append.mp hq with hq | hq
        · exact .inl hq
        · refine .inr ⟨hrequest, k.2, ?_⟩
          rw [← hpid]
          exact List.mem_singleton.mp hq
      · exact .inl hq
    · exact .inl hq
  · exact .inl hq

/-- No process that is gone is asked for or answered. -/
structure Settled (s : NameSys n) : Prop where
  requests : ∀ p ∈ s.gone, ∀ addr, SymRequest.resolve p addr ∉ s.requests
  results : ∀ r ∈ s.results, r.1 ∉ s.gone

theorem Settled.noLateName (h : s.Settled) (e : NameEvent n) : s.NoLateName table e := by
  unfold NoLateName
  split
  · intro _ names hnames r hr
    obtain ⟨r', hr', hpid⟩ := exists_of_mem_knownNames hnames hr
    exact hpid ▸ h.results r' hr'
  · trivial

theorem Settled.sysStep (h : s.Settled) {e : Event n} (hgc : ∀ env, e ≠ .gcTick env) :
    (s.sysStep args e).Settled := by
  have hsub : ∀ p ∈ (s.sysStep args e).gone, p ∈ s.gone ∧ p ∉ s.sys.processed args e := by
    intro p hp
    obtain ⟨hgone, hquiet⟩ := Sys.mem_nextGone.mp hp
    rw [Sys.evictedPids_eq_nil hgc] at hgone
    exact ⟨hgone.resolve_right (by simp), hquiet⟩
  constructor
  · intro p hp addr hq
    obtain ⟨hgone, hquiet⟩ := hsub p hp
    rcases mem_askName hq with hq | ⟨r, hr, hrequest, addr', hq⟩
    · exact h.requests p hgone addr hq
    · -- a process that is asked for now has an event in this step
      cases hq
      exact hquiet (Sys.mem_processed_of_record hr hrequest)
  · intro r hr hp
    exact h.results r hr (hsub r.1 hp).1

theorem Settled.gcTick (h : s.Settled) (hasked : s.NoneAsked args (.sys (.gcTick env))) :
    (s.gcTick args table env).Settled := by
  unfold NameSys.gcTick
  split
  · exact ⟨h.requests, h.results⟩
  next names hnames =>
    refine ⟨?_, by simp⟩
    intro p hp addr hq
    simp only [List.mem_append] at hq
    have hold : SymRequest.resolve p addr ∈ s.requests := by
      refine hq.resolve_right fun hq => ?_
      split at hq
      · cases List.mem_singleton.mp hq
      · cases hq
    rcases (Sys.mem_nextGone.mp hp).1 with hgone | hevicted
    · exact h.requests p hgone addr hold
    · refine hasked p ?_ addr hold
      -- entering names does not change who is stale
      simpa [Sys.evictedPids, named_loop] using hevicted

theorem Settled.resolverStep (h : s.Settled) (fs : ProcFs) : (s.resolverStep fs).Settled := by
  unfold NameSys.resolverStep
  split
  · exact h
  next pid addr requests heq =>
    have hmem : ∀ q ∈ requests, q ∈ s.requests := fun q hq => heq ▸ List.mem_cons_of_mem _ hq
    refine ⟨fun p hp a hq => h.requests p hp a (hmem _ hq), fun r hr hp => ?_⟩
    rcases List.mem_append.mp hr with hr | hr
    · exact h.results r hr hp
    · -- the answer is for the process of the request
      rw [List.mem_singleton.mp hr] at hp
      exact h.requests pid hp addr (heq ▸ List.mem_cons_self)
  next pids requests heq =>
    have hmem : ∀ q ∈ requests, q ∈ s.requests := fun q hq => heq ▸ List.mem_cons_of_mem _ hq
    exact ⟨fun p hp a hq => h.requests p hp a (hmem _ hq), h.results⟩

theorem Settled.step (h : s.Settled) {e : NameEvent n} (hasked : s.NoneAsked args e) :
    (s.step args table e).Settled := by
  cases e with
  | resolver fs => exact h.resolverStep fs
  | sys e =>
    simp only [NameSys.step]
    split
    · exact h
    · split
      · exact h.gcTick hasked
      · exact h
      next hgc hname => exact h.sysStep hgc

/-! ## Runs -/

theorem settled_init (procPath : String) : (init args n procPath).Settled :=
  ⟨by simp [init], by simp [init]⟩

/-- In every run, the processes that are gone have no names in any state reached, exactly if no gc
    tick reads a name of one. This is so if no gc tick evicts a process that is still asked for in
    the request channel. -/
theorem noNames_run_iff (args : Args) (table : CharTable) (n : ℕ) (procPath : String)
    (es : List (NameEvent n)) :
    ((∀ k, (Runs.run (step args table) (init args n procPath) (es.take k)).NoNames) ↔
        Runs.Along (step args table) (NoLateName table) (init args n procPath) es) ∧
      (Runs.Along (step args table) (NoneAsked args) (init args n procPath) es →
        Runs.Along (step args table) (NoLateName table) (init args n procPath) es) := by
  have hunseen : (init args n procPath).sys.Unseen (init args n procPath).gone := by
    simp [init, Sys.Unseen]
  have hstart : (init args n procPath).NoNames := by
    simp [init, NoNames]
  constructor
  · exact Runs.forall_take_iff_along (P := fun _ _ => True)
      (I := fun s : NameSys n => s.sys.Unseen s.gone)
      (fun s e h _ => unseen_step h e) (fun s e h _ hs => noNames_step h hs e) hunseen hstart
      (Runs.along_true _ _ _)
  · intro hasked
    have hsettled := Runs.Along.and_invariant (I := fun s : NameSys n => s.Settled)
      (fun s e h he => h.step he) (settled_init procPath) hasked
    exact hsettled.mono fun s e h => h.2.noLateName e

/-- A launch of process 7 is drained and asked for. The process is evicted before the resolver
    gets to the request, and the next gc tick enters the answer. -/
def lateName : List (NameEvent 1) :=
  [.sys (.enter (.cudaLaunchKernel 0x1500) (Sys.bareCtx 0x700000007 100 0)),
    .sys (.ret (Sys.bareCtx 0x700000007 200 0)),
    .sys (.aggTick .bare),
    .sys (.gcTick { LoopEnv.bare with now := 1000000000000 }),
    .resolver (SymTrace.oneKernelFs "gemm"),
    .sys (.gcTick { LoopEnv.bare with now := 2000000000000 })]

theorem late_name :
    let s := Runs.run (step { kernelMode := .full } .asciiOnly)
      (init { kernelMode := .full } 1 "/proc") lateName
    7 ∈ s.gone ∧ s.sys.loop.kernelNames.lookup (7, 0x1500) = some "gemm" := by
  decide +kernel

end NameSys

end Profi
