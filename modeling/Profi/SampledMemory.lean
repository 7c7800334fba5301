import Profi.ActiveMemory

/-!
# Active Memory under Sampling

With a sampling rate `N` the entry of a malloc or free is kept once in `N` and counted `N`
times. A malloc that is dropped is not recorded in `MALLOC_SIZES` and its free then counts
zero bytes, kept or not. A free that is dropped has already taken the size out of
`MALLOC_SIZES`: the bytes of a malloc that was kept are never given back.

To say that every allocation is freed once, the run carries the pointers the application
owns. `active_memory_zero_iff`: when the application has given back all of them, the active
memory of a process is zero exactly if the bytes forgotten by dropped frees add up to zero.
-/

namespace Profi

variable {n : ℕ} {args : Args}

def Event.isGcTick : Event n → Bool
  | .gcTick _ => true
  | _ => false

namespace Sys

variable {s : Sys n} {owned : Finset MallocKey}

/-! ## What the application owns -/

/-- The pointer a returning malloc hands to the application. -/
def yielded (s : Sys n) (ctx : Ctx n) : Option MallocKey :=
  (s.stack ctx.pidTgid).head?.bind fun call =>
    (call.probe.outPtr.bind ctx.readUser).map (⟨ctx.pid, ·⟩)

/-- The pointers the application owns after an event: mallocs give them out when they return,
    frees take them back when they are entered. -/
def ownedAfter (s : Sys n) (owned : Finset MallocKey) : Event n → Finset MallocKey
  | .enter p ctx =>
    match p.freedPtr with
    | some ptr => owned.erase ⟨ctx.pid, ptr⟩
    | none => owned
  | .ret ctx =>
    match s.yielded ctx with
    | some key => insert key owned
    | none => owned
  | _ => owned

/-- The system together with the application's pointers. -/
def ownStep (args : Args) (t : Sys n × Finset MallocKey) (e : Event n) :
    Sys n × Finset MallocKey := (t.1.step args e, t.1.ownedAfter t.2 e)

/-- A free is given a null pointer or one the application owns. -/
def FreesOwned (owned : Finset MallocKey) : Event n → Prop
  | .enter p ctx => p.freedPtr.all fun ptr => (⟨ctx.pid, ptr⟩ : MallocKey) ∈ owned
  | _ => True

instance (owned : Finset MallocKey) : (e : Event n) → Decidable (FreesOwned owned e)
  | .enter p ctx => inferInstanceAs (Decidable
      ((p.freedPtr.all fun ptr => (⟨ctx.pid, ptr⟩ : MallocKey) ∈ owned) = true))
  | .ret _ | .registerFunction _ _ _ | .nvtxPush _ _ | .nvtxPop _ | .evict _
  | .consume _ | .aggTick _ | .gcTick _ | .nameKernel _ _ _ => inferInstanceAs (Decidable True)

/-- No call is nested, no map evicts, no gc tick comes in between, `AGGREGATED` has room,
    mallocs yield pointers that are not owned and frees are given owned ones. -/
structure Disciplined (args : Args) (t : Sys n × Finset MallocKey) (e : Event n) : Prop where
  nonNested : NonNested t.1 e
  keeps : ∀ ev, e ≠ .evict ev
  noGc : ∀ env, e ≠ .gcTick env
  aggregated : (aggView args n).Room t.1 e
  yields : YieldsNew (· ∈ t.2) t.1 e
  frees : FreesOwned t.2 e

/-! ## Recorded pointers are owned -/

/-- The recorded pointers are among the owned ones. Those of dropped mallocs are not recorded. -/
def RecordsOwned (s : Sys n) (owned : Finset MallocKey) : Prop :=
  ∀ key ∈ s.bpf.mallocSizes, key ∈ owned

variable {e : Event n}

theorem YieldsNew.mono {taken taken' : MallocKey → Prop} [DecidablePred taken]
    [DecidablePred taken'] (hsub : ∀ key, taken' key → taken key) (h : YieldsNew taken s e) :
    YieldsNew taken' s e := by
  cases e with
  | ret ctx =>
    intro call hcall hmalloc
    obtain ⟨devPtr, hread, hdev⟩ := (Option.any_eq_true _ _).mp (h call hcall hmalloc)
    obtain ⟨hnull, hnew⟩ := of_decide_eq_true hdev
    refine (Option.any_eq_true _ _).mpr ⟨devPtr, hread, decide_eq_true ⟨hnull, ?_⟩⟩
    exact fun htaken => hnew (hsub _ htaken)
  | _ => trivial

theorem Disciplined.accountable (h : Disciplined args (s, owned) e) (hrec : RecordsOwned s owned) :
    Accountable args s e :=
  ⟨h.nonNested, h.keeps, h.aggregated, h.yields.mono hrec⟩

theorem subset_ownedAfter_ret (s : Sys n) (owned : Finset MallocKey) (ctx : Ctx n) :
    owned ⊆ s.ownedAfter owned (.ret ctx) := by
  simp only [ownedAfter]
  cases s.yielded ctx with
  | none => exact subset_rfl
  | some key => exact Finset.subset_insert _ _

/-- What a return program records is the pointer the call hands out. -/
theorem mem_mallocSizes_exit (hf : Following args s) {ctx : Ctx n} {call : OpenCall}
    {rest : List OpenCall} (hs : s.stack ctx.pidTgid = call :: rest)
    (hyields : YieldsNew (· ∈ owned) s (.ret ctx)) {key : MallocKey}
    (hkey : key ∈ (call.probe.exit s.bpf ctx).mallocSizes) :
    s.yielded ctx = some key ∨ key ∈ s.bpf.mallocSizes := by
  rw [(Probe.exit_mallocMaps s.bpf ctx call.probe).2] at hkey
  cases hmalloc : call.probe.isMalloc with
  | false =>
    simp only [hmalloc, Bool.false_eq_true, ↓reduceIte] at hkey
    exact .inr hkey
  | true =>
    obtain ⟨hs', -⟩ := hf.returning hs
    obtain ⟨ptrToPtr, devPtr, hptr, hread, hnull, -⟩ := hyields.exists hs hmalloc
    have hyielded : s.yielded ctx = some ⟨ctx.pid, devPtr⟩ := by
      simp [yielded, hs', hptr, hread]
    simp only [hmalloc, ↓reduceIte, Bpf.registerMalloc_mallocSizes, Bpf.allocation,
      hf.outPtr _ _ hs', hptr, hread, Option.bind_some] at hkey
    -- without an entry of the call nothing is recorded
    cases hslot : s.bpf.inflight.lookup ctx.pidTgid with
    | none =>
      simp only [hslot, Option.bind_none] at hkey
      exact .inr hkey
    | some entry =>
      have hfilter : (some devPtr).filter (fun x : U64 => decide (x ≠ 0)) = some devPtr := by
        rw [Option.filter_some, if_pos (decide_eq_true hnull)]
      simp only [hslot, Option.bind_some, hfilter, Option.map_some, AList.mem_insert] at hkey
      rcases hkey with rfl | hold
      · exact .inl hyielded
      · exact .inr hold

/-- Only an owned pointer has a recorded size. -/
theorem recordsOwned_step (hf : Following args s) (hrec : RecordsOwned s owned)
    (he : Disciplined args (s, owned) e) : RecordsOwned (s.step args e) (s.ownedAfter owned e) := by
  intro key hkey
  rcases step_cases args s e with ⟨p, ctx, rfl, hstep⟩ | ⟨ctx, call, rest, rfl, hs, hstep⟩ |
    ⟨ev, rfl, -⟩ | hbg
  · rw [hstep] at hkey
    simp only [enter] at hkey
    rw [(Probe.enter_mallocMaps s.bpf ctx p).2, Probe.prepare_mallocSizes] at hkey
    simp only [ownedAfter]
    -- a free takes the size and the ownership together
    cases hptr : p.freedPtr with
    | none =>
      rw [hptr] at hkey
      exact hrec key hkey
    | some ptr =>
      simp only [hptr, AList.mem_erase] at hkey
      exact Finset.mem_erase.mpr ⟨hkey.1, hrec key hkey.2⟩
  · rw [hstep] at hkey
    rcases mem_mallocSizes_exit hf hs he.yields hkey with hyielded | hold
    · simp only [ownedAfter, hyielded]
      exact Finset.mem_insert_self key owned
    · exact subset_ownedAfter_ret s owned ctx (hrec key hold)
  · exact absurd rfl (he.keeps ev)
  · rw [hbg.bpf] at hkey
    have hmem := hrec key hkey
    cases e with
    | enter p ctx => exact absurd hbg (s.not_background_enter p ctx)
    | ret ctx => exact subset_ownedAfter_ret s owned ctx hmem
    | _ => exact hmem

/-- What holds along a disciplined run. -/
structure Owning (args : Args) (t : Sys n × Finset MallocKey) : Prop where
  following : Following args t.1
  records : RecordsOwned t.1 t.2

theorem owning_init (n : ℕ) (args : Args) : Owning args (Sys.init n args, ∅) where
  following := following_init n args
  records := by
    intro key hkey
    simp [Sys.init, Bpf.init] at hkey

theorem owning_step {t : Sys n × Finset MallocKey} (h : Owning args t) (he : Disciplined args t e) :
    Owning args (ownStep args t e) where
  following := following_step h.following (he.accountable h.records)
  records := recordsOwned_step h.following h.records he

/-! ## After everything was freed -/

/-- The run of the system together with the application's pointers. -/
def ownRun (args : Args) (n : ℕ) (es : List (Event n)) : Sys n × Finset MallocKey :=
  Runs.run (ownStep args) (Sys.init n args, ∅) es

/-- A run in which the application keeps to `Disciplined`. -/
abbrev OwnPermitted (args : Args) (es : List (Event n)) : Prop :=
  Runs.Along (ownStep args) (Disciplined args) (Sys.init n args, ∅) es

section Disciplined

variable {es : List (Event n)} (hes : OwnPermitted args es)

include hes

theorem owning_run : Owning args (ownRun args n es) := by
  exact Runs.run_invariant (I := Owning args) (fun _ _ h he => owning_step h he)
    (owning_init n args) hes

theorem permitted_of_owning : Permitted args (Accountable args) es := by
  have hinv := Runs.Along.and_invariant (I := Owning args) (fun _ _ h he => owning_step h he)
    (owning_init n args) hes
  exact Runs.Along.map (f := Prod.fst) (fun _ _ => rfl)
    (fun t e h => h.1.accountable h.2.records) hinv

omit hes in
theorem ownRun_fst (args : Args) (es : List (Event n)) : (ownRun args n es).1 = run args n es :=
  Runs.run_map (f := Prod.fst) (fun _ _ => rfl) _ es

theorem drainedByGc_eq_zero (pid : U32) : drainedByGc args pid es = 0 := by
  have hgc : Permitted args (fun _ e => ∀ env, e ≠ .gcTick env) es :=
    Runs.Along.map (f := Prod.fst) (fun _ _ => rfl) (fun _ _ h => h.noGc) hes
  unfold drainedByGc
  rw [Runs.observed_eq_nil _ hgc]
  · rfl
  · intro s e he
    cases e with
    | gcTick env => exact absurd rfl (he env)
    | _ => rfl

/-- When all calls have returned and all pointers were given back, nothing is held. -/
theorem heldBytes_eq_zero (hreturned : ∀ id, (run args n es).stack id = [])
    (hfreed : (ownRun args n es).2 = ∅) (pid : U32) :
    (run args n es).heldBytes args pid = 0 := by
  obtain ⟨hfollow, hrecords⟩ := owning_run hes
  rw [ownRun_fst] at hfollow hrecords
  have htracked : (run args n es).bpf.tracked pid = 0 := by
    apply FinMap.sum_eq_zero
    intro key size hl
    have hmem := hrecords key (AList.lookup_isSome.mp (by rw [hl]; rfl))
    rw [hfreed] at hmem
    cases hmem
  have hfreeing : (run args n es).bpf.freeing pid = 0 := by
    apply FinMap.sum_eq_zero
    intro id entry hl
    rw [hfollow.slots.free (hreturned id)] at hl
    cases hl
  rw [heldBytes, htracked, hfreeing, add_zero, zero_mul]

/-- What was drained and what waits in `AGGREGATED` are the accounted sizes. -/
theorem memoryOf_add_netStored (pid : U32) :
    (run args n es).loop.memoryOf pid + netStored pid (run args n es).bpf =
      accounted args isMallocEvent pid (run args n es) -
        accounted args isFreeEvent pid (run args n es) := by
  have hmem := memoryOf_add_drainedByGc args es pid
  rw [drainedByGc_eq_zero hes, add_zero] at hmem
  rw [hmem]
  unfold netDrained netRowBytes netStored accounted View.handedSum View.storedSum
  simp only [aggView]
  ring

/-- At every sampling rate: when the application has freed every pointer it was given, once,
    all calls have returned and the ticks have drained `AGGREGATED`, the active memory of a
    process is zero exactly if the bytes forgotten by dropped frees add up to zero. -/
theorem active_memory_zero_iff (hreturned : ∀ id, (run args n es).stack id = [])
    (hfreed : (ownRun args n es).2 = ∅) {ticks : List LoopEnv}
    (hticks : (run args n es).bpf.aggregated.slots.size ≤
      percpuHashDrainKeyBudget * ticks.length) (pid : U32) :
    (Runs.run (step args) (run args n es) (ticks.map .aggTick)).loop.memoryOf pid = 0 ↔
      forgotten args pid es = 0 := by
  rw [drained_memoryOf (valuesOk_run args es) hticks, memoryOf_add_netStored hes,
    accounted_eq (permitted_of_owning hes), heldBytes_eq_zero hes hreturned hfreed, zero_add]

end Disciplined

/-! ## Runs of one thread -/

/-- A decidable way to be disciplined: every map has room for one more. -/
theorem disciplined_of_withSpace {t : Sys n × Finset MallocKey}
    (h : WithSpace t.1 e ∧ e.isGcTick = false ∧ YieldsNew (· ∈ t.2) t.1 e ∧ FreesOwned t.2 e) :
    Disciplined args t e := by
  obtain ⟨hspace, hgc, hyields, hfrees⟩ := h
  have horderly : Orderly args t.1 e := hspace.orderly
  refine ⟨horderly.nonNested, ?_, ?_, horderly.aggregated, hyields, hfrees⟩
  · rintro ev rfl
    exact hspace.1
  · rintro env rfl
    cases hgc

/-- A thread allocates 100 bytes and frees them, with other calls of its own in between. -/
def allocateAndFree (between : List (Event 1)) : List (Event 1) :=
  let ctx : Ctx 1 :=
    { bareCtx 0x100000001 1 0 with readUser := fun ptr => if ptr = 8 then some 4096 else none }
  [.enter (.cudaMalloc 8 100) ctx, .ret ctx] ++ between ++ [.enter (.cudaFree 4096) ctx, .ret ctx]

/-- Every other call is kept: the malloc and, after one more call, the free. -/
theorem active_memory_zero_iff_kept :
    let es := allocateAndFree [.enter (.cudaMemset 16) (bareCtx 0x100000001 2 0),
      .ret (bareCtx 0x100000001 3 0)]
    (Runs.run (step { sampleRate := 2 }) (run { sampleRate := 2 } 1 es)
      ([LoopEnv.bare].map .aggTick)).loop.memoryOf 1 = 0 := by
  intro es
  have hes : Runs.Along (ownStep { sampleRate := 2 }) (fun t e => WithSpace t.1 e ∧
      e.isGcTick = false ∧ YieldsNew (· ∈ t.2) t.1 e ∧ FreesOwned t.2 e)
      (Sys.init 1 { sampleRate := 2 }, ∅) es := by decide
  have hreturned : ∀ id, (run { sampleRate := 2 } 1 es).stack id = [] :=
    stack_of_single (by decide : ∀ e ∈ es, e.thread.all (· = 0x100000001)) (by decide)
  exact (active_memory_zero_iff (hes.mono fun _ _ h => disciplined_of_withSpace h) hreturned
    (by decide) (by decide) 1).mpr (by decide)

/-- Every other call is kept: the malloc, but not the free that follows. -/
theorem dropped_free_leaves_memory :
    OwnPermitted { sampleRate := 2 } (allocateAndFree []) ∧
      (ownRun { sampleRate := 2 } 1 (allocateAndFree [])).2 = ∅ ∧
      (Runs.run (step { sampleRate := 2 }) (run { sampleRate := 2 } 1 (allocateAndFree []))
        ([LoopEnv.bare].map .aggTick)).loop.memoryOf 1 = 200 := by
  have hes : Runs.Along (ownStep { sampleRate := 2 }) (fun t e => WithSpace t.1 e ∧
      e.isGcTick = false ∧ YieldsNew (· ∈ t.2) t.1 e ∧ FreesOwned t.2 e)
      (Sys.init 1 { sampleRate := 2 }, ∅) (allocateAndFree []) := by decide
  exact ⟨hes.mono fun _ _ h => disciplined_of_withSpace h, by decide⟩

end Sys

end Profi
