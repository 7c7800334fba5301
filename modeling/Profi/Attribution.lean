import Profi.Ledger
import Profi.Nesting

/-!
# Attribution of Records to Calls

Which record does a completed call leave behind? Between two drains the maps and rings are
exactly the records of the entries the return programs consumed, in order (`RecordsOf`), and
an outermost call whose thread entered no other probed call meanwhile consumed its own
entry, so its record carries its own event type, arguments, return code and duration.

A call with a probed call inside it is different. Only entry programs look at the recursion
guard: the return program of the inner call takes the outer call's entry from the slot and
records it with the inner call's return code and time (`nested_call_misattributed`). Which runs are
free of this, and what the guard keeps in the others, is worked out in `Profi.Nesting`.
-/

namespace Profi

variable {n : ℕ} {args : Args}

/-! ## Records -/

namespace Completed

variable (r : Completed n)

/-- Whether the consumed entry goes to the ring: launches only outside anonymous mode and
    with detailed tracing. -/
def toRing (args : Args) (entry : EntryData) : Bool :=
  Bpf.ringBound (r.mode ≠ 1 && args.detailedLaunches) entry

/-- The ring record of a call. -/
def event (entry : EntryData) : CudaEvent := Bpf.cudaEventIn r.nvtx r.ctx entry

/-- The ring record a return left, if any. -/
def ringEvent (args : Args) : Option CudaEvent := (r.recorded.filter (r.toRing args)).map r.event

end Completed

/-- The map holds exactly the items of the returns: every slot is the sum of the items added
    on its CPU, and no key is there without a return. -/
def View.Holds {K V : Type} [DecidableEq K] [Zero V] (v : View args n K V) (s : Sys n) : Prop :=
  (∀ cpu k, (v.get s.bpf).slot cpu k =
    (s.hist.returns.filter fun r => v.key r = some k ∧ r.ctx.cpu = cpu).foldl
      (fun val r => v.add r val) 0) ∧
  ∀ k, k ∈ (v.get s.bpf).slots ↔ ∃ r ∈ s.hist.returns, v.key r = some k

/-- The maps and rings hold the records of the returns and nothing else. -/
structure RecordsOf (args : Args) (s : Sys n) : Prop where
  aggregated : (aggView args n).Holds s
  nccl : (ncclView args n).Holds s
  launch : (launchView args n).Holds s
  events : s.bpf.events.records = s.hist.returns.filterMap (·.ringEvent args)
  kernelRegs : s.bpf.kernelRegs.records.Perm
    (s.hist.registrations ++ s.hist.returns.filterMap (·.registered))

/-! ## Runs of probes -/

/-- A probe fires. -/
def Event.isProbe : Event n → Bool
  | .enter _ _ | .ret _ | .registerFunction _ _ _ | .nvtxPush _ _ | .nvtxPop _ => true
  | _ => false

/-- The rings have room for what the step reports. -/
def RingRoom (args : Args) (s : Sys n) : Event n → Prop
  | .ret ctx => ∀ call rest, s.stack ctx.pidTgid = call :: rest →
      ((s.completed ctx call rest).ringEvent args ≠ none → s.bpf.events.CanReserve) ∧
        ((s.completed ctx call rest).registered ≠ none → s.bpf.kernelRegs.CanReserve)
  | .registerFunction _ _ _ => s.bpf.kernelRegs.CanReserve
  | _ => True

/-- A probe fires and what it records finds room. -/
structure ProbeWithRoom (args : Args) (s : Sys n) (e : Event n) : Prop where
  probe : e.isProbe = true
  aggregated : (aggView args n).Room s e
  nccl : (ncclView args n).Room s e
  launch : (launchView args n).Room s e
  rings : RingRoom args s e

theorem View.holds_step {K V : Type} [DecidableEq K] [Zero V] (v : View args n K V) {s : Sys n}
    (h : v.Holds s) {e : Event n} (hprobe : e.isProbe = true) (hroom : v.Room s e) :
    v.Holds (s.step args e) := by
  obtain ⟨hslot, hmem⟩ := h
  rcases v.step_cases s e with ⟨ctx, call, rest, rfl, hs, hret, -, hget⟩ |
    ⟨hret, ⟨hget, -⟩ | ⟨env, -, rfl, -, -⟩⟩
  · unfold View.Holds
    rw [hret, hget, v.get_exit s ctx call rest]
    cases hk : v.key (s.completed ctx call rest) with
    | none =>
      -- the return goes elsewhere: same map, and the new return matches no key
      refine ⟨?_, ?_⟩
      · intro cpu k
        simpa [hk] using hslot cpu k
      · intro k
        simpa [hk, or_and_right, exists_or] using hmem k
    | some k₀ =>
      have hsome := (PerCpuMap.accumulate_isSome_iff (v.get s.bpf) ctx.cpu k₀
        (v.add (s.completed ctx call rest)) (v.add (s.completed ctx call rest) 0)).mpr
        (hroom call rest hs k₀ hk)
      obtain ⟨m', hm'⟩ := Option.isSome_iff_exists.mp hsome
      simp only [hm', Option.getD_some]
      refine ⟨?_, ?_⟩
      · intro cpu k
        rw [PerCpuMap.slot_accumulate hm' rfl, List.filter_append, List.foldl_append,
          ← hslot cpu k]
        have hcpu : (s.completed ctx call rest).ctx.cpu = ctx.cpu := rfl
        by_cases hck : cpu = ctx.cpu ∧ k = k₀
        · obtain ⟨rfl, rfl⟩ := hck
          simp [hk, hcpu]
        · have hno : ¬ (k₀ = k ∧ (s.completed ctx call rest).ctx.cpu = cpu) := by
            rintro ⟨rfl, rfl⟩
            exact hck ⟨rfl, rfl⟩
          simp [hk, hck, hno]
      · intro k
        rw [PerCpuMap.mem_accumulate hm' rfl, hmem k]
        simp [hk, or_and_right, exists_or, or_comm, eq_comm]
  · unfold View.Holds
    rw [hret, hget]
    exact ⟨hslot, hmem⟩
  · cases hprobe

/-! ## The rings -/

section Rings

variable {s : Sys n}

theorem toRing_completed (hcfg : Sys.ConfigOk args s.bpf) (ctx : Ctx n) (call : OpenCall)
    (rest : List OpenCall) (entry : EntryData) :
    s.bpf.toRing ctx entry = (s.completed ctx call rest).toRing args entry := by
  have hring : s.bpf.launchToRing ctx.pid =
      (decide (s.bpf.launchMode ctx.pid ≠ 1) && args.detailedLaunches) := by
    unfold Bpf.launchToRing
    rw [hcfg.detailedLaunches]
    cases args.detailedLaunches <;> simp [bne, Bool.beq_eq_decide_eq]
  simp only [Bpf.toRing, Completed.toRing, hring]
  rfl

/-- A return appends its ring record, when it has one. -/
theorem exit_events (hcfg : Sys.ConfigOk args s.bpf) {ctx : Ctx n} {call : OpenCall}
    {rest : List OpenCall}
    (hroom : (s.completed ctx call rest).ringEvent args ≠ none → s.bpf.events.CanReserve) :
    (call.probe.exit s.bpf ctx).events.records =
      s.bpf.events.records ++ ((s.completed ctx call rest).ringEvent args).toList := by
  rw [Probe.exit_eq]
  simp only [Completed.ringEvent] at hroom ⊢
  have hrec : (s.completed ctx call rest).recorded = call.probe.recorded s.bpf ctx := rfl
  rw [hrec] at hroom ⊢
  cases hr : call.probe.recorded s.bpf ctx with
  | none => simp [Bpf.recordOpt]
  | some entry =>
    simp only [Bpf.recordOpt]
    rw [Bpf.record_events, toRing_completed hcfg ctx call rest entry]
    -- a return that belongs in the ring needs a free slot there; all others never touch it
    by_cases ht : (s.completed ctx call rest).toRing args entry = true
    · have hres : s.bpf.events.CanReserve := hroom (by simp [hr, ht])
      simp only [ht, ↓reduceIte, Option.filter_some, Option.map_some, Option.toList_some]
      simp only [Bpf.submitEvent, RingBuf.submit, hres, ↓reduceIte]
      rfl
    · simp [ht]

theorem recordsOf_step (hcfg : Sys.ConfigOk args s.bpf) (h : RecordsOf args s) {e : Event n}
    (he : ProbeWithRoom args s e) : RecordsOf args (s.step args e) := by
  have hagg := (aggView args n).holds_step h.aggregated he.probe he.aggregated
  have hnccl := (ncclView args n).holds_step h.nccl he.probe he.nccl
  have hlaunch := (launchView args n).holds_step h.launch he.probe he.launch
  suffices hrings :
      (s.step args e).bpf.events.records =
          (s.step args e).hist.returns.filterMap (·.ringEvent args) ∧
        (s.step args e).bpf.kernelRegs.records.Perm ((s.step args e).hist.registrations ++
          (s.step args e).hist.returns.filterMap (·.registered)) from
    ⟨hagg, hnccl, hlaunch, hrings.1, hrings.2⟩
  have hroom := he.rings
  cases e with
  | enter p ctx =>
    simp only [Sys.step, Sys.enter]
    rw [Probe.enter_frame]
    exact ⟨h.events, h.kernelRegs⟩
  | ret ctx =>
    simp only [Sys.step]
    cases hs : s.stack ctx.pidTgid with
    | nil =>
      rw [Sys.ret_nil hs]
      exact ⟨h.events, h.kernelRegs⟩
    | cons call rest =>
      obtain ⟨hev, hreg⟩ := hroom call rest hs
      rw [Sys.ret_cons hs]
      simp only [List.filterMap_append]
      refine ⟨?_, ?_⟩
      · rw [exit_events hcfg hev, h.events]
        cases hr : (s.completed ctx call rest).ringEvent args <;> simp [hr]
      · rw [Probe.exit_kernelRegs hreg, ← List.append_assoc]
        refine h.kernelRegs.append ?_
        have hcomp : (s.completed ctx call rest).registered =
            call.probe.registered s.bpf ctx := rfl
        cases hr : call.probe.registered s.bpf ctx <;> simp [hcomp, hr]
  | registerFunction ctx hostFun devName =>
    simp only [Sys.step]
    refine ⟨?_, ?_⟩
    · rw [Sys.cudaRegisterFunction_frame]
      exact h.events
    · unfold Bpf.cudaRegisterFunction
      by_cases hz : hostFun = 0 ∨ devName = 0
      · simpa only [hz, ↓reduceIte, List.append_nil] using h.kernelRegs
      · have hres : s.bpf.kernelRegs.CanReserve := hroom
        simp only [hz, ↓reduceIte, RingBuf.submit, hres]
        -- the new registration is last in the ring, but before the returns in the list
        refine (h.kernelRegs.append_right _).trans ?_
        rw [List.append_assoc, List.append_assoc]
        exact List.perm_append_comm.append_left _
  | nvtxPush ctx msgPtr =>
    simp only [Sys.step]
    rw [Sys.nvtxRangePush_frame]
    exact ⟨h.events, h.kernelRegs⟩
  | nvtxPop ctx => exact ⟨h.events, h.kernelRegs⟩
  | _ => cases he.probe

end Rings

theorem recordsOf_init (args : Args) : RecordsOf args (Sys.init n args) where
  aggregated := ⟨fun _ _ => rfl, by simp [Sys.init, Bpf.init, aggView, PerCpuMap.empty]⟩
  nccl := ⟨fun _ _ => rfl, by simp [Sys.init, Bpf.init, ncclView, PerCpuMap.empty]⟩
  launch := ⟨fun _ _ => rfl, by simp [Sys.init, Bpf.init, launchView, PerCpuMap.empty]⟩
  events := rfl
  kernelRegs := .nil

/-- In every run of probes that finds room, the maps and rings are the records of the
    returns. -/
theorem recordsOf_run {es : List (Event n)}
    (hes : Sys.Permitted args (ProbeWithRoom args) es) : RecordsOf args (Sys.run args n es) := by
  suffices hinv : Sys.ConfigOk args (Sys.run args n es).bpf ∧ RecordsOf args (Sys.run args n es)
    from hinv.2
  refine Sys.invariant_permitted (fun s => Sys.ConfigOk args s.bpf ∧ RecordsOf args s)
    ⟨Sys.configOk_init args, recordsOf_init args⟩ ?_ hes
  rintro s e ⟨hcfg, h⟩ he
  exact ⟨Sys.configOk_step hcfg e, recordsOf_step hcfg h he⟩

/-! ## Attribution -/

theorem ProbeWithRoom.keepsInflight {s : Sys n} {e : Event n} (h : ProbeWithRoom args s e) :
    Sys.KeepsInflight s e := by
  rintro id rfl
  cases h.probe

theorem durationNs_eq_sub {now timestampNs : U64} (h : timestampNs ≤ now) :
    Bpf.durationNs now timestampNs = now - timestampNs := by
  unfold Bpf.durationNs
  split
  · rfl
  · bv_omega

/-- What a completed call should have left behind: one record with its own entry, made in its
    own return context, or for `cuModuleGetFunction` only a kernel registration. -/
structure Completed.Attributed (args : Args) (r : Completed n) : Prop where
  opened : Sys.OpenedBy args n r.ctx.pidTgid r.call
  recorded : r.call.probe.isModuleGetFunction = false →
    r.recorded = some r.call.entry ∧ r.registered = none
  duration : r.call.entry.timestampNs ≤ r.ctx.ktimeNs →
    r.durationNs r.call.entry = r.ctx.ktimeNs - r.call.entry.timestampNs
  registered : ∀ hfuncPtr namePtr, r.call.probe = .cuModuleGetFunction hfuncPtr namePtr →
    r.recorded = none ∧
      r.registered =
        if hfuncPtr = 0 ∨ namePtr = 0 then none
        else (r.ctx.readUser hfuncPtr).map fun hfunc => ⟨r.ctx.pid, hfunc, namePtr⟩

/-- A call that finds its own entry is attributed. -/
theorem Completed.Faithful.attributed {r : Completed n} (h : r.Faithful)
    (hopen : Sys.OpenedBy args n r.ctx.pidTgid r.call) (hrate : args.sampleRate ≤ 1) :
    r.Attributed args where
  opened := hopen
  recorded hp := by
    have hstored := hopen.stored hrate hp
    refine ⟨?_, ?_⟩
    · rw [h.recorded]
      simp [hp, hstored]
    · rw [h.registered]
      simp [hp]
  duration := durationNs_eq_sub
  registered hfuncPtr namePtr hp := by
    obtain ⟨b, ctx, -, -, hentry, hstored⟩ := hopen
    refine ⟨?_, ?_⟩
    · rw [h.recorded]
      simp [hp, Probe.isModuleGetFunction]
    · rw [h.registered]
      simp only [hp, Probe.isModuleGetFunction, ↓reduceIte, hstored, hentry, Probe.stores]
      by_cases hz : hfuncPtr = 0#64 ∨ namePtr = 0#64
      · rcases hz with hz | hz <;> simp [hz]
      · rw [not_or] at hz
        simp [hz.1, hz.2, Bpf.registrationOf, Probe.entryData, Probe.eventType, Probe.savedArgs]

/-- Every outermost call left what it should have, and every other call nothing. -/
def OutermostOnly (args : Args) (s : Sys n) : Prop :=
  ∀ r ∈ s.hist.returns,
    (r.outermost = true → r.Attributed args) ∧ (r.outermost = false → r.Silent)

/-- **Attribution.** In every run of probes without sampling, evictions or full maps, for any
    nesting of calls and any interleaving of threads: the maps and rings are the records of
    the consumed entries, and each outermost call during which its thread entered no other
    probed call consumed its own entry. If no thread disturbs an open call by another one, only
    outermost calls leave records, and each leaves its own; a run in which all calls have returned
    has no other way to do so. Under nesting the guard keeps the entry of the outermost call, with
    its event type and arguments, for the first return of the thread. -/
theorem outermost_call_attributed (hrate : args.sampleRate ≤ 1) {es : List (Event n)}
    (hes : Sys.Permitted args (ProbeWithRoom args) es) :
    RecordsOf args (Sys.run args n es) ∧
      (∀ r ∈ (Sys.run args n es).hist.returns,
        r.outermost = true → r.call.alone = true → r.Attributed args) ∧
      (Sys.Permitted args Sys.Undisturbed es → OutermostOnly args (Sys.run args n es)) ∧
      ((∀ e ∈ es, e.Readable) → (∀ id, (Sys.run args n es).stack id = []) →
        OutermostOnly args (Sys.run args n es) → Sys.Permitted args Sys.Undisturbed es) ∧
      ∀ p ctx ctx' before inside, Sys.FirstReturn args es p ctx ctx' before inside →
        ∃ r, (Sys.run args n es).hist.returns.getLast? = some r ∧ r.ctx = ctx' ∧
          r.recorded = some (p.entryData (Sys.run args n before).bpf ctx) := by
  have hkeeps : Sys.Permitted args Sys.KeepsInflight es := hes.mono fun _ _ h => h.keepsInflight
  have hopened := Sys.returns_openedBy args es
  refine ⟨recordsOf_run hes, ?_, ?_, ?_, ?_⟩
  · intro r hr hout halone
    have hfaithful := Sys.faithful_of_alone hkeeps r hr hout halone
    exact hfaithful.attributed (hopened r hr) hrate
  · intro hundisturbed r hr
    obtain ⟨houter, hinner⟩ := Sys.silent_of_undisturbed hrate hkeeps hundisturbed r hr
    exact ⟨fun hout => (houter hout).attributed (hopened r hr) hrate, hinner⟩
  · intro hread hdone honly
    exact Sys.undisturbed_of_silent hrate hkeeps hread hdone fun r hr => (honly r hr).2
  · intro p ctx ctx' before inside hfirst
    exact Sys.first_return_records_outermost hrate hkeeps hfirst

/-! ## A call on its own, and a call inside a call -/

/-- Every map and ring has room for one more. -/
structure Bpf.HasSpace (b : Bpf n) : Prop where
  aggregated : b.aggregated.slots.size < b.aggregated.maxEntries
  nccl : b.ncclAgg.slots.size < b.ncclAgg.maxEntries
  launch : b.launchAgg.slots.size < b.launchAgg.maxEntries
  events : b.events.CanReserve
  kernelRegs : b.kernelRegs.CanReserve

instance (b : Bpf n) : Decidable b.HasSpace :=
  decidable_of_iff (b.aggregated.slots.size < b.aggregated.maxEntries ∧
      b.ncclAgg.slots.size < b.ncclAgg.maxEntries ∧
      b.launchAgg.slots.size < b.launchAgg.maxEntries ∧
      b.events.CanReserve ∧ b.kernelRegs.CanReserve)
    ⟨fun h => ⟨h.1, h.2.1, h.2.2.1, h.2.2.2.1, h.2.2.2.2⟩,
      fun h => ⟨h.aggregated, h.nccl, h.launch, h.events, h.kernelRegs⟩⟩

/-- A probe fires while every map and ring has room for one more. -/
def ProbeWithSpace (s : Sys n) (e : Event n) : Prop := e.isProbe = true ∧ s.bpf.HasSpace

instance (s : Sys n) (e : Event n) : Decidable (ProbeWithSpace s e) :=
  inferInstanceAs (Decidable (_ ∧ _))

theorem View.room_of_size {K V : Type} [DecidableEq K] [Zero V] (v : View args n K V) {s : Sys n}
    (h : (v.get s.bpf).slots.size < (v.get s.bpf).maxEntries) (e : Event n) : v.Room s e := by
  cases e with
  | ret ctx => exact fun _ _ _ _ _ => .inr h
  | _ => trivial

theorem Bpf.HasSpace.ringRoom {s : Sys n} (h : s.bpf.HasSpace) (e : Event n) :
    RingRoom args s e := by
  cases e with
  | ret ctx => exact fun _ _ _ => ⟨fun _ => h.events, fun _ => h.kernelRegs⟩
  | registerFunction ctx hostFun devName => exact h.kernelRegs
  | _ => trivial

theorem ProbeWithSpace.withRoom {s : Sys n} {e : Event n} (h : ProbeWithSpace s e) :
    ProbeWithRoom args s e where
  probe := h.1
  aggregated := (aggView args n).room_of_size h.2.aggregated e
  nccl := (ncclView args n).room_of_size h.2.nccl e
  launch := (launchView args n).room_of_size h.2.launch e
  rings := h.2.ringRoom e

/-- Thread 7 of process 7 copies 64 bytes to the device, and fails with code 2; on its way the copy
    asks for a function of a module without a name. -/
def copyAroundLookup : List (Event 1) :=
  [.enter (.cudaMemcpy 64 1) (Sys.bareCtx 0x700000007 100 0),
    .enter (.cuModuleGetFunction 8 0) (Sys.bareCtx 0x700000007 110 0),
    .ret (Sys.bareCtx 0x700000007 120 1),
    .ret (Sys.bareCtx 0x700000007 200 2)]

theorem outermost_call_attributed_copy :
    ((Sys.run {} 1 copyAroundLookup).hist.returns.map fun r =>
        (r.outermost, r.recorded.map (·.eventType))) = [(false, none), (true, some .cudaMemcpy)] ∧
      RecordsOf {} (Sys.run {} 1 copyAroundLookup) ∧
      OutermostOnly {} (Sys.run {} 1 copyAroundLookup) := by
  have hspace : Sys.Permitted {} ProbeWithSpace copyAroundLookup := by decide
  obtain ⟨hrecords, -, honly, -, -⟩ :=
    outermost_call_attributed (by decide) (hspace.mono fun _ _ h => h.withRoom)
  exact ⟨by decide, hrecords, honly (by decide)⟩

/-- Thread 7 of process 7 copies 64 bytes to the device; the copy synchronizes a stream on its
    way, and fails with code 2 long after that. -/
def nestedRun : List (Event 1) :=
  [.enter (.cudaMemcpy 64 1) (Sys.bareCtx 0x700000007 100 0),
    .enter (.cudaStreamSync 0) (Sys.bareCtx 0x700000007 110 0),
    .ret (Sys.bareCtx 0x700000007 120 0),
    .ret (Sys.bareCtx 0x700000007 200 2)]

/-- The copy failed after 100 ns. What is recorded is a successful copy of 20 ns, made by the
    return of the inner call; the copy's own return records nothing. -/
theorem nested_call_misattributed :
    Sys.Permitted {} ProbeWithSpace nestedRun ∧
      ((Sys.run {} 1 nestedRun).hist.returns.map fun r =>
          (r.call.probe, r.outermost, r.recorded.map (·.eventType))) =
        [(.cudaStreamSync 0, false, some .cudaMemcpy), (.cudaMemcpy 64 1, true, none)] ∧
      (Sys.run {} 1 nestedRun).bpf.aggregated.slots.keys =
        [{ eventType := .cudaMemcpy, pid := 7, memcpyKind := 1, errorCode := 0, stream := 0 }] ∧
      ((Sys.run {} 1 nestedRun).bpf.aggregated.slot 0
          { eventType := .cudaMemcpy, pid := 7, memcpyKind := 1, errorCode := 0,
            stream := 0 }).durationSumNs = 20 := by
  decide

end Profi
