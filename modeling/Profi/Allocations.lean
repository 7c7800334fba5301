import Profi.Closing

/-!
# Where Allocated Bytes Are Accounted For

The size of an allocation passes through four maps. The entry of a malloc leaves the address
of the caller's pointer in `MALLOC_PTRS` and the size in `INFLIGHT`; its return moves the size
to `MALLOC_SIZES` under the device pointer and adds it to `AGGREGATED`. The entry of a free
takes the size out of `MALLOC_SIZES` into `INFLIGHT`, and its return adds it to `AGGREGATED`.

- `Sys.PtrsOk`: a remembered pointer belongs to a malloc the thread has open
- `Sys.Accountable`: the runs in which the bytes can be followed
- `Sys.accounted_eq`: what the drains and `AGGREGATED` hold for a process, mallocs minus frees,
  is what `MALLOC_SIZES` and the frees in flight hold, scaled by the sampling rate, plus what
  was forgotten by frees that the sampler dropped
-/

namespace Profi

variable {n : ℕ} {args : Args}

/-! ## The malloc maps -/

/-- The process of a thread. -/
def pidOf (pidTgid : U64) : U32 := (pidTgid >>> 32).setWidth 32

def isMallocEvent : EventType → Bool
  | .cudaMalloc | .cudaMallocAsync => true
  | _ => false

def isFreeEvent : EventType → Bool
  | .cudaFree | .cudaFreeAsync => true
  | _ => false

theorem aggregatable_of_isMallocEvent (eventType : EventType) (h : isMallocEvent eventType = true) :
    profiIsAggregatable eventType = true := by
  cases eventType <;> first | rfl | cases h

theorem aggregatable_of_isFreeEvent (eventType : EventType) (h : isFreeEvent eventType = true) :
    profiIsAggregatable eventType = true := by
  cases eventType <;> first | rfl | cases h

namespace Probe

/-- Where a malloc is to write the device pointer, if that is not null. -/
def outPtr : Probe → Option U64
  | cudaMalloc ptrToPtr _ | cudaMallocAsync ptrToPtr _ _ =>
      if ptrToPtr ≠ 0 then some ptrToPtr else none
  | _ => none

/-- The pointer given to a free, if that is not null. -/
def freedPtr : Probe → Option U64
  | cudaFree ptr | cudaFreeAsync ptr _ => if ptr ≠ 0 then some ptr else none
  | _ => none

theorem isMallocEvent_eventType (p : Probe) : isMallocEvent p.eventType = p.isMalloc := by
  cases p with
  | ncclCountDtype34 sym _ _ => cases sym <;> rfl
  | ncclCountDtype23 sym _ _ => cases sym <;> rfl
  | _ => rfl

theorem outPtr_of_not_malloc {p : Probe} (h : p.isMalloc = false) : p.outPtr = none := by
  cases p <;> first | rfl | simp [isMalloc] at h

theorem freedPtr_of_not_free {p : Probe} (h : isFreeEvent p.eventType = false) :
    p.freedPtr = none := by
  cases p <;> first | rfl | simp [isFreeEvent, eventType] at h

theorem prepare_mallocPtrs (s : Bpf n) (ctx : Ctx n) (p : Probe) :
    (p.prepare s ctx).mallocPtrs =
      match p.outPtr with
      | some ptrToPtr => s.mallocPtrs.insert ctx.pidTgid ptrToPtr
      | none => s.mallocPtrs := by
  cases p <;> simp only [prepare, outPtr, Bpf.storeMallocPtr, Bpf.forgetMallocSize] <;>
    split <;> rfl

theorem prepare_mallocSizes (s : Bpf n) (ctx : Ctx n) (p : Probe) :
    (p.prepare s ctx).mallocSizes =
      match p.freedPtr with
      | some ptr => s.mallocSizes.erase ⟨ctx.pid, ptr⟩
      | none => s.mallocSizes := by
  cases p <;> simp only [prepare, freedPtr, Bpf.storeMallocPtr, Bpf.forgetMallocSize] <;>
    split <;> rfl

/-- A free saves the recorded size of its pointer. -/
theorem entryData_arg0_of_free (s : Bpf n) (ctx : Ctx n) {p : Probe}
    (h : isFreeEvent p.eventType = true) :
    (p.entryData s ctx).arg0 =
      (p.freedPtr.bind fun ptr => s.mallocSizes.lookup ⟨ctx.pid, ptr⟩).getD 0 := by
  cases p with
  | cudaFree ptr =>
    simp only [entryData, savedArgs, freedPtr, Bpf.freedSize]
    split <;> rfl
  | cudaFreeAsync ptr stream =>
    simp only [entryData, savedArgs, freedPtr, Bpf.freedSize]
    split <;> rfl
  | ncclCountDtype34 sym _ _ => cases sym <;> cases h
  | ncclCountDtype23 sym _ _ => cases sym <;> cases h
  | _ => cases h

end Probe

namespace Bpf

/-- The `MALLOC_SIZES` entry a malloc's return program writes. -/
def allocation (s : Bpf n) (ctx : Ctx n) : Option (MallocKey × U64) :=
  (s.mallocPtrs.lookup ctx.pidTgid).bind fun ptrToPtr =>
    (s.inflight.lookup ctx.pidTgid).bind fun entry =>
      ((ctx.readUser ptrToPtr).filter (· ≠ 0)).map fun devPtr => (⟨ctx.pid, devPtr⟩, entry.arg0)

theorem registerMalloc_mallocSizes (s : Bpf n) (ctx : Ctx n) :
    (s.registerMalloc ctx).mallocSizes =
      match s.allocation ctx with
      | some (key, size) => s.mallocSizes.insert key size
      | none => s.mallocSizes := by
  unfold registerMalloc allocation
  cases s.mallocPtrs.lookup ctx.pidTgid with
  | none => rfl
  | some ptrToPtr =>
    cases hentry : s.inflight.lookup ctx.pidTgid with
    | none => simp [hentry]
    | some entry =>
      cases hread : ctx.readUser ptrToPtr with
      | none => simp [hentry, hread]
      | some devPtr => by_cases hnull : devPtr = 0#64 <;>
          simp [hentry, hread, hnull, Option.filter_some]

theorem registerMalloc_mallocPtrs (s : Bpf n) (ctx : Ctx n) :
    (s.registerMalloc ctx).mallocPtrs = s.mallocPtrs.erase ctx.pidTgid := by
  unfold registerMalloc
  cases hptr : s.mallocPtrs.lookup ctx.pidTgid with
  | none =>
    apply AList.ext
    exact (List.kerase_of_notMem_keys fun hmem => AList.lookup_eq_none.mp hptr hmem).symm
  | some ptrToPtr =>
    simp only
    repeat' split
    all_goals rfl

end Bpf

namespace Sys

variable {s : Sys n}

/-! ## Who owns a remembered pointer -/

/-- A remembered pointer belongs to a malloc the thread has open. -/
def PtrsOk (s : Sys n) : Prop :=
  ∀ id ptrToPtr, s.bpf.mallocPtrs.lookup id = some ptrToPtr →
    ∃ c ∈ s.stack id, c.probe.outPtr = some ptrToPtr

theorem PtrsOk.free (h : PtrsOk s) {id : U64} (hs : s.stack id = []) :
    s.bpf.mallocPtrs.lookup id = none := by
  cases hl : s.bpf.mallocPtrs.lookup id with
  | none => rfl
  | some ptrToPtr =>
    obtain ⟨c, hc, -⟩ := h id ptrToPtr hl
    rw [hs] at hc
    cases hc

theorem enter_mallocPtrs_other (s : Sys n) (p : Probe) (ctx : Ctx n) {id : U64}
    (h : id ≠ ctx.pidTgid) :
    (s.enter p ctx).bpf.mallocPtrs.lookup id = s.bpf.mallocPtrs.lookup id := by
  simp only [enter]
  rw [(Probe.enter_mallocMaps s.bpf ctx p).1, Probe.prepare_mallocPtrs]
  cases p.outPtr with
  | none => rfl
  | some ptrToPtr => exact AList.lookup_insert_ne h

theorem enter_mallocPtrs_self (s : Sys n) (p : Probe) (ctx : Ctx n) :
    (s.enter p ctx).bpf.mallocPtrs.lookup ctx.pidTgid =
      p.outPtr.or (s.bpf.mallocPtrs.lookup ctx.pidTgid) := by
  simp only [enter]
  rw [(Probe.enter_mallocMaps s.bpf ctx p).1, Probe.prepare_mallocPtrs]
  cases p.outPtr with
  | none => rfl
  | some ptrToPtr => exact AList.lookup_insert _

/-- A malloc's return forgets the pointer, other returns leave it alone. -/
theorem exit_mallocPtrs (b : Bpf n) (ctx : Ctx n) (p : Probe) :
    (p.exit b ctx).mallocPtrs =
      if p.isMalloc then b.mallocPtrs.erase ctx.pidTgid else b.mallocPtrs := by
  rw [(Probe.exit_mallocMaps b ctx p).1, Bpf.registerMalloc_mallocPtrs]

theorem exit_mallocPtrs_other (b : Bpf n) (ctx : Ctx n) (p : Probe) {id : U64}
    (h : id ≠ ctx.pidTgid) : (p.exit b ctx).mallocPtrs.lookup id = b.mallocPtrs.lookup id := by
  rw [exit_mallocPtrs]
  split
  · exact AList.lookup_erase_ne h
  · rfl

theorem ptrsOk_step (h : PtrsOk s) (e : Event n) : PtrsOk (s.step args e) := by
  intro id ptrToPtr hl
  rcases step_cases args s e with ⟨p, ctx, -, hstep⟩ | ⟨ctx, call, rest, -, hs, hstep⟩ |
    ⟨ev, -, hstep⟩ | hbg
  · rw [hstep] at hl ⊢
    by_cases hid : id = ctx.pidTgid
    · subst hid
      -- the slot is new, or it is still that of a call further out
      rw [enter_mallocPtrs_self] at hl
      rw [enter_stack_self]
      rcases Option.or_eq_some_iff.mp hl with hnew | ⟨-, hold⟩
      · exact ⟨s.opened p ctx, by simp, hnew⟩
      · obtain ⟨c, hc, hptr⟩ := h _ _ hold
        exact ⟨{ c with alone := false }, List.mem_cons_of_mem _ (List.mem_map_of_mem hc), hptr⟩
    · rw [enter_mallocPtrs_other s p ctx hid] at hl
      rw [enter_stack_other s p ctx hid]
      exact h id ptrToPtr hl
  · rw [hstep] at hl ⊢
    by_cases hid : id = ctx.pidTgid
    · subst hid
      simp only [Function.update_self] at hl ⊢
      rw [exit_mallocPtrs] at hl
      split at hl
      · rw [AList.lookup_erase] at hl
        cases hl
      · -- the innermost call is no malloc, so the owner is further out
        rename_i hmalloc
        obtain ⟨c, hc, hptr⟩ := h _ _ hl
        rw [hs] at hc
        rcases List.mem_cons.mp hc with rfl | hc
        · rw [Probe.outPtr_of_not_malloc (by simpa using hmalloc)] at hptr
          cases hptr
        · exact ⟨c, hc, hptr⟩
    · simp only [Function.update_of_ne hid] at hl ⊢
      rw [exit_mallocPtrs_other s.bpf ctx call.probe hid] at hl
      exact h id ptrToPtr hl
  · rw [hstep] at hl ⊢
    -- an eviction only empties slots
    refine h id ptrToPtr ?_
    cases ev with
    | mallocPtrs id' =>
      by_cases hid : id = id'
      · subst hid
        simp [Bpf.evict] at hl
      · simpa [Bpf.evict, AList.lookup_erase_ne hid] using hl
    | _ => exact hl
  · rw [hbg.bpf] at hl
    rw [hbg.stack]
    exact h id ptrToPtr hl

theorem ptrsOk_init (n : ℕ) (args : Args) : PtrsOk (Sys.init n args) := by
  intro id ptrToPtr h
  simp [Sys.init, Bpf.init] at h

theorem ptrsOk_run (args : Args) (es : List (Event n)) : PtrsOk (run args n es) :=
  invariant_run PtrsOk (ptrsOk_init n args) (fun _ e h => ptrsOk_step h e) es

/-! ## Runs in which the bytes can be followed -/

/-- A malloc that returns has written a device pointer that can be read, is not null and is
    not taken. -/
def YieldsNew (taken : MallocKey → Prop) [DecidablePred taken] (s : Sys n) : Event n → Prop
  | .ret ctx => ∀ call ∈ (s.stack ctx.pidTgid).head?, call.probe.isMalloc = true →
      (call.probe.outPtr.bind ctx.readUser).any fun devPtr =>
        devPtr ≠ 0 ∧ ¬taken ⟨ctx.pid, devPtr⟩
  | _ => True

instance (taken : MallocKey → Prop) [DecidablePred taken] (s : Sys n) :
    (e : Event n) → Decidable (YieldsNew taken s e)
  | .ret ctx => inferInstanceAs (Decidable (∀ call ∈ (s.stack ctx.pidTgid).head?,
      call.probe.isMalloc = true → ((call.probe.outPtr.bind ctx.readUser).any fun devPtr =>
        devPtr ≠ 0 ∧ ¬taken ⟨ctx.pid, devPtr⟩) = true))
  | .enter _ _ | .registerFunction _ _ _ | .nvtxPush _ _ | .nvtxPop _ | .evict _
  | .consume _ | .aggTick _ | .gcTick _ | .nameKernel _ _ _ => inferInstanceAs (Decidable True)

/-- What a returning malloc has written, spelled out. -/
theorem YieldsNew.exists {taken : MallocKey → Prop} [DecidablePred taken] {ctx : Ctx n}
    {call : OpenCall} {rest : List OpenCall} (h : YieldsNew taken s (.ret ctx))
    (hs : s.stack ctx.pidTgid = call :: rest) (hmalloc : call.probe.isMalloc = true) :
    ∃ ptrToPtr devPtr, call.probe.outPtr = some ptrToPtr ∧ ctx.readUser ptrToPtr = some devPtr ∧
      devPtr ≠ 0 ∧ ¬taken ⟨ctx.pid, devPtr⟩ := by
  obtain ⟨devPtr, hread, hdev⟩ :=
    (Option.any_eq_true _ _).mp (h call (by rw [hs]; rfl) hmalloc)
  obtain ⟨ptrToPtr, hptr, hread⟩ := Option.bind_eq_some_iff.mp hread
  obtain ⟨hnull, hnew⟩ := of_decide_eq_true hdev
  exact ⟨ptrToPtr, devPtr, hptr, hread, hnull, hnew⟩

/-- The pointer is not recorded for the process at that moment. -/
abbrev YieldsFresh (s : Sys n) (e : Event n) : Prop := YieldsNew (· ∈ s.bpf.mallocSizes) s e

/-- No call is nested, no map evicts, `AGGREGATED` has room, and mallocs yield fresh pointers.
    What the calls return plays no part, nor does what is freed. -/
structure Accountable (args : Args) (s : Sys n) (e : Event n) : Prop where
  nonNested : NonNested s e
  keeps : ∀ ev, e ≠ .evict ev
  aggregated : (aggView args n).Room s e
  fresh : YieldsFresh s e

/-- What a thread with an open call has in the maps: that call's entry and its pointer. -/
structure Following (args : Args) (s : Sys n) : Prop where
  slots : SlotOk args s
  alone : AloneOk s
  flat : Flat s
  ptrs : PtrsOk s
  outPtr : ∀ id c, s.stack id = [c] → s.bpf.mallocPtrs.lookup id = c.probe.outPtr

theorem following_init (n : ℕ) (args : Args) : Following args (Sys.init n args) where
  slots := slotOk_init n args
  alone := aloneOk_init n args
  flat := fun _ => .inl rfl
  ptrs := ptrsOk_init n args
  outPtr := by
    intro id c h
    simp [Sys.init] at h

theorem following_step (h : Following args s) {e : Event n} (he : Accountable args s e) :
    Following args (s.step args e) where
  slots := slotOk_step h.slots e
  alone := aloneOk_step h.slots h.alone fun id => he.keeps (.inflight id)
  flat := flat_step h.flat he.nonNested
  ptrs := ptrsOk_step h.ptrs e
  outPtr := by
    intro id c hc
    rcases step_cases args s e with ⟨p, ctx, rfl, hstep⟩ | ⟨ctx, call, rest, -, hs, hstep⟩ |
      ⟨ev, rfl, -⟩ | hbg
    · rw [hstep] at hc ⊢
      by_cases hid : id = ctx.pidTgid
      · subst hid
        -- the call is the only one of its thread, so the slot is its own
        have hidle : s.stack ctx.pidTgid = [] := he.nonNested
        rw [enter_stack_self, hidle] at hc
        obtain ⟨rfl, -⟩ := List.cons_eq_cons.mp hc
        rw [enter_mallocPtrs_self, h.ptrs.free hidle, Option.or_none]
        rfl
      · rw [enter_stack_other s p ctx hid] at hc
        rw [enter_mallocPtrs_other s p ctx hid]
        exact h.outPtr id c hc
    · rw [hstep] at hc ⊢
      by_cases hid : id = ctx.pidTgid
      · -- the thread has no second call open
        subst hid
        simp only [Function.update_self] at hc
        rcases h.flat ctx.pidTgid with hnil | ⟨c', hc', -⟩
        · rw [hnil] at hs
          cases hs
        · rw [hc', hc] at hs
          cases hs
      · simp only [Function.update_of_ne hid] at hc
        rw [exit_mallocPtrs_other s.bpf ctx call.probe hid]
        exact h.outPtr id c hc
    · exact absurd rfl (he.keeps ev)
    · rw [hbg.stack] at hc
      rw [hbg.bpf]
      exact h.outPtr id c hc

/-- The call of a thread that returns is its only one, and has its entry in the slot. -/
theorem Following.returning (h : Following args s) {ctx : Ctx n} {call : OpenCall}
    {rest : List OpenCall} (hs : s.stack ctx.pidTgid = call :: rest) :
    s.stack ctx.pidTgid = [call] ∧
      s.bpf.inflight.lookup ctx.pidTgid = if call.stored then some call.entry else none :=
  h.flat.returning h.alone hs

/-! ## Bytes -/

end Sys

/-- The size sum of a key of this kind and process. -/
def sizeSumOf (kind : EventType → Bool) (pid : U32) (key : AggKey) (val : AggValue) : U64 :=
  if key.pid = pid ∧ kind key.eventType = true then val.sizeSum else 0

/-- The bytes a call of this kind and process adds to its size sum. -/
def Completed.bytes (kind : EventType → Bool) (pid : U32) (r : Completed n) : U64 :=
  match r.aggEntry with
  | some entry =>
    if r.ctx.pid = pid ∧ kind entry.eventType = true then entry.arg0 * r.sampleMul else 0
  | none => 0

namespace Bpf

/-- The recorded sizes of a process. -/
def tracked (pid : U32) (b : Bpf n) : U64 :=
  b.mallocSizes.sum fun key size => if key.pid = pid then size else 0

/-- The sizes the frees in flight of a process carry. -/
def freeing (pid : U32) (b : Bpf n) : U64 :=
  b.inflight.sum fun id entry =>
    if pidOf id = pid ∧ isFreeEvent entry.eventType = true then entry.arg0 else 0

end Bpf

namespace Sys

variable {s : Sys n}

/-- Size sums of a kind and process: what was drained and what is in `AGGREGATED`. -/
def accounted (args : Args) (kind : EventType → Bool) (pid : U32) (s : Sys n) : U64 :=
  (aggView args n).handedSum (sizeSumOf kind pid) s.hist +
    (aggView args n).storedSum (sizeSumOf kind pid) s.bpf

variable (kind : EventType → Bool) {ctx : Ctx n} {call : OpenCall}

theorem sizeSumOf_add (pid : U32) (r : Completed n) (key : AggKey)
    (hkey : (aggView args n).key r = some key) (val : AggValue) :
    sizeSumOf kind pid key ((aggView args n).add r val) =
      sizeSumOf kind pid key val + r.bytes kind pid := by
  obtain ⟨entry, hentry, rfl⟩ := Option.map_eq_some_iff.mp hkey
  simp only [sizeSumOf, Completed.bytes, hentry, aggView, addItem]
  by_cases hkind : r.ctx.pid = pid ∧ kind entry.eventType = true
  · have hkind' : (r.aggKey entry).pid = pid ∧ kind (r.aggKey entry).eventType = true := hkind
    rw [if_pos hkind, if_pos hkind', if_pos hkind']
    rfl
  · have hkind' : ¬((r.aggKey entry).pid = pid ∧ kind (r.aggKey entry).eventType = true) := hkind
    rw [if_neg hkind, if_neg hkind', if_neg hkind', add_zero]

theorem sizeSumOf_zero (pid : U32) (key : AggKey) : sizeSumOf kind pid key 0 = 0 := by
  simp only [sizeSumOf]
  split <;> rfl

theorem bytes_of_key_eq_none (pid : U32) (r : Completed n) (hkey : (aggView args n).key r = none) :
    r.bytes kind pid = 0 := by
  simp only [aggView, Option.map_eq_none_iff] at hkey
  simp [Completed.bytes, hkey]

/-- The size sums are what the calls added. -/
theorem accounted_eq_returns {es : List (Event n)}
    (hes : Permitted args ((aggView args n).Room) es) (kind : EventType → Bool) (pid : U32) :
    accounted args kind pid (run args n es) =
      ((run args n es).hist.returns.map (Completed.bytes kind pid)).sum := by
  exact (aggView args n).conserved (sizeSumOf kind pid) (Completed.bytes kind pid)
    (sizeSumOf_zero kind pid) (bytes_of_key_eq_none kind pid)
    (hes.mono fun _ _ h => (aggView args n).absorbs_of_room (sizeSumOf_add kind pid) h)

/-! ## What entries and returns do to the sizes -/

/-- The size of a call, if it is of this kind and process. -/
def sizeIf (kind : EventType → Bool) (pid : U32) (id : U64) (entry : EntryData) : U64 :=
  if pidOf id = pid ∧ kind entry.eventType = true then entry.arg0 else 0

/-- The entry of a free takes the size it saves out of the recorded sizes. -/
theorem enter_tracked (b : Bpf n) (ctx : Ctx n) (p : Probe) (pid : U32) :
    (p.enter b ctx).tracked pid + sizeIf isFreeEvent pid ctx.pidTgid (p.entryData b ctx) =
      b.tracked pid := by
  unfold Bpf.tracked
  rw [(Probe.enter_mallocMaps b ctx p).2, Probe.prepare_mallocSizes]
  cases hfree : isFreeEvent p.eventType with
  | false =>
    have hkind : isFreeEvent (p.entryData b ctx).eventType = false := hfree
    simp [Probe.freedPtr_of_not_free hfree, sizeIf, hkind]
  | true =>
    have hkind : isFreeEvent (p.entryData b ctx).eventType = true := hfree
    have hpid : pidOf ctx.pidTgid = ctx.pid := rfl
    simp only [sizeIf, hkind, hpid, and_true, Probe.entryData_arg0_of_free b ctx hfree]
    cases p.freedPtr with
    | none => simp
    | some ptr =>
      dsimp only [Option.bind_some]
      -- a free of a pointer nobody allocated reads size 0, so both sides agree there too
      cases hl : b.mallocSizes.lookup ⟨ctx.pid, ptr⟩ with
      | none =>
        rw [FinMap.sum_erase_of_lookup_none _ hl]
        simp
      | some size =>
        rw [← FinMap.sum_erase_of_lookup (fun (key : MallocKey) (size : U64) =>
          if key.pid = pid then size else 0) hl, add_comm]
        rfl

/-- A free that is kept carries the size it saved. -/
theorem enter_freeing {b : Bpf n} (hfree : b.inflight.lookup ctx.pidTgid = none) (p : Probe)
    (pid : U32) :
    (p.enter b ctx).freeing pid =
      b.freeing pid +
        if p.stores b ctx then sizeIf isFreeEvent pid ctx.pidTgid (p.entryData b ctx) else 0 :=
  sum_inflight_enter (sizeIf isFreeEvent pid) hfree p

theorem exit_freeing {b : Bpf n}
    (hslot : b.inflight.lookup ctx.pidTgid = if call.stored then some call.entry else none)
    (hopen : OpenedBy args n ctx.pidTgid call) (pid : U32) :
    (call.probe.exit b ctx).freeing pid +
        (if call.stored then sizeIf isFreeEvent pid ctx.pidTgid call.entry else 0) =
      b.freeing pid :=
  sum_inflight_exit (sizeIf isFreeEvent pid) hslot hopen

/-- The return of a malloc that was kept records its size. -/
theorem exit_tracked (h : Following args s) {rest : List OpenCall}
    (hs : s.stack ctx.pidTgid = call :: rest) (hfresh : YieldsFresh s (.ret ctx)) (pid : U32) :
    (call.probe.exit s.bpf ctx).tracked pid =
      s.bpf.tracked pid +
        if call.stored then sizeIf isMallocEvent pid ctx.pidTgid call.entry else 0 := by
  obtain ⟨hs', hslot⟩ := h.returning hs
  have hopen := h.slots.opened ctx.pidTgid call (by rw [hs]; simp)
  have hkind : isMallocEvent call.entry.eventType = call.probe.isMalloc := by
    rw [hopen.eventType, Probe.isMallocEvent_eventType]
  unfold Bpf.tracked sizeIf
  rw [(Probe.exit_mallocMaps s.bpf ctx call.probe).2, hkind]
  cases hmalloc : call.probe.isMalloc with
  | false => simp
  | true =>
    -- the pointer is new, so the insertion adds a row and replaces none
    obtain ⟨ptrToPtr, devPtr, hptr, hread, hnull, hnew⟩ := hfresh.exists hs hmalloc
    have hout : s.bpf.mallocPtrs.lookup ctx.pidTgid = some ptrToPtr := by
      rw [h.outPtr _ _ hs', hptr]
    have hlookup : s.bpf.mallocSizes.lookup ⟨ctx.pid, devPtr⟩ = none :=
      AList.lookup_eq_none.mpr hnew
    simp only [↓reduceIte, and_true]
    rw [Bpf.registerMalloc_mallocSizes, Bpf.allocation, hout, hslot]
    cases call.stored with
    | false => simp
    | true =>
      have hfilter : (some devPtr).filter (fun x : U64 => decide (x ≠ 0)) = some devPtr := by
        simp [Option.filter_some, show ¬devPtr = 0#64 from hnull]
      simp only [↓reduceIte, Option.bind_some, hread, hfilter, Option.map_some]
      rw [FinMap.sum_insert_of_lookup_none _ _ hlookup, add_comm]
      rfl

/-- A return that finds its own entry adds the size it saved, scaled by the sampling rate. -/
theorem completed_bytes (hcfg : ConfigOk args s.bpf)
    (hslot : s.bpf.inflight.lookup ctx.pidTgid = if call.stored then some call.entry else none)
    (htype : call.entry.eventType = call.probe.eventType) (rest : List OpenCall)
    (kind : EventType → Bool)
    (hkind : ∀ eventType, kind eventType = true → profiIsAggregatable eventType = true)
    (pid : U32) :
    (s.completed ctx call rest).bytes kind pid =
      (if call.stored then sizeIf kind pid ctx.pidTgid call.entry else 0) * args.sampleMul := by
  have hmul : (s.completed ctx call rest).sampleMul = args.sampleMul := hcfg.sampleMul
  unfold Completed.bytes Completed.aggEntry
  rw [hmul]
  simp only [completed, Probe.recorded, hslot]
  cases call.stored with
  | false => simp
  | true =>
    cases hk : kind call.entry.eventType with
    | false =>
      simp only [↓reduceIte, sizeIf, hk, Bool.false_eq_true, and_false, zero_mul]
      split
      next entry hentry =>
        have hmem := Option.eq_some_of_filter_eq_some hentry
        split at hmem
        · cases hmem
        · rw [← Option.some.inj hmem, hk]
          simp
      · rfl
    | true =>
      -- what is recorded is the entry itself: the return of `cuModuleGetFunction` is not of an
      -- aggregated kind
      have hagg := hkind _ hk
      have hmgf : call.probe.isModuleGetFunction = false := by
        rw [htype] at hagg
        by_contra hp
        rw [(Probe.eventType_eq_register _).mpr (by simpa using hp)] at hagg
        cases hagg
      simp only [hmgf, Bool.false_eq_true, ↓reduceIte, Option.filter_some, hagg, sizeIf, hk,
        and_true]
      split
      next hpid => rw [if_pos (show pidOf ctx.pidTgid = pid from hpid)]
      next hpid => rw [if_neg (show ¬pidOf ctx.pidTgid = pid from hpid), zero_mul]

/-! ## Conservation -/

/-- The bytes that leave the account when a free is entered and the sampler drops it: their
    size is no longer recorded and will not be counted as freed. -/
def forgottenBy (args : Args) (pid : U32) (s : Sys n) : Event n → U64
  | .enter p ctx =>
    (if p.stores s.bpf ctx then 0
      else sizeIf isFreeEvent pid ctx.pidTgid (p.entryData s.bpf ctx)) * args.sampleMul
  | _ => 0

/-- Bytes of the mallocs that returned minus bytes of the frees that returned. -/
def netBytes (pid : U32) (s : Sys n) : U64 :=
  (s.hist.returns.map (Completed.bytes isMallocEvent pid)).sum -
    (s.hist.returns.map (Completed.bytes isFreeEvent pid)).sum

/-- The bytes the malloc maps and the frees in flight still hold, as they will be counted. -/
def heldBytes (args : Args) (pid : U32) (s : Sys n) : U64 :=
  (s.bpf.tracked pid + s.bpf.freeing pid) * args.sampleMul

/-- One step moves the net bytes with the held bytes, up to what it makes the profiler
    forget. -/
theorem netBytes_step (h : Following args s) {e : Event n} (he : Accountable args s e)
    (pid : U32) :
    (s.step args e).netBytes pid - (s.step args e).heldBytes args pid =
      s.netBytes pid - s.heldBytes args pid + s.forgottenBy args pid e := by
  unfold netBytes heldBytes
  rcases step_cases args s e with ⟨p, ctx, rfl, hstep⟩ | ⟨ctx, call, rest, rfl, hs, hstep⟩ |
    ⟨ev, rfl, -⟩ | hbg
  · -- entry: a free takes its bytes out of the table and, if stored, holds them in flight
    have hfree := h.slots.free (show s.stack ctx.pidTgid = [] from he.nonNested)
    have htracked := enter_tracked s.bpf ctx p pid
    have hfreeing := enter_freeing hfree p pid
    rw [hstep]
    simp only [enter, forgottenBy]
    rw [hfreeing, ← htracked]
    cases p.stores s.bpf ctx
    · simp only [Bool.false_eq_true, ↓reduceIte]
      ring
    · simp only [↓reduceIte]
      ring
  · -- return: what was in flight, or newly tracked, becomes counted
    obtain ⟨-, hslot⟩ := h.returning hs
    have hopen := h.slots.opened ctx.pidTgid call (by rw [hs]; simp)
    have htracked := exit_tracked h hs he.fresh pid
    have hfreeing := exit_freeing hslot hopen pid
    have hmalloc := completed_bytes h.slots.config hslot hopen.eventType rest isMallocEvent
      aggregatable_of_isMallocEvent pid
    have hfree := completed_bytes h.slots.config hslot hopen.eventType rest isFreeEvent
      aggregatable_of_isFreeEvent pid
    rw [hstep]
    simp only [forgottenBy, List.map_append, List.map_cons, List.map_nil, List.sum_append,
      List.sum_cons, List.sum_nil, add_zero]
    rw [htracked, ← hfreeing, hmalloc, hfree]
    ring
  · exact absurd rfl (he.keeps ev)
  · have hforgotten : s.forgottenBy args pid e = 0 := by
      cases e with
      | enter p ctx => exact absurd hbg (s.not_background_enter p ctx)
      | _ => rfl
    rw [hforgotten, add_zero, hbg.returns, hbg.bpf]
    rfl

/-- What a run has forgotten of a process. -/
def forgotten (args : Args) (pid : U32) (es : List (Event n)) : U64 :=
  Runs.accrued (step args) (forgottenBy args pid) (Sys.init n args) es

/-- **Where the bytes are.** Mallocs minus frees, drained or not, are the held bytes and the
    forgotten ones. -/
theorem accounted_eq {es : List (Event n)} (hes : Permitted args (Accountable args) es)
    (pid : U32) :
    accounted args isMallocEvent pid (run args n es) -
        accounted args isFreeEvent pid (run args n es) =
      (run args n es).heldBytes args pid + forgotten args pid es := by
  have hroom := hes.mono fun _ _ h => h.aggregated
  have hnet := Runs.run_eq_add_accrued
    (f := fun s : Sys n => s.netBytes pid - s.heldBytes args pid)
    (fun _ _ h he => following_step h he) (fun _ _ h he => netBytes_step h he pid)
    (following_init n args) hes
  have hinit : (Sys.init n args).netBytes pid - (Sys.init n args).heldBytes args pid = 0 := by
    simp [netBytes, heldBytes, Sys.init, Bpf.init, Bpf.tracked, Bpf.freeing]
  rw [accounted_eq_returns hroom, accounted_eq_returns hroom]
  rw [hinit, zero_add] at hnet
  exact sub_eq_iff_eq_add'.mp hnet

/-- A decidable way to be accountable: every map has room for one more. -/
theorem accountable_of_withSpace {e : Event n} (h : WithSpace s e ∧ YieldsFresh s e) :
    Accountable args s e := by
  have horderly : Orderly args s e := h.1.orderly
  refine ⟨horderly.nonNested, ?_, horderly.aggregated, h.2⟩
  rintro ev rfl
  exact h.1.1

/-- Without sampling, in every state of such a run, a process's size sums of mallocs minus
    those of frees are its recorded sizes plus what its frees in flight carry. -/
theorem active_memory_conserved (hrate : args.sampleRate ≤ 1) {es : List (Event n)}
    (hes : Permitted args (Accountable args) es) (pid : U32) :
    accounted args isMallocEvent pid (run args n es) -
        accounted args isFreeEvent pid (run args n es) =
      (run args n es).bpf.tracked pid + (run args n es).bpf.freeing pid := by
  have hmul : args.sampleMul = 1 := if_neg (by simpa using hrate)
  have hforgotten : forgotten args pid es = 0 := by
    refine Runs.accrued_eq_zero (I := fun s => ConfigOk args s.bpf)
      (fun _ e h _ => configOk_step h e) ?_ (configOk_init args) hes
    intro s e hcfg _
    cases e with
    | enter p ctx =>
      -- without sampling every free is stored, so no entry forgets bytes
      cases hfree : isFreeEvent p.eventType with
      | false =>
        have hkind : isFreeEvent (p.entryData s.bpf ctx).eventType = false := hfree
        simp [forgottenBy, sizeIf, hkind]
      | true =>
        have hopen : OpenedBy args n ctx.pidTgid (s.opened p ctx) :=
          ⟨s.bpf, ctx, hcfg, rfl, rfl, rfl⟩
        have hmgf : p.isModuleGetFunction = false := by
          cases p <;> first | rfl | cases hfree
        have hstores : p.stores s.bpf ctx = true := hopen.stored hrate hmgf
        simp [forgottenBy, hstores]
    | _ => rfl
  rw [accounted_eq hes, hforgotten, heldBytes, hmul, mul_one, add_zero]

/-- A process of two threads. The second thread's free is in flight when the first gets the
    same address again. -/
def addressReused : List (Event 1) :=
  let first (ktimeNs : U64) : Ctx 1 :=
    { bareCtx 0x100000001 ktimeNs 0 with
      readUser := fun ptr => if ptr = 8 then some 4096 else none }
  let second (ktimeNs : U64) : Ctx 1 := bareCtx 0x100000002 ktimeNs 0
  [.enter (.cudaMalloc 8 100) (first 1), .ret (first 2),
    .enter (.cudaMallocAsync 8 50 3) (first 3),
    .enter (.cudaFree 4096) (second 4), .aggTick .bare, .ret (first 5)]

theorem active_memory_conserved_reused :
    accounted {} isMallocEvent 1 (run {} 1 addressReused) -
        accounted {} isFreeEvent 1 (run {} 1 addressReused) = 50 + 100 := by
  have hes : Permitted {} (fun s e => WithSpace s e ∧ YieldsFresh s e) addressReused := by decide
  rw [active_memory_conserved (by decide) (hes.mono fun _ _ h => accountable_of_withSpace h) 1]
  decide

end Sys

end Profi
