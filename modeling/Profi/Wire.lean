import Profi.Nvtx
import Profi.Ledger
import Profi.Lib.CLayout
import Profi.Lib.MapRel

/-!
# Events as Bytes

The kernel side writes C structs, the event loop reads Rust structs from the same bytes. Nothing
but bytes goes through a ring: `src/main.rs` looks at the length of a record and then takes it for a
struct of `src/events.rs`.

Here the structs of both sides are given member by member, and the layout algorithm computes sizes
and offsets for both; the `size_of` and `offset_of` asserts of the mirror follow. The ring arm of
the event loop is then stated on bytes, with its length checks, and compared with the arm on
records: no record is dropped by a check or misread (`consumeBytes_eq`), in any run
(`Sys.consumeBytes_run`).
-/

namespace Profi

open CLayout

variable {n : ℕ}

/-! ## Structs -/

/-! The structs of `src/bpf/profi_events.h`. -/

namespace EventsH

def cudaEvent : List Member :=
  [.u32 "event_type", .u32 "pid", .u32 "tid", .u32 "memcpy_kind", .u64 "timestamp_ns",
    .u64 "duration_ns", .u64 "size", .u64 "addr", .u64 "stream", .u8s "nvtx_marker" 16,
    .u8s "comm" 16, .u32 "error_code", .u32 "_pad2"]

def kernelRegEvent : List Member :=
  [.u32 "pid", .u32 "_pad", .u64 "host_fun", .u64 "name_ptr"]

def aggKey : List Member :=
  [.u32 "event_type", .u32 "pid", .u32 "memcpy_kind", .u32 "error_code", .u64 "stream"]

def aggValue : List Member :=
  [.u64 "count", .u64 "duration_sum_ns", .u64 "size_sum", .u32s "bucket_counts" 14]

def launchKey : List Member :=
  [.u32 "pid", .u32 "_pad", .u64 "host_fun", .u64 "stream"]

def launchAggValue : List Member :=
  [.u64 "count", .u64 "total_duration_ns", .u64 "max_duration_ns", .u32s "bucket_counts" 9]

def ncclAggValue : List Member :=
  [.u64 "count", .u64 "duration_sum_ns", .u64 "bytes_sum", .u32s "bucket_counts" 12]

end EventsH

/-! The `repr(C)` structs of `src/events.rs`. -/

namespace EventsRs

def cudaEvent : List Member :=
  [.u32 "event_type", .u32 "pid", .u32 "tid", .u32 "memcpy_kind", .u64 "timestamp_ns",
    .u64 "duration_ns", .u64 "size", .u64 "addr", .u64 "stream", .u8s "nvtx_marker" 16,
    .u8s "comm" 16, .u32 "error_code", .u32 "_pad2"]

def kernelRegEvent : List Member :=
  [.u32 "pid", .u32 "_pad", .u64 "host_fun", .u64 "name_ptr"]

def aggKey : List Member :=
  [.u32 "event_type", .u32 "pid", .u32 "memcpy_kind", .u32 "error_code", .u64 "stream"]

def aggValue : List Member :=
  [.u64 "count", .u64 "duration_sum_ns", .u64 "size_sum", .u32s "bucket_counts" 14]

def launchKey : List Member :=
  [.u32 "pid", .u32 "_pad", .u64 "host_fun", .u64 "stream"]

def launchAggValue : List Member :=
  [.u64 "count", .u64 "total_duration_ns", .u64 "max_duration_ns", .u32s "bucket_counts" 9]

def ncclAggValue : List Member :=
  [.u64 "count", .u64 "duration_sum_ns", .u64 "bytes_sum", .u32s "bucket_counts" 12]

/-- The layout asserts of the mirror, on what the layout algorithm computes. -/
theorem layout_asserts :
    (size cudaEvent = 96 ∧ offsets cudaEvent = [0, 4, 8, 12, 16, 24, 32, 40, 48, 56, 72, 88, 92]) ∧
    (size kernelRegEvent = 24 ∧ offsets kernelRegEvent = [0, 4, 8, 16]) ∧
    (size aggKey = 24 ∧ offsets aggKey = [0, 4, 8, 12, 16]) ∧
    (size aggValue = 80 ∧ offsets aggValue = [0, 8, 16, 24]) ∧
    (size launchKey = 24 ∧ offsets launchKey = [0, 4, 8, 16]) ∧
    (size launchAggValue = 64 ∧ offsets launchAggValue = [0, 8, 16, 24]) ∧
    (size ncclAggValue = 72 ∧ offsets ncclAggValue = [0, 8, 16, 24]) := by
  decide

end EventsRs

/-- The constant with the given value. -/
def EventType.ofCode? : ℕ → Option EventType
  | 1 => some cudaMalloc
  | 2 => some cudaFree
  | 3 => some cudaMemcpy
  | 4 => some cudaLaunchKernel
  | 5 => some cudaMemcpyAsync
  | 6 => some cudaMallocAsync
  | 7 => some cudaFreeAsync
  | 8 => some cudaRegisterFunction
  | 9 => some ncclAllReduce
  | 10 => some ncclAllGather
  | 11 => some ncclReduceScatter
  | 12 => some ncclBroadcast
  | 13 => some ncclSend
  | 14 => some ncclRecv
  | 15 => some cudaStreamSync
  | 16 => some cudaEventSync
  | 17 => some cudaMallocHost
  | 18 => some cudaFreeHost
  | 19 => some cudaMemset
  | 20 => some cudaMemsetAsync
  | 21 => some cudaGraphLaunch
  | 22 => some cudaGraphInstantiate
  | 23 => some cudaModuleLoad
  | _ => none

@[simp] theorem EventType.ofCode?_code (eventType : EventType) :
    ofCode? eventType.code = some eventType := by
  cases eventType <;> rfl

theorem EventType.fits_code (name : String) (eventType : EventType) :
    (Member.u32 name).Fits [eventType.code] :=
  Member.fits_u32_of_lt name (by cases eventType <;> decide)

/-! ## Records in words -/

/-- The word of a plain member. -/
def word (words : List (List ℕ)) (i : ℕ) : ℕ := (words.getD i []).headD 0

theorem map_ofNat_toNat (bytes : List U8) :
    bytes.map (BitVec.ofNat 8 ∘ BitVec.toNat) = bytes := by
  refine (List.map_congr_left fun b _ => ?_).trans (List.map_id bytes)
  simp

/-- `struct CudaEvent`; the name of the thread and the marker have their sixteen bytes. -/
def cudaEventLayout : Layout CudaEvent where
  members := EventsH.cudaEvent
  words e :=
    [[e.eventType.code], [e.pid.toNat], [e.tid.toNat], [e.memcpyKind.toNat], [e.timestampNs.toNat],
      [e.durationNs.toNat], [e.size.toNat], [e.addr.toNat], [e.stream.toNat],
      e.nvtxMarker.map BitVec.toNat, e.comm.map BitVec.toNat, [e.errorCode.toNat], [0]]
  ofWords ws :=
    (EventType.ofCode? (word ws 0)).map fun eventType =>
      { eventType
        pid := .ofNat 32 (word ws 1)
        tid := .ofNat 32 (word ws 2)
        memcpyKind := .ofNat 32 (word ws 3)
        timestampNs := .ofNat 64 (word ws 4)
        durationNs := .ofNat 64 (word ws 5)
        size := .ofNat 64 (word ws 6)
        addr := .ofNat 64 (word ws 7)
        stream := .ofNat 64 (word ws 8)
        nvtxMarker := (ws.getD 9 []).map (.ofNat 8)
        comm := (ws.getD 10 []).map (.ofNat 8)
        errorCode := .ofNat 32 (word ws 11) }
  Ok e := e.nvtxMarker.length = 16 ∧ e.comm.length = 16
  fits := by
    rintro e ⟨hmarker, hcomm⟩
    refine ⟨?_, by decide⟩
    exact .cons (EventType.fits_code _ _) (.cons (Member.fits_u32 _ _) (.cons (Member.fits_u32 _ _)
      (.cons (Member.fits_u32 _ _) (.cons (Member.fits_u64 _ _) (.cons (Member.fits_u64 _ _)
      (.cons (Member.fits_u64 _ _) (.cons (Member.fits_u64 _ _) (.cons (Member.fits_u64 _ _)
      (.cons (Member.fits_u8s _ hmarker) (.cons (Member.fits_u8s _ hcomm)
      (.cons (Member.fits_u32 _ _) (.cons (Member.fits_u32 _ 0) .nil))))))))))))
  ofWords_words := by
    intro e _
    simp [word, map_ofNat_toNat]

/-- `struct KernelRegEvent`. -/
def kernelRegEventLayout : Layout KernelRegEvent where
  members := EventsH.kernelRegEvent
  words r := [[r.pid.toNat], [0], [r.hostFun.toNat], [r.namePtr.toNat]]
  ofWords ws :=
    some
      { pid := .ofNat 32 (word ws 0)
        hostFun := .ofNat 64 (word ws 2)
        namePtr := .ofNat 64 (word ws 3) }
  Ok _ := True
  fits := by
    intro r _
    refine ⟨?_, by decide⟩
    exact .cons (Member.fits_u32 _ _) (.cons (Member.fits_u32 _ 0) (.cons (Member.fits_u64 _ _)
      (.cons (Member.fits_u64 _ _) .nil)))
  ofWords_words := by
    intro r _
    simp [word]

/-- `read_unaligned`: the bytes taken for a struct of the mirror. -/
def readUnaligned {α : Type} (L : Layout α) (mirror : List Member) (bytes : List U8) : Option α :=
  L.ofWords (readFrom bytes 0 mirror)

/-- Where the mirror is the struct of the header, the record that was written is read. -/
theorem readUnaligned_of_represents {α : Type} {L : Layout α} (mirror : List Member)
    (hmirror : mirror = L.members) {bytes : List U8} {a : α} (h : L.Represents bytes a) :
    readUnaligned L mirror bytes = some a := by
  rw [readUnaligned, hmirror]
  exact h.read

/-! ## The ring arm on bytes -/

/-- The `EVENTS` callback. It has no result on an event type that the header does not define. -/
def eventsCallback (queue : List CudaEvent) (data : List U8) : Option (List CudaEvent) :=
  if size EventsRs.cudaEvent ≤ data.length then
    (readUnaligned cudaEventLayout EventsRs.cudaEvent data).map fun event => queue ++ [event]
  else some queue

/-- The `KERNEL_REGS` callback. -/
def kernelRegsCallback (queue : List KernelRegEvent) (data : List U8) :
    Option (List KernelRegEvent) :=
  if data.length = size EventsRs.kernelRegEvent then
    (readUnaligned kernelRegEventLayout EventsRs.kernelRegEvent data).map fun reg => queue ++ [reg]
  else some queue

/-- The two rings as they are in memory. -/
structure WireRings where
  events : RingBuf (List U8)
  kernelRegs : RingBuf (List U8)

/-- The ring buffer arm, from bytes. -/
def Loop.consumeBytes (args : Args) (env : LoopEnv) (s : WireRings × Loop) :
    Option (WireRings × Loop) := do
  let l := s.2.invalidateChanged env
  let (batch, events) := s.1.events.consume ringbufConsumeBudget
  let eventsQueue ← batch.foldlM eventsCallback []
  let l := eventsQueue.foldl (consumeEvent args env) l
  if args.kernelMode = .full then
    let (regs, kernelRegs) := s.1.kernelRegs.consume (ringbufConsumeBudget - batch.length)
    let kregQueue ← regs.foldlM kernelRegsCallback []
    return (⟨events, kernelRegs⟩, kregQueue.foldl (registerKernel env) l)
  else return (⟨events, s.1.kernelRegs⟩, l)

/-- The bytes of a ring hold its records, one by one. -/
structure RingRep {α : Type} (L : Layout α) (w : RingBuf (List U8)) (r : RingBuf α) : Prop where
  maxEntries : w.maxEntries = r.maxEntries
  recordSize : w.recordSize = r.recordSize
  records : List.Forall₂ L.Represents w.records r.records

/-- The rings in memory are those of the program. -/
structure WireRings.Represents (w : WireRings) (b : Bpf n) : Prop where
  events : RingRep cudaEventLayout w.events b.events
  kernelRegs : RingRep kernelRegEventLayout w.kernelRegs b.kernelRegs

/-! ### One batch -/

theorem RingRep.drop {α : Type} {L : Layout α} {w : RingBuf (List U8)} {r : RingBuf α}
    (h : RingRep L w r) (k : ℕ) :
    RingRep L { w with records := w.records.drop k } { r with records := r.records.drop k } where
  maxEntries := h.maxEntries
  recordSize := h.recordSize
  records := List.forall₂_drop k h.records

/-- A callback that queues the record its bytes hold queues a batch. -/
theorem foldlM_callback {α : Type} {L : Layout α} {callback : List α → List U8 → Option (List α)}
    (hcallback : ∀ queue data a, L.Represents data a → callback queue data = some (queue ++ [a]))
    {batch : List (List U8)} {records : List α} (h : List.Forall₂ L.Represents batch records)
    (queue : List α) : batch.foldlM callback queue = some (queue ++ records) := by
  induction h generalizing queue with
  | nil => simp
  | @cons data a batch records hhead htail ih =>
    rw [List.foldlM_cons, hcallback queue data a hhead]
    simpa using ih (queue ++ [a])

theorem eventsCallback_of_represents (queue : List CudaEvent) (data : List U8) (event : CudaEvent)
    (h : cudaEventLayout.Represents data event) :
    eventsCallback queue data = some (queue ++ [event]) := by
  -- the length check passes, since a record is exactly as long as the struct
  have hlength : size EventsRs.cudaEvent ≤ data.length := le_of_eq h.length.symm
  rw [eventsCallback, if_pos hlength, readUnaligned_of_represents EventsRs.cudaEvent rfl h]
  rfl

theorem kernelRegsCallback_of_represents (queue : List KernelRegEvent) (data : List U8)
    (reg : KernelRegEvent) (h : kernelRegEventLayout.Represents data reg) :
    kernelRegsCallback queue data = some (queue ++ [reg]) := by
  have hlength : data.length = size EventsRs.kernelRegEvent := h.length
  rw [kernelRegsCallback, if_pos hlength,
    readUnaligned_of_represents EventsRs.kernelRegEvent rfl h]
  rfl

/-- On rings that hold the program's records, the arm on bytes does what the arm on records does,
    and leaves rings that hold what is left. -/
theorem Loop.consumeBytes_eq (args : Args) (env : LoopEnv) {w : WireRings} {b : Bpf n}
    (h : w.Represents b) (l : Loop) :
    ∃ w', consumeBytes args env (w, l) = some (w', (consume args env (b, l)).2) ∧
      w'.Represents (consume args env (b, l)).1 := by
  have hbatch := List.forall₂_take ringbufConsumeBudget h.events.records
  have hregs := List.forall₂_take (ringbufConsumeBudget -
    (b.events.records.take ringbufConsumeBudget).length) h.kernelRegs.records
  unfold consumeBytes consume
  simp only [RingBuf.consume, foldlM_callback eventsCallback_of_represents hbatch,
    List.nil_append, Option.bind_eq_bind, Option.bind_some, hbatch.length_eq]
  by_cases hfull : args.kernelMode = .full
  · simp only [if_pos hfull, foldlM_callback kernelRegsCallback_of_represents hregs,
      List.nil_append, Option.bind_some]
    exact ⟨_, rfl, h.events.drop _, h.kernelRegs.drop _⟩
  · simp only [if_neg hfull]
    exact ⟨_, rfl, h.events.drop _, h.kernelRegs⟩

/-! ### Records of a run -/

namespace Sys

variable {args : Args}

/-- What a step can do to the ring: a return appends one record, a batch takes records off. -/
theorem events_step_cases (s : Sys n) (e : Event n) :
    (s.step args e).bpf.events.records = s.bpf.events.records ∨
      (s.step args e).bpf.events.records = s.bpf.events.records.drop ringbufConsumeBudget ∨
      ∃ ctx entry, e = .ret ctx ∧
        (s.step args e).bpf.events.records =
          s.bpf.events.records ++ [s.bpf.cudaEvent ctx entry] := by
  have hsame := s.buffersSame args e
  cases e with
  | ret ctx =>
    simp only [step]
    cases hs : s.stack ctx.pidTgid with
    | nil =>
      rw [ret_nil hs]
      exact .inl rfl
    | cons call rest =>
      rw [ret_cons hs]
      rw [Probe.exit_eq]
      cases hr : call.probe.recorded s.bpf ctx with
      | none => exact .inl rfl
      | some entry =>
        simp only [Bpf.recordOpt]
        rw [Bpf.record_events]
        -- the record is appended if it is for the ring and the ring has room
        unfold Bpf.submitEvent RingBuf.submit
        by_cases hroom : s.bpf.events.CanReserve
        · simp only [if_pos hroom]
          split
          · exact .inr (.inr ⟨ctx, entry, rfl, rfl⟩)
          · exact .inl rfl
        · simp only [if_neg hroom, ite_self]
          exact .inl trivial
  | consume env =>
    simp only [step]
    rw [consume_bpf]
    exact .inr (.inl rfl)
  | aggTick env =>
    simp only [step]
    rw [aggTick_bpf]
    exact .inl rfl
  | _ => exact .inl (congrArg RingBuf.records (hsame rfl).events)

/-- `bpf_get_current_comm` fills the sixteen bytes of the name. -/
def CommFilled (_ : Sys n) : Event n → Prop
  | .ret ctx => ctx.comm.length = 16
  | _ => True

instance (s : Sys n) : (e : Event n) → Decidable (CommFilled s e)
  | .ret ctx => Nat.decEq ctx.comm.length 16
  | .enter .. | .registerFunction .. | .nvtxPush .. | .nvtxPop .. | .evict .. | .consume ..
  | .aggTick .. | .gcTick .. | .nameKernel .. => .isTrue trivial

/-- The names of the open ranges have their 64 bytes, and the records of the ring fit the struct. -/
structure RecordsFit (s : Sys n) : Prop where
  names : ∀ id name, s.bpf.nvtxStack.lookup id = some name → name.length = 64
  events : ∀ event ∈ s.bpf.events.records, cudaEventLayout.Ok event

theorem recordsFit_init (n : ℕ) (args : Args) : (Sys.init n args).RecordsFit where
  names id name h := by simp [Sys.init, Bpf.init] at h
  events event h := by simp [Sys.init, Bpf.init, RingBuf.empty] at h

/-- Names are cut to 63 bytes and padded. -/
theorem names_step {s : Sys n} (h : s.RecordsFit) (e : Event n) :
    ∀ id name, (s.step args e).bpf.nvtxStack.lookup id = some name → name.length = 64 := by
  intro id name hname
  cases e with
  | nvtxPush ctx msgPtr =>
    simp only [step, Bpf.nvtxRangePush] at hname
    split at hname
    · exact h.names id name hname
    · rcases FinMap.lookup_insert_cases hname with ⟨-, rfl⟩ | ⟨-, hold⟩
      · simp only [List.length_append, List.length_replicate, List.length_take]
        omega
      · exact h.names id name hold
  | nvtxPop ctx =>
    simp only [step, Bpf.nvtxRangePop] at hname
    rw [FinMap.lookup_erase_eq_ite] at hname
    split at hname
    · cases hname
    · exact h.names id name hname
  | evict ev =>
    cases ev with
    | nvtxStack other =>
      simp only [step, Bpf.evict] at hname
      rw [FinMap.lookup_erase_eq_ite] at hname
      split at hname
      · cases hname
      · exact h.names id name hname
    | _ => exact h.names id name hname
  | _ =>
    rw [nvtxStack_step] at hname
    · exact h.names id name hname
    all_goals
      intros
      simp

theorem recordsFit_step {s : Sys n} (h : s.RecordsFit) {e : Event n} (he : CommFilled s e) :
    (s.step args e).RecordsFit where
  names := names_step h e
  events := by
    rcases events_step_cases s e with hsame | hdrop | ⟨ctx, entry, rfl, happend⟩
    · rw [hsame]
      exact h.events
    · rw [hdrop]
      exact fun event hevent => h.events event (List.mem_of_mem_drop hevent)
    · rw [happend]
      intro event hevent
      rcases List.mem_append.mp hevent with hold | hnew
      · exact h.events event hold
      · -- the marker is the head of a name, or of the zeros that stand for none
        rw [List.mem_singleton.mp hnew]
        refine ⟨?_, he⟩
        have hmarker : ((s.bpf.nvtxStack.lookup ctx.pidTgid).getD
            (List.replicate 64 0)).length = 64 := by
          cases hl : s.bpf.nvtxStack.lookup ctx.pidTgid with
          | none => simp
          | some name => exact h.names _ name hl
        simp only [Bpf.cudaEvent, Bpf.cudaEventIn, List.length_take, hmarker]
        decide

/-- Records that fit their struct have bytes. -/
theorem exists_ringRep {α : Type} {L : Layout α} (r : RingBuf α) (h : ∀ a ∈ r.records, L.Ok a) :
    ∃ w, RingRep L w r := by
  obtain ⟨ws, hws⟩ := List.exists_forall₂ fun a ha => Layout.exists_represents (h a ha)
  exact ⟨⟨r.maxEntries, r.recordSize, ws⟩, rfl, rfl, hws⟩

/-- In every run, the rings have a representation in bytes; and from any bytes that represent
    them, the ring arm of the event loop takes exactly the records that were written. -/
theorem consumeBytes_run (args : Args) (es : List (Event n))
    (hes : Permitted args CommFilled es) :
    (∃ w : WireRings, w.Represents (run args n es).bpf) ∧
      ∀ (w : WireRings), w.Represents (run args n es).bpf → ∀ (env : LoopEnv),
        ∃ w', Loop.consumeBytes args env (w, (run args n es).loop) =
            some (w', (run args n (es ++ [.consume env])).loop) ∧
          w'.Represents (run args n (es ++ [.consume env])).bpf := by
  have hfit : (run args n es).RecordsFit :=
    invariant_permitted RecordsFit (recordsFit_init n args) (fun _ _ h => recordsFit_step h) hes
  constructor
  · obtain ⟨events, hevents⟩ := exists_ringRep (run args n es).bpf.events hfit.events
    obtain ⟨kernelRegs, hregs⟩ :=
      exists_ringRep (L := kernelRegEventLayout) (run args n es).bpf.kernelRegs fun _ _ => trivial
    exact ⟨⟨events, kernelRegs⟩, hevents, hregs⟩
  · intro w hw env
    have hlast : run args n (es ++ [.consume env]) = (run args n es).consume args env :=
      Runs.run_concat _ _ _ _
    rw [hlast]
    exact Loop.consumeBytes_eq args env hw (run args n es).loop

/-- Every launch is traced. -/
def detailedArgs : Args := { kernelMode := .full, detailedLaunches := true }

/-- One launch, whose record goes to the ring. -/
def ringedLaunch : List (Event 1) :=
  let ctx (ktimeNs : U64) : Ctx 1 :=
    { bareCtx 0x700000007 ktimeNs 0 with comm := List.replicate 16 0x61 }
  [.enter (.cudaLaunchKernel 0x401000) (ctx 100), .ret (ctx 200)]

theorem consumeBytes_run_launch :
    (run detailedArgs 1 ringedLaunch).bpf.events.records.length = 1 ∧
      ∃ w : WireRings, w.Represents (run detailedArgs 1 ringedLaunch).bpf ∧
        ∃ w', Loop.consumeBytes detailedArgs .bare (w, (run detailedArgs 1 ringedLaunch).loop) =
            some (w', (run detailedArgs 1 (ringedLaunch ++ [.consume .bare])).loop) ∧
          w'.Represents (run detailedArgs 1 (ringedLaunch ++ [.consume .bare])).bpf := by
  have hes : Permitted detailedArgs CommFilled ringedLaunch := by decide
  obtain ⟨⟨w, hw⟩, hall⟩ := consumeBytes_run detailedArgs ringedLaunch hes
  exact ⟨by decide, w, hw, hall w hw .bare⟩

end Sys

end Profi
