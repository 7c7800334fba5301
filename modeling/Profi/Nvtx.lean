import Profi.System

/-!
# NVTX Ranges

A thread opens and closes ranges, which nest. The program keeps one name per thread: a push replaces
it and a pop deletes it, so after a pop nothing is left of the ranges around the one that was
closed. `Ranges` is the nesting itself, beside the run. The name kept for a thread is its innermost
open range as long as the thread's last range event was a push (`Kept`), and a ring event carries
the right marker exactly if it is not written behind a pop that left a named range open
(`markers_innermost_iff`).
-/

namespace Profi

variable {n : ℕ} {args : Args}

/-! ## Open Ranges -/

/-- The name of a range: 63 bytes of its message, zero padded. -/
def rangeName (ctx : Ctx n) (msgPtr : U64) : List U8 :=
  let bytes := ((ctx.readUserStr msgPtr).getD []).take 63
  bytes ++ List.replicate (64 - bytes.length) 0

/-- The ranges each thread has open, innermost first, and whether its last range event was a pop. -/
structure Ranges where
  opened : U64 → List (List U8)
  popped : U64 → Bool

namespace Ranges

def init : Ranges := ⟨fun _ => [], fun _ => false⟩

def step (g : Ranges) : Event n → Ranges
  | .nvtxPush ctx msgPtr =>
      { opened := Function.update g.opened ctx.pidTgid
          (rangeName ctx msgPtr :: g.opened ctx.pidTgid)
        popped := Function.update g.popped ctx.pidTgid false }
  | .nvtxPop ctx =>
      { opened := Function.update g.opened ctx.pidTgid (g.opened ctx.pidTgid).tail
        popped := Function.update g.popped ctx.pidTgid true }
  | _ => g

/-- The marker of a thread: 16 bytes of its innermost open range, or zeros. -/
def marker (g : Ranges) (id : U64) : List U8 :=
  ((g.opened id).head?.getD (List.replicate 64 0)).take 16

end Ranges

/-- The system and the ranges beside it. -/
abbrev rangesStep (args : Args) : Sys n × Ranges → Event n → Sys n × Ranges :=
  Runs.both (Sys.step args) Ranges.step

/-- The messages of ranges are not null, and the kernel does not evict their names. -/
def PlainRanges (_ : Sys n × Ranges) : Event n → Prop
  | .nvtxPush _ msgPtr => msgPtr ≠ 0
  | .evict (.nvtxStack _) => False
  | _ => True

/-! ## Ring Events -/

/-- The ring events a return writes. -/
def ringWritten (args : Args) (s : Sys n) (ctx : Ctx n) : List CudaEvent :=
  (s.step args (.ret ctx)).bpf.events.records.drop s.bpf.events.records.length

/-- The ring events a step writes have the marker of the innermost open range of their thread. -/
def MarkersInnermost (args : Args) (x : Sys n × Ranges) : Event n → Prop
  | .ret ctx => ∀ evt ∈ ringWritten args x.1 ctx, evt.nvtxMarker = x.2.marker ctx.pidTgid
  | _ => True

/-- A thread whose last range event was a pop writes ring events only while the innermost range it
    still has open, if any, has an empty name. -/
def UnnamedBehindPop (args : Args) (x : Sys n × Ranges) : Event n → Prop
  | .ret ctx => ringWritten args x.1 ctx ≠ [] → x.2.popped ctx.pidTgid = true →
      x.2.marker ctx.pidTgid = List.replicate 16 0
  | _ => True

/-- The marker a return finds. -/
def foundMarker (b : Bpf n) (id : U64) : List U8 :=
  ((b.nvtxStack.lookup id).getD (List.replicate 64 0)).take 16

/-- A return writes at most one ring event, with the marker it finds. -/
theorem ringWritten_cases (args : Args) (s : Sys n) (ctx : Ctx n) :
    ringWritten args s ctx = [] ∨
      ∃ evt, ringWritten args s ctx = [evt] ∧ evt.nvtxMarker = foundMarker s.bpf ctx.pidTgid := by
  unfold ringWritten
  simp only [Sys.step]
  cases hs : s.stack ctx.pidTgid with
  | nil =>
    rw [Sys.ret_nil hs]
    exact .inl (List.drop_length)
  | cons call rest =>
    -- only `emit_exit` writes to the ring, and reads the name before that
    rw [Sys.ret_cons hs]
    rw [Probe.exit_eq]
    cases hr : call.probe.recorded s.bpf ctx with
    | none => exact .inl (List.drop_length)
    | some entry =>
      simp only [Bpf.recordOpt]
      rw [Bpf.record_events]
      split
      · unfold Bpf.submitEvent RingBuf.submit
        by_cases hroom : s.bpf.events.CanReserve
        · simp only [if_pos hroom, List.drop_left]
          exact .inr ⟨_, rfl, rfl⟩
        · simp only [if_neg hroom]
          exact .inl (List.drop_length)
      · exact .inl (List.drop_length)

/-! ## What Is Kept -/

/-- The name kept for a thread: the innermost open range, or none behind a pop. -/
def Kept (x : Sys n × Ranges) : Prop :=
  ∀ id, x.1.bpf.nvtxStack.lookup id =
    if x.2.popped id then none else (x.2.opened id).head?

/-- Other events do not touch the names. -/
theorem nvtxStack_step (s : Sys n) {e : Event n} (hpush : ∀ ctx msgPtr, e ≠ .nvtxPush ctx msgPtr)
    (hpop : ∀ ctx, e ≠ .nvtxPop ctx) (hevict : ∀ id, e ≠ .evict (.nvtxStack id)) :
    (s.step args e).bpf.nvtxStack = s.bpf.nvtxStack := by
  cases e with
  | enter p ctx =>
    simp only [Sys.step, Sys.enter]
    rw [Probe.enter_frame]
  | ret ctx =>
    simp only [Sys.step]
    cases hs : s.stack ctx.pidTgid with
    | nil => rw [Sys.ret_nil hs]
    | cons call rest =>
      rw [Sys.ret_cons hs]
      rw [Probe.exit_frame]
  | registerFunction ctx hostFun devName =>
    simp only [Sys.step]
    rw [Sys.cudaRegisterFunction_frame]
  | nvtxPush ctx msgPtr => exact absurd rfl (hpush ctx msgPtr)
  | nvtxPop ctx => exact absurd rfl (hpop ctx)
  | evict ev =>
    cases ev with
    | nvtxStack id => exact absurd rfl (hevict id)
    | inflight id => rfl
    | mallocSizes key => rfl
    | mallocPtrs id => rfl
  | consume env =>
    simp only [Sys.step]
    rw [Sys.consume_bpf]
  | aggTick env =>
    simp only [Sys.step]
    rw [Sys.aggTick_bpf]
  | gcTick env => rfl
  | nameKernel pid addr name => rfl

variable {x : Sys n × Ranges}

theorem Kept.push (h : Kept x) (ctx : Ctx n) {msgPtr : U64} (hptr : msgPtr ≠ 0) :
    Kept (rangesStep args x (.nvtxPush ctx msgPtr)) := by
  have hname : (x.1.bpf.nvtxRangePush ctx msgPtr).nvtxStack =
      x.1.bpf.nvtxStack.insert ctx.pidTgid (rangeName ctx msgPtr) := by
    unfold Bpf.nvtxRangePush
    rw [if_neg hptr]
    rfl
  intro id
  simp only [Runs.both, Sys.step, Ranges.step, hname]
  rw [FinMap.lookup_insert_eq_ite]
  by_cases hid : id = ctx.pidTgid
  · -- the name is replaced, and the range is the innermost one
    subst hid
    simp
  · rw [if_neg hid, Function.update_of_ne hid, Function.update_of_ne hid]
    exact h id

theorem Kept.pop (h : Kept x) (ctx : Ctx n) : Kept (rangesStep args x (.nvtxPop ctx)) := by
  intro id
  simp only [Runs.both, Sys.step, Ranges.step, Bpf.nvtxRangePop]
  rw [FinMap.lookup_erase_eq_ite]
  by_cases hid : id = ctx.pidTgid
  · -- the name is deleted, whatever ranges are left
    subst hid
    simp
  · rw [if_neg hid, Function.update_of_ne hid, Function.update_of_ne hid]
    exact h id

/-- The names in the map stay those of the ranges. -/
theorem Kept.step {e : Event n} (h : Kept x) (he : PlainRanges x e) :
    Kept (rangesStep args x e) := by
  by_cases hpush : ∃ ctx msgPtr, e = .nvtxPush ctx msgPtr
  · obtain ⟨ctx, msgPtr, rfl⟩ := hpush
    exact h.push ctx he
  by_cases hpop : ∃ ctx, e = .nvtxPop ctx
  · obtain ⟨ctx, rfl⟩ := hpop
    exact h.pop ctx
  have hpush' : ∀ ctx msgPtr, e ≠ .nvtxPush ctx msgPtr :=
    fun ctx msgPtr heq => hpush ⟨ctx, msgPtr, heq⟩
  have hpop' : ∀ ctx, e ≠ .nvtxPop ctx := fun ctx heq => hpop ⟨ctx, heq⟩
  have hnames : (x.1.step args e).bpf.nvtxStack = x.1.bpf.nvtxStack := by
    apply nvtxStack_step x.1 hpush' hpop'
    rintro id rfl
    exact he
  have hranges : x.2.step e = x.2 := by
    cases e with
    | nvtxPush ctx msgPtr => exact absurd rfl (hpush' ctx msgPtr)
    | nvtxPop ctx => exact absurd rfl (hpop' ctx)
    | _ => rfl
  intro id
  simp only [Runs.both, hnames, hranges]
  exact h id

/-- Behind a push, or before any range event, a return finds the right marker; behind a pop it finds
    zeros. -/
theorem Kept.foundMarker (h : Kept x) (id : U64) :
    foundMarker x.1.bpf id = if x.2.popped id then List.replicate 16 0 else x.2.marker id := by
  unfold Profi.foundMarker Ranges.marker
  rw [h id]
  split
  · rfl
  · rfl

/-- In every run, whatever the nesting of ranges and the interleaving of threads: all ring events
    carry the marker of the innermost open range exactly if none is written behind a pop that left
    a named range open. -/
theorem markers_innermost_iff {es : List (Event n)}
    (hes : Runs.Along (rangesStep args) PlainRanges (Sys.init n args, Ranges.init) es) :
    Runs.Along (rangesStep args) (MarkersInnermost args) (Sys.init n args, Ranges.init) es ↔
      Runs.Along (rangesStep args) (UnnamedBehindPop args) (Sys.init n args, Ranges.init) es := by
  refine Runs.along_iff_of_invariant (fun x e => Kept.step) ?_ (fun _ => rfl) hes
  intro x e hkept _
  cases e with
  | ret ctx =>
    unfold MarkersInnermost UnnamedBehindPop
    simp only
    rcases ringWritten_cases args x.1 ctx with hnone | ⟨evt, hwritten, hmarker⟩
    · simp [hnone]
    · rw [hwritten, List.forall_mem_singleton, hmarker, hkept.foundMarker]
      cases hpopped : x.2.popped ctx.pidTgid with
      | false => simp
      | true => simp [eq_comm]
  | _ => exact Iff.rfl

/-! ## Two Runs -/

/-- Every launch goes to the ring. -/
def detailedArgs : Args := { kernelMode := .full, detailedLaunches := true }

/-- A thread that reads one message. -/
def rangeCtx (msg : List U8) : Ctx 1 :=
  { Sys.bareCtx 7 0 0 with readUserStr := fun _ => some msg }

/-- A launch inside a range. -/
def launchInRange : List (Event 1) :=
  [.nvtxPush (rangeCtx [111, 117]) 1, .enter (.cudaLaunchKernel 5) (rangeCtx []),
    .ret (rangeCtx []), .nvtxPop (rangeCtx [])]

theorem markers_innermost_launchInRange :
    Runs.Along (rangesStep detailedArgs) (MarkersInnermost detailedArgs)
      (Sys.init 1 detailedArgs, Ranges.init) launchInRange := by
  have hplain : Runs.Along (rangesStep detailedArgs) PlainRanges
      (Sys.init 1 detailedArgs, Ranges.init) launchInRange :=
    ⟨show (1 : U64) ≠ 0 by decide, trivial, trivial, trivial, trivial⟩
  refine (markers_innermost_iff hplain).mpr ⟨trivial, trivial, ?_, trivial, trivial⟩
  intro _ hpopped
  exact absurd hpopped (by decide)

/-- A launch behind an inner range that was closed, with the outer one still open. -/
def launchBehindInner : List (Event 1) :=
  [.nvtxPush (rangeCtx [111, 117]) 1, .nvtxPush (rangeCtx [105, 110]) 1, .nvtxPop (rangeCtx []),
    .enter (.cudaLaunchKernel 5) (rangeCtx []), .ret (rangeCtx [])]

theorem not_markers_launchBehindInner :
    Runs.Along (rangesStep detailedArgs) PlainRanges
        (Sys.init 1 detailedArgs, Ranges.init) launchBehindInner ∧
      ¬ Runs.Along (rangesStep detailedArgs) (MarkersInnermost detailedArgs)
        (Sys.init 1 detailedArgs, Ranges.init) launchBehindInner := by
  have hptr : (1 : U64) ≠ 0 := by decide
  refine ⟨⟨hptr, hptr, trivial, trivial, trivial, trivial⟩, ?_⟩
  rintro ⟨-, -, -, -, hlast, -⟩
  simp only [MarkersInnermost] at hlast
  revert hlast
  decide +kernel

end Profi
