import Profi.Cache
import Profi.Enricher
import Profi.HttpSecurity
import Profi.Discovery
import Profi.Lib.Tally
import Profi.Lib.Memo

/-!
# Which GPU a Process Uses

The GPU part of the enricher. `discover_gpu_devices` reads the devices of the node once, at the
start; `resolve_pid_gpu` looks at the open files of a process and takes the device it has opened
most often; `resolve_gpu` remembers the answer, also that there was none, until the process is
evicted.

Three enumerations have no order one could rely on: the directory of the descriptors, the directory
of the devices, and the table of the counts. The first and the last do not matter
(`resolvePidGpu_eq_some_iff`). What a process is labelled with over a whole run is
`gpu_labels_run`: the device it had opened most often when it was first looked up since its last
eviction, under labels that `gpu_info` has too.
-/

namespace Profi

open Tally Text

/-! ## The devices of the node -/

/-- `GpuDevice` with the name of the model, which only `gpu_info` shows. -/
structure Gpu extends GpuDevice where
  name : String

/-- The variables the loop over an `information` file assigns. -/
structure GpuFields where
  index : Option U32 := none
  uuid : String := ""
  name : String := ""

/-- `str::parse::<u32>`. -/
def parseU32 (s : List Char) : Option U32 := (fromStrRadix 10 32 s).map (BitVec.ofNat 32)

/-- One line of an `information` file. -/
def GpuFields.readLine (fields : GpuFields) (line : List Char) : GpuFields :=
  match line.dropPrefix? "Device Minor:".toList with
  -- a second line of the kind wins, even if it holds no number
  | some val => { fields with index := parseU32 (trim val) }
  | none =>
    match line.dropPrefix? "GPU UUID:".toList with
    | some val => { fields with uuid := String.ofList (trim val) }
    | none =>
      match line.dropPrefix? "Model:".toList with
      | some val => { fields with name := String.ofList (trim val) }
      | none => fields

/-- The device an `information` file describes. -/
def readInformation (info : String) : Option Gpu :=
  let fields := (textLines info.toList).foldl GpuFields.readLine {}
  fields.index.map fun index => { index, uuid := fields.uuid, name := fields.name }

/-- The directory of the devices: the text of each `information` file that can be read. -/
abbrev GpuDir := Option (List (Option String))

/-- `discover_gpu_devices`. -/
def discoverGpuDevices : GpuDir → List Gpu
  | none => []
  | some entries =>
    (entries.filterMap (·.bind readInformation)).mergeSort fun a b => a.index ≤ b.index

/-- `minor_to_gpu`; of two devices with one number the later stays. -/
def minorToGpu (devices : List Gpu) : FinMap U32 Gpu :=
  devices.foldl (fun m d => m.insert d.index d) ∅

/-! ## The device of a process -/

/-- The descriptors of a process: what each link that can be read points to. -/
abbrev FdDir := Option (List (Option (List Char)))

/-- The number of the device a link points to. -/
def deviceMinor (link : List Char) : Option U32 :=
  (link.dropPrefix? "/dev/nvidia".toList).bind parseU32

/-- One descriptor in the loop of `resolve_pid_gpu`. -/
def countFd (gpus : FinMap U32 Gpu) (devCounts : FinMap U32 ℕ) (link : Option (List Char)) :
    FinMap U32 ℕ :=
  match link.bind deviceMinor with
  | some minor => if minor ∈ gpus then bump devCounts minor else devCounts
  | none => devCounts

/-- More descriptors rank higher, and of as many the higher number. -/
def fdRank (count : U32 × ℕ) : ℕ ×ₗ ℕ := toLex (count.2, count.1.toNat)

theorem fdRank_injective : Function.Injective fdRank := by
  intro a b hrank
  have hpair := congrArg ofLex hrank
  simp only [fdRank, ofLex_toLex, Prod.mk.injEq] at hpair
  exact Prod.ext (BitVec.eq_of_toNat_eq hpair.2) hpair.1

/-- `dev_counts.iter()`, in the order in which the table lists its keys. -/
def iterCounts (order : KeyOrder U32) (devCounts : FinMap U32 ℕ) : List (U32 × ℕ) :=
  (order.order devCounts.keys).filterMap fun minor => (devCounts.lookup minor).map (minor, ·)

/-- `resolve_pid_gpu`. -/
def resolvePidGpu (order : KeyOrder U32) (fds : FdDir) (gpus : FinMap U32 Gpu) : Option Gpu :=
  match fds with
  | none => none
  | some links =>
    let devCounts := links.foldl (countFd gpus) ∅
    (maxBy fdRank (iterCounts order devCounts)).bind fun count => gpus.lookup count.1

/-! ### It is the one that is opened most often -/

/-- How many descriptors point to a device. -/
def opened (links : List (Option (List Char))) (minor : U32) : ℕ :=
  links.countP fun link => link.bind deviceMinor = some minor

/-- The device of this number is open, none of the node is open more often, and of those that are
    open as often none has a higher number. -/
structure MostOpened (links : List (Option (List Char))) (gpus : FinMap U32 Gpu) (minor : U32) :
    Prop where
  known : minor ∈ gpus
  isOpen : 0 < opened links minor
  most : ∀ other ∈ gpus, opened links other < opened links minor ∨
    opened links other = opened links minor ∧ other ≤ minor

/-- The descriptors of known devices, by number. -/
def knownMinors (gpus : FinMap U32 Gpu) (links : List (Option (List Char))) : List U32 :=
  links.filterMap fun link => (link.bind deviceMinor).filter (· ∈ gpus)

theorem foldl_countFd (gpus : FinMap U32 Gpu) (links : List (Option (List Char))) :
    links.foldl (countFd gpus) ∅ = tally (knownMinors gpus links) := by
  unfold tally knownMinors
  rw [List.foldl_filterMap]
  congr 1
  funext devCounts link
  unfold countFd
  cases link.bind deviceMinor with
  | none => rfl
  | some minor => by_cases hminor : minor ∈ gpus <;> simp [Option.filter_some, hminor]

theorem count_knownMinors {gpus : FinMap U32 Gpu} {minor : U32} (hminor : minor ∈ gpus)
    (links : List (Option (List Char))) :
    (knownMinors gpus links).count minor = opened links minor := by
  unfold knownMinors opened
  induction links with
  | nil => rfl
  | cons link links ih =>
    rw [List.countP_cons, ← ih, List.filterMap_cons]
    cases hlink : link.bind deviceMinor with
    | none => simp
    | some other =>
      by_cases hother : other = minor
      · subst hother
        simp [Option.filter_some, hminor]
      · by_cases hknown : other ∈ gpus <;> simp [Option.filter_some, hknown, hother]

theorem mem_knownMinors {gpus : FinMap U32 Gpu} {links : List (Option (List Char))} {minor : U32} :
    minor ∈ knownMinors gpus links ↔ minor ∈ gpus ∧ 0 < opened links minor := by
  constructor
  · intro hmem
    obtain ⟨link, -, hlink⟩ := List.mem_filterMap.mp hmem
    have hknown : minor ∈ gpus := by simpa using (Option.filter_eq_some_iff.mp hlink).2
    rw [← count_knownMinors hknown]
    exact ⟨hknown, List.count_pos_iff.mpr hmem⟩
  · rintro ⟨hknown, hopen⟩
    rw [← count_knownMinors hknown] at hopen
    exact List.count_pos_iff.mp hopen

/-- The counts are those of the known devices that are open, in whatever order. -/
theorem mem_iterCounts {order : KeyOrder U32} {gpus : FinMap U32 Gpu}
    {links : List (Option (List Char))} {count : U32 × ℕ} :
    count ∈ iterCounts order (links.foldl (countFd gpus) ∅) ↔
      count.1 ∈ gpus ∧ 0 < opened links count.1 ∧ count.2 = opened links count.1 := by
  -- the fold is a tally of the known devices
  have hlookup : ∀ minor, (links.foldl (countFd gpus) ∅).lookup minor =
      if minor ∈ gpus ∧ 0 < opened links minor then some (opened links minor) else none := by
    intro minor
    rw [foldl_countFd, lookup_tally]
    by_cases hmem : minor ∈ gpus ∧ 0 < opened links minor
    · rw [if_pos (mem_knownMinors.mpr hmem), if_pos hmem, count_knownMinors hmem.1]
    · rw [if_neg (mt mem_knownMinors.mp hmem), if_neg hmem]
  unfold iterCounts
  rw [List.mem_filterMap]
  constructor
  · rintro ⟨minor, -, hcount⟩
    obtain ⟨found, hfound, rfl⟩ := Option.map_eq_some_iff.mp hcount
    rw [hlookup] at hfound
    split at hfound
    next hmem => exact ⟨hmem.1, hmem.2, (Option.some.inj hfound).symm⟩
    · cases hfound
  · rintro ⟨hknown, hopen, hcount⟩
    have hfound := hlookup count.1
    rw [if_pos ⟨hknown, hopen⟩, ← hcount] at hfound
    refine ⟨count.1, ?_, by rw [hfound]; rfl⟩
    exact (order.perm _).mem_iff.mpr (FinMap.mem_keys_of_lookup hfound)

/-- A process gets the device it has opened most often, the higher number of those it has opened as
    often, and none exactly if its descriptors cannot be listed or point to no device of the node.
    Neither the order of the descriptors nor that of the counts has a say. -/
theorem resolvePidGpu_eq_some_iff (order : KeyOrder U32) (fds : FdDir) (gpus : FinMap U32 Gpu)
    (gpu : Gpu) :
    resolvePidGpu order fds gpus = some gpu ↔
      ∃ links minor, fds = some links ∧ MostOpened links gpus minor ∧
        gpus.lookup minor = some gpu := by
  cases fds with
  | none => simp [resolvePidGpu]
  | some links =>
    simp only [resolvePidGpu, Option.bind_eq_some_iff]
    constructor
    · rintro ⟨count, hmax, hgpu⟩
      obtain ⟨hmem, hle⟩ := (maxBy_eq_some_iff fun _ _ _ _ h => fdRank_injective h).mp hmax
      obtain ⟨hknown, hopen, hcount⟩ := mem_iterCounts.mp hmem
      refine ⟨links, count.1, rfl, ⟨hknown, hopen, fun other hother => ?_⟩, hgpu⟩
      -- a device that is not open is not among the counts
      rcases Nat.eq_zero_or_pos (opened links other) with hzero | hpos
      · exact .inl (hzero ▸ hopen)
      · have hrank := hle (other, opened links other) (mem_iterCounts.mpr ⟨hother, hpos, rfl⟩)
        simpa only [fdRank, Prod.Lex.toLex_le_toLex, hcount, BitVec.le_def] using hrank
    · rintro ⟨links', minor, hlinks, hmost, hgpu⟩
      cases hlinks
      refine ⟨(minor, opened links minor), ?_, hgpu⟩
      refine (maxBy_eq_some_iff fun _ _ _ _ h => fdRank_injective h).mpr ⟨?_, ?_⟩
      · exact mem_iterCounts.mpr ⟨hmost.known, hmost.isOpen, rfl⟩
      · intro other hother
        obtain ⟨hknown, -, hcount⟩ := mem_iterCounts.mp hother
        simpa only [fdRank, Prod.Lex.toLex_le_toLex, hcount, BitVec.le_def] using
          hmost.most other.1 hknown

/-! ## The enricher over a run -/

/-- `publish_gpu_info`: one series for each device, set to one. -/
def publishGpuInfo (devices : List Gpu) : MetricVec ℕ :=
  devices.foldl (fun m d => m.modifyAt 0 [decString d.index, d.uuid, d.name] fun _ => 1) .empty

/-- The GPU part of `Enricher`. -/
structure GpuEnricher where
  gpuDevices : List Gpu
  minorToGpu : FinMap U32 Gpu
  gpuPidCache : FinMap U32 (Option Gpu)

/-- What `/proc` shows of the descriptors when a process is looked up, and how the counts are
    listed. -/
structure FdView where
  fds : FdDir
  order : KeyOrder U32

/-- A lookup of a process, or its eviction by the garbage collection. -/
abbrev GpuOp := Memo.Op U32 FdView

namespace GpuEnricher

/-- `Enricher::new`. -/
def new (dir : GpuDir) : GpuEnricher :=
  ⟨discoverGpuDevices dir, Profi.minorToGpu (discoverGpuDevices dir), ∅⟩

/-- `resolve_gpu`. -/
def resolveGpu (s : GpuEnricher) (pid : U32) (view : FdView) : Option Gpu × GpuEnricher :=
  match s.gpuPidCache.lookup pid with
  | some cached => (cached, s)
  | none =>
    if s.gpuDevices.isEmpty then (none, { s with gpuPidCache := s.gpuPidCache.insert pid none })
    else
      let result := resolvePidGpu view.order view.fds s.minorToGpu
      (result, { s with gpuPidCache := s.gpuPidCache.insert pid result })

/-- `evict_pid`, as far as the GPU is concerned. -/
def evictPid (s : GpuEnricher) (pid : U32) : GpuEnricher :=
  { s with gpuPidCache := s.gpuPidCache.erase pid }

def step (s : GpuEnricher) : GpuOp → GpuEnricher
  | .ask pid view => (s.resolveGpu pid view).2
  | .forget pid => s.evictPid pid

def run (dir : GpuDir) (ops : List GpuOp) : GpuEnricher := Runs.run step (new dir) ops

/-! ### The cache -/

theorem mem_of_lookup_minorToGpu {devices : List Gpu} {minor : U32} {gpu : Gpu}
    (h : (Profi.minorToGpu devices).lookup minor = some gpu) : gpu ∈ devices := by
  have horigin : (∅ : FinMap U32 Gpu).lookup minor = some gpu ∨ ∃ d ∈ devices, gpu = d := by
    refine Runs.foldl_origin (I := fun m : FinMap U32 Gpu => m.lookup minor = some gpu)
      (fun m d hd => ?_) h
    rcases FinMap.lookup_insert_cases hd with ⟨-, hnew⟩ | ⟨-, hold⟩
    · exact .inr hnew
    · exact .inl hold
  rcases horigin with hempty | ⟨d, hd, rfl⟩
  · simp at hempty
  · exact hd

/-- The test for a node without devices is a shortcut: no device would be found. -/
theorem resolvePidGpu_of_isEmpty {dir : GpuDir} (h : (discoverGpuDevices dir).isEmpty)
    (view : FdView) :
    resolvePidGpu view.order view.fds (Profi.minorToGpu (discoverGpuDevices dir)) = none := by
  rw [List.isEmpty_iff.mp h]
  cases hgpu : resolvePidGpu view.order view.fds (Profi.minorToGpu []) with
  | none => rfl
  | some gpu =>
    obtain ⟨_, _, -, -, hlookup⟩ := (resolvePidGpu_eq_some_iff _ _ _ gpu).mp hgpu
    cases mem_of_lookup_minorToGpu hlookup

/-- What the enricher computes for a process that it has no answer for. -/
def answer (dir : GpuDir) (_ : U32) (view : FdView) : Option Gpu :=
  resolvePidGpu view.order view.fds (Profi.minorToGpu (discoverGpuDevices dir))

/-- The devices stay, and the cache does what a cache does. -/
theorem step_eq (dir : GpuDir) {s : GpuEnricher} (hdevices : s.gpuDevices = discoverGpuDevices dir)
    (hminor : s.minorToGpu = Profi.minorToGpu (discoverGpuDevices dir)) (op : GpuOp) :
    s.step op = { s with gpuPidCache := Memo.step (answer dir) s.gpuPidCache op } := by
  cases op with
  | forget pid => rfl
  | ask pid view =>
    simp only [step, resolveGpu, Memo.step]
    cases s.gpuPidCache.lookup pid with
    | some cached => rfl
    | none =>
      rw [hdevices, hminor]
      by_cases hempty : (discoverGpuDevices dir).isEmpty = true
      · simp only [if_pos hempty, answer, resolvePidGpu_of_isEmpty hempty]
      · simp only [if_neg hempty, answer]

theorem run_eq (dir : GpuDir) (ops : List GpuOp) :
    run dir ops = { new dir with gpuPidCache := Runs.run (Memo.step (answer dir)) ∅ ops } := by
  induction ops using List.reverseRecOn with
  | nil => rfl
  | append_singleton ops op ih =>
    unfold run at ih ⊢
    rw [Runs.run_concat, Runs.run_concat, ih, step_eq dir rfl rfl]

/-- A lookup answers as the first lookup since the last eviction did. -/
theorem resolveGpu_run (dir : GpuDir) (ops : List GpuOp) (pid : U32) (view : FdView) :
    ∃ first, Memo.firstAsk pid (ops ++ [.ask pid view]) = some first ∧
      ((run dir ops).resolveGpu pid view).1 = answer dir pid first := by
  have hlookup : (run dir ops).gpuPidCache.lookup pid =
      (Memo.firstAsk pid ops).map (answer dir pid) := by
    rw [run_eq]
    exact Memo.lookup_run (answer dir) ops pid
  rw [Memo.firstAsk_concat]
  simp only [Memo.Op.forgets, Memo.Op.about, Bool.false_eq_true, if_false, if_true]
  unfold resolveGpu
  rw [hlookup]
  cases Memo.firstAsk pid ops with
  | some first => exact ⟨first, rfl, rfl⟩
  | none =>
    refine ⟨view, rfl, ?_⟩
    rw [run_eq]
    by_cases hempty : (discoverGpuDevices dir).isEmpty = true
    · simp [new, hempty, answer, resolvePidGpu_of_isEmpty hempty]
    · simp [new, hempty, answer]

/-! ### The labels -/

theorem value_publishGpuInfo {devices : List Gpu} {gpu : Gpu} (h : gpu ∈ devices) :
    (publishGpuInfo devices).value [decString gpu.index, gpu.uuid, gpu.name] = some 1 := by
  -- a later device writes the same value or another series
  refine Runs.foldl_reached
    (I := fun v : MetricVec _ => v.value [decString gpu.index, gpu.uuid, gpu.name] = some 1)
    (Q := (gpu = ·)) (fun v d hd => ?_) (.inl ⟨gpu, h, rfl⟩)
  rw [MetricVec.value_modifyAt]
  split
  · rfl
  next hother => exact hd.resolve_left fun heq => hother (by rw [heq])

/-- Over any run of lookups and evictions of any processes, while `/proc` changes: a process is
    labelled with the device it had opened most often when it was first looked up since its last
    eviction, with none if it had none open then; and the labels are those of a series of
    `gpu_info`. -/
theorem gpu_labels_run (dir : GpuDir) (ops : List GpuOp) (pid : U32) (view : FdView) :
    ∃ first, Memo.firstAsk pid (ops ++ [.ask pid view]) = some first ∧
      ∀ gpu, ((run dir ops).resolveGpu pid view).1 = some gpu ↔
        ∃ links minor, first.fds = some links ∧
          MostOpened links (Profi.minorToGpu (discoverGpuDevices dir)) minor ∧
          (Profi.minorToGpu (discoverGpuDevices dir)).lookup minor = some gpu ∧
          (publishGpuInfo (discoverGpuDevices dir)).value
            [decString gpu.index, gpu.uuid, gpu.name] = some 1 := by
  obtain ⟨first, hfirst, hanswer⟩ := resolveGpu_run dir ops pid view
  refine ⟨first, hfirst, fun gpu => ?_⟩
  rw [hanswer, answer, resolvePidGpu_eq_some_iff]
  constructor
  · rintro ⟨links, minor, hfds, hmost, hgpu⟩
    exact ⟨links, minor, hfds, hmost, hgpu, value_publishGpuInfo (mem_of_lookup_minorToGpu hgpu)⟩
  · rintro ⟨links, minor, hfds, hmost, hgpu, -⟩
    exact ⟨links, minor, hfds, hmost, hgpu⟩

end GpuEnricher

end Profi
