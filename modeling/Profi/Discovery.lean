import Profi.Events
import Profi.KernelNames
import Profi.Lib.FinMap
import Profi.Lib.Runs
import Profi.Lib.Text

/-!
# Discovery of Libraries

`scan_proc_for_libs` of `src/discovery.rs` goes through the memory maps of all processes and looks
for the libraries to be probed. The same file is mapped several times in a process and, through
different paths, in many processes; a library is therefore known by device and inode.

The discovery thread of `main` scans again and again and sends a request for each library found that
it has not yet recorded. Its run is a sequence of scans and of single steps through what a scan
found, so that the receiver may act, or go away, between any two requests. Over a whole run no
library is requested twice.
-/

namespace Profi

open Text

/-- `libc::makedev`. -/
def makedev (major minor : U32) : U64 :=
  let major := major.zeroExtend 64
  let minor := minor.zeroExtend 64
  ((major &&& 0x00000fff#64) <<< 8) ||| ((major &&& 0xfffff000#64) <<< 32) |||
    (minor &&& 0x000000ff#64) ||| ((minor &&& 0xffffff00#64) <<< 12)

/-! ## One Scan -/

/-- `DevInode`. -/
structure DevInode where
  dev : U64
  ino : U64
deriving DecidableEq, Repr

/-- A line of a maps file, and which paths exist at the time it is read. -/
structure MapsLine where
  text : List Char
  pathExists : List Char → Bool

/-- A directory under `/proc`. Its maps file may not open, and reading may end with an error, which
    is a `none` among the lines. -/
structure ProcEntry where
  name : List Char
  maps : Option (List (Option MapsLine))

/-- What a scan sees: nothing at all, or the entries of the directory in some order. -/
abbrev ProcSnapshot := Option (List ProcEntry)

/-- What is found for a library: the path on the host and the file. -/
abbrev FoundLib := List Char × DevInode

/-- The device, inode and path of a line, if it has all its fields. -/
def mapsFields (text : List Char) : Option (DevInode × List Char) :=
  match splitWhitespace text with
  | _addr :: _perms :: _offset :: devS :: inoS :: containerPath :: _ => do
    let ino ← fromStrRadix 10 64 inoS
    let (majS, minS) ← splitOnce ':' devS
    -- `unwrap_or(0)`
    let major := (fromStrRadix 16 32 majS).getD 0
    let minor := (fromStrRadix 16 32 minS).getD 0
    return ({ dev := makedev (.ofNat 32 major) (.ofNat 32 minor), ino := .ofNat 64 ino },
      containerPath)
  | _ => none

/-- `results` and `seen`. -/
structure ScanState where
  results : FinMap String (List FoundLib)
  seen : FinMap String (Finset DevInode)

namespace ScanState

/-- Every library with nothing found yet. -/
def init (libs : List (String × Finset DevInode)) : ScanState :=
  libs.foldl (fun st lib => ⟨st.results.insert lib.1 [], st.seen.insert lib.1 ∅⟩) ⟨∅, ∅⟩

def found (st : ScanState) (lib : String) : List FoundLib := (st.results.lookup lib).getD []

def libSeen (st : ScanState) (lib : String) : Finset DevInode := (st.seen.lookup lib).getD ∅

/-- `lib_seen.insert`. -/
def see (st : ScanState) (lib : String) (di : DevInode) : ScanState :=
  { st with seen := st.seen.insert lib (insert di (st.libSeen lib)) }

/-- `results.push`. -/
def push (st : ScanState) (lib : String) (item : FoundLib) : ScanState :=
  { st with results := st.results.insert lib (st.found lib ++ [item]) }

/-- A line that maps file `di` for `lib`, at a path that may exist on the host. -/
def record (st : ScanState) (lib : String) (attached : Finset DevInode) (di : DevInode)
    (hostPath : List Char) (pathExists : Bool) : ScanState :=
  if di ∈ attached ∨ di ∈ st.libSeen lib then st
  else
    -- the file counts as seen even if this path to it is not there
    let st := st.see lib di
    if pathExists then st.push lib (hostPath, di) else st

end ScanState

/-- A line that names a library and has all its fields, with the file it maps. -/
structure Match where
  lib : String
  attached : Finset DevInode
  di : DevInode
  hostPath : List Char
  pathExists : Bool

/-- The match of a library on a line. -/
def Match.ofLine (procPath pid : List Char) (line : MapsLine) (lib : String × Finset DevInode) :
    Option Match :=
  if ¬ lib.1.toList <:+: line.text then none
  else
    match mapsFields line.text with
    | none => none
    | some (di, containerPath) =>
      let hostPath := procPath ++ '/' :: pid ++ "/root".toList ++ containerPath
      some ⟨lib.1, lib.2, di, hostPath, line.pathExists hostPath⟩

def ScanState.handle (st : ScanState) (m : Match) : ScanState :=
  st.record m.lib m.attached m.di m.hostPath m.pathExists

/-- One library against one line; the first component are the libraries still to be met in this
    process. -/
def scanLib (procPath pid : List Char) (line : MapsLine) (acc : Finset String × ScanState)
    (lib : String × Finset DevInode) : Finset String × ScanState :=
  match Match.ofLine procPath pid line lib with
  | none => acc
  -- the library has been met, whether or not its file is new
  | some m => (acc.1.erase m.lib, acc.2.handle m)

/-- The lines of a maps file, until each library has been met once. -/
def scanLines (procPath pid : List Char) (libs : List (String × Finset DevInode)) :
    List (Option MapsLine) → Finset String → ScanState → ScanState
  | [], _, st => st
  -- a line that cannot be read ends the process
  | none :: _, _, st => st
  | some line :: lines, remainingLibs, st =>
    let (remainingLibs, st) := libs.foldl (scanLib procPath pid line) (remainingLibs, st)
    if remainingLibs = ∅ then st else scanLines procPath pid libs lines remainingLibs st

/-- Whether an entry is a process to be scanned. A name that starts with a digit and is no number
    passes any filter. -/
def scanned (onlyPids : Option (Finset ℕ)) (name : List Char) : Bool :=
  match name with
  | [] => false
  | c :: _ =>
    c.isDigit &&
      match onlyPids, fromStrRadix 10 32 name with
      | some pids, some pid => decide (pid ∈ pids)
      | _, _ => true

def scanEntry (procPath : List Char) (libs : List (String × Finset DevInode))
    (onlyPids : Option (Finset ℕ)) (st : ScanState) (entry : ProcEntry) : ScanState :=
  if scanned onlyPids entry.name then
    match entry.maps with
    | none => st
    | some lines => scanLines procPath entry.name libs lines (libs.map Prod.fst).toFinset st
  else st

/-- `scan_proc_for_libs`. -/
def scanProcForLibs (procPath : List Char) (libs : List (String × Finset DevInode))
    (onlyPids : Option (Finset ℕ)) (snapshot : ProcSnapshot) : FinMap String (List FoundLib) :=
  match snapshot with
  | none => (ScanState.init libs).results
  | some entries => (entries.foldl (scanEntry procPath libs onlyPids) (.init libs)).results

/-! ### Nothing Is Found Twice -/

/-- What was found for a library is all different, seen, and not in a set given for it. -/
def ScanState.New (libs : List (String × Finset DevInode)) (st : ScanState) : Prop :=
  ∀ lib, ((st.found lib).map Prod.snd).Nodup ∧
    ∀ di ∈ (st.found lib).map Prod.snd, di ∈ st.libSeen lib ∧
      ∃ attached, (lib, attached) ∈ libs ∧ di ∉ attached

namespace ScanState

variable {libs : List (String × Finset DevInode)} {st : ScanState}

/-- Nothing is found or seen at first. -/
theorem found_init (libs : List (String × Finset DevInode)) (lib : String) :
    (init libs).found lib = [] ∧ (init libs).libSeen lib = ∅ := by
  -- all that has been entered so far is empty
  suffices hempty : ∀ st : ScanState, (st.found lib = [] ∧ st.libSeen lib = ∅) →
      let st' := libs.foldl
        (fun st lib => ScanState.mk (st.results.insert lib.1 []) (st.seen.insert lib.1 ∅)) st
      st'.found lib = [] ∧ st'.libSeen lib = ∅ from
    hempty ⟨∅, ∅⟩ ⟨rfl, rfl⟩
  induction libs with
  | nil => exact fun st h => h
  | cons head libs ih =>
    intro st h
    apply ih
    unfold found libSeen
    rw [FinMap.lookup_insert_eq_ite, FinMap.lookup_insert_eq_ite]
    split
    · exact ⟨rfl, rfl⟩
    · exact h

theorem new_init (libs : List (String × Finset DevInode)) : (init libs).New libs := by
  intro lib
  simp [(found_init libs lib).1]

theorem found_push (st : ScanState) (lib lib' : String) (item : FoundLib) :
    (st.push lib item).found lib' =
      if lib' = lib then st.found lib ++ [item] else st.found lib' := by
  unfold found push
  rw [FinMap.lookup_insert_eq_ite]
  split <;> rfl

theorem libSeen_see (st : ScanState) (lib lib' : String) (di : DevInode) :
    (st.see lib di).libSeen lib' =
      if lib' = lib then insert di (st.libSeen lib) else st.libSeen lib' := by
  unfold libSeen see
  rw [FinMap.lookup_insert_eq_ite]
  split <;> rfl

theorem New.see (h : st.New libs) (lib : String) (di : DevInode) : (st.see lib di).New libs := by
  intro lib'
  refine ⟨(h lib').1, fun di' hdi' => ?_⟩
  obtain ⟨hseen, hnew⟩ := (h lib').2 di' hdi'
  refine ⟨?_, hnew⟩
  rw [libSeen_see]
  split
  next heq =>
    subst heq
    exact Finset.mem_insert_of_mem hseen
  · exact hseen

theorem New.push (h : st.New libs) {lib : String} {attached : Finset DevInode}
    (hlib : (lib, attached) ∈ libs) {item : FoundLib} (hattached : item.2 ∉ attached)
    (hseen : item.2 ∈ st.libSeen lib) (hfresh : item.2 ∉ (st.found lib).map Prod.snd) :
    (st.push lib item).New libs := by
  intro lib'
  rw [found_push]
  split
  next heq =>
    subst heq
    rw [List.map_append, List.map_singleton]
    constructor
    · exact (h lib').1.append (List.nodup_singleton _) (List.disjoint_singleton.mpr hfresh)
    · intro di hdi
      rcases List.mem_append.mp hdi with hold | hnew
      · exact (h lib').2 di hold
      · rw [List.mem_singleton.mp hnew]
        exact ⟨hseen, attached, hlib, hattached⟩
  · exact h lib'

theorem New.record (h : st.New libs) {lib : String} {attached : Finset DevInode}
    (hlib : (lib, attached) ∈ libs) (di : DevInode) (hostPath : List Char) (pathExists : Bool) :
    (st.record lib attached di hostPath pathExists).New libs := by
  unfold ScanState.record
  split
  · exact h
  next hnew =>
    rw [not_or] at hnew
    split
    · apply (h.see lib di).push hlib hnew.1
      · rw [libSeen_see, if_pos rfl]
        exact Finset.mem_insert_self _ _
      · -- what was found before had been seen before
        intro hmem
        exact hnew.2 ((h lib).2 di hmem).1
    · exact h.see lib di

end ScanState

variable {procPath : List Char} {libs : List (String × Finset DevInode)}

theorem ScanState.New.scanLib {pid : List Char} {line : MapsLine}
    {acc : Finset String × ScanState} (h : acc.2.New libs) {lib : String × Finset DevInode}
    (hlib : lib ∈ libs) : (scanLib procPath pid line acc lib).2.New libs := by
  unfold Profi.scanLib Match.ofLine
  split
  · exact h
  next m hm =>
    -- the match is of this library
    split at hm
    · cases hm
    · split at hm
      · cases hm
      · cases hm
        exact h.record hlib _ _ _

/-- All libraries against one line. -/
theorem ScanState.New.foldl_scanLib {pid : List Char} {line : MapsLine}
    {acc : Finset String × ScanState} (h : acc.2.New libs) {part : List (String × Finset DevInode)}
    (hsub : part ⊆ libs) : (part.foldl (Profi.scanLib procPath pid line) acc).2.New libs := by
  induction part generalizing acc with
  | nil => exact h
  | cons lib rest ih =>
    apply ih
    · exact h.scanLib (hsub List.mem_cons_self)
    · exact fun x hx => hsub (List.mem_cons_of_mem lib hx)

theorem ScanState.New.scanLines {pid : List Char} {st : ScanState} (h : st.New libs)
    (lines : List (Option MapsLine)) (remainingLibs : Finset String) :
    (scanLines procPath pid libs lines remainingLibs st).New libs := by
  -- the libraries still to be met only decide where the walk ends
  induction lines generalizing st remainingLibs with
  | nil => exact h
  | cons line lines ih =>
    cases line with
    | none => exact h
    | some line =>
      have hline : (libs.foldl (Profi.scanLib procPath pid line) (remainingLibs, st)).2.New libs :=
        ScanState.New.foldl_scanLib h (List.Subset.refl libs)
      unfold Profi.scanLines
      dsimp only
      split
      · exact hline
      · exact ih hline _

theorem ScanState.New.scanEntry {st : ScanState} (h : st.New libs)
    (onlyPids : Option (Finset ℕ)) (entry : ProcEntry) :
    (scanEntry procPath libs onlyPids st entry).New libs := by
  unfold Profi.scanEntry
  split
  · split
    · exact h
    · exact h.scanLines _ _
  · exact h

/-- A scan finds each file once for a library, and only files not in a set given for it. -/
theorem scanProcForLibs_new (procPath : List Char) (libs : List (String × Finset DevInode))
    (onlyPids : Option (Finset ℕ)) (snapshot : ProcSnapshot) {lib : String}
    {items : List FoundLib}
    (h : (scanProcForLibs procPath libs onlyPids snapshot).lookup lib = some items) :
    (items.map Prod.snd).Nodup ∧
      ∀ di ∈ items.map Prod.snd, ∃ attached, (lib, attached) ∈ libs ∧ di ∉ attached := by
  have hnew : ∀ st : ScanState, st.New libs → st.results.lookup lib = some items →
      (items.map Prod.snd).Nodup ∧
        ∀ di ∈ items.map Prod.snd, ∃ attached, (lib, attached) ∈ libs ∧ di ∉ attached := by
    intro st hst hlookup
    have hfound : st.found lib = items := by rw [ScanState.found, hlookup, Option.getD_some]
    obtain ⟨hnodup, hall⟩ := hst lib
    rw [hfound] at hnodup hall
    exact ⟨hnodup, fun di hdi => (hall di hdi).2⟩
  cases snapshot with
  | none => exact hnew _ (ScanState.new_init libs) h
  | some entries =>
    refine hnew _ ?_ h
    apply List.foldlRecOn (motive := fun st : ScanState => st.New libs) entries
    · exact ScanState.new_init libs
    · exact fun st hst entry _ => hst.scanEntry onlyPids entry

-- two mappings of one file in one process, as in the test of the source
example :
    (scanProcForLibs "/proc".toList [("libcudart.so", ∅)] none (some [⟨"1234".toList,
      some [some ⟨"7f000000-7f001000 r-xp 00000000 08:01 42 /lib64/libcudart.so.12\n".toList,
          fun _ => true⟩,
        some ⟨"7f001000-7f002000 r--p 00001000 08:01 42 /lib64/libcudart.so.12\n".toList,
          fun _ => true⟩]⟩])).lookup "libcudart.so" =
      some [("/proc/1234/root/lib64/libcudart.so.12".toList, ⟨makedev 8 1, 42⟩)] := by
  decide +kernel

/-! ## The Discovery Thread -/

/-- The libraries the thread looks for. -/
inductive Library where
  | cudart
  | nccl
  | driver
  | nvtx
deriving DecidableEq, Repr

/-- The name a library is looked for by. -/
def Library.name : Library → String
  | .cudart => "libcudart.so"
  | .nccl => "libnccl.so"
  | .driver => "libcuda.so"
  | .nvtx => "libnvtx3interop.so"

/-- The `match` on the library's name. -/
def Library.ofName? : String → Option Library
  | "libcudart.so" => some .cudart
  | "libnccl.so" => some .nccl
  | "libcuda.so" => some .driver
  | "libnvtx3interop.so" => some .nvtx
  | _ => none

theorem Library.ofName?_name (l : Library) : ofName? l.name = some l := by
  cases l <;> rfl

theorem Library.name_injective : Function.Injective Library.name := by
  intro l l' h
  have hsome : some l = some l' := by rw [← ofName?_name l, h, ofName?_name]
  exact Option.some.inj hsome

theorem Library.name_of_ofName? {s : String} {l : Library} (h : ofName? s = some l) :
    s = l.name := by
  unfold ofName? at h
  split at h <;> cases h <;> rfl

/-- `AttachRequest`. -/
structure AttachRequest where
  lib : String
  hostPath : List Char
  devinode : DevInode
deriving DecidableEq, Repr

/-- The discovery thread. -/
structure Discovery where
  /-- `attached_cuda`, `attached_nccl`, `attached_driver` and `attached_nvtx`. -/
  attached : Library → Finset DevInode
  iteration : U64
  /-- What is left of the last scan's result. -/
  pending : List (String × FoundLib)
  /-- All requests sent so far. -/
  sent : List AttachRequest
  /-- The thread has not returned. -/
  alive : Bool

/-- What the thread does next. -/
inductive DiscoveryEvent where
  /-- A scan, if the last result is done with. `knownPids` is read for the filter, and `order` is
      the one in which the result's map is gone through. -/
  | scan (knownPids : Finset ℕ) (snapshot : ProcSnapshot) (order : KeyOrder String)
  /-- The next item of the result; `receiving` says whether a request could be sent. -/
  | next (receiving : Bool)

namespace Discovery

def init (initial : Library → Finset DevInode) : Discovery where
  attached := initial
  iteration := 0
  pending := []
  sent := []
  alive := true

/-- `libs_to_scan`. -/
def libsToScan (enableNvtxTracing : Bool) (d : Discovery) : List (String × Finset DevInode) :=
  [Library.cudart, .nccl, .driver].map (fun l => (l.name, d.attached l)) ++
    if enableNvtxTracing then [(Library.nvtx.name, d.attached .nvtx)] else []

/-- The result of a scan, one by one. -/
def foundItems (found : FinMap String (List FoundLib)) (order : KeyOrder String) :
    List (String × FoundLib) :=
  (order.order found.keys).flatMap fun lib =>
    ((found.lookup lib).getD []).map fun item => (lib, item)

/-- One item of the result. The file is recorded before the request is sent. -/
def sendItem (d : Discovery) (receiving : Bool) (lib : String) (item : FoundLib) : Discovery :=
  match Library.ofName? lib with
  | none => d
  | some target =>
    if item.2 ∈ d.attached target then d
    else
      let d :=
        { d with
          attached := Function.update d.attached target (insert item.2 (d.attached target)) }
      -- if the receiver is gone, the thread returns
      if receiving then { d with sent := d.sent ++ [⟨lib, item.1, item.2⟩] }
      else { d with alive := false }

/-- One step of the thread. -/
def step (procPath : List Char) (enableNvtxTracing : Bool) (d : Discovery) :
    DiscoveryEvent → Discovery
  | .scan knownPids snapshot order =>
    if d.alive ∧ d.pending = [] then
      -- every sixth scan is a full one
      let onlyPids := if d.iteration.toNat % 6 = 0 then none else some knownPids
      let found := scanProcForLibs procPath (d.libsToScan enableNvtxTracing) onlyPids snapshot
      { d with iteration := d.iteration + 1, pending := foundItems found order }
    else d
  | .next receiving =>
    if d.alive then
      match d.pending with
      | [] => d
      | (lib, item) :: rest => { d with pending := rest }.sendItem receiving lib item
    else d

/-! ### Nothing Is Requested Twice -/

/-- The library and file of a request. -/
def requested (r : AttachRequest) : String × DevInode := (r.lib, r.devinode)

/-- Each request is for another file, which is recorded now and was not at the start. -/
structure Once (initial : Library → Finset DevInode) (d : Discovery) : Prop where
  grown : ∀ l, initial l ⊆ d.attached l
  nodup : (d.sent.map requested).Nodup
  recorded : ∀ r ∈ d.sent, ∃ l, r.lib = l.name ∧ r.devinode ∈ d.attached l ∧
    r.devinode ∉ initial l

variable {initial : Library → Finset DevInode} {d : Discovery}

theorem once_init (initial : Library → Finset DevInode) : Once initial (init initial) where
  grown := fun l => Finset.Subset.refl _
  nodup := List.nodup_nil
  recorded := by simp [init]

theorem mem_update_insert {attached : Library → Finset DevInode} (target l : Library)
    (di : DevInode) :
    attached l ⊆ Function.update attached target (insert di (attached target)) l := by
  by_cases hl : l = target
  · subst hl
    rw [Function.update_self]
    exact Finset.subset_insert _ _
  · rw [Function.update_of_ne hl]

theorem Once.record (h : Once initial d) (target : Library) (di : DevInode) :
    Once initial
      { d with attached := Function.update d.attached target (insert di (d.attached target)) } where
  grown := fun l => (h.grown l).trans (mem_update_insert target l di)
  nodup := h.nodup
  recorded := by
    intro r hr
    obtain ⟨l, hlib, hmem, hinitial⟩ := h.recorded r hr
    exact ⟨l, hlib, mem_update_insert target l di hmem, hinitial⟩

/-- A file is asked for only if it is not recorded, and is recorded then. -/
theorem Once.sendItem (h : Once initial d) (receiving : Bool) (lib : String) (item : FoundLib) :
    Once initial (d.sendItem receiving lib item) := by
  unfold Discovery.sendItem
  split
  · exact h
  next target htarget =>
    split
    · exact h
    next hnew =>
      have hrecorded := h.record target item.2
      have hname : lib = target.name := Library.name_of_ofName? htarget
      split
      · refine { hrecorded with nodup := ?_, recorded := ?_ }
        · -- a request for this file would have recorded it
          have hfresh : (lib, item.2) ∉ d.sent.map requested := by
            intro hmem
            obtain ⟨r, hr, heq⟩ := List.mem_map.mp hmem
            obtain ⟨l, hl, hattached, -⟩ := h.recorded r hr
            obtain ⟨hlib, hfile⟩ := Prod.mk.inj heq
            have hsame : l = target := by
              apply Library.name_injective
              rw [← hl, hlib, hname]
            rw [← hfile, ← hsame] at hnew
            exact hnew hattached
          rw [List.map_append, List.map_singleton]
          exact h.nodup.append (List.nodup_singleton _) (List.disjoint_singleton.mpr hfresh)
        · intro r hr
          rcases List.mem_append.mp hr with hold | hlast
          · exact hrecorded.recorded r hold
          · rw [List.mem_singleton.mp hlast]
            refine ⟨target, hname, ?_, fun hinitial => hnew (h.grown target hinitial)⟩
            dsimp only
            rw [Function.update_self]
            exact Finset.mem_insert_self _ _
      · exact { hrecorded with }

theorem Once.step (h : Once initial d) (procPath : List Char) (enableNvtxTracing : Bool)
    (e : DiscoveryEvent) : Once initial (d.step procPath enableNvtxTracing e) := by
  unfold Discovery.step
  cases e with
  | scan knownPids snapshot order =>
    dsimp only
    split
    · exact { h with }
    · exact h
  | next receiving =>
    dsimp only
    split
    · split
      · exact h
      · apply Once.sendItem
        exact { h with }
    · exact h

theorem sent_subset_step (d : Discovery) (procPath : List Char) (enableNvtxTracing : Bool)
    (e : DiscoveryEvent) : d.sent ⊆ (d.step procPath enableNvtxTracing e).sent := by
  unfold Discovery.step
  cases e with
  | scan knownPids snapshot order =>
    dsimp only
    split <;> exact List.Subset.refl _
  | next receiving =>
    dsimp only
    split
    · split
      · exact List.Subset.refl _
      · unfold Discovery.sendItem
        split
        · exact List.Subset.refl _
        · split
          · exact List.Subset.refl _
          · dsimp only
            split
            · exact List.subset_append_left _ _
            · exact List.Subset.refl _
    · exact List.Subset.refl _

theorem once_run (procPath : List Char) (enableNvtxTracing : Bool)
    (initial : Library → Finset DevInode) (es : List DiscoveryEvent) :
    Once initial (Runs.run (step procPath enableNvtxTracing) (init initial) es) :=
  Runs.run_invariant (P := fun _ _ => True) (I := Once initial)
    (fun _ e h _ => h.step procPath enableNvtxTracing e) (once_init initial)
    (Runs.along_true _ _ es)

/-- Over its whole life the thread requests no file twice for a library, and none that was attached
    before it started; and no scan result has a file twice for a library. -/
theorem requested_once_run (procPath : List Char) (enableNvtxTracing : Bool)
    (initial : Library → Finset DevInode) (es : List DiscoveryEvent) :
    ((Runs.run (step procPath enableNvtxTracing) (init initial) es).sent.map requested).Nodup ∧
    (∀ r ∈ (Runs.run (step procPath enableNvtxTracing) (init initial) es).sent,
      ∀ l : Library, r.lib = l.name → r.devinode ∉ initial l) ∧
    ∀ libs onlyPids snapshot lib items,
      (scanProcForLibs procPath libs onlyPids snapshot).lookup lib = some items →
        (items.map Prod.snd).Nodup := by
  have honce := once_run procPath enableNvtxTracing initial es
  refine ⟨honce.nodup, ?_, ?_⟩
  · intro r hr l hl
    obtain ⟨l', hl', -, hinitial⟩ := honce.recorded r hr
    have hsame : l' = l := Library.name_injective (hl'.symm.trans hl)
    rw [← hsame]
    exact hinitial
  · intro libs onlyPids snapshot lib items h
    exact (scanProcForLibs_new procPath libs onlyPids snapshot h).1

end Discovery

end Profi
