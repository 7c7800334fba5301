import Profi.Discovery

/-!
# What a Scan Misses

A scan goes through the lines of the maps files and stops in each as soon as every library has been
met. For a file of a library it looks at one line only, the first that maps it: whether the path on
this line is there decides for the whole scan. Here the nested loops of `scan_proc_for_libs` are
turned into one list of matches, in the order in which they are handled, and the result is read off
the first match of each file (`mem_found_iff`). A scan is then complete exactly if each file has an
existing path on the first line read for it (`complete_iff`).
-/

namespace Profi

/-! ## Matches -/

/-- The matches of a line, in the order of the libraries. -/
def lineMatches (procPath pid : List Char) (libs : List (String × Finset DevInode))
    (line : MapsLine) : List Match :=
  libs.filterMap (Match.ofLine procPath pid line)

/-- The libraries still to be met behind a line. -/
def stillToMeet (remainingLibs : Finset String) (ms : List Match) : Finset String :=
  ms.foldl (fun rest m => rest.erase m.lib) remainingLibs

/-- The lines of a maps file that are read. -/
def linesRead (procPath pid : List Char) (libs : List (String × Finset DevInode)) :
    List (Option MapsLine) → Finset String → List MapsLine
  | [], _ => []
  -- a line that cannot be read ends the file
  | none :: _, _ => []
  | some line :: lines, remainingLibs =>
    let remainingLibs := stillToMeet remainingLibs (lineMatches procPath pid libs line)
    -- and so does the line on which the last library is met
    line :: if remainingLibs = ∅ then [] else linesRead procPath pid libs lines remainingLibs

/-- The matches of a process. -/
def entryMatches (procPath : List Char) (libs : List (String × Finset DevInode))
    (onlyPids : Option (Finset ℕ)) (entry : ProcEntry) : List Match :=
  if scanned onlyPids entry.name then
    match entry.maps with
    | none => []
    | some lines =>
      (linesRead procPath entry.name libs lines (libs.map Prod.fst).toFinset).flatMap
        (lineMatches procPath entry.name libs)
  else []

/-- The matches of a whole scan. -/
def scanMatches (procPath : List Char) (libs : List (String × Finset DevInode))
    (onlyPids : Option (Finset ℕ)) (snapshot : ProcSnapshot) : List Match :=
  (snapshot.getD []).flatMap (entryMatches procPath libs onlyPids)

/-! ### A Scan Handles its Matches -/

section Matches

variable {procPath pid : List Char} {libs : List (String × Finset DevInode)}

theorem foldl_scanLib (line : MapsLine) (part : List (String × Finset DevInode))
    (acc : Finset String × ScanState) :
    part.foldl (scanLib procPath pid line) acc =
      (stillToMeet acc.1 (lineMatches procPath pid part line),
        (lineMatches procPath pid part line).foldl ScanState.handle acc.2) := by
  unfold lineMatches stillToMeet
  induction part generalizing acc with
  | nil => rfl
  | cons lib part ih =>
    rw [List.foldl_cons, ih, List.filterMap_cons, scanLib]
    cases Match.ofLine procPath pid line lib with
    | none => rfl
    | some m => rfl

theorem scanLines_eq (lines : List (Option MapsLine)) (remainingLibs : Finset String)
    (st : ScanState) :
    scanLines procPath pid libs lines remainingLibs st =
      ((linesRead procPath pid libs lines remainingLibs).flatMap
        (lineMatches procPath pid libs)).foldl ScanState.handle st := by
  induction lines generalizing remainingLibs st with
  | nil => rfl
  | cons line lines ih =>
    cases line with
    | none => rfl
    | some line =>
      unfold scanLines linesRead
      simp only [foldl_scanLib, List.flatMap_cons, List.foldl_append]
      split
      · rfl
      · exact ih _ _

theorem scanEntry_eq (onlyPids : Option (Finset ℕ)) (st : ScanState) (entry : ProcEntry) :
    scanEntry procPath libs onlyPids st entry =
      (entryMatches procPath libs onlyPids entry).foldl ScanState.handle st := by
  unfold scanEntry entryMatches
  split
  · cases entry.maps with
    | none => rfl
    | some lines => exact scanLines_eq lines _ st
  · rfl

theorem scanProcForLibs_eq (onlyPids : Option (Finset ℕ)) (snapshot : ProcSnapshot) :
    scanProcForLibs procPath libs onlyPids snapshot =
      ((scanMatches procPath libs onlyPids snapshot).foldl ScanState.handle
        (.init libs)).results := by
  unfold scanProcForLibs scanMatches
  cases snapshot with
  | none => rfl
  | some entries =>
    rw [Option.getD_some, List.foldl_flatMap]
    simp only [← scanEntry_eq]

end Matches

/-! ## The First Match of a File -/

/-- A match that is for `lib` and maps `di`, a file it may report. -/
def Match.reports (m : Match) (lib : String) (di : DevInode) : Bool :=
  m.lib = lib ∧ m.di = di ∧ di ∉ m.attached

namespace ScanState

variable {st : ScanState}

/-- A new file is seen, and found if its path is there. -/
theorem handle_of_new {m : Match} (hattached : m.di ∉ m.attached)
    (hseen : m.di ∉ st.libSeen m.lib) :
    (st.handle m).libSeen = (st.see m.lib m.di).libSeen ∧
      (st.handle m).found =
        if m.pathExists then (st.push m.lib (m.hostPath, m.di)).found else st.found := by
  unfold handle record
  rw [if_neg (not_or.mpr ⟨hattached, hseen⟩)]
  cases m.pathExists with
  | false => exact ⟨rfl, rfl⟩
  | true => exact ⟨rfl, rfl⟩

theorem handle_of_old {m : Match} (h : m.di ∈ m.attached ∨ m.di ∈ st.libSeen m.lib) :
    st.handle m = st := by
  unfold handle record
  rw [if_pos h]

/-- A match that does not report a file leaves it as it is. -/
theorem handle_of_not_reports (st : ScanState) {m : Match} {lib : String} {di : DevInode}
    (h : m.reports lib di = false) :
    (di ∈ (st.handle m).libSeen lib ↔ di ∈ st.libSeen lib) ∧
      (di ∈ ((st.handle m).found lib).map Prod.snd ↔ di ∈ (st.found lib).map Prod.snd) := by
  by_cases hold : m.di ∈ m.attached ∨ m.di ∈ st.libSeen m.lib
  · rw [handle_of_old hold]
    exact ⟨Iff.rfl, Iff.rfl⟩
  · obtain ⟨hattached, hnew⟩ := not_or.mp hold
    obtain ⟨hseen, hfound⟩ := handle_of_new hattached hnew
    -- the match is recorded, but for another library or another file
    have hother : lib = m.lib → di ≠ m.di := by
      rintro rfl rfl
      simp [Match.reports, hattached] at h
    rw [hseen, hfound, libSeen_see]
    constructor
    · split
      next heq =>
        subst heq
        simp [hother rfl]
      · rfl
    · cases m.pathExists with
      | false => rfl
      | true =>
        rw [if_pos rfl, found_push]
        split
        next heq =>
          subst heq
          simp [hother rfl]
        · rfl

/-- The first match that reports a file settles it. -/
theorem handle_of_reports {m : Match} {lib : String} {di : DevInode} (h : m.reports lib di = true)
    (hnew : di ∉ st.libSeen lib) :
    di ∈ (st.handle m).libSeen lib ∧
      (di ∈ ((st.handle m).found lib).map Prod.snd ↔
        di ∈ (st.found lib).map Prod.snd ∨ m.pathExists = true) := by
  obtain ⟨rfl, rfl, hattached⟩ := of_decide_eq_true h
  obtain ⟨hseen, hfound⟩ := handle_of_new hattached hnew
  rw [hseen, hfound, libSeen_see, if_pos rfl]
  refine ⟨Finset.mem_insert_self _ _, ?_⟩
  cases m.pathExists with
  | false => simp
  | true => simp [found_push]

/-- A file that has been seen is settled; of another one the first match decides. -/
theorem mem_found_foldl_iff (st : ScanState) (ms : List Match) (lib : String) (di : DevInode) :
    di ∈ ((ms.foldl handle st).found lib).map Prod.snd ↔
      di ∈ (st.found lib).map Prod.snd ∨
        (di ∉ st.libSeen lib ∧
          ∃ m, ms.find? (·.reports lib di) = some m ∧ m.pathExists = true) := by
  induction ms generalizing st with
  | nil => simp
  | cons m ms ih =>
    rw [List.foldl_cons, ih]
    cases hreports : m.reports lib di with
    | false =>
      -- the first match of the file is further on
      have hnot := handle_of_not_reports st hreports
      rw [hnot.1, hnot.2, List.find?_cons_of_neg (by simp [hreports])]
    | true =>
      -- this is the first match; from here on the file counts as seen, whatever came out
      have hfirst : (m :: ms).find? (·.reports lib di) = some m := List.find?_cons_of_pos hreports
      rw [hfirst]
      by_cases hseen : di ∈ st.libSeen lib
      · obtain ⟨rfl, rfl, -⟩ := of_decide_eq_true hreports
        rw [handle_of_old (.inr hseen)]
        simp [hseen]
      · obtain ⟨hnow, hfound⟩ := handle_of_reports hreports hseen
        rw [hfound]
        simp [hseen, hnow]

end ScanState

/-- A file is found for a library exactly if the first line that reports it has a path that is
    there. -/
theorem mem_found_iff {procPath : List Char} {libs : List (String × Finset DevInode)}
    {onlyPids : Option (Finset ℕ)} {snapshot : ProcSnapshot} {lib : String} {di : DevInode} :
    di ∈ (((scanProcForLibs procPath libs onlyPids snapshot).lookup lib).getD []).map Prod.snd ↔
      ∃ m, (scanMatches procPath libs onlyPids snapshot).find? (·.reports lib di) = some m ∧
        m.pathExists = true := by
  rw [scanProcForLibs_eq]
  have hfold := ScanState.mem_found_foldl_iff (.init libs)
    (scanMatches procPath libs onlyPids snapshot) lib di
  rw [(ScanState.found_init libs lib).1, (ScanState.found_init libs lib).2] at hfold
  refine hfold.trans ?_
  simp

/-! ## Completeness -/

/-- A scanned process has a line that names the library, maps the file, and has a path that is
    there. -/
def Qualifies (procPath : List Char) (onlyPids : Option (Finset ℕ)) (snapshot : ProcSnapshot)
    (lib : String) (di : DevInode) : Prop :=
  ∃ entry ∈ snapshot.getD [], scanned onlyPids entry.name = true ∧
    ∃ lines, entry.maps = some lines ∧ ∃ line, some line ∈ lines ∧ lib.toList <:+: line.text ∧
      ∃ containerPath, mapsFields line.text = some (di, containerPath) ∧
        line.pathExists (procPath ++ '/' :: entry.name ++ "/root".toList ++ containerPath) = true

/-- No file of a library is left out that is not attached already. -/
def Complete (procPath : List Char) (libs : List (String × Finset DevInode))
    (onlyPids : Option (Finset ℕ)) (snapshot : ProcSnapshot) : Prop :=
  ∀ lib ∈ libs, ∀ di, Qualifies procPath onlyPids snapshot lib.1 di →
    di ∈ lib.2 ∨
      di ∈ (((scanProcForLibs procPath libs onlyPids snapshot).lookup lib.1).getD []).map Prod.snd

/-- Of the lines that are read, the first that reports a file has a path that is there. -/
def FirstPathsExist (procPath : List Char) (libs : List (String × Finset DevInode))
    (onlyPids : Option (Finset ℕ)) (snapshot : ProcSnapshot) : Prop :=
  ∀ lib ∈ libs, ∀ di, Qualifies procPath onlyPids snapshot lib.1 di → di ∉ lib.2 →
    ∃ m, (scanMatches procPath libs onlyPids snapshot).find? (·.reports lib.1 di) = some m ∧
      m.pathExists = true

/-- A scan is complete exactly if, of each file, the first line read for it has a path that is
    there. -/
theorem complete_iff (procPath : List Char) (libs : List (String × Finset DevInode))
    (onlyPids : Option (Finset ℕ)) (snapshot : ProcSnapshot) :
    Complete procPath libs onlyPids snapshot ↔
      FirstPathsExist procPath libs onlyPids snapshot := by
  refine forall₄_congr fun lib _ di _ => ?_
  rw [or_iff_not_imp_left, mem_found_iff]

/-- A line that maps a version of the CUDA runtime. -/
def cudartLine (inode : String) : MapsLine where
  text := ("7f00-7f01 r-xp 0 08:01 " ++ inode ++ " /libcudart.so." ++ inode).toList
  pathExists _ := true

/-- A process that maps two versions of a library. -/
def twoVersions : ProcSnapshot :=
  some [⟨"1".toList, some [some (cudartLine "11"), some (cudartLine "12")]⟩]

/-- The version mapped second is not found. -/
theorem not_complete_twoVersions :
    ¬ Complete "/proc".toList [("libcudart.so", ∅)] none twoVersions := by
  intro h
  have hqualifies :
      Qualifies "/proc".toList none twoVersions "libcudart.so" ⟨makedev 8 1, 12⟩ := by
    refine ⟨_, List.mem_cons_self, by decide +kernel, _, rfl, cudartLine "12", ?_, ?_, ?_⟩
    · exact List.mem_cons_of_mem _ List.mem_cons_self
    · decide +kernel
    · exact ⟨"/libcudart.so.12".toList, by decide +kernel, rfl⟩
  have hmissed : (⟨makedev 8 1, 12⟩ : DevInode) ∉ (((scanProcForLibs "/proc".toList
      [("libcudart.so", ∅)] none twoVersions).lookup "libcudart.so").getD []).map Prod.snd := by
    decide +kernel
  rcases h _ List.mem_cons_self _ hqualifies with hattached | hfound
  · exact absurd hattached (Finset.notMem_empty _)
  · exact hmissed hfound

end Profi
