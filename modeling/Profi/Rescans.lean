import Profi.Eviction
import Profi.Completeness
import Profi.Attach

/-!
# Scanning Again

The discovery thread scans `/proc` again and again. Every sixth scan looks at all processes, the
others only at those in `known_pids`, a set the event loop fills: a process whose events it counts
for the first time goes to `new_pids_batch`, and a gc tick moves the batch to the set, if it gets
the lock.

* Whatever the two threads do and however often the lock is taken, the batch and the set together
  are the processes counted so far, and a gc tick that gets the lock leaves them all in the set
  (`Agent.known_pids_run`).
* A file that every scan could find is requested within six scans, with nothing said about the known
  processes (`Discovery.requested_within_six_scans`).
-/

namespace Profi

open Text

/-! ## What a full scan finds -/

/-- The match, whatever was attached before. -/
def Match.forget (m : Match) : Match := { m with attached := ∅ }

/-- The libraries, with nothing attached. -/
def fresh (libs : List (String × Finset DevInode)) : List (String × Finset DevInode) :=
  libs.map fun lib => (lib.1, ∅)

variable {procPath : List Char}

section Forget

variable {libs : List (String × Finset DevInode)}

theorem ofLine_fresh (pid : List Char) (line : MapsLine) (lib : String × Finset DevInode) :
    Match.ofLine procPath pid line (lib.1, ∅) =
      (Match.ofLine procPath pid line lib).map Match.forget := by
  unfold Match.ofLine
  split
  · rfl
  · split <;> rfl

theorem lineMatches_fresh (pid : List Char) (line : MapsLine) :
    lineMatches procPath pid (fresh libs) line =
      (lineMatches procPath pid libs line).map Match.forget := by
  unfold lineMatches fresh
  rw [List.filterMap_map, List.map_filterMap]
  apply List.filterMap_congr
  intro lib _
  exact ofLine_fresh pid line lib

theorem stillToMeet_forget (remainingLibs : Finset String) (ms : List Match) :
    stillToMeet remainingLibs (ms.map Match.forget) = stillToMeet remainingLibs ms := by
  unfold stillToMeet
  rw [List.foldl_map]
  rfl

/-- What is attached does not decide how far a maps file is read. -/
theorem linesRead_fresh (pid : List Char) (lines : List (Option MapsLine))
    (remainingLibs : Finset String) :
    linesRead procPath pid (fresh libs) lines remainingLibs =
      linesRead procPath pid libs lines remainingLibs := by
  induction lines generalizing remainingLibs with
  | nil => rfl
  | cons line lines ih =>
    cases line with
    | none => rfl
    | some line =>
      simp only [linesRead, lineMatches_fresh, stillToMeet_forget, ih]

theorem scanMatches_fresh (onlyPids : Option (Finset ℕ)) (snapshot : ProcSnapshot) :
    scanMatches procPath (fresh libs) onlyPids snapshot =
      (scanMatches procPath libs onlyPids snapshot).map Match.forget := by
  have hnames : (fresh libs).map Prod.fst = libs.map Prod.fst := by
    simp [fresh]
  unfold scanMatches
  rw [List.map_flatMap]
  congr 1
  funext entry
  unfold entryMatches
  split
  · cases entry.maps with
    | none => rfl
    | some lines =>
      simp only [linesRead_fresh, hnames, List.map_flatMap]
      congr 1
      funext line
      exact lineMatches_fresh entry.name line
  · rfl

/-- A match is for one of the libraries, with what is attached of it. -/
theorem mem_libs_of_mem_scanMatches {onlyPids : Option (Finset ℕ)} {snapshot : ProcSnapshot}
    {m : Match} (h : m ∈ scanMatches procPath libs onlyPids snapshot) :
    (m.lib, m.attached) ∈ libs := by
  obtain ⟨entry, -, hentry⟩ := List.mem_flatMap.mp h
  unfold entryMatches at hentry
  split at hentry
  · cases hmaps : entry.maps with
    | none =>
      rw [hmaps] at hentry
      cases hentry
    | some lines =>
      rw [hmaps] at hentry
      obtain ⟨line, -, hline⟩ := List.mem_flatMap.mp hentry
      obtain ⟨lib, hlib, hm⟩ := List.mem_filterMap.mp hline
      unfold Match.ofLine at hm
      split at hm
      · cases hm
      · split at hm
        · cases hm
        · cases hm
          exact hlib
  · cases hentry

end Forget

namespace Discovery

variable {enableNvtxTracing : Bool} {d : Discovery} {l : Library} {di : DevInode}

/-- A full scan that knows of no file finds this one: the first line it reads for it has a path that
    is there. -/
def Shows (procPath : List Char) (enableNvtxTracing : Bool) (snapshot : ProcSnapshot) (l : Library)
    (di : DevInode) : Prop :=
  ((scanMatches procPath (libsToScan enableNvtxTracing (init fun _ => ∅)) none snapshot).find?
    fun m => m.lib = l.name ∧ m.di = di).any (·.pathExists) = true

instance (procPath : List Char) (enableNvtxTracing : Bool) (snapshot : ProcSnapshot) (l : Library)
    (di : DevInode) : Decidable (Shows procPath enableNvtxTracing snapshot l di) :=
  inferInstanceAs (Decidable (_ = _))

theorem fresh_libsToScan (d : Discovery) :
    fresh (d.libsToScan enableNvtxTracing) = libsToScan enableNvtxTracing (init fun _ => ∅) := by
  cases enableNvtxTracing <;> rfl

theorem attached_of_mem_libsToScan {attached : Finset DevInode}
    (h : (l.name, attached) ∈ d.libsToScan enableNvtxTracing) : attached = d.attached l := by
  unfold libsToScan at h
  simp only [List.map_cons, List.map_nil, List.cons_append, List.nil_append, List.mem_cons,
    Prod.mk.injEq] at h
  rcases h with ⟨hname, rfl⟩ | ⟨hname, rfl⟩ | ⟨hname, rfl⟩ | h
  · rw [Library.name_injective hname]
  · rw [Library.name_injective hname]
  · rw [Library.name_injective hname]
  · split at h
    · obtain ⟨hname, rfl⟩ := Prod.mk.inj (List.mem_singleton.mp h)
      rw [Library.name_injective hname]
    · cases h

/-- What the thread finds, it finds unless it is attached: the files it has attached only hide
    themselves. -/
theorem mem_found_of_shows {snapshot : ProcSnapshot}
    (hshows : Shows procPath enableNvtxTracing snapshot l di) (hnew : di ∉ d.attached l) :
    di ∈ (((scanProcForLibs procPath (d.libsToScan enableNvtxTracing) none snapshot).lookup
      l.name).getD []).map Prod.snd := by
  unfold Shows at hshows
  rw [← fresh_libsToScan d, scanMatches_fresh, List.find?_map, Option.any_map] at hshows
  obtain ⟨m₀, hfind₀, hpath⟩ := (Option.any_eq_true _ _).mp hshows
  rw [mem_found_iff]
  refine ⟨m₀, ?_, hpath⟩
  rw [← hfind₀]
  -- a match for this library carries this library's files, of which `di` is none
  apply List.find?_congr
  intro m' hm'
  have hlib := mem_libs_of_mem_scanMatches hm'
  simp only [Match.reports, Match.forget, Function.comp_apply]
  apply decide_eq_decide.mpr
  constructor
  · rintro ⟨hname, hdi, -⟩
    exact ⟨hname, hdi⟩
  · rintro ⟨hname, hdi⟩
    rw [hname] at hlib
    rw [attached_of_mem_libsToScan hlib]
    exact ⟨hname, hdi, hnew⟩

theorem exists_foundItem {found : FinMap String (List FoundLib)} {lib : String}
    (h : di ∈ ((found.lookup lib).getD []).map Prod.snd) (order : KeyOrder String) :
    ∃ item : FoundLib, (lib, item) ∈ foundItems found order ∧ item.2 = di := by
  obtain ⟨item, hitem, rfl⟩ := List.mem_map.mp h
  refine ⟨item, ?_, rfl⟩
  cases hl : found.lookup lib with
  | none =>
    rw [hl] at hitem
    cases hitem
  | some items =>
    rw [hl] at hitem
    apply List.mem_flatMap.mpr
    refine ⟨lib, (order.perm _).mem_iff.mpr (FinMap.mem_keys_of_lookup hl), ?_⟩
    rw [hl]
    exact List.mem_map_of_mem hitem

/-! ## Six scans -/

/-- The file is attached, or about to be. -/
def Due (l : Library) (di : DevInode) (d : Discovery) : Prop :=
  di ∈ d.attached l ∨ ∃ item : FoundLib, (l.name, item) ∈ d.pending ∧ item.2 = di

/-- An event that makes the thread scan. -/
def Scans (d : Discovery) : DiscoveryEvent → Prop
  | .scan _ _ _ => d.alive = true ∧ d.pending = []
  | .next _ => False

instance (d : Discovery) (e : DiscoveryEvent) : Decidable (d.Scans e) := by
  cases e <;> unfold Scans <;> infer_instance

/-- If the thread scans, the file is there to be found. -/
def ShowsAt (procPath : List Char) (enableNvtxTracing : Bool) (l : Library) (di : DevInode)
    (d : Discovery) : DiscoveryEvent → Prop
  | .scan _ snapshot _ =>
    d.alive = true → d.pending = [] → Shows procPath enableNvtxTracing snapshot l di
  | .next _ => True

instance (procPath : List Char) (enableNvtxTracing : Bool) (l : Library) (di : DevInode)
    (d : Discovery) (e : DiscoveryEvent) :
    Decidable (ShowsAt procPath enableNvtxTracing l di d e) := by
  cases e <;> unfold ShowsAt <;> infer_instance

/-- The scans of a run. -/
def scans (procPath : List Char) (enableNvtxTracing : Bool) (d : Discovery)
    (es : List DiscoveryEvent) : ℕ :=
  Runs.accrued (step procPath enableNvtxTracing) (fun d e => if d.Scans e then 1 else 0) d es

theorem attached_sendItem (d : Discovery) (receiving : Bool) (lib : String) (item : FoundLib)
    (l : Library) : d.attached l ⊆ (d.sendItem receiving lib item).attached l := by
  unfold sendItem
  split
  · exact Finset.Subset.refl _
  next target _ =>
    split
    · exact Finset.Subset.refl _
    · dsimp only
      split <;> exact mem_update_insert target l item.2

/-- The file of an item that is gone through is attached then, or was before. -/
theorem mem_attached_sendItem (d : Discovery) (receiving : Bool) (l : Library) (item : FoundLib) :
    item.2 ∈ (d.sendItem receiving l.name item).attached l := by
  unfold sendItem
  rw [Library.ofName?_name]
  dsimp only
  split
  · assumption
  · split <;> simp

theorem pending_sendItem (d : Discovery) (receiving : Bool) (lib : String) (item : FoundLib) :
    (d.sendItem receiving lib item).pending = d.pending := by
  unfold sendItem
  split
  · rfl
  · split
    · rfl
    · dsimp only
      split <;> rfl

/-- What is due stays due. -/
theorem due_step (h : d.Due l di) (e : DiscoveryEvent) :
    (d.step procPath enableNvtxTracing e).Due l di := by
  cases e with
  | scan knownPids snapshot order =>
    simp only [step]
    split
    next hscans =>
      rcases h with hattached | ⟨item, hitem, -⟩
      · exact .inl hattached
      · rw [hscans.2] at hitem
        cases hitem
    · exact h
  | next receiving =>
    simp only [step]
    split
    · cases hpending : d.pending with
      | nil => exact h
      | cons head rest =>
        obtain ⟨lib, item⟩ := head
        rcases h with hattached | ⟨item', hitem', rfl⟩
        · exact .inl (attached_sendItem _ receiving lib item l hattached)
        · rw [hpending] at hitem'
          rcases List.mem_cons.mp hitem' with heq | hrest
          · cases heq
            exact .inl (mem_attached_sendItem _ receiving l item)
          · right
            rw [pending_sendItem]
            exact ⟨item', hrest, rfl⟩
    · exact h

/-- How many scans come before the next full one. The counter wraps to a full one. -/
def untilFull (d : Discovery) : ℕ :=
  if d.iteration.toNat % 6 = 0 then 0 else 6 - d.iteration.toNat % 6

theorem untilFull_next_le {d' : Discovery} (h : d.untilFull ≠ 0)
    (hnext : d'.iteration = d.iteration + 1) : d'.untilFull + 1 ≤ d.untilFull := by
  have hadd : d'.iteration.toNat = (d.iteration.toNat + 1) % 2 ^ 64 := by
    rw [hnext]
    exact BitVec.toNat_add _ _
  unfold untilFull at h ⊢
  split at h
  · exact absurd rfl h
  next hmod =>
    rw [if_neg hmod]
    by_cases hwrap : d.iteration.toNat + 1 = 2 ^ 64
    · have hzero : d'.iteration.toNat = 0 := by
        rw [hadd, hwrap, Nat.mod_self]
      rw [hzero, if_pos (Nat.zero_mod 6)]
      omega
    · have hsucc : d'.iteration.toNat = d.iteration.toNat + 1 := by
        rw [hadd, Nat.mod_eq_of_lt (by omega)]
      split <;> omega

/-- A scan that could find the file makes it due, or the next full one is nearer. -/
theorem due_or_nearer {e : DiscoveryEvent}
    (hshows : ShowsAt procPath enableNvtxTracing l di d e) (hscans : d.Scans e) :
    (d.step procPath enableNvtxTracing e).Due l di ∨
      (d.step procPath enableNvtxTracing e).untilFull + 1 ≤ d.untilFull := by
  cases e with
  | next receiving => exact absurd hscans id
  | scan knownPids snapshot order =>
    have hshows := hshows hscans.1 hscans.2
    have hscans : d.alive = true ∧ d.pending = [] := hscans
    simp only [step]
    rw [if_pos hscans]
    by_cases hfull : d.iteration.toNat % 6 = 0
    · left
      by_cases hnew : di ∈ d.attached l
      · exact .inl hnew
      · rw [if_pos hfull]
        exact .inr (exists_foundItem (mem_found_of_shows hshows hnew) order)
    · right
      refine untilFull_next_le ?_ rfl
      unfold untilFull
      rw [if_neg hfull]
      omega

theorem untilFull_step_of_not_scans {e : DiscoveryEvent} (h : ¬d.Scans e) :
    (d.step procPath enableNvtxTracing e).untilFull = d.untilFull := by
  cases e with
  | scan knownPids snapshot order =>
    have h : ¬(d.alive = true ∧ d.pending = []) := h
    simp only [step]
    rw [if_neg h]
  | next receiving =>
    simp only [step]
    split
    · split
      · rfl
      · unfold sendItem
        split
        · rfl
        · split
          · rfl
          · dsimp only
            split <;> rfl
    · rfl

/-- Until the file is due, every scan that could find it brings the next full one nearer. -/
theorem due_or_untilFull_le {es : List DiscoveryEvent}
    (hshows : Runs.Along (step procPath enableNvtxTracing)
      (ShowsAt procPath enableNvtxTracing l di) d es) :
    (Runs.run (step procPath enableNvtxTracing) d es).Due l di ∨
      (Runs.run (step procPath enableNvtxTracing) d es).untilFull +
        scans procPath enableNvtxTracing d es ≤ d.untilFull := by
  induction es generalizing d with
  | nil => exact .inr (le_refl _)
  | cons e es ih =>
    obtain ⟨hshow, hrest⟩ := hshows
    rw [Runs.run_cons]
    have hmore : scans procPath enableNvtxTracing d (e :: es) =
        (if d.Scans e then 1 else 0) +
          scans procPath enableNvtxTracing (d.step procPath enableNvtxTracing e) es := rfl
    rw [hmore]
    rcases ih hrest with hdue | hle
    · exact .inl hdue
    · by_cases hscans : d.Scans e
      · rw [if_pos hscans]
        rcases due_or_nearer hshow hscans with hdue | hnearer
        · left
          exact Runs.run_invariant_of_step (I := Due l di) (fun _ e h => due_step h e) hdue es
        · right
          omega
      · rw [if_neg hscans]
        rw [untilFull_step_of_not_scans hscans] at hle
        right
        omega

/-- After six scans that could find it, the file is due. -/
theorem due_of_scans {es : List DiscoveryEvent}
    (hshows : Runs.Along (step procPath enableNvtxTracing)
      (ShowsAt procPath enableNvtxTracing l di) d es)
    (hscans : 6 ≤ scans procPath enableNvtxTracing d es) :
    (Runs.run (step procPath enableNvtxTracing) d es).Due l di := by
  rcases due_or_untilFull_le hshows with hdue | hle
  · exact hdue
  · have hfew : d.untilFull ≤ 5 := by
      unfold untilFull
      split <;> omega
    omega

/-- What a living thread has attached was attached before it started, or it has asked for it. -/
def Backed (initial : Library → Finset DevInode) (d : Discovery) : Prop :=
  d.alive = true → ∀ l, ∀ di ∈ d.attached l,
    di ∈ initial l ∨ ∃ r ∈ d.sent, requested r = (l.name, di)

/-- A file is recorded with its request, or the thread ends. -/
theorem backed_sendItem {initial : Library → Finset DevInode} (h : d.Backed initial)
    (receiving : Bool) (lib : String) (item : FoundLib) :
    (d.sendItem receiving lib item).Backed initial := by
  unfold sendItem
  cases hname : Library.ofName? lib with
  | none => exact h
  | some target =>
    dsimp only
    split
    · exact h
    · split
      · -- the file is recorded and asked for
        intro halive l di hdi
        dsimp only at hdi
        by_cases hl : l = target
        · subst hl
          rw [Function.update_self, Finset.mem_insert] at hdi
          rcases hdi with rfl | hold
          · right
            refine ⟨_, List.mem_append_right _ (List.mem_singleton_self _), ?_⟩
            simp [requested, Library.name_of_ofName? hname]
          · exact (h halive l di hold).imp_right fun ⟨r, hr, heq⟩ =>
              ⟨r, List.mem_append_left _ hr, heq⟩
        · rw [Function.update_of_ne hl] at hdi
          exact (h halive l di hdi).imp_right fun ⟨r, hr, heq⟩ =>
            ⟨r, List.mem_append_left _ hr, heq⟩
      · -- the receiver is gone
        intro halive
        cases halive

theorem backed_step {initial : Library → Finset DevInode} (h : d.Backed initial)
    (e : DiscoveryEvent) : (d.step procPath enableNvtxTracing e).Backed initial := by
  cases e with
  | scan knownPids snapshot order =>
    simp only [step]
    split <;> exact h
  | next receiving =>
    simp only [step]
    split
    · split
      · exact h
      · apply backed_sendItem
        exact h
    · exact h

/-- A file that each scan from some point on could find is asked for at the latest when the sixth of
    these scans has been gone through, unless it was attached at the start. Which processes are
    known, and what else is found, does not matter. -/
theorem requested_within_six_scans (procPath : List Char) (enableNvtxTracing : Bool)
    (initial : Library → Finset DevInode) (before es : List DiscoveryEvent) (l : Library)
    (di : DevInode)
    (hshows : Runs.Along (step procPath enableNvtxTracing)
      (ShowsAt procPath enableNvtxTracing l di)
      (Runs.run (step procPath enableNvtxTracing) (init initial) before) es)
    (hscans : 6 ≤ scans procPath enableNvtxTracing
      (Runs.run (step procPath enableNvtxTracing) (init initial) before) es)
    (halive : (Runs.run (step procPath enableNvtxTracing) (init initial) (before ++ es)).alive =
      true)
    (hdone : (Runs.run (step procPath enableNvtxTracing) (init initial) (before ++ es)).pending =
      []) :
    di ∈ initial l ∨
      ∃ r ∈ (Runs.run (step procPath enableNvtxTracing) (init initial) (before ++ es)).sent,
        requested r = (l.name, di) := by
  have hbacked : (Runs.run (step procPath enableNvtxTracing) (init initial)
      (before ++ es)).Backed initial :=
    Runs.run_invariant_of_step (I := Backed initial) (fun _ e h => backed_step h e)
      (fun _ _ _ hdi => .inl hdi) _
  have hdue := due_of_scans hshows hscans
  rw [← Runs.run_append] at hdue
  rcases hdue with hattached | ⟨item, hitem, -⟩
  · exact hbacked halive l di hattached
  · rw [hdone] at hitem
    cases hitem

/-- A scan with no known processes, after process 7 has mapped the runtime. -/
def partialScan : DiscoveryEvent := .scan ∅ (AttachSys.mappedBy7 "libcudart.so") (.asListed _)

/-- The runtime is mapped when the first scan is over, and found by the next full one. -/
theorem requested_within_six_scans_late :
    ∃ r ∈ (Runs.run (step "/proc".toList false) (init fun _ => ∅)
        ([.scan ∅ (some []) (.asListed _)] ++ (List.replicate 6 partialScan ++ [.next true]))).sent,
      requested r = (Library.cudart.name, ⟨makedev 8 1, 42⟩) := by
  have hrequested := requested_within_six_scans "/proc".toList false (fun _ => ∅)
    [.scan ∅ (some []) (.asListed _)] (List.replicate 6 partialScan ++ [.next true]) .cudart
    ⟨makedev 8 1, 42⟩ (by decide +kernel) (by decide +kernel) (by decide +kernel)
    (by decide +kernel)
  exact hrequested.resolve_left (Finset.notMem_empty _)

end Discovery

/-! ## The known processes -/

variable {n : ℕ}

/-- The event loop with its batch of new processes, the set it shares with the discovery thread,
    and the attaching. -/
structure Agent (n : ℕ) where
  sys : Sys n
  newPidsBatch : List U32
  knownPids : Finset U32
  attach : AttachSys

/-- A step of the probes or the event loop, or one of the attaching. `free` says whether the lock of
    the shared set would be free. -/
inductive AgentEvent (n : ℕ) where
  | sys (e : Event n) (free : Bool)
  | attach (e : AttachEvent)

/-- An arm of the event loop. -/
def Event.isArm : Event n → Bool
  | .consume _ | .aggTick _ | .gcTick _ | .nameKernel _ _ _ => true
  | _ => false

/-- The processes a step pushes to `new_pids_batch`: those of its records that are not in
    `last_seen` when their turn comes. -/
def Sys.newPids (args : Args) (s : Sys n) (e : Event n) : List U32 :=
  Runs.observed (Loop.processRecord args e.env)
    (fun x r => if r.request.isSome ∧ r.pid ∉ x.1.cache.lastSeen then [r.pid] else [])
    (s.armStart args e, ∅) (s.records args e)

/-- The processes of which a step counts records. -/
def Sys.countedPids (args : Args) (s : Sys n) (e : Event n) : List U32 :=
  ((s.records args e).filter (·.request.isSome)).map Record.pid

namespace Agent

def start (n : ℕ) (args : Args) (cfg : AttachConfig) (env : StartEnv) : Agent n where
  sys := .init n args
  newPidsBatch := []
  knownPids := ∅
  attach := .start cfg env

/-- The start of a gc tick: `if let Ok(mut kp) = known_pids.try_write()`. -/
def flushBatch (s : Agent n) (free : Bool) : Agent n :=
  if !s.newPidsBatch.isEmpty && free then
    { s with newPidsBatch := [], knownPids := s.knownPids ∪ s.newPidsBatch.toFinset }
  else s

/-- The event with the processes known now as the filter of a scan. -/
def withKnown (s : Agent n) : AttachEvent → AttachEvent
  | .discovery (.scan _ snapshot order) =>
    .discovery (.scan (s.knownPids.image BitVec.toNat) snapshot order)
  | e => e

/-- The step happens: once the event loop has ended, none of its arms is taken. -/
def takes (s : Agent n) (e : Event n) : Bool := s.attach.running || !e.isArm

def step (args : Args) (cfg : AttachConfig) (s : Agent n) : AgentEvent n → Agent n
  | .sys e free =>
    if s.takes e then
      match e with
      | .gcTick env => { s.flushBatch free with sys := s.sys.step args (.gcTick env) }
      | e =>
        { s with
          sys := s.sys.step args e
          newPidsBatch := s.newPidsBatch ++ s.sys.newPids args e }
    else s
  | .attach e => { s with attach := s.attach.step cfg (s.withKnown e) }

/-- The processes counted by an event. -/
def counted (args : Args) (s : Agent n) : AgentEvent n → List U32
  | .sys e _ => if s.takes e then s.sys.countedPids args e else []
  | .attach _ => []

/-! ### Nobody is lost -/

variable {args : Args} {cfg : AttachConfig}

/-- Who is counted was booked before or is pushed. -/
theorem booked_or_pushed_iff (args : Args) (env : LoopEnv) (records : List Record)
    (x : Loop × MemDelta) (p : U32) :
    (p ∈ x.1.cache.lastSeen ∨
      p ∈ Runs.observed (Loop.processRecord args env)
        (fun x r => if r.request.isSome ∧ r.pid ∉ x.1.cache.lastSeen then [r.pid] else []) x
        records) ↔
      p ∈ x.1.cache.lastSeen ∨ p ∈ (records.filter (·.request.isSome)).map Record.pid := by
  induction records generalizing x with
  | nil => rfl
  | cons r records ih =>
    have ih := ih (Loop.processRecord args env x r)
    rw [Sys.mem_lastSeen_processRecord] at ih
    rw [Runs.observed, List.mem_append]
    by_cases hrequest : r.request.isSome = true
    · by_cases hbooked : r.pid ∈ x.1.cache.lastSeen
      · rw [if_neg fun h => h.2 hbooked]
        by_cases hp : p = r.pid
        · simp [hp, hbooked]
        · simpa [hrequest, hp] using ih
      · rw [if_pos ⟨hrequest, hbooked⟩]
        by_cases hp : p = r.pid
        · simp [hp, hrequest]
        · simpa [hrequest, hp] using ih
    · rw [if_neg fun h => hrequest h.1]
      simpa [hrequest] using ih

/-- The process waits in the batch or is known. -/
def Held (s : Agent n) (p : U32) : Prop := p ∈ s.newPidsBatch ∨ p ∈ s.knownPids

/-- Whom the event loop has booked is held. -/
def Covered (s : Agent n) : Prop := ∀ p ∈ s.sys.loop.cache.lastSeen, s.Held p

theorem held_flushBatch (s : Agent n) (free : Bool) (p : U32) :
    (s.flushBatch free).Held p ↔ s.Held p := by
  unfold flushBatch
  split
  · simp [Held, or_comm]
  · rfl

/-- After a step those are held who were before, and those it has counted. -/
theorem held_step {s : Agent n} (h : s.Covered) (e : AgentEvent n) (p : U32) :
    (s.step args cfg e).Held p ↔ s.Held p ∨ p ∈ s.counted args e := by
  cases e with
  | attach e => simp [step, counted, Held]
  | sys e free =>
    simp only [step, counted]
    by_cases htakes : s.takes e = true
    · rw [if_pos htakes, if_pos htakes]
      split
      · -- a gc tick counts nothing
        rename_i env
        have hnone : s.sys.countedPids args (.gcTick env) = [] := rfl
        rw [hnone]
        simp only [List.not_mem_nil, or_false]
        exact held_flushBatch s free p
      · -- who is counted and not pushed was booked before, so held
        have hiff :=
          booked_or_pushed_iff args e.env (s.sys.records args e) (s.sys.armStart args e, ∅) p
        have hstart : p ∈ (s.sys.armStart args e).cache.lastSeen → s.Held p :=
          fun hp => h p (Sys.mem_lastSeen_armStart hp).1
        unfold Held at hstart ⊢
        simp only [List.mem_append]
        constructor
        · rintro ((hbatch | hpushed) | hknown)
          · exact .inl (.inl hbatch)
          · rcases hiff.mp (.inr hpushed) with hbooked | hcounted
            · exact .inl (hstart hbooked)
            · exact .inr hcounted
          · exact .inl (.inr hknown)
        · rintro ((hbatch | hknown) | hcounted)
          · exact .inl (.inl hbatch)
          · exact .inr hknown
          · rcases hiff.mpr (.inr hcounted) with hbooked | hpushed
            · exact (hstart hbooked).imp_left .inl
            · exact .inl (.inr hpushed)
    · rw [if_neg htakes, if_neg htakes]
      simp

/-- Who is booked is held. -/
theorem covered_step {s : Agent n} (h : s.Covered) (e : AgentEvent n) :
    (s.step args cfg e).Covered := by
  intro p hp
  rw [held_step h]
  cases e with
  | attach e => exact .inl (h p hp)
  | sys e free =>
    by_cases htakes : s.takes e = true
    · have hsys : (s.step args cfg (.sys e free)).sys = s.sys.step args e := by
        simp only [step]
        rw [if_pos htakes]
        split <;> rfl
      rw [hsys, (s.sys.step_handled args e).cache] at hp
      rcases Sys.mem_lastSeen_records hp with hstart | ⟨r, hr, hrequest, rfl⟩
      · exact .inl (h p (Sys.mem_lastSeen_armStart hstart).1)
      · right
        simp only [counted]
        rw [if_pos htakes]
        exact List.mem_map_of_mem (List.mem_filter.mpr ⟨hr, hrequest⟩)
    · simp only [step] at hp
      rw [if_neg htakes] at hp
      exact .inl (h p hp)

def run (args : Args) (n : ℕ) (cfg : AttachConfig) (env : StartEnv) (es : List (AgentEvent n)) :
    Agent n :=
  Runs.run (step args cfg) (start n args cfg env) es

/-- The processes counted in a run. -/
def countedIn (args : Args) (n : ℕ) (cfg : AttachConfig) (env : StartEnv)
    (es : List (AgentEvent n)) : List U32 :=
  Runs.observed (step args cfg) (counted args) (start n args cfg env) es

theorem covered_run (args : Args) (cfg : AttachConfig) (env : StartEnv)
    (es : List (AgentEvent n)) : (run args n cfg env es).Covered := by
  refine Runs.run_invariant_of_step (I := Covered) (fun _ e h => covered_step h e) ?_ es
  intro p hp
  exact absurd hp (AList.notMem_empty p)

theorem held_run_iff (args : Args) (cfg : AttachConfig) (env : StartEnv)
    (es : List (AgentEvent n)) (p : U32) :
    (run args n cfg env es).Held p ↔ p ∈ countedIn args n cfg env es := by
  induction es using List.reverseRecOn with
  | nil => simp [run, countedIn, Runs.observed, start, Held]
  | append_singleton es e ih =>
    have hcovered : (Runs.run (step args cfg) (start n args cfg env) es).Covered :=
      covered_run args cfg env es
    unfold run countedIn at ih ⊢
    rw [Runs.run_concat, Runs.observed_concat, List.mem_append, ← ih]
    exact held_step hcovered e p

/-- A known process stays known. -/
theorem knownPids_subset_step (args : Args) (cfg : AttachConfig) (s : Agent n) (e : AgentEvent n) :
    s.knownPids ⊆ (s.step args cfg e).knownPids := by
  cases e with
  | attach e => exact Finset.Subset.refl _
  | sys e free =>
    simp only [step]
    split
    · split
      · unfold flushBatch
        split
        · exact Finset.subset_union_left
        · exact Finset.Subset.refl _
      · exact Finset.Subset.refl _
    · exact Finset.Subset.refl _

/-- A gc tick that gets the lock makes all held processes known. -/
theorem mem_knownPids_gcTick (args : Args) (cfg : AttachConfig) {s : Agent n}
    (hrunning : s.attach.running = true) (env : LoopEnv) {p : U32} (h : s.Held p) :
    p ∈ (s.step args cfg (.sys (.gcTick env) true)).knownPids := by
  have htakes : s.takes (.gcTick env) = true := by
    unfold takes
    rw [hrunning]
    rfl
  simp only [step]
  rw [if_pos htakes]
  unfold flushBatch
  rcases h with hbatch | hknown
  · have hnonempty : s.newPidsBatch.isEmpty = false := by
      rw [List.isEmpty_eq_false_iff]
      exact List.ne_nil_of_mem hbatch
    rw [hnonempty]
    exact Finset.mem_union_right _ (List.mem_toFinset.mpr hbatch)
  · split
    · exact Finset.mem_union_left _ hknown
    · exact hknown

/-- In every interleaving of the probes, the event loop and the discovery thread, however often the
    lock was taken: the batch and the shared set together are exactly the processes counted so far.
    After a gc tick that gets the lock they are all in the set for good, and every scan that follows
    looks at them. -/
theorem known_pids_run (args : Args) (cfg : AttachConfig) (env : StartEnv)
    (es : List (AgentEvent n)) :
    (∀ p, p ∈ (run args n cfg env es).newPidsBatch ∨ p ∈ (run args n cfg env es).knownPids ↔
      p ∈ countedIn args n cfg env es) ∧
    ((run args n cfg env es).attach.running = true →
      ∀ tick later, ∀ p ∈ countedIn args n cfg env es,
        let s := run args n cfg env (es ++ .sys (.gcTick tick) true :: later)
        p ∈ s.knownPids ∧
          ∀ name : List Char, name.head?.any Char.isDigit = true →
            fromStrRadix 10 32 name = some p.toNat →
            scanned (some (s.knownPids.image BitVec.toNat)) name = true) := by
  refine ⟨fun p => held_run_iff args cfg env es p, ?_⟩
  intro hrunning tick later p hp s
  have hknown : p ∈ s.knownPids := by
    have htick := mem_knownPids_gcTick args cfg hrunning tick
      ((held_run_iff args cfg env es p).mpr hp)
    have hlater := Runs.run_invariant_of_step (I := fun s : Agent n => p ∈ s.knownPids)
      (fun s e h => knownPids_subset_step args cfg s e h) htick later
    change p ∈ (Runs.run (step args cfg) (start n args cfg env) _).knownPids
    rw [Runs.run_append, Runs.run_cons]
    exact hlater
  refine ⟨hknown, fun name hdigit hname => ?_⟩
  cases name with
  | nil => cases hdigit
  | cons c name =>
    have hmem : p.toNat ∈ s.knownPids.image BitVec.toNat := Finset.mem_image_of_mem _ hknown
    simp only [List.head?_cons, Option.any_some] at hdigit
    simp only [scanned, hname, hdigit, hmem, decide_true, Bool.and_self]

end Agent

end Profi
