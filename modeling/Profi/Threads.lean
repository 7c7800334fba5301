import Profi.Lookups
import Profi.Lib.Handoff

/-!
# Two Threads at the Enricher

The event loop and the watcher task use the enricher at the same time, and no operation holds one
lock from its first read to its last write. Here each acquisition of a lock, each load or swap of
the container table and each access to a flag is a step of its own, and the two threads take
their steps in any order.

A lock that protects a single access is taken and released in that step. Two are held longer by
the watcher: that of the promoted processes, from the removal to the store of its flag, and that
of the changed processes, which the event loop holds over several steps too. Who finds a lock
taken waits: its step changes nothing.

`EnricherState.run_threads` says that operations that are not interrupted are the atomic ones of
`Lookups`. `handoffs_lose_nothing` is about any interleaving.
-/

namespace Profi

/-! ## Where the threads are -/

/-- Where the event loop is: between operations, in `resolve_k8s`, in `evict_pid`, taking the
    changed processes, or taking the promoted ones. -/
inductive LoopAt where
  | idle
  /-- The process is not cached; its cgroup is read next. -/
  | missed (pid : U32) (cgroup : Option String)
  | loaded (pid : U32) (containerId : Option String) (result : Option ContainerInfo)
  | noted (pid : U32) (result : Option ContainerInfo)
  /-- The process has been put in the promoted set; the flag is stored next. -/
  | promoted (pid : U32) (result : Option ContainerInfo)
  | storing (pid : U32) (result : Option ContainerInfo)
  /-- The entry of the process has been removed from the cache. -/
  | uncached (pid : U32)
  /-- The process has been removed from the promoted set; the flag is stored next. -/
  | demoted
  /-- `has_changes` was true; the lock is taken next. -/
  | changesSeen
  | changesLocked
  | changesTaken
  | changesCleared
  /-- `upgrade_dirty` was true and is false now; the set is read next. -/
  | upgradesSwapped
  | panicked
  deriving DecidableEq

/-- Where the watcher is: between items, patching the table, or in `invalidate_containers`.
    `relist` tells a complete list, which drops the processes without a pod in the end. -/
inductive WatchAt where
  | idle
  /-- The old containers of the pod are known; the table is patched next. -/
  | scanned (cids : List String) (containers : FinMap String ContainerInfo)
  | invalidating (cids : List String) (relist : Bool)
  /-- The affected processes are known; they are removed from the cache next. -/
  | affected (pids : Finset U32) (relist : Bool)
  | cleared (pids : Finset U32) (relist : Bool)
  /-- The processes are removed from the promoted set, whose lock is still held; the flag is
      stored next if that has changed the set. -/
  | removed (pids : Finset U32) (shrunk relist : Bool)
  | demoted (pids : Finset U32) (relist : Bool)
  | changesLocked (pids : Finset U32) (relist : Bool)
  | changesExtended (relist : Bool)
  | changesFlagged (relist : Bool)
  | relisting
  deriving DecidableEq

structure Threads where
  watcher : Watcher
  loopAt : LoopAt
  watchAt : WatchAt
  /-- The promoted processes when the event loop last read them. -/
  lastRead : Finset U32

/-- What can happen next: the event loop starts an operation or goes on with it, the watcher gets
    an item or goes on with it. -/
inductive Move where
  | resolve (pid : U32) (cgroup : Option String)
  | evict (pid : U32)
  | takeChanges
  | takeUpgraded
  | loopNext
  | item (item : WatchItem)
  | watchNext

/-! ## Steps -/

/-- The event loop holds the lock of the changed processes. -/
def LoopAt.holdsChanges : LoopAt → Bool
  | .changesLocked | .changesTaken | .changesCleared => true
  | _ => false

def WatchAt.holdsChanges : WatchAt → Bool
  | .changesLocked _ _ | .changesExtended _ | .changesFlagged _ => true
  | _ => false

/-- The watcher holds the lock of the promoted processes. -/
def WatchAt.holdsUpgraded : WatchAt → Bool
  | .removed _ _ _ => true
  | _ => false

/-- The processes an invalidation that goes on is about. -/
def WatchAt.pids : WatchAt → Option (Finset U32)
  | .affected pids _ | .cleared pids _ | .removed pids _ _ | .demoted pids _
  | .changesLocked pids _ => some pids
  | _ => none

/-- The invalidation is done. -/
def WatchAt.finished (relist : Bool) : WatchAt := if relist then .relisting else .idle

namespace Threads

def new : Threads := ⟨.new, .idle, .idle, ∅⟩

def enricher (s : Threads) : Enricher := s.watcher.enricher

def withEnricher (s : Threads) (e : Enricher) : Threads :=
  { s with watcher := { s.watcher with enricher := e } }

/-- The event loop writes `e` and is at `pc` then. -/
def loopTo (s : Threads) (e : Enricher) (pc : LoopAt) : Threads :=
  { s.withEnricher e with loopAt := pc }

/-- The watcher writes `e` and is at `pc` then. -/
def watchTo (s : Threads) (e : Enricher) (pc : WatchAt) : Threads :=
  { s.withEnricher e with watchAt := pc }

/-- The next step of the event loop. -/
def loopNext (s : Threads) : Threads :=
  let e := s.enricher
  match s.loopAt with
  | .idle | .panicked => s
  | .missed _ none => s.loopTo e .idle
  | .missed pid (some text) =>
    match extractContainerId text with
    | .ok containerId =>
      s.loopTo e (.loaded pid containerId (containerId.bind e.containerMap.lookup))
    | .error _ => s.loopTo e .panicked
  | .loaded pid containerId result => s.loopTo (e.noteContainer pid containerId) (.noted pid result)
  | .noted pid result =>
    if result.any ContainerInfo.upgrade then
      if s.watchAt.holdsUpgraded then s
      else if pid ∈ e.upgradedPids then s.loopTo e (.storing pid result)
      else
        s.loopTo { e with upgradedPids := insert pid e.upgradedPids } (.promoted pid result)
    else s.loopTo e (.storing pid result)
  | .promoted pid result => s.loopTo { e with upgradeDirty := true } (.storing pid result)
  | .storing pid result =>
    s.loopTo { e with k8sPidCache := e.k8sPidCache.insert pid result } .idle
  | .uncached pid =>
    if s.watchAt.holdsUpgraded then s
    else if pid ∈ e.upgradedPids then
      s.loopTo { e with upgradedPids := e.upgradedPids.erase pid } .demoted
    else s.loopTo e .idle
  | .demoted => s.loopTo { e with upgradeDirty := true } .idle
  | .changesSeen => if s.watchAt.holdsChanges then s else s.loopTo e .changesLocked
  | .changesLocked =>
    -- an empty set is left as it is, with its flag
    if e.changedPids = ∅ then s.loopTo e .idle
    else s.loopTo { e with changedPids := ∅ } .changesTaken
  | .changesTaken => s.loopTo { e with hasChanges := false } .changesCleared
  | .changesCleared => s.loopTo e .idle
  | .upgradesSwapped =>
    if s.watchAt.holdsUpgraded then s
    else { s.loopTo e .idle with lastRead := e.upgradedPids }

/-- The watcher gets an item of its stream. -/
def handle (s : Threads) (item : WatchItem) : Threads :=
  let e := s.enricher
  match item with
  | .init => { s with watcher := { s.watcher with pendingMap := ∅ } }
  | .initApply pod =>
    match extractContainersFromPod pod with
    | .ok containers =>
      { s with watcher := { s.watcher with pendingMap := containers ∪ s.watcher.pendingMap } }
    | .error _ => { s with watcher := s.watcher.stop }
  | .initDone =>
    s.watchTo { e with containerMap := s.watcher.pendingMap }
      (.invalidating s.watcher.removedCids true)
  | .apply pod =>
    match extractContainersFromPod pod with
    | .ok containers => s.watchTo e (.scanned (e.cidsOf pod) containers)
    | .error _ => { s with watcher := s.watcher.stop }
  | .delete pod => s.watchTo e (.scanned (e.cidsOf pod) ∅)
  | .error => s
  | .ended => { s with watcher := s.watcher.stop }

/-- The next step of the watcher. -/
def watchNext (s : Threads) : Threads :=
  let e := s.enricher
  match s.watchAt with
  | .idle => s
  | .scanned cids containers =>
    s.watchTo
      { e with containerMap :=
          containers ∪ cids.foldl (fun map cid => map.erase cid) e.containerMap }
      (.invalidating cids false)
  | .invalidating cids relist =>
    let pids := e.affectedPids cids
    s.watchTo e (if pids = ∅ then .finished relist else .affected pids relist)
  | .affected pids relist =>
    s.watchTo { e with k8sPidCache := e.k8sPidCache.retain fun pid _ => pid ∉ pids }
      (.cleared pids relist)
  | .cleared pids relist =>
    let upgradedPids := e.upgradedPids \ pids
    s.watchTo { e with upgradedPids }
      (.removed pids (upgradedPids.card ≠ e.upgradedPids.card) relist)
  | .removed pids shrunk relist =>
    s.watchTo { e with upgradeDirty := e.upgradeDirty || shrunk } (.demoted pids relist)
  | .demoted pids relist =>
    if s.loopAt.holdsChanges then s else s.watchTo e (.changesLocked pids relist)
  | .changesLocked pids relist =>
    s.watchTo { e with changedPids := e.changedPids ∪ pids } (.changesExtended relist)
  | .changesExtended relist => s.watchTo { e with hasChanges := true } (.changesFlagged relist)
  | .changesFlagged relist => s.watchTo e (.finished relist)
  | .relisting =>
    { s.watchTo { e with k8sPidCache := e.k8sPidCache.retain fun _ v => v.isSome } .idle with
      watcher.pendingMap := ∅ }

def step (s : Threads) : Move → Threads
  | .resolve pid cgroup =>
    if s.loopAt = .idle ∧ s.enricher.k8sPidCache.lookup pid = none then
      s.loopTo s.enricher (.missed pid cgroup)
    else s
  | .evict pid =>
    if s.loopAt = .idle then
      s.loopTo { s.enricher with k8sPidCache := s.enricher.k8sPidCache.erase pid } (.uncached pid)
    else s
  | .takeChanges =>
    if s.loopAt = .idle ∧ s.enricher.hasChanges = true then s.loopTo s.enricher .changesSeen else s
  | .takeUpgraded =>
    if s.loopAt = .idle ∧ s.enricher.upgradeDirty = true then
      s.loopTo { s.enricher with upgradeDirty := false } .upgradesSwapped
    else s
  | .loopNext => s.loopNext
  | .item item =>
    match s.watchAt with
    | .idle => if s.watcher.running then s.handle item else s
    | _ => s
  | .watchNext => s.watchNext

def run (moves : List Move) : Threads := Runs.run step new moves

/-! ## Frames -/

section Frames

variable (s : Threads) (e : Enricher) (loopAt : LoopAt) (watchAt : WatchAt)

@[simp] theorem loopTo_enricher : (s.loopTo e loopAt).enricher = e := rfl

@[simp] theorem loopTo_loopAt : (s.loopTo e loopAt).loopAt = loopAt := rfl

@[simp] theorem loopTo_watchAt : (s.loopTo e loopAt).watchAt = s.watchAt := rfl

@[simp] theorem loopTo_lastRead : (s.loopTo e loopAt).lastRead = s.lastRead := rfl

@[simp] theorem watchTo_enricher : (s.watchTo e watchAt).enricher = e := rfl

@[simp] theorem watchTo_watchAt : (s.watchTo e watchAt).watchAt = watchAt := rfl

@[simp] theorem watchTo_loopAt : (s.watchTo e watchAt).loopAt = s.loopAt := rfl

@[simp] theorem watchTo_lastRead : (s.watchTo e watchAt).lastRead = s.lastRead := rfl

@[simp] theorem loopTo_loopTo (e' : Enricher) (loopAt' : LoopAt) :
    (s.loopTo e loopAt).loopTo e' loopAt' = s.loopTo e' loopAt' := rfl

@[simp] theorem watchTo_watchTo (e' : Enricher) (watchAt' : WatchAt) :
    (s.watchTo e watchAt).watchTo e' watchAt' = s.watchTo e' watchAt' := rfl

end Frames

/-! ## The steps one by one -/

/-- What a move does, with what it finds: one rule for each step of the two threads, and one for
    a move that changes nothing. -/
inductive Step (s : Threads) : Move → Threads → Prop where
  | stay (move : Move) : Step s move s
  -- `resolve_k8s`
  | miss {pid : U32} {cgroup : Option String} (hat : s.loopAt = .idle)
      (hmiss : s.enricher.k8sPidCache.lookup pid = none) :
      Step s (.resolve pid cgroup) (s.loopTo s.enricher (.missed pid cgroup))
  | unreadable {pid : U32} (hat : s.loopAt = .missed pid none) :
      Step s .loopNext (s.loopTo s.enricher .idle)
  | panic {pid : U32} {text : String} {p : Panic} (hat : s.loopAt = .missed pid (some text))
      (htext : extractContainerId text = .error p) :
      Step s .loopNext (s.loopTo s.enricher .panicked)
  | load {pid : U32} {text : String} {containerId : Option String}
      (hat : s.loopAt = .missed pid (some text))
      (htext : extractContainerId text = .ok containerId) :
      Step s .loopNext (s.loopTo s.enricher
        (.loaded pid containerId (containerId.bind s.enricher.containerMap.lookup)))
  | note {pid : U32} {containerId : Option String} {result : Option ContainerInfo}
      (hat : s.loopAt = .loaded pid containerId result) :
      Step s .loopNext (s.loopTo (s.enricher.noteContainer pid containerId) (.noted pid result))
  | promote {pid : U32} {info : ContainerInfo} (hat : s.loopAt = .noted pid (some info))
      (hupgrade : info.upgrade = true) (hnew : pid ∉ s.enricher.upgradedPids)
      (hfree : s.watchAt.holdsUpgraded = false) :
      Step s .loopNext (s.loopTo
        { s.enricher with upgradedPids := insert pid s.enricher.upgradedPids }
        (.promoted pid (some info)))
  | pass {pid : U32} {result : Option ContainerInfo} (hat : s.loopAt = .noted pid result)
      (hold : ∀ info, result = some info → info.upgrade = true → pid ∈ s.enricher.upgradedPids) :
      Step s .loopNext (s.loopTo s.enricher (.storing pid result))
  | flagPromoted {pid : U32} {result : Option ContainerInfo}
      (hat : s.loopAt = .promoted pid result) :
      Step s .loopNext (s.loopTo { s.enricher with upgradeDirty := true } (.storing pid result))
  | store {pid : U32} {result : Option ContainerInfo} (hat : s.loopAt = .storing pid result) :
      Step s .loopNext (s.loopTo
        { s.enricher with k8sPidCache := s.enricher.k8sPidCache.insert pid result } .idle)
  -- `evict_pid`
  | uncache {pid : U32} (hat : s.loopAt = .idle) :
      Step s (.evict pid) (s.loopTo
        { s.enricher with k8sPidCache := s.enricher.k8sPidCache.erase pid } (.uncached pid))
  | demote {pid : U32} (hat : s.loopAt = .uncached pid) (hin : pid ∈ s.enricher.upgradedPids)
      (hfree : s.watchAt.holdsUpgraded = false) :
      Step s .loopNext (s.loopTo
        { s.enricher with upgradedPids := s.enricher.upgradedPids.erase pid } .demoted)
  | notPromoted {pid : U32} (hat : s.loopAt = .uncached pid)
      (hout : pid ∉ s.enricher.upgradedPids) : Step s .loopNext (s.loopTo s.enricher .idle)
  | flagDemoted (hat : s.loopAt = .demoted) :
      Step s .loopNext (s.loopTo { s.enricher with upgradeDirty := true } .idle)
  -- the changed processes are taken
  | seeChanges (hat : s.loopAt = .idle) :
      Step s .takeChanges (s.loopTo s.enricher .changesSeen)
  | lockChanges (hat : s.loopAt = .changesSeen) (hfree : s.watchAt.holdsChanges = false) :
      Step s .loopNext (s.loopTo s.enricher .changesLocked)
  | noChanges (hat : s.loopAt = .changesLocked) :
      Step s .loopNext (s.loopTo s.enricher .idle)
  | takeChanges (hat : s.loopAt = .changesLocked) :
      Step s .loopNext (s.loopTo { s.enricher with changedPids := ∅ } .changesTaken)
  | clearChanges (hat : s.loopAt = .changesTaken) :
      Step s .loopNext (s.loopTo { s.enricher with hasChanges := false } .changesCleared)
  | unlockChanges (hat : s.loopAt = .changesCleared) :
      Step s .loopNext (s.loopTo s.enricher .idle)
  -- the promoted processes are taken
  | swapUpgrades (hat : s.loopAt = .idle) (hdirty : s.enricher.upgradeDirty = true) :
      Step s .takeUpgraded
        (s.loopTo { s.enricher with upgradeDirty := false } .upgradesSwapped)
  | readUpgrades (hat : s.loopAt = .upgradesSwapped) :
      Step s .loopNext
        { s.loopTo s.enricher .idle with lastRead := s.enricher.upgradedPids }
  -- the watcher gets an item
  | receive {item : WatchItem} {watcher : Watcher} (hsame : watcher.enricher = s.enricher) :
      Step s (.item item) { s with watcher }
  | relist (hat : s.watchAt = .idle) :
      Step s (.item .initDone) (s.watchTo
        { s.enricher with containerMap := s.watcher.pendingMap }
        (.invalidating s.watcher.removedCids true))
  | scanApply {pod : Pod} (hat : s.watchAt = .idle) :
      Step s (.item (.apply pod))
        (s.watchTo s.enricher (.scanned (s.enricher.cidsOf pod) pod.containers))
  | scanDelete {pod : Pod} (hat : s.watchAt = .idle) :
      Step s (.item (.delete pod)) (s.watchTo s.enricher (.scanned (s.enricher.cidsOf pod) ∅))
  -- and goes on with it
  | patch {cids : List String} {containers : FinMap String ContainerInfo}
      (hat : s.watchAt = .scanned cids containers) :
      Step s .watchNext (s.watchTo
        { s.enricher with containerMap :=
            containers ∪ cids.foldl (fun map cid => map.erase cid) s.enricher.containerMap }
        (.invalidating cids false))
  | unaffected {cids : List String} {relist : Bool} (hat : s.watchAt = .invalidating cids relist)
      (hnone : s.enricher.affectedPids cids = ∅) :
      Step s .watchNext (s.watchTo s.enricher (.finished relist))
  | affect {cids : List String} {relist : Bool} (hat : s.watchAt = .invalidating cids relist)
      (hsome : (s.enricher.affectedPids cids).Nonempty) :
      Step s .watchNext (s.watchTo s.enricher (.affected (s.enricher.affectedPids cids) relist))
  | clear {pids : Finset U32} {relist : Bool} (hat : s.watchAt = .affected pids relist) :
      Step s .watchNext (s.watchTo
        { s.enricher with k8sPidCache := s.enricher.k8sPidCache.retain fun pid _ => pid ∉ pids }
        (.cleared pids relist))
  | remove {pids : Finset U32} {relist : Bool} (hat : s.watchAt = .cleared pids relist) :
      Step s .watchNext (s.watchTo
        { s.enricher with upgradedPids := s.enricher.upgradedPids \ pids }
        (.removed pids
          ((s.enricher.upgradedPids \ pids).card ≠ s.enricher.upgradedPids.card) relist))
  | flagRemoved {pids : Finset U32} {shrunk relist : Bool}
      (hat : s.watchAt = .removed pids shrunk relist) :
      Step s .watchNext (s.watchTo
        { s.enricher with upgradeDirty := s.enricher.upgradeDirty || shrunk }
        (.demoted pids relist))
  | lockChanged {pids : Finset U32} {relist : Bool} (hat : s.watchAt = .demoted pids relist)
      (hfree : s.loopAt.holdsChanges = false) :
      Step s .watchNext (s.watchTo s.enricher (.changesLocked pids relist))
  | extendChanged {pids : Finset U32} {relist : Bool}
      (hat : s.watchAt = .changesLocked pids relist) :
      Step s .watchNext (s.watchTo
        { s.enricher with changedPids := s.enricher.changedPids ∪ pids } (.changesExtended relist))
  | flagChanged {relist : Bool} (hat : s.watchAt = .changesExtended relist) :
      Step s .watchNext (s.watchTo { s.enricher with hasChanges := true } (.changesFlagged relist))
  | unlockChanged {relist : Bool} (hat : s.watchAt = .changesFlagged relist) :
      Step s .watchNext (s.watchTo s.enricher (.finished relist))
  | dropNone (hat : s.watchAt = .relisting) :
      Step s .watchNext
        { s.watchTo
            { s.enricher with
              k8sPidCache := s.enricher.k8sPidCache.retain fun _ v => v.isSome } .idle with
          watcher.pendingMap := ∅ }

/-- The function is one of the transitions of the loop, or it waits. -/
theorem loopNext_spec (s : Threads) : Step s .loopNext s.loopNext := by
  unfold loopNext
  simp only
  split
  · exact .stay _
  · exact .stay _
  next hat => exact .unreadable hat
  next hat =>
    split
    next htext => exact .load hat htext
    next htext => exact .panic hat htext
  next hat => exact .note hat
  · -- a pod that asks for it promotes the process, once the set is free and if it is not there
    rename_i pid result hat
    split
    next hupgrade =>
      obtain ⟨info, rfl, hupgrade⟩ := (Option.any_eq_true _ _).mp hupgrade
      split
      · exact .stay _
      next hfree =>
        split
        next hin => exact .pass hat fun _ _ _ => hin
        next hnew => exact .promote hat hupgrade hnew (Bool.eq_false_iff.mpr hfree)
    next hnone =>
      refine .pass hat fun info hinfo hupgrade => absurd ?_ hnone
      rw [hinfo]
      exact hupgrade
  next hat => exact .flagPromoted hat
  next hat => exact .store hat
  next hat =>
    split
    · exact .stay _
    next hfree =>
      split
      next hin => exact .demote hat hin (Bool.eq_false_iff.mpr hfree)
      next hout => exact .notPromoted hat hout
  next hat => exact .flagDemoted hat
  next hat =>
    split
    · exact .stay _
    next hfree => exact .lockChanges hat (Bool.eq_false_iff.mpr hfree)
  next hat =>
    split
    · exact .noChanges hat
    · exact .takeChanges hat
  next hat => exact .clearChanges hat
  next hat => exact .unlockChanges hat
  next hat =>
    split
    · exact .stay _
    · exact .readUpgrades hat

theorem handle_spec (s : Threads) (hat : s.watchAt = .idle) (item : WatchItem) :
    Step s (.item item) (s.handle item) := by
  unfold handle
  cases item with
  | init => exact .receive rfl
  | initApply pod =>
    simp only
    split
    · exact .receive rfl
    · exact .receive rfl
  | initDone => exact .relist hat
  | apply pod =>
    simp only
    split
    next containers hok =>
      rw [← Pod.containers_of_ok hok]
      exact .scanApply hat
    · exact .receive rfl
  | delete pod => exact .scanDelete hat
  | error => exact .stay _
  | ended => exact .receive rfl

theorem watchNext_spec (s : Threads) : Step s .watchNext s.watchNext := by
  unfold watchNext
  simp only
  split
  · exact .stay _
  next hat => exact .patch hat
  next hat =>
    split
    next hnone => exact .unaffected hat hnone
    next hsome => exact .affect hat (Finset.nonempty_iff_ne_empty.mpr hsome)
  next hat => exact .clear hat
  next hat => exact .remove hat
  next hat => exact .flagRemoved hat
  next hat =>
    split
    · exact .stay _
    next hfree => exact .lockChanged hat (Bool.eq_false_iff.mpr hfree)
  next hat => exact .extendChanged hat
  next hat => exact .flagChanged hat
  next hat => exact .unlockChanged hat
  next hat => exact .dropNone hat

/-- Every move follows one of the rules. -/
theorem step_spec (s : Threads) (move : Move) : Step s move (s.step move) := by
  cases move with
  | resolve pid cgroup =>
    simp only [step]
    split
    next h => exact .miss h.1 h.2
    · exact .stay _
  | evict pid =>
    simp only [step]
    split
    next hat => exact .uncache hat
    · exact .stay _
  | takeChanges =>
    simp only [step]
    split
    next h => exact .seeChanges h.1
    · exact .stay _
  | takeUpgraded =>
    simp only [step]
    split
    next h => exact .swapUpgrades h.1 h.2
    · exact .stay _
  | loopNext => exact loopNext_spec s
  | item item =>
    simp only [step]
    split
    next hat =>
      split
      · exact handle_spec s hat item
      · exact .stay _
    · exact .stay _
  | watchNext => exact watchNext_spec s

/-! ## Without interruption -/

variable {s : Threads}

theorem run_loopNext_idle (hat : s.loopAt = .idle) (n : ℕ) :
    Runs.run step s (List.replicate n .loopNext) = s := by
  apply Runs.run_replicate_of_fixed
  simp only [step, loopNext, hat]

theorem loopTo_self (hat : s.loopAt = .idle) : s.loopTo s.enricher .idle = s := by
  obtain ⟨watcher, loopAt, watchAt, lastRead⟩ := s
  cases hat
  rfl

/-- The end of a lookup, from the noted container on. -/
theorem promote_sequential (hfree : s.watchAt.holdsUpgraded = false) (e : Enricher) (pid : U32)
    (result : Option ContainerInfo) :
    Runs.run step (s.loopTo e (.noted pid result)) (List.replicate 3 .loopNext) =
      s.loopTo { e.promote pid result with
        k8sPidCache := (e.promote pid result).k8sPidCache.insert pid result } .idle := by
  -- a promotion takes its three steps; without one the last of them finds the thread idle
  by_cases hnew : ∃ info, result = some info ∧ info.upgrade = true ∧ pid ∉ e.upgradedPids
  · obtain ⟨info, rfl, hupgrade, hnew⟩ := hnew
    have hpromote : e.promote pid (some info) =
        { e with upgradedPids := insert pid e.upgradedPids, upgradeDirty := true } :=
      if_pos ⟨hupgrade, hnew⟩
    have hstep : (s.loopTo e (.noted pid (some info))).step .loopNext =
        s.loopTo { e with upgradedPids := insert pid e.upgradedPids }
          (.promoted pid (some info)) := by
      simp [step, loopNext, hupgrade, hfree, hnew]
    rw [hpromote, List.replicate_succ, Runs.run_cons, hstep]
    rfl
  · have hpromote : e.promote pid result = e := by
      rcases Enricher.promote_cases e pid result with ⟨hsame, -⟩ | ⟨-, info, hinfo, hupgrade⟩
      · exact hsame
      · subst hinfo
        exact if_neg fun h => hnew ⟨info, rfl, h.1, h.2⟩
    have hstep : (s.loopTo e (.noted pid result)).step .loopNext =
        s.loopTo e (.storing pid result) := by
      cases result with
      | none => rfl
      | some info =>
        cases hupgrade : info.upgrade with
        | false => simp [step, loopNext, hupgrade]
        | true =>
          have hin : pid ∈ e.upgradedPids := by
            by_contra hout
            exact hnew ⟨info, rfl, hupgrade, hout⟩
          simp [step, loopNext, hupgrade, hfree, hin]
    rw [hpromote, List.replicate_succ, Runs.run_cons, hstep]
    rfl

/-- A lookup takes at most five steps more, and is the atomic one if nothing comes between. -/
theorem resolve_sequential (hat : s.loopAt = .idle) (hfree : s.watchAt.holdsUpgraded = false)
    {pid : U32} {cgroup : Option String} {result : Option ContainerInfo} {e : Enricher}
    (hok : s.enricher.resolveK8s pid cgroup = .ok (result, e)) :
    Runs.run step s (.resolve pid cgroup :: List.replicate 5 .loopNext) = s.loopTo e .idle := by
  rw [Runs.run_cons]
  -- the cases are the three ways out of `resolve_k8s`: cached, no cgroup, resolved
  rcases Enricher.resolveK8s_cases hok with
    ⟨hcached, rfl⟩ | ⟨hmiss, rfl, -, rfl⟩ | ⟨text, containerId, hmiss, rfl, htext, hresult, rfl⟩
  · have hstay : s.step (.resolve pid cgroup) = s := by simp [step, hcached]
    rw [hstay, run_loopNext_idle hat, loopTo_self hat]
  · have hmissed : s.step (.resolve pid none) = s.loopTo s.enricher (.missed pid none) := by
      simp [step, hat, hmiss]
    rw [hmissed, List.replicate_succ, Runs.run_cons]
    exact run_loopNext_idle rfl 4
  · have hmissed : s.step (.resolve pid (some text)) =
        s.loopTo s.enricher (.missed pid (some text)) := by
      simp [step, hat, hmiss]
    have hloaded : (s.loopTo s.enricher (.missed pid (some text))).step .loopNext =
        s.loopTo s.enricher
          (.loaded pid containerId (containerId.bind s.enricher.containerMap.lookup)) := by
      simp only [step, loopNext, loopTo_loopAt, htext]
      rfl
    rw [hmissed, List.replicate_succ, Runs.run_cons, hloaded, List.replicate_succ, Runs.run_cons]
    exact promote_sequential hfree (s.enricher.noteContainer pid containerId) pid _

/-- An eviction that is not interrupted is the atomic one. -/
theorem evict_sequential (hat : s.loopAt = .idle) (hfree : s.watchAt.holdsUpgraded = false)
    (pid : U32) :
    Runs.run step s (.evict pid :: List.replicate 2 .loopNext) =
      s.loopTo (s.enricher.evictPid pid) .idle := by
  have hstart : s.step (.evict pid) = s.loopTo
      { s.enricher with k8sPidCache := s.enricher.k8sPidCache.erase pid } (.uncached pid) := by
    simp [step, hat]
  rw [Runs.run_cons, hstart, List.replicate_succ, Runs.run_cons]
  by_cases hin : pid ∈ s.enricher.upgradedPids
  · simp only [step, loopNext, loopTo_loopAt, loopTo_watchAt, hfree, loopTo_enricher, hin,
      if_true, Bool.false_eq_true, if_false]
    simp [Runs.run, step, loopNext, Enricher.evictPid, hin]
  · have hsame : s.enricher.evictPid pid =
        { s.enricher with k8sPidCache := s.enricher.k8sPidCache.erase pid } := by
      simp [Enricher.evictPid, hin]
    rw [hsame]
    simp only [step, loopNext, loopTo_loopAt, loopTo_watchAt, hfree, loopTo_enricher, hin,
      Bool.false_eq_true, if_false]
    rfl

theorem run_watchNext_idle (hat : s.watchAt = .idle) (n : ℕ) :
    Runs.run step s (List.replicate n .watchNext) = s := by
  apply Runs.run_replicate_of_fixed
  simp only [step, watchNext, hat]

/-- An invalidation that affects some processes. -/
theorem affect_sequential (hfree : s.loopAt.holdsChanges = false) (e : Enricher)
    {cids : List String} (relist : Bool) (haffected : e.affectedPids cids ≠ ∅) :
    Runs.run step (s.watchTo e (.invalidating cids relist)) (List.replicate 8 .watchNext) =
      s.watchTo (e.invalidateContainers cids) (.finished relist) := by
  have haffect : (s.watchTo e (.invalidating cids relist)).step .watchNext =
      s.watchTo e (.affected (e.affectedPids cids) relist) := by
    simp [step, watchNext, haffected]
  -- the only step that could wait
  have hlock : ∀ e pids, (s.watchTo e (.demoted pids relist)).step .watchNext =
      s.watchTo e (.changesLocked pids relist) := by
    intro e pids
    simp [step, watchNext, hfree]
  have hdemote : Runs.run step (s.watchTo e (.affected (e.affectedPids cids) relist))
      (List.replicate 3 .watchNext) = s.watchTo
        { e with
          k8sPidCache := e.k8sPidCache.retain fun pid _ => pid ∉ e.affectedPids cids
          upgradedPids := e.upgradedPids \ e.affectedPids cids
          upgradeDirty := e.upgradeDirty ||
            (e.upgradedPids \ e.affectedPids cids).card ≠ e.upgradedPids.card }
        (.demoted (e.affectedPids cids) relist) := rfl
  have hmoves : List.replicate 8 Move.watchNext =
      .watchNext :: (List.replicate 3 .watchNext ++ .watchNext :: List.replicate 3 .watchNext) :=
        rfl
  rw [hmoves, Runs.run_cons, haffect, Runs.run_append, hdemote, Runs.run_cons, hlock,
    Enricher.invalidateContainers, if_neg haffected]
  rfl

theorem unaffected_sequential (s : Threads) {e : Enricher} {cids : List String} (relist : Bool)
    (hnone : e.affectedPids cids = ∅) :
    (s.watchTo e (.invalidating cids relist)).step .watchNext =
      s.watchTo (e.invalidateContainers cids) (.finished relist) := by
  simp [step, watchNext, hnone, Enricher.invalidateContainers]

theorem invalidate_sequential (hfree : s.loopAt.holdsChanges = false) (e : Enricher)
    (cids : List String) :
    Runs.run step (s.watchTo e (.invalidating cids false)) (List.replicate 8 .watchNext) =
      s.watchTo (e.invalidateContainers cids) .idle := by
  by_cases hnone : e.affectedPids cids = ∅
  · rw [List.replicate_succ, Runs.run_cons, unaffected_sequential s false hnone]
    exact run_watchNext_idle rfl 7
  · exact affect_sequential hfree e false hnone

theorem relist_sequential (hfree : s.loopAt.holdsChanges = false) (e : Enricher)
    (cids : List String) :
    Runs.run step (s.watchTo e (.invalidating cids true)) (List.replicate 9 .watchNext) =
      (s.watchTo (e.invalidateContainers cids) .relisting).step .watchNext := by
  by_cases hnone : e.affectedPids cids = ∅
  · rw [List.replicate_succ, Runs.run_cons, unaffected_sequential s true hnone,
      List.replicate_succ, Runs.run_cons]
    exact run_watchNext_idle rfl 7
  · rw [List.replicate_succ', Runs.run_append, affect_sequential hfree e true hnone]
    rfl

theorem watchTo_idle (hat : s.watchAt = .idle) (e : Enricher) :
    s.watchTo e .idle = { s with watcher := { s.watcher with enricher := e } } := by
  obtain ⟨watcher, loopAt, watchAt, lastRead⟩ := s
  cases hat
  rfl

theorem apply_sequential (hat : s.watchAt = .idle) (hfree : s.loopAt.holdsChanges = false)
    {pod : Pod} {containers : FinMap String ContainerInfo}
    (hok : extractContainersFromPod pod = .ok containers) :
    Runs.run step (s.handle (.apply pod)) (List.replicate 9 .watchNext) =
      { s with watcher := s.watcher.applyPod pod containers } := by
  have hpatch : (s.handle (.apply pod)).step .watchNext = s.watchTo
      { s.enricher with containerMap := containers ∪ s.enricher.withoutPod pod }
      (.invalidating (s.enricher.cidsOf pod) false) := by
    simp only [handle, hok]
    rfl
  rw [List.replicate_succ, Runs.run_cons, hpatch, invalidate_sequential hfree]
  exact watchTo_idle hat _

theorem delete_sequential (hat : s.watchAt = .idle) (hfree : s.loopAt.holdsChanges = false)
    (pod : Pod) :
    Runs.run step (s.handle (.delete pod)) (List.replicate 9 .watchNext) =
      { s with watcher := s.watcher.deletePod pod } := by
  have hpatch : (s.handle (.delete pod)).step .watchNext = s.watchTo
      { s.enricher with containerMap := s.enricher.withoutPod pod }
      (.invalidating (s.enricher.cidsOf pod) false) := by
    simp only [handle, step, watchNext, watchTo_watchAt, watchTo_enricher, AList.empty_union]
    rfl
  rw [List.replicate_succ, Runs.run_cons, hpatch, invalidate_sequential hfree]
  exact watchTo_idle hat _

/-- An item takes at most nine steps more, and is handled at once if nothing comes between. -/
theorem watch_sequential (hat : s.watchAt = .idle) (hfree : s.loopAt.holdsChanges = false)
    (item : WatchItem) :
    Runs.run step s (.item item :: List.replicate 9 .watchNext) =
      { s with watcher := s.watcher.step item } := by
  have hstay : ∀ watcher,
      Runs.run step { s with watcher } (List.replicate 9 .watchNext) = { s with watcher } :=
    fun watcher => run_watchNext_idle (s := { s with watcher }) hat 9
  rw [Runs.run_cons]
  by_cases hrunning : s.watcher.running = true
  · have hitem : s.step (.item item) = s.handle item := by simp [step, hat, hrunning]
    have hwatcher : s.watcher.step item = s.watcher.handle item := if_pos hrunning
    rw [hitem, hwatcher]
    cases item with
    | init => exact hstay _
    | initApply pod =>
      cases hok : extractContainersFromPod pod with
      | ok containers =>
        simp only [handle, Watcher.handle, hok]
        exact hstay _
      | error p =>
        simp only [handle, Watcher.handle, hok]
        exact hstay _
    | initDone =>
      rw [handle, relist_sequential hfree]
      exact congrArg (fun s : Threads => { s with watcher.pendingMap := ∅ }) (watchTo_idle hat _)
    | apply pod =>
      cases hok : extractContainersFromPod pod with
      | ok containers =>
        simp only [apply_sequential hat hfree hok, Watcher.handle, hok]
      | error p =>
        -- the task ends, and takes no more steps
        simp only [handle, Watcher.handle, hok]
        exact hstay _
    | delete pod => exact delete_sequential hat hfree pod
    | error => exact hstay _
    | ended => exact hstay _
  · have hitem : s.step (.item item) = s := by simp [step, hat, hrunning]
    have hwatcher : s.watcher.step item = s.watcher := if_neg hrunning
    rw [hitem, hwatcher]
    exact hstay s.watcher

/-- Taking the promoted processes is reading them: a set whose flag is not stored is the one that
    was read last. -/
theorem takeUpgraded_sequential (hat : s.loopAt = .idle) (hfree : s.watchAt.holdsUpgraded = false)
    (hmarked : s.enricher.Marked s.lastRead) :
    Runs.run step s [.takeUpgraded, .loopNext] =
      { s.loopTo { s.enricher with upgradeDirty := false } .idle with
        lastRead := s.enricher.upgradedPids } := by
  rw [Runs.run_cons]
  cases hdirty : s.enricher.upgradeDirty with
  | true =>
    have hswap : s.step .takeUpgraded =
        s.loopTo { s.enricher with upgradeDirty := false } .upgradesSwapped := by
      simp [step, hat, hdirty]
    rw [hswap]
    simp [Runs.run, step, loopNext, hfree]
  | false =>
    have hstay : s.step .takeUpgraded = s := by simp [step, hdirty]
    have hread : s.enricher.upgradedPids = s.lastRead := by
      by_contra hne
      rw [hmarked hne] at hdirty
      cases hdirty
    have hclear : { s.enricher with upgradeDirty := false } = s.enricher := by rw [← hdirty]
    rw [hstay, hclear, hread, loopTo_self hat]
    exact run_loopNext_idle hat 1

end Threads

/-- The steps of an operation that is not interrupted. -/
def EnricherOp.moves : EnricherOp → List Move
  | .lookup pid cgroup => .resolve pid cgroup :: List.replicate 5 .loopNext
  | .evictPid pid => .evict pid :: List.replicate 2 .loopNext
  | .watch item => .item item :: List.replicate 9 .watchNext
  | .takeUpgraded => [.takeUpgraded, .loopNext]

namespace EnricherState

/-- Both threads are between operations. -/
def threads (s : EnricherState) : Threads := ⟨s.watcher, .idle, .idle, s.taken⟩

/-- A lookup does not end the profiler. -/
def Resolves (s : EnricherState) : EnricherOp → Prop
  | .lookup pid cgroup => ∃ answer, s.enricher.resolveK8s pid cgroup = .ok answer
  | _ => True

theorem run_moves {s : EnricherState} (h : s.Upgrades) {op : EnricherOp} (hop : s.Resolves op) :
    Runs.run Threads.step s.threads op.moves = (s.step op).threads := by
  cases op with
  | lookup pid cgroup =>
    obtain ⟨⟨result, e⟩, hok⟩ := hop
    have hstep : s.step (.lookup pid cgroup) = s.withEnricher e := by simp only [step, hok]
    rw [hstep]
    exact Threads.resolve_sequential (s := s.threads) rfl rfl hok
  | evictPid pid => exact Threads.evict_sequential (s := s.threads) rfl rfl pid
  | watch item => exact Threads.watch_sequential (s := s.threads) rfl rfl item
  | takeUpgraded => exact Threads.takeUpgraded_sequential (s := s.threads) rfl rfl h.marked

/-- **Refinement.** Every run of the atomic enricher is a run of the two threads: let each operation
    take its locks, loads and stores one by one without the other thread coming between, and the
    threads are in the state the atomic operations lead to, with both between operations. -/
theorem run_threads (ops : List EnricherOp) (hops : Runs.Along step Resolves new ops) :
    Threads.run (ops.flatMap EnricherOp.moves) = (run ops).threads := by
  suffices hfrom : ∀ s : EnricherState, s.Upgrades → Runs.Along step Resolves s ops →
      Runs.run Threads.step s.threads (ops.flatMap EnricherOp.moves) =
        (Runs.run step s ops).threads from
    hfrom new ⟨fun pid => by simp [new, enricher, Watcher.new, Enricher.new],
      fun hne => absurd rfl hne⟩ hops
  clear hops
  induction ops with
  | nil => exact fun _ _ _ => rfl
  | cons op ops ih =>
    intro s h hops
    rw [List.flatMap_cons, Runs.run_append, run_moves h hops.1, Runs.run_cons]
    exact ih (s.step op) (upgrades_step h op) hops.2

/-- The process of an annotated pod is looked up, and the event loop takes the promoted ones. -/
def promotion : List EnricherOp :=
  [.watch (.apply (Watcher.annotatedPod "aaaaaaaaaaaa")),
    .lookup 7 (some (cgroupOf "aaaaaaaaaaaa")), .takeUpgraded]

theorem run_threads_promotion :
    (Threads.run (promotion.flatMap EnricherOp.moves)).lastRead = {7} := by
  rw [run_threads promotion ⟨trivial, ⟨_, rfl⟩, trivial, trivial⟩]
  decide

end EnricherState

namespace Threads

/-! ## The changed processes are a box -/

open Handoff

def loopStage : LoopAt → Stage
  | .changesLocked | .changesCleared => .held
  | .changesTaken => .taken
  | _ => .free

def watchStage : WatchAt → Stage
  | .changesLocked _ _ | .changesFlagged _ => .held
  | .changesExtended _ => .extended
  | _ => .free

/-- The changed processes with their flag, as a box. -/
def changes (s : Threads) : Box U32 where
  items := s.enricher.changedPids
  flag := s.enricher.hasChanges
  stage := if watchStage s.watchAt = .free then loopStage s.loopAt else watchStage s.watchAt

/-- Not both threads hold the lock, and an invalidation that goes on is about some process. -/
structure Locks (s : Threads) : Prop where
  exclusive : s.loopAt.holdsChanges = true → s.watchAt.holdsChanges = false
  carried : ∀ pids, s.watchAt.pids = some pids → pids.Nonempty

variable {s : Threads} {e : Enricher} {watchAt : WatchAt} {loopAt : LoopAt} {move : Move}

theorem locks_step {s s' : Threads} (h : s.Locks) (hstep : Step s move s') : s'.Locks := by
  have hfinished : ∀ relist, (WatchAt.finished relist).holdsChanges = false ∧
      (WatchAt.finished relist).pids = none := by
    intro relist
    cases relist <;> exact ⟨rfl, rfl⟩
  have hloop : ∀ {e loopAt}, (loopAt.holdsChanges = true → s.watchAt.holdsChanges = false) →
      (s.loopTo e loopAt).Locks := fun hexclusive => ⟨hexclusive, h.carried⟩
  have hwatch : ∀ {e watchAt}, watchAt.holdsChanges = false →
      (∀ pids, watchAt.pids = some pids → pids.Nonempty) → (s.watchTo e watchAt).Locks :=
    fun hfree hcarried => ⟨fun _ => hfree, hcarried⟩
  cases hstep with
  | stay => exact h
  -- the lock is taken only where the other thread does not have it
  | lockChanges hat hfree => exact hloop fun _ => hfree
  | takeChanges hat | clearChanges hat =>
    refine hloop fun _ => h.exclusive ?_
    rw [hat]
    rfl
  | readUpgrades hat => exact ⟨nofun, h.carried⟩
  | receive hsame => exact ⟨h.exclusive, h.carried⟩
  | relist hat | scanApply hat | scanDelete hat | patch hat => exact hwatch rfl nofun
  | unaffected hat hnone | unlockChanged hat =>
    exact hwatch (hfinished _).1 (by rw [(hfinished _).2]; nofun)
  | affect hat hsome => exact hwatch rfl fun pids hpids => Option.some.inj hpids ▸ hsome
  | clear hat | remove hat | flagRemoved hat =>
    refine hwatch rfl fun pids hpids => h.carried pids ?_
    rw [hat]
    exact hpids
  | lockChanged hat hfree =>
    refine ⟨fun hloop => absurd hloop (by simp [hfree]), fun pids hpids => h.carried pids ?_⟩
    rw [hat]
    exact hpids
  | extendChanged hat | flagChanged hat =>
    refine ⟨fun hloop => ?_, nofun⟩
    have hfree := h.exclusive hloop
    rw [hat] at hfree
    cases hfree
  | dropNone hat => exact ⟨fun _ => rfl, nofun⟩
  | _ => exact hloop nofun

theorem loopStage_of_free (h : loopAt.holdsChanges = false) : loopStage loopAt = .free := by
  cases loopAt <;> first | rfl | cases h

theorem watchStage_of_free (h : watchAt.holdsChanges = false) : watchStage watchAt = .free := by
  cases watchAt <;> first | rfl | cases h

@[simp] theorem watchStage_finished (relist : Bool) :
    watchStage (.finished relist) = .free := by
  cases relist <;> rfl

theorem changes_loopTo (hitems : e.changedPids = s.enricher.changedPids)
    (hflag : e.hasChanges = s.enricher.hasChanges)
    (hstage : loopStage loopAt = loopStage s.loopAt) :
    (s.loopTo e loopAt).changes = s.changes := by
  simp [changes, hitems, hflag, hstage]

theorem changes_watchTo (hitems : e.changedPids = s.enricher.changedPids)
    (hflag : e.hasChanges = s.enricher.hasChanges)
    (hstage : watchStage watchAt = watchStage s.watchAt) :
    (s.watchTo e watchAt).changes = s.changes := by
  simp [changes, hitems, hflag, hstage]

/-- What a step does to the changed processes is an action on the box, or nothing. -/
theorem changes_step {s s' : Threads} (h : s.Locks) (hstep : Step s move s') :
    s'.changes = s.changes ∨ ∃ act, s'.changes = s.changes.step act := by
  cases hstep with
  | stay => exact .inl rfl
  -- the event loop outside the lock
  | note hat =>
    exact .inl (changes_loopTo (Enricher.noteContainer_changedPids _ _ _)
      (Enricher.noteContainer_hasChanges _ _ _) (by rw [hat]; rfl))
  | readUpgrades hat =>
    have hsame : (s.loopTo s.enricher .idle).changes = s.changes :=
      changes_loopTo rfl rfl (by rw [hat]; rfl)
    exact .inl hsame
  | miss hat _ | unreadable hat | panic hat _ | load hat _ | promote hat _ _ _ | pass hat _
  | flagPromoted hat | store hat | uncache hat | demote hat _ _ | notPromoted hat _
  | flagDemoted hat | seeChanges hat | swapUpgrades hat _ =>
    refine .inl (changes_loopTo rfl rfl ?_)
    rw [hat]
    rfl
  -- and with it, while the watcher does not have it
  | lockChanges hat hfree =>
    refine .inr ⟨.lock, ?_⟩
    simp [changes, Box.step, hat, loopStage, watchStage_of_free hfree]
  | noChanges hat | unlockChanges hat =>
    have hfree := watchStage_of_free (h.exclusive (by rw [hat]; rfl))
    refine .inr ⟨.unlock, ?_⟩
    simp [changes, Box.step, hat, loopStage, hfree]
  | takeChanges hat =>
    have hfree := watchStage_of_free (h.exclusive (by rw [hat]; rfl))
    refine .inr ⟨.take, ?_⟩
    simp [changes, Box.step, hat, loopStage, hfree]
  | clearChanges hat =>
    have hfree := watchStage_of_free (h.exclusive (by rw [hat]; rfl))
    refine .inr ⟨.lower, ?_⟩
    simp [changes, Box.step, hat, loopStage, hfree]
  -- the watcher outside the lock
  | receive hsame => simp [changes, enricher, hsame]
  | relist hat | scanApply hat | scanDelete hat | patch hat | affect hat _ | clear hat
  | remove hat | flagRemoved hat =>
    refine .inl (changes_watchTo rfl rfl ?_)
    rw [hat]
    rfl
  | unaffected hat _ =>
    refine .inl (changes_watchTo rfl rfl ?_)
    rw [hat, watchStage_finished]
    rfl
  | dropNone hat =>
    refine .inl ?_
    simp [changes, hat, watchStage, watchTo, withEnricher, enricher]
  -- and with it, while the event loop does not have it
  | lockChanged hat hfree =>
    refine .inr ⟨.lock, ?_⟩
    simp [changes, Box.step, hat, watchStage, loopStage_of_free hfree]
  | @extendChanged pids _ hat =>
    have hsome : pids.Nonempty := h.carried pids (by rw [hat]; rfl)
    refine .inr ⟨.extend pids, ?_⟩
    simp [changes, Box.step, hat, watchStage, hsome]
  | flagChanged hat =>
    refine .inr ⟨.raise, ?_⟩
    simp [changes, Box.step, hat, watchStage]
  | unlockChanged hat =>
    have hfree : loopStage s.loopAt = .free := by
      refine loopStage_of_free (Bool.eq_false_iff.mpr fun hheld => ?_)
      have hwatch := h.exclusive hheld
      rw [hat] at hwatch
      cases hwatch
    refine .inr ⟨.unlock, ?_⟩
    simp [changes, Box.step, hat, watchStage_finished, hfree]
    simp [watchStage]

/-! ## The promoted processes have a mark -/

/-- The event loop has changed the promoted processes and not stored the flag yet. -/
def loopWrites : LoopAt → Bool
  | .promoted _ _ | .demoted => true
  | _ => false

/-- The event loop has taken the flag and not read the promoted processes yet. -/
def loopReads : LoopAt → Bool
  | .upgradesSwapped => true
  | _ => false

def watchWrites : WatchAt → Bool
  | .removed _ shrunk _ => shrunk
  | _ => false

@[simp] theorem watchWrites_finished (relist : Bool) :
    watchWrites (.finished relist) = false := by
  cases relist <;> rfl

inductive Thread where
  | loop
  | watcher
  deriving DecidableEq

/-- The threads that have written. -/
def writing (loop watcher : Bool) : Finset Thread :=
  (cond loop {.loop} ∅) ∪ (cond watcher {.watcher} ∅)

theorem writing_loop (watcher : Bool) :
    writing true watcher = insert .loop (writing false watcher) := by
  cases watcher <;> rfl

theorem erase_writing_loop (watcher : Bool) :
    (writing true watcher).erase .loop = writing false watcher := by
  cases watcher <;> rfl

theorem writing_watcher (loop : Bool) :
    writing loop true = insert .watcher (writing loop false) := by
  cases loop <;> decide

theorem erase_writing_watcher (loop : Bool) :
    (writing loop true).erase .watcher = writing loop false := by
  cases loop <;> rfl

/-- The promoted processes with their mark and what the event loop has read. -/
def upgrades (s : Threads) : Mark Thread (Finset U32) where
  value := s.enricher.upgradedPids
  dirty := s.enricher.upgradeDirty
  seen := s.lastRead
  writing := writing (loopWrites s.loopAt) (watchWrites s.watchAt)
  reading := loopReads s.loopAt

theorem upgrades_loopTo (hvalue : e.upgradedPids = s.enricher.upgradedPids)
    (hdirty : e.upgradeDirty = s.enricher.upgradeDirty)
    (hwrites : loopWrites loopAt = loopWrites s.loopAt)
    (hreading : loopReads loopAt = loopReads s.loopAt) :
    (s.loopTo e loopAt).upgrades = s.upgrades := by
  simp [upgrades, hvalue, hdirty, hwrites, hreading]

theorem upgrades_watchTo (hvalue : e.upgradedPids = s.enricher.upgradedPids)
    (hdirty : e.upgradeDirty = s.enricher.upgradeDirty)
    (hwrites : watchWrites watchAt = watchWrites s.watchAt) :
    (s.watchTo e watchAt).upgrades = s.upgrades := by
  simp [upgrades, hvalue, hdirty, hwrites]

/-- What a step does to the promoted processes is an action on the mark, or nothing. -/
theorem upgrades_step {s s' : Threads} (hstep : Step s move s') :
    s'.upgrades = s.upgrades ∨ ∃ act, s'.upgrades = s.upgrades.step act := by
  cases hstep with
  | stay => exact .inl rfl
  -- the event loop
  | note hat =>
    exact .inl (upgrades_loopTo (Enricher.noteContainer_upgradedPids _ _ _)
      (Enricher.noteContainer_upgradeDirty _ _ _) (by rw [hat]; rfl) (by rw [hat]; rfl))
  | miss hat _ | unreadable hat | panic hat _ | load hat _ | pass hat _ | store hat
  | uncache hat | notPromoted hat _ | seeChanges hat | lockChanges hat _ | noChanges hat
  | takeChanges hat | clearChanges hat | unlockChanges hat =>
    exact .inl (upgrades_loopTo rfl rfl (by rw [hat]; rfl) (by rw [hat]; rfl))
  | @promote pid info hat _ _ _ =>
    refine .inr ⟨.write .loop (insert pid s.enricher.upgradedPids), ?_⟩
    simp [upgrades, Mark.step, hat, loopWrites, loopReads, writing_loop]
  | @demote pid hat _ _ =>
    refine .inr ⟨.write .loop (s.enricher.upgradedPids.erase pid), ?_⟩
    simp [upgrades, Mark.step, hat, loopWrites, loopReads, writing_loop]
  | flagPromoted hat | flagDemoted hat =>
    refine .inr ⟨.raise .loop, ?_⟩
    simp [upgrades, Mark.step, hat, loopWrites, loopReads, erase_writing_loop]
  | swapUpgrades hat hdirty =>
    refine .inr ⟨.swap, ?_⟩
    simp [upgrades, Mark.step, hat, hdirty, loopWrites, loopReads]
  | readUpgrades hat =>
    refine .inr ⟨.read, ?_⟩
    simp [upgrades, Mark.step, hat, loopWrites, loopReads, loopTo, withEnricher, enricher]
  -- the watcher
  | receive hsame => simp [upgrades, enricher, hsame]
  | relist hat | scanApply hat | scanDelete hat | patch hat | affect hat _ | clear hat
  | lockChanged hat _ | extendChanged hat | flagChanged hat =>
    exact .inl (upgrades_watchTo rfl rfl (by rw [hat]; rfl))
  | unaffected hat _ | unlockChanged hat =>
    refine .inl (upgrades_watchTo rfl rfl ?_)
    rw [hat, watchWrites_finished]
    rfl
  | @remove pids relist hat =>
    by_cases hshrunk : s.enricher.upgradedPids \ pids = s.enricher.upgradedPids
    · refine .inl (upgrades_watchTo hshrunk rfl ?_)
      rw [hshrunk, hat]
      simp [watchWrites]
    · have hcard : (s.enricher.upgradedPids \ pids).card ≠ s.enricher.upgradedPids.card :=
        fun hcard => hshrunk (Finset.eq_of_subset_of_card_le Finset.sdiff_subset hcard.ge)
      refine .inr ⟨.write .watcher (s.enricher.upgradedPids \ pids), ?_⟩
      simp [upgrades, Mark.step, hat, watchWrites, hcard, writing_watcher]
  | @flagRemoved pids shrunk relist hat =>
    cases shrunk with
    | false =>
      refine .inl (upgrades_watchTo rfl (Bool.or_false _) ?_)
      rw [hat]
      rfl
    | true =>
      refine .inr ⟨.raise .watcher, ?_⟩
      simp [upgrades, Mark.step, hat, watchWrites, erase_writing_watcher]
  | dropNone hat =>
    refine .inl ?_
    simp [upgrades, hat, watchWrites, watchTo, withEnricher, enricher]

/-! ## Any interleaving -/

/-- What every interleaving keeps. -/
structure HandsOver (s : Threads) : Prop where
  locks : s.Locks
  changes : s.changes.Agrees
  upgrades : s.upgrades.Announced

theorem handsOver_step (h : s.HandsOver) (move : Move) : (s.step move).HandsOver := by
  have hstep := step_spec s move
  refine ⟨locks_step h.locks hstep, ?_, ?_⟩
  · rcases changes_step h.locks hstep with hsame | ⟨act, hact⟩
    · rw [hsame]
      exact h.changes
    · rw [hact]
      exact Box.agrees_step h.changes act
  · rcases upgrades_step hstep with hsame | ⟨act, hact⟩
    · rw [hsame]
      exact h.upgrades
    · rw [hact]
      exact Mark.announced_step h.upgrades act

theorem handsOver_run (moves : List Move) : (run moves).HandsOver := by
  refine Runs.run_invariant_of_step (I := HandsOver)
    (fun s move h => handsOver_step h move) ?_ moves
  refine ⟨⟨fun _ => rfl, nofun⟩, ?_, fun hne => absurd rfl hne⟩
  simp [changes, new, enricher, Watcher.new, Enricher.new, Box.Agrees, watchStage, loopStage]

/-- Whatever the order of the steps: while the changed processes are not locked, their flag says
    whether there are some; and while no thread has changed the promoted processes without having
    stored the flag, and the event loop has not taken the flag without having read the set, a
    cleared flag says that the event loop knows the set. -/
theorem handoffs_lose_nothing (moves : List Move) :
    let s := run moves
    (s.loopAt.holdsChanges = false → s.watchAt.holdsChanges = false →
      (s.enricher.hasChanges = true ↔ s.enricher.changedPids ≠ ∅)) ∧
    (loopWrites s.loopAt = false → watchWrites s.watchAt = false →
      loopReads s.loopAt = false → s.enricher.upgradeDirty = false →
      s.lastRead = s.enricher.upgradedPids) := by
  intro s
  have h : s.HandsOver := handsOver_run moves
  constructor
  · intro hloop hwatch
    have hagrees := h.changes
    rw [Box.Agrees, changes, loopStage_of_free hloop, watchStage_of_free hwatch] at hagrees
    rw [← Finset.nonempty_iff_ne_empty]
    exact hagrees
  · intro hloop hwatch hswapped hclean
    by_contra hne
    rcases h.upgrades (Ne.symm hne) with hdirty | hwriting | hreading
    · rw [show s.upgrades.dirty = s.enricher.upgradeDirty from rfl, hclean] at hdirty
      cases hdirty
    · simp [upgrades, hloop, hwatch, writing] at hwriting
    · rw [show s.upgrades.reading = loopReads s.loopAt from rfl, hswapped] at hreading
      cases hreading

/-- A process is promoted, and the event loop takes the flag: until it has read the set, it knows
    the one before, and the flag is cleared. -/
theorem swapped_before_read :
    let s := run [.item (.apply (Watcher.annotatedPod "aaaaaaaaaaaa")), .watchNext, .watchNext,
      .resolve 7 (some (cgroupOf "aaaaaaaaaaaa")), .loopNext, .loopNext, .loopNext, .loopNext,
      .loopNext, .takeUpgraded]
    loopWrites s.loopAt = false ∧ watchWrites s.watchAt = false ∧
      s.enricher.upgradeDirty = false ∧ s.lastRead ≠ s.enricher.upgradedPids := by
  decide

end Threads

end Profi
