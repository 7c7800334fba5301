import Profi.Cache
import Profi.Lib.Utf8
import Profi.Lib.Text

/-!
# The Enricher and its Pod Watcher

`src/enrichment.rs`: the table that maps short container ids to pods, the per-process caches in
front of it, and the task that follows the pods of the node through the Kubernetes watch stream.

The watcher is the only writer of the container table and handles one stream item after the
other, so a stream is a fold of `Watcher.step`. A panic in the task ends it; what the table held
then stays.
-/

namespace Profi

open Text

/-! ## Container ids -/

/-- A byte slice of a text that is out of range or cuts a character in two panics. -/
inductive Panic where
  | slice
  deriving DecidableEq

/-- `&raw[..n]`, on the characters of the text. -/
def sliceTo : List Char → ℕ → Except Panic (List Char)
  | _, 0 => .ok []
  | [], _ + 1 => .error .slice
  | c :: cs, n + 1 =>
    -- an index inside a character is not a boundary: the slice panics
    if c.utf8Size ≤ n + 1 then do
      let rest ← sliceTo cs (n + 1 - c.utf8Size)
      return c :: rest
    else .error .slice

theorem sliceTo_eq (s : List Char) (n : ℕ) :
    sliceTo s n =
      match Utf8.splitAt s n with
      | some (p, _) => .ok p
      | none => .error .slice := by
  induction s generalizing n with
  | nil =>
    cases n with
    | zero => rfl
    | succ n => rfl
  | cons c s ih =>
    cases n with
    | zero => rfl
    | succ n =>
      unfold sliceTo Utf8.splitAt
      split
      · rw [ih]
        cases Utf8.splitAt s (n + 1 - c.utf8Size) with
        | none => rfl
        | some parts => rfl
      · rfl

/-- `full_id.rsplit("://").next()`: what follows the last separator. -/
def afterProtocol (fullId : List Char) : List Char :=
  match (fullId.tails.filter fun tail => "://".toList.isPrefixOf tail).getLast? with
  | some tail => tail.drop 3
  | none => fullId

/-- `short_container_id`. -/
def shortContainerId (fullId : String) : Except Panic (Option String) :=
  let raw := afterProtocol fullId.toList
  if String.utf8Len raw ≥ 12 then do
    let short ← sliceTo raw 12
    return some (String.ofList short)
  else return none

/-- What follows the first occurrence of `marker`. -/
def afterFirst (marker line : List Char) : Option (List Char) :=
  (line.tails.find? fun tail => marker.isPrefixOf tail).map (·.drop marker.length)

/-- `if let Some(idx) = line.find(marker) { .. }`: the first twelve bytes of what stands between
    the marker and the next dot. -/
def runtimeId (marker line : List Char) : Except Panic (Option String) :=
  match afterFirst marker line with
  | none => return none
  | some rest =>
    let id := rest.takeWhile (· ≠ '.')
    if String.utf8Len id ≥ 12 then do
      let short ← sliceTo id 12
      return some (String.ofList short)
    else return none

/-- The last path segment, if it looks like a container id of 64 hexadecimal digits. -/
def segmentId (line : List Char) : Except Panic (Option String) :=
  if '/' ∈ line then
    let segment := (line.reverse.takeWhile (· ≠ '/')).reverse
    let id := segment.takeWhile (· ≠ '.')
    if String.utf8Len id ≥ 64 ∧ id.all isAsciiHexdigit = true then do
      let short ← sliceTo id 12
      return some (String.ofList short)
    else return none
  else return none

/-- One round of the loop in `extract_container_id`. -/
def lineContainerId (line : List Char) : Except Panic (Option String) := do
  match ← runtimeId "cri-containerd-".toList line with
  | some id => return some id
  | none =>
    match ← runtimeId "crio-".toList line with
    | some id => return some id
    | none => segmentId line

/-- `extract_container_id`: the id the first line that has one names. -/
def extractContainerId (cgroup : String) : Except Panic (Option String) :=
  (textLines cgroup.toList).findSomeM? lineContainerId

/-! ## Pods -/

structure ContainerStatus where
  name : String
  containerId : Option String

structure PodStatus where
  containerStatuses : Option (List ContainerStatus)
  initContainerStatuses : Option (List ContainerStatus)

/-- The part of a Kubernetes pod that is read. -/
structure Pod where
  namespace_ : Option String
  name : Option String
  annotations : Option (FinMap String String)
  status : Option PodStatus

deriving instance DecidableEq for PodInfo

/-- `PodInfo` with its `upgrade` flag: the pod asks for full kernel tracing. -/
structure ContainerInfo extends PodInfo where
  upgrade : Bool
  deriving DecidableEq

def modeAnnotation : String := "profi/mode"

namespace Pod

def podNs (pod : Pod) : String := pod.namespace_.getD ""

def podName (pod : Pod) : String := pod.name.getD ""

/-- The containers of a pod, then its init containers. -/
def allStatuses (pod : Pod) : List ContainerStatus :=
  match pod.status with
  | none => []
  | some status => status.containerStatuses.getD [] ++ status.initContainerStatuses.getD []

def upgrade (pod : Pod) : Bool :=
  (pod.annotations.bind fun a => a.lookup modeAnnotation) == some "full"

/-- The entry of a container of the pod. -/
def info (pod : Pod) (cs : ContainerStatus) : ContainerInfo where
  namespace_ := pod.podNs
  pod := pod.podName
  container := cs.name
  upgrade := pod.upgrade

/-- One round of the loop in `extract_containers_from_pod`. -/
def addStatus (pod : Pod) (map : FinMap String ContainerInfo) (cs : ContainerStatus) :
    Except Panic (FinMap String ContainerInfo) :=
  match cs.containerId with
  | none => return map
  | some id => do
    match ← shortContainerId id with
    -- a later container with the same short id replaces an earlier one
    | some short => return map.insert short (pod.info cs)
    | none => return map

end Pod

/-- `extract_containers_from_pod`. -/
def extractContainersFromPod (pod : Pod) : Except Panic (FinMap String ContainerInfo) :=
  pod.allStatuses.foldlM pod.addStatus ∅

/-! ## The enricher -/

/-- `Enricher`, without the device tables. -/
structure Enricher where
  k8sPidCache : FinMap U32 (Option ContainerInfo)
  containerMap : FinMap String ContainerInfo
  changedPids : Finset U32
  hasChanges : Bool
  containerToPids : FinMap String (Finset U32)
  upgradedPids : Finset U32
  upgradeDirty : Bool

namespace Enricher

def new : Enricher := ⟨∅, ∅, ∅, false, ∅, ∅, false⟩

/-- The processes that were seen in one of the containers. -/
def affectedPids (e : Enricher) (containerIds : List String) : Finset U32 :=
  containerIds.foldl (fun pids cid => pids ∪ (e.containerToPids.lookup cid).getD ∅) ∅

/-- `invalidate_containers`. -/
def invalidateContainers (e : Enricher) (containerIds : List String) : Enricher :=
  let affected := e.affectedPids containerIds
  -- containers without known processes change nothing but the table
  if affected = ∅ then e
  else
    let upgradedPids := e.upgradedPids \ affected
    { e with
      k8sPidCache := e.k8sPidCache.retain fun pid _ => pid ∉ affected
      upgradedPids
      upgradeDirty := e.upgradeDirty || upgradedPids.card ≠ e.upgradedPids.card
      changedPids := e.changedPids ∪ affected
      hasChanges := true }

/-- The process is noted under the container its cgroup names, if it names one. -/
def noteContainer (e : Enricher) (pid : U32) : Option String → Enricher
  | none => e
  | some cid =>
    { e with
      containerToPids :=
        e.containerToPids.insert cid (insert pid ((e.containerToPids.lookup cid).getD ∅)) }

/-- A process of a pod that asks for full tracing is put in the set, which is dirty if it was
    not there. -/
def promote (e : Enricher) (pid : U32) : Option ContainerInfo → Enricher
  | none => e
  | some info =>
    if info.upgrade = true ∧ pid ∉ e.upgradedPids then
      { e with upgradedPids := insert pid e.upgradedPids, upgradeDirty := true }
    else e

/-- `resolve_k8s`; `cgroup` is the text of `/proc/<pid>/cgroup`, nothing if it cannot be read. -/
def resolveK8s (e : Enricher) (pid : U32) (cgroup : Option String) :
    Except Panic (Option ContainerInfo × Enricher) :=
  match e.k8sPidCache.lookup pid with
  | some cached => return (cached, e)
  | none =>
    match cgroup with
    -- not cached: the file may be readable the next time
    | none => return (none, e)
    | some text => do
      let containerId ← extractContainerId text
      let result := containerId.bind e.containerMap.lookup
      let e := (e.noteContainer pid containerId).promote pid result
      return (result, { e with k8sPidCache := e.k8sPidCache.insert pid result })

/-- `evict_pid`. -/
def evictPid (e : Enricher) (pid : U32) : Enricher :=
  { e with
    k8sPidCache := e.k8sPidCache.erase pid
    upgradedPids := e.upgradedPids.erase pid
    upgradeDirty := e.upgradeDirty || pid ∈ e.upgradedPids }

/-- The containers the table has for the pod of this name. -/
def cidsOf (e : Enricher) (pod : Pod) : List String :=
  e.containerMap.keys.filter fun cid => (e.containerMap.lookup cid).any fun info =>
    info.pod = pod.podName && info.namespace_ = pod.podNs

/-- The table without the containers of the pod of this name. -/
def withoutPod (e : Enricher) (pod : Pod) : FinMap String ContainerInfo :=
  (e.cidsOf pod).foldl (fun map cid => map.erase cid) e.containerMap

end Enricher

/-! ## The watcher -/

/-- What the watch stream yields: the five watch events, a recoverable error, or its end. -/
inductive WatchItem where
  | init
  | initApply (pod : Pod)
  | initDone
  | apply (pod : Pod)
  | delete (pod : Pod)
  | error
  | ended

/-- The watcher task: the enricher it writes to, and the list it is receiving. -/
structure Watcher where
  enricher : Enricher
  pendingMap : FinMap String ContainerInfo
  running : Bool

namespace Watcher

def new : Watcher := ⟨.new, ∅, true⟩

def stop (w : Watcher) : Watcher := { w with running := false }

/-- `Event::InitDone`: the list replaces the table. -/
def finishInit (w : Watcher) : Watcher :=
  let removed := w.enricher.containerMap.keys.filter (· ∉ w.pendingMap)
  let e := { w.enricher with containerMap := w.pendingMap }.invalidateContainers removed
  { w with
    -- processes that matched no container are resolved again
    enricher := { e with k8sPidCache := e.k8sPidCache.retain fun _ v => v.isSome }
    pendingMap := ∅ }

/-- `Event::Apply` with the containers of the pod. -/
def applyPod (w : Watcher) (pod : Pod) (newContainers : FinMap String ContainerInfo) : Watcher :=
  let oldCids := w.enricher.cidsOf pod
  let e := { w.enricher with containerMap := newContainers ∪ w.enricher.withoutPod pod }
  { w with enricher := e.invalidateContainers oldCids }

/-- `Event::Delete`. -/
def deletePod (w : Watcher) (pod : Pod) : Watcher :=
  let removedCids := w.enricher.cidsOf pod
  let e := { w.enricher with containerMap := w.enricher.withoutPod pod }
  { w with enricher := e.invalidateContainers removedCids }

/-- One round of the loop in `start_k8s_refresh`. -/
def handle (w : Watcher) : WatchItem → Watcher
  | .init => { w with pendingMap := ∅ }
  | .initApply pod =>
    match extractContainersFromPod pod with
    | .ok containers => { w with pendingMap := containers ∪ w.pendingMap }
    | .error _ => w.stop
  | .initDone => w.finishInit
  | .apply pod =>
    match extractContainersFromPod pod with
    | .ok containers => w.applyPod pod containers
    | .error _ => w.stop
  | .delete pod => w.deletePod pod
  -- the stream retries by itself
  | .error => w
  | .ended => w.stop

def step (w : Watcher) (item : WatchItem) : Watcher :=
  if w.running then w.handle item else w

end Watcher

end Profi
