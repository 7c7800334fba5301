import Profi.Enricher
import Profi.Lib.Fallible
import Profi.Lib.Runs
import Profi.Lib.UnionMap

/-!
# The Container Table Follows the Pods

The watch stream describes a store of pods: a list replaces it, later events change single
pods. `PodStore` is that store, with the list being received next to it. The watcher keeps no
pods, only the table of their containers, and patches it by scanning for entries with the name
of a pod. `container_map_refines` says that the table is the union of the containers of the live
pods in every state, whatever the order of lists and events.

Two things the watcher relies on are hypotheses there. The ids of containers can be cut after
twelve bytes; `extractContainersFromPod_ok` says that ids of one-byte characters can. And a pod
that occurs twice in one list still has its earlier containers the second time
(`relisted_pod_keeps_old_container` shows what happens otherwise): the pending table is never
scanned.
-/

namespace Profi

open UnionMap

/-! ## What is extracted -/

/-- The namespace and name of a pod. -/
def Pod.key (pod : Pod) : String × String := (pod.podNs, pod.podName)

/-- The pod an entry of the container table names. -/
def ContainerInfo.owner (info : ContainerInfo) : String × String := (info.namespace_, info.pod)

/-- The containers of a pod; nothing if the extraction panics. -/
def Pod.containers (pod : Pod) : FinMap String ContainerInfo :=
  (extractContainersFromPod pod).toOption.getD ∅

/-- The extraction does not panic on this pod. -/
def Pod.Extracts (pod : Pod) : Prop := ∃ containers, extractContainersFromPod pod = .ok containers

theorem Pod.containers_of_ok {pod : Pod} {containers : FinMap String ContainerInfo}
    (h : extractContainersFromPod pod = .ok containers) : pod.containers = containers := by
  rw [Pod.containers, h]
  rfl

theorem Pod.lookup_containers {pod : Pod} {id : String} {info : ContainerInfo} :
    pod.containers.lookup id = some info ↔
      ∃ containers, extractContainersFromPod pod = .ok containers ∧
        containers.lookup id = some info := by
  cases h : extractContainersFromPod pod with
  | error p => simp [Pod.containers, h, Except.toOption]
  | ok containers => simp [Pod.containers, h, Except.toOption]

/-- A round of the extraction adds nothing or an entry of the pod. -/
theorem Pod.addStatus_ok {pod : Pod} {map map' : FinMap String ContainerInfo}
    {cs : ContainerStatus} (h : pod.addStatus map cs = .ok map') :
    map' = map ∨ ∃ short, map' = map.insert short (pod.info cs) := by
  unfold Pod.addStatus at h
  cases hid : cs.containerId with
  -- a container that has not started has no id yet
  | none =>
    rw [hid] at h
    cases h
    exact .inl rfl
  | some id =>
    simp only [hid] at h
    cases hshort : shortContainerId id with
    | error p =>
      rw [hshort] at h
      cases h
    | ok short =>
      rw [hshort] at h
      cases short with
      | none =>
        cases h
        exact .inl rfl
      | some short =>
        cases h
        exact .inr ⟨short, rfl⟩

/-- The entries of a pod carry its name. -/
theorem Pod.owner_of_lookup {pod : Pod} {id : String} {info : ContainerInfo}
    (h : pod.containers.lookup id = some info) : info.owner = pod.key := by
  obtain ⟨containers, hok, hlookup⟩ := Pod.lookup_containers.mp h
  have hall : ∀ id info, containers.lookup id = some info → info.owner = pod.key := by
    refine Fallible.foldlM_invariant (I := fun map : FinMap String ContainerInfo =>
      ∀ id info, map.lookup id = some info → info.owner = pod.key) ?_ ?_ hok
    · intro map cs map' hmap hstep id info hlookup
      rcases Pod.addStatus_ok hstep with rfl | ⟨short, rfl⟩
      · exact hmap id info hlookup
      · rcases FinMap.lookup_insert_cases hlookup with ⟨rfl, rfl⟩ | ⟨-, hold⟩
        · rfl
        · exact hmap id info hold
    · intro id info hlookup
      simp at hlookup
  exact hall id info hlookup

/-! ### Ids of one-byte characters -/

theorem afterProtocol_suffix (cs : List Char) : afterProtocol cs <:+ cs := by
  unfold afterProtocol
  split
  next tail htail =>
    have hmem := List.mem_of_getLast? htail
    have htails := (List.mem_filter.mp hmem).1
    exact (List.drop_suffix 3 tail).trans ((List.mem_tails _ _).mp htails)
  · exact List.suffix_refl cs

/-- Ids of one-byte characters, like the hexadecimal ones of container runtimes, can be cut. -/
theorem extractContainersFromPod_ok {pod : Pod} (hids : ∀ cs ∈ pod.allStatuses,
    ∀ id, cs.containerId = some id → ∀ c ∈ id.toList, c.utf8Size = 1) : pod.Extracts := by
  refine Fallible.foldlM_total (fun map cs hcs => ?_) ∅
  unfold Pod.addStatus
  cases hid : cs.containerId with
  | none => exact ⟨map, rfl⟩
  | some id =>
    -- in ASCII text every index up to the length is a boundary
    have hascii : ∀ c ∈ afterProtocol id.toList, c.utf8Size = 1 := fun c hc =>
      hids cs hcs id hid c ((afterProtocol_suffix id.toList).subset hc)
    have hshort : ∃ short, shortContainerId id = .ok short := by
      unfold shortContainerId
      simp only [Utf8.utf8Len_eq_length hascii]
      split
      next hlong =>
        rw [sliceTo_eq, Utf8.splitAt_eq_take hascii hlong]
        exact ⟨_, rfl⟩
      · exact ⟨none, rfl⟩
    obtain ⟨short, hshort⟩ := hshort
    simp only [hshort]
    cases short with
    | none => exact ⟨map, rfl⟩
    | some short => exact ⟨map.insert short (pod.info cs), rfl⟩

/-! ## What the watcher does to the table -/

namespace Enricher

@[simp] theorem invalidateContainers_containerMap (e : Enricher) (ids : List String) :
    (e.invalidateContainers ids).containerMap = e.containerMap := by
  unfold invalidateContainers
  simp only
  split <;> rfl

theorem mem_cidsOf {e : Enricher} {pod : Pod} {cid : String} :
    cid ∈ e.cidsOf pod ↔ ∃ info, e.containerMap.lookup cid = some info ∧ info.owner = pod.key := by
  unfold cidsOf
  rw [List.mem_filter, Option.any_eq_true]
  constructor
  · rintro ⟨-, info, hlookup, hname⟩
    obtain ⟨hpod, hns⟩ : info.pod = pod.podName ∧ info.namespace_ = pod.podNs := by
      simpa using hname
    exact ⟨info, hlookup, Prod.ext hns hpod⟩
  · rintro ⟨info, hlookup, howner⟩
    obtain ⟨hns, hpod⟩ := Prod.mk.inj howner
    exact ⟨FinMap.mem_iff_lookup.mpr ⟨info, hlookup⟩, info, hlookup, by simp [hns, hpod]⟩

/-- The scan takes out the entries that carry the name of the pod. -/
theorem lookup_withoutPod (e : Enricher) (pod : Pod) (cid : String) (info : ContainerInfo) :
    (e.withoutPod pod).lookup cid = some info ↔
      e.containerMap.lookup cid = some info ∧ info.owner ≠ pod.key := by
  rw [withoutPod, FinMap.lookup_foldl_erase]
  by_cases hmem : cid ∈ e.cidsOf pod
  · obtain ⟨info', hlookup, howner⟩ := mem_cidsOf.mp hmem
    rw [if_pos hmem, hlookup]
    constructor
    · nofun
    · rintro ⟨hsame, hne⟩
      cases hsame
      exact absurd howner hne
  · rw [if_neg hmem]
    exact ⟨fun hlookup => ⟨hlookup, fun howner => hmem (mem_cidsOf.mpr ⟨info, hlookup, howner⟩)⟩,
      fun h => h.1⟩

end Enricher

/-! ## The store of pods -/

/-- The pods the stream has told of: those that are live, and those in the list that is being
    received. -/
structure PodStore where
  live : String × String → Option Pod
  listed : String × String → Option Pod

namespace PodStore

def empty : PodStore := ⟨fun _ => none, fun _ => none⟩

/-- A list replaces the live pods when it is complete; later events add, change or remove one. -/
def step (s : PodStore) : WatchItem → PodStore
  | .init => { s with listed := fun _ => none }
  | .initApply pod => { s with listed := Function.update s.listed pod.key (some pod) }
  | .initDone => { live := s.listed, listed := fun _ => none }
  | .apply pod => { s with live := Function.update s.live pod.key (some pod) }
  | .delete pod => { s with live := Function.update s.live pod.key none }
  | .error | .ended => s

/-- The live pods after the item have no container in common, the containers of its pod can be
    extracted, and if the pod was in the same list before, it still has the containers it had. -/
def Permitted (s : PodStore) (item : WatchItem) : Prop :=
  Apart Pod.containers (s.step item).live ∧
    match item with
    | .initApply pod => pod.Extracts ∧ Covers Pod.containers s.listed pod.key pod
    | .apply pod => pod.Extracts
    | .ended => False
    | _ => True

/-- The watcher's tables are the unions of the containers of the pods in the store. The pending
    one may not be while listed pods share a container, as the later of them overwrites it. -/
structure Follows (s : PodStore) (w : Watcher) : Prop where
  running : w.running = true
  table : IsUnion Pod.containers s.live w.enricher.containerMap
  pending : Apart Pod.containers s.listed → IsUnion Pod.containers s.listed w.pendingMap
  liveKey : ∀ name pod, s.live name = some pod → pod.key = name
  listedKey : ∀ name pod, s.listed name = some pod → pod.key = name

theorem follows_new : Follows empty .new where
  running := rfl
  table := isUnion_empty
  pending := fun _ => isUnion_empty
  liveKey := nofun
  listedKey := nofun

/-- Pods stay under their own names. -/
theorem key_update {pods : String × String → Option Pod}
    (h : ∀ name pod, pods name = some pod → pod.key = name) (pod : Pod) :
    ∀ name pod', Function.update pods pod.key (some pod) name = some pod' → pod'.key = name := by
  intro name pod' hname
  by_cases hk : name = pod.key
  · subst hk
    rw [Function.update_self] at hname
    cases hname
    rfl
  · rw [Function.update_of_ne hk] at hname
    exact h name pod' hname

theorem key_remove {pods : String × String → Option Pod}
    (h : ∀ name pod, pods name = some pod → pod.key = name) (key : String × String) :
    ∀ name pod', Function.update pods key none name = some pod' → pod'.key = name := by
  intro name pod' hname
  by_cases hk : name = key
  · subst hk
    rw [Function.update_self] at hname
    cases hname
  · rw [Function.update_of_ne hk] at hname
    exact h name pod' hname

variable {s : PodStore} {w : Watcher}

theorem Follows.owner (h : Follows s w) : ∀ name pod id info, s.live name = some pod →
    pod.containers.lookup id = some info → info.owner = name := by
  intro name pod id info hlive hlookup
  rw [Pod.owner_of_lookup hlookup, h.liveKey name pod hlive]

theorem follows_step (h : Follows s w) {item : WatchItem} (hitem : s.Permitted item) :
    Follows (s.step item) (w.step item) := by
  obtain ⟨hapart, hitem⟩ := hitem
  rw [Watcher.step, if_pos h.running]
  cases item with
  | init => exact ⟨h.running, h.table, fun _ => isUnion_empty, h.liveKey, nofun⟩
  | initApply pod =>
    obtain ⟨⟨containers, hok⟩, hcovers⟩ := hitem
    simp only [Watcher.handle, hok]
    refine ⟨h.running, h.table, fun hlisted => ?_, h.liveKey, key_update h.listedKey pod⟩
    -- the pods listed so far share nothing either
    have hpending := h.pending (hlisted.of_update hcovers)
    rw [← Pod.containers_of_ok hok]
    exact hpending.add hlisted hcovers
  | initDone =>
    refine ⟨h.running, ?_, fun _ => isUnion_empty, h.listedKey, nofun⟩
    simp only [Watcher.handle, Watcher.finishInit, Enricher.invalidateContainers_containerMap]
    exact h.pending hapart
  | apply pod =>
    obtain ⟨containers, hok⟩ := hitem
    simp only [Watcher.handle, hok]
    refine ⟨h.running, ?_, h.pending, key_update h.liveKey pod, h.listedKey⟩
    simp only [Watcher.applyPod, Enricher.invalidateContainers_containerMap]
    rw [← Pod.containers_of_ok hok]
    exact h.table.replace h.owner (w.enricher.lookup_withoutPod pod) hapart
  | delete pod =>
    refine ⟨h.running, ?_, h.pending, key_remove h.liveKey pod.key, h.listedKey⟩
    simp only [Watcher.handle, Watcher.deletePod, Enricher.invalidateContainers_containerMap]
    exact h.table.remove h.owner (w.enricher.lookup_withoutPod pod)
  | error => exact h
  | ended => exact hitem.elim

end PodStore

/-- The items of a list. -/
def WatchItem.IsListing : WatchItem → Prop
  | .init | .initApply _ => True
  | _ => False

/-- While a list is received, the container table stays as it is. -/
theorem Watcher.containerMap_listing (w : Watcher) {item : WatchItem} (hitem : item.IsListing) :
    (w.step item).enricher.containerMap = w.enricher.containerMap := by
  unfold Watcher.step
  split
  · cases item with
    | init => rfl
    | initApply pod =>
      simp only [Watcher.handle]
      split <;> rfl
    | _ => exact hitem.elim
  · rfl

namespace Watcher

/-- **The container table follows the pods.** After every stream of watch items, the container
    table is the union of what is extracted from the live pods, each in its latest version; and
    while a list is received, it does not change. -/
theorem container_map_refines {items : List WatchItem}
    (hitems : Runs.Along PodStore.step PodStore.Permitted .empty items) :
    let s := Runs.run PodStore.step .empty items
    let w := Runs.run step new items
    (∀ id info, w.enricher.containerMap.lookup id = some info ↔
      ∃ name pod containers, s.live name = some pod ∧
        extractContainersFromPod pod = .ok containers ∧ containers.lookup id = some info) ∧
    ∀ listing : List WatchItem, (∀ item ∈ listing, item.IsListing) →
      (Runs.run step w listing).enricher.containerMap = w.enricher.containerMap := by
  intro s w
  have hstep : ∀ (s : PodStore) (w : Watcher) (item : WatchItem), s.Follows w →
      s.Permitted item → (s.step item).Follows (w.step item) :=
    fun _ _ _ h hitem => PodStore.follows_step h hitem
  have hfollows : s.Follows w := Runs.run_lockstep hstep PodStore.follows_new hitems
  refine ⟨fun id info => ?_, fun listing hlisting => ?_⟩
  · rw [hfollows.table id info]
    simp only [Pod.lookup_containers, exists_and_left]
  · -- between `Init` and `InitDone` nothing reaches the table
    have halong : Runs.Along step (fun _ item => item.IsListing) w listing :=
      Runs.along_of_forall hlisting w
    exact Runs.run_invariant (I := fun w' => w'.enricher.containerMap = w.enricher.containerMap)
      (fun w' _ h hitem => (w'.containerMap_listing hitem).trans h) rfl halong

/-- A container of the test pods. -/
def statusOf (id : String) : ContainerStatus := ⟨"main", some ("containerd://" ++ id)⟩

/-- The pod "trainer" of the namespace "jobs" with one container. -/
def trainerPod (id : String) : Pod :=
  ⟨some "jobs", some "trainer", none, some ⟨some [statusOf id], none⟩⟩

/-- A pod is listed, and then restarts its container. -/
theorem container_map_refines_restart :
    let items := [.init, .initApply (trainerPod "aaaaaaaaaaaa"), .initDone,
      .apply (trainerPod "bbbbbbbbbbbb")]
    let s := Runs.run PodStore.step .empty items
    let w := Runs.run step new items
    (∀ id info, w.enricher.containerMap.lookup id = some info ↔
      ∃ name pod containers, s.live name = some pod ∧
        extractContainersFromPod pod = .ok containers ∧ containers.lookup id = some info) ∧
    w.enricher.containerMap.keys = ["bbbbbbbbbbbb"] := by
  intro items s w
  refine ⟨(container_map_refines ?_).1, by decide⟩
  refine ⟨⟨apart_empty, trivial⟩, ⟨apart_empty, ⟨_, rfl⟩, nofun⟩, ⟨apart_single _ _, trivial⟩,
    ⟨?_, ⟨_, rfl⟩⟩, trivial⟩
  -- the pod keeps its name, so it is still the only one
  change Apart Pod.containers (Function.update (Function.update (fun _ => none)
    ("jobs", "trainer") (some (trainerPod "aaaaaaaaaaaa")))
    ("jobs", "trainer") (some (trainerPod "bbbbbbbbbbbb")))
  rw [Function.update_idem]
  exact apart_single _ _

/-- A pod occurs twice in one list, with another container the second time. The first container
    stays in the table, though no live pod has it. -/
theorem relisted_pod_keeps_old_container :
    let items := [.init, .initApply (trainerPod "aaaaaaaaaaaa"),
      .initApply (trainerPod "bbbbbbbbbbbb"), .initDone]
    let s := Runs.run PodStore.step .empty items
    let w := Runs.run step new items
    (w.enricher.containerMap.lookup "aaaaaaaaaaaa").isSome = true ∧
      ∀ name pod containers, s.live name = some pod →
        extractContainersFromPod pod = .ok containers →
        containers.lookup "aaaaaaaaaaaa" = none := by
  intro items s w
  refine ⟨by decide, ?_⟩
  intro name pod containers hlive hok
  change Function.update (Function.update (fun _ => none)
    ("jobs", "trainer") (some (trainerPod "aaaaaaaaaaaa")))
    ("jobs", "trainer") (some (trainerPod "bbbbbbbbbbbb")) name = some pod at hlive
  rw [Function.update_idem] at hlive
  by_cases hname : name = ("jobs", "trainer")
  · subst hname
    rw [Function.update_self] at hlive
    cases hlive
    rw [← Pod.containers_of_ok hok]
    decide
  · rw [Function.update_of_ne hname] at hlive
    cases hlive

end Watcher

end Profi
