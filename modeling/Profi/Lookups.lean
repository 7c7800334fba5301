import Profi.PodWatch

/-!
# Lookups, Evictions and Watch Items

Who uses the enricher: the event loop looks processes up, evicts them and takes the set of
processes to be promoted; the watcher handles one item of its stream after the other. Here each
of these is one step. `Threads` takes them apart.

All writes to the per-process tables are of two kinds. A lookup that misses adds an entry
(`resolveK8s_cases`), everything else forgets the entries of some processes
(`Enricher.Forgets`), and a complete list forgets the processes without a pod besides.
-/

namespace Profi

/-! ## Steps -/

inductive EnricherOp where
  | lookup (pid : U32) (cgroup : Option String)
  | evictPid (pid : U32)
  | watch (item : WatchItem)
  | takeUpgraded

/-- The watcher with its enricher, and the promoted processes when the event loop last took the
    dirty mark. -/
structure EnricherState where
  watcher : Watcher
  taken : Finset U32

namespace EnricherState

def new : EnricherState := ⟨.new, ∅⟩

def enricher (s : EnricherState) : Enricher := s.watcher.enricher

def withEnricher (s : EnricherState) (e : Enricher) : EnricherState :=
  { s with watcher := { s.watcher with enricher := e } }

def step (s : EnricherState) : EnricherOp → EnricherState
  | .lookup pid cgroup =>
    match s.enricher.resolveK8s pid cgroup with
    | .ok (_, e) => s.withEnricher e
    -- a panic comes before the first write
    | .error _ => s
  | .evictPid pid => s.withEnricher (s.enricher.evictPid pid)
  | .watch item => { s with watcher := s.watcher.step item }
  | .takeUpgraded =>
    { s.withEnricher { s.enricher with upgradeDirty := false } with
      taken := s.enricher.upgradedPids }

/-- The state reached from the start. -/
def run (ops : List EnricherOp) : EnricherState := Runs.run step new ops

end EnricherState

/-- The cgroup of a process of this container. -/
def cgroupOf (id : String) : String := "0::/cri-containerd-" ++ id ++ ".scope"

/-- The pod "trainer" with the annotation for full tracing. -/
def Watcher.annotatedPod (id : String) : Pod :=
  { Watcher.trainerPod id with annotations := some (AList.insert modeAnnotation "full" ∅) }

/-! ## What a lookup does -/

namespace Enricher

variable {e e' : Enricher}

/-- The processes noted under a container. -/
def pidsOf (e : Enricher) (cid : String) : Finset U32 := (e.containerToPids.lookup cid).getD ∅

/-- The tables after a lookup that missed: the process is noted, promoted and cached. -/
def resolved (e : Enricher) (pid : U32) (containerId : Option String) : Enricher :=
  let result := containerId.bind e.containerMap.lookup
  let e := (e.noteContainer pid containerId).promote pid result
  { e with k8sPidCache := e.k8sPidCache.insert pid result }

/-- A lookup answers from the cache, finds no cgroup, or resolves the process. -/
theorem resolveK8s_cases {pid : U32} {cgroup : Option String} {result : Option ContainerInfo}
    (h : e.resolveK8s pid cgroup = .ok (result, e')) :
    (e.k8sPidCache.lookup pid = some result ∧ e' = e) ∨
    (e.k8sPidCache.lookup pid = none ∧ cgroup = none ∧ result = none ∧ e' = e) ∨
    (∃ text containerId, e.k8sPidCache.lookup pid = none ∧ cgroup = some text ∧
      extractContainerId text = .ok containerId ∧
      result = containerId.bind e.containerMap.lookup ∧ e' = e.resolved pid containerId) := by
  unfold resolveK8s at h
  cases hcached : e.k8sPidCache.lookup pid with
  | some cached =>
    rw [hcached] at h
    cases h
    exact .inl ⟨rfl, rfl⟩
  | none =>
    rw [hcached] at h
    cases cgroup with
    | none =>
      cases h
      exact .inr (.inl ⟨rfl, rfl, rfl, rfl⟩)
    | some text =>
      cases hid : extractContainerId text with
      | error p =>
        simp only [hid] at h
        cases h
      | ok containerId =>
        simp only [hid] at h
        cases h
        exact .inr (.inr ⟨text, containerId, rfl, rfl, hid, rfl, rfl⟩)

section Noted

variable (e) (pid : U32) (cid : Option String) (result : Option ContainerInfo)

@[simp] theorem noteContainer_k8sPidCache :
    (e.noteContainer pid cid).k8sPidCache = e.k8sPidCache := by
  cases cid <;> rfl

@[simp] theorem noteContainer_containerMap :
    (e.noteContainer pid cid).containerMap = e.containerMap := by
  cases cid <;> rfl

@[simp] theorem noteContainer_upgradedPids :
    (e.noteContainer pid cid).upgradedPids = e.upgradedPids := by
  cases cid <;> rfl

@[simp] theorem noteContainer_upgradeDirty :
    (e.noteContainer pid cid).upgradeDirty = e.upgradeDirty := by
  cases cid <;> rfl

@[simp] theorem noteContainer_changedPids :
    (e.noteContainer pid cid).changedPids = e.changedPids := by
  cases cid <;> rfl

@[simp] theorem noteContainer_hasChanges : (e.noteContainer pid cid).hasChanges = e.hasChanges := by
  cases cid <;> rfl

theorem mem_pidsOf_noteContainer (pid pid' : U32) (cid : Option String) (id : String) :
    pid' ∈ (e.noteContainer pid cid).pidsOf id ↔
      pid' ∈ e.pidsOf id ∨ pid' = pid ∧ cid = some id := by
  cases cid with
  | none => simp [noteContainer]
  | some cid =>
    by_cases hid : id = cid
    · subst hid
      simp [noteContainer, pidsOf, or_comm]
    · simp [noteContainer, pidsOf, AList.lookup_insert_ne hid, Ne.symm hid]

/-- A promotion does nothing, or puts the process in the set and marks it. -/
theorem promote_cases :
    (e.promote pid result = e ∧
      ∀ info, result = some info → info.upgrade = true → pid ∈ e.upgradedPids) ∨
    (e.promote pid result =
        { e with upgradedPids := insert pid e.upgradedPids, upgradeDirty := true } ∧
      ∃ info, result = some info ∧ info.upgrade = true) := by
  cases result with
  | none => exact .inl ⟨rfl, nofun⟩
  | some info =>
    by_cases hnew : info.upgrade = true ∧ pid ∉ e.upgradedPids
    · exact .inr ⟨if_pos hnew, info, rfl, hnew.1⟩
    · refine .inl ⟨if_neg hnew, fun info' hinfo hup => ?_⟩
      cases hinfo
      by_contra hout
      exact hnew ⟨hup, hout⟩

@[simp] theorem promote_k8sPidCache : (e.promote pid result).k8sPidCache = e.k8sPidCache := by
  rcases promote_cases e pid result with ⟨h, -⟩ | ⟨h, -⟩ <;> rw [h]

@[simp] theorem promote_containerMap : (e.promote pid result).containerMap = e.containerMap := by
  rcases promote_cases e pid result with ⟨h, -⟩ | ⟨h, -⟩ <;> rw [h]

@[simp] theorem promote_containerToPids :
    (e.promote pid result).containerToPids = e.containerToPids := by
  rcases promote_cases e pid result with ⟨h, -⟩ | ⟨h, -⟩ <;> rw [h]

theorem mem_upgradedPids_promote (pid pid' : U32) (result : Option ContainerInfo) :
    pid' ∈ (e.promote pid result).upgradedPids ↔
      pid' ∈ e.upgradedPids ∨ pid' = pid ∧ ∃ info, result = some info ∧ info.upgrade = true := by
  rcases promote_cases e pid result with ⟨h, hin⟩ | ⟨h, hup⟩
  · rw [h]
    constructor
    · exact .inl
    · rintro (hold | ⟨rfl, info, hinfo, hup⟩)
      · exact hold
      · exact hin info hinfo hup
  · rw [h, Finset.mem_insert, or_comm]
    simp only [hup, and_true]

/-- A promotion that changes the set marks it, and no promotion clears the mark. -/
theorem upgradeDirty_promote :
    (e.promote pid result).upgradeDirty = true ∨
      (e.promote pid result).upgradedPids = e.upgradedPids ∧
        (e.promote pid result).upgradeDirty = e.upgradeDirty := by
  rcases promote_cases e pid result with ⟨h, -⟩ | ⟨h, -⟩
  · rw [h]
    exact .inr ⟨rfl, rfl⟩
  · rw [h]
    exact .inl rfl

end Noted

section Resolved

variable (e) (pid : U32) (containerId : Option String)

@[simp] theorem resolved_containerMap :
    (e.resolved pid containerId).containerMap = e.containerMap := by
  simp [resolved]

theorem resolved_k8sPidCache :
    (e.resolved pid containerId).k8sPidCache =
      e.k8sPidCache.insert pid (containerId.bind e.containerMap.lookup) := by
  simp [resolved]

theorem mem_pidsOf_resolved (pid' : U32) (id : String) :
    pid' ∈ (e.resolved pid containerId).pidsOf id ↔
      pid' ∈ e.pidsOf id ∨ pid' = pid ∧ containerId = some id := by
  have hsame : (e.resolved pid containerId).containerToPids =
      (e.noteContainer pid containerId).containerToPids := by
    simp [resolved]
  rw [← mem_pidsOf_noteContainer]
  unfold pidsOf
  rw [hsame]

theorem mem_upgradedPids_resolved (pid' : U32) :
    pid' ∈ (e.resolved pid containerId).upgradedPids ↔
      pid' ∈ e.upgradedPids ∨ pid' = pid ∧
        ∃ info, containerId.bind e.containerMap.lookup = some info ∧ info.upgrade = true := by
  simp only [resolved, mem_upgradedPids_promote, noteContainer_upgradedPids]

theorem upgradeDirty_resolved :
    (e.resolved pid containerId).upgradeDirty = true ∨
      (e.resolved pid containerId).upgradedPids = e.upgradedPids ∧
        (e.resolved pid containerId).upgradeDirty = e.upgradeDirty := by
  have h := upgradeDirty_promote (e.noteContainer pid containerId) pid
    (containerId.bind e.containerMap.lookup)
  rwa [noteContainer_upgradedPids, noteContainer_upgradeDirty] at h

end Resolved

/-! ## What is forgotten -/

/-- The lookups of the processes `pids` are forgotten, with their promotions. -/
structure Forgets (pids : Finset U32) (e e' : Enricher) : Prop where
  cache : ∀ pid, e'.k8sPidCache.lookup pid =
    if pid ∈ pids then none else e.k8sPidCache.lookup pid
  upgraded : e'.upgradedPids = e.upgradedPids \ pids
  dirty : e'.upgradeDirty = true ↔ e.upgradeDirty = true ∨ e'.upgradedPids ≠ e.upgradedPids
  noted : e'.containerToPids = e.containerToPids

theorem evictPid_forgets (e : Enricher) (pid : U32) : Forgets {pid} e (e.evictPid pid) where
  cache pid' := by
    rw [evictPid, FinMap.lookup_erase_eq_ite]
    simp
  upgraded := (Finset.sdiff_singleton_eq_erase pid e.upgradedPids).symm
  dirty := by simp [evictPid]
  noted := rfl

theorem mem_affectedPids {ids : List String} {pid : U32} :
    pid ∈ e.affectedPids ids ↔ ∃ id ∈ ids, pid ∈ e.pidsOf id := by
  have hfold : ∀ (ids : List String) (pids : Finset U32),
      pid ∈ ids.foldl (fun pids cid => pids ∪ (e.containerToPids.lookup cid).getD ∅) pids ↔
        pid ∈ pids ∨ ∃ id ∈ ids, pid ∈ e.pidsOf id := by
    intro ids
    induction ids with
    | nil => simp
    | cons id ids ih =>
      intro pids
      rw [List.foldl_cons, ih, Finset.mem_union, List.exists_mem_cons_iff, or_assoc]
      rfl
  simpa [affectedPids] using hfold ids ∅

theorem lookup_retain_notMem {V : Type} (pids : Finset U32) (m : FinMap U32 V) (pid : U32) :
    (m.retain fun pid _ => pid ∉ pids).lookup pid = if pid ∈ pids then none else m.lookup pid := by
  rw [FinMap.lookup_retain]
  by_cases hpid : pid ∈ pids
  · simp [hpid]
  · cases m.lookup pid <;> simp [hpid]

/-- An invalidation forgets the affected processes, whatever table it is that changed. -/
theorem invalidateContainers_forgets (e : Enricher) (map : FinMap String ContainerInfo)
    (ids : List String) :
    Forgets (e.affectedPids ids) e ({ e with containerMap := map }.invalidateContainers ids) := by
  have haffected : { e with containerMap := map }.affectedPids ids = e.affectedPids ids := rfl
  unfold invalidateContainers
  simp only [haffected]
  split
  next hnone =>
    rw [hnone]
    exact ⟨by simp, by simp, by simp, rfl⟩
  · refine ⟨fun pid => ?_, rfl, ?_, rfl⟩
    · exact lookup_retain_notMem _ _ pid
    · -- the code compares sizes, and the set only shrinks
      have hcard : (e.upgradedPids \ e.affectedPids ids).card ≠ e.upgradedPids.card ↔
          e.upgradedPids \ e.affectedPids ids ≠ e.upgradedPids := by
        refine not_congr ⟨fun h => ?_, fun h => by rw [h]⟩
        exact Finset.eq_of_subset_of_card_le Finset.sdiff_subset h.ge
      simp only [Bool.or_eq_true, decide_eq_true_eq, hcard]

end Enricher

/-! ## What a watch item does -/

namespace Watcher

variable (w : Watcher)

/-- The containers of the table that a complete list does not have. -/
def removedCids : List String := w.enricher.containerMap.keys.filter (· ∉ w.pendingMap)

theorem mem_removedCids {id : String} :
    id ∈ w.removedCids ↔ id ∈ w.enricher.containerMap ∧ id ∉ w.pendingMap := by
  simp [removedCids, AList.mem_keys]

/-- An item leaves the enricher alone, completes a list, or applies or deletes one pod. -/
theorem step_cases (item : WatchItem) :
    ((w.step item).enricher = w.enricher ∧
      (w.running = true → item ≠ .initDone ∧ ∀ pod, item = .apply pod → pod.containers = ∅)) ∨
    (w.running = true ∧ item = .initDone ∧ w.step item = w.finishInit) ∨
    (∃ pod, w.running = true ∧ item = .apply pod ∧ w.step item = w.applyPod pod pod.containers) ∨
    (∃ pod, item = .delete pod ∧ w.step item = w.deletePod pod) := by
  unfold step
  split
  next hrunning =>
    cases item with
    | init => exact .inl ⟨rfl, fun _ => ⟨by simp, by simp⟩⟩
    | initApply pod =>
      refine .inl ⟨?_, fun _ => ⟨by simp, by simp⟩⟩
      unfold handle
      simp only
      split <;> rfl
    | initDone => exact .inr (.inl ⟨hrunning, rfl, rfl⟩)
    | apply pod =>
      cases hok : extractContainersFromPod pod with
      | ok containers =>
        refine .inr (.inr (.inl ⟨pod, hrunning, rfl, ?_⟩))
        rw [Pod.containers_of_ok hok]
        simp only [handle, hok]
      -- the watcher task ends, and the table stays as it is
      | error p =>
        refine .inl ⟨by simp only [handle, hok, stop], fun _ => ⟨by simp, ?_⟩⟩
        rintro pod' ⟨⟩
        rw [Pod.containers, hok]
        rfl
    | delete pod => exact .inr (.inr (.inr ⟨pod, rfl, rfl⟩))
    | error => exact .inl ⟨rfl, fun _ => ⟨by simp, by simp⟩⟩
    | ended => exact .inl ⟨rfl, fun _ => ⟨by simp, by simp⟩⟩
  next hstopped => exact .inl ⟨rfl, fun hrunning => absurd hrunning hstopped⟩

section Apply

variable (pod : Pod) (containers : FinMap String ContainerInfo)

@[simp] theorem applyPod_containerMap :
    (w.applyPod pod containers).enricher.containerMap =
      containers ∪ w.enricher.withoutPod pod :=
  Enricher.invalidateContainers_containerMap _ _

theorem applyPod_forgets :
    Enricher.Forgets (w.enricher.affectedPids (w.enricher.cidsOf pod)) w.enricher
      (w.applyPod pod containers).enricher :=
  Enricher.invalidateContainers_forgets _ _ _

@[simp] theorem deletePod_containerMap :
    (w.deletePod pod).enricher.containerMap = w.enricher.withoutPod pod :=
  Enricher.invalidateContainers_containerMap _ _

theorem deletePod_forgets :
    Enricher.Forgets (w.enricher.affectedPids (w.enricher.cidsOf pod)) w.enricher
      (w.deletePod pod).enricher :=
  Enricher.invalidateContainers_forgets _ _ _

end Apply

@[simp] theorem finishInit_containerMap :
    w.finishInit.enricher.containerMap = w.pendingMap := by
  simp [finishInit]

/-- A complete list forgets the processes of the containers it does not have, and those without
    a container. -/
theorem finishInit_forgets :
    ∃ e, Enricher.Forgets (w.enricher.affectedPids w.removedCids) w.enricher e ∧
      w.finishInit.enricher =
        { e with k8sPidCache := e.k8sPidCache.retain fun _ v => v.isSome } :=
  ⟨_, Enricher.invalidateContainers_forgets w.enricher w.pendingMap w.removedCids, rfl⟩

theorem finishInit_lookup_some {pid : U32} {info : ContainerInfo} :
    w.finishInit.enricher.k8sPidCache.lookup pid = some (some info) ↔
      w.enricher.k8sPidCache.lookup pid = some (some info) ∧
        pid ∉ w.enricher.affectedPids w.removedCids := by
  obtain ⟨e, hforgets, heq⟩ := w.finishInit_forgets
  rw [heq, FinMap.lookup_retain, hforgets.cache, Option.filter_eq_some_iff]
  split <;> simp_all

theorem finishInit_lookup_none (pid : U32) :
    w.finishInit.enricher.k8sPidCache.lookup pid ≠ some none := by
  obtain ⟨e, -, heq⟩ := w.finishInit_forgets
  rw [heq, FinMap.lookup_retain, Ne, Option.filter_eq_some_iff]
  simp

end Watcher

/-! ## The promoted processes are the cached ones -/

namespace Enricher

/-- The promoted processes are those whose cached pod asks for full tracing. -/
def Tracked (e : Enricher) : Prop :=
  ∀ pid, pid ∈ e.upgradedPids ↔
    ∃ info, e.k8sPidCache.lookup pid = some (some info) ∧ info.upgrade = true

variable {e e' : Enricher} {pids : Finset U32}

theorem Forgets.tracked (h : Forgets pids e e') (htracked : e.Tracked) : e'.Tracked := by
  intro pid
  rw [h.upgraded, Finset.mem_sdiff, htracked pid, h.cache]
  by_cases hpid : pid ∈ pids
  · simp [hpid]
  · simp [hpid]

theorem tracked_resolved (htracked : e.Tracked) {pid : U32}
    (hmiss : e.k8sPidCache.lookup pid = none) (containerId : Option String) :
    (e.resolved pid containerId).Tracked := by
  intro pid'
  rw [mem_upgradedPids_resolved, resolved_k8sPidCache, htracked pid']
  by_cases hpid : pid' = pid
  · subst hpid
    simp [hmiss]
  · simp [hpid, AList.lookup_insert_ne hpid]

/-- While the set is not the one that was taken, it is marked. -/
def Marked (e : Enricher) (taken : Finset U32) : Prop :=
  e.upgradedPids ≠ taken → e.upgradeDirty = true

theorem Forgets.marked (h : Forgets pids e e') {taken : Finset U32} (hmarked : e.Marked taken) :
    e'.Marked taken := by
  intro hne
  rw [h.dirty]
  by_cases hsame : e'.upgradedPids = e.upgradedPids
  · exact .inl (hmarked (hsame ▸ hne))
  · exact .inr hsame

end Enricher

namespace EnricherState

/-- What holds of the promoted processes. -/
structure Upgrades (s : EnricherState) : Prop where
  tracked : s.enricher.Tracked
  marked : s.enricher.Marked s.taken

theorem upgrades_step {s : EnricherState} (h : s.Upgrades) (op : EnricherOp) :
    (s.step op).Upgrades := by
  cases op with
  | lookup pid cgroup =>
    unfold step
    simp only
    split
    next result e hok =>
      rcases Enricher.resolveK8s_cases hok with
        ⟨-, rfl⟩ | ⟨-, -, -, rfl⟩ | ⟨-, containerId, hmiss, -, -, -, rfl⟩
      · exact h
      · exact h
      · refine ⟨Enricher.tracked_resolved h.tracked hmiss containerId, fun hne => ?_⟩
        rcases Enricher.upgradeDirty_resolved s.enricher pid containerId with
          hdirty | ⟨hset, hdirty⟩
        · exact hdirty
        · exact hdirty.trans (h.marked (hset ▸ hne))
    · exact h
  | evictPid pid =>
    have hforgets := s.enricher.evictPid_forgets pid
    exact ⟨hforgets.tracked h.tracked, hforgets.marked h.marked⟩
  | watch item =>
    rcases s.watcher.step_cases item with
      ⟨hsame, -⟩ | ⟨-, -, hstep⟩ | ⟨pod, -, -, hstep⟩ | ⟨pod, -, hstep⟩
    · exact ⟨show (s.watcher.step item).enricher.Tracked from hsame ▸ h.tracked,
        show (s.watcher.step item).enricher.Marked s.taken from hsame ▸ h.marked⟩
    · obtain ⟨e, hforgets, heq⟩ := s.watcher.finishInit_forgets
      have htracked := hforgets.tracked h.tracked
      have hmarked := hforgets.marked h.marked
      have hafter : (s.step (.watch item)).enricher = _ :=
        (congrArg Watcher.enricher hstep).trans heq
      refine ⟨fun pid => ?_, ?_⟩
      -- the processes that are dropped besides have no pod, and are not promoted
      · rw [hafter, htracked pid]
        simp [FinMap.lookup_retain, Option.filter_eq_some_iff]
      · rw [hafter]
        exact hmarked
    · have hforgets := s.watcher.applyPod_forgets pod pod.containers
      rw [← hstep] at hforgets
      exact ⟨hforgets.tracked h.tracked, hforgets.marked h.marked⟩
    · have hforgets := s.watcher.deletePod_forgets pod
      rw [← hstep] at hforgets
      exact ⟨hforgets.tracked h.tracked, hforgets.marked h.marked⟩
  | takeUpgraded => exact ⟨h.tracked, fun hne => absurd rfl hne⟩

/-- In every state the promoted processes are those whose cached pod asks for full tracing, and
    a set that has changed since the event loop took it is marked. -/
theorem upgraded_pids_track_cache (ops : List EnricherOp) :
    (∀ pid, pid ∈ (run ops).enricher.upgradedPids ↔
      ∃ info, (run ops).enricher.k8sPidCache.lookup pid = some (some info) ∧
        info.upgrade = true) ∧
    ((run ops).enricher.upgradedPids ≠ (run ops).taken →
      (run ops).enricher.upgradeDirty = true) := by
  have hinit : new.Upgrades :=
    ⟨fun pid => by simp [new, enricher, Watcher.new, Enricher.new],
      fun hne => absurd rfl hne⟩
  have hrun : (run ops).Upgrades :=
    Runs.run_invariant_of_step (I := Upgrades) (fun _ op h => upgrades_step h op) hinit ops
  exact ⟨hrun.tracked, hrun.marked⟩

end EnricherState

end Profi
