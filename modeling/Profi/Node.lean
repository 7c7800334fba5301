import Profi.Lookups
import Profi.Requests

/-!
# The Event Loop and the Watcher on one Node

`Sys` takes what the enricher answers from outside. Here the enricher is part of the state: the
watcher writes its table, and the arms of the event loop take the changed processes, look
processes up and evict them. `NodeEvent.Fits` says that what an arm is told is what the enricher
answers; the system underneath makes exactly the steps of `Sys`.

The enricher is only asked for a process when a handle is made for it, when its active memory
changes in a tick, and for the straggler ratio. So neither does a change of a pod reach the
handles by itself, nor does the process of an annotated pod become promoted again. Only the ring
buffer arm drops the handles of the changed processes.

## Key Results
- `changes_reach_labels`: a batch never counts through a handle from before a change, and a tick
  does not if no process it counts for has one
- `stays_promoted_iff`: after a tick the process of an annotated pod is promoted exactly if it was
  before, or the tick looks it up
-/

namespace Profi

variable {n : ℕ}

/-! ## The enricher as the arms use it -/

namespace Enricher

/-- The enricher after `lookup`. A cgroup that cannot be cut ends the profiler; nothing has been
    written then. -/
def lookup (e : Enricher) (cgroup : U32 → Option String) (pid : U32) : Enricher :=
  match e.resolveK8s pid (cgroup pid) with
  | .ok (_, e') => e'
  | .error _ => e

/-- What `lookup` answers about the pod of a process. -/
def answer (e : Enricher) (cgroup : U32 → Option String) (pid : U32) : Option PodInfo :=
  match e.resolveK8s pid (cgroup pid) with
  | .ok (result, _) => result.map (·.toPodInfo)
  | .error _ => none

def lookups (e : Enricher) (cgroup : U32 → Option String) (pids : List U32) : Enricher :=
  pids.foldl (fun e pid => e.lookup cgroup pid) e

/-- The processes a batch finds changed. -/
def announced (e : Enricher) : Finset U32 := if e.hasChanges then e.changedPids else ∅

/-- `std::mem::take(&mut *changed)`. -/
def takeChanges (e : Enricher) : Enricher :=
  if e.announced = ∅ then e else { e with changedPids := ∅, hasChanges := false }

variable (e : Enricher) (cgroup : U32 → Option String) (pid : U32)

/-- A lookup leaves the enricher alone or resolves the process, which was not cached. -/
theorem lookup_cases :
    e.lookup cgroup pid = e ∨
    ∃ text containerId, e.k8sPidCache.lookup pid = none ∧ cgroup pid = some text ∧
      extractContainerId text = .ok containerId ∧
      e.lookup cgroup pid = e.resolved pid containerId := by
  unfold lookup
  split
  next result e' hok =>
    rcases resolveK8s_cases hok with ⟨-, rfl⟩ | ⟨-, -, -, rfl⟩ |
      ⟨text, containerId, hmiss, htext, hid, -, rfl⟩
    · exact .inl rfl
    · exact .inl rfl
    · exact .inr ⟨text, containerId, hmiss, htext, hid, rfl⟩
  · exact .inl rfl

@[simp] theorem lookup_containerMap : (e.lookup cgroup pid).containerMap = e.containerMap := by
  rcases e.lookup_cases cgroup pid with h | ⟨_, _, -, -, -, h⟩ <;> simp [h]

theorem lookup_changes :
    (e.lookup cgroup pid).changedPids = e.changedPids ∧
      (e.lookup cgroup pid).hasChanges = e.hasChanges := by
  rcases e.lookup_cases cgroup pid with h | ⟨_, containerId, -, -, -, h⟩
  · simp [h]
  · rw [h]
    unfold resolved
    rcases promote_cases (e.noteContainer pid containerId) pid
      (containerId.bind e.containerMap.lookup) with ⟨hp, -⟩ | ⟨hp, -⟩ <;> simp [hp]

theorem lookups_changes (pids : List U32) :
    (e.lookups cgroup pids).changedPids = e.changedPids ∧
      (e.lookups cgroup pids).hasChanges = e.hasChanges :=
  ⟨Runs.foldl_frame Enricher.changedPids _ (fun e pid => (e.lookup_changes cgroup pid).1) pids e,
    Runs.foldl_frame Enricher.hasChanges _ (fun e pid => (e.lookup_changes cgroup pid).2) pids e⟩

variable {e cgroup pid}

/-- The lookup of one process says nothing about another. -/
theorem lookup_of_ne {pid' : U32} (hne : pid' ≠ pid) :
    (e.lookup cgroup pid).k8sPidCache.lookup pid' = e.k8sPidCache.lookup pid' ∧
      (pid' ∈ (e.lookup cgroup pid).upgradedPids ↔ pid' ∈ e.upgradedPids) := by
  rcases e.lookup_cases cgroup pid with h | ⟨_, containerId, -, -, -, h⟩
  · simp [h]
  · rw [h, resolved_k8sPidCache, AList.lookup_insert_ne hne, mem_upgradedPids_resolved]
    simp [hne]

/-- A process that is not cached is resolved if its cgroup can be read. -/
theorem lookup_of_miss (hmiss : e.k8sPidCache.lookup pid = none) {text : String}
    (htext : cgroup pid = some text) {containerId : Option String}
    (hid : extractContainerId text = .ok containerId) :
    e.lookup cgroup pid = e.resolved pid containerId := by
  unfold lookup resolveK8s
  simp only [hmiss, htext, hid]
  rfl

/-- Lookups promote the process of a container whose pod asks for it, if the process is among
    them, was not cached, and its cgroup can be read. -/
theorem mem_upgradedPids_lookups {id : String} {info : ContainerInfo}
    (hcgroup : ∀ text, cgroup pid = some text → extractContainerId text = .ok (some id))
    (hinfo : e.containerMap.lookup id = some info) (hup : info.upgrade = true) (pids : List U32) :
    pid ∈ (e.lookups cgroup pids).upgradedPids ↔ pid ∈ e.upgradedPids ∨
      e.k8sPidCache.lookup pid = none ∧ (cgroup pid).isSome = true ∧ pid ∈ pids := by
  -- on the lookups still to come, for any state of the enricher
  induction pids generalizing e with
  | nil => simp [lookups]
  | cons other pids ih =>
    have hinfo' : (e.lookup cgroup other).containerMap.lookup id = some info := by
      rw [lookup_containerMap]
      exact hinfo
    change pid ∈ ((e.lookup cgroup other).lookups cgroup pids).upgradedPids ↔ _
    rw [ih hinfo']
    by_cases hother : pid = other
    · subst hother
      by_cases hmiss : e.k8sPidCache.lookup pid = none ∧ (cgroup pid).isSome = true
      · obtain ⟨text, htext⟩ := Option.isSome_iff_exists.mp hmiss.2
        have hnow : pid ∈ (e.lookup cgroup pid).upgradedPids := by
          rw [lookup_of_miss hmiss.1 htext (hcgroup text htext), mem_upgradedPids_resolved]
          exact .inr ⟨rfl, info, hinfo, hup⟩
        exact iff_of_true (.inl hnow) (.inr ⟨hmiss.1, hmiss.2, List.mem_cons_self⟩)
      · -- a cached answer is given again, and without a cgroup there is none
        have hsame : e.lookup cgroup pid = e := by
          rcases e.lookup_cases cgroup pid with h | ⟨text, _, hnone, htext, -, -⟩
          · exact h
          · exact absurd ⟨hnone, by simp [htext]⟩ hmiss
        rw [hsame]
        exact or_congr Iff.rfl
          ⟨fun h => absurd ⟨h.1, h.2.1⟩ hmiss, fun h => absurd ⟨h.1, h.2.1⟩ hmiss⟩
    · obtain ⟨hcache, hmem⟩ := @lookup_of_ne e cgroup other pid hother
      rw [hcache, hmem, List.mem_cons, or_iff_right hother]

end Enricher

/-! ## Which processes a watch item invalidates -/

namespace Watcher

/-- The processes `invalidate_containers` is called for. -/
def invalidated (w : Watcher) : WatchItem → Finset U32
  | .initDone => if w.running then w.enricher.affectedPids w.removedCids else ∅
  | .apply pod =>
    -- a pod whose ids cannot be cut ends the task before the table is touched
    if w.running ∧ (extractContainersFromPod pod).toOption.isSome then
      w.enricher.affectedPids (w.enricher.cidsOf pod)
    else ∅
  | .delete pod => if w.running then w.enricher.affectedPids (w.enricher.cidsOf pod) else ∅
  | _ => ∅

end Watcher

/-- An invalidation adds the affected processes to the changed ones, and says so. -/
theorem Enricher.invalidateContainers_changes (e : Enricher) (map : FinMap String ContainerInfo)
    (ids : List String) :
    let e' := { e with containerMap := map }.invalidateContainers ids
    e'.changedPids = e.changedPids ∪ e.affectedPids ids ∧
      (e'.hasChanges = true ↔ e.hasChanges = true ∨ e.affectedPids ids ≠ ∅) := by
  have haffected : { e with containerMap := map }.affectedPids ids = e.affectedPids ids := rfl
  unfold invalidateContainers
  simp only [haffected]
  split
  next hnone => simp [hnone]
  next hsome => simp [hsome]

/-- An item that invalidates processes marks them as changed and raises the flag. -/
theorem Watcher.step_changes (w : Watcher) (item : WatchItem) :
    (w.step item).enricher.changedPids = w.enricher.changedPids ∪ w.invalidated item ∧
      ((w.step item).enricher.hasChanges = true ↔
        w.enricher.hasChanges = true ∨ w.invalidated item ≠ ∅) := by
  unfold step
  split
  next hrunning =>
    cases item with
    | initDone =>
      simp only [invalidated, hrunning, ↓reduceIte]
      exact w.enricher.invalidateContainers_changes w.pendingMap w.removedCids
    | apply pod =>
      unfold handle invalidated
      cases hok : extractContainersFromPod pod with
      | ok containers =>
        simp only [hok, hrunning, Except.toOption, Option.isSome_some, and_self, ↓reduceIte]
        exact w.enricher.invalidateContainers_changes _ _
      | error p => simp [hok, stop, Except.toOption]
    | delete pod =>
      simp only [invalidated, hrunning, ↓reduceIte]
      exact w.enricher.invalidateContainers_changes _ _
    | initApply pod =>
      unfold handle invalidated
      simp only
      split <;> simp [stop]
    | init => simp [handle, invalidated]
    | error => simp [handle, invalidated]
    | ended => simp [handle, invalidated, stop]
  next hstopped => cases item <;> simp [invalidated, hstopped]

/-! ## State and steps -/

/-- The profiler with its enricher. `stale` is a record for specifications: the keys of the cached
    handles that were made before the last change of the pod of their process. -/
structure Node (n : ℕ) where
  sys : Sys n
  watcher : Watcher
  stale : Finset MetricKey

/-- A step of the profiler, with the cgroups it can read and the processes the straggler ratio of
    a gc tick is set for; or an item of the watch stream. -/
inductive NodeEvent (n : ℕ) where
  | event (e : Event n) (cgroup : U32 → Option String) (stragglers : List U32)
  | watch (item : WatchItem)

namespace Node

def init (n : ℕ) (args : Args) : Node n := ⟨.init n args, .new, ∅⟩

def enricher (s : Node n) : Enricher := s.watcher.enricher

variable (args : Args)

/-- The keys of the handles an arm counts through, and whether it made them. -/
def answers (s : Node n) (e : Event n) : List (MetricKey × Bool) :=
  Loop.answers args e.env (s.sys.armStart args e) (s.sys.records args e)

/-- The processes an arm looks up. -/
def asked (s : Node n) (e : Event n) (stragglers : List U32) : List U32 :=
  let made := ((s.answers args e).filter (·.2)).map (·.1.pid)
  match e with
  | .aggTick _ => made ++ (s.sys.handled args e).2.keys
  | .gcTick _ => stragglers
  | _ => made

/-- The enricher when an arm begins to look processes up. -/
def enricherAt (s : Node n) : Event n → Enricher
  | .consume _ => s.enricher.takeChanges
  | .aggTick _ => { s.enricher with upgradeDirty := false }
  | .gcTick env =>
    (s.sys.loop.cache.stalePids env.now (args.gcInterval * 1000000000)).foldl Enricher.evictPid
      s.enricher
  | _ => s.enricher

/-- The handles from before a change that an arm still finds. -/
def remaining (s : Node n) (e : Event n) : Finset MetricKey :=
  s.stale.filter (· ∈ (s.sys.armStart args e).cache.handles)

def step (s : Node n) : NodeEvent n → Node n
  | .event e cgroup stragglers =>
    { sys := s.sys.step args e
      watcher :=
        { s.watcher with
          enricher := (s.enricherAt args e).lookups cgroup (s.asked args e stragglers) }
      stale := s.remaining args e }
  | .watch item =>
    { s with
      watcher := s.watcher.step item
      stale := s.stale ∪
        s.sys.loop.cache.handles.keySet.filter (·.pid ∈ s.watcher.invalidated item) }

def run (n : ℕ) (es : List (NodeEvent n)) : Node n := Runs.run (step args) (init n args) es

variable {args}

/-- What an arm is told about the pods is what the enricher answers. -/
def Fits (s : Node n) : NodeEvent n → Prop
  | .event (.consume env) cgroup _ =>
    (∀ pid, env.cacheEnv.resolveK8s pid = s.enricher.answer cgroup pid) ∧
      env.changedPids.toFinset = s.enricher.announced
  | .event (.aggTick env) cgroup _ =>
    (∀ pid, env.cacheEnv.resolveK8s pid = s.enricher.answer cgroup pid) ∧
      env.upgradedPids.map List.toFinset =
        if s.enricher.upgradeDirty then some s.enricher.upgradedPids else none
  | _ => True

/-! ## Pod changes and handles -/

/-- No handle from before a change is counted through. -/
def Relabels (args : Args) (s : Node n) : NodeEvent n → Prop
  | .event e _ _ => ∀ answer ∈ s.answers args e, answer.1 ∉ s.remaining args e
  | .watch _ => True

/-- No process a tick counts for has a handle from before a change. -/
def TicksFresh (args : Args) (s : Node n) : NodeEvent n → Prop
  | .event (.aggTick env) _ _ =>
    ∀ r ∈ tickRecords args env s.sys.bpf, r.request ≠ none → ∀ k ∈ s.stale, k.pid ≠ r.pid
  | _ => True

instance (args : Args) (s : Node n) : ∀ ev, Decidable (Relabels args s ev)
  | .event e _ _ =>
    inferInstanceAs (Decidable (∀ answer ∈ s.answers args e, answer.1 ∉ s.remaining args e))
  | .watch _ => inferInstanceAs (Decidable True)

instance (args : Args) (s : Node n) (ev : NodeEvent n) : Decidable (TicksFresh args s ev) := by
  unfold TicksFresh
  split <;> infer_instance

/-- The handles from before a change are cached, their processes are still to be taken by a batch,
    and the batch is going to see them. -/
structure Pending (s : Node n) : Prop where
  cached : ∀ k ∈ s.stale, k ∈ s.sys.loop.cache.handles
  changed : ∀ k ∈ s.stale, k.pid ∈ s.enricher.changedPids
  announced : s.enricher.changedPids ≠ ∅ → s.enricher.hasChanges = true

/-- A batch finds no handle from before a change. -/
theorem Pending.remaining_consume (args : Args) {s : Node n} (h : s.Pending) {env : LoopEnv}
    {cgroup : U32 → Option String} {stragglers : List U32}
    (hfits : s.Fits (.event (.consume env) cgroup stragglers)) :
    s.remaining args (.consume env) = ∅ := by
  apply Finset.filter_eq_empty_iff.mpr
  intro k hk hin
  have hchanged : k.pid ∈ s.enricher.changedPids := h.changed k hk
  have hannounced : k.pid ∈ env.changedPids := by
    rw [← List.mem_toFinset, hfits.2, Enricher.announced,
      if_pos (h.announced (Finset.ne_empty_of_mem hchanged))]
    exact hchanged
  -- so the handles of its process are dropped
  have hinv : (s.sys.loop.invalidateChanged env).cache =
      (s.sys.loop.cache.invalidatePids env.changedPids s.sys.loop.metrics).2 :=
    congrArg Loop.cache (s.sys.loop.invalidateChanged_eq env)
  change k ∈ (s.sys.loop.invalidateChanged env).cache.handles at hin
  rw [hinv, FinMap.mem_iff_lookup, Cache.lookup_invalidatePids, if_pos hannounced] at hin
  simp at hin

/-- A batch relabels by itself, a tick if the processes it counts for are fresh. -/
theorem Pending.relabels {s : Node n} (h : s.Pending) {ev : NodeEvent n} (hfits : s.Fits ev)
    (hfresh : TicksFresh args s ev) : Relabels args s ev := by
  cases ev with
  | watch item => trivial
  | event e cgroup stragglers =>
    intro answer hanswer hstale
    cases e with
    | consume env =>
      rw [h.remaining_consume args hfits] at hstale
      simp at hstale
    | aggTick env =>
      obtain ⟨r, hr, hrequest, hpid⟩ := Loop.exists_record_of_mem_answers hanswer
      exact hfresh r hr hrequest answer.1 (Finset.mem_filter.mp hstale).1 hpid
    -- the other steps handle no records
    | _ => cases hanswer

theorem evictPid_changes (e : Enricher) (pids : List U32) :
    (pids.foldl Enricher.evictPid e).changedPids = e.changedPids ∧
      (pids.foldl Enricher.evictPid e).hasChanges = e.hasChanges :=
  ⟨Runs.foldl_frame Enricher.changedPids Enricher.evictPid (fun _ _ => rfl) pids e,
    Runs.foldl_frame Enricher.hasChanges Enricher.evictPid (fun _ _ => rfl) pids e⟩

/-- Only a batch takes the changed processes. -/
theorem enricherAt_changes (args : Args) (s : Node n) {e : Event n} (he : ∀ env, e ≠ .consume env) :
    (s.enricherAt args e).changedPids = s.enricher.changedPids ∧
      (s.enricherAt args e).hasChanges = s.enricher.hasChanges := by
  cases e with
  | consume env => exact absurd rfl (he env)
  | gcTick env => exact evictPid_changes _ _
  | _ => exact ⟨rfl, rfl⟩

/-- A watch event tells a batch about the processes whose handles it makes stale. -/
theorem pending_watch {s : Node n} (h : s.Pending) (item : WatchItem) :
    (s.step args (.watch item)).Pending := by
  obtain ⟨hchanged, hhas⟩ := s.watcher.step_changes item
  refine ⟨fun k hk => ?_, fun k hk => ?_, fun hne => ?_⟩
  · rcases Finset.mem_union.mp hk with hold | hnew
    · exact h.cached k hold
    · exact FinMap.mem_keySet.mp (Finset.mem_filter.mp hnew).1
  · change k.pid ∈ (s.watcher.step item).enricher.changedPids
    rw [hchanged, Finset.mem_union]
    rcases Finset.mem_union.mp hk with hold | hnew
    · exact .inl (h.changed k hold)
    · exact .inr (Finset.mem_filter.mp hnew).2
  · change (s.watcher.step item).enricher.hasChanges = true
    change (s.watcher.step item).enricher.changedPids ≠ ∅ at hne
    rw [hhas]
    by_cases hnone : s.watcher.invalidated item = ∅
    · left
      rw [hchanged, hnone, Finset.union_empty] at hne
      exact h.announced hne
    · exact .inr hnone

/-- A batch takes what was announced, and leaves no stale handle. -/
theorem pending_consume {s : Node n} (h : s.Pending) {env : LoopEnv}
    {cgroup : U32 → Option String} {stragglers : List U32}
    (hfits : s.Fits (.event (.consume env) cgroup stragglers)) :
    (s.step args (.event (.consume env) cgroup stragglers)).Pending := by
  obtain ⟨hchanged, hhas⟩ := (s.enricherAt args (.consume env)).lookups_changes cgroup
    (s.asked args (.consume env) stragglers)
  have hnone : ∀ k, k ∉ s.remaining args (.consume env) := by
    rw [h.remaining_consume args hfits]
    exact Finset.notMem_empty
  refine ⟨fun k hk => absurd hk (hnone k), fun k hk => absurd hk (hnone k), fun hne => ?_⟩
  change ((s.enricherAt args (.consume env)).lookups cgroup _).changedPids ≠ ∅ at hne
  change ((s.enricherAt args (.consume env)).lookups cgroup _).hasChanges = true
  rw [hchanged] at hne
  rw [hhas]
  -- a batch that was told nothing leaves the set as it is, any other leaves it empty
  simp only [enricherAt, Enricher.takeChanges] at hne ⊢
  split at hne
  next hempty =>
    rw [if_pos hempty]
    exact h.announced hne
  · exact absurd rfl hne

/-- The other arms take no changes. -/
theorem pending_of_ne {s : Node n} (h : s.Pending) {e : Event n} (he : ∀ env, e ≠ .consume env)
    (cgroup : U32 → Option String) (stragglers : List U32) :
    (s.step args (.event e cgroup stragglers)).Pending := by
  obtain ⟨hchanged, hhas⟩ :=
    (s.enricherAt args e).lookups_changes cgroup (s.asked args e stragglers)
  obtain ⟨hchangedAt, hhasAt⟩ := s.enricherAt_changes args he
  refine ⟨fun k hk => Sys.mem_step_handles (Finset.mem_filter.mp hk).2, fun k hk => ?_,
    fun hne => ?_⟩
  · change k.pid ∈ ((s.enricherAt args e).lookups cgroup _).changedPids
    rw [hchanged, hchangedAt]
    exact h.changed k (Finset.mem_filter.mp hk).1
  · change ((s.enricherAt args e).lookups cgroup _).changedPids ≠ ∅ at hne
    change ((s.enricherAt args e).lookups cgroup _).hasChanges = true
    rw [hchanged, hchangedAt] at hne
    rw [hhas, hhasAt]
    exact h.announced hne

theorem pending_step {s : Node n} (h : s.Pending) {ev : NodeEvent n} (hfits : s.Fits ev) :
    (s.step args ev).Pending := by
  cases ev with
  | watch item => exact pending_watch h item
  | event e cgroup stragglers =>
    by_cases he : ∃ env, e = .consume env
    · obtain ⟨env, rfl⟩ := he
      exact pending_consume h hfits
    · exact pending_of_ne h (fun env henv => he ⟨env, henv⟩) cgroup stragglers

theorem pending_init (n : ℕ) (args : Args) : (init n args).Pending where
  cached k hk := by simp [init] at hk
  changed k hk := by simp [init] at hk
  announced hne := absurd rfl hne

/-- No arm counts through a handle that was made before the last change of the pod of its process,
    in a run in which no tick counts for a process that still has such a handle. -/
theorem changes_reach_labels (args : Args) (es : List (NodeEvent n))
    (hfits : Runs.Along (step args) Fits (init n args) es)
    (hfresh : Runs.Along (step args) (TicksFresh args) (init n args) es) :
    Runs.Along (step args) (Relabels args) (init n args) es := by
  have hall := (hfits.and hfresh).and_invariant (I := Pending)
    (fun s ev h hev => pending_step h hev.1) (pending_init n args)
  exact hall.mono fun s ev h => h.2.relabels h.1.1 h.1.2

/-- The only process whose cgroup can be read is one of the pod "trainer". -/
def trainerCgroup (pid : U32) : Option String :=
  if pid = 7 then some (cgroupOf "aaaaaaaaaaaa") else none

/-- This process copies 64 bytes to the device. -/
def trainerCall (t : U64) : List (NodeEvent 1) :=
  [.event (.enter (.cudaMemcpy 64 1) (Sys.bareCtx 0x700000007 t 0)) trainerCgroup [],
    .event (.ret (Sys.bareCtx 0x700000007 (t + 1) 0)) trainerCgroup []]

/-- What an arm is told when it enumerates the two sets like this. -/
def told (s : Node n) (changedPids : List U32) (upgradedPids : Option (List U32)) : LoopEnv :=
  { LoopEnv.bare with
    cacheEnv :=
      { LoopEnv.bare.cacheEnv with resolveK8s := s.enricher.answer trainerCgroup }
    changedPids
    upgradedPids }

/-- The annotated pod is listed, and its process makes a call. -/
def listedRun : List (NodeEvent 1) :=
  [.watch (.initApply (Watcher.annotatedPod "aaaaaaaaaaaa")), .watch .initDone] ++ trainerCall 1

/-- A tick drains the call, and then the pod is applied again. -/
def appliedRun : List (NodeEvent 1) :=
  listedRun ++ [.event (.aggTick ((run {} 1 listedRun).told [] none)) trainerCgroup [],
    .watch (.apply (Watcher.annotatedPod "aaaaaaaaaaaa"))]

/-- A batch between the change and the next tick makes the process fresh. -/
theorem changes_reach_labels_after_batch :
    let batch := NodeEvent.event (.consume ((run {} 1 appliedRun).told [7] none)) trainerCgroup []
    let s := run {} 1 (appliedRun ++ [batch] ++ trainerCall 3)
    let tick := NodeEvent.event (.aggTick (s.told [] (some []))) trainerCgroup []
    let es := appliedRun ++ [batch] ++ trainerCall 3 ++ [tick]
    Runs.Along (step {}) Fits (init 1 {}) es ∧
      Runs.Along (step {}) (TicksFresh {}) (init 1 {}) es ∧
      Runs.Along (step {}) (Relabels {}) (init 1 {}) es := by
  intro batch s tick es
  have hfits : Runs.Along (step {}) Fits (init 1 {}) es :=
    ⟨trivial, trivial, trivial, trivial, ⟨fun _ => rfl, by decide +kernel⟩, trivial,
      ⟨fun _ => rfl, by decide +kernel⟩, trivial, trivial, ⟨fun _ => rfl, by decide +kernel⟩,
      trivial⟩
  have hfresh : Runs.Along (step {}) (TicksFresh {}) (init 1 {}) es := by decide +kernel
  exact ⟨hfits, hfresh, changes_reach_labels {} es hfits hfresh⟩

/-- Without a batch in between, the tick counts through the handle the first tick has made. -/
theorem stale_labels_counted :
    let s := run {} 1 (appliedRun ++ trainerCall 3)
    let tick := NodeEvent.event (.aggTick (s.told [] (some []))) trainerCgroup []
    Runs.Along (step {}) Fits (init 1 {}) (appliedRun ++ trainerCall 3 ++ [tick]) ∧
      7 ∈ s.enricher.changedPids ∧ ¬Relabels {} s tick := by
  intro s tick
  refine ⟨?_, by decide +kernel, by decide +kernel⟩
  exact ⟨trivial, trivial, trivial, trivial, ⟨fun _ => rfl, by decide +kernel⟩, trivial, trivial,
    trivial, ⟨fun _ => rfl, by decide +kernel⟩, trivial⟩

/-! ## Promotion -/

/-- The cgroup of the process names this container wherever it can be read, and the container
    belongs to a pod that asks for full tracing. -/
def Annotated (p : U32) (id : String) (s : Node n) (ev : NodeEvent n) : Prop :=
  (∀ e cgroup stragglers, ev = .event e cgroup stragglers → ∀ text, cgroup p = some text →
    extractContainerId text = .ok (some id)) ∧
  ∃ info, s.enricher.containerMap.lookup id = some info ∧ info.upgrade = true

/-- After a tick with a row of the process, the process is promoted. -/
def StaysPromoted (args : Args) (p : U32) (s : Node n) : NodeEvent n → Prop
  | .event (.aggTick env) cgroup stragglers =>
    (∃ r ∈ tickRecords args env s.sys.bpf, r.pid = p) →
      p ∈ (s.step args (.event (.aggTick env) cgroup stragglers)).enricher.upgradedPids
  | _ => True

/-- A tick with a row of the process finds it promoted, or looks it up: it is not cached, its
    cgroup can be read, and the tick makes a handle for it or changes its active memory. -/
def LooksUp (args : Args) (p : U32) (s : Node n) : NodeEvent n → Prop
  | .event (.aggTick env) cgroup stragglers =>
    (∃ r ∈ tickRecords args env s.sys.bpf, r.pid = p) →
      p ∈ s.enricher.upgradedPids ∨
        s.enricher.k8sPidCache.lookup p = none ∧ (cgroup p).isSome = true ∧
          p ∈ s.asked args (.aggTick env) stragglers
  | _ => True

instance (args : Args) (p : U32) (s : Node n) (ev : NodeEvent n) :
    Decidable (StaysPromoted args p s ev) := by
  unfold StaysPromoted
  split <;> infer_instance

instance (args : Args) (p : U32) (s : Node n) (ev : NodeEvent n) :
    Decidable (LooksUp args p s ev) := by
  unfold LooksUp
  split <;> infer_instance

/-- While the pod of a process asks for full tracing, the process is promoted after every tick
    with a row of it, exactly if every such tick finds it promoted or looks it up. -/
theorem stays_promoted_iff (args : Args) (p : U32) (id : String) (s : Node n)
    (es : List (NodeEvent n)) (hes : Runs.Along (step args) (Annotated p id) s es) :
    Runs.Along (step args) (StaysPromoted args p) s es ↔
      Runs.Along (step args) (LooksUp args p) s es := by
  refine Runs.along_iff_of_invariant (I := fun _ => True) (fun _ _ _ _ => trivial) ?_ trivial hes
  intro s ev _ hev
  cases ev with
  | watch item => rfl
  | event e cgroup stragglers =>
    cases e with
    | aggTick env =>
      obtain ⟨hcgroup, info, hinfo, hup⟩ := hev
      -- the tick clears the mark before its first lookup
      exact imp_congr_right fun _ => Enricher.mem_upgradedPids_lookups
        (e := { s.enricher with upgradeDirty := false }) (hcgroup _ cgroup stragglers rfl) hinfo hup
        (s.asked args (.aggTick env) stragglers)
    | _ => rfl

/-- The cgroup of the process names the container of the pod "trainer". -/
theorem annotated_trainer {s : Node 1}
    (hup : (s.enricher.containerMap.lookup "aaaaaaaaaaaa").any (·.upgrade) = true)
    {ev : NodeEvent 1} (hev : (∃ item, ev = .watch item) ∨ ∃ e, ev = .event e trainerCgroup []) :
    Annotated 7 "aaaaaaaaaaaa" s ev := by
  refine ⟨fun e cgroup stragglers heq text htext => ?_, ?_⟩
  · rcases hev with ⟨item, rfl⟩ | ⟨e', rfl⟩
    · cases heq
    · cases heq
      cases htext
      decide +kernel
  · cases hinfo : s.enricher.containerMap.lookup "aaaaaaaaaaaa" with
    | none => simp [hinfo] at hup
    | some info =>
      rw [hinfo] at hup
      exact ⟨info, rfl, hup⟩

/-- The first tick makes a handle for the process, and promotes it. -/
theorem stays_promoted_first_tick :
    let s := run {} 1 listedRun
    let es := [NodeEvent.event (.aggTick (s.told [] none)) trainerCgroup []]
    Runs.Along (step {}) (Annotated 7 "aaaaaaaaaaaa") s es ∧
      Runs.Along (step {}) (StaysPromoted {} 7) s es := by
  intro s es
  have hes : Runs.Along (step {}) (Annotated 7 "aaaaaaaaaaaa") s es :=
    ⟨annotated_trainer (by decide +kernel) (.inr ⟨_, rfl⟩), trivial⟩
  exact ⟨hes, (stays_promoted_iff {} 7 "aaaaaaaaaaaa" s es hes).mpr (by decide +kernel)⟩

/-- The annotated pod is applied again, and the next tick finds the handle of the process in the
    cache: it drains the call and does not look the process up. -/
theorem demoted_by_apply :
    let s := run {} 1 (appliedRun ++ trainerCall 3)
    let tick := NodeEvent.event (.aggTick (s.told [] (some []))) trainerCgroup []
    let es := appliedRun ++ trainerCall 3 ++ [tick]
    Runs.Along (step {}) Fits (init 1 {}) es ∧
      Runs.Along (step {}) (Annotated 7 "aaaaaaaaaaaa") (run {} 1 listedRun)
        (es.drop listedRun.length) ∧
      ¬StaysPromoted {} 7 s tick := by
  intro s tick es
  refine ⟨?_, ?_, by decide +kernel⟩
  · exact ⟨trivial, trivial, trivial, trivial, ⟨fun _ => rfl, by decide +kernel⟩, trivial, trivial,
      trivial, ⟨fun _ => rfl, by decide +kernel⟩, trivial⟩
  · exact ⟨annotated_trainer (by decide +kernel) (.inr ⟨_, rfl⟩),
      annotated_trainer (by decide +kernel) (.inl ⟨_, rfl⟩),
      annotated_trainer (by decide +kernel) (.inr ⟨_, rfl⟩),
      annotated_trainer (by decide +kernel) (.inr ⟨_, rfl⟩),
      annotated_trainer (by decide +kernel) (.inr ⟨_, rfl⟩), trivial⟩

end Node

end Profi
