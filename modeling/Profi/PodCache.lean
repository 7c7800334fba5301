import Profi.Lookups

/-!
# Cached Pods and the Container Table

The cache of lookups is to agree with the container table: a process without a pod is one whose
container the table does not have, and a cached pod is the one in the table. Each writer of the
table forgets the processes it thinks are concerned, and two of the three think of too few.

* An applied pod forgets the processes of the containers it had before the event. A process that
  was looked up before its container was in the table stays without a pod
  (`negative_lookups_fresh_iff`).
* A complete list forgets the processes of containers that are gone, and those without a pod. A
  container that is in both lists with other contents is not looked at
  (`positive_lookups_fresh_iff`).

`cid` is the container the cgroup of a process names, and `owner` the pod a container belongs to.
-/

namespace Profi

/-- The cgroup file of a process, if it can be read, names the container `cid`. -/
def CgroupNames (cid : U32 → Option String) (pid : U32) : Option String → Prop
  | some text => extractContainerId text = .ok (cid pid)
  | none => True

instance (cid : U32 → Option String) (pid : U32) : DecidablePred (CgroupNames cid pid)
  | some text => inferInstanceAs (Decidable (extractContainerId text = .ok (cid pid)))
  | none => inferInstanceAs (Decidable True)

/-- The cgroup files that lookups read name the containers `cid`. -/
def EnricherOp.Reads (cid : U32 → Option String) : EnricherOp → Prop
  | .lookup pid cgroup => CgroupNames cid pid cgroup
  | _ => True

instance (cid : U32 → Option String) : DecidablePred (EnricherOp.Reads cid)
  | .lookup pid cgroup => inferInstanceAs (Decidable (CgroupNames cid pid cgroup))
  | .evictPid _ | .watch _ | .takeUpgraded => inferInstanceAs (Decidable True)

namespace Enricher

variable {cid : U32 → Option String} {e e' : Enricher} {pids : Finset U32}

/-- Processes are noted under their own container only. -/
def NotedRight (cid : U32 → Option String) (e : Enricher) : Prop :=
  ∀ pid id, pid ∈ e.pidsOf id → cid pid = some id

/-- Every cached process is noted under its container. -/
def AllNoted (cid : U32 → Option String) (e : Enricher) : Prop :=
  ∀ pid id v, e.k8sPidCache.lookup pid = some v → cid pid = some id → pid ∈ e.pidsOf id

theorem Forgets.pidsOf (h : Forgets pids e e') (id : String) : e'.pidsOf id = e.pidsOf id := by
  unfold Enricher.pidsOf
  rw [h.noted]

theorem Forgets.notedRight (h : Forgets pids e e') (hnoted : e.NotedRight cid) :
    e'.NotedRight cid := by
  intro pid id hpid
  exact hnoted pid id (h.pidsOf id ▸ hpid)

/-- What is cached after some processes are forgotten was cached before. -/
theorem Forgets.lookup_some (h : Forgets pids e e') {pid : U32} {v : Option ContainerInfo} :
    e'.k8sPidCache.lookup pid = some v ↔ e.k8sPidCache.lookup pid = some v ∧ pid ∉ pids := by
  rw [h.cache]
  by_cases hpid : pid ∈ pids
  · simp [hpid]
  · simp [hpid]

theorem Forgets.allNoted (h : Forgets pids e e') (hnoted : e.AllNoted cid) : e'.AllNoted cid := by
  intro pid id v hcached hid
  rw [h.pidsOf]
  exact hnoted pid id v (h.lookup_some.mp hcached).1 hid

/-- The affected processes are those of the containers. -/
theorem NotedRight.id_mem (hnoted : e.NotedRight cid) {ids : List String} {pid : U32} {id : String}
    (hid : cid pid = some id) (hpid : pid ∈ e.affectedPids ids) : id ∈ ids := by
  obtain ⟨id', hmem, hpid⟩ := mem_affectedPids.mp hpid
  have hsame := hid.symm.trans (hnoted pid id' hpid)
  cases hsame
  exact hmem

theorem AllNoted.mem_affectedPids (hnoted : e.AllNoted cid) {ids : List String} {pid : U32}
    {id : String} {v : Option ContainerInfo} (hcached : e.k8sPidCache.lookup pid = some v)
    (hid : cid pid = some id) (hmem : id ∈ ids) : pid ∈ e.affectedPids ids :=
  Enricher.mem_affectedPids.mpr ⟨id, hmem, hnoted pid id v hcached hid⟩

theorem NotedRight.resolved (hnoted : e.NotedRight cid) (pid : U32) :
    (e.resolved pid (cid pid)).NotedRight cid := by
  intro pid' id hpid
  rcases (e.mem_pidsOf_resolved pid (cid pid) pid' id).mp hpid with hold | ⟨rfl, hid⟩
  · exact hnoted pid' id hold
  · exact hid

theorem AllNoted.resolved (hnoted : e.AllNoted cid) (pid : U32) :
    (e.resolved pid (cid pid)).AllNoted cid := by
  intro pid' id v hcached hid
  rw [mem_pidsOf_resolved]
  rw [resolved_k8sPidCache] at hcached
  rcases FinMap.lookup_insert_cases hcached with ⟨rfl, -⟩ | ⟨-, hold⟩
  · exact .inr ⟨rfl, hid⟩
  · exact .inl (hnoted pid' id v hold hid)

theorem not_mem_withoutPod {e : Enricher} {id : String} (h : id ∉ e.containerMap)
    (pod : Pod) : id ∉ e.withoutPod pod := by
  intro hmem
  obtain ⟨info, hinfo⟩ := FinMap.mem_iff_lookup.mp hmem
  exact h (FinMap.mem_iff_lookup.mpr ⟨info, ((e.lookup_withoutPod pod id info).mp hinfo).1⟩)

end Enricher

namespace EnricherState

variable {cid : U32 → Option String} {s : EnricherState}

/-- A lookup changes nothing, or resolves the process with its own container. -/
theorem step_lookup_cases {pid : U32} {cgroup : Option String}
    (hreads : (EnricherOp.lookup pid cgroup).Reads cid) :
    s.step (.lookup pid cgroup) = s ∨
      (s.enricher.k8sPidCache.lookup pid = none ∧
        s.step (.lookup pid cgroup) = s.withEnricher (s.enricher.resolved pid (cid pid))) := by
  unfold step
  simp only
  split
  next result e hok =>
    rcases Enricher.resolveK8s_cases hok with
      ⟨-, rfl⟩ | ⟨-, -, -, rfl⟩ | ⟨text, containerId, hmiss, rfl, htext, -, rfl⟩
    · exact .inl rfl
    · exact .inl rfl
    · have hid : containerId = cid pid := Except.ok.inj (htext.symm.trans hreads)
      subst hid
      exact .inr ⟨hmiss, rfl⟩
  · exact .inl rfl

/-- The tables of noted processes in a run that reads the containers `cid`. -/
structure Noted (cid : U32 → Option String) (s : EnricherState) : Prop where
  right : s.enricher.NotedRight cid
  all : s.enricher.AllNoted cid

theorem noted_step (h : s.Noted cid) {op : EnricherOp} (hreads : op.Reads cid) :
    (s.step op).Noted cid := by
  have hforget : ∀ {pids e'}, Enricher.Forgets pids s.enricher e' →
      e'.NotedRight cid ∧ e'.AllNoted cid :=
    fun hforgets => ⟨hforgets.notedRight h.right, hforgets.allNoted h.all⟩
  cases op with
  | lookup pid cgroup =>
    rcases step_lookup_cases hreads with hsame | ⟨-, hstep⟩
    · exact hsame ▸ h
    · rw [hstep]
      exact ⟨h.right.resolved pid, h.all.resolved pid⟩
  | evictPid pid =>
    obtain ⟨hright, hall⟩ := hforget (s.enricher.evictPid_forgets pid)
    exact ⟨hright, hall⟩
  | watch item =>
    rcases s.watcher.step_cases item with
      ⟨hsame, -⟩ | ⟨-, -, hstep⟩ | ⟨pod, -, -, hstep⟩ | ⟨pod, -, hstep⟩
    · exact ⟨show (s.watcher.step item).enricher.NotedRight cid from hsame ▸ h.right,
        show (s.watcher.step item).enricher.AllNoted cid from hsame ▸ h.all⟩
    · obtain ⟨e, hforgets, heq⟩ := s.watcher.finishInit_forgets
      have hafter : (s.step (.watch item)).enricher = _ :=
        (congrArg Watcher.enricher hstep).trans heq
      obtain ⟨hright, hall⟩ := hforget hforgets
      -- the processes without a pod are dropped from the cache, not from the notes
      refine ⟨hafter ▸ hright, fun pid id v hcached hid => ?_⟩
      rw [hafter] at hcached ⊢
      rw [FinMap.lookup_retain, Option.filter_eq_some_iff] at hcached
      exact hall pid id v hcached.1 hid
    · obtain ⟨hright, hall⟩ := hforget (s.watcher.applyPod_forgets pod pod.containers)
      rw [← hstep] at hright hall
      exact ⟨hright, hall⟩
    · obtain ⟨hright, hall⟩ := hforget (s.watcher.deletePod_forgets pod)
      rw [← hstep] at hright hall
      exact ⟨hright, hall⟩
  | takeUpgraded => exact ⟨h.right, h.all⟩

theorem noted_new : new.Noted cid where
  right pid id hpid := by
    simp [new, enricher, Watcher.new, Enricher.new, Enricher.pidsOf] at hpid
  all pid id v hcached := by
    simp [new, enricher, Watcher.new, Enricher.new] at hcached

/-! ## Processes without a pod -/

/-- No process is cached without a pod while its container is in the table. -/
def NegativeFresh (cid : U32 → Option String) (e : Enricher) : Prop :=
  ∀ pid id, e.k8sPidCache.lookup pid = some none → cid pid = some id → id ∉ e.containerMap

/-- An applied pod has no container of a process that is cached without a pod. -/
def AppliesKnown (cid : U32 → Option String) (s : EnricherState) : EnricherOp → Prop
  | .watch (.apply pod) => s.watcher.running = true → ∀ pid id,
      s.enricher.k8sPidCache.lookup pid = some none → cid pid = some id → id ∉ pod.containers
  | _ => True

/-- A lookup caches the absence of a pod only if it has just found none. -/
theorem NegativeFresh.resolved {e : Enricher} (h : NegativeFresh cid e) (pid : U32) :
    NegativeFresh cid (e.resolved pid (cid pid)) := by
  intro pid' id hcached hid hmem
  rw [Enricher.resolved_containerMap] at hmem
  rw [Enricher.resolved_k8sPidCache] at hcached
  rcases FinMap.lookup_insert_cases hcached with ⟨rfl, hnone⟩ | ⟨-, hold⟩
  · rw [hid, Option.bind_some] at hnone
    obtain ⟨info, hinfo⟩ := FinMap.mem_iff_lookup.mp hmem
    rw [hinfo] at hnone
    cases hnone
  · exact h pid' id hold hid hmem

theorem NegativeFresh.deletePod {w : Watcher} (h : NegativeFresh cid w.enricher) (pod : Pod) :
    NegativeFresh cid (w.deletePod pod).enricher := by
  intro pid id hcached hid
  have hold := ((w.deletePod_forgets pod).lookup_some.mp hcached).1
  rw [Watcher.deletePod_containerMap]
  exact Enricher.not_mem_withoutPod (h pid id hold hid) pod

/-- An applied pod forgets no process that is cached without a pod, so it must not have a
    container of one. -/
theorem negativeFresh_applyPod (h : s.Noted cid) (hfresh : NegativeFresh cid s.enricher)
    (pod : Pod) :
    NegativeFresh cid (s.watcher.applyPod pod pod.containers).enricher ↔
      ∀ pid id, s.enricher.k8sPidCache.lookup pid = some none → cid pid = some id →
        id ∉ pod.containers := by
  have hforgets := s.watcher.applyPod_forgets pod pod.containers
  have hout : ∀ pid id, s.enricher.k8sPidCache.lookup pid = some none → cid pid = some id →
      (id ∈ (s.watcher.applyPod pod pod.containers).enricher.containerMap ↔
        id ∈ pod.containers) := by
    intro pid id hcached hid
    have hnot : id ∉ s.watcher.enricher.withoutPod pod :=
      Enricher.not_mem_withoutPod (hfresh pid id hcached hid) pod
    simp [hnot]
  constructor
  · intro hafter pid id hcached hid hmem
    -- the containers the pod had are in the table, so the process is not forgotten
    have hkept : pid ∉ s.watcher.enricher.affectedPids (s.watcher.enricher.cidsOf pod) := by
      intro haffected
      obtain ⟨info, hinfo, -⟩ := Enricher.mem_cidsOf.mp (h.right.id_mem hid haffected)
      exact hfresh pid id hcached hid (FinMap.mem_iff_lookup.mpr ⟨info, hinfo⟩)
    exact hafter pid id (hforgets.lookup_some.mpr ⟨hcached, hkept⟩) hid
      ((hout pid id hcached hid).mpr hmem)
  · intro hknown pid id hcached hid hmem
    have hbefore := (hforgets.lookup_some.mp hcached).1
    exact hknown pid id hbefore hid ((hout pid id hbefore hid).mp hmem)

/-- Only an applied pod can make a negative answer stale. -/
theorem negativeFresh_step (h : s.Noted cid) {op : EnricherOp} (hreads : op.Reads cid)
    (hfresh : NegativeFresh cid s.enricher) :
    NegativeFresh cid (s.step op).enricher ↔ AppliesKnown cid s op := by
  cases op with
  | lookup pid cgroup =>
    refine iff_of_true ?_ trivial
    rcases step_lookup_cases hreads with hsame | ⟨-, hstep⟩
    · exact hsame ▸ hfresh
    · rw [hstep]
      exact hfresh.resolved pid
  | evictPid pid =>
    refine iff_of_true ?_ trivial
    intro pid' id hcached hid
    exact hfresh pid' id ((s.enricher.evictPid_forgets pid).lookup_some.mp hcached).1 hid
  | watch item =>
    rcases s.watcher.step_cases item with
      ⟨hsame, hcontainers⟩ | ⟨-, rfl, hstep⟩ | ⟨pod, hrunning, rfl, hstep⟩ | ⟨pod, rfl, hstep⟩
    · -- an item without effect, also a pod whose containers are not read
      refine iff_of_true (show NegativeFresh cid (s.watcher.step item).enricher from
        hsame ▸ hfresh) ?_
      cases item with
      | apply pod =>
        intro hrunning pid id _ _
        rw [(hcontainers hrunning).2 pod rfl]
        exact AList.notMem_empty id
      | _ => trivial
    · refine iff_of_true ?_ trivial
      intro pid id hcached
      exact absurd
        ((congrArg (fun w => w.enricher.k8sPidCache.lookup pid) hstep).symm.trans hcached)
        (s.watcher.finishInit_lookup_none pid)
    · change NegativeFresh cid (s.watcher.step (.apply pod)).enricher ↔ _
      rw [hstep, negativeFresh_applyPod h hfresh]
      exact ⟨fun hknown _ => hknown, fun hknown => hknown hrunning⟩
    · refine iff_of_true ?_ trivial
      change NegativeFresh cid (s.watcher.step (.delete pod)).enricher
      rw [hstep]
      exact hfresh.deletePod pod
  | takeUpgraded => exact iff_of_true hfresh trivial

/-- No process is cached without a pod while its container is in the table, in all states of a
    run, exactly if no applied pod brings a container of a process that was looked up before.
    Then every process whose container is in the table gets its pod at the next lookup. -/
theorem negative_lookups_fresh_iff (cid : U32 → Option String) (ops : List EnricherOp)
    (hreads : ∀ op ∈ ops, op.Reads cid) :
    ((∀ n pid id, (run (ops.take n)).enricher.k8sPidCache.lookup pid = some none →
        cid pid = some id → id ∉ (run (ops.take n)).enricher.containerMap) ↔
      Runs.Along step (AppliesKnown cid) new ops) ∧
    (Runs.Along step (AppliesKnown cid) new ops → ∀ n pid id text,
      cid pid = some id → extractContainerId text = .ok (some id) →
      id ∈ (run (ops.take n)).enricher.containerMap →
      ∃ info e, (run (ops.take n)).enricher.resolveK8s pid (some text) = .ok (some info, e)) := by
  have hreads : Runs.Along step (fun _ op => op.Reads cid) new ops :=
    Runs.along_of_forall hreads new
  have hiff := Runs.forall_take_iff_along (I := Noted cid)
    (J := fun s => NegativeFresh cid s.enricher) (fun _ _ h hop => noted_step h hop)
    (fun _ _ h hop hfresh => negativeFresh_step h hop hfresh) noted_new
    (fun _ _ hcached => by simp [new, enricher, Watcher.new, Enricher.new] at hcached) hreads
  refine ⟨hiff, fun hknown n pid id text hid htext hmem => ?_⟩
  have hfresh : NegativeFresh cid (run (ops.take n)).enricher := hiff.mpr hknown n
  obtain ⟨info, hinfo⟩ := FinMap.mem_iff_lookup.mp hmem
  -- a cached answer is not negative, and without one the table is asked
  unfold Enricher.resolveK8s
  cases hcached : (run (ops.take n)).enricher.k8sPidCache.lookup pid with
  | some v =>
    cases v with
    | none => exact absurd hmem (hfresh pid id hcached hid)
    | some info => exact ⟨info, _, rfl⟩
  | none =>
    simp only [htext]
    exact ⟨info, _, by rw [← hinfo]; rfl⟩

/-- A pod is applied after the lookup of another process. -/
theorem negative_lookups_fresh_other_process :
    let cid := fun pid : U32 => if pid = 7 then some "bbbbbbbbbbbb" else some "aaaaaaaaaaaa"
    let ops := [.lookup 7 (some (cgroupOf "bbbbbbbbbbbb")),
      .watch (.apply (Watcher.trainerPod "aaaaaaaaaaaa"))]
    (∀ op ∈ ops, op.Reads cid) ∧
      ∃ info e, (run ops).enricher.resolveK8s 8 (some (cgroupOf "aaaaaaaaaaaa")) =
        .ok (some info, e) := by
  intro cid ops
  have hreads : ∀ op ∈ ops, op.Reads cid := by decide
  refine ⟨hreads, (negative_lookups_fresh_iff cid ops hreads).2 ⟨trivial, ?_, trivial⟩ 2 8
    "aaaaaaaaaaaa" (cgroupOf "aaaaaaaaaaaa") rfl rfl (by decide)⟩
  -- the only process without a pod is in the other container
  intro _ pid id hcached hid
  change (AList.insert 7 none ∅ : FinMap U32 (Option ContainerInfo)).lookup pid = _ at hcached
  rcases FinMap.lookup_insert_cases hcached with ⟨rfl, -⟩ | ⟨-, hold⟩
  · cases hid
    decide
  · cases hold

/-- A process is looked up, and then the pod of its container is applied: the table has the
    container, and the process stays without a pod. -/
theorem negative_lookup_stale :
    let cid := fun _ : U32 => some "aaaaaaaaaaaa"
    let ops := [.lookup 7 (some (cgroupOf "aaaaaaaaaaaa")),
      .watch (.apply (Watcher.trainerPod "aaaaaaaaaaaa"))]
    (∀ op ∈ ops, op.Reads cid) ∧
      (run ops).enricher.k8sPidCache.lookup 7 = some none ∧
      "aaaaaaaaaaaa" ∈ (run ops).enricher.containerMap ∧
      ∃ e, (run ops).enricher.resolveK8s 7 (some (cgroupOf "aaaaaaaaaaaa")) = .ok (none, e) := by
  intro cid ops
  exact ⟨by decide, by decide, by decide, _, rfl⟩

/-! ## Processes with a pod -/

end EnricherState

/-- Every container belongs to one pod, the one `owner` names. -/
def EnricherOp.Owned (owner : String → String × String) : EnricherOp → Prop
  | .watch (.initApply pod) | .watch (.apply pod) => ∀ id ∈ pod.containers, pod.key = owner id
  | _ => True

instance (owner : String → String × String) : DecidablePred (EnricherOp.Owned owner) := fun op => by
  unfold EnricherOp.Owned
  split
  next pod => exact inferInstanceAs (Decidable (∀ id ∈ pod.containers.keys, pod.key = owner id))
  next pod => exact inferInstanceAs (Decidable (∀ id ∈ pod.containers.keys, pod.key = owner id))
  · exact instDecidableTrue

/-- The entries of the table carry the names of their pods. -/
def OwnedMap (owner : String → String × String) (map : FinMap String ContainerInfo) : Prop :=
  ∀ id info, map.lookup id = some info → info.owner = owner id

theorem ownedMap_empty (owner : String → String × String) : OwnedMap owner ∅ := by
  intro id info hinfo
  simp at hinfo

theorem OwnedMap.union {owner : String → String × String}
    {map map' : FinMap String ContainerInfo} (h : OwnedMap owner map) (h' : OwnedMap owner map') :
    OwnedMap owner (map ∪ map') := by
  intro id info hinfo
  rcases AList.mem_lookup_union.mp hinfo with hleft | ⟨-, hright⟩
  · exact h id info hleft
  · exact h' id info hright

theorem OwnedMap.withoutPod {owner : String → String × String} {e : Enricher}
    (h : OwnedMap owner e.containerMap) (pod : Pod) : OwnedMap owner (e.withoutPod pod) :=
  fun id info hinfo => h id info ((e.lookup_withoutPod pod id info).mp hinfo).1

theorem Pod.ownedMap {owner : String → String × String} {pod : Pod}
    (h : ∀ id ∈ pod.containers, pod.key = owner id) : OwnedMap owner pod.containers := by
  intro id info hinfo
  rw [Pod.owner_of_lookup hinfo]
  exact h id (FinMap.mem_iff_lookup.mpr ⟨info, hinfo⟩)

namespace EnricherState

variable {cid : U32 → Option String} {owner : String → String × String} {s : EnricherState}

/-- What a run with the containers `cid` and the pods `owner` keeps. -/
structure Owned (cid : U32 → Option String) (owner : String → String × String)
    (s : EnricherState) : Prop extends s.Noted cid where
  table : OwnedMap owner s.enricher.containerMap
  pending : OwnedMap owner s.watcher.pendingMap

theorem owned_watch (htable : OwnedMap owner s.enricher.containerMap)
    (hpending : OwnedMap owner s.watcher.pendingMap) {item : WatchItem}
    (howned : (EnricherOp.watch item).Owned owner) :
    OwnedMap owner (s.watcher.step item).enricher.containerMap ∧
      OwnedMap owner (s.watcher.step item).pendingMap := by
  unfold Watcher.step
  split
  · cases item with
    | init => exact ⟨htable, ownedMap_empty owner⟩
    | initApply pod =>
      -- an id that cannot be cut stops the watcher, here and below
      unfold Watcher.handle
      simp only
      split
      next containers hok =>
        refine ⟨htable, OwnedMap.union ?_ hpending⟩
        rw [← Pod.containers_of_ok hok]
        exact Pod.ownedMap howned
      · exact ⟨htable, hpending⟩
    | initDone =>
      refine ⟨?_, ownedMap_empty owner⟩
      change OwnedMap owner s.watcher.finishInit.enricher.containerMap
      rw [Watcher.finishInit_containerMap]
      exact hpending
    | apply pod =>
      unfold Watcher.handle
      simp only
      split
      next containers hok =>
        refine ⟨?_, hpending⟩
        rw [Watcher.applyPod_containerMap, ← Pod.containers_of_ok hok]
        exact (Pod.ownedMap howned).union (htable.withoutPod pod)
      · exact ⟨htable, hpending⟩
    | delete pod =>
      refine ⟨?_, hpending⟩
      change OwnedMap owner (s.watcher.deletePod pod).enricher.containerMap
      rw [Watcher.deletePod_containerMap]
      exact htable.withoutPod pod
    | error => exact ⟨htable, hpending⟩
    | ended => exact ⟨htable, hpending⟩
  · exact ⟨htable, hpending⟩

/-- The tables only hold containers of their owners. -/
theorem owned_step (h : s.Owned cid owner) {op : EnricherOp}
    (hop : op.Reads cid ∧ op.Owned owner) : (s.step op).Owned cid owner := by
  suffices htables : OwnedMap owner (s.step op).enricher.containerMap ∧
      OwnedMap owner (s.step op).watcher.pendingMap from
    ⟨noted_step h.toNoted hop.1, htables.1, htables.2⟩
  cases op with
  | lookup pid cgroup =>
    rcases step_lookup_cases hop.1 with hsame | ⟨-, hstep⟩
    · rw [hsame]
      exact ⟨h.table, h.pending⟩
    · rw [hstep]
      refine ⟨?_, h.pending⟩
      change OwnedMap owner (s.enricher.resolved pid (cid pid)).containerMap
      rw [Enricher.resolved_containerMap]
      exact h.table
  | evictPid pid => exact ⟨h.table, h.pending⟩
  | watch item => exact owned_watch h.table h.pending hop.2
  | takeUpgraded => exact ⟨h.table, h.pending⟩

/-- Every cached pod is the one the table has for the container of the process. -/
def PositiveFresh (cid : U32 → Option String) (e : Enricher) : Prop :=
  ∀ pid id info, e.k8sPidCache.lookup pid = some (some info) → cid pid = some id →
    e.containerMap.lookup id = some info

/-- A complete list has the containers of cached processes with the cached contents, or not at
    all. -/
def RelistsSame (cid : U32 → Option String) (s : EnricherState) : EnricherOp → Prop
  | .watch .initDone => s.watcher.running = true → ∀ pid id info,
      s.enricher.k8sPidCache.lookup pid = some (some info) → cid pid = some id →
      ∀ info', s.watcher.pendingMap.lookup id = some info' → info' = info
  | _ => True

/-- A lookup caches what it has just found. -/
theorem PositiveFresh.resolved {e : Enricher} (h : PositiveFresh cid e) (pid : U32) :
    PositiveFresh cid (e.resolved pid (cid pid)) := by
  intro pid' id info hcached hid
  rw [Enricher.resolved_containerMap]
  rw [Enricher.resolved_k8sPidCache] at hcached
  rcases FinMap.lookup_insert_cases hcached with ⟨rfl, hnow⟩ | ⟨-, hold⟩
  · rw [hid, Option.bind_some] at hnow
    exact hnow.symm
  · exact h pid' id info hold hid

/-- Without its entries a pod leaves those of cached processes of other pods. -/
theorem PositiveFresh.lookup_withoutPod (h : s.Noted cid) (hfresh : PositiveFresh cid s.enricher)
    {pod : Pod} {pid : U32} {id : String} {info : ContainerInfo}
    (hcached : s.enricher.k8sPidCache.lookup pid = some (some info))
    (hkept : pid ∉ s.enricher.affectedPids (s.enricher.cidsOf pod)) (hid : cid pid = some id) :
    (s.enricher.withoutPod pod).lookup id = some info := by
  have hinfo := hfresh pid id info hcached hid
  refine (s.enricher.lookup_withoutPod pod id info).mpr ⟨hinfo, fun howner => hkept ?_⟩
  exact h.all.mem_affectedPids hcached hid
    (Enricher.mem_cidsOf.mpr ⟨info, hinfo, howner⟩)

theorem positiveFresh_finishInit (h : s.Noted cid) (hfresh : PositiveFresh cid s.enricher) :
    PositiveFresh cid s.watcher.finishInit.enricher ↔ ∀ pid id info,
      s.enricher.k8sPidCache.lookup pid = some (some info) → cid pid = some id →
      ∀ info', s.watcher.pendingMap.lookup id = some info' → info' = info := by
  constructor
  · intro hafter pid id info hcached hid info' hinfo'
    -- the list has the container, so the process is not forgotten
    have hkept : pid ∉ s.watcher.enricher.affectedPids s.watcher.removedCids := by
      intro haffected
      have hmem := h.right.id_mem hid haffected
      exact ((s.watcher.mem_removedCids).mp hmem).2 (FinMap.mem_iff_lookup.mpr ⟨info', hinfo'⟩)
    have hnow := hafter pid id info (s.watcher.finishInit_lookup_some.mpr ⟨hcached, hkept⟩) hid
    rw [Watcher.finishInit_containerMap, hinfo'] at hnow
    exact Option.some.inj hnow
  · intro hsame pid id info hcached hid
    obtain ⟨hcached, hkept⟩ := s.watcher.finishInit_lookup_some.mp hcached
    rw [Watcher.finishInit_containerMap]
    cases hlisted : s.watcher.pendingMap.lookup id with
    | some info' => rw [hsame pid id info hcached hid info' hlisted]
    | none =>
      have hmem : id ∈ s.watcher.removedCids := by
        refine (s.watcher.mem_removedCids).mpr ⟨?_, ?_⟩
        · exact FinMap.mem_iff_lookup.mpr ⟨info, hfresh pid id info hcached hid⟩
        · intro hin
          obtain ⟨info', hinfo'⟩ := FinMap.mem_iff_lookup.mp hin
          rw [hlisted] at hinfo'
          cases hinfo'
      exact absurd (h.all.mem_affectedPids hcached hid hmem) hkept

theorem positiveFresh_applyPod (h : s.Owned cid owner) (hfresh : PositiveFresh cid s.enricher)
    {pod : Pod} (howned : ∀ id ∈ pod.containers, pod.key = owner id) :
    PositiveFresh cid (s.watcher.applyPod pod pod.containers).enricher := by
  intro pid id info hcached hid
  obtain ⟨hcached, hkept⟩ :=
    (s.watcher.applyPod_forgets pod pod.containers).lookup_some.mp hcached
  have hold := hfresh.lookup_withoutPod h.toNoted hcached hkept hid
  rw [Watcher.applyPod_containerMap]
  refine AList.mem_lookup_union.mpr (.inr ⟨fun hmem => ?_, hold⟩)
  -- the container belongs to the pod that is applied, so it was one of its old ones
  refine ((s.enricher.lookup_withoutPod pod id info).mp hold).2 ?_
  rw [h.table id info (hfresh pid id info hcached hid)]
  exact (howned id hmem).symm

/-- Only the end of a listing can make a positive answer stale. -/
theorem positiveFresh_step (h : s.Owned cid owner) {op : EnricherOp}
    (hop : op.Reads cid ∧ op.Owned owner) (hfresh : PositiveFresh cid s.enricher) :
    PositiveFresh cid (s.step op).enricher ↔ RelistsSame cid s op := by
  cases op with
  | lookup pid cgroup =>
    refine iff_of_true ?_ trivial
    rcases step_lookup_cases hop.1 with hsame | ⟨-, hstep⟩
    · exact hsame ▸ hfresh
    · rw [hstep]
      exact hfresh.resolved pid
  | evictPid pid =>
    refine iff_of_true ?_ trivial
    intro pid' id info hcached hid
    exact hfresh pid' id info ((s.enricher.evictPid_forgets pid).lookup_some.mp hcached).1 hid
  | watch item =>
    rcases s.watcher.step_cases item with
      ⟨hsame, hitem⟩ | ⟨hrunning, rfl, hstep⟩ | ⟨pod, -, rfl, hstep⟩ | ⟨pod, rfl, hstep⟩
    · refine iff_of_true (show PositiveFresh cid (s.watcher.step item).enricher from
        hsame ▸ hfresh) ?_
      cases item with
      | initDone => exact fun hrunning => absurd rfl (hitem hrunning).1
      | _ => trivial
    · change PositiveFresh cid (s.watcher.step .initDone).enricher ↔ _
      rw [hstep, positiveFresh_finishInit h.toNoted hfresh]
      exact ⟨fun hsame _ => hsame, fun hsame => hsame hrunning⟩
    · refine iff_of_true ?_ trivial
      change PositiveFresh cid (s.watcher.step (.apply pod)).enricher
      rw [hstep]
      exact positiveFresh_applyPod h hfresh hop.2
    · refine iff_of_true ?_ trivial
      change PositiveFresh cid (s.watcher.step (.delete pod)).enricher
      rw [hstep]
      intro pid id info hcached hid
      obtain ⟨hcached, hkept⟩ := (s.watcher.deletePod_forgets pod).lookup_some.mp hcached
      rw [Watcher.deletePod_containerMap]
      exact hfresh.lookup_withoutPod h.toNoted hcached hkept hid
  | takeUpgraded => exact iff_of_true hfresh trivial

/-- Every cached pod is the one in the table, in all states of a run, exactly if no complete list
    has the container of a cached process with other contents. -/
theorem positive_lookups_fresh_iff (cid : U32 → Option String) (owner : String → String × String)
    (ops : List EnricherOp) (hreads : ∀ op ∈ ops, op.Reads cid)
    (howned : ∀ op ∈ ops, op.Owned owner) :
    (∀ n pid id info, (run (ops.take n)).enricher.k8sPidCache.lookup pid = some (some info) →
        cid pid = some id →
        (run (ops.take n)).enricher.containerMap.lookup id = some info) ↔
      Runs.Along step (RelistsSame cid) new ops := by
  have hops : Runs.Along step (fun _ op => op.Reads cid ∧ op.Owned owner) new ops :=
    (Runs.along_of_forall hreads new).and (Runs.along_of_forall howned new)
  refine Runs.forall_take_iff_along (I := Owned cid owner)
    (J := fun s => PositiveFresh cid s.enricher) (fun _ _ h hop => owned_step h hop)
    (fun _ _ h hop hfresh => positiveFresh_step h hop hfresh)
    ⟨noted_new, ownedMap_empty owner, ownedMap_empty owner⟩ ?_ hops
  intro pid id info hcached
  simp [new, enricher, Watcher.new, Enricher.new] at hcached

/-- A pod is listed, its process is looked up, and the same list comes again. -/
theorem positive_lookups_fresh_relist :
    let cid := fun _ : U32 => some "aaaaaaaaaaaa"
    let owner := fun _ : String => ("jobs", "trainer")
    let ops := [.watch (.initApply (Watcher.trainerPod "aaaaaaaaaaaa")), .watch .initDone,
      .lookup 7 (some (cgroupOf "aaaaaaaaaaaa")),
      .watch (.initApply (Watcher.trainerPod "aaaaaaaaaaaa")), .watch .initDone]
    ((∀ op ∈ ops, op.Reads cid) ∧ ∀ op ∈ ops, op.Owned owner) ∧
      ∀ info, (run ops).enricher.k8sPidCache.lookup 7 = some (some info) →
        (run ops).enricher.containerMap.lookup "aaaaaaaaaaaa" = some info := by
  intro cid owner ops
  have hreads : ∀ op ∈ ops, op.Reads cid := by decide
  have howned : ∀ op ∈ ops, op.Owned owner := by decide
  refine ⟨⟨hreads, howned⟩, fun info hcached =>
    (positive_lookups_fresh_iff cid owner ops hreads howned).mpr
      ⟨trivial, ?_, trivial, trivial, ?_, trivial⟩ 5 7 "aaaaaaaaaaaa" info hcached rfl⟩
  · -- nothing is cached before the first lookup
    intro _ pid id info hcached
    cases hcached
  · intro _ pid id info hcached hid info' hinfo'
    cases hid
    change (AList.insert 7 (some ⟨⟨"jobs", "trainer", "main"⟩, false⟩) ∅ :
      FinMap U32 (Option ContainerInfo)).lookup pid = _ at hcached
    rcases FinMap.lookup_insert_cases hcached with ⟨-, hinfo⟩ | ⟨-, hold⟩
    · cases hinfo
      exact (Option.some.inj hinfo').symm
    · cases hold

/-- A pod is listed, its process is looked up, and then it is listed with the annotation: the
    cached pod is not promoted, the one in the table is. -/
theorem positive_lookup_stale :
    let cid := fun _ : U32 => some "aaaaaaaaaaaa"
    let owner := fun _ : String => ("jobs", "trainer")
    let ops := [.watch (.initApply (Watcher.trainerPod "aaaaaaaaaaaa")), .watch .initDone,
      .lookup 7 (some (cgroupOf "aaaaaaaaaaaa")),
      .watch .init, .watch (.initApply (Watcher.annotatedPod "aaaaaaaaaaaa")), .watch .initDone]
    ((∀ op ∈ ops, op.Reads cid) ∧ ∀ op ∈ ops, op.Owned owner) ∧
      ((run ops).enricher.k8sPidCache.lookup 7).map (Option.map ContainerInfo.upgrade) =
        some (some false) ∧
      ((run ops).enricher.containerMap.lookup "aaaaaaaaaaaa").map ContainerInfo.upgrade =
        some true := by
  intro cid owner ops
  exact ⟨⟨by decide, by decide⟩, by decide, by decide⟩

end EnricherState

end Profi
