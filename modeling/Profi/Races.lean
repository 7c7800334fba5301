import Profi.PodCache
import Profi.Threads

/-!
# Lookups Racing Updates

A lookup loads the pod of a process from the table, and stores it in the cache some steps later;
an update patches the table, and clears the cache some steps later. If the lookup stores after
the cache was cleared what it loaded before the table was patched, nobody corrects it
(`overtaken_lookup`). The same holds for the promotion: if the watcher clears the cache, the
lookup promotes and stores, and then the watcher removes the promotion, it is lost.

What the watcher is still going to do is a set of processes in each of its states (`willClear`,
`willDemote`). A lookup is in time if the watcher is still going to clear what it stores, or else
the table still has it and the promotion is there to stay (`InTime`). If all lookups are in time,
then the cache, the table and the promoted processes agree whenever both threads are done
(`races_settle`), whatever the interleaving.
-/

namespace Profi

/-- The cgroup files that resolutions read name the containers `cid`. -/
def Move.Reads (cid : U32 → Option String) : Move → Prop
  | .resolve pid cgroup => CgroupNames cid pid cgroup
  | _ => True

/-- The watcher gets single pods only. -/
def Move.Updates : Move → Prop
  | .item (.apply _) | .item (.delete _) => True
  | .item _ => False
  | _ => True

namespace Threads

variable {cid : U32 → Option String} {s s' : Threads}

/-! ## What the threads are going to do -/

/-- The processes the watcher is going to remove from the cache. -/
def willClear (e : Enricher) : WatchAt → Finset U32
  | .invalidating cids _ => e.affectedPids cids
  | .affected pids _ => pids
  | _ => ∅

/-- The processes the watcher is going to remove from the promoted ones. -/
def willDemote (e : Enricher) : WatchAt → Finset U32
  | .cleared pids _ => pids
  | watchAt => willClear e watchAt

/-- The event loop is going to store the pod of the promoted process, or to demote it. -/
def Loose (pid : U32) : LoopAt → Prop
  | .promoted pid' (some info) | .storing pid' (some info) => pid = pid' ∧ info.upgrade = true
  | .uncached pid' => pid = pid'
  | _ => False

/-- What the event loop relies on: the process it looks up or evicts is not cached, and a lookup
    has its own container, under which the process is noted when it is stored. -/
def LoopOk (cid : U32 → Option String) (e : Enricher) : LoopAt → Prop
  | .missed pid cgroup =>
    e.k8sPidCache.lookup pid = none ∧ ∀ text, cgroup = some text →
      extractContainerId text = .ok (cid pid)
  | .loaded pid containerId _ => e.k8sPidCache.lookup pid = none ∧ containerId = cid pid
  | .noted pid _ | .promoted pid _ | .storing pid _ =>
    e.k8sPidCache.lookup pid = none ∧ ∀ id, cid pid = some id → pid ∈ e.pidsOf id
  | .uncached pid => e.k8sPidCache.lookup pid = none
  | _ => True

/-- What the watcher relies on: the containers that are about to be replaced are old ones of the
    pod. -/
def WatchOk (e : Enricher) : WatchAt → Prop
  | .scanned cids containers => ∀ id ∈ containers, id ∈ e.containerMap → id ∈ cids
  | _ => True

/-- The table has this pod for the container of the process. -/
def Current (cid : U32 → Option String) (e : Enricher) (pid : U32) (info : ContainerInfo) : Prop :=
  ∃ id, cid pid = some id ∧ e.containerMap.lookup id = some info

/-- A pod is stored in time, and no pod takes over a container of another one. -/
def InTime (cid : U32 → Option String) (s : Threads) : Move → Prop
  | .loopNext =>
    match s.loopAt with
    | .storing pid (some info) =>
      pid ∈ willClear s.enricher s.watchAt ∨
        (Current cid s.enricher pid info ∧ (info.upgrade = true →
          pid ∈ s.enricher.upgradedPids ∧ pid ∉ willDemote s.enricher s.watchAt))
    | _ => True
  | .item (.apply pod) => ∀ id ∈ pod.containers.keys, ∀ info ∈ s.enricher.containerMap.lookup id,
      info.owner = pod.key
  | _ => True

instance (cid : U32 → Option String) (e : Enricher) (pid : U32) (info : ContainerInfo) :
    Decidable (Current cid e pid info) :=
  decidable_of_iff ((cid pid).bind e.containerMap.lookup = some info) Option.bind_eq_some_iff

instance (cid : U32 → Option String) (s : Threads) : DecidablePred (InTime cid s) := fun move => by
  unfold InTime
  split
  · split <;> infer_instance
  · infer_instance
  · infer_instance

/-! ## What every state keeps -/

/-- The cache, the table and the promoted processes agree, but for what the threads are going to
    do. -/
structure Coherent (cid : U32 → Option String) (s : Threads) : Prop where
  noted : s.enricher.AllNoted cid
  loop : LoopOk cid s.enricher s.loopAt
  watch : WatchOk s.enricher s.watchAt
  current : ∀ pid info, s.enricher.k8sPidCache.lookup pid = some (some info) →
    pid ∈ willClear s.enricher s.watchAt ∨ Current cid s.enricher pid info
  promoted : ∀ pid info, s.enricher.k8sPidCache.lookup pid = some (some info) →
    info.upgrade = true → pid ∈ willClear s.enricher s.watchAt ∨
      (pid ∈ s.enricher.upgradedPids ∧ pid ∉ willDemote s.enricher s.watchAt)
  demoted : ∀ pid, pid ∈ s.enricher.upgradedPids →
    (∃ info, s.enricher.k8sPidCache.lookup pid = some (some info) ∧ info.upgrade = true) ∨
      pid ∈ willDemote s.enricher s.watchAt ∨ Loose pid s.loopAt

/-- Both threads are done, and everything agrees. -/
structure Settled (cid : U32 → Option String) (s : Threads) : Prop where
  loopAt : s.loopAt = .idle
  watchAt : s.watchAt = .idle
  noted : s.enricher.AllNoted cid
  current : ∀ pid info, s.enricher.k8sPidCache.lookup pid = some (some info) →
    Current cid s.enricher pid info
  tracked : s.enricher.Tracked

theorem Settled.coherent (h : s.Settled cid) : s.Coherent cid where
  noted := h.noted
  loop := by
    rw [h.loopAt]
    trivial
  watch := by
    rw [h.watchAt]
    trivial
  current pid info hcached := .inr (h.current pid info hcached)
  promoted pid info hcached hupgrade := by
    refine .inr ⟨(h.tracked pid).mpr ⟨info, hcached, hupgrade⟩, ?_⟩
    rw [h.watchAt]
    exact Finset.notMem_empty pid
  demoted pid hpid := .inl ((h.tracked pid).mp hpid)

theorem Coherent.settled (h : s.Coherent cid) (hloop : s.loopAt = .idle)
    (hwatch : s.watchAt = .idle) : s.Settled cid where
  loopAt := hloop
  watchAt := hwatch
  noted := h.noted
  current pid info hcached := by
    rcases h.current pid info hcached with hclear | hcurrent
    · simp [hwatch, willClear] at hclear
    · exact hcurrent
  tracked pid := by
    constructor
    · intro hpid
      rcases h.demoted pid hpid with hcached | hdemote | hloose
      · exact hcached
      · simp [hwatch, willDemote, willClear] at hdemote
      · simp [hloop, Loose] at hloose
    · rintro ⟨info, hcached, hupgrade⟩
      rcases h.promoted pid info hcached hupgrade with hclear | ⟨hpid, -⟩
      · simp [hwatch, willClear] at hclear
      · exact hpid

/-! ## Steps that leave the tables alone -/

theorem willDemote_finished (e : Enricher) (relist : Bool) :
    willClear e (.finished relist) = ∅ ∧ willDemote e (.finished relist) = ∅ := by
  cases relist <;> exact ⟨rfl, rfl⟩

theorem Coherent.congr (h : s.Coherent cid) (henricher : s'.enricher = s.enricher)
    (hloop : s'.loopAt = s.loopAt) (hwatch : s'.watchAt = s.watchAt) : s'.Coherent cid := by
  obtain ⟨hnoted, hloopOk, hwatchOk, hcurrent, hpromoted, hdemoted⟩ := h
  rw [← henricher] at hnoted hloopOk hwatchOk hcurrent hpromoted hdemoted
  rw [← hloop] at hloopOk hdemoted
  rw [← hwatch] at hwatchOk hcurrent hpromoted hdemoted
  exact ⟨hnoted, hloopOk, hwatchOk, hcurrent, hpromoted, hdemoted⟩

section Frames

variable (h : s.Coherent cid) (changedPids : Finset U32) (hasChanges upgradeDirty : Bool)
include h

/-- The event loop goes on without writing to the tables. -/
theorem Coherent.loopTo {loopAt : LoopAt} (hloop : LoopOk cid s.enricher loopAt)
    (hloose : ∀ pid, pid ∈ s.enricher.upgradedPids → Loose pid s.loopAt → Loose pid loopAt) :
    (s.loopTo { s.enricher with changedPids, hasChanges, upgradeDirty } loopAt).Coherent cid := by
  refine ⟨h.noted, hloop, h.watch, h.current, h.promoted, fun pid hpid => ?_⟩
  rcases h.demoted pid hpid with hcached | hdemote | hbefore
  · exact .inl hcached
  · exact .inr (.inl hdemote)
  · exact .inr (.inr (hloose pid hpid hbefore))

/-- The watcher goes on without writing to the tables. -/
theorem Coherent.watchTo {watchAt : WatchAt} (hwatch : WatchOk s.enricher watchAt)
    (hclear : willClear s.enricher watchAt = willClear s.enricher s.watchAt)
    (hdemote : willDemote s.enricher watchAt = willDemote s.enricher s.watchAt) :
    (s.watchTo { s.enricher with changedPids, hasChanges, upgradeDirty } watchAt).Coherent cid := by
  refine ⟨h.noted, h.loop, hwatch, fun pid info hcached => ?_, fun pid info hcached hup => ?_,
    fun pid hpid => ?_⟩
  · have hcurrent := h.current pid info hcached
    rw [← hclear] at hcurrent
    exact hcurrent
  · have hpromoted := h.promoted pid info hcached hup
    rw [← hclear, ← hdemote] at hpromoted
    exact hpromoted
  · have hdemoted := h.demoted pid hpid
    rw [← hdemote] at hdemoted
    exact hdemoted

/-- The watcher is done with an item once it has nothing to take back. -/
theorem Coherent.finish (relist : Bool) (hclear : willClear s.enricher s.watchAt = ∅)
    (hdemote : willDemote s.enricher s.watchAt = ∅) :
    (s.watchTo { s.enricher with changedPids, hasChanges, upgradeDirty }
      (.finished relist)).Coherent cid := by
  obtain ⟨hclear', hdemote'⟩ := willDemote_finished s.enricher relist
  refine h.watchTo _ _ _ ?_ (hclear'.trans hclear.symm) (hdemote'.trans hdemote.symm)
  cases relist <;> trivial

end Frames

/-! ## Steps of a lookup -/

variable {pid : U32} {e e' : Enricher}

theorem LoopOk.mono {loopAt : LoopAt} (h : LoopOk cid e loopAt)
    (hcache : ∀ pid, e.k8sPidCache.lookup pid = none → e'.k8sPidCache.lookup pid = none)
    (hnoted : ∀ pid id, pid ∈ e.pidsOf id → pid ∈ e'.pidsOf id) : LoopOk cid e' loopAt := by
  cases loopAt with
  | missed pid cgroup => exact ⟨hcache pid h.1, h.2⟩
  | loaded pid containerId result => exact ⟨hcache pid h.1, h.2⟩
  | noted pid result | promoted pid result | storing pid result =>
    exact ⟨hcache pid h.1, fun id hid => hnoted pid id (h.2 id hid)⟩
  | uncached pid => exact hcache pid h
  | _ => trivial

theorem willClear_mono (hnoted : ∀ pid id, pid ∈ e.pidsOf id → pid ∈ e'.pidsOf id)
    (watchAt : WatchAt) : willClear e watchAt ⊆ willClear e' watchAt := by
  intro pid hpid
  cases watchAt with
  | invalidating cids relist =>
    obtain ⟨id, hid, hpid⟩ := Enricher.mem_affectedPids.mp hpid
    exact Enricher.mem_affectedPids.mpr ⟨id, hid, hnoted pid id hpid⟩
  | affected pids relist => exact hpid
  | _ => cases hpid

theorem willDemote_mono (hnoted : ∀ pid id, pid ∈ e.pidsOf id → pid ∈ e'.pidsOf id)
    (watchAt : WatchAt) : willDemote e watchAt ⊆ willDemote e' watchAt := by
  cases watchAt with
  | cleared pids relist => exact Finset.Subset.refl pids
  | _ => exact willClear_mono hnoted _

/-- Who is going to be demoted only now is going to be cleared too. -/
theorem mem_willClear_of_willDemote {e : Enricher} (e' : Enricher) {watchAt : WatchAt}
    (hnow : pid ∈ willDemote e' watchAt) (hbefore : pid ∉ willDemote e watchAt) :
    pid ∈ willClear e' watchAt := by
  cases watchAt with
  | cleared pids relist => exact absurd hnow hbefore
  | _ => exact hnow

theorem Coherent.note (h : s.Coherent cid) {containerId : Option String}
    {result : Option ContainerInfo} (hat : s.loopAt = .loaded pid containerId result) :
    (s.loopTo (s.enricher.noteContainer pid containerId) (.noted pid result)).Coherent cid := by
  have hloop := h.loop
  rw [hat] at hloop
  have hmono : ∀ pid' id, pid' ∈ s.enricher.pidsOf id →
      pid' ∈ (s.enricher.noteContainer pid containerId).pidsOf id := fun pid' id hpid =>
    (Enricher.mem_pidsOf_noteContainer _ _ _ _ _).mpr (.inl hpid)
  -- the note can only add to what the watcher is going to do
  have hclear := willClear_mono hmono s.watchAt
  refine ⟨fun pid' id v hcached hid => ?_, ⟨?_, fun id hid => ?_⟩, ?_, fun pid' info hcached => ?_,
    fun pid' info hcached hup => ?_, fun pid' hpid => ?_⟩
  · rw [loopTo_enricher, Enricher.noteContainer_k8sPidCache] at hcached
    exact hmono pid' id (h.noted pid' id v hcached hid)
  · rw [loopTo_enricher, Enricher.noteContainer_k8sPidCache]
    exact hloop.1
  · exact (Enricher.mem_pidsOf_noteContainer _ _ _ _ _).mpr (.inr ⟨rfl, hloop.2.trans hid⟩)
  · have hwatch := h.watch
    unfold WatchOk at hwatch ⊢
    rw [loopTo_enricher, loopTo_watchAt, Enricher.noteContainer_containerMap]
    exact hwatch
  · rw [loopTo_enricher, Enricher.noteContainer_k8sPidCache] at hcached
    unfold Current
    rw [loopTo_enricher, Enricher.noteContainer_containerMap]
    exact (h.current pid' info hcached).imp (fun hpid => hclear hpid) id
  · rw [loopTo_enricher, Enricher.noteContainer_k8sPidCache] at hcached
    rw [loopTo_enricher, Enricher.noteContainer_upgradedPids, loopTo_watchAt]
    rcases h.promoted pid' info hcached hup with hold | ⟨hin, hstays⟩
    · exact .inl (hclear hold)
    · -- a process that is noted now may have become one to clear, and then to demote
      by_cases hnew : pid' ∈ willDemote (s.enricher.noteContainer pid containerId) s.watchAt
      · exact .inl (mem_willClear_of_willDemote _ hnew hstays)
      · exact .inr ⟨hin, hnew⟩
  · rw [loopTo_enricher, Enricher.noteContainer_upgradedPids] at hpid
    rw [loopTo_enricher, Enricher.noteContainer_k8sPidCache, loopTo_watchAt]
    rcases h.demoted pid' hpid with hcached | hdemote | hloose
    · exact .inl hcached
    · exact .inr (.inl (willDemote_mono hmono s.watchAt hdemote))
    · rw [hat] at hloose
      cases hloose

theorem Coherent.promote (h : s.Coherent cid) {info : ContainerInfo}
    (hat : s.loopAt = .noted pid (some info)) (hupgrade : info.upgrade = true) :
    (s.loopTo { s.enricher with upgradedPids := insert pid s.enricher.upgradedPids }
      (.promoted pid (some info))).Coherent cid := by
  have hloop := h.loop
  rw [hat] at hloop
  refine ⟨h.noted, hloop, h.watch, h.current, fun pid' info' hcached hup => ?_, fun pid' hpid => ?_⟩
  · rcases h.promoted pid' info' hcached hup with hclear | ⟨hin, hstays⟩
    · exact .inl hclear
    · exact .inr ⟨Finset.mem_insert_of_mem hin, hstays⟩
  · rcases Finset.mem_insert.mp hpid with rfl | hold
    · exact .inr (.inr ⟨rfl, hupgrade⟩)
    · rcases h.demoted pid' hold with hcached | hdemote | hloose
      · exact .inl hcached
      · exact .inr (.inl hdemote)
      · rw [hat] at hloose
        cases hloose

/-- The result of a lookup is stored, in time. -/
theorem Coherent.store (h : s.Coherent cid) {result : Option ContainerInfo}
    (hat : s.loopAt = .storing pid result) (htime : s.InTime cid .loopNext) :
    (s.loopTo { s.enricher with k8sPidCache := s.enricher.k8sPidCache.insert pid result }
      .idle).Coherent cid := by
  have hloop := h.loop
  rw [hat] at hloop
  simp only [InTime, hat] at htime
  refine ⟨fun pid' id v hcached hid => ?_, trivial, h.watch, fun pid' info hcached => ?_,
    fun pid' info hcached hup => ?_, fun pid' hpid => ?_⟩
  · rcases FinMap.lookup_insert_cases hcached with ⟨rfl, -⟩ | ⟨-, hold⟩
    · exact hloop.2 id hid
    · exact h.noted pid' id v hold hid
  · rcases FinMap.lookup_insert_cases hcached with ⟨rfl, hnow⟩ | ⟨-, hold⟩
    · subst hnow
      exact htime.imp id And.left
    · exact h.current pid' info hold
  · rcases FinMap.lookup_insert_cases hcached with ⟨rfl, hnow⟩ | ⟨-, hold⟩
    · subst hnow
      exact htime.imp id fun hcurrent => hcurrent.2 hup
    · exact h.promoted pid' info hold hup
  · rcases h.demoted pid' hpid with ⟨info, hcached, hup⟩ | hdemote | hloose
    · refine .inl ⟨info, ?_, hup⟩
      -- the process that is stored was not cached
      have hne : pid' ≠ pid := by
        rintro rfl
        rw [hloop.1] at hcached
        cases hcached
      exact (AList.lookup_insert_ne hne).trans hcached
    · exact .inr (.inl hdemote)
    · rw [hat] at hloose
      cases result with
      | none => cases hloose
      | some info =>
        obtain ⟨rfl, hup⟩ := hloose
        exact .inl ⟨info, AList.lookup_insert _, hup⟩

/-! ## Steps of an eviction -/

/-- An eviction first drops the cached answer. -/
theorem Coherent.uncache (h : s.Coherent cid) (hat : s.loopAt = .idle) (pid : U32) :
    (s.loopTo { s.enricher with k8sPidCache := s.enricher.k8sPidCache.erase pid }
      (.uncached pid)).Coherent cid := by
  have hold : ∀ {pid' v}, (s.enricher.k8sPidCache.erase pid).lookup pid' = some v →
      s.enricher.k8sPidCache.lookup pid' = some v := by
    intro pid' v hcached
    rw [FinMap.lookup_erase_eq_ite] at hcached
    split at hcached
    · cases hcached
    · exact hcached
  refine ⟨fun pid' id v hcached => h.noted pid' id v (hold hcached), AList.lookup_erase _ _,
    h.watch, fun pid' info hcached => h.current pid' info (hold hcached),
    fun pid' info hcached => h.promoted pid' info (hold hcached), fun pid' hpid => ?_⟩
  by_cases hsame : pid' = pid
  · exact .inr (.inr hsame)
  · rcases h.demoted pid' hpid with ⟨info, hcached, hup⟩ | hdemote | hloose
    · exact .inl ⟨info, (AList.lookup_erase_ne hsame).trans hcached, hup⟩
    · exact .inr (.inl hdemote)
    · rw [hat] at hloose
      cases hloose

theorem Coherent.demote (h : s.Coherent cid) (hat : s.loopAt = .uncached pid) :
    (s.loopTo { s.enricher with upgradedPids := s.enricher.upgradedPids.erase pid }
      .demoted).Coherent cid := by
  have hloop := h.loop
  rw [hat] at hloop
  refine ⟨h.noted, trivial, h.watch, h.current, fun pid' info hcached hup => ?_,
    fun pid' hpid => ?_⟩
  · refine (h.promoted pid' info hcached hup).imp id fun ⟨hin, hstays⟩ => ⟨?_, hstays⟩
    refine Finset.mem_erase.mpr ⟨?_, hin⟩
    rintro rfl
    cases hloop.symm.trans hcached
  · obtain ⟨hne, hin⟩ := Finset.mem_erase.mp hpid
    rcases h.demoted pid' hin with hcached | hdemote | hloose
    · exact .inl hcached
    · exact .inr (.inl hdemote)
    · rw [hat] at hloose
      exact absurd hloose hne

/-! ## Steps of an update -/

/-- The containers that are patched are those whose processes are cleared next. -/
theorem Coherent.patch (h : s.Coherent cid) {cids : List String}
    {containers : FinMap String ContainerInfo} (hat : s.watchAt = .scanned cids containers) :
    (s.watchTo
      { s.enricher with containerMap :=
          containers ∪ cids.foldl (fun map cid => map.erase cid) s.enricher.containerMap }
      (.invalidating cids false)).Coherent cid := by
  have hwatch := h.watch
  rw [hat] at hwatch
  have hidle : ∀ pid, pid ∉ willClear s.enricher s.watchAt ∧
      pid ∉ willDemote s.enricher s.watchAt := by
    intro pid
    rw [hat]
    exact ⟨Finset.notMem_empty pid, Finset.notMem_empty pid⟩
  refine ⟨h.noted, h.loop, trivial, fun pid info hcached => ?_, fun pid info hcached hup => ?_,
    fun pid hpid => ?_⟩
  · obtain ⟨id, hid, hinfo⟩ := (h.current pid info hcached).resolve_left (hidle pid).1
    -- an entry is replaced only under an id whose processes are cleared next
    by_cases hold : id ∈ cids
    · exact .inl (h.noted.mem_affectedPids hcached hid hold)
    · refine .inr ⟨id, hid, ?_⟩
      have hnew : id ∉ containers := fun hmem =>
        hold (hwatch id hmem (FinMap.mem_iff_lookup.mpr ⟨info, hinfo⟩))
      refine AList.mem_lookup_union.mpr (.inr ⟨hnew, ?_⟩)
      rw [Option.mem_def, FinMap.lookup_foldl_erase, if_neg hold]
      exact hinfo
  · obtain ⟨hin, -⟩ := (h.promoted pid info hcached hup).resolve_left (hidle pid).1
    by_cases hclear : pid ∈ s.enricher.affectedPids cids
    · exact .inl hclear
    · exact .inr ⟨hin, hclear⟩
  · rcases h.demoted pid hpid with hcached | hdemote | hloose
    · exact .inl hcached
    · exact absurd hdemote (hidle pid).2
    · exact .inr (.inr hloose)

/-- The affected lose their answers, and the promoted of them are still to be demoted. -/
theorem Coherent.clear (h : s.Coherent cid) {pids : Finset U32} {relist : Bool}
    (hat : s.watchAt = .affected pids relist) :
    (s.watchTo
      { s.enricher with k8sPidCache := s.enricher.k8sPidCache.retain fun pid _ => pid ∉ pids }
      (.cleared pids relist)).Coherent cid := by
  have hold : ∀ {pid v},
      (s.enricher.k8sPidCache.retain fun pid _ => pid ∉ pids).lookup pid = some v ↔
        s.enricher.k8sPidCache.lookup pid = some v ∧ pid ∉ pids := by
    intro pid v
    rw [Enricher.lookup_retain_notMem]
    by_cases hpid : pid ∈ pids
    · simp [hpid]
    · simp [hpid]
  have hcurrent := h.current
  have hpromoted := h.promoted
  have hdemoted := h.demoted
  rw [hat] at hcurrent hpromoted hdemoted
  refine ⟨fun pid id v hcached => h.noted pid id v (hold.mp hcached).1,
    h.loop.mono (fun pid hnone => ?_) fun _ _ hpid => hpid, trivial,
    fun pid info hcached => ?_, fun pid info hcached hup => ?_, fun pid hpid => ?_⟩
  · change (s.enricher.k8sPidCache.retain fun pid _ => pid ∉ pids).lookup pid = none
    rw [Enricher.lookup_retain_notMem, hnone, ite_self]
  · obtain ⟨hcached, hkept⟩ := hold.mp hcached
    exact .inr ((hcurrent pid info hcached).resolve_left hkept)
  · obtain ⟨hcached, hkept⟩ := hold.mp hcached
    exact .inr ((hpromoted pid info hcached hup).resolve_left hkept)
  · by_cases hclear : pid ∈ pids
    · exact .inr (.inl hclear)
    · rcases hdemoted pid hpid with ⟨info, hcached, hup⟩ | hdemote | hloose
      · exact .inl ⟨info, hold.mpr ⟨hcached, hclear⟩, hup⟩
      · exact absurd hdemote hclear
      · exact .inr (.inr hloose)

theorem Coherent.remove (h : s.Coherent cid) {pids : Finset U32} {relist : Bool}
    (hat : s.watchAt = .cleared pids relist) (shrunk : Bool) :
    (s.watchTo { s.enricher with upgradedPids := s.enricher.upgradedPids \ pids }
      (.removed pids shrunk relist)).Coherent cid := by
  have hcurrent := h.current
  have hpromoted := h.promoted
  have hdemoted := h.demoted
  rw [hat] at hcurrent hpromoted hdemoted
  refine ⟨h.noted, h.loop, trivial, hcurrent, fun pid info hcached hup => ?_, fun pid hpid => ?_⟩
  · obtain ⟨hin, hstays⟩ :=
      (hpromoted pid info hcached hup).resolve_left (Finset.notMem_empty pid)
    exact .inr ⟨Finset.mem_sdiff.mpr ⟨hin, hstays⟩, Finset.notMem_empty pid⟩
  · obtain ⟨hin, hout⟩ := Finset.mem_sdiff.mp hpid
    rcases hdemoted pid hin with hcached | hdemote | hloose
    · exact .inl hcached
    · exact absurd hdemote hout
    · exact .inr (.inr hloose)

/-- After a listing the negative answers go, which promote nobody. -/
theorem Coherent.dropNone (h : s.Coherent cid) (hat : s.watchAt = .relisting) :
    Coherent cid
      { s.watchTo { s.enricher with
          k8sPidCache := s.enricher.k8sPidCache.retain fun _ v => v.isSome } .idle with
        watcher.pendingMap := ∅ } := by
  have hold : ∀ {pid v}, (s.enricher.k8sPidCache.retain fun _ v => v.isSome).lookup pid = some v ↔
      s.enricher.k8sPidCache.lookup pid = some v ∧ v.isSome = true := by
    intro pid v
    rw [FinMap.lookup_retain, Option.filter_eq_some_iff]
  have hcurrent := h.current
  have hpromoted := h.promoted
  have hdemoted := h.demoted
  rw [hat] at hcurrent hpromoted hdemoted
  refine ⟨fun pid id v hcached => h.noted pid id v (hold.mp hcached).1,
    h.loop.mono (fun pid hnone => ?_) fun _ _ hpid => hpid, trivial,
    fun pid info hcached => hcurrent pid info (hold.mp hcached).1,
    fun pid info hcached => hpromoted pid info (hold.mp hcached).1, fun pid hpid => ?_⟩
  · change (s.enricher.k8sPidCache.retain fun _ v => v.isSome).lookup pid = none
    rw [FinMap.lookup_retain, hnone]
    rfl
  · refine (hdemoted pid hpid).imp (fun ⟨info, hcached, hup⟩ => ⟨info, ?_, hup⟩) id
    exact hold.mpr ⟨hcached, rfl⟩

/-! ## Any interleaving -/

theorem coherent_step {move : Move} (h : s.Coherent cid) (hreads : move.Reads cid)
    (hupdates : move.Updates) (htime : s.InTime cid move) (hstep : Step s move s') :
    s'.Coherent cid := by
  have hloop := h.loop
  cases hstep with
  | stay => exact h
  -- `resolve_k8s`
  | @miss pid cgroup hat hmiss =>
    refine h.loopTo _ _ _ ⟨hmiss, ?_⟩ (by rw [hat]; nofun)
    rintro text rfl
    exact hreads
  | unreadable hat | panic hat _ => exact h.loopTo _ _ _ trivial (by rw [hat]; nofun)
  | @load pid text containerId hat htext =>
    rw [hat] at hloop
    refine h.loopTo _ _ _ ⟨hloop.1, ?_⟩ (by rw [hat]; nofun)
    exact Except.ok.inj (htext.symm.trans (hloop.2 text rfl))
  | note hat => exact h.note hat
  | promote hat hupgrade _ _ => exact h.promote hat hupgrade
  | pass hat _ =>
    rw [hat] at hloop
    exact h.loopTo _ _ _ hloop (by rw [hat]; nofun)
  | @flagPromoted _ result hat =>
    rw [hat] at hloop
    refine h.loopTo _ _ _ hloop fun pid _ hloose => ?_
    rw [hat] at hloose
    cases result <;> exact hloose
  | store hat => exact h.store hat htime
  -- `evict_pid`
  | uncache hat => exact h.uncache hat _
  | demote hat _ _ => exact h.demote hat
  | notPromoted hat hout =>
    refine h.loopTo _ _ _ trivial fun pid hpid hloose => ?_
    rw [hat] at hloose
    cases hloose
    exact absurd hpid hout
  -- the flags
  | flagDemoted hat | seeChanges hat | lockChanges hat _ | noChanges hat | takeChanges hat
  | clearChanges hat | unlockChanges hat | swapUpgrades hat _ =>
    exact h.loopTo _ _ _ trivial (by rw [hat]; nofun)
  | readUpgrades hat =>
    have hnext : (s.loopTo s.enricher .idle).Coherent cid :=
      h.loopTo _ _ _ trivial (by rw [hat]; nofun)
    exact hnext.congr rfl rfl rfl
  -- the watcher
  | receive hsame => exact h.congr hsame rfl rfl
  | relist hat => cases hupdates
  | @scanApply pod hat =>
    refine h.watchTo _ _ _ (fun id hid hin => ?_) (by rw [hat]; rfl) (by rw [hat]; rfl)
    obtain ⟨info, hinfo⟩ := FinMap.mem_iff_lookup.mp hin
    exact Enricher.mem_cidsOf.mpr ⟨info, hinfo, htime id hid info hinfo⟩
  | scanDelete hat =>
    exact h.watchTo _ _ _ (fun id hid => absurd hid (AList.notMem_empty id)) (by rw [hat]; rfl)
      (by rw [hat]; rfl)
  | patch hat => exact h.patch hat
  | unaffected hat hnone =>
    exact h.finish _ _ _ _ (by rw [hat]; exact hnone) (by rw [hat]; exact hnone)
  | affect hat _ => exact h.watchTo _ _ _ trivial (by rw [hat]; rfl) (by rw [hat]; rfl)
  | clear hat => exact h.clear hat
  | remove hat => exact h.remove hat _
  | flagRemoved hat | lockChanged hat _ | extendChanged hat | flagChanged hat =>
    exact h.watchTo _ _ _ trivial (by rw [hat]; rfl) (by rw [hat]; rfl)
  | unlockChanged hat => exact h.finish _ _ _ _ (by rw [hat]; rfl) (by rw [hat]; rfl)
  | dropNone hat => exact h.dropNone hat

/-- Both threads start from a settled state. If no lookup is overtaken, and no pod takes over a
    container of another one, then all is settled again whenever both are done: every cached pod
    is the one in the table, and the promoted processes are those whose cached pod asks for it. -/
theorem races_settle (cid : U32 → Option String) (s : Threads) (hs : s.Settled cid)
    (moves : List Move) (hmoves : ∀ move ∈ moves, move.Reads cid ∧ move.Updates)
    (htime : Runs.Along step (InTime cid) s moves)
    (hloop : (Runs.run step s moves).loopAt = .idle)
    (hwatch : (Runs.run step s moves).watchAt = .idle) :
    let e := (Runs.run step s moves).enricher
    (∀ pid info, e.k8sPidCache.lookup pid = some (some info) →
      ∃ id, cid pid = some id ∧ e.containerMap.lookup id = some info) ∧
    (∀ pid, pid ∈ e.upgradedPids ↔
      ∃ info, e.k8sPidCache.lookup pid = some (some info) ∧ info.upgrade = true) := by
  intro e
  have hmoves : Runs.Along step (fun _ move => move.Reads cid ∧ move.Updates) s moves :=
    Runs.along_of_forall hmoves s
  have hcoherent : (Runs.run step s moves).Coherent cid :=
    Runs.run_invariant (I := Coherent cid)
      (fun s move h hmove => coherent_step h hmove.1.1 hmove.1.2 hmove.2 (step_spec s move))
      hs.coherent (hmoves.and htime)
  have hsettled := hcoherent.settled hloop hwatch
  exact ⟨hsettled.current, hsettled.tracked⟩

theorem settled_new (cid : U32 → Option String) : new.Settled cid where
  loopAt := rfl
  watchAt := rfl
  noted pid id v hcached := by simp [new, enricher, Watcher.new, Enricher.new] at hcached
  current pid info hcached := by simp [new, enricher, Watcher.new, Enricher.new] at hcached
  tracked pid := by simp [new, enricher, Watcher.new, Enricher.new]

instance (cid : U32 → Option String) : DecidablePred (Move.Reads cid)
  | .resolve pid cgroup => inferInstanceAs (Decidable (CgroupNames cid pid cgroup))
  | .evict _ | .takeChanges | .takeUpgraded | .loopNext | .item _ | .watchNext =>
    inferInstanceAs (Decidable True)

instance : DecidablePred Move.Updates := fun move => by
  unfold Move.Updates
  split <;> infer_instance

/-- The pod of a process is applied while the process is looked up: the lookup stores before the
    watcher clears the cache. -/
theorem races_settle_in_time :
    let cid := fun _ : U32 => some "aaaaaaaaaaaa"
    let pod := Watcher.annotatedPod "aaaaaaaaaaaa"
    let moves := [.item (.apply pod), .watchNext, .watchNext,
      .resolve 7 (some (cgroupOf "aaaaaaaaaaaa")), .loopNext, .loopNext,
      .item (.apply pod), .watchNext, .loopNext, .loopNext, .loopNext] ++
      List.replicate 8 Move.watchNext
    let s := Runs.run step new moves
    ((∀ move ∈ moves, move.Reads cid ∧ move.Updates) ∧ Runs.Along step (InTime cid) new moves ∧
      s.loopAt = .idle ∧ s.watchAt = .idle) ∧
    ∀ pid, pid ∈ s.enricher.upgradedPids ↔
      ∃ info, s.enricher.k8sPidCache.lookup pid = some (some info) ∧ info.upgrade = true := by
  intro cid pod moves s
  have hmoves : ∀ move ∈ moves, move.Reads cid ∧ move.Updates := by decide
  have htime : Runs.Along step (InTime cid) new moves := by decide +kernel
  have hloop : s.loopAt = .idle := by decide +kernel
  have hwatch : s.watchAt = .idle := by decide +kernel
  -- the run has been evaluated, what follows holds of any
  clear_value moves
  have hsettle := races_settle cid new (settled_new cid) moves hmoves htime hloop hwatch
  exact ⟨⟨hmoves, htime, hloop, hwatch⟩, hsettle.2⟩

/-- The table is patched between the load and the note of a lookup: the watcher does not see the
    process, and the lookup stores the pod without the annotation. Both threads are done, the
    table has the pod with the annotation, and the process is not promoted. -/
theorem overtaken_lookup :
    let cid := fun _ : U32 => some "aaaaaaaaaaaa"
    let moves := [.item (.apply (Watcher.trainerPod "aaaaaaaaaaaa")), .watchNext, .watchNext,
      .resolve 7 (some (cgroupOf "aaaaaaaaaaaa")), .loopNext,
      .item (.apply (Watcher.annotatedPod "aaaaaaaaaaaa")), .watchNext, .watchNext,
      .loopNext, .loopNext, .loopNext]
    let s := run moves
    ((∀ move ∈ moves, move.Reads cid ∧ move.Updates) ∧ s.loopAt = .idle ∧ s.watchAt = .idle) ∧
      (s.enricher.k8sPidCache.lookup 7).map (Option.map ContainerInfo.upgrade) =
        some (some false) ∧
      (s.enricher.containerMap.lookup "aaaaaaaaaaaa").map ContainerInfo.upgrade = some true := by
  intro cid moves s
  exact ⟨⟨by decide, by decide, by decide⟩, by decide, by decide⟩

end Threads

end Profi
