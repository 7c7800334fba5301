import Profi.Bookkeeping

/-!
# Evicted Processes

A gc tick evicts the processes it finds stale. From then until the next event of a process is
processed the profiler should not know it any more: the process is gone. `Sys.nextGone` follows
which processes are, and `Sys.unseen_step` says that these are not booked, so that by the invariant
of the bookkeeping they have no handles.
-/

namespace Profi

variable {n : ℕ}

namespace Sys

variable (args : Args)

/-- The processes a gc tick evicts. -/
def evictedPids (s : Sys n) : Event n → List U32
  | .gcTick env => s.loop.cache.stalePids env.now (args.gcInterval * 1000000000)
  | _ => []

/-- The processes of which a step processes events: counted records, and kernel registrations. -/
def processed (s : Sys n) (e : Event n) : List U32 :=
  ((s.records args e).filter (·.request.isSome)).map Record.pid ++
    (s.registrations args e).map (·.pid)

/-- The processes that were evicted and have not been heard of since. -/
def nextGone (s : Sys n) (e : Event n) (gone : Finset U32) : Finset U32 :=
  (gone ∪ (s.evictedPids args e).toFinset) \ (s.processed args e).toFinset

variable {args}
variable {s : Sys n} {e : Event n} {p : U32} {gone : Finset U32}

theorem mem_nextGone {p : U32} :
    p ∈ s.nextGone args e gone ↔
      (p ∈ gone ∨ p ∈ s.evictedPids args e) ∧ p ∉ s.processed args e := by
  simp only [nextGone, Finset.mem_sdiff, Finset.mem_union, List.mem_toFinset]

theorem mem_processed_of_record {r : Record} (hr : r ∈ s.records args e)
    (hrequest : r.request.isSome = true) : r.pid ∈ s.processed args e :=
  List.mem_append_left _ (List.mem_map_of_mem (List.mem_filter.mpr ⟨hr, hrequest⟩))

theorem mem_processed_of_registration {reg : KernelRegEvent} (hreg : reg ∈ s.registrations args e) :
    reg.pid ∈ s.processed args e :=
  List.mem_append_right _ (List.mem_map_of_mem hreg)

/-- Only a gc tick evicts. -/
theorem evictedPids_eq_nil (h : ∀ env, e ≠ .gcTick env) : s.evictedPids args e = [] := by
  cases e with
  | gcTick env => exact absurd rfl (h env)
  | _ => rfl

/-! ## Who is booked -/

/-- A counted record books its process, and no record strikes one out. -/
theorem mem_lastSeen_processRecord {env : LoopEnv} {x : Loop × MemDelta} {r : Record} :
    p ∈ (Loop.processRecord args env x r).1.cache.lastSeen ↔
      p ∈ x.1.cache.lastSeen ∨ r.request.isSome = true ∧ p = r.pid := by
  cases hrequest : r.request with
  | none =>
    rw [Loop.processRecord_of_none args env hrequest]
    simp
  | some key =>
    rw [Loop.processRecord_of_some args env hrequest]
    have hlast := x.1.cache.getOrCreate_lastSeen args.limits key x.1.metrics env.cacheEnv r.event
      x.1.kernelNames
    change p ∈ (x.1.cache.getOrCreate _ _ _ _ _ _).2.2.lastSeen.insert r.pid env.now ↔ _
    rw [hlast, AList.mem_insert]
    simp [or_comm]

theorem mem_lastSeen_records {env : LoopEnv} {records : List Record} {x : Loop × MemDelta}
    (h : p ∈ (records.foldl (Loop.processRecord args env) x).1.cache.lastSeen) :
    p ∈ x.1.cache.lastSeen ∨ ∃ r ∈ records, r.request.isSome = true ∧ p = r.pid := by
  refine Runs.foldl_origin (I := fun x : Loop × MemDelta => p ∈ x.1.cache.lastSeen)
    (fun x r hx => ?_) h
  exact mem_lastSeen_processRecord.mp hx

/-- The start of an arm books nobody, and a gc tick strikes out the processes it evicts. -/
theorem mem_lastSeen_armStart (h : p ∈ (s.armStart args e).cache.lastSeen) :
    p ∈ s.loop.cache.lastSeen ∧ p ∉ s.evictedPids args e := by
  cases e with
  | consume env =>
    refine ⟨?_, by simp [evictedPids]⟩
    change p ∈ (s.loop.invalidateChanged env).cache.lastSeen at h
    rw [Loop.invalidateChanged_eq] at h
    rwa [← Loop.invalidatePids_lastSeen s.loop.cache env.changedPids s.loop.metrics]
  | aggTick env =>
    refine ⟨?_, by simp [evictedPids]⟩
    rw [armStart_aggTick] at h
    exact h
  | gcTick env => exact (FinMap.mem_of_lookup_ite (Loop.lookup_gc_lastSeen _ _ _ _ p) h).symm
  | _ => exact ⟨h, by simp [evictedPids]⟩

/-- A process that is booked after a step was booked before and stays, or had an event. -/
theorem mem_lastSeen_step (h : p ∈ (s.step args e).loop.cache.lastSeen) :
    p ∈ s.loop.cache.lastSeen ∧ p ∉ s.evictedPids args e ∨ p ∈ s.processed args e := by
  rw [(s.step_handled args e).cache] at h
  rcases mem_lastSeen_records h with hstart | ⟨r, hr, hrequest, rfl⟩
  · exact .inl (mem_lastSeen_armStart hstart)
  · exact .inr (mem_processed_of_record hr hrequest)

/-- What is gone is not booked. -/
def Unseen (gone : Finset U32) (s : Sys n) : Prop := ∀ p ∈ gone, p ∉ s.loop.cache.lastSeen

theorem unseen_step {s : Sys n} (h : s.Unseen gone) (e : Event n) :
    (s.step args e).Unseen (s.nextGone args e gone) := by
  intro p hp hseen
  obtain ⟨hgone, hquiet⟩ := mem_nextGone.mp hp
  rcases mem_lastSeen_step hseen with ⟨hbefore, hstays⟩ | hprocessed
  · rcases hgone with hgone | hevicted
    · exact h p hgone hbefore
    · exact hstays hevicted
  · exact hquiet hprocessed

/-- What is gone is not evicted again. -/
theorem not_evicted_of_unseen {s : Sys n} (h : s.Unseen gone) {p : U32} (hp : p ∈ gone)
    (e : Event n) : p ∉ s.evictedPids args e := by
  cases e with
  | gcTick env =>
    intro hstale
    obtain ⟨entry, hentry, rfl⟩ := List.mem_map.mp hstale
    exact h _ hp (List.mem_map_of_mem (f := Sigma.fst) (List.mem_of_mem_filter hentry))
  | _ => simp [evictedPids]

end Sys

end Profi
