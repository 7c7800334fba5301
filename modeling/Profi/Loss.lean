import Profi.Attribution

/-!
# Losses at Return Time

`emit_exit` has four ways to fail: an insert into `AGGREGATED`, `NCCL_AGG` or `LAUNCH_AGG`
that finds the map full, and a refused ring reservation. A refused reservation bumps
`DROPPED`, a failed `LAUNCH_AGG` insert bumps `LAUNCH_DROPPED`. The other two failures leave
no trace: the entry is deleted and the call is gone.
-/

namespace Profi

namespace Bpf

variable {n : ℕ}

/-! ## Accounting for a return -/

section Accounting

variable (s s' : Bpf n) (ctx : Ctx n) (entry : EntryData)

/-- The call was added to `AGGREGATED`. -/
def AddedToAggregated : Prop :=
  s.aggregated.accumulate ctx.cpu (aggKey ctx entry) (·.add (s.aggItem ctx entry))
    (AggValue.fresh (s.aggItem ctx entry)) = some s'.aggregated

/-- The call was added to `NCCL_AGG`. -/
def AddedToNccl : Prop :=
  s.ncclAgg.accumulate ctx.cpu (ncclKey ctx entry) (·.add (ncclItem ctx entry))
    (NcclAggValue.fresh (ncclItem ctx entry)) = some s'.ncclAgg

/-- The call was added to `LAUNCH_AGG`. -/
def AddedToLaunch : Prop :=
  s.launchAgg.accumulate ctx.cpu (s.launchKey ctx entry) (·.add (launchItem ctx entry))
    (LaunchAggValue.fresh (launchItem ctx entry)) = some s'.launchAgg

/-- The call was submitted to the ring. -/
def Submitted : Prop := s.events.submit (s.cudaEvent ctx entry) = some s'.events

/-- A drop counter was incremented on the running CPU. -/
def DropCounted : Prop :=
  s'.dropped ctx.cpu = s.dropped ctx.cpu + 1 ∨
    s'.launchDropped ctx.cpu = s.launchDropped ctx.cpu + 1

/-- The call is in exactly one place (a launch with detailed tracing also in the ring), or a
    drop counter says that it is not. -/
def Accounted : Prop :=
  (s.AddedToAggregated s' ctx entry ∧ s'.ncclAgg = s.ncclAgg ∧ s'.launchAgg = s.launchAgg ∧
    s'.events = s.events) ∨
  (s.AddedToNccl s' ctx entry ∧ s'.aggregated = s.aggregated ∧ s'.launchAgg = s.launchAgg ∧
    s'.events = s.events) ∨
  (s.AddedToLaunch s' ctx entry ∧ s'.aggregated = s.aggregated ∧ s'.ncclAgg = s.ncclAgg ∧
    (s'.events = s.events ∨ s.launchToRing ctx.pid = true ∧ s.Submitted s' ctx entry)) ∨
  (s.Submitted s' ctx entry ∧ s'.aggregated = s.aggregated ∧ s'.ncclAgg = s.ncclAgg ∧
    s'.launchAgg = s.launchAgg) ∨
  s.DropCounted s' ctx

/-- The two silent failures: the map the call belongs to has no room for its key. -/
def SilentlyLost : Prop :=
  (profiIsAggregatable entry.eventType = true ∧ ¬ s.aggregated.HasRoom (aggKey ctx entry)) ∨
    (profiIsNcclEvent entry.eventType = true ∧ ¬ s.ncclAgg.HasRoom (ncclKey ctx entry))

instance : Decidable (s.SilentlyLost ctx entry) := inferInstanceAs (Decidable (_ ∨ _))

end Accounting

/-! ## Recording always changes something -/

variable {s s' : Bpf n} {ctx : Ctx n} {entry : EntryData}

/-- Adding a call to a map changes the map: some slot counts differently. -/
theorem accumulate_ne_self {K V : Type} [DecidableEq K] [Zero V] {m : PerCpuMap n K V}
    {cpu : Fin n} {k : K} {add : V → V} {fresh : V} (hfresh : fresh = add 0)
    (hadd : ∀ val, add val ≠ val) : m.accumulate cpu k add fresh ≠ some m := by
  intro h
  have hslot := PerCpuMap.slot_accumulate h hfresh cpu k
  simp only [and_self, ↓reduceIte] at hslot
  exact hadd _ hslot.symm

theorem not_addedToAggregated_of_same (hmul : s.sampleMul ≠ 0)
    (h : s'.aggregated = s.aggregated) : ¬ s.AddedToAggregated s' ctx entry := by
  unfold AddedToAggregated
  rw [h]
  refine accumulate_ne_self (AggValue.fresh_eq_add_zero _) fun val hval => hmul ?_
  have hcount : val.count + s.sampleMul.toNat = val.count := congrArg AggValue.count hval
  apply BitVec.eq_of_toNat_eq
  simpa using hcount

theorem not_addedToNccl_of_same (h : s'.ncclAgg = s.ncclAgg) :
    ¬ s.AddedToNccl s' ctx entry := by
  unfold AddedToNccl
  rw [h]
  refine accumulate_ne_self (NcclAggValue.fresh_eq_add_zero _) fun val hval => ?_
  have hcount : val.count + 1 = val.count := congrArg NcclAggValue.count hval
  omega

theorem not_addedToLaunch_of_same (h : s'.launchAgg = s.launchAgg) :
    ¬ s.AddedToLaunch s' ctx entry := by
  unfold AddedToLaunch
  rw [h]
  refine accumulate_ne_self (LaunchAggValue.fresh_eq_add_zero _) fun val hval => ?_
  have hcount : val.count + 1 = val.count := congrArg LaunchAggValue.count hval
  omega

theorem not_submitted_of_same (h : s'.events = s.events) : ¬ s.Submitted s' ctx entry := by
  unfold Submitted RingBuf.submit
  rw [h]
  split
  · intro heq
    have hrec := congrArg RingBuf.records (Option.some.inj heq)
    simp at hrec
  · simp

/-- If no map, ring or drop counter changed, the call is not accounted for. -/
theorem not_accounted_of_same (hagg : s'.aggregated = s.aggregated)
    (hnccl : s'.ncclAgg = s.ncclAgg) (hlaunch : s'.launchAgg = s.launchAgg)
    (hev : s'.events = s.events) (hdrop : s'.dropped = s.dropped)
    (hldrop : s'.launchDropped = s.launchDropped) : ¬ s.Accounted s' ctx entry := by
  rintro (h | h | h | h | h)
  · exact not_addedToAggregated_of_same (sampleMul_ne_zero s) hagg h.1
  · exact not_addedToNccl_of_same hnccl h.1
  · exact not_addedToLaunch_of_same hlaunch h.1
  · exact not_submitted_of_same hev h.1
  · rcases h with h | h
    · rw [hdrop] at h
      bv_omega
    · rw [hldrop] at h
      bv_omega

/-! ## The four routes -/

/-- Accounting does not look at the slots. -/
theorem accounted_deleteInflight (id : U64) :
    s.Accounted (s'.deleteInflight id) ctx entry ↔ s.Accounted s' ctx entry := Iff.rfl

theorem recordAggregated_accounted (h : s.aggregated.HasRoom (aggKey ctx entry)) :
    s.Accounted (s.recordAggregated ctx entry) ctx entry := by
  have hsome := (PerCpuMap.accumulate_isSome_iff s.aggregated ctx.cpu (aggKey ctx entry)
    (·.add (s.aggItem ctx entry)) (AggValue.fresh (s.aggItem ctx entry))).mpr h
  obtain ⟨m', hm'⟩ := Option.isSome_iff_exists.mp hsome
  have heq : s.recordAggregated ctx entry = { s with aggregated := m' } := by
    simp only [recordAggregated, hm']
  rw [heq]
  exact .inl ⟨hm', rfl, rfl, rfl⟩

theorem recordAggregated_of_full (h : ¬ s.aggregated.HasRoom (aggKey ctx entry)) :
    s.recordAggregated ctx entry = s := by
  rw [← PerCpuMap.accumulate_isSome_iff s.aggregated ctx.cpu (aggKey ctx entry)
    (·.add (s.aggItem ctx entry)) (AggValue.fresh (s.aggItem ctx entry)),
    Option.not_isSome_iff_eq_none] at h
  simp only [recordAggregated, h]

theorem recordNccl_accounted (h : s.ncclAgg.HasRoom (ncclKey ctx entry)) :
    s.Accounted (s.recordNccl ctx entry) ctx entry := by
  have hsome := (PerCpuMap.accumulate_isSome_iff s.ncclAgg ctx.cpu (ncclKey ctx entry)
    (·.add (ncclItem ctx entry)) (NcclAggValue.fresh (ncclItem ctx entry))).mpr h
  obtain ⟨m', hm'⟩ := Option.isSome_iff_exists.mp hsome
  have heq : s.recordNccl ctx entry = { s with ncclAgg := m' } := by
    simp only [recordNccl, hm']
  rw [heq]
  exact .inr (.inl ⟨hm', rfl, rfl, rfl⟩)

theorem recordNccl_of_full (h : ¬ s.ncclAgg.HasRoom (ncclKey ctx entry)) :
    s.recordNccl ctx entry = s := by
  rw [← PerCpuMap.accumulate_isSome_iff s.ncclAgg ctx.cpu (ncclKey ctx entry)
    (·.add (ncclItem ctx entry)) (NcclAggValue.fresh (ncclItem ctx entry)),
    Option.not_isSome_iff_eq_none] at h
  simp only [recordNccl, h]

/-- A launch is in `LAUNCH_AGG` or counted as dropped. -/
theorem recordLaunch_cases (s : Bpf n) (ctx : Ctx n) (entry : EntryData) :
    s.AddedToLaunch (s.recordLaunch ctx entry) ctx entry ∨
      (s.recordLaunch ctx entry).launchDropped ctx.cpu = s.launchDropped ctx.cpu + 1 := by
  simp only [AddedToLaunch, recordLaunch]
  cases hm : s.launchAgg.accumulate ctx.cpu (s.launchKey ctx entry)
      (·.add (launchItem ctx entry)) (LaunchAggValue.fresh (launchItem ctx entry)) with
  | some m' => exact .inl rfl
  | none =>
    right
    simp only [bumpDropped, Function.update_self]

/-- A ring record is submitted or counted as dropped. -/
theorem submitEvent_cases (s : Bpf n) (ctx : Ctx n) (entry : EntryData) :
    s.Submitted (s.submitEvent ctx entry) ctx entry ∨
      (s.submitEvent ctx entry).dropped ctx.cpu = s.dropped ctx.cpu + 1 := by
  unfold Submitted submitEvent
  cases hm : s.events.submit (s.cudaEvent ctx entry) with
  | some events => exact .inl rfl
  | none =>
    right
    simp [bumpDropped]

theorem recordLaunch_accounted (s : Bpf n) (ctx : Ctx n) (entry : EntryData) :
    s.Accounted (s.recordLaunch ctx entry) ctx entry := by
  rcases recordLaunch_cases s ctx entry with h | h
  · refine .inr (.inr (.inl ⟨h, ?_, ?_, .inl ?_⟩)) <;> rw [recordLaunch_frame]
  · exact .inr (.inr (.inr (.inr (.inr h))))

/-- A launch that also goes to the ring: each of the two places has its own counter. -/
theorem recordLaunch_submitEvent_accounted (hring : s.launchToRing ctx.pid = true) :
    s.Accounted ((s.recordLaunch ctx entry).submitEvent ctx entry) ctx entry := by
  rcases submitEvent_cases (s.recordLaunch ctx entry) ctx entry with hsub | hdrop
  · have hsub' : s.Submitted ((s.recordLaunch ctx entry).submitEvent ctx entry) ctx entry := by
      rw [recordLaunch_frame] at hsub ⊢
      exact hsub
    rcases recordLaunch_cases s ctx entry with h | h
    · refine .inr (.inr (.inl ⟨?_, ?_, ?_, .inr ⟨hring, hsub'⟩⟩))
      · unfold AddedToLaunch at h ⊢
        rw [submitEvent_frame]
        exact h
      · rw [submitEvent_frame, recordLaunch_frame]
      · rw [submitEvent_frame, recordLaunch_frame]
    · refine .inr (.inr (.inr (.inr (.inr ?_))))
      rw [submitEvent_frame]
      exact h
  · refine .inr (.inr (.inr (.inr (.inl ?_))))
    rw [hdrop, recordLaunch_frame]

theorem submitEvent_accounted (s : Bpf n) (ctx : Ctx n) (entry : EntryData) :
    s.Accounted (s.submitEvent ctx entry) ctx entry := by
  rcases submitEvent_cases s ctx entry with h | h
  · refine .inr (.inr (.inr (.inl ⟨h, ?_, ?_, ?_⟩))) <;> rw [submitEvent_frame]
  · exact .inr (.inr (.inr (.inr (.inl h))))

theorem record_accounted_iff (s : Bpf n) (ctx : Ctx n) (entry : EntryData) :
    s.Accounted (s.record ctx entry) ctx entry ↔ ¬ s.SilentlyLost ctx entry := by
  unfold record SilentlyLost
  split
  next hagg =>
    simp only [hagg, true_and, not_nccl_of_aggregatable hagg, Bool.false_eq_true, false_and,
      or_false, not_not]
    refine ⟨fun h => ?_, recordAggregated_accounted⟩
    by_contra hfull
    rw [recordAggregated_of_full hfull] at h
    exact not_accounted_of_same rfl rfl rfl rfl rfl rfl h
  rename_i hagg
  split
  next hnccl =>
    simp only [hagg, hnccl, Bool.false_eq_true, false_and, true_and, false_or, not_not]
    refine ⟨fun h => ?_, recordNccl_accounted⟩
    by_contra hfull
    rw [recordNccl_of_full hfull] at h
    exact not_accounted_of_same rfl rfl rfl rfl rfl rfl h
  rename_i hnccl
  -- launches and the calls that go straight to the ring are never lost silently
  simp only [hagg, hnccl, Bool.false_eq_true, false_and, or_self, not_false_eq_true, iff_true]
  split
  · split
    next hring => exact recordLaunch_submitEvent_accounted hring
    · exact recordLaunch_accounted s ctx entry
  · exact submitEvent_accounted s ctx entry

/-- **Losses are counted except two.** For every state of the maps and every return that
    finds its entry: the call is accounted for and its entry is gone, unless `AGGREGATED` or
    `NCCL_AGG` has no room for the call's key. -/
theorem emitExit_accounted_iff (h : s.inflight.lookup ctx.pidTgid = some entry) :
    s.Accounted (s.emitExit ctx) ctx entry ∧
        (s.emitExit ctx).inflight.lookup ctx.pidTgid = none ↔
      ¬ s.SilentlyLost ctx entry := by
  have hgone : (s.emitExit ctx).inflight.lookup ctx.pidTgid = none := by
    rw [emitExit_eq]
    exact AList.lookup_erase ctx.pidTgid s.inflight
  rw [and_iff_left hgone, emitExit_of_some h, accounted_deleteInflight]
  exact record_accounted_iff s ctx entry

/-- A copy in flight on a fresh system. -/
def copyInFlight : Bpf 1 :=
  (Sys.run {} 1 [.enter (.cudaMemcpy 64 1) (Sys.bareCtx 0x700000007 100 0)]).bpf

theorem emitExit_accounted_iff_copy :
    copyInFlight.Accounted (copyInFlight.emitExit (Sys.bareCtx 0x700000007 200 0))
        (Sys.bareCtx 0x700000007 200 0) ⟨100, 64, 1, 0, .cudaMemcpy⟩ ∧
      (copyInFlight.emitExit (Sys.bareCtx 0x700000007 200 0)).inflight.lookup 0x700000007 =
        none :=
  (emitExit_accounted_iff (by decide)).mpr (by decide)

/-- Two copies in different directions with `--aggregated-size 1`; the second one is about to
    return. -/
def secondCopyInFlight : Bpf 1 :=
  (Sys.run { aggregatedSize := 1 } 1
    [.enter (.cudaMemcpy 64 1) (Sys.bareCtx 0x700000007 100 0),
      .ret (Sys.bareCtx 0x700000007 200 0),
      .enter (.cudaMemcpy 64 2) (Sys.bareCtx 0x700000007 300 0)]).bpf

/-- The second copy finds the map full: it is in no map and in no counter. -/
theorem second_copy_silently_lost :
    secondCopyInFlight.inflight.lookup 0x700000007 = some ⟨300, 64, 2, 0, .cudaMemcpy⟩ ∧
      ¬ secondCopyInFlight.Accounted
          (secondCopyInFlight.emitExit (Sys.bareCtx 0x700000007 400 0))
          (Sys.bareCtx 0x700000007 400 0) ⟨300, 64, 2, 0, .cudaMemcpy⟩ := by
  have hslot : secondCopyInFlight.inflight.lookup (Sys.bareCtx 0x700000007 400 0).pidTgid =
      some ⟨300, 64, 2, 0, .cudaMemcpy⟩ := by decide
  refine ⟨hslot, ?_⟩
  rw [emitExit_of_some hslot, accounted_deleteInflight, record_accounted_iff]
  decide

end Bpf

end Profi
