import Profi.Ledger
import Profi.Mirror

/-!
# Sampling and the Recursion Guard

`save_entry` consults the thread's slot first, so that a call made inside another probed call
is skipped, and samples aggregatable calls after that. A call that is sampled out leaves the
slot free: a launch or collective made inside of it is stored as if nothing were around it.

A run with sampling is compared with the run of the same events without (`Args.unsampled`).
`Twin` relates their states: the slots agree on entries that are never sampled, and where the
sampled run has a free slot and the other has not, an open call of the thread was dropped.
As long as no launch or collective is entered in such a state (`LaunchesGuarded`), the two
runs have the same `LAUNCH_AGG` and `NCCL_AGG`.
-/

namespace Profi

variable {n : ℕ} {args : Args}

/-- The same configuration without sampling. -/
def Args.unsampled (args : Args) : Args := { args with sampleRate := 1 }

/-- An entry in the slot, if it is of a kind that is never sampled. -/
def unsampledEntry (slot : Option EntryData) : Option EntryData :=
  slot.filter fun entry => !profiIsAggregatable entry.eventType

theorem unsampledEntry_of_aggregatable {entry : EntryData}
    (h : profiIsAggregatable entry.eventType = true) : unsampledEntry (some entry) = none := by
  rw [unsampledEntry, Option.filter_some, h]
  rfl

/-- The sampler dropped the call. -/
def OpenCall.Dropped (c : OpenCall) : Prop :=
  profiIsAggregatable c.probe.eventType = true ∧ c.stored = false

instance (c : OpenCall) : Decidable c.Dropped := inferInstanceAs (Decidable (_ ∧ _))

/-! ## Slots of the two runs -/

/-- A slot of the sampled run beside the slot of the other. -/
structure SlotTwin (a b : Option EntryData) : Prop where
  same : unsampledEntry a = unsampledEntry b
  free : b = none → a = none

namespace SlotTwin

variable {a b : Option EntryData}

theorem refl (a : Option EntryData) : SlotTwin a a := ⟨rfl, id⟩

/-- An entry that is never sampled is in both slots or in neither. -/
theorem eq_of_unsampled (h : SlotTwin a b) {entry : EntryData}
    (hentry : profiIsAggregatable entry.eventType = false) :
    a = some entry ↔ b = some entry := by
  have hfilter : ∀ slot : Option EntryData,
      slot = some entry ↔ unsampledEntry slot = some entry := by
    intro slot
    simp [unsampledEntry, Option.filter_eq_some_iff, hentry]
  rw [hfilter a, hfilter b, h.same]

/-- A kind of entry that is never sampled is found in both slots or in neither. -/
theorem filter_eq (h : SlotTwin a b) {keep : EntryData → Bool}
    (hkeep : ∀ entry, keep entry = true → profiIsAggregatable entry.eventType = false) :
    a.filter keep = b.filter keep := by
  ext entry
  simp only [Option.filter_eq_some_iff]
  constructor
  · rintro ⟨ha, hk⟩
    exact ⟨(h.eq_of_unsampled (hkeep entry hk)).mp ha, hk⟩
  · rintro ⟨hb, hk⟩
    exact ⟨(h.eq_of_unsampled (hkeep entry hk)).mpr hb, hk⟩

theorem any_eq (h : SlotTwin a b) {keep : EntryData → Bool}
    (hkeep : ∀ entry, keep entry = true → profiIsAggregatable entry.eventType = false) :
    a.any keep = b.any keep := by
  have hiff : ∀ slot : Option EntryData, slot.any keep = (slot.filter keep).isSome := by
    intro slot
    cases slot with
    | none => rfl
    | some entry => cases hk : keep entry <;> simp [hk]
  rw [hiff a, hiff b, h.filter_eq hkeep]

/-- Two slots that hold nothing but sampled entries, the second of them one. -/
theorem of_aggregatable {entry : EntryData} (ha : unsampledEntry a = none)
    (hentry : profiIsAggregatable entry.eventType = true) : SlotTwin a (some entry) where
  same := by rw [ha, unsampledEntry_of_aggregatable hentry]
  free := by rintro ⟨⟩

/-- Taking a thread's entry from both maps. -/
theorem erase {slots slots' : FinMap U64 EntryData}
    (h : ∀ id, SlotTwin (slots.lookup id) (slots'.lookup id)) (id id' : U64) :
    SlotTwin ((slots.erase id).lookup id') ((slots'.erase id).lookup id') := by
  by_cases hid : id' = id
  · subst hid
    rw [AList.lookup_erase, AList.lookup_erase]
    exact .refl none
  · rw [AList.lookup_erase_ne hid, AList.lookup_erase_ne hid]
    exact h id'

end SlotTwin

/-! ## Entry programs -/

namespace Probe

/-- The slot of the entering thread. -/
theorem enter_inflight_self (b : Bpf n) (ctx : Ctx n) (p : Probe) :
    (p.enter b ctx).inflight.lookup ctx.pidTgid =
      if (b.inflight.lookup ctx.pidTgid = none ∨ p.isModuleGetFunction = true) ∧
          p.stores b ctx = true then
        some (p.entryData b ctx)
      else b.inflight.lookup ctx.pidTgid := by
  rw [enter_inflight]
  split
  · exact AList.lookup_insert _
  · rfl

/-- Only the frees, which are sampled, store something they read from a map. -/
theorem entryData_congr {p : Probe} (hp : profiIsAggregatable p.eventType = false)
    (b b' : Bpf n) (ctx : Ctx n) : p.entryData b ctx = p.entryData b' ctx := by
  cases p with
  | cudaFree ptr => cases hp
  | cudaFreeAsync ptr stream => cases hp
  | _ => rfl

/-- `cuModuleGetFunction` looks at its arguments only. -/
theorem stores_congr {p : Probe} (hp : p.isModuleGetFunction = true) (b b' : Bpf n)
    (ctx : Ctx n) : p.stores b ctx = p.stores b' ctx := by
  cases p <;> first | rfl | cases hp

/-- The sampler keeps every call it does not aggregate. -/
theorem stores_of_not_aggregatable {p : Probe} (hp : p.isModuleGetFunction = false)
    (hagg : profiIsAggregatable p.eventType = false) (b : Bpf n) (ctx : Ctx n) :
    p.stores b ctx = true := by
  rw [stores_eq_keepsSample b ctx hp]
  simp [Bpf.keepsSample, hagg]

/-- Whether the call is a kernel launch or a collective. -/
def isLaunchOrNccl (p : Probe) : Bool :=
  p.eventType = .cudaLaunchKernel || profiIsNcclEvent p.eventType

/-- Every probed function is sampled, registers kernels, launches or communicates. -/
theorem isLaunchOrNccl_of_not {p : Probe} (hagg : profiIsAggregatable p.eventType = false)
    (hm : p.isModuleGetFunction = false) : p.isLaunchOrNccl = true := by
  cases p with
  | ncclCountDtype34 sym _ _ => cases sym <;> rfl
  | ncclCountDtype23 sym _ _ => cases sym <;> rfl
  | cuModuleGetFunction _ _ => cases hm
  | _ => first | rfl | cases hagg

end Probe

namespace Sys

variable {p : Probe} {ctx : Ctx n}

/-- With sampling off no call is dropped. -/
theorem stores_of_unsampled {b : Bpf n} (hcfg : ConfigOk args.unsampled b) (ctx : Ctx n)
    (hp : p.isModuleGetFunction = false) : p.stores b ctx = true := by
  have hrate : b.sampleRate = 0 := by rw [hcfg.sampleRate]; rfl
  rw [Probe.stores_eq_keepsSample b ctx hp]
  simp [Bpf.keepsSample, hrate]

/-- No launch or collective is entered with a free slot while its thread has a call open that
    the sampler dropped. -/
def LaunchesGuarded (s : Sys n) : Event n → Prop
  | .enter p ctx => p.isLaunchOrNccl = true → s.bpf.inflight.lookup ctx.pidTgid = none →
      ∀ c ∈ s.stack ctx.pidTgid, ¬c.Dropped
  | _ => True

instance (s : Sys n) : (e : Event n) → Decidable (LaunchesGuarded s e)
  | .enter p ctx => inferInstanceAs (Decidable (p.isLaunchOrNccl = true →
      s.bpf.inflight.lookup ctx.pidTgid = none → ∀ c ∈ s.stack ctx.pidTgid, ¬c.Dropped))
  | .ret _ | .registerFunction _ _ _ | .nvtxPush _ _ | .nvtxPop _ | .evict _
  | .consume _ | .aggTick _ | .gcTick _ | .nameKernel _ _ _ => inferInstanceAs (Decidable True)

/-- The sampled run `s` beside the run `t` of the same events without sampling. -/
structure Twin (args : Args) (s t : Sys n) : Prop where
  config : ConfigOk args.unsampled t.bpf
  probes : ∀ id, (s.stack id).map (·.probe) = (t.stack id).map (·.probe)
  slot : ∀ id, SlotTwin (s.bpf.inflight.lookup id) (t.bpf.inflight.lookup id)
  dropped : ∀ id, s.bpf.inflight.lookup id = none → t.bpf.inflight.lookup id ≠ none →
    ∃ c ∈ s.stack id, c.Dropped
  launchAgg : s.bpf.launchAgg = t.bpf.launchAgg
  ncclAgg : s.bpf.ncclAgg = t.bpf.ncclAgg
  upgradedPids : s.bpf.upgradedPids = t.bpf.upgradedPids
  kernelAggMode : s.bpf.kernelAggMode = t.bpf.kernelAggMode
  synced : s.loop.upgradedPidsSynced = t.loop.upgradedPidsSynced

theorem twin_init (n : ℕ) (args : Args) :
    Twin args (Sys.init n args) (Sys.init n args.unsampled) where
  config := configOk_init args.unsampled
  probes _ := rfl
  slot _ := .refl _
  dropped _ _ h := absurd rfl h
  launchAgg := rfl
  ncclAgg := rfl
  upgradedPids := rfl
  kernelAggMode := rfl
  synced := rfl

variable {s t : Sys n}

/-! ## A call is entered -/

/-- A sampled call is entered. The slot of the run without sampling is taken by a sampled entry
    then, now or before. -/
theorem slotTwin_enter_sampled (h : Twin args s t) (hm : p.isModuleGetFunction = false)
    (hagg : profiIsAggregatable p.eventType = true) :
    SlotTwin ((p.enter s.bpf ctx).inflight.lookup ctx.pidTgid)
      ((p.enter t.bpf ctx).inflight.lookup ctx.pidTgid) := by
  have hslot := h.slot ctx.pidTgid
  have hstores := stores_of_unsampled h.config ctx hm
  rw [Probe.enter_inflight_self, Probe.enter_inflight_self, hm]
  cases hb : t.bpf.inflight.lookup ctx.pidTgid with
  | none =>
    have ha := hslot.free hb
    simp only [ha, hstores, true_or, true_and, and_self, ↓reduceIte]
    apply SlotTwin.of_aggregatable _ hagg
    split
    · simp [unsampledEntry, Probe.entryData, hagg]
    · rfl
  | some entry =>
    simp only [hstores, reduceCtorEq, Bool.false_eq_true, or_self, false_and, ↓reduceIte]
    rw [hb] at hslot
    split
    next hstored =>
      -- the sampled run had a free slot: the entry of the other run is a sampled one
      have hfree : s.bpf.inflight.lookup ctx.pidTgid = none := by simpa using hstored.1
      refine ⟨?_, by rintro ⟨⟩⟩
      rw [← hslot.same, hfree]
      simp [unsampledEntry, Probe.entryData, hagg]
    · exact hslot

/-- A launch or a collective is entered. The guard answers the same in both runs. -/
theorem slotTwin_enter_unsampled (h : Twin args s t) (he : LaunchesGuarded s (.enter p ctx))
    (hm : p.isModuleGetFunction = false) (hagg : profiIsAggregatable p.eventType = false) :
    SlotTwin ((p.enter s.bpf ctx).inflight.lookup ctx.pidTgid)
      ((p.enter t.bpf ctx).inflight.lookup ctx.pidTgid) := by
  have hslot := h.slot ctx.pidTgid
  have hguard : s.bpf.inflight.lookup ctx.pidTgid = none ↔
      t.bpf.inflight.lookup ctx.pidTgid = none := by
    refine ⟨fun ha => ?_, hslot.free⟩
    by_contra hb
    obtain ⟨c, hc, hdropped⟩ := h.dropped ctx.pidTgid ha hb
    exact he (Probe.isLaunchOrNccl_of_not hagg hm) ha c hc hdropped
  rw [Probe.enter_inflight_self, Probe.enter_inflight_self,
    Probe.entryData_congr hagg s.bpf t.bpf ctx, Probe.stores_of_not_aggregatable hm hagg,
    Probe.stores_of_not_aggregatable hm hagg]
  by_cases hb : t.bpf.inflight.lookup ctx.pidTgid = none
  · simpa [hb, hguard.mpr hb] using SlotTwin.refl _
  · simpa [hb, mt hguard.mp hb, hm] using hslot

/-- The slots of the entering thread stay twins. -/
theorem slotTwin_enter (h : Twin args s t) (he : LaunchesGuarded s (.enter p ctx)) :
    SlotTwin ((p.enter s.bpf ctx).inflight.lookup ctx.pidTgid)
      ((p.enter t.bpf ctx).inflight.lookup ctx.pidTgid) := by
  cases hm : p.isModuleGetFunction with
  | true =>
    have hagg := Probe.not_aggregatable_of_moduleGetFunction hm
    rw [Probe.enter_inflight_self, Probe.enter_inflight_self,
      Probe.entryData_congr hagg s.bpf t.bpf ctx, Probe.stores_congr hm s.bpf t.bpf ctx]
    by_cases hst : p.stores t.bpf ctx = true
    · simpa [hm, hst] using SlotTwin.refl _
    · simpa [hst] using h.slot ctx.pidTgid
  | false =>
    cases hagg : profiIsAggregatable p.eventType with
    | true => exact slotTwin_enter_sampled h hm hagg
    | false => exact slotTwin_enter_unsampled h he hm hagg

/-- A free slot beside a taken one is explained by a dropped call, old or new. -/
theorem dropped_enter (h : Twin args s t)
    (ha : (p.enter s.bpf ctx).inflight.lookup ctx.pidTgid = none)
    (hb : (p.enter t.bpf ctx).inflight.lookup ctx.pidTgid ≠ none) :
    ∃ c ∈ (s.enter p ctx).stack ctx.pidTgid, c.Dropped := by
  rw [enter_stack_self]
  rw [Probe.enter_inflight_self] at ha
  split at ha
  · cases ha
  rename_i hnot
  by_cases htaken : t.bpf.inflight.lookup ctx.pidTgid = none
  · -- the other run has just stored the call, this one has not
    refine ⟨s.opened p ctx, by simp, ?_⟩
    have hstored : p.stores s.bpf ctx = false := by simpa [ha] using hnot
    have hstored' : p.stores t.bpf ctx = true := by
      by_contra hst
      rw [Probe.enter_inflight_self, if_neg (fun hand => hst hand.2)] at hb
      exact hb htaken
    have hm : p.isModuleGetFunction = false := by
      cases hm : p.isModuleGetFunction with
      | false => rfl
      | true =>
        have hsame := Probe.stores_congr hm s.bpf t.bpf ctx
        rw [hstored, hstored'] at hsame
        cases hsame
    refine ⟨?_, hstored⟩
    by_contra hagg
    rw [Probe.stores_of_not_aggregatable hm (Bool.eq_false_iff.mpr hagg)] at hstored
    cases hstored
  · -- the other slot was taken before
    obtain ⟨c, hc, hdropped⟩ := h.dropped ctx.pidTgid ha htaken
    exact ⟨{ c with alone := false }, List.mem_cons_of_mem _ (List.mem_map_of_mem hc), hdropped⟩

theorem twin_enter (h : Twin args s t) (he : LaunchesGuarded s (.enter p ctx)) :
    Twin args (s.enter p ctx) (t.enter p ctx) where
  config := configOk_step h.config (.enter p ctx)
  probes id := by
    by_cases hid : id = ctx.pidTgid
    · subst hid
      rw [enter_stack_self, enter_stack_self]
      simpa [Sys.opened, Function.comp_def] using h.probes ctx.pidTgid
    · rw [enter_stack_other s p ctx hid, enter_stack_other t p ctx hid]
      exact h.probes id
  slot id := by
    simp only [enter]
    by_cases hid : id = ctx.pidTgid
    · subst hid
      exact slotTwin_enter h he
    · rw [Probe.enter_inflight_other s.bpf ctx p hid, Probe.enter_inflight_other t.bpf ctx p hid]
      exact h.slot id
  -- only the thread that enters has a new slot; for the others the old agreement carries over
  dropped id ha hb := by
    by_cases hid : id = ctx.pidTgid
    · subst hid
      exact dropped_enter h ha hb
    · simp only [enter] at ha hb
      rw [Probe.enter_inflight_other s.bpf ctx p hid] at ha
      rw [Probe.enter_inflight_other t.bpf ctx p hid] at hb
      rw [enter_stack_other s p ctx hid]
      exact h.dropped id ha hb
  launchAgg := by
    simp only [enter]
    rw [Probe.enter_frame s.bpf, Probe.enter_frame t.bpf]
    exact h.launchAgg
  ncclAgg := by
    simp only [enter]
    rw [Probe.enter_frame s.bpf, Probe.enter_frame t.bpf]
    exact h.ncclAgg
  upgradedPids := by
    simp only [enter]
    rw [Probe.enter_frame s.bpf, Probe.enter_frame t.bpf]
    exact h.upgradedPids
  kernelAggMode := by
    simp only [enter]
    rw [Probe.enter_frame s.bpf, Probe.enter_frame t.bpf]
    exact h.kernelAggMode
  synced := h.synced

/-! ## A call returns -/

section Return

variable {call call' : OpenCall}

theorem recorded_twin (h : Twin args s t) (hp : call.probe = call'.probe) (ctx : Ctx n) :
    SlotTwin (call.probe.recorded s.bpf ctx) (call'.probe.recorded t.bpf ctx) := by
  unfold Probe.recorded
  rw [hp]
  split
  · exact .refl _
  · exact h.slot ctx.pidTgid

theorem launchMode_twin (h : Twin args s t) (pid : U32) :
    s.bpf.launchMode pid = t.bpf.launchMode pid := by
  unfold Bpf.launchMode
  rw [h.upgradedPids, h.kernelAggMode]

/-- Both runs record the same launch, if any. -/
theorem launchAgg_twin (h : Twin args s t) (hp : call.probe = call'.probe) (ctx : Ctx n) :
    (call.probe.exit s.bpf ctx).launchAgg = (call'.probe.exit t.bpf ctx).launchAgg := by
  have hentry : (s.completed ctx call []).launchEntry =
      (t.completed ctx call' []).launchEntry := by
    apply (recorded_twin h hp ctx).filter_eq
    intro entry hentry
    rw [of_decide_eq_true hentry]
    rfl
  have hkey : (s.completed ctx call []).launchKey = (t.completed ctx call' []).launchKey := by
    have hmode : (s.completed ctx call []).mode = (t.completed ctx call' []).mode :=
      launchMode_twin h ctx.pid
    funext entry
    unfold Completed.launchKey
    rw [hmode]
    rfl
  have hs := (launchView args n).get_exit s ctx call []
  have ht := (launchView args.unsampled n).get_exit t ctx call' []
  simp only [launchView, hentry, hkey, h.launchAgg] at hs ht
  exact hs.trans ht.symm

/-- Both runs record the same collective, if any. -/
theorem ncclAgg_twin (h : Twin args s t) (hp : call.probe = call'.probe) (ctx : Ctx n) :
    (call.probe.exit s.bpf ctx).ncclAgg = (call'.probe.exit t.bpf ctx).ncclAgg := by
  have hentry : (s.completed ctx call []).ncclEntry =
      (t.completed ctx call' []).ncclEntry := by
    apply (recorded_twin h hp ctx).filter_eq
    intro entry hentry
    by_contra hagg
    rw [not_nccl_of_aggregatable (by simpa using hagg)] at hentry
    cases hentry
  have hs := (ncclView args n).get_exit s ctx call []
  have ht := (ncclView args.unsampled n).get_exit t ctx call' []
  simp only [ncclView, hentry, h.ncclAgg] at hs ht
  exact hs.trans ht.symm

/-- A return program empties both slots, or leaves both alone. -/
theorem exit_inflight_twin (h : Twin args s t) (hp : call.probe = call'.probe) (ctx : Ctx n) :
    ((call.probe.exit s.bpf ctx).inflight = s.bpf.inflight.erase ctx.pidTgid ∧
        (call'.probe.exit t.bpf ctx).inflight = t.bpf.inflight.erase ctx.pidTgid) ∨
      (call.probe.isModuleGetFunction = true ∧
        (call.probe.exit s.bpf ctx).inflight = s.bpf.inflight ∧
        (call'.probe.exit t.bpf ctx).inflight = t.bpf.inflight) := by
  have hany : (s.bpf.inflight.lookup ctx.pidTgid).any (·.eventType = .cudaRegisterFunction) =
      (t.bpf.inflight.lookup ctx.pidTgid).any (·.eventType = .cudaRegisterFunction) := by
    apply (h.slot ctx.pidTgid).any_eq
    intro entry hentry
    rw [of_decide_eq_true hentry]
    rfl
  rw [Probe.exit_inflight, Probe.exit_inflight, hany, hp]
  split
  · exact .inl ⟨rfl, rfl⟩
  next hkeep =>
    rw [not_or, Bool.not_eq_false] at hkeep
    exact .inr ⟨hkeep.1, rfl, rfl⟩

/-- A free slot beside a taken one is explained by a call further out: only `cuModuleGetFunction`,
    which is never dropped, leaves the slots alone. -/
theorem dropped_ret (h : Twin args s t) (hp : call.probe = call'.probe) {ctx : Ctx n}
    {rest : List OpenCall} (hs : s.stack ctx.pidTgid = call :: rest)
    (ha : (call.probe.exit s.bpf ctx).inflight.lookup ctx.pidTgid = none)
    (hb : (call'.probe.exit t.bpf ctx).inflight.lookup ctx.pidTgid ≠ none) :
    ∃ c ∈ rest, c.Dropped := by
  rcases exit_inflight_twin h hp ctx with ⟨-, het⟩ | ⟨hm, hes, het⟩
  · rw [het, AList.lookup_erase] at hb
    exact absurd rfl hb
  · rw [hes] at ha
    rw [het] at hb
    obtain ⟨c, hc, hdropped⟩ := h.dropped ctx.pidTgid ha hb
    rw [hs] at hc
    rcases List.mem_cons.mp hc with rfl | hc
    · rw [OpenCall.Dropped, Probe.not_aggregatable_of_moduleGetFunction hm] at hdropped
      cases hdropped.1
    · exact ⟨c, hc, hdropped⟩

theorem twin_ret (h : Twin args s t) {ctx : Ctx n} {rest rest' : List OpenCall}
    (hs : s.stack ctx.pidTgid = call :: rest) (ht : t.stack ctx.pidTgid = call' :: rest') :
    Twin args (s.ret ctx) (t.ret ctx) := by
  have hprobes := h.probes ctx.pidTgid
  rw [hs, ht, List.map_cons, List.map_cons] at hprobes
  obtain ⟨hp, hrest⟩ := List.cons_eq_cons.mp hprobes
  have hcfg := configOk_step h.config (.ret ctx)
  simp only [step] at hcfg
  rw [ret_cons ht] at hcfg ⊢
  rw [ret_cons hs]
  have hexit := exit_inflight_twin h hp ctx
  constructor
  case config => exact hcfg
  case probes =>
    intro id
    by_cases hid : id = ctx.pidTgid
    · subst hid
      simpa using hrest
    · simpa [hid] using h.probes id
  case slot =>
    intro id
    -- both runs clear the slot, or neither does
    rcases hexit with ⟨hes, het⟩ | ⟨-, hes, het⟩
    · simp only [hes, het]
      exact .erase h.slot ctx.pidTgid id
    · simp only [hes, het]
      exact h.slot id
  case dropped =>
    intro id ha hb
    by_cases hid : id = ctx.pidTgid
    · subst hid
      simpa using dropped_ret h hp hs ha hb
    · simp only at ha hb
      rw [Probe.exit_inflight_other s.bpf ctx call.probe hid] at ha
      rw [Probe.exit_inflight_other t.bpf ctx call'.probe hid] at hb
      simpa [hid] using h.dropped id ha hb
  case launchAgg => exact launchAgg_twin h hp ctx
  case ncclAgg => exact ncclAgg_twin h hp ctx
  case upgradedPids =>
    rw [Probe.exit_frame s.bpf, Probe.exit_frame t.bpf]
    exact h.upgradedPids
  case kernelAggMode =>
    rw [Probe.exit_frame s.bpf, Probe.exit_frame t.bpf]
    exact h.kernelAggMode
  case synced => exact h.synced

end Return

/-! ## Steps in the background -/

theorem twin_background (h : Twin args s t) {s' t' : Sys n} (hs : Background s s')
    (ht : Background t t') (hcfg : ConfigOk args.unsampled t'.bpf)
    (hlaunch : s'.bpf.launchAgg = t'.bpf.launchAgg) (hnccl : s'.bpf.ncclAgg = t'.bpf.ncclAgg)
    (hupgraded : s'.bpf.upgradedPids = t'.bpf.upgradedPids)
    (hsynced : s'.loop.upgradedPidsSynced = t'.loop.upgradedPidsSynced) : Twin args s' t' where
  config := hcfg
  probes := by
    rw [hs.stack, ht.stack]
    exact h.probes
  slot := by
    rw [hs.bpf, ht.bpf]
    exact h.slot
  dropped := by
    rw [hs.bpf, ht.bpf, hs.stack]
    exact h.dropped
  launchAgg := hlaunch
  ncclAgg := hnccl
  upgradedPids := hupgraded
  kernelAggMode := by
    rw [hs.bpf, ht.bpf]
    exact h.kernelAggMode
  synced := hsynced

theorem twin_evict (h : Twin args s t) (ev : Eviction) :
    Twin args { s with bpf := s.bpf.evict ev } { t with bpf := t.bpf.evict ev } := by
  have hcfg := configOk_step h.config (.evict ev)
  cases ev with
  | inflight id =>
    -- the kernel takes the thread's entry from both runs
    refine { h with config := hcfg, slot := ?_, dropped := ?_ }
    · intro id'
      exact .erase h.slot id id'
    · intro id' ha hb
      simp only [Bpf.evict] at ha hb
      by_cases hid : id' = id
      · subst hid
        rw [AList.lookup_erase] at hb
        exact absurd rfl hb
      · rw [AList.lookup_erase_ne hid] at ha hb
        exact h.dropped id' ha hb
  | _ => exact { h with config := hcfg }

end Sys

namespace Loop

/-- The upgraded processes after a tick depend on those before and on the watcher. -/
theorem aggTick_upgraded (args args' : Args) (env : LoopEnv) {s t : Bpf n × Loop}
    (hmap : s.1.upgradedPids = t.1.upgradedPids)
    (hsynced : s.2.upgradedPidsSynced = t.2.upgradedPidsSynced) :
    (aggTick args env s).1.upgradedPids = (aggTick args' env t).1.upgradedPids ∧
      (aggTick args env s).2.upgradedPidsSynced =
        (aggTick args' env t).2.upgradedPidsSynced := by
  obtain ⟨hms, hss⟩ := aggTick_upgradedPids args env s
  obtain ⟨hmt, hst⟩ := aggTick_upgradedPids args' env t
  rw [hms, hss, hmt, hst]
  cases env.upgradedPids with
  | none => exact ⟨hmap, hsynced⟩
  | some desired =>
    refine ⟨?_, rfl⟩
    simp only [Option.elim_some, syncUpgradedPids, hmap, hsynced]

end Loop

namespace Sys

variable {s t : Sys n}

theorem twin_aggTick (h : Twin args s t) (env : LoopEnv) :
    Twin args (s.aggTick args env) (t.aggTick args.unsampled env) := by
  obtain ⟨hupgraded, hsynced⟩ := Loop.aggTick_upgraded args args.unsampled env
    (s := (s.bpf, s.loop)) (t := (t.bpf, t.loop)) h.upgradedPids h.synced
  refine twin_background h ⟨rfl, rfl, ?_⟩ ⟨rfl, rfl, ?_⟩
    (configOk_step h.config (.aggTick env)) ?_ ?_ hupgraded hsynced
  · rw [aggTick_bpf]
  · rw [aggTick_bpf]
  · rw [aggTick_bpf (s := s), aggTick_bpf (s := t), h.launchAgg]
    rfl
  · rw [aggTick_bpf (s := s), aggTick_bpf (s := t), h.ncclAgg]

/-- Steps that are neither a call nor an eviction are in the background. -/
theorem background_of_ne {e : Event n} (henter : ∀ p ctx, e ≠ .enter p ctx)
    (hret : ∀ ctx, e ≠ .ret ctx) (hevict : ∀ ev, e ≠ .evict ev) :
    Background s (s.step args e) := by
  rcases step_cases args s e with ⟨p, ctx, he, -⟩ | ⟨ctx, call, rest, he, -⟩ | ⟨ev, he, -⟩ | hbg
  · exact absurd he (henter p ctx)
  · exact absurd he (hret ctx)
  · exact absurd he (hevict ev)
  · exact hbg

/-- A step that is no call, eviction or tick keeps twins. -/
theorem twin_quiet (h : Twin args s t) {e : Event n} (henter : ∀ p ctx, e ≠ .enter p ctx)
    (hret : ∀ ctx, e ≠ .ret ctx) (hevict : ∀ ev, e ≠ .evict ev) (htick : ∀ env, e ≠ .aggTick env) :
    Twin args (s.step args e) (t.step args.unsampled e) := by
  have hs : Background s (s.step args e) := background_of_ne henter hret hevict
  have ht : Background t (t.step args.unsampled e) := background_of_ne henter hret hevict
  have hsame : MapsSame s (s.step args e) :=
    (background_cases hs).resolve_left fun ⟨env, he⟩ => htick env he
  have hsame' : MapsSame t (t.step args.unsampled e) :=
    (background_cases ht).resolve_left fun ⟨env, he⟩ => htick env he
  obtain ⟨hmap, hsynced⟩ := upgraded_of_ne args s htick
  obtain ⟨hmap', hsynced'⟩ := upgraded_of_ne args.unsampled t htick
  apply twin_background h hs ht (configOk_step h.config e)
  · rw [hsame.launchAgg, hsame'.launchAgg, h.launchAgg]
  · rw [hsame.ncclAgg, hsame'.ncclAgg, h.ncclAgg]
  · rw [hmap, hmap', h.upgradedPids]
  · rw [hsynced, hsynced', h.synced]

theorem twin_step (h : Twin args s t) (e : Event n) (he : LaunchesGuarded s e) :
    Twin args (s.step args e) (t.step args.unsampled e) := by
  cases e with
  | enter p ctx => exact twin_enter h he
  | ret ctx =>
    have hprobes := h.probes ctx.pidTgid
    simp only [step]
    cases hs : s.stack ctx.pidTgid with
    | nil =>
      rw [hs] at hprobes
      have ht : t.stack ctx.pidTgid = [] := List.map_eq_nil_iff.mp hprobes.symm
      rw [ret_nil hs, ret_nil ht]
      exact h
    | cons call rest =>
      rw [hs] at hprobes
      obtain ⟨call', rest', ht, -, -⟩ := List.map_eq_cons_iff.mp hprobes.symm
      exact twin_ret h hs ht
  | evict ev => exact twin_evict h ev
  | aggTick env => exact twin_aggTick h env
  | _ => exact twin_quiet h nofun nofun nofun nofun

/-! ## Runs -/

theorem twin_run {es : List (Event n)} (hes : Permitted args LaunchesGuarded es) :
    Twin args (run args n es) (run args.unsampled n es) :=
  Runs.run_lockstep (R := Twin args) (fun _ _ e h he => twin_step h e he) (twin_init n args) hes

/-- At every sampling rate, in every state of a run in which no launch or collective is entered
    with a free slot inside a call that the sampler dropped, `LAUNCH_AGG` and `NCCL_AGG` are
    what they are without sampling. -/
theorem sampling_keeps_launches {es : List (Event n)} (hes : Permitted args LaunchesGuarded es)
    (k : ℕ) :
    (run args n (es.take k)).bpf.launchAgg = (run args.unsampled n (es.take k)).bpf.launchAgg ∧
      (run args n (es.take k)).bpf.ncclAgg = (run args.unsampled n (es.take k)).bpf.ncclAgg := by
  have htwin := twin_run (hes.take k)
  exact ⟨htwin.launchAgg, htwin.ncclAgg⟩

/-- A thread synchronizes a stream, then launches a graph; the runtime's `cudaGraphLaunch` calls
    the driver's `cuGraphLaunch` and waits for it. -/
def launchInsideGraphLaunch (before : List (Event 1)) : List (Event 1) :=
  before ++
    [.enter (.cudaGraphLaunch 5 0) (bareCtx 0x100000001 10 0),
      .enter (.cuGraphLaunch 5 0) (bareCtx 0x100000001 11 0),
      .ret (bareCtx 0x100000001 12 0), .ret (bareCtx 0x100000001 13 0)]

/-- The graph launch is the first call and is kept: the launch inside of it is skipped at rate
    2 as it is without sampling. -/
theorem sampling_keeps_launches_first :
    (run { sampleRate := 2 } 1 ((launchInsideGraphLaunch []).take 3)).bpf.launchAgg =
        (run (Args.unsampled { sampleRate := 2 }) 1
          ((launchInsideGraphLaunch []).take 3)).bpf.launchAgg ∧
      (run { sampleRate := 2 } 1 ((launchInsideGraphLaunch []).take 3)).bpf.ncclAgg =
        (run (Args.unsampled { sampleRate := 2 }) 1
          ((launchInsideGraphLaunch []).take 3)).bpf.ncclAgg :=
  sampling_keeps_launches (by decide) 3

/-- After one more call the graph launch is dropped, and the launch inside of it is counted. -/
theorem launch_inside_dropped_call_counted :
    let es := launchInsideGraphLaunch
      [.enter (.cudaStreamSync 0) (bareCtx 0x100000001 1 0), .ret (bareCtx 0x100000001 2 0)]
    (run { sampleRate := 2 } 1 es).bpf.launchAgg.slots.keys =
        [{ pid := 1, hostFun := 0, stream := 0 }] ∧
      ((run { sampleRate := 2 } 1 es).bpf.launchAgg.slot 0
        { pid := 1, hostFun := 0, stream := 0 }).count = 1 ∧
      (run (Args.unsampled { sampleRate := 2 }) 1 es).bpf.launchAgg.slots.keys = [] := by
  decide

end Sys

end Profi
