import Profi.Slots

/-!
# Conservation in the Aggregate Maps

`AGGREGATED`, `NCCL_AGG` and `LAUNCH_AGG` work the same way: a return adds to a key, a tick
drains keys. A `View` says how one of them sits in the system, with the laws its steps obey
as fields; conservation is proved once for any view:

  what was handed to the event loop + what is still stored = what the returns added

for every weight that is additive over the items (`View.conserved`). Counting calls, summing
sizes and counting bucket hits are instances.
-/

namespace Profi

variable {n : ℕ}

/-! ## Views -/

/-- How one aggregate map sits in the system. `key r` is the key a return adds to, if it goes
    to this map, and `add r` what it does to the slot of its CPU. -/
structure View (args : Args) (n : ℕ) (K V : Type) [DecidableEq K] [Zero V] where
  get : Bpf n → PerCpuMap n K V
  handed : History n → List (K × List V)
  key : Completed n → Option K
  add : Completed n → V → V
  init_slots : (get (Bpf.init n args)).slots = ∅
  init_handed : handed (Sys.init n args).hist = []
  handed_returns : ∀ h returns, handed { h with returns } = handed h
  get_enter : ∀ b ctx p, get (Probe.enter b ctx p) = get b
  get_evict : ∀ b ev, get (Bpf.evict b ev) = get b
  /-- A return adds its item, or changes nothing when its key finds no room. -/
  get_exit : ∀ (s : Sys n) ctx call rest,
    get (call.probe.exit s.bpf ctx) =
      match key (s.completed ctx call rest) with
      | none => get s.bpf
      | some k =>
        ((get s.bpf).accumulate ctx.cpu k (add (s.completed ctx call rest))
          (add (s.completed ctx call rest) 0)).getD (get s.bpf)
  /-- In the background of the calls the map is drained or left alone. -/
  background : ∀ (s : Sys n) e, Sys.Background s (s.step args e) →
    (get (s.step args e).bpf = get s.bpf ∧ handed (s.step args e).hist = handed s.hist) ∨
      ∃ env order, e = .aggTick env ∧
        get (s.step args e).bpf = undrained order (get s.bpf) ∧
        handed (s.step args e).hist = handed s.hist ++ drained order (get s.bpf)

namespace View

variable {args : Args} {K V : Type} [DecidableEq K] [Zero V] (v : View args n K V)

/-- What a step can do to the map: add one return, drain, or nothing. -/
theorem step_cases (s : Sys n) (e : Event n) :
    (∃ ctx call rest, e = .ret ctx ∧ s.stack ctx.pidTgid = call :: rest ∧
      (s.step args e).hist.returns = s.hist.returns ++ [s.completed ctx call rest] ∧
      v.handed (s.step args e).hist = v.handed s.hist ∧
      v.get (s.step args e).bpf = v.get (call.probe.exit s.bpf ctx)) ∨
    ((s.step args e).hist.returns = s.hist.returns ∧
      ((v.get (s.step args e).bpf = v.get s.bpf ∧
          v.handed (s.step args e).hist = v.handed s.hist) ∨
        ∃ env order, e = .aggTick env ∧
          v.get (s.step args e).bpf = undrained order (v.get s.bpf) ∧
          v.handed (s.step args e).hist = v.handed s.hist ++ drained order (v.get s.bpf))) := by
  rcases Sys.step_cases args s e with ⟨p, ctx, -, hstep⟩ | ⟨ctx, call, rest, he, hs, hstep⟩ |
    ⟨ev, -, hstep⟩ | hbg
  · right
    rw [hstep]
    exact ⟨rfl, .inl ⟨v.get_enter s.bpf ctx p, rfl⟩⟩
  · left
    refine ⟨ctx, call, rest, he, hs, ?_, ?_, ?_⟩
    · rw [hstep]
    · rw [hstep]
      exact v.handed_returns s.hist _
    · rw [hstep]
  · right
    rw [hstep]
    exact ⟨rfl, .inl ⟨v.get_evict s.bpf ev, rfl⟩⟩
  · exact .inr ⟨hbg.returns, v.background s e hbg⟩

/-! ## Conservation -/

section Conservation

variable {W : Type*} [AddCommMonoid W] (w : K → V → W) (c : Completed n → W)

/-- The weight of everything handed to the event loop. -/
def handedSum (h : History n) : W :=
  ((v.handed h).map fun kv => (kv.2.map (w kv.1)).sum).sum

/-- The weight of everything still in the map. -/
def storedSum (b : Bpf n) : W := (v.get b).sum w

/-- A return of this run finds room for its key, and its item weighs `c`. -/
def Absorbs (s : Sys n) : Event n → Prop
  | .ret ctx => ∀ call rest, s.stack ctx.pidTgid = call :: rest →
      ∀ k, v.key (s.completed ctx call rest) = some k →
        (v.get s.bpf).HasRoom k ∧
          w k (v.add (s.completed ctx call rest) ((v.get s.bpf).slot ctx.cpu k)) =
            w k ((v.get s.bpf).slot ctx.cpu k) + c (s.completed ctx call rest)
  | _ => True

/-- A return that finds room moves the stored weight by the weight of its item. -/
theorem storedSum_exit (hzero : ∀ k, w k 0 = 0) (hnone : ∀ r, v.key r = none → c r = 0)
    {s : Sys n} {ctx : Ctx n} {call : OpenCall} {rest : List OpenCall}
    (hs : s.stack ctx.pidTgid = call :: rest) (habs : v.Absorbs w c s (.ret ctx)) :
    v.storedSum w (call.probe.exit s.bpf ctx) =
      v.storedSum w s.bpf + c (s.completed ctx call rest) := by
  unfold storedSum
  rw [v.get_exit s ctx call rest]
  cases hk : v.key (s.completed ctx call rest) with
  | none => simp [hnone _ hk]
  | some k =>
    obtain ⟨hroom, hadd⟩ := habs call rest hs k hk
    have hsome := (PerCpuMap.accumulate_isSome_iff (v.get s.bpf) ctx.cpu k
      (v.add (s.completed ctx call rest)) (v.add (s.completed ctx call rest) 0)).mpr hroom
    obtain ⟨m', hm'⟩ := Option.isSome_iff_exists.mp hsome
    simp only [hm', Option.getD_some]
    exact PerCpuMap.sum_accumulate hm' rfl w (hzero k) _ hadd

/-- A return that finds no room for its key leaves the map alone. -/
theorem get_exit_of_full {s : Sys n} {ctx : Ctx n} {call : OpenCall} {rest : List OpenCall}
    {k : K} (hk : v.key (s.completed ctx call rest) = some k) (hfull : ¬(v.get s.bpf).HasRoom k) :
    v.get (call.probe.exit s.bpf ctx) = v.get s.bpf := by
  have hnone : (v.get s.bpf).accumulate ctx.cpu k (v.add (s.completed ctx call rest))
      (v.add (s.completed ctx call rest) 0) = none := by
    rw [← Option.not_isSome_iff_eq_none, PerCpuMap.accumulate_isSome_iff]
    exact hfull
  rw [v.get_exit s ctx call rest]
  simp only [hk, hnone, Option.getD_none]

/-- A return adds at most one key. -/
theorem size_get_exit_le (s : Sys n) (ctx : Ctx n) (call : OpenCall) (rest : List OpenCall) :
    (v.get (call.probe.exit s.bpf ctx)).slots.size ≤ (v.get s.bpf).slots.size + 1 := by
  rw [v.get_exit s ctx call rest]
  cases v.key (s.completed ctx call rest) with
  | none => exact Nat.le_succ _
  | some k =>
    dsimp only
    cases hm : (v.get s.bpf).accumulate ctx.cpu k (v.add (s.completed ctx call rest))
        (v.add (s.completed ctx call rest) 0) with
    | none => exact Nat.le_succ _
    | some m' =>
      obtain ⟨-, hslots⟩ := PerCpuMap.accumulate_eq_some hm rfl
      rw [Option.getD_some, hslots]
      exact FinMap.size_insert_le _ _ _

/-- What a step does to the map: nothing, one addition that finds room, or a drain. -/
theorem get_cases (s : Sys n) (e : Event n) :
    v.get (s.step args e).bpf = v.get s.bpf ∨
    (∃ ctx call rest k, e = .ret ctx ∧ s.stack ctx.pidTgid = call :: rest ∧
      (v.get s.bpf).accumulate ctx.cpu k (v.add (s.completed ctx call rest))
        (v.add (s.completed ctx call rest) 0) = some (v.get (s.step args e).bpf)) ∨
    ∃ order, v.get (s.step args e).bpf = undrained order (v.get s.bpf) := by
  rcases v.step_cases s e with ⟨ctx, call, rest, he, hs, -, -, hget⟩ |
    ⟨-, ⟨hget, -⟩ | ⟨-, order, -, hget, -⟩⟩
  · rw [hget, v.get_exit s ctx call rest]
    cases v.key (s.completed ctx call rest) with
    | none => exact .inl rfl
    | some k =>
      dsimp only
      cases hm : (v.get s.bpf).accumulate ctx.cpu k (v.add (s.completed ctx call rest))
          (v.add (s.completed ctx call rest) 0) with
      | none => exact .inl rfl
      | some m' => exact .inr (.inl ⟨ctx, call, rest, k, he, hs, hm⟩)
  · exact .inl hget
  · exact .inr (.inr ⟨order, hget⟩)

/-- The capacity of the map never changes. -/
theorem maxEntries_step (s : Sys n) (e : Event n) :
    (v.get (s.step args e).bpf).maxEntries = (v.get s.bpf).maxEntries := by
  rcases v.get_cases s e with hget | ⟨ctx, call, rest, k, -, -, hm⟩ | ⟨order, hget⟩
  · rw [hget]
  · exact (PerCpuMap.accumulate_eq_some hm rfl).1
  · rw [hget]
    exact Runs.foldl_frame (fun m : PerCpuMap n K V => m.maxEntries) PerCpuMap.delete
      (fun _ _ => rfl) _ _

/-- One step keeps the balance of a map. -/
theorem balance_step (hzero : ∀ k, w k 0 = 0) (hnone : ∀ r, v.key r = none → c r = 0)
    {s : Sys n} {e : Event n} (habs : v.Absorbs w c s e)
    (h : v.handedSum w s.hist + v.storedSum w s.bpf = (s.hist.returns.map c).sum) :
    v.handedSum w (s.step args e).hist + v.storedSum w (s.step args e).bpf =
      ((s.step args e).hist.returns.map c).sum := by
  rcases v.step_cases s e with ⟨ctx, call, rest, rfl, hs, hret, hhand, hget⟩ |
    ⟨hret, ⟨hget, hhand⟩ | ⟨-, order, -, hget, hhand⟩⟩
  · have hexit := v.storedSum_exit w c hzero hnone hs habs
    have hstored : v.storedSum w (s.step args (.ret ctx)).bpf =
        v.storedSum w (call.probe.exit s.bpf ctx) := by
      unfold storedSum
      rw [hget]
    rw [hret, hstored, hexit, List.map_append, List.sum_append, ← h]
    simp [handedSum, hhand, add_assoc]
  · rw [hret, ← h]
    simp [handedSum, storedSum, hhand, hget]
  · -- a drain moves weight from the map to the handed rows
    have hdrain := sum_drained w order (v.get s.bpf)
    rw [hret, ← h]
    simp only [handedSum, storedSum, hhand, hget, List.map_append, List.sum_append]
    rw [add_assoc, hdrain]

/-- **Conservation.** In every run whose returns find room, what was handed to the event
    loop and what is still stored add up to what the returns added. -/
theorem conserved (hzero : ∀ k, w k 0 = 0) (hnone : ∀ r, v.key r = none → c r = 0)
    {es : List (Event n)} (hes : Sys.Permitted args (v.Absorbs w c) es) :
    v.handedSum w (Sys.run args n es).hist + v.storedSum w (Sys.run args n es).bpf =
      ((Sys.run args n es).hist.returns.map c).sum := by
  refine Sys.invariant_permitted
    (fun s => v.handedSum w s.hist + v.storedSum w s.bpf = (s.hist.returns.map c).sum) ?_
    (fun s e h habs => v.balance_step w c hzero hnone habs h) hes
  have hstored : v.storedSum w (Sys.init n args).bpf = 0 := by
    unfold storedSum PerCpuMap.sum
    rw [show (Sys.init n args).bpf = Bpf.init n args from rfl, v.init_slots]
    rfl
  have hhanded : v.handedSum w (Sys.init n args).hist = 0 := by
    unfold handedSum
    rw [v.init_handed]
    rfl
  rw [hstored, hhanded, add_zero]
  rfl

end Conservation

/-- Every return of the run finds room for its key. -/
def Room (s : Sys n) : Event n → Prop
  | .ret ctx => ∀ call rest, s.stack ctx.pidTgid = call :: rest →
      ∀ k, v.key (s.completed ctx call rest) = some k → (v.get s.bpf).HasRoom k
  | _ => True

theorem absorbs_of_room {W : Type*} [AddCommMonoid W] {w : K → V → W} {c : Completed n → W}
    (hadd : ∀ r k, v.key r = some k → ∀ val, w k (v.add r val) = w k val + c r)
    {s : Sys n} {e : Event n} (h : v.Room s e) : v.Absorbs w c s e := by
  cases e with
  | ret ctx =>
    intro call rest hs k hk
    exact ⟨h call rest hs k hk, hadd _ k hk _⟩
  | _ => trivial

/-! ## Values -/

/-- Every slot of the map satisfies `I`. -/
def AllValues (I : V → Prop) (b : Bpf n) : Prop :=
  ∀ k vals, (v.get b).slots.lookup k = some vals → ∀ cpu, I (vals cpu)

theorem allValues_accumulate {I J : V → Prop} (hzero : I 0) (hmono : ∀ val, I val → J val)
    {m m' : PerCpuMap n K V}
    (h : ∀ k vals, m.slots.lookup k = some vals → ∀ cpu, I (vals cpu)) {cpu : Fin n} {k : K}
    {add : V → V} (hadd : ∀ val, I val → J (add val))
    (hm : m.accumulate cpu k add (add 0) = some m') :
    ∀ k' vals, m'.slots.lookup k' = some vals → ∀ cpu', J (vals cpu') := by
  obtain ⟨-, hslots⟩ := PerCpuMap.accumulate_eq_some hm rfl
  -- the row that is written: what was there, or zeros
  have hrow : ∀ cpu', I (((m.slots.lookup k).getD fun _ => 0) cpu') := by
    intro cpu'
    cases hl : m.slots.lookup k with
    | none => exact hzero
    | some vals => exact h k vals hl cpu'
  have hslot : I (m.slot cpu k) := by
    have := hrow cpu
    unfold PerCpuMap.slot PerCpuMap.lookup
    cases hl : m.slots.lookup k <;> simpa [hl] using this
  intro k' vals hl cpu'
  rw [hslots] at hl
  rcases FinMap.lookup_insert_cases hl with ⟨rfl, rfl⟩ | ⟨-, hold⟩
  · by_cases hc : cpu' = cpu
    · subst hc
      simpa using hadd _ hslot
    · simpa [hc] using hmono _ (hrow cpu')
  · exact hmono _ (h k' vals hold cpu')

/-- The slots satisfy `J` after a step if they satisfy `I` before it and a call that returns makes
    `J` out of `I`. -/
theorem allValues_step {I J : V → Prop} (hzero : I 0) (hmono : ∀ val, I val → J val) {s : Sys n}
    {e : Event n}
    (hadd : ∀ ctx call rest, e = .ret ctx → s.stack ctx.pidTgid = call :: rest →
      ∀ val, I val → J (v.add (s.completed ctx call rest) val))
    (h : v.AllValues I s.bpf) : v.AllValues J (s.step args e).bpf := by
  unfold AllValues
  rcases v.get_cases s e with hget | ⟨ctx, call, rest, k, he, hs, hm⟩ | ⟨order, hget⟩
  · rw [hget]
    exact fun k vals hl cpu => hmono _ (h k vals hl cpu)
  · exact allValues_accumulate hzero hmono h (hadd ctx call rest he hs) hm
  · rw [hget]
    exact fun k vals hl cpu => hmono _ (h k vals (lookup_undrained hl) cpu)

theorem allValues_init (I : V → Prop) : v.AllValues I (Sys.init n args).bpf := by
  intro k vals hl
  rw [show (Sys.init n args).bpf = Bpf.init n args from rfl, v.init_slots] at hl
  simp at hl

/-- A slot counts at most `m` for each call that has returned, if no call adds more. -/
theorem allValues_count_le (count : V → ℕ) (hzero : count 0 = 0) {m : ℕ}
    (hadd : ∀ (s : Sys n) ctx call rest val, Sys.ConfigOk args s.bpf →
      count (v.add (s.completed ctx call rest) val) ≤ count val + m) (es : List (Event n)) :
    v.AllValues (count · ≤ (Sys.run args n es).hist.returns.length * m)
      (Sys.run args n es).bpf := by
  refine Sys.invariant_run (fun s => Sys.ConfigOk args s.bpf ∧
    v.AllValues (count · ≤ s.hist.returns.length * m) s.bpf)
    ⟨Sys.configOk_init args, v.allValues_init _⟩ ?_ es |>.2
  rintro s e ⟨hcfg, h⟩
  have hle : s.hist.returns.length ≤ (s.step args e).hist.returns.length := by
    rcases v.step_cases s e with ⟨ctx, call, rest, -, -, hret, -⟩ | ⟨hret, -⟩ <;> simp [hret]
  refine ⟨Sys.configOk_step hcfg e, v.allValues_step (by simp [hzero])
    (fun val hval => hval.trans (Nat.mul_le_mul_right m hle)) ?_ h⟩
  rintro ctx call rest rfl hs val hval
  simp only [Sys.step, Sys.ret_cons hs, List.length_append, List.length_singleton, Nat.add_mul,
    Nat.one_mul]
  exact (hadd s ctx call rest val hcfg).trans (Nat.add_le_add_right hval m)

end View

/-! ## The three maps -/

namespace Completed

variable (r : Completed n)

/-- The entry that went to `AGGREGATED`. -/
def aggEntry : Option EntryData := r.recorded.filter (profiIsAggregatable ·.eventType)

/-- The entry that went to `NCCL_AGG`. -/
def ncclEntry : Option EntryData := r.recorded.filter (profiIsNcclEvent ·.eventType)

/-- The entry that went to `LAUNCH_AGG`. -/
def launchEntry : Option EntryData := r.recorded.filter (·.eventType = .cudaLaunchKernel)

/-- How long the recorded call took. -/
def durationNs (entry : EntryData) : U64 := Bpf.durationNs r.ctx.ktimeNs entry.timestampNs

def aggItem (entry : EntryData) : AggItem := ⟨r.sampleMul, r.durationNs entry, entry.arg0⟩

def ncclItem (entry : EntryData) : NcclItem := Bpf.ncclItem r.ctx entry

def launchItem (entry : EntryData) : LaunchItem := Bpf.launchItem r.ctx entry

def aggKey (entry : EntryData) : AggKey := Bpf.aggKey r.ctx entry

def ncclKey (entry : EntryData) : AggKey := Bpf.ncclKey r.ctx entry

def launchKey (entry : EntryData) : LaunchKey := Bpf.launchKeyIn r.mode r.ctx entry

end Completed

/-- Add the item of an entry, if there is one. -/
def addItem {V X : Type} (add : V → X → V) (item : EntryData → X) (entry : Option EntryData)
    (val : V) : V :=
  match entry with
  | some entry => add val (item entry)
  | none => val

/-- What adding an item preserves, adding the item of an entry does. -/
theorem addItem_mono {V X : Type} {I J : V → Prop} (hmono : ∀ val, I val → J val)
    {add : V → X → V} {item : EntryData → X}
    (hadd : ∀ entry val, I val → J (add val (item entry))) (entry : Option EntryData) (val : V)
    (h : I val) : J (addItem add item entry val) := by
  cases entry with
  | none => exact hmono val h
  | some entry => exact hadd entry val h

theorem count_addItem_le {V X : Type} (count : V → ℕ) (add : V → X → V) {item : EntryData → X}
    {m : ℕ} (hadd : ∀ entry val, count (add val (item entry)) ≤ count val + m)
    (entry : Option EntryData) (val : V) :
    count (addItem add item entry val) ≤ count val + m := by
  cases entry with
  | none => exact Nat.le_add_right _ _
  | some entry => exact hadd entry val

private theorem recordOpt_get {K V : Type} {get : Bpf n → PerCpuMap n K V} {b : Bpf n}
    {ctx : Ctx n} {keep : EntryData → Bool} {f : EntryData → PerCpuMap n K V}
    (h : ∀ entry, get (b.record ctx entry) = if keep entry then f entry else get b)
    (recorded : Option EntryData) :
    get (b.recordOpt ctx recorded) =
      match recorded.filter keep with
      | none => get b
      | some entry => f entry := by
  cases recorded with
  | none => rfl
  | some entry =>
    simp only [Bpf.recordOpt, h, Option.filter_some]
    cases keep entry <;> rfl

/-- What recording does to a map, given what it does for entries of the map's kind. -/
private theorem get_recordOpt_eq {K V X : Type} [DecidableEq K] [Zero V]
    (get : Bpf n → PerCpuMap n K V) (keep : EntryData → Bool) {b : Bpf n} {ctx : Ctx n}
    {key : EntryData → K} {item : EntryData → X} {add : V → X → V}
    (h : ∀ entry, get (b.record ctx entry) =
      if keep entry then
        ((get b).accumulate ctx.cpu (key entry) (add · (item entry))
          (add 0 (item entry))).getD (get b)
      else get b)
    (recorded : Option EntryData) :
    get (b.recordOpt ctx recorded) =
      match (recorded.filter keep).map key with
      | none => get b
      | some k =>
        ((get b).accumulate ctx.cpu k (addItem add item (recorded.filter keep))
          (addItem add item (recorded.filter keep) 0)).getD (get b) := by
  rw [recordOpt_get h]
  cases recorded.filter keep <;> rfl

namespace Bpf

theorem recordAggregated_eq (b : Bpf n) (ctx : Ctx n) (entry : EntryData) :
    (b.recordAggregated ctx entry).aggregated =
      (b.aggregated.accumulate ctx.cpu (aggKey ctx entry) (·.add (b.aggItem ctx entry))
        (AggValue.add 0 (b.aggItem ctx entry))).getD b.aggregated := by
  simp only [recordAggregated, AggValue.fresh_eq_add_zero]
  split <;> simp_all

theorem recordNccl_eq (b : Bpf n) (ctx : Ctx n) (entry : EntryData) :
    (b.recordNccl ctx entry).ncclAgg =
      (b.ncclAgg.accumulate ctx.cpu (ncclKey ctx entry) (·.add (ncclItem ctx entry))
        (NcclAggValue.add 0 (ncclItem ctx entry))).getD b.ncclAgg := by
  simp only [recordNccl, NcclAggValue.fresh_eq_add_zero]
  split <;> simp_all

theorem recordLaunch_eq (b : Bpf n) (ctx : Ctx n) (entry : EntryData) :
    (b.recordLaunch ctx entry).launchAgg =
      (b.launchAgg.accumulate ctx.cpu (b.launchKey ctx entry) (·.add (launchItem ctx entry))
        (LaunchAggValue.add 0 (launchItem ctx entry))).getD b.launchAgg := by
  simp only [recordLaunch, LaunchAggValue.fresh_eq_add_zero]
  split <;> simp_all

end Bpf

/-- `AGGREGATED`. -/
def aggView (args : Args) (n : ℕ) : View args n AggKey AggValue where
  get b := b.aggregated
  handed h := h.aggHanded
  key r := r.aggEntry.map r.aggKey
  add r := addItem AggValue.add r.aggItem r.aggEntry
  init_slots := rfl
  init_handed := rfl
  handed_returns _ _ := rfl
  get_enter b ctx p := by rw [Probe.enter_frame]
  get_evict b ev := by cases ev <;> rfl
  get_exit s ctx call rest := by
    rw [Probe.exit_eq]
    apply get_recordOpt_eq (fun b : Bpf n => b.aggregated)
      (fun entry => profiIsAggregatable entry.eventType)
    intro entry
    rw [Bpf.record_aggregated, Bpf.recordAggregated_eq]
    rfl
  background s e hbg := by
    rcases Sys.background_cases hbg with ⟨env, rfl⟩ | hsame
    · right
      refine ⟨env, env.aggOrder, rfl, ?_, rfl⟩
      simp only [Sys.step]
      rw [Sys.aggTick_bpf]
    · exact .inl ⟨hsame.aggregated, hsame.aggHanded⟩

/-- `NCCL_AGG`. -/
def ncclView (args : Args) (n : ℕ) : View args n AggKey NcclAggValue where
  get b := b.ncclAgg
  handed h := h.ncclHanded
  key r := r.ncclEntry.map r.ncclKey
  add r := addItem NcclAggValue.add r.ncclItem r.ncclEntry
  init_slots := rfl
  init_handed := rfl
  handed_returns _ _ := rfl
  get_enter b ctx p := by rw [Probe.enter_frame]
  get_evict b ev := by cases ev <;> rfl
  get_exit s ctx call rest := by
    rw [Probe.exit_eq]
    apply get_recordOpt_eq (fun b : Bpf n => b.ncclAgg)
      (fun entry => profiIsNcclEvent entry.eventType)
    intro entry
    rw [Bpf.record_ncclAgg, Bpf.recordNccl_eq]
    rfl
  background s e hbg := by
    rcases Sys.background_cases hbg with ⟨env, rfl⟩ | hsame
    · right
      refine ⟨env, env.ncclOrder, rfl, ?_, rfl⟩
      simp only [Sys.step]
      rw [Sys.aggTick_bpf]
    · exact .inl ⟨hsame.ncclAgg, hsame.ncclHanded⟩

/-- `LAUNCH_AGG`. With detailed tracing it is never drained. -/
def launchView (args : Args) (n : ℕ) : View args n LaunchKey LaunchAggValue where
  get b := b.launchAgg
  handed h := h.launchHanded
  key r := r.launchEntry.map r.launchKey
  add r := addItem LaunchAggValue.add r.launchItem r.launchEntry
  init_slots := rfl
  init_handed := rfl
  handed_returns _ _ := rfl
  get_enter b ctx p := by rw [Probe.enter_frame]
  get_evict b ev := by cases ev <;> rfl
  get_exit s ctx call rest := by
    rw [Probe.exit_eq]
    apply get_recordOpt_eq (fun b : Bpf n => b.launchAgg)
      (fun entry => decide (entry.eventType = .cudaLaunchKernel))
    intro entry
    rw [Bpf.record_launchAgg, Bpf.recordLaunch_eq]
    simp only [decide_eq_true_eq]
    rfl
  background s e hbg := by
    rcases Sys.background_cases hbg with ⟨env, rfl⟩ | hsame
    · cases hd : args.detailedLaunches with
      | true =>
        left
        refine ⟨?_, by simp [Sys.step, Sys.aggTick, Sys.handOut, hd]⟩
        simp only [Sys.step]
        rw [Sys.aggTick_bpf]
        simp [hd]
      | false =>
        right
        refine ⟨env, env.launchOrder, rfl, ?_, by simp [Sys.step, Sys.aggTick, Sys.handOut, hd]⟩
        simp only [Sys.step]
        rw [Sys.aggTick_bpf]
        simp [hd]
    · exact .inl ⟨hsame.launchAgg, hsame.launchHanded⟩

end Profi
