import Profi.PidSeries

/-!
# Hung Collectives

The hang detector of a gc tick walks over the calls in flight and counts every collective that is
older than the timeout. It does not remember which ones it counted, so a call that hangs for several
ticks is counted at each of them.

To tell calls from observations, `HangSys` numbers the calls as they are entered, remembers whose
entry a thread's slot holds, and notes for each increment of the counter which call it is for. Each
call is counted once exactly if no tick finds a call that an earlier tick found
(`HangSys.countedOnce_iff`).
-/

namespace Profi

variable {n : ℕ}

/-! ## What the detector finds -/

/-- An NCCL call that is in flight for longer than the timeout. -/
def EntryData.Overdue (timeoutNs nowNs : U64) (entry : EntryData) : Prop :=
  profiIsNcclEvent entry.eventType = true ∧
    nowNs.toNat - entry.timestampNs.toNat > timeoutNs.toNat

instance (timeoutNs nowNs : U64) (entry : EntryData) :
    Decidable (entry.Overdue timeoutNs nowNs) :=
  inferInstanceAs (Decidable (_ ∧ _))

/-- The process of a slot, `(key >> 32) as u32`. -/
def slotPid (key : U64) : U32 := (key >>> 32).setWidth 32

/-- The slots of the calls the detector reports, in its order. -/
def overdue (timeoutNs : U64) (env : GcEnv) (inflight : FinMap U64 EntryData) :
    List (U64 × EntryData) :=
  if timeoutNs > 0 then
    (env.inflightOrder.order inflight.keys).filterMap fun key =>
      (inflight.lookup key).bind fun entry =>
        if entry.Overdue timeoutNs env.nowNs then some (key, entry) else none
  else []

theorem hung_eq_map_overdue (timeoutNs : U64) (env : GcEnv) (inflight : FinMap U64 EntryData) :
    hung timeoutNs env inflight =
      (overdue timeoutNs env inflight).map fun x => (slotPid x.1, x.2.eventType) := by
  unfold hung overdue
  split
  · rw [List.map_filterMap]
    apply List.filterMap_congr
    intro key _
    cases inflight.lookup key with
    | none => rfl
    | some entry =>
      rw [Option.bind_some]
      by_cases hold : entry.Overdue timeoutNs env.nowNs
      · rw [if_pos hold]
        exact if_pos hold
      · rw [if_neg hold]
        exact if_neg hold
  · rfl

theorem mem_overdue_iff {timeoutNs : U64} {env : GcEnv} {inflight : FinMap U64 EntryData}
    {x : U64 × EntryData} :
    x ∈ overdue timeoutNs env inflight ↔
      timeoutNs > 0 ∧ inflight.lookup x.1 = some x.2 ∧ x.2.Overdue timeoutNs env.nowNs := by
  unfold overdue
  split
  next htimeout =>
    rw [List.mem_filterMap]
    constructor
    · rintro ⟨key, -, hx⟩
      -- the slot is still there when it is looked up, and old enough
      obtain ⟨entry, hentry, hx⟩ := Option.bind_eq_some_iff.mp hx
      split at hx
      next hold =>
        cases hx
        exact ⟨htimeout, hentry, hold⟩
      · cases hx
    · rintro ⟨-, hentry, hold⟩
      have hkey : x.1 ∈ env.inflightOrder.order inflight.keys :=
        (env.inflightOrder.perm _).mem_iff.mpr (FinMap.mem_keys_of_lookup hentry)
      exact ⟨x.1, hkey, by simp [hentry, hold]⟩
  next htimeout => simp only [List.not_mem_nil, htimeout, false_and]

/-- The detector looks at each slot once. -/
theorem nodup_overdue (timeoutNs : U64) (env : GcEnv) (inflight : FinMap U64 EntryData) :
    ((overdue timeoutNs env inflight).map Prod.fst).Nodup := by
  unfold overdue
  split
  · have hkeys : (env.inflightOrder.order inflight.keys).Nodup :=
      (env.inflightOrder.perm _).nodup_iff.mpr inflight.keys_nodup
    rw [List.map_filterMap]
    -- what is kept of a slot is its own key
    have hself : ∀ key key' : U64, key' ∈ ((inflight.lookup key).bind fun entry =>
        if entry.Overdue timeoutNs env.nowNs then some (key, entry) else none).map Prod.fst →
          key' = key := by
      intro key key' hkey
      obtain ⟨x, hx, rfl⟩ := Option.map_eq_some_iff.mp hkey
      obtain ⟨entry, -, hx⟩ := Option.bind_eq_some_iff.mp hx
      split at hx
      · cases hx
        rfl
      · cases hx
    apply hkeys.filterMap
    intro key key' b hb hb'
    exact (hself key b hb).symm.trans (hself key' b hb')
  · exact List.nodup_nil

/-! ## The system with numbered calls -/

/-- The entry program leaves an entry of its own in the slot of the thread. -/
def Probe.Saves (b : Bpf n) (ctx : Ctx n) (p : Probe) : Prop :=
  (b.inflight.lookup ctx.pidTgid = none ∨ p.isModuleGetFunction = true) ∧ p.stores b ctx = true

instance (b : Bpf n) (ctx : Ctx n) (p : Probe) : Decidable (p.Saves b ctx) :=
  inferInstanceAs (Decidable (_ ∧ _))

/-- The system with its calls numbered, for specifications: `calls` were entered so far, `owner` is
    the call whose entry a slot holds, and `found` has, for each increment of the counter, the call
    it is for with the labels. -/
structure HangSys (n : ℕ) where
  base : GcSys n
  owner : U64 → ℕ
  calls : ℕ
  found : List (ℕ × U32 × EventType)

namespace HangSys

section

variable (args : Args) (timeoutNs : U64)

def init (n : ℕ) : HangSys n := ⟨.init args n, fun _ => 0, 0, []⟩

/-- The increments of a step. -/
def finds (s : HangSys n) (e : GcEvent n) : List (ℕ × U32 × EventType) :=
  match e.event with
  | .gcTick _ =>
    (overdue timeoutNs e.env s.base.sys.bpf.inflight).map fun x =>
      (s.owner x.1, slotPid x.1, x.2.eventType)
  | _ => []

def step (s : HangSys n) (e : GcEvent n) : HangSys n where
  base := s.base.step args timeoutNs e
  owner :=
    match e.event with
    | .enter p ctx =>
      -- an inner call leaves the slot to the outer one
      if p.Saves s.base.sys.bpf ctx then Function.update s.owner ctx.pidTgid s.calls else s.owner
    | _ => s.owner
  calls :=
    match e.event with
    | .enter _ _ => s.calls + 1
    | _ => s.calls
  found := s.found ++ s.finds timeoutNs e

/-- What a call has contributed to the counter. -/
def contribution (s : HangSys n) (call : ℕ) : ℕ := (s.found.map Prod.fst).count call

/-- The step is a gc tick, and at its time the call is an NCCL call in flight for longer than the
    timeout. -/
def Finds (s : HangSys n) (e : GcEvent n) (call : ℕ) : Prop :=
  (∃ env, e.event = .gcTick env) ∧ timeoutNs > 0 ∧
    ∃ key entry, s.base.sys.bpf.inflight.lookup key = some entry ∧ s.owner key = call ∧
      entry.Overdue timeoutNs e.env.nowNs

/-- A gc tick finds no call that an earlier one found. -/
def FindsNew (s : HangSys n) (e : GcEvent n) : Prop :=
  ∀ call, s.Finds timeoutNs e call → ∀ note ∈ s.found, note.1 ≠ call

end

variable {args : Args} {timeoutNs : U64}

theorem finds_iff {s : HangSys n} {e : GcEvent n} {call : ℕ} :
    s.Finds timeoutNs e call ↔ call ∈ (s.finds timeoutNs e).map Prod.fst := by
  unfold Finds finds
  cases e with
  | mk event gcEnv =>
    cases event with
    | gcTick env =>
      simp only [List.map_map, List.mem_map, mem_overdue_iff, Function.comp_apply]
      constructor
      · rintro ⟨-, htimeout, key, entry, hentry, hcall, hold⟩
        exact ⟨(key, entry), ⟨htimeout, hentry, hold⟩, hcall⟩
      · rintro ⟨⟨key, entry⟩, ⟨htimeout, hentry, hold⟩, hcall⟩
        exact ⟨⟨env, rfl⟩, htimeout, key, entry, hentry, hcall, hold⟩
    | _ => simp

/-- The counter is incremented once for each note. -/
theorem hangs_eq (s : HangSys n) (e : GcEvent n) :
    s.base.hangs timeoutNs e = (s.finds timeoutNs e).map Prod.snd := by
  unfold GcSys.hangs finds
  cases e with
  | mk event gcEnv =>
    cases event with
    | gcTick env =>
      simp only [hung_eq_map_overdue, List.map_map]
      rfl
    | _ => rfl

end HangSys

/-! ## Slots and their owners -/

/-- What a step does to the slots: an entry program may fill the slot of its thread, everything else
    can only empty some. -/
theorem Sys.step_inflight (args : Args) (s : Sys n) (e : Event n) :
    (∃ p ctx, e = .enter p ctx ∧ (s.step args e).bpf.inflight = (p.enter s.bpf ctx).inflight) ∨
      (∀ p ctx, e ≠ .enter p ctx) ∧ ∀ key entry,
        (s.step args e).bpf.inflight.lookup key = some entry →
          s.bpf.inflight.lookup key = some entry := by
  have herase : ∀ (id key : U64) (entry : EntryData),
      (s.bpf.inflight.erase id).lookup key = some entry →
        s.bpf.inflight.lookup key = some entry := by
    intro id key entry h
    rw [FinMap.lookup_erase_eq_ite] at h
    split at h
    · cases h
    · exact h
  by_cases henter : ∃ p ctx, e = .enter p ctx
  · obtain ⟨p, ctx, rfl⟩ := henter
    exact .inl ⟨p, ctx, rfl, rfl⟩
  · have hother : ∀ p ctx, e ≠ .enter p ctx := fun p ctx he => henter ⟨p, ctx, he⟩
    refine .inr ⟨hother, fun key entry h => ?_⟩
    rcases step_cases args s e with ⟨p, ctx, he, -⟩ | ⟨ctx, call, rest, -, -, hstep⟩ |
      ⟨ev, -, hstep⟩ | hbg
    · exact absurd he (hother p ctx)
    · -- a return takes the entry of its thread
      rw [hstep] at h
      rw [Probe.exit_inflight] at h
      split at h
      · exact herase _ key entry h
      · exact h
    · rw [hstep] at h
      cases ev with
      | inflight id => exact herase id key entry h
      | _ => exact h
    · rw [hbg.bpf] at h
      exact h

namespace HangSys

variable {args : Args} {timeoutNs : U64}

/-- The invariant: no two slots have the same owner, and numbers are not given twice. -/
structure Numbered (s : HangSys n) : Prop where
  owner_lt : ∀ key entry, s.base.sys.bpf.inflight.lookup key = some entry → s.owner key < s.calls
  owner_inj : ∀ key entry key' entry', s.base.sys.bpf.inflight.lookup key = some entry →
    s.base.sys.bpf.inflight.lookup key' = some entry' → s.owner key = s.owner key' → key = key'

theorem numbered_init (n : ℕ) : (init args n).Numbered where
  owner_lt key entry h := by cases h
  owner_inj key entry key' entry' h := by cases h

/-- A slot keeps its owner, or it is that of one thread and gets a number no slot has. -/
theorem Numbered.of_slots {s t : HangSys n} (h : s.Numbered) (id : U64) (hcalls : s.calls ≤ t.calls)
    (hslots : ∀ key entry, t.base.sys.bpf.inflight.lookup key = some entry →
      key = id ∧ t.owner key = s.calls ∧ s.calls < t.calls ∨
        s.base.sys.bpf.inflight.lookup key = some entry ∧ t.owner key = s.owner key) :
    t.Numbered where
  owner_lt key entry hkey := by
    rcases hslots key entry hkey with ⟨-, hnew, hlt⟩ | ⟨hold, hsame⟩
    · omega
    · have hlt := h.owner_lt key entry hold
      omega
  owner_inj key entry key' entry' hkey hkey' heq := by
    -- the new number is greater than all that are in use
    rcases hslots key entry hkey with ⟨rfl, hnew, -⟩ | ⟨hold, hsame⟩ <;>
      rcases hslots key' entry' hkey' with ⟨rfl, hnew', -⟩ | ⟨hold', hsame'⟩
    · rfl
    · have hlt := h.owner_lt key' entry' hold'
      omega
    · have hlt := h.owner_lt key entry hold
      omega
    · rw [hsame, hsame'] at heq
      exact h.owner_inj key entry key' entry' hold hold' heq

/-- The slot that an entry fills gets a number no call has had. -/
theorem Numbered.enter {s : HangSys n} (h : s.Numbered) (p : Probe) (ctx : Ctx n) (gcEnv : GcEnv) :
    (s.step args timeoutNs ⟨.enter p ctx, gcEnv⟩).Numbered := by
  have hinflight : (s.step args timeoutNs ⟨.enter p ctx, gcEnv⟩).base.sys.bpf.inflight =
      if p.Saves s.base.sys.bpf ctx then
        s.base.sys.bpf.inflight.insert ctx.pidTgid (p.entryData s.base.sys.bpf ctx)
      else s.base.sys.bpf.inflight :=
    Probe.enter_inflight s.base.sys.bpf ctx p
  have howner : (s.step args timeoutNs ⟨.enter p ctx, gcEnv⟩).owner =
      if p.Saves s.base.sys.bpf ctx then Function.update s.owner ctx.pidTgid s.calls
      else s.owner := rfl
  apply h.of_slots ctx.pidTgid (Nat.le_succ s.calls)
  intro key entry hkey
  rw [hinflight] at hkey
  rw [howner]
  split
  next hsaves =>
    rw [if_pos hsaves, FinMap.lookup_insert_eq_ite] at hkey
    split at hkey
    next hself =>
      subst hself
      exact .inl ⟨rfl, Function.update_self _ _ _, Nat.lt_succ_self s.calls⟩
    next hne => exact .inr ⟨hkey, Function.update_of_ne hne _ _⟩
  next hsaves =>
    rw [if_neg hsaves] at hkey
    exact .inr ⟨hkey, rfl⟩

theorem Numbered.step {s : HangSys n} (h : s.Numbered) (e : GcEvent n) :
    (s.step args timeoutNs e).Numbered := by
  rcases Sys.step_inflight args s.base.sys e.event with ⟨p, ctx, henter, -⟩ | ⟨hother, hslots⟩
  · obtain ⟨event, gcEnv⟩ := e
    subst henter
    exact h.enter p ctx gcEnv
  · have hkept : (s.step args timeoutNs e).owner = s.owner ∧
        (s.step args timeoutNs e).calls = s.calls := by
      -- no entry program runs, so both matches fall through
      unfold HangSys.step
      exact ⟨by simp only, by simp only⟩
    apply h.of_slots 0 hkept.2.ge
    intro key entry hkey
    exact .inr ⟨hslots key entry hkey, congrFun hkept.1 key⟩

/-- A tick finds no call twice. -/
theorem Numbered.nodup_finds {s : HangSys n} (h : s.Numbered) (e : GcEvent n) :
    ((s.finds timeoutNs e).map Prod.fst).Nodup := by
  unfold finds
  split
  · rw [List.map_map]
    have hkeys := nodup_overdue timeoutNs e.env s.base.sys.bpf.inflight
    apply List.Nodup.map_on _ (List.Nodup.of_map _ hkeys)
    intro x hx y hy heq
    obtain ⟨-, hentry, -⟩ := mem_overdue_iff.mp hx
    obtain ⟨-, hentry', -⟩ := mem_overdue_iff.mp hy
    have hkey := h.owner_inj _ _ _ _ hentry hentry' heq
    rw [hkey, hentry'] at hentry
    exact Prod.ext hkey (Option.some.inj hentry).symm
  · exact List.nodup_nil

/-! ## Runs -/

theorem found_step (s : HangSys n) (e : GcEvent n) :
    (s.step args timeoutNs e).found = s.found ++ s.finds timeoutNs e := rfl

/-- Notes are never removed. -/
theorem found_sublist_run (s : HangSys n) (es : List (GcEvent n)) :
    s.found.Sublist (Runs.run (step args timeoutNs) s es).found :=
  Runs.run_invariant_of_step (I := fun t : HangSys n => s.found.Sublist t.found)
    (fun _ _ hsub => hsub.trans (List.sublist_append_left _ _)) (List.Sublist.refl _) es

/-- The counter has one for each note with its labels. -/
theorem counter_eq_notes (es : List (GcEvent n)) (labels : List String) :
    ((Runs.run (step args timeoutNs) (init args n) es).base.ncclHangDetected.value labels).getD 0 =
      (Runs.run (step args timeoutNs) (init args n) es).found.countP
        fun note => [operationName note.2.2, decString note.2.1] = labels := by
  refine Runs.run_invariant_of_step (I := fun s : HangSys n =>
    (s.base.ncclHangDetected.value labels).getD 0 =
      s.found.countP fun note => [operationName note.2.2, decString note.2.1] = labels) ?_ rfl es
  intro s e h
  have hcounter : (s.step args timeoutNs e).base.ncclHangDetected =
      ((s.finds timeoutNs e).map Prod.snd).foldl
        (fun m x => m.modifyAt 0 [operationName x.2, decString x.1] (· + 1))
        s.base.ncclHangDetected := by
    rw [← hangs_eq]
    rfl
  have hinc := MetricVec.value_foldl_inc
    (fun x : U32 × EventType => [operationName x.2, decString x.1])
    ((s.finds timeoutNs e).map Prod.snd) s.base.ncclHangDetected labels
  rw [hcounter, hinc, h, found_step, List.countP_append, List.countP_map]
  rfl

/-- A step finds new calls exactly if the notes after it are of different calls. -/
theorem Numbered.nodup_step_iff {s : HangSys n} (h : s.Numbered) (e : GcEvent n)
    (hnodup : (s.found.map Prod.fst).Nodup) :
    ((s.step args timeoutNs e).found.map Prod.fst).Nodup ↔ s.FindsNew timeoutNs e := by
  -- the notes so far, those of the step, and nothing in common
  rw [found_step, List.map_append, List.nodup_append]
  unfold FindsNew
  simp only [finds_iff]
  constructor
  · rintro ⟨-, -, hdisjoint⟩ call hcall note hnote
    exact hdisjoint note.1 (List.mem_map_of_mem hnote) call hcall
  · intro hnew
    refine ⟨hnodup, h.nodup_finds e, fun call hcall call' hcall' => ?_⟩
    obtain ⟨note, hnote, rfl⟩ := List.mem_map.mp hcall
    exact hnew call' hcall' note hnote

/-- Every call of the run contributes at most one, and one if a gc tick finds it. -/
def CountedOnce (args : Args) (timeoutNs : U64) (es : List (GcEvent n)) : Prop :=
  ∀ call, (Runs.run (step args timeoutNs) (init args n) es).contribution call ≤ 1 ∧
    ((∃ past e rest, es = past ++ e :: rest ∧
        (Runs.run (step args timeoutNs) (init args n) past).Finds timeoutNs e call) →
      (Runs.run (step args timeoutNs) (init args n) es).contribution call = 1)

theorem countedOnce_iff_nodup (es : List (GcEvent n)) :
    CountedOnce args timeoutNs es ↔
      ((Runs.run (step args timeoutNs) (init args n) es).found.map Prod.fst).Nodup := by
  rw [List.nodup_iff_count_le_one]
  constructor
  · intro h call
    exact (h call).1
  · intro h call
    refine ⟨h call, ?_⟩
    rintro ⟨past, e, rest, rfl, hfinds⟩
    -- what a tick finds is noted there, and stays
    have hnoted : call ∈ (Runs.run (step args timeoutNs) (init args n)
        (past ++ e :: rest)).found.map Prod.fst := by
      obtain ⟨note, hnote, rfl⟩ := List.mem_map.mp (finds_iff.mp hfinds)
      rw [Runs.run_append, Runs.run_cons]
      exact List.mem_map_of_mem ((found_sublist_run _ rest).subset (List.mem_append_right _ hnote))
    have hpos := List.count_pos_iff.mpr hnoted
    have hle := h call
    unfold contribution
    omega

/-- The counter has the contributions of the calls, and each call contributes at most one, and one
    if it is found, exactly if no gc tick finds a call that an earlier one found. -/
theorem countedOnce_iff (args : Args) (timeoutNs : U64) (es : List (GcEvent n)) :
    (∀ labels,
      ((Runs.run (step args timeoutNs) (init args n) es).base.ncclHangDetected.value
          labels).getD 0 =
        (Runs.run (step args timeoutNs) (init args n) es).found.countP
          fun note => [operationName note.2.2, decString note.2.1] = labels) ∧
      (CountedOnce args timeoutNs es ↔
        Runs.Along (step args timeoutNs) (FindsNew timeoutNs) (init args n) es) := by
  refine ⟨counter_eq_notes es, ?_⟩
  rw [countedOnce_iff_nodup, ← Runs.forall_take_iff_along (P := fun _ _ => True) (I := Numbered)
    (J := fun s => (s.found.map Prod.fst).Nodup) (fun s e h _ => h.step e)
    (fun s e h _ hnodup => h.nodup_step_iff e hnodup) (numbered_init n) List.nodup_nil
    (Runs.along_true _ _ es)]
  constructor
  · -- the notes of a part of the run are among those of the run
    intro hnodup k
    have hsub := @found_sublist_run n args timeoutNs
      (Runs.run (step args timeoutNs) (init args n) (es.take k)) (es.drop k)
    rw [← Runs.run_append, List.take_append_drop] at hsub
    exact hnodup.sublist (hsub.map _)
  · intro hall
    have hfull := hall es.length
    rwa [List.take_length] at hfull

/-- A collective is in flight from time 0 on, and gc ticks come after 31 and after 61 seconds. -/
def hangForTwoTicks : List (GcEvent 1) :=
  [⟨.enter (.ncclAllReduce 1 7) (Sys.bareCtx 0x700000007 0 0), .bare⟩,
    ⟨.gcTick .bare, { GcEnv.bare with nowNs := 31000000000 }⟩,
    ⟨.gcTick .bare, { GcEnv.bare with nowNs := 61000000000 }⟩]

/-- With a timeout of 30 seconds the one call is counted twice. -/
theorem notCountedOnce_twoTicks :
    (Runs.run (step {} 30000000000) (init {} 1) hangForTwoTicks).contribution 0 = 2 ∧
      (Runs.run (step {} 30000000000) (init {} 1) hangForTwoTicks).base.ncclHangDetected.value
        ["ncclAllReduce", "7"] = some 2 ∧
      ¬ CountedOnce {} 30000000000 hangForTwoTicks := by
  have htwice : (Runs.run (step {} 30000000000) (init {} 1) hangForTwoTicks).contribution 0 =
      2 := by
    decide +kernel
  refine ⟨htwice, by decide +kernel, fun honce => ?_⟩
  have hle := (honce 0).1
  rw [htwice] at hle
  omega

end HangSys

end Profi
