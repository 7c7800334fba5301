import Profi.System

/-!
# Who Owns an In-Flight Slot

Each thread has one `INFLIGHT` slot, shared by all entry and return programs. This file
follows the slot through arbitrary well-nested runs:

- `SlotOk`: an entry in flight was stored by a call the thread still has open, so a thread
  without open calls has a free slot
- `AloneOk`: a thread whose only open call has seen no other probed call finds exactly that
  call's entry in its slot
- `Completed.Faithful`: such a call is recorded with its own entry when it returns

In runs without nested calls (`NonNested`) every call is of this kind.
-/

namespace Profi

variable {n : ℕ} {args : Args}

/-- The call consumed its own entry: the one it stored, or none if it stored none. -/
structure Completed.Faithful (r : Completed n) : Prop where
  recorded : r.recorded =
    if r.call.probe.isModuleGetFunction then none
    else if r.call.stored then some r.call.entry else none
  registered : r.registered =
    if r.call.probe.isModuleGetFunction then
      if r.call.stored then Bpf.registrationOf r.ctx r.call.entry else none
    else none

/-- The thread that enters or leaves a call. -/
def Event.thread : Event n → Option U64
  | .enter _ ctx | .ret ctx => some ctx.pidTgid
  | _ => none

namespace Sys

variable {s : Sys n}

/-! ## Slots belong to open calls -/

/-- The open call is what its thread's entry program saw, in a state of this configuration. -/
def OpenedBy (args : Args) (n : ℕ) (id : U64) (c : OpenCall) : Prop :=
  ∃ (b : Bpf n) (ctx : Ctx n), ConfigOk args b ∧ ctx.pidTgid = id ∧
    c.entry = c.probe.entryData b ctx ∧ c.stored = c.probe.stores b ctx

theorem OpenedBy.eventType {id : U64} {c : OpenCall} (h : OpenedBy args n id c) :
    c.entry.eventType = c.probe.eventType := by
  obtain ⟨b, ctx, -, -, hentry, -⟩ := h
  rw [hentry]
  rfl

/-- Without sampling every call but `cuModuleGetFunction` stores its entry. -/
theorem OpenedBy.stored {id : U64} {c : OpenCall} (h : OpenedBy args n id c)
    (hrate : args.sampleRate ≤ 1) (hp : c.probe.isModuleGetFunction = false) :
    c.stored = true := by
  obtain ⟨b, ctx, hcfg, -, -, hstored⟩ := h
  rw [hstored, Probe.stores_eq_keepsSample b ctx hp]
  simp [Bpf.keepsSample, hcfg.sampleRate_eq_zero hrate]

/-- Calls that are not aggregated in `AGGREGATED` are never sampled out. -/
theorem OpenedBy.stored_of_not_aggregatable {id : U64} {c : OpenCall}
    (h : OpenedBy args n id c) (hagg : profiIsAggregatable c.probe.eventType = false)
    (hp : c.probe.isModuleGetFunction = false) : c.stored = true := by
  obtain ⟨b, ctx, -, -, -, hstored⟩ := h
  rw [hstored, Probe.stores_eq_keepsSample b ctx hp]
  simp [Bpf.keepsSample, hagg]

/-- An entry in flight belongs to a call the thread has open. -/
structure SlotOk (args : Args) (s : Sys n) : Prop where
  config : ConfigOk args s.bpf
  owner : ∀ id entry, s.bpf.inflight.lookup id = some entry → ∃ c ∈ s.stack id, c.entry = entry
  opened : ∀ id, ∀ c ∈ s.stack id, OpenedBy args n id c
  buried : ∀ id, ∀ c ∈ (s.stack id).tail, c.alone = false

theorem SlotOk.free (h : SlotOk args s) {id : U64} (hs : s.stack id = []) :
    s.bpf.inflight.lookup id = none := by
  cases hl : s.bpf.inflight.lookup id with
  | none => rfl
  | some entry =>
    obtain ⟨c, hc, -⟩ := h.owner id entry hl
    rw [hs] at hc
    cases hc

theorem slotOk_init (n : ℕ) (args : Args) : SlotOk args (Sys.init n args) where
  config := configOk_init args
  owner := by
    intro id entry h
    simp [Sys.init, Bpf.init] at h
  opened := by
    intro id c hc
    cases hc
  buried := by
    intro id c hc
    cases hc

theorem enter_stack_self (s : Sys n) (p : Probe) (ctx : Ctx n) :
    (s.enter p ctx).stack ctx.pidTgid =
      s.opened p ctx :: (s.stack ctx.pidTgid).map fun c => { c with alone := false } :=
  Function.update_self _ _ _

theorem enter_stack_other (s : Sys n) (p : Probe) (ctx : Ctx n) {id : U64}
    (h : id ≠ ctx.pidTgid) : (s.enter p ctx).stack id = s.stack id :=
  Function.update_of_ne h _ _

/-- What a step does to the open calls and the slot of a thread. Its own calls and returns change
    both, an eviction may empty the slot, and nothing else touches them. -/
theorem thread_cases (args : Args) (s : Sys n) (e : Event n) (id : U64) :
    ((s.step args e).stack id = s.stack id ∧
      ((s.step args e).bpf.inflight.lookup id = s.bpf.inflight.lookup id ∨
        e = .evict (.inflight id) ∧ (s.step args e).bpf.inflight.lookup id = none)) ∨
    (∃ p ctx, e = .enter p ctx ∧ ctx.pidTgid = id ∧
      (s.step args e).stack id =
        s.opened p ctx :: (s.stack id).map (fun c => { c with alone := false }) ∧
      (s.step args e).bpf.inflight = (p.enter s.bpf ctx).inflight) ∨
    ∃ ctx call rest, e = .ret ctx ∧ ctx.pidTgid = id ∧ s.stack id = call :: rest ∧
      (s.step args e).stack id = rest ∧
      (s.step args e).bpf.inflight = (call.probe.exit s.bpf ctx).inflight := by
  rcases step_cases args s e with ⟨p, ctx, rfl, hstep⟩ | ⟨ctx, call, rest, rfl, hs, hstep⟩ |
    ⟨ev, rfl, hstep⟩ | hbg
  · rw [hstep]
    by_cases hid : id = ctx.pidTgid
    · subst hid
      exact .inr (.inl ⟨p, ctx, rfl, rfl, enter_stack_self s p ctx, rfl⟩)
    · exact .inl ⟨enter_stack_other s p ctx hid, .inl (Probe.enter_inflight_other s.bpf ctx p hid)⟩
  · rw [hstep]
    by_cases hid : id = ctx.pidTgid
    · subst hid
      exact .inr (.inr ⟨ctx, call, rest, rfl, rfl, hs, Function.update_self _ _ _, rfl⟩)
    · exact .inl ⟨Function.update_of_ne hid _ _,
        .inl (Probe.exit_inflight_other s.bpf ctx call.probe hid)⟩
  · rw [hstep]
    refine .inl ⟨rfl, ?_⟩
    cases ev with
    | inflight id' =>
      by_cases hid : id = id'
      · subst hid
        exact .inr ⟨rfl, by simp [Bpf.evict]⟩
      · exact .inl (AList.lookup_erase_ne hid)
    | _ => exact .inl rfl
  · rw [hbg.stack, hbg.bpf]
    exact .inl ⟨rfl, .inl rfl⟩

/-- A return leaves in the slot only an entry of a call further out. -/
theorem exit_owner (h : SlotOk args s) {ctx : Ctx n} {call : OpenCall} {rest : List OpenCall}
    (hs : s.stack ctx.pidTgid = call :: rest) {entry : EntryData}
    (hl : (call.probe.exit s.bpf ctx).inflight.lookup ctx.pidTgid = some entry) :
    ∃ c ∈ rest, c.entry = entry := by
  rw [Probe.exit_inflight] at hl
  split at hl
  · rw [AList.lookup_erase] at hl
    cases hl
  next hkeep =>
    -- the program is `cuModuleGetFunction`'s and the entry is not of its kind
    simp only [not_or, Bool.not_eq_false, hl, Option.any_some, decide_eq_true_eq] at hkeep
    obtain ⟨hmgf, htype⟩ := hkeep
    obtain ⟨c, hc, rfl⟩ := h.owner _ entry hl
    rw [hs] at hc
    rcases List.mem_cons.mp hc with rfl | hc
    · have hty := (h.opened ctx.pidTgid c (by rw [hs]; simp)).eventType
      exact absurd (hty.trans ((Probe.eventType_eq_register _).mpr hmgf)) htype
    · exact ⟨c, hc, rfl⟩

/-- Every step keeps the slots and the open calls together. -/
theorem slotOk_step (h : SlotOk args s) (e : Event n) : SlotOk args (s.step args e) := by
  refine ⟨configOk_step h.config e, fun id => ?_, fun id => ?_, fun id => ?_⟩
  -- the same three cases for each part of the invariant
  all_goals
    rcases thread_cases args s e id with ⟨hstack, hslot⟩ | ⟨p, ctx, rfl, rfl, hstack, hslot⟩ |
      ⟨ctx, call, rest, rfl, rfl, hs, hstack, hslot⟩
    all_goals rw [hstack]
  case refine_1.inl =>
    intro entry hl
    rcases hslot with hslot | ⟨-, hslot⟩
    · exact h.owner id entry (hslot ▸ hl)
    · rw [hslot] at hl
      cases hl
  case refine_1.inr.inl =>
    intro entry hl
    rcases Probe.enter_inflight_cases s.bpf ctx p with hold | hnew
    · -- the old entry is still there, and so is its call
      obtain ⟨c, hc, rfl⟩ := h.owner _ entry (hold ▸ hl)
      exact ⟨{ c with alone := false }, List.mem_cons_of_mem _ (List.mem_map_of_mem hc), rfl⟩
    · have hentry : p.entryData s.bpf ctx = entry := Option.some.inj (hnew ▸ hl)
      exact ⟨s.opened p ctx, by simp, hentry⟩
  case refine_1.inr.inr => exact fun entry hl => exit_owner h hs (hslot ▸ hl)
  case refine_2.inl => exact h.opened id
  case refine_2.inr.inl =>
    intro c hc
    rcases List.mem_cons.mp hc with rfl | hc
    · exact ⟨s.bpf, ctx, h.config, rfl, rfl, rfl⟩
    · obtain ⟨c', hc', rfl⟩ := List.mem_map.mp hc
      exact h.opened _ c' hc'
  case refine_2.inr.inr =>
    exact fun c hc => h.opened _ c (by rw [hs]; exact List.mem_cons_of_mem _ hc)
  case refine_3.inl => exact h.buried id
  case refine_3.inr.inl =>
    intro c hc
    obtain ⟨c', -, rfl⟩ := List.mem_map.mp hc
    rfl
  case refine_3.inr.inr =>
    exact fun c hc => h.buried _ c (by rw [hs]; exact List.mem_of_mem_tail hc)

/-- In every reachable state the entries in flight belong to open calls. -/
theorem slotOk_run (args : Args) (es : List (Event n)) : SlotOk args (run args n es) :=
  invariant_run (SlotOk args) (slotOk_init n args) (fun _ e h => slotOk_step h e) es

/-! ## Threads that are not in a call -/

/-- A thread that takes no part in a run has no open call. -/
theorem stack_of_silent {id : U64} {es : List (Event n)}
    (h : ∀ e ∈ es, e.thread ≠ some id) : (run args n es).stack id = [] := by
  induction es using List.reverseRecOn with
  | nil => rfl
  | append_singleton es e ih =>
    have hrest := ih fun e' he' => h e' (by simp [he'])
    have hne : e.thread ≠ some id := h e (by simp)
    have hrun : run args n (es ++ [e]) = (run args n es).step args e := Runs.run_concat _ _ es e
    rw [hrun]
    rcases thread_cases args (run args n es) e id with ⟨hstack, -⟩ | ⟨p, ctx, rfl, rfl, -⟩ |
      ⟨ctx, call, rest, rfl, rfl, -⟩
    · rw [hstack, hrest]
    · exact absurd rfl hne
    · exact absurd rfl hne

/-- If one thread makes all the calls of a run and has none open, no call is open. -/
theorem stack_of_single {tid : U64} {es : List (Event n)}
    (hthread : ∀ e ∈ es, e.thread.all (· = tid)) (hdone : (run args n es).stack tid = [])
    (id : U64) : (run args n es).stack id = [] := by
  by_cases hid : id = tid
  · rw [hid]
    exact hdone
  · apply stack_of_silent
    intro e he heq
    have hall := hthread e he
    rw [heq] at hall
    exact hid (by simpa using hall)

/-! ## Calls that stay alone keep their entry -/

/-- No entry is lost from the slots. -/
def KeepsInflight (_ : Sys n) (e : Event n) : Prop := ∀ id, e ≠ .evict (.inflight id)

/-- A call that is the thread's only one, and has been since it was entered, has its entry in
    the slot. -/
def AloneOk (s : Sys n) : Prop :=
  ∀ id c, s.stack id = [c] → c.alone = true →
    s.bpf.inflight.lookup id = if c.stored then some c.entry else none

theorem aloneOk_init (n : ℕ) (args : Args) : AloneOk (Sys.init n args) := by
  intro id c h
  simp [Sys.init] at h

theorem aloneOk_step (h : SlotOk args s) (ha : AloneOk s) {e : Event n} (he : KeepsInflight s e) :
    AloneOk (s.step args e) := by
  intro id c hc halone
  rcases thread_cases args s e id with ⟨hstack, hslot⟩ | ⟨p, ctx, rfl, rfl, hstack, hslot⟩ |
    ⟨ctx, call, rest, rfl, rfl, hs, hstack, -⟩
  · rw [hstack] at hc
    rw [hslot.resolve_right fun hev => he id hev.1]
    exact ha id c hc halone
  · rw [hstack] at hc
    obtain ⟨rfl, hnil⟩ := List.cons_eq_cons.mp hc
    exact Probe.enter_inflight_free (h.free (List.map_eq_nil_iff.mp hnil)) p
  · -- the call further out is no longer alone
    rw [hstack] at hc
    rw [h.buried _ c (by rw [hs, hc]; simp)] at halone
    cases halone

/-- A call that finds its own entry in the slot consumes it. -/
theorem completed_faithful_of_slot {ctx : Ctx n} {call : OpenCall} {rest : List OpenCall}
    (hslot : s.bpf.inflight.lookup ctx.pidTgid = if call.stored then some call.entry else none) :
    (s.completed ctx call rest).Faithful := by
  refine ⟨?_, ?_⟩
  · simp only [completed, Probe.recorded, hslot]
  · simp only [completed, Probe.registered, Bpf.registration, hslot]
    cases call.stored <;> rfl

/-- Every completed call is what its thread's entry program saw. -/
theorem returns_openedBy (args : Args) (es : List (Event n)) :
    ∀ r ∈ (run args n es).hist.returns, OpenedBy args n r.ctx.pidTgid r.call := by
  refine forall_returns (SlotOk args) (P := fun _ _ => True) (slotOk_init n args)
    (fun _ e h _ => slotOk_step h e) ?_ (Runs.along_true _ _ es)
  intro s ctx call rest hslot _ hs
  exact hslot.opened ctx.pidTgid call (by rw [hs]; simp)

/-- In every run that loses no entry from the slots, each outermost call during which its
    thread stayed out of other probed calls is recorded with its own entry. -/
theorem faithful_of_alone {es : List (Event n)} (hes : Permitted args KeepsInflight es) :
    ∀ r ∈ (run args n es).hist.returns,
      r.outermost = true → r.call.alone = true → r.Faithful := by
  refine forall_returns (fun s => SlotOk args s ∧ AloneOk s)
    ⟨slotOk_init n args, aloneOk_init n args⟩
    (fun s e h he => ⟨slotOk_step h.1 e, aloneOk_step h.1 h.2 he⟩) ?_ hes
  intro s ctx call rest hinv _ hs hout halone
  have hnil : rest = [] := List.isEmpty_iff.mp hout
  subst hnil
  exact completed_faithful_of_slot (hinv.2 ctx.pidTgid call hs halone)

/-! ## Sums over the slots -/

section Sum

variable {W : Type*} [AddCommMonoid W] (w : U64 → EntryData → W) {b : Bpf n} {ctx : Ctx n}

/-- An entry program that finds its slot free adds the weight of what it stores. -/
theorem sum_inflight_enter (hfree : b.inflight.lookup ctx.pidTgid = none) (p : Probe) :
    (p.enter b ctx).inflight.sum w =
      b.inflight.sum w + if p.stores b ctx then w ctx.pidTgid (p.entryData b ctx) else 0 := by
  rw [Probe.enter_inflight]
  cases hstores : p.stores b ctx with
  | false => simp
  | true =>
    simp only [hfree, true_or, and_self, ↓reduceIte]
    rw [FinMap.sum_insert_of_lookup_none _ _ hfree, add_comm]

/-- A return program that finds its call's own entry takes the weight of it out. -/
theorem sum_inflight_exit {call : OpenCall}
    (hslot : b.inflight.lookup ctx.pidTgid = if call.stored then some call.entry else none)
    (hopen : OpenedBy args n ctx.pidTgid call) :
    (call.probe.exit b ctx).inflight.sum w +
        (if call.stored then w ctx.pidTgid call.entry else 0) =
      b.inflight.sum w := by
  rw [Probe.exit_inflight]
  cases hstored : call.stored with
  | false =>
    simp only [hstored, Bool.false_eq_true, ↓reduceIte] at hslot
    simp only [hslot, Option.any_none, Bool.false_eq_true, or_false, ↓reduceIte, add_zero]
    split
    · exact FinMap.sum_erase_of_lookup_none _ hslot
    · rfl
  | true =>
    simp only [hstored, ↓reduceIte] at hslot
    -- `cuModuleGetFunction` finds an entry of its own kind
    have hown : call.probe.isModuleGetFunction = false ∨
        (b.inflight.lookup ctx.pidTgid).any (·.eventType = .cudaRegisterFunction) = true := by
      rw [hslot, Option.any_some, decide_eq_true_eq, hopen.eventType, Probe.eventType_eq_register]
      cases call.probe.isModuleGetFunction <;> simp
    simp only [if_pos hown, ↓reduceIte]
    rw [← FinMap.sum_erase_of_lookup w hslot, add_comm]

end Sum

/-! ## Runs without nesting -/

/-- A thread only enters a probed call when it has none open. -/
def NonNested (s : Sys n) : Event n → Prop
  | .enter _ ctx => s.stack ctx.pidTgid = []
  | _ => True

/-- No thread has more than one call open, and that one has been alone. -/
def Flat (s : Sys n) : Prop :=
  ∀ id, s.stack id = [] ∨ ∃ c, s.stack id = [c] ∧ c.alone = true

theorem flat_step (h : Flat s) {e : Event n} (he : NonNested s e) : Flat (s.step args e) := by
  intro id
  rcases thread_cases args s e id with ⟨hstack, -⟩ | ⟨p, ctx, rfl, rfl, hstack, -⟩ |
    ⟨ctx, call, rest, rfl, rfl, hs, hstack, -⟩ <;> rw [hstack]
  · exact h id
  · rw [show s.stack ctx.pidTgid = [] from he]
    exact .inr ⟨s.opened p ctx, rfl, rfl⟩
  · -- a stack of one call is empty after its return
    left
    rcases h ctx.pidTgid with hnil | ⟨c, hc, -⟩
    · rw [hnil] at hs
      cases hs
    · rw [hc] at hs
      exact (List.cons_eq_cons.mp hs).2.symm

/-- In such a state the call of a thread that returns is its only one, and has its entry in the
    slot. -/
theorem Flat.returning (h : Flat s) (ha : AloneOk s) {ctx : Ctx n} {call : OpenCall}
    {rest : List OpenCall} (hs : s.stack ctx.pidTgid = call :: rest) :
    s.stack ctx.pidTgid = [call] ∧
      s.bpf.inflight.lookup ctx.pidTgid = if call.stored then some call.entry else none := by
  rcases h ctx.pidTgid with hnil | ⟨c, hc, halone⟩
  · rw [hnil] at hs
    cases hs
  · rw [hc] at hs
    obtain ⟨rfl, rfl⟩ := List.cons_eq_cons.mp hs
    exact ⟨hc, ha _ _ hc halone⟩

/-- In runs without nesting every call that returns is outermost and was alone. -/
theorem returns_alone {es : List (Event n)} (hes : Permitted args NonNested es) :
    ∀ r ∈ (run args n es).hist.returns, r.outermost = true ∧ r.call.alone = true := by
  refine forall_returns Flat (fun _ => .inl rfl) (fun _ _ h he => flat_step h he) ?_ hes
  intro s ctx call rest hflat _ hs
  rcases hflat ctx.pidTgid with hnil | ⟨c, hc, halone⟩
  · rw [hnil] at hs
    cases hs
  · rw [hc] at hs
    obtain ⟨rfl, rfl⟩ := List.cons_eq_cons.mp hs
    exact ⟨rfl, halone⟩

end Sys

end Profi
