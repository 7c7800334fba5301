import Profi.Slots

/-!
# Calls Inside Calls

`save_entry` skips a call that is made inside another one: it finds the slot of the thread taken.
The return programs have no such test: the first return of the thread consumes the entry in the
slot, whichever call it returns from.

- `first_return_records_outermost`: the entry it consumes is still the outermost call's
- `silent_of_undisturbed`: only outermost calls leave records, each its own, if no thread enters a
  call while it has another one open. `cuModuleGetFunction` with a null argument is an exception,
  since its programs leave a slot alone that is not of their kind
- `undisturbed_of_silent`: in no other run is this so
-/

namespace Profi

variable {n : ℕ} {args : Args}

/-- `cuModuleGetFunction` with a null argument, of which nothing is stored. -/
def Probe.isIdle : Probe → Bool
  | .cuModuleGetFunction hfuncPtr namePtr => hfuncPtr == 0 || namePtr == 0
  | _ => false

theorem Probe.isModuleGetFunction_of_isIdle {p : Probe} (h : p.isIdle = true) :
    p.isModuleGetFunction = true := by
  cases p <;> first | rfl | cases h

/-- A return finds what it asks for in the memory of its process. -/
def Event.Readable : Event n → Prop
  | .ret ctx => ∀ addr, (ctx.readUser addr).isSome = true
  | _ => True

/-- A completed call left no record and no registration. -/
def Completed.Silent (r : Completed n) : Prop := r.recorded = none ∧ r.registered = none

namespace Sys

variable {s : Sys n}

/-- Without sampling the idle calls are those that store nothing. -/
theorem ConfigOk.stores_eq {b : Bpf n} (h : ConfigOk args b) (hrate : args.sampleRate ≤ 1)
    (p : Probe) (ctx : Ctx n) : p.stores b ctx = !p.isIdle := by
  cases hp : p.isModuleGetFunction with
  | false =>
    have hidle : p.isIdle = false := by
      cases hi : p.isIdle with
      | false => rfl
      | true => rw [Probe.isModuleGetFunction_of_isIdle hi] at hp; cases hp
    rw [Probe.stores_eq_keepsSample b ctx hp, hidle]
    simp [Bpf.keepsSample, h.sampleRate_eq_zero hrate]
  | true => cases p <;> first | rfl | cases hp

/-- A thread enters a call when it has none open, or an idle call when no valid
    `cuModuleGetFunction` is open. -/
def Undisturbed (s : Sys n) : Event n → Prop
  | .enter p ctx => s.stack ctx.pidTgid = [] ∨ (p.isIdle = true ∧
      ∀ c ∈ s.stack ctx.pidTgid, c.probe.isModuleGetFunction = true → c.probe.isIdle = true)
  | _ => True

instance (s : Sys n) (e : Event n) : Decidable (Undisturbed s e) :=
  match e with
  | .enter _ _ => inferInstanceAs (Decidable (_ ∨ _))
  | .ret _ | .registerFunction _ _ _ | .nvtxPush _ _ | .nvtxPop _ | .evict _
  | .consume _ | .aggTick _ | .gcTick _ | .nameKernel _ _ _ => inferInstanceAs (Decidable True)

/-- The calls above a thread's outermost one are idle, and its slot is the outermost call's. -/
structure OwnsSlot (s : Sys n) (id : U64) (above : List OpenCall) (outermost : OpenCall) :
    Prop where
  idle : ∀ c ∈ above, c.probe.isIdle = true
  other : above ≠ [] → outermost.probe.isModuleGetFunction = true → outermost.probe.isIdle = true
  slot : s.bpf.inflight.lookup id =
    if outermost.probe.isIdle then none else some outermost.entry

/-- All threads with open calls are in this state. -/
def Calm (s : Sys n) : Prop :=
  ∀ id above outermost, s.stack id = above ++ [outermost] → OwnsSlot s id above outermost

theorem calm_init (n : ℕ) (args : Args) : Calm (Sys.init n args) := by
  intro id above outermost h
  simp [Sys.init] at h

/-! ## Undisturbed calls -/

variable {es : List (Event n)} {p : Probe} {id : U64}

/-- The outermost call of a thread finds the slot free. -/
theorem ownsSlot_enter_outermost (h : SlotOk args s) (hrate : args.sampleRate ≤ 1) {ctx : Ctx n}
    (hnil : s.stack ctx.pidTgid = []) :
    OwnsSlot (s.enter p ctx) ctx.pidTgid [] (s.opened p ctx) := by
  have hslot := Probe.enter_inflight_free (h.free hnil) p
  rw [h.config.stores_eq hrate] at hslot
  refine ⟨by simp, fun hne => absurd rfl hne, hslot.trans ?_⟩
  by_cases hidle : p.isIdle = true <;> simp [opened, hidle]

/-- An idle call inside others leaves the slot as it is. -/
theorem ownsSlot_enter_idle (h : SlotOk args s) (hrate : args.sampleRate ≤ 1) {ctx : Ctx n}
    {above : List OpenCall} {o : OpenCall} (hown : OwnsSlot s ctx.pidTgid above o)
    (hidle : p.isIdle = true) (hopen : o.probe.isModuleGetFunction = true → o.probe.isIdle = true) :
    OwnsSlot (s.enter p ctx) ctx.pidTgid
      (s.opened p ctx :: above.map fun c => { c with alone := false })
      { o with alone := false } := by
  refine ⟨?_, fun _ => hopen, ?_⟩
  · intro c hc
    rcases List.mem_cons.mp hc with rfl | hc
    · exact hidle
    · obtain ⟨c', hmem, rfl⟩ := List.mem_map.mp hc
      exact hown.idle c' hmem
  · simp only [enter]
    rw [Probe.enter_inflight, if_neg, hown.slot]
    simp [h.config.stores_eq hrate, hidle]

/-- The slot of the outermost call is not of the kind that the return of a call above takes. -/
theorem OwnsSlot.not_register (h : SlotOk args s) {above : List OpenCall} {outermost : OpenCall}
    (hown : OwnsSlot s id above outermost) (habove : above ≠ [])
    (hst : s.stack id = above ++ [outermost]) :
    (s.bpf.inflight.lookup id).any (·.eventType = .cudaRegisterFunction) = false := by
  rw [hown.slot]
  cases hidle : outermost.probe.isIdle with
  | true => rfl
  | false =>
    have htype := (h.opened id outermost (by rw [hst]; simp)).eventType
    simp only [Bool.false_eq_true, ↓reduceIte, Option.any_some, decide_eq_false_iff_not, htype,
      Probe.eventType_eq_register]
    intro hm
    rw [hown.other habove hm] at hidle
    cases hidle

/-- Undisturbed steps leave every slot to the outermost call. -/
theorem calm_step (h : SlotOk args s) (hrate : args.sampleRate ≤ 1) (hc : Calm s) {e : Event n}
    (hkeeps : KeepsInflight s e) (he : Undisturbed s e) : Calm (s.step args e) := by
  intro id above outermost hst
  rcases thread_cases args s e id with ⟨hstack, hslot⟩ | ⟨p, ctx, rfl, rfl, hstack, -⟩ |
    ⟨ctx, call, rest, rfl, rfl, hs, hstack, hslot⟩ <;> rw [hstack] at hst
  · -- the thread has made no call and no return
    obtain ⟨habove, hother, hown⟩ := hc id above outermost hst
    exact ⟨habove, hother, (hslot.resolve_right fun hev => hkeeps id hev.1).trans hown⟩
  · rcases List.eq_nil_or_concat' (s.stack ctx.pidTgid) with hnil | ⟨above', o, hold⟩
    · -- its first call takes the slot
      rw [hnil] at hst
      obtain ⟨rfl, hlast⟩ := List.append_inj' (show [] ++ [s.opened p ctx] = _ from hst) rfl
      obtain rfl := List.singleton_injective hlast
      exact ownsSlot_enter_outermost h hrate hnil
    · -- a call inside another one is idle, or it would disturb
      have hne : s.stack ctx.pidTgid ≠ [] := by simp [hold]
      obtain ⟨hidle, hopen⟩ := he.resolve_left hne
      rw [hold, List.map_append, ← List.cons_append] at hst
      obtain ⟨rfl, hlast⟩ := List.append_inj' hst rfl
      obtain rfl := List.singleton_injective hlast
      exact ownsSlot_enter_idle h hrate (hc _ above' o hold) hidle (hopen o (by simp [hold]))
  · -- a call above the outermost one returns: its program leaves the slot alone
    have hold : s.stack ctx.pidTgid = (call :: above) ++ [outermost] := by rw [hs, hst]; rfl
    have hown := hc _ _ _ hold
    have hcall := Probe.isModuleGetFunction_of_isIdle (hown.idle call List.mem_cons_self)
    refine ⟨fun c hmem => hown.idle c (List.mem_cons_of_mem call hmem),
      fun _ => hown.other (by simp), ?_⟩
    rw [hslot, Probe.exit_inflight, if_neg, hown.slot]
    simp [hcall, hown.not_register h (by simp) hold]

/-- In a calm state an outermost call that returns consumes its own entry, and any other call
    nothing. -/
theorem completed_of_calm (h : SlotOk args s) (hrate : args.sampleRate ≤ 1) (hc : Calm s)
    {ctx : Ctx n} {call : OpenCall} {rest : List OpenCall}
    (hs : s.stack ctx.pidTgid = call :: rest) :
    ((s.completed ctx call rest).outermost = true → (s.completed ctx call rest).Faithful) ∧
      ((s.completed ctx call rest).outermost = false → (s.completed ctx call rest).Silent) := by
  rcases List.eq_nil_or_concat' rest with rfl | ⟨above, outermost, rfl⟩
  · -- the outermost call finds its own entry
    refine ⟨fun _ => ?_, fun hout => by cases hout⟩
    obtain ⟨b, c, hcfg, -, -, hstored⟩ := h.opened ctx.pidTgid call (by rw [hs]; simp)
    apply completed_faithful_of_slot
    rw [(hc _ [] call hs).slot, hstored, hcfg.stores_eq hrate]
    cases call.probe.isIdle <;> rfl
  · -- a call above it takes nothing from the slot
    have hold : s.stack ctx.pidTgid = (call :: above) ++ [outermost] := by rw [hs]; simp
    have hown := hc _ _ _ hold
    have hcall := Probe.isModuleGetFunction_of_isIdle (hown.idle call List.mem_cons_self)
    have hkind := hown.not_register h (by simp) hold
    refine ⟨fun hout => by simp [completed] at hout, fun _ => ⟨?_, ?_⟩⟩
    · simp [completed, Probe.recorded, hcall]
    · simp only [completed, Probe.registered, hcall, ↓reduceIte, Bpf.registration]
      cases hl : s.bpf.inflight.lookup ctx.pidTgid with
      | none => rfl
      | some entry =>
        rw [hl, Option.any_some, decide_eq_false_iff_not] at hkind
        simp [Bpf.registrationOf, hkind]

/-- In undisturbed runs an outermost call consumes its own entry, and any other call nothing. -/
theorem silent_of_undisturbed (hrate : args.sampleRate ≤ 1)
    (hkeeps : Permitted args KeepsInflight es) (hes : Permitted args Undisturbed es) :
    ∀ r ∈ (run args n es).hist.returns,
      (r.outermost = true → r.Faithful) ∧ (r.outermost = false → r.Silent) := by
  refine forall_returns (fun s => SlotOk args s ∧ Calm s) ⟨slotOk_init n args, calm_init n args⟩
    (fun s e h he => ⟨slotOk_step h.1 e, calm_step h.1 hrate h.2 he.1 he.2⟩) ?_ (hkeeps.and hes)
  intro s ctx call rest hinv _ hs
  exact completed_of_calm hinv.1 hrate hinv.2 hs

/-! ## Disturbed calls

Once there is an entry in the slot and a call above the outermost one whose return takes it, the
thread has no way back to an empty stack without a record or a registration by a call above. -/

/-- The return of a call above the outermost one will take what is in the slot. -/
def Exposed (s : Sys n) (id : U64) : Prop :=
  ∃ entry, s.bpf.inflight.lookup id = some entry ∧ ∃ c ∈ (s.stack id).dropLast,
    c.probe.isModuleGetFunction = false ∨ entry.eventType = .cudaRegisterFunction

/-- No call above an outermost one has left anything. -/
def NestedSilent (s : Sys n) : Prop := ∀ r ∈ s.hist.returns, r.outermost = false → r.Silent

theorem dropLast_enter_stack (s : Sys n) (p : Probe) (ctx : Ctx n)
    (hne : s.stack ctx.pidTgid ≠ []) :
    ((s.enter p ctx).stack ctx.pidTgid).dropLast = s.opened p ctx ::
      (s.stack ctx.pidTgid).dropLast.map fun c => { c with alone := false } := by
  rw [enter_stack_self, List.dropLast_cons_of_ne_nil (by simpa using hne), List.map_dropLast]

/-- A call that disturbs another one exposes the slot. -/
theorem exposed_of_disturbed (h : SlotOk args s) (hrate : args.sampleRate ≤ 1) (hc : Calm s)
    {ctx : Ctx n} (he : ¬ Undisturbed s (.enter p ctx)) : Exposed (s.enter p ctx) ctx.pidTgid := by
  obtain ⟨hne, hdisturbs⟩ := not_or.mp he
  have htop : s.opened p ctx ∈ ((s.enter p ctx).stack ctx.pidTgid).dropLast := by
    rw [dropLast_enter_stack s p ctx hne]
    exact List.mem_cons_self
  have hregister : p.isModuleGetFunction = true →
      (p.entryData s.bpf ctx).eventType = .cudaRegisterFunction :=
    (Probe.eventType_eq_register p).mpr
  unfold Exposed
  simp only [enter] at htop ⊢
  rw [Probe.enter_inflight, h.config.stores_eq hrate]
  cases hidle : p.isIdle with
  | false =>
    -- the call stores its entry, or finds one
    cases hm : p.isModuleGetFunction with
    | true => exact ⟨p.entryData s.bpf ctx, by simp, _, htop, .inr (hregister hm)⟩
    | false =>
      cases hl : s.bpf.inflight.lookup ctx.pidTgid with
      | none => exact ⟨p.entryData s.bpf ctx, by simp, _, htop, .inl hm⟩
      | some entry => exact ⟨entry, by simp [hl], _, htop, .inl hm⟩
  | true =>
    -- a valid `cuModuleGetFunction` is open: it is the outermost call, and its entry is in the slot
    rcases List.eq_nil_or_concat' (s.stack ctx.pidTgid) with hnil | ⟨above, outermost, hold⟩
    · exact absurd hnil hne
    · have hown := hc _ above outermost hold
      have hvalid : ∃ c ∈ s.stack ctx.pidTgid, c.probe.isModuleGetFunction = true ∧
          c.probe.isIdle = false := by
        by_contra hnone
        refine hdisturbs ⟨hidle, fun c hmem hcm => ?_⟩
        by_contra hci
        exact hnone ⟨c, hmem, hcm, by simpa using hci⟩
      obtain ⟨c, hmem, hcm, hci⟩ := hvalid
      rw [hold, List.mem_append, List.mem_singleton] at hmem
      rcases hmem with hmem | rfl
      · rw [hown.idle c hmem] at hci
        cases hci
      · have hslot := hown.slot
        rw [hci] at hslot
        have htype := (h.opened ctx.pidTgid c (by rw [hold]; simp)).eventType
        exact ⟨c.entry, by simpa using hslot, _, htop,
          .inr (htype.trans ((Probe.eventType_eq_register _).mpr hcm))⟩

/-- Only the return of a call above the outermost one could cover the slot again, and it would leave
    something. -/
theorem exposed_ret {ctx : Ctx n} {call : OpenCall} {rest : List OpenCall} (t : Sys n)
    (h : Exposed s ctx.pidTgid) (hs : s.stack ctx.pidTgid = call :: rest)
    (hread : (Event.ret ctx).Readable)
    (hsilent : rest ≠ [] → (s.completed ctx call rest).Silent) (hstack : t.stack ctx.pidTgid = rest)
    (hslot : t.bpf.inflight = (call.probe.exit s.bpf ctx).inflight) : Exposed t ctx.pidTgid := by
  obtain ⟨entry, hl, c, hmem, hkind⟩ := h
  have hrest : rest ≠ [] := by
    rintro rfl
    simp [hs] at hmem
  obtain ⟨hrecorded, hregistered⟩ := hsilent hrest
  -- the call that returns is silent: it is `cuModuleGetFunction` and the entry not of its kind
  have hcall : call.probe.isModuleGetFunction = true := by
    by_contra hm
    simp [completed, Probe.recorded, hm, hl] at hrecorded
  have htype : entry.eventType ≠ .cudaRegisterFunction := by
    intro htype
    obtain ⟨hfunc, hhfunc⟩ := Option.isSome_iff_exists.mp (hread entry.arg0)
    simp [completed, Probe.registered, hcall, Bpf.registration, hl, Bpf.registrationOf, htype,
      hhfunc] at hregistered
  have hother : c.probe.isModuleGetFunction = false := hkind.resolve_right htype
  rw [hs, List.dropLast_cons_of_ne_nil hrest, List.mem_cons] at hmem
  refine ⟨entry, ?_, c, ?_, .inl hother⟩
  · rw [hslot, Probe.exit_inflight, if_neg (by simp [hcall, hl, htype])]
    exact hl
  · rw [hstack]
    refine hmem.resolve_left ?_
    rintro rfl
    rw [hcall] at hother
    cases hother

theorem exposed_step (h : Exposed s id) {e : Event n} (hkeeps : KeepsInflight s e)
    (hread : e.Readable) (hsilent : NestedSilent (s.step args e)) : Exposed (s.step args e) id := by
  rcases thread_cases args s e id with ⟨hstack, hslot⟩ | ⟨p, ctx, rfl, rfl, hstack, hslot⟩ |
    ⟨ctx, call, rest, rfl, rfl, hs, hstack, hslot⟩
  · unfold Exposed
    rw [hstack, hslot.resolve_right fun hev => hkeeps id hev.1]
    exact h
  · obtain ⟨entry, hl, c, hmem, hkind⟩ := h
    have hne : s.stack ctx.pidTgid ≠ [] := by
      intro hnil
      simp [hnil] at hmem
    unfold Exposed
    rw [hslot, show s.step args (.enter p ctx) = s.enter p ctx from rfl,
      dropLast_enter_stack s p ctx hne, Probe.enter_inflight, hl]
    -- the slot is taken: only `cuModuleGetFunction` still writes to it
    split
    next hwrites =>
      have hm : p.isModuleGetFunction = true := by simpa using hwrites.1
      exact ⟨_, AList.lookup_insert _, _, List.mem_cons_self,
        .inr ((Probe.eventType_eq_register p).mpr hm)⟩
    · exact ⟨entry, hl, _, List.mem_cons_of_mem _ (List.mem_map_of_mem hmem), hkind⟩
  · refine exposed_ret _ h hs hread (fun hne => hsilent _ ?_ ?_) hstack hslot
    · simp only [step, ret_cons hs]
      exact List.mem_append_right _ (List.mem_singleton.mpr rfl)
    · simpa [completed] using hne

theorem nestedSilent_of_step {e : Event n} (h : NestedSilent (s.step args e)) : NestedSilent s := by
  rcases step_cases args s e with ⟨p, ctx, -, hstep⟩ | ⟨ctx, call, rest, -, -, hstep⟩ |
    ⟨ev, -, hstep⟩ | hbg
  · rwa [hstep] at h
  · rw [hstep] at h
    exact fun r hr => h r (List.mem_append_left _ hr)
  · rwa [hstep] at h
  · intro r hr
    exact h r (hbg.returns ▸ hr)

/-- A thread with an exposed slot is in a call until one of the calls above the outermost one leaves
    something. -/
theorem exposed_run (h : Exposed s id) {es : List (Event n)}
    (hes : Runs.Along (step args) (fun s e => KeepsInflight s e ∧ e.Readable) s es)
    (hsilent : NestedSilent (Runs.run (step args) s es)) :
    Exposed (Runs.run (step args) s es) id := by
  refine Runs.run_invariant (I := fun t => NestedSilent t → Exposed t id) ?_ (fun _ => h) hes
    hsilent
  intro t e ht he hsilent
  exact exposed_step (ht (nestedSilent_of_step hsilent)) he.1 he.2 hsilent

theorem undisturbed_along (hrate : args.sampleRate ≤ 1) (h : SlotOk args s) (hc : Calm s)
    (hes : Runs.Along (step args) (fun s e => KeepsInflight s e ∧ e.Readable) s es)
    (hdone : ∀ id, (Runs.run (step args) s es).stack id = [])
    (hsilent : NestedSilent (Runs.run (step args) s es)) :
    Runs.Along (step args) Undisturbed s es := by
  induction es generalizing s with
  | nil => trivial
  | cons e es ih =>
    have he : Undisturbed s e := by
      by_contra hnot
      cases e with
      | enter p ctx =>
        obtain ⟨-, -, c, hmem, -⟩ :=
          exposed_run (exposed_of_disturbed h hrate hc hnot) hes.2 hsilent
        have hnil : (Runs.run (step args) (s.enter p ctx) es).stack ctx.pidTgid = [] := hdone _
        rw [hnil] at hmem
        cases hmem
      | _ => exact hnot trivial
    exact ⟨he, ih (slotOk_step h e) (calm_step h hrate hc hes.1.1 he) hes.2 hdone hsilent⟩

/-- In a run that ends with all calls returned, calls above outermost ones left nothing only if no
    call was disturbed. -/
theorem undisturbed_of_silent (hrate : args.sampleRate ≤ 1)
    (hkeeps : Permitted args KeepsInflight es) (hread : ∀ e ∈ es, e.Readable)
    (hdone : ∀ id, (run args n es).stack id = []) (hsilent : NestedSilent (run args n es)) :
    Permitted args Undisturbed es :=
  undisturbed_along hrate (slotOk_init n args) (calm_init n args)
    (hkeeps.and (Runs.along_of_forall hread _)) hdone hsilent

/-! ## The guard -/

/-- A run in which a thread enters `p` with no call open, enters only other calls then, and leaves
    the innermost of them. `cuModuleGetFunction` is not among them: it has no guard. -/
structure FirstReturn (args : Args) (es : List (Event n)) (p : Probe) (ctx ctx' : Ctx n)
    (before inside : List (Event n)) : Prop where
  split : es = before ++ .enter p ctx :: inside ++ [.ret ctx']
  thread : ctx'.pidTgid = ctx.pidTgid
  outermost : (run args n before).stack ctx.pidTgid = []
  guarded : p.isModuleGetFunction = false
  entries : ∀ e ∈ inside, e.thread = some ctx.pidTgid →
    ∃ q c, e = .enter q c ∧ q.isModuleGetFunction = false

/-- The slot of a thread that is in calls with a guard. -/
def Guarded (id : U64) (entry : EntryData) (s : Sys n) : Prop :=
  s.bpf.inflight.lookup id = some entry ∧ s.stack id ≠ [] ∧
    ∀ c ∈ s.stack id, c.probe.isModuleGetFunction = false

/-- Calls inside a guarded one leave its entry alone. -/
theorem guarded_step {entry : EntryData} (h : Guarded id entry s) {e : Event n}
    (hkeeps : KeepsInflight s e)
    (he : e.thread = some id → ∃ q c, e = .enter q c ∧ q.isModuleGetFunction = false) :
    Guarded id entry (s.step args e) := by
  unfold Guarded
  rcases thread_cases args s e id with ⟨hstack, hslot⟩ | ⟨p, ctx, rfl, rfl, hstack, hslot⟩ |
    ⟨ctx, call, rest, rfl, rfl, -⟩
  · rw [hstack, hslot.resolve_right fun hev => hkeeps id hev.1]
    exact h
  · obtain ⟨hl, -, hcalls⟩ := h
    obtain ⟨q, c, heq, hq⟩ := he rfl
    cases heq
    rw [hslot, hstack, Probe.enter_inflight, if_neg (by simp [hl, hq])]
    refine ⟨hl, by simp, ?_⟩
    intro c hmem
    rcases List.mem_cons.mp hmem with rfl | hmem
    · exact hq
    · obtain ⟨c', hmem', rfl⟩ := List.mem_map.mp hmem
      exact hcalls c' hmem'
  · obtain ⟨q, c, heq, -⟩ := he rfl
    cases heq

/-- The first return of a thread consumes the entry of the outermost call, however deep the thread
    is in other calls by then. -/
theorem first_return_records_outermost (hrate : args.sampleRate ≤ 1)
    (hkeeps : Permitted args KeepsInflight es) {ctx ctx' : Ctx n} {before inside : List (Event n)}
    (h : FirstReturn args es p ctx ctx' before inside) :
    ∃ r, (run args n es).hist.returns.getLast? = some r ∧ r.ctx = ctx' ∧
      r.recorded = some (p.entryData (run args n before).bpf ctx) := by
  obtain ⟨rfl, hthread, hnil, hp, hentries⟩ := h
  have hslot := slotOk_run args before
  have hentered : Guarded ctx.pidTgid (p.entryData (run args n before).bpf ctx)
      ((run args n before).enter p ctx) := by
    refine ⟨?_, by simp [enter_stack_self], ?_⟩
    · simp only [enter]
      rw [Probe.enter_inflight_free (hslot.free hnil), hslot.config.stores_eq hrate]
      have hidle : p.isIdle = false := by
        by_contra hi
        rw [Probe.isModuleGetFunction_of_isIdle (by simpa using hi)] at hp
        cases hp
      simp [hidle]
    · intro c hmem
      rw [enter_stack_self, hnil] at hmem
      rw [List.mem_singleton.mp hmem]
      exact hp
  -- the calls inside leave the slot alone
  have hrun := Runs.along_append.mp (Runs.along_append.mp hkeeps).1
  obtain ⟨hl, hne, hcalls⟩ : Guarded ctx.pidTgid (p.entryData (run args n before).bpf ctx)
      (Runs.run (step args) ((run args n before).enter p ctx) inside) :=
    Runs.run_invariant (I := Guarded ctx.pidTgid (p.entryData (run args n before).bpf ctx))
      (fun _ _ h he => guarded_step h he.1 he.2) hentered
      (hrun.2.2.and (Runs.along_of_forall hentries _))
  obtain ⟨call, rest, hs⟩ := List.exists_cons_of_ne_nil hne
  have hstep : run args n (before ++ .enter p ctx :: inside ++ [.ret ctx']) =
      (Runs.run (step args) ((run args n before).enter p ctx) inside).ret ctx' := by
    unfold run
    rw [Runs.run_concat, Runs.run_append]
    rfl
  rw [← hthread] at hs
  rw [hstep, ret_cons hs]
  refine ⟨_, List.getLast?_concat, rfl, ?_⟩
  have hcall := hcalls call (by rw [← hthread, hs]; simp)
  unfold completed Probe.recorded
  rw [hcall, hthread]
  exact hl

end Sys

end Profi
