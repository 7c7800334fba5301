import Profi.Launches
import Profi.DropAccounting

/-!
# The Books of the Counted Losses

Two of the kernel side's channels count what they cannot take: a launch whose key finds `LAUNCH_AGG`
full goes to `LAUNCH_DROPPED`, a record the ring refuses goes to `DROPPED`. The event loop reads
both counters at every aggregate tick and exports what they have grown by, if the read succeeds.

The books of both channels balance over every run, with no assumption about room: what was recorded
is what was handed out, what is still stored, and what was counted as dropped (`Books`). With the
exported counters in place of the kernel's they balance whenever a tick has read both
(`LossSys.balanced_after_tick`).
-/

namespace Profi

variable {n : ℕ} {args : Args}

/-! ## The counters of the kernel side -/

namespace Bpf

/-- The drops of all CPUs, as a number. -/
def droppedTotal (s : Bpf n) : ℕ := WordSum.total (List.ofFn s.dropped)

theorem toNat_le_total (counter : Fin n → U64) (cpu : Fin n) :
    (counter cpu).toNat ≤ WordSum.total (List.ofFn counter) := by
  apply List.le_sum_of_mem
  simp only [List.map_ofFn, List.mem_ofFn, Function.comp_apply]
  exact ⟨cpu, rfl⟩

/-- One more drop, as long as the drops fit a word. -/
theorem total_bumpDropped {counter : Fin n → U64} (cpu : Fin n)
    (hfits : WordSum.total (List.ofFn counter) + 1 < 2 ^ 64) :
    WordSum.total (List.ofFn (bumpDropped counter cpu)) =
      WordSum.total (List.ofFn counter) + 1 := by
  have hle := toNat_le_total counter cpu
  have hbump : (counter cpu + 1).toNat = (counter cpu).toNat + 1 :=
    BitVec.toNat_add_of_lt (lt_of_le_of_lt (Nat.succ_le_succ hle) hfits)
  simp only [WordSum.total, List.map_ofFn, List.sum_ofFn, Function.comp_apply]
  exact PerCpuMap.sum_update_slot BitVec.toNat counter cpu _ 1 hbump

/-- The refused launches of all CPUs, as a number. -/
def launchDroppedTotal (s : Bpf n) : ℕ := WordSum.total (List.ofFn s.launchDropped)

theorem recordLaunch_launchDropped (s : Bpf n) (ctx : Ctx n) (entry : EntryData) :
    (s.recordLaunch ctx entry).launchDropped =
      if s.launchAgg.HasRoom (s.launchKey ctx entry) then s.launchDropped
      else bumpDropped s.launchDropped ctx.cpu := by
  have hiff := PerCpuMap.accumulate_isSome_iff s.launchAgg ctx.cpu (s.launchKey ctx entry)
    (·.add (launchItem ctx entry)) (LaunchAggValue.fresh (launchItem ctx entry))
  unfold recordLaunch
  cases hacc : s.launchAgg.accumulate ctx.cpu (s.launchKey ctx entry)
      (·.add (launchItem ctx entry)) (LaunchAggValue.fresh (launchItem ctx entry)) with
  | none =>
    simp [← hiff, hacc]
  | some launchAgg =>
    simp [← hiff, hacc]

/-- Only a launch that finds its map full is counted by `LAUNCH_DROPPED`. -/
theorem record_launchDropped (s : Bpf n) (ctx : Ctx n) (entry : EntryData) :
    (s.record ctx entry).launchDropped =
      if entry.eventType = .cudaLaunchKernel ∧ ¬s.launchAgg.HasRoom (s.launchKey ctx entry) then
        bumpDropped s.launchDropped ctx.cpu
      else s.launchDropped := by
  unfold record
  split
  next h => rw [if_neg fun h' => ne_launch_of_aggregatable h h'.1, recordAggregated_frame]
  split
  next h => rw [if_neg fun h' => ne_launch_of_nccl h h'.1, recordNccl_frame]
  split
  next hlaunch =>
    have hrecord : (s.recordLaunch ctx entry).launchDropped =
        if entry.eventType = .cudaLaunchKernel ∧ ¬s.launchAgg.HasRoom (s.launchKey ctx entry) then
          bumpDropped s.launchDropped ctx.cpu
        else s.launchDropped := by
      rw [recordLaunch_launchDropped]
      by_cases hroom : s.launchAgg.HasRoom (s.launchKey ctx entry) <;> simp [hlaunch, hroom]
    split
    · rw [submitEvent_frame]
      exact hrecord
    · exact hrecord
  next hlaunch => rw [if_neg fun h => hlaunch h.1, submitEvent_frame]

/-- Only a record that the ring refuses is counted by `DROPPED`. -/
theorem record_dropped (s : Bpf n) (ctx : Ctx n) (entry : EntryData) :
    (s.record ctx entry).dropped =
      if s.toRing ctx entry ∧ ¬s.events.CanReserve then bumpDropped s.dropped ctx.cpu
      else s.dropped := by
  have hsubmit : ∀ b : Bpf n, (b.submitEvent ctx entry).dropped =
      if b.events.CanReserve then b.dropped else bumpDropped b.dropped ctx.cpu := by
    intro b
    unfold submitEvent RingBuf.submit
    by_cases hroom : b.events.CanReserve <;> simp [hroom]
  unfold record toRing ringBound
  split
  next h =>
    rw [recordAggregated_frame]
    simp [h]
  rename_i hagg
  split
  next h =>
    rw [recordNccl_frame]
    simp [h]
  rename_i hnccl
  split
  next hlaunch =>
    -- counting the launch touches neither the ring nor its counter
    have hframe : (s.recordLaunch ctx entry).dropped = s.dropped ∧
        (s.recordLaunch ctx entry).events = s.events := by
      rw [recordLaunch_frame]
      exact ⟨rfl, rfl⟩
    split
    next hring =>
      rw [hsubmit, hframe.1, hframe.2]
      by_cases hroom : s.events.CanReserve <;> simp [hagg, hnccl, hring, hroom]
    next hring =>
      rw [hframe.1]
      simp [hlaunch, hring]
  next hlaunch =>
    rw [hsubmit]
    by_cases hroom : s.events.CanReserve <;> simp [hagg, hnccl, hlaunch, hroom]

/-- The launches that the slots of `LAUNCH_AGG` hold. -/
def launchesStored (s : Bpf n) : ℕ := s.launchAgg.sum fun _ val => val.count

end Bpf

/-- The launches that drains of `LAUNCH_AGG` have handed to the event loop. -/
def History.launchesHanded (h : History n) : ℕ :=
  (h.launchHanded.map fun row => (row.2.map (·.count)).sum).sum

/-! ## What a return adds -/

section Return

variable {s : Sys n} (ctx : Ctx n) (call : OpenCall) (rest : List OpenCall)

/-- A launch is stored or counted as dropped, and nothing else is. -/
theorem exit_launches (args : Args) (hfits : s.bpf.launchDroppedTotal + 1 < 2 ^ 64) :
    (call.probe.exit s.bpf ctx).launchesStored + (call.probe.exit s.bpf ctx).launchDroppedTotal =
      s.bpf.launchesStored + s.bpf.launchDroppedTotal +
        if (s.completed ctx call rest).launchEntry.isSome then 1 else 0 := by
  have hget := (launchView args n).get_exit s ctx call rest
  have hrec : (s.completed ctx call rest).recorded = call.probe.recorded s.bpf ctx := rfl
  have hdropped : (call.probe.exit s.bpf ctx).launchDropped =
      (s.bpf.recordOpt ctx (call.probe.recorded s.bpf ctx)).launchDropped := by
    rw [Probe.exit_eq]
  cases hentry : (s.completed ctx call rest).launchEntry with
  -- no launch returns: neither the map nor the counter moves
  | none =>
    have hsame : (call.probe.exit s.bpf ctx).launchDropped = s.bpf.launchDropped := by
      rw [hdropped]
      cases hr : call.probe.recorded s.bpf ctx with
      | none => rfl
      | some entry =>
        have hne : entry.eventType ≠ .cudaLaunchKernel := by
          simpa [Completed.launchEntry, hrec, hr] using hentry
        rw [Bpf.recordOpt, Bpf.record_launchDropped, if_neg fun h => hne h.1]
    simp only [launchView, hentry, Option.map_none] at hget
    simp [Bpf.launchesStored, Bpf.launchDroppedTotal, hget, hsame]
  | some entry =>
    obtain ⟨hr, hlaunch⟩ : call.probe.recorded s.bpf ctx = some entry ∧
        entry.eventType = .cudaLaunchKernel := by
      simpa [Completed.launchEntry, hrec, Option.filter_eq_some_iff] using hentry
    rw [hr, Bpf.recordOpt, Bpf.record_launchDropped] at hdropped
    have hk : (launchView args n).key (s.completed ctx call rest) =
        some (s.bpf.launchKey ctx entry) := by
      simp only [launchView, hentry, Option.map_some]
      rfl
    by_cases hroom : s.bpf.launchAgg.HasRoom (s.bpf.launchKey ctx entry)
    · -- stored: the slot of its CPU counts one more
      rw [if_neg fun h => h.2 hroom] at hdropped
      obtain ⟨launchAgg, hacc⟩ := Option.isSome_iff_exists.mp
        ((PerCpuMap.accumulate_isSome_iff s.bpf.launchAgg ctx.cpu (s.bpf.launchKey ctx entry)
          ((launchView args n).add (s.completed ctx call rest))
          ((launchView args n).add (s.completed ctx call rest) 0)).mpr hroom)
      have hstored : (call.probe.exit s.bpf ctx).launchesStored = s.bpf.launchesStored + 1 := by
        rw [hk] at hget
        simp only [show (launchView args n).get s.bpf = s.bpf.launchAgg from rfl, hacc,
          Option.getD_some] at hget
        unfold Bpf.launchesStored
        rw [show (call.probe.exit s.bpf ctx).launchAgg = launchAgg from hget]
        apply PerCpuMap.sum_accumulate hacc rfl
        · rfl
        · simp [launchView, addItem, hentry, LaunchAggValue.add]
      rw [hstored, Bpf.launchDroppedTotal, hdropped]
      simp only [Bpf.launchDroppedTotal, Option.isSome_some, ↓reduceIte]
      omega
    · -- dropped: the map is as it was, and the counter of the CPU moves
      rw [if_pos ⟨hlaunch, hroom⟩] at hdropped
      have hstored : (call.probe.exit s.bpf ctx).launchesStored = s.bpf.launchesStored := by
        have hfull := (launchView args n).get_exit_of_full hk hroom
        unfold Bpf.launchesStored
        rw [show (call.probe.exit s.bpf ctx).launchAgg = s.bpf.launchAgg from hfull]
      rw [hstored, Bpf.launchDroppedTotal, hdropped, Bpf.total_bumpDropped ctx.cpu hfits]
      rfl

/-- A ring record is written or counted as dropped, and nothing else is. -/
theorem exit_ring (hcfg : Sys.ConfigOk args s.bpf) (hfits : s.bpf.droppedTotal + 1 < 2 ^ 64) :
    (call.probe.exit s.bpf ctx).events.records.length +
        (call.probe.exit s.bpf ctx).droppedTotal =
      s.bpf.events.records.length + s.bpf.droppedTotal +
        if ((s.completed ctx call rest).ringEvent args).isSome then 1 else 0 := by
  have hrec : (s.completed ctx call rest).recorded = call.probe.recorded s.bpf ctx := rfl
  rw [Probe.exit_eq]
  simp only [Bpf.droppedTotal, Completed.ringEvent, hrec, Option.isSome_map]
  cases hr : call.probe.recorded s.bpf ctx with
  | none => rfl
  | some entry =>
    simp only [Bpf.recordOpt, Option.filter_some]
    rw [Bpf.record_events, Bpf.record_dropped, toRing_completed hcfg ctx call rest entry]
    by_cases hring : (s.completed ctx call rest).toRing args entry = true
    · by_cases hroom : s.bpf.events.CanReserve
      · simp [hring, hroom, Bpf.submitEvent, RingBuf.submit, Nat.add_right_comm]
      · have hbump := Bpf.total_bumpDropped ctx.cpu hfits
        simp only [hring, hroom, not_false_eq_true, and_self, ↓reduceIte, Option.isSome_some]
        rw [hbump]
        simp [Bpf.submitEvent, RingBuf.submit, hroom, Nat.add_assoc]
    · simp [hring]

end Return

/-! ## The books -/

/-- What was recorded is what was handed out, what is still held, and what was counted as
    dropped. -/
structure Books (args : Args) (s : Sys n) : Prop where
  launches : s.hist.returns.countP (·.launchEntry.isSome) =
    s.hist.launchesHanded + s.bpf.launchesStored + s.bpf.launchDroppedTotal
  ring : s.hist.returns.countP (fun r => (r.ringEvent args).isSome) =
    s.hist.eventsConsumed.length + s.bpf.events.records.length + s.bpf.droppedTotal

theorem Books.launchDroppedTotal_le {s : Sys n} (h : Books args s) :
    s.bpf.launchDroppedTotal ≤ s.hist.returns.length := by
  have hle : s.hist.returns.countP (·.launchEntry.isSome) ≤ _ := List.countP_le_length
  have hbooks := h.launches
  omega

theorem Books.droppedTotal_le {s : Sys n} (h : Books args s) :
    s.bpf.droppedTotal ≤ s.hist.returns.length := by
  have hle : s.hist.returns.countP (fun r => (r.ringEvent args).isSome) ≤ _ :=
    List.countP_le_length
  have hbooks := h.ring
  omega

/-- In the background of the calls, launches move from the map to the event loop. -/
theorem launches_background {s : Sys n} {e : Event n} (hbg : Sys.Background s (s.step args e)) :
    (s.step args e).hist.launchesHanded + (s.step args e).bpf.launchesStored =
      s.hist.launchesHanded + s.bpf.launchesStored := by
  rcases (launchView args n).background s e hbg with ⟨hget, hhanded⟩ | ⟨-, order, -, hget, hhanded⟩
  · simp only [launchView] at hget hhanded
    simp [History.launchesHanded, Bpf.launchesStored, hget, hhanded]
  · simp only [launchView] at hget hhanded
    have hdrain := sum_drained (fun _ val => val.count) order s.bpf.launchAgg
    simp only [History.launchesHanded, Bpf.launchesStored, hget, hhanded, List.map_append,
      List.sum_append]
    omega

/-- In the background of the calls, records move from the ring to the event loop. -/
theorem ring_background {s : Sys n} {e : Event n} (hbg : Sys.Background s (s.step args e)) :
    (s.step args e).hist.eventsConsumed.length + (s.step args e).bpf.events.records.length =
      s.hist.eventsConsumed.length + s.bpf.events.records.length := by
  have hsame := s.buffersSame args e
  cases e with
  | ret ctx =>
    simp only [Sys.step] at hbg ⊢
    cases hs : s.stack ctx.pidTgid with
    | nil => rw [Sys.ret_nil hs]
    | cons call rest =>
      have hreturns := hbg.returns
      rw [Sys.ret_cons hs] at hreturns
      simp at hreturns
  | consume env =>
    simp only [Sys.step]
    rw [Sys.consume_bpf]
    simp only [Sys.consume, ← List.length_append, List.append_assoc, List.take_append_drop]
  | aggTick env =>
    simp only [Sys.step]
    rw [Sys.aggTick_bpf]
    rfl
  | _ => rw [(hsame rfl).events, (hsame rfl).eventsConsumed]

/-- Every step keeps the books, as long as the drops fit their words. -/
theorem Books.step {s : Sys n} (hcfg : Sys.ConfigOk args s.bpf) (h : Books args s) (e : Event n)
    (hfits : s.hist.returns.length + 1 < 2 ^ 64) : Books args (s.step args e) := by
  have hlaunchFits := h.launchDroppedTotal_le
  have hringFits := h.droppedTotal_le
  rcases Sys.step_cases args s e with ⟨p, ctx, -, hstep⟩ | ⟨ctx, call, rest, -, -, hstep⟩ |
    ⟨ev, -, hstep⟩ | hbg
  · rw [hstep, Sys.enter, Probe.enter_frame]
    exact ⟨h.launches, h.ring⟩
  · rw [hstep]
    -- a return adds as much on the one side as on the other
    have hlaunches := exit_launches (s := s) ctx call rest args (by omega)
    have hring := exit_ring ctx call rest hcfg (by omega)
    constructor
    · simp only [List.countP_append, List.countP_singleton, h.launches]
      change _ = s.hist.launchesHanded + _ + _
      omega
    · simp only [List.countP_append, List.countP_singleton, h.ring]
      omega
  · rw [hstep]
    cases ev <;> exact ⟨h.launches, h.ring⟩
  · -- the loop only moves from the maps to what it has handed out
    have hlaunches := launches_background hbg
    have hring := ring_background hbg
    have hcounters : (s.step args e).bpf.launchDroppedTotal = s.bpf.launchDroppedTotal ∧
        (s.step args e).bpf.droppedTotal = s.bpf.droppedTotal := by
      rw [hbg.bpf]
      exact ⟨rfl, rfl⟩
    refine ⟨?_, ?_⟩
    · rw [hbg.returns, hcounters.1, hlaunches]
      exact h.launches
    · rw [hbg.returns, hcounters.2, hring]
      exact h.ring

/-! ## The exported counters -/

/-- What the aggregate tick keeps about `LAUNCH_DROPPED`. -/
structure LaunchDropAccount where
  lastLaunchDropped : U64 := 0
  launchAggDrops : U64 := 0

namespace LaunchDropAccount

def tick (s : LaunchDropAccount) : Option U64 → LaunchDropAccount
  | none => s
  | some total =>
    let delta := WordSum.saturatingSub total s.lastLaunchDropped
    if delta > 0 then
      { lastLaunchDropped := total, launchAggDrops := s.launchAggDrops + delta }
    else s

end LaunchDropAccount

/-- An account exports what was read last, and that is not ahead of the drops. -/
structure Behind (exported last : U64) (drops : ℕ) : Prop where
  exported_eq : exported = last
  last_le : last.toNat ≤ drops

theorem Behind.mono {exported last : U64} {drops drops' : ℕ} (h : Behind exported last drops)
    (hle : drops ≤ drops') : Behind exported last drops' :=
  ⟨h.exported_eq, h.last_le.trans hle⟩

/-- New drops are added. -/
theorem Behind.add_delta {exported last total : U64} (h : Behind exported last total.toNat) :
    exported + WordSum.saturatingSub total last = total := by
  have hdelta := WordSum.toNat_saturatingSub (BitVec.le_def.mpr h.last_le)
  apply BitVec.eq_of_toNat_eq
  rw [BitVec.toNat_add, h.exported_eq, hdelta, Nat.add_sub_cancel' h.last_le]
  exact Nat.mod_eq_of_lt total.isLt

/-- Without new drops nothing is missing. -/
theorem Behind.last_eq {exported last total : U64} (h : Behind exported last total.toNat)
    (hzero : ¬WordSum.saturatingSub total last > 0) : last = total := by
  have hdelta := WordSum.toNat_saturatingSub (BitVec.le_def.mpr h.last_le)
  have hle := h.last_le
  apply BitVec.eq_of_toNat_eq
  rw [gt_iff_lt, BitVec.lt_def] at hzero
  simp only [BitVec.ofNat_eq_ofNat, BitVec.toNat_ofNat, Nat.zero_mod] at hzero
  omega

/-- A failed read changes nothing, and a successful one catches up with the drops. -/
structure CatchesUp {A : Type} (tick : A → Option U64 → A) (exported last : A → U64) : Prop where
  none : ∀ a, tick a none = a
  some : ∀ a total, Behind (exported a) (last a) total.toNat →
    exported (tick a (some total)) = total ∧ last (tick a (some total)) = total

/-- It is enough to move both values by new drops, and neither without. -/
theorem catchesUp_of_moves {A : Type} {tick : A → Option U64 → A} {exported last : A → U64}
    (hnone : ∀ a, tick a none = a)
    (hmoves : ∀ a total, let delta := WordSum.saturatingSub total (last a)
      (exported (tick a (some total)), last (tick a (some total))) =
        if delta > 0 then (exported a + delta, total) else (exported a, last a)) :
    CatchesUp tick exported last where
  none := hnone
  some a total h := by
    have hpair := Prod.ext_iff.mp (hmoves a total)
    split at hpair
    · exact ⟨hpair.1.trans h.add_delta, hpair.2⟩
    next hzero =>
      have hlast := h.last_eq hzero
      exact ⟨hpair.1.trans (h.exported_eq.trans hlast), hpair.2.trans hlast⟩

theorem DropAccount.catchesUp : CatchesUp tick droppedEvents lastDroppedTotal := by
  refine catchesUp_of_moves (fun _ => rfl) fun s total => ?_
  unfold tick
  dsimp only
  split <;> rfl

theorem LaunchDropAccount.catchesUp : CatchesUp tick launchAggDrops lastLaunchDropped := by
  refine catchesUp_of_moves (fun _ => rfl) fun s total => ?_
  unfold tick
  dsimp only
  split <;> rfl

/-- What a step reads from a counter: an aggregate tick, before it drains the maps. -/
def counterReads (counter : Fin n → U64) (lookupOk : Bool) : Event n → List (Option U64)
  | .aggTick _ => [readPercpuCounter (if lookupOk then some (List.ofFn counter) else none)]
  | _ => []

/-- An account after a step: caught up by a successful read, else as it was. -/
theorem CatchesUp.foldl_reads {A : Type} {tick : A → Option U64 → A} {exported last : A → U64}
    (hup : CatchesUp tick exported last) {a : A} {counter : Fin n → U64}
    (h : Behind (exported a) (last a) (WordSum.total (List.ofFn counter)))
    (hfits : WordSum.total (List.ofFn counter) < 2 ^ 64) (lookupOk : Bool) (e : Event n) :
    let a' := (counterReads counter lookupOk e).foldl tick a
    Behind (exported a') (last a') (WordSum.total (List.ofFn counter)) ∧
      ∀ env, e = .aggTick env → lookupOk = true →
        (exported a').toNat = WordSum.total (List.ofFn counter) := by
  have hread : ((List.ofFn counter).sum : U64).toNat = WordSum.total (List.ofFn counter) :=
    WordSum.toNat_sum_of_lt hfits
  unfold counterReads
  split
  · cases lookupOk with
    | false =>
      simp only [Bool.false_eq_true, ↓reduceIte, readPercpuCounter, Option.map_none,
        List.foldl_cons, List.foldl_nil, hup.none]
      exact ⟨h, fun _ _ hfalse => hfalse.elim⟩
    | true =>
      obtain ⟨hexported, hlast⟩ := hup.some a (List.ofFn counter).sum (hread ▸ h)
      simp only [↓reduceIte, readPercpuCounter, Option.map_some, List.foldl_cons, List.foldl_nil,
        hexported, hlast]
      exact ⟨⟨rfl, hread.le⟩, fun _ _ _ => hread⟩
  next hother => exact ⟨h, fun env henv => absurd henv (hother env)⟩

/-- The system with the accounting of both kinds of drops. -/
structure LossSys (n : ℕ) where
  sys : Sys n
  account : DropAccount
  launch : LaunchDropAccount

/-- A step, and whether lookups of `DROPPED` and `LAUNCH_DROPPED` in it succeed. -/
structure LossEvent (n : ℕ) where
  event : Event n
  lookupOk : Bool
  launchLookupOk : Bool

namespace LossSys

variable (args : Args)

def init (n : ℕ) : LossSys n := ⟨.init n args, {}, {}⟩

def step (s : LossSys n) (e : LossEvent n) : LossSys n where
  sys := s.sys.step args e.event
  account := (counterReads s.sys.bpf.dropped e.lookupOk e.event).foldl DropAccount.tick s.account
  launch := (counterReads s.sys.bpf.launchDropped e.launchLookupOk e.event).foldl
    LaunchDropAccount.tick s.launch

def run (n : ℕ) (es : List (LossEvent n)) : LossSys n := Runs.run (step args) (init args n) es

variable {args}

/-- The books balance, and no exported counter is ahead of them. -/
structure Ok (args : Args) (s : LossSys n) : Prop where
  config : Sys.ConfigOk args s.sys.bpf
  books : Books args s.sys
  ring : Behind s.account.droppedEvents s.account.lastDroppedTotal s.sys.bpf.droppedTotal
  launch : Behind s.launch.launchAggDrops s.launch.lastLaunchDropped s.sys.bpf.launchDroppedTotal

theorem ok_init (args : Args) : Ok args (init args n) where
  config := Sys.configOk_init args
  books := by
    have hzero : WordSum.total (List.ofFn fun _ : Fin n => (0 : U64)) = 0 := by
      simp [WordSum.total]
    exact ⟨hzero.symm.trans (Nat.zero_add _).symm, hzero.symm.trans (Nat.zero_add _).symm⟩
  ring := ⟨rfl, Nat.zero_le _⟩
  launch := ⟨rfl, Nat.zero_le _⟩

theorem returns_le_step (args : Args) (s : LossSys n) (e : LossEvent n) :
    s.sys.hist.returns.length ≤ (s.step args e).sys.hist.returns.length := by
  change _ ≤ (s.sys.step args e.event).hist.returns.length
  rcases Sys.step_cases args s.sys e.event with ⟨p, ctx, -, hstep⟩ |
    ⟨ctx, call, rest, -, -, hstep⟩ | ⟨ev, -, hstep⟩ | hbg
  · rw [hstep, Sys.enter]
  · rw [hstep]
    simp
  · rw [hstep]
  · rw [hbg.returns]

/-- The drops do not become fewer, as long as they fit a word. -/
theorem drops_le_step {s : LossSys n} (e : LossEvent n)
    (hring : s.sys.bpf.droppedTotal + 1 < 2 ^ 64)
    (hlaunch : s.sys.bpf.launchDroppedTotal + 1 < 2 ^ 64) :
    s.sys.bpf.droppedTotal ≤ (s.step args e).sys.bpf.droppedTotal ∧
      s.sys.bpf.launchDroppedTotal ≤ (s.step args e).sys.bpf.launchDroppedTotal := by
  change _ ≤ (s.sys.step args e.event).bpf.droppedTotal ∧
    _ ≤ (s.sys.step args e.event).bpf.launchDroppedTotal
  unfold Bpf.droppedTotal at hring ⊢
  rcases Sys.step_cases args s.sys e.event with ⟨p, ctx, -, hstep⟩ |
    ⟨ctx, call, rest, -, -, hstep⟩ | ⟨ev, -, hstep⟩ | hbg
  · rw [hstep, Sys.enter, Probe.enter_frame]
    exact ⟨le_rfl, le_rfl⟩
  · rw [hstep]
    rw [Probe.exit_eq]
    -- only a record can be dropped, and a drop is one more
    cases call.probe.recorded s.sys.bpf ctx with
    | none => exact ⟨le_rfl, le_rfl⟩
    | some entry =>
      simp only [Bpf.recordOpt, Bpf.record_dropped, Bpf.record_launchDropped]
      constructor
      · split
        · exact (Bpf.total_bumpDropped ctx.cpu hring).ge.trans' (Nat.le_succ _)
        · exact le_rfl
      · split
        · exact (Bpf.total_bumpDropped ctx.cpu hlaunch).ge.trans' (Nat.le_succ _)
        · exact le_rfl
  · rw [hstep]
    cases ev <;> exact ⟨le_rfl, le_rfl⟩
  · rw [hbg.bpf]
    exact ⟨le_rfl, le_rfl⟩

theorem ok_step {s : LossSys n} (h : Ok args s) (e : LossEvent n)
    (hfits : s.sys.hist.returns.length + 1 < 2 ^ 64) : Ok args (s.step args e) := by
  have hlaunchFits := h.books.launchDroppedTotal_le
  have hringFits := h.books.droppedTotal_le
  obtain ⟨hring, hlaunch⟩ := @drops_le_step _ args s e (by omega) (by omega)
  refine ⟨Sys.configOk_step h.config e.event, h.books.step h.config e.event hfits, ?_, ?_⟩
  · apply Behind.mono _ hring
    exact (DropAccount.catchesUp.foldl_reads h.ring (lt_of_le_of_lt hringFits (by omega)) _ _).1
  · apply Behind.mono _ hlaunch
    exact (LaunchDropAccount.catchesUp.foldl_reads h.launch
      (lt_of_le_of_lt hlaunchFits (by omega)) _ _).1

theorem ok_run {es : List (LossEvent n)}
    (hfits : (run args n es).sys.hist.returns.length + 1 < 2 ^ 64) : Ok args (run args n es) := by
  -- the returns only grow, so the bound on the last state bounds all before it
  suffices hinv : (run args n es).sys.hist.returns.length + 1 < 2 ^ 64 → Ok args (run args n es)
    from hinv hfits
  apply Runs.run_invariant_of_step
    (I := fun s : LossSys n => s.sys.hist.returns.length + 1 < 2 ^ 64 → Ok args s) ?_
    (fun _ => ok_init args)
  intro s e ih hlater
  have hle := returns_le_step args s e
  exact ok_step (ih (by omega)) e (by omega)

/-- In every run, whatever the maps and the ring could not take, the exported drop counters never
    claim more than was lost; and a tick that reads both counters closes the books: every recorded
    launch was handed to the event loop, is still in `LAUNCH_AGG`, or is in `launch_agg_drops`, and
    every ring record was consumed, is still in the ring, or is in `dropped_events`. -/
theorem balanced_after_tick (es : List (LossEvent n)) (env : LoopEnv)
    (hfits : (run args n es).sys.hist.returns.length + 1 < 2 ^ 64) :
    let s := run args n es
    let s' := run args n (es ++ [⟨.aggTick env, true, true⟩])
    s.sys.hist.launchesHanded + s.sys.bpf.launchesStored + s.launch.launchAggDrops.toNat ≤
        s.sys.hist.returns.countP (·.launchEntry.isSome) ∧
      s.sys.hist.eventsConsumed.length + s.sys.bpf.events.records.length +
          s.account.droppedEvents.toNat ≤
        s.sys.hist.returns.countP (fun r => (r.ringEvent args).isSome) ∧
      s'.sys.hist.returns.countP (·.launchEntry.isSome) =
        s'.sys.hist.launchesHanded + s'.sys.bpf.launchesStored +
          s'.launch.launchAggDrops.toNat ∧
      s'.sys.hist.returns.countP (fun r => (r.ringEvent args).isSome) =
        s'.sys.hist.eventsConsumed.length + s'.sys.bpf.events.records.length +
          s'.account.droppedEvents.toNat := by
  intro s s'
  have hbound : s.sys.hist.returns.length + 1 < 2 ^ 64 := hfits
  have hok : Ok args s := ok_run hfits
  have hs' : s' = s.step args ⟨.aggTick env, true, true⟩ := Runs.run_concat (step args) _ es _
  have hok' : Ok args s' := hs' ▸ ok_step hok _ hfits
  have hlaunchFits := hok.books.launchDroppedTotal_le
  have hringFits := hok.books.droppedTotal_le
  -- a tick reads the counters and leaves them as they are
  have hcounters : s'.sys.bpf.launchDroppedTotal = s.sys.bpf.launchDroppedTotal ∧
      s'.sys.bpf.droppedTotal = s.sys.bpf.droppedTotal := by
    have hbpf : s'.sys.bpf = (s.sys.step args (.aggTick env)).bpf := by
      rw [hs']
      rfl
    rw [hbpf]
    simp only [Sys.step]
    rw [Sys.aggTick_bpf]
    exact ⟨rfl, rfl⟩
  have hlaunch : s'.launch.launchAggDrops.toNat = s.sys.bpf.launchDroppedTotal := by
    rw [hs']
    exact (LaunchDropAccount.catchesUp.foldl_reads hok.launch
      (lt_of_le_of_lt hlaunchFits (by omega)) true (.aggTick env)).2 env rfl rfl
  have hring : s'.account.droppedEvents.toNat = s.sys.bpf.droppedTotal := by
    rw [hs']
    exact (DropAccount.catchesUp.foldl_reads hok.ring
      (lt_of_le_of_lt hringFits (by omega)) true (.aggTick env)).2 env rfl rfl
  refine ⟨?_, ?_, ?_, ?_⟩
  · have hle := hok.launch.last_le
    rw [hok.books.launches, hok.launch.exported_eq]
    omega
  · have hle := hok.ring.last_le
    rw [hok.books.ring, hok.ring.exported_eq]
    omega
  · rw [hlaunch, ← hcounters.1]
    exact hok'.books.launches
  · rw [hring, ← hcounters.2]
    exact hok'.books.ring

/-- Launches of two kernels, before a tick has read anything. -/
def unreadLaunches : List (LossEvent 1) :=
  singleLaunch.map (⟨·, false, false⟩) ++
    [⟨.enter (.cudaLaunchKernel 0x402000) (Sys.bareCtx 0x700000007 300 0), false, false⟩,
      ⟨.ret (Sys.bareCtx 0x700000007 400 0), false, false⟩]

/-- `--kernel-mode full` with room for one kernel in `LAUNCH_AGG`. -/
def smallMap : Args := { kernelMode := .full, launchAggSize := 1 }

/-- In a map with room for one kernel the second launch is lost, and the tick counts it. -/
theorem balanced_after_tick_launch :
    let s' := run smallMap 1 (unreadLaunches ++ [⟨.aggTick .bare, true, true⟩])
    s'.sys.hist.launchesHanded = 1 ∧ s'.launch.launchAggDrops = 1 ∧
      s'.sys.hist.returns.countP (·.launchEntry.isSome) =
        s'.sys.hist.launchesHanded + s'.sys.bpf.launchesStored +
          s'.launch.launchAggDrops.toNat := by
  have hfits : (run smallMap 1 unreadLaunches).sys.hist.returns.length + 1 < 2 ^ 64 := by decide
  exact ⟨by decide, by decide, (balanced_after_tick unreadLaunches .bare hfits).2.2.1⟩

end LossSys

end Profi
