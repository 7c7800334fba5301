import Profi.Stragglers

/-!
# Windows of Evicted Processes

The eviction of a process leaves its windows of NCCL durations in place. A process that is gone is
therefore still one of the group in later gc ticks, and what its collectives took decides over the
median that the ratios of all others are taken to.

Two runs are compared as one run of pairs. `DifferOnlyIn p` says of a pair of steps that they add
the same durations, except for those of `p`. At the ticks where `p` is gone the ratios of the others
agree exactly if each group has the same median in both runs (`GcSys.ratiosAgree_iff`).
-/

namespace Profi

variable {n : ℕ}

/-! ## What a record adds to the windows -/

/-- Durations for the window of a process and an operation. -/
abbrev Pushed := (U32 × EventType) × List U64

/-- What a record adds, and where. -/
def Record.pushed : Record → Option Pushed
  | .ring event =>
    if profiIsNcclEvent event.eventType ∧ event.durationNs > 0 then
      some ((event.pid, event.eventType), [event.durationNs])
    else none
  | .nccl key perCpu =>
    -- one entry for each bucket that has any call
    if (perCpu.map (·.count)).sum = 0 then none
    else
      some ((key.pid, key.eventType),
        ((ncclBucketMidpointsNs.zip (sumBuckets (perCpu.map (·.bucketCounts)))).filter
          fun b => b.2 ≠ 0).map Prod.fst)
  | .aggregated _ _ => none
  | .launch _ _ => none

def NcclDurations.add (durations : NcclDurations) (x : Pushed) : NcclDurations :=
  durations.push x.1.1 x.1.2 x.2

theorem Record.pushDurations_eq (durations : NcclDurations) (r : Record) :
    r.pushDurations durations = (r.pushed.map durations.add).getD durations := by
  cases r with
  | ring event =>
    simp only [pushDurations, pushed]
    split <;> rfl
  | nccl key perCpu =>
    simp only [pushDurations, pushed]
    split <;> rfl
  | aggregated _ _ => rfl
  | launch _ _ => rfl

theorem foldl_pushDurations (records : List Record) (durations : NcclDurations) :
    records.foldl Record.pushDurations durations =
      (records.filterMap Record.pushed).foldl NcclDurations.add durations := by
  induction records generalizing durations with
  | nil => rfl
  | cons r records ih =>
    rw [List.foldl_cons, ih, Record.pushDurations_eq, List.filterMap_cons]
    cases r.pushed <;> rfl

/-- Durations of zero are left out, and no bucket stands for zero. -/
theorem Record.pushed_pos {r : Record} {x : Pushed} (h : r.pushed = some x) :
    ∀ d ∈ x.2, 0 < d.toNat := by
  cases r with
  | ring event =>
    simp only [pushed] at h
    split at h
    next hpositive =>
      cases h
      intro d hd
      rw [List.mem_singleton.mp hd]
      exact BitVec.lt_def.mp hpositive.2
    · cases h
  | nccl key perCpu =>
    simp only [pushed] at h
    split at h
    · cases h
    · cases h
      intro d hd
      obtain ⟨b, hb, rfl⟩ := List.mem_map.mp hd
      have hmid : b.1 ∈ ncclBucketMidpointsNs :=
        (List.of_mem_zip (List.mem_filter.mp hb).1).1
      have hall : ∀ mid ∈ ncclBucketMidpointsNs, 0 < mid.toNat := by
        simp [ncclBucketMidpointsNs]
      exact hall b.1 hmid
  | aggregated _ _ => cases h
  | launch _ _ => cases h

/-! ## Tables that agree off a process -/

namespace NcclDurations

/-- The tables have the same windows for all other processes. -/
def AgreeOff (p : U32) (durations durations' : NcclDurations) : Prop :=
  ∀ k : U32 × EventType, k.1 ≠ p → durations.lookup k = durations'.lookup k

/-- Windows hold positive durations. -/
def Positive (durations : NcclDurations) : Prop :=
  ∀ k window, durations.lookup k = some window → ∀ d ∈ window, 0 < d.toNat

variable {p : U32} {durations durations' durations'' : NcclDurations}

theorem AgreeOff.refl (p : U32) (durations : NcclDurations) : AgreeOff p durations durations :=
  fun _ _ => rfl

theorem AgreeOff.symm (h : AgreeOff p durations durations') : AgreeOff p durations' durations :=
  fun k hk => (h k hk).symm

theorem AgreeOff.trans (h : AgreeOff p durations durations')
    (h' : AgreeOff p durations' durations'') : AgreeOff p durations durations'' :=
  fun k hk => (h k hk).trans (h' k hk)

theorem lookup_add (durations : NcclDurations) (x : Pushed) (k : U32 × EventType) :
    (durations.add x).lookup k =
      if k = x.1 then some (x.2.foldl pushBack ((durations.lookup x.1).getD []))
      else durations.lookup k :=
  FinMap.lookup_insert_eq_ite _ _ _ _

/-- Adding the same to both. -/
theorem AgreeOff.add (h : AgreeOff p durations durations') (x : Pushed) :
    AgreeOff p (durations.add x) (durations'.add x) := by
  intro k hk
  rw [lookup_add, lookup_add]
  split
  next heq =>
    rw [heq] at hk
    rw [h x.1 hk]
  · exact h k hk

/-- What is added for the process does not show. -/
theorem agreeOff_add_self (durations : NcclDurations) {x : Pushed} (hx : x.1.1 = p) :
    AgreeOff p (durations.add x) durations := by
  intro k hk
  rw [lookup_add, if_neg]
  rintro rfl
  exact hk hx

theorem AgreeOff.foldl_filter (h : AgreeOff p durations durations') (xs : List Pushed) :
    AgreeOff p (xs.foldl NcclDurations.add durations)
      ((xs.filter (·.1.1 ≠ p)).foldl NcclDurations.add durations') := by
  induction xs generalizing durations durations' with
  | nil => exact h
  | cons x xs ih =>
    rw [List.foldl_cons]
    -- what is added for the process is on one side only
    by_cases hx : x.1.1 = p
    · rw [List.filter_cons_of_neg (by simpa using hx)]
      exact ih ((agreeOff_add_self durations hx).trans h)
    · rw [List.filter_cons_of_pos (by simpa using hx), List.foldl_cons]
      exact ih (h.add x)

/-- Tables go on to agree if the same is added for the other processes. -/
theorem AgreeOff.foldl (h : AgreeOff p durations durations') {xs ys : List Pushed}
    (hsame : xs.filter (·.1.1 ≠ p) = ys.filter (·.1.1 ≠ p)) :
    AgreeOff p (xs.foldl NcclDurations.add durations) (ys.foldl NcclDurations.add durations') := by
  have hleft := h.foldl_filter xs
  rw [hsame] at hleft
  exact hleft.trans ((AgreeOff.refl p durations').foldl_filter ys).symm

theorem forall_mem_foldl_pushBack {P : U64 → Prop} {window values : List U64}
    (hwindow : ∀ d ∈ window, P d) (hvalues : ∀ d ∈ values, P d) :
    ∀ d ∈ values.foldl pushBack window, P d := by
  induction values generalizing window with
  | nil => exact hwindow
  | cons v values ih =>
    -- a full window loses its oldest value, and no other
    apply ih
    · intro d hd
      rcases List.mem_append.mp hd with hold | hnew
      · split at hold
        · exact hwindow d (List.mem_of_mem_tail hold)
        · exact hwindow d hold
      · rw [List.mem_singleton.mp hnew]
        exact hvalues v List.mem_cons_self
    · exact fun d hd => hvalues d (List.mem_cons_of_mem v hd)

theorem Positive.add (h : Positive durations) {x : Pushed} (hx : ∀ d ∈ x.2, 0 < d.toNat) :
    Positive (durations.add x) := by
  intro k window hwindow
  rw [lookup_add] at hwindow
  split at hwindow
  · cases hwindow
    apply forall_mem_foldl_pushBack _ hx
    cases hold : durations.lookup x.1 with
    | none => simp
    | some old => exact h x.1 old hold
  · exact h k window hwindow

theorem Positive.foldl (h : Positive durations) {xs : List Pushed}
    (hxs : ∀ x ∈ xs, ∀ d ∈ x.2, 0 < d.toNat) : Positive (xs.foldl NcclDurations.add durations) := by
  induction xs generalizing durations with
  | nil => exact h
  | cons x xs ih =>
    exact ih (h.add (hxs x List.mem_cons_self)) fun y hy => hxs y (List.mem_cons_of_mem x hy)

end NcclDurations

/-! ## Groups and their medians -/

/-- The percentile of a window is one of its durations. -/
theorem p95_mem {window : List U64} (h : window ≠ []) : p95 window ∈ window := by
  have hperm := List.mergeSort_perm window fun a b => decide (a.toNat ≤ b.toNat)
  have hlen := List.length_pos_of_ne_nil h
  rw [← hperm.length_eq] at hlen
  unfold p95
  rw [← hperm.mem_iff, List.getD_eq_getElem _ _ (by omega)]
  exact List.getElem_mem _

/-- The median that the ratios of an operation are taken to, if any are. -/
def groupMedian (env : GcEnv) (durations : NcclDurations) (op : EventType) : Option U64 :=
  if (pidP95s env durations op).length < 2 ∨ medianP95 env durations op = 0 then none
  else some (medianP95 env durations op)

section Median

variable {env env' : GcEnv} {durations durations' : NcclDurations} {op : EventType} {p : U32}

theorem mem_stragglers_iff_groupMedian {q : U32} {r : ℚ} :
    (q, op, r) ∈ stragglers env durations ↔
      ∃ m, groupMedian env durations op = some m ∧
        ∃ v, (q, v) ∈ pidP95s env durations op ∧ r = (v.toNat : ℚ) / m.toNat := by
  rw [mem_stragglers_iff]
  unfold groupMedian
  constructor
  · rintro ⟨htwo, hmedian, hq⟩
    exact ⟨_, if_neg (by rw [not_or, not_lt]; exact ⟨htwo, hmedian⟩), hq⟩
  · rintro ⟨m, hm, hq⟩
    split at hm
    · cases hm
    next hcompared =>
      rw [not_or, not_lt] at hcompared
      cases hm
      exact ⟨hcompared.1, hcompared.2, hq⟩

theorem groupMedian_pos {m : U64} (h : groupMedian env durations op = some m) : 0 < m.toNat := by
  unfold groupMedian at h
  split at h
  · cases h
  next hcompared =>
    rw [not_or] at hcompared
    cases h
    exact Nat.pos_of_ne_zero fun hzero => hcompared.2 (BitVec.eq_of_toNat_eq hzero)

/-- The other processes have the same percentiles. -/
theorem mem_pidP95s_of_agreeOff (h : durations.AgreeOff p durations') {q : U32} (hq : q ≠ p)
    {v : U64} :
    (q, v) ∈ pidP95s env durations op ↔ (q, v) ∈ pidP95s env' durations' op := by
  rw [mem_pidP95s_iff, mem_pidP95s_iff, h (q, op) hq]

/-- Ratios to two medians agree, if one of them is not zero, exactly if the medians do. -/
theorem ratio_inj {v m m' : U64} (hv : 0 < v.toNat) (hm : 0 < m.toNat) (hm' : 0 < m'.toNat)
    (h : (v.toNat : ℚ) / m.toNat = (v.toNat : ℚ) / m'.toNat) : m = m' := by
  have hvQ : (v.toNat : ℚ) ≠ 0 := by exact_mod_cast hv.ne'
  have hmQ : (m.toNat : ℚ) ≠ 0 := by exact_mod_cast hm.ne'
  have hmQ' : (m'.toNat : ℚ) ≠ 0 := by exact_mod_cast hm'.ne'
  rw [div_eq_div_iff hmQ hmQ'] at h
  have hnat : (m'.toNat : ℚ) = m.toNat := mul_left_cancel₀ hvQ h
  exact BitVec.eq_of_toNat_eq (by exact_mod_cast hnat.symm)

/-- The ratios of all other processes agree exactly if the medians do, of all operations that
    another process has a long enough window for. -/
theorem stragglers_agree_iff (h : durations.AgreeOff p durations') (hpos : durations.Positive) :
    (∀ q op r, q ≠ p →
        ((q, op, r) ∈ stragglers env durations ↔ (q, op, r) ∈ stragglers env' durations')) ↔
      ∀ op, (∃ x ∈ pidP95s env durations op, x.1 ≠ p) →
        groupMedian env durations op = groupMedian env' durations' op := by
  constructor
  · rintro hagree op ⟨⟨q, v⟩, hgroup, hq⟩
    have hgroup' : (q, v) ∈ pidP95s env' durations' op :=
      (mem_pidP95s_of_agreeOff h hq).mp hgroup
    have hv : 0 < v.toNat := by
      obtain ⟨window, hwindow, hlong, rfl⟩ := mem_pidP95s_iff.mp hgroup
      exact hpos _ _ hwindow _ (p95_mem (List.ne_nil_of_length_pos (by omega)))
    cases hm : groupMedian env durations op with
    | some m =>
      -- the ratio of the other process tells the median
      have hset := mem_stragglers_iff_groupMedian.mpr ⟨m, hm, v, hgroup, rfl⟩
      obtain ⟨m', hm', v', hv', hratio⟩ :=
        mem_stragglers_iff_groupMedian.mp ((hagree q op _ hq).mp hset)
      -- each process is in the group once
      have hsame : v' = v := congrArg Prod.snd
        (List.inj_on_of_nodup_map (pidP95s_nodup env' durations' op) hv' hgroup' rfl)
      subst hsame
      rw [hm', ratio_inj hv (groupMedian_pos hm) (groupMedian_pos hm') hratio]
    | none =>
      cases hm' : groupMedian env' durations' op with
      | none => rfl
      | some m' =>
        have hset := mem_stragglers_iff_groupMedian.mpr ⟨m', hm', v, hgroup', rfl⟩
        obtain ⟨m, hsome, -⟩ := mem_stragglers_iff_groupMedian.mp ((hagree q op _ hq).mpr hset)
        rw [hm] at hsome
        cases hsome
  · intro hmedian q op r hq
    rw [mem_stragglers_iff_groupMedian, mem_stragglers_iff_groupMedian]
    constructor
    · rintro ⟨m, hm, v, hv, hr⟩
      rw [hmedian op ⟨(q, v), hv, hq⟩] at hm
      exact ⟨m, hm, v, (mem_pidP95s_of_agreeOff h hq).mp hv, hr⟩
    · rintro ⟨m, hm, v, hv, hr⟩
      have hv' : (q, v) ∈ pidP95s env durations op := (mem_pidP95s_of_agreeOff h hq).mpr hv
      rw [← hmedian op ⟨(q, v), hv', hq⟩] at hm
      exact ⟨m, hm, v, hv', hr⟩

end Median

/-! ## Pairs of runs -/

def GcEvent.isTick (e : GcEvent n) : Bool :=
  match e.event with
  | .gcTick _ => true
  | _ => false

namespace GcSys

section

variable (args : Args) (timeoutNs : U64)

/-- Two runs side by side. -/
def pairStep (x : GcSys n × GcSys n) (e : GcEvent n × GcEvent n) : GcSys n × GcSys n :=
  (x.1.step args timeoutNs e.1, x.2.step args timeoutNs e.2)

/-- What a step adds to the windows. -/
def pushes (s : GcSys n) (e : GcEvent n) : List Pushed :=
  (s.sys.records args e.event).filterMap Record.pushed

/-- The steps of the two runs may differ in the durations they add for `p`: gc ticks come at the
    same time, and the durations of all other processes are the same. -/
def DifferOnlyIn (p : U32) (x : GcSys n × GcSys n) (e : GcEvent n × GcEvent n) : Prop :=
  e.1.isTick = e.2.isTick ∧
    (x.1.pushes args e.1).filter (·.1.1 ≠ p) = (x.2.pushes args e.2).filter (·.1.1 ≠ p)

instance (p : U32) (x : GcSys n × GcSys n) (e : GcEvent n × GcEvent n) :
    Decidable (DifferOnlyIn args p x e) :=
  inferInstanceAs (Decidable (_ ∧ _))

/-- At the step the process is evicted, or was before and had no event since. -/
def GoneAt (p : U32) (s : GcSys n) (e : GcEvent n) : Prop :=
  p ∈ s.gone ∨ p ∈ s.sys.evictedPids args e.event

/-- If `p` is gone, the step sets the same ratios for all other processes in both runs. -/
def RatiosAgree (p : U32) (x : GcSys n × GcSys n) (e : GcEvent n × GcEvent n) : Prop :=
  x.1.GoneAt args p e.1 → x.2.GoneAt args p e.2 →
    ∀ q op r, q ≠ p → ((q, op, r) ∈ x.1.ratios e.1 ↔ (q, op, r) ∈ x.2.ratios e.2)

/-- If `p` is gone at a gc tick, every operation for which another process is in the group has the
    same median in both runs, or is not compared in either. -/
def MediansAgree (p : U32) (x : GcSys n × GcSys n) (e : GcEvent n × GcEvent n) : Prop :=
  x.1.GoneAt args p e.1 → x.2.GoneAt args p e.2 → e.1.isTick = true →
    ∀ op, (∃ y ∈ pidP95s e.1.env x.1.ncclDurations op, y.1 ≠ p) →
      groupMedian e.1.env x.1.ncclDurations op = groupMedian e.2.env x.2.ncclDurations op

end

variable {args : Args} {timeoutNs : U64}

/-- The invariant of two runs that differ only in a process. -/
structure Alike (p : U32) (x : GcSys n × GcSys n) : Prop where
  agree : x.1.ncclDurations.AgreeOff p x.2.ncclDurations
  positive : x.1.ncclDurations.Positive

theorem alike_init (p : U32) (n : ℕ) : Alike p (init args n, init args n) where
  agree := .refl p _
  positive k window h := by cases h

theorem ncclDurations_step (s : GcSys n) (e : GcEvent n) :
    (s.step args timeoutNs e).ncclDurations =
      (s.pushes args e).foldl NcclDurations.add s.ncclDurations :=
  foldl_pushDurations _ _

theorem Alike.step {p : U32} {x : GcSys n × GcSys n} (h : Alike p x) {e : GcEvent n × GcEvent n}
    (hdiffer : DifferOnlyIn args p x e) : Alike p (pairStep args timeoutNs x e) where
  agree := by
    change NcclDurations.AgreeOff p (x.1.step args timeoutNs e.1).ncclDurations
      (x.2.step args timeoutNs e.2).ncclDurations
    rw [ncclDurations_step, ncclDurations_step]
    exact h.agree.foldl hdiffer.2
  positive := by
    change NcclDurations.Positive (x.1.step args timeoutNs e.1).ncclDurations
    rw [ncclDurations_step]
    apply h.positive.foldl
    intro pushed hpushed
    obtain ⟨record, -, hrecord⟩ := List.mem_filterMap.mp hpushed
    exact Record.pushed_pos hrecord

/-- Only a gc tick sets ratios. -/
theorem ratios_eq (s : GcSys n) (e : GcEvent n) :
    s.ratios e = if e.isTick = true then stragglers e.env s.ncclDurations else [] := by
  unfold ratios GcEvent.isTick
  cases e.event <;> rfl

theorem Alike.ratiosAgree_iff_mediansAgree {p : U32} {x : GcSys n × GcSys n} (h : Alike p x)
    {e : GcEvent n × GcEvent n} (hdiffer : DifferOnlyIn args p x e) :
    RatiosAgree args p x e ↔ MediansAgree args p x e := by
  unfold RatiosAgree MediansAgree
  refine imp_congr_right fun _ => imp_congr_right fun _ => ?_
  rw [ratios_eq, ratios_eq, ← hdiffer.1]
  cases htick : e.1.isTick with
  | false => simp
  | true =>
    simp only [↓reduceIte, true_implies]
    exact stragglers_agree_iff h.agree h.positive

/-- For two runs that differ only in the durations of a process: the ratios set for the other
    processes while it is gone agree exactly if the medians of their groups do. -/
theorem ratiosAgree_iff (p : U32) (es : List (GcEvent n × GcEvent n))
    (hdiffer : Runs.Along (pairStep args timeoutNs) (DifferOnlyIn args p)
      (init args n, init args n) es) :
    Runs.Along (pairStep args timeoutNs) (RatiosAgree args p) (init args n, init args n) es ↔
      Runs.Along (pairStep args timeoutNs) (MediansAgree args p) (init args n, init args n) es :=
  Runs.along_iff_of_invariant (I := Alike p) (fun _ _ h he => h.step he)
    (fun _ _ h he => h.ratiosAgree_iff_mediansAgree he) (alike_init p n) hdiffer

/-! ### A dead rank -/

/-- A thread makes ten all-reduces of the same length, each drained at once. -/
def tenReduces (pidTgid durNs : U64) (now : ℕ) : List (GcEvent 1) :=
  (List.replicate 10
    [⟨.enter (.ncclAllReduce 1 7) (Sys.bareCtx pidTgid 0 0), .bare⟩,
      ⟨.ret (Sys.bareCtx pidTgid durNs 0), .bare⟩,
      ⟨.aggTick { LoopEnv.bare with now := now }, .bare⟩]).flatten

/-- Process 7 makes all-reduces and falls silent. Later process 8 makes its own, of 30 µs, and a gc
    tick evicts process 7. -/
def deadRank (durNs : U64) : List (GcEvent 1) :=
  tenReduces 0x700000007 durNs 0 ++ tenReduces 0x800000008 30000 1000000000000 ++
    [⟨.gcTick { LoopEnv.bare with now := 1000000000000 }, .bare⟩]

/-- The states of the two runs when the gc tick comes. -/
def beforeTick (durNs durNs' : U64) : GcSys 1 × GcSys 1 :=
  Runs.run (pairStep {} 0) (init {} 1, init {} 1) (((deadRank durNs).zip (deadRank durNs')).take 60)

/-- Lengths that are in the same bucket make no difference. -/
theorem ratiosAgree_sameBucket :
    Runs.Along (pairStep {} 0) (RatiosAgree {} 7) (init {} 1, init {} 1)
      ((deadRank 5000).zip (deadRank 6000)) := by
  have hdiffer : Runs.Along (pairStep {} 0) (DifferOnlyIn {} 7) (init {} 1, init {} 1)
      ((deadRank 5000).zip (deadRank 6000)) := by
    decide +kernel
  refine (ratiosAgree_iff 7 _ hdiffer).mpr ?_
  rw [← List.take_append_drop 60 ((deadRank 5000).zip (deadRank 6000)), Runs.along_append]
  constructor
  · -- no gc tick so far
    have hother : ∀ e ∈ ((deadRank 5000).zip (deadRank 6000)).take 60,
        e.1.isTick = false := by
      decide +kernel
    apply (Runs.along_of_forall hother _).mono
    intro x e he _ _ htick
    rw [he] at htick
    cases htick
  · have hfirst : (beforeTick 5000 6000).1.ncclDurations = rankWindows [(8, 30000), (7, 5000)] :=
      AList.ext (by decide +kernel)
    have hsecond : (beforeTick 5000 6000).2.ncclDurations = rankWindows [(8, 30000), (7, 5000)] :=
      AList.ext (by decide +kernel)
    refine ⟨fun _ _ _ op _ => ?_, trivial⟩
    change groupMedian .bare (beforeTick 5000 6000).1.ncclDurations op =
      groupMedian .bare (beforeTick 5000 6000).2.ncclDurations op
    rw [hfirst, hsecond]

/-- The ratio of process 8 is 1 if the dead process took 5 µs, and less if it took 3 ms. -/
theorem notRatiosAgree_deadRank :
    Runs.Along (pairStep {} 0) (DifferOnlyIn {} 7) (init {} 1, init {} 1)
        ((deadRank 5000).zip (deadRank 3000000)) ∧
      ¬ Runs.Along (pairStep {} 0) (RatiosAgree {} 7) (init {} 1, init {} 1)
        ((deadRank 5000).zip (deadRank 3000000)) := by
  refine ⟨by decide +kernel, fun hagree => ?_⟩
  rw [← List.take_append_drop 60 ((deadRank 5000).zip (deadRank 3000000)),
    Runs.along_append] at hagree
  have hfirst : (beforeTick 5000 3000000).1.ncclDurations = rankWindows [(8, 30000), (7, 5000)] :=
    AList.ext (by decide +kernel)
  have hsecond : (beforeTick 5000 3000000).2.ncclDurations =
      rankWindows [(8, 30000), (7, 3000000)] :=
    AList.ext (by decide +kernel)
  have hratio := hagree.2.1 (.inr (by decide +kernel)) (.inr (by decide +kernel)) 8 .ncclAllReduce 1
    (by decide)
  change (8, EventType.ncclAllReduce, (1 : ℚ)) ∈
      stragglers .bare (beforeTick 5000 3000000).1.ncclDurations ↔
    (8, EventType.ncclAllReduce, (1 : ℚ)) ∈
      stragglers .bare (beforeTick 5000 3000000).2.ncclDurations at hratio
  have hmedian : medianP95 .bare (rankWindows [(8, 30000), (7, 5000)]) .ncclAllReduce = 30000 :=
    medianP95_rankWindows (p := 8) (by decide) rfl (by simp) (by simp) (by simp)
  have hmedian' : medianP95 .bare (rankWindows [(8, 30000), (7, 3000000)]) .ncclAllReduce =
      3000000 :=
    medianP95_rankWindows (p := 7) (by decide) rfl (by simp) (by simp) (by simp)
  have hgroup := pidP95s_rankWindows [(8, 30000), (7, 5000)] (by decide)
  have hgroup' := pidP95s_rankWindows [(8, 30000), (7, 3000000)] (by decide)
  rw [hfirst, hsecond, mem_stragglers_iff, mem_stragglers_iff, hmedian, hmedian', hgroup,
    hgroup'] at hratio
  -- process 8 is its own median in the first run, and compared with the dead process in the second
  obtain ⟨-, -, v, hv, hone⟩ := hratio.mp ⟨by decide, by decide, 30000, by simp, by simp⟩
  have hv : v = 30000 := by simpa using hv
  rw [hv] at hone
  change (1 : ℚ) = ((30000 : ℕ) : ℚ) / ((3000000 : ℕ) : ℚ) at hone
  norm_num at hone

end GcSys

end Profi
