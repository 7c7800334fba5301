import Profi.Modes
import Profi.Report

/-!
# The Report of the Event Loop

With `--report-interval` the event loop keeps statistics for the terminal. A ring event is recorded
in the entry of its operation. A drained row of `AGGREGATED` stands for many calls; their number and
their totals are added to the entry, but not their least and greatest duration, which the row does
not have. A gc tick merges the entries into the reported ones.

No operation has both: a call goes to the ring or to `AGGREGATED` by its type. So an entry fed by
the ring has the statistics of its calls, while one fed by rows has extremes of zero, and its total
lies between them only if the calls took no time at all (`ReportSys.bracketed_iff`).
-/

namespace Profi

variable {n : ℕ}

/-! ## Tables -/

/-- The operation an entry is for: event type and direction. -/
abbrev StatsKey := EventType × U32

abbrev TermTable := FinMap StatsKey TermStats

namespace TermTable

/-- `entry(key).or_default()`. -/
def entry (t : TermTable) (key : StatsKey) : TermStats := (t.lookup key).getD {}

def modify (t : TermTable) (key : StatsKey) (f : TermStats → TermStats) : TermTable :=
  t.insert key (f (entry t key))

theorem entry_modify (t : TermTable) (key key' : StatsKey) (f : TermStats → TermStats) :
    entry (modify t key f) key' = if key' = key then f (entry t key) else entry t key' := by
  unfold entry modify
  rw [FinMap.lookup_insert_eq_ite]
  split <;> rfl

theorem entry_empty (key : StatsKey) : entry ∅ key = {} := by
  unfold entry
  rfl

end TermTable

/-- `local_term_stats` and `term_stats`. -/
structure Report where
  localTermStats : TermTable := ∅
  termStats : TermTable := ∅

/-- What the drain of `AGGREGATED` adds to an entry. -/
def TermStats.addRow (s : TermStats) (totalCount : ℕ) (totalDuration totalSize : U64) :
    TermStats :=
  { s with
    count := s.count + BitVec.ofNat 64 totalCount
    totalNs := s.totalNs + totalDuration
    totalBytes := s.totalBytes + totalSize }

namespace Record

/-- The entry a record goes to. A row nobody counted in is skipped, launches and collectives are not
    reported from their maps. -/
def statsKey : Record → Option StatsKey
  | .ring event => some (event.eventType, event.memcpyKind)
  | .aggregated key perCpu =>
    if (perCpu.map (·.count)).sum = 0 then none else some (key.eventType, key.memcpyKind)
  | .launch _ _ => none
  | .nccl _ _ => none

theorem statsKey_aggregated {aggKey : AggKey} {perCpu : List AggValue} {key : StatsKey} :
    (Record.aggregated aggKey perCpu).statsKey = some key ↔
      (perCpu.map (·.count)).sum ≠ 0 ∧ (aggKey.eventType, aggKey.memcpyKind) = key := by
  change (if _ then none else some _) = some key ↔ _
  split <;> simp_all

/-- What a record does to its entry. -/
def applyTo (s : TermStats) : Record → TermStats
  | .ring event => s.record event.durationNs event.size
  -- the extremes are not touched
  | .aggregated _ perCpu =>
    s.addRow (perCpu.map (·.count)).sum (perCpu.map (·.durationSumNs)).sum
      (perCpu.map (·.sizeSum)).sum
  | .launch _ _ => s
  | .nccl _ _ => s

end Record

namespace Report

/-- The report after a record. -/
def handle (r : Report) (record : Record) : Report :=
  match record.statsKey with
  | some key =>
    { r with localTermStats := TermTable.modify r.localTermStats key (record.applyTo ·) }
  | none => r

/-- The merge of a gc tick, in the order in which the table is drained. -/
def merge (order : KeyOrder StatsKey) (r : Report) : Report where
  localTermStats := ∅
  termStats := (order.order r.localTermStats.keys).foldl (fun ts key =>
    TermTable.modify ts key (·.merge (TermTable.entry r.localTermStats key))) r.termStats

/-! ## Entries -/

theorem entry_handle (r : Report) (record : Record) (key : StatsKey) :
    TermTable.entry (r.handle record).localTermStats key =
      if record.statsKey = some key then record.applyTo (TermTable.entry r.localTermStats key)
      else TermTable.entry r.localTermStats key := by
  unfold handle
  cases h : record.statsKey with
  | none => simp
  | some other =>
    simp only [TermTable.entry_modify, Option.some.injEq]
    by_cases heq : key = other
    · subst heq
      simp
    · simp [heq, Ne.symm heq]

theorem termStats_handle (r : Report) (record : Record) :
    (r.handle record).termStats = r.termStats := by
  unfold handle
  split <;> rfl

/-- Merging different keys one after the other. -/
theorem entry_foldl_merge (f : StatsKey → TermStats) {keys : List StatsKey} (hnodup : keys.Nodup)
    (ts : TermTable) (key : StatsKey) :
    TermTable.entry (keys.foldl (fun ts key => TermTable.modify ts key (·.merge (f key))) ts) key =
      if key ∈ keys then (TermTable.entry ts key).merge (f key) else TermTable.entry ts key := by
  induction keys generalizing ts with
  | nil => rfl
  | cons first keys ih =>
    obtain ⟨hfirst, hnodup⟩ := List.nodup_cons.mp hnodup
    rw [List.foldl_cons, ih hnodup, TermTable.entry_modify]
    by_cases heq : key = first
    · subst heq
      simp [hfirst]
    · simp [heq]

/-- Every reported entry is merged with the entry of its key; without one there is nothing in it. -/
theorem entry_merge (order : KeyOrder StatsKey) (r : Report) (key : StatsKey) :
    TermTable.entry (r.merge order).termStats key =
      (TermTable.entry r.termStats key).merge (TermTable.entry r.localTermStats key) := by
  have hnodup : (order.order r.localTermStats.keys).Nodup :=
    (order.perm _).nodup_iff.mpr r.localTermStats.keys_nodup
  unfold merge
  rw [entry_foldl_merge _ hnodup]
  split
  · rfl
  next hout =>
    have habsent : key ∉ r.localTermStats := fun hmem =>
      hout ((order.perm _).mem_iff.mpr (AList.mem_keys.mp hmem))
    have hempty : TermTable.entry r.localTermStats key = {} := by
      unfold TermTable.entry
      rw [AList.lookup_eq_none.mpr habsent]
      rfl
    rw [hempty]
    rfl

end Report

/-! ## The loop -/

/-- The system with the report. `log` is a record for specifications, of what was reported. -/
structure ReportSys (n : ℕ) where
  sys : Sys n
  report : Report
  log : List Record

/-- A step, with the order in which a gc tick drains the table. -/
structure ReportEvent (n : ℕ) where
  event : Event n
  order : KeyOrder StatsKey

namespace ReportSys

variable (args : Args)

def init (n : ℕ) : ReportSys n := ⟨.init n args, {}, []⟩

/-- The records of an arm go to the report as they are handled; a gc tick merges. -/
def nextReport (s : ReportSys n) (e : ReportEvent n) : Report :=
  match e.event with
  | .gcTick _ => s.report.merge e.order
  | event => (s.sys.records args event).foldl Report.handle s.report

def step (s : ReportSys n) (e : ReportEvent n) : ReportSys n where
  sys := s.sys.step args e.event
  report := s.nextReport args e
  log := s.log ++ s.sys.records args e.event

end ReportSys

/-! ## Entries and their calls -/

namespace TermStats

/-- The least and the greatest duration bracket the mean. -/
def Bracketed (s : TermStats) : Prop :=
  s.count ≠ 0 →
    s.minNs.toNat * s.count.toNat ≤ s.totalNs.toNat ∧
      s.totalNs.toNat ≤ s.maxNs.toNat * s.count.toNat

/-- The same, of an entry without calls as well. -/
structure Balanced (s : TermStats) : Prop where
  lower : s.minNs.toNat * s.count.toNat ≤ s.totalNs.toNat
  upper : s.totalNs.toNat ≤ s.maxNs.toNat * s.count.toNat

theorem Balanced.init : Balanced {} := ⟨le_refl _, le_refl _⟩

theorem Balanced.single (durNs size : U64) : Balanced ⟨1, durNs, size, durNs, durNs⟩ :=
  ⟨(Nat.mul_one _).le, (Nat.mul_one _).ge⟩

theorem merge_of_count_ne_zero {s other : TermStats} (h : other.count ≠ 0) :
    (s.merge other).count = s.count + other.count ∧
      (s.merge other).totalNs = s.totalNs + other.totalNs := by
  rw [merge, if_neg h]
  exact ⟨rfl, rfl⟩

theorem merge_of_count_eq_zero {s other : TermStats} (h : other.count = 0) :
    s.merge other = s := by
  rw [merge, if_pos h]

/-- Merging entries that are in balance, without overflow. -/
theorem Balanced.merge {s other : TermStats} (h : s.Balanced) (h' : other.Balanced)
    (hcount : s.count.toNat + other.count.toNat < 2 ^ 64)
    (htotal : s.totalNs.toNat + other.totalNs.toNat < 2 ^ 64) : (s.merge other).Balanced := by
  by_cases hempty : other.count = 0
  · rw [merge_of_count_eq_zero hempty]
    exact h
  have hsum := merge_of_count_ne_zero (s := s) hempty
  have hcount' : (s.merge other).count.toNat = s.count.toNat + other.count.toNat := by
    rw [hsum.1, BitVec.toNat_add_of_lt hcount]
  have htotal' : (s.merge other).totalNs.toNat = s.totalNs.toNat + other.totalNs.toNat := by
    rw [hsum.2, BitVec.toNat_add_of_lt htotal]
  -- the merged minimum is below both, and the maximum above
  have hmin : (s.merge other).minNs.toNat * s.count.toNat ≤ s.minNs.toNat * s.count.toNat ∧
      (s.merge other).minNs.toNat ≤ other.minNs.toNat := by
    rw [TermStats.merge, if_neg hempty]
    simp only
    split
    next hcase =>
      refine ⟨?_, le_refl _⟩
      rcases hcase with hfresh | hlt
      · -- the entry had no calls
        have hzero : s.count.toNat = 0 := by
          have heq := congrArg BitVec.toNat hfresh
          rw [BitVec.toNat_add_of_lt hcount] at heq
          omega
        rw [hzero, Nat.mul_zero]
        exact Nat.zero_le _
      · exact Nat.mul_le_mul_right _ (BitVec.lt_def.mp hlt).le
    next hcase =>
      rw [not_or, BitVec.lt_def, not_lt] at hcase
      exact ⟨le_refl _, hcase.2⟩
  have hmax : s.maxNs.toNat ≤ (s.merge other).maxNs.toNat ∧
      other.maxNs.toNat ≤ (s.merge other).maxNs.toNat := by
    rw [TermStats.merge, if_neg hempty]
    simp only [toNat_greater]
    exact ⟨Nat.le_max_left _ _, Nat.le_max_right _ _⟩
  constructor
  · rw [hcount', htotal', Nat.mul_add]
    exact Nat.add_le_add (hmin.1.trans h.lower)
      ((Nat.mul_le_mul_right _ hmin.2).trans h'.lower)
  · rw [hcount', htotal', Nat.mul_add]
    exact Nat.add_le_add (h.upper.trans (Nat.mul_le_mul_right _ hmax.1))
      (h'.upper.trans (Nat.mul_le_mul_right _ hmax.2))

end TermStats

namespace Record

/-- The time the calls of a record took together. -/
def statsNs : Record → ℕ
  | .ring event => event.durationNs.toNat
  | .aggregated _ perCpu => WordSum.total (perCpu.map (·.durationSumNs))
  | .launch _ _ => 0
  | .nccl _ _ => 0

/-- Rows of `AGGREGATED` are of the types that are aggregated, ring events of the others. -/
def Sorted : Record → Prop
  | .ring event => profiIsAggregatable event.eventType = false
  | .aggregated key _ => profiIsAggregatable key.eventType = true
  | .launch _ _ => True
  | .nccl _ _ => True

/-- A row whose calls took no time; nothing is asked of ring events. -/
def Idle : Record → Prop
  | .aggregated key perCpu => (Record.aggregated key perCpu).statsKey ≠ none →
      WordSum.total (perCpu.map (·.durationSumNs)) = 0
  | _ => True

instance : DecidablePred Record.Idle
  | .aggregated _ _ => inferInstanceAs (Decidable (_ → _))
  | .ring _ => inferInstanceAs (Decidable True)
  | .launch _ _ => inferInstanceAs (Decidable True)
  | .nccl _ _ => inferInstanceAs (Decidable True)

end Record

/-- The calls that a list of records has for a key. -/
def reportedCalls (log : List Record) (key : StatsKey) : ℕ :=
  ((log.filter fun record => record.statsKey = some key).map Record.count).sum

/-- The time these calls took together. -/
def reportedNs (log : List Record) (key : StatsKey) : ℕ :=
  ((log.filter fun record => record.statsKey = some key).map Record.statsNs).sum

/-- For each key, the number of the calls and their total time fit a word. -/
def Fits (log : List Record) : Prop :=
  ∀ key, reportedCalls log key < 2 ^ 64 ∧ reportedNs log key < 2 ^ 64

theorem reportedCalls_append (log log' : List Record) (key : StatsKey) :
    reportedCalls (log ++ log') key = reportedCalls log key + reportedCalls log' key := by
  simp [reportedCalls]

theorem reportedNs_append (log log' : List Record) (key : StatsKey) :
    reportedNs (log ++ log') key = reportedNs log key + reportedNs log' key := by
  simp [reportedNs]

theorem reportedCalls_singleton (record : Record) (key : StatsKey) :
    reportedCalls [record] key = if record.statsKey = some key then record.count else 0 := by
  unfold reportedCalls
  split <;> simp_all

theorem reportedNs_singleton (record : Record) (key : StatsKey) :
    reportedNs [record] key = if record.statsKey = some key then record.statsNs else 0 := by
  unfold reportedNs
  split <;> simp_all

theorem Fits.left {log log' : List Record} (h : Fits (log ++ log')) : Fits log := by
  intro key
  have hkey := h key
  rw [reportedCalls_append, reportedNs_append] at hkey
  omega

/-- Totals over all keys bound those of each. -/
theorem fits_of_sum {log : List Record} (hcalls : (log.map Record.count).sum < 2 ^ 64)
    (hns : (log.map Record.statsNs).sum < 2 ^ 64) : Fits log := by
  intro key
  have hsub := List.filter_sublist (l := log) (p := fun record => record.statsKey = some key)
  exact ⟨((hsub.map _).sum_le_sum fun _ _ => Nat.zero_le _).trans_lt hcalls,
    ((hsub.map _).sum_le_sum fun _ _ => Nat.zero_le _).trans_lt hns⟩

/-- What is known about an entry without looking at its calls. -/
structure EntryOk (key : StatsKey) (s : TermStats) : Prop where
  ring : profiIsAggregatable key.1 = false → s.Balanced
  rows : profiIsAggregatable key.1 = true → s.minNs = 0 ∧ s.maxNs = 0
  empty : s.count = 0 → s.totalNs = 0

namespace EntryOk

variable {key : StatsKey} {s other : TermStats}

theorem init (key : StatsKey) : EntryOk key {} :=
  ⟨fun _ => .init, fun _ => ⟨rfl, rfl⟩, fun _ => rfl⟩

theorem merge (h : EntryOk key s) (h' : EntryOk key other)
    (hcount : s.count.toNat + other.count.toNat < 2 ^ 64)
    (htotal : s.totalNs.toNat + other.totalNs.toNat < 2 ^ 64) : EntryOk key (s.merge other) where
  ring hkind := (h.ring hkind).merge (h'.ring hkind) hcount htotal
  rows hkind := by
    obtain ⟨hmin, hmax⟩ := h.rows hkind
    obtain ⟨hmin', hmax'⟩ := h'.rows hkind
    unfold TermStats.merge
    split <;> simp_all
  empty hzero := by
    by_cases hempty : other.count = 0
    · rw [TermStats.merge_of_count_eq_zero hempty] at hzero ⊢
      exact h.empty hzero
    · -- the calls of the other entry are in it
      have hsum := congrArg BitVec.toNat (TermStats.merge_of_count_ne_zero (s := s) hempty).1
      rw [hzero, BitVec.toNat_add_of_lt hcount] at hsum
      have hpos : other.count.toNat ≠ 0 := fun h0 => hempty (BitVec.eq_of_toNat_eq h0)
      simp only [BitVec.ofNat_eq_ofNat, BitVec.toNat_ofNat, Nat.zero_mod] at hsum
      omega

/-- Merging adds the calls and their time. -/
theorem toNat_merge (h' : EntryOk key other)
    (hcount : s.count.toNat + other.count.toNat < 2 ^ 64)
    (htotal : s.totalNs.toNat + other.totalNs.toNat < 2 ^ 64) :
    (s.merge other).count.toNat = s.count.toNat + other.count.toNat ∧
      (s.merge other).totalNs.toNat = s.totalNs.toNat + other.totalNs.toNat := by
  by_cases hempty : other.count = 0
  · rw [TermStats.merge_of_count_eq_zero hempty, hempty, h'.empty hempty]
    exact ⟨rfl, rfl⟩
  · obtain ⟨hsum, hsum'⟩ := TermStats.merge_of_count_ne_zero (s := s) hempty
    rw [hsum, hsum', BitVec.toNat_add_of_lt hcount, BitVec.toNat_add_of_lt htotal]
    exact ⟨rfl, rfl⟩

/-- A record adds its calls and their time to its entry. -/
theorem applyTo (h : EntryOk key s) {record : Record} (hkey : record.statsKey = some key)
    (hsorted : record.Sorted) (hcount : s.count.toNat + record.count < 2 ^ 64)
    (htotal : s.totalNs.toNat + record.statsNs < 2 ^ 64) :
    EntryOk key (record.applyTo s) ∧
      (record.applyTo s).count.toNat = s.count.toNat + record.count ∧
      (record.applyTo s).totalNs.toNat = s.totalNs.toNat + record.statsNs := by
  cases record with
  | ring event =>
    -- recording is merging an entry for the one call
    have hkind : profiIsAggregatable key.1 = false := by
      rw [← Option.some.inj hkey]
      exact hsorted
    have hsingle : EntryOk key ⟨1, event.durationNs, event.size, event.durationNs,
        event.durationNs⟩ :=
      ⟨fun _ => .single _ _, fun hagg => absurd hagg (by simp [hkind]), fun hzero => by cases hzero⟩
    exact ⟨h.merge hsingle hcount htotal, hsingle.toNat_merge hcount htotal⟩
  | aggregated aggKey perCpu =>
    obtain ⟨hne, rfl⟩ := Record.statsKey_aggregated.mp hkey
    have hkind : profiIsAggregatable aggKey.eventType = true := hsorted
    change s.count.toNat + (perCpu.map (·.count)).sum < 2 ^ 64 at hcount
    change s.totalNs.toNat + WordSum.total (perCpu.map (·.durationSumNs)) < 2 ^ 64 at htotal
    have hofNat : (BitVec.ofNat 64 (perCpu.map (·.count)).sum).toNat =
        (perCpu.map (·.count)).sum := by
      rw [BitVec.toNat_ofNat, Nat.mod_eq_of_lt (by omega)]
    have hsum : ((perCpu.map (·.durationSumNs)).sum : U64).toNat =
        WordSum.total (perCpu.map (·.durationSumNs)) :=
      WordSum.toNat_sum_of_lt (by omega)
    have hcount' : (s.count + BitVec.ofNat 64 (perCpu.map (·.count)).sum).toNat =
        s.count.toNat + (perCpu.map (·.count)).sum := by
      rw [BitVec.toNat_add_of_lt (by rwa [hofNat]), hofNat]
    refine ⟨⟨fun hring => absurd hring (by simp [hkind]), fun _ => h.rows hkind, ?_⟩, hcount', ?_⟩
    · intro hzero
      have hnat : (s.count + BitVec.ofNat 64 (perCpu.map (·.count)).sum).toNat = 0 :=
        congrArg BitVec.toNat hzero
      omega
    · change (s.totalNs + (perCpu.map (·.durationSumNs)).sum).toNat = _
      rw [BitVec.toNat_add_of_lt (by rwa [hsum]), hsum]
      rfl
  | launch _ _ => cases hkey
  | nccl _ _ => cases hkey

end EntryOk

/-! ## The report and its log -/

/-- The entries have the calls of the log, each key on its own. -/
structure Report.Accounts (r : Report) (log : List Record) : Prop where
  calls : ∀ key, (TermTable.entry r.localTermStats key).count.toNat +
    (TermTable.entry r.termStats key).count.toNat = reportedCalls log key
  ns : ∀ key, (TermTable.entry r.localTermStats key).totalNs.toNat +
    (TermTable.entry r.termStats key).totalNs.toNat = reportedNs log key
  localOk : ∀ key, EntryOk key (TermTable.entry r.localTermStats key)
  termOk : ∀ key, EntryOk key (TermTable.entry r.termStats key)
  sorted : ∀ record ∈ log, record.Sorted

namespace Report.Accounts

variable {r : Report} {log : List Record}

theorem init : Accounts {} [] where
  calls key := by simp [TermTable.entry_empty, reportedCalls]
  ns key := by simp [TermTable.entry_empty, reportedNs]
  localOk key := by
    exact .init key
  termOk key := by
    exact .init key
  sorted := by simp

theorem handle (h : r.Accounts log) {record : Record} (hsorted : record.Sorted)
    (hfits : Fits (log ++ [record])) : (r.handle record).Accounts (log ++ [record]) := by
  -- only the entry of the record's key changes
  have hentry : ∀ key, record.statsKey = some key →
      let s := TermTable.entry r.localTermStats key
      EntryOk key (record.applyTo s) ∧
        (record.applyTo s).count.toNat = s.count.toNat + record.count ∧
        (record.applyTo s).totalNs.toNat = s.totalNs.toNat + record.statsNs := by
    intro key hkey
    have hkeyFits := hfits key
    rw [reportedCalls_append, reportedNs_append, reportedCalls_singleton, reportedNs_singleton,
      if_pos hkey, if_pos hkey, ← h.calls, ← h.ns] at hkeyFits
    exact (h.localOk key).applyTo hkey hsorted (by omega) (by omega)
  refine ⟨?_, ?_, ?_, ?_, ?_⟩
  · intro key
    rw [Report.entry_handle, Report.termStats_handle, reportedCalls_append,
      reportedCalls_singleton, ← h.calls]
    split
    next hkey =>
      rw [(hentry key hkey).2.1]
      omega
    · omega
  · intro key
    rw [Report.entry_handle, Report.termStats_handle, reportedNs_append, reportedNs_singleton,
      ← h.ns]
    split
    next hkey =>
      rw [(hentry key hkey).2.2]
      omega
    · omega
  · intro key
    rw [Report.entry_handle]
    split
    next hkey => exact (hentry key hkey).1
    · exact h.localOk key
  · intro key
    rw [Report.termStats_handle]
    exact h.termOk key
  · intro other hother
    rcases List.mem_append.mp hother with hold | hnew
    · exact h.sorted other hold
    · rw [List.mem_singleton.mp hnew]
      exact hsorted

theorem foldl_handle (h : r.Accounts log) {records : List Record}
    (hsorted : ∀ record ∈ records, record.Sorted) (hfits : Fits (log ++ records)) :
    (records.foldl Report.handle r).Accounts (log ++ records) := by
  induction records generalizing r log with
  | nil => simpa using h
  | cons record records ih =>
    rw [List.append_cons] at hfits ⊢
    have hnext := h.handle (hsorted record List.mem_cons_self) hfits.left
    exact ih hnext (fun r' hr' => hsorted r' (List.mem_cons_of_mem record hr')) hfits

/-- A merge moves the local entries over and loses no call. -/
theorem merge (h : r.Accounts log) (hfits : Fits log) (order : KeyOrder StatsKey) :
    (r.merge order).Accounts log := by
  have hlocal : ∀ key, TermTable.entry (r.merge order).localTermStats key = {} :=
    TermTable.entry_empty
  have hroom : ∀ key, (TermTable.entry r.termStats key).count.toNat +
        (TermTable.entry r.localTermStats key).count.toNat < 2 ^ 64 ∧
      (TermTable.entry r.termStats key).totalNs.toNat +
        (TermTable.entry r.localTermStats key).totalNs.toNat < 2 ^ 64 := by
    intro key
    have hkeyFits := hfits key
    rw [← h.calls, ← h.ns] at hkeyFits
    omega
  refine ⟨?_, ?_, ?_, ?_, h.sorted⟩
  · intro key
    rw [hlocal, Report.entry_merge, ← h.calls,
      ((h.localOk key).toNat_merge (hroom key).1 (hroom key).2).1]
    simp only [BitVec.ofNat_eq_ofNat, BitVec.toNat_ofNat]
    omega
  · intro key
    rw [hlocal, Report.entry_merge, ← h.ns,
      ((h.localOk key).toNat_merge (hroom key).1 (hroom key).2).2]
    simp only [BitVec.ofNat_eq_ofNat, BitVec.toNat_ofNat]
    omega
  · intro key
    exact .init key
  · intro key
    rw [Report.entry_merge]
    exact (h.termOk key).merge (h.localOk key) (hroom key).1 (hroom key).2

/-- An entry brackets its mean exactly if its extremes were kept, or the time was none. -/
theorem bracketed_iff_of_rows {key : StatsKey} {s : TermStats} (h : EntryOk key s)
    (hkind : profiIsAggregatable key.1 = true) : s.Bracketed ↔ s.totalNs.toNat = 0 := by
  obtain ⟨hmin, hmax⟩ := h.rows hkind
  unfold TermStats.Bracketed
  rw [hmin, hmax]
  simp only [BitVec.ofNat_eq_ofNat, BitVec.toNat_ofNat, Nat.zero_mod, Nat.zero_mul, Nat.zero_le,
    true_and, Nat.le_zero]
  constructor
  · intro hbracketed
    by_cases hcount : s.count = 0
    · rw [h.empty hcount]
      rfl
    · exact hbracketed hcount
  · intro hzero _
    exact hzero

end Report.Accounts

/-- Every entry of the report that has calls brackets its mean. -/
def Report.Bracketed (r : Report) : Prop :=
  ∀ key stats, (r.localTermStats.lookup key = some stats ∨ r.termStats.lookup key = some stats) →
    stats.Bracketed

theorem Report.bracketed_iff_entry {r : Report} :
    r.Bracketed ↔ ∀ key, (TermTable.entry r.localTermStats key).Bracketed ∧
      (TermTable.entry r.termStats key).Bracketed := by
  -- a key without an entry counts as one without calls
  have hentry : ∀ (t : TermTable) key, (TermTable.entry t key).Bracketed ↔
      ∀ stats, t.lookup key = some stats → stats.Bracketed := by
    intro t key
    unfold TermTable.entry
    cases t.lookup key with
    | none =>
      simp only [Option.getD_none, reduceCtorEq, false_implies, implies_true, iff_true]
      exact fun hne => absurd rfl hne
    | some stats => simp
  simp only [hentry]
  constructor
  · intro h key
    exact ⟨fun stats hstats => h key stats (.inl hstats),
      fun stats hstats => h key stats (.inr hstats)⟩
  · intro h key stats hstats
    exact hstats.elim ((h key).1 stats) ((h key).2 stats)

/-- The calls of an operation that is aggregated took no time exactly if its rows did not. -/
theorem Report.Accounts.reportedNs_eq_zero_iff {r : Report} {log : List Record}
    (h : r.Accounts log) {key : StatsKey} (hkind : profiIsAggregatable key.1 = true) :
    reportedNs log key = 0 ↔ ∀ record ∈ log, record.statsKey = some key → record.Idle := by
  unfold reportedNs
  rw [List.sum_eq_zero_iff]
  simp only [List.mem_map, List.mem_filter, decide_eq_true_eq, forall_exists_index, and_imp]
  constructor
  · intro hzero record hrecord hkey
    cases record with
    | aggregated aggKey perCpu => exact fun _ => hzero _ _ hrecord hkey rfl
    | _ => trivial
  · rintro hidle _ record hrecord hkey rfl
    cases record with
    | ring event =>
      -- ring events are not of this kind
      have hring : profiIsAggregatable event.eventType = false := h.sorted _ hrecord
      rw [← Option.some.inj hkey] at hkind
      simp [hring] at hkind
    | aggregated aggKey perCpu => exact hidle _ hrecord hkey (by simp [hkey])
    | launch _ _ => cases hkey
    | nccl _ _ => cases hkey

theorem Report.Accounts.bracketed_iff_idle {r : Report} {log : List Record}
    (h : r.Accounts log) : r.Bracketed ↔ ∀ record ∈ log, record.Idle := by
  -- the two entries of an operation that is aggregated are right if its calls took no time
  have hrows : ∀ key : StatsKey, profiIsAggregatable key.1 = true →
      ((TermTable.entry r.localTermStats key).Bracketed ∧
        (TermTable.entry r.termStats key).Bracketed ↔ reportedNs log key = 0) := by
    intro key hkind
    rw [bracketed_iff_of_rows (h.localOk key) hkind, bracketed_iff_of_rows (h.termOk key) hkind,
      ← h.ns]
    omega
  rw [Report.bracketed_iff_entry]
  constructor
  · intro hbracketed record hrecord
    cases record with
    | aggregated aggKey perCpu =>
      intro hkey
      have hkind : profiIsAggregatable aggKey.eventType = true := h.sorted _ hrecord
      obtain ⟨key, hkey⟩ := Option.ne_none_iff_exists'.mp hkey
      obtain ⟨-, rfl⟩ := Record.statsKey_aggregated.mp hkey
      have hzero := (hrows _ hkind).mp (hbracketed (aggKey.eventType, aggKey.memcpyKind))
      exact (h.reportedNs_eq_zero_iff hkind).mp hzero _ hrecord hkey (by simp [hkey])
    | _ => trivial
  · intro hidle key
    cases hkind : profiIsAggregatable key.1 with
    | false =>
      have hbalanced : ∀ {s : TermStats}, EntryOk key s → s.Bracketed := fun hok _ =>
        ⟨(hok.ring hkind).lower, (hok.ring hkind).upper⟩
      exact ⟨hbalanced (h.localOk key), hbalanced (h.termOk key)⟩
    | true =>
      apply (hrows key hkind).mpr
      rw [h.reportedNs_eq_zero_iff hkind]
      exact fun record hrecord _ => hidle record hrecord

/-! ## Runs -/

namespace ReportSys

variable {args : Args}

/-- What a step hands to the report has its kind. -/
theorem sorted_records {s : Sys n}
    (h : s.bpf.SortedFor fun eventType => profiIsAggregatable eventType = false) (e : Event n) :
    ∀ record ∈ s.records args e, record.Sorted := by
  intro record hrecord
  cases e with
  | consume env =>
    obtain ⟨event, hevent, rfl⟩ := List.mem_map.mp hrecord
    exact h.ring event (List.mem_of_mem_take hevent)
  | aggTick env =>
    simp only [Sys.records, tickRecords, List.mem_append, List.mem_map] at hrecord
    rcases hrecord with (⟨kv, hkv, rfl⟩ | hlaunch) | ⟨kv, -, rfl⟩
    · obtain ⟨vals, hlookup, -⟩ := mem_drained hkv
      exact h.aggregated kv.1 (FinMap.mem_iff_lookup.mpr ⟨vals, hlookup⟩)
    · split at hlaunch
      · cases hlaunch
      · obtain ⟨kv, -, rfl⟩ := List.mem_map.mp hlaunch
        trivial
    · trivial
  | _ => cases hrecord

/-- Event types are kept apart. -/
theorem sortedFor_step {s : Sys n}
    (h : s.bpf.SortedFor fun eventType => profiIsAggregatable eventType = false) (e : Event n) :
    (s.step args e).bpf.SortedFor fun eventType => profiIsAggregatable eventType = false := by
  apply Sys.sortedFor_step _ h
  intro ctx entry htoRing
  simp only [Bpf.toRing, Bpf.ringBound, Bool.and_eq_true, Bool.not_eq_true'] at htoRing
  exact htoRing.1.1

/-- For each operation, the calls reported so far and their total time fit a word. -/
def TotalsFit (args : Args) (s : ReportSys n) (e : ReportEvent n) : Prop :=
  Fits (s.log ++ s.sys.records args e.event)

/-- The rows of `AGGREGATED` that a step drains have calls that took no time. -/
def RowsIdle (args : Args) (s : ReportSys n) (e : ReportEvent n) : Prop :=
  ∀ record ∈ s.sys.records args e.event, record.Idle

/-- The invariant: types are kept apart, and the report has the calls of the log. -/
structure Accounted (s : ReportSys n) : Prop where
  sorted : s.sys.bpf.SortedFor fun eventType => profiIsAggregatable eventType = false
  accounts : s.report.Accounts s.log

theorem accounted_init (n : ℕ) : (init args n).Accounted :=
  ⟨.init n args, .init⟩

theorem accounted_step (s : ReportSys n) (e : ReportEvent n) (h : s.Accounted)
    (hfits : s.TotalsFit args e) : (s.step args e).Accounted where
  sorted := sortedFor_step h.sorted e.event
  accounts := by
    unfold step nextReport
    unfold TotalsFit at hfits
    split
    next env hgc =>
      simp only [hgc, Sys.records, List.append_nil] at hfits ⊢
      exact h.accounts.merge hfits e.order
    · exact h.accounts.foldl_handle (sorted_records h.sorted e.event) hfits

/-- In a run whose totals fit a word, every entry with calls brackets its mean in every state
    reached, exactly if the drained rows have no time in them. -/
theorem bracketed_iff (es : List (ReportEvent n))
    (hfits : Runs.Along (step args) (TotalsFit args) (init args n) es) :
    (∀ k, (Runs.run (step args) (init args n) (es.take k)).report.Bracketed) ↔
      Runs.Along (step args) (RowsIdle args) (init args n) es := by
  refine Runs.forall_take_iff_along (I := Accounted) (J := fun s => s.report.Bracketed)
    accounted_step ?_ (accounted_init n) ?_ hfits
  · intro s e h he hbracketed
    have hnext := accounted_step s e h he
    rw [hnext.accounts.bracketed_iff_idle]
    have hpast := h.accounts.bracketed_iff_idle.mp hbracketed
    constructor
    · intro hidle record hrecord
      exact hidle record (List.mem_append_right _ hrecord)
    · intro hidle record hrecord
      exact (List.mem_append.mp hrecord).elim (hpast record) (hidle record)
  · rw [(accounted_init n).accounts.bracketed_iff_idle]
    intro record hrecord
    cases hrecord

/-- The totals of a log over all keys fit a word; `TotalsFit` follows, and this can be computed. -/
def SumsSmall (args : Args) (s : ReportSys n) (e : ReportEvent n) : Prop :=
  ((s.log ++ s.sys.records args e.event).map Record.count).sum < 2 ^ 64 ∧
    ((s.log ++ s.sys.records args e.event).map Record.statsNs).sum < 2 ^ 64

instance (s : ReportSys n) (e : ReportEvent n) : Decidable (s.SumsSmall args e) :=
  inferInstanceAs (Decidable (_ ∧ _))

instance (s : ReportSys n) (e : ReportEvent n) : Decidable (s.RowsIdle args e) :=
  inferInstanceAs (Decidable (∀ record ∈ _, _))

theorem totalsFit_of_sumsSmall {es : List (ReportEvent n)}
    (h : Runs.Along (step args) (SumsSmall args) (init args n) es) :
    Runs.Along (step args) (TotalsFit args) (init args n) es :=
  h.mono fun _ _ hsmall => fits_of_sum hsmall.1 hsmall.2

/-- A thread waits for a stream from time 0 to `finish`, then the maps are drained. -/
def waitAndDrain (finish : U64) : List (ReportEvent 1) :=
  [⟨.enter (.cudaStreamSync 0) (Sys.bareCtx 0x100000001 0 0), .asListed _⟩,
    ⟨.ret (Sys.bareCtx 0x100000001 finish 0), .asListed _⟩, ⟨.aggTick .bare, .asListed _⟩]

/-- Two launches of 300 ns and 700 ns, whose ring events are taken. -/
def tracedLaunches : List (ReportEvent 1) :=
  [⟨.enter (.cudaLaunchKernel 0x401000) (Sys.bareCtx 0x100000001 0 0), .asListed _⟩,
    ⟨.ret (Sys.bareCtx 0x100000001 300 0), .asListed _⟩,
    ⟨.enter (.cudaLaunchKernel 0x401000) (Sys.bareCtx 0x100000001 1000 0), .asListed _⟩,
    ⟨.ret (Sys.bareCtx 0x100000001 1700 0), .asListed _⟩, ⟨.consume .bare, .asListed _⟩]

/-- Under detailed tracing launches come through the ring, and the report has their times. A wait
    beside them has to take no time at all. -/
theorem bracketed_idle :
    let args : Args := { kernelMode := .full, detailedLaunches := true }
    let es := tracedLaunches ++ waitAndDrain 0
    let report := (Runs.run (step args) (init args 1) (es.take 8)).report
    (report.localTermStats.lookup (.cudaLaunchKernel, 0)).map
      (fun s => (s.minNs, s.totalNs, s.maxNs)) =
        some (300, 1000, 700) ∧
      report.Bracketed := by
  intro args es
  have hfits : Runs.Along (step args) (SumsSmall args) (init args 1) es := by
    decide +kernel
  exact ⟨by decide +kernel,
    (bracketed_iff _ (totalsFit_of_sumsSmall hfits)).mpr (by decide +kernel) 8⟩

/-- A wait of 1000 ns is reported with a greatest duration of zero. -/
theorem notBracketed_wait :
    Runs.Along (step {}) (TotalsFit {}) (init {} 1) (waitAndDrain 1000) ∧
      (Runs.run (step {}) (init {} 1) (waitAndDrain 1000)).report.localTermStats.lookup
        (.cudaStreamSync, 0) = some { count := 1, totalNs := 1000 } ∧
      ¬ (Runs.run (step {}) (init {} 1) (waitAndDrain 1000)).report.Bracketed := by
  have hfits : Runs.Along (step {}) (SumsSmall {}) (init {} 1) (waitAndDrain 1000) := by
    decide +kernel
  have hlookup : (Runs.run (step {}) (init {} 1) (waitAndDrain 1000)).report.localTermStats.lookup
      (.cudaStreamSync, 0) = some { count := 1, totalNs := 1000 } := by
    decide +kernel
  refine ⟨totalsFit_of_sumsSmall hfits, hlookup, ?_⟩
  intro hbracketed
  have hentry := hbracketed _ _ (.inl hlookup) (by decide)
  exact absurd hentry.2 (by decide)

end ReportSys

end Profi
