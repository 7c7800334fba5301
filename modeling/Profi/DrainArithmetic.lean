import Profi.ReportLoop

/-!
# Sums that Fit a Word

The sums of an `AGGREGATED` slot, of a drained row over its CPUs and of the entries of the report
are `u64` additions. `AdditionsExact` says of a step that none of those it makes leaves the range.

What is summed up in `size_sum` is the argument an entry program stored, `arg0`. For allocations,
copies and fills this is a number of bytes. For `cudaEventSynchronize`, `cudaFreeHost` and
`cudaGraphLaunch` it is a handle or an address, so that a few calls that ask for no bytes at all are
enough for an overflow. The exact condition is about the stored arguments, of the calls a slot holds
and of those an entry of the report has got since the last gc tick (`ArithSys.along_exact_iff`).
`ArithSys` follows which calls these are.
-/

namespace Profi

variable {n : ℕ}

/-! ## The additions -/

/-- The additions of `emit_exit` to a slot it found stay in range. -/
structure AggValue.ExactAdd (val : AggValue) (x : AggItem) : Prop where
  count : val.count + x.sampleMul.toNat < 2 ^ 64
  durationSumNs : val.durationSumNs.toNat + (x.durationNs * x.sampleMul).toNat < 2 ^ 64
  sizeSum : val.sizeSum.toNat + (x.arg0 * x.sampleMul).toNat < 2 ^ 64

/-- The sums over the CPUs stay in range: `total_count`, `total_duration`, `total_size`. -/
structure RowExact (perCpu : List AggValue) : Prop where
  count : (perCpu.map (·.count)).sum < 2 ^ 64
  durationSumNs : WordSum.Exact 0 (perCpu.map (·.durationSumNs))
  sizeSum : WordSum.Exact 0 (perCpu.map (·.sizeSum))

/-- The additions of a row to its entry stay in range. -/
structure TermStats.ExactAddRow (s : TermStats) (totalCount : ℕ) (totalDuration totalSize : U64) :
    Prop where
  count : s.count.toNat + totalCount < 2 ^ 64
  totalNs : s.totalNs.toNat + totalDuration.toNat < 2 ^ 64
  totalBytes : s.totalBytes.toNat + totalSize.toNat < 2 ^ 64

/-- The additions made for a record of `AGGREGATED` stay in range. -/
def Report.RecordExact (r : Report) : Record → Prop
  | .aggregated key perCpu =>
    -- the sums over the CPUs are made before an empty row is skipped
    RowExact perCpu ∧ ∀ q, (Record.aggregated key perCpu).statsKey = some q →
      (TermTable.entry r.localTermStats q).ExactAddRow (perCpu.map (·.count)).sum
        (perCpu.map (·.durationSumNs)).sum (perCpu.map (·.sizeSum)).sum
  | _ => True

namespace Sys

/-- The aggregatable call a step returns from, with what it left in its slot. -/
def aggReturn (s : Sys n) : Event n → Option (Ctx n × EntryData)
  | .ret ctx =>
    match s.stack ctx.pidTgid with
    | [] => none
    | call :: _ =>
      ((call.probe.recorded s.bpf ctx).filter (profiIsAggregatable ·.eventType)).map (ctx, ·)
  | _ => none

end Sys

/-- None of the additions of a step to `AGGREGATED`, over the CPUs of a drained row or to the report
    leaves the range. -/
structure ReportSys.AdditionsExact (args : Args) (s : ReportSys n) (e : ReportEvent n) : Prop where
  slot : ∀ ctx entry, s.sys.aggReturn e.event = some (ctx, entry) →
    ∀ val, s.sys.bpf.aggregated.lookup ctx.cpu (Bpf.aggKey ctx entry) = some val →
      val.ExactAdd (s.sys.bpf.aggItem ctx entry)
  rows : Runs.Along Report.handle Report.RecordExact s.report (s.sys.records args e.event)

/-! ## What a step does to `AGGREGATED` -/

namespace Sys

variable {args : Args}

/-- A return adds what it records to `AGGREGATED`, if that is aggregatable. -/
theorem ret_aggregated (s : Sys n) (ctx : Ctx n) :
    (∃ entry, s.aggReturn (.ret ctx) = some (ctx, entry) ∧
      (s.step args (.ret ctx)).bpf.aggregated = (s.bpf.recordAggregated ctx entry).aggregated) ∨
    s.aggReturn (.ret ctx) = none ∧
      (s.step args (.ret ctx)).bpf.aggregated = s.bpf.aggregated := by
  cases hs : s.stack ctx.pidTgid with
  | nil =>
    refine .inr ⟨by simp [aggReturn, hs], ?_⟩
    simp only [step, ret_nil hs]
  | cons call rest =>
    have hexit : (s.step args (.ret ctx)).bpf.aggregated =
        (s.bpf.recordOpt ctx (call.probe.recorded s.bpf ctx)).aggregated := by
      simp only [step, ret_cons hs]
      rw [Probe.exit_eq]
    rw [hexit]
    cases hrec : call.probe.recorded s.bpf ctx with
    | none => exact .inr ⟨by simp [aggReturn, hs, hrec], rfl⟩
    | some entry =>
      have hrecord := Bpf.record_aggregated s.bpf ctx entry
      cases hkind : profiIsAggregatable entry.eventType with
      | true =>
        rw [hkind] at hrecord
        exact .inl ⟨entry, by simp [aggReturn, hs, hrec, hkind], hrecord⟩
      | false =>
        rw [hkind] at hrecord
        exact .inr ⟨by simp [aggReturn, hs, hrec, hkind], hrecord⟩

/-- Only a return adds to `AGGREGATED`, and only a tick drains it. -/
theorem step_aggregated (s : Sys n) (e : Event n) :
    (∃ ctx entry, s.aggReturn e = some (ctx, entry) ∧
      (s.step args e).bpf.aggregated = (s.bpf.recordAggregated ctx entry).aggregated) ∨
    s.aggReturn e = none ∧
      ((∃ env, e = .aggTick env ∧
        (s.step args e).bpf.aggregated = undrained env.aggOrder s.bpf.aggregated) ∨
      (∀ env, e ≠ .aggTick env) ∧ (s.step args e).bpf.aggregated = s.bpf.aggregated) := by
  have hsame := s.buffersSame args e
  cases e with
  | ret ctx =>
    rcases s.ret_aggregated ctx with ⟨entry, hreturn, hagg⟩ | ⟨hnone, hagg⟩
    · exact .inl ⟨ctx, entry, hreturn, hagg⟩
    · exact .inr ⟨hnone, .inr ⟨by simp, hagg⟩⟩
  | consume env =>
    refine .inr ⟨rfl, .inr ⟨by simp, ?_⟩⟩
    simp only [step]
    rw [consume_bpf]
  | aggTick env =>
    refine .inr ⟨rfl, .inl ⟨env, rfl, ?_⟩⟩
    simp only [step]
    rw [aggTick_bpf]
  | _ => exact .inr ⟨rfl, .inr ⟨by simp, (hsame rfl).aggregated⟩⟩

end Sys

/-! ## Calls and their sums -/

/-- The calls, their time and their stored arguments add up to less than a word. -/
structure ItemsFit (xs : List AggItem) : Prop where
  calls : xs.length < 2 ^ 64
  durations : WordSum.total (xs.map (·.durationNs)) < 2 ^ 64
  stored : WordSum.total (xs.map (·.arg0)) < 2 ^ 64

instance (xs : List AggItem) : Decidable (ItemsFit xs) :=
  decidable_of_iff (xs.length < 2 ^ 64 ∧ WordSum.total (xs.map (·.durationNs)) < 2 ^ 64 ∧
    WordSum.total (xs.map (·.arg0)) < 2 ^ 64)
    ⟨fun h => ⟨h.1, h.2.1, h.2.2⟩, fun h => ⟨h.calls, h.durations, h.stored⟩⟩

theorem itemsFit_single (x : AggItem) : ItemsFit [x] where
  calls := by simp
  durations := by simpa using x.durationNs.isLt
  stored := by simpa using x.arg0.isLt

theorem itemsFit_append_iff {xs ys : List AggItem} :
    ItemsFit (xs ++ ys) ↔ xs.length + ys.length < 2 ^ 64 ∧
      WordSum.total (xs.map (·.durationNs)) + WordSum.total (ys.map (·.durationNs)) < 2 ^ 64 ∧
      WordSum.total (xs.map (·.arg0)) + WordSum.total (ys.map (·.arg0)) < 2 ^ 64 := by
  constructor
  · intro h
    refine ⟨?_, ?_, ?_⟩
    · rw [← List.length_append]
      exact h.calls
    · rw [← WordSum.total_append, ← List.map_append]
      exact h.durations
    · rw [← WordSum.total_append, ← List.map_append]
      exact h.stored
  · rintro ⟨hcalls, hdurations, hstored⟩
    refine ⟨?_, ?_, ?_⟩
    · rwa [List.length_append]
    · rwa [List.map_append, WordSum.total_append]
    · rwa [List.map_append, WordSum.total_append]

theorem ItemsFit.left {xs ys : List AggItem} (h : ItemsFit (xs ++ ys)) : ItemsFit xs := by
  obtain ⟨hcalls, hdurations, hstored⟩ := itemsFit_append_iff.mp h
  exact ⟨by omega, by omega, by omega⟩

theorem ItemsFit.right {xs ys : List AggItem} (h : ItemsFit (xs ++ ys)) : ItemsFit ys := by
  obtain ⟨hcalls, hdurations, hstored⟩ := itemsFit_append_iff.mp h
  exact ⟨by omega, by omega, by omega⟩

/-- The slot has the sums of the calls. -/
structure AggValue.Holds (val : AggValue) (xs : List AggItem) : Prop where
  count : val.count = xs.length
  durationSumNs : val.durationSumNs.toNat = WordSum.total (xs.map (·.durationNs))
  sizeSum : val.sizeSum.toNat = WordSum.total (xs.map (·.arg0))

/-- Without sampling a call adds its time and its stored argument as they are. -/
theorem AggItem.mul_sampleMul {x : AggItem} (hmul : x.sampleMul = 1) (y : U64) :
    y * x.sampleMul = y := by
  rw [hmul, BitVec.ofNat_eq_ofNat, BitVec.mul_one]

namespace AggValue.Holds

variable {val : AggValue} {xs : List AggItem}

theorem zero : Holds 0 [] := ⟨rfl, rfl, rfl⟩

theorem exactAdd_iff (h : val.Holds xs) {x : AggItem} (hmul : x.sampleMul = 1) :
    val.ExactAdd x ↔ ItemsFit (xs ++ [x]) := by
  have hone : x.sampleMul.toNat = 1 := by
    rw [hmul]
    rfl
  have hns := AggItem.mul_sampleMul hmul x.durationNs
  have hsize := AggItem.mul_sampleMul hmul x.arg0
  rw [itemsFit_append_iff, ← h.count, ← h.durationSumNs, ← h.sizeSum]
  constructor
  · intro hexact
    have hcount := hexact.count
    have hdurations := hexact.durationSumNs
    have hstored := hexact.sizeSum
    rw [hone] at hcount
    rw [hns] at hdurations
    rw [hsize] at hstored
    exact ⟨hcount, hdurations, hstored⟩
  · rintro ⟨hcount, hdurations, hstored⟩
    exact ⟨by rwa [hone], by rwa [hns], by rwa [hsize]⟩

theorem add (h : val.Holds xs) {x : AggItem} (hmul : x.sampleMul = 1)
    (hfits : ItemsFit (xs ++ [x])) : (val.add x).Holds (xs ++ [x]) := by
  have hexact := (h.exactAdd_iff hmul).mpr hfits
  have hns := AggItem.mul_sampleMul hmul x.durationNs
  have hsize := AggItem.mul_sampleMul hmul x.arg0
  refine ⟨?_, ?_, ?_⟩
  · rw [List.length_append, ← h.count]
    simp only [AggValue.add, hmul]
    rfl
  · rw [AggValue.add, BitVec.toNat_add_of_lt hexact.durationSumNs, hns, List.map_append,
      WordSum.total_append, ← h.durationSumNs]
    simp
  · rw [AggValue.add, BitVec.toNat_add_of_lt hexact.sizeSum, hsize, List.map_append,
      WordSum.total_append, ← h.sizeSum]
    simp

end AggValue.Holds

/-- The slots of a row have the sums of the calls of their CPUs. -/
abbrev RowHolds (perCpu : List AggValue) (xss : List (List AggItem)) : Prop :=
  List.Forall₂ AggValue.Holds perCpu xss

theorem RowHolds.totals {perCpu : List AggValue} {xss : List (List AggItem)}
    (h : RowHolds perCpu xss) :
    (perCpu.map (·.count)).sum = xss.flatten.length ∧
      WordSum.total (perCpu.map (·.durationSumNs)) =
        WordSum.total (xss.flatten.map (·.durationNs)) ∧
      WordSum.total (perCpu.map (·.sizeSum)) = WordSum.total (xss.flatten.map (·.arg0)) := by
  -- CPU by CPU: the calls of a row are those of its first CPU and those of the rest
  induction h with
  | nil => exact ⟨rfl, rfl, rfl⟩
  | cons hval _ ih =>
    obtain ⟨hcalls, hdurations, hstored⟩ := ih
    simp only [List.map_cons, List.sum_cons, List.flatten_cons, List.length_append,
      List.map_append, WordSum.total_cons, WordSum.total_append]
    rw [hval.count, hval.durationSumNs, hval.sizeSum, hcalls, hdurations, hstored]
    exact ⟨rfl, rfl, rfl⟩

theorem rowExact_iff {perCpu : List AggValue} {xss : List (List AggItem)}
    (h : RowHolds perCpu xss) : RowExact perCpu ↔ ItemsFit xss.flatten := by
  obtain ⟨hcalls, hdurations, hstored⟩ := h.totals
  -- the loop over the CPUs starts from zero
  have hexact : ∀ ys : List U64, WordSum.Exact 0 ys ↔ WordSum.total ys < 2 ^ 64 := by
    intro ys
    rw [WordSum.exact_iff]
    simp
  constructor
  · intro hrow
    refine ⟨?_, ?_, ?_⟩
    · rw [← hcalls]
      exact hrow.count
    · rw [← hdurations]
      exact (hexact _).mp hrow.durationSumNs
    · rw [← hstored]
      exact (hexact _).mp hrow.sizeSum
  · intro hfits
    refine ⟨?_, (hexact _).mpr ?_, (hexact _).mpr ?_⟩
    · rw [hcalls]
      exact hfits.calls
    · rw [hdurations]
      exact hfits.durations
    · rw [hstored]
      exact hfits.stored

/-- The entry of the report has the sums of the calls. -/
structure TermStats.HoldsItems (s : TermStats) (xs : List AggItem) : Prop where
  count : s.count.toNat = xs.length
  totalNs : s.totalNs.toNat = WordSum.total (xs.map (·.durationNs))
  totalBytes : s.totalBytes.toNat = WordSum.total (xs.map (·.arg0))

namespace TermStats.HoldsItems

variable {s : TermStats} {xs : List AggItem}

theorem init : HoldsItems {} [] := ⟨rfl, rfl, rfl⟩

theorem fits (h : s.HoldsItems xs) : ItemsFit xs where
  calls := by
    rw [← h.count]
    exact s.count.isLt
  durations := by
    rw [← h.totalNs]
    exact s.totalNs.isLt
  stored := by
    rw [← h.totalBytes]
    exact s.totalBytes.isLt

/-- A row is summed up and added to its entry without overflow exactly if the calls of both fit. -/
theorem exactAddRow_iff (h : s.HoldsItems xs) {perCpu : List AggValue} {yss : List (List AggItem)}
    (hrow : RowHolds perCpu yss) :
    (RowExact perCpu ∧ s.ExactAddRow (perCpu.map (·.count)).sum
      (perCpu.map (·.durationSumNs)).sum (perCpu.map (·.sizeSum)).sum) ↔
      ItemsFit (xs ++ yss.flatten) := by
  obtain ⟨hcalls, hdurations, hstored⟩ := hrow.totals
  -- once the row is exact, its sums are the numbers
  have hsums : ItemsFit yss.flatten →
      ((perCpu.map (·.durationSumNs)).sum : U64).toNat =
          WordSum.total (yss.flatten.map (·.durationNs)) ∧
        ((perCpu.map (·.sizeSum)).sum : U64).toNat =
          WordSum.total (yss.flatten.map (·.arg0)) := by
    intro hfits
    refine ⟨?_, ?_⟩
    · rw [← hdurations]
      apply WordSum.toNat_sum_of_lt
      rw [hdurations]
      exact hfits.durations
    · rw [← hstored]
      apply WordSum.toNat_sum_of_lt
      rw [hstored]
      exact hfits.stored
  rw [rowExact_iff hrow, itemsFit_append_iff, ← h.count, ← h.totalNs, ← h.totalBytes, ← hcalls]
  constructor
  · rintro ⟨hfits, hadd⟩
    obtain ⟨hns, hsize⟩ := hsums hfits
    rw [← hns, ← hsize]
    exact ⟨hadd.count, hadd.totalNs, hadd.totalBytes⟩
  · rintro ⟨hcount, hns, hsize⟩
    have hfits : ItemsFit yss.flatten := by
      refine ⟨?_, by omega, by omega⟩
      omega
    obtain ⟨hns', hsize'⟩ := hsums hfits
    exact ⟨hfits, hcount, by rwa [hns'], by rwa [hsize']⟩

/-- Adding a row adds its items, if the sums fit. -/
theorem addRow (h : s.HoldsItems xs) {perCpu : List AggValue} {yss : List (List AggItem)}
    (hrow : RowHolds perCpu yss) (hfits : ItemsFit (xs ++ yss.flatten)) :
    (s.addRow (perCpu.map (·.count)).sum (perCpu.map (·.durationSumNs)).sum
      (perCpu.map (·.sizeSum)).sum).HoldsItems (xs ++ yss.flatten) := by
  obtain ⟨hcalls, hdurations, hstored⟩ := hrow.totals
  obtain ⟨-, hadd⟩ := (h.exactAddRow_iff hrow).mpr hfits
  have hright := hfits.right
  -- the count of the row fits a word, so nothing is lost in the conversion
  have hofNat : (BitVec.ofNat 64 (perCpu.map (·.count)).sum).toNat =
      (perCpu.map (·.count)).sum := by
    rw [BitVec.toNat_ofNat, hcalls, Nat.mod_eq_of_lt hright.calls]
  have hcount := hadd.count
  rw [← hofNat] at hcount
  refine ⟨?_, ?_, ?_⟩
  · rw [TermStats.addRow, BitVec.toNat_add_of_lt hcount, hofNat, h.count, hcalls,
      List.length_append]
  · rw [TermStats.addRow, BitVec.toNat_add_of_lt hadd.totalNs, h.totalNs, List.map_append,
      WordSum.total_append, ← hdurations,
      WordSum.toNat_sum_of_lt (hdurations ▸ hright.durations)]
  · rw [TermStats.addRow, BitVec.toNat_add_of_lt hadd.totalBytes, h.totalBytes, List.map_append,
      WordSum.total_append, ← hstored, WordSum.toNat_sum_of_lt (hstored ▸ hright.stored)]

end TermStats.HoldsItems

/-! ## Calls by what they are counted under -/

section ItemsOf

variable {K : Type} [DecidableEq K]

/-- The calls noted for a key. -/
def itemsOf (notes : List (K × AggItem)) (key : K) : List AggItem :=
  (notes.filter (·.1 = key)).map (·.2)

theorem itemsOf_append (notes notes' : List (K × AggItem)) (key : K) :
    itemsOf (notes ++ notes') key = itemsOf notes key ++ itemsOf notes' key := by
  simp [itemsOf]

/-- Calls noted for one key only. -/
theorem itemsOf_map (noted : K) (xs : List AggItem) (key : K) :
    itemsOf (xs.map (noted, ·)) key = if noted = key then xs else [] := by
  unfold itemsOf
  rw [List.filter_map]
  split
  next heq => simp [heq, Function.comp_def]
  next hne => simp [hne, Function.comp_def]

/-- Dropping the notes of some keys. -/
theorem itemsOf_filter (p : K → Bool) (notes : List (K × AggItem)) (key : K) :
    itemsOf (notes.filter (p ·.1)) key = if p key then itemsOf notes key else [] := by
  unfold itemsOf
  rw [List.filter_filter]
  split
  next hp =>
    congr 1
    apply List.filter_congr
    intro note _
    by_cases hkey : note.1 = key <;> simp [hkey, hp]
  next hp =>
    rw [List.map_eq_nil_iff, List.filter_eq_nil_iff]
    intro note _
    by_cases hkey : note.1 = key <;> simp [hkey, hp]

/-- If all calls fit together, those of a key do. -/
theorem itemsFit_itemsOf {notes : List (K × AggItem)} (h : ItemsFit (notes.map (·.2))) (key : K) :
    ItemsFit (itemsOf notes key) := by
  have hsub : (itemsOf notes key).Sublist (notes.map (·.2)) := List.filter_sublist.map _
  have hsum : ∀ f : AggItem → U64, WordSum.total ((itemsOf notes key).map f) ≤
      WordSum.total ((notes.map (·.2)).map f) := fun f =>
    ((hsub.map f).map _).sum_le_sum fun _ _ => Nat.zero_le _
  exact ⟨hsub.length_le.trans_lt h.calls, (hsum _).trans_lt h.durations,
    (hsum _).trans_lt h.stored⟩

end ItemsOf

/-! ## Rows and the report -/

namespace Record

/-- The calls of a record of `AGGREGATED` with the entry of the report they go to, if `rows` are the
    calls of the keys. -/
def notes (rows : AggKey → List AggItem) : Record → List (StatsKey × AggItem)
  | .aggregated key _ => (rows key).map ((key.eventType, key.memcpyKind), ·)
  | _ => []

/-- A record of `AGGREGATED` has the sums of the calls of its key. -/
def Holds (rows : AggKey → List AggItem) : Record → Prop
  | .aggregated key perCpu => ∃ yss, RowHolds perCpu yss ∧ yss.flatten = rows key
  | _ => True

end Record

namespace Report

/-- The entries have the sums of the noted calls, each on its own; ring events go to others. -/
structure HoldsItems (r : Report) (notes : List (StatsKey × AggItem)) : Prop where
  rows : ∀ q, profiIsAggregatable q.1 = true →
    (TermTable.entry r.localTermStats q).HoldsItems (itemsOf notes q)
  ring : ∀ q, profiIsAggregatable q.1 = false → itemsOf notes q = []

namespace HoldsItems

variable {r : Report} {notes : List (StatsKey × AggItem)} {rows : AggKey → List AggItem}

theorem fits (h : r.HoldsItems notes) (q : StatsKey) : ItemsFit (itemsOf notes q) := by
  cases hkind : profiIsAggregatable q.1 with
  | true => exact (h.rows q hkind).fits
  | false =>
    rw [h.ring q hkind]
    exact TermStats.HoldsItems.init.fits

/-- The additions for a row are exact if the calls fit with those its entry has. -/
theorem recordExact_iff {key : AggKey} {perCpu : List AggValue} {xs : List AggItem}
    {yss : List (List AggItem)} (hrow : RowHolds perCpu yss)
    (hentry : (TermTable.entry r.localTermStats (key.eventType, key.memcpyKind)).HoldsItems xs) :
    r.RecordExact (.aggregated key perCpu) ↔ ItemsFit (xs ++ yss.flatten) := by
  rw [← hentry.exactAddRow_iff hrow, RecordExact]
  refine and_congr_right fun hexact => ?_
  by_cases hcount : (perCpu.map (·.count)).sum = 0
  · -- a row nobody counted in is skipped, and would have added nothing
    have hnone : (Record.aggregated key perCpu).statsKey = none := by
      simp [Record.statsKey, hcount]
    have hempty : yss.flatten = [] := by
      rw [← List.length_eq_zero_iff, ← hrow.totals.1]
      exact hcount
    have hadd := ((hentry.exactAddRow_iff hrow).mpr (by
      rw [hempty, List.append_nil]
      exact hentry.fits)).2
    simp [hnone, hadd]
  · have hsome : (Record.aggregated key perCpu).statsKey =
        some (key.eventType, key.memcpyKind) := by
      simp [Record.statsKey, hcount]
    simp [hsome]

/-- The entry of a row has its calls afterwards. -/
theorem entry_handle_row {key : AggKey} {perCpu : List AggValue} {xs : List AggItem}
    {yss : List (List AggItem)} (hrow : RowHolds perCpu yss)
    (hentry : (TermTable.entry r.localTermStats (key.eventType, key.memcpyKind)).HoldsItems xs)
    (hfits : ItemsFit (xs ++ yss.flatten)) :
    (TermTable.entry (r.handle (.aggregated key perCpu)).localTermStats
      (key.eventType, key.memcpyKind)).HoldsItems (xs ++ yss.flatten) := by
  rw [entry_handle]
  split
  · exact hentry.addRow hrow hfits
  next hskipped =>
    have hcount : (perCpu.map (·.count)).sum = 0 := by
      by_contra hne
      exact hskipped (Record.statsKey_aggregated.mpr ⟨hne, rfl⟩)
    have hempty : yss.flatten = [] := by
      rw [← List.length_eq_zero_iff, ← hrow.totals.1]
      exact hcount
    rwa [hempty, List.append_nil]

/-- Records of other maps, and ring events, leave the entries of rows alone. -/
theorem handle_other (h : r.HoldsItems notes) {record : Record}
    (hexact : r.RecordExact record) (hnil : record.notes rows = [])
    (hother : ∀ q, profiIsAggregatable q.1 = true → record.statsKey ≠ some q) :
    (r.RecordExact record ↔ ∀ q, ItemsFit (itemsOf (notes ++ record.notes rows) q)) ∧
      (r.RecordExact record → (r.handle record).HoldsItems (notes ++ record.notes rows)) := by
  rw [hnil, List.append_nil]
  refine ⟨⟨fun _ => h.fits, fun _ => hexact⟩, fun _ => ⟨fun q hkind => ?_, h.ring⟩⟩
  rw [entry_handle, if_neg (hother q hkind)]
  exact h.rows q hkind

/-- A row is handled exactly if the entry of its key still fits, and no other entry moves. -/
theorem handle_row (h : r.HoldsItems notes) {key : AggKey} {perCpu : List AggValue}
    (hkind : profiIsAggregatable key.eventType = true)
    (hholds : (Record.aggregated key perCpu).Holds rows) :
    (r.RecordExact (.aggregated key perCpu) ↔
        ∀ q, ItemsFit (itemsOf (notes ++ (Record.aggregated key perCpu).notes rows) q)) ∧
      (r.RecordExact (.aggregated key perCpu) →
        (r.handle (.aggregated key perCpu)).HoldsItems
          (notes ++ (Record.aggregated key perCpu).notes rows)) := by
  obtain ⟨yss, hrow, hflatten⟩ := hholds
  have hentry := h.rows (key.eventType, key.memcpyKind) hkind
  have hexact := recordExact_iff hrow hentry
  have hitems : ∀ q, itemsOf (notes ++ (Record.aggregated key perCpu).notes rows) q =
      itemsOf notes q ++ if (key.eventType, key.memcpyKind) = q then yss.flatten else [] := by
    intro q
    rw [itemsOf_append, Record.notes, itemsOf_map, hflatten]
  refine ⟨?_, fun hrec => ⟨fun q hq => ?_, fun q hq => ?_⟩⟩
  · rw [hexact]
    constructor
    · intro hfits q
      rw [hitems]
      split
      next heq => rwa [← heq]
      · rw [List.append_nil]
        exact h.fits q
    · intro hall
      have hfits := hall (key.eventType, key.memcpyKind)
      rwa [hitems, if_pos rfl] at hfits
  · rw [hitems]
    by_cases heq : (key.eventType, key.memcpyKind) = q
    · rw [if_pos heq, ← heq]
      exact entry_handle_row hrow hentry (hexact.mp hrec)
    · have hother : (Record.aggregated key perCpu).statsKey ≠ some q := fun hkey =>
        heq (Record.statsKey_aggregated.mp hkey).2
      rw [entry_handle, if_neg hother, if_neg heq, List.append_nil]
      exact h.rows q hq
  · rw [hitems, h.ring q hq, if_neg, List.nil_append]
    rintro rfl
    simp [hkind] at hq

/-- A record is added without overflow exactly if its calls fit with those noted before, and then
    they are noted. -/
theorem handle (h : r.HoldsItems notes) {record : Record} (hsorted : record.Sorted)
    (hholds : record.Holds rows) :
    (r.RecordExact record ↔ ∀ q, ItemsFit (itemsOf (notes ++ record.notes rows) q)) ∧
      (r.RecordExact record → (r.handle record).HoldsItems (notes ++ record.notes rows)) := by
  cases record with
  | aggregated key perCpu => exact h.handle_row hsorted hholds
  | ring event =>
    refine h.handle_other trivial rfl fun q hkind hq => ?_
    have hring : profiIsAggregatable event.eventType = false := hsorted
    rw [← Option.some.inj hq] at hkind
    simp [hring] at hkind
  | launch key perCpu =>
    refine h.handle_other trivial rfl fun q _ hq => ?_
    cases hq
  | nccl key perCpu =>
    refine h.handle_other trivial rfl fun q _ hq => ?_
    cases hq

/-- The same for the records of an arm: all of them are added without overflow exactly if their
    calls fit together. -/
theorem foldl_handle (h : r.HoldsItems notes) {records : List Record}
    (hsorted : ∀ record ∈ records, record.Sorted) (hholds : ∀ record ∈ records, record.Holds rows) :
    (Runs.Along Report.handle RecordExact r records ↔
        ∀ q, ItemsFit (itemsOf (notes ++ records.flatMap (·.notes rows)) q)) ∧
      (Runs.Along Report.handle RecordExact r records →
        (records.foldl Report.handle r).HoldsItems (notes ++ records.flatMap (·.notes rows))) := by
  -- the notes grow with the records, so the induction is for any notes
  induction records generalizing r notes with
  | nil =>
    rw [List.flatMap_nil, List.append_nil]
    exact ⟨⟨fun _ => h.fits, fun _ => trivial⟩, fun _ => h⟩
  | cons record records ih =>
    obtain ⟨hfirst, hnext⟩ := h.handle (hsorted record List.mem_cons_self)
      (hholds record List.mem_cons_self)
    have hrest := fun hexact => ih (hnext hexact)
      (fun other hmem => hsorted other (List.mem_cons_of_mem record hmem))
      (fun other hmem => hholds other (List.mem_cons_of_mem record hmem))
    rw [List.flatMap_cons, ← List.append_assoc, Runs.along_cons]
    refine ⟨⟨fun halong => (hrest halong.1).1.mp halong.2, fun hfits => ?_⟩,
      fun halong => (hrest halong.1).2 halong.2⟩
    -- what fits as a whole fits up to the first record
    have hexact := hfirst.mpr fun q => by
      have hq := hfits q
      rw [itemsOf_append] at hq
      exact hq.left
    exact ⟨hexact, (hrest hexact).1.mpr hfits⟩

end HoldsItems

end Report

/-! ## The system with its calls -/

/-- The system with the calls behind its sums, for specifications: `items` those in the slots of
    `AGGREGATED`, `reported` those the rows of an entry of the report had since the last gc tick. -/
structure ArithSys (n : ℕ) where
  base : ReportSys n
  items : List ((Fin n × AggKey) × AggItem)
  reported : List (StatsKey × AggItem)

namespace ArithSys

section

variable (args : Args)

def init (n : ℕ) : ArithSys n := ⟨.init args n, [], []⟩

/-- The calls of a key, CPU by CPU. -/
def rowItems (s : ArithSys n) (key : AggKey) : List AggItem :=
  (List.ofFn fun cpu => itemsOf s.items (cpu, key)).flatten

/-- A call joins the slot it returns to; a drain takes the calls of its keys. -/
def nextItems (s : ArithSys n) (e : Event n) : List ((Fin n × AggKey) × AggItem) :=
  match s.base.sys.aggReturn e with
  | some (ctx, entry) =>
    -- a call for which the map is full is in no slot
    if s.base.sys.bpf.aggregated.HasRoom (Bpf.aggKey ctx entry) then
      s.items ++ [((ctx.cpu, Bpf.aggKey ctx entry), s.base.sys.bpf.aggItem ctx entry)]
    else s.items
  | none =>
    match e with
    | .aggTick env =>
      s.items.filter fun note => note.1.2 ∉ drainKeys env.aggOrder s.base.sys.bpf.aggregated
    | _ => s.items

/-- The calls of the rows a step hands to the report. -/
def handed (s : ArithSys n) (e : ReportEvent n) : List (StatsKey × AggItem) :=
  (s.base.sys.records args e.event).flatMap (·.notes s.rowItems)

def step (s : ArithSys n) (e : ReportEvent n) : ArithSys n where
  base := s.base.step args e
  items := s.nextItems e.event
  reported :=
    match e.event with
    | .gcTick _ => []
    | _ => s.reported ++ s.handed args e

/-- The calls a slot holds with the one that returns, and the calls an entry of the report has with
    those of the rows handed to it, fit a word with their time and their stored arguments. -/
structure SumsFit (s : ArithSys n) (e : ReportEvent n) : Prop where
  slot : ∀ ctx entry, s.base.sys.aggReturn e.event = some (ctx, entry) →
    ItemsFit (itemsOf s.items (ctx.cpu, Bpf.aggKey ctx entry) ++
      [s.base.sys.bpf.aggItem ctx entry])
  report : ∀ q, ItemsFit (itemsOf (s.reported ++ s.handed args e) q)

end

variable {args : Args}

/-- The invariant: the sums are those of the calls. -/
structure Tracks (args : Args) (s : ArithSys n) : Prop where
  config : Sys.ConfigOk args s.base.sys.bpf
  sorted : s.base.sys.bpf.SortedFor fun eventType => profiIsAggregatable eventType = false
  slots : ∀ cpu key,
    (s.base.sys.bpf.aggregated.slot cpu key).Holds (itemsOf s.items (cpu, key))
  report : s.base.report.HoldsItems s.reported

theorem tracks_init (n : ℕ) : (init args n).Tracks args where
  config := Sys.configOk_init args
  sorted := .init n args
  slots _ _ := .zero
  report := {
    rows := by
      intro q _
      change (TermTable.entry ∅ q).HoldsItems []
      exact .init
    ring := fun _ _ => rfl }

namespace Tracks

variable {s : ArithSys n} (h : s.Tracks args)

include h

theorem itemsOf_of_absent {cpu : Fin n} {key : AggKey}
    (habsent : s.base.sys.bpf.aggregated.lookup cpu key = none) :
    itemsOf s.items (cpu, key) = [] := by
  have hcount := (h.slots cpu key).count
  rw [PerCpuMap.slot, habsent] at hcount
  exact List.length_eq_zero_iff.mp hcount.symm

/-- What is drained has the sums of the calls. -/
theorem holds_records (e : Event n) :
    ∀ record ∈ s.base.sys.records args e, record.Holds s.rowItems := by
  intro record hrecord
  cases record with
  | aggregated key perCpu =>
    cases e with
    | aggTick env =>
      have hkv : (key, perCpu) ∈ drained env.aggOrder s.base.sys.bpf.aggregated := by
        simp only [Sys.records, tickRecords, List.mem_append, List.mem_map] at hrecord
        rcases hrecord with (⟨kv, hkv, heq⟩ | hlaunch) | ⟨kv, -, heq⟩
        · cases heq
          exact hkv
        · split at hlaunch
          · cases hlaunch
          · obtain ⟨kv, -, heq⟩ := List.mem_map.mp hlaunch
            cases heq
        · cases heq
      obtain ⟨vals, hvals, rfl⟩ := mem_drained hkv
      refine ⟨_, ?_, rfl⟩
      -- both rows are listed in the order of the CPUs
      rw [RowHolds, List.ofFn_eq_map, List.ofFn_eq_map, List.forall₂_map_left_iff,
        List.forall₂_map_right_iff, List.forall₂_same]
      intro cpu _
      have hslot := h.slots cpu key
      rw [PerCpuMap.slot, PerCpuMap.lookup, hvals] at hslot
      exact hslot
    | consume env =>
      obtain ⟨event, -, heq⟩ := List.mem_map.mp hrecord
      cases heq
    | _ => cases hrecord
  | _ => trivial

/-- The call that returns is added to its slot without overflow exactly if it fits. -/
theorem exactAdd_iff (hrate : args.sampleRate ≤ 1) (ctx : Ctx n) (entry : EntryData) :
    (∀ val, s.base.sys.bpf.aggregated.lookup ctx.cpu (Bpf.aggKey ctx entry) = some val →
        val.ExactAdd (s.base.sys.bpf.aggItem ctx entry)) ↔
      ItemsFit (itemsOf s.items (ctx.cpu, Bpf.aggKey ctx entry) ++
        [s.base.sys.bpf.aggItem ctx entry]) := by
  have hmul : (s.base.sys.bpf.aggItem ctx entry).sampleMul = 1 := h.config.sampleMul_eq_one hrate
  have hslot := h.slots ctx.cpu (Bpf.aggKey ctx entry)
  rw [PerCpuMap.slot] at hslot
  cases hlookup : s.base.sys.bpf.aggregated.lookup ctx.cpu (Bpf.aggKey ctx entry) with
  | none =>
    -- a first call is inserted, nothing is added
    rw [h.itemsOf_of_absent hlookup, List.nil_append]
    simp only [reduceCtorEq, false_implies, implies_true, true_iff]
    exact itemsFit_single _
  | some val =>
    rw [hlookup, Option.getD_some] at hslot
    rw [← hslot.exactAdd_iff hmul]
    simp

theorem additionsExact_iff (hrate : args.sampleRate ≤ 1) (e : ReportEvent n) :
    s.base.AdditionsExact args e ↔ s.SumsFit args e := by
  have hrows := (h.report.foldl_handle (ReportSys.sorted_records h.sorted e.event)
    (h.holds_records e.event)).1
  constructor
  · intro hexact
    refine ⟨fun ctx entry hreturn => ?_, hrows.mp hexact.rows⟩
    exact (h.exactAdd_iff hrate ctx entry).mp (hexact.slot ctx entry hreturn)
  · intro hfits
    refine ⟨fun ctx entry hreturn => ?_, hrows.mpr hfits.report⟩
    exact (h.exactAdd_iff hrate ctx entry).mpr (hfits.slot ctx entry hreturn)

/-- A return adds to one slot, if the map has room. -/
theorem slots_return (hrate : args.sampleRate ≤ 1) {e : Event n} {ctx : Ctx n} {entry : EntryData}
    (hreturn : s.base.sys.aggReturn e = some (ctx, entry))
    (hfits : ItemsFit (itemsOf s.items (ctx.cpu, Bpf.aggKey ctx entry) ++
      [s.base.sys.bpf.aggItem ctx entry])) (cpu : Fin n) (key : AggKey) :
    ((s.base.sys.bpf.recordAggregated ctx entry).aggregated.slot cpu key).Holds
      (itemsOf (s.nextItems e) (cpu, key)) := by
  unfold nextItems
  rw [hreturn, Bpf.recordAggregated_eq]
  simp only
  cases hacc : s.base.sys.bpf.aggregated.accumulate ctx.cpu (Bpf.aggKey ctx entry)
      (·.add (s.base.sys.bpf.aggItem ctx entry))
      (AggValue.add 0 (s.base.sys.bpf.aggItem ctx entry)) with
  -- a full map does not take the item
  | none =>
    have hfull : ¬ s.base.sys.bpf.aggregated.HasRoom (Bpf.aggKey ctx entry) := by
      rw [← PerCpuMap.accumulate_isSome_iff, hacc]
      simp
    rw [if_neg hfull]
    exact h.slots cpu key
  | some map =>
    have hroom : s.base.sys.bpf.aggregated.HasRoom (Bpf.aggKey ctx entry) := by
      rw [← PerCpuMap.accumulate_isSome_iff, hacc]
      rfl
    have hitem := itemsOf_map (ctx.cpu, Bpf.aggKey ctx entry)
      [s.base.sys.bpf.aggItem ctx entry] (cpu, key)
    rw [List.map_singleton] at hitem
    rw [if_pos hroom, Option.getD_some, PerCpuMap.slot_accumulate hacc rfl, itemsOf_append, hitem]
    -- one slot grows by the item, the others are as they were
    by_cases hsame : cpu = ctx.cpu ∧ key = Bpf.aggKey ctx entry
    · obtain ⟨rfl, rfl⟩ := hsame
      rw [if_pos ⟨rfl, rfl⟩, if_pos rfl]
      exact (h.slots ctx.cpu _).add (h.config.sampleMul_eq_one hrate) hfits
    · rw [if_neg hsame, if_neg, List.append_nil]
      · exact h.slots cpu key
      · intro heq
        cases heq
        exact hsame ⟨rfl, rfl⟩

/-- A drain empties the slots of its keys. -/
theorem slots_drain (env : LoopEnv) (cpu : Fin n) (key : AggKey) :
    ((undrained env.aggOrder s.base.sys.bpf.aggregated).slot cpu key).Holds
      (itemsOf (s.nextItems (.aggTick env)) (cpu, key)) := by
  have hitems := itemsOf_filter (fun k : Fin n × AggKey =>
    decide (k.2 ∉ drainKeys env.aggOrder s.base.sys.bpf.aggregated)) s.items (cpu, key)
  change AggValue.Holds _ (itemsOf (s.items.filter _) (cpu, key))
  rw [slot_undrained, hitems]
  by_cases hdrained : key ∈ drainKeys env.aggOrder s.base.sys.bpf.aggregated
  · simp only [hdrained, ↓reduceIte, not_true_eq_false, decide_false, Bool.false_eq_true]
    exact .zero
  · simp only [hdrained, ↓reduceIte, not_false_eq_true, decide_true]
    exact h.slots cpu key

theorem slots_step (hrate : args.sampleRate ≤ 1) (e : ReportEvent n) (hfits : s.SumsFit args e)
    (cpu : Fin n) (key : AggKey) :
    ((s.step args e).base.sys.bpf.aggregated.slot cpu key).Holds
      (itemsOf (s.nextItems e.event) (cpu, key)) := by
  change ((s.base.sys.step args e.event).bpf.aggregated.slot cpu key).Holds _
  rcases @Sys.step_aggregated n args s.base.sys e.event with
    ⟨ctx, entry, hreturn, hagg⟩ | ⟨hnone, ⟨env, htick, hagg⟩ | ⟨hother, hagg⟩⟩
  · rw [hagg]
    exact h.slots_return hrate hreturn (hfits.slot ctx entry hreturn) cpu key
  · rw [hagg, htick]
    exact h.slots_drain env cpu key
  · have hnext : s.nextItems e.event = s.items := by
      unfold nextItems
      -- no drain either, so the match falls through
      simp only [hnone]
    rw [hagg, hnext]
    exact h.slots cpu key

theorem report_step (e : ReportEvent n) (hfits : s.SumsFit args e) :
    (s.step args e).base.report.HoldsItems (s.step args e).reported := by
  have hrows := h.report.foldl_handle (ReportSys.sorted_records h.sorted e.event)
    (h.holds_records e.event)
  have hnext := hrows.2 (hrows.1.mpr hfits.report)
  simp only [step, ReportSys.step, ReportSys.nextReport]
  cases hevent : e.event with
  | gcTick env =>
    -- the entries are moved out of the table
    refine ⟨fun q _ => ?_, fun _ _ => rfl⟩
    change (TermTable.entry ∅ q).HoldsItems []
    exact .init
  | _ =>
    simpa only [handed, hevent] using hnext

theorem step (hrate : args.sampleRate ≤ 1) (e : ReportEvent n) (hfits : s.SumsFit args e) :
    (s.step args e).Tracks args where
  config := Sys.configOk_step h.config e.event
  sorted := ReportSys.sortedFor_step h.sorted e.event
  slots := h.slots_step hrate e hfits
  report := h.report_step e hfits

end Tracks

/-- Without sampling, no addition of a run overflows exactly if the calls behind the sums fit a
    word, in number, in time and in what was stored of their arguments. -/
theorem along_exact_iff (hrate : args.sampleRate ≤ 1) (es : List (ReportEvent n)) :
    Runs.Along (ReportSys.step args) (ReportSys.AdditionsExact args) (ReportSys.init args n) es ↔
      Runs.Along (step args) (SumsFit args) (init args n) es :=
  Runs.along_iff_of_map (f := ArithSys.base) (P := fun _ _ => True) (I := Tracks args)
    (fun _ _ => rfl) (fun _ e h _ => h.additionsExact_iff hrate e)
    (fun _ e h _ hexact => h.step hrate e ((h.additionsExact_iff hrate e).mp hexact))
    (tracks_init n) (Runs.along_true _ _ es)

/-- What the sums of a step add up fits a word; of the report, all entries together. `SumsFit`
    follows, and this can be computed. -/
def SumsSmall (args : Args) (s : ArithSys n) (e : ReportEvent n) : Prop :=
  (∀ ce ∈ s.base.sys.aggReturn e.event,
    ItemsFit (itemsOf s.items (ce.1.cpu, Bpf.aggKey ce.1 ce.2) ++
      [s.base.sys.bpf.aggItem ce.1 ce.2])) ∧
    ItemsFit ((s.reported ++ s.handed args e).map (·.2))

instance (s : ArithSys n) (e : ReportEvent n) : Decidable (s.SumsSmall args e) :=
  inferInstanceAs (Decidable (_ ∧ _))

theorem sumsFit_of_sumsSmall {es : List (ReportEvent n)}
    (h : Runs.Along (step args) (SumsSmall args) (init args n) es) :
    Runs.Along (step args) (SumsFit args) (init args n) es :=
  h.mono fun _ _ hsmall =>
    ⟨fun ctx entry hreturn => hsmall.1 (ctx, entry) hreturn, itemsFit_itemsOf hsmall.2⟩

/-- A thread waits twice for the event of the handle, then the maps are drained. -/
def eventWaits (handle : U64) : List (ReportEvent 1) :=
  [⟨.enter (.cudaEventSync handle) (Sys.bareCtx 0x100000001 0 0), .asListed _⟩,
    ⟨.ret (Sys.bareCtx 0x100000001 10 0), .asListed _⟩,
    ⟨.enter (.cudaEventSync handle) (Sys.bareCtx 0x100000001 20 0), .asListed _⟩,
    ⟨.ret (Sys.bareCtx 0x100000001 30 0), .asListed _⟩, ⟨.aggTick .bare, .asListed _⟩]

/-- With a small handle the sums are exact. -/
theorem exact_smallHandle :
    Runs.Along (ReportSys.step {}) (ReportSys.AdditionsExact {}) (ReportSys.init {} 1)
      (eventWaits 0x1000) := by
  have hsmall : Runs.Along (step {}) (SumsSmall {}) (init {} 1) (eventWaits 0x1000) := by
    decide +kernel
  exact (along_exact_iff (by decide) _).mpr (sumsFit_of_sumsSmall hsmall)

/-- The bytes a call asks for. Waits, graphs, modules and the release of host memory ask for none,
    whatever was stored of their arguments. -/
def requestedBytes (eventType : EventType) (arg0 : U64) : ℕ :=
  match eventType with
  | .cudaStreamSync | .cudaEventSync | .cudaGraphLaunch | .cudaGraphInstantiate
  | .cudaModuleLoad | .cudaFreeHost => 0
  | _ => arg0.toNat

/-- The calls of a key, their time and the bytes they ask for fit a word. -/
structure RequestsFit (key : AggKey) (xs : List AggItem) : Prop where
  calls : xs.length < 2 ^ 64
  durations : WordSum.total (xs.map (·.durationNs)) < 2 ^ 64
  bytes : (xs.map fun x => requestedBytes key.eventType x.arg0).sum < 2 ^ 64

/-- The key of the waits of `eventWaits`. -/
def eventWaitKey : AggKey := ⟨.cudaEventSync, 1, 0, 0, 0⟩

/-- Two waits for an event with handle `2 ^ 63` ask for no bytes, but their handles are summed up,
    and the second addition overflows. -/
theorem notExact_eventHandle :
    (∀ key, RequestsFit key ((Runs.run (step {}) (init {} 1)
        ((eventWaits 0x8000000000000000).take 4)).rowItems key)) ∧
      ¬ Runs.Along (ReportSys.step {}) (ReportSys.AdditionsExact {}) (ReportSys.init {} 1)
        (eventWaits 0x8000000000000000) := by
  constructor
  · intro key
    have hitems : (Runs.run (step {}) (init {} 1)
        ((eventWaits 0x8000000000000000).take 4)).items =
          List.replicate 2 ((0, eventWaitKey), ⟨1, 10, 0x8000000000000000⟩) := by
      decide +kernel
    rw [rowItems, hitems]
    by_cases hkey : key = eventWaitKey
    · subst hkey
      exact ⟨by decide, by decide, by decide⟩
    · have hnone : ∀ cpu : Fin 1, itemsOf (List.replicate 2 (((0 : Fin 1), eventWaitKey),
          (⟨1, 10, 0x8000000000000000⟩ : AggItem))) (cpu, key) = [] := by
        intro cpu
        simp [itemsOf, List.replicate, Ne.symm hkey]
      simp only [hnone]
      exact ⟨by decide, by decide, by simp [List.ofFn_succ]⟩
  · intro hexact
    rw [← List.take_append_drop 3 (eventWaits 0x8000000000000000), Runs.along_append] at hexact
    have hslot := hexact.2.1.slot (Sys.bareCtx 0x100000001 30 0)
      { timestampNs := 20, arg0 := 0x8000000000000000, arg1 := 0, arg2 := 0,
        eventType := .cudaEventSync } rfl
    have hfound : ∃ val, PerCpuMap.lookup (Runs.run (ReportSys.step {}) (ReportSys.init {} 1)
        ((eventWaits 0x8000000000000000).take 3)).sys.bpf.aggregated 0 eventWaitKey = some val ∧
          val.sizeSum = 0x8000000000000000 := ⟨_, rfl, by decide +kernel⟩
    obtain ⟨val, hval, hsize⟩ := hfound
    -- the slot holds one handle, and the same is added
    have hsum := (hslot val hval).sizeSum
    rw [hsize] at hsum
    exact absurd hsum (by decide +kernel)

end ArithSys

end Profi
