import Profi.Lib.Hysteresis
import Profi.Lib.WordSum
import Profi.System

/-!
# Drop Accounting

An aggregate tick reads the `DROPPED` counters and exports what they have grown by since the last
read. It also decides how often the maps are drained: three ticks in a row with new drops make it
ten times a second, thirty in a row without put it back to once a second. A read that fails changes
nothing.

`DropAccount.tick_spec` follows any sequence of reads that never fall.
-/

namespace Profi

variable {n : ℕ}

/-- `read_percpu_counter`, on the slots of all CPUs. -/
def readPercpuCounter (percpu : Option (List U64)) : Option U64 := percpu.map List.sum

/-! ## The arm -/

/-- What an aggregate tick keeps about drops, with the metrics it writes. -/
structure DropAccount where
  lastDroppedTotal : U64 := 0
  consecutiveOverflowTicks : U32 := 0
  consecutiveClearTicks : U32 := 0
  aggIntervalFast : Bool := false
  /-- The period of `agg_interval`, in milliseconds. -/
  aggIntervalMs : ℕ := 1000
  droppedEvents : U64 := 0
  ringBufferDropsRate : ℚ := 0

namespace DropAccount

/-- A tick with new drops. -/
def overflowTick (s : DropAccount) (total delta : U64) : DropAccount :=
  let intervalSecs : ℚ := if s.aggIntervalFast then 1 / 10 else 1
  let overflowTicks := s.consecutiveOverflowTicks + 1
  let speedUp := decide (overflowTicks ≥ 3) && !s.aggIntervalFast
  { lastDroppedTotal := total
    consecutiveOverflowTicks := overflowTicks
    consecutiveClearTicks := 0
    aggIntervalFast := if speedUp then true else s.aggIntervalFast
    aggIntervalMs := if speedUp then 100 else s.aggIntervalMs
    droppedEvents := s.droppedEvents + delta
    ringBufferDropsRate := delta.toNat / intervalSecs }

/-- A tick without. -/
def clearTick (s : DropAccount) : DropAccount :=
  let clearTicks := s.consecutiveClearTicks + 1
  let slowDown := decide (clearTicks ≥ 30) && s.aggIntervalFast
  { s with
    consecutiveOverflowTicks := 0
    consecutiveClearTicks := clearTicks
    aggIntervalFast := if slowDown then false else s.aggIntervalFast
    aggIntervalMs := if slowDown then 1000 else s.aggIntervalMs
    ringBufferDropsRate := 0 }

/-- The `DROPPED` accounting of an aggregate tick. -/
def tick (s : DropAccount) : Option U64 → DropAccount
  -- a failed read leaves the runs as they are
  | none => s
  | some total =>
    let delta := WordSum.saturatingSub total s.lastDroppedTotal
    if delta > 0 then s.overflowTick total delta else s.clearTick

/-! ## The history of ticks -/

/-- Which ticks with a successful read found new drops, after a read of `prev`. -/
def overflows : U64 → List (Option U64) → List Bool
  | _, [] => []
  | prev, none :: reads => overflows prev reads
  | prev, some total :: reads => decide (prev < total) :: overflows total reads

/-- The last successful read, or `prev` if there is none. -/
def lastRead (prev : U64) (reads : List (Option U64)) : U64 :=
  reads.foldl (fun last read => read.getD last) prev

@[simp] theorem lastRead_concat (prev : U64) (reads : List (Option U64)) (read : Option U64) :
    lastRead prev (reads ++ [read]) = read.getD (lastRead prev reads) :=
  List.foldl_concat ..

theorem lastRead_mem (prev : U64) (reads : List (Option U64)) :
    lastRead prev reads = prev ∨ lastRead prev reads ∈ reads.reduceOption := by
  induction reads generalizing prev with
  | nil => exact .inl rfl
  | cons read reads ih =>
    cases read with
    | none => exact ih prev
    | some total =>
      right
      rcases ih total with heq | hmem
      · exact List.mem_cons.mpr (.inl heq)
      · exact List.mem_cons_of_mem total hmem

theorem overflows_concat_none (prev : U64) (reads : List (Option U64)) :
    overflows prev (reads ++ [none]) = overflows prev reads := by
  induction reads generalizing prev with
  | nil => rfl
  | cons read reads ih =>
    cases read with
    | none => exact ih prev
    | some total => exact congrArg (decide (prev < total) :: ·) (ih total)

theorem overflows_concat_some (prev : U64) (reads : List (Option U64)) (total : U64) :
    overflows prev (reads ++ [some total]) =
      overflows prev reads ++ [decide (lastRead prev reads < total)] := by
  induction reads generalizing prev with
  | nil => rfl
  | cons read reads ih =>
    cases read with
    | none => exact ih prev
    | some first =>
      rw [List.cons_append, overflows, ih]
      rfl

/-! ## The invariant -/

/-- The account after the reads. The run counters may have wrapped; the switch has not. -/
structure After (reads : List (Option U64)) (s : DropAccount) : Prop where
  last : s.lastDroppedTotal = lastRead 0 reads
  droppedEvents : s.droppedEvents = s.lastDroppedTotal
  overflowTicks : s.consecutiveOverflowTicks =
    BitVec.ofNat 32 (Hysteresis.trailing true (overflows 0 reads))
  clearTicks : s.consecutiveClearTicks =
    BitVec.ofNat 32 (Hysteresis.trailing false (overflows 0 reads))
  tracks : Hysteresis.Tracks 3 30 (overflows 0 reads) s.aggIntervalFast
  interval : s.aggIntervalMs = if s.aggIntervalFast then 100 else 1000

namespace After

variable {reads : List (Option U64)} {s : DropAccount}

theorem init : After [] {} where
  last := rfl
  droppedEvents := rfl
  overflowTicks := rfl
  clearTicks := rfl
  tracks := .init (by omega) (by omega)
  interval := rfl

theorem none (h : After reads s) : After (reads ++ [Option.none]) s := by
  refine ⟨?_, h.droppedEvents, ?_, ?_, ?_, h.interval⟩
  · rw [lastRead_concat]
    exact h.last
  all_goals rw [overflows_concat_none]
  · exact h.overflowTicks
  · exact h.clearTicks
  · exact h.tracks

/-- A run counter that has not reached `k` before a tick reaches it with the run. -/
theorem decide_counter {counter : U32} {run k : ℕ} (hcounter : counter = BitVec.ofNat 32 run)
    (hk : k < 2 ^ 32) (hrun : run < k) :
    decide (counter + 1 ≥ BitVec.ofNat 32 k) = decide (k ≤ run + 1) := by
  have hnext : counter + 1 = BitVec.ofNat 32 (run + 1) := by
    rw [hcounter, BitVec.ofNat_add]
    rfl
  apply decide_eq_decide.mpr
  rw [hnext, ge_iff_le, BitVec.le_def, BitVec.toNat_ofNat, BitVec.toNat_ofNat,
    Nat.mod_eq_of_lt hk, Nat.mod_eq_of_lt (by omega)]

/-- The overflow counter throws the switch as the run of overflows does: while the switch is off,
    the counter is below its threshold, and cannot have wrapped. -/
theorem speedUp_eq (h : After reads s) :
    (if decide (s.consecutiveOverflowTicks + 1 ≥ 3) && !s.aggIntervalFast then true
      else s.aggIntervalFast) =
      (s.aggIntervalFast || decide (3 ≤ Hysteresis.trailing true (overflows 0 reads) + 1)) := by
  cases hfast : s.aggIntervalFast with
  | true => simp
  | false =>
    have hrun : ¬ 3 ≤ Hysteresis.trailing true (overflows 0 reads) := by
      intro hle
      have hon := h.tracks.setRun hle
      rw [hfast] at hon
      cases hon
    have hcounter : decide (s.consecutiveOverflowTicks + 1 ≥ 3) =
        decide (3 ≤ Hysteresis.trailing true (overflows 0 reads) + 1) :=
      decide_counter (k := 3) h.overflowTicks (by omega) (by omega)
    rw [hcounter]
    simp

/-- The same of the clear counter, which throws the switch back. -/
theorem slowDown_eq (h : After reads s) :
    (if decide (s.consecutiveClearTicks + 1 ≥ 30) && s.aggIntervalFast then false
      else s.aggIntervalFast) =
      (s.aggIntervalFast &&
        !decide (30 ≤ Hysteresis.trailing false (overflows 0 reads) + 1)) := by
  cases hfast : s.aggIntervalFast with
  | false => simp
  | true =>
    have hrun : ¬ 30 ≤ Hysteresis.trailing false (overflows 0 reads) := by
      intro hle
      have hoff := h.tracks.clearRun hle
      rw [hfast] at hoff
      cases hoff
    have hcounter : decide (s.consecutiveClearTicks + 1 ≥ 30) =
        decide (30 ≤ Hysteresis.trailing false (overflows 0 reads) + 1) :=
      decide_counter (k := 30) h.clearTicks (by omega) (by omega)
    rw [hcounter]
    cases decide (30 ≤ Hysteresis.trailing false (overflows 0 reads) + 1) <;> rfl

/-- A read above the last one: the drops are counted, and the calm is over. -/
theorem overflowTick (h : After reads s) {total : U64} (hnew : lastRead 0 reads < total) :
    After (reads ++ [some total])
      (s.overflowTick total (WordSum.saturatingSub total s.lastDroppedTotal)) := by
  have hle : s.lastDroppedTotal ≤ total := by
    rw [h.last]
    exact BitVec.le_of_lt hnew
  have hmarks : overflows 0 (reads ++ [some total]) = overflows 0 reads ++ [true] := by
    rw [overflows_concat_some, decide_eq_true hnew]
  have hclear : Hysteresis.trailing false (overflows 0 reads ++ [true]) = 0 :=
    Hysteresis.trailing_concat_not true _
  refine ⟨?_, ?_, ?_, ?_, ?_, ?_⟩
  · rw [lastRead_concat]
    rfl
  · -- the counter stood at the last read
    change s.droppedEvents + WordSum.saturatingSub total s.lastDroppedTotal = total
    rw [h.droppedEvents, WordSum.saturatingSub, if_pos hle, add_sub_cancel]
  · rw [hmarks, Hysteresis.trailing_concat_self, BitVec.ofNat_add, ← h.overflowTicks]
    rfl
  · -- the ticks without a drop start again from zero
    rw [hmarks, hclear]
    rfl
  · rw [hmarks]
    change Hysteresis.Tracks 3 30 _ (if _ then true else s.aggIntervalFast)
    rw [h.speedUp_eq]
    exact h.tracks.set (by omega)
  · have hinterval := h.interval
    unfold DropAccount.overflowTick
    split <;> simp_all

/-- A read as before: no drop, and one more calm tick. -/
theorem clearTick (h : After reads s) {total : U64} (hsame : total = lastRead 0 reads) :
    After (reads ++ [some total]) s.clearTick := by
  have hmarks : overflows 0 (reads ++ [some total]) = overflows 0 reads ++ [false] := by
    rw [overflows_concat_some, hsame, decide_eq_false (BitVec.lt_irrefl _)]
  have hset : Hysteresis.trailing true (overflows 0 reads ++ [false]) = 0 :=
    Hysteresis.trailing_concat_not false _
  refine ⟨?_, h.droppedEvents, ?_, ?_, ?_, ?_⟩
  · rw [lastRead_concat, hsame]
    exact h.last
  · rw [hmarks, hset]
    rfl
  · rw [hmarks, Hysteresis.trailing_concat_self, BitVec.ofNat_add, ← h.clearTicks]
    rfl
  · rw [hmarks]
    change Hysteresis.Tracks 3 30 _ (if _ then false else s.aggIntervalFast)
    rw [h.slowDown_eq]
    exact h.tracks.clear (by omega)
  · have hinterval := h.interval
    unfold DropAccount.clearTick
    simp only
    split <;> simp_all

/-- A tick whose read is not below the last one. -/
theorem tick (h : After reads s) (read : Option U64)
    (hle : ∀ total ∈ read, lastRead 0 reads ≤ total) : After (reads ++ [read]) (s.tick read) := by
  cases read with
  | none => exact h.none
  | some total =>
    have hle := hle total rfl
    have hdelta : (WordSum.saturatingSub total s.lastDroppedTotal).toNat =
        total.toNat - (lastRead 0 reads).toNat := by
      rw [h.last, WordSum.toNat_saturatingSub hle]
    unfold DropAccount.tick
    simp only [gt_iff_lt]
    split
    next hpos =>
      apply h.overflowTick
      rw [BitVec.lt_def] at hpos ⊢
      omega
    next hzero =>
      apply h.clearTick
      apply BitVec.le_antisymm ?_ hle
      rw [BitVec.lt_def] at hzero
      rw [BitVec.le_def]
      simp only [BitVec.ofNat_eq_ofNat, BitVec.toNat_ofNat, Nat.zero_mod] at hzero
      omega

/-- The account after reads that never fall. -/
theorem run {reads : List (Option U64)} (hmono : reads.reduceOption.Pairwise (· ≤ ·)) :
    After reads (reads.foldl DropAccount.tick {}) := by
  -- the last read is compared with those before it, so the induction takes it off the end
  induction reads using List.reverseRecOn with
  | nil => exact .init
  | append_singleton reads read ih =>
    rw [List.reduceOption_append] at hmono
    obtain ⟨hpast, -, hcross⟩ := List.pairwise_append.mp hmono
    rw [List.foldl_concat]
    apply (ih hpast).tick
    intro total htotal
    rcases lastRead_mem 0 reads with hzero | hmem
    · rw [hzero]
      exact BitVec.le_def.mpr (Nat.zero_le _)
    · apply hcross _ hmem
      rw [Option.mem_def.mp htotal]
      exact List.mem_singleton_self total

end After

/-- After each successful read the exported counter is what was read. The maps are drained fast
    exactly if, of the runs of three ticks with new drops and of thirty ticks without, the last one
    to be completed was of the first kind. -/
theorem tick_spec (reads : List (Option U64)) (hmono : reads.reduceOption.Pairwise (· ≤ ·))
    (k : ℕ) :
    let s := (reads.take k).foldl tick {}
    (∀ total, (reads.take k).getLast? = some (some total) → s.droppedEvents = total) ∧
      (s.aggIntervalFast = true ↔
        (Hysteresis.log 3 30 (overflows 0 (reads.take k))).getLast? = some true) := by
  have hpast : (reads.take k).reduceOption.Pairwise (· ≤ ·) :=
    hmono.sublist ((List.take_sublist k reads).filterMap id)
  have hafter := After.run hpast
  refine ⟨?_, hafter.tracks.last⟩
  intro total hlast
  obtain ⟨past, hpast⟩ := List.getLast?_eq_some_iff.mp hlast
  rw [hafter.droppedEvents, hafter.last, hpast, lastRead_concat]
  rfl

/-- Three ticks with new drops, one read failing in between. -/
theorem tick_spec_fast :
    let reads := [some 0, some 2, none, some 5, some 9]
    (reads.foldl tick {}).droppedEvents = 9 ∧ (reads.foldl tick {}).aggIntervalFast = true := by
  intro reads
  have hmono : reads.reduceOption.Pairwise (· ≤ ·) := by decide
  have hspec := tick_spec reads hmono 5
  exact ⟨hspec.1 9 rfl, hspec.2.mpr (by decide)⟩

end DropAccount

end Profi
