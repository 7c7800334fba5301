import Profi.Events
import Profi.Lib.WordSum

/-!
# Report Statistics

`TermStats` of `src/report.rs`: the statistics of the terminal report, one entry for each operation.
Calls are recorded one at a time in the event loop's own table, and its entries are merged into the
reported ones later.

An entry stands for a list of calls (`TermStats.Summarises`). Recording adds a call to the list and
merging joins two lists, so that an entry that was only ever recorded and merged is a function of
the calls, whatever their batches and order.
-/

namespace Profi

structure TermStats where
  count : U64 := 0
  totalNs : U64 := 0
  totalBytes : U64 := 0
  minNs : U64 := 0
  maxNs : U64 := 0
  deriving DecidableEq

namespace TermStats

/-- `TermStats::record`. -/
def record (s : TermStats) (durNs size : U64) : TermStats :=
  let count := s.count + 1
  { count
    totalNs := s.totalNs + durNs
    totalBytes := s.totalBytes + size
    minNs := if count = 1 ∨ durNs < s.minNs then durNs else s.minNs
    maxNs := if durNs > s.maxNs then durNs else s.maxNs }

/-- `TermStats::merge`. -/
def merge (s other : TermStats) : TermStats :=
  if other.count = 0 then s
  else
    let count := s.count + other.count
    { count
      totalNs := s.totalNs + other.totalNs
      totalBytes := s.totalBytes + other.totalBytes
      minNs := if count = other.count ∨ other.minNs < s.minNs then other.minNs else s.minNs
      maxNs := if other.maxNs > s.maxNs then other.maxNs else s.maxNs }

/-- The entry after the calls, given by duration and size, from the default one. -/
def recordAll (calls : List (U64 × U64)) : TermStats :=
  calls.foldl (fun s call => s.record call.1 call.2) {}

/-! ## What an entry stands for -/

/-- The durations of calls. -/
def durations (calls : List (U64 × U64)) : Set ℕ := {d | ∃ call ∈ calls, call.1.toNat = d}

theorem durations_append (xs ys : List (U64 × U64)) :
    durations (xs ++ ys) = durations xs ∪ durations ys := by
  ext d
  simp only [durations, List.mem_append, or_and_right, exists_or, Set.mem_union, Set.mem_ofPred_eq]

theorem durations_perm {xs ys : List (U64 × U64)} (h : xs.Perm ys) :
    durations xs = durations ys := by
  ext d
  simp only [durations, h.mem_iff]

theorem toNat_lesser (a b : U64) : (if a < b then a else b).toNat = min b.toNat a.toNat := by
  split
  all_goals
    rename_i h
    rw [BitVec.lt_def] at h
    omega

theorem toNat_greater (a b : U64) : (if a > b then a else b).toNat = max b.toNat a.toNat := by
  split
  all_goals
    rename_i h
    rw [gt_iff_lt, BitVec.lt_def] at h
    omega

/-- The entry is the statistics of the calls. Sums are modulo `2 ^ 64`; the count is not, since an
    entry is taken for a fresh one if it is zero. -/
structure Summarises (s : TermStats) (calls : List (U64 × U64)) : Prop where
  count : s.count.toNat = calls.length
  totalNs : s.totalNs = (calls.map Prod.fst).sum
  totalBytes : s.totalBytes = (calls.map Prod.snd).sum
  minNs : calls ≠ [] → IsLeast (durations calls) s.minNs.toNat
  maxNs : calls ≠ [] → IsGreatest (durations calls) s.maxNs.toNat
  empty : calls = [] → s.minNs = 0 ∧ s.maxNs = 0

namespace Summarises

variable {s other : TermStats} {xs ys : List (U64 × U64)}

theorem init : Summarises {} [] where
  count := rfl
  totalNs := rfl
  totalBytes := rfl
  minNs h := absurd rfl h
  maxNs h := absurd rfl h
  empty _ := ⟨rfl, rfl⟩

theorem single (durNs size : U64) :
    Summarises ⟨1, durNs, size, durNs, durNs⟩ [(durNs, size)] where
  count := rfl
  totalNs := by simp
  totalBytes := by simp
  minNs _ := by simp [durations]
  maxNs _ := by simp [durations]
  empty h := by cases h

theorem count_eq_zero_iff (h : s.Summarises xs) : s.count = 0 ↔ xs = [] := by
  rw [← List.length_eq_zero_iff, ← h.count]
  exact ⟨fun hzero => congrArg BitVec.toNat hzero, fun hzero => BitVec.eq_of_toNat_eq hzero⟩

/-- Merging joins the calls. -/
theorem merge (h : s.Summarises xs) (h' : other.Summarises ys)
    (hfits : (xs ++ ys).length < 2 ^ 64) : (s.merge other).Summarises (xs ++ ys) := by
  by_cases hys : ys = []
  · rw [TermStats.merge, if_pos (h'.count_eq_zero_iff.mpr hys), hys, List.append_nil]
    exact h
  have hne : xs ++ ys ≠ [] := List.append_ne_nil_of_right_ne_nil xs hys
  have hcount : (s.count + other.count).toNat = xs.length + ys.length := by
    rw [BitVec.toNat_add_of_lt, h.count, h'.count]
    rwa [h.count, h'.count, ← List.length_append]
  -- the count of the other entry alone tells that this one was fresh
  have hfresh : s.count + other.count = other.count ↔ xs = [] := by
    rw [← BitVec.toNat_inj, hcount, h'.count, ← List.length_eq_zero_iff]
    omega
  rw [TermStats.merge, if_neg (mt h'.count_eq_zero_iff.mp hys)]
  refine ⟨?_, ?_, ?_, fun _ => ?_, fun _ => ?_, fun hnil => absurd hnil hne⟩
  · simpa using hcount
  · simp only [h.totalNs, h'.totalNs, List.map_append, List.sum_append]
  · simp only [h.totalBytes, h'.totalBytes, List.map_append, List.sum_append]
  · simp only [hfresh]
    by_cases hxs : xs = []
    · simpa [hxs] using h'.minNs hys
    · simp only [hxs, false_or, toNat_lesser, durations_append]
      exact (h.minNs hxs).union (h'.minNs hys)
  · simp only [toNat_greater, durations_append]
    by_cases hxs : xs = []
    · simpa [hxs, (h.empty hxs).2, durations] using h'.maxNs hys
    · exact (h.maxNs hxs).union (h'.maxNs hys)

/-- Entries that stand for the same calls are the same. -/
theorem unique (h : s.Summarises xs) (h' : other.Summarises ys) (hperm : xs.Perm ys) :
    s = other := by
  have hcount : s.count = other.count := by
    rw [← BitVec.toNat_inj, h.count, h'.count, hperm.length_eq]
  have htotalNs : s.totalNs = other.totalNs := by
    rw [h.totalNs, h'.totalNs, (hperm.map _).sum_eq]
  have htotalBytes : s.totalBytes = other.totalBytes := by
    rw [h.totalBytes, h'.totalBytes, (hperm.map _).sum_eq]
  -- extremes are unique where there are calls, and zero by default where there are none
  have hextremes : s.minNs = other.minNs ∧ s.maxNs = other.maxNs := by
    by_cases hxs : xs = []
    · have hys : ys = [] := (hxs ▸ hperm).nil_eq.symm
      rw [(h.empty hxs).1, (h.empty hxs).2, (h'.empty hys).1, (h'.empty hys).2]
      exact ⟨rfl, rfl⟩
    · have hys : ys ≠ [] := fun hys => hxs (hys ▸ hperm).eq_nil
      have hdurations := durations_perm hperm
      rw [← BitVec.toNat_inj, ← BitVec.toNat_inj]
      exact ⟨(h.minNs hxs).unique (hdurations ▸ h'.minNs hys),
        (h.maxNs hxs).unique (hdurations ▸ h'.maxNs hys)⟩
  cases s
  cases other
  simp only [TermStats.mk.injEq]
  exact ⟨hcount, htotalNs, htotalBytes, hextremes.1, hextremes.2⟩

end Summarises

/-! ## Recording -/

/-- Recording a call is merging the statistics of this call. -/
theorem record_eq_merge (s : TermStats) (durNs size : U64) :
    s.record durNs size = s.merge ⟨1, durNs, size, durNs, durNs⟩ := rfl

theorem Summarises.record {s : TermStats} {calls : List (U64 × U64)} (h : s.Summarises calls)
    (hfits : calls.length + 1 < 2 ^ 64) (durNs size : U64) :
    (s.record durNs size).Summarises (calls ++ [(durNs, size)]) := by
  rw [record_eq_merge]
  apply h.merge (.single durNs size)
  simpa using hfits

theorem summarises_foldl_record {s : TermStats} {past : List (U64 × U64)} (h : s.Summarises past)
    (calls : List (U64 × U64)) (hfits : past.length + calls.length < 2 ^ 64) :
    (calls.foldl (fun s call => s.record call.1 call.2) s).Summarises (past ++ calls) := by
  induction calls generalizing s past with
  | nil => simpa using h
  | cons call calls ih =>
    rw [List.length_cons] at hfits
    have hnext := h.record (by omega) call.1 call.2
    rw [List.append_cons]
    apply ih hnext
    rw [List.length_append, List.length_singleton]
    omega

theorem summarises_recordAll {calls : List (U64 × U64)} (hfits : calls.length < 2 ^ 64) :
    (recordAll calls).Summarises calls :=
  summarises_foldl_record .init calls (by simpa using hfits)

/-! ## Batches -/

/-- Merging the entries of batches one after the other joins the batches. -/
theorem summarises_foldl_merge {s : TermStats} {past : List (U64 × U64)} (h : s.Summarises past)
    (batches : List (List (U64 × U64))) (hfits : past.length + batches.flatten.length < 2 ^ 64) :
    ((batches.map recordAll).foldl merge s).Summarises (past ++ batches.flatten) := by
  induction batches generalizing s past with
  | nil => simpa using h
  | cons batch batches ih =>
    rw [List.flatten_cons, List.length_append] at hfits
    have hnext : (s.merge (recordAll batch)).Summarises (past ++ batch) := by
      apply h.merge (summarises_recordAll (by omega))
      rw [List.length_append]
      omega
    rw [List.flatten_cons, ← List.append_assoc]
    apply ih hnext
    rw [List.length_append]
    omega

/-- Merging the statistics of `ys` into those of `xs` gives the statistics of all the calls, and so
    does merging any batches of these calls in any order. -/
theorem merge_recordAll (xs ys : List (U64 × U64)) (hfits : (xs ++ ys).length < 2 ^ 64) :
    (recordAll xs).merge (recordAll ys) = recordAll (xs ++ ys) ∧
      ∀ batches : List (List (U64 × U64)), batches.flatten.Perm (xs ++ ys) →
        (batches.map recordAll).foldl merge {} = recordAll (xs ++ ys) := by
  have hall := summarises_recordAll hfits
  have hlength : (xs ++ ys).length = xs.length + ys.length := List.length_append
  constructor
  · have hxs : (recordAll xs).Summarises xs := summarises_recordAll (by omega)
    have hys : (recordAll ys).Summarises ys := summarises_recordAll (by omega)
    exact (hxs.merge hys hfits).unique hall (List.Perm.refl _)
  · intro batches hperm
    have hbatches := summarises_foldl_merge .init batches
      (by rwa [List.length_nil, Nat.zero_add, hperm.length_eq])
    exact hbatches.unique hall hperm

/-- Three calls in two batches, with a zero duration among them. -/
theorem merge_recordAll_three :
    (recordAll [(5, 1), (0, 2)]).merge (recordAll [(7, 3)]) =
      recordAll [(5, 1), (0, 2), (7, 3)] :=
  (merge_recordAll [(5, 1), (0, 2)] [(7, 3)] (by decide)).1

end TermStats

end Profi
