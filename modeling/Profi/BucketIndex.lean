import Profi.Events
import Profi.Lib.Buckets

/-!
# Bucket Indices

The kernel program puts a duration into one of the cells of `bucket_counts`. There is one index
function for each of the three latency histograms, and each of them is written twice, in
`src/bpf/profi_events.h` and in its mirror `src/events.rs`, over a table of bounds that each file
has a copy of. The header compares with one bound after the other, and so does the mirror for NCCL;
for the other two histograms the mirror has a loop.

Both ways of writing it are a search for the first bound that is not below the duration
(`profiBucketIdx_eq`, `rustBucketIdx_eq`). Over the sorted tables this is the bucket, so the two
versions agree, a longer duration has no earlier bucket, and every bucket has a cell
(`bucketIdx_exact`).
-/

namespace Profi

open Buckets

/-! ## The Loop of the Rust Mirror -/

namespace EventsRs

/-- The loop over the bounds that are left, of which the first has the number `k`. -/
theorem forIn_zipIdx_eq_indexFrom (bounds : List U64) (durationNs : U64) (k : ℕ) :
    (Id.run do
      for (bound, i) in bounds.zipIdx k do
        if durationNs ≤ bound then
          return i
      return k + bounds.length) =
      indexFrom k (bounds.map BitVec.toNat) durationNs.toNat := by
  induction bounds generalizing k with
  | nil => rfl
  | cons bound bounds ih =>
    rw [List.zipIdx_cons, List.forIn_cons, List.map_cons, indexFrom]
    by_cases hle : durationNs ≤ bound
    · -- an early return
      rw [if_pos (show durationNs.toNat ≤ bound.toNat from hle)]
      simp [hle]
    · rw [if_neg (show ¬ durationNs.toNat ≤ bound.toNat from hle), ← ih (k + 1)]
      have hlength : k + (bound :: bounds).length = k + 1 + bounds.length := by
        rw [List.length_cons]
        omega
      rw [hlength]
      simp [hle]

theorem bucketIdxLoop_eq {N : ℕ} (bounds : Fin N → U64) (durationNs : U64) :
    bucketIdxLoop bounds durationNs =
      indexFrom 0 (List.ofFn fun i => (bounds i).toNat) durationNs.toNat := by
  have hloop := forIn_zipIdx_eq_indexFrom (List.ofFn bounds) durationNs 0
  rw [List.length_ofFn, Nat.zero_add, List.map_ofFn] at hloop
  exact hloop

end EventsRs

/-! ## The Three Histograms -/

/-- The latency histograms. -/
inductive LatencyHistogram
  | nccl
  | cuda
  | kernel
  deriving DecidableEq

namespace LatencyHistogram

/-- The index of the last bound. -/
def lastIdx : LatencyHistogram → ℕ
  | nccl => 10
  | cuda => 12
  | kernel => 7

/-- The bounds in `src/bpf/profi_events.h`. -/
def profiBounds : (hist : LatencyHistogram) → Fin (hist.lastIdx + 1) → U64
  | nccl => ncclBucketBoundsNs
  | cuda => cudaBucketBoundsNs
  | kernel => kernelBucketBoundsNs

/-- The index function in `src/bpf/profi_events.h`. -/
def profiBucketIdx : LatencyHistogram → U64 → ℕ
  | nccl => profiNcclBucketIdx
  | cuda => profiCudaBucketIdx
  | kernel => profiKernelBucketIdx

/-- The bounds in `src/events.rs`. -/
def rustBounds : (hist : LatencyHistogram) → Fin (hist.lastIdx + 1) → U64
  | nccl => EventsRs.ncclBucketBoundsNs
  | cuda => EventsRs.cudaBucketBoundsNs
  | kernel => EventsRs.kernelBucketBoundsNs

/-- The index function in `src/events.rs`. -/
def rustBucketIdx : LatencyHistogram → U64 → ℕ
  | nccl => EventsRs.ncclBucketIdx
  | cuda => EventsRs.cudaBucketIdx
  | kernel => EventsRs.kernelBucketIdx

/-- The map value that holds the histogram. -/
def Value : LatencyHistogram → Type
  | nccl => NcclAggValue
  | cuda => AggValue
  | kernel => LaunchAggValue

/-- The `bucket_counts` array of a value. -/
def bucketCounts : (hist : LatencyHistogram) → hist.Value → List U32
  | nccl, val => List.ofFn (NcclAggValue.bucketCounts val)
  | cuda, val => List.ofFn (AggValue.bucketCounts val)
  | kernel, val => List.ofFn (LaunchAggValue.bucketCounts val)

variable (hist : LatencyHistogram)

theorem length_bucketCounts (val : hist.Value) :
    (hist.bucketCounts val).length = hist.lastIdx + 2 := by
  cases hist <;> exact List.length_ofFn

/-- The two copies of a table are the same. -/
theorem rustBounds_eq_profiBounds : hist.rustBounds = hist.profiBounds := by
  cases hist <;> rfl

theorem monotone_profiBounds : Monotone fun i => (hist.profiBounds i).toNat := by
  cases hist <;> unfold Monotone <;> decide

/-! ## Both Versions Search -/

theorem profiBucketIdx_eq (d : U64) :
    hist.profiBucketIdx d =
      indexFrom 0 (List.ofFn fun i => (hist.profiBounds i).toNat) d.toNat := by
  cases hist <;> rfl

theorem rustBucketIdx_eq (d : U64) :
    hist.rustBucketIdx d =
      indexFrom 0 (List.ofFn fun i => (hist.rustBounds i).toNat) d.toNat := by
  cases hist with
  | nccl => rfl
  | cuda => exact EventsRs.bucketIdxLoop_eq _ d
  | kernel => exact EventsRs.bucketIdxLoop_eq _ d

-- bounds are inclusive: the last one is in its own bucket, one more is beyond the table
example : rustBucketIdx cuda (rustBounds cuda 12) = 12 ∧
    rustBucketIdx cuda (rustBounds cuda 12 + 1) = 13 := by
  decide

theorem isBucket_profiBucketIdx (d : U64) :
    IsBucket hist.profiBounds d (hist.profiBucketIdx d) := by
  rw [profiBucketIdx_eq]
  -- words are compared as the numbers they stand for
  exact isBucket_indexFrom hist.monotone_profiBounds d.toNat

theorem isBucket_rustBucketIdx (d : U64) :
    IsBucket hist.rustBounds d (hist.rustBucketIdx d) := by
  rw [rustBucketIdx_eq, rustBounds_eq_profiBounds]
  exact isBucket_indexFrom hist.monotone_profiBounds d.toNat

theorem profiBucketIdx_mono {d d' : U64} (hle : d ≤ d') :
    hist.profiBucketIdx d ≤ hist.profiBucketIdx d' := by
  have hd : IsBucket (fun i => (hist.profiBounds i).toNat) d.toNat (hist.profiBucketIdx d) :=
    hist.isBucket_profiBucketIdx d
  have hd' : IsBucket (fun i => (hist.profiBounds i).toNat) d'.toNat (hist.profiBucketIdx d') :=
    hist.isBucket_profiBucketIdx d'
  exact IsBucket.mono hle hd hd'

theorem profiBucketIdx_lt (d : U64) : hist.profiBucketIdx d < hist.lastIdx + 2 :=
  (hist.isBucket_profiBucketIdx d).lt

/-- The header and its mirror put every duration into the same bucket of each histogram, which is
    the bucket of either table; longer durations have no earlier buckets, and there is a cell for
    every duration. -/
theorem bucketIdx_exact :
    (∀ d, hist.profiBucketIdx d = hist.rustBucketIdx d) ∧
      (∀ d, IsBucket hist.profiBounds d (hist.profiBucketIdx d)) ∧
      (∀ d, IsBucket hist.rustBounds d (hist.rustBucketIdx d)) ∧
      (∀ d d', d ≤ d' → hist.profiBucketIdx d ≤ hist.profiBucketIdx d') ∧
      ∀ d (val : hist.Value), hist.profiBucketIdx d < (hist.bucketCounts val).length := by
  refine ⟨?_, hist.isBucket_profiBucketIdx, hist.isBucket_rustBucketIdx, ?_, ?_⟩
  · intro d
    have hrust := hist.isBucket_rustBucketIdx d
    rw [rustBounds_eq_profiBounds] at hrust
    exact (hist.isBucket_profiBucketIdx d).unique hrust
  · intro d d' hle
    exact hist.profiBucketIdx_mono hle
  · intro d val
    rw [length_bucketCounts]
    exact hist.profiBucketIdx_lt d

end LatencyHistogram

end Profi
