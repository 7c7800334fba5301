import Mathlib

/-!
# Ring Buffers

A ring buffer of fixed-size records. A producer reserves room for one record and submits
it, or is refused when the data area cannot take another record; a consumer takes records
from the front. The kernel keeps the producer position at most `maxEntries - 1` bytes ahead
of the consumer position, and every record is padded with its eight byte header to a
multiple of eight.
-/

/-- A ring buffer with `maxEntries` data bytes and records of `recordSize` bytes. -/
structure RingBuf (α : Type) where
  maxEntries : ℕ
  recordSize : ℕ
  records : List α

namespace RingBuf

variable {α : Type}

def empty (maxEntries recordSize : ℕ) : RingBuf α := ⟨maxEntries, recordSize, []⟩

/-- Bytes one record takes: header and payload, rounded up to eight. -/
def recordLen (r : RingBuf α) : ℕ := (r.recordSize + 8 + 7) / 8 * 8

/-- Whether a reservation of one more record succeeds. -/
def CanReserve (r : RingBuf α) : Prop :=
  (r.records.length + 1) * r.recordLen ≤ r.maxEntries - 1

instance (r : RingBuf α) : Decidable r.CanReserve :=
  inferInstanceAs (Decidable (_ ≤ _))

/-- Reserve and submit one record; `none` when the reservation is refused. -/
def submit (r : RingBuf α) (x : α) : Option (RingBuf α) :=
  if r.CanReserve then some { r with records := r.records ++ [x] } else none

/-- Take up to `budget` records from the front. -/
def consume (r : RingBuf α) (budget : ℕ) : List α × RingBuf α :=
  (r.records.take budget, { r with records := r.records.drop budget })

end RingBuf
