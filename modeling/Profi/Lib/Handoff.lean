import Mathlib.Data.Finset.Basic

/-!
# Sets Handed Over with a Flag

Two ways to hand a set to another thread and tell it with a flag.

A `Box` is written under a lock, and so is its flag: who extends the set raises the flag before
the lock is released, who takes the set lowers it. Whenever the lock is free the flag says whether
the set has elements (`Box.agrees_step`).

A `Mark` is raised after the value is written and swapped out before it is read. The reader may
find a mark it does not need, but a value it has not read is always announced: by the mark, by a
writer that is going to raise it, or by its own reading (`Mark.announced_step`).
-/

namespace Handoff

/-! ## Under one lock -/

/-- How far the holder of the lock has come. -/
inductive Stage where
  | free
  | held
  /-- The set has been extended, and the flag is not raised yet. -/
  | extended
  /-- The set has been taken, and the flag is not lowered yet. -/
  | taken
  deriving DecidableEq

structure Box (α : Type) where
  items : Finset α
  flag : Bool
  stage : Stage

namespace Box

variable {α : Type} [DecidableEq α]

inductive Act (α : Type) where
  | lock
  | extend (items : Finset α)
  | raise
  | take
  | lower
  | unlock

def step (b : Box α) : Act α → Box α
  | .lock => if b.stage = .free then { b with stage := .held } else b
  | .extend items =>
    if b.stage = .held ∧ items.Nonempty then
      { b with items := b.items ∪ items, stage := .extended }
    else b
  | .raise => if b.stage = .extended then { b with flag := true, stage := .held } else b
  | .take => if b.stage = .held then { b with items := ∅, stage := .taken } else b
  | .lower => if b.stage = .taken then { b with flag := false, stage := .held } else b
  | .unlock => if b.stage = .held then { b with stage := .free } else b

/-- The flag says whether there is something in the box, but for what the holder is doing. -/
def Agrees (b : Box α) : Prop :=
  match b.stage with
  | .free | .held => b.flag = true ↔ b.items.Nonempty
  | .extended => b.items.Nonempty
  | .taken => b.items = ∅

theorem agrees_step {b : Box α} (h : b.Agrees) (act : Act α) : (b.step act).Agrees := by
  obtain ⟨items, flag, stage⟩ := b
  cases act with
  | extend more =>
    simp only [step]
    split
    next hguard => exact hguard.2.mono Finset.subset_union_right
    · exact h
  | _ => cases stage <;> simp_all [step, Agrees]

end Box

/-! ## With a mark -/

/-- A value, the mark that it has changed, and the value the reader has seen. -/
structure Mark (ι α : Type) where
  value : α
  dirty : Bool
  seen : α
  /-- The writers that have written and not raised the mark yet. -/
  writing : Finset ι
  /-- The reader has taken the mark and not read the value yet. -/
  reading : Bool

namespace Mark

variable {ι α : Type} [DecidableEq ι]

inductive Act (ι α : Type) where
  | write (i : ι) (value : α)
  | raise (i : ι)
  | swap
  | read

def step (m : Mark ι α) : Act ι α → Mark ι α
  | .write i value => { m with value, writing := insert i m.writing }
  | .raise i => { m with dirty := true, writing := m.writing.erase i }
  | .swap => { m with dirty := false, reading := m.reading || m.dirty }
  | .read => { m with seen := m.value, reading := false }

/-- A value that has not been seen is announced. -/
def Announced (m : Mark ι α) : Prop :=
  m.value ≠ m.seen → m.dirty = true ∨ m.writing.Nonempty ∨ m.reading = true

theorem announced_step {m : Mark ι α} (h : m.Announced) (act : Act ι α) :
    (m.step act).Announced := by
  intro hne
  cases act with
  | write i value => exact .inr (.inl (Finset.insert_nonempty i m.writing))
  | raise i => exact .inl rfl
  | swap =>
    rcases h hne with hdirty | hwriting | hreading
    · exact .inr (.inr (by simp [step, hdirty]))
    · exact .inr (.inl hwriting)
    · exact .inr (.inr (by simp [step, hreading]))
  | read => exact absurd rfl hne

end Mark

end Handoff
