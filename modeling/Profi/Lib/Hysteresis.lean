import Mathlib

/-!
# Switches with Two Thresholds

A switch sees one mark after the other. It turns on when `up` marks in a row are set and off when
`down` marks in a row are clear, and stays as it is in between.

`log` lists the thresholds as they are reached, so that its last entry says what the switch should
be. `Tracks` is the invariant of an implementation: besides agreeing with the log it has to know
that a run beyond the threshold has already switched, since the log has nothing new then.
-/

namespace Hysteresis

/-! ## Histories -/

/-- How many marks at the end of a history are equal to `mark`. -/
def trailing (mark : Bool) (marks : List Bool) : ℕ :=
  (marks.reverse.takeWhile (· == mark)).length

@[simp] theorem trailing_nil (mark : Bool) : trailing mark [] = 0 := rfl

@[simp] theorem trailing_concat_self (mark : Bool) (marks : List Bool) :
    trailing mark (marks ++ [mark]) = trailing mark marks + 1 := by
  simp [trailing]

@[simp] theorem trailing_concat_not (mark : Bool) (marks : List Bool) :
    trailing (!mark) (marks ++ [mark]) = 0 := by
  simp [trailing]

/-- The threshold that the end of a history has just reached: `some true` if its last `up` marks and
    no more are set, `some false` if its last `down` marks and no more are clear. -/
def reached (up down : ℕ) (marks : List Bool) : Option Bool :=
  if trailing true marks = up then some true
  else if trailing false marks = down then some false
  else none

/-- The thresholds in the order in which they were reached. -/
def log (up down : ℕ) (marks : List Bool) : List Bool :=
  marks.inits.filterMap (reached up down)

theorem log_concat (up down : ℕ) (marks : List Bool) (mark : Bool) :
    log up down (marks ++ [mark]) =
      log up down marks ++ (reached up down (marks ++ [mark])).toList := by
  unfold log
  cases h : reached up down (marks ++ [mark]) <;>
    simp [List.inits_append, List.filterMap_append, h]

/-! ## The switch -/

/-- A switch that is `on` after the history, as its log says. -/
structure Tracks (up down : ℕ) (marks : List Bool) (on : Bool) : Prop where
  last : on = true ↔ (log up down marks).getLast? = some true
  setRun : up ≤ trailing true marks → on = true
  clearRun : down ≤ trailing false marks → on = false

namespace Tracks

variable {up down : ℕ} {marks : List Bool} {on : Bool}

theorem init (hup : 0 < up) (hdown : 0 < down) : Tracks up down [] false := by
  have hreached : reached up down [] = none := by
    simp [reached, hup.ne, hdown.ne]
  refine ⟨?_, ?_, fun _ => rfl⟩
  · simp [log, hreached]
  · intro h
    simp only [trailing_nil] at h
    omega

/-- A set mark turns the switch on if it completes a run. -/
theorem set (hdown : 0 < down) (h : Tracks up down marks on) :
    Tracks up down (marks ++ [true]) (on || decide (up ≤ trailing true marks + 1)) := by
  have hother : trailing false (marks ++ [true]) = 0 := trailing_concat_not true marks
  have hreached : reached up down (marks ++ [true]) =
      if trailing true marks + 1 = up then some true else none := by
    simp [reached, hother, hdown.ne]
  refine ⟨?_, ?_, ?_⟩
  · rw [log_concat, hreached]
    by_cases hnow : trailing true marks + 1 = up
    · simp [hnow]
    · -- below the threshold nothing happens, beyond it the switch is on already
      have hbeyond : up ≤ trailing true marks + 1 → on = true := fun hle => h.setRun (by omega)
      simp only [hnow, ↓reduceIte, Option.toList_none, List.append_nil, ← h.last, Bool.or_eq_true,
        decide_eq_true_eq]
      exact or_iff_left_of_imp hbeyond
  · intro hrun
    rw [trailing_concat_self] at hrun
    simp [hrun]
  · intro hrun
    omega

/-- A clear mark turns the switch off if it completes a run. -/
theorem clear (hup : 0 < up) (h : Tracks up down marks on) :
    Tracks up down (marks ++ [false]) (on && !decide (down ≤ trailing false marks + 1)) := by
  have hother : trailing true (marks ++ [false]) = 0 := trailing_concat_not false marks
  have hreached : reached up down (marks ++ [false]) =
      if trailing false marks + 1 = down then some false else none := by
    simp [reached, hother, hup.ne]
  refine ⟨?_, ?_, ?_⟩
  · rw [log_concat, hreached]
    by_cases hnow : trailing false marks + 1 = down
    · simp [hnow]
    · have hbeyond : on = true → ¬ down ≤ trailing false marks + 1 := by
        intro hon hle
        have hoff := h.clearRun (by omega)
        rw [hon] at hoff
        cases hoff
      simp only [hnow, ↓reduceIte, Option.toList_none, List.append_nil, ← h.last,
        Bool.and_eq_true, Bool.not_eq_true', decide_eq_false_iff_not]
      exact and_iff_left_of_imp hbeyond
  · intro hrun
    omega
  · intro hrun
    rw [trailing_concat_self] at hrun
    simp [hrun]

end Tracks

end Hysteresis
