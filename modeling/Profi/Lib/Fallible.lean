import Mathlib

/-!
# Loops That May Fail

Rust's loops with `?` and its searches with a fallible test are monadic list operations in `Except`.
Here is what their results say about the single rounds, and when they have one.
-/

namespace Fallible

variable {ε σ α β : Type*}

/-- A result, and no failure. -/
def Returns (x : Except ε α) : Prop := ∃ a, x = .ok a

/-! ## Rounds -/

/-- An invariant of the rounds of a loop that may fail holds of its result. -/
theorem foldlM_invariant {f : σ → α → Except ε σ} {I : σ → Prop}
    (hstep : ∀ s a s', I s → f s a = .ok s' → I s') {xs : List α} {s s' : σ} (hinit : I s)
    (h : xs.foldlM f s = .ok s') : I s' := by
  induction xs generalizing s with
  | nil =>
    cases h
    exact hinit
  | cons a xs ih =>
    rw [List.foldlM_cons] at h
    cases hf : f s a with
    | error e =>
      rw [hf] at h
      cases h
    | ok s₁ =>
      rw [hf] at h
      exact ih (hstep s a s₁ hinit hf) h

/-- A loop whose rounds never fail has a result. -/
theorem foldlM_total {f : σ → α → Except ε σ} {xs : List α}
    (hok : ∀ s, ∀ a ∈ xs, Returns (f s a)) (s : σ) : Returns (xs.foldlM f s) := by
  induction xs generalizing s with
  | nil => exact ⟨s, rfl⟩
  | cons a xs ih =>
    obtain ⟨s₁, hs₁⟩ := hok s a List.mem_cons_self
    obtain ⟨s', hs'⟩ := ih (fun s b hb => hok s b (List.mem_cons_of_mem a hb)) s₁
    refine ⟨s', ?_⟩
    rw [List.foldlM_cons, hs₁]
    exact hs'

/-- Every element of a result comes from one of the list. -/
theorem exists_of_mem_mapM {f : α → Except ε β} {xs : List α} {ys : List β}
    (h : xs.mapM f = .ok ys) {y : β} (hy : y ∈ ys) : ∃ x ∈ xs, f x = .ok y := by
  induction xs generalizing ys with
  | nil =>
    cases h
    cases hy
  | cons x xs ih =>
    rw [List.mapM_cons] at h
    cases hx : f x with
    | error e =>
      rw [hx] at h
      cases h
    | ok b =>
      cases hxs : xs.mapM f with
      | error e =>
        rw [hx, hxs] at h
        cases h
      | ok bs =>
        rw [hx, hxs] at h
        cases h
        rcases List.mem_cons.mp hy with rfl | hy
        · exact ⟨x, List.mem_cons_self, hx⟩
        · obtain ⟨a, ha, hfa⟩ := ih hxs hy
          exact ⟨a, List.mem_cons_of_mem x ha, hfa⟩

/-! ## Searches -/

/-- A search through a list returns if each call it comes to does. -/
theorem returns_findSomeM?_iff (f : α → Except ε (Option β)) (xs : List α) :
    Returns (xs.findSomeM? f) ↔
      ∀ k x, xs[k]? = some x → (∀ y ∈ xs.take k, f y = .ok none) → Returns (f x) := by
  induction xs with
  | nil => simp [List.findSomeM?, Returns, pure, Except.pure]
  | cons x xs ih =>
    cases hx : f x with
    | error e =>
      refine iff_of_false (by simp [List.findSomeM?, hx, Returns, bind, Except.bind]) ?_
      intro h
      obtain ⟨a, ha⟩ := h 0 x rfl (by simp)
      rw [hx] at ha
      cases ha
    | ok found =>
      cases found with
      | some b =>
        have hfound : (x :: xs).findSomeM? f = .ok (some b) := by
          simp [List.findSomeM?, hx, bind, Except.bind, pure, Except.pure]
        refine iff_of_true ⟨some b, hfound⟩ ?_
        intro k y hk hbefore
        cases k with
        | zero => exact ⟨some b, by rw [← Option.some.inj hk, hx]⟩
        | succ k =>
          -- the search has ended at `x`
          have hnone := hbefore x (by simp)
          rw [hx] at hnone
          cases hnone
      | none =>
        have hsearch : (x :: xs).findSomeM? f = xs.findSomeM? f := by
          simp [List.findSomeM?, hx, bind, Except.bind]
        rw [hsearch, ih]
        constructor
        · intro h k y hk hbefore
          cases k with
          | zero => exact ⟨none, by rw [← Option.some.inj hk, hx]⟩
          | succ k => exact h k y hk fun z hz => hbefore z (by simp [hz])
        · intro h k y hk hbefore
          refine h (k + 1) y hk ?_
          intro z hz
          rcases List.mem_cons.mp hz with rfl | hz
          · exact hx
          · exact hbefore z hz

/-- A search ends at the first element that has a result, if all of these have the same. -/
theorem findSomeM?_of_forall {f : α → Except ε (Option β)} {b : β} {xs : List α}
    (hall : ∀ x ∈ xs, f x = .ok none ∨ f x = .ok (some b)) (hsome : ∃ x ∈ xs, f x = .ok (some b)) :
    xs.findSomeM? f = .ok (some b) := by
  induction xs with
  | nil => simp at hsome
  | cons x xs ih =>
    rcases hall x List.mem_cons_self with hx | hx
    · -- nothing here: the result is further on
      have hrest : ∃ y ∈ xs, f y = .ok (some b) := by
        obtain ⟨y, hy, hfy⟩ := hsome
        rcases List.mem_cons.mp hy with rfl | hy
        · rw [hx] at hfy
          cases hfy
        · exact ⟨y, hy, hfy⟩
      simp only [List.findSomeM?, hx, bind, Except.bind]
      exact ih (fun y hy => hall y (List.mem_cons_of_mem x hy)) hrest
    · simp [List.findSomeM?, hx, bind, Except.bind, pure, Except.pure]

end Fallible
