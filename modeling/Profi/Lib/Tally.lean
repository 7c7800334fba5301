import Profi.Lib.FinMap

/-!
# Tallies and Running Maxima

Counting occurrences in a map, and picking the entry that ranks highest by a scan.

- `tally`: each listed key once, with the number of times it is listed
- `maxBy`: the last of the elements that rank highest; with an injective rank there is only one,
  and the order of the scan does not matter (`maxBy_eq_some_iff`)
-/

namespace Tally

section Count

variable {K : Type} [DecidableEq K]

/-- One more occurrence. -/
def bump (m : FinMap K ℕ) (k : K) : FinMap K ℕ := m.insert k ((m.lookup k).getD 0 + 1)

def tally (ks : List K) : FinMap K ℕ := ks.foldl bump ∅

theorem lookup_foldl_bump (ks : List K) (m : FinMap K ℕ) (k : K) :
    (ks.foldl bump m).lookup k =
      if k ∈ ks then some ((m.lookup k).getD 0 + ks.count k) else m.lookup k := by
  induction ks generalizing m with
  | nil => simp
  | cons k' ks ih =>
    rw [List.foldl_cons, ih, bump, FinMap.lookup_insert_eq_ite]
    by_cases hk : k = k'
    · subst hk
      by_cases hmem : k ∈ ks
      · simp [hmem, add_assoc, add_comm]
      · simp [hmem, List.count_eq_zero_of_not_mem hmem]
    · have hk' : ¬k' = k := fun h => hk h.symm
      simp [hk, hk']

theorem lookup_tally (ks : List K) (k : K) :
    (tally ks).lookup k = if k ∈ ks then some (ks.count k) else none := by
  rw [tally, lookup_foldl_bump]
  simp

end Count

section Max

variable {α β : Type} [LinearOrder β] (rank : α → β)

/-- `Iterator::max_by` with the comparison of ranks: an element replaces the best one so far unless
    it ranks lower. -/
def maxBy : List α → Option α
  | [] => none
  | a :: as => some (as.foldl (fun best x => if rank x < rank best then best else x) a)

theorem foldl_max_mem (as : List α) (a : α) :
    as.foldl (fun best x => if rank x < rank best then best else x) a ∈ a :: as := by
  induction as generalizing a with
  | nil => exact List.mem_cons_self
  | cons x as ih =>
    rw [List.foldl_cons]
    split
    · rcases List.mem_cons.mp (ih a) with h | h
      · rw [h]
        exact List.mem_cons_self
      · exact List.mem_cons_of_mem _ (List.mem_cons_of_mem _ h)
    · exact List.mem_cons_of_mem _ (ih x)

theorem le_foldl_max (as : List α) (a : α) :
    ∀ b ∈ a :: as, rank b ≤
      rank (as.foldl (fun best x => if rank x < rank best then best else x) a) := by
  induction as generalizing a with
  | nil =>
    intro b hb
    rw [List.mem_singleton.mp hb]
    rfl
  | cons x as ih =>
    intro b hb
    rw [List.foldl_cons]
    -- what is kept ranks at least as high as both
    split
    next hlt =>
      rcases List.mem_cons.mp hb with rfl | hb
      · exact ih b b List.mem_cons_self
      · rcases List.mem_cons.mp hb with rfl | hb
        · exact le_trans hlt.le (ih a a List.mem_cons_self)
        · exact ih a b (List.mem_cons_of_mem a hb)
    next hle =>
      rcases List.mem_cons.mp hb with rfl | hb
      · exact le_trans (not_lt.mp hle) (ih x x List.mem_cons_self)
      · exact ih x b hb

variable {rank}

/-- Where no two elements have the same rank, the scan finds the one that ranks highest. -/
theorem maxBy_eq_some_iff {as : List α} (hinj : ∀ a ∈ as, ∀ b ∈ as, rank a = rank b → a = b)
    {a : α} : maxBy rank as = some a ↔ a ∈ as ∧ ∀ b ∈ as, rank b ≤ rank a := by
  cases as with
  | nil => simp [maxBy]
  | cons x as =>
    have hmem := foldl_max_mem rank as x
    have hle := le_foldl_max rank as x
    simp only [maxBy, Option.some.injEq]
    constructor
    · rintro rfl
      exact ⟨hmem, hle⟩
    · rintro ⟨ha, hmax⟩
      exact hinj _ hmem a ha (le_antisymm (hmax _ hmem) (hle a ha))

end Max

end Tally
