import Profi.Lib.FinMap
import Profi.Lib.Runs

/-!
# Caches Filled at the First Question

A cache that answers a question about a key from its entry, computes the entry when there is none,
and forgets the entry when told to. The answer may depend on more than the key (`Q`: what the world
was like when the question was asked), so an entry can be old: it is the answer to the first
question since the key was last forgotten (`lookup_run`), and nothing done to other keys matters.
-/

namespace Memo

variable {K Q V : Type}

inductive Op (K Q : Type) where
  | ask (k : K) (q : Q)
  | forget (k : K)

variable [DecidableEq K]

def step (compute : K → Q → V) (m : FinMap K V) : Op K Q → FinMap K V
  | .ask k q =>
    match m.lookup k with
    | some _ => m
    | none => m.insert k (compute k q)
  | .forget k => m.erase k

/-- The question, if one about `k` is asked. -/
def Op.about (k : K) : Op K Q → Option Q
  | .ask k' q => if k' = k then some q else none
  | .forget _ => none

def Op.forgets (k : K) : Op K Q → Bool
  | .ask _ _ => false
  | .forget k' => k' = k

/-- The first question about `k` after it was last forgotten. -/
def firstAsk (k : K) (ops : List (Op K Q)) : Option Q :=
  (ops.rtakeWhile fun op => !op.forgets k).findSome? (Op.about k)

theorem firstAsk_concat (k : K) (ops : List (Op K Q)) (op : Op K Q) :
    firstAsk k (ops ++ [op]) =
      if op.forgets k then none else (firstAsk k ops).or (op.about k) := by
  unfold firstAsk
  cases hop : op.forgets k with
  | true =>
    rw [List.rtakeWhile_concat_neg]
    · rfl
    · simp [hop]
  | false =>
    rw [List.rtakeWhile_concat_pos]
    · simp [List.findSome?_append]
    · simp [hop]

/-- An entry is the answer to the first question since its key was last forgotten. -/
theorem lookup_run (compute : K → Q → V) (ops : List (Op K Q)) (k : K) :
    (Runs.run (step compute) ∅ ops).lookup k = (firstAsk k ops).map (compute k) := by
  induction ops using List.reverseRecOn with
  | nil => simp [firstAsk]
  | append_singleton ops op ih =>
    rw [Runs.run_concat, firstAsk_concat]
    cases op with
    | ask k' q =>
      simp only [step, Op.forgets, Op.about, Bool.false_eq_true, if_false]
      by_cases hk : k' = k
      · subst hk
        -- a second question changes nothing
        cases hfirst : firstAsk k' ops with
        | none =>
          rw [hfirst, Option.map_none] at ih
          simp [ih]
        | some q' =>
          rw [hfirst, Option.map_some] at ih
          simp [ih]
      · have hother : ∀ v, (AList.insert k' v (Runs.run (step compute) ∅ ops)).lookup k =
            (Runs.run (step compute) ∅ ops).lookup k :=
          fun v => AList.lookup_insert_ne fun h => hk h.symm
        simp only [if_neg hk, Option.or_none, ← ih]
        split
        · rfl
        · exact hother _
    | forget k' =>
      simp only [step, Op.forgets, Op.about, Option.or_none, decide_eq_true_eq]
      rw [FinMap.lookup_erase_eq_ite]
      by_cases hk : k' = k
      · simp [hk]
      · have hk' : ¬k = k' := fun h => hk h.symm
        rw [if_neg hk, if_neg hk', ih]

end Memo
