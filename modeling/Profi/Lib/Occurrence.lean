import Mathlib

/-!
# Occurrences of a Word

A search for a word finds its first occurrence. In a text that is put together from parts, with the
word among them, this is the part itself if the word is in no earlier part and cannot begin in one
part and end in another. A separator that the word does not contain keeps parts apart
(`infix_of_separator`); a word that has no border cannot overlap itself (`find?_tails_append`).
-/

namespace Occurrence

variable {α : Type*}

/-- A word without the separator is on one side of it. -/
theorem infix_of_separator {m a b : List α} {c : α} (hc : c ∉ m) (h : m <:+: a ++ c :: b) :
    m <:+: a ∨ m <:+: b := by
  rcases List.infix_append_iff.mp h with h | h | ⟨p, q, rfl, hp, hq⟩
  · exact .inl h
  · rcases List.infix_cons_iff.mp h with h | h
    · cases m with
      | nil => exact .inl (List.nil_infix)
      | cons d m =>
        obtain ⟨rfl, -⟩ := List.cons_prefix_cons.mp h
        exact absurd List.mem_cons_self hc
    · exact .inr h
  · -- the part behind the join would begin with the separator
    cases q with
    | nil =>
      rw [List.append_nil]
      exact .inl hp.isInfix
    | cons d q =>
      obtain ⟨rfl, -⟩ := List.cons_prefix_cons.mp hq
      exact absurd (List.mem_append_right p List.mem_cons_self) hc

/-- No proper end of the word is also a beginning of it. -/
def Unbordered (m : List α) : Prop := ∀ k < m.length, 0 < k → ¬ m.drop k <+: m

instance [DecidableEq α] (m : List α) : Decidable (Unbordered m) :=
  inferInstanceAs (Decidable (∀ k < m.length, 0 < k → ¬ m.drop k <+: m))

/-- A word that begins in a part before it is in that part. -/
theorem infix_of_prefix_append {m pre rest : List α} (hm : Unbordered m) (hpre : pre ≠ [])
    (h : m <+: pre ++ (m ++ rest)) : m <:+: pre := by
  rcases List.prefix_or_prefix_of_prefix h (List.prefix_append pre _) with h' | ⟨q, rfl⟩
  · exact h'.isInfix
  · have hq : q <+: (pre ++ q) ++ rest := (List.prefix_append_right_inj pre).mp h
    cases q with
    | nil =>
      rw [List.append_nil]
    | cons d q =>
      -- the rest of the word would be a border of it
      have hlen : 0 < pre.length := List.length_pos_of_ne_nil hpre
      have hborder : d :: q <+: pre ++ d :: q := by
        apply List.prefix_of_prefix_length_le hq (List.prefix_append _ _)
        rw [List.length_append]
        omega
      refine absurd ?_ (hm pre.length (by simp) hlen)
      rw [List.drop_left]
      exact hborder

/-- The first occurrence behind a part that has none. -/
theorem find?_tails_append [DecidableEq α] {m pre : List α} (hm : Unbordered m)
    (hpre : ¬ m <:+: pre) (rest : List α) :
    (pre ++ (m ++ rest)).tails.find? (fun tail => m.isPrefixOf tail) = some (m ++ rest) := by
  induction pre with
  | nil =>
    have hhead : m.isPrefixOf (m ++ rest) = true := List.isPrefixOf_iff_prefix.mpr ⟨rest, rfl⟩
    cases htext : m ++ rest with
    | nil =>
      rw [htext] at hhead
      exact List.find?_cons_of_pos hhead
    | cons c text =>
      rw [htext] at hhead
      exact List.find?_cons_of_pos hhead
  | cons c pre ih =>
    have hno : ¬ m.isPrefixOf (c :: pre ++ (m ++ rest)) = true := by
      rw [List.isPrefixOf_iff_prefix]
      exact fun h => hpre (infix_of_prefix_append hm (List.cons_ne_nil c pre) h)
    have hrest : ¬ m <:+: pre := fun h => hpre (h.trans (List.suffix_cons c pre).isInfix)
    exact (List.find?_cons_of_neg hno).trans (ih hrest)

theorem find?_tails_eq_none [DecidableEq α] {m text : List α} (h : ¬ m <:+: text) :
    text.tails.find? (fun tail => m.isPrefixOf tail) = none := by
  apply List.find?_eq_none.mpr
  intro tail htail hfound
  have hsuffix := (List.mem_tails tail text).mp htail
  exact h ((List.isPrefixOf_iff_prefix.mp hfound).isInfix.trans hsuffix.isInfix)

end Occurrence
