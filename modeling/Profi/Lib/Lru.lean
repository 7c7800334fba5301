import Mathlib

/-!
# Least Recently Used Maps

A map of bounded size. Entries are listed in the order of their last use, and an insertion into a
full map drops the last one. What is in the map is described by membership of its entries
(`lookup_eq_some_iff`); an operation on one key never invents an entry of another
(`lookup_put_of_ne`).
-/

structure Lru (K V : Type) where
  cap : ℕ
  pos : 0 < cap
  entries : List (K × V)
  nodup : (entries.map Prod.fst).Nodup
  bounded : entries.length ≤ cap

namespace Lru

variable {K V : Type}

def new (cap : ℕ) (pos : 0 < cap) : Lru K V where
  cap
  pos
  entries := []
  nodup := List.nodup_nil
  bounded := Nat.zero_le cap

variable [DecidableEq K] (c : Lru K V)

/-- The value of a key, without a use of it. -/
def lookup (k : K) : Option V := (c.entries.find? fun e => e.1 = k).map (·.2)

theorem sublist_without (k : K) : (c.entries.filter fun e => e.1 ≠ k).Sublist c.entries :=
  List.filter_sublist

/-- Remove a key. -/
def pop (k : K) : Lru K V where
  cap := c.cap
  pos := c.pos
  entries := c.entries.filter fun e => e.1 ≠ k
  nodup := c.nodup.sublist ((c.sublist_without k).map Prod.fst)
  bounded := (c.sublist_without k).length_le.trans c.bounded

/-- Insert or replace, as the most recent entry. -/
def put (k : K) (v : V) : Lru K V where
  cap := c.cap
  pos := c.pos
  entries := ((k, v) :: (c.pop k).entries).take c.cap
  nodup := by
    have hfresh : k ∉ (c.pop k).entries.map Prod.fst := by
      simp [pop]
    exact (List.nodup_cons.mpr ⟨hfresh, (c.pop k).nodup⟩).sublist
      ((List.take_sublist c.cap ((k, v) :: (c.pop k).entries)).map Prod.fst)
  bounded := List.length_take_le _ _

/-- The value of a key; a hit makes it the most recent entry. -/
def get (k : K) : Option V × Lru K V :=
  match c.lookup k with
  | some v => (some v, c.put k v)
  | none => (none, c)

variable {c} {k k' : K} {v v' : V}

theorem lookup_eq_some_iff : c.lookup k = some v ↔ (k, v) ∈ c.entries := by
  unfold lookup
  constructor
  · intro h
    obtain ⟨e, he, rfl⟩ := Option.map_eq_some_iff.mp h
    have hk : e.1 = k := by simpa using List.find?_some he
    rw [← hk]
    exact List.mem_of_find?_eq_some he
  · intro h
    obtain ⟨e, he⟩ : ∃ e, c.entries.find? (fun e => e.1 = k) = some e := by
      rw [← Option.isSome_iff_exists, List.find?_isSome]
      exact ⟨(k, v), h, by simp⟩
    -- keys are listed once, so this is the entry
    have hk : e.1 = k := by simpa using List.find?_some he
    have heq : e = (k, v) :=
      List.inj_on_of_nodup_map c.nodup (List.mem_of_find?_eq_some he) h hk
    rw [he, heq]
    rfl

/-- What is found for another key after an insertion was there before. -/
theorem lookup_put_of_ne (hne : k' ≠ k) (h : (c.put k v).lookup k' = some v') :
    c.lookup k' = some v' := by
  rw [lookup_eq_some_iff] at h ⊢
  rcases List.mem_cons.mp (List.mem_of_mem_take h) with heq | hmem
  · exact absurd (Prod.mk.inj heq).1 hne
  · exact List.mem_of_mem_filter hmem

theorem lookup_put_eq_none (hne : k' ≠ k) (h : c.lookup k' = none) :
    (c.put k v).lookup k' = none := by
  cases hput : (c.put k v).lookup k' with
  | none => rfl
  | some v' =>
    rw [lookup_put_of_ne hne hput] at h
    cases h

theorem lookup_pop_eq_none (h : k' = k ∨ c.lookup k' = none) : (c.pop k).lookup k' = none := by
  cases hpop : (c.pop k).lookup k' with
  | none => rfl
  | some v' =>
    obtain ⟨hmem, hk⟩ := List.mem_filter.mp (lookup_eq_some_iff.mp hpop)
    rcases h with rfl | hnone
    · simp at hk
    · rw [lookup_eq_some_iff.mpr hmem] at hnone
      cases hnone

theorem get_fst : (c.get k).1 = c.lookup k := by
  unfold get
  split
  next v hv => exact hv.symm
  next hv => exact hv.symm

/-- A use of one key brings no entry of another. -/
theorem lookup_get_eq_none (h : c.lookup k' = none) : (c.get k).2.lookup k' = none := by
  unfold get
  split
  next v hv =>
    apply lookup_put_eq_none _ h
    rintro rfl
    rw [h] at hv
    cases hv
  · exact h

end Lru
