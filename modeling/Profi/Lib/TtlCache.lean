import Profi.Lib.FinMap

/-!
# Caches with a Time to Live

A cache that hands out a value until its time to live has passed since the insertion, and that may
drop any value at any time. What it hands out is therefore only known to have been inserted, not
long ago: `Holds` says of each entry where it comes from, and `Holds.get` passes that on.
-/

/-- Values with the time they were inserted at. -/
structure TtlCache (K V : Type) where
  ttl : ℕ
  entries : FinMap K (V × ℕ)

namespace TtlCache

variable {K V : Type}

def empty (K V : Type) (ttl : ℕ) : TtlCache K V := ⟨ttl, ∅⟩

variable [DecidableEq K]

/-- The value of a key, unless it has expired. -/
def get (c : TtlCache K V) (now : ℕ) (k : K) : Option V :=
  (c.entries.lookup k).bind fun e => if now < e.2 + c.ttl then some e.1 else none

def insert (c : TtlCache K V) (now : ℕ) (k : K) (v : V) : TtlCache K V :=
  { c with entries := c.entries.insert k (v, now) }

/-- The cache drops a key, for want of room or because it has expired. -/
def evict (c : TtlCache K V) (k : K) : TtlCache K V := { c with entries := c.entries.erase k }

/-- Every entry is as `P` says of its key, its value and its time. -/
def Holds (P : K → V → ℕ → Prop) (c : TtlCache K V) : Prop :=
  ∀ k v t, c.entries.lookup k = some (v, t) → P k v t

namespace Holds

variable {P Q : K → V → ℕ → Prop} {c : TtlCache K V}

theorem empty (P : K → V → ℕ → Prop) (ttl : ℕ) : (TtlCache.empty K V ttl).Holds P := by
  intro k v t h
  simp [TtlCache.empty] at h

theorem mono (h : c.Holds P) (hPQ : ∀ k v t, P k v t → Q k v t) : c.Holds Q :=
  fun k v t hk => hPQ k v t (h k v t hk)

theorem insert (h : c.Holds P) {now : ℕ} {k : K} {v : V} (hnew : P k v now) :
    (c.insert now k v).Holds P := by
  intro k' v' t h'
  rcases FinMap.lookup_insert_cases h' with ⟨rfl, heq⟩ | ⟨-, hold⟩
  · cases heq
    exact hnew
  · exact h k' v' t hold

theorem evict (h : c.Holds P) (k : K) : (c.evict k).Holds P := by
  intro k' v t h'
  rw [TtlCache.evict, FinMap.lookup_erase_eq_ite] at h'
  split at h'
  · cases h'
  · exact h k' v t h'

/-- What is handed out was inserted within the time to live. -/
theorem get (h : c.Holds P) {now : ℕ} {k : K} {v : V} (hget : c.get now k = some v) :
    ∃ t, P k v t ∧ now < t + c.ttl := by
  obtain ⟨⟨v', t⟩, hlookup, hfresh⟩ := Option.bind_eq_some_iff.mp hget
  simp only [Option.ite_none_right_eq_some, Option.some.injEq] at hfresh
  obtain ⟨hlt, rfl⟩ := hfresh
  exact ⟨t, h k v' t hlookup, hlt⟩

end Holds

end TtlCache
