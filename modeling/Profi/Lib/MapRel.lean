import Profi.Lib.PerCpuMap

/-!
# Maps Related Entry by Entry

Two finite maps over different types of keys and values hold the same entries, seen through a
relation `R` of the keys and a relation `S` of the values. If every key stands for one key of the
other side, the map operations keep the relation: what is done at a key on one side is done at its
counterpart on the other.

- `FinMap.Rel`: the relation, with `lookup`, `erase` and `insert`
- `PerCpuMap.Rel`: the same for per-CPU maps, slot by slot
- `KeyOrder.exists_rel`: an order of the keys on one side is an order of the keys on the other
-/

open Relator

/-- Where each element has a counterpart, a list has one. -/
theorem List.exists_forall₂ {α β : Type} {R : α → β → Prop} {bs : List β}
    (h : ∀ b ∈ bs, ∃ a, R a b) : ∃ as, List.Forall₂ R as bs := by
  induction bs with
  | nil => exact ⟨[], .nil⟩
  | cons b bs ih =>
    obtain ⟨a, ha⟩ := h b List.mem_cons_self
    obtain ⟨as, has⟩ := ih fun b' hb' => h b' (List.mem_cons_of_mem b hb')
    exact ⟨a :: as, .cons ha has⟩

/-! ## Finite maps -/

namespace FinMap

variable {K K' V V' : Type}

/-- The maps have the same entries, through `R` and `S`. -/
def Rel (R : K → K' → Prop) (S : V → V' → Prop) (m : FinMap K V) (m' : FinMap K' V') : Prop :=
  List.Forall₂ (fun e e' => R e.1 e'.1 ∧ S e.2 e'.2) m.entries m'.entries

namespace Rel

variable {R : K → K' → Prop} {S : V → V' → Prop} {m : FinMap K V} {m' : FinMap K' V'}

theorem keys (h : Rel R S m m') : List.Forall₂ R m.keys m'.keys := by
  simp only [AList.keys, List.keys]
  rw [List.forall₂_map_left_iff, List.forall₂_map_right_iff]
  exact h.imp fun _ _ he => he.1

theorem size (h : Rel R S m m') : m.size = m'.size := h.keys.length_eq

variable [DecidableEq K] [DecidableEq K']

omit [DecidableEq K] [DecidableEq K'] in
/-- Counterparts are equal together. -/
theorem eq_iff (hR : BiUnique R) {k l : K} {k' l' : K'} (hk : R k k') (hl : R l l') :
    k = l ↔ k' = l' := by
  constructor
  · intro heq
    exact hR.2 hk (heq ▸ hl)
  · intro heq
    exact hR.1 hk (heq ▸ hl)

/-- Related maps answer related keys alike. -/
theorem lookup (hR : BiUnique R) (h : Rel R S m m') {k : K} {k' : K'} (hk : R k k') :
    Option.Rel S (m.lookup k) (m'.lookup k') := by
  obtain ⟨es, hnodup⟩ := m
  obtain ⟨es', hnodup'⟩ := m'
  change List.Forall₂ _ es es' at h
  change Option.Rel S (es.dlookup k) (es'.dlookup k')
  clear hnodup hnodup'
  induction h with
  | nil => exact .none
  | @cons e e' es es' he _ ih =>
    obtain ⟨l, v⟩ := e
    obtain ⟨l', v'⟩ := e'
    by_cases hkl : k = l
    · have hkl' : k' = l' := (eq_iff hR hk he.1).mp hkl
      subst hkl hkl'
      rw [List.dlookup_cons_eq, List.dlookup_cons_eq]
      exact .some he.2
    · have hkl' : k' ≠ l' := fun h' => hkl ((eq_iff hR hk he.1).mpr h')
      rw [List.dlookup_cons_ne _ _ hkl, List.dlookup_cons_ne _ _ hkl']
      exact ih

theorem mem_iff (hR : BiUnique R) (h : Rel R S m m') {k : K} {k' : K'} (hk : R k k') :
    k ∈ m ↔ k' ∈ m' := by
  rw [← AList.lookup_isSome, ← AList.lookup_isSome]
  have hlookup := h.lookup hR hk
  revert hlookup
  cases m.lookup k <;> cases m'.lookup k' <;> simp

theorem erase (hR : BiUnique R) (h : Rel R S m m') {k : K} {k' : K'} (hk : R k k') :
    Rel R S (m.erase k) (m'.erase k') := by
  obtain ⟨es, hnodup⟩ := m
  obtain ⟨es', hnodup'⟩ := m'
  change List.Forall₂ _ es es' at h
  change List.Forall₂ _ (es.kerase k) (es'.kerase k')
  clear hnodup hnodup'
  induction h with
  | nil => exact .nil
  | @cons e e' es es' he hes ih =>
    by_cases hkl : k = e.1
    · have hkl' : k' = e'.1 := (eq_iff hR hk he.1).mp hkl
      rw [List.kerase_cons_eq hkl, List.kerase_cons_eq hkl']
      exact hes
    · have hkl' : k' ≠ e'.1 := fun h' => hkl ((eq_iff hR hk he.1).mpr h')
      rw [List.kerase_cons_ne hkl, List.kerase_cons_ne hkl']
      exact .cons he ih

theorem insert (hR : BiUnique R) (h : Rel R S m m') {k : K} {k' : K'} (hk : R k k') {v : V}
    {v' : V'} (hv : S v v') : Rel R S (m.insert k v) (m'.insert k' v') := by
  unfold Rel
  exact .cons ⟨hk, hv⟩ (h.erase hR hk)

end Rel

/-- A map whose keys and values all have counterparts has one itself. -/
theorem exists_rel {R : K → K' → Prop} {S : V → V' → Prop} (hR : BiUnique R) (m' : FinMap K' V')
    (h : ∀ e ∈ m'.entries, (∃ k, R k e.1) ∧ ∃ v, S v e.2) : ∃ m : FinMap K V, Rel R S m m' := by
  have hcounterpart : ∀ e' ∈ m'.entries, ∃ e : Sigma fun _ : K => V, R e.1 e'.1 ∧ S e.2 e'.2 := by
    intro e' he'
    obtain ⟨⟨k, hk⟩, v, hv⟩ := h e' he'
    exact ⟨⟨k, v⟩, hk, hv⟩
  obtain ⟨es, hes⟩ := List.exists_forall₂ hcounterpart
  -- distinct keys have distinct counterparts
  have hkeys : List.Forall₂ R es.keys m'.entries.keys := by
    simp only [List.keys]
    rw [List.forall₂_map_left_iff, List.forall₂_map_right_iff]
    exact hes.imp fun _ _ he => he.1
  have hnodup : es.NodupKeys := (List.rel_nodup hR hkeys).mpr m'.nodupKeys
  exact ⟨⟨es, hnodup⟩, hes⟩

end FinMap

/-! ## Orders -/

/-- The order that hands out `l` as `out` and other lists as they are. -/
def KeyOrder.only {K : Type} [DecidableEq K] (l out : List K) (h : out.Perm l) : KeyOrder K where
  order l' := if l' = l then out else l'
  perm l' := by
    split
    next heq => exact heq ▸ h
    · exact .refl _

/-- However one side lists its keys, the other side can list theirs in the same order. -/
theorem KeyOrder.exists_rel {K K' : Type} [DecidableEq K'] {R : K → K' → Prop}
    (order : KeyOrder K) {ks : List K} {ks' : List K'} (h : List.Forall₂ R ks ks') :
    ∃ order' : KeyOrder K', List.Forall₂ R (order.order ks) (order'.order ks') := by
  obtain ⟨out, hout, hperm⟩ := List.perm_comp_forall₂ (order.perm ks) h
  refine ⟨.only ks' out hperm, ?_⟩
  simpa only [only, if_pos] using hout

/-! ## Per-CPU maps -/

namespace PerCpuMap

variable {n : ℕ} {K K' V V' : Type}

/-- The maps have the same capacity and the same entries, slot by slot. -/
structure Rel (R : K → K' → Prop) (S : V → V' → Prop) (m : PerCpuMap n K V)
    (m' : PerCpuMap n K' V') : Prop where
  maxEntries : m.maxEntries = m'.maxEntries
  slots : FinMap.Rel R (fun row row' => ∀ cpu, S (row cpu) (row' cpu)) m.slots m'.slots

namespace Rel

variable {R : K → K' → Prop} {S : V → V' → Prop} {m : PerCpuMap n K V} {m' : PerCpuMap n K' V'}
variable [DecidableEq K] [DecidableEq K']

theorem lookupPercpu (hR : BiUnique R) (h : Rel R S m m') {k : K} {k' : K'} (hk : R k k') :
    Option.Rel (List.Forall₂ S) (m.lookupPercpu k) (m'.lookupPercpu k') := by
  unfold PerCpuMap.lookupPercpu
  have hlookup := h.slots.lookup hR hk
  revert hlookup
  generalize m.slots.lookup k = row
  generalize m'.slots.lookup k' = row'
  intro hlookup
  cases hlookup with
  | none => exact .none
  | some hrow =>
    apply Option.Rel.some
    rw [List.forall₂_iff_get]
    refine ⟨by simp, fun i hi hi' => ?_⟩
    simpa using hrow _

theorem delete (hR : BiUnique R) (h : Rel R S m m') {k : K} {k' : K'} (hk : R k k') :
    Rel R S (m.delete k) (m'.delete k') where
  maxEntries := h.maxEntries
  slots := h.slots.erase hR hk

end Rel

/-- A per-CPU map whose keys and values all have counterparts has one itself. -/
theorem exists_rel {R : K → K' → Prop} {S : V → V' → Prop} [DecidableEq K'] (hR : BiUnique R)
    (m' : PerCpuMap n K' V') (hkeys : ∀ k', ∃ k, R k k')
    (h : ∀ k' row', m'.slots.lookup k' = some row' → ∀ cpu, ∃ v, S v (row' cpu)) :
    ∃ m : PerCpuMap n K V, Rel R S m m' := by
  have hentries : ∀ e ∈ m'.slots.entries, (∃ k, R k e.1) ∧
      ∃ row : Fin n → V, ∀ cpu, S (row cpu) (e.2 cpu) := by
    intro e he
    have hlookup : m'.slots.lookup e.1 = some e.2 := AList.mem_lookup_iff.mpr he
    exact ⟨hkeys e.1, Classical.axiomOfChoice (h e.1 e.2 hlookup)⟩
  obtain ⟨slots, hslots⟩ := FinMap.exists_rel
    (S := fun (row : Fin n → V) (row' : Fin n → V') => ∀ cpu, S (row cpu) (row' cpu)) hR m'.slots
    hentries
  exact ⟨⟨m'.maxEntries, slots⟩, rfl, hslots⟩

end PerCpuMap
