import Profi.Lib.FinMap

/-!
# Labelled Metric Vectors

A metric vector keeps one child metric per label tuple. Asking for a tuple returns its
child, creating it on first use. A caller may hold on to a child: the child outlives the
removal of its tuple from the vector, and increments made through the held reference then
go to a metric that is no longer exported. Children are therefore numbered and never
forgotten; `series` is the exported part.

- `value labels`: the exported value of a tuple
- `total p`: all increments ever made to children whose labels satisfy `p`, exported or not
-/

/-- A vector of metrics of type `α`, keyed by label values. -/
structure MetricVec (α : Type) where
  children : List (List String × α)
  series : FinMap (List String) ℕ
  /-- An exported tuple points at a child carrying these labels. -/
  wf : ∀ labels i, series.lookup labels = some i → (children[i]?).map Prod.fst = some labels

namespace MetricVec

variable {α : Type}

/-! ## Operations -/

def empty : MetricVec α := ⟨[], ∅, by simp⟩

/-- The labels of a child. -/
def labelsOf (m : MetricVec α) (i : ℕ) : Option (List String) := (m.children[i]?).map Prod.fst

/-- The exported value of a label tuple. -/
def value (m : MetricVec α) (labels : List String) : Option α :=
  (m.series.lookup labels).bind fun i => (m.children[i]?).map Prod.snd

variable (m : MetricVec α) (x : α) {i : ℕ} {name v : String}

/-- Creating a child keeps every tuple pointing at its own child. -/
private theorem wf_create (labels : List String) :
    ∀ l i, (m.series.insert labels m.children.length).lookup l = some i →
      ((m.children ++ [(labels, x)])[i]?).map Prod.fst = some l := by
  intro l i h
  by_cases hl : l = labels
  · subst hl
    rw [AList.lookup_insert] at h
    cases h
    simp
  · rw [AList.lookup_insert_ne hl] at h
    have hi := m.wf l i h
    have hlt : i < m.children.length := by
      by_contra hge
      rw [List.getElem?_eq_none (by omega)] at hi
      simp at hi
    rw [List.getElem?_append_left hlt]
    exact hi

/-- The child of a label tuple, created with value `x` when the tuple is new. -/
def withLabelValues (m : MetricVec α) (x : α) (labels : List String) : ℕ × MetricVec α :=
  match m.series.lookup labels with
  | some i => (i, m)
  | none =>
    (m.children.length,
      { children := m.children ++ [(labels, x)]
        series := m.series.insert labels m.children.length
        wf := wf_create m x labels })

/-- Change the value of child `i`. -/
def modify (m : MetricVec α) (i : ℕ) (f : α → α) : MetricVec α where
  children := m.children.modify i fun c => (c.1, f c.2)
  series := m.series
  wf := by
    intro labels j h
    have hj := m.wf labels j h
    rw [List.getElem?_modify]
    cases hc : m.children[j]? with
    | none => simp [hc] at hj
    | some c =>
      rw [hc] at hj
      simp only [Option.map_some, Option.some.injEq] at hj
      by_cases hij : i = j <;> simp [hij, hj]

/-- `with_label_values(labels)` followed by an update of that child. -/
def modifyAt (m : MetricVec α) (x : α) (labels : List String) (f : α → α) : MetricVec α :=
  let (i, m) := m.withLabelValues x labels
  m.modify i f

/-- `remove_label_values`. -/
def removeLabelValues (m : MetricVec α) (labels : List String) : MetricVec α where
  children := m.children
  series := m.series.erase labels
  wf := by
    intro l i h
    by_cases hl : l = labels
    · subst hl
      rw [AList.lookup_erase] at h
      cases h
    · rw [AList.lookup_erase_ne hl] at h
      exact m.wf l i h

/-- Exported are the tuples that have a child. -/
theorem value_eq_none_iff {m : MetricVec α} {labels : List String} :
    m.value labels = none ↔ m.series.lookup labels = none := by
  unfold value
  cases h : m.series.lookup labels with
  | none => simp
  | some i =>
    have hi := m.wf labels i h
    cases hc : m.children[i]? with
    | none => simp [hc] at hi
    | some c => simp [hc]

/-- A tuple that points at the same child of the same children has the same value. -/
theorem value_congr {m m' : MetricVec α} {labels : List String}
    (hseries : m'.series.lookup labels = m.series.lookup labels)
    (hchildren : m'.children = m.children) : m'.value labels = m.value labels := by
  rw [value, value, hseries, hchildren]

/-! ## Labels of children are stable -/

theorem labelsOf_withLabelValues_self (labels : List String) :
    (m.withLabelValues x labels).2.labelsOf (m.withLabelValues x labels).1 = some labels := by
  unfold withLabelValues
  cases h : m.series.lookup labels with
  | some i => exact m.wf labels i h
  | none => simp [labelsOf]

theorem labelsOf_withLabelValues {m : MetricVec α} {l : List String} (h : m.labelsOf i = some l)
    (x : α) (labels : List String) : (m.withLabelValues x labels).2.labelsOf i = some l := by
  unfold withLabelValues
  cases m.series.lookup labels with
  | some i => exact h
  | none =>
    have hlt : i < m.children.length := by
      by_contra hge
      rw [labelsOf, List.getElem?_eq_none (by omega)] at h
      simp at h
    simp only [labelsOf]
    rw [List.getElem?_append_left hlt]
    exact h

@[simp] theorem labelsOf_modify (i j : ℕ) (f : α → α) :
    (m.modify i f).labelsOf j = m.labelsOf j := by
  simp only [labelsOf, modify, List.getElem?_modify]
  cases m.children[j]? with
  | none => rfl
  | some c => by_cases h : i = j <;> simp [h]

/-! ## Exported values -/

theorem value_withLabelValues (labels l : List String) :
    (m.withLabelValues x labels).2.value l =
      if l = labels then some ((m.value labels).getD x) else m.value l := by
  unfold withLabelValues
  cases h : m.series.lookup labels with
  | some i =>
    by_cases hl : l = labels
    · subst hl
      have hi := m.wf l i h
      cases hc : m.children[i]? with
      | none => simp [hc] at hi
      | some c => simp [value, h, hc]
    · simp [hl]
  | none =>
    by_cases hl : l = labels
    · subst hl
      simp [value, h]
    · simp only [value, hl, ↓reduceIte, AList.lookup_insert_ne hl]
      cases hs : m.series.lookup l with
      | none => rfl
      | some i =>
        -- the new child is appended, so older indices read what they read before
        have hi := m.wf l i hs
        have hlt : i < m.children.length := by
          by_contra hge
          rw [List.getElem?_eq_none (by omega)] at hi
          simp at hi
        simp [List.getElem?_append_left hlt]

theorem value_modify {m : MetricVec α} {labels : List String} (hi : m.series.lookup labels = some i)
    (f : α → α) (l : List String) :
    (m.modify i f).value l = if l = labels then (m.value labels).map f else m.value l := by
  have hlabels := m.wf labels i hi
  simp only [value, modify, List.getElem?_modify]
  by_cases hl : l = labels
  · subst hl
    simp only [hi, Option.bind_some, ↓reduceIte]
    cases m.children[i]? <;> simp
  · simp only [hl, ↓reduceIte]
    cases hs : m.series.lookup l with
    | none => rfl
    | some j =>
      have hj := m.wf l j hs
      have hij : i ≠ j := by
        rintro rfl
        exact hl (Option.some.inj (hj.symm.trans hlabels))
      simp only [Option.bind_some, hij, ↓reduceIte]
      cases m.children[j]? <;> rfl

theorem lookup_withLabelValues_self (labels : List String) :
    (m.withLabelValues x labels).2.series.lookup labels =
      some (m.withLabelValues x labels).1 := by
  unfold withLabelValues
  cases h : m.series.lookup labels with
  | some i => simp [h]
  | none => simp

theorem lookup_withLabelValues (labels l : List String) :
    (m.withLabelValues x labels).2.series.lookup l =
      if l = labels then some (m.withLabelValues x labels).1 else m.series.lookup l := by
  by_cases hl : l = labels
  · subst hl
    rw [if_pos rfl, lookup_withLabelValues_self]
  · rw [if_neg hl]
    unfold withLabelValues
    cases m.series.lookup labels with
    | some i => rfl
    | none => exact AList.lookup_insert_ne hl

/-- A tuple that is exported keeps its child. -/
theorem withLabelValues_of_lookup {m : MetricVec α} {labels : List String}
    (h : m.series.lookup labels = some i) (x : α) : m.withLabelValues x labels = (i, m) := by
  unfold withLabelValues
  rw [h]

theorem lookup_removeLabelValues (labels l : List String) :
    (m.removeLabelValues labels).series.lookup l =
      if l = labels then none else m.series.lookup l :=
  FinMap.lookup_erase_eq_ite m.series labels l

/-- Updating through a label tuple changes the value of that tuple only. -/
theorem value_modifyAt (labels : List String) (f : α → α) (l : List String) :
    (m.modifyAt x labels f).value l =
      if l = labels then some (f ((m.value labels).getD x)) else m.value l := by
  unfold modifyAt
  rw [value_modify (lookup_withLabelValues_self m x labels)]
  simp only [value_withLabelValues]
  split <;> rfl

/-- Incrementing series one after the other: each gets one for each time its labels come up. -/
theorem value_foldl_inc {β : Type} (labelsOf : β → List String) (xs : List β) (m : MetricVec ℕ)
    (labels : List String) :
    ((xs.foldl (fun m x => m.modifyAt 0 (labelsOf x) (· + 1)) m).value labels).getD 0 =
      (m.value labels).getD 0 + xs.countP (labelsOf · = labels) := by
  induction xs generalizing m with
  | nil => rfl
  | cons x xs ih =>
    rw [List.foldl_cons, ih, value_modifyAt, List.countP_cons]
    by_cases hlabels : labels = labelsOf x
    · subst hlabels
      simp only [↓reduceIte, Option.getD_some, decide_true]
      omega
    · rw [if_neg hlabels, if_neg (by simpa using Ne.symm hlabels), Nat.add_zero]

/-! ## Label names -/

/-- A series is exported that has the value `v` for the label `name`. -/
def Exports (m : MetricVec α) (names : List String) (name v : String) : Prop :=
  ∃ labels, (m.value labels).isSome ∧ (name, v) ∈ names.zip labels

/-- Updating through a label tuple exports that tuple. -/
theorem exports_modifyAt {m : MetricVec α} {x : α} {labels : List String} {f : α → α}
    {names : List String} :
    (m.modifyAt x labels f).Exports names name v ↔
      m.Exports names name v ∨ (name, v) ∈ names.zip labels := by
  simp only [Exports, value_modifyAt]
  constructor
  · rintro ⟨l, hvalue, hmem⟩
    split at hvalue
    next hl => exact .inr (hl ▸ hmem)
    · exact .inl ⟨l, hvalue, hmem⟩
  · rintro (⟨l, hvalue, hmem⟩ | hmem)
    · refine ⟨l, ?_, hmem⟩
      split
      · rfl
      · exact hvalue
    · exact ⟨labels, by simp, hmem⟩

/-- Updating through one tuple after the other exports all of them. -/
theorem exports_foldl_modifyAt {β : Type} {x : α} {labelsOf : β → List String} {f : β → α → α}
    {names : List String} {m : MetricVec α} {bs : List β} :
    (bs.foldl (fun m b => m.modifyAt x (labelsOf b) (f b)) m).Exports names name v ↔
      m.Exports names name v ∨ ∃ b ∈ bs, (name, v) ∈ names.zip (labelsOf b) := by
  induction bs generalizing m with
  | nil => simp
  | cons b bs ih =>
    rw [List.foldl_cons, ih, exports_modifyAt, or_assoc]
    simp

/-- The value of a label is where its name is. -/
theorem getElem?_idxOf_of_mem_zip {names labels : List String} (hnodup : names.Nodup)
    (h : (name, v) ∈ names.zip labels) : labels[names.idxOf name]? = some v := by
  obtain ⟨i, hi⟩ := List.mem_iff_getElem?.mp h
  obtain ⟨hname, hv⟩ := List.getElem?_zip_eq_some.mp hi
  obtain ⟨hlt, rfl⟩ := List.getElem?_eq_some_iff.mp hname
  rw [hnodup.idxOf_getElem]
  exact hv

/-! ## The exported points -/

/-- The exported label tuples with their values. -/
def points (m : MetricVec α) : List (List String × α) :=
  m.series.entries.filterMap fun e => (m.children[e.2]?).map fun c => (e.1, c.2)

theorem mem_points {m : MetricVec α} {labels : List String} {v : α} :
    (labels, v) ∈ m.points ↔ m.value labels = some v := by
  simp only [points, value, List.mem_filterMap, Option.map_eq_some_iff, Option.bind_eq_some_iff,
    Prod.mk.injEq]
  constructor
  · rintro ⟨⟨l, i⟩, he, c, hc, rfl, rfl⟩
    exact ⟨i, AList.mem_lookup_iff.mpr he, c, hc, rfl⟩
  · rintro ⟨i, hi, c, hc, rfl⟩
    exact ⟨⟨labels, i⟩, AList.mem_lookup_iff.mp hi, c, hc, rfl, rfl⟩

/-! ## Values that only grow -/

section Climbs

variable [Preorder α] {m m' m'' : MetricVec α}

/-- Every child is still there, with its labels and at least its value. -/
def Climbs (m m' : MetricVec α) : Prop :=
  ∀ (i : ℕ) (labels : List String) (v : α), m.children[i]? = some (labels, v) →
    ∃ v' : α, m'.children[i]? = some (labels, v') ∧ v ≤ v'

theorem Climbs.of_children_eq (h : m'.children = m.children) : m.Climbs m' :=
  fun _ _ v hv => ⟨v, h ▸ hv, le_rfl⟩

theorem Climbs.refl (m : MetricVec α) : m.Climbs m := of_children_eq rfl

theorem Climbs.trans (h : m.Climbs m') (h' : m'.Climbs m'') : m.Climbs m'' := by
  intro i labels v hv
  obtain ⟨v', hv', hle⟩ := h i labels v hv
  obtain ⟨v'', hv'', hle'⟩ := h' i labels v' hv'
  exact ⟨v'', hv'', hle.trans hle'⟩

theorem climbs_withLabelValues (m : MetricVec α) (x : α) (labels : List String) :
    m.Climbs (m.withLabelValues x labels).2 := by
  unfold withLabelValues
  split
  · exact .refl m
  · intro i l v hv
    have hlt : i < m.children.length := (List.getElem?_eq_some_iff.mp hv).1
    exact ⟨v, (List.getElem?_append_left hlt).trans hv, le_rfl⟩

theorem climbs_modify (m : MetricVec α) (i : ℕ) {f : α → α} (hf : ∀ v, v ≤ f v) :
    m.Climbs (m.modify i f) := by
  intro j labels v hv
  simp only [modify, List.getElem?_modify, hv]
  split
  · exact ⟨f v, rfl, hf v⟩
  · exact ⟨v, rfl, le_rfl⟩

/-- A tuple that points at the same child has at least the value it had. -/
theorem Climbs.value_le (h : m.Climbs m') {labels : List String} {i : ℕ} {v v' : α}
    (hi : m.series.lookup labels = some i) (hi' : m'.series.lookup labels = some i)
    (hv : m.value labels = some v) (hv' : m'.value labels = some v') : v ≤ v' := by
  simp only [value, hi, hi', Option.bind_some, Option.map_eq_some_iff] at hv hv'
  obtain ⟨⟨l, w⟩, hc, rfl⟩ := hv
  obtain ⟨w', hw', hle⟩ := h i l w hc
  obtain ⟨c', hc', rfl⟩ := hv'
  rw [hw'] at hc'
  cases hc'
  exact hle

end Climbs

/-! ## Families of vectors -/

section Families

variable {F : Type} [DecidableEq F] (vecs : F → MetricVec α) (family : F)

/-- Changing the value of a child changes no series. -/
theorem lookup_update_modify (i : ℕ) (f : α → α) (x : F × List String) :
    (Function.update vecs family ((vecs family).modify i f) x.1).series.lookup x.2 =
      (vecs x.1).series.lookup x.2 := by
  by_cases hfamily : x.1 = family
  · rw [hfamily, Function.update_self]
    rfl
  · rw [Function.update_of_ne hfamily]

theorem lookup_update_withLabelValues (y : α) (labels : List String) (x : F × List String) :
    (Function.update vecs family ((vecs family).withLabelValues y labels).2 x.1).series.lookup x.2 =
      if x = (family, labels) then some ((vecs family).withLabelValues y labels).1
      else (vecs x.1).series.lookup x.2 := by
  obtain ⟨f, l⟩ := x
  by_cases hfamily : f = family
  · subst hfamily
    simp only [Function.update_self, lookup_withLabelValues, Prod.mk.injEq, true_and]
  · rw [Function.update_of_ne hfamily, if_neg fun h => hfamily (congrArg Prod.fst h)]

/-- An exported tuple of any family keeps its child. -/
theorem lookup_update_withLabelValues_of_lookup {x : F × List String} {i : ℕ}
    (h : (vecs x.1).series.lookup x.2 = some i) (y : α) (labels : List String) :
    (Function.update vecs family ((vecs family).withLabelValues y labels).2 x.1).series.lookup x.2 =
      some i := by
  rw [lookup_update_withLabelValues]
  split
  next hx =>
    subst hx
    rw [withLabelValues_of_lookup h]
  · exact h

theorem lookup_update_removeLabelValues (labels : List String) (x : F × List String) :
    (Function.update vecs family ((vecs family).removeLabelValues labels) x.1).series.lookup x.2 =
      if x = (family, labels) then none else (vecs x.1).series.lookup x.2 := by
  obtain ⟨f, l⟩ := x
  by_cases hfamily : f = family
  · subst hfamily
    simp only [Function.update_self, lookup_removeLabelValues, Prod.mk.injEq, true_and]
  · rw [Function.update_of_ne hfamily, if_neg fun h => hfamily (congrArg Prod.fst h)]

theorem children_update_removeLabelValues (labels : List String) (f : F) :
    (Function.update vecs family ((vecs family).removeLabelValues labels) f).children =
      (vecs f).children := by
  by_cases hfamily : f = family
  · subst hfamily
    rw [Function.update_self]
    rfl
  · rw [Function.update_of_ne hfamily]

end Families

/-! ## Increments -/

/-- All increments ever made to children whose labels satisfy `p`. -/
def total (p : List String → Bool) (m : MetricVec ℕ) : ℕ :=
  (m.children.map fun c => if p c.1 then c.2 else 0).sum

@[simp] theorem total_withLabelValues (p : List String → Bool) (m : MetricVec ℕ)
    (labels : List String) : total p (m.withLabelValues 0 labels).2 = total p m := by
  unfold withLabelValues
  cases m.series.lookup labels <;> simp [total]

@[simp] theorem total_removeLabelValues (p : List String → Bool) (m : MetricVec ℕ)
    (labels : List String) : total p (m.removeLabelValues labels) = total p m := rfl

private theorem sum_map_modify {β : Type*} (g : β → ℕ) (f : β → β) (a : β) :
    ∀ (l : List β) (i : ℕ), l[i]? = some a →
      ((l.modify i f).map g).sum + g a = (l.map g).sum + g (f a)
  | [], i, h => by simp at h
  | b :: l, 0, h => by
      simp only [List.getElem?_cons_zero, Option.some.injEq] at h
      subst h
      simp only [List.modify_zero_cons, List.map_cons, List.sum_cons]
      omega
  | b :: l, i + 1, h => by
      have ih := sum_map_modify g f a l i h
      simp only [List.modify_succ_cons, List.map_cons, List.sum_cons]
      omega

/-- An increment counts for the predicates its child's labels satisfy. -/
theorem total_incBy {m : MetricVec ℕ} {labels : List String} (h : m.labelsOf i = some labels)
    (p : List String → Bool) (x : ℕ) :
    total p (m.modify i (· + x)) = total p m + if p labels then x else 0 := by
  unfold labelsOf at h
  cases hc : m.children[i]? with
  | none => simp [hc] at h
  | some c =>
    rw [hc] at h
    simp only [Option.map_some, Option.some.injEq] at h
    have hsum := sum_map_modify (fun c : List String × ℕ => if p c.1 then c.2 else 0)
      (fun c => (c.1, c.2 + x)) c m.children i hc
    simp only [total, modify]
    subst h
    cases hp : p c.1 <;> simp only [hp, ↓reduceIte, Bool.false_eq_true] at hsum ⊢ <;> omega

end MetricVec
