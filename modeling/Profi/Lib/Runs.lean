import Mathlib

/-!
# Runs of a Labelled Step Function

A system is a total step function `step : S → E → S`. A run is the fold of a list of
events. Assumptions about a run ("no call is nested", "no map is full") constrain each
event in the state it fires in; `Along step P s es` says that every event of the run meets
`P` in the state before it.

`run_invariant` is the induction every safety result goes through: an invariant that each
permitted step preserves holds in the state a permitted run reaches. Every prefix of a
permitted run is permitted (`Along.take`), so "in every state reached" needs no separate
notion. `accrued` sums what the events of a run contribute, for quantities that a run moves
and no state records.
-/

namespace Runs

variable {S E : Type*} (step : S → E → S)

/-- The state reached from `s` by the events `es`. -/
def run (s : S) (es : List E) : S := es.foldl step s

/-- Every event of the run meets `P` in the state before it. -/
def Along (P : S → E → Prop) : S → List E → Prop
  | _, [] => True
  | s, e :: es => P s e ∧ Along P (step s e) es

instance Along.decidable (P : S → E → Prop) [∀ s e, Decidable (P s e)] :
    ∀ (s : S) (es : List E), Decidable (Along step P s es)
  | _, [] => inferInstanceAs (Decidable True)
  | s, e :: es =>
    have : Decidable (Along step P (step s e) es) := Along.decidable P (step s e) es
    inferInstanceAs (Decidable (_ ∧ _))

@[simp] theorem run_nil (s : S) : run step s [] = s := rfl

@[simp] theorem run_cons (s : S) (e : E) (es : List E) :
    run step s (e :: es) = run step (step s e) es := rfl

theorem run_append (s : S) (es fs : List E) :
    run step s (es ++ fs) = run step (run step s es) fs :=
  List.foldl_append

theorem run_concat (s : S) (es : List E) (e : E) :
    run step s (es ++ [e]) = step (run step s es) e := by
  rw [run_append]
  rfl

variable {step}

@[simp] theorem along_nil (P : S → E → Prop) (s : S) : Along step P s [] := trivial

variable {s : S} {P : S → E → Prop} {T : Type*} {step' : T → E → T} {I : S → Prop} {f : T → S}
  {O : Type*}

@[simp] theorem along_cons {s : S} {e : E} {es : List E} :
    Along step P s (e :: es) ↔ P s e ∧ Along step P (step s e) es := Iff.rfl

theorem along_append {s : S} {es fs : List E} :
    Along step P s (es ++ fs) ↔ Along step P s es ∧ Along step P (run step s es) fs := by
  induction es generalizing s with
  | nil => simp
  | cons e es ih => simp [ih, and_assoc]

/-- An event that changes nothing may come any number of times. -/
theorem run_replicate_of_fixed {e : E} (h : step s e = s) (n : ℕ) :
    run step s (List.replicate n e) = s := by
  induction n with
  | zero => rfl
  | succ n ih => rw [List.replicate_succ, run_cons, h, ih]

theorem Along.mono {P Q : S → E → Prop} (hPQ : ∀ s e, P s e → Q s e) {es : List E}
    (h : Along step P s es) : Along step Q s es := by
  induction es generalizing s with
  | nil => trivial
  | cons e es ih => exact ⟨hPQ s e h.1, ih h.2⟩

theorem Along.and {P Q : S → E → Prop} {es : List E} (hP : Along step P s es)
    (hQ : Along step Q s es) : Along step (fun s e => P s e ∧ Q s e) s es := by
  induction es generalizing s with
  | nil => trivial
  | cons e es ih => exact ⟨⟨hP.1, hQ.1⟩, ih hP.2 hQ.2⟩

/-- A system that carries more state runs the same way underneath. -/
theorem run_map (hf : ∀ t e, f (step' t e) = step (f t) e) (t : T) (es : List E) :
    f (run step' t es) = run step (f t) es := by
  induction es generalizing t with
  | nil => rfl
  | cons e es ih => rw [run_cons, run_cons, ih, hf]

theorem Along.map (hf : ∀ t e, f (step' t e) = step (f t) e) {P' : T → E → Prop} {P : S → E → Prop}
    (hP : ∀ t e, P' t e → P (f t) e) {t : T} {es : List E} (h : Along step' P' t es) :
    Along step P (f t) es := by
  induction es generalizing t with
  | nil => trivial
  | cons e es ih =>
    refine ⟨hP t e h.1, ?_⟩
    rw [← hf]
    exact ih h.2

theorem along_of_forall {P : E → Prop} {es : List E} (h : ∀ e ∈ es, P e) (s : S) :
    Along step (fun _ e => P e) s es := by
  induction es generalizing s with
  | nil => trivial
  | cons e es ih =>
    exact ⟨h e List.mem_cons_self, ih (fun e' he' => h e' (List.mem_cons_of_mem e he')) _⟩

theorem along_true (step : S → E → S) (s : S) (es : List E) :
    Along step (fun _ _ => True) s es := by
  induction es generalizing s with
  | nil => trivial
  | cons e es ih => exact ⟨trivial, ih _⟩

theorem Along.take {s : S} {es : List E} (h : Along step P s es) (k : ℕ) :
    Along step P s (es.take k) := by
  rw [← List.take_append_drop k es, along_append] at h
  exact h.1

/-- An invariant preserved by every permitted step holds after a permitted run. -/
theorem run_invariant (hstep : ∀ s e, I s → P s e → I (step s e)) {s : S} {es : List E}
    (hinit : I s) (h : Along step P s es) : I (run step s es) := by
  induction es generalizing s with
  | nil => exact hinit
  | cons e es ih => exact ih (hstep s e hinit h.1) h.2

/-- An invariant that also looks at the events so far: if every permitted step keeps it, it
    holds of the whole run and the state it reaches. -/
theorem run_invariant_history {I : List E → S → Prop}
    (hstep : ∀ es s e, I es s → P s e → I (es ++ [e]) (step s e)) {s : S} {es : List E}
    (hinit : I [] s) (h : Along step P s es) : I es (run step s es) := by
  -- the induction is on what is still to come, for any past
  suffices hpast : ∀ past s, I past s → Along step P s es → I (past ++ es) (run step s es) by
    exact hpast [] s hinit h
  clear h hinit s
  induction es with
  | nil =>
    intro past s hpast _
    simpa using hpast
  | cons e es ih =>
    intro past s hpast h
    simpa using ih (past ++ [e]) (step s e) (hstep past s e hpast h.1) h.2

/-- Two systems that stay related under every permitted event are related after a run of the
    same events. -/
theorem run_lockstep {P : S → E → Prop} {R : S → T → Prop}
    (hstep : ∀ s t e, R s t → P s e → R (step s e) (step' t e)) {s : S} {t : T} {es : List E}
    (hinit : R s t) (h : Along step P s es) : R (run step s es) (run step' t es) := by
  induction es generalizing s t with
  | nil => exact hinit
  | cons e es ih => exact ih (hstep s t e hinit h.1) h.2

/-- Every event of a permitted run fires in a state that satisfies the invariant. -/
theorem Along.and_invariant (hstep : ∀ s e, I s → P s e → I (step s e)) {s : S} {es : List E}
    (hinit : I s) (h : Along step P s es) : Along step (fun s e => P s e ∧ I s) s es := by
  induction es generalizing s with
  | nil => trivial
  | cons e es ih => exact ⟨⟨h.1, hinit⟩, ih (hstep s e hinit h.1) h.2⟩

/-- If a permitted step from a state with `I` shows by `J` whether it meets `Q`, and keeps `I` if it
    does, then `J` holds in all states of a permitted run exactly if all its events meet `Q`. -/
theorem forall_take_iff_along_of_shows {P Q : S → E → Prop} {I J : S → Prop} (hJ : ∀ s, I s → J s)
    (hshows : ∀ s e, I s → P s e → (J (step s e) ↔ Q s e))
    (hI : ∀ s e, I s → P s e → Q s e → I (step s e)) {es : List E} (hinit : I s)
    (h : Along step P s es) : (∀ n, J (run step s (es.take n))) ↔ Along step Q s es := by
  induction es generalizing s with
  | nil => simpa using hJ s hinit
  | cons e es ih =>
    constructor
    · intro hall
      have hnext : J (step s e) := by simpa using hall 1
      have hhead := (hshows s e hinit h.1).mp hnext
      refine ⟨hhead, (ih (hI s e hinit h.1 hhead) h.2).mp fun n => ?_⟩
      simpa using hall (n + 1)
    · rintro ⟨hhead, htail⟩ n
      cases n with
      | zero => exact hJ s hinit
      | succ n => simpa using (ih (hI s e hinit h.1 hhead) h.2).mpr htail n

/-- If a permitted step keeps `J` exactly when it meets `Q`, then `J` holds in all states of a
    permitted run exactly if all its events meet `Q`. -/
theorem forall_take_iff_along {P Q : S → E → Prop} {I J : S → Prop}
    (hI : ∀ s e, I s → P s e → I (step s e))
    (hJ : ∀ s e, I s → P s e → J s → (J (step s e) ↔ Q s e)) {es : List E} (hinit : I s)
    (hstart : J s) (h : Along step P s es) :
    (∀ n, J (run step s (es.take n))) ↔ Along step Q s es :=
  forall_take_iff_along_of_shows (I := fun s => I s ∧ J s) (fun _ hs => hs.2)
    (fun s e hs he => hJ s e hs.1 he hs.2)
    (fun s e hs he hq => ⟨hI s e hs.1 he, (hJ s e hs.1 he hs.2).mpr hq⟩) ⟨hinit, hstart⟩ h

/-- Two systems that take the same events side by side. -/
def both (step : S → E → S) (step' : T → E → T) (x : S × T) (e : E) : S × T :=
  (step x.1 e, step' x.2 e)

theorem run_both (step : S → E → S) (step' : T → E → T) (s : S) (t : T) (es : List E) :
    run (both step step') (s, t) es = (run step s es, run step' t es) := by
  induction es generalizing s t with
  | nil => rfl
  | cons e es ih => exact ih (step s e) (step' t e)

theorem along_both {P : S → E → Prop} {Q : T → E → Prop} {s : S} {t : T} {es : List E} :
    Along (both step step') (fun x e => P x.1 e ∧ Q x.2 e) (s, t) es ↔
      Along step P s es ∧ Along step' Q t es := by
  induction es generalizing s t with
  | nil => simp
  | cons e es ih =>
    rw [along_cons, along_cons, along_cons, and_and_and_comm]
    exact and_congr_right fun _ => ih

/-- A system that carries more state meets `Q'` along a run exactly if the system underneath
    meets `Q`, when the two agree on permitted events in states that satisfy the invariant. -/
theorem along_iff_of_map (hf : ∀ t e, f (step' t e) = step (f t) e) {P Q : S → E → Prop}
    {Q' : T → E → Prop} {I : T → Prop} (hQ : ∀ t e, I t → P (f t) e → (Q (f t) e ↔ Q' t e))
    (hI : ∀ t e, I t → P (f t) e → Q (f t) e → I (step' t e)) {t : T} {es : List E} (hinit : I t)
    (h : Along step P (f t) es) : Along step Q (f t) es ↔ Along step' Q' t es := by
  induction es generalizing t with
  | nil => simp
  | cons e es ih =>
    have htail : Along step P (f (step' t e)) es := by
      rw [hf]
      exact h.2
    rw [along_cons, along_cons, ← hf]
    constructor
    · rintro ⟨hhead, hrest⟩
      exact ⟨(hQ t e hinit h.1).mp hhead, (ih (hI t e hinit h.1 hhead) htail).mp hrest⟩
    · rintro ⟨hhead, hrest⟩
      have hhead := (hQ t e hinit h.1).mpr hhead
      exact ⟨hhead, (ih (hI t e hinit h.1 hhead) htail).mpr hrest⟩

/-- Two conditions that agree on permitted events in states that satisfy the invariant agree along
    permitted runs. -/
theorem along_iff_of_invariant {P Q Q' : S → E → Prop} (hI : ∀ s e, I s → P s e → I (step s e))
    (hQ : ∀ s e, I s → P s e → (Q s e ↔ Q' s e)) {s : S} {es : List E} (hinit : I s)
    (h : Along step P s es) : Along step Q s es ↔ Along step Q' s es := by
  induction es generalizing s with
  | nil => rfl
  | cons e es ih => exact and_congr (hQ s e hinit h.1) (ih (hI s e hinit h.1) h.2)

/-! ## Amounts accrued along a run -/

section Accrued

variable {W : Type*} [AddCommMonoid W]

/-- The sum of what each event of the run contributes in the state before it. -/
def accrued (step : S → E → S) (w : S → E → W) : S → List E → W
  | _, [] => 0
  | s, e :: es => w s e + accrued step w (step s e) es

/-- A quantity that every permitted step moves by `w` has moved by the accrued amount at the
    end of the run. -/
theorem run_eq_add_accrued {P : S → E → Prop} {I : S → Prop} {f : S → W} {w : S → E → W}
    (hI : ∀ s e, I s → P s e → I (step s e))
    (hstep : ∀ s e, I s → P s e → f (step s e) = f s + w s e)
    {s : S} {es : List E} (hinit : I s) (h : Along step P s es) :
    f (run step s es) = f s + accrued step w s es := by
  induction es generalizing s with
  | nil => simp [accrued]
  | cons e es ih =>
    rw [run_cons, ih (hI s e hinit h.1) h.2, hstep s e hinit h.1, accrued, add_assoc]

/-- Nothing accrues in a run whose events contribute nothing. -/
theorem accrued_eq_zero {P : S → E → Prop} {I : S → Prop} {w : S → E → W}
    (hI : ∀ s e, I s → P s e → I (step s e)) (hw : ∀ s e, I s → P s e → w s e = 0)
    {s : S} {es : List E} (hinit : I s) (h : Along step P s es) :
    accrued step w s es = 0 := by
  induction es generalizing s with
  | nil => rfl
  | cons e es ih => rw [accrued, hw s e hinit h.1, ih (hI s e hinit h.1) h.2, add_zero]

end Accrued

/-! ## Observations along a run -/

/-- What the events of the run show in the states before them, in order. -/
def observed {O : Type*} (step : S → E → S) (obs : S → E → List O) : S → List E → List O
  | _, [] => []
  | s, e :: es => obs s e ++ observed step obs (step s e) es

theorem observed_concat (obs : S → E → List O) (s : S) (es : List E) (e : E) :
    observed step obs s (es ++ [e]) = observed step obs s es ++ obs (run step s es) e := by
  induction es generalizing s with
  | nil => simp [observed]
  | cons e' es ih => simp [observed, ih]

/-- Events that show nothing make no observation. -/
theorem observed_eq_nil {obs : S → E → List O} {P : S → E → Prop}
    (hobs : ∀ s e, P s e → obs s e = []) {s : S} {es : List E} (h : Along step P s es) :
    observed step obs s es = [] := by
  induction es generalizing s with
  | nil => rfl
  | cons e es ih => rw [observed, hobs s e h.1, ih h.2, List.append_nil]

/-- Every observation is made at one of the events. -/
theorem exists_of_mem_observed {obs : S → E → List O} {o : O} {s : S} {es : List E}
    (h : o ∈ observed step obs s es) : ∃ s', ∃ e ∈ es, o ∈ obs s' e := by
  induction es generalizing s with
  | nil => simp [observed] at h
  | cons e es ih =>
    rw [observed, List.mem_append] at h
    rcases h with hhead | htail
    · exact ⟨s, e, List.mem_cons_self, hhead⟩
    · obtain ⟨s', e', he', ho⟩ := ih htail
      exact ⟨s', e', List.mem_cons_of_mem e he', ho⟩

/-- An invariant preserved by every step holds after every run. -/
theorem run_invariant_of_step (hstep : ∀ s e, I s → I (step s e)) {s : S} (hinit : I s)
    (es : List E) : I (run step s es) := by
  induction es generalizing s with
  | nil => exact hinit
  | cons e es ih => exact ih (hstep s e hinit)

/-- What no step changes is the same after every run. -/
theorem foldl_frame {α : Type*} (f : S → α) (step : S → E → S)
    (hstep : ∀ s e, f (step s e) = f s) (es : List E) (s : S) : f (es.foldl step s) = f s :=
  run_invariant_of_step (I := fun s' => f s' = f s) (fun s' e h => (hstep s' e).trans h) rfl es

/-- What holds after a fold held before it, or one of its elements has brought it about. -/
theorem foldl_origin {Q : E → Prop} (hstep : ∀ s e, I (step s e) → I s ∨ Q e) {s : S} {es : List E}
    (h : I (es.foldl step s)) : I s ∨ ∃ e ∈ es, Q e := by
  induction es generalizing s with
  | nil => exact .inl h
  | cons e es ih =>
    rcases ih h with hs | ⟨e', he', hq⟩
    · exact (hstep s e hs).imp_right fun hq => ⟨e, List.mem_cons_self, hq⟩
    · exact .inr ⟨e', List.mem_cons_of_mem e he', hq⟩

/-- What one element of a fold brings about and no element undoes holds after it. -/
theorem foldl_reached {Q : E → Prop} (hstep : ∀ s e, Q e ∨ I s → I (step s e)) {s : S} {es : List E}
    (h : (∃ e ∈ es, Q e) ∨ I s) : I (es.foldl step s) := by
  induction es generalizing s with
  | nil => exact h.resolve_left (by simp)
  | cons e es ih =>
    apply ih
    rcases h with ⟨e', he', hq⟩ | hs
    · rcases List.mem_cons.mp he' with rfl | hmem
      · exact .inr (hstep s e' (.inl hq))
      · exact .inl ⟨e', hmem, hq⟩
    · exact .inr (hstep s e (.inr hs))

/-- Where each element takes away what stands under it, a fold takes away what stands under any
    of its elements. -/
theorem lookup_foldl_eq_ite {K V : Type*} [DecidableEq E] (look : S → K → Option V) (under : K → E)
    (hstep : ∀ s e k, look (step s e) k = if under k = e then none else look s k) (es : List E)
    (s : S) (k : K) : look (es.foldl step s) k = if under k ∈ es then none else look s k := by
  induction es generalizing s with
  | nil => simp
  | cons e es ih =>
    rw [List.foldl_cons, ih, hstep]
    by_cases hmem : under k ∈ es <;> simp [hmem]

end Runs
