import Mathlib.Tactic

namespace Runs

variable {σ α : Type*}

/-- Takes the labels in order; `none` as soon as one of them is not enabled. -/
def run (step : σ → α → Option σ) (s : σ) : List α → Option σ
  | [] => some s
  | a :: as => (step s a).bind fun s' => run step s' as

variable {step : σ → α → Option σ}

@[simp] theorem run_nil (s : σ) : run step s [] = some s := rfl

theorem run_cons (s : σ) (a : α) (as : List α) :
    run step s (a :: as) = (step s a).bind fun s' => run step s' as := rfl

theorem run_cons_eq_some {s t : σ} {a : α} {as : List α} :
    run step s (a :: as) = some t ↔ ∃ s', step s a = some s' ∧ run step s' as = some t := by
  rw [run_cons, Option.bind_eq_some_iff]

theorem run_append (s : σ) (as bs : List α) :
    run step s (as ++ bs) = (run step s as).bind fun s' => run step s' bs := by
  induction as generalizing s with
  | nil => rfl
  | cons a as ih =>
    rw [List.cons_append, run_cons, run_cons, Option.bind_assoc]
    congr 1
    funext s'
    exact ih s'

/-- Every prefix of a run is a run, so what holds after every run holds all along it. -/
theorem run_prefix {s t : σ} {as bs : List α} (h : run step s (as ++ bs) = some t) :
    ∃ s', run step s as = some s' ∧ run step s' bs = some t := by
  rwa [run_append, Option.bind_eq_some_iff] at h

def Reachable (step : σ → α → Option σ) (s t : σ) : Prop := ∃ as, run step s as = some t

theorem Reachable.refl (s : σ) : Reachable step s s := ⟨[], rfl⟩

theorem Reachable.tail {s t t' : σ} {a : α} (ht : Reachable step s t) (h : step t a = some t') :
    Reachable step s t' := by
  rcases ht with ⟨as, has⟩
  refine ⟨as ++ [a], ?_⟩
  rw [run_append, has, Option.bind_some]
  exact run_cons_eq_some.2 ⟨t', h, rfl⟩

/-- A condition that does not hold at first and holds in the end came to hold by a step. -/
theorem Reachable.exists_turn {P : σ → Prop} {s t : σ} (h : Reachable step s t) (hs : ¬P s)
    (ht : P t) : ∃ u a v, Reachable step s u ∧ step u a = some v ∧ ¬P u ∧ P v ∧
      Reachable step v t := by
  obtain ⟨as, has⟩ := h
  induction as generalizing s with
  | nil =>
    cases has
    exact absurd ht hs
  | cons a as ih =>
    obtain ⟨s', ha, has⟩ := run_cons_eq_some.1 has
    by_cases hs' : P s'
    · exact ⟨s, a, s', .refl s, ha, hs, hs', as, has⟩
    · obtain ⟨u, b, v, ⟨bs, hbs⟩, hstep, hu, hv, hvt⟩ := ih hs' has
      exact ⟨u, b, v, ⟨a :: bs, run_cons_eq_some.2 ⟨s', ha, hbs⟩⟩, hstep, hu, hv, hvt⟩

def Invariant (step : σ → α → Option σ) (I : σ → Prop) : Prop :=
  ∀ ⦃s a s'⦄, I s → step s a = some s' → I s'

/-- Induction on the labels: an invariant of one step is an invariant of a run. -/
theorem Invariant.run {I : σ → Prop} (hI : Invariant step I) {s t : σ} {as : List α}
    (hs : I s) (h : run step s as = some t) : I t := by
  induction as generalizing s with
  | nil =>
    cases h
    exact hs
  | cons a as ih =>
    rcases run_cons_eq_some.1 h with ⟨s', ha, has⟩
    exact ih (hI hs ha) has

theorem Invariant.reachable {I : σ → Prop} (hI : Invariant step I) {s t : σ}
    (hs : I s) (h : Reachable step s t) : I t := by
  rcases h with ⟨as, has⟩
  exact hI.run hs has

/-- Every step the run takes is taken from a state and with a label that satisfy `P`. -/
def StepsSatisfy (step : σ → α → Option σ) (P : σ → α → Prop) (s : σ) : List α → Prop
  | [] => True
  | a :: as => P s a ∧ ∀ s', step s a = some s' → StepsSatisfy step P s' as

/-- On a concrete run the condition can be evaluated. -/
instance StepsSatisfy.decidable {P : σ → α → Prop} [∀ s a, Decidable (P s a)] (s : σ) :
    (as : List α) → Decidable (StepsSatisfy step P s as)
  | [] => isTrue trivial
  | a :: as =>
    match h : step s a with
    | none => decidable_of_iff (P s a) (by simp [StepsSatisfy, h])
    | some s' =>
      have := StepsSatisfy.decidable (P := P) s' as
      decidable_of_iff (P s a ∧ StepsSatisfy step P s' as) (by simp [StepsSatisfy, h])

theorem StepsSatisfy.and {P Q : σ → α → Prop} {s : σ} {as : List α}
    (hP : StepsSatisfy step P s as) (hQ : StepsSatisfy step Q s as) :
    StepsSatisfy step (fun s a => P s a ∧ Q s a) s as := by
  induction as generalizing s with
  | nil => trivial
  | cons a as ih => exact ⟨⟨hP.1, hQ.1⟩, fun s' hs' => ih (hP.2 s' hs') (hQ.2 s' hs')⟩

/-- A condition on the steps splits where the run does. -/
theorem StepsSatisfy.append {P : σ → α → Prop} {s t : σ} {as bs : List α}
    (h : StepsSatisfy step P s (as ++ bs)) (hrun : run step s as = some t) :
    StepsSatisfy step P s as ∧ StepsSatisfy step P t bs := by
  induction as generalizing s with
  | nil =>
    cases hrun
    exact ⟨trivial, h⟩
  | cons a as ih =>
    rcases run_cons_eq_some.1 hrun with ⟨s', ha, has⟩
    refine ⟨⟨h.1, fun s'' hs'' => ?_⟩, (ih (h.2 s' ha) has).2⟩
    cases ha.symm.trans hs''
    exact (ih (h.2 s' ha) has).1

/-- The run rule for a condition on the steps: `I` is kept by the steps that satisfy `P`. -/
theorem StepsSatisfy.run {P : σ → α → Prop} {I : σ → Prop}
    (hI : ∀ ⦃s a s'⦄, I s → P s a → step s a = some s' → I s') {s t : σ} {as : List α}
    (hP : StepsSatisfy step P s as) (hs : I s) (h : run step s as = some t) : I t := by
  induction as generalizing s with
  | nil =>
    cases h
    exact hs
  | cons a as ih =>
    rcases run_cons_eq_some.1 h with ⟨s', ha, has⟩
    exact ih (hP.2 s' ha) (hI hs hP.1 ha) has

end Runs
