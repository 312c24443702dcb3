import Mathlib.Tactic

/-! Publication through a slot and a counter. A writer replaces the value in the slot and later
increments the counter; a reader loads the counter and later reads the slot. -/

namespace Publication

/-- What a reader holds: the count and the value of its last refresh, and a count it has loaded
without having read the slot yet. -/
structure Reader (α : Type*) where
  token : Option ℕ := none
  value : Option α := none
  loaded : Option ℕ := none

/-- Readers `ι` and writers `κ` of values `α`. `pending` holds the value a writer has replaced
while its increment is due; `retired` are the replaced values whose writer is done, and `used`
are all the values that were ever written. -/
structure State (ι κ α : Type*) where
  slot : Option α
  count : ℕ
  used : Set α
  retired : Set α
  pending : κ → Option (Option α)
  readers : ι → Reader α

/-- Nothing is published yet. -/
def State.initial (ι κ α : Type*) : State ι κ α := ⟨none, 0, ∅, ∅, fun _ => none, fun _ => {}⟩

variable {ι κ α : Type*} [DecidableEq ι] [DecidableEq κ]

inductive Step : State ι κ α → State ι κ α → Prop
  | load {s : State ι κ α} (i : ι) :
      Step s { s with
        readers := Function.update s.readers i { s.readers i with loaded := some s.count } }
  | read {s : State ι κ α} (i : ι) {c : ℕ} (hloaded : (s.readers i).loaded = some c) :
      Step s { s with readers := Function.update s.readers i ⟨some c, s.slot, none⟩ }
  | forget {s : State ι κ α} (i : ι) :
      Step s { s with readers := Function.update s.readers i {} }
  /-- A writer writes a value that was not used before, or none. -/
  | write {s : State ι κ α} (k : κ) (v : Option α) (hfresh : ∀ a, v = some a → a ∉ s.used) :
      Step s { s with
        slot := v
        used := s.used ∪ {a | v = some a}
        pending := Function.update s.pending k (some s.slot) }
  | publish {s : State ι κ α} (k : κ) {old : Option α} (hpending : s.pending k = some old) :
      Step s { s with
        count := s.count + 1
        retired := s.retired ∪ {a | old = some a}
        pending := Function.update s.pending k none }

/-- What is replaced stays in `pending` or `retired`, and a reader whose count is the latest has
read the slot after the last increment. -/
structure Inv (s : State ι κ α) : Prop where
  token_le : ∀ i c, (s.readers i).token = some c → c ≤ s.count
  loaded_le : ∀ i c, (s.readers i).loaded = some c → c ≤ s.count
  current : ∀ i, (s.readers i).token = some s.count → (∀ k, s.pending k = none) →
    (s.readers i).value = s.slot
  live : ∀ i a, (s.readers i).token = some s.count → (s.readers i).value = some a → a ∉ s.retired
  slot_used : ∀ a, s.slot = some a → a ∈ s.used
  slot_live : ∀ a, s.slot = some a → a ∉ s.retired ∧ ∀ k, s.pending k ≠ some (some a)
  pending_used : ∀ k a, s.pending k = some (some a) → a ∈ s.used
  retired_used : s.retired ⊆ s.used
  value_used : ∀ i a, (s.readers i).value = some a → a ∈ s.used

namespace Inv
variable {s s' : State ι κ α}

omit [DecidableEq κ] in
theorem update_reader (h : Inv s) (i : ι) {r : Reader α}
    (htoken : ∀ c, r.token = some c → c ≤ s.count) (hloaded : ∀ c, r.loaded = some c → c ≤ s.count)
    (hcurrent : r.token = some s.count → (∀ k, s.pending k = none) → r.value = s.slot)
    (hlive : ∀ a, r.token = some s.count → r.value = some a → a ∉ s.retired)
    (hused : ∀ a, r.value = some a → a ∈ s.used) :
    Inv { s with readers := Function.update s.readers i r } := by
  refine { h with token_le := ?_, loaded_le := ?_, current := ?_, live := ?_, value_used := ?_ }
  all_goals
    intro j
    by_cases hj : j = i
    · subst hj
      simpa using ‹_›
    · simp only [Function.update_of_ne hj]
      first
        | exact h.token_le j
        | exact h.loaded_le j
        | exact h.current j
        | exact h.live j
        | exact h.value_used j

omit [DecidableEq ι] in
/-- The reader's side is vacuous while the increment of `k` is due. -/
theorem write (h : Inv s) (k : κ) {v : Option α} (hfresh : ∀ a, v = some a → a ∉ s.used) :
    Inv { s with
      slot := v
      used := s.used ∪ {a | v = some a}
      pending := Function.update s.pending k (some s.slot) } := by
  have hold : ∀ j a, Function.update s.pending k (some s.slot) j = some (some a) → a ∈ s.used := by
    intro j a hj
    by_cases hjk : j = k
    · subst hjk
      rw [Function.update_self, Option.some_inj] at hj
      exact h.slot_used a hj
    · rw [Function.update_of_ne hjk] at hj
      exact h.pending_used j a hj
  refine { h with
    current := fun i _ hidle => ?_
    slot_used := fun a ha => .inr ha
    slot_live := fun a ha => ⟨?_, fun j hj => hfresh a ha (hold j a hj)⟩
    pending_used := fun j a hj => .inl (hold j a hj)
    retired_used := fun a ha => .inl (h.retired_used ha)
    value_used := fun i a ha => .inl (h.value_used i a ha) }
  · simpa using hidle k
  · exact fun hretired => hfresh a ha (h.retired_used hretired)

omit [DecidableEq ι] in
/-- No reader has the new count yet. -/
theorem publish (h : Inv s) (k : κ) {old : Option α} (hpending : s.pending k = some old) :
    Inv { s with
      count := s.count + 1
      retired := s.retired ∪ {a | old = some a}
      pending := Function.update s.pending k none } := by
  have hbehind : ∀ i, (s.readers i).token ≠ some (s.count + 1) := by
    intro i hi
    exact absurd (h.token_le i _ hi) (by omega)
  have hleft : ∀ j a, Function.update s.pending k none j = some (some a) →
      s.pending j = some (some a) := by
    intro j a hj
    by_cases hjk : j = k
    · subst hjk
      simp at hj
    · rwa [Function.update_of_ne hjk] at hj
  refine { h with
    token_le := fun i c hc => (h.token_le i c hc).trans (Nat.le_succ _)
    loaded_le := fun i c hc => (h.loaded_le i c hc).trans (Nat.le_succ _)
    current := fun i hi => absurd hi (hbehind i)
    live := fun i _ hi => absurd hi (hbehind i)
    slot_live := ?_
    pending_used := fun j a hj => h.pending_used j a (hleft j a hj)
    retired_used := ?_ }
  · intro a ha
    obtain ⟨hlive, hidle⟩ := h.slot_live a ha
    refine ⟨?_, fun j hj => hidle j (hleft j a hj)⟩
    rintro (hretired | hold)
    · exact hlive hretired
    · exact hidle k (hpending.trans (congrArg some hold))
  · rintro a (hretired | hold)
    · exact h.retired_used hretired
    · exact h.pending_used k a (hpending.trans (congrArg some hold))

theorem step (h : Inv s) (hstep : Step s s') : Inv s' := by
  cases hstep with
  | load i =>
    apply h.update_reader i (r := { s.readers i with loaded := some s.count }) (h.token_le i) _
      (h.current i) (h.live i) (h.value_used i)
    rintro c ⟨⟩
    exact le_rfl
  | read i hloaded =>
    apply h.update_reader i
    · rintro c ⟨⟩
      exact h.loaded_le i _ hloaded
    · rintro c ⟨⟩
    · exact fun _ _ => rfl
    · exact fun a _ ha => (h.slot_live a ha).1
    · exact h.slot_used
  | forget i =>
    apply h.update_reader i
    · rintro c ⟨⟩
    · rintro c ⟨⟩
    · rintro ⟨⟩
    · rintro a ⟨⟩
    · rintro a ⟨⟩
  | write k v hfresh => exact h.write k hfresh
  | publish k hpending => exact h.publish k hpending

omit [DecidableEq ι] [DecidableEq κ] in
theorem initial : Inv (State.initial ι κ α) := by
  constructor <;> simp [State.initial]

theorem steps (h : Inv s) (hsteps : Relation.ReflTransGen Step s s') : Inv s' := by
  induction hsteps with
  | refl => exact h
  | tail _ hstep ih => exact ih.step hstep

end Inv
end Publication
