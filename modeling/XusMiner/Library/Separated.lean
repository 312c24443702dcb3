import Mathlib.Tactic

/-! Runs of elements of one kind with single elements of another kind between them. -/

namespace Separated

variable {α β : Type*} {p q : α → Prop}

/-- Non-empty runs of `p`, joined by single separators `q`. -/
inductive Joined (p q : α → Prop) : List α → Prop
  | run {r : List α} (hne : r ≠ []) (hrun : ∀ a ∈ r, p a) : Joined p q r
  | join {r rest : List α} {c : α} (hne : r ≠ []) (hrun : ∀ a ∈ r, p a) (hc : q c)
      (hrest : Joined p q rest) : Joined p q (r ++ c :: rest)

namespace Joined

theorem ne_nil {l : List α} (h : Joined p q l) : l ≠ [] := by
  cases h with
  | run hne => exact hne
  | join hne => simp

theorem cons {a : α} {l : List α} (ha : p a) (h : Joined p q l) : Joined p q (a :: l) := by
  cases h with
  | run _ hrun => exact .run (by simp) (List.forall_mem_cons.2 ⟨ha, hrun⟩)
  | @join r rest c _ hrun hc hrest =>
    rw [← List.cons_append]
    exact .join (by simp) (List.forall_mem_cons.2 ⟨ha, hrun⟩) hc hrest

/-- The first element, and what may come after it. -/
theorem cons_iff {a : α} {l : List α} : Joined p q (a :: l) ↔
    p a ∧ (l = [] ∨ Joined p q l ∨ ∃ c rest, l = c :: rest ∧ q c ∧ Joined p q rest) := by
  constructor
  · intro h
    generalize hwhole : a :: l = whole at h
    cases h with
    | run _ hrun =>
      subst hwhole
      rw [List.forall_mem_cons] at hrun
      refine ⟨hrun.1, or_iff_not_imp_left.2 fun hne => .inl (.run hne hrun.2)⟩
    | @join r rest c hne hrun hc hrest =>
      obtain ⟨b, r, rfl⟩ := List.exists_cons_of_ne_nil hne
      rw [List.cons_append] at hwhole
      obtain ⟨rfl, rfl⟩ := List.cons.inj hwhole
      rw [List.forall_mem_cons] at hrun
      by_cases hr : r = []
      · exact ⟨hrun.1, .inr (.inr ⟨c, rest, by rw [hr, List.nil_append], hc, hrest⟩)⟩
      · exact ⟨hrun.1, .inr (.inl (.join hr hrun.2 hc hrest))⟩
  · rintro ⟨ha, rfl | h | ⟨c, rest, rfl, hc, hrest⟩⟩
    · exact .run (by simp) (by simpa using ha)
    · exact h.cons ha
    · exact .join (r := [a]) (by simp) (by simpa using ha) hc hrest

theorem forall_mem {l : List α} (h : Joined p q l) : ∀ a ∈ l, p a ∨ q a := by
  induction h with
  | run _ hrun => exact fun a ha => .inl (hrun a ha)
  | join _ hrun hc _ ih =>
    intro a ha
    rcases List.mem_append.1 ha with ha | ha
    · exact .inl (hrun a ha)
    · rcases List.mem_cons.1 ha with rfl | ha
      · exact .inr hc
      · exact ih a ha

/-- Elements may be renamed, as long as they stay of their kind. -/
theorem map {p' q' : β → Prop} {f : α → β} {l : List α} (h : Joined p q l)
    (hp : ∀ a ∈ l, p a → p' (f a)) (hq : ∀ a ∈ l, q a → q' (f a)) : Joined p' q' (l.map f) := by
  induction h with
  | run hne hrun =>
    refine .run (by simpa using hne) fun b hb => ?_
    obtain ⟨a, ha, rfl⟩ := List.mem_map.1 hb
    exact hp a ha (hrun a ha)
  | @join r rest c hne hrun hc _ ih =>
    rw [List.map_append, List.map_cons]
    have hrest : ∀ a ∈ rest, a ∈ r ++ c :: rest := fun a ha => by simp [ha]
    refine .join (by simpa using hne) (fun b hb => ?_) (hq c (by simp) hc)
      (ih (fun a ha => hp a (hrest a ha)) (fun a ha => hq a (hrest a ha)))
    obtain ⟨a, ha, rfl⟩ := List.mem_map.1 hb
    exact hp a (List.mem_append_left _ ha) (hrun a ha)

end Joined

end Separated
