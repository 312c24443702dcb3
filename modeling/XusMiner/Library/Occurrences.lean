import Mathlib.Data.List.Infix

/-! The first occurrence of a list in another. -/

namespace Occurrences
variable {α : Type*} {s mask front back raw u : List α}

/-- Where `s` follows `front`, no occurrence of it begins earlier. -/
def Leftmost (s front : List α) : Prop := ¬s <:+: front ++ s.dropLast

theorem leftmost_nil (hs : s ≠ []) : Leftmost s [] := by
  intro h
  have hlength := h.length_le
  have hpos := List.length_pos_of_ne_nil hs
  rw [List.nil_append, List.length_dropLast] at hlength
  omega

theorem Leftmost.of_suffix (h : Leftmost s front) (hu : u <:+ front) : Leftmost s u := by
  obtain ⟨w, rfl⟩ := hu
  intro hoccurs
  apply h
  rw [List.append_assoc]
  exact hoccurs.trans (List.suffix_append _ _).isInfix

theorem Leftmost.not_occurs (h : Leftmost s front) : ¬s <:+: front :=
  fun hoccurs => h (hoccurs.trans (List.prefix_append _ _).isInfix)

theorem Leftmost.not_starts (h : Leftmost s front) (hfront : front ≠ []) :
    ¬s <+: front ++ (s ++ back) := by
  intro hstarts
  have hdrop : front ++ s.dropLast <+: front ++ (s ++ back) :=
    (List.prefix_append_right_inj front).2 (s.dropLast_prefix.trans (List.prefix_append _ _))
  have hlength : s.length ≤ (front ++ s.dropLast).length := by
    have := List.length_pos_of_ne_nil hfront
    rw [List.length_append, List.length_dropLast]
    omega
  exact h (List.prefix_of_prefix_length_le hstarts hdrop hlength).isInfix

section Split
variable [DecidableEq α]

/-- The parts before and after the first occurrence of a list that is not empty. -/
def splitFirst (s : List α) : List α → Option (List α × List α)
  | [] => none
  | c :: raw =>
    if s <+: c :: raw then some ([], (c :: raw).drop s.length)
    else (splitFirst s raw).map fun parts => (c :: parts.1, parts.2)

theorem splitFirst_eq_none (hs : s ≠ []) : splitFirst s raw = none ↔ ¬s <:+: raw := by
  induction raw with
  | nil => simp [splitFirst, hs]
  | cons c raw ih =>
    rw [splitFirst, List.infix_cons_iff, not_or]
    split_ifs with hstarts
    · exact iff_of_false (by simp) fun h => h.1 hstarts
    · rw [Option.map_eq_none_iff, ih]
      exact ⟨fun h => ⟨hstarts, h⟩, fun h => h.2⟩

theorem splitFirst_append (hs : s ≠ []) (h : Leftmost s front) :
    splitFirst s (front ++ (s ++ back)) = some (front, back) := by
  induction front with
  | nil =>
    obtain ⟨c, s', rfl⟩ := List.exists_cons_of_ne_nil hs
    have hstarts : c :: s' <+: c :: (s' ++ back) := List.prefix_append _ _
    rw [List.nil_append, List.cons_append, splitFirst, if_pos hstarts, ← List.cons_append,
      List.drop_left]
  | cons c front ih =>
    have hnot : ¬s <+: c :: front ++ (s ++ back) := h.not_starts (List.cons_ne_nil c front)
    rw [List.cons_append] at hnot ⊢
    rw [splitFirst, if_neg hnot, ih (h.of_suffix (List.suffix_cons c front))]
    rfl

theorem splitFirst_eq_some (hs : s ≠ []) :
    splitFirst s raw = some (front, back) ↔ raw = front ++ (s ++ back) ∧ Leftmost s front := by
  constructor
  · intro h
    induction raw generalizing front with
    | nil => cases h
    | cons c raw ih =>
      rw [splitFirst] at h
      split_ifs at h with hstarts
      · cases h
        exact ⟨(List.prefix_iff_eq_append.1 hstarts).symm, leftmost_nil hs⟩
      · obtain ⟨⟨front', back'⟩, hsplit, hparts⟩ := Option.map_eq_some_iff.1 h
        cases hparts
        obtain ⟨hraw, hleft⟩ := ih hsplit
        refine ⟨by rw [hraw, List.cons_append], ?_⟩
        intro hoccurs
        rw [List.cons_append, List.infix_cons_iff] at hoccurs
        rcases hoccurs with hfirst | hlater
        · apply hstarts
          rw [hraw]
          refine hfirst.trans ?_
          rw [List.cons_prefix_cons, List.prefix_append_right_inj]
          exact ⟨rfl, s.dropLast_prefix.trans (List.prefix_append _ _)⟩
        · exact hleft hlater
  · rintro ⟨rfl, h⟩
    exact splitFirst_append hs h

end Split

end Occurrences
