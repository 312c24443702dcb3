import Mathlib.Tactic

namespace Counting

theorem subperm_append_singleton {α : Type*} [BEq α] [LawfulBEq α] {l l' : List α} {a : α}
    (h : l.Subperm l') (ha : l.count a < l'.count a) : (l ++ [a]).Subperm l' := by
  apply List.subperm_ext_iff.2
  intro b _
  by_cases hb : b = a
  · subst hb
    simpa [List.count_append] using ha
  · have hother : [a].count b = 0 := List.count_eq_zero.2 (by simpa using hb)
    rw [List.count_append, hother]
    exact h.count_le b

/-- When one value of a family changes, the number of those that satisfy `p` changes by that one. -/
theorem card_filter_update {ι β : Type*} [Fintype ι] [DecidableEq ι] (f : ι → β) (i : ι) (b : β)
    (p : β → Prop) [DecidablePred p] :
    (Finset.univ.filter fun j => p (Function.update f i b j)).card + (if p (f i) then 1 else 0) =
      (Finset.univ.filter fun j => p (f j)).card + if p b then 1 else 0 := by
  have hsum : ∀ g : ι → β, (Finset.univ.filter fun j => p (g j)).card =
      (if p (g i) then 1 else 0) + ∑ j ∈ Finset.univ.erase i, if p (g j) then 1 else 0 := by
    intro g
    rw [Finset.card_filter]
    exact (Finset.add_sum_erase _ (fun j => if p (g j) then 1 else 0) (Finset.mem_univ i)).symm
  have hrest : ∑ j ∈ Finset.univ.erase i, (if p (Function.update f i b j) then 1 else 0) =
      ∑ j ∈ Finset.univ.erase i, if p (f j) then 1 else 0 := by
    apply Finset.sum_congr rfl
    intro j hj
    rw [Function.update_of_ne (Finset.ne_of_mem_erase hj)]
  rw [hsum, hsum, hrest, Function.update_self]
  omega

end Counting
