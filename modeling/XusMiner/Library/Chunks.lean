import Mathlib.Tactic

namespace Chunks

variable {α : Type*}

/-- Consecutive pieces of `m` elements, the last one being what is left. -/
def chunks (m : ℕ) (xs : List α) : List (List α) :=
  if _h : 0 < m ∧ xs ≠ [] then xs.take m :: chunks m (xs.drop m) else []
termination_by xs.length
decreasing_by
  have := List.length_pos_of_ne_nil _h.2
  rw [List.length_drop]
  omega

/-- The first `k` pieces as they are, and all later ones merged into one. -/
def capped (k : ℕ) (pieces : List (List α)) : List (List α) :=
  pieces.take k ++ if pieces.drop k = [] then [] else [(pieces.drop k).flatten]

/-- The same cut directly: `k` pieces of `m` elements, then the rest in one piece. -/
def groups (m : ℕ) : ℕ → List α → List (List α)
  | 0, xs => if xs = [] then [] else [xs]
  | k + 1, xs => if xs = [] then [] else xs.take m :: groups m k (xs.drop m)

@[simp] theorem chunks_nil (m : ℕ) : chunks m ([] : List α) = [] := by
  rw [chunks, dif_neg (by simp)]

theorem chunks_of_ne_nil {m : ℕ} {xs : List α} (hm : 0 < m) (h : xs ≠ []) :
    chunks m xs = xs.take m :: chunks m (xs.drop m) := by
  rw [chunks, dif_pos ⟨hm, h⟩]

@[simp] theorem groups_nil (m k : ℕ) : groups m k ([] : List α) = [] := by
  cases k <;> rfl

theorem groups_zero {m : ℕ} {xs : List α} (h : xs ≠ []) : groups m 0 xs = [xs] := if_neg h

theorem groups_succ {m k : ℕ} {xs : List α} (h : xs ≠ []) :
    groups m (k + 1) xs = xs.take m :: groups m k (xs.drop m) := if_neg h

/-- The pieces put together again. -/
theorem flatten_chunks {m : ℕ} (hm : 0 < m) (xs : List α) : (chunks m xs).flatten = xs := by
  induction xs using chunks.induct m with
  | case1 xs h ih =>
    rw [chunks_of_ne_nil hm h.2, List.flatten_cons, ih, List.take_append_drop]
  | case2 xs h =>
    have hnil : xs = [] := by
      by_contra hne
      exact h ⟨hm, hne⟩
    rw [hnil, chunks_nil, List.flatten_nil]

theorem chunks_eq_nil_iff {m : ℕ} (hm : 0 < m) {xs : List α} : chunks m xs = [] ↔ xs = [] := by
  constructor
  · intro h
    by_contra hne
    rw [chunks_of_ne_nil hm hne] at h
    cases h
  · rintro rfl
    exact chunks_nil m

theorem capped_chunks {m : ℕ} (hm : 0 < m) (k : ℕ) (xs : List α) :
    capped k (chunks m xs) = groups m k xs := by
  induction k generalizing xs with
  | zero =>
    unfold capped
    rw [List.take_zero, List.nil_append, List.drop_zero, flatten_chunks hm]
    by_cases h : xs = []
    · simp [h]
    · rw [if_neg (mt (chunks_eq_nil_iff hm).mp h), groups_zero h]
  | succ k ih =>
    by_cases h : xs = []
    · simp [h, capped]
    · rw [groups_succ h, ← ih, chunks_of_ne_nil hm h]
      rfl

theorem flatten_groups (m k : ℕ) (xs : List α) : (groups m k xs).flatten = xs := by
  induction k generalizing xs with
  | zero =>
    by_cases h : xs = []
    · simp [h]
    · simp [groups_zero h]
  | succ k ih =>
    by_cases h : xs = []
    · simp [h]
    · rw [groups_succ h, List.flatten_cons, ih, List.take_append_drop]

theorem groups_eq_nil_iff {m k : ℕ} {xs : List α} : groups m k xs = [] ↔ xs = [] := by
  cases k <;> simp [groups]

/-- A tighter cut merges the pieces of a wider one. -/
theorem capped_groups {m j k : ℕ} (hjk : j ≤ k) (xs : List α) :
    capped j (groups m k xs) = groups m j xs := by
  induction j generalizing k xs with
  | zero =>
    unfold capped
    rw [List.take_zero, List.nil_append, List.drop_zero, flatten_groups]
    simp only [groups_eq_nil_iff, groups]
  | succ j ih =>
    obtain ⟨k, rfl⟩ := Nat.exists_eq_succ_of_ne_zero (by omega : k ≠ 0)
    by_cases h : xs = []
    · simp [h, capped]
    · rw [groups_succ h, groups_succ h, ← ih (Nat.le_of_succ_le_succ hjk)]
      rfl

/-- Nothing is merged while the pieces are as many as the cap allows. -/
theorem capped_of_length_le {k : ℕ} {pieces : List (List α)} (h : pieces.length ≤ k + 1) :
    capped k pieces = pieces := by
  have hdrop : (if pieces.drop k = [] then [] else [(pieces.drop k).flatten]) = pieces.drop k := by
    split_ifs with hnil
    · exact hnil.symm
    · have hlength : (pieces.drop k).length = 1 := by
        have := List.length_pos_of_ne_nil hnil
        rw [List.length_drop] at this ⊢
        omega
      obtain ⟨piece, hpiece⟩ := List.length_eq_one_iff.mp hlength
      rw [hpiece, List.flatten_singleton]
  rw [capped, hdrop, List.take_append_drop]

/-- Whatever comes in addition opens a new piece when the last one is full. -/
theorem groups_append_new {m k : ℕ} {xs ys : List α} (hk : (groups m k xs).length ≤ k)
    (hfull : (groups m k xs).length * m ≤ xs.length) (hne : ys ≠ []) (hfit : ys.length ≤ m) :
    groups m k (xs ++ ys) = groups m k xs ++ [ys] := by
  induction k generalizing xs with
  | zero =>
    have hnil : xs = [] := groups_eq_nil_iff.mp (List.length_eq_zero_iff.mp (Nat.le_zero.mp hk))
    subst hnil
    exact groups_zero hne
  | succ k ih =>
    by_cases h : xs = []
    · subst h
      rw [List.nil_append, groups_succ hne, List.take_of_length_le hfit,
        List.drop_eq_nil_of_le hfit, groups_nil, groups_nil, List.nil_append]
    · have happend : xs ++ ys ≠ [] := by simp [h]
      rw [groups_succ h, List.length_cons] at hk hfull
      rw [Nat.succ_mul] at hfull
      have hm : m ≤ xs.length := by omega
      have hrest : groups m k (xs.drop m ++ ys) = groups m k (xs.drop m) ++ [ys] :=
        ih (by omega) (by rw [List.length_drop]; omega)
      rw [groups_succ h, groups_succ happend, List.take_append_of_le_length hm,
        List.drop_append_of_le_length hm, hrest, List.cons_append]

/-- It stays in the last piece while that has room, or once the pieces are at their cap. -/
theorem groups_append_last {m k : ℕ} {xs ys last : List α} {front : List (List α)}
    (h : groups m k xs = front ++ [last])
    (hroom : (groups m k xs).length = k + 1 ∨
      xs.length + ys.length ≤ (groups m k xs).length * m) :
    groups m k (xs ++ ys) = front ++ [last ++ ys] := by
  have hne : xs ≠ [] := by
    rintro rfl
    rw [groups_nil] at h
    exact absurd h (by simp)
  have happend : xs ++ ys ≠ [] := by simp [hne]
  induction k generalizing xs front with
  | zero =>
    rw [groups_zero hne] at h
    rw [groups_zero happend]
    obtain ⟨rfl, hlast⟩ := List.append_inj' (show [] ++ [xs] = front ++ [last] from h) rfl
    rw [List.singleton_inj.mp hlast]
    rfl
  | succ k ih =>
    rw [groups_succ hne, List.length_cons] at hroom
    rw [groups_succ hne] at h
    rw [groups_succ happend]
    cases front with
    | nil =>
      obtain ⟨hlast, hrest⟩ := List.cons.inj h
      have hdrop := List.drop_eq_nil_iff.mp (groups_eq_nil_iff.mp hrest)
      have hlength : xs.length + ys.length ≤ m := by
        rw [hrest] at hroom
        simp only [List.length_nil] at hroom
        omega
      rw [List.take_of_length_le (by rw [List.length_append]; exact hlength),
        List.drop_eq_nil_of_le (by rw [List.length_append]; exact hlength), groups_nil, ← hlast,
        List.take_of_length_le hdrop]
      rfl
    | cons piece front =>
      obtain ⟨hpiece, hrest⟩ := List.cons.inj h
      have hdrop : xs.drop m ≠ [] := by
        intro hnil
        rw [hnil, groups_nil] at hrest
        exact absurd hrest (by simp)
      have hm : m < xs.length := by
        rw [ne_eq, List.drop_eq_nil_iff] at hdrop
        omega
      have hroom' : (groups m k (xs.drop m)).length = k + 1 ∨
          (xs.drop m).length + ys.length ≤ (groups m k (xs.drop m)).length * m := by
        rw [Nat.succ_mul] at hroom
        rw [List.length_drop]
        omega
      rw [List.take_append_of_le_length hm.le, List.drop_append_of_le_length hm.le,
        ih hrest hroom' hdrop (by simp [hdrop]), hpiece]
      rfl

theorem length_groups {m : ℕ} (hm : 0 < m) (k : ℕ) (xs : List α) :
    (groups m k xs).length = min (k + 1) ((xs.length + m - 1) / m) := by
  induction k generalizing xs with
  | zero =>
    by_cases h : xs = []
    · subst h
      simp [Nat.div_eq_of_lt (show m - 1 < m by omega)]
    · have hpos := List.length_pos_of_ne_nil h
      have hone : 1 ≤ (xs.length + m - 1) / m := (Nat.le_div_iff_mul_le hm).mpr (by omega)
      rw [groups_zero h, List.length_singleton, min_eq_left hone]
  | succ k ih =>
    by_cases h : xs = []
    · subst h
      simp [Nat.div_eq_of_lt (show m - 1 < m by omega)]
    · have hpos := List.length_pos_of_ne_nil h
      have hdiv : (xs.length + m - 1) / m = (xs.length - 1) / m + 1 := by
        rw [← Nat.add_div_right _ hm]
        congr 1
        omega
      have hrest : ((xs.length - m) + m - 1) / m = (xs.length - 1) / m := by
        rcases le_total m xs.length with hle | hle
        · congr 1
          omega
        · rw [Nat.div_eq_of_lt (by omega), Nat.div_eq_of_lt (by omega)]
      rw [groups_succ h, List.length_cons, ih, List.length_drop, hrest, hdiv]
      omega

/-- Below the cap no piece is merged, so the pieces hold at most `m` each. -/
theorem length_le_of_groups {m k : ℕ} {xs : List α} (hm : 0 < m)
    (hk : (groups m k xs).length ≤ k) : xs.length ≤ (groups m k xs).length * m := by
  have hlength := length_groups hm k xs
  have hceil : (groups m k xs).length = (xs.length + m - 1) / m := by omega
  have hsplit := Nat.div_add_mod (xs.length + m - 1) m
  have hmod := Nat.mod_lt (xs.length + m - 1) hm
  rw [hceil, Nat.mul_comm]
  omega

theorem nil_not_mem_groups {m : ℕ} (hm : 0 < m) (k : ℕ) (xs : List α) : [] ∉ groups m k xs := by
  induction k generalizing xs with
  | zero =>
    by_cases h : xs = []
    · simp [h]
    · simp [groups_zero h, Ne.symm h]
  | succ k ih =>
    by_cases h : xs = []
    · simp [h]
    · rw [groups_succ h, List.mem_cons, not_or]
      refine ⟨fun hnil => ?_, ih _⟩
      have := congrArg List.length hnil
      rw [List.length_take, List.length_nil] at this
      have := List.length_pos_of_ne_nil h
      omega

/-- All pieces but the last are full. -/
theorem length_of_mem_dropLast_groups {m k : ℕ} {xs piece : List α}
    (h : piece ∈ (groups m k xs).dropLast) : piece.length = m := by
  induction k generalizing xs with
  | zero =>
    by_cases hne : xs = []
    · simp [hne] at h
    · simp [groups_zero hne] at h
  | succ k ih =>
    by_cases hne : xs = []
    · simp [hne] at h
    · rw [groups_succ hne] at h
      by_cases hrest : groups m k (xs.drop m) = []
      · simp [hrest] at h
      · rw [List.dropLast_cons_of_ne_nil hrest, List.mem_cons] at h
        rcases h with rfl | h
        · have hdrop := mt groups_eq_nil_iff.mpr hrest
          rw [List.drop_eq_nil_iff] at hdrop
          rw [List.length_take]
          omega
        · exact ih h

end Chunks
