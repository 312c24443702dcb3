import Mathlib.Tactic

/-! Integers of fixed width: a result that its type cannot hold is a panic. -/

namespace Checked

inductive Panic
  | overflow
  | outOfBounds
  deriving DecidableEq

abbrev Result := Except Panic

def fit (low high x : ℤ) : Result ℤ := if low ≤ x ∧ x ≤ high then .ok x else .error .overflow

/-- The least and the greatest `i64`. -/
def minI64 : ℤ := -2 ^ 63

def maxI64 : ℤ := 2 ^ 63 - 1

def i64 : ℤ → Result ℤ := fit minI64 maxI64

def i128 : ℤ → Result ℤ := fit (-2 ^ 127) (2 ^ 127 - 1)

def u32 : ℤ → Result ℤ := fit 0 (2 ^ 32 - 1)

def index {α : Type} (xs : List α) (i : ℕ) : Result α :=
  match xs[i]? with
  | some x => .ok x
  | none => .error .outOfBounds

/-- A sum of `i128`s, from the left. -/
def sumI128 (xs : List ℤ) : Result ℤ := xs.foldlM (fun sum x => i128 (sum + x)) 0

variable {α β : Type} {low high x : ℤ}

theorem fit_bind (h : low ≤ x ∧ x ≤ high) (f : ℤ → Result α) : (fit low high x >>= f) = f x := by
  rw [fit, if_pos h]
  rfl

theorem i64_bind (h : -2 ^ 63 ≤ x ∧ x ≤ 2 ^ 63 - 1) (f : ℤ → Result α) : (i64 x >>= f) = f x :=
  fit_bind h f

theorem i128_bind (h : -2 ^ 127 ≤ x ∧ x ≤ 2 ^ 127 - 1) (f : ℤ → Result α) :
    (i128 x >>= f) = f x :=
  fit_bind h f

theorem u32_bind (h : 0 ≤ x ∧ x ≤ 2 ^ 32 - 1) (f : ℤ → Result α) : (u32 x >>= f) = f x :=
  fit_bind h f

theorem index_bind {xs : List α} {i : ℕ} (h : i < xs.length) (f : α → Result β) :
    (index xs i >>= f) = f xs[i] := by
  rw [index, List.getElem?_eq_getElem h]
  rfl

/-- Fewer than `2 ^ 64` values of `i64` have a sum. -/
theorem sumI128_eq {xs : List ℤ} (hlength : xs.length < 2 ^ 64)
    (hrange : ∀ x ∈ xs, minI64 ≤ x ∧ x ≤ maxI64) : sumI128 xs = .ok xs.sum := by
  have hgen : ∀ (xs : List ℤ) (k : ℕ) (sum : ℤ), k + xs.length < 2 ^ 64 →
      (k * minI64 ≤ sum ∧ sum ≤ k * maxI64) → (∀ x ∈ xs, minI64 ≤ x ∧ x ≤ maxI64) →
      xs.foldlM (fun sum x => i128 (sum + x)) sum = (.ok (sum + xs.sum) : Result ℤ) := by
    intro xs
    induction xs with
    | nil =>
      intro k sum _ _ _
      simp [List.foldlM, pure, Except.pure]
    | cons x xs ih =>
      intro k sum hk hsum hxs
      rw [List.forall_mem_cons] at hxs
      rw [List.length_cons] at hk
      unfold minI64 maxI64 at hsum hxs
      rw [List.foldlM_cons, i128_bind (by omega)]
      rw [ih (k + 1) (sum + x) (by omega) (by unfold minI64 maxI64; push_cast; omega) hxs.2,
        List.sum_cons, add_assoc]
  simpa [sumI128] using hgen xs 0 0 (by simpa using hlength) (by simp) hrange

/-- An average that is rounded towards zero stays between the least and the greatest value. -/
theorem mean_mem {xs : List ℤ} (hne : xs ≠ []) (h : ∀ x ∈ xs, low ≤ x ∧ x ≤ high) :
    low ≤ xs.sum.tdiv xs.length ∧ xs.sum.tdiv xs.length ≤ high := by
  have hlength : (0 : ℤ) < xs.length := by
    exact_mod_cast List.length_pos_iff.2 hne
  constructor
  · apply Int.le_tdiv_of_mul_le hlength
    have hsum := List.card_nsmul_le_sum xs low fun x hx => (h x hx).1
    rwa [nsmul_eq_mul, mul_comm] at hsum
  · have hsum := List.sum_le_card_nsmul xs high fun x hx => (h x hx).2
    rw [nsmul_eq_mul, mul_comm] at hsum
    exact (Int.tdiv_le_tdiv hlength hsum).trans_eq (Int.mul_tdiv_cancel high hlength.ne')

theorem mean_pair_mem {a b : ℤ} (ha : low ≤ a ∧ a ≤ high) (hb : low ≤ b ∧ b ≤ high) :
    low ≤ (a + b).tdiv 2 ∧ (a + b).tdiv 2 ≤ high := by
  have h := mean_mem (List.cons_ne_nil a [b]) (by simpa using ⟨ha, hb⟩)
  simpa using h

end Checked
