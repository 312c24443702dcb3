import XusMiner.Library.Checked

namespace XusMiner.Gui
open Checked

/-- `i64::saturating_mul`. -/
def saturatingMul (a b : ℤ) : ℤ := max minI64 (min maxI64 (a * b))

/-- The first multiple of a magnitude that reaches the target. -/
def niceCandidate (target magnitude : ℤ) : Option ℤ :=
  ([1, 2, 5].map (saturatingMul magnitude)).find? (target ≤ ·)

/-- The loop, for a number of rounds. -/
def niceCeilingFrom (target : ℤ) : ℕ → ℤ → Option ℤ
  | 0, _ => none
  | rounds + 1, magnitude =>
    match niceCandidate target magnitude with
    | some candidate => some candidate
    | none =>
      let magnitude := saturatingMul magnitude 10
      if maxI64.tdiv 10 ≤ magnitude then some maxI64 else niceCeilingFrom target rounds magnitude

def niceCeilingMs (rounds : ℕ) (maxMs : Int64) : Option ℤ :=
  niceCeilingFrom (max maxMs.toInt 1000) rounds 1000

/-- The stops of the axis: 1, 2 or 5 times a power of ten, from one second on. -/
def IsStop (x : ℤ) : Prop := 1000 ≤ x ∧ ∃ k : ℕ, x = 10 ^ k ∨ x = 2 * 10 ^ k ∨ x = 5 * 10 ^ k

def StopsFrom (target : ℤ) : Set ℤ := {x | IsStop x ∧ target ≤ x}

/-- What the axis should end at: the least stop at or above the data, where an `i64` can hold it. -/
structure IsNiceCeiling (maxMs result : ℤ) : Prop where
  least : (∃ x ∈ StopsFrom (max maxMs 1000), x ≤ maxI64) →
    IsLeast (StopsFrom (max maxMs 1000)) result
  none_fits : (¬∃ x ∈ StopsFrom (max maxMs 1000), x ≤ maxI64) → result = maxI64

/-- A stop belongs to a decade, or lies below half of it, or above it. -/
theorem IsStop.decade {x : ℤ} (h : IsStop x) (k : ℕ) :
    2 * x ≤ 10 ^ k ∨ (x = 10 ^ k ∨ x = 2 * 10 ^ k ∨ x = 5 * 10 ^ k) ∨ 10 ^ (k + 1) ≤ x := by
  obtain ⟨-, j, hj⟩ := h
  have hpos : (0 : ℤ) < 10 ^ j := by positivity
  rcases lt_trichotomy j k with hlt | rfl | hlt
  · have hle : (10 : ℤ) ^ (j + 1) ≤ 10 ^ k := pow_le_pow_right₀ (by decide) hlt
    rw [pow_succ] at hle
    exact .inl (by omega)
  · exact .inr (.inl hj)
  · have hle : (10 : ℤ) ^ (k + 1) ≤ 10 ^ j := pow_le_pow_right₀ (by decide) hlt
    exact .inr (.inr (by omega))

theorem saturatingMul_eq {a b : ℤ} (h : minI64 ≤ a * b ∧ a * b ≤ maxI64) :
    saturatingMul a b = a * b := by
  rw [saturatingMul, min_eq_right h.2, max_eq_right h.1]

theorem saturatingMul_decade {k : ℕ} (h : k ≤ 17) {c : ℤ} (hc : 1 ≤ c ∧ c ≤ 10) :
    saturatingMul (10 ^ k) c = c * 10 ^ k := by
  have hpos : (0 : ℤ) ≤ 10 ^ k := by positivity
  have hle : (10 : ℤ) ^ k ≤ 10 ^ 17 := pow_le_pow_right₀ (by decide) h
  have hlow : 0 ≤ 10 ^ k * c := mul_nonneg hpos (by omega)
  have hhigh : 10 ^ k * c ≤ 10 ^ 17 * 10 := mul_le_mul hle hc.2 (by omega) (by positivity)
  rw [saturatingMul_eq ⟨(show minI64 ≤ 0 by decide).trans hlow, hhigh.trans (by decide)⟩, mul_comm]

theorem niceCandidate_eq {k : ℕ} (h : k ≤ 17) (target : ℤ) : niceCandidate target (10 ^ k) =
    if target ≤ 10 ^ k then some (10 ^ k)
    else if target ≤ 2 * 10 ^ k then some (2 * 10 ^ k)
    else if target ≤ 5 * 10 ^ k then some (5 * 10 ^ k)
    else none := by
  simp only [niceCandidate, List.map_cons, List.map_nil, List.find?_cons, List.find?_nil,
    saturatingMul_decade h (show (1 : ℤ) ≤ 1 ∧ (1 : ℤ) ≤ 10 by decide),
    saturatingMul_decade h (show (1 : ℤ) ≤ 2 ∧ (2 : ℤ) ≤ 10 by decide),
    saturatingMul_decade h (show (1 : ℤ) ≤ 5 ∧ (5 : ℤ) ≤ 10 by decide), one_mul]
  split_ifs <;> simp [*]

/-- The loop has reached a decade: what lies below it is below the target. -/
def Passed (target : ℤ) (k : ℕ) : Prop := ∀ x, IsStop x → x < 10 ^ k → x < target

theorem Passed.start {maxMs : ℤ} : Passed (max maxMs 1000) 3 := by
  intro x hx hlt
  exact absurd hx.1 (not_le.2 hlt)

theorem Passed.succ {target : ℤ} {k : ℕ} (h : 5 * 10 ^ k < target) : Passed target (k + 1) := by
  intro x hx hlt
  have hpow : (10 : ℤ) ^ (k + 1) = 10 * 10 ^ k := pow_succ' 10 k
  have hpow' : (10 : ℤ) ^ (k + 1 + 1) = 10 * 10 ^ (k + 1) := pow_succ' 10 (k + 1)
  rcases hx.decade (k + 1) with hbelow | hdecade | habove <;> omega

/-- The first candidate that reaches the target is the least stop that does. -/
theorem niceCandidate_isLeast {target candidate : ℤ} {k : ℕ} (hk : 3 ≤ k ∧ k ≤ 17)
    (hpassed : Passed target k) (h : niceCandidate target (10 ^ k) = some candidate) :
    IsLeast (StopsFrom target) candidate := by
  have hthousand : (1000 : ℤ) ≤ 10 ^ k :=
    (show (1000 : ℤ) = 10 ^ 3 by rfl).trans_le (pow_le_pow_right₀ (by decide) hk.1)
  have hpow : (10 : ℤ) ^ (k + 1) = 10 * 10 ^ k := pow_succ' 10 k
  have hleast : ∀ x ∈ StopsFrom target,
      (x = 10 ^ k ∨ x = 2 * 10 ^ k ∨ x = 5 * 10 ^ k) ∨ 10 * 10 ^ k ≤ x := by
    rintro x ⟨hx, hreach⟩
    rcases hx.decade k with hbelow | hdecade | habove
    · have := hpassed x hx (by omega)
      omega
    · exact .inl hdecade
    · exact .inr (hpow ▸ habove)
  rw [niceCandidate_eq hk.2] at h
  split_ifs at h with hone htwo hfive
  · cases h
    refine ⟨⟨⟨hthousand, k, .inl rfl⟩, hone⟩, fun x hx => ?_⟩
    have := hleast x hx
    omega
  · cases h
    refine ⟨⟨⟨by omega, k, .inr (.inl rfl)⟩, htwo⟩, fun x hx => ?_⟩
    have := hleast x hx
    have := hx.2
    omega
  · cases h
    refine ⟨⟨⟨by omega, k, .inr (.inr rfl)⟩, hfive⟩, fun x hx => ?_⟩
    have := hleast x hx
    have := hx.2
    omega

theorem niceCandidate_none {target : ℤ} {k : ℕ} (hk : k ≤ 17)
    (h : niceCandidate target (10 ^ k) = none) : 5 * 10 ^ k < target := by
  rw [niceCandidate_eq hk] at h
  split_ifs at h with _ _ hfive
  exact not_le.1 hfive

theorem niceCandidate_some {target candidate : ℤ} {k : ℕ} (hk : k ≤ 17)
    (h : niceCandidate target (10 ^ k) = some candidate) : target ≤ 5 * 10 ^ 17 := by
  have hpos : (0 : ℤ) ≤ 10 ^ k := by positivity
  have hle : (10 : ℤ) ^ k ≤ 10 ^ 17 := pow_le_pow_right₀ (by decide) hk
  rw [niceCandidate_eq hk] at h
  split_ifs at h <;> omega

/-- What the loop makes of the target: the decade of `10 ^ 18` is not tried, although all its
stops fit. -/
structure LoopResult (target result : ℤ) : Prop where
  least : target ≤ 5 * 10 ^ 17 → IsLeast (StopsFrom target) result
  saturated : 5 * 10 ^ 17 < target → result = maxI64

/-- A round returns, or the decade is passed. -/
theorem niceCeilingFrom_round {target : ℤ} {k : ℕ} (hk : 3 ≤ k ∧ k ≤ 17)
    (hpassed : Passed target k) :
    (∃ result, (∀ rounds, niceCeilingFrom target (rounds + 1) (10 ^ k) = some result) ∧
      LoopResult target result) ∨
    5 * 10 ^ k < target ∧ ∀ rounds, niceCeilingFrom target (rounds + 1) (10 ^ k) =
      if k = 17 then some maxI64 else niceCeilingFrom target rounds (10 ^ (k + 1)) := by
  simp only [niceCeilingFrom]
  cases hcandidate : niceCandidate target (10 ^ k) with
  | some candidate =>
    exact .inl ⟨candidate, fun _ => rfl, fun _ => niceCandidate_isLeast hk hpassed hcandidate,
      fun hlt => absurd (niceCandidate_some hk.2 hcandidate) (not_le.2 hlt)⟩
  | none =>
    refine .inr ⟨niceCandidate_none hk.2 hcandidate, fun rounds => ?_⟩
    dsimp only
    rw [saturatingMul_decade hk.2 (by decide), ← pow_succ']
    by_cases hlast : k = 17
    · rw [if_pos hlast, if_pos (by rw [hlast]; decide)]
    · have hle : (10 : ℤ) ^ (k + 1) ≤ 10 ^ 17 := pow_le_pow_right₀ (by decide) (by omega)
      rw [if_neg hlast, if_neg (not_le.2 (hle.trans_lt (by decide)))]

theorem niceCeilingFrom_spec {target : ℤ} (n : ℕ) {k : ℕ} (hk : 3 ≤ k) (hn : k + n = 17)
    (hpassed : Passed target k) : ∃ result,
      (∀ rounds, n < rounds → niceCeilingFrom target rounds (10 ^ k) = some result) ∧
        LoopResult target result := by
  induction n generalizing k with
  | zero =>
    obtain rfl : k = 17 := hn
    rcases niceCeilingFrom_round ⟨hk, le_rfl⟩ hpassed with
      ⟨result, hresult, hspec⟩ | ⟨hover, hround⟩
    · refine ⟨result, fun rounds hrounds => ?_, hspec⟩
      rw [← Nat.succ_pred_eq_of_pos hrounds]
      exact hresult _
    · refine ⟨maxI64, fun rounds hrounds => ?_, fun hle => absurd hover (not_lt.2 hle),
        fun _ => rfl⟩
      rw [← Nat.succ_pred_eq_of_pos hrounds]
      exact hround _
  | succ n ih =>
    rcases niceCeilingFrom_round ⟨hk, by omega⟩ hpassed with
      ⟨result, hresult, hspec⟩ | ⟨hover, hround⟩
    · refine ⟨result, fun rounds hrounds => ?_, hspec⟩
      rw [← Nat.succ_pred_eq_of_pos (Nat.zero_lt_of_lt hrounds)]
      exact hresult _
    · obtain ⟨result, hresult, hspec⟩ := ih (by omega) (by omega) (Passed.succ hover)
      refine ⟨result, fun rounds hrounds => ?_, hspec⟩
      rw [← Nat.succ_pred_eq_of_pos (Nat.zero_lt_of_lt hrounds), hround, if_neg (by omega)]
      exact hresult _ (Nat.lt_pred_of_succ_lt hrounds)

/-- The stops of the last decade are the greatest that an `i64` can hold. -/
theorem exists_stop_iff {target : ℤ} :
    (∃ x ∈ StopsFrom target, x ≤ maxI64) ↔ target ≤ 5 * 10 ^ 18 := by
  constructor
  · rintro ⟨x, ⟨hx, hreach⟩, hfits⟩
    have hmax : maxI64 < 10 ^ 19 := by decide
    rcases hx.decade 19 with hbelow | hdecade | habove <;> omega
  · intro h
    exact ⟨5 * 10 ^ 18, ⟨⟨by decide, 18, .inr (.inr rfl)⟩, h⟩, by decide⟩

theorem LoopResult.isNiceCeiling_iff {maxMs result : ℤ}
    (h : LoopResult (max maxMs 1000) result) :
    IsNiceCeiling maxMs result ↔ maxMs ≤ 5 * 10 ^ 17 ∨ 5 * 10 ^ 18 < maxMs := by
  have hmax : (5 : ℤ) * 10 ^ 18 < maxI64 := by decide
  constructor
  · intro hceiling
    by_contra hbetween
    have hfits : max maxMs 1000 ≤ 5 * 10 ^ 18 := by omega
    have hleast := hceiling.least (exists_stop_iff.2 hfits)
    have hle : result ≤ 5 * 10 ^ 18 := hleast.2 ⟨⟨by decide, 18, .inr (.inr rfl)⟩, hfits⟩
    rw [h.saturated (by omega)] at hle
    exact not_lt.2 hle hmax
  · rintro (hlow | hhigh)
    · refine ⟨fun _ => h.least (by omega), fun hnone => ?_⟩
      exact absurd (exists_stop_iff.2 (by omega)) hnone
    · refine ⟨fun hfits => ?_, fun _ => h.saturated (by omega)⟩
      have := exists_stop_iff.1 hfits
      omega

theorem niceCeilingMs_spec (maxMs : Int64) : ∃ result,
    (∀ rounds, 15 ≤ rounds → niceCeilingMs rounds maxMs = some result) ∧
      LoopResult (max maxMs.toInt 1000) result :=
  niceCeilingFrom_spec 14 le_rfl rfl Passed.start

/-- The loop always ends, after fifteen rounds at most; what it returns is the ceiling that the
axis should have exactly if the data end within the decades that are tried, or above every stop. -/
theorem nice_ceiling_exact_iff (maxMs : Int64) : ∃ result,
    (∀ rounds, 15 ≤ rounds → niceCeilingMs rounds maxMs = some result) ∧
      (IsNiceCeiling maxMs.toInt result ↔
        maxMs.toInt ≤ 5 * 10 ^ 17 ∨ 5 * 10 ^ 18 < maxMs.toInt) := by
  obtain ⟨result, hresult, hspec⟩ := niceCeilingMs_spec maxMs
  exact ⟨result, hresult, hspec.isNiceCeiling_iff⟩

/-- The axis of data that end at `6 * 10 ^ 17` should end at `10 ^ 18`. -/
theorem last_decade_is_skipped :
    (∀ rounds, 15 ≤ rounds → niceCeilingMs rounds 600000000000000000 = some maxI64) ∧
      ¬IsNiceCeiling (600000000000000000 : Int64).toInt maxI64 := by
  obtain ⟨result, hresult, hspec⟩ := niceCeilingMs_spec 600000000000000000
  obtain rfl := hspec.saturated (by decide)
  exact ⟨hresult, fun h => absurd (hspec.isNiceCeiling_iff.1 h) (by decide)⟩

end XusMiner.Gui
