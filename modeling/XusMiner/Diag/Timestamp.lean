import XusMiner.Library.Calendar
import XusMiner.Library.Checked
import XusMiner.Library.Strings

namespace XusMiner.Diag
open Calendar Checked

/-- The date of a day counted from 1970-01-01. -/
def civilFromDays (days : ℤ) : Result Date := do
  let z ← i64 (days + 719468)
  let cycleStart ← if 0 ≤ z then pure z else i64 (z - 146096)
  let era := cycleStart.tdiv 146097
  let doe ← i64 (z - (← i64 (era * 146097)))
  let corrected ← i64 ((← i64 ((← i64 (doe - doe.tdiv 1460)) + doe.tdiv 36524)) - doe.tdiv 146096)
  let yoe := corrected.tdiv 365
  let year ← i64 (yoe + (← i64 (era * 400)))
  let yearStart ← i64 ((← i64 ((← i64 (365 * yoe)) + yoe.tdiv 4)) - yoe.tdiv 100)
  let doy ← i64 (doe - yearStart)
  let mp := (← i64 ((← i64 (5 * doy)) + 2)).tdiv 153
  let monthStart := (← i64 ((← i64 (153 * mp)) + 2)).tdiv 5
  let day ← u32 (← i64 ((← i64 (doy - monthStart)) + 1))
  let month ← u32 (← if mp < 10 then i64 (mp + 3) else i64 (mp - 9))
  let year ← if month ≤ 2 then i64 (year + 1) else pure year
  return ⟨year, month, day⟩

/-- `{:0width}` of an integer: the sign counts for the width. -/
def padded (width : ℕ) (x : ℤ) : String :=
  let digits := Strings.decimal x.natAbs
  if x < 0 then "-" ++ String.ofList (List.replicate (width - 1 - digits.length) '0') ++ digits
  else String.ofList (List.replicate (width - digits.length) '0') ++ digits

/-- The text of an instant. -/
def render (instant : Instant) : String :=
  padded 4 instant.date.year ++ "-" ++ padded 2 instant.date.month ++ "-" ++
    padded 2 instant.date.day ++ "T" ++ padded 2 instant.hour ++ ":" ++ padded 2 instant.minute ++
    ":" ++ padded 2 instant.second ++ "." ++ padded 3 instant.millisecond ++ "Z"

/-- `unixMillis` is a `u128`. -/
def formatUtc (unixMillis : ℕ) : Result String := do
  let secs ← i64 ((unixMillis / 1000 : ℕ) : ℤ)
  let millis ← u32 ((unixMillis % 1000 : ℕ) : ℤ)
  let days := secs / 86400
  let tod := secs % 86400
  let date ← civilFromDays days
  return render ⟨date, tod.tdiv 3600, (tod.tdiv 60).tmod 60, tod.tmod 60, millis⟩

def formatUtcMillis (unixMillis : UInt64) : Result String := formatUtc unixMillis.toNat

example : formatUtcMillis 1784810096789 = .ok "2026-07-23T12:34:56.789Z" := by decide

/-- The years of a cycle and of its centuries begin on 1 March. -/
def marchYearStart (yoe : ℤ) : ℤ := 365 * yoe + yoe / 4 - yoe / 100

theorem civilFromDays_eq {days era doe yoe doy mp : ℤ} (hera : 0 ≤ era ∧ era ≤ 2 ^ 40)
    (hdoe : 0 ≤ doe ∧ doe < 146097) (hdays : days + 719468 = era * 146097 + doe)
    (hyoe : (doe - doe / 1460 + doe / 36524 - doe / 146096) / 365 = yoe)
    (hdoy : doe = marchYearStart yoe + doy) (hmp : (5 * doy + 2) / 153 = mp)
    (hyear : 0 ≤ yoe ∧ yoe < 400) (hday : 0 ≤ doy ∧ doy ≤ 365) :
    civilFromDays days = .ok
      ⟨if mp < 10 then yoe + era * 400 else yoe + era * 400 + 1,
        if mp < 10 then mp + 3 else mp - 9, doy - (153 * mp + 2) / 5 + 1⟩ := by
  have hstart : marchYearStart yoe = 365 * yoe + yoe / 4 - yoe / 100 := rfl
  have hdiv : ∀ {a : ℤ} (k : ℤ), 0 ≤ a → a.tdiv k = a / k := fun k h =>
    Int.tdiv_eq_ediv_of_nonneg h
  have hz : (days + 719468) / 146097 = era ∧ days + 719468 - era * 146097 = doe := by omega
  have hmonth : 0 ≤ mp ∧ mp ≤ 11 := by omega
  unfold civilFromDays
  dsimp only
  rw [i64_bind (by omega), if_pos (by omega), pure_bind, hdiv _ (by omega), hz.1,
    i64_bind (by omega), i64_bind (by omega), hz.2]
  rw [hdiv _ hdoe.1, hdiv _ hdoe.1, hdiv _ hdoe.1, i64_bind (by omega), i64_bind (by omega),
    i64_bind (by omega), hdiv _ (by omega), hyoe]
  rw [i64_bind (by omega), i64_bind (by omega), hdiv _ hyear.1, hdiv _ hyear.1,
    i64_bind (by omega), i64_bind (by omega), i64_bind (by omega), ← hstart, i64_bind (by omega)]
  have hrest : doe - marchYearStart yoe = doy := by omega
  rw [hrest, i64_bind (by omega), i64_bind (by omega), hdiv _ (by omega), hmp, i64_bind (by omega),
    i64_bind (by omega), hdiv _ (by omega), i64_bind (by omega), i64_bind (by omega),
    u32_bind (by omega)]
  by_cases hspring : mp < 10
  · simp only [if_pos hspring]
    rw [i64_bind (by omega), u32_bind (by omega), if_neg (by omega)]
    rfl
  · simp only [if_neg hspring]
    rw [i64_bind (by omega), u32_bind (by omega), if_pos (by omega), i64_bind (by omega)]
    rfl

/-- The months from March on are as long as the formula has it, and February takes what is left. -/
theorem march_date {year doy mp : ℤ} (hday : 0 ≤ doy)
    (hleap : doy ≤ 364 ∨ IsLeap (year + 1) ∧ doy = 365) (hmp : (5 * doy + 2) / 153 = mp) :
    Date.Valid ⟨if mp < 10 then year else year + 1, if mp < 10 then mp + 3 else mp - 9,
      doy - (153 * mp + 2) / 5 + 1⟩ ∧
    Date.dayCount ⟨if mp < 10 then year else year + 1, if mp < 10 then mp + 3 else mp - 9,
      doy - (153 * mp + 2) / 5 + 1⟩ = marchFirst year + doy := by
  have hmonth : 0 ≤ mp ∧ mp ≤ 11 := by omega
  by_cases hspring : mp < 10
  · simp only [if_pos hspring]
    refine ⟨⟨by dsimp only; omega, ?_⟩, ?_⟩
    · obtain ⟨hlow, -⟩ := hmonth
      dsimp only [monthLength]
      interval_cases mp <;> simp <;> omega
    · rw [Date.dayCount, daysBefore_of_march (by dsimp only; omega)]
      dsimp only
      omega
  · simp only [if_neg hspring]
    refine ⟨⟨by dsimp only; omega, ?_⟩, ?_⟩
    · obtain rfl | rfl : mp = 10 ∨ mp = 11 := by omega
      · simp [monthLength]
        omega
      · have hlast : doy - 337 + 1 ≤ monthLength (year + 1) 2 := by
          rw [monthLength, if_pos rfl]
          split_ifs with hfebruary
          · omega
          · have hcommon := hleap.resolve_right fun h => hfebruary h.1
            omega
        exact ⟨by dsimp only; omega, hlast⟩
    · rw [Date.dayCount, daysBeforeYear_of_march, daysBeforeMonth_eq _ (by dsimp only; omega)]
      dsimp only
      rw [if_pos (by omega)]
      omega

/-- A day of a 400-year cycle, by century, leap cycle, year and day. -/
structure CycleDay (doe c q i j : ℤ) : Prop where
  century : 0 ≤ c ∧ c ≤ 3
  quad : 0 ≤ q ∧ q ≤ 24
  year : 0 ≤ i ∧ i ≤ 3
  day : 0 ≤ j ∧ (j ≤ 364 ∨ i = 3 ∧ j = 365)
  last : 1461 * q + 365 * i + j ≤ 36523 ∨ c = 3
  sum : doe = 36524 * c + 1461 * q + 365 * i + j

theorem exists_cycleDay {doe : ℤ} (h : 0 ≤ doe ∧ doe < 146097) :
    ∃ c q i j, CycleDay doe c q i j := by
  obtain ⟨c, hc⟩ : ∃ c, c = min 3 (doe / 36524) := ⟨_, rfl⟩
  obtain ⟨q, hq⟩ : ∃ q, q = (doe - 36524 * c) / 1461 := ⟨_, rfl⟩
  obtain ⟨i, hi⟩ : ∃ i, i = min 3 ((doe - 36524 * c - 1461 * q) / 365) := ⟨_, rfl⟩
  have hcentury : 0 ≤ c ∧ c ≤ 3 := by omega
  have hrest : 0 ≤ doe - 36524 * c ∧ (doe - 36524 * c ≤ 36523 ∨ c = 3) ∧
      doe - 36524 * c ≤ 36524 := by omega
  refine ⟨c, q, i, doe - 36524 * c - 1461 * q - 365 * i, hcentury, ?_, ?_, ?_, ?_, ?_⟩
  · clear hc hi
    omega
  · clear hc
    omega
  · clear hc
    omega
  · clear hc
    omega
  · omega

theorem CycleDay.yoe {doe c q i j : ℤ} (h : CycleDay doe c q i j) :
    (doe - doe / 1460 + doe / 36524 - doe / 146096) / 365 = 100 * c + 4 * q + i := by
  obtain ⟨hc, hq, hi, hj, hlast, rfl⟩ := h
  have hquad : (36524 * c + 1461 * q + 365 * i + j) / 1460 =
      25 * c + q + (24 * c + q + 365 * i + j) / 1460 := by omega
  have hcarry : (24 * c + q + 365 * i + j) / 1460 = 0 ∨
      i = 3 ∧ 1 ≤ j ∧ (24 * c + q + 365 * i + j) / 1460 = 1 := by
    rcases hj.2 with hday | ⟨rfl, rfl⟩ <;> omega
  have hcycle : (36524 * c + 1461 * q + 365 * i + j) / 146096 = 0 ∧
      (36524 * c + 1461 * q + 365 * i + j) / 36524 = c ∨
      c = 3 ∧ q = 24 ∧ i = 3 ∧ j = 365 := by
    have hsum : 1461 * q + 365 * i + j ≤ 36523 ∨ 1461 * q + 365 * i + j = 36524 := by omega
    rcases hsum with hlt | hlast
    · exact .inl (by omega)
    · exact .inr (by omega)
  rw [hquad]
  rcases hcycle with ⟨hcycle, hcentury⟩ | ⟨rfl, rfl, rfl, rfl⟩
  · rw [hcycle, hcentury]
    clear hquad hcycle hcentury hlast
    rcases hcarry with hnone | ⟨rfl, hday, hone⟩
    · have hday : j ≤ 364 := by
        rcases hj.2 with hday | ⟨rfl, rfl⟩ <;> omega
      rw [hnone]
      omega
    · rw [hone]
      omega
  · rfl

theorem CycleDay.marchYearStart {doe c q i j : ℤ} (h : CycleDay doe c q i j) :
    marchYearStart (100 * c + 4 * q + i) = 36524 * c + 1461 * q + 365 * i := by
  have hquad : (100 * c + 4 * q + i) / 4 = 25 * c + q := by
    have := h.year
    omega
  have hcentury : (100 * c + 4 * q + i) / 100 = c := by
    have := h.quad
    have := h.year
    omega
  rw [Diag.marchYearStart, hquad, hcentury]
  ring

theorem CycleDay.leap {doe c q i j : ℤ} (h : CycleDay doe c q i j) (era : ℤ) :
    j ≤ 364 ∨ IsLeap (100 * c + 4 * q + i + era * 400 + 1) ∧ j = 365 := by
  refine h.day.2.imp_right fun ⟨hyear, hday⟩ => ⟨⟨by omega, ?_⟩, hday⟩
  have hquad := h.quad
  rcases h.last with hcentury | hlast
  · exact .inl (by omega)
  · by_cases hq : q = 24
    · exact .inr (by omega)
    · exact .inl (by omega)

theorem marchFirst_cycle {yoe : ℤ} (h : 0 ≤ yoe ∧ yoe < 400) (era : ℤ) :
    marchFirst (yoe + era * 400) = era * 146097 + marchYearStart yoe - 719468 := by
  have hquad : (yoe + era * 400) / 4 = yoe / 4 + era * 100 := by omega
  have hcentury : (yoe + era * 400) / 100 = yoe / 100 + era * 4 := by omega
  have hcycle : (yoe + era * 400) / 400 = era := by omega
  rw [marchFirst, hquad, hcentury, hcycle, marchYearStart]
  ring

/-- For the days of some three billion years the result is the date of that number. -/
theorem civilFromDays_spec {days : ℤ} (h : 0 ≤ days ∧ days ≤ 2 ^ 40) :
    ∃ date, civilFromDays days = .ok date ∧ date.Valid ∧ date.dayCount = days := by
  obtain ⟨era, hera⟩ : ∃ era, era = (days + 719468) / 146097 := ⟨_, rfl⟩
  obtain ⟨doe, hdoe⟩ : ∃ doe, doe = (days + 719468) % 146097 := ⟨_, rfl⟩
  have hcycle : 0 ≤ doe ∧ doe < 146097 := by omega
  have hdays : days + 719468 = era * 146097 + doe := by omega
  have hrange : 0 ≤ era ∧ era ≤ 2 ^ 40 := by omega
  clear hera hdoe
  obtain ⟨c, q, i, j, hparts⟩ := exists_cycleDay hcycle
  obtain ⟨yoe, hyoe⟩ : ∃ yoe, yoe = 100 * c + 4 * q + i := ⟨_, rfl⟩
  have hyear : 0 ≤ yoe ∧ yoe < 400 := by
    have := hparts.century
    have := hparts.quad
    have := hparts.year
    omega
  have hformula := hparts.yoe
  have hstart := hparts.marchYearStart
  have hleap := hparts.leap era
  rw [← hyoe] at hformula hstart hleap
  have hdoy : doe = marchYearStart yoe + j := by rw [hstart, hparts.sum]
  have hday : 0 ≤ j ∧ j ≤ 365 := ⟨hparts.day.1, by rcases hleap with hlt | ⟨-, heq⟩ <;> omega⟩
  obtain ⟨hvalid, hcount⟩ := march_date hday.1 hleap rfl
  refine ⟨_, civilFromDays_eq hrange hcycle hdays hformula hdoy rfl hyear hday, hvalid, ?_⟩
  rw [hcount, marchFirst_cycle hyear]
  omega

theorem civilFromDays_eq_ok {days : ℤ} (h : 0 ≤ days ∧ days ≤ 2 ^ 40) (date : Date) :
    civilFromDays days = .ok date ↔ date.Valid ∧ date.dayCount = days := by
  obtain ⟨found, hfound, hvalid, hcount⟩ := civilFromDays_spec h
  rw [hfound]
  constructor
  · rintro ⟨⟩
    exact ⟨hvalid, hcount⟩
  · rintro ⟨hvalid', hcount'⟩
    rw [hvalid.eq_of_dayCount hvalid' (hcount.trans hcount'.symm)]

theorem formatUtc_eq {unixMillis : ℕ} (h : unixMillis < 2 ^ 64) {date : Date}
    (hdate : civilFromDays (unixMillis / 86400000 : ℕ) = .ok date) :
    formatUtc unixMillis = .ok (render
      ⟨date, unixMillis / 3600000 % 24, unixMillis / 60000 % 60, unixMillis / 1000 % 60,
        unixMillis % 1000⟩) := by
  have hdays : ((unixMillis / 1000 : ℕ) : ℤ) / 86400 = (unixMillis / 86400000 : ℕ) := by omega
  have htod : 0 ≤ ((unixMillis / 1000 : ℕ) : ℤ) % 86400 := by omega
  have hhour : (((unixMillis / 1000 : ℕ) : ℤ) % 86400).tdiv 3600 = unixMillis / 3600000 % 24 := by
    rw [Int.tdiv_eq_ediv_of_nonneg htod]
    omega
  have hminute : ((((unixMillis / 1000 : ℕ) : ℤ) % 86400).tdiv 60).tmod 60 =
      unixMillis / 60000 % 60 := by
    rw [Int.tdiv_eq_ediv_of_nonneg htod, Int.tmod_eq_emod_of_nonneg (by omega)]
    omega
  have hsecond : (((unixMillis / 1000 : ℕ) : ℤ) % 86400).tmod 60 = unixMillis / 1000 % 60 := by
    rw [Int.tmod_eq_emod_of_nonneg htod]
    omega
  have hmillis : ((unixMillis % 1000 : ℕ) : ℤ) = unixMillis % 1000 := Int.natCast_emod _ _
  unfold formatUtc
  dsimp only
  rw [i64_bind (by omega), u32_bind (by omega), hdays, hdate, hhour, hminute, hsecond, hmillis]
  rfl

/-- The text of a timestamp is that of the one instant of the calendar that it is away from 1970,
and on the way there nothing overflows. -/
theorem timestamps_name_instants (unixMillis : UInt64) :
    (∀ date, civilFromDays (unixMillis.toNat / 86400000 : ℕ) = .ok date ↔
      date.Valid ∧ date.dayCount = (unixMillis.toNat / 86400000 : ℕ)) ∧
    ∃ instant, (∀ other : Instant, other.Valid ∧ other.millis = unixMillis.toNat ↔
      other = instant) ∧ formatUtcMillis unixMillis = .ok (render instant) := by
  have hbound := unixMillis.toNat_lt
  unfold formatUtcMillis
  generalize unixMillis.toNat = n at hbound ⊢
  have hdays : (0 : ℤ) ≤ (n / 86400000 : ℕ) ∧ ((n / 86400000 : ℕ) : ℤ) ≤ 2 ^ 40 := by omega
  refine ⟨civilFromDays_eq_ok hdays, ?_⟩
  obtain ⟨date, hdate, hvalid, hcount⟩ := civilFromDays_spec hdays
  let instant : Instant := ⟨date, n / 3600000 % 24, n / 60000 % 60, n / 1000 % 60, n % 1000⟩
  have hinstant : instant.Valid :=
    ⟨hvalid, by dsimp only [instant]; omega, by dsimp only [instant]; omega,
      by dsimp only [instant]; omega, by dsimp only [instant]; omega⟩
  have hmillis : instant.millis = n := by
    dsimp only [Instant.millis, instant]
    omega
  refine ⟨instant, fun other => ⟨?_, ?_⟩, formatUtc_eq hbound hdate⟩
  · rintro ⟨hother, heq⟩
    exact hother.eq_of_millis hinstant (heq.trans hmillis.symm)
  · rintro rfl
    exact ⟨hinstant, hmillis⟩

end XusMiner.Diag
