import XusMiner.Gui.Backlog
import XusMiner.Library.Checked

namespace XusMiner.Gui
open Checked

def blockTimeGraphBars : ℕ := 32

/-- One bar of the block-time graph; without both timestamps the interval is unknown. -/
structure IntervalBar where
  height : UInt64
  intervalMs : Option Int64
  timestampMs : Option UInt64
  txCount : Option UInt64
  mine : Bool
  mineBasis : Option MineBasis
  deriving DecidableEq

/-- `i64::try_from`, with an absurd span saturated. -/
def saturatedI64 (difference : ℤ) : Int64 :=
  if minI64 ≤ difference ∧ difference ≤ maxI64 then Int64.ofInt difference
  else if 0 < difference then Int64.maxValue
  else Int64.minValue

def intervalBar (block parent : BlockFlowTile) : Option IntervalBar :=
  -- a sum that overflows is no height
  if parent.height.toNat + 1 ≠ block.height.toNat then none
  else
    some {
      height := block.height
      intervalMs := match block.timestampMs, parent.timestampMs with
        | some this, some previous => some (saturatedI64 ((this.toNat : ℤ) - previous.toNat))
        | _, _ => none
      timestampMs := block.timestampMs
      txCount := block.txCount
      mine := block.mine
      mineBasis := block.mineBasis }

/-- The pairs of neighbours. -/
def windows {α : Type} (xs : List α) : List (α × α) := xs.zip xs.tail

/-- The bars of a strip whose newest tile comes first, oldest bar first. -/
def blockIntervalBars (recent : List BlockFlowTile) : List IntervalBar :=
  let bars := ((windows recent).filterMap fun pair => intervalBar pair.1 pair.2).reverse
  if blockTimeGraphBars < bars.length then bars.drop (bars.length - blockTimeGraphBars) else bars

structure IntervalWindowStats where
  medianMs : Int64
  meanMs : Int64
  known : ℕ
  total : ℕ
  deriving DecidableEq

/-- `median_ms`, of the sorted intervals. -/
def medianMs (known : List Int64) : Result Int64 := do
  let middle := known.length / 2
  if known.length % 2 = 1 then index known middle
  else
    let lower ← index known (middle - 1)
    let upper ← index known middle
    let sum ← i128 (lower.toInt + upper.toInt)
    let median ← i64 (← i128 (sum.tdiv 2))
    return Int64.ofInt median

def meanMs (known : List Int64) : Result Int64 := do
  let sum ← sumI128 (known.map Int64.toInt)
  let mean ← i64 (← i128 (sum.tdiv known.length))
  return Int64.ofInt mean

def intervalWindowStats (bars : List IntervalBar) : Result (Option IntervalWindowStats) := do
  let known := (bars.filterMap IntervalBar.intervalMs).mergeSort
  if known = [] then return none
  let median ← medianMs known
  let mean ← meanMs known
  return some ⟨median, mean, known.length, bars.length⟩

/-- The known intervals as numbers. -/
def knownIntervals (bars : List IntervalBar) : List ℤ :=
  bars.filterMap fun bar => bar.intervalMs.map Int64.toInt

/-- The middle value of a sorted list, or the mean of the two middle ones, rounded towards zero. -/
def IsMedian (sorted : List ℤ) (median : ℤ) : Prop :=
  if sorted.length % 2 = 1 then sorted[sorted.length / 2]? = some median
  else ∃ a b, sorted[sorted.length / 2 - 1]? = some a ∧ sorted[sorted.length / 2]? = some b ∧
    median = (a + b).tdiv 2

theorem toInt_range (x : Int64) : minI64 ≤ x.toInt ∧ x.toInt ≤ maxI64 :=
  ⟨x.le_toInt, Int.le_sub_one_of_lt x.toInt_lt⟩

theorem toInt_ofInt {x : ℤ} (h : minI64 ≤ x ∧ x ≤ maxI64) : (Int64.ofInt x).toInt = x :=
  Int64.toInt_ofInt_of_le h.1 (Int.lt_of_le_sub_one h.2)

/-- The span between two timestamps, clamped. -/
theorem toInt_saturatedI64 (difference : ℤ) :
    (saturatedI64 difference).toInt = max minI64 (min maxI64 difference) := by
  unfold saturatedI64
  split_ifs with hfits hpos
  · rw [toInt_ofInt hfits, min_eq_right hfits.2, max_eq_right hfits.1]
  · have hover : maxI64 ≤ difference := by
      unfold minI64 maxI64 at *
      omega
    rw [min_eq_left hover]
    rfl
  · have hunder : difference ≤ minI64 := by
      unfold minI64 maxI64 at *
      omega
    rw [min_eq_right (hunder.trans (by decide)), max_eq_left hunder]
    rfl

/-- A mean of the two middle values that fits where they fit. -/
theorem IsMedian.mem {sorted : List ℤ} {median low high : ℤ} (h : IsMedian sorted median)
    (hbounds : ∀ x ∈ sorted, low ≤ x ∧ x ≤ high) : low ≤ median ∧ median ≤ high := by
  unfold IsMedian at h
  split_ifs at h
  · exact hbounds median (List.mem_of_getElem? h)
  · obtain ⟨a, b, ha, hb, rfl⟩ := h
    exact mean_pair_mem (hbounds a (List.mem_of_getElem? ha)) (hbounds b (List.mem_of_getElem? hb))

/-- What the label says of the bars. -/
structure IntervalWindowStats.Describes (stats : IntervalWindowStats) (bars : List IntervalBar) :
    Prop where
  known : stats.known = (knownIntervals bars).length
  total : stats.total = bars.length
  median : ∃ sorted, sorted.Perm (knownIntervals bars) ∧ sorted.Pairwise (· ≤ ·) ∧
    IsMedian sorted stats.medianMs.toInt
  mean : stats.meanMs.toInt = (knownIntervals bars).sum.tdiv (knownIntervals bars).length

/-- The sorted intervals, as the code has them and as numbers. -/
theorem sorted_known (bars : List IntervalBar) :
    let sorted := (bars.filterMap IntervalBar.intervalMs).mergeSort
    (sorted.map Int64.toInt).Perm (knownIntervals bars) ∧
      (sorted.map Int64.toInt).Pairwise (· ≤ ·) := by
  intro sorted
  constructor
  · have hperm := (List.mergeSort_perm (bars.filterMap IntervalBar.intervalMs)
      fun a b => a ≤ b).map Int64.toInt
    rwa [List.map_filterMap] at hperm
  · rw [List.pairwise_map]
    have hsorted : sorted.Pairwise fun a b => decide (a ≤ b) = true :=
      List.pairwise_mergeSort (fun a b c => by simpa using Int64.le_trans)
        (fun a b => by simpa using Int64.le_total a b) _
    exact hsorted.imp fun hle => Int64.le_iff_toInt_le.1 (of_decide_eq_true hle)

theorem intervalWindowStats_unknown {bars : List IntervalBar} (h : knownIntervals bars = []) :
    intervalWindowStats bars = .ok none := by
  have hlength := (sorted_known bars).1.length_eq
  rw [h, List.length_map] at hlength
  rw [intervalWindowStats]
  simp only [List.length_eq_zero_iff.1 hlength]
  rfl

theorem medianMs_eq {known : List Int64} (hne : known ≠ []) :
    ∃ median, medianMs known = .ok median ∧
      IsMedian (known.map Int64.toInt) median.toInt := by
  have hpos := List.length_pos_iff.2 hne
  have hmiddle : known.length / 2 < known.length := by omega
  unfold medianMs IsMedian
  rw [List.length_map]
  dsimp only
  by_cases hodd : known.length % 2 = 1
  · simp only [if_pos hodd, index, List.getElem?_map, List.getElem?_eq_getElem hmiddle]
    exact ⟨_, rfl, rfl⟩
  · have hlower : known.length / 2 - 1 < known.length := by omega
    have ha := toInt_range known[known.length / 2 - 1]
    have hb := toInt_range known[known.length / 2]
    have hmean := mean_pair_mem ha hb
    refine ⟨Int64.ofInt
      ((known[known.length / 2 - 1].toInt + known[known.length / 2].toInt).tdiv 2), ?_, ?_⟩
    · unfold minI64 maxI64 at ha hb hmean
      rw [if_neg hodd, index_bind hlower, index_bind hmiddle, i128_bind (by omega),
        i128_bind (by omega), i64_bind hmean]
      rfl
    · rw [if_neg hodd, toInt_ofInt hmean]
      refine ⟨_, _, ?_, ?_, rfl⟩
      · rw [List.getElem?_map, List.getElem?_eq_getElem hlower, Option.map_some]
      · rw [List.getElem?_map, List.getElem?_eq_getElem hmiddle, Option.map_some]

theorem meanMs_eq {known : List Int64} (hne : known ≠ []) (hlength : known.length < 2 ^ 64) :
    ∃ mean, meanMs known = .ok mean ∧
      mean.toInt = (known.map Int64.toInt).sum.tdiv known.length := by
  have hrange : ∀ x ∈ known.map Int64.toInt, minI64 ≤ x ∧ x ≤ maxI64 := by
    intro x hx
    obtain ⟨y, -, rfl⟩ := List.mem_map.1 hx
    exact toInt_range y
  have hmean := mean_mem (by simpa using hne) hrange
  rw [List.length_map] at hmean
  refine ⟨Int64.ofInt ((known.map Int64.toInt).sum.tdiv known.length), ?_, toInt_ofInt hmean⟩
  rw [meanMs, sumI128_eq (by rwa [List.length_map]) hrange]
  unfold minI64 maxI64 at hmean
  change (do let mean ← i64 (← i128 _); return Int64.ofInt mean) = _
  rw [i128_bind (by omega), i64_bind hmean]
  rfl

theorem intervalWindowStats_known {bars : List IntervalBar} (hlength : bars.length < 2 ^ 64)
    (hknown : knownIntervals bars ≠ []) :
    ∃ stats, intervalWindowStats bars = .ok (some stats) ∧ stats.Describes bars := by
  obtain ⟨hperm, hsorted⟩ := sorted_known bars
  rw [intervalWindowStats]
  generalize (bars.filterMap IntervalBar.intervalMs).mergeSort = known at hperm hsorted ⊢
  have hcount : known.length = (knownIntervals bars).length := by
    rw [← hperm.length_eq, List.length_map]
  have hne : known ≠ [] := by
    rintro rfl
    exact hknown (List.length_eq_zero_iff.1 hcount.symm)
  have hfits : known.length < 2 ^ 64 := by
    have hle : (knownIntervals bars).length ≤ bars.length := List.length_filterMap_le _ _
    omega
  obtain ⟨median, hmedian, hismedian⟩ := medianMs_eq hne
  obtain ⟨mean, hmean, hvalue⟩ := meanMs_eq hne hfits
  refine ⟨⟨median, mean, known.length, bars.length⟩, ?_, hcount, rfl,
    ⟨known.map Int64.toInt, hperm, hsorted, hismedian⟩, ?_⟩
  · rw [if_neg hne, hmedian, hmean]
    rfl
  · rw [hvalue, hperm.sum_eq, hcount]

theorem IntervalWindowStats.Describes.mem {stats : IntervalWindowStats} {bars : List IntervalBar}
    (h : stats.Describes bars) (hne : knownIntervals bars ≠ []) {low high : ℤ}
    (hbounds : ∀ x ∈ knownIntervals bars, low ≤ x ∧ x ≤ high) :
    (low ≤ stats.medianMs.toInt ∧ stats.medianMs.toInt ≤ high) ∧
      low ≤ stats.meanMs.toInt ∧ stats.meanMs.toInt ≤ high := by
  obtain ⟨sorted, hperm, -, hmedian⟩ := h.median
  refine ⟨hmedian.mem fun x hx => hbounds x (hperm.mem_iff.1 hx), ?_⟩
  rw [h.mean]
  exact mean_mem hne hbounds

/-- A bar belongs to a tile and the parent right behind it, and its interval is their clamped
difference. -/
theorem mem_blockIntervalBars {recent : List BlockFlowTile} {bar : IntervalBar}
    (h : bar ∈ blockIntervalBars recent) : ∃ block parent, (block, parent) ∈ windows recent ∧
      bar.height = block.height ∧ parent.height.toNat + 1 = block.height.toNat ∧
      bar.intervalMs.map Int64.toInt = block.timestampMs.bind fun this =>
        parent.timestampMs.map fun previous =>
          max minI64 (min maxI64 ((this.toNat : ℤ) - previous.toNat)) := by
  have hbar : bar ∈ (windows recent).filterMap fun pair => intervalBar pair.1 pair.2 := by
    rw [← List.mem_reverse]
    unfold blockIntervalBars at h
    dsimp only at h
    split_ifs at h
    · exact List.mem_of_mem_drop h
    · exact h
  obtain ⟨⟨block, parent⟩, hpair, hbar⟩ := List.mem_filterMap.1 hbar
  refine ⟨block, parent, hpair, ?_⟩
  unfold intervalBar at hbar
  split_ifs at hbar with hparent
  obtain rfl := Option.some.inj hbar
  refine ⟨rfl, not_not.1 hparent, ?_⟩
  cases block.timestampMs with
  | none => rfl
  | some this =>
    cases parent.timestampMs with
    | none => rfl
    | some previous => exact congrArg some (toInt_saturatedI64 _)

theorem knownIntervals_eq_nil {bars : List IntervalBar} :
    knownIntervals bars = [] ↔ ∀ bar ∈ bars, bar.intervalMs = none := by
  simp [knownIntervals]

/-- The statistics of a window stay in the range of its data, and nothing overflows; the data are
the exact spans, clamped. -/
theorem interval_statistics_exact (bars : List IntervalBar) (hlength : bars.length < 2 ^ 64) :
    (intervalWindowStats bars = .ok none ↔ ∀ bar ∈ bars, bar.intervalMs = none) ∧
    ((∃ bar ∈ bars, bar.intervalMs ≠ none) →
      ∃ stats, intervalWindowStats bars = .ok (some stats) ∧ stats.Describes bars ∧
        ∀ low high, (∀ x ∈ knownIntervals bars, low ≤ x ∧ x ≤ high) →
          (low ≤ stats.medianMs.toInt ∧ stats.medianMs.toInt ≤ high) ∧
            low ≤ stats.meanMs.toInt ∧ stats.meanMs.toInt ≤ high) ∧
    ∀ recent, ∀ bar ∈ blockIntervalBars recent, ∃ block parent, (block, parent) ∈ windows recent ∧
      bar.height = block.height ∧ parent.height.toNat + 1 = block.height.toNat ∧
      bar.intervalMs.map Int64.toInt = block.timestampMs.bind fun this =>
        parent.timestampMs.map fun previous =>
          max minI64 (min maxI64 ((this.toNat : ℤ) - previous.toNat)) := by
  refine ⟨⟨fun h => ?_, fun h => ?_⟩, fun h => ?_,
    fun recent bar hbar => mem_blockIntervalBars hbar⟩
  · by_contra hknown
    rw [← knownIntervals_eq_nil] at hknown
    obtain ⟨stats, hstats, -⟩ := intervalWindowStats_known hlength hknown
    rw [hstats] at h
    cases h
  · exact intervalWindowStats_unknown (knownIntervals_eq_nil.2 h)
  · have hknown : knownIntervals bars ≠ [] := by
      rw [Ne, knownIntervals_eq_nil]
      push Not
      exact h
    obtain ⟨stats, hstats, hdescribes⟩ := intervalWindowStats_known hlength hknown
    exact ⟨stats, hstats, hdescribes, fun low high hbounds => hdescribes.mem hknown hbounds⟩

def extremeBars : List IntervalBar :=
  [⟨1, some Int64.minValue, none, none, false, none⟩, ⟨2, none, none, none, false, none⟩,
    ⟨3, some Int64.maxValue, none, none, true, some .hash⟩]

theorem interval_statistics_of_extremes : ∃ stats,
    intervalWindowStats extremeBars = .ok (some stats) ∧ stats.Describes extremeBars := by
  have h := interval_statistics_exact extremeBars (by decide)
  obtain ⟨stats, hstats, hdescribes, -⟩ := h.2.1 (by decide)
  exact ⟨stats, hstats, hdescribes⟩

end XusMiner.Gui
