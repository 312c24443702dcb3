import XusMiner.BlockFlow.Blocks
import XusMiner.Engine.MemoryGate
import XusMiner.Library.Delimiters

namespace XusMiner.BlockFlow

def maxProjectedBlocks : ℕ := 6
def maxBacklogBlocks : ℕ := 24
def maxHistogramBuckets : ℕ := 512

/-- An amount in grains: an integer, or a decimal string. -/
def grains (value : Value) : Option UInt64 :=
  value.asU64.or
    (value.asStr.bind fun raw =>
      (Strings.parseUnsigned (2 ^ 64) (Strings.trim raw)).map UInt64.ofNat)

structure HistogramBucket where
  feeRateGrains : UInt64
  txCount : UInt64
  deriving DecidableEq

structure MempoolHistogram where
  txCount : UInt64
  maxBlockTxs : UInt64
  buckets : List HistogramBucket
  deriving DecidableEq

def histogramBucket (bucket : Value) : Option HistogramBucket := do
  let feeRateGrains ← (bucket.get "feeRateGrains").bind grains
  let txCount ← (bucket.get "txCount").bind grains
  some ⟨feeRateGrains, txCount⟩

def checkedAdd (a b : UInt64) : Option UInt64 :=
  if a.toNat + b.toNat < 2 ^ 64 then some (a + b) else none

/-- The reply of `sov_getMempoolHistogram`; any malformed field refuses it whole. -/
def mempoolHistogram (value : Value) : Option MempoolHistogram := do
  let txCount ← (value.get "txCount").bind grains
  let maxBlockTxs ← (value.get "maxBlockTxs").bind grains
  guard (maxBlockTxs ≠ 0)
  let rawBuckets ← (value.get "buckets").bind Value.asArray
  guard (rawBuckets.length ≤ maxHistogramBuckets)
  let buckets ← rawBuckets.mapM histogramBucket
  -- the highest rate first, as the node's auction admits them
  guard (buckets.IsChain fun a b => b.feeRateGrains ≤ a.feeRateGrains)
  let bucketSum ← buckets.foldlM (fun sum bucket => checkedAdd sum bucket.txCount) 0
  guard (bucketSum = txCount)
  some ⟨txCount, maxBlockTxs, buckets⟩

structure ProjectedBlock where
  txCount : UInt64
  feeMinGrains : UInt64
  feeMaxGrains : UInt64
  deriving DecidableEq

def divCeil (a b : UInt64) : UInt64 := if a % b = 0 then a / b else a / b + 1

/-- The number of full blocks behind the forming one. -/
def backlogDepth (histogram : MempoolHistogram) : UInt64 :=
  if histogram.maxBlockTxs = 0 then 0
  else divCeil (Engine.saturatingSub histogram.txCount histogram.maxBlockTxs) histogram.maxBlockTxs

/-- What an accepted reply guarantees. -/
structure MempoolHistogram.Valid (histogram : MempoolHistogram) : Prop where
  capacity : 0 < histogram.maxBlockTxs.toNat
  sorted : histogram.buckets.Pairwise fun a b => b.feeRateGrains ≤ a.feeRateGrains
  sum : (histogram.buckets.map (·.txCount.toNat)).sum = histogram.txCount.toNat

theorem checkedAdd_eq_some {a b c : UInt64} (h : checkedAdd a b = some c) :
    a.toNat + b.toNat = c.toNat := by
  unfold checkedAdd at h
  split_ifs at h with hlt
  rw [← Option.some.inj h, UInt64.toNat_add, Nat.mod_eq_of_lt hlt]

theorem checkedAdd_eq {a b : UInt64} (h : a.toNat + b.toNat < 2 ^ 64) :
    checkedAdd a b = some (a + b) := if_pos h

theorem sum_of_foldlM {buckets : List HistogramBucket} {start total : UInt64}
    (h : buckets.foldlM (fun sum bucket => checkedAdd sum bucket.txCount) start = some total) :
    start.toNat + (buckets.map (·.txCount.toNat)).sum = total.toNat := by
  induction buckets generalizing start with
  | nil =>
    cases h
    simp
  | cons bucket buckets ih =>
    rw [List.foldlM_cons, Option.bind_eq_bind, Option.bind_eq_some_iff] at h
    obtain ⟨sum, hsum, hrest⟩ := h
    rw [List.map_cons, List.sum_cons, ← ih hrest, ← checkedAdd_eq_some hsum, Nat.add_assoc]

theorem valid_of_mempoolHistogram {value : Value} {histogram : MempoolHistogram}
    (h : mempoolHistogram value = some histogram) : histogram.Valid := by
  simp only [mempoolHistogram, Option.bind_eq_bind, Option.bind_eq_some_iff, Option.guard_eq_some']
    at h
  obtain ⟨txCount, -, maxBlockTxs, -, -, hcapacity, raw, -, -, -, buckets, -, -, hsorted, total,
    hsum, -, rfl, hsome⟩ := h
  cases hsome
  have htrans : IsTrans HistogramBucket fun a b => b.feeRateGrains ≤ a.feeRateGrains :=
    ⟨fun _ _ _ hab hbc => UInt64.le_trans hbc hab⟩
  refine ⟨Nat.pos_of_ne_zero fun hzero => hcapacity (UInt64.toNat_inj.mp hzero),
    List.isChain_iff_pairwise.mp hsorted, ?_⟩
  have h := sum_of_foldlM hsum
  rwa [UInt64.toNat_zero, Nat.zero_add] at h

theorem divCeil_toNat {a b : UInt64} (hb : 0 < b.toNat) :
    (divCeil a b).toNat = (a.toNat + b.toNat - 1) / b.toNat := by
  have hsplit := Nat.div_add_mod a.toNat b.toNat
  have hmod := Nat.mod_lt a.toNat hb
  unfold divCeil
  split_ifs with hzero
  · have hzero' : a.toNat % b.toNat = 0 := by
      rw [← UInt64.toNat_mod, hzero, UInt64.toNat_zero]
    have hsum : a.toNat + b.toNat - 1 = b.toNat * (a.toNat / b.toNat) + (b.toNat - 1) := by omega
    rw [UInt64.toNat_div, hsum, Nat.mul_add_div hb,
      Nat.div_eq_of_lt (show b.toNat - 1 < b.toNat by omega), Nat.add_zero]
  · have hne : a.toNat % b.toNat ≠ 0 := by
      rw [← UInt64.toNat_mod, ← UInt64.toNat_zero]
      exact fun heq => hzero (UInt64.toNat_inj.mp heq)
    have hle : a.toNat / b.toNat < 2 ^ 64 - 1 := by
      have h := Nat.div_lt_self (n := a.toNat) (k := b.toNat) (by omega) (by omega)
      have := a.toNat_lt
      omega
    have hsum : a.toNat + b.toNat - 1 =
        b.toNat * (a.toNat / b.toNat + 1) + (a.toNat % b.toNat - 1) := by
      rw [Nat.mul_add, Nat.mul_one]
      omega
    rw [UInt64.toNat_add, UInt64.toNat_div, UInt64.toNat_one, hsum, Nat.mul_add_div hb,
      Nat.div_eq_of_lt (show a.toNat % b.toNat - 1 < b.toNat by omega), Nat.add_zero]
    exact Nat.mod_eq_of_lt (by omega)

theorem backlogDepth_toNat {histogram : MempoolHistogram} (h : histogram.Valid) :
    (backlogDepth histogram).toNat =
      (histogram.txCount.toNat - histogram.maxBlockTxs.toNat + histogram.maxBlockTxs.toNat - 1) /
        histogram.maxBlockTxs.toNat := by
  have hne : histogram.maxBlockTxs ≠ 0 := by
    intro hzero
    have hpos := h.capacity
    rw [hzero] at hpos
    exact absurd hpos (by decide)
  rw [backlogDepth, if_neg hne, divCeil_toNat h.capacity, Engine.saturatingSub_toNat]

/-- The fee rate of every pending transaction, in the order of the buckets. -/
def MempoolHistogram.rates (histogram : MempoolHistogram) : List UInt64 :=
  histogram.buckets.flatMap fun bucket => List.replicate bucket.txCount.toNat bucket.feeRateGrains

theorem MempoolHistogram.Valid.length_rates {histogram : MempoolHistogram}
    (h : histogram.Valid) : histogram.rates.length = histogram.txCount.toNat := by
  rw [← h.sum, rates, List.length_flatMap]
  simp

theorem MempoolHistogram.Valid.sorted_rates {histogram : MempoolHistogram}
    (h : histogram.Valid) : histogram.rates.Pairwise (· ≥ ·) := by
  unfold rates
  rw [List.pairwise_flatMap]
  refine ⟨fun bucket _ => ?_, h.sorted.imp fun {a b} hab x hx y hy => ?_⟩
  · exact List.pairwise_replicate.mpr (.inr (UInt64.le_refl _))
  · rw [List.eq_of_mem_replicate hx, List.eq_of_mem_replicate hy]
    exact hab

end XusMiner.BlockFlow
