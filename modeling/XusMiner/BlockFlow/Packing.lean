import XusMiner.BlockFlow.Histogram
import XusMiner.Library.Chunks

namespace XusMiner.BlockFlow
open Chunks

/-- The blocks so far, and what still fits into the last one. -/
structure Packing where
  blocks : List ProjectedBlock := []
  room : UInt64 := 0

/-- The block with another count, and this rate among its rates. -/
def ProjectedBlock.extend (block : ProjectedBlock) (rate txCount : UInt64) : ProjectedBlock :=
  ⟨txCount, min block.feeMinGrains rate, max block.feeMaxGrains rate⟩

/-- What becomes of `blocks.last_mut()`; `none` when there is no block, or no result. -/
def Packing.updateLast (packing : Packing) (update : ProjectedBlock → Option ProjectedBlock) :
    Option Packing :=
  packing.blocks.getLast?.bind fun last =>
    (update last).map fun block => { packing with blocks := packing.blocks.dropLast ++ [block] }

section
variable (merge : UInt64 → UInt64 → Option UInt64) (capacity : UInt64) (cap : ℕ)

/-- The turns of the loop over one bucket: `fuel` of them at most, and each takes at least one
transaction. The plain addition is `none` where it overflows; `merge` is the one that saturates. -/
def packBucket (rate : UInt64) : ℕ → UInt64 → Packing → Option Packing
  | 0, _, packing => some packing
  | fuel + 1, remaining, packing =>
    if remaining = 0 then some packing
    else if packing.room = 0 ∧ cap < packing.blocks.length then
      -- at the cap the rest of the bucket goes into the last block
      packing.updateLast fun last => (merge last.txCount remaining).map (last.extend rate)
    else
      let packing := if packing.room = 0 then
        ⟨packing.blocks ++ [⟨0, rate, rate⟩], capacity⟩ else packing
      let take := min remaining packing.room
      (packing.updateLast fun block => (checkedAdd block.txCount take).map (block.extend rate)).bind
        fun packing =>
          packBucket rate fuel (remaining - take) { packing with room := packing.room - take }

def packWith (histogram : MempoolHistogram) : Option (List ProjectedBlock) :=
  if histogram.maxBlockTxs = 0 ∨ histogram.txCount = 0 then some []
  else (histogram.buckets.foldlM (fun packing bucket =>
      packBucket merge histogram.maxBlockTxs cap bucket.feeRateGrains bucket.txCount.toNat
        bucket.txCount packing) {}).map fun packing =>
    -- the forming block is not one of the pending ones
    if packing.blocks.length ≤ 1 then [] else packing.blocks.drop 1

end

/-- The pending blocks behind the forming one; `none` stands for an overflow. -/
def packedPendingBlocks (histogram : MempoolHistogram) (cap : ℕ) : Option (List ProjectedBlock) :=
  packWith (fun a b => some (Engine.saturatingAdd a b)) cap histogram

/-- The same with a sum that overflows instead of saturating. -/
def packedWithoutSaturation (histogram : MempoolHistogram) (cap : ℕ) :
    Option (List ProjectedBlock) :=
  packWith checkedAdd cap histogram

/-- A block as it is shown: its size and the span of its rates. -/
def describe (rates : List UInt64) : ProjectedBlock :=
  ⟨UInt64.ofNat rates.length, rates.min?.getD 0, rates.max?.getD 0⟩

/-- The reference: cut the pending transactions into chunks of the block capacity, drop the
forming block, and merge what lies behind the cap. -/
def referenceChunks (histogram : MempoolHistogram) (cap : ℕ) : List (List UInt64) :=
  capped (cap - 1) ((chunks histogram.maxBlockTxs.toNat histogram.rates).drop 1)

theorem toNat_min (a b : UInt64) : (min a b).toNat = min a.toNat b.toNat := by
  rw [UInt64.min_def, apply_ite UInt64.toNat, Nat.min_def]
  exact if_congr UInt64.le_iff_toNat_le rfl rfl

theorem min_min_self (a b : UInt64) : min (min a b) b = min a b := by
  simp only [UInt64.min_def]
  split_ifs <;> simp_all

theorem max_max_self (a b : UInt64) : max (max a b) b = max a b := by
  simp only [UInt64.max_def]
  split_ifs <;> simp_all

theorem foldl_replicate {f : UInt64 → UInt64 → UInt64} (hf : ∀ a b, f (f a b) b = f a b)
    (a rate : UInt64) (n : ℕ) : (List.replicate (n + 1) rate).foldl f a = f a rate := by
  induction n with
  | zero => rfl
  | succ n ih => rw [List.replicate_succ', List.foldl_append, ih, List.foldl_cons, List.foldl_nil,
    hf]

/-- More of one rate in a block: its size grows, and the rate is among its rates. -/
theorem describe_append {rates : List UInt64} {rate : UInt64} {n : ℕ} (hne : rates ≠ [])
    (hn : 0 < n) :
    describe (rates ++ List.replicate n rate) =
      (describe rates).extend rate (UInt64.ofNat (rates.length + n)) := by
  obtain ⟨n, rfl⟩ := Nat.exists_eq_succ_of_ne_zero hn.ne'
  obtain ⟨first, rest, rfl⟩ := List.exists_cons_of_ne_nil hne
  rw [describe, describe, ProjectedBlock.extend, List.length_append, List.length_replicate,
    List.cons_append, List.min?_cons', List.min?_cons', List.max?_cons', List.max?_cons']
  simp only [Option.getD_some, List.foldl_append, foldl_replicate min_min_self,
    foldl_replicate max_max_self]

theorem describe_replicate {rate : UInt64} {n : ℕ} (hn : 0 < n) :
    describe (List.replicate n rate) = ⟨UInt64.ofNat n, rate, rate⟩ := by
  obtain ⟨n, rfl⟩ := Nat.exists_eq_succ_of_ne_zero hn.ne'
  have hmin (a : UInt64) : min a a = a := by simp [UInt64.min_def]
  have hmax (a : UInt64) : max a a = a := by simp [UInt64.max_def]
  have hfold {f : UInt64 → UInt64 → UInt64} (hf : ∀ a, f a a = a) :
      (List.replicate n rate).foldl f rate = rate := by
    clear hn
    induction n with
    | zero => rfl
    | succ n ih => rw [List.replicate_succ, List.foldl_cons, hf, ih]
  rw [describe, List.length_replicate, List.replicate_succ, List.min?_cons', List.max?_cons',
    hfold hmin, hfold hmax]
  rfl

/-- The packing after these rates: the blocks are their groups, and the room is what the groups
still hold. -/
structure Packs (capacity : UInt64) (cap : ℕ) (packing : Packing) (rates : List UInt64) :
    Prop where
  blocks : packing.blocks = (groups capacity.toNat cap rates).map describe
  room : packing.room.toNat =
    (groups capacity.toNat cap rates).length * capacity.toNat - rates.length

theorem Packing.updateLast_eq {packing : Packing} {front : List ProjectedBlock}
    {last : ProjectedBlock} (h : packing.blocks = front ++ [last])
    (update : ProjectedBlock → Option ProjectedBlock) :
    packing.updateLast update =
      (update last).map fun block => { packing with blocks := front ++ [block] } := by
  rw [updateLast, h, List.getLast?_concat, List.dropLast_concat, Option.bind_some]

/-- An addition that does nothing else while the sum fits. -/
def AddsExactly (add : UInt64 → UInt64 → Option UInt64) : Prop :=
  ∀ a b : UInt64, a.toNat + b.toNat < 2 ^ 64 → add a b = some (a + b)

section
variable {capacity : UInt64} {cap : ℕ} {packing : Packing} {rates : List UInt64}

theorem Packs.exists_last (h : Packs capacity cap packing rates) (hcapacity : 0 < capacity.toNat)
    (hne : rates ≠ []) : ∃ front last, groups capacity.toNat cap rates = front ++ [last] ∧
      last ≠ [] ∧ packing.blocks = front.map describe ++ [describe last] := by
  rcases List.eq_nil_or_concat (groups capacity.toNat cap rates) with hnil | ⟨front, last, heq⟩
  · exact absurd (groups_eq_nil_iff.mp hnil) hne
  · rw [List.concat_eq_append] at heq
    refine ⟨front, last, heq, ?_, ?_⟩
    · rintro rfl
      apply nil_not_mem_groups hcapacity cap rates
      simp [heq]
    · rw [h.blocks, heq, List.map_append]
      rfl

/-- Into the last block, while it has room or the packing is at its cap. -/
theorem Packs.append_last (rate count : UInt64) {add : UInt64 → UInt64 → Option UInt64}
    (h : Packs capacity cap packing rates) (hcapacity : 0 < capacity.toNat) (hne : rates ≠ [])
    (hcount : 0 < count.toNat) (hadd : AddsExactly add)
    (hlt : rates.length + count.toNat < 2 ^ 64)
    (hroom : packing.blocks.length = cap + 1 ∨ count.toNat ≤ packing.room.toNat) :
    (packing.updateLast fun last => (add last.txCount count).map (last.extend rate)) = some
        { packing with
          blocks := (groups capacity.toNat cap
            (rates ++ List.replicate count.toNat rate)).map describe } ∧
      (groups capacity.toNat cap (rates ++ List.replicate count.toNat rate)).length =
        (groups capacity.toNat cap rates).length := by
  obtain ⟨front, last, hgroups, hlast, hblocks⟩ := h.exists_last hcapacity hne
  have hlength : packing.blocks.length = (groups capacity.toNat cap rates).length := by
    rw [h.blocks, List.length_map]
  have hroom' : (groups capacity.toNat cap rates).length = cap + 1 ∨
      rates.length + (List.replicate count.toNat rate).length ≤
        (groups capacity.toNat cap rates).length * capacity.toNat := by
    rw [List.length_replicate]
    have := h.room
    omega
  have happend := groups_append_last hgroups hroom'
  have hle : last.length ≤ rates.length := by
    have hflatten := congrArg List.length (flatten_groups capacity.toNat cap rates)
    rw [hgroups, List.flatten_append, List.length_append, List.flatten_singleton] at hflatten
    omega
  have hlast64 : (UInt64.ofNat last.length).toNat = last.length := by
    rw [UInt64.toNat_ofNat']
    exact Nat.mod_eq_of_lt (by omega)
  have hsum : add (UInt64.ofNat last.length) count =
      some (UInt64.ofNat (last.length + count.toNat)) := by
    rw [hadd _ _ (by omega), UInt64.ofNat_add, UInt64.ofNat_toNat]
  constructor
  · rw [Packing.updateLast_eq hblocks, happend]
    show ((add (UInt64.ofNat last.length) count).map _).map _ = _
    rw [hsum, List.map_append, List.map_singleton, describe_append hlast hcount]
    rfl
  · rw [happend, hgroups, List.length_append, List.length_append]
    rfl

/-- Into a new block, when the last one is full and the packing below its cap. -/
theorem Packs.append_new (rate count : UInt64) (h : Packs capacity cap packing rates)
    (hcount : 0 < count.toNat) (hfit : count.toNat ≤ capacity.toNat)
    (hfull : packing.room = 0) (hcap : packing.blocks.length ≤ cap) :
    ((⟨packing.blocks ++ [⟨0, rate, rate⟩], capacity⟩ : Packing).updateLast fun last =>
        (checkedAdd last.txCount count).map (last.extend rate)) = some
        ⟨(groups capacity.toNat cap (rates ++ List.replicate count.toNat rate)).map describe,
          capacity⟩ ∧
      (groups capacity.toNat cap (rates ++ List.replicate count.toNat rate)).length =
        (groups capacity.toNat cap rates).length + 1 := by
  have hlength : packing.blocks.length = (groups capacity.toNat cap rates).length := by
    rw [h.blocks, List.length_map]
  have hroom := h.room
  rw [hfull, UInt64.toNat_zero] at hroom
  have hne : List.replicate count.toNat rate ≠ [] := by
    rw [ne_eq, List.replicate_eq_nil_iff]
    omega
  have happend := groups_append_new (k := cap) (m := capacity.toNat) (by omega)
    (by omega : _ ≤ rates.length) hne (by rw [List.length_replicate]; exact hfit)
  have hsum : checkedAdd 0 count = some count := by
    rw [checkedAdd_eq (by rw [UInt64.toNat_zero, Nat.zero_add]; exact count.toNat_lt),
      UInt64.zero_add]
  constructor
  · rw [Packing.updateLast_eq rfl, happend]
    show ((checkedAdd 0 count).map _).map _ = _
    rw [hsum, List.map_append, List.map_singleton, describe_replicate hcount, h.blocks,
      UInt64.ofNat_toNat]
    simp [ProjectedBlock.extend, UInt64.min_def, UInt64.max_def]
  · rw [happend, List.length_append]
    rfl

/-- One turn below the cap: what fits is taken, into a new block when there is no room. -/
theorem Packs.turn (rate : UInt64) {remaining : UInt64} (h : Packs capacity cap packing rates)
    (hcapacity : 0 < capacity.toNat) (hpos : 0 < remaining.toNat)
    (hlt : rates.length + remaining.toNat < 2 ^ 64)
    (hcap : ¬(packing.room = 0 ∧ cap < packing.blocks.length)) {opened : Packing}
    (hopened : opened = if packing.room = 0 then
      ⟨packing.blocks ++ [⟨0, rate, rate⟩], capacity⟩ else packing) {take : UInt64}
    (htake : take = min remaining opened.room) :
    0 < take.toNat ∧ take.toNat ≤ remaining.toNat ∧
      ∃ next, (opened.updateLast fun last =>
          (checkedAdd last.txCount take).map (last.extend rate)) = some next ∧
        Packs capacity cap { next with room := next.room - take }
          (rates ++ List.replicate take.toNat rate) := by
  have hmin := congrArg UInt64.toNat htake
  have hroom := h.room
  have hlength : packing.blocks.length = (groups capacity.toNat cap rates).length := by
    rw [h.blocks, List.length_map]
  rw [toNat_min] at hmin
  by_cases hfull : packing.room = 0
  · rw [if_pos hfull] at hopened
    subst hopened
    rw [hfull, UInt64.toNat_zero] at hroom
    have hle : packing.blocks.length ≤ cap := not_lt.mp fun hgt => hcap ⟨hfull, hgt⟩
    have hunmerged : rates.length ≤ (groups capacity.toNat cap rates).length * capacity.toNat :=
      length_le_of_groups hcapacity (by omega)
    dsimp only at hmin
    obtain ⟨hupdate, hgroups⟩ := h.append_new rate take (by omega) (by omega) hfull hle
    refine ⟨by omega, by omega, _, hupdate, rfl, ?_⟩
    show (capacity - take).toNat = _
    rw [UInt64.toNat_sub_of_le _ _ (UInt64.le_iff_toNat_le.mpr (by omega)), hgroups,
      Nat.succ_mul, List.length_append, List.length_replicate]
    omega
  · rw [if_neg hfull] at hopened
    subst hopened
    have hroomPos : 0 < opened.room.toNat :=
      Nat.pos_of_ne_zero fun hzero => hfull (UInt64.toNat_inj.mp hzero)
    have hne : rates ≠ [] := by
      rintro rfl
      rw [groups_nil, List.length_nil] at hroom
      omega
    obtain ⟨hupdate, hgroups⟩ := h.append_last rate take hcapacity hne (by omega)
      (fun _ _ => checkedAdd_eq) (by omega) (.inr (by omega))
    refine ⟨by omega, by omega, _, hupdate, rfl, ?_⟩
    show (opened.room - take).toNat = _
    rw [UInt64.toNat_sub_of_le _ _ (UInt64.le_iff_toNat_le.mpr (by omega)), hgroups,
      List.length_append, List.length_replicate]
    omega

/-- The step: a bucket's transactions come after those of the buckets before it. -/
theorem packBucket_packs (rate : UInt64) {merge : UInt64 → UInt64 → Option UInt64} {fuel : ℕ}
    {remaining : UInt64} (hmerge : AddsExactly merge) (hcapacity : 0 < capacity.toNat)
    (h : Packs capacity cap packing rates) (hlt : rates.length + remaining.toNat < 2 ^ 64)
    (hfuel : remaining.toNat ≤ fuel) :
    ∃ packing', packBucket merge capacity cap rate fuel remaining packing = some packing' ∧
      Packs capacity cap packing' (rates ++ List.replicate remaining.toNat rate) := by
  induction fuel generalizing packing rates remaining with
  | zero =>
    refine ⟨packing, rfl, ?_⟩
    rw [Nat.le_zero.mp hfuel, List.replicate_zero, List.append_nil]
    exact h
  | succ fuel ih =>
    unfold packBucket
    by_cases hdone : remaining = 0
    · refine ⟨packing, if_pos hdone, ?_⟩
      rw [hdone, UInt64.toNat_zero, List.replicate_zero, List.append_nil]
      exact h
    have hpos : 0 < remaining.toNat :=
      Nat.pos_of_ne_zero fun hzero => hdone (UInt64.toNat_inj.mp hzero)
    have hlength : packing.blocks.length = (groups capacity.toNat cap rates).length := by
      rw [h.blocks, List.length_map]
    have hgroups := length_groups hcapacity cap rates
    rw [if_neg hdone]
    by_cases hfull : packing.room = 0 ∧ cap < packing.blocks.length
    · -- the tail of the packing: the last block takes the whole bucket
      have hne : rates ≠ [] := by
        rintro rfl
        rw [groups_nil, List.length_nil] at hlength
        omega
      obtain ⟨hupdate, hsame⟩ := h.append_last rate remaining hcapacity hne hpos hmerge hlt
        (.inl (by omega))
      rw [if_pos hfull]
      refine ⟨_, hupdate, rfl, ?_⟩
      have hroom := h.room
      rw [hfull.1, UInt64.toNat_zero] at hroom
      show packing.room.toNat = _
      rw [hsame, hfull.1, UInt64.toNat_zero, List.length_append]
      omega
    rw [if_neg hfull]
    obtain ⟨htake, hle, next, hupdate, hnext⟩ :=
      h.turn rate hcapacity hpos hlt hfull rfl rfl
    dsimp only
    rw [hupdate, Option.bind_some]
    generalize min remaining (if packing.room = 0 then
      (⟨packing.blocks ++ [⟨0, rate, rate⟩], capacity⟩ : Packing) else packing).room = take
      at htake hle hnext ⊢
    have hrest : (remaining - take).toNat = remaining.toNat - take.toNat :=
      UInt64.toNat_sub_of_le _ _ (UInt64.le_iff_toNat_le.mpr hle)
    obtain ⟨packing', hrun, hpacks⟩ := ih hnext
      (by rw [List.length_append, List.length_replicate, hrest]; omega) (by omega)
    refine ⟨packing', hrun, ?_⟩
    rw [List.append_assoc, ← List.replicate_add, hrest, Nat.add_sub_cancel' hle] at hpacks
    exact hpacks

/-- The run: induction on the buckets. -/
theorem foldlM_packs {merge : UInt64 → UInt64 → Option UInt64} {buckets : List HistogramBucket}
    (hmerge : AddsExactly merge) (hcapacity : 0 < capacity.toNat)
    (h : Packs capacity cap packing rates)
    (hlt : rates.length + (buckets.map (·.txCount.toNat)).sum < 2 ^ 64) :
    ∃ packing', buckets.foldlM (fun packing bucket => packBucket merge capacity cap
        bucket.feeRateGrains bucket.txCount.toNat bucket.txCount packing) packing =
        some packing' ∧
      Packs capacity cap packing' (rates ++ buckets.flatMap fun bucket =>
        List.replicate bucket.txCount.toNat bucket.feeRateGrains) := by
  induction buckets generalizing packing rates with
  | nil =>
    refine ⟨packing, rfl, ?_⟩
    rw [List.flatMap_nil, List.append_nil]
    exact h
  | cons bucket buckets ih =>
    rw [List.map_cons, List.sum_cons] at hlt
    have hfit : rates.length + bucket.txCount.toNat < 2 ^ 64 := by omega
    obtain ⟨next, hbucket, hnext⟩ := packBucket_packs bucket.feeRateGrains hmerge hcapacity h hfit
      le_rfl
    obtain ⟨packing', hrest, hpacks⟩ := ih hnext
      (by rw [List.length_append, List.length_replicate]; omega)
    refine ⟨packing', ?_, ?_⟩
    · rw [List.foldlM_cons, hbucket]
      exact hrest
    · rw [List.flatMap_cons, ← List.append_assoc]
      exact hpacks

end

section
variable {histogram : MempoolHistogram} {cap : ℕ}

/-- The reference is one cut of what lies behind the forming block. -/
theorem referenceChunks_eq (h : histogram.Valid) (cap : ℕ) :
    referenceChunks histogram cap = groups histogram.maxBlockTxs.toNat (cap - 1)
      (histogram.rates.drop histogram.maxBlockTxs.toNat) := by
  unfold referenceChunks
  rw [← capped_chunks h.capacity]
  congr 1
  by_cases hnil : histogram.rates = []
  · simp [hnil]
  · rw [chunks_of_ne_nil h.capacity hnil]
    rfl

theorem packWith_eq {merge : UInt64 → UInt64 → Option UInt64} (hmerge : AddsExactly merge)
    (h : histogram.Valid) (hcap : 1 ≤ cap) :
    packWith merge cap histogram = some ((referenceChunks histogram cap).map describe) := by
  rw [referenceChunks_eq h]
  have hcapacity : histogram.maxBlockTxs ≠ 0 := by
    intro hzero
    have hpos := h.capacity
    rw [hzero] at hpos
    exact absurd hpos (by decide)
  have hlength := h.length_rates
  unfold packWith
  by_cases hempty : histogram.txCount = 0
  · have hrates : histogram.rates = [] := List.length_eq_zero_iff.mp (by rw [hlength, hempty]; rfl)
    rw [if_pos (.inr hempty), hrates, List.drop_nil, groups_nil]
    rfl
  have hrates : histogram.rates ≠ [] := by
    intro hnil
    rw [hnil, List.length_nil] at hlength
    exact hempty (UInt64.toNat_inj.mp hlength.symm)
  have hstart : Packs histogram.maxBlockTxs cap {} [] := by
    constructor <;> simp
  have hlt : ([] : List UInt64).length + (histogram.buckets.map (·.txCount.toNat)).sum < 2 ^ 64 :=
    by
    rw [h.sum, List.length_nil, Nat.zero_add]
    exact histogram.txCount.toNat_lt
  obtain ⟨packing, hrun, hpacks⟩ := foldlM_packs hmerge h.capacity hstart hlt
  rw [if_neg (not_or.mpr ⟨hcapacity, hempty⟩), hrun, Option.map_some]
  have hdrop : (if packing.blocks.length ≤ 1 then [] else packing.blocks.drop 1) =
      packing.blocks.drop 1 := by
    split_ifs with hle
    · exact (List.drop_eq_nil_of_le hle).symm
    · rfl
  obtain ⟨cap, rfl⟩ := Nat.exists_eq_add_of_le' hcap
  rw [hdrop, hpacks.blocks, List.nil_append, ← List.map_drop]
  show some (((groups histogram.maxBlockTxs.toNat (cap + 1) histogram.rates).drop 1).map describe) =
    _
  rw [groups_succ hrates]
  rfl

theorem max?_eq_some_iff {rates : List UInt64} {rate : UInt64} :
    rates.max? = some rate ↔ rate ∈ rates ∧ ∀ r ∈ rates, r ≤ rate := by
  have hlawful : Std.LawfulOrderMax UInt64 := {
    max_le_iff := by
      intro a b c
      rw [UInt64.max_def]
      split_ifs with hle
      · exact ⟨fun hb => ⟨UInt64.le_trans hle hb, hb⟩, And.right⟩
      · have hle' := UInt64.le_of_lt (UInt64.not_le.mp hle)
        exact ⟨fun ha => ⟨ha, UInt64.le_trans hle' ha⟩, And.left⟩
    max_eq_or := by
      intro a b
      rw [UInt64.max_def]
      split_ifs
      · exact .inr rfl
      · exact .inl rfl }
  exact List.max?_eq_some_iff

/-- A block spans the rates of its transactions. -/
theorem min?_describe {rates : List UInt64} (hne : rates ≠ []) :
    rates.min? = some (describe rates).feeMinGrains := by
  obtain ⟨first, rest, rfl⟩ := List.exists_cons_of_ne_nil hne
  rw [describe, List.min?_cons']
  rfl

theorem max?_describe {rates : List UInt64} (hne : rates ≠ []) :
    rates.max? = some (describe rates).feeMaxGrains := by
  obtain ⟨first, rest, rfl⟩ := List.exists_cons_of_ne_nil hne
  rw [describe, List.max?_cons']
  rfl

/-- No block of the reference is as large as 2^64. -/
theorem txCount_describe (h : histogram.Valid) {chunk : List UInt64}
    (hchunk : chunk ∈ referenceChunks histogram cap) :
    (describe chunk).txCount.toNat = chunk.length := by
  rw [referenceChunks_eq h] at hchunk
  have hflatten := flatten_groups histogram.maxBlockTxs.toNat (cap - 1)
    (histogram.rates.drop histogram.maxBlockTxs.toNat)
  have hle := (List.sublist_flatten_of_mem hchunk).length_le
  rw [hflatten, List.length_drop, h.length_rates] at hle
  have := histogram.txCount.toNat_lt
  rw [describe, UInt64.toNat_ofNat']
  exact Nat.mod_eq_of_lt (by omega)

theorem packedPendingBlocks_eq (h : histogram.Valid) (hcap : 1 ≤ cap) :
    packedPendingBlocks histogram cap = some ((referenceChunks histogram cap).map describe) :=
  packWith_eq (fun _ _ hlt => congrArg some (Engine.saturatingAdd_eq hlt)) h hcap

theorem sum_referenceChunks (h : histogram.Valid) (cap : ℕ) :
    (((referenceChunks histogram cap).map describe).map (·.txCount.toNat)).sum =
      histogram.txCount.toNat - histogram.maxBlockTxs.toNat := by
  have hcounts : ((referenceChunks histogram cap).map describe).map (·.txCount.toNat) =
      (referenceChunks histogram cap).map List.length := by
    rw [List.map_map]
    exact List.map_congr_left fun chunk hchunk => txCount_describe h hchunk
  rw [hcounts, referenceChunks_eq h, ← List.length_flatten, flatten_groups, List.length_drop,
    h.length_rates]

theorem full_referenceChunks (h : histogram.Valid) (cap : ℕ) :
    ∀ block ∈ ((referenceChunks histogram cap).map describe).dropLast,
      block.txCount = histogram.maxBlockTxs := by
  intro block hblock
  rw [← List.map_dropLast, List.mem_map] at hblock
  obtain ⟨chunk, hchunk, rfl⟩ := hblock
  have hcount := txCount_describe h (List.mem_of_mem_dropLast hchunk)
  rw [referenceChunks_eq h] at hchunk
  exact UInt64.toNat_inj.mp (hcount.trans (length_of_mem_dropLast_groups hchunk))

/-- What comes later in the packing pays at most what comes earlier. -/
theorem sorted_referenceChunks (h : histogram.Valid) (cap : ℕ) :
    ((referenceChunks histogram cap).map describe).Pairwise fun a b =>
      b.feeMaxGrains ≤ a.feeMinGrains := by
  rw [referenceChunks_eq h, List.pairwise_map]
  have hsorted : (groups histogram.maxBlockTxs.toNat (cap - 1)
      (histogram.rates.drop histogram.maxBlockTxs.toNat)).flatten.Pairwise (· ≥ ·) := by
    rw [flatten_groups]
    exact h.sorted_rates.sublist (List.drop_sublist _ _)
  rw [List.pairwise_flatten] at hsorted
  refine hsorted.2.imp_of_mem fun {a b} ha hb hab => ?_
  have hne {chunk : List UInt64} (hchunk : chunk ∈ groups histogram.maxBlockTxs.toNat (cap - 1)
      (histogram.rates.drop histogram.maxBlockTxs.toNat)) : chunk ≠ [] := by
    rintro rfl
    exact nil_not_mem_groups h.capacity _ _ hchunk
  exact hab _ (List.min?_eq_some_iff.mp (min?_describe (hne ha))).1 _
    (max?_eq_some_iff.mp (max?_describe (hne hb))).1

theorem length_referenceChunks (h : histogram.Valid) (hcap : 1 ≤ cap) :
    (referenceChunks histogram cap).length = min cap (backlogDepth histogram).toNat := by
  rw [referenceChunks_eq h, length_groups h.capacity, List.length_drop, h.length_rates,
    backlogDepth_toNat h, Nat.sub_add_cancel hcap]

end

/-- The packing is its reference, whatever the reply and the cap. No sum overflows or saturates:
the packing whose every sum is checked gives the same. No transaction is lost or counted twice,
all blocks but the last are full, their spans do not rise, and they are as many as the cap and
the depth allow. -/
theorem packing_equals_reference (value : Value) (histogram : MempoolHistogram) (cap : ℕ)
    (hparse : mempoolHistogram value = some histogram) (hcap : 1 ≤ cap) :
    packedPendingBlocks histogram cap = some ((referenceChunks histogram cap).map describe) ∧
    packedWithoutSaturation histogram cap = packedPendingBlocks histogram cap ∧
    (∀ chunk ∈ referenceChunks histogram cap, (describe chunk).txCount.toNat = chunk.length) ∧
    ∀ blocks, packedPendingBlocks histogram cap = some blocks →
      (blocks.map (·.txCount.toNat)).sum =
        histogram.txCount.toNat - histogram.maxBlockTxs.toNat ∧
      (∀ block ∈ blocks.dropLast, block.txCount = histogram.maxBlockTxs) ∧
      (blocks.Pairwise fun a b => b.feeMaxGrains ≤ a.feeMinGrains) ∧
      blocks.length = min cap (backlogDepth histogram).toNat := by
  have h := valid_of_mempoolHistogram hparse
  have hpacked := packedPendingBlocks_eq h hcap
  have hchecked : packedWithoutSaturation histogram cap = _ :=
    packWith_eq (fun _ _ => checkedAdd_eq) h hcap
  refine ⟨hpacked, hchecked.trans hpacked.symm, fun chunk => txCount_describe h, ?_⟩
  intro blocks hblocks
  obtain rfl := Option.some.inj (hblocks.symm.trans hpacked)
  refine ⟨sum_referenceChunks h cap, full_referenceChunks h cap, sorted_referenceChunks h cap, ?_⟩
  rw [List.length_map]
  exact length_referenceChunks h hcap

section DeepMempool

/-- Seven transactions of three rates, two to a block. -/
def deepReply : Value :=
  .object [("buckets", .array [
      .object [("feeRateGrains", .string "30"), ("txCount", .nat 3)],
      .object [("feeRateGrains", .string "20"), ("txCount", .nat 0)],
      .object [("feeRateGrains", .string "10"), ("txCount", .nat 4)]]),
    ("maxBlockTxs", .nat 2), ("txCount", .nat 7)]

def deepMempool : MempoolHistogram := ⟨7, 2, [⟨30, 3⟩, ⟨20, 0⟩, ⟨10, 4⟩]⟩

theorem deep_packing :
    packedPendingBlocks deepMempool 2 = some [⟨2, 10, 30⟩, ⟨3, 10, 10⟩] ∧
      packedPendingBlocks deepMempool 2 =
        some ((referenceChunks deepMempool 2).map describe) := by
  have hparse : mempoolHistogram deepReply = some deepMempool := by decide
  exact ⟨by decide, (packing_equals_reference deepReply deepMempool 2 hparse
    (by decide)).1⟩

end DeepMempool

end XusMiner.BlockFlow
