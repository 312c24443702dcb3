import Std.Data.ExtTreeMap
import XusMiner.BlockFlow.Blocks

namespace XusMiner.BlockFlow

inductive TipAdvance
  | baseline (height : Nat)
  | blocks (report : List Nat) (omitted omittedFrom omittedTo : Nat)
  | unchanged
  deriving DecidableEq

inductive BlockRecord
  | new
  | alreadyReported
  | reorg (previousHash : String)
  deriving DecidableEq

structure TipWatch where
  lastTip : Option Nat := none
  needsBaseline : Bool := false
  reported : Std.ExtTreeMap Nat (Option String) := {}

namespace TipWatch

def beginSession (watch : TipWatch) : TipWatch := { watch with needsBaseline := true }

/-- Drops the oldest heights until at most `fuel` fewer are left, or the bound is met. -/
def pruneReported (reported : Std.ExtTreeMap Nat (Option String)) :
    Nat → Std.ExtTreeMap Nat (Option String)
  | 0 => reported
  | fuel + 1 =>
    if maxReportedTracked < reported.size then
      match reported.minKey? with
      | some oldest => pruneReported (reported.erase oldest) fuel
      | none => reported
    else reported

/-- The loop ends after at most one turn for each entry. -/
def prune (watch : TipWatch) : TipWatch :=
  { watch with reported := pruneReported watch.reported watch.reported.size }

/-- The first observation of a session remembers the tip, its hash still unknown. -/
def rebaseline (watch : TipWatch) (tip : Nat) : TipWatch :=
  { watch with
    needsBaseline := false, lastTip := some tip,
    reported := if watch.reported.contains tip then watch.reported
      else watch.reported.insert tip none : TipWatch }.prune

def observeTip (watch : TipWatch) (tip : Nat) : TipAdvance × TipWatch :=
  match watch.lastTip with
  | none => (.baseline tip, watch.rebaseline tip)
  | some last =>
    if watch.needsBaseline then (.baseline tip, watch.rebaseline tip)
    else if tip ≤ last then (.unchanged, { watch with lastTip := some (min tip last) })
    else
      -- only the newest `maxGapBlocks` of a long gap are reported
      let gap := tip - last
      let reported := min gap maxGapBlocks
      let firstReported := tip - reported + 1
      (.blocks (List.range' firstReported reported) (gap - reported) (last + 1) (firstReported - 1),
        { watch with lastTip := some tip })

def record (watch : TipWatch) (height : Nat) (hash : Option String) (announceNew : Bool) :
    BlockRecord × TipWatch :=
  let hash := hash.bind boundedHash
  match watch.reported[height]? with
  | some existing =>
    match existing, hash with
    | some previous, some new =>
      if previous ≠ new then
        (.reorg previous, { watch with reported := watch.reported.insert height (some new) }.prune)
      else (.alreadyReported, watch.prune)
    -- the tip of a baseline learns its hash
    | none, some new =>
      (.alreadyReported, { watch with reported := watch.reported.insert height (some new) }.prune)
    | _, none => (.alreadyReported, watch.prune)
  | none =>
    (if announceNew then .new else .alreadyReported,
      { watch with reported := watch.reported.insert height hash }.prune)

def recordReported (watch : TipWatch) (height : Nat) (hash : Option String) :
    BlockRecord × TipWatch := watch.record height hash true

def observeFetched (watch : TipWatch) (height : Nat) (hash : Option String) :
    BlockRecord × TipWatch := watch.record height hash false

end TipWatch

def TipAdvance.report : TipAdvance → List Nat
  | .blocks report _ _ _ => report
  | _ => []

namespace TipWatch

/-- The heights above the last observed tip that the next observation of `tip` announces. -/
def Announces (watch : TipWatch) (tip height : Nat) : Prop :=
  watch.needsBaseline = false ∧
    ∃ last ∈ watch.lastTip, last < height ∧ height ≤ tip ∧ tip < height + maxGapBlocks

instance (watch : TipWatch) (tip height : Nat) : Decidable (watch.Announces tip height) :=
  inferInstanceAs (Decidable (_ ∧ _))

theorem record_frame (watch : TipWatch) (height : Nat) (hash : Option String) (announce : Bool) :
    (watch.record height hash announce).2.lastTip = watch.lastTip ∧
      (watch.record height hash announce).2.needsBaseline = watch.needsBaseline := by
  unfold record
  dsimp only
  split
  · split
    · split_ifs <;> exact ⟨rfl, rfl⟩
    · exact ⟨rfl, rfl⟩
    · exact ⟨rfl, rfl⟩
  · exact ⟨rfl, rfl⟩

theorem observeTip_settles (watch : TipWatch) (tip : Nat) :
    (watch.observeTip tip).2.lastTip = some tip ∧
      (watch.observeTip tip).2.needsBaseline = false := by
  unfold observeTip
  split
  · exact ⟨rfl, rfl⟩
  · rw [apply_ite Prod.snd, apply_ite Prod.snd]
    split_ifs with hbaseline htip
    · exact ⟨rfl, rfl⟩
    · exact ⟨congrArg some (min_eq_left htip), by simpa using hbaseline⟩
    · exact ⟨rfl, by simpa using hbaseline⟩

theorem report_observeTip (watch : TipWatch) (tip : Nat) :
    (watch.observeTip tip).1.report.Pairwise (· < ·) ∧
      ∀ height, height ∈ (watch.observeTip tip).1.report ↔ watch.Announces tip height := by
  unfold observeTip
  split
  · rename_i hlast
    exact ⟨.nil, by simp [TipAdvance.report, Announces, hlast]⟩
  · rename_i last hlast
    rw [apply_ite Prod.fst, apply_ite Prod.fst]
    split_ifs with hbaseline htip
    · exact ⟨.nil, by simp [TipAdvance.report, Announces, hbaseline]⟩
    · refine ⟨.nil, fun height => ?_⟩
      simp only [TipAdvance.report, List.not_mem_nil, Announces, hlast, Option.mem_some_iff,
        false_iff, not_and, not_exists]
      rintro - last' rfl hlt hle
      omega
    · refine ⟨List.pairwise_lt_range', fun height => ?_⟩
      simp only [TipAdvance.report, List.mem_range'_1, Announces, hlast, Option.mem_some_iff,
        exists_eq_left', maxGapBlocks]
      constructor
      · intro h
        exact ⟨by simpa using hbaseline, by omega, by omega, by omega⟩
      · rintro ⟨-, hlt, hle, hgap⟩
        omega

/-- Once a tip has been observed, observing it again announces nothing. -/
theorem not_announces_of_settled {watch : TipWatch} {tip height : Nat}
    (h : watch.lastTip = some tip) : ¬watch.Announces tip height := by
  rintro ⟨-, last, hlast, hlt, hle, -⟩
  rw [Option.mem_def, h] at hlast
  cases hlast
  omega

end TipWatch

end XusMiner.BlockFlow
