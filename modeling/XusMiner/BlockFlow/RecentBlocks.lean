import Std.Data.ExtTreeMap
import XusMiner.BlockFlow.Blocks

namespace XusMiner.BlockFlow

structure BlockInfo where
  hash : Option String
  txCount : Option UInt64
  timestampMs : Option UInt64
  deriving DecidableEq

/-- What is kept of a fetched block. -/
def BlockInfo.ofReply (block : Value) : BlockInfo :=
  ⟨blockHash block, BlockFlow.txCount block, blockTimestampMs block⟩

structure Tile where
  height : Nat
  txCount : Option UInt64
  timestampMs : Option UInt64
  mine : MineMark
  deriving DecidableEq

structure RecentBlocks where
  blocks : Std.ExtTreeMap Nat BlockInfo := {}

namespace RecentBlocks

def windowStart (tip : Nat) : Nat := tip - (recentDepth - 1)

/-- The heights both loops walk down: from the tip to the start of the window. -/
def window (tip : Nat) : List Nat :=
  (List.range' (windowStart tip) (tip + 1 - windowStart tip)).reverse

def missing (recent : RecentBlocks) (tip : Nat) : List Nat :=
  (window tip).filter fun height => recent.blocks[height]?.isNone

def refreshTargets (recent : RecentBlocks) (tip : Nat) : List Nat :=
  (recent.missing tip).take maxFetchPerRefresh

/-- The cached block at this height has another disclosed hash. -/
def reorged (recent : RecentBlocks) (height : Nat) (info : BlockInfo) : Bool :=
  recent.blocks[height]?.any fun existing =>
    existing.hash.isSome && info.hash.isSome && existing.hash ≠ info.hash

def insert (recent : RecentBlocks) (tip height : Nat) (info : BlockInfo) : RecentBlocks :=
  let blocks :=
    if recent.reorged height info then recent.blocks.filter fun cached _ => cached ≤ height
    else recent.blocks
  -- what has left the window is forgotten
  let start := windowStart tip
  ⟨(blocks.insert height info).filter fun cached _ => start ≤ cached ∧ cached ≤ tip⟩

/-- One tile; without a cached block it is a placeholder. -/
def tile (recent : RecentBlocks) (sealed : SealedBlocks) (height : Nat) : Tile :=
  let info := recent.blocks[height]?
  ⟨height, info.bind (·.txCount), info.bind (·.timestampMs),
    sealed.mineMark height info.isSome (info.bind (·.hash))⟩

def tiles (recent : RecentBlocks) (tip : Nat) (sealed : SealedBlocks) : List Tile :=
  (window tip).map (recent.tile sealed)

theorem mem_window {tip height : Nat} :
    height ∈ window tip ↔ windowStart tip ≤ height ∧ height ≤ tip := by
  simp only [window, List.mem_reverse, List.mem_range'_1, windowStart]
  omega

theorem nodup_window (tip : Nat) : (window tip).Nodup :=
  List.nodup_reverse.2 List.nodup_range'

theorem mem_missing {recent : RecentBlocks} {tip height : Nat} :
    height ∈ recent.missing tip ↔ height ∈ window tip ∧ recent.blocks[height]? = none := by
  simp [missing]

theorem nodup_missing (recent : RecentBlocks) (tip : Nat) : (recent.missing tip).Nodup :=
  (nodup_window tip).filter _

/-- A reorg at a height evicts what was cached above it; the rest of the window stays. -/
theorem getElem?_insert (recent : RecentBlocks) {tip height k : Nat} (info : BlockInfo)
    (hk : k ∈ window tip) :
    (recent.insert tip height info).blocks[k]? =
      if k = height then some info
      else if recent.reorged height info ∧ height < k then none
      else recent.blocks[k]? := by
  rw [mem_window] at hk
  have hfilter : ∀ x : Option BlockInfo,
      x.filter (fun _ => decide (windowStart tip ≤ k ∧ k ≤ tip)) = x := by
    intro x
    cases x <;> simp [hk]
  rw [insert, Std.ExtTreeMap.getElem?_filter', hfilter, Std.ExtTreeMap.getElem?_insert]
  by_cases hheight : k = height
  · rw [if_pos hheight, if_pos (Nat.compare_eq_eq.2 hheight.symm)]
  · rw [if_neg hheight, if_neg (fun h => hheight (Nat.compare_eq_eq.1 h).symm)]
    by_cases hreorged : recent.reorged height info = true
    · rw [if_pos hreorged, Std.ExtTreeMap.getElem?_filter']
      by_cases hlt : height < k
      · rw [if_pos ⟨hreorged, hlt⟩]
        cases recent.blocks[k]? <;> simp [hlt]
      · rw [if_neg (fun h => hlt h.2)]
        cases recent.blocks[k]? <;> simp [not_lt.1 hlt]
    · rw [if_neg hreorged, if_neg (fun h => hreorged h.1)]

theorem reorged_eq_false {recent : RecentBlocks} {height : Nat}
    (h : recent.blocks[height]? = none) (info : BlockInfo) :
    recent.reorged height info = false := by
  simp [reorged, h]

end RecentBlocks

end XusMiner.BlockFlow
