import XusMiner.BlockFlow.Window
import XusMiner.Gui.BlockTimes

namespace XusMiner.Gui
open BlockFlow

/-- The proof of an attribution, as it is read back. -/
def MineBasis.ofMark : MineMark → Option MineBasis
  | .hash => some .hash
  | .height => some .height
  | .unverifiedHeight => some .unverified
  | .no => none

/-- A tile of the strip, as it is read back. -/
def BlockFlowTile.ofTile (tile : Tile) : BlockFlowTile :=
  ⟨UInt64.ofNat tile.height, tile.txCount, tile.timestampMs, tile.mine.proven,
    MineBasis.ofMark tile.mine⟩

theorem asU64_ofOption (x : Option UInt64) : (Value.ofOption .nat x).asU64 = x := by
  cases x <;> rfl

theorem MineBasis.parse_basis (mark : MineMark) :
    MineBasis.parse (some (.ofOption .string mark.basis)) = MineBasis.ofMark mark := by
  cases mark <;> rfl

theorem BlockFlowTile.parse_json (tile : Tile) :
    BlockFlowTile.parse tile.json = some (.ofTile tile) := by
  simp [BlockFlowTile.parse, Tile.json, Value.get_json, List.lookup_cons, asU64_ofOption,
    MineBasis.parse_basis, BlockFlowTile.ofTile]
  rfl

theorem recent_blockFlowEvent {tipHeight templateHeight : UInt64}
    {templateTxCount feeGrains : Option UInt64} {histogram : Option MempoolHistogram}
    {tiles : List Tile} {event : Value} (hlength : tiles.length ≤ maxRecentTiles)
    (h : blockFlowEvent tipHeight templateHeight templateTxCount feeGrains histogram tiles =
      some event) :
    (BlockFlowView.fromTelemetry event).recent = tiles.map .ofTile := by
  unfold blockFlowEvent at h
  obtain ⟨projected, -, h⟩ := Option.bind_eq_some_iff.1 h
  obtain ⟨backlog, -, h⟩ := Option.bind_eq_some_iff.1 h
  obtain rfl := Option.some.inj h
  rw [BlockFlowView.fromTelemetry, ← parseTiles_map BlockFlowTile.parse_json hlength]
  simp [Value.get_json]

/-- Neighbours of a strip without gaps: every tile but the last has its bar. -/
theorem heights_of_windows {recent : List BlockFlowTile}
    (h : recent.IsChain fun block parent => parent.height.toNat + 1 = block.height.toNat) :
    ((windows recent).filterMap fun pair => intervalBar pair.1 pair.2).map (·.height.toNat) =
      recent.dropLast.map (·.height.toNat) := by
  induction recent with
  | nil => rfl
  | cons block recent ih =>
    cases recent with
    | nil => rfl
    | cons parent rest =>
      rw [List.isChain_cons_cons] at h
      obtain ⟨hparent, hrest⟩ := h
      have hbar : ∃ bar, intervalBar block parent = some bar ∧
          bar.height.toNat = block.height.toNat := by
        rw [intervalBar, if_neg (not_not.2 hparent)]
        exact ⟨_, rfl, rfl⟩
      obtain ⟨bar, hbar, hheight⟩ := hbar
      have hwindows : windows (block :: parent :: rest) =
          (block, parent) :: windows (parent :: rest) := rfl
      rw [hwindows, List.filterMap_cons_some (b := bar) (by exact hbar), List.map_cons,
        ih hrest, hheight, List.dropLast_cons_cons, List.map_cons]

/-- A strip that stays within the graph loses none of its bars. -/
theorem heights_blockIntervalBars {recent : List BlockFlowTile}
    (h : recent.IsChain fun block parent => parent.height.toNat + 1 = block.height.toNat)
    (hlength : recent.length ≤ blockTimeGraphBars + 1) :
    (blockIntervalBars recent).map (·.height.toNat) =
      (recent.dropLast.map (·.height.toNat)).reverse := by
  have hheights := heights_of_windows h
  have hbars := congrArg List.length hheights
  rw [List.length_map, List.length_map, List.length_dropLast] at hbars
  unfold blockIntervalBars
  dsimp only
  rw [List.length_reverse, if_neg (by omega), List.map_reverse, hheights]

theorem toNat_height_ofTile {tile : Tile} {tip : UInt64} (h : tile.height ≤ tip.toNat) :
    (BlockFlowTile.ofTile tile).height.toNat = tile.height :=
  UInt64.toNat_ofNat_of_lt' (h.trans_lt tip.toNat_lt)

/-- The heights of the strip, down to the genesis block at most. -/
theorem toNat_heights (recent : RecentBlocks) (tip : UInt64) (sealed : SealedBlocks) :
    ((recent.tiles tip.toNat sealed).map BlockFlowTile.ofTile).map (·.height.toNat) =
      RecentBlocks.window tip.toNat := by
  rw [RecentBlocks.tiles, List.map_map, List.map_map]
  conv_rhs => rw [← List.map_id (RecentBlocks.window tip.toNat)]
  apply List.map_congr_left
  intro height hheight
  have hle : (recent.tile sealed height).height ≤ tip.toNat := (RecentBlocks.mem_window.1 hheight).2
  exact toNat_height_ofTile hle

theorem isChain_tiles (recent : RecentBlocks) (tip : UInt64) (sealed : SealedBlocks) :
    ((recent.tiles tip.toNat sealed).map BlockFlowTile.ofTile).IsChain fun block parent =>
      parent.height.toNat + 1 = block.height.toNat := by
  have hchain : (RecentBlocks.window tip.toNat).IsChain fun block parent => parent + 1 = block := by
    rw [RecentBlocks.window, List.isChain_reverse]
    exact (List.isChain_range' _ _ 1).imp fun _ _ h => h.symm
  rw [← toNat_heights recent tip sealed, List.isChain_map] at hchain
  exact hchain

/-- The bars of the strip: every height of the window but its first. -/
theorem heights_bars (recent : RecentBlocks) (tip : UInt64) (sealed : SealedBlocks) :
    (blockIntervalBars ((recent.tiles tip.toNat sealed).map .ofTile)).map (·.height.toNat) =
      List.range' (tip.toNat - min tip.toNat 32 + 1) (min tip.toNat 32) := by
  have hlength : ((recent.tiles tip.toNat sealed).map BlockFlowTile.ofTile).length ≤
      blockTimeGraphBars + 1 := by
    rw [List.length_map, RecentBlocks.tiles, List.length_map, RecentBlocks.length_window]
    exact Nat.succ_le_succ (min_le_right _ _)
  rw [heights_blockIntervalBars (isChain_tiles recent tip sealed) hlength, List.map_dropLast,
    toNat_heights, ← List.tail_reverse, RecentBlocks.window, List.reverse_reverse, List.tail_range',
    RecentBlocks.windowStart, recentDepth]
  generalize tip.toNat = tip
  congr 1
  · omega
  · omega

/-- The window of confirmed blocks, from the cache to the graph. -/
theorem block_window_well_formed (recent : RecentBlocks) (tip : UInt64) (sealed : SealedBlocks) :
    (∀ height info k, (recent.insert tip.toNat height info).blocks[k]?.isSome →
      tip.toNat - 32 ≤ k ∧ k ≤ tip.toNat) ∧
    (∃ tiles, recent.tilesLoop tip.toNat sealed = some tiles ∧
      tiles.length = min tip.toNat 32 + 1 ∧
      tiles.map (·.height) = (List.range (min tip.toNat 32 + 1)).map (tip.toNat - ·) ∧
      ∀ templateHeight templateTxCount feeGrains histogram event,
        blockFlowEvent tip templateHeight templateTxCount feeGrains histogram tiles = some event →
          (blockIntervalBars (BlockFlowView.fromTelemetry event).recent).map (·.height.toNat) =
            List.range' (tip.toNat - min tip.toNat 32 + 1) (min tip.toNat 32)) ∧
    (∃ targets, recent.refreshTargetsLoop tip.toNat = some targets ∧
      targets.Pairwise (· > ·) ∧
      targets.length = min maxFetchPerRefresh (recent.missing tip.toNat).length ∧
      (∀ target ∈ targets, target ∈ recent.missing tip.toNat) ∧
      ∀ height ∈ recent.missing tip.toNat, height ∉ targets → ∀ target ∈ targets, height < target) ∧
    (∀ height, height ∈ recent.missing tip.toNat ↔
      (tip.toNat - 32 ≤ height ∧ height ≤ tip.toNat) ∧ recent.blocks[height]? = none) ∧
    ∀ fetches : List (ℕ → BlockInfo), (min tip.toNat 32 + 1 + 3) / 4 ≤ fetches.length →
      (fetches.foldl (RecentBlocks.refresh tip.toNat) {}).missing tip.toNat = [] := by
  refine ⟨fun height info k h => RecentBlocks.mem_window_of_insert h,
    ⟨_, RecentBlocks.tilesLoop_eq recent tip.toNat sealed, ?_, ?_, ?_⟩,
    ⟨_, RecentBlocks.refreshTargetsLoop_eq recent tip.toNat, ?_, ?_, ?_, ?_⟩, fun height => ?_,
    fun fetches h => RecentBlocks.missing_eq_nil h _⟩
  · rw [RecentBlocks.tiles, List.length_map, RecentBlocks.length_window]
  · rw [← RecentBlocks.window_eq_map, RecentBlocks.tiles, List.map_map]
    exact List.map_id _
  · intro templateHeight templateTxCount feeGrains histogram event h
    rw [recent_blockFlowEvent ?_ h, heights_bars]
    rw [RecentBlocks.tiles, List.length_map, RecentBlocks.length_window, maxRecentTiles]
    omega
  · exact ((RecentBlocks.pairwise_window _).filter _).take
  · rw [RecentBlocks.refreshTargets, List.length_take]
  · exact fun target htarget => List.mem_of_mem_take htarget
  · exact fun height hmissing hnot => RecentBlocks.refreshTargets_greatest hmissing hnot
  · rw [RecentBlocks.mem_missing, RecentBlocks.mem_window]
    rfl

end XusMiner.Gui
