import XusMiner.BlockFlow.Packing
import XusMiner.BlockFlow.RecentBlocks

namespace XusMiner.BlockFlow

/-- The pending tiles of the strip. -/
def projectedBlocks (histogram : MempoolHistogram) : Option (List ProjectedBlock) :=
  packedPendingBlocks histogram maxProjectedBlocks

/-- The packing of the denser backlog view. -/
def backlogBlocks (histogram : MempoolHistogram) : Option (List ProjectedBlock) :=
  packedPendingBlocks histogram maxBacklogBlocks

def ProjectedBlock.json (block : ProjectedBlock) : Value :=
  .json [("tx_count", .nat block.txCount), ("fee_min_grains", .nat block.feeMinGrains),
    ("fee_max_grains", .nat block.feeMaxGrains)]

/-- The `backlog` member of the event: the summary of the histogram, or `null` without one. -/
def mempoolBacklogJson : Option MempoolHistogram → Option Value
  | none => some .null
  | some histogram => (backlogBlocks histogram).map fun blocks =>
    .json [("tx_count", .nat histogram.txCount), ("max_block_txs", .nat histogram.maxBlockTxs),
      ("depth_blocks", .nat (backlogDepth histogram)),
      ("blocks", .array (blocks.map ProjectedBlock.json))]

def MineMark.proven : MineMark → Bool
  | .hash => true
  | .height => true
  | _ => false

/-- The proof of an attribution, as it is named in an event. -/
def MineMark.basis : MineMark → Option String
  | .hash => some "hash"
  | .height => some "height"
  | .unverifiedHeight => some "unverified"
  | .no => none

def Tile.json (tile : Tile) : Value :=
  .json [("height", .nat (UInt64.ofNat tile.height)), ("tx_count", .ofOption .nat tile.txCount),
    ("timestamp_ms", .ofOption .nat tile.timestampMs), ("mine", .bool tile.mine.proven),
    ("mine_basis", .ofOption .string tile.mine.basis)]

/-- The `block_flow` event of a refresh. -/
def blockFlowEvent (tipHeight templateHeight : UInt64) (templateTxCount feeGrains : Option UInt64)
    (histogram : Option MempoolHistogram) (tiles : List Tile) : Option Value := do
  let projected ← histogram.elim (some []) projectedBlocks
  let backlog ← mempoolBacklogJson histogram
  some (.json [("event", .string "block_flow"), ("tip_height", .nat tipHeight),
    ("template", .json [("height", .nat templateHeight),
      ("tx_count", .ofOption .nat templateTxCount)]),
    ("fee_grains", .ofOption .nat feeGrains), ("backlog", backlog),
    ("projected", .array (projected.map ProjectedBlock.json)),
    ("recent", .array (tiles.map Tile.json))])

end XusMiner.BlockFlow

namespace XusMiner.Gui
open BlockFlow

def maxProjectedFlowTiles : ℕ := 6
def maxBacklogViewBlocks : ℕ := 24
def maxRecentTiles : ℕ := 40

structure ProjectedFlowTile where
  txCount : UInt64
  feeMinGrains : UInt64
  feeMaxGrains : UInt64
  deriving DecidableEq

structure BacklogView where
  txCount : UInt64
  maxBlockTxs : UInt64
  depthBlocks : UInt64
  blocks : List ProjectedFlowTile
  deriving DecidableEq

inductive MineBasis
  | hash
  | height
  | unverified
  deriving DecidableEq

structure BlockFlowTile where
  height : UInt64
  txCount : Option UInt64
  timestampMs : Option UInt64
  mine : Bool
  mineBasis : Option MineBasis
  deriving DecidableEq

structure BlockFlowView where
  tipHeight : Option UInt64 := none
  templateHeight : Option UInt64 := none
  templateTxCount : Option UInt64 := none
  feeGrains : Option UInt64 := none
  backlog : Option BacklogView := none
  projected : List ProjectedFlowTile := []
  recent : List BlockFlowTile := []

inductive BacklogState
  | awaitingData
  | unavailable
  | empty
  | clear (pending : UInt64)
  | deep
  deriving DecidableEq

def MineBasis.parse (value : Option Value) : Option MineBasis :=
  match value.bind Value.asStr with
  | some "hash" => some .hash
  | some "height" => some .height
  | some "unverified" => some .unverified
  | _ => none

def ProjectedFlowTile.parse (block : Value) : Option ProjectedFlowTile := do
  let txCount ← (block.get "tx_count").bind Value.asU64
  let feeMinGrains ← (block.get "fee_min_grains").bind Value.asU64
  let feeMaxGrains ← (block.get "fee_max_grains").bind Value.asU64
  some ⟨txCount, feeMinGrains, feeMaxGrains⟩

/-- `none` for `null`, absence, or any malformed field. -/
def BacklogView.parse (value : Option Value) : Option BacklogView := do
  let value ← value
  let blocksRaw ← (value.get "blocks").bind Value.asArray
  guard (blocksRaw.length ≤ maxBacklogViewBlocks)
  let blocks ← blocksRaw.mapM ProjectedFlowTile.parse
  let txCount ← (value.get "tx_count").bind Value.asU64
  let maxBlockTxs ← (value.get "max_block_txs").bind Value.asU64
  let depthBlocks ← (value.get "depth_blocks").bind Value.asU64
  some ⟨txCount, maxBlockTxs, depthBlocks, blocks⟩

def BlockFlowTile.parse (tile : Value) : Option BlockFlowTile := do
  let height ← (tile.get "height").bind Value.asU64
  some ⟨height, (tile.get "tx_count").bind Value.asU64, (tile.get "timestamp_ms").bind Value.asU64,
    ((tile.get "mine").bind Value.asBool).getD false, MineBasis.parse (tile.get "mine_basis")⟩

/-- The entries of an array member that can be read, up to a bound. -/
def parseTiles {α : Type} (parse : Value → Option α) (bound : ℕ) (tiles : Option Value) : List α :=
  (((tiles.bind Value.asArray).getD []).filterMap parse).take bound

def BlockFlowView.fromTelemetry (value : Value) : BlockFlowView where
  tipHeight := (value.get "tip_height").bind Value.asU64
  templateHeight := ((value.get "template").bind (·.get "height")).bind Value.asU64
  templateTxCount := ((value.get "template").bind (·.get "tx_count")).bind Value.asU64
  feeGrains := (value.get "fee_grains").bind Value.asU64
  backlog := BacklogView.parse (value.get "backlog")
  projected := parseTiles ProjectedFlowTile.parse maxProjectedFlowTiles (value.get "projected")
  recent := parseTiles BlockFlowTile.parse maxRecentTiles (value.get "recent")

def backlogState : Option BlockFlowView → BacklogState
  | none => .awaitingData
  | some flow =>
    match flow.backlog with
    | none => .unavailable
    | some backlog =>
      if backlog.txCount = 0 then .empty
      else if backlog.depthBlocks = 0 then .clear backlog.txCount
      else .deep

/-- A block as the strip and the backlog view show it. -/
def ProjectedFlowTile.ofBlock (block : ProjectedBlock) : ProjectedFlowTile :=
  ⟨block.txCount, block.feeMinGrains, block.feeMaxGrains⟩

theorem parse_json (block : ProjectedBlock) :
    ProjectedFlowTile.parse block.json = some (.ofBlock block) := by
  simp [ProjectedFlowTile.parse, ProjectedBlock.json, Value.get_json, Value.asU64, Value.nat,
    ProjectedFlowTile.ofBlock, List.lookup_cons]

theorem mapM_parse_json (blocks : List ProjectedBlock) :
    (blocks.map ProjectedBlock.json).mapM ProjectedFlowTile.parse =
      some (blocks.map ProjectedFlowTile.ofBlock) := by
  induction blocks with
  | nil => rfl
  | cons block blocks ih =>
    rw [List.map_cons, List.mapM_cons, parse_json, ih]
    rfl

/-- Entries that can all be read, and that stay within the bound, are all there. -/
theorem parseTiles_map {α β : Type} {parse : Value → Option β} {json : α → Value} {read : α → β}
    (hparse : ∀ x, parse (json x) = some (read x)) {bound : ℕ} {xs : List α}
    (h : xs.length ≤ bound) :
    parseTiles parse bound (some (.array (xs.map json))) = xs.map read := by
  have hfilterMap : (xs.map json).filterMap parse = xs.map read := by
    rw [List.filterMap_map, ← List.filterMap_eq_map]
    congr 1
    funext x
    exact hparse x
  show List.take bound ((xs.map json).filterMap parse) = _
  rw [hfilterMap, List.take_of_length_le (by rw [List.length_map]; exact h)]

theorem parseTiles_json {bound : ℕ} {blocks : List ProjectedBlock} (h : blocks.length ≤ bound) :
    parseTiles ProjectedFlowTile.parse bound (some (.array (blocks.map ProjectedBlock.json))) =
      blocks.map ProjectedFlowTile.ofBlock :=
  parseTiles_map parse_json h

/-- The view that the summary of a histogram is read as. -/
def backlogView (histogram : MempoolHistogram) (blocks : List ProjectedBlock) : BacklogView :=
  ⟨histogram.txCount, histogram.maxBlockTxs, backlogDepth histogram, blocks.map .ofBlock⟩

/-- The round trip: what the engine encodes is within the bounds of what the view accepts. -/
theorem parse_mempoolBacklogJson {histogram : MempoolHistogram} {blocks : List ProjectedBlock}
    (h : backlogBlocks histogram = some blocks) (hlength : blocks.length ≤ maxBacklogViewBlocks) :
    ∃ json, mempoolBacklogJson (some histogram) = some json ∧
      BacklogView.parse (some json) = some (backlogView histogram blocks) := by
  refine ⟨_, by rw [mempoolBacklogJson, h, Option.map_some], ?_⟩
  simp [BacklogView.parse, Value.get_json, List.lookup_cons, Value.asArray, Value.asU64,
    Value.nat, hlength, mapM_parse_json, backlogView, guard, -List.mapM_map]

/-- The members of the event are read back as they were encoded. -/
theorem fromTelemetry_blockFlowEvent {histogram : Option MempoolHistogram}
    {projected : List ProjectedBlock} {backlog : Value}
    (hprojected : histogram.elim (some []) projectedBlocks = some projected)
    (hbacklog : mempoolBacklogJson histogram = some backlog)
    (hlength : projected.length ≤ maxProjectedFlowTiles) (tipHeight templateHeight : UInt64)
    (templateTxCount feeGrains : Option UInt64) (tiles : List Tile) :
    ∃ event, blockFlowEvent tipHeight templateHeight templateTxCount feeGrains histogram tiles =
        some event ∧
      (BlockFlowView.fromTelemetry event).backlog = BacklogView.parse (some backlog) ∧
      (BlockFlowView.fromTelemetry event).projected = projected.map .ofBlock := by
  refine ⟨_, by rw [blockFlowEvent, hprojected, hbacklog]; rfl, ?_, ?_⟩
  · refine congrArg BacklogView.parse ?_
    simp [Value.get_json, List.lookup_cons]
  · rw [BlockFlowView.fromTelemetry, ← parseTiles_json hlength]
    simp [Value.get_json, List.lookup_cons]

/-- One block in the place of several. -/
structure Merges (merged : ProjectedBlock) (blocks : List ProjectedBlock) : Prop where
  count : merged.txCount.toNat = (blocks.map (·.txCount.toNat)).sum
  feeMin : (blocks.map (·.feeMinGrains)).min? = some merged.feeMinGrains
  feeMax : (blocks.map (·.feeMaxGrains)).max? = some merged.feeMaxGrains

theorem merges_describe {pieces : List (List UInt64)} (hne : ∀ piece ∈ pieces, piece ≠ [])
    (hpieces : pieces ≠ [])
    (hcounts : ∀ piece ∈ pieces, (describe piece).txCount.toNat = piece.length)
    (hcount : (describe pieces.flatten).txCount.toNat = pieces.flatten.length) :
    Merges (describe pieces.flatten) (pieces.map describe) := by
  have hflatten : pieces.flatten ≠ [] := by
    obtain ⟨piece, hpiece⟩ := List.exists_mem_of_ne_nil _ hpieces
    intro hnil
    exact hne piece hpiece (List.flatten_eq_nil_iff.mp hnil piece hpiece)
  refine ⟨?_, ?_, ?_⟩
  · rw [hcount, List.length_flatten, List.map_map]
    congr 1
    exact (List.map_congr_left hcounts).symm
  · have hmin := List.min?_eq_some_iff.mp (min?_describe hflatten)
    obtain ⟨piece, hpiece, hmem⟩ := List.mem_flatten.mp hmin.1
    have hbelow {piece : List UInt64} (hpiece : piece ∈ pieces) :
        (describe pieces.flatten).feeMinGrains ≤ (describe piece).feeMinGrains :=
      hmin.2 _ (List.mem_flatten_of_mem hpiece
        (List.min?_eq_some_iff.mp (min?_describe (hne piece hpiece))).1)
    have heq : (describe piece).feeMinGrains = (describe pieces.flatten).feeMinGrains :=
      UInt64.le_antisymm
        ((List.min?_eq_some_iff.mp (min?_describe (hne piece hpiece))).2 _ hmem) (hbelow hpiece)
    rw [List.min?_eq_some_iff, List.map_map]
    refine ⟨List.mem_map.mpr ⟨piece, hpiece, heq⟩, fun fee hfee => ?_⟩
    obtain ⟨other, hother, rfl⟩ := List.mem_map.mp hfee
    exact hbelow hother
  · have hmax := max?_eq_some_iff.mp (max?_describe hflatten)
    obtain ⟨piece, hpiece, hmem⟩ := List.mem_flatten.mp hmax.1
    have habove {piece : List UInt64} (hpiece : piece ∈ pieces) :
        (describe piece).feeMaxGrains ≤ (describe pieces.flatten).feeMaxGrains :=
      hmax.2 _ (List.mem_flatten_of_mem hpiece
        (max?_eq_some_iff.mp (max?_describe (hne piece hpiece))).1)
    have heq : (describe piece).feeMaxGrains = (describe pieces.flatten).feeMaxGrains :=
      UInt64.le_antisymm (habove hpiece)
        ((max?_eq_some_iff.mp (max?_describe (hne piece hpiece))).2 _ hmem)
    rw [max?_eq_some_iff, List.map_map]
    refine ⟨List.mem_map.mpr ⟨piece, hpiece, heq⟩, fun fee hfee => ?_⟩
    obtain ⟨other, hother, rfl⟩ := List.mem_map.mp hfee
    exact habove hother

/-- What a view that carries the summary shows. -/
theorem backlogState_backlogView {histogram : MempoolHistogram} (h : histogram.Valid)
    (blocks : List ProjectedBlock) {flow : BlockFlowView}
    (hflow : flow.backlog = some (backlogView histogram blocks)) :
    (backlogState (some flow) = .empty ↔ histogram.txCount.toNat = 0) ∧
    (backlogState (some flow) = .clear histogram.txCount ↔
      0 < histogram.txCount.toNat ∧ histogram.txCount.toNat ≤ histogram.maxBlockTxs.toNat) ∧
    (backlogState (some flow) = .deep ↔
      histogram.maxBlockTxs.toNat < histogram.txCount.toNat) := by
  have hdepth := backlogDepth_toNat h
  have hcapacity := h.capacity
  have hempty : histogram.txCount = 0 ↔ histogram.txCount.toNat = 0 := UInt64.toNat_inj.symm
  have hclear : backlogDepth histogram = 0 ↔
      histogram.txCount.toNat ≤ histogram.maxBlockTxs.toNat := by
    rw [← UInt64.toNat_inj, hdepth, UInt64.toNat_zero, Nat.div_eq_zero_iff]
    omega
  have hstate : backlogState (some flow) =
      if histogram.txCount = 0 then .empty
      else if backlogDepth histogram = 0 then .clear histogram.txCount
      else .deep := by
    rw [backlogState, hflow]
    rfl
  rw [hstate]
  split_ifs with htx hdeep
  · have := hempty.mp htx
    simp only [true_iff, false_iff]
    omega
  · have := hclear.mp hdeep
    have := mt hempty.mpr htx
    simp only [true_iff, false_iff]
    omega
  · have := mt hclear.mpr hdeep
    have := mt hempty.mpr htx
    simp only [true_iff, false_iff]
    omega

/-- The two packings of one histogram: the tighter one is the wider one, or its first five blocks
and one block for all the others. -/
theorem projected_of_backlog {histogram : MempoolHistogram} (h : histogram.Valid)
    {blocks projected : List ProjectedBlock} (hblocks : backlogBlocks histogram = some blocks)
    (hprojected : projectedBlocks histogram = some projected) :
    (blocks.length ≤ 6 → projected = blocks) ∧
    (6 < blocks.length → projected.length = 6 ∧ projected.take 5 = blocks.take 5 ∧
      ∃ merged, projected[5]? = some merged ∧ Merges merged (blocks.drop 5)) := by
  obtain rfl := Option.some.inj (hblocks.symm.trans (packedPendingBlocks_eq h (by decide)))
  obtain rfl := Option.some.inj (hprojected.symm.trans (packedPendingBlocks_eq h (by decide)))
  have hcounts : ∀ piece ∈ referenceChunks histogram maxBacklogBlocks,
      (describe piece).txCount.toNat = piece.length := fun piece => txCount_describe h
  have hcounts' : ∀ piece ∈ referenceChunks histogram maxProjectedBlocks,
      (describe piece).txCount.toNat = piece.length := fun piece => txCount_describe h
  have hne : ∀ piece ∈ referenceChunks histogram maxBacklogBlocks, piece ≠ [] := by
    rintro piece hpiece rfl
    rw [referenceChunks_eq h] at hpiece
    exact Chunks.nil_not_mem_groups h.capacity _ _ hpiece
  have hcapped : referenceChunks histogram maxProjectedBlocks =
      Chunks.capped 5 (referenceChunks histogram maxBacklogBlocks) := by
    rw [referenceChunks_eq h, referenceChunks_eq h]
    exact (Chunks.capped_groups (by decide) _).symm
  rw [hcapped] at hcounts' ⊢
  generalize referenceChunks histogram maxBacklogBlocks = pieces at hcounts hcounts' hne ⊢
  rw [List.length_map]
  refine ⟨fun hle => by rw [Chunks.capped_of_length_le hle], fun hlt => ?_⟩
  have hrest : pieces.drop 5 ≠ [] := by
    rw [ne_eq, List.drop_eq_nil_iff]
    omega
  rw [Chunks.capped, if_neg hrest] at hcounts' ⊢
  have htake : (pieces.take 5).length = 5 := by
    rw [List.length_take]
    omega
  refine ⟨?_, ?_, describe (pieces.drop 5).flatten, ?_, ?_⟩
  · rw [List.length_map, List.length_append, htake]
    rfl
  · rw [List.map_append, List.take_left' (by rw [List.length_map, htake]), List.map_take]
  · rw [List.map_append, List.getElem?_append_right (by rw [List.length_map, htake]),
      List.length_map, htake]
    rfl
  · rw [← List.map_drop]
    apply merges_describe
    · exact fun piece hpiece => hne piece (List.mem_of_mem_drop hpiece)
    · exact hrest
    · exact fun piece hpiece => hcounts piece (List.mem_of_mem_drop hpiece)
    · exact hcounts' _ (List.mem_append_right _ (List.mem_singleton_self _))

/-- Engine and view tell the same story of the backlog, for every histogram that is accepted:
the summary is read back with the exact depth and the packed blocks, the state of the panel says
where the pending transactions stand, and the strip's projected blocks are the backlog's, the
sixth one merging what the strip cannot show. Without a histogram the state is unavailable. -/
theorem backlog_told_the_same (value : Value) (histogram : MempoolHistogram)
    (hparse : mempoolHistogram value = some histogram) :
    (∃ blocks projected json view, backlogBlocks histogram = some blocks ∧
      projectedBlocks histogram = some projected ∧
      mempoolBacklogJson (some histogram) = some json ∧
      BacklogView.parse (some json) = some view ∧
      view.txCount = histogram.txCount ∧ view.maxBlockTxs = histogram.maxBlockTxs ∧
      view.depthBlocks.toNat = (histogram.txCount.toNat - histogram.maxBlockTxs.toNat +
        histogram.maxBlockTxs.toNat - 1) / histogram.maxBlockTxs.toNat ∧
      view.blocks = blocks.map .ofBlock ∧
      (view.blocks.map (·.txCount.toNat)).sum = histogram.txCount.toNat -
        min histogram.txCount.toNat histogram.maxBlockTxs.toNat ∧
      (∀ flow : BlockFlowView, flow.backlog = some view →
        (backlogState (some flow) = .empty ↔ histogram.txCount.toNat = 0) ∧
        (backlogState (some flow) = .clear histogram.txCount ↔
          0 < histogram.txCount.toNat ∧ histogram.txCount.toNat ≤ histogram.maxBlockTxs.toNat) ∧
        (backlogState (some flow) = .deep ↔
          histogram.maxBlockTxs.toNat < histogram.txCount.toNat) ∧
        (backlogState (some flow) = .deep → view.blocks ≠ [])) ∧
      (blocks.length ≤ 6 → projected = blocks) ∧
      (6 < blocks.length → projected.length = 6 ∧ projected.take 5 = blocks.take 5 ∧
        ∃ merged, projected[5]? = some merged ∧ Merges merged (blocks.drop 5)) ∧
      ∀ (tipHeight templateHeight : UInt64) (templateTxCount feeGrains : Option UInt64)
        (tiles : List Tile), ∃ event, blockFlowEvent tipHeight templateHeight templateTxCount
          feeGrains (some histogram) tiles = some event ∧
        (BlockFlowView.fromTelemetry event).backlog = some view ∧
        (BlockFlowView.fromTelemetry event).projected = projected.map .ofBlock) ∧
    mempoolBacklogJson none = some .null ∧ BacklogView.parse (some .null) = none ∧
    ∀ flow : BlockFlowView, flow.backlog = BacklogView.parse (some .null) →
      backlogState (some flow) = .unavailable := by
  have h := valid_of_mempoolHistogram hparse
  refine ⟨?_, rfl, rfl, fun flow hflow => by rw [backlogState, hflow]; rfl⟩
  have hblocks : backlogBlocks histogram = some _ := packedPendingBlocks_eq h (by decide)
  have hprojected : projectedBlocks histogram = some _ := packedPendingBlocks_eq h (by decide)
  have hsum := sum_referenceChunks h maxBacklogBlocks
  have hlength : (referenceChunks histogram maxBacklogBlocks).length = _ :=
    length_referenceChunks h (by decide)
  have hlength' : (referenceChunks histogram maxProjectedBlocks).length = _ :=
    length_referenceChunks h (by decide)
  rw [← List.length_map (f := describe)] at hlength hlength'
  generalize (referenceChunks histogram maxBacklogBlocks).map describe = blocks
    at hblocks hsum hlength
  generalize (referenceChunks histogram maxProjectedBlocks).map describe = projected
    at hprojected hlength'
  obtain ⟨json, hjson, hparse⟩ := parse_mempoolBacklogJson hblocks (hlength ▸ min_le_left _ _)
  obtain ⟨hfew, hmany⟩ := projected_of_backlog h hblocks hprojected
  have hcounts : ((backlogView histogram blocks).blocks.map (·.txCount.toNat)).sum =
      histogram.txCount.toNat - histogram.maxBlockTxs.toNat := by
    rw [← hsum, backlogView, List.map_map]
    rfl
  refine ⟨blocks, projected, json, backlogView histogram blocks, hblocks, hprojected, hjson,
    hparse, rfl, rfl, backlogDepth_toNat h, rfl, by rw [hcounts]; omega, fun flow hflow => ?_,
    hfew, hmany, fun tipHeight templateHeight templateTxCount feeGrains tiles => ?_⟩
  · obtain ⟨hempty, hclear, hdeep⟩ := backlogState_backlogView h blocks hflow
    refine ⟨hempty, hclear, hdeep, fun hstate hnil => ?_⟩
    rw [hnil, List.map_nil, List.sum_nil] at hcounts
    have := hdeep.mp hstate
    omega
  · have helim : (some histogram).elim (some []) projectedBlocks = some projected := hprojected
    rw [← hparse]
    exact fromTelemetry_blockFlowEvent helim hjson (hlength' ▸ min_le_left _ _) tipHeight
      templateHeight templateTxCount feeGrains tiles

/-- Seven transactions, two to a block: the panel charts a backlog. -/
theorem deep_backlog : ∃ json view, mempoolBacklogJson (some deepMempool) = some json ∧
    BacklogView.parse (some json) = some view ∧
    backlogState (some { backlog := some view }) = .deep := by
  have hparse : mempoolHistogram deepReply = some deepMempool := by decide
  obtain ⟨-, -, json, view, -, -, hjson, hview, -, -, -, -, -, hstate, -⟩ :=
    (backlog_told_the_same deepReply deepMempool hparse).1
  exact ⟨json, view, hjson, hview, (hstate _ rfl).2.2.1.mpr (by decide)⟩

end XusMiner.Gui
