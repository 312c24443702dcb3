import XusMiner.BlockFlow.RecentBlocks
import XusMiner.BlockFlow.TipWatch
import XusMiner.Library.Runs

namespace XusMiner.BlockFlow
open RecentBlocks

/-- The feed's memory: the cache of the session, and the tip watch that outlives it. -/
structure Feed where
  recent : RecentBlocks := {}
  watch : TipWatch := {}

namespace Feed

/-- One announced height: `block` is the reply, or `none` when the fetch failed. -/
def announce (tip : Nat) (fetch : Nat → Option Value) (feed : Feed) (height : Nat) : Feed :=
  let recent := match fetch height with
    | some block => feed.recent.insert tip height (BlockInfo.ofReply block)
    | none => feed.recent
  ⟨recent, (feed.watch.recordReported height ((fetch height).bind blockHash)).2⟩

/-- The backfill of the strip; a failed fetch ends it. -/
def backfill (tip : Nat) (fetch : Nat → Option Value) (feed : Feed) : List Nat → Feed
  | [] => feed
  | height :: targets =>
    match fetch height with
    | some block => backfill tip fetch
        ⟨feed.recent.insert tip height (BlockInfo.ofReply block),
          (feed.watch.observeFetched height (blockHash block)).2⟩ targets
    | none => feed

/-- A refresh cycle of `run_rpc_session`: the tip is observed, the announced heights are fetched
in order, then what the strip still lacks. -/
def cycle (tip : Nat) (fetch : Nat → Option Value) (feed : Feed) : Feed :=
  let observed := feed.watch.observeTip tip
  let feed := observed.1.report.foldl (announce tip fetch) ⟨feed.recent, observed.2⟩
  feed.backfill tip fetch (feed.recent.refreshTargets tip)

inductive Action
  | session
  | cycle (tip : Nat) (fetch : Nat → Option Value)

/-- A session starts with an empty cache and a baseline to announce. -/
def step (feed : Feed) : Action → Option Feed
  | .session => some ⟨{}, feed.watch.beginSession⟩
  | .cycle tip fetch => some (feed.cycle tip fetch)

/-- Cycles against a chain that has come to rest. -/
def settle (chain : Nat → Value) (tip : Nat) : Nat → Feed → Feed
  | 0, feed => feed
  | n + 1, feed => settle chain tip n (feed.cycle tip fun height => some (chain height))

variable {tip : Nat} {chain : Nat → Value} {feed : Feed}

/-- Announcing a stretch of heights up to the tip fills exactly that stretch: whatever one of
them evicts lies above it and is announced too. -/
theorem getElem?_announce {heights : List Nat} (hsorted : heights.Pairwise (· < ·))
    (hupper : ∀ h ∈ heights, ∀ k, h < k → k ∈ window tip → k ∈ heights) {k : Nat}
    (hk : k ∈ window tip) :
    (heights.foldl (announce tip fun h => some (chain h)) feed).recent.blocks[k]? =
      if k ∈ heights then some (BlockInfo.ofReply (chain k)) else feed.recent.blocks[k]? := by
  induction heights generalizing feed with
  | nil => simp
  | cons height heights ih =>
    rcases List.pairwise_cons.1 hsorted with ⟨hlt, hsorted⟩
    have hupper' : ∀ h ∈ heights, ∀ k, h < k → k ∈ window tip → k ∈ heights := by
      intro h hh k hhk hk
      rcases List.mem_cons.1 (hupper h (List.mem_cons_of_mem _ hh) k hhk hk) with rfl | hmem
      · exact absurd (hlt h hh) (not_lt.2 hhk.le)
      · exact hmem
    rw [List.foldl_cons, ih hsorted hupper']
    by_cases hmem : k ∈ heights
    · rw [if_pos hmem, if_pos (List.mem_cons_of_mem _ hmem)]
    · rw [if_neg hmem, announce]
      dsimp only
      rw [getElem?_insert _ _ hk]
      by_cases heq : k = height
      · rw [if_pos heq, if_pos (by simp [heq]), heq]
      · have hnotMem : k ∉ height :: heights := by simp [heq, hmem]
        have hnotAbove : ¬height < k := fun h =>
          hnotMem (hupper height (List.mem_cons_self ..) k h hk)
        rw [if_neg heq, if_neg hnotMem, if_neg (fun h => hnotAbove h.2)]

theorem getElem?_backfill {targets : List Nat} (hnodup : targets.Nodup)
    (hmissing : ∀ h ∈ targets, h ∈ window tip ∧ feed.recent.blocks[h]? = none) {k : Nat}
    (hk : k ∈ window tip) :
    (feed.backfill tip (fun h => some (chain h)) targets).recent.blocks[k]? =
      if k ∈ targets then some (BlockInfo.ofReply (chain k)) else feed.recent.blocks[k]? := by
  induction targets generalizing feed with
  | nil => simp [backfill]
  | cons height targets ih =>
    rcases List.nodup_cons.1 hnodup with ⟨hnotMem, hnodup⟩
    have hnone := (hmissing height (List.mem_cons_self ..)).2
    have hinsert : ∀ k ∈ window tip, (feed.recent.insert tip height
        (BlockInfo.ofReply (chain height))).blocks[k]? =
          if k = height then some (BlockInfo.ofReply (chain height))
          else feed.recent.blocks[k]? := by
      intro k hk
      rw [getElem?_insert _ _ hk, reorged_eq_false hnone]
      simp
    rw [backfill, ih hnodup]
    · dsimp only
      rw [hinsert k hk]
      by_cases heq : k = height
      · simp [heq, hnotMem]
      · simp [heq]
    · intro h hh
      have hmem := hmissing h (List.mem_cons_of_mem _ hh)
      have hne : h ≠ height := fun he => hnotMem (he ▸ hh)
      refine ⟨hmem.1, ?_⟩
      dsimp only
      rw [hinsert h hmem.1, if_neg hne]
      exact hmem.2

theorem lastTip_announce (fetch : Nat → Option Value) (heights : List Nat) (feed : Feed) :
    (heights.foldl (announce tip fetch) feed).watch.lastTip = feed.watch.lastTip := by
  induction heights generalizing feed with
  | nil => rfl
  | cons height heights ih =>
    rw [List.foldl_cons, ih]
    exact (TipWatch.record_frame _ _ _ _).1

theorem lastTip_backfill (fetch : Nat → Option Value) (targets : List Nat) (feed : Feed) :
    (feed.backfill tip fetch targets).watch.lastTip = feed.watch.lastTip := by
  induction targets generalizing feed with
  | nil => rfl
  | cons height targets ih =>
    rw [backfill]
    split
    · rw [ih]
      exact (TipWatch.record_frame _ _ _ _).1
    · rfl

theorem lastTip_cycle (fetch : Nat → Option Value) (feed : Feed) :
    (feed.cycle tip fetch).watch.lastTip = some tip := by
  rw [cycle, lastTip_backfill, lastTip_announce]
  exact (TipWatch.observeTip_settles _ _).1

/-- What a height of the window holds once the announced heights have been fetched. -/
def announced (chain : Nat → Value) (tip : Nat) (feed : Feed) (k : Nat) :
    Option BlockInfo :=
  if feed.watch.Announces tip k then some (BlockInfo.ofReply (chain k)) else feed.recent.blocks[k]?

/-- A cycle: what was announced is fetched, and of what is still missing the newest four. -/
theorem getElem?_cycle (chain : Nat → Value) (tip : Nat) (feed : Feed) :
    ∃ targets : List Nat,
      (∀ k ∈ window tip, (feed.cycle tip fun h => some (chain h)).recent.blocks[k]? =
        if k ∈ targets then some (BlockInfo.ofReply (chain k)) else feed.announced chain tip k) ∧
      (∀ k ∈ targets, k ∈ window tip ∧ feed.announced chain tip k = none) ∧
      ((∃ k ∈ window tip, feed.announced chain tip k = none) → targets ≠ []) := by
  have hreport := feed.watch.report_observeTip tip
  have hannounced : ∀ k ∈ window tip, ((feed.watch.observeTip tip).1.report.foldl
      (announce tip fun h => some (chain h)) ⟨feed.recent, (feed.watch.observeTip tip).2⟩
        ).recent.blocks[k]? = feed.announced chain tip k := by
    intro k hk
    rw [getElem?_announce hreport.1 _ hk, announced]
    · exact if_congr (hreport.2 k) rfl rfl
    · intro h hh k' hlt hk'
      rw [hreport.2] at hh ⊢
      rcases hh with ⟨hbaseline, last, hlast, hlasth, -, hgap⟩
      exact ⟨hbaseline, last, hlast, by omega, (mem_window.1 hk').2, by omega⟩
  generalize hstart : (feed.watch.observeTip tip).1.report.foldl
      (announce tip fun h => some (chain h)) ⟨feed.recent, (feed.watch.observeTip tip).2⟩ = start
    at hannounced
  have hcycle : feed.cycle tip (fun h => some (chain h)) =
      start.backfill tip (fun h => some (chain h)) (start.recent.refreshTargets tip) := by
    rw [← hstart]
    rfl
  have htargets : ∀ k ∈ start.recent.refreshTargets tip,
      k ∈ window tip ∧ start.recent.blocks[k]? = none :=
    fun k hk => mem_missing.1 (List.mem_of_mem_take hk)
  refine ⟨start.recent.refreshTargets tip, ?_, ?_, ?_⟩
  · intro k hk
    have hnodup : (start.recent.refreshTargets tip).Nodup :=
      (nodup_missing _ _).sublist (List.take_sublist _ _)
    rw [hcycle, getElem?_backfill hnodup htargets hk, hannounced k hk]
  · intro k hk
    rcases htargets k hk with ⟨hwindow, hnone⟩
    exact ⟨hwindow, by rw [← hannounced k hwindow, hnone]⟩
  · rintro ⟨k, hk, hnone⟩ hempty
    rw [← hannounced k hk] at hnone
    have hmem : k ∈ start.recent.missing tip := mem_missing.2 ⟨hk, hnone⟩
    rcases List.take_eq_nil_iff.1 hempty with h | h
    · cases h
    · rw [h] at hmem
      cases hmem

theorem announced_of_settled (h : feed.watch.lastTip = some tip) (k : Nat) :
    feed.announced chain tip k = feed.recent.blocks[k]? :=
  if_neg (TipWatch.not_announces_of_settled h)

/-- What a cycle leaves at a height is what was there, or the chain's block where there was
nothing. -/
theorem getD_cycle (chain : Nat → Value) (feed : Feed) {k : Nat} (hk : k ∈ window tip) :
    ((feed.cycle tip fun h => some (chain h)).recent.blocks[k]?).getD
        (BlockInfo.ofReply (chain k)) =
      (feed.announced chain tip k).getD (BlockInfo.ofReply (chain k)) := by
  rcases getElem?_cycle chain tip feed with ⟨targets, hcycle, htargets, -⟩
  rw [hcycle k hk]
  split_ifs with hmem
  · rw [(htargets k hmem).2]
    rfl
  · rfl

/-- A cycle with the tip settled fills at least one missing height, if there is one. -/
theorem missing_cycle_lt (chain : Nat → Value) (h : feed.watch.lastTip = some tip)
    (hmissing : feed.recent.missing tip ≠ []) :
    ((feed.cycle tip fun h => some (chain h)).recent.missing tip).length <
      (feed.recent.missing tip).length := by
  rcases getElem?_cycle chain tip feed with ⟨targets, hcycle, htargets, hne⟩
  have hsub : ∀ k ∈ (feed.cycle tip fun h => some (chain h)).recent.missing tip,
      k ∈ feed.recent.missing tip ∧ k ∉ targets := by
    intro k hk
    rcases mem_missing.1 hk with ⟨hwindow, hnone⟩
    rw [hcycle k hwindow] at hnone
    split_ifs at hnone with hmem
    rw [announced_of_settled h] at hnone
    exact ⟨mem_missing.2 ⟨hwindow, hnone⟩, hmem⟩
  obtain ⟨k, hk⟩ := List.exists_mem_of_ne_nil _ hmissing
  have htargetsNe : targets ≠ [] := by
    apply hne ⟨k, (mem_missing.1 hk).1, _⟩
    rw [announced_of_settled h]
    exact (mem_missing.1 hk).2
  obtain ⟨target, htarget⟩ := List.exists_mem_of_ne_nil _ htargetsNe
  have htargetMissing : target ∈ feed.recent.missing tip := by
    rcases htargets target htarget with ⟨hwindow, hnone⟩
    rw [announced_of_settled h] at hnone
    exact mem_missing.2 ⟨hwindow, hnone⟩
  have herase : (feed.cycle tip fun h => some (chain h)).recent.missing tip ⊆
      (feed.recent.missing tip).erase target := by
    intro k hk
    rcases hsub k hk with ⟨hmem, hnotTarget⟩
    have hne : k ≠ target := by
      rintro rfl
      exact hnotTarget htarget
    exact (List.mem_erase_of_ne hne).2 hmem
  have hlength := ((nodup_missing _ tip).subperm herase).length_le
  rw [List.length_erase_of_mem htargetMissing] at hlength
  have hpos := List.length_pos_of_mem htargetMissing
  omega

/-- A full window stays as it is. -/
theorem settle_full (chain : Nat → Value) (h : feed.watch.lastTip = some tip)
    (hfull : feed.recent.missing tip = []) (n : Nat) {k : Nat} (hk : k ∈ window tip) :
    (settle chain tip n feed).recent.blocks[k]? = feed.recent.blocks[k]? := by
  induction n generalizing feed with
  | zero => rfl
  | succ n ih =>
    have hcycle : ∀ k ∈ window tip, (feed.cycle tip fun h => some (chain h)).recent.blocks[k]? =
        feed.recent.blocks[k]? := by
      intro k hk
      rcases getElem?_cycle chain tip feed with ⟨targets, hget, htargets, -⟩
      rw [hget k hk, announced_of_settled h]
      apply if_neg
      intro hmem
      rcases htargets k hmem with ⟨hwindow, hnone⟩
      rw [announced_of_settled h] at hnone
      have := mem_missing.2 ⟨hwindow, hnone⟩
      rw [hfull] at this
      cases this
    have hfull' : (feed.cycle tip fun h => some (chain h)).recent.missing tip = [] := by
      apply List.eq_nil_iff_forall_not_mem.2
      intro k hk
      rcases mem_missing.1 hk with ⟨hwindow, hnone⟩
      rw [hcycle k hwindow] at hnone
      have := mem_missing.2 ⟨hwindow, hnone⟩
      rw [hfull] at this
      cases this
    rw [settle, ih (lastTip_cycle _ feed) hfull', hcycle k hk]

/-- Induction on what is missing: in the end every height shows what it showed at first, or the
chain's block where nothing was cached. -/
theorem settle_getElem? (chain : Nat → Value) (h : feed.watch.lastTip = some tip) :
    ∃ N, ∀ n ≥ N, ∀ k ∈ window tip, (settle chain tip n feed).recent.blocks[k]? =
      some ((feed.recent.blocks[k]?).getD (BlockInfo.ofReply (chain k))) := by
  induction hlen : (feed.recent.missing tip).length using Nat.strong_induction_on
    generalizing feed with
  | _ length ih =>
    by_cases hmissing : feed.recent.missing tip = []
    · refine ⟨0, fun n _ k hk => ?_⟩
      rw [settle_full chain h hmissing n hk]
      cases hblock : feed.recent.blocks[k]? with
      | some info => rfl
      | none =>
        have := mem_missing.2 ⟨hk, hblock⟩
        rw [hmissing] at this
        cases this
    · have hlt := missing_cycle_lt chain h hmissing
      rw [hlen] at hlt
      rcases ih _ hlt (lastTip_cycle _ feed) rfl with ⟨N, hN⟩
      refine ⟨N + 1, fun n hn k hk => ?_⟩
      obtain ⟨m, rfl⟩ := Nat.exists_eq_add_of_le hn
      rw [show N + 1 + m = (N + m) + 1 by omega, settle, hN (N + m) (Nat.le_add_right N m) k hk,
        getD_cycle chain feed hk, announced_of_settled h]

/-- From any state: what the announced heights and the missing ones show in the end is the
chain's, and what was cached besides is never touched. -/
theorem settle_eventually (chain : Nat → Value) (tip : Nat) (feed : Feed) :
    ∃ N, ∀ n ≥ N, ∀ k ∈ window tip, (settle chain tip n feed).recent.blocks[k]? =
      some ((feed.announced chain tip k).getD (BlockInfo.ofReply (chain k))) := by
  rcases settle_getElem? chain (lastTip_cycle (fun h => some (chain h)) feed) with ⟨N, hN⟩
  refine ⟨N + 1, fun n hn k hk => ?_⟩
  obtain ⟨m, rfl⟩ := Nat.exists_eq_add_of_le hn
  rw [show N + 1 + m = (N + m) + 1 by omega, settle, hN (N + m) (Nat.le_add_right N m) k hk,
    getD_cycle chain feed hk]

end Feed

/-- The tile of the chain's own block. -/
def chainTile (sealed : SealedBlocks) (chain : Nat → Value) (height : Nat) : Tile :=
  ⟨height, txCount (chain height), blockTimestampMs (chain height),
    sealed.mineMark height true (blockHash (chain height))⟩

/-- A cached block whose tile is that of `block`. -/
def BlockInfo.Shows (info : BlockInfo) (sealed : SealedBlocks) (height : Nat) (block : Value) :
    Prop :=
  info.txCount = BlockFlow.txCount block ∧ info.timestampMs = blockTimestampMs block ∧
    sealed.mineMark height true info.hash = sealed.mineMark height true (blockHash block)

theorem tile_eq_chainTile {recent : RecentBlocks} {sealed : SealedBlocks} {chain : Nat → Value}
    {height : Nat} {info : BlockInfo} (h : recent.blocks[height]? = some info) :
    recent.tile sealed height = chainTile sealed chain height ↔
      info.Shows sealed height (chain height) := by
  simp [RecentBlocks.tile, chainTile, h, BlockInfo.Shows]

theorem ofReply_shows (sealed : SealedBlocks) (height : Nat) (block : Value) :
    (BlockInfo.ofReply block).Shows sealed height block := ⟨rfl, rfl, rfl⟩

/-- The tiles end up at the chain's if and only if every block of the window that is cached, and
not announced by the next observation of the tip, already shows the chain's. -/
theorem tiles_converge_iff (chain : Nat → Value) (tip : Nat) (sealed : SealedBlocks) (feed : Feed) :
    (∃ N, ∀ n ≥ N, (feed.settle chain tip n).recent.tiles tip sealed =
      (window tip).map (chainTile sealed chain)) ↔
    ∀ height info, windowStart tip ≤ height → height ≤ tip →
      feed.recent.blocks[height]? = some info → ¬feed.watch.Announces tip height →
      info.Shows sealed height (chain height) := by
  rcases Feed.settle_eventually chain tip feed with ⟨N₀, hN₀⟩
  have htiles : ∀ n ≥ N₀, (feed.settle chain tip n).recent.tiles tip sealed =
      (window tip).map (chainTile sealed chain) ↔
      ∀ k ∈ window tip, ((feed.announced chain tip k).getD (BlockInfo.ofReply (chain k))).Shows
        sealed k (chain k) := by
    intro n hn
    rw [RecentBlocks.tiles, List.map_inj_left]
    exact forall₂_congr fun k hk => tile_eq_chainTile (hN₀ n hn k hk)
  constructor
  · rintro ⟨N, hN⟩ height info hstart htip hcached hannounced
    have hshows := (htiles _ (le_max_right N N₀)).1 (hN _ (le_max_left N N₀)) height
      (mem_window.2 ⟨hstart, htip⟩)
    rwa [Feed.announced, if_neg hannounced, hcached] at hshows
  · intro h
    refine ⟨N₀, fun n hn => (htiles n hn).2 fun k hk => ?_⟩
    rcases mem_window.1 hk with ⟨hstart, htip⟩
    rw [Feed.announced]
    split_ifs with hannounced
    · exact ofReply_shows sealed k (chain k)
    · cases hcached : feed.recent.blocks[k]? with
      | some info => exact h k info hstart htip hcached hannounced
      | none => exact ofReply_shows sealed k (chain k)

section SameHeightReorg

def forkBlock (hash : String) (count : UInt64) : Value :=
  .object [("hash", .string hash), ("txCount", .nat count)]

def oldChain (height : Nat) : Value := forkBlock (["a0", "a1", "a2"].getD height "a3") 1

/-- The block at height 2 replaced by another of the same height. -/
def newChain (height : Nat) : Value := if height = 2 then forkBlock "b2" 2 else oldChain height

def beforeReorg : Feed :=
  (⟨{}, ({} : TipWatch).beginSession⟩ : Feed).cycle 2 fun height => some (oldChain height)

/-- The tip is at the height it was at, so nothing is announced, and nothing is missing: the
replaced block's tile stays. -/
theorem stale_tile :
    ¬∀ feed, Runs.Reachable Feed.step {} feed →
      ∀ (chain : Nat → Value) (tip : Nat) (sealed : SealedBlocks),
      (∀ height ≤ tip, (blockHash (chain height)).isSome) →
      ∃ N, ∀ n ≥ N, (feed.settle chain tip n).recent.tiles tip sealed =
        (window tip).map (chainTile sealed chain) := by
  intro h
  have hreachable : Runs.Reachable Feed.step {} beforeReorg :=
    ⟨[.session, .cycle 2 fun height => some (oldChain height)], rfl⟩
  have hdisclosed : ∀ height ≤ 2, (blockHash (newChain height)).isSome := by decide
  have hcached : beforeReorg.recent.blocks[2]? = some ⟨some "a2", some 1, none⟩ := by
    decide +kernel
  have hsettled : beforeReorg.watch.lastTip = some 2 := Feed.lastTip_cycle _ _
  rcases h _ hreachable newChain 2 {} hdisclosed with ⟨N, hN⟩
  rcases Feed.settle_eventually newChain 2 beforeReorg with ⟨N₀, hN₀⟩
  have hwindow : 2 ∈ window 2 := by decide
  have hfinal := hN₀ _ (le_max_right N N₀) 2 hwindow
  rw [Feed.announced_of_settled hsettled, hcached, Option.getD_some] at hfinal
  have htiles := hN _ (le_max_left N N₀)
  rw [RecentBlocks.tiles, List.map_inj_left] at htiles
  have hshows := (tile_eq_chainTile hfinal).1 (htiles 2 hwindow)
  exact absurd hshows.1 (by decide)

end SameHeightReorg

end XusMiner.BlockFlow
