import XusMiner.BlockFlow.RecentBlocks

namespace XusMiner.BlockFlow.RecentBlocks

/-- The loop that visits the heights from the tip down; it ends at the start of the window, or
where the visit breaks it. `none` is a height that falls below zero. -/
def walkDown {β : Type} (start : Nat) (visit : Nat → β → β × Bool) : Nat → β → Option β
  | 0, found =>
    let (found, stop) := visit 0 found
    if stop ∨ 0 = start then some found else none
  | height + 1, found =>
    let (found, stop) := visit (height + 1) found
    if stop ∨ height + 1 = start then some found else walkDown start visit height found

/-- The visit that keeps what satisfies `p`, until there are `limit` of them. -/
def keep (p : Nat → Bool) (limit height : Nat) (found : List Nat) : List Nat × Bool :=
  if p height then (found ++ [height], decide (limit ≤ (found ++ [height]).length))
  else (found, false)

/-- `refresh_targets`, as the loop runs. -/
def refreshTargetsLoop (recent : RecentBlocks) (tip : Nat) : Option (List Nat) :=
  walkDown (windowStart tip) (keep (fun height => recent.blocks[height]?.isNone) maxFetchPerRefresh)
    tip []

/-- `tiles`, as the loop runs. -/
def tilesLoop (recent : RecentBlocks) (tip : Nat) (sealed : SealedBlocks) : Option (List Tile) :=
  walkDown (windowStart tip) (fun height tiles => (tiles ++ [recent.tile sealed height], false))
    tip []

/-- A refresh whose fetches all succeed. -/
def refresh (tip : Nat) (recent : RecentBlocks) (fetch : Nat → BlockInfo) : RecentBlocks :=
  (recent.refreshTargets tip).foldl (fun recent height => recent.insert tip height (fetch height))
    recent

/-- The heights from one down to a start. -/
def down (start height : Nat) : List Nat := (List.range' start (height + 1 - start)).reverse

theorem down_self (start : Nat) : down start start = [start] := by
  rw [down, Nat.add_sub_cancel_left]
  rfl

theorem down_succ {start height : Nat} (h : start ≤ height) :
    down start (height + 1) = (height + 1) :: down start height := by
  have hlength : height + 1 + 1 - start = height + 1 - start + 1 := by omega
  rw [down, hlength, List.range'_1_concat, List.reverse_append, List.reverse_singleton,
    List.singleton_append, down]
  congr 1
  omega

theorem walkDown_map {β : Type} {start height : Nat} (h : start ≤ height) (f : Nat → β)
    (found : List β) :
    walkDown start (fun height found => (found ++ [f height], false)) height found =
      some (found ++ (down start height).map f) := by
  induction height generalizing found with
  | zero =>
    obtain rfl : start = 0 := by omega
    rw [down_self]
    rfl
  | succ height ih =>
    rw [walkDown]
    by_cases hstart : height + 1 = start
    · rw [hstart, down_self]
      simp
    · have hle : start ≤ height := by omega
      rw [down_succ hle]
      simp [hstart, ih hle]

theorem keep_pos {p : Nat → Bool} {height : Nat} (hp : p height = true) (limit : Nat)
    (found : List Nat) :
    keep p limit height found = (found ++ [height], decide (limit ≤ found.length + 1)) := by
  rw [keep, if_pos hp, List.length_append, List.length_singleton]

theorem keep_neg {p : Nat → Bool} {height : Nat} (hp : ¬p height = true) (limit : Nat)
    (found : List Nat) : keep p limit height found = (found, false) :=
  if_neg hp

/-- While there is room, the first of a list is kept. -/
theorem take_room {limit : Nat} {found : List Nat} (hroom : found.length < limit) (x : Nat)
    (xs : List Nat) : (x :: xs).take (limit - found.length) =
      x :: xs.take (limit - (found ++ [x]).length) := by
  obtain ⟨room, hroom'⟩ : ∃ room, limit - found.length = room + 1 :=
    ⟨limit - found.length - 1, by omega⟩
  rw [hroom', List.take_succ_cons, List.length_append, List.length_singleton]
  congr 2
  omega

/-- The walk finds the greatest heights that satisfy `p`. -/
theorem walkDown_keep {start height limit : Nat} (h : start ≤ height) (p : Nat → Bool)
    {found : List Nat} (hroom : found.length < limit) :
    walkDown start (keep p limit) height found =
      some (found ++ ((down start height).filter p).take (limit - found.length)) := by
  induction height generalizing found with
  | zero =>
    obtain rfl : start = 0 := by omega
    rw [walkDown, down_self]
    by_cases hp : p 0 = true
    · simp [keep_pos hp, hp, take_room hroom]
    · simp [keep_neg hp, hp]
  | succ height ih =>
    rw [walkDown]
    by_cases hp : p (height + 1) = true
    · rw [keep_pos hp]
      dsimp only
      by_cases hstop : limit ≤ found.length + 1
      · have hfull : limit - (found ++ [height + 1]).length = 0 := by
          simp
          omega
        have hhead : ∃ rest, (down start (height + 1)).filter p = (height + 1) :: rest := by
          rcases Nat.lt_or_eq_of_le h with hlt | rfl
          · rw [down_succ (by omega), List.filter_cons_of_pos hp]
            exact ⟨_, rfl⟩
          · rw [down_self, List.filter_cons_of_pos hp]
            exact ⟨_, rfl⟩
        obtain ⟨rest, hrest⟩ := hhead
        rw [if_pos (Or.inl (decide_eq_true hstop)), hrest, take_room hroom, hfull, List.take_zero]
      · have hroom' : (found ++ [height + 1]).length < limit := by
          simp
          omega
        by_cases hstart : height + 1 = start
        · rw [if_pos (Or.inr hstart), ← hstart, down_self, List.filter_cons_of_pos hp,
            take_room hroom, List.filter_nil, List.take_nil]
        · rw [if_neg (by simp [hstop, hstart]), ih (by omega) hroom', down_succ (by omega),
            List.filter_cons_of_pos hp, take_room hroom, List.append_assoc, List.singleton_append]
    · rw [keep_neg hp]
      dsimp only
      by_cases hstart : height + 1 = start
      · rw [if_pos (Or.inr hstart), ← hstart, down_self]
        simp [hp]
      · rw [if_neg (by simp [hstart]), ih (by omega) hroom, down_succ (by omega),
          List.filter_cons_of_neg hp]

theorem windowStart_le (tip : Nat) : windowStart tip ≤ tip := Nat.sub_le _ _

/-- Neither loop falls below zero. -/
theorem refreshTargetsLoop_eq (recent : RecentBlocks) (tip : Nat) :
    recent.refreshTargetsLoop tip = some (recent.refreshTargets tip) := by
  rw [refreshTargetsLoop, walkDown_keep (windowStart_le tip) _ (by decide : [].length < _)]
  rfl

theorem tilesLoop_eq (recent : RecentBlocks) (tip : Nat) (sealed : SealedBlocks) :
    recent.tilesLoop tip sealed = some (recent.tiles tip sealed) := by
  rw [tilesLoop, walkDown_map (windowStart_le tip)]
  rfl

theorem mem_window_of_insert {recent : RecentBlocks} {tip height k : Nat} {info : BlockInfo}
    (h : (recent.insert tip height info).blocks[k]?.isSome) : windowStart tip ≤ k ∧ k ≤ tip := by
  rw [insert, Std.ExtTreeMap.getElem?_filter', Option.isSome_filter, Option.any_eq_true] at h
  obtain ⟨-, -, hk⟩ := h
  exact of_decide_eq_true hk

theorem length_window (tip : Nat) : (window tip).length = min tip 32 + 1 := by
  rw [window, List.length_reverse, List.length_range', windowStart, recentDepth]
  omega

theorem window_eq_map (tip : Nat) :
    window tip = (List.range (min tip 32 + 1)).map (tip - ·) := by
  apply List.ext_getElem
  · rw [length_window, List.length_map, List.length_range]
  · intro i hi hi'
    rw [length_window] at hi
    simp only [window, windowStart, recentDepth, List.getElem_reverse, List.getElem_range',
      List.getElem_map, List.getElem_range, List.length_range']
    omega

theorem pairwise_window (tip : Nat) : (window tip).Pairwise (· > ·) :=
  List.pairwise_reverse.2 List.pairwise_lt_range'

/-- The targets are the greatest missing heights. -/
theorem refreshTargets_greatest {recent : RecentBlocks} {tip height : Nat}
    (hmissing : height ∈ recent.missing tip) (hnot : height ∉ recent.refreshTargets tip) :
    ∀ target ∈ recent.refreshTargets tip, height < target := by
  have hpairwise : (recent.missing tip).Pairwise (· > ·) := (pairwise_window tip).filter _
  rw [← List.take_append_drop maxFetchPerRefresh (recent.missing tip)] at hpairwise hmissing
  have hdrop := (List.mem_append.1 hmissing).resolve_left hnot
  intro target htarget
  exact (List.pairwise_append.1 hpairwise).2.2 target htarget height hdrop

/-- A fetched block is missing no longer, and nothing cached is lost by it. -/
theorem missing_insert {recent : RecentBlocks} {tip height : Nat} {rest : List Nat}
    (h : recent.missing tip = height :: rest) (info : BlockInfo) :
    (recent.insert tip height info).missing tip = rest := by
  have hmem : height ∈ recent.missing tip := by simp [h]
  have hnone := (mem_missing.1 hmem).2
  have hnodup := h ▸ nodup_missing recent tip
  have hfilter : (recent.insert tip height info).missing tip =
      (recent.missing tip).filter (· ≠ height) := by
    rw [missing, missing, List.filter_filter]
    apply List.filter_congr
    intro k hk
    rw [getElem?_insert recent info hk, reorged_eq_false hnone]
    by_cases hheight : k = height
    · simp [hheight]
    · simp [hheight]
  rw [hfilter, h, List.filter_cons_of_neg (by simp), List.filter_eq_self]
  intro k hk
  simp only [ne_eq, decide_eq_true_eq]
  rintro rfl
  exact (List.nodup_cons.1 hnodup).1 hk

theorem missing_foldl_insert {tip : Nat} (fetch : Nat → BlockInfo) {targets rest : List Nat}
    {recent : RecentBlocks} (h : recent.missing tip = targets ++ rest) :
    (targets.foldl (fun recent height => recent.insert tip height (fetch height)) recent).missing
      tip = rest := by
  induction targets generalizing recent with
  | nil => exact h
  | cons height targets ih => exact ih (missing_insert h (fetch height))

theorem missing_refresh (tip : Nat) (recent : RecentBlocks) (fetch : Nat → BlockInfo) :
    (refresh tip recent fetch).missing tip = (recent.missing tip).drop maxFetchPerRefresh :=
  missing_foldl_insert fetch (List.take_append_drop _ _).symm

theorem missing_foldl_refresh (tip : Nat) (recent : RecentBlocks)
    (fetches : List (Nat → BlockInfo)) : (fetches.foldl (refresh tip) recent).missing tip =
      (recent.missing tip).drop (fetches.length * maxFetchPerRefresh) := by
  induction fetches generalizing recent with
  | nil => rw [List.foldl_nil, List.length_nil, Nat.zero_mul, List.drop_zero]
  | cons fetch fetches ih =>
    rw [List.foldl_cons, ih, missing_refresh, List.drop_drop, List.length_cons, Nat.succ_mul,
      Nat.add_comm]

/-- Four heights a refresh: a window that is all missing is filled in nine refreshes at most. -/
theorem missing_eq_nil {tip : Nat} {fetches : List (Nat → BlockInfo)}
    (h : (min tip 32 + 1 + 3) / 4 ≤ fetches.length) (recent : RecentBlocks) :
    (fetches.foldl (refresh tip) recent).missing tip = [] := by
  have hlength : (recent.missing tip).length ≤ min tip 32 + 1 := by
    rw [← length_window]
    exact List.length_filter_le _ _
  rw [missing_foldl_refresh, List.drop_eq_nil_iff, maxFetchPerRefresh]
  omega

end XusMiner.BlockFlow.RecentBlocks
