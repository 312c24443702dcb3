import XusMiner.BlockFlow.Blocks

namespace XusMiner.BlockFlow

/-- What is found at the four places a block reply may hold the block's hash. -/
def hashLocations (value : Value) : List (Option Value) :=
  let block := value.get "block"
  [value.get "hash", block.bind (·.get "hash"), (value.get "header").bind (·.get "hash"),
    (block.bind (·.get "header")).bind (·.get "hash")]

/-- The hashes the reply discloses, as they would be stored. -/
def disclosedHashes (value : Value) : List String :=
  (hashLocations value).filterMap fun location => (location.bind Value.asStr).bind boundedHash

/-- The text is a hash as far as the reader of block replies is concerned. -/
def GoodHash (text hash : String) : Prop := boundedHash text = some hash

/-- The block object itself holds a hash, or it has no member `hash` and its header holds one. -/
def Discloses (value : Value) : Prop :=
  ∃ text hash, GoodHash text hash ∧ ((blockFacet value).get "hash" = some (.string text) ∨
    ((blockFacet value).get "hash" = none ∧
      ∃ header, (blockFacet value).get "header" = some header ∧
      header.get "hash" = some (.string text)))

theorem blockHash_eq_some {value : Value} {hash : String} : blockHash value = some hash ↔
    ∃ text, GoodHash text hash ∧ ((blockFacet value).get "hash" = some (.string text) ∨
      ((blockFacet value).get "hash" = none ∧ ∃ header,
        (blockFacet value).get "header" = some header ∧
          header.get "hash" = some (.string text))) := by
  unfold blockHash GoodHash
  dsimp only
  cases (blockFacet value).get "hash" with
  | some found => simp [Option.bind_eq_some_iff, and_comm]
  | none => simp [Option.bind_eq_some_iff, and_comm]

theorem discloses_iff {value : Value} : Discloses value ↔ ∃ hash, blockHash value = some hash := by
  simp only [blockHash_eq_some]
  exact exists_comm

/-- The block object is one of the two that hold the documented locations. -/
theorem facet_locations {value : Value} {text : String}
    (h : (blockFacet value).get "hash" = some (.string text) ∨
      ((blockFacet value).get "header").bind (·.get "hash") = some (.string text)) :
    some (.string text) ∈ hashLocations value := by
  unfold blockFacet at h
  split at h
  · next inner hblock =>
    split_ifs at h
    · rcases h with hhash | hheader
      · simp [hashLocations, hblock, hhash]
      · simp [hashLocations, hblock, hheader]
    · rcases h with hhash | hheader
      · simp [hashLocations, hhash]
      · simp [hashLocations, hheader]
  · rcases h with hhash | hheader
    · simp [hashLocations, hhash]
    · simp [hashLocations, hheader]

theorem mem_disclosedHashes {value : Value} {hash : String} (h : blockHash value = some hash) :
    hash ∈ disclosedHashes value := by
  obtain ⟨text, hgood, hfound⟩ := blockHash_eq_some.1 h
  refine List.mem_filterMap.2 ⟨some (.string text), facet_locations ?_, hgood⟩
  rcases hfound with hhash | ⟨-, header, hheader, hhash⟩
  · exact .inl hhash
  · exact .inr (by rw [hheader]; exact hhash)

/-- A block is attributed by its disclosed hash alone. -/
structure ByHash (sealed : SealedBlocks) (height : Nat) (value : Value) : Prop where
  mark : sealed.mineMark height true (blockHash value) = .hash ∨
    sealed.mineMark height true (blockHash value) = .no
  recorded : sealed.mineMark height true (blockHash value) = .hash →
    ∃ hash ∈ disclosedHashes value, hash ∈ sealed.entries.map Prod.snd

theorem ByHash.of_blockHash {sealed : SealedBlocks} {height : Nat} {value : Value} {hash : String}
    (h : blockHash value = some hash) : ByHash sealed height value := by
  have hmark : sealed.mineMark height true (blockHash value) =
      if sealed.isSealed height (some hash) then .hash else .no := by
    simp [SealedBlocks.mineMark, h]
  constructor
  · rw [hmark]
    split_ifs
    · exact .inl rfl
    · exact .inr rfl
  · rw [hmark]
    split_ifs with hsealed
    · intro _
      refine ⟨hash, mem_disclosedHashes h, ?_⟩
      simpa [SealedBlocks.isSealed] using hsealed
    · exact nofun

/-- Without a hash the height decides. -/
theorem byHash_of_none {sealed : SealedBlocks} {height : Nat} {value : Value}
    (h : blockHash value = none) :
    ByHash sealed height value ↔ ∀ entry ∈ sealed.entries, entry.1 ≠ height := by
  have hmark : sealed.mineMark height true (blockHash value) =
      if sealed.isSealed height none then .height else .no := by
    simp [SealedBlocks.mineMark, h]
  have hsealed : sealed.isSealed height none = true ↔
      ∃ entry ∈ sealed.entries, entry.1 = height := by
    simp [SealedBlocks.isSealed]
  constructor
  · rintro ⟨hby, -⟩ entry hentry hheight
    rw [hmark, if_pos (hsealed.2 ⟨entry, hentry, hheight⟩)] at hby
    rcases hby with hby | hby
    · cases hby
    · cases hby
  · intro hnone
    have hnot : ¬sealed.isSealed height none = true := by
      rw [hsealed]
      rintro ⟨entry, hentry, hheight⟩
      exact hnone entry hentry hheight
    rw [if_neg hnot] at hmark
    refine ⟨.inr hmark, fun hhash => ?_⟩
    rw [hmark] at hhash
    cases hhash

/-- The disclosed hash decides just when it is found where the reader looks first, or when the
height has nothing to offer. -/
theorem attribution_by_hash (sealed : SealedBlocks) (height : Nat) (value : Value) :
    ByHash sealed height value ↔
      Discloses value ∨ ∀ entry ∈ sealed.entries, entry.1 ≠ height := by
  rw [discloses_iff]
  cases hhash : blockHash value with
  | some hash => exact iff_of_true (.of_blockHash hhash) (.inl ⟨hash, rfl⟩)
  | none =>
    rw [byHash_of_none hhash]
    simp

/-- A null at the first location hides the hash in the header. -/
theorem hash_hidden_by_null :
    disclosedHashes (.json [("hash", .null), ("header", .json [("hash", .string "cd")])]) = ["cd"] ∧
    (SealedBlocks.record {} 7 "ab").mineMark 7 true
      (blockHash (.json [("hash", .null), ("header", .json [("hash", .string "cd")])])) = .height ∧
    ¬ByHash (SealedBlocks.record {} 7 "ab") 7
      (.json [("hash", .null), ("header", .json [("hash", .string "cd")])]) := by
  have hmark : (SealedBlocks.record {} 7 "ab").mineMark 7 true
      (blockHash (.json [("hash", .null), ("header", .json [("hash", .string "cd")])])) =
        .height := by
    decide
  refine ⟨by decide, hmark, fun h => ?_⟩
  have hby := h.mark
  rw [hmark] at hby
  rcases hby with hby | hby
  · cases hby
  · cases hby

end XusMiner.BlockFlow
