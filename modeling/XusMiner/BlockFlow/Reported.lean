import XusMiner.BlockFlow.Gaps

namespace XusMiner.BlockFlow

abbrev Heights := Std.ExtTreeMap Nat (Option String)

theorem mem_iff_exists_getElem? {map : Heights} {k : Nat} :
    k ∈ map ↔ ∃ v : Option String, map[k]? = some v := by
  rw [Std.ExtTreeMap.mem_iff_isSome_getElem?, Option.isSome_iff_exists]

/-- Dropping the oldest heights keeps the other entries as they are, and what is dropped lies
below all of a full memory. -/
structure Pruned (before after : Heights) : Prop where
  size : after.size = min before.size maxReportedTracked
  kept : ∀ (k : Nat) (v : Option String), after[k]? = some v → before[k]? = some v
  dropped : ∀ k ∈ before, k ∉ after → maxReportedTracked ≤ after.size ∧ ∀ j ∈ after, k < j

theorem Pruned.refl {map : Heights} (h : map.size ≤ maxReportedTracked) : Pruned map map :=
  ⟨(min_eq_left h).symm, fun _ _ hk => hk, fun _ hk hdrop => absurd hk hdrop⟩

/-- One turn of the pruning loop, before the turns that are left. -/
theorem Pruned.of_erase {map after : Heights} {oldest : Nat}
    (hover : maxReportedTracked < map.size) (holdest : map.minKey? = some oldest)
    (h : Pruned (map.erase oldest) after) : Pruned map after := by
  obtain ⟨hmem, hmin⟩ := Std.ExtTreeMap.minKey?_eq_some_iff_mem_and_forall.mp holdest
  have hsize : (map.erase oldest).size = map.size - 1 := by
    rw [Std.ExtTreeMap.size_erase, if_pos (Std.ExtTreeMap.contains_iff_mem.mpr hmem)]
  have herase (k : Nat) : k ∈ map.erase oldest ↔ k ≠ oldest ∧ k ∈ map := by
    rw [Std.ExtTreeMap.mem_erase, ne_eq, Nat.compare_eq_eq]
    exact and_congr_left fun _ => ne_comm
  have hsub (k : Nat) (hk : k ∈ after) : k ∈ map.erase oldest := by
    obtain ⟨v, hv⟩ := mem_iff_exists_getElem?.mp hk
    exact mem_iff_exists_getElem?.mpr ⟨v, h.kept k v hv⟩
  refine ⟨by rw [h.size]; omega, fun k v hk => ?_, fun k hk hdrop => ?_⟩
  · have hget := h.kept k v hk
    rw [Std.ExtTreeMap.getElem?_erase] at hget
    split_ifs at hget
    exact hget
  · by_cases heq : k = oldest
    · subst heq
      refine ⟨by rw [h.size]; omega, fun j hj => ?_⟩
      obtain ⟨hne, hjmem⟩ := (herase j).mp (hsub j hj)
      have hle : k ≤ j := Nat.isLE_compare.mp (hmin j hjmem)
      omega
    · exact h.dropped k ((herase k).mpr ⟨heq, hk⟩) hdrop

theorem pruned_pruneReported (map : Heights) (fuel : Nat)
    (h : map.size ≤ maxReportedTracked + fuel) : Pruned map (TipWatch.pruneReported map fuel) := by
  induction fuel generalizing map with
  | zero => exact .refl h
  | succ fuel ih =>
    unfold TipWatch.pruneReported
    split_ifs with hover
    · cases holdest : map.minKey? with
      | none =>
        have hempty : map = ∅ := Std.ExtTreeMap.minKey?_eq_none_iff.mp holdest
        rw [hempty, Std.ExtTreeMap.size_empty] at hover
        exact absurd hover (Nat.not_lt_zero _)
      | some oldest =>
        apply Pruned.of_erase hover holdest
        apply ih
        obtain ⟨hmem, -⟩ := Std.ExtTreeMap.minKey?_eq_some_iff_mem_and_forall.mp holdest
        rw [Std.ExtTreeMap.size_erase, if_pos (Std.ExtTreeMap.contains_iff_mem.mpr hmem)]
        omega
    · exact .refl (not_lt.mp hover)

namespace TipWatch

/-- What is known of the hash at a height. -/
def stored (watch : TipWatch) (height : Nat) : Option String := (watch.reported[height]?).join

/-- A height enters the memory, where its hash is learned when there is one. -/
def put (watch : TipWatch) (height : Nat) (hash : Option String) : TipWatch :=
  { watch with reported := watch.reported.insert height (hash.or (watch.stored height)) }.prune

theorem insert_known {map : Heights} {height : Nat} {known : Option String}
    (h : map[height]? = some known) : map.insert height known = map := by
  apply Std.ExtTreeMap.ext_getElem?
  intro k
  rw [Std.ExtTreeMap.getElem?_insert]
  split_ifs with heq
  · rw [← Nat.compare_eq_eq.mp heq, h]
  · rfl

theorem record_eq (watch : TipWatch) (height : Nat) (hash : Option String) (announce : Bool) :
    (watch.record height hash announce).2 = watch.put height (hash.bind boundedHash) := by
  unfold record put stored
  generalize hash.bind boundedHash = hash
  cases hknown : watch.reported[height]? with
  | none => simp
  | some known =>
    cases known with
    | none =>
      cases hash with
      | none => simp [insert_known hknown]
      | some new => rfl
    | some previous =>
      cases hash with
      | none => simp [insert_known hknown]
      | some new =>
        dsimp only
        split_ifs with hne
        · rfl
        · rw [not_not] at hne
          subst hne
          simp [insert_known hknown]

theorem reported_rebaseline (watch : TipWatch) (tip : Nat) :
    (watch.rebaseline tip).reported = (watch.put tip none).reported := by
  have hinsert : (if watch.reported.contains tip then watch.reported
      else watch.reported.insert tip none) =
        watch.reported.insert tip (watch.stored tip) := by
    rw [stored]
    split_ifs with hcontains
    · obtain ⟨known, hknown⟩ :=
        mem_iff_exists_getElem?.mp (Std.ExtTreeMap.contains_iff_mem.mp hcontains)
      rw [hknown]
      exact (insert_known hknown).symm
    · have hknown : watch.reported[tip]? = none :=
        Std.ExtTreeMap.getElem?_eq_none fun hmem =>
          hcontains (Std.ExtTreeMap.contains_iff_mem.mpr hmem)
      rw [hknown]
      rfl
  simp only [rebaseline, put, prune, hinsert, Option.none_or]

theorem pruned_put (watch : TipWatch) (height : Nat) (hash : Option String) :
    Pruned (watch.reported.insert height (hash.or (watch.stored height)))
      (watch.put height hash).reported :=
  pruned_pruneReported _ _ (Nat.le_add_left _ _)

/-- What a call puts into the memory: a recorded block, or the tip of a baseline, whose hash is
not known yet. -/
def newEntry (watch : TipWatch) : Call → Option (Nat × Option String)
  | .beginSession => none
  | .observeTip tip =>
    match (watch.observeTip tip.toNat).1 with
    | .baseline height => some (height, none)
    | _ => none
  | .recordReported height hash => some (height.toNat, hash.bind boundedHash)
  | .observeFetched height hash => some (height.toNat, hash.bind boundedHash)

theorem reported_call (watch : TipWatch) (c : Call) :
    (watch.call c).reported =
      match watch.newEntry c with
      | some (height, hash) => (watch.put height hash).reported
      | none => watch.reported := by
  cases c with
  | beginSession => rfl
  | observeTip tip =>
    unfold call newEntry observeTip
    cases watch.lastTip with
    | none => exact reported_rebaseline watch tip.toNat
    | some last =>
      dsimp only
      split_ifs
      · exact reported_rebaseline watch tip.toNat
      · rfl
      · rfl
  | recordReported height hash => exact congrArg reported (record_eq _ _ _ _)
  | observeFetched height hash => exact congrArg reported (record_eq _ _ _ _)

theorem size_put_le (watch : TipWatch) (height : Nat) (hash : Option String) :
    (watch.put height hash).reported.size ≤ maxReportedTracked := by
  rw [(pruned_put watch height hash).size]
  exact min_le_right _ _

theorem size_run_le {watch : TipWatch} (h : watch.reported.size ≤ maxReportedTracked)
    (calls : List Call) : (watch.run calls).reported.size ≤ maxReportedTracked := by
  induction calls generalizing watch with
  | nil => exact h
  | cons c calls ih =>
    apply ih
    rw [reported_call]
    split
    · exact size_put_le watch _ _
    · exact h

end TipWatch

theorem size_le_card {map : Heights} {heights : Finset Nat} (h : ∀ k ∈ map, k ∈ heights) :
    map.size ≤ heights.card := by
  rw [← Std.ExtTreeMap.length_keys, ← List.toFinset_card_of_nodup Std.ExtTreeMap.nodup_keys]
  apply Finset.card_le_card
  intro k hk
  exact h k (Std.ExtTreeMap.mem_keys.mp (List.mem_toFinset.mp hk))

namespace TipWatch

/-- The memory draws on these heights, and has lost `height` only to a full memory of greater
ones. -/
structure Outlives (watch : TipWatch) (height : Nat) (heights : Finset Nat) : Prop where
  drawn : ∀ k ∈ watch.reported, k ∈ heights
  held : height ∈ watch.reported ∨ maxReportedTracked ≤ (heights.filter (height < ·)).card

theorem mem_put {watch : TipWatch} {height k : Nat} {hash : Option String}
    (h : k ∈ (watch.put height hash).reported) : k = height ∨ k ∈ watch.reported := by
  obtain ⟨v, hv⟩ := mem_iff_exists_getElem?.mp h
  have hinsert := mem_iff_exists_getElem?.mpr ⟨v, (pruned_put watch height hash).kept k v hv⟩
  rw [Std.ExtTreeMap.mem_insert, Nat.compare_eq_eq] at hinsert
  exact hinsert.imp_left Eq.symm

/-- A height that was in the memory, or just entered it, is dropped only below a full memory. -/
theorem outlives_put {watch : TipWatch} {height k : Nat} {heights : Finset Nat}
    {hash : Option String} (hdrawn : ∀ j ∈ watch.reported, j ∈ heights)
    (hheld : k = height ∨ k ∈ watch.reported ∨
      maxReportedTracked ≤ (heights.filter (k < ·)).card) :
    (watch.put height hash).Outlives k (insert height heights) := by
  have hpruned := pruned_put watch height hash
  have hdrawn' : ∀ j ∈ (watch.put height hash).reported, j ∈ insert height heights := by
    intro j hj
    exact Finset.mem_insert.mpr ((mem_put hj).imp_right (hdrawn j))
  refine ⟨hdrawn', ?_⟩
  by_cases hmem : k ∈ (watch.put height hash).reported
  · exact .inl hmem
  have hentered (h : k = height ∨ k ∈ watch.reported) :
      maxReportedTracked ≤ ((insert height heights).filter (k < ·)).card := by
    have hinsert : k ∈ watch.reported.insert height (hash.or (watch.stored height)) := by
      rw [Std.ExtTreeMap.mem_insert, Nat.compare_eq_eq]
      exact h.imp_left Eq.symm
    obtain ⟨hfull, habove⟩ := hpruned.dropped k hinsert hmem
    apply hfull.trans
    apply size_le_card
    intro j hj
    exact Finset.mem_filter.mpr ⟨hdrawn' j hj, habove j hj⟩
  rcases hheld with heq | hin | hfull
  · exact .inr (hentered (.inl heq))
  · exact .inr (hentered (.inr hin))
  · have hsub := Finset.filter_subset_filter (k < ·) (Finset.subset_insert height heights)
    exact .inr (hfull.trans (Finset.card_le_card hsub))

/-- The heights that a run puts into the memory. -/
def puts (watch : TipWatch) : List Call → List Nat
  | [] => []
  | c :: calls => ((watch.newEntry c).map Prod.fst).toList ++ puts (watch.call c) calls

theorem outlives_run {watch : TipWatch} {height : Nat} {heights : Finset Nat}
    (h : watch.Outlives height heights) (calls : List Call) :
    (watch.run calls).Outlives height (heights ∪ (watch.puts calls).toFinset) := by
  induction calls generalizing watch heights with
  | nil =>
    rw [puts, List.toFinset_nil, Finset.union_empty]
    exact h
  | cons c calls ih =>
    have hreported := reported_call watch c
    rw [puts, List.toFinset_append, ← Finset.union_assoc]
    apply ih
    cases hentry : watch.newEntry c with
    | none =>
      rw [hentry] at hreported
      rw [Option.map_none, Option.toList_none, List.toFinset_nil, Finset.union_empty]
      exact ⟨hreported ▸ h.drawn, hreported ▸ h.held⟩
    | some entry =>
      obtain ⟨entered, hash⟩ := entry
      rw [hentry] at hreported
      have hput : (watch.put entered hash).Outlives height (insert entered heights) :=
        outlives_put h.drawn (.inr h.held)
      have hunion : heights ∪ [entered].toFinset = insert entered heights := by
        ext k
        simp
      rw [Option.map_some, Option.toList_some]
      rw [hunion]
      exact ⟨hreported ▸ hput.drawn, hreported ▸ hput.held⟩

/-- What a recorded block answers, by what was known of its height. -/
theorem record_fst (watch : TipWatch) (height : Nat) (hash : Option String) (announce : Bool) :
    (watch.record height hash announce).1 =
      match watch.reported[height]?, hash.bind boundedHash with
      | none, _ => if announce then .new else .alreadyReported
      | some (some previous), some new =>
        if previous ≠ new then .reorg previous else .alreadyReported
      | some _, _ => .alreadyReported := by
  unfold record
  generalize hash.bind boundedHash = hash
  cases watch.reported[height]? with
  | none => rfl
  | some known =>
    cases known with
    | none => cases hash <;> rfl
    | some previous =>
      cases hash with
      | none => rfl
      | some new =>
        dsimp only
        split_ifs <;> rfl

theorem recordReported_new_iff (watch : TipWatch) (height : Nat) (hash : Option String) :
    (watch.recordReported height hash).1 = .new ↔ height ∉ watch.reported := by
  rw [recordReported, record_fst, mem_iff_exists_getElem?]
  cases watch.reported[height]? with
  | none => simp
  | some known =>
    refine iff_of_false ?_ (by simp)
    cases known with
    | none => simp
    | some previous =>
      cases hash.bind boundedHash with
      | none => simp
      | some new =>
        show (if previous ≠ new then BlockRecord.reorg previous else .alreadyReported) ≠ .new
        split_ifs <;> simp

/-- A height enters a memory that is full of greater ones only to be dropped at once. -/
theorem dropped_iff (watch : TipWatch) (height : Nat) (hash : Option String) :
    height ∉ (watch.put height hash).reported ↔ ∃ heights : Finset Nat,
      maxReportedTracked ≤ heights.card ∧ ∀ k ∈ heights, height < k ∧ k ∈ watch.reported := by
  have hpruned := pruned_put watch height hash
  have hself : height ∈ watch.reported.insert height (hash.or (watch.stored height)) := by
    rw [Std.ExtTreeMap.mem_insert]
    exact .inl (Nat.compare_eq_eq.mpr rfl)
  constructor
  · intro hdrop
    obtain ⟨hfull, habove⟩ := hpruned.dropped height hself hdrop
    refine ⟨(watch.put height hash).reported.keys.toFinset, ?_, fun k hk => ?_⟩
    · apply hfull.trans
      apply size_le_card
      intro k hk
      exact List.mem_toFinset.mpr (Std.ExtTreeMap.mem_keys.mpr hk)
    · have hk' := Std.ExtTreeMap.mem_keys.mp (List.mem_toFinset.mp hk)
      have hlt := habove k hk'
      exact ⟨hlt, (mem_put hk').resolve_left hlt.ne'⟩
  · rintro ⟨heights, hcard, hheights⟩ hmem
    -- everything greater stays as well, which makes one entry too many
    have hstay : ∀ k ∈ insert height heights, k ∈ (watch.put height hash).reported := by
      intro k hk
      by_contra hdrop
      rcases Finset.mem_insert.mp hk with rfl | hk
      · exact hdrop hmem
      · have hinsert : k ∈ watch.reported.insert height (hash.or (watch.stored height)) := by
          rw [Std.ExtTreeMap.mem_insert]
          exact .inr (hheights k hk).2
        have hlt := (hpruned.dropped k hinsert hdrop).2 height hmem
        have := (hheights k hk).1
        omega
    have hle : (insert height heights).card ≤ (watch.put height hash).reported.size := by
      rw [← Std.ExtTreeMap.length_keys]
      calc (insert height heights).card
          ≤ (watch.put height hash).reported.keys.toFinset.card :=
            Finset.card_le_card fun k hk =>
              List.mem_toFinset.mpr (Std.ExtTreeMap.mem_keys.mpr (hstay k hk))
        _ ≤ _ := List.toFinset_card_le _
    have hnotMem : height ∉ heights := fun h => absurd (hheights height h).1 (lt_irrefl _)
    rw [Finset.card_insert_of_notMem hnotMem] at hle
    have := size_put_le watch height hash
    omega

/-- Right after a report the memory accounts for itself. -/
theorem outlives_of_put (watch : TipWatch) (height : Nat) (hash : Option String) :
    (watch.put height hash).Outlives height (watch.put height hash).reported.keys.toFinset := by
  have hkeys (k : Nat) : k ∈ (watch.put height hash).reported.keys.toFinset ↔
      k ∈ (watch.put height hash).reported := by
    rw [List.mem_toFinset, Std.ExtTreeMap.mem_keys]
  refine ⟨fun k hk => (hkeys k).mpr hk, ?_⟩
  by_cases hmem : height ∈ (watch.put height hash).reported
  · exact .inl hmem
  · have hself : height ∈ watch.reported.insert height (hash.or (watch.stored height)) := by
      rw [Std.ExtTreeMap.mem_insert]
      exact .inl (Nat.compare_eq_eq.mpr rfl)
    obtain ⟨hfull, habove⟩ := (pruned_put watch height hash).dropped height hself hmem
    refine .inr (hfull.trans (size_le_card fun k hk => ?_))
    exact Finset.mem_filter.mpr ⟨(hkeys k).mpr hk, habove k hk⟩

/-- The watch after a run and one more report. -/
def afterReport (calls : List Call) (height : UInt64) (hash : Option String) : TipWatch :=
  (({} : TipWatch).run calls).call (.recordReported height hash)

theorem afterReport_eq (calls : List Call) (height : UInt64) (hash : Option String) :
    afterReport calls height hash =
      (({} : TipWatch).run calls).put height.toNat (hash.bind boundedHash) :=
  record_eq _ _ _ _

end TipWatch

open TipWatch

/-- A block is not announced twice. The memory is bounded, and a height that is announced again
was outgrown: since its first report the memory has seen 64 greater heights, those it held at
that moment or those that entered it since. Repeating the report at once announces it again
exactly when the memory was full of greater heights already. -/
theorem announced_again_only_when_outgrown (calls : List Call) (height : UInt64)
    (hash : Option String) :
    (({} : TipWatch).run calls).reported.size ≤ maxReportedTracked ∧
    (∀ between : List Call,
      (((afterReport calls height hash).run between).recordReported height.toNat hash).1 = .new →
      ∃ heights : Finset Nat, maxReportedTracked ≤ heights.card ∧
        ∀ k ∈ heights, height.toNat < k ∧ (k ∈ (afterReport calls height hash).reported ∨
          k ∈ (afterReport calls height hash).puts between)) ∧
    (((afterReport calls height hash).recordReported height.toNat hash).1 = .new ↔
      ∃ heights : Finset Nat, maxReportedTracked ≤ heights.card ∧
        ∀ k ∈ heights, height.toNat < k ∧ k ∈ (({} : TipWatch).run calls).reported) := by
  refine ⟨size_run_le (Nat.zero_le _) calls, fun between hnew => ?_, ?_⟩
  · rw [afterReport_eq] at hnew ⊢
    rw [recordReported_new_iff] at hnew
    have houtlives := outlives_run (outlives_of_put (({} : TipWatch).run calls) height.toNat
      (hash.bind boundedHash)) between
    refine ⟨_, houtlives.held.resolve_left hnew, fun k hk => ?_⟩
    obtain ⟨hk, hlt⟩ := Finset.mem_filter.mp hk
    refine ⟨hlt, (Finset.mem_union.mp hk).imp (fun hkeys => ?_) List.mem_toFinset.mp⟩
    exact Std.ExtTreeMap.mem_keys.mp (List.mem_toFinset.mp hkeys)
  · rw [afterReport_eq, recordReported_new_iff]
    exact dropped_iff _ height.toNat _

/-- A memory that is full of greater heights. -/
def fullMemory : List Call :=
  (List.range 64).map fun k => .recordReported (UInt64.ofNat (100 + k)) none

/-- A low height enters a full memory and is dropped at once, so its report repeats although
nothing was recorded in between. -/
theorem low_block_announced_twice :
    ¬∀ (calls : List Call) (height : UInt64) (hash : Option String) (between : List Call),
      (((afterReport calls height hash).run between).recordReported height.toNat hash).1 = .new →
      ∃ heights : Finset Nat, maxReportedTracked ≤ heights.card ∧
        ∀ k ∈ heights, height.toNat < k ∧ k ∈ (afterReport calls height hash).puts between := by
  intro h
  have hfull : ∀ k ∈ Finset.Ico 100 164, (1 : UInt64).toNat < k ∧
      k ∈ (({} : TipWatch).run fullMemory).reported := by decide +kernel
  have hdropped : (1 : UInt64).toNat ∉ (afterReport fullMemory 1 (some "a")).reported := by
    rw [afterReport_eq, dropped_iff]
    exact ⟨_, by decide, hfull⟩
  have hnew := (recordReported_new_iff (afterReport fullMemory 1 (some "a")) _ (some "a")).mpr
    hdropped
  obtain ⟨heights, hcard, hheights⟩ := h fullMemory 1 (some "a") [] hnew
  have hempty : heights = ∅ := Finset.eq_empty_of_forall_notMem fun k hk =>
    List.not_mem_nil (hheights k hk).2
  rw [hempty, Finset.card_empty] at hcard
  exact absurd hcard (by decide)

/-- The neighbours in a list that differ. -/
def changes {α : Type} [DecidableEq α] (xs : List α) : List (α × α) :=
  (xs.zip xs.tail).filter fun pair => pair.1 ≠ pair.2

theorem changes_cons_cons {α : Type} [DecidableEq α] (x y : α) (xs : List α) :
    changes (x :: y :: xs) = (if x ≠ y then [(x, y)] else []) ++ changes (y :: xs) := by
  unfold changes
  rw [List.tail_cons, List.zip_cons_cons, List.filter_cons]
  split_ifs <;> simp_all

/-- The hash that another one replaces. -/
def replaced : Option String → Option String → Option String
  | some previous, some new => if previous ≠ new then some previous else none
  | _, _ => none

def BlockRecord.previousHash? : BlockRecord → Option String
  | .reorg previousHash => some previousHash
  | _ => none

namespace TipWatch

/-- The valid hash that a call gives for the height: one that `boundedHash` lets through. -/
def Call.hash? (height : Nat) : Call → Option String
  | .recordReported h hash => if h.toNat = height then hash.bind boundedHash else none
  | .observeFetched h hash => if h.toNat = height then hash.bind boundedHash else none
  | _ => none

/-- The previous hash of the reorg that a call reports for the height, if it does. -/
def reorg? (watch : TipWatch) (height : Nat) : Call → Option String
  | .recordReported h hash =>
    if h.toNat = height then (watch.recordReported h.toNat hash).1.previousHash? else none
  | .observeFetched h hash =>
    if h.toNat = height then (watch.observeFetched h.toNat hash).1.previousHash? else none
  | _ => none

/-- The previous hashes of the reorgs that a run reports for the height, in order. -/
def reorgs (watch : TipWatch) (height : Nat) : List Call → List String
  | [] => []
  | c :: calls => (watch.reorg? height c).toList ++ reorgs (watch.call c) height calls

/-- The height is in the memory after each call of the stretch. -/
def Keeps (watch : TipWatch) (height : Nat) : List Call → Prop
  | [] => True
  | c :: calls => height ∈ (watch.call c).reported ∧ Keeps (watch.call c) height calls

theorem previousHash?_record (watch : TipWatch) (height : Nat) (hash : Option String)
    (announce : Bool) :
    (watch.record height hash announce).1.previousHash? =
      replaced (watch.stored height) (hash.bind boundedHash) := by
  rw [record_fst, stored]
  cases watch.reported[height]? with
  | none =>
    show (if announce = true then BlockRecord.new else .alreadyReported).previousHash? = none
    split_ifs <;> rfl
  | some known =>
    cases known with
    | none => rfl
    | some previous =>
      cases hash.bind boundedHash with
      | none => rfl
      | some new =>
        show (if previous ≠ new then BlockRecord.reorg previous
          else .alreadyReported).previousHash? = if previous ≠ new then some previous else none
        split_ifs <;> rfl

theorem reorg?_eq (watch : TipWatch) (height : Nat) (c : Call) :
    watch.reorg? height c = replaced (watch.stored height) (c.hash? height) := by
  have hnone (known : Option String) : replaced known none = none := by cases known <;> rfl
  cases c with
  | beginSession => exact (hnone _).symm
  | observeTip tip => exact (hnone _).symm
  | recordReported h hash =>
    simp only [reorg?, Call.hash?]
    split_ifs with heq
    · rw [recordReported, previousHash?_record, heq]
    · exact (hnone _).symm
  | observeFetched h hash =>
    simp only [reorg?, Call.hash?]
    split_ifs with heq
    · rw [observeFetched, previousHash?_record, heq]
    · exact (hnone _).symm

/-- An entry that survives the pruning holds what was put. -/
theorem stored_put {watch : TipWatch} {height k : Nat} {hash : Option String}
    (h : k ∈ (watch.put height hash).reported) :
    (watch.put height hash).stored k =
      if height = k then hash.or (watch.stored k) else watch.stored k := by
  obtain ⟨v, hv⟩ := mem_iff_exists_getElem?.mp h
  have hkept := (pruned_put watch height hash).kept k v hv
  rw [Std.ExtTreeMap.getElem?_insert] at hkept
  simp only [Nat.compare_eq_eq] at hkept
  rw [stored, hv]
  split_ifs at hkept ⊢ with heq
  · rw [← Option.some.inj hkept, heq]
    rfl
  · rw [stored, hkept]

theorem hash?_eq (watch : TipWatch) (height : Nat) (c : Call) :
    c.hash? height =
      match watch.newEntry c with
      | some (k, hash) => if k = height then hash else none
      | none => none := by
  cases c with
  | beginSession => rfl
  | observeTip tip =>
    simp only [newEntry, Call.hash?]
    cases (watch.observeTip tip.toNat).1 <;> simp
  | recordReported h hash => rfl
  | observeFetched h hash => rfl

/-- While the height stays in the memory, its hash is the last valid one given. -/
theorem stored_call {watch : TipWatch} {height : Nat} {c : Call}
    (h : height ∈ (watch.call c).reported) :
    (watch.call c).stored height = (c.hash? height).or (watch.stored height) := by
  have hreported := reported_call watch c
  rw [hash?_eq watch]
  cases hentry : watch.newEntry c with
  | none =>
    rw [hentry] at hreported
    show ((watch.call c).reported[height]?).join = watch.stored height
    rw [hreported]
    rfl
  | some entry =>
    obtain ⟨k, hash⟩ := entry
    rw [hentry] at hreported
    have hput := stored_put (hreported ▸ h)
    show ((watch.call c).reported[height]?).join = _
    rw [hreported]
    refine hput.trans ?_
    dsimp only
    split_ifs
    · rfl
    · rw [Option.none_or]

/-- The step: a call adds a change exactly where it reports a reorg. -/
theorem changes_step (known new : Option String) (rest : List String) :
    (changes (known.toList ++ (new.toList ++ rest))).map Prod.fst =
      (replaced known new).toList ++
        (changes ((new.or known).toList ++ rest)).map Prod.fst := by
  cases known with
  | none => cases new <;> rfl
  | some previous =>
    cases new with
    | none => rfl
    | some new =>
      show (changes (previous :: new :: rest)).map Prod.fst = _
      rw [changes_cons_cons, List.map_append]
      congr 1
      show _ = (if previous ≠ new then some previous else none).toList
      split_ifs <;> rfl

/-- Induction on the stretch: the hash that is stored carries the hashes given so far. -/
theorem reorgs_eq {watch : TipWatch} {height : Nat} {stretch : List Call}
    (h : watch.Keeps height stretch) :
    watch.reorgs height stretch =
        (changes ((watch.stored height).toList ++ stretch.filterMap (Call.hash? height))).map
          Prod.fst ∧
      (watch.run stretch).stored height =
        ((watch.stored height).toList ++ stretch.filterMap (Call.hash? height)).getLast? := by
  induction stretch generalizing watch with
  | nil =>
    constructor
    · cases watch.stored height <;> rfl
    · cases hstored : watch.stored height with
      | none => exact hstored
      | some hash => exact hstored
  | cons c stretch ih =>
    obtain ⟨hreorgs, hstored⟩ := ih h.2
    have hcons : (c :: stretch).filterMap (Call.hash? height) =
        (c.hash? height).toList ++ stretch.filterMap (Call.hash? height) := by
      rw [List.filterMap_cons]
      cases c.hash? height <;> rfl
    rw [hcons]
    rw [stored_call h.1] at hreorgs hstored
    constructor
    · rw [reorgs, hreorgs, reorg?_eq, changes_step]
    · refine hstored.trans ?_
      cases c.hash? height with
      | none => rfl
      | some new => cases watch.stored height <;> simp

end TipWatch

/-- Reorgs are flagged once per replacement. While a height stays in the memory, the reorgs
reported for it are the changes in the sequence of the valid hashes given for it, from the one
that was stored; each names the hash that was replaced, and the last valid hash is what is
stored in the end. A hash that is undisclosed, blank or oversized neither reports a reorg nor
erases what is known. -/
theorem reorg_flagged_once_per_replacement (calls : List Call) (height : UInt64) :
    (∀ stretch : List Call, (({} : TipWatch).run calls).Keeps height.toNat stretch →
      (({} : TipWatch).run calls).reorgs height.toNat stretch =
        (changes (((({} : TipWatch).run calls).stored height.toNat).toList ++
          stretch.filterMap (Call.hash? height.toNat))).map Prod.fst ∧
      ((({} : TipWatch).run calls).run stretch).stored height.toNat =
        (((({} : TipWatch).run calls).stored height.toNat).toList ++
          stretch.filterMap (Call.hash? height.toNat)).getLast?) ∧
    ∀ c : Call, c.hash? height.toNat = none →
      (({} : TipWatch).run calls).reorg? height.toNat c = none ∧
      (height.toNat ∈ ((({} : TipWatch).run calls).call c).reported →
        ((({} : TipWatch).run calls).call c).stored height.toNat =
          (({} : TipWatch).run calls).stored height.toNat) := by
  refine ⟨fun stretch h => reorgs_eq h, fun c hc => ⟨?_, fun h => ?_⟩⟩
  · rw [reorg?_eq, hc]
    cases (({} : TipWatch).run calls).stored height.toNat <;> rfl
  · rw [stored_call h, hc, Option.none_or]

/-- A hash is learned late, given again, replaced, not disclosed and replaced back. -/
example : ({} : TipWatch).reorgs 7 [.recordReported 7 none, .observeFetched 7 (some "a"),
    .recordReported 7 (some " a "), .observeFetched 7 (some "b"), .recordReported 7 (some " "),
    .recordReported 7 (some "a")] = ["a", "b"] := by
  decide +kernel

end XusMiner.BlockFlow
