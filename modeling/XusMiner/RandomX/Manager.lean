import XusMiner.RandomX.Native

namespace XusMiner.RandomX
open ByteCodec

/-- Fifteen seconds, in the nanoseconds of `Instant`. -/
def fastRetryDelay : Nat := 15 * 10 ^ 9

inductive SharedDatasetOutcome
  | ready (dataset : Dataset)
  | releasing (previousKey : Bytes) (previous : Dataset) (retryAt : Nat)
  | unavailable (reason : String) (retryAt : Nat)
  deriving DecidableEq

structure SharedDatasetState where
  key : Bytes
  outcome : SharedDatasetOutcome
  deriving DecidableEq

structure SharedLightCacheState where
  key : Bytes
  flags : UInt32
  cache : Cache
  deriving DecidableEq

inductive ReleasingAction
  | promotePrevious
  | waitForRelease
  | dropPreviousAndBuild
  | retarget
  deriving DecidableEq

def releasingAction (managedKey previousKey requestedKey : Bytes)
    (retryPending workersStillOwnPrevious : Bool) : ReleasingAction :=
  if previousKey = requestedKey then .promotePrevious
  else if managedKey ≠ requestedKey then .retarget
  else if retryPending || workersStillOwnPrevious then .waitForRelease
  else .dropPreviousAndBuild

def seedChanged : String :=
  "RandomX seed changed; releasing the previous shared dataset before rebuilding"

def waitingForRelease : String :=
  "RandomX seed changed; waiting for every worker to release the previous shared dataset"

/-- How the locked section of `shared_fast_dataset` ends, short of an allocation. -/
inductive Lookup
  | granted (dataset : Dataset)
  | refused (reason : String)
  | build
  deriving DecidableEq

/-- `shared_fast_dataset` up to its call of `build_fast_dataset`. The second component is what
the mutex guards afterwards; `state.take()` leaves it empty for the time of a build. -/
def sharedFastDataset (state : Option SharedDatasetState) (key : Bytes) (now : Nat)
    (strongCount : Dataset → Nat) : Lookup × Option SharedDatasetState :=
  match state with
  | none => (.build, none)
  | some ⟨managedKey, .ready dataset⟩ =>
    -- another key: nothing is built as long as some worker holds the old dataset
    if managedKey = key then (.granted dataset, some ⟨managedKey, .ready dataset⟩)
    else (.refused seedChanged, some ⟨key, .releasing managedKey dataset (now + fastRetryDelay)⟩)
  | some ⟨managedKey, .unavailable reason retryAt⟩ =>
    if managedKey = key ∧ now < retryAt then
      (.refused reason, some ⟨managedKey, .unavailable reason retryAt⟩)
    else (.build, none)
  | some ⟨managedKey, .releasing previousKey previous retryAt⟩ =>
    match releasingAction managedKey previousKey key (now < retryAt) (strongCount previous > 1) with
    | .promotePrevious => (.granted previous, some ⟨previousKey, .ready previous⟩)
    | .waitForRelease =>
      (.refused waitingForRelease, some ⟨managedKey, .releasing previousKey previous
        (if now < retryAt then retryAt else now + fastRetryDelay)⟩)
    | .dropPreviousAndBuild => (.build, none)
    | .retarget =>
      (.refused seedChanged,
        some ⟨key, .releasing previousKey previous (now + fastRetryDelay)⟩)

/-- The error text `build_fast_dataset` wraps around a failed `Dataset::new`. -/
def buildFailed (error : String) : String :=
  "optimized dataset initialization failed (" ++ error ++ ")"

/-- The end of `shared_fast_dataset`, once `build_fast_dataset` has returned. -/
def publishFastDataset (key : Bytes) (now : Nat) : Except String Dataset → SharedDatasetState
  | .ok dataset => ⟨key, .ready dataset⟩
  | .error reason => ⟨key, .unavailable reason (now + fastRetryDelay)⟩

def releaseFastDatasetIfUnused (state : Option SharedDatasetState) (key : Bytes)
    (failure : String) (now : Nat) (strongCount : Dataset → Nat) : Option SharedDatasetState :=
  match state with
  | some ⟨managedKey, .ready dataset⟩ =>
    -- the manager is the last owner
    if managedKey = key ∧ strongCount dataset = 1 then
      some ⟨key, .unavailable
        ("released unused full dataset after every fast VM allocation failed: " ++ failure)
        (now + fastRetryDelay)⟩
    else state
  | _ => state

def buildLightCache (native : Native) (forceLight : Bool) (key : Bytes)
    (optimizedAllocated portableAllocated : Bool) : Except String (UInt32 × Cache) :=
  match Cache.new key optimizedAllocated with
  | .ok cache => .ok (recommendedFlags native forceLight, cache)
  | .error optimizedError =>
    match Cache.new key portableAllocated with
    | .ok cache => .ok (flagDefault, cache)
    | .error portableError => .error ("optimized light cache allocation failed (" ++
        optimizedError ++ "); portable light cache allocation also failed (" ++
        portableError ++ ")")

/-- `shared_light_cache` after it has dropped the previous key's cache. -/
def replaceLightCache (native : Native) (forceLight : Bool) (key : Bytes)
    (optimizedAllocated portableAllocated : Bool) :
    Except String (UInt32 × Cache) × Option SharedLightCacheState :=
  match buildLightCache native forceLight key optimizedAllocated portableAllocated with
  | .ok (flags, cache) => (.ok (flags, cache), some ⟨key, flags, cache⟩)
  | .error error => (.error error, none)

def sharedLightCache (native : Native) (forceLight : Bool) (state : Option SharedLightCacheState)
    (key : Bytes) (optimizedAllocated portableAllocated : Bool) :
    Except String (UInt32 × Cache) × Option SharedLightCacheState :=
  match state with
  | some existing =>
    if existing.key = key then (.ok (existing.flags, existing.cache), some existing)
    else replaceLightCache native forceLight key optimizedAllocated portableAllocated
  | none => replaceLightCache native forceLight key optimizedAllocated portableAllocated

/-- The dataset the manager holds an `Arc` of. -/
def SharedDatasetState.dataset (state : SharedDatasetState) : Option Dataset :=
  match state.outcome with
  | .ready dataset => some dataset
  | .releasing _ previous _ => some previous
  | .unavailable _ _ => none

/-- The keys the manager files its dataset under are the keys it was built from. -/
def SharedDatasetState.WellKeyed (state : SharedDatasetState) : Prop :=
  match state.outcome with
  | .ready dataset => dataset.builtFrom = state.key
  | .releasing previousKey previous _ => previous.builtFrom = previousKey
  | .unavailable _ _ => True

def held (state : Option SharedDatasetState) : Option Dataset := state.bind (·.dataset)

def WellKeyed (state : Option SharedDatasetState) : Prop := ∀ m ∈ state, m.WellKeyed

@[simp] theorem held_none : held none = none := rfl

@[simp] theorem held_some (m : SharedDatasetState) : held (some m) = m.dataset := rfl

@[simp] theorem wellKeyed_none : WellKeyed none := by
  intro m hm
  cases hm

@[simp] theorem wellKeyed_some (m : SharedDatasetState) : WellKeyed (some m) ↔ m.WellKeyed := by
  simp [WellKeyed]

theorem releasingAction_promote {m p r : Bytes} {a b : Bool}
    (h : releasingAction m p r a b = .promotePrevious) : p = r := by
  unfold releasingAction at h
  split_ifs at h
  assumption

theorem releasingAction_build {m p r : Bytes} {a b : Bool}
    (h : releasingAction m p r a b = .dropPreviousAndBuild) : b = false := by
  unfold releasingAction at h
  split_ifs at h with _ _ hab
  simp only [Bool.or_eq_true, not_or] at hab
  simpa using hab.2

/-- What the locked section can do: hand out the dataset it holds, built from the requested
key; refuse and go on holding it; or let go of it, which it only does when it is the last owner. -/
theorem sharedFastDataset_spec {state state' : Option SharedDatasetState} {key : Bytes}
    {now : Nat} {count : Dataset → Nat} {result : Lookup}
    (h : sharedFastDataset state key now count = (result, state')) (hk : WellKeyed state) :
    WellKeyed state' ∧
    ((∃ d, result = .granted d ∧ d.builtFrom = key ∧ held state = some d ∧ held state' = some d) ∨
     (∃ reason, result = .refused reason ∧ held state' = held state) ∨
     (result = .build ∧ state' = none ∧ ∀ d, held state = some d → count d ≤ 1)) := by
  unfold sharedFastDataset at h
  split at h
  · cases h
    exact ⟨by simp, .inr (.inr ⟨rfl, rfl, by simp⟩)⟩
  · split_ifs at h with hkey <;> cases h
    · subst hkey
      exact ⟨hk, .inl ⟨_, rfl, (wellKeyed_some _).1 hk, rfl, rfl⟩⟩
    · refine ⟨?_, .inr (.inl ⟨_, rfl, rfl⟩)⟩
      simpa [SharedDatasetState.WellKeyed] using hk
  · split_ifs at h with hwait <;> cases h
    · exact ⟨hk, .inr (.inl ⟨_, rfl, rfl⟩)⟩
    · exact ⟨by simp, .inr (.inr ⟨rfl, rfl, by simp [SharedDatasetState.dataset]⟩)⟩
  · have hprevious := (wellKeyed_some _).1 hk
    split at h <;> rename_i haction <;> cases h
    · have hkey := releasingAction_promote haction
      subst hkey
      exact ⟨by simpa [SharedDatasetState.WellKeyed] using hprevious,
        .inl ⟨_, rfl, hprevious, rfl, rfl⟩⟩
    · exact ⟨by simpa [SharedDatasetState.WellKeyed] using hprevious,
        .inr (.inl ⟨_, rfl, rfl⟩)⟩
    · refine ⟨by simp, .inr (.inr ⟨rfl, rfl, ?_⟩)⟩
      intro d hd
      cases hd
      simpa using releasingAction_build haction
    · exact ⟨by simpa [SharedDatasetState.WellKeyed] using hprevious,
        .inr (.inl ⟨_, rfl, rfl⟩)⟩

theorem publishFastDataset_spec {key : Bytes} (now : Nat) {built : Except String Dataset}
    (hbuilt : ∀ d, built = .ok d → d.builtFrom = key) :
    (publishFastDataset key now built).WellKeyed ∧
      (publishFastDataset key now built).dataset = built.toOption := by
  cases built with
  | ok dataset => exact ⟨hbuilt dataset rfl, rfl⟩
  | error reason => exact ⟨trivial, rfl⟩

/-- The release either changes nothing or drops a dataset nobody else owns. -/
theorem releaseFastDatasetIfUnused_spec (state : Option SharedDatasetState) (key : Bytes)
    (failure : String) (now : Nat) (count : Dataset → Nat) (hk : WellKeyed state) :
    WellKeyed (releaseFastDatasetIfUnused state key failure now count) ∧
    (held (releaseFastDatasetIfUnused state key failure now count) = held state ∨
     (held (releaseFastDatasetIfUnused state key failure now count) = none ∧
       ∀ d, held state = some d → count d = 1)) := by
  unfold releaseFastDatasetIfUnused
  split
  · split_ifs with hunused
    · refine ⟨by simp [SharedDatasetState.WellKeyed], .inr ⟨rfl, ?_⟩⟩
      intro d hd
      cases hd
      exact hunused.2
    · exact ⟨hk, .inl rfl⟩
  · exact ⟨hk, .inl rfl⟩

theorem buildLightCache_eq_ok {native : Native} {forceLight : Bool} {key : Bytes} {a b : Bool}
    {flags : UInt32} {cache : Cache}
    (h : buildLightCache native forceLight key a b = .ok (flags, cache)) :
    cache.builtFrom = key := by
  unfold buildLightCache at h
  split at h
  · rename_i hcache
    cases h
    exact Cache.new_eq_ok hcache
  · split at h
    · rename_i hcache
      cases h
      exact Cache.new_eq_ok hcache
    · cases h

def LightKeyed (state : Option SharedLightCacheState) : Prop :=
  ∀ m ∈ state, m.cache.builtFrom = m.key

theorem replaceLightCache_spec {native : Native} {forceLight : Bool}
    {state' : Option SharedLightCacheState} {key : Bytes} {a b : Bool}
    {result : Except String (UInt32 × Cache)}
    (h : replaceLightCache native forceLight key a b = (result, state')) :
    LightKeyed state' ∧ ∀ flags cache, result = .ok (flags, cache) → cache.builtFrom = key := by
  unfold replaceLightCache at h
  split at h
  · rename_i hcache
    have hkey := buildLightCache_eq_ok hcache
    cases h
    refine ⟨by simpa [LightKeyed] using hkey, ?_⟩
    rintro _ _ ⟨⟩
    exact hkey
  · cases h
    exact ⟨by simp [LightKeyed], by rintro _ _ ⟨⟩⟩

theorem sharedLightCache_spec {native : Native} {forceLight : Bool}
    {state state' : Option SharedLightCacheState} {key : Bytes} {a b : Bool}
    {result : Except String (UInt32 × Cache)}
    (h : sharedLightCache native forceLight state key a b = (result, state'))
    (hk : LightKeyed state) :
    LightKeyed state' ∧ ∀ flags cache, result = .ok (flags, cache) → cache.builtFrom = key := by
  unfold sharedLightCache at h
  split at h
  · split_ifs at h with hkey
    · cases h
      refine ⟨hk, ?_⟩
      rintro _ _ ⟨⟩
      exact (hk _ rfl).trans hkey
    · exact replaceLightCache_spec h
  · exact replaceLightCache_spec h

end XusMiner.RandomX
