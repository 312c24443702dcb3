import XusMiner.Gui.Launch

namespace XusMiner.Gui
open Engine

/-! ## The scan as the window reads it -/

def memorySnapshotFromReadings (available total : UInt64) : Option MemorySnapshot :=
  if 0 < total ∧ available ≤ total then some { available, total } else none

/-- `1..=64`. -/
def workerCounts : List UInt64 := (List.range' 1 64).map UInt64.ofNat

def recommendedWorkerLimit (snapshot : MemorySnapshot) : UInt64 :=
  let usable := saturatingSub snapshot.available (memoryHeadroomBytes snapshot.total)
  (workerCounts.reverse.find? fun workers => randomxMemoryBytes workers ≤ usable).getD 0

variable (gib : UInt64 → String)

def formatMemory (bytes : UInt64) : String := gib bytes ++ " GiB"

namespace Launcher

def memoryPreflightError (platform : Platform) (app : Launcher) : Option String :=
  let workers := app.effectiveEngineWorkers platform
  let randomxEstimate := randomxMemoryBytesFor workers app.lightRandomxRecovery
  let plural := if workers = 1 then "" else "s"
  match app.memorySnapshot with
  | some snapshot =>
    if snapshot.available < randomxEstimate + memoryHeadroomBytes snapshot.total then
      some ("Start blocked: RandomX may need about " ++ formatMemory gib randomxEstimate ++
        " total (" ++ (if app.lightRandomxRecovery then "portable 256 MiB light cache"
          else "one shared 2.3 GiB dataset") ++ " + 32 MiB per worker), plus " ++
        formatMemory gib (memoryHeadroomBytes snapshot.total) ++
        " of system headroom, but the live scan reports only " ++
        formatMemory gib snapshot.available ++ " available for " ++
        Strings.decimal workers.toNat ++ " worker" ++ plural ++ ".")
    else none
  | none =>
    if !app.memoryAcknowledged then
      some ("The operating-system memory scan is unavailable. Confirm at least " ++
        gib (randomxEstimate + minMemoryHeadroomBytes) ++ " GiB is available before starting " ++
        Strings.decimal workers.toNat ++ " RandomX worker" ++ plural ++ " (" ++
        (if app.lightRandomxRecovery then "portable light cache; no full dataset"
          else "one shared dataset, not one dataset per worker") ++ ").")
    else none

/-- The window asks for another number of workers on the full dataset. -/
def offering (app : Launcher) (workers : UInt64) : Launcher :=
  { app with
    settings := { app.settings with workers }
    singleWorkerRecovery := false
    lightRandomxRecovery := false }

end Launcher

/-! ## What a scan leaves room for -/

theorem mem_workerCounts {n : UInt64} : n ∈ workerCounts ↔ 1 ≤ n ∧ n ≤ 64 := by
  have hle : ∀ {a b : UInt64}, a ≤ b ↔ a.toNat ≤ b.toNat := UInt64.le_iff_toNat_le
  simp only [workerCounts, List.mem_map, List.mem_range'_1]
  constructor
  · rintro ⟨k, ⟨hlow, hhigh⟩, rfl⟩
    have hk : (UInt64.ofNat k).toNat = k := by
      rw [UInt64.toNat_ofNat', Nat.mod_eq_of_lt (by omega)]
    rw [hle, hle, hk]
    exact ⟨hlow, show k ≤ 64 by omega⟩
  · rintro ⟨hlow, hhigh⟩
    exact ⟨n.toNat, ⟨hle.1 hlow, Nat.lt_succ_of_le (hle.1 hhigh)⟩, UInt64.ofNat_toNat⟩

theorem workerCounts_pairwise : workerCounts.Pairwise fun a b => a.toNat < b.toNat := by
  decide

/-- The greatest count on offer that passes, or 0 where none does. -/
def GreatestPassing (passes : UInt64 → Prop) (limit : UInt64) : Prop :=
  (limit = 0 ∧ ∀ n, 1 ≤ n → n ≤ 64 → ¬passes n) ∨
    (1 ≤ limit ∧ limit ≤ 64 ∧ passes limit ∧ ∀ n, 1 ≤ n → n ≤ 64 → passes n → n ≤ limit)

theorem GreatestPassing.congr {p q : UInt64 → Prop} {limit : UInt64} (h : GreatestPassing p limit)
    (hpq : ∀ n, n ≤ 64 → (q n ↔ p n)) : GreatestPassing q limit := by
  rcases h with ⟨hlimit, hnone⟩ | ⟨hlow, hhigh, hpass, hgreatest⟩
  · exact .inl ⟨hlimit, fun n hn hn' hq => hnone n hn hn' ((hpq n hn').1 hq)⟩
  · exact .inr ⟨hlow, hhigh, (hpq limit hhigh).2 hpass,
      fun n hn hn' hq => hgreatest n hn hn' ((hpq n hn').1 hq)⟩

/-- Searched from the top, the first count that passes is the greatest. -/
theorem greatestPassing_find (p : UInt64 → Bool) :
    GreatestPassing (fun n => p n = true) ((workerCounts.reverse.find? p).getD 0) := by
  cases hfind : workerCounts.reverse.find? p with
  | none =>
    rw [List.find?_eq_none] at hfind
    refine .inl ⟨rfl, fun n hlow hhigh => ?_⟩
    exact hfind n (List.mem_reverse.2 (mem_workerCounts.2 ⟨hlow, hhigh⟩))
  | some limit =>
    obtain ⟨hp, above, below, hsplit, habove⟩ := List.find?_eq_some_iff_append.1 hfind
    have hlimit : limit ∈ workerCounts := by
      rw [← List.mem_reverse, hsplit]
      simp
    obtain ⟨hlow, hhigh⟩ := mem_workerCounts.1 hlimit
    refine .inr ⟨hlow, hhigh, hp, fun n hn hn' hpn => ?_⟩
    have hmem : n ∈ above ++ limit :: below := by
      rw [← hsplit, List.mem_reverse]
      exact mem_workerCounts.2 ⟨hn, hn'⟩
    have hsorted : (above ++ limit :: below).Pairwise fun a b => b.toNat < a.toNat := by
      rw [← hsplit, List.pairwise_reverse]
      exact workerCounts_pairwise
    rw [List.pairwise_append, List.pairwise_cons] at hsorted
    rcases List.mem_append.1 hmem with hin | hin
    · have hnot := habove n hin
      rw [hpn] at hnot
      cases hnot
    · rcases List.mem_cons.1 hin with rfl | hin
      · exact UInt64.le_refl n
      · exact UInt64.le_iff_toNat_le.2 (hsorted.2.1.1 n hin).le

/-- The estimate and the reserve fit into what is available, with nothing wrapped or saturated. -/
def Fits (workers : UInt64) (forceLight : Bool) (available total : UInt64) : Prop :=
  (randomxMemoryBytesFor workers forceLight).toNat + (memoryHeadroomBytes total).toNat ≤
    available.toNat

/-- The largest sum any gate forms. -/
theorem required_lt {workers : UInt64} (h : workers ≤ 64) (forceLight : Bool) (total : UInt64) :
    (randomxMemoryBytesFor workers forceLight).toNat + (memoryHeadroomBytes total).toNat <
      2 ^ 64 := by
  rw [randomxMemoryBytesFor_toNat h]
  have hworkers : randomxWorkerBytes.toNat * workers.toNat ≤ 33554432 * 64 :=
    Nat.mul_le_mul_left 33554432 (UInt64.le_iff_toNat_le.1 h)
  have hshared := sharedBytes_le forceLight
  have hreserve : _ ≤ 4294967296 := memoryHeadroomBytes_le total
  omega

theorem lt_required_iff {workers : UInt64} (h : workers ≤ 64) {forceLight : Bool}
    {available total : UInt64} :
    available < randomxMemoryBytesFor workers forceLight + memoryHeadroomBytes total ↔
      ¬Fits workers forceLight available total := by
  have hsum := required_lt h forceLight total
  rw [UInt64.lt_iff_toNat_lt, UInt64.toNat_add, Nat.mod_eq_of_lt hsum, Fits, not_le]

variable {gib}

theorem validateHeadlessMemory_ok_iff {workers : UInt64} (h : workers ≤ 64) {forceLight : Bool}
    {available total : UInt64} (hscan : 0 < total ∧ available ≤ total) :
    (∃ preflight, validateHeadlessMemory gib workers forceLight available total = .ok preflight) ↔
      Fits workers forceLight available total := by
  have hsum := required_lt h forceLight total
  have hvalid : ¬(total = 0 ∨ total < available) := by
    rw [not_or, UInt64.not_lt]
    exact ⟨(UInt64.ne_of_lt hscan.1).symm, hscan.2⟩
  simp only [validateHeadlessMemory, if_neg hvalid, saturatingAdd_eq hsum]
  by_cases hfits : Fits workers forceLight available total
  · rw [if_neg ((lt_required_iff h).not.2 (not_not_intro hfits))]
    exact iff_of_true ⟨_, rfl⟩ hfits
  · rw [if_pos ((lt_required_iff h).2 hfits)]
    exact iff_of_false nofun hfits

/-- The engine goes by the scan where there is one, else by the confirmation. -/
theorem resolveHeadlessMemory_ok_iff {workers : UInt64} (h : workers ≤ 64) {forceLight : Bool}
    {available total : UInt64} {confirmed : Bool} :
    (∃ preflight, resolveHeadlessMemory gib workers forceLight available total confirmed =
      .ok preflight) ↔
        if 0 < total ∧ available ≤ total then Fits workers forceLight available total
        else confirmed = true := by
  by_cases hscan : 0 < total ∧ available ≤ total
  · simp only [resolveHeadlessMemory, if_pos hscan, validateHeadlessMemory_ok_iff h hscan]
  · cases confirmed with
    | false => simp [resolveHeadlessMemory, hscan]
    | true => simp [resolveHeadlessMemory, hscan]

namespace Launcher
variable {platform : Platform} {app : Launcher}

/-- And so does the window. -/
theorem memoryPreflightError_eq_none (h : app.effectiveEngineWorkers platform ≤ 64) :
    app.memoryPreflightError gib platform = none ↔
      match app.memorySnapshot with
      | some snapshot => Fits (app.effectiveEngineWorkers platform) app.lightRandomxRecovery
          snapshot.available snapshot.total
      | none => app.memoryAcknowledged = true := by
  cases hsnapshot : app.memorySnapshot with
  | some snapshot =>
    simp only [memoryPreflightError, hsnapshot]
    split_ifs with hshort
    · exact iff_of_false nofun ((lt_required_iff h).1 hshort)
    · exact iff_of_true rfl (not_not.1 ((lt_required_iff h).not.1 hshort))
  | none =>
    cases hack : app.memoryAcknowledged with
    | false => simp [memoryPreflightError, hsnapshot, hack]
    | true => simp [memoryPreflightError, hsnapshot, hack]

theorem passes_iff {available total : UInt64}
    (hscan : app.memorySnapshot = memorySnapshotFromReadings available total)
    (hworkers : app.effectiveEngineWorkers platform ≤ 64) :
    app.memoryPreflightError gib platform = none ↔
      ∃ preflight, resolveHeadlessMemory gib (app.effectiveEngineWorkers platform)
        app.lightRandomxRecovery available total app.memoryConfirmed = .ok preflight := by
  rw [memoryPreflightError_eq_none hworkers, resolveHeadlessMemory_ok_iff hworkers, hscan,
    memorySnapshotFromReadings]
  by_cases hvalid : 0 < total ∧ available ≤ total
  · simp only [if_pos hvalid]
  · simp [memoryConfirmed, hscan, memorySnapshotFromReadings, hvalid]

theorem effectiveEngineWorkers_offering (n : UInt64) :
    (app.offering n).effectiveEngineWorkers platform = n :=
  if_neg (by rintro ⟨-, hrecovery⟩; cases hrecovery)

/-- What is left beside the reserve holds the estimate. -/
theorem memoryPreflightError_offering {snapshot : MemorySnapshot}
    (hsnapshot : app.memorySnapshot = some snapshot) {n : UInt64} (h : n ≤ 64) :
    (app.offering n).memoryPreflightError gib platform = none ↔
      randomxMemoryBytes n ≤
        saturatingSub snapshot.available (memoryHeadroomBytes snapshot.total) := by
  have hworkers : (app.offering n).effectiveEngineWorkers platform = n :=
    effectiveEngineWorkers_offering n
  have hoffered : (app.offering n).memorySnapshot = some snapshot := hsnapshot
  rw [memoryPreflightError_eq_none (by rwa [hworkers]), hoffered, hworkers,
    UInt64.le_iff_toNat_le, saturatingSub_toNat]
  have hpos : 0 < (randomxMemoryBytesFor n false).toNat := by
    rw [randomxMemoryBytesFor_toNat h]
    exact Nat.add_pos_left (by decide) _
  change (randomxMemoryBytesFor n false).toNat + _ ≤ _ ↔ (randomxMemoryBytesFor n false).toNat ≤ _
  omega

/-- What the three gates have to agree on for one scan. -/
structure GatesAgree (gib : UInt64 → String) (platform : Platform) (app : Launcher)
    (available total : UInt64) : Prop where
  passes : app.memoryPreflightError gib platform = none ↔
    ∃ preflight, resolveHeadlessMemory gib (app.effectiveEngineWorkers platform)
      app.lightRandomxRecovery available total app.memoryConfirmed = .ok preflight
  refuses : 0 < total → available ≤ total →
    ¬Fits (app.effectiveEngineWorkers platform) app.lightRandomxRecovery available total →
      app.memoryPreflightError gib platform ≠ none ∧
        ∀ confirmed preflight, resolveHeadlessMemory gib (app.effectiveEngineWorkers platform)
          app.lightRandomxRecovery available total confirmed ≠ .ok preflight
  unsaturated : (randomxMemoryBytesFor (app.effectiveEngineWorkers platform)
      app.lightRandomxRecovery).toNat = (sharedBytes app.lightRandomxRecovery).toNat +
        randomxWorkerBytes.toNat * (app.effectiveEngineWorkers platform).toNat ∧
    (randomxMemoryBytesFor (app.effectiveEngineWorkers platform) app.lightRandomxRecovery).toNat +
      (memoryHeadroomBytes total).toNat < 2 ^ 64
  limit : ∀ snapshot, app.memorySnapshot = some snapshot →
    GreatestPassing (fun n => (app.offering n).memoryPreflightError gib platform = none)
      (recommendedWorkerLimit snapshot)

/-- The window refuses and lets pass what the engine refuses and lets pass. -/
theorem memory_gates_agree (gib : UInt64 → String) {available total : UInt64}
    (hscan : app.memorySnapshot = memorySnapshotFromReadings available total)
    (hworkers : app.effectiveEngineWorkers platform ≤ 64) :
    app.GatesAgree gib platform available total where
  passes := passes_iff hscan hworkers
  refuses := by
    intro htotal havailable hfits
    have hvalid : 0 < total ∧ available ≤ total := ⟨htotal, havailable⟩
    constructor
    · rw [ne_eq, memoryPreflightError_eq_none hworkers, hscan, memorySnapshotFromReadings,
        if_pos hvalid]
      exact hfits
    · intro confirmed preflight hok
      have hresolved := (resolveHeadlessMemory_ok_iff hworkers).1 ⟨preflight, hok⟩
      rw [if_pos hvalid] at hresolved
      exact hfits hresolved
  unsaturated := ⟨randomxMemoryBytesFor_toNat hworkers _, required_lt hworkers _ _⟩
  limit := by
    intro snapshot hsnapshot
    have hgreatest := greatestPassing_find fun n => randomxMemoryBytes n ≤
      saturatingSub snapshot.available (memoryHeadroomBytes snapshot.total)
    refine hgreatest.congr fun n hn => ?_
    rw [memoryPreflightError_offering hsnapshot hn, decide_eq_true_eq]

/-- The gate in front of the first RandomX job opens for a launch that passed, as long as the
scan reads the same. -/
theorem ensureSafe_ok_iff (gib : UInt64 → String) {available total : UInt64}
    (hscan : app.memorySnapshot = memorySnapshotFromReadings available total)
    (hworkers : app.effectiveEngineWorkers platform ≤ 64) {gate : RandomxMemoryGate}
    (hgate : gate = { workers := app.effectiveEngineWorkers platform,
                      forceLight := app.lightRandomxRecovery,
                      unavailableScanConfirmed := app.memoryConfirmed }) :
    (∃ gate', gate.ensureSafe gib .randomX (.ok (available, total)) = .ok gate') ↔
      app.memoryPreflightError gib platform = none := by
  have hpasses : app.memoryPreflightError gib platform = none ↔ ∃ preflight,
      resolveHeadlessMemory gib gate.workers gate.forceLight available total
        gate.unavailableScanConfirmed = .ok preflight := by
    subst hgate
    exact passes_iff hscan hworkers
  have happroved : ¬(PowAlgo.randomX ≠ .randomX ∨ gate.approved.isSome = true) := by
    subst hgate
    simp
  rw [hpasses, RandomxMemoryGate.ensureSafe, if_neg happroved]
  cases hresolved : resolveHeadlessMemory gib gate.workers gate.forceLight available total
      gate.unavailableScanConfirmed with
  | error error => simp [Except.map]
  | ok preflight => simp [Except.map]

end Launcher

/-- The engine that a window launches starts with the settings that were approved, and its own gate
opens for the first RandomX job exactly if the window lets the launch pass, as long as the scan
reads the same. -/
theorem launched_engine_gate (gib : UInt64 → String) {platform : Platform} {app : MinerApp}
    {settings : Settings} {memoryAcknowledged : Bool} {available total : UInt64}
    {launcher : Launcher} (hlauncher : launcher = app.launcher settings
      (memorySnapshotFromReadings available total) memoryAcknowledged)
    (h : launcher.Checked) (huser : Strings.trim settings.user ∉ reservedFlags) :
    CommandLine.main (launcher.headlessCommand platform) (.ok settings.password) =
        .headless (launcher.approved platform) true true launcher.memoryConfirmed ∧
      ∃ engine, CommandLine.runHeadless (launcher.approved platform) true true
          launcher.memoryConfirmed = .ok engine ∧
        engine.runner.gate.workers = app.effectiveEngineWorkers platform ∧
        ((∃ gate, engine.runner.gate.ensureSafe gib .randomX (.ok (available, total)) = .ok gate) ↔
          launcher.memoryPreflightError gib platform = none) := by
  have hvalid := Settings.valid_of_validate h.validate
  have hpool : Strings.trim launcher.settings.pool ∉ reservedFlags :=
    not_reserved_of_colon (colon_mem_of_validatePool hvalid.pool)
  have hworkers : launcher.effectiveEngineWorkers platform ≤ 64 :=
    UInt64.le_iff_toNat_le.2 (Launcher.workers_bounds hvalid).2
  subst hlauncher
  refine ⟨Launcher.main_of_not_reserved h hpool huser, _, rfl, UInt64.ofNat_toNat, ?_⟩
  refine Launcher.ensureSafe_ok_iff gib rfl hworkers ?_
  exact congrArg (fun workers => RandomxMemoryGate.mk workers _ _ none) UInt64.ofNat_toNat

/-- The launcher of a window that was not told anything but a scan. -/
def scanned (available total : UInt64) : Launcher where
  settings := { pool := "rpc://127.0.0.1:8645", user := "rig", workers := 3 }
  memorySnapshot := memorySnapshotFromReadings available total
  memoryAcknowledged := true

theorem memory_gates_agree_scanned :
    (scanned 5000000000 8000000000).GatesAgree (fun _ => "?") .unix 5000000000 8000000000 :=
  Launcher.memory_gates_agree _ rfl (by decide)

end XusMiner.Gui
