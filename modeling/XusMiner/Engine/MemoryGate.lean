import XusMiner.Engine.Config

namespace XusMiner.Engine

/-- `gib_to_bytes(RANDOMX_DATASET_GIB)`, `mib_to_bytes(RANDOMX_LIGHT_CACHE_MIB)` and the other
figures in bytes. -/
def randomxDatasetBytes : UInt64 := 2469606196
def randomxLightCacheBytes : UInt64 := 268435456
def randomxWorkerBytes : UInt64 := 33554432
def minMemoryHeadroomBytes : UInt64 := 1610612736
def maxMemoryHeadroomBytes : UInt64 := 4294967296

def saturatingAdd (a b : UInt64) : UInt64 :=
  if a.toNat + b.toNat < 2 ^ 64 then a + b else 0xffffffffffffffff

def saturatingMul (a b : UInt64) : UInt64 :=
  if a.toNat * b.toNat < 2 ^ 64 then a * b else 0xffffffffffffffff

def saturatingSub (a b : UInt64) : UInt64 := if b ≤ a then a - b else 0

theorem saturatingAdd_eq {a b : UInt64} (h : a.toNat + b.toNat < 2 ^ 64) :
    saturatingAdd a b = a + b := if_pos h

theorem saturatingMul_eq {a b : UInt64} (h : a.toNat * b.toNat < 2 ^ 64) :
    saturatingMul a b = a * b := if_pos h

theorem saturatingSub_toNat (a b : UInt64) :
    (saturatingSub a b).toNat = a.toNat - b.toNat := by
  unfold saturatingSub
  by_cases h : b ≤ a
  · rw [if_pos h, UInt64.toNat_sub_of_le a b h]
  · have := UInt64.le_iff_toNat_le.not.1 h
    rw [if_neg h, UInt64.toNat_zero]
    omega

def randomxMemoryBytesFor (workers : UInt64) (forceLight : Bool) : UInt64 :=
  saturatingAdd (if forceLight then randomxLightCacheBytes else randomxDatasetBytes)
    (saturatingMul randomxWorkerBytes workers)

def memoryHeadroomBytes (total : UInt64) : UInt64 :=
  max minMemoryHeadroomBytes (min (total / 10) maxMemoryHeadroomBytes)

def randomxMemoryBytes (workers : UInt64) : UInt64 := randomxMemoryBytesFor workers false

def sharedBytes (forceLight : Bool) : UInt64 :=
  if forceLight then randomxLightCacheBytes else randomxDatasetBytes

theorem sharedBytes_le (forceLight : Bool) : (sharedBytes forceLight).toNat ≤ 2469606196 := by
  cases forceLight <;> decide

/-- Up to 64 workers nothing saturates. -/
theorem randomxMemoryBytesFor_toNat {workers : UInt64} (h : workers ≤ 64) (forceLight : Bool) :
    (randomxMemoryBytesFor workers forceLight).toNat =
      (sharedBytes forceLight).toNat + randomxWorkerBytes.toNat * workers.toNat := by
  have hworkers : workers.toNat ≤ 64 := UInt64.le_iff_toNat_le.1 h
  have hshared := sharedBytes_le forceLight
  have heach : randomxWorkerBytes.toNat * workers.toNat ≤ 33554432 * 64 :=
    Nat.mul_le_mul_left 33554432 hworkers
  have hmul : randomxWorkerBytes.toNat * workers.toNat < 2 ^ 64 := by omega
  have hmul' : (randomxWorkerBytes * workers).toNat = randomxWorkerBytes.toNat * workers.toNat := by
    rw [UInt64.toNat_mul, Nat.mod_eq_of_lt hmul]
  have hadd : (sharedBytes forceLight).toNat + (randomxWorkerBytes * workers).toNat < 2 ^ 64 := by
    omega
  change (saturatingAdd (sharedBytes forceLight)
    (saturatingMul randomxWorkerBytes workers)).toNat = _
  rw [saturatingMul_eq hmul, saturatingAdd_eq hadd, UInt64.toNat_add, Nat.mod_eq_of_lt hadd, hmul']

theorem memoryHeadroomBytes_le (total : UInt64) :
    (memoryHeadroomBytes total).toNat ≤ maxMemoryHeadroomBytes.toNat := by
  have hmin : minMemoryHeadroomBytes.toNat ≤ maxMemoryHeadroomBytes.toNat := by decide
  rw [memoryHeadroomBytes, UInt64.toNat_max, UInt64.toNat_min]
  omega

structure HeadlessMemoryPreflight where
  available : Option UInt64
  total : Option UInt64
  engine : UInt64
  reserve : UInt64

def profileName (forceLight : Bool) : String :=
  if forceLight then "portable light-memory RandomX" else "shared full-dataset RandomX"

variable (gib : UInt64 → String)

def validateHeadlessMemory (workers : UInt64) (forceLight : Bool) (available total : UInt64) :
    Except String HeadlessMemoryPreflight :=
  if total = 0 ∨ total < available then
    .error "operating-system RAM scan returned unavailable or inconsistent readings; refusing to start headless RandomX workers"
  else
    let engine := randomxMemoryBytesFor workers forceLight
    let reserve := memoryHeadroomBytes total
    if available < saturatingAdd engine reserve then
      .error ("the " ++ profileName forceLight ++ " engine for " ++ Strings.decimal workers.toNat ++
        " worker" ++ (if workers = 1 then "" else "s") ++ " may need ≈" ++ gib engine ++
        " GiB plus " ++ gib reserve ++ " GiB of system headroom, but only " ++ gib available ++
        " GiB is available; refusing to start")
    else .ok { available := some available, total := some total, engine, reserve }

def resolveHeadlessMemory (workers : UInt64) (forceLight : Bool) (available total : UInt64)
    (unavailableScanConfirmed : Bool) : Except String HeadlessMemoryPreflight :=
  if 0 < total ∧ available ≤ total then
    validateHeadlessMemory gib workers forceLight available total
  else if !unavailableScanConfirmed then
    .error "operating-system RAM scan is unavailable; refusing to initialize RandomX without explicit memory confirmation"
  else
    .ok { available := none, total := none, engine := randomxMemoryBytesFor workers forceLight,
          reserve := minMemoryHeadroomBytes }

structure RandomxMemoryGate where
  workers : UInt64
  forceLight : Bool
  unavailableScanConfirmed : Bool
  approved : Option HeadlessMemoryPreflight := none

/-- `scan` is what `query_memory_counters` returned. -/
def RandomxMemoryGate.ensureSafe (gate : RandomxMemoryGate) (algo : PowAlgo)
    (scan : Except String (UInt64 × UInt64)) : Except String RandomxMemoryGate :=
  if algo ≠ .randomX ∨ gate.approved.isSome then .ok gate
  else
    let (available, total) := match scan with
      | .ok counters => counters
      | .error _ => (0, 0)
    (resolveHeadlessMemory gib gate.workers gate.forceLight available total
      gate.unavailableScanConfirmed).map fun preflight => { gate with approved := some preflight }

end XusMiner.Engine
