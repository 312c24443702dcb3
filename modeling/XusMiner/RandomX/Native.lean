import XusMiner.Wire

namespace XusMiner.RandomX
open ByteCodec

def flagDefault : UInt32 := 0
def flagFullMem : UInt32 := 4

/-- The native library: the flags it recommends on this host, and its hash under a key. -/
structure Native where
  getRecommendedFlags : UInt32
  calculateHash : Bytes → Bytes → Bytes32

def recommendedFlags (native : Native) (forceLight : Bool) : UInt32 :=
  if forceLight then flagDefault else native.getRecommendedFlags

/-- A cache remembers the key `randomx_init_cache` copied into it. -/
structure Cache where
  builtFrom : Bytes
  deriving DecidableEq

/-- `allocated` is what `randomx_alloc_cache` did: a pointer, or null. -/
def Cache.new (key : Bytes) (allocated : Bool) : Except String Cache :=
  if key = [] then .error "RandomX cache key cannot be empty"
  else if !allocated then .error "RandomX cache allocation failed"
  else .ok ⟨key⟩

/-- One native dataset allocation. Serial numbers tell two allocations apart. -/
structure Dataset where
  serial : Nat
  builtFrom : Bytes
  deriving DecidableEq

/-- `Dataset::new` up to the moment the `Dataset` value exists. -/
def Dataset.allocate (serial : Nat) (key : Bytes) (cacheAllocated datasetAllocated : Bool) :
    Except String Dataset := do
  let cache ← Cache.new key cacheAllocated
  if !datasetAllocated then .error "RandomX full dataset allocation failed"
  else .ok ⟨serial, cache.builtFrom⟩

/-- The rest of `Dataset::new`; an error drops the value. -/
def Dataset.initialize (dataset : Dataset) (itemCount : Nat) : Except String Dataset :=
  if itemCount = 0 then .error "RandomX reported a zero-sized dataset" else .ok dataset

inductive VmBacking
  | light (cache : Cache)
  | fast (dataset : Dataset)
  deriving DecidableEq

def VmBacking.builtFrom : VmBacking → Bytes
  | .light cache => cache.builtFrom
  | .fast dataset => dataset.builtFrom

/-- The `Arc<Dataset>` a VM retains. -/
def VmBacking.datasets : VmBacking → List Dataset
  | .light _ => []
  | .fast dataset => [dataset]

structure Vm where
  backing : VmBacking
  deriving DecidableEq

def hexFlags (flags : UInt32) : String :=
  let digits := Nat.toDigits 16 flags.toNat
  "0x" ++ String.ofList (if digits.length < 2 then '0' :: digits else digits)

def Vm.light (flags : UInt32) (cache : Cache) (created : Bool) : Except String Vm :=
  if created then .ok ⟨.light cache⟩
  else .error ("RandomX light VM creation failed for flags " ++ hexFlags (flags &&& ~~~flagFullMem))

def Vm.fast (flags : UInt32) (dataset : Dataset) (created : Bool) : Except String Vm :=
  if created then .ok ⟨.fast dataset⟩
  else .error ("RandomX fast VM creation failed for flags " ++ hexFlags (flags ||| flagFullMem))

def Vm.hash (native : Native) (vm : Vm) (input : Bytes) : Except String Bytes32 :=
  if input = [] then .error "RandomX input cannot be empty"
  else .ok (native.calculateHash vm.backing.builtFrom input)

theorem Cache.new_eq_ok {key : Bytes} {allocated : Bool} {cache : Cache}
    (h : Cache.new key allocated = .ok cache) : cache.builtFrom = key := by
  unfold Cache.new at h
  split_ifs at h
  cases h
  rfl

theorem Dataset.allocate_eq_ok {serial : Nat} {key : Bytes} {a b : Bool} {dataset : Dataset}
    (h : Dataset.allocate serial key a b = .ok dataset) : dataset.builtFrom = key := by
  unfold Dataset.allocate at h
  rcases Except.bind_eq_ok h with ⟨cache, hcache, h⟩
  split_ifs at h
  cases h
  exact Cache.new_eq_ok hcache

theorem Dataset.initialize_eq_ok {dataset dataset' : Dataset} {items : Nat}
    (h : dataset.initialize items = .ok dataset') : dataset' = dataset := by
  unfold Dataset.initialize at h
  split_ifs at h
  cases h
  rfl

theorem Vm.light_eq_ok {flags : UInt32} {cache : Cache} {created : Bool} {vm : Vm}
    (h : Vm.light flags cache created = .ok vm) : vm.backing = .light cache := by
  unfold Vm.light at h
  split_ifs at h
  cases h
  rfl

theorem Vm.fast_eq_ok {flags : UInt32} {dataset : Dataset} {created : Bool} {vm : Vm}
    (h : Vm.fast flags dataset created = .ok vm) : vm.backing = .fast dataset := by
  unfold Vm.fast at h
  split_ifs at h
  cases h
  rfl

theorem Vm.hash_eq_ok {native : Native} {vm : Vm} {input : Bytes} {digest : Bytes32}
    (h : vm.hash native input = .ok digest) :
    digest = native.calculateHash vm.backing.builtFrom input := by
  unfold Vm.hash at h
  split_ifs at h
  cases h
  rfl

end XusMiner.RandomX
