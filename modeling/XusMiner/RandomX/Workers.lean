import XusMiner.Library.Runs
import XusMiner.RandomX.Manager

namespace XusMiner.RandomX
open ByteCodec

inductive RandomXMode
  | light
  | fastShared
  | lightFallback
  | lightRecovery
  deriving DecidableEq

structure RandomXEngine where
  vm : Vm
  mode : RandomXMode
  retryFastAt : Option Nat
  deriving DecidableEq

abbrev Slot := Option (Bytes × RandomXEngine)

def engineNeedsBuild (slot : Slot) (key : Bytes) (mining : Bool) (now : Nat) : Bool :=
  match slot with
  | none => true
  | some (existingKey, engine) =>
    existingKey ≠ key ||
      (mining && engine.mode = .lightFallback && engine.retryFastAt.any (· ≤ now))

/-- The arguments of one `randomx_hash`. -/
structure Call where
  key : Bytes
  input : Bytes
  mining : Bool
  deriving DecidableEq

/-- Where a worker stands inside `randomx_hash`, with the locals it carries there. -/
inductive Point
  | sharedFastDataset
  | allocating (now : Nat)
  | initializing (now : Nat) (dataset : Dataset)
  | fastVm (dataset : Dataset)
  | portableFastVm (dataset : Dataset) (optimizedError : String)
  | releaseUnused (fastError : String)
  | sharedLightCache (mode : RandomXMode) (fastError : Option String)
  | lightVm (mode : RandomXMode) (flags : UInt32) (cache : Cache) (fastError : Option String)
  | portableLightVm (mode : RandomXMode) (cache : Cache) (optimizedError : String)
      (fastError : Option String)
  | hashing

/-- The owners of an `Arc<Dataset>` among the locals: the first VM attempt clones its own. -/
def Point.handles : Point → List Dataset
  | .fastVm dataset => [dataset, dataset]
  | .portableFastVm dataset _ => [dataset]
  | _ => []

/-- The `Dataset` value that exists inside `Dataset::new`. -/
def Point.underConstruction : Point → List Dataset
  | .initializing _ dataset => [dataset]
  | _ => []

/-- The manager's mutex is held from the lookup to the publication of a build. -/
def Point.holdsLock : Point → Bool
  | .allocating _ | .initializing _ _ => true
  | _ => false

/-- A worker thread, with its two thread-local slots. -/
structure Worker where
  running : Option (Call × Point) := none
  lightSlot : Slot := none
  miningSlot : Slot := none

def Worker.slot (wk : Worker) (mining : Bool) : Slot :=
  if mining then wk.miningSlot else wk.lightSlot

def Worker.setSlot (wk : Worker) (mining : Bool) (slot : Slot) : Worker :=
  if mining then { wk with miningSlot := slot } else { wk with lightSlot := slot }

def slotHandles : Slot → List Dataset
  | none => []
  | some (_, engine) => engine.vm.backing.datasets

def Worker.locals (wk : Worker) : List Dataset :=
  match wk.running with
  | none => []
  | some (_, point) => point.handles

def Worker.handles (wk : Worker) : List Dataset :=
  wk.locals ++ slotHandles wk.lightSlot ++ slotHandles wk.miningSlot

def Worker.underConstruction (wk : Worker) : List Dataset :=
  match wk.running with
  | none => []
  | some (_, point) => point.underConstruction

def Worker.holdsLock (wk : Worker) : Bool := wk.running.any fun r => r.2.holdsLock

/-- An `Ok` of `randomx_hash`, with the machine that computed it. -/
structure Hashed where
  digest : Bytes32
  mode : RandomXMode
  vm : Vm

structure Returned where
  call : Call
  result : Except String Hashed

/-- The process: the clock, the two managers and the workers, and a log of what
`shared_fast_dataset` granted and what `randomx_hash` returned. -/
structure State (n : Nat) where
  clock : Nat := 0
  fastDataset : Option SharedDatasetState := none
  lock : Option (Fin n) := none
  lightCache : Option SharedLightCacheState := none
  allocated : Nat := 0
  workers : Fin n → Worker := fun _ => {}
  granted : List (Bytes × Dataset) := []
  returned : List Returned := []

variable {n : Nat}

/-- Every `Arc<Dataset>` alive between two steps. -/
def State.handles (s : State n) : List Dataset :=
  (held s.fastDataset).toList ++ (List.finRange n).flatMap fun w => (s.workers w).handles

/-- Every `Dataset` value alive between two steps, the one being initialized included. -/
def State.datasets (s : State n) : List Dataset :=
  s.handles ++ (List.finRange n).flatMap fun w => (s.workers w).underConstruction

def State.strongCount (s : State n) (dataset : Dataset) : Nat := s.handles.count dataset

def State.setWorker (s : State n) (w : Fin n) (wk : Worker) : State n :=
  { s with workers := Function.update s.workers w wk }

def State.goto (s : State n) (w : Fin n) (call : Call) (point : Point) : State n :=
  s.setWorker w { s.workers w with running := some (call, point) }

def State.grant (s : State n) (w : Fin n) (call : Call) (dataset : Dataset) : State n :=
  { s with granted := (call.key, dataset) :: s.granted }.goto w call (.fastVm dataset)

/-- The new engine goes into the slot, under the key it was asked for. -/
def State.attach (s : State n) (w : Fin n) (call : Call) (vm : Vm) (mode : RandomXMode) : State n :=
  let engine : RandomXEngine :=
    ⟨vm, mode, if mode = .lightFallback then some (s.clock + fastRetryDelay) else none⟩
  s.setWorker w
    { (s.workers w).setSlot call.mining (some (call.key, engine)) with
      running := some (call, .hashing) }

def State.finish (s : State n) (w : Fin n) (call : Call) (result : Except String Hashed) :
    State n :=
  { s with returned := ⟨call, result⟩ :: s.returned }.setWorker w
    { s.workers w with running := none }

/-- The end of a build: the outcome is published and the mutex released. -/
def State.publish (s : State n) (w : Fin n) (call : Call) (now : Nat)
    (built : Except String Dataset) : State n :=
  let s' := { s with fastDataset := some (publishFastDataset call.key now built), lock := none }
  match built with
  | .ok dataset => s'.grant w call dataset
  | .error reason => s'.goto w call (.releaseUnused reason)

/-- What the native library and the allocator answer in a step. -/
structure Reply where
  cacheAllocated : Bool := true
  portableCacheAllocated : Bool := true
  datasetAllocated : Bool := true
  itemCount : Nat := 1
  vmCreated : Bool := true

def fastVmFailed (optimizedError portableError : String) : String :=
  "optimized fast VM creation failed (" ++ optimizedError ++
    "); portable fast VM creation also failed (" ++ portableError ++ ")"

def lightVmFailed (optimizedError portableError : String) : String :=
  "optimized light VM creation failed (" ++ optimizedError ++
    "); portable light VM creation also failed (" ++ portableError ++ ")"

/-- The error of a failed light engine, wrapped when it was the fallback of a fast one. -/
def lightFailed (fastError : Option String) (lightError : String) : String :=
  match fastError with
  | none => lightError
  | some fastError => "fast RandomX unavailable (" ++ fastError ++
      "); safe light-memory fallback also failed (" ++ lightError ++ ")"

variable (native : Native) (forceLight : Bool)

/-- Where `build_mining_vm` and `build_light_vm` begin. -/
def firstPoint (call : Call) : Point :=
  if !call.mining then .sharedLightCache .light none
  else if forceLight then .sharedLightCache .lightRecovery none
  else .sharedFastDataset

/-- `randomx_hash` up to its first shared access: a slot that needs a build is emptied first. -/
def State.randomxHash (s : State n) (w : Fin n) (call : Call) : Option (State n) :=
  let wk := s.workers w
  match wk.running with
  | some _ => none
  | none =>
    if engineNeedsBuild (wk.slot call.mining) call.key call.mining s.clock then
      some (s.setWorker w
        { wk.setSlot call.mining none with running := some (call, firstPoint forceLight call) })
    else some (s.goto w call .hashing)

/-- The worker's next step from where it stands; `none` while it waits for the mutex. -/
def State.resume (s : State n) (w : Fin n) (call : Call) (reply : Reply) :
    Point → Option (State n)
  | .sharedFastDataset =>
    if s.lock ≠ none then none
    else match sharedFastDataset s.fastDataset call.key s.clock s.strongCount with
      | (.granted dataset, m) => some ({ s with fastDataset := m }.grant w call dataset)
      | (.refused reason, m) =>
        some ({ s with fastDataset := m }.goto w call (.releaseUnused reason))
      | (.build, m) =>
        some ({ s with fastDataset := m, lock := some w }.goto w call (.allocating s.clock))
  | .allocating now =>
    match Dataset.allocate s.allocated call.key reply.cacheAllocated reply.datasetAllocated with
    | .ok dataset =>
      some ({ s with allocated := s.allocated + 1 }.goto w call (.initializing now dataset))
    | .error error => some (s.publish w call now (.error (buildFailed error)))
  | .initializing now dataset =>
    match dataset.initialize reply.itemCount with
    | .ok dataset => some (s.publish w call now (.ok dataset))
    | .error error => some (s.publish w call now (.error (buildFailed error)))
  | .fastVm dataset =>
    match Vm.fast (recommendedFlags native forceLight ||| flagFullMem) dataset reply.vmCreated with
    | .ok vm => some (s.attach w call vm .fastShared)
    | .error optimizedError => some (s.goto w call (.portableFastVm dataset optimizedError))
  | .portableFastVm dataset optimizedError =>
    match Vm.fast flagFullMem dataset reply.vmCreated with
    | .ok vm => some (s.attach w call vm .fastShared)
    | .error portableError =>
      some (s.goto w call (.releaseUnused (fastVmFailed optimizedError portableError)))
  | .releaseUnused fastError =>
    if s.lock ≠ none then none
    else
      let m := releaseFastDatasetIfUnused s.fastDataset call.key fastError s.clock s.strongCount
      some ({ s with fastDataset := m }.goto w call
        (.sharedLightCache .lightFallback (some fastError)))
  | .sharedLightCache mode fastError =>
    match sharedLightCache native forceLight s.lightCache call.key reply.cacheAllocated
        reply.portableCacheAllocated with
    | (.ok (flags, cache), m) =>
      some ({ s with lightCache := m }.goto w call (.lightVm mode flags cache fastError))
    | (.error lightError, m) =>
      some ({ s with lightCache := m }.finish w call (.error (lightFailed fastError lightError)))
  | .lightVm mode flags cache fastError =>
    match Vm.light flags cache reply.vmCreated with
    | .ok vm => some (s.attach w call vm mode)
    | .error optimizedError =>
      some (s.goto w call (.portableLightVm mode cache optimizedError fastError))
  | .portableLightVm mode cache optimizedError fastError =>
    match Vm.light flagDefault cache reply.vmCreated with
    | .ok vm => some (s.attach w call vm mode)
    | .error portableError => some (s.finish w call
        (.error (lightFailed fastError (lightVmFailed optimizedError portableError))))
  | .hashing =>
    match (s.workers w).slot call.mining with
    | none =>
      some (s.finish w call (.error "RandomX VM missing after successful initialization"))
    | some (_, engine) =>
      some (s.finish w call
        ((engine.vm.hash native call.input).map fun digest => ⟨digest, engine.mode, engine.vm⟩))

inductive Action (n : Nat)
  | tick (elapsed : Nat)
  | randomxHash (w : Fin n) (call : Call)
  | resume (w : Fin n) (reply : Reply)

def step (s : State n) : Action n → Option (State n)
  | .tick elapsed => some { s with clock := s.clock + elapsed }
  | .randomxHash w call => s.randomxHash forceLight w call
  | .resume w reply =>
    match (s.workers w).running with
    | none => none
    | some (call, point) => s.resume native forceLight w call reply point

end XusMiner.RandomX
