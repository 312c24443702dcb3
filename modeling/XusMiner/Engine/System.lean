import XusMiner.Engine.Worker
import XusMiner.Engine.Session
import XusMiner.Library.Runs

namespace XusMiner.Engine
open ByteCodec

/-- Where `reporter_loop` stands, by what it reads next. -/
inductive Reporting
  | interval
  | round
  | height
  | totalHashes
  | submitted
  | accepted
  | rejected
  | mempool
  | peers
  | emit

/-- The reporter and the figures of the event it is putting together. -/
structure Reporter where
  reporting : Reporting := .interval
  metrics : Metrics := {}

/-- The doubles of an event depend on the clock and on the work done; their bits are given. A
flag and the figure it guards are read together. -/
def Reporter.step (s : State) (r : Reporter) (jobLocked : Bool) (bits : UInt64) :
    Option (State × Reporter) :=
  let m := r.metrics
  match r.reporting with
  | .interval => some ({ s with intervalHashes := 0 }, ⟨.round, { hashrate := bits }⟩)
  | .round => some (s, ⟨.height,
      { m with roundHeight := s.round.height, roundHashes := s.round.hashes,
               roundProbability := bits }⟩)
  | .height =>
    if jobLocked then none
    else some (s, ⟨.totalHashes, { m with height := s.job.map (·.job.height) }⟩)
  | .totalHashes => some (s, ⟨.submitted, { m with totalHashes := s.totalHashes }⟩)
  | .submitted => some (s, ⟨.accepted, { m with submitted := s.submitted }⟩)
  | .accepted => some (s, ⟨.rejected, { m with accepted := s.accepted }⟩)
  | .rejected => some (s, ⟨.mempool, { m with rejected := s.rejected }⟩)
  | .mempool => some (s, ⟨.peers,
      { m with mempoolSize := if s.mempoolKnown then some s.mempoolSize else none }⟩)
  | .peers => some (s, ⟨.emit,
      { m with peerCount := if s.peersKnown then some s.peerCount else none }⟩)
  | .emit => some (s.emit m.event, {})

/-- The engine with `n` workers. -/
structure System (n : ℕ) where
  state : State
  runner : Runner
  workers : Fin n → Worker
  reporter : Reporter := {}

inductive Action (n : ℕ)
  | worker (w : Fin n) (e : WorkerEvent)
  | session (e : SessionEvent)
  | reporter (bits : UInt64)

namespace System
variable {n : ℕ}

def init (n : ℕ) (config : Config) : System n where
  state := { jsonEvents := config.jsonEvents }
  runner :=
    { gate := ⟨UInt64.ofNat n, config.randomxLight, config.unavailableScanConfirmed, none⟩ }
  workers w := Worker.start w 0

def jobLocked (s : System n) : Bool := decide (∃ w, (s.workers w).pc.holdsJob)

def guards (s : System n) : Guards where
  job := s.jobLocked
  connection := decide (∃ w, (s.workers w).pc.holdsConnection)
  endpoint := decide (∃ w, (s.workers w).pc.holdsEndpoint)

def locks (s : System n) : Locks where
  job := s.jobLocked
  connection := s.runner.session.holdsConnection

/-- Worker `w` is left at `wk` and the shared state at `state`. -/
def setWorker (s : System n) (w : Fin n) (state : State) (wk : Worker) : System n :=
  { s with state, workers := Function.update s.workers w wk }

/-- One operation of one thread; the others stay where they are. -/
def step (params : Params) (config : Config) (s : System n) : Action n → Option (System n)
  | .worker w e =>
    ((s.workers w).step params w s.locks s.state e).map fun r => s.setWorker w r.1 r.2
  | .session e =>
    (s.runner.step params config n s.guards s.state e).map fun r =>
      { s with state := r.1, runner := r.2 }
  | .reporter bits =>
    (s.reporter.step s.state s.jobLocked bits).map fun r => { s with state := r.1, reporter := r.2 }

def run (params : Params) (config : Config) : System n → List (Action n) → Option (System n) :=
  Runs.run (step params config)

/-- The states the engine can come to, whatever its threads are told and in whatever order they
take their steps. -/
def Reachable (params : Params) (config : Config) (s : System n) : Prop :=
  Runs.Reachable (step params config) (init n config) s

end System
end XusMiner.Engine
