import XusMiner.Job

namespace XusMiner
open ByteCodec

def poolAddress (raw : String) : String :=
  ((Strings.stripPrefix "stratum+tcp://" raw).or (Strings.stripPrefix "tcp://" raw)).getD raw

def endpointAddress (raw : String) : String :=
  Strings.trimEndMatches '/'
    (((Strings.stripPrefix "rpc://" raw).or (Strings.stripPrefix "http://" raw)).getD
      (poolAddress raw))

def isDirectRpc (raw : String) : Bool :=
  (Strings.stripPrefix "rpc://" raw).isSome || (Strings.stripPrefix "http://" raw).isSome ||
    ((Strings.rsplitOnce ':' (endpointAddress raw)).any fun parts => parts.2 = "8645")

example : isDirectRpc "10.0.0.2:8645/" = true ∧ isDirectRpc "stratum+tcp://pool:3333" = false := by
  decide

namespace Engine

def version : String := "0.1.8"

/-- What the engine takes from outside its own code: the hash functions, the rounding of a
difficulty and of a size to the doubles the engine shows, and the text of a double. -/
structure Params where
  blake3 : Bytes → Bytes32
  pow : PowAlgo → Bytes → Bytes → Bytes32
  expectedHashesForTarget : Bytes32 → UInt64
  gib : UInt64 → String
  float : UInt64 → List Char

/-- The settings a run is started with, less the number of workers. -/
structure Config where
  pool : String
  user : String
  password : String
  reconnectSecs : UInt64
  randomxLight : Bool := false
  unavailableScanConfirmed : Bool := false
  jsonEvents : Bool := true

end Engine
end XusMiner
