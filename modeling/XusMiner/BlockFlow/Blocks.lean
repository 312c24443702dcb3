import XusMiner.Json

namespace XusMiner.BlockFlow

def recentDepth : Nat := 33
def maxFetchPerRefresh : Nat := 4
def maxSealedTracked : Nat := 32
def maxHashChars : Nat := 128
def maxGapBlocks : Nat := 4
def maxReportedTracked : Nat := 64

/-- The object that carries the block fields: nested under `block`, or the value itself. -/
def blockFacet (value : Value) : Value :=
  match value.get "block" with
  | some inner => if inner.isObject then inner else value
  | none => value

def txCount (value : Value) : Option UInt64 :=
  let facet := blockFacet value
  match (facet.get "transactions").bind Value.asArray with
  | some transactions => some (UInt64.ofNat transactions.length)
  | none =>
    match (facet.get "txIds").bind Value.asArray with
    | some ids => some (UInt64.ofNat ids.length)
    | none => (facet.get "txCount").bind Value.asU64

/-- A hash text as it is stored: trimmed, and valid only when it is then neither empty nor longer
than 128 bytes. -/
def boundedHash (hash : String) : Option String :=
  let hash := Strings.trim hash
  if hash ≠ "" ∧ hash.utf8ByteSize ≤ maxHashChars then some hash else none

def blockHash (value : Value) : Option String :=
  let facet := blockFacet value
  (((facet.get "hash").or ((facet.get "header").bind (·.get "hash"))).bind Value.asStr).bind
    boundedHash

def blockTimestampMs (value : Value) : Option UInt64 :=
  let facet := blockFacet value
  let read (object : Value) :=
    ((object.get "timestamp_ms").or (object.get "timestampMs")).bind Value.asU64
  ((facet.get "header").bind read).or (read facet)

/-- The accepted submissions of this miner, oldest first. -/
structure SealedBlocks where
  entries : List (Nat × String) := []

/-- The proof behind an attribution. -/
inductive MineMark
  | hash
  | height
  | unverifiedHeight
  | no
  deriving DecidableEq

namespace SealedBlocks

def record (sealed : SealedBlocks) (height : Nat) (hash : String) : SealedBlocks :=
  let entries := sealed.entries ++ [(height, hash)]
  ⟨entries.drop (entries.length - maxSealedTracked)⟩

def isSealed (sealed : SealedBlocks) (height : Nat) : Option String → Bool
  | some hash => sealed.entries.any (·.2 = hash)
  | none => sealed.entries.any (·.1 = height)

def mineMark (sealed : SealedBlocks) (height : Nat) (detailFetched : Bool)
    (hash : Option String) : MineMark :=
  if detailFetched then
    if sealed.isSealed height hash then (if hash.isSome then .hash else .height) else .no
  else if sealed.isSealed height none then .unverifiedHeight
  else .no

end SealedBlocks

end XusMiner.BlockFlow
