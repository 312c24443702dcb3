import XusMiner.Engine.Config
import XusMiner.Library.Delimiters

namespace XusMiner.Gui

inductive RewardRoute
  | ownedBridge
  | externalPool
  deriving DecidableEq

def RewardRoute.persisted : RewardRoute → String
  | .ownedBridge => "owned_bridge"
  | .externalPool => "external_pool"

/-- What the operator types in. -/
structure Settings where
  rewardRoute : RewardRoute := .ownedBridge
  pool : String := "127.0.0.1:3333"
  user : String := "xus-miner"
  password : String := "x"
  workers : UInt64 := 1
  reconnectSecs : UInt64 := 5
  reportSecs : UInt64 := 2

/-- The endpoint without one of the schemes that may be written in front of it. -/
def poolHostPort (raw : String) : String :=
  let trimmed := Strings.trim raw
  ((((Strings.stripPrefix "stratum+tcp://" trimmed).or (Strings.stripPrefix "tcp://" trimmed)).or
    (Strings.stripPrefix "rpc://" trimmed)).or (Strings.stripPrefix "http://" trimmed)).getD trimmed

def validatePool (raw : String) : Except String Unit :=
  let address := poolHostPort raw
  if address = "" ∨ address.toList.any Strings.isWhitespace then
    .error "Endpoint must be a host and port, such as 192.168.0.244:8645."
  else if '@' ∈ address.toList then
    .error "Endpoint credentials are not allowed. Enter only the host and port; use the separate password field."
  else
    match Strings.rsplitOnce ':' address with
    | none => .error "Pool is missing its TCP port."
    | some (host, port) =>
      if host = "" then .error "Pool host cannot be empty."
      else
        match Strings.parseUnsigned (2 ^ 16) port with
        | none => .error "Pool port must be a number from 1 to 65535."
        | some port => if port = 0 then .error "Pool port cannot be zero." else .ok ()

def Settings.validate (settings : Settings) : Except String Unit :=
  (validatePool settings.pool).bind fun _ =>
    if Strings.trim settings.user = "" then .error "Worker label cannot be empty."
    else if 256 < settings.user.utf8ByteSize then
      .error "Worker label must be 256 characters or fewer."
    else if '\n' ∈ settings.password.toList ∨ '\r' ∈ settings.password.toList then
      .error "Stratum password cannot contain a line break."
    else if 4096 < settings.password.utf8ByteSize then
      .error "Stratum password is unexpectedly large."
    else if ¬(1 ≤ settings.workers ∧ settings.workers ≤ 64) then
      .error "Worker count must be between 1 and 64."
    else .ok ()

/-- How the window takes an endpoint for that of a node. -/
def isDirectNodeEndpoint (raw : String) : Bool :=
  let raw := Strings.trim raw
  (Strings.stripPrefix "rpc://" raw).isSome || (Strings.stripPrefix "http://" raw).isSome ||
    (Strings.stripPrefix "https://" raw).isSome ||
    (Strings.rsplitOnce ':' (Strings.trimEndMatches '/' raw)).any fun parts => parts.2 = "8645"

/-- What may be written in front of an endpoint. -/
def endpointSchemes : List String := ["stratum+tcp://", "tcp://", "rpc://", "http://", ""]

theorem poolHostPort_scheme (raw : String) : ∃ scheme ∈ endpointSchemes,
    (Strings.trim raw).toList = scheme.toList ++ (poolHostPort raw).toList := by
  unfold poolHostPort
  dsimp only
  cases htcp : Strings.stripPrefix "stratum+tcp://" (Strings.trim raw) with
  | some address =>
    refine ⟨"stratum+tcp://", by simp [endpointSchemes], ?_⟩
    rw [Strings.stripPrefix_eq_some.1 htcp]
    rfl
  | none =>
    cases hplain : Strings.stripPrefix "tcp://" (Strings.trim raw) with
    | some address =>
      refine ⟨"tcp://", by simp [endpointSchemes], ?_⟩
      rw [Strings.stripPrefix_eq_some.1 hplain]
      rfl
    | none =>
      cases hrpc : Strings.stripPrefix "rpc://" (Strings.trim raw) with
      | some address =>
        refine ⟨"rpc://", by simp [endpointSchemes], ?_⟩
        rw [Strings.stripPrefix_eq_some.1 hrpc]
        rfl
      | none =>
        cases hhttp : Strings.stripPrefix "http://" (Strings.trim raw) with
        | some address =>
          refine ⟨"http://", by simp [endpointSchemes], ?_⟩
          rw [Strings.stripPrefix_eq_some.1 hhttp]
          rfl
        | none =>
          refine ⟨"", by simp [endpointSchemes], ?_⟩
          rw [String.toList_empty, List.nil_append]
          rfl

theorem poolHostPort_suffix (raw : String) :
    (poolHostPort raw).toList <:+ (Strings.trim raw).toList := by
  obtain ⟨scheme, -, hscheme⟩ := poolHostPort_scheme raw
  rw [hscheme]
  exact List.suffix_append _ _

/-- What an accepted endpoint is known to be. -/
theorem validatePool_eq_ok {raw : String} (h : validatePool raw = .ok ()) :
    '@' ∉ (poolHostPort raw).toList ∧ ∃ host port value,
      Strings.rsplitOnce ':' (poolHostPort raw) = some (host, port) ∧
      Strings.parseUnsigned (2 ^ 16) port = some value := by
  unfold validatePool at h
  dsimp only at h
  split_ifs at h with hempty hat
  split at h
  · cases h
  · next host port hsplit =>
    split_ifs at h
    split at h
    · cases h
    · next value hport => exact ⟨hat, host, port, value, hsplit, hport⟩

/-- Settings that pass the check. -/
structure Settings.Valid (settings : Settings) : Prop where
  pool : validatePool settings.pool = .ok ()
  user : Strings.trim settings.user ≠ ""
  password : settings.password.utf8ByteSize ≤ 4096
  workers : 1 ≤ settings.workers ∧ settings.workers ≤ 64

theorem Settings.valid_of_validate {settings : Settings} (h : settings.validate = .ok ()) :
    settings.Valid := by
  unfold validate at h
  cases hpool : validatePool settings.pool with
  | error error =>
    rw [hpool] at h
    cases h
  | ok _ =>
    rw [hpool] at h
    simp only [Except.bind] at h
    split_ifs at h with huser _ _ hpassword hworkers
    exact ⟨hpool, huser, Nat.le_of_not_lt hpassword, hworkers⟩

end XusMiner.Gui
