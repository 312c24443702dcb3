import XusMiner.Engine.System
import XusMiner.Library.Delimiters

namespace XusMiner.CommandLine

/-- The settings of a headless run. -/
structure Config where
  pool : String := "127.0.0.1:3333"
  user : String := "xus-miner"
  password : String := "x"
  workers : UInt64 := 1
  reconnectSecs : UInt64 := 5
  reportSecs : UInt64 := 10
  randomxLight : Bool := false
  deriving DecidableEq

/-- The process ends with a code after it has printed a text. -/
structure Exit where
  code : ℕ
  text : String
  deriving DecidableEq

def usage : String := String.intercalate "\n" [
  "xus-miner — native GUI and standalone SOV/XUS Stratum CPU miner",
  "",
  "USAGE: xus-miner [--gui]",
  "xus-miner --headless [OPTIONS]",
  "",
  "--gui                    Open the native operator console [default with no args]",
  "--headless               Run as a terminal/server process",
  "--pool <host:port>       SOV node RPC (:8645) or Stratum pool [127.0.0.1:3333]",
  "--user <label>           Public account/worker label [xus-miner]",
  "--password <value>       Stratum password [x]",
  "--password-stdin         Read the Stratum password from standard input",
  "--workers <n>            Mining threads [1; one ~2.3 GiB dataset is shared]",
  "--randomx-light          Portable low-memory RandomX recovery (slower)",
  "--confirm-randomx-memory Confirm required RAM only if the OS scan is unavailable",
  "--reconnect-secs <n>     Delay after disconnect [5]",
  "--report-secs <n>        Hashrate reporting interval [10]",
  "--version                Print the exact application/release version",
  "--help                   Show this help",
  "",
  "No wallet seed or private key is used by this program."]

def parseU64 (flag raw : String) (min max : ℕ) : Except Exit UInt64 :=
  match Strings.parseUnsigned (2 ^ 64) raw with
  | none => .error ⟨2, "error: " ++ flag ++ " expects an integer, got `" ++ raw ++ "`"⟩
  | some parsed =>
    if min ≤ parsed ∧ parsed ≤ max then .ok (UInt64.ofNat parsed)
    else .error ⟨2, "error: " ++ flag ++ " must be in " ++ Strings.decimal min ++ "..=" ++
      Strings.decimal max ++ ", got " ++ Strings.decimal parsed⟩

/-- The options that take the next argument, whatever it is, for their value. -/
def valueFlags : List String :=
  ["--pool", "--user", "--password", "--workers", "--reconnect-secs", "--report-secs"]

def Config.set (cfg : Config) (flag value : String) : Except Exit Config :=
  match flag with
  | "--pool" => .ok { cfg with pool := value }
  | "--user" => .ok { cfg with user := value }
  | "--password" => .ok { cfg with password := value }
  | "--workers" => (parseU64 flag value 1 64).map fun workers => { cfg with workers }
  | "--reconnect-secs" =>
    (parseU64 flag value 1 3600).map fun reconnectSecs => { cfg with reconnectSecs }
  | "--report-secs" => (parseU64 flag value 1 3600).map fun reportSecs => { cfg with reportSecs }
  | _ => .ok cfg

def Config.check (cfg : Config) : Except Exit Config :=
  if Strings.trim cfg.pool = "" ∨ Strings.trim cfg.user = "" then
    .error ⟨2, "error: --pool and --user cannot be empty"⟩
  else .ok cfg

def parseArgsFrom (cfg : Config) : List String → Except Exit Config
  | [] => cfg.check
  | flag :: rest =>
    if flag = "--randomx-light" then parseArgsFrom { cfg with randomxLight := true } rest
    else if flag = "--help" ∨ flag = "-h" then .error ⟨0, usage⟩
    else if flag = "--version" ∨ flag = "-V" then .error ⟨0, "xus-miner " ++ Engine.version⟩
    else if flag ∈ valueFlags then
      match rest with
      | [] => .error ⟨2, "error: " ++ flag ++ " requires a value"⟩
      | value :: rest =>
        match cfg.set flag value with
        | .ok cfg => parseArgsFrom cfg rest
        | .error exit => .error exit
    else .error ⟨2, "error: unknown option `" ++ flag ++ "`\n\n" ++ usage⟩

/-- The options that `main` looks for anywhere in the list, and takes out of it. -/
def scannedFlags : List String :=
  ["--headless", "--json-events", "--password-stdin", "--parent-pipe-watchdog",
    "--confirm-randomx-memory"]

/-- What `main` comes to: the window, a headless run with the flags it was given, or an exit. -/
inductive Outcome
  | gui
  | headless (cfg : Config) (jsonEvents parentPipeWatchdog unavailableScanConfirmed : Bool)
  | exit (exit : Exit)

/-- `stdin` is what reading a text from at most 4097 bytes of the standard input gives. -/
def main (raw : List String) (stdin : Except IoError String) : Outcome :=
  if raw = [] ∨ "--gui" ∈ raw then .gui
  else
    match parseArgsFrom {} (raw.filter fun arg => arg ∉ scannedFlags) with
    | .error exit => .exit exit
    | .ok cfg =>
      let headless (cfg : Config) : Outcome := .headless cfg ("--json-events" ∈ raw)
        ("--parent-pipe-watchdog" ∈ raw) ("--confirm-randomx-memory" ∈ raw)
      if "--password-stdin" ∈ raw then
        match stdin with
        | .error error => .exit ⟨2, "error: cannot read password from stdin: " ++ error.message⟩
        | .ok password =>
          if 4096 < password.utf8ByteSize then
            .exit ⟨2, "error: password from stdin exceeds 4096 bytes"⟩
          else headless { cfg with password }
      else headless cfg

def Config.engine (cfg : Config) (jsonEvents unavailableScanConfirmed : Bool) : Engine.Config where
  pool := cfg.pool
  user := cfg.user
  password := cfg.password
  reconnectSecs := cfg.reconnectSecs
  randomxLight := cfg.randomxLight
  unavailableScanConfirmed
  jsonEvents

/-- The engine `run_headless` starts. -/
def runHeadless (cfg : Config) (jsonEvents parentPipeWatchdog unavailableScanConfirmed : Bool) :
    Except String (Engine.System cfg.workers.toNat) :=
  if parentPipeWatchdog && !jsonEvents then
    .error "parent-pipe watchdog requires JSON event output"
  else .ok (.init _ (cfg.engine jsonEvents unavailableScanConfirmed))

example : main ["--headless", "--workers", "0"] (.ok "") =
    .exit ⟨2, "error: --workers must be in 1..=64, got 0"⟩ := by
  rfl

theorem parseArgsFrom_value {cfg : Config} {flag value : String} {rest : List String}
    (h : flag ∈ valueFlags) : parseArgsFrom cfg (flag :: value :: rest) =
      match cfg.set flag value with
      | .ok cfg => parseArgsFrom cfg rest
      | .error exit => .error exit := by
  have hother : flag ≠ "--randomx-light" ∧ ¬(flag = "--help" ∨ flag = "-h") ∧
      ¬(flag = "--version" ∨ flag = "-V") := by
    simp only [valueFlags, List.mem_cons, List.not_mem_nil, or_false] at h
    rcases h with rfl | rfl | rfl | rfl | rfl | rfl <;> decide
  rw [parseArgsFrom, if_neg hother.1, if_neg hother.2.1, if_neg hother.2.2, if_pos h]

theorem parseArgsFrom_light {cfg : Config} {rest : List String} :
    parseArgsFrom cfg ("--randomx-light" :: rest) =
      parseArgsFrom { cfg with randomxLight := true } rest := by
  rw [parseArgsFrom.eq_def]
  exact if_pos rfl

/-- The options that are known once the scanned ones are gone. -/
def knownFlags : List String := ["--randomx-light", "--help", "-h", "--version", "-V"] ++ valueFlags

theorem parseArgsFrom_unknown {cfg : Config} {flag : String} {rest : List String}
    (h : flag ∉ knownFlags) : parseArgsFrom cfg (flag :: rest) =
      .error ⟨2, "error: unknown option `" ++ flag ++ "`\n\n" ++ usage⟩ := by
  have hother : flag ≠ "--randomx-light" ∧ ¬(flag = "--help" ∨ flag = "-h") ∧
      ¬(flag = "--version" ∨ flag = "-V") ∧ flag ∉ valueFlags := by
    simp only [knownFlags, List.mem_append, List.mem_cons, List.not_mem_nil, or_false] at h
    tauto
  rw [parseArgsFrom.eq_def]
  dsimp only
  rw [if_neg hother.1, if_neg hother.2.1, if_neg hother.2.2.1, if_neg hother.2.2.2]

theorem parseU64_decimal (flag : String) {n : UInt64} {min max : ℕ} (hmin : min ≤ n.toNat)
    (hmax : n.toNat ≤ max) : parseU64 flag (Strings.decimal n.toNat) min max = .ok n := by
  rw [parseU64, Strings.parseUnsigned_decimal n.toNat_lt]
  simp [hmin, hmax]

section Main
variable {raw : List String} (hnil : raw ≠ []) (hgui : "--gui" ∉ raw)
include hnil hgui

theorem main_of_error {exit : Exit} {stdin : Except IoError String}
    (hparse : parseArgsFrom {} (raw.filter fun arg => arg ∉ scannedFlags) = .error exit) :
    main raw stdin = .exit exit := by
  rw [main, if_neg (by simp [hnil, hgui]), hparse]

theorem main_of_ok {cfg : Config} {password : String}
    (hparse : parseArgsFrom {} (raw.filter fun arg => arg ∉ scannedFlags) = .ok cfg)
    (hstdin : "--password-stdin" ∈ raw) (hpassword : password.utf8ByteSize ≤ 4096) :
    main raw (.ok password) = .headless { cfg with password } ("--json-events" ∈ raw)
      ("--parent-pipe-watchdog" ∈ raw) ("--confirm-randomx-memory" ∈ raw) := by
  rw [main, if_neg (by simp [hnil, hgui]), hparse]
  simp only
  rw [if_pos hstdin, if_neg (Nat.not_lt.2 hpassword)]

end Main

end XusMiner.CommandLine
