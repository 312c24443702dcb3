import XusMiner.Library.BufReader

namespace XusMiner.Gui

inductive Platform
  | unix
  | windows
  | other
  deriving DecidableEq

inductive ExitStatus
  | exited (code : UInt32)
  | signal (number : Nat)
  deriving DecidableEq

def ExitStatus.code : ExitStatus → Option UInt32
  | .exited code => some code
  | .signal _ => none

def exitStatusMatchesRequestedStop : Platform → ExitStatus → Bool
  | .unix, status => status = .signal 9
  | .windows, status => status.code = some 1
  | .other, _ => false

def engineRestartBaseSecs : Nat := 2
def engineRestartMaxSecs : Nat := 60
def maxAutomaticEngineRestarts : Nat := 5

/-- In milliseconds, like every instant of this model. -/
def automaticRestartDelay (attempt : Nat) : Nat :=
  1000 * min (engineRestartBaseSecs * 2 ^ min (attempt - 1) 5) engineRestartMaxSecs

def exitStatusIsNativeExecutionFailure (status : ExitStatus) : Bool :=
  status.code ∈ [some 0xC0000005, some 0xC000001D, some 0xC0000374, some 0xC0000409]

def exitStatusRequiresLightRandomx (status : ExitStatus) : Bool :=
  status.code ∈ [some 0xC0000017, some 0xC000009A, some 0xC000012C, some 0xC000012D]

inductive RecoveryEscalation
  | keep
  | light
  | terminal
  deriving DecidableEq

def recoveryEscalation (platform : Platform) (status : ExitStatus) (light : Bool)
    (priorAttempts : Nat) : RecoveryEscalation :=
  if platform ≠ .windows then .keep
  else if status.code = some 0xC0000135 then .terminal
  else if light then .keep
  else if exitStatusRequiresLightRandomx status || exitStatusIsNativeExecutionFailure status ||
      1 ≤ priorAttempts then .light
  else .keep

/-- A handle of a spawned process; serial numbers tell two spawns apart. -/
structure Child where
  serial : Nat
  deriving DecidableEq

/-- A spawn, or an answer of the operating system that proves the process exited: a status
returned by `wait` or by `try_wait`. -/
inductive OsEvent
  | spawned (child : Child)
  | exited (child : Child)
  deriving DecidableEq

/-- What the operating system answers while a child is being cleaned up. -/
structure Cleanup where
  kill : Except IoError Unit
  wait : Except IoError ExitStatus
  tryWait : Except IoError (Option ExitStatus)

def terminateAndReapChild (os : Cleanup) : Except String ExitStatus :=
  match os.kill with
  | .ok () =>
    match os.wait with
    | .ok status => .ok status
    | .error error => .error ("termination succeeded but reaping failed: " ++ error.message)
  | .error killError =>
    match os.tryWait with
    | .ok (some status) => .ok status
    | .ok none => .error ("termination failed: " ++ killError.message ++
        "; child still appears live, so blocking reap was skipped")
    | .error observeError => .error ("termination failed: " ++ killError.message ++
        "; exit could not be verified: " ++ observeError.message ++ "; blocking reap was skipped")

/-- The processes of a log, newest event first, that are not yet proven to have exited. -/
def unproven : List OsEvent → List Child
  | [] => []
  | .spawned child :: log => child :: unproven log
  | .exited child :: log => (unproven log).filter (· ≠ child)

/-- Every spawn of the log came after all earlier processes were proven to have exited. -/
def Exclusive : List OsEvent → Prop
  | [] => True
  | .spawned _ :: log => unproven log = [] ∧ Exclusive log
  | .exited _ :: log => Exclusive log

theorem Exclusive.suffix {log log' : List OsEvent} (h : Exclusive log) (hsuffix : log' <:+ log) :
    Exclusive log' := by
  induction log with
  | nil =>
    rw [List.suffix_nil.1 hsuffix]
    trivial
  | cons event log ih =>
    rcases List.suffix_cons_iff.1 hsuffix with rfl | hshorter
    · exact h
    · cases event with
      | spawned child => exact ih h.2 hshorter
      | exited child => exact ih h hshorter

theorem Exclusive.length_le_one {log : List OsEvent} (h : Exclusive log) :
    (unproven log).length ≤ 1 := by
  induction log with
  | nil => exact Nat.zero_le _
  | cons event log ih =>
    cases event with
    | spawned child => simp [unproven, h.1]
    | exited child => exact (List.length_filter_le _ _).trans (ih h)

end XusMiner.Gui
