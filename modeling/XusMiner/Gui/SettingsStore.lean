import XusMiner.Gui.Process
import XusMiner.Gui.SavedSettings
import XusMiner.Library.Files

namespace XusMiner.Gui.Store
open ByteCodec Files
open Program (observe)

def settingsDirectory : String := ".xus-miner"
def settingsFile : String := "gui-settings.json"

/-- `settings_path`, for the home directory that is set. -/
def settingsPath (home : Path) : Path := Path.join (Path.join home settingsDirectory) settingsFile

variable (platform : Platform)

def verifyDirectoryOwner (directory : Path) (metadata : Metadata) : Io Unit :=
  if platform = .unix then do
    let parent ← orThrow "settings directory has no parent" (Path.parent directory)
    let parentMetadata ←
      describing "cannot inspect settings directory parent" (Files.metadata parent)
    ensure (metadata.owner = parentMetadata.owner)
      "settings directory is not owned by the home-directory owner"
    ensure (metadata.mode &&& 0o022 = 0) "settings directory is writable by another account"
  else pure ()

def verifySettingsDirectory (directory : Path) : Io Metadata := do
  let metadata ← describing "cannot inspect settings directory" (symlinkMetadata directory)
  ensure (¬metadata.isLink) "settings directory is a symbolic link or reparse point"
  ensure metadata.isDir "settings path parent is not a directory"
  verifyDirectoryOwner platform directory metadata
  return metadata

def ensureSettingsDirectory (directory : Path) : Io Unit := do
  let inspected ← observe (symlinkMetadata directory)
  match inspected with
  | .ok _ => do
    let _ ← verifySettingsDirectory platform directory
    return
  | .error error => do
    ensure (error.kind = .notFound) ("cannot inspect settings directory: " ++ error.message)
    let created ← observe (createDir directory (if platform = .unix then 0o700 else 0o777))
    match created with
    | .ok () => pure ()
    | .error error =>
      ensure (error.kind = .alreadyExists) ("cannot create settings directory: " ++ error.message)
    let _ ← verifySettingsDirectory platform directory
    return

def verifyFileOwner (path : Path) (metadata : Metadata) : Io Unit :=
  if platform = .unix then do
    let directory ← orThrow "settings file has no parent" (Path.parent path)
    let directoryMetadata ← verifySettingsDirectory platform directory
    ensure (metadata.owner = directoryMetadata.owner)
      "settings file is not owned by the settings-directory owner"
    ensure (metadata.mode &&& 0o022 = 0) "settings file is writable by another account"
  else pure ()

def inspectSettingsFile (path : Path) : Io (Option Metadata) := do
  let inspected ← observe (symlinkMetadata path)
  match inspected with
  | .error error => do
    ensure (error.kind = .notFound) ("cannot inspect settings file: " ++ error.message)
    return none
  | .ok metadata => do
    ensure (¬metadata.isLink) "settings file is a symbolic link or reparse point"
    ensure metadata.isFile "settings file is not a regular file"
    verifyFileOwner platform path metadata
    return some metadata

def windowsSettingsBackup (path : Path) : Path :=
  Path.withFileName path ("." ++ settingsFile ++ ".backup")

def recoverWindowsSettings (path : Path) : Io Unit :=
  if platform = .windows then do
    let backup := windowsSettingsBackup path
    let current ← inspectSettingsFile platform path
    let staged ← inspectSettingsFile platform backup
    match current.isSome, staged.isSome with
    | false, true => describing "cannot recover staged settings" (rename backup path)
    | true, true => describing "cannot remove recovered settings backup" (removeFile backup)
    | _, _ => pure ()
  else pure ()

def loadSettingsAt (fromSlice : Bytes → Except String Value) (path : Path) : Io Settings := do
  let directory ← orThrow "settings file has no parent" (Path.parent path)
  let _ ← verifySettingsDirectory platform directory
  recoverWindowsSettings platform path
  let inspected ← inspectSettingsFile platform path
  let initial ← orThrow "settings file does not exist" inspected
  ensure (initial.len ≤ maxSettingsBytes) "settings file is unexpectedly large"
  let file ← describing "cannot open settings" (openFile path (platform = .windows))
  let opened ← describing "cannot inspect opened settings" (fileMetadata file)
  ensure (¬opened.isLink ∧ opened.isFile ∧ opened.len ≤ maxSettingsBytes)
    "opened settings path is not a bounded regular file"
  ensure (platform = .unix → initial.inode = opened.inode)
    "settings file changed while it was being opened"
  let bytes ← describing "cannot read settings" (readToEnd file (maxSettingsBytes + 1))
  ensure (bytes.length ≤ maxSettingsBytes) "settings file is unexpectedly large"
  match fromSlice bytes with
  | .ok value => return Settings.fromJson value
  | .error error => throw ("cannot decode settings: " ++ error)

def temporaryName (process nonce : ℕ) (sequence : UInt64) (attempt : ℕ) : String :=
  ".gui-settings." ++ (toString process ++ "." ++ toString nonce ++ "." ++
    toString sequence.toNat ++ "." ++ toString attempt ++ ".tmp")

/-- The attempts that are left, the next one and the value of the counter it takes. -/
def createTemporary (directory : Path) (process : ℕ) : ℕ → ℕ → UInt64 → Io (Path × ℕ)
  | 0, _, _ => throw "cannot create unique temporary settings"
  | left + 1, attempt, sequence => do
    let nonce ← now
    let candidate := Path.join directory (temporaryName process nonce sequence attempt)
    let created ← observe (createNew candidate (if platform = .unix then 0o600 else 0o666))
    match created with
    | .ok file => return (candidate, file)
    | .error error => do
      ensure (error.kind = .alreadyExists)
        ("cannot create temporary settings: " ++ error.message)
      createTemporary directory process left (attempt + 1) (sequence + 1)

def replaceWindowsSettings (path temporary : Path) : Io Unit := do
  recoverWindowsSettings platform path
  let backup := windowsSettingsBackup path
  let current ← inspectSettingsFile platform path
  (if current.isSome then describing "cannot stage old settings" (rename path backup) else pure () :
    Io Unit)
  let installed ← observe (rename temporary path)
  match installed with
  | .ok () => do
    let staged ← pathExists backup
    if staged then describing "cannot remove old settings backup" (removeFile backup) else pure ()
  | .error error => do
    let _ ← (observe (rename backup path) : Io (Except Error Unit))
    throw ("cannot install settings: " ++ error.message)

def replaceSettingsFile (path temporary : Path) : Io Unit :=
  if platform = .windows then replaceWindowsSettings platform path temporary
  else describing "cannot install settings atomically" (rename temporary path)

def syncDirectory (context : String) (directory : Path) : Io Unit :=
  if platform = .unix then
    describing context do
      let file ← openFile directory false
      syncAll file
  else pure ()

/-- `save_settings_at`, with the bytes that are to be saved; `sequence` is what the counter of the
process says. -/
def saveBytesAt (process : ℕ) (sequence : UInt64) (path : Path) (bytes : Bytes) : Io Unit := do
  let directory ← orThrow "settings file has no parent" (Path.parent path)
  ensureSettingsDirectory platform directory
  recoverWindowsSettings platform path
  let _ ← inspectSettingsFile platform path
  let (temporary, file) ← createTemporary platform directory process 32 0 sequence
  describing "cannot write temporary settings" do
    writeAll file bytes
    syncAll file
  let _ ← verifySettingsDirectory platform directory
  let _ ← inspectSettingsFile platform path
  replaceSettingsFile platform path temporary
  syncDirectory platform "cannot sync settings directory" directory

def saveSettingsAt (float : UInt64 → List Char) (process : ℕ) (sequence : UInt64) (path : Path)
    (settings : Settings) : Io Unit :=
  saveBytesAt platform process sequence path (Gui.saveSettingsAt float settings)

/-- What a process does with the settings; `sequence` is what its counter says. -/
inductive Job
  | save (sequence : UInt64) (settings : Settings)
  | load

inductive Outcome
  | saved (result : Except String Unit)
  | loaded (result : Except String Settings)

def program (float : UInt64 → List Char) (fromSlice : Bytes → Except String Value) (home : Path)
    (process : ℕ) : Job → FileProgram Outcome
  | .save sequence settings => do
    let result ← (saveSettingsAt platform float process sequence (settingsPath home) settings).run
    return .saved result
  | .load => do
    let result ← (loadSettingsAt platform fromSlice (settingsPath home)).run
    return .loaded result

/-- The processes of one user. -/
def answers (caller : Caller) (process : ℕ) : Disk → Fate → (c : Call) → Reply c × Disk :=
  answer { caller with process }

end XusMiner.Gui.Store
