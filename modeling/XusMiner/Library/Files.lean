import XusMiner.Library.ByteCodec
import XusMiner.Library.Programs

/-! A file system as its calls show it, and as a power failure may leave it. -/

namespace Files
open ByteCodec

inductive ErrorKind
  | notFound
  | alreadyExists
  | other
  deriving DecidableEq

structure Error where
  kind : ErrorKind
  message : String
  deriving DecidableEq

/-- The components from the root on. -/
abbrev Path := List String

def Path.parent (path : Path) : Option Path := if path = [] then none else some path.dropLast

def Path.join (directory : Path) (name : String) : Path := directory ++ [name]

def Path.withFileName (path : Path) (name : String) : Path := Path.join path.dropLast name

inductive Kind
  | file
  | directory
  | link (target : Path)
  deriving DecidableEq

/-- `creator` is the process that made it, which no call tells; `synced` holds when all that was
written is on the medium. -/
structure Inode where
  kind : Kind
  owner : UInt32
  mode : UInt32
  creator : ℕ
  contents : Bytes
  synced : Bool
  deriving DecidableEq

/-- The inode each name refers to. -/
abbrev Layout := Path → Option ℕ

/-- `older` are the layouts since the directories were last synced: the medium may hold any of
them, as changes of names reach it in their order. `renamed` are the names that files were given by
renaming so far, which no call tells. -/
structure Disk where
  inode : ℕ → Inode
  unused : ℕ  -- no inode from here on has been made
  entries : Layout
  older : List Layout
  renamed : List (Path × ℕ)

structure Metadata where
  inode : ℕ
  kind : Kind
  owner : UInt32
  mode : UInt32
  len : ℕ
  deriving DecidableEq

def Metadata.isLink (metadata : Metadata) : Bool :=
  match metadata.kind with
  | .link _ => true
  | _ => false

def Metadata.isDir (metadata : Metadata) : Bool := metadata.kind = .directory

def Metadata.isFile (metadata : Metadata) : Bool := metadata.kind = .file

inductive Call
  | symlinkMetadata (path : Path)
  | metadata (path : Path)
  | fileMetadata (file : ℕ)
  | createDir (path : Path) (mode : UInt32)
  | createNew (path : Path) (mode : UInt32)
  | openFile (path : Path) (noFollow : Bool)
  | read (file offset limit : ℕ)
  | write (file offset : ℕ) (bytes : Bytes)
  | sync (file : ℕ)
  | rename (source destination : Path)
  | removeFile (path : Path)
  | pathExists (path : Path)
  | now

def Reply : Call → Type
  | .symlinkMetadata _ | .metadata _ | .fileMetadata _ => Except Error Metadata
  | .createDir _ _ | .sync _ | .rename _ _ | .removeFile _ => Except Error Unit
  | .createNew _ _ | .openFile _ _ | .write _ _ _ => Except Error ℕ
  | .read _ _ _ => Except Error Bytes
  | .pathExists _ => Bool
  | .now => ℕ

/-- What decides about a call beyond the disk: a fault, how much of a read or a write is done, and
what the clock says. -/
structure Fate where
  fault : Option String
  count : ℕ
  clock : ℕ

/-- The user and the process that make the calls. -/
structure Caller where
  user : UInt32
  umask : UInt32
  process : ℕ

/-- What the process makes is its user's. -/
def Caller.made (caller : Caller) (kind : Kind) (mode : UInt32) : Inode :=
  ⟨kind, caller.user, mode &&& ~~~caller.umask, caller.process, [], false⟩

namespace Disk

/-- The layouts that the medium may hold. -/
def layouts (d : Disk) : List Layout := d.entries :: d.older

def describe (d : Disk) (k : ℕ) : Metadata :=
  ⟨k, (d.inode k).kind, (d.inode k).owner, (d.inode k).mode, (d.inode k).contents.length⟩

/-- The inode at the end of a chain of links. -/
def follow (d : Disk) : ℕ → Path → Option ℕ
  | 0, _ => none
  | fuel + 1, path =>
    (d.entries path).bind fun k =>
      match (d.inode k).kind with
      | .link target => d.follow fuel target
      | _ => some k

/-- Linux gives up after this many links. -/
def maxLinks : ℕ := 40

/-- The directory of the path has a name itself; the root needs none. -/
def hasParent (d : Disk) (path : Path) : Bool :=
  (Path.parent path).all fun directory => directory = [] ∨ (d.entries directory).isSome

def relink (d : Disk) (entries : Layout) : Disk :=
  { d with entries := entries, older := d.layouts }

def setInode (d : Disk) (k : ℕ) (inode : Inode) : Disk :=
  { d with inode := Function.update d.inode k inode }

def create (d : Disk) (path : Path) (inode : Inode) : Disk :=
  { (d.setInode d.unused inode).relink (Function.update d.entries path (some d.unused)) with
    unused := d.unused + 1 }

def write (d : Disk) (k offset : ℕ) (bytes : Bytes) : Disk :=
  d.setInode k { d.inode k with
    contents := (d.inode k).contents.take offset ++ bytes ++
      (d.inode k).contents.drop (offset + bytes.length)
    synced := false }

/-- The inode reaches the medium, and so do the names in the directory `k`. The name of `k` itself
is in its own directory: where that is not found, neither are these. -/
def sync (d : Disk) (k : ℕ) : Disk :=
  { d.setInode k { d.inode k with synced := true } with
    older := d.older.map fun layout path =>
      if (Path.parent path).bind d.entries = some k ∧ (Path.parent path).bind layout = some k then
        d.entries path
      else layout path }

def rename (d : Disk) (source destination : Path) (k : ℕ) : Disk :=
  if source = destination then d
  else
    { d.relink (Function.update (Function.update d.entries source none) destination (some k)) with
      renamed := d.renamed ++ [(destination, k)] }

def remove (d : Disk) (path : Path) : Disk := d.relink (Function.update d.entries path none)

end Disk

def notFound : Error := ⟨.notFound, "No such file or directory (os error 2)"⟩
def fileExists : Error := ⟨.alreadyExists, "File exists (os error 17)"⟩
def isADirectory : Error := ⟨.other, "Is a directory (os error 21)"⟩

def found {α : Type} (f : ℕ → α) : Option ℕ → Except Error α
  | some k => .ok (f k)
  | none => .error notFound

/-- What a call replies and the disk it leaves when nothing faults. A path is looked up as a whole:
names are made, and reach the medium, only where that of their directory is found. -/
def respond (caller : Caller) (d : Disk) (fate : Fate) : (c : Call) → Reply c × Disk
  | .symlinkMetadata path => (found d.describe (d.entries path), d)
  | .metadata path => (found d.describe (d.follow Disk.maxLinks path), d)
  | .fileMetadata file => (.ok (d.describe file), d)
  | .createDir path mode =>
    if d.hasParent path then
      match d.entries path with
      | some _ => (.error fileExists, d)
      | none => (.ok (), d.create path (caller.made .directory mode))
    else (.error notFound, d)
  | .createNew path mode =>
    if d.hasParent path then
      match d.entries path with
      | some _ => (.error fileExists, d)
      | none => (.ok d.unused, d.create path (caller.made .file mode))
    else (.error notFound, d)
  | .openFile path noFollow =>
    (found id (if noFollow then d.entries path else d.follow Disk.maxLinks path), d)
  | .read file offset limit =>
    -- at least one byte, unless none is left or wanted
    (.ok (((d.inode file).contents.drop offset).take (min limit (max 1 fate.count))), d)
  | .write file offset bytes =>
    let count := min bytes.length fate.count
    (.ok count, d.write file offset (bytes.take count))
  | .sync file => (.ok (), d.sync file)
  | .rename source destination =>
    if d.hasParent destination then
      match d.entries source, d.entries destination with
      | none, _ => (.error notFound, d)
      | some k, none => (.ok (), d.rename source destination k)
      | some k, some k' =>
        if (d.inode k').kind = .directory then (.error isADirectory, d)
        else (.ok (), d.rename source destination k)
    else (.error notFound, d)
  | .removeFile path =>
    match d.entries path with
    | none => (.error notFound, d)
    | some k =>
      if (d.inode k).kind = .directory then (.error isADirectory, d) else (.ok (), d.remove path)
  | .pathExists path => ((d.follow Disk.maxLinks path).isSome, d)
  | .now => (fate.clock, d)

/-- The reply to a call that faults. -/
def faulted (fate : Fate) (error : Error) : (c : Call) → Reply c
  | .symlinkMetadata _ | .metadata _ | .fileMetadata _ | .createDir _ _ | .sync _ | .rename _ _
  | .removeFile _ | .createNew _ _ | .openFile _ _ | .write _ _ _ | .read _ _ _ => .error error
  | .pathExists _ => false
  | .now => fate.clock

/-- A call that faults changes nothing. -/
def answer (caller : Caller) (d : Disk) (fate : Fate) (c : Call) : Reply c × Disk :=
  match fate.fault with
  | some message => (faulted fate ⟨.other, message⟩ c, d)
  | none => respond caller d fate c

/-- What a power failure decides: which of the layouts is found again, and what is found in the
files that were not synced. -/
structure Loss where
  layout : ℕ
  garbage : ℕ → Bytes

def Disk.lose (d : Disk) (loss : Loss) : Disk where
  inode k :=
    if (d.inode k).synced then d.inode k
    else { d.inode k with contents := loss.garbage k, synced := true }
  unused := d.unused
  entries := d.layouts.getD loss.layout d.entries
  older := []
  renamed := d.renamed

abbrev FileProgram := Program Call Reply

abbrev Io := ExceptT String FileProgram

def perform (c : Call) : FileProgram (Reply c) := Program.perform c

/-- The errors get the context that `map_err` gives them. -/
def describing {α : Type} (context : String) (x : ExceptT Error FileProgram α) : Io α :=
  Program.mapError (fun error => context ++ ": " ++ error.message) x

def ensure (p : Prop) [Decidable p] (message : String) : Io Unit :=
  if p then pure () else throw message

def orThrow {α : Type} (message : String) : Option α → Io α
  | some a => pure a
  | none => throw message

def symlinkMetadata (path : Path) : ExceptT Error FileProgram Metadata :=
  ExceptT.mk (perform (.symlinkMetadata path))

def metadata (path : Path) : ExceptT Error FileProgram Metadata :=
  ExceptT.mk (perform (.metadata path))

def fileMetadata (file : ℕ) : ExceptT Error FileProgram Metadata :=
  ExceptT.mk (perform (.fileMetadata file))

def createDir (path : Path) (mode : UInt32) : ExceptT Error FileProgram Unit :=
  ExceptT.mk (perform (.createDir path mode))

def createNew (path : Path) (mode : UInt32) : ExceptT Error FileProgram ℕ :=
  ExceptT.mk (perform (.createNew path mode))

def openFile (path : Path) (noFollow : Bool) : ExceptT Error FileProgram ℕ :=
  ExceptT.mk (perform (.openFile path noFollow))

def read (file offset limit : ℕ) : ExceptT Error FileProgram Bytes :=
  ExceptT.mk (perform (.read file offset limit))

def write (file offset : ℕ) (bytes : Bytes) : ExceptT Error FileProgram ℕ :=
  ExceptT.mk (perform (.write file offset bytes))

def syncAll (file : ℕ) : ExceptT Error FileProgram Unit := ExceptT.mk (perform (.sync file))

def rename (source destination : Path) : ExceptT Error FileProgram Unit :=
  ExceptT.mk (perform (.rename source destination))

def removeFile (path : Path) : ExceptT Error FileProgram Unit :=
  ExceptT.mk (perform (.removeFile path))

def pathExists (path : Path) : Io Bool := ExceptT.lift (perform (.pathExists path))

/-- The nanoseconds of the clock. -/
def now : Io ℕ := ExceptT.lift (perform .now)

/-- `write_all` from an offset on; the fuel is the number of bytes. -/
def writeAllFrom (file : ℕ) : ℕ → ℕ → Bytes → ExceptT Error FileProgram Unit
  | 0, _, _ => pure ()
  | fuel + 1, offset, bytes => do
    if bytes = [] then pure ()
    else
      let count ← write file offset bytes
      if count = 0 then throw ⟨.other, "failed to write whole buffer"⟩
      else writeAllFrom file fuel (offset + count) (bytes.drop count)

def writeAll (file : ℕ) (bytes : Bytes) : ExceptT Error FileProgram Unit :=
  writeAllFrom file bytes.length 0 bytes

/-- `read_to_end` on a file of which at most `limit` bytes are taken. -/
def readToEndFrom (file : ℕ) : ℕ → ℕ → Bytes → ExceptT Error FileProgram Bytes
  | 0, _, bytes => pure bytes
  | fuel + 1, limit, bytes => do
    if limit = 0 then pure bytes
    else
      let chunk ← read file bytes.length limit
      if chunk = [] then pure bytes
      else readToEndFrom file fuel (limit - chunk.length) (bytes ++ chunk)

def readToEnd (file limit : ℕ) : ExceptT Error FileProgram Bytes :=
  readToEndFrom file limit limit []

section rules
open Program
variable {σ φ α : Type} {step : σ → φ → (c : Call) → Reply c × σ} {co : Conduct σ}
  {P : σ → Prop} {p : Prop} [Decidable p] {message : String}

theorem yields_ensure (hP : co.Stable P) :
    Yields step co P (ensure p message) fun _ s => P s ∧ p := by
  unfold ensure
  split_ifs with h
  · exact yields_pure (hP.and fun _ _ _ _ hp => hp) fun s _ hs => ⟨hs, h⟩
  · exact yields_throw

theorem only_ensure {q : Call → Prop} : (ensure p message).run.Only q := by
  unfold ensure
  split_ifs
  · exact only_pure
  · exact only_throw

theorem only_orThrow {q : Call → Prop} {a? : Option α} : (orThrow message a?).run.Only q := by
  cases a? with
  | some a => exact only_pure
  | none => exact only_throw

/-- A list cut at a prefix of it. -/
theorem append_take_drop {α : Type} {front xs : List α} {n : ℕ} (h : front <+: xs)
    (hn : front.length ≤ n) :
    front ++ (xs.drop front.length).take (n - front.length) = xs.take n := by
  obtain ⟨rest, rfl⟩ := h
  rw [List.drop_left, List.take_append, List.take_of_length_le hn]

/-- What a read at the offset may give of the contents `c`: nothing only at their end. -/
def Chunk (c : Bytes) (offset limit : ℕ) (chunk : Bytes) : Prop :=
  ∃ n ≤ limit, chunk = (c.drop offset).take n ∧ (n = 0 → limit = 0)

section readToEnd
variable {k : ℕ} {c : Bytes} (hP : co.Stable P)
  (hread : ∀ offset limit, Yields step co P (read k offset limit) fun chunk s =>
    P s ∧ Chunk c offset limit chunk)
include hP hread

theorem yields_readToEndFrom {fuel limit : ℕ} {bytes : Bytes} (hfuel : limit ≤ fuel) :
    Yields step co P (readToEndFrom k fuel limit bytes)
      fun r s => P s ∧ r = bytes ++ (c.drop bytes.length).take limit := by
  have hpure {p : Prop} : co.Stable fun s => P s ∧ p := hP.and fun _ _ _ _ h => h
  induction fuel generalizing limit bytes with
  | zero =>
    refine yields_pure hpure fun s _ h => ⟨h, ?_⟩
    rw [Nat.le_zero.1 hfuel, List.take_zero, List.append_nil]
  | succ fuel ih =>
    rw [readToEndFrom]
    split_ifs with hlimit
    · refine yields_pure hpure fun s _ h => ⟨h, ?_⟩
      rw [hlimit, List.take_zero, List.append_nil]
    refine Yields.bind (hread _ _) fun chunk => yields_of_imp fun ⟨n, hn, hchunk, hzero⟩ => ?_
    have hlength : chunk.length ≤ limit := by
      rw [hchunk, List.length_take]
      exact (min_le_left _ _).trans hn
    have hrest : chunk ++ ((c.drop bytes.length).drop chunk.length).take (limit - chunk.length) =
        (c.drop bytes.length).take limit :=
      append_take_drop (hchunk ▸ List.take_prefix n _) hlength
    split_ifs with hempty
    · refine yields_pure hpure fun s _ h => ⟨h, ?_⟩
      have hend : c.drop bytes.length = [] := by
        rw [hempty, eq_comm, List.take_eq_nil_iff] at hchunk
        exact hchunk.resolve_left fun hn => hlimit (hzero hn)
      rw [hend, List.take_nil, List.append_nil]
    · have hpos := List.length_pos_iff.2 hempty
      have hfuel' : limit - chunk.length ≤ fuel := by omega
      refine (ih hfuel').consequence (fun _ _ h => h) fun r s _ h => ⟨h.1, ?_⟩
      rw [h.2, List.length_append, ← List.drop_drop, List.append_assoc, hrest]

theorem yields_readToEnd {limit : ℕ} :
    Yields step co P (readToEnd k limit) fun r s => P s ∧ r = c.take limit :=
  yields_readToEndFrom hP hread le_rfl

end readToEnd

section writeAll
variable {k : ℕ} {D : Bytes → σ → Prop} (hD : ∀ c, co.Stable (D c))
  (hwrite : ∀ c bytes, Yields step co (D c) (write k c.length bytes) fun count s =>
    D (c ++ bytes.take count) s ∧ count ≤ bytes.length)
include hD hwrite

theorem yields_writeAllFrom {fuel : ℕ} {contents bytes : Bytes} (hfuel : bytes.length ≤ fuel) :
    Yields step co (D contents) (writeAllFrom k fuel contents.length bytes)
      fun _ => D (contents ++ bytes) := by
  induction fuel generalizing contents bytes with
  | zero =>
    rw [List.eq_nil_of_length_eq_zero (Nat.le_zero.1 hfuel), List.append_nil]
    exact yields_pure (hD _) fun s _ h => h
  | succ fuel ih =>
    rw [writeAllFrom]
    split_ifs with hbytes
    · rw [hbytes, List.append_nil]
      exact yields_pure (hD _) fun s _ h => h
    refine Yields.bind (hwrite _ _) fun count => yields_of_imp fun hle => ?_
    split_ifs with hcount
    · exact yields_throw
    have hdrop : (bytes.drop count).length ≤ fuel := by
      rw [List.length_drop]
      omega
    have hlength : contents.length + count = (contents ++ bytes.take count).length := by
      rw [List.length_append, List.length_take, Nat.min_eq_left hle]
    rw [hlength]
    refine (ih hdrop).consequence (fun s _ h => h) fun _ s _ h => ?_
    rwa [List.append_assoc, List.take_append_drop] at h

/-- Whatever is written at once, all of it gets written. -/
theorem yields_writeAll {bytes : Bytes} :
    Yields step co (D []) (writeAll k bytes) fun _ => D bytes :=
  yields_writeAllFrom hD hwrite le_rfl

end writeAll

end rules

end Files
