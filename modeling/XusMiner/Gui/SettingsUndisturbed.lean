import XusMiner.Gui.SettingsBackup
import XusMiner.Library.CalmFiles

namespace XusMiner.Gui.Store
open ByteCodec Files Program

section trusted
variable (platform : Platform) (home : Path)

/-- What the program asks of the directory that the settings are in. -/
structure TrustedDirectory (d : Disk) (k : ℕ) : Prop where
  named : d.entries (settingsHome home) = some k
  kind : (d.inode k).kind = .directory
  owned : platform = .unix → (d.inode k).mode &&& 0o022 = 0 ∧
    ∃ j, d.follow Disk.maxLinks home = some j ∧ (d.inode j).kind ≠ .file ∧
      (d.inode k).owner = (d.inode j).owner

/-- What it asks of a file in the directory `k`. -/
structure TrustedFile (d : Disk) (k j : ℕ) : Prop where
  kind : (d.inode j).kind = .file
  owned : platform = .unix → (d.inode j).mode &&& 0o022 = 0 ∧ (d.inode j).owner = (d.inode k).owner

structure Trusted (d : Disk) (k : ℕ) : Prop where
  directory : TrustedDirectory platform home d k
  file : ∀ j, d.entries (settingsPath home) = some j → TrustedFile platform d k j
  backup : ∀ j, d.entries (settingsBackup home) = some j → TrustedFile platform d k j

/-- The file that is to be loaded. -/
def settled (d : Disk) : Option ℕ :=
  if platform = .windows then
    (d.entries (settingsPath home)).or (d.entries (settingsBackup home))
  else d.entries (settingsPath home)

end trusted

variable {platform : Platform} {home p : Path} {caller : Caller} {d t : Disk} {k j : ℕ}

section inspect

theorem parent_settingsHome : Path.parent (settingsHome home) = some home := parent_join _ _

theorem manages_verifySettingsDirectory (h : TrustedDirectory platform home d k) :
    Manages caller d (verifySettingsDirectory platform (settingsHome home))
      fun metadata t => metadata = d.describe k ∧ t = d := by
  refine manages_bind (manages_symlinkMetadata h.named).mapError ?_
  refine manages_then (manages_ensure ?_) (manages_then (manages_ensure ?_) ?_)
  · simp [Metadata.isLink, Disk.describe, h.kind]
  · simp [Metadata.isDir, Disk.describe, h.kind]
  refine manages_then ?_ (manages_pure ⟨rfl, rfl⟩)
  unfold verifyDirectoryOwner
  split_ifs with hunix
  · obtain ⟨hmode, j, hj, -, howner⟩ := h.owned hunix
    refine manages_bind (manages_orThrow parent_settingsHome) ?_
    refine manages_bind (manages_metadata hj).mapError ?_
    exact manages_then (manages_ensure howner) (manages_ensure hmode)
  · exact manages_pure rfl

theorem manages_inspectSettingsFile (h : TrustedDirectory platform home d k)
    (hfile : ∀ j, d.entries p = some j → TrustedFile platform d k j)
    (hp : Path.parent p = some (settingsHome home)) :
    Manages caller d (inspectSettingsFile platform p)
      fun r t => r = (d.entries p).map d.describe ∧ t = d := by
  unfold inspectSettingsFile
  cases hentry : d.entries p with
  | none =>
    refine manages_bind (manages_observe_free hentry) ?_
    exact manages_then (manages_ensure rfl) (manages_pure ⟨rfl, rfl⟩)
  | some j =>
    have htrusted := hfile j hentry
    refine manages_bind (manages_observe (manages_symlinkMetadata hentry)) ?_
    refine manages_then (manages_ensure ?_) (manages_then (manages_ensure ?_) ?_)
    · simp [Metadata.isLink, Disk.describe, htrusted.kind]
    · simp [Metadata.isFile, Disk.describe, htrusted.kind]
    refine manages_then ?_ (manages_pure ⟨rfl, rfl⟩)
    unfold verifyFileOwner
    split_ifs with hunix
    · obtain ⟨hmode, howner⟩ := htrusted.owned hunix
      refine manages_bind (manages_orThrow hp) ?_
      refine manages_bind (manages_verifySettingsDirectory h) ?_
      exact manages_then (manages_ensure howner) (manages_ensure hmode)
    · exact manages_pure rfl

end inspect

section recover

/-- What the recovery of the backup leaves. -/
def recovered (platform : Platform) (home : Path) (d : Disk) : Disk :=
  if platform = .windows then
    match d.entries (settingsPath home), d.entries (settingsBackup home) with
    | none, some k => d.rename (settingsBackup home) (settingsPath home) k
    | some _, some _ => d.remove (settingsBackup home)
    | _, _ => d
  else d

theorem manages_recoverWindowsSettings (h : Trusted platform home d k) :
    Manages caller d (recoverWindowsSettings platform (settingsPath home))
      fun _ t => t = recovered platform home d := by
  unfold recoverWindowsSettings recovered
  split_ifs with hwindows
  swap
  · exact manages_pure rfl
  refine manages_bind
    (manages_inspectSettingsFile h.directory h.file (settingsNames home).parent) ?_
  refine manages_bind
    (manages_inspectSettingsFile h.directory h.backup (settingsNames home).parent_backup) ?_
  cases hcurrent : d.entries (settingsPath home) <;>
    cases hbackup : d.entries (settingsBackup home) <;>
    rw [show d.entries (windowsSettingsBackup (settingsPath home)) = _ from hbackup]
  · exact manages_pure rfl
  · have hparent := hasParent_of_named (settingsNames home).parent h.directory.named
    refine (manages_rename hparent hbackup fun j hj => ?_).mapError
    rw [hcurrent] at hj
    cases hj
  · exact manages_pure rfl
  · refine (manages_removeFile hbackup ?_).mapError
    rw [(h.backup _ hbackup).kind]
    decide

variable (platform home) in
theorem recovered_inode : (recovered platform home d).inode = d.inode := by
  unfold recovered
  split_ifs
  · split
    · exact Disk.rename_inode
    · rfl
    · rfl
  · rfl

/-- The names beside the two are as they were. -/
theorem recovered_entries (hpath : p ≠ settingsPath home) (hbackup : p ≠ settingsBackup home) :
    (recovered platform home d).entries p = d.entries p := by
  unfold recovered
  split_ifs
  · split
    · rw [Disk.rename_entries (settingsNames home).apart.symm, if_neg hpath, if_neg hbackup]
    · exact Function.update_of_ne hbackup _ _
    · rfl
  · rfl

/-- The file that is to be loaded is at the path. -/
theorem recovered_path :
    (recovered platform home d).entries (settingsPath home) = settled platform home d := by
  unfold recovered settled
  split_ifs
  · split
    · rename_i j hpath hbackup
      rw [Disk.rename_entries (settingsNames home).apart.symm, if_pos rfl, hpath, hbackup,
        Option.none_or]
    · rename_i j hpath _
      change Function.update d.entries _ none (settingsPath home) = _
      rw [Function.update_of_ne (settingsNames home).apart, hpath, Option.some_or]
    · rename_i hnone hsome
      cases hpath : d.entries (settingsPath home) with
      | some j => exact Option.some_or.symm
      | none =>
        cases hbackup : d.entries (settingsBackup home) with
        | some j => exact absurd hbackup (hnone j hpath)
        | none => rfl
  · rfl

theorem recovered_backup (hwindows : platform = .windows) :
    (recovered platform home d).entries (settingsBackup home) = none := by
  unfold recovered
  rw [if_pos hwindows]
  split
  · rw [Disk.rename_entries (settingsNames home).apart.symm, if_neg (settingsNames home).apart.symm,
      if_pos rfl]
  · exact Function.update_self ..
  · rename_i hnone hsome
    cases hbackup : d.entries (settingsBackup home) with
    | none => rfl
    | some j =>
      cases hpath : d.entries (settingsPath home) with
      | none => exact absurd hbackup (hnone j hpath)
      | some i => exact absurd hbackup (hsome i j hpath)

theorem settled_trusted (h : Trusted platform home d k) (hj : settled platform home d = some j) :
    TrustedFile platform d k j := by
  unfold settled at hj
  split_ifs at hj
  · exact (Option.or_eq_some_iff.1 hj).elim (h.file j) fun hj => h.backup j hj.2
  · exact h.file j hj

theorem Trusted.recovered (h : Trusted platform home d k) :
    Trusted platform home (recovered platform home d) k := by
  have hfile (i : ℕ) (hi : TrustedFile platform d k i) :
      TrustedFile platform (Store.recovered platform home d) k i := by
    refine ⟨?_, fun hunix => ?_⟩ <;> rw [recovered_inode]
    · exact hi.kind
    · exact hi.owned hunix
  refine ⟨⟨?_, ?_, fun hunix => ?_⟩, fun i hi => hfile i ?_, fun i hi => hfile i ?_⟩
  · rw [recovered_entries (Path.parent_ne (settingsNames home).parent)
      (Path.parent_ne (settingsNames home).parent_backup)]
    exact h.directory.named
  · rw [recovered_inode]
    exact h.directory.kind
  · -- nothing is recovered on Unix, where owners are looked at
    have hsame : Store.recovered platform home d = d := by
      unfold Store.recovered
      rw [hunix]
      rfl
    rw [hsame]
    exact h.directory.owned hunix
  · rw [recovered_path] at hi
    exact settled_trusted h hi
  · by_cases hwindows : platform = .windows
    · rw [recovered_backup hwindows] at hi
      cases hi
    · unfold Store.recovered at hi
      rw [if_neg hwindows] at hi
      exact h.backup i hi

end recover

section load
variable {fromSlice : Bytes → Except String Value}

/-- Left alone, from the disk `d` on, the program returns `r`. -/
def Answers {ε α : Type} (caller : Caller) (d : Disk) (x : ExceptT ε FileProgram α)
    (r : Except ε α) : Prop :=
  Meets (fun s (fate : {fate // Calm fate}) => answer caller s fate.1) undisturbed (· = d) x.run
    fun r' _ => r' = r

theorem Answers.alone {ε α : Type} {x : ExceptT ε FileProgram α} {r : Except ε α}
    (h : Answers caller d x r) {fates : ℕ → Fate} (hfates : ∀ n, Calm (fates n)) :
    (x.run.alone (answer caller) fates d).1 = r := (h d trivial rfl).alone hfates

theorem answers_bind {α β : Type} {x : Io α} {a : α} {f : α → Io β} {r : Except String β}
    (hx : Manages caller d x fun b s => b = a ∧ s = t) (hf : Answers caller t (f a) r) :
    Answers caller d (x >>= f) r := by
  refine Meets.bind hx fun b => ?_
  rintro s hs ⟨a, rfl, rfl, rfl⟩
  exact hf s hs rfl

theorem answers_throw {α : Type} {message : String} :
    Answers caller d (throw message : Io α) (.error message) :=
  meets_done Conduct.solo_stable fun _ _ _ => rfl

theorem answers_ensure {α : Type} {q : Prop} [Decidable q] {message : String} {f : Unit → Io α}
    {r : Except String α} (h : q → Answers caller d (f ()) r) (hnot : ¬q → r = .error message) :
    Answers caller d (ensure q message >>= f) r := by
  by_cases hq : q
  · exact answers_bind (t := d) (a := ())
      ((manages_ensure hq).consequence (fun _ h => h) fun _ _ h => ⟨rfl, h⟩) (h hq)
  · rw [ensure, if_neg hq, hnot hq]
    exact answers_throw

/-- Left alone, a load reads the file as a whole. -/
theorem answers_loadSettingsAt (h : Trusted platform home d k) :
    Answers caller d (loadSettingsAt platform fromSlice (settingsPath home))
      (match settled platform home d with
        | none => .error "settings file does not exist"
        | some j => Gui.loadSettingsAt fromSlice (d.inode j).contents) := by
  unfold loadSettingsAt
  rw [parent_settingsPath]
  refine answers_bind (manages_orThrow rfl) ?_
  refine answers_bind (manages_verifySettingsDirectory h.directory) ?_
  refine answers_bind (a := ()) (t := recovered platform home d)
    ((manages_recoverWindowsSettings h).consequence (fun _ h => h) fun _ _ h => ⟨rfl, h⟩) ?_
  have hrecovered := h.recovered
  refine answers_bind (manages_inspectSettingsFile hrecovered.directory hrecovered.file
    (settingsNames home).parent) ?_
  rw [recovered_path]
  cases hsettled : settled platform home d with
  | none => exact answers_throw
  | some j =>
    have hj : (recovered platform home d).entries (settingsPath home) = some j := by
      rw [recovered_path, hsettled]
    have htrusted := hrecovered.file j hj
    rw [← recovered_inode platform home]
    set s := recovered platform home d
    refine answers_bind (manages_orThrow rfl) ?_
    refine answers_ensure (fun hlen => ?_) fun hlen => ?_
    swap
    · exact loadSettingsAt_of_lt (not_le.1 hlen)
    have hlink (target : Path) : (s.inode j).kind ≠ .link target := by
      rw [htrusted.kind]
      nofun
    refine answers_bind (manages_openFile hj hlink).mapError ?_
    refine answers_bind manages_fileMetadata.mapError ?_
    refine answers_ensure (fun _ => ?_) fun hnot => absurd ⟨?_, ?_, hlen⟩ hnot
    · refine answers_ensure (fun _ => ?_) fun hnot => absurd (fun _ => rfl) hnot
      refine answers_bind manages_readToEnd.mapError ?_
      rw [List.take_of_length_le (hlen.trans (Nat.le_succ _))]
      refine answers_ensure (fun _ => ?_) fun hnot => absurd hlen hnot
      dsimp only
      rw [loadSettingsAt_of_le hlen]
      cases fromSlice (s.inode j).contents with
      | ok value => exact meets_done Conduct.solo_stable fun _ _ _ => rfl
      | error error => exact answers_throw
    · simp [Metadata.isLink, Disk.describe, htrusted.kind]
    · simp [Metadata.isFile, Disk.describe, htrusted.kind]

end load

section preserves

/-- No inode changes but in its contents, and no name but those of regular files. -/
structure Preserves (d t : Disk) : Prop where
  unused : d.unused ≤ t.unused
  kind : ∀ j < d.unused, (t.inode j).kind = (d.inode j).kind
  owner : ∀ j < d.unused, (t.inode j).owner = (d.inode j).owner
  mode : ∀ j < d.unused, (t.inode j).mode = (d.inode j).mode
  named : ∀ q j, d.entries q = some j → (d.inode j).kind ≠ .file → t.entries q = some j

theorem Preserves.follow (h : Preserves d t) (hd : d.Made) {fuel : ℕ}
    (hj : d.follow fuel p = some j) (hfile : (d.inode j).kind ≠ .file) :
    t.follow fuel p = some j ∧ j < d.unused := by
  induction fuel generalizing p with
  | zero => cases hj
  | succ fuel ih =>
    obtain ⟨i, hi, hlink⟩ := Option.bind_eq_some_iff.1 hj
    have hlt := hd _ d.entries_mem_layouts p i hi
    rw [Disk.follow]
    split at hlink
    · rename_i target hkind
      have hnotfile : (d.inode i).kind ≠ .file := by
        rw [hkind]
        intro hfile
        cases hfile
      rw [h.named p i hi hnotfile, Option.bind_some, h.kind i hlt, hkind]
      exact ih hlink
    · rename_i hnotlink
      cases hlink
      rw [h.named p j hi hfile, Option.bind_some, h.kind j hlt]
      refine ⟨?_, hlt⟩
      split
      · exact absurd ‹_› (hnotlink _)
      · rfl

theorem TrustedFile.of_preserves (h : TrustedFile platform d k j) (hp : Preserves d t)
    (hk : k < d.unused) (hj : j < d.unused) : TrustedFile platform t k j := by
  refine ⟨(hp.kind j hj).trans h.kind, fun hunix => ?_⟩
  rw [hp.mode j hj, hp.owner j hj, hp.owner k hk]
  exact h.owned hunix

theorem TrustedDirectory.of_preserves (h : TrustedDirectory platform home d k)
    (hp : Preserves d t) (hd : d.Made) : TrustedDirectory platform home t k := by
  have hk := hd _ d.entries_mem_layouts _ k h.named
  have hfile : (d.inode k).kind ≠ .file := by
    rw [h.kind]
    decide
  refine ⟨hp.named _ k h.named hfile, (hp.kind k hk).trans h.kind, fun hunix => ?_⟩
  obtain ⟨hmode, j, hj, hjfile, howner⟩ := h.owned hunix
  obtain ⟨hfollow, hlt⟩ := hp.follow hd hj hjfile
  rw [hp.mode k hk, hp.owner k hk]
  refine ⟨hmode, j, hfollow, ?_, ?_⟩
  · rwa [hp.kind j hlt]
  · rw [howner, hp.owner j hlt]

theorem preserves_create {inode : Inode} (hfree : d.entries p = none) :
    Preserves d (d.create p inode) := by
  have hinode (j : ℕ) (hj : j < d.unused) : (d.create p inode).inode j = d.inode j :=
    Disk.create_inode_of_lt hj
  refine ⟨Nat.le_succ _, fun j hj => by rw [hinode j hj], fun j hj => by rw [hinode j hj],
    fun j hj => by rw [hinode j hj], fun q j hq _ => ?_⟩
  have hne : q ≠ p := by
    rintro rfl
    rw [hfree] at hq
    cases hq
  rw [Disk.create_entries, Function.update_of_ne hne, hq]

/-- The inode keeps what it is. -/
theorem preserves_setInode {inode : Inode} (hkind : inode.kind = (d.inode j).kind)
    (howner : inode.owner = (d.inode j).owner) (hmode : inode.mode = (d.inode j).mode) :
    Preserves d (d.setInode j inode) := by
  refine ⟨le_rfl, fun i _ => ?_, fun i _ => ?_, fun i _ => ?_, fun q i hq _ => hq⟩
  all_goals
    rw [Disk.setInode_inode]
    split_ifs with h
  all_goals first | rfl | rw [h]
  · exact hkind
  · exact howner
  · exact hmode

theorem preserves_sync : Preserves d (d.sync j) := by
  have h : Preserves d (d.setInode j { d.inode j with synced := true }) :=
    preserves_setInode rfl rfl rfl
  exact ⟨h.unused, h.kind, h.owner, h.mode, h.named⟩

theorem preserves_relink (hinode : t.inode = d.inode) (hunused : t.unused = d.unused)
    (hnamed : ∀ q j, d.entries q = some j → (d.inode j).kind ≠ .file → t.entries q = some j) :
    Preserves d t := by
  refine ⟨hunused.ge, fun i _ => ?_, fun i _ => ?_, fun i _ => ?_, hnamed⟩ <;> rw [hinode]

theorem preserves_rename {source destination : Path} (hne : source ≠ destination)
    (hj : d.entries source = some j) (hfile : (d.inode j).kind = .file)
    (hdestination : ∀ i, d.entries destination = some i → (d.inode i).kind = .file) :
    Preserves d (d.rename source destination j) := by
  refine preserves_relink Disk.rename_inode Disk.rename_unused fun q i hq hkind => ?_
  have hqd : q ≠ destination := by
    rintro rfl
    exact hkind (hdestination i hq)
  have hqs : q ≠ source := by
    rintro rfl
    rw [hj] at hq
    cases hq
    exact hkind hfile
  rw [Disk.rename_entries hne, if_neg hqd, if_neg hqs, hq]

theorem preserves_remove (hfile : ∀ i, d.entries p = some i → (d.inode i).kind = .file) :
    Preserves d (d.remove p) := by
  refine preserves_relink rfl rfl fun q i hq hkind => ?_
  have hqp : q ≠ p := by
    rintro rfl
    exact hkind (hfile i hq)
  exact (Function.update_of_ne hqp _ _).trans hq

end preserves

section save

/-- The settings have a directory of the user who saves them. -/
structure Prepared (platform : Platform) (home : Path) (caller : Caller) (d : Disk) (k : ℕ) :
    Prop where
  made : d.Made
  trusted : Trusted platform home d k
  mine : platform = .unix → (d.inode k).owner = caller.user

theorem Prepared.lt (h : Prepared platform home caller d k) : k < d.unused :=
  h.made _ d.entries_mem_layouts _ k h.trusted.directory.named

theorem Prepared.of_preserves (h : Prepared platform home caller d k) (hp : Preserves d t)
    (hmade : t.Made)
    (hpath : ∀ j, t.entries (settingsPath home) = some j → TrustedFile platform t k j)
    (hbackup : ∀ j, t.entries (settingsBackup home) = some j → TrustedFile platform t k j) :
    Prepared platform home caller t k :=
  ⟨hmade, ⟨h.trusted.directory.of_preserves hp h.made, hpath, hbackup⟩,
    fun hunix => (hp.owner k h.lt).trans (h.mine hunix)⟩

/-- Both names keep their files. -/
theorem Prepared.of_same (h : Prepared platform home caller d k) (hp : Preserves d t)
    (hmade : t.Made) (hpath : t.entries (settingsPath home) = d.entries (settingsPath home))
    (hbackup : t.entries (settingsBackup home) = d.entries (settingsBackup home)) :
    Prepared platform home caller t k := by
  have hfile (p : Path) (j : ℕ) (hj : d.entries p = some j) (hfile : TrustedFile platform d k j) :
      TrustedFile platform t k j :=
    hfile.of_preserves hp h.lt (h.made _ d.entries_mem_layouts p j hj)
  refine h.of_preserves hp hmade (fun j hj => ?_) fun j hj => ?_
  · exact hfile _ j (hpath ▸ hj) (h.trusted.file j (hpath ▸ hj))
  · exact hfile _ j (hbackup ▸ hj) (h.trusted.backup j (hbackup ▸ hj))

/-- A new file of the user, ready to be put at the path. -/
structure Staged (platform : Platform) (home : Path) (caller : Caller) (p : Path) (j : ℕ)
    (bytes : Bytes) (d : Disk) (k : ℕ) : Prop where
  prepared : Prepared platform home caller d k
  named : d.entries p = some j
  file : TrustedFile platform d k j
  contents : (d.inode j).contents = bytes

/-- The settings are where a load finds them. -/
structure Installed (platform : Platform) (home : Path) (caller : Caller) (bytes : Bytes)
    (d : Disk) : Prop where
  prepared : ∃ k, Prepared platform home caller d k
  settled : ∃ j, settled platform home d = some j ∧ (d.inode j).contents = bytes

theorem Prepared.recovered (h : Prepared platform home caller d k) :
    Prepared platform home caller (recovered platform home d) k := by
  refine ⟨?_, h.trusted.recovered, fun hunix => ?_⟩
  · unfold Store.recovered
    split_ifs
    · split
      · exact h.made.rename (settingsNames home).apart.symm ‹_›
      · exact h.made.remove
      · exact h.made
    · exact h.made
  · rw [recovered_inode]
    exact h.mine hunix

/-- The mode of what is made gives no one else the right to write. -/
theorem private_mode (umask : UInt32) :
    (0o700 &&& ~~~umask) &&& 0o022 = 0 ∧ (0o600 &&& ~~~umask) &&& 0o022 = 0 := by
  constructor <;> rw [UInt32.and_assoc, UInt32.and_comm (~~~umask), ← UInt32.and_assoc]
  · exact UInt32.zero_and
  · exact UInt32.zero_and

theorem manages_createTemporary {process left attempt : ℕ} {sequence : UInt64}
    (hdirectory : d.entries (settingsHome home) = some k)
    (h : ∃ i < left, ∀ nonce, d.entries (Path.join (settingsHome home)
      (temporaryName process nonce (sequence + UInt64.ofNat i) (attempt + i))) = none) :
    Manages caller d (createTemporary platform (settingsHome home) process left attempt sequence)
      fun temporary t => ∃ nonce sequence attempt, temporary = (Path.join (settingsHome home)
        (temporaryName process nonce sequence attempt), d.unused) ∧ d.entries temporary.1 = none ∧
        t = d.create temporary.1
          (caller.made .file (if platform = .unix then 0o600 else 0o666)) := by
  induction left generalizing attempt sequence with
  | zero =>
    obtain ⟨i, hi, -⟩ := h
    exact absurd hi (Nat.not_lt_zero i)
  | succ left ih =>
    refine Succeeds.bind (R := fun _ t => t = d) (Meets.bind (R := fun _ t => t = d)
      (calm_perform (c := Call.now) fun s fate _ hs => hs) fun r => succeeds_pure fun _ h => h)
      fun nonce => ?_
    set p := Path.join (settingsHome home) (temporaryName process nonce sequence attempt)
    have hparent : d.hasParent p = true := hasParent_of_named (parent_join _ _) hdirectory
    cases hp : d.entries p with
    | none =>
      refine manages_bind (manages_observe (manages_createNew hparent hp)) ?_
      exact manages_pure ⟨nonce, sequence, attempt, rfl, hp, rfl⟩
    | some k' =>
      refine manages_bind (manages_observe_taken hparent hp) ?_
      refine manages_then (manages_ensure rfl) (ih ?_)
      obtain ⟨i, hi, hfree⟩ := h
      cases i with
      | zero =>
        have htaken := hfree nonce
        rw [show UInt64.ofNat 0 = 0 from rfl, UInt64.add_zero, Nat.add_zero] at htaken
        exact absurd (hp.symm.trans htaken) (Option.some_ne_none k')
      | succ i =>
        refine ⟨i, Nat.lt_of_succ_lt_succ hi, fun nonce => ?_⟩
        have hnext := hfree nonce
        rwa [show UInt64.ofNat (i + 1) = 1 + UInt64.ofNat i by
          rw [UInt64.ofNat_add, UInt64.add_comm]; rfl, ← UInt64.add_assoc,
          show attempt + (i + 1) = attempt + 1 + i by omega] at hnext

/-- A new file that has been written and synced is ready to be put at the path. -/
theorem Prepared.staged {process nonce attempt : ℕ} {sequence : UInt64}
    (h : Prepared platform home caller d k) (bytes : Bytes)
    (hp : p = Path.join (settingsHome home) (temporaryName process nonce sequence attempt))
    (hfree : d.entries p = none) {t : Disk}
    (ht : t = d.create p (caller.made .file (if platform = .unix then 0o600 else 0o666))) :
    Staged platform home caller p d.unused bytes ((t.setInode d.unused
      { t.inode d.unused with contents := bytes, synced := false }).sync d.unused) k := by
  have hpath : p ≠ settingsPath home := hp ▸ temporary_ne_path home
  have hbackup : p ≠ settingsBackup home := hp ▸ temporary_ne_backup home
  have hinode : t.inode d.unused =
      caller.made .file (if platform = .unix then 0o600 else 0o666) := by
    rw [ht, Disk.create_inode, if_pos rfl]
  have hcreated : Prepared platform home caller t k := by
    rw [ht]
    exact h.of_same (preserves_create hfree) h.made.create (Disk.create_path hpath)
      (Disk.create_path hbackup)
  set u := t.setInode d.unused { t.inode d.unused with contents := bytes, synced := false } with hu
  have hwritten : Prepared platform home caller u k :=
    hcreated.of_same (preserves_setInode rfl rfl rfl) hcreated.made rfl rfl
  have hsynced : Prepared platform home caller (u.sync d.unused) k :=
    hwritten.of_same preserves_sync hwritten.made.sync rfl rfl
  have hlast : (u.sync d.unused).inode d.unused = { caller.made .file
      (if platform = .unix then 0o600 else 0o666) with contents := bytes, synced := true } := by
    rw [Disk.sync_inode, if_pos rfl, hu, Disk.setInode_inode, if_pos rfl, hinode]
  refine ⟨hsynced, ?_, ⟨?_, fun hunix => ?_⟩, ?_⟩
  · change t.entries p = _
    rw [ht, Disk.create_entries, Function.update_self]
  · rw [hlast]
    rfl
  · rw [hlast, hsynced.mine hunix, if_pos hunix]
    exact ⟨(private_mode caller.umask).2, rfl⟩
  · rw [hlast]

section replace
variable {bytes : Bytes}

/-- The file is renamed to the path, which is free or another file's. -/
theorem Staged.install (h : Staged platform home caller p j bytes d k)
    (hpath : p ≠ settingsPath home) (hbackup : p ≠ settingsBackup home) :
    Prepared platform home caller (d.rename p (settingsPath home) j) k ∧
      (d.rename p (settingsPath home) j).entries (settingsPath home) = some j ∧
      ((d.rename p (settingsPath home) j).inode j).contents = bytes := by
  have hprepared := h.prepared
  have hp : Preserves d (d.rename p (settingsPath home) j) :=
    preserves_rename hpath h.named h.file.kind fun i hi => (hprepared.trusted.file i hi).kind
  have hdone : (d.rename p (settingsPath home) j).entries (settingsPath home) = some j := by
    rw [Disk.rename_entries hpath, if_pos rfl]
  have hlt (q : Path) (i : ℕ) (hi : d.entries q = some i) : i < d.unused :=
    hprepared.made _ d.entries_mem_layouts q i hi
  refine ⟨hprepared.of_preserves hp (hprepared.made.rename hpath h.named) (fun i hi => ?_)
    fun i hi => ?_, hdone, ?_⟩
  · rw [hdone] at hi
    cases hi
    exact h.file.of_preserves hp hprepared.lt (hlt p j h.named)
  · rw [Disk.rename_entries hpath, if_neg (settingsNames home).apart.symm,
      if_neg hbackup.symm] at hi
    exact (hprepared.trusted.backup i hi).of_preserves hp hprepared.lt (hlt _ i hi)
  · rw [Disk.rename_inode, h.contents]

theorem Installed.of_path (h : Prepared platform home caller d k)
    (hj : d.entries (settingsPath home) = some j) (hcontents : (d.inode j).contents = bytes) :
    Installed platform home caller bytes d := by
  refine ⟨⟨k, h⟩, j, ?_, hcontents⟩
  unfold Store.settled
  rw [hj, Option.some_or, ite_self]

theorem Staged.recovered (h : Staged platform home caller p j bytes d k)
    (hpath : p ≠ settingsPath home) (hbackup : p ≠ settingsBackup home) :
    Staged platform home caller p j bytes (recovered platform home d) k := by
  refine ⟨h.prepared.recovered, ?_, ⟨?_, fun hunix => ?_⟩, ?_⟩
  · rw [recovered_entries hpath hbackup, h.named]
  · rw [recovered_inode, h.file.kind]
  · rw [recovered_inode]
    exact h.file.owned hunix
  · rw [recovered_inode, h.contents]

/-- The old file becomes the backup. -/
theorem Staged.stage {i : ℕ} (h : Staged platform home caller p j bytes d k)
    (hpath : p ≠ settingsPath home) (hbackup : p ≠ settingsBackup home)
    (hi : d.entries (settingsPath home) = some i) :
    Staged platform home caller p j bytes
      (d.rename (settingsPath home) (settingsBackup home) i) k := by
  have hne := (settingsNames home).apart
  have hprepared := h.prepared
  have hold := hprepared.trusted.file i hi
  have hp : Preserves d (d.rename (settingsPath home) (settingsBackup home) i) :=
    preserves_rename hne hi hold.kind fun i hi => (hprepared.trusted.backup i hi).kind
  have hlt (q : Path) (i : ℕ) (hi : d.entries q = some i) : i < d.unused :=
    hprepared.made _ d.entries_mem_layouts q i hi
  refine ⟨hprepared.of_preserves hp (hprepared.made.rename hne hi) (fun i' hi' => ?_)
    fun i' hi' => ?_, ?_, h.file.of_preserves hp hprepared.lt (hlt p j h.named), ?_⟩
  · rw [Disk.rename_entries hne, if_neg hne, if_pos rfl] at hi'
    cases hi'
  · rw [Disk.rename_entries hne, if_pos rfl] at hi'
    cases hi'
    exact hold.of_preserves hp hprepared.lt (hlt _ i hi)
  · rw [Disk.rename_entries hne, if_neg hbackup, if_neg hpath, h.named]
  · rw [Disk.rename_inode, h.contents]

/-- What is left to do when the path is free: the file gets its place, and the backup goes. -/
theorem manages_installWindows (h : Staged platform home caller p j bytes d k)
    (hpath : p ≠ settingsPath home) (hbackup : p ≠ settingsBackup home) :
    Manages caller d (do
      let installed ← observe (rename p (settingsPath home))
      match installed with
      | .ok () => do
        let staged ← pathExists (settingsBackup home)
        if staged then
          describing "cannot remove old settings backup" (removeFile (settingsBackup home))
        else pure ()
      | .error error => do
        let _ ←
          (observe (rename (settingsBackup home) (settingsPath home)) : Io (Except Error Unit))
        throw ("cannot install settings: " ++ error.message))
      fun _ t => Installed platform home caller bytes t := by
  obtain ⟨hprepared, hdone, hcontents⟩ := h.install hpath hbackup
  have hparent := hasParent_of_named (settingsNames home).parent h.prepared.trusted.directory.named
  refine manages_bind (manages_observe_unit (manages_rename hparent h.named fun i hi => ?_)) ?_
  · rw [(h.prepared.trusted.file i hi).kind]
    decide
  set t := d.rename p (settingsPath home) j
  refine manages_bind manages_pathExists ?_
  split_ifs with hexists
  · cases hi : t.entries (settingsBackup home) with
    | none =>
      rw [Disk.maxLinks, Disk.follow, hi] at hexists
      cases hexists
    | some i =>
      have hfile := (hprepared.trusted.backup i hi).kind
      refine Succeeds.mapError ((manages_removeFile hi (by rw [hfile]; decide)).consequence
        (fun _ h => h) ?_)
      rintro _ s rfl
      have hkept : (t.remove (settingsBackup home)).entries (settingsPath home) = some j :=
        (Function.update_of_ne (settingsNames home).apart _ _).trans hdone
      refine Installed.of_path (hprepared.of_preserves (preserves_remove fun i hi =>
        (hprepared.trusted.backup i hi).kind) hprepared.made.remove (fun i hi => ?_) fun i hi => ?_)
        hkept hcontents
      · have htrusted := hprepared.trusted.file i (hdone.trans (hkept.symm.trans hi))
        exact ⟨htrusted.kind, htrusted.owned⟩
      · have hgone : (t.remove (settingsBackup home)).entries (settingsBackup home) = none :=
          Function.update_self ..
        exact absurd (hgone.symm.trans hi) (Option.some_ne_none i).symm
  · exact manages_pure (Installed.of_path hprepared hdone hcontents)

theorem manages_replaceSettingsFile (h : Staged platform home caller p j bytes d k)
    (hpath : p ≠ settingsPath home) (hbackup : p ≠ settingsBackup home) :
    Manages caller d (replaceSettingsFile platform (settingsPath home) p)
      fun _ t => Installed platform home caller bytes t := by
  unfold replaceSettingsFile
  split_ifs with hwindows
  · refine manages_then (manages_recoverWindowsSettings h.prepared.trusted) ?_
    have hstaged := h.recovered hpath hbackup
    have hfree : (recovered platform home d).entries (settingsBackup home) = none :=
      recovered_backup hwindows
    set s := recovered platform home d
    refine manages_bind (manages_inspectSettingsFile hstaged.prepared.trusted.directory
      hstaged.prepared.trusted.file (settingsNames home).parent) ?_
    cases hcurrent : s.entries (settingsPath home) with
    | none => exact manages_then (manages_pure rfl) (manages_installWindows hstaged hpath hbackup)
    | some i =>
      refine manages_then (t := s.rename (settingsPath home) (settingsBackup home) i) ?_
        (manages_installWindows (hstaged.stage hpath hbackup hcurrent) hpath hbackup)
      have hparent := hasParent_of_named (settingsNames home).parent_backup
        hstaged.prepared.trusted.directory.named
      refine (manages_rename hparent hcurrent fun i hi => ?_).mapError
      exact absurd (hfree.symm.trans hi) (Option.some_ne_none i).symm
  · have hparent :=
      hasParent_of_named (settingsNames home).parent h.prepared.trusted.directory.named
    refine Succeeds.mapError
      ((manages_rename hparent h.named fun i hi => ?_).consequence (fun _ h => h) ?_)
    · rw [(h.prepared.trusted.file i hi).kind]
      decide
    · rintro _ s rfl
      obtain ⟨hprepared, hdone, hcontents⟩ := h.install hpath hbackup
      exact Installed.of_path hprepared hdone hcontents

theorem manages_syncDirectory {context : String} (h : Installed platform home caller bytes d) :
    Manages caller d (syncDirectory platform context (settingsHome home))
      fun _ t => Installed platform home caller bytes t := by
  unfold syncDirectory
  split_ifs with hunix
  swap
  · exact manages_pure h
  obtain ⟨⟨k, hk⟩, j, hj, hcontents⟩ := h
  have hdirectory := hk.trusted.directory
  have hlink (target : Path) : (d.inode k).kind ≠ .link target := by
    rw [hdirectory.kind]
    nofun
  refine Succeeds.mapError (manages_bind (manages_openFile hdirectory.named hlink) ?_)
  refine manages_syncAll.consequence (fun _ h => h) ?_
  rintro _ s rfl
  refine ⟨⟨k, hk.of_same preserves_sync hk.made.sync rfl rfl⟩, j, hj, ?_⟩
  rw [Disk.sync_inode]
  split_ifs with hjk
  · rw [← hjk, hcontents]
  · exact hcontents

end replace

/-- One of the names for a temporary file is free, whatever the clock says. -/
def Vacant (home : Path) (process : ℕ) (sequence : UInt64) (d : Disk) : Prop :=
  ∃ i < 32, ∀ nonce, d.entries (Path.join (settingsHome home)
    (temporaryName process nonce (sequence + UInt64.ofNat i) (0 + i))) = none

/-- The settings have a directory, or there is nothing yet in the home directory of the user. -/
inductive Ready (platform : Platform) (home : Path) (caller : Caller) (d : Disk) : Prop
  | prepared (k : ℕ) (h : Prepared platform home caller d k)
  | fresh (hmade : d.Made) (hparent : d.hasParent (settingsHome home) = true)
    (hdirectory : d.entries (settingsHome home) = none)
    (hpath : d.entries (settingsPath home) = none)
    (hbackup : d.entries (settingsBackup home) = none)
    (hhome : platform = .unix → ∃ j, d.follow Disk.maxLinks home = some j ∧
      (d.inode j).kind ≠ .file ∧ (d.inode j).owner = caller.user)

/-- The directory that the program makes is one it trusts. -/
theorem prepared_create (hmade : d.Made) (hdirectory : d.entries (settingsHome home) = none)
    (hpath : d.entries (settingsPath home) = none)
    (hbackup : d.entries (settingsBackup home) = none)
    (hhome : platform = .unix → ∃ j, d.follow Disk.maxLinks home = some j ∧
      (d.inode j).kind ≠ .file ∧ (d.inode j).owner = caller.user) :
    Prepared platform home caller (d.create (settingsHome home)
      (caller.made .directory (if platform = .unix then 0o700 else 0o777))) d.unused := by
  set mode : UInt32 := if platform = .unix then 0o700 else 0o777 with hmode
  set t := d.create (settingsHome home) (caller.made .directory mode) with ht
  have hinode : t.inode d.unused = caller.made .directory mode := by
    rw [ht, Disk.create_inode, if_pos rfl]
  have hkept (p : Path) (hne : settingsHome home ≠ p) : t.entries p = d.entries p :=
    Disk.create_path hne
  refine ⟨hmade.create, ⟨⟨?_, ?_, fun hunix => ?_⟩, fun j hj => ?_, fun j hj => ?_⟩, fun _ => ?_⟩
  · rw [ht, Disk.create_entries, Function.update_self]
  · rw [hinode]
    rfl
  · have hp : Preserves d t := preserves_create hdirectory
    obtain ⟨j, hj, hfile, howner⟩ := hhome hunix
    obtain ⟨hfollow, hlt⟩ := hp.follow hmade hj hfile
    rw [hinode, hmode, if_pos hunix]
    refine ⟨(private_mode caller.umask).1, j, hfollow, ?_, ?_⟩
    · rwa [hp.kind j hlt]
    · rw [hp.owner j hlt, howner]
      rfl
  · rw [hkept _ (settingsHome_ne home), hpath] at hj
    cases hj
  · rw [hkept _ (Path.parent_ne (settingsNames home).parent_backup), hbackup] at hj
    cases hj
  · rw [hinode]
    rfl

theorem Vacant.create {process : ℕ} {sequence : UInt64} {inode : Inode}
    (h : Vacant home process sequence d) :
    Vacant home process sequence (d.create (settingsHome home) inode) := by
  obtain ⟨i, hi, hfree⟩ := h
  exact ⟨i, hi, fun nonce =>
    (Disk.create_path (Path.parent_ne (parent_join _ _))).trans (hfree nonce)⟩

theorem manages_ensureSettingsDirectory {process : ℕ} {sequence : UInt64}
    (h : Ready platform home caller d) (hvacant : Vacant home process sequence d) :
    Manages caller d (ensureSettingsDirectory platform (settingsHome home))
      fun _ t => ∃ k, Prepared platform home caller t k ∧ Vacant home process sequence t := by
  have hverify (s : Disk) (k : ℕ) (hk : Prepared platform home caller s k)
      (hs : Vacant home process sequence s) : Manages caller s
        (do let _ ← verifySettingsDirectory platform (settingsHome home); return : Io Unit)
        fun _ t => ∃ k, Prepared platform home caller t k ∧ Vacant home process sequence t :=
    manages_bind (manages_verifySettingsDirectory hk.trusted.directory) (manages_pure ⟨k, hk, hs⟩)
  cases h with
  | prepared k hk =>
    refine manages_bind (manages_observe (manages_symlinkMetadata hk.trusted.directory.named)) ?_
    exact hverify d k hk hvacant
  | fresh hmade hparent hdirectory hpath hbackup hhome =>
    refine manages_bind (manages_observe_free hdirectory) ?_
    refine manages_then (manages_ensure rfl) ?_
    refine manages_bind (manages_observe_unit (manages_createDir hparent hdirectory)) ?_
    exact hverify _ _ (prepared_create hmade hdirectory hpath hbackup hhome) hvacant.create

theorem Vacant.recovered {process : ℕ} {sequence : UInt64} (h : Vacant home process sequence d) :
    Vacant home process sequence (recovered platform home d) := by
  obtain ⟨i, hi, hfree⟩ := h
  exact ⟨i, hi, fun nonce =>
    (recovered_entries (temporary_ne_path home) (temporary_ne_backup home)).trans (hfree nonce)⟩

theorem manages_saveBytesAt {process : ℕ} {sequence : UInt64} {bytes : Bytes}
    (h : Ready platform home caller d) (hvacant : Vacant home process sequence d) :
    Manages caller d (saveBytesAt platform process sequence (settingsPath home) bytes)
      fun _ t => Installed platform home caller bytes t := by
  unfold saveBytesAt
  rw [parent_settingsPath]
  refine manages_bind (manages_orThrow rfl) ?_
  refine Succeeds.bind (manages_ensureSettingsDirectory h hvacant) fun _ s hs ⟨k, hk, hvacant⟩ => ?_
  refine manages_then (manages_recoverWindowsSettings hk.trusted) ?_ s hs rfl
  have hprepared := hk.recovered
  refine manages_bind (manages_inspectSettingsFile hprepared.trusted.directory
    hprepared.trusted.file (settingsNames home).parent) ?_
  refine Succeeds.bind (manages_createTemporary hprepared.trusted.directory.named
    hvacant.recovered) fun temporary t ht h => ?_
  obtain ⟨nonce, sequence, attempt, rfl, hfree, rfl⟩ := h
  set u := recovered platform home s
  set p := Path.join (settingsHome home) (temporaryName process nonce sequence attempt) with hp
  set v := u.create p (caller.made .file (if platform = .unix then 0o600 else 0o666)) with hv
  have hmade : v.inode u.unused =
      caller.made .file (if platform = .unix then 0o600 else 0o666) := by
    rw [hv, Disk.create_inode, if_pos rfl]
  have hstaged := hprepared.staged bytes hp hfree hv
  refine manages_then (Succeeds.mapError (manages_then (manages_writeAll (by rw [hmade]; rfl)
    (by rw [hmade]; rfl)) manages_syncAll)) ?_ v ht rfl
  refine manages_bind (manages_verifySettingsDirectory hstaged.prepared.trusted.directory) ?_
  refine manages_bind (manages_inspectSettingsFile hstaged.prepared.trusted.directory
    hstaged.prepared.trusted.file (settingsNames home).parent) ?_
  refine Succeeds.bind (manages_replaceSettingsFile hstaged (temporary_ne_path home)
    (temporary_ne_backup home)) fun _ w hw hinstalled => ?_
  exact manages_syncDirectory hinstalled w hw rfl

/-- Left alone, a save succeeds, and what is loaded next is read from the bytes that were saved. -/
theorem load_of_saved {process : ℕ} {sequence : UInt64} {settings : Settings}
    {float : UInt64 → List Char} {fromSlice : Bytes → Except String Value}
    (h : Ready platform home caller d) (hvacant : Vacant home process sequence d)
    {fates fates' : ℕ → Fate} (hfates : ∀ n, Calm (fates n)) (hfates' : ∀ n, Calm (fates' n)) :
    let save := (saveSettingsAt platform float process sequence (settingsPath home) settings).run
    let load := (loadSettingsAt platform fromSlice (settingsPath home)).run
    (save.alone (answer caller) fates d).1 = .ok () ∧
      (load.alone (answer caller) fates' (save.alone (answer caller) fates d).2).1 =
        Gui.loadSettingsAt fromSlice (Gui.saveSettingsAt float settings) := by
  intro save load
  have hsave : Manages caller d
      (saveSettingsAt platform float process sequence (settingsPath home) settings)
      fun _ t => Installed platform home caller (Gui.saveSettingsAt float settings) t :=
    manages_saveBytesAt h hvacant
  obtain ⟨u, hu, ⟨k, hk⟩, j, hj, hcontents⟩ := hsave.alone hfates rfl
  refine ⟨hu, ((answers_loadSettingsAt hk.trusted).alone hfates').trans ?_⟩
  rw [hj]
  exact congrArg (Gui.loadSettingsAt fromSlice) hcontents

/-- A disk with nothing but a home directory. -/
def emptyDisk (home : Path) : Disk where
  inode _ := ⟨.directory, 501, 0o755, 0, [], true⟩
  unused := 1
  entries p := if p = home then some 0 else none
  older := []
  renamed := []

theorem emptyDisk_free {p : Path} (h : p ≠ home) : (emptyDisk home).entries p = none := if_neg h

theorem emptyDisk_made : (emptyDisk home).Made := by
  intro v hv p k hk
  cases List.mem_singleton.1 hv
  by_cases hp : p = home
  · cases hk.symm.trans (if_pos hp)
    exact Nat.one_pos
  · cases hk.symm.trans (emptyDisk_free hp)

theorem ne_home (h : home ≠ []) (hp : Path.parent p = some (settingsHome home)) : p ≠ home := by
  rintro rfl
  have hlength := congrArg List.length (Option.some.inj ((if_neg h).symm.trans hp))
  simp only [List.length_dropLast, settingsHome, Path.join, List.length_append, List.length_cons,
    List.length_nil] at hlength
  omega

theorem home_free (h : home ≠ []) (hp : Path.parent p = some (settingsHome home)) :
    (emptyDisk home).entries p = none := emptyDisk_free (ne_home h hp)

theorem emptyDisk_ready {umask : UInt32} {process : ℕ} (h : home ≠ []) :
    Ready .unix home ⟨501, umask, process⟩ (emptyDisk home) := by
  have hentry : (emptyDisk home).entries home = some 0 := if_pos rfl
  refine .fresh emptyDisk_made (hasParent_of_named parent_settingsHome hentry)
    (emptyDisk_free (Path.parent_ne parent_settingsHome).symm)
    (home_free h (settingsNames home).parent) (home_free h (settingsNames home).parent_backup)
    fun _ => ⟨0, ?_, nofun, rfl⟩
  rw [Disk.maxLinks, Disk.follow, hentry]
  rfl

theorem emptyDisk_vacant {process : ℕ} {sequence : UInt64} (h : home ≠ []) :
    Vacant home process sequence (emptyDisk home) :=
  ⟨0, by decide, fun _ => home_free h (parent_join _ _)⟩

theorem load_of_first_saved :
    ((loadSettingsAt .unix refuses (settingsPath ["home"])).run.alone
      (answer ⟨501, 0o022, 7⟩) (fun _ => ⟨none, 1, 0⟩)
      ((saveSettingsAt .unix zeros 7 0 (settingsPath ["home"]) {}).run.alone
        (answer ⟨501, 0o022, 7⟩) (fun _ => ⟨none, 1, 0⟩) (emptyDisk ["home"])).2).1 =
      Gui.loadSettingsAt refuses (Gui.saveSettingsAt zeros {}) :=
  (load_of_saved (emptyDisk_ready (by decide)) (emptyDisk_vacant (by decide))
    (fun _ => calm_once) fun _ => calm_once).2

theorem settledDisk_prepared {umask : UInt32} {process : ℕ} {bytes : Bytes} :
    Prepared .unix ["home"] ⟨501, umask, process⟩ (settledDisk ["home"] bytes) 1 := by
  have hdirectory : TrustedDirectory .unix ["home"] (settledDisk ["home"] bytes) 1 :=
    ⟨rfl, rfl, fun _ => ⟨(by decide : (0o700 : UInt32) &&& 0o022 = 0), 0, rfl, nofun, rfl⟩⟩
  refine ⟨settledDisk_made, ⟨hdirectory, fun j hj => ?_, fun j hj => ?_⟩, fun _ => rfl⟩
  · cases hj
    exact ⟨rfl, fun _ => ⟨(by decide : (0o600 : UInt32) &&& 0o022 = 0), rfl⟩⟩
  · cases hj

theorem settledDisk_vacant {process : ℕ} {sequence : UInt64} {bytes : Bytes} (h : home ≠ []) :
    Vacant home process sequence (settledDisk home bytes) :=
  ⟨0, by decide, fun _ => settledDisk_free (temporary_ne_path home)
    (Path.parent_ne (parent_join _ _)).symm (ne_home h (parent_join _ _))⟩

/-- A save that is left alone runs to its end. -/
theorem quiet_save_runs (float : UInt64 → List Char) (fromSlice : Bytes → Except String Value)
    (caller : Caller) (settings : Settings) {process : ℕ} {sequence : UInt64}
    (h : Ready .unix home { caller with process } d) (hvacant : Vacant home process sequence d) :
    ∃ (calls : List Fate) (pool : StorePool),
      run .unix float fromSlice caller home (Pool.start d)
        (.launch process (.save sequence settings) :: calls.map (.call process)) = some pool ∧
      pool.live process = some (.save sequence settings, .done (.saved (.ok ()))) := by
  have hsave : Meets (fun s (fate : {fate // Calm fate}) => answers caller process s fate.1)
      undisturbed (· = d) (program .unix float fromSlice home process (.save sequence settings))
      fun outcome _ => outcome = .saved (.ok ()) := by
    refine Meets.bind (manages_saveBytesAt h hvacant) fun r => meets_done Conduct.solo_stable ?_
    rintro t - ⟨u, rfl, -⟩
    rfl
  generalize hp : program .unix float fromSlice home process (.save sequence settings) = p at hsave
  set fates : ℕ → Fate := fun _ => ⟨none, 1, 0⟩
  set launched : StorePool := (Pool.start d).setLive process (some (.save sequence settings, p))
    with hlaunched
  have houtcome : (p.alone (answers caller process) fates launched.state).1 = .saved (.ok ()) :=
    (hsave _ trivial rfl).alone fun _ => calm_once
  obtain ⟨calls, hcalls⟩ := Pool.run_alone (answers caller) Disk.lose
    (program .unix float fromSlice home) fates
    (Pool.setLive_self _ process _ : launched.live process = some (.save sequence settings, p))
  rw [houtcome] at hcalls
  exact ⟨calls, _, Runs.run_cons_eq_some.2 ⟨launched, by rw [hlaunched, ← hp]; rfl, hcalls⟩,
    Pool.setLive_self launched process _⟩

/-- The save that makes the directory is not kept so: a loss of power may take the directory. -/
example : (run .unix zeros refuses ⟨501, 0o022, 0⟩ ["home"] (Pool.start (emptyDisk ["home"]))
    (.launch 7 (.save 0 {}) :: List.replicate 15 (.call 7 plenty) ++
      [.finish 7, .lose ⟨3, fun _ => []⟩])).map
        (fun pool => pool.state.entries (settingsHome ["home"])) = some none := by
  decide +kernel

end save

end XusMiner.Gui.Store
