import XusMiner.Library.AtomicReplace

/-! Replacing a file where a name can be taken only when it is free: the old file is renamed to a
backup first, which is renamed back when the new one does not get its place. -/

namespace Files
open ByteCodec Program

namespace Disk

section keeps
variable (A : Option Bytes → Prop) (directory path backup : Path)

/-- The layout shows a sealed file with allowed contents at the path, or at the backup, or nothing
need be there. -/
structure Keeps (d : Disk) (v : Layout) : Prop where
  shown : ∀ k, v path = some k ∨ v backup = some k → d.Sealed k ∧ A (some (d.inode k).contents)
  free : v path = none → v backup = none → A none
  home : ¬A none → ∃ k, v directory = some k ∧ k < d.unused ∧ (d.inode k).kind = .directory

/-- So does every layout that may be found again. -/
structure Recoverable (d : Disk) : Prop where
  made : d.Made
  keeps : ∀ v ∈ d.layouts, d.Keeps A directory path backup v

/-- What is at the path or, while that is free, at the backup. -/
def visible (d : Disk) : Option Bytes :=
  ((d.entries path).or (d.entries backup)).map fun k => (d.inode k).contents

end keeps

variable {A : Option Bytes → Prop} {directory path backup p : Path} {s t : Disk} {v w : Layout}
  {k : ℕ}

theorem Keeps.of_eq {w' : Layout} (h : s.Keeps A directory path backup w)
    (h' : s.Keeps A directory path backup w') (hunused : s.unused ≤ t.unused)
    (hwhole : ∀ k, s.Sealed k → t.inode k = s.inode k)
    (hkind : ∀ k, k < s.unused → (t.inode k).kind = (s.inode k).kind) (hpath : v path = w path)
    (hbackup : v backup = w backup) (hhome : w' directory ≠ none → v directory = w' directory) :
    t.Keeps A directory path backup v where
  shown k hk := by
    rw [hpath, hbackup] at hk
    obtain ⟨hsealed, hA⟩ := h.shown k hk
    have hinode := hwhole k hsealed
    exact ⟨hsealed.of_eq hunused hinode, by rwa [hinode]⟩
  free hp hb := h.free (hpath ▸ hp) (hbackup ▸ hb)
  home hA := by
    obtain ⟨k, hk, hmade, hkind'⟩ := h'.home hA
    exact ⟨k, (hhome (hk ▸ Option.some_ne_none k)).trans hk, hmade.trans_le hunused,
      (hkind k hmade).trans hkind'⟩

theorem visible_of_path (h : s.entries path = some k) :
    s.visible path backup = some (s.inode k).contents := by
  rw [visible, h, Option.some_or, Option.map_some]

theorem visible_of_backup (hpath : s.entries path = none) :
    s.visible path backup = (s.entries backup).map fun k => (s.inode k).contents := by
  rw [visible, hpath, Option.none_or]

/-- What is visible stays as long as no name of it changes and its contents do not. -/
theorem visible_congr (hpath : t.entries path = s.entries path)
    (hbackup : t.entries backup = s.entries backup)
    (hsame : ∀ k, (s.entries path).or (s.entries backup) = some k →
      (t.inode k).contents = (s.inode k).contents) :
    t.visible path backup = s.visible path backup := by
  rw [visible, visible, hpath, hbackup]
  exact Option.map_congr fun k hk => hsame k hk

section recoverable
variable (h : s.Recoverable A directory path backup)
include h

theorem Recoverable.sealed_visible (hk : (s.entries path).or (s.entries backup) = some k) :
    s.Sealed k ∧ A (some (s.inode k).contents) := by
  have hkeeps := h.keeps _ s.entries_mem_layouts
  exact hkeeps.shown k ((Option.or_eq_some_iff.1 hk).imp_right And.right)

theorem Recoverable.of_visible {b : Bytes} (hb : s.visible path backup = some b) : A (some b) := by
  obtain ⟨k, hk, rfl⟩ := Option.map_eq_some_iff.1 hb
  exact (h.sealed_visible hk).2

theorem Recoverable.lose (loss : Loss) : (s.lose loss).Recoverable A directory path backup where
  made v hv := h.made v (lose_layouts hv)
  keeps v hv := by
    have hkind (k : ℕ) : ((s.lose loss).inode k).kind = (s.inode k).kind := by
      change (if (s.inode k).synced then s.inode k else _).kind = _
      split_ifs <;> rfl
    have hold := h.keeps v (lose_layouts hv)
    exact hold.of_eq hold le_rfl (fun k hk => lose_inode hk) (fun k _ => hkind k) rfl rfl
      fun _ => rfl

theorem Recoverable.create (inode : Inode) (hpath : p ≠ path) (hbackup : p ≠ backup)
    (hfree : s.entries p = none) :
    (s.create p inode).Recoverable A directory path backup ∧
      (s.create p inode).visible path backup = s.visible path backup := by
  refine ⟨⟨Made.create h.made, fun v hv => ?_⟩, ?_⟩
  · have hold (w : Layout) (hw : w ∈ s.layouts) (hp : v path = w path) (hb : v backup = w backup)
        (hd : w directory ≠ none → v directory = w directory) :
        (s.create p inode).Keeps A directory path backup v :=
      (h.keeps w hw).of_eq (h.keeps w hw) (Nat.le_succ _) (fun k hk => create_inode_of_lt hk.made)
        (fun k hk => by rw [create_inode_of_lt hk]) hp hb hd
    rcases mem_layouts.1 hv with rfl | hv
    · refine hold _ s.entries_mem_layouts (create_path hpath) (create_path hbackup) fun hd => ?_
      refine create_path fun hdirectory => hd ?_
      rw [← hdirectory, hfree]
    · exact hold v hv rfl rfl fun _ => rfl
  · refine visible_congr (create_path hpath) (create_path hbackup) fun k hk => ?_
    rw [create_inode_of_lt (h.sealed_visible hk).1.made]

/-- A file that no one has synced is at neither of the names. -/
theorem Recoverable.setInode {inode : Inode} (hsynced : (s.inode k).synced = false)
    (hkind : inode.kind = (s.inode k).kind) :
    (s.setInode k inode).Recoverable A directory path backup ∧
      (s.setInode k inode).visible path backup = s.visible path backup := by
  have hwhole (k' : ℕ) (hk' : s.Sealed k') : (s.setInode k inode).inode k' = s.inode k' := by
    rw [setInode_inode, if_neg]
    rintro rfl
    rw [hk'.synced] at hsynced
    cases hsynced
  have hkinds (k' : ℕ) : ((s.setInode k inode).inode k').kind = (s.inode k').kind := by
    rw [setInode_inode]
    split_ifs with hk
    · rw [hk, hkind]
    · rfl
  refine ⟨⟨h.made, fun v hv => (h.keeps v hv).of_eq (h.keeps v hv) le_rfl hwhole
    (fun k _ => hkinds k) rfl rfl fun _ => rfl⟩, ?_⟩
  exact visible_congr rfl rfl fun k hk => by rw [hwhole k (h.sealed_visible hk).1]

/-- The names are in one directory, and reach the medium together. -/
theorem Recoverable.sync (hparent : Path.parent path = Path.parent backup) :
    (s.sync k).Recoverable A directory path backup ∧
      (s.sync k).visible path backup = s.visible path backup := by
  have hwhole (k' : ℕ) (hk' : s.Sealed k') : (s.sync k).inode k' = s.inode k' := by
    rw [sync_inode]
    split_ifs with hk
    · rw [← hk, ← hk'.synced]
    · rfl
  have hkinds (k' : ℕ) : ((s.sync k).inode k').kind = (s.inode k').kind := by
    rw [sync_inode]
    split_ifs with hk
    · rw [hk]
    · rfl
  refine ⟨⟨Made.sync h.made, fun v hv => ?_⟩, ?_⟩
  · obtain ⟨w', hw', hhome⟩ := sync_layouts_path hv directory
    have hnames : ∃ w ∈ s.layouts, v path = w path ∧ v backup = w backup := by
      rcases sync_layouts hv with rfl | ⟨w, hw, hvw⟩
      · exact ⟨_, s.entries_mem_layouts, rfl, rfl⟩
      · rw [hvw, hvw, ← hparent]
        split_ifs
        · exact ⟨_, s.entries_mem_layouts, rfl, rfl⟩
        · exact ⟨w, mem_layouts.2 (.inr hw), rfl, rfl⟩
    obtain ⟨w, hw, hpath, hbackup⟩ := hnames
    exact (h.keeps w hw).of_eq (h.keeps w' hw') le_rfl hwhole (fun k _ => hkinds k) hpath hbackup
      fun _ => hhome
  · exact visible_congr rfl rfl fun k hk => by rw [hwhole k (h.sealed_visible hk).1]

/-- A name is given to another file, or none, while both names go on to show what they may. -/
theorem Recoverable.relink (hmade : t.Made) (hinode : t.inode = s.inode)
    (hunused : t.unused = s.unused) (hlayouts : t.layouts = t.entries :: s.layouts)
    (hshown : ∀ k, t.entries path = some k ∨ t.entries backup = some k →
      s.Sealed k ∧ A (some (s.inode k).contents))
    (hfree : t.entries path = none → t.entries backup = none → A none)
    (hhome : s.entries directory ≠ none → t.entries directory = s.entries directory) :
    t.Recoverable A directory path backup := by
  have hkinds (k : ℕ) (_ : k < s.unused) : (t.inode k).kind = (s.inode k).kind := by rw [hinode]
  have hwhole (k : ℕ) (_ : s.Sealed k) : t.inode k = s.inode k := by rw [hinode]
  refine ⟨hmade, fun v hv => ?_⟩
  rw [hlayouts, List.mem_cons] at hv
  rcases hv with rfl | hv
  · refine ⟨fun k hk => ?_, hfree, fun hA => ?_⟩
    · obtain ⟨hsealed, hcontents⟩ := hshown k hk
      exact ⟨hsealed.of_eq hunused.ge (hwhole k hsealed), by rwa [hinode]⟩
    · obtain ⟨k, hk, hlt, hkind⟩ := (h.keeps _ s.entries_mem_layouts).home hA
      exact ⟨k, (hhome (hk ▸ Option.some_ne_none k)).trans hk, hlt.trans_le hunused.ge,
        (hkinds k hlt).trans hkind⟩
  · exact (h.keeps v hv).of_eq (h.keeps v hv) hunused.ge hwhole hkinds rfl rfl fun _ => rfl

theorem Recoverable.rename {source destination : Path} (hne : source ≠ destination)
    (hk : s.entries source = some k) (hsource : directory ≠ source)
    (hdestination : directory ≠ destination)
    (hshown : ∀ k', (s.rename source destination k).entries path = some k' ∨
      (s.rename source destination k).entries backup = some k' →
      s.Sealed k' ∧ A (some (s.inode k').contents))
    (hfree : (s.rename source destination k).entries path = none →
      (s.rename source destination k).entries backup = none → A none) :
    (s.rename source destination k).Recoverable A directory path backup := by
  refine h.relink (Made.rename h.made hne hk) rename_inode rename_unused (rename_layouts hne) hshown
    hfree fun _ => ?_
  rw [rename_entries hne, if_neg hdestination, if_neg hsource]

variable (hne : path ≠ backup) (hpath : directory ≠ path) (hbackup : directory ≠ backup)
include hne

theorem Recoverable.removeBackup (hbackup : directory ≠ backup) (hk : s.entries path = some k) :
    (s.remove backup).Recoverable A directory path backup ∧
      (s.remove backup).visible path backup = s.visible path backup := by
  have hentries (q : Path) : (s.remove backup).entries q =
      if q = backup then none else s.entries q := Function.update_apply ..
  have hkept : (s.remove backup).entries path = some k := by rw [hentries, if_neg hne, hk]
  have hgone : (s.remove backup).entries backup = none := by rw [hentries, if_pos rfl]
  refine ⟨h.relink h.made.remove rfl rfl rfl (fun k' hk' => ?_) (fun hnone => ?_) fun _ => ?_, ?_⟩
  · refine (h.keeps _ s.entries_mem_layouts).shown k'
      (.inl (hk'.elim (fun hk' => ?_) fun hk' => ?_))
    · rw [hk, ← hkept, hk']
    · rw [hgone] at hk'
      cases hk'
  · rw [hkept] at hnone
    cases hnone
  · rw [hentries, if_neg hbackup]
  · rw [visible_of_path hkept, visible_of_path hk]
    rfl

include hpath

theorem Recoverable.install (hk : s.entries p = some k) (hp : p ≠ path) (hpbackup : p ≠ backup)
    (hpdirectory : directory ≠ p) (hsealed : s.Sealed k) (hA : A (some (s.inode k).contents)) :
    (s.rename p path k).Recoverable A directory path backup ∧
      (s.rename p path k).entries path = some k := by
  have hdone : (s.rename p path k).entries path = some k := by rw [rename_entries hp, if_pos rfl]
  have hkept : (s.rename p path k).entries backup = s.entries backup := by
    rw [rename_entries hp, if_neg hne.symm, if_neg hpbackup.symm]
  refine ⟨h.rename hp hk hpdirectory hpath (fun k' hk' => ?_) (fun hnone => ?_), hdone⟩
  · rw [hdone, hkept] at hk'
    rcases hk' with hk' | hk'
    · cases hk'
      exact ⟨hsealed, hA⟩
    · exact (h.keeps _ s.entries_mem_layouts).shown k' (.inr hk')
  · rw [hdone] at hnone
    cases hnone

include hbackup

/-- What is at the path becomes the backup. -/
theorem Recoverable.stage (hk : s.entries path = some k) :
    (s.rename path backup k).Recoverable A directory path backup ∧
      (s.rename path backup k).visible path backup = s.visible path backup ∧
      (s.rename path backup k).entries path = none := by
  have hgone : (s.rename path backup k).entries path = none := by
    rw [rename_entries hne, if_neg hne, if_pos rfl]
  have hstaged : (s.rename path backup k).entries backup = some k := by
    rw [rename_entries hne, if_pos rfl]
  refine ⟨h.rename hne hk hpath hbackup (fun k' hk' => ?_) (fun _ hnone => ?_), ?_, hgone⟩
  · rw [hgone, hstaged] at hk'
    refine (h.keeps _ s.entries_mem_layouts).shown k' (.inl (hk'.elim nofun fun hk' => ?_))
    rw [hk, hk']
  · rw [hstaged] at hnone
    cases hnone
  · rw [visible_of_backup hgone, visible_of_path hk, hstaged, Option.map_some, rename_inode]

/-- The backup is put back. -/
theorem Recoverable.unstage (hk : s.entries backup = some k) (hfree : s.entries path = none) :
    (s.rename backup path k).Recoverable A directory path backup ∧
      (s.rename backup path k).visible path backup = s.visible path backup ∧
      (s.rename backup path k).entries backup = none := by
  have hgone : (s.rename backup path k).entries backup = none := by
    rw [rename_entries hne.symm, if_neg hne.symm, if_pos rfl]
  have hback : (s.rename backup path k).entries path = some k := by
    rw [rename_entries hne.symm, if_pos rfl]
  refine ⟨h.rename hne.symm hk hbackup hpath (fun k' hk' => ?_) (fun hnone => ?_), ?_, hgone⟩
  · rw [hgone, hback] at hk'
    refine (h.keeps _ s.entries_mem_layouts).shown k' (.inr (hk'.elim (fun hk' => ?_) nofun))
    rw [hk, hk']
  · rw [hback] at hnone
    cases hnone
  · rw [visible_of_path hback, visible_of_backup hfree, hk, Option.map_some, rename_inode]

end recoverable

end Disk

theorem Path.parent_ne {p q : Path} (h : Path.parent p = some q) : q ≠ p := by
  intro hqp
  unfold Path.parent at h
  split_ifs at h with hp
  have hlength := congrArg List.length (Option.some.inj h)
  rw [List.length_dropLast, hqp] at hlength
  have hpos := List.length_pos_iff.2 hp
  omega

/-- A path and the backup beside it. -/
structure Names (directory path backup : Path) : Prop where
  parent : Path.parent path = some directory
  parent_backup : Path.parent backup = some directory
  apart : path ≠ backup

/-- A process that replaces the file by files with contents of `B`, and is the only one: what is
visible is at any time what was, or what is to be. -/
def staging (directory path backup : Path) (A : Option Bytes → Prop) (B : Bytes → Prop) :
    Conduct Disk :=
  .solo (Disk.Recoverable A directory path backup) fun s t =>
    t.visible path backup = s.visible path backup ∨ ∃ b, t.visible path backup = some b ∧ B b

section staging
variable {caller : Caller} {directory path backup p : Path} {A : Option Bytes → Prop}
  {B : Bytes → Prop} {o : Option Bytes} {k : ℕ} {c : Bytes} {E : Disk → Prop} {P : Disk → Prop}

theorem staging_stable : (staging directory path backup A B).Stable P := Conduct.solo_stable

theorem staging_reads {α ε : Type} {x : ExceptT ε FileProgram α} (hx : x.run.Only Call.Reads) :
    Yields (answer caller) (staging directory path backup A B) P x fun _ => P := by
  have hrefl (s : Disk) : (staging directory path backup A B).guarantee s s := .inl rfl
  exact (meets_of_only hx (fun _ => answer_of_reads caller) hrefl staging_stable).consequence
    (fun _ _ h => h) fun _ _ _ h _ _ => h

/-- What does not depend on what the two names refer to. -/
def Beside (path backup : Path) (E : Disk → Prop) : Prop :=
  ∀ s t : Disk, t.inode = s.inode → t.unused = s.unused →
    (∀ q, q ≠ path → q ≠ backup → t.entries q = s.entries q) → E s → E t

/-- That, and what is visible. -/
def Showing (path backup : Path) (o : Option Bytes) (E : Disk → Prop) (d : Disk) : Prop :=
  d.visible path backup = o ∧ E d

/-- A new file, and what has been written to it. -/
structure Scratch (p : Path) (k : ℕ) (c : Bytes) (d : Disk) : Prop where
  named : d.entries p = some k
  made : k < d.unused
  file : (d.inode k).kind = .file
  synced : (d.inode k).synced = false
  contents : (d.inode k).contents = c

/-- A new file, all of it on the medium. -/
structure Complete (p : Path) (k : ℕ) (c : Bytes) (d : Disk) : Prop where
  named : d.entries p = some k
  whole : d.Sealed k
  contents : (d.inode k).contents = c

theorem beside_true : Beside path backup fun _ => True := fun _ _ _ _ _ _ => trivial

theorem beside_complete (hpath : p ≠ path) (hbackup : p ≠ backup) :
    Beside path backup (Complete p k c) :=
  fun s t hinode hunused hentries h => ⟨(hentries p hpath hbackup).trans h.named,
    h.whole.of_eq hunused.ge (by rw [hinode]), by rw [hinode, h.contents]⟩

theorem beside_rename {s : Disk} {source destination : Path} (hE : Beside path backup E)
    (hne : source ≠ destination) (hsource : source = path ∨ source = backup)
    (hdestination : destination = path ∨ destination = backup) (h : E s) :
    E (s.rename source destination k) := by
  refine hE s _ Disk.rename_inode Disk.rename_unused (fun q hqp hqb => ?_) h
  have hq (r : Path) (hr : r = path ∨ r = backup) : q ≠ r := by
    rintro rfl
    exact hr.elim hqp hqb
  rw [Disk.rename_entries hne, if_neg (hq _ hdestination), if_neg (hq _ hsource)]

section fresh
variable (hpath : p ≠ path) (hbackup : p ≠ backup)
include hpath hbackup

theorem meets_createDir_staging {mode : UInt32} :
    Meets (answer caller) (staging directory path backup A B) (Showing path backup o fun _ => True)
      (createDir p mode).run fun _ => Showing path backup o fun _ => True := by
  refine meets_solo (c := Call.createDir p mode) fun s fate hs hshow => ?_
  rcases answer_createDir caller s fate p mode with ⟨error, h⟩ | ⟨hfree, h⟩ <;> rw [h]
  · exact ⟨hs, .inl rfl, hshow⟩
  · obtain ⟨hkept, hsame⟩ := hs.create (caller.made .directory mode) hpath hbackup hfree
    exact ⟨hkept, .inl hsame, hsame.trans hshow.1, trivial⟩

theorem meets_createNew_staging {mode : UInt32} :
    Meets (answer caller) (staging directory path backup A B) (Showing path backup o fun _ => True)
      (createNew p mode).run fun r d => (Showing path backup o fun _ => True) d ∧
        ∀ k, r = .ok k → Scratch p k [] d := by
  refine meets_solo (c := Call.createNew p mode) fun s fate hs hshow => ?_
  rcases answer_createNew caller s fate p mode with ⟨error, h⟩ | ⟨hfree, h⟩ <;> rw [h]
  · exact ⟨hs, .inl rfl, hshow, nofun⟩
  · obtain ⟨hkept, hsame⟩ := hs.create (caller.made .file mode) hpath hbackup hfree
    refine ⟨hkept, .inl hsame, ⟨hsame.trans hshow.1, trivial⟩, fun k hk => ?_⟩
    cases hk
    refine ⟨?_, Nat.lt_succ_self _, ?_, ?_, ?_⟩
    · rw [Disk.create_entries, Function.update_self]
    all_goals
      rw [Disk.create_inode, if_pos rfl]
      rfl

end fresh

theorem yields_writeSynced_staging (hparent : Path.parent path = Path.parent backup) :
    Yields (answer caller) (staging directory path backup A B)
      (Showing path backup o (Scratch p k []))
      (do writeAll k c; syncAll k) fun _ => Showing path backup o (Complete p k c) := by
  refine Yields.bind (yields_writeAll (D := fun c => Showing path backup o (Scratch p k c))
    (fun _ => staging_stable) fun c bytes => ?_) fun _ => ?_
  · refine meets_solo (c := Call.write k c.length bytes) fun s fate hs hdrafted => ?_
    have hshow := hdrafted.1
    have hdraft := hdrafted.2
    rcases answer_write caller s fate k c.length bytes with ⟨error, h⟩ | ⟨count, hle, h⟩ <;> rw [h]
    · exact ⟨hs, .inl rfl, fun _ hn => by cases hn⟩
    · obtain ⟨hkept, hsame⟩ : (s.write k c.length (bytes.take count)).Recoverable _ _ _ _ ∧
          (s.write k c.length (bytes.take count)).visible path backup = s.visible path backup :=
        hs.setInode hdraft.synced rfl
      refine ⟨hkept, .inl hsame, fun n hn => ?_⟩
      cases hn
      refine ⟨⟨hsame.trans hshow, hdraft.named, hdraft.made, ?_, ?_, ?_⟩, hle⟩ <;>
        rw [Disk.write, Disk.setInode_inode, if_pos rfl]
      · exact hdraft.file
      · rw [hdraft.contents, List.take_length, List.drop_eq_nil_of_le (Nat.le_add_right _ _),
          List.append_nil]
  · refine meets_solo (c := Call.sync k) fun s fate hs hdrafted => ?_
    have hshow := hdrafted.1
    have hdraft := hdrafted.2
    rcases answer_sync caller s fate k with ⟨error, h⟩ | h <;> rw [h]
    · exact ⟨hs, .inl rfl, fun _ hn => by cases hn⟩
    · obtain ⟨hkept, hsame⟩ := hs.sync (k := k) hparent
      refine ⟨hkept, .inl hsame, fun _ _ => ⟨hsame.trans hshow, hdraft.named,
        ⟨hdraft.made, ?_, ?_⟩, ?_⟩⟩ <;> rw [Disk.sync_inode, if_pos rfl]
      · exact hdraft.file
      · exact hdraft.contents

section names
variable (hnames : Names directory path backup)
include hnames

theorem meets_install (hB : ∀ b, B b → A (some b)) (hp : Path.parent p = some directory)
    (hpath : p ≠ path) (hbackup : p ≠ backup) (hc : B c) :
    Meets (answer caller) (staging directory path backup A B)
      (fun d => Showing path backup o (Complete p k c) d ∧ d.entries path = none)
      (rename p path).run fun r d => match r with
        | .ok _ => Showing path backup (some c) (fun d => d.entries path ≠ none) d
        | .error _ => Showing path backup o (fun d => d.entries path = none) d := by
  refine meets_solo (c := Call.rename p path) fun s fate hs ⟨⟨hshow, hready⟩, hfree⟩ => ?_
  rcases answer_rename caller s fate p path with ⟨error, h⟩ | ⟨k', hk', h⟩ <;> rw [h]
  · exact ⟨hs, .inl rfl, hshow, hfree⟩
  · obtain rfl : k = k' := Option.some.inj (hready.named.symm.trans hk')
    obtain ⟨hkept, hdone⟩ := hs.install hnames.apart (Path.parent_ne hnames.parent) hk' hpath
      hbackup (Path.parent_ne hp) hready.whole (hready.contents.symm ▸ hB c hc)
    have hvisible : (s.rename p path k).visible path backup = some c := by
      rw [Disk.visible_of_path hdone, Disk.rename_inode, hready.contents]
    refine ⟨hkept, .inr ⟨c, hvisible, hc⟩, hvisible, fun hnone => ?_⟩
    rw [hdone] at hnone
    cases hnone

variable (hE : Beside path backup E)
include hE

theorem meets_removeBackup :
    Meets (answer caller) (staging directory path backup A B)
      (fun d => Showing path backup o E d ∧ d.entries path ≠ none) (removeFile backup).run
      fun r d => Showing path backup o E d ∧ (r = .ok () → d.entries backup = none) := by
  refine meets_solo (c := Call.removeFile backup) fun s fate hs ⟨⟨hshow, hEs⟩, hpath⟩ => ?_
  rcases answer_removeFile caller s fate backup with ⟨error, h⟩ | h <;> rw [h]
  · exact ⟨hs, .inl rfl, ⟨hshow, hEs⟩, nofun⟩
  · obtain ⟨k, hk⟩ := Option.ne_none_iff_exists'.1 hpath
    obtain ⟨hkept, hsame⟩ := hs.removeBackup hnames.apart (Path.parent_ne hnames.parent_backup) hk
    refine ⟨hkept, .inl hsame, ⟨hsame.trans hshow, ?_⟩, fun _ => Function.update_self ..⟩
    exact hE s _ rfl rfl (fun q _ hqb => Function.update_of_ne hqb _ _) hEs

theorem meets_stage :
    Meets (answer caller) (staging directory path backup A B) (Showing path backup o E)
      (rename path backup).run
      fun r d => Showing path backup o E d ∧ (r = .ok () → d.entries path = none) := by
  refine meets_solo (c := Call.rename path backup) fun s fate hs ⟨hshow, hEs⟩ => ?_
  rcases answer_rename caller s fate path backup with ⟨error, h⟩ | ⟨k, hk, h⟩ <;> rw [h]
  · exact ⟨hs, .inl rfl, ⟨hshow, hEs⟩, nofun⟩
  · obtain ⟨hkept, hsame, hgone⟩ := hs.stage hnames.apart (Path.parent_ne hnames.parent)
      (Path.parent_ne hnames.parent_backup) hk
    exact ⟨hkept, .inl hsame, ⟨hsame.trans hshow,
      beside_rename hE hnames.apart (.inl rfl) (.inr rfl) hEs⟩, fun _ => hgone⟩

theorem meets_unstage :
    Meets (answer caller) (staging directory path backup A B)
      (fun d => Showing path backup o E d ∧ d.entries path = none) (rename backup path).run
      fun r d => Showing path backup o E d ∧ (r = .ok () → d.entries backup = none) := by
  refine meets_solo (c := Call.rename backup path) fun s fate hs ⟨⟨hshow, hEs⟩, hfree⟩ => ?_
  rcases answer_rename caller s fate backup path with ⟨error, h⟩ | ⟨k, hk, h⟩ <;> rw [h]
  · exact ⟨hs, .inl rfl, ⟨hshow, hEs⟩, nofun⟩
  · obtain ⟨hkept, hsame, hgone⟩ := hs.unstage hnames.apart (Path.parent_ne hnames.parent)
      (Path.parent_ne hnames.parent_backup) hk hfree
    exact ⟨hkept, .inl hsame, ⟨hsame.trans hshow,
      beside_rename hE hnames.apart.symm (.inr rfl) (.inl rfl) hEs⟩, fun _ => hgone⟩

end names

/-- What is read of an open sealed file is what is in it. -/
theorem yields_readSealed {limit : ℕ} :
    Yields (answer caller) (staging directory path backup A B) (Opened k c) (readToEnd k limit)
      fun r d => Opened k c d ∧ r = c.take limit := by
  refine yields_readToEnd staging_stable fun offset limit => ?_
  refine meets_solo (c := Call.read k offset limit) fun s fate hs hopened => ?_
  rw [answer_of_reads caller (c := Call.read k offset limit) trivial]
  exact ⟨hs, .inl rfl, fun chunk hchunk => ⟨hopened, hopened.contents ▸ answer_read hchunk⟩⟩

end staging

end Files
