import XusMiner.Library.Files

/-! Replacing a file by renaming a synced file over its name, while other processes do the same. -/

namespace Files
open ByteCodec

/-- Calls that change nothing. -/
def Call.Reads : Call → Prop
  | .symlinkMetadata _ | .metadata _ | .fileMetadata _ | .openFile _ _ | .read _ _ _
  | .pathExists _ | .now => True
  | _ => False

theorem answer_of_reads (caller : Caller) {c : Call} (h : c.Reads) (d : Disk) (fate : Fate) :
    (answer caller d fate c).2 = d := by
  unfold answer
  split
  · rfl
  · cases c <;> first | rfl | exact h.elim

section
variable {caller : Caller} {d : Disk} {fate : Fate}

theorem answer_createNew (caller : Caller) (d : Disk) (fate : Fate) (path : Path) (mode : UInt32) :
    (∃ error, answer caller d fate (.createNew path mode) = (.error error, d)) ∨
      d.entries path = none ∧ answer caller d fate (.createNew path mode) =
        (.ok d.unused, d.create path (caller.made .file mode)) := by
  unfold answer
  cases fate.fault with
  | some message => exact .inl ⟨_, rfl⟩
  | none =>
    simp only [respond]
    split_ifs
    · cases d.entries path with
      | some k => exact .inl ⟨_, rfl⟩
      | none => exact .inr ⟨rfl, rfl⟩
    · exact .inl ⟨_, rfl⟩

theorem answer_createDir (caller : Caller) (d : Disk) (fate : Fate) (path : Path) (mode : UInt32) :
    (∃ error, answer caller d fate (.createDir path mode) = (.error error, d)) ∨
      d.entries path = none ∧ answer caller d fate (.createDir path mode) =
        (.ok (), d.create path (caller.made .directory mode)) := by
  unfold answer
  cases fate.fault with
  | some message => exact .inl ⟨_, rfl⟩
  | none =>
    simp only [respond]
    split_ifs
    · cases d.entries path with
      | some k => exact .inl ⟨_, rfl⟩
      | none => exact .inr ⟨rfl, rfl⟩
    · exact .inl ⟨_, rfl⟩

theorem answer_write (caller : Caller) (d : Disk) (fate : Fate) (k offset : ℕ) (bytes : Bytes) :
    (∃ error, answer caller d fate (.write k offset bytes) = (.error error, d)) ∨
      ∃ count ≤ bytes.length, answer caller d fate (.write k offset bytes) =
        (.ok count, d.write k offset (bytes.take count)) := by
  unfold answer
  cases fate.fault with
  | some message => exact .inl ⟨_, rfl⟩
  | none => exact .inr ⟨_, min_le_left _ _, rfl⟩

theorem answer_sync (caller : Caller) (d : Disk) (fate : Fate) (k : ℕ) :
    (∃ error, answer caller d fate (.sync k) = (.error error, d)) ∨
      answer caller d fate (.sync k) = (.ok (), d.sync k) := by
  unfold answer
  cases fate.fault with
  | some message => exact .inl ⟨_, rfl⟩
  | none => exact .inr rfl

theorem answer_rename (caller : Caller) (d : Disk) (fate : Fate) (source destination : Path) :
    (∃ error, answer caller d fate (.rename source destination) = (.error error, d)) ∨
      ∃ k, d.entries source = some k ∧ answer caller d fate (.rename source destination) =
        (.ok (), d.rename source destination k) := by
  unfold answer
  cases fate.fault with
  | some message => exact .inl ⟨_, rfl⟩
  | none =>
    simp only [respond]
    split_ifs
    swap
    · exact .inl ⟨_, rfl⟩
    split
    · exact .inl ⟨_, rfl⟩
    · rename_i k hsource _
      exact .inr ⟨k, hsource, rfl⟩
    · rename_i k k' hsource _
      split_ifs
      · exact .inl ⟨_, rfl⟩
      · exact .inr ⟨k, hsource, rfl⟩

theorem answer_removeFile (caller : Caller) (d : Disk) (fate : Fate) (path : Path) :
    (∃ error, answer caller d fate (.removeFile path) = (.error error, d)) ∨
      answer caller d fate (.removeFile path) = (.ok (), d.remove path) := by
  unfold answer
  cases fate.fault with
  | some message => exact .inl ⟨_, rfl⟩
  | none =>
    simp only [respond]
    split
    · exact .inl ⟨_, rfl⟩
    · split_ifs
      · exact .inl ⟨_, rfl⟩
      · exact .inr rfl

theorem found_eq_ok {α : Type} {f : ℕ → α} {k : Option ℕ} {a : α} (h : found f k = .ok a) :
    ∃ k', k = some k' ∧ f k' = a := by
  cases k with
  | none => cases h
  | some k => exact ⟨k, rfl, Except.ok.inj h⟩

theorem answer_symlinkMetadata {path : Path} {metadata : Metadata}
    (h : (answer caller d fate (.symlinkMetadata path)).1 = .ok metadata) :
    ∃ k, d.entries path = some k ∧ d.describe k = metadata := by
  unfold answer at h
  split at h
  · cases h
  · exact found_eq_ok h

theorem answer_openFile {path : Path} {noFollow : Bool} {k : ℕ}
    (h : (answer caller d fate (.openFile path noFollow)).1 = .ok k) :
    (if noFollow then d.entries path else d.follow Disk.maxLinks path) = some k := by
  unfold answer at h
  split at h
  · cases h
  · obtain ⟨k', hk', rfl⟩ := found_eq_ok h
    exact hk'

theorem answer_read {file offset limit : ℕ} {chunk : Bytes}
    (h : (answer caller d fate (.read file offset limit)).1 = .ok chunk) :
    Chunk (d.inode file).contents offset limit chunk := by
  unfold answer at h
  split at h
  · cases h
  · exact ⟨_, min_le_left _ _, (Except.ok.inj h).symm, by omega⟩

end

namespace Disk

theorem mem_layouts {d : Disk} {v : Layout} : v ∈ d.layouts ↔ v = d.entries ∨ v ∈ d.older :=
  List.mem_cons

theorem entries_mem_layouts (d : Disk) : d.entries ∈ d.layouts := List.mem_cons_self

/-- A regular file, all of which is on the medium. -/
structure Sealed (d : Disk) (k : ℕ) : Prop where
  made : k < d.unused
  file : (d.inode k).kind = .file
  synced : (d.inode k).synced = true

/-- The layout shows at the path a sealed file with contents of `B`. -/
def Shows (d : Disk) (B : Bytes → Prop) (path : Path) (v : Layout) : Prop :=
  ∃ k, v path = some k ∧ d.Sealed k ∧ B (d.inode k).contents

/-- At the path nothing but sealed files with such contents are found, whatever is lost. -/
structure Published (A : Option Bytes → Prop) (path : Path) (d : Disk) : Prop where
  made : ∀ v ∈ d.layouts, ∀ p k, v p = some k → k < d.unused
  shows : ∀ v ∈ d.layouts, v path = none ∧ A none ∨ d.Shows (fun b => A (some b)) path v

/-- The inode was given this name by one of the renamings after the first `n`. -/
def Since (d : Disk) (path : Path) (n k : ℕ) : Prop := (path, k) ∈ d.renamed.drop n

/-- What others than process `i` may do: they leave alone the files it makes and the names it gives
them, they change what is at the path by renaming only, and they keep the directory. -/
structure Spares (directory path : Path) (i : ℕ) (s t : Disk) : Prop where
  unused : s.unused ≤ t.unused
  same : ∀ k, k < s.unused →
    (t.inode k).creator = (s.inode k).creator ∧ (t.inode k).kind = (s.inode k).kind
  whole : ∀ k, s.Sealed k → t.inode k = s.inode k
  own : ∀ k, k < s.unused → (s.inode k).creator = i → (s.inode k).kind = .file →
    t.inode k = s.inode k
  named : ∀ p k, s.entries p = some k → k < s.unused → (s.inode k).creator = i → p ≠ path →
    t.entries p = some k
  unpublished : ∀ k, k < s.unused → (s.inode k).creator = i →
    (∀ v ∈ s.layouts, v path ≠ some k) → ∀ v ∈ t.layouts, v path ≠ some k
  renamed : s.renamed <+: t.renamed
  current : t.entries path = s.entries path ∨
    ∃ k, t.entries path = some k ∧ t.Since path s.renamed.length k
  layouts : ∀ v ∈ t.layouts, (∃ u ∈ s.layouts, v path = u path) ∨
    ∃ k, v path = some k ∧ t.Since path s.renamed.length k
  lasting : ∀ k, (∀ v ∈ s.layouts, v directory = some k) → k < s.unused →
    (s.inode k).kind = .directory → ∀ v ∈ t.layouts, v directory = some k
  directory : ∀ k, s.entries directory = some k → k < s.unused → (s.inode k).kind = .directory →
    t.entries directory = some k

variable {directory path : Path} {i j : ℕ} {A : Option Bytes → Prop} {B C : Bytes → Prop}
  {s t u : Disk} {v : Layout} {k n : ℕ}

theorem Sealed.of_eq (h : s.Sealed k) (hunused : s.unused ≤ t.unused)
    (hinode : t.inode k = s.inode k) : t.Sealed k :=
  ⟨h.made.trans_le hunused, hinode ▸ h.file, hinode ▸ h.synced⟩

theorem Shows.mono (h : s.Shows B path v) (hBC : ∀ b, B b → C b) : s.Shows C path v := by
  obtain ⟨k, hk, hsealed, hb⟩ := h
  exact ⟨k, hk, hsealed, hBC _ hb⟩

theorem Shows.of_eq (h : s.Shows B path v) (hunused : s.unused ≤ t.unused)
    (hwhole : ∀ k, s.Sealed k → t.inode k = s.inode k) : t.Shows B path v := by
  obtain ⟨k, hk, hsealed, hb⟩ := h
  have hinode := hwhole k hsealed
  exact ⟨k, hk, hsealed.of_eq hunused hinode, by rwa [hinode]⟩

theorem Shows.congr {w : Layout} (h : s.Shows B path v) (hw : w path = v path) :
    s.Shows B path w := by
  obtain ⟨k, hk, hrest⟩ := h
  exact ⟨k, hw.trans hk, hrest⟩

theorem Since.mono (h : s.Since path n k) (hst : s.renamed <+: t.renamed) : t.Since path n k :=
  (hst.drop n).subset h

theorem Since.of_le {m : ℕ} (h : s.Since path n k) (hmn : m ≤ n) : s.Since path m k :=
  List.drop_subset_drop_left _ hmn h

theorem Spares.refl (s : Disk) : Spares directory path i s s where
  unused := le_rfl
  same _ _ := ⟨rfl, rfl⟩
  whole _ _ := rfl
  own _ _ _ _ := rfl
  named _ _ h _ _ _ := h
  unpublished _ _ _ h := h
  renamed := List.prefix_rfl
  current := .inl rfl
  layouts v hv := .inl ⟨v, hv, rfl⟩
  directory _ h _ _ := h
  lasting _ h _ _ := h

theorem Spares.trans (hst : Spares directory path i s t) (htu : Spares directory path i t u) :
    Spares directory path i s u where
  unused := hst.unused.trans htu.unused
  same k hk := by
    have ht := hst.same k hk
    have hu := htu.same k (hk.trans_le hst.unused)
    exact ⟨hu.1.trans ht.1, hu.2.trans ht.2⟩
  whole k hk :=
    (htu.whole k (hk.of_eq hst.unused (hst.whole k hk))).trans (hst.whole k hk)
  own k hk hcreator hfile := by
    have ht := hst.same k hk
    exact (htu.own k (hk.trans_le hst.unused) (ht.1.trans hcreator) (ht.2.trans hfile)).trans
      (hst.own k hk hcreator hfile)
  named p k hp hk hcreator hne :=
    htu.named p k (hst.named p k hp hk hcreator hne) (hk.trans_le hst.unused)
      ((hst.same k hk).1.trans hcreator) hne
  unpublished k hk hcreator h :=
    htu.unpublished k (hk.trans_le hst.unused) ((hst.same k hk).1.trans hcreator)
      (hst.unpublished k hk hcreator h)
  renamed := hst.renamed.trans htu.renamed
  current := by
    rcases htu.current with hu | ⟨k, hk, hsince⟩
    · rw [hu]
      exact hst.current.imp_right fun ⟨k, hk, hsince⟩ => ⟨k, hk, hsince.mono htu.renamed⟩
    · exact .inr ⟨k, hk, hsince.of_le hst.renamed.length_le⟩
  layouts v hv := by
    rcases htu.layouts v hv with ⟨w, hw, hvw⟩ | ⟨k, hk, hsince⟩
    · rcases hst.layouts w hw with ⟨w', hw', hww'⟩ | ⟨k, hk, hsince⟩
      · exact .inl ⟨w', hw', hvw.trans hww'⟩
      · exact .inr ⟨k, hvw.trans hk, hsince.mono htu.renamed⟩
    · exact .inr ⟨k, hk, hsince.of_le hst.renamed.length_le⟩
  directory k h hk hkind :=
    htu.directory k (hst.directory k h hk hkind) (hk.trans_le hst.unused)
      ((hst.same k hk).2.trans hkind)
  lasting k h hk hkind :=
    htu.lasting k (hst.lasting k h hk hkind) (hk.trans_le hst.unused)
      ((hst.same k hk).2.trans hkind)

/-- No name, wherever it may be found again, refers to an inode that has not been made. -/
def Made (d : Disk) : Prop := ∀ v ∈ d.layouts, ∀ p k, v p = some k → k < d.unused

/-- The files that were put at the path since then are whole and have contents of `B`. -/
def Puts (path : Path) (B : Bytes → Prop) (n : ℕ) (d : Disk) : Prop :=
  ∀ k, d.Since path n k → d.Sealed k ∧ B (d.inode k).contents

theorem Published.of_spares (h : s.Published A path) (hspares : Spares directory path i s t)
    (hmade : t.Made) (hputs : t.Puts path (fun b => A (some b)) s.renamed.length) :
    t.Published A path where
  made := hmade
  shows v hv := by
    -- the layout shows at the path what one showed before, or what was put there meanwhile
    rcases hspares.layouts v hv with ⟨w, hw, hvw⟩ | ⟨k, hk, hsince⟩
    · rcases h.shows w hw with hnone | hshows
      · exact .inl ⟨hvw.trans hnone.1, hnone.2⟩
      · exact .inr ((hshows.of_eq hspares.unused hspares.whole).congr hvw)
    · exact .inr ⟨k, hk, hputs k hsince⟩

theorem Puts.of_spares {m : ℕ} (h : s.Puts path C n) (hspares : Spares directory path i s t)
    (hm : m = s.renamed.length) (hputs : t.Puts path B m) (hBC : ∀ b, B b → C b) :
    t.Puts path C n := by
  intro k hk
  obtain ⟨new, hnew⟩ := hspares.renamed
  -- the renaming is one of those before, whose file is sealed and so the same, or one of `new`
  by_cases hold : s.Since path n k
  · obtain ⟨hsealed, hb⟩ := h k hold
    have hinode := hspares.whole k hsealed
    exact ⟨hsealed.of_eq hspares.unused hinode, by rwa [hinode]⟩
  · have hsince : t.Since path m k := by
      rw [Since, ← hnew, List.drop_append, List.mem_append] at hk
      rw [Since, ← hnew, hm, List.drop_left]
      exact List.mem_of_mem_drop (hk.resolve_left hold)
    exact ⟨(hputs k hsince).1, hBC _ (hputs k hsince).2⟩

theorem lose_inode {loss : Loss} (h : s.Sealed k) : (s.lose loss).inode k = s.inode k :=
  if_pos h.synced

theorem lose_entries (loss : Loss) : (s.lose loss).entries ∈ s.layouts := by
  change s.layouts.getD loss.layout s.entries ∈ s.layouts
  rw [List.getD_eq_getElem?_getD]
  cases hget : s.layouts[loss.layout]? with
  | none => exact s.entries_mem_layouts
  | some v => exact List.mem_of_getElem? hget

theorem Puts.lose (h : s.Puts path C n) (loss : Loss) : (s.lose loss).Puts path C n := by
  intro k hk
  obtain ⟨hsealed, hb⟩ := h k hk
  have hinode := @lose_inode _ _ loss hsealed
  exact ⟨hsealed.of_eq le_rfl hinode, by rwa [hinode]⟩

theorem Shows.lose (h : s.Shows C path v) (loss : Loss) : (s.lose loss).Shows C path v :=
  h.of_eq le_rfl fun _ hk => lose_inode hk

theorem lose_layouts {loss : Loss} (hv : v ∈ (s.lose loss).layouts) : v ∈ s.layouts := by
  rcases mem_layouts.1 hv with rfl | hv
  · exact lose_entries loss
  · exact absurd hv List.not_mem_nil

theorem Published.lose (h : s.Published A path) (loss : Loss) : (s.lose loss).Published A path := by
  exact ⟨fun v hv => h.made v (lose_layouts hv), fun v hv =>
    (h.shows v (lose_layouts hv)).imp_right fun hshows => hshows.lose loss⟩

section create
variable {p : Path} {inode : Inode}

@[simp] theorem create_entries : (s.create p inode).entries =
    Function.update s.entries p (some s.unused) := rfl

theorem create_inode (k : ℕ) :
    (s.create p inode).inode k = if k = s.unused then inode else s.inode k :=
  Function.update_apply ..

theorem create_inode_of_lt (hk : k < s.unused) : (s.create p inode).inode k = s.inode k := by
  rw [create_inode, if_neg hk.ne]

theorem Made.create (h : s.Made) : (s.create p inode).Made := by
  intro v hv q k hq
  rcases mem_layouts.1 hv with rfl | hv
  · rw [create_entries, Function.update_apply] at hq
    split_ifs at hq
    · cases hq
      exact Nat.lt_succ_self _
    · exact (h _ s.entries_mem_layouts q k hq).trans (Nat.lt_succ_self _)
  · exact (h v hv q k hq).trans (Nat.lt_succ_self _)

theorem create_path (hp : p ≠ path) : (s.create p inode).entries path = s.entries path :=
  Function.update_of_ne hp.symm _ _

/-- A new name takes nothing from those that are there. -/
theorem create_named {q : Path} (hfree : s.entries p = none) (hq : s.entries q = some k) :
    (s.create p inode).entries q = some k := by
  have hne : q ≠ p := by
    rintro rfl
    rw [hfree] at hq
    cases hq
  rw [create_entries, Function.update_of_ne hne, hq]

theorem spares_create (hfree : s.entries p = none) (hp : p ≠ path) :
    Spares directory path i s (s.create p inode) where
  unused := Nat.le_succ _
  same k hk := by
    rw [create_inode_of_lt hk]
    exact ⟨rfl, rfl⟩
  whole k hk := create_inode_of_lt hk.made
  own k hk _ _ := create_inode_of_lt hk
  named _ _ hq _ _ _ := create_named hfree hq
  unpublished k hk _ h v hv := by
    rcases mem_layouts.1 hv with rfl | hv
    · rw [create_path hp]
      exact h _ s.entries_mem_layouts
    · exact h v hv
  renamed := List.prefix_rfl
  current := .inl (create_path hp)
  layouts v hv := by
    rcases mem_layouts.1 hv with rfl | hv
    · exact .inl ⟨_, s.entries_mem_layouts, create_path hp⟩
    · exact .inl ⟨v, hv, rfl⟩
  directory _ h _ _ := create_named hfree h
  lasting k h _ _ v hv := by
    rcases mem_layouts.1 hv with rfl | hv
    · exact create_named hfree (h _ s.entries_mem_layouts)
    · exact h v hv

end create

section setInode
variable {inode : Inode}

theorem setInode_inode (k' : ℕ) :
    (s.setInode k inode).inode k' = if k' = k then inode else s.inode k' :=
  Function.update_apply ..

theorem Made.write {offset : ℕ} {bytes : Bytes} (h : s.Made) : (s.write k offset bytes).Made := h

/-- Another file, which no one has synced, is written. -/
theorem spares_setInode (hcreator : (s.inode k).creator ≠ i) (hsynced : (s.inode k).synced = false)
    (hsame : inode.creator = (s.inode k).creator ∧ inode.kind = (s.inode k).kind) :
    Spares directory path i s (s.setInode k inode) where
  unused := le_rfl
  same k' _ := by
    rw [setInode_inode]
    split_ifs with hk
    · exact hk ▸ hsame
    · exact ⟨rfl, rfl⟩
  whole k' h := by
    rw [setInode_inode, if_neg]
    -- a sealed file is synced, and this one is not
    rintro rfl
    rw [h.synced] at hsynced
    cases hsynced
  own k' _ hk' _ := by
    rw [setInode_inode, if_neg]
    rintro rfl
    exact hcreator hk'
  named _ _ h _ _ _ := h
  unpublished _ _ _ h := h
  renamed := List.prefix_rfl
  current := .inl rfl
  layouts v hv := .inl ⟨v, hv, rfl⟩
  directory _ h _ _ := h
  lasting _ h _ _ := h

end setInode

section sync

theorem sync_inode (k' : ℕ) : (s.sync k).inode k' =
    if k' = k then { s.inode k with synced := true } else s.inode k' :=
  Function.update_apply ..

theorem sync_layouts (hv : v ∈ (s.sync k).layouts) :
    v = s.entries ∨ ∃ w ∈ s.older, ∀ p, v p =
      if (Path.parent p).bind s.entries = some k ∧ (Path.parent p).bind w = some k then
        s.entries p
      else w p := by
  rcases mem_layouts.1 hv with rfl | hv
  · exact .inl rfl
  · obtain ⟨w, hw, rfl⟩ := List.mem_map.1 hv
    exact .inr ⟨w, hw, fun p => rfl⟩

/-- At each path a sync shows what was shown there before. -/
theorem sync_layouts_path (hv : v ∈ (s.sync k).layouts) (p : Path) :
    ∃ w ∈ s.layouts, v p = w p := by
  rcases sync_layouts hv with rfl | ⟨w, hw, hvw⟩
  · exact ⟨_, s.entries_mem_layouts, rfl⟩
  · rw [hvw]
    split_ifs
    · exact ⟨_, s.entries_mem_layouts, rfl⟩
    · exact ⟨w, mem_layouts.2 (.inr hw), rfl⟩

theorem Made.sync (h : s.Made) : (s.sync k).Made := by
  intro v hv p k' hp
  obtain ⟨w, hw, hvw⟩ := sync_layouts_path hv p
  exact h w hw p k' (hvw ▸ hp)

theorem spares_sync (h : (s.inode k).creator ≠ i ∨ (s.inode k).kind ≠ .file) :
    Spares directory path i s (s.sync k) where
  unused := le_rfl
  same k' _ := by
    rw [sync_inode]
    split_ifs with hk
    · rw [hk]
      exact ⟨rfl, rfl⟩
    · exact ⟨rfl, rfl⟩
  whole k' hk' := by
    rw [sync_inode]
    split_ifs with hk
    · rw [← hk, ← hk'.synced]
    · rfl
  own k' _ hcreator hfile := by
    rw [sync_inode, if_neg]
    rintro rfl
    exact h.elim (fun hne => hne hcreator) fun hne => hne hfile
  named _ _ h _ _ _ := h
  unpublished k' _ _ hk' v hv := by
    obtain ⟨w, hw, hvw⟩ := sync_layouts_path hv path
    rw [hvw]
    exact hk' w hw
  renamed := List.prefix_rfl
  current := .inl rfl
  layouts v hv := .inl (sync_layouts_path hv path)
  directory _ h _ _ := h
  lasting k' h _ _ v hv := by
    obtain ⟨w, hw, hvw⟩ := sync_layouts_path hv directory
    rw [hvw, h w hw]

end sync

section rename
variable {source : Path}

theorem rename_entries (hne : source ≠ path) (p : Path) : (s.rename source path k).entries p =
    if p = path then some k else if p = source then none else s.entries p := by
  rw [Disk.rename, if_neg hne]
  change Function.update (Function.update s.entries source none) path (some k) p = _
  rw [Function.update_apply, Function.update_apply]

theorem rename_layouts (hne : source ≠ path) :
    (s.rename source path k).layouts = (s.rename source path k).entries :: s.layouts := by
  rw [Disk.rename, if_neg hne]
  rfl

theorem rename_renamed (hne : source ≠ path) :
    (s.rename source path k).renamed = s.renamed ++ [(path, k)] := by
  rw [Disk.rename, if_neg hne]

theorem rename_inode : (s.rename source path k).inode = s.inode := by
  unfold Disk.rename
  split_ifs <;> rfl

theorem rename_unused : (s.rename source path k).unused = s.unused := by
  unfold Disk.rename
  split_ifs <;> rfl

theorem Made.rename (h : s.Made) (hne : source ≠ path) (hsource : s.entries source = some k) :
    (s.rename source path k).Made := by
  intro v hv p k' hp
  rw [rename_unused]
  rw [rename_layouts hne, List.mem_cons] at hv
  rcases hv with rfl | hv
  · rw [rename_entries hne] at hp
    split_ifs at hp
    · cases hp
      exact h _ s.entries_mem_layouts source _ hsource
    · exact h _ s.entries_mem_layouts p k' hp
  · exact h v hv p k' hp

theorem since_rename (hne : source ≠ path) (hn : n ≤ s.renamed.length) :
    (s.rename source path k).Since path n k := by
  rw [Since, rename_renamed hne, List.drop_append_of_le_length hn]
  exact List.mem_append_right _ (List.mem_singleton_self _)

theorem puts_rename (hne : source ≠ path) (hsealed : s.Sealed k) (hB : B (s.inode k).contents) :
    (s.rename source path k).Puts path B s.renamed.length := by
  intro k' hk'
  rw [Since, rename_renamed hne, List.drop_left, List.mem_singleton] at hk'
  cases hk'
  exact ⟨hsealed.of_eq rename_unused.ge (by rw [rename_inode]), by rwa [rename_inode]⟩

/-- A directory keeps its name when a file is renamed. -/
theorem rename_named {j : ℕ} (hne : source ≠ path) (hsource : s.entries source = some k)
    (hfile : (s.inode k).kind = .file) (hdirectory : directory ≠ path)
    (h : s.entries directory = some j) (hkind : (s.inode j).kind = .directory) :
    (s.rename source path k).entries directory = some j := by
  have hdsource : directory ≠ source := by
    rintro rfl
    rw [hsource] at h
    cases h
    rw [hfile] at hkind
    cases hkind
  rw [rename_entries hne, if_neg hdirectory, if_neg hdsource, h]

theorem spares_rename (hne : source ≠ path) (hsource : s.entries source = some k)
    (hcreator : (s.inode k).creator ≠ i) (hfile : (s.inode k).kind = .file)
    (hdirectory : directory ≠ path) : Spares directory path i s (s.rename source path k) where
  unused := rename_unused.ge
  same k' _ := by
    rw [rename_inode]
    exact ⟨rfl, rfl⟩
  whole k' _ := by rw [rename_inode]
  own k' _ _ _ := by rw [rename_inode]
  named p k' hp _ hk' hpath := by
    -- the name that is taken away is that of a file the process did not make
    have hpsource : p ≠ source := by
      rintro rfl
      rw [hsource] at hp
      cases hp
      exact hcreator hk'
    rw [rename_entries hne, if_neg hpath, if_neg hpsource, hp]
  unpublished k' _ hk' h v hv := by
    rw [rename_layouts hne, List.mem_cons] at hv
    rcases hv with rfl | hv
    · rw [rename_entries hne, if_pos rfl]
      rintro hkk
      cases hkk
      exact hcreator hk'
    · exact h v hv
  renamed := rename_renamed hne ▸ List.prefix_append _ _
  current := .inr ⟨k, by rw [rename_entries hne, if_pos rfl], since_rename hne le_rfl⟩
  layouts v hv := by
    rw [rename_layouts hne, List.mem_cons] at hv
    rcases hv with rfl | hv
    · exact .inr ⟨k, by rw [rename_entries hne, if_pos rfl], since_rename hne le_rfl⟩
    · exact .inl ⟨v, hv, rfl⟩
  directory _ h _ hkind := rename_named hne hsource hfile hdirectory h hkind
  lasting k' h _ hkind v hv := by
    rw [rename_layouts hne, List.mem_cons] at hv
    rcases hv with rfl | hv
    · exact rename_named hne hsource hfile hdirectory (h _ s.entries_mem_layouts) hkind
    · exact h v hv

end rename

theorem Made.remove (h : s.Made) : (s.remove path).Made := by
  intro v hv p k hp
  rcases mem_layouts.1 hv with rfl | hv
  · change Function.update s.entries path none p = some k at hp
    rw [Function.update_apply] at hp
    split_ifs at hp
    exact h _ s.entries_mem_layouts p k hp
  · exact h v hv p k hp

/-- The process `j` has a file of its own under a name that is not the path, and nothing that may
be found again shows it at the path. -/
structure Holds (path : Path) (j : ℕ) (name : Path) (k : ℕ) (d : Disk) : Prop where
  named : d.entries name = some k
  apart : name ≠ path
  made : k < d.unused
  creator : (d.inode k).creator = j
  file : (d.inode k).kind = .file
  unpublished : ∀ v ∈ d.layouts, v path ≠ some k

/-- What a process has is left as it is. -/
theorem Holds.of_spares {name : Path} (h : s.Holds path j name k)
    (hspares : Spares directory path j s t) :
    t.Holds path j name k ∧ t.inode k = s.inode k := by
  have hinode := hspares.own k h.made h.creator h.file
  refine ⟨⟨hspares.named _ k h.named h.made h.creator h.apart, h.apart,
    h.made.trans_le hspares.unused, ?_, ?_, hspares.unpublished k h.made h.creator h.unpublished⟩,
    hinode⟩
  · rw [hinode, h.creator]
  · rw [hinode, h.file]

theorem holds_create {p : Path} {inode : Inode} (h : s.Made) (hp : p ≠ path)
    (hcreator : inode.creator = j) (hfile : inode.kind = .file) :
    (s.create p inode).Holds path j p s.unused where
  named := by rw [create_entries, Function.update_self]
  apart := hp
  made := Nat.lt_succ_self _
  creator := by rw [create_inode, if_pos rfl, hcreator]
  file := by rw [create_inode, if_pos rfl, hfile]
  unpublished v hv hpath := by
    -- no layout, of now or before, names an inode that was not made
    rcases mem_layouts.1 hv with rfl | hv
    · rw [create_path hp] at hpath
      exact (h _ s.entries_mem_layouts path _ hpath).ne rfl
    · exact (h v hv path _ hpath).ne rfl

theorem Holds.setInode {name : Path} {inode : Inode} (h : s.Holds path j name k)
    (hsame : inode.creator = (s.inode k).creator ∧ inode.kind = (s.inode k).kind) :
    (s.setInode k inode).Holds path j name k where
  named := h.named
  apart := h.apart
  made := h.made
  creator := by rw [setInode_inode, if_pos rfl, hsame.1, h.creator]
  file := by rw [setInode_inode, if_pos rfl, hsame.2, h.file]
  unpublished := h.unpublished

theorem Holds.sync {name : Path} (h : s.Holds path j name k) :
    (s.sync k).Holds path j name k ∧ (s.sync k).Sealed k := by
  have hinode : (s.sync k).inode k = { s.inode k with synced := true } := by
    rw [sync_inode, if_pos rfl]
  refine ⟨⟨h.named, h.apart, h.made, ?_, ?_, ?_⟩, h.made, ?_, ?_⟩
  · rw [hinode]
    exact h.creator
  · rw [hinode]
    exact h.file
  · intro v hv
    obtain ⟨w, hw, hvw⟩ := sync_layouts_path hv path
    rw [hvw]
    exact h.unpublished w hw
  · rw [hinode]
    exact h.file
  · rw [hinode]

/-- The directory of the path is there. -/
structure HasDirectory (directory : Path) (d : Disk) (k : ℕ) : Prop where
  named : d.entries directory = some k
  made : k < d.unused
  kind : (d.inode k).kind = .directory

theorem HasDirectory.of_spares (h : s.HasDirectory directory k)
    (hspares : Spares directory path i s t) : t.HasDirectory directory k :=
  ⟨hspares.directory k h.named h.made h.kind, h.made.trans_le hspares.unused,
    (hspares.same k h.made).2.trans h.kind⟩

theorem HasDirectory.follow (h : s.HasDirectory directory k) (fuel : ℕ) :
    s.follow (fuel + 1) directory = some k := by
  rw [Disk.follow, h.named, Option.bind_some]
  simp only [h.kind]

/-- The directory of the path is there, whatever is lost. -/
structure Lasting (directory : Path) (d : Disk) (k : ℕ) : Prop
    extends HasDirectory directory d k where
  everywhere : ∀ v ∈ d.layouts, v directory = some k

theorem Lasting.of_spares (h : s.Lasting directory k) (hspares : Spares directory path i s t) :
    t.Lasting directory k :=
  ⟨h.toHasDirectory.of_spares hspares, hspares.lasting k h.everywhere h.made h.kind⟩

theorem Lasting.lose (h : s.Lasting directory k) (loss : Loss) :
    (s.lose loss).Lasting directory k where
  named := h.everywhere _ (lose_entries loss)
  everywhere v hv := h.everywhere v (lose_layouts hv)
  made := h.made
  kind := by
    change (if (s.inode k).synced then s.inode k else _).kind = _
    split_ifs <;> exact h.kind

/-- Once the directory is synced, what is at the path now is found there wherever the directory
itself is found. -/
theorem HasDirectory.sync {l : ℕ} (h : s.HasDirectory directory k)
    (hlasting : s.Lasting directory l) (hpath : Path.parent path = some directory)
    (hv : v ∈ (s.sync k).layouts) : v path = s.entries path := by
  rcases sync_layouts hv with rfl | ⟨w, hw, hvw⟩
  · rfl
  · -- the older layout names the same directory, so the sync publishes the name in it
    have hwk : w directory = some k := by
      rw [hlasting.everywhere w (mem_layouts.2 (.inr hw)), ← hlasting.named, h.named]
    rw [hvw, hpath, Option.bind_some, Option.bind_some, if_pos ⟨h.named, hwk⟩]

/-- At the path is what was put there since. -/
def InPlace (path : Path) (n : ℕ) (d : Disk) (v : Layout) : Prop :=
  ∃ k, v path = some k ∧ d.Since path n k

theorem Since.le (h : s.Since path n k) : n ≤ s.renamed.length := by
  by_contra hn
  rw [Since, List.drop_eq_nil_of_le (not_le.1 hn).le] at h
  exact List.not_mem_nil h

theorem InPlace.of_spares (h : s.InPlace path n s.entries) (hspares : Spares directory path i s t) :
    t.InPlace path n t.entries := by
  obtain ⟨k, hk, hsince⟩ := h
  rcases hspares.current with hsame | ⟨k', hk', hsince'⟩
  · exact ⟨k, hsame.trans hk, hsince.mono hspares.renamed⟩
  · exact ⟨k', hk', hsince'.of_le hsince.le⟩

theorem InPlace.layouts_of_spares (h : ∀ v ∈ s.layouts, s.InPlace path n v)
    (hspares : Spares directory path i s t) : ∀ v ∈ t.layouts, t.InPlace path n v := by
  intro v hv
  -- what is put there later is put there after the first `n` renamings too
  obtain ⟨_, _, hlast⟩ := h _ s.entries_mem_layouts
  rcases hspares.layouts v hv with ⟨w, hw, hvw⟩ | ⟨k, hk, hsince⟩
  · obtain ⟨k, hk, hsince⟩ := h w hw
    exact ⟨k, hvw.trans hk, hsince.mono hspares.renamed⟩
  · exact ⟨k, hk, hsince.of_le hlast.le⟩

theorem InPlace.lose (h : ∀ v ∈ s.layouts, s.InPlace path n v) (loss : Loss) :
    ∀ v ∈ (s.lose loss).layouts, (s.lose loss).InPlace path n v :=
  fun v hv => h v (lose_layouts hv)

theorem published_of_inPlace (hmade : s.Made) (hputs : s.Puts path C n)
    (h : ∀ v ∈ s.layouts, s.InPlace path n v) :
    s.Published (fun b? => ∃ b ∈ b?, C b) path where
  made := hmade
  shows v hv := by
    obtain ⟨k, hk, hsince⟩ := h v hv
    obtain ⟨hsealed, hC⟩ := hputs k hsince
    exact .inr ⟨k, hk, hsealed, _, rfl, hC⟩

end Disk

open Program

/-- The conduct of a process that replaces the file at the path by files with contents of `B`. -/
def replacing (directory path : Path) (A : Option Bytes → Prop) (B : Bytes → Prop) (j : ℕ) :
    Conduct Disk where
  invariant := Disk.Published A path
  rely := Disk.Spares directory path j
  guarantee s t := (∀ i, i ≠ j → Disk.Spares directory path i s t) ∧
    t.Puts path B s.renamed.length
  rely_refl := Disk.Spares.refl
  rely_trans _ _ _ := Disk.Spares.trans

section replacing
variable {caller : Caller} {directory path : Path} {A : Option Bytes → Prop} {B : Bytes → Prop}
  {s t : Disk} {j k n : ℕ}

/-- What no one who spares the others can make false. -/
def Framed (directory path : Path) (F : Disk → Prop) : Prop :=
  ∀ (i : ℕ) (s t : Disk), s.Spares directory path i t → F s → F t

theorem Framed.and {F G : Disk → Prop} (hF : Framed directory path F)
    (hG : Framed directory path G) : Framed directory path fun d => F d ∧ G d :=
  fun i s t hst h => ⟨hF i s t hst h.1, hG i s t hst h.2⟩

theorem framed_true : Framed directory path fun _ => True := fun _ _ _ _ _ => trivial

theorem framed_hasDirectory : Framed directory path fun d => d.HasDirectory directory k :=
  fun _ _ _ hspares hk => hk.of_spares hspares

theorem framed_exists_hasDirectory :
    Framed directory path fun d => ∃ k, d.HasDirectory directory k :=
  fun _ _ _ hspares ⟨k, hk⟩ => ⟨k, hk.of_spares hspares⟩

theorem framed_renamed : Framed directory path fun d => n ≤ d.renamed.length :=
  fun _ _ _ hspares hn => hn.trans hspares.renamed.length_le

theorem framed_lasting : Framed directory path fun d => d.Lasting directory k :=
  fun _ _ _ hspares hk => hk.of_spares hspares

variable {F : Disk → Prop}

theorem Framed.stable (hF : Framed directory path F) : (replacing directory path A B j).Stable F :=
  fun s t hst _ hs => hF _ s t hst hs

theorem puts_nothing (h : t.renamed = s.renamed) : t.Puts path B s.renamed.length := by
  intro k hk
  rw [Disk.Since, h, List.drop_length] at hk
  exact absurd hk List.not_mem_nil

theorem guarantee_refl (s : Disk) : (replacing directory path A B j).guarantee s s :=
  ⟨fun _ _ => Disk.Spares.refl s, puts_nothing rfl⟩

/-- A step that spares the others keeps the conduct, and what is framed. -/
theorem replacing_step (hF : Framed directory path F) (hB : ∀ b, B b → A (some b))
    (hs : s.Published A path) (hFs : F s) (hmade : t.Made)
    (hspares : ∀ i, i ≠ j → Disk.Spares directory path i s t)
    (hputs : t.Puts path B s.renamed.length) :
    (replacing directory path A B j).invariant t ∧
      (replacing directory path A B j).guarantee s t ∧ F t :=
  have hother := hspares (j + 1) (Nat.succ_ne_self j)
  ⟨hs.of_spares hother hmade fun k hk => ⟨(hputs k hk).1, hB _ (hputs k hk).2⟩,
    ⟨hspares, hputs⟩, hF _ _ _ hother hFs⟩

theorem meets_reads {α : Type} {P : Disk → Prop} {x : FileProgram α} (hx : x.Only Call.Reads)
    (hP : (replacing directory path A B j).Stable P) :
    Meets (answer caller) (replacing directory path A B j) P x fun _ => P :=
  meets_of_only hx (fun _ => answer_of_reads caller) guarantee_refl hP

theorem yields_reads {α ε : Type} {P : Disk → Prop} {x : ExceptT ε FileProgram α}
    (hx : x.run.Only Call.Reads) (hP : (replacing directory path A B j).Stable P) :
    Yields (answer caller) (replacing directory path A B j) P x fun _ => P :=
  (meets_reads hx hP).consequence (fun _ _ h => h) fun _ _ _ h _ _ => h

/-- What is reported of the directory is so from then on. -/
theorem meets_inspectDirectory (hF : Framed directory path F) :
    Meets (answer caller) (replacing directory path A B j) F
      (symlinkMetadata directory).run fun r d => F d ∧ ∀ metadata, r = .ok metadata →
        metadata.kind = .directory → d.HasDirectory directory metadata.inode := by
  refine meets_perform (c := Call.symlinkMetadata directory) hF.stable (fun r => hF.stable.and ?_)
    fun s fate hs hFs => ?_
  · exact fun s t hst ht h metadata hm hkind =>
      framed_hasDirectory.stable s t hst ht (h metadata hm hkind)
  rw [answer_of_reads caller (c := Call.symlinkMetadata directory) trivial]
  refine ⟨hs, guarantee_refl s, hFs, fun metadata hm hkind => ?_⟩
  obtain ⟨k, hk, rfl⟩ := answer_symlinkMetadata hm
  exact ⟨hk, hs.made _ s.entries_mem_layouts _ _ hk, hkind⟩

/-- A file of this process, and what is in it. -/
structure Drafts (path : Path) (j : ℕ) (name : Path) (k : ℕ) (contents : Bytes) (d : Disk) :
    Prop where
  holds : d.Holds path j name k
  synced : (d.inode k).synced = false
  contents : (d.inode k).contents = contents

/-- A file of this process, complete on the medium. -/
structure Ready (path : Path) (j : ℕ) (name : Path) (k : ℕ) (contents : Bytes) (d : Disk) :
    Prop where
  holds : d.Holds path j name k
  whole : d.Sealed k
  contents : (d.inode k).contents = contents

variable {name : Path} {contents : Bytes}

theorem stable_drafts :
    (replacing directory path A B j).Stable (Drafts path j name k contents) := by
  intro s t hst _ hs
  obtain ⟨hholds, hinode⟩ := hs.holds.of_spares hst
  exact ⟨hholds, by rw [hinode, hs.synced], by rw [hinode, hs.contents]⟩

theorem stable_ready : (replacing directory path A B j).Stable (Ready path j name k contents) := by
  intro s t hst _ hs
  obtain ⟨hholds, hinode⟩ := hs.holds.of_spares hst
  exact ⟨hholds, hs.whole.of_eq hst.unused hinode, by rw [hinode, hs.contents]⟩

theorem stable_inPlace :
    (replacing directory path A B j).Stable fun d => d.InPlace path n d.entries :=
  fun _ _ hst _ hs => hs.of_spares hst

theorem stable_inPlace_layouts :
    (replacing directory path A B j).Stable fun d => ∀ v ∈ d.layouts, d.InPlace path n v :=
  fun _ _ hst _ hs => Disk.InPlace.layouts_of_spares hs hst

section
variable (hF : Framed directory path F) (hB : ∀ b, B b → A (some b))
include hF hB

theorem meets_createNew {p : Path} {mode : UInt32} (hp : p ≠ path) :
    Meets (answer caller) (replacing directory path A B caller.process) F (createNew p mode).run
      fun r d => F d ∧ ∀ k, r = .ok k → Drafts path caller.process p k [] d := by
  refine meets_perform (c := Call.createNew p mode) hF.stable (fun r => hF.stable.and ?_)
    fun s fate hs hFs => ?_
  · exact fun s t hst ht h k hk => stable_drafts s t hst ht (h k hk)
  rcases answer_createNew caller s fate p mode with ⟨error, h⟩ | ⟨hfree, h⟩ <;> rw [h]
  · exact ⟨hs, guarantee_refl s, hFs, fun k hk => nomatch hk⟩
  · obtain ⟨hkept, hguar, hFt⟩ := replacing_step (j := caller.process) hF hB hs hFs
      (Disk.Made.create hs.made) (fun i _ => Disk.spares_create hfree hp) (puts_nothing rfl)
    refine ⟨hkept, hguar, hFt, fun k hk => ?_⟩
    cases hk
    exact ⟨Disk.holds_create hs.made hp rfl rfl, by rw [Disk.create_inode, if_pos rfl]; rfl,
      by rw [Disk.create_inode, if_pos rfl]; rfl⟩

theorem meets_createDir {p : Path} {mode : UInt32} (hp : p ≠ path) :
    Meets (answer caller) (replacing directory path A B caller.process) F (createDir p mode).run
      fun _ => F := by
  refine meets_perform (c := Call.createDir p mode) hF.stable (fun r => hF.stable)
    fun s fate hs hFs => ?_
  rcases answer_createDir caller s fate p mode with ⟨error, h⟩ | ⟨hfree, h⟩ <;> rw [h]
  · exact ⟨hs, guarantee_refl s, hFs⟩
  · exact replacing_step hF hB hs hFs (Disk.Made.create hs.made)
      (fun i _ => Disk.spares_create hfree hp) (puts_nothing rfl)

/-- What is written at the end of a draft is added to it. -/
theorem meets_write {bytes : Bytes} :
    Meets (answer caller) (replacing directory path A B caller.process)
      (fun d => F d ∧ Drafts path caller.process name k contents d)
      (write k contents.length bytes).run fun r d => F d ∧ ∀ count, r = .ok count →
        count ≤ bytes.length ∧
          Drafts path caller.process name k (contents ++ bytes.take count) d := by
  refine meets_perform (c := Call.write k contents.length bytes) (hF.stable.and stable_drafts)
    (fun r => hF.stable.and ?_) fun s fate hs ⟨hFs, hdraft⟩ => ?_
  · exact fun s t hst ht h count hcount =>
      ⟨(h count hcount).1, stable_drafts s t hst ht (h count hcount).2⟩
  rcases answer_write caller s fate k contents.length bytes with ⟨error, h⟩ | ⟨count, hle, h⟩ <;>
    rw [h]
  · exact ⟨hs, guarantee_refl s, hFs, fun k hk => nomatch hk⟩
  · have hspares (i : ℕ) (hi : i ≠ caller.process) :
        s.Spares directory path i (s.write k contents.length (bytes.take count)) := by
      refine Disk.spares_setInode ?_ hdraft.synced ⟨rfl, rfl⟩
      rw [hdraft.holds.creator]
      exact hi.symm
    obtain ⟨hkept, hguar, hFt⟩ :=
      replacing_step hF hB hs hFs (Disk.Made.write hs.made) hspares (puts_nothing rfl)
    refine ⟨hkept, hguar, hFt, fun n hn => ?_⟩
    cases hn
    refine ⟨hle, hdraft.holds.setInode ⟨rfl, rfl⟩, ?_, ?_⟩
    · rw [Disk.write, Disk.setInode_inode, if_pos rfl]
    · rw [Disk.write, Disk.setInode_inode, if_pos rfl, hdraft.contents, List.take_length,
        List.drop_eq_nil_of_le (Nat.le_add_right _ _), List.append_nil]

theorem meets_sync :
    Meets (answer caller) (replacing directory path A B caller.process)
      (fun d => F d ∧ Drafts path caller.process name k contents d)
      (syncAll k).run
      fun r d => F d ∧ (r = .ok () → Ready path caller.process name k contents d) := by
  refine meets_perform (c := Call.sync k) (hF.stable.and stable_drafts)
    (fun r => hF.stable.and stable_ready.imp) fun s fate hs ⟨hFs, hdraft⟩ => ?_
  rcases answer_sync caller s fate k with ⟨error, h⟩ | h <;> rw [h]
  · exact ⟨hs, guarantee_refl s, hFs, fun hk => nomatch hk⟩
  · have hspares (i : ℕ) (hi : i ≠ caller.process) : s.Spares directory path i (s.sync k) :=
      Disk.spares_sync (.inl (hdraft.holds.creator ▸ hi.symm))
    obtain ⟨hkept, hguar, hFt⟩ :=
      replacing_step hF hB hs hFs (Disk.Made.sync hs.made) hspares (puts_nothing rfl)
    obtain ⟨hholds, hwhole⟩ := hdraft.holds.sync
    exact ⟨hkept, hguar, hFt, fun _ =>
      ⟨hholds, hwhole, by rw [Disk.sync_inode, if_pos rfl, hdraft.contents]⟩⟩

/-- The file is renamed over the path: it, or a later one, is there from now on. -/
theorem meets_rename (hdirectory : directory ≠ path) (hn : ∀ d, F d → n ≤ d.renamed.length)
    (hcontents : B contents) :
    Meets (answer caller) (replacing directory path A B caller.process)
      (fun d => F d ∧ Ready path caller.process name k contents d)
      (rename name path).run fun r d => F d ∧ (r = .ok () → d.InPlace path n d.entries) := by
  refine meets_perform (c := Call.rename name path) (hF.stable.and stable_ready)
    (fun r => hF.stable.and stable_inPlace.imp) fun s fate hs ⟨hFs, hready⟩ => ?_
  rcases answer_rename caller s fate name path with ⟨error, h⟩ | ⟨k', hk', h⟩ <;> rw [h]
  · exact ⟨hs, guarantee_refl s, hFs, fun hk => nomatch hk⟩
  · -- no other has taken the name of this process's file
    obtain rfl : k = k' := Option.some.inj (hready.holds.named.symm.trans hk')
    have hspares (i : ℕ) (hi : i ≠ caller.process) :
        s.Spares directory path i (s.rename name path k) :=
      Disk.spares_rename hready.holds.apart hk' (hready.holds.creator ▸ hi.symm) hready.holds.file
        hdirectory
    obtain ⟨hkept, hguar, hFt⟩ := replacing_step hF hB hs hFs
      (Disk.Made.rename hs.made hready.holds.apart hk') hspares
      (Disk.puts_rename hready.holds.apart hready.whole (hready.contents.symm ▸ hcontents))
    refine ⟨hkept, hguar, hFt, fun _ => ⟨k, ?_, Disk.since_rename hready.holds.apart (hn s hFs)⟩⟩
    rw [Disk.rename_entries hready.holds.apart, if_pos rfl]

/-- A draft is written and synced. -/
theorem yields_writeSynced {bytes : Bytes} :
    Yields (answer caller) (replacing directory path A B caller.process)
      (fun d => F d ∧ Drafts path caller.process name k [] d)
      (do writeAll k bytes; syncAll k)
      fun _ d => F d ∧ Ready path caller.process name k bytes d := by
  refine Yields.bind (yields_writeAll (D := fun c d => F d ∧ Drafts path caller.process name k c d)
    (fun _ => hF.stable.and stable_drafts) fun c bytes => ?_) fun _ => ?_
  · refine (meets_write hF hB).consequence (fun _ _ h => h) fun r d _ h count hcount => ?_
    exact ⟨⟨h.1, (h.2 count hcount).2⟩, (h.2 count hcount).1⟩
  exact (meets_sync hF hB).consequence (fun s _ h => h) fun r d _ h _ hr => ⟨h.1, h.2 hr⟩

end

theorem meets_openDirectory {P : Disk → Prop} (hP : (replacing directory path A B j).Stable P)
    (hdirectory : ∀ d, P d → ∃ k, d.HasDirectory directory k) :
    Meets (answer caller) (replacing directory path A B j) P (openFile directory false).run
      fun r d => P d ∧ ∀ k, r = .ok k → d.HasDirectory directory k := by
  refine meets_perform (c := Call.openFile directory false) hP (fun r => hP.and ?_)
    fun s fate hs hPs => ?_
  · exact fun s t hst ht h k hk => framed_hasDirectory.stable s t hst ht (h k hk)
  obtain ⟨k, hk⟩ := hdirectory s hPs
  rw [answer_of_reads caller (c := Call.openFile directory false) trivial]
  refine ⟨hs, guarantee_refl s, hPs, fun k' hk' => ?_⟩
  have hfollow := answer_openFile hk'
  rw [if_neg (by decide), Disk.maxLinks, hk.follow 39] at hfollow
  cases hfollow
  exact hk

/-- Once the directory is synced, whatever is lost, what is in place stays there if the directory
itself does. -/
theorem meets_syncDirectory (hF : Framed directory path F) (hB : ∀ b, B b → A (some b))
    (hpath : Path.parent path = some directory) :
    Meets (answer caller) (replacing directory path A B caller.process)
      (fun d => (F d ∧ d.InPlace path n d.entries) ∧ d.HasDirectory directory k)
      (syncAll k).run fun r d => d.InPlace path n d.entries ∧ (r = .ok () →
        (∀ d, F d → ∃ l, d.Lasting directory l) → ∀ v ∈ d.layouts, d.InPlace path n v) := by
  refine meets_perform (c := Call.sync k)
    ((hF.stable.and stable_inPlace).and framed_hasDirectory.stable)
    (fun r => stable_inPlace.and stable_inPlace_layouts.imp.imp)
    fun s fate hs ⟨⟨hFs, hplace⟩, hk⟩ => ?_
  rcases answer_sync caller s fate k with ⟨error, h⟩ | h <;> rw [h]
  · exact ⟨hs, guarantee_refl s, hplace, fun hk => nomatch hk⟩
  · have hspares (i : ℕ) (_ : i ≠ caller.process) : s.Spares directory path i (s.sync k) := by
      refine Disk.spares_sync (.inr ?_)
      rw [hk.kind]
      decide
    obtain ⟨hkept, hguar, -⟩ := replacing_step framed_true hB hs trivial
      (Disk.Made.sync hs.made) hspares (puts_nothing rfl)
    obtain ⟨k', hk', hsince⟩ := hplace
    refine ⟨hkept, hguar, ⟨k', hk', hsince⟩, fun _ hlasting v hv => ?_⟩
    obtain ⟨l, hl⟩ := hlasting s hFs
    exact ⟨k', (hk.sync hl hpath hv).trans hk', hsince⟩

section load
variable {c : Bytes}

/-- An open file, all of which is on the medium. -/
structure Opened (k : ℕ) (c : Bytes) (d : Disk) : Prop where
  whole : d.Sealed k
  contents : (d.inode k).contents = c

theorem stable_opened : (replacing directory path A B j).Stable (Opened k c) := by
  intro s t hst _ hs
  have hinode := hst.whole k hs.whole
  exact ⟨hs.whole.of_eq hst.unused hinode, by rw [hinode, hs.contents]⟩

theorem Disk.Sealed.follow {p : Path} (h : s.Sealed k) (hp : s.entries p = some k) (fuel : ℕ) :
    s.follow (fuel + 1) p = some k := by
  rw [Disk.follow, hp, Option.bind_some]
  simp only [h.file]

/-- What is opened at the path is one of the files published there. -/
theorem meets_openPublished {noFollow : Bool} :
    Meets (answer caller) (replacing directory path A B j) (fun _ => True)
      (openFile path noFollow).run
      fun r d => ∀ k, r = .ok k → ∃ c, Opened k c d ∧ A (some c) := by
  refine meets_perform (c := Call.openFile path noFollow) framed_true.stable (fun r => ?_)
    fun s fate hs _ => ?_
  · intro s t hst ht h k hk
    obtain ⟨c, hopened, hc⟩ := h k hk
    exact ⟨c, stable_opened s t hst ht hopened, hc⟩
  rw [answer_of_reads caller (c := Call.openFile path noFollow) trivial]
  refine ⟨hs, guarantee_refl s, fun k hk => ?_⟩
  -- what is published is no link, so following it or not makes no difference
  have hfollow := answer_openFile hk
  rcases hs.shows _ s.entries_mem_layouts with ⟨hnone, -⟩ | ⟨k', hk', hsealed, hA⟩
  · have hlost : s.follow Disk.maxLinks path = none := by
      rw [Disk.maxLinks, Disk.follow, hnone, Option.bind_none]
    rw [hnone, hlost, ite_self] at hfollow
    cases hfollow
  · rw [Disk.maxLinks, hsealed.follow hk' 39, hk', ite_self] at hfollow
    cases hfollow
    exact ⟨_, ⟨hsealed, rfl⟩, hA⟩

theorem yields_readOpened {limit : ℕ} :
    Yields (answer caller) (replacing directory path A B j) (Opened k c) (readToEnd k limit)
      fun r d => Opened k c d ∧ r = c.take limit := by
  refine yields_readToEnd stable_opened fun offset limit => ?_
  refine meets_perform (c := Call.read k offset limit) stable_opened
    (fun r s t hst ht h chunk hchunk => ⟨stable_opened s t hst ht (h chunk hchunk).1,
      (h chunk hchunk).2⟩) fun s fate hs hopened => ?_
  rw [answer_of_reads caller (c := Call.read k offset limit) trivial]
  refine ⟨hs, guarantee_refl s, fun chunk hchunk => ⟨hopened, ?_⟩⟩
  exact hopened.contents ▸ answer_read hchunk

end load

end replacing

end Files
