import XusMiner.Library.AtomicReplace

/-! Calls that no one interferes with and that do not fault. -/

namespace Files
open ByteCodec Program

/-- Nothing faults, and whoever writes gets something written. -/
def Calm (fate : Fate) : Prop := fate.fault = none ∧ 0 < fate.count

theorem calm_once {clock : ℕ} : Calm ⟨none, 1, clock⟩ := ⟨rfl, Nat.one_pos⟩

variable {caller : Caller} {d : Disk} {p : Path} {k : ℕ} {P : Disk → Prop}

theorem answer_calm {fate : Fate} (h : fate.fault = none) (c : Call) :
    answer caller d fate c = respond caller d fate c := by
  unfold answer
  rw [h]

/-- The conduct of a program that is left alone. -/
abbrev undisturbed : Conduct Disk := .solo (fun _ => True) fun _ _ => True

theorem calm_perform {c : Call} {R : Reply c → Disk → Prop}
    (h : ∀ s fate, 0 < fate.count → P s →
      R (respond caller s fate c).1 (respond caller s fate c).2) :
    Meets (fun s (fate : {fate // Calm fate}) => answer caller s fate.1) undisturbed P
      (Program.perform c) R := by
  refine meets_solo fun s ⟨fate, hcalm⟩ _ hs => ⟨trivial, trivial, ?_⟩
  rw [answer_calm hcalm.1]
  exact h s fate hcalm.2 hs

/-- From the disk `d` on the program succeeds when it is left alone. -/
abbrev Manages {ε α : Type} (caller : Caller) (d : Disk) (x : ExceptT ε FileProgram α)
    (Q : α → Disk → Prop) : Prop := Succeeds (answer caller) Calm (· = d) x Q

theorem manages_symlinkMetadata (h : d.entries p = some k) :
    Manages caller d (symlinkMetadata p) fun metadata t => metadata = d.describe k ∧ t = d := by
  refine calm_perform (c := Call.symlinkMetadata p) ?_
  rintro s fate - rfl
  refine ⟨s.describe k, ?_, rfl, rfl⟩
  change found s.describe (s.entries p) = _
  rw [h]
  rfl

theorem manages_metadata (h : d.follow Disk.maxLinks p = some k) :
    Manages caller d (metadata p) fun metadata t => metadata = d.describe k ∧ t = d := by
  refine calm_perform (c := Call.metadata p) ?_
  rintro s fate - rfl
  refine ⟨s.describe k, ?_, rfl, rfl⟩
  change found s.describe (s.follow Disk.maxLinks p) = _
  rw [h]
  rfl

theorem manages_fileMetadata :
    Manages caller d (fileMetadata k) fun metadata t => metadata = d.describe k ∧ t = d := by
  refine calm_perform (c := Call.fileMetadata k) ?_
  rintro s fate - rfl
  exact ⟨s.describe k, rfl, rfl, rfl⟩

theorem manages_openFile {noFollow : Bool} (h : d.entries p = some k)
    (hkind : ∀ target, (d.inode k).kind ≠ .link target) :
    Manages caller d (openFile p noFollow) fun file t => file = k ∧ t = d := by
  have hfollow : d.follow Disk.maxLinks p = some k := by
    rw [Disk.maxLinks, Disk.follow, h, Option.bind_some]
    split
    · exact absurd ‹_› (hkind _)
    · rfl
  refine calm_perform (c := Call.openFile p noFollow) ?_
  rintro s fate - rfl
  refine ⟨k, ?_, rfl, rfl⟩
  change found id (if noFollow then s.entries p else s.follow Disk.maxLinks p) = _
  rw [h, hfollow, ite_self]
  rfl

/-- A name that is free is seen to be. -/
theorem manages_observe_free {ε : Type} (h : d.entries p = none) :
    Manages caller d (observe (symlinkMetadata p) : ExceptT ε FileProgram (Except Error Metadata))
      fun r t => r = .error notFound ∧ t = d := by
  refine succeeds_observe (calm_perform (c := Call.symlinkMetadata p) ?_)
  rintro s fate - rfl
  refine ⟨?_, rfl⟩
  change found s.describe (s.entries p) = _
  rw [h]
  rfl

theorem manages_removeFile (h : d.entries p = some k) (hkind : (d.inode k).kind ≠ .directory) :
    Manages caller d (removeFile p) fun _ t => t = d.remove p := by
  refine calm_perform (c := Call.removeFile p) ?_
  rintro s fate - rfl
  rw [respond, h]
  dsimp only
  rw [if_neg hkind]
  exact ⟨(), rfl, rfl⟩

theorem hasParent_of_named {directory : Path} (hp : Path.parent p = some directory)
    (h : d.entries directory = some k) : d.hasParent p = true := by
  rw [Disk.hasParent, hp]
  exact decide_eq_true (.inr (h ▸ Option.isSome_some))

theorem manages_rename {q : Path} (hparent : d.hasParent q = true) (h : d.entries p = some k)
    (hfile : ∀ k', d.entries q = some k' → (d.inode k').kind ≠ .directory) :
    Manages caller d (rename p q) fun _ t => t = d.rename p q k := by
  refine calm_perform (c := Call.rename p q) ?_
  rintro s fate - rfl
  rw [respond, if_pos hparent, h]
  cases hq : s.entries q with
  | none => exact ⟨(), rfl, rfl⟩
  | some k' =>
    dsimp only
    rw [if_neg (hfile k' hq)]
    exact ⟨(), rfl, rfl⟩

theorem manages_pure {ε α : Type} {a : α} {Q : α → Disk → Prop} (h : Q a d) :
    Manages caller d (pure a : ExceptT ε FileProgram α) Q :=
  succeeds_pure fun s hs => by rw [hs]; exact h

theorem manages_ensure {p : Prop} [Decidable p] {message : String} (h : p) :
    Manages caller d (ensure p message) fun _ t => t = d := by
  rw [ensure, if_pos h]
  exact succeeds_pure fun _ h => h

theorem manages_orThrow {α : Type} {a? : Option α} {a : α} {message : String} (h : a? = some a) :
    Manages caller d (orThrow message a?) fun r t => r = a ∧ t = d := by
  rw [h]
  exact succeeds_pure fun _ h => ⟨rfl, h⟩

/-- What has to be a certain value may be taken to be it. -/
theorem manages_bind {ε α β : Type} {x : ExceptT ε FileProgram α} {a : α} {t : Disk}
    {f : α → ExceptT ε FileProgram β} {Q : β → Disk → Prop}
    (hx : Manages caller d x fun r s => r = a ∧ s = t) (hf : Manages caller t (f a) Q) :
    Manages caller d (x >>= f) Q := by
  refine Succeeds.bind hx fun r => ?_
  rintro s hs ⟨rfl, rfl⟩
  exact hf s hs rfl

theorem manages_then {ε β : Type} {x : ExceptT ε FileProgram Unit} {t : Disk}
    {f : Unit → ExceptT ε FileProgram β} {Q : β → Disk → Prop}
    (hx : Manages caller d x fun _ s => s = t) (hf : Manages caller t (f ()) Q) :
    Manages caller d (x >>= f) Q :=
  manages_bind (hx.consequence (fun _ h => h) fun _ _ h => ⟨rfl, h⟩) hf

theorem manages_observe {ε ε' α : Type} {x : ExceptT ε FileProgram α} {a : α} {t : Disk}
    (hx : Manages caller d x fun r s => r = a ∧ s = t) :
    Manages caller d (observe x : ExceptT ε' FileProgram (Except ε α))
      fun r s => r = .ok a ∧ s = t := by
  refine hx.observe.consequence (fun _ h => h) ?_
  rintro r s ⟨b, rfl, rfl, rfl⟩
  exact ⟨rfl, rfl⟩

theorem manages_observe_unit {ε ε' : Type} {x : ExceptT ε FileProgram Unit} {t : Disk}
    (hx : Manages caller d x fun _ s => s = t) :
    Manages caller d (observe x : ExceptT ε' FileProgram (Except ε Unit))
      fun r s => r = .ok () ∧ s = t :=
  manages_observe (hx.consequence (fun _ h => h) fun _ _ h => ⟨rfl, h⟩)

theorem manages_readToEndFrom {fuel limit : ℕ} {bytes : Bytes} :
    Manages caller d (readToEndFrom k fuel limit bytes) fun _ _ => True := by
  induction fuel generalizing limit bytes with
  | zero => exact manages_pure trivial
  | succ fuel ih =>
    rw [readToEndFrom]
    split_ifs
    · exact manages_pure trivial
    refine Succeeds.bind (R := fun _ t => t = d) (calm_perform (c := Call.read k bytes.length limit)
      fun s fate _ hs => ⟨_, rfl, hs⟩) fun chunk => ?_
    split_ifs
    · exact manages_pure trivial
    · exact ih

theorem manages_readToEnd {limit : ℕ} :
    Manages caller d (readToEnd k limit)
      fun r t => r = (d.inode k).contents.take limit ∧ t = d := by
  -- it succeeds, and what it yields when it does is known already
  refine (manages_readToEndFrom.of_yields (fun _ h => h)
    (yields_readToEnd Conduct.solo_stable fun offset limit => ?_)).consequence (fun _ h => h)
    fun _ _ h => h.symm
  refine calm_perform (c := Call.read k offset limit) fun s fate _ hs chunk hchunk => ⟨hs, ?_⟩
  rw [← hs]
  exact ⟨_, min_le_left _ _, (Except.ok.inj hchunk).symm, by omega⟩

theorem manages_createDir {mode : UInt32} (hparent : d.hasParent p = true)
    (h : d.entries p = none) :
    Manages caller d (createDir p mode)
      fun _ t => t = d.create p (caller.made .directory mode) := by
  refine calm_perform (c := Call.createDir p mode) ?_
  rintro s fate - rfl
  rw [respond, if_pos hparent, h]
  exact ⟨(), rfl, rfl⟩

theorem manages_createNew {mode : UInt32} (hparent : d.hasParent p = true)
    (h : d.entries p = none) :
    Manages caller d (createNew p mode)
      fun file t => file = d.unused ∧ t = d.create p (caller.made .file mode) := by
  refine calm_perform (c := Call.createNew p mode) ?_
  rintro s fate - rfl
  rw [respond, if_pos hparent, h]
  exact ⟨s.unused, rfl, rfl, rfl⟩

/-- A name that is taken stays as it is. -/
theorem manages_observe_taken {ε : Type} {mode : UInt32} (hparent : d.hasParent p = true)
    (h : d.entries p = some k) :
    Manages caller d (observe (createNew p mode) : ExceptT ε FileProgram (Except Error ℕ))
      fun r t => r = .error fileExists ∧ t = d := by
  refine succeeds_observe (calm_perform (c := Call.createNew p mode) ?_)
  rintro s fate - rfl
  rw [respond, if_pos hparent, h]
  exact ⟨rfl, rfl⟩

theorem manages_syncAll : Manages caller d (syncAll k) fun _ t => t = d.sync k := by
  refine calm_perform (c := Call.sync k) ?_
  rintro s fate - rfl
  exact ⟨(), rfl, rfl⟩

theorem manages_pathExists :
    Manages caller d (pathExists p) fun r t => r = (d.follow Disk.maxLinks p).isSome ∧ t = d := by
  refine Meets.bind (R := fun r t => r = (d.follow Disk.maxLinks p).isSome ∧ t = d)
    (calm_perform (c := Call.pathExists p) ?_) fun r => succeeds_pure fun _ h => h
  rintro s fate - rfl
  exact ⟨rfl, rfl⟩

theorem succeeds_writeAllFrom {fuel offset : ℕ} {bytes : Bytes} :
    Succeeds (answer caller) Calm (fun _ => True) (writeAllFrom k fuel offset bytes)
      fun _ _ => True := by
  induction fuel generalizing offset bytes with
  | zero => exact succeeds_pure fun _ _ => trivial
  | succ fuel ih =>
    rw [writeAllFrom]
    split_ifs with hbytes
    · exact succeeds_pure fun _ _ => trivial
    refine Succeeds.bind (R := fun count _ => count ≠ 0) ?_ fun count => ?_
    · -- a calm write takes at least one byte, so there is no error of writing nothing
      refine calm_perform (c := Call.write k offset bytes) fun s fate hcount _ => ⟨_, rfl, ?_⟩
      have hpos := List.length_pos_iff.2 hbytes
      omega
    · split_ifs with hcount
      · exact fun s _ hs => absurd hcount hs
      · exact ih.consequence (fun _ _ => trivial) fun _ _ h => h

theorem manages_writeAll {bytes : Bytes} (hcontents : (d.inode k).contents = [])
    (hsynced : (d.inode k).synced = false) :
    Manages caller d (writeAll k bytes) fun _ t =>
      t = d.setInode k { d.inode k with contents := bytes, synced := false } := by
  refine Succeeds.of_yields (S := fun t =>
      t = d.setInode k { d.inode k with contents := [], synced := false })
    (succeeds_writeAllFrom.consequence (fun _ _ => trivial) fun _ _ h => h) (fun s hs => ?_)
    (yields_writeAll (D := fun c t =>
      t = d.setInode k { d.inode k with contents := c, synced := false })
      (fun _ => Conduct.solo_stable) fun c bytes => ?_)
  · rw [hs, Disk.setInode, ← hcontents, ← hsynced, Function.update_eq_self]
  · refine calm_perform (c := Call.write k c.length bytes) fun s fate _ hs n hn => ?_
    cases hn
    refine ⟨?_, min_le_left _ _⟩
    have hinode : s.inode k = { d.inode k with contents := c, synced := false } := by
      rw [hs, Disk.setInode_inode, if_pos rfl]
    change s.write k c.length (bytes.take (min bytes.length fate.count)) = _
    rw [Disk.write, hinode, hs]
    simp [Disk.setInode, Function.update_idem, List.drop_eq_nil_of_le]

end Files
