import XusMiner.Gui.SettingsRecovery
import XusMiner.Library.StagedReplace

namespace XusMiner.Gui.Store
open ByteCodec Files Program

section names
variable (home : Path) {process nonce attempt : ℕ} {sequence : UInt64}

def settingsBackup : Path := windowsSettingsBackup (settingsPath home)

theorem settingsBackup_eq :
    settingsBackup home = Path.join (settingsHome home) ("." ++ settingsFile ++ ".backup") := by
  change Path.join (List.dropLast (settingsHome home ++ [settingsFile])) _ = _
  rw [List.dropLast_concat]

theorem settingsNames : Names (settingsHome home) (settingsPath home) (settingsBackup home) where
  parent := parent_settingsPath home
  parent_backup := by rw [settingsBackup_eq, parent_join]
  apart h := by
    rw [settingsBackup_eq] at h
    exact absurd (join_inj.1 h) (by decide)

/-- The one ends in `mp` and the other in `up`. -/
theorem temporaryName_ne_backup :
    temporaryName process nonce sequence attempt ≠ "." ++ settingsFile ++ ".backup" := by
  intro h
  have hbackup : ("." ++ settingsFile ++ ".backup").toList.reverse[1]? = some 'u' := by decide
  have htmp : ".tmp".toList.reverse = ['p', 'm', 't', '.'] := by decide
  rw [← h, temporaryName, String.toList_append, String.toList_append, List.reverse_append,
    List.reverse_append, htmp] at hbackup
  exact absurd hbackup (by simp)

theorem temporary_ne_backup : Path.join (settingsHome home)
    (temporaryName process nonce sequence attempt) ≠ settingsBackup home := by
  rw [settingsBackup_eq]
  exact fun h => temporaryName_ne_backup (join_inj.1 h)

end names

section recover
variable {caller : Caller} {home : Path} {A : Option Bytes → Prop} {B : Bytes → Prop}
  {o : Option Bytes} {E P : Disk → Prop} {p : Path}

/-- The conduct of the one process that saves settings with bytes of `B`. -/
abbrev staged (home : Path) (A : Option Bytes → Prop) (B : Bytes → Prop) : Conduct Disk :=
  staging (settingsHome home) (settingsPath home) (settingsBackup home) A B

abbrev Shown (home : Path) (o : Option Bytes) (E : Disk → Prop) (d : Disk) : Prop :=
  Showing (settingsPath home) (settingsBackup home) o E d

theorem yields_inspect :
    Yields (answer caller) (staged home A B) P (inspectSettingsFile .windows p)
      fun inspected d => P d ∧
        if inspected.isSome then d.entries p ≠ none else d.entries p = none := by
  have hinspect : Meets (answer caller) (staged home A B) P (symlinkMetadata p).run fun r d =>
      P d ∧ (∀ metadata, r = .ok metadata → d.entries p ≠ none) ∧
        ∀ error, r = .error error → error.kind = .notFound → d.entries p = none := by
    refine meets_solo (c := Call.symlinkMetadata p) fun s fate hs hP => ?_
    rw [answer_of_reads caller (c := Call.symlinkMetadata p) trivial]
    refine ⟨hs, .inl rfl, hP, ?_⟩
    unfold answer
    cases fate.fault with
    | some message =>
      refine ⟨fun metadata h => (by cases h), fun error h hkind => ?_⟩
      obtain rfl := Except.error.inj h
      cases hkind
    | none =>
      cases hentry : s.entries p with
      | none =>
        refine ⟨fun metadata h => ?_, fun _ _ _ => rfl⟩
        have hfound : found s.describe (s.entries p) = .ok metadata := h
        rw [hentry] at hfound
        cases hfound
      | some k =>
        refine ⟨fun _ _ => Option.some_ne_none k, fun error h => ?_⟩
        have hfound : found s.describe (s.entries p) = .error error := h
        rw [hentry] at hfound
        cases hfound
  unfold inspectSettingsFile
  refine Yields.bind (yields_observe (fun _ => staging_stable) hinspect) fun inspected => ?_
  cases inspected with
  | error error =>
    refine Yields.bind (yields_ensure staging_stable) fun _ => ?_
    exact yields_pure staging_stable fun s _ h => ⟨h.1.1, h.1.2.2 error rfl h.2⟩
  | ok metadata =>
    refine Yields.bind (staging_reads only_ensure) fun _ => ?_
    refine Yields.bind (staging_reads only_ensure) fun _ => ?_
    refine Yields.bind (staging_reads reads_verifyFileOwner) fun _ => ?_
    exact yields_pure staging_stable fun s _ h => ⟨h.1, h.2.1 metadata rfl⟩

/-- A save or a load goes on only when there is no backup any more. -/
theorem yields_recoverWindowsSettings (hE : Beside (settingsPath home) (settingsBackup home) E) :
    Yields (answer caller) (staged home A B) (Shown home o E)
      (recoverWindowsSettings .windows (settingsPath home))
      fun _ d => Shown home o E d ∧ d.entries (settingsBackup home) = none := by
  unfold recoverWindowsSettings
  rw [if_pos rfl]
  refine Yields.bind yields_inspect fun current => ?_
  refine Yields.bind yields_inspect fun backup => ?_
  cases hcurrent : current.isSome <;> cases hbackup : backup.isSome <;> dsimp only
  case false.false | true.false =>
    refine yields_pure staging_stable fun s _ h => ⟨h.1.1, ?_⟩
    have hfree := h.2
    rwa [if_neg (by decide)] at hfree
  case false.true =>
    refine Yields.mapError (fun _ => staging_stable) ((meets_unstage (settingsNames home)
      hE).consequence (fun s _ h => ⟨h.1.1, ?_⟩) fun r s _ h u hr => ⟨h.1, h.2 hr⟩)
    have hfree := h.1.2
    rwa [if_neg (by decide)] at hfree
  case true.true =>
    refine Yields.mapError (fun _ => staging_stable) ((meets_removeBackup (settingsNames home)
      hE).consequence (fun s _ h => ⟨h.1.1, ?_⟩) fun r s _ h u hr => ⟨h.1, h.2 hr⟩)
    have htaken := h.1.2
    rwa [if_pos rfl] at htaken

section save
variable (hB : ∀ b, B b → A (some b))
include hB

theorem yields_replaceWindowsSettings {k : ℕ} {c : Bytes} (hc : B c)
    (hp : Path.parent p = some (settingsHome home)) (hpath : p ≠ settingsPath home)
    (hbackup : p ≠ settingsBackup home) :
    Yields (answer caller) (staged home A B) (Shown home o (Complete p k c))
      (replaceWindowsSettings .windows (settingsPath home) p)
      fun _ d => d.visible (settingsPath home) (settingsBackup home) = some c := by
  have hE : Beside (settingsPath home) (settingsBackup home) (Complete p k c) :=
    beside_complete hpath hbackup
  refine Yields.bind (yields_recoverWindowsSettings hE) fun _ => ?_
  refine Yields.bind yields_inspect fun current => ?_
  refine Yields.bind (R := fun _ d => Shown home o (Complete p k c) d ∧
    d.entries (settingsPath home) = none) ?_ fun _ => ?_
  · split_ifs with hcurrent
    · exact Yields.mapError (fun _ => staging_stable) ((meets_stage (settingsNames home)
        hE).consequence (fun s _ h => h.1.1) fun r s _ h u hr => ⟨h.1, h.2 hr⟩)
    · exact yields_pure staging_stable fun s _ h => ⟨h.1.1, h.2⟩
  refine Yields.bind (yields_observe (fun _ => staging_stable)
    (meets_install (settingsNames home) hB hp hpath hbackup hc)) fun installed => ?_
  cases installed with
  | error error =>
    refine Yields.bind (R := fun _ _ => True) ?_ fun _ => yields_throw
    refine yields_observe (R := fun _ _ => True) (fun _ => staging_stable) ?_
    exact (meets_unstage (settingsNames home) beside_true).consequence
      (fun s _ h => ⟨⟨h.1, trivial⟩, h.2⟩) fun _ _ _ _ => trivial
  | ok u =>
    refine Yields.bind (staging_reads ⟨trivial, fun _ => trivial⟩) fun staged => ?_
    split_ifs
    · exact Yields.mapError (fun _ => staging_stable) ((meets_removeBackup (settingsNames home)
        beside_true).consequence (fun s _ h => ⟨⟨h.1, trivial⟩, h.2⟩) fun r s _ h u hr => h.1.1)
    · exact yields_pure staging_stable fun s _ h => h.1

omit hB in
theorem yields_ensureStaged :
    Yields (answer caller) (staged home A B) (Shown home o fun _ => True)
      (ensureSettingsDirectory .windows (settingsHome home))
      fun _ => Shown home o fun _ => True := by
  have hverify : Yields (answer caller) (staged home A B) (Shown home o fun _ => True)
      (do let _ ← verifySettingsDirectory .windows (settingsHome home); return)
      fun _ => Shown home o fun _ => True :=
    Yields.bind (staging_reads reads_verifySettingsDirectory) fun _ =>
      yields_pure staging_stable fun _ _ h => h
  refine Yields.bind (staging_reads (only_observe reads_symlinkMetadata)) fun inspected => ?_
  cases inspected with
  | ok metadata => exact hverify
  | error error =>
    refine Yields.bind (staging_reads only_ensure) fun _ => ?_
    refine Yields.bind (yields_observe (fun _ => staging_stable)
      (meets_createDir_staging (Path.parent_ne (settingsNames home).parent)
        (Path.parent_ne (settingsNames home).parent_backup))) fun created => ?_
    cases created with
    | ok u => exact hverify
    | error error => exact Yields.bind (staging_reads only_ensure) fun _ => hverify

omit hB in
theorem yields_createStaged {process left attempt : ℕ} {sequence : UInt64} :
    Yields (answer caller) (staged home A B) (Shown home o fun _ => True)
      (createTemporary .windows (settingsHome home) process left attempt sequence)
      fun temporary d => Shown home o (Scratch temporary.1 temporary.2 []) d ∧
        ∃ nonce sequence attempt, temporary.1 = Path.join (settingsHome home)
          (temporaryName process nonce sequence attempt) := by
  induction left generalizing attempt sequence with
  | zero => exact yields_throw
  | succ left ih =>
    refine Yields.bind (R := fun _ => Shown home o fun _ => True)
      (staging_reads ⟨trivial, fun _ => trivial⟩) fun nonce => ?_
    refine Yields.bind (yields_observe (fun _ => staging_stable)
      (meets_createNew_staging (temporary_ne_path home) (temporary_ne_backup home)))
      fun created => ?_
    cases created with
    | ok k => exact yields_pure staging_stable fun _ _ h => ⟨⟨h.1.1, h.2 k rfl⟩, _, _, _, rfl⟩
    | error error =>
      exact Yields.bind ((staging_reads only_ensure).consequence (fun _ _ h => h.1)
        fun _ _ _ h => h) fun _ => ih

/-- Once a save has succeeded its settings are visible. -/
theorem yields_saveStaged {process : ℕ} {bytes : Bytes} {sequence : UInt64} (hbytes : B bytes) :
    Yields (answer caller) (staged home A B) (Shown home o fun _ => True)
      (saveBytesAt .windows process sequence (settingsPath home) bytes)
      fun _ d => d.visible (settingsPath home) (settingsBackup home) = some bytes := by
  unfold saveBytesAt
  rw [parent_settingsPath]
  refine yields_pureBind ?_
  refine Yields.bind (yields_ensureStaged) fun _ => ?_
  refine Yields.bind ((yields_recoverWindowsSettings beside_true).consequence (fun _ _ h => h)
    fun _ _ _ h => h.1) fun _ => ?_
  refine Yields.bind (staging_reads reads_inspectSettingsFile) fun _ => ?_
  refine Yields.bind (yields_createStaged) fun ⟨temporary, k⟩ => yields_of_imp fun hname => ?_
  obtain ⟨nonce, sequence, attempt, rfl⟩ := hname
  refine Yields.bind (Yields.mapError (fun _ => staging_stable) (yields_writeSynced_staging
    ((settingsNames home).parent.trans (settingsNames home).parent_backup.symm))) fun _ => ?_
  refine Yields.bind (staging_reads reads_verifySettingsDirectory) fun _ => ?_
  refine Yields.bind (staging_reads reads_inspectSettingsFile) fun _ => ?_
  refine Yields.bind (yields_replaceWindowsSettings hB hbytes (parent_join _ _)
    (temporary_ne_path home) (temporary_ne_backup home)) fun _ => ?_
  exact yields_pure staging_stable fun _ _ h => h

end save

end recover

end XusMiner.Gui.Store
