import XusMiner.Gui.SettingsUndisturbed

namespace XusMiner.Gui.Store
open ByteCodec Files Program

variable {caller : Caller} {home : Path} {A : Option Bytes → Prop} {B : Bytes → Prop}
  {o : Option Bytes} {float : UInt64 → List Char} {fromSlice : Bytes → Except String Value}

/-- What is opened at the path is what is visible. -/
theorem meets_openStaged :
    Meets (answer caller) (staged home A B) (Shown home o fun _ => True)
      (openFile (settingsPath home) true).run
      fun r d => ∀ k, r = .ok k → ∃ c, Opened k c d ∧ o = some c := by
  refine meets_solo (c := Call.openFile (settingsPath home) true) fun s fate hs hshow => ?_
  rw [answer_of_reads caller (c := Call.openFile (settingsPath home) true) trivial]
  refine ⟨hs, .inl rfl, fun k hk => ?_⟩
  have hpath := answer_openFile hk
  rw [if_pos rfl] at hpath
  have hsealed := ((hs.keeps _ s.entries_mem_layouts).shown k (.inl hpath)).1
  exact ⟨_, ⟨hsealed, rfl⟩, hshow.1.symm.trans (Disk.visible_of_path hpath)⟩

/-- What a load returns is read from what was visible when it began. -/
theorem yields_loadStaged :
    Yields (answer caller) (staged home A B) (Shown home o fun _ => True)
      (loadSettingsAt .windows fromSlice (settingsPath home))
      fun settings _ => ∃ c, o = some c ∧ Gui.loadSettingsAt fromSlice c = .ok settings := by
  unfold loadSettingsAt
  rw [parent_settingsPath]
  refine yields_pureBind ?_
  refine Yields.bind (staging_reads reads_verifySettingsDirectory) fun _ => ?_
  refine Yields.bind ((yields_recoverWindowsSettings beside_true).consequence (fun _ _ h => h)
    fun _ _ _ h => h.1) fun _ => ?_
  refine Yields.bind (staging_reads reads_inspectSettingsFile) fun inspected => ?_
  refine Yields.bind (staging_reads only_orThrow) fun initial => ?_
  refine Yields.bind (staging_reads only_ensure) fun _ => ?_
  refine Yields.bind (R := fun k d => ∃ c, Opened k c d ∧ o = some c) ?_ fun k => ?_
  · exact Yields.mapError (fun _ => staging_stable) (meets_openStaged.consequence (fun _ _ h => h)
      fun r d _ h k hk => h k hk)
  refine Yields.bind (staging_reads (only_mapError ⟨trivial, fun _ => trivial⟩)) fun opened => ?_
  refine Yields.bind (staging_reads only_ensure) fun _ => ?_
  refine Yields.bind (staging_reads only_ensure) fun _ => ?_
  refine yields_exists fun c => yields_of_imp fun ho => ?_
  refine Yields.bind (Yields.mapError (fun _ => staging_stable) yields_readSealed) fun bytes => ?_
  refine yields_of_imp fun hbytes => ?_
  refine Yields.bind (yields_ensure staging_stable) fun _ => yields_of_imp fun hlength => ?_
  obtain rfl : bytes = c := eq_of_read hbytes hlength
  cases hslice : fromSlice bytes with
  | error error => exact yields_throw
  | ok value =>
    refine yields_pure staging_stable fun _ _ _ => ⟨bytes, ho, ?_⟩
    rw [loadSettingsAt_of_le hlength, hslice]
    rfl

/-- The pool of the one process; a job comes with the number of the process that does it. -/
abbrev SinglePool := Pool Unit Disk (ℕ × Job) Call Reply Outcome

abbrev SingleAction := Pool.Action Unit (ℕ × Job) Fate Loss

def runSingle (float : UInt64 → List Char) (fromSlice : Bytes → Except String Value)
    (caller : Caller) (home : Path) (pool : SinglePool) (actions : List SingleAction) :
    Option SinglePool :=
  Runs.run (Pool.step (fun _ => answer caller) Disk.lose
    fun _ x => program .windows float fromSlice home x.1 x.2) pool actions

/-- What the returned program says of the disk. -/
def Tells (float : UInt64 → List Char) (fromSlice : Bytes → Except String Value) (home : Path)
    (A : Option Bytes → Prop) (job : Job) (outcome : Outcome) (d : Disk) : Prop :=
  Loads fromSlice A outcome ∧ ∀ sequence settings, job = .save sequence settings →
    outcome = .saved (.ok ()) → d.visible (settingsPath home) (settingsBackup home) =
      some (Gui.saveSettingsAt float settings)

theorem ensures_single {process : ℕ} {job : Job} (hjob : job.Allowed float A) (s : Disk)
    (hs : s.Recoverable A (settingsHome home) (settingsPath home) (settingsBackup home)) :
    Ensures (answer caller) (staged home A (job.Writes float))
      (program .windows float fromSlice home process job) (Tells float fromSlice home A job) s := by
  cases job with
  | save sequence settings =>
    have hsave : Yields (answer caller) (staged home A (Job.Writes float (.save sequence settings)))
        (Shown home (s.visible (settingsPath home) (settingsBackup home)) fun _ => True)
        (saveSettingsAt .windows float process sequence (settingsPath home) settings)
        fun _ d => d.visible (settingsPath home) (settingsBackup home) =
          some (Gui.saveSettingsAt float settings) := yields_saveStaged hjob rfl
    refine Meets.bind hsave (fun result => meets_done staging_stable fun d _ h => ?_) s hs
      ⟨rfl, trivial⟩
    refine ⟨trivial, fun _ _ hsettings hok => ?_⟩
    cases hsettings
    cases hok
    exact h () rfl
  | load =>
    have hload : Yields (answer caller) (staged home A (Job.Writes float .load))
        (Shown home (s.visible (settingsPath home) (settingsBackup home)) fun _ => True)
        (loadSettingsAt .windows fromSlice (settingsPath home)) fun settings _ =>
          ∃ c, s.visible (settingsPath home) (settingsBackup home) = some c ∧
            Gui.loadSettingsAt fromSlice c = .ok settings := yields_loadStaged
    refine Meets.bind hload (fun result => meets_done staging_stable fun d _ h => ?_) s hs
      ⟨rfl, trivial⟩
    refine ⟨?_, fun _ _ hsettings => nomatch hsettings⟩
    cases result with
    | error error => exact trivial
    | ok settings =>
      obtain ⟨c, hc, hdecodes⟩ := h settings rfl
      exact ⟨c, hs.of_visible hc, hdecodes⟩

section
variable (caller : Caller) (home : Path) (float : UInt64 → List Char)
  (fromSlice : Bytes → Except String Value) (A : Option Bytes → Prop)

abbrev SoundSingle (Launched Allowed : ℕ × Job → Prop) : Prop :=
  Pool.Sound (fun _ => answer caller) Disk.lose
    (fun (_ : Unit) (x : ℕ × Job) => program .windows float fromSlice home x.1 x.2)
    (fun _ x => staged home A (x.2.Writes float)) (fun _ => Launched) (fun _ => Allowed)
    (fun _ x => Tells float fromSlice home A x.2)
    (Disk.Recoverable A (settingsHome home) (settingsPath home) (settingsBackup home))

abbrev KeepsSingle (Allowed : ℕ × Job → Prop) (pool : SinglePool) : Prop :=
  Pool.Keeps (fun _ => answer caller) (fun _ x => staged home A (x.2.Writes float))
    (fun _ => Allowed) (fun _ x => Tells float fromSlice home A x.2)
    (Disk.Recoverable A (settingsHome home) (settingsPath home) (settingsBackup home)) pool

end

theorem sound_single {Launched Allowed : ℕ × Job → Prop} (hallowed : ∀ x, Launched x → Allowed x)
    (hlaunched : ∀ x, Launched x → x.2.Allowed float A) :
    SoundSingle caller home float fromSlice A Launched Allowed where
  allowed _ := hallowed
  same _ _ := rfl
  bears i j hij := absurd (Subsingleton.elim i j) hij
  program _ x hx s hs := ensures_single (hlaunched x hx) s hs
  lose _ loss h := h.lose loss

variable {d : Disk} {k : ℕ} {c : Bytes}

theorem visible_eq : d.visible (settingsPath home) (settingsBackup home) =
    (settled .windows home d).map fun k => (d.inode k).contents := rfl

/-- Where settings have to be, a load that is left alone reads those that are visible. -/
theorem load_visible (hd : d.Recoverable A (settingsHome home) (settingsPath home)
    (settingsBackup home)) (hA : ¬A none) {fates : ℕ → Fate} (hfates : ∀ n, Calm (fates n)) :
    ∃ c, d.visible (settingsPath home) (settingsBackup home) = some c ∧
      ((loadSettingsAt .windows fromSlice (settingsPath home)).run.alone (answer caller) fates
        d).1 = Gui.loadSettingsAt fromSlice c := by
  have hkeeps := hd.keeps _ d.entries_mem_layouts
  obtain ⟨k, hk, -, hkind⟩ := hkeeps.home hA
  have hfile (j : ℕ) (hj : d.entries (settingsPath home) = some j ∨
      d.entries (settingsBackup home) = some j) : TrustedFile .windows d k j :=
    ⟨(hkeeps.shown j hj).1.file, nofun⟩
  have htrusted : Trusted .windows home d k :=
    ⟨⟨hk, hkind, nofun⟩, fun j hj => hfile j (.inl hj), fun j hj => hfile j (.inr hj)⟩
  have hload : Answers caller d (loadSettingsAt .windows fromSlice (settingsPath home)) _ :=
    answers_loadSettingsAt htrusted
  replace hload := hload.alone hfates
  rw [visible_eq]
  cases hsettled : settled .windows home d with
  | none =>
    unfold settled at hsettled
    rw [if_pos rfl, Option.or_eq_none_iff] at hsettled
    exact absurd (hkeeps.free hsettled.1 hsettled.2) hA
  | some j =>
    rw [hsettled] at hload
    exact ⟨_, rfl, hload⟩

theorem settledDisk_recoverable {bytes : Bytes} (hA : A (some bytes)) :
    (settledDisk ["home"] bytes).Recoverable A (settingsHome ["home"]) (settingsPath ["home"])
      (settingsBackup ["home"]) where
  made := settledDisk_made
  keeps v hv := by
    cases List.mem_singleton.1 hv
    refine ⟨fun k hk => ?_, fun hnone _ => ?_,
      fun _ => ⟨1, settledDisk_home, (by decide : 1 < 3), rfl⟩⟩
    · rcases hk with hk | hk
      · cases settledDisk_path.symm.trans hk
        exact ⟨⟨(by decide : 2 < 3), rfl, rfl⟩, hA⟩
      · cases hk
    · cases settledDisk_path.symm.trans hnone

/-- A parser that knows one text only. -/
def parsesEmpty (bytes : Bytes) : Except String Value :=
  if bytes = [123, 125] then .ok (.object []) else .error "expected an empty object"

/-- A save is killed between its two renamings, and so is the load after it by a loss of power. -/
def saveHalfway : List SingleAction :=
  .launch () (7, .save 0 {}) :: (List.replicate 15 plenty).map (.call ()) ++
    [.kill (), .launch () (8, .load), .call () plenty, .lose ⟨0, fun _ => []⟩]

end XusMiner.Gui.Store
