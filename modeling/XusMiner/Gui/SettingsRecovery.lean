import XusMiner.Gui.SettingsStore
import XusMiner.Library.AtomicReplace

namespace XusMiner.Gui.Store
open ByteCodec Files Program

section names
variable (home : Path) {process nonce attempt : ℕ} {sequence : UInt64}

def settingsHome : Path := Path.join home settingsDirectory

theorem parent_join (directory : Path) (name : String) :
    Path.parent (Path.join directory name) = some directory := by
  rw [Path.parent, Path.join, if_neg (List.append_ne_nil_of_right_ne_nil _ (List.cons_ne_nil _ _)),
    List.dropLast_concat]

theorem parent_settingsPath : Path.parent (settingsPath home) = some (settingsHome home) :=
  parent_join _ _

theorem join_inj {directory : Path} {a b : String} :
    Path.join directory a = Path.join directory b ↔ a = b := by
  rw [Path.join, Path.join, List.append_cancel_left_eq, List.singleton_inj]

theorem settingsHome_ne : settingsHome home ≠ settingsPath home := by
  intro h
  have hlength := congrArg List.length h
  simp [settingsHome, settingsPath, Path.join] at hlength

/-- Temporary names begin with a dot. -/
theorem temporaryName_ne : temporaryName process nonce sequence attempt ≠ settingsFile := by
  intro h
  have hdot : ".gui-settings.".toList.head? = some '.' := by decide
  have hletter : settingsFile.toList.head? = some 'g' := by decide
  rw [← h, temporaryName, String.toList_append, List.head?_append, hdot, Option.some_or] at hletter
  exact absurd hletter (by decide)

theorem temporary_ne_path : Path.join (settingsHome home)
    (temporaryName process nonce sequence attempt) ≠ settingsPath home :=
  fun h => temporaryName_ne (join_inj.1 h)

end names

section reads
variable {platform : Platform} {directory path : Path}

theorem reads_symlinkMetadata : (symlinkMetadata path).run.Only Call.Reads :=
  ⟨trivial, fun _ => trivial⟩

theorem reads_verifyDirectoryOwner {metadata : Metadata} :
    (verifyDirectoryOwner platform directory metadata).run.Only Call.Reads := by
  unfold verifyDirectoryOwner
  split_ifs
  · refine only_bindExcept only_orThrow fun parent => ?_
    refine only_bindExcept (only_mapError ⟨trivial, fun _ => trivial⟩) fun parentMetadata => ?_
    exact only_bindExcept only_ensure fun _ => only_ensure
  · exact only_pure

theorem reads_verifySettingsDirectory :
    (verifySettingsDirectory platform directory).run.Only Call.Reads := by
  refine only_bindExcept (only_mapError reads_symlinkMetadata) fun metadata => ?_
  refine only_bindExcept only_ensure fun _ => only_bindExcept only_ensure fun _ => ?_
  exact only_bindExcept reads_verifyDirectoryOwner fun _ => only_pure

theorem reads_verifyFileOwner {metadata : Metadata} :
    (verifyFileOwner platform path metadata).run.Only Call.Reads := by
  unfold verifyFileOwner
  split_ifs
  · refine only_bindExcept only_orThrow fun directory => ?_
    refine only_bindExcept reads_verifySettingsDirectory fun directoryMetadata => ?_
    exact only_bindExcept only_ensure fun _ => only_ensure
  · exact only_pure

theorem reads_inspectSettingsFile :
    (inspectSettingsFile platform path).run.Only Call.Reads := by
  refine only_bindExcept (only_observe reads_symlinkMetadata) fun inspected => ?_
  cases inspected with
  | error error => exact only_bindExcept only_ensure fun _ => only_pure
  | ok metadata =>
    refine only_bindExcept only_ensure fun _ => only_bindExcept only_ensure fun _ => ?_
    exact only_bindExcept reads_verifyFileOwner fun _ => only_pure

end reads

section save
variable {caller : Caller} {home : Path} {A : Option Bytes → Prop} {B : Bytes → Prop}
  {platform : Platform} {j n : ℕ} {F : Disk → Prop}

/-- The conduct of a process that saves settings with bytes of `B`. -/
def saving (home : Path) (A : Option Bytes → Prop) (B : Bytes → Prop) (j : ℕ) : Conduct Disk :=
  replacing (settingsHome home) (settingsPath home) A B j

/-- What no process that saves settings can make false. -/
abbrev Fixed (home : Path) (F : Disk → Prop) : Prop :=
  Framed (settingsHome home) (settingsPath home) F

/-- There is a directory for the settings, on a disk of `F`. -/
def HasHome (home : Path) (F : Disk → Prop) (d : Disk) : Prop :=
  (∃ k, d.HasDirectory (settingsHome home) k) ∧ F d

theorem fixed_hasHome (hF : Fixed home F) : Fixed home (HasHome home F) :=
  framed_exists_hasDirectory.and hF

theorem yields_verifySettingsDirectory (hF : Fixed home F) :
    Yields (answer caller) (saving home A B j) F
      (verifySettingsDirectory platform (settingsHome home)) fun _ => HasHome home F := by
  have hhome : (saving home A B j).Stable (HasHome home F) := (fixed_hasHome hF).stable
  have hstable (metadata : Metadata) : (saving home A B j).Stable fun d =>
      (metadata.kind = .directory → d.HasDirectory (settingsHome home) metadata.inode) ∧ F d :=
    framed_hasDirectory.stable.imp.and hF.stable
  refine Yields.bind (R := fun metadata d => (metadata.kind = .directory →
    d.HasDirectory (settingsHome home) metadata.inode) ∧ F d) ?_ fun metadata => ?_
  · refine Yields.mapError hstable ?_
    exact (meets_inspectDirectory hF).consequence (fun _ _ h => h)
      fun r d _ h metadata hm => ⟨h.2 metadata hm, h.1⟩
  refine Yields.bind (yields_ensure (hstable metadata)) fun _ => ?_
  refine Yields.bind (R := fun _ => HasHome home F) ((yields_ensure (hstable metadata)).consequence
    (fun _ _ h => h.1) fun _ d _ h => ?_) fun _ => ?_
  · have hkind : metadata.kind = .directory := of_decide_eq_true h.2
    exact ⟨⟨_, h.1.1 hkind⟩, h.1.2⟩
  · refine Yields.bind (yields_reads reads_verifyDirectoryOwner hhome) fun _ => ?_
    exact yields_pure hhome fun _ _ h => h

variable (hF : Fixed home F) (hB : ∀ b, B b → A (some b))
include hF hB

theorem yields_ensureSettingsDirectory :
    Yields (answer caller) (saving home A B caller.process) F
      (ensureSettingsDirectory platform (settingsHome home)) fun _ => HasHome home F := by
  have hfixed : (saving home A B caller.process).Stable F := hF.stable
  refine Yields.bind (R := fun _ => F)
    (yields_reads (only_observe reads_symlinkMetadata) hfixed) fun inspected => ?_
  have hverify : Yields (answer caller) (saving home A B caller.process) F
      (do let _ ← verifySettingsDirectory platform (settingsHome home); return)
      fun _ => HasHome home F :=
    Yields.bind (yields_verifySettingsDirectory hF) fun _ =>
      yields_pure (fixed_hasHome hF).stable fun _ _ h => h
  cases inspected with
  | ok metadata => exact hverify
  | error error =>
    -- another process may make the directory first; either way it is verified afterwards
    refine Yields.bind (yields_reads only_ensure hfixed) fun _ => ?_
    refine Yields.bind (R := fun _ => F) (yields_observe (fun _ => hfixed)
      (meets_createDir hF hB (settingsHome_ne home))) fun created => ?_
    cases created with
    | ok u => exact hverify
    | error error => exact Yields.bind (yields_reads only_ensure hfixed) fun _ => hverify

theorem yields_createTemporary {left attempt : ℕ} {sequence : UInt64} :
    Yields (answer caller) (saving home A B caller.process) (HasHome home F)
      (createTemporary platform (settingsHome home) caller.process left attempt sequence)
      fun temporary d => HasHome home F d ∧
        Drafts (settingsPath home) caller.process temporary.1 temporary.2 [] d := by
  -- one attempt for each step: the name is free, or the next one is tried
  induction left generalizing attempt sequence with
  | zero => exact yields_throw
  | succ left ih =>
    have hhome : (saving home A B caller.process).Stable (HasHome home F) :=
      (fixed_hasHome hF).stable
    refine Yields.bind (R := fun _ => HasHome home F)
      (yields_reads ⟨trivial, fun _ => trivial⟩ hhome) fun nonce => ?_
    refine Yields.bind (R := fun created d => HasHome home F d ∧ ∀ k, created = .ok k →
      Drafts (settingsPath home) caller.process (Path.join (settingsHome home)
        (temporaryName caller.process nonce sequence attempt)) k [] d) ?_ fun created => ?_
    · refine yields_observe (fun created => hhome.and ?_)
        (meets_createNew (fixed_hasHome hF) hB (temporary_ne_path home))
      exact fun s t hst ht h k hk => stable_drafts s t hst ht (h k hk)
    cases created with
    | ok k => exact yields_pure (hhome.and stable_drafts) fun _ _ h => ⟨h.1, h.2 k rfl⟩
    | error error =>
      refine Yields.bind (R := fun _ => HasHome home F)
        ((yields_reads only_ensure hhome).consequence (fun _ _ h => h.1) fun _ _ _ h => h)
        fun _ => ih

/-- What a save promises when it succeeds: its own settings are in place, or others have been put
there since. Where the directory cannot be lost, and it is synced, neither can they. -/
def Stays (platform : Platform) (home : Path) (F : Disk → Prop) (n : ℕ) (d : Disk) : Prop :=
  d.InPlace (settingsPath home) n d.entries ∧ (platform = .unix →
    (∀ d, F d → ∃ l, d.Lasting (settingsHome home) l) →
      ∀ v ∈ d.layouts, d.InPlace (settingsPath home) n v)

omit hF hB in
theorem stable_stays : (saving home A B j).Stable (Stays platform home F n) :=
  stable_inPlace.and stable_inPlace_layouts.imp.imp

theorem yields_saveBytesAt {bytes : Bytes} {sequence : UInt64} (hbytes : B bytes)
    (hplatform : platform ≠ .windows) (hn : ∀ d, F d → n ≤ d.renamed.length) :
    Yields (answer caller) (saving home A B caller.process) F
      (saveBytesAt platform caller.process sequence (settingsPath home) bytes)
      fun _ => Stays platform home F n := by
  have hfixed : Fixed home (HasHome home F) := fixed_hasHome hF
  have hhome : (saving home A B caller.process).Stable (HasHome home F) := hfixed.stable
  have hplace : (saving home A B caller.process).Stable fun d =>
      HasHome home F d ∧ d.InPlace (settingsPath home) n d.entries := hhome.and stable_inPlace
  unfold saveBytesAt
  rw [parent_settingsPath]
  refine yields_pureBind ?_
  refine Yields.bind (yields_ensureSettingsDirectory hF hB) fun _ => ?_
  refine Yields.bind (R := fun _ => HasHome home F) ?_ fun _ => ?_
  · rw [recoverWindowsSettings, if_neg hplatform]
    exact yields_pure hhome fun _ _ h => h
  refine Yields.bind (yields_reads reads_inspectSettingsFile hhome) fun _ => ?_
  refine Yields.bind (yields_createTemporary hF hB) fun ⟨temporary, k⟩ => ?_
  have hready : (saving home A B caller.process).Stable fun d => HasHome home F d ∧
      Ready (settingsPath home) caller.process temporary k bytes d := hhome.and stable_ready
  -- from here on the temporary file is complete, and it stays so until it is renamed
  refine Yields.bind (Yields.mapError (fun _ => hready) (yields_writeSynced hfixed hB)) fun _ => ?_
  refine Yields.bind (yields_reads reads_verifySettingsDirectory hready) fun _ => ?_
  refine Yields.bind (yields_reads reads_inspectSettingsFile hready) fun _ => ?_
  refine Yields.bind (R := fun _ d => HasHome home F d ∧
    d.InPlace (settingsPath home) n d.entries) ?_ fun _ => ?_
  · rw [replaceSettingsFile, if_neg hplatform]
    refine Yields.mapError (fun _ => hplace) ?_
    exact (meets_rename hfixed hB (settingsHome_ne home) (fun d h => hn d h.2)
      hbytes).consequence (fun _ _ h => h) fun r d _ h u hr => ⟨h.1, h.2 hr⟩
  unfold syncDirectory
  split_ifs with hunix
  · refine Yields.mapError (fun _ => stable_stays) ?_
    refine Yields.bind (R := fun k d => (HasHome home F d ∧
      d.InPlace (settingsPath home) n d.entries) ∧ d.HasDirectory (settingsHome home) k) ?_
      fun k => ?_
    · exact (meets_openDirectory hplace fun d h => h.1.1).consequence (fun _ _ h => h)
        fun r d _ h k hk => ⟨h.1, h.2 k hk⟩
    · refine (meets_syncDirectory hfixed hB (parent_settingsPath home)).consequence (fun _ _ h => h)
        fun r d _ h u hr => ?_
      exact ⟨h.1, fun _ hlasting => h.2 hr fun d hd => hlasting d hd.2⟩
  · exact yields_pure stable_stays fun _ _ h => ⟨h.2, fun hu => absurd hu hunix⟩

end save

section load
variable {caller : Caller} {home : Path} {A : Option Bytes → Prop} {B : Bytes → Prop}
  {platform : Platform} {fromSlice : Bytes → Except String Value} {j : ℕ}

/-- The settings that the bytes of a file are read as. -/
def Decodes (fromSlice : Bytes → Except String Value) (A : Option Bytes → Prop)
    (settings : Settings) : Prop :=
  ∃ bytes, A (some bytes) ∧ Gui.loadSettingsAt fromSlice bytes = .ok settings

/-- What was read is all there is: one more byte would have been read. -/
theorem eq_of_read {bytes c : Bytes} (h : bytes = c.take (maxSettingsBytes + 1))
    (hlength : bytes.length ≤ maxSettingsBytes) : bytes = c := by
  have hc : c.length ≤ maxSettingsBytes := by
    rw [h, List.length_take] at hlength
    omega
  rw [h, List.take_of_length_le (hc.trans (Nat.le_succ _))]

/-- The settings that are loaded are those of one whole file. -/
theorem yields_loadSettingsAt (hplatform : platform ≠ .windows) :
    Yields (answer caller) (saving home A B j) (fun _ => True)
      (loadSettingsAt platform fromSlice (settingsPath home))
      fun settings _ => Decodes fromSlice A settings := by
  have htrue : (saving home A B j).Stable fun _ => True := framed_true.stable
  have hopened (k : ℕ) : (saving home A B j).Stable fun d => ∃ c, Opened k c d ∧ A (some c) :=
    fun s t hst ht ⟨c, h, hc⟩ => ⟨c, stable_opened s t hst ht h, hc⟩
  have hread {k : ℕ} {c : Bytes} {p : Prop} : (saving home A B j).Stable fun d =>
      Opened k c d ∧ p := stable_opened.and fun _ _ _ _ h => h
  unfold loadSettingsAt
  rw [parent_settingsPath]
  refine yields_pureBind ?_
  refine Yields.bind (yields_reads reads_verifySettingsDirectory htrue) fun _ => ?_
  refine Yields.bind (R := fun _ _ => True) ?_ fun _ => ?_
  · rw [recoverWindowsSettings, if_neg hplatform]
    exact yields_pure htrue fun _ _ h => h
  refine Yields.bind (yields_reads reads_inspectSettingsFile htrue) fun inspected => ?_
  refine Yields.bind (yields_reads only_orThrow htrue) fun initial => ?_
  refine Yields.bind (yields_reads only_ensure htrue) fun _ => ?_
  refine Yields.bind (R := fun k d => ∃ c, Opened k c d ∧ A (some c)) ?_ fun k => ?_
  · exact Yields.mapError hopened (meets_openPublished.consequence (fun _ _ h => h)
      fun r d _ h k hk => h k hk)
  refine Yields.bind (yields_reads (only_mapError ⟨trivial, fun _ => trivial⟩) (hopened k))
    fun opened => ?_
  refine Yields.bind (yields_reads only_ensure (hopened k)) fun _ => ?_
  refine Yields.bind (yields_reads only_ensure (hopened k)) fun _ => ?_
  -- whatever is renamed over the path now, it is the contents `c` of this file that are read
  refine yields_exists fun c => yields_of_imp fun hA => ?_
  refine Yields.bind (Yields.mapError (fun _ => hread) yields_readOpened) fun bytes => ?_
  refine yields_of_imp fun hbytes => ?_
  refine Yields.bind (yields_ensure stable_opened) fun _ => yields_of_imp fun hlength => ?_
  obtain rfl : bytes = c := eq_of_read hbytes hlength
  cases hslice : fromSlice bytes with
  | error error => exact yields_throw
  | ok value =>
    refine yields_pure (fun _ _ _ _ h => h) fun _ _ _ => ⟨bytes, hA, ?_⟩
    rw [loadSettingsAt_of_le hlength, hslice]
    rfl

end load

section pool
variable {platform : Platform} {float : UInt64 → List Char}
  {fromSlice : Bytes → Except String Value} {caller : Caller} {home : Path}
  {A : Option Bytes → Prop} {Q : ℕ → Job → Outcome → Disk → Prop}

/-- The bytes that the job puts in place. -/
def Job.Writes (float : UInt64 → List Char) (job : Job) (bytes : Bytes) : Prop :=
  match job with
  | .save _ settings => bytes = Gui.saveSettingsAt float settings
  | .load => False

def conduct (float : UInt64 → List Char) (home : Path) (A : Option Bytes → Prop) (process : ℕ)
    (job : Job) : Conduct Disk := saving home A (job.Writes float) process

def Job.Allowed (float : UInt64 → List Char) (A : Option Bytes → Prop) (job : Job) : Prop :=
  ∀ bytes, job.Writes float bytes → A (some bytes)

theorem sound {Launched Allowed : ℕ → Job → Prop}
    (hallowed : ∀ i job, Launched i job → Allowed i job)
    (hprogram : ∀ i job, Launched i job → ∀ s, s.Published A (settingsPath home) →
      Ensures (answers caller i) (conduct float home A i job)
        (program platform float fromSlice home i job) (Q i job) s) :
    Pool.Sound (answers caller) Disk.lose (program platform float fromSlice home)
      (conduct float home A) Launched Allowed Q (Disk.Published A (settingsPath home)) where
  allowed := hallowed
  same _ _ := rfl
  bears i _ hij _ _ _ _ _ _ _ hguar := hguar.1 i hij
  program := hprogram
  lose _ loss h := h.lose loss

/-- Whatever is loaded is one of the allowed files. -/
def Loads (fromSlice : Bytes → Except String Value) (A : Option Bytes → Prop) : Outcome → Prop
  | .loaded (.ok settings) => Decodes fromSlice A settings
  | _ => True

theorem yields_saveSettingsAt (hplatform : platform ≠ .windows) {i n : ℕ} {sequence : UInt64}
    {settings : Settings} (hjob : (Job.save sequence settings).Allowed float A) {F : Disk → Prop}
    (hF : Fixed home F) (hn : ∀ d, F d → n ≤ d.renamed.length) :
    Yields (answers caller i) (conduct float home A i (.save sequence settings)) F
      (saveSettingsAt platform float i sequence (settingsPath home) settings)
      fun _ => Stays platform home F n :=
  yields_saveBytesAt hF hjob rfl hplatform hn

theorem ensures_program (hplatform : platform ≠ .windows) (i : ℕ) (job : Job)
    (hjob : job.Allowed float A) (s : Disk) (hs : s.Published A (settingsPath home)) :
    Ensures (answers caller i) (conduct float home A i job)
      (program platform float fromSlice home i job)
      (fun outcome _ => Loads fromSlice A outcome) s := by
  have hstable (outcome : Outcome) : (conduct float home A i job).Stable fun _ =>
      Loads fromSlice A outcome := fun _ _ _ _ h => h
  cases job with
  | save sequence settings =>
    refine Meets.bind (yields_saveSettingsAt (n := 0) hplatform hjob framed_true
      fun _ _ => Nat.zero_le _) (fun result => meets_done (hstable _) fun _ _ _ => ?_) s hs trivial
    cases result <;> exact trivial
  | load =>
    have hload : Yields (answers caller i) (conduct float home A i .load) (fun _ => True)
        (loadSettingsAt platform fromSlice (settingsPath home))
        fun settings _ => Decodes fromSlice A settings := yields_loadSettingsAt hplatform
    refine Meets.bind hload (fun result => meets_done (hstable _) fun _ _ h => ?_) s hs trivial
    cases result with
    | ok settings => exact h settings rfl
    | error error => exact trivial

abbrev StorePool := Pool ℕ Disk Job Call Reply Outcome

abbrev StoreAction := Pool.Action ℕ Job Fate Loss

variable (platform float fromSlice caller home) in
def run (pool : StorePool) (actions : List StoreAction) : Option StorePool :=
  Runs.run (Pool.step (answers caller) Disk.lose (program platform float fromSlice home)) pool
    actions

/-- Only settings that are allowed are going to be saved. -/
def Saves (float : UInt64 → List Char) (A : Option Bytes → Prop) (actions : List StoreAction) :
    Prop :=
  ∀ i sequence settings, .launch i (.save sequence settings) ∈ actions →
    A (some (Gui.saveSettingsAt float settings))

theorem Saves.launches {actions : List StoreAction} (h : Saves float A actions) :
    ∀ a ∈ actions, a.Launches fun _ job => job.Allowed float A := by
  intro a ha
  cases a with
  | launch i job =>
    cases job with
    | save sequence settings =>
      intro bytes hbytes
      exact hbytes ▸ h i sequence settings ha
    | load => exact nofun
  | _ => exact trivial

/-- One text for every double. -/
def zeros : UInt64 → List Char := fun _ => "0.0".toList

/-- A parser that refuses every text. -/
def refuses : Bytes → Except String Value := fun _ => .error "expected value"

/-- A disk with settings in a home directory. -/
def settledDisk (home : Path) (bytes : Bytes) : Disk where
  inode k :=
    if k = 2 then ⟨.file, 501, 0o600, 0, bytes, true⟩ else ⟨.directory, 501, 0o700, 0, [], true⟩
  unused := 3
  entries p :=
    if p = settingsPath home then some 2 else if p = settingsHome home then some 1
    else if p = home then some 0 else none
  older := []
  renamed := []

theorem settledDisk_made {bytes : Bytes} : (settledDisk home bytes).Made := by
  intro v hv p k hk
  cases List.mem_singleton.1 hv
  change (if _ then _ else _) = some k at hk
  change k < 3
  split_ifs at hk <;> cases hk <;> decide

theorem settledDisk_path {bytes : Bytes} :
    (settledDisk home bytes).entries (settingsPath home) = some 2 := if_pos rfl

theorem settledDisk_home {bytes : Bytes} :
    (settledDisk home bytes).entries (settingsHome home) = some 1 :=
  (if_neg (settingsHome_ne home)).trans (if_pos rfl)

theorem settledDisk_free {bytes : Bytes} {p : Path} (hpath : p ≠ settingsPath home)
    (hdirectory : p ≠ settingsHome home) (hhome : p ≠ home) :
    (settledDisk home bytes).entries p = none :=
  (if_neg hpath).trans ((if_neg hdirectory).trans (if_neg hhome))

theorem settledDisk_published {bytes : Bytes} (hA : A (some bytes)) :
    (settledDisk home bytes).Published A (settingsPath home) where
  made := settledDisk_made
  shows v hv := by
    cases List.mem_singleton.1 hv
    exact .inr ⟨2, settledDisk_path, ⟨(by decide : 2 < 3), rfl, rfl⟩, hA⟩

theorem settledDisk_lasting {bytes : Bytes} :
    (settledDisk home bytes).Lasting (settingsHome home) 1 where
  named := settledDisk_home
  everywhere v hv := by
    cases List.mem_singleton.1 hv
    exact settledDisk_home
  made := (by decide : 1 < 3)
  kind := rfl

/-- Whatever processes save and load the settings, however they are interleaved, fail, are killed or
lose power: what is found at the path, now or after a loss of power, is the whole of a file that was
there before or that one of them saved, and so is whatever they loaded. -/
theorem settings_are_never_torn (hplatform : platform ≠ .windows) {d : Disk}
    (hd : d.Published A (settingsPath home)) {actions : List StoreAction}
    (hsaves : Saves float A actions) {pool : StorePool}
    (hrun : run platform float fromSlice caller home (Pool.start d) actions = some pool) :
    pool.state.Published A (settingsPath home) ∧
      ∀ x ∈ pool.returned, Loads fromSlice A x.2.2 := by
  have hsound : Pool.Sound (answers caller) Disk.lose (program platform float fromSlice home)
      (conduct float home A) (fun _ job => job.Allowed float A) (fun _ job => job.Allowed float A)
      (fun _ _ outcome _ => Loads fromSlice A outcome) (Disk.Published A (settingsPath home)) :=
    sound (fun _ _ h => h) (ensures_program hplatform)
  have hstart : Pool.Keeps (answers caller) (conduct float home A)
      (fun _ job => job.Allowed float A)
      (fun _ _ outcome _ => Loads fromSlice A outcome) (Disk.Published A (settingsPath home))
      (Pool.start d : StorePool) := Pool.keeps_start hd
  have hkeeps := hstart.run hsound hsaves.launches (J := fun _ => True) trivial
    (fun _ _ _ _ _ _ _ => trivial) (fun _ _ _ _ => trivial) hrun
  exact ⟨hkeeps.1.state, hstart.run_returned hsound hsaves.launches
    (R := fun _ _ outcome => Loads fromSlice A outcome) (fun _ _ _ _ h => h) nofun hrun⟩

/-- Nothing faults, and each call does all that it is asked to. -/
def plenty : Fate := ⟨none, 1000, 0⟩

/-- Two processes save at the same time, and the first has just put its file in place. -/
def saveBesides : List StoreAction :=
  .launch 7 (.save 0 {}) :: .launch 8 (.save 0 { workers := 2 }) ::
    (List.replicate 15 [.call 7 plenty, .call 8 plenty]).flatten ++ [.call 7 plenty]

/-- Of its directory the medium still has the names from before. -/
def lastName : Loss := ⟨1, fun _ => []⟩

theorem interrupted_save_tears_nothing : ∃ pool pool' : StorePool,
    run .unix zeros refuses ⟨501, 0o022, 0⟩ ["home"] (Pool.start (settledDisk ["home"] [123, 125]))
        saveBesides = some pool ∧
      pool.state.entries (settingsPath ["home"]) = some 3 ∧
      run .unix zeros refuses ⟨501, 0o022, 0⟩ ["home"]
        (Pool.start (settledDisk ["home"] [123, 125])) (saveBesides ++ [.lose lastName]) =
          some pool' ∧
      pool'.state.entries (settingsPath ["home"]) = some 2 ∧
      pool'.state.Published (fun b => b = some [123, 125] ∨
        ∃ settings, b = some (Gui.saveSettingsAt zeros settings)) (settingsPath ["home"]) := by
  have hplaced : (run .unix zeros refuses ⟨501, 0o022, 0⟩ ["home"]
      (Pool.start (settledDisk ["home"] [123, 125])) saveBesides).map
        (fun pool => pool.state.entries (settingsPath ["home"])) = some (some 3) := by
    decide +kernel
  have hlost : (run .unix zeros refuses ⟨501, 0o022, 0⟩ ["home"]
      (Pool.start (settledDisk ["home"] [123, 125])) (saveBesides ++ [.lose lastName])).map
        (fun pool => pool.state.entries (settingsPath ["home"])) = some (some 2) := by
    decide +kernel
  obtain ⟨pool, hrun, hentry⟩ := Option.map_eq_some_iff.1 hplaced
  obtain ⟨pool', hrun', hentry'⟩ := Option.map_eq_some_iff.1 hlost
  exact ⟨pool, pool', hrun, hentry, hrun', hentry', (settings_are_never_torn (by decide)
    (settledDisk_published (.inl rfl)) (fun _ _ settings _ => .inr ⟨settings, rfl⟩) hrun').1⟩

/-- There is a file, and its contents are of `C`. -/
def Present (C : Bytes → Prop) (bytes : Option Bytes) : Prop := ∃ b ∈ bytes, C b

section stays
variable {C : Bytes → Prop} {me i k n : ℕ} {job : Job} {s t : Disk} {sequence : UInt64}
  {settings : Settings} {pool pool' : StorePool} {actions : List StoreAction}

/-- The directory `k` of the settings cannot be lost, and this many renamings have been done. -/
def Anchored (home : Path) (k n : ℕ) (d : Disk) : Prop :=
  d.Lasting (settingsHome home) k ∧ n ≤ d.renamed.length

theorem fixed_anchored : Fixed home (Anchored home k n) := framed_lasting.and framed_renamed

/-- What the processes go on to keep: the directory `k` cannot be lost, and what is put at the path
from the renaming `n` on has contents of `C`. -/
structure Continues (home : Path) (C : Bytes → Prop) (k n : ℕ) (d : Disk) : Prop where
  lasting : d.Lasting (settingsHome home) k
  puts : d.Puts (settingsPath home) C n

theorem Continues.of_guarantee (hjob : job.Allowed float (Present C))
    (hguar : (conduct float home A i job).guarantee s t) (h : Continues home C k n s) :
    Continues home C k n t := by
  have hspares := hguar.1 (i + 1) (Nat.succ_ne_self i)
  refine ⟨h.lasting.of_spares hspares, h.puts.of_spares hspares rfl hguar.2 fun b hb => ?_⟩
  obtain ⟨_, hmem, hC⟩ := hjob b hb
  exact Option.some.inj hmem ▸ hC

theorem Continues.lose (h : Continues home C k n s) (loss : Loss) :
    Continues home C k n (s.lose loss) :=
  ⟨h.lasting.lose loss, h.puts.lose loss⟩

/-- The process `me` says that its settings are saved only once they stay. -/
def Promise (home : Path) (me n i : ℕ) (_ : Job) (outcome : Outcome) (d : Disk) : Prop :=
  i = me → outcome = .saved (.ok ()) → ∀ v ∈ d.layouts, d.InPlace (settingsPath home) n v

section
variable (float fromSlice caller home)

abbrev SoundAny (Launched Allowed : ℕ → Job → Prop) (Q : ℕ → Job → Outcome → Disk → Prop) : Prop :=
  Pool.Sound (answers caller) Disk.lose (program .unix float fromSlice home)
    (conduct float home fun _ => True) Launched Allowed Q
    (Disk.Published (fun _ => True) (settingsPath home))

/-- Nothing is asked of the bytes that are at the path. -/
abbrev KeepsAny (Allowed : ℕ → Job → Prop) (Q : ℕ → Job → Outcome → Disk → Prop)
    (pool : StorePool) : Prop :=
  Pool.Keeps (answers caller) (conduct float home fun _ => True) Allowed Q
    (Disk.Published (fun _ => True) (settingsPath home)) pool

end

/-- Any program keeps its conduct, whatever it is. -/
theorem ensures_anything (i : ℕ) (job : Job) (s : Disk)
    (hs : s.Published (fun _ => True) (settingsPath home)) :
    Ensures (answers caller i) (conduct float home (fun _ => True) i job)
      (program .unix float fromSlice home i job) (fun _ _ => True) s :=
  (ensures_program (by decide) i job (fun _ _ => trivial) s hs).mono fun _ _ _ _ => trivial

theorem sound_any {Launched Allowed : ℕ → Job → Prop}
    (hallowed : ∀ i job, Launched i job → Allowed i job) :
    SoundAny float fromSlice caller home Launched Allowed fun _ _ _ _ => True :=
  sound hallowed fun i job _ => ensures_anything i job

/-- As long as `me` is not launched again. -/
theorem sound_promise : SoundAny float fromSlice caller home
    (fun i job => i ≠ me ∧ job.Allowed float (Present C))
    (fun _ job => job.Allowed float (Present C)) (Promise home me n) :=
  sound (fun _ _ h => h.2) fun i job hi s hs =>
    (ensures_anything i job s hs).mono fun _ _ _ _ him => absurd him hi.1

theorem ensures_promise (hs : s.Published (fun _ => True) (settingsPath home))
    (hn : Anchored home k n s) :
    Ensures (answers caller me) (conduct float home (fun _ => True) me (.save sequence settings))
      (program .unix float fromSlice home me (.save sequence settings))
      (Promise home me n me (.save sequence settings)) s := by
  have hpromise (outcome : Outcome) :
      (conduct float home (fun _ => True) me (.save sequence settings)).Stable
        (Promise home me n me (.save sequence settings) outcome) :=
    fun t u htu hu h hme hok => stable_inPlace_layouts t u htu hu (h hme hok)
  refine Meets.bind (yields_saveSettingsAt (by decide) (fun _ _ => trivial) fixed_anchored
    fun _ h => h.2) (fun result => meets_done (hpromise _) fun d _ h _ hok => ?_) s hs hn
  cases hok
  exact (h () rfl).2 rfl fun d hd => ⟨k, hd.1⟩

/-- Until the save is launched nothing is said of the others. -/
theorem keeps_before {d : Disk} (hd : d.Published (fun _ => True) (settingsPath home))
    (hrun : run .unix float fromSlice caller home (Pool.start d) actions = some pool) :
    KeepsAny float caller home (fun _ _ => True) (fun _ _ _ _ => True) pool := by
  have hstart : KeepsAny float caller home (fun _ _ => True) (fun _ _ _ _ => True)
      (Pool.start d : StorePool) := Pool.keeps_start hd
  exact (hstart.run (sound_any fun _ _ h => h) (fun a _ => by cases a <;> exact trivial)
    (J := fun _ => True) trivial (fun _ _ _ _ _ _ _ => trivial) (fun _ _ _ _ => trivial) hrun).1

/-- From the launch on the save keeps its promise. -/
theorem keeps_launched (h : KeepsAny float caller home (fun _ _ => True) (fun _ _ _ _ => True) pool)
    (hlasting : pool.state.Lasting (settingsHome home) k)
    (hlive : ∀ i job p, pool.live i = some (job, p) → job.Allowed float (Present C))
    (hsettings : C (Gui.saveSettingsAt float settings)) :
    KeepsAny float caller home (fun _ job => job.Allowed float (Present C))
      (Promise home me pool.state.renamed.length)
      (pool.setLive me (some (.save sequence settings,
        program .unix float fromSlice home me (.save sequence settings)))) := by
  have hjob : (Job.save sequence settings).Allowed float (Present C) := by
    rintro bytes rfl
    exact ⟨_, rfl, hsettings⟩
  refine Pool.keeps_setLive h.state hjob (ensures_promise h.state ⟨hlasting, le_rfl⟩)
    fun i hi job p hp => ⟨hlive i job p hp, ?_⟩
  exact (h.live i job p hp).mono fun _ _ _ _ him => absurd him hi

/-- What is saved beside it is allowed. -/
theorem keeps_during (h : KeepsAny float caller home
      (fun _ job => job.Allowed float (Present C)) (Promise home me n) pool)
    (hcontinues : Continues home C k n pool.state)
    (hsaves : Saves float (Present C) actions) (hme : ∀ job, .launch me job ∉ actions)
    (hrun : run .unix float fromSlice caller home pool actions = some pool') :
    KeepsAny float caller home (fun _ job => job.Allowed float (Present C)) (Promise home me n)
      pool' ∧ Continues home C k n pool'.state := by
  have hjobs : ∀ a ∈ actions, a.Launches fun i job => i ≠ me ∧ job.Allowed float (Present C) := by
    intro a ha
    have hallowed := hsaves.launches a ha
    cases a with
    | launch i job =>
      refine ⟨?_, hallowed⟩
      rintro rfl
      exact hme job ha
    | _ => exact trivial
  exact h.run sound_promise hjobs (J := Continues home C k n) hcontinues
    (fun _ _ _ _ hi hguar h => h.of_guarantee hi hguar) (fun _ loss _ h => h.lose loss) hrun

/-- Once it is kept, it stays. -/
theorem keeps_after (h : KeepsAny float caller home
      (fun _ job => job.Allowed float (Present C)) (fun _ _ _ _ => True) pool)
    (hcontinues : Continues home C k n pool.state)
    (hplace : ∀ v ∈ pool.state.layouts, pool.state.InPlace (settingsPath home) n v)
    (hsaves : Saves float (Present C) actions)
    (hrun : run .unix float fromSlice caller home pool actions = some pool') :
    pool'.state.Published (Present C) (settingsPath home) ∧
      pool'.state.Lasting (settingsHome home) k := by
  obtain ⟨hkept, hcontinues, hplace⟩ := h.run (sound_any fun _ _ h => h) hsaves.launches
    (J := fun d => Continues home C k n d ∧
      ∀ v ∈ d.layouts, d.InPlace (settingsPath home) n v) ⟨hcontinues, hplace⟩
    (fun i _ _ _ hi hguar h => ⟨h.1.of_guarantee hi hguar,
      Disk.InPlace.layouts_of_spares h.2 (hguar.1 (i + 1) (Nat.succ_ne_self i))⟩)
    (fun _ loss _ h => ⟨h.1.lose loss, Disk.InPlace.lose h.2 loss⟩) hrun
  exact ⟨Disk.published_of_inPlace hkept.state.made hcontinues.puts hplace, hcontinues.lasting⟩

end stays

end pool

end XusMiner.Gui.Store
