import XusMiner.CommandLine
import XusMiner.Gui.App
import XusMiner.Gui.Settings

namespace XusMiner.Gui
open CommandLine

structure MemorySnapshot where
  available : UInt64
  total : UInt64

/-- What the window launches an engine from. -/
structure Launcher where
  settings : Settings
  singleWorkerRecovery : Bool := false
  lightRandomxRecovery : Bool := false
  memorySnapshot : Option MemorySnapshot
  memoryAcknowledged : Bool

namespace Launcher

def effectiveEngineWorkers (platform : Platform) (app : Launcher) : UInt64 :=
  if platform = .windows ∧ app.singleWorkerRecovery then 1 else app.settings.workers

/-- The operator has confirmed what no scan can tell. -/
def memoryConfirmed (app : Launcher) : Bool := app.memorySnapshot.isNone && app.memoryAcknowledged

def headlessCommand (platform : Platform) (app : Launcher) : List String :=
  ["--headless", "--json-events", "--parent-pipe-watchdog", "--password-stdin",
    "--pool", Strings.trim app.settings.pool,
    "--user", Strings.trim app.settings.user,
    "--workers", Strings.decimal (app.effectiveEngineWorkers platform).toNat,
    "--reconnect-secs", Strings.decimal app.settings.reconnectSecs.toNat,
    "--report-secs", Strings.decimal app.settings.reportSecs.toNat] ++
  (if app.lightRandomxRecovery then ["--randomx-light"] else []) ++
  (if app.memoryConfirmed then ["--confirm-randomx-memory"] else [])

/-- The settings as the operator approved them. -/
def approved (platform : Platform) (app : Launcher) : Config where
  pool := Strings.trim app.settings.pool
  user := Strings.trim app.settings.user
  password := app.settings.password
  workers := app.effectiveEngineWorkers platform
  reconnectSecs := app.settings.reconnectSecs
  reportSecs := app.settings.reportSecs
  randomxLight := app.lightRandomxRecovery

end Launcher

/-- The launcher reads the recovery flags of the window. -/
def MinerApp.launcher (app : MinerApp) (settings : Settings)
    (memorySnapshot : Option MemorySnapshot) (memoryAcknowledged : Bool) : Launcher where
  settings := { settings with workers := app.workers }
  singleWorkerRecovery := app.singleWorkerRecovery
  lightRandomxRecovery := app.lightRandomxRecovery
  memorySnapshot
  memoryAcknowledged

/-- The texts `main` reads as a flag wherever they stand. -/
def reservedFlags : List String := "--gui" :: scannedFlags

theorem not_reserved_of_colon {s : String} (h : ':' ∈ s.toList) : s ∉ reservedFlags := by
  have hcolon : ∀ flag ∈ reservedFlags, ':' ∉ flag.toList := by decide
  exact fun hs => hcolon s hs h

theorem decimal_not_reserved (n : ℕ) : Strings.decimal n ∉ reservedFlags := by
  have hdash : ∀ flag ∈ reservedFlags, '-' ∈ flag.toList := by decide
  exact fun hs => Strings.decimal_ne (hdash _ hs) (by decide) rfl

theorem colon_mem_of_validatePool {raw : String} (h : validatePool raw = .ok ()) :
    ':' ∈ (Strings.trim raw).toList := by
  obtain ⟨-, host, port, -, hsplit, -⟩ := validatePool_eq_ok h
  have hmem : ':' ∈ (poolHostPort raw).toList := by
    simp [(Strings.rsplitOnce_eq_some.1 hsplit).1]
  obtain ⟨front, hfront⟩ := poolHostPort_suffix raw
  rw [← hfront]
  exact List.mem_append_right _ hmem

theorem pool_ne_empty {raw : String} (h : validatePool raw = .ok ()) : Strings.trim raw ≠ "" := by
  intro hempty
  have hcolon := colon_mem_of_validatePool h
  rw [hempty] at hcolon
  cases hcolon

/-- Settings that were checked, and intervals as the window offers them. -/
structure Launcher.Checked (app : Launcher) : Prop where
  validate : app.settings.validate = .ok ()
  reconnect : 1 ≤ app.settings.reconnectSecs ∧ app.settings.reconnectSecs ≤ 3600
  report : 1 ≤ app.settings.reportSecs ∧ app.settings.reportSecs ≤ 3600

namespace Launcher
variable {platform : Platform} {app : Launcher}

/-- What is left of the command once the flags are taken out, with `user` for the label. -/
def options (platform : Platform) (app : Launcher) (user : List String) : List String :=
  ["--pool", Strings.trim app.settings.pool, "--user"] ++ user ++
    ["--workers", Strings.decimal (app.effectiveEngineWorkers platform).toNat,
      "--reconnect-secs", Strings.decimal app.settings.reconnectSecs.toNat,
      "--report-secs", Strings.decimal app.settings.reportSecs.toNat] ++
    (if app.lightRandomxRecovery then ["--randomx-light"] else [])

theorem headlessCommand_eq : app.headlessCommand platform =
    ["--headless", "--json-events", "--parent-pipe-watchdog", "--password-stdin"] ++
      (app.options platform [Strings.trim app.settings.user] ++
        if app.memoryConfirmed then ["--confirm-randomx-memory"] else []) := by
  simp [headlessCommand, options]

theorem filter_options (hpool : Strings.trim app.settings.pool ∉ scannedFlags)
    (user : List String) : (app.options platform user).filter (fun arg => arg ∉ scannedFlags) =
      app.options platform (user.filter fun arg => arg ∉ scannedFlags) := by
  have hdecimal : ∀ n, Strings.decimal n ∉ scannedFlags := fun n hn =>
    decimal_not_reserved n (List.mem_cons_of_mem _ hn)
  have hlight : (if app.lightRandomxRecovery then ["--randomx-light"] else []).filter
      (fun arg => arg ∉ scannedFlags) =
        if app.lightRandomxRecovery then ["--randomx-light"] else [] := by
    split_ifs
    · decide
    · rfl
  have hfront : ["--pool", Strings.trim app.settings.pool, "--user"].filter
      (fun arg => arg ∉ scannedFlags) = ["--pool", Strings.trim app.settings.pool, "--user"] := by
    apply List.filter_eq_self.2
    simp only [List.forall_mem_cons, decide_eq_true_eq]
    exact ⟨by decide, hpool, by decide, nofun⟩
  have hback : ∀ workers reconnect report : ℕ, ["--workers", Strings.decimal workers,
      "--reconnect-secs", Strings.decimal reconnect, "--report-secs", Strings.decimal report].filter
        (fun arg => arg ∉ scannedFlags) = ["--workers", Strings.decimal workers,
          "--reconnect-secs", Strings.decimal reconnect,
          "--report-secs", Strings.decimal report] := by
    intro workers reconnect report
    apply List.filter_eq_self.2
    simp only [List.forall_mem_cons, decide_eq_true_eq]
    exact ⟨by decide, hdecimal _, by decide, hdecimal _, by decide, hdecimal _, nofun⟩
  unfold options
  rw [List.filter_append, List.filter_append, List.filter_append, hfront, hback, hlight]

theorem filter_headlessCommand (hpool : Strings.trim app.settings.pool ∉ scannedFlags) :
    (app.headlessCommand platform).filter (fun arg => arg ∉ scannedFlags) =
      app.options platform
        ([Strings.trim app.settings.user].filter fun arg => arg ∉ scannedFlags) := by
  have hconfirm : (if app.memoryConfirmed then ["--confirm-randomx-memory"] else []).filter
      (fun arg => arg ∉ scannedFlags) = [] := by
    split_ifs
    · decide
    · rfl
  have hfront : ["--headless", "--json-events", "--parent-pipe-watchdog", "--password-stdin"].filter
      (fun arg => arg ∉ scannedFlags) = [] := by decide
  rw [headlessCommand_eq, List.filter_append, List.filter_append, hfront, filter_options hpool,
    hconfirm, List.nil_append, List.append_nil]

theorem workers_bounds (h : app.settings.Valid) : 1 ≤ (app.effectiveEngineWorkers platform).toNat ∧
    (app.effectiveEngineWorkers platform).toNat ≤ 64 := by
  unfold effectiveEngineWorkers
  split_ifs
  · decide
  · exact ⟨UInt64.le_iff_toNat_le.1 h.workers.1, UInt64.le_iff_toNat_le.1 h.workers.2⟩

/-- With the label in its place the options are read back. -/
theorem parseArgsFrom_options (h : app.Checked) : parseArgsFrom {}
    (app.options platform [Strings.trim app.settings.user]) =
      .ok { app.approved platform with password := "x" } := by
  have hvalid := Settings.valid_of_validate h.validate
  have hseconds : ∀ (flag : String) {seconds : UInt64}, 1 ≤ seconds ∧ seconds ≤ 3600 →
      parseU64 flag (Strings.decimal seconds.toNat) 1 3600 = .ok seconds := fun flag _ hbounds =>
    parseU64_decimal flag (UInt64.le_iff_toNat_le.1 hbounds.1) (UInt64.le_iff_toNat_le.1 hbounds.2)
  have hworkers : parseU64 "--workers"
      (Strings.decimal (app.effectiveEngineWorkers platform).toNat) 1 64 =
        .ok (app.effectiveEngineWorkers platform) :=
    parseU64_decimal _ (workers_bounds hvalid).1 (workers_bounds hvalid).2
  have hcheck : ∀ light, Config.check { app.approved platform with
      password := "x", randomxLight := light } = .ok { app.approved platform with
        password := "x", randomxLight := light } := by
    intro light
    simp [Config.check, approved, hvalid.user, pool_ne_empty hvalid.pool]
  have hlast : ∀ light : Bool, parseArgsFrom { app.approved platform with
      password := "x", randomxLight := false } (if light then ["--randomx-light"] else []) =
        .ok { app.approved platform with password := "x", randomxLight := light } := by
    intro light
    cases light with
    | false => exact hcheck false
    | true => exact parseArgsFrom_light.trans (hcheck true)
  simp only [options, List.cons_append, List.nil_append]
  rw [parseArgsFrom_value (by decide)]
  simp only [Config.set]
  rw [parseArgsFrom_value (by decide)]
  simp only [Config.set]
  rw [parseArgsFrom_value (by decide)]
  simp only [Config.set, hworkers, Except.map]
  rw [parseArgsFrom_value (by decide)]
  simp only [Config.set, hseconds _ h.reconnect, Except.map]
  rw [parseArgsFrom_value (by decide)]
  simp only [Config.set, hseconds _ h.report, Except.map]
  exact hlast app.lightRandomxRecovery

/-- Of the options only the label can be a text that is read as a flag. -/
theorem mem_options {flag : String} (hflag : flag ∈ reservedFlags)
    (hpool : Strings.trim app.settings.pool ∉ reservedFlags) {user : List String} :
    flag ∈ app.options platform user ↔ flag ∈ user := by
  have hother : ∀ option ∈ ["--pool", "--user", "--workers", "--reconnect-secs", "--report-secs",
      "--randomx-light"], option ∉ reservedFlags := by decide
  have hne : ∀ {option : String}, option ∉ reservedFlags → flag ≠ option := by
    rintro option hoption rfl
    exact hoption hflag
  have hdecimal : ∀ n, flag ≠ Strings.decimal n := fun n => hne (decimal_not_reserved n)
  constructor
  · intro hmem
    simp only [options, List.mem_append, List.mem_cons, List.not_mem_nil, or_false, hdecimal,
      hne hpool, hne (hother "--pool" (by decide)), hne (hother "--user" (by decide)),
      hne (hother "--workers" (by decide)), hne (hother "--reconnect-secs" (by decide)),
      hne (hother "--report-secs" (by decide)), false_or] at hmem
    rcases hmem with huser | hlight
    · exact huser
    · split_ifs at hlight
      · exact absurd (List.mem_singleton.1 hlight) (hne (hother _ (by decide)))
      · cases hlight
  · intro huser
    simp [options, huser]

theorem mem_headlessCommand {flag : String} (hflag : flag ∈ reservedFlags)
    (hpool : Strings.trim app.settings.pool ∉ reservedFlags) :
    flag ∈ app.headlessCommand platform ↔
      flag ∈ ["--headless", "--json-events", "--parent-pipe-watchdog", "--password-stdin"] ∨
        flag = Strings.trim app.settings.user ∨
        (flag = "--confirm-randomx-memory" ∧ app.memoryConfirmed = true) := by
  rw [headlessCommand_eq, List.mem_append, List.mem_append, mem_options hflag hpool,
    List.mem_singleton]
  split_ifs with hconfirmed
  · simp [hconfirmed]
  · simp [hconfirmed]

/-- The label is taken for a flag: the option in front of it takes the next one for its value. -/
theorem parseArgsFrom_noUser (platform : Platform) (app : Launcher) : ∃ exit,
    parseArgsFrom {} (app.options platform []) = .error exit := by
  have hunknown : Strings.decimal (app.effectiveEngineWorkers platform).toNat ∉ knownFlags := by
    have hdash : ∀ flag ∈ knownFlags, '-' ∈ flag.toList := by decide
    exact fun hs => Strings.decimal_ne (hdash _ hs) (by decide) rfl
  simp only [options, List.append_nil, List.cons_append, List.nil_append]
  rw [parseArgsFrom_value (by decide)]
  simp only [Config.set]
  rw [parseArgsFrom_value (by decide)]
  simp only [Config.set]
  exact ⟨_, parseArgsFrom_unknown hunknown⟩

/-- A label that is scanned for has its text taken out of the command. -/
theorem main_of_reserved (hpool : Strings.trim app.settings.pool ∉ reservedFlags)
    (huser : Strings.trim app.settings.user ∈ reservedFlags) {stdin : Except IoError String}
    {cfg : Config} {events watchdog confirmed : Bool} :
    main (app.headlessCommand platform) stdin ≠ .headless cfg events watchdog confirmed := by
  intro hmain
  have hfilter : (app.headlessCommand platform).filter _ = _ :=
    filter_headlessCommand fun hmem => hpool (List.mem_cons_of_mem _ hmem)
  have hnil : app.headlessCommand platform ≠ [] := by simp [headlessCommand_eq]
  by_cases hgui : "--gui" ∈ app.headlessCommand platform
  · rw [main, if_pos (.inr hgui)] at hmain
    cases hmain
  · have hscanned : Strings.trim app.settings.user ∈ scannedFlags := by
      rcases List.mem_cons.1 huser with hisgui | hscanned
      · have hmem : "--gui" ∈ app.headlessCommand platform :=
          (mem_headlessCommand List.mem_cons_self hpool).2 (.inr (.inl hisgui.symm))
        exact absurd hmem hgui
      · exact hscanned
    have hkept : [Strings.trim app.settings.user].filter
        (fun arg => arg ∉ scannedFlags) = [] := by simp [hscanned]
    obtain ⟨exit, hexit⟩ := parseArgsFrom_noUser platform app
    rw [← hkept, ← hfilter] at hexit
    rw [main_of_error hnil hgui hexit] at hmain
    cases hmain

theorem confirmed_headlessCommand (hpool : Strings.trim app.settings.pool ∉ reservedFlags)
    (huser : Strings.trim app.settings.user ∉ reservedFlags) :
    decide ("--confirm-randomx-memory" ∈ app.headlessCommand platform) = app.memoryConfirmed := by
  have hflag : "--confirm-randomx-memory" ∈ reservedFlags := by decide
  apply Bool.eq_iff_iff.2
  rw [decide_eq_true_eq, mem_headlessCommand hflag hpool]
  constructor
  · rintro (hfront | heq | ⟨-, hconfirmed⟩)
    · exact absurd hfront (by decide)
    · exact absurd (heq ▸ hflag) huser
    · exact hconfirmed
  · exact fun hconfirmed => .inr (.inr ⟨rfl, hconfirmed⟩)

theorem main_of_not_reserved (h : app.Checked)
    (hpool : Strings.trim app.settings.pool ∉ reservedFlags)
    (huser : Strings.trim app.settings.user ∉ reservedFlags) :
    main (app.headlessCommand platform) (.ok app.settings.password) =
      .headless (app.approved platform) true true app.memoryConfirmed := by
  have hvalid := Settings.valid_of_validate h.validate
  have hfilter : (app.headlessCommand platform).filter _ = _ :=
    filter_headlessCommand fun hmem => hpool (List.mem_cons_of_mem _ hmem)
  have hnil : app.headlessCommand platform ≠ [] := by simp [headlessCommand_eq]
  have hgui : "--gui" ∉ app.headlessCommand platform := by
    rw [mem_headlessCommand List.mem_cons_self hpool, not_or, not_or]
    refine ⟨by decide, fun heq => huser (heq ▸ List.mem_cons_self), fun hconfirm => ?_⟩
    exact absurd hconfirm.1 (by decide)
  have hkept : [Strings.trim app.settings.user].filter (fun arg => arg ∉ scannedFlags) =
      [Strings.trim app.settings.user] := by
    apply List.filter_eq_self.2
    simp only [List.forall_mem_cons, decide_eq_true_eq]
    refine ⟨fun hscanned => huser (List.mem_cons_of_mem _ hscanned), ?_⟩
    exact fun _ hnil => absurd hnil List.not_mem_nil
  have hparse : parseArgsFrom {} (app.options platform _) = _ := parseArgsFrom_options h
  rw [← hkept, ← hfilter] at hparse
  have hon : ∀ flag ∈ ["--headless", "--json-events", "--parent-pipe-watchdog",
      "--password-stdin"], flag ∈ app.headlessCommand platform := by
    intro flag hflag
    rw [headlessCommand_eq]
    exact List.mem_append_left _ hflag
  rw [main_of_ok hnil hgui hparse (hon _ (by decide)) hvalid.password,
    confirmed_headlessCommand hpool huser, decide_eq_true (hon "--json-events" (by decide)),
    decide_eq_true (hon "--parent-pipe-watchdog" (by decide))]
  rfl

/-- The engine runs with the settings that were approved, unless the label reads as a flag. -/
theorem main_headlessCommand (h : app.Checked) :
    main (app.headlessCommand platform) (.ok app.settings.password) =
        .headless (app.approved platform) true true app.memoryConfirmed ↔
      Strings.trim app.settings.user ∉ reservedFlags := by
  have hvalid := Settings.valid_of_validate h.validate
  have hpool : Strings.trim app.settings.pool ∉ reservedFlags :=
    not_reserved_of_colon (colon_mem_of_validatePool hvalid.pool)
  constructor
  · exact fun hmain huser => main_of_reserved hpool huser hmain
  · exact main_of_not_reserved h hpool

end Launcher

def typed (user : String) : Launcher where
  settings := { pool := " rpc://10.0.0.2:8645 ", user }
  memorySnapshot := none
  memoryAcknowledged := true

theorem checked_typed {user : String} (h : (typed user).settings.validate = .ok ()) :
    (typed user).Checked where
  validate := h
  reconnect := show (1 : UInt64) ≤ 5 ∧ (5 : UInt64) ≤ 3600 by decide
  report := show (1 : UInt64) ≤ 2 ∧ (2 : UInt64) ≤ 3600 by decide

theorem main_headlessCommand_typed :
    main ((typed "rig-7").headlessCommand .windows) (.ok "x") =
      .headless ((typed "rig-7").approved .windows) true true true :=
  (Launcher.main_headlessCommand (checked_typed (by decide))).2 (by decide)

/-- A label that reads as a flag opens a second window, or leaves its option without a value. -/
theorem label_read_as_flag : (typed "--gui").Checked ∧
    main ((typed "--gui").headlessCommand .unix) (.ok "x") = .gui ∧
    main ((typed "--headless").headlessCommand .unix) (.ok "x") =
      .exit ⟨2, "error: unknown option `1`\n\n" ++ usage⟩ :=
  ⟨checked_typed (by decide), rfl, rfl⟩

end XusMiner.Gui
