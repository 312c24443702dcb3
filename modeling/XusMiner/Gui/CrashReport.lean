import XusMiner.Diag.Timestamp
import XusMiner.Gui.App
import XusMiner.Gui.ChildLines
import XusMiner.Gui.Redaction

namespace XusMiner.Gui

def maxCrashReportBytes : ℕ := 128 * 1024

def maxCrashReportLogLines : ℕ := 100

def truncatedReportSuffix : String := "\n[crash report truncated]\n"

def omissionMarker : String := "[older engine log lines omitted to keep this report bounded]\n"

def Phase.label : Phase → String
  | .idle => "IDLE"
  | .starting => "STARTING"
  | .connecting => "CONNECTING"
  | .authenticating => "AUTHENTICATING"
  | .mining => "MINING"
  | .reconnecting => "RECONNECTING"
  | .stopping => "STOPPING"
  | .error => "ATTENTION"

/-- A line of the log; the instant is in nanoseconds. -/
structure LogLine where
  instant : ℕ
  text : String

/-- The window's state with the settings and the log, the oldest line first. -/
structure LoggedApp where
  app : MinerApp := {}
  settings : Settings := {}
  workers_eq : app.workers = settings.workers := by rfl
  startedAt : Option ℕ := none
  logs : List LogLine := []

/-- Where and when the report is made. -/
structure Host where
  platform : Platform
  os : String
  arch : String
  unixSeconds : UInt64

/-- The line as the report shows it, the time counted from the engine's start. -/
def LogLine.formatted (startedAt : Option ℕ) (line : LogLine) : String :=
  let seconds := (startedAt.map fun start => (line.instant - start) / 10 ^ 9).getD 0
  "[" ++ Diag.padded 2 (seconds / 60 : ℕ) ++ ":" ++ Diag.padded 2 (seconds % 60 : ℕ) ++ "] " ++
    line.text ++ "\n"

/-- The local variables of the loop over the log. -/
structure RecentLines where
  remaining : ℕ
  lines : List String := []
  omitted : Bool

/-- The loop takes the newest line first and stops at the first one that does not fit. -/
def RecentLines.collect (format : LogLine → String) (recent : RecentLines) :
    List LogLine → RecentLines
  | [] => recent
  | line :: older =>
    let formatted := format line
    if recent.remaining < formatted.utf8ByteSize then { recent with omitted := true }
    else collect format
      { recent with
        remaining := recent.remaining - formatted.utf8ByteSize
        lines := recent.lines ++ [formatted] } older

namespace LoggedApp

def crashReportHeader (host : Host) (window : LoggedApp) (exitDetail : String) : String :=
  "XUS MINER CRASH REPORT\nversion: " ++ Engine.version ++
  "\nplatform: " ++ host.os ++ " " ++ host.arch ++
  "\ntimestamp_unix: " ++ Strings.decimal host.unixSeconds.toNat ++
  "\nengine_exit: " ++ exitDetail ++
  "\n" ++ window.settings.endpointLine ++
  "\nconfigured_workers: " ++ Strings.decimal window.settings.workers.toNat ++
  "\neffective_workers: " ++
    Strings.decimal (window.app.effectiveEngineWorkers host.platform).toNat ++
  "\nphase: " ++ window.app.phase.label ++
  "\n\nRECENT ENGINE LOG (up to the last " ++ Strings.decimal maxCrashReportLogLines ++
    " bounded lines)\n"

variable (isAlphanumeric : Char → Bool)

def redactedHeader (host : Host) (window : LoggedApp) (exitDetail : String) : String :=
  window.settings.redactSensitiveText isAlphanumeric (window.crashReportHeader host exitDetail)

def redactedLine (window : LoggedApp) (line : LogLine) : String :=
  window.settings.redactSensitiveText isAlphanumeric (line.formatted window.startedAt)

def crashReportText (host : Host) (window : LoggedApp) (exitDetail : String) : String :=
  let header := window.redactedHeader isAlphanumeric host exitDetail
  let recent := RecentLines.collect (window.redactedLine isAlphanumeric)
    { remaining := maxCrashReportBytes - header.utf8ByteSize - omissionMarker.utf8ByteSize
      omitted := maxCrashReportLogLines < window.logs.length }
    (window.logs.reverse.take maxCrashReportLogLines)
  let report := recent.lines.reverse.foldl (· ++ ·) header
  let report := if recent.omitted then report ++ omissionMarker else report
  boundedText report maxCrashReportBytes truncatedReportSuffix
    (maxCrashReportBytes < report.utf8ByteSize)

end LoggedApp

def byteTotal (lines : List String) : ℕ := (lines.map String.utf8ByteSize).sum

/-- The `k` newest lines, in their order. -/
def newest (k : ℕ) (logs : List LogLine) : List LogLine := logs.drop (logs.length - k)

@[simp] theorem byteTotal_cons (line : String) (lines : List String) :
    byteTotal (line :: lines) = line.utf8ByteSize + byteTotal lines := rfl

@[simp] theorem byteTotal_reverse (lines : List String) :
    byteTotal lines.reverse = byteTotal lines := by
  rw [byteTotal, List.map_reverse, List.sum_reverse, byteTotal]

theorem foldl_append (header : String) (lines : List String) :
    lines.foldl (· ++ ·) header = header ++ String.join lines := by
  induction lines generalizing header with
  | nil => simp [String.join]
  | cons line lines ih =>
    have hjoin : String.join (line :: lines) = line ++ String.join lines := by
      rw [String.join, List.foldl_cons, String.empty_append, ih line]
    rw [List.foldl_cons, ih (header ++ line), hjoin, String.append_assoc]

theorem utf8ByteSize_join (lines : List String) :
    (String.join lines).utf8ByteSize = byteTotal lines := by
  induction lines with
  | nil => rfl
  | cons line lines ih =>
    rw [String.join, List.foldl_cons, foldl_append]
    simp [ih]

theorem newest_reverse (k : ℕ) (logs : List LogLine) :
    (newest k logs).reverse = logs.reverse.take k := by
  rw [newest, List.take_reverse]

/-- By induction on the lines: what is taken is the longest run of first lines within the budget,
and a line is left out exactly if that run is not all of them. -/
theorem RecentLines.collect_eq (format : LogLine → String) (recent : RecentLines)
    (logs : List LogLine) : ∃ k,
    IsGreatest {k | k ≤ logs.length ∧ byteTotal ((logs.take k).map format) ≤ recent.remaining} k ∧
      (recent.collect format logs).lines = recent.lines ++ (logs.take k).map format ∧
      (recent.collect format logs).omitted = (recent.omitted || decide (k < logs.length)) := by
  induction logs generalizing recent with
  | nil =>
    refine ⟨0, ⟨⟨le_rfl, Nat.zero_le _⟩, fun k hk => hk.1⟩, ?_, ?_⟩
    · simp [collect]
    · simp [collect]
  | cons line older ih =>
    by_cases hfits : recent.remaining < (format line).utf8ByteSize
    · -- already the first line is too long, and so is every run that begins with it
      refine ⟨0, ⟨⟨Nat.zero_le _, Nat.zero_le _⟩, fun k hk => ?_⟩, ?_, ?_⟩
      · cases k with
        | zero => exact le_rfl
        | succ k =>
          have hbytes := hk.2
          rw [List.take_succ_cons, List.map_cons, byteTotal_cons] at hbytes
          omega
      · simp [collect, hfits]
      · simp [collect, hfits]
    · obtain ⟨k, ⟨⟨hlength, hbytes⟩, hgreatest⟩, hlines, homitted⟩ := ih
        { recent with
          remaining := recent.remaining - (format line).utf8ByteSize
          lines := recent.lines ++ [format line] }
      dsimp only at hbytes
      refine ⟨k + 1, ⟨⟨Nat.succ_le_succ hlength, ?_⟩, fun j hj => ?_⟩, ?_, ?_⟩
      · rw [List.take_succ_cons, List.map_cons, byteTotal_cons]
        omega
      · cases j with
        | zero => exact Nat.zero_le _
        | succ j =>
          have hjbytes := hj.2
          rw [List.take_succ_cons, List.map_cons, byteTotal_cons] at hjbytes
          have hjk : j ≤ k := hgreatest ⟨Nat.le_of_succ_le_succ hj.1, by dsimp only; omega⟩
          exact Nat.succ_le_succ hjk
      · rw [collect, if_neg hfits, hlines]
        simp
      · rw [collect, if_neg hfits, homitted]
        simp

namespace LoggedApp
variable (isAlphanumeric : Char → Bool) (host : Host) (window : LoggedApp) (exitDetail : String)

/-- What the header and the marker leave of the report for the log. -/
def logBudget : ℕ :=
  maxCrashReportBytes -
    ((window.redactedHeader isAlphanumeric host exitDetail).utf8ByteSize +
      omissionMarker.utf8ByteSize)

/-- How many of the newest lines can be shown. -/
def Shown : Set ℕ :=
  {k | k ≤ window.logs.length ∧ k ≤ maxCrashReportLogLines ∧
    byteTotal ((newest k window.logs).map (window.redactedLine isAlphanumeric)) ≤
      window.logBudget isAlphanumeric host exitDetail}

theorem shown_eq : window.Shown isAlphanumeric host exitDetail =
    {k | k ≤ (window.logs.reverse.take maxCrashReportLogLines).length ∧
      byteTotal (((window.logs.reverse.take maxCrashReportLogLines).take k).map
        (window.redactedLine isAlphanumeric)) ≤
          window.logBudget isAlphanumeric host exitDetail} := by
  ext k
  rw [Shown, Set.mem_ofPred_eq, Set.mem_ofPred_eq, List.length_take, List.length_reverse,
    le_min_iff, ← and_assoc, and_comm (a := k ≤ window.logs.length)]
  refine and_congr_right fun hk => ?_
  rw [List.take_take, min_eq_left hk.1, ← newest_reverse, List.map_reverse, byteTotal_reverse]

/-- The report if the `k` newest lines are shown: the marker follows if these are not all. -/
def reportOf (k : ℕ) : String :=
  window.redactedHeader isAlphanumeric host exitDetail ++
    String.join ((newest k window.logs).map (window.redactedLine isAlphanumeric)) ++
    if k < window.logs.length then omissionMarker else ""

/-- What the loop comes to, before the report is cut to size. -/
theorem crashReportText_eq : ∃ k, IsGreatest (window.Shown isAlphanumeric host exitDetail) k ∧
    window.crashReportText isAlphanumeric host exitDetail =
      boundedText (window.reportOf isAlphanumeric host exitDetail k) maxCrashReportBytes
        truncatedReportSuffix (maxCrashReportBytes <
          (window.reportOf isAlphanumeric host exitDetail k).utf8ByteSize) := by
  obtain ⟨k, hgreatest, hlines, homitted⟩ :=
    RecentLines.collect_eq (window.redactedLine isAlphanumeric)
      { remaining := maxCrashReportBytes -
          (window.redactedHeader isAlphanumeric host exitDetail).utf8ByteSize -
          omissionMarker.utf8ByteSize
        omitted := maxCrashReportLogLines < window.logs.length }
      (window.logs.reverse.take maxCrashReportLogLines)
  have hshown : IsGreatest (window.Shown isAlphanumeric host exitDetail) k := by
    rw [shown_eq, logBudget, Nat.sub_add_eq]
    exact hgreatest
  obtain ⟨hlength, hmax, hbytes⟩ := hshown.1
  have hrun : (window.logs.reverse.take maxCrashReportLogLines).take k =
      (newest k window.logs).reverse := by
    rw [List.take_take, min_eq_left hmax, newest_reverse]
  -- the two causes of an omission: the cap on the lines and the budget
  have homits : (decide (maxCrashReportLogLines < window.logs.length) ||
      decide (k < (window.logs.reverse.take maxCrashReportLogLines).length)) =
        decide (k < window.logs.length) := by
    rw [← Bool.decide_or, decide_eq_decide, List.length_take, List.length_reverse]
    omega
  have hreport : (if decide (k < window.logs.length) = true then
        window.redactedHeader isAlphanumeric host exitDetail ++
          String.join ((newest k window.logs).map (window.redactedLine isAlphanumeric)) ++
          omissionMarker
      else window.redactedHeader isAlphanumeric host exitDetail ++
        String.join ((newest k window.logs).map (window.redactedLine isAlphanumeric))) =
      window.reportOf isAlphanumeric host exitDetail k := by
    by_cases hk : k < window.logs.length <;> simp [reportOf, hk]
  refine ⟨k, hshown, ?_⟩
  rw [crashReportText, hlines, homitted, homits, hrun, foldl_append, List.nil_append,
    List.map_reverse, List.reverse_reverse, hreport]

variable {isAlphanumeric host window exitDetail}

theorem reportOf_le
    (hroom : (window.redactedHeader isAlphanumeric host exitDetail).utf8ByteSize +
      omissionMarker.utf8ByteSize ≤ maxCrashReportBytes) {k : ℕ}
    (hk : k ∈ window.Shown isAlphanumeric host exitDetail) :
    (window.reportOf isAlphanumeric host exitDetail k).utf8ByteSize ≤ maxCrashReportBytes := by
  obtain ⟨-, -, hbytes⟩ := hk
  have hmarker : (if k < window.logs.length then omissionMarker else "").utf8ByteSize ≤
      omissionMarker.utf8ByteSize := by
    split_ifs
    · exact le_rfl
    · exact Nat.zero_le _
  rw [logBudget] at hbytes
  rw [reportOf, String.utf8ByteSize_append, String.utf8ByteSize_append, utf8ByteSize_join]
  omega

variable (isAlphanumeric host window exitDetail)

/-- The report is cut to size in any case. If header and marker fit, nothing is cut: the header is
followed by as many of the newest lines as can be shown and, if these are not all, by the marker.
A line is shown with its minutes and seconds in front, as `redact_sensitive_text` leaves it. -/
theorem crash_report_keeps_newest :
    (window.crashReportText isAlphanumeric host exitDetail).utf8ByteSize ≤ maxCrashReportBytes ∧
    ((window.redactedHeader isAlphanumeric host exitDetail).utf8ByteSize +
        omissionMarker.utf8ByteSize ≤ maxCrashReportBytes →
      ∃ k, IsGreatest (window.Shown isAlphanumeric host exitDetail) k ∧
        window.crashReportText isAlphanumeric host exitDetail =
          window.redactedHeader isAlphanumeric host exitDetail ++
            String.join ((newest k window.logs).map fun line =>
              window.settings.redactSensitiveText isAlphanumeric
                (line.formatted window.startedAt)) ++
            if k < window.logs.length then omissionMarker else "") := by
  refine ⟨boundedText_le _ _ _ _, fun hroom => ?_⟩
  obtain ⟨k, hshown, hreport⟩ := crashReportText_eq isAlphanumeric host window exitDetail
  have hle := reportOf_le hroom hshown.1
  refine ⟨k, hshown, hreport.trans ?_⟩
  rw [decide_eq_false (not_lt.2 hle)]
  exact boundedText_fits hle

/-- Both lines fit: no marker, and no password. -/
example : crashReportText Char.isAlphanum ⟨.unix, "linux", "x86_64", 7⟩
    { settings := { password := "hunter2" }
      startedAt := some 0
      logs := [⟨5 * 10 ^ 9, "login"⟩, ⟨65 * 10 ^ 9, "rejected: hunter2"⟩] } "exit status: 1" =
    "XUS MINER CRASH REPORT\nversion: 0.1.8\nplatform: linux x86_64\ntimestamp_unix: 7\n" ++
    "engine_exit: exit status: 1\nendpoint: 127.0.0.1:3333\nconfigured_workers: 1\n" ++
    "effective_workers: 1\nphase: IDLE\n\n" ++
    "RECENT ENGINE LOG (up to the last 100 bounded lines)\n" ++
    "[00:05] login\n[01:05] rejected: [REDACTED]\n" := by
  decide +kernel

end LoggedApp
end XusMiner.Gui
