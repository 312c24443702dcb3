import XusMiner.Gui.Credentials
import XusMiner.JsonPretty

namespace XusMiner.Gui
open ByteCodec

def maxSettingsBytes : ℕ := 64 * 1024

def clamp (low high n : UInt64) : UInt64 := if n < low then low else if high < n then high else n

def Settings.fromJson (value : Value) : Settings :=
  let settings : Settings := {}
  { settings with
    rewardRoute := if (value.get "reward_route").bind Value.asStr = some "external_pool" then
      .externalPool else settings.rewardRoute
    pool := ((value.get "pool").bind Value.asStr).getD settings.pool
    user := ((value.get "user").bind Value.asStr).getD settings.user
    workers := ((value.get "workers").bind Value.asU64).elim settings.workers (clamp 1 64)
    reconnectSecs :=
      ((value.get "reconnect_secs").bind Value.asU64).elim settings.reconnectSecs (clamp 1 3600)
    reportSecs :=
      ((value.get "report_secs").bind Value.asU64).elim settings.reportSecs (clamp 1 3600) }

/-- `load_settings_at` for a regular file in the operator's own directory. `fromSlice` is
`serde_json::from_slice`. -/
def loadSettingsAt (fromSlice : Bytes → Except String Value) (contents : Bytes) :
    Except String Settings :=
  if maxSettingsBytes < contents.length then .error "settings file is unexpectedly large"
  -- its length is looked at again once it is open, and when it has been read
  else if maxSettingsBytes < contents.length then
    .error "opened settings path is not a bounded regular file"
  else
    let bytes := contents.take (maxSettingsBytes + 1)
    if maxSettingsBytes < bytes.length then .error "settings file is unexpectedly large"
    else
      ((fromSlice bytes).map Settings.fromJson).mapError fun error =>
        "cannot decode settings: " ++ error

/-- What `save_settings_at` leaves in the file. -/
def saveSettingsAt (float : UInt64 → List Char) (settings : Settings) : Bytes :=
  settings.persistedJson.toVecPretty float

def digits (n : UInt64) : ℕ := (Nat.toDigits 10 n.toNat).length

/-- The bytes the file takes: the texts and numbers of the operator, and 108 for the rest. -/
def Settings.savedSize (settings : Settings) : ℕ :=
  escapedBytes (Strings.trim settings.pool) + escapedBytes (Strings.trim settings.user) +
    escapedBytes settings.rewardRoute.persisted + digits settings.workers +
    digits settings.reconnectSecs + digits settings.reportSecs + 108

variable {float : UInt64 → List Char} {fromSlice : Bytes → Except String Value}
  {settings : Settings}

theorem clamp_of_mem {low high n : UInt64} (h : low ≤ n ∧ n ≤ high) : clamp low high n = n := by
  rw [clamp, if_neg (UInt64.not_lt.2 h.1), if_neg (UInt64.not_lt.2 h.2)]

/-- An accepted endpoint has no credentials to take out. -/
theorem sanitizeEndpoint_of_validate (h : settings.validate = .ok ()) :
    sanitizeEndpoint (Strings.trim settings.pool) = Strings.trim settings.pool := by
  have hat := (validatePool_eq_ok (Settings.valid_of_validate h).pool).1
  obtain ⟨scheme, hmem, hscheme⟩ := poolHostPort_scheme settings.pool
  have hschemes : ∀ scheme ∈ endpointSchemes, '@' ∉ scheme.toList := by decide
  rw [sanitizeEndpoint_trim]
  apply sanitizeEndpoint_of_not_mem
  rw [hscheme, List.mem_append, not_or]
  exact ⟨hschemes scheme hmem, hat⟩

theorem persistedJson_eq (h : settings.validate = .ok ()) : settings.persistedJson =
    .object [("pool", .string (Strings.trim settings.pool)),
      ("reconnect_secs", .nat settings.reconnectSecs), ("report_secs", .nat settings.reportSecs),
      ("reward_route", .string settings.rewardRoute.persisted),
      ("user", .string (Strings.trim settings.user)), ("workers", .nat settings.workers)] := by
  rw [Settings.persistedJson, sanitizeEndpoint_of_validate h, Value.json]
  simp only [List.foldl_cons, List.foldl_nil, Value.insertField, String.reduceEq, String.reduceLT,
    if_false, if_true]

theorem length_saveSettingsAt (h : settings.validate = .ok ()) :
    (saveSettingsAt float settings).length = settings.savedSize := by
  have hpool : escapedBytes "pool" = 4 := by decide
  have huser : escapedBytes "user" = 4 := by decide
  have hroute : escapedBytes "reward_route" = 12 := by decide
  have hworkers : escapedBytes "workers" = 7 := by decide
  have hreconnect : escapedBytes "reconnect_secs" = 14 := by decide
  have hreport : escapedBytes "report_secs" = 11 := by decide
  rw [saveSettingsAt, Value.length_toVecPretty, persistedJson_eq h,
    Value.byteSize_pretty_object 0 (List.cons_ne_nil _ _)]
  simp only [List.map_cons, List.map_nil, List.sum_cons, List.sum_nil, Value.byteSize_stringField,
    Value.byteSize_natField, hpool, huser, hroute, hworkers, hreconnect, hreport,
    Settings.savedSize, digits]
  omega

/-- What is read back from the saved settings. -/
def Settings.restored (settings : Settings) : Settings :=
  { settings with
    pool := Strings.trim settings.pool, user := Strings.trim settings.user,
    password := ({} : Settings).password }

theorem fromJson_persistedJson (h : settings.validate = .ok ())
    (hreconnect : 1 ≤ settings.reconnectSecs ∧ settings.reconnectSecs ≤ 3600)
    (hreport : 1 ≤ settings.reportSecs ∧ settings.reportSecs ≤ 3600) :
    Settings.fromJson settings.persistedJson = settings.restored := by
  have hworkers := clamp_of_mem (Settings.valid_of_validate h).workers
  have hroute : (if settings.rewardRoute.persisted = "external_pool" then RewardRoute.externalPool
      else RewardRoute.ownedBridge) = settings.rewardRoute := by
    cases settings.rewardRoute <;> rfl
  rw [persistedJson_eq h]
  simp [Settings.fromJson, Value.get, List.lookup_cons, Value.asStr, Value.nat, Value.asU64,
    hworkers, clamp_of_mem hreconnect, clamp_of_mem hreport, hroute, Settings.restored]

theorem loadSettingsAt_of_le {contents : Bytes} (h : contents.length ≤ maxSettingsBytes) :
    loadSettingsAt fromSlice contents = ((fromSlice contents).map Settings.fromJson).mapError
      fun error => "cannot decode settings: " ++ error := by
  have hnot : ¬maxSettingsBytes < contents.length := Nat.not_lt.2 h
  have htake : contents.take (maxSettingsBytes + 1) = contents :=
    List.take_of_length_le (h.trans (Nat.le_succ _))
  unfold loadSettingsAt
  dsimp only
  rw [if_neg hnot, if_neg hnot, htake, if_neg hnot]

theorem loadSettingsAt_of_lt {contents : Bytes} (h : maxSettingsBytes < contents.length) :
    loadSettingsAt fromSlice contents = .error "settings file is unexpectedly large" := if_pos h

/-- Accepted settings survive a restart if and only if the file they are saved in stays within
what is read. -/
theorem settings_survive_iff (h : settings.validate = .ok ())
    (hreconnect : 1 ≤ settings.reconnectSecs ∧ settings.reconnectSecs ≤ 3600)
    (hreport : 1 ≤ settings.reportSecs ∧ settings.reportSecs ≤ 3600)
    (hserde : fromSlice (settings.persistedJson.toVecPretty float) = .ok settings.persistedJson) :
    loadSettingsAt fromSlice (saveSettingsAt float settings) = .ok settings.restored ↔
      settings.savedSize ≤ maxSettingsBytes := by
  have hlength : (saveSettingsAt float settings).length = settings.savedSize :=
    length_saveSettingsAt h
  rw [← hlength]
  constructor
  · intro hload
    by_contra hlarge
    rw [loadSettingsAt_of_lt (Nat.lt_of_not_le hlarge)] at hload
    cases hload
  · intro hsize
    rw [loadSettingsAt_of_le hsize, saveSettingsAt, hserde, Except.map, Except.mapError,
      fromJson_persistedJson h hreconnect hreport]

/-- A parser that knows one text. -/
def sliceOnly (float : UInt64 → List Char) (v : Value) (bytes : Bytes) : Except String Value :=
  if bytes = v.toVecPretty float then .ok v else .error "expected value at line 1 column 1"

def typedSettings : Settings where
  rewardRoute := .externalPool
  pool := " tcp://pool.example:4444 "
  user := "rig \"7\" "
  password := "secret"
  workers := 64
  reconnectSecs := 3600
  reportSecs := 1

theorem settings_survive_iff_typed :
    loadSettingsAt (sliceOnly (fun _ => []) typedSettings.persistedJson)
      (saveSettingsAt (fun _ => []) typedSettings) = .ok { typedSettings with
        pool := "tcp://pool.example:4444", user := "rig \"7\"", password := "x" } := by
  have hpool : Strings.trim typedSettings.pool = "tcp://pool.example:4444" := by decide
  have huser : Strings.trim typedSettings.user = "rig \"7\"" := by decide
  have hvalid : typedSettings.validate = .ok () := by decide
  have hserde : sliceOnly (fun _ => []) typedSettings.persistedJson
      (typedSettings.persistedJson.toVecPretty fun _ => []) = .ok typedSettings.persistedJson :=
    if_pos rfl
  have hsize : typedSettings.savedSize ≤ maxSettingsBytes := by decide
  have hsurvive := (settings_survive_iff hvalid (by decide) (by decide) hserde).2 hsize
  rw [hsurvive, Settings.restored, hpool, huser]

/-- A host of `n` letters. -/
def longPool (n : ℕ) : String := String.ofList (List.replicate n 'a' ++ ":1".toList)

theorem mem_longPool {n : ℕ} {c : Char} (hc : c ∈ (longPool n).toList) :
    c = 'a' ∨ c = ':' ∨ c = '1' := by
  rw [longPool, String.toList_ofList, List.mem_append] at hc
  rcases hc with hletter | hport
  · exact .inl (List.eq_of_mem_replicate hletter)
  · have hchars : ":1".toList = [':', '1'] := by decide
    rw [hchars] at hport
    exact .inr (by simpa using hport)

theorem trim_longPool (n : ℕ) : Strings.trim (longPool n) = longPool n := by
  apply Strings.trim_of_not_whitespace
  intro c hc
  rcases mem_longPool hc with rfl | rfl | rfl <;> decide

theorem poolHostPort_longPool {n : ℕ} (hn : 0 < n) : poolHostPort (longPool n) = longPool n := by
  obtain ⟨scheme, hmem, hscheme⟩ := poolHostPort_scheme (longPool n)
  have hhead : ∀ scheme ∈ endpointSchemes, scheme ≠ "" → scheme.toList.head? ≠ some 'a' := by
    decide
  rw [trim_longPool] at hscheme
  have hempty : scheme = "" := by
    by_contra hne
    have hfirst : (longPool n).toList.head? = some 'a' := by
      rw [longPool, String.toList_ofList, List.head?_append, List.head?_replicate,
        if_neg (Nat.ne_of_gt hn)]
      rfl
    apply hhead scheme hmem hne
    rw [hscheme, List.head?_append] at hfirst
    cases hscheme' : scheme.toList.head? with
    | none =>
      rw [List.head?_eq_none_iff, String.toList_eq_nil_iff] at hscheme'
      exact absurd hscheme' hne
    | some c =>
      rw [hscheme'] at hfirst
      exact hfirst
  apply String.toList_injective
  rw [hscheme, hempty, String.toList_empty, List.nil_append]

theorem validatePool_longPool {n : ℕ} (hn : 0 < n) : validatePool (longPool n) = .ok () := by
  have hhost : Strings.rsplitOnce ':' (longPool n) =
      some (String.ofList (List.replicate n 'a'), "1") := by
    rw [Strings.rsplitOnce_eq_some]
    refine ⟨?_, by decide⟩
    simp [longPool]
  have hwhite : (longPool n).toList.any Strings.isWhitespace = false := by
    rw [List.any_eq_false]
    intro c hc
    rcases mem_longPool hc with rfl | rfl | rfl <;> decide
  have hat : '@' ∉ (longPool n).toList := by
    intro hc
    rcases mem_longPool hc with h | h | h <;> exact absurd h (by decide)
  have hne : longPool n ≠ "" := by
    intro h
    have hlength := congrArg String.length h
    simp [longPool] at hlength
  have hname : String.ofList (List.replicate n 'a') ≠ "" := by
    intro h
    have hlength := congrArg String.length h
    simp only [String.length_ofList, List.length_replicate, String.length_empty] at hlength
    omega
  have hone : Strings.parseUnsigned (2 ^ 16) "1" = some 1 := by decide
  unfold validatePool
  dsimp only
  rw [poolHostPort_longPool hn, if_neg (by simp [hne, hwhite]), if_neg hat, hhost]
  dsimp only
  rw [if_neg hname, hone]
  rfl

theorem escapedBytes_longPool (n : ℕ) : escapedBytes (longPool n) = n + 2 := by
  have hletter : escapedSize 'a' = 1 := by decide
  have hport : (":1".toList.map escapedSize).sum = 2 := by decide
  rw [escapedBytes, longPool, String.toList_ofList, List.map_append, List.sum_append, hport,
    List.map_replicate, List.sum_replicate, hletter, smul_eq_mul, Nat.mul_one]

theorem validate_longPool {n : ℕ} (hn : 0 < n) :
    ({ pool := longPool n } : Settings).validate = .ok () := by
  have hplain : validatePool ({} : Settings).pool = .ok () := by decide
  have hrest : ({} : Settings).validate = .ok () := by decide
  rw [Settings.validate, hplain] at hrest
  rw [Settings.validate, validatePool_longPool hn]
  exact hrest

theorem lt_length_longPool (float : UInt64 → List Char) {n : ℕ} (hn : maxSettingsBytes ≤ n) :
    maxSettingsBytes < (saveSettingsAt float { pool := longPool n }).length := by
  have hpos : 0 < n := lt_of_lt_of_le (by decide) hn
  rw [length_saveSettingsAt (validate_longPool hpos), Settings.savedSize, trim_longPool,
    escapedBytes_longPool]
  omega

/-- The check asks nothing of the length of the endpoint, but the file is not read back beyond its
limit: whatever parses it, the settings are lost. -/
theorem long_pool_is_lost :
    ({ pool := longPool maxSettingsBytes } : Settings).validate = .ok () ∧
    ∀ (float : UInt64 → List Char) (fromSlice : Bytes → Except String Value),
      loadSettingsAt fromSlice (saveSettingsAt float { pool := longPool maxSettingsBytes }) =
        .error "settings file is unexpectedly large" := by
  refine ⟨validate_longPool (by decide), fun float fromSlice => ?_⟩
  exact loadSettingsAt_of_lt (lt_length_longPool float le_rfl)

end XusMiner.Gui
