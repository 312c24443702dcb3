import XusMiner.Gui.Settings
import XusMiner.Json

namespace XusMiner.Gui

/-- What follows the last `@`. -/
def hostPart (authority : String) : String :=
  ((Strings.rsplitOnce '@' authority).map Prod.snd).getD authority

def sanitizeEndpoint (raw : String) : String :=
  let trimmed := Strings.trim raw
  match Strings.splitOnce "://" trimmed with
  | some (scheme, remainder) =>
    let authority := String.ofList (remainder.toList.takeWhile (· ≠ '/'))
    let tail := String.ofList (remainder.toList.dropWhile (· ≠ '/'))
    scheme ++ "://" ++ hostPart authority ++ tail
  | none => hostPart trimmed

def endpointUserinfo (raw : String) : Option String :=
  let trimmed := Strings.trim raw
  let remainder := ((Strings.splitOnce "://" trimmed).map Prod.snd).getD trimmed
  let authority := String.ofList (remainder.toList.takeWhile (· ≠ '/'))
  ((Strings.rsplitOnce '@' authority).map Prod.fst).filter fun userinfo => userinfo ≠ ""

/-- What is written to the settings file, also when the window closes. -/
def Settings.persistedJson (settings : Settings) : Value :=
  .json [("reward_route", .string settings.rewardRoute.persisted),
    ("pool", .string (sanitizeEndpoint (Strings.trim settings.pool))),
    ("user", .string (Strings.trim settings.user)),
    ("workers", .nat settings.workers),
    ("reconnect_secs", .nat settings.reconnectSecs),
    ("report_secs", .nat settings.reportSecs)]

/-- A line of the crash report and of the copied diagnostics. -/
def Settings.endpointLine (settings : Settings) : String :=
  "endpoint: " ++ sanitizeEndpoint settings.pool

/-- The endpoint up to its path: the scheme, if there is one, and the authority. -/
def endpointFront (s : String) : List Char :=
  match Strings.splitOnce "://" s with
  | some (scheme, remainder) =>
    scheme.toList ++ ("://".toList ++ remainder.toList.takeWhile (· ≠ '/'))
  | none => s.toList.takeWhile (· ≠ '/')

theorem hostPart_spec (authority : String) : '@' ∉ (hostPart authority).toList ∧
    (hostPart authority).toList <:+ authority.toList ∧
    ('@' ∉ authority.toList → hostPart authority = authority) := by
  unfold hostPart
  cases hsplit : Strings.rsplitOnce '@' authority with
  | some parts =>
    obtain ⟨hauthority, hat⟩ := Strings.rsplitOnce_eq_some.1 hsplit
    refine ⟨hat, ?_, fun hnot => (hnot ?_).elim⟩
    · rw [hauthority]
      exact (List.suffix_cons _ _).trans (List.suffix_append _ _)
    · simp [hauthority]
  | none =>
    have hnot : '@' ∉ authority.toList := by
      intro hmem
      rw [Strings.rsplitOnce, if_pos hmem] at hsplit
      cases hsplit
    exact ⟨hnot, List.suffix_refl _, fun _ => rfl⟩

theorem endpointFront_of_some {s scheme remainder : String}
    (h : Strings.splitOnce "://" s = some (scheme, remainder)) : endpointFront s =
      scheme.toList ++ ("://".toList ++ remainder.toList.takeWhile (· ≠ '/')) := by
  rw [endpointFront, h]

theorem endpointFront_subset (s : String) : endpointFront s ⊆ s.toList := by
  cases hsplit : Strings.splitOnce "://" s with
  | some parts =>
    rw [endpointFront_of_some hsplit, ((Strings.splitOnce_eq_some (by decide)).1 hsplit).1]
    have hauthority : parts.2.toList.takeWhile (· ≠ '/') <+: parts.2.toList :=
      List.takeWhile_prefix _
    exact ((List.prefix_append_right_inj _).2
      ((List.prefix_append_right_inj _).2 hauthority)).subset
  | none =>
    rw [endpointFront, hsplit]
    exact (List.takeWhile_prefix _).subset

/-- The scheme is kept as it was typed, and the path too. -/
theorem sanitizeEndpoint_of_some {raw scheme remainder : String}
    (h : Strings.splitOnce "://" (Strings.trim raw) = some (scheme, remainder)) :
    ∃ host tail, sanitizeEndpoint raw = scheme ++ "://" ++ host ++ tail ∧
      host = hostPart (String.ofList (remainder.toList.takeWhile (· ≠ '/'))) ∧
      tail = String.ofList (remainder.toList.dropWhile (· ≠ '/')) := by
  rw [sanitizeEndpoint]
  simp only [h]
  exact ⟨_, _, rfl, rfl, rfl⟩

theorem endpointFront_sanitizeEndpoint {raw scheme remainder : String}
    (h : Strings.splitOnce "://" (Strings.trim raw) = some (scheme, remainder)) :
    endpointFront (sanitizeEndpoint raw) = scheme.toList ++ ("://".toList ++
      (hostPart (String.ofList (remainder.toList.takeWhile (· ≠ '/')))).toList) := by
  obtain ⟨host, tail, hsanitized, hhost, htail⟩ := sanitizeEndpoint_of_some h
  obtain ⟨-, hsuffix, -⟩ := hostPart_spec (String.ofList (remainder.toList.takeWhile (· ≠ '/')))
  rw [← hhost, String.toList_ofList] at hsuffix
  have hslash : ∀ c ∈ host.toList, decide (c ≠ '/') = true := by
    intro c hc
    have hkept := hsuffix.subset hc
    exact List.mem_takeWhile_imp (p := fun d => decide (d ≠ '/')) hkept
  have hpath : tail.toList.takeWhile (· ≠ '/') = [] := by
    rw [htail, String.toList_ofList, List.takeWhile_eq_nil_iff]
    intro hpos
    have hhead := List.head?_dropWhile_not (fun c => decide (c ≠ '/')) remainder.toList
    rw [List.head?_eq_getElem?, List.getElem?_eq_getElem hpos] at hhead
    simpa using hhead
  have hfirst : Strings.splitOnce "://" (sanitizeEndpoint raw) = some (scheme, host ++ tail) := by
    rw [Strings.splitOnce_eq_some (by decide), hsanitized]
    refine ⟨by simp, ((Strings.splitOnce_eq_some (by decide)).1 h).2⟩
  rw [endpointFront_of_some hfirst, String.toList_append,
    List.takeWhile_append_of_pos hslash, hpath,
    List.append_nil, hhost]

/-- What has no credentials is not touched. -/
theorem sanitizeEndpoint_of_not_mem {raw : String} (h : '@' ∉ (Strings.trim raw).toList) :
    sanitizeEndpoint raw = Strings.trim raw := by
  cases hsplit : Strings.splitOnce "://" (Strings.trim raw) with
  | some parts =>
    obtain ⟨scheme, remainder⟩ := parts
    obtain ⟨host, tail, hsanitized, hhost, htail⟩ := sanitizeEndpoint_of_some hsplit
    have htrim := ((Strings.splitOnce_eq_some (by decide)).1 hsplit).1
    have hauthority : '@' ∉ (String.ofList (remainder.toList.takeWhile (· ≠ '/'))).toList := by
      rw [String.toList_ofList]
      intro hmem
      apply h
      rw [htrim]
      exact List.mem_append_right _ (List.mem_append_right _
        ((List.takeWhile_prefix _).subset hmem))
    rw [(hostPart_spec _).2.2 hauthority] at hhost
    apply String.toList_injective
    rw [hsanitized, hhost, htail, htrim]
    simp
  | none =>
    rw [sanitizeEndpoint]
    simp only [hsplit]
    exact (hostPart_spec _).2.2 h

theorem sanitizeEndpoint_trim (raw : String) :
    sanitizeEndpoint (Strings.trim raw) = sanitizeEndpoint raw := by
  rw [sanitizeEndpoint, Strings.trim_trim, sanitizeEndpoint]

/-- Neither the settings file nor a report shows more of the pool field than its endpoint. -/
structure Settings.KeepsCredentials (settings : Settings) : Prop where
  front : '@' ∉ endpointFront (sanitizeEndpoint settings.pool)
  plain : '@' ∉ (Strings.trim settings.pool).toList →
    sanitizeEndpoint settings.pool = Strings.trim settings.pool
  persisted : ∀ pool, settings.persistedJson.get "pool" = some (.string pool) →
    '@' ∉ endpointFront pool
  reported : ∀ endpoint, settings.endpointLine = "endpoint: " ++ endpoint →
    '@' ∉ endpointFront endpoint

theorem Settings.keepsCredentials_iff (settings : Settings) : settings.KeepsCredentials ↔
    '@' ∉ endpointFront (sanitizeEndpoint settings.pool) := by
  constructor
  · exact fun h => h.front
  · intro hfront
    refine ⟨hfront, sanitizeEndpoint_of_not_mem, fun pool hpool => ?_, fun endpoint hline => ?_⟩
    · have hpersisted : settings.persistedJson.get "pool" =
          some (.string (sanitizeEndpoint (Strings.trim settings.pool))) := by
        simp [persistedJson, Value.get_json, List.lookup_cons]
      rw [hpersisted, sanitizeEndpoint_trim, Option.some.injEq, Value.string.injEq] at hpool
      rw [← hpool]
      exact hfront
    · rw [endpointLine, String.append_right_inj] at hline
      rw [← hline]
      exact hfront

/-- Credentials stay in the field unless they are typed in front of the scheme. -/
theorem credentials_stay_in_field (settings : Settings) : settings.KeepsCredentials ↔
    ∀ scheme remainder, Strings.splitOnce "://" (Strings.trim settings.pool) =
      some (scheme, remainder) → '@' ∉ scheme.toList := by
  rw [settings.keepsCredentials_iff]
  cases hsplit : Strings.splitOnce "://" (Strings.trim settings.pool) with
  | some parts =>
    obtain ⟨scheme, remainder⟩ := parts
    have hhost := (hostPart_spec (String.ofList (remainder.toList.takeWhile (· ≠ '/')))).1
    have hcolon : '@' ∉ "://".toList := by decide
    rw [endpointFront_sanitizeEndpoint hsplit, List.mem_append, List.mem_append, not_or, not_or]
    constructor
    · rintro ⟨hscheme, -⟩ scheme' remainder' heq
      cases heq
      exact hscheme
    · exact fun h => ⟨h scheme remainder rfl, hcolon, hhost⟩
  | none =>
    refine iff_of_true ?_ nofun
    have hhost : sanitizeEndpoint settings.pool = hostPart (Strings.trim settings.pool) := by
      rw [sanitizeEndpoint]
      simp only [hsplit]
    rw [hhost]
    exact fun hmem => (hostPart_spec _).1 (endpointFront_subset _ hmem)

/-- The authority is searched for them, the scheme is not. -/
theorem credentials_before_scheme :
    ¬({ pool := "op:secret@rpc://127.0.0.1:8645" } : Settings).KeepsCredentials ∧
      (({ pool := "op:secret@rpc://127.0.0.1:8645" } : Settings).persistedJson.get "pool").bind
        Value.asStr = some "op:secret@rpc://127.0.0.1:8645" := by
  constructor
  · intro h
    have hat : '@' ∈ endpointFront (sanitizeEndpoint "op:secret@rpc://127.0.0.1:8645") := by
      decide
    exact h.front hat
  · decide

end XusMiner.Gui
