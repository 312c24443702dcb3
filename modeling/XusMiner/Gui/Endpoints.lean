import XusMiner.Gui.Settings

namespace XusMiner.Gui

/-! ## The two readings of the connection mode -/

def portIs (port s : String) : Bool := (Strings.rsplitOnce ':' s).any fun parts => parts.2 = port

def hasScheme (scheme s : String) : Bool := (Strings.stripPrefix scheme s).isSome

theorem hasScheme_eq_false {scheme s : String} (h : hasScheme scheme s = false) :
    Strings.stripPrefix scheme s = none := by
  simpa [hasScheme] using h

/-- The port is what follows the last colon, with the scheme in front or without. An address
that ends in its port has no slash to trim. -/
theorem portIs_trim {raw : String} (h : validatePool raw = .ok ()) (port : String) :
    portIs port (Strings.trimEndMatches '/' (Strings.trim raw)) = portIs port (Strings.trim raw) ∧
      portIs port (Strings.trimEndMatches '/' (poolHostPort raw)) =
        portIs port (Strings.trim raw) := by
  obtain ⟨-, host, port', value, hsplit, hport⟩ := validatePool_eq_ok h
  obtain ⟨scheme, hscheme⟩ := poolHostPort_suffix raw
  obtain ⟨haddress, hcolon⟩ := Strings.rsplitOnce_eq_some.1 hsplit
  obtain ⟨digits, c, hdigits, hdigit⟩ := Strings.parseUnsigned_getLast hport
  have hc : c ≠ '/' := by
    rintro rfl
    cases hdigit
  have hwhole : Strings.rsplitOnce ':' (Strings.trim raw) =
      some (String.ofList (scheme ++ host.toList), port') := by
    rw [Strings.rsplitOnce_eq_some, ← hscheme, haddress]
    simp [hcolon]
  have hend : (poolHostPort raw).toList = (host.toList ++ ':' :: digits) ++ [c] := by
    rw [haddress, hdigits]
    simp
  have hend' : (Strings.trim raw).toList = (scheme ++ (host.toList ++ ':' :: digits)) ++ [c] := by
    rw [← hscheme, hend]
    simp
  rw [Strings.trimEndMatches_of_getLast hend hc, Strings.trimEndMatches_of_getLast hend' hc]
  simp [portIs, hsplit, hwhole]

/-- Without the scheme of a node, the engine looks at the address that was checked. -/
theorem endpointAddress_trim {raw : String} (hrpc : hasScheme "rpc://" (Strings.trim raw) = false)
    (hhttp : hasScheme "http://" (Strings.trim raw) = false) :
    endpointAddress (Strings.trim raw) = Strings.trimEndMatches '/' (poolHostPort raw) := by
  simp only [endpointAddress, poolHostPort, poolAddress, hasScheme_eq_false hrpc,
    hasScheme_eq_false hhttp, Option.or_none, Option.getD_none]

theorem isDirectRpc_trim {raw : String} (h : validatePool raw = .ok ()) :
    isDirectRpc (Strings.trim raw) = (hasScheme "rpc://" (Strings.trim raw) ||
      hasScheme "http://" (Strings.trim raw) || portIs "8645" (Strings.trim raw)) := by
  change (hasScheme "rpc://" (Strings.trim raw) || hasScheme "http://" (Strings.trim raw) ||
    portIs "8645" (endpointAddress (Strings.trim raw))) = _
  cases hrpc : hasScheme "rpc://" (Strings.trim raw) with
  | true => simp only [Bool.true_or]
  | false =>
    cases hhttp : hasScheme "http://" (Strings.trim raw) with
    | true => simp only [Bool.or_true, Bool.true_or]
    | false => rw [endpointAddress_trim hrpc hhttp, (portIs_trim h "8645").2]

/-- The window takes one more scheme for that of a node. -/
theorem isDirectNodeEndpoint_eq {raw : String} (h : validatePool raw = .ok ()) :
    isDirectNodeEndpoint raw =
      (isDirectRpc (Strings.trim raw) || hasScheme "https://" (Strings.trim raw)) := by
  change (hasScheme "rpc://" (Strings.trim raw) || hasScheme "http://" (Strings.trim raw) ||
    hasScheme "https://" (Strings.trim raw) ||
    portIs "8645" (Strings.trimEndMatches '/' (Strings.trim raw))) = _
  rw [(portIs_trim h "8645").1, isDirectRpc_trim h, Bool.or_right_comm]

theorem not_hasScheme_of_https {s : String} (h : hasScheme "https://" s = true) :
    hasScheme "rpc://" s = false ∧ hasScheme "http://" s = false := by
  obtain ⟨t, ht⟩ := Option.isSome_iff_exists.1 h
  have hs := Strings.stripPrefix_eq_some.1 ht
  have hnot : ∀ {front : String}, ¬front.toList <+: s.toList → hasScheme front s = false := by
    intro front hfront
    simp [hasScheme, Strings.stripPrefix_eq_none.2 hfront]
  exact ⟨hnot (by simp [hs]), hnot (by simp [hs])⟩

/-- The window and the engine agree unless the scheme is the one that only the window knows and
the port does not tell either. -/
theorem modes_agree {raw : String} (h : validatePool raw = .ok ()) :
    isDirectNodeEndpoint raw = isDirectRpc (Strings.trim raw) ↔
      (hasScheme "https://" (Strings.trim raw) = true →
        portIs "8645" (Strings.trim raw) = true) := by
  rw [isDirectNodeEndpoint_eq h]
  by_cases hhttps : hasScheme "https://" (Strings.trim raw) = true
  · obtain ⟨hrpc, hhttp⟩ := not_hasScheme_of_https hhttps
    rw [isDirectRpc_trim h, hhttps, hrpc, hhttp]
    simp
  · simp [hhttps]

theorem modes_agree_node : isDirectNodeEndpoint " tcp://10.0.0.2:8645" =
    isDirectRpc (Strings.trim " tcp://10.0.0.2:8645") :=
  (modes_agree (by decide)).2 (by decide)

/-- The engine speaks Stratum to an endpoint that the window shows as a node. -/
theorem https_node_is_a_pool : validatePool "https://node.example:443" = .ok () ∧
    isDirectNodeEndpoint "https://node.example:443" = true ∧
    isDirectRpc (Strings.trim "https://node.example:443") = false := by
  decide

end XusMiner.Gui
