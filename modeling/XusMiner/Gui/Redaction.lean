import XusMiner.Gui.Credentials
import XusMiner.Library.Masking

namespace XusMiner.Gui
open Occurrences

/-- The text that stands for a secret, unless it has the secret in it. -/
def redactionMark : String := "[REDACTED]"

def replacement (secret : String) : String :=
  if secret.toList <:+: redactionMark.toList then "" else redactionMark

variable (isAlphanumeric : Char → Bool)

def isWord (c : Char) : Bool := isAlphanumeric c || c == '_'

def redactSecret (raw secret : String) : String :=
  if secret = "" then raw
  else if 2 < secret.length then
    String.ofList (replace secret.toList (replacement secret).toList raw.toList)
  else
    String.ofList (replaceTokens (isWord isAlphanumeric) secret.toList (replacement secret).toList
      raw.toList)

/-- The password is masked first, then what stands in front of the host in the pool field. -/
def Settings.redactSensitiveText (settings : Settings) (raw : String) : String :=
  let redacted := redactSecret isAlphanumeric raw settings.password
  match endpointUserinfo settings.pool with
  | some userinfo => redactSecret isAlphanumeric redacted userinfo
  | none => redacted

/-- What redaction is for: a text shows a short secret only as a part of some word. -/
def Hides (out secret : String) : Prop :=
  if 2 < secret.length then ¬secret.toList <:+: out.toList
  else ¬Token (isWord isAlphanumeric) secret.toList none out.toList

/-- The secrets that are hidden in every text. -/
def Maskable (secret : String) : Prop :=
  if 2 < secret.length then ¬Reforms secret.toList redactionMark.toList
  else ∀ p q, secret.toList = [p, q] →
    isWord isAlphanumeric p = isWord isAlphanumeric q ∧
      (p = q → isWord isAlphanumeric p = true)

variable {isAlphanumeric}

/-- No two neighbours in the mark are equal. -/
theorem chain_redactionMark : redactionMark.toList.IsChain (· ≠ ·) := by decide

/-- A secret that is taken out of the text altogether comes about around the place. -/
theorem reforms_nil {s : List Char} (h : s <:+: redactionMark.toList) (hlength : 2 < s.length) :
    Reforms s [] := by
  have hchain := List.IsChain.infix chain_redactionMark h
  obtain ⟨c, s, rfl⟩ := List.exists_cons_of_length_pos (by omega : 0 < s.length)
  obtain ⟨d, s, rfl⟩ := List.exists_cons_of_length_pos
    (by rw [List.length_cons] at hlength; omega : 0 < s.length)
  have hcd : c ≠ d := (List.isChain_cons_cons.1 hchain).1
  refine .around (u := [c]) (v := d :: s) rfl (by simp) ?_
  intro hoccurs
  have heq := hoccurs.eq_of_length (by simp)
  rw [List.singleton_append, List.dropLast_cons_of_ne_nil (List.cons_ne_nil d s)] at heq
  exact hcd (List.cons.inj (List.cons.inj heq).2).1.symm

theorem reforms_replacement_iff {secret : String} (hlength : 2 < secret.length) :
    Reforms secret.toList (replacement secret).toList ↔
      Reforms secret.toList redactionMark.toList := by
  by_cases h : secret.toList <:+: redactionMark.toList
  · rw [replacement, if_pos h]
    refine iff_of_true (reforms_nil h ?_) (.inside h)
    rwa [String.length_toList]
  · rw [replacement, if_neg h]

section Ascii
variable (hascii : ∀ c : Char, c.toNat < 128 → isAlphanumeric c = c.isAlphanum)
include hascii

theorem isWord_ascii {c : Char} (h : c.toNat < 128) :
    isWord isAlphanumeric c = (c.isAlphanum || c == '_') := by
  rw [isWord, hascii c h]

theorem walled_redactionMark : Walled (isWord isAlphanumeric) redactionMark.toList where
  front := ⟨'[', 'R', "EDACTED]".toList, rfl, (isWord_ascii hascii (by decide)).trans rfl⟩
  back := ⟨"[REDACTE".toList, 'D', ']', rfl, (isWord_ascii hascii (by decide)).trans rfl⟩

theorem replacement_ends (secret : String) :
    (replacement secret).toList.head?.any (isWord isAlphanumeric) = false ∧
      (replacement secret).toList.getLast?.any (isWord isAlphanumeric) = false := by
  unfold replacement
  split_ifs
  · exact ⟨rfl, rfl⟩
  · exact ⟨(isWord_ascii hascii (c := '[') (by decide)).trans rfl,
      (isWord_ascii hascii (c := ']') (by decide)).trans rfl⟩

/-- Of two neighbours in the mark one is a word character. -/
theorem isWord_of_neighbors {p q : Char} (h : [p, q] <:+: redactionMark.toList)
    (hpq : isWord isAlphanumeric p = isWord isAlphanumeric q) : isWord isAlphanumeric p = true := by
  have hchain : redactionMark.toList.IsChain fun a b =>
      a.toNat < 128 ∧ b.toNat < 128 ∧ (a.isAlphanum ∨ b.isAlphanum) := by decide
  have hpair := List.IsChain.infix hchain h
  obtain ⟨hp, hq, hword⟩ := List.isChain_pair.1 hpair
  rcases hword with hword | hword
  · rw [isWord_ascii hascii hp, hword, Bool.true_or]
  · rw [hpq, isWord_ascii hascii hq, hword, Bool.true_or]

theorem single_hidden {c : Char} {secret : String} (hsecret : secret.toList = [c])
    (raw : List Char) : ¬Token (isWord isAlphanumeric) [c] none
      (replaceTokens (isWord isAlphanumeric) [c] (replacement secret).toList raw) := by
  have hends := replacement_ends hascii secret
  have hoccurs : [c] <:+: redactionMark.toList ↔ c ∈ redactionMark.toList :=
    List.singleton_infix_iff _ _
  by_cases hin : c ∈ redactionMark.toList
  · have hempty : replacement secret = "" := by
      rw [replacement, hsecret, if_pos (hoccurs.2 hin)]
    rw [hempty] at hends ⊢
    exact no_token_of_single (by simp) hends.2 (.inr rfl) raw
  · have hmark : replacement secret = redactionMark := by
      rw [replacement, hsecret, if_neg (hoccurs.not.2 hin)]
    rw [hmark] at hends ⊢
    exact no_token_of_single hin hends.2 (.inl (walled_redactionMark hascii)) raw

theorem pair_hidden_iff {p q : Char} {secret : String} (hsecret : secret.toList = [p, q]) :
    (∀ raw, ¬Token (isWord isAlphanumeric) [p, q] none
        (replaceTokens (isWord isAlphanumeric) [p, q] (replacement secret).toList raw)) ↔
      isWord isAlphanumeric p = isWord isAlphanumeric q ∧
        (p = q → isWord isAlphanumeric p = true) := by
  have hends := replacement_ends hascii secret
  constructor
  · intro h
    have hpq : isWord isAlphanumeric p = isWord isAlphanumeric q := by
      by_contra hpq
      exact h _ (token_of_mixed hpq hends.1 hends.2)
    refine ⟨hpq, ?_⟩
    rintro rfl
    have ha : isWord isAlphanumeric 'a' = true := (isWord_ascii hascii (by decide)).trans rfl
    by_contra hp
    exact h _ (token_of_same (Bool.not_eq_true _ ▸ hp) ha)
  · rintro ⟨hpq, hsame⟩ raw
    by_cases hin : [p, q] <:+: redactionMark.toList
    · have hempty : replacement secret = "" := by rw [replacement, hsecret, if_pos hin]
      rw [hempty] at hends ⊢
      exact no_token_of_pair hpq hsame (by simp) hends.2
        (.inr (isWord_of_neighbors hascii hin hpq)) raw
    · have hmark : replacement secret = redactionMark := by rw [replacement, hsecret, if_neg hin]
      rw [hmark] at hends ⊢
      exact no_token_of_pair hpq hsame hin hends.2 (.inl (walled_redactionMark hascii)) raw

/-- A secret is hidden in every text exactly if it cannot come about again where it was masked,
or, where it is short, if none of its occurrences can shield the next one. -/
theorem redactSecret_hides_iff {secret : String} (hsecret : secret ≠ "") :
    (∀ raw, Hides isAlphanumeric (redactSecret isAlphanumeric raw secret) secret) ↔
      Maskable isAlphanumeric secret := by
  have hne : secret.toList ≠ [] := by simpa using hsecret
  have htexts : ∀ {P : List Char → Prop}, (∀ raw : String, P raw.toList) ↔ ∀ raw, P raw :=
    fun {P} =>
    ⟨fun h raw => by simpa using h (String.ofList raw), fun h raw => h raw.toList⟩
  unfold Maskable Hides redactSecret
  simp only [if_neg hsecret]
  by_cases hlong : 2 < secret.length
  · simp only [if_pos hlong, String.toList_ofList]
    rw [← reforms_replacement_iff hlong, ← replace_removes_iff hne]
    exact htexts (P := fun raw => ¬secret.toList <:+:
      replace secret.toList (replacement secret).toList raw)
  · simp only [if_neg hlong, String.toList_ofList]
    rw [htexts (P := fun raw => ¬Token (isWord isAlphanumeric) secret.toList none
      (replaceTokens (isWord isAlphanumeric) secret.toList (replacement secret).toList raw))]
    rw [← String.length_toList] at hlong
    obtain ⟨p, rest, hp⟩ := List.exists_cons_of_ne_nil hne
    cases rest with
    | nil =>
      rw [hp]
      exact iff_of_true (single_hidden hascii hp) (by simp)
    | cons q rest =>
      cases rest with
      | nil =>
        rw [hp, pair_hidden_iff hascii hp]
        simp
      | cons r rest =>
        rw [hp, List.length_cons, List.length_cons, List.length_cons] at hlong
        omega

end Ascii

theorem redactSecret_hides_password :
    Maskable Char.isAlphanum "pa55-word" ∧
      ∀ raw, Hides Char.isAlphanum (redactSecret Char.isAlphanum raw "pa55-word") "pa55-word" := by
  have hdisjoint : "pa55-word".toList.all (fun c => !redactionMark.toList.contains c) := by
    decide
  have hmaskable : Maskable Char.isAlphanum "pa55-word" := by
    rw [Maskable, if_pos (by decide)]
    refine not_reforms_of_disjoint (by decide +kernel) (by decide +kernel) fun c hc => ?_
    simpa using List.all_eq_true.1 hdisjoint c hc
  exact ⟨hmaskable, (redactSecret_hides_iff (fun _ _ => rfl) (by decide +kernel)).2 hmaskable⟩

/-- A word that stands around two of itself is left when the inner ones are taken out. -/
theorem secret_reintroduced :
    redactSecret Char.isAlphanum "RREDED" "RED" = "RED" ∧
      ¬Hides Char.isAlphanum (redactSecret Char.isAlphanum "RREDED" "RED") "RED" := by
  have hrun : redactSecret Char.isAlphanum "RREDED" "RED" = "RED" := by
    rw [redactSecret, if_neg (by decide), if_pos (by decide)]
    decide +kernel
  refine ⟨hrun, ?_⟩
  rw [hrun, Hides, if_pos (by decide), not_not]

end XusMiner.Gui
