import XusMiner.Wire
import XusMiner.Library.Separated
import XusMiner.Library.Utf8

namespace XusMiner
open ByteCodec Separated

/-- The characters of a run in an account identifier, and those between two runs. -/
def IsAccountChar (c : Char) : Prop := c.isLower ∨ c.isDigit

def IsAccountSeparator (c : Char) : Prop := c = '-' ∨ c = '_' ∨ c = '.'

/-- Runs of `a-z0-9`, joined by single separators. -/
def AccountGrammar (account : String) : Prop :=
  Joined IsAccountChar IsAccountSeparator account.toList

theorem isSeparator_iff {b : UInt8} : isSeparator b = true ↔ b = 45 ∨ b = 95 ∨ b = 46 := by
  simp only [isSeparator, Bool.or_eq_true, beq_iff_eq, or_assoc]

theorem isLowercaseOrDigit_iff {b : UInt8} :
    isLowercaseOrDigit b = true ↔ 97 ≤ b ∧ b ≤ 122 ∨ 48 ≤ b ∧ b ≤ 57 := by
  simp only [isLowercaseOrDigit, Bool.or_eq_true, Bool.and_eq_true, decide_eq_true_eq]

theorem isSeparator_eq_false {b : UInt8} (h : isLowercaseOrDigit b = true) :
    isSeparator b = false := by
  rw [← Bool.not_eq_true, isSeparator_iff]
  rintro (rfl | rfl | rfl) <;> exact absurd h (by decide)

theorem checkAccountBytes_cons {previous : Bool} {b : UInt8} {rest : Bytes} :
    checkAccountBytes previous (b :: rest) = .ok () ↔
      (isLowercaseOrDigit b = true ∨ isSeparator b = true ∧ previous = false) ∧
        checkAccountBytes (isSeparator b) rest = .ok () := by
  rw [checkAccountBytes]
  by_cases hrun : isLowercaseOrDigit b = true
  · simp [hrun, isSeparator_eq_false hrun]
  · by_cases hsep : isSeparator b = true
    · cases previous <;> simp [hrun, hsep]
    · simp [hrun, hsep]

/-- After a separator the next byte must not be one. -/
theorem checkAccountBytes_true_cons {b : UInt8} {rest : Bytes} :
    checkAccountBytes true (b :: rest) = .ok () ↔
      isSeparator b = false ∧ checkAccountBytes false (b :: rest) = .ok () := by
  rw [checkAccountBytes_cons, checkAccountBytes_cons]
  by_cases hrun : isLowercaseOrDigit b = true
  · simp [hrun, isSeparator_eq_false hrun]
  · by_cases hsep : isSeparator b = true <;> simp [hrun, hsep]

/-- What the checks of the first, the last and every byte accept. -/
structure PassesChecks (bytes : Bytes) : Prop where
  ne_nil : bytes ≠ []
  first : isSeparator (bytes.headD 0) = false
  last : isSeparator (bytes.getLastD 0) = false
  each : checkAccountBytes false bytes = .ok ()

theorem passesChecks_singleton {b : UInt8} : PassesChecks [b] ↔ isLowercaseOrDigit b = true := by
  constructor
  · intro h
    exact (checkAccountBytes_cons.1 h.each).1.resolve_right fun hsep => by
      simpa [hsep.1] using h.first
  · intro h
    have hsep := isSeparator_eq_false h
    exact ⟨by simp, hsep, hsep, checkAccountBytes_cons.2 ⟨.inl h, rfl⟩⟩

theorem passesChecks_cons_cons {b c : UInt8} {rest : Bytes} : PassesChecks (b :: c :: rest) ↔
    isLowercaseOrDigit b = true ∧
      (PassesChecks (c :: rest) ∨ isSeparator c = true ∧ PassesChecks rest) := by
  constructor
  · rintro ⟨-, hfirst, hlast, heach⟩
    obtain ⟨hb, heach⟩ := checkAccountBytes_cons.1 heach
    have hrun := hb.resolve_right fun hsep => by simp [hsep.1] at hfirst
    rw [isSeparator_eq_false hrun] at heach
    refine ⟨hrun, ?_⟩
    by_cases hsep : isSeparator c = true
    · have hrest := (checkAccountBytes_cons.1 heach).2
      rw [hsep] at hrest
      rcases rest with _ | ⟨d, rest⟩
      · exact absurd hlast (by simp [hsep])
      · obtain ⟨hd, hrest⟩ := checkAccountBytes_true_cons.1 hrest
        exact .inr ⟨hsep, by simp, hd, hlast, hrest⟩
    · exact .inl ⟨by simp, by simpa using hsep, hlast, heach⟩
  · rintro ⟨hrun, h⟩
    have hfirst := isSeparator_eq_false hrun
    rcases h with ⟨-, -, hlast, heach⟩ | ⟨hsep, hne, hhead, hlast, heach⟩
    · exact ⟨by simp, hfirst, hlast, checkAccountBytes_cons.2 ⟨.inl hrun, by rwa [hfirst]⟩⟩
    · obtain ⟨d, rest, rfl⟩ := List.exists_cons_of_ne_nil hne
      refine ⟨by simp, hfirst, hlast, checkAccountBytes_cons.2 ⟨.inl hrun, ?_⟩⟩
      rw [hfirst]
      refine checkAccountBytes_cons.2 ⟨.inr ⟨hsep, rfl⟩, ?_⟩
      rw [hsep]
      exact checkAccountBytes_true_cons.2 ⟨hhead, heach⟩

theorem passesChecks_iff_joined (bytes : Bytes) :
    PassesChecks bytes ↔ Joined (isLowercaseOrDigit · = true) (isSeparator · = true) bytes := by
  induction h : bytes.length using Nat.strong_induction_on generalizing bytes with
  | _ n ih =>
    rcases bytes with _ | ⟨b, _ | ⟨c, rest⟩⟩
    · exact iff_of_false (fun h => h.ne_nil rfl) fun h => h.ne_nil rfl
    · rw [passesChecks_singleton, Joined.cons_iff]
      simp
    · simp only [List.length_cons] at h
      have hlong := ih (c :: rest).length (by simp only [List.length_cons]; omega) _ rfl
      have hshort := ih rest.length (by omega) rest rfl
      rw [passesChecks_cons_cons, Joined.cons_iff, hlong, hshort]
      simp

theorem validateAccountId_eq_ok (account : String) : validateAccountId account = .ok () ↔
    (2 ≤ account.utf8ByteSize ∧ account.utf8ByteSize ≤ 64) ∧ PassesChecks (utf8 account) := by
  rw [← Utf8.length_utf8, validateAccountId]
  by_cases hlength : 2 ≤ (utf8 account).length ∧ (utf8 account).length ≤ 64
  · rw [if_neg (not_not.2 hlength)]
    by_cases hends : (isSeparator ((utf8 account).headD 0) ||
        isSeparator ((utf8 account).getLastD 0)) = true
    · rw [if_pos hends]
      refine iff_of_false (by simp) fun h => ?_
      rw [h.2.first, h.2.last] at hends
      cases hends
    · rw [if_neg hends]
      rw [Bool.or_eq_true, not_or, Bool.not_eq_true, Bool.not_eq_true] at hends
      refine ⟨fun h => ⟨hlength, ?_, hends.1, hends.2, h⟩, fun h => h.2.each⟩
      intro hnil
      rw [hnil] at hlength
      exact absurd hlength (by simp)
  · rw [if_pos hlength]
    exact iff_of_false (by simp) fun h => hlength h.1

theorem isAccountChar_iff {c : Char} :
    IsAccountChar c ↔ 97 ≤ c.toNat ∧ c.toNat ≤ 122 ∨ 48 ≤ c.toNat ∧ c.toNat ≤ 57 := by
  have hlower : c.isLower = (decide ('a'.val ≤ c.val) && decide (c.val ≤ 'z'.val)) := rfl
  simp [IsAccountChar, hlower, Char.isDigit, UInt32.le_iff_toNat_le]

/-- The code of a character is of the same kind as the character. -/
theorem kind_of_ascii {c : Char} (h : c.toNat < 128) :
    (isLowercaseOrDigit c.toUInt8 = true ↔ IsAccountChar c) ∧
      (isSeparator c.toUInt8 = true ↔ IsAccountSeparator c) := by
  have hcode : c.toUInt8.toNat = c.toNat :=
    (UInt32.toNat_toUInt8 _).trans (Nat.mod_eq_of_lt (h.trans (by decide)))
  constructor
  · rw [isLowercaseOrDigit_iff, isAccountChar_iff]
    simp [UInt8.le_iff_toNat_le, hcode]
  · rw [isSeparator_iff, IsAccountSeparator]
    simp [← UInt8.toNat_inj, hcode, Char.ext_iff, ← UInt32.toNat_inj]

/-- Bytes of the grammar are the codes of characters of the grammar. -/
theorem joined_utf8_iff (account : String) :
    Joined (isLowercaseOrDigit · = true) (isSeparator · = true) (utf8 account) ↔
      AccountGrammar account := by
  constructor
  · intro h
    have hascii : ∀ b ∈ utf8 account, b < 128 := by
      intro b hb
      rw [UInt8.lt_iff_toNat_lt]
      rcases h.forall_mem b hb with hrun | hsep
      · rw [isLowercaseOrDigit_iff] at hrun
        simp only [UInt8.le_iff_toNat_le, UInt8.reduceToNat] at hrun ⊢
        omega
      · rcases isSeparator_iff.1 hsep with rfl | rfl | rfl <;> decide
    have hchars := Utf8.ascii_of_utf8 hascii
    rw [Utf8.utf8_of_ascii hchars] at h
    have hback : ∀ c ∈ account.toList, Char.ofUInt8 c.toUInt8 = c :=
      fun c hc => Utf8.ofUInt8_toUInt8 (hchars c hc)
    have hmap : (account.toList.map Char.toUInt8).map Char.ofUInt8 = account.toList := by
      rw [List.map_map]
      exact (List.map_congr_left hback).trans (List.map_id' _)
    rw [AccountGrammar, ← hmap]
    refine h.map (fun b hb => ?_) fun b hb => ?_
    · obtain ⟨c, hc, rfl⟩ := List.mem_map.1 hb
      rw [hback c hc]
      exact (kind_of_ascii (hchars c hc)).1.1
    · obtain ⟨c, hc, rfl⟩ := List.mem_map.1 hb
      rw [hback c hc]
      exact (kind_of_ascii (hchars c hc)).2.1
  · intro h
    have hchars : ∀ c ∈ account.toList, c.toNat < 128 := by
      intro c hc
      rcases h.forall_mem c hc with hrun | hsep
      · rw [isAccountChar_iff] at hrun
        omega
      · rcases hsep with rfl | rfl | rfl <;> decide
    rw [Utf8.utf8_of_ascii hchars]
    exact h.map (fun c hc => (kind_of_ascii (hchars c hc)).1.2)
      fun c hc => (kind_of_ascii (hchars c hc)).2.2

/-- Exactly the identifiers of the grammar with 2 to 64 bytes are accepted. -/
theorem account_grammar_exact (account : String) : validateAccountId account = .ok () ↔
    (2 ≤ account.utf8ByteSize ∧ account.utf8ByteSize ≤ 64) ∧ AccountGrammar account := by
  rw [validateAccountId_eq_ok, passesChecks_iff_joined, joined_utf8_iff]

end XusMiner
