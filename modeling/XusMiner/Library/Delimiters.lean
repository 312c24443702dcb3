import Mathlib.Data.List.DropRight
import XusMiner.Library.Occurrences
import XusMiner.Library.Strings

namespace Strings

/-! ## White space at the ends -/

theorem trimChars_prefix (cs : List Char) : trimChars cs <+: cs.dropWhile isWhitespace := by
  have h := List.dropWhile_suffix isWhitespace (l := (cs.dropWhile isWhitespace).reverse)
  unfold trimChars
  rw [← List.reverse_prefix, List.reverse_reverse] at h
  exact h

/-- Trimming leaves nothing to trim. -/
theorem trimChars_trimChars (cs : List Char) : trimChars (trimChars cs) = trimChars cs := by
  have hfront : (trimChars cs).dropWhile isWhitespace = trimChars cs := by
    obtain ⟨back, hback⟩ := trimChars_prefix cs
    cases hcs : trimChars cs with
    | nil => rfl
    | cons c rest =>
      rw [hcs, List.cons_append] at hback
      have hhead : isWhitespace c = false := by
        have h := List.head?_dropWhile_not isWhitespace cs
        rw [← hback] at h
        simpa using h
      rw [List.dropWhile_cons, hhead]
      rfl
  have hback : (trimChars cs).reverse.dropWhile isWhitespace = (trimChars cs).reverse := by
    unfold trimChars
    rw [List.reverse_reverse, List.dropWhile_idempotent]
  calc trimChars (trimChars cs)
      = (((trimChars cs).dropWhile isWhitespace).reverse.dropWhile isWhitespace).reverse := rfl
    _ = trimChars cs := by rw [hfront, hback, List.reverse_reverse]

@[simp] theorem trim_trim (s : String) : trim (trim s) = trim s := by
  simp [trim, trimChars_trimChars]

/-- A text without white space has none to trim. -/
theorem trim_of_not_whitespace {s : String} (h : ∀ c ∈ s.toList, isWhitespace c = false) :
    trim s = s := by
  have hfront : s.toList.dropWhile isWhitespace = s.toList := by
    rw [List.dropWhile_eq_self_iff]
    intro hpos
    rw [h _ (List.getElem_mem hpos)]
    exact Bool.false_ne_true
  have hback : s.toList.reverse.dropWhile isWhitespace = s.toList.reverse := by
    rw [List.dropWhile_eq_self_iff]
    intro hpos
    rw [h _ (List.mem_reverse.1 (List.getElem_mem hpos))]
    exact Bool.false_ne_true
  rw [trim, trimChars, hfront, hback, List.reverse_reverse, String.ofList_toList]

/-! ## Numerals -/

/-- One `+` may stand in front of an unsigned numeral. -/
def unsignedDigits : List Char → List Char
  | '+' :: rest => rest
  | cs => cs

/-- The value of an unsigned decimal numeral below `bound`. -/
def parseUnsigned (bound : ℕ) (s : String) : Option ℕ :=
  let digits := unsignedDigits s.toList
  if digits ≠ [] ∧ digits.all Char.isDigit ∧ Nat.ofDigitChars 10 digits 0 < bound then
    some (Nat.ofDigitChars 10 digits 0)
  else none

theorem unsignedDigits_suffix (cs : List Char) : unsignedDigits cs <:+ cs := by
  unfold unsignedDigits
  split
  · exact List.suffix_cons _ _
  · exact List.suffix_refl _

theorem isDigit_of_mem_decimal {n : ℕ} {c : Char} (h : c ∈ (decimal n).toList) : c.isDigit := by
  rw [decimal, Nat.toList_repr] at h
  exact Nat.isDigit_of_mem_toDigits (by decide) (by decide) h

theorem unsignedDigits_decimal (n : ℕ) :
    unsignedDigits (decimal n).toList = (decimal n).toList := by
  unfold unsignedDigits
  split
  · next rest hplus =>
    have hmem : '+' ∈ (decimal n).toList := by
      rw [hplus]
      exact List.mem_cons_self
    exact absurd (isDigit_of_mem_decimal hmem) (by decide)
  · rfl

/-- A numeral that was printed is read back. -/
@[simp] theorem parseUnsigned_decimal {bound n : ℕ} (h : n < bound) :
    parseUnsigned bound (decimal n) = some n := by
  have hall : (decimal n).toList.all Char.isDigit = true :=
    List.all_eq_true.2 fun c => isDigit_of_mem_decimal
  have hvalue : Nat.ofDigitChars 10 (decimal n).toList 0 = n := by simp [decimal]
  have hne : (decimal n).toList ≠ [] := by simp [decimal, Nat.toDigits_ne_nil]
  rw [parseUnsigned]
  simp only [unsignedDigits_decimal, hvalue]
  rw [if_pos ⟨hne, hall, h⟩]

theorem parseUnsigned_of_digits {bound n : ℕ} {s : String} (hne : s ≠ "")
    (hdigits : ∀ c ∈ s.toList, c.isDigit) :
    parseUnsigned bound s = some n ↔ Nat.ofDigitChars 10 s.toList 0 = n ∧ n < bound := by
  have hplus : unsignedDigits s.toList = s.toList := by
    unfold unsignedDigits
    split
    · next rest hrest =>
      exact absurd (hdigits '+' (hrest ▸ List.mem_cons_self)) (by decide)
    · rfl
  have htoList : s.toList ≠ [] := fun h => hne (String.toList_eq_nil_iff.1 h)
  rw [parseUnsigned]
  simp only [hplus]
  constructor
  · intro h
    split_ifs at h with hvalue
    obtain rfl := Option.some.inj h
    exact ⟨rfl, hvalue.2.2⟩
  · rintro ⟨rfl, hlt⟩
    rw [if_pos ⟨htoList, List.all_eq_true.2 hdigits, hlt⟩]

/-- A numeral ends in a digit. -/
theorem parseUnsigned_getLast {bound n : ℕ} {s : String} (h : parseUnsigned bound s = some n) :
    ∃ front c, s.toList = front ++ [c] ∧ c.isDigit := by
  unfold parseUnsigned at h
  dsimp only at h
  split_ifs at h with hdigits
  obtain ⟨hne, hall, -⟩ := hdigits
  obtain ⟨front, hfront⟩ := unsignedDigits_suffix s.toList
  refine ⟨front ++ (unsignedDigits s.toList).dropLast,
    (unsignedDigits s.toList).getLast hne, ?_, ?_⟩
  · rw [List.append_assoc, List.dropLast_append_getLast, hfront]
  · exact List.all_eq_true.1 hall _ (List.getLast_mem hne)

theorem decimal_ne {n : ℕ} {s : String} {c : Char} (hc : c ∈ s.toList)
    (hdigit : c.isDigit = false) :
    decimal n ≠ s := by
  rintro rfl
  exact nomatch hdigit.symm.trans (isDigit_of_mem_decimal hc)

/-! ## Parts of a text -/

/-- The parts before and after the first occurrence of a separator that is not empty. -/
def splitOnce (sep s : String) : Option (String × String) :=
  (Occurrences.splitFirst sep.toList s.toList).map fun parts =>
    (String.ofList parts.1, String.ofList parts.2)

theorem splitOnce_eq_some {sep s front back : String} (hsep : sep.toList ≠ []) :
    splitOnce sep s = some (front, back) ↔
      s.toList = front.toList ++ (sep.toList ++ back.toList) ∧
        Occurrences.Leftmost sep.toList front.toList := by
  rw [← Occurrences.splitFirst_eq_some hsep, splitOnce, Option.map_eq_some_iff]
  constructor
  · rintro ⟨⟨as, bs⟩, hsplit, hparts⟩
    cases hparts
    rw [String.toList_ofList, String.toList_ofList, hsplit]
  · intro hsplit
    exact ⟨_, hsplit, by simp⟩

theorem leftmost_singleton {c : Char} {front : List Char} :
    Occurrences.Leftmost [c] front ↔ c ∉ front := by
  rw [Occurrences.Leftmost, List.dropLast_singleton, List.append_nil, List.singleton_infix_iff]

/-- The separator is one character: it does not occur in the first part. -/
theorem splitOnce_char {c : Char} {sep s front back : String} (hsep : sep.toList = [c]) :
    splitOnce sep s = some (front, back) ↔ s = front ++ sep ++ back ∧ c ∉ front.toList := by
  rw [splitOnce_eq_some (by simp [hsep]), hsep, leftmost_singleton, ← String.toList_inj,
    String.toList_append, String.toList_append, hsep, List.append_assoc]

theorem splitOnce_char_none {c : Char} {sep s : String} (hsep : sep.toList = [c]) :
    splitOnce sep s = none ↔ c ∉ s.toList := by
  rw [splitOnce, Option.map_eq_none_iff, hsep,
    Occurrences.splitFirst_eq_none (List.cons_ne_nil c []), List.singleton_infix_iff]

/-- At most `n` parts, the last of which is what is left. -/
def splitn : ℕ → String → String → List String
  | 0, _, _ => []
  | 1, _, s => [s]
  | n + 2, sep, s =>
    match splitOnce sep s with
    | some (front, back) => front :: splitn (n + 1) sep back
    | none => [s]

def eqIgnoreAsciiCase (s t : String) : Bool := s.toList.map Char.toLower = t.toList.map Char.toLower

theorem trimEndMatches_of_getLast {c d : Char} {s : String} {front : List Char}
    (h : s.toList = front ++ [d]) (hne : d ≠ c) : trimEndMatches c s = s := by
  have hkeep : s.toList.reverse.dropWhile (· = c) = s.toList.reverse := by
    rw [h, List.reverse_append, List.reverse_singleton, List.singleton_append, List.dropWhile_cons]
    simp [hne]
  rw [trimEndMatches, hkeep, List.reverse_reverse, String.ofList_toList]

theorem stripPrefix_eq_some {front s t : String} :
    stripPrefix front s = some t ↔ s.toList = front.toList ++ t.toList := by
  unfold stripPrefix
  rw [← String.length_toList]
  constructor
  · intro h
    split_ifs at h with hstarts
    rw [List.isPrefixOf_iff_prefix] at hstarts
    cases h
    rw [String.toList_ofList]
    exact (List.prefix_iff_eq_append.1 hstarts).symm
  · intro h
    have hstarts : front.toList.isPrefixOf s.toList = true := by
      rw [List.isPrefixOf_iff_prefix, h]
      exact List.prefix_append _ _
    rw [if_pos hstarts, h, List.drop_left, String.ofList_toList]

theorem stripPrefix_eq_none {front s : String} :
    stripPrefix front s = none ↔ ¬front.toList <+: s.toList := by
  unfold stripPrefix
  split_ifs with hstarts
  · exact iff_of_false (by simp) (not_not.2 (List.isPrefixOf_iff_prefix.1 hstarts))
  · exact iff_of_true rfl (hstarts ∘ List.isPrefixOf_iff_prefix.2)

/-- The last occurrence of the character is where the text is split. -/
theorem rsplitOnce_eq_some {c : Char} {s front back : String} :
    rsplitOnce c s = some (front, back) ↔
    s.toList = front.toList ++ c :: back.toList ∧ c ∉ back.toList := by
  have hsplit : ∀ {as bs : List Char}, s.toList = as ++ c :: bs → c ∉ bs →
      rsplitOnce c s = some (String.ofList as, String.ofList bs) := by
    intro as bs hs hbs
    have hback : (s.toList.reverse.takeWhile (· ≠ c)).reverse = bs := by
      rw [hs, List.reverse_append, List.reverse_cons, List.append_assoc,
        List.takeWhile_append_of_pos]
      · simp
      · intro a ha
        simp only [ne_eq, decide_not, Bool.not_eq_true', decide_eq_false_iff_not]
        rintro rfl
        exact hbs (List.mem_reverse.1 ha)
    have hlength : s.length - bs.length - 1 = as.length := by
      rw [← String.length_toList, hs, List.length_append, List.length_cons]
      omega
    have hmem : c ∈ s.toList := by simp [hs]
    rw [rsplitOnce, if_pos hmem]
    simp only [hback, hlength]
    rw [hs, List.take_left]
  constructor
  · intro h
    have hmem : c ∈ s.toList.reverse := by
      by_contra hnot
      rw [rsplitOnce, if_neg (hnot ∘ List.mem_reverse.2)] at h
      cases h
    obtain ⟨bs, as, hs, hbs⟩ := List.eq_append_cons_of_mem hmem
    have hs' : s.toList = as.reverse ++ c :: bs.reverse := by
      simpa using congrArg List.reverse hs
    rw [hsplit hs' (hbs ∘ List.mem_reverse.1)] at h
    cases h
    simpa [hs'] using hbs
  · rintro ⟨hs, hback⟩
    rw [hsplit hs hback, String.ofList_toList, String.ofList_toList]

end Strings
