import XusMiner.Library.Utf8
import XusMiner.Rpc.Budget

namespace XusMiner.Rpc
open ByteCodec BufRead EStateM

/-- A line as it is sent. -/
def lineBytes (line : String) : Bytes := utf8 line ++ [13, 10]

structure Header where
  name : String
  value : String

namespace Header

def line (h : Header) : String := h.name ++ ":" ++ h.value

/-- Names compare without their case. -/
def Is (h : Header) (name : String) : Prop := Strings.eqIgnoreAsciiCase h.name name

instance (h : Header) (name : String) : Decidable (h.Is name) :=
  inferInstanceAs (Decidable (_ = true))

/-- A header that the client takes, whatever its position. -/
structure Accepted (h : Header) : Prop where
  name_ne : h.name ≠ ""
  token : ∀ c ∈ h.name.toList, isTokenChar c
  value : ∀ c ∈ h.value.toList, isAsciiControl c → c = '\t'
  transferEncoding : ¬h.Is "transfer-encoding"
  contentEncoding : h.Is "content-encoding" →
    Strings.eqIgnoreAsciiCase (Strings.trim h.value) "identity"

end Header

/-- A run of digits and its value. -/
structure IsNumeral (s : String) (n : ℕ) : Prop where
  ne : s ≠ ""
  digits : ∀ c ∈ s.toList, c.isDigit
  value : Nat.ofDigitChars 10 s.toList 0 = n

/-- The one header that gives the length, or none. -/
def Framing (headers : List Header) : Option ℕ → Prop
  | none => ∀ h ∈ headers, ¬h.Is "content-length"
  | some n => n ≤ maxBodyBytes ∧ ∃ h, headers.filter (·.Is "content-length") = [h] ∧
      IsNumeral (Strings.trim h.value) n

/-- Three digits, the first of them 2. -/
def IsSuccess (code : String) : Prop :=
  code.length = 3 ∧ (∀ c ∈ code.toList, c.isDigit) ∧ code.toList.head? = some '2'

/-- A status line of a success: what follows the code is not looked at. -/
def StatusLine (line : String) : Prop :=
  ∃ version code, (version = "HTTP/1.0" ∨ version = "HTTP/1.1") ∧ IsSuccess code ∧
    (line = version ++ " " ++ code ∨ ∃ reason, line = version ++ " " ++ code ++ " " ++ reason)

theorem checkLine_eq_ok {used : ℕ} {bytes : Bytes} {line : String × ℕ} :
    checkLine used bytes = .ok line ↔
      bytes = lineBytes line.1 ∧ line.2 = used ∧ used ≤ maxHeaderBytes := by
  unfold checkLine
  constructor
  · intro h
    split_ifs at h with hlimit hend
    obtain ⟨front, rfl⟩ := hend
    have htake : (front ++ [13, 10]).take ((front ++ [13, 10]).length - 2) = front := by simp
    rw [htake] at h
    split at h
    · next text htext =>
      obtain rfl := Except.ok.inj h
      refine ⟨?_, rfl, not_lt.1 hlimit⟩
      rw [lineBytes, utf8_of_ofUtf8 htext]
    · cases h
  · obtain ⟨line, used'⟩ := line
    rintro ⟨rfl, rfl, hlimit⟩
    have htake : (lineBytes line).take ((lineBytes line).length - 2) = utf8 line := by
      simp [lineBytes]
    have hend : [13, 10] <:+ lineBytes line := List.suffix_append _ _
    rw [if_neg (not_lt.2 hlimit), if_neg (not_not.2 hend), htake, ofUtf8_utf8]

theorem check_eq_ok {σ α : Type} {x : Except IoError α} {s s' : σ} {a : α} :
    check x s = .ok a s' ↔ x = .ok a ∧ s' = s := by
  rw [check, adaptExcept_eq_ok, ofExcept_eq_ok]

/-- A line is read up to its first line feed, within what is left of the limit. -/
theorem headerLine_eq_ok {used : ℕ} {line : String × ℕ} {bs rest : Bytes} :
    headerLine cursor used bs = .ok line rest ↔ bs = lineBytes line.1 ++ rest ∧
      10 ∉ utf8 line.1 ∧ line.2 = used + (lineBytes line.1).length ∧ line.2 ≤ maxHeaderBytes := by
  unfold headerLine
  simp only [bind_eq_ok, ofExcept_eq_ok, adaptExcept_eq_ok, check_eq_ok, checkLine_eq_ok]
  constructor
  · rintro ⟨limit, bs, ⟨-, rfl⟩, bytes, rest', hbytes, ⟨hline, hused, hle⟩, rfl⟩
    rw [cursor_readUntil] at hbytes
    obtain ⟨rfl, rfl⟩ := EStateM.Result.ok.inj hbytes
    generalize hupTo : upTo (· == 10) (bs.take limit) = bytes at *
    have hprefix : bytes <+: bs := by
      rw [← hupTo]
      exact (upTo_isPrefix _ _).trans (List.take_prefix _ _)
    subst hline
    refine ⟨?_, ?_, hused, hused.symm ▸ hle⟩
    · obtain ⟨rest, rfl⟩ := hprefix
      rw [List.drop_left]
    · intro hmem
      have hdrop : (lineBytes line.1).dropLast = utf8 line.1 ++ [13] := by
        rw [lineBytes, List.dropLast_append_of_ne_nil (by simp)]
        rfl
      have hfront : (10 : UInt8) ∈ (upTo (· == 10) (bs.take limit)).dropLast := by
        rw [hupTo, hdrop]
        exact List.mem_append_left _ hmem
      exact absurd (upTo_dropLast 10 hfront) (by decide)
  · rintro ⟨rfl, hmem, hused, hle⟩
    have hroom : used ≤ maxHeaderBytes := by omega
    have hlength : (lineBytes line.1).length ≤ maxHeaderBytes - used + 1 := by omega
    have hupTo : upTo (· == 10) ((lineBytes line.1 ++ rest).take (maxHeaderBytes - used + 1)) =
        lineBytes line.1 := by
      have hnone : ∀ b ∈ utf8 line.1 ++ [13], (b == 10) = false := by
        intro b hb
        rcases List.mem_append.1 hb with hb | hb
        · exact beq_false_of_ne fun h => hmem (h ▸ hb)
        · rw [List.mem_singleton.1 hb]
          rfl
      rw [List.take_append, List.take_of_length_le hlength]
      have hsplit : lineBytes line.1 = (utf8 line.1 ++ [13]) ++ [10] := by simp [lineBytes]
      rw [hsplit, List.append_assoc]
      exact upTo_stop hnone (by rfl) _
    refine ⟨_, _, ⟨if_pos hroom, rfl⟩, _, _, cursor_readUntil _ _ _, ?_⟩
    rw [hupTo, List.drop_left]
    exact ⟨⟨rfl, hused, hused ▸ hle⟩, rfl⟩

theorem Header.splitOnce_line {h : Header} (htoken : ∀ c ∈ h.name.toList, isTokenChar c) :
    Strings.splitOnce ":" h.line = some (h.name, h.value) :=
  (Strings.splitOnce_char (c := ':') rfl).2
    ⟨rfl, fun hcolon => absurd (htoken _ hcolon) (by decide)⟩

theorem Header.line_of_splitOnce {line name value : String}
    (h : Strings.splitOnce ":" line = some (name, value)) : Header.line ⟨name, value⟩ = line :=
  ((Strings.splitOnce_char (c := ':') rfl).1 h).1.symm

theorem Header.Is.unique {h : Header} {name other : String} (his : h.Is name)
    (hne : Strings.eqIgnoreAsciiCase name other = false) : ¬h.Is other := by
  intro hother
  have hname : Strings.eqIgnoreAsciiCase name other = true := by
    rw [Strings.eqIgnoreAsciiCase, decide_eq_true_eq]
    exact (of_decide_eq_true his).symm.trans (of_decide_eq_true hother)
  rw [hne] at hname
  cases hname

/-- The form of a header line, as it is checked. -/
theorem form_iff {name value : String} :
    ¬(name = "" ∨ ¬name.toList.all isTokenChar ∨
        value.toList.any fun c => isAsciiControl c && c ≠ '\t') ↔
      name ≠ "" ∧ (∀ c ∈ name.toList, isTokenChar c) ∧
        ∀ c ∈ value.toList, isAsciiControl c → c = '\t' := by
  simp

theorem numeral_iff {value : String} {seen : Option ℕ} :
    ¬(seen.isSome ∨ value = "" ∨ ¬value.toList.all Char.isDigit) ↔
      seen = none ∧ value ≠ "" ∧ ∀ c ∈ value.toList, c.isDigit := by
  simp

/-- A header line is accepted or not, and only one of them may give the length. -/
theorem header_eq_ok {line : String} {seen length : Option ℕ} :
    header line seen = .ok length ↔ ∃ h : Header, h.line = line ∧ h.Accepted ∧
      if h.Is "content-length" then
        seen = none ∧ ∃ n, n ≤ maxBodyBytes ∧ IsNumeral (Strings.trim h.value) n ∧ length = some n
      else length = seen := by
  constructor
  · intro h
    unfold header at h
    cases hsplit : Strings.splitOnce ":" line with
    | none =>
      rw [hsplit] at h
      cases h
    | some parts =>
      obtain ⟨name, value⟩ := parts
      rw [hsplit] at h
      dsimp only at h
      split_ifs at h with hform hlength hnumeral htransfer hcontent
      · obtain ⟨hne, htoken, hvalue⟩ := form_iff.1 hform
        obtain ⟨rfl, hne', hdigits⟩ := numeral_iff.1 hnumeral
        have his : Header.Is ⟨name, value⟩ "content-length" := hlength
        cases hparse : Strings.parseUnsigned (2 ^ 64) (Strings.trim value) with
        | none =>
          rw [hparse] at h
          cases h
        | some n =>
          rw [hparse] at h
          dsimp only at h
          split_ifs at h with hlimit
          obtain ⟨hvalue', -⟩ := (Strings.parseUnsigned_of_digits hne' hdigits).1 hparse
          refine ⟨⟨name, value⟩, Header.line_of_splitOnce hsplit, ⟨hne, htoken, hvalue,
            his.unique (by decide), fun hother => absurd hother (his.unique (by decide))⟩, ?_⟩
          rw [if_pos his]
          exact ⟨rfl, n, not_lt.1 hlimit, ⟨hne', hdigits, hvalue'⟩, (Except.ok.inj h).symm⟩
      · obtain ⟨hne, htoken, hvalue⟩ := form_iff.1 hform
        have hnot : ¬Header.Is ⟨name, value⟩ "content-length" := hlength
        refine ⟨⟨name, value⟩, Header.line_of_splitOnce hsplit, ⟨hne, htoken, hvalue, htransfer,
          fun hother => ?_⟩, ?_⟩
        · by_contra hidentity
          exact hcontent ⟨hother, hidentity⟩
        · rw [if_neg hnot]
          exact (Except.ok.inj h).symm
  · rintro ⟨⟨name, value⟩, rfl, haccepted, hlength⟩
    have hform := form_iff.2 ⟨haccepted.name_ne, haccepted.token, haccepted.value⟩
    rw [header, Header.splitOnce_line haccepted.token]
    dsimp only
    rw [if_neg hform]
    by_cases his : Strings.eqIgnoreAsciiCase name "content-length" = true
    · have hlength := (if_pos (show Header.Is ⟨name, value⟩ _ from his)).mp hlength
      obtain ⟨hseen, n, hlimit, hnumeral, rfl⟩ := hlength
      have hparse := (Strings.parseUnsigned_of_digits hnumeral.ne hnumeral.digits).2
        ⟨hnumeral.value, hlimit.trans_lt (by decide : maxBodyBytes < 2 ^ 64)⟩
      rw [if_pos his, if_neg (numeral_iff.2 ⟨hseen, hnumeral.ne, hnumeral.digits⟩), hparse]
      dsimp only
      rw [if_neg (not_lt.2 hlimit)]
    · have hlength := (if_neg (show ¬Header.Is ⟨name, value⟩ _ from his)).mp hlength
      have hidentity : ¬(Strings.eqIgnoreAsciiCase name "content-encoding" = true ∧
          ¬Strings.eqIgnoreAsciiCase (Strings.trim value) "identity" = true) :=
        fun hother => hother.2 (haccepted.contentEncoding hother.1)
      have htransfer : ¬Strings.eqIgnoreAsciiCase name "transfer-encoding" = true :=
        haccepted.transferEncoding
      rw [if_neg his, if_neg htransfer, if_neg hidentity, hlength]

theorem isDigit_lt {c : Char} (h : c.isDigit) : c.toNat < 128 := by
  simp only [Char.isDigit, Bool.and_eq_true, decide_eq_true_eq] at h
  exact lt_of_le_of_lt (UInt32.le_iff_toNat_le.1 h.2) (by decide)

theorem utf8ByteSize_of_digits {s : String} (h : ∀ c ∈ s.toList, c.isDigit) :
    s.utf8ByteSize = s.length := by
  rw [← Utf8.length_utf8, Utf8.utf8_of_ascii fun c hc => isDigit_lt (h c hc), List.length_map,
    String.length_toList]

theorem isSuccess_iff {code : String} : IsSuccess code ↔
    code.utf8ByteSize = 3 ∧ code.toList.all Char.isDigit ∧ code.toList.head? = some '2' := by
  constructor
  · rintro ⟨hlength, hdigits, hhead⟩
    exact ⟨(utf8ByteSize_of_digits hdigits).trans hlength, List.all_eq_true.2 hdigits, hhead⟩
  · rintro ⟨hlength, hdigits, hhead⟩
    have hdigits := List.all_eq_true.1 hdigits
    exact ⟨(utf8ByteSize_of_digits hdigits).symm.trans hlength, hdigits, hhead⟩

/-- The first two parts of a status line. -/
theorem status_parts {line version code : String} (hversion : ' ' ∉ version.toList)
    (hcode : ' ' ∉ code.toList) (hne : code ≠ "") :
    (Strings.splitn 3 " " line)[0]?.getD "" = version ∧
        (Strings.splitn 3 " " line)[1]?.getD "" = code ↔
      line = version ++ " " ++ code ∨ ∃ reason, line = version ++ " " ++ code ++ " " ++ reason := by
  have hspace : " ".toList = [' '] := rfl
  constructor
  · intro h
    rw [Strings.splitn] at h
    cases hfirst : Strings.splitOnce " " line with
    | none =>
      rw [hfirst] at h
      exact absurd h.2.symm hne
    | some parts =>
      obtain ⟨front, back⟩ := parts
      rw [hfirst] at h
      obtain rfl := ((Strings.splitOnce_char hspace).1 hfirst).1
      dsimp only at h
      rw [Strings.splitn] at h
      cases hsecond : Strings.splitOnce " " back with
      | none =>
        rw [hsecond] at h
        obtain ⟨rfl, rfl⟩ := h
        exact .inl rfl
      | some parts =>
        obtain ⟨code', reason⟩ := parts
        rw [hsecond] at h
        obtain ⟨rfl, rfl⟩ := h
        obtain rfl := ((Strings.splitOnce_char hspace).1 hsecond).1
        exact .inr ⟨reason, by simp [String.append_assoc]⟩
  · have hfirst : ∀ back, Strings.splitOnce " " (version ++ " " ++ back) = some (version, back) :=
      fun back => (Strings.splitOnce_char hspace).2 ⟨rfl, hversion⟩
    rintro (rfl | ⟨reason, rfl⟩)
    · have hsecond := (Strings.splitOnce_char_none hspace).2 hcode
      rw [Strings.splitn, hfirst]
      dsimp only
      rw [Strings.splitn, hsecond]
      exact ⟨rfl, rfl⟩
    · have hline : version ++ " " ++ code ++ " " ++ reason =
          version ++ " " ++ (code ++ " " ++ reason) := by simp [String.append_assoc]
      have hsecond : Strings.splitOnce " " (code ++ " " ++ reason) = some (code, reason) :=
        (Strings.splitOnce_char hspace).2 ⟨rfl, hcode⟩
      rw [hline, Strings.splitn, hfirst]
      dsimp only
      rw [Strings.splitn, hsecond]
      exact ⟨rfl, rfl⟩

theorem checkStatus_eq_ok {line : String} : checkStatus line = .ok () ↔ StatusLine line := by
  have hnoSpace : ∀ {code : String}, IsSuccess code → ' ' ∉ code.toList :=
    fun h hspace => absurd (h.2.1 _ hspace) (by decide)
  have hne : ∀ {code : String}, IsSuccess code → code ≠ "" := by
    rintro _ h rfl
    cases h.1
  have hversion : ∀ {version : String}, (version = "HTTP/1.0" ∨ version = "HTTP/1.1") →
      ' ' ∉ version.toList := by
    rintro _ (rfl | rfl) <;> decide
  have hform : ∀ {version code : String}, ¬(¬(version = "HTTP/1.0" ∨ version = "HTTP/1.1") ∨
      code.utf8ByteSize ≠ 3 ∨ ¬code.toList.all Char.isDigit) ↔
        (version = "HTTP/1.0" ∨ version = "HTTP/1.1") ∧ code.utf8ByteSize = 3 ∧
          code.toList.all Char.isDigit := by
    intro version code
    rw [not_or, not_not, not_or, not_ne_iff, not_not]
  unfold checkStatus
  dsimp only
  constructor
  · intro h
    by_cases hmalformed : ¬((Strings.splitn 3 " " line)[0]?.getD "" = "HTTP/1.0" ∨
        (Strings.splitn 3 " " line)[0]?.getD "" = "HTTP/1.1") ∨
      ((Strings.splitn 3 " " line)[1]?.getD "").utf8ByteSize ≠ 3 ∨
        ¬((Strings.splitn 3 " " line)[1]?.getD "").toList.all Char.isDigit
    · rw [if_pos hmalformed] at h
      cases h
    · rw [if_neg hmalformed] at h
      split_ifs at h with hsuccess
      have hsuccess := not_not.1 hsuccess
      obtain ⟨hhttp, hsize, hdigits⟩ := hform.1 hmalformed
      have hcode := isSuccess_iff.2 ⟨hsize, hdigits, hsuccess⟩
      exact ⟨_, _, hhttp, hcode,
        (status_parts (hversion hhttp) (hnoSpace hcode) (hne hcode)).1 ⟨rfl, rfl⟩⟩
  · rintro ⟨version, code, hhttp, hcode, hline⟩
    obtain ⟨hfirst, hsecond⟩ :=
      (status_parts (hversion hhttp) (hnoSpace hcode) (hne hcode)).2 hline
    obtain ⟨hsize, hdigits, hhead⟩ := isSuccess_iff.1 hcode
    rw [hfirst, hsecond, if_neg (hform.2 ⟨hhttp, hsize, hdigits⟩), if_neg (not_not.2 hhead)]

/-- What the headers say of the length after a number of them has been read. -/
def FramingFrom (headers : List Header) (length : Option ℕ) : Option ℕ → Prop
  | none => Framing headers length
  | some n => length = some n ∧ ∀ h ∈ headers, ¬h.Is "content-length"

theorem framingFrom_cons {h : Header} {headers : List Header} {seen length : Option ℕ} :
    FramingFrom (h :: headers) length seen ↔ ∃ seen',
      (if h.Is "content-length" then
        seen = none ∧ ∃ n, n ≤ maxBodyBytes ∧ IsNumeral (Strings.trim h.value) n ∧ seen' = some n
      else seen' = seen) ∧ FramingFrom headers length seen' := by
  by_cases his : h.Is "content-length"
  · simp only [if_pos his]
    cases seen with
    | some n => simp [FramingFrom, his]
    | none =>
      constructor
      · intro hframing
        cases length with
        | none => exact absurd his (hframing h List.mem_cons_self)
        | some n =>
          obtain ⟨hlimit, h', hfilter, hnumeral⟩ := hframing
          rw [List.filter_cons_of_pos (by simpa using his)] at hfilter
          obtain ⟨rfl, hrest⟩ := List.cons.inj hfilter
          refine ⟨some n, ⟨rfl, n, hlimit, hnumeral, rfl⟩, rfl, ?_⟩
          simpa using hrest
      · rintro ⟨_, ⟨-, n, hlimit, hnumeral, rfl⟩, rfl, hrest⟩
        refine ⟨hlimit, h, ?_, hnumeral⟩
        rw [List.filter_cons_of_pos (by simpa using his)]
        simpa using hrest
  · simp only [if_neg his, exists_eq_left]
    cases seen with
    | some n => simp [FramingFrom, his]
    | none =>
      cases length with
      | none => simp [FramingFrom, Framing, his]
      | some n => simp [FramingFrom, Framing, his]

/-- The loop over the headers, one after the other. -/
theorem foldlM_header {lines : List String} {seen length : Option ℕ} :
    lines.foldlM (fun seen line => header line seen) seen = .ok length ↔
      ∃ headers : List Header, lines = headers.map Header.line ∧ (∀ h ∈ headers, h.Accepted) ∧
        FramingFrom headers length seen := by
  induction lines generalizing seen with
  | nil =>
    constructor
    · intro h
      obtain rfl := Except.ok.inj h
      refine ⟨[], rfl, by simp, ?_⟩
      cases seen <;> simp [FramingFrom, Framing]
    · rintro ⟨headers, hlines, -, hframing⟩
      obtain rfl := List.map_eq_nil_iff.1 hlines.symm
      cases seen with
      | some n => rw [hframing.1]; rfl
      | none =>
        cases length with
        | none => rfl
        | some n =>
          obtain ⟨-, h, hfilter, -⟩ := hframing
          cases hfilter
  | cons line lines ih =>
    rw [List.foldlM_cons]
    constructor
    · intro hrun
      obtain ⟨seen', hline, hlines⟩ := Except.bind_eq_ok hrun
      obtain ⟨h, rfl, haccepted, hseen⟩ := header_eq_ok.1 hline
      obtain ⟨headers, rfl, hall, hframing⟩ := ih.1 hlines
      refine ⟨h :: headers, rfl, ?_, framingFrom_cons.2 ⟨seen', hseen, hframing⟩⟩
      exact List.forall_mem_cons.2 ⟨haccepted, hall⟩
    · rintro ⟨headers, hlines, hall, hframing⟩
      cases headers with
      | nil => cases hlines
      | cons h headers =>
        obtain ⟨rfl, rfl⟩ := List.cons.inj hlines
        obtain ⟨haccepted, hall⟩ := List.forall_mem_cons.1 hall
        obtain ⟨seen', hseen, hframing⟩ := framingFrom_cons.1 hframing
        have hline := header_eq_ok.2 ⟨h, rfl, haccepted, hseen⟩
        have hrest := ih.2 ⟨headers, rfl, hall, hframing⟩
        rw [hline]
        exact hrest

theorem headers_eq_ok {rounds used : ℕ} {seen length : Option ℕ} {bs rest : Bytes} :
    headers cursor rounds used seen bs = .ok length rest ↔ ∃ lines : List String,
      (∀ line ∈ lines, line ≠ "" ∧ 10 ∉ utf8 line) ∧
      bs = lines.flatMap lineBytes ++ lineBytes "" ++ rest ∧ lines.length < rounds ∧
      used + (lines.flatMap lineBytes).length + 2 ≤ maxHeaderBytes ∧
      lines.foldlM (fun seen line => header line seen) seen = .ok length := by
  induction rounds generalizing used seen bs with
  | zero => exact iff_of_false (fun h => nomatch h) fun ⟨_, _, _, hrounds, _⟩ => nomatch hrounds
  | succ rounds ih =>
    rw [headers, bind_eq_ok]
    constructor
    · rintro ⟨⟨line, used'⟩, bs', hline, hrest⟩
      obtain ⟨rfl, hnotMem, hused, hle⟩ := headerLine_eq_ok.1 hline
      dsimp only at hrest hused hle
      by_cases hempty : line = ""
      · rw [if_pos hempty] at hrest
        obtain ⟨rfl, rfl⟩ := EStateM.Result.ok.inj hrest
        subst hempty
        have hlength : (lineBytes "").length = 2 := rfl
        exact ⟨[], by simp, rfl, Nat.succ_pos _, by simp; omega, rfl⟩
      · rw [if_neg hempty] at hrest
        obtain ⟨seen', bs'', hheader, hrest'⟩ := bind_eq_ok.1 hrest
        obtain ⟨hok, rfl⟩ := check_eq_ok.1 hheader
        obtain ⟨lines, hall, rfl, hrounds, hlimit, hfold⟩ := ih.1 hrest'
        refine ⟨line :: lines, List.forall_mem_cons.2 ⟨⟨hempty, hnotMem⟩, hall⟩, ?_,
          Nat.succ_lt_succ hrounds, ?_, ?_⟩
        · simp
        · rw [List.flatMap_cons, List.length_append]
          omega
        · rw [List.foldlM_cons, hok]
          exact hfold
    · rintro ⟨lines, hall, rfl, hrounds, hlimit, hfold⟩
      cases lines with
      | nil =>
        obtain rfl := Except.ok.inj hfold
        refine ⟨("", used + 2), rest, headerLine_eq_ok.2 ⟨rfl, by simp [utf8], rfl, ?_⟩, rfl⟩
        simpa using hlimit
      | cons line lines =>
        obtain ⟨⟨hempty, hnotMem⟩, hall⟩ := List.forall_mem_cons.1 hall
        obtain ⟨seen', hheader, hfold⟩ := Except.bind_eq_ok hfold
        rw [List.flatMap_cons, List.length_append] at hlimit
        refine ⟨(line, used + (lineBytes line).length),
          lines.flatMap lineBytes ++ lineBytes "" ++ rest,
          headerLine_eq_ok.2 ⟨?_, hnotMem, rfl, ?_⟩, ?_⟩
        · simp
        · dsimp only
          omega
        · dsimp only
          rw [if_neg hempty]
          exact bind_eq_ok.2 ⟨seen', _, check_eq_ok.2 ⟨hheader, rfl⟩,
            ih.2 ⟨lines, hall, rfl, Nat.lt_of_succ_lt_succ hrounds, by omega, hfold⟩⟩

/-- The head of a reply and the length it gives. -/
def IsHead (head : Bytes) (length : Option ℕ) : Prop :=
  ∃ status, ∃ headers : List Header, StatusLine status ∧ (∀ h ∈ headers, h.Accepted) ∧
    Framing headers length ∧ (∀ line ∈ status :: headers.map Header.line, 10 ∉ utf8 line) ∧
    head = (status :: headers.map Header.line ++ [""]).flatMap lineBytes ∧
    head.length ≤ maxHeaderBytes

/-- What is taken as the body: as many bytes as the length says, or all there are. -/
def IsBody : Option ℕ → Bytes → Bytes → Prop
  | some n, body, _ => body.length = n
  | none, body, rest => rest = [] ∧ body.length ≤ maxBodyBytes

theorem Header.line_ne (h : Header) : h.line ≠ "" := by
  intro hline
  have htoList := congrArg String.toList hline
  simp [Header.line] at htoList

theorem length_lines (lines : List String) :
    2 * lines.length ≤ (lines.flatMap lineBytes).length := by
  induction lines with
  | nil => exact le_rfl
  | cons line lines ih =>
    rw [List.flatMap_cons, List.length_append, List.length_cons, lineBytes, List.length_append,
      List.length_cons, List.length_singleton]
    omega

theorem flatMap_head (status : String) (lines : List String) :
    (status :: lines ++ [""]).flatMap lineBytes =
      lineBytes status ++ (lines.flatMap lineBytes ++ lineBytes "") := by
  simp

theorem readHead_eq_ok {bs rest : Bytes} {length : Option ℕ} :
    readHead cursor bs = .ok length rest ↔ ∃ head, IsHead head length ∧ bs = head ++ rest := by
  have hempty : (lineBytes "").length = 2 := rfl
  unfold readHead
  rw [bind_eq_ok]
  constructor
  · rintro ⟨⟨status, used⟩, bs', hline, hrest⟩
    obtain ⟨rfl, hnotMem, hused, hle⟩ := headerLine_eq_ok.1 hline
    obtain ⟨⟨⟩, bs'', hcheck, hrest'⟩ := bind_eq_ok.1 hrest
    obtain ⟨hstatus, rfl⟩ := check_eq_ok.1 hcheck
    obtain ⟨lines, hall, rfl, -, hlimit, hfold⟩ := headers_eq_ok.1 hrest'
    obtain ⟨headers, rfl, haccepted, hframing⟩ := foldlM_header.1 hfold
    dsimp only at hused
    refine ⟨_, ⟨status, headers, checkStatus_eq_ok.1 hstatus, haccepted, hframing, ?_, rfl, ?_⟩, ?_⟩
    · exact List.forall_mem_cons.2 ⟨hnotMem, fun line hline => (hall line hline).2⟩
    · rw [flatMap_head, List.length_append, List.length_append]
      omega
    · simp
  · rintro ⟨_, ⟨status, headers, hstatus, haccepted, hframing, hlines, rfl, hlimit⟩, rfl⟩
    obtain ⟨hnotMem, hlines⟩ := List.forall_mem_cons.1 hlines
    have hrounds := length_lines (headers.map Header.line)
    have htwo := length_lines [status]
    rw [flatMap_head, List.length_append, List.length_append] at hlimit
    rw [List.flatMap_singleton, List.length_singleton] at htwo
    refine ⟨(status, (lineBytes status).length),
      (headers.map Header.line).flatMap lineBytes ++ lineBytes "" ++ rest,
      headerLine_eq_ok.2 ⟨?_, hnotMem, (Nat.zero_add _).symm, ?_⟩,
      bind_eq_ok.2 ⟨(), _, check_eq_ok.2 ⟨checkStatus_eq_ok.2 hstatus, rfl⟩,
        headers_eq_ok.2 ⟨_, ?_, rfl, ?_, ?_, foldlM_header.2 ⟨headers, rfl, haccepted, hframing⟩⟩⟩⟩
    · rw [flatMap_head, List.append_assoc]
    · dsimp only
      omega
    · intro line hline
      obtain ⟨h, -, rfl⟩ := List.mem_map.1 hline
      exact ⟨h.line_ne, hlines _ hline⟩
    · unfold maxRounds
      omega
    · omega

theorem readBody_eq_ok {length : Option ℕ} {bs body rest : Bytes} :
    readBody cursor length bs = .ok body rest ↔ bs = body ++ rest ∧ IsBody length body rest := by
  cases length with
  | some n =>
    rw [readBody, adaptExcept_eq_ok, cursor_readExact]
    constructor
    · intro h
      split_ifs at h with hlength
      obtain ⟨rfl, rfl⟩ := EStateM.Result.ok.inj h
      exact ⟨(List.take_append_drop n bs).symm, List.length_take_of_le hlength⟩
    · rintro ⟨rfl, rfl⟩
      rw [if_pos (by simp), List.take_left, List.drop_left]
  | none =>
    rw [readBody, bind_eq_ok]
    simp only [adaptExcept_eq_ok, cursor_readToEnd]
    constructor
    · rintro ⟨_, _, hread, h⟩
      obtain ⟨rfl, rfl⟩ := EStateM.Result.ok.inj hread
      by_cases hlong : maxBodyBytes < (bs.take (maxBodyBytes + 1)).length
      · rw [if_pos hlong] at h
        cases h
      · rw [if_neg hlong] at h
        obtain ⟨rfl, rfl⟩ := EStateM.Result.ok.inj h
        refine ⟨(List.take_append_drop _ bs).symm, ?_, not_lt.1 hlong⟩
        rw [List.length_take] at hlong
        exact List.drop_eq_nil_of_le (by omega)
    · rintro ⟨rfl, rfl, hlength⟩
      rw [List.append_nil]
      have htake : body.take (maxBodyBytes + 1) = body := List.take_of_length_le (by omega)
      have hdrop : body.drop (maxBodyBytes + 1) = [] := List.drop_eq_nil_of_le (by omega)
      refine ⟨_, _, rfl, ?_⟩
      rw [htake, hdrop, if_neg (not_lt.2 hlength)]
      rfl

/-- A reply that is read, and what is left unread. -/
theorem readResponse_eq_ok {reply body rest : Bytes} :
    readResponse cursor reply = .ok body rest ↔
      ∃ head length, IsHead head length ∧ reply = head ++ body ++ rest ∧
        IsBody length body rest := by
  unfold readResponse
  rw [bind_eq_ok]
  constructor
  · rintro ⟨length, bs, hreadHead, hreadBody⟩
    obtain ⟨head, hhead, rfl⟩ := readHead_eq_ok.1 hreadHead
    obtain ⟨rfl, hbody⟩ := readBody_eq_ok.1 hreadBody
    exact ⟨head, length, hhead, (List.append_assoc _ _ _).symm, hbody⟩
  · rintro ⟨head, length, hhead, rfl, hbody⟩
    exact ⟨length, body ++ rest, readHead_eq_ok.2 ⟨head, hhead, List.append_assoc _ _ _⟩,
      readBody_eq_ok.2 ⟨rfl, hbody⟩⟩

/-- The head and the length are found in only one way. -/
theorem IsHead.unique {head head' : Bytes} {length length' : Option ℕ} (h : IsHead head length)
    (h' : IsHead head' length') {rest rest' : Bytes} (heq : head ++ rest = head' ++ rest') :
    length = length' ∧ rest = rest' := by
  have hread : readHead cursor (head ++ rest) = .ok length rest := readHead_eq_ok.2 ⟨head, h, rfl⟩
  have hread' : readHead cursor (head ++ rest) = .ok length' rest' :=
    readHead_eq_ok.2 ⟨head', h', heq⟩
  exact EStateM.Result.ok.inj (hread.symm.trans hread')

/-- A part of a reply of a given length is refused. -/
theorem strict_prefix_refused {head body part : Bytes} {n : ℕ} (hhead : IsHead head (some n))
    (hbody : body.length = n) (hpart : part <+: head ++ body) (hne : part ≠ head ++ body) :
    ∃ error rest, readResponse cursor part = .error (.io error) rest := by
  cases hrun : readResponse cursor part with
  | error failure rest =>
    obtain ⟨error, rfl⟩ := readResponse_error cursor hrun
    exact ⟨error, rest, rfl⟩
  | ok body' rest =>
    exfalso
    obtain ⟨head', length', hhead', rfl, hbody'⟩ := readResponse_eq_ok.1 hrun
    obtain ⟨left, hleft⟩ := hpart
    rw [List.append_assoc, List.append_assoc] at hleft
    obtain ⟨rfl, hrest⟩ := hhead'.unique hhead hleft
    have hlength := congrArg List.length hrest
    rw [List.length_append, List.length_append] at hlength
    have hbody' : body'.length = n := hbody'
    obtain ⟨rfl, rfl⟩ : rest = [] ∧ left = [] := by
      refine ⟨List.length_eq_zero_iff.1 ?_, List.length_eq_zero_iff.1 ?_⟩
      · omega
      · omega
    simp only [List.append_nil] at hleft hne
    exact hne hleft

/-- What is read is what the grammar says, however the reply comes in. -/
theorem reply_grammar_exact :
    (∀ reply body rest, readResponse cursor reply = .ok body rest ↔
      ∃ head length, IsHead head length ∧ reply = head ++ body ++ rest ∧ IsBody length body rest) ∧
    (∀ head n body, IsHead head (some n) → body.length = n →
      (∀ extra, readResponse cursor (head ++ body ++ extra) = .ok body extra) ∧
        ∀ part, part <+: head ++ body → part ≠ head ++ body →
          ∃ error rest, readResponse cursor part = .error (.io error) rest) ∧
    ∀ (σ : Type) (reader : BufRead IoError σ) (content : σ → Bytes), reader.Delivers content →
      Simulates content (readResponse reader) (readResponse cursor) := by
  refine ⟨fun reply body rest => readResponse_eq_ok, fun head n body hhead hbody => ⟨?_, ?_⟩, ?_⟩
  · exact fun extra => readResponse_eq_ok.2 ⟨head, some n, hhead, rfl, hbody⟩
  · exact fun part hpart hne => strict_prefix_refused hhead hbody hpart hne
  · exact fun σ reader content h => readResponse_simulates h.simulates

end XusMiner.Rpc
