import XusMiner.Library.Occurrences

/-! Masking the occurrences of a list in another, and the occurrences this leaves. -/

namespace Occurrences
variable {α : Type*} {s mask front back raw u : List α}

section Mask
variable [DecidableEq α]

/-- The occurrences of `s` that do not overlap, found from the left, masked unless a word
character is next to them. `before` is what was read last, and the `skipped` next elements
belong to an occurrence that was dealt with. -/
def redact (word : α → Bool) (s mask : List α) : Option α → ℕ → List α → List α
  | _, _, [] => []
  | _, skipped + 1, c :: raw => redact word s mask (some c) skipped raw
  | before, 0, c :: raw =>
    if s <+: c :: raw then
      (if before.any word || ((c :: raw).drop s.length).head?.any word then s else mask) ++
        redact word s mask (some c) (s.length - 1) raw
    else c :: redact word s mask (some c) 0 raw

def replaceTokens (word : α → Bool) (s mask raw : List α) : List α := redact word s mask none 0 raw

/-- Without word characters every occurrence found is masked. -/
def replace (s mask raw : List α) : List α := replaceTokens (fun _ => false) s mask raw

/-- What `redact` turns a text into, occurrence by occurrence. -/
inductive Redacted (word : α → Bool) (s mask : List α) : Option α → List α → List α → Prop
  | rest {before : Option α} {raw : List α} : ¬s <:+: raw → Redacted word s mask before raw raw
  | next {before : Option α} {front back out : List α} : Leftmost s front →
      Redacted word s mask s.getLast? back out →
      Redacted word s mask before (front ++ (s ++ back)) (front ++
        ((if (front.getLast?.or before).any word || back.head?.any word then s else mask) ++ out))

variable {word : α → Bool} {before : Option α}

theorem redact_skip : redact word s mask before u.length (u ++ back) =
    redact word s mask (u.getLast?.or before) 0 back := by
  induction u generalizing before with
  | nil => rfl
  | cons c u ih =>
    rw [List.length_cons, List.cons_append, redact, ih]
    cases u with
    | nil => rfl
    | cons d u => simp [List.getLast?_cons]

theorem redact_of_not_occurs (h : ¬s <:+: raw) : redact word s mask before 0 raw = raw := by
  induction raw generalizing before with
  | nil => rfl
  | cons c raw ih =>
    rw [List.infix_cons_iff, not_or] at h
    rw [redact, if_neg h.1, ih h.2]

theorem redact_append (hs : s ≠ []) (h : Leftmost s front) :
    redact word s mask before 0 (front ++ (s ++ back)) = front ++
      ((if (front.getLast?.or before).any word || back.head?.any word then s else mask) ++
        redact word s mask s.getLast? 0 back) := by
  induction front generalizing before with
  | nil =>
    obtain ⟨c, s', rfl⟩ := List.exists_cons_of_ne_nil hs
    have hstarts : c :: s' <+: c :: (s' ++ back) := List.prefix_append _ _
    have hlast : s'.getLast?.or (some c) = (c :: s').getLast? := by
      rw [List.getLast?_cons]
      cases s'.getLast? <;> rfl
    rw [List.nil_append, List.cons_append, redact, if_pos hstarts, ← List.cons_append,
      List.drop_left, List.length_cons, Nat.add_sub_cancel, redact_skip, hlast]
    rfl
  | cons c front ih =>
    have hnot : ¬s <+: c :: front ++ (s ++ back) := h.not_starts (List.cons_ne_nil c front)
    have hlast : front.getLast?.or (some c) = (c :: front).getLast?.or before := by
      rw [List.getLast?_cons]
      cases front.getLast? <;> rfl
    rw [List.cons_append] at hnot ⊢
    rw [redact, if_neg hnot, ih (h.of_suffix (List.suffix_cons c front)), hlast]
    rfl

theorem redacted_redact (hs : s ≠ []) :
    Redacted word s mask before raw (redact word s mask before 0 raw) := by
  induction hn : raw.length using Nat.strong_induction_on generalizing raw before with
  | _ n ih =>
    cases hsplit : splitFirst s raw with
    | none =>
      have hnot := (splitFirst_eq_none hs).1 hsplit
      rw [redact_of_not_occurs hnot]
      exact .rest hnot
    | some parts =>
      obtain ⟨front, back⟩ := parts
      obtain ⟨rfl, hleft⟩ := (splitFirst_eq_some hs).1 hsplit
      rw [redact_append hs hleft]
      refine .next hleft (ih back.length ?_ rfl)
      have hpos := List.length_pos_of_ne_nil hs
      rw [← hn, List.length_append, List.length_append]
      omega

/-! ## Occurrences that masking brings about -/

/-- How `s` can come about at a mask: from the mask alone, from its end and what follows, from
what precedes and its beginning, or from both sides. -/
inductive Reforms (s mask : List α) : Prop
  | inside : s <:+: mask → Reforms s mask
  | after {x y : List α} : s = x ++ y → x ≠ [] → x <:+ mask → Reforms s mask
  | before {u x : List α} : s = u ++ x → x ≠ [] → x <+: mask → Leftmost s u → Reforms s mask
  | around {u v : List α} : s = u ++ (mask ++ v) → v.length < s.length → Leftmost s u →
      Reforms s mask

omit [DecidableEq α] in
/-- A mask made of other characters cannot take part. -/
theorem not_reforms_of_disjoint (hs : s ≠ []) (hmask : mask ≠ []) (h : ∀ c ∈ s, c ∉ mask) :
    ¬Reforms s mask := by
  have hcommon : ∀ {x : List α}, x ≠ [] → x ⊆ s → ¬x ⊆ mask := by
    intro x hx hxs hxmask
    obtain ⟨c, x, rfl⟩ := List.exists_cons_of_ne_nil hx
    exact h c (hxs List.mem_cons_self) (hxmask List.mem_cons_self)
  intro hreforms
  cases hreforms with
  | inside hoccurs => exact hcommon hs (List.Subset.refl s) hoccurs.subset
  | after hxy hx hsuffix => exact hcommon hx (hxy ▸ List.subset_append_left _ _) hsuffix.subset
  | before hux hx hstarts _ => exact hcommon hx (hux ▸ List.subset_append_right _ _) hstarts.subset
  | @around u v huv _ _ =>
    refine hcommon hmask ?_ (List.Subset.refl mask)
    rw [huv]
    exact List.Subset.trans (List.subset_append_left mask v) (List.subset_append_right u _)

theorem replace_append (hs : s ≠ []) (h : Leftmost s front) (hback : ¬s <:+: back) :
    replace s mask (front ++ (s ++ back)) = front ++ (mask ++ back) := by
  rw [replace, replaceTokens, redact_append hs h, redact_of_not_occurs hback]
  simp

omit [DecidableEq α] in
theorem not_infix_of_redacted {out : List α} (hreforms : ¬Reforms s mask)
    (h : Redacted (fun _ => false) s mask before raw out) : ¬s <:+: out := by
  induction h with
  | rest hnot => exact hnot
  | @next before front back out hleft hback ih =>
    simp only [Option.any_false, Bool.or_false, Bool.false_eq_true, if_false]
    intro hoccurs
    rcases List.infix_append_iff.1 hoccurs with hfront | hrest | ⟨u, x, hs, hu, hx⟩
    · exact hleft.not_occurs hfront
    · rcases List.infix_append_iff.1 hrest with hmask | hout | ⟨x, y, hs, hx, hy⟩
      · exact hreforms (.inside hmask)
      · exact ih hout
      · by_cases hnil : x = []
        · rw [hnil, List.nil_append] at hs
          rw [← hs] at hy
          exact ih hy.isInfix
        · exact hreforms (.after hs hnil hx)
    · have hleft' : Leftmost s u := hleft.of_suffix hu
      rcases List.prefix_or_prefix_of_prefix hx (List.prefix_append mask out) with hx' | hmask
      · by_cases hnil : x = []
        · rw [hnil, List.append_nil] at hs
          rw [← hs] at hu
          exact hleft.not_occurs hu.isInfix
        · exact hreforms (.before hs hnil hx' hleft')
      · obtain ⟨v, rfl⟩ := hmask
        by_cases hlength : v.length < s.length
        · exact hreforms (.around hs hlength hleft')
        -- nothing of it stands in front of what follows the mask
        · have hv : v <:+ s := by
            rw [hs, ← List.append_assoc]
            exact List.suffix_append _ _
          have hvs : v = s := hv.eq_of_length_le (not_lt.1 hlength)
          rw [List.prefix_append_right_inj, hvs] at hx
          exact ih hx.isInfix

/-- Replacing removes `s` from every text exactly if it cannot come about anew. -/
theorem replace_removes_iff (hs : s ≠ []) :
    (∀ raw, ¬s <:+: replace s mask raw) ↔ ¬Reforms s mask := by
  constructor
  · intro h hreforms
    have hshort : ∀ {y : List α}, y.length < s.length → ¬s <:+: y := fun hy hoccurs =>
      absurd hoccurs.length_le (not_le.2 hy)
    have hempty : ¬s <:+: [] := hshort (List.length_pos_of_ne_nil hs)
    cases hreforms with
    | inside hmask =>
      apply h ([] ++ (s ++ []))
      rw [replace_append hs (leftmost_nil hs) hempty]
      simpa using hmask
    | @after x y hxy hx hsuffix =>
      have hy : ¬s <:+: y := by
        apply hshort
        rw [hxy, List.length_append]
        exact Nat.lt_add_of_pos_left (List.length_pos_of_ne_nil hx)
      apply h ([] ++ (s ++ y))
      rw [replace_append hs (leftmost_nil hs) hy, List.nil_append]
      obtain ⟨w, hw⟩ := hsuffix
      exact ⟨w, [], by rw [hxy, ← hw]; simp⟩
    | @before u x hux hx hstarts hleft =>
      apply h (u ++ (s ++ []))
      rw [replace_append hs hleft hempty, List.append_nil]
      obtain ⟨w, hw⟩ := hstarts
      exact ⟨[], w, by rw [hux, ← hw]; simp⟩
    | @around u v huv hv hleft =>
      apply h (u ++ (s ++ v))
      rw [replace_append hs hleft (hshort hv), ← huv]
  · exact fun hreforms raw => not_infix_of_redacted hreforms (redacted_redact hs)

end Mask

/-! ## Occurrences that stand alone -/

/-- An occurrence with no word character next to it; `prev` stands in front of the text. -/
def Token (word : α → Bool) (s : List α) (prev : Option α) (out : List α) : Prop :=
  ∃ a b, out = a ++ (s ++ b) ∧ (a.getLast?.or prev).any word = false ∧ b.head?.any word = false

variable {word : α → Bool} {before prev : Option α} {out e : List α}

theorem Token.isInfix (h : Token word s prev out) : s <:+: out := by
  obtain ⟨a, b, rfl, -⟩ := h
  exact ⟨a, b, List.append_assoc _ _ _⟩

/-- It begins in the second part of a text, or inside the first. -/
theorem Token.append_cases (h : Token word s prev (e ++ out)) :
    Token word s (e.getLast?.or prev) out ∨
      ∃ w x b, x ≠ [] ∧ e = w ++ x ∧ s ++ b = x ++ out ∧
        (w.getLast?.or prev).any word = false ∧ b.head?.any word = false := by
  obtain ⟨a, b, hout, ha, hb⟩ := h
  rcases List.append_eq_append_iff.1 hout with ⟨a', rfl, hout'⟩ | ⟨x, rfl, hsb⟩
  · refine .inl ⟨a', b, hout', ?_, hb⟩
    rw [List.getLast?_append, Option.or_assoc] at ha
    exact ha
  · by_cases hx : x = []
    · subst hx
      refine .inl ⟨[], b, hsb.symm, ?_, hb⟩
      rw [List.append_nil]
      exact ha
    · exact .inr ⟨a, x, b, hx, rfl, hsb, ha, hb⟩

/-- An occurrence that begins in a part without one goes beyond it. -/
theorem overhang {x b rest : List α} (h : ¬s <:+: e) (hx : x <:+ e) (hs : s ++ b = x ++ rest) :
    ∃ t, t ≠ [] ∧ s = x ++ t ∧ t ++ b = rest := by
  have hlonger : ∀ a, x = s ++ a → False := by
    rintro a rfl
    exact h ((List.prefix_append s a).isInfix.trans hx.isInfix)
  rcases List.append_eq_append_iff.1 hs with ⟨a, hxa, -⟩ | ⟨t, hst, hrest⟩
  · exact (hlonger a hxa).elim
  · refine ⟨t, ?_, hst, hrest.symm⟩
    rintro rfl
    exact hlonger [] (by rw [hst, List.append_nil, List.append_nil])

/-- Where an occurrence that stands alone can begin once the first one was dealt with. -/
theorem Token.next_cases {kept : Bool} (hleft : Leftmost s front) (hmask : ¬s <:+: mask)
    (h : Token word s prev (front ++ ((if kept then s else mask) ++ out))) :
    Token word s ((if kept then s else mask).getLast?.or (front.getLast?.or prev)) out ∨
      (kept = true ∧ ∃ w x b, x ≠ [] ∧ s = w ++ x ∧ s ++ b = x ++ out ∧
        (w.getLast?.or (front.getLast?.or prev)).any word = false ∧ b.head?.any word = false) ∨
      (kept = false ∧ ∃ w x t, x ≠ [] ∧ mask = w ++ x ∧ s = x ++ t ∧
        (w.getLast?.or (front.getLast?.or prev)).any word = false) ∨
      (kept = false ∧ ∃ w x t b, x ≠ [] ∧ t ≠ [] ∧ front = w ++ x ∧ s = x ++ t ∧
        t ++ b = mask ++ out ∧ b.head?.any word = false) := by
  rcases h.append_cases with hlater | ⟨w, x, b, hx, hfront, hsb, -, hb⟩
  · rcases hlater.append_cases with hout | ⟨w, x, b, hx, he, hsb, hw, hb⟩
    · exact .inl hout
    · cases kept with
      | true => exact .inr (.inl ⟨rfl, w, x, b, hx, he, hsb, hw, hb⟩)
      | false =>
        have hsuffix : x <:+ mask := ⟨w, he.symm⟩
        obtain ⟨t, -, hst, -⟩ := overhang hmask hsuffix hsb
        exact .inr (.inr (.inl ⟨rfl, w, x, t, hx, he, hst, hw⟩))
  · have hsuffix : x <:+ front := ⟨w, hfront.symm⟩
    cases kept with
    | true =>
      have hstarts : s <+: x ++ (s ++ out) := ⟨b, hsb⟩
      exact absurd hstarts ((hleft.of_suffix hsuffix).not_starts hx)
    | false =>
      obtain ⟨t, ht, hst, htb⟩ := overhang hleft.not_occurs hsuffix hsb
      exact .inr (.inr (.inr ⟨rfl, w, x, t, b, hx, ht, hfront, hst, htb, hb⟩))

theorem any_getLast? {f : α → Bool} (hf : ∀ c ∈ s, f c = true) (hs : s ≠ []) (prev : Option α) :
    (s.getLast?.or prev).any f = true := by
  rw [List.getLast?_eq_getLast_of_ne_nil hs]
  exact hf _ (List.getLast_mem hs)

/-- A word character in front of the rest of a text is still in front of what becomes of it. -/
theorem Redacted.head_word (h : Redacted word s mask before raw out) (hs : s ≠ [])
    (hkeep : s.head?.any word = true → before.any word = true) (hraw : raw.head?.any word = true) :
    out.head?.any word = true := by
  cases h with
  | rest => exact hraw
  | @next _ front back out hleft hback =>
    cases front with
    | cons c front => exact hraw
    | nil =>
      obtain ⟨c, s', rfl⟩ := List.exists_cons_of_ne_nil hs
      have hbefore := hkeep hraw
      simpa [hbefore] using hraw

/-- An occurrence that was kept has its word character behind it or further ahead. -/
theorem kept_cases (hkept : ((front.getLast?.or before).any word || back.head?.any word) = true)
    (hw : (front.getLast?.or prev).any word = false) :
    front = [] ∧ before.any word = true ∨ back.head?.any word = true := by
  rcases Bool.or_eq_true_iff.1 hkept with hfirst | hnext
  · cases hfront : front.getLast? with
    | some c =>
      rw [hfront] at hfirst hw
      exact nomatch hfirst.symm.trans hw
    | none =>
      rw [hfront, Option.none_or] at hfirst
      exact .inl ⟨List.getLast?_eq_none_iff.1 hfront, hfirst⟩
  · exact .inr hnext

/-- Of a secret made of word characters no occurrence is left standing alone. -/
theorem Redacted.no_token_of_word (h : Redacted word s mask before raw out) (hs : s ≠ [])
    (hword : ∀ c ∈ s, word c = true) (hmask : ¬s <:+: mask)
    (hlast : mask.getLast?.any word = false) :
    ∀ prev, (before.any word = true → prev.any word = true ∨ raw.head?.any word = false) →
      ¬Token word s prev out := by
  have hslast : ∀ prev, (s.getLast?.or prev).any word = true := any_getLast? hword hs
  have hshead : ∀ back, (s ++ back).head?.any word = true := by
    obtain ⟨c, s', rfl⟩ := List.exists_cons_of_ne_nil hs
    exact fun _ => hword c List.mem_cons_self
  have hpart : ∀ {x t : List α}, s = x ++ t → x ≠ [] → x.getLast?.any word = true := by
    intro x t hst hx
    rw [← Option.or_none (o := x.getLast?)]
    exact any_getLast? (fun c hc => hword c (hst ▸ List.mem_append_left t hc)) hx none
  induction h with
  | rest hnot => exact fun _ _ htoken => hnot htoken.isInfix
  | @next before front back out hleft hback ih =>
    intro prev hprev htoken
    -- further on, in the occurrence that was kept, in the mask, or across the front of the mask
    rcases htoken.next_cases hleft hmask with hout | ⟨hkept, w, x, b, hx, hwx, hsb, hw, hb⟩ |
      ⟨-, w, x, t, hx, hwx, hst, -⟩ | ⟨hkept, w, x, t, -, hx, -, hwx, hst, -⟩
    · refine ih _ (fun _ => ?_) hout
      split_ifs with hkept
      · exact .inl (hslast _)
      · exact .inr (Bool.or_eq_false_iff.1 (Bool.not_eq_true _ ▸ hkept)).2
    · by_cases hnil : w = []
      · subst hnil
        rw [List.nil_append] at hwx
        rw [← hwx, List.append_cancel_left_eq] at hsb
        rw [List.getLast?_nil, Option.none_or] at hw
        subst hsb
        rcases kept_cases hkept hw with ⟨rfl, hfirst⟩ | hnext
        · rcases hprev hfirst with hp | hp
          · exact nomatch hp.symm.trans hw
          · exact nomatch (hshead back).symm.trans hp
        · have hhead := hback.head_word hs (fun _ => by simpa using hslast none) hnext
          exact nomatch hhead.symm.trans hb
      · have hwlast := any_getLast? (fun c hc => hword c (hwx ▸ List.mem_append_left x hc)) hnil
          (front.getLast?.or prev)
        exact nomatch hwlast.symm.trans hw
    · rw [hwx, List.getLast?_append_of_ne_nil _ hx, hpart hst hx] at hlast
      cases hlast
    · rw [Bool.or_eq_false_iff, hwx, List.getLast?_append_of_ne_nil _ hx] at hkept
      have hxlast := hpart hst hx
      rw [List.getLast?_eq_getLast_of_ne_nil hx] at hkept hxlast
      exact nomatch hxlast.symm.trans hkept.1

/-- A word character comes right after the first element of the mask and right before its
last one. -/
structure Walled (word : α → Bool) (mask : List α) : Prop where
  front : ∃ m w rest, mask = m :: w :: rest ∧ word w = true
  back : ∃ rest w m, mask = rest ++ [w, m] ∧ word w = true

/-- What begins inside the mask without a word character has one in front of it. -/
theorem Walled.starts_inside (h : Walled word mask) {w x : List α} (hmask : mask = w ++ x)
    (hx : x ≠ []) (hmark : ∀ c ∈ x, word c = false) : (w.getLast?.or prev).any word = true := by
  obtain ⟨rest, c, m, hrest, hc⟩ := h.back
  have hnotin : c ∉ x := fun hcx => nomatch hc.symm.trans (hmark c hcx)
  rw [hrest] at hmask
  rcases List.append_eq_append_iff.1 hmask with ⟨a, hwa, hax⟩ | ⟨a, -, hxa⟩
  · cases a with
    | nil =>
      rw [List.nil_append] at hax
      exact absurd (hax ▸ List.mem_cons_self) hnotin
    | cons d a =>
      cases a with
      | nil =>
        obtain ⟨rfl, -⟩ := List.cons.inj hax
        rw [hwa, List.getLast?_concat]
        exact hc
      | cons d' a => simp [hx] at hax
  · exact absurd (hxa ▸ List.mem_append_right a List.mem_cons_self) hnotin

/-- What ends inside the mask without a word character has one behind it. -/
theorem Walled.ends_inside (h : Walled word mask) {t b : List α} (htb : t ++ b = mask ++ out)
    (ht : t ≠ []) (hmark : ∀ c ∈ t, word c = false) : b.head?.any word = true := by
  obtain ⟨m, c, rest, rfl, hc⟩ := h.front
  obtain ⟨m', t, rfl⟩ := List.exists_cons_of_ne_nil ht
  have htail := (List.cons.inj htb).2
  cases t with
  | nil =>
    change b = c :: (rest ++ out) at htail
    rw [htail]
    exact hc
  | cons d t =>
    obtain ⟨rfl, -⟩ := List.cons.inj htail
    exact nomatch hc.symm.trans (hmark d (by simp))

/-- Nor is one of a secret without word characters whose occurrences cannot overlap: masks join
only single characters to what stands around them. -/
theorem Redacted.no_token_of_mark (h : Redacted word s mask before raw out) (hs : s ≠ [])
    (hmark : ∀ c ∈ s, word c = false) (hborder : ∀ x y, s = x ++ y → x ≠ [] → y ≠ [] → ¬y <+: s)
    (hmask : ¬s <:+: mask) (hwall : Walled word mask ∨ mask = [] ∧ s.length = 1) :
    ∀ prev, before.any word = false → ¬Token word s prev out := by
  have hslast : ∀ c, s.getLast? = some c → word c = false := fun c hc =>
    hmark c (List.mem_of_getLast? hc)
  have hshead : s.head?.any word = false := by
    obtain ⟨c, s', rfl⟩ := List.exists_cons_of_ne_nil hs
    exact hmark c List.mem_cons_self
  have hlast : s.getLast?.any word = false := by
    cases hc : s.getLast? with
    | none => rfl
    | some c => exact hslast c hc
  induction h with
  | rest hnot => exact fun _ _ htoken => hnot htoken.isInfix
  | @next before front back out hleft hback ih =>
    intro prev hbefore htoken
    -- further on, in the occurrence that was kept, in the mask, or across the front of the mask
    rcases htoken.next_cases hleft hmask with hout | ⟨hkept, w, x, b, hx, hwx, hsb, hw, hb⟩ |
      ⟨-, w, x, t, hx, hwx, hst, hw⟩ | ⟨-, w, x, t, b, hx, ht, -, hst, htb, hb⟩
    · exact ih _ hlast hout
    · by_cases hnil : w = []
      · subst hnil
        rw [List.nil_append] at hwx
        rw [← hwx, List.append_cancel_left_eq] at hsb
        rw [List.getLast?_nil, Option.none_or] at hw
        subst hsb
        rcases kept_cases hkept hw with ⟨-, hfirst⟩ | hnext
        · exact nomatch hfirst.symm.trans hbefore
        · have hhead := hback.head_word hs (fun h => nomatch h.symm.trans hshead) hnext
          exact nomatch hhead.symm.trans hb
      -- it would overlap the occurrence it begins in
      · have hlength : x.length ≤ s.length := by
          rw [hwx, List.length_append]
          omega
        exact hborder w x hwx hnil hx
          (List.prefix_of_prefix_length_le ⟨out, hsb.symm⟩ (List.prefix_append s b) hlength)
    · rcases hwall with hwall | ⟨rfl, -⟩
      · have hfront : (w.getLast?.or (front.getLast?.or prev)).any word = true :=
          hwall.starts_inside hwx hx fun c hc => hmark c (hst ▸ List.mem_append_left t hc)
        exact nomatch hfront.symm.trans hw
      · simp [hx] at hwx
    · rcases hwall with hwall | ⟨rfl, hlength⟩
      · have hback := hwall.ends_inside htb ht fun c hc =>
          hmark c (hst ▸ List.mem_append_right x hc)
        exact nomatch hback.symm.trans hb
      · have hxlength := List.length_pos_of_ne_nil hx
        have htlength := List.length_pos_of_ne_nil ht
        rw [hst, List.length_append] at hlength
        omega

section Pairs
variable [DecidableEq α] {p q c : α}

/-- A single character is never left standing alone. -/
theorem no_token_of_single (hmask : c ∉ mask) (hlast : mask.getLast?.any word = false)
    (hwall : Walled word mask ∨ mask = []) (raw : List α) :
    ¬Token word [c] none (replaceTokens word [c] mask raw) := by
  have hs : [c] ≠ [] := List.cons_ne_nil c []
  have hmask' : ¬[c] <:+: mask := fun h => hmask (h.subset List.mem_cons_self)
  have hredacted : Redacted word [c] mask none raw _ := redacted_redact hs
  cases hc : word c with
  | true => exact hredacted.no_token_of_word hs (by simpa using hc) hmask' hlast none nofun
  | false =>
    refine hredacted.no_token_of_mark hs (by simpa using hc) ?_ hmask' (hwall.imp_right (⟨·, rfl⟩))
      none rfl
    intro x y hxy hx hy
    have hlength := congrArg List.length hxy
    have hxlength := List.length_pos_of_ne_nil hx
    have hylength := List.length_pos_of_ne_nil hy
    rw [List.length_append, List.length_singleton] at hlength
    omega

/-- Nor is a pair that is all word, or two different marks. -/
theorem no_token_of_pair (hpq : word p = word q) (hsame : p = q → word p = true)
    (hmask : ¬[p, q] <:+: mask) (hlast : mask.getLast?.any word = false)
    (hwall : Walled word mask ∨ word p = true) (raw : List α) :
    ¬Token word [p, q] none (replaceTokens word [p, q] mask raw) := by
  have hs : [p, q] ≠ [] := List.cons_ne_nil p [q]
  have hredacted : Redacted word [p, q] mask none raw _ := redacted_redact hs
  cases hp : word p with
  | true => exact hredacted.no_token_of_word hs (by simp [hp, ← hpq]) hmask hlast none nofun
  | false =>
    rw [hp, or_iff_left (by simp)] at hwall
    refine hredacted.no_token_of_mark hs (by simp [hp, ← hpq]) ?_ hmask (.inl hwall) none rfl
    intro x y hxy hx hy
    obtain ⟨a, x, rfl⟩ := List.exists_cons_of_ne_nil hx
    cases x with
    | nil =>
      obtain ⟨rfl, rfl⟩ := List.cons.inj hxy
      intro hstarts
      rw [List.cons_prefix_cons] at hstarts
      exact nomatch hp.symm.trans (hsame hstarts.1.symm)
    | cons b x => simp [hy] at hxy

/-- Where one of a pair is a word character, an occurrence shields the one it touches. -/
theorem token_of_mixed (hpq : word p ≠ word q) (hhead : mask.head?.any word = false)
    (hlast : mask.getLast?.any word = false) :
    Token word [p, q] none (replaceTokens word [p, q] mask [p, q, p, q]) := by
  have hrun : replaceTokens word [p, q] mask [p, q, p, q] =
      (if word p then [p, q] else mask) ++ (if word q then [p, q] else mask) := by
    simp [replaceTokens, redact]
  rw [hrun]
  cases hp : word p with
  | true =>
    have hq : word q = false := by simpa [hp] using hpq
    exact ⟨[], mask, by simp [hq], rfl, hhead⟩
  | false =>
    have hq : word q = true := by simpa [hp] using hpq
    exact ⟨mask, [], by simp [hq], by simpa using hlast, rfl⟩

/-- Of three equal marks after a word character the first two shield the last. -/
theorem token_of_same (hp : word p = false) (hc : word c = true) :
    Token word [p, p] none (replaceTokens word [p, p] mask [c, p, p, p]) := by
  have hne : p ≠ c := by
    rintro rfl
    exact nomatch hc.symm.trans hp
  have hrun : replaceTokens word [p, p] mask [c, p, p, p] = [c, p, p, p] := by
    simp [replaceTokens, redact, hne, hc]
  rw [hrun]
  exact ⟨[c, p], [], rfl, hp, rfl⟩

end Pairs

end Occurrences
