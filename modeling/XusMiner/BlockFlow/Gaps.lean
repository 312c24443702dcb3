import XusMiner.BlockFlow.TipWatch

namespace XusMiner.BlockFlow

/-- The heights of `first..=last`. -/
def inclusive (first last : Nat) : List Nat := List.range' first (last + 1 - first)

theorem length_inclusive (first last : Nat) : (inclusive first last).length = last + 1 - first :=
  List.length_range'

theorem inclusive_append {first middle last : Nat} (hfirst : first ≤ middle + 1)
    (hlast : middle ≤ last) :
    inclusive first middle ++ inclusive (middle + 1) last = inclusive first last := by
  have hstart : first + (middle + 1 - first) = middle + 1 := by omega
  have hlength : last + 1 - first = middle + 1 - first + (last + 1 - (middle + 1)) := by omega
  rw [inclusive, inclusive, inclusive, hlength, ← List.range'_append_1, hstart]

/-- What an advance accounts for: the heights it only counts, then those it reports. -/
def TipAdvance.covered : TipAdvance → List Nat
  | .blocks report _ omittedFrom omittedTo => inclusive omittedFrom omittedTo ++ report
  | _ => []

/-- Addition and subtraction of `u64`: `none` where the result does not fit. -/
def addU64 (a b : Nat) : Option Nat := if a + b < 2 ^ 64 then some (a + b) else none

def subU64 (a b : Nat) : Option Nat := if b ≤ a then some (a - b) else none

namespace TipWatch

/-- The operations on the watch; the tips and heights of the node are 64 bits wide. -/
inductive Call
  | beginSession
  | observeTip (tip : UInt64)
  | recordReported (height : UInt64) (hash : Option String)
  | observeFetched (height : UInt64) (hash : Option String)

def call (watch : TipWatch) : Call → TipWatch
  | .beginSession => watch.beginSession
  | .observeTip tip => (watch.observeTip tip.toNat).2
  | .recordReported height hash => (watch.recordReported height.toNat hash).2
  | .observeFetched height hash => (watch.observeFetched height.toNat hash).2

def run (watch : TipWatch) (calls : List Call) : TipWatch := calls.foldl call watch

/-- A call that neither observes a tip nor begins a session. -/
def Call.Records : Call → Prop
  | .recordReported _ _ => True
  | .observeFetched _ _ => True
  | _ => False

def Call.tip? : Call → Option Nat
  | .observeTip tip => some tip.toNat
  | _ => none

/-- The observed tips, in order. -/
def tips (calls : List Call) : List Nat := calls.filterMap Call.tip?

/-- The heights that the advances of a run account for, in the order of the feed. -/
def covered (watch : TipWatch) : List Call → List Nat
  | [] => []
  | .observeTip tip :: calls =>
    (watch.observeTip tip.toNat).1.covered ++ covered (watch.call (.observeTip tip)) calls
  | c :: calls => covered (watch.call c) calls

/-- `observeTip` as the machine computes it: `none` as soon as a step of its arithmetic leaves
the 64 bits. The subtraction that saturates in the code counts as one that has to fit. -/
def observeTipChecked (watch : TipWatch) (tip : Nat) : Option (TipAdvance × TipWatch) :=
  match watch.lastTip with
  | none => some (.baseline tip, watch.rebaseline tip)
  | some last =>
    if watch.needsBaseline then some (.baseline tip, watch.rebaseline tip)
    else if tip ≤ last then some (.unchanged, { watch with lastTip := some (min tip last) })
    else do
      let gap ← subU64 tip last
      let reported := min gap maxGapBlocks
      let omitted ← subU64 gap reported
      let beforeFirst ← subU64 tip reported
      let firstReported ← addU64 beforeFirst 1
      let omittedFrom ← addU64 last 1
      let omittedTo ← subU64 firstReported 1
      some (.blocks (inclusive firstReported tip) omitted omittedFrom omittedTo,
        { watch with lastTip := some tip })

/-- The watch has observed this tip in the session that is going on. -/
def Settled (watch : TipWatch) (last : Nat) : Prop :=
  watch.lastTip = some last ∧ watch.needsBaseline = false

theorem run_append (watch : TipWatch) (calls calls' : List Call) :
    watch.run (calls ++ calls') = (watch.run calls).run calls' :=
  List.foldl_append

theorem call_records {c : Call} (h : c.Records) (watch : TipWatch) :
    (watch.call c).lastTip = watch.lastTip ∧
      (watch.call c).needsBaseline = watch.needsBaseline := by
  cases c with
  | beginSession => cases h
  | observeTip tip => cases h
  | recordReported height hash => exact record_frame _ _ _ _
  | observeFetched height hash => exact record_frame _ _ _ _

/-- What is recorded in between does not move the tip. -/
theorem run_records {calls : List Call} (h : ∀ c ∈ calls, c.Records) (watch : TipWatch) :
    (watch.run calls).lastTip = watch.lastTip ∧
      (watch.run calls).needsBaseline = watch.needsBaseline := by
  induction calls generalizing watch with
  | nil => exact ⟨rfl, rfl⟩
  | cons c calls ih =>
    obtain ⟨hc, hcalls⟩ := List.forall_mem_cons.mp h
    obtain ⟨htip, hbaseline⟩ := ih hcalls (watch.call c)
    obtain ⟨htip', hbaseline'⟩ := call_records hc watch
    exact ⟨htip.trans htip', hbaseline.trans hbaseline'⟩

theorem observeTip_of_needsBaseline {watch : TipWatch} (h : watch.needsBaseline = true)
    (tip : Nat) : (watch.observeTip tip).1 = .baseline tip := by
  unfold observeTip
  split
  · rfl
  · rw [if_pos h]

theorem Settled.observeTip_of_le {watch : TipWatch} {last tip : Nat} (h : watch.Settled last)
    (hle : tip ≤ last) : (watch.observeTip tip).1 = .unchanged := by
  unfold observeTip
  rw [h.1]
  simp [h.2, hle]

/-- The arithmetic of an advance: with the capped report, the omitted heights are those that
lie between. -/
theorem Settled.observeTip_of_lt {watch : TipWatch} {last tip : Nat} (h : watch.Settled last)
    (hlt : last < tip) : ∃ firstReported,
    last < firstReported ∧ firstReported ≤ tip ∧ tip < firstReported + maxGapBlocks ∧
      (watch.observeTip tip).1 = .blocks (inclusive firstReported tip) (firstReported - 1 - last)
        (last + 1) (firstReported - 1) := by
  refine ⟨tip - min (tip - last) maxGapBlocks + 1, ?_, ?_, ?_, ?_⟩
  · omega
  · simp only [maxGapBlocks]
    omega
  · simp only [maxGapBlocks]
    omega
  · have hreport : tip + 1 - (tip - min (tip - last) maxGapBlocks + 1) =
        min (tip - last) maxGapBlocks := by omega
    have homitted : tip - last - min (tip - last) maxGapBlocks =
        tip - min (tip - last) maxGapBlocks + 1 - 1 - last := by omega
    unfold observeTip
    rw [h.1]
    dsimp only
    rw [if_neg (by simp [h.2]), if_neg (not_le.mpr hlt), inclusive, hreport, homitted]

/-- An advance accounts for exactly the heights above the last tip. -/
theorem Settled.covered_observeTip {watch : TipWatch} {last tip : Nat} (h : watch.Settled last)
    (hle : last ≤ tip) : (watch.observeTip tip).1.covered = inclusive (last + 1) tip := by
  rcases hle.eq_or_lt with rfl | hlt
  · rw [h.observeTip_of_le le_rfl, inclusive, Nat.sub_self]
    rfl
  · obtain ⟨firstReported, hlast, hfirst, -, hobserve⟩ := h.observeTip_of_lt hlt
    have hsucc : firstReported = firstReported - 1 + 1 := by omega
    rw [hobserve, TipAdvance.covered]
    conv_lhs => arg 2; rw [hsucc]
    exact inclusive_append (by omega) (by omega)

/-- Nothing leaves the 64 bits: every difference is taken from the greater side, and no sum
exceeds the tip. -/
theorem observeTipChecked_eq {watch : TipWatch} {tip : Nat}
    (hlast : ∀ last ∈ watch.lastTip, last < 2 ^ 64) (htip : tip < 2 ^ 64) :
    watch.observeTipChecked tip = some (watch.observeTip tip) := by
  unfold observeTipChecked observeTip
  cases htipLast : watch.lastTip with
  | none => rfl
  | some last =>
    dsimp only
    split_ifs with hbaseline hle
    · rfl
    · rfl
    · have hlast' := hlast last htipLast
      have hgap : last ≤ tip := by omega
      have hreported : min (tip - last) maxGapBlocks ≤ tip - last := min_le_left _ _
      have hpos : 0 < min (tip - last) maxGapBlocks := by
        simp only [maxGapBlocks]
        omega
      generalize hmin : min (tip - last) maxGapBlocks = reported at hreported hpos
      have hreport : inclusive (tip - reported + 1) tip =
          List.range' (tip - reported + 1) reported := by
        unfold inclusive
        congr 1
        omega
      simp only [subU64, addU64, if_pos hgap, Option.bind_eq_bind, Option.bind_some, hmin,
        if_pos hreported]
      rw [if_pos (by omega), Option.bind_some, if_pos (by omega), Option.bind_some,
        if_pos (by omega), Option.bind_some, if_pos (by omega), Option.bind_some, hreport]

theorem lastTip_lt_of_call {watch : TipWatch} (h : ∀ last ∈ watch.lastTip, last < 2 ^ 64)
    (c : Call) : ∀ last ∈ (watch.call c).lastTip, last < 2 ^ 64 := by
  by_cases hc : c.Records
  · rw [(call_records hc watch).1]
    exact h
  · cases c with
    | beginSession => exact h
    | observeTip tip =>
      intro last hlast
      rw [call, (observeTip_settles watch tip.toNat).1] at hlast
      cases hlast
      exact tip.toNat_lt
    | recordReported height hash => exact absurd trivial hc
    | observeFetched height hash => exact absurd trivial hc

theorem lastTip_lt (calls : List Call) :
    ∀ last ∈ (({} : TipWatch).run calls).lastTip, last < 2 ^ 64 := by
  have hrun (watch : TipWatch) (h : ∀ last ∈ watch.lastTip, last < 2 ^ 64) :
      ∀ last ∈ (watch.run calls).lastTip, last < 2 ^ 64 := by
    induction calls generalizing watch with
    | nil => exact h
    | cons c calls ih => exact ih _ (lastTip_lt_of_call h c)
  exact hrun {} (by simp)

/-- After an observation and what is recorded besides, the watch is at the observed tip. -/
theorem settled_run (watch : TipWatch) (last : UInt64) {records : List Call}
    (h : ∀ c ∈ records, c.Records) :
    (watch.run (.observeTip last :: records)).Settled last.toNat := by
  obtain ⟨htip, hbaseline⟩ := run_records h (watch.call (.observeTip last))
  obtain ⟨hlast, hsettled⟩ := observeTip_settles watch last.toNat
  exact ⟨htip.trans hlast, hbaseline.trans hsettled⟩

theorem le_getLastD {first : Nat} {heights : List Nat}
    (h : (first :: heights).Pairwise (· ≤ ·)) : first ≤ heights.getLastD first := by
  cases heights with
  | nil => exact le_rfl
  | cons height heights =>
    rw [List.getLastD_cons]
    exact (List.pairwise_cons.mp h).1 _ List.getLastD_mem_cons

/-- Induction on the calls: each advance goes on where the coverage so far ends. -/
theorem covered_eq {watch : TipWatch} {last : Nat} {calls : List Call} (h : watch.Settled last)
    (hsession : Call.beginSession ∉ calls) (hsorted : (last :: tips calls).Pairwise (· ≤ ·)) :
    watch.covered calls = inclusive (last + 1) ((tips calls).getLastD last) := by
  induction calls generalizing watch last with
  | nil =>
    show [] = inclusive (last + 1) last
    simp [inclusive]
  | cons c calls ih =>
    have hsession' : Call.beginSession ∉ calls := fun hmem =>
      hsession (List.mem_cons_of_mem _ hmem)
    cases c with
    | beginSession => exact absurd List.mem_cons_self hsession
    | observeTip tip =>
      have htips : tips (.observeTip tip :: calls) = tip.toNat :: tips calls := rfl
      rw [htips] at hsorted ⊢
      obtain ⟨hlast, hrest⟩ := List.pairwise_cons.mp hsorted
      have hle : last ≤ tip.toNat := hlast _ List.mem_cons_self
      have hsettled : (watch.call (.observeTip tip)).Settled tip.toNat :=
        settled_run watch tip (List.forall_mem_nil Call.Records)
      rw [covered, h.covered_observeTip hle, ih hsettled hsession' hrest, List.getLastD_cons]
      exact inclusive_append (by omega) (le_getLastD hrest)
    | recordReported height hash =>
      obtain ⟨htip, hbaseline⟩ := call_records (c := .recordReported height hash) trivial watch
      exact ih ⟨htip.trans h.1, hbaseline.trans h.2⟩ hsession' hsorted
    | observeFetched height hash =>
      obtain ⟨htip, hbaseline⟩ := call_records (c := .observeFetched height hash) trivial watch
      exact ih ⟨htip.trans h.1, hbaseline.trans h.2⟩ hsession' hsorted

end TipWatch

open TipWatch in
/-- The feed accounts for every height once. No arithmetic of the watch leaves the 64 bits; the
first observation of a session is its baseline; a later one above the last tip splits the heights
in between into those it counts and at most four that it reports; and while the tips do not fall,
the advances together account for each height above the first tip exactly once, in order. -/
theorem feed_accounts_for_every_height (calls : List Call) :
    (∀ tip : UInt64, (({} : TipWatch).run calls).observeTipChecked tip.toNat =
      some ((({} : TipWatch).run calls).observeTip tip.toNat)) ∧
    (∀ (records : List Call) (tip : UInt64), (∀ c ∈ records, c.Records) →
      ((({} : TipWatch).run (calls ++ .beginSession :: records)).observeTip tip.toNat).1 =
        .baseline tip.toNat) ∧
    (∀ (last tip : UInt64) (records : List Call), (∀ c ∈ records, c.Records) → last < tip →
      ∃ report omitted omittedFrom omittedTo,
        ((({} : TipWatch).run (calls ++ .observeTip last :: records)).observeTip tip.toNat).1 =
          .blocks report omitted omittedFrom omittedTo ∧
        inclusive omittedFrom omittedTo ++ report = inclusive (last.toNat + 1) tip.toNat ∧
        omitted = (inclusive omittedFrom omittedTo).length ∧
        report.length ≤ maxGapBlocks ∧ report.getLast? = some tip.toNat ∧
        addU64 omitted report.length = some (tip.toNat - last.toNat)) ∧
    ∀ (last : UInt64) (stretch : List Call), Call.beginSession ∉ stretch →
      (last.toNat :: tips stretch).Pairwise (· ≤ ·) →
      (({} : TipWatch).run (calls ++ [.observeTip last])).covered stretch =
        inclusive (last.toNat + 1) ((tips stretch).getLastD last.toNat) := by
  refine ⟨fun tip => observeTipChecked_eq (lastTip_lt calls) tip.toNat_lt, ?_, ?_, ?_⟩
  · intro records tip hrecords
    rw [run_append]
    apply observeTip_of_needsBaseline
    exact (run_records hrecords ((({} : TipWatch).run calls).call .beginSession)).2
  · intro last tip records hrecords hlt
    have hlt' : last.toNat < tip.toNat := UInt64.lt_iff_toNat_lt.mp hlt
    have hsettled := settled_run (({} : TipWatch).run calls) last hrecords
    rw [← run_append] at hsettled
    have hcovered := hsettled.covered_observeTip hlt'.le
    obtain ⟨firstReported, hlast, hfirst, hcap, hobserve⟩ := hsettled.observeTip_of_lt hlt'
    rw [hobserve] at hcovered
    refine ⟨_, _, _, _, hobserve, hcovered, ?_, ?_, ?_, ?_⟩
    · rw [length_inclusive]
      omega
    · rw [length_inclusive]
      omega
    · rw [inclusive, List.getLast?_range', if_neg (by omega)]
      congr 1
      omega
    · have htip := tip.toNat_lt
      have hsum : firstReported - 1 - last.toNat + (tip.toNat + 1 - firstReported) =
          tip.toNat - last.toNat := by omega
      rw [length_inclusive, addU64, hsum, if_pos (by omega)]
  · intro last stretch hsession hsorted
    rw [run_append]
    exact covered_eq (settled_run _ last (List.forall_mem_nil Call.Records)) hsession hsorted

end XusMiner.BlockFlow
