import YnabAgent.Policy.Resolve
import Mathlib.Algebra.Order.BigOperators.Group.List
import Mathlib.Algebra.Order.Group.Int
import Mathlib.Data.List.Forall2
import Mathlib.Tactic.Ring

/-!
# The shares of a resolved split

A percent line before the last is floored, and the last takes what is left, so it gains what the
others lose in rounding: less than a milliunit each (`resolveAllocation_shares`). The lines keep the
sign of the transaction exactly where the fixed lines leave something, and where on an outflow,
whose shares are rounded away from zero, the last line has that much to lose (`keeps_sign_iff`).
-/

namespace YnabAgent

/-! ## What a template asks for -/

/-- The direction of a transaction: a zero counts as an inflow. -/
def directionOf (total : Money) : Int :=
  if total.milliunits < 0 then -1 else 1

namespace ProposedSplit

variable (split : ProposedSplit)

def percents : List Nat :=
  split.lines.filterMap SplitLine.percent?

/-- The magnitudes of the fixed lines together. -/
def fixedMagnitude : Int :=
  fixedTotal 1 split.lines

/-- What the fixed lines leave of a transaction, in its sign. -/
def remainder (total : Money) : Int :=
  total.milliunits - fixedTotal (directionOf total) split.lines

end ProposedSplit

section lines
variable {direction remainder : Int} {lastPercent : Nat}

theorem filterMap_percent_fixed {line : SplitLine} {rest : List SplitLine} {a : Money}
    (h : line.share = .fixed a) :
    (line :: rest).filterMap SplitLine.percent? = rest.filterMap SplitLine.percent? := by
  rw [List.filterMap_cons_none]
  rw [SplitLine.percent?, h]

theorem filterMap_percent_percent {line : SplitLine} {rest : List SplitLine} {s : PercentShare}
    (h : line.share = .percent s) :
    (line :: rest).filterMap SplitLine.percent? =
      s.percent :: rest.filterMap SplitLine.percent? := by
  rw [List.filterMap_cons_some]
  rw [SplitLine.percent?, h]

theorem percentPositions_length (i : Nat) (lines : List SplitLine) :
    (percentPositions i lines).length = (lines.filterMap SplitLine.percent?).length := by
  induction lines generalizing i with
  | nil => rfl
  | cons line rest ih =>
    cases hs : line.share with
    | percent s =>
      rw [percentPositions_percent hs, filterMap_percent_percent hs]
      exact congrArg Nat.succ (ih (i + 1))
    | fixed a =>
      rw [percentPositions_fixed hs, filterMap_percent_fixed hs]
      exact ih (i + 1)

theorem filterMap_percent_eq_nil_iff {i : Nat} {lines : List SplitLine} :
    lines.filterMap SplitLine.percent? = [] ↔ percentPositions i lines = [] := by
  rw [← List.length_eq_zero_iff, ← percentPositions_length i, List.length_eq_zero_iff]

theorem fixedTotal_direction (direction : Int) (lines : List SplitLine) :
    fixedTotal direction lines = direction * fixedTotal 1 lines := by
  induction lines with
  | nil => exact (Int.mul_zero _).symm
  | cons line rest ih =>
    cases hs : line.share with
    | percent s => rw [fixedTotal_percent hs, fixedTotal_percent hs, ih]
    | fixed a =>
      rw [fixedTotal_fixed hs, fixedTotal_fixed hs, ih]
      ring

/-! ## Line by line -/

/-- A line resolves under its own category, memo and tag; a fixed line to its magnitude in the
direction, a percent line to within `count` milliunits of its share of the remainder. -/
structure ResolvesTo (direction remainder : Int) (count : Nat) (line : SplitLine)
    (resolved : ResolvedSplitLine) : Prop where
  category : resolved.category = line.category
  memo : resolved.memo = line.memoTemplate
  personTag : resolved.personTag = line.personTag
  fixed : ∀ amount, line.share = .fixed amount →
    resolved.amount.milliunits = direction * amount.milliunits.natAbs
  percent : ∀ share, line.share = .percent share →
    |100 * resolved.amount.milliunits - remainder * share.percent| < 100 * count

theorem resolvesTo_fixed {count : Nat} {line : SplitLine} {amount : Money}
    (h : line.share = .fixed amount) :
    ResolvesTo direction remainder count line
      (resolveLine line (direction * amount.milliunits.natAbs)) where
  category := rfl
  memo := rfl
  personTag := rfl
  fixed amount' h' := by
    rw [h] at h'
    cases h'
    rfl
  percent share h' := by
    rw [h] at h'
    cases h'

theorem resolvesTo_percent {count : Nat} {line : SplitLine} {share : PercentShare} {amount : Int}
    (h : line.share = .percent share)
    (hamount : |100 * amount - remainder * share.percent| < 100 * count) :
    ResolvesTo direction remainder count line (resolveLine line amount) where
  category := rfl
  memo := rfl
  personTag := rfl
  fixed amount' h' := by
    rw [h] at h'
    cases h'
  percent share' h' := by
    rw [h] at h'
    cases h'
    exact hamount

/-- Past the last percent line only fixed lines are left. -/
theorem resolvesTo_of_fixed {count : Nat} {i : Nat} {d : Int} {lines : List SplitLine}
    (hnone : percentPositions i lines = []) :
    List.Forall₂ (ResolvesTo direction remainder count) lines
      (resolveLines direction remainder lastPercent i d lines) := by
  revert d
  apply noPercent_induction ?_ ?_ hnone
  · intro i d
    exact .nil
  · intro i line rest a hs ih d
    rw [resolveLines_fixed hs]
    exact .cons (resolvesTo_fixed hs) ih

/-- Up to the last percent line, `seen` lines of `given` percent have been handed their floors, and
lost `lost` hundredths of a milliunit doing so. -/
theorem resolvesTo_of_percents {count seen given : Nat} {lost : Int} {i : Nat} {d : Int}
    {lines : List SplitLine} (hlast : (percentPositions i lines).getLast? = some lastPercent)
    (hlost : 100 * d = remainder * given - lost) (hnonneg : 0 ≤ lost) (hle : lost ≤ 99 * seen)
    (hgiven : given + (lines.filterMap SplitLine.percent?).sum = 100)
    (hcount : seen + (lines.filterMap SplitLine.percent?).length = count) :
    List.Forall₂ (ResolvesTo direction remainder count) lines
      (resolveLines direction remainder lastPercent i d lines) := by
  revert seen given lost d
  apply lastPercent_induction ?_ ?_ ?_ hlast
  · intro i line rest a hs ih seen given lost d hlost hnonneg hle hgiven hcount
    rw [filterMap_percent_fixed hs] at hgiven hcount
    rw [resolveLines_fixed hs]
    exact .cons (resolvesTo_fixed hs) (ih hlost hnonneg hle hgiven hcount)
  · -- the last line gains what the lines before it lost
    intro line rest s hs hnone seen given lost d hlost hnonneg hle hgiven hcount
    rw [filterMap_percent_percent hs, filterMap_percent_eq_nil_iff.2 hnone, List.sum_singleton]
      at hgiven
    rw [filterMap_percent_percent hs, List.length_cons] at hcount
    rw [resolveLines_last hs]
    refine .cons (resolvesTo_percent hs ?_) (resolvesTo_of_fixed hnone)
    have hpercent : remainder * s.percent = 100 * remainder - remainder * given := by
      rw [show (s.percent : Int) = 100 - given by omega]
      ring
    rw [show 100 * (remainder - d) - remainder * s.percent = lost by omega, abs_of_nonneg hnonneg]
    omega
  · intro i line rest s hs hne _ ih seen given lost d hlost hnonneg hle hgiven hcount
    rw [filterMap_percent_percent hs, List.sum_cons] at hgiven
    rw [filterMap_percent_percent hs, List.length_cons] at hcount
    rw [resolveLines_earlier hs hne]
    have hdiv := Int.mul_ediv_add_emod (remainder * s.percent) 100
    have hmod := Int.emod_nonneg (remainder * s.percent) (by decide : (100 : Int) ≠ 0)
    have hlt := Int.emod_lt_of_pos (remainder * s.percent) (by decide : (0 : Int) < 100)
    have hhanded : 100 * (d + remainder * s.percent / 100) =
        remainder * ((given + s.percent : Nat) : Int) - (lost + remainder * s.percent % 100) := by
      have hexpand : remainder * ((given + s.percent : Nat) : Int) =
          remainder * given + remainder * s.percent := by
        push_cast
        ring
      omega
    have hbound : lost + remainder * s.percent % 100 ≤ 99 * ((seen + 1 : Nat) : Int) := by
      push_cast
      omega
    refine .cons (resolvesTo_percent hs ?_) (ih hhanded (by omega) hbound (by omega) (by omega))
    rw [abs_of_nonpos (by omega)]
    omega

end lines

/-- **The shares of a split.** The lines sum to the total; each keeps its category, memo and tag, a
fixed line its magnitude in the direction of the transaction, and a percent line is within as many
milliunits of its share of the remainder as there are percent lines. -/
theorem resolveAllocation_shares (split : ProposedSplit) (total : Money) :
    ∃ resolved : ResolvedSplit, resolveAllocation (.split split) total = .split resolved ∧
      resolved.total = total ∧
      List.Forall₂ (ResolvesTo (directionOf total) (split.remainder total) split.percents.length)
        split.lines resolved.lines := by
  refine ⟨_, rfl, resolveSplit_total split total, ?_⟩
  have hlast := List.getLast?_eq_getLast_of_ne_nil split.percentPositions_ne_nil
  have hsum : 0 + (split.lines.filterMap SplitLine.percent?).sum = 100 := by
    rw [Nat.zero_add]
    exact split.percents_sum
  exact resolvesTo_of_percents hlast (by simp) (Int.le_refl 0) (by simp) hsum (Nat.zero_add _)

/-! ## The signs of the lines -/

section signs
variable {direction remainder : Int} {lastPercent : Nat} {P : Int → Prop}

theorem forall_fixed_cons {line : SplitLine} {rest : List SplitLine} {Q : Money → Prop} :
    (∀ l ∈ line :: rest, ∀ amount, l.share = .fixed amount → Q amount) ↔
      (∀ amount, line.share = .fixed amount → Q amount) ∧
        ∀ l ∈ rest, ∀ amount, l.share = .fixed amount → Q amount :=
  List.forall_mem_cons

/-- What holds of the amounts of a run without percent lines holds of its fixed lines. -/
theorem forall_resolveLines_of_fixed {i : Nat} {d : Int} {lines : List SplitLine}
    (hnone : percentPositions i lines = []) :
    (∀ r ∈ resolveLines direction remainder lastPercent i d lines, P r.amount.milliunits) ↔
      ∀ line ∈ lines, ∀ amount, line.share = .fixed amount →
        P (direction * amount.milliunits.natAbs) := by
  revert d
  apply noPercent_induction ?_ ?_ hnone
  · intro i d
    simp [resolveLines]
  · intro i line rest a hs ih d
    rw [resolveLines_fixed hs, forall_fixed_cons, List.forall_mem_cons, ih, hs]
    simp only [resolveLine_milliunits, ShareSpec.fixed.injEq, forall_eq']

/-- What holds of the amounts holds of the fixed lines, of the floors of the percents before the
last, and of what these leave the last. -/
theorem forall_resolveLines_iff {i : Nat} {d : Int} {lines : List SplitLine}
    (hlast : (percentPositions i lines).getLast? = some lastPercent) :
    (∀ r ∈ resolveLines direction remainder lastPercent i d lines, P r.amount.milliunits) ↔
      (∀ line ∈ lines, ∀ amount, line.share = .fixed amount →
        P (direction * amount.milliunits.natAbs)) ∧
      (∀ p ∈ (lines.filterMap SplitLine.percent?).dropLast, P (remainder * p / 100)) ∧
      P (remainder - d - ((lines.filterMap SplitLine.percent?).dropLast.map fun p : Nat =>
        remainder * p / 100).sum) := by
  revert d
  apply lastPercent_induction ?_ ?_ ?_ hlast
  · intro i line rest a hs ih d
    rw [resolveLines_fixed hs, forall_fixed_cons, List.forall_mem_cons, ih,
      filterMap_percent_fixed hs, hs]
    simp only [resolveLine_milliunits, ShareSpec.fixed.injEq, forall_eq', and_assoc]
  · intro line rest s hs hnone d
    rw [resolveLines_last hs, forall_fixed_cons, List.forall_mem_cons,
      forall_resolveLines_of_fixed hnone, filterMap_percent_percent hs,
      filterMap_percent_eq_nil_iff.2 hnone, hs]
    simp [and_comm]
  · intro i line rest s hs hne hmore ih d
    rw [resolveLines_earlier hs hne, forall_fixed_cons, List.forall_mem_cons, ih,
      filterMap_percent_percent hs,
      List.dropLast_cons_of_ne_nil (mt filterMap_percent_eq_nil_iff.1 hmore), hs]
    simp only [List.forall_mem_cons, List.map_cons, List.sum_cons, resolveLine_milliunits,
      Int.sub_sub, Int.add_assoc, reduceCtorEq, false_implies, implies_true, true_and]
    constructor
    · rintro ⟨h, hfixed, hearlier, hrest⟩
      exact ⟨hfixed, ⟨h, hearlier⟩, hrest⟩
    · rintro ⟨hfixed, ⟨h, hearlier⟩, hrest⟩
      exact ⟨h, hfixed, hearlier, hrest⟩

end signs

/-- What rounding the earlier lines leaves the last, in hundredths of a milliunit. -/
theorem hundred_mul_last (remainder : Int) (earlier : List Nat) :
    100 * (remainder - (earlier.map fun p : Nat => remainder * p / 100).sum) =
      remainder * (100 - (earlier.sum : Nat)) +
        (earlier.map fun p : Nat => remainder * p % 100).sum := by
  induction earlier with
  | nil =>
    simp only [List.map_nil, List.sum_nil, Nat.cast_zero]
    ring
  | cons p earlier ih =>
    have hdiv := Int.mul_ediv_add_emod (remainder * p) 100
    have hexpand : remainder * (100 - ((p + earlier.sum : Nat) : Int)) =
        remainder * (100 - (earlier.sum : Nat)) - remainder * p := by
      push_cast
      ring
    rw [List.map_cons, List.sum_cons, List.map_cons, List.sum_cons, List.sum_cons, hexpand]
    omega

theorem sum_emod_nonneg (remainder : Int) (earlier : List Nat) :
    0 ≤ (earlier.map fun p : Nat => remainder * p % 100).sum := by
  apply List.sum_nonneg
  intro x hx
  obtain ⟨p, -, rfl⟩ := List.mem_map.1 hx
  exact Int.emod_nonneg _ (by decide)

namespace ProposedSplit

variable (split : ProposedSplit)

theorem one_le_of_mem_percents {p : Nat} (hp : p ∈ split.percents) : 1 ≤ p := by
  obtain ⟨line, -, hline⟩ := List.mem_filterMap.1 hp
  unfold SplitLine.percent? at hline
  split at hline
  · rename_i s _
    cases hline
    exact s.one_le
  · cases hline

theorem percents_ne_nil : split.percents ≠ [] := by
  intro hnil
  have hsum : split.percents.sum = 100 := split.percents_sum
  rw [hnil] at hsum
  cases hsum

/-- The percent of the last percent line. -/
def lastPercent : Nat :=
  split.percents.getLast split.percents_ne_nil

theorem one_le_lastPercent : 1 ≤ split.lastPercent :=
  split.one_le_of_mem_percents (List.getLast_mem _)

theorem lastPercent_eq :
    (split.lastPercent : Int) = 100 - (split.percents.dropLast.sum : Nat) := by
  have hsum : (split.percents.dropLast ++ [split.lastPercent]).sum = 100 := by
    unfold lastPercent
    rw [List.dropLast_append_getLast]
    exact split.percents_sum
  rw [List.sum_append, List.sum_singleton] at hsum
  omega

/-- What the fixed magnitudes leave of the transaction's. -/
def leftOver (total : Money) : Int :=
  total.milliunits.natAbs - split.fixedMagnitude

theorem remainder_eq (total : Money) :
    split.remainder total = directionOf total * split.leftOver total := by
  unfold remainder leftOver directionOf fixedMagnitude
  rw [fixedTotal_direction, Int.mul_sub]
  split <;> omega

/-- The fixed lines leave something of the transaction, and on an outflow what rounding the earlier
percent lines up to whole milliunits adds to them is no more than the exact share of the last. -/
def Fits (total : Money) : Prop :=
  total.milliunits = 0 ∨ 0 ≤ split.leftOver total ∧ (total.milliunits < 0 →
    (split.percents.dropLast.map fun p : Nat => -(split.leftOver total) * p % 100).sum ≤
      split.leftOver total * split.lastPercent)

/-- No line of the resolved split has the sign opposite to the transaction's. -/
def KeepsSign (total : Money) : Prop :=
  ∀ resolved, resolveAllocation (.split split) total = .split resolved →
    ∀ line ∈ resolved.lines, (total.milliunits < 0 → line.amount.milliunits ≤ 0) ∧
      (0 < total.milliunits → 0 ≤ line.amount.milliunits)

/-- Where the last share covers the rounding, the fixed lines leave something. -/
theorem leftOver_nonneg_of_le {total : Money}
    (hle : (split.percents.dropLast.map fun p : Nat => -(split.leftOver total) * p % 100).sum ≤
      split.leftOver total * split.lastPercent) : 0 ≤ split.leftOver total := by
  have hrounding := sum_emod_nonneg (-(split.leftOver total)) split.percents.dropLast
  have hpos := split.one_le_lastPercent
  by_contra hneg
  have hmul : split.leftOver total * split.lastPercent < 0 :=
    Int.mul_neg_of_neg_of_pos (by omega) (by omega)
  omega

variable {split} {total : Money}

theorem forall_amount_iff {P : Int → Prop} :
    (∀ resolved, resolveAllocation (.split split) total = .split resolved →
      ∀ line ∈ resolved.lines, P line.amount.milliunits) ↔
      (∀ line ∈ split.lines, ∀ amount, line.share = .fixed amount →
        P (directionOf total * amount.milliunits.natAbs)) ∧
      (∀ p ∈ split.percents.dropLast, P (split.remainder total * p / 100)) ∧
      P (split.remainder total -
        (split.percents.dropLast.map fun p : Nat => split.remainder total * p / 100).sum) := by
  have hlines : (∀ line ∈ (resolveSplit split total).lines, P line.amount.milliunits) ↔ _ :=
    forall_resolveLines_iff (List.getLast?_eq_getLast_of_ne_nil split.percentPositions_ne_nil)
  rw [Int.sub_zero] at hlines
  refine Iff.trans ?_ hlines
  constructor
  · intro h
    exact h _ rfl
  · rintro h resolved hresolved
    cases hresolved
    exact h

theorem keepsSign_of_outflow (hout : total.milliunits < 0) :
    split.KeepsSign total ↔
      (split.percents.dropLast.map fun p : Nat => -(split.leftOver total) * p % 100).sum ≤
        split.leftOver total * split.lastPercent := by
  have hsign : split.KeepsSign total ↔ ∀ resolved,
      resolveAllocation (.split split) total = .split resolved →
        ∀ line ∈ resolved.lines, line.amount.milliunits ≤ 0 := by
    unfold KeepsSign
    simp only [hout, forall_true_left, show ¬ 0 < total.milliunits by omega, false_implies,
      and_true]
  have hremainder : split.remainder total = -(split.leftOver total) := by
    rw [remainder_eq]
    unfold directionOf
    rw [if_pos hout]
    omega
  rw [hsign, forall_amount_iff (P := fun x => x ≤ 0), hremainder]
  have hlast := hundred_mul_last (-(split.leftOver total)) split.percents.dropLast
  rw [← lastPercent_eq, Int.neg_mul] at hlast
  constructor
  · rintro ⟨-, -, hle⟩
    omega
  · intro hle
    have hleft := split.leftOver_nonneg_of_le hle
    refine ⟨?_, ?_, by omega⟩
    · intro line _ amount _
      unfold directionOf
      rw [if_pos hout]
      omega
    · intro p _
      have hmul : 0 ≤ split.leftOver total * p := Int.mul_nonneg hleft (by omega)
      apply Int.le_of_lt_add_one
      rw [Int.neg_mul]
      omega

theorem keepsSign_of_inflow (hin : 0 < total.milliunits) :
    split.KeepsSign total ↔ 0 ≤ split.leftOver total := by
  have hsign : split.KeepsSign total ↔ ∀ resolved,
      resolveAllocation (.split split) total = .split resolved →
        ∀ line ∈ resolved.lines, 0 ≤ line.amount.milliunits := by
    unfold KeepsSign
    simp only [hin, forall_true_left, show ¬ total.milliunits < 0 by omega, false_implies, true_and]
  have hdirection : directionOf total = 1 := if_neg (by omega)
  have hremainder : split.remainder total = split.leftOver total := by
    rw [remainder_eq, hdirection, Int.one_mul]
  rw [hsign, forall_amount_iff (P := fun x => 0 ≤ x), hremainder]
  have hlast := hundred_mul_last (split.leftOver total) split.percents.dropLast
  have hrounding := sum_emod_nonneg (split.leftOver total) split.percents.dropLast
  constructor
  · rintro ⟨-, hearlier, hle⟩
    by_contra hneg
    cases hpercents : split.percents.dropLast with
    | nil =>
      -- the one percent line takes what is left
      rw [hpercents] at hle
      simp only [List.map_nil, List.sum_nil, Int.sub_zero] at hle
      omega
    | cons p rest =>
      have hmem : p ∈ split.percents.dropLast := hpercents ▸ List.mem_cons_self
      have hpos := split.one_le_of_mem_percents (List.mem_of_mem_dropLast hmem)
      have hmul : split.leftOver total * p < 0 :=
        Int.mul_neg_of_neg_of_pos (by omega) (by omega)
      have hshare := hearlier p hmem
      omega
  · intro hleft
    refine ⟨?_, ?_, ?_⟩
    · intro line _ amount _
      rw [hdirection]
      omega
    · intro p _
      exact Int.ediv_nonneg (Int.mul_nonneg hleft (by omega)) (by decide)
    · rw [← lastPercent_eq] at hlast
      have hmul : 0 ≤ split.leftOver total * split.lastPercent :=
        Int.mul_nonneg hleft (by omega)
      omega

end ProposedSplit

/-- **The signs of a split.** No line has the sign opposite to the transaction's exactly where the
template fits it. -/
theorem keeps_sign_iff (split : ProposedSplit) (total : Money) :
    split.KeepsSign total ↔ split.Fits total := by
  unfold ProposedSplit.Fits
  rcases lt_trichotomy total.milliunits 0 with hout | hzero | hin
  · have hnonzero : total.milliunits ≠ 0 := by omega
    rw [ProposedSplit.keepsSign_of_outflow hout]
    simp only [hnonzero, false_or, hout, forall_true_left]
    refine ⟨fun hle => ⟨?_, hle⟩, fun h => h.2⟩
    exact split.leftOver_nonneg_of_le hle
  · refine ⟨fun _ => .inl hzero, fun _ resolved _ line _ => ⟨?_, ?_⟩⟩
    · intro hneg
      omega
    · intro hpos
      omega
  · have hnonzero : total.milliunits ≠ 0 := by omega
    rw [ProposedSplit.keepsSign_of_inflow hin]
    simp only [hnonzero, false_or, show ¬ total.milliunits < 0 by omega, false_implies, and_true]

/-- Forty for gifts and the rest for groceries. -/
def giftsThenGroceries : ProposedSplit where
  lines := [{ share := .fixed ⟨40000⟩, category := "gifts" },
    { share := .percent ⟨100, by decide, by decide⟩, category := "groceries" }]
  two_le := by decide
  percents_sum := by decide

/-- On a charge of thirty, groceries are credited ten. -/
theorem gifts_credit_groceries :
    ¬ ∀ (split : ProposedSplit) (total : Money), split.KeepsSign total := by
  intro h
  have hsigns := h giftsThenGroceries ⟨-30000⟩ _ rfl
    { category := "groceries", amount := ⟨10000⟩ } (by decide +kernel)
  exact absurd (hsigns.1 (by decide)) (by decide)

end YnabAgent
