import YnabAgent.Lib.Canonical
import YnabAgent.Policy.Converge
import Mathlib.Data.String.Basic

/-!
# What the comparisons of end-states tell apart

The content hash forgets the order of the split lines as far as their sort keys differ. Where the
hash itself has no collisions, two end-states hash equal exactly when they have the same memo and
approval and the same allocation up to that order (`contentHash_eq_iff`), and a read-back matches a
target exactly when it does, the memo counting only where the target has one
(`classifyVerify_match_iff`).
-/

namespace YnabAgent

/-! ## The sort keys -/

instance : Std.Total splitLineLe where
  total a b := by
    rcases lt_trichotomy a.category b.category with h | h | h
    · exact .inl (.inl h)
    · rcases lt_trichotomy a.amount.milliunits b.amount.milliunits with h' | h' | h'
      · exact .inl (.inr ⟨h, .inl h'⟩)
      · have hamount := Money.ext_milliunits h'
        rcases le_total (a.memo.getD "") (b.memo.getD "") with h'' | h''
        · exact .inl (.inr ⟨h, .inr ⟨hamount, h''⟩⟩)
        · exact .inr (.inr ⟨h.symm, .inr ⟨hamount.symm, h''⟩⟩)
      · exact .inr (.inr ⟨h.symm, .inl h'⟩)
    · exact .inr (.inl h)

instance : IsTrans ResolvedSplitLine splitLineLe where
  trans a b c := by
    rintro (hab | ⟨hab, hab' | ⟨hab', hab''⟩⟩) (hbc | ⟨hbc, hbc' | ⟨hbc', hbc''⟩⟩)
    · exact .inl (lt_trans hab hbc)
    · exact .inl (hbc ▸ hab)
    · exact .inl (hbc ▸ hab)
    · exact .inl (hab ▸ hbc)
    · exact .inr ⟨hab.trans hbc, .inl (lt_trans (α := ℤ) hab' hbc')⟩
    · exact .inr ⟨hab.trans hbc, .inl (hbc' ▸ hab')⟩
    · exact .inl (hab ▸ hbc)
    · exact .inr ⟨hab.trans hbc, .inl (hab' ▸ hbc')⟩
    · exact .inr ⟨hab.trans hbc, .inr ⟨hab'.trans hbc', le_trans hab'' hbc''⟩⟩

/-- Lines the sort does not tell apart have the same key. -/
theorem key_eq_of_tied {a b : ResolvedSplitLine} (hab : splitLineLe a b) (hba : splitLineLe b a) :
    a.category = b.category ∧ a.amount = b.amount ∧ a.memo.getD "" = b.memo.getD "" := by
  have irrefl : ∀ m : Money, ¬ m < m := fun m => lt_irrefl m.milliunits
  rcases hab with hab | ⟨hcat, hab | ⟨hamount, hab⟩⟩
  · rcases hba with hba | ⟨hcat, -⟩
    · exact absurd hba (lt_asymm hab)
    · exact absurd hab (hcat ▸ lt_irrefl _)
  · rcases hba with hba | ⟨-, hba | ⟨hamount, -⟩⟩
    · exact absurd hba (hcat ▸ lt_irrefl _)
    · exact absurd hba (lt_asymm (α := ℤ) hab)
    · exact absurd hab (hamount ▸ irrefl _)
  · rcases hba with hba | ⟨-, hba | ⟨-, hba⟩⟩
    · exact absurd hba (hcat ▸ lt_irrefl _)
    · exact absurd hba (hamount ▸ irrefl _)
    · exact ⟨hcat, hamount, le_antisymm hab hba⟩

/-! ## Equal end-states -/

/-- The same allocation, up to the order of lines with different keys. -/
def SameAllocation : ResolvedAllocation → ResolvedAllocation → Prop
  | .category c t, .category c' t' => c = c' ∧ t = t'
  | .split s, .split s' => s.lines.insertionSort splitLineLe = s'.lines.insertionSort splitLineLe
  | _, _ => False

theorem canonical_eq_iff {a b : TargetState} :
    canonical a = canonical b ↔
      SameAllocation a.allocation b.allocation ∧ a.memo = b.memo ∧ a.approved = b.approved := by
  obtain ⟨alloc, memo, approved⟩ := a
  obtain ⟨alloc', memo', approved'⟩ := b
  cases alloc <;> cases alloc' <;>
    simp [canonical, SameAllocation, and_assoc]

section hash
variable {δ : Type} [DecidableEq δ] {digest : TargetState → δ}

omit [DecidableEq δ] in
theorem contentHash_eq_iff (hdigest : Function.Injective digest) {a b : TargetState} :
    contentHash digest a = contentHash digest b ↔
      SameAllocation a.allocation b.allocation ∧ a.memo = b.memo ∧ a.approved = b.approved :=
  hdigest.eq_iff.trans canonical_eq_iff

/-- The read-back is the target: the same allocation and approval, and the memo the target sets. -/
structure Landed (read target : TargetState) : Prop where
  allocation : SameAllocation read.allocation target.allocation
  memo : ∀ memo, target.memo = some memo → read.memo = some memo
  approved : read.approved = target.approved

theorem classifyVerify_match_iff (hdigest : Function.Injective digest)
    {readBack : Option TargetState} {target : TargetState} :
    classifyVerify digest readBack target = .match ↔ ∃ read, readBack = some read ∧
      Landed read target := by
  cases readBack with
  | none => simp [classifyVerify]
  | some read =>
    simp only [classifyVerify, Option.some.injEq, exists_eq_left']
    have hverdict : ∀ p : Prop, [Decidable p] →
        ((if p then VerifyOutcome.match else .diverged) = .match ↔ p) := by
      intro p _
      by_cases h : p <;> simp [h]
    rw [hverdict, contentHash_eq_iff hdigest]
    cases hmemo : target.memo with
    | none =>
      rw [if_pos rfl]
      exact ⟨fun h => ⟨h.1, fun memo hm => (by rw [hmemo] at hm; cases hm), h.2.2⟩,
        fun h => ⟨h.allocation, rfl, h.approved⟩⟩
    | some memo =>
      rw [if_neg (by simp)]
      exact ⟨fun h => ⟨h.1, fun m hm => (by rw [hmemo] at hm; rw [h.2.1, hm]), h.2.2⟩,
        fun h => ⟨h.allocation, h.memo memo hmemo, h.approved⟩⟩

/-- What a converge run does with a target already in place, and with one that is not. -/
theorem precommitAction_settled_iff {current target : TargetState} {prior : Option TargetState} :
    (precommitAction digest (some current) target prior = .noChange ∨
      precommitAction digest (some current) target prior = .alreadyTarget) ↔
      contentHash digest current = contentHash digest target := by
  unfold precommitAction needsWrite
  by_cases h : contentHash digest current = contentHash digest target
  · simp only [h, ne_eq, not_true_eq_false, decide_false, Bool.not_false, if_true, iff_true]
    cases prior with
    | none => exact .inr rfl
    | some prior =>
      simp only
      split
      · exact .inl rfl
      · exact .inr rfl
  · simp only [h, ne_eq, not_false_eq_true, decide_true, Bool.not_true, Bool.false_eq_true,
      if_false, iff_false, not_or]
    cases prior with
    | none => exact ⟨by simp, by simp⟩
    | some prior =>
      simp only
      split <;> exact ⟨by simp, by simp⟩

end hash

end YnabAgent
