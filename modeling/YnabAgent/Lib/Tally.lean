import Mathlib.Data.List.Induction

/-!
# Counting since the last reset

`tally resets counts xs` is how many of `xs` count since the last of them that resets the count. It
is read from the front, so its laws are about the list with one more element behind it.
-/

namespace Lib

variable {α : Type*} {resets counts resets' counts' : α → Bool} {x : α} {xs : List α} {n n' : Nat}

/-- One element's effect on the count. -/
def tallyStep (resets counts : α → Bool) (n : Nat) (x : α) : Nat :=
  if resets x then 0 else if counts x then n + 1 else n

/-- How many elements count since the last one that resets. -/
def tally (resets counts : α → Bool) (xs : List α) : Nat :=
  xs.foldl (tallyStep resets counts) 0

theorem tally_concat : tally resets counts (xs ++ [x])
    = tallyStep resets counts (tally resets counts xs) x := by
  unfold tally
  rw [List.foldl_append]
  rfl

/-- Without a reset the count does not fall. -/
theorem le_tally_concat (h : resets x = false) :
    tally resets counts xs ≤ tally resets counts (xs ++ [x]) := by
  rw [tally_concat, tallyStep, h, if_neg (by decide)]
  split <;> omega

theorem tally_concat_of_counts (hresets : resets x = false) (hcounts : counts x = true) :
    tally resets counts (xs ++ [x]) = tally resets counts xs + 1 := by
  rw [tally_concat, tallyStep, hresets, hcounts, if_neg (by decide), if_pos rfl]

theorem tallyStep_mono (hresets : resets' x = true → resets x = true)
    (hcounts : counts x = true → counts' x = true) (hn : n ≤ n') :
    tallyStep resets counts n x ≤ tallyStep resets' counts' n' x := by
  unfold tallyStep
  cases hr : resets x with
  | true => exact Nat.zero_le _
  | false =>
    have hr' : resets' x = false := by
      by_contra hne
      rw [hresets (by simpa using hne)] at hr
      cases hr
    cases hc : counts x with
    | true =>
      rw [hr', hcounts hc]
      exact Nat.succ_le_succ hn
    | false =>
      rw [hr']
      simp only [Bool.false_eq_true, if_false]
      split <;> omega

/-- Fewer resets and more to count make a larger count. -/
theorem tally_mono (hresets : ∀ x, resets' x = true → resets x = true)
    (hcounts : ∀ x, counts x = true → counts' x = true) (xs : List α) :
    tally resets counts xs ≤ tally resets' counts' xs := by
  induction xs using List.reverseRecOn with
  | nil => exact Nat.le_refl _
  | append_singleton xs x ih =>
    rw [tally_concat, tally_concat]
    exact tallyStep_mono (hresets x) (hcounts x) ih

/-- A positive count counted something. -/
theorem exists_counts_of_tally_pos (h : 0 < tally resets counts xs) :
    ∃ x ∈ xs, counts x = true := by
  induction xs using List.reverseRecOn with
  | nil => cases h
  | append_singleton xs x ih =>
    cases hcounts : counts x with
    | true => exact ⟨x, by simp, hcounts⟩
    | false =>
      rw [tally_concat, tallyStep, hcounts] at h
      split at h
      · cases h
      · obtain ⟨y, hy, hcounts⟩ := ih h
        exact ⟨y, List.mem_append_left _ hy, hcounts⟩

end Lib
