import Mathlib.Data.List.Sort
import Mathlib.Order.Basic

/-!
# The best of a ranked list

A list is put in the order of a rank and its first `n` are kept. Where a property depends on the
rank alone, how many of those kept have it can be told without sorting (`le_countP_shortlist`): an
element that has it is kept out by those ahead of it that do not.
-/

namespace Lib

variable {α β : Type*} [LinearOrder β] (rank : α → β) (p : α → Bool) (n : Nat)

/-- The first `n` in the order of the rank. -/
def shortlist (l : List α) : List α :=
  (l.insertionSort fun a b => rank a ≤ rank b).take n

/-- How many elements without the property rank strictly before `x`. -/
def crowd (l : List α) (x : α) : Nat :=
  l.countP fun y => !p y && decide (rank y < rank x)

theorem shortlist_sublist (l : List α) :
    (shortlist rank n l).Sublist (l.insertionSort fun a b => rank a ≤ rank b) :=
  List.take_sublist _ _

theorem crowd_perm {l l' : List α} (h : l.Perm l') (x : α) :
    crowd rank p l x = crowd rank p l' x :=
  h.countP_eq _

variable {rank p n} {l : List α}

/-- What is ahead of an element kept is kept itself. -/
theorem crowd_of_kept {kept rest : List α}
    (hsorted : (kept ++ rest).Pairwise fun a b => rank a ≤ rank b) {x : α} (hx : x ∈ kept) :
    crowd rank p (kept ++ rest) x ≤ kept.countP (fun y => !p y) := by
  have hafter := (List.pairwise_append.1 hsorted).2.2
  have hrest : rest.countP (fun y => !p y && decide (rank y < rank x)) = 0 := by
    rw [List.countP_eq_zero]
    intro y hy hahead
    have hlt := of_decide_eq_true (Bool.and_eq_true_iff.1 hahead).2
    exact absurd (hafter x hx y hy) (not_le_of_gt hlt)
  unfold crowd
  rw [List.countP_append, hrest, Nat.add_zero]
  refine List.countP_mono_left fun y _ h => ?_
  exact (Bool.and_eq_true_iff.1 h).1

/-- Everything kept that lacks the property is ahead of an element left out that has it. -/
theorem le_crowd_of_left_out (hp : ∀ a b, rank a = rank b → p a = p b) {kept rest : List α}
    (hsorted : (kept ++ rest).Pairwise fun a b => rank a ≤ rank b) {x : α} (hx : x ∈ rest)
    (hpx : p x = true) : kept.countP (fun y => !p y) ≤ crowd rank p (kept ++ rest) x := by
  have hafter := (List.pairwise_append.1 hsorted).2.2
  have hahead : kept.countP (fun y => !p y) ≤
      kept.countP (fun y => !p y && decide (rank y < rank x)) := by
    refine List.countP_mono_left fun y hy hnot => ?_
    have hne : rank y ≠ rank x := by
      intro heq
      rw [hp y x heq, hpx] at hnot
      cases hnot
    have hlt : rank y < rank x := lt_of_le_of_ne (hafter y hy x hx) hne
    rw [hnot, decide_eq_true hlt, Bool.and_true]
  unfold crowd
  rw [List.countP_append]
  exact Nat.le_trans hahead (Nat.le_add_right _ _)

/-- **The shortlist has `k` elements with the property** exactly where `k` elements of the list have
it and at most `n - k` without it ahead of them. -/
theorem le_countP_shortlist (hp : ∀ a b, rank a = rank b → p a = p b) (k : Nat) :
    k ≤ (shortlist rank n l).countP p ↔
      k ≤ l.countP fun x => p x && decide (crowd rank p l x + k ≤ n) := by
  have hperm : (l.insertionSort fun a b => rank a ≤ rank b).Perm l := List.perm_insertionSort _ l
  have hsorted := List.pairwise_insertionSort (fun a b => rank a ≤ rank b) l
  have hcrowd : ∀ x, crowd rank p l x =
      crowd rank p (l.insertionSort fun a b => rank a ≤ rank b) x :=
    fun x => crowd_perm rank p hperm.symm x
  simp only [hcrowd]
  rw [← hperm.countP_eq]
  unfold shortlist
  generalize (l.insertionSort fun a b => rank a ≤ rank b) = sorted at hsorted
  obtain ⟨kept, rest, hkept, hsplit⟩ :
      ∃ kept rest, sorted.take n = kept ∧ sorted = kept ++ rest :=
    ⟨sorted.take n, sorted.drop n, rfl, (List.take_append_drop n sorted).symm⟩
  have hlen : kept.length ≤ n := hkept ▸ List.length_take_le n sorted
  have hfull : ∀ x ∈ rest, kept.length = n := by
    intro x hx
    have hrest : sorted.drop n = rest := by
      have hboth : kept ++ sorted.drop n = kept ++ rest := by
        rw [← hsplit, ← hkept, List.take_append_drop]
      exact List.append_cancel_left hboth
    have hpos : 0 < (sorted.drop n).length := by
      rw [hrest]
      exact List.length_pos_of_mem hx
    rw [← hkept, List.length_take]
    rw [List.length_drop] at hpos
    omega
  rw [hkept]
  subst hsplit
  have hsum : kept.length = kept.countP p + kept.countP (fun y => !p y) :=
    (List.length_eq_countP_add_countP p).trans (by simp)
  constructor
  · intro hk
    refine Nat.le_trans hk (Nat.le_trans ?_ (List.Sublist.countP_le (List.sublist_append_left ..)))
    refine List.countP_mono_left fun x hx hpx => ?_
    have hle := crowd_of_kept (p := p) hsorted hx
    exact Bool.and_eq_true_iff.2 ⟨hpx, decide_eq_true (by omega)⟩
  · intro hk
    by_contra hshort
    -- Too few are kept, so each one left out has too many ahead of it.
    have hrest : rest.countP (fun x => p x && decide (crowd rank p (kept ++ rest) x + k ≤ n)) =
        0 := by
      rw [List.countP_eq_zero]
      intro x hx hcounted
      obtain ⟨hpx, hroom⟩ := Bool.and_eq_true_iff.1 hcounted
      have hge := le_crowd_of_left_out hp hsorted hx hpx
      have hn := hfull x hx
      have hroom := of_decide_eq_true hroom
      omega
    have hkept' : kept.countP (fun x => p x && decide (crowd rank p (kept ++ rest) x + k ≤ n)) ≤
        kept.countP p := by
      refine List.countP_mono_left fun x _ h => ?_
      exact (Bool.and_eq_true_iff.1 h).1
    rw [List.countP_append, hrest, Nat.add_zero] at hk
    omega

end Lib
