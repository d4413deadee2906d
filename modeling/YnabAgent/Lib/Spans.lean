import Mathlib.Algebra.Order.BigOperators.Group.List
import Mathlib.Algebra.Order.Group.Int
import Mathlib.Algebra.Ring.Int.Defs

/-!
# Quantities laid end to end

Items of given lengths are laid end to end from a start (`laid`), so each has a span. Where demands
and supplies are laid from the same start, the greedy draw of each demand from the supplies in order
takes of a supply what their spans share (`overlap`): what a supply still holds after the demands up
to `x` is its part past `x` (`left`, `left_sub_overlap`), and the shares of adjacent spans add up
(`sum_overlap_laid`). `chunks` cuts a quantity in pieces of a bounded size.
-/

namespace Lib

/-! ## Spans -/

/-- The items end to end from `a`, each with its span. -/
def laid {α : Type*} (len : α → Int) : Int → List α → List (α × Int × Int)
  | _, [] => []
  | a, x :: xs => (x, a, a + len x) :: laid len (a + len x) xs

/-- The length of what two spans share. -/
def overlap (s t : Int × Int) : Int :=
  max 0 (min s.2 t.2 - max s.1 t.1)

/-- The part of a span past `x`. -/
def left (x : Int) (s : Int × Int) : Int :=
  max 0 (s.2 - max x s.1)

section spans
variable {a b c x y : Int} {s t : Int × Int}

theorem overlap_nonneg : 0 ≤ overlap s t :=
  Int.le_max_left _ _

theorem overlap_comm (s t : Int × Int) : overlap s t = overlap t s := by
  unfold overlap
  rw [Int.min_comm, Int.max_comm s.1]

/-- What is left past the start is the whole span. -/
theorem left_of_le (hx : x ≤ a) (hb : 0 ≤ b) : left x (a, a + b) = b := by
  unfold left
  simp only
  omega

/-- A demand that spans from `x` to `y` takes the share of the spans from what is left past `x`. -/
theorem min_left_left (hx : x ≤ y) :
    min (left a (x, y)) (left x (a, b)) = overlap (x, y) (a, b) := by
  unfold left overlap
  simp only
  omega

theorem left_sub_overlap (hx : x ≤ y) : left x s - overlap (x, y) s = left y s := by
  unfold left overlap
  simp only
  omega

/-- Adjacent spans share with another what they share together. -/
theorem overlap_add_overlap (hab : a ≤ b) (hbc : b ≤ c) :
    overlap s (a, b) + overlap s (b, c) = overlap s (a, c) := by
  unfold overlap
  simp only
  omega

/-- No share is longer than the span. -/
theorem overlap_le_length (hb : 0 ≤ b) : overlap s (a, a + b) ≤ b := by
  unfold overlap
  simp only
  omega

theorem overlap_empty : overlap s (a, a) = 0 := by
  unfold overlap
  simp only
  omega

end spans

section laid
variable {α : Type*} {len : α → Int} {a : Int} {xs : List α} {s : Int × Int}

theorem map_fst_laid (len : α → Int) (a : Int) (xs : List α) :
    (laid len a xs).map Prod.fst = xs := by
  induction xs generalizing a with
  | nil => rfl
  | cons x xs ih => rw [laid, List.map_cons, ih]

theorem fst_mem_of_laid {p : α × Int × Int} (hp : p ∈ laid len a xs) : p.1 ∈ xs := by
  rw [← map_fst_laid len a xs]
  exact List.mem_map_of_mem hp

/-- A span has the length of its item. -/
theorem span_of_laid {p : α × Int × Int} (hp : p ∈ laid len a xs) :
    p.2.2 = p.2.1 + len p.1 := by
  induction xs generalizing a with
  | nil => cases hp
  | cons x xs ih =>
    rcases List.mem_cons.1 hp with rfl | hp
    · rfl
    · exact ih hp

/-- No span starts before the first. -/
theorem le_start_of_laid (hlen : ∀ x ∈ xs, 0 ≤ len x) {p : α × Int × Int}
    (hp : p ∈ laid len a xs) : a ≤ p.2.1 := by
  induction xs generalizing a with
  | nil => cases hp
  | cons x xs ih =>
    rw [List.forall_mem_cons] at hlen
    rcases List.mem_cons.1 hp with rfl | hp
    · exact Int.le_refl a
    · have hle := ih hlen.2 hp
      omega

theorem sum_map_nonneg (hlen : ∀ x ∈ xs, 0 ≤ len x) : 0 ≤ (xs.map len).sum :=
  List.sum_nonneg (by simpa using hlen)

/-- The shares of the spans laid end to end add up to the share of their whole. -/
theorem sum_overlap_laid (hlen : ∀ x ∈ xs, 0 ≤ len x) :
    ((laid len a xs).map fun p => overlap s p.2).sum = overlap s (a, a + (xs.map len).sum) := by
  induction xs generalizing a with
  | nil => rw [laid, List.map_nil, List.sum_nil, List.map_nil, List.sum_nil, Int.add_zero,
      overlap_empty]
  | cons x xs ih =>
    rw [List.forall_mem_cons] at hlen
    have hrest := sum_map_nonneg hlen.2
    rw [laid, List.map_cons, List.sum_cons, ih hlen.2, List.map_cons, List.sum_cons,
      ← Int.add_assoc]
    exact overlap_add_overlap (by omega) (by omega)

/-- A span shares something with one of those laid end to end when it does with their whole. -/
theorem exists_overlap_laid_iff (hlen : ∀ x ∈ xs, 0 ≤ len x) :
    (∃ p ∈ laid len a xs, 0 < overlap s p.2) ↔ 0 < overlap s (a, a + (xs.map len).sum) := by
  induction xs generalizing a with
  | nil => simp [laid, overlap_empty]
  | cons x xs ih =>
    rw [List.forall_mem_cons] at hlen
    have hrest := sum_map_nonneg hlen.2
    have hsplit := overlap_add_overlap (s := s) (a := a) (b := a + len x)
      (c := a + len x + (xs.map len).sum) (by omega) (by omega)
    have hfirst : 0 ≤ overlap s (a, a + len x) := overlap_nonneg
    have hothers : 0 ≤ overlap s (a + len x, a + len x + (xs.map len).sum) := overlap_nonneg
    rw [laid, List.exists_mem_cons_iff, ih hlen.2, List.map_cons, List.sum_cons, ← Int.add_assoc,
      ← hsplit]
    simp only
    omega

/-- And none ends past the whole. -/
theorem end_le_of_laid (hlen : ∀ x ∈ xs, 0 ≤ len x) {p : α × Int × Int}
    (hp : p ∈ laid len a xs) : p.2.2 ≤ a + (xs.map len).sum := by
  induction xs generalizing a with
  | nil => cases hp
  | cons x xs ih =>
    rw [List.forall_mem_cons] at hlen
    have hrest := sum_map_nonneg hlen.2
    rw [List.map_cons, List.sum_cons]
    rcases List.mem_cons.1 hp with rfl | hp
    · simp only
      omega
    · have hle := ih hlen.2 hp
      omega

/-- A later span starts no earlier than one before it ends. -/
theorem pairwise_laid (hlen : ∀ x ∈ xs, 0 ≤ len x) :
    (laid len a xs).Pairwise fun p q => p.2.2 ≤ q.2.1 := by
  induction xs generalizing a with
  | nil => exact List.Pairwise.nil
  | cons x xs ih =>
    rw [List.forall_mem_cons] at hlen
    exact List.Pairwise.cons (fun q hq => le_start_of_laid hlen.2 hq) (ih hlen.2)

/-- The shares of the spans up to one add up to the share of what lies before its end. -/
theorem sum_overlap_upto (hlen : ∀ x ∈ xs, 0 ≤ len x) {before after : List (α × Int × Int)}
    {q : α × Int × Int} (h : laid len a xs = before ++ q :: after) :
    (before.map fun p => overlap s p.2).sum + overlap s q.2 = overlap s (a, q.2.2) := by
  induction xs generalizing a before with
  | nil => exact absurd h (by simp [laid])
  | cons x xs ih =>
    rw [List.forall_mem_cons] at hlen
    cases before with
    | nil =>
      obtain ⟨rfl, -⟩ := List.cons.inj h
      rw [List.map_nil, List.sum_nil, Int.zero_add]
    | cons p before =>
      obtain ⟨rfl, hrest⟩ := List.cons.inj h
      have hq : q ∈ laid len (a + len x) xs := by
        rw [hrest]
        exact List.mem_append_right _ List.mem_cons_self
      have hstart := le_start_of_laid hlen.2 hq
      have hspan := span_of_laid hq
      have hnonneg := hlen.2 _ (fst_mem_of_laid hq)
      rw [List.map_cons, List.sum_cons, Int.add_assoc, ih hlen.2 hrest]
      exact overlap_add_overlap (by omega) (by omega)

end laid

/-! ## Pieces of a bounded size -/

/-- A quantity cut in pieces of size `c`, with what remains as the last. -/
def chunks (c x : Int) : List Int :=
  List.replicate (x / c).toNat c ++ if x % c = 0 then [] else [x % c]

section chunks
variable {c x : Int}

theorem chunks_zero : chunks c 0 = [] := by
  simp [chunks]

theorem chunks_of_lt (hx : 0 < x) (hlt : x < c) : chunks c x = [x] := by
  unfold chunks
  rw [Int.ediv_eq_zero_of_lt (by omega) hlt, Int.emod_eq_of_lt (by omega) hlt, if_neg (by omega)]
  rfl

theorem chunks_of_le (hc : 0 < c) (hle : c ≤ x) : chunks c x = c :: chunks c (x - c) := by
  unfold chunks
  have hdiv : x / c = (x - c) / c + 1 := by
    rw [Int.sub_ediv_of_dvd _ (Int.dvd_refl c), Int.ediv_self (by omega)]
    omega
  have hnonneg : 0 ≤ (x - c) / c := Int.ediv_nonneg (by omega) (by omega)
  have hmod : (x - c) % c = x % c := Int.sub_emod_right x c
  rw [hmod, hdiv, Int.toNat_add hnonneg (by omega)]
  rfl

/-- The first piece is as large as the bound allows. -/
theorem chunks_cons (hc : 0 < c) (hx : 0 < x) :
    chunks c x = min x c :: chunks c (x - min x c) := by
  by_cases hle : c ≤ x
  · rw [Int.min_eq_right hle]
    exact chunks_of_le hc hle
  · rw [Int.min_eq_left (by omega), Int.sub_self, chunks_zero]
    exact chunks_of_lt hx (by omega)

theorem sum_chunks (hc : 0 < c) (hx : 0 ≤ x) : (chunks c x).sum = x := by
  unfold chunks
  have hdiv := Int.mul_ediv_add_emod x c
  have hnonneg : 0 ≤ x / c := Int.ediv_nonneg hx (by omega)
  rw [List.sum_append, List.sum_replicate, Int.nsmul_eq_mul, Int.toNat_of_nonneg hnonneg]
  split
  · rename_i hmod
    rw [Int.mul_comm, List.sum_nil]
    omega
  · rw [Int.mul_comm, List.sum_singleton]
    omega

theorem mem_chunks (hc : 0 < c) {y : Int} (hy : y ∈ chunks c x) :
    0 < y ∧ y ≤ c := by
  unfold chunks at hy
  have hmod := Int.emod_nonneg x (by omega : c ≠ 0)
  have hlt := Int.emod_lt_of_pos x hc
  rcases List.mem_append.1 hy with hy | hy
  · rw [List.eq_of_mem_replicate hy]
    omega
  · split at hy
    · cases hy
    · rw [List.mem_singleton.1 hy]
      omega

/-- There is a piece when there is something to cut. -/
theorem exists_mem_chunks_iff (hc : 0 < c) (hx : 0 ≤ x) : (∃ m, m ∈ chunks c x) ↔ 0 < x := by
  constructor
  · rintro ⟨m, hm⟩
    by_contra hzero
    rw [show x = 0 by omega, chunks_zero] at hm
    cases hm
  · intro hpos
    rw [chunks_cons hc hpos]
    exact ⟨_, List.mem_cons_self⟩

/-- How many pieces: the quotient, rounded up. -/
theorem chunks_length (hc : 0 < c) (hx : 0 ≤ x) :
    ((chunks c x).length : Int) = (x + c - 1) / c := by
  unfold chunks
  have hdiv := Int.mul_ediv_add_emod x c
  have hmod := Int.emod_nonneg x (by omega : c ≠ 0)
  have hlt := Int.emod_lt_of_pos x hc
  have hnonneg : 0 ≤ x / c := Int.ediv_nonneg hx (by omega)
  have hquot : (x + c - 1) / c = (x % c + c - 1) / c + x / c := by
    rw [← Int.add_mul_ediv_left _ _ (by omega : c ≠ 0)]
    congr 1
    omega
  rw [hquot, List.length_append, List.length_replicate, Int.natCast_add,
    Int.toNat_of_nonneg hnonneg, Int.add_comm]
  congr 1
  split
  · rename_i hzero
    rw [hzero, Int.ediv_eq_zero_of_lt (by omega) (by omega)]
    rfl
  · rename_i hpos
    have hone : x % c + c - 1 = x % c - 1 + 1 * c := by omega
    rw [hone, Int.add_mul_ediv_right _ _ (by omega), Int.ediv_eq_zero_of_lt (by omega) (by omega)]
    rfl

end chunks

end Lib
