import Mathlib.Data.List.Sort

/-!
# Sorting as a canonical form

A stable sort by a total preorder forgets the order of a list, except among entries the preorder
does not tell apart. `insertionSort_perm_iff`: all the orders of a list sort to the same list
exactly when the preorder is antisymmetric on its entries.
-/

namespace Lib

variable {α : Type*} (r : α → α → Prop) [DecidableRel r]

/-- `r` tells the entries of the list apart. -/
def Separates (l : List α) : Prop :=
  ∀ a ∈ l, ∀ b ∈ l, r a b → r b a → a = b

/-- Neither entry comes before the other. -/
def Tied (a b : α) : Prop :=
  r a b ∧ r b a

instance (a : α) : DecidablePred (Tied r a) := fun b => by unfold Tied; infer_instance

variable {r}

/-- Lists that sort to one list have the same entries. -/
theorem perm_of_insertionSort_eq {l l' : List α} (h : l'.insertionSort r = l.insertionSort r) :
    l'.Perm l :=
  (List.perm_insertionSort r l').symm.trans (h ▸ List.perm_insertionSort r l)

/-- Of two entries that are not told apart, either may come first. -/
theorem exists_perm_cons {l : List α} {a b : α} (ha : a ∈ l) (hb : b ∈ l) (hne : a ≠ b) :
    ∃ rest, (a :: b :: rest).Perm l := by
  obtain ⟨before, after, rfl⟩ := List.append_of_mem ha
  have hrest : (a :: (before ++ after)).Perm (before ++ a :: after) := List.perm_middle.symm
  have hb' : b ∈ before ++ after := by
    rcases List.mem_cons.1 (hrest.mem_iff.2 hb) with h | h
    · exact absurd h.symm hne
    · exact h
  obtain ⟨before', after', heq⟩ := List.append_of_mem hb'
  rw [heq] at hrest
  exact ⟨before' ++ after', (List.perm_middle.symm.cons a).trans hrest⟩

variable [IsTrans α r]

/-- Inserting an entry puts it before those it is tied with, and moves none of the others. -/
theorem filter_orderedInsert (a x : α) (l : List α) :
    (l.orderedInsert r x).filter (Tied r a) = (x :: l).filter (Tied r a) := by
  induction l with
  | nil => rfl
  | cons y l ih =>
    by_cases hxy : r x y
    · rw [List.orderedInsert_cons_of_le r l hxy]
    · rw [List.orderedInsert_of_not_le r l hxy]
      by_cases hx : Tied r a x
      · -- `y` comes strictly before `x`, so it is not tied with it
        have hy : ¬ Tied r a y := fun hy => hxy (trans_of r hx.2 hy.1)
        rw [List.filter_cons_of_neg (by simpa using hy), ih,
          List.filter_cons_of_pos (by simpa using hx), List.filter_cons_of_pos (by simpa using hx),
          List.filter_cons_of_neg (by simpa using hy)]
      · rw [List.filter_cons, ih, List.filter_cons_of_neg (by simpa using hx),
          List.filter_cons_of_neg (by simpa using hx), List.filter_cons]

/-- The sort is stable: it keeps the order of the entries tied with any one. -/
theorem filter_insertionSort (a : α) (l : List α) :
    (l.insertionSort r).filter (Tied r a) = l.filter (Tied r a) := by
  induction l with
  | nil => rfl
  | cons x l ih =>
    rw [List.insertionSort_cons, filter_orderedInsert, List.filter_cons, List.filter_cons, ih]

variable [Std.Total r]

/-- Lists of the same entries sort to one list where `r` tells them apart. -/
theorem insertionSort_eq_of_perm {l l' : List α} (hl : l'.Perm l) (h : Separates r l) :
    l'.insertionSort r = l.insertionSort r := by
  have hperm : (l'.insertionSort r).Perm (l.insertionSort r) :=
    ((List.perm_insertionSort r l').trans hl).trans (List.perm_insertionSort r l).symm
  refine hperm.eq_of_pairwise ?_ (List.pairwise_insertionSort r l')
    (List.pairwise_insertionSort r l)
  intro a b ha hb hab hba
  have ha' : a ∈ l := hl.mem_iff.1 ((List.mem_insertionSort r).1 ha)
  exact h a ha' b ((List.mem_insertionSort r).1 hb) hab hba

/-- **The sort forgets the order of a list** exactly where `r` tells its entries apart. -/
theorem insertionSort_perm_iff (l : List α) :
    (∀ l' : List α, l'.Perm l → l'.insertionSort r = l.insertionSort r) ↔ Separates r l := by
  refine ⟨fun h a ha b hb hab hba => ?_, fun h l' hl => insertionSort_eq_of_perm hl h⟩
  by_contra hne
  obtain ⟨rest, hrest⟩ := exists_perm_cons ha hb hne
  have hswap : (a :: b :: rest).insertionSort r = (b :: a :: rest).insertionSort r :=
    (h _ hrest).trans (h _ ((List.Perm.swap a b rest).trans hrest)).symm
  have haa : Tied r a a := ⟨refl_of r a, refl_of r a⟩
  have hab' : Tied r a b := ⟨hab, hba⟩
  have hfilter := congrArg (List.filter (Tied r a)) hswap
  rw [filter_insertionSort, filter_insertionSort, List.filter_cons_of_pos (by simpa using haa),
    List.filter_cons_of_pos (by simpa using hab'), List.filter_cons_of_pos (by simpa using hab')]
    at hfilter
  exact hne (List.cons.inj hfilter).1

omit [IsTrans α r] in
/-- Sorted lists with the same entries, and the same order of those tied with any one, are
the same. -/
theorem eq_of_pairwise_of_ties {s s' : List α} (hs : s.Pairwise r) (hs' : s'.Pairwise r)
    (hperm : s'.Perm s) (hties : ∀ a ∈ s, s'.filter (Tied r a) = s.filter (Tied r a)) : s' = s := by
  induction s generalizing s' with
  | nil => exact hperm.eq_nil
  | cons x s ih =>
    cases s' with
    | nil => exact absurd hperm.length_eq (by simp)
    | cons y s' =>
      -- both lead their lists, so they are tied, and their ties lead with both
      have hxx : Tied r x x := ⟨refl_of r x, refl_of r x⟩
      have hxy : Tied r x y := by
        constructor
        · rcases List.mem_cons.1 (hperm.mem_iff.1 List.mem_cons_self) with rfl | hy
          · exact refl_of r y
          · exact List.rel_of_pairwise_cons hs hy
        · rcases List.mem_cons.1 (hperm.mem_iff.2 List.mem_cons_self) with rfl | hx
          · exact refl_of r x
          · exact List.rel_of_pairwise_cons hs' hx
      have hlead := hties x List.mem_cons_self
      rw [List.filter_cons_of_pos (by simpa using hxy),
        List.filter_cons_of_pos (by simpa using hxx)]
        at hlead
      obtain rfl := (List.cons.inj hlead).1
      congr 1
      refine ih hs.tail hs'.tail hperm.cons_inv fun a ha => ?_
      have hrest := hties a (List.mem_cons_of_mem _ ha)
      by_cases hay : Tied r a y
      · rw [List.filter_cons_of_pos (by simpa using hay),
          List.filter_cons_of_pos (by simpa using hay)] at hrest
        exact (List.cons.inj hrest).2
      · rw [List.filter_cons_of_neg (by simpa using hay),
          List.filter_cons_of_neg (by simpa using hay)] at hrest
        exact hrest

/-- Lists sort to one list when they have the same entries, the tied ones in the same order. -/
theorem insertionSort_eq_iff {l l' : List α} :
    l'.insertionSort r = l.insertionSort r ↔
      l'.Perm l ∧ ∀ a ∈ l, l'.filter (Tied r a) = l.filter (Tied r a) := by
  constructor
  · intro h
    refine ⟨perm_of_insertionSort_eq h, fun a _ => ?_⟩
    have hfilter := congrArg (List.filter (Tied r a)) h
    rwa [filter_insertionSort, filter_insertionSort] at hfilter
  · rintro ⟨hperm, hties⟩
    refine eq_of_pairwise_of_ties (List.pairwise_insertionSort r l)
      (List.pairwise_insertionSort r l') ?_ fun a ha => ?_
    · exact ((List.perm_insertionSort r l').trans hperm).trans (List.perm_insertionSort r l).symm
    · rw [filter_insertionSort, filter_insertionSort]
      exact hties a ((List.mem_insertionSort r).1 ha)

end Lib
