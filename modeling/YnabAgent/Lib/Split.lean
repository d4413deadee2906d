import Mathlib.Data.List.Basic
import Mathlib.Data.List.Infix

/-!
# Splitting a list at a separator

`cutAt` finds the first occurrence of a separator, `split` cuts at every occurrence, from
left to right. The parts, joined, are the list again (`intercalate_split`), and none of them
has the separator (`cutAt_of_mem_split`).
-/

namespace Lib

variable {α : Type*} [DecidableEq α]

/-- What stands before the first occurrence of the separator, and what stands behind it. -/
def cutAt (sep : List α) : List α → Option (List α × List α)
  | [] => if sep = [] then some ([], []) else none
  | a :: s =>
    if sep <+: a :: s then some ([], (a :: s).drop sep.length)
    else (cutAt sep s).map fun r => (a :: r.1, r.2)

/-- The parts, as far as `n` cuts go. -/
def splitFrom (sep : List α) : Nat → List α → List (List α)
  | 0, s => [s]
  | n + 1, s =>
    match cutAt sep s with
    | none => [s]
    | some r => r.1 :: splitFrom sep n r.2

/-- The parts between the separators; a list has no more of them than elements. -/
def split (sep s : List α) : List (List α) := splitFrom sep s.length s

variable {sep s before after : List α} {n : Nat}

theorem cutAt_eq_some (h : cutAt sep s = some (before, after)) : s = before ++ (sep ++ after) := by
  induction s generalizing before after with
  | nil =>
    unfold cutAt at h
    split at h
    · rename_i hsep
      cases h
      rw [hsep]
      rfl
    · cases h
  | cons a s ih =>
    unfold cutAt at h
    split at h
    · rename_i hpre
      cases h
      exact (List.prefix_append_drop hpre)
    · obtain ⟨r, hr, heq⟩ := Option.map_eq_some_iff.1 h
      cases heq
      rw [List.cons_append, ← ih hr]

/-- Before the first occurrence there is none. -/
theorem cutAt_before (hsep : sep ≠ []) (h : cutAt sep s = some (before, after)) :
    cutAt sep before = none := by
  induction s generalizing before after with
  | nil =>
    unfold cutAt at h
    rw [if_neg hsep] at h
    cases h
  | cons a s ih =>
    unfold cutAt at h
    split at h
    · cases h
      exact if_neg hsep
    · rename_i hpre
      obtain ⟨r, hr, heq⟩ := Option.map_eq_some_iff.1 h
      cases heq
      unfold cutAt
      rw [ih hr, if_neg]
      · rfl
      · intro hinit
        refine hpre (hinit.trans ?_)
        rw [cutAt_eq_some hr]
        exact List.cons_prefix_cons.2 ⟨rfl, List.prefix_append _ _⟩

theorem splitFrom_ne_nil (sep : List α) (n : Nat) (s : List α) : splitFrom sep n s ≠ [] := by
  cases n with
  | zero => exact List.cons_ne_nil _ _
  | succ n =>
    unfold splitFrom
    split
    · exact List.cons_ne_nil _ _
    · exact List.cons_ne_nil _ _

theorem intercalate_splitFrom (sep : List α) (n : Nat) (s : List α) :
    sep.intercalate (splitFrom sep n s) = s := by
  induction n generalizing s with
  | zero => exact List.intercalate_singleton
  | succ n ih =>
    unfold splitFrom
    split
    · exact List.intercalate_singleton
    · rename_i r hr
      rw [List.intercalate_cons_of_ne_nil (splitFrom_ne_nil sep n r.2), ih, List.append_assoc]
      exact (cutAt_eq_some hr).symm

/-- The parts, joined by the separator, are the list. -/
theorem intercalate_split (sep s : List α) : sep.intercalate (split sep s) = s :=
  intercalate_splitFrom sep s.length s

theorem cutAt_of_mem_splitFrom (hsep : sep ≠ []) (hn : s.length ≤ n) {part : List α}
    (h : part ∈ splitFrom sep n s) : cutAt sep part = none := by
  induction n generalizing s with
  | zero =>
    have hnil : s = [] := List.eq_nil_of_length_eq_zero (Nat.le_zero.1 hn)
    rw [hnil] at h
    rw [List.mem_singleton.1 h]
    exact if_neg hsep
  | succ n ih =>
    unfold splitFrom at h
    split at h
    · rename_i hnone
      rw [List.mem_singleton.1 h]
      exact hnone
    · rename_i r hr
      rcases List.mem_cons.1 h with rfl | hmem
      · exact cutAt_before hsep hr
      · refine ih ?_ hmem
        have hlength := congrArg List.length (cutAt_eq_some hr)
        rw [List.length_append, List.length_append] at hlength
        have hpos := List.length_pos_of_ne_nil hsep
        omega

/-- No part has the separator. -/
theorem cutAt_of_mem_split (hsep : sep ≠ []) {part : List α} (h : part ∈ split sep s) :
    cutAt sep part = none :=
  cutAt_of_mem_splitFrom hsep (Nat.le_refl _) h

theorem not_mem_of_cutAt {a : α} (h : cutAt [a] s = none) : a ∉ s := by
  induction s with
  | nil => exact List.not_mem_nil
  | cons b s ih =>
    unfold cutAt at h
    split at h
    · cases h
    · rename_i hpre
      intro hmem
      rcases List.mem_cons.1 hmem with rfl | hmem
      · exact hpre (List.cons_prefix_cons.2 ⟨rfl, List.nil_prefix⟩)
      · exact ih (Option.map_eq_none_iff.1 h) hmem

section parts
variable {β γ : Type*}

theorem flatMap_filter (p : β → Bool) (f : β → List γ) (parts : List β) :
    (parts.filter p).flatMap f = parts.flatMap fun part => if p part then f part else [] := by
  induction parts with
  | nil => rfl
  | cons part parts ih =>
    rw [List.filter_cons, List.flatMap_cons, ← ih]
    split
    · rw [List.flatMap_cons]
    · rfl

theorem flatMap_intercalate (f : β → List γ) (sep : List β) (parts : List (List β)) :
    (sep.intercalate parts).flatMap f =
      (sep.flatMap f).intercalate (parts.map (List.flatMap f)) := by
  induction parts with
  | nil => rfl
  | cons part parts ih =>
    cases parts with
    | nil => rw [List.intercalate_singleton, List.map_singleton, List.intercalate_singleton]
    | cons part' parts =>
      rw [List.intercalate_cons_cons, List.flatMap_append, List.flatMap_append, ih]
      simp only [List.map_cons, List.intercalate_cons_cons]

theorem intercalate_nil (parts : List (List β)) :
    ([] : List β).intercalate parts = parts.flatten := by
  induction parts with
  | nil => rfl
  | cons part parts ih =>
    cases parts with
    | nil => simp
    | cons part' parts =>
      rw [List.intercalate_cons_cons, ih, List.append_nil]
      rfl

/-- Empty parts leave the separators. -/
theorem intercalate_map_nil (b : β) (parts : List γ) :
    [b].intercalate (parts.map fun _ => []) = List.replicate (parts.length - 1) b := by
  induction parts with
  | nil => rfl
  | cons part parts ih =>
    cases parts with
    | nil => rfl
    | cons part' parts =>
      rw [List.map_cons, List.map_cons, List.intercalate_cons_cons,
        ← List.map_cons (f := fun _ => []), ih]
      rfl

/-- What is dropped of the separators and of the parts is all that is dropped of the whole. -/
theorem filter_intercalate {p : β → Bool} {sep : List β} (hsep : sep.filter p = [])
    (parts : List (List β)) :
    (sep.intercalate parts).filter p = parts.flatten.filter p := by
  induction parts with
  | nil => rfl
  | cons part parts ih =>
    cases parts with
    | nil => simp
    | cons part' parts =>
      rw [List.intercalate_cons_cons, List.filter_append, List.filter_append, hsep, List.append_nil,
        ih]
      simp only [List.flatten_cons, List.filter_append]

end parts

end Lib
