import Mathlib.Data.List.DropRight

/-!
# Trimming a list at both ends

A trimmed list is one that neither starts nor ends with an element to be dropped
(`trim_eq_self_iff`). A prefix starts as the list does, and ends in the part of it where the
list is cut.
-/

namespace Lib

variable {α : Type*} (p : α → Bool)

/-- The list without the elements of `p` at its ends. -/
def trim (l : List α) : List α := (l.dropWhile p).rdropWhile p

/-- The first element, if any, is not of `p`. -/
def StartsOutside (l : List α) : Prop := ∀ a ∈ l.head?, p a = false

/-- The last element, if any, is not of `p`. -/
def EndsOutside (l : List α) : Prop := ∀ a ∈ l.getLast?, p a = false

variable {p} {l m : List α} {n : Nat}

theorem dropWhile_eq_self_iff : l.dropWhile p = l ↔ StartsOutside p l := by
  unfold StartsOutside
  cases l with
  | nil => simp
  | cons a l => simp [List.dropWhile_eq_self_iff]

theorem rdropWhile_eq_self_iff : l.rdropWhile p = l ↔ EndsOutside p l := by
  unfold EndsOutside
  rw [List.rdropWhile_eq_self_iff]
  cases l using List.reverseRecOn with
  | nil => simp
  | append_singleton l a => simp

theorem startsOutside_dropWhile (p : α → Bool) (l : List α) : StartsOutside p (l.dropWhile p) :=
  dropWhile_eq_self_iff.1 (List.dropWhile_idempotent p l)

theorem endsOutside_trim (p : α → Bool) (l : List α) : EndsOutside p (trim p l) :=
  rdropWhile_eq_self_iff.1 (List.rdropWhile_idempotent p _)

/-- A prefix of a list starts as the list does. -/
theorem StartsOutside.of_initial (h : StartsOutside p l) (hpre : m <+: l) : StartsOutside p m := by
  obtain ⟨rest, rfl⟩ := hpre
  intro a ha
  refine h a ?_
  rw [Option.mem_def] at ha ⊢
  rw [List.head?_append, ha, Option.some_or]

theorem startsOutside_trim (p : α → Bool) (l : List α) : StartsOutside p (trim p l) :=
  (startsOutside_dropWhile p l).of_initial (List.rdropWhile_prefix p _)

/-- **A list is trimmed** exactly when it neither starts nor ends with an element to be dropped. -/
theorem trim_eq_self_iff : trim p l = l ↔ StartsOutside p l ∧ EndsOutside p l := by
  constructor
  · intro h
    rw [← h]
    exact ⟨startsOutside_trim p l, endsOutside_trim p l⟩
  · rintro ⟨hstart, hend⟩
    unfold trim
    rw [dropWhile_eq_self_iff.2 hstart, rdropWhile_eq_self_iff.2 hend]

/-! ## Cuts -/

theorem startsOutside_take_iff (hn : 0 < n) : StartsOutside p (l.take n) ↔ StartsOutside p l := by
  unfold StartsOutside
  cases l with
  | nil => simp
  | cons a l =>
    obtain ⟨n, rfl⟩ := Nat.exists_eq_succ_of_ne_zero (Nat.ne_of_gt hn)
    simp

theorem startsOutside_append_iff (hl : l ≠ []) : StartsOutside p (l ++ m) ↔ StartsOutside p l := by
  unfold StartsOutside
  rw [List.head?_append_of_ne_nil l hl]

theorem endsOutside_append_iff (hm : m ≠ []) : EndsOutside p (l ++ m) ↔ EndsOutside p m := by
  unfold EndsOutside
  rw [List.getLast?_append_of_ne_nil l hm]

/-- A concatenation cut past its first part ends in the second. -/
theorem endsOutside_take_append_iff (hn : l.length < n) (hm : m ≠ []) :
    EndsOutside p ((l ++ m).take n) ↔ EndsOutside p (m.take (n - l.length)) := by
  rw [List.take_append, List.take_of_length_le hn.le]
  refine endsOutside_append_iff ?_
  rw [Ne, List.take_eq_nil_iff]
  rintro (h | h)
  · omega
  · exact hm h

end Lib
