import Mathlib.Data.List.Basic
import Mathlib.Data.List.TakeWhile

/-!
# Matching by backtracking

A pattern is the list of what it matches at the head of a text, in the order a backtracking engine
tries it, so that the engine reports the first (`head?`). A step that has a first match does not
backtrack as long as what follows matches there (`head?_bind`), and a search reports the first
position where anything matches (`search`).
-/

namespace Lib

/-- What a pattern captures at the head of a text, with the text left. -/
def Matcher (α β : Type) := List α → List (β × List α)

namespace Matcher

variable {α β γ : Type}

instance : Monad (Matcher α) where
  pure b s := [(b, s)]
  bind m f s := (m s).flatMap fun r => f r.1 r.2

/-- One element of a class. -/
def one (p : α → Bool) : Matcher α (List α)
  | a :: s => if p a then [([a], s)] else []
  | [] => []

/-- From `lo` to `hi` elements of a class, the longest match first. -/
def greedy (p : α → Bool) (lo hi : Nat) : Matcher α (List α) := fun s =>
  ((List.range' lo (min hi (s.takeWhile p).length + 1 - lo)).reverse).map fun k =>
    (s.take k, s.drop k)

/-- `lo` elements of a class or more. -/
def many (p : α → Bool) (lo : Nat) : Matcher α (List α) := fun s => greedy p lo s.length s

/-- The pattern, or else nothing. -/
def optional (m : Matcher α (List α)) : Matcher α (List α) := fun s => m s ++ [([], s)]

/-- The end of a line: of the text, or before a newline that ends it. -/
def atEnd (isNewline : α → Bool) : Matcher α Unit := fun s =>
  match s with
  | [] => [((), s)]
  | [a] => if isNewline a then [((), s)] else []
  | _ => []

/-- The first match at the first position that has one. -/
def search (m : Matcher α β) : List α → Option β
  | [] => (m []).head?.map (·.1)
  | a :: s =>
    match (m (a :: s)).head? with
    | some r => some r.1
    | none => search m s

variable {m : Matcher α β} {f : β → Matcher α γ} {p : α → Bool} {lo hi : Nat} {s : List α} {a : α}
  {r : β × List α}

theorem bind_apply (m : Matcher α β) (f : β → Matcher α γ) (s : List α) :
    (m >>= f) s = (m s).flatMap fun r => f r.1 r.2 := rfl

theorem bind_of_nil (h : m s = []) : (m >>= f) s = [] := by
  rw [bind_apply, h, List.flatMap_nil]

/-- **No backtracking** into a step as long as what follows its first match matches. -/
theorem head?_bind (h : (m s).head? = some r) (hf : f r.1 r.2 ≠ []) :
    ((m >>= f) s).head? = (f r.1 r.2).head? := by
  rw [bind_apply]
  obtain ⟨rest, hrest⟩ := List.head?_eq_some_iff.1 h
  rw [hrest, List.flatMap_cons, List.head?_append_of_ne_nil _ hf]

theorem bind_ne_nil (h : (m s).head? = some r) (hf : f r.1 r.2 ≠ []) : (m >>= f) s ≠ [] := by
  intro hnil
  have hhead := head?_bind h hf
  rw [hnil] at hhead
  exact hf (List.head?_eq_none_iff.1 hhead.symm)

theorem one_cons (p : α → Bool) (a : α) (s : List α) :
    one p (a :: s) = if p a then [([a], s)] else [] := rfl

theorem head?_optional_of_nil {m : Matcher α (List α)} (h : m s = []) :
    (optional m s).head? = some ([], s) := by
  simp [optional, h]

theorem head?_optional {m : Matcher α (List α)} {r : List α × List α} (h : (m s).head? = some r) :
    (optional m s).head? = some r := by
  unfold optional
  rw [List.head?_append, h, Option.some_or]

/-- A repetition has no match where the run is too short. -/
theorem greedy_of_lt (h : min hi (s.takeWhile p).length < lo) : greedy p lo hi s = [] := by
  unfold greedy
  rw [Nat.sub_eq_zero_of_le (Nat.succ_le_of_lt h)]
  rfl

/-- A repetition first takes all of the run that it may. -/
theorem head?_greedy (h : lo ≤ min hi (s.takeWhile p).length) :
    (greedy p lo hi s).head? = some ((s.takeWhile p).take hi,
      s.drop (min hi (s.takeWhile p).length)) := by
  have htake : s.take (min hi (s.takeWhile p).length) = (s.takeWhile p).take hi := by
    rw [← List.take_take, ← List.prefix_iff_eq_take.1 (List.takeWhile_prefix p)]
  unfold greedy
  obtain ⟨k, hk⟩ := Nat.exists_eq_add_of_le h
  rw [← htake, hk, show lo + k + 1 - lo = k + 1 by omega, List.range'_concat, List.reverse_append]
  simp

theorem takeWhile_append_of_stops {run post : List α} (hrun : ∀ a ∈ run, p a = true)
    (hpost : ∀ a ∈ post.head?, p a = false) : (run ++ post).takeWhile p = run := by
  rw [List.takeWhile_append_of_pos hrun]
  cases post with
  | nil => rw [List.takeWhile_nil, List.append_nil]
  | cons a post =>
    rw [List.takeWhile_cons_of_neg (by rw [hpost a rfl]; exact Bool.false_ne_true),
      List.append_nil]

/-- A run that stops is taken as far as the repetition goes. -/
theorem head?_greedy_run {run post : List α} (hrun : ∀ a ∈ run, p a = true)
    (hpost : ∀ a ∈ post.head?, p a = false) (hlo : lo ≤ min hi run.length) :
    (greedy p lo hi (run ++ post)).head? = some (run.take hi, run.drop hi ++ post) := by
  have htake := takeWhile_append_of_stops hrun hpost
  rw [← htake] at hlo
  rw [head?_greedy hlo, htake]
  rcases Nat.le_total hi run.length with h | h
  · rw [Nat.min_eq_left h, List.drop_append_of_le_length h]
  · rw [Nat.min_eq_right h, List.drop_left, List.drop_of_length_le h, List.nil_append]

theorem greedy_of_head {lo : Nat} (hlo : 0 < lo) (h : ∀ a ∈ s.head?, p a = false) :
    greedy p lo hi s = [] := by
  refine greedy_of_lt ?_
  have hrun : s.takeWhile p = [] := by
    cases s with
    | nil => rfl
    | cons a s => exact List.takeWhile_cons_of_neg (by rw [h a rfl]; exact Bool.false_ne_true)
  rw [hrun, List.length_nil, Nat.min_zero]
  exact hlo

theorem search_of_head (h : (m s).head? = some r) : search m s = some r.1 := by
  cases s with
  | nil => simp [search, h]
  | cons a s => simp [search, h]

theorem search_cons_of_nil (h : m (a :: s) = []) : search m (a :: s) = search m s := by
  simp [search, h]

/-! ## What a match says of the text -/

theorem mem_bind {r : γ × List α} : r ∈ (m >>= f) s ↔ ∃ q ∈ m s, r ∈ f q.1 q.2 :=
  List.mem_flatMap

theorem mem_one {r : List α × List α} (h : r ∈ one p s) : ∃ a, p a = true ∧ s = a :: r.2 := by
  cases s with
  | nil => cases h
  | cons a s =>
    rw [one_cons] at h
    split at h
    · rename_i hp
      rw [List.mem_singleton.1 h]
      exact ⟨a, hp, rfl⟩
    · cases h

theorem mem_greedy {r : List α × List α} (h : r ∈ greedy p lo hi s) :
    s = r.1 ++ r.2 ∧ ∀ a ∈ r.1, p a = true := by
  obtain ⟨k, hk, rfl⟩ := List.mem_map.1 h
  refine ⟨(List.take_append_drop k s).symm, fun a ha => ?_⟩
  have hle : k ≤ (s.takeWhile p).length := by
    obtain ⟨hlo, hhi⟩ := List.mem_range'_1.1 (List.mem_reverse.1 hk)
    omega
  have htake : s.take k = (s.takeWhile p).take k := by
    rw [List.prefix_iff_eq_take.1 (List.takeWhile_prefix p), List.take_take, Nat.min_eq_left hle]
  rw [htake] at ha
  exact List.mem_takeWhile_imp (List.mem_of_mem_take ha)

theorem mem_many {r : List α × List α} (h : r ∈ many p lo s) :
    s = r.1 ++ r.2 ∧ ∀ a ∈ r.1, p a = true :=
  mem_greedy h

theorem mem_atEnd {isNewline : α → Bool} {r : Unit × List α} (h : r ∈ atEnd isNewline s) :
    s = [] ∨ ∃ a, isNewline a = true ∧ s = [a] := by
  unfold atEnd at h
  split at h
  · exact .inl rfl
  · rename_i a
    split at h
    · rename_i ha
      exact .inr ⟨a, ha, rfl⟩
    · cases h
  · cases h

end Matcher

end Lib
