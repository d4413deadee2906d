import Mathlib.Logic.Function.Iterate

/-!
# Absolute writes

A store is written key by key. Where a write to a key replaces the one before it and writes to
different keys commute, a list of writes leaves no trace of earlier writes to its keys
(`writeAll_writeAll`): one that was broken off anywhere may be made again from its start, and as
often as it takes.
-/

namespace Lib

variable {σ κ α : Type*} {put : σ → κ → α → σ}

/-- A write to a key replaces the last one, and does not mind those to other keys. -/
structure Absolute (put : σ → κ → α → σ) : Prop where
  overwrite : ∀ s k v v', put (put s k v) k v' = put s k v'
  commute : ∀ s k v k' v', k ≠ k' → put (put s k v) k' v' = put (put s k' v') k v

/-- The writes one after the other. -/
def writeAll (put : σ → κ → α → σ) (s : σ) (writes : List (κ × α)) : σ :=
  writes.foldl (fun s w => put s w.1 w.2) s

@[simp] theorem writeAll_nil (s : σ) : writeAll put s [] = s := rfl

@[simp] theorem writeAll_cons (s : σ) (w : κ × α) (writes : List (κ × α)) :
    writeAll put s (w :: writes) = writeAll put (put s w.1 w.2) writes := rfl

section absolute
variable (h : Absolute put) {writes earlier : List (κ × α)}
include h

/-- A write to one of their keys before the writes leaves no trace. -/
theorem writeAll_put {k : κ} (hk : k ∈ writes.map Prod.fst) (s : σ) (v : α) :
    writeAll put (put s k v) writes = writeAll put s writes := by
  induction writes generalizing s with
  | nil => cases hk
  | cons w writes ih =>
    rw [writeAll_cons, writeAll_cons]
    by_cases hw : k = w.1
    · rw [hw, h.overwrite]
    · rw [List.map_cons, List.mem_cons] at hk
      rw [h.commute s k v w.1 w.2 hw, ih (hk.resolve_left hw)]

/-- Nor do any number of them. -/
theorem writeAll_writeAll (hsub : ∀ w ∈ earlier, w.1 ∈ writes.map Prod.fst) (s : σ) :
    writeAll put (writeAll put s earlier) writes = writeAll put s writes := by
  induction earlier generalizing s with
  | nil => rfl
  | cons w earlier ih =>
    rw [List.forall_mem_cons] at hsub
    rw [writeAll_cons, ih hsub.2, writeAll_put h hsub.1]

/-- The writes may be made again. -/
theorem writeAll_iterate (s : σ) (n : ℕ) :
    (fun s => writeAll put s writes)^[n + 1] s = writeAll put s writes := by
  induction n with
  | zero => rfl
  | succ n ih =>
    rw [Function.iterate_succ_apply', ih]
    exact writeAll_writeAll h (fun w hw => List.mem_map_of_mem hw) s

end absolute

end Lib
