import YnabAgent.Ynab.Client

/-!
# Writing YNAB

The patch a decision is committed with (`to_patch` in `ynab/client.py`), and a YNAB that sets
exactly the fields a patch carries. What the transaction then reads back as is its end-state
(`WireTransaction.endState`), whatever its other fields: `toTarget_of_toSnapshot`.
-/

namespace YnabAgent

/-! ## The patch -/

/-- The flag an agent's write carries, so that the owner sees it. -/
def agentReviewFlag : FlagColor := .purple

def FlagColor.value : FlagColor → String
  | .red => "red"
  | .orange => "orange"
  | .yellow => "yellow"
  | .green => "green"
  | .blue => "blue"
  | .purple => "purple"

structure SubtransactionPatch where
  amount : Int
  categoryId : String
  memo : Option String
  deriving DecidableEq

/-- The fields a patch carries. The category is always sent, as null for a split; the others are
sent where they are present. -/
structure TransactionPatch where
  approved : Bool
  memo : Option String := none
  flagColor : Option String := none
  categoryId : Option String
  subtransactions : Option (List SubtransactionPatch) := none
  deriving DecidableEq

/-- The amount, the category and the memo of a line; YNAB has no field for its person. -/
def ResolvedSplitLine.toPatch (line : ResolvedSplitLine) : SubtransactionPatch :=
  { amount := line.amount.milliunits, categoryId := line.category, memo := line.memo }

def toPatch (decision : Decision) : TransactionPatch :=
  let flagColor :=
    match decision.decidedBy with
    | .agent => some agentReviewFlag.value
    | .human => none
  match decision.allocation with
  | .category category _ =>
    { approved := decision.approved, memo := decision.memo, flagColor, categoryId := some category }
  | .split split =>
    { approved := decision.approved, memo := decision.memo, flagColor, categoryId := none
      subtransactions := some (split.lines.map ResolvedSplitLine.toPatch) }

/-! ## The server -/

/-- A subtransaction as YNAB creates it from a patch. -/
def SubtransactionPatch.created (sub : SubtransactionPatch) : WireSubtransaction :=
  { amount := sub.amount, categoryId := some sub.categoryId, memo := sub.memo }

/-- The transaction with exactly the fields of the patch set. -/
def WireTransaction.patched (wire : WireTransaction) (patch : TransactionPatch) : WireTransaction :=
  { wire with
    approved := patch.approved
    memo := patch.memo.or wire.memo
    flagColor := patch.flagColor.or wire.flagColor
    categoryId := patch.categoryId
    subtransactions :=
      match patch.subtransactions with
      | some subs => subs.map SubtransactionPatch.created
      | none => wire.subtransactions }

/-- The same transaction, its subtransactions returned in any order. -/
structure Reordered (wire wire' : WireTransaction) : Prop where
  subs : wire'.subtransactions.Perm wire.subtransactions
  rest : wire' = { wire with subtransactions := wire'.subtransactions }

theorem Reordered.refl (wire : WireTransaction) : Reordered wire wire := ⟨.refl _, rfl⟩

/-! ## The end-state of a transaction -/

/-- The end-state a transaction reads back as. -/
def WireTransaction.endState (wire : WireTransaction) : Option TargetState :=
  if h : 1 < (toSplitLines wire.subtransactions).length then
    some { allocation := .split ⟨toSplitLines wire.subtransactions, h⟩, memo := wire.memo,
           approved := wire.approved }
  else
    (presentText wire.categoryId).map fun category =>
      { allocation := .category category none, memo := wire.memo, approved := wire.approved }

section reads
variable {text : PyText} {wire : WireTransaction} {snapshot : YnabSnapshot}

/-- What the snapshot of a transaction says of it. -/
structure Reads (wire : WireTransaction) (snapshot : YnabSnapshot) : Prop where
  categoryId : snapshot.categoryId = presentText wire.categoryId
  memo : snapshot.memo = wire.memo
  approved : snapshot.approved = wire.approved
  subtransactions : snapshot.subtransactions = toSplitLines wire.subtransactions
  reconciled : snapshot.reconciled = decide (wire.cleared = "reconciled")
  monthClosed : snapshot.monthClosed = false

/-- Of the cleared states only one is called reconciled. -/
theorem ClearedState.ofValue_reconciled {value : String} {state : ClearedState}
    (h : ClearedState.ofValue value = some state) :
    decide (state = .reconciled) = decide (value = "reconciled") := by
  unfold ClearedState.ofValue at h
  split at h
  · cases h; decide
  · cases h; decide
  · cases h; decide
  · cases h

/-- Reading fails on the flag or the cleared state alone. -/
theorem toSnapshot_isOk_iff :
    (∃ snapshot, toSnapshot text wire = .ok snapshot) ↔
      (∃ flag, parseFlag text wire.flagColor = .ok flag) ∧
        ∃ state, parseCleared text wire.cleared = .ok state := by
  constructor
  · rintro ⟨snapshot, h⟩
    obtain ⟨flag, hflag, h⟩ := Lib.bind_eq_ok h
    obtain ⟨state, hstate, -⟩ := Lib.bind_eq_ok h
    exact ⟨⟨flag, hflag⟩, state, hstate⟩
  · rintro ⟨⟨flag, hflag⟩, state, hstate⟩
    unfold toSnapshot
    rw [hflag, hstate]
    exact ⟨_, rfl⟩

theorem toSnapshot_reordered {live : WireTransaction} (h : toSnapshot text wire = .ok snapshot)
    (hlive : Reordered wire live) : ∃ snapshot', toSnapshot text live = .ok snapshot' := by
  have hwire := toSnapshot_isOk_iff.1 ⟨snapshot, h⟩
  rw [toSnapshot_isOk_iff, hlive.rest]
  exact hwire

theorem reads_of_toSnapshot (h : toSnapshot text wire = .ok snapshot) : Reads wire snapshot := by
  obtain ⟨flag, -, h⟩ := Lib.bind_eq_ok h
  obtain ⟨state, hstate, h⟩ := Lib.bind_eq_ok h
  cases h
  refine ⟨rfl, rfl, rfl, rfl, ?_, rfl⟩
  unfold parseCleared at hstate
  split at hstate
  · rename_i value hvalue
    cases hstate
    exact ClearedState.ofValue_reconciled hvalue
  · cases hstate

theorem Reads.toTarget (h : Reads wire snapshot) : toTarget snapshot = wire.endState := by
  unfold YnabAgent.toTarget WireTransaction.endState
  simp only [h.categoryId, h.memo, h.approved, h.subtransactions]

/-- The end-state a snapshot yields is its transaction's own. -/
theorem toTarget_of_toSnapshot (h : toSnapshot text wire = .ok snapshot) :
    YnabAgent.toTarget snapshot = wire.endState :=
  (reads_of_toSnapshot h).toTarget

/-- The read-back of a transaction that is there is its end-state. -/
theorem readBack_of_toSnapshot {backend : YnabBackend} {txnId : String}
    (hfind : backend.find txnId = some wire) (hdeleted : wire.deleted = false)
    (h : toSnapshot text wire = .ok snapshot) :
    backend.readBack text txnId = .ok wire.endState := by
  unfold YnabBackend.readBack YnabBackend.snapshot
  rw [hfind]
  simp only [hdeleted, Bool.false_eq_true, ↓reduceIte, h]
  rw [← toTarget_of_toSnapshot h]
  rfl

/-- A read-back that found an end-state read a transaction that is there. -/
theorem readBack_eq_some {backend : YnabBackend} {txnId : String} {read : TargetState}
    (hfind : backend.find txnId = some wire)
    (h : backend.readBack text txnId = .ok (some read)) :
    wire.deleted = false ∧ (∃ snapshot, toSnapshot text wire = .ok snapshot) ∧
      wire.endState = some read := by
  obtain ⟨snapshot?, hsnapshot, hbind⟩ := Lib.map_eq_ok h
  unfold YnabBackend.snapshot at hsnapshot
  rw [hfind] at hsnapshot
  simp only at hsnapshot
  split at hsnapshot
  · cases hsnapshot; cases hbind
  · rename_i hdeleted
    obtain ⟨snapshot, hread, rfl⟩ := Lib.map_eq_ok hsnapshot
    rw [Option.bind_some, toTarget_of_toSnapshot hread] at hbind
    exact ⟨by simpa using hdeleted, ⟨snapshot, hread⟩, hbind⟩

end reads

/-! ## Lines written and read back -/

/-- A line without the person it is tagged with. -/
def ResolvedSplitLine.untagged (line : ResolvedSplitLine) : ResolvedSplitLine :=
  { line with personTag := none }

/-- The lines of a split as they are read back: those without a category are skipped, and no line
keeps its person. -/
theorem toSplitLines_created (lines : List ResolvedSplitLine) :
    toSplitLines (lines.map fun line => line.toPatch.created)
      = (lines.filter fun line => line.category ≠ "").map ResolvedSplitLine.untagged := by
  induction lines with
  | nil => rfl
  | cons line lines ih =>
    unfold toSplitLines at ih ⊢
    obtain ⟨category, amount, memo, personTag⟩ := line
    by_cases h : category = ""
    · subst h
      rw [List.map_cons, List.filterMap_cons_none (by rfl), ih,
        List.filter_cons_of_neg (by simp)]
    · rw [List.map_cons, List.filter_cons_of_pos (by simpa using h), List.map_cons, ← ih]
      refine List.filterMap_cons_some ?_
      simp only [SubtransactionPatch.created, ResolvedSplitLine.toPatch, presentText_of_ne h]
      rfl

theorem toSplitLines_perm {subs subs' : List WireSubtransaction} (h : subs'.Perm subs) :
    (toSplitLines subs').Perm (toSplitLines subs) :=
  h.filterMap _

end YnabAgent
