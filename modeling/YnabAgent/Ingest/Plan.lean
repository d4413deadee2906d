import Mathlib.Data.Finset.Basic
import YnabAgent.Workflow.Events

/-!
# What the poll addresses

Each tick of the poll reads the unapproved transactions and plans which of them to address
(`ingest/plan.py`, `ingest/scope.py`). Approval is looked at here, and nowhere later.
-/

namespace YnabAgent

/-- The account subset and the install cutover that bound ingestion. -/
structure IngestScope where
  installDate : Date
  accountIds : Option (Finset AccountId) := none

def inScope (snapshot : YnabSnapshot) (scope : IngestScope) : Bool :=
  if snapshot.txnDate < scope.installDate then false
  else
    match scope.accountIds with
    | none => true
    | some accounts => decide (snapshot.account ∈ accounts)

/-- A decision to address the workflow of a transaction. -/
structure AddressTxn where
  snapshot : YnabSnapshot
  routeToHuman : Bool := false
  notifyExisting : Bool := false

def isDuplicateImport (snapshot : YnabSnapshot) : Bool := snapshot.isMatchedImport

section plan
variable (text : PyText)

/-- Whether an Amazon hold can now resolve. -/
def memoBackfilled (snapshot : YnabSnapshot) : Bool :=
  isAmazon text snapshot.payee && snapshot.hasMemo text

def planIngest (snapshots : List YnabSnapshot) (scope : IngestScope) (coldStart : Bool) :
    List AddressTxn :=
  if coldStart then []
  else
    (snapshots.filter fun snap => inScope snap scope && !snap.approved).map fun snap =>
      { snapshot := snap
        routeToHuman := isDuplicateImport snap
        notifyExisting := memoBackfilled text snap }

variable {text} {snapshots : List YnabSnapshot} {scope : IngestScope} {coldStart : Bool}

/-- Only what is in scope and unapproved is addressed, and all of it past the cold start. -/
theorem mem_planIngest {action : AddressTxn} :
    action ∈ planIngest text snapshots scope coldStart ↔
      coldStart = false ∧ action.snapshot ∈ snapshots ∧ inScope action.snapshot scope = true ∧
        action.snapshot.approved = false ∧
        action = { snapshot := action.snapshot
                   routeToHuman := isDuplicateImport action.snapshot
                   notifyExisting := memoBackfilled text action.snapshot } := by
  unfold planIngest
  cases coldStart with
  | true => simp
  | false =>
    simp only [Bool.false_eq_true, if_false, List.mem_map, List.mem_filter, Bool.and_eq_true,
      Bool.not_eq_true', true_and]
    constructor
    · rintro ⟨snap, ⟨hmem, hscope, happroved⟩, rfl⟩
      exact ⟨hmem, hscope, happroved, rfl⟩
    · rintro ⟨hmem, hscope, happroved, haction⟩
      exact ⟨action.snapshot, ⟨hmem, hscope, happroved⟩, haction.symm⟩

end plan

end YnabAgent
