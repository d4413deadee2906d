import YnabAgent.Policy.Converge

/-!
# Reading YNAB

The wire transaction and its mapping onto the domain snapshot and the end-state a read-back yields
(`ynab/wire.py`, `ynab/client.py`). The day of a wire transaction is taken as parsed.
-/

namespace YnabAgent

/-- An exception an activity body raises: its type name, which the retry policy reads, and text. -/
structure ActivityFailure where
  typeName : String
  message : String
  deriving DecidableEq, Repr

structure WireSubtransaction where
  amount : Int
  categoryId : Option String := none
  memo : Option String := none
  deleted : Bool := false
  deriving DecidableEq

structure WireTransaction where
  id : String
  accountId : String
  date : Date
  amount : Int
  approved : Bool
  deleted : Bool := false
  memo : Option String := none
  cleared : String := "uncleared"
  flagColor : Option String := none
  payeeId : Option String := none
  payeeName : Option String := none
  categoryId : Option String := none
  importId : Option String := none
  matchedTransactionId : Option String := none
  subtransactions : List WireSubtransaction := []
  deriving DecidableEq

/-- `value if value else None`: an empty string counts as absent. -/
def presentText : Option String → Option String
  | some "" => none
  | value => value

theorem presentText_of_ne {value : String} (h : value ≠ "") :
    presentText (some value) = some value := by
  unfold presentText
  split
  · rename_i heq; exact absurd (Option.some.inj heq) h
  · rfl

/-- The live, categorized lines; a deleted or uncategorized line is skipped. -/
def toSplitLines (subs : List WireSubtransaction) : List ResolvedSplitLine :=
  subs.filterMap fun sub =>
    match sub.deleted, presentText sub.categoryId with
    | false, some category => some { category, amount := ⟨sub.amount⟩, memo := sub.memo }
    | _, _ => none

def FlagColor.ofValue : String → Option FlagColor
  | "red" => some .red
  | "orange" => some .orange
  | "yellow" => some .yellow
  | "green" => some .green
  | "blue" => some .blue
  | "purple" => some .purple
  | _ => none

def ClearedState.ofValue : String → Option ClearedState
  | "uncleared" => some .uncleared
  | "cleared" => some .cleared
  | "reconciled" => some .reconciled
  | _ => none

def parseFlag (text : PyText) (value : Option String) :
    Except ActivityFailure (Option FlagColor) :=
  match presentText value with
  | none => .ok none
  | some value =>
    match FlagColor.ofValue value with
    | some flag => .ok (some flag)
    | none => .error ⟨"ValueError", text.repr value ++ " is not a valid FlagColor"⟩

def parseCleared (text : PyText) (value : String) : Except ActivityFailure ClearedState :=
  match ClearedState.ofValue value with
  | some cleared => .ok cleared
  | none => .error ⟨"ValueError", text.repr value ++ " is not a valid ClearedState"⟩

def toSnapshot (text : PyText) (wire : WireTransaction) : Except ActivityFailure YnabSnapshot := do
  let flag ← parseFlag text wire.flagColor
  let cleared ← parseCleared text wire.cleared
  pure
    { ynabId := wire.id
      account := wire.accountId
      payee := wire.payeeName.getD ""
      payeeId := presentText wire.payeeId
      amount := ⟨wire.amount⟩
      txnDate := wire.date
      memo := wire.memo
      flag
      categoryId := presentText wire.categoryId
      cleared
      approved := wire.approved
      importId := presentText wire.importId
      matchedTransactionId := presentText wire.matchedTransactionId
      subtransactions := toSplitLines wire.subtransactions }

/-- The read-back end-state; `none` only for an uncategorized transaction. -/
def toTarget (snapshot : YnabSnapshot) : Option TargetState :=
  if h : 1 < snapshot.subtransactions.length then
    some { allocation := .split ⟨snapshot.subtransactions, h⟩, memo := snapshot.memo,
           approved := snapshot.approved }
  else
    snapshot.categoryId.map fun category =>
      { allocation := .category category none, memo := snapshot.memo,
        approved := snapshot.approved }

/-- The YNAB reads the client makes of a transaction. -/
structure YnabBackend where
  getTransaction : String → Option WireTransaction
  listTransactions : List WireTransaction

/-- The single read, or on a miss the scan of the transactions list. -/
def YnabBackend.find (backend : YnabBackend) (txnId : String) : Option WireTransaction :=
  match backend.getTransaction txnId with
  | some wire => some wire
  | none => backend.listTransactions.find? fun wire => wire.id = txnId

def YnabBackend.snapshot (text : PyText) (backend : YnabBackend) (txnId : String) :
    Except ActivityFailure (Option YnabSnapshot) :=
  match backend.find txnId with
  | none => .ok none
  | some wire => if wire.deleted then .ok none else some <$> toSnapshot text wire

def YnabBackend.readBack (text : PyText) (backend : YnabBackend) (txnId : String) :
    Except ActivityFailure (Option TargetState) :=
  (fun snapshot? => snapshot?.bind toTarget) <$> backend.snapshot text txnId

end YnabAgent
