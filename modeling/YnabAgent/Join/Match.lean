import YnabAgent.Domain.Receipt

/-!
# The spine of the receipt join

`planJoin` decides the single action a join takes on its copy of the receipt, given the model's
verdict and the time, and `resultingStatus` the status saved after it (`join/match.py`).
-/

namespace YnabAgent

/-- A parked receipt that never matches is aged out after this. -/
def defaultReceiptTtl : Timedelta := Timedelta.days 30

/-- An ambiguous match means the model found at least this many plausible transactions. -/
def minCandidates : Nat := 2

/-- The candidates of an ambiguous match. -/
structure Candidates where
  ids : List YnabTransactionId
  several : minCandidates ≤ ids.length
  deriving DecidableEq

/-- The model's verdict. -/
inductive MatchOutcome
  | confident (txnId : YnabTransactionId)
  | ambiguous (candidates : Candidates)
  | noMatch
  deriving DecidableEq

/-- What the join does. -/
inductive JoinAction
  | signalTransaction (txnId : YnabTransactionId) (receiptId : ReceiptId)
  | askDisambiguation (receiptId : ReceiptId) (candidates : Candidates)
  | askNoMatch (receiptId : ReceiptId)
  | park (reason : String)
  | doNothing (reason : String)
  deriving DecidableEq

/-- The one action for a receipt; a receipt already matched or aged out is left alone. -/
def planJoin (receipt : Receipt) (outcome : MatchOutcome) (now : Datetime)
    (ttl : Timedelta := defaultReceiptTtl) : JoinAction :=
  match receipt.status with
  | .matched => .doNothing "already matched"
  | .expired => .doNothing "already aged out"
  | status =>
    let expired := ttl < now - receipt.parkedAt
    match outcome with
    | .confident txnId => .signalTransaction txnId receipt.id
    | .ambiguous candidates =>
      if status = .asked then
        if expired then .askNoMatch receipt.id
        else .doNothing "disambiguation already asked"
      else .askDisambiguation receipt.id candidates
    | .noMatch => if expired then .askNoMatch receipt.id else .park "no match yet"

/-- The receipt's status after the action; `none` where it stays. -/
def resultingStatus : JoinAction → Option ReceiptStatus
  | .signalTransaction _ _ => some .matched
  | .askDisambiguation _ _ => some .asked
  | .askNoMatch _ => some .expired
  | .park _ | .doNothing _ => none

/-- The receipt an action is about, where it has an effect. -/
def JoinAction.receiptId? : JoinAction → Option ReceiptId
  | .signalTransaction _ receiptId => some receiptId
  | .askDisambiguation receiptId _ => some receiptId
  | .askNoMatch receiptId => some receiptId
  | .park _ | .doNothing _ => none

/-- A planned effect is about the receipt at hand. -/
theorem planJoin_receiptId {receipt : Receipt} {outcome : MatchOutcome} {now : Datetime}
    {ttl : Timedelta} {status : ReceiptStatus}
    (h : resultingStatus (planJoin receipt outcome now ttl) = some status) :
    (planJoin receipt outcome now ttl).receiptId? = some receipt.id := by
  revert h
  unfold planJoin
  split
  · intro h; cases h
  · intro h; cases h
  · cases outcome with
    | confident txnId => intro _; rfl
    | ambiguous candidates =>
      simp only
      split
      · split
        · intro _; rfl
        · intro h; cases h
      · intro _; rfl
    | noMatch =>
      simp only
      split
      · intro _; rfl
      · intro h; cases h

end YnabAgent
