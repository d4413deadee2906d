import YnabAgent.Domain.Values

/-!
# Receipts

A forwarded receipt as parsed facts, and the texts made of it (`domain/receipt.py`): the line items
as a short list, the one-line summary, and the memo after the receipt is folded in.
-/

namespace YnabAgent

structure ReceiptLineItem where
  description : String
  amount : Option Money := none
  quantity : Option Int := none
  deriving DecidableEq

structure Receipt where
  id : ReceiptId
  parkedAt : Datetime
  merchant : Option String := none
  date : Option Date := none
  total : Option Money := none
  lineItems : List ReceiptLineItem := []
  splitNotes : Option String := none
  status : ReceiptStatus := .parked
  sourceMessageId : Option MessageId := none
  sourceThreadId : Option ThreadId := none
  deriving DecidableEq

/-- How many line items a summary names before it collapses to `+N more`. -/
def summaryItems : Nat := 3

/-- The memo-merge length cap. -/
def memoCap : Nat := 200

section texts
variable (text : PyText)

/-- The line items as a short human list; `none` when every description is blank. -/
def itemsBrief (receipt : Receipt) : Option String :=
  let names := (receipt.lineItems.map fun item => text.strip item.description).filter (· ≠ "")
  if names = [] then none
  else
    let shown := joinText ", " (names.take summaryItems)
    if summaryItems < names.length then
      some (shown ++ " (+" ++ toString (names.length - summaryItems) ++ " more)")
    else some shown

/-- One human line for the receipt: merchant, total and items. -/
def receiptSummary (receipt : Receipt) : String :=
  let parts := [receipt.merchant.getD "", (receipt.total.map Money.display).getD ""]
  let head := joinText " — " (parts.filter (· ≠ ""))
  match itemsBrief text receipt with
  | some items => if head ≠ "" then head ++ " (" ++ items ++ ")" else items
  | none => if head ≠ "" then head else "a forwarded receipt"

/-- The memo after folding the receipt's detail in: kept, appended to once, and capped. -/
def receiptMemo (receipt : Receipt) (currentMemo : Option String) : String :=
  let detail := (itemsBrief text receipt).getD (receiptSummary text receipt)
  let current := text.strip (currentMemo.getD "")
  let merged :=
    if current = "" then detail
    else if isInText (text.lower detail) (text.lower current) then current
    else current ++ " · " ++ detail
  textPrefix memoCap merged

end texts

end YnabAgent
