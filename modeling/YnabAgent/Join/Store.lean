import YnabAgent.Lib.Basic
import YnabAgent.Domain.Receipt
import Mathlib.Data.List.Sort

/-!
# The parked-receipt store

The bounded table of receipts the join remembers (`join/store.py`): `park` adds a receipt once,
`setStatus` moves one through the join's statuses, and a full table loses its oldest settled
receipts first.
-/

namespace YnabAgent

def ledgerCap : Nat := 100

/-- The statuses a re-check still acts on. -/
def ReceiptStatus.isOpen : ReceiptStatus → Bool
  | .parked | .asked => true
  | .matched | .expired => false

structure ReceiptLedgerState where
  receipts : List Receipt := []
  deriving DecidableEq

/-- The table capped, settled receipts leaving first, the oldest before the newer. -/
def bounded (table : List Receipt) : List Receipt :=
  if table.length ≤ ledgerCap then table
  else
    let overflow := table.length - ledgerCap
    let terminalOldestFirst :=
      (table.filter fun r => ¬ r.status.isOpen).insertionSort fun a b => a.parkedAt ≤ b.parkedAt
    let drop := (terminalOldestFirst.take overflow).map Receipt.id
    let kept := table.filter fun r => r.id ∉ drop
    kept.drop (kept.length - ledgerCap)

namespace ReceiptLedgerState

def get (state : ReceiptLedgerState) (receiptId : ReceiptId) : Option Receipt :=
  Lib.lookup Receipt.id receiptId state.receipts

/-- Add a receipt; a known id is left untouched. -/
def park (state : ReceiptLedgerState) (receipt : Receipt) : ReceiptLedgerState :=
  if state.receipts.any (·.id = receipt.id) then state
  else { receipts := bounded (state.receipts ++ [receipt]) }

/-- Move one receipt to `status`; an unknown id is a no-op. -/
def setStatus (state : ReceiptLedgerState) (receiptId : ReceiptId) (status : ReceiptStatus) :
    ReceiptLedgerState :=
  { receipts := Lib.updateAt Receipt.id receiptId ({ · with status }) state.receipts }

def openReceipts (state : ReceiptLedgerState) : List Receipt :=
  state.receipts.filter (·.status.isOpen)

def ids (state : ReceiptLedgerState) : List ReceiptId :=
  state.receipts.map Receipt.id

/-- The status under a receipt id, while the table has it. -/
def status? (state : ReceiptLedgerState) (receiptId : ReceiptId) : Option ReceiptStatus :=
  (state.get receiptId).map Receipt.status

variable {state : ReceiptLedgerState} {receiptId : ReceiptId} {status : ReceiptStatus}

theorem get_setStatus_self : (state.setStatus receiptId status).get receiptId =
    (state.get receiptId).map ({ · with status }) :=
  Lib.lookup_updateAt_self fun _ h => h

theorem get_setStatus_of_ne {id : ReceiptId} (h : id ≠ receiptId) :
    (state.setStatus receiptId status).get id = state.get id :=
  Lib.lookup_updateAt_of_ne h fun _ h => h

theorem status?_setStatus_self :
    (state.setStatus receiptId status).status? receiptId =
      (state.status? receiptId).map fun _ => status := by
  unfold status?
  rw [get_setStatus_self, Option.map_map, Option.map_map]
  rfl

theorem status?_setStatus_of_ne {id : ReceiptId} (h : id ≠ receiptId) :
    (state.setStatus receiptId status).status? id = state.status? id := by
  unfold status?
  rw [get_setStatus_of_ne h]

theorem setStatus_ids : (state.setStatus receiptId status).ids = state.ids :=
  Lib.map_key_updateAt fun _ h => h

theorem bounded_sublist (table : List Receipt) : (bounded table).Sublist table := by
  unfold bounded
  split
  · exact List.Sublist.refl _
  · exact (List.drop_sublist _ _).trans List.filter_sublist

theorem get_eq_none_iff : state.get receiptId = none ↔ receiptId ∉ state.ids := by
  unfold get ids
  constructor
  · intro h hmem
    obtain ⟨r, hr, hid⟩ := List.mem_map.1 hmem
    exact Lib.not_mem_of_lookup h r hr hid
  · intro h
    cases hl : Lib.lookup Receipt.id receiptId state.receipts with
    | none => rfl
    | some r =>
      obtain ⟨hr, hid⟩ := Lib.mem_of_lookup hl
      exact absurd (List.mem_map.2 ⟨r, hr, hid⟩) h

theorem status?_eq_none_iff : state.status? receiptId = none ↔ receiptId ∉ state.ids := by
  rw [← get_eq_none_iff]
  exact Option.map_eq_none_iff

theorem park_of_mem {receipt : Receipt} (h : receipt.id ∈ state.ids) :
    state.park receipt = state := by
  obtain ⟨r, hr, hid⟩ := List.mem_map.1 h
  exact if_pos (List.any_eq_true.2 ⟨r, hr, by simpa using hid⟩)

theorem park_of_not_mem {receipt : Receipt} (h : receipt.id ∉ state.ids) :
    state.park receipt = { receipts := bounded (state.receipts ++ [receipt]) } := by
  refine if_neg fun hany => ?_
  obtain ⟨r, hr, hid⟩ := List.any_eq_true.1 hany
  exact h (List.mem_map.2 ⟨r, hr, by simpa using hid⟩)

theorem nodup_append {receipt : Receipt} (hnd : state.ids.Nodup) (h : receipt.id ∉ state.ids) :
    ((state.receipts ++ [receipt]).map Receipt.id).Nodup := by
  rw [List.map_append, List.nodup_append]
  refine ⟨hnd, List.nodup_singleton _, ?_⟩
  intro a ha b hb heq
  rw [heq, List.mem_singleton.1 hb] at ha
  exact h ha

theorem park_ids_nodup (hnd : state.ids.Nodup) (receipt : Receipt) :
    (state.park receipt).ids.Nodup := by
  by_cases h : receipt.id ∈ state.ids
  · rw [park_of_mem h]; exact hnd
  · rw [park_of_not_mem h]
    exact Lib.nodup_of_sublist (bounded_sublist _) (nodup_append hnd h)

/-- Adding a receipt drops other receipts or leaves them. -/
theorem status?_park_of_ne (hnd : state.ids.Nodup) {receipt : Receipt} {id : ReceiptId}
    (hne : id ≠ receipt.id) :
    (state.park receipt).status? id = none ∨
      (state.park receipt).status? id = state.status? id := by
  by_cases h : receipt.id ∈ state.ids
  · rw [park_of_mem h]; exact .inr rfl
  · have happend : Lib.lookup Receipt.id id (state.receipts ++ [receipt]) =
        Lib.lookup Receipt.id id state.receipts := by
      unfold Lib.lookup
      rw [List.find?_append, List.find?_cons_of_neg (by simpa using Ne.symm hne), List.find?_nil,
        Option.or_none]
    rw [park_of_not_mem h]
    unfold status? get
    rcases Lib.lookup_sublist (bounded_sublist (state.receipts ++ [receipt]))
      (nodup_append hnd h) id with hnone | hsame
    · left; rw [hnone]; rfl
    · right; rw [hsame, happend]

/-- A receipt added under a new id is found with its own status, if at all. -/
theorem status?_park_self (hnd : state.ids.Nodup) {receipt : Receipt}
    (h : receipt.id ∉ state.ids) :
    (state.park receipt).status? receipt.id = none ∨
      (state.park receipt).status? receipt.id = some receipt.status := by
  have hmem : receipt ∈ state.receipts ++ [receipt] :=
    List.mem_append_right _ (List.mem_singleton.2 rfl)
  rw [park_of_not_mem h]
  unfold status? get
  rcases Lib.lookup_sublist (bounded_sublist (state.receipts ++ [receipt]))
    (nodup_append hnd h) receipt.id with hnone | hsame
  · left; rw [hnone]; rfl
  · right; rw [hsame, Lib.lookup_of_mem (nodup_append hnd h) hmem rfl]; rfl

end ReceiptLedgerState

end YnabAgent
