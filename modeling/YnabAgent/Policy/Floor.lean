import YnabAgent.Domain.Values

/-!
# The hard floor and the auto-action ledger

The deterministic limits on auto-actions (`policy/floor.py`) and the pruned tail of recent
auto-actions their counters are read from (`policy/auto_action_ledger.py`).
-/

namespace YnabAgent

/-! ## The floor -/

inductive FloorVerdict
  | allow | forceHuman | tripBreaker
  deriving DecidableEq, Repr

def FloorVerdict.value : FloorVerdict → String
  | .allow => "allow"
  | .forceHuman => "force_human"
  | .tripBreaker => "trip_breaker"

structure FloorPolicy where
  perTxnCeiling : Money := Money.ofUnits 75
  perRunCap : Nat := 8
  perDayCap : Nat := 20
  perMoveCeiling : Money := Money.ofUnits 500
  movesPerDayCap : Nat := 10

def cautiousFloor : FloorPolicy := {}

structure AutoActionCounters where
  thisRun : Nat := 0
  today : Nat := 0
  deriving DecidableEq, Repr

/-- An unreadable or over-ceiling amount goes to a human before the breaker is consulted. -/
def checkFloor (amount : Option Money) (counters : AutoActionCounters) (policy : FloorPolicy) :
    FloorVerdict :=
  match amount with
  | none => .forceHuman
  | some amount =>
    if policy.perTxnCeiling < amount.abs then .forceHuman
    else if policy.perRunCap ≤ counters.thisRun ∨ policy.perDayCap ≤ counters.today then
      .tripBreaker
    else .allow

/-- The floor allows only what stays under both caps. -/
theorem lt_of_checkFloor_allow {amount : Option Money} {counters : AutoActionCounters}
    {policy : FloorPolicy} (h : checkFloor amount counters policy = .allow) :
    counters.thisRun < policy.perRunCap ∧ counters.today < policy.perDayCap := by
  unfold checkFloor at h
  split at h
  · cases h
  · split at h
    · cases h
    · split at h
      · cases h
      · rename_i hcap
        exact ⟨Nat.lt_of_not_le fun hr => hcap (.inl hr), Nat.lt_of_not_le fun hd => hcap (.inr hd)⟩

/-! ## The ledger -/

def runWindow : Timedelta := Timedelta.hours 1

def dayWindow : Timedelta := Timedelta.hours 24

/-- One auto-action that landed. -/
structure AutoActionEntry where
  ynabId : String
  «at» : Datetime
  deriving DecidableEq, Repr

structure AutoActionLedgerState where
  entries : List AutoActionEntry := []
  deriving DecidableEq, Repr

namespace AutoActionLedgerState

/-- Record an auto-action; an older entry of the same transaction and what is past the retention
are dropped. -/
def record (state : AutoActionLedgerState) (ynabId : String) (now : Datetime) :
    AutoActionLedgerState :=
  let kept := state.entries.filter fun entry => entry.ynabId ≠ ynabId ∧ now - entry.at < dayWindow
  { entries := kept ++ [{ ynabId, «at» := now }] }

/-- How many entries lie within `window` before `now`. -/
def countWithin (state : AutoActionLedgerState) (now : Datetime) (window : Timedelta) : Nat :=
  state.entries.countP fun entry => now - entry.at < window

def counters (state : AutoActionLedgerState) (now : Datetime) : AutoActionCounters :=
  { thisRun := state.countWithin now runWindow, today := state.countWithin now dayWindow }

end AutoActionLedgerState

end YnabAgent
