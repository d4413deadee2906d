import Mathlib.Data.List.Count
import YnabAgent.Domain.Values

/-!
# The alert ledger

The recent alerts and the two rules they are kept for (`alert/ledger.py`): a key stays quiet for a
cooldown after an alert, and no more than a few alerts fire in a rolling window.
-/

namespace YnabAgent

def defaultCooldown : Timedelta := Timedelta.hours 24

def defaultRateWindow : Timedelta := Timedelta.hours 1

def defaultRateCap : Nat := 5

/-- An alert that fired, and when its record was folded in. -/
structure AlertEntry where
  key : String
  «at» : Datetime
  deriving DecidableEq

structure LedgerState where
  entries : List AlertEntry := []
  deriving DecidableEq

namespace LedgerState

/-- The alerts of the window that ends now. -/
def recent (state : LedgerState) (now : Datetime) (rateWindow : Timedelta) : Nat :=
  state.entries.countP fun entry => decide (now - entry.at < rateWindow)

def shouldNotify (state : LedgerState) (key : String) (now : Datetime)
    (cooldown rateWindow : Timedelta) (rateCap : Nat) : Bool :=
  if state.entries.any fun entry => decide (entry.key = key ∧ now - entry.at < cooldown) then false
  else decide (state.recent now rateWindow < rateCap)

/-- Append the alert, and prune what is older than the retention. -/
def record (state : LedgerState) (key : String) (now : Datetime) (retention : Timedelta) :
    LedgerState where
  entries := (state.entries.filter fun entry => decide (now - entry.at < retention)) ++ [⟨key, now⟩]

variable {state : LedgerState} {key : String} {now : Datetime} {cooldown rateWindow : Timedelta}
  {rateCap : Nat}

theorem shouldNotify_iff : state.shouldNotify key now cooldown rateWindow rateCap = true ↔
    (∀ entry ∈ state.entries, entry.key = key → cooldown ≤ now - entry.at) ∧
      state.recent now rateWindow < rateCap := by
  unfold shouldNotify
  split
  · rename_i hany
    obtain ⟨entry, hmem, hentry⟩ := List.any_eq_true.1 hany
    obtain ⟨hkey, hlt⟩ := of_decide_eq_true hentry
    refine ⟨nofun, ?_⟩
    rintro ⟨hquiet, -⟩
    exact absurd hlt (Int.not_lt.2 (hquiet entry hmem hkey))
  · rename_i hnone
    rw [decide_eq_true_eq]
    refine ⟨fun hcap => ⟨?_, hcap⟩, fun h => h.2⟩
    intro entry hmem hkey
    by_contra hlt
    exact hnone (List.any_eq_true.2 ⟨entry, hmem, decide_eq_true ⟨hkey, Int.not_le.1 hlt⟩⟩)

/-- **A record loses nothing that is retained.** -/
theorem countP_record (state : LedgerState) (key : String) (now : Datetime) {retention : Timedelta}
    {p : AlertEntry → Bool} (hp : ∀ entry, p entry = true → now - entry.at < retention) :
    (state.record key now retention).entries.countP p =
      state.entries.countP p + if p ⟨key, now⟩ then 1 else 0 := by
  unfold record
  rw [List.countP_append, List.countP_filter, List.countP_singleton]
  congr 1
  refine List.countP_congr fun entry _ => ?_
  constructor
  · intro h
    exact (Bool.and_eq_true_iff.1 h).1
  · intro h
    exact Bool.and_eq_true_iff.2 ⟨h, decide_eq_true (hp entry h)⟩

end LedgerState

end YnabAgent
