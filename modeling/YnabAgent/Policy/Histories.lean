import YnabAgent.Alert.Ledger
import YnabAgent.Lib.Window
import YnabAgent.Policy.Floor

/-!
# The ledgers against their histories

The auto-action ledger and the alert ledger are each pruned at every record. What they answer is
what the whole history of records would: the counters of the circuit breaker count each transaction
once, at its latest auto-action, and an alert is let through as if no alert had ever been forgotten.
-/

namespace YnabAgent

/-! ## Auto-actions -/

/-- The ledger after a history of auto-actions. -/
def AutoActionLedgerState.replay (history : List AutoActionEntry) : AutoActionLedgerState :=
  history.foldl (fun state entry => state.record entry.ynabId entry.at) {}

/-- The counters of the whole history, each transaction counted once at its latest auto-action. -/
def AutoActionCounters.ofHistory (history : List AutoActionEntry) (now : Datetime) :
    AutoActionCounters where
  thisRun := Lib.countLatest AutoActionEntry.ynabId AutoActionEntry.at history
    fun time => decide (now - time < runWindow)
  today := Lib.countLatest AutoActionEntry.ynabId AutoActionEntry.at history
    fun time => decide (now - time < dayWindow)

theorem AutoActionLedgerState.replay_entries (history : List AutoActionEntry) :
    (replay history).entries = Lib.replayPruned AutoActionEntry.at
      (Lib.sameKey AutoActionEntry.ynabId) dayWindow history := by
  induction history using List.reverseRecOn with
  | nil => rfl
  | append_singleton history entry ih =>
    have hstep : (replay (history ++ [entry])).entries =
        ((replay history).record entry.ynabId entry.at).entries := by
      unfold replay
      rw [List.foldl_append]
      rfl
    rw [hstep, Lib.replayPruned_concat, ← ih]
    unfold record Lib.sameKey
    simp only [Bool.decide_and, decide_not]

/-- A window within the day counts the same in the pruned ledger and the whole history. -/
theorem AutoActionLedgerState.countWithin_replay {history : List AutoActionEntry} {now : Datetime}
    (hsorted : history.Pairwise fun a b => a.at ≤ b.at) (hnow : ∀ entry ∈ history, entry.at ≤ now)
    {window : Timedelta} (hwindow : window ≤ dayWindow) :
    (replay history).countWithin now window =
      Lib.countLatest AutoActionEntry.ynabId AutoActionEntry.at history
        fun time => decide (now - time < window) := by
  have hwithin : ∀ entry : AutoActionEntry, decide (now - entry.at < window) = true →
      now - entry.at < dayWindow := by
    intro entry h
    exact Int.lt_of_lt_of_le (of_decide_eq_true h) hwindow
  unfold countWithin
  rw [replay_entries, Lib.countP_replayPruned hnow hwithin]
  exact Lib.countP_replay AutoActionEntry.ynabId hsorted fun time => decide (now - time < window)

/-! ## Alerts -/

namespace LedgerState

/-- The ledger after a history of alerts. -/
def replay (history : List AlertEntry) (retention : Timedelta) : LedgerState :=
  history.foldl (fun state entry => state.record entry.key entry.at retention) {}

theorem replay_entries (history : List AlertEntry) (retention : Timedelta) :
    (replay history retention).entries =
      Lib.replayPruned AlertEntry.at (fun _ _ => false) retention history := by
  induction history using List.reverseRecOn with
  | nil => rfl
  | append_singleton history entry ih =>
    have hstep : (replay (history ++ [entry]) retention).entries =
        ((replay history retention).record entry.key entry.at retention).entries := by
      unfold replay
      rw [List.foldl_append]
      rfl
    rw [hstep, Lib.replayPruned_concat, ← ih]
    unfold record
    simp only [Bool.not_false, Bool.true_and]

variable {history : List AlertEntry} {now : Datetime} {cooldown rateWindow retention : Timedelta}

/-- With a cooldown and a rate window within the retention, the pruned ledger lets an alert through
exactly where the whole history does. -/
theorem shouldNotify_replay (hnow : ∀ entry ∈ history, entry.at ≤ now)
    (hcooldown : cooldown ≤ retention) (hwindow : rateWindow ≤ retention) (key : String)
    (rateCap : Nat) :
    (replay history retention).shouldNotify key now cooldown rateWindow rateCap =
      (⟨history⟩ : LedgerState).shouldNotify key now cooldown rateWindow rateCap := by
  have hall : Lib.replay (fun _ _ : AlertEntry => false) history = history :=
    Lib.replay_of_never _ (fun _ _ => rfl) history
  have hquiet : ∀ entry : AlertEntry,
      decide (entry.key = key ∧ now - entry.at < cooldown) = true → now - entry.at < retention := by
    intro entry h
    exact Int.lt_of_lt_of_le (of_decide_eq_true h).2 hcooldown
  have hrecent : ∀ entry : AlertEntry, decide (now - entry.at < rateWindow) = true →
      now - entry.at < retention := by
    intro entry h
    exact Int.lt_of_lt_of_le (of_decide_eq_true h) hwindow
  unfold shouldNotify recent
  rw [replay_entries, Lib.any_replayPruned hnow hquiet, Lib.countP_replayPruned hnow hrecent, hall]

end LedgerState

/-! ## Both -/

/-- **Pruning forgets nothing that is asked for.** After any history of auto-actions in time order
the pruned ledger's counters are the whole history's, each transaction counted once at its latest
auto-action; and after any history of alerts the pruned ledger lets an alert through exactly where
the whole history does; at every time from the last record on. -/
theorem ledgers_answer_as_histories :
    (∀ (history : List AutoActionEntry) (now : Datetime),
      history.Pairwise (fun a b => a.at ≤ b.at) → (∀ entry ∈ history, entry.at ≤ now) →
        (AutoActionLedgerState.replay history).counters now =
          AutoActionCounters.ofHistory history now) ∧
    ∀ (history : List AlertEntry) (now : Datetime) (key : String),
      history.Pairwise (fun a b => a.at ≤ b.at) → (∀ entry ∈ history, entry.at ≤ now) →
        (LedgerState.replay history defaultCooldown).shouldNotify key now defaultCooldown
            defaultRateWindow defaultRateCap =
          (⟨history⟩ : LedgerState).shouldNotify key now defaultCooldown defaultRateWindow
            defaultRateCap := by
  constructor
  · intro history now hsorted hnow
    have hrun : runWindow ≤ dayWindow := by decide
    unfold AutoActionLedgerState.counters AutoActionCounters.ofHistory
    rw [AutoActionLedgerState.countWithin_replay hsorted hnow hrun,
      AutoActionLedgerState.countWithin_replay hsorted hnow (Int.le_refl _)]
  · intro history now key _ hnow
    have hwindow : defaultRateWindow ≤ defaultCooldown := by decide
    exact LedgerState.shouldNotify_replay hnow (Int.le_refl _) hwindow key _

/-- A transaction acted on twice within the hour is counted once, and the alert of a day ago is
forgotten. -/
theorem ledgers_answer_as_histories_reruns :
    ((AutoActionLedgerState.replay [⟨"t1", 0⟩, ⟨"t2", 5⟩, ⟨"t1", 9⟩]).counters 10 =
      AutoActionCounters.ofHistory [⟨"t1", 0⟩, ⟨"t2", 5⟩, ⟨"t1", 9⟩] 10) ∧
    (LedgerState.replay [⟨"t1", 0⟩, ⟨"t1", Timedelta.hours 25⟩] defaultCooldown).shouldNotify "t1"
        (Timedelta.hours 26) defaultCooldown defaultRateWindow defaultRateCap =
      (⟨[⟨"t1", 0⟩, ⟨"t1", Timedelta.hours 25⟩]⟩ : LedgerState).shouldNotify "t1"
        (Timedelta.hours 26) defaultCooldown defaultRateWindow defaultRateCap :=
  ⟨ledgers_answer_as_histories.1 _ _ (by decide) (by decide),
    ledgers_answer_as_histories.2 _ _ _ (by decide) (by decide)⟩

end YnabAgent
