import YnabAgent.Budget.Overspend

/-!
# The ledger of overspend alerts

The memory of the monitor (`budget/ledger.py`, held by `workflow/overspend_ledger_workflow.py`): for
each category the last alert raised, with the period it belongs to.
-/

namespace YnabAgent

structure LedgerEntry where
  category : CategoryId
  period : String
  alert : PriorAlert
  deriving DecidableEq

structure OverspendLedgerState where
  entries : List LedgerEntry := []
  deriving DecidableEq

namespace OverspendLedgerState

/-- The last alert of the category, if it is of this period. -/
def prior (state : OverspendLedgerState) (category : CategoryId) (period : String) :
    Option PriorAlert :=
  (state.entries.find? fun entry =>
    decide (entry.category = category ∧ entry.period = period)).map LedgerEntry.alert

/-- Record an alert in place of the category's entry, of whatever period. -/
def record (state : OverspendLedgerState) (category : CategoryId) (period : String)
    (alert : PriorAlert) : OverspendLedgerState where
  entries := (state.entries.filter fun entry => decide (entry.category ≠ category)) ++
    [{ category, period, alert }]

variable {state : OverspendLedgerState} {category category' : CategoryId} {period period' : String}
  {alert : PriorAlert}

/-- What the kept entries hold of a category, after those of one category are dropped. -/
theorem find?_kept (entries : List LedgerEntry) (h : category' ≠ category) :
    (entries.filter fun entry => decide (entry.category ≠ category)).find? (fun entry =>
        decide (entry.category = category' ∧ entry.period = period')) =
      entries.find? fun entry =>
        decide (entry.category = category' ∧ entry.period = period') := by
  induction entries with
  | nil => rfl
  | cons entry entries ih =>
    by_cases hcategory : entry.category = category
    · rw [List.filter_cons_of_neg (by simpa using hcategory), ih,
        List.find?_cons_of_neg (by simp [hcategory, Ne.symm h])]
    · rw [List.filter_cons_of_pos (by simpa using hcategory)]
      by_cases hfound : entry.category = category' ∧ entry.period = period'
      · rw [List.find?_cons_of_pos (by simpa using hfound),
          List.find?_cons_of_pos (by simpa using hfound)]
      · rw [List.find?_cons_of_neg (by simpa using hfound), ih,
          List.find?_cons_of_neg (by simpa using hfound)]

theorem find?_dropped (entries : List LedgerEntry) :
    (entries.filter fun entry => decide (entry.category ≠ category)).find? (fun entry =>
      decide (entry.category = category ∧ entry.period = period')) = none := by
  rw [List.find?_eq_none]
  intro entry hentry
  have hne := (List.mem_filter.1 hentry).2
  simp only [decide_eq_true_eq] at hne ⊢
  rintro ⟨heq, -⟩
  exact hne heq

theorem prior_record_self : (state.record category period alert).prior category period =
    some alert := by
  unfold prior record
  rw [List.find?_append, find?_dropped]
  simp

theorem prior_record_of_ne (h : category' ≠ category) :
    (state.record category period alert).prior category' period' =
      state.prior category' period' := by
  unfold prior record
  rw [List.find?_append, find?_kept _ h, List.find?_singleton, if_neg (by simp [Ne.symm h]),
    Option.or_none]

/-- Recording in one period leaves nothing new in another. -/
theorem prior_record_of_period_ne (h : period' ≠ period)
    (hnone : state.prior category' period' = none) :
    (state.record category period alert).prior category' period' = none := by
  by_cases hcategory : category' = category
  · unfold prior record
    rw [hcategory, List.find?_append, find?_dropped, List.find?_singleton,
      if_neg (by simp [Ne.symm h])]
    rfl
  · rw [prior_record_of_ne hcategory]
    exact hnone

end OverspendLedgerState

end YnabAgent
