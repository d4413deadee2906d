import YnabAgent.Budget.Overspend
import Mathlib.Algebra.Order.Group.Int

/-!
# The projection on a later day

With the same figures the projection is meant to fall from day to day. The exact blend
does; the burn rate is floored before it is weighed, and what a day's rate loses in
rounding the next day's may get back. The plan view falls by itself once a day, so
only a day past it can gain (`view_succ_le`), and the months and figures that are left
are a finite table, `churning` (`projection_falls_iff`).
-/

namespace YnabAgent

/-- The blend of a month of `n` days on day `d`, for what is spent and planned. -/
def monthView (n spent plan d : Int) : Int :=
  Lib.floorAverage n d (spent * n / d) plan

theorem blend_eq_monthView (category : CategorySpend) (clock : MonthClock) :
    blend category clock = monthView clock.daysInMonth (spentMagnitude category).milliunits
      (anchor category) clock.dayOfMonth := rfl

/-- The view does not rise from one day to the next. -/
def Falls (n spent plan : Int) : Prop :=
  ∀ d, 1 ≤ d → d < n → monthView n spent plan (d + 1) ≤ monthView n spent plan d

/-! ## Day by day -/

section days
variable {n spent plan : Int}

/-- Up to the day past the plan, the plan falls by more than the rate gains. -/
theorem view_succ_le {d : Int} (hd : 1 ≤ d) (hn : d < n) (hplan : d ≤ plan + 1) :
    monthView n spent plan (d + 1) ≤ monthView n spent plan d := by
  have hlate := Lib.mul_ediv_le (t := spent * n) (d := d + 1) (by omega)
  have hearly := Lib.lt_mul_ediv (t := spent * n) (d := d) (by omega)
  unfold monthView Lib.floorAverage
  apply Int.ediv_le_ediv (by omega)
  have hexpand : (n - (d + 1)) * plan = (n - d) * plan - plan := by ring
  omega

theorem falls_iff_past_plan : Falls n spent plan ↔ ∀ d, 1 ≤ d → plan + 2 ≤ d → d < n →
    monthView n spent plan (d + 1) ≤ monthView n spent plan d := by
  constructor
  · intro h d hd _ hn
    exact h d hd hn
  · intro h d hd hn
    by_cases hplan : d ≤ plan + 1
    · exact view_succ_le hd hn hplan
    · exact h d hd (by omega) hn

/-- A view that does not rise from day to day does not rise over the month. -/
theorem Falls.le (h : Falls n spent plan) {d d' : Int} (hd : 1 ≤ d) (hle : d ≤ d') (hn : d' ≤ n) :
    monthView n spent plan d' ≤ monthView n spent plan d := by
  induction d', hle using Int.leInduction with
  | base => exact Int.le_refl _
  | succ d' hle ih => exact Int.le_trans (h d' (by omega) (by omega)) (ih (by omega))

end days

/-! ## The figures that churn -/

/-- The month lengths, and the spends and plan views in milliunits, whose view rises on some day. -/
def churning : List (Int × Int × Int) :=
  [(28, 2, 2), (28, 3, 4), (28, 4, 4), (28, 4, 6), (28, 5, 6), (28, 5, 8), (28, 6, 6), (28, 6, 8),
    (28, 6, 10), (28, 7, 7), (28, 12, 12),
    (29, 7, 7), (29, 9, 10), (29, 13, 13),
    (30, 2, 2), (30, 2, 3), (30, 3, 4), (30, 4, 4), (30, 4, 5), (30, 4, 6), (30, 5, 6), (30, 5, 8),
    (30, 6, 6), (30, 6, 8), (30, 6, 10), (30, 8, 9), (30, 9, 10), (30, 10, 12), (30, 12, 12),
    (30, 12, 15),
    (31, 7, 7), (31, 8, 8), (31, 9, 10), (31, 14, 14)]

/-- The view of figures below the month length, on days past the plan. -/
def fallsPastPlan (n spent plan : Nat) : Bool :=
  (List.range (n - 2 - plan)).all fun i =>
    Nat.ble ((((i + plan + 3) * (spent * n / (i + plan + 3)) + (n - (i + plan + 3)) * plan) / n))
      (((i + plan + 2) * (spent * n / (i + plan + 2)) + (n - (i + plan + 2)) * plan) / n)

theorem monthView_natCast {n spent plan d : Nat} (hd : d ≤ n) :
    monthView n spent plan d = ((d * (spent * n / d) + (n - d) * plan) / n : Nat) := by
  unfold monthView Lib.floorAverage
  push_cast [hd]
  rfl

theorem fallsPastPlan_iff {n spent plan : Nat} :
    fallsPastPlan n spent plan = true ↔ Falls n spent plan := by
  unfold fallsPastPlan
  rw [falls_iff_past_plan, List.all_eq_true]
  simp only [List.mem_range, Nat.ble_eq]
  constructor
  · intro h d _ hplan hn
    obtain ⟨i, rfl⟩ : ∃ i : Nat, d = ((i + plan + 2 : Nat) : Int) :=
      ⟨(d - plan - 2).toNat, by omega⟩
    have hi := h i (by omega)
    rw [← Int.ofNat_le, ← monthView_natCast (by omega), ← monthView_natCast (by omega)] at hi
    exact hi
  · intro h i hi
    have hview := h ((i + plan + 2 : Nat) : Int) (by omega) (by omega) (by omega)
    rw [← Int.ofNat_le, ← monthView_natCast (by omega), ← monthView_natCast (by omega)]
    exact hview

/-- The table is what the figures below the longest month leave. -/
theorem churning_eq : (([28, 29, 30, 31] : List Nat).flatMap fun n =>
    (List.range 29).flatMap fun spent =>
      ((List.range' spent (29 - spent)).filter fun plan => !fallsPastPlan n spent plan).map
        fun plan : Nat => ((n : Int), (spent : Int), (plan : Int))) = churning := by
  decide +kernel

theorem mem_churning_iff {n spent plan : Nat} (hn : n ∈ [28, 29, 30, 31]) (hspent : spent ≤ plan)
    (hplan : plan < 29) :
    ((n : Int), (spent : Int), (plan : Int)) ∈ churning ↔ fallsPastPlan n spent plan = false := by
  rw [← churning_eq]
  simp only [List.mem_flatMap, List.mem_map, List.mem_filter, List.mem_range, List.mem_range'_1,
    Bool.not_eq_true', Prod.mk.injEq, Int.natCast_inj]
  constructor
  · rintro ⟨n, _, spent, _, plan, ⟨_, h⟩, rfl, rfl, rfl⟩
    exact h
  · intro h
    exact ⟨n, hn, spent, by omega, plan, ⟨by omega, h⟩, rfl, rfl, rfl⟩

/-- With a plan view past the table the projection falls. -/
theorem falls_of_plan {n spent plan : Int} (hn : n ≤ maxMonthDays) (hplan : 29 ≤ plan) :
    Falls n spent plan := by
  unfold maxMonthDays at hn
  rw [falls_iff_past_plan]
  intro d hd hpast hlt
  omega

/-- In a month of its days a view falls exactly where the table does not list it. -/
theorem falls_iff {n spent plan : Int} (hmin : minMonthDays ≤ n) (hmax : n ≤ maxMonthDays)
    (hspent : 0 ≤ spent) (hplan : spent ≤ plan) :
    Falls n spent plan ↔ (n, spent, plan) ∉ churning := by
  by_cases hlarge : 29 ≤ plan
  · have hsmall : ∀ figures ∈ churning, figures.2.2 ≤ 15 := by decide
    refine ⟨fun _ hmem => ?_, fun _ => falls_of_plan hmax hlarge⟩
    have hle : plan ≤ 15 := hsmall _ hmem
    omega
  · unfold minMonthDays at hmin
    unfold maxMonthDays at hmax
    obtain ⟨n, rfl⟩ := Int.eq_ofNat_of_zero_le (show 0 ≤ n by omega)
    obtain ⟨spent, rfl⟩ := Int.eq_ofNat_of_zero_le hspent
    obtain ⟨plan, rfl⟩ := Int.eq_ofNat_of_zero_le (show 0 ≤ plan by omega)
    have hn : n ∈ [28, 29, 30, 31] := by
      simp only [List.mem_cons, List.not_mem_nil, or_false]
      omega
    rw [← fallsPastPlan_iff, mem_churning_iff hn (by omega) (by omega), Bool.not_eq_false]

/-! ## The law -/

/-- The projection of the figures does not rise on a later day of a month of `days` days. -/
def ProjectionFalls (category : CategorySpend) (days : Int) : Prop :=
  ∀ earlier later : MonthClock, earlier.daysInMonth = days → later.daysInMonth = days →
    earlier.dayOfMonth ≤ later.dayOfMonth →
    (projectSpend category later).milliunits ≤ (projectSpend category earlier).milliunits

theorem projectionFalls_iff_falls (category : CategorySpend) {days : Int}
    (hmin : minMonthDays ≤ days) (hmax : days ≤ maxMonthDays) :
    ProjectionFalls category days ↔
      Falls days (spentMagnitude category).milliunits (anchor category) := by
  constructor
  · intro h d hd hlt
    have hproject := h ⟨d, days, hd, hmin, hmax, by omega⟩ ⟨d + 1, days, by omega, hmin, hmax, hlt⟩
      rfl rfl (show d ≤ d + 1 by omega)
    rw [projectSpend_milliunits, projectSpend_milliunits] at hproject
    simp only [blend_eq_monthView] at hproject
    omega
  · rintro h earlier later rfl hlater hle
    have hview := h.le earlier.one_le hle (hlater ▸ later.within)
    rw [projectSpend_milliunits, projectSpend_milliunits, blend_eq_monthView, blend_eq_monthView,
      hlater]
    omega

/-- **A later day.** With the figures of a category held fixed the projection never rises over a
month, exactly where the table does not list the month with what is spent and planned. -/
theorem projection_falls_iff (category : CategorySpend) (days : Int) :
    ProjectionFalls category days ↔
      (days, (spentMagnitude category).milliunits, anchor category) ∉ churning := by
  have hplan : (spentMagnitude category).milliunits ≤ anchor category := Int.le_max_right _ _
  by_cases hdays : minMonthDays ≤ days ∧ days ≤ maxMonthDays
  · rw [projectionFalls_iff_falls category hdays.1 hdays.2,
      falls_iff hdays.1 hdays.2 (spentMagnitude_nonneg category) hplan]
  · -- there is no such month
    have hlisted : ∀ figures ∈ churning,
        minMonthDays ≤ figures.1 ∧ figures.1 ≤ maxMonthDays := by decide
    constructor
    · intro _ hmem
      exact hdays (hlisted _ hmem)
    · rintro - earlier - rfl -
      exact absurd ⟨earlier.min_le, earlier.le_max⟩ hdays

/-- Two milliunits spent under an empty budget. -/
def twoMilliunits : CategorySpend :=
  { category := "misc", name := "Misc", budgeted := ⟨0⟩, activity := ⟨-2⟩, balance := ⟨0⟩ }

/-- They are projected to two by the fourteenth of April, and to three a day later. -/
theorem two_milliunits_rise :
    ¬ ∀ (category : CategorySpend) (days : Int), ProjectionFalls category days := by
  intro h
  have hrise := h twoMilliunits 30 ⟨14, 30, by decide, by decide, by decide, by decide⟩
    ⟨15, 30, by decide, by decide, by decide, by decide⟩ rfl rfl (by decide)
  exact absurd hrise (by decide)

end YnabAgent
