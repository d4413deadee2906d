import YnabAgent.Budget.Donors
import Mathlib.Data.List.Perm.Subperm

/-!
# The recipients of a plan

A need is sized on the projection before any money comes; but the plan view of the projection is
`max(budgeted, spent)`, and rises with what is received. `covered_ok_iff`: a fully covered category
is back on track exactly when the rise stays within what the blend rounds away.
-/

namespace YnabAgent

/-! ## What a covered need receives -/

/-- What a list of moves amounts to. -/
def amountOf (moves : List BudgetMove) : Int :=
  (moves.map fun move => move.amount.milliunits).sum

section accounting
variable (policy : FloorPolicy) (source destination : CategoryId)

/-- What one source gives and what is still short make up the shortfall. -/
theorem drawSource_amount : ∀ (fuel : Nat) (available : Money) {shortfall : Money},
    0 ≤ shortfall.milliunits →
      amountOf (drawSource policy source destination fuel available shortfall).moves +
          (drawSource policy source destination fuel available shortfall).shortfall.milliunits =
        shortfall.milliunits ∧
      0 ≤ (drawSource policy source destination fuel available shortfall).shortfall.milliunits ∧
      ∀ move ∈ (drawSource policy source destination fuel available shortfall).moves,
        move.destination = destination := by
  intro fuel
  induction fuel with
  | zero =>
    intro available shortfall h
    exact ⟨Int.zero_add _, h, fun move hmove => absurd hmove List.not_mem_nil⟩
  | succ fuel ih =>
    intro available shortfall h
    unfold drawSource
    have hnone : amountOf ([] : List BudgetMove) + shortfall.milliunits = shortfall.milliunits ∧
        0 ≤ shortfall.milliunits ∧
        ∀ move ∈ ([] : List BudgetMove), move.destination = destination :=
      ⟨Int.zero_add _, h, fun move hmove => absurd hmove List.not_mem_nil⟩
    split
    · simp only
      split
      · exact hnone
      · have htake : (takeOf (takeOf available shortfall) policy.perMoveCeiling).milliunits ≤
            shortfall.milliunits := by
          rw [takeOf_milliunits, takeOf_milliunits]
          omega
        generalize takeOf (takeOf available shortfall) policy.perMoveCeiling = take at htake
        obtain ⟨hsum, hnonneg, hdestination⟩ :=
          ih (available - take)
            (show 0 ≤ (shortfall - take).milliunits by rw [Money.sub_milliunits]; omega)
        rw [Money.sub_milliunits] at hsum
        refine ⟨?_, hnonneg, ?_⟩
        · unfold amountOf at hsum ⊢
          simp only [List.map_cons, List.sum_cons]
          omega
        · intro move hmove
          rcases List.mem_cons.1 hmove with rfl | hmove
          · rfl
          · exact hdestination move hmove
    · exact hnone

/-- What the sources give a need and what is still short make up its shortfall. -/
theorem coverNeed_amount : ∀ (sources : List Source) (remaining : CategoryId → Money)
    {shortfall : Money}, 0 ≤ shortfall.milliunits →
      amountOf (coverNeed policy destination sources remaining shortfall).moves +
          (coverNeed policy destination sources remaining shortfall).shortfall.milliunits =
        shortfall.milliunits ∧
      0 ≤ (coverNeed policy destination sources remaining shortfall).shortfall.milliunits ∧
      ∀ move ∈ (coverNeed policy destination sources remaining shortfall).moves,
        move.destination = destination := by
  intro sources
  induction sources with
  | nil =>
    intro remaining shortfall h
    exact ⟨Int.zero_add _, h, fun move hmove => absurd hmove List.not_mem_nil⟩
  | cons source sources ih =>
    intro remaining shortfall h
    rw [coverNeed_cons]
    simp only
    obtain ⟨hdrawn, hnonneg, hdestination⟩ := drawSource_amount policy source.category destination
      shortfall.milliunits.toNat (remaining source.category) h
    generalize drawSource policy source.category destination shortfall.milliunits.toNat
      (remaining source.category) shortfall = drawn at hdrawn hnonneg hdestination
    obtain ⟨hrest, hnonneg', hdestination'⟩ :=
      ih (Function.update remaining source.category drawn.remaining) hnonneg
    refine ⟨?_, hnonneg', ?_⟩
    · unfold amountOf at hdrawn hrest ⊢
      rw [List.map_append, List.sum_append]
      omega
    · intro move hmove
      rcases List.mem_append.1 hmove with hmove | hmove
      · exact hdestination move hmove
      · exact hdestination' move hmove

variable {policy} {destination}

theorem received_append (moves moves' : List BudgetMove) (category : CategoryId) :
    received (moves ++ moves') category = received moves category + received moves' category := by
  unfold received
  rw [List.filter_append, List.map_append, List.sum_append]

theorem received_of_destination {moves : List BudgetMove} (category : CategoryId)
    (h : ∀ move ∈ moves, move.destination = destination) :
    received moves category = if destination = category then amountOf moves else 0 := by
  unfold received amountOf
  split
  · rename_i heq
    rw [List.filter_eq_self.2 (fun move hmove => by simp [h move hmove, heq])]
  · rename_i hne
    rw [List.filter_eq_nil_iff.2 (fun move hmove => by simp [h move hmove, hne])]
    rfl

/-- A plan without uncovered needs brings every category what its needs ask for. -/
theorem coverNeeds_received {ordered : List Source} (category : CategoryId) :
    ∀ {needs : List Need} {remaining : CategoryId → Money},
      (∀ need ∈ needs, 0 ≤ need.shortfall.milliunits) →
      (coverNeeds policy ordered needs remaining).uncovered = [] →
      received (coverNeeds policy ordered needs remaining).moves category =
        (needs.map fun need =>
          if need.category = category then need.shortfall.milliunits else 0).sum := by
  intro needs
  induction needs with
  | nil => intro remaining _ _; rfl
  | cons need needs ih =>
    intro remaining hneeds huncovered
    rw [List.forall_mem_cons] at hneeds
    rw [coverNeeds] at huncovered ⊢
    simp only at huncovered ⊢
    obtain ⟨hsum, hnonneg, hdestination⟩ :=
      coverNeed_amount policy need.category ordered remaining hneeds.1
    split at huncovered
    · cases huncovered
    · rename_i hmet
      rw [Money.lt_iff, Money.zero_milliunits] at hmet
      rw [received_append, received_of_destination category hdestination, ih hneeds.2 huncovered,
        List.map_cons, List.sum_cons]
      split
      · omega
      · rfl

/-- So with one need a category, it brings a category its shortfall. -/
theorem received_of_fullyCovered {needs : List Need} {sources : List Source}
    (hnd : (needs.map Need.category).Nodup)
    (hneeds : ∀ need ∈ needs, 0 ≤ need.shortfall.milliunits)
    (hcovered : (planCoverage needs sources policy).fullyCovered = true) {need : Need}
    (hneed : need ∈ needs) :
    received (planCoverage needs sources policy).moves need.category =
      need.shortfall.milliunits := by
  unfold CoveragePlan.fullyCovered at hcovered
  unfold planCoverage at hcovered ⊢
  rw [coverNeeds_received _ hneeds (List.isEmpty_iff.1 hcovered)]
  exact Lib.sum_of_mem Need.category hnd hneed rfl

end accounting

/-! ## Whether it is enough -/

section enough
variable (spend : CategorySpend) (clock : MonthClock)

/-- What a category falls short by. -/
def CategorySpend.short : Int :=
  max 0 (spend.remaining clock - spend.balance.milliunits)

/-- The plan view's rise under the shortfall stays within what the blend rounds away, and the
category is not projected to take in more than it spends. -/
def CategorySpend.Absorbs : Prop :=
  0 ≤ max spend.balance.milliunits (spend.remaining clock) ∧
    (clock.dayOfMonth * runRate spend clock +
        (clock.daysInMonth - clock.dayOfMonth) * anchor spend) % clock.daysInMonth +
      (clock.daysInMonth - clock.dayOfMonth) * spend.rise (spend.short clock) < clock.daysInMonth

/-- Bringing a category its shortfall puts it on track exactly when the rise is absorbed. -/
theorem raised_ok_iff :
    ((assess (spend.raised (spend.short clock)) clock).verdict = .ok ∧
      (needFromAssessment (assess (spend.raised (spend.short clock)) clock)).shortfall =
        Money.zero) ↔ spend.Absorbs clock := by
  have hshort : 0 ≤ spend.short clock := Int.le_max_left _ _
  have hthreshold : (0 : Int) ≤ defaultOverspendPolicy.trendThreshold.milliunits := by decide
  have hzero : (needFromAssessment (assess (spend.raised (spend.short clock)) clock)).shortfall =
      Money.zero ↔ (spend.raised (spend.short clock)).remaining clock ≤
        spend.balance.milliunits + spend.short clock := by
    have heq := shortfall_milliunits (spend.raised (spend.short clock)) clock
    rw [CategorySpend.raised_balance] at heq
    constructor
    · intro h
      rw [h, Money.zero_milliunits] at heq
      omega
    · intro h
      apply Money.ext_milliunits
      rw [heq, Money.zero_milliunits]
      omega
  have hmono := le_remaining_raised spend clock hshort
  have hle := remaining_raised_le spend clock hshort
  have habsorbed := Lib.floorAverage_add_le_iff (n := clock.daysInMonth) (w := clock.dayOfMonth)
    (x := runRate spend clock) (y := anchor spend) (k := spend.rise (spend.short clock))
    clock.days_pos
  rw [← blend_raised] at habsorbed
  change blend _ clock ≤ blend spend clock ↔ _ at habsorbed
  rw [assess_verdict_eq_ok_iff, hzero, CategorySpend.raised_balance]
  unfold CategorySpend.Absorbs
  rw [← habsorbed]
  rw [remaining_raised] at hmono hle ⊢
  have hfunded : spend.balance.milliunits + spend.short clock =
      max spend.balance.milliunits (spend.remaining clock) := by
    unfold CategorySpend.short
    omega
  rw [hfunded]
  constructor
  · rintro ⟨⟨hbalance, -⟩, hremaining⟩
    exact ⟨hbalance, by omega⟩
  · rintro ⟨hbalance, hblend⟩
    exact ⟨⟨hbalance, by omega⟩, by omega⟩

end enough

/-- **Covered categories.** Where the plan covers every need in full, a category that the plan was
made for is on track with what it receives exactly when it absorbs its shortfall. -/
theorem covered_ok_iff {spends : List CategorySpend}
    (hnd : (spends.map CategorySpend.category).Nodup) {clock : MonthClock} {needs : List Need}
    (hneeds : needs.Subperm (spends.map fun spend => needFromAssessment (assess spend clock)))
    {sources : List Source} {policy : FloorPolicy}
    (hcovered : (planCoverage needs sources policy).fullyCovered = true) :
    ∀ spend ∈ spends, spend.category ∈ needs.map Need.category →
      let after := spend.raised (received (planCoverage needs sources policy).moves spend.category)
      ((assess after clock).verdict = .ok ∧
        (needFromAssessment (assess after clock)).shortfall = Money.zero ↔
        spend.Absorbs clock) := by
  intro spend hspend hcategory after
  have hnonneg : ∀ need ∈ needs, 0 ≤ need.shortfall.milliunits := by
    intro need hneed
    obtain ⟨spend, -, rfl⟩ := List.mem_map.1 (hneeds.subset hneed)
    rw [shortfall_milliunits]
    exact Int.le_max_left _ _
  have hkeys : (needs.map Need.category).Nodup := by
    obtain ⟨chosen, hperm, hsub⟩ := hneeds
    have hchosen := hsub.map Need.category
    rw [List.map_map] at hchosen
    exact (hperm.map _).nodup_iff.1 (hnd.sublist hchosen)
  obtain ⟨need, hneed, heq⟩ := List.mem_map.1 hcategory
  obtain ⟨spend', hspend', rfl⟩ := List.mem_map.1 (hneeds.subset hneed)
  obtain rfl := Lib.eq_of_key_eq hnd hspend' hspend heq
  have hreceived := received_of_fullyCovered hkeys hnonneg hcovered hneed
  rw [shortfall_milliunits] at hreceived
  have hafter : after = spend'.raised (spend'.short clock) := congrArg spend'.raised hreceived
  rw [hafter]
  exact raised_ok_iff spend' clock

/-- On the tenth, dining is brought what it is short of, and is flagged again. -/
theorem dining_still_flagged :
    let after := diningSpend.raised (received (diningPlan ⟨500000⟩ dayTen).moves "dining")
    (diningPlan ⟨500000⟩ dayTen).fullyCovered = true ∧
      (assess after dayTen).verdict = .trendingOver ∧
      (needFromAssessment (assess after dayTen)).shortfall = ⟨66666⟩ := by
  decide +kernel

def lastDay : MonthClock := ⟨30, 30, by decide, dayTen.min_le, dayTen.le_max, Int.le_refl 30⟩

/-- On the last day of the month the plan view weighs nothing. -/
theorem dining_covered_at_month_end :
    let after := diningSpend.raised (received (diningPlan ⟨500000⟩ lastDay).moves "dining")
    (assess after lastDay).verdict = .ok ∧
      (needFromAssessment (assess after lastDay)).shortfall = Money.zero := by
  have hneeds : (needsFromAssessments [assess diningSpend lastDay]).Subperm
      (householdSpends.map fun spend => needFromAssessment (assess spend lastDay)) := by
    decide +kernel
  exact (covered_ok_iff householdSpends_real.nodup hneeds (by decide +kernel) diningSpend
    (by decide) (by decide +kernel)).2 (by unfold CategorySpend.Absorbs; decide +kernel)

end YnabAgent
