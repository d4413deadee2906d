import YnabAgent.Budget.Coverage

/-!
# The donors of a plan

A category that gives keeps what it is projected to spend: the projection falls, if it moves at all,
with the budgeted amount, and rises by no more than what the category receives. `donors_ok`: after a
plan is applied every donor is still on track, and Ready-to-Assign is not overdrawn.
-/

namespace YnabAgent

/-- The figures of a budget's own categories: one each, and none under the id of Ready-to-Assign. -/
structure RealCategories (spends : List CategorySpend) : Prop where
  nodup : (spends.map CategorySpend.category).Nodup
  real : ∀ spend ∈ spends, spend.category ≠ readyToAssignSource

/-! ## Slack and shortfall -/

section slack
variable (spend : CategorySpend) (clock : MonthClock)

theorem donorSlack_milliunits : (donorSlack spend clock).1.milliunits =
    max 0 (spend.balance.milliunits - spend.remaining clock) := by
  unfold donorSlack CategorySpend.remaining
  simp only
  split
  · rename_i h
    simp only [Money.lt_iff, Money.sub_milliunits, Money.zero_milliunits] at h ⊢
    omega
  · rename_i h
    simp only [Money.lt_iff, Money.sub_milliunits, Money.zero_milliunits] at h ⊢
    omega

/-- The shortfall of a category is what its slack falls below zero by. -/
theorem shortfall_milliunits (policy : OverspendPolicy := defaultOverspendPolicy) :
    (needFromAssessment (assess spend clock policy)).shortfall.milliunits =
      max 0 (spend.remaining clock - spend.balance.milliunits) := by
  unfold needFromAssessment assess CategorySpend.remaining
  simp only
  split
  · rename_i h
    simp only [Money.lt_iff, Money.sub_milliunits, Money.zero_milliunits] at h ⊢
    omega
  · rename_i h
    simp only [Money.lt_iff, Money.sub_milliunits, Money.zero_milliunits] at h ⊢
    omega

/-- A category that has what it is projected to spend is on track. -/
theorem ok_of_remaining_le (hscheduled : 0 ≤ spend.scheduledRemaining.milliunits)
    (h : spend.remaining clock ≤ spend.balance.milliunits) :
    (assess spend clock).verdict = .ok ∧
      (needFromAssessment (assess spend clock)).shortfall = Money.zero ∧
      0 ≤ spend.balance.milliunits := by
  have hremaining := scheduled_le_remaining spend clock
  have hthreshold : (0 : Int) ≤ defaultOverspendPolicy.trendThreshold.milliunits := by decide
  refine ⟨(assess_verdict_eq_ok_iff spend clock).2 ⟨by omega, by omega⟩, ?_, by omega⟩
  apply Money.ext_milliunits
  rw [shortfall_milliunits, Money.zero_milliunits]
  omega

end slack

/-! ## The pool of donors -/

section sources
variable {spends : List CategorySpend} {readyToAssign : Money} {exclude : List CategoryId}
  {clock : MonthClock}

theorem donorOf_category (spend : CategorySpend) (clock : MonthClock) :
    (donorOf spend clock).category = spend.category := rfl

theorem donorOf_length (spend : CategorySpend) (clock : MonthClock) :
    (donorOf spend clock).length = max 0 (spend.balance.milliunits - spend.remaining clock) := by
  have hslack := donorSlack_milliunits spend clock
  change room (donorSlack spend clock).1 = _
  rw [room_of_nonneg (by omega), hslack]

/-- Whether a category is a donor. -/
theorem slack_pos_iff (spend : CategorySpend) (clock : MonthClock) :
    (!decide ((donorSlack spend clock).1 ≤ Money.zero)) = true ↔
      spend.remaining clock < spend.balance.milliunits := by
  rw [Bool.not_eq_true', decide_eq_false_iff_not, Money.le_iff, donorSlack_milliunits,
    Money.zero_milliunits]
  omega

theorem mem_sourcesFromSpends {source : Source} :
    source ∈ sourcesFromSpends spends readyToAssign exclude clock ↔
      (0 < readyToAssign.milliunits ∧
        source = { category := readyToAssignSource, available := readyToAssign
                   priority := .readyToAssign, slack := some readyToAssign }) ∨
      ∃ spend ∈ spends, spend.category ∉ exclude ∧
        spend.remaining clock < spend.balance.milliunits ∧ source = donorOf spend clock := by
  unfold sourcesFromSpends
  simp only [List.mem_append, List.mem_map, List.mem_filter, Bool.and_eq_true, slack_pos_iff,
    decide_eq_true_eq]
  refine or_congr ?_ (exists_congr fun spend => ?_)
  · split
    · rename_i hpos
      rw [Money.lt_iff, Money.zero_milliunits] at hpos
      rw [List.mem_singleton]
      exact ⟨fun h => ⟨hpos, h⟩, fun h => h.2⟩
    · rename_i hnone
      rw [Money.lt_iff, Money.zero_milliunits] at hnone
      exact ⟨fun h => absurd h List.not_mem_nil, fun h => absurd h.1 hnone⟩
  · constructor
    · rintro ⟨⟨hmem, hexclude, hslack⟩, rfl⟩
      exact ⟨hmem, hexclude, hslack, rfl⟩
    · rintro ⟨hmem, hexclude, hslack, rfl⟩
      exact ⟨⟨hmem, hexclude, hslack⟩, rfl⟩

/-- No two donors are one category. -/
theorem sources_nodup (hspends : RealCategories spends) (readyToAssign : Money)
    (exclude : List CategoryId) (clock : MonthClock) :
    ((sourcesFromSpends spends readyToAssign exclude clock).map Source.category).Nodup := by
  unfold sourcesFromSpends
  simp only
  generalize hdonors : spends.filter _ = donors
  have hsub : donors.Sublist spends := hdonors ▸ List.filter_sublist
  have hmap : (donors.map fun spend => donorOf spend clock).map Source.category =
      donors.map CategorySpend.category := by
    rw [List.map_map]
    rfl
  have hnd : (donors.map CategorySpend.category).Nodup := hspends.nodup.sublist (hsub.map _)
  rw [List.map_append, hmap]
  split
  · rw [List.map_singleton, List.singleton_append, List.nodup_cons]
    refine ⟨?_, hnd⟩
    intro hmem
    obtain ⟨spend, hspend, heq⟩ := List.mem_map.1 hmem
    exact hspends.real spend (hsub.mem hspend) heq
  · exact hnd

/-- The donor under a category's id is the one its figures make. -/
theorem source_of_category (hspends : RealCategories spends) {spend : CategorySpend}
    (hspend : spend ∈ spends) {source : Source}
    (hsource : source ∈ sourcesFromSpends spends readyToAssign exclude clock)
    (hcategory : source.category = spend.category) :
    source = donorOf spend clock ∧ spend.remaining clock < spend.balance.milliunits := by
  rcases mem_sourcesFromSpends.1 hsource with ⟨-, rfl⟩ | ⟨spend', hspend', -, hslack, rfl⟩
  · exact absurd hcategory.symm (hspends.real spend hspend)
  · obtain rfl := Lib.eq_of_key_eq hspends.nodup hspend' hspend hcategory
    exact ⟨rfl, hslack⟩

/-- Nothing but Ready-to-Assign, where there is any, is drawn under its id. -/
theorem source_of_readyToAssign (hspends : RealCategories spends) {source : Source}
    (hsource : source ∈ sourcesFromSpends spends readyToAssign exclude clock)
    (hcategory : source.category = readyToAssignSource) :
    0 < readyToAssign.milliunits ∧ source.drawable = readyToAssign := by
  rcases mem_sourcesFromSpends.1 hsource with ⟨hpos, rfl⟩ | ⟨spend, hspend, -, -, rfl⟩
  · exact ⟨hpos, rfl⟩
  · exact absurd hcategory (hspends.real spend hspend)

end sources

/-! ## After the plan -/

section plan
variable {spends : List CategorySpend} {readyToAssign : Money} {exclude : List CategoryId}
  {clock : MonthClock} {needs : List Need}

theorem cautiousFloor_ceiling : 0 < cautiousFloor.perMoveCeiling.milliunits := by
  decide

/-- The plan over the pool the figures give. -/
def planFor (spends : List CategorySpend) (readyToAssign : Money) (exclude : List CategoryId)
    (clock : MonthClock) (needs : List Need) : CoveragePlan :=
  planCoverage needs (sourcesFromSpends spends readyToAssign exclude clock)

/-- A category the plan draws from is a donor, and gives no more than its slack. -/
theorem pulled_le_slack (hspends : RealCategories spends) {spend : CategorySpend}
    (hspend : spend ∈ spends) {move : BudgetMove}
    (hmove : move ∈ (planFor spends readyToAssign exclude clock needs).moves)
    (hsource : move.source = spend.category) :
    spend.remaining clock < spend.balance.milliunits ∧
    (pulled (planFor spends readyToAssign exclude clock needs).moves spend.category).milliunits ≤
      spend.balance.milliunits - spend.remaining clock := by
  have hnd := sources_nodup hspends readyToAssign exclude clock
  obtain ⟨n, -, p, hp, hcategory, -⟩ := (mem_planCoverage cautiousFloor_ceiling hnd).1 hmove
  obtain ⟨hdonor, hslack⟩ := source_of_category hspends hspend (mem_of_pool hp)
    (hcategory.symm.trans hsource)
  have hle := pulled_le_length needs cautiousFloor_ceiling hnd hp
  rw [hdonor, donorOf_length, donorOf_category] at hle
  refine ⟨hslack, ?_⟩
  unfold planFor
  omega

/-- **The donors.** After the plan is applied every category that gave money is on track, with no
shortfall and a balance that is not negative; and Ready-to-Assign is not overdrawn. -/
theorem donors_ok (hspends : RealCategories spends)
    (hscheduled : ∀ spend ∈ spends, 0 ≤ spend.scheduledRemaining.milliunits)
    (clock : MonthClock) (readyToAssign : Money) (exclude : List CategoryId) (needs : List Need) :
    (∀ spend ∈ spends, ∀ move ∈ (planFor spends readyToAssign exclude clock needs).moves,
      move.source = spend.category →
      let after := spend.raised (netChange
        (planFor spends readyToAssign exclude clock needs).moves spend.category).milliunits
      (assess after clock).verdict = .ok ∧
        (needFromAssessment (assess after clock)).shortfall = Money.zero ∧
        0 ≤ after.balance.milliunits) ∧
    ((planFor spends readyToAssign exclude clock needs).moves.any
        (fun move => move.source = readyToAssignSource) = true →
      0 ≤ (readyToAssign -
        pulled (planFor spends readyToAssign exclude clock needs).moves
          readyToAssignSource).milliunits) := by
  have hnd := sources_nodup hspends readyToAssign exclude clock
  constructor
  · intro spend hspend move hmove hsource after
    obtain ⟨hslack, hpulled⟩ := pulled_le_slack hspends hspend hmove hsource
    have hreceived : 0 ≤ received (planFor spends readyToAssign exclude clock needs).moves
        spend.category :=
      received_nonneg fun move h => (amount_planCoverage cautiousFloor_ceiling hnd h).1
    have hnet := netChange_milliunits (planFor spends readyToAssign exclude clock needs).moves
      (hspends.real spend hspend)
    have hafter : after = spend.raised (netChange
      (planFor spends readyToAssign exclude clock needs).moves spend.category).milliunits := rfl
    generalize (netChange (planFor spends readyToAssign exclude clock needs).moves
      spend.category).milliunits = net at hnet hafter
    apply ok_of_remaining_le after clock (by rw [hafter]; exact hscheduled spend hspend)
    -- what the category gives on balance lowers the projection; what it gets raises it by no more
    rcases Int.le_total 0 net with hgains | hloses
    · have hle := remaining_raised_le spend clock hgains
      rw [hafter, CategorySpend.raised_balance]
      omega
    · have hle := remaining_lowered_le spend clock (k := -net) (by omega)
      rw [Int.neg_neg] at hle
      rw [hafter, CategorySpend.raised_balance]
      omega
  · intro hdrawn
    obtain ⟨move, hmove, hsource⟩ := List.any_eq_true.1 hdrawn
    obtain ⟨n, -, p, hp, hcategory, -⟩ := (mem_planCoverage cautiousFloor_ceiling hnd).1 hmove
    have hreal : p.1.category = readyToAssignSource :=
      hcategory.symm.trans (of_decide_eq_true hsource)
    obtain ⟨hpos, hdrawable⟩ := source_of_readyToAssign hspends (mem_of_pool hp) hreal
    have hle := pulled_le_length needs cautiousFloor_ceiling hnd hp
    rw [hreal] at hle
    unfold Source.length at hle
    rw [hdrawable, room_of_nonneg (by omega)] at hle
    rw [Money.sub_milliunits]
    unfold planFor
    omega

end plan

/-! ## A donor beside Ready-to-Assign -/

def dayTen : MonthClock := ⟨10, 30, by decide, by decide, by decide, by decide⟩

def diningSpend : CategorySpend :=
  { category := "dining", name := "Dining", budgeted := ⟨100000⟩, activity := ⟨-150000⟩
    balance := ⟨-50000⟩ }

def savingsSpend : CategorySpend :=
  { category := "savings", name := "Savings", budgeted := ⟨900000⟩, activity := ⟨0⟩
    balance := ⟨900000⟩ }

def householdSpends : List CategorySpend := [diningSpend, savingsSpend]

theorem householdSpends_real : RealCategories householdSpends :=
  ⟨by decide, by decide⟩

/-- The plan for what dining is short of. -/
def diningPlan (readyToAssign : Money) (clock : MonthClock) : CoveragePlan :=
  planFor householdSpends readyToAssign ["dining"] clock
    (needsFromAssessments [assess diningSpend clock])

/-- Ready-to-Assign covers part of what dining is short of, savings the rest. -/
theorem savings_stays_ok :
    (let after := savingsSpend.raised
      (netChange (diningPlan ⟨100000⟩ dayTen).moves "savings").milliunits
    (assess after dayTen).verdict = .ok ∧
      (needFromAssessment (assess after dayTen)).shortfall = Money.zero ∧
      0 ≤ after.balance.milliunits) ∧
    0 ≤ ((⟨100000⟩ : Money) -
      pulled (diningPlan ⟨100000⟩ dayTen).moves readyToAssignSource).milliunits := by
  have hdonors := donors_ok householdSpends_real (by decide) dayTen ⟨100000⟩ ["dining"]
    (needsFromAssessments [assess diningSpend dayTen])
  constructor
  · exact hdonors.1 savingsSpend (by decide) ⟨"savings", "dining", ⟨50000⟩⟩ (by decide +kernel) rfl
  · exact hdonors.2 (by decide +kernel)

end YnabAgent
