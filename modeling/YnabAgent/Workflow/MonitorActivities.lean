import YnabAgent.Workflow.BalanceActivities

/-!
# The monitor's figures and the balancer's

The overspend monitor adds the outflows still scheduled this month to the figures it reads
(`workflow/monitor_activities.py`); the balancer reads the figures as they are
(`workflow/balance_activities.py`). `donors_spared_iff`: a donor is left what the monitor projects
it to spend exactly when its scheduled outflow fits in its slack, beside what the plan takes.
-/

namespace YnabAgent

/-- The figures of the month with the scheduled outflows due in the window; without them where they
could not be read. -/
def fetchCategorySpends (groups : List WireCategoryGroup)
    (scheduled : Option (List WireScheduledTransaction)) (today monthEnd : Date) :
    List CategorySpend :=
  let outflows : CategoryId → Option Money :=
    match scheduled with
    | some scheduled => scheduledRemaining scheduled today monthEnd
    | none => fun _ => none
  (categorySpends groups).map fun spend =>
    { spend with scheduledRemaining := (outflows spend.category).getD Money.zero }

/-- The figures as the balancer reads them. -/
def CategorySpend.unscheduled (spend : CategorySpend) : CategorySpend :=
  { spend with scheduledRemaining := Money.zero }

/-- The moves leave a category what it is projected to spend. -/
def CategorySpend.Spared (spend : CategorySpend) (clock : MonthClock) (moves : List BudgetMove) :
    Prop :=
  spend.remaining clock ≤
    (spend.raised (netChange moves spend.category).milliunits).balance.milliunits

/-- The moves draw on a category. -/
def Draws (moves : List BudgetMove) (category : CategoryId) : Prop :=
  ∃ move ∈ moves, move.source = category

section figures
variable {groups : List WireCategoryGroup} {scheduled : Option (List WireScheduledTransaction)}
  {today monthEnd : Date}

theorem unscheduled_mem {spend : CategorySpend}
    (h : spend ∈ fetchCategorySpends groups scheduled today monthEnd) :
    spend.unscheduled ∈ categorySpends groups := by
  unfold fetchCategorySpends at h
  obtain ⟨read, hread, rfl⟩ := List.mem_map.1 h
  have heq : ({ read with scheduledRemaining := Money.zero } : CategorySpend) = read := by
    rw [← categorySpends_scheduled hread]
  unfold CategorySpend.unscheduled
  rw [heq]
  exact hread

/-- The scheduled outflow counts in full in the projection. -/
theorem remaining_unscheduled (spend : CategorySpend) (clock : MonthClock) :
    spend.remaining clock =
      spend.unscheduled.remaining clock + spend.scheduledRemaining.milliunits := by
  have hspent : spentMagnitude spend.unscheduled = spentMagnitude spend := rfl
  have hblend : blend spend.unscheduled clock = blend spend clock := rfl
  have hzero : spend.unscheduled.scheduledRemaining.milliunits = 0 := rfl
  unfold CategorySpend.remaining
  rw [projectSpend_milliunits, projectSpend_milliunits, hspent, hblend, hzero]
  omega

/-- A category with slack is spared when what it gives on balance and its scheduled outflow fit in
the slack. -/
theorem spared_iff {spend : CategorySpend} {clock : MonthClock} (moves : List BudgetMove)
    (hslack : 0 < (donorSlack spend.unscheduled clock).1.milliunits) :
    spend.Spared clock moves ↔
      spend.scheduledRemaining.milliunits ≤ (donorSlack spend.unscheduled clock).1.milliunits +
        (netChange moves spend.category).milliunits := by
  have hbalance : spend.unscheduled.balance = spend.balance := rfl
  rw [donorSlack_milliunits, hbalance] at hslack ⊢
  unfold CategorySpend.Spared
  rw [remaining_unscheduled, CategorySpend.raised_balance]
  omega

end figures

section spared
variable {groups : List WireCategoryGroup} {scheduled : Option (List WireScheduledTransaction)}
  {today monthEnd : Date} {readyToAssign : Money} {clock : MonthClock}

/-- Where an offered plan draws on a category, it gives the share of its span, and receives
nothing. -/
theorem offered_net (hspends : RealCategories (categorySpends groups)) (needs : List Need)
    {spend : CategorySpend} (hspend : spend ∈ categorySpends groups) {p : Source × Int × Int}
    (hp : p ∈ pool (offerSources (categorySpends groups) readyToAssign clock needs))
    (hcategory : p.1.category = spend.category) :
    0 < (donorSlack spend clock).1.milliunits ∧
    (netChange (planCoverage needs
        (offerSources (categorySpends groups) readyToAssign clock needs)).moves
          spend.category).milliunits = -Lib.overlap (0, totalDemand needs) p.2 := by
  have hnd := sources_nodup hspends readyToAssign (needs.map Need.category) clock
  obtain ⟨-, hslack⟩ := source_of_category hspends hspend (mem_of_pool hp) hcategory
  have hpulled := pulled_planCoverage needs cautiousFloor_ceiling hnd hp
  have hneedy : spend.category ∉ needs.map Need.category := by
    rcases mem_sourcesFromSpends.1 (mem_of_pool hp) with ⟨-, hlead⟩ | ⟨donor, -, hdonor, -, heq⟩
    · rw [hlead] at hcategory
      exact absurd hcategory.symm (hspends.real spend hspend)
    · rw [heq, donorOf_category] at hcategory
      rwa [← hcategory]
  constructor
  · rw [donorSlack_milliunits]
    omega
  · rw [hcategory] at hpulled
    rw [netChange_milliunits _ (hspends.real spend hspend), received_eq_zero]
    · unfold offerSources
      rw [hpulled, Int.zero_sub]
    · intro move hmove heq
      obtain ⟨n, hn, -, -, -, hdestination, -⟩ :=
        (mem_planCoverage cautiousFloor_ceiling hnd).1 hmove
      apply hneedy
      rw [← heq, hdestination]
      exact List.mem_map_of_mem (mem_of_demand hn)

/-- **Donors and scheduled outflows.** At the proposal a category drawn on is left what the monitor
projects it to spend exactly when its scheduled outflow, and the share of its span that is asked
for, fit in its slack; and so at the apply, with what the moves take on balance. -/
theorem donors_spared_iff (hspends : RealCategories (categorySpends groups))
    (scheduled : Option (List WireScheduledTransaction)) (today monthEnd : Date)
    (readyToAssign : Money) (clock : MonthClock) :
    (∀ needs : List Need,
      let sources := offerSources (categorySpends groups) readyToAssign clock needs
      let moves := (planCoverage needs sources).moves
      (∀ spend ∈ fetchCategorySpends groups scheduled today monthEnd,
        Draws moves spend.category → spend.Spared clock moves) ↔
      ∀ spend ∈ fetchCategorySpends groups scheduled today monthEnd, ∀ p ∈ pool sources,
        p.1.category = spend.category → 0 < Lib.overlap (0, totalDemand needs) p.2 →
          spend.scheduledRemaining.milliunits + Lib.overlap (0, totalDemand needs) p.2 ≤
            (donorSlack spend.unscheduled clock).1.milliunits) ∧
    ∀ moves : List BudgetMove,
      let state := readBudgetState (categorySpends groups) readyToAssign clock
      checkMoves moves state.available cautiousFloor (some state.slack) = none →
      ((∀ spend ∈ fetchCategorySpends groups scheduled today monthEnd,
        Draws moves spend.category → spend.Spared clock moves) ↔
      ∀ spend ∈ fetchCategorySpends groups scheduled today monthEnd, Draws moves spend.category →
        spend.scheduledRemaining.milliunits ≤ (donorSlack spend.unscheduled clock).1.milliunits +
          (netChange moves spend.category).milliunits) := by
  constructor
  · intro needs sources moves
    have hnd : (sources.map Source.category).Nodup :=
      sources_nodup hspends readyToAssign (needs.map Need.category) clock
    refine forall₂_congr fun spend hspend => ?_
    have hread := unscheduled_mem hspend
    constructor
    · intro h p hp hcategory hpos
      have hdrawn : Draws moves spend.category := by
        rw [← hcategory]
        exact (drawn_iff cautiousFloor_ceiling hnd hp).2 hpos
      obtain ⟨hslack, hnet⟩ := offered_net hspends needs hread hp hcategory
      have hspared := (spared_iff moves hslack).1 (h hdrawn)
      change (netChange moves spend.category).milliunits = _ at hnet
      omega
    · rintro h ⟨move, hmove, hsource⟩
      obtain ⟨n, -, p, hp, hcategory, -⟩ := (mem_planCoverage cautiousFloor_ceiling hnd).1 hmove
      have hcategory' : p.1.category = spend.category := hcategory.symm.trans hsource
      have hpos := (drawn_iff cautiousFloor_ceiling hnd hp).1 ⟨move, hmove, hcategory⟩
      obtain ⟨hslack, hnet⟩ := offered_net hspends needs hread hp hcategory'
      have hfits := h p hp hcategory' hpos
      change (netChange moves spend.category).milliunits = _ at hnet
      rw [spared_iff moves hslack]
      omega
  · intro moves state haccepted
    obtain ⟨-, hamounts, hsources⟩ := checkMoves_eq_none_iff.1 haccepted
    refine forall₃_congr fun spend hspend hdrawn => spared_iff moves ?_
    -- what the check lets through is drawn from a category with slack
    obtain ⟨move, hmove, hsource⟩ := hdrawn
    have hread := unscheduled_mem hspend
    have hpulled := pulled_pos (fun move h => (hamounts move h).1) hmove
    have hlimit := (hsources move hmove).2
    have hcategory : move.source = spend.unscheduled.category := hsource
    unfold slackLimit at hlimit
    simp only [state, hcategory, slack_of_mem hspends hread, Option.getD_some] at hlimit hpulled
    omega

end spared

/-- A bill of 800 due from savings this month. -/
def savingsBill : List WireScheduledTransaction :=
  [{ dateNext := 120, amount := -800000, categoryId := some "savings" }]

/-- What the monitor reads of savings. -/
def savingsSeen : CategorySpend :=
  { category := "savings", name := "Savings", budgeted := ⟨0⟩, activity := ⟨0⟩, balance := ⟨900000⟩
    scheduledRemaining := ⟨800000⟩ }

/-- What dining is short of is offered from savings, and passes the check; the monitor, which had
savings on track, flags it once the moves are made. -/
theorem savings_drained :
    let spends := categorySpends (livingGroups 300000)
    let seen := fetchCategorySpends (livingGroups 300000) (some savingsBill) 110 130
    let offer := proposeCoordinatedOffer spends Money.zero dayTen
      (seen.map fun spend => assess spend dayTen)
    let state := readBudgetState spends Money.zero dayTen
    savingsSeen ∈ seen ∧ (assess savingsSeen dayTen).verdict = .ok ∧
      Draws offer.moves "savings" ∧
      checkMoves offer.moves state.available cautiousFloor (some state.slack) = none ∧
      ¬savingsSeen.Spared dayTen offer.moves ∧
      (assess (savingsSeen.raised (netChange offer.moves "savings").milliunits) dayTen).verdict =
        .trendingOver := by
  unfold Draws CategorySpend.Spared
  decide +kernel

/-- A bill of 300 due from savings this month. -/
def smallBill : List WireScheduledTransaction :=
  [{ dateNext := 120, amount := -300000, categoryId := some "savings" }]

/-- Moves of 600 from savings to dining. -/
def agreedMoves : List BudgetMove :=
  [⟨"savings", "dining", ⟨500000⟩⟩, ⟨"savings", "dining", ⟨100000⟩⟩]

/-- With a bill of 300 savings is left what it needs, by the plan for dining's 500 and by the moves
of 600. -/
theorem savings_spared :
    let seen : CategorySpend := { savingsSeen with scheduledRemaining := ⟨300000⟩ }
    let moves := (planCoverage [⟨"dining", ⟨500000⟩⟩]
      (offerSources (categorySpends (livingGroups 300000)) Money.zero dayTen
        [⟨"dining", ⟨500000⟩⟩])).moves
    seen ∈ fetchCategorySpends (livingGroups 300000) (some smallBill) 110 130 ∧
      Draws moves "savings" ∧ seen.Spared dayTen moves ∧
      seen.Spared dayTen agreedMoves := by
  intro seen moves
  have hseen : seen ∈ fetchCategorySpends (livingGroups 300000) (some smallBill) 110 130 := by
    decide +kernel
  have hdrawn : Draws moves "savings" :=
    ⟨⟨"savings", "dining", ⟨500000⟩⟩, by decide +kernel, rfl⟩
  obtain ⟨hoffered, happlied⟩ := donors_spared_iff (livingGroups_real 300000) (some smallBill) 110
    130 Money.zero dayTen
  refine ⟨hseen, hdrawn, ?_, ?_⟩
  · exact (hoffered [⟨"dining", ⟨500000⟩⟩]).2 (by decide +kernel) seen hseen hdrawn
  · refine (happlied agreedMoves (by decide +kernel)).2 ?_ seen hseen
      ⟨_, List.mem_cons_self, rfl⟩
    rintro spend hspend ⟨move, hmove, hsource⟩
    have hsavings : "savings" = spend.category := by
      simp only [agreedMoves, List.mem_cons, List.not_mem_nil, or_false] at hmove
      rcases hmove with rfl | rfl <;> exact hsource
    have hfits : ∀ spend ∈ fetchCategorySpends (livingGroups 300000) (some smallBill) 110 130,
        "savings" = spend.category → spend.scheduledRemaining.milliunits ≤
          (donorSlack spend.unscheduled dayTen).1.milliunits +
            (netChange agreedMoves spend.category).milliunits := by
      decide +kernel
    exact hfits spend hspend hsavings

end YnabAgent
