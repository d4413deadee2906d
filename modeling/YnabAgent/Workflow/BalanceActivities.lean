import YnabAgent.Budget.Donors
import YnabAgent.Ynab.Budget

/-!
# Offering and applying a coverage plan

The plan of a pass is made over the figures of the moment (`propose_coordinated_offer`) and
checked, once the owner agrees, against the figures read then
(`workflow/balance_activities.py`, `workflow/balance_workflow.py`). `targets_defined_iff`: a
plan that passes the check can be written when the categories it funds are still there.
`offer_applied_iff`: which offers pass unchanged figures.
-/

namespace YnabAgent

/-! ## The activities -/

/-- The funds, the protected slack and the budgeted amounts, as read for the apply. -/
structure BudgetState where
  available : CategoryId → Option Money
  budgeted : CategoryId → Option Money
  slack : CategoryId → Option Money

section activities
variable (spends : List CategorySpend) (readyToAssign : Money) (clock : MonthClock)

def readBudgetState : BudgetState where
  available := Lib.dict ((spends.map fun spend => (spend.category, spend.balance)) ++
    [(readyToAssignSource, readyToAssign)])
  budgeted := Lib.dict (spends.map fun spend => (spend.category, spend.budgeted))
  slack := Lib.dict ((spends.map fun spend => (spend.category, (donorSlack spend clock).1)) ++
    [(readyToAssignSource, readyToAssign)])

/-- The name of a bucket, or its id when it has no name. -/
def bucketName (category : CategoryId) : String :=
  (Lib.dict ((spends.map fun spend => (spend.category, spend.name)) ++
    [(readyToAssignSource, "Ready to Assign")]) category).getD category

def toSourceViews (sources : List Source) : List SourceView :=
  sources.map fun source =>
    { category := source.category, name := bucketName spends source.category
      slack := source.drawable }

/-- The pool of a pass: every needy category is left out. -/
def offerSources (needs : List Need) : List Source :=
  sourcesFromSpends spends readyToAssign (needs.map Need.category) clock

def proposeCoordinatedOffer (assessments : List OverspendAssessment) : CoordinatedOffer :=
  let needs := needsFromAssessments assessments
  if needs = [] then {}
  else
    let sources := offerSources spends readyToAssign clock needs
    let plan := planCoverage needs sources
    if plan.moves = [] then {}
    else
      { moves := plan.moves
        lines := plan.moves.map fun move =>
          { amount := move.amount, destination := bucketName spends move.destination
            source := bucketName spends move.source }
        sources := toSourceViews spends sources
        uncovered := plan.uncovered.map fun need => bucketName spends need.category }

end activities

/-! ## The apply step -/

/-- Where the apply step stands before it writes: the offer is refused, or its targets are to be
written. -/
inductive ApplyStep
  | stalePeriod
  | overCap
  | rejected (rejection : OptionRejection)
  | write (targets : List (CategoryId × Money))
  deriving DecidableEq

/-- What the figures read for the apply make of the offered moves. -/
def checkAndTarget (moves : List BudgetMove) (state : BudgetState) : Except KeyError ApplyStep :=
  match checkMoves moves state.available cautiousFloor (some state.slack) with
  | some rejection => .ok (.rejected rejection)
  | none => ApplyStep.write <$> moveTargets moves state.budgeted

/-- The apply step up to the first write: the period, the cap, the figures. -/
def applyPlan (offered current : String) (moves : List BudgetMove) (state : BudgetState) :
    Except KeyError ApplyStep :=
  if current ≠ offered then .ok .stalePeriod
  else if cautiousFloor.movesPerDayCap < moves.length then .ok .overCap
  else checkAndTarget moves state

/-! ## The targets -/

section targets
variable {moves : List BudgetMove} {budgeted : CategoryId → Option Money}

/-- The categories the moves change. -/
def changed (moves : List BudgetMove) : List CategoryId :=
  (touched moves).filter fun category => (netChange moves category).milliunits ≠ 0

theorem mem_touched {category : CategoryId} :
    category ∈ touched moves ↔ ∃ move ∈ moves, category = move.destination ∨
      category = move.source ∧ move.source ≠ readyToAssignSource := by
  unfold touched
  rw [List.mem_eraseDups, List.mem_flatMap]
  refine exists_congr fun move => and_congr_right fun _ => ?_
  rw [List.mem_cons]
  refine or_congr Iff.rfl ?_
  split
  · rename_i h
    simp [h]
  · rename_i h
    simp [h]

/-- The targets are the changed categories, each at its budgeted amount and its net change. -/
theorem moveTargets_eq_ok {targets : List (CategoryId × Money)}
    (h : moveTargets moves budgeted = .ok targets) :
    targets.map Prod.fst = changed moves ∧ ∀ target ∈ targets, ∃ amount,
      budgeted target.1 = some amount ∧ target.2 = amount + netChange moves target.1 := by
  have hpairs : List.Forall₂ (fun target category => (∃ amount,
      budgeted target.1 = some amount ∧ target.2 = amount + netChange moves target.1) ∧
        target.1 = category) targets (changed moves) := by
    refine ((Lib.mapM_eq_ok_iff.1 h).imp ?_).flip
    intro category target htarget
    split at htarget
    · rename_i amount hamount
      cases htarget
      exact ⟨⟨amount, hamount, rfl⟩, rfl⟩
    · cases htarget
  obtain ⟨hvalues, hkeys⟩ := (List.forall₂_and_left _ _).1 hpairs
  refine ⟨?_, hvalues⟩
  rwa [← List.forall₂_eq_eq_eq, List.forall₂_map_left_iff]

/-- Where the changed categories have a budgeted amount, the targets are those amounts and their net
changes. -/
theorem moveTargets_of_known
    (h : ∀ category ∈ changed moves, (budgeted category).isSome = true) :
    moveTargets moves budgeted = .ok ((changed moves).map fun category =>
      (category, (budgeted category).getD ⟨0⟩ + netChange moves category)) := by
  refine Lib.mapM_eq_ok_iff.2 (List.forall₂_map_right_iff.2 (List.forall₂_same.2 ?_))
  intro category hcategory
  obtain ⟨amount, hamount⟩ := Option.isSome_iff_exists.1 (h category hcategory)
  rw [hamount]
  rfl

/-- They are defined when the changed categories have a budgeted amount. -/
theorem moveTargets_isOk_iff :
    (∃ targets, moveTargets moves budgeted = .ok targets) ↔
      ∀ category ∈ changed moves, (budgeted category).isSome = true := by
  constructor
  · rintro ⟨targets, h⟩ category hcategory
    obtain ⟨hkeys, hvalues⟩ := moveTargets_eq_ok h
    rw [← hkeys, List.mem_map] at hcategory
    obtain ⟨target, htarget, rfl⟩ := hcategory
    obtain ⟨amount, hamount, -⟩ := hvalues target htarget
    rw [hamount]
    rfl
  · intro h
    exact ⟨_, moveTargets_of_known h⟩

theorem changed_iff {category : CategoryId} : category ∈ changed moves ↔
    (netChange moves category).milliunits ≠ 0 ∧ ∃ move ∈ moves, category = move.destination ∨
      category = move.source ∧ move.source ≠ readyToAssignSource := by
  unfold changed
  rw [List.mem_filter, mem_touched, and_comm]
  simp

end targets

/-! ## The check -/

section check
variable {moves : List BudgetMove} {available : CategoryId → Option Money} {policy : FloorPolicy}
  {slack : CategoryId → Option Money}

theorem checkMoves_eq_none_iff : checkMoves moves available policy (some slack) = none ↔
    moves ≠ [] ∧
    (∀ move ∈ moves, 0 < move.amount.milliunits ∧
      move.amount.milliunits ≤ policy.perMoveCeiling.milliunits) ∧
    ∀ move ∈ moves, (pulled moves move.source).milliunits ≤
        ((available move.source).getD Money.zero).milliunits ∧
      (pulled moves move.source).milliunits ≤
        (slackLimit move.source available (some slack)).milliunits := by
  have hamount : ∀ move : BudgetMove, (if move.amount ≤ Money.zero then some OptionRejection.empty
      else if policy.perMoveCeiling < move.amount.abs then some .overCeiling else none) = none ↔
        0 < move.amount.milliunits ∧
          move.amount.milliunits ≤ policy.perMoveCeiling.milliunits := by
    intro move
    have habs : move.amount.abs.milliunits = (move.amount.milliunits.natAbs : Int) := rfl
    rw [Lib.checks_eq_none_iff, Money.le_iff, Money.lt_iff, Money.zero_milliunits, habs]
    omega
  have hsource : ∀ source : CategoryId,
      (if (available source).getD Money.zero < pulled moves source then
          some OptionRejection.insufficientSource
        else if slackLimit source available (some slack) < pulled moves source then some .slack
        else none) = none ↔
        (pulled moves source).milliunits ≤ ((available source).getD Money.zero).milliunits ∧
          (pulled moves source).milliunits ≤
            (slackLimit source available (some slack)).milliunits := by
    intro source
    rw [Lib.checks_eq_none_iff, Money.lt_iff, Money.lt_iff, Int.not_lt, Int.not_lt]
  unfold checkMoves
  split
  · rename_i hempty
    constructor
    · intro h; cases h
    · rintro ⟨h, -⟩; exact absurd hempty h
  · rename_i hmoves
    rw [Option.or_eq_none_iff, List.findSome?_eq_none_iff, List.findSome?_eq_none_iff]
    simp only [hamount, hsource, List.mem_eraseDups, List.forall_mem_map]
    exact ⟨fun h => ⟨hmoves, h⟩, fun h => h.2⟩

end check

/-! ## Whether the targets are defined -/

section state
variable {spends : List CategorySpend} {readyToAssign : Money} {clock : MonthClock}
  {moves : List BudgetMove}

/-- The categories with a budgeted amount are those read. -/
theorem budgeted_isSome {category : CategoryId} :
    ((readBudgetState spends readyToAssign clock).budgeted category).isSome = true ↔
      category ∈ spends.map CategorySpend.category := by
  unfold readBudgetState
  rw [Lib.dict_isSome_iff, List.map_map]
  rfl

/-- A source with funds, other than Ready-to-Assign, is a category that was read. -/
theorem mem_of_available {source : CategoryId} (hreal : source ≠ readyToAssignSource)
    (h : 0 < (((readBudgetState spends readyToAssign clock).available source).getD
      Money.zero).milliunits) : source ∈ spends.map CategorySpend.category := by
  unfold readBudgetState at h
  simp only [Lib.dict_snoc, if_neg (Ne.symm hreal)] at h
  by_contra hmem
  rw [Lib.dict_eq_none] at h
  · exact absurd h (by decide)
  · intro e he heq
    obtain ⟨spend, hspend, rfl⟩ := List.mem_map.1 he
    exact hmem (heq ▸ List.mem_map_of_mem hspend)

theorem available_readyToAssign :
    (readBudgetState spends readyToAssign clock).available readyToAssignSource =
      some readyToAssign := by
  unfold readBudgetState
  simp [Lib.dict_snoc]

theorem slack_readyToAssign :
    (readBudgetState spends readyToAssign clock).slack readyToAssignSource =
      some readyToAssign := by
  unfold readBudgetState
  simp [Lib.dict_snoc]

/-- What the dictionaries that end in Ready-to-Assign have under a category that was read. -/
theorem dict_spends_of_mem {α : Type} (hspends : RealCategories spends) {spend : CategorySpend}
    (hspend : spend ∈ spends) (f : CategorySpend → α) (x : α) :
    Lib.dict ((spends.map fun spend => (spend.category, f spend)) ++ [(readyToAssignSource, x)])
      spend.category = some (f spend) := by
  rw [Lib.dict_snoc, if_neg (Ne.symm (hspends.real spend hspend))]
  apply Lib.dict_of_mem
  · rw [List.map_map]
    exact hspends.nodup
  · exact List.mem_map.2 ⟨spend, hspend, rfl⟩

theorem available_of_mem (hspends : RealCategories spends) {spend : CategorySpend}
    (hspend : spend ∈ spends) :
    (readBudgetState spends readyToAssign clock).available spend.category =
      some spend.balance :=
  dict_spends_of_mem hspends hspend CategorySpend.balance readyToAssign

theorem slack_of_mem (hspends : RealCategories spends) {spend : CategorySpend}
    (hspend : spend ∈ spends) :
    (readBudgetState spends readyToAssign clock).slack spend.category =
      some (donorSlack spend clock).1 :=
  dict_spends_of_mem hspends hspend (fun spend => (donorSlack spend clock).1) readyToAssign

/-- The categories a plan changes on balance, of those it funds, are still in the budget. -/
def DestinationsKnown (moves : List BudgetMove) (spends : List CategorySpend) : Prop :=
  ∀ move ∈ moves, (netChange moves move.destination).milliunits ≠ 0 →
    move.destination ∈ spends.map CategorySpend.category

/-- With the check passed, the targets are defined when the funded categories are known: the sources
have funds. -/
theorem moveTargets_of_checked
    (haccepted : checkMoves moves (readBudgetState spends readyToAssign clock).available
      cautiousFloor (some (readBudgetState spends readyToAssign clock).slack) = none) :
    (∃ targets, moveTargets moves (readBudgetState spends readyToAssign clock).budgeted =
      .ok targets) ↔ DestinationsKnown moves spends := by
  obtain ⟨-, hamounts, hsources⟩ := checkMoves_eq_none_iff.1 haccepted
  rw [moveTargets_isOk_iff]
  simp only [budgeted_isSome, changed_iff]
  constructor
  · intro h move hmove hnet
    exact h _ ⟨hnet, move, hmove, .inl rfl⟩
  · rintro h category ⟨hnet, move, hmove, rfl | ⟨rfl, hreal⟩⟩
    · exact h move hmove hnet
    · have hpulled := pulled_pos (fun move h => (hamounts move h).1) hmove
      have hfunds : 0 < (((readBudgetState spends readyToAssign clock).available
          move.source).getD Money.zero).milliunits :=
        Int.lt_of_lt_of_le hpulled (hsources move hmove).1
      exact mem_of_available hreal hfunds

/-- **The targets of a checked plan.** Where the check accepts the moves, the targets are defined
exactly when every category funded on balance was read; they are the changed categories, every
source among them, each at what was read and its net change. And so the apply step comes to a
refusal or to the writes exactly when it is refused before the check, or that is so. -/
theorem targets_defined_iff
    (haccepted : checkMoves moves (readBudgetState spends readyToAssign clock).available
      cautiousFloor (some (readBudgetState spends readyToAssign clock).slack) = none) :
    ((∃ targets, moveTargets moves (readBudgetState spends readyToAssign clock).budgeted =
      .ok targets) ↔ DestinationsKnown moves spends) ∧
    ∀ offered current, (∃ step, applyPlan offered current moves
      (readBudgetState spends readyToAssign clock) = .ok step) ↔
        (current = offered → moves.length ≤ cautiousFloor.movesPerDayCap →
          DestinationsKnown moves spends) := by
  have hdefined := moveTargets_of_checked haccepted
  refine ⟨hdefined, fun offered current => ?_⟩
  have hcheck : checkAndTarget moves (readBudgetState spends readyToAssign clock) =
      ApplyStep.write <$> moveTargets moves
        (readBudgetState spends readyToAssign clock).budgeted := by
    unfold checkAndTarget
    rw [haccepted]
  unfold applyPlan
  split
  · rename_i hstale
    exact ⟨fun _ h => absurd h hstale, fun _ => ⟨_, rfl⟩⟩
  · rename_i hperiod
    split
    · rename_i hcap
      exact ⟨fun _ _ h => absurd hcap (Nat.not_lt.2 h), fun _ => ⟨_, rfl⟩⟩
    · rename_i hcap
      rw [← hdefined, hcheck]
      constructor
      · rintro ⟨step, hstep⟩ - -
        obtain ⟨targets, htargets, -⟩ := Lib.map_eq_ok hstep
        exact ⟨targets, htargets⟩
      · intro h
        obtain ⟨targets, htargets⟩ := h (by simpa using hperiod) (Nat.not_lt.1 hcap)
        exact ⟨.write targets, by rw [htargets]; rfl⟩

end state

def diningMove : List BudgetMove := [⟨readyToAssignSource, "dining", ⟨150000⟩⟩]

/-- Dining was hidden between the offer and the reply: the check passes, and the look-up fails. -/
theorem dining_vanished :
    let state := readBudgetState [savingsSpend] ⟨500000⟩ dayTen
    checkMoves diningMove state.available cautiousFloor (some state.slack) = none ∧
      applyPlan "2026-07" "2026-07" diningMove state = .error ⟨"dining"⟩ := by
  decide +kernel

/-- Dining is still there. -/
theorem dining_kept : ∃ targets, moveTargets diningMove
    (readBudgetState householdSpends ⟨500000⟩ dayTen).budgeted = .ok targets :=
  (targets_defined_iff (by decide +kernel)).1.2 (by unfold DestinationsKnown; decide +kernel)

/-! ## Whether an offer passes -/

section offer
variable {groups : List WireCategoryGroup} {readyToAssign : Money} {clock : MonthClock}
  {assessments : List OverspendAssessment}

/-- The moves offered are those of the plan. -/
theorem proposeCoordinatedOffer_moves (spends : List CategorySpend) (readyToAssign : Money)
    (clock : MonthClock) (assessments : List OverspendAssessment) :
    (proposeCoordinatedOffer spends readyToAssign clock assessments).moves =
      (planCoverage (needsFromAssessments assessments)
        (offerSources spends readyToAssign clock (needsFromAssessments assessments))).moves := by
  unfold proposeCoordinatedOffer
  by_cases hneeds : needsFromAssessments assessments = []
  · rw [hneeds]
    rfl
  · simp only [if_neg hneeds]
    split
    · rename_i hmoves
      rw [hmoves]
    · rfl

theorem needsFromAssessments_length {need : Need} (h : need ∈ needsFromAssessments assessments) :
    0 < need.length := by
  unfold needsFromAssessments at h
  rw [List.mem_insertionSort, List.mem_filter] at h
  have hpos := h.2
  unfold Need.isMet at hpos
  rw [Bool.not_eq_true', decide_eq_false_iff_not, Money.le_iff, Money.zero_milliunits] at hpos
  change 0 < room need.shortfall
  unfold room
  omega

/-- The figures the balancer reads have nothing scheduled in them. -/
theorem categorySpends_scheduled {spend : CategorySpend} (h : spend ∈ categorySpends groups) :
    spend.scheduledRemaining = Money.zero := by
  unfold categorySpends at h
  obtain ⟨wire, -, rfl⟩ := List.mem_map.1 h
  rfl

/-- So a donor of theirs can spare no more than it has. -/
theorem donorOf_length_le {spend : CategorySpend} (h : spend ∈ categorySpends groups)
    (hslack : spend.remaining clock < spend.balance.milliunits) :
    (donorOf spend clock).length = (donorSlack spend clock).1.milliunits ∧
      (donorOf spend clock).length ≤ spend.balance.milliunits := by
  have hremaining := scheduled_le_remaining spend clock
  rw [categorySpends_scheduled h, Money.zero_milliunits] at hremaining
  rw [donorOf_length, donorSlack_milliunits]
  omega

/-- The check accepts what is offered, on the same figures. -/
theorem offer_checked (hspends : RealCategories (categorySpends groups))
    (hoffer : (proposeCoordinatedOffer (categorySpends groups) readyToAssign clock
      assessments).moves ≠ []) :
    checkMoves (proposeCoordinatedOffer (categorySpends groups) readyToAssign clock
      assessments).moves
      (readBudgetState (categorySpends groups) readyToAssign clock).available cautiousFloor
      (some (readBudgetState (categorySpends groups) readyToAssign clock).slack) = none := by
  refine checkMoves_eq_none_iff.2 ⟨hoffer, ?_⟩
  rw [proposeCoordinatedOffer_moves]
  generalize needsFromAssessments assessments = needs
  have hnd := sources_nodup hspends readyToAssign (needs.map Need.category) clock
  refine ⟨fun move hmove => amount_planCoverage cautiousFloor_ceiling hnd hmove, ?_⟩
  intro move hmove
  obtain ⟨n, -, p, hp, hcategory, -⟩ := (mem_planCoverage cautiousFloor_ceiling hnd).1 hmove
  have hpulled := pulled_le_length needs cautiousFloor_ceiling hnd hp
  rw [hcategory]
  unfold offerSources slackLimit
  rcases mem_sourcesFromSpends.1 (mem_of_pool hp) with ⟨hpos, heq⟩ | ⟨spend, hspend, -, hslack, heq⟩
  · rw [heq] at hpulled ⊢
    simp only [available_readyToAssign, slack_readyToAssign, Option.getD_some]
    change _ ≤ room readyToAssign at hpulled
    rw [room_of_nonneg (by omega)] at hpulled
    exact ⟨hpulled, hpulled⟩
  · rw [heq] at hpulled ⊢
    obtain ⟨hlength, hle⟩ := donorOf_length_le hspend hslack
    simp only [donorOf_category, available_of_mem hspends hspend, slack_of_mem hspends hspend,
      Option.getD_some]
    rw [donorOf_category] at hpulled
    exact ⟨Int.le_trans hpulled hle, hlength ▸ hpulled⟩

/-- A category that is funded gives nothing: the needy are no donors. -/
theorem offer_net_pos (hspends : RealCategories (categorySpends groups)) {move : BudgetMove}
    (hmove : move ∈ (proposeCoordinatedOffer (categorySpends groups) readyToAssign clock
      assessments).moves) :
    0 < (netChange (proposeCoordinatedOffer (categorySpends groups) readyToAssign clock
      assessments).moves move.destination).milliunits := by
  rw [proposeCoordinatedOffer_moves] at hmove ⊢
  generalize needsFromAssessments assessments = needs at hmove ⊢
  have hnd := sources_nodup hspends readyToAssign (needs.map Need.category) clock
  have hreceived := received_pos
    (fun move h => (amount_planCoverage cautiousFloor_ceiling hnd h).1) hmove
  unfold offerSources
  by_cases hreal : move.destination = readyToAssignSource
  · rw [hreal] at hreceived ⊢
    rwa [netChange_readyToAssign]
  · rw [netChange_milliunits _ hreal, pulled_eq_zero]
    · omega
    · intro move' hmove' heq
      obtain ⟨n, hn, -, -, -, hdestination, -⟩ :=
        (mem_planCoverage cautiousFloor_ceiling hnd).1 hmove
      obtain ⟨-, -, p, hp, hsource, -⟩ := (mem_planCoverage cautiousFloor_ceiling hnd).1 hmove'
      rcases mem_sourcesFromSpends.1 (mem_of_pool hp) with ⟨-, hlead⟩ | ⟨spend, -, hneedy, -,
        hdonor⟩
      · rw [hlead] at hsource
        exact hreal (heq.symm.trans hsource)
      · rw [hdonor, donorOf_category] at hsource
        apply hneedy
        rw [← hsource, heq, hdestination]
        exact List.mem_map_of_mem (mem_of_demand hn)

/-- **Offers that pass.** An offered plan is applied on the same figures, clock and period exactly
when its moves fit the cap, and every need that the pool reaches is of a category in the budget. -/
theorem offer_applied_iff (hspends : RealCategories (categorySpends groups))
    (hoffer : (proposeCoordinatedOffer (categorySpends groups) readyToAssign clock
      assessments).moves ≠ []) (period : String) :
    let spends := categorySpends groups
    let needs := needsFromAssessments assessments
    let sources := offerSources spends readyToAssign clock needs
    (∃ targets, applyPlan period period
        (proposeCoordinatedOffer spends readyToAssign clock assessments).moves
        (readBudgetState spends readyToAssign clock) = .ok (.write targets)) ↔
      moveCount cautiousFloor needs sources ≤ cautiousFloor.movesPerDayCap ∧
        ∀ n ∈ demand needs, n.2.1 < totalSlack sources →
          n.1.category ∈ spends.map CategorySpend.category := by
  intro spends needs sources
  have hchecked := offer_checked hspends hoffer
  have hnd : (sources.map Source.category).Nodup :=
    sources_nodup hspends readyToAssign (needs.map Need.category) clock
  have hlength := length_planCoverage needs cautiousFloor_ceiling hnd
  have hknown : DestinationsKnown (proposeCoordinatedOffer spends readyToAssign clock
      assessments).moves spends ↔ ∀ n ∈ demand needs, n.2.1 < totalSlack sources →
        n.1.category ∈ spends.map CategorySpend.category := by
    constructor
    · intro h n hn hreached
      have hfunded := (funded_iff cautiousFloor_ceiling hnd).2
        ⟨n, hn, rfl, needsFromAssessments_length (mem_of_demand hn), hreached⟩
      obtain ⟨move, hmove, hdestination⟩ := hfunded
      rw [← hdestination]
      have hoffered : move ∈ (proposeCoordinatedOffer spends readyToAssign clock
          assessments).moves := by
        rw [proposeCoordinatedOffer_moves]
        exact hmove
      exact h move hoffered (Int.ne_of_gt (offer_net_pos hspends hoffered))
    · intro h move hmove _
      rw [proposeCoordinatedOffer_moves] at hmove
      obtain ⟨n, hn, hcategory, -, hreached⟩ :=
        (funded_iff cautiousFloor_ceiling hnd).1 ⟨move, hmove, rfl⟩
      rw [← hcategory]
      exact h n hn hreached
  have hwrite : (∃ targets, applyPlan period period
      (proposeCoordinatedOffer spends readyToAssign clock assessments).moves
      (readBudgetState spends readyToAssign clock) = .ok (.write targets)) ↔
        (proposeCoordinatedOffer spends readyToAssign clock assessments).moves.length ≤
            cautiousFloor.movesPerDayCap ∧
          DestinationsKnown (proposeCoordinatedOffer spends readyToAssign clock assessments).moves
            spends := by
    rw [← moveTargets_of_checked hchecked]
    unfold applyPlan checkAndTarget
    rw [if_neg (by simp), hchecked]
    split
    · rename_i hcap
      constructor
      · rintro ⟨targets, htargets⟩; cases htargets
      · rintro ⟨hle, -⟩; omega
    · rename_i hcap
      constructor
      · rintro ⟨targets, htargets⟩
        obtain ⟨targets', hdefined, -⟩ := Lib.map_eq_ok htargets
        exact ⟨Nat.not_lt.1 hcap, targets', hdefined⟩
      · rintro ⟨-, targets, htargets⟩
        exact ⟨targets, by rw [htargets]; rfl⟩
  rw [hwrite, hknown, ← hlength, proposeCoordinatedOffer_moves]
  exact and_congr_left fun _ => by rw [Int.ofNat_le]

end offer

/-- A budget with dining overdrawn by what it spent. -/
def livingGroups (spent : Int) : List WireCategoryGroup :=
  [{ id := "living", name := "Living"
     categories :=
      [{ id := "dining", name := "Dining", budgeted := 0, activity := -spent, balance := -spent },
       { id := "savings", name := "Savings", budgeted := 0, activity := 0, balance := 900000 }] }]

def livingOffer (spent : Int) : CoordinatedOffer :=
  proposeCoordinatedOffer (categorySpends (livingGroups spent)) ⟨9000000⟩ dayTen
    ((categorySpends (livingGroups spent)).map fun spend => assess spend dayTen)

/-- Dining is short of 6000, which takes twelve moves: the offer is refused when agreed to. -/
theorem living_over_cap :
    (livingOffer 3600000).moves ≠ [] ∧
      applyPlan "2026-07" "2026-07" (livingOffer 3600000).moves
        (readBudgetState (categorySpends (livingGroups 3600000)) ⟨9000000⟩ dayTen) =
          .ok .overCap := by
  decide +kernel

theorem livingGroups_categories (spent : Int) :
    (categorySpends (livingGroups spent)).map CategorySpend.category = ["dining", "savings"] :=
  rfl

theorem livingGroups_real (spent : Int) : RealCategories (categorySpends (livingGroups spent)) where
  nodup := by
    rw [livingGroups_categories]
    decide
  real := by
    intro spend hspend heq
    have hmem := List.mem_map_of_mem (f := CategorySpend.category) hspend
    rw [livingGroups_categories, heq] at hmem
    exact absurd hmem (by decide)

/-- A smaller overdraft is covered when agreed to. -/
theorem living_applied :
    ∃ targets, applyPlan "2026-07" "2026-07" (livingOffer 150000).moves
      (readBudgetState (categorySpends (livingGroups 150000)) ⟨9000000⟩ dayTen) =
        .ok (.write targets) :=
  (offer_applied_iff (livingGroups_real 150000) (by decide +kernel) "2026-07").2 (by decide +kernel)

end YnabAgent
