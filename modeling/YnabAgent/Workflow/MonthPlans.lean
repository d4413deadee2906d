import YnabAgent.Budget.Message
import YnabAgent.Workflow.Balance
import YnabAgent.Workflow.MonitorActivities
import YnabAgent.Workflow.Targets

/-!
# One coverage plan a month

The passes of the overspend monitor (`workflow/monitor_workflow.py`) and the coverage plans they
start (`start_coordinated_balance`, `workflow/balance_activities.py`), over one budget that its
owner edits meanwhile. Passes overlap, are retried, fail, and run across the turn of a month, and so
do plans. A plan's steps are a run of the balance workflow, to which what else befalls the budget is
an edit (`planRun`).

`one_plan_a_month`: what a month's plan covers, and what the program writes to the budget.
-/

namespace YnabAgent

/-! ## The passes and the plans -/

/-- Where a pass stands: before it knows the period, before it reads the categories, with what is
off track, once the offer is started, or failed. Its alerts only take time. -/
inductive PassPhase
  | reading
  | fetching (period : String) (clock : MonthClock)
  | offering (period : String) (needy : List OverspendAssessment)
  | done (period : String) (needy : List OverspendAssessment)
  | failed

def PassPhase.isClosed : PassPhase → Bool
  | .done _ _ | .failed => true
  | _ => false

/-- What the loop over the categories collects. -/
def offTrack (spends : List CategorySpend) (clock : MonthClock) : List OverspendAssessment :=
  (spends.map fun spend => assess spend clock).filter fun assessment =>
    decide (assessment.verdict ≠ .ok)

def balanceWorkflowId (period : String) : String := "balance-offer-" ++ period

/-- A plan started, its workflow running or closed. -/
structure MonthPlan where
  params : BalanceParams
  world : BalanceWorld := {}

namespace MonthPlan

def workflowId (plan : MonthPlan) : String := balanceWorkflowId plan.params.period

/-- The workflow before the budget as it stands. -/
def facing (plan : MonthPlan) (budget : YnabBudget) : BalanceWorld := { plan.world with budget }

/-- A step of the workflow's own. -/
inductive Step : MonthPlan → BalanceBeat → MonthPlan → Prop
  | step {plan : MonthPlan} {beat : BalanceBeat} {world : BalanceWorld}
      (h : Lib.StepOf (BalanceWorld.step plan.params) plan.world beat world) :
      Step plan beat { plan with world }

end MonthPlan

/-- Nothing is started without a shortfall, nor a second time under an id, its workflow closed or
not. -/
def startCoordinatedBalance (plans : List MonthPlan) (assessments : List OverspendAssessment)
    (period : String) : List MonthPlan :=
  if needsFromAssessments assessments = [] then plans
  else if balanceWorkflowId period ∈ plans.map MonthPlan.workflowId then plans
  else plans ++ [{ params := ⟨assessments, period⟩ }]

/-- The day, the budget, the passes in the order they fired, the plans in the order they started. -/
structure MonthWorld where
  today : LocalDate
  budget : YnabBudget := {}
  passes : List PassPhase := []
  plans : List MonthPlan := []

/-- An edit of the budget, the passing of days, a step of a pass or of a plan. What a new month
makes of the budget is an edit too. A pass is given a clock or takes that of the day; its start of a
plan may take effect and be tried again. -/
inductive MonthAct
  | edit (budget : YnabBudget)
  | roll (date : LocalDate)
  | fire
  | currentPeriod (pass : Nat) (clock : Option MonthClock)
  | fetch (pass : Nat) (scheduled : Option (List WireScheduledTransaction)) (first last : Date)
  | start (pass : Nat) (returned : Bool)
  | fail (pass : Nat)
  | plan (n : Nat) (act : BalanceAct)

namespace MonthWorld

/-- The budget changes by no act of a plan's world, and the day is the one there is. -/
def Allows (w : MonthWorld) : BalanceAct → Prop
  | .edit _ => False
  | .readReady clock => clock = w.today.clock
  | .periodRead period => period = w.today.period
  | _ => True

instance (w : MonthWorld) (act : BalanceAct) : Decidable (w.Allows act) := by
  cases act <;> unfold Allows <;> infer_instance

def setPass (w : MonthWorld) (pass : Nat) (phase : PassPhase) : MonthWorld :=
  { w with passes := w.passes.set pass phase }

def step (w : MonthWorld) : MonthAct → Option MonthWorld
  | .edit budget => some { w with budget }
  | .roll date => if w.today.before date then some { w with today := date } else none
  | .fire => some { w with passes := w.passes ++ [.reading] }
  | .currentPeriod pass clock =>
    match w.passes[pass]? with
    | some .reading =>
      some (w.setPass pass (.fetching w.today.period (clock.getD w.today.clock)))
    | _ => none
  | .fetch pass scheduled first last =>
    match w.passes[pass]? with
    | some (.fetching period clock) =>
      let spends := fetchCategorySpends w.budget.groups scheduled first last
      some (w.setPass pass (.offering period (offTrack spends clock)))
    | _ => none
  | .start pass returned =>
    match w.passes[pass]? with
    | some (.offering period needy) =>
      let w := { w with plans := startCoordinatedBalance w.plans needy period }
      some (if returned then w.setPass pass (.done period needy) else w)
    | _ => none
  | .fail pass =>
    match w.passes[pass]? with
    | some phase => if phase.isClosed then none else some (w.setPass pass .failed)
    | none => none
  | .plan n act =>
    match w.plans[n]? with
    | some plan =>
      if w.Allows act then
        match (plan.facing w.budget).step plan.params act with
        | some world =>
          some { w with budget := world.budget, plans := w.plans.set n { plan with world } }
        | none => none
      else none
    | none => none

end MonthWorld

/-! ### What one step can do -/

/-- The steps of the world, with what each is taken on. -/
inductive MonthWorld.Turn (w : MonthWorld) : MonthAct → MonthWorld → Prop
  | edited (budget : YnabBudget) : Turn w (.edit budget) { w with budget }
  | rolled {date : LocalDate} (h : w.today.before date) :
      Turn w (.roll date) { w with today := date }
  | fired : Turn w .fire { w with passes := w.passes ++ [.reading] }
  | dated {pass : Nat} (clock : Option MonthClock) (hpass : w.passes[pass]? = some .reading) :
      Turn w (.currentPeriod pass clock)
        (w.setPass pass (.fetching w.today.period (clock.getD w.today.clock)))
  | fetched {pass : Nat} {period : String} {clock : MonthClock}
      (scheduled : Option (List WireScheduledTransaction)) (first last : Date)
      (hpass : w.passes[pass]? = some (.fetching period clock)) :
      Turn w (.fetch pass scheduled first last)
        (w.setPass pass (.offering period
          (offTrack (fetchCategorySpends w.budget.groups scheduled first last) clock)))
  | attempted {pass : Nat} {period : String} {needy : List OverspendAssessment}
      (hpass : w.passes[pass]? = some (.offering period needy)) :
      Turn w (.start pass false) { w with plans := startCoordinatedBalance w.plans needy period }
  | started {pass : Nat} {period : String} {needy : List OverspendAssessment}
      (hpass : w.passes[pass]? = some (.offering period needy)) :
      Turn w (.start pass true)
        (({ w with plans := startCoordinatedBalance w.plans needy period } : MonthWorld).setPass
          pass (.done period needy))
  | failed {pass : Nat} {phase : PassPhase} (hpass : w.passes[pass]? = some phase)
      (hopen : phase.isClosed = false) : Turn w (.fail pass) (w.setPass pass .failed)
  | planned {n : Nat} {act : BalanceAct} {plan : MonthPlan} {world : BalanceWorld}
      (hplan : w.plans[n]? = some plan) (hallows : w.Allows act)
      (hstep : (plan.facing w.budget).step plan.params act = some world) :
      Turn w (.plan n act)
        { w with budget := world.budget, plans := w.plans.set n { plan with world } }

theorem MonthWorld.step_turn {w w' : MonthWorld} {act : MonthAct} (h : w.step act = some w') :
    w.Turn act w' := by
  cases act with
  | edit budget => cases h; exact .edited budget
  | roll date =>
    simp only [step] at h
    split at h
    · rename_i hbefore; cases h; exact .rolled hbefore
    · cases h
  | fire => cases h; exact .fired
  | currentPeriod pass clock =>
    simp only [step] at h
    split at h
    · rename_i hpass; cases h; exact .dated clock hpass
    · cases h
  | fetch pass scheduled first last =>
    simp only [step] at h
    split at h
    · rename_i hpass; cases h; exact .fetched scheduled first last hpass
    · cases h
  | start pass returned =>
    simp only [step] at h
    split at h
    · rename_i hpass
      cases h
      cases returned with
      | false => exact .attempted hpass
      | true => exact .started hpass
    · cases h
  | fail pass =>
    simp only [step] at h
    split at h
    · rename_i hpass
      split at h
      · cases h
      · rename_i hopen; cases h; exact .failed hpass (by simpa using hopen)
    · cases h
  | plan n act =>
    simp only [step] at h
    split at h
    · rename_i plan hplan
      split at h
      · rename_i hallows
        split at h
        · rename_i world hstep; cases h; exact .planned hplan hallows hstep
        · cases h
      · cases h
    · cases h

abbrev MonthBeat := Lib.Beat MonthWorld MonthAct

abbrev MonthRun := Lib.Run (Lib.StepOf MonthWorld.step)

/-- The start leaves the plans, or adds one under an id not taken. -/
theorem startCoordinatedBalance_cases (plans : List MonthPlan)
    (assessments : List OverspendAssessment) (period : String) :
    (startCoordinatedBalance plans assessments period = plans ∧
      (needsFromAssessments assessments ≠ [] →
        balanceWorkflowId period ∈ plans.map MonthPlan.workflowId)) ∨
    (startCoordinatedBalance plans assessments period =
        plans ++ [{ params := ⟨assessments, period⟩ }] ∧
      balanceWorkflowId period ∉ plans.map MonthPlan.workflowId) := by
  unfold startCoordinatedBalance
  split
  · rename_i hneeds
    exact .inl ⟨rfl, fun h => absurd hneeds h⟩
  · split
    · rename_i htaken
      exact .inl ⟨rfl, fun _ => htaken⟩
    · rename_i hfree
      exact .inr ⟨rfl, hfree⟩

theorem startCoordinatedBalance_getElem? {plans : List MonthPlan} {n : Nat} {plan : MonthPlan}
    (h : plans[n]? = some plan) (assessments : List OverspendAssessment) (period : String) :
    (startCoordinatedBalance plans assessments period)[n]? = some plan := by
  rcases startCoordinatedBalance_cases plans assessments period with ⟨heq, -⟩ | ⟨heq, -⟩
  · rw [heq, h]
  · obtain ⟨hlt, -⟩ := List.getElem?_eq_some_iff.1 h
    rw [heq, List.getElem?_append_left hlt, h]

/-- What a start adds is new. -/
theorem startCoordinatedBalance_new {plans : List MonthPlan} {n : Nat} {plan : MonthPlan}
    {assessments : List OverspendAssessment} {period : String} (hnone : plans[n]? = none)
    (h : (startCoordinatedBalance plans assessments period)[n]? = some plan) :
    plan = { params := ⟨assessments, period⟩ } := by
  rcases startCoordinatedBalance_cases plans assessments period with ⟨heq, -⟩ | ⟨heq, -⟩
  · rw [heq, hnone] at h
    cases h
  · rw [heq, List.getElem?_append_right (List.getElem?_eq_none_iff.1 hnone)] at h
    have hmem := List.mem_of_getElem? h
    exact List.mem_singleton.1 hmem

/-! ## The runs of the plans -/

/-- The steps of one plan's workflow: it meets the budget as it stands, and acts. -/
def MonthBeat.planSteps (n : Nat) (beat : MonthBeat) : List BalanceBeat :=
  match beat.act, beat.pre.plans[n]? with
  | .plan m act, some plan =>
    if m = n then
      [⟨plan.world, .edit beat.pre.budget⟩, ⟨plan.facing beat.pre.budget, act⟩]
    else []
  | _, _ => []

section plans
variable {n : Nat} {w w' : MonthWorld} {beats : List MonthBeat}

theorem planSteps_none {beat : MonthBeat} (h : beat.pre.plans[n]? = none) :
    MonthBeat.planSteps n beat = [] := by
  unfold MonthBeat.planSteps
  rw [h]
  split
  · rename_i heq; cases heq
  · rfl

/-- A step leaves a plan as it is, or takes it along its workflow. -/
theorem plan_stepped {beat : MonthBeat} (hstep : Lib.StepOf MonthWorld.step w beat w')
    {plan : MonthPlan} (hplan : w.plans[n]? = some plan) :
    ∃ plan', w'.plans[n]? = some plan' ∧
      Lib.Run MonthPlan.Step plan (MonthBeat.planSteps n beat) plan' := by
  obtain ⟨hs⟩ := hstep
  cases MonthWorld.step_turn hs with
  | edited budget => exact ⟨plan, hplan, .nil plan⟩
  | rolled hbefore => exact ⟨plan, hplan, .nil plan⟩
  | fired => exact ⟨plan, hplan, .nil plan⟩
  | dated clock hpass => exact ⟨plan, hplan, .nil plan⟩
  | fetched scheduled first last hpass => exact ⟨plan, hplan, .nil plan⟩
  | attempted hpass => exact ⟨plan, startCoordinatedBalance_getElem? hplan _ _, .nil plan⟩
  | started hpass => exact ⟨plan, startCoordinatedBalance_getElem? hplan _ _, .nil plan⟩
  | failed hpass hopen => exact ⟨plan, hplan, .nil plan⟩
  | @planned m act plan₁ world hplan₁ hallows hown =>
    by_cases hm : m = n
    · subst hm
      rw [hplan] at hplan₁
      cases hplan₁
      obtain ⟨hlt, -⟩ := List.getElem?_eq_some_iff.1 hplan
      refine ⟨{ plan with world }, List.getElem?_set_self hlt, ?_⟩
      have hedit : plan.world.step plan.params (.edit w.budget) = some (plan.facing w.budget) := rfl
      have hsteps : MonthBeat.planSteps m ⟨w, .plan m act⟩ =
          [⟨plan.world, .edit w.budget⟩, ⟨plan.facing w.budget, act⟩] := by
        simp [MonthBeat.planSteps, hplan]
      rw [hsteps]
      have hnext : MonthPlan.Step ⟨plan.params, plan.facing w.budget⟩ ⟨plan.facing w.budget, act⟩
          ⟨plan.params, world⟩ := .step (.step hown)
      exact .cons (.step (.step hedit)) (.single hnext)
    · refine ⟨plan, ?_, ?_⟩
      · rw [List.getElem?_set_ne hm, hplan]
      · have hsteps : MonthBeat.planSteps n ⟨w, .plan m act⟩ = [] := by
          simp [MonthBeat.planSteps, hplan, hm]
        rw [hsteps]
        exact .nil plan

/-- A plan that is there after a step and not before is new. -/
theorem plan_made {beat : MonthBeat} (hstep : Lib.StepOf MonthWorld.step w beat w')
    (hnone : w.plans[n]? = none) :
    MonthBeat.planSteps n beat = [] ∧ ∀ plan, w'.plans[n]? = some plan → plan.world = {} := by
  obtain ⟨hs⟩ := hstep
  refine ⟨planSteps_none hnone, fun plan hplan => ?_⟩
  have hkept : w'.plans[n]? = none → plan.world = {} := by
    intro h
    rw [h] at hplan
    cases hplan
  cases MonthWorld.step_turn hs with
  | attempted hpass => rw [startCoordinatedBalance_new hnone hplan]
  | started hpass => rw [startCoordinatedBalance_new hnone hplan]
  | planned hplan₁ hallows hown =>
    apply hkept
    rw [List.getElem?_eq_none_iff, List.length_set]
    exact List.getElem?_eq_none_iff.1 hnone
  | _ => exact hkept hnone

theorem MonthPlan.balanceRun {plan plan' : MonthPlan} {steps : List BalanceBeat}
    (h : Lib.Run MonthPlan.Step plan steps plan') :
    plan'.params = plan.params ∧ BalanceRun plan.params plan.world steps plan'.world := by
  induction h with
  | nil plan => exact ⟨rfl, .nil plan.world⟩
  | cons hstep _ ih =>
    obtain ⟨hown⟩ := hstep
    exact ⟨ih.1, .cons hown ih.2⟩

/-- A plan keeps its place and what it was started with. -/
theorem plan_kept (hrun : MonthRun w beats w') {plan : MonthPlan}
    (hplan : w.plans[n]? = some plan) :
    ∃ plan', w'.plans[n]? = some plan' ∧ plan'.params = plan.params := by
  obtain ⟨plan', hplan', hown⟩ := hrun.follow (fun _ _ _ _ hs hp => plan_stepped hs hp) hplan
  exact ⟨plan', hplan', (MonthPlan.balanceRun hown).1⟩

/-- The steps of a plan are a run of the balance workflow. -/
theorem planRun (hrun : MonthRun w beats w') (hw : w.plans = []) {plan : MonthPlan}
    (hplan : w'.plans[n]? = some plan) :
    BalanceRun plan.params {} (beats.flatMap (MonthBeat.planSteps n)) plan.world := by
  have hnone : w.plans[n]? = none := by
    rw [hw, List.getElem?_nil]
  obtain ⟨plan₀, hnew, hown⟩ := hrun.born (fun _ _ _ _ hs hp => plan_stepped hs hp)
    (fun _ _ _ hs hp => plan_made hs hp) hnone hplan
  obtain ⟨hparams, hbalance⟩ := MonthPlan.balanceRun hown
  rwa [hparams, ← hnew]

end plans

/-! ## The targets of a plan -/

/-- What was written is of the targets, which are of different categories. -/
structure WrittenOf (targets : Targets) (ls : List BalanceBeat) : Prop where
  nodup : (targets.map Prod.fst).Nodup
  mem : ∀ beat ∈ ls, ∀ target, beat.Writes target → target ∈ targets

/-- What was written, when the workflow stands at a phase. -/
def BalancePhase.Wrote (ls : List BalanceBeat) : BalancePhase → Prop
  | .writing _ written target rest _ _ => WrittenOf (written ++ target :: rest) ls
  | _ => ∃ targets, WrittenOf targets ls

section targets
variable {params : BalanceParams} {ls : List BalanceBeat} {targets : Targets}

theorem WrittenOf.snoc (h : WrittenOf targets ls) {beat : BalanceBeat}
    (hbeat : ∀ target, beat.Writes target → target ∈ targets) :
    WrittenOf targets (ls ++ [beat]) where
  nodup := h.nodup
  mem := by
    intro beat' hmem
    rcases List.mem_append.1 hmem with hmem | hmem
    · exact h.mem beat' hmem
    · rw [List.mem_singleton.1 hmem]
      exact hbeat

theorem Unwritten.writtenOf (h : Unwritten ls) (hnd : (targets.map Prod.fst).Nodup) :
    WrittenOf targets ls :=
  ⟨hnd, fun beat hmem _ hwrites => absurd hwrites.1 (h beat hmem)⟩

theorem BalancePhase.Wrote.writtenOf {phase : BalancePhase} (h : phase.Wrote ls) :
    ∃ targets, WrittenOf targets ls := by
  cases phase with
  | writing offer written target rest landed verified => exact ⟨_, h⟩
  | _ => exact h

theorem BalancePhase.Wrote.snoc {phase : BalancePhase} (h : phase.Wrote ls) {beat : BalanceBeat}
    (hbeat : beat.act ≠ .put) : phase.Wrote (ls ++ [beat]) := by
  have hquiet : ∀ {targets : Targets}, WrittenOf targets ls → WrittenOf targets (ls ++ [beat]) :=
    fun hof => hof.snoc fun _ hwrites => absurd hwrites.1 hbeat
  have hsome : (∃ targets, WrittenOf targets ls) → ∃ targets, WrittenOf targets (ls ++ [beat]) :=
    fun ⟨targets, hof⟩ => ⟨targets, hquiet hof⟩
  cases phase with
  | writing offer written target rest landed verified => exact hquiet h
  | _ => exact hsome h

/-- The targets are fixed by the check, before anything is written. -/
theorem applyRead_wrote {offer : CoordinatedOffer} {label : String} {state : BudgetState}
    (h : Unwritten ls) : (applyRead label offer state).Wrote ls := by
  have hnone : ∃ targets, WrittenOf targets ls := ⟨[], h.writtenOf List.nodup_nil⟩
  unfold applyRead
  split
  · exact hnone
  · split
    · rename_i targets htargets
      have hnd : (targets.map Prod.fst).Nodup := by
        rw [(moveTargets_eq_ok htargets).1]
        exact changed_nodup offer.moves
      cases targets with
      | nil => exact hnone
      | cons target rest => exact h.writtenOf hnd
    · exact hnone

theorem pastTarget_wrote {offer : CoordinatedOffer} {label : String} {written rest : Targets}
    {target : CategoryId × Money} {verified : Bool}
    (h : WrittenOf (written ++ target :: rest) ls) :
    (pastTarget label offer written target rest verified).Wrote ls := by
  unfold pastTarget
  split
  · rename_i next rest
    change WrittenOf (written ++ [target] ++ next :: rest) ls
    rwa [List.append_assoc]
  · split
    · exact ⟨_, h⟩
    · exact ⟨_, h⟩

theorem BalancePhase.Wrote.turn {w w' : BalanceWorld} {act : BalanceAct}
    (h : w.phase.Wrote ls) (hknown : w.phase.Known params ls) (hturn : w.Turn params act w') :
    w'.phase.Wrote (ls ++ [⟨w, act⟩]) := by
  -- what the next phase has of the one before
  have hsnoc : act ≠ .put → w.phase.Wrote (ls ++ [⟨w, act⟩]) := fun hact => h.snoc hact
  have hsome : act ≠ .put → ∃ targets, WrittenOf targets (ls ++ [⟨w, act⟩]) :=
    fun hact => BalancePhase.Wrote.writtenOf (hsnoc hact)
  cases hturn with
  | submitted message => exact hsnoc (by simp)
  | edited budget => exact hsnoc (by simp)
  | ticked hle => exact hsnoc (by simp)
  | stateRead clock hphase =>
    rw [hphase] at hknown
    exact applyRead_wrote (hknown.2.snoc (by simp))
  | periodRead period hphase =>
    unfold applyPeriod
    split
    · exact hsome (by simp)
    · split
      · exact hsome (by simp)
      · exact hsome (by simp)
  | put hphase =>
    rw [hphase] at h
    refine WrittenOf.snoc h fun target hwrites => ?_
    obtain ⟨-, _, _, _, _, _, hphase'⟩ := hwrites
    rw [hphase] at hphase'
    cases hphase'
    simp
  | readBack hphase =>
    have hnext := hsnoc (by simp)
    rw [hphase] at hnext
    exact pastTarget_wrote hnext
  | _ => exact hsome (by simp)

theorem BalanceRun.wrote {w w' : BalanceWorld} {beats : List BalanceBeat}
    (hrun : BalanceRun params w beats w') (hstart : w.phase = .proposing) :
    w'.phase.Wrote beats := by
  refine (hrun.history (P := fun ls v => v.phase.Wrote ls ∧ v.phase.Known params ls) ?_ ?_).1
  · rw [hstart]
    exact ⟨⟨[], List.nodup_nil, by simp⟩, by intro beat hbeat; cases hbeat⟩
  · intro ls u beat v _ hboth hstep
    obtain ⟨hs⟩ := hstep
    have hturn := BalanceWorld.step_turn hs
    exact ⟨hboth.1.turn hboth.2 hturn, hboth.2.turn hturn⟩

/-- A workflow writes no category two amounts. -/
theorem BalanceRun.writes_eq {w w' : BalanceWorld} {beats : List BalanceBeat}
    (hrun : BalanceRun params w beats w') (hstart : w.phase = .proposing) {beat beat' : BalanceBeat}
    (hmem : beat ∈ beats) (hmem' : beat' ∈ beats) {target target' : CategoryId × Money}
    (hwrites : beat.Writes target) (hwrites' : beat'.Writes target')
    (heq : target.1 = target'.1) : target = target' := by
  obtain ⟨targets, hof⟩ := BalancePhase.Wrote.writtenOf (hrun.wrote hstart)
  exact List.inj_on_of_nodup_map hof.nodup (hof.mem beat hmem target hwrites)
    (hof.mem beat' hmem' target' hwrites') heq

end targets

/-! ## What came before -/

/-- The pass read the period, with the month position it goes by. -/
def PeriodRead (pass : Nat) (period : String) (clock : MonthClock) (ls : List MonthBeat) : Prop :=
  ∃ beat ∈ ls, ∃ given, beat.act = .currentPeriod pass given ∧ period = beat.pre.today.period ∧
    clock = given.getD beat.pre.today.clock

/-- And then the categories, of which these were off track. -/
def Assessed (pass : Nat) (period : String) (needy : List OverspendAssessment)
    (ls : List MonthBeat) : Prop :=
  ∃ clock, Lib.After (PeriodRead pass period clock) (fun beat => ∃ scheduled first last,
    beat.act = .fetch pass scheduled first last ∧
      needy = offTrack (fetchCategorySpends beat.pre.budget.groups scheduled first last) clock) ls

def PassPhase.Known (pass : Nat) (ls : List MonthBeat) : PassPhase → Prop
  | .reading | .failed => True
  | .fetching period clock => PeriodRead pass period clock ls
  | .offering period needy | .done period needy => Assessed pass period needy ls

/-- The beat is a write of a plan. -/
def MonthBeat.Writes (n : Nat) (params : BalanceParams) (target : CategoryId × Money)
    (beat : MonthBeat) : Prop :=
  beat.act = .plan n .put ∧ ∃ plan, beat.pre.plans[n]? = some plan ∧ plan.params = params ∧
    BalanceBeat.Writes target ⟨plan.facing beat.pre.budget, .put⟩

/-- A plan's steps came to the target: its offer was agreed to and passed the check, once the day
was found to be of its period. -/
def TargetSettled (n : Nat) (params : BalanceParams) (target : CategoryId × Money)
    (ls : List MonthBeat) : Prop :=
  (∃ offer targets, target ∈ targets ∧
    Accepted params offer targets (ls.flatMap (MonthBeat.planSteps n))) ∧
  ∃ beat ∈ ls, beat.act = .plan n (.periodRead params.period) ∧
    beat.pre.today.period = params.period

/-- What a run knows of its passes and plans. -/
structure MonthWorld.Known (ls : List MonthBeat) (w : MonthWorld) : Prop where
  ids : (w.plans.map MonthPlan.workflowId).Nodup
  passes : ∀ pass (phase : PassPhase), w.passes[pass]? = some phase → phase.Known pass ls
  plans : ∀ plan ∈ w.plans, ∃ pass, Assessed pass plan.params.period plan.params.assessments ls
  covered : ∀ period needy, .done period needy ∈ w.passes → needsFromAssessments needy ≠ [] →
    balanceWorkflowId period ∈ w.plans.map MonthPlan.workflowId

section known
variable {w w' : MonthWorld} {ls : List MonthBeat}

theorem Assessed.snoc {pass : Nat} {period : String} {needy : List OverspendAssessment}
    (h : Assessed pass period needy ls) (beat : MonthBeat) :
    Assessed pass period needy (ls ++ [beat]) := by
  obtain ⟨clock, h⟩ := h
  exact ⟨clock, h.snoc beat⟩

theorem PassPhase.Known.snoc {pass : Nat} {phase : PassPhase} (h : phase.Known pass ls)
    (beat : MonthBeat) : phase.Known pass (ls ++ [beat]) := by
  cases phase with
  | reading => trivial
  | fetching period clock => exact Lib.exists_mem_snoc h beat
  | offering period needy => exact Assessed.snoc h beat
  | done period needy => exact Assessed.snoc h beat
  | failed => trivial

/-- A pass of the list after one is set. -/
theorem getElem?_setPass {pass i : Nat} {phase phase' : PassPhase}
    (h : (w.setPass pass phase).passes[i]? = some phase') :
    (i = pass ∧ phase' = phase) ∨ w.passes[i]? = some phase' := by
  unfold MonthWorld.setPass at h
  rw [List.getElem?_set] at h
  split at h
  · rename_i heq
    split at h
    · cases h
      exact .inl ⟨heq.symm, rfl⟩
    · cases h
  · exact .inr h

/-- What is known survives a step that sets a pass to a phase known then, and is not done. -/
theorem MonthWorld.Known.setPass (h : w.Known ls) (beat : MonthBeat) {pass : Nat}
    {phase : PassPhase} (hphase : phase.Known pass (ls ++ [beat]))
    (hdone : ∀ period needy, phase = .done period needy → needsFromAssessments needy ≠ [] →
      balanceWorkflowId period ∈ w.plans.map MonthPlan.workflowId) :
    (w.setPass pass phase).Known (ls ++ [beat]) where
  ids := h.ids
  passes := by
    intro i phase' hi
    rcases getElem?_setPass hi with ⟨rfl, rfl⟩ | hi
    · exact hphase
    · exact (h.passes i phase' hi).snoc beat
  plans := by
    intro plan hplan
    obtain ⟨i, hassessed⟩ := h.plans plan hplan
    exact ⟨i, hassessed.snoc beat⟩
  covered := by
    intro period needy hmem hneeds
    obtain ⟨i, hi⟩ := List.mem_iff_getElem?.1 hmem
    rcases getElem?_setPass hi with ⟨-, heq⟩ | hi
    · exact hdone period needy heq.symm hneeds
    · exact h.covered period needy (List.mem_of_getElem? hi) hneeds

/-- And a step that sets none. -/
theorem MonthWorld.Known.snoc (h : w.Known ls) (beat : MonthBeat) : w.Known (ls ++ [beat]) where
  ids := h.ids
  passes pass phase hpass := (h.passes pass phase hpass).snoc beat
  plans plan hplan := by
    obtain ⟨pass, hassessed⟩ := h.plans plan hplan
    exact ⟨pass, hassessed.snoc beat⟩
  covered := h.covered

/-- And the start of a plan by a pass that has what it covers. -/
theorem MonthWorld.Known.start (h : w.Known ls) {pass : Nat} {period : String}
    {needy : List OverspendAssessment} (hassessed : Assessed pass period needy ls) :
    ({ w with plans := startCoordinatedBalance w.plans needy period } : MonthWorld).Known ls ∧
      (needsFromAssessments needy ≠ [] → balanceWorkflowId period ∈
        (startCoordinatedBalance w.plans needy period).map MonthPlan.workflowId) := by
  rcases startCoordinatedBalance_cases w.plans needy period with ⟨heq, htaken⟩ | ⟨heq, hfree⟩
  · rw [heq]
    exact ⟨h, htaken⟩
  · rw [heq]
    refine ⟨⟨?_, h.passes, ?_, ?_⟩, fun _ => by simp [MonthPlan.workflowId]⟩
    · rw [List.map_append]
      refine List.nodup_append.2 ⟨h.ids, List.nodup_singleton _, ?_⟩
      intro id hid id' hid' heq'
      rw [List.map_singleton, List.mem_singleton] at hid'
      apply hfree
      rwa [heq', hid'] at hid
    · intro plan hplan
      rcases List.mem_append.1 hplan with hplan | hplan
      · exact h.plans plan hplan
      · rw [List.mem_singleton.1 hplan]
        exact ⟨pass, hassessed⟩
    · intro period' needy' hmem hneeds
      rw [List.map_append]
      exact List.mem_append_left _ (h.covered period' needy' hmem hneeds)

theorem MonthWorld.Known.step {beat : MonthBeat} (h : w.Known ls)
    (hstep : Lib.StepOf MonthWorld.step w beat w') : w'.Known (ls ++ [beat]) := by
  obtain ⟨hs⟩ := hstep
  cases MonthWorld.step_turn hs with
  | edited budget => exact ⟨h.ids, (h.snoc _).passes, (h.snoc _).plans, h.covered⟩
  | rolled hbefore => exact ⟨h.ids, (h.snoc _).passes, (h.snoc _).plans, h.covered⟩
  | fired =>
    refine ⟨h.ids, ?_, (h.snoc _).plans, ?_⟩
    · intro pass phase hpass
      by_cases hlt : pass < w.passes.length
      · rw [List.getElem?_append_left hlt] at hpass
        exact (h.passes pass phase hpass).snoc _
      · rw [List.getElem?_append_right (Nat.not_lt.1 hlt)] at hpass
        rw [List.mem_singleton.1 (List.mem_of_getElem? hpass)]
        trivial
    · intro period needy hmem hneeds
      rcases List.mem_append.1 hmem with hmem | hmem
      · exact h.covered period needy hmem hneeds
      · cases List.mem_singleton.1 hmem
  | dated clock hpass =>
    exact h.setPass _ (Lib.exists_mem_last ⟨clock, rfl, rfl, rfl⟩) (by simp)
  | fetched scheduled first last hpass =>
    exact h.setPass _ ⟨_, .last (h.passes _ _ hpass) ⟨scheduled, first, last, rfl, rfl⟩⟩ (by simp)
  | attempted hpass => exact (h.start (h.passes _ _ hpass)).1.snoc _
  | started hpass =>
    obtain ⟨hknown, hcovered⟩ := h.start (h.passes _ _ hpass)
    refine hknown.setPass _ (Assessed.snoc (h.passes _ _ hpass) _) ?_
    rintro _ _ ⟨⟩ hneeds
    exact hcovered hneeds
  | failed hpass hopen => exact h.setPass _ trivial (by simp)
  | @planned n act plan world hplan hallows hown =>
    have hids : (w.plans.set n { plan with world }).map MonthPlan.workflowId =
        w.plans.map MonthPlan.workflowId := by
      obtain ⟨hlt, rfl⟩ := List.getElem?_eq_some_iff.1 hplan
      have hlt' : n < (w.plans.map MonthPlan.workflowId).length := by
        rwa [List.length_map]
      have hsame : MonthPlan.workflowId { w.plans[n] with world } =
          (w.plans.map MonthPlan.workflowId)[n] := by
        simp [MonthPlan.workflowId]
      rw [List.map_set, hsame, List.set_getElem_self]
    refine ⟨?_, (h.snoc _).passes, ?_, ?_⟩
    · rw [hids]
      exact h.ids
    · intro plan' hplan'
      rcases List.mem_or_eq_of_mem_set hplan' with hmem | heq
      · exact (h.snoc _).plans plan' hmem
      · rw [heq]
        exact (h.snoc _).plans plan (List.mem_of_getElem? hplan)
    · rw [hids]
      exact h.covered

end known

/-! ## Whole runs -/

section runs
variable {w w' : MonthWorld} {beats : List MonthBeat}

theorem MonthRun.known (hrun : MonthRun w beats w') (hpasses : w.passes = [])
    (hplans : w.plans = []) : w'.Known beats := by
  refine hrun.history (P := fun ls v => v.Known ls) ?_ fun _ hknown hstep => hknown.step hstep
  refine ⟨?_, ?_, ?_, ?_⟩
  · rw [hplans]
    exact List.nodup_nil
  · intro pass phase hpass
    rw [hpasses] at hpass
    cases hpass
  · rw [hplans]
    intro plan hplan
    cases hplan
  · rw [hpasses]
    intro period needy hmem
    cases hmem

/-- Where the run stood at a beat, and the step it took. -/
theorem MonthRun.at_beat (hrun : MonthRun w beats w') {before after : List MonthBeat}
    {beat : MonthBeat} (hbeats : beats = before ++ beat :: after) :
    ∃ v, MonthRun w before beat.pre ∧ beat.pre.step beat.act = some v ∧ MonthRun v after w' := by
  rw [hbeats] at hrun
  obtain ⟨u, hbefore, hafter⟩ := hrun.of_append
  obtain ⟨v, ⟨hs⟩, hrest⟩ := hafter.cons_inv
  exact ⟨v, hbefore, hs, hrest⟩

theorem Accepted.period_read {params : BalanceParams} {offer : CoordinatedOffer} {targets : Targets}
    {ls : List BalanceBeat} (h : Accepted params offer targets ls) :
    ∃ step ∈ ls, step.act = .periodRead params.period := by
  obtain ⟨state, ⟨spends, clock, hread⟩, -⟩ := h
  obtain ⟨before, last, after, rfl, hspends, -⟩ := hread
  obtain ⟨before', last', after', rfl, hperiod, -⟩ := hspends
  obtain ⟨before'', step, after'', rfl, -, hact⟩ := hperiod.1
  exact ⟨step, by simp, hact⟩

/-- A plan read the period on a day of it. -/
theorem MonthRun.period_read (hrun : MonthRun w beats w') {n : Nat} {period : String}
    {step : BalanceBeat} (hmem : step ∈ beats.flatMap (MonthBeat.planSteps n))
    (hact : step.act = .periodRead period) :
    ∃ beat ∈ beats, beat.act = .plan n (.periodRead period) ∧ beat.pre.today.period = period := by
  obtain ⟨beat, hbeat, hstep⟩ := List.mem_flatMap.1 hmem
  obtain ⟨before, after, hbeats⟩ := List.append_of_mem hbeat
  obtain ⟨v, -, hs, -⟩ := hrun.at_beat hbeats
  unfold MonthBeat.planSteps at hstep
  split at hstep
  · rename_i m act plan hplan hget
    split at hstep
    · rename_i hm
      subst hm
      rcases List.mem_cons.1 hstep with rfl | hstep
      · cases hact
      · rw [List.mem_singleton.1 hstep] at hact
        have hact' : act = .periodRead period := hact
        rw [hplan, hact'] at hs
        refine ⟨beat, hbeat, by rw [hplan, hact'], ?_⟩
        cases MonthWorld.step_turn hs with
        | planned _ hallows _ => exact hallows.symm
    · cases hstep
  · cases hstep

/-- What a plan writes was settled. -/
theorem MonthRun.settled (hrun : MonthRun w beats w') (hplans : w.plans = []) {n : Nat}
    {plan : MonthPlan} (hplan : w'.plans[n]? = some plan) {target : CategoryId × Money}
    (hwrites : BalanceBeat.Writes target ⟨plan.facing w'.budget, .put⟩) :
    TargetSettled n plan.params target beats := by
  have hknown := (planRun hrun hplans hplan).known rfl
  obtain ⟨-, offer, written, rest, landed, verified, hphase⟩ := hwrites
  have hphase' : plan.world.phase = .writing offer written target rest landed verified := hphase
  rw [hphase'] at hknown
  obtain ⟨step, hmem, hact⟩ := hknown.1.period_read
  exact ⟨⟨offer, _, by simp, hknown.1⟩, hrun.period_read hmem hact⟩

/-- Only an edit and a write of a plan change the budget. -/
theorem MonthWorld.Turn.budget {act : MonthAct} (hturn : w.Turn act w')
    (hchange : w'.budget ≠ w.budget) :
    (∃ budget, act = .edit budget) ∨ ∃ n plan target, act = .plan n .put ∧
      w.plans[n]? = some plan ∧ BalanceBeat.Writes target ⟨plan.facing w.budget, .put⟩ ∧
      w'.budget = w.budget.setBudgeted target.1 target.2 := by
  cases hturn with
  | edited budget => exact .inl ⟨budget, rfl⟩
  | @planned n act plan world hplan hallows hown =>
    rcases (BalanceWorld.step_turn hown).budget hchange with ⟨budget, rfl⟩ | ⟨target, hwrites, heq⟩
    · exact hallows.elim
    · obtain rfl : act = .put := hwrites.1
      exact .inr ⟨n, plan, target, rfl, hplan, hwrites, heq⟩
  | _ => exact absurd rfl hchange

/-- The step of a plan that a write is. -/
theorem MonthBeat.Writes.step {n : Nat} {params : BalanceParams} {target : CategoryId × Money}
    {beat : MonthBeat} (h : beat.Writes n params target) :
    ∃ step ∈ beat.planSteps n, step.Writes target := by
  obtain ⟨hact, plan, hplan, -, hwrites⟩ := h
  refine ⟨_, ?_, hwrites⟩
  unfold MonthBeat.planSteps
  rw [hact, hplan]
  simp

/-- The plan of a write is there at the end of the run, as it was started. -/
theorem MonthRun.plan_of_writes (hrun : MonthRun w beats w') {beat : MonthBeat}
    (hmem : beat ∈ beats) {n : Nat} {params : BalanceParams} {target : CategoryId × Money}
    (h : beat.Writes n params target) :
    ∃ plan, w'.plans[n]? = some plan ∧ plan.params = params := by
  obtain ⟨before, after, hbeats⟩ := List.append_of_mem hmem
  obtain ⟨v, -, hs, hrest⟩ := hrun.at_beat hbeats
  obtain ⟨-, plan, hplan, hparams, -⟩ := h
  obtain ⟨plan', hplan', hsame⟩ := plan_kept (.cons (.step hs) hrest) hplan
  exact ⟨plan', hplan', hsame.trans hparams⟩

/-- **One plan a month.** However the passes and the plans interleave with each other, with edits of
the budget and with the days: a period has at most one plan, and has it once a pass that read it is
done with a shortfall; the plan covers what was off track in one read of one pass, which had found
the period to be that of the day. Apart from edits, the budget changes by a plan's writes: their
offer was agreed to and passed the check after a day of its period, and no two writes of a period
set a category to different amounts. -/
theorem one_plan_a_month (hrun : MonthRun w beats w') (hpasses : w.passes = [])
    (hplans : w.plans = []) :
    (w'.plans.map fun plan => plan.params.period).Nodup ∧
    (∀ period needy, .done period needy ∈ w'.passes → needsFromAssessments needy ≠ [] →
      ∃ plan ∈ w'.plans, plan.params.period = period) ∧
    (∀ plan ∈ w'.plans, ∃ pass, Assessed pass plan.params.period plan.params.assessments beats) ∧
    (∀ before beat after, beats = before ++ beat :: after → ∀ v, beat.pre.step beat.act = some v →
      v.budget ≠ beat.pre.budget → (∃ budget, beat.act = .edit budget) ∨
        ∃ n params target, beat.Writes n params target ∧
          v.budget = beat.pre.budget.setBudgeted target.1 target.2 ∧
          TargetSettled n params target before) ∧
    ∀ beat ∈ beats, ∀ beat' ∈ beats, ∀ n n' params params' target target',
      beat.Writes n params target → beat'.Writes n' params' target' →
      params.period = params'.period → target.1 = target'.1 → target = target' := by
  have hknown := hrun.known hpasses hplans
  have hperiods : (w'.plans.map fun plan => plan.params.period).Nodup := by
    refine List.Nodup.of_map balanceWorkflowId ?_
    rw [List.map_map]
    exact hknown.ids
  refine ⟨hperiods, ?_, hknown.plans, ?_, ?_⟩
  · intro period needy hmem hneeds
    obtain ⟨plan, hplan, hid⟩ := List.mem_map.1 (hknown.covered period needy hmem hneeds)
    exact ⟨plan, hplan, (String.append_right_inj _).1 hid⟩
  · intro before beat after hbeats v hs hchange
    obtain ⟨_, hbefore, -, -⟩ := hrun.at_beat hbeats
    rcases (MonthWorld.step_turn hs).budget hchange with hedit |
      ⟨n, plan, target, hact, hplan, hwrites, heq⟩
    · exact .inl hedit
    · exact .inr ⟨n, plan.params, target, ⟨hact, plan, hplan, rfl, hwrites⟩, heq,
        hbefore.settled hplans hplan hwrites⟩
  · intro beat hmem beat' hmem' n n' params params' target target' hw hw' hperiod hcategory
    obtain ⟨plan, hplan, hparams⟩ := hrun.plan_of_writes hmem hw
    obtain ⟨plan', hplan', hparams'⟩ := hrun.plan_of_writes hmem' hw'
    -- the two plans are of one period, so they are one
    have hsame : (w'.plans.map fun plan => plan.params.period)[n]? =
        (w'.plans.map fun plan => plan.params.period)[n']? := by
      simp [hplan, hplan', hparams, hparams', hperiod]
    obtain ⟨hlt, -⟩ := List.getElem?_eq_some_iff.1 hplan
    have hlt' : n < (w'.plans.map fun plan => plan.params.period).length := by
      rwa [List.length_map]
    obtain rfl := (List.getElem?_inj hlt' hperiods).1 hsame
    obtain ⟨step, hstep, hwrites⟩ := hw.step
    obtain ⟨step', hstep', hwrites'⟩ := hw'.step
    exact (planRun hrun hplans hplan).writes_eq rfl (List.mem_flatMap.2 ⟨beat, hmem, hstep⟩)
      (List.mem_flatMap.2 ⟨beat', hmem', hstep'⟩) hwrites hwrites' hcategory

end runs

def juneTenth : LocalDate := ⟨2025, 6, 10, by decide, by decide, by decide⟩

/-- A pass of June starts a plan, twice, and its owner agrees to the offer. -/
def juneAgreed : List MonthAct :=
  [.fire, .currentPeriod 0 none, .fetch 0 none 110 130, .start 0 false, .start 0 true] ++
  [BalanceAct.readCategories, .readReady juneTenth.clock, .opened "t1",
    .submitResponse ⟨"m1", "go ahead"⟩, .take, .interpreted .apply, .periodRead "2025-06",
    .readCategories, .readReady juneTenth.clock].map (.plan 0)

/-- Another pass of the month, which starts no plan. -/
def juneRefired : List MonthAct :=
  [.fire, .currentPeriod 1 none, .fetch 1 none 111 130, .start 1 true]

/-- The plan's write lands between the two passes. -/
theorem june_planned : ∃ before w₁ w₂ after w,
    MonthRun { today := juneTenth, budget := livingBudget }
      (before ++ ⟨w₁, .plan 0 .put⟩ :: after) w ∧
    w₁.step (.plan 0 .put) = some w₂ ∧ w.budget.readBudgeted "dining" = some ⟨250000⟩ ∧
    (w.plans.map fun plan => plan.params.period).Nodup ∧
    (∃ plan ∈ w.plans, plan.params.period = "2025-06" ∧ ∃ pass,
      Assessed pass plan.params.period plan.params.assessments
        (before ++ ⟨w₁, .plan 0 .put⟩ :: after)) ∧
    ∃ n params target, MonthBeat.Writes n params target ⟨w₁, .plan 0 .put⟩ ∧
      w₂.budget = w₁.budget.setBudgeted target.1 target.2 ∧
      TargetSettled n params target before ∧
      ∀ beat' ∈ before ++ ⟨w₁, .plan 0 .put⟩ :: after, ∀ n' params' target',
        beat'.Writes n' params' target' → params.period = params'.period →
        target.1 = target'.1 → target = target' := by
  have hexec : ∃ before w₁ w₂ after w,
      Lib.exec MonthWorld.step { today := juneTenth, budget := livingBudget } juneAgreed =
        some (before, w₁) ∧
      w₁.step (.plan 0 .put) = some w₂ ∧
      Lib.exec MonthWorld.step w₂ juneRefired = some (after, w) ∧
      w₁.budget.readBudgeted "dining" ≠ some ⟨250000⟩ ∧
      w₂.budget.readBudgeted "dining" = some ⟨250000⟩ ∧
      w.budget.readBudgeted "dining" = some ⟨250000⟩ ∧
      ∃ needy, .done "2025-06" needy ∈ w.passes ∧ needsFromAssessments needy ≠ [] :=
    ⟨_, _, _, _, _, rfl, rfl, rfl, by decide +kernel, by decide +kernel, by decide +kernel,
      _, List.mem_cons_self, by decide +kernel⟩
  obtain ⟨before, w₁, w₂, after, w, hbefore, hput, hafter, hunset, hset, hbudget, needy, hdone,
    hneeds⟩ := hexec
  have hrun : MonthRun { today := juneTenth, budget := livingBudget }
      (before ++ ⟨w₁, .plan 0 .put⟩ :: after) w :=
    (Lib.exec_run hbefore).append (.cons (.step hput) (Lib.exec_run hafter))
  obtain ⟨hnodup, hcovered, hassessed, hwritten, hagreed⟩ := one_plan_a_month hrun rfl rfl
  obtain ⟨plan, hplan, hperiod⟩ := hcovered "2025-06" needy hdone hneeds
  have hchange : w₂.budget ≠ w₁.budget := fun heq => hunset (heq ▸ hset)
  refine ⟨before, w₁, w₂, after, w, hrun, hput, hbudget, hnodup,
    ⟨plan, hplan, hperiod, hassessed plan hplan⟩, ?_⟩
  rcases hwritten before ⟨w₁, .plan 0 .put⟩ after rfl w₂ hput hchange with ⟨budget, hedit⟩ |
    ⟨n, params, target, hwrites, heq, hsettled⟩
  · cases hedit
  · exact ⟨n, params, target, hwrites, heq, hsettled, fun beat' hmem' n' params' target' =>
      hagreed ⟨w₁, .plan 0 .put⟩ (by simp) beat' hmem' n n' params params' target target' hwrites⟩

end YnabAgent
