import YnabAgent.Lib.Run
import YnabAgent.Workflow.BalanceActivities

/-!
# The coordinated balance workflow

One coverage offer of a budget period: proposed, opened on a thread, and applied, declined or
clarified as the replies come in (`workflow/balance_workflow.py`), beside a budget that others edit.
An activity is split where the world can change under it: the two reads of a budget, and a write and
its read-back. `writes_agreed`: what has to come before a write, and what a run that ends without
one has written.
-/

namespace YnabAgent

/-! ## The budget -/

/-- The categories of the month and Ready-to-Assign, as YNAB holds them. -/
structure YnabBudget where
  groups : List WireCategoryGroup := []
  readyToAssign : Money := Money.zero
  deriving DecidableEq

namespace YnabBudget

def category (budget : YnabBudget) (category : CategoryId) : Option WireCategory :=
  (budget.groups.flatMap WireCategoryGroup.categories).find? fun wire => wire.id = category

/-- `read_budgeted`; none where the category cannot be read. -/
def readBudgeted (budget : YnabBudget) (category : CategoryId) : Option Money :=
  (budget.category category).map fun wire => ⟨wire.budgeted⟩

/-- `set_budgeted`: the balance moves with the budgeted amount, and Ready-to-Assign against it. -/
def setBudgeted (budget : YnabBudget) (category : CategoryId) (target : Money) : YnabBudget :=
  { groups := budget.groups.map fun group =>
      { group with
        categories := group.categories.map fun wire =>
          if wire.id = category then
            { wire with
              budgeted := target.milliunits
              balance := wire.balance + (target.milliunits - wire.budgeted) }
          else wire }
    readyToAssign :=
      match budget.readBudgeted category with
      | some budgeted => budget.readyToAssign - (target - budgeted)
      | none => budget.readyToAssign }

end YnabBudget

/-! ## The replies and the notices -/

structure InboundMessage where
  messageId : MessageId
  body : String
  deriving DecidableEq

/-- What the interpreter makes of a reply. -/
inductive ReplyVerdict
  | apply | decline
  | clarify (question : String)
  deriving DecidableEq

inductive BalanceOutcome
  | couldNotCover | timedOut | declined | stalePeriod | overCap
  | rejected (detail : OptionRejection)
  | verifyFailed | applied
  deriving DecidableEq

/-- Why an approved plan cannot be applied, for the owner. -/
def rejectionReason : OptionRejection → String
  | .overCeiling => "one of the moves is larger than I can make automatically"
  | .insufficientSource => "a source no longer has enough to cover it"
  | .slack => "a source is now heading over its own budget and can't spare it"
  | _ => "the plan didn't add up"

/-- What a message on the thread is rendered from. -/
inductive BalanceNotice
  | declined
  | question (text : String)
  | stale
  | overCap (moves cap : Nat)
  | failed (reason : String)
  | unverified
  | applied (total : Money)
  deriving DecidableEq

/-! ## The workflow -/

structure BalanceParams where
  assessments : List OverspendAssessment
  period : String

abbrev Targets := List (CategoryId × Money)

/-- Where the workflow stands: the activity it waits for, with what the rest of the run needs. -/
inductive BalancePhase
  | proposing
  | proposingReady (spends : List CategorySpend)
  | opening (offer : CoordinatedOffer)
  | waiting (offer : CoordinatedOffer)
  | interpreting (offer : CoordinatedOffer) (message : InboundMessage)
  | clarifying (offer : CoordinatedOffer) (question : String)
  | checkingPeriod (offer : CoordinatedOffer)
  | reading (offer : CoordinatedOffer)
  | readingReady (offer : CoordinatedOffer) (spends : List CategorySpend)
  | writing (offer : CoordinatedOffer) (written : Targets) (target : CategoryId × Money)
      (rest : Targets) (landed verified : Bool)
  | logging (offer : CoordinatedOffer) (targets : Targets)
  | closing (notice : BalanceNotice) (seqLabel : String) (outcome : BalanceOutcome)
  | done (outcome : BalanceOutcome)
  | failed
  | crashed (error : KeyError)

structure BalanceWorld where
  phase : BalancePhase := .proposing
  budget : YnabBudget := {}
  responses : List InboundMessage := []
  clarifications : Nat := 0
  now : Datetime := 0
  deadline : Datetime := 0
  threadId : Option ThreadId := none
  notices : List (BalanceNotice × String) := []
  movesLogged : List BudgetMove := []

/-- How long the offer waits for an answer. -/
def balancePatience : Timedelta := Timedelta.days 7

/-- A reply, an edit by others, the passing of time, or the next step of the workflow. An activity
that fails for good ends the run; one that is retried repeats its steps. -/
inductive BalanceAct
  | submitResponse (message : InboundMessage)
  | edit (budget : YnabBudget)
  | tick (now : Datetime)
  | readCategories
  | readReady (clock : MonthClock)
  | opened (threadId : ThreadId)
  | timeout
  | take
  | interpreted (verdict : ReplyVerdict)
  | periodRead (period : String)
  | put
  | readBack
  | logged
  | sent
  | fail

def CoordinatedOffer.total (offer : CoordinatedOffer) : Money :=
  ⟨(offer.moves.map fun move => move.amount.milliunits).sum⟩

/-- On to the first target, or past the last. -/
def writeTargets (offer : CoordinatedOffer) : Targets → BalancePhase
  | [] => .logging offer []
  | target :: rest => .writing offer [] target rest false true

/-- The apply step once the budget is read. -/
def applyRead (label : String) (offer : CoordinatedOffer) (state : BudgetState) : BalancePhase :=
  match checkMoves offer.moves state.available cautiousFloor (some state.slack) with
  | some rejection =>
    .closing (.failed (rejectionReason rejection)) ("ybalance-failed-" ++ label)
      (.rejected rejection)
  | none =>
    match moveTargets offer.moves state.budgeted with
    | .ok targets => writeTargets offer targets
    | .error error => .crashed error

/-- Past a target, once it is read back. -/
def pastTarget (label : String) (offer : CoordinatedOffer) (written : Targets)
    (target : CategoryId × Money) (rest : Targets) (verified : Bool) : BalancePhase :=
  match rest with
  | next :: rest => .writing offer (written ++ [target]) next rest false verified
  | [] =>
    if verified then .logging offer (written ++ [target])
    else .closing .unverified ("ybalance-failed-" ++ label ++ "-verify") .verifyFailed

/-- The apply step once the period is read. -/
def applyPeriod (params : BalanceParams) (offer : CoordinatedOffer) (period : String) :
    BalancePhase :=
  if period ≠ params.period then
    .closing .stale ("ybalance-stale-" ++ params.period) .stalePeriod
  else if cautiousFloor.movesPerDayCap < offer.moves.length then
    .closing (.overCap offer.moves.length cautiousFloor.movesPerDayCap)
      ("ybalance-cap-" ++ params.period) .overCap
  else .reading offer

namespace BalanceWorld

variable (params : BalanceParams)

def step (w : BalanceWorld) : BalanceAct → Option BalanceWorld
  | .submitResponse message => some { w with responses := w.responses ++ [message] }
  | .edit budget => some { w with budget }
  | .tick now => if w.now ≤ now then some { w with now } else none
  | .readCategories =>
    let spends := categorySpends w.budget.groups
    match w.phase with
    | .proposing | .proposingReady _ => some { w with phase := .proposingReady spends }
    | .reading offer | .readingReady offer _ => some { w with phase := .readingReady offer spends }
    | _ => none
  | .readReady clock =>
    match w.phase with
    | .proposingReady spends =>
      some { w with
        phase := .opening
          (proposeCoordinatedOffer spends w.budget.readyToAssign clock params.assessments) }
    | .readingReady offer spends =>
      some { w with
        phase := applyRead params.period offer
          (readBudgetState spends w.budget.readyToAssign clock) }
    | _ => none
  | .opened threadId =>
    match w.phase with
    | .opening offer =>
      if offer.moves = [] then some { w with phase := .done .couldNotCover }
      else some { w with
        phase := .waiting offer, threadId := some threadId, deadline := w.now + balancePatience }
    | _ => none
  | .timeout =>
    match w.phase with
    | .waiting _ =>
      -- past the deadline the wait ends at once, whatever is queued
      if w.deadline ≤ w.now then some { w with phase := .done .timedOut } else none
    | _ => none
  | .take =>
    match w.phase, w.responses with
    | .waiting offer, message :: responses =>
      some { w with phase := .interpreting offer message, responses }
    | _, _ => none
  | .interpreted verdict =>
    match w.phase with
    | .interpreting offer _ =>
      match verdict with
      | .decline =>
        some { w with
          phase := .closing .declined ("ybalance-declined-" ++ params.period) .declined }
      | .apply => some { w with phase := .checkingPeriod offer }
      | .clarify question =>
        some { w with
          phase := .clarifying offer question, clarifications := w.clarifications + 1 }
    | _ => none
  | .periodRead period =>
    match w.phase with
    | .checkingPeriod offer => some { w with phase := applyPeriod params offer period }
    | _ => none
  | .put =>
    match w.phase with
    | .writing offer written target rest _ verified =>
      if (w.budget.category target.1).isSome then
        some { w with
          phase := .writing offer written target rest true verified
          budget := w.budget.setBudgeted target.1 target.2 }
      else none
    | _ => none
  | .readBack =>
    match w.phase with
    | .writing offer written target rest true verified =>
      let ok := decide (w.budget.readBudgeted target.1 = some target.2)
      some { w with phase := pastTarget params.period offer written target rest (verified && ok) }
    | _ => none
  | .logged =>
    match w.phase with
    | .logging offer _ =>
      some { w with
        phase := .closing (.applied offer.total) ("ybalance-applied-" ++ params.period) .applied
        movesLogged := w.movesLogged ++ offer.moves }
    | _ => none
  | .sent =>
    match w.phase with
    | .clarifying offer question =>
      some { w with
        phase := .waiting offer
        notices := w.notices ++ [(.question question,
          "ybalance-clarify-" ++ params.period ++ "-" ++ toString w.clarifications)] }
    | .closing notice seqLabel outcome =>
      some { w with phase := .done outcome, notices := w.notices ++ [(notice, seqLabel)] }
    | _ => none
  | .fail =>
    match w.phase with
    | .waiting _ | .done _ | .failed | .crashed _ => none
    | _ => some { w with phase := .failed }

end BalanceWorld

/-! ### What one step can do -/

/-- The steps of the world, with the phase each is taken in. -/
inductive BalanceWorld.Turn (params : BalanceParams) (w : BalanceWorld) :
    BalanceAct → BalanceWorld → Prop
  | submitted (message : InboundMessage) :
      Turn params w (.submitResponse message) { w with responses := w.responses ++ [message] }
  | edited (budget : YnabBudget) : Turn params w (.edit budget) { w with budget }
  | ticked {now : Datetime} (h : w.now ≤ now) : Turn params w (.tick now) { w with now }
  | spendsRead (hphase : w.phase = .proposing ∨ ∃ spends, w.phase = .proposingReady spends) :
      Turn params w .readCategories
        { w with phase := .proposingReady (categorySpends w.budget.groups) }
  | spendsReread {offer : CoordinatedOffer}
      (hphase : w.phase = .reading offer ∨ ∃ spends, w.phase = .readingReady offer spends) :
      Turn params w .readCategories
        { w with phase := .readingReady offer (categorySpends w.budget.groups) }
  | proposed {spends : List CategorySpend} (clock : MonthClock)
      (hphase : w.phase = .proposingReady spends) :
      Turn params w (.readReady clock)
        { w with
          phase := .opening
            (proposeCoordinatedOffer spends w.budget.readyToAssign clock params.assessments) }
  | stateRead {offer : CoordinatedOffer} {spends : List CategorySpend} (clock : MonthClock)
      (hphase : w.phase = .readingReady offer spends) :
      Turn params w (.readReady clock)
        { w with
          phase := applyRead params.period offer
            (readBudgetState spends w.budget.readyToAssign clock) }
  | uncovered {offer : CoordinatedOffer} (threadId : ThreadId) (hphase : w.phase = .opening offer)
      (hmoves : offer.moves = []) :
      Turn params w (.opened threadId) { w with phase := .done .couldNotCover }
  | opened {offer : CoordinatedOffer} (threadId : ThreadId) (hphase : w.phase = .opening offer)
      (hmoves : offer.moves ≠ []) :
      Turn params w (.opened threadId)
        { w with
          phase := .waiting offer, threadId := some threadId, deadline := w.now + balancePatience }
  | timedOut {offer : CoordinatedOffer} (hphase : w.phase = .waiting offer)
      (hdue : w.deadline ≤ w.now) :
      Turn params w .timeout { w with phase := .done .timedOut }
  | taken {offer : CoordinatedOffer} {message : InboundMessage} {responses : List InboundMessage}
      (hphase : w.phase = .waiting offer) (hresponses : w.responses = message :: responses) :
      Turn params w .take { w with phase := .interpreting offer message, responses }
  | declined {offer : CoordinatedOffer} {message : InboundMessage}
      (hphase : w.phase = .interpreting offer message) :
      Turn params w (.interpreted .decline)
        { w with phase := .closing .declined ("ybalance-declined-" ++ params.period) .declined }
  | agreed {offer : CoordinatedOffer} {message : InboundMessage}
      (hphase : w.phase = .interpreting offer message) :
      Turn params w (.interpreted .apply) { w with phase := .checkingPeriod offer }
  | asked {offer : CoordinatedOffer} {message : InboundMessage} (question : String)
      (hphase : w.phase = .interpreting offer message) :
      Turn params w (.interpreted (.clarify question))
        { w with phase := .clarifying offer question, clarifications := w.clarifications + 1 }
  | periodRead {offer : CoordinatedOffer} (period : String)
      (hphase : w.phase = .checkingPeriod offer) :
      Turn params w (.periodRead period) { w with phase := applyPeriod params offer period }
  | put {offer : CoordinatedOffer} {written rest : Targets} {target : CategoryId × Money}
      {landed verified : Bool}
      (hphase : w.phase = .writing offer written target rest landed verified) :
      Turn params w .put
        { w with
          phase := .writing offer written target rest true verified
          budget := w.budget.setBudgeted target.1 target.2 }
  | readBack {offer : CoordinatedOffer} {written rest : Targets} {target : CategoryId × Money}
      {verified : Bool} (hphase : w.phase = .writing offer written target rest true verified) :
      Turn params w .readBack
        { w with
          phase := pastTarget params.period offer written target rest
            (verified && decide (w.budget.readBudgeted target.1 = some target.2)) }
  | logged {offer : CoordinatedOffer} {targets : Targets}
      (hphase : w.phase = .logging offer targets) :
      Turn params w .logged
        { w with
          phase := .closing (.applied offer.total) ("ybalance-applied-" ++ params.period) .applied
          movesLogged := w.movesLogged ++ offer.moves }
  | answered {offer : CoordinatedOffer} {question : String}
      (hphase : w.phase = .clarifying offer question) :
      Turn params w .sent
        { w with
          phase := .waiting offer
          notices := w.notices ++ [(.question question,
            "ybalance-clarify-" ++ params.period ++ "-" ++ toString w.clarifications)] }
  | closed {notice : BalanceNotice} {seqLabel : String} {outcome : BalanceOutcome}
      (hphase : w.phase = .closing notice seqLabel outcome) :
      Turn params w .sent
        { w with phase := .done outcome, notices := w.notices ++ [(notice, seqLabel)] }
  | failed : Turn params w .fail { w with phase := .failed }

/-- Every step is one of the turns. -/
theorem BalanceWorld.step_turn {params : BalanceParams} {w w' : BalanceWorld} {act : BalanceAct}
    (h : w.step params act = some w') : w.Turn params act w' := by
  cases act with
  | submitResponse message => cases h; exact .submitted message
  | edit budget => cases h; exact .edited budget
  | tick now =>
    simp only [step] at h
    split at h
    · rename_i hle; cases h; exact .ticked hle
    · cases h
  | readCategories =>
    simp only [step] at h
    split at h
    · rename_i hphase; cases h; exact .spendsRead (.inl hphase)
    · rename_i hphase; cases h; exact .spendsRead (.inr ⟨_, hphase⟩)
    · rename_i hphase; cases h; exact .spendsReread (.inl hphase)
    · rename_i hphase; cases h; exact .spendsReread (.inr ⟨_, hphase⟩)
    · cases h
  | readReady clock =>
    simp only [step] at h
    split at h
    · rename_i hphase; cases h; exact .proposed clock hphase
    · rename_i hphase; cases h; exact .stateRead clock hphase
    · cases h
  | opened threadId =>
    simp only [step] at h
    split at h
    · rename_i hphase
      split at h
      · rename_i hmoves; cases h; exact .uncovered threadId hphase hmoves
      · rename_i hmoves; cases h; exact .opened threadId hphase hmoves
    · cases h
  | timeout =>
    simp only [step] at h
    split at h
    · rename_i hphase
      split at h
      · rename_i hdue; cases h; exact .timedOut hphase hdue
      · cases h
    · cases h
  | take =>
    simp only [step] at h
    split at h
    · rename_i hphase hresponses; cases h; exact .taken hphase hresponses
    · cases h
  | interpreted verdict =>
    simp only [step] at h
    split at h
    · rename_i hphase
      cases verdict with
      | decline => cases h; exact .declined hphase
      | apply => cases h; exact .agreed hphase
      | clarify question => cases h; exact .asked question hphase
    · cases h
  | periodRead period =>
    simp only [step] at h
    split at h
    · rename_i hphase; cases h; exact .periodRead period hphase
    · cases h
  | put =>
    simp only [step] at h
    split at h
    · rename_i hphase
      split at h
      · cases h; exact .put hphase
      · cases h
    · cases h
  | readBack =>
    simp only [step] at h
    split at h
    · rename_i hphase; cases h; exact .readBack hphase
    · cases h
  | logged =>
    simp only [step] at h
    split at h
    · rename_i hphase; cases h; exact .logged hphase
    · cases h
  | sent =>
    simp only [step] at h
    split at h
    · rename_i hphase; cases h; exact .answered hphase
    · rename_i hphase; cases h; exact .closed hphase
    · cases h
  | fail =>
    simp only [step] at h
    split at h
    · cases h
    · cases h
    · cases h
    · cases h
    · cases h; exact .failed

abbrev BalanceBeat := Lib.Beat BalanceWorld BalanceAct

abbrev BalanceRun (params : BalanceParams) := Lib.Run (Lib.StepOf (BalanceWorld.step params))

/-! ## What came before -/

/-- The offer was opened on its thread. -/
def Offered (offer : CoordinatedOffer) : List BalanceBeat → Prop :=
  Lib.After (fun _ => True) fun beat =>
    (∃ threadId, beat.act = .opened threadId) ∧ beat.pre.phase = .opening offer

/-- And then a reply was read as apply. -/
def Agreed (offer : CoordinatedOffer) : List BalanceBeat → Prop :=
  Lib.After (Offered offer) fun beat =>
    beat.act = .interpreted .apply ∧ ∃ message, beat.pre.phase = .interpreting offer message

/-- And then the period was still that of the offer, and its moves fit the cap. -/
def InPeriod (params : BalanceParams) (offer : CoordinatedOffer) (ls : List BalanceBeat) : Prop :=
  Lib.After (Agreed offer) (fun beat => beat.act = .periodRead params.period) ls ∧
    offer.moves.length ≤ cautiousFloor.movesPerDayCap

/-- And then the categories were read. -/
def SpendsRead (params : BalanceParams) (offer : CoordinatedOffer) (spends : List CategorySpend) :
    List BalanceBeat → Prop :=
  Lib.After (InPeriod params offer) fun beat =>
    beat.act = .readCategories ∧ spends = categorySpends beat.pre.budget.groups

/-- And then Ready-to-Assign: the state the moves are checked against. -/
def StateRead (params : BalanceParams) (offer : CoordinatedOffer) (state : BudgetState)
    (ls : List BalanceBeat) : Prop :=
  ∃ spends clock, Lib.After (SpendsRead params offer spends) (fun beat =>
    beat.act = .readReady clock ∧
      state = readBudgetState spends beat.pre.budget.readyToAssign clock) ls

/-- The offered moves passed the check on such a state, and come to the targets. -/
def Accepted (params : BalanceParams) (offer : CoordinatedOffer) (targets : Targets)
    (ls : List BalanceBeat) : Prop :=
  ∃ state, StateRead params offer state ls ∧
    checkMoves offer.moves state.available cautiousFloor (some state.slack) = none ∧
    moveTargets offer.moves state.budgeted = .ok targets

/-- A target read back equal. -/
def Confirmed (target : CategoryId × Money) (ls : List BalanceBeat) : Prop :=
  ∃ beat ∈ ls, beat.act = .readBack ∧
    (∃ offer written rest landed verified,
      beat.pre.phase = .writing offer written target rest landed verified) ∧
    beat.pre.budget.readBudgeted target.1 = some target.2

/-- The beat writes a target. -/
def BalanceBeat.Writes (target : CategoryId × Money) (beat : BalanceBeat) : Prop :=
  beat.act = .put ∧ ∃ offer written rest landed verified,
    beat.pre.phase = .writing offer written target rest landed verified

/-- Nothing was written. -/
def Unwritten (ls : List BalanceBeat) : Prop :=
  ∀ beat ∈ ls, beat.act ≠ .put

/-- What a run that comes to an outcome has done. -/
def Ended (params : BalanceParams) (outcome : BalanceOutcome) (ls : List BalanceBeat) : Prop :=
  match outcome with
  | .applied => ∃ offer targets, Accepted params offer targets ls ∧
      ∀ target ∈ targets, Confirmed target ls
  | .verifyFailed => True
  | _ => Unwritten ls

/-- What a run has done when it stands at a phase. -/
def BalancePhase.Known (params : BalanceParams) (ls : List BalanceBeat) : BalancePhase → Prop
  | .proposing | .proposingReady _ | .opening _ => Unwritten ls
  | .waiting offer | .interpreting offer _ | .clarifying offer _ => Offered offer ls ∧ Unwritten ls
  | .checkingPeriod offer => Agreed offer ls ∧ Unwritten ls
  | .reading offer => InPeriod params offer ls ∧ Unwritten ls
  | .readingReady offer spends => SpendsRead params offer spends ls ∧ Unwritten ls
  | .writing offer written target rest _ verified =>
    Accepted params offer (written ++ target :: rest) ls ∧
      (verified = true → ∀ target ∈ written, Confirmed target ls)
  | .logging offer targets =>
    Accepted params offer targets ls ∧ ∀ target ∈ targets, Confirmed target ls
  | .closing _ _ outcome | .done outcome => Ended params outcome ls
  | .failed | .crashed _ => True

section snoc
variable {params : BalanceParams} {offer : CoordinatedOffer} {ls : List BalanceBeat}
  {beat : BalanceBeat}

theorem InPeriod.snoc (h : InPeriod params offer ls) : InPeriod params offer (ls ++ [beat]) :=
  ⟨h.1.snoc beat, h.2⟩

theorem StateRead.snoc {state : BudgetState} (h : StateRead params offer state ls) :
    StateRead params offer state (ls ++ [beat]) := by
  obtain ⟨spends, clock, h⟩ := h
  exact ⟨spends, clock, h.snoc beat⟩

theorem Accepted.snoc {targets : Targets} (h : Accepted params offer targets ls) :
    Accepted params offer targets (ls ++ [beat]) := by
  obtain ⟨state, hread, haccepted⟩ := h
  exact ⟨state, hread.snoc, haccepted⟩

theorem Confirmed.snoc {target : CategoryId × Money} (h : Confirmed target ls) :
    Confirmed target (ls ++ [beat]) :=
  Lib.exists_mem_snoc h beat

theorem Unwritten.snoc (h : Unwritten ls) (hbeat : beat.act ≠ .put) :
    Unwritten (ls ++ [beat]) := by
  intro beat' hmem
  rcases List.mem_append.1 hmem with hmem | hmem
  · exact h beat' hmem
  · rwa [List.mem_singleton.1 hmem]

theorem Ended.snoc {outcome : BalanceOutcome} (h : Ended params outcome ls)
    (hbeat : beat.act ≠ .put) : Ended params outcome (ls ++ [beat]) := by
  cases outcome with
  | applied =>
    obtain ⟨offer, targets, haccepted, hconfirmed⟩ := h
    exact ⟨offer, targets, haccepted.snoc, fun target ht => (hconfirmed target ht).snoc⟩
  | verifyFailed => trivial
  | couldNotCover => exact Unwritten.snoc h hbeat
  | timedOut => exact Unwritten.snoc h hbeat
  | declined => exact Unwritten.snoc h hbeat
  | stalePeriod => exact Unwritten.snoc h hbeat
  | overCap => exact Unwritten.snoc h hbeat
  | rejected detail => exact Unwritten.snoc h hbeat

/-- What was done stays done. -/
theorem BalancePhase.Known.snoc {phase : BalancePhase} (h : phase.Known params ls)
    (beat : BalanceBeat) (hbeat : beat.act ≠ .put) : phase.Known params (ls ++ [beat]) := by
  cases phase with
  | proposing => exact Unwritten.snoc h hbeat
  | proposingReady spends => exact Unwritten.snoc h hbeat
  | opening offer => exact Unwritten.snoc h hbeat
  | waiting offer => exact ⟨h.1.snoc beat, h.2.snoc hbeat⟩
  | interpreting offer message => exact ⟨h.1.snoc beat, h.2.snoc hbeat⟩
  | clarifying offer question => exact ⟨h.1.snoc beat, h.2.snoc hbeat⟩
  | checkingPeriod offer => exact ⟨h.1.snoc beat, h.2.snoc hbeat⟩
  | reading offer => exact ⟨h.1.snoc, h.2.snoc hbeat⟩
  | readingReady offer spends => exact ⟨h.1.snoc beat, h.2.snoc hbeat⟩
  | writing offer written target rest landed verified =>
    exact ⟨h.1.snoc, fun hverified target ht => (h.2 hverified target ht).snoc⟩
  | logging offer targets => exact ⟨h.1.snoc, fun target ht => (h.2 target ht).snoc⟩
  | closing notice seqLabel outcome => exact Ended.snoc h hbeat
  | done outcome => exact Ended.snoc h hbeat
  | failed => trivial
  | crashed error => trivial

end snoc

/-! ## The steps -/

section steps
variable {params : BalanceParams} {offer : CoordinatedOffer} {ls : List BalanceBeat}

theorem applyPeriod_known {period : String} (hunwritten : Unwritten ls)
    (hperiod : period = params.period → offer.moves.length ≤ cautiousFloor.movesPerDayCap →
      InPeriod params offer ls) : (applyPeriod params offer period).Known params ls := by
  unfold applyPeriod
  split
  · exact hunwritten
  · rename_i hsame
    split
    · exact hunwritten
    · rename_i hcap
      exact ⟨hperiod (by simpa using hsame) (Nat.not_lt.1 hcap), hunwritten⟩

theorem applyRead_known {state : BudgetState} (hunwritten : Unwritten ls)
    (hread : StateRead params offer state ls) :
    (applyRead params.period offer state).Known params ls := by
  unfold applyRead
  split
  · exact hunwritten
  · rename_i haccepted
    split
    · rename_i targets htargets
      have h : Accepted params offer targets ls := ⟨state, hread, haccepted, htargets⟩
      cases targets with
      | nil => exact ⟨h, fun target ht => absurd ht List.not_mem_nil⟩
      | cons target rest => exact ⟨h, fun _ target ht => absurd ht List.not_mem_nil⟩
    · trivial

theorem pastTarget_known {written rest : Targets} {target : CategoryId × Money} {verified : Bool}
    (haccepted : Accepted params offer (written ++ target :: rest) ls)
    (hconfirmed : verified = true → ∀ t ∈ written ++ [target], Confirmed t ls) :
    (pastTarget params.period offer written target rest verified).Known params ls := by
  unfold pastTarget
  split
  · rename_i next rest
    refine ⟨?_, hconfirmed⟩
    rwa [List.append_assoc]
  · split
    · rename_i hverified
      exact ⟨haccepted, hconfirmed hverified⟩
    · trivial

/-- What the next step adds. -/
theorem BalancePhase.Known.turn {w w' : BalanceWorld} {act : BalanceAct}
    (h : w.phase.Known params ls) (hturn : w.Turn params act w') :
    w'.phase.Known params (ls ++ [⟨w, act⟩]) := by
  -- what the next phase keeps of the one before
  have hsnoc : act ≠ .put → ∀ {phase}, w.phase = phase →
      phase.Known params (ls ++ [⟨w, act⟩]) := by
    rintro hact _ rfl
    exact h.snoc ⟨w, act⟩ hact
  cases hturn with
  | submitted message => exact hsnoc (by simp) rfl
  | edited budget => exact hsnoc (by simp) rfl
  | ticked hle => exact hsnoc (by simp) rfl
  | spendsRead hphase =>
    rcases hphase with hphase | ⟨spends, hphase⟩
    · have hnext := hsnoc (by simp) hphase
      exact hnext
    · have hnext := hsnoc (by simp) hphase
      exact hnext
  | @spendsReread offer hphase =>
    rcases hphase with hphase | ⟨spends, hphase⟩
    · have hnext := hsnoc (by simp) hphase
      rw [hphase] at h
      exact ⟨.last h.1 ⟨rfl, rfl⟩, hnext.2⟩
    · -- a retry reads the categories again
      have hnext := hsnoc (by simp) hphase
      rw [hphase] at h
      obtain ⟨before, beat, after, hls, hperiod, -⟩ := h.1
      have hperiod' : InPeriod params offer ls := by
        rw [hls]
        exact ⟨.append hperiod.1 _, hperiod.2⟩
      exact ⟨.last hperiod' ⟨rfl, rfl⟩, hnext.2⟩
  | proposed clock hphase =>
    have hnext := hsnoc (by simp) hphase
    exact hnext
  | stateRead clock hphase =>
    have hnext := hsnoc (by simp) hphase
    rw [hphase] at h
    exact applyRead_known hnext.2 ⟨_, clock, .last h.1 ⟨rfl, rfl⟩⟩
  | uncovered threadId hphase hmoves =>
    have hnext := hsnoc (by simp) hphase
    exact hnext
  | opened threadId hphase hmoves =>
    exact ⟨.last trivial ⟨⟨threadId, rfl⟩, hphase⟩, hsnoc (by simp) hphase⟩
  | timedOut hphase hdue =>
    have hnext := hsnoc (by simp) hphase
    exact hnext.2
  | taken hphase hresponses =>
    have hnext := hsnoc (by simp) hphase
    exact hnext
  | declined hphase =>
    have hnext := hsnoc (by simp) hphase
    exact hnext.2
  | @agreed offer message hphase =>
    have hnext := hsnoc (by simp) hphase
    rw [hphase] at h
    exact ⟨.last h.1 ⟨rfl, message, hphase⟩, hnext.2⟩
  | asked question hphase =>
    have hnext := hsnoc (by simp) hphase
    exact hnext
  | periodRead period hphase =>
    have hnext := hsnoc (by simp) hphase
    rw [hphase] at h
    refine applyPeriod_known hnext.2 fun hperiod hcap => ⟨.last h.1 ?_, hcap⟩
    rw [hperiod]
  | put hphase =>
    rw [hphase] at h
    exact ⟨h.1.snoc, fun hverified t ht => (h.2 hverified t ht).snoc⟩
  | readBack hphase =>
    have hnext := hsnoc (by simp) hphase
    refine pastTarget_known hnext.1 fun hverified t ht => ?_
    rw [Bool.and_eq_true] at hverified
    rcases List.mem_append.1 ht with ht | ht
    · exact hnext.2 hverified.1 t ht
    · rw [List.mem_singleton.1 ht]
      exact Lib.exists_mem_last
        ⟨rfl, ⟨_, _, _, _, _, hphase⟩, of_decide_eq_true hverified.2⟩
  | logged hphase =>
    have hnext := hsnoc (by simp) hphase
    exact ⟨_, _, hnext⟩
  | answered hphase =>
    have hnext := hsnoc (by simp) hphase
    exact hnext
  | closed hphase =>
    have hnext := hsnoc (by simp) hphase
    exact hnext
  | failed => trivial

/-- Only an edit by others and a write of the current target change the budget. -/
theorem BalanceWorld.Turn.budget {w w' : BalanceWorld} {act : BalanceAct}
    (hturn : w.Turn params act w') (hchange : w'.budget ≠ w.budget) :
    (∃ budget, act = .edit budget) ∨ ∃ target, BalanceBeat.Writes target ⟨w, act⟩ ∧
      w'.budget = w.budget.setBudgeted target.1 target.2 := by
  cases hturn with
  | edited budget => exact .inl ⟨budget, rfl⟩
  | put hphase => exact .inr ⟨_, ⟨rfl, _, _, _, _, _, hphase⟩, rfl⟩
  | _ => exact absurd rfl hchange

end steps

/-! ## Whole runs -/

section runs
variable {params : BalanceParams} {w w' : BalanceWorld} {beats : List BalanceBeat}

theorem BalanceRun.known (hrun : BalanceRun params w beats w') (hstart : w.phase = .proposing) :
    w'.phase.Known params beats := by
  refine hrun.history (P := fun ls v => v.phase.Known params ls) ?_ ?_
  · rw [hstart]
    intro beat hbeat
    cases hbeat
  · intro ls u beat v _ hknown hstep
    cases hstep with
    | step hs => exact hknown.turn (BalanceWorld.step_turn hs)

/-- At each step of a run it is known what the steps before it did. -/
theorem BalanceRun.known_at (hrun : BalanceRun params w beats w') (hstart : w.phase = .proposing)
    {before after : List BalanceBeat} {beat : BalanceBeat}
    (hbeats : beats = before ++ beat :: after) :
    beat.pre.phase.Known params before ∧ ∃ v, beat.pre.step params beat.act = some v := by
  rw [hbeats] at hrun
  obtain ⟨u, hbefore, hafter⟩ := hrun.of_append
  obtain ⟨v, hstep, -⟩ := hafter.cons_inv
  cases hstep with
  | step hs => exact ⟨BalanceRun.known hbefore hstart, v, hs⟩

/-- **Writes are agreed to.** A category's budget is written only after the offer was opened, a
reply read as apply, the period found to be that of the offer, and the offered moves, within the
cap, accepted on a state read after that; the amount is that state's and the net of the moves.
Nothing else a run does changes the budget. A run that ends otherwise than applied or unverified has
written nothing, and one that ends as applied has read every target back equal. -/
theorem writes_agreed (hrun : BalanceRun params w beats w') (hstart : w.phase = .proposing) :
    (∀ before beat after, beats = before ++ beat :: after →
      (∀ target, beat.Writes target → ∃ offer state, StateRead params offer state before ∧
        offer.moves.length ≤ cautiousFloor.movesPerDayCap ∧
        checkMoves offer.moves state.available cautiousFloor (some state.slack) = none ∧
        ∃ amount, state.budgeted target.1 = some amount ∧
          target.2 = amount + netChange offer.moves target.1) ∧
      ∀ v, beat.pre.step params beat.act = some v → v.budget ≠ beat.pre.budget →
        (∃ budget, beat.act = .edit budget) ∨ ∃ target, beat.Writes target ∧
          v.budget = beat.pre.budget.setBudgeted target.1 target.2) ∧
    (∀ outcome, w'.phase = .done outcome → outcome ≠ .applied → outcome ≠ .verifyFailed →
      Unwritten beats) ∧
    (w'.phase = .done .applied → ∃ offer targets, Accepted params offer targets beats ∧
      ∀ target ∈ targets, Confirmed target beats) := by
  have hend := BalanceRun.known hrun hstart
  refine ⟨?_, ?_, ?_⟩
  · intro before beat after hbeats
    obtain ⟨hknown, -⟩ := BalanceRun.known_at hrun hstart hbeats
    refine ⟨?_, fun v hstep hchange => (BalanceWorld.step_turn hstep).budget hchange⟩
    rintro target ⟨-, offer, written, rest, landed, verified, hphase⟩
    rw [hphase] at hknown
    obtain ⟨⟨state, hread, haccepted, htargets⟩, -⟩ := hknown
    refine ⟨offer, state, hread, ?_, haccepted, ?_⟩
    · obtain ⟨spends, clock, before₁, beat₁, after₁, hls₁, hspends, -⟩ := hread
      obtain ⟨before₂, beat₂, after₂, hls₂, hperiod, -⟩ := hspends
      exact hperiod.2
    · exact (moveTargets_eq_ok htargets).2 target (by simp)
  · intro outcome hphase hnot hnot'
    rw [hphase] at hend
    cases outcome with
    | applied => exact absurd rfl hnot
    | verifyFailed => exact absurd rfl hnot'
    | couldNotCover => exact hend
    | timedOut => exact hend
    | declined => exact hend
    | stalePeriod => exact hend
    | overCap => exact hend
    | rejected detail => exact hend
  · intro hphase
    rw [hphase] at hend
    exact hend

end runs

def livingBudget : YnabBudget := ⟨livingGroups 150000, ⟨9000000⟩⟩

def livingParams : BalanceParams :=
  ⟨(categorySpends (livingGroups 150000)).map fun spend => assess spend dayTen, "2026-07"⟩

/-- The offer is agreed to at the first reply, and its one write lands. -/
def livingCovered : List BalanceAct :=
  [.readCategories, .readReady dayTen, .opened "t1", .submitResponse ⟨"m1", "go ahead"⟩, .take,
    .interpreted .apply, .periodRead "2026-07", .readCategories, .readReady dayTen, .put, .readBack,
    .logged, .sent]

theorem living_covered :
    ∃ beats w, BalanceRun livingParams { budget := livingBudget } beats w ∧
      w.phase = .done .applied ∧ w.budget.readBudgeted "dining" = some ⟨250000⟩ ∧
      ∃ offer targets, Accepted livingParams offer targets beats ∧
        ∀ target ∈ targets, Confirmed target beats := by
  have hexec : ∃ beats w,
      Lib.exec (BalanceWorld.step livingParams) { budget := livingBudget } livingCovered =
        some (beats, w) ∧
      w.phase = .done .applied ∧ w.budget.readBudgeted "dining" = some ⟨250000⟩ :=
    ⟨_, _, rfl, by rfl, by decide +kernel⟩
  obtain ⟨beats, w, hexec, hphase, hbudget⟩ := hexec
  have hrun := Lib.exec_run hexec
  exact ⟨beats, w, hrun, hphase, hbudget, (writes_agreed hrun rfl).2.2 hphase⟩

end YnabAgent
