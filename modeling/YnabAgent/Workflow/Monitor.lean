import YnabAgent.Budget.Ledger
import YnabAgent.Budget.Message
import YnabAgent.Lib.Run
import YnabAgent.Mail.Alerts
import Mathlib.Data.List.Chain

/-!
# The overspend monitor

A daily pass assesses each category and alerts what is off track and survives the dedupe
(`workflow/monitor_workflow.py`). A run is the checks of the passes one after the other, days going
forward, with other mail coming in between. The alerts of a category in a period form a chain, each
against the last (`Traced`): `alerts_surpass` and `alerts_posted_once` are read off it.
-/

namespace YnabAgent

/-! ## The passes -/

/-- An alert sent, with the day of its pass. -/
structure SentAlert where
  date : LocalDate
  assessment : OverspendAssessment
  deriving DecidableEq

namespace SentAlert

def period (alert : SentAlert) : String := alert.date.period

/-- What the ledger keeps of it. -/
def toPrior (alert : SentAlert) : PriorAlert :=
  { verdict := alert.assessment.verdict, projected := alert.assessment.projected }

def updateLabel (alert : SentAlert) : String :=
  overspendUpdateLabel alert.assessment alert.period

/-- Whether it is of the category and the period. -/
def isOf (category : CategoryId) (period : String) (alert : SentAlert) : Bool :=
  decide (alert.assessment.category = category ∧ alert.period = period)

end SentAlert

/-- The ledger, the mailbox, the day of the last check, and the alerts sent in order. -/
structure MonitorWorld where
  ledger : OverspendLedgerState := {}
  box : AlertBox := []
  today : Option LocalDate := none
  sent : List SentAlert := []

/-- A check of a category in the pass of a day, with the thread the server would make and the
retries of the send; or other mail. -/
inductive MonitorAct
  | check (date : LocalDate) (spend : CategorySpend) (fresh : ThreadId) (retries : Nat)
  | receive (message : LabelledMessage)

/-- The alert of a pass, to the box. -/
def sendOverspendAlert (assessment : OverspendAssessment) (date : LocalDate) (fresh : ThreadId)
    (box : AlertBox) : AlertBox :=
  let daysLeft := date.clock.daysInMonth - date.clock.dayOfMonth
  (box.alertOnThread (overspendSubject assessment) (overspendBody assessment daysLeft)
    (overspendThreadLabel assessment date.period) (overspendUpdateLabel assessment date.period)
    fresh).1

namespace MonitorWorld

/-- The body of the loop over the categories. -/
def check (w : MonitorWorld) (date : LocalDate) (spend : CategorySpend) (fresh : ThreadId)
    (retries : Nat) : MonitorWorld :=
  let (period, clock) := periodAndClock date
  let assessment := assess spend clock
  if assessment.verdict = .ok then { w with today := some date }
  else if shouldAlert assessment (w.ledger.prior spend.category period) then
    { ledger := w.ledger.record spend.category period ⟨assessment.verdict, assessment.projected⟩
      box := (sendOverspendAlert assessment date fresh)^[retries + 1] w.box
      today := some date
      sent := w.sent ++ [⟨date, assessment⟩] }
  else { w with today := some date }

/-- Time goes forward. -/
def step (w : MonitorWorld) : MonitorAct → Option MonitorWorld
  | .check date spend fresh retries =>
    if ∀ day ∈ w.today, day.before date then some (w.check date spend fresh retries) else none
  | .receive message => some { w with box := w.box ++ [message] }

end MonitorWorld

abbrev MonitorBeat := Lib.Beat MonitorWorld MonitorAct

/-- The runs of the monitor. A daily pass is the checks of its categories, one after the other, on
one day. -/
abbrev MonitorRun := Lib.Run (Lib.StepOf MonitorWorld.step)

/-! ## What a step does -/

/-- The retries of a send come to one send. -/
theorem iterate_sendOverspendAlert (assessment : OverspendAssessment) (date : LocalDate)
    (fresh : ThreadId) (retries : Nat) (box : AlertBox) :
    (sendOverspendAlert assessment date fresh)^[retries + 1] box =
      sendOverspendAlert assessment date fresh box :=
  AlertBox.iterate_alertOnThread retries

/-- The change of a step: other mail, a check without an alert, or an alert. -/
inductive MonitorWorld.Turn (w : MonitorWorld) : MonitorAct → MonitorWorld → Prop
  | mail (message : LabelledMessage) :
      w.Turn (.receive message) { w with box := w.box ++ [message] }
  | quiet {date : LocalDate} {spend : CategorySpend} {fresh : ThreadId} {retries : Nat}
      (hday : ∀ day ∈ w.today, day.before date) :
      w.Turn (.check date spend fresh retries) { w with today := some date }
  | alert {date : LocalDate} {spend : CategorySpend} {fresh : ThreadId} {retries : Nat}
      (hday : ∀ day ∈ w.today, day.before date)
      (hverdict : (assess spend date.clock).verdict ≠ .ok)
      (hshould : shouldAlert (assess spend date.clock)
        (w.ledger.prior spend.category date.period) = true) :
      w.Turn (.check date spend fresh retries)
        { ledger := w.ledger.record spend.category date.period
            (SentAlert.toPrior ⟨date, assess spend date.clock⟩)
          box := sendOverspendAlert (assess spend date.clock) date fresh w.box
          today := some date
          sent := w.sent ++ [⟨date, assess spend date.clock⟩] }

theorem MonitorWorld.step_turn {w w' : MonitorWorld} {act : MonitorAct}
    (h : w.step act = some w') : w.Turn act w' := by
  cases act with
  | receive message =>
    cases h
    exact .mail message
  | check date spend fresh retries =>
    simp only [MonitorWorld.step] at h
    split at h
    · rename_i hday
      cases h
      unfold MonitorWorld.check periodAndClock
      simp only [iterate_sendOverspendAlert]
      split
      · exact .quiet hday
      · rename_i hverdict
        split
        · rename_i hshould
          exact .alert hday hverdict hshould
        · exact .quiet hday
    · cases h

/-! ## The chain of alerts -/

/-- Every alert a step admits against a prior one is related to it. -/
def MonitorBeat.Admits (R : PriorAlert → PriorAlert → Prop) (beat : MonitorBeat) : Prop :=
  ∀ date spend fresh retries, beat.act = .check date spend fresh retries →
    ∀ prior, beat.pre.ledger.prior spend.category date.period = some prior →
      shouldAlert (assess spend date.clock) (some prior) = true →
      R prior (SentAlert.toPrior ⟨date, assess spend date.clock⟩)

/-- The beat is a check that makes the alert. -/
def MonitorBeat.Raises (alert : SentAlert) (beat : MonitorBeat) : Prop :=
  ∃ spend fresh retries, beat.act = .check alert.date spend fresh retries ∧
    alert.assessment = assess spend alert.date.clock

/-- The alerts since some moment: in the order of their days, each off track, the last of a category
in the current period on the ledger, and those of a category in a period a chain. -/
structure Traced (R : PriorAlert → PriorAlert → Prop) (alerts : List SentAlert)
    (w : MonitorWorld) : Prop where
  dated : ∀ alert ∈ alerts, ∃ day ∈ w.today, alert.date.before day
  sorted : alerts.Pairwise fun a b => a.date.before b.date
  flagged : ∀ alert ∈ alerts, alert.assessment.verdict ≠ .ok
  kept : ∀ date, (∀ day ∈ w.today, day.before date) → ∀ category,
    ∀ last ∈ (alerts.filter (SentAlert.isOf category date.period)).getLast?,
      w.ledger.prior category date.period = some last.toPrior
  chain : ∀ category period,
    ((alerts.filter (SentAlert.isOf category period)).map SentAlert.toPrior).IsChain R

namespace Traced

variable {R : PriorAlert → PriorAlert → Prop} {alerts : List SentAlert} {w w' : MonitorWorld}

theorem init (w : MonitorWorld) : Traced R [] w where
  dated := fun alert h => absurd h List.not_mem_nil
  sorted := .nil
  flagged := fun alert h => absurd h List.not_mem_nil
  kept := by
    intro date _ category last hlast
    cases hlast
  chain := fun category period => .nil

theorem mail (h : Traced R alerts w) (message : LabelledMessage) :
    Traced R alerts { w with box := w.box ++ [message] } :=
  ⟨h.dated, h.sorted, h.flagged, h.kept, h.chain⟩

theorem quiet (h : Traced R alerts w) {date : LocalDate}
    (hday : ∀ day ∈ w.today, day.before date) :
    Traced R alerts { w with today := some date } where
  dated := by
    intro alert halert
    obtain ⟨day, hmem, hbefore⟩ := h.dated alert halert
    exact ⟨date, rfl, LocalDate.before_trans hbefore (hday day hmem)⟩
  sorted := h.sorted
  flagged := h.flagged
  kept := by
    intro later hlater
    exact h.kept later fun day hmem => LocalDate.before_trans (hday day hmem) (hlater date rfl)
  chain := h.chain

/-- The alerts of a category in a period, with one more. -/
theorem filter_snoc (alerts : List SentAlert) (alert : SentAlert) (category : CategoryId)
    (period : String) : (alerts ++ [alert]).filter (SentAlert.isOf category period) =
      alerts.filter (SentAlert.isOf category period) ++
        if alert.isOf category period then [alert] else [] := by
  rw [List.filter_append, List.filter_singleton, Bool.cond_eq_ite]

theorem alert (h : Traced R alerts w) {date : LocalDate} {spend : CategorySpend} {box : AlertBox}
    {sent : List SentAlert} (hday : ∀ day ∈ w.today, day.before date)
    (hverdict : (assess spend date.clock).verdict ≠ .ok)
    (hrelated : ∀ prior, w.ledger.prior spend.category date.period = some prior →
      R prior (SentAlert.toPrior ⟨date, assess spend date.clock⟩)) :
    Traced R (alerts ++ [⟨date, assess spend date.clock⟩])
      { ledger := w.ledger.record spend.category date.period
          (SentAlert.toPrior ⟨date, assess spend date.clock⟩)
        box, today := some date, sent } where
  dated := by
    intro alert halert
    rcases List.mem_append.1 halert with halert | halert
    · obtain ⟨day, hmem, hbefore⟩ := h.dated alert halert
      exact ⟨date, rfl, LocalDate.before_trans hbefore (hday day hmem)⟩
    · rw [List.mem_singleton.1 halert]
      exact ⟨date, rfl, LocalDate.before_refl date⟩
  sorted := by
    rw [List.pairwise_append]
    refine ⟨h.sorted, List.pairwise_singleton _ _, ?_⟩
    intro alert halert next hnext
    rw [List.mem_singleton.1 hnext]
    obtain ⟨day, hmem, hbefore⟩ := h.dated alert halert
    exact LocalDate.before_trans hbefore (hday day hmem)
  flagged := by
    intro alert halert
    rcases List.mem_append.1 halert with halert | halert
    · exact h.flagged alert halert
    · rw [List.mem_singleton.1 halert]
      exact hverdict
  kept := by
    intro later hlater category last hlast
    rw [filter_snoc] at hlast
    by_cases hof : SentAlert.isOf category later.period ⟨date, assess spend date.clock⟩ = true
    · rw [if_pos hof, List.getLast?_concat, Option.mem_some_iff] at hlast
      obtain ⟨hcategory, hperiod⟩ := of_decide_eq_true hof
      change spend.category = category at hcategory
      change date.period = later.period at hperiod
      rw [← hlast, ← hcategory, ← hperiod]
      exact OverspendLedgerState.prior_record_self
    · rw [if_neg hof, List.append_nil] at hlast
      -- an earlier alert of the later day's period: the day in between is of that period too
      obtain ⟨hmem, hisOf⟩ := List.mem_filter.1 (List.mem_of_getLast? hlast)
      obtain ⟨hcategory, hperiod⟩ := of_decide_eq_true hisOf
      obtain ⟨day, htoday, hbefore⟩ := h.dated last hmem
      have hcurrent : date.period = later.period :=
        LocalDate.period_between (LocalDate.before_trans hbefore (hday day htoday))
          (hlater date rfl) hperiod
      have hne : category ≠ spend.category := by
        intro heq
        exact hof (decide_eq_true ⟨heq.symm, hcurrent⟩)
      rw [OverspendLedgerState.prior_record_of_ne hne]
      exact h.kept later (fun day hmem => LocalDate.before_trans (hday day hmem) (hlater date rfl))
        category last hlast
  chain := by
    intro category period
    rw [filter_snoc]
    by_cases hof : SentAlert.isOf category period ⟨date, assess spend date.clock⟩ = true
    · rw [if_pos hof, List.map_append, List.map_singleton, List.isChain_append]
      refine ⟨h.chain category period, .singleton _, ?_⟩
      intro prior hprior next hnext
      rw [List.getLast?_map, Option.mem_map] at hprior
      obtain ⟨last, hlast, rfl⟩ := hprior
      rw [List.head?_singleton, Option.mem_some_iff] at hnext
      obtain ⟨hcategory, hperiod⟩ := of_decide_eq_true hof
      change spend.category = category at hcategory
      change date.period = period at hperiod
      rw [← hnext]
      apply hrelated
      rw [← hcategory, ← hperiod] at hlast
      exact h.kept date hday spend.category last hlast
    · rw [if_neg hof, List.append_nil]
      exact h.chain category period

/-- A step extends the alerts by those it sends. -/
theorem turn {act : MonitorAct} (h : Traced R alerts w)
    (hadmits : MonitorBeat.Admits R ⟨w, act⟩) (hturn : w.Turn act w') :
    ∃ more, w'.sent = w.sent ++ more ∧ Traced R (alerts ++ more) w' ∧
      ∀ alert ∈ more, MonitorBeat.Raises alert ⟨w, act⟩ := by
  cases hturn with
  | mail message =>
    refine ⟨[], by simp, ?_, fun alert halert => absurd halert List.not_mem_nil⟩
    rw [List.append_nil]
    exact h.mail message
  | quiet hday =>
    refine ⟨[], by simp, ?_, fun alert halert => absurd halert List.not_mem_nil⟩
    rw [List.append_nil]
    exact h.quiet hday
  | alert hday hverdict hshould =>
    refine ⟨_, rfl, h.alert hday hverdict ?_, ?_⟩
    · intro prior hprior
      rw [hprior] at hshould
      exact hadmits _ _ _ _ rfl prior hprior hshould
    · intro alert halert
      rw [List.mem_singleton.1 halert]
      exact ⟨_, _, _, rfl, rfl⟩

/-- A run extends the alerts by those of its checks. -/
theorem run {beats : List MonitorBeat} (hrun : MonitorRun w beats w') (h : Traced R alerts w)
    (hadmits : ∀ beat ∈ beats, beat.Admits R) :
    ∃ more, w'.sent = w.sent ++ more ∧ Traced R (alerts ++ more) w' ∧
      ∀ alert ∈ more, ∃ beat ∈ beats, beat.Raises alert := by
  induction hrun generalizing alerts with
  | nil w =>
    exact ⟨[], by simp, by rwa [List.append_nil], fun alert halert =>
      absurd halert List.not_mem_nil⟩
  | @cons w v w' beat beats hstep _ ih =>
    rw [List.forall_mem_cons] at hadmits
    cases hstep with
    | step hs =>
      obtain ⟨first, hfirst, htraced, hraised⟩ := h.turn hadmits.1 (MonitorWorld.step_turn hs)
      obtain ⟨rest, hrest, htraced', hraised'⟩ := ih htraced hadmits.2
      refine ⟨first ++ rest, ?_, ?_, ?_⟩
      · rw [hrest, hfirst, List.append_assoc]
      · rwa [← List.append_assoc]
      · intro alert halert
        rcases List.mem_append.1 halert with halert | halert
        · exact ⟨_, List.mem_cons_self, hraised alert halert⟩
        · obtain ⟨beat', hbeat, hraises⟩ := hraised' alert halert
          exact ⟨beat', List.mem_cons_of_mem _ hbeat, hraises⟩

end Traced

/-! ## Each alert against the last -/

/-- An alert goes over where the last had not, or has a projection higher by more than the
threshold. -/
def PriorAlert.Surpasses (next last : PriorAlert) : Prop :=
  next.verdict = .alreadyOver ∧ last.verdict ≠ .alreadyOver ∨
    defaultOverspendPolicy.trendThreshold.milliunits <
      next.projected.milliunits - last.projected.milliunits

theorem surpasses_of_shouldAlert {assessment : OverspendAssessment} {prior : PriorAlert}
    (h : shouldAlert assessment (some prior) = true) :
    PriorAlert.Surpasses ⟨assessment.verdict, assessment.projected⟩ prior := by
  unfold shouldAlert at h
  split at h
  · cases h
  · have hgrounds := of_decide_eq_true h
    exact hgrounds

theorem shouldAlert_none {assessment : OverspendAssessment} (h : assessment.verdict ≠ .ok) :
    shouldAlert assessment none = true := by
  unfold shouldAlert
  rw [if_neg h]

/-- On a later day of the period the same figures do not surpass. -/
theorem not_surpasses (spend : CategorySpend) {date date' : LocalDate} (h : date.before date')
    (hperiod : date.period = date'.period) :
    ¬ PriorAlert.Surpasses (SentAlert.toPrior ⟨date', assess spend date'.clock⟩)
      (SentAlert.toPrior ⟨date, assess spend date.clock⟩) := by
  obtain ⟨hyear, hmonth⟩ := LocalDate.period_eq_iff.1 hperiod
  have hday : date.day ≤ date'.day := by
    unfold LocalDate.before at h
    omega
  have hdays : date'.clock.daysInMonth = date.clock.daysInMonth := by
    change (monthDays date'.year date'.month : Int) = monthDays date.year date.month
    rw [hyear, hmonth]
  have hprojected := projected_le_add_one spend hdays (Int.ofNat_le.2 hday)
  have hthreshold : (1 : Int) < defaultOverspendPolicy.trendThreshold.milliunits := by decide
  rintro (⟨hover, hnot⟩ | hworse)
  · exact hnot ((assess_verdict_eq_alreadyOver_iff spend date.clock).2
      ((assess_verdict_eq_alreadyOver_iff spend date'.clock).1 hover))
  · change _ < (projectSpend spend date'.clock).milliunits -
      (projectSpend spend date.clock).milliunits at hworse
    omega

/-- While nothing is recorded in a period, it stays clean. -/
theorem MonitorRun.prior_none {w w' : MonitorWorld} {beats : List MonitorBeat} {period : String}
    (hrun : MonitorRun w beats w')
    (hother : ∀ beat ∈ beats, ∀ date spend fresh retries,
      beat.act = .check date spend fresh retries → date.period ≠ period)
    (hclean : ∀ category, w.ledger.prior category period = none) :
    ∀ category, w'.ledger.prior category period = none := by
  refine hrun.invariant_of (I := fun w => ∀ category, w.ledger.prior category period = none)
    (C := fun beat => ∀ date spend fresh retries,
      beat.act = .check date spend fresh retries → date.period ≠ period) ?_ hother hclean
  intro u beat v hclean hother hstep
  cases hstep with
  | step hs =>
    cases MonitorWorld.step_turn hs with
    | mail message => exact hclean
    | quiet hday => exact hclean
    | alert hday hverdict hshould =>
      intro category
      exact OverspendLedgerState.prior_record_of_period_ne (Ne.symm (hother _ _ _ _ rfl))
        (hclean category)

/-- The figures of a category that the checks of a period show, under whatever name. -/
def MonitorBeat.Shows (spend : CategorySpend) (period : String) (beat : MonitorBeat) : Prop :=
  ∀ date shown fresh retries, beat.act = .check date shown fresh retries →
    date.period = period → shown.category = spend.category →
      shown = { spend with name := shown.name }

/-- **The alerts of a run of passes.** Each alert of a category in a period surpasses the last one;
while the figures of the category are fixed there is one at most; and in a period without an alert
so far, whatever is on record of others, every category off track is alerted. -/
theorem alerts_surpass {w w' : MonitorWorld} {beats : List MonitorBeat}
    (hrun : MonitorRun w beats w') :
    (∃ alerts, w'.sent = w.sent ++ alerts ∧
      (∀ category period, ((alerts.filter (SentAlert.isOf category period)).map
        SentAlert.toPrior).IsChain fun last next => next.Surpasses last) ∧
      ∀ spend period, (∀ beat ∈ beats, beat.Shows spend period) →
        (alerts.filter (SentAlert.isOf spend.category period)).length ≤ 1) ∧
    ∀ date : LocalDate, (∀ beat ∈ beats, ∀ day spend fresh retries,
        beat.act = .check day spend fresh retries → day.period ≠ date.period) →
      (∀ category, w.ledger.prior category date.period = none) →
      ∀ spend, (assess spend date.clock).verdict ≠ .ok →
        shouldAlert (assess spend date.clock)
          (w'.ledger.prior spend.category date.period) = true := by
  constructor
  · have hadmits : ∀ beat ∈ beats, beat.Admits fun last next => next.Surpasses last :=
      fun beat _ date spend fresh retries _ prior _ h => surpasses_of_shouldAlert h
    obtain ⟨alerts, hsent, htraced, hraised⟩ := (Traced.init w).run hrun hadmits
    rw [List.nil_append] at htraced
    refine ⟨alerts, hsent, htraced.chain, ?_⟩
    intro spend period hshows
    have hchain := htraced.chain spend.category period
    have hsorted := htraced.sorted.filter (SentAlert.isOf spend.category period)
    have hfixed : ∀ alert ∈ alerts.filter (SentAlert.isOf spend.category period),
        alert.toPrior = SentAlert.toPrior ⟨alert.date, assess spend alert.date.clock⟩ ∧
          alert.date.period = period := by
      intro alert halert
      obtain ⟨hmem, hof⟩ := List.mem_filter.1 halert
      obtain ⟨hcategory, hperiod⟩ := of_decide_eq_true hof
      obtain ⟨beat, hbeat, shown, fresh, retries, hact, hassessment⟩ := hraised alert hmem
      rw [hassessment] at hcategory
      have hshown := hshows beat hbeat _ _ _ _ hact hperiod hcategory
      refine ⟨?_, hperiod⟩
      unfold SentAlert.toPrior
      rw [hassessment, hshown]
      rfl
    match hfilter : alerts.filter (SentAlert.isOf spend.category period) with
    | [] => exact Nat.zero_le 1
    | [_] => exact Nat.le_refl 1
    | first :: second :: rest =>
      rw [hfilter] at hchain hsorted hfixed
      obtain ⟨hfirst, hperiod⟩ := hfixed first List.mem_cons_self
      obtain ⟨hsecond, hperiod'⟩ := hfixed second (List.mem_cons_of_mem _ List.mem_cons_self)
      have hbefore := List.rel_of_pairwise_cons hsorted List.mem_cons_self
      have hsurpasses := (List.isChain_cons_cons.1 hchain).1
      rw [hfirst, hsecond] at hsurpasses
      exact absurd hsurpasses (not_surpasses spend hbefore (hperiod.trans hperiod'.symm))
  · intro date hother hclean spend hverdict
    rw [hrun.prior_none hother hclean spend.category]
    exact shouldAlert_none hverdict

/-! ### Dining in July -/

def july (day : Nat) (h : 1 ≤ day ∧ day ≤ 31) : LocalDate :=
  ⟨2026, 7, day, by decide, by decide, by simpa [monthDays] using h⟩

/-- The checks of a daily pass, one for each category. -/
def passChecks (date : LocalDate) (spends : List CategorySpend) : List MonitorAct :=
  spends.map fun spend => .check date spend "t1" 0

def diningTrending : CategorySpend :=
  { category := "dining", name := "Dining", budgeted := ⟨100000⟩, activity := ⟨-80000⟩
    balance := ⟨20000⟩ }

/-- Two passes over the same figures. -/
def diningUnchanged : List MonitorAct :=
  passChecks (july 10 (by decide)) [diningTrending] ++
    passChecks (july 11 (by decide)) [diningTrending]

theorem dining_alerted_once :
    ∃ beats w, MonitorRun {} beats w ∧ w.sent ≠ [] ∧
      (w.sent.filter (SentAlert.isOf "dining" "2026-07")).length ≤ 1 := by
  have hexec : ∃ b₁ b₂ : MonitorBeat, ∃ w,
      Lib.exec MonitorWorld.step {} diningUnchanged = some ([b₁, b₂], w) ∧
      w.sent ≠ [] ∧ b₁.Shows diningTrending "2026-07" ∧ b₂.Shows diningTrending "2026-07" := by
    refine ⟨_, _, _, rfl, by decide +kernel, ?_, ?_⟩
    · intro date shown fresh retries hact _ _
      cases hact
      rfl
    · intro date shown fresh retries hact _ _
      cases hact
      rfl
  obtain ⟨b₁, b₂, w, hexec, hsent, hshows₁, hshows₂⟩ := hexec
  have hrun := Lib.exec_run hexec
  obtain ⟨alerts, halerts, -, honce⟩ := (alerts_surpass hrun).1
  refine ⟨_, w, hrun, hsent, ?_⟩
  rw [halerts, List.nil_append]
  apply honce diningTrending "2026-07"
  rw [List.forall_mem_cons, List.forall_mem_singleton]
  exact ⟨hshows₁, hshows₂⟩

/-! ## One label each -/

/-- The later alert of two has the higher projection, or the same at the graver verdict. -/
def PriorAlert.Rises (last next : PriorAlert) : Prop :=
  last.projected.milliunits < next.projected.milliunits ∨
    last.projected = next.projected ∧ last.verdict ≠ .alreadyOver ∧ next.verdict = .alreadyOver

instance : Trans PriorAlert.Rises PriorAlert.Rises PriorAlert.Rises where
  trans := by
    rintro a b c (h | ⟨heq, hnot, hover⟩) (h' | ⟨heq', hnot', hover'⟩)
    · exact .inl (Int.lt_trans h h')
    · exact .inl (heq' ▸ h)
    · exact .inl (heq ▸ h')
    · exact absurd hover hnot'

/-- A category does not go over at a projection lower than the last alert's. -/
def MonitorBeat.Rising (beat : MonitorBeat) : Prop :=
  ∀ date spend fresh retries, beat.act = .check date spend fresh retries →
    ∀ prior, beat.pre.ledger.prior spend.category date.period = some prior →
      prior.verdict ≠ .alreadyOver → (assess spend date.clock).verdict = .alreadyOver →
        prior.projected.milliunits ≤ (assess spend date.clock).projected.milliunits

/-- Mail from elsewhere has no label of an update. -/
def LabelledMessage.Foreign (message : LabelledMessage) : Prop :=
  ∀ alert : SentAlert, alert.assessment.verdict ≠ .ok → alert.updateLabel ∉ message.labels

def MonitorBeat.MailForeign (beat : MonitorBeat) : Prop :=
  ∀ message, beat.act = .receive message → message.Foreign

theorem MonitorBeat.Rising.admits {beat : MonitorBeat} (h : beat.Rising) :
    beat.Admits PriorAlert.Rises := by
  intro date spend fresh retries hact prior hprior hshould
  have hthreshold : (0 : Int) < defaultOverspendPolicy.trendThreshold.milliunits := by decide
  rcases surpasses_of_shouldAlert hshould with ⟨hover, hnot⟩ | hworse
  · have hle := h date spend fresh retries hact prior hprior hnot hover
    rcases Int.lt_or_eq_of_le hle with hlt | heq
    · exact .inl hlt
    · exact .inr ⟨Money.ext_milliunits heq, hnot, hover⟩
  · left
    change _ < (assess spend date.clock).projected.milliunits
    simp only at hworse
    omega

/-- Each alert sent is on record once, and no other update. -/
structure Posted (w : MonitorWorld) : Prop where
  once : ∀ alert ∈ w.sent, w.box.posted alert.updateLabel = 1
  none : ∀ alert : SentAlert, alert.assessment.verdict ≠ .ok →
    alert.updateLabel ∉ w.sent.map SentAlert.updateLabel → w.box.posted alert.updateLabel = 0

theorem posted_sendOverspendAlert_of_ne {alert : SentAlert} {assessment : OverspendAssessment}
    {date : LocalDate} {fresh : ThreadId} {box : AlertBox}
    (hflagged : alert.assessment.verdict ≠ .ok)
    (h : alert.updateLabel ≠ overspendUpdateLabel assessment date.period) :
    (sendOverspendAlert assessment date fresh box).posted alert.updateLabel =
      box.posted alert.updateLabel := by
  apply AlertBox.posted_alertOnThread_of_ne
  · exact updateLabel_ne_of_head (by decide) _ _
  · exact (threadLabel_ne_updateLabel hflagged).symm
  · exact h

/-- What a step posts. -/
theorem Posted.turn {w w' : MonitorWorld} {act : MonitorAct} (h : Posted w)
    (hflagged : ∀ alert ∈ w'.sent, alert.assessment.verdict ≠ .ok)
    (hlabels : (w'.sent.map SentAlert.updateLabel).Nodup)
    (hforeign : MonitorBeat.MailForeign ⟨w, act⟩) (hturn : w.Turn act w') : Posted w' := by
  cases hturn with
  | mail message =>
    have hsame : ∀ alert : SentAlert, alert.assessment.verdict ≠ .ok →
        AlertBox.posted (w.box ++ [message]) alert.updateLabel =
          w.box.posted alert.updateLabel := by
      intro alert halert
      rw [AlertBox.posted_snoc, if_neg (hforeign message rfl alert halert), Nat.add_zero]
    constructor
    · intro alert halert
      rw [hsame alert (hflagged alert halert)]
      exact h.once alert halert
    · intro alert halert hnew
      rw [hsame alert halert]
      exact h.none alert halert hnew
  | quiet hday => exact ⟨h.once, h.none⟩
  | @alert date spend fresh retries hday hverdict hshould =>
    rw [List.map_append, List.map_singleton, List.nodup_append] at hlabels
    obtain ⟨-, -, hdisjoint⟩ := hlabels
    have hnew : w.box.posted (SentAlert.updateLabel ⟨date, assess spend date.clock⟩) = 0 := by
      apply h.none _ hverdict
      intro hmem
      exact hdisjoint _ hmem _ List.mem_cons_self rfl
    constructor
    · intro alert halert
      rcases List.mem_append.1 halert with hold | hlast
      · rw [posted_sendOverspendAlert_of_ne (hflagged alert halert)]
        · exact h.once alert hold
        · exact hdisjoint _ (List.mem_map_of_mem hold) _ List.mem_cons_self
      · rw [List.mem_singleton.1 hlast]
        exact AlertBox.posted_alertOnThread hnew
    · intro alert halert hother
      rw [List.map_append, List.mem_append, not_or] at hother
      rw [posted_sendOverspendAlert_of_ne halert]
      · exact h.none alert halert hother.1
      · intro heq
        exact hother.2 (heq ▸ List.mem_cons_self)

end YnabAgent
