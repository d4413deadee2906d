import YnabAgent.Agentic.Enrich
import YnabAgent.Lib.Admission
import YnabAgent.Workflow.Calls

/-!
# The auto-actions of all transactions

The workflows of any number of transactions run side by side (`workflow/activities.py`,
`workflow/auto_action_ledger_workflow.py`). An enrich attempt reads the ledger's counters and rules;
the outcome returns to its workflow later, the commit comes later still, and its record is a signal
that the ledger folds in when it comes to it. An attempt may have its effect without returning.

To each rate limit of the floor the fleet is an admission (`Fleet.admission`): a transaction is
admitted by a ruling to auto-apply, and commits after it.
-/

namespace YnabAgent

/-! ## The fleet -/

/-- A transaction's run, with the outcome its enrich activity has come to but not returned. -/
structure TriageRun where
  driver : Driver
  ruled : Option EnrichmentOutcome := none

inductive FleetEventKind
  | committed | recorded
  deriving DecidableEq

/-- An auto-commit, or its record landed in the ledger. -/
structure FleetEvent where
  ynabId : YnabTransactionId
  «at» : Datetime
  kind : FleetEventKind
  deriving DecidableEq

def FleetEvent.commit? : FleetEvent → Option (YnabTransactionId × Int)
  | ⟨id, t, .committed⟩ => some (id, t)
  | ⟨_, _, .recorded⟩ => none

/-- The time, the latest run of each transaction, the ledger with the records on their way to it,
and what happened, the latest first. -/
structure Fleet where
  clock : Datetime
  runs : YnabTransactionId → Option TriageRun := fun _ => none
  ledger : AutoActionLedgerState := {}
  inFlight : List YnabTransactionId := []
  log : List FleetEvent := []

/-- What an enrich attempt reads: its clock at the start, the candidates, the payee's rules, the
model, and whether the ledger could be queried. -/
structure EnrichAttempt where
  now : Datetime
  candidates : List CandidateCategory
  rules : List Rule
  propose : EnrichmentRequest → EnrichmentSuggestion
  reached : Bool := true

namespace EnrichAttempt

/-- A ledger out of reach counts nothing. -/
def counters (a : EnrichAttempt) (ledger : AutoActionLedgerState) : AutoActionCounters :=
  if a.reached then ledger.counters a.now else {}

def outcome (text : PyText) (a : EnrichAttempt) (ledger : AutoActionLedgerState)
    (snapshot : YnabSnapshot) : Except ActivityFailure EnrichmentOutcome :=
  decideEnrichment text a.propose snapshot a.candidates a.rules (a.counters ledger) a.now

end EnrichAttempt

inductive FleetAct
  | tick (now : Datetime)
  | start (ynabId : YnabTransactionId)
  /-- A step of a run, but for the return of the activities below. -/
  | drive (ynabId : YnabTransactionId) (act : Driver.Act)
  | enrich (ynabId : YnabTransactionId) (attempt : EnrichAttempt)
  /-- The enrich activity returns. -/
  | rule (ynabId : YnabTransactionId) (m : Moment)
  /-- An attempt of `commit_to_ynab` that writes. -/
  | commit (ynabId : YnabTransactionId) (returns : Option Moment)
  /-- An attempt of `record_auto_action`, which swallows a failure to send. -/
  | record (ynabId : YnabTransactionId) (sent : Bool) (returns : Option Moment)
  | land (ynabId : YnabTransactionId)

/-- Whether an act is an enrich attempt. -/
def FleetAct.gates : FleetAct → Bool
  | .enrich _ _ => true
  | _ => false

/-- Whether an act ends an activity the fleet answers itself. -/
def Driver.Act.answered (pc : Suspended) : Driver.Act → Bool
  | .returned _ (.enriched _) => true
  | .returned _ .done =>
    match pc with
    | .calling (.commitToYnab _) _ _ | .calling (.recordAutoAction _) _ _ => true
    | _ => false
  | _ => false

/-- A transaction may be auto-committed in this run without another ruling. -/
def TriageRun.Live (run : TriageRun) : Prop :=
  (∃ decision, run.ruled = some (.autoApply decision)) ∨ run.driver.autoCommitting = true

namespace Fleet

def setRun (w : Fleet) (ynabId : YnabTransactionId) (run : TriageRun) : Fleet :=
  { w with runs := Function.update w.runs ynabId (some run) }

section steps
variable (text : PyText) {δ : Type} [DecidableEq δ] (digest : TargetState → δ)

/-- The activity of a run returned, where it did. -/
def answer (w : Fleet) (ynabId : YnabTransactionId) (run : TriageRun) :
    Option Moment → Option Fleet
  | none => some w
  | some m =>
    (run.driver.step text digest (.returned m .done)).map fun d => w.setRun ynabId { driver := d }

def step (w : Fleet) : FleetAct → Option Fleet
  | .tick now => if w.clock ≤ now then some { w with clock := now } else none
  | .start ynabId =>
    match w.runs ynabId with
    | none => some (w.setRun ynabId { driver := .start { ynabId } })
    | some run =>
      if run.driver.closed then some (w.setRun ynabId { driver := .start { ynabId } }) else none
  | .drive ynabId act =>
    match w.runs ynabId with
    | some run =>
      if act.answered run.driver.pc then none
      else
        (run.driver.step text digest act).map fun d =>
          w.setRun ynabId { driver := d, ruled := if act.resumes then none else run.ruled }
    | none => none
  | .enrich ynabId attempt =>
    match w.runs ynabId with
    | some run =>
      match run.driver.pc with
      | .calling (.enrich snapshot) _ _ =>
        if attempt.now ≤ w.clock then
          some (w.setRun ynabId
            { run with ruled := (attempt.outcome text w.ledger snapshot).toOption })
        else none
      | _ => none
    | none => none
  | .rule ynabId m =>
    match w.runs ynabId with
    | some ⟨driver, some outcome⟩ =>
      (driver.step text digest (.returned m (.enriched outcome))).map fun d =>
        w.setRun ynabId { driver := d }
    | _ => none
  | .commit ynabId returns =>
    match w.runs ynabId with
    | some run =>
      match run.driver.pc with
      | .calling (.commitToYnab _) _ _ =>
        let event : FleetEvent := ⟨ynabId, w.clock, .committed⟩
        { w with log := if run.driver.autoCommitting then event :: w.log else w.log }.answer
          text digest ynabId run returns
      | _ => none
    | none => none
  | .record ynabId sent returns =>
    match w.runs ynabId with
    | some run =>
      match run.driver.pc with
      | .calling (.recordAutoAction recorded) _ _ =>
        { w with inFlight := w.inFlight ++ if sent then [recorded] else [] }.answer
          text digest ynabId run returns
      | _ => none
    | none => none
  | .land ynabId =>
    if ynabId ∈ w.inFlight then
      some { w with ledger := w.ledger.record ynabId w.clock, inFlight := w.inFlight.erase ynabId,
                    log := ⟨ynabId, w.clock, .recorded⟩ :: w.log }
    else none

end steps

/-! ## What the caps are about -/

/-- The transactions auto-committed in the window of this width that ends at `time`. -/
def autoCommitted (w : Fleet) (width : Timedelta) (time : Datetime) : Set YnabTransactionId :=
  {id | ∃ t, ⟨id, t, .committed⟩ ∈ w.log ∧ t ≤ time ∧ time - t < width}

/-- The transactions that may be auto-committed without another ruling. -/
def live (w : Fleet) : Set YnabTransactionId :=
  {id | ∃ run, w.runs id = some run ∧ run.Live}

/-- What happened last to a transaction is an auto-commit: no record has landed since. -/
def Unrecorded (w : Fleet) (id : YnabTransactionId) : Prop :=
  ∃ t, w.log.find? (fun event => event.ynabId = id) = some ⟨id, t, .committed⟩

/-- The rate limits of the floor. -/
def limits : List (Timedelta × Nat) :=
  [(runWindow, cautiousFloor.perRunCap), (dayWindow, cautiousFloor.perDayCap)]

/-- The counter an attempt reads for a window. -/
def counted (w : Fleet) (attempt : EnrichAttempt) (width : Timedelta) : Nat :=
  if attempt.reached then w.ledger.countWithin attempt.now width else 0

/-- The other transactions the counter leaves out: ruled to auto-apply and not yet committed, or
committed within the window and not recorded since. -/
def unseen (w : Fleet) (ynabId : YnabTransactionId) (attempt : EnrichAttempt) (width : Timedelta) :
    Set YnabTransactionId :=
  {id | id ≠ ynabId ∧ (id ∈ w.live ∨ id ∈ w.autoCommitted width w.clock ∧
    (attempt.reached = true → w.Unrecorded id))}

/-- A ruling to auto-apply is made with nothing left out of its counters, or with room for it. -/
def Clear (text : PyText) (w : Fleet) : FleetAct → Prop
  | .enrich ynabId attempt =>
    ∀ run snapshot rest resume decision, w.runs ynabId = some run →
      run.driver.pc = .calling (.enrich snapshot) rest resume →
      attempt.outcome text w.ledger snapshot = .ok (.autoApply decision) →
        ∀ limit ∈ limits, w.unseen ynabId attempt limit.1 = ∅ ∨
          w.counted attempt limit.1 + (w.unseen ynabId attempt limit.1).encard < limit.2
  | _ => True

/-! ## The ledger of the fleet -/

variable {text : PyText} {δ : Type} [DecidableEq δ] {digest : TargetState → δ} {w w' : Fleet}
  {id ynabId : YnabTransactionId} {run : TriageRun} {attempt : EnrichAttempt}

/-- What every run keeps; a transaction to which a record happened last is in the ledger, until the
day is over. -/
structure Kept (w : Fleet) : Prop where
  calling : ∀ id run, w.runs id = some run → run.driver.Calling
  past : ∀ event ∈ w.log, event.at ≤ w.clock
  order : w.log.Pairwise fun later earlier => earlier.at ≤ later.at
  booked : ∀ id t, w.log.find? (fun event => event.ynabId = id) = some ⟨id, t, .recorded⟩ →
    ⟨id, t⟩ ∈ w.ledger.entries ∨ dayWindow ≤ w.clock - t

theorem kept_init (clock : Datetime) : Kept { clock } where
  calling id run hrun := by cases hrun
  past event hmem := by cases hmem
  order := .nil
  booked id t hfind := by cases hfind

theorem Kept.tick (h : Kept w) {now : Datetime} (hnow : w.clock ≤ now) :
    Kept { w with clock := now } where
  calling := h.calling
  past event hmem := (h.past event hmem).trans hnow
  order := h.order
  booked id t hfind := by
    have hbooked := h.booked id t hfind
    exact hbooked.imp_right fun hold => hold.trans (Int.sub_le_sub_right hnow t)

/-- The run of a transaction is the one set for it, or the one it had. -/
theorem runs_setRun {run' : TriageRun} (h : (w.setRun ynabId run).runs id = some run') :
    (id = ynabId ∧ run' = run) ∨ w.runs id = some run' := by
  have hruns : Function.update w.runs ynabId (some run) id = some run' := h
  by_cases hid : id = ynabId
  · rw [hid, Function.update_self] at hruns
    cases hruns
    exact .inl ⟨hid, rfl⟩
  · rw [Function.update_of_ne hid] at hruns
    exact .inr hruns

theorem Kept.setRun (h : Kept w) (hcalling : run.driver.Calling) : Kept (w.setRun ynabId run) where
  calling id run' hrun := by
    rcases runs_setRun hrun with ⟨-, rfl⟩ | hold
    · exact hcalling
    · exact h.calling id run' hold
  past := h.past
  order := h.order
  booked := h.booked

/-- Something more happens, now. -/
theorem Kept.happen (h : Kept w) (event : FleetEvent) (hat : event.at = w.clock) :
    (∀ e ∈ event :: w.log, e.at ≤ w.clock) ∧
      (event :: w.log).Pairwise fun later earlier => earlier.at ≤ later.at := by
  refine ⟨?_, List.pairwise_cons.2 ⟨?_, h.order⟩⟩
  · intro e hmem
    rcases List.mem_cons.1 hmem with heq | hold
    · rw [heq, hat]
    · exact h.past e hold
  · intro e hmem
    rw [hat]
    exact h.past e hmem

/-- A commit leaves the ledger as it is. -/
theorem Kept.commit (h : Kept w) (ynabId : YnabTransactionId) :
    Kept { w with log := ⟨ynabId, w.clock, .committed⟩ :: w.log } where
  calling := h.calling
  past := (h.happen ⟨ynabId, w.clock, .committed⟩ rfl).1
  order := (h.happen ⟨ynabId, w.clock, .committed⟩ rfl).2
  booked id t hfind := by
    rw [List.find?_cons] at hfind
    split at hfind
    · cases hfind
    · exact h.booked id t hfind

/-- A record is folded in, and drops nothing but what is a day old. -/
theorem Kept.land (h : Kept w) (ynabId : YnabTransactionId) (inFlight : List YnabTransactionId) :
    Kept { w with
      ledger := w.ledger.record ynabId w.clock
      inFlight
      log := ⟨ynabId, w.clock, .recorded⟩ :: w.log } where
  calling := h.calling
  past := (h.happen ⟨ynabId, w.clock, .recorded⟩ rfl).1
  order := (h.happen ⟨ynabId, w.clock, .recorded⟩ rfl).2
  booked id t hfind := by
    rw [List.find?_cons] at hfind
    split at hfind
    · cases hfind
      left
      exact List.mem_append_right _ List.mem_cons_self
    · rename_i hne
      have hne' : id ≠ ynabId := fun heq => of_decide_eq_false hne heq.symm
      rcases h.booked id t hfind with hmem | hold
      · by_cases hday : w.clock - t < dayWindow
        · left
          refine List.mem_append_left _ (List.mem_filter.2 ⟨hmem, ?_⟩)
          exact decide_eq_true ⟨hne', hday⟩
        · exact .inr (not_lt.1 hday)
      · exact .inr hold

/-! ## The admissions of the fleet -/

def admission (w : Fleet) : Lib.Admission YnabTransactionId where
  clock := w.clock
  live := w.live
  commits := w.log.filterMap FleetEvent.commit?

theorem mem_commits {t : Int} :
    (id, t) ∈ w.admission.commits ↔ ⟨id, t, .committed⟩ ∈ w.log := by
  unfold admission
  rw [List.mem_filterMap]
  constructor
  · rintro ⟨⟨id', t', kind⟩, hmem, heq⟩
    cases kind with
    | committed => cases heq; exact hmem
    | recorded => cases heq
  · intro hmem
    exact ⟨_, hmem, rfl⟩

theorem window_admission (w : Fleet) (width time : Int) :
    Lib.Admission.window w.admission.commits width time = w.autoCommitted width time := by
  ext id
  constructor
  · rintro ⟨t, hmem, hwindow⟩
    exact ⟨t, mem_commits.1 hmem, hwindow⟩
  · rintro ⟨t, hmem, hwindow⟩
    exact ⟨t, mem_commits.2 hmem, hwindow⟩

/-- A run replaced is the only one that may have become live. -/
theorem live_setRun (h : id ∈ (w.setRun ynabId run).live) :
    id ∈ w.live ∨ id = ynabId ∧ run.Live := by
  obtain ⟨run', hrun, hlive⟩ := h
  rcases runs_setRun hrun with ⟨hid, rfl⟩ | hold
  · exact .inr ⟨hid, hlive⟩
  · exact .inl ⟨run', hold, hlive⟩

theorem live_setRun_subset {old : TriageRun} (hold : w.runs ynabId = some old)
    (hlive : run.Live → old.Live) : (w.setRun ynabId run).live ⊆ w.live := by
  intro id hid
  rcases live_setRun hid with h | ⟨rfl, h⟩
  · exact h
  · exact ⟨old, hold, hlive h⟩

/-- A run that may not commit of itself changes no admission. -/
theorem live_setRun_of_not_live (hlive : ¬ run.Live) : (w.setRun ynabId run).live ⊆ w.live := by
  intro id hid
  rcases live_setRun hid with h | ⟨-, h⟩
  · exact h
  · exact absurd h hlive

theorem not_live_start (ynabId : YnabTransactionId) :
    ¬ TriageRun.Live { driver := .start { ynabId } } := by
  rintro (⟨decision, h⟩ | h)
  · cases h
  · cases h

/-- An activity that returned other than by a ruling leaves nothing to commit. -/
theorem not_live_of_done {d d' : Driver} {m : Moment} (hd : d.Calling)
    (h : d.step text digest (.returned m .done) = some d') :
    ¬ TriageRun.Live { driver := d' } := by
  rintro (⟨decision, hruled⟩ | hcommits)
  · cases hruled
  · rcases (Driver.step_turn h).autoCommitting hd hcommits with ⟨-, hact⟩ | ⟨m', decision, hact⟩
    · cases hact
    · cases hact

/-- Outside of the ruling's return, a run is live only as it was before. -/
theorem live_of_drive {act : Driver.Act} {d' : Driver} (hd : run.driver.Calling)
    (h : run.driver.step text digest act = some d') (hact : act.answered run.driver.pc = false)
    (hlive : TriageRun.Live
      { driver := d', ruled := if act.resumes then none else run.ruled }) : run.Live := by
  rcases hlive with ⟨decision, hruled⟩ | hcommits
  · left
    simp only at hruled
    split at hruled
    · cases hruled
    · exact ⟨decision, hruled⟩
  · right
    rcases (Driver.step_turn h).autoCommitting hd hcommits with ⟨hold, -⟩ | ⟨m, decision, rfl⟩
    · exact hold
    · cases hact

/-- The ruling returns to a run that was live by it. -/
theorem live_of_rule {d d' : Driver} {m : Moment} {outcome : EnrichmentOutcome} (hd : d.Calling)
    (h : d.step text digest (.returned m (.enriched outcome)) = some d')
    (hlive : TriageRun.Live { driver := d' }) : TriageRun.Live ⟨d, some outcome⟩ := by
  rcases hlive with ⟨decision, hruled⟩ | hcommits
  · cases hruled
  · rcases (Driver.step_turn h).autoCommitting hd hcommits with ⟨-, hact⟩ | ⟨m', decision, hact⟩
    · cases hact
    · cases hact
      exact .inl ⟨decision, rfl⟩

/-! ### The room a ruling is made with -/

theorem le_dayWindow {limit : Timedelta × Nat} (hlimit : limit ∈ limits) : limit.1 ≤ dayWindow := by
  rcases List.mem_cons.1 hlimit with rfl | hlimit
  · decide
  · rw [List.mem_singleton.1 hlimit]

/-- A ruling to auto-apply read less than the cap. -/
theorem counted_lt {snapshot : YnabSnapshot} {decision : Decision}
    (h : attempt.outcome text w.ledger snapshot = .ok (.autoApply decision))
    {limit : Timedelta × Nat} (hlimit : limit ∈ limits) : w.counted attempt limit.1 < limit.2 := by
  have hauto := (decideEnrichment_autoApply h).1
  obtain ⟨hrun, hday⟩ := lt_of_checkFloor_allow (checkFloor_of_auto text hauto)
  unfold EnrichAttempt.counters at hrun hday
  unfold counted
  rcases List.mem_cons.1 hlimit with rfl | hlimit
  · split
    · rename_i hreached
      rw [if_pos hreached] at hrun
      exact hrun
    · decide
  · rw [List.mem_singleton.1 hlimit]
    split
    · rename_i hreached
      rw [if_pos hreached] at hday
      exact hday
    · decide

/-- The transactions a counter counts. -/
def shown (w : Fleet) (attempt : EnrichAttempt) (width : Timedelta) : Set YnabTransactionId :=
  {id | attempt.reached = true ∧ ∃ entry ∈ w.ledger.entries,
    decide (attempt.now - entry.at < width) = true ∧ entry.ynabId = id}

theorem encard_shown_le (w : Fleet) (attempt : EnrichAttempt) (width : Timedelta) :
    (w.shown attempt width).encard ≤ w.counted attempt width := by
  unfold shown counted
  cases hreached : attempt.reached with
  | true =>
    have hcount := Lib.Admission.encard_le_countP w.ledger.entries
      (fun entry => decide (attempt.now - entry.at < width)) AutoActionEntry.ynabId
    simpa [AutoActionLedgerState.countWithin] using hcount
  | false => simp

/-- **The ledger is read right.** A transaction committed within the window, with a record landed
since, is counted. -/
theorem Kept.shown_of_recorded (h : Kept w) (hnow : attempt.now ≤ w.clock) {width : Timedelta}
    (hwidth : width ≤ dayWindow) (hid : id ∈ w.autoCommitted width w.clock)
    (hreached : attempt.reached = true) (hrecorded : ¬ w.Unrecorded id) :
    id ∈ w.shown attempt width := by
  obtain ⟨t, hmem, -, ht⟩ := hid
  have hsome : (w.log.find? fun event => event.ynabId = id).isSome = true := by
    rw [List.find?_isSome]
    exact ⟨_, hmem, decide_eq_true rfl⟩
  obtain ⟨⟨id', t', kind⟩, hfind⟩ := Option.isSome_iff_exists.1 hsome
  have hmatch := List.find?_some hfind
  have hid' : id' = id := of_decide_eq_true hmatch
  subst hid'
  cases kind with
  | committed => exact absurd ⟨t', hfind⟩ hrecorded
  | recorded =>
    -- the record is no older than the commit
    have hle : t ≤ t' := by
      obtain ⟨-, later, earlier, hlog, hnone⟩ := List.find?_eq_some_iff_append.1 hfind
      rw [hlog] at hmem
      have horder := h.order
      rw [hlog, List.pairwise_append] at horder
      rcases List.mem_append.1 hmem with hlater | hrest
      · have hne := hnone _ hlater
        simp at hne
      · rcases List.mem_cons.1 hrest with heq | hearlier
        · cases heq
        · exact (List.pairwise_cons.1 horder.2.1).1 _ hearlier
    have hclock : w.clock - t' ≤ w.clock - t := Int.sub_le_sub_left hle w.clock
    rcases h.booked id' t' hfind with hentry | hold
    · refine ⟨hreached, _, hentry, decide_eq_true ?_, rfl⟩
      exact ((Int.sub_le_sub_right hnow t').trans hclock).trans_lt ht
    · exact absurd (ht.trans_le hwidth) (not_lt.2 (hold.trans hclock))

/-- **The gate.** A clear ruling to auto-apply leaves room for the transaction it admits. -/
theorem Kept.room (h : Kept w) (hnow : attempt.now ≤ w.clock) {snapshot : YnabSnapshot}
    {decision : Decision}
    (hauto : attempt.outcome text w.ledger snapshot = .ok (.autoApply decision))
    {limit : Timedelta × Nat} (hlimit : limit ∈ limits)
    (hclear : w.unseen ynabId attempt limit.1 = ∅ ∨
      w.counted attempt limit.1 + (w.unseen ynabId attempt limit.1).encard < limit.2) :
    (insert ynabId (w.autoCommitted limit.1 w.clock ∪ w.live)).encard ≤ limit.2 := by
  have hlt := counted_lt hauto hlimit
  have hroom : (w.counted attempt limit.1 : ℕ∞) + (w.unseen ynabId attempt limit.1).encard <
      limit.2 := by
    rcases hclear with hempty | hclear
    · rw [hempty, Set.encard_empty, add_zero]
      exact_mod_cast hlt
    · exact hclear
  have hsub : insert ynabId (w.autoCommitted limit.1 w.clock ∪ w.live) ⊆
      insert ynabId (w.shown attempt limit.1 ∪ w.unseen ynabId attempt limit.1) := by
    rintro id (hid | hid)
    · exact .inl hid
    · by_cases hne : id = ynabId
      · exact .inl hne
      · right
        by_cases hunseen : id ∈ w.unseen ynabId attempt limit.1
        · exact .inr hunseen
        · left
          have hlive : id ∉ w.live := fun hlive => hunseen ⟨hne, .inl hlive⟩
          have hcommitted := hid.resolve_right hlive
          have hseen : ¬ (attempt.reached = true → w.Unrecorded id) :=
            fun himp => hunseen ⟨hne, .inr ⟨hcommitted, himp⟩⟩
          obtain ⟨hreached, hrecorded⟩ := Classical.not_imp.1 hseen
          exact h.shown_of_recorded hnow (le_dayWindow hlimit) hcommitted hreached hrecorded
  calc (insert ynabId (w.autoCommitted limit.1 w.clock ∪ w.live)).encard
      ≤ (insert ynabId (w.shown attempt limit.1 ∪ w.unseen ynabId attempt limit.1)).encard :=
        Set.encard_le_encard hsub
    _ ≤ (w.shown attempt limit.1 ∪ w.unseen ynabId attempt limit.1).encard + 1 :=
        Set.encard_insert_le _ _
    _ ≤ (w.shown attempt limit.1).encard + (w.unseen ynabId attempt limit.1).encard + 1 := by
        gcongr
        exact Set.encard_union_le _ _
    _ ≤ w.counted attempt limit.1 + (w.unseen ynabId attempt limit.1).encard + 1 := by
        gcongr
        exact encard_shown_le w attempt limit.1
    _ ≤ limit.2 := Order.add_one_le_of_lt hroom

/-! ### One step -/

/-- What happens without a ruling or a commit only takes transactions off the live ones. -/
theorem steps_release (hclock : w'.clock = w.clock)
    (hcommits : w'.admission.commits = w.admission.commits) (hlive : w'.live ⊆ w.live)
    (limit : Timedelta × Nat) :
    Lib.Admission.Steps limit.1 limit.2 w.admission w'.admission := by
  have heq : w'.admission = { w.admission with live := w'.live } := by
    have hc : w'.admission.clock = w.admission.clock := hclock
    cases hw : w'.admission with
    | mk clock live commits =>
      rw [hw] at hc hcommits
      have hl : live = w'.live := by
        have := congrArg Lib.Admission.live hw
        exact this.symm
      simp only at hc hcommits
      rw [hc, hcommits, hl]
  rw [heq]
  exact .single (.release hlive)

theorem steps_setRun (hlive : (w.setRun ynabId run).live ⊆ w.live) (limit : Timedelta × Nat) :
    Lib.Admission.Steps limit.1 limit.2 w.admission (w.setRun ynabId run).admission :=
  .single (.release hlive)

/-- An activity that may have returned leaves its run with nothing to commit. -/
theorem Kept.answer (h : Kept w) (hrun : w.runs ynabId = some run) {returns : Option Moment}
    (hstep : w.answer text digest ynabId run returns = some w') :
    Kept w' ∧ w'.clock = w.clock ∧ w'.log = w.log ∧ w'.live ⊆ w.live := by
  have hcalling := h.calling ynabId run hrun
  cases returns with
  | none =>
    cases hstep
    exact ⟨h, rfl, rfl, subset_rfl⟩
  | some m =>
    obtain ⟨d', hd', heq⟩ := Option.map_eq_some_iff.1 hstep
    cases heq
    have hcalling' := (Driver.step_turn hd').calling hcalling
    exact ⟨h.setRun hcalling', rfl, rfl, live_setRun_of_not_live (not_live_of_done hcalling hd')⟩

/-- A ruling to auto-apply admits its transaction; any other outcome admits none. -/
theorem Kept.steps_enrich (h : Kept w) (hrun : w.runs ynabId = some run) {snapshot : YnabSnapshot}
    {rest : List Effect} {resume : Resume}
    (hpc : run.driver.pc = .calling (.enrich snapshot) rest resume) (hnow : attempt.now ≤ w.clock)
    (hclear : Clear text w (.enrich ynabId attempt)) {limit : Timedelta × Nat}
    (hlimit : limit ∈ limits) :
    Lib.Admission.Steps limit.1 limit.2 w.admission (w.setRun ynabId
      { run with ruled := (attempt.outcome text w.ledger snapshot).toOption }).admission := by
  by_cases hauto : ∃ decision, attempt.outcome text w.ledger snapshot = .ok (.autoApply decision)
  · obtain ⟨decision, hauto⟩ := hauto
    have hroom := h.room hnow hauto hlimit
      (hclear run snapshot rest resume decision hrun hpc hauto limit hlimit)
    rw [← window_admission] at hroom
    have hadmitted : Lib.Admission.Step limit.1 limit.2 w.admission
        { w.admission with live := insert ynabId w.live } := .allow hroom
    refine .tail (.single hadmitted) (.release ?_)
    intro id hid
    rcases live_setRun hid with hold | ⟨heq, -⟩
    · exact .inr hold
    · exact .inl heq
  · refine steps_setRun (live_setRun_subset hrun ?_) limit
    rintro (⟨decision, hruled⟩ | hcommits)
    · refine absurd ⟨decision, ?_⟩ hauto
      cases houtcome : attempt.outcome text w.ledger snapshot with
      | error e => rw [houtcome] at hruled; cases hruled
      | ok outcome => rw [houtcome] at hruled; cases hruled; rfl
    · exact .inr hcommits

/-- A write of what the gate ruled is the commit of an admitted transaction. -/
theorem Kept.steps_commit (h : Kept w) (hrun : w.runs ynabId = some run)
    {returns : Option Moment}
    (hstep : { w with log :=
      if run.driver.autoCommitting then ⟨ynabId, w.clock, .committed⟩ :: w.log else w.log }.answer
        text digest ynabId run returns = some w') (limit : Timedelta × Nat) :
    Kept w' ∧ Lib.Admission.Steps limit.1 limit.2 w.admission w'.admission := by
  split at hstep
  · rename_i hcommits
    have hlive : ynabId ∈ w.live := ⟨run, hrun, .inr hcommits⟩
    have hcommit : Lib.Admission.Step limit.1 limit.2 w.admission
        { w.admission with commits := (ynabId, w.clock) :: w.admission.commits } := .commit hlive
    obtain ⟨hkept, hclock, hlog, hsub⟩ := (h.commit ynabId).answer hrun hstep
    refine ⟨hkept, Relation.ReflTransGen.trans (.single hcommit) ?_⟩
    have hcommits' : w'.admission.commits = (ynabId, w.clock) :: w.admission.commits := by
      show w'.log.filterMap FleetEvent.commit? = _
      rw [hlog]
      rfl
    exact steps_release (w := { w with log := ⟨ynabId, w.clock, .committed⟩ :: w.log }) hclock
      hcommits' hsub limit
  · obtain ⟨hkept, hclock, hlog, hsub⟩ := h.answer hrun hstep
    have hcommits' : w'.admission.commits = w.admission.commits :=
      congrArg (List.filterMap FleetEvent.commit?) hlog
    exact ⟨hkept, steps_release hclock hcommits' hsub limit⟩

/-- **One step.** The invariant is kept, and the admissions of every limit take their steps. -/
theorem Kept.step (h : Kept w) {act : FleetAct} (hclear : Clear text w act)
    (hstep : w.step text digest act = some w') {limit : Timedelta × Nat} (hlimit : limit ∈ limits) :
    Kept w' ∧ Lib.Admission.Steps limit.1 limit.2 w.admission w'.admission := by
  cases act with
  | tick now =>
    simp only [Fleet.step] at hstep
    split at hstep
    · rename_i hnow
      cases hstep
      exact ⟨h.tick hnow, .single (.tick hnow)⟩
    · cases hstep
  | start ynabId =>
    have hstarted : Kept (w.setRun ynabId { driver := .start { ynabId } }) ∧
        Lib.Admission.Steps limit.1 limit.2 w.admission
          (w.setRun ynabId { driver := .start { ynabId } }).admission := by
      refine ⟨h.setRun (Driver.start_calling ynabId []), ?_⟩
      exact steps_setRun (live_setRun_of_not_live (not_live_start ynabId)) limit
    simp only [Fleet.step] at hstep
    split at hstep
    · cases hstep
      exact hstarted
    · split at hstep
      · cases hstep
        exact hstarted
      · cases hstep
  | drive ynabId act =>
    simp only [Fleet.step] at hstep
    split at hstep
    · rename_i run hrun
      split at hstep
      · cases hstep
      · rename_i hact
        obtain ⟨d', hd', heq⟩ := Option.map_eq_some_iff.1 hstep
        cases heq
        have hcalling := h.calling ynabId run hrun
        refine ⟨h.setRun ((Driver.step_turn hd').calling hcalling), ?_⟩
        refine steps_setRun (live_setRun_subset hrun ?_) limit
        exact live_of_drive hcalling hd' (Bool.eq_false_iff.2 hact)
    · cases hstep
  | enrich ynabId attempt =>
    simp only [Fleet.step] at hstep
    split at hstep
    · rename_i run hrun
      split at hstep
      · rename_i snapshot rest resume hpc
        split at hstep
        · rename_i hnow
          cases hstep
          exact ⟨h.setRun (h.calling ynabId run hrun), h.steps_enrich hrun hpc hnow hclear hlimit⟩
        · cases hstep
      · cases hstep
    · cases hstep
  | rule ynabId m =>
    simp only [Fleet.step] at hstep
    split at hstep
    · rename_i driver outcome hrun
      obtain ⟨d', hd', heq⟩ := Option.map_eq_some_iff.1 hstep
      cases heq
      have hcalling := h.calling ynabId _ hrun
      refine ⟨h.setRun ((Driver.step_turn hd').calling hcalling), ?_⟩
      exact steps_setRun (live_setRun_subset hrun (live_of_rule hcalling hd')) limit
    · cases hstep
  | commit ynabId returns =>
    simp only [Fleet.step] at hstep
    split at hstep
    · rename_i run hrun
      split at hstep
      · exact h.steps_commit hrun hstep limit
      · cases hstep
    · cases hstep
  | record ynabId sent returns =>
    simp only [Fleet.step] at hstep
    split at hstep
    · rename_i run hrun
      split at hstep
      · rename_i recorded rest resume hpc
        have hsent : Kept { w with inFlight := w.inFlight ++ if sent then [recorded] else [] } :=
          ⟨h.calling, h.past, h.order, h.booked⟩
        obtain ⟨hkept, hclock, hlog, hsub⟩ := hsent.answer hrun hstep
        refine ⟨hkept, steps_release hclock ?_ hsub limit⟩
        exact congrArg (List.filterMap FleetEvent.commit?) hlog
      · cases hstep
    · cases hstep
  | land ynabId =>
    simp only [Fleet.step] at hstep
    split at hstep
    · cases hstep
      exact ⟨h.land ynabId _, steps_release rfl rfl subset_rfl limit⟩
    · cases hstep

/-! ## Every interleaving -/

abbrev Run (text : PyText) {δ : Type} [DecidableEq δ] (digest : TargetState → δ) :=
  Lib.Run (Lib.StepOf (Fleet.step text digest))

variable {beats : List (Lib.Beat Fleet FleetAct)} {clock : Datetime}

/-- The admissions of every limit stay sound. -/
theorem Run.sound (h : Run text digest { clock } beats w)
    (hclear : ∀ beat ∈ beats, Clear text beat.pre beat.act) {limit : Timedelta × Nat}
    (hlimit : limit ∈ limits) : Lib.Admission.Sound limit.1 limit.2 w.admission := by
  have hinit : Lib.Admission.Sound limit.1 (limit.2 : ℕ∞) (admission { clock }) := by
    have hlive : live { clock } = ∅ := by
      rw [Set.eq_empty_iff_forall_notMem]
      rintro id ⟨run, hrun, -⟩
      cases hrun
    unfold admission
    rw [hlive]
    exact Lib.Admission.sound_init clock
  have hall : Kept w ∧ Lib.Admission.Sound limit.1 limit.2 w.admission := by
    refine Lib.Run.invariant_of (C := fun beat => Clear text beat.pre beat.act)
      (I := fun w => Kept w ∧ Lib.Admission.Sound limit.1 limit.2 w.admission) ?_ h hclear
      ⟨kept_init clock, hinit⟩
    rintro w beat w' ⟨hkept, hsound⟩ hbeat ⟨hstep⟩
    obtain ⟨hkept', hsteps⟩ := hkept.step hbeat hstep hlimit
    exact ⟨hkept', hsound.steps hsteps⟩
  exact hall.2

/-- **The caps.** In every interleaving whose rulings are clear, no run window and no day window,
wherever it ends, holds the auto-commits of more transactions than its cap. -/
theorem auto_commits_capped (h : Run text digest { clock } beats w)
    (hclear : ∀ beat ∈ beats, Clear text beat.pre beat.act) (time : Datetime) :
    (w.autoCommitted runWindow time).encard ≤ cautiousFloor.perRunCap ∧
      (w.autoCommitted dayWindow time).encard ≤ cautiousFloor.perDayCap := by
  have hcapped : ∀ limit ∈ limits, (w.autoCommitted limit.1 time).encard ≤ limit.2 := by
    intro limit hlimit
    rw [← window_admission]
    exact (h.sound hclear hlimit).window time
  exact ⟨hcapped _ List.mem_cons_self, hcapped _ (List.mem_cons_of_mem _ List.mem_cons_self)⟩

/-! ### Charges of one cafe -/

def cafeCharge (ynabId : YnabTransactionId) : YnabSnapshot where
  ynabId
  account := "checking"
  payee := "Corner Cafe"
  amount := ⟨-12500⟩
  txnDate := 0

def cafeRule : Rule where
  id := "r1"
  «match» := { payeePattern := "corner cafe" }
  action := { allocation := .category "dining" none }
  trust := .trusted
  source := .humanExplicit

def cafeAttempt : EnrichAttempt where
  now := 0
  candidates := [⟨"dining", "Dining"⟩]
  rules := [cafeRule]
  propose _ := { categoryId := "dining", confidence := .high, rationale := "a cafe" }

/-- A run starts and finds its charge. -/
def begun (ynabId : YnabTransactionId) : List FleetAct :=
  [.start ynabId, .drive ynabId (.returned ⟨0, 0⟩ (.snapshot (some (cafeCharge ynabId))))]

/-- Its ruling returns, and it commits. -/
def committed (ynabId : YnabTransactionId) : List FleetAct :=
  [.rule ynabId ⟨0, 0⟩, .commit ynabId (some ⟨0, 0⟩)]

/-- It reads the commit back, tells its owner, and its record lands. -/
def booked (ynabId : YnabTransactionId) : List FleetAct :=
  [.drive ynabId (.returned ⟨0, 0⟩ (.read (some { allocation := .category "dining" none }))),
    .drive ynabId (.returned ⟨0, 0⟩ (.thread "th1")), .record ynabId true (some ⟨0, 0⟩),
    .land ynabId]

theorem not_live_of_quiet (hruled : run.ruled = none)
    (hcommits : run.driver.autoCommitting = false) : ¬ run.Live := by
  rintro (⟨decision, hsome⟩ | htrue)
  · rw [hruled] at hsome
    cases hsome
  · rw [hcommits] at htrue
    cases htrue

theorem clear_of_not_gates {act : FleetAct} (hact : act.gates = false) : Clear text w act := by
  cases act with
  | enrich ynabId attempt => cases hact
  | _ => trivial

/-- A ruling is clear where no other transaction is to commit and none committed waits for its
record. -/
theorem clear_of_booked (hreached : attempt.reached = true)
    (hruns : ∀ id, id ≠ ynabId → ∀ run, w.runs id = some run → ¬ run.Live)
    (hlog : ∀ id, id ≠ ynabId → ¬ w.Unrecorded id) : Clear text w (.enrich ynabId attempt) := by
  intro run snapshot rest resume decision _ _ _ limit _
  left
  rw [Set.eq_empty_iff_forall_notMem]
  rintro id ⟨hne, ⟨run', hrun', hlive⟩ | ⟨-, hunrecorded⟩⟩
  · exact hruns id hne run' hrun' hlive
  · exact hlog id hne (hunrecorded hreached)

/-- Two charges of the cafe, the second ruled on once the first is counted. -/
theorem cafe_auto_commit_capped :
    ∃ beats w, Run PyText.ascii (fun t : TargetState => t) { clock := 0 } beats w ∧
      w.log = [⟨"y2", 0, .committed⟩, ⟨"y1", 0, .recorded⟩, ⟨"y1", 0, .committed⟩] ∧
      (∃ beat ∈ beats, beat.act = .enrich "y2" cafeAttempt ∧
        beat.pre.counted cafeAttempt runWindow = 1) ∧
      (w.autoCommitted runWindow 0).encard ≤ cautiousFloor.perRunCap ∧
      (w.autoCommitted dayWindow 0).encard ≤ cautiousFloor.perDayCap := by
  have hexec : ∃ beats₁ w₁ w₂ beats₂ w₃ w₄ beats₃ w,
      Lib.exec (step PyText.ascii fun t : TargetState => t) { clock := 0 } (begun "y1") =
        some (beats₁, w₁) ∧
      step PyText.ascii (fun t : TargetState => t) w₁ (.enrich "y1" cafeAttempt) = some w₂ ∧
      Lib.exec (step PyText.ascii fun t : TargetState => t) w₂
        (committed "y1" ++ booked "y1" ++ begun "y2") = some (beats₂, w₃) ∧
      step PyText.ascii (fun t : TargetState => t) w₃ (.enrich "y2" cafeAttempt) = some w₄ ∧
      Lib.exec (step PyText.ascii fun t : TargetState => t) w₄ (committed "y2") =
        some (beats₃, w) ∧
      (beats₁ ++ beats₂ ++ beats₃).all (fun beat => !beat.act.gates) = true ∧
      w₁.log = [] ∧ w₃.log = [⟨"y1", 0, .recorded⟩, ⟨"y1", 0, .committed⟩] ∧
      w.log = [⟨"y2", 0, .committed⟩, ⟨"y1", 0, .recorded⟩, ⟨"y1", 0, .committed⟩] ∧
      w₃.counted cafeAttempt runWindow = 1 ∧
      (∃ run, w₃.runs "y1" = some run ∧ run.ruled = none ∧ run.driver.autoCommitting = false) ∧
      (∀ id, id ≠ "y1" → w₁.runs id = none) ∧
      ∀ id, id ≠ "y1" → id ≠ "y2" → w₃.runs id = none := by
    refine ⟨_, _, _, _, _, _, _, _, rfl, rfl, rfl, rfl, rfl, rfl, rfl, rfl, rfl, rfl,
      ⟨_, rfl, rfl, rfl⟩, ?_, ?_⟩
    · intro id h₁
      exact (Function.update_of_ne h₁ _ _).trans (Function.update_of_ne h₁ _ _)
    · intro id h₁ h₂
      repeat
        first
          | rfl
          | refine (Function.update_of_ne h₁ _ _).trans ?_
          | refine (Function.update_of_ne h₂ _ _).trans ?_
  obtain ⟨beats₁, w₁, w₂, beats₂, w₃, w₄, beats₃, w, h₁, henrich₁, h₂, henrich₂, h₃, hquiet, hlog₁,
    hlog₃, hlog, hcounted, ⟨run, hrun, hruled, hcommits⟩, hruns₁, hruns₃⟩ := hexec
  have hlater : Run PyText.ascii (fun t : TargetState => t) w₂
      (beats₂ ++ ⟨w₃, .enrich "y2" cafeAttempt⟩ :: beats₃) w :=
    (Lib.exec_run h₂).append (.cons (.step henrich₂) (Lib.exec_run h₃))
  have hall : Run PyText.ascii (fun t : TargetState => t) { clock := 0 }
      (beats₁ ++ ⟨w₁, .enrich "y1" cafeAttempt⟩ ::
        (beats₂ ++ ⟨w₃, .enrich "y2" cafeAttempt⟩ :: beats₃)) w :=
    (Lib.exec_run h₁).append (.cons (.step henrich₁) hlater)
  refine ⟨_, w, hall, hlog, ⟨⟨w₃, .enrich "y2" cafeAttempt⟩, by simp, rfl, hcounted⟩,
    auto_commits_capped hall ?_ 0⟩
  have hothers : ∀ beat ∈ beats₁ ++ beats₂ ++ beats₃, Clear PyText.ascii beat.pre beat.act := by
    intro beat hmem
    have hgates := List.all_eq_true.1 hquiet beat hmem
    exact clear_of_not_gates (by simpa using hgates)
  have hclear₁ : Clear PyText.ascii w₁ (.enrich "y1" cafeAttempt) := by
    refine clear_of_booked rfl (fun id hne run' hrun' => ?_) (fun id _ => ?_)
    · rw [hruns₁ id hne] at hrun'
      cases hrun'
    · rintro ⟨t, hfind⟩
      rw [hlog₁] at hfind
      cases hfind
  have hclear₃ : Clear PyText.ascii w₃ (.enrich "y2" cafeAttempt) := by
    refine clear_of_booked rfl (fun id hne run' hrun' => ?_) (fun id _ => ?_)
    · by_cases hid : id = "y1"
      · subst hid
        cases hrun.symm.trans hrun'
        exact not_live_of_quiet hruled hcommits
      · rw [hruns₃ id hid hne] at hrun'
        cases hrun'
    · rintro ⟨t, hfind⟩
      rw [hlog₃] at hfind
      by_cases hid : "y1" = id
      · simp [hid] at hfind
      · simp [hid] at hfind
  intro beat hmem
  simp only [List.mem_append, List.mem_cons] at hmem
  rcases hmem with h | rfl | h | rfl | h
  · exact hothers beat (by simp [h])
  · exact hclear₁
  · exact hothers beat (by simp [h])
  · exact hclear₃
  · exact hothers beat (by simp [h])

/-- Nine charges of the cafe. -/
def nineCharges : List YnabTransactionId :=
  ["y1", "y2", "y3", "y4", "y5", "y6", "y7", "y8", "y9"]

/-- Nine rulings read an empty ledger before the first of them commits. -/
theorem nine_auto_commits :
    ∃ beats w, Run PyText.ascii (fun t : TargetState => t) { clock := 0 } beats w ∧
      ¬ (w.autoCommitted runWindow 0).encard ≤ cautiousFloor.perRunCap := by
  have hexec : ∃ beats w, Lib.exec (step PyText.ascii fun t : TargetState => t) { clock := 0 }
      (nineCharges.flatMap (fun id => begun id ++ [.enrich id cafeAttempt]) ++
        nineCharges.flatMap committed) = some (beats, w) ∧
      w.log = nineCharges.reverse.map fun id => ⟨id, 0, .committed⟩ :=
    ⟨_, _, rfl, rfl⟩
  obtain ⟨beats, w, hexec, hlog⟩ := hexec
  refine ⟨beats, w, Lib.exec_run hexec, ?_⟩
  have hsub : (nineCharges.toFinset : Set YnabTransactionId) ⊆ w.autoCommitted runWindow 0 := by
    intro id hid
    have hmem : id ∈ nineCharges.reverse := List.mem_reverse.2 (List.mem_toFinset.1 hid)
    refine ⟨0, ?_, le_refl 0, by decide⟩
    rw [hlog]
    exact List.mem_map_of_mem hmem
  have hcard : nineCharges.toFinset.card = 9 := by decide
  have hnine := Set.encard_le_encard hsub
  rw [Set.encard_coe_eq_coe_finsetCard, hcard] at hnine
  intro hle
  have hcap : ((9 : ℕ) : ℕ∞) ≤ ((8 : ℕ) : ℕ∞) := hnine.trans hle
  exact absurd (Nat.cast_le.1 hcap) (by decide)

end Fleet

end YnabAgent
