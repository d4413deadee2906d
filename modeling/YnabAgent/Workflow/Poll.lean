import YnabAgent.Agentic.Ratchet
import YnabAgent.Domain.Receipt
import YnabAgent.Ingest.Plan
import YnabAgent.Lib.Executions
import YnabAgent.Lib.Run

/-!
# The poll loop

A tick reads the unapproved transactions, addresses each one in scope by a start of its workflow,
and starts a join for each open receipt (`workflow/poll_workflow.py`, `workflow/poll_activities.py`,
`workflow/receipt_activities.py`). Meanwhile the workflows of transactions and joins end as they
will, replies and forwarded receipts start them too, and an activity attempt may have its effect
without returning, or use up its attempts.

`tick_warranted`: a tick that returns has left no transaction it read, unapproved and in scope,
without an execution that runs or completed; the poll starts nothing else, and never after one that
completed. `poll_survives`: the continuous loop goes on, unless its page fails.
-/

namespace YnabAgent

open Lib (Executions RunStatus)

/-! ## The loop -/

structure PollParams where
  scope : IngestScope
  intervalSeconds : Int := 3600
  continuous : Bool := false

structure PollResult where
  addressed : Nat
  routedToHuman : Nat
  deriving DecidableEq

def PollParams.interval (params : PollParams) : Timedelta := params.intervalSeconds * 1000000

/-- The activity a tick is suspended in, the sleep, or how the workflow ended. The head of `todo` is
under way. -/
inductive PollPhase
  | fetching
  | addressing (planned todo : List AddressTxn)
  | listing (planned : List AddressTxn)
  | joining (planned : List AddressTxn) (todo : List Receipt)
  | alerting
  | sleeping (wakes : Datetime)
  | returned (result : PollResult)
  | raised

/-- What happened, as far as the poll is concerned. -/
inductive PollEvent
  | fetched (snapshots : List YnabSnapshot)
  /-- A start that got an execution, and how the one before stood. -/
  | started (ynabId : YnabTransactionId) (before : Option RunStatus)
  /-- A start that was refused, and how the execution stood. -/
  | met (ynabId : YnabTransactionId) (status : RunStatus)
  | notified (snapshot : YnabSnapshot)
  | listed (receipts : List Receipt)
  | joined (receiptId : ReceiptId)
  | paged
  | ticked (result : PollResult)

def PollEvent.isFetch : PollEvent → Bool
  | fetched _ => true
  | _ => false

/-- The poll, the executions of the transactions and of the joins, and what happened, the
latest first. -/
structure PollWorld where
  params : PollParams
  phase : PollPhase := .fetching
  txns : Executions YnabTransactionId := {}
  joins : Executions ReceiptId := {}
  log : List PollEvent := []

/-- `address` and `join` are attempts of the activity under way, which may not return. -/
inductive PollAct
  | fetch (snapshots : List YnabSnapshot)
  | address (returns : Bool)
  | list (receipts : List Receipt) (now : Datetime)
  | join (returns : Bool) (now : Datetime)
  | fails
  | page (now : Datetime)
  | wake (now : Datetime)
  | reply (ynabId : YnabTransactionId)
  | finish (ynabId : YnabTransactionId) (status : RunStatus)
  | forward (receiptId : ReceiptId)
  | finishJoin (receiptId : ReceiptId) (status : RunStatus)

/-- What a tick returns. -/
def tally (planned : List AddressTxn) : PollResult where
  addressed := planned.length
  routedToHuman := planned.countP (·.routeToHuman)

/-- The loop over the planned transactions. -/
def addressNext (planned : List AddressTxn) : List AddressTxn → PollPhase
  | [] => .listing planned
  | todo => .addressing planned todo

namespace PollWorld

/-- Start the workflow of the transaction; one that runs is told where the memo came late. -/
def addressTransaction (w : PollWorld) (action : AddressTxn) : PollWorld :=
  let ynabId := action.snapshot.ynabId
  let started := w.txns.start .allowDuplicateFailedOnly ynabId
  if started.2 then
    { w with txns := started.1, log := .started ynabId (w.txns.latest ynabId) :: w.log }
  else
    match w.txns.latest ynabId with
    | some .running =>
      let met := .met ynabId .running :: w.log
      { w with log := if action.notifyExisting then .notified action.snapshot :: met else met }
    | some status => { w with log := .met ynabId status :: w.log }
    | none => w

/-- Start a join attempt; one that runs covers it. -/
def startJoin (w : PollWorld) (receiptId : ReceiptId) : PollWorld :=
  { w with joins := (w.joins.start .allowDuplicate receiptId).1 }

/-- A tick is over: sleep, or return. -/
def endTick (w : PollWorld) (result : PollResult) (now : Datetime) : PollWorld :=
  { w with
    phase := if w.params.continuous then .sleeping (now + w.params.interval)
      else .returned result }

/-- The loop over the receipts; behind the last one the tick returns. -/
def joinNext (w : PollWorld) (planned : List AddressTxn) (now : Datetime) : List Receipt → PollWorld
  | [] => { w with log := .ticked (tally planned) :: w.log }.endTick (tally planned) now
  | todo => { w with phase := .joining planned todo }

variable (text : PyText)

def step (w : PollWorld) : PollAct → Option PollWorld
  | .fetch snapshots =>
    match w.phase with
    | .fetching =>
      let planned := planIngest text snapshots w.params.scope false
      some { w with phase := addressNext planned planned, log := .fetched snapshots :: w.log }
    | _ => none
  | .address returns =>
    match w.phase with
    | .addressing planned (action :: todo) =>
      let next := w.addressTransaction action
      some (if returns then { next with phase := addressNext planned todo } else next)
    | _ => none
  | .list receipts now =>
    match w.phase with
    | .listing planned =>
      some ({ w with log := .listed receipts :: w.log }.joinNext planned now receipts)
    | _ => none
  | .join returns now =>
    match w.phase with
    | .joining planned (receipt :: todo) =>
      let next := { w.startJoin receipt.id with log := .joined receipt.id :: w.log }
      some (if returns then next.joinNext planned now todo else next)
    | _ => none
  | .fails =>
    match w.phase with
    | .sleeping _ | .returned _ | .raised => none
    | .alerting => some { w with phase := .raised }
    | _ => some { w with phase := if w.params.continuous then .alerting else .raised }
  | .page now =>
    match w.phase with
    | .alerting => some ({ w with log := .paged :: w.log }.endTick ⟨0, 0⟩ now)
    | _ => none
  | .wake now =>
    match w.phase with
    | .sleeping wakes => if wakes ≤ now then some { w with phase := .fetching } else none
    | _ => none
  | .reply ynabId => some { w with txns := (w.txns.start .allowDuplicate ynabId).1 }
  | .finish ynabId status => (w.txns.finish ynabId status).map fun txns => { w with txns }
  | .forward receiptId => some (w.startJoin receiptId)
  | .finishJoin receiptId status =>
    (w.joins.finish receiptId status).map fun joins => { w with joins }

end PollWorld

/-! ## What the log warrants -/

/-- The tick under way read the snapshots, and `middle` happened since. -/
def SinceFetch (log : List PollEvent) (snapshots : List YnabSnapshot) (middle : List PollEvent) :
    Prop :=
  ∃ earlier, log = middle ++ .fetched snapshots :: earlier ∧ ∀ e ∈ middle, e.isFetch = false

/-- The tick got the transaction an execution, or met one that did not fail. -/
def MetIn (middle : List PollEvent) (ynabId : YnabTransactionId) : Prop :=
  (∃ before, .started ynabId before ∈ middle) ∨
    ∃ status, .met ynabId status ∈ middle ∧ status ≠ .failed

/-- The outstanding work in scope. -/
def Outstanding (scope : IngestScope) (snapshots : List YnabSnapshot) (snapshot : YnabSnapshot) :
    Prop :=
  snapshot ∈ snapshots ∧ inScope snapshot scope = true ∧ snapshot.approved = false

section warrants
variable (text : PyText) (scope : IngestScope)

/-- What holds of the log before an event. -/
def PollEvent.Warranted (before : List PollEvent) : PollEvent → Prop
  | .started ynabId last =>
    (last = none ∨ last = some .failed) ∧
    ∃ snapshots middle snapshot, SinceFetch before snapshots middle ∧
      Outstanding scope snapshots snapshot ∧ snapshot.ynabId = ynabId
  | .notified snapshot =>
    memoBackfilled text snapshot = true ∧ before.head? = some (.met snapshot.ynabId .running) ∧
    ∃ snapshots middle, SinceFetch before snapshots middle ∧ Outstanding scope snapshots snapshot
  | .ticked result =>
    ∃ snapshots middle, SinceFetch before snapshots middle ∧
      (∀ snapshot, Outstanding scope snapshots snapshot → MetIn middle snapshot.ynabId) ∧
      (∃ receipts, .listed receipts ∈ middle ∧ ∀ r ∈ receipts, .joined r.id ∈ middle) ∧
      result = tally (planIngest text snapshots scope false)
  | _ => True

/-- Every event was warranted when it happened. -/
def WarrantedLog : List PollEvent → Prop
  | [] => True
  | e :: log => e.Warranted text scope log ∧ WarrantedLog log

/-- How far the tick under way has come. -/
def PollPhase.Kept (log : List PollEvent) : PollPhase → Prop
  | .addressing planned todo =>
    ∃ snapshots middle, SinceFetch log snapshots middle ∧
      planned = planIngest text snapshots scope false ∧
      ∃ addressed, planned = addressed ++ todo ∧ ∀ a ∈ addressed, MetIn middle a.snapshot.ynabId
  | .listing planned =>
    ∃ snapshots middle, SinceFetch log snapshots middle ∧
      planned = planIngest text snapshots scope false ∧
      ∀ a ∈ planned, MetIn middle a.snapshot.ynabId
  | .joining planned todo =>
    ∃ snapshots middle, SinceFetch log snapshots middle ∧
      planned = planIngest text snapshots scope false ∧
      (∀ a ∈ planned, MetIn middle a.snapshot.ynabId) ∧
      ∃ receipts joined, .listed receipts ∈ middle ∧ receipts = joined ++ todo ∧
        ∀ r ∈ joined, .joined r.id ∈ middle
  | _ => True

end warrants

theorem SinceFetch.cons {log : List PollEvent} {snapshots : List YnabSnapshot}
    {middle : List PollEvent}
    (h : SinceFetch log snapshots middle) {e : PollEvent} (he : e.isFetch = false) :
    SinceFetch (e :: log) snapshots (e :: middle) := by
  obtain ⟨earlier, rfl, hmiddle⟩ := h
  exact ⟨earlier, rfl, List.forall_mem_cons.2 ⟨he, hmiddle⟩⟩

theorem sinceFetch_fetched (log : List PollEvent) (snapshots : List YnabSnapshot) :
    SinceFetch (.fetched snapshots :: log) snapshots [] :=
  ⟨log, rfl, fun _ he => absurd he List.not_mem_nil⟩

theorem MetIn.mono {middle middle' : List PollEvent} {ynabId : YnabTransactionId}
    (h : MetIn middle ynabId) (hsub : middle ⊆ middle') : MetIn middle' ynabId := by
  rcases h with ⟨before, h⟩ | ⟨status, h, hstatus⟩
  · exact .inl ⟨before, hsub h⟩
  · exact .inr ⟨status, hsub h, hstatus⟩

section steps
variable {text : PyText} {w w' : PollWorld}

theorem outstanding_of_planned {snapshots : List YnabSnapshot} {scope : IngestScope}
    {action : AddressTxn} (h : action ∈ planIngest text snapshots scope false) :
    Outstanding scope snapshots action.snapshot ∧
      action.notifyExisting = memoBackfilled text action.snapshot := by
  obtain ⟨-, hmem, hscope, happroved, haction⟩ := mem_planIngest.1 h
  exact ⟨⟨hmem, hscope, happroved⟩, congrArg AddressTxn.notifyExisting haction⟩

theorem planned_of_outstanding {snapshots : List YnabSnapshot} {scope : IngestScope}
    {snapshot : YnabSnapshot} (h : Outstanding scope snapshots snapshot) :
    ∃ action ∈ planIngest text snapshots scope false, action.snapshot = snapshot := by
  obtain ⟨hmem, hscope, happroved⟩ := h
  let action : AddressTxn :=
    { snapshot, routeToHuman := isDuplicateImport snapshot,
      notifyExisting := memoBackfilled text snapshot }
  have haction : action ∈ planIngest text snapshots scope false :=
    mem_planIngest.2 ⟨rfl, hmem, hscope, happroved, rfl⟩
  exact ⟨action, haction, rfl⟩

namespace PollWorld

/-- What an attempt to address does: one start, and perhaps a signal. -/
theorem addressTransaction_log (w : PollWorld) (action : AddressTxn) :
    (∃ last, (last = none ∨ last = some .failed) ∧
      (w.addressTransaction action).log = .started action.snapshot.ynabId last :: w.log) ∨
    ∃ status, status ≠ .failed ∧
      ((w.addressTransaction action).log = .met action.snapshot.ynabId status :: w.log ∨
        status = .running ∧ action.notifyExisting = true ∧ (w.addressTransaction action).log =
          .notified action.snapshot :: .met action.snapshot.ynabId status :: w.log) := by
  unfold addressTransaction Executions.start
  cases hadmits :
    Lib.ReusePolicy.allowDuplicateFailedOnly.admits (w.txns.latest action.snapshot.ynabId) with
  | true =>
    simp only [hadmits, if_true]
    exact .inl ⟨_, Executions.latest_of_admitted hadmits, rfl⟩
  | false =>
    obtain ⟨status, hlatest, hfailed⟩ := Executions.latest_of_refused hadmits
    right
    refine ⟨status, hfailed, ?_⟩
    simp only [hlatest]
    cases status with
    | running =>
      cases hnotify : action.notifyExisting with
      | true => exact .inr ⟨rfl, rfl, rfl⟩
      | false => exact .inl rfl
    | completed => exact .inl rfl
    | failed => exact absurd rfl hfailed

theorem addressTransaction_sound (h : w.txns.Sound) (action : AddressTxn) :
    (w.addressTransaction action).txns.Sound := by
  unfold addressTransaction
  simp only
  split
  · exact h.start
  · split
    · exact h
    · exact h
    · exact h

/-- An attempt to address goes on with the poll as it is. -/
theorem addressTransaction_poll (w : PollWorld) (action : AddressTxn) :
    (w.addressTransaction action).params = w.params ∧
      (w.addressTransaction action).phase = w.phase := by
  unfold addressTransaction
  simp only
  split
  · exact ⟨rfl, rfl⟩
  · split <;> exact ⟨rfl, rfl⟩

/-- The invariant. -/
structure Kept (text : PyText) (w : PollWorld) : Prop where
  warranted : WarrantedLog text w.params.scope w.log
  phase : w.phase.Kept text w.params.scope w.log
  alone : w.txns.Sound

theorem addressNext_kept {scope : IngestScope} {log : List PollEvent}
    {snapshots : List YnabSnapshot} {middle : List PollEvent}
    (hsince : SinceFetch log snapshots middle) {addressed todo : List AddressTxn}
    (hplan : addressed ++ todo = planIngest text snapshots scope false)
    (hmet : ∀ a ∈ addressed, MetIn middle a.snapshot.ynabId) :
    (addressNext (addressed ++ todo) todo).Kept text scope log := by
  cases todo with
  | nil =>
    rw [List.append_nil] at hplan ⊢
    exact ⟨snapshots, middle, hsince, hplan, hmet⟩
  | cons action todo => exact ⟨snapshots, middle, hsince, hplan, addressed, rfl, hmet⟩

/-- The tick goes on to the next receipt, or returns. -/
theorem Kept.joinNext {planned : List AddressTxn} {todo : List Receipt}
    (hwarranted : WarrantedLog text w.params.scope w.log) (halone : w.txns.Sound)
    (hphase : (PollPhase.joining planned todo).Kept text w.params.scope w.log) (now : Datetime) :
    Kept text (w.joinNext planned now todo) := by
  cases todo with
  | cons receipt todo => exact ⟨hwarranted, hphase, halone⟩
  | nil =>
    obtain ⟨snapshots, middle, hsince, hplanned, hmet, receipts, joined, hlisted, hreceipts,
        hjoined⟩ :=
      hphase
    rw [List.append_nil] at hreceipts
    refine ⟨⟨⟨snapshots, middle, hsince, ?_, ⟨receipts, hlisted, ?_⟩, ?_⟩, hwarranted⟩, ?_, halone⟩
    · intro snapshot hsnapshot
      obtain ⟨action, haction, rfl⟩ := planned_of_outstanding hsnapshot
      exact hmet action (hplanned ▸ haction)
    · rw [hreceipts]
      exact hjoined
    · exact congrArg tally hplanned
    · show (endTick _ _ _).phase.Kept text w.params.scope _
      unfold endTick
      split <;> trivial

/-- An attempt to address keeps the log warranted; the transaction has an execution that did
not fail. -/
theorem Kept.address (h : Kept text w) {planned todo : List AddressTxn} {action : AddressTxn}
    (hphase : w.phase = .addressing planned (action :: todo)) :
    WarrantedLog text w.params.scope (w.addressTransaction action).log ∧
      ∃ snapshots middle addressed, SinceFetch (w.addressTransaction action).log snapshots middle ∧
        planned = planIngest text snapshots w.params.scope false ∧
        planned = addressed ++ action :: todo ∧
        (∀ a ∈ addressed, MetIn middle a.snapshot.ynabId) ∧
        MetIn middle action.snapshot.ynabId := by
  have hkept := h.phase
  rw [hphase] at hkept
  obtain ⟨snapshots, middle, hsince, hplanned, addressed, hsplit, hmet⟩ := hkept
  have hmem : action ∈ planIngest text snapshots w.params.scope false := by
    rw [← hplanned, hsplit]
    exact List.mem_append_right _ List.mem_cons_self
  obtain ⟨houtstanding, hnotify⟩ := outstanding_of_planned hmem
  rcases addressTransaction_log w action with ⟨last, hlast, hlog⟩ | ⟨status, hstatus, hlog | hlog⟩
  · rw [hlog]
    refine ⟨⟨⟨hlast, snapshots, middle, _, hsince, houtstanding, rfl⟩, h.warranted⟩, snapshots, _,
      addressed, hsince.cons rfl, hplanned, hsplit, ?_, ?_⟩
    · exact fun a ha => (hmet a ha).mono (List.subset_cons_self _ _)
    · exact .inl ⟨last, List.mem_cons_self⟩
  · rw [hlog]
    refine ⟨⟨trivial, h.warranted⟩, snapshots, _, addressed, hsince.cons rfl, hplanned, hsplit, ?_,
      ?_⟩
    · exact fun a ha => (hmet a ha).mono (List.subset_cons_self _ _)
    · exact .inr ⟨status, List.mem_cons_self, hstatus⟩
  · obtain ⟨rfl, hnotifies, hlog⟩ := hlog
    have hmiddle := hsince.cons (e := .met action.snapshot.ynabId .running) rfl
    rw [hlog]
    refine ⟨⟨⟨?_, rfl, snapshots, _, hmiddle, houtstanding⟩, trivial, h.warranted⟩, snapshots, _,
      addressed, hmiddle.cons rfl, hplanned, hsplit, ?_, ?_⟩
    · rw [← hnotify]
      exact hnotifies
    · intro a ha
      exact ((hmet a ha).mono (List.subset_cons_self _ _)).mono (List.subset_cons_self _ _)
    · exact .inr ⟨.running, List.mem_cons_of_mem _ List.mem_cons_self, hstatus⟩

/-- The phases that keep nothing. -/
theorem Kept.idle (h : Kept text w) {phase : PollPhase} {log : List PollEvent}
    (hlog : WarrantedLog text w.params.scope log) (hphase : phase.Kept text w.params.scope log) :
    Kept text { w with phase, log } :=
  ⟨hlog, hphase, h.alone⟩

/-- One step keeps the invariant. -/
theorem Kept.step (h : Kept text w) {act : PollAct} (hstep : w.step text act = some w') :
    Kept text w' := by
  cases act with
  | fetch snapshots =>
    simp only [PollWorld.step] at hstep
    split at hstep
    · cases hstep
      refine h.idle ⟨trivial, h.warranted⟩ ?_
      have hnone : ∀ a ∈ ([] : List AddressTxn), MetIn [] a.snapshot.ynabId :=
        fun a ha => absurd ha List.not_mem_nil
      exact addressNext_kept (sinceFetch_fetched w.log snapshots) rfl hnone
    · cases hstep
  | address returns =>
    simp only [PollWorld.step] at hstep
    split at hstep
    · rename_i planned action todo hphase
      obtain ⟨hwarranted, snapshots, middle, addressed, hsince, hplanned, hsplit, hmet, hself⟩ :=
        h.address hphase
      obtain ⟨hparams, hsame⟩ := addressTransaction_poll w action
      have halone := addressTransaction_sound h.alone action
      cases hstep
      split
      · refine ⟨by rw [hparams]; exact hwarranted, ?_, halone⟩
        show (addressNext planned todo).Kept text (w.addressTransaction action).params.scope _
        rw [hparams]
        have hnext : planned = (addressed ++ [action]) ++ todo := by
          rw [hsplit, List.append_assoc, List.singleton_append]
        rw [hnext]
        refine addressNext_kept hsince (by rw [← hnext, hplanned]) fun a ha => ?_
        rcases List.mem_append.1 ha with ha | ha
        · exact hmet a ha
        · rw [List.mem_singleton.1 ha]
          exact hself
      · refine ⟨by rw [hparams]; exact hwarranted, ?_, halone⟩
        rw [hsame, hphase, hparams]
        exact ⟨snapshots, middle, hsince, hplanned, addressed, hsplit, hmet⟩
    · cases hstep
  | list receipts now =>
    simp only [PollWorld.step] at hstep
    split at hstep
    · rename_i planned hphase
      cases hstep
      have hkept := h.phase
      rw [hphase] at hkept
      obtain ⟨snapshots, middle, hsince, hplanned, hmet⟩ := hkept
      have hwarranted : WarrantedLog text w.params.scope (.listed receipts :: w.log) :=
        ⟨trivial, h.warranted⟩
      refine Kept.joinNext (w := { w with log := .listed receipts :: w.log }) hwarranted
        h.alone ?_ now
      refine ⟨snapshots, _, hsince.cons rfl, hplanned, ?_, receipts, [], List.mem_cons_self, rfl,
        ?_⟩
      · exact fun a ha => (hmet a ha).mono (List.subset_cons_self _ _)
      · exact fun r hr => absurd hr List.not_mem_nil
    · cases hstep
  | join returns now =>
    simp only [PollWorld.step] at hstep
    split at hstep
    · rename_i planned receipt todo hphase
      cases hstep
      have hkept := h.phase
      rw [hphase] at hkept
      obtain ⟨snapshots, middle, hsince, hplanned, hmet, receipts, joined, hlisted, hreceipts,
          hjoined⟩ :=
        hkept
      have hmiddle := hsince.cons (e := .joined receipt.id) rfl
      have hsub := List.subset_cons_self (PollEvent.joined receipt.id) middle
      have hmets : ∀ a ∈ planned, MetIn (.joined receipt.id :: middle) a.snapshot.ynabId :=
        fun a ha => (hmet a ha).mono hsub
      have hwarranted : WarrantedLog text w.params.scope (.joined receipt.id :: w.log) :=
        ⟨trivial, h.warranted⟩
      split
      · refine Kept.joinNext
          (w := { w.startJoin receipt.id with log := .joined receipt.id :: w.log })
          hwarranted h.alone ?_ now
        refine ⟨snapshots, _, hmiddle, hplanned, hmets, receipts, joined ++ [receipt], hsub hlisted,
          ?_, ?_⟩
        · rw [hreceipts, List.append_assoc, List.singleton_append]
        · intro r hr
          rcases List.mem_append.1 hr with hr | hr
          · exact hsub (hjoined r hr)
          · rw [List.mem_singleton.1 hr]
            exact List.mem_cons_self
      · refine ⟨⟨trivial, h.warranted⟩, ?_, h.alone⟩
        show w.phase.Kept text w.params.scope _
        rw [hphase]
        exact ⟨snapshots, _, hmiddle, hplanned, hmets, receipts, joined, hsub hlisted, hreceipts,
          fun r hr => hsub (hjoined r hr)⟩
    · cases hstep
  | fails =>
    simp only [PollWorld.step] at hstep
    split at hstep
    · cases hstep
    · cases hstep
    · cases hstep
    · cases hstep
      exact h.idle h.warranted trivial
    · cases hstep
      refine h.idle h.warranted ?_
      split <;> trivial
  | page now =>
    simp only [PollWorld.step] at hstep
    split at hstep
    · cases hstep
      refine ⟨⟨trivial, h.warranted⟩, ?_, h.alone⟩
      show (endTick _ _ _).phase.Kept text w.params.scope _
      unfold endTick
      split <;> trivial
    · cases hstep
  | wake now =>
    simp only [PollWorld.step] at hstep
    split at hstep
    · split at hstep
      · cases hstep
        exact h.idle h.warranted trivial
      · cases hstep
    · cases hstep
  | reply ynabId =>
    cases hstep
    exact ⟨h.warranted, h.phase, h.alone.start⟩
  | finish ynabId status =>
    obtain ⟨txns, htxns, rfl⟩ := Option.map_eq_some_iff.1 hstep
    exact ⟨h.warranted, h.phase, h.alone.finish htxns⟩
  | forward receiptId =>
    cases hstep
    exact ⟨h.warranted, h.phase, h.alone⟩
  | finishJoin receiptId status =>
    obtain ⟨joins, -, rfl⟩ := Option.map_eq_some_iff.1 hstep
    exact ⟨h.warranted, h.phase, h.alone⟩

end PollWorld

end steps

/-! ## Runs -/

abbrev PollBeat := Lib.Beat PollWorld PollAct

abbrev PollRun (text : PyText) := Lib.Run (Lib.StepOf (PollWorld.step text))

section runs
variable {text : PyText} {w w' : PollWorld} {beats : List PollBeat}

theorem PollWorld.step_params {act : PollAct} (h : w.step text act = some w') :
    w'.params = w.params := by
  have haddress := fun action => (PollWorld.addressTransaction_poll w action).1
  have hnext : ∀ (u : PollWorld) (planned : List AddressTxn) (now : Datetime) (todo : List Receipt),
      (u.joinNext planned now todo).params = u.params := by
    intro u planned now todo
    cases todo <;> rfl
  cases act with
  | address returns =>
    simp only [PollWorld.step] at h
    split at h
    · cases h
      split <;> exact haddress _
    · cases h
  | fails =>
    simp only [PollWorld.step] at h
    split at h <;> cases h <;> rfl
  | wake now =>
    simp only [PollWorld.step] at h
    split at h
    · split at h
      · cases h
        rfl
      · cases h
    · cases h
  | reply ynabId => cases h; rfl
  | forward receiptId => cases h; rfl
  | finish ynabId status =>
    obtain ⟨txns, -, rfl⟩ := Option.map_eq_some_iff.1 h
    rfl
  | finishJoin receiptId status =>
    obtain ⟨joins, -, rfl⟩ := Option.map_eq_some_iff.1 h
    rfl
  | join returns now =>
    simp only [PollWorld.step] at h
    split at h
    · cases h
      split
      · exact hnext _ _ _ _
      · rfl
    · cases h
  | list receipts now =>
    simp only [PollWorld.step] at h
    split at h
    · cases h
      exact hnext _ _ _ _
    · cases h
  | _ =>
    simp only [PollWorld.step] at h
    split at h
    · cases h
      rfl
    · cases h

theorem warranted_of_split {scope : IngestScope} {log : List PollEvent}
    (h : WarrantedLog text scope log)
    {after before : List PollEvent} {e : PollEvent} (hlog : log = after ++ e :: before) :
    e.Warranted text scope before := by
  induction after generalizing log with
  | nil =>
    rw [hlog] at h
    exact h.1
  | cons a after ih =>
    rw [hlog] at h
    exact ih h.2 rfl

/-- **What the poll has done was warranted.** It starts an execution only for a transaction it read
in this tick, unapproved and in scope, whose last execution failed, or that has none; it signals
only the late memo of such a transaction; and a tick returns only when each of them has an execution
or met one that runs or completed, and a join was started for each open receipt. No transaction has
two executions that run. -/
theorem tick_warranted (h : PollRun text w beats w') (hphase : w.phase = .fetching)
    (hlog : w.log = []) (halone : w.txns.Sound) :
    (∀ after e before, w'.log = after ++ e :: before → e.Warranted text w.params.scope before) ∧
      w'.txns.Sound := by
  have hkept : w'.params = w.params ∧ PollWorld.Kept text w' := by
    refine h.invariant (I := fun u => u.params = w.params ∧ PollWorld.Kept text u) ?_ ⟨rfl, ?_⟩
    · rintro u l v ⟨hparams, hu⟩ hstep
      cases hstep with
      | step hs => exact ⟨(PollWorld.step_params hs).trans hparams, hu.step hs⟩
    · refine ⟨?_, ?_, halone⟩
      · rw [hlog]
        trivial
      · rw [hphase]
        trivial
  refine ⟨fun after e before hsplit => ?_, hkept.2.alone⟩
  rw [← hkept.1]
  exact warranted_of_split hkept.2.warranted hsplit

/-- A loop over a household without a cutover. -/
def homePoll : PollWorld where
  params := { scope := { installDate := 0 }, continuous := true }

/-- A charge is addressed, by an attempt that returns nothing and one that does; its workflow fails,
and the next tick addresses it again. -/
def marketTicks : List PollAct :=
  [.fetch [marketSnapshot], .address false, .address true, .list [] 0, .finish "t1" .failed,
    .wake homePoll.params.interval, .fetch [marketSnapshot], .address true, .list [] 0]

theorem market_refired : ∃ beats w,
    Lib.exec (PollWorld.step PyText.ascii) homePoll marketTicks = some (beats, w) ∧
    .started "t1" (some .failed) ∈ w.log ∧ w.txns.runs "t1" = [.running, .failed] ∧
    (∀ after e before, w.log = after ++ e :: before →
      e.Warranted PyText.ascii homePoll.params.scope before) ∧ w.txns.Sound := by
  have hexec : ∃ beats w,
      Lib.exec (PollWorld.step PyText.ascii) homePoll marketTicks = some (beats, w) ∧
      w.log[2]? = some (.started "t1" (some .failed)) ∧ w.txns.runs "t1" = [.running, .failed] :=
    ⟨_, _, rfl, rfl, rfl⟩
  obtain ⟨beats, w, hexec, hstarted, hruns⟩ := hexec
  exact ⟨beats, w, hexec, List.mem_of_getElem? hstarted, hruns,
    tick_warranted (Lib.exec_run hexec) rfl rfl Executions.sound_init⟩

/-! ## The loop goes on -/

/-- A page that fails ends the loop. -/
def FailsPage (beat : PollBeat) : Prop := beat.act = .fails ∧ beat.pre.phase = .alerting

/-- Not over, and with something under way. -/
def PollPhase.Live : PollPhase → Prop
  | .returned _ | .raised => False
  | .addressing _ todo => todo ≠ []
  | .joining _ todo => todo ≠ []
  | _ => True

theorem PollWorld.endTick_live (hcontinuous : w.params.continuous = true) (result : PollResult)
    (now : Datetime) : (w.endTick result now).phase.Live := by
  unfold PollWorld.endTick
  rw [if_pos hcontinuous]
  trivial

theorem addressNext_live (planned todo : List AddressTxn) : (addressNext planned todo).Live := by
  cases todo with
  | nil => trivial
  | cons action todo => exact List.cons_ne_nil _ _

theorem PollWorld.joinNext_live (hcontinuous : w.params.continuous = true)
    (planned : List AddressTxn) (now : Datetime) (todo : List Receipt) :
    (w.joinNext planned now todo).phase.Live := by
  cases todo with
  | nil => exact PollWorld.endTick_live hcontinuous _ now
  | cons receipt todo => exact List.cons_ne_nil _ _

/-- A step of the continuous loop does not end it, unless its page fails. -/
theorem PollWorld.step_live (hcontinuous : w.params.continuous = true) (hlive : w.phase.Live)
    {act : PollAct} (hpage : ¬ FailsPage ⟨w, act⟩) (hstep : w.step text act = some w') :
    w'.phase.Live := by
  cases act with
  | fetch snapshots =>
    simp only [PollWorld.step] at hstep
    split at hstep
    · cases hstep
      exact addressNext_live _ _
    · cases hstep
  | address returns =>
    simp only [PollWorld.step] at hstep
    split at hstep
    · rename_i planned action todo hphase
      cases hstep
      split
      · exact addressNext_live _ _
      · rw [(PollWorld.addressTransaction_poll w action).2]
        exact hlive
    · cases hstep
  | list receipts now =>
    simp only [PollWorld.step] at hstep
    split at hstep
    · cases hstep
      exact PollWorld.joinNext_live (w := { w with log := .listed receipts :: w.log })
        hcontinuous _ _ _
    · cases hstep
  | join returns now =>
    simp only [PollWorld.step] at hstep
    split at hstep
    · rename_i planned receipt todo hphase
      cases hstep
      split
      · exact PollWorld.joinNext_live
          (w := { w.startJoin receipt.id with log := .joined receipt.id :: w.log })
          hcontinuous _ _ _
      · exact hlive
    · cases hstep
  | fails =>
    simp only [PollWorld.step] at hstep
    split at hstep
    · cases hstep
    · cases hstep
    · cases hstep
    · rename_i hphase
      exact absurd ⟨rfl, hphase⟩ hpage
    · cases hstep
      rw [if_pos hcontinuous]
      trivial
  | page now =>
    simp only [PollWorld.step] at hstep
    split at hstep
    · cases hstep
      exact PollWorld.endTick_live hcontinuous _ now
    · cases hstep
  | wake now =>
    simp only [PollWorld.step] at hstep
    split at hstep
    · split at hstep
      · cases hstep
        trivial
      · cases hstep
    · cases hstep
  | reply ynabId => cases hstep; exact hlive
  | finish ynabId status =>
    obtain ⟨txns, -, rfl⟩ := Option.map_eq_some_iff.1 hstep
    exact hlive
  | forward receiptId => cases hstep; exact hlive
  | finishJoin receiptId status =>
    obtain ⟨joins, -, rfl⟩ := Option.map_eq_some_iff.1 hstep
    exact hlive

/-- The loop comes from one state to another without a failure. -/
def GoesOn (text : PyText) (w w' : PollWorld) : Prop :=
  ∃ beats : List PollBeat, PollRun text w beats w' ∧ ∀ beat ∈ beats, beat.act ≠ .fails

theorem GoesOn.refl (w : PollWorld) : GoesOn text w w :=
  ⟨[], .nil w, fun _ hbeat => absurd hbeat List.not_mem_nil⟩

theorem GoesOn.cons {u : PollWorld} {act : PollAct} (hstep : w.step text act = some u)
    (hact : act ≠ .fails) (h : GoesOn text u w') : GoesOn text w w' := by
  obtain ⟨beats, hrun, hbeats⟩ := h
  exact ⟨⟨w, act⟩ :: beats, .cons (.step hstep) hrun, List.forall_mem_cons.2 ⟨hact, hbeats⟩⟩

theorem GoesOn.trans {u : PollWorld} (h : GoesOn text w u) (h' : GoesOn text u w') :
    GoesOn text w w' := by
  obtain ⟨beats, hrun, hbeats⟩ := h
  obtain ⟨beats', hrun', hbeats'⟩ := h'
  refine ⟨beats ++ beats', hrun.append hrun', fun beat hbeat => ?_⟩
  rcases List.mem_append.1 hbeat with hbeat | hbeat
  · exact hbeats beat hbeat
  · exact hbeats' beat hbeat

/-- Addressed one after the other, the planned transactions come to an end, with the tick's log. -/
theorem goesOn_listing (planned : List AddressTxn) (todo : List AddressTxn) :
    ∀ {w : PollWorld}, w.phase = addressNext planned todo →
      ∃ u, GoesOn text w u ∧ u.phase = .listing planned ∧ u.params = w.params ∧
        ∃ since, u.log = since ++ w.log ∧ ∀ e ∈ since, e.isFetch = false := by
  induction todo with
  | nil =>
    intro w hphase
    exact ⟨w, .refl w, hphase, rfl, [], rfl, fun _ he => absurd he List.not_mem_nil⟩
  | cons action todo ih =>
    intro w hphase
    have hphase' : w.phase = .addressing planned (action :: todo) := hphase
    let next : PollWorld := { w.addressTransaction action with phase := addressNext planned todo }
    have hstep : w.step text (.address true) = some next := by
      simp only [PollWorld.step, hphase', if_true]
      rfl
    obtain ⟨u, hgoes, hu, hparams, since, hlog, hsince⟩ := ih (w := next) rfl
    have hmore : ∃ more, next.log = more ++ w.log ∧ ∀ e ∈ more, e.isFetch = false := by
      rcases PollWorld.addressTransaction_log w action with ⟨last, -, h⟩ | ⟨status, -,
        h | ⟨-, -, h⟩⟩
      · exact ⟨[_], h, by simp [PollEvent.isFetch]⟩
      · exact ⟨[_], h, by simp [PollEvent.isFetch]⟩
      · exact ⟨[_, _], h, by simp [PollEvent.isFetch]⟩
    obtain ⟨more, hnext, hfetch⟩ := hmore
    have hact : PollAct.address true ≠ .fails := fun h => by cases h
    refine ⟨u, hgoes.cons hstep hact, hu,
      hparams.trans (PollWorld.addressTransaction_poll w action).1,
      since ++ more, by rw [hlog, hnext, List.append_assoc], fun e he => ?_⟩
    rcases List.mem_append.1 he with he | he
    · exact hsince e he
    · exact hfetch e he

/-- So do the receipts. -/
theorem goesOn_sleeping (planned : List AddressTxn) (todo : List Receipt) :
    ∀ {w : PollWorld}, w.params.continuous = true → w.phase = .joining planned todo → todo ≠ [] →
      ∃ u wakes, GoesOn text w u ∧ u.phase = .sleeping wakes ∧ u.params = w.params := by
  induction todo with
  | nil => exact fun _ _ h => absurd rfl h
  | cons receipt todo ih =>
    intro w hcontinuous hphase _
    let joined : PollWorld := { w.startJoin receipt.id with log := .joined receipt.id :: w.log }
    have hstep : w.step text (.join true 0) = some (joined.joinNext planned 0 todo) := by
      simp only [PollWorld.step, hphase, if_true]
      rfl
    have hact : PollAct.join true 0 ≠ .fails := fun h => by cases h
    cases todo with
    | nil =>
      refine ⟨joined.joinNext planned 0 [], 0 + w.params.interval, (GoesOn.refl _).cons hstep hact,
        ?_, rfl⟩
      exact if_pos hcontinuous
    | cons receipt' todo =>
      obtain ⟨u, wakes, hgoes, hu, hparams⟩ :=
        ih (w := joined.joinNext planned 0 (receipt' :: todo)) hcontinuous rfl
          (List.cons_ne_nil _ _)
      exact ⟨u, wakes, hgoes.cons hstep hact, hu, hparams⟩

/-- From wherever it is, the continuous loop comes to its next tick. -/
theorem goesOn_fetching (hcontinuous : w.params.continuous = true) (hlive : w.phase.Live) :
    ∃ u, GoesOn text w u ∧ u.phase = .fetching ∧ u.params = w.params := by
  have hasleep : ∀ {v : PollWorld} {wakes : Datetime}, v.phase = .sleeping wakes →
      v.params = w.params → GoesOn text w v →
      ∃ u, GoesOn text w u ∧ u.phase = .fetching ∧ u.params = w.params := by
    intro v wakes hv hparams hgoes
    have hwake : v.step text (.wake wakes) = some { v with phase := .fetching } := by
      simp only [PollWorld.step, hv, le_refl, if_true]
    have hact : PollAct.wake wakes ≠ .fails := fun h => by cases h
    exact ⟨_, hgoes.trans ((GoesOn.refl _).cons hwake hact), rfl, hparams⟩
  have hlisting : ∀ {v : PollWorld} {planned : List AddressTxn}, v.phase = .listing planned →
      v.params = w.params → GoesOn text w v →
      ∃ u, GoesOn text w u ∧ u.phase = .fetching ∧ u.params = w.params := by
    intro v planned hv hparams hgoes
    let listed : PollWorld := { v with log := .listed [] :: v.log }
    have hlist : v.step text (.list [] 0) = some (listed.joinNext planned 0 []) := by
      simp only [PollWorld.step, hv]
      rfl
    have hact : PollAct.list [] 0 ≠ .fails := fun h => by cases h
    have hphase : (listed.joinNext planned 0 []).phase = .sleeping (0 + v.params.interval) :=
      if_pos (by rw [← hparams] at hcontinuous; exact hcontinuous)
    exact hasleep hphase hparams (hgoes.trans ((GoesOn.refl _).cons hlist hact))
  cases hphase : w.phase with
  | fetching => exact ⟨w, .refl w, hphase, rfl⟩
  | addressing planned todo =>
    rw [hphase] at hlive
    have hnext : w.phase = addressNext planned todo := by
      rw [hphase]
      cases todo with
      | nil => exact absurd rfl hlive
      | cons action todo => rfl
    obtain ⟨u, hgoes, hu, hparams, -⟩ := goesOn_listing planned todo hnext
    exact hlisting hu hparams hgoes
  | listing planned => exact hlisting hphase rfl (.refl w)
  | joining planned todo =>
    rw [hphase] at hlive
    obtain ⟨u, wakes, hgoes, hu, hparams⟩ := goesOn_sleeping planned todo hcontinuous hphase hlive
    exact hasleep hu hparams hgoes
  | alerting =>
    let paged : PollWorld := { w with log := .paged :: w.log }
    have hpage : w.step text (.page 0) = some (paged.endTick ⟨0, 0⟩ 0) := by
      simp only [PollWorld.step, hphase]
      rfl
    have hact : PollAct.page 0 ≠ .fails := fun h => by cases h
    have hsleeps : (paged.endTick ⟨0, 0⟩ 0).phase = .sleeping (0 + w.params.interval) :=
      if_pos hcontinuous
    exact hasleep hsleeps rfl ((GoesOn.refl _).cons hpage hact)
  | sleeping wakes => exact hasleep hphase rfl (.refl w)
  | returned result =>
    rw [hphase] at hlive
    exact hlive.elim
  | raised =>
    rw [hphase] at hlive
    exact hlive.elim

/-- **The continuous loop goes on** through whatever fails, as long as its page does not: from every
state it reaches, and whatever is outstanding by then, it comes to a tick that reads and addresses
it all, without a failure. -/
theorem poll_survives (h : PollRun text w beats w') (hphase : w.phase = .fetching)
    (hcontinuous : w.params.continuous = true) (hpage : ∀ beat ∈ beats, ¬ FailsPage beat)
    (snapshots : List YnabSnapshot) :
    ∃ u, GoesOn text w' u ∧ ∃ since earlier, u.log =
        .ticked (tally (planIngest text snapshots w.params.scope false)) ::
          since ++ .fetched snapshots :: earlier ∧
      ∀ e ∈ since, e.isFetch = false := by
  have hlive : w'.params = w.params ∧ w'.phase.Live := by
    refine h.invariant_of (I := fun u => u.params = w.params ∧ u.phase.Live)
      (C := fun beat => ¬ FailsPage beat) ?_ hpage ⟨rfl, by rw [hphase]; trivial⟩
    rintro u l v ⟨hparams, hu⟩ hl hstep
    cases hstep with
    | step hs =>
      exact ⟨(PollWorld.step_params hs).trans hparams,
        PollWorld.step_live (by rw [hparams]; exact hcontinuous) hu hl hs⟩
  obtain ⟨hparams, hlive⟩ := hlive
  have hnext : ∃ u, GoesOn text w' u ∧ u.phase = .fetching ∧ u.params = w'.params :=
    goesOn_fetching (by rw [hparams]; exact hcontinuous) hlive
  obtain ⟨u, hgoes, hu, hparams'⟩ := hnext
  rw [hparams] at hparams'
  let planned := planIngest text snapshots w.params.scope false
  let fetched : PollWorld :=
    { u with phase := addressNext planned planned, log := .fetched snapshots :: u.log }
  have hfetch : u.step text (.fetch snapshots) = some fetched := by
    simp only [PollWorld.step, hu, hparams', fetched, planned]
  have hact : PollAct.fetch snapshots ≠ .fails := fun h => by cases h
  have hlisting : ∃ v, GoesOn text fetched v ∧ v.phase = .listing planned ∧
      v.params = fetched.params ∧
      ∃ since, v.log = since ++ fetched.log ∧ ∀ e ∈ since, e.isFetch = false :=
    goesOn_listing planned planned rfl
  obtain ⟨v, hgoes', hv, -, since, hlog, hsince⟩ := hlisting
  let listed : PollWorld := { v with log := .listed [] :: v.log }
  have hlist : v.step text (.list [] 0) = some (listed.joinNext planned 0 []) := by
    simp only [PollWorld.step, hv]
    rfl
  have hact' : PollAct.list [] 0 ≠ .fails := fun h => by cases h
  refine ⟨_, hgoes.trans ((hgoes'.trans ((GoesOn.refl _).cons hlist hact')).cons hfetch hact),
    .listed [] :: since, u.log, ?_, List.forall_mem_cons.2 ⟨rfl, hsince⟩⟩
  show PollEvent.ticked _ :: .listed [] :: v.log = _
  rw [hlog]
  rfl

/-- A tick whose read fails is paged, and the charge addressed by a later one. -/
theorem market_survives : ∃ beats w, Lib.exec (PollWorld.step PyText.ascii) homePoll
      [.fails, .page 0] = some (beats, w) ∧
    ∃ u, GoesOn PyText.ascii w u ∧ ∃ since earlier, u.log =
        .ticked (tally (planIngest PyText.ascii [marketSnapshot] homePoll.params.scope false)) ::
          since ++ .fetched [marketSnapshot] :: earlier ∧
      ∀ e ∈ since, e.isFetch = false := by
  have hexec : ∃ w, Lib.exec (PollWorld.step PyText.ascii) homePoll [.fails, .page 0] =
      some ([⟨homePoll, .fails⟩, ⟨{ homePoll with phase := .alerting }, .page 0⟩], w) := ⟨_, rfl⟩
  obtain ⟨w, hexec⟩ := hexec
  refine ⟨_, w, hexec, poll_survives (Lib.exec_run hexec) rfl rfl ?_ [marketSnapshot]⟩
  intro beat hbeat hfails
  rcases List.mem_cons.1 hbeat with rfl | hbeat
  · cases hfails.2
  · rw [List.mem_singleton.1 hbeat] at hfails
    cases hfails.1

end runs

end YnabAgent
