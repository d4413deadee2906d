import YnabAgent.Join.Verdict
import YnabAgent.Workflow.ReceiptJoins

/-!
# What the joins act on

The joins of a receipt, with the outcome each plans on computed from what it read of YNAB and from
the model's verdict (`workflow/receipt_activities.py`, `workflow/receipt_workflow.py`). The reads,
the verdicts, the clock and every interleaving are open.

`joins_grounded`: every effect of a join is about the copy the join runs with, a receipt that was
forwarded but for its status, and names only transactions plausible for it; a question is asked of a
copy still parked, and a receipt is given up once its time is over.
-/

namespace YnabAgent

/-- A step of the joins; a join decides on the transactions it read and the model's verdict. -/
inductive MatchAct
  | join (act : JoinAct)
  | decide (id : ReceiptId) (transactions : List YnabSnapshot) (verdict : MatchVerdict)
      (now : Datetime)

/-- The step of the joins an act is. -/
def MatchAct.joinAct (w : JoinWorld) : MatchAct → Option JoinAct
  | join (.plan _ _ _) => none
  | join act => some act
  | decide id transactions verdict now =>
    (w.running id).map fun attempt =>
      .plan id (matchReceipt attempt.receipt transactions verdict) now

def JoinWorld.matchStep (w : JoinWorld) (act : MatchAct) : Option JoinWorld :=
  (act.joinAct w).bind w.step

abbrev MatchBeat := Lib.Beat JoinWorld MatchAct

abbrev MatchRun := Lib.Run (Lib.StepOf JoinWorld.matchStep)

/-! ## Where a receipt and an action come from -/

def Forwarded (beats : List MatchBeat) (receipt : Receipt) : Prop :=
  ∃ beat ∈ beats, beat.act = .join (.forward receipt)

/-- The receipt is a forwarded one, but for its status. -/
def Issued (beats : List MatchBeat) (receipt : Receipt) : Prop :=
  Forwarded beats { receipt with status := .parked }

/-- The join of this number, running with this copy of the receipt, planned the action. -/
def PlannedOn (beats : List MatchBeat) (number : Nat) (receipt : Receipt) (action : JoinAction) :
    Prop :=
  ∃ beat ∈ beats, beat.pre.running receipt.id = some ⟨number, receipt, .matching⟩ ∧
    ∃ transactions verdict now, beat.act = .decide receipt.id transactions verdict now ∧
      action = planJoin receipt (matchReceipt receipt transactions verdict) now

section mono
variable {beats beats' : List MatchBeat} {receipt : Receipt} {action : JoinAction} {number : Nat}

theorem Issued.mono (h : Issued beats receipt) (hbeats : beats ⊆ beats') :
    Issued beats' receipt := by
  obtain ⟨beat, hbeat, hact⟩ := h
  exact ⟨beat, hbeats hbeat, hact⟩

theorem Issued.withStatus (h : Issued beats receipt) (status : ReceiptStatus) :
    Issued beats { receipt with status } :=
  h

theorem PlannedOn.mono (h : PlannedOn beats number receipt action) (hbeats : beats ⊆ beats') :
    PlannedOn beats' number receipt action := by
  obtain ⟨beat, hbeat, hplanned⟩ := h
  exact ⟨beat, hbeats hbeat, hplanned⟩

end mono

/-- The invariant: every copy of a receipt is an issued one, and every action was planned. -/
structure JoinWorld.Founded (beats : List MatchBeat) (w : JoinWorld) : Prop where
  copies : ∀ receipt ∈ w.copies, Issued beats receipt
  inFlight : ∀ receipt, .park receipt ∈ w.inFlight → Issued beats receipt
  ledger : ∀ receipt ∈ w.ledger.receipts, Issued beats receipt
  running : ∀ id attempt, w.running id = some attempt →
    attempt.receipt.id = id ∧ Issued beats attempt.receipt ∧
      ∀ action, attempt.phase.action? = some action →
        PlannedOn beats attempt.number attempt.receipt action
  log : ∀ number action, .acted number action ∈ w.log →
    ∃ receipt, Issued beats receipt ∧ PlannedOn beats number receipt action

namespace JoinWorld

variable {beats beats' : List MatchBeat} {w w' : JoinWorld}

theorem founded_init : Founded [] {} where
  copies receipt h := absurd h List.not_mem_nil
  inFlight receipt h := absurd h List.not_mem_nil
  ledger receipt h := absurd h List.not_mem_nil
  running id attempt h := by cases h
  log number action h := absurd h List.not_mem_nil

theorem Founded.mono (h : Founded beats w) (hbeats : beats ⊆ beats') : Founded beats' w where
  copies receipt hmem := (h.copies receipt hmem).mono hbeats
  inFlight receipt hmem := (h.inFlight receipt hmem).mono hbeats
  ledger receipt hmem := (h.ledger receipt hmem).mono hbeats
  running id attempt hrun := by
    obtain ⟨hid, hissued, hplanned⟩ := h.running id attempt hrun
    exact ⟨hid, hissued.mono hbeats, fun action haction => (hplanned action haction).mono hbeats⟩
  log number action hmem := by
    obtain ⟨receipt, hissued, hplanned⟩ := h.log number action hmem
    exact ⟨receipt, hissued.mono hbeats, hplanned.mono hbeats⟩

/-- The running join of an id goes on, or is over. -/
theorem Founded.setRunning (h : Founded beats w) {id : ReceiptId} {attempt : Option JoinAttempt}
    (hattempt : ∀ a, attempt = some a → a.receipt.id = id ∧ Issued beats a.receipt ∧
      ∀ action, a.phase.action? = some action → PlannedOn beats a.number a.receipt action) :
    Founded beats (w.setRunning id attempt) where
  copies := h.copies
  inFlight := h.inFlight
  ledger := h.ledger
  running id' a ha := by
    by_cases hid : id' = id
    · subst hid
      rw [setRunning_running_self] at ha
      exact hattempt a ha
    · rw [setRunning_running_of_ne hid] at ha
      exact h.running id' a ha
  log := h.log

theorem Founded.setNone (h : Founded beats w) (id : ReceiptId) :
    Founded beats (w.setRunning id none) :=
  h.setRunning fun _ ha => by cases ha

/-- A folded signal brings only issued receipts into the table. -/
theorem issued_of_fold {state : ReceiptLedgerState} {signal : LedgerSignal}
    (hstate : ∀ receipt ∈ state.receipts, Issued beats receipt)
    (hsignal : ∀ receipt, signal = .park receipt → Issued beats receipt) :
    ∀ receipt ∈ (state.fold signal).receipts, Issued beats receipt := by
  intro receipt hmem
  cases signal with
  | park parked =>
    simp only [ReceiptLedgerState.fold, ReceiptLedgerState.park] at hmem
    split at hmem
    · exact hstate receipt hmem
    · rcases List.mem_append.1 ((ReceiptLedgerState.bounded_sublist _).subset hmem) with hmem | hmem
      · exact hstate receipt hmem
      · rw [List.mem_singleton.1 hmem]
        exact hsignal parked rfl
  | setStatus receiptId status =>
    simp only [ReceiptLedgerState.fold, ReceiptLedgerState.setStatus] at hmem
    rcases Lib.mem_updateAt.1 hmem with ⟨hmem, -⟩ | ⟨r, hr, -, rfl⟩
    · exact hstate receipt hmem
    · exact (hstate r hr).withStatus status

/-- A step of the joins, but for a plan, keeps the invariant. -/
theorem Founded.turn (h : Founded beats w) {act : JoinAct} (hturn : Turn w act w')
    (hforward : ∀ receipt, act = .forward receipt → Forwarded beats receipt)
    (hstart : ∀ receipt, act = .start receipt → receipt ∈ w.copies)
    (hplan : ∀ id outcome now, act = .plan id outcome now → ∀ number receipt,
      w.running id = some ⟨number, receipt, .matching⟩ →
        PlannedOn beats number receipt (planJoin receipt outcome now)) :
    Founded beats w' := by
  cases hturn with
  | forward receipt hparked =>
    have hissued : Issued beats receipt := by
      unfold Issued
      rw [← hparked]
      exact hforward receipt rfl
    refine ⟨?_, ?_, h.ledger, h.running, h.log⟩
    · intro r hr
      rcases List.mem_cons.1 hr with rfl | hr
      · exact hissued
      · exact h.copies r hr
    · intro r hr
      rcases List.mem_append.1 hr with hr | hr
      · exact h.inFlight r hr
      · cases List.mem_singleton.1 hr
        exact hissued
  | query =>
    refine ⟨?_, h.inFlight, h.ledger, h.running, h.log⟩
    intro r hr
    rcases List.mem_append.1 hr with hr | hr
    · exact h.ledger r (List.mem_of_mem_filter hr)
    · exact h.copies r hr
  | land signal hmem =>
    refine ⟨h.copies, fun r hr => h.inFlight r (List.mem_of_mem_erase hr), ?_, h.running, ?_⟩
    · refine issued_of_fold h.ledger fun receipt hsignal => ?_
      rw [hsignal] at hmem
      exact h.inFlight receipt hmem
    · intro number action hlog
      rcases List.mem_append.1 hlog with hlog | hlog
      · exact h.log number action hlog
      · cases signal with
        | park receipt => cases List.mem_singleton.1 hlog
        | setStatus receiptId status => cases hlog
  | start receipt =>
    unfold startJoin
    split
    · exact h
    · have hset :
          Founded beats (w.setRunning receipt.id (some { number := w.started, receipt })) := by
        refine h.setRunning fun a ha => ?_
        cases ha
        exact ⟨rfl, h.copies receipt (hstart receipt rfl), fun action haction => by cases haction⟩
      exact ⟨hset.copies, hset.inFlight, hset.ledger, hset.running, hset.log⟩
  | leave outcome now hrun => exact h.setNone _
  | plan outcome now hrun hstatus =>
    obtain ⟨hid, hissued, -⟩ := h.running _ _ hrun
    refine h.setRunning fun a ha => ?_
    cases ha
    refine ⟨hid, hissued, fun action haction => ?_⟩
    cases haction
    exact hplan _ outcome now rfl _ _ hrun
  | @act id number receipt action before took returns hrun htake hreturns =>
    obtain ⟨hid, hissued, hplanned⟩ := h.running _ _ hrun
    have hset : Founded beats
        (w.setRunning id (some ⟨number, receipt, .afterAct action before took returns⟩)) := by
      refine h.setRunning fun a ha => ?_
      cases ha
      refine ⟨hid, hissued, fun action' haction' => ?_⟩
      rw [JoinPhase.afterAct_action?] at haction'
      cases haction'
      exact hplanned action rfl
    refine ⟨hset.copies, hset.inFlight, hset.ledger, hset.running, ?_⟩
    intro number' action' hlog
    rcases List.mem_append.1 hlog with hlog | hlog
    · exact h.log number' action' hlog
    · split at hlog
      · cases List.mem_singleton.1 hlog
        exact ⟨receipt, hissued, hplanned action rfl⟩
      · cases hlog
  | @save id number receipt action status before sent returns hrun hstatus hreturns =>
    obtain ⟨hid, hissued, hplanned⟩ := h.running _ _ hrun
    have hset : Founded beats (w.setRunning id (if returns then none
        else some ⟨number, receipt, .saving action (before || sent)⟩)) := by
      refine h.setRunning fun a ha => ?_
      split at ha
      · cases ha
      · cases ha
        refine ⟨hid, hissued, fun action' haction' => ?_⟩
        cases haction'
        exact hplanned action rfl
    refine ⟨hset.copies, ?_, hset.ledger, hset.running, hset.log⟩
    intro r hr
    rcases List.mem_append.1 hr with hr | hr
    · exact h.inFlight r hr
    · split at hr
      · cases List.mem_singleton.1 hr
      · cases hr
  | fail hrun => exact h.setNone _

/-- One step keeps the invariant. -/
theorem Founded.step (h : Founded beats w) {act : MatchAct} (hstep : w.matchStep act = some w') :
    Founded (beats ++ [⟨w, act⟩]) w' := by
  obtain ⟨joinAct, hact, hstep⟩ := Option.bind_eq_some_iff.1 hstep
  have hlast : (⟨w, act⟩ : MatchBeat) ∈ beats ++ [⟨w, act⟩] :=
    List.mem_append_right _ List.mem_cons_self
  refine (h.mono (List.subset_append_left _ _)).turn (step_turn hstep) ?_ ?_ ?_
  · intro receipt hforward
    rw [hforward] at hact
    cases act with
    | join act =>
      cases act with
      | forward r => cases hact; exact ⟨_, hlast, rfl⟩
      | _ => cases hact
    | decide id transactions verdict now =>
      obtain ⟨attempt, -, hplan⟩ := Option.map_eq_some_iff.1 hact
      cases hplan
  · intro receipt hstart
    rw [hstart] at hstep
    simp only [JoinWorld.step] at hstep
    split at hstep
    · rename_i hcopy
      exact hcopy
    · cases hstep
  · intro id outcome now hplan number receipt hrun
    rw [hplan] at hact
    cases act with
    | join act => cases act <;> cases hact
    | decide id' transactions verdict now' =>
      obtain ⟨attempt', hrun', heq⟩ := Option.map_eq_some_iff.1 hact
      cases heq
      rw [hrun] at hrun'
      cases hrun'
      obtain rfl : receipt.id = id := (h.running id _ hrun).1
      exact ⟨_, hlast, hrun, transactions, verdict, now, rfl, rfl⟩

theorem founded_of_run (h : MatchRun {} beats w) : Founded beats w := by
  refine h.history (P := fun beats w => Founded beats w) founded_init ?_
  intro beats t beat u _ ih hstep
  cases hstep with
  | step hs => exact ih.step hs

end JoinWorld

/-! ## What an effect rests on -/

/-- The action fits the receipt, by what was read for it. -/
def JoinAction.Fits (receipt : Receipt) (transactions : List YnabSnapshot) (now : Datetime) :
    JoinAction → Prop
  | signalTransaction txnId receiptId =>
    receiptId = receipt.id ∧ receipt.status.isOpen = true ∧ Plausible receipt transactions txnId
  | askDisambiguation receiptId candidates =>
    receiptId = receipt.id ∧ receipt.status = .parked ∧ candidates.ids.Nodup ∧
      ∀ txnId ∈ candidates.ids, Plausible receipt transactions txnId
  | askNoMatch receiptId =>
    receiptId = receipt.id ∧ receipt.status.isOpen = true ∧
      defaultReceiptTtl < now - receipt.parkedAt
  | park _ | doNothing _ => True

theorem planJoin_fits (receipt : Receipt) (transactions : List YnabSnapshot)
    (verdict : MatchVerdict) (now : Datetime) :
    (planJoin receipt (matchReceipt receipt transactions verdict) now).Fits receipt
      transactions now := by
  have hplausible := plausible_of_matchReceipt receipt transactions verdict
  obtain ⟨hconfident, hambiguous⟩ := hplausible
  generalize matchReceipt receipt transactions verdict = outcome at hconfident hambiguous ⊢
  unfold planJoin
  cases hstatus : receipt.status with
  | matched => trivial
  | expired => trivial
  | parked =>
    have hopen : receipt.status.isOpen = true := by rw [hstatus]; rfl
    cases outcome with
    | confident txnId => exact ⟨rfl, hopen, hconfident txnId rfl⟩
    | ambiguous candidates =>
      obtain ⟨hnodup, hmem⟩ := hambiguous candidates rfl
      exact ⟨rfl, hstatus, hnodup, hmem⟩
    | noMatch =>
      simp only
      split
      · rename_i hexpired
        exact ⟨rfl, hopen, hexpired⟩
      · trivial
  | asked =>
    have hopen : receipt.status.isOpen = true := by rw [hstatus]; rfl
    cases outcome with
    | confident txnId => exact ⟨rfl, hopen, hconfident txnId rfl⟩
    | ambiguous candidates =>
      simp only [if_pos]
      split
      · rename_i hexpired
        exact ⟨rfl, hopen, hexpired⟩
      · trivial
    | noMatch =>
      simp only
      split
      · rename_i hexpired
        exact ⟨rfl, hopen, hexpired⟩
      · trivial

/-- **Every effect of a join is grounded.** It is about the copy of a forwarded receipt the join of
its number ran with, the same but for its status, and was decided in one step on what was read for
it: a delivery and every option of a question name an outflow that the receipt's amount or date
admits, whatever the model answered; a question is asked of a copy still parked; a receipt is given
up only past its time. -/
theorem joins_grounded {beats : List MatchBeat} {w : JoinWorld} (h : MatchRun {} beats w)
    {number : Nat} {action : JoinAction} (hlog : .acted number action ∈ w.log) :
    ∃ receipt, Issued beats receipt ∧
      ∃ beat ∈ beats, beat.pre.running receipt.id = some ⟨number, receipt, .matching⟩ ∧
        ∃ transactions verdict now, beat.act = .decide receipt.id transactions verdict now ∧
          action = planJoin receipt (matchReceipt receipt transactions verdict) now ∧
          action.Fits receipt transactions now := by
  obtain ⟨receipt, hissued, beat, hbeat, hrun, transactions, verdict, now, hact, haction⟩ :=
    (JoinWorld.founded_of_run h).log number action hlog
  refine ⟨receipt, hissued, beat, hbeat, hrun, transactions, verdict, now, hact, haction, ?_⟩
  rw [haction]
  exact planJoin_fits receipt transactions verdict now

/-- Two purchases could be the coffee; the model names them, one of them twice, and one it
made up. -/
def coffeeAsked : List MatchAct :=
  [.join (.forward coffeeReceipt), .join (.land (.park coffeeReceipt)),
    .join (.start coffeeReceipt), .decide "m1" [purchase "y1" 10000 100, purchase "y2" 10000 101]
      { decision := .ambiguous, candidateIds := ["y9", "y2", "y1", "y2"] } 1,
    .join (.act "m1" true true)]

theorem coffee_asked_grounded :
    ∃ beats w, MatchRun {} beats w ∧
      .acted 0 (.askDisambiguation "m1" ⟨["y2", "y1"], Nat.le_refl 2⟩) ∈ w.log ∧
      ∃ receipt, Issued beats receipt ∧ receipt.id = "m1" ∧ receipt.status = .parked ∧
        ∃ beat ∈ beats, beat.pre.running "m1" = some ⟨0, receipt, .matching⟩ := by
  have hexec : ∃ beats w, Lib.exec JoinWorld.matchStep {} coffeeAsked = some (beats, w) ∧
      .acted 0 (.askDisambiguation "m1" ⟨["y2", "y1"], Nat.le_refl 2⟩) ∈ w.log :=
    ⟨_, _, rfl, by decide +kernel⟩
  obtain ⟨beats, w, hexec, hlog⟩ := hexec
  have hrun := Lib.exec_run hexec
  obtain ⟨receipt, hissued, beat, hbeat, hjoin, transactions, verdict, now, -, -, hfits⟩ :=
    joins_grounded hrun hlog
  have hid : receipt.id = "m1" := hfits.1.symm
  rw [hid] at hjoin
  exact ⟨beats, w, hrun, hlog, receipt, hissued, hid, hfits.2.1, beat, hbeat, hjoin⟩

end YnabAgent
