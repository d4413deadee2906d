import YnabAgent.Domain.Provenance
import YnabAgent.Workflow.Inbounds
import YnabAgent.Ynab.ReadBack

/-!
# Closing the book

What a resting transaction does when its archive window passes. `archives_iff`: whether it
is archived is settled by the snapshot it came to rest with, whatever YNAB shows by then.
`archives_unchanged_iff`: on a transaction YNAB has not changed since its write was
verified, the driver asks for the archive exactly when the lines of a split come back in the
order they were decided.
-/

namespace YnabAgent

/-! ## The archive window -/

/-- What the archive of a resting transaction looks at. -/
def Transaction.Archivable : Transaction → Prop
  | .opened s => s.core.snapshot.reconciled = true
  | .lapsed s => s.core.snapshot.reconciled = true ∧ s.core.snapshot.categorized = true
  | _ => False

section handlers

/-- An open transaction is archived on a reconciled snapshot, whether or not the owner has filed it
elsewhere since. -/
theorem fromOpen_archived_iff {s : Open} {event : LifecycleEvent}
    (hevent : event = .archiveWindowReached ∨ ∃ choice, event = .overrideDetected choice) :
    (∃ tr, fromOpen s event = .ok tr ∧ tr.next.state = .archived) ↔
      s.core.snapshot.reconciled = true := by
  cases hrec : s.core.snapshot.reconciled with
  | false =>
    simp only [Bool.false_eq_true, iff_false]
    rintro ⟨tr, htr, hstate⟩
    rcases hevent with rfl | ⟨choice, rfl⟩
    · simp only [fromOpen, hrec, Bool.not_false, if_true] at htr
      cases htr
      cases hstate
    · simp only [fromOpen, hrec, Bool.not_false, if_true] at htr
      obtain ⟨o, -, htr⟩ := Lib.bind_eq_ok htr
      cases htr
      cases hstate
  | true =>
    simp only [iff_true]
    rcases hevent with rfl | ⟨choice, rfl⟩
    · simp only [fromOpen, hrec, Bool.not_true, Bool.false_eq_true, if_false]
      rw [Archived.make_eq_ok hrec (by intro h; cases h)]
      exact ⟨_, rfl, rfl⟩
    · simp only [fromOpen, hrec, Bool.not_true, Bool.false_eq_true, if_false]
      rw [Archived.make_eq_ok hrec (by intro h; cases h)]
      exact ⟨_, rfl, rfl⟩

theorem fromLapsed_archived_iff {s : Lapsed} :
    (∃ tr, fromLapsed s .archiveWindowReached = .ok tr ∧ tr.next.state = .archived) ↔
      s.core.snapshot.reconciled = true ∧ s.core.snapshot.categorized = true := by
  cases hrec : s.core.snapshot.reconciled with
  | false =>
    simp only [fromLapsed, hrec, Bool.not_false, if_true, Bool.false_eq_true, false_and, iff_false]
    rintro ⟨tr, htr, hstate⟩
    cases htr
    cases hstate
  | true =>
    cases hcat : s.core.snapshot.categorized with
    | false =>
      simp only [fromLapsed, hrec, hcat, Bool.not_true, Bool.false_eq_true, if_false,
        Bool.not_false, if_true, and_false, iff_false]
      rintro ⟨tr, htr, hstate⟩
      cases htr
      cases hstate
    | true =>
      simp only [fromLapsed, hrec, hcat, Bool.not_true, Bool.false_eq_true, if_false, and_true,
        iff_true]
      rw [Archived.make_eq_ok hrec fun _ => hcat]
      exact ⟨_, rfl, rfl⟩

end handlers

namespace Driver

section window
variable (text : PyText) {δ : Type} [DecidableEq δ] (digest : TargetState → δ)

/-- The archive window passes with no inbound: at its deadline, an open transaction is first read
from YNAB. -/
def closeBook (d : Driver) (m m' : Moment) (target? : Option TargetState) : Option Driver := do
  let d₁ ← d.step text digest (.timeout m)
  match d.txn with
  | .opened _ => d₁.step text digest (.returned m' (.read target?))
  | _ => pure d₁

variable {text digest} {d : Driver} {m : Moment} {event : LifecycleEvent}

/-- The state after an event that is fed: the machine's, or the same where the machine raised. -/
theorem orStuck_dispatch_archived (rest : List Effect) (resume : Resume)
    (hstate : d.txn.state ≠ .archived) :
    (d.orStuck (d.dispatch m event rest resume)).txn.state = .archived ↔
      ∃ tr, advance m.now defaultPolicy d.txn event = .ok tr ∧ tr.next.state = .archived := by
  unfold dispatch
  cases hadv : advance m.now defaultPolicy d.txn event with
  | error e =>
    simp only [reduceCtorEq, false_and, exists_false, iff_false]
    exact hstate
  | ok tr =>
    simp only [Except.ok.injEq, exists_eq_left']
    change ((syncThreadId { d with txn := tr.next }).execute m resume
      (tr.effects ++ rest)).txn.state = .archived ↔ _
    rw [execute_txn, syncThreadId_txn]

variable {deadline : Datetime} {m' : Moment} {target? : Option TargetState}

theorem closeBook_opened {s : Open} (hpc : d.pc = .waiting (.archive (some deadline)))
    (hdue : deadline ≤ m.now) (htxn : d.txn = .opened s) :
    d.closeBook text digest m m' target? =
      let d₁ := d.call (.readBack none) [] .nextStep
      some (d₁.orStuck (d₁.dispatch m' (archiveOrOverride s.decision target? m'.now) []
        (.unlessLeft .open .archive .blocked))) := by
  simp only [closeBook, step, hpc, onTimeout, if_pos hdue, htxn, Option.bind_eq_bind,
    Option.bind_some, onReturn, call]

theorem closeBook_lapsed {s : Lapsed} (hpc : d.pc = .waiting (.archive (some deadline)))
    (hdue : deadline ≤ m.now) (htxn : d.txn = .lapsed s) :
    d.closeBook text digest m m' target? =
      some (d.orStuck (d.dispatch m .archiveWindowReached []
        (.unlessLeft .lapsed .archive .blocked))) := by
  simp only [closeBook, step, hpc, onTimeout, if_pos hdue, htxn, Option.bind_eq_bind,
    Option.bind_some, Option.pure_def]

/-- **Archiving at the window.** A transaction that rests in `OPEN` or `LAPSED` is archived when its
window passes exactly when the snapshot it carries is reconciled and, from `LAPSED`, has a category,
whatever is read from YNAB at that moment. -/
theorem archives_iff (hpc : d.pc = .waiting (.archive (some deadline))) (hdue : deadline ≤ m.now)
    (hrest : d.txn.state = .open ∨ d.txn.state = .lapsed) (m' : Moment)
    (target? : Option TargetState) :
    ∃ d', d.closeBook text digest m m' target? = some d' ∧
      (d'.txn.state = .archived ↔ d.txn.Archivable) := by
  cases htxn : d.txn with
  | opened s =>
    have hstate : (d.call (.readBack none) [] .nextStep).txn.state ≠ .archived := by
      simp [htxn, Transaction.state]
    refine ⟨_, closeBook_opened hpc hdue htxn, (orStuck_dispatch_archived _ _ hstate).trans ?_⟩
    rw [call_txn, htxn]
    exact fromOpen_archived_iff (archiveOrOverride_event s.decision target? m'.now)
  | lapsed s =>
    have hstate : d.txn.state ≠ .archived := by simp [htxn, Transaction.state]
    refine ⟨_, closeBook_lapsed hpc hdue htxn, (orStuck_dispatch_archived _ _ hstate).trans ?_⟩
    rw [htxn]
    exact fromLapsed_archived_iff
  | _ => simp [htxn, Transaction.state] at hrest

end window

end Driver

/-- The charge is proposed and answered, and the answer written and verified: it rests in `OPEN`. -/
def answeredToOpen (snapshot : YnabSnapshot) : List Driver.Act :=
  [.returned ⟨0, 0⟩ (.snapshot (some snapshot)),
    .returned ⟨0, 0⟩ (.enriched (.askHuman diningProposal)), .returned ⟨0, 0⟩ (.thread "t1"),
    .submitInbound diningReply, .wake ⟨0, 0⟩,
    .returned ⟨0, 0⟩ (.interpreted (.answer (humanDecision "dining" 0 none))),
    .returned ⟨0, 0⟩ .done,
    .returned ⟨0, 0⟩ (.read (some (targetOf (humanDecision "dining" 0 none)))),
    .returned ⟨0, 0⟩ .done, .returned ⟨0, 0⟩ .done]

/-- The charge in YNAB as the owner reconciled it, still filed under dining. -/
def reconciledLater : YnabBackend :=
  { getTransaction := fun _ => some
      { id := "y1", accountId := "checking", date := 0, amount := -13070, approved := true,
        payeeName := some "Corner Cafe", categoryId := some "dining", cleared := "reconciled" }
    listTransactions := [] }

/-- A charge that was reconciled when it came in is archived at its window. -/
theorem archived_at_window :
    ∃ beats d d', Driver.Run PyText.ascii id (Driver.start { ynabId := "y1" }) beats d ∧
      d.closeBook PyText.ascii id ⟨Timedelta.days 30, 0⟩ ⟨Timedelta.days 30, 0⟩
        (some (targetOf (humanDecision "dining" 0 none))) = some d' ∧
      (d'.txn.state = .archived ↔ d.txn.Archivable) := by
  have hexec : ∃ beats d, Lib.exec (Driver.step PyText.ascii id) (Driver.start { ynabId := "y1" })
      (answeredToOpen reconciledSnapshot) = some (beats, d) ∧
      d.pc = .waiting (.archive (some (Timedelta.days 30))) ∧ d.txn.state = .open :=
    ⟨_, _, rfl, rfl, rfl⟩
  obtain ⟨beats, d, hexec, hpc, hstate⟩ := hexec
  have hclose : ∃ d', d.closeBook PyText.ascii id ⟨Timedelta.days 30, 0⟩ ⟨Timedelta.days 30, 0⟩
      (some (targetOf (humanDecision "dining" 0 none))) = some d' ∧
      (d'.txn.state = .archived ↔ d.txn.Archivable) :=
    Driver.archives_iff hpc (by decide) (.inl hstate) _ _
  obtain ⟨d', hclose⟩ := hclose
  exact ⟨beats, d, d', Lib.exec_run hexec, hclose⟩

/-- One that was reconciled only after it came in stays open at its window, with no timer left. -/
theorem open_after_reconciled :
    ∃ beats d d' snapshot, Driver.Run PyText.ascii id (Driver.start { ynabId := "y1" }) beats d ∧
      d.pc = .waiting (.archive (some (Timedelta.days 30))) ∧
      reconciledLater.snapshot PyText.ascii "y1" = .ok (some snapshot) ∧
      snapshot.reconciled = true ∧
      toTarget snapshot = some (targetOf (humanDecision "dining" 0 none)) ∧
      d.closeBook PyText.ascii id ⟨Timedelta.days 30, 0⟩ ⟨Timedelta.days 30, 0⟩ (toTarget snapshot)
        = some d' ∧
      d'.txn.state = .open ∧ d'.pc = .waiting .blocked := by
  have hexec : ∃ beats d d' snapshot, Lib.exec (Driver.step PyText.ascii id)
      (Driver.start { ynabId := "y1" })
      (answeredToOpen { reconciledSnapshot with cleared := .cleared }) = some (beats, d) ∧
      d.pc = .waiting (.archive (some (Timedelta.days 30))) ∧
      reconciledLater.snapshot PyText.ascii "y1" = .ok (some snapshot) ∧
      snapshot.reconciled = true ∧
      toTarget snapshot = some (targetOf (humanDecision "dining" 0 none)) ∧
      d.closeBook PyText.ascii id ⟨Timedelta.days 30, 0⟩ ⟨Timedelta.days 30, 0⟩ (toTarget snapshot)
        = some d' ∧
      d'.txn.state = .open ∧ d'.pc = .waiting .blocked :=
    ⟨_, _, _, _, rfl, rfl, rfl, rfl, rfl, rfl, rfl, rfl⟩
  obtain ⟨beats, d, d', snapshot, hexec, hrest⟩ := hexec
  exact ⟨beats, d, d', snapshot, Lib.exec_run hexec, hrest⟩

/-! ## A transaction unchanged since its write was verified -/

/-- An event that leaves the decision a transaction stands on as it is. -/
def LifecycleEvent.quiet : LifecycleEvent → Bool
  | .archiveWindowReached | .inboundReceived _ | .converged .noChange => true
  | _ => false

def Beat.quiet : Beat → Bool
  | .fed _ _ event _ => event.quiet
  | .stamped _ => true

/-- The step in which a write of the decision was verified: the end-state `read` matched it. -/
inductive Verified {δ : Type} [DecidableEq δ] (digest : TargetState → δ) (read : TargetState)
    (decision : Decision) : Beat → Prop
  | written {pre : Transaction} {core : TxnCore} {message : MessagePurpose}
      {learning : Option RuleLearningKind} {now : Datetime} {effects : List Effect}
      (hw : Written pre core decision message learning)
      (hmatch : classifyVerify digest (some read) (targetOf decision) = .match) :
      Verified digest read decision (.fed pre now (.writeVerified .match) effects)
  | converged {s : Revising} {now : Datetime} {effects : List Effect}
      (hmatch : classifyVerify digest (some read) (targetOf decision) = .match) :
      Verified digest read decision
        (.fed (.revising s) now (.converged (.reapplied decision)) effects)

section unchanged
variable {text : PyText} {δ : Type} [DecidableEq δ] {digest : TargetState → δ}
  {now : Datetime} {policy : LifecyclePolicy} {txn next : Transaction} {event : LifecycleEvent}
  {effects : List Effect} {read : TargetState} {decision : Decision} {beat : Beat}

theorem Verified.matches (h : Verified digest read decision beat) :
    classifyVerify digest (some read) (targetOf decision) = .match := by
  cases h with
  | written _ hmatch => exact hmatch
  | converged hmatch => exact hmatch

theorem resolveWriteVerify_standing {core : TxnCore} {message : MessagePurpose}
    {learning : Option RuleLearningKind} {tr : Transition}
    (h : resolveWriteVerify now policy core decision .match message learning = .ok tr) :
    tr.next.standing = some decision := by
  obtain ⟨o, ho, h⟩ := Lib.bind_eq_ok h
  cases h
  exact congrArg some (Open.of_make ho).2

/-- The transaction then stands on the verified decision. -/
theorem Verified.standing (h : Verified digest read decision beat)
    (hstep : TxnStep policy txn beat next) : next.standing = some decision := by
  cases h with
  | written hw hmatch =>
    cases hstep with
    | fed hadv =>
      cases hw with
      | auto s =>
        simp only [advance, fromAutoApplied] at hadv
        exact resolveWriteVerify_standing hadv
      | answered s =>
        simp only [advance, fromApplied] at hadv
        exact resolveWriteVerify_standing hadv
  | converged hmatch =>
    cases hstep with
    | fed hadv =>
      obtain ⟨o, ho, hadv⟩ := Lib.bind_eq_ok hadv
      cases hadv
      exact congrArg some (Open.of_make ho).2

theorem Move.standing_of_quiet (hm : Move now policy txn event next effects)
    (hquiet : event.quiet = true) (hprior : PriorCommitted txn) (h : txn.standing = some decision) :
    next.standing = some decision := by
  cases hm with
  | stay => exact h
  | reopen s signal => exact h
  | archive s a hcore hfinal => exact hfinal.trans h
  | restored s prior hprior' o hcore hdecision =>
    rw [← h]
    exact (congrArg some hdecision).trans hprior'.symm
  | rearmed s hexit =>
    have hp : s.prior = some decision := h
    rcases hexit with horigin | hnone
    · rw [(hprior decision hp).1] at horigin; cases horigin
    · rw [hp] at hnone; cases hnone
  | retarget s signal => exact h
  | verified hw => cases hw <;> cases hquiet
  | unverified hw => cases hw <;> cases hquiet
  | unconverged s outcome houtcome =>
    rcases houtcome with rfl | ⟨ynab, asked, rfl⟩ | ⟨reason, rfl⟩ <;> cases hquiet
  | override => cases hquiet
  | overrideArchive => cases hquiet
  | reapply => cases hquiet
  | _ => cases h

/-- From its verification, through quiet steps, a run stands on the decision. -/
theorem standing_since_verified {ynabId : YnabTransactionId} {threadId : Option ThreadId}
    {before rest : List Beat}
    (hrun : TxnRun policy (born ynabId threadId) (before ++ beat :: rest) txn)
    (hverified : Verified digest read decision beat) (hrest : ∀ b ∈ rest, b.quiet = true) :
    txn.standing = some decision := by
  obtain ⟨t, hbefore, hafter⟩ := hrun.of_append
  obtain ⟨u, hstep, hafter⟩ := hafter.cons_inv
  have hprior : PriorCommitted u :=
    Reachable.priorCommitted ⟨ynabId, threadId, _, hbefore.snoc hstep⟩
  suffices h : PriorCommitted txn ∧ txn.standing = some decision from h.2
  refine hafter.invariant_of (I := fun t => PriorCommitted t ∧ t.standing = some decision)
    (C := fun b : Beat => b.quiet = true) ?_ hrest ⟨hprior, hverified.standing hstep⟩
  intro s b t hs hquiet hstep
  cases hstep with
  | fed hadv =>
    have hm := advance_move hadv
    exact ⟨hm.priorCommitted hs.1, hm.standing_of_quiet hquiet hs.1 hs.2⟩
  | stamped _ threadId =>
    refine ⟨hs.1.withThread threadId, ?_⟩
    rw [← hs.2]
    cases s <;> rfl

/-! ### The comparison at the archive -/

/-- A read that matched a category is that category, in whatever order the lines come back. -/
theorem endState_reordered {wire live : WireTransaction} (hread : wire.endState = some read)
    (hlanded : SameAllocation read.allocation decision.allocation) (hlive : Reordered wire live) :
    ∃ read', live.endState = some read' ∧ (read'.allocation = decision.allocation ↔
      ∀ split, decision.allocation = .split split →
        toSplitLines live.subtransactions = split.lines) := by
  have hlength := (toSplitLines_perm hlive.subs).length_eq
  have hcategory : live.categoryId = wire.categoryId := by rw [hlive.rest]
  by_cases hsplit : 1 < (toSplitLines wire.subtransactions).length
  · rw [WireTransaction.endState_of_split hsplit] at hread
    cases hread
    refine ⟨_, WireTransaction.endState_of_split (by omega), ?_⟩
    cases halloc : decision.allocation with
    | category category tag => rw [halloc] at hlanded; exact hlanded.elim
    | split split =>
      obtain ⟨lines, two_le⟩ := split
      simp only [ResolvedAllocation.split.injEq, ResolvedSplit.mk.injEq]
      exact ⟨fun h split hs => by rw [← hs]; exact h, fun h => h _ rfl⟩
  · rw [WireTransaction.endState_of_single (by omega)] at hread
    obtain ⟨category, hpresent, rfl⟩ := Option.map_eq_some_iff.1 hread
    refine ⟨{ allocation := .category category none, memo := live.memo, approved := live.approved },
      ?_, ?_⟩
    · rw [WireTransaction.endState_of_single (by omega), hcategory, hpresent]
      rfl
    · cases halloc : decision.allocation with
      | category category' tag =>
        rw [halloc] at hlanded
        obtain ⟨rfl, rfl⟩ := hlanded
        simp
      | split split => rw [halloc] at hlanded; exact hlanded.elim

theorem archiveOrOverride_archive_iff (time : Datetime) {target : TargetState} :
    archiveOrOverride decision (some target) time = .archiveWindowReached ↔
      target.allocation = decision.allocation := by
  unfold archiveOrOverride
  by_cases h : target.allocation = decision.allocation
  · simp [h]
  · simp [h]

/-- **Archive or override.** A run rests in `OPEN` on a decision whose write was verified, and
YNAB has since changed nothing but perhaps the order of the lines: the driver asks for the
archive exactly when the lines of a split come back in the order of the decision, and else
reports an override. -/
theorem archives_unchanged_iff (hdigest : Function.Injective digest) {ynabId : YnabTransactionId}
    {threadId : Option ThreadId} {before rest : List Beat} {s : Open}
    (hrun : TxnRun policy (born ynabId threadId) (before ++ beat :: rest) (.opened s))
    (hverified : Verified digest read decision beat) (hrest : ∀ b ∈ rest, b.quiet = true)
    {wire live : WireTransaction} {verifying archiving : YnabBackend}
    (hwire : verifying.find ynabId = some wire)
    (hread : verifying.readBack text ynabId = .ok (some read))
    (hlive : archiving.find ynabId = some live) (hsame : Reordered wire live) :
    driverEvent text digest ynabId now (.opened s) (.readBack archiving)
        = .ok (some .archiveWindowReached) ↔
      ∀ split, decision.allocation = .split split →
        toSplitLines live.subtransactions = split.lines := by
  have hdecision : s.decision = decision :=
    Option.some.inj (standing_since_verified hrun hverified hrest)
  obtain ⟨hdeleted, ⟨snapshot, hsnapshot⟩, hend⟩ := readBack_eq_some hwire hread
  obtain ⟨snapshot', hsnapshot'⟩ := toSnapshot_reordered hsnapshot hsame
  have hdeleted' : live.deleted = false := by rw [hsame.rest]; exact hdeleted
  obtain ⟨read₀, hread₀, hlanded⟩ := (classifyVerify_match_iff hdigest).1 hverified.matches
  cases hread₀
  obtain ⟨read', hread', hiff⟩ := endState_reordered hend hlanded.allocation hsame
  simp only [driverEvent]
  rw [readBack_of_toSnapshot hlive hdeleted' hsnapshot', hread', hdecision, ← hiff,
    ← archiveOrOverride_archive_iff now]
  change Except.ok (some (archiveOrOverride decision (some read') now)) = _ ↔ _
  simp only [Except.ok.injEq, Option.some.injEq]

end unchanged

/-! ### A split read back in the other order -/

/-- A dinner and a present on one bill. -/
def dinnerLines : List ResolvedSplitLine :=
  [{ category := "dining", amount := ⟨-9070⟩ }, { category := "gifts", amount := ⟨-4000⟩ }]

def dinnerApplied : AutoApplied where
  core := { snapshot := reconciledSnapshot }
  decision :=
    { allocation := .split ⟨dinnerLines, by decide⟩, approved := true, decidedBy := .agent,
      decidedAt := 0, ruleId := some "r1" }
  byAgent := rfl
  committed := ⟨rfl, fun h => by cases h; rfl⟩

def dinnerOpen : Open :=
  { core := dinnerApplied.core, decision := dinnerApplied.decision,
    committed := dinnerApplied.committed }

/-- The bill in YNAB, its lines in the given order. -/
def dinnerWire (lines : List ResolvedSplitLine) : WireTransaction :=
  { id := "y1", accountId := "checking", date := 0, amount := -13070, approved := true
    payeeName := some "Corner Cafe", categoryId := none
    subtransactions := lines.map fun line => line.toPatch.created }

def dinnerBackend (lines : List ResolvedSplitLine) : YnabBackend :=
  { getTransaction := fun _ => some (dinnerWire lines), listTransactions := [] }

/-- The split is applied under its rule and verified. -/
theorem dinner_run : ∃ before effects, TxnRun defaultPolicy (born "y1" none)
    (before ++ [.fed (.autoApplied dinnerApplied) 0 (.writeVerified .match) effects])
    (.opened dinnerOpen) := by
  have hrun : ∃ before effects, runEvents defaultPolicy (born "y1" none)
      [(0, .snapshotMaterialized reconciledSnapshot false),
        (0, .enriched (.autoApply dinnerApplied.decision)), (0, .writeVerified .match)] =
      .ok (before ++ [.fed (.autoApplied dinnerApplied) 0 (.writeVerified .match) effects],
        .opened dinnerOpen) := ⟨[_, _], _, rfl⟩
  obtain ⟨before, effects, hrun⟩ := hrun
  exact ⟨before, effects, runEvents_run hrun⟩

/-- Its lines in the order they were decided: the archive is asked for. -/
theorem dinner_archived :
    driverEvent PyText.ascii id "y1" 0 (.opened dinnerOpen) (.readBack (dinnerBackend dinnerLines))
        = .ok (some .archiveWindowReached) ↔
      ∀ split, dinnerOpen.decision.allocation = .split split →
        toSplitLines (dinnerWire dinnerLines).subtransactions = split.lines := by
  obtain ⟨before, effects, hrun⟩ := dinner_run
  have hverified : Verified id (targetOf dinnerOpen.decision) dinnerOpen.decision
      (.fed (.autoApplied dinnerApplied) 0 (.writeVerified .match) effects) :=
    .written (.auto dinnerApplied) (by decide)
  have hread : (dinnerBackend dinnerLines).readBack PyText.ascii "y1"
      = .ok (some (targetOf dinnerOpen.decision)) := rfl
  exact archives_unchanged_iff Function.injective_id hrun hverified (by simp) rfl hread rfl
    (.refl _)

/-- The same lines in the other order, and nothing else changed: an override is reported. -/
theorem dinner_overridden :
    (∃ before effects, TxnRun defaultPolicy (born "y1" none)
      (before ++ [.fed (.autoApplied dinnerApplied) 0 (.writeVerified .match) effects])
      (.opened dinnerOpen)) ∧
    (dinnerBackend dinnerLines).readBack PyText.ascii "y1"
      = .ok (some (targetOf dinnerOpen.decision)) ∧
    Reordered (dinnerWire dinnerLines) (dinnerWire dinnerLines.reverse) ∧
    ∃ choice, driverEvent PyText.ascii id "y1" 0 (.opened dinnerOpen)
      (.readBack (dinnerBackend dinnerLines.reverse)) = .ok (some (.overrideDetected choice)) :=
  ⟨dinner_run, rfl, ⟨(List.reverse_perm _).map _, rfl⟩, _, rfl⟩

end YnabAgent
