import YnabAgent.Workflow.Confirmations
import YnabAgent.Workflow.Live

/-!
# The reconciliation guard

A transaction that is reconciled or in a closed month is not to be edited silently. The guard
(`policy/converge.py`) asks the snapshot the state carries, which is as old as the run and never
says that a month is closed; an auto-apply asks no one. `unblocked_writes`: the runs that write no
blocked transaction are those in which the live one is not blocked where a write is decided and
until it is made.
-/

namespace YnabAgent

/-- A write is decided on. -/
def Attempt.decided : Attempt → Bool
  | .planned _ _ | .done (.enriched (.autoApply _)) => true
  | _ => false

namespace LiveWorld

/-- A write of the run's own is on its way. -/
def writing (w : LiveWorld) : Bool :=
  w.driver.autoCommitting || w.attempt.decided

variable {w : LiveWorld}

theorem writing_iff :
    w.writing = true ↔ w.driver.autoCommitting = true ∨ w.attempt.decided = true := by
  simp [writing]

/-- A patch does not touch what blocks a transaction. -/
theorem blocked_patched {wire : WireTransaction} (hlive : w.live = some wire) (decision : Decision)
    (attempt : Attempt) :
    { w with live := some (wire.patched (toPatch decision)), attempt }.blocked = w.blocked := by
  simp [blocked, hlive, WireTransaction.patched]

end LiveWorld

/-- A converge write, or the write of an auto-apply. -/
def LiveBeat.silentWrite (beat : LiveBeat) : Bool :=
  match beat.act with
  | .work .write => true
  | .work .commit => beat.pre.driver.autoCommitting
  | _ => false

section guard
variable (text : PyText) {δ : Type} [DecidableEq δ] (digest : TargetState → δ)

/-- The live transaction is not blocked where a write is decided on, nor does it come to be while
the write is on its way. -/
def LiveBeat.Guarded (beat : LiveBeat) : Prop :=
  match beat.act with
  | .edit live monthClosed =>
    beat.pre.writing = true → { beat.pre with live, monthClosed }.blocked = false
  | .work (.enrich inputs) =>
    beat.pre.blocked = true → ∀ snapshot rest resume decision,
      beat.pre.driver.pc = .calling (.enrich snapshot) rest resume →
      decideEnrichment text inputs.propose snapshot inputs.candidates inputs.rules inputs.counters
        inputs.now ≠ .ok (.autoApply decision)
  | .work (.plan _ _ _) =>
    beat.pre.blocked = true → ∀ snapshot instruction prior rest resume,
      beat.pre.driver.pc = .calling (.converge snapshot instruction prior) rest resume →
      reconciliationBlocks snapshot = true
  | _ => True

variable {text digest} {w w' : LiveWorld} {act : LiveAct}

open LiveWorld

/-- A plan on a blocked snapshot writes nothing. -/
theorem convergePlan_write {snapshot : YnabSnapshot} {instruction : InboundSignal}
    {prior : Option Decision} {inputs : ConvergeInputs} {decision : Decision}
    (h : convergePlan text digest snapshot instruction prior inputs = .ok (.write decision)) :
    reconciliationBlocks snapshot = false := by
  unfold convergePlan at h
  split at h
  · cases h
  · rename_i hblocks
    simpa using hblocks

/-- An attempt decides on a write only of an unblocked transaction. -/
theorem LiveWorld.Worked.not_blocked {work : Work} {attempt : Attempt}
    (h : LiveWorld.Worked text digest w work attempt)
    (hguard : LiveBeat.Guarded text ⟨w, .work work⟩) (hdecided : attempt.decided = true) :
    w.blocked = false := by
  cases h with
  | @enriched inputs snapshot rest resume outcome hpc houtcome =>
    cases outcome with
    | autoApply decision =>
      by_contra hblocked
      exact hguard (by simpa using hblocked) snapshot rest resume decision hpc houtcome
    | askHuman proposal => cases hdecided
  | @planned candidates interpretRevision now snapshot instruction prior rest resume step hpc
      hstep =>
    cases step with
    | done outcome => cases hdecided
    | write decision =>
      by_contra hblocked
      have hblocks := hguard (by simpa using hblocked) snapshot instruction prior rest resume hpc
      rw [convergePlan_write hstep] at hblocks
      cases hblocks
  | _ => cases hdecided

/-- One step keeps the transaction unblocked while a write is on its way. -/
theorem LiveWorld.Turn.not_blocked (h : LiveWorld.Turn text digest w act w')
    (hcalling : w.driver.Calling) (hguard : LiveBeat.Guarded text ⟨w, act⟩)
    (hw : w.writing = true → w.blocked = false) (hw' : w'.writing = true) :
    w'.blocked = false := by
  cases h with
  | edited live monthClosed => exact hguard hw'
  | @drove act d hact hturn =>
    refine hw (writing_iff.2 ?_)
    rcases writing_iff.1 hw' with hauto | hdecided
    · rcases hturn.autoCommitting hcalling hauto with ⟨hauto, -⟩ | ⟨m, decision, heq⟩
      · exact .inl hauto
      · exact absurd heq (hact m _)
    · -- an attempt is kept only where the driver is not resumed
      right
      simp only at hdecided
      split at hdecided
      · cases hdecided
      · exact hdecided
  | @returned result d m hdone hturn =>
    refine hw (writing_iff.2 ?_)
    rcases writing_iff.1 hw' with hauto | hdecided
    · rcases hturn.autoCommitting hcalling hauto with ⟨-, hresumes⟩ | ⟨m, decision, heq⟩
      · cases hresumes
      · right
        cases heq
        rw [hdone]
        rfl
    · cases hdecided
  | worked hworked =>
    rcases writing_iff.1 hw' with hauto | hdecided
    · exact hw (writing_iff.2 (.inl hauto))
    · exact hworked.not_blocked hguard hdecided
  | @wrote candidates decision wire snapshot instruction prior rest resume hpc hplanned hlive =>
    rw [blocked_patched hlive]
    refine hw (writing_iff.2 (.inr ?_))
    rw [hplanned]
    rfl
  | @committed decision wire rest resume hpc hlive =>
    rw [blocked_patched hlive]
    rcases writing_iff.1 hw' with hauto | hdecided
    · exact hw (writing_iff.2 (.inl hauto))
    · cases hdecided

/-- A silent write is made while it is on its way. -/
theorem LiveWorld.Turn.writing_of_silentWrite (h : LiveWorld.Turn text digest w act w')
    (hsilent : LiveBeat.silentWrite ⟨w, act⟩ = true) : w.writing = true := by
  refine writing_iff.2 ?_
  cases h with
  | wrote hpc hplanned hlive =>
    right
    rw [hplanned]
    rfl
  | committed hpc hlive => exact .inl hsilent
  | worked hworked => cases hworked <;> cases hsilent
  | _ => cases hsilent

/-- **The reconciliation guard.** In a run that guards each of its steps, no converge write and no
auto-apply is made while the live transaction is reconciled or its month is closed. -/
theorem unblocked_writes {ynabId : YnabTransactionId} {live : Option WireTransaction}
    {monthClosed : Bool} {beats : List LiveBeat}
    (hrun : LiveWorld.Run text digest { live, monthClosed, driver := .start { ynabId } } beats w)
    (hguard : ∀ beat ∈ beats, beat.Guarded text) :
    ∀ beat ∈ beats, beat.silentWrite = true → beat.pre.blocked = false := by
  intro beat hbeat
  obtain ⟨before, after, hbeats⟩ := List.append_of_mem hbeat
  have hreached := hrun.each
    (I := fun _ w => w.driver.Calling ∧ (w.writing = true → w.blocked = false)) hguard
    ⟨Driver.start_calling ynabId [], by intro h; cases h⟩
    (fun hI hguarded hstep => by
      cases hstep with
      | step hs =>
        have hturn := LiveWorld.step_turn hs
        exact ⟨hturn.calling hI.1, hturn.not_blocked hI.1 hguarded hI.2⟩) hbeats
  obtain ⟨w, w', hI, hstep⟩ := hreached
  cases hstep with
  | step hs => exact fun hsilent => hI.2 ((LiveWorld.step_turn hs).writing_of_silentWrite hsilent)

end guard

/-! ## A charge filed by rule -/

def marketFetched : List LiveAct :=
  [.work .fetch, .returns ⟨0, 0⟩]

def marketEnriched (rules : List Rule) : List LiveAct :=
  [.work (.enrich { candidates := marketCandidates, propose := agreeing, rules
                    counters := {}, now := 0 }), .returns ⟨0, 0⟩]

/-- The charge is fetched, and its rule rules to apply it. -/
def marketRuled : List LiveAct :=
  marketFetched ++ marketEnriched [marketRule]

/-- It is written, verified and announced. -/
def marketApplied : List LiveAct :=
  marketRuled ++ [.work .commit, .returns ⟨0, 0⟩, .work .readBack, .returns ⟨0, 0⟩,
    .work (.send "th1"), .returns ⟨0, 0⟩, .work .settle, .returns ⟨0, 0⟩]

def giftsReply : InboundSignal :=
  .reply { threadId := "th1", messageId := "m1", fromAddress := "owner", text := "gifts" }

/-- The owner asks for another category. -/
def marketReopened : List LiveAct :=
  marketApplied ++ [.drive (.submitInbound giftsReply), .drive (.wake ⟨1, 0⟩)]

/-- The model reads it, and the revision is planned and written. -/
def giftsWritten : List LiveAct :=
  [.work
      (.plan marketCandidates (fun _ => { decision := .retarget, categoryId := some "gifts" }) 1),
    .work .write]

def marketWorld : LiveWorld :=
  { live := some (marketWire none none), driver := .start { ynabId := "t1" } }

def LiveAct.edits : LiveAct → Bool
  | .edit _ _ => true
  | _ => false

/-- A step on an open transaction that is no edit is guarded. -/
theorem LiveBeat.guarded_of_open {text : PyText} {beat : LiveBeat}
    (hedits : beat.act.edits = false) (hopen : beat.pre.blocked = false) : beat.Guarded text := by
  unfold Guarded
  split
  · rename_i hact
    rw [hact] at hedits
    cases hedits
  · intro hblocked
    exact absurd (hblocked.symm.trans hopen) Bool.noConfusion
  · intro hblocked
    exact absurd (hblocked.symm.trans hopen) Bool.noConfusion
  · trivial

/-- The charge is written by its rule and then to gifts, and is open each time. -/
theorem market_unblocked :
    ∃ beats w, LiveWorld.Run PyText.ascii id marketWorld beats w ∧
      (beats.filter LiveBeat.silentWrite).length = 2 ∧
      ∀ beat ∈ beats, LiveBeat.silentWrite beat = true → beat.pre.blocked = false := by
  have hexec : ∃ beats w, Lib.exec (LiveWorld.step PyText.ascii id) marketWorld
      (marketReopened ++ giftsWritten) = some (beats, w) ∧
      (beats.filter LiveBeat.silentWrite).length = 2 ∧
      (beats.all fun beat => !beat.act.edits && !beat.pre.blocked) = true := ⟨_, _, rfl, rfl, rfl⟩
  obtain ⟨beats, w, hexec, hwrites, hopen⟩ := hexec
  have hrun := Lib.exec_run hexec
  refine ⟨beats, w, hrun, hwrites, unblocked_writes hrun fun beat hbeat => ?_⟩
  have hbeat := List.all_eq_true.1 hopen beat hbeat
  simp only [Bool.and_eq_true, Bool.not_eq_true'] at hbeat
  exact LiveBeat.guarded_of_open hbeat.1 hbeat.2

/-- The owner reconciles the charge after its rule has ruled: the commit goes out all the same. And
its month is closed while it rests: the revision is written all the same. -/
theorem blocked_written :
    (∃ beats w, LiveWorld.Run PyText.ascii id marketWorld beats w ∧ ∃ beat ∈ beats,
      beat.act = .work .commit ∧ LiveBeat.silentWrite beat = true ∧
      beat.pre.live.any (fun wire => wire.cleared = "reconciled") = true) ∧
    ∃ beats w, LiveWorld.Run PyText.ascii id marketWorld beats w ∧ ∃ beat ∈ beats,
      beat.act = .work .write ∧ beat.pre.monthClosed = true := by
  constructor
  · have hexec : ∃ before pre w, Lib.exec (LiveWorld.step PyText.ascii id) marketWorld
        (marketRuled ++ [.edit (some { marketWire none none with cleared := "reconciled" }) false,
          .work .commit]) = some (before ++ [⟨pre, .work .commit⟩], w) ∧
        pre.driver.autoCommitting = true ∧
        pre.live.any (fun wire => wire.cleared = "reconciled") = true :=
      ⟨[_, _, _, _, _], _, _, rfl, rfl, rfl⟩
    obtain ⟨before, pre, w, hexec, hauto, hreconciled⟩ := hexec
    exact ⟨_, w, Lib.exec_run hexec, ⟨pre, .work .commit⟩, by simp, rfl, hauto, hreconciled⟩
  · have hexec : ∃ before pre w, Lib.exec (LiveWorld.step PyText.ascii id) marketWorld
        (marketReopened ++ .edit (some (marketWire (some "groceries") none)) true :: giftsWritten) =
          some (before ++ [⟨pre, .work .write⟩], w) ∧ pre.monthClosed = true :=
      ⟨[_, _, _, _, _, _, _, _, _, _, _, _, _, _, _, _], _, _, rfl, rfl⟩
    obtain ⟨before, pre, w, hexec, hclosed⟩ := hexec
    exact ⟨_, w, Lib.exec_run hexec, ⟨pre, .work .write⟩, by simp, rfl, hclosed⟩

end YnabAgent
