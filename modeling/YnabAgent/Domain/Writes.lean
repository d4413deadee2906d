import YnabAgent.Domain.Runs

/-!
# What a run writes, and what it tells of it

`advance` emits a `CommitToYnab` where the gate ruled to apply or the owner answered. What is then
told of the decision, the FYI, the confirmation or the feed to rule learning, waits for its
verification: a write that was not verified leads to a flagged `AWAITING_HUMAN` (`Owes`), which only
another answer leaves.
-/

namespace YnabAgent

/-- What a run tells of what it wrote. -/
def Effect.tells : Effect → Bool
  | .sendThreadMessage .fyi _ _ | .sendThreadMessage .confirm _ _ | .feedRuleLearning _ => true
  | _ => false

namespace Beat

/-- The step emits the write of the decision. -/
def Commits (decision : Decision) (beat : Beat) : Prop :=
  .commitToYnab decision ∈ beat.effects

/-- The step is the verification that YNAB holds the decision written. -/
inductive Verifies (decision : Decision) : Beat → Prop
  | verified {txn : Transaction} {core : TxnCore} {message : MessagePurpose}
      {learning : Option RuleLearningKind} (now : Datetime) (effects : List Effect)
      (hw : Written txn core decision message learning) :
      Verifies decision (.fed txn now (.writeVerified .match) effects)

end Beat

/-- Of the decision written nothing is told yet: it is not verified, or its verification failed. -/
inductive Owes (decision : Decision) : Transaction → Prop
  | written {txn : Transaction} {core : TxnCore} {message : MessagePurpose}
      {learning : Option RuleLearningKind} (hw : Written txn core decision message learning) :
      Owes decision txn
  | flagged (s : AwaitingHuman) (hflag : s.flag ≠ .none) : Owes decision (.awaitingHuman s)

section moves
variable {now : Datetime} {policy : LifecyclePolicy} {txn next : Transaction}
  {event : LifecycleEvent} {effects : List Effect} {decision : Decision} {tr : Transition}

/-- A decision is committed on the event that brings it, and is then owed. -/
theorem Move.commits (h : Move now policy txn event next effects)
    (hcommit : .commitToYnab decision ∈ effects) :
    (event = .enriched (.autoApply decision) ∨ event = .answerReceived decision) ∧
      Owes decision next ∧ ∀ e ∈ effects, e.tells = false := by
  rcases h.commit_cases hcommit with
    ⟨a, hevent, rfl, rfl, heffects⟩ | ⟨a, hevent, rfl, rfl, heffects⟩
  · rw [heffects]
    exact ⟨.inl hevent, .written (.auto a), by simp [Effect.tells]⟩
  · rw [heffects]
    exact ⟨.inr hevent, .written (.answered a), by simp [Effect.tells]⟩

theorem enterFlaggedAwaiting_owes (core : TxnCore) {flag : AwaitingFlag} (hflag : flag ≠ .none)
    {note : MessagePurpose} (hfyi : note ≠ .fyi) (hconfirm : note ≠ .confirm)
    (detail : Option String) (written : Option Decision) :
    Owes decision (enterFlaggedAwaiting now policy core flag note detail written).next ∧
      ∀ e ∈ (enterFlaggedAwaiting now policy core flag note detail written).effects,
        e.tells = false := by
  refine ⟨.flagged _ hflag, ?_⟩
  cases note with
  | fyi => exact absurd rfl hfyi
  | confirm => exact absurd rfl hconfirm
  | _ => simp [enterFlaggedAwaiting, advanced, Effect.tells]

/-- A write that is not verified leads to a flagged state, and tells what went wrong instead. -/
theorem resolveWriteVerify_owes {core : TxnCore} {written : Decision} {message : MessagePurpose}
    {learning : Option RuleLearningKind} {outcome : VerifyOutcome} (houtcome : outcome ≠ .match)
    (h : resolveWriteVerify now policy core written outcome message learning = .ok tr) :
    Owes decision tr.next ∧ ∀ e ∈ tr.effects, e.tells = false := by
  cases outcome with
  | «match» => exact absurd rfl houtcome
  | couldNotConfirm =>
    cases h
    exact enterFlaggedAwaiting_owes core (by simp) (by simp) (by simp) none (some written)
  | diverged =>
    cases h
    exact enterFlaggedAwaiting_owes core (by simp) (by simp) (by simp) none (some written)

theorem Owes.withThread (h : Owes decision txn) (threadId : ThreadId) :
    Owes decision (txn.withThread threadId) := by
  cases h with
  | written hw =>
    cases hw with
    | auto s => exact .written (.auto _)
    | answered s => exact .written (.answered _)
  | flagged s hflag => exact .flagged _ hflag

/-- **One step.** A decision owed stays owed, and nothing is told, until it is verified or another
is committed. -/
theorem Owes.step {beat : Beat} (h : Owes decision txn) (hstep : TxnStep policy txn beat next)
    (hverify : ¬ beat.Verifies decision) (hcommit : ∀ d, ¬ beat.Commits d) :
    Owes decision next ∧ ∀ e ∈ beat.effects, e.tells = false := by
  cases hstep with
  | stamped txn threadId => exact ⟨h.withThread threadId, by simp [Beat.effects]⟩
  | @fed now txn event tr hadv =>
    cases h with
    | written hw =>
      have hmatch : event ≠ .writeVerified .match := by
        rintro rfl
        exact hverify (.verified now tr.effects hw)
      cases hw with
      | auto s =>
        cases event with
        | writeVerified outcome =>
          have hresolve : resolveWriteVerify now policy s.core s.decision outcome .fyi none =
              .ok tr := hadv
          exact resolveWriteVerify_owes (fun heq => hmatch (by rw [heq])) hresolve
        | _ => cases hadv; exact ⟨.written (.auto s), by simp [Beat.effects, rejected]⟩
      | answered s =>
        cases event with
        | writeVerified outcome =>
          have hresolve : resolveWriteVerify now policy s.core s.decision outcome .confirm
              (some .confirm) = .ok tr := hadv
          exact resolveWriteVerify_owes (fun heq => hmatch (by rw [heq])) hresolve
        | _ => cases hadv; exact ⟨.written (.answered s), by simp [Beat.effects, rejected]⟩
    | flagged s hflag =>
      cases event with
      | answerReceived answer =>
        obtain ⟨a, -, hadv⟩ := Lib.bind_eq_ok hadv
        cases hadv
        exact absurd List.mem_cons_self (hcommit answer)
      | clarifyRequested question =>
        cases hadv
        exact ⟨.flagged _ hflag, by simp [Beat.effects, advanced, Effect.tells]⟩
      | patienceExpired =>
        -- a flagged entry does not lapse
        simp only [advance, fromAwaitingHuman, if_pos hflag] at hadv
        cases hadv
        exact ⟨.flagged s hflag, by simp [Beat.effects, ignored]⟩
      | inboundReceived signal =>
        cases hadv
        exact ⟨.flagged s hflag, by simp [Beat.effects, advanced, Effect.tells]⟩
      | _ => cases hadv; exact ⟨.flagged s hflag, by simp [Beat.effects, rejected]⟩

end moves

section runs
variable {policy : LifecyclePolicy} {txn last : Transaction} {beats before mid after : List Beat}
  {commit tell : Beat} {decision : Decision}

/-- A decision is committed on the ruling of the gate to apply it or on the owner's answer. -/
theorem committed_on_word (hrun : TxnRun policy txn beats last) {beat : Beat}
    (hbeat : beat ∈ beats) (hcommit : beat.Commits decision) :
    ∃ pre now event, beat = .fed pre now event beat.effects ∧
      (event = .enriched (.autoApply decision) ∨ event = .answerReceived decision) := by
  obtain ⟨before, after, rfl⟩ := List.append_of_mem hbeat
  obtain ⟨txn, -, hrest⟩ := hrun.of_append
  obtain ⟨next, hstep, -⟩ := hrest.cons_inv
  cases hstep with
  | fed hadv => exact ⟨_, _, _, rfl, ((advance_move hadv).commits hcommit).1⟩
  | stamped txn threadId => cases hcommit

/-- **Only on a match.** What is told after a commit, with no other in between, is told when the
decision has been verified. -/
theorem told_after_match (hrun : TxnRun policy txn beats last)
    (hbeats : beats = before ++ commit :: (mid ++ tell :: after))
    (hcommit : commit.Commits decision) (hlast : ∀ beat ∈ mid, ∀ d, ¬ beat.Commits d)
    (htell : ∃ e ∈ tell.effects, e.tells = true) :
    ∃ beat ∈ mid ++ [tell], beat.Verifies decision := by
  rw [hbeats] at hrun
  obtain ⟨t, -, hrun⟩ := hrun.of_append
  obtain ⟨t₁, hstep, hrun⟩ := hrun.cons_inv
  obtain ⟨t₂, hmid, hrun⟩ := hrun.of_append
  obtain ⟨t₃, hlaststep, -⟩ := hrun.cons_inv
  by_contra hnone
  have hunverified : ∀ beat ∈ mid ++ [tell], ¬ beat.Verifies decision :=
    fun beat hbeat hverifies => hnone ⟨beat, hbeat, hverifies⟩
  have howes : Owes decision t₁ := by
    cases hstep with
    | fed hadv => exact ((advance_move hadv).commits hcommit).2.1
    | stamped txn threadId => cases hcommit
  have howes : Owes decision t₂ := by
    refine hmid.invariant_of (I := Owes decision)
      (C := fun beat => ¬ beat.Verifies decision ∧ ∀ d, ¬ beat.Commits d) ?_ ?_ howes
    · intro s beat u hs hbeat hstep
      exact (hs.step hstep hbeat.1 hbeat.2).1
    · intro beat hbeat
      exact ⟨hunverified beat (List.mem_append_left _ hbeat), hlast beat hbeat⟩
  obtain ⟨e, he, htold⟩ := htell
  have htells : e.tells = false := by
    by_cases hcommits : ∃ d, tell.Commits d
    · obtain ⟨d, hcommits⟩ := hcommits
      cases hlaststep with
      | fed hadv => exact ((advance_move hadv).commits hcommits).2.2 e he
      | stamped txn threadId => cases hcommits
    · exact (howes.step hlaststep (hunverified tell (by simp))
        fun d hd => hcommits ⟨d, hd⟩).2 e he
  rw [htells] at htold
  cases htold

end runs

end YnabAgent
