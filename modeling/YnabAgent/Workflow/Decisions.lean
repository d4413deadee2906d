import YnabAgent.Workflow.Calls
import YnabAgent.Workflow.Inbounds

/-!
# Where a driver decides

A driver decides where it writes a decision to YNAB or puts a proposal to the owner. `Turn.comes`:
it comes to such an activity only from the gate's ruling or from the reading of an inbound. What is
left to execute after an activity never decides (`Turn.settles`).
-/

namespace YnabAgent

/-! ## Effects and activities that decide -/

def Effect.decides : Effect → Bool
  | .commitToYnab _ | .openThread | .sendThreadMessage .proposal _ _ => true
  | _ => false

def Call.decides : Call → Bool
  | .commitToYnab _ | .openThread _ .proposal _ _ | .sendThreadMessage _ .proposal _ _ _ _ => true
  | _ => false

/-- None of the effects decides. -/
def Settled (effects : List Effect) : Prop :=
  ∀ e ∈ effects, e.decides = false

/-- What a state decides on an event, and the state it goes to. -/
inductive Decides : Transaction → LifecycleEvent → Effect → TxnState → Prop
  | auto (s : Enriching) (decision : Decision) :
      Decides (.enriching s) (.enriched (.autoApply decision)) (.commitToYnab decision) .autoApplied
  | ask (s : Enriching) (proposal : Proposal) :
      Decides (.enriching s) (.enriched (.askHuman proposal)) (proposalEffect s.core) .awaitingHuman
  | answer (s : AwaitingHuman) (decision : Decision) :
      Decides (.awaitingHuman s) (.answerReceived decision) (.commitToYnab decision) .applied

section moves
variable {now : Datetime} {policy : LifecyclePolicy} {txn next : Transaction}
  {event : LifecycleEvent} {effects : List Effect}

theorem settled_replayPending (pending : List InboundSignal) : Settled (replayPending pending) := by
  unfold replayPending
  split <;> simp [Settled, Effect.decides]

theorem settled_note {note : MessagePurpose} (h : note ≠ .proposal) {detail : Option String}
    {decision : Option Decision} {timer : TimerKind} {deadline : Datetime} :
    Settled [.sendThreadMessage note detail decision, .setTimer timer deadline] := by
  cases note with
  | proposal => exact absurd rfl h
  | _ => simp [Settled, Effect.decides]

theorem mem_tail_append {first rest : List Effect} {e : Effect}
    (h : e ∈ (first ++ rest).tail) : e ∈ first.tail ∨ e ∈ rest := by
  cases first with
  | nil => exact .inr (List.mem_of_mem_tail h)
  | cons e' first => exact List.mem_append.1 h

/-- A move decides with its first effect, if at all. -/
theorem Move.settled (h : Move now policy txn event next effects) :
    Settled effects ∨
      ∃ e rest, effects = e :: rest ∧ Decides txn event e next.state ∧ Settled rest := by
  cases h with
  | autoApply s decision a hcore hdecision =>
    exact .inr ⟨_, _, rfl, .auto s decision, by simp [Settled, Effect.decides]⟩
  | askHuman s proposal =>
    exact .inr ⟨_, _, rfl, .ask s proposal, by simp [Settled, Effect.decides]⟩
  | answer s decision a hcore hdecision =>
    exact .inr ⟨_, _, rfl, .answer s decision, by simp [Settled, Effect.decides]⟩
  | hold s snapshot =>
    left
    intro e he
    rcases List.mem_cons.1 he with rfl | he
    · rfl
    · exact settled_replayPending s.pending e he
  | materialize s snapshot => exact .inl (settled_replayPending s.pending)
  | verified hw o hcore hdecision =>
    left
    cases hw <;> simp [Settled, Effect.decides, writeFeed]
  | unverified hw outcome houtcome flag note hnote =>
    exact .inl (settled_note hnote)
  | unconverged s outcome houtcome flag note detail hnote =>
    exact .inl (settled_note hnote)
  | _ => exact .inl (by simp [Settled, Effect.decides])

theorem Move.settled_tail (h : Move now policy txn event next effects) : Settled effects.tail := by
  rcases h.settled with h | ⟨e, rest, rfl, -, h⟩
  · exact fun e he => h e (List.mem_of_mem_tail he)
  · exact h

theorem Move.decides_of_mem (h : Move now policy txn event next effects) {e : Effect}
    (he : e ∈ effects) (hdecides : e.decides = true) :
    Decides txn event e next.state := by
  rcases h.settled with h | ⟨e', rest, rfl, hdecided, h⟩
  · rw [h e he] at hdecides; cases hdecides
  · rcases List.mem_cons.1 he with rfl | he
    · exact hdecided
    · rw [h e he] at hdecides; cases hdecides

end moves

/-- The state that asks for the activity. -/
def Call.AskedIn (txn : Transaction) : Call → Prop
  | .enrich _ => ∃ s, txn = .enriching s
  | .interpretInbound _ _ _ => ∃ s, txn = .awaitingHuman s
  | _ => True

/-- The driver awaits what its transaction asked for, and what is left to execute
decides nothing. -/
def Suspended.Settles (txn : Transaction) : Suspended → Prop
  | .calling c rest _ => c.AskedIn txn ∧ Settled rest
  | _ => True

namespace Driver

variable {d d' d₁ : Driver} {m : Moment} {effects rest : List Effect} {resume : Resume}

/-! ## Where an execution decides -/

theorem perform_decides {e : Effect} {c : Call} (h : d.perform e = .awaits c d') :
    c.decides = e.decides ∧ (∀ txn, c.AskedIn txn) ∧
      ∀ decision, e = .commitToYnab decision ↔ c = .commitToYnab decision := by
  cases e with
  | sendThreadMessage purpose detail decision =>
    unfold perform at h
    cases hthread : d.threadId with
    | none =>
      rw [hthread] at h
      cases h
      exact ⟨by cases purpose <;> rfl, fun _ => trivial, fun _ => by simp⟩
    | some threadId =>
      rw [hthread] at h
      cases h
      exact ⟨by cases purpose <;> rfl, fun _ => trivial, fun _ => by simp⟩
  | closeThread =>
    unfold perform at h
    cases hthread : d.threadId with
    | none => rw [hthread] at h; cases h
    | some threadId =>
      rw [hthread] at h
      cases h
      exact ⟨rfl, fun _ => trivial, fun _ => by simp⟩
  | commitToYnab decision => cases h; exact ⟨rfl, fun _ => trivial, fun _ => by simp⟩
  | openThread => cases h; exact ⟨rfl, fun _ => trivial, fun _ => by simp⟩
  | feedRuleLearning feed => cases h; exact ⟨rfl, fun _ => trivial, fun _ => by simp⟩
  | recordAutoAction ynabId => cases h; exact ⟨rfl, fun _ => trivial, fun _ => by simp⟩
  | _ => cases h

theorem decides_of_begins {c : Call} (h : c.begins = true) : c.decides = false := by
  cases c with
  | fetchSnapshot => rfl
  | enrich snapshot => rfl
  | converge snapshot instruction prior => rfl
  | _ => cases h

/-- A step of the loop begins with no decision. -/
theorem beginStep_settles (d : Driver) : d.beginStep.pc.Settles d.txn ∧
    ∀ c rest resume, d.beginStep.pc = .calling c rest resume → c.begins = true := by
  unfold beginStep
  split
  · exact ⟨⟨trivial, by simp [Settled]⟩, fun _ _ _ h => by cases h; rfl⟩
  · rename_i s htxn
    exact ⟨⟨⟨s, htxn⟩, by simp [Settled]⟩, fun _ _ _ h => by cases h; rfl⟩
  · exact ⟨trivial, fun _ _ _ h => by cases h⟩
  · exact ⟨trivial, fun _ _ _ h => by cases h⟩
  · exact ⟨trivial, fun _ _ _ h => by cases h⟩
  · exact ⟨trivial, fun _ _ _ h => by cases h⟩
  · exact ⟨⟨trivial, by simp [Settled]⟩, fun _ _ _ h => by cases h; rfl⟩
  · exact ⟨trivial, fun _ _ _ h => by cases h⟩
  · exact ⟨trivial, fun _ _ _ h => by cases h⟩
  · exact ⟨trivial, fun _ _ _ h => by cases h⟩

theorem finish_settles (m : Moment) (d : Driver) (resume : Resume) :
    (d.finish m resume).pc.Settles d.txn ∧
      ∀ c rest resume', (d.finish m resume).pc = .calling c rest resume' → c.begins = true := by
  have hend : (d.endStep m).pc.Settles d.txn ∧
      ∀ c rest resume', (d.endStep m).pc = .calling c rest resume' → c.begins = true := by
    unfold endStep
    split
    · exact beginStep_settles (syncThreadId
        { txn := d.txn, ynabId := d.ynabId, threadId := d.threadId, deadlines := d.deadlines,
          inbound := d.inbound, actionSeq := d.actionSeq })
    · exact beginStep_settles d
  cases resume with
  | nextStep => exact hend
  | awaitSnapshot => exact ⟨trivial, fun _ _ _ h => by cases h⟩
  | unlessLeft before timer w =>
    simp only [finish]
    split
    · exact ⟨trivial, fun _ _ _ h => by cases h⟩
    · exact hend

/-- Effects that decide first, if at all, leave nothing that decides. -/
theorem execute_settles (heffects : Settled effects.tail) :
    (d.execute m resume effects).pc.Settles d.txn := by
  have hexec := execute_cases m resume effects d
  generalize d.execute m resume effects = d' at hexec
  cases hexec with
  | finished hsame => rw [← hsame.txn_eq]; exact (finish_settles m _ resume).1
  | @awaits before e rest c d₁ d₂ heq hsame hperform =>
    refine ⟨(perform_decides hperform).2.1 _, fun e' he' => heffects e' ?_⟩
    rw [heq]
    cases before with
    | nil => exact he'
    | cons e₀ before => simp [he']

/-- An activity that decides is awaited for an effect that does. -/
theorem execute_decides {c : Call} {rest : List Effect} {resume' : Resume}
    (hpc : (d.execute m resume effects).pc = .calling c rest resume') (hc : c.decides = true) :
    ∃ e ∈ effects, e.decides = true ∧
      ∀ decision, e = .commitToYnab decision ↔ c = .commitToYnab decision := by
  have hexec := execute_cases m resume effects d
  generalize d.execute m resume effects = d' at hexec hpc
  cases hexec with
  | finished hsame =>
    rw [decides_of_begins ((finish_settles m _ resume).2 _ _ _ hpc)] at hc
    cases hc
  | awaits heq hsame hperform =>
    cases hpc
    obtain ⟨hdecides, -, hcommit⟩ := perform_decides hperform
    exact ⟨_, by rw [heq]; simp, hdecides ▸ hc, hcommit⟩

/-- No execution comes to the reading of an inbound. -/
theorem execute_not_interprets {signal : InboundSignal} {snapshot : YnabSnapshot}
    {proposal : Option Proposal} {rest : List Effect} {resume' : Resume} :
    (d.execute m resume effects).pc ≠
      .calling (.interpretInbound signal snapshot proposal) rest resume' := by
  intro hpc
  have hexec := execute_cases m resume effects d
  generalize d.execute m resume effects = d' at hexec hpc
  cases hexec with
  | finished hsame => cases (finish_settles m _ resume).2 _ _ _ hpc
  | awaits heq hsame hperform =>
    cases hpc
    obtain ⟨s, hs⟩ := (perform_decides hperform).2.1 (.discovered { ynabId := "" })
    cases hs

/-! ## One step -/

section turns
variable {text : PyText} {δ : Type} [DecidableEq δ] {digest : TargetState → δ} {act : Act}
  {event : LifecycleEvent} {tr : Transition}

/-- How a driver comes to an activity that decides, and in which state. -/
inductive Comes (d : Driver) : Act → Call → TxnState → Prop
  | auto (m : Moment) (s : Enriching) (htxn : d.txn = .enriching s) (decision : Decision) :
      Comes d (.returned m (.enriched (.autoApply decision))) (.commitToYnab decision) .autoApplied
  | ask (m : Moment) (s : Enriching) (htxn : d.txn = .enriching s) (proposal : Proposal) (c : Call)
      (hc : ∀ decision, c ≠ .commitToYnab decision) :
      Comes d (.returned m (.enriched (.askHuman proposal))) c .awaitingHuman
  | answer {signal : InboundSignal} {snapshot : YnabSnapshot} {proposal : Option Proposal}
      {rest : List Effect} {resume : Resume} (m : Moment) (decision : Decision)
      (hpc : d.pc = .calling (.interpretInbound signal snapshot proposal) rest resume) :
      Comes d (.returned m (.interpreted (.answer decision))) (.commitToYnab decision) .applied

theorem Feeds.settled (h : Feeds text digest d act m event rest resume d₁)
    (hd : d.pc.Settles d.txn) : Settled rest := by
  cases h with
  | verified m target? hpc => rw [hpc] at hd; exact hd.2
  | _ => simp [Settled]

/-- The events decided on are those of the gate and of a reading. -/
theorem Feeds.comes (h : Feeds text digest d act m event rest resume d₁) {e : Effect} {c : Call}
    {state : TxnState} (hdecides : Decides d₁.txn event e state)
    (hcommit : ∀ decision, e = .commitToYnab decision ↔ c = .commitToYnab decision) :
    Comes d act c state := by
  rw [h.same.txn_eq] at hdecides
  generalize htxn : d.txn = txn at hdecides
  cases hdecides with
  | auto s decision =>
    rw [(hcommit decision).1 rfl, h.of_enriched]
    exact .auto m s htxn decision
  | ask s proposal =>
    rw [h.of_enriched]
    refine .ask m s htxn proposal c fun decision hc => ?_
    have heffect := (hcommit decision).2 hc
    unfold proposalEffect at heffect
    split at heffect <;> cases heffect
  | answer s decision =>
    obtain ⟨hact, signal, snapshot, proposal, rest', resume', hpc⟩ := h.of_answer
    rw [(hcommit decision).1 rfl, hact]
    exact .answer m decision hpc

/-- What is left to execute decides nothing, after every step. -/
theorem Turn.settles (h : Turn text digest d act d') (hd : d.pc.Settles d.txn) :
    d'.pc.Settles d'.txn := by
  cases h with
  | accept signal hopen => exact hd
  | notify snapshot hopen => exact hd
  | fed hfeeds hadv =>
    rw [execute_txn]
    refine execute_settles fun e he => ?_
    rcases mem_tail_append he with he | he
    · exact (advance_move hadv).settled_tail e he
    · exact hfeeds.settled hd e he
  | raised hfeeds herr => trivial
  | interpret m hpc htxn hqueue => exact ⟨⟨_, htxn⟩, by simp [Settled]⟩
  | reread m hpc htxn => exact ⟨trivial, by simp [Settled]⟩
  | committed m hpc => rw [hpc] at hd; exact ⟨trivial, hd.2⟩
  | opened m threadId hpc =>
    rw [hpc] at hd
    rw [execute_txn]
    exact execute_settles fun e he => hd.2 e (List.mem_of_mem_tail he)
  | wentOn m hpc hc =>
    rw [hpc] at hd
    rw [execute_txn]
    exact execute_settles fun e he => hd.2 e (List.mem_of_mem_tail he)
  | unrecorded m hpc =>
    rw [hpc] at hd
    rw [execute_txn]
    exact execute_settles fun e he => hd.2 e (List.mem_of_mem_tail he)
  | failed m hpc => trivial

/-- **Where a driver decides.** It comes to a write of a decision, or to a proposal, from a ruling
of the gate or from the answer read in an inbound. -/
theorem Turn.comes (h : Turn text digest d act d') (hd : d.pc.Settles d.txn)
    (hact : act.resumes = true) {c : Call} {rest : List Effect} {resume : Resume}
    (hpc' : d'.pc = .calling c rest resume) (hc : c.decides = true) :
    Comes d act c d'.txn.state := by
  -- what was left to execute decides nothing
  have hleft : ∀ {m : Moment} {d₁ : Driver} {c₁ : Call} {left : List Effect} {resume₁ : Resume},
      d.pc = .calling c₁ left resume₁ →
      (d₁.execute m resume₁ left).pc ≠ .calling c rest resume := by
    intro m d₁ c₁ left resume₁ hpc hexec
    rw [hpc] at hd
    obtain ⟨e, he, hdecides, -⟩ := execute_decides hexec hc
    rw [hd.2 e he] at hdecides
    cases hdecides
  cases h with
  | accept signal hopen => cases hact
  | notify snapshot hopen => cases hact
  | fed hfeeds hadv =>
    obtain ⟨e, he, hdecides, hcommit⟩ := execute_decides hpc' hc
    rcases List.mem_append.1 he with he | he
    · rw [execute_txn]
      exact hfeeds.comes ((advance_move hadv).decides_of_mem he hdecides) hcommit
    · rw [hfeeds.settled hd e he] at hdecides
      cases hdecides
  | raised hfeeds herr => cases hpc'
  | interpret m hpc htxn hqueue => cases hpc'; cases hc
  | reread m hpc htxn => cases hpc'; cases hc
  | committed m hpc => cases hpc'; cases hc
  | opened m threadId hpc => exact absurd hpc' (hleft hpc)
  | wentOn m hpc hplain => exact absurd hpc' (hleft hpc)
  | unrecorded m hpc => exact absurd hpc' (hleft hpc)
  | failed m hpc => cases hpc'

end turns

end Driver

/-! ## What a driver takes to read -/

/-- The run is over, or stuck. -/
def Suspended.ended : Suspended → Bool
  | .completed | .failed | .stuck => true
  | _ => false

/-- An answer is written before anything else. -/
theorem advance_answer {now : Datetime} {policy : LifecyclePolicy} {s : AwaitingHuman}
    {decision : Decision} {tr : Transition}
    (h : advance now policy (.awaitingHuman s) (.answerReceived decision) = .ok tr) :
    tr.next.state = .applied ∧ tr.effects = [.commitToYnab decision, .cancelTimer .patience] := by
  obtain ⟨a, -, h⟩ := Lib.bind_eq_ok h
  cases h
  exact ⟨rfl, rfl⟩

namespace Driver

variable {d d' : Driver}

/-- What a step adds to the inbounds consumed. -/
inductive Taken (d : Driver) : Act → Driver → Prop
  | nothing {act : Act} {d' : Driver} (hconsumed : d'.consumed = d.consumed)
      (hpc : ∀ {signal snapshot proposal rest resume},
        d'.pc = .calling (.interpretInbound signal snapshot proposal) rest resume →
        act.resumes = false) : Taken d act d'
  | interpret {d' : Driver} {s : AwaitingHuman} {signal : InboundSignal}
      {queue : List InboundSignal} (m : Moment) (htxn : d.txn = .awaitingHuman s)
      (hqueue : d.inbound = signal :: queue) (hconsumed : d'.consumed = d.consumed ++ [signal])
      (hpc : d'.pc = .calling (.interpretInbound signal s.core.snapshot d.proposal) [] .nextStep) :
      Taken d (.wake m) d'
  | converged {d' : Driver} {snapshot : YnabSnapshot} {instruction : InboundSignal}
      {prior : Option Decision} {rest : List Effect} {resume : Resume} (m : Moment)
      (outcome : ConvergeOutcome)
      (hpc : d.pc = .calling (.converge snapshot instruction prior) rest resume)
      (hconsumed : d'.consumed = d.consumed ++ [instruction])
      (hpc' : ∀ {signal snapshot proposal rest resume},
        d'.pc ≠ .calling (.interpretInbound signal snapshot proposal) rest resume) :
      Taken d (.returned m (.converged outcome)) d'

section turns
variable {text : PyText} {δ : Type} [DecidableEq δ] {digest : TargetState → δ} {act : Act}

theorem Turn.taken (h : Turn text digest d act d') (hfits : d.pc.Fits d.txn) :
    Taken d act d' := by
  cases h with
  | accept signal hopen => exact .nothing rfl fun _ => rfl
  | notify snapshot hopen => exact .nothing rfl fun _ => rfl
  | fed hfeeds hadv =>
    have hconsumed := (hfeeds.carries hfits hadv).consumed_eq
    cases hfeeds with
    | converged m outcome hpc => exact .converged _ outcome hpc hconsumed execute_not_interprets
    | _ => exact .nothing hconsumed fun hpc' => absurd hpc' execute_not_interprets
  | raised hfeeds herr => exact .nothing rfl fun hpc' => by cases hpc'
  | interpret m hpc htxn hqueue => exact .interpret m htxn hqueue rfl rfl
  | reread m hpc htxn => exact .nothing rfl fun hpc' => by cases hpc'
  | committed m hpc => exact .nothing rfl fun hpc' => by cases hpc'
  | opened m threadId hpc =>
    exact .nothing (setThreadId_carries hfits hpc threadId).consumed_eq
      fun hpc' => absurd hpc' execute_not_interprets
  | wentOn m hpc hc =>
    exact .nothing (execute_rest_carries hfits hpc).consumed_eq
      fun hpc' => absurd hpc' execute_not_interprets
  | unrecorded m hpc =>
    exact .nothing (execute_rest_carries hfits hpc).consumed_eq
      fun hpc' => absurd hpc' execute_not_interprets
  | failed m hpc => exact .nothing rfl fun hpc' => by cases hpc'

/-- A run that has ended is not resumed. -/
theorem Turn.not_ended (h : Turn text digest d act d') (hact : act.resumes = true) :
    d.pc.ended = false := by
  cases h with
  | accept signal hopen => cases hact
  | notify snapshot hopen => cases hact
  | fed hfeeds hadv => cases hfeeds <;> simp only [*, Suspended.ended]
  | raised hfeeds herr => cases hfeeds <;> simp only [*, Suspended.ended]
  | _ => simp only [*, Suspended.ended]

/-- A signal accepted does not touch the commit under way. -/
theorem Turn.autoCommitting_eq (h : Turn text digest d act d') (hact : act.resumes = false) :
    d'.autoCommitting = d.autoCommitting := by
  obtain ⟨hpc, hsame⟩ := h.same hact
  unfold Driver.autoCommitting
  rw [hpc, hsame.txn_eq]

/-- The reading of an inbound ends with its outcome, or with the run; an answer is written next. -/
theorem Turn.of_interpret (h : Turn text digest d act d') (hact : act.resumes = true)
    (hsettles : d.pc.Settles d.txn) {signal : InboundSignal} {snapshot : YnabSnapshot}
    {proposal : Option Proposal} {rest : List Effect} {resume : Resume}
    (hpc : d.pc = .calling (.interpretInbound signal snapshot proposal) rest resume) :
    d'.pc.ended = true ∨ ∃ m outcome, act = .returned m (.interpreted outcome) ∧
      ∀ decision, outcome = .answer decision → d'.autoCommitting = false ∧
        ∃ rest' resume', d'.pc = .calling (.commitToYnab decision) rest' resume' := by
  rw [hpc] at hsettles
  obtain ⟨⟨s, htxn⟩, -⟩ := hsettles
  cases h with
  | accept signal hopen => cases hact
  | notify snapshot hopen => cases hact
  | fed hfeeds hadv =>
    cases hfeeds with
    | interpreted m outcome hreads =>
      refine .inr ⟨_, outcome, rfl, fun decision houtcome => ?_⟩
      subst houtcome
      rw [htxn] at hadv
      obtain ⟨hstate, heffects⟩ := advance_answer hadv
      rw [heffects]
      refine ⟨Bool.eq_false_iff.2 fun hauto => ?_, _, _, rfl⟩
      have happlied := (autoCommitting_iff.1 hauto).2
      rw [execute_txn, syncThreadId_txn, hstate] at happlied
      cases happlied
    | _ => simp_all
  | raised hfeeds herr => exact .inl rfl
  | interpret m hpc' htxn hqueue => cases hpc.symm.trans hpc'
  | reread m hpc' htxn => cases hpc.symm.trans hpc'
  | committed m hpc' => cases hpc.symm.trans hpc'
  | opened m threadId hpc' => cases hpc.symm.trans hpc'
  | wentOn m hpc' hc => cases hpc.symm.trans hpc'; cases hc
  | unrecorded m hpc' => cases hpc.symm.trans hpc'
  | failed m hpc' => exact .inl rfl

/-- The commit of a decision ends with its return, or with the run. -/
theorem Turn.of_commit (h : Turn text digest d act d') (hact : act.resumes = true)
    {decision : Decision} {rest : List Effect} {resume : Resume}
    (hpc : d.pc = .calling (.commitToYnab decision) rest resume) :
    d'.pc.ended = true ∨ ∃ m, act = .returned m .done := by
  cases h with
  | accept signal hopen => cases hact
  | notify snapshot hopen => cases hact
  | committed m hpc' => exact .inr ⟨m, rfl⟩
  | fed hfeeds hadv => cases hfeeds <;> simp_all
  | raised hfeeds herr => exact .inl rfl
  | interpret m hpc' htxn hqueue => cases hpc.symm.trans hpc'
  | reread m hpc' htxn => cases hpc.symm.trans hpc'
  | opened m threadId hpc' => cases hpc.symm.trans hpc'
  | wentOn m hpc' hc => exact .inr ⟨m, rfl⟩
  | unrecorded m hpc' => cases hpc.symm.trans hpc'
  | failed m hpc' => exact .inl rfl

end turns

end Driver

end YnabAgent
