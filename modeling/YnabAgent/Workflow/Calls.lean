import YnabAgent.Domain.Moves
import YnabAgent.Workflow.Driver

/-!
# The activities a driver calls

`execute_cases` says where the execution of effects comes to rest, and `Calling` what holds of every
activity the driver awaits: the thread it sends on and the number it sends under, that a thread is
opened only where there is none, and that a commit or an opening is called only as the first
effect of a transition. `Turn.mail` and `Turn.commit` read off what one step may call.
-/

namespace YnabAgent

/-! ## Effects that only begin a transition -/

def Effect.leads : Effect → Bool
  | .openThread | .commitToYnab _ => true
  | _ => false

/-- Effects that may stand anywhere in a transition. -/
def Trailing (effects : List Effect) : Prop :=
  ∀ e ∈ effects, e.leads = false

theorem trailing_nil : Trailing [] := by
  intro e he
  cases he

theorem Trailing.append {first rest : List Effect} (h₁ : Trailing first) (h₂ : Trailing rest) :
    Trailing (first ++ rest) := by
  intro e he
  rcases List.mem_append.1 he with h | h
  · exact h₁ e h
  · exact h₂ e h

section moves
variable {now : Datetime} {policy : LifecyclePolicy} {txn next : Transaction}
  {event : LifecycleEvent} {effects : List Effect}

/-- A transition that begins with no leading effect has none. -/
theorem Move.trailing (h : Move now policy txn event next effects) :
    Trailing effects ∨
      (∃ decision rest, effects = .commitToYnab decision :: rest ∧ Trailing rest) ∨
      ∃ rest, effects = .openThread :: rest ∧ Trailing rest ∧ next.threadId? = none := by
  cases h with
  | autoApply s decision a hcore hdecision =>
    exact .inr (.inl ⟨decision, _, rfl, by simp [Trailing, Effect.leads]⟩)
  | answer s decision a hcore hdecision =>
    exact .inr (.inl ⟨decision, _, rfl, by simp [Trailing, Effect.leads]⟩)
  | askHuman s proposal =>
    unfold proposalEffect
    split
    · rename_i hnone
      exact .inr (.inr ⟨_, rfl, by simp [Trailing, Effect.leads], hnone⟩)
    · exact .inl (by simp [Trailing, Effect.leads])
  | hold s snapshot =>
    left
    unfold replayPending
    split <;> simp [Trailing, Effect.leads]
  | materialize s snapshot =>
    left
    unfold replayPending
    split <;> simp [Trailing, Effect.leads]
  | verified hw o hcore hdecision =>
    refine .inl (Trailing.append ?_ (by simp [Trailing, Effect.leads]))
    unfold writeFeed
    split <;> simp [Trailing, Effect.leads]
  | _ => exact .inl (by simp [Trailing, Effect.leads])

/-- A transaction keeps its thread. -/
theorem Move.threadId (h : Move now policy txn event next effects) {threadId : ThreadId}
    (hthread : txn.threadId? = some threadId) : next.threadId? = some threadId := by
  cases h with
  | buffer s signal =>
    have hs : s.threadId = some threadId := hthread
    show adoptThread s.threadId signal = some threadId
    rw [hs]
    cases signal <;> rfl
  | verified hw o hcore hdecision =>
    cases hw <;> exact (congrArg TxnCore.threadId hcore).trans hthread
  | unverified hw => cases hw <;> exact hthread
  | autoApply s decision a hcore hdecision =>
    exact (congrArg TxnCore.threadId hcore).trans hthread
  | answer s decision a hcore hdecision => exact (congrArg TxnCore.threadId hcore).trans hthread
  | archive s a hcore hfinal => exact (congrArg TxnCore.threadId hcore).trans hthread
  | override s decision o hcore hdecision => exact (congrArg TxnCore.threadId hcore).trans hthread
  | overrideArchive s decision a hcore hfinal =>
    exact (congrArg TxnCore.threadId hcore).trans hthread
  | archiveLapsed s a hcore hfinal => exact (congrArg TxnCore.threadId hcore).trans hthread
  | reapply s decision o hcore hdecision => exact (congrArg TxnCore.threadId hcore).trans hthread
  | restored s prior hprior o hcore hdecision =>
    exact (congrArg TxnCore.threadId hcore).trans hthread
  | _ => exact hthread

/-- A thread a transaction has is its old one, or a reply's. -/
theorem Move.threadId_origin (h : Move now policy txn event next effects) {threadId : ThreadId}
    (hthread : next.threadId? = some threadId) :
    txn.threadId? = some threadId ∨
      ∃ signal, event = .inboundReceived (.reply signal) ∧ signal.threadId = threadId := by
  cases h with
  | buffer s signal =>
    have hadopt : adoptThread s.threadId signal = some threadId := hthread
    cases signal with
    | reply signal =>
      unfold adoptThread at hadopt
      cases hs : s.threadId with
      | none =>
        rw [hs] at hadopt
        exact .inr ⟨signal, rfl, Option.some.inj hadopt⟩
      | some old =>
        rw [hs] at hadopt
        exact .inl (hs.trans hadopt)
    | receipt signal => exact .inl hadopt
  | verified hw o hcore hdecision =>
    cases hw <;> exact .inl ((congrArg TxnCore.threadId hcore).symm.trans hthread)
  | unverified hw => cases hw <;> exact .inl hthread
  | autoApply s decision a hcore hdecision =>
    exact .inl ((congrArg TxnCore.threadId hcore).symm.trans hthread)
  | answer s decision a hcore hdecision =>
    exact .inl ((congrArg TxnCore.threadId hcore).symm.trans hthread)
  | archive s a hcore hfinal => exact .inl ((congrArg TxnCore.threadId hcore).symm.trans hthread)
  | override s decision o hcore hdecision =>
    exact .inl ((congrArg TxnCore.threadId hcore).symm.trans hthread)
  | overrideArchive s decision a hcore hfinal =>
    exact .inl ((congrArg TxnCore.threadId hcore).symm.trans hthread)
  | archiveLapsed s a hcore hfinal =>
    exact .inl ((congrArg TxnCore.threadId hcore).symm.trans hthread)
  | reapply s decision o hcore hdecision =>
    exact .inl ((congrArg TxnCore.threadId hcore).symm.trans hthread)
  | restored s prior hprior o hcore hdecision =>
    exact .inl ((congrArg TxnCore.threadId hcore).symm.trans hthread)
  | _ => exact .inl hthread

/-- Only `DISCOVERED` itself leads to `DISCOVERED`, and without effects. -/
theorem Move.discovered (h : Move now policy txn event next effects)
    (hnext : next.state = .discovered) : txn.state = .discovered ∧ effects = [] := by
  cases h with
  | stay => exact ⟨hnext, rfl⟩
  | buffer s signal => exact ⟨rfl, rfl⟩
  | _ => cases hnext

/-- A transaction becomes auto-applied by the gate's ruling, and commits first of all. -/
theorem Move.autoApplied (h : Move now policy txn event next effects)
    (hnext : next.state = .autoApplied) :
    (txn.state = .autoApplied ∧ effects = []) ∨
      ∃ decision, event = .enriched (.autoApply decision) := by
  cases h with
  | stay => exact .inl ⟨hnext, rfl⟩
  | autoApply s decision a hcore hdecision => exact .inr ⟨decision, rfl⟩
  | _ => cases hnext

end moves

/-! ## Messages -/

/-- A message the driver sends: the first one, which opens the thread, or a numbered follow-up. -/
inductive Mail
  | opening
  | followUp (threadId : ThreadId) (actionSeq : Nat)
  deriving DecidableEq

def Call.mail? : Call → Option Mail
  | .openThread _ _ _ _ => some .opening
  | .sendThreadMessage threadId _ actionSeq _ _ _ => some (.followUp threadId actionSeq)
  | _ => none

/-- The message an awaited activity sends. -/
def Suspended.mail? : Suspended → Option Mail
  | .calling c _ _ => c.mail?
  | _ => none

/-- The activities a step of the loop begins with. -/
def Call.begins : Call → Bool
  | .fetchSnapshot | .enrich _ | .converge _ _ _ => true
  | _ => false

namespace Driver

variable {d d' d₁ : Driver} {m : Moment} {effects rest : List Effect} {resume : Resume}

/-! ## Where an execution rests -/

/-- Nothing changed that the activities are called with. -/
structure Same (d d' : Driver) : Prop where
  txn_eq : d'.txn = d.txn
  threadId_eq : d'.threadId = d.threadId
  actionSeq_eq : d'.actionSeq = d.actionSeq

theorem Same.refl (d : Driver) : Same d d := ⟨rfl, rfl, rfl⟩

theorem Same.trans {d'' : Driver} (h : Same d d') (h' : Same d' d'') : Same d d'' :=
  ⟨h'.txn_eq.trans h.txn_eq, h'.threadId_eq.trans h.threadId_eq,
    h'.actionSeq_eq.trans h.actionSeq_eq⟩

/-- Where the execution of `effects` comes to rest: at the first that awaits an activity, or past
them all. -/
inductive Executed (m : Moment) (d : Driver) (resume : Resume) (effects : List Effect) :
    Driver → Prop
  | awaits {before : List Effect} {e : Effect} {rest : List Effect} {c : Call} {d₁ d₂ : Driver}
      (heffects : effects = before ++ e :: rest) (hsame : Same d d₁)
      (hperform : d₁.perform e = .awaits c d₂) : Executed m d resume effects (d₂.call c rest resume)
  | finished {d₁ : Driver} (hsame : Same d d₁) : Executed m d resume effects (d₁.finish m resume)

theorem perform_settled {e : Effect} (h : d.perform e = .settled d') : Same d d' := by
  cases e with
  | sendThreadMessage purpose detail decision =>
    unfold perform at h
    cases hthread : d.threadId with
    | none => rw [hthread] at h; cases h
    | some threadId => rw [hthread] at h; cases h
  | closeThread =>
    unfold perform at h
    cases hthread : d.threadId with
    | none => rw [hthread] at h; cases h; exact .refl d
    | some threadId => rw [hthread] at h; cases h
  | setTimer timer deadline => cases h; exact ⟨rfl, rfl, rfl⟩
  | cancelTimer timer => cases h; exact ⟨rfl, rfl, rfl⟩
  | replayBuffered signals => cases h; exact ⟨rfl, rfl, rfl⟩
  | _ => cases h

theorem execute_cases (m : Moment) (resume : Resume) (effects : List Effect) (d : Driver) :
    Executed m d resume effects (d.execute m resume effects) := by
  induction effects generalizing d with
  | nil => exact .finished (.refl d)
  | cons e rest ih =>
    unfold execute
    cases hperform : d.perform e with
    | awaits c d₂ =>
      have heffects : e :: rest = [] ++ e :: rest := rfl
      exact .awaits heffects (.refl d) hperform
    | settled d₁ =>
      have hsame := perform_settled hperform
      have hrest := ih d₁
      simp only
      generalize d₁.execute m resume rest = d' at hrest
      cases hrest with
      | @awaits before e' rest' c d₃ d₂ heffects hsame' hperform' =>
        have heffects' : e :: rest = e :: before ++ e' :: rest' := by
          rw [heffects]
          rfl
        exact .awaits heffects' (hsame.trans hsame') hperform'
      | finished hsame' => exact .finished (hsame.trans hsame')

/-! ## The calls of a driver -/

/-- The thread id is the transaction's own. -/
def Synced (d : Driver) : Prop :=
  d.threadId = d.txn.threadId?

theorem Same.synced (h : Same d d') (hd : d.Synced) : d'.Synced := by
  unfold Synced
  rw [h.threadId_eq, h.txn_eq]
  exact hd

/-- What holds where an activity is awaited: nobody opens a second thread, and a message goes to
the thread under the number just taken. -/
def Made (d : Driver) : Call → Prop
  | .fetchSnapshot | .enrich _ | .interpretInbound _ _ _ | .converge _ _ _ | .readBack none => True
  | .openThread _ _ _ _ => d.txn.state ≠ .discovered ∧ d.threadId = none
  | .sendThreadMessage threadId _ actionSeq _ _ _ =>
    d.txn.state ≠ .discovered ∧ d.threadId = some threadId ∧ actionSeq = d.actionSeq
  | _ => d.txn.state ≠ .discovered

structure Calling (d : Driver) : Prop where
  synced : d.Synced
  made : ∀ c rest resume, d.pc = .calling c rest resume → d.Made c ∧ Trailing rest

/-- The driver is at the beginning of a step, or past its last. -/
structure Begun (d d' : Driver) : Prop extends Same d d' where
  begins : ∀ c rest resume, d'.pc = .calling c rest resume → c.begins = true ∧ rest = []

theorem beginStep_begun (d : Driver) : Begun d d.beginStep := by
  unfold beginStep
  split
  · exact ⟨⟨rfl, rfl, rfl⟩, fun _ _ _ h => by cases h; exact ⟨rfl, rfl⟩⟩
  · exact ⟨⟨rfl, rfl, rfl⟩, fun _ _ _ h => by cases h; exact ⟨rfl, rfl⟩⟩
  · exact ⟨⟨rfl, rfl, rfl⟩, fun _ _ _ h => by cases h⟩
  · exact ⟨⟨rfl, rfl, rfl⟩, fun _ _ _ h => by cases h⟩
  · exact ⟨⟨rfl, rfl, rfl⟩, fun _ _ _ h => by cases h⟩
  · exact ⟨⟨rfl, rfl, rfl⟩, fun _ _ _ h => by cases h⟩
  · exact ⟨⟨rfl, rfl, rfl⟩, fun _ _ _ h => by cases h; exact ⟨rfl, rfl⟩⟩
  · exact ⟨⟨rfl, rfl, rfl⟩, fun _ _ _ h => by cases h⟩
  · exact ⟨⟨rfl, rfl, rfl⟩, fun _ _ _ h => by cases h⟩
  · exact ⟨⟨rfl, rfl, rfl⟩, fun _ _ _ h => by cases h⟩

/-- A synced driver continues as new with its thread. -/
theorem continueAsNew_begun (hd : d.Synced) : Begun d d.continueAsNew := by
  have h := beginStep_begun (syncThreadId
    { txn := d.txn, ynabId := d.ynabId, threadId := d.threadId, deadlines := d.deadlines,
      inbound := d.inbound, actionSeq := d.actionSeq })
  have hthread : d.txn.threadId?.or d.threadId = d.threadId := by
    rw [hd]
    exact Option.or_self
  exact ⟨⟨h.txn_eq, h.threadId_eq.trans hthread, h.actionSeq_eq⟩, h.begins⟩

theorem finish_begun (hd : d.Synced) (m : Moment) (resume : Resume) :
    Begun d (d.finish m resume) := by
  have hend : Begun d (d.endStep m) := by
    unfold endStep
    split
    · exact continueAsNew_begun hd
    · exact beginStep_begun d
  cases resume with
  | nextStep => exact hend
  | awaitSnapshot => exact ⟨⟨rfl, rfl, rfl⟩, fun _ _ _ h => by cases h⟩
  | unlessLeft before timer w =>
    simp only [finish]
    split
    · exact ⟨⟨rfl, rfl, rfl⟩, fun _ _ _ h => by cases h⟩
    · exact hend

/-- How a step may number a message. -/
def MailStep (d d' : Driver) : Prop :=
  match d'.pc.mail? with
  | none => d'.actionSeq = d.actionSeq
  | some .opening => d'.threadId = none ∧ d'.actionSeq = d.actionSeq
  | some (.followUp threadId actionSeq) =>
    d'.threadId = some threadId ∧ actionSeq = d.actionSeq + 1 ∧ d'.actionSeq = d.actionSeq + 1

/-- What an execution comes to. -/
structure Called (d d' : Driver) : Prop where
  calling : d'.Calling
  txn_eq : d'.txn = d.txn
  threadId_eq : d'.threadId = d.threadId
  mail : MailStep d d'

theorem Begun.called (h : Begun d d') (hd : d.Synced) : Called d d' := by
  have hmade : ∀ c rest resume, d'.pc = .calling c rest resume → d'.Made c ∧ Trailing rest := by
    intro c rest resume hpc
    obtain ⟨hbegins, rfl⟩ := h.begins c rest resume hpc
    refine ⟨?_, trailing_nil⟩
    cases c with
    | fetchSnapshot => trivial
    | enrich snapshot => trivial
    | converge snapshot instruction prior => trivial
    | _ => cases hbegins
  have hsynced : d'.Synced := h.toSame.synced hd
  refine ⟨⟨hsynced, hmade⟩, h.txn_eq, h.threadId_eq, ?_⟩
  unfold MailStep
  cases hpc : d'.pc with
  | calling c rest resume =>
    have hbegins := (h.begins c rest resume hpc).1
    cases c with
    | fetchSnapshot => exact h.actionSeq_eq
    | enrich snapshot => exact h.actionSeq_eq
    | converge snapshot instruction prior => exact h.actionSeq_eq
    | _ => cases hbegins
  | _ => exact h.actionSeq_eq

/-- Effects a transition with this driver may execute: nothing leads but their first. -/
def Allowed (d : Driver) (effects : List Effect) : Prop :=
  Trailing effects ∨ (∃ decision rest, effects = .commitToYnab decision :: rest ∧ Trailing rest) ∨
    ∃ rest, effects = .openThread :: rest ∧ Trailing rest ∧ d.threadId = none

theorem Allowed.trailing (h : d.Allowed effects) {before : List Effect} {e : Effect}
    (heffects : effects = before ++ e :: rest) : Trailing rest := by
  have htail : Trailing effects.tail := by
    rcases h with h | ⟨decision, rest', rfl, h⟩ | ⟨rest', rfl, h, -⟩
    · exact fun e' he' => h e' (List.mem_of_mem_tail he')
    · exact h
    · exact h
  intro e' he'
  refine htail e' ?_
  rw [heffects]
  cases before with
  | nil => exact he'
  | cons b before => exact List.mem_append_right _ (List.mem_cons_of_mem _ he')

theorem Allowed.opening (h : d.Allowed effects) (hmem : .openThread ∈ effects) :
    d.threadId = none := by
  rcases h with h | ⟨decision, rest', rfl, h⟩ | ⟨rest', rfl, -, hnone⟩
  · cases h _ hmem
  · rcases List.mem_cons.1 hmem with heq | hmem
    · cases heq
    · cases h _ hmem
  · exact hnone

/-- An effect that awaits an activity calls it as it should. -/
theorem perform_called {e : Effect} {c : Call} {d₂ : Driver} (hsame : Same d d₁) (hd : d.Synced)
    (hstate : d.txn.state ≠ .discovered) (hopen : e = .openThread → d.threadId = none)
    (hrest : Trailing rest) (h : d₁.perform e = .awaits c d₂) :
    Called d (d₂.call c rest resume) := by
  have hsynced : d₁.Synced := hsame.synced hd
  have hstate₁ : d₁.txn.state ≠ .discovered := by
    rw [hsame.txn_eq]
    exact hstate
  -- a call that neither opens nor numbers a message leaves the driver as it is
  have hplain : ∀ c', c'.mail? = none → d₁.Made c' →
      Called d (d₁.call c' rest resume) := by
    intro c' hmail hmade
    refine ⟨⟨hsynced, ?_⟩, hsame.txn_eq, hsame.threadId_eq, ?_⟩
    · intro c'' rest' resume' hpc
      cases hpc
      exact ⟨by cases c' <;> exact hmade, hrest⟩
    · have hnone : (d₁.call c' rest resume).pc.mail? = none := hmail
      unfold MailStep
      rw [hnone]
      exact hsame.actionSeq_eq
  have hopening : ∀ proposal purpose detail decision, d₁.threadId = none →
      Called d (d₁.call (.openThread proposal purpose detail decision) rest resume) := by
    intro proposal purpose detail decision hnone
    refine ⟨⟨hsynced, ?_⟩, hsame.txn_eq, hsame.threadId_eq, hnone, hsame.actionSeq_eq⟩
    intro c' rest' resume' hpc
    cases hpc
    exact ⟨⟨hstate₁, hnone⟩, hrest⟩
  cases e with
  | sendThreadMessage purpose detail decision =>
    simp only [perform] at h
    split at h
    · rename_i hthread
      cases h
      exact hopening _ _ _ _ hthread
    · rename_i threadId hthread
      cases h
      refine ⟨⟨hsynced, ?_⟩, hsame.txn_eq, hsame.threadId_eq, ?_⟩
      · intro c' rest' resume' hpc
        cases hpc
        exact ⟨⟨hstate₁, hthread, rfl⟩, hrest⟩
      · exact ⟨hthread, by rw [hsame.actionSeq_eq], by rw [← hsame.actionSeq_eq]; rfl⟩
  | closeThread =>
    simp only [perform] at h
    split at h
    · cases h
    · cases h
      exact hplain _ rfl hstate₁
  | openThread =>
    cases h
    exact hopening _ _ _ _ (hsame.threadId_eq.trans (hopen rfl))
  | commitToYnab decision => cases h; exact hplain _ rfl hstate₁
  | feedRuleLearning feed => cases h; exact hplain _ rfl hstate₁
  | recordAutoAction ynabId => cases h; exact hplain _ rfl hstate₁
  | _ => cases h

theorem execute_called (hd : d.Synced) (hallowed : d.Allowed effects)
    (hstate : d.txn.state = .discovered → effects = []) :
    Called d (d.execute m resume effects) := by
  have hexec := execute_cases m resume effects d
  generalize d.execute m resume effects = d' at hexec
  cases hexec with
  | finished hsame =>
    rename_i d₁
    have hsynced : d₁.Synced := hsame.synced hd
    have hbegun := finish_begun hsynced m resume
    exact Begun.called ⟨hsame.trans hbegun.toSame, hbegun.begins⟩ hd
  | awaits heffects hsame hperform =>
    refine perform_called hsame hd ?_ ?_ (hallowed.trailing heffects) hperform
    · intro hdiscovered
      rw [hstate hdiscovered] at heffects
      simp at heffects
    · rintro rfl
      refine hallowed.opening ?_
      rw [heffects]
      exact List.mem_append_right _ List.mem_cons_self

/-- A fresh run may call what it calls first. -/
theorem start_calling (ynabId : YnabTransactionId) (inbound : List InboundSignal) :
    Calling { start { ynabId } with inbound } := by
  refine ⟨rfl, ?_⟩
  intro c rest resume hpc
  cases hpc
  exact ⟨trivial, trailing_nil⟩

/-! ## What one step calls -/

def Act.resumes : Act → Bool
  | .submitInbound _ | .notifySnapshot _ => false
  | _ => true

section turns
variable {text : PyText} {δ : Type} [DecidableEq δ] {digest : TargetState → δ} {act : Act}
  {event : LifecycleEvent} {tr : Transition}

theorem Feeds.same (h : Feeds text digest d act m event rest resume d₁) : Same d d₁ := by
  cases h <;> exact ⟨rfl, rfl, rfl⟩

theorem Feeds.resumed (h : Feeds text digest d act m event rest resume d₁) :
    act.resumes = true := by
  cases h <;> rfl

/-- The effects left are those of a transition from a materialized transaction, if any are. -/
theorem Feeds.trailing (h : Feeds text digest d act m event rest resume d₁) (hd : Calling d) :
    Trailing rest ∧ (d.txn.state = .discovered → rest = []) := by
  cases h with
  | verified m target? hpc =>
    obtain ⟨hmade, htrailing⟩ := hd.made _ _ _ hpc
    exact ⟨htrailing, fun hstate => absurd hstate hmade⟩
  | _ => exact ⟨trailing_nil, fun _ => rfl⟩

/-- A synced driver stays synced when the machine moves. -/
theorem sync_threadId (hd : d.Synced)
    (hmove : Move m.now defaultPolicy d.txn event tr.next tr.effects) :
    tr.next.threadId?.or d.threadId = tr.next.threadId? := by
  cases hnext : tr.next.threadId? with
  | some threadId => rfl
  | none =>
    cases hthread : d.threadId with
    | none => rfl
    | some threadId =>
      have hkept := hmove.threadId (hd.symm.trans hthread)
      rw [hnext] at hkept
      cases hkept

/-- Feeding an event, the driver calls what it should. -/
theorem Feeds.called (h : Feeds text digest d act m event rest resume d₁) (hd : Calling d)
    (hadv : advance m.now defaultPolicy d₁.txn event = .ok tr) :
    Called (syncThreadId { d₁ with txn := tr.next })
      ((syncThreadId { d₁ with txn := tr.next }).execute m resume (tr.effects ++ rest)) := by
  have hmove := advance_move hadv
  have hsame := h.same
  obtain ⟨hrest, hrestnil⟩ := h.trailing hd
  have hsynced₁ : d₁.Synced := hsame.synced hd.synced
  have hthread := sync_threadId hsynced₁ hmove
  refine execute_called hthread ?_ ?_
  · rcases hmove.trailing with h | ⟨decision, rest', heffects, h⟩ | ⟨rest', heffects, h, hnone⟩
    · exact .inl (h.append hrest)
    · refine .inr (.inl ⟨decision, rest' ++ rest, ?_, h.append hrest⟩)
      rw [heffects]
      rfl
    · refine .inr (.inr ⟨rest' ++ rest, ?_, h.append hrest, ?_⟩)
      · rw [heffects]
        rfl
      · exact hthread.trans hnone
  · intro hdiscovered
    obtain ⟨hstate, heffects⟩ := hmove.discovered hdiscovered
    rw [hsame.txn_eq] at hstate
    rw [heffects, hrestnil hstate]
    rfl

/-! ### Where an event comes from -/

theorem Feeds.of_enriched {outcome : EnrichmentOutcome}
    (h : Feeds text digest d act m (.enriched outcome) rest resume d₁) :
    act = .returned m (.enriched outcome) := by
  generalize hevent : LifecycleEvent.enriched outcome = event at h
  cases h with
  | enriched m outcome hpc => cases hevent; rfl
  | interpreted m outcome hpc => cases outcome <;> cases hevent
  | reread m target? s hpc htxn =>
    exact absurd hevent (archiveOrOverride_ne (by simp) (by simp) _ _ _)
  | _ => cases hevent

theorem Feeds.of_answer {decision : Decision}
    (h : Feeds text digest d act m (.answerReceived decision) rest resume d₁) :
    act = .returned m (.interpreted (.answer decision)) ∧ ∃ signal snapshot proposal rest resume,
      d.pc = .calling (.interpretInbound signal snapshot proposal) rest resume := by
  generalize hevent : LifecycleEvent.answerReceived decision = event at h
  cases h with
  | interpreted m outcome hpc =>
    cases outcome with
    | answer answer => cases hevent; exact ⟨rfl, _, _, _, _, _, hpc⟩
    | clarify question => cases hevent
  | reread m target? s hpc htxn =>
    exact absurd hevent (archiveOrOverride_ne (by simp) (by simp) _ _ _)
  | _ => cases hevent

theorem Feeds.of_inbound {signal : InboundSignal}
    (h : Feeds text digest d act m (.inboundReceived signal) rest resume d₁) :
    act = .wake m ∧ ∃ queue, d.inbound = signal :: queue := by
  generalize hevent : LifecycleEvent.inboundReceived signal = event at h
  cases h with
  | received m hpc hw hqueue => cases hevent; exact ⟨rfl, _, hqueue⟩
  | interpreted m outcome hpc => cases outcome <;> cases hevent
  | reread m target? s hpc htxn =>
    exact absurd hevent (archiveOrOverride_ne (by simp) (by simp) _ _ _)
  | _ => cases hevent

theorem MailStep.of_actionSeq (h : MailStep d₁ d') (hseq : d₁.actionSeq = d.actionSeq) :
    MailStep d d' := by
  unfold MailStep at h ⊢
  rw [← hseq]
  exact h

/-- Going on with the effects left after an activity. -/
theorem execute_rest_called (hd : Calling d) {c : Call} (hpc : d.pc = .calling c rest resume)
    (hstate : d.txn.state ≠ .discovered) : Called d (d.execute m resume rest) :=
  execute_called hd.synced (.inl (hd.made c rest resume hpc).2) fun h => absurd h hstate

theorem setThreadId_synced (hstate : d.txn.state ≠ .discovered) (threadId : ThreadId) :
    (d.setThreadId threadId).Synced := by
  show some threadId = (d.txn.withThread threadId).threadId?
  cases htxn : d.txn with
  | discovered s => exact absurd (by rw [htxn]; rfl) hstate
  | _ => rfl

/-- An opened thread is the driver's and the transaction's. -/
theorem setThreadId_called (hd : Calling d) {proposal : Option Proposal} {purpose : MessagePurpose}
    {detail : Option String} {decision : Option Decision}
    (hpc : d.pc = .calling (.openThread proposal purpose detail decision) rest resume)
    (threadId : ThreadId) :
    Called (d.setThreadId threadId) ((d.setThreadId threadId).execute m resume rest) := by
  obtain ⟨hmade, htrailing⟩ := hd.made _ _ _ hpc
  refine execute_called (setThreadId_synced hmade.1 threadId) (.inl htrailing) ?_
  intro hdiscovered
  exact absurd ((d.txn.withThread_state threadId).symm.trans hdiscovered) hmade.1

/-- The activities that leave the driver to go on at once are called on a materialized
transaction. -/
theorem Calling.plain (hd : Calling d) {c : Call} (hpc : d.pc = .calling c rest resume)
    (hc : c.plain = true) : d.txn.state ≠ .discovered := by
  have hmade := (hd.made c rest resume hpc).1
  cases c with
  | sendThreadMessage threadId purpose actionSeq proposal detail decision => exact hmade.1
  | feedRuleLearning feed => exact hmade
  | recordAutoAction ynabId => exact hmade
  | closeThread threadId => exact hmade
  | _ => cases hc

theorem Turn.calling (h : Turn text digest d act d') (hd : Calling d) : Calling d' := by
  have hended : ∀ pc : Suspended, (∀ c rest resume, pc ≠ .calling c rest resume) →
      Calling { d with pc } :=
    fun pc hpc => ⟨hd.synced, fun c rest resume heq => absurd heq (hpc c rest resume)⟩
  cases h with
  | accept signal hopen => exact ⟨hd.synced, fun c rest resume hpc => by
      obtain ⟨hmade, hrest⟩ := hd.made c rest resume hpc
      exact ⟨by cases c <;> exact hmade, hrest⟩⟩
  | notify snapshot hopen => exact ⟨hd.synced, fun c rest resume hpc => by
      obtain ⟨hmade, hrest⟩ := hd.made c rest resume hpc
      exact ⟨by cases c <;> exact hmade, hrest⟩⟩
  | fed hfeeds hadv => exact (hfeeds.called hd hadv).calling
  | raised hfeeds herr => exact hended _ fun _ _ _ => Suspended.noConfusion
  | interpret m hpc htxn hqueue =>
    exact ⟨hd.synced, fun c rest resume hpc' => by cases hpc'; exact ⟨trivial, trailing_nil⟩⟩
  | reread m hpc htxn =>
    exact ⟨hd.synced, fun c rest resume hpc' => by cases hpc'; exact ⟨trivial, trailing_nil⟩⟩
  | committed m hpc =>
    refine ⟨hd.synced, fun c rest resume hpc' => ?_⟩
    cases hpc'
    exact hd.made _ _ _ hpc
  | opened m threadId hpc => exact (setThreadId_called hd hpc threadId).calling
  | wentOn m hpc hc => exact (execute_rest_called hd hpc (hd.plain hpc hc)).calling
  | unrecorded m hpc => exact (execute_rest_called hd hpc (hd.plain hpc rfl)).calling
  | failed m hpc => exact hended _ fun _ _ _ => Suspended.noConfusion

/-- **The numbers.** A step that resumes the driver opens only where there is no thread, and numbers
a follow-up with the next number. -/
theorem Turn.mail (h : Turn text digest d act d') (hd : Calling d) (hact : act.resumes = true) :
    MailStep d d' := by
  cases h with
  | accept signal hopen => cases hact
  | notify snapshot hopen => cases hact
  | fed hfeeds hadv =>
    exact (hfeeds.called hd hadv).mail.of_actionSeq hfeeds.same.actionSeq_eq
  | raised hfeeds herr => rfl
  | interpret m hpc htxn hqueue => rfl
  | reread m hpc htxn => rfl
  | committed m hpc => rfl
  | opened m threadId hpc => exact (setThreadId_called hd hpc threadId).mail
  | wentOn m hpc hc => exact (execute_rest_called hd hpc (hd.plain hpc hc)).mail
  | unrecorded m hpc => exact (execute_rest_called hd hpc (hd.plain hpc rfl)).mail
  | failed m hpc => rfl

/-- The driver keeps its thread. -/
theorem Turn.threadId (h : Turn text digest d act d') (hd : Calling d) {threadId : ThreadId}
    (hthread : d.threadId = some threadId) : d'.threadId = some threadId := by
  cases h with
  | fed hfeeds hadv =>
    have hsame := hfeeds.same
    have hsynced := hd.synced
    unfold Synced at hsynced
    have hold := hsynced.symm.trans hthread
    rw [← hsame.txn_eq] at hold
    rw [(hfeeds.called hd hadv).threadId_eq]
    show Option.or _ _ = _
    rw [(advance_move hadv).threadId hold]
    rfl
  | opened m threadId' hpc =>
    have hnone := (hd.made _ _ _ hpc).1.2
    rw [hthread] at hnone
    cases hnone
  | wentOn m hpc hc =>
    exact (execute_rest_called hd hpc (hd.plain hpc hc)).threadId_eq.trans hthread
  | unrecorded m hpc =>
    exact (execute_rest_called hd hpc (hd.plain hpc rfl)).threadId_eq.trans hthread
  | _ => exact hthread

/-- A thread the driver has it had before, or a reply in its queue brought it, or it was opened. -/
theorem Turn.threadId_origin (h : Turn text digest d act d') (hd : Calling d)
    {threadId : ThreadId} (hthread : d'.threadId = some threadId) :
    d.threadId = some threadId ∨
      (∃ signal, .reply signal ∈ d.inbound ∧ signal.threadId = threadId) ∨
        ∃ m, act = .returned m (.thread threadId) := by
  cases h with
  | @fed _ m event rest resume d₁ tr hfeeds hadv =>
    have hmove := advance_move hadv
    have hsame := hfeeds.same
    rw [(hfeeds.called hd hadv).threadId_eq] at hthread
    have hor : tr.next.threadId?.or d₁.threadId = some threadId := hthread
    have hsynced₁ : d₁.Synced := hsame.synced hd.synced
    rw [sync_threadId hsynced₁ hmove] at hor
    rcases hmove.threadId_origin hor with hold | ⟨signal, hevent, heq⟩
    · left
      have hsynced := hd.synced
      unfold Synced at hsynced
      rw [hsynced, ← hsame.txn_eq]
      exact hold
    · right; left
      rw [hevent] at hfeeds
      obtain ⟨-, queue, hqueue⟩ := hfeeds.of_inbound
      refine ⟨signal, ?_, heq⟩
      rw [hqueue]
      exact List.mem_cons_self
  | opened m threadId' hpc =>
    right; right
    rw [(setThreadId_called hd hpc threadId').threadId_eq] at hthread
    cases hthread
    exact ⟨m, rfl⟩
  | wentOn m hpc hc =>
    left
    rw [(execute_rest_called hd hpc (hd.plain hpc hc)).threadId_eq] at hthread
    exact hthread
  | unrecorded m hpc =>
    left
    rw [(execute_rest_called hd hpc (hd.plain hpc rfl)).threadId_eq] at hthread
    exact hthread
  | _ => exact .inl hthread

/-- Feeding an event, the driver was not closed, nor was a message under way. -/
theorem Feeds.idle (h : Feeds text digest d act m event rest resume d₁) :
    d.closed = false ∧ d.pc.mail? = none := by
  unfold closed Suspended.mail?
  cases h <;> simp only [*, Call.mail?, and_self]

/-- A closed driver takes no step. -/
theorem Turn.not_closed (h : Turn text digest d act d') : d.closed = false := by
  cases h with
  | accept signal hopen => exact hopen
  | notify snapshot hopen => exact hopen
  | fed hfeeds hadv => exact hfeeds.idle.1
  | raised hfeeds herr => exact hfeeds.idle.1
  | _ => unfold closed; simp only [*]

/-- A signal accepted leaves the driver where it is. -/
theorem Turn.same (h : Turn text digest d act d') (hact : act.resumes = false) :
    d'.pc = d.pc ∧ Same d d' := by
  cases h with
  | accept signal hopen => exact ⟨rfl, rfl, rfl, rfl⟩
  | notify snapshot hopen => exact ⟨rfl, rfl, rfl, rfl⟩
  | fed hfeeds hadv => rw [hfeeds.resumed] at hact; cases hact
  | raised hfeeds herr => rw [hfeeds.resumed] at hact; cases hact
  | _ => cases hact

/-- Only an opening returns a thread. -/
theorem Turn.opening_of_thread {threadId : ThreadId}
    (h : Turn text digest d (.returned m (.thread threadId)) d') :
    d.pc.mail? = some .opening := by
  cases h with
  | fed hfeeds hadv => cases hfeeds
  | raised hfeeds herr => cases hfeeds
  | opened m threadId hpc => rw [hpc]; rfl

/-- When an opening is over there is a thread, or the run has failed. -/
theorem Turn.opened_thread (h : Turn text digest d act d') (hd : Calling d)
    (hact : act.resumes = true) (hmail : d.pc.mail? = some .opening) :
    d'.threadId ≠ none ∨ d'.pc = .failed := by
  cases h with
  | accept signal hopen => cases hact
  | notify snapshot hopen => cases hact
  | fed hfeeds hadv => rw [hfeeds.idle.2] at hmail; cases hmail
  | raised hfeeds herr => rw [hfeeds.idle.2] at hmail; cases hmail
  | interpret m hpc htxn hqueue => rw [hpc] at hmail; cases hmail
  | reread m hpc htxn => rw [hpc] at hmail; cases hmail
  | committed m hpc => rw [hpc] at hmail; cases hmail
  | opened m threadId hpc =>
    left
    rw [(setThreadId_called hd hpc threadId).threadId_eq]
    exact Option.some_ne_none threadId
  | @wentOn c rest resume m hpc hc =>
    rw [hpc] at hmail
    cases c with
    | openThread proposal purpose detail decision => cases hc
    | _ => cases hmail
  | unrecorded m hpc => rw [hpc] at hmail; cases hmail
  | failed m hpc => exact .inr rfl

/-! ### Auto-commits -/

theorem perform_trailing {e : Effect} {c : Call} {d₂ : Driver} (he : e.leads = false)
    (h : d.perform e = .awaits c d₂) (decision : Decision) : c ≠ .commitToYnab decision := by
  rintro rfl
  cases e with
  | commitToYnab decision => cases he
  | sendThreadMessage purpose detail decision =>
    simp only [perform] at h
    split at h <;> cases h
  | closeThread =>
    simp only [perform] at h
    split at h <;> cases h
  | _ => cases h

/-- Executing what may stand anywhere, the driver commits nothing. -/
theorem execute_trailing (hd : d.Synced) (heffects : Trailing effects) (decision : Decision)
    (rest : List Effect) (resume' : Resume) :
    (d.execute m resume effects).pc ≠ .calling (.commitToYnab decision) rest resume' := by
  intro hpc
  have hexec := execute_cases m resume effects d
  generalize d.execute m resume effects = d' at hexec hpc
  cases hexec with
  | finished hsame =>
    rename_i d₁
    have hsynced : d₁.Synced := hsame.synced hd
    have hbegins := ((finish_begun hsynced m resume).begins _ _ _ hpc).1
    cases hbegins
  | @awaits before e rest' c d₁ d₂ heq hsame hperform =>
    have he : e ∈ effects := by
      rw [heq]
      exact List.mem_append_right _ List.mem_cons_self
    have hc : c = .commitToYnab decision := (Suspended.calling.inj hpc).1
    exact perform_trailing (heffects e he) hperform decision hc

/-- The driver is writing what the gate ruled. -/
def autoCommitting (d : Driver) : Bool :=
  match d.pc with
  | .calling (.commitToYnab _) _ _ => decide (d.txn.state = .autoApplied)
  | _ => false

theorem autoCommitting_iff : d.autoCommitting = true ↔
    (∃ decision rest resume, d.pc = .calling (.commitToYnab decision) rest resume) ∧
      d.txn.state = .autoApplied := by
  unfold autoCommitting
  split
  · rename_i decision rest resume hpc
    exact decide_eq_true_iff.trans ⟨fun h => ⟨⟨_, _, _, hpc⟩, h⟩, fun h => h.2⟩
  · rename_i hpc
    constructor
    · intro h; cases h
    · rintro ⟨⟨decision, rest, resume, heq⟩, -⟩
      exact absurd heq (hpc decision rest resume)

/-- **The gate alone.** A driver comes to an auto-commit only with a ruling to auto-apply. -/
theorem Turn.autoCommitting (h : Turn text digest d act d') (hd : Calling d)
    (hd' : d'.autoCommitting = true) :
    (d.autoCommitting = true ∧ act.resumes = false) ∨
      ∃ m decision, act = .returned m (.enriched (.autoApply decision)) := by
  obtain ⟨⟨decision, rest, resume, hpc'⟩, hstate⟩ := autoCommitting_iff.1 hd'
  cases h with
  | accept signal hopen => exact .inl ⟨hd', rfl⟩
  | notify snapshot hopen => exact .inl ⟨hd', rfl⟩
  | @fed _ m event rest' resume' d₁ tr hfeeds hadv =>
    have hcalled := hfeeds.called hd hadv
    have hnext : tr.next.state = .autoApplied := by
      rw [hcalled.txn_eq] at hstate
      exact hstate
    rcases (advance_move hadv).autoApplied hnext with ⟨-, heffects⟩ | ⟨decision', rfl⟩
    · -- nothing new to do, and what is left commits nothing
      have hsame := hfeeds.same
      have hsynced₁ : d₁.Synced := hsame.synced hd.synced
      have hthread := sync_threadId hsynced₁ (advance_move hadv)
      have hsynced : (syncThreadId { d₁ with txn := tr.next }).Synced := hthread
      rw [heffects, List.nil_append] at hpc'
      exact absurd hpc' (execute_trailing hsynced (hfeeds.trailing hd).1 decision rest resume)
    · exact .inr ⟨_, decision', hfeeds.of_enriched⟩
  | raised hfeeds herr => cases hpc'
  | interpret m hpc htxn hqueue => cases hpc'
  | reread m hpc htxn => cases hpc'
  | committed m hpc => cases hpc'
  | opened m threadId hpc =>
    have hsynced := setThreadId_synced (hd.made _ _ _ hpc).1.1 threadId
    exact absurd hpc' (execute_trailing hsynced (hd.made _ _ _ hpc).2 decision rest resume)
  | wentOn m hpc hc =>
    exact absurd hpc' (execute_trailing hd.synced (hd.made _ _ _ hpc).2 decision rest resume)
  | unrecorded m hpc =>
    exact absurd hpc' (execute_trailing hd.synced (hd.made _ _ _ hpc).2 decision rest resume)
  | failed m hpc => cases hpc'

end turns

end Driver

end YnabAgent
