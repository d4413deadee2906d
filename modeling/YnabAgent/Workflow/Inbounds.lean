import YnabAgent.Domain.Moves
import YnabAgent.Workflow.Driver

/-!
# The inbounds of a transaction

An inbound the driver accepted is in its queue, buffered by `DISCOVERED`, the instruction being
revised, or consumed by interpret or converge, and the four in this order are the arrivals in theirs
(`Driver.Turn.account`). What is still queued when a run completes is what was queued when the
archive wait last timed out and what arrived since (`late`).
-/

namespace YnabAgent

/-! ## The inbounds the machine holds -/

/-- The inbounds a transaction holds itself. -/
def Transaction.inHand : Transaction → List InboundSignal
  | .discovered s => s.pending
  | .revising s => [s.instruction]
  | _ => []

/-- The queue after the replays among the effects. -/
def replayed : List Effect → List InboundSignal → List InboundSignal
  | [], queue => queue
  | .replayBuffered signals :: rest, queue => replayed rest (signals ++ queue)
  | _ :: rest, queue => replayed rest queue

def Effect.replays : Effect → Bool
  | .replayBuffered _ => true
  | _ => false

/-- No effect replays an inbound. -/
def Calm (effects : List Effect) : Prop :=
  ∀ e ∈ effects, e.replays = false

/-- No replay comes after an effect that may await. -/
def Orderly : List Effect → Prop
  | [] => True
  | .replayBuffered _ :: rest => Orderly rest
  | .setTimer _ _ :: rest => Orderly rest
  | .cancelTimer _ :: rest => Orderly rest
  | _ :: rest => Calm rest

theorem Calm.tail {e : Effect} {rest : List Effect} (h : Calm (e :: rest)) : Calm rest :=
  fun e' he' => h e' (List.mem_cons_of_mem _ he')

theorem Calm.append {first rest : List Effect} (h₁ : Calm first) (h₂ : Calm rest) :
    Calm (first ++ rest) := by
  intro e he
  rcases List.mem_append.1 he with h | h
  · exact h₁ e h
  · exact h₂ e h

theorem Calm.orderly {effects : List Effect} (h : Calm effects) : Orderly effects := by
  induction effects with
  | nil => trivial
  | cons e rest ih =>
    cases e with
    | replayBuffered signals => exact absurd (h _ List.mem_cons_self) Bool.noConfusion
    | setTimer timer deadline => exact ih h.tail
    | cancelTimer timer => exact ih h.tail
    | _ => exact h.tail

theorem replayed_of_calm {effects : List Effect} (h : Calm effects) (queue : List InboundSignal) :
    replayed effects queue = queue := by
  induction effects with
  | nil => rfl
  | cons e rest ih =>
    cases e with
    | replayBuffered signals => exact absurd (h _ List.mem_cons_self) Bool.noConfusion
    | _ => exact ih h.tail

theorem replayed_append (first rest : List Effect) (queue : List InboundSignal) :
    replayed (first ++ rest) queue = replayed rest (replayed first queue) := by
  induction first generalizing queue with
  | nil => rfl
  | cons e first ih =>
    cases e with
    | replayBuffered signals => exact ih (signals ++ queue)
    | _ => exact ih queue

theorem calm_nil : Calm [] := by
  intro e he
  cases he

theorem replayed_replayPending (pending queue : List InboundSignal) :
    replayed (replayPending pending) queue = pending ++ queue := by
  unfold replayPending
  split
  · rename_i h; rw [h]; rfl
  · rfl

section moves
variable {now : Datetime} {policy : LifecyclePolicy} {txn next : Transaction}
  {event : LifecycleEvent} {effects : List Effect}

theorem orderly_replayPending (pending : List InboundSignal) : Orderly (replayPending pending) := by
  unfold replayPending
  split <;> trivial

/-- Only an inbound and the snapshot replay anything. -/
theorem Move.calm (h : Move now policy txn event next effects)
    (hinbound : ∀ signal, event ≠ .inboundReceived signal)
    (hsnapshot : ∀ snapshot hold, event ≠ .snapshotMaterialized snapshot hold) : Calm effects := by
  cases h with
  | verified hw o hcore hdecision =>
    refine Calm.append ?_ (by simp [Calm, Effect.replays])
    unfold writeFeed
    split <;> simp [Calm, Effect.replays]
  | askHuman s proposal =>
    unfold proposalEffect
    split <;> simp [Calm, Effect.replays]
  | hold s snapshot => exact absurd rfl (hsnapshot _ _)
  | materialize s snapshot => exact absurd rfl (hsnapshot _ _)
  | holdInbound s signal => exact absurd rfl (hinbound _)
  | enrichingInbound s signal => exact absurd rfl (hinbound _)
  | awaitingInbound s signal => exact absurd rfl (hinbound _)
  | retarget s signal => exact absurd rfl (hinbound _)
  | _ => simp [Calm, Effect.replays]

/-- No move replays after it may have awaited. -/
theorem Move.orderly (h : Move now policy txn event next effects) : Orderly effects := by
  by_cases hinbound : ∃ signal, event = .inboundReceived signal
  · obtain ⟨signal, rfl⟩ := hinbound
    cases h <;> trivial
  · by_cases hsnapshot : ∃ snapshot hold, event = .snapshotMaterialized snapshot hold
    · obtain ⟨snapshot, hold, rfl⟩ := hsnapshot
      cases h with
      | stay => trivial
      | hold s snapshot => exact orderly_replayPending s.pending
      | materialize s snapshot => exact orderly_replayPending s.pending
    · exact (h.calm (fun signal heq => hinbound ⟨signal, heq⟩)
        fun snapshot hold heq => hsnapshot ⟨snapshot, hold, heq⟩).orderly

/-- Only an inbound and a converge outcome change what is held and queued together. -/
theorem Move.conveys (h : Move now policy txn event next effects)
    (hinbound : ∀ signal, event ≠ .inboundReceived signal)
    (hconverged : ∀ outcome, event ≠ .converged outcome) (queue : List InboundSignal) :
    next.inHand ++ replayed effects queue = txn.inHand ++ queue := by
  cases h with
  | hold s snapshot => exact replayed_replayPending s.pending queue
  | materialize s snapshot => exact replayed_replayPending s.pending queue
  | verified hw o hcore hdecision =>
    cases hw <;> rfl
  | unverified hw => cases hw <;> rfl
  | askHuman s proposal =>
    unfold proposalEffect
    split <;> rfl
  | _ =>
    first
    | rfl
    | exact absurd rfl (hinbound _)
    | exact absurd rfl (hconverged _)

/-- A transaction is archived by its archive window or an override. -/
theorem Move.archived (h : Move now policy txn event next effects)
    (hnext : next.state = .archived) :
    txn.state = .archived ∧ effects = [] ∨ event = .archiveWindowReached ∨
      ∃ choice, event = .overrideDetected choice := by
  cases h with
  | stay => exact .inl ⟨hnext, rfl⟩
  | archive s a hcore hfinal => exact .inr (.inl rfl)
  | archiveLapsed s a hcore hfinal => exact .inr (.inl rfl)
  | overrideArchive s choice a hcore hfinal => exact .inr (.inr ⟨choice, rfl⟩)
  | _ => cases hnext

/-- An inbound taken from the head of the queue is held in its place, or put back. -/
theorem advance_inbound {tr : Transition} {signal : InboundSignal}
    (hstate : txn.state = .discovered ∨ txn.state = .holdAmazon ∨ txn.state = .open ∨
      txn.state = .lapsed)
    (h : advance now policy txn (.inboundReceived signal) = .ok tr) (queue : List InboundSignal) :
    tr.next.inHand ++ replayed tr.effects queue = txn.inHand ++ signal :: queue := by
  cases txn with
  | discovered s =>
    cases h
    exact List.append_assoc s.pending [signal] queue
  | holdAmazon s => cases h; rfl
  | opened s => cases h; rfl
  | lapsed s => cases h; rfl
  | _ => rcases hstate with h | h | h | h <;> cases h

/-- A converge run ends the revision. -/
theorem advance_converged {s : Revising} {outcome : ConvergeOutcome} {tr : Transition}
    (h : advance now policy (.revising s) (.converged outcome) = .ok tr)
    (queue : List InboundSignal) : tr.next.inHand ++ replayed tr.effects queue = queue := by
  cases outcome with
  | reapplied decision =>
    obtain ⟨o, -, h⟩ := Lib.bind_eq_ok h
    cases h
    rfl
  | noChange =>
    simp only [advance, fromRevising] at h
    unfold resolveNoChange at h
    split at h
    · obtain ⟨o, -, h⟩ := Lib.bind_eq_ok h
      cases h
      rfl
    · cases h
      rfl
  | _ => cases h; rfl

end moves

/-! ## The inbounds of the driver -/

/-- The states a wait is entered in. -/
def Wait.Fits : Wait → TxnState → Prop
  | .discovered, state => state = .discovered
  | .hold _, state => state = .holdAmazon
  | .patience _, state | .reply, state => state = .awaitingHuman
  | .archive _, state | .blocked, state => state = .open ∨ state = .lapsed

/-- The waits an inbound is taken from the queue in, but for an answer's. -/
theorem Wait.Fits.takes {w : Wait} {state : TxnState} (h : w.Fits state)
    (hw : ∀ deadline, w ≠ .patience deadline ∧ w ≠ .reply) :
    state = .discovered ∨ state = .holdAmazon ∨ state = .open ∨ state = .lapsed := by
  cases w with
  | discovered => exact .inl h
  | hold deadline => exact .inr (.inl h)
  | patience deadline => exact absurd rfl (hw deadline).1
  | reply => exact absurd rfl (hw 0).2
  | archive deadline => exact .inr (.inr h)
  | blocked => exact .inr (.inr h)

/-- The transaction an activity is called on. -/
def Call.Fits (txn : Transaction) : Call → Prop
  | .fetchSnapshot => txn.state = .discovered
  | .converge _ instruction _ => ∃ s, txn = .revising s ∧ s.instruction = instruction
  | _ => True

/-- What may follow an activity. -/
def Resume.Fits : Resume → Prop
  | .nextStep => True
  | .awaitSnapshot => False
  | .unlessLeft before _ w => w.Fits before

/-- Where the driver may be suspended with a transaction. -/
def Suspended.Fits (txn : Transaction) : Suspended → Prop
  | .calling c rest resume => c.Fits txn ∧ Calm rest ∧ resume.Fits
  | .waiting w => w.Fits txn.state
  | .completed => txn.state = .archived
  | .failed | .stuck => True

namespace Driver

/-- The driver goes on from `d` to `d'` with the transaction and what is consumed as they are and
the queue `queue`. -/
structure Carries (queue : List InboundSignal) (d d' : Driver) : Prop where
  txn_eq : d'.txn = d.txn
  consumed_eq : d'.consumed = d.consumed
  inbound_eq : d'.inbound = queue
  fits : d'.pc.Fits d'.txn
  notReread : ∀ rest resume, d'.pc ≠ .calling (.readBack none) rest resume

variable {d d' : Driver} {m : Moment} {queue : List InboundSignal}

theorem Carries.trans {d₁ : Driver} (htxn : d₁.txn = d.txn) (hconsumed : d₁.consumed = d.consumed)
    (h : Carries queue d₁ d') : Carries queue d d' :=
  ⟨h.txn_eq.trans htxn, h.consumed_eq.trans hconsumed, h.inbound_eq, h.fits, h.notReread⟩

/-- Suspending on a call the transaction fits. -/
theorem carries_call {c : Call} {rest : List Effect} {resume : Resume} (hc : c.Fits d.txn)
    (hread : c ≠ .readBack none) (hrest : Calm rest) (hresume : resume.Fits) :
    Carries d.inbound d (d.call c rest resume) :=
  ⟨rfl, rfl, rfl, ⟨hc, hrest, hresume⟩, fun _ _ h => hread (by cases h; rfl)⟩

theorem carries_wait {w : Wait} (hw : w.Fits d.txn.state) : Carries d.inbound d (d.wait w) :=
  ⟨rfl, rfl, rfl, hw, fun _ _ h => by cases h⟩

theorem beginStep_carries (d : Driver) : Carries d.inbound d d.beginStep := by
  unfold beginStep
  split
  · rename_i s htxn
    exact carries_call (by rw [htxn]; rfl) Call.noConfusion calm_nil trivial
  · exact carries_call trivial Call.noConfusion calm_nil trivial
  · rename_i s htxn
    exact carries_wait (by rw [htxn]; rfl)
  · rename_i s htxn
    exact carries_wait (by rw [htxn]; rfl)
  · rename_i s htxn
    exact carries_wait (by rw [htxn]; exact .inl rfl)
  · rename_i s htxn
    exact carries_wait (by rw [htxn]; exact .inr rfl)
  · rename_i s htxn
    exact carries_call ⟨s, htxn, rfl⟩ Call.noConfusion calm_nil trivial
  · rename_i s htxn
    refine ⟨rfl, rfl, rfl, ?_, fun _ _ h => by cases h⟩
    show d.txn.state = .archived
    rw [htxn]
    rfl
  · exact ⟨rfl, rfl, rfl, trivial, fun _ _ h => by cases h⟩
  · exact ⟨rfl, rfl, rfl, trivial, fun _ _ h => by cases h⟩

theorem continueAsNew_carries (d : Driver) : Carries d.inbound d d.continueAsNew := by
  have h := beginStep_carries (syncThreadId
    { txn := d.txn, ynabId := d.ynabId, threadId := d.threadId, deadlines := d.deadlines,
      inbound := d.inbound, actionSeq := d.actionSeq })
  exact ⟨h.txn_eq, rfl, h.inbound_eq, h.fits, h.notReread⟩

theorem endStep_carries (d : Driver) (m : Moment) : Carries d.inbound d (d.endStep m) := by
  unfold endStep
  split
  · exact continueAsNew_carries d
  · exact beginStep_carries d

theorem finish_carries {resume : Resume}
    (hresume : resume.Fits ∨ resume = .awaitSnapshot ∧ d.txn.state = .discovered) :
    Carries d.inbound d (d.finish m resume) := by
  cases resume with
  | nextStep => exact endStep_carries d m
  | awaitSnapshot =>
    rcases hresume with h | ⟨-, h⟩
    · exact h.elim
    · exact carries_wait h
  | unlessLeft before timer w =>
    have hw : w.Fits before := by
      rcases hresume with h | ⟨h, -⟩
      · exact h
      · cases h
    simp only [finish]
    by_cases hstate : d.txn.state = before
    · rw [if_pos hstate]
      exact ⟨rfl, rfl, rfl, (by rw [← hstate] at hw; exact hw), fun _ _ h => by cases h⟩
    · rw [if_neg hstate]
      exact endStep_carries d m

/-- What an effect comes to: done at once it replays, awaited it does not. -/
inductive Perform (d : Driver) (effect : Effect) : Performed → Prop
  | settled {d' : Driver} (htxn : d'.txn = d.txn) (hconsumed : d'.consumed = d.consumed)
      (hinbound : ∀ rest, replayed (effect :: rest) d.inbound = replayed rest d'.inbound)
      (horderly : ∀ rest, Orderly (effect :: rest) → Orderly rest) :
      Perform d effect (.settled d')
  | awaits {c : Call} {d' : Driver} (htxn : d'.txn = d.txn) (hconsumed : d'.consumed = d.consumed)
      (hinbound : d'.inbound = d.inbound) (hfits : c.Fits d.txn) (hread : c ≠ .readBack none)
      (hcalm : ∀ rest, Orderly (effect :: rest) → Calm (effect :: rest)) :
      Perform d effect (.awaits c d')

theorem calm_cons {e : Effect} {rest : List Effect} (he : e.replays = false) (h : Calm rest) :
    Calm (e :: rest) := by
  intro e' he'
  rcases List.mem_cons.1 he' with heq | hmem
  · rw [heq]; exact he
  · exact h e' hmem

theorem perform_cases (d : Driver) (effect : Effect) : Perform d effect (d.perform effect) := by
  cases effect with
  | sendThreadMessage purpose detail decision =>
    unfold perform
    cases d.threadId with
    | none => exact .awaits rfl rfl rfl trivial Call.noConfusion fun _ h => calm_cons rfl h
    | some _ => exact .awaits rfl rfl rfl trivial Call.noConfusion fun _ h => calm_cons rfl h
  | closeThread =>
    unfold perform
    cases d.threadId with
    | none => exact .settled rfl rfl (fun _ => rfl) fun _ h => Calm.orderly h
    | some _ => exact .awaits rfl rfl rfl trivial Call.noConfusion fun _ h => calm_cons rfl h
  | setTimer timer deadline => exact .settled rfl rfl (fun _ => rfl) fun _ h => h
  | cancelTimer timer => exact .settled rfl rfl (fun _ => rfl) fun _ h => h
  | replayBuffered signals => exact .settled rfl rfl (fun _ => rfl) fun _ h => h
  | _ => exact .awaits rfl rfl rfl trivial Call.noConfusion fun _ h => calm_cons rfl h

/-- Executing effects leaves the queue with the replays among them. -/
theorem execute_carries {effects : List Effect} {resume : Resume} (horderly : Orderly effects)
    (hresume : resume.Fits ∨ resume = .awaitSnapshot ∧ effects = [] ∧ d.txn.state = .discovered) :
    Carries (replayed effects d.inbound) d (d.execute m resume effects) := by
  induction effects generalizing d with
  | nil =>
    refine finish_carries ?_
    exact hresume.imp_right fun h => ⟨h.1, h.2.2⟩
  | cons effect rest ih =>
    have hfits : resume.Fits := by
      rcases hresume with h | ⟨-, h, -⟩
      · exact h
      · cases h
    unfold execute
    have hperform := perform_cases d effect
    generalize d.perform effect = p at hperform
    cases hperform with
    | settled htxn hconsumed hinbound horder =>
      rw [hinbound rest]
      exact (ih (horder rest horderly) (.inl hfits)).trans htxn hconsumed
    | awaits htxn hconsumed hinbound hc hread hcalm =>
      have hall := hcalm rest horderly
      rw [replayed_of_calm hall, ← hinbound]
      exact (carries_call (htxn ▸ hc) hread hall.tail hfits).trans htxn hconsumed

/-! ### The account -/

/-- Consumed, held and queued. -/
def account (d : Driver) : List InboundSignal :=
  d.consumed ++ (d.txn.inHand ++ d.inbound)

/-- The inbound an act brings. -/
def Act.submitted : Act → List InboundSignal
  | .submitInbound signal => [signal]
  | _ => []

theorem Carries.account_eq (h : Carries queue d d') :
    d'.account = d.consumed ++ (d.txn.inHand ++ queue) := by
  unfold account
  rw [h.consumed_eq, h.txn_eq, h.inbound_eq]

section turns
variable {text : PyText} {δ : Type} [DecidableEq δ] {digest : TargetState → δ} {act : Act}
  {event : LifecycleEvent} {rest : List Effect} {resume : Resume} {d₁ : Driver} {tr : Transition}

/-- Feeding an event accounts for the inbound it took and the instruction it ended. -/
theorem Feeds.account (h : Feeds text digest d act m event rest resume d₁) (hfits : d.pc.Fits d.txn)
    (hadv : advance m.now defaultPolicy d₁.txn event = .ok tr) :
    d₁.consumed ++ (tr.next.inHand ++ replayed tr.effects d₁.inbound) = d.account := by
  have hmove := advance_move hadv
  cases h with
  | converged m outcome hpc =>
    rw [hpc] at hfits
    obtain ⟨s, htxn, hinstruction⟩ := hfits.1
    have hadv' : advance m.now defaultPolicy (.revising s) (.converged outcome) = .ok tr := by
      rw [← htxn]; exact hadv
    unfold Driver.account
    rw [advance_converged hadv', List.append_assoc, ← hinstruction, htxn]
    rfl
  | @received w signal queue m hpc hw hqueue =>
    rw [hpc] at hfits
    unfold Driver.account
    rw [advance_inbound (Wait.Fits.takes hfits hw) hadv, hqueue]
  | interpreted m outcome hpc =>
    rcases replyEvent_event outcome with ⟨decision, hevent⟩ | ⟨question, hevent⟩
    · rw [hevent] at hmove
      rw [hmove.conveys (fun _ => LifecycleEvent.noConfusion) (fun _ => LifecycleEvent.noConfusion)]
      rfl
    · rw [hevent] at hmove
      rw [hmove.conveys (fun _ => LifecycleEvent.noConfusion) (fun _ => LifecycleEvent.noConfusion)]
      rfl
  | reread m target? s hpc htxn =>
    rw [hmove.conveys (fun _ => (archiveOrOverride_ne (by simp) (by simp) _ _ _).symm)
      (fun _ => (archiveOrOverride_ne (by simp) (by simp) _ _ _).symm)]
    rfl
  | _ =>
    rw [hmove.conveys (fun _ => LifecycleEvent.noConfusion) (fun _ => LifecycleEvent.noConfusion)]
    rfl

/-- No replay is left for later. -/
theorem Feeds.calm_rest (h : Feeds text digest d act m event rest resume d₁)
    (hfits : d.pc.Fits d.txn) : Calm rest := by
  cases h with
  | verified m target? hpc =>
    rw [hpc] at hfits
    exact hfits.2.1
  | _ => exact calm_nil

/-- The effects fed and those left are executed in an order that keeps the replays first. -/
theorem Feeds.orderly (h : Feeds text digest d act m event rest resume d₁)
    (hfits : d.pc.Fits d.txn) (hadv : advance m.now defaultPolicy d₁.txn event = .ok tr) :
    Orderly (tr.effects ++ rest) := by
  have hmove := advance_move hadv
  have hrest := h.calm_rest hfits
  cases h with
  | verified m target? hpc =>
    exact ((hmove.calm (fun _ => LifecycleEvent.noConfusion)
      (fun _ _ => LifecycleEvent.noConfusion)).append hrest).orderly
  | _ =>
    rw [List.append_nil]
    exact hmove.orderly

/-- What follows the effects is entered in a state it fits. -/
theorem Feeds.resumes (h : Feeds text digest d act m event rest resume d₁)
    (hfits : d.pc.Fits d.txn) (hadv : advance m.now defaultPolicy d₁.txn event = .ok tr) :
    resume.Fits ∨
      resume = .awaitSnapshot ∧ tr.effects ++ rest = [] ∧ tr.next.state = .discovered := by
  cases h with
  | unavailable m hpc =>
    rw [hpc] at hfits
    right
    have hstate : d.txn.state = .discovered := hfits.1
    cases htxn : d.txn with
    | discovered s =>
      rw [htxn] at hadv
      cases hadv
      exact ⟨rfl, rfl, rfl⟩
    | _ => rw [htxn] at hstate; cases hstate
  | verified m target? hpc =>
    rw [hpc] at hfits
    exact .inl hfits.2.2
  | reread m target? s hpc htxn => exact .inl (.inl rfl)
  | patienceOver m hpc => exact .inl rfl
  | archiveDue m hpc htxn => exact .inl (.inr rfl)
  | _ => exact .inl trivial

/-- Feeding an event, the driver goes on with the next state of the machine. -/
theorem Feeds.carries (h : Feeds text digest d act m event rest resume d₁)
    (hfits : d.pc.Fits d.txn) (hadv : advance m.now defaultPolicy d₁.txn event = .ok tr) :
    Carries (replayed tr.effects d₁.inbound) { d₁ with txn := tr.next }
      ((syncThreadId { d₁ with txn := tr.next }).execute m resume (tr.effects ++ rest)) := by
  have hcarries := execute_carries (d := syncThreadId { d₁ with txn := tr.next }) (m := m)
    (h.orderly hfits hadv) (h.resumes hfits hadv)
  rw [replayed_append, replayed_of_calm (h.calm_rest hfits)] at hcarries
  refine Carries.trans ?_ ?_ hcarries
  · rfl
  · rfl

/-- Going on with the effects left after an activity. -/
theorem execute_rest_carries (hfits : d.pc.Fits d.txn) {c : Call}
    (hpc : d.pc = .calling c rest resume) : Carries d.inbound d (d.execute m resume rest) := by
  rw [hpc] at hfits
  have h := execute_carries (d := d) (m := m) hfits.2.1.orderly (.inl hfits.2.2)
  rwa [replayed_of_calm hfits.2.1] at h

theorem withThread_inHand (threadId : ThreadId) (txn : Transaction) :
    (txn.withThread threadId).inHand = txn.inHand := by
  cases txn <;> rfl

/-- An opened thread is stamped before the effects left. -/
theorem setThreadId_carries (hfits : d.pc.Fits d.txn) {proposal : Option Proposal}
    {purpose : MessagePurpose} {detail : Option String} {decision : Option Decision}
    (hpc : d.pc = .calling (.openThread proposal purpose detail decision) rest resume)
    (threadId : ThreadId) :
    Carries d.inbound (d.setThreadId threadId)
      ((d.setThreadId threadId).execute m resume rest) := by
  refine execute_rest_carries (d := d.setThreadId threadId) ?_ hpc
  show d.pc.Fits _
  rw [hpc] at hfits ⊢
  exact ⟨trivial, hfits.2⟩

/-- Where the driver is suspended fits its transaction, after every step. -/
theorem Turn.fits (h : Turn text digest d act d') (hfits : d.pc.Fits d.txn) :
    d'.pc.Fits d'.txn := by
  cases h with
  | accept signal hopen => exact hfits
  | notify snapshot hopen => exact hfits
  | fed hfeeds hadv => exact (hfeeds.carries hfits hadv).fits
  | raised hfeeds herr => trivial
  | interpret m hpc htxn hqueue => exact ⟨trivial, calm_nil, trivial⟩
  | reread m hpc htxn => exact ⟨trivial, calm_nil, trivial⟩
  | committed m hpc =>
    rw [hpc] at hfits
    exact ⟨trivial, hfits.2⟩
  | opened m threadId hpc => exact (setThreadId_carries hfits hpc threadId).fits
  | wentOn m hpc hc => exact (execute_rest_carries hfits hpc).fits
  | unrecorded m hpc => exact (execute_rest_carries hfits hpc).fits
  | failed m hpc => trivial

/-- **One step.** The account grows by the inbound the step accepts. -/
theorem Turn.account (h : Turn text digest d act d') (hfits : d.pc.Fits d.txn) :
    d'.account = d.account ++ act.submitted := by
  cases h with
  | accept signal hopen =>
    unfold Driver.account
    simp only [Act.submitted, List.append_assoc]
  | notify snapshot hopen => exact (List.append_nil _).symm
  | fed hfeeds hadv =>
    rw [(hfeeds.carries hfits hadv).account_eq]
    have haccount := hfeeds.account hfits hadv
    cases hfeeds <;> exact haccount.trans (List.append_nil _).symm
  | raised hfeeds herr => cases hfeeds <;> exact (List.append_nil _).symm
  | @interpret w s signal queue m hpc htxn hqueue =>
    have hnew : (d.interpret s signal queue).account =
        d.consumed ++ [signal] ++ (d.txn.inHand ++ queue) := rfl
    unfold Driver.account at hnew ⊢
    rw [hnew, htxn, hqueue]
    simp [Act.submitted, Transaction.inHand]
  | reread m hpc htxn => exact (List.append_nil _).symm
  | committed m hpc => exact (List.append_nil _).symm
  | opened m threadId hpc =>
    rw [(setThreadId_carries hfits hpc threadId).account_eq]
    have hsame : d.consumed ++ ((d.txn.withThread threadId).inHand ++ d.inbound) = d.account := by
      rw [withThread_inHand]
      rfl
    exact hsame.trans (List.append_nil _).symm
  | wentOn m hpc hc =>
    rw [(execute_rest_carries hfits hpc).account_eq]
    exact (List.append_nil _).symm
  | unrecorded m hpc =>
    rw [(execute_rest_carries hfits hpc).account_eq]
    exact (List.append_nil _).symm
  | failed m hpc => exact (List.append_nil _).symm

/-! ### The end of a run -/

/-- The archive window is over: YNAB is read again, or the transaction is archived. -/
def Closing (d : Driver) : Prop :=
  (∃ rest resume, d.pc = .calling (.readBack none) rest resume) ∨ d.txn.state = .archived

def Act.isTimeout : Act → Bool
  | .timeout _ => true
  | _ => false

/-- The inbounds too late to be read, after one more step. -/
def lateStep (queue : List InboundSignal) (beat : DriverBeat) : List InboundSignal :=
  if beat.act.isTimeout then beat.pre.inbound else queue ++ beat.act.submitted

/-- What was queued when a wait last timed out, and what arrived since. -/
def late (beats : List DriverBeat) : List InboundSignal :=
  beats.foldl lateStep []

/-- The event that archives a transaction takes no inbound. -/
theorem Feeds.of_archived (h : Feeds text digest d act m event rest resume d₁)
    (hfits : d.pc.Fits d.txn) (hadv : advance m.now defaultPolicy d₁.txn event = .ok tr)
    (hnext : tr.next.state = .archived) :
    replayed tr.effects d₁.inbound = d.inbound ∧ (act.isTimeout = true ∨ d.Closing) := by
  have hmove := advance_move hadv
  rcases hmove.archived hnext with ⟨harchived, heffects⟩ | hevent
  · -- an archived transaction stays as it is
    rw [heffects]
    cases h with
    | @received w signal queue m hpc hw hqueue =>
      rw [hpc] at hfits
      have hstate : d.txn.state = .archived := harchived
      rcases Wait.Fits.takes hfits hw with h | h | h | h <;> rw [hstate] at h <;> cases h
    | _ => exact ⟨rfl, .inr (.inr harchived)⟩
  · have hcalm : Calm tr.effects := by
      refine hmove.calm ?_ ?_
      · rintro signal rfl
        rcases hevent with h | ⟨choice, h⟩ <;> cases h
      · rintro snapshot hold rfl
        rcases hevent with h | ⟨choice, h⟩ <;> cases h
    rw [replayed_of_calm hcalm]
    cases h with
    | reread m target? s hpc htxn => exact ⟨rfl, .inr (.inl ⟨_, _, hpc⟩)⟩
    | archiveDue m hpc htxn => exact ⟨rfl, .inl rfl⟩
    | interpreted m outcome hpc =>
      cases outcome <;> (rcases hevent with h | ⟨choice, h⟩ <;> cases h)
    | _ => rcases hevent with h | ⟨choice, h⟩ <;> cases h

/-- Once the window is over, the queue only grows. -/
theorem Turn.late (h : Turn text digest d act d') (hfits : d.pc.Fits d.txn)
    (hlate : d.Closing → d.inbound = queue) (hclosing : d'.Closing) :
    d'.inbound = lateStep queue ⟨d, act⟩ := by
  -- a step that is no time-out starts with the window over as well
  have hstays : ∀ {a : Act}, a.isTimeout = false → a.submitted = [] → d.Closing →
      d.inbound = lateStep queue ⟨d, a⟩ := by
    intro a htime hsub hd
    unfold lateStep
    rw [htime, hsub, List.append_nil]
    exact hlate hd
  cases h with
  | accept signal hopen =>
    have hd : d.Closing := hclosing
    exact congrArg (· ++ [signal]) (hlate hd)
  | notify snapshot hopen => exact hstays rfl rfl hclosing
  | @fed _ m event rest resume d₁ tr hfeeds hadv =>
    have hcarries := hfeeds.carries hfits hadv
    have hnext : tr.next.state = .archived := by
      rcases hclosing with ⟨rest', resume', hpc⟩ | harchived
      · exact absurd hpc (hcarries.notReread rest' resume')
      · rw [hcarries.txn_eq] at harchived
        exact harchived
    obtain ⟨hqueue, hwindow⟩ := hfeeds.of_archived hfits hadv hnext
    rw [hcarries.inbound_eq, hqueue]
    cases htime : act.isTimeout with
    | true =>
      unfold lateStep
      rw [htime]
      rfl
    | false =>
      rcases hwindow with h | hd
      · rw [htime] at h; cases h
      · exact hstays htime (by cases hfeeds <;> rfl) hd
  | raised hfeeds herr =>
    rcases hclosing with ⟨_, _, hpc⟩ | harchived
    · cases hpc
    · cases htime : act.isTimeout with
      | true =>
        unfold lateStep
        rw [htime]
        rfl
      | false => exact hstays htime (by cases hfeeds <;> rfl) (.inr harchived)
  | @interpret w s signal queue' m hpc htxn hqueue =>
    rcases hclosing with ⟨_, _, hpc'⟩ | harchived
    · cases hpc'
    · have hstate : d.txn.state = .archived := harchived
      rw [htxn] at hstate
      cases hstate
  | reread m hpc htxn => rfl
  | committed m hpc =>
    rcases hclosing with ⟨_, _, hpc'⟩ | harchived
    · cases hpc'
    · exact hstays rfl rfl (.inr harchived)
  | opened m threadId hpc =>
    have hcarries := setThreadId_carries (m := m) hfits hpc threadId
    rw [hcarries.inbound_eq]
    rcases hclosing with ⟨rest', resume', hpc'⟩ | harchived
    · exact absurd hpc' (hcarries.notReread rest' resume')
    · refine hstays rfl rfl (.inr ?_)
      rw [hcarries.txn_eq] at harchived
      exact (d.txn.withThread_state threadId).symm.trans harchived
  | wentOn m hpc hc =>
    have hcarries := execute_rest_carries (m := m) hfits hpc
    rw [hcarries.inbound_eq]
    rcases hclosing with ⟨rest', resume', hpc'⟩ | harchived
    · exact absurd hpc' (hcarries.notReread rest' resume')
    · exact hstays rfl rfl (.inr (hcarries.txn_eq ▸ harchived))
  | unrecorded m hpc =>
    have hcarries := execute_rest_carries (m := m) hfits hpc
    rw [hcarries.inbound_eq]
    rcases hclosing with ⟨rest', resume', hpc'⟩ | harchived
    · exact absurd hpc' (hcarries.notReread rest' resume')
    · exact hstays rfl rfl (.inr (hcarries.txn_eq ▸ harchived))
  | failed m hpc =>
    rcases hclosing with ⟨_, _, hpc'⟩ | harchived
    · cases hpc'
    · exact hstays rfl rfl (.inr harchived)

end turns

end Driver

/-! ## Runs -/

/-- The inbounds a run accepted, in their order. -/
def submitted (beats : List DriverBeat) : List InboundSignal :=
  beats.flatMap fun beat => beat.act.submitted

section runs
variable {text : PyText} {δ : Type} [DecidableEq δ] {digest : TargetState → δ}
  {ynabId : YnabTransactionId} {threadId : Option ThreadId} {beats : List DriverBeat} {d : Driver}

/-- What a run keeps: the driver fits its transaction, the account is the arrivals, and once the
archive window is over the queue is what came too late. -/
structure Accounted (beats : List DriverBeat) (d : Driver) : Prop where
  fits : d.pc.Fits d.txn
  account_eq : d.account = submitted beats
  late : d.Closing → d.inbound = Driver.late beats

theorem Accounted.start :
    Accounted [] (Driver.start { ynabId := ynabId, threadId := threadId }) := by
  refine ⟨⟨rfl, calm_nil, trivial⟩, rfl, ?_⟩
  rintro (⟨_, _, hpc⟩ | harchived)
  · cases hpc
  · cases harchived

theorem Accounted.run
    (h : Driver.Run text digest (Driver.start { ynabId := ynabId, threadId := threadId }) beats d) :
    Accounted beats d := by
  refine h.history Accounted.start ?_
  intro beats d beat d' _ hd hstep
  cases hstep with
  | step hs =>
    have hturn := Driver.step_turn hs
    refine ⟨hturn.fits hd.fits, ?_, ?_⟩
    · unfold submitted
      rw [hturn.account hd.fits, List.flatMap_append, List.flatMap_singleton, hd.account_eq]
      rfl
    · intro hclosing
      rw [hturn.late hd.fits hd.late hclosing]
      unfold Driver.late
      rw [List.foldl_append]
      rfl

/-- **No inbound is lost on the way.** At every moment of a run, continue-as-new included, the
inbounds consumed, then the one held or those buffered, then the queue, are the arrivals in their
order. A run that completes has consumed them all exactly when none was queued as its archive wait
timed out and none came after. -/
theorem inbounds_conveyed
    (h : Driver.Run text digest (Driver.start { ynabId := ynabId, threadId := threadId }) beats d) :
    d.consumed ++ (d.txn.inHand ++ d.inbound) = submitted beats ∧
      (d.pc = .completed → (d.consumed = submitted beats ↔ Driver.late beats = [])) := by
  have hacc := Accounted.run h
  refine ⟨hacc.account_eq, ?_⟩
  intro hpc
  have harchived : d.txn.state = .archived := by
    have hfits := hacc.fits
    rw [hpc] at hfits
    exact hfits
  have hhand : d.txn.inHand = [] := by
    cases htxn : d.txn with
    | archived s => rfl
    | _ => rw [htxn] at harchived; cases harchived
  have haccount := hacc.account_eq
  unfold Driver.account at haccount
  rw [hhand, List.nil_append, hacc.late (.inr harchived)] at haccount
  rw [← haccount]
  exact List.self_eq_append_right

end runs

/-! ## A reply while the thread is closed -/

/-- A reconciled charge with a category. -/
def reconciledSnapshot : YnabSnapshot where
  ynabId := "y1"
  account := "checking"
  payee := "Corner Cafe"
  amount := ⟨-13070⟩
  txnDate := 0
  categoryId := some "dining"
  cleared := .reconciled

def diningProposal : Proposal where
  allocation := .category "dining" none
  confidence := .medium
  rationale := "a cafe"

def diningReply : InboundSignal :=
  .reply { threadId := "t1", messageId := "m1", fromAddress := "owner", text := "dining" }

/-- The charge is proposed, answered by a question the model cannot read, asked again, and lapses:
past the archive window the thread is to be closed. -/
def lapsedToArchive : List Driver.Act :=
  [.returned ⟨0, 0⟩ (.snapshot (some reconciledSnapshot)),
    .returned ⟨0, 0⟩ (.enriched (.askHuman diningProposal)), .returned ⟨0, 0⟩ (.thread "t1"),
    .submitInbound diningReply, .wake ⟨1, 0⟩,
    .returned ⟨1, 0⟩ (.interpreted (.clarify "which one?")), .returned ⟨1, 0⟩ .done,
    .timeout ⟨Timedelta.days 8, 0⟩, .returned ⟨Timedelta.days 8, 0⟩ .done,
    .timeout ⟨Timedelta.days 40, 0⟩]

theorem reply_consumed :
    ∃ beats d, Driver.Run PyText.ascii (fun t : TargetState => t)
      (Driver.start { ynabId := "y1" }) beats d ∧ d.pc = .completed ∧
      submitted beats = [diningReply] ∧
      (d.consumed = submitted beats ↔ Driver.late beats = []) := by
  have hexec : ∃ beats d, Lib.exec (Driver.step PyText.ascii fun t : TargetState => t)
      (Driver.start { ynabId := "y1" })
      (lapsedToArchive ++ [.returned ⟨Timedelta.days 40, 0⟩ .done]) =
        some (beats, d) ∧ d.pc = .completed ∧ submitted beats = [diningReply] :=
    ⟨_, _, rfl, rfl, rfl⟩
  obtain ⟨beats, d, hexec, hpc, hsubmitted⟩ := hexec
  have hrun := Lib.exec_run hexec
  exact ⟨beats, d, hrun, hpc, hsubmitted, (inbounds_conveyed hrun).2 hpc⟩

/-- A reply that arrives while the thread is being closed stays in the queue of the
completed run. -/
theorem reply_left_in_queue :
    ∃ beats d, Driver.Run PyText.ascii (fun t : TargetState => t)
      (Driver.start { ynabId := "y1" }) beats d ∧ d.pc = .completed ∧
      submitted beats = [diningReply, diningReply] ∧ d.consumed = [diningReply] ∧
      d.inbound = [diningReply] := by
  have hexec : ∃ beats d, Lib.exec (Driver.step PyText.ascii fun t : TargetState => t)
      (Driver.start { ynabId := "y1" })
      (lapsedToArchive ++ [.submitInbound diningReply, .returned ⟨Timedelta.days 40, 0⟩ .done]) =
        some (beats, d) ∧ d.pc = .completed ∧ submitted beats = [diningReply, diningReply] ∧
        d.consumed = [diningReply] ∧ d.inbound = [diningReply] :=
    ⟨_, _, rfl, rfl, rfl, rfl, rfl⟩
  obtain ⟨beats, d, hexec, hpc, hsubmitted, hconsumed, hqueue⟩ := hexec
  exact ⟨beats, d, Lib.exec_run hexec, hpc, hsubmitted, hconsumed, hqueue⟩

end YnabAgent
