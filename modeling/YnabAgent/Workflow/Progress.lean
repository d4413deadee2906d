import YnabAgent.Workflow.Admissible
import YnabAgent.Workflow.Decisions
import YnabAgent.Workflow.Threads

/-!
# The driver comes to rest

Without new signals, and as long as activities return, the driver takes a bounded number of steps
(`domain/state_machine.py`, `workflow/txn_workflow.py`): a rank of where it is suspended and of what
is queued goes down with every one, whatever deadlines have passed and whatever events are ignored
(`Turn.rank_lt`). It is never left in a state between two awaits, but an event that would put an
unsound decision into a written state raises, and the step that feeds it never ends.
-/

namespace YnabAgent

/-- The states that wait for the verification of a write. -/
def TxnState.written : TxnState → Bool
  | .autoApplied | .applied => true
  | _ => false

/-- The activities it waits for meanwhile. -/
def Call.writes : Call → Bool
  | .commitToYnab _ | .readBack (some _) => true
  | _ => false

/-! ## Sound events -/

/-- The decision an event brings into a written state is one the state accepts. -/
def Sound (txn : Transaction) (event : LifecycleEvent) : Prop :=
  match txn, event with
  | .enriching s, .enriched (.autoApply decision) =>
    decision.decidedBy = .agent ∧ Committed s.core decision
  | .awaitingHuman s, .answerReceived decision => Committed s.core decision
  | .opened s, .overrideDetected decision =>
    s.core.snapshot.reconciled = false → Committed s.core decision
  | .revising s, .converged (.reapplied decision) => Committed s.core decision
  | _, _ => True

section machine
variable {now : Datetime} {policy : LifecyclePolicy}

theorem autoApplied_make_returns {core : TxnCore} {decision : Decision}
    {f : AutoApplied → Transition} :
    (∃ tr, (AutoApplied.make core decision >>= fun a => pure (f a)) = Except.ok tr) ↔
      decision.decidedBy = .agent ∧ Committed core decision := by
  constructor
  · rintro ⟨tr, h⟩
    obtain ⟨a, ha, -⟩ := Lib.bind_eq_ok h
    obtain ⟨hcore, hdecision⟩ := AutoApplied.of_make ha
    exact ⟨hdecision ▸ a.byAgent, hcore ▸ hdecision ▸ a.committed⟩
  · rintro ⟨hagent, hc⟩
    rw [AutoApplied.make_eq_ok hagent hc]
    exact ⟨_, rfl⟩

theorem applied_make_returns {core : TxnCore} {decision : Decision} {f : Applied → Transition} :
    (∃ tr, (Applied.make core decision >>= fun a => pure (f a)) = Except.ok tr) ↔
      Committed core decision := by
  constructor
  · rintro ⟨tr, h⟩
    obtain ⟨a, ha, -⟩ := Lib.bind_eq_ok h
    obtain ⟨hcore, hdecision⟩ := Applied.of_make ha
    exact hcore ▸ hdecision ▸ a.committed
  · intro h
    rw [Applied.make_eq_ok h]
    exact ⟨_, rfl⟩

/-- **When the machine raises.** `advance` returns on exactly the sound events. -/
theorem advance_returns_iff_sound {txn : Transaction} {event : LifecycleEvent}
    (hprior : PriorCommitted txn) :
    (∃ tr, advance now policy txn event = .ok tr) ↔ Sound txn event := by
  cases txn with
  | discovered s => exact ⟨fun _ => trivial, fun _ => ⟨_, rfl⟩⟩
  | holdAmazon s => exact ⟨fun _ => trivial, fun _ => ⟨_, rfl⟩⟩
  | archived s => exact ⟨fun _ => trivial, fun _ => ⟨_, rfl⟩⟩
  | enriching s =>
    cases event with
    | enriched outcome =>
      cases outcome with
      | autoApply decision => exact autoApplied_make_returns
      | askHuman proposal => exact ⟨fun _ => trivial, fun _ => ⟨_, rfl⟩⟩
    | _ => exact ⟨fun _ => trivial, fun _ => ⟨_, rfl⟩⟩
  | autoApplied s =>
    cases event with
    | writeVerified outcome =>
      exact ⟨fun _ => trivial, fun _ => resolveWriteVerify_returns s.committed _ .fyi none⟩
    | _ => exact ⟨fun _ => trivial, fun _ => ⟨_, rfl⟩⟩
  | applied s =>
    cases event with
    | writeVerified outcome =>
      exact ⟨fun _ => trivial,
        fun _ => resolveWriteVerify_returns s.committed _ .confirm (some .confirm)⟩
    | _ => exact ⟨fun _ => trivial, fun _ => ⟨_, rfl⟩⟩
  | awaitingHuman s =>
    cases event with
    | answerReceived decision => exact applied_make_returns
    | patienceExpired =>
      refine ⟨fun _ => trivial, fun _ => ?_⟩
      simp only [advance, fromAwaitingHuman]
      split
      · exact ⟨_, rfl⟩
      · exact ⟨_, rfl⟩
    | _ => exact ⟨fun _ => trivial, fun _ => ⟨_, rfl⟩⟩
  | opened s =>
    cases event with
    | overrideDetected decision => exact fromOpen_override_returns
    | archiveWindowReached => exact ⟨fun _ => trivial, fun _ => fromOpen_archive_returns s⟩
    | _ => exact ⟨fun _ => trivial, fun _ => ⟨_, rfl⟩⟩
  | lapsed s =>
    cases event with
    | archiveWindowReached => exact ⟨fun _ => trivial, fun _ => fromLapsed_archive_returns s⟩
    | _ => exact ⟨fun _ => trivial, fun _ => ⟨_, rfl⟩⟩
  | revising s =>
    cases event with
    | converged outcome =>
      cases outcome with
      | reapplied decision => exact reapply_returns
      | noChange => exact ⟨fun _ => trivial, fun _ => resolveNoChange_returns hprior⟩
      | _ => exact ⟨fun _ => trivial, fun _ => ⟨_, rfl⟩⟩
    | _ => exact ⟨fun _ => trivial, fun _ => ⟨_, rfl⟩⟩

/-- A verification leaves the states that wait for it. -/
theorem advance_verified {txn : Transaction} {outcome : VerifyOutcome} {tr : Transition}
    (h : advance now policy txn (.writeVerified outcome) = .ok tr) :
    tr.next.state.written = false := by
  cases txn with
  | autoApplied s =>
    cases outcome with
    | «match» =>
      obtain ⟨o, -, h⟩ := Lib.bind_eq_ok h
      cases h
      rfl
    | _ => cases h; rfl
  | applied s =>
    cases outcome with
    | «match» =>
      obtain ⟨o, -, h⟩ := Lib.bind_eq_ok h
      cases h
      rfl
    | _ => cases h; rfl
  | _ => cases h; rfl

/-- A move enters them with the write itself. -/
theorem Move.written {txn next : Transaction} {event : LifecycleEvent} {effects : List Effect}
    (h : Move now policy txn event next effects) (hnext : next.state.written = true) :
    (txn.state.written = true ∧ effects = []) ∨
      ∃ decision rest, effects = .commitToYnab decision :: rest := by
  cases h with
  | stay => exact .inl ⟨hnext, rfl⟩
  | autoApply s decision a hcore hdecision => exact .inr ⟨_, _, rfl⟩
  | answer s decision a hcore hdecision => exact .inr ⟨_, _, rfl⟩
  | _ => cases hnext

end machine

/-! ## Ranks -/

/-- What an effect can still cost: the activities it awaits, and the inbounds it puts back. -/
def Effect.rank : Effect → Nat
  | .commitToYnab _ => 5
  | .replayBuffered signals => 16 * signals.length
  | _ => 1

def effectsRank (effects : List Effect) : Nat :=
  (effects.map Effect.rank).sum

/-- What the step of a state can still cost. -/
def TxnState.rank : TxnState → Nat
  | .discovered => 22
  | .holdAmazon => 18
  | .enriching => 15
  | .revising => 12
  | .autoApplied | .applied | .awaitingHuman => 8
  | .open | .lapsed => 5
  | .archived => 0

def Wait.rank : Wait → Nat
  | .discovered => 21
  | .hold _ => 18
  | .patience _ => 8
  | .archive (some _) => 5
  | .reply | .archive none | .blocked => 0

def Resume.rank (state : TxnState) : Resume → Nat
  | .nextStep => state.rank
  | .awaitSnapshot => Wait.rank .discovered
  | .unlessLeft before _ w => if state = before then w.rank else state.rank

/-- The activities whose event is dispatched anew end what was left to execute. -/
def Suspended.rank (state : TxnState) : Suspended → Nat
  | .calling .fetchSnapshot _ _ => 22
  | .calling (.enrich _) _ _ => 15
  | .calling (.interpretInbound _ _ _) _ _ => 15
  | .calling (.converge _ _ _) _ _ => 12
  | .calling (.readBack none) _ _ => 4
  | .calling (.commitToYnab _) rest resume => 5 + effectsRank rest + resume.rank state
  | .calling (.readBack (some _)) rest resume => 4 + effectsRank rest + resume.rank state
  | .calling _ rest resume => 1 + effectsRank rest + resume.rank state
  | .waiting w => w.rank
  | .completed | .failed | .stuck => 0

/-- An inbound costs its dispatch, and in `DISCOVERED` its way through the buffer. -/
def Transaction.queueRank (inbound : List InboundSignal) : Transaction → Nat
  | .discovered s => 18 * inbound.length + 16 * s.pending.length
  | _ => 16 * inbound.length

/-- The number of steps a driver can still take without a new signal. -/
def Driver.rank (d : Driver) : Nat :=
  d.pc.rank d.txn.state + d.txn.queueRank d.inbound

theorem effectsRank_append (first rest : List Effect) :
    effectsRank (first ++ rest) = effectsRank first + effectsRank rest := by
  unfold effectsRank
  rw [List.map_append, List.sum_append]

theorem effectsRank_cons (e : Effect) (rest : List Effect) :
    effectsRank (e :: rest) = e.rank + effectsRank rest := rfl

theorem effectsRank_replayPending (pending : List InboundSignal) :
    effectsRank (replayPending pending) = 16 * pending.length := by
  unfold replayPending
  split
  · rename_i h
    rw [h]
    rfl
  · rfl

theorem queueRank_of_ne {txn : Transaction} (h : txn.state ≠ .discovered)
    (inbound : List InboundSignal) : txn.queueRank inbound = 16 * inbound.length := by
  cases txn with
  | discovered s => exact absurd rfl h
  | _ => rfl

/-- A wait costs no more than the step that enters it. -/
theorem Wait.Fits.rank_le {w : Wait} {state : TxnState} (h : w.Fits state) :
    w.rank ≤ state.rank := by
  cases w with
  | discovered => rw [show state = .discovered from h]; decide
  | hold deadline => rw [show state = .holdAmazon from h]; exact Nat.le_refl 18
  | patience deadline => rw [show state = .awaitingHuman from h]; exact Nat.le_refl 8
  | archive deadline =>
    cases deadline with
    | none => exact Nat.zero_le _
    | some deadline =>
      rcases h with rfl | rfl
      · exact Nat.le_refl 5
      · exact Nat.le_refl 5
  | _ => exact Nat.zero_le _

theorem Resume.Fits.rank_le {resume : Resume} (h : resume.Fits) (state : TxnState) :
    resume.rank state ≤ state.rank := by
  cases resume with
  | nextStep => exact Nat.le_refl _
  | awaitSnapshot => exact h.elim
  | unlessLeft before timer w =>
    simp only [Resume.rank]
    split
    · rename_i heq
      rw [heq]
      exact Wait.Fits.rank_le h
    · exact Nat.le_refl _

/-- Nothing waits in a state that verifies a write. -/
theorem Resume.Fits.rank_written {resume : Resume} (h : resume.Fits) {state : TxnState}
    (hstate : state.written = true) : resume.rank state = 8 := by
  have hrank : state.rank = 8 := by
    cases state with
    | autoApplied => rfl
    | applied => rfl
    | _ => cases hstate
  cases resume with
  | nextStep => exact hrank
  | awaitSnapshot => exact h.elim
  | unlessLeft before timer w =>
    simp only [Resume.rank]
    rw [if_neg, hrank]
    rintro rfl
    have hw : w.Fits state := h
    cases w with
    | archive deadline => rcases hw with rfl | rfl <;> cases hstate
    | blocked => rcases hw with rfl | rfl <;> cases hstate
    | _ => rw [show state = _ from hw] at hstate; cases hstate

namespace Driver

variable {d d' d₁ : Driver} {m : Moment} {effects rest : List Effect} {resume : Resume}

/-! ### Of an execution -/

theorem beginStep_rank (d : Driver) :
    d.beginStep.rank ≤ d.txn.state.rank + d.txn.queueRank d.inbound := by
  have hcarries := beginStep_carries d
  unfold rank
  rw [hcarries.txn_eq, hcarries.inbound_eq]
  refine Nat.add_le_add_right ?_ _
  unfold beginStep
  cases htxn : d.txn with
  | opened s => exact Wait.Fits.rank_le (w := .archive _) (.inl rfl)
  | lapsed s => exact Wait.Fits.rank_le (w := .archive _) (.inr rfl)
  | autoApplied s => exact Nat.zero_le _
  | applied s => exact Nat.zero_le _
  | _ => exact Nat.le_refl _

theorem endStep_rank (m : Moment) (d : Driver) :
    (d.endStep m).rank ≤ d.txn.state.rank + d.txn.queueRank d.inbound := by
  unfold endStep
  split
  · exact beginStep_rank (syncThreadId
      { txn := d.txn, ynabId := d.ynabId, threadId := d.threadId, deadlines := d.deadlines,
        inbound := d.inbound, actionSeq := d.actionSeq })
  · exact beginStep_rank d

theorem finish_rank (m : Moment) (d : Driver) (resume : Resume) :
    (d.finish m resume).rank ≤ resume.rank d.txn.state + d.txn.queueRank d.inbound := by
  cases resume with
  | nextStep => exact endStep_rank m d
  | awaitSnapshot => exact Nat.le_refl _
  | unlessLeft before timer w =>
    simp only [finish, Resume.rank]
    split
    · exact Nat.le_refl _
    · exact endStep_rank m d

/-- **Executing effects** costs what the effects and what follows them cost. -/
theorem execute_rank (hstate : d.txn.state = .discovered → effects = []) :
    (d.execute m resume effects).rank ≤
      effectsRank effects + resume.rank d.txn.state + d.txn.queueRank d.inbound := by
  induction effects generalizing d with
  | nil =>
    refine Nat.le_trans (finish_rank m d resume) ?_
    rw [show effectsRank [] = 0 from rfl, Nat.zero_add]
  | cons e rest ih =>
    have hmaterial : d.txn.state ≠ .discovered := by
      intro h
      cases hstate h
    have hqueue := queueRank_of_ne hmaterial
    rw [effectsRank_cons, hqueue]
    -- an effect done at once leaves the rest to execute, one that awaits leaves its activity
    have hsettled : ∀ d' : Driver, d'.txn = d.txn →
        16 * d'.inbound.length ≤ e.rank + 16 * d.inbound.length →
        (d'.execute m resume rest).rank ≤
          e.rank + effectsRank rest + resume.rank d.txn.state + 16 * d.inbound.length := by
      intro d' htxn hinbound
      have hrest := ih (d := d') (by rw [htxn]; exact fun h => absurd h hmaterial)
      rw [htxn, hqueue] at hrest
      omega
    have hawaits : ∀ (c : Call) (d' : Driver), d'.txn = d.txn → d'.inbound = d.inbound →
        (Suspended.calling c rest resume).rank d.txn.state ≤
          e.rank + effectsRank rest + resume.rank d.txn.state →
        (d'.call c rest resume).rank ≤
          e.rank + effectsRank rest + resume.rank d.txn.state + 16 * d.inbound.length := by
      intro c d' htxn hinbound hc
      unfold rank
      rw [call_txn, htxn, hqueue]
      show Suspended.rank _ (.calling c rest resume) + 16 * d'.inbound.length ≤ _
      rw [hinbound]
      exact Nat.add_le_add_right hc _
    unfold execute
    cases e with
    | replayBuffered signals =>
      refine hsettled _ rfl ?_
      rw [List.length_append, Nat.mul_add]
      exact Nat.le_refl _
    | setTimer timer deadline => exact hsettled _ rfl (Nat.le_add_left _ _)
    | cancelTimer timer => exact hsettled _ rfl (Nat.le_add_left _ _)
    | sendThreadMessage purpose detail decision =>
      cases hthread : d.threadId with
      | none =>
        simp only [perform, hthread]
        exact hawaits _ d rfl rfl (Nat.le_refl _)
      | some threadId =>
        simp only [perform, hthread]
        exact hawaits _ { d with actionSeq := d.actionSeq + 1 } rfl rfl (Nat.le_refl _)
    | closeThread =>
      cases hthread : d.threadId with
      | none =>
        simp only [perform, hthread]
        exact hsettled d rfl (Nat.le_add_left _ _)
      | some threadId =>
        simp only [perform, hthread]
        exact hawaits _ d rfl rfl (Nat.le_refl _)
    | _ => exact hawaits _ d rfl rfl (Nat.le_refl _)

/-! ### Of a dispatch -/

section turns
variable {text : PyText} {δ : Type} [DecidableEq δ] {digest : TargetState → δ} {act : Act}
  {event : LifecycleEvent} {tr : Transition}

/-- What a transition, the effects left and what follows them cost. -/
def dispatchRank (d : Driver) (tr : Transition) (rest : List Effect) (resume : Resume) : Nat :=
  effectsRank (tr.effects ++ rest) + resume.rank tr.next.state + tr.next.queueRank d.inbound

/-- The snapshot takes what was buffered out again. -/
theorem discovered_rank_lt {snapshot : YnabSnapshot} {hold : Bool}
    (hstate : d.txn.state = .discovered)
    (hadv : advance m.now defaultPolicy d.txn (.snapshotMaterialized snapshot hold) = .ok tr) :
    d.dispatchRank tr [] .nextStep < 21 + d.txn.queueRank d.inbound := by
  cases htxn : d.txn with
  | discovered s =>
    have hreplay : effectsRank (replayPending s.pending ++ []) = 16 * s.pending.length := by
      rw [List.append_nil, effectsRank_replayPending]
    rw [htxn] at hadv
    cases hold with
    | true =>
      cases hadv
      show 1 + effectsRank (replayPending s.pending ++ []) + 18 + 16 * d.inbound.length <
        21 + (18 * d.inbound.length + 16 * s.pending.length)
      omega
    | false =>
      cases hadv
      show effectsRank (replayPending s.pending ++ []) + 15 + 16 * d.inbound.length <
        21 + (18 * d.inbound.length + 16 * s.pending.length)
      omega
  | _ => rw [htxn] at hstate; cases hstate

/-- The gate writes or proposes. -/
theorem enriched_rank_lt {outcome : EnrichmentOutcome} {s : Enriching}
    (htxn : d.txn = .enriching s)
    (hadv : advance m.now defaultPolicy d.txn (.enriched outcome) = .ok tr) :
    d.dispatchRank tr [] .nextStep < 15 + d.txn.queueRank d.inbound := by
  rw [htxn] at hadv ⊢
  cases outcome with
  | autoApply decision =>
    obtain ⟨a, -, h⟩ := Lib.bind_eq_ok hadv
    cases h
    exact Nat.add_lt_add_right (by decide : 6 + 8 < 15) _
  | askHuman proposal =>
    cases hadv
    have hproposal : (proposalEffect s.core).rank = 1 := by
      unfold proposalEffect
      split <;> rfl
    show (proposalEffect s.core).rank + 1 + 8 + 16 * d.inbound.length < 15 + 16 * d.inbound.length
    omega

theorem replied_rank_lt {outcome : ReplyOutcome} {s : AwaitingHuman}
    (htxn : d.txn = .awaitingHuman s)
    (hadv : advance m.now defaultPolicy d.txn (replyEvent outcome) = .ok tr) :
    d.dispatchRank tr [] .nextStep < 15 + d.txn.queueRank d.inbound := by
  rw [htxn] at hadv ⊢
  cases outcome with
  | answer decision =>
    obtain ⟨a, -, h⟩ := Lib.bind_eq_ok hadv
    cases h
    exact Nat.add_lt_add_right (by decide : 6 + 8 < 15) _
  | clarify question =>
    cases hadv
    exact Nat.add_lt_add_right (by decide : 2 + 8 < 15) _

theorem converged_rank_lt {outcome : ConvergeOutcome} {s : Revising} (htxn : d.txn = .revising s)
    (hadv : advance m.now defaultPolicy d.txn (.converged outcome) = .ok tr) :
    d.dispatchRank tr [] .nextStep < 12 + d.txn.queueRank d.inbound := by
  rw [htxn] at hadv ⊢
  cases outcome with
  | reapplied decision =>
    obtain ⟨o, -, h⟩ := Lib.bind_eq_ok hadv
    cases h
    exact Nat.add_lt_add_right (by decide : 3 + 5 < 12) _
  | noChange =>
    simp only [advance, fromRevising] at hadv
    unfold resolveNoChange at hadv
    split at hadv
    · obtain ⟨o, -, h⟩ := Lib.bind_eq_ok hadv
      cases h
      exact Nat.add_lt_add_right (by decide : 1 + 5 < 12) _
    · cases hadv
      exact Nat.add_lt_add_right (by decide : 1 + 8 < 12) _
  | _ =>
    cases hadv
    exact Nat.add_lt_add_right (by decide : 2 + 8 < 12) _

/-- A verification opens the transaction or hands it to its owner, and what the write left to
execute follows. -/
theorem verified_rank_lt {outcome : VerifyOutcome} (hresume : resume.Fits)
    (hadv : advance m.now defaultPolicy d.txn (.writeVerified outcome) = .ok tr) :
    d.dispatchRank tr rest resume <
      4 + effectsRank rest + resume.rank d.txn.state + d.txn.queueRank d.inbound := by
  have hmove := advance_move hadv
  have hnext := hresume.rank_le tr.next.state
  unfold dispatchRank
  rw [effectsRank_append]
  generalize d.txn = txn at hmove
  generalize tr.next = next at hmove hnext
  generalize tr.effects = effects at hmove
  generalize hevent : LifecycleEvent.writeVerified outcome = event at hmove
  cases hmove with
  | stay => rw [show effectsRank [] = 0 from rfl]; omega
  | @verified txn core decision message learning hw o hcore hdecision =>
    have hwritten : txn.state.written = true := by cases hw <;> rfl
    have hqueue : txn.queueRank d.inbound = 16 * d.inbound.length := by cases hw <;> rfl
    have hfeed : effectsRank (writeFeed core decision learning ++ [.sendThreadMessage message none
        (some decision), .setTimer .archive (m.now + defaultPolicy.archiveWindow)]) ≤ 3 := by
      rw [effectsRank_append]
      cases learning with
      | none => exact (by decide : 0 + 2 ≤ 3)
      | some kind => exact Nat.le_refl 3
    have hopen : (Transaction.opened o).state.rank = 5 := rfl
    rw [hresume.rank_written hwritten, hqueue]
    show _ + _ + 16 * d.inbound.length < _
    omega
  | @unverified txn core decision message learning hw outcome houtcome flag note hnote =>
    have hwritten : txn.state.written = true := by cases hw <;> rfl
    have hqueue : txn.queueRank d.inbound = 16 * d.inbound.length := by cases hw <;> rfl
    rw [hresume.rank_written hwritten, hqueue]
    have hawait : resume.rank .awaitingHuman ≤ 8 := hnext
    show 2 + effectsRank rest + resume.rank .awaitingHuman + 16 * d.inbound.length < _
    omega
  | _ => cases hevent

/-- An inbound leaves the queue for the buffer, is put back before an enrichment, or is revised. -/
theorem received_rank_lt {w : Wait} {signal : InboundSignal} {queue : List InboundSignal}
    (hfits : w.Fits d.txn.state) (hw : ∀ deadline, w ≠ .patience deadline ∧ w ≠ .reply)
    (hadv : advance m.now defaultPolicy d.txn (.inboundReceived signal) = .ok tr) :
    { d with inbound := queue }.dispatchRank tr [] .nextStep <
      w.rank + d.txn.queueRank (signal :: queue) := by
  cases htxn : d.txn with
  | discovered s =>
    rw [htxn] at hadv hfits
    cases hadv
    have hwait : w.rank = 21 := by
      cases w with
      | discovered => rfl
      | hold deadline => cases hfits
      | patience deadline => cases hfits
      | reply => cases hfits
      | _ => rcases hfits with h | h <;> cases h
    show 0 + 22 + (18 * queue.length + 16 * (s.pending ++ [signal]).length) <
      w.rank + (18 * (queue.length + 1) + 16 * s.pending.length)
    rw [hwait, List.length_append, List.length_singleton]
    omega
  | holdAmazon s =>
    rw [htxn] at hadv hfits
    cases hadv
    have hwait : w.rank = 18 := by
      cases w with
      | hold deadline => rfl
      | discovered => cases hfits
      | patience deadline => cases hfits
      | reply => cases hfits
      | _ => rcases hfits with h | h <;> cases h
    show 1 + 16 + 15 + 16 * queue.length < w.rank + 16 * (queue.length + 1)
    omega
  | opened s =>
    rw [htxn] at hadv
    cases hadv
    show 1 + 12 + 16 * queue.length < w.rank + 16 * (queue.length + 1)
    omega
  | lapsed s =>
    rw [htxn] at hadv
    cases hadv
    show 1 + 12 + 16 * queue.length < w.rank + 16 * (queue.length + 1)
    omega
  | _ =>
    rw [htxn] at hfits
    rcases Wait.Fits.takes hfits hw with h | h | h | h <;> cases h

/-- The hold ends with the order, or with its deadline. -/
theorem held_rank_lt
    (hevent : event = .holdDeadlineReached ∨ ∃ snapshot, event = .holdResolved snapshot)
    (hstate : d.txn.state = .holdAmazon)
    (hadv : advance m.now defaultPolicy d.txn event = .ok tr) :
    d.dispatchRank tr [] .nextStep < 18 + d.txn.queueRank d.inbound := by
  cases htxn : d.txn with
  | holdAmazon s =>
    rw [htxn] at hadv
    rcases hevent with rfl | ⟨snapshot, rfl⟩
    · cases hadv
      exact Nat.add_lt_add_right (by decide : 0 + 15 < 18) _
    · cases hadv
      exact Nat.add_lt_add_right (by decide : 1 + 15 < 18) _
  | _ => rw [htxn] at hstate; cases hstate

/-- The patience runs out once: the transaction lapses, or waits for its reply alone. -/
theorem patience_rank_lt (hstate : d.txn.state = .awaitingHuman)
    (hadv : advance m.now defaultPolicy d.txn .patienceExpired = .ok tr) :
    d.dispatchRank tr [] (.unlessLeft .awaitingHuman .patience .reply) <
      8 + d.txn.queueRank d.inbound := by
  cases htxn : d.txn with
  | awaitingHuman s =>
    rw [htxn] at hadv
    simp only [advance, fromAwaitingHuman] at hadv
    split at hadv
    · cases hadv
      exact Nat.add_lt_add_right (by decide : 0 + 0 < 8) _
    · cases hadv
      exact Nat.add_lt_add_right (by decide : 2 + 5 < 8) _
  | _ => rw [htxn] at hstate; cases hstate

/-- The archive window ends once: the book is closed, or an inbound is waited for alone. -/
theorem archive_rank_lt {s : Open} {target? : Option TargetState} (htxn : d.txn = .opened s)
    (hadv : advance m.now defaultPolicy d.txn (archiveOrOverride s.decision target? m.now) =
      .ok tr) :
    d.dispatchRank tr [] (.unlessLeft .open .archive .blocked) < 4 + d.txn.queueRank d.inbound := by
  have hmove := advance_move hadv
  unfold dispatchRank
  rw [htxn] at hmove ⊢
  rw [List.append_nil]
  generalize tr.next = next at hmove
  generalize tr.effects = effects at hmove
  rcases archiveOrOverride_event s.decision target? m.now with hevent | ⟨choice, hevent⟩
  · rw [hevent] at hmove
    cases hmove with
    | stay => exact Nat.add_lt_add_right (by decide : 0 + 0 < 4) _
    | archive s a hcore hfinal => exact Nat.add_lt_add_right (by decide : 1 + 0 < 4) _
  · rw [hevent] at hmove
    cases hmove with
    | stay => exact Nat.add_lt_add_right (by decide : 0 + 0 < 4) _
    | override s decision o hcore hdecision => exact Nat.add_lt_add_right (by decide : 2 + 0 < 4) _
    | overrideArchive s decision a hcore hfinal =>
      exact Nat.add_lt_add_right (by decide : 3 + 0 < 4) _

theorem lapsed_rank_lt (hstate : d.txn.state = .lapsed)
    (hadv : advance m.now defaultPolicy d.txn .archiveWindowReached = .ok tr) :
    d.dispatchRank tr [] (.unlessLeft .lapsed .archive .blocked) <
      5 + d.txn.queueRank d.inbound := by
  have hmove := advance_move hadv
  unfold dispatchRank
  rw [List.append_nil]
  generalize tr.next = next at hmove
  generalize tr.effects = effects at hmove
  cases htxn : d.txn with
  | lapsed s =>
    rw [htxn] at hmove
    cases hmove with
    | stay => exact Nat.add_lt_add_right (by decide : 0 + 0 < 5) _
    | archiveNotice s => exact Nat.add_lt_add_right (by decide : 1 + 0 < 5) _
    | archiveLapsed s a hcore hfinal => exact Nat.add_lt_add_right (by decide : 1 + 0 < 5) _
  | _ => rw [htxn] at hstate; cases hstate

/-- **A dispatch costs less than what it was fed from.** -/
theorem Feeds.rank_lt (h : Feeds text digest d act m event rest resume d₁)
    (hfits : d.pc.Fits d.txn) (hsettles : d.pc.Settles d.txn)
    (hadv : advance m.now defaultPolicy d₁.txn event = .ok tr) :
    d₁.dispatchRank tr rest resume < d.rank := by
  unfold rank
  cases h with
  | fetched m snapshot hpc =>
    rw [hpc] at hfits ⊢
    exact Nat.lt_trans (discovered_rank_lt hfits.1 hadv)
      (Nat.add_lt_add_right (by decide : 21 < 22) _)
  | unavailable m hpc =>
    rw [hpc] at hfits ⊢
    have hstate : d.txn.state = .discovered := hfits.1
    cases htxn : d.txn with
    | discovered s =>
      rw [htxn] at hadv
      cases hadv
      exact Nat.add_lt_add_right (by decide : 0 + 21 < 22) _
    | _ => rw [htxn] at hstate; cases hstate
  | enriched m outcome hpc =>
    rw [hpc] at hsettles ⊢
    obtain ⟨s, htxn⟩ := hsettles.1
    exact enriched_rank_lt htxn hadv
  | interpreted m outcome hpc =>
    rw [hpc] at hsettles ⊢
    obtain ⟨s, htxn⟩ := hsettles.1
    exact replied_rank_lt htxn hadv
  | @converged snapshot instruction prior rest resume m outcome hpc =>
    rw [hpc] at hfits ⊢
    obtain ⟨s, htxn, -⟩ := hfits.1
    exact converged_rank_lt (d := { d with consumed := d.consumed ++ [instruction] }) htxn hadv
  | verified m target? hpc =>
    rw [hpc] at hfits ⊢
    exact verified_rank_lt hfits.2.2 hadv
  | reread m target? s hpc htxn =>
    rw [hpc]
    exact archive_rank_lt htxn hadv
  | notified m snapshot hpc hready =>
    rw [hpc] at hfits ⊢
    exact discovered_rank_lt (d := { d with snapshotReady := none }) hfits hadv
  | backfilled m snapshot hpc hready =>
    rw [hpc] at hfits ⊢
    exact held_rank_lt (d := { d with snapshotReady := none }) (.inr ⟨snapshot, rfl⟩) hfits hadv
  | received m hpc hw hqueue =>
    rw [hpc] at hfits ⊢
    rw [hqueue]
    exact received_rank_lt hfits hw hadv
  | holdOver m hpc =>
    rw [hpc] at hfits ⊢
    exact held_rank_lt (.inl rfl) hfits hadv
  | patienceOver m hpc =>
    rw [hpc] at hfits ⊢
    exact patience_rank_lt hfits hadv
  | archiveDue m hpc htxn =>
    rw [hpc] at hfits ⊢
    have hstate : d.txn.state = .open ∨ d.txn.state = .lapsed := hfits
    rcases hstate with hopen | hlapsed
    · cases hd : d.txn with
      | opened s => exact absurd hd (htxn s)
      | _ => rw [hd] at hopen; cases hopen
    · exact lapsed_rank_lt hlapsed hadv

/-! ## A driver that can go on -/

/-- A write under way is awaited, and YNAB is read again in `OPEN` alone. -/
def Able (d : Driver) : Prop :=
  match d.pc with
  | .calling c _ _ =>
    (d.txn.state.written = true → c.writes = true) ∧
      (c = .readBack none → ∃ s, d.txn = .opened s)
  | .stuck => False
  | _ => True

theorem finish_able (hwritten : d.txn.state.written = false) (m : Moment) (resume : Resume) :
    (d.finish m resume).Able := by
  have hcalls := finish_settles m d resume
  have hstuck : (d.finish m resume).pc ≠ .stuck := by
    have hbegin : ∀ d' : Driver, d'.txn = d.txn → d'.beginStep.pc ≠ .stuck := by
      intro d' htxn
      unfold beginStep
      rw [htxn]
      cases hd : d.txn with
      | autoApplied s => rw [hd] at hwritten; cases hwritten
      | applied s => rw [hd] at hwritten; cases hwritten
      | _ => exact Suspended.noConfusion
    have hend : (d.endStep m).pc ≠ .stuck := by
      unfold endStep
      split
      · exact hbegin (syncThreadId
          { txn := d.txn, ynabId := d.ynabId, threadId := d.threadId, deadlines := d.deadlines,
            inbound := d.inbound, actionSeq := d.actionSeq }) rfl
      · exact hbegin d rfl
    cases resume with
    | nextStep => exact hend
    | awaitSnapshot => exact Suspended.noConfusion
    | unlessLeft before timer w =>
      simp only [finish]
      split
      · exact Suspended.noConfusion
      · exact hend
  unfold Able
  rw [finish_txn, hwritten]
  cases hpc : (d.finish m resume).pc with
  | calling c rest resume' =>
    refine ⟨fun h => absurd h Bool.false_ne_true, ?_⟩
    rintro rfl
    cases hcalls.2 _ _ _ hpc
  | stuck => exact absurd hpc hstuck
  | _ => trivial

/-- An execution leaves the driver able to go on, if a state that waits for a verification was
entered with its write. -/
theorem execute_able
    (heffects : d.txn.state.written = true →
      ∃ decision rest, effects = .commitToYnab decision :: rest) :
    (d.execute m resume effects).Able := by
  by_cases hwritten : d.txn.state.written = true
  · obtain ⟨decision, rest, rfl⟩ := heffects hwritten
    exact ⟨fun _ => rfl, fun h => by cases h⟩
  · have hunwritten : d.txn.state.written = false := Bool.eq_false_iff.2 hwritten
    have hexec := execute_cases m resume effects d
    generalize d.execute m resume effects = d' at hexec
    cases hexec with
    | finished hsame =>
      refine finish_able ?_ m resume
      rw [hsame.txn_eq]
      exact hunwritten
    | @awaits before e rest c d₁ d₂ heq hsame hperform =>
      have htxn := perform_txn d₁ e
      rw [hperform] at htxn
      have htxn₂ : d₂.txn = d.txn := htxn.trans hsame.txn_eq
      show (d₂.txn.state.written = true → _) ∧ _
      rw [htxn₂, hunwritten]
      refine ⟨fun h => absurd h Bool.false_ne_true, ?_⟩
      rintro rfl
      have hread := perform_cases d₁ e
      rw [hperform] at hread
      cases hread with
      | awaits _ _ _ _ hread _ => exact absurd rfl hread

/-- What holds of a driver wherever it is suspended. -/
structure Steady (d : Driver) : Prop where
  calling : d.Calling
  fits : d.pc.Fits d.txn
  settles : d.pc.Settles d.txn
  priorCommitted : PriorCommitted d.txn
  able : d.Able

/-- The events a step feeds are sound. -/
def Heeded (text : PyText) (digest : TargetState → δ) (d : Driver) (act : Act) : Prop :=
  ∀ m event rest resume d₁, Feeds text digest d act m event rest resume d₁ → Sound d₁.txn event

theorem Feeds.able (h : Feeds text digest d act m event rest resume d₁) (hd : d.Steady)
    (hadv : advance m.now defaultPolicy d₁.txn event = .ok tr) :
    ((syncThreadId { d₁ with txn := tr.next }).execute m resume (tr.effects ++ rest)).Able := by
  refine execute_able fun hnext => ?_
  rcases (advance_move hadv).written hnext with ⟨hwritten, -⟩ | ⟨decision, left, heffects⟩
  · -- Only a verification is fed to a state that waits for one, and it leaves it.
    rw [h.same.txn_eq] at hwritten
    have hable := hd.able
    unfold Able at hable
    have hfits := hd.fits
    cases h with
    | verified m target? hpc =>
      have hleft := advance_verified hadv
      rw [show tr.next.state.written = true from hnext] at hleft
      cases hleft
    | fetched m snapshot hpc => rw [hpc] at hable; cases hable.1 hwritten
    | unavailable m hpc => rw [hpc] at hable; cases hable.1 hwritten
    | enriched m outcome hpc => rw [hpc] at hable; cases hable.1 hwritten
    | interpreted m outcome hpc => rw [hpc] at hable; cases hable.1 hwritten
    | converged m outcome hpc => rw [hpc] at hable; cases hable.1 hwritten
    | reread m target? s hpc htxn => rw [htxn] at hwritten; cases hwritten
    | received m hpc hw hqueue =>
      rw [hpc] at hfits
      rcases Wait.Fits.takes hfits hw with hs | hs | hs | hs <;> rw [hs] at hwritten <;>
        cases hwritten
    | notified m snapshot hpc hready =>
      rw [hpc] at hfits
      rw [show d.txn.state = _ from hfits] at hwritten
      cases hwritten
    | backfilled m snapshot hpc hready =>
      rw [hpc] at hfits
      rw [show d.txn.state = _ from hfits] at hwritten
      cases hwritten
    | holdOver m hpc =>
      rw [hpc] at hfits
      rw [show d.txn.state = _ from hfits] at hwritten
      cases hwritten
    | patienceOver m hpc =>
      rw [hpc] at hfits
      rw [show d.txn.state = _ from hfits] at hwritten
      cases hwritten
    | archiveDue m hpc htxn =>
      rw [hpc] at hfits
      rcases hfits with hs | hs <;> rw [hs] at hwritten <;> cases hwritten
  · exact ⟨decision, left ++ rest, by rw [heffects]; rfl⟩

/-- Going on with the effects left after an activity that does not write. -/
theorem Steady.rest_able (hd : d.Steady) {c : Call} (hpc : d.pc = .calling c rest resume)
    (hc : c.writes = false) {d₁ : Driver} (hstate : d₁.txn.state = d.txn.state) :
    (d₁.execute m resume rest).Able := by
  refine execute_able fun hwritten => ?_
  have hable := hd.able
  unfold Able at hable
  rw [hpc] at hable
  rw [hable.1 (hstate ▸ hwritten)] at hc
  cases hc

theorem Call.writes_of_plain {c : Call} (hc : c.plain = true) : c.writes = false := by
  cases c with
  | commitToYnab decision => cases hc
  | readBack written => cases hc
  | _ => rfl

/-- A driver stays able to go on, as long as the events it feeds are sound. -/
theorem Turn.able (h : Turn text digest d act d') (hd : d.Steady)
    (hheeded : Heeded text digest d act) : d'.Able := by
  cases h with
  | accept signal hopen => exact hd.able
  | notify snapshot hopen => exact hd.able
  | fed hfeeds hadv => exact hfeeds.able hd hadv
  | raised hfeeds herr =>
    have hprior := hd.priorCommitted
    rw [← hfeeds.same.txn_eq] at hprior
    obtain ⟨tr, hadv⟩ := (advance_returns_iff_sound hprior).2 (hheeded _ _ _ _ _ hfeeds)
    rw [herr] at hadv
    cases hadv
  | interpret m hpc htxn hqueue =>
    refine ⟨?_, fun h => by cases h⟩
    intro hwritten
    have hstate : d.txn.state.written = true := hwritten
    rw [htxn] at hstate
    cases hstate
  | @reread deadline s m hpc htxn =>
    refine ⟨?_, fun _ => ⟨s, htxn⟩⟩
    intro hwritten
    have hstate : d.txn.state.written = true := hwritten
    rw [htxn] at hstate
    cases hstate
  | committed m hpc => exact ⟨fun _ => rfl, fun h => by cases h⟩
  | opened m threadId hpc =>
    have hstate : (d.setThreadId threadId).txn.state = d.txn.state :=
      d.txn.withThread_state threadId
    exact hd.rest_able hpc rfl hstate
  | wentOn m hpc hc => exact hd.rest_able hpc (Call.writes_of_plain hc) rfl
  | unrecorded m hpc => exact hd.rest_able hpc rfl rfl
  | failed m hpc => trivial

theorem Turn.priorCommitted (h : Turn text digest d act d') (hd : PriorCommitted d.txn) :
    PriorCommitted d'.txn := by
  cases h with
  | fed hfeeds hadv =>
    rw [execute_txn]
    rw [← hfeeds.same.txn_eq] at hd
    exact (advance_move hadv).priorCommitted hd
  | opened m threadId hpc =>
    rw [execute_txn]
    exact hd.withThread threadId
  | wentOn m hpc hc => rw [execute_txn]; exact hd
  | unrecorded m hpc => rw [execute_txn]; exact hd
  | _ => exact hd

/-- **One step** keeps the driver steady, as long as the events it feeds are sound. -/
theorem Turn.steady (h : Turn text digest d act d') (hd : d.Steady)
    (hheeded : Heeded text digest d act) : d'.Steady where
  calling := h.calling hd.calling
  fits := h.fits hd.fits
  settles := h.settles hd.settles
  priorCommitted := h.priorCommitted hd.priorCommitted
  able := h.able hd hheeded

theorem start_steady (ynabId : YnabTransactionId) (threadId : Option ThreadId) :
    (start { ynabId, threadId }).Steady where
  calling := start_calls ynabId threadId
  fits := ⟨rfl, calm_nil, trivial⟩
  settles := ⟨trivial, by simp [Settled]⟩
  priorCommitted := trivial
  able := ⟨nofun, nofun⟩

/-! ## Coming to rest -/

/-- The steps that need no signal: an activity returns, a wait ends. -/
def Act.driven : Act → Bool
  | .returned _ _ | .wake _ | .timeout _ => true
  | _ => false

/-- **The rank** goes down with every step that needs no signal. -/
theorem Turn.rank_lt (h : Turn text digest d act d') (hd : d.Steady)
    (hheeded : Heeded text digest d act) (hdriven : act.driven = true) : d'.rank < d.rank := by
  cases h with
  | accept signal hopen => cases hdriven
  | notify snapshot hopen => cases hdriven
  | @fed act m event rest resume d₁ tr hfeeds hadv =>
    refine Nat.lt_of_le_of_lt (execute_rank ?_) (hfeeds.rank_lt hd.fits hd.settles hadv)
    intro hdiscovered
    obtain ⟨hstate, heffects⟩ := (advance_move hadv).discovered hdiscovered
    rw [hfeeds.same.txn_eq] at hstate
    rw [heffects, (hfeeds.trailing hd.calling).2 hstate]
    rfl
  | raised hfeeds herr =>
    have hable := (Turn.raised hfeeds herr).able hd hheeded
    exact hable.elim
  | @interpret w s signal queue m hpc htxn hqueue =>
    unfold rank
    rw [hpc, hqueue, htxn]
    show 15 + d.txn.queueRank queue < w.rank + 16 * (queue.length + 1)
    rw [htxn]
    show 15 + 16 * queue.length < w.rank + 16 * (queue.length + 1)
    omega
  | reread m hpc htxn =>
    unfold rank
    rw [hpc]
    exact Nat.add_lt_add_right (by decide : 4 < 5) _
  | @committed decision rest resume m hpc =>
    unfold rank
    rw [hpc]
    show 4 + effectsRank rest + resume.rank d.txn.state + _ <
      5 + effectsRank rest + resume.rank d.txn.state + _
    have hsame : (d.call (.readBack (some decision)) rest resume).txn.queueRank
        (d.call (.readBack (some decision)) rest resume).inbound = d.txn.queueRank d.inbound := rfl
    omega
  | @opened proposal purpose detail decision rest resume m threadId hpc =>
    have hmade := (hd.calling.made _ _ _ hpc).1.1
    have hstate : (d.setThreadId threadId).txn.state = d.txn.state :=
      d.txn.withThread_state threadId
    have hexec : ((d.setThreadId threadId).execute m resume rest).rank ≤ effectsRank rest +
        resume.rank (d.setThreadId threadId).txn.state +
        (d.setThreadId threadId).txn.queueRank (d.setThreadId threadId).inbound :=
      execute_rank fun h => absurd (hstate ▸ h) hmade
    rw [hstate, queueRank_of_ne (hstate ▸ hmade)] at hexec
    unfold rank at hexec ⊢
    rw [hpc, queueRank_of_ne hmade]
    show _ < 1 + effectsRank rest + resume.rank d.txn.state + 16 * d.inbound.length
    have hqueue : (d.setThreadId threadId).inbound = d.inbound := rfl
    rw [hqueue] at hexec
    omega
  | @wentOn c rest resume m hpc hc =>
    have hmade := hd.calling.plain hpc hc
    have hexec : (d.execute m resume rest).rank ≤
        effectsRank rest + resume.rank d.txn.state + d.txn.queueRank d.inbound :=
      execute_rank fun h => absurd h hmade
    have hcall : d.pc.rank d.txn.state = 1 + effectsRank rest + resume.rank d.txn.state := by
      rw [hpc]
      cases c with
      | sendThreadMessage threadId purpose actionSeq proposal detail decision => rfl
      | feedRuleLearning feed => rfl
      | recordAutoAction ynabId => rfl
      | closeThread threadId => rfl
      | _ => cases hc
    have hrank : d.rank = d.pc.rank d.txn.state + d.txn.queueRank d.inbound := rfl
    omega
  | unrecorded m hpc => cases hdriven
  | failed m hpc => cases hdriven

/-- The results an activity can return. -/
def Call.returns : Call → ActivityResult → Bool
  | .fetchSnapshot, .snapshot _ | .enrich _, .enriched _ | .interpretInbound _ _ _, .interpreted _
  | .converge _ _ _, .converged _ | .readBack _, .read _ | .openThread _ _ _ _, .thread _
  | .commitToYnab _, .done | .sendThreadMessage _ _ _ _ _ _, .done | .feedRuleLearning _, .done
  | .recordAutoAction _, .done | .closeThread _, .done => true
  | _, _ => false

/-- The driver has completed, or it is in a wait that neither an inbound nor a deadline ends. -/
def Rests (text : PyText) (digest : TargetState → δ) (m : Moment) (d : Driver) : Prop :=
  d.closed = true ∨ ∃ w, d.pc = .waiting w ∧ d.step text digest (.wake m) = none ∧
    d.step text digest (.timeout m) = none

/-- The driver goes on: whatever its activity returns, or out of its wait. -/
inductive Goes (text : PyText) (digest : TargetState → δ) (m : Moment) (d : Driver) : Prop
  | calling {c : Call} {rest : List Effect} {resume : Resume} (hpc : d.pc = .calling c rest resume)
      (h : ∀ result, Call.returns c result = true →
        ∃ d', d.step text digest (.returned m result) = some d')
  | waiting {w : Wait} (hpc : d.pc = .waiting w)
      (h : ∃ act d', (act = .wake m ∨ act = .timeout m) ∧ d.step text digest act = some d')

/-- A driver able to go on rests, or goes on. -/
theorem Steady.rests_or_goes (hd : d.Steady) (m : Moment) :
    Rests text digest m d ∨ Goes text digest m d := by
  have hable := hd.able
  unfold Able at hable
  cases hpc : d.pc with
  | completed => exact .inl (.inl (by unfold closed; rw [hpc]))
  | failed => exact .inl (.inl (by unfold closed; rw [hpc]))
  | stuck => rw [hpc] at hable; exact hable.elim
  | waiting w =>
    cases hwake : d.step text digest (.wake m) with
    | some d' => exact .inr (.waiting hpc ⟨_, d', .inl rfl, hwake⟩)
    | none =>
      cases htimeout : d.step text digest (.timeout m) with
      | some d' => exact .inr (.waiting hpc ⟨_, d', .inr rfl, htimeout⟩)
      | none => exact .inl (.inr ⟨w, hpc, hwake, htimeout⟩)
  | calling c rest resume =>
    rw [hpc] at hable
    refine .inr (.calling hpc fun result hresult => ?_)
    simp only [step, hpc]
    cases c with
    | readBack written =>
      cases written with
      | some decision => cases result <;> first | exact ⟨_, rfl⟩ | cases hresult
      | none =>
        obtain ⟨s, htxn⟩ := hable.2 rfl
        cases result with
        | read target? =>
          simp only [onReturn, htxn]
          exact ⟨_, rfl⟩
        | _ => cases hresult
    | fetchSnapshot =>
      cases result with
      | snapshot snapshot? => cases snapshot? <;> exact ⟨_, rfl⟩
      | _ => cases hresult
    | _ => cases result <;> first | exact ⟨_, rfl⟩ | cases hresult

/-! ### Acts that bring no decision -/

/-- No ruling, answer or re-application, and no read of YNAB. -/
def Act.undecided : Act → Bool
  | .returned _ (.enriched (.autoApply _)) | .returned _ (.interpreted (.answer _))
  | .returned _ (.converged (.reapplied _)) | .returned _ (.read _) => false
  | _ => true

theorem heeded_of_undecided (h : act.undecided = true) : Heeded text digest d act := by
  intro m event rest resume d₁ hfeeds
  cases hfeeds with
  | enriched m outcome hpc =>
    cases outcome with
    | autoApply decision => cases h
    | askHuman proposal => cases d.txn <;> trivial
  | interpreted m outcome hpc =>
    cases outcome with
    | answer decision => cases h
    | clarify question => cases d.txn <;> trivial
  | @converged snapshot instruction prior rest resume m outcome hpc =>
    show Sound d.txn (.converged outcome)
    cases outcome with
    | reapplied decision => cases h
    | _ => cases d.txn <;> trivial
  | verified m target? hpc => cases h
  | reread m target? s hpc htxn => cases h
  | _ =>
    show Sound d.txn _
    cases d.txn <;> trivial

end turns

end Driver

/-! ## Runs -/

section runs
variable {text : PyText} {δ : Type} [DecidableEq δ] {digest : TargetState → δ}
  {ynabId : YnabTransactionId} {threadId : Option ThreadId} {beats more : List DriverBeat}
  {d d' : Driver}

theorem Driver.Steady.run (h : Driver.Run text digest d more d') (hd : d.Steady)
    (hheeded : ∀ beat ∈ more, Driver.Heeded text digest beat.pre beat.act) : d'.Steady := by
  refine h.invariant_of ?_ hheeded hd
  rintro d beat d' hsteady hbeat hstep
  cases hstep with
  | step hs => exact (Driver.step_turn hs).steady hsteady hbeat

/-- **Coming to rest.** From a reachable driver, whatever its timers and its queue: the steps it
takes without a signal are no more than its rank, and wherever they have led it rests or goes on, as
long as no event brings an unsound decision. -/
theorem comes_to_rest
    (h : Driver.Run text digest (Driver.start { ynabId := ynabId, threadId := threadId }) beats d)
    (hmore : Driver.Run text digest d more d')
    (hdriven : ∀ beat ∈ more, beat.act.driven = true)
    (hheeded : ∀ beat ∈ beats ++ more, Driver.Heeded text digest beat.pre beat.act) :
    more.length ≤ d.rank ∧
      ∀ m, Driver.Rests text digest m d' ∨ Driver.Goes text digest m d' := by
  have hbefore := (Driver.start_steady ynabId threadId).run h
    fun beat hbeat => hheeded beat (List.mem_append_left _ hbeat)
  have hafter := hbefore.run hmore fun beat hbeat => hheeded beat (List.mem_append_right _ hbeat)
  refine ⟨?_, hafter.rests_or_goes⟩
  refine hmore.length_le (I := Driver.Steady)
    (C := fun beat => beat.act.driven = true ∧ Driver.Heeded text digest beat.pre beat.act) ?_ ?_
    hbefore
  · rintro d beat d' hsteady ⟨hact, hbeat⟩ hstep
    cases hstep with
    | step hs =>
      have hturn := Driver.step_turn hs
      exact ⟨hturn.steady hsteady hbeat, hturn.rank_lt hsteady hbeat hact⟩
  · intro beat hbeat
    exact ⟨hdriven beat hbeat, hheeded beat (List.mem_append_right _ hbeat)⟩

/-- An unanswered proposal lapses and is archived in four steps, and the run is over. -/
theorem comes_to_rest_archived :
    ∃ beats d more d', Driver.Run PyText.ascii (fun t : TargetState => t)
      (Driver.start { ynabId := "y1" }) beats d ∧
      Driver.Run PyText.ascii (fun t : TargetState => t) d more d' ∧
      d.txn.state = .awaitingHuman ∧ d'.pc = .completed ∧ more.length = 4 ∧ more.length ≤ d.rank ∧
      ∀ m, Driver.Rests PyText.ascii (fun t : TargetState => t) m d' ∨
        Driver.Goes PyText.ascii (fun t : TargetState => t) m d' := by
  have hexec : ∃ beats d more d', Lib.exec (Driver.step PyText.ascii fun t : TargetState => t)
      (Driver.start { ynabId := "y1" }) (lapsedToArchive.take 7) = some (beats, d) ∧
      Lib.exec (Driver.step PyText.ascii fun t : TargetState => t) d
        (lapsedToArchive.drop 7 ++ [.returned ⟨Timedelta.days 40, 0⟩ .done]) = some (more, d') ∧
      d.txn.state = .awaitingHuman ∧ d'.pc = .completed ∧ more.length = 4 ∧
      more.all (fun beat => beat.act.driven) = true ∧
      (beats ++ more).all (fun beat => beat.act.undecided) = true :=
    ⟨_, _, _, _, rfl, rfl, rfl, rfl, rfl, rfl, rfl⟩
  obtain ⟨beats, d, more, d', hexec, hmore, hstate, hpc, hlength, hdriven, hquiet⟩ := hexec
  have hrun := Lib.exec_run hexec
  have hrun' := Lib.exec_run hmore
  obtain ⟨hbound, hrest⟩ := comes_to_rest hrun hrun' (List.all_eq_true.1 hdriven)
    fun beat hbeat => Driver.heeded_of_undecided (List.all_eq_true.1 hquiet beat hbeat)
  exact ⟨beats, d, more, d', hrun, hrun', hstate, hpc, hlength, hbound, hrest⟩

end runs

/-! ## An override the driver cannot get past -/

/-- The charge is proposed and answered, and the answer reads back. -/
def answered : List Driver.Act :=
  [.returned ⟨0, 0⟩ (.snapshot (some cafeSnapshot)),
    .returned ⟨0, 0⟩ (.enriched (.askHuman cafeProposal)), .returned ⟨0, 0⟩ (.thread "t1"),
    .submitInbound diningReply, .wake ⟨1, 0⟩,
    .returned ⟨1, 0⟩ (.interpreted (.answer (humanDecision "dining" 1 none))),
    .returned ⟨1, 0⟩ .done,
    .returned ⟨1, 0⟩ (.read (some { allocation := .category "dining" none, approved := true })),
    .returned ⟨1, 0⟩ .done, .returned ⟨1, 0⟩ .done]

/-- The archive window ends on an unapproved recategorization: the machine raises, and the driver
neither rests nor goes on. -/
theorem driver_stuck_on_override :
    ∃ beats d more d', Driver.Run PyText.ascii (fun t : TargetState => t)
      (Driver.start { ynabId := "y1" }) beats d ∧ d.inbound = [] ∧
      Driver.Run PyText.ascii (fun t : TargetState => t) d more d' ∧
      (∀ beat ∈ more, beat.act.driven = true) ∧
      ∀ m, ¬ Driver.Rests PyText.ascii (fun t : TargetState => t) m d' ∧
        ¬ Driver.Goes PyText.ascii (fun t : TargetState => t) m d' := by
  have hexec : ∃ beats d more d', Lib.exec (Driver.step PyText.ascii fun t : TargetState => t)
      (Driver.start { ynabId := "y1" }) answered = some (beats, d) ∧ d.inbound = [] ∧
      Lib.exec (Driver.step PyText.ascii fun t : TargetState => t) d
        [.timeout ⟨Timedelta.days 60, 0⟩, .returned ⟨Timedelta.days 60, 0⟩
          (.read (some { allocation := .category "groceries" none, approved := false }))] =
        some (more, d') ∧
      more.all (fun beat => beat.act.driven) = true ∧ d'.pc = .stuck :=
    ⟨_, _, _, _, rfl, rfl, rfl, rfl, rfl⟩
  obtain ⟨beats, d, more, d', hexec, hqueue, hmore, hdriven, hpc⟩ := hexec
  refine ⟨beats, d, more, d', Lib.exec_run hexec, hqueue, Lib.exec_run hmore,
    List.all_eq_true.1 hdriven, fun m => ⟨?_, ?_⟩⟩
  · rintro (hclosed | ⟨w, hwait, -⟩)
    · unfold Driver.closed at hclosed
      rw [hpc] at hclosed
      cases hclosed
    · rw [hpc] at hwait
      cases hwait
  · rintro (⟨hcall, -⟩ | ⟨hwait, -⟩)
    · rw [hpc] at hcall
      cases hcall
    · rw [hpc] at hwait
      cases hwait

end YnabAgent
