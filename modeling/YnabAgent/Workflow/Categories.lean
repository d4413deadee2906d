import YnabAgent.Agentic.Ratchet
import YnabAgent.Workflow.Carried
import YnabAgent.Workflow.Guard

/-!
# Where a written category comes from

The models only name categories; what they return is checked where it is used: a suggestion against
the candidates it was asked for (`agentic/enrich.py`), a reply (`agentic/interpret.py`) and a
revision (`agentic/converge.py`) against those read for it. A proposal waits in the transaction
until a reply approves it. `written_categories`: every category a run writes is the selected rule's,
a candidate of the step that used it, or the transaction's own.
-/

namespace YnabAgent

/-! ## The categories of a decision -/

/-- The categories a patch sets. -/
def TransactionPatch.categories (patch : TransactionPatch) : List CategoryId :=
  patch.categoryId.toList ++ (patch.subtransactions.getD []).map SubtransactionPatch.categoryId

def ProposedAllocation.categories : ProposedAllocation → List CategoryId
  | .category id _ => [id]
  | .split template => template.lines.map SplitLine.category

theorem resolveLines_categories (direction remainder : Int) (lastPercent i : Nat) (d : Int)
    (lines : List SplitLine) :
    (resolveLines direction remainder lastPercent i d lines).map ResolvedSplitLine.category =
      lines.map SplitLine.category := by
  induction lines generalizing i d with
  | nil => rfl
  | cons line rest ih =>
    unfold resolveLines
    split
    · rw [List.map_cons, ih]; rfl
    · split
      · rw [List.map_cons, ih]; rfl
      · rw [List.map_cons, ih]; rfl

theorem toPatch_category {decision : Decision} {category : CategoryId} {tag : Option PersonTag}
    (h : decision.allocation = .category category tag) :
    (toPatch decision).categories = [category] := by
  unfold toPatch
  rw [h]
  rfl

/-- A rule's decision writes the categories of its action. -/
theorem buildAutoDecision_categories (rule : Rule) (snapshot : YnabSnapshot) (now : Datetime) :
    (toPatch (buildAutoDecision rule snapshot now)).categories =
      rule.action.allocation.categories := by
  unfold buildAutoDecision toPatch
  cases rule.action.allocation with
  | category category tag => rfl
  | split split =>
    show ((resolveSplit split snapshot.amount).lines.map ResolvedSplitLine.toPatch).map
      SubtransactionPatch.categoryId = _
    rw [List.map_map]
    exact resolveLines_categories _ _ _ _ _ _

/-! ## The validators -/

section validators
variable {text : PyText} {δ : Type} [DecidableEq δ] {digest : TargetState → δ}

theorem suggest_candidate {propose : EnrichmentRequest → EnrichmentSuggestion}
    {snapshot : YnabSnapshot} {candidates : List CandidateCategory} {hint : Option String}
    {suggestion : EnrichmentSuggestion}
    (h : suggest text propose snapshot candidates hint = .ok suggestion) :
    suggestion.categoryId ∈ candidates.map (·.id) := by
  obtain ⟨request, -, h⟩ := Lib.bind_eq_ok h
  unfold validateSuggestion at h
  simp only at h
  split at h
  · cases h
  · rename_i hvalid
    cases h
    exact not_not.1 hvalid

/-- The proposal of the enrich step is for one of its candidates. -/
theorem decideEnrichment_askHuman {propose : EnrichmentRequest → EnrichmentSuggestion}
    {snapshot : YnabSnapshot} {candidates : List CandidateCategory} {rules : List Rule}
    {counters : AutoActionCounters} {now : Datetime} {proposal : Proposal}
    (h : decideEnrichment text propose snapshot candidates rules counters now
      = .ok (.askHuman proposal)) :
    ∃ category ∈ candidates.map (·.id), proposal.allocation = .category category none := by
  unfold decideEnrichment at h
  simp only at h
  split at h
  · split at h
    · cases h
    · obtain ⟨suggestion, hsuggest, h⟩ := Lib.bind_eq_ok h
      split at h
      · cases h
      · cases h
        exact ⟨_, suggest_candidate hsuggest, rfl⟩
  · obtain ⟨suggestion, hsuggest, h⟩ := Lib.bind_eq_ok h
    cases h
    exact ⟨_, suggest_candidate hsuggest, rfl⟩

/-- An answer is for a candidate, or for what was proposed. -/
theorem interpretInbound_category {interpret : InterpretRequest → Interpretation}
    {candidates : List CandidateCategory} {now : Datetime} {signal : InboundSignal}
    {snapshot : YnabSnapshot} {proposal? : Option Proposal} {decision : Decision}
    (h : interpretInbound text interpret candidates now signal snapshot proposal?
      = .ok (.answer decision)) :
    ∃ category, decision.allocation = .category category none ∧
      (category ∈ candidates.map (·.id) ∨
        ∃ proposal tag, proposal? = some proposal ∧
          proposal.allocation = .category category tag) := by
  unfold interpretInbound at h
  split at h
  · cases h
  · rename_i sig
    simp only at h
    split at h
    · have h := Except.ok.inj h
      unfold toReplyOutcome at h
      simp only at h
      split at h
      · split at h
        · cases h
        · rename_i category hproposed
          cases h
          refine ⟨category, rfl, .inr ?_⟩
          obtain ⟨proposal, hsome, hallocation⟩ := Option.bind_eq_some_iff.1 hproposed
          split at hallocation
          · rename_i named tag hcategory
            cases hallocation
            exact ⟨proposal, tag, hsome, hcategory⟩
          · cases hallocation
      · split at h
        · rename_i category hnamed
          split at h
          · rename_i hcandidate
            cases h
            exact ⟨category, rfl, .inl hcandidate⟩
          · cases h
        · cases h
      · cases h
    · cases h

theorem toRevisionPlan_candidate {target : RevisionTarget} {candidates : List CandidateCategory}
    {category : CategoryId} (h : (toRevisionPlan target candidates).categoryId = some category) :
    category ∈ candidates.map (·.id) := by
  unfold toRevisionPlan at h
  split at h
  · split at h
    · rename_i hcandidate
      cases h
      exact hcandidate
    · cases h
  · cases h
  · cases h

/-- A revision goes to a candidate, or keeps the category of the snapshot. -/
theorem convergeReply_category {snapshot : YnabSnapshot} {instruction : String}
    {prior : Option Decision} {inputs : ConvergeInputs} {decision : Decision}
    (h : convergeReply text digest snapshot instruction prior inputs = .ok (.write decision)) :
    ∃ category, decision.allocation = .category category none ∧
      (category ∈ inputs.candidates.map (·.id) ∨ snapshot.categoryId = some category) := by
  unfold convergeReply at h
  split at h
  · simp only at h
    split at h
    · cases h
    · split at h
      · cases h
      · rename_i planned hplanned
        obtain ⟨current, -, h⟩ := Lib.bind_eq_ok h
        split at h
        · cases h
        · cases h
        · cases h
        · cases h
          refine ⟨planned, rfl, ?_⟩
          rcases Option.or_eq_some_iff.1 hplanned with hplan | ⟨-, hkept⟩
          · exact .inl (toRevisionPlan_candidate hplan)
          · exact .inr hkept
  · cases h

/-- A planned write is for a candidate, or for the category of the snapshot or of the live
transaction. -/
theorem convergePlan_category {snapshot : YnabSnapshot} {instruction : InboundSignal}
    {prior : Option Decision} {inputs : ConvergeInputs} {decision : Decision}
    (h : convergePlan text digest snapshot instruction prior inputs = .ok (.write decision)) :
    ∃ category tag, decision.allocation = .category category tag ∧
      (category ∈ inputs.candidates.map (·.id) ∨ snapshot.categoryId = some category ∨
        ∃ target, inputs.before.readBack text snapshot.ynabId = .ok (some target) ∧
          target.allocation = .category category tag) := by
  unfold convergePlan at h
  split at h
  · cases h
  · split at h
    · obtain ⟨live, hread, h⟩ := Lib.bind_eq_ok h
      obtain ⟨target, category, tag, rfl, hlive, hdecision, -⟩ :=
        foldReceipt_write (Except.ok.inj h)
      exact ⟨category, tag, hdecision, .inr (.inr ⟨target, hread, hlive⟩)⟩
    · obtain ⟨category, hdecision, hcategory⟩ := convergeReply_category h
      exact ⟨category, none, hdecision, hcategory.imp_right .inl⟩

end validators

/-! ## What a step decides, and from what -/

/-- The candidates an inbound is read against. -/
def Work.candidates : Work → List CandidateCategory
  | .interpret _ candidates _ => candidates
  | .plan candidates _ _ => candidates
  | _ => []

/-- The ids of the rules the gate reads. -/
def LiveAct.ruleIds : LiveAct → List RuleId
  | .work (.enrich inputs) => inputs.rules.map Rule.id
  | _ => []

section sources
variable (text : PyText) {δ : Type} [DecidableEq δ] (digest : TargetState → δ)

/-- The step shows the run a snapshot of the transaction: fetched, or notified. -/
def LiveBeat.Shows (snapshot : YnabSnapshot) (beat : LiveBeat) : Prop :=
  beat.act = .drive (.notifySnapshot snapshot) ∨
    beat.act = .work .fetch ∧
      beat.pre.backend.snapshot text beat.pre.driver.ynabId = .ok (some snapshot)

/-- The step comes to the proposal, for one of the candidates it reads. -/
def LiveBeat.Proposes (proposal : Proposal) (beat : LiveBeat) : Prop :=
  ∃ inputs snapshot rest resume category, beat.act = .work (.enrich inputs) ∧
    beat.pre.driver.pc = .calling (.enrich snapshot) rest resume ∧
    decideEnrichment text inputs.propose snapshot inputs.candidates inputs.rules inputs.counters
      inputs.now = .ok (.askHuman proposal) ∧
    category ∈ inputs.candidates.map (·.id) ∧ proposal.allocation = .category category none

/-- The decision to write that a step comes to. -/
def LiveBeat.decided? (beat : LiveBeat) : Option Decision :=
  match beat.act, beat.pre.driver.pc with
  | .work (.enrich inputs), .calling (.enrich snapshot) _ _ =>
    match decideEnrichment text inputs.propose snapshot inputs.candidates inputs.rules
        inputs.counters inputs.now with
    | .ok (.autoApply decision) => some decision
    | _ => none
  | .work (.interpret interpret candidates now),
      .calling (.interpretInbound signal snapshot proposal) _ _ =>
    match interpretInbound text interpret candidates now signal snapshot proposal with
    | .ok (.answer decision) => some decision
    | _ => none
  | .work (.plan candidates interpretRevision now),
      .calling (.converge snapshot instruction prior) _ _ =>
    match convergePlan text digest snapshot instruction prior
        { candidates, interpretRevision, before := beat.pre.backend, after := beat.pre.backend
          now } with
    | .ok (.write decision) => some decision
    | _ => none
  | _, _ => none

/-- The rule the gate selects: blessed, and ruled to apply. -/
structure Selected (inputs : EnrichInputs) (snapshot : YnabSnapshot) (rule : Rule) : Prop where
  mem : rule ∈ inputs.rules
  blessed : rule.Blessed
  applies : ruleMatches text rule snapshot = true
  ruled : (evaluateGate text snapshot inputs.rules inputs.counters cautiousFloor).verdict = .auto
  ruleId : (evaluateGate text snapshot inputs.rules inputs.counters cautiousFloor).ruleId =
    some rule.id

/-- Where a step has a category from, after the steps `earlier`. -/
inductive CategorySource (earlier : List LiveBeat) (beat : LiveBeat) (category : CategoryId) : Prop
  /-- The rule the gate selects. -/
  | rule {inputs : EnrichInputs} {snapshot : YnabSnapshot} {rest : List Effect} {resume : Resume}
      {rule : Rule} (hact : beat.act = .work (.enrich inputs))
      (hpc : beat.pre.driver.pc = .calling (.enrich snapshot) rest resume)
      (hselected : Selected text inputs snapshot rule)
      (hcategory : category ∈ rule.action.allocation.categories)
  /-- The candidates the inbound is read against. -/
  | candidate {work : Work} (hact : beat.act = .work work)
      (hcategory : category ∈ work.candidates.map (·.id))
  /-- The proposal, itself for a candidate of the step that came to it. -/
  | proposal {signal : InboundSignal} {snapshot : YnabSnapshot} {proposal : Proposal}
      {rest : List Effect} {resume : Resume} {tag : Option PersonTag}
      (hpc : beat.pre.driver.pc =
        .calling (.interpretInbound signal snapshot (some proposal)) rest resume)
      (hproposed : ∃ b ∈ earlier, b.Proposes text proposal)
      (hcategory : proposal.allocation = .category category tag)
  /-- The snapshot of the transaction. -/
  | snapshot {snapshot : YnabSnapshot} {instruction : InboundSignal} {prior : Option Decision}
      {rest : List Effect} {resume : Resume}
      (hpc : beat.pre.driver.pc = .calling (.converge snapshot instruction prior) rest resume)
      (hshown : ∃ b ∈ earlier, b.Shows text snapshot)
      (hcategory : snapshot.categoryId = some category)
  /-- The live transaction. -/
  | live {txnId : YnabTransactionId} {target : TargetState} {tag : Option PersonTag}
      (hread : beat.pre.backend.readBack text txnId = .ok (some target))
      (hcategory : target.allocation = .category category tag)

/-- One of the steps comes to the decision, and had all its categories from somewhere. -/
def Decided (decision : Decision) (beats : List LiveBeat) : Prop :=
  ∃ earlier beat later, beats = earlier ++ beat :: later ∧
    beat.decided? text digest = some decision ∧
    ∀ category ∈ (toPatch decision).categories, CategorySource text earlier beat category

/-- What an attempt has come to is from the steps passed. -/
def Attempt.Grounded (beats : List LiveBeat) : Attempt → Prop
  | .planned _ decision => Decided text digest decision beats
  | .done (.snapshot (some snapshot)) => ∃ b ∈ beats, b.Shows text snapshot
  | .done (.enriched (.autoApply decision)) => Decided text digest decision beats
  | .done (.enriched (.askHuman proposal)) => ∃ b ∈ beats, b.Proposes text proposal
  | .done (.interpreted (.answer decision)) => Decided text digest decision beats
  | _ => True

/-- What a run keeps: whatever it may write from later is from the steps passed. -/
structure Grounded (beats : List LiveBeat) (w : LiveWorld) : Prop where
  settles : w.driver.pc.Settles w.driver.txn
  consults : w.driver.pc.Consults w.driver.txn
  proposals : ∀ {proposal}, w.driver.txn.proposal? = some proposal →
    ∃ b ∈ beats, b.Proposes text proposal
  snapshots : ∀ {snapshot}, w.driver.txn.snapshot? = some snapshot →
    ∃ b ∈ beats, b.Shows text snapshot
  ready : ∀ {snapshot}, w.driver.snapshotReady = some snapshot → ∃ b ∈ beats, b.Shows text snapshot
  commits : ∀ {decision rest resume}, w.driver.pc = .calling (.commitToYnab decision) rest resume →
    Decided text digest decision beats
  attempts : w.attempt.Grounded text digest beats

variable {text digest} {beats : List LiveBeat} {beat : LiveBeat} {w w' : LiveWorld}
  {decision : Decision}

theorem Decided.snoc (h : Decided text digest decision beats) (beat : LiveBeat) :
    Decided text digest decision (beats ++ [beat]) := by
  obtain ⟨earlier, b, later, rfl, hdecided, hsource⟩ := h
  exact ⟨earlier, b, later ++ [beat], by simp, hdecided, hsource⟩

theorem Attempt.Grounded.snoc {attempt : Attempt} (h : attempt.Grounded text digest beats)
    (beat : LiveBeat) : attempt.Grounded text digest (beats ++ [beat]) := by
  unfold Attempt.Grounded at h ⊢
  split at h
  · exact h.snoc beat
  · exact Lib.exists_mem_snoc h beat
  · exact h.snoc beat
  · exact Lib.exists_mem_snoc h beat
  · exact h.snoc beat
  · trivial

/-! ## The steps that decide -/

/-- The gate's rule decides on its own categories. -/
theorem decideEnrichment_selected {inputs : EnrichInputs} {snapshot : YnabSnapshot}
    (hids : (inputs.rules.map Rule.id).Nodup)
    (h : decideEnrichment text inputs.propose snapshot inputs.candidates inputs.rules
      inputs.counters inputs.now = .ok (.autoApply decision)) :
    ∃ rule, Selected text inputs snapshot rule ∧
      (toPatch decision).categories = rule.action.allocation.categories := by
  obtain ⟨hauto, rule, hrule, rfl⟩ := decideEnrichment_auto hids h
  obtain ⟨rule', hrule', hid⟩ := evaluateGate_auto hauto
  obtain rfl : rule = rule' := by
    rw [hrule] at hrule'
    exact (List.cons.inj hrule').1
  have hmem : rule ∈ blessedMatches text inputs.rules snapshot := by
    rw [hrule]
    exact List.mem_singleton_self _
  obtain ⟨hmatches, hblessed⟩ := List.mem_filter.1 hmem
  obtain ⟨hrules, happlies⟩ := List.mem_filter.1 hmatches
  exact ⟨rule, ⟨hrules, of_decide_eq_true hblessed, happlies, hauto, hid⟩,
    buildAutoDecision_categories rule snapshot inputs.now⟩

/-- What an attempt comes to is grounded in what it reads and in what the run carries. -/
theorem LiveWorld.Worked.grounded {work : Work} {attempt : Attempt}
    (h : LiveWorld.Worked text digest w work attempt) (hw : Grounded text digest beats w)
    (hids : (LiveAct.work work).ruleIds.Nodup) :
    attempt.Grounded text digest (beats ++ [⟨w, .work work⟩]) := by
  cases h with
  | @fetched rest resume snapshot? hpc hread =>
    cases snapshot? with
    | none => trivial
    | some snapshot => exact Lib.exists_mem_last (.inr ⟨rfl, hread⟩)
  | @enriched inputs snapshot rest resume outcome hpc houtcome =>
    cases outcome with
    | autoApply decision =>
      obtain ⟨rule, hselected, hcategories⟩ :=
        decideEnrichment_selected hids houtcome
      refine ⟨beats, ⟨w, .work (.enrich inputs)⟩, [], rfl, ?_, fun category hcategory => ?_⟩
      · simp only [LiveBeat.decided?, hpc, houtcome]
      · rw [hcategories] at hcategory
        exact .rule rfl hpc hselected hcategory
    | askHuman proposal =>
      obtain ⟨category, hcandidate, hallocation⟩ := decideEnrichment_askHuman houtcome
      exact Lib.exists_mem_last
        ⟨inputs, snapshot, rest, resume, category, rfl, hpc, houtcome, hcandidate, hallocation⟩
  | @interpreted interpret candidates now signal snapshot proposal? rest resume outcome hpc
      houtcome =>
    cases outcome with
    | clarify question => trivial
    | answer decision =>
      obtain ⟨category, hallocation, hcategory⟩ := interpretInbound_category houtcome
      refine ⟨beats, ⟨w, .work (.interpret interpret candidates now)⟩, [], rfl, ?_, ?_⟩
      · simp only [LiveBeat.decided?, hpc, houtcome]
      · rw [toPatch_category hallocation, List.forall_mem_singleton]
        rcases hcategory with hcandidate | ⟨proposal, tag, rfl, hproposed⟩
        · exact .candidate rfl hcandidate
        · have hcarried := hw.consults
          rw [hpc] at hcarried
          exact .proposal hpc (hw.proposals hcarried) hproposed
  | @planned candidates interpretRevision now snapshot instruction prior rest resume step hpc
      hstep =>
    cases step with
    | done outcome => cases outcome <;> trivial
    | write decision =>
      obtain ⟨category, tag, hallocation, hcategory⟩ := convergePlan_category hstep
      refine ⟨beats, ⟨w, .work (.plan candidates interpretRevision now)⟩, [], rfl, ?_, ?_⟩
      · simp only [LiveBeat.decided?, hpc, hstep]
      · rw [toPatch_category hallocation, List.forall_mem_singleton]
        rcases hcategory with hcandidate | hkept | ⟨target, hread, hlive⟩
        · exact .candidate rfl hcandidate
        · have hcarried := hw.consults
          rw [hpc] at hcarried
          exact .snapshot hpc (hw.snapshots hcarried) hkept
        · exact .live hread hlive
  | _ => trivial

/-! ## Whole runs -/

/-- A run commits what its gate ruled or its reading of an answer came to. -/
theorem Grounded.commits_turn (hw : Grounded text digest beats w) {act : Driver.Act} {d : Driver}
    (h : Driver.Turn text digest w.driver act d)
    (hdone : ∀ m result, act = .returned m result → w.attempt = .done result)
    {rest : List Effect} {resume : Resume}
    (hpc : d.pc = .calling (.commitToYnab decision) rest resume) :
    Decided text digest decision beats := by
  cases hact : act.resumes with
  | false =>
    rw [(h.same hact).1] at hpc
    exact hw.commits hpc
  | true =>
    have hattempts := hw.attempts
    have hcomes := h.comes hw.settles hact hpc rfl
    generalize d.txn.state = state at hcomes
    cases hcomes with
    | auto m s htxn decision =>
      rw [hdone m _ rfl] at hattempts
      exact hattempts
    | ask m s htxn proposal c hc => exact absurd rfl (hc decision)
    | answer m decision hreads =>
      rw [hdone m _ rfl] at hattempts
      exact hattempts

/-- What a run keeps holds after its driver goes on. -/
theorem Grounded.drive (hw : Grounded text digest beats w) {act : Driver.Act} {d : Driver}
    (h : Driver.Turn text digest w.driver act d)
    (hdone : ∀ m result, act = .returned m result → w.attempt = .done result)
    (hnotify : ∀ snapshot, act = .notifySnapshot snapshot → beat.Shows text snapshot)
    (hw' : w'.driver = d) (hattempts : w'.attempt.Grounded text digest (beats ++ [beat])) :
    Grounded text digest (beats ++ [beat]) w' := by
  subst hw'
  refine ⟨h.settles hw.settles, h.consults hw.consults, ?_, ?_, ?_, ?_, hattempts⟩
  · intro proposal hproposal
    rcases h.proposal? hproposal with hkept | ⟨m, hact⟩
    · exact Lib.exists_mem_snoc (hw.proposals hkept) beat
    · have hasked := hw.attempts
      rw [hdone m _ hact] at hasked
      exact Lib.exists_mem_snoc hasked beat
  · intro snapshot hsnapshot
    rcases h.snapshot? hsnapshot with hkept | hready | ⟨m, hact⟩
    · exact Lib.exists_mem_snoc (hw.snapshots hkept) beat
    · exact Lib.exists_mem_snoc (hw.ready hready) beat
    · have hfetched := hw.attempts
      rw [hdone m _ hact] at hfetched
      exact Lib.exists_mem_snoc hfetched beat
  · intro snapshot hready
    rcases h.snapshotReady hready with hkept | hact
    · exact Lib.exists_mem_snoc (hw.ready hkept) beat
    · exact Lib.exists_mem_last (hnotify snapshot hact)
  · intro decision rest resume hpc
    exact (hw.commits_turn h hdone hpc).snoc beat

/-- What a run keeps holds after a step that leaves the driver alone. -/
theorem Grounded.rest (hw : Grounded text digest beats w) (hw' : w'.driver = w.driver)
    (hattempts : w'.attempt.Grounded text digest (beats ++ [beat])) :
    Grounded text digest (beats ++ [beat]) w' := by
  refine ⟨?_, ?_, ?_, ?_, ?_, ?_, hattempts⟩
  · rw [hw']; exact hw.settles
  · rw [hw']; exact hw.consults
  · rw [hw']; exact fun hproposal => Lib.exists_mem_snoc (hw.proposals hproposal) beat
  · rw [hw']; exact fun hsnapshot => Lib.exists_mem_snoc (hw.snapshots hsnapshot) beat
  · rw [hw']; exact fun hready => Lib.exists_mem_snoc (hw.ready hready) beat
  · rw [hw']; exact fun hpc => (hw.commits hpc).snoc beat

theorem Grounded.turn (hw : Grounded text digest beats w) {act : LiveAct}
    (h : LiveWorld.Turn text digest w act w') (hids : act.ruleIds.Nodup) :
    Grounded text digest (beats ++ [⟨w, act⟩]) w' := by
  cases h with
  | edited live monthClosed => exact hw.rest rfl (hw.attempts.snoc _)
  | @drove act d hact hturn =>
    refine hw.drive hturn (fun m result heq => absurd heq (hact m result)) ?_ rfl ?_
    · rintro snapshot rfl
      exact .inl rfl
    · show Attempt.Grounded text digest _ (if act.resumes then .idle else w.attempt)
      split
      · trivial
      · exact hw.attempts.snoc _
  | @returned result d m hdone hturn =>
    refine hw.drive hturn (fun m' result' heq => ?_) (fun snapshot heq => by cases heq) rfl trivial
    cases heq
    exact hdone
  | worked hworked => exact hw.rest rfl (hworked.grounded hw hids)
  | wrote hpc hplanned hlive => exact hw.rest rfl trivial
  | committed hpc hlive => exact hw.rest rfl trivial

theorem Grounded.start (ynabId : YnabTransactionId) (live : Option WireTransaction)
    (monthClosed : Bool) :
    Grounded text digest [] { live, monthClosed, driver := .start { ynabId } } where
  settles := ⟨trivial, by simp [Settled]⟩
  consults := trivial
  proposals h := by cases h
  snapshots h := by cases h
  ready h := by cases h
  commits h := by cases h
  attempts := trivial

/-- The decision a step writes is one the run came to. -/
theorem Grounded.written (hw : Grounded text digest beats w) {act : LiveAct}
    (h : LiveWorld.Turn text digest w act w') (hwrites : act.writes = true) :
    ∃ decision wire, w.live = some wire ∧ w'.live = some (wire.patched (toPatch decision)) ∧
      Decided text digest decision beats := by
  cases h with
  | @wrote candidates decision wire snapshot instruction prior rest resume hpc hplanned hlive =>
    have hattempts := hw.attempts
    rw [hplanned] at hattempts
    exact ⟨decision, wire, hlive, rfl, hattempts⟩
  | @committed decision wire rest resume hpc hlive =>
    exact ⟨decision, wire, hlive, rfl, hw.commits hpc⟩
  | worked hworked => cases hworked <;> cases hwrites
  | _ => cases hwrites

/-- Only an edit by the owner and a write change the live transaction. -/
theorem LiveWorld.Turn.live_eq {act : LiveAct} (h : LiveWorld.Turn text digest w act w')
    (hwrites : act.writes = false) (hedits : act.edits = false) : w'.live = w.live := by
  cases h with
  | edited live monthClosed => cases hedits
  | wrote hpc hplanned hlive => cases hwrites
  | committed hpc hlive => cases hwrites
  | _ => rfl

/-- **Written categories.** Whatever the models return, a write of a run patches the live
transaction with a decision that a step before came to, and each category of the patch that step had
from the blessed rule the gate selected there, from the candidates it read, from a proposal that was
itself for a candidate when it was made, or from the transaction, as its snapshot or the live read
shows it. But for the owner's edits nothing else changes the transaction. -/
theorem written_categories {ynabId : YnabTransactionId} {live : Option WireTransaction}
    {monthClosed : Bool}
    (hrun : LiveWorld.Run text digest { live, monthClosed, driver := .start { ynabId } } beats w)
    (hids : ∀ beat ∈ beats, beat.act.ruleIds.Nodup) {before after : List LiveBeat}
    (hbeats : beats = before ++ beat :: after) :
    ∃ next, beat.pre.step text digest beat.act = some next ∧
      (beat.act.writes = true → ∃ decision wire, beat.pre.live = some wire ∧
        next.live = some (wire.patched (toPatch decision)) ∧
        Decided text digest decision before) ∧
      (beat.act.writes = false → beat.act.edits = false → next.live = beat.pre.live) := by
  have hreached := hrun.each (I := Grounded text digest)
    (C := fun beat => beat.act.ruleIds.Nodup) hids (.start ynabId live monthClosed)
    (fun hw hdistinct hstep => by
      cases hstep with
      | step hs => exact hw.turn (LiveWorld.step_turn hs) hdistinct) hbeats
  obtain ⟨w, w', hw, hstep⟩ := hreached
  cases hstep with
  | step hs =>
    have hturn := LiveWorld.step_turn hs
    exact ⟨w', hs, fun hwrites => hw.written hturn hwrites,
      fun hwrites hedits => hturn.live_eq hwrites hedits⟩

end sources

/-- The model first makes up a category, which changes nothing, and then names one. -/
def yachtsThenGifts : List LiveAct :=
  marketReopened ++ .work (.plan marketCandidates
    (fun _ => { decision := .retarget, categoryId := some "yachts" }) 1) :: giftsWritten

theorem gifts_from_candidates :
    ∃ before pre w, LiveWorld.Run PyText.ascii id marketWorld (before ++ [⟨pre, .work .write⟩]) w ∧
      ∃ (decision : Decision) (wire : WireTransaction), pre.live = some wire ∧
        w.live = some (wire.patched (toPatch decision)) ∧
        w.live.bind (·.categoryId) = some "gifts" ∧ Decided PyText.ascii id decision before := by
  have hexec : ∃ (beats before : List LiveBeat) (pre w : LiveWorld),
      Lib.exec (LiveWorld.step PyText.ascii id) marketWorld yachtsThenGifts = some (beats, w) ∧
      beats = before ++ [⟨pre, .work .write⟩] ∧ pre.step PyText.ascii id (.work .write) = some w ∧
      w.live.bind (·.categoryId) = some "gifts" ∧
      (beats.all fun beat => decide beat.act.ruleIds.Nodup) = true :=
    ⟨_, [_, _, _, _, _, _, _, _, _, _, _, _, _, _, _, _], _, _, rfl, rfl, rfl, rfl, rfl⟩
  obtain ⟨beats, before, pre, w, hexec, rfl, hw, hgifts, hids⟩ := hexec
  have hrun := Lib.exec_run hexec
  obtain ⟨next, hstep, hwritten, -⟩ := written_categories hrun
    (fun beat hbeat => of_decide_eq_true (List.all_eq_true.1 hids beat hbeat)) rfl
  obtain rfl := Option.some.inj (hw.symm.trans hstep)
  obtain ⟨decision, wire, hlive, hpatched, hdecided⟩ := hwritten rfl
  exact ⟨before, pre, w, hrun, decision, wire, hlive, hpatched, hgifts, hdecided⟩

end YnabAgent
