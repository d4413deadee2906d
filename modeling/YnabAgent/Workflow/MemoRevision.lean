import YnabAgent.Workflow.Admissible
import YnabAgent.Ynab.ReadBack

/-!
# A revision of the memo

A receipt, and a reply that asks for nothing but another memo, are written as a patch of the whole
transaction. The fold of a receipt starts from the live end-state; a reply takes the category of the
snapshot it carries. `memo_write_keeps_iff`: when such a write leaves the live category and the live
split lines alone.
-/

namespace YnabAgent

/-! ## Instructions about the memo alone -/

/-- What the model is asked about a reply. -/
def revisionRequest (snapshot : YnabSnapshot) (instruction : String) (inputs : ConvergeInputs)
    (h : inputs.candidates ≠ []) : RevisionRequest :=
  { instruction
    currentCategoryName :=
      (snapshot.categoryId.map (categoryLabel inputs.candidates)).getD "(uncategorized)"
    candidates := inputs.candidates
    currentMemo := snapshot.memo
    nonempty := h }

/-- The plan a reply comes to. -/
def revisionPlan (snapshot : YnabSnapshot) (instruction : String) (inputs : ConvergeInputs)
    (h : inputs.candidates ≠ []) : RevisionPlan :=
  toRevisionPlan (inputs.interpretRevision (revisionRequest snapshot instruction inputs h))
    inputs.candidates

/-- The instruction changes only the memo: a receipt always, a reply where its plan
has no category. -/
def MemoOnly (snapshot : YnabSnapshot) (inputs : ConvergeInputs) : InboundSignal → Prop
  | .receipt _ => True
  | .reply sig => ∃ h : inputs.candidates ≠ [],
      (revisionPlan snapshot sig.text inputs h).changes = true ∧
      (revisionPlan snapshot sig.text inputs h).categoryId = none

/-- The write of the decision leaves the live category and the live split lines as they are. -/
def Keeps (live : WireTransaction) (decision : Decision) : Prop :=
  (live.patched (toPatch decision)).categoryId = live.categoryId ∧
    (live.patched (toPatch decision)).subtransactions = live.subtransactions

/-- YNAB shows another allocation than the one last applied. -/
def Drifted (live : WireTransaction) (prior : Option Decision) : Prop :=
  ∃ read p, live.deleted = false ∧ live.endState = some read ∧ prior = some p ∧
    read.allocation ≠ p.allocation

/-- Where a write of the carried category would move the live transaction, it is held back: the
transaction may not be edited, has no category to carry, or has drifted. -/
def CarriesLive (snapshot : YnabSnapshot) (prior : Option Decision) (live : WireTransaction) :
    Prop :=
  reconciliationBlocks snapshot = true ∨ snapshot.categoryId = none ∨
    snapshot.categoryId = live.categoryId ∨ Drifted live prior

section memo
variable {text : PyText} {δ : Type} [DecidableEq δ] {digest : TargetState → δ}
  {snapshot seen : YnabSnapshot} {prior : Option Decision} {inputs : ConvergeInputs}
  {live : WireTransaction} {decision : Decision}

theorem presentText_eq_some {value : Option String} {s : String} (h : presentText value = some s) :
    value = some s := by
  unfold presentText at h
  split at h
  · cases h
  · exact h

theorem revisionDecision_allocation (snapshot : YnabSnapshot) (plan : RevisionPlan)
    (planned : CategoryId) (now : Datetime) :
    (revisionDecision snapshot plan planned now).allocation = .category planned none := rfl

/-- A category is written over a transaction without moving it exactly where it is its category. -/
theorem keeps_category_iff {category : CategoryId} {tag : Option PersonTag}
    (hdecision : decision.allocation = .category category tag) :
    Keeps live decision ↔ live.categoryId = some category := by
  obtain ⟨allocation, memo, approved, decidedBy, decidedAt, ruleId⟩ := decision
  cases hdecision
  exact ⟨fun h => h.1.symm, fun h => ⟨h.symm, rfl⟩⟩

/-- The category of an end-state that is no split is the live one. -/
theorem categoryId_of_endState {read : TargetState} {category : CategoryId}
    {tag : Option PersonTag} (hread : live.endState = some read)
    (hcategory : read.allocation = .category category tag) : live.categoryId = some category := by
  unfold WireTransaction.endState at hread
  split at hread
  · cases hread; cases hcategory
  · obtain ⟨category', hpresent, rfl⟩ := Option.map_eq_some_iff.1 hread
    cases hcategory
    exact presentText_eq_some hpresent

/-- The read a converge run makes before it writes. -/
theorem readBack_before (hfind : inputs.before.find snapshot.ynabId = some live)
    (hseen : toSnapshot text live = .ok seen) :
    inputs.before.readBack text snapshot.ynabId
      = .ok (if live.deleted then none else live.endState) := by
  cases hdeleted : live.deleted with
  | false => exact readBack_of_toSnapshot hfind hdeleted hseen
  | true =>
    unfold YnabBackend.readBack YnabBackend.snapshot
    rw [hfind]
    simp only [hdeleted, if_true]
    rfl

/-- A reply about the memo writes the carried category, where the pre-write check lets it. -/
theorem convergeReply_write_iff {instruction : String} {current : Option TargetState}
    (h : inputs.candidates ≠ [])
    (hchanges : (revisionPlan snapshot instruction inputs h).changes = true)
    (hcategory : (revisionPlan snapshot instruction inputs h).categoryId = none)
    (hread : inputs.before.readBack text snapshot.ynabId = .ok current) :
    convergeReply text digest snapshot instruction prior inputs = .ok (.write decision) ↔
      ∃ category, snapshot.categoryId = some category ∧
        decision = revisionDecision snapshot (revisionPlan snapshot instruction inputs h) category
          inputs.now ∧
        precommitAction digest current (targetOf decision) (prior.map targetOf) = .write := by
  unfold revisionPlan revisionRequest at hchanges hcategory ⊢
  unfold convergeReply
  rw [dif_pos h]
  simp only [hchanges, hcategory, Bool.not_true, Bool.false_eq_true, if_false, Option.none_or]
  cases hsnapshot : snapshot.categoryId with
  | none => simp
  | some category =>
    simp only [hread, Option.some.injEq, exists_eq_left']
    constructor
    · intro hplan
      obtain ⟨current', hcurrent, hplan⟩ := Lib.bind_eq_ok hplan
      cases hcurrent
      split at hplan
      · cases hplan
      · cases hplan
      · cases hplan
      · rename_i haction
        cases hplan
        exact ⟨rfl, haction⟩
    · rintro ⟨rfl, haction⟩
      simp only [bind, Except.bind, haction, pure, Except.pure]

/-- A write that would move the transaction is let through unless it has drifted. -/
theorem precommitAction_write_iff (hdigest : Function.Injective digest) {category : CategoryId}
    (hdecision : decision.allocation = .category category none)
    (hlive : live.categoryId ≠ some category) :
    precommitAction digest (if live.deleted then none else live.endState) (targetOf decision)
        (prior.map targetOf) = .write ↔ ¬ Drifted live prior := by
  unfold Drifted
  cases hcurrent : (if live.deleted then none else live.endState) with
  | none =>
    refine ⟨fun _ => ?_, fun _ => rfl⟩
    rintro ⟨read, p, hdeleted, hread, -⟩
    rw [hdeleted, if_neg (by decide), hread] at hcurrent
    cases hcurrent
  | some read =>
    have hdeleted : live.deleted = false := by
      cases hd : live.deleted with
      | false => rfl
      | true => rw [hd, if_pos rfl] at hcurrent; cases hcurrent
    rw [hdeleted, if_neg (by decide)] at hcurrent
    -- the live end-state is not the target: that would be its category
    have hneeds : needsWrite digest (some read) (targetOf decision) = true := by
      simp only [needsWrite, ne_eq, decide_eq_true_eq]
      rw [contentHash_eq_iff hdigest]
      rintro ⟨hsame, -⟩
      have hsame : SameAllocation read.allocation decision.allocation := hsame
      rw [hdecision] at hsame
      cases halloc : read.allocation with
      | category category' tag =>
        rw [halloc] at hsame
        exact hlive (hsame.1 ▸ categoryId_of_endState hcurrent halloc)
      | split split => rw [halloc] at hsame; exact hsame.elim
    simp only [precommitAction, hneeds, Bool.not_true, Bool.false_eq_true, if_false]
    cases prior with
    | none => simp
    | some p =>
      simp only [Option.map_some, hdeleted, hcurrent, Option.some.injEq, true_and, targetOf]
      by_cases halloc : read.allocation = p.allocation <;> simp [halloc]

/-- **A write about the memo keeps the category.** The fold of a receipt always does. The write of a
reply does exactly when the carried category is the live one, or no write is made: the transaction
may not be edited, has no category to carry, or has drifted. -/
theorem memo_write_keeps_iff (hdigest : Function.Injective digest)
    (hfind : inputs.before.find snapshot.ynabId = some live)
    (hseen : toSnapshot text live = .ok seen) {instruction : InboundSignal}
    (hmemo : MemoOnly snapshot inputs instruction) (prior : Option Decision) :
    (∀ decision, convergePlan text digest snapshot instruction prior inputs =
      .ok (.write decision) →
      Keeps live decision) ↔
      ∀ sig, instruction = .reply sig → CarriesLive snapshot prior live := by
  unfold CarriesLive
  cases hblocks : reconciliationBlocks snapshot with
  | true =>
    refine ⟨fun _ _ _ => .inl rfl, fun _ decision hplan => ?_⟩
    simp only [convergePlan, hblocks, if_true] at hplan
    cases hplan
  | false =>
    have hread := readBack_before hfind hseen
    simp only [Bool.false_eq_true, false_or]
    cases instruction with
    | receipt sig =>
      refine ⟨fun _ _ h => (by cases h), fun _ decision hplan => ?_⟩
      simp only [convergePlan, hblocks, Bool.false_eq_true, if_false] at hplan
      obtain ⟨current, hcurrent, hplan⟩ := Lib.bind_eq_ok hplan
      rw [hread] at hcurrent
      cases hcurrent
      -- the fold is written under the category it was read with
      obtain ⟨read, category, tag, hlive, hcategory, halloc, -⟩ :=
        foldReceipt_write (Except.ok.inj hplan)
      rw [keeps_category_iff halloc]
      exact categoryId_of_endState (Option.ite_none_left_eq_some.1 hlive).2 hcategory
    | reply sig =>
      obtain ⟨h, hchanges, hcategory⟩ := hmemo
      have hplan : ∀ decision,
          convergePlan text digest snapshot (.reply sig) prior inputs = .ok (.write decision) ↔ _ :=
        fun decision => by
          simp only [convergePlan, hblocks, Bool.false_eq_true, if_false]
          exact convergeReply_write_iff h hchanges hcategory hread
      simp only [hplan, InboundSignal.reply.injEq, forall_eq']
      constructor
      · intro hkeeps
        cases hsnapshot : snapshot.categoryId with
        | none => exact .inl rfl
        | some category =>
          by_cases hlive : live.categoryId = some category
          · exact .inr (.inl hlive.symm)
          · refine .inr (.inr ?_)
            by_contra hdrifted
            have hwrite := (precommitAction_write_iff hdigest (revisionDecision_allocation snapshot
              (revisionPlan snapshot sig.text inputs h) category inputs.now) hlive).2 hdrifted
            exact hlive ((keeps_category_iff rfl).1 (hkeeps _ ⟨category, hsnapshot, rfl, hwrite⟩))
      · rintro hcarries decision ⟨category, hsnapshot, rfl, hwrite⟩
        rw [keeps_category_iff rfl]
        by_contra hlive
        rcases hcarries with hnone | hsame | hdrifted
        · rw [hsnapshot] at hnone; cases hnone
        · exact hlive (hsame.symm.trans hsnapshot)
        · exact (precommitAction_write_iff hdigest (revisionDecision_allocation ..) hlive).1 hwrite
            hdrifted

end memo

/-! ## A note on a charge filed elsewhere since -/

/-- The charge as it came in, under the category YNAB gave it. -/
def partySnapshot (category : CategoryId) : YnabSnapshot :=
  { ynabId := "t1", account := "checking", payee := "Corner Cafe", amount := ⟨-12500⟩,
    txnDate := 739000, categoryId := some category }

/-- The charge in YNAB, where the owner's answer was written. -/
def partyWire : WireTransaction :=
  { id := "t1", accountId := "checking", date := 739000, amount := -12500, approved := true
    payeeName := some "Corner Cafe", categoryId := some "groceries" }

def partyReply : InboundSignal :=
  .reply { threadId := "t1", messageId := "m2", fromAddress := "owner",
           text := "note that it was for the party" }

def partyInputs : ConvergeInputs where
  candidates := [⟨"dining", "Dining"⟩, ⟨"groceries", "Groceries"⟩]
  interpretRevision _ := { decision := .memoOnly, memo := some "for the party" }
  before := { getTransaction := fun _ => some partyWire, listTransactions := [] }
  after := { getTransaction := fun _ => some partyWire, listTransactions := [] }
  now := 0

/-- On the snapshot of the category it has, the note leaves the charge under groceries. -/
theorem party_note_keeps : ∃ decision,
    convergePlan PyText.ascii id (partySnapshot "groceries") partyReply
      (some (humanDecision "groceries" 0 none)) partyInputs = .ok (.write decision) ∧
    Keeps partyWire decision := by
  have hfind : partyInputs.before.find (partySnapshot "groceries").ynabId = some partyWire := rfl
  have hmemo : MemoOnly (partySnapshot "groceries") partyInputs partyReply :=
    ⟨by decide, rfl, rfl⟩
  have hseen : ∃ seen, toSnapshot PyText.ascii partyWire = .ok seen := ⟨_, rfl⟩
  obtain ⟨seen, hseen⟩ := hseen
  have hkeeps := (memo_write_keeps_iff Function.injective_id hfind hseen hmemo
    (some (humanDecision "groceries" 0 none))).2 fun _ _ => .inr (.inr (.inl rfl))
  exact ⟨_, rfl, hkeeps _ rfl⟩

/-- On the snapshot it came in with, the note moves it back to dining. -/
theorem party_note_moves :
    MemoOnly (partySnapshot "dining") partyInputs partyReply ∧
    ∃ decision, convergePlan PyText.ascii id (partySnapshot "dining") partyReply
      (some (humanDecision "groceries" 0 none)) partyInputs = .ok (.write decision) ∧
      partyWire.categoryId = some "groceries" ∧
      (partyWire.patched (toPatch decision)).categoryId = some "dining" :=
  ⟨⟨by decide, rfl, rfl⟩, _, rfl, rfl, rfl⟩

end YnabAgent
