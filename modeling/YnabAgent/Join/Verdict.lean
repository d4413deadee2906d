import YnabAgent.Join.Match
import YnabAgent.Join.Pool

/-!
# The verdict on a receipt

The envelope around the model that matches a receipt (`workflow/receipt_activities.py`,
`agentic/match.py`): the pool of plausible transactions, the shortcut that needs no model, and the
model's verdict, of which only the ids of the pool count.

`plausible_of_matchReceipt`: whatever the model answers, the outcome names transactions of
the pool only.
-/

namespace YnabAgent

inductive MatchDecision
  | «match» | ambiguous | noMatch
  deriving DecidableEq

/-- The model's structured verdict. -/
structure MatchVerdict where
  decision : MatchDecision
  txnId : Option String := none
  candidateIds : List String := []
  deriving DecidableEq

/-- The verdict on the candidates; a malformed one is no match. -/
def toMatchOutcome (verdict : MatchVerdict) (candidates : List YnabTransactionId) : MatchOutcome :=
  match verdict.decision, verdict.txnId.filter (· ≠ "") with
  | .match, some txnId => if txnId ∈ candidates then .confident txnId else .noMatch
  | .ambiguous, _ =>
    let kept := (verdict.candidateIds.filter (· ∈ candidates)).eraseDups
    if h : minCandidates ≤ kept.length then .ambiguous ⟨kept, h⟩ else .noMatch
  | _, _ => .noMatch

/-- Match a receipt against the transactions read; the model is asked only where the pool is not
empty and has no single exact match. -/
def matchReceipt (receipt : Receipt) (transactions : List YnabSnapshot) (verdict : MatchVerdict) :
    MatchOutcome :=
  let pool := candidatePool receipt transactions
  if pool = [] then .noMatch
  else
    match exactSingleMatch receipt pool with
    | some txnId => .confident txnId
    | none => toMatchOutcome verdict (pool.map (·.ynabId))

/-- The transaction read may belong to the receipt. -/
def Plausible (receipt : Receipt) (transactions : List YnabSnapshot) (txnId : YnabTransactionId) :
    Prop :=
  ∃ t ∈ transactions, t.ynabId = txnId ∧ admits receipt t = true

section outcome
variable {receipt : Receipt} {transactions : List YnabSnapshot} {verdict : MatchVerdict}
  {candidates : List YnabTransactionId}

theorem mem_of_confident {txnId : YnabTransactionId}
    (h : toMatchOutcome verdict candidates = .confident txnId) : txnId ∈ candidates := by
  unfold toMatchOutcome at h
  split at h
  · split at h
    · rename_i hmem
      cases h
      exact hmem
    · cases h
  · simp only at h
    split at h <;> cases h
  · cases h

/-- Several candidates are distinct, and of those shown. -/
theorem mem_of_ambiguous {several : Candidates}
    (h : toMatchOutcome verdict candidates = .ambiguous several) :
    several.ids.Nodup ∧ ∀ txnId ∈ several.ids, txnId ∈ candidates := by
  unfold toMatchOutcome at h
  split at h
  · split at h <;> cases h
  · simp only at h
    split at h
    · cases h
      refine ⟨Lib.nodup_eraseDups _, fun txnId hmem => ?_⟩
      have hkept := List.mem_eraseDups.1 hmem
      exact of_decide_eq_true (List.mem_filter.1 hkept).2
    · cases h
  · cases h

theorem plausible_of_pool {snapshot : YnabSnapshot}
    (h : snapshot ∈ candidatePool receipt transactions) :
    Plausible receipt transactions snapshot.ynabId := by
  have hmem := (candidatePool_subperm receipt transactions).subset h
  obtain ⟨hread, hadmits⟩ := List.mem_filter.1 hmem
  exact ⟨snapshot, hread, rfl, hadmits⟩

theorem plausible_of_shown {txnId : YnabTransactionId}
    (h : txnId ∈ (candidatePool receipt transactions).map (·.ynabId)) :
    Plausible receipt transactions txnId := by
  obtain ⟨snapshot, hpool, rfl⟩ := List.mem_map.1 h
  exact plausible_of_pool hpool

theorem exactSingleMatch_mem {pool : List YnabSnapshot} {txnId : YnabTransactionId}
    (h : exactSingleMatch receipt pool = some txnId) : txnId ∈ pool.map (·.ynabId) := by
  unfold exactSingleMatch at h
  split at h
  · cases h
  · split at h
    · rename_i snapshot hone
      cases h
      have hmem : snapshot ∈ pool.filter (agrees receipt) := by
        rw [hone]
        exact List.mem_singleton_self _
      exact List.mem_map_of_mem (List.mem_of_mem_filter hmem)
    · cases h

/-- Whatever the model answers, the outcome names plausible transactions, several of them
once each. -/
theorem plausible_of_matchReceipt (receipt : Receipt) (transactions : List YnabSnapshot)
    (verdict : MatchVerdict) :
    (∀ txnId, matchReceipt receipt transactions verdict = .confident txnId →
      Plausible receipt transactions txnId) ∧
    ∀ several, matchReceipt receipt transactions verdict = .ambiguous several →
      several.ids.Nodup ∧ ∀ txnId ∈ several.ids, Plausible receipt transactions txnId := by
  unfold matchReceipt
  simp only
  constructor
  · intro txnId h
    split at h
    · cases h
    · split at h
      · rename_i hexact
        cases h
        exact plausible_of_shown (exactSingleMatch_mem hexact)
      · exact plausible_of_shown (mem_of_confident h)
  · intro several h
    split at h
    · cases h
    · split at h
      · cases h
      · obtain ⟨hnodup, hmem⟩ := mem_of_ambiguous h
        exact ⟨hnodup, fun txnId htxn => plausible_of_shown (hmem txnId htxn)⟩

end outcome

end YnabAgent
