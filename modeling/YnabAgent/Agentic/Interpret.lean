import YnabAgent.Agentic.Enrich

/-!
# Reading a reply and a revision

What the spine makes of the model's reading of a reply (`agentic/interpret.py`) and of a revision
instruction (`agentic/converge.py`). The model only classifies and picks a category; the decision
is assembled here, and a category that is not a candidate never reaches one.
-/

namespace YnabAgent

/-! ## Replies -/

inductive ReplyIntent
  | approve | recategorize | clarify
  deriving DecidableEq, Repr

/-- A reply and the context to read its intent; there is at least one candidate. -/
structure InterpretRequest where
  replyText : String
  payee : String
  amountDisplay : String
  proposedCategoryName : Option String := none
  candidates : List CandidateCategory
  nonempty : candidates ≠ []

structure Interpretation where
  intent : ReplyIntent
  categoryId : Option String := none
  question : Option String := none
  memo : Option String := none
  deriving DecidableEq

inductive ReplyOutcome
  | answer (decision : Decision)
  | clarify (question : String)
  deriving DecidableEq

/-- A letter, a digit or an apostrophe, as in `[A-Za-z0-9']`. -/
def isWordChar (c : Char) : Bool :=
  c.isAlphanum || c = Char.ofNat 39

/-- The maximal runs of at least three word characters. -/
def substantiveWords (s : String) : List String :=
  ((s.toList.splitOnP fun c => !isWordChar c).filter fun w => 3 ≤ w.length).map String.ofList

/-- Keep a memo only when the reply contains one of its words. -/
def supportedMemo (text : PyText) (memo : Option String) (replyText : String) : Option String :=
  memo.bind fun m =>
    if (substantiveWords (text.lower m)).any fun w => isInText w (text.lower replyText) then some m
    else none

def humanDecision (category : CategoryId) (decidedAt : Datetime) (memo : Option String) :
    Decision :=
  { allocation := .category category none, memo, approved := true, decidedBy := .human, decidedAt }

def toReplyOutcome (text : PyText) (interpretation : Interpretation)
    (proposedCategory : Option CategoryId) (decidedAt : Datetime)
    (candidates : List CandidateCategory) (replyText : String) : ReplyOutcome :=
  let memo := supportedMemo text interpretation.memo replyText
  match interpretation.intent with
  | .approve =>
    match proposedCategory with
    | none => .clarify ("There's no pending suggestion to approve here — "
        ++ "which category should this be?")
    | some category => .answer (humanDecision category decidedAt memo)
  | .recategorize =>
    match presentText interpretation.categoryId with
    | some category =>
      if category ∈ candidates.map (·.id) then .answer (humanDecision category decidedAt memo)
      else .clarify ("I couldn't match that to one of the budget's "
        ++ "categories — could you give the category name as it appears in YNAB?")
    | none => .clarify "Which category should this be?"
  | .clarify =>
    .clarify ((presentText interpretation.question).getD
      "Could you clarify how you'd like this categorized?")

/-- An answer is a human decision: approved, one category, no rule. -/
theorem toReplyOutcome_answer {text : PyText} {interpretation : Interpretation}
    {proposed : Option CategoryId} {decidedAt : Datetime} {candidates : List CandidateCategory}
    {replyText : String} {decision : Decision}
    (h : toReplyOutcome text interpretation proposed decidedAt candidates replyText
      = .answer decision) :
    ∃ category memo, decision = humanDecision category decidedAt memo := by
  unfold toReplyOutcome at h
  simp only at h
  split at h
  · split at h
    · cases h
    · cases h; exact ⟨_, _, rfl⟩
  · split at h
    · split at h
      · cases h; exact ⟨_, _, rfl⟩
      · cases h
    · cases h
  · cases h

/-- A whole-category, approved decision is committed on every core. -/
theorem committed_of_category {core : TxnCore} {decision : Decision} {category : CategoryId}
    {tag : Option PersonTag} (happr : decision.approved = true)
    (halloc : decision.allocation = .category category tag) : Committed core decision :=
  ⟨happr, fun h => by rw [halloc] at h; cases h⟩

/-! ## Revisions -/

inductive RevisionDecision
  | retarget | memoOnly | noChange
  deriving DecidableEq, Repr

/-- A revision instruction and the state it revises; there is at least one candidate. -/
structure RevisionRequest where
  instruction : String
  currentCategoryName : String
  candidates : List CandidateCategory
  currentMemo : Option String := none
  nonempty : candidates ≠ []

structure RevisionTarget where
  decision : RevisionDecision
  categoryId : Option String := none
  memo : Option String := none
  deriving DecidableEq

structure RevisionPlan where
  changes : Bool
  categoryId : Option String := none
  memo : Option String := none
  deriving DecidableEq

/-- A retarget without a real candidate collapses to no change. -/
def toRevisionPlan (target : RevisionTarget) (candidates : List CandidateCategory) :
    RevisionPlan :=
  match target.decision, presentText target.categoryId, presentText target.memo with
  | .retarget, some category, _ =>
    if category ∈ candidates.map (·.id) then
      { changes := true, categoryId := some category, memo := target.memo }
    else { changes := false }
  | .memoOnly, _, some memo => { changes := true, memo := some memo }
  | _, _, _ => { changes := false }

end YnabAgent
