import YnabAgent.Agentic.Enrich
import YnabAgent.Learn.Transitions

/-!
# Standing instructions

What the deterministic code makes of the model's reading of a standing instruction
(`agentic/command.py`). The model names a payee and a category; only a candidate becomes a command.
-/

namespace YnabAgent

inductive CommandKind
  | bless | revoke | listRules | help | other
  deriving DecidableEq

structure CommandReading where
  kind : CommandKind
  payeePattern : Option String := none
  categoryId : Option String := none
  deriving DecidableEq

/-- A bless with a payee and a candidate category; anything else is dropped. -/
def toExplicitCommand (reading : CommandReading) (candidates : List CandidateCategory) :
    Option ExplicitCommand :=
  if reading.kind ≠ .bless then none
  else
    match reading.payeePattern.filter (· ≠ ""), reading.categoryId.filter (· ≠ "") with
    | some payeePattern, some categoryId =>
      if candidates.any fun c => c.id = categoryId then
        some { «match» := { payeePattern }, action := { allocation := .category categoryId none } }
      else none
    | _, _ => none

end YnabAgent
