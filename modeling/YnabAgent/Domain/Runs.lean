import YnabAgent.Lib.Run
import YnabAgent.Domain.Moves

/-!
# Runs of a transaction

A run feeds events to `advance` in any order; between two events the driver may stamp the id of the
thread it opened. The labels record the state an event met and the effects it emitted, so what a
run did is read off its labels.
-/

namespace YnabAgent

/-- One step of a run. -/
inductive Beat
  | fed (pre : Transaction) (now : Datetime) (event : LifecycleEvent) (effects : List Effect)
  | stamped (threadId : ThreadId)

def Beat.effects : Beat → List Effect
  | .fed _ _ _ effects => effects
  | .stamped _ => []

inductive TxnStep (policy : LifecyclePolicy) : Transaction → Beat → Transaction → Prop
  | fed {now : Datetime} {txn : Transaction} {event : LifecycleEvent} {tr : Transition}
      (h : advance now policy txn event = .ok tr) :
      TxnStep policy txn (.fed txn now event tr.effects) tr.next
  | stamped (txn : Transaction) (threadId : ThreadId) :
      TxnStep policy txn (.stamped threadId) (txn.withThread threadId)

abbrev TxnRun (policy : LifecyclePolicy) := Lib.Run (TxnStep policy)

/-- Feed the events in order; the first one a state raises on ends the run with its error. -/
def runEvents (policy : LifecyclePolicy) :
    Transaction → List (Datetime × LifecycleEvent) →
      Except ValidationError (List Beat × Transaction)
  | txn, [] => .ok ([], txn)
  | txn, (now, event) :: rest => do
    let tr ← advance now policy txn event
    let (beats, last) ← runEvents policy tr.next rest
    pure (.fed txn now event tr.effects :: beats, last)

theorem runEvents_run {policy : LifecyclePolicy} {events : List (Datetime × LifecycleEvent)} :
    ∀ {txn last : Transaction} {beats : List Beat},
      runEvents policy txn events = .ok (beats, last) → TxnRun policy txn beats last := by
  induction events with
  | nil => intro txn last beats h; cases h; exact .nil txn
  | cons e rest ih =>
    intro txn last beats h
    obtain ⟨tr, hadv, h⟩ := Lib.bind_eq_ok h
    obtain ⟨⟨beats', last'⟩, hrest, h⟩ := Lib.bind_eq_ok h
    cases h
    exact .cons (.fed hadv) (ih hrest)

/-- A state some sequence of events leads to from `DISCOVERED`. -/
def Reachable (policy : LifecyclePolicy) (txn : Transaction) : Prop :=
  ∃ ynabId threadId beats, TxnRun policy (born ynabId threadId) beats txn

section reachable
variable {policy : LifecyclePolicy}

theorem Reachable.born (policy : LifecyclePolicy) (ynabId : YnabTransactionId)
    (threadId : Option ThreadId) : Reachable policy (born ynabId threadId) :=
  ⟨ynabId, threadId, [], .nil _⟩

theorem Reachable.step {txn : Transaction} (h : Reachable policy txn) (now : Datetime)
    (event : LifecycleEvent) {tr : Transition} (hadv : advance now policy txn event = .ok tr) :
    Reachable policy tr.next := by
  obtain ⟨ynabId, threadId, beats, hrun⟩ := h
  exact ⟨ynabId, threadId, _, hrun.snoc (.fed hadv)⟩

end reachable

/-! ## The decision a revision falls back to -/

/-- A revision with a prior decision was entered from `OPEN`, and the prior is committed on its
core. -/
def PriorCommitted : Transaction → Prop
  | .revising s => ∀ p, s.prior = some p → s.origin = .applied ∧ Committed s.core p
  | _ => True

section prior
variable {policy : LifecyclePolicy} {now : Datetime} {txn next : Transaction}
  {event : LifecycleEvent} {effects : List Effect}

theorem Move.priorCommitted (h : PriorCommitted txn) (hm : Move now policy txn event next effects) :
    PriorCommitted next := by
  cases hm with
  | stay => exact h
  | reopen s signal => intro p hp; cases hp; exact ⟨rfl, s.committed⟩
  | reopenLapsed s signal => intro p hp; cases hp
  | retarget s signal => exact h
  | _ => trivial

theorem PriorCommitted.withThread (h : PriorCommitted txn) (tid : ThreadId) :
    PriorCommitted (txn.withThread tid) := by
  cases txn with
  | revising s => intro p hp; exact ⟨(h p hp).1, (h p hp).2.withThread _⟩
  | _ => trivial

theorem Reachable.priorCommitted (h : Reachable policy txn) : PriorCommitted txn := by
  obtain ⟨ynabId, threadId, beats, hrun⟩ := h
  refine hrun.invariant ?_ trivial
  intro s l t hs hstep
  cases hstep with
  | fed hadv => exact (advance_move hadv).priorCommitted hs
  | stamped _ tid => exact hs.withThread tid

end prior

end YnabAgent
