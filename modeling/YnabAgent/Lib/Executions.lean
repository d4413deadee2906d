import Mathlib.Logic.Function.Basic

/-!
# Executions under ids

A server keeps the executions of workflows, each under an id. A start gets a new execution or is
refused, by how the last one under its id stands and by the policy of the start; an execution ends
once, completed or failed.

`Sound`: of the executions under one id only the last may run, whatever starts and ends.
-/

namespace Lib

inductive RunStatus
  | running | completed | failed
  deriving DecidableEq

inductive ReusePolicy
  | allowDuplicate | allowDuplicateFailedOnly | rejectDuplicate
  deriving DecidableEq

/-- Whether a start gets an execution where the last one of its id stands so. -/
def ReusePolicy.admits : ReusePolicy → Option RunStatus → Bool
  | _, none => true
  | _, some .running => false
  | allowDuplicate, some _ => true
  | allowDuplicateFailedOnly, some status => decide (status = .failed)
  | rejectDuplicate, some _ => false

/-- The executions under each id, the latest first. -/
structure Executions (κ : Type*) where
  runs : κ → List RunStatus := fun _ => []

namespace Executions

variable {κ : Type*}

def latest (xs : Executions κ) (k : κ) : Option RunStatus := (xs.runs k).head?

/-- Of the executions under one id only the last may run. -/
def Sound (xs : Executions κ) : Prop := ∀ k, ∀ status ∈ (xs.runs k).tail, status ≠ .running

variable {xs xs' : Executions κ} {policy : ReusePolicy} {k : κ}

theorem sound_init : Sound ({} : Executions κ) := by
  intro k status h
  cases h

theorem admits_running : policy.admits (some .running) = false := by
  cases policy <;> rfl

/-- What is not admitted under failed-only runs, or completed. -/
theorem latest_of_refused (h : ReusePolicy.allowDuplicateFailedOnly.admits (xs.latest k) = false) :
    ∃ status, xs.latest k = some status ∧ status ≠ .failed := by
  cases hlatest : xs.latest k with
  | none =>
    rw [hlatest] at h
    cases h
  | some status =>
    refine ⟨status, rfl, fun hfailed => ?_⟩
    rw [hlatest, hfailed] at h
    cases h

/-- What is admitted under failed-only is new, or failed. -/
theorem latest_of_admitted (h : ReusePolicy.allowDuplicateFailedOnly.admits (xs.latest k) = true) :
    xs.latest k = none ∨ xs.latest k = some .failed := by
  cases hlatest : xs.latest k with
  | none => exact .inl rfl
  | some status =>
    rw [hlatest] at h
    cases status with
    | running => cases h
    | completed => cases h
    | failed => exact .inr rfl

section steps
variable [DecidableEq κ]

/-- The executions after a start, and whether it got one. -/
def start (xs : Executions κ) (policy : ReusePolicy) (k : κ) : Executions κ × Bool :=
  if policy.admits (xs.latest k) then
    (⟨Function.update xs.runs k (.running :: xs.runs k)⟩, true)
  else (xs, false)

/-- The execution that runs under the id ends. -/
def finish (xs : Executions κ) (k : κ) (status : RunStatus) : Option (Executions κ) :=
  match xs.runs k with
  | .running :: rest =>
    if status = .running then none
    else some ⟨Function.update xs.runs k (status :: rest)⟩
  | _ => none

theorem Sound.start (h : xs.Sound) : (xs.start policy k).1.Sound := by
  unfold Executions.start
  split
  · rename_i hadmits
    intro k' status hstatus
    by_cases hk : k' = k
    · rw [hk] at hstatus
      simp only [Function.update_self, List.tail_cons] at hstatus
      -- what was there does not run, or the start is refused
      intro hrunning
      rw [hrunning] at hstatus
      cases hruns : xs.runs k with
      | nil => rw [hruns] at hstatus; cases hstatus
      | cons last rest =>
        have htail := h k .running
        rw [hruns] at hstatus htail
        rcases List.mem_cons.1 hstatus with hlast | hrest
        · have hlatest : xs.latest k = some .running := by
            unfold latest
            rw [hruns, ← hlast]
            rfl
          rw [hlatest, admits_running] at hadmits
          cases hadmits
        · exact htail hrest rfl
    · simp only [Function.update_of_ne hk] at hstatus
      exact h k' status hstatus
  · exact h

theorem Sound.finish (h : xs.Sound) {status : RunStatus} (hfinish : xs.finish k status = some xs') :
    xs'.Sound := by
  unfold Executions.finish at hfinish
  split at hfinish
  · rename_i rest hruns
    split at hfinish
    · cases hfinish
    · cases hfinish
      intro k' status' hstatus
      by_cases hk : k' = k
      · rw [hk] at hstatus
        simp only [Function.update_self, List.tail_cons] at hstatus
        have htail := h k status'
        rw [hruns] at htail
        exact htail hstatus
      · simp only [Function.update_of_ne hk] at hstatus
        exact h k' status' hstatus
  · cases hfinish

end steps

end Executions

end Lib
