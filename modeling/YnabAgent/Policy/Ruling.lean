import YnabAgent.Agentic.Ratchet
import YnabAgent.Learn.Registry

/-!
# What the gate rules on

The activity asks the registry for the rules on a transaction's payee (`rules_for_payee` in
`learn/registry.py`), and the gate (`policy/gate.py`) rules on what it is given. The ruling reads
the rules only through the blessed ones that match (`evaluateGate_congr`), so the payee's rules are
as good as all of them, in any order and among any that are not blessed (`gate_ruling`).
-/

namespace YnabAgent

section ruling
variable {text : PyText} {snapshot : YnabSnapshot} {rules rules' extra : List Rule}
  {counters : AutoActionCounters} {policy : FloorPolicy}

/-- The gate reads the rules only through those that may gate, in any order. -/
theorem evaluateGate_congr
    (h : (blessedMatches text rules snapshot).Perm (blessedMatches text rules' snapshot)) :
    evaluateGate text snapshot rules counters policy =
      evaluateGate text snapshot rules' counters policy := by
  unfold evaluateGate
  simp only
  split
  · rfl
  · split
    · rfl
    · unfold blessedMatches at h
      generalize (matchingRules text rules snapshot).filter _ = l at h
      generalize (matchingRules text rules' snapshot).filter _ = l' at h
      -- a list and a permutation of it are both empty, both one rule, or both longer
      have hlen := h.length_eq
      rcases l with _ | ⟨rule, _ | ⟨second, l⟩⟩ <;> rcases l' with _ | ⟨rule', _ | ⟨second', l'⟩⟩
      case cons.nil.cons.nil =>
        rw [List.singleton_perm_singleton] at h
        rw [h]
      case nil.nil => rfl
      case cons.cons.cons.cons => rfl
      all_goals simp at hlen

/-- A rule that matches is one the registry loads for the payee. -/
theorem payee_of_ruleMatches {rule : Rule} (h : ruleMatches text rule snapshot = true) :
    isInText (text.lower rule.match.payeePattern) (text.lower snapshot.payee) = true := by
  unfold ruleMatches at h
  simp only [Bool.and_eq_true] at h
  exact h.1.1.1

/-- Loading by payee hides no rule that may gate. -/
theorem blessedMatches_rulesForPayee (state : RegistryState) :
    blessedMatches text (state.rulesForPayee text snapshot.payee) snapshot =
      blessedMatches text state.rules snapshot := by
  unfold blessedMatches matchingRules RegistryState.rulesForPayee
  congr 1
  rw [List.filter_filter]
  apply List.filter_congr
  intro rule _
  cases hmatches : ruleMatches text rule snapshot with
  | true => simp [payee_of_ruleMatches hmatches]
  | false => simp

theorem blessedMatches_perm (h : rules.Perm rules') :
    (blessedMatches text rules snapshot).Perm (blessedMatches text rules' snapshot) :=
  (h.filter _).filter _

/-- Rules that are not blessed do not gate. -/
theorem blessedMatches_append (h : ∀ rule ∈ extra, ¬ rule.Blessed) :
    blessedMatches text (rules ++ extra) snapshot = blessedMatches text rules snapshot := by
  unfold blessedMatches matchingRules
  have hnone : (extra.filter fun rule => ruleMatches text rule snapshot).filter
      (fun rule => decide rule.Blessed) = [] := by
    rw [List.filter_eq_nil_iff]
    intro rule hrule
    simpa using h rule (List.mem_of_mem_filter hrule)
  rw [List.filter_append, List.filter_append, hnone, List.append_nil]

theorem evaluateGate_auto_iff :
    (evaluateGate text snapshot rules counters policy).verdict = .auto ↔
      checkFloor (some snapshot.amount) counters policy = .allow ∧
        snapshot.isMatchedImport = false ∧ ∃ rule, blessedMatches text rules snapshot = [rule] := by
  constructor
  · intro h
    obtain ⟨rule, hrule, -⟩ := evaluateGate_auto h
    refine ⟨checkFloor_of_auto text h, ?_, rule, hrule⟩
    cases hmatched : snapshot.isMatchedImport with
    | false => rfl
    | true =>
      unfold evaluateGate at h
      simp [checkFloor_of_auto text h, hmatched] at h
  · rintro ⟨hfloor, hmatched, rule, hrule⟩
    unfold evaluateGate
    unfold blessedMatches at hrule
    simp [hfloor, hmatched, hrule]

/-- An `AUTO` ruling over a payee's rules rests on a blessed rule whose pattern is part of the
payee. -/
theorem rule_of_auto {state : RegistryState}
    (h : (evaluateGate text snapshot (state.rulesForPayee text snapshot.payee) counters
      policy).verdict = .auto) :
    ∃ rule ∈ state.rules,
      (evaluateGate text snapshot (state.rulesForPayee text snapshot.payee) counters policy).ruleId
        = some rule.id ∧ rule.Blessed ∧
      isInText (text.lower rule.match.payeePattern) (text.lower snapshot.payee) = true := by
  obtain ⟨rule, hrule, hid⟩ := evaluateGate_auto h
  have hmem : rule ∈ blessedMatches text (state.rulesForPayee text snapshot.payee) snapshot := by
    rw [hrule]
    exact List.mem_singleton_self rule
  unfold blessedMatches at hmem
  obtain ⟨hmatching, hblessed⟩ := List.mem_filter.1 hmem
  obtain ⟨hloaded, hmatches⟩ := List.mem_filter.1 hmatching
  exact ⟨rule, List.mem_of_mem_filter hloaded, hid, of_decide_eq_true hblessed,
    payee_of_ruleMatches hmatches⟩

end ruling

/-- **The ruling.** The gate rules on the payee's rules as on all of them; the order of the rules
and rules that are not blessed do not count; and it rules `AUTO` exactly when the floor allows, the
transaction is no matched import, and one blessed rule matches. -/
theorem gate_ruling (text : PyText) (state : RegistryState) (snapshot : YnabSnapshot)
    (counters : AutoActionCounters) (policy : FloorPolicy) :
    evaluateGate text snapshot (state.rulesForPayee text snapshot.payee) counters policy =
      evaluateGate text snapshot state.rules counters policy ∧
    (∀ rules extra : List Rule, (∀ rule ∈ extra, ¬ rule.Blessed) →
      rules.Perm (state.rules ++ extra) →
      evaluateGate text snapshot rules counters policy =
        evaluateGate text snapshot state.rules counters policy) ∧
    ((evaluateGate text snapshot state.rules counters policy).verdict = .auto ↔
      checkFloor (some snapshot.amount) counters policy = .allow ∧
        snapshot.isMatchedImport = false ∧
        ∃ rule, blessedMatches text state.rules snapshot = [rule]) := by
  refine ⟨?_, ?_, evaluateGate_auto_iff⟩
  · apply evaluateGate_congr
    rw [blessedMatches_rulesForPayee]
  · intro rules extra hextra hperm
    apply evaluateGate_congr
    refine (blessedMatches_perm hperm).trans ?_
    rw [blessedMatches_append hextra]

end YnabAgent
