import YnabAgent.Learn.Feeds
import YnabAgent.Policy.Ruling

/-!
# After a revocation

Revoking a payee strips every granted rule the gate would load for it (`revokePayee_stripped`). No
signal but a blessing makes a grant, with or without distinct ids (`granted_of_mem`), so the payee
stays stripped and the gate asks for it whatever is learned later (`ask_after_revoke`).
-/

namespace YnabAgent

/-- The payee has no granted rule. -/
def Stripped (text : PyText) (payee : String) (s : RegistryState) : Prop :=
  ∀ r ∈ s.rules, isInText (text.lower r.match.payeePattern) (text.lower payee) = true →
    r.source ≠ .humanExplicit

section tables
variable {rules : List Rule} {r : Rule}

/-- A rule of the rewritten table was there before, or is the updated one. -/
theorem mem_of_replaceRule {updated : Rule} (h : r ∈ replaceRule rules updated) :
    r ∈ rules ∨ r = updated := by
  unfold replaceRule at h
  rcases Lib.mem_updateAt.1 h with ⟨h, -⟩ | ⟨-, -, -, h⟩
  · exact .inl h
  · exact .inr h

end tables

section signals
variable {text : PyText} {s : RegistryState} {r : Rule}

/-- A granted rule after a feed was granted before it, under the same match. -/
theorem granted_of_record {feed : FeedRuleLearning} {now : Datetime} {nextId : RuleId}
    (h : r ∈ (s.recordLearning feed now nextId).rules) (hs : r.source = .humanExplicit) :
    ∃ r₀ ∈ s.rules, r₀.match = r.match ∧ r₀.source = .humanExplicit := by
  have hstep := recordLearning_step s feed now nextId
  generalize (s.recordLearning feed now nextId).rules = after at h hstep
  cases hstep with
  | nothing _ => exact ⟨r, h, rfl, hs⟩
  | @strengthened _ target _ ht =>
    rcases mem_of_replaceRule h with h | rfl
    · exact ⟨r, h, rfl, hs⟩
    · exact ⟨target, (mem_of_confirmTarget ht).1, rfl, hs⟩
  | confirmed _ _ =>
    rcases List.mem_append.1 h with h | h
    · exact ⟨r, h, rfl, hs⟩
    · rw [List.mem_singleton.1 h] at hs
      cases hs
  | rewritten _ _ =>
    rcases mem_of_replaceRule h with h | rfl
    · exact ⟨r, h, rfl, hs⟩
    · cases hs
  | corrected _ _ =>
    rcases List.mem_append.1 h with h | h
    · exact ⟨r, h, rfl, hs⟩
    · rw [List.mem_singleton.1 h] at hs
      cases hs

theorem granted_of_revoke {payee : String} {now : Datetime}
    (h : r ∈ (s.revokePayee text payee now).rules) (hs : r.source = .humanExplicit) :
    r ∈ s.rules ∧ r.id ∉ s.revokeTargets text payee := by
  unfold RegistryState.revokePayee at h
  simp only at h
  split at h
  · rename_i hnone
    exact ⟨h, by rw [hnone]; exact List.not_mem_nil⟩
  · obtain ⟨r₀, hr₀, rfl⟩ := List.mem_map.1 h
    by_cases hid : r₀.id ∈ s.revokeTargets text payee
    · rw [if_pos hid] at hs
      cases hs
    · rw [if_neg hid]
      exact ⟨hr₀, hid⟩

theorem granted_of_markOffered {id : RuleId} {now : Datetime} (h : r ∈ (s.markOffered id now).rules)
    (hs : r.source = .humanExplicit) :
    ∃ r₀ ∈ s.rules, r₀.match = r.match ∧ r₀.source = .humanExplicit := by
  unfold RegistryState.markOffered at h
  rcases Lib.mem_updateAt.1 h with ⟨h, -⟩ | ⟨r₀, hr₀, -, rfl⟩
  · exact ⟨r, h, rfl, hs⟩
  · unfold RegistryState.stampOffered at hs ⊢
    split at hs <;> rename_i hnone
    · rw [if_pos hnone]; exact ⟨r₀, hr₀, rfl, hs⟩
    · rw [if_neg hnone]; exact ⟨r₀, hr₀, rfl, hs⟩

/-- A signal that is no blessing makes no grant, whatever the ids. -/
theorem granted_of_mem {op : RegistryOp} (hgrants : op.grants = false)
    (h : r ∈ (s.apply text op).rules) (hs : r.source = .humanExplicit) :
    ∃ r₀ ∈ s.rules, r₀.match = r.match ∧ r₀.source = .humanExplicit := by
  cases op with
  | record feed now nextId => exact granted_of_record h hs
  | bless command now nextId => cases hgrants
  | blessExisting ruleId now => cases hgrants
  | revoke payee now => exact ⟨r, (granted_of_revoke h hs).1, rfl, hs⟩
  | markOffered ruleId now => exact granted_of_markOffered h hs

/-- What a revocation strips is every granted rule the gate would load for the payee. -/
theorem revokePayee_stripped (text : PyText) (s : RegistryState) (payee : String) (now : Datetime) :
    Stripped text payee (s.revokePayee text payee now) := by
  intro r hr hpayee hs
  obtain ⟨hmem, hid⟩ := granted_of_revoke hr hs
  apply hid
  unfold RegistryState.revokeTargets RegistryState.rulesForPayee
  rw [List.mem_dedup]
  refine List.mem_map_of_mem (List.mem_filter.2 ⟨List.mem_filter.2 ⟨hmem, ?_⟩, ?_⟩)
  · exact hpayee
  · simpa using hs

theorem Stripped.apply {payee : String} {op : RegistryOp} (h : Stripped text payee s)
    (hgrants : op.grants = false) : Stripped text payee (s.apply text op) := by
  intro r hr hpayee hs
  obtain ⟨r₀, hr₀, hmatch, hs₀⟩ := granted_of_mem hgrants hr hs
  rw [← hmatch] at hpayee
  exact h r₀ hr₀ hpayee hs₀

theorem Stripped.foldOps {payee : String} {ops : List RegistryOp} (h : Stripped text payee s)
    (hgrants : ∀ op ∈ ops, op.grants = false) :
    Stripped text payee (YnabAgent.foldOps text s ops).2 := by
  induction ops generalizing s with
  | nil => exact h
  | cons op ops ih =>
    apply ih (h.apply (hgrants op List.mem_cons_self))
    intro op' hop'
    exact hgrants op' (List.mem_cons_of_mem _ hop')

end signals

/-- A stripped payee is asked about, under any spelling of its case. -/
theorem ask_of_stripped {text : PyText} {payee : String} {s : RegistryState}
    (h : Stripped text payee s) {snapshot : YnabSnapshot}
    (hpayee : text.lower snapshot.payee = text.lower payee) (counters : AutoActionCounters)
    (policy : FloorPolicy) :
    (evaluateGate text snapshot (s.rulesForPayee text snapshot.payee) counters policy).verdict
      ≠ .auto := by
  intro hauto
  obtain ⟨rule, hmem, -, hblessed, hpattern⟩ := rule_of_auto hauto
  rw [hpayee] at hpattern
  exact h rule hmem hpattern hblessed.2

/-- **A revocation stops the agent.** After it, and any later signals that are no blessings, the
gate does not rule `AUTO` for the payee in any case, whatever else the transaction and the
counters are. -/
theorem ask_after_revoke (text : PyText) (s : RegistryState) (payee : String) (now : Datetime)
    {ops : List RegistryOp} (hops : ∀ op ∈ ops, op.grants = false) (snapshot : YnabSnapshot)
    (hpayee : text.lower snapshot.payee = text.lower payee) (counters : AutoActionCounters)
    (policy : FloorPolicy) :
    (evaluateGate text snapshot
      ((foldOps text (s.revokePayee text payee now) ops).2.rulesForPayee text snapshot.payee)
      counters policy).verdict ≠ .auto :=
  ask_of_stripped ((revokePayee_stripped text s payee now).foldOps hops) hpayee counters policy

/-- The supermarket revoked in capitals, its rule then confirmed again and offered. -/
theorem market_asks_after_revoke :
    (evaluateGate PyText.ascii marketSnapshot
      ((foldOps PyText.ascii
        (RegistryState.revokePayee PyText.ascii { rules := [marketRule] } "MARKET" 0)
        [.record { event := .confirm, payee := "Market",
                   decision := some (buildAutoDecision marketRule marketSnapshot 1) } 1 "r2",
          .markOffered "r1" 2]).2.rulesForPayee PyText.ascii "Market") {} cautiousFloor).verdict
      ≠ .auto :=
  ask_after_revoke PyText.ascii { rules := [marketRule] } "MARKET" 0 (by simp [RegistryOp.grants])
    marketSnapshot (by decide) {} cautiousFloor

end YnabAgent
