import YnabAgent.Learn.Folds

/-!
# What an accepted offer blesses

An offer names a rule's match and action, an acceptance names only the rule's id. Between the two
the registry may fold any signals. A rule keeps its id and match for ever, and its action is the one
of the last correction that named it (`action_of_run`), so an acceptance blesses what was offered
exactly when the rule is no longer eligible or was last corrected to the offered action
(`accept_blesses_offered_iff`).
-/

namespace YnabAgent

/-- The action of the last correction of the rule, if there was one. -/
def lastCorrectedTo (id : RuleId) (ops : List RegistryOp) : Option RuleAction :=
  ops.foldl (fun last op => (op.correctedTo id).or last) none

theorem lastCorrectedTo_append (id : RuleId) (ops : List RegistryOp) (op : RegistryOp) :
    lastCorrectedTo id (ops ++ [op]) = (op.correctedTo id).or (lastCorrectedTo id ops) := by
  unfold lastCorrectedTo
  rw [List.foldl_append]
  rfl

section runs
variable {text : PyText} {s t : RegistryState} {beats : List RegistryBeat}

/-- Through any signals a rule keeps its id and match, and its action is that of the last correction
that named it. -/
theorem action_of_run (h : RegistryRun text s beats t) (hnd : s.ids.Nodup) {r : Rule}
    (hr : r ∈ s.rules) :
    ∃ r' ∈ t.rules, r'.id = r.id ∧ r'.match = r.match ∧
      r'.action = (lastCorrectedTo r.id (beats.map RegistryBeat.op)).getD r.action := by
  have H : (∃ r' ∈ t.rules, r'.id = r.id ∧ r'.match = r.match ∧
      r'.action = (lastCorrectedTo r.id (beats.map RegistryBeat.op)).getD r.action) ∧
      t.ids.Nodup := by
    refine Lib.Run.history (P := fun beats u => (∃ r' ∈ u.rules, r'.id = r.id ∧
      r'.match = r.match ∧
      r'.action = (lastCorrectedTo r.id (beats.map RegistryBeat.op)).getD r.action) ∧
      u.ids.Nodup) h ⟨⟨r, hr, rfl, rfl, rfl⟩, hnd⟩ ?_
    rintro beats u beat v - ⟨⟨r', hr', hid, hmatch, haction⟩, hund⟩ hstep
    cases hstep with
    | fold hfresh =>
      obtain ⟨r'', hr'', hrow⟩ := exists_row hund hr'
      refine ⟨⟨r'', hr'', hrow.id_eq.trans hid, hrow.match_eq.trans hmatch, ?_⟩,
        apply_ids_nodup hund hfresh⟩
      rw [hrow.action_eq, hid, haction, List.map_append, List.map_singleton,
        lastCorrectedTo_append]
      cases RegistryOp.correctedTo r.id _ <;> rfl
  exact H.1

/-- A rule becomes blessed: it is blessed now and was not before. -/
def BecomesBlessed (before after : RegistryState) (b : Rule) : Prop :=
  b ∈ after.rules ∧ b.Blessed ∧ ∀ r ∈ before.rules, r.id = b.id → ¬ r.Blessed

/-- An acceptance blesses the rule its id names, if that rule is eligible, and no other. -/
theorem becomesBlessed_blessById {id : RuleId} (now : Datetime) (hnd : t.ids.Nodup) {r : Rule}
    (hr : r ∈ t.rules) (hid : r.id = id) (b : Rule) :
    BecomesBlessed t (t.blessById id now) b ↔ r.Eligible ∧ b = grant now r := by
  unfold BecomesBlessed RegistryState.blessById
  rw [Lib.lookup_of_mem hnd hr hid]
  simp only
  by_cases helig : r.Eligible
  · have hgrant : ({ r with source := .humanExplicit, lastConfirmedAt := some now } : Rule)
        = grant now r := by
      unfold grant; rw [← helig.1]
    rw [if_pos helig, hgrant]
    constructor
    · rintro ⟨hb, hblessed, hbefore⟩
      rcases Lib.mem_updateAt.1 hb with ⟨hb, -⟩ | ⟨c, -, -, rfl⟩
      · exact absurd hblessed (hbefore b hb rfl)
      · exact ⟨helig, rfl⟩
    · rintro ⟨-, rfl⟩
      refine ⟨Lib.mem_updateAt.2 (.inr ⟨r, hr, hid, rfl⟩), ⟨rfl, rfl⟩, ?_⟩
      intro c hc hcid hcb
      have hcr : c = r := Lib.eq_of_key_eq hnd hc hr hcid
      rw [hcr] at hcb
      have hsource := helig.2.symm.trans hcb.2
      exact absurd hsource (by decide)
  · rw [if_neg helig]
    constructor
    · rintro ⟨hb, hblessed, hbefore⟩
      exact absurd hblessed (hbefore b hb rfl)
    · rintro ⟨h, -⟩
      exact absurd h helig

/-- **An acceptance blesses what was offered** exactly when the rule is not eligible any more, or
was not corrected since the offer, or was last corrected to the offered action. -/
theorem accept_blesses_offered_iff (h : RegistryRun text s beats t) (hnd : s.ids.Nodup)
    {offered : Rule} (hoffered : offered ∈ s.rules) (now : Datetime) :
    (∀ b, BecomesBlessed t (t.apply text (.blessExisting offered.id now)) b →
        b.match = offered.match ∧ b.action = offered.action) ↔
      (∀ r ∈ t.rules, r.id = offered.id → ¬ r.Eligible) ∨
        ∀ a ∈ lastCorrectedTo offered.id (beats.map RegistryBeat.op), a = offered.action := by
  obtain ⟨r, hr, hid, hmatch, haction⟩ := action_of_run h hnd hoffered
  have htnd := h.ids_nodup hnd
  have hblessed := becomesBlessed_blessById now htnd hr hid
  simp only [RegistryState.apply, hblessed]
  have hact : r.action = offered.action ↔
      ∀ a ∈ lastCorrectedTo offered.id (beats.map RegistryBeat.op), a = offered.action := by
    rw [haction]
    cases lastCorrectedTo offered.id (beats.map RegistryBeat.op) <;> simp
  rw [← hact]
  constructor
  · intro hb
    by_cases helig : r.Eligible
    · exact .inr (hb _ ⟨helig, rfl⟩).2
    · refine .inl fun c hc hcid => ?_
      rw [Lib.eq_of_key_eq htnd hc hr (hcid.trans hid.symm)]
      exact helig
  · rintro (hne | heq) b ⟨helig, rfl⟩
    · exact absurd helig (hne r hr hid)
    · exact ⟨hmatch, heq⟩

end runs

/-! ## Consent carried to another action -/

/-- The café's rule when its offer is e-mailed: eligible for dining. -/
def offeredRule : Rule :=
  { id := "r1", «match» := { payeePattern := "Corner Cafe" },
    action := { allocation := .category "dining" none }, trust := .trusted, hits := 3,
    source := .learned, offeredAt := some 0 }

/-- A correction of the rule's decision to groceries, and groceries confirmed three times. -/
def correctedAndReearned : List RegistryOp :=
  let groceries : Decision :=
    { allocation := .category "groceries" none, approved := true, decidedBy := .human,
      decidedAt := 0 }
  let dining : Decision :=
    { allocation := .category "dining" none, approved := true, decidedBy := .agent, decidedAt := 0,
      ruleId := some "r1" }
  let confirmed : FeedRuleLearning :=
    { event := .confirm, payee := "Corner Cafe", decision := some groceries }
  [.record { event := .correct, payee := "Corner Cafe", decision := some groceries,
             prior := some dining } 1 "r2",
    .record confirmed 2 "r3", .record confirmed 3 "r4", .record confirmed 4 "r5"]

/-- The acceptance of the dining offer then blesses groceries. -/
theorem accept_blesses_corrected_action :
    ∃ beats t, RegistryRun PyText.ascii { rules := [offeredRule] } beats t ∧
      ∃ b, BecomesBlessed t (t.apply PyText.ascii (.blessExisting offeredRule.id 5)) b ∧
        b.action ≠ offeredRule.action := by
  refine ⟨_, _, foldOps_run PyText.ascii { rules := [offeredRule] } correctedAndReearned
    (by decide), ?_⟩
  have hrule : ∃ r ∈ (foldOps PyText.ascii { rules := [offeredRule] } correctedAndReearned).2.rules,
      r.id = offeredRule.id ∧ r.Eligible ∧ r.action ≠ offeredRule.action := by decide
  obtain ⟨r, hr, hid, helig, haction⟩ := hrule
  exact ⟨grant 5 r, (becomesBlessed_blessById 5 (by decide) hr hid _).2 ⟨helig, rfl⟩, haction⟩

/-- Dining confirmed once more. -/
def confirmedOnceMore : List RegistryOp :=
  [.record { event := .confirm, payee := "Corner Cafe",
             decision := some { allocation := .category "dining" none, approved := true,
                                decidedBy := .human, decidedAt := 1 } } 1 "r2"]

/-- Accepted after one more confirmation, the offer blesses dining. -/
theorem accept_after_confirm :
    ∃ beats t, RegistryRun PyText.ascii { rules := [offeredRule] } beats t ∧
      beats.map RegistryBeat.op = confirmedOnceMore ∧
      (∃ b, BecomesBlessed t (t.apply PyText.ascii (.blessExisting offeredRule.id 2)) b ∧
        b.hits = 4) ∧
      ∀ b, BecomesBlessed t (t.apply PyText.ascii (.blessExisting offeredRule.id 2)) b →
        b.match = offeredRule.match ∧ b.action = offeredRule.action := by
  have hrun := foldOps_run PyText.ascii { rules := [offeredRule] } confirmedOnceMore (by decide)
  refine ⟨_, _, hrun, rfl, ?_, ?_⟩
  · have hrule : ∃ r ∈ (foldOps PyText.ascii { rules := [offeredRule] } confirmedOnceMore).2.rules,
        r.id = offeredRule.id ∧ r.Eligible ∧ r.hits = 4 := by decide
    obtain ⟨r, hr, hid, helig, hhits⟩ := hrule
    exact ⟨grant 2 r, (becomesBlessed_blessById 2 (by decide) hr hid _).2 ⟨helig, rfl⟩, hhits⟩
  · refine (accept_blesses_offered_iff hrun (by decide) (List.mem_singleton.2 rfl) 2).2 (.inr ?_)
    decide

end YnabAgent
