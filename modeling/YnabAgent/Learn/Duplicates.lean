import YnabAgent.Learn.Feeds
import YnabAgent.Learn.Evidence

/-!
# One rule for each preference

A confirmation and a blessing look for an equivalent rule before they seed one; a correction does
not, and rewrites or seeds without looking. So the registry keeps one rule for each match and action
as long as no correction lands on a preference another rule holds (`distinct_iff`), and one that
does leaves two of them (`duplicate_after_correction`).
-/

namespace YnabAgent

/-- The match and action of a rule. -/
def Rule.preference (r : Rule) : RuleMatch × RuleAction := (r.match, r.action)

/-- No two rules share an id, and no two share a match and an action. -/
structure RegistryState.Distinct (s : RegistryState) : Prop where
  ids : s.ids.Nodup
  preferences : (s.rules.map Rule.preference).Nodup

instance (s : RegistryState) : Decidable s.Distinct :=
  decidable_of_iff (s.ids.Nodup ∧ (s.rules.map Rule.preference).Nodup)
    ⟨fun h => ⟨h.1, h.2⟩, fun h => ⟨h.1, h.2⟩⟩

/-- A correction lands on a preference another rule of the table holds: the rule its prior names
would be rewritten to it, or there is no such rule and it would be seeded. -/
def CorrectCollides (rules : List Rule) (event : CorrectDecision) : Prop :=
  match findRule rules event.priorRuleId with
  | some target => ∃ r ∈ rules, r.id ≠ target.id ∧ r.preference = (target.match, event.action)
  | none => ∃ r ∈ rules, r.preference = (event.match, event.action)

/-- The signal is a correction that lands on a preference another rule holds. -/
def RegistryBeat.Collides (beat : RegistryBeat) : Prop :=
  match beat.op with
  | .record feed _ _ =>
    ∃ event, learningEvent feed = some (.correct event) ∧ CorrectCollides beat.pre.rules event
  | _ => False

section tables
variable {rules : List Rule} {now : Datetime} {nextId : RuleId}

theorem preference_of_findEquivalent {m : RuleMatch} {action : RuleAction}
    (h : findEquivalent rules m action = none) : ∀ r ∈ rules, r.preference ≠ (m, action) := by
  intro r hr heq
  have := List.find?_eq_none.1 h r hr
  unfold Rule.preference at heq
  simp_all

theorem preferences_confirm (hnd : (rules.map Rule.id).Nodup)
    (hpref : (rules.map Rule.preference).Nodup) (event : ConfirmCategory) (k : Nat) :
    ((confirm now nextId rules event k).rules.map Rule.preference).Nodup := by
  unfold confirm
  split
  · rename_i hnone
    apply (Lib.nodup_append_iff hpref _).2
    -- no target is no equivalent rule
    unfold confirmTarget at hnone
    split at hnone
    · cases hnone
    · exact preference_of_findEquivalent hnone
  · rename_i target htarget
    have hkeep : (replaceRule rules (strengthen now k target)).map Rule.preference
        = rules.map Rule.preference :=
      map_replaceRule hnd (mem_of_confirmTarget htarget).1 _ rfl rfl
    exact hkeep ▸ hpref

theorem preferences_bless (hnd : (rules.map Rule.id).Nodup)
    (hpref : (rules.map Rule.preference).Nodup) (event : ExplicitCommand) :
    ((bless now nextId rules event).rules.map Rule.preference).Nodup := by
  unfold bless
  split
  · rename_i hnone
    exact (Lib.nodup_append_iff hpref _).2 (preference_of_findEquivalent hnone)
  · rename_i target htarget
    have hkeep : (replaceRule rules (grant now target)).map Rule.preference
        = rules.map Rule.preference :=
      map_replaceRule hnd (mem_of_findEquivalent htarget).1 _ rfl rfl
    exact hkeep ▸ hpref

/-- A correction keeps the preferences distinct iff it does not land on one another rule holds. -/
theorem preferences_correct_iff (hnd : (rules.map Rule.id).Nodup)
    (hpref : (rules.map Rule.preference).Nodup) (event : CorrectDecision) :
    ((correct now nextId rules event).rules.map Rule.preference).Nodup ↔
      ¬ CorrectCollides rules event := by
  unfold correct CorrectCollides
  split
  · rename_i hnone
    rw [hnone]
    simp only [not_exists, not_and]
    exact Lib.nodup_append_iff hpref _
  · rename_i target htarget
    rw [htarget]
    simp only [not_exists, not_and]
    exact Lib.nodup_updateAt_iff hnd hpref (mem_of_findRule htarget).1 _

end tables

section signals
variable {text : PyText} {s : RegistryState}

theorem preferences_record_iff (hs : s.Distinct) {feed : FeedRuleLearning} {now : Datetime}
    {nextId : RuleId} :
    ((s.recordLearning feed now nextId).rules.map Rule.preference).Nodup ↔
      ¬ RegistryBeat.Collides ⟨s, .record feed now nextId⟩ := by
  unfold RegistryState.recordLearning planRuleUpdate RegistryBeat.Collides
  cases hev : learningEvent feed with
  | none => simpa [hev] using hs.preferences
  | some event =>
    cases event with
    | confirm event =>
      simpa [hev, applyLearning] using preferences_confirm hs.ids hs.preferences event kDefault
    | correct event =>
      simpa [hev, applyLearning] using preferences_correct_iff hs.ids hs.preferences event
    | explicit event =>
      simpa [hev, applyLearning] using preferences_bless hs.ids hs.preferences event

theorem preferences_blessById (hs : s.Distinct) (id : RuleId) (now : Datetime) :
    (s.blessById id now).rules.map Rule.preference = s.rules.map Rule.preference := by
  unfold RegistryState.blessById
  split
  · rename_i target htarget
    obtain ⟨hm, hid⟩ := Lib.mem_of_lookup htarget
    split
    · apply Lib.map_updateAt
      intro r hr hrid
      rw [Lib.eq_of_key_eq hs.ids hr hm (hrid.trans hid.symm)]
      rfl
    · rfl
  · rfl

theorem preferences_revokePayee (payee : String) (now : Datetime) :
    (s.revokePayee text payee now).rules.map Rule.preference = s.rules.map Rule.preference := by
  unfold RegistryState.revokePayee
  simp only
  split
  · rfl
  · rw [List.map_map]
    apply List.map_congr_left
    intro r _
    rw [Function.comp_apply]
    split <;> rfl

theorem preferences_markOffered (id : RuleId) (now : Datetime) :
    (s.markOffered id now).rules.map Rule.preference = s.rules.map Rule.preference := by
  unfold RegistryState.markOffered
  apply Lib.map_updateAt
  intro r _ _
  unfold RegistryState.stampOffered
  split <;> rfl

/-- One signal keeps the rules distinct iff it does not collide. -/
theorem distinct_apply_iff {op : RegistryOp} (hs : s.Distinct) (hfresh : s.Fresh op) :
    (s.apply text op).Distinct ↔ ¬ RegistryBeat.Collides ⟨s, op⟩ := by
  have hids : (s.apply text op).ids.Nodup := apply_ids_nodup hs.ids hfresh
  have hsplit : (s.apply text op).Distinct ↔
      ((s.apply text op).rules.map Rule.preference).Nodup := ⟨fun h => h.2, fun h => ⟨hids, h⟩⟩
  rw [hsplit]
  cases op with
  | record feed now nextId => exact preferences_record_iff hs
  | bless command now nextId =>
    simp only [RegistryState.apply, RegistryBeat.Collides, not_false_eq_true, iff_true]
    exact preferences_bless hs.ids hs.preferences command
  | blessExisting ruleId now =>
    simp only [RegistryState.apply, RegistryBeat.Collides, not_false_eq_true, iff_true]
    rw [preferences_blessById hs]
    exact hs.preferences
  | revoke payee now =>
    simp only [RegistryState.apply, RegistryBeat.Collides, not_false_eq_true, iff_true]
    rw [preferences_revokePayee]
    exact hs.preferences
  | markOffered ruleId now =>
    simp only [RegistryState.apply, RegistryBeat.Collides, not_false_eq_true, iff_true]
    rw [preferences_markOffered]
    exact hs.preferences

end signals

section runs
variable {text : PyText} {s t : RegistryState} {beats : List RegistryBeat}

/-- A run that is distinct throughout is distinct where it starts. -/
theorem distinct_start (h : RegistryRun text s beats t)
    (hall : (∀ beat ∈ beats, beat.pre.Distinct) ∧ t.Distinct) : s.Distinct := by
  cases h with
  | nil => exact hall.2
  | cons hstep _ =>
    cases hstep with
    | fold hfresh => exact hall.1 _ List.mem_cons_self

theorem distinct_iff_of_distinct (h : RegistryRun text s beats t) (hs : s.Distinct) :
    ((∀ beat ∈ beats, beat.pre.Distinct) ∧ t.Distinct) ↔ ∀ beat ∈ beats, ¬ beat.Collides := by
  induction h with
  | nil _ => simpa using hs
  | cons hstep hrest ih =>
    cases hstep with
    | fold hfresh =>
      have hstep_iff := @distinct_apply_iff text _ _ hs hfresh
      rw [List.forall_mem_cons, List.forall_mem_cons]
      constructor
      · rintro ⟨⟨-, hpre⟩, ht⟩
        have hnext := distinct_start hrest ⟨hpre, ht⟩
        exact ⟨hstep_iff.1 hnext, (ih hnext).1 ⟨hpre, ht⟩⟩
      · rintro ⟨hfirst, hmore⟩
        obtain ⟨hpre, ht⟩ := (ih (hstep_iff.2 hfirst)).2 hmore
        exact ⟨⟨hs, hpre⟩, ht⟩

/-- **The registry keeps one rule for each preference** in every table of a run iff no correction of
the run lands on a preference that another rule holds. -/
theorem distinct_iff (h : RegistryRun text {} beats t) :
    ((∀ beat ∈ beats, beat.pre.Distinct) ∧ t.Distinct) ↔ ∀ beat ∈ beats, ¬ beat.Collides :=
  distinct_iff_of_distinct h ⟨List.nodup_nil, List.nodup_nil⟩

end runs

/-- Dining confirmed once, and then groceries corrected to dining: the correction seeds a second
dining rule for the café, under a fresh id. -/
theorem duplicate_after_correction :
    ∃ beats t, RegistryRun PyText.ascii {} beats t ∧ t.ids.Nodup ∧ ¬ t.Distinct :=
  ⟨_, _, foldOps_run PyText.ascii {}
    [.record (confirmChoice "Corner Cafe" "dining") 0 "r1",
      .record (correctChoice "Corner Cafe" "groceries" "dining" none) 1 "r2"]
    (by decide), by decide, by decide⟩

/-- The market's three confirmations and the café's corrected two stay one rule each. -/
theorem distinct_steadyFeeds :
    ((∀ beat ∈ (foldOps PyText.ascii {} steadyFeeds).1, beat.pre.Distinct) ∧
      (foldOps PyText.ascii {} steadyFeeds).2.Distinct) ↔
      ∀ beat ∈ (foldOps PyText.ascii {} steadyFeeds).1, ¬ beat.Collides :=
  distinct_iff (foldOps_run PyText.ascii {} steadyFeeds (by decide))

end YnabAgent
