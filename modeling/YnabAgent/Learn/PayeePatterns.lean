import YnabAgent.Learn.Evidence
import YnabAgent.Learn.Feeds
import YnabAgent.Policy.Ruling
import YnabAgent.Ynab.Client

/-!
# The payee patterns of the rules

The pattern of a learned rule is the payee of the feed that seeded it, and the decoder reads a
missing payee as the empty text, which is part of every payee. Nothing else sets a pattern, so the
rules stay off the blank pattern iff no feed of a blank payee seeds one (`patterns_nonblank_iff`).
-/

namespace YnabAgent

/-- `not s.strip()`. -/
def Blank (text : PyText) (s : String) : Prop := text.strip s = ""

instance (text : PyText) (s : String) : Decidable (Blank text s) := by
  unfold Blank; infer_instance

/-- No rule of the table has a blank pattern. -/
def NonBlank (text : PyText) (s : RegistryState) : Prop :=
  ∀ r ∈ s.rules, ¬ Blank text r.match.payeePattern

/-- The rule of the table that an event strengthens, rewrites or blesses. -/
def LearningEvent.target (rules : List Rule) : LearningEvent → Option Rule
  | .confirm event => confirmTarget rules event
  | .correct event => findRule rules event.priorRuleId
  | .explicit event => findEquivalent rules event.match event.action

/-- The signal is a feed of a blank payee that teaches something and finds no rule. -/
def RegistryBeat.SeedsBlank (text : PyText) (beat : RegistryBeat) : Prop :=
  ∃ feed now nextId event, beat.op = .record feed now nextId ∧ learningEvent feed = some event ∧
    Blank text feed.payee ∧ event.target beat.pre.rules = none

/-- The signals of the law: learning feeds, and acceptances of offered rules. -/
def RegistryOp.FeedOrAccept (op : RegistryOp) : Prop :=
  op.IsFeed ∨ ∃ ruleId now, op = .blessExisting ruleId now

section feeds
variable {text : PyText} {s : RegistryState} {feed : FeedRuleLearning} {now : Datetime}
  {nextId : RuleId}

theorem seedsBlank_iff {event : LearningEvent} (h : learningEvent feed = some event) :
    RegistryBeat.SeedsBlank text ⟨s, .record feed now nextId⟩ ↔
      Blank text feed.payee ∧ event.target s.rules = none := by
  constructor
  · rintro ⟨feed', now', nextId', event', hop, hev, hblank, htarget⟩
    cases hop
    rw [h] at hev
    cases hev
    exact ⟨hblank, htarget⟩
  · rintro ⟨hblank, htarget⟩
    exact ⟨feed, now, nextId, event, rfl, h, hblank, htarget⟩

/-- The patterns of a table whose rows keep their matches. -/
theorem nonBlank_congr {rules rules' : List Rule}
    (h : rules'.map Rule.match = rules.map Rule.match) :
    (∀ r ∈ rules', ¬ Blank text r.match.payeePattern) ↔
      ∀ r ∈ rules, ¬ Blank text r.match.payeePattern := by
  have key : ∀ l : List Rule, (∀ r ∈ l, ¬ Blank text r.match.payeePattern) ↔
      ∀ m ∈ l.map Rule.match, ¬ Blank text m.payeePattern := by
    intro l
    rw [List.forall_mem_map]
  rw [key rules', key rules, h]

theorem nonBlank_append {rules : List Rule} (r : Rule) :
    (∀ r' ∈ rules ++ [r], ¬ Blank text r'.match.payeePattern) ↔
      (∀ r' ∈ rules, ¬ Blank text r'.match.payeePattern) ∧ ¬ Blank text r.match.payeePattern := by
  rw [List.forall_mem_append, List.forall_mem_singleton]

/-- A feed keeps the patterns non-blank iff it does not seed a blank one. -/
theorem nonBlank_record_iff (hnd : s.ids.Nodup) :
    NonBlank text (s.recordLearning feed now nextId) ↔
      NonBlank text s ∧ ¬ RegistryBeat.SeedsBlank text ⟨s, .record feed now nextId⟩ := by
  have hstep := recordLearning_step s feed now nextId
  unfold NonBlank
  generalize (s.recordLearning feed now nextId).rules = after at hstep
  cases hstep with
  | nothing h =>
    have hno : ¬ RegistryBeat.SeedsBlank text ⟨s, .record feed now nextId⟩ := by
      rintro ⟨feed', now', nextId', event, hop, hev, -⟩
      cases hop
      rw [h] at hev
      cases hev
    simp [hno]
  | @strengthened event target h ht =>
    have hno : ¬ RegistryBeat.SeedsBlank text ⟨s, .record feed now nextId⟩ := by
      rw [seedsBlank_iff h]
      simp [LearningEvent.target, ht]
    rw [nonBlank_congr (map_replaceRule hnd (mem_of_confirmTarget ht).1
      (strengthen now kDefault target) rfl rfl)]
    simp [hno]
  | @confirmed event h ht =>
    rw [nonBlank_append, seedsBlank_iff h]
    simp [LearningEvent.target, ht, confirmSeed, (learningEvent_confirm h).2.1]
  | @rewritten event target h ht =>
    have hno : ¬ RegistryBeat.SeedsBlank text ⟨s, .record feed now nextId⟩ := by
      rw [seedsBlank_iff h]
      simp [LearningEvent.target, ht]
    rw [nonBlank_congr (map_replaceRule hnd (mem_of_findRule ht).1 (rewrite now event.action target)
      rfl rfl)]
    simp [hno]
  | @corrected event h ht =>
    rw [nonBlank_append, seedsBlank_iff h]
    simp [LearningEvent.target, ht, correctSeed, (learningEvent_correct h).2.1]

theorem nonBlank_blessById_iff (hnd : s.ids.Nodup) (id : RuleId) (now : Datetime) :
    NonBlank text (s.blessById id now) ↔ NonBlank text s := by
  unfold RegistryState.blessById NonBlank
  split
  · rename_i target htarget
    obtain ⟨hm, hid⟩ := Lib.mem_of_lookup htarget
    split
    · apply nonBlank_congr
      apply Lib.map_updateAt
      intro r hr hrid
      rw [Lib.eq_of_key_eq hnd hr hm (hrid.trans hid.symm)]
    · rfl
  · rfl

end feeds

/-- Every `AUTO` ruling over the table rests on a blessed rule whose non-blank pattern is part of
the payee. -/
def AutoRestsOnPattern (text : PyText) (s : RegistryState) : Prop :=
  ∀ (snapshot : YnabSnapshot) (counters : AutoActionCounters) (policy : FloorPolicy),
    (evaluateGate text snapshot (s.rulesForPayee text snapshot.payee) counters policy).verdict
      = .auto →
    ∃ rule ∈ s.rules,
      (evaluateGate text snapshot (s.rulesForPayee text snapshot.payee) counters policy).ruleId
        = some rule.id ∧ rule.Blessed ∧ ¬ Blank text rule.match.payeePattern ∧
      isInText (text.lower rule.match.payeePattern) (text.lower snapshot.payee) = true

theorem autoRestsOnPattern_of_nonBlank {text : PyText} {s : RegistryState} (h : NonBlank text s) :
    AutoRestsOnPattern text s := by
  intro snapshot counters policy hauto
  obtain ⟨rule, hmem, hid, hblessed, hpattern⟩ := rule_of_auto hauto
  exact ⟨rule, hmem, hid, hblessed, h rule hmem, hpattern⟩

section runs
variable {text : PyText} {s t : RegistryState} {beats : List RegistryBeat}

theorem nonBlank_run_iff (h : RegistryRun text s beats t) (hnd : s.ids.Nodup)
    (hops : ∀ beat ∈ beats, beat.op.FeedOrAccept) :
    NonBlank text t ↔ NonBlank text s ∧ ∀ beat ∈ beats, ¬ beat.SeedsBlank text := by
  induction h with
  | nil _ => simp
  | cons hstep _ ih =>
    cases hstep with
    | @fold op hfresh =>
      rw [List.forall_mem_cons] at hops ⊢
      rw [ih (apply_ids_nodup hnd hfresh) hops.2]
      rcases hops.1 with ⟨feed, now, nextId, rfl⟩ | ⟨ruleId, now, rfl⟩
      · unfold RegistryState.apply
        rw [nonBlank_record_iff hnd, and_assoc]
      · unfold RegistryState.apply
        rw [nonBlank_blessById_iff hnd]
        -- an acceptance seeds nothing
        simp [RegistryBeat.SeedsBlank]

/-- **No rule governs every payee.** After feeds of any transactions and acceptances of any rules,
every rule has a non-blank pattern, and an `AUTO` ruling rests on a blessed rule whose pattern is
part of the payee, iff no feed of a blank payee seeded a rule. -/
theorem patterns_nonblank_iff (h : RegistryRun text {} beats t)
    (hops : ∀ beat ∈ beats, beat.op.FeedOrAccept) :
    NonBlank text t ∧ AutoRestsOnPattern text t ↔ ∀ beat ∈ beats, ¬ beat.SeedsBlank text := by
  have hrun := nonBlank_run_iff h List.nodup_nil hops
  have hempty : NonBlank text {} := by
    intro r hr
    cases hr
  constructor
  · rintro ⟨hnon, -⟩
    exact (hrun.1 hnon).2
  · intro hseeds
    have hnon := hrun.2 ⟨hempty, hseeds⟩
    exact ⟨hnon, autoRestsOnPattern_of_nonBlank hnon⟩

end runs

/-! ## A charge without a payee -/

/-- A charge whose payee YNAB does not name. -/
def payeelessWire : WireTransaction :=
  { id := "t9", accountId := "checking", date := 739000, amount := -12000, approved := false }

/-- What the decoder makes of it. -/
def payeelessSnapshot : YnabSnapshot :=
  { ynabId := "t9", account := "checking", payee := "", amount := ⟨-12000⟩, txnDate := 739000 }

/-- A human's choice of fees for that charge, as the lifecycle feeds it. -/
def payeelessFeed : FeedRuleLearning :=
  { event := .confirm, payee := payeelessSnapshot.payee,
    decision := some { allocation := .category "fees" none, approved := true, decidedBy := .human,
                       decidedAt := 0 } }

/-- Three such choices, and the acceptance of the rule they earned. -/
def payeelessOps : List RegistryOp :=
  [.record payeelessFeed 0 "r1", .record payeelessFeed 1 "r2", .record payeelessFeed 2 "r3",
    .blessExisting "r1" 3]

/-- The rule learned there files the supermarket's charge without asking. -/
theorem payeeless_rule_governs :
    toSnapshot PyText.ascii payeelessWire = .ok payeelessSnapshot ∧
    ∃ beats t, RegistryRun PyText.ascii {} beats t ∧ (∀ beat ∈ beats, beat.op.FeedOrAccept) ∧
      ¬ NonBlank PyText.ascii t ∧
      evaluateGate PyText.ascii marketSnapshot (t.rulesForPayee PyText.ascii "Market") {}
        cautiousFloor =
        { verdict := .auto, ruleId := some "r1",
          reason := "single blessed rule clearly applies" } := by
  refine ⟨rfl, _, _, foldOps_run PyText.ascii {} payeelessOps (by decide), ?_, ?_, by decide⟩
  · simp only [payeelessOps, foldOps, List.forall_mem_cons, List.not_mem_nil, false_imp_iff,
      implies_true, and_true]
    exact ⟨.inl ⟨_, _, _, rfl⟩, .inl ⟨_, _, _, rfl⟩, .inl ⟨_, _, _, rfl⟩, .inr ⟨_, _, rfl⟩⟩
  · unfold NonBlank
    decide

/-- The café's feeds have a payee, and its rule a pattern. -/
theorem cafe_patterns_nonblank :
    NonBlank PyText.ascii (foldOps PyText.ascii {} steadyFeeds).2 ∧
      AutoRestsOnPattern PyText.ascii (foldOps PyText.ascii {} steadyFeeds).2 ↔
      ∀ beat ∈ (foldOps PyText.ascii {} steadyFeeds).1, ¬ beat.SeedsBlank PyText.ascii := by
  apply patterns_nonblank_iff (foldOps_run PyText.ascii {} steadyFeeds (by decide))
  refine forall_foldOps fun op hop => ?_
  obtain ⟨feed, now, nextId, heq, -⟩ := steadyFeeds_human op hop
  exact .inl ⟨feed, now, nextId, heq⟩

end YnabAgent
