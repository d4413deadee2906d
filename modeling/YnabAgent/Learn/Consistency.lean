import YnabAgent.Learn.Evidence
import YnabAgent.Learn.Feeds
import Mathlib.Data.List.Find

/-!
# Which confirmations are consistent

A confirmation counts on a rule of its whole action: the category, the person tag and the memo. So a
payee has a trusted rule for a category iff `K` confirmations were counted on one rule since a feed
began it for that payee and a whole action of that category (`trusted_iff`). `K` human confirmations
of one action are enough while no correction names the payee's rules (`trusted_of_consistent`);
decisions that differ in their memos alone share no rule (`category_alone_is_not_enough`).
-/

namespace YnabAgent

/-- The action files the whole amount under the category. -/
def RuleAction.Files (action : RuleAction) (category : CategoryId) : Prop :=
  ∃ tag, action.allocation = .category category tag

/-- The table has a trusted rule for the payee and category. -/
def TrustedFor (payee : String) (category : CategoryId) (s : RegistryState) : Prop :=
  ∃ r ∈ s.rules, r.match = { payeePattern := payee } ∧ r.action.Files category ∧ r.trust = .trusted

/-- In the stream a feed begins the rule `id` with this match and action, no later feed corrects it,
and `n` confirmations are counted on it, that feed among them. -/
def CountsTo (beats : List RegistryBeat) (id : RuleId) (m : RuleMatch) (a : RuleAction) (n : Nat) :
    Prop :=
  ∃ before beat after first, beats = before ++ beat :: after ∧ beat.Begins id m a first ∧
    (∀ later ∈ after, later.op.correctedTo id = none) ∧ n = first + landings id after

section counts
variable {beats : List RegistryBeat} {beat : RegistryBeat} {id : RuleId} {m : RuleMatch}
  {a : RuleAction} {n : Nat}

theorem CountsTo.begin (h : beat.Begins id m a n) : CountsTo (beats ++ [beat]) id m a n :=
  ⟨beats, beat, [], n, rfl, h, by simp, rfl⟩

theorem CountsTo.snoc (h : CountsTo beats id m a n) (hcorr : beat.op.correctedTo id = none) :
    CountsTo (beats ++ [beat]) id m a (n + landings id [beat]) := by
  obtain ⟨before, first, after, k, rfl, hbegins, hafter, rfl⟩ := h
  refine ⟨before, first, after ++ [beat], k, by simp, hbegins, ?_, ?_⟩
  · intro later hlater
    rcases List.mem_append.1 hlater with h | h
    · exact hafter later h
    · rw [List.mem_singleton.1 h]
      exact hcorr
  · rw [landings_append, Nat.add_assoc]

/-- A rule of the table: learned, with the hits the stream counts and the trust they earn. -/
structure Earned (beats : List RegistryBeat) (r : Rule) : Prop where
  counts : CountsTo beats r.id r.match r.action r.hits
  learned : r.source = .learned
  trust : r.trust = trustForHits r.hits kDefault

theorem FeedRow.earned {r r' : Rule} (hrow : FeedRow beat r r') (h : Earned beats r) :
    Earned (beats ++ [beat]) r' := by
  cases hrow with
  | kept hcount hcorr =>
    have hcounts := h.counts.snoc hcorr
    rw [landings_of_not_counted hcount] at hcounts
    exact ⟨hcounts, h.learned, h.trust⟩
  | strengthened now hcount hcorr =>
    have hcounts := h.counts.snoc hcorr
    rw [landings_of_counted hcount] at hcounts
    refine ⟨hcounts, h.learned, ?_⟩
    simp [strengthen, h.learned]
  | rewritten now hcorr hbegins => exact ⟨.begin hbegins, rfl, rfl⟩

theorem FeedSeed.earned {r : Rule} (h : FeedSeed beat r) : Earned (beats ++ [beat]) r :=
  ⟨.begin h.begins, h.learned, h.trust⟩

end counts

section runs
variable {text : PyText} {s t : RegistryState} {beats : List RegistryBeat} {beat : RegistryBeat}

/-- Every rule the feeds leave is earned. -/
theorem earned_of_run (h : RegistryRun text {} beats t)
    (hfeeds : ∀ beat ∈ beats, beat.op.IsFeed) : ∀ r ∈ t.rules, Earned beats r := by
  have H : (∀ beat ∈ beats, beat.op.IsFeed) →
      (∀ r ∈ t.rules, Earned beats r) ∧ t.ids.Nodup := by
    refine Lib.Run.history (P := fun beats u => (∀ beat ∈ beats, beat.op.IsFeed) →
      (∀ r ∈ u.rules, Earned beats r) ∧ u.ids.Nodup) h ?_ ?_
    · intro _
      exact ⟨by simp, List.nodup_nil⟩
    · intro beats u beat v _ ih hstep hfeeds
      obtain ⟨hu, hnd⟩ := ih fun b hb => hfeeds b (List.mem_append_left _ hb)
      cases hstep with
      | fold hfresh =>
        obtain ⟨feed, now, nextId, rfl⟩ :=
          hfeeds _ (List.mem_append_right _ List.mem_cons_self)
        refine ⟨fun r' hr' => ?_, apply_ids_nodup hnd hfresh⟩
        rcases feed_row_of_mem hnd hr' with ⟨r, hr, hrow⟩ | hseed
        · exact hrow.earned (hu r hr)
        · exact hseed.earned
  exact (H hfeeds).1

/-- The feed that begins a rule leaves it in the table. -/
theorem exists_of_begins {id : RuleId} {m : RuleMatch} {a : RuleAction} {n : Nat}
    (hstep : RegistryStep text s beat t) (h : beat.Begins id m a n) :
    ∃ r ∈ t.rules, r.id = id ∧ r.match = m ∧ r.action = a ∧ r.hits = n ∧ r.source = .learned ∧
      r.trust = trustForHits n kDefault := by
  cases h with
  | @confirmed _ feed now _ event h ht =>
    cases hstep with
    | fold hfresh =>
      refine ⟨confirmSeed now _ event kDefault, ?_, rfl, rfl, rfl, rfl, rfl, rfl⟩
      simp [RegistryState.apply, RegistryState.recordLearning, planRuleUpdate, h, applyLearning,
        confirm, ht]
  | @corrected _ feed now _ event h ht =>
    cases hstep with
    | fold hfresh =>
      refine ⟨correctSeed now _ event, ?_, rfl, rfl, rfl, rfl, rfl, rfl⟩
      simp [RegistryState.apply, RegistryState.recordLearning, planRuleUpdate, h, applyLearning,
        correct, ht]
  | @rewritten _ feed now nextId event target h ht =>
    cases hstep with
    | fold hfresh =>
      refine ⟨rewrite now event.action target, ?_, rfl, rfl, rfl, rfl, rfl, rfl⟩
      simp only [RegistryState.apply, RegistryState.recordLearning, planRuleUpdate, h,
        Option.map_some, applyLearning, correct, ht]
      exact Lib.mem_updateAt.2 (.inr ⟨target, (mem_of_findRule ht).1, rfl, rfl⟩)

/-- What the stream counts to is on a rule of the table. -/
theorem exists_of_countsTo (h : RegistryRun text {} beats t)
    (hfeeds : ∀ beat ∈ beats, beat.op.IsFeed) {id : RuleId} {m : RuleMatch} {a : RuleAction}
    {n : Nat} (hcounts : CountsTo beats id m a n) :
    ∃ r ∈ t.rules, r.match = m ∧ r.action = a ∧ r.trust = trustForHits n kDefault := by
  obtain ⟨before, beat, after, first, rfl, hbegins, hcorr, rfl⟩ := hcounts
  obtain ⟨u, hbefore, hrest⟩ := h.of_append
  obtain ⟨v, hstep, hafter⟩ := hrest.cons_inv
  have hvnd : v.ids.Nodup := RegistryRun.ids_nodup (hbefore.snoc hstep) List.nodup_nil
  obtain ⟨r, hr, rfl, hmatch, haction, hhits, hlearned, htrust⟩ := exists_of_begins hstep hbegins
  obtain ⟨r', hr', htracked⟩ := tracked_of_run hafter hvnd
    (fun b hb => hfeeds b (List.mem_append_right _ (List.mem_cons_of_mem _ hb))) hr hcorr
  refine ⟨r', hr', htracked.match.trans hmatch, htracked.action.trans haction, ?_⟩
  rw [htracked.trust hlearned, htracked.hits, hhits]
  split
  · rename_i hzero
    rw [hzero, htrust, Nat.add_zero]
  · rfl

theorem trustForHits_trusted_iff (n : Nat) :
    trustForHits n kDefault = .trusted ↔ kDefault ≤ n := by
  constructor
  · exact le_of_trustForHits
  · intro h
    have hpos : n ≠ 0 := by
      unfold kDefault at h
      omega
    unfold trustForHits
    rw [if_neg hpos, if_pos h]

/-- **Consistency.** Over any feeds, a payee has a trusted rule for a category iff `K`
confirmations were counted on one rule, since a feed began it for that payee and a whole action
of the category. -/
theorem trusted_iff (h : RegistryRun text {} beats t) (hfeeds : ∀ beat ∈ beats, beat.op.IsFeed)
    (payee : String) (category : CategoryId) :
    TrustedFor payee category t ↔
      ∃ id action n, action.Files category ∧ kDefault ≤ n ∧
        CountsTo beats id { payeePattern := payee } action n := by
  constructor
  · rintro ⟨r, hr, hmatch, hfiles, htrust⟩
    have hearned := earned_of_run h hfeeds r hr
    have hcounts := hearned.counts
    rw [hmatch] at hcounts
    rw [hearned.trust, trustForHits_trusted_iff] at htrust
    exact ⟨r.id, r.action, r.hits, hfiles, htrust, hcounts⟩
  · rintro ⟨id, action, n, hfiles, hk, hcounts⟩
    obtain ⟨r, hr, hmatch, haction, htrust⟩ := exists_of_countsTo h hfeeds hcounts
    refine ⟨r, hr, hmatch, ?_, ?_⟩
    · rw [haction]
      exact hfiles
    · rw [htrust, trustForHits_trusted_iff]
      exact hk

end runs

/-! ## Confirmations of one action -/

/-- The match and action of a human confirmation: one whose decision names no rule. -/
def RegistryOp.humanConfirms : RegistryOp → Option (RuleMatch × RuleAction)
  | .record feed now nextId =>
    if feed.decision.bind (·.ruleId) = none then (record feed now nextId).confirms else none
  | _ => none

/-- The human confirmations of an action for a match. -/
def confirmations (m : RuleMatch) (a : RuleAction) (beats : List RegistryBeat) : Nat :=
  beats.countP fun beat => beat.op.humanConfirms = some (m, a)

/-- The feed corrects no rule of this match. -/
def RegistryBeat.Spares (m : RuleMatch) (beat : RegistryBeat) : Prop :=
  ∀ r ∈ beat.pre.rules, r.match = m → beat.op.correctedTo r.id = none

instance (m : RuleMatch) (beat : RegistryBeat) : Decidable (beat.Spares m) := by
  unfold RegistryBeat.Spares; infer_instance

section consistent
variable {text : PyText} {s t : RegistryState} {beats : List RegistryBeat} {m : RuleMatch}
  {a : RuleAction} {feed : FeedRuleLearning} {now : Datetime} {nextId : RuleId}

/-- A feed that spares the match leaves it the same rules of an action. -/
theorem FeedRow.equivalent_iff {beat : RegistryBeat} {r r' : Rule} (h : FeedRow beat r r')
    (hspares : r.match = m → beat.op.correctedTo r.id = none) :
    (r'.match = m ∧ r'.action = a) ↔ (r.match = m ∧ r.action = a) := by
  cases h with
  | kept _ _ => rfl
  | strengthened _ _ _ => rfl
  | rewritten _ hcorr _ =>
    have hne : r.match ≠ m := by
      intro hm
      rw [hspares hm] at hcorr
      cases hcorr
    constructor
    · rintro ⟨hm, -⟩
      exact absurd hm hne
    · rintro ⟨hm, -⟩
      exact absurd hm hne

/-- The first rule of an action after a feed that spares the match: the same one, one row step on,
or none of the old ones. -/
theorem findEquivalent_record (hnd : s.ids.Nodup)
    (hspares : RegistryBeat.Spares m ⟨s, .record feed now nextId⟩) {r : Rule}
    (h : findEquivalent s.rules m a = some r) :
    ∃ r', findEquivalent (s.recordLearning feed now nextId).rules m a = some r' ∧
      FeedRow ⟨s, .record feed now nextId⟩ r r' := by
  obtain ⟨f, seeds, hafter, hrows, -⟩ := feed_rows hnd feed now nextId
  obtain ⟨hr, -, -⟩ := mem_of_findEquivalent h
  refine ⟨f r, ?_, hrows r hr⟩
  have hfind : s.rules.find? ((fun r => decide (r.match = m ∧ r.action = a)) ∘ f) =
      s.rules.find? fun r => decide (r.match = m ∧ r.action = a) := by
    apply List.find?_congr
    intro r₀ hr₀
    simp only [Function.comp_apply, decide_eq_decide]
    exact (hrows r₀ hr₀).equivalent_iff (hspares r₀ hr₀)
  unfold findEquivalent at h ⊢
  rw [hafter, List.find?_append, List.find?_map, hfind, h]
  rfl

/-- A human confirmation looks for the first rule of its action. -/
theorem confirm_of_human (h : (RegistryOp.record feed now nextId).humanConfirms = some (m, a))
    (rules : List Rule) :
    ∃ event, learningEvent feed = some (.confirm event) ∧ event.match = m ∧ event.action = a ∧
      confirmTarget rules event = findEquivalent rules m a := by
  simp only [RegistryOp.humanConfirms] at h
  split at h
  · rename_i hnone
    simp only [RegistryOp.confirms] at h
    split at h
    · rename_i hev
      obtain ⟨action, haction, hpair⟩ := Option.map_eq_some_iff.1 h
      obtain ⟨d, hd, hfrom⟩ := Option.bind_eq_some_iff.1 haction
      obtain ⟨rfl, rfl⟩ := Prod.mk.inj hpair
      have hrule : d.ruleId = none := by simpa [hd] using hnone
      refine ⟨⟨_, _, d.ruleId⟩, ?_, rfl, rfl, ?_⟩
      · simp [learningEvent, hd, hfrom, hev]
      · unfold confirmTarget findRule
        rw [hrule]
        rfl
    · cases h
  · cases h

theorem confirmations_snoc (beat : RegistryBeat) :
    confirmations m a (beats ++ [beat]) =
      confirmations m a beats + if beat.op.humanConfirms = some (m, a) then 1 else 0 := by
  unfold confirmations
  rw [List.countP_append, List.countP_singleton]
  simp

/-- The confirmations of the action are on its first rule. -/
def OnFirst (m : RuleMatch) (a : RuleAction) (n : Nat) (rules : List Rule) : Prop :=
  (findEquivalent rules m a = none → n = 0) ∧ ∀ r, findEquivalent rules m a = some r → n ≤ r.hits

theorem OnFirst.record {n : Nat} (h : OnFirst m a n s.rules) (hnd : s.ids.Nodup)
    (hspares : RegistryBeat.Spares m ⟨s, .record feed now nextId⟩) :
    OnFirst m a
      (n + if (RegistryOp.record feed now nextId).humanConfirms = some (m, a) then 1 else 0)
      (s.recordLearning feed now nextId).rules := by
  cases hfind : findEquivalent s.rules m a with
  | none =>
    have hzero := h.1 hfind
    by_cases hconf : (RegistryOp.record feed now nextId).humanConfirms = some (m, a)
    · -- the confirmation seeds the first rule
      obtain ⟨event, hev, hm, ha, htarget⟩ := confirm_of_human hconf s.rules
      have hafter : (s.recordLearning feed now nextId).rules
          = s.rules ++ [confirmSeed now nextId event kDefault] := by
        simp [RegistryState.recordLearning, planRuleUpdate, hev, applyLearning, confirm,
          htarget, hfind]
      have hseed : findEquivalent (s.recordLearning feed now nextId).rules m a
          = some (confirmSeed now nextId event kDefault) := by
        unfold findEquivalent at hfind ⊢
        rw [hafter, List.find?_append, hfind]
        simp [confirmSeed, hm, ha]
      rw [if_pos hconf, hzero]
      refine ⟨fun hnone => ?_, fun r hr => ?_⟩
      · rw [hseed] at hnone
        cases hnone
      · rw [hseed] at hr
        cases hr
        exact le_refl 1
    · rw [if_neg hconf, hzero]
      exact ⟨fun _ => rfl, fun r _ => Nat.zero_le _⟩
  | some r =>
    obtain ⟨r', hr', hrow⟩ := findEquivalent_record hnd hspares hfind
    have hle := h.2 r hfind
    obtain ⟨hmem, hm, -⟩ := mem_of_findEquivalent hfind
    have hhits :
        n + (if (RegistryOp.record feed now nextId).humanConfirms = some (m, a) then 1 else 0) ≤
          r'.hits := by
      cases hrow with
      | kept hcount _ =>
        rw [if_neg]
        · exact hle
        · intro hconf
          obtain ⟨event, hev, -, -, htarget⟩ := confirm_of_human hconf s.rules
          apply hcount
          rw [counted_of_confirm hev, htarget, hfind]
          rfl
      | strengthened _ _ _ =>
        change _ ≤ r.hits + 1
        split <;> omega
      | rewritten _ hcorr _ =>
        rw [hspares r hmem hm] at hcorr
        cases hcorr
    refine ⟨fun hnone => ?_, fun r₂ hr₂ => ?_⟩
    · rw [hr'] at hnone
      cases hnone
    · rw [hr'] at hr₂
      cases hr₂
      exact hhits

theorem onFirst_of_run (h : RegistryRun text {} beats t) (hfeeds : ∀ beat ∈ beats, beat.op.IsFeed)
    (hspares : ∀ beat ∈ beats, beat.Spares m) :
    OnFirst m a (confirmations m a beats) t.rules := by
  have H : (∀ beat ∈ beats, beat.op.IsFeed ∧ beat.Spares m) →
      OnFirst m a (confirmations m a beats) t.rules ∧ t.ids.Nodup := by
    refine Lib.Run.history (P := fun beats u =>
      (∀ beat ∈ beats, beat.op.IsFeed ∧ beat.Spares m) →
        OnFirst m a (confirmations m a beats) u.rules ∧ u.ids.Nodup) h ?_ ?_
    · intro _
      exact ⟨⟨fun _ => rfl, fun r hr => by cases hr⟩, List.nodup_nil⟩
    · intro beats u beat v _ ih hstep hC
      obtain ⟨hu, hnd⟩ := ih fun b hb => hC b (List.mem_append_left _ hb)
      obtain ⟨hfeed, hspare⟩ := hC beat (List.mem_append_right _ List.mem_cons_self)
      cases hstep with
      | fold hfresh =>
        obtain ⟨feed, now, nextId, rfl⟩ := hfeed
        refine ⟨?_, apply_ids_nodup hnd hfresh⟩
        rw [confirmations_snoc]
        exact hu.record hnd hspare
  exact (H fun b hb => ⟨hfeeds b hb, hspares b hb⟩).1

/-- **Consistent confirmations earn trust.** `K` human confirmations of one whole action for
a payee, among any feeds that correct no rule of that payee, leave a trusted rule of the
payee and action. -/
theorem trusted_of_consistent (h : RegistryRun text {} beats t)
    (hfeeds : ∀ beat ∈ beats, beat.op.IsFeed) (payee : String) (action : RuleAction)
    (hspares : ∀ beat ∈ beats, beat.Spares { payeePattern := payee })
    (hK : kDefault ≤ confirmations { payeePattern := payee } action beats) :
    ∃ r ∈ t.rules, r.match = { payeePattern := payee } ∧ r.action = action ∧
      r.trust = .trusted := by
  obtain ⟨hnone, hsome⟩ := onFirst_of_run h hfeeds hspares (a := action)
  cases hfind : findEquivalent t.rules { payeePattern := payee } action with
  | none =>
    rw [hnone hfind] at hK
    cases hK
  | some r =>
    obtain ⟨hr, hm, ha⟩ := mem_of_findEquivalent hfind
    refine ⟨r, hr, hm, ha, ?_⟩
    rw [(earned_of_run h hfeeds r hr).trust, trustForHits_trusted_iff]
    exact hK.trans (hsome r hfind)

end consistent

/-! ## Three lunches, and another café -/

/-- The human files the café under dining, with a memo of the day. -/
def lunchFeed (memo : String) : FeedRuleLearning :=
  { event := .confirm, payee := "Corner Cafe",
    decision := some { humanChoice "dining" with memo := some memo } }

/-- Three confirmations of dining, one for each lunch. -/
def lunchOps : List RegistryOp :=
  [.record (lunchFeed "with a guest") 0 "r1", .record (lunchFeed "team lunch") 1 "r2",
    .record (lunchFeed "birthday") 2 "r3"]

/-- The café's rule drove a decision for another café, which the human corrects to groceries. -/
def otherCafeCorrect : FeedRuleLearning :=
  { event := .correct, payee := "Corner Cafe Berlin", decision := some (humanChoice "groceries"),
    prior := some { humanChoice "dining" with decidedBy := .agent, ruleId := some "r1" } }

/-- Three confirmations of dining, with that correction among them. -/
def otherCafeOps : List RegistryOp :=
  [.record (confirmChoice "Corner Cafe" "dining") 0 "r1",
    .record (confirmChoice "Corner Cafe" "dining") 1 "r2", .record otherCafeCorrect 2 "r3",
    .record (confirmChoice "Corner Cafe" "dining") 3 "r4"]

/-- The signal confirms the category for the payee. -/
def RegistryOp.ConfirmsCategory (payee : String) (category : CategoryId) (op : RegistryOp) : Prop :=
  ∃ action, op.confirms = some ({ payeePattern := payee }, action) ∧ action.Files category

/-- The signal is a correction for the payee. -/
def RegistryOp.Corrects (payee : String) (op : RegistryOp) : Prop :=
  ∃ feed now nextId, op = .record feed now nextId ∧ feed.event = .correct ∧ feed.payee = payee

/-- The three lunches leave three rules of one confirmation each; and the same decision three times,
with the other café's correction among them, leaves the payee's rule rewritten. Neither leaves
dining trusted, and neither holds a correction for the payee. -/
theorem category_alone_is_not_enough :
    (∃ beats t, RegistryRun PyText.ascii {} beats t ∧
      (∀ beat ∈ beats, beat.op.ConfirmsCategory "Corner Cafe" "dining") ∧ beats.length = kDefault ∧
      ¬ TrustedFor "Corner Cafe" "dining" t) ∧
    ∃ beats t, RegistryRun PyText.ascii {} beats t ∧
      (∀ beat ∈ beats, ¬ beat.op.Corrects "Corner Cafe") ∧
      confirmations { payeePattern := "Corner Cafe" }
          { allocation := .category "dining" none } beats = kDefault ∧
      ¬ TrustedFor "Corner Cafe" "dining" t := by
  refine ⟨⟨_, _, foldOps_run PyText.ascii {} lunchOps (by decide), ?_, by decide, ?_⟩,
    _, _, foldOps_run PyText.ascii {} otherCafeOps (by decide), ?_, by decide, ?_⟩
  · simp only [lunchOps, foldOps, List.forall_mem_cons, List.not_mem_nil, false_imp_iff,
      implies_true, and_true]
    exact ⟨⟨_, rfl, none, rfl⟩, ⟨_, rfl, none, rfl⟩, _, rfl, none, rfl⟩
  · rintro ⟨r, hr, -, -, htrust⟩
    revert r
    decide
  · simp [otherCafeOps, foldOps, RegistryOp.Corrects, confirmChoice, otherCafeCorrect]
  · rintro ⟨r, hr, -, -, htrust⟩
    revert r
    decide

/-- The same decision for the market three times is trusted, whatever becomes of the café. -/
theorem trusted_after_steadyFeeds :
    ∃ r ∈ (foldOps PyText.ascii {} steadyFeeds).2.rules,
      r.match = { payeePattern := "Market" } ∧
      r.action = { allocation := .category "groceries" none } ∧ r.trust = .trusted := by
  refine trusted_of_consistent (foldOps_run PyText.ascii {} steadyFeeds (by decide)) ?_ "Market"
    { allocation := .category "groceries" none } (by decide) (by decide)
  refine forall_foldOps fun op hop => ?_
  obtain ⟨feed, now, nextId, heq, -⟩ := steadyFeeds_human op hop
  exact ⟨feed, now, nextId, heq⟩

end YnabAgent
