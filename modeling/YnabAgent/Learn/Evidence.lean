import YnabAgent.Lib.Tally
import YnabAgent.Learn.Folds

/-!
# The evidence behind a trusted rule

A learned rule is to be trusted on `K` confirmations of its own action since the payee was last
corrected away from it, and a payee whose category keeps being corrected is to earn nothing. The
confirmations are counted on the rule, and a correction finds its rule through the id on the prior
decision, so both laws hold on the corrections that name every rule still carrying evidence for the
action or the category they overturn (`NamesEvidence`). `trusted_has_evidence` proves them for every
such stream of feeds, `trusted_on_stale_evidence` is a stream that breaks the first.
-/

namespace YnabAgent

/-! ## Evidence of a stream -/

/-- The category of an action that files a charge under one. -/
def RuleAction.category? (action : RuleAction) : Option CategoryId :=
  match action.allocation with
  | .category category _ => some category
  | .split _ => none

theorem category?_of_ruleActionFromDecision {d : Decision} {a : RuleAction}
    (h : ruleActionFromDecision d = some a) : ∃ c, a.category? = some c := by
  unfold ruleActionFromDecision at h
  split at h
  · cases h
    exact ⟨_, rfl⟩
  · cases h

namespace RegistryOp

/-- A correction of a decision of this payee away from this action. -/
def correctsAway (m : RuleMatch) (a : RuleAction) : RegistryOp → Bool
  | .record feed _ _ =>
    decide (feed.event = .correct ∧ m = { payeePattern := feed.payee } ∧
      feed.prior.bind ruleActionFromDecision = some a ∧
      feed.decision.bind ruleActionFromDecision ≠ some a)
  | _ => false

/-- A correction of a decision of this payee away from this category, whatever the memo and the tag
of either decision. -/
def correctsCategory (m : RuleMatch) (c : CategoryId) : RegistryOp → Bool
  | .record feed _ _ =>
    decide (feed.event = .correct ∧ m = { payeePattern := feed.payee } ∧
      (feed.prior.bind ruleActionFromDecision).bind RuleAction.category? = some c ∧
      (feed.decision.bind ruleActionFromDecision).bind RuleAction.category? ≠ some c)
  | _ => false

/-- A correction of this payee away from this action or from the category of it. -/
def overturns (m : RuleMatch) (a : RuleAction) (op : RegistryOp) : Bool :=
  op.correctsAway m a || a.category?.any fun c => op.correctsCategory m c

/-- A confirmation of this action for the match. -/
def confirmsAction (m : RuleMatch) (a : RuleAction) (op : RegistryOp) : Bool :=
  decide (op.confirms = some (m, a))

/-- A confirmation of any action with this category for the match. -/
def confirmsCategory (m : RuleMatch) (c : CategoryId) (op : RegistryOp) : Bool :=
  op.confirms.any fun e => decide (e.1 = m ∧ e.2.category? = some c)

/-- The feed of a decision that carries no rule, as the interpret path makes them. -/
def HumanFeed (op : RegistryOp) : Prop :=
  ∃ feed now nextId, op = .record feed now nextId ∧ ∀ d ∈ feed.decision, d.ruleId = none

end RegistryOp

/-- The confirmations of the action for the match since the last correction away from it or from
its category. -/
def evidence (m : RuleMatch) (a : RuleAction) (ops : List RegistryOp) : Nat :=
  Lib.tally (·.overturns m a) (·.confirmsAction m a) ops

/-- The confirmations of the category for the match since the last correction away from it. -/
def categoryEvidence (m : RuleMatch) (c : CategoryId) (ops : List RegistryOp) : Nat :=
  Lib.tally (·.correctsCategory m c) (·.confirmsCategory m c) ops

/-- A payee whose category keeps being corrected: no category of it is confirmed `K` times with no
correction away from it in between. -/
def KeepsCorrected (m : RuleMatch) (ops : List RegistryOp) : Prop :=
  ∀ before, before <+: ops → ∀ c, categoryEvidence m c before < kDefault

/-- A correction away from an action or its category names every rule that still carries evidence
for it, and its new decision is one a rule can encode. -/
def RegistryBeat.NamesEvidence (beat : RegistryBeat) : Prop :=
  ∀ r ∈ beat.pre.rules, beat.op.overturns r.match r.action = true → 0 < r.hits →
    beat.op.correctedTo r.id ≠ none

instance (beat : RegistryBeat) : Decidable beat.NamesEvidence := by
  unfold RegistryBeat.NamesEvidence; infer_instance

section steps
variable {op : RegistryOp} {ops : List RegistryOp} {m : RuleMatch} {a : RuleAction}

/-- A confirmation overturns nothing. -/
theorem not_overturns_of_confirms {e : RuleMatch × RuleAction} (h : op.confirms = some e) :
    op.overturns m a = false := by
  cases op with
  | record feed now nextId =>
    simp only [RegistryOp.confirms] at h
    split at h
    · rename_i hev
      cases hc : a.category? with
      | none => simp [RegistryOp.overturns, RegistryOp.correctsAway, hev, hc]
      | some c =>
        simp [RegistryOp.overturns, RegistryOp.correctsAway, RegistryOp.correctsCategory, hev, hc]
    · cases h
  | _ => cases h

theorem evidence_concat_of_confirms (h : op.confirms = some (m, a)) :
    evidence m a (ops ++ [op]) = evidence m a ops + 1 :=
  Lib.tally_concat_of_counts (not_overturns_of_confirms h)
    (by simpa [RegistryOp.confirmsAction] using h)

/-- What is counted was confirmed by a decision that files the whole charge under a category. -/
theorem category?_of_evidence_pos (h : 0 < evidence m a ops) : ∃ c, a.category? = some c := by
  obtain ⟨op, -, hconf⟩ := Lib.exists_counts_of_tally_pos h
  have hconf : op.confirms = some (m, a) := by simpa [RegistryOp.confirmsAction] using hconf
  cases op with
  | record feed now nextId =>
    simp only [RegistryOp.confirms] at hconf
    split at hconf
    · obtain ⟨action, haction, he⟩ := Option.map_eq_some_iff.1 hconf
      obtain ⟨d, -, hd⟩ := Option.bind_eq_some_iff.1 haction
      cases he
      exact category?_of_ruleActionFromDecision hd
    · cases hconf
  | _ => cases hconf

/-- The evidence for an action is evidence for its category. -/
theorem evidence_le_categoryEvidence {c : CategoryId} (h : a.category? = some c) :
    evidence m a ops ≤ categoryEvidence m c ops := by
  refine Lib.tally_mono (fun op hcorr => ?_) (fun op hconf => ?_) ops
  · simp [RegistryOp.overturns, h, hcorr]
  · have hconf : op.confirms = some (m, a) := by simpa [RegistryOp.confirmsAction] using hconf
    simp [RegistryOp.confirmsCategory, hconf, h]

/-- Only the categories a stream confirms need to be watched. -/
theorem keepsCorrected_of_confirmed {l : List CategoryId}
    (hconf : ∀ op ∈ ops, ∀ e ∈ op.confirms, ∀ c ∈ e.2.category?, c ∈ l)
    (h : ∀ before ∈ ops.inits, ∀ c ∈ l, categoryEvidence m c before < kDefault) :
    KeepsCorrected m ops := by
  intro before hpre c
  by_cases hpos : 0 < categoryEvidence m c before
  · obtain ⟨op, hop, hcounts⟩ := Lib.exists_counts_of_tally_pos hpos
    obtain ⟨e, he, heq⟩ : ∃ e, op.confirms = some e ∧ e.1 = m ∧ e.2.category? = some c := by
      simpa [RegistryOp.confirmsCategory, Option.any_eq_true] using hcounts
    exact h before ((List.mem_inits _ _).2 hpre) c (hconf op (hpre.subset hop) e he c heq.2)
  · exact Nat.lt_of_le_of_lt (Nat.le_of_not_lt hpos) (by decide)

/-- The evidence a rule carries is bounded by the evidence fed. -/
def Backed (ops : List RegistryOp) (r : Rule) : Prop :=
  r.hits ≤ evidence r.match r.action ops ∧
    (r.source = .learned → r.trust = .trusted → kDefault ≤ r.hits)

/-- An untouched rule stays backed: a correction that leaves it alone found no evidence on it. -/
theorem le_evidence_of_untouched {beat : RegistryBeat} {r : Rule}
    (hnames : beat.NamesEvidence) (hr : r ∈ beat.pre.rules)
    (hkeep : beat.op.correctedTo r.id = none) (h : r.hits ≤ evidence r.match r.action ops) :
    r.hits ≤ evidence r.match r.action (ops ++ [beat.op]) := by
  cases haway : beat.op.overturns r.match r.action with
  | false => exact h.trans (Lib.le_tally_concat haway)
  | true =>
    have hzero : r.hits = 0 := by
      by_contra hne
      exact hnames r hr haway (Nat.pos_of_ne_zero hne) hkeep
    omega

theorem RowStep.backed (beat : RegistryBeat) {r r' : Rule} (hrow : RowStep beat.op r r')
    (hr : r ∈ beat.pre.rules) (hfeed : beat.op.HumanFeed) (hnames : beat.NamesEvidence)
    (h : Backed ops r) : Backed (ops ++ [beat.op]) r' := by
  obtain ⟨hhits, htrust⟩ := h
  obtain ⟨feed, now, nextId, hop, hnone⟩ := hfeed
  cases hrow with
  | keep hkeep => exact ⟨le_evidence_of_untouched hnames hr hkeep hhits, htrust⟩
  | strengthened t hconf hmatch =>
    rcases hmatch with hmatch | ⟨feed', _, _, d, hop', hd, hid⟩
    · refine ⟨?_, ?_⟩
      · rw [← hmatch] at hconf
        change r.hits + 1 ≤ evidence r.match r.action (ops ++ [beat.op])
        rw [evidence_concat_of_confirms hconf]
        omega
      · intro hsource htr
        have hl : r.source = .learned := hsource
        simp only [strengthen, hl, reduceCtorEq, if_false] at htr ⊢
        exact le_of_trustForHits htr
    · -- the feed's decision carries no rule, so no rule was named
      rw [hop] at hop'
      cases hop'
      rw [hnone d hd] at hid
      cases hid
  | rewritten t h => exact ⟨Nat.zero_le _, fun _ htr => by cases htr⟩
  | granted t h => rw [hop] at h; cases h
  | revoked hkeep =>
    have hle := le_evidence_of_untouched hnames hr hkeep hhits
    exact ⟨hle, fun _ htr => by cases htr⟩
  | offered t h => rw [hop] at h; cases h

theorem Seeds.backed {r : Rule} (hseed : Seeds op r) (hfeed : op.HumanFeed) :
    Backed (ops ++ [op]) r := by
  obtain ⟨feed, now, nextId, hop, -⟩ := hfeed
  cases hseed with
  | confirmed hconf hhits htrust hsource hoffered hid =>
    refine ⟨?_, fun _ htr => ?_⟩
    · rw [hhits, evidence_concat_of_confirms hconf]
      omega
    · rw [hhits]
      exact le_of_trustForHits (htrust.symm.trans htr)
  | corrected hconf hhits htrust hsource hoffered hid =>
    refine ⟨by rw [hhits]; exact Nat.zero_le _, fun _ htr => ?_⟩
    rw [htrust] at htr
    cases htr
  | granted h htrust hoffered hid => rw [hop] at h; cases h

end steps

section runs
variable {text : PyText} {t : RegistryState} {beats : List RegistryBeat}

/-- Every rule of a table such feeds have built is backed by them. -/
theorem RegistryRun.backed (h : RegistryRun text {} beats t)
    (hC : ∀ beat ∈ beats, beat.op.HumanFeed ∧ beat.NamesEvidence) :
    ∀ r ∈ t.rules, Backed (beats.map RegistryBeat.op) r := by
  have H : (∀ beat ∈ beats, beat.op.HumanFeed ∧ beat.NamesEvidence) →
      (∀ r ∈ t.rules, Backed (beats.map RegistryBeat.op) r) ∧ t.ids.Nodup := by
    refine Lib.Run.history (P := fun beats u =>
      (∀ beat ∈ beats, beat.op.HumanFeed ∧ beat.NamesEvidence) →
        (∀ r ∈ u.rules, Backed (beats.map RegistryBeat.op) r) ∧ u.ids.Nodup) h ?_ ?_
    · intro _
      exact ⟨by simp, List.nodup_nil⟩
    · intro beats u beat v _ ih hstep hC
      obtain ⟨hu, hnd⟩ := ih fun b hb => hC b (List.mem_append_left _ hb)
      obtain ⟨hfeed, hname⟩ := hC beat (List.mem_append_right _ List.mem_cons_self)
      cases hstep with
      | fold hfresh =>
        refine ⟨fun r' hr' => ?_, apply_ids_nodup hnd hfresh⟩
        rw [List.map_append]
        rcases row_of_mem hnd hr' with ⟨r, hr, hrow⟩ | hseed
        · exact RowStep.backed _ hrow hr hfeed hname (hu r hr)
        · exact hseed.backed hfeed
  exact (H hC).1

/-- **A learned rule is trusted only on `K` confirmations of its own action since the last
correction away from it or its category, and a payee whose category keeps being corrected never
becomes eligible**, over every stream of feeds whose corrections name the evidence they overturn. -/
theorem trusted_has_evidence (h : RegistryRun text {} beats t)
    (hfeeds : ∀ beat ∈ beats, beat.op.HumanFeed) (hnames : ∀ beat ∈ beats, beat.NamesEvidence) :
    (∀ r ∈ t.rules, r.source = .learned → r.trust = .trusted →
      kDefault ≤ evidence r.match r.action (beats.map RegistryBeat.op)) ∧
    ∀ m, KeepsCorrected m (beats.map RegistryBeat.op) →
      ∀ before u, before <+: beats → RegistryRun text {} before u →
        ∀ r ∈ u.eligibleForBless, r.match ≠ m := by
  have trusted : ∀ {before u}, before <+: beats → RegistryRun text {} before u →
      ∀ r ∈ u.rules, r.source = .learned → r.trust = .trusted →
        kDefault ≤ evidence r.match r.action (before.map RegistryBeat.op) := by
    intro before u hpre hrun r hr hsource htrust
    obtain ⟨hhits, hk⟩ := hrun.backed
      (fun b hb => ⟨hfeeds b (hpre.subset hb), hnames b (hpre.subset hb)⟩) r hr
    exact (hk hsource htrust).trans hhits
  refine ⟨trusted List.prefix_rfl h, ?_⟩
  intro m hkeeps before u hpre hrun r hr hm
  obtain ⟨hr, helig⟩ := List.mem_filter.1 hr
  obtain ⟨htrust, hsource⟩ : r.Eligible := by simpa using helig
  have hk := trusted hpre hrun r hr hsource htrust
  obtain ⟨c, hc⟩ := category?_of_evidence_pos (Nat.lt_of_lt_of_le (by decide) hk)
  have hlt := hkeeps _ (hpre.map RegistryBeat.op) c
  rw [hm] at hk
  exact absurd (hk.trans (evidence_le_categoryEvidence hc)) (Nat.not_le.2 hlt)

end runs

/-! ## A market that is confirmed, and a café that is corrected -/

/-- The human's choice of a category. -/
def humanChoice (category : CategoryId) : Decision :=
  { allocation := .category category none, approved := true, decidedBy := .human, decidedAt := 0 }

def confirmChoice (payee : String) (category : CategoryId) : FeedRuleLearning :=
  { event := .confirm, payee, decision := some (humanChoice category) }

/-- A correction of a decision, which the agent made under a rule or the human without one. -/
def correctChoice (payee : String) (before after : CategoryId) (rule : Option RuleId) :
    FeedRuleLearning :=
  { event := .correct, payee, decision := some (humanChoice after)
    prior := some { humanChoice before with ruleId := rule } }

/-- The market is groceries three times; the café is dining twice, corrected to groceries under the
rule that has the two, and dining again. -/
def steadyFeeds : List RegistryOp :=
  [.record (confirmChoice "Market" "groceries") 0 "m1",
    .record (confirmChoice "Corner Cafe" "dining") 1 "c1",
    .record (confirmChoice "Market" "groceries") 2 "m2",
    .record (confirmChoice "Corner Cafe" "dining") 3 "c2",
    .record (correctChoice "Corner Cafe" "dining" "groceries" (some "c1")) 4 "c3",
    .record (confirmChoice "Market" "groceries") 5 "m3",
    .record (confirmChoice "Corner Cafe" "dining") 6 "c4"]

theorem humanFeed_confirmChoice (payee : String) (category : CategoryId) (now : Datetime)
    (nextId : RuleId) : (RegistryOp.record (confirmChoice payee category) now nextId).HumanFeed :=
  ⟨_, _, _, rfl, by simp [confirmChoice, humanChoice]⟩

theorem humanFeed_correctChoice (payee : String) (before after : CategoryId)
    (rule : Option RuleId) (now : Datetime) (nextId : RuleId) :
    (RegistryOp.record (correctChoice payee before after rule) now nextId).HumanFeed :=
  ⟨_, _, _, rfl, by simp [correctChoice, humanChoice]⟩

theorem steadyFeeds_human : ∀ op ∈ steadyFeeds, op.HumanFeed := by
  simp only [steadyFeeds, List.forall_mem_cons, List.not_mem_nil, false_imp_iff, implies_true,
    and_true, humanFeed_confirmChoice, humanFeed_correctChoice]

theorem cafe_keepsCorrected : KeepsCorrected { payeePattern := "Corner Cafe" } steadyFeeds :=
  keepsCorrected_of_confirmed (l := ["groceries", "dining"]) (by decide) (by decide)

/-- The market's rule is trusted on its three confirmations, and the café never has one to offer. -/
theorem trusted_after_three :
    kDefault ≤ evidence { payeePattern := "Market" }
      { allocation := .category "groceries" none } steadyFeeds ∧
    ∀ before u, before <+: (foldOps PyText.ascii {} steadyFeeds).1 →
      RegistryRun PyText.ascii {} before u →
        ∀ r ∈ u.eligibleForBless, r.match ≠ { payeePattern := "Corner Cafe" } := by
  have hrule : ∃ r ∈ (foldOps PyText.ascii {} steadyFeeds).2.rules,
      r.match = { payeePattern := "Market" } ∧
      r.action = { allocation := .category "groceries" none } ∧ r.source = .learned ∧
      r.trust = .trusted := by decide
  obtain ⟨r, hr, hmatch, haction, hsource, htrust⟩ := hrule
  have hrun := foldOps_run PyText.ascii {} steadyFeeds (by decide)
  have hlaw := trusted_has_evidence hrun (forall_foldOps steadyFeeds_human) (by decide)
  rw [← hmatch, ← haction]
  exact ⟨hlaw.1 r hr hsource htrust, hlaw.2 _ cafe_keepsCorrected⟩

/-- Dining twice, corrected to groceries, dining once more; no answer carried a rule. -/
def waveringFeeds : List RegistryOp :=
  [.record (confirmChoice "Corner Cafe" "dining") 0 "r1",
    .record (confirmChoice "Corner Cafe" "dining") 1 "r2",
    .record (correctChoice "Corner Cafe" "dining" "groceries" none) 2 "r3",
    .record (confirmChoice "Corner Cafe" "dining") 3 "r4"]

/-- Dining is trusted after the wavering, on one confirmation since its correction: the payee is
corrected in time and eligible all the same. -/
theorem trusted_on_stale_evidence :
    ∃ beats t, RegistryRun PyText.ascii {} beats t ∧ (∀ beat ∈ beats, beat.op.HumanFeed) ∧
      KeepsCorrected { payeePattern := "Corner Cafe" } (beats.map RegistryBeat.op) ∧
      ∃ r ∈ t.eligibleForBless, r.match = { payeePattern := "Corner Cafe" } ∧
        r.source = .learned ∧ r.trust = .trusted ∧
        evidence r.match r.action (beats.map RegistryBeat.op) = 1 := by
  refine ⟨_, _, foldOps_run PyText.ascii {} waveringFeeds (by decide), ?_, ?_, by decide⟩
  · refine forall_foldOps ?_
    simp only [waveringFeeds, List.forall_mem_cons, List.not_mem_nil, false_imp_iff, implies_true,
      and_true, humanFeed_confirmChoice, humanFeed_correctChoice]
  · exact keepsCorrected_of_confirmed (l := ["dining"]) (by decide) (by decide)

end YnabAgent
