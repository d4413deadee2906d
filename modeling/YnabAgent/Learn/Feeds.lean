import YnabAgent.Learn.Folds

/-!
# What one feed does to the table

A feed strengthens a rule, rewrites one, seeds one, or teaches nothing (`FeedStep`). Row by row this
is `FeedRow`, with the rule the feed's confirmation is counted on (`RegistryBeat.counted`). Over
feeds that do not correct it, a rule keeps what it proposes and counts the confirmations that land
on it (`tracked_of_run`).
-/

namespace YnabAgent

/-! ## The event of a feed -/

section events
variable {feed : FeedRuleLearning}

/-- What a feed says: its decision's action, confirmed or corrected to. -/
theorem learningEvent_eq_some {event : LearningEvent} (h : learningEvent feed = some event) :
    ∃ d action, feed.decision = some d ∧ ruleActionFromDecision d = some action ∧
      (feed.event = .confirm ∧ event = .confirm { «match» := { payeePattern := feed.payee }
                                                  action, ruleId := d.ruleId } ∨
        feed.event = .correct ∧
          event = .correct { «match» := { payeePattern := feed.payee }
                             action, priorRuleId := feed.prior.bind (·.ruleId) }) := by
  unfold learningEvent at h
  obtain ⟨d, hd, h⟩ := Option.bind_eq_some_iff.1 h
  obtain ⟨action, haction, rfl⟩ := Option.map_eq_some_iff.1 h
  refine ⟨d, action, hd, haction, ?_⟩
  cases feed.event with
  | confirm => exact .inl ⟨rfl, rfl⟩
  | correct => exact .inr ⟨rfl, rfl⟩

theorem learningEvent_confirm {event : ConfirmCategory}
    (h : learningEvent feed = some (.confirm event)) :
    feed.event = .confirm ∧ event.match = { payeePattern := feed.payee } ∧
      ∃ d, feed.decision = some d ∧ ruleActionFromDecision d = some event.action ∧
        event.ruleId = d.ruleId := by
  obtain ⟨d, action, hd, haction, ⟨hev, heq⟩ | ⟨-, heq⟩⟩ := learningEvent_eq_some h
  · cases heq
    exact ⟨hev, rfl, d, hd, haction, rfl⟩
  · cases heq

theorem learningEvent_correct {event : CorrectDecision}
    (h : learningEvent feed = some (.correct event)) :
    feed.event = .correct ∧ event.match = { payeePattern := feed.payee } ∧
      (∃ d, feed.decision = some d ∧ ruleActionFromDecision d = some event.action) ∧
      event.priorRuleId = feed.prior.bind (·.ruleId) := by
  obtain ⟨d, action, hd, haction, ⟨-, heq⟩ | ⟨hev, heq⟩⟩ := learningEvent_eq_some h
  · cases heq
  · cases heq
    exact ⟨hev, rfl, ⟨d, hd, haction⟩, rfl⟩

/-- A feed is a confirmation or a correction. -/
theorem learningEvent_ne_explicit {event : ExplicitCommand} :
    learningEvent feed ≠ some (.explicit event) := by
  intro h
  obtain ⟨d, action, -, -, ⟨-, heq⟩ | ⟨-, heq⟩⟩ := learningEvent_eq_some h
  · cases heq
  · cases heq

end events

/-! ## The step of a feed -/

/-- What a feed makes of the table. -/
inductive FeedStep (feed : FeedRuleLearning) (now : Datetime) (nextId : RuleId)
    (rules : List Rule) : List Rule → Prop
  | nothing (h : learningEvent feed = none) : FeedStep feed now nextId rules rules
  | strengthened {event : ConfirmCategory} {target : Rule}
      (h : learningEvent feed = some (.confirm event))
      (ht : confirmTarget rules event = some target) :
      FeedStep feed now nextId rules (replaceRule rules (strengthen now kDefault target))
  | confirmed {event : ConfirmCategory} (h : learningEvent feed = some (.confirm event))
      (ht : confirmTarget rules event = none) :
      FeedStep feed now nextId rules (rules ++ [confirmSeed now nextId event kDefault])
  | rewritten {event : CorrectDecision} {target : Rule}
      (h : learningEvent feed = some (.correct event))
      (ht : findRule rules event.priorRuleId = some target) :
      FeedStep feed now nextId rules (replaceRule rules (rewrite now event.action target))
  | corrected {event : CorrectDecision} (h : learningEvent feed = some (.correct event))
      (ht : findRule rules event.priorRuleId = none) :
      FeedStep feed now nextId rules (rules ++ [correctSeed now nextId event])

theorem recordLearning_step (s : RegistryState) (feed : FeedRuleLearning) (now : Datetime)
    (nextId : RuleId) :
    FeedStep feed now nextId s.rules (s.recordLearning feed now nextId).rules := by
  unfold RegistryState.recordLearning planRuleUpdate
  cases hev : learningEvent feed with
  | none => exact .nothing hev
  | some event =>
    simp only [Option.map_some, applyLearning]
    cases event with
    | confirm event =>
      simp only [confirm]
      cases ht : confirmTarget s.rules event with
      | none => exact .confirmed hev ht
      | some target => exact .strengthened hev ht
    | correct event =>
      simp only [correct]
      cases ht : findRule s.rules event.priorRuleId with
      | none => exact .corrected hev ht
      | some target => exact .rewritten hev ht
    | explicit event => exact absurd hev learningEvent_ne_explicit

namespace RegistryOp

/-- The signal is a learning feed. -/
def IsFeed (op : RegistryOp) : Prop :=
  ∃ feed now nextId, op = .record feed now nextId

/-- The event the signal teaches. -/
def teaches : RegistryOp → Option LearningEvent
  | .record feed _ _ => learningEvent feed
  | _ => none

end RegistryOp

/-! ## Rows of a feed -/

/-- The rule whose hits the beat's confirmation is counted on. -/
def RegistryBeat.counted (beat : RegistryBeat) : Option RuleId :=
  match beat.op.teaches with
  | some (.confirm event) => (confirmTarget beat.pre.rules event).map Rule.id
  | _ => none

/-- The confirmations counted on a rule. -/
def landings (id : RuleId) (beats : List RegistryBeat) : Nat :=
  beats.countP fun beat => beat.counted = some id

theorem landings_append (id : RuleId) (beats beats' : List RegistryBeat) :
    landings id (beats ++ beats') = landings id beats + landings id beats' :=
  List.countP_append

theorem landings_of_counted {id : RuleId} {beat : RegistryBeat} (h : beat.counted = some id) :
    landings id [beat] = 1 := by
  unfold landings
  rw [List.countP_singleton, if_pos (decide_eq_true h)]

theorem landings_of_not_counted {id : RuleId} {beat : RegistryBeat} (h : beat.counted ≠ some id) :
    landings id [beat] = 0 := by
  unfold landings
  rw [List.countP_singleton, if_neg (by simpa using h)]

/-- The beat begins the count of a rule: it seeds the rule, or rewrites its action. -/
inductive RegistryBeat.Begins :
    RegistryBeat → RuleId → RuleMatch → RuleAction → Nat → Prop
  | confirmed {s : RegistryState} {feed : FeedRuleLearning} {now : Datetime} {nextId : RuleId}
      {event : ConfirmCategory} (h : learningEvent feed = some (.confirm event))
      (ht : confirmTarget s.rules event = none) :
      RegistryBeat.Begins ⟨s, .record feed now nextId⟩ nextId event.match event.action 1
  | corrected {s : RegistryState} {feed : FeedRuleLearning} {now : Datetime} {nextId : RuleId}
      {event : CorrectDecision} (h : learningEvent feed = some (.correct event))
      (ht : findRule s.rules event.priorRuleId = none) :
      RegistryBeat.Begins ⟨s, .record feed now nextId⟩ nextId event.match event.action 0
  | rewritten {s : RegistryState} {feed : FeedRuleLearning} {now : Datetime} {nextId : RuleId}
      {event : CorrectDecision} {target : Rule} (h : learningEvent feed = some (.correct event))
      (ht : findRule s.rules event.priorRuleId = some target) :
      RegistryBeat.Begins ⟨s, .record feed now nextId⟩ target.id target.match event.action 0

/-- What a feed does to one rule. -/
inductive FeedRow (beat : RegistryBeat) : Rule → Rule → Prop
  | kept (r : Rule) (hcount : beat.counted ≠ some r.id)
      (hcorr : beat.op.correctedTo r.id = none) : FeedRow beat r r
  | strengthened (r : Rule) (now : Datetime) (hcount : beat.counted = some r.id)
      (hcorr : beat.op.correctedTo r.id = none) : FeedRow beat r (strengthen now kDefault r)
  | rewritten (r : Rule) (now : Datetime) {action : RuleAction}
      (hcorr : beat.op.correctedTo r.id = some action)
      (hbegins : beat.Begins r.id r.match action 0) : FeedRow beat r (rewrite now action r)

section rows
variable {text : PyText} {s : RegistryState} {feed : FeedRuleLearning} {now : Datetime}
  {nextId : RuleId}

theorem correctedTo_of_confirm {event : ConfirmCategory}
    (h : learningEvent feed = some (.confirm event)) (id : RuleId) :
    (RegistryOp.record feed now nextId).correctedTo id = none := by
  simp [RegistryOp.correctedTo, (learningEvent_confirm h).1]

theorem correctedTo_of_correct {event : CorrectDecision}
    (h : learningEvent feed = some (.correct event)) (id : RuleId) :
    (RegistryOp.record feed now nextId).correctedTo id =
      if event.priorRuleId = some id then some event.action else none := by
  obtain ⟨hev, -, ⟨d, hd, haction⟩, hprior⟩ := learningEvent_correct h
  simp [RegistryOp.correctedTo, hev, hprior, hd, haction]

theorem correctedTo_of_nothing (h : learningEvent feed = none) (id : RuleId) :
    (RegistryOp.record feed now nextId).correctedTo id = none := by
  have hnone : feed.decision.bind ruleActionFromDecision = none := by
    unfold learningEvent at h
    cases hd : feed.decision with
    | none => rfl
    | some d => simpa [hd] using h
  simp [RegistryOp.correctedTo, hnone]

theorem counted_of_confirm {event : ConfirmCategory}
    (h : learningEvent feed = some (.confirm event)) :
    RegistryBeat.counted ⟨s, .record feed now nextId⟩ =
      (confirmTarget s.rules event).map Rule.id := by
  simp [RegistryBeat.counted, RegistryOp.teaches, h]

theorem counted_of_correct {event : CorrectDecision}
    (h : learningEvent feed = some (.correct event)) :
    RegistryBeat.counted ⟨s, .record feed now nextId⟩ = none := by
  simp [RegistryBeat.counted, RegistryOp.teaches, h]

theorem counted_of_nothing (h : learningEvent feed = none) :
    RegistryBeat.counted ⟨s, .record feed now nextId⟩ = none := by
  simp [RegistryBeat.counted, RegistryOp.teaches, h]

/-- Replacing a rule by one that agrees with it on `g` keeps the column `g`. -/
theorem map_replaceRule {β : Type*} {g : Rule → β} {rules : List Rule}
    (hnd : (rules.map Rule.id).Nodup) {target : Rule} (ht : target ∈ rules) (updated : Rule)
    (hid : updated.id = target.id) (hg : g updated = g target) :
    (replaceRule rules updated).map g = rules.map g := by
  unfold replaceRule
  apply Lib.map_updateAt
  intro r hr hrid
  rw [Lib.eq_of_key_eq hnd hr ht (hrid.trans hid)]
  exact hg

/-- Replacing one rule is a row step of that rule, and the others are kept. -/
theorem feedRows_replaceRule {beat : RegistryBeat} {rules : List Rule}
    (hnd : (rules.map Rule.id).Nodup) {target : Rule} (ht : target ∈ rules) (updated : Rule)
    (hid : updated.id = target.id) (hrow : FeedRow beat target updated)
    (hcount : ∀ id, id ≠ target.id → beat.counted ≠ some id)
    (hcorr : ∀ id, id ≠ target.id → beat.op.correctedTo id = none) :
    ∃ f, replaceRule rules updated = rules.map f ∧ ∀ r ∈ rules, FeedRow beat r (f r) := by
  refine ⟨_, rfl, fun r hr => ?_⟩
  by_cases h : r.id = updated.id
  · rw [if_pos h, Lib.eq_of_key_eq hnd hr ht (h.trans hid)]
    exact hrow
  · have hne : r.id ≠ target.id := fun heq => h (heq.trans hid.symm)
    rw [if_neg h]
    exact .kept r (hcount r.id hne) (hcorr r.id hne)

/-- A rule a feed seeds: the count on it begins, and it is learned with the trust of its hits. -/
structure FeedSeed (beat : RegistryBeat) (r : Rule) : Prop where
  begins : beat.Begins r.id r.match r.action r.hits
  learned : r.source = .learned
  trust : r.trust = trustForHits r.hits kDefault
  unoffered : r.offeredAt = none

/-- The table after a feed: the old rows, each by one `FeedRow`, and what the feed seeded. -/
theorem feed_rows (hnd : s.ids.Nodup) (feed : FeedRuleLearning) (now : Datetime)
    (nextId : RuleId) :
    ∃ f seeds, (s.recordLearning feed now nextId).rules = s.rules.map f ++ seeds ∧
      (∀ r ∈ s.rules, FeedRow ⟨s, .record feed now nextId⟩ r (f r)) ∧
      ∀ r ∈ seeds, FeedSeed ⟨s, .record feed now nextId⟩ r := by
  have hstep := recordLearning_step s feed now nextId
  generalize (s.recordLearning feed now nextId).rules = after at hstep
  cases hstep with
  | nothing h =>
    refine ⟨id, [], by simp, fun r _ => .kept r ?_ (correctedTo_of_nothing h r.id), by simp⟩
    rw [counted_of_nothing h]
    exact (Option.some_ne_none _).symm
  | @strengthened event target h ht =>
    obtain ⟨hm, -⟩ := mem_of_confirmTarget ht
    have hcount := @counted_of_confirm s feed now nextId event h
    rw [ht] at hcount
    obtain ⟨f, hf, hrows⟩ := feedRows_replaceRule hnd hm (strengthen now kDefault target) rfl
      (.strengthened target now hcount (correctedTo_of_confirm h target.id))
      (fun id hne heq => hne (Option.some.inj (heq.symm.trans hcount)))
      (fun id _ => correctedTo_of_confirm h id)
    exact ⟨f, [], by rw [hf, List.append_nil], hrows, by simp⟩
  | @confirmed event h ht =>
    have hcount := @counted_of_confirm s feed now nextId event h
    rw [ht] at hcount
    refine ⟨id, _, by rw [List.map_id], fun r _ => .kept r ?_ (correctedTo_of_confirm h r.id), ?_⟩
    · rw [hcount]
      exact (Option.some_ne_none _).symm
    · intro r hr
      rw [List.mem_singleton.1 hr]
      exact ⟨.confirmed h ht, rfl, rfl, rfl⟩
  | @rewritten event target h ht =>
    obtain ⟨hm, hid⟩ := mem_of_findRule ht
    have hcount : ∀ id, RegistryBeat.counted ⟨s, .record feed now nextId⟩ ≠ some id := by
      intro id
      rw [counted_of_correct h]
      exact (Option.some_ne_none _).symm
    have hcorr := @correctedTo_of_correct feed now nextId event h
    obtain ⟨f, hf, hrows⟩ := feedRows_replaceRule hnd hm (rewrite now event.action target) rfl
      (.rewritten target now ((hcorr target.id).trans (if_pos hid)) (.rewritten h ht))
      (fun id _ => hcount id)
      (fun id hne => (hcorr id).trans (if_neg fun heq =>
        hne (Option.some.inj (heq.symm.trans hid))))
    exact ⟨f, [], by rw [hf, List.append_nil], hrows, by simp⟩
  | @corrected event h ht =>
    have hcorr := @correctedTo_of_correct feed now nextId event h
    refine ⟨id, _, by rw [List.map_id], fun r hr => .kept r ?_ ?_, ?_⟩
    · rw [counted_of_correct h]
      exact (Option.some_ne_none _).symm
    · rw [hcorr, if_neg]
      intro hid
      -- the prior names no rule of the table
      rw [hid] at ht
      exact Lib.not_mem_of_lookup ht r hr rfl
    · intro r hr
      rw [List.mem_singleton.1 hr]
      exact ⟨.corrected h ht, rfl, rfl, rfl⟩

/-- A rule after a feed was there before it, one step away, or was seeded by it. -/
theorem feed_row_of_mem (hnd : s.ids.Nodup) {r' : Rule}
    (h : r' ∈ (s.recordLearning feed now nextId).rules) :
    (∃ r ∈ s.rules, FeedRow ⟨s, .record feed now nextId⟩ r r') ∨
      FeedSeed ⟨s, .record feed now nextId⟩ r' := by
  obtain ⟨f, seeds, hafter, hrows, hseeds⟩ := feed_rows hnd feed now nextId
  rw [hafter] at h
  rcases List.mem_append.1 h with h | h
  · obtain ⟨r, hr, rfl⟩ := List.mem_map.1 h
    exact .inl ⟨r, hr, hrows r hr⟩
  · exact .inr (hseeds r' h)

theorem exists_feed_row (hnd : s.ids.Nodup) (feed : FeedRuleLearning) (now : Datetime)
    (nextId : RuleId) {r : Rule} (h : r ∈ s.rules) :
    ∃ r' ∈ (s.recordLearning feed now nextId).rules,
      FeedRow ⟨s, .record feed now nextId⟩ r r' := by
  obtain ⟨f, seeds, hafter, hrows, -⟩ := feed_rows hnd feed now nextId
  rw [hafter]
  exact ⟨f r, List.mem_append_left _ (List.mem_map_of_mem h), hrows r h⟩

end rows

/-! ## A rule through the feeds -/

/-- A rule after `n` confirmations counted on it, and no correction. -/
structure Tracked (r : Rule) (n : Nat) (r' : Rule) : Prop where
  id : r'.id = r.id
  «match» : r'.match = r.match
  action : r'.action = r.action
  source : r'.source = r.source
  offeredAt : r'.offeredAt = r.offeredAt
  hits : r'.hits = r.hits + n
  trust : r.source = .learned → r'.trust = if n = 0 then r.trust else trustForHits r'.hits kDefault

theorem Tracked.refl (r : Rule) : Tracked r 0 r :=
  ⟨rfl, rfl, rfl, rfl, rfl, rfl, fun _ => (if_pos rfl).symm⟩

theorem Tracked.trans {r₁ r₂ r₃ : Rule} {m n : Nat} (h₁ : Tracked r₁ m r₂) (h₂ : Tracked r₂ n r₃) :
    Tracked r₁ (m + n) r₃ where
  id := h₂.id.trans h₁.id
  «match» := h₂.match.trans h₁.match
  action := h₂.action.trans h₁.action
  source := h₂.source.trans h₁.source
  offeredAt := h₂.offeredAt.trans h₁.offeredAt
  hits := by rw [h₂.hits, h₁.hits]; omega
  trust := by
    intro hs
    rw [h₂.trust (h₁.source.trans hs)]
    by_cases hn : n = 0
    · have hhits : r₃.hits = r₂.hits := by rw [h₂.hits, hn]; rfl
      rw [if_pos hn, h₁.trust hs, hn, hhits]
      rfl
    · have hne : m + n ≠ 0 := by omega
      rw [if_neg hn, if_neg hne]

/-- A feed that does not correct a rule counts on it or leaves it. -/
theorem FeedRow.tracked {beat : RegistryBeat} {r r' : Rule} (h : FeedRow beat r r')
    (hcorr : beat.op.correctedTo r.id = none) : Tracked r (landings r.id [beat]) r' := by
  cases h with
  | kept hcount _ =>
    rw [landings_of_not_counted hcount]
    exact .refl r
  | strengthened now hcount _ =>
    rw [landings_of_counted hcount]
    refine ⟨rfl, rfl, rfl, rfl, rfl, rfl, fun hs => ?_⟩
    rw [if_neg one_ne_zero]
    unfold strengthen
    simp only [hs, reduceCtorEq, if_false]
  | rewritten now hsome _ =>
    rw [hcorr] at hsome
    cases hsome

section runs
variable {text : PyText} {s t : RegistryState} {beats : List RegistryBeat}

/-- Over feeds that do not correct it, a rule counts the confirmations that land on it. -/
theorem tracked_of_run (h : RegistryRun text s beats t) (hnd : s.ids.Nodup)
    (hfeeds : ∀ beat ∈ beats, beat.op.IsFeed) {r : Rule} (hr : r ∈ s.rules)
    (hcorr : ∀ beat ∈ beats, beat.op.correctedTo r.id = none) :
    ∃ r' ∈ t.rules, Tracked r (landings r.id beats) r' := by
  induction h generalizing r with
  | nil _ => exact ⟨r, hr, .refl r⟩
  | cons hstep _ ih =>
    cases hstep with
    | @fold op hfresh =>
      obtain ⟨feed, now, nextId, rfl⟩ := hfeeds _ List.mem_cons_self
      obtain ⟨r₁, hr₁, hrow⟩ := exists_feed_row hnd feed now nextId hr
      have hfirst := hrow.tracked (hcorr _ List.mem_cons_self)
      obtain ⟨r₂, hr₂, hrest⟩ := ih (apply_ids_nodup hnd hfresh)
        (fun beat hb => hfeeds beat (List.mem_cons_of_mem _ hb)) hr₁
        (fun beat hb => by rw [hfirst.id]; exact hcorr beat (List.mem_cons_of_mem _ hb))
      refine ⟨r₂, hr₂, ?_⟩
      rw [← List.singleton_append, landings_append]
      rw [hfirst.id] at hrest
      exact hfirst.trans hrest

end runs

end YnabAgent
