import YnabAgent.Lib.Run
import YnabAgent.Learn.Registry

/-!
# What one registry signal does to a rule

The registry folds one signal at a time. `RowStep op` relates a rule before the signal to the same
rule after it, `Seeds op` says what a new rule can be. `apply_rows`: with distinct ids the table
after a signal is the old table row by row, and at most one seeded rule behind it. Every law about
sequences of signals is a case analysis of `RowStep`.
-/

namespace YnabAgent

/-! ## Signals -/

/-- A signal of the registry workflow, with the clock and the fresh id it is folded with. -/
inductive RegistryOp
  | record (feed : FeedRuleLearning) (now : Datetime) (nextId : RuleId)
  | bless (command : ExplicitCommand) (now : Datetime) (nextId : RuleId)
  | blessExisting (ruleId : RuleId) (now : Datetime)
  | revoke (payee : String) (now : Datetime)
  | markOffered (ruleId : RuleId) (now : Datetime)

namespace RegistryOp

/-- The id a new rule would get. -/
def nextId? : RegistryOp → Option RuleId
  | .record _ _ nextId => some nextId
  | .bless _ _ nextId => some nextId
  | _ => none

/-- The action a correction rewrites the rule `id` to, if the signal is a correction whose prior
names it. -/
def correctedTo (id : RuleId) : RegistryOp → Option RuleAction
  | .record feed _ _ =>
    if feed.event = .correct ∧ feed.prior.bind (·.ruleId) = some id then
      feed.decision.bind ruleActionFromDecision
    else none
  | _ => none

/-- The match and action a confirmation is evidence for. -/
def confirms : RegistryOp → Option (RuleMatch × RuleAction)
  | .record feed _ _ =>
    if feed.event = .confirm then
      (feed.decision.bind ruleActionFromDecision).map fun action =>
        ({ payeePattern := feed.payee }, action)
    else none
  | _ => none

/-- The signals that grant autonomy. -/
def grants : RegistryOp → Bool
  | .bless _ _ _ => true
  | .blessExisting _ _ => true
  | _ => false

/-- A confirmation corrects nothing. -/
theorem correctedTo_of_confirms {op : RegistryOp} {e : RuleMatch × RuleAction}
    (h : op.confirms = some e) (id : RuleId) : op.correctedTo id = none := by
  cases op with
  | record feed now nextId =>
    simp only [confirms] at h
    split at h
    · rename_i hev
      simp [correctedTo, hev]
    · cases h
  | _ => rfl

/-- Nor does a signal that grants. -/
theorem correctedTo_of_grants {op : RegistryOp} (h : op.grants = true) (id : RuleId) :
    op.correctedTo id = none := by
  cases op with
  | record feed now nextId => cases h
  | _ => rfl

end RegistryOp

namespace RegistryState

def apply (text : PyText) (state : RegistryState) : RegistryOp → RegistryState
  | .record feed now nextId => state.recordLearning feed now nextId
  | .bless command now nextId => state.blessRule command now nextId
  | .blessExisting ruleId now => state.blessById ruleId now
  | .revoke payee now => state.revokePayee text payee now
  | .markOffered ruleId now => state.markOffered ruleId now

def ids (state : RegistryState) : List RuleId := state.rules.map Rule.id

/-- The id a signal would mint is not in the table. -/
def Fresh (state : RegistryState) (op : RegistryOp) : Prop :=
  ∀ id ∈ op.nextId?, id ∉ state.ids

instance (state : RegistryState) (op : RegistryOp) : Decidable (state.Fresh op) := by
  unfold Fresh; infer_instance

end RegistryState

/-! ## Rows -/

/-- What a signal does to one rule. -/
inductive RowStep (op : RegistryOp) : Rule → Rule → Prop
  | keep (r : Rule) (h : op.correctedTo r.id = none) : RowStep op r r
  | strengthened (r : Rule) (now : Datetime) {m : RuleMatch}
      (hconf : op.confirms = some (m, r.action))
      (hmatch : r.match = m ∨ ∃ feed now nextId d, op = .record feed now nextId ∧
        feed.decision = some d ∧ d.ruleId = some r.id) :
      RowStep op r (strengthen now kDefault r)
  | rewritten (r : Rule) (now : Datetime) {action : RuleAction}
      (h : op.correctedTo r.id = some action) : RowStep op r (rewrite now action r)
  | granted (r : Rule) (now : Datetime) (h : op.grants = true) : RowStep op r (grant now r)
  | revoked (r : Rule) (h : op.correctedTo r.id = none) : RowStep op r (RegistryState.revokeRule r)
  | offered (r : Rule) (now : Datetime) (h : op = .markOffered r.id now) :
      RowStep op r (RegistryState.stampOffered now r)

/-- What a rule seeded by a signal is. -/
inductive Seeds (op : RegistryOp) : Rule → Prop
  | confirmed (r : Rule) (hconf : op.confirms = some (r.match, r.action)) (hhits : r.hits = 1)
      (htrust : r.trust = trustForHits 1 kDefault) (hsource : r.source = .learned)
      (hoffered : r.offeredAt = none) (hid : op.nextId? = some r.id) : Seeds op r
  | corrected (r : Rule) (hconf : op.confirms = none) (hhits : r.hits = 0)
      (htrust : r.trust = .suggested) (hsource : r.source = .learned)
      (hoffered : r.offeredAt = none) (hid : op.nextId? = some r.id) : Seeds op r
  | granted (r : Rule) (hgrants : op.grants = true) (htrust : r.trust = .trusted)
      (hoffered : r.offeredAt = none) (hid : op.nextId? = some r.id) : Seeds op r

/-- The table after a signal: the old rows, each by one `RowStep`, and the seeded rows. -/
structure Rows (op : RegistryOp) (before after : List Rule) : Prop where
  rows : ∃ f : Rule → Rule, (∀ r ∈ before, RowStep op r (f r)) ∧
    ∃ seeds, after = before.map f ++ seeds ∧ seeds.length ≤ 1 ∧ ∀ r ∈ seeds, Seeds op r

namespace Rows

variable {op : RegistryOp} {rules : List Rule}

theorem of_map {f : Rule → Rule} (h : ∀ r ∈ rules, RowStep op r (f r)) :
    Rows op rules (rules.map f) :=
  ⟨f, h, [], by rw [List.append_nil], Nat.zero_le 1, by simp⟩

theorem of_keep (h : ∀ r ∈ rules, op.correctedTo r.id = none) : Rows op rules rules := by
  have hm : Rows op rules (rules.map id) := of_map fun r hr => .keep r (h r hr)
  rwa [List.map_id] at hm

theorem of_seed (h : ∀ r ∈ rules, op.correctedTo r.id = none) {seed : Rule} (hs : Seeds op seed) :
    Rows op rules (rules ++ [seed]) :=
  ⟨id, fun r hr => .keep r (h r hr), [seed], by rw [List.map_id], le_refl 1, by simpa using hs⟩

/-- Replacing one rule by its update rewrites that row and keeps the others. -/
theorem of_replace (hnd : (rules.map Rule.id).Nodup) {target updated : Rule} (ht : target ∈ rules)
    (hid : updated.id = target.id) (hrow : RowStep op target updated)
    (hkeep : ∀ r ∈ rules, r.id ≠ target.id → op.correctedTo r.id = none) :
    Rows op rules (replaceRule rules updated) := by
  unfold replaceRule Lib.updateAt
  refine of_map fun r hr => ?_
  by_cases h : r.id = updated.id
  · rw [if_pos h, Lib.eq_of_key_eq hnd hr ht (h.trans hid)]
    exact hrow
  · rw [if_neg h]
    exact .keep r (hkeep r hr fun he => h (he.trans hid.symm))

end Rows

theorem RowStep.id_eq {op : RegistryOp} {r r' : Rule} (h : RowStep op r r') : r'.id = r.id := by
  cases h with
  | offered now h => unfold RegistryState.stampOffered; split <;> rfl
  | _ => rfl

theorem RowStep.match_eq {op : RegistryOp} {r r' : Rule} (h : RowStep op r r') :
    r'.match = r.match := by
  cases h with
  | offered now h => unfold RegistryState.stampOffered; split <;> rfl
  | _ => rfl

/-- Only a correction of the rule changes its action. -/
theorem RowStep.action_eq {op : RegistryOp} {r r' : Rule} (h : RowStep op r r') :
    r'.action = (op.correctedTo r.id).getD r.action := by
  cases h with
  | keep h => rw [h]; rfl
  | strengthened now hconf hmatch => rw [RegistryOp.correctedTo_of_confirms hconf]; rfl
  | rewritten now h => rw [h]; rfl
  | granted now h => rw [RegistryOp.correctedTo_of_grants h]; rfl
  | revoked h => rw [h]; rfl
  | offered now h =>
    rw [h]
    unfold RegistryState.stampOffered
    split <;> rfl

/-! ## Each signal -/

section signals
variable {rules : List Rule}

theorem mem_of_findRule {id? : Option RuleId} {r : Rule} (h : findRule rules id? = some r) :
    r ∈ rules ∧ id? = some r.id := by
  obtain ⟨id, rfl, hl⟩ := Option.bind_eq_some_iff.1 h
  obtain ⟨hm, hid⟩ := Lib.mem_of_lookup hl
  exact ⟨hm, by rw [hid]⟩

theorem mem_of_findEquivalent {m : RuleMatch} {action : RuleAction} {r : Rule}
    (h : findEquivalent rules m action = some r) :
    r ∈ rules ∧ r.match = m ∧ r.action = action := by
  refine ⟨List.mem_of_find?_eq_some h, ?_⟩
  have := List.find?_some h
  simpa using this

theorem mem_of_confirmTarget {event : ConfirmCategory} {r : Rule}
    (h : confirmTarget rules event = some r) :
    r ∈ rules ∧ r.action = event.action ∧ (r.match = event.match ∨ event.ruleId = some r.id) := by
  unfold confirmTarget at h
  split at h
  · rename_i target htarget
    cases h
    obtain ⟨hfind, haction⟩ := Option.filter_eq_some_iff.1 htarget
    obtain ⟨hm, hid⟩ := mem_of_findRule hfind
    exact ⟨hm, by simpa using haction, .inr hid⟩
  · obtain ⟨hm, hmatch, haction⟩ := mem_of_findEquivalent h
    exact ⟨hm, haction, .inl hmatch⟩

theorem confirm_rows (hnd : (rules.map Rule.id).Nodup) {feed : FeedRuleLearning} {now : Datetime}
    {nextId : RuleId} {d : Decision} {action : RuleAction} (hev : feed.event = .confirm)
    (hd : feed.decision = some d) (ha : ruleActionFromDecision d = some action) :
    Rows (.record feed now nextId) rules
      (confirm now nextId rules ⟨{ payeePattern := feed.payee }, action, d.ruleId⟩
        kDefault).rules := by
  have hcorr : ∀ id, (RegistryOp.record feed now nextId).correctedTo id = none := by
    intro id; simp [RegistryOp.correctedTo, hev]
  have hconf : (RegistryOp.record feed now nextId).confirms
      = some ({ payeePattern := feed.payee }, action) := by
    simp [RegistryOp.confirms, hev, hd, ha]
  unfold confirm
  split
  · exact .of_seed (fun r _ => hcorr r.id) (.confirmed _ hconf rfl rfl rfl rfl rfl)
  · rename_i target htarget
    obtain ⟨hm, haction, hwhy⟩ := mem_of_confirmTarget htarget
    refine .of_replace hnd hm rfl ?_ fun r _ _ => hcorr r.id
    refine .strengthened target now (by rw [hconf, haction]) (hwhy.imp_right fun hid => ?_)
    exact ⟨feed, now, nextId, d, rfl, hd, hid⟩

theorem correct_rows (hnd : (rules.map Rule.id).Nodup) {feed : FeedRuleLearning} {now : Datetime}
    {nextId : RuleId} {d : Decision} {action : RuleAction} (hev : feed.event = .correct)
    (hd : feed.decision = some d) (ha : ruleActionFromDecision d = some action) :
    Rows (.record feed now nextId) rules (correct now nextId rules
      ⟨{ payeePattern := feed.payee }, action, feed.prior.bind (·.ruleId)⟩).rules := by
  have hcorr : ∀ id, feed.prior.bind (·.ruleId) ≠ some id →
      (RegistryOp.record feed now nextId).correctedTo id = none := by
    intro id hne; simp [RegistryOp.correctedTo, hne]
  have hconf : (RegistryOp.record feed now nextId).confirms = none := by
    simp [RegistryOp.confirms, hev]
  unfold correct
  split
  · rename_i hnone
    refine .of_seed (fun r hr => hcorr r.id fun hid => ?_) (.corrected _ hconf rfl rfl rfl rfl rfl)
    -- the prior names no rule of the table
    simp only [hid] at hnone
    exact Lib.not_mem_of_lookup hnone r hr rfl
  · rename_i target htarget
    obtain ⟨hm, hid⟩ := mem_of_findRule htarget
    refine .of_replace hnd hm rfl (.rewritten target now ?_) fun r _ hne => hcorr r.id ?_
    · simp only at hid
      simp [RegistryOp.correctedTo, hev, hid, hd, ha]
    · simp only at hid
      rw [hid]
      intro he
      exact hne (Option.some.inj he).symm

theorem recordLearning_rows {s : RegistryState} (hnd : s.ids.Nodup) (feed : FeedRuleLearning)
    (now : Datetime) (nextId : RuleId) :
    Rows (.record feed now nextId) s.rules (s.recordLearning feed now nextId).rules := by
  unfold RegistryState.recordLearning planRuleUpdate learningEvent
  cases hd : feed.decision with
  | none => exact .of_keep fun r _ => by simp [RegistryOp.correctedTo, hd]
  | some d =>
    cases ha : ruleActionFromDecision d with
    | none =>
      simp only [Option.bind_some, ha, Option.map_none]
      exact .of_keep fun r _ => by simp [RegistryOp.correctedTo, hd, ha]
    | some action =>
      simp only [Option.bind_some, ha, Option.map_some]
      cases hev : feed.event with
      | confirm => exact confirm_rows hnd hev hd ha
      | correct => exact correct_rows hnd hev hd ha

theorem blessRule_rows {s : RegistryState} (hnd : s.ids.Nodup) (command : ExplicitCommand)
    (now : Datetime) (nextId : RuleId) :
    Rows (.bless command now nextId) s.rules (s.blessRule command now nextId).rules := by
  simp only [RegistryState.blessRule, applyLearning, bless]
  split
  · exact .of_seed (fun r _ => rfl) (.granted _ rfl rfl rfl rfl)
  · rename_i target htarget
    obtain ⟨hm, -, -⟩ := mem_of_findEquivalent htarget
    exact .of_replace hnd hm rfl (.granted target now rfl) fun r _ _ => rfl

theorem blessById_rows {s : RegistryState} (hnd : s.ids.Nodup) (ruleId : RuleId) (now : Datetime) :
    Rows (.blessExisting ruleId now) s.rules (s.blessById ruleId now).rules := by
  unfold RegistryState.blessById
  split
  · rename_i target htarget
    obtain ⟨hm, hid⟩ := Lib.mem_of_lookup htarget
    split
    · rename_i helig
      have hgrant : ({ target with source := .humanExplicit, lastConfirmedAt := some now } : Rule)
          = grant now target := by
        unfold grant; rw [← helig.1]
      rw [← hid, hgrant]
      change Rows _ s.rules (replaceRule s.rules (grant now target))
      exact .of_replace hnd hm rfl (.granted target now rfl) fun r _ _ => rfl
    · exact .of_keep fun r _ => rfl
  · exact .of_keep fun r _ => rfl

theorem revokePayee_rows (text : PyText) {s : RegistryState} (payee : String) (now : Datetime) :
    Rows (.revoke payee now) s.rules (s.revokePayee text payee now).rules := by
  unfold RegistryState.revokePayee
  simp only
  split
  · refine .of_keep ?_
    intro r _
    rfl
  · refine .of_map fun r _ => ?_
    split
    · exact .revoked r rfl
    · exact .keep r rfl

theorem markOffered_rows {s : RegistryState} (ruleId : RuleId) (now : Datetime) :
    Rows (.markOffered ruleId now) s.rules (s.markOffered ruleId now).rules := by
  unfold RegistryState.markOffered Lib.updateAt
  refine .of_map fun r _ => ?_
  split
  · rename_i hid
    exact .offered r now (by rw [hid])
  · exact .keep r rfl

/-- What a signal does to the table, row by row. -/
theorem apply_rows (text : PyText) {s : RegistryState} (hnd : s.ids.Nodup) (op : RegistryOp) :
    Rows op s.rules (s.apply text op).rules := by
  cases op with
  | record feed now nextId => exact recordLearning_rows hnd feed now nextId
  | bless command now nextId => exact blessRule_rows hnd command now nextId
  | blessExisting ruleId now => exact blessById_rows hnd ruleId now
  | revoke payee now => exact revokePayee_rows text payee now
  | markOffered ruleId now => exact markOffered_rows ruleId now

end signals

/-! ## Runs -/

/-- A signal with the table it meets. -/
structure RegistryBeat where
  pre : RegistryState
  op : RegistryOp

/-- The registry folds any signal; the id it would mint is fresh. -/
inductive RegistryStep (text : PyText) : RegistryState → RegistryBeat → RegistryState → Prop
  | fold {s : RegistryState} {op : RegistryOp} (hfresh : s.Fresh op) :
      RegistryStep text s ⟨s, op⟩ (s.apply text op)

abbrev RegistryRun (text : PyText) := Lib.Run (RegistryStep text)

/-- Fold the signals in order. -/
def foldOps (text : PyText) : RegistryState → List RegistryOp → List RegistryBeat × RegistryState
  | s, [] => ([], s)
  | s, op :: ops =>
    let (beats, last) := foldOps text (s.apply text op) ops
    (⟨s, op⟩ :: beats, last)

/-- Folding fresh signals is a run. -/
theorem foldOps_run (text : PyText) (s : RegistryState) (ops : List RegistryOp) :
    (∀ beat ∈ (foldOps text s ops).1, beat.pre.Fresh beat.op) →
      RegistryRun text s (foldOps text s ops).1 (foldOps text s ops).2 := by
  induction ops generalizing s with
  | nil => intro _; exact .nil s
  | cons op ops ih =>
    intro hfresh
    exact .cons (.fold (hfresh _ List.mem_cons_self))
      (ih _ fun beat hb => hfresh beat (List.mem_cons_of_mem _ hb))

/-- The beats of a fold carry its signals. -/
theorem forall_foldOps {text : PyText} {P : RegistryOp → Prop} {s : RegistryState}
    {ops : List RegistryOp} (h : ∀ op ∈ ops, P op) :
    ∀ beat ∈ (foldOps text s ops).1, P beat.op := by
  induction ops generalizing s with
  | nil => intro beat hbeat; cases hbeat
  | cons op ops ih =>
    intro beat hbeat
    rcases List.mem_cons.1 hbeat with rfl | hrest
    · exact h op List.mem_cons_self
    · exact ih (fun op hop => h op (List.mem_cons_of_mem _ hop)) beat hrest

theorem Seeds.id_eq {op : RegistryOp} {r : Rule} (h : Seeds op r) : op.nextId? = some r.id := by
  cases h <;> assumption

section runs
variable {text : PyText} {s : RegistryState} {op : RegistryOp}

/-- A rule after a signal was there before it, one step away, or was seeded by it. -/
theorem row_of_mem (hnd : s.ids.Nodup) {r' : Rule} (h : r' ∈ (s.apply text op).rules) :
    (∃ r ∈ s.rules, RowStep op r r') ∨ Seeds op r' := by
  obtain ⟨f, hf, seeds, hafter, -, hseeds⟩ := (apply_rows text hnd op).rows
  rw [hafter] at h
  rcases List.mem_append.1 h with h | h
  · obtain ⟨r, hr, rfl⟩ := List.mem_map.1 h
    exact .inl ⟨r, hr, hf r hr⟩
  · exact .inr (hseeds r' h)

/-- A rule survives every signal, one step away. -/
theorem exists_row (hnd : s.ids.Nodup) {r : Rule} (h : r ∈ s.rules) :
    ∃ r' ∈ (s.apply text op).rules, RowStep op r r' := by
  obtain ⟨f, hf, seeds, hafter, -, -⟩ := (apply_rows text hnd op).rows
  rw [hafter]
  exact ⟨f r, List.mem_append_left _ (List.mem_map_of_mem h), hf r h⟩

theorem apply_ids_nodup (hnd : s.ids.Nodup) (hfresh : s.Fresh op) :
    (s.apply text op).ids.Nodup := by
  obtain ⟨f, hf, seeds, hafter, hlen, hseeds⟩ := (apply_rows text hnd op).rows
  have hids : (s.rules.map f).map Rule.id = s.ids := by
    rw [List.map_map]
    exact List.map_congr_left fun r hr => (hf r hr).id_eq
  unfold RegistryState.ids
  rw [hafter, List.map_append, hids]
  refine List.Nodup.append hnd ?_ ?_
  · rcases seeds with - | ⟨a, - | ⟨b, tl⟩⟩
    · exact List.nodup_nil
    · exact List.nodup_singleton _
    · simp at hlen
  · intro id hid hseed
    obtain ⟨seed, hmem, rfl⟩ := List.mem_map.1 hseed
    exact hfresh seed.id (hseeds seed hmem).id_eq hid

theorem RegistryRun.ids_nodup {beats : List RegistryBeat} {t : RegistryState}
    (h : RegistryRun text s beats t) (hnd : s.ids.Nodup) : t.ids.Nodup := by
  refine Lib.Run.invariant (I := fun u => u.ids.Nodup) ?_ h hnd
  intro u l v hu hstep
  cases hstep with
  | fold hfresh => exact apply_ids_nodup hu hfresh

end runs

end YnabAgent
