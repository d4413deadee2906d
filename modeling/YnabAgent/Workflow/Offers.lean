import YnabAgent.Learn.Folds

/-!
# The registry workflow and its offers

The registry wakes on a pending offer, starts the offer's workflow by an activity, and marks the
rule offered (`workflow/registry_workflow.py`, `workflow/offer_activities.py`). The workflow id is
made of the rule id and a duplicate start is rejected silently; signals are folded between any two
of the steps. `log` keeps the offers that were really started and the corrections, in order.

`offered_was_started`: a mark stands for an offer started since the rule's last correction, on every
run whose starts are first starts of the rule's current action and whose corrections do not fall
between a start and its mark (`OfferBeat.Keeps`).
-/

namespace YnabAgent

/-! ## The world -/

inductive OfferEvent
  | started (rule : Rule)
  | corrected (id : RuleId)
  deriving DecidableEq

/-- The registry, the rule being offered with whether its start activity has returned, the ids of
the offer workflows, and the log. -/
structure OfferWorld where
  registry : RegistryState := {}
  offering : Option (Rule × Bool) := none
  workflows : List String := []
  log : List OfferEvent := []
  deriving DecidableEq

/-- A signal handled, the registry's wake, an attempt of the start activity, and the mark. -/
inductive OfferAct
  | signal (op : RegistryOp)
  | wake
  | start
  | mark (now : Datetime)

def offerWorkflowId (ruleId : RuleId) : String := "autonomy-offer-" ++ ruleId

/-- A mark is the registry's own step, not a signal. -/
def RegistryOp.isSignal : RegistryOp → Bool
  | .markOffered _ _ => false
  | _ => true

/-- The corrections a signal makes in the table. -/
def corrections (s : RegistryState) (op : RegistryOp) : List OfferEvent :=
  (s.ids.filter fun id => (op.correctedTo id).isSome).map .corrected

/-- An already started offer is success. -/
def startAutonomyOffer (w : OfferWorld) (rule : Rule) : OfferWorld :=
  if offerWorkflowId rule.id ∈ w.workflows then w
  else { w with workflows := offerWorkflowId rule.id :: w.workflows,
                log := w.log ++ [.started rule] }

section world
variable (text : PyText)

def OfferWorld.step (w : OfferWorld) : OfferAct → Option OfferWorld
  | .signal op =>
    if op.isSignal ∧ w.registry.Fresh op then
      some { w with registry := w.registry.apply text op,
                    log := w.log ++ corrections w.registry op }
    else none
  | .wake =>
    match w.offering, w.registry.pendingOffers with
    | none, rule :: _ => some { w with offering := some (rule, false) }
    | _, _ => none
  | .start =>
    match w.offering with
    | some (rule, _) => some { startAutonomyOffer w rule with offering := some (rule, true) }
    | none => none
  | .mark now =>
    match w.offering with
    | some (rule, true) =>
      some { w with registry := w.registry.markOffered rule.id now, offering := none }
    | _ => none

abbrev OfferBeat := Lib.Beat OfferWorld OfferAct

abbrev OfferRun := Lib.Run (Lib.StepOf (OfferWorld.step text))

end world

/-! ## The law -/

/-- An offer for this action of the rule was started, and the rule not corrected since. -/
def OfferedSince (log : List OfferEvent) (id : RuleId) (action : RuleAction) : Prop :=
  ∃ before after rule, log = before ++ .started rule :: after ∧ rule.id = id ∧
    rule.action = action ∧ .corrected id ∉ after

/-- The first attempt of a start finds no workflow under the rule's id and the rule's action still
the one picked; no signal corrects a rule between the start of its offer and the mark. -/
def OfferBeat.Keeps (beat : OfferBeat) : Prop :=
  match beat.act with
  | .signal op => ∀ rule, beat.pre.offering = some (rule, true) → op.correctedTo rule.id = none
  | .start => ∀ rule, beat.pre.offering = some (rule, false) →
      offerWorkflowId rule.id ∉ beat.pre.workflows ∧
      ∃ r ∈ beat.pre.registry.rules, r.id = rule.id ∧ r.action = rule.action
  | _ => True

theorem OfferedSince.append {log : List OfferEvent} {id : RuleId} {action : RuleAction}
    (h : OfferedSince log id action) {events : List OfferEvent} (hne : .corrected id ∉ events) :
    OfferedSince (log ++ events) id action := by
  obtain ⟨before, after, rule, rfl, hid, haction, hafter⟩ := h
  refine ⟨before, after ++ events, rule, by simp, hid, haction, ?_⟩
  rw [List.mem_append]
  exact fun hor => hor.elim hafter hne

theorem offeredSince_started {log : List OfferEvent} (rule : Rule) :
    OfferedSince (log ++ [.started rule]) rule.id rule.action :=
  ⟨log, [], rule, rfl, rfl, rfl, List.not_mem_nil⟩

theorem mem_corrections {s : RegistryState} {op : RegistryOp} {id : RuleId} :
    .corrected id ∈ corrections s op ↔ id ∈ s.ids ∧ op.correctedTo id ≠ none := by
  simp [corrections, Option.isSome_iff_ne_none]

/-- A correction of a rule clears its mark. -/
theorem RowStep.offeredAt_of_corrected {op : RegistryOp} {r r' : Rule} (h : RowStep op r r')
    (hc : op.correctedTo r.id ≠ none) : r'.offeredAt = none := by
  cases h with
  | keep hkeep => exact absurd hkeep hc
  | strengthened now hconf hmatch => exact absurd (RegistryOp.correctedTo_of_confirms hconf _) hc
  | rewritten now h => rfl
  | granted now hgrants => exact absurd (RegistryOp.correctedTo_of_grants hgrants _) hc
  | revoked hkeep => exact absurd hkeep hc
  | offered now hop => rw [hop] at hc; exact absurd rfl hc

/-- Any other signal leaves the mark. -/
theorem RowStep.offeredAt_eq {op : RegistryOp} {r r' : Rule} (h : RowStep op r r')
    (hop : op.isSignal = true) (hc : op.correctedTo r.id = none) : r'.offeredAt = r.offeredAt := by
  cases h with
  | rewritten now hto => rw [hto] at hc; cases hc
  | offered now hmark => rw [hmark] at hop; cases hop
  | _ => rfl

theorem Seeds.offeredAt {op : RegistryOp} {r : Rule} (h : Seeds op r) : r.offeredAt = none := by
  cases h <;> assumption

/-- The invariant: every mark stands for a started offer, and so will the mark of the offer under
way once its start has returned. -/
structure OffersKept (w : OfferWorld) : Prop where
  nodup : w.registry.ids.Nodup
  marked : ∀ r ∈ w.registry.rules, r.offeredAt ≠ none → OfferedSince w.log r.id r.action
  present : ∀ rule started, w.offering = some (rule, started) → rule.id ∈ w.registry.ids
  underWay : ∀ rule, w.offering = some (rule, true) → ∀ r ∈ w.registry.rules, r.id = rule.id →
    OfferedSince w.log r.id r.action

section steps
variable {text : PyText} {w : OfferWorld}

/-- A rule a signal does not correct keeps the offer it had. -/
theorem OfferedSince.of_signal {op : RegistryOp} {r r' : Rule} (hrow : RowStep op r r')
    (hc : op.correctedTo r.id = none) (h : OfferedSince w.log r.id r.action) :
    OfferedSince (w.log ++ corrections w.registry op) r'.id r'.action := by
  rw [hrow.id_eq, hrow.action_eq, hc]
  exact h.append fun hmem => (mem_corrections.1 hmem).2 hc

theorem OffersKept.signal (hw : OffersKept w) {op : RegistryOp} (hop : op.isSignal = true)
    (hfresh : w.registry.Fresh op)
    (hkeeps : ∀ rule, w.offering = some (rule, true) → op.correctedTo rule.id = none) :
    OffersKept { w with registry := w.registry.apply text op,
                        log := w.log ++ corrections w.registry op } where
  nodup := apply_ids_nodup hw.nodup hfresh
  marked := by
    intro r' hr' hmark
    rcases row_of_mem hw.nodup hr' with ⟨r, hr, hrow⟩ | hseed
    · by_cases hc : op.correctedTo r.id = none
      · rw [hrow.offeredAt_eq hop hc] at hmark
        exact .of_signal hrow hc (hw.marked r hr hmark)
      · exact absurd (hrow.offeredAt_of_corrected hc) hmark
    · exact absurd hseed.offeredAt hmark
  present := by
    intro rule started hoff
    obtain ⟨r, hr, hid⟩ := List.mem_map.1 (hw.present rule started hoff)
    obtain ⟨r', hr', hrow⟩ := exists_row hw.nodup hr
    exact List.mem_map.2 ⟨r', hr', hrow.id_eq.trans hid⟩
  underWay := by
    intro rule hoff r' hr' hid
    rcases row_of_mem hw.nodup hr' with ⟨r, hr, hrow⟩ | hseed
    · have hrid : r.id = rule.id := hrow.id_eq.symm.trans hid
      exact .of_signal hrow (by rw [hrid]; exact hkeeps rule hoff) (hw.underWay rule hoff r hr hrid)
    · -- a seeded rule has a fresh id, the offered rule's is in the table
      exact absurd (hid ▸ hw.present rule true hoff) (hfresh _ hseed.id_eq)

theorem OffersKept.wake (hw : OffersKept w) {rule : Rule} {rest : List Rule}
    (hpending : w.registry.pendingOffers = rule :: rest) :
    OffersKept { w with offering := some (rule, false) } where
  nodup := hw.nodup
  marked := hw.marked
  present := by
    intro rule' started h
    cases h
    have hmem : rule ∈ w.registry.pendingOffers := by rw [hpending]; exact List.mem_cons_self
    have hrule := (List.mem_filter.1 (List.mem_filter.1 hmem).1).1
    exact List.mem_map_of_mem hrule
  underWay := by intro rule' h; cases h

theorem startAutonomyOffer_log (w : OfferWorld) (rule : Rule) :
    ∃ events, (startAutonomyOffer w rule).log = w.log ++ events ∧
      ∀ id, .corrected id ∉ events := by
  unfold startAutonomyOffer
  split
  · exact ⟨[], by simp, by simp⟩
  · exact ⟨[.started rule], rfl, by simp⟩

theorem startAutonomyOffer_registry (w : OfferWorld) (rule : Rule) :
    (startAutonomyOffer w rule).registry = w.registry := by
  unfold startAutonomyOffer
  split <;> rfl

theorem OffersKept.start (hw : OffersKept w) {rule : Rule} {started : Bool}
    (hoff : w.offering = some (rule, started))
    (hkeeps : ∀ rule, w.offering = some (rule, false) → offerWorkflowId rule.id ∉ w.workflows ∧
      ∃ r ∈ w.registry.rules, r.id = rule.id ∧ r.action = rule.action) :
    OffersKept { startAutonomyOffer w rule with offering := some (rule, true) } := by
  obtain ⟨events, hlog, hevents⟩ := startAutonomyOffer_log w rule
  have hreg := startAutonomyOffer_registry w rule
  refine ⟨by rw [hreg]; exact hw.nodup, ?_, ?_, ?_⟩
  · intro r hr hmark
    rw [hreg] at hr
    rw [hlog]
    exact (hw.marked r hr hmark).append (hevents _)
  · intro rule' started' h
    cases h
    rw [hreg]
    exact hw.present rule started hoff
  · intro rule' h r hr hid
    cases h
    rw [hreg] at hr
    cases started with
    | true =>
      -- a retry: the offer was already under way
      rw [hlog]
      exact (hw.underWay rule hoff r hr hid).append (hevents _)
    | false =>
      obtain ⟨hnew, r', hr', hid', haction⟩ := hkeeps rule hoff
      have hrr : r = r' := Lib.eq_of_key_eq hw.nodup hr hr' (hid.trans hid'.symm)
      rw [hid, hrr, haction]
      unfold startAutonomyOffer
      rw [if_neg hnew]
      exact offeredSince_started rule

theorem OffersKept.mark (hw : OffersKept w) {rule : Rule} (hoff : w.offering = some (rule, true))
    (now : Datetime) :
    OffersKept { w with registry := w.registry.markOffered rule.id now, offering := none } where
  nodup := by
    have hids : (w.registry.markOffered rule.id now).ids = w.registry.ids :=
      Lib.map_key_updateAt fun a ha => by
        unfold RegistryState.stampOffered
        split <;> exact ha
    rw [hids]
    exact hw.nodup
  marked := by
    intro r' hr' hmark
    rcases Lib.mem_updateAt.1 hr' with ⟨hr, -⟩ | ⟨r, hr, hid, rfl⟩
    · exact hw.marked r' hr hmark
    · have hsince := hw.underWay rule hoff r hr hid
      unfold RegistryState.stampOffered
      split <;> exact hsince
  present := by intro rule' started h; cases h
  underWay := by intro rule' h; cases h

/-- One step of the world keeps the invariant. -/
theorem OffersKept.step (hw : OffersKept w) {act : OfferAct} {w' : OfferWorld}
    (hkeeps : OfferBeat.Keeps ⟨w, act⟩) (h : w.step text act = some w') : OffersKept w' := by
  unfold OfferWorld.step at h
  cases act with
  | signal op =>
    simp only at h
    split at h
    · rename_i hop
      cases h
      exact hw.signal hop.1 hop.2 hkeeps
    · cases h
  | wake =>
    simp only at h
    split at h
    · rename_i hpending
      cases h
      exact hw.wake hpending
    · cases h
  | start =>
    simp only at h
    split at h
    · rename_i hoff
      cases h
      exact hw.start hoff hkeeps
    · cases h
  | mark now =>
    simp only at h
    split at h
    · rename_i hoff
      cases h
      exact hw.mark hoff now
    · cases h

end steps

/-- **A mark stands for an offer.** On every run that keeps its offers, a rule marked as offered had
an offer for its current action started since its last correction. -/
theorem offered_was_started {text : PyText} {beats : List OfferBeat} {w : OfferWorld}
    (h : OfferRun text {} beats w) (hkeeps : ∀ beat ∈ beats, OfferBeat.Keeps beat) {r : Rule}
    (hr : r ∈ w.registry.rules) (hmark : r.offeredAt ≠ none) :
    OfferedSince w.log r.id r.action := by
  have hinit : OffersKept {} :=
    { nodup := List.nodup_nil
      marked := fun r hr => (by cases hr)
      present := fun rule started h => (by cases h)
      underWay := fun rule h => (by cases h) }
  refine (h.invariant_of ?_ hkeeps hinit : OffersKept w).marked r hr hmark
  intro u beat v hu hk hstep
  cases hstep with
  | step hs => exact hu.step hk hs

/-! ## A mark without an offer -/

/-- The human's choice for the café, driven by the given rule or none. -/
def cafeDecision (category : CategoryId) (ruleId : Option RuleId) : Decision :=
  { allocation := .category category none, approved := true, decidedBy := .human, decidedAt := 0,
    ruleId }

def confirmAct (category : CategoryId) (nextId : RuleId) : OfferAct :=
  .signal (.record { event := .confirm, payee := "Corner Cafe",
                     decision := some (cafeDecision category none) } 0 nextId)

/-- Dining confirmed three times and offered. -/
def diningOffered : List OfferAct :=
  [confirmAct "dining" "r1", confirmAct "dining" "r2", confirmAct "dining" "r3", .wake, .start,
    .mark 1]

/-- The rule corrected to groceries, groceries confirmed three times, and the rule marked again. -/
def groceriesMarked : List OfferAct :=
  [.signal (.record { event := .correct, payee := "Corner Cafe",
                      decision := some (cafeDecision "groceries" none),
                      prior := some (cafeDecision "dining" (some "r1")) } 2 "r4"),
    confirmAct "groceries" "r5", confirmAct "groceries" "r6", confirmAct "groceries" "r7", .wake,
    .start, .mark 3]

/-- The start for groceries meets the id of dining's workflow: the rule is marked offered for
groceries, and the only offer ever started named dining. -/
theorem marked_without_offer :
    ∃ beats w, OfferRun PyText.ascii {} beats w ∧ ∃ r ∈ w.registry.rules, r.offeredAt ≠ none ∧
      r.action = { allocation := .category "groceries" none } ∧
      ¬ OfferedSince w.log r.id r.action := by
  have hexec : ∃ beats w r offered, Lib.exec (OfferWorld.step PyText.ascii) {}
      (diningOffered ++ groceriesMarked) = some (beats, w) ∧ w.registry.rules = [r] ∧
      r.offeredAt ≠ none ∧ r.action = { allocation := .category "groceries" none } ∧
      w.log = [.started offered, .corrected "r1"] ∧
      offered.action = { allocation := .category "dining" none } :=
    ⟨_, _, _, _, rfl, rfl, by decide, rfl, rfl, rfl⟩
  obtain ⟨beats, w, r, offered, hexec, hrules, hmark, haction, hlog, hoffered⟩ := hexec
  refine ⟨beats, w, Lib.exec_run hexec, r, by rw [hrules]; exact List.mem_singleton.2 rfl, hmark,
    haction, ?_⟩
  rintro ⟨before, after, rule, hsplit, -, hact, -⟩
  have hmem : OfferEvent.started rule ∈ w.log := by rw [hsplit]; simp
  rw [hlog] at hmem
  simp only [List.mem_cons, OfferEvent.started.injEq, reduceCtorEq, List.not_mem_nil, or_false]
    at hmem
  rw [hmem, hoffered, haction] at hact
  exact absurd hact (by decide)

/-- The first offer keeps the law: dining is marked and was offered. -/
theorem dining_was_started :
    ∃ w : OfferWorld, (∃ r ∈ w.registry.rules, r.offeredAt ≠ none ∧
      OfferedSince w.log r.id r.action) := by
  have hexec : ∃ b₁ b₂ b₃ b₄ b₅ b₆ w r, Lib.exec (OfferWorld.step PyText.ascii) {} diningOffered
      = some ([b₁, b₂, b₃, b₄, b₅, b₆], w) ∧ w.registry.rules = [r] ∧ r.offeredAt ≠ none ∧
      ∀ beat ∈ [b₁, b₂, b₃, b₄, b₅, b₆], OfferBeat.Keeps beat := by
    refine ⟨_, _, _, _, _, _, _, _, rfl, rfl, by decide, ?_⟩
    simp only [List.forall_mem_cons, List.not_mem_nil, false_imp_iff, implies_true, and_true]
    refine ⟨fun rule h => ?_, fun rule h => ?_, fun rule h => ?_, trivial,
      fun rule h => ?_, trivial⟩
    · cases h
    · cases h
    · cases h
    · cases h
      exact ⟨by decide, _, List.mem_singleton.2 rfl, rfl, rfl⟩
  obtain ⟨b₁, b₂, b₃, b₄, b₅, b₆, w, r, hexec, hrules, hmark, hkeeps⟩ := hexec
  have hr : r ∈ w.registry.rules := by rw [hrules]; exact List.mem_singleton.2 rfl
  exact ⟨w, r, hr, hmark, offered_was_started (Lib.exec_run hexec) hkeeps hr hmark⟩

end YnabAgent
