import YnabAgent.Agentic.Command
import YnabAgent.Agentic.Ratchet
import YnabAgent.Learn.Grants
import YnabAgent.Learn.Revocation
import YnabAgent.Workflow.Talks

/-!
# Who may grant autonomy

The inbox, the registry with its offers, and the talks they start, as one system
(`workflow/dispatch_activities.py`, `workflow/offer_activities.py`,
`workflow/command_activities.py`). A routed reply is delivered to a talk of its workflow id, any
number of times and at any time; a routed command starts a read-back unless one of its id runs, each
attempt on a reading of its own; a yes sends the grant, possibly more than once. What a thread
belongs to, what the models read and when anything happens is open.

`autonomy_consented`: every rule that grants autonomy, and with it every decision applied without
asking, rests on a "yes" of an admitted message, read by a talk about that rule; and a command takes
two messages, the instruction and the yes to its read-back.
-/

namespace YnabAgent

open Lib (Dialogue Stage Reading)
open Dispatch (Inbox InboxAct Routed Destination WebhookConfig)

/-! ## The world -/

/-- A decision applied without asking, and the charge. -/
structure AppliedDecision where
  decision : Decision
  snapshot : YnabSnapshot

structure Autonomy where
  inbox : Inbox := {}
  offers : OfferWorld := {}
  talks : List Talk := []
  applied : List AppliedDecision := []

inductive AutonomyAct
  | inbox (act : InboxAct)
  /-- A signal that grants nothing, or a step of the registry's own. -/
  | registry (act : OfferAct)
  /-- An attempt of `handle_command`, with what the model made of the message. -/
  | command (message : DispatchMessage) (reading : CommandReading)
      (candidates : List CandidateCategory)
  | deliver (n : Nat) (message : DispatchMessage)
  | opened (n : Nat) (now : Datetime)
  | take (n : Nat)
  | read (n : Nat) (reading : Reading)
  /-- An attempt of the activity that answers a reading. -/
  | answer (n : Nat) (now : Datetime) (nextId : RuleId) (returns : Bool)
  | lapse (n : Nat) (now : Datetime)
  | fail (n : Nat)
  | enrich (snapshot : YnabSnapshot) (candidates : List CandidateCategory)
      (counters : AutoActionCounters) (now : Datetime)

def OfferAct.granting : OfferAct → Bool
  | signal op => op.grants
  | _ => false

/-- What the system is configured with: the webhook, the digest, and the model that proposes. -/
structure AutonomyConfig where
  webhook : WebhookConfig
  sha256 : String → String
  propose : EnrichmentRequest → EnrichmentSuggestion

def AutonomyConfig.text (config : AutonomyConfig) : PyText := config.webhook.text.toPyText

namespace Autonomy

/-- A talk makes a move. -/
def move (w : Autonomy) (n : Nat) (m : Dialogue.Move DispatchMessage) : Option Autonomy :=
  match w.talks[n]? with
  | some t =>
    (t.dialogue.step t.subject.patience m).map fun dialogue =>
      { w with talks := w.talks.set n { t with dialogue } }
  | none => none

/-- The offer an attempt of its start has started. -/
def startedOffer (before after : OfferWorld) : List Talk :=
  match after.offering with
  | some (rule, _) =>
    if offerWorkflowId rule.id ∉ before.workflows ∧ offerWorkflowId rule.id ∈ after.workflows then
      [{ subject := .offer rule }]
    else []
  | none => []

/-- Whether a talk of the id runs. -/
def running (w : Autonomy) (sha256 : String → String) (workflowId : String) : Bool :=
  w.talks.any fun t =>
    decide (t.subject.workflowId sha256 = workflowId ∧ t.dialogue.stage ≠ .closed)

variable (config : AutonomyConfig)

/-- An attempt of the answer to a reading: a yes sends the grant. -/
def answer (w : Autonomy) (n : Nat) (now : Datetime) (nextId : RuleId) (returns : Bool) :
    Option Autonomy :=
  match w.talks[n]? with
  | some t =>
    match t.dialogue.stage with
    | .answering _ .accept =>
      let op := t.subject.grant now nextId
      if w.offers.registry.Fresh op then
        let granted :=
          { w with offers := { w.offers with registry := w.offers.registry.apply config.text op } }
        if returns then granted.move n .answered else some granted
      else none
    | .answering _ _ => if returns then w.move n .answered else some w
    | _ => none
  | none => none

def step (w : Autonomy) : AutonomyAct → Option Autonomy
  | .inbox act => (w.inbox.step config.webhook act).map fun inbox => { w with inbox }
  | .registry act =>
    if act.granting then none
    else
      (w.offers.step config.text act).map fun offers =>
        { w with offers, talks := w.talks ++ startedOffer w.offers offers }
  | .command message reading candidates =>
    if ⟨message, .command⟩ ∈ w.inbox.log then
      match toExplicitCommand reading candidates with
      | some command =>
        if w.running config.sha256 (commandConfirmId config.sha256 command) then some w
        else
          some { w with
            talks := w.talks ++ [{ subject := .readBack command, instruction := some message }] }
      | none => some w
    else none
  | .deliver n message =>
    match w.talks[n]? with
    | some t =>
      if ⟨message, .offer (t.subject.workflowId config.sha256)⟩ ∈ w.inbox.log then
        w.move n (.hear message)
      else none
    | none => none
  | .opened n now => w.move n (.opened now)
  | .take n => w.move n .take
  | .read n reading => w.move n (.read reading)
  | .answer n now nextId returns => w.answer config n now nextId returns
  | .lapse n now => w.move n (.lapse now)
  | .fail n => w.move n .fail
  | .enrich snapshot candidates counters now =>
    let rules := w.offers.registry.rulesForPayee config.text snapshot.payee
    match decideEnrichment config.text config.propose snapshot candidates rules counters now with
    | .ok (.autoApply decision) => some { w with applied := w.applied ++ [⟨decision, snapshot⟩] }
    | _ => some w

end Autonomy

/-! ## What a signal grants -/

/-- The signal grants the rule. -/
def RegistryOp.Grants : RegistryOp → Rule → Prop
  | .bless command _ _, rule => command.match = rule.match ∧ command.action = rule.action
  | .blessExisting ruleId _, rule => ruleId = rule.id
  | _, _ => False

section grants
variable {text : PyText} {s : RegistryState} {op : RegistryOp} {r : Rule}

theorem RegistryOp.not_grants (h : op.grants = false) : ¬ op.Grants r := by
  intro hgrant
  cases op with
  | bless command now nextId => cases h
  | blessExisting ruleId now => cases h
  | _ => exact hgrant

/-- A granted rule was granted before under the same id, match and action, or by the signal. -/
theorem granted_or_grants (hnd : s.ids.Nodup) (hr : r ∈ (s.apply text op).rules)
    (hs : r.source = .humanExplicit) :
    (∃ r₀ ∈ s.rules, r₀.source = .humanExplicit ∧ r₀.id = r.id ∧ r₀.match = r.match ∧
      r₀.action = r.action) ∨ op.Grants r := by
  by_cases hgrants : op.grants = false
  · left
    rcases row_of_mem hnd hr with ⟨r₀, hr₀, hrow⟩ | hseed
    · obtain ⟨hbefore, haction⟩ := hrow.granted_before hgrants hs
      exact ⟨r₀, hr₀, hbefore, hrow.id_eq.symm, hrow.match_eq.symm, haction.symm⟩
    · exact absurd hs (hseed.not_granted hgrants)
  · cases op with
    | bless command now nextId =>
      simp only [RegistryState.apply, RegistryState.blessRule, applyLearning, bless] at hr
      split at hr
      · rcases List.mem_append.1 hr with hr | hr
        · exact .inl ⟨r, hr, hs, rfl, rfl, rfl⟩
        · rw [List.mem_singleton.1 hr]
          exact .inr ⟨rfl, rfl⟩
      · rename_i target htarget
        obtain ⟨-, hmatch, haction⟩ := mem_of_findEquivalent htarget
        rcases mem_of_replaceRule hr with hr | rfl
        · exact .inl ⟨r, hr, hs, rfl, rfl, rfl⟩
        · exact .inr ⟨hmatch.symm, haction.symm⟩
    | blessExisting ruleId now =>
      simp only [RegistryState.apply, RegistryState.blessById] at hr
      split at hr
      · rename_i target htarget
        split at hr
        · rcases Lib.mem_updateAt.1 hr with ⟨hr, -⟩ | ⟨r₀, -, -, rfl⟩
          · exact .inl ⟨r, hr, hs, rfl, rfl, rfl⟩
          · exact .inr (Lib.mem_of_lookup htarget).2.symm
        · exact .inl ⟨r, hr, hs, rfl, rfl, rfl⟩
      · exact .inl ⟨r, hr, hs, rfl, rfl, rfl⟩
    | _ => exact absurd rfl hgrants

/-- A rule of the table is still there, under its id and match. -/
def Standing (rules : List Rule) (rule : Rule) : Prop :=
  ∃ r ∈ rules, r.id = rule.id ∧ r.match = rule.match

theorem Standing.of_mem {rules : List Rule} (h : r ∈ rules) : Standing rules r :=
  ⟨r, h, rfl, rfl⟩

theorem Standing.apply (h : Standing s.rules r) (hnd : s.ids.Nodup) :
    Standing (s.apply text op).rules r := by
  obtain ⟨r₀, hr₀, hid, hmatch⟩ := h
  obtain ⟨r', hr', hrow⟩ := exists_row hnd hr₀
  exact ⟨r', hr', hrow.id_eq.trans hid, hrow.match_eq.trans hmatch⟩

end grants

/-- A step of the registry that grants nothing folds one signal that grants nothing, or leaves the
table; the offer under way is one it had, or a rule of the table. -/
theorem OfferWorld.step_nongranting {text : PyText} {w w' : OfferWorld} {act : OfferAct}
    (h : w.step text act = some w') (hgrants : act.granting = false) :
    (∀ rule started, w'.offering = some (rule, started) →
      rule ∈ w.registry.rules ∨ ∃ started, w.offering = some (rule, started)) ∧
    (w'.registry = w.registry ∨ ∃ op, op.grants = false ∧ w.registry.Fresh op ∧
      w'.registry = w.registry.apply text op) := by
  unfold OfferWorld.step at h
  cases act with
  | signal op =>
    simp only at h
    split at h
    · rename_i hop
      cases h
      exact ⟨fun rule started hoff => .inr ⟨started, hoff⟩, .inr ⟨op, hgrants, hop.2, rfl⟩⟩
    · cases h
  | wake =>
    simp only at h
    split at h
    · rename_i rule rest hnone hpending
      cases h
      refine ⟨fun rule' started hoff => ?_, .inl rfl⟩
      cases hoff
      have hmem : rule ∈ w.registry.pendingOffers := by rw [hpending]; exact List.mem_cons_self
      exact .inl (List.mem_filter.1 (List.mem_filter.1 hmem).1).1
    · cases h
  | start =>
    simp only at h
    split at h
    · rename_i rule started hoff
      cases h
      refine ⟨fun rule' started' hoff' => ?_, .inl (startAutonomyOffer_registry w rule)⟩
      cases hoff'
      exact .inr ⟨started, hoff⟩
    · cases h
  | mark now =>
    simp only at h
    split at h
    · rename_i rule hoff
      cases h
      refine ⟨fun rule' started hoff' => ?_, .inr ⟨.markOffered rule.id now, rfl, ?_, rfl⟩⟩
      · cases hoff'
      · intro id hid
        cases hid
    · cases h

/-! ## Consent -/

abbrev AutonomyBeat := Lib.Beat Autonomy AutonomyAct

abbrev AutonomyRun (config : AutonomyConfig) := Lib.Run (Lib.StepOf (Autonomy.step config))

/-- The offer was of the rule, the command says what it does. -/
def Subject.Concerns : Subject → Rule → Prop
  | offer offered, rule => offered.id = rule.id ∧ offered.match = rule.match
  | readBack command, rule => command.match = rule.match ∧ command.action = rule.action

/-- A talk about the subject read the message as a yes. -/
def ReadYes (beats : List AutonomyBeat) (subject : Subject) (message : DispatchMessage) : Prop :=
  ∃ beat ∈ beats, ∃ n t, beat.act = .read n .accept ∧ beat.pre.talks[n]? = some t ∧
    t.subject = subject ∧ t.dialogue.stage = .reading message

/-- The message was read as the command. -/
def ReadCommand (beats : List AutonomyBeat) (message : DispatchMessage)
    (command : ExplicitCommand) : Prop :=
  ∃ beat ∈ beats, ∃ reading candidates, beat.act = .command message reading candidates ∧
    toExplicitCommand reading candidates = some command

/-- A command was routed as one. -/
def CommandRouted (beats : List AutonomyBeat) (log : List Routed) (command : ExplicitCommand) :
    Prop :=
  ∃ instruction, ReadCommand beats instruction command ∧ ⟨instruction, .command⟩ ∈ log

/-- What a rule's grant rests on, as the world keeps it. -/
structure Consent (sha256 : String → String) (beats : List AutonomyBeat) (log : List Routed)
    (rule : Rule) (subject : Subject) (yes : DispatchMessage) : Prop where
  concerns : subject.Concerns rule
  read : ReadYes beats subject yes
  routed : ⟨yes, .offer (subject.workflowId sha256)⟩ ∈ log
  instructed : ∀ command, subject = .readBack command → CommandRouted beats log command

section mono
variable {sha256 : String → String} {beats beats' : List AutonomyBeat} {log log' : List Routed}
  {subject : Subject} {message : DispatchMessage} {command : ExplicitCommand} {rule : Rule}

theorem ReadYes.mono (h : ReadYes beats subject message) (hbeats : beats ⊆ beats') :
    ReadYes beats' subject message := by
  obtain ⟨beat, hbeat, hread⟩ := h
  exact ⟨beat, hbeats hbeat, hread⟩

theorem CommandRouted.mono (h : CommandRouted beats log command) (hbeats : beats ⊆ beats')
    (hlog : log ⊆ log') : CommandRouted beats' log' command := by
  obtain ⟨instruction, ⟨beat, hbeat, hread⟩, hrouted⟩ := h
  exact ⟨instruction, ⟨beat, hbeats hbeat, hread⟩, hlog hrouted⟩

theorem Consent.mono (h : Consent sha256 beats log rule subject message) (hbeats : beats ⊆ beats')
    (hlog : log ⊆ log') : Consent sha256 beats' log' rule subject message where
  concerns := h.concerns
  read := h.read.mono hbeats
  routed := hlog h.routed
  instructed command hsubject := (h.instructed command hsubject).mono hbeats hlog

/-- Consent to a rule is consent to what it becomes while its id, match and action stay. -/
theorem Consent.of_eq {rule' : Rule} (h : Consent sha256 beats log rule subject message)
    (hid : rule.id = rule'.id) (hmatch : rule.match = rule'.match)
    (haction : rule.action = rule'.action) : Consent sha256 beats log rule' subject message where
  concerns := by
    have hconcerns := h.concerns
    cases subject with
    | offer offered => exact ⟨hconcerns.1.trans hid, hconcerns.2.trans hmatch⟩
    | readBack command => exact ⟨hconcerns.1.trans hmatch, hconcerns.2.trans haction⟩
  read := h.read
  routed := h.routed
  instructed := h.instructed

end mono

/-! ## The invariant -/

/-- The request an act brings. -/
def AutonomyAct.requests : AutonomyAct → List Dispatch.WebhookRequest
  | inbox act => act.requests
  | _ => []

/-- The requests a run met. -/
def requested (beats : List AutonomyBeat) : List Dispatch.WebhookRequest :=
  beats.flatMap fun beat => beat.act.requests

/-- What a talk was started for: an offer of a rule of the table, a command that was routed. -/
def Subject.Grounds (beats : List AutonomyBeat) (log : List Routed) (rules : List Rule) :
    Subject → Prop
  | offer rule => Standing rules rule
  | readBack command => CommandRouted beats log command

/-- A talk holds what was routed to it, and answers as a yes only what it read as one. -/
structure Talk.Sound (sha256 : String → String) (beats : List AutonomyBeat) (log : List Routed)
    (rules : List Rule) (t : Talk) : Prop where
  heard : ∀ message ∈ t.dialogue.holds, ⟨message, .offer (t.subject.workflowId sha256)⟩ ∈ log
  agreed : ∀ message, t.dialogue.stage = .answering message .accept →
    ReadYes beats t.subject message
  grounds : t.subject.Grounds beats log rules

/-- The decision is one that a consented rule makes of a charge it matches. -/
def Covered (config : AutonomyConfig) (beats : List AutonomyBeat) (log : List Routed)
    (a : AppliedDecision) : Prop :=
  ∃ rule now, a.decision = buildAutoDecision rule a.snapshot now ∧
    ruleMatches config.text rule a.snapshot = true ∧
    ∃ subject yes, Consent config.sha256 beats log rule subject yes

namespace Autonomy

structure Sound (config : AutonomyConfig) (beats : List AutonomyBeat) (w : Autonomy) : Prop where
  inbox : Inbox.Sound config.webhook (requested beats) w.inbox
  nodup : w.offers.registry.ids.Nodup
  offering : ∀ rule started, w.offers.offering = some (rule, started) →
    Standing w.offers.registry.rules rule
  granted : ∀ rule ∈ w.offers.registry.rules, rule.source = .humanExplicit →
    ∃ subject yes, Consent config.sha256 beats w.inbox.log rule subject yes
  talks : ∀ t ∈ w.talks, t.Sound config.sha256 beats w.inbox.log w.offers.registry.rules
  applied : ∀ a ∈ w.applied, Covered config beats w.inbox.log a

end Autonomy

section sound
variable {config : AutonomyConfig} {beats beats' : List AutonomyBeat} {log log' : List Routed}
  {rules rules' : List Rule} {w w' : Autonomy}

theorem Talk.Sound.mono {sha256 : String → String} {t : Talk} (h : t.Sound sha256 beats log rules)
    (hbeats : beats ⊆ beats') (hlog : log ⊆ log')
    (hrules : ∀ rule, Standing rules rule → Standing rules' rule) :
    t.Sound sha256 beats' log' rules' where
  heard message hmem := hlog (h.heard message hmem)
  agreed message hstage := (h.agreed message hstage).mono hbeats
  grounds := by
    have hgrounds := h.grounds
    cases hsubject : t.subject with
    | offer rule =>
      rw [hsubject] at hgrounds
      exact hrules rule hgrounds
    | readBack command =>
      rw [hsubject] at hgrounds
      exact CommandRouted.mono hgrounds hbeats hlog

theorem Covered.mono {a : AppliedDecision} (h : Covered config beats log a)
    (hbeats : beats ⊆ beats') (hlog : log ⊆ log') : Covered config beats' log' a := by
  obtain ⟨rule, now, hdecision, hmatches, subject, yes, hconsent⟩ := h
  exact ⟨rule, now, hdecision, hmatches, subject, yes, hconsent.mono hbeats hlog⟩

namespace Autonomy

theorem sound_init (config : AutonomyConfig) : Sound config [] {} where
  inbox := Inbox.sound_init config.webhook
  nodup := List.nodup_nil
  offering rule started h := by cases h
  granted rule h := absurd h List.not_mem_nil
  talks t h := absurd h List.not_mem_nil
  applied a h := absurd h List.not_mem_nil

/-- More beats, and an inbox that goes on, leave the invariant. -/
theorem Sound.withInbox (h : Sound config beats w) (hbeats : beats ⊆ beats') {inbox : Inbox}
    (hinbox : Inbox.Sound config.webhook (requested beats') inbox)
    (hlog : w.inbox.log ⊆ inbox.log) : Sound config beats' { w with inbox } where
  inbox := hinbox
  nodup := h.nodup
  offering := h.offering
  granted rule hmem hs := by
    obtain ⟨subject, yes, hconsent⟩ := h.granted rule hmem hs
    exact ⟨subject, yes, hconsent.mono hbeats hlog⟩
  talks t ht := (h.talks t ht).mono hbeats hlog fun _ hstanding => hstanding
  applied a ha := (h.applied a ha).mono hbeats hlog

theorem requested_snoc (beats : List AutonomyBeat) (beat : AutonomyBeat) :
    requested (beats ++ [beat]) = requested beats ++ beat.act.requests := by
  unfold requested
  rw [List.flatMap_append, List.flatMap_singleton]

/-- A beat that brings no request leaves the invariant. -/
theorem Sound.pass (h : Sound config beats w) {beat : AutonomyBeat}
    (hrequests : beat.act.requests = []) : Sound config (beats ++ [beat]) w := by
  refine h.withInbox (List.subset_append_left _ _) ?_ (List.Subset.refl _)
  rw [requested_snoc, hrequests, List.append_nil]
  exact h.inbox

/-- A registry that goes on keeps the invariant if its rules stay and its grants are
consented to. -/
theorem Sound.withOffers (h : Sound config beats w) {offers : OfferWorld}
    (hoffering : ∀ rule started, offers.offering = some (rule, started) →
      rule ∈ w.offers.registry.rules ∨ ∃ started, w.offers.offering = some (rule, started))
    (hnodup : offers.registry.ids.Nodup)
    (hstanding : ∀ rule, Standing w.offers.registry.rules rule →
      Standing offers.registry.rules rule)
    (hgranted : ∀ rule ∈ offers.registry.rules, rule.source = .humanExplicit →
      ∃ subject yes, Consent config.sha256 beats w.inbox.log rule subject yes) :
    Sound config beats { w with offers } := by
  refine ⟨h.inbox, hnodup, ?_, hgranted, ?_, h.applied⟩
  · intro rule started hoff
    rcases hoffering rule started hoff with hrule | ⟨started, hoff⟩
    · exact hstanding rule (Standing.of_mem hrule)
    · exact hstanding rule (h.offering rule started hoff)
  · intro t ht
    exact (h.talks t ht).mono (List.Subset.refl _) (List.Subset.refl _) hstanding

/-- A folded signal keeps the invariant if what it grants is consented to. -/
theorem Sound.fold (h : Sound config beats w) {offers : OfferWorld} {op : RegistryOp}
    (hoffering : ∀ rule started, offers.offering = some (rule, started) →
      rule ∈ w.offers.registry.rules ∨ ∃ started, w.offers.offering = some (rule, started))
    (hfresh : w.offers.registry.Fresh op)
    (hregistry : offers.registry = w.offers.registry.apply config.text op)
    (hgrants : ∀ rule ∈ (w.offers.registry.apply config.text op).rules, op.Grants rule →
      ∃ subject yes, Consent config.sha256 beats w.inbox.log rule subject yes) :
    Sound config beats { w with offers } := by
  refine h.withOffers hoffering ?_ ?_ ?_
  · rw [hregistry]
    exact apply_ids_nodup h.nodup hfresh
  · intro rule hrule
    rw [hregistry]
    exact hrule.apply h.nodup
  · intro rule hrule hs
    rw [hregistry] at hrule
    rcases granted_or_grants h.nodup hrule hs with ⟨r₀, hr₀, hs₀, hid, hmatch, haction⟩ | hgrant
    · obtain ⟨subject, yes, hconsent⟩ := h.granted r₀ hr₀ hs₀
      exact ⟨subject, yes, hconsent.of_eq hid hmatch haction⟩
    · exact hgrants rule hrule hgrant

/-- Talks that are started with grounds and have heard nothing keep the invariant. -/
theorem Sound.withTalks (h : Sound config beats w) {more : List Talk}
    (hmore : ∀ t ∈ more, t.dialogue = {} ∧
      t.subject.Grounds beats w.inbox.log w.offers.registry.rules) :
    Sound config beats { w with talks := w.talks ++ more } := by
  refine ⟨h.inbox, h.nodup, h.offering, h.granted, ?_, h.applied⟩
  intro t ht
  rcases List.mem_append.1 ht with ht | ht
  · exact h.talks t ht
  · obtain ⟨hdialogue, hgrounds⟩ := hmore t ht
    refine ⟨fun message hmem => ?_, fun message hstage => ?_, hgrounds⟩
    · rw [hdialogue] at hmem
      exact absurd hmem List.not_mem_nil
    · rw [hdialogue] at hstage
      cases hstage

/-- A move of a talk keeps the invariant if it hears only what was routed to it, and a yes it reads
is on record. -/
theorem Sound.move (h : Sound config beats w) {n : Nat} {m : Dialogue.Move DispatchMessage}
    (hheard : ∀ t message, w.talks[n]? = some t → m = .hear message →
      ⟨message, .offer (t.subject.workflowId config.sha256)⟩ ∈ w.inbox.log)
    (hread : ∀ t message, w.talks[n]? = some t → m = .read .accept →
      t.dialogue.stage = .reading message → ReadYes beats t.subject message)
    (hmove : w.move n m = some w') : Sound config beats w' := by
  unfold Autonomy.move at hmove
  split at hmove
  · rename_i t ht
    obtain ⟨dialogue, hstep, rfl⟩ := Option.map_eq_some_iff.1 hmove
    have hturn := Dialogue.step_turn hstep
    have hsound := h.talks t (List.mem_of_getElem? ht)
    refine ⟨h.inbox, h.nodup, h.offering, h.granted, ?_, h.applied⟩
    intro t' ht'
    rcases List.mem_or_eq_of_mem_set ht' with ht' | rfl
    · exact h.talks t' ht'
    · refine ⟨fun message hmem => ?_, fun message hstage => ?_, hsound.grounds⟩
      · rcases hturn.mem_holds hmem with hmem | hhear
        · exact hsound.heard message hmem
        · exact hheard t message ht hhear
      · rcases hturn.answering hstage with hstage | ⟨hstage, haccept⟩
        · exact hsound.agreed message hstage
        · exact hread t message ht haccept hstage
  · cases hmove

/-- A yes that is being answered grants what its talk is about. -/
theorem Sound.consent (h : Sound config beats w) {t : Talk} (ht : t ∈ w.talks)
    {message : DispatchMessage} (hstage : t.dialogue.stage = .answering message .accept)
    {now : Datetime}
    {nextId : RuleId} (hfresh : w.offers.registry.Fresh (t.subject.grant now nextId)) {rule : Rule}
    (hrule : rule ∈ (w.offers.registry.apply config.text (t.subject.grant now nextId)).rules)
    (hgrant : (t.subject.grant now nextId).Grants rule) :
    Consent config.sha256 beats w.inbox.log rule t.subject message := by
  have hsound := h.talks t ht
  have hholds : message ∈ t.dialogue.holds := by
    unfold Dialogue.holds
    rw [hstage]
    exact List.mem_append_left _ List.mem_cons_self
  refine ⟨?_, hsound.agreed message hstage, hsound.heard message hholds, ?_⟩
  · have hnodup : (w.offers.registry.apply config.text (t.subject.grant now nextId)).ids.Nodup :=
      apply_ids_nodup h.nodup hfresh
    have hgrounds := hsound.grounds
    cases hsubject : t.subject with
    | offer offered =>
      rw [hsubject] at hgrant hrule hnodup hgrounds
      have hid : offered.id = rule.id := hgrant
      have hstanding : Standing (w.offers.registry.apply config.text
          (Subject.grant now nextId (.offer offered))).rules offered :=
            Standing.apply hgrounds h.nodup
      -- the row of the offered id is the granted one
      obtain ⟨r, hr, hrid, hrmatch⟩ := hstanding
      rw [Lib.eq_of_key_eq hnodup hr hrule (hrid.trans hid)] at hrmatch
      exact ⟨hid, hrmatch.symm⟩
    | readBack command =>
      rw [hsubject] at hgrant
      exact hgrant
  · intro command hsubject
    have hgrounds := hsound.grounds
    rw [hsubject] at hgrounds
    exact hgrounds

theorem Sound.answer (h : Sound config beats w) {n : Nat} {now : Datetime} {nextId : RuleId}
    {returns : Bool} (hanswer : w.answer config n now nextId returns = some w') :
    Sound config beats w' := by
  have hanswered : ∀ {u : Autonomy}, Sound config beats u → u.move n .answered = some w' →
      Sound config beats w' := fun hu hmove =>
    hu.move (fun t message _ h => by cases h) (fun t message _ h => by cases h) hmove
  unfold Autonomy.answer at hanswer
  split at hanswer
  · rename_i t ht
    split at hanswer
    · rename_i message hstage
      simp only at hanswer
      split at hanswer
      · rename_i hfresh
        have hgranted : Sound config beats { w with offers := { w.offers with
            registry := w.offers.registry.apply config.text (t.subject.grant now nextId) } } := by
          refine h.fold (fun rule started hoff => .inr ⟨started, hoff⟩) hfresh rfl ?_
          intro rule hrule hgrant
          exact ⟨_, _, h.consent (List.mem_of_getElem? ht) hstage hfresh hrule hgrant⟩
        split at hanswer
        · exact hanswered hgranted hanswer
        · cases hanswer
          exact hgranted
      · cases hanswer
    · split at hanswer
      · exact hanswered h hanswer
      · cases hanswer
        exact h
    · cases hanswer
  · cases hanswer

/-- One step keeps the invariant. -/
theorem Sound.step (h : Sound config beats w) {act : AutonomyAct}
    (hstep : w.step config act = some w') : Sound config (beats ++ [⟨w, act⟩]) w' := by
  cases act with
  | inbox act =>
    obtain ⟨inbox, hinbox, rfl⟩ := Option.map_eq_some_iff.1 hstep
    refine h.withInbox (List.subset_append_left _ _) ?_ (Inbox.log_subset hinbox)
    rw [requested_snoc]
    exact h.inbox.step hinbox
  | registry act =>
    simp only [Autonomy.step] at hstep
    split at hstep
    · cases hstep
    · rename_i hgrants
      obtain ⟨offers, hoffers, rfl⟩ := Option.map_eq_some_iff.1 hstep
      obtain ⟨hoffering, hregistry⟩ := OfferWorld.step_nongranting hoffers (by simpa using hgrants)
      have hpass : Sound config (beats ++ [⟨w, .registry act⟩]) w := h.pass rfl
      have hnext : Sound config (beats ++ [⟨w, .registry act⟩]) { w with offers } := by
        rcases hregistry with hregistry | ⟨op, hop, hfresh, hregistry⟩
        · refine hpass.withOffers hoffering ?_ ?_ ?_
          · rw [hregistry]
            exact hpass.nodup
          · intro rule hrule
            rw [hregistry]
            exact hrule
          · rw [hregistry]
            exact hpass.granted
        · refine hpass.fold hoffering hfresh hregistry ?_
          intro rule _ hgrant
          exact (RegistryOp.not_grants hop hgrant).elim
      refine hnext.withTalks ?_
      intro t ht
      unfold startedOffer at ht
      split at ht
      · rename_i rule started hoff
        split at ht
        · rw [List.mem_singleton.1 ht]
          exact ⟨rfl, hnext.offering rule started hoff⟩
        · cases ht
      · cases ht
  | command message reading candidates =>
    have hpass : Sound config (beats ++ [⟨w, .command message reading candidates⟩]) w := h.pass rfl
    simp only [Autonomy.step] at hstep
    split at hstep
    · rename_i hrouted
      split at hstep
      · rename_i command hcommand
        split at hstep
        · cases hstep
          exact hpass
        · cases hstep
          refine hpass.withTalks ?_
          intro t ht
          rw [List.mem_singleton.1 ht]
          refine ⟨rfl, message,
            ⟨_, List.mem_append_right _ List.mem_cons_self, reading, candidates, rfl, hcommand⟩,
            hrouted⟩
      · cases hstep
        exact hpass
    · cases hstep
  | deliver n message =>
    simp only [Autonomy.step] at hstep
    split at hstep
    · rename_i t ht
      split at hstep
      · rename_i hrouted
        refine (h.pass rfl).move (fun t' message' ht' hhear => ?_) (fun _ _ _ h => by cases h) hstep
        cases hhear
        rw [ht] at ht'
        cases ht'
        exact hrouted
      · cases hstep
    · cases hstep
  | opened n now =>
    exact (h.pass rfl).move (fun _ _ _ h => by cases h) (fun _ _ _ h => by cases h) hstep
  | take n =>
    exact (h.pass rfl).move (fun _ _ _ h => by cases h) (fun _ _ _ h => by cases h) hstep
  | read n reading =>
    refine (h.pass rfl).move (fun _ _ _ h => by cases h) (fun t message ht haccept hstage => ?_)
      hstep
    cases haccept
    exact ⟨_, List.mem_append_right _ List.mem_cons_self, n, t, rfl, ht, rfl, hstage⟩
  | answer n now nextId returns => exact (h.pass rfl).answer hstep
  | lapse n now =>
    exact (h.pass rfl).move (fun _ _ _ h => by cases h) (fun _ _ _ h => by cases h) hstep
  | fail n =>
    exact (h.pass rfl).move (fun _ _ _ h => by cases h) (fun _ _ _ h => by cases h) hstep
  | enrich snapshot candidates counters now =>
    have hpass : Sound config (beats ++ [⟨w, .enrich snapshot candidates counters now⟩]) w :=
      h.pass rfl
    simp only [Autonomy.step] at hstep
    split at hstep
    · rename_i decision hdecision
      cases hstep
      refine ⟨hpass.inbox, hpass.nodup, hpass.offering, hpass.granted, hpass.talks, ?_⟩
      intro a ha
      rcases List.mem_append.1 ha with ha | ha
      · exact hpass.applied a ha
      · rw [List.mem_singleton.1 ha]
        have hids :
            ((w.offers.registry.rulesForPayee config.text snapshot.payee).map Rule.id).Nodup :=
          Lib.nodup_of_sublist List.filter_sublist h.nodup
        obtain ⟨-, rule, hrule, hmade⟩ := decideEnrichment_auto hids hdecision
        have hmem : rule ∈ blessedMatches config.text
            (w.offers.registry.rulesForPayee config.text snapshot.payee) snapshot := by
          rw [hrule]
          exact List.mem_singleton_self _
        obtain ⟨hmatching, hblessed⟩ := List.mem_filter.1 hmem
        obtain ⟨hloaded, hmatches⟩ := List.mem_filter.1 hmatching
        have hsource : rule.source = .humanExplicit := (of_decide_eq_true hblessed).2
        exact ⟨rule, now, hmade, hmatches,
          hpass.granted rule (List.mem_of_mem_filter hloaded) hsource⟩
    · cases hstep
      exact hpass

end Autonomy

theorem autonomy_sound (h : AutonomyRun config {} beats w) : Autonomy.Sound config beats w := by
  refine h.history (P := fun beats w => Autonomy.Sound config beats w) (Autonomy.sound_init config)
    ?_
  intro beats t beat u _ ih hstep
  cases hstep with
  | step hs => exact ih.step hs

end sound

/-! ## Who said yes -/

/-- A message that an authentic request of the run brought, from an address that may act. -/
structure FromOwner (config : AutonomyConfig) (beats : List AutonomyBeat)
    (message : DispatchMessage) : Prop where
  authentic : ∃ request ∈ requested beats,
    Dispatch.Authentic config.webhook.text config.webhook.reader
    config.webhook.verify config.webhook.secret request message
  admitted : Dispatch.Admitted config.webhook.text message config.webhook.allowlist

/-- The owner said yes to the rule: to an offer of it, or to the read-back of a command that an
earlier message gave. -/
inductive Consented (config : AutonomyConfig) (beats : List AutonomyBeat) (rule : Rule) : Prop
  | offered (offered : Rule) (yes : DispatchMessage) (hid : offered.id = rule.id)
      (hmatch : offered.match = rule.match) (hread : ReadYes beats (.offer offered) yes)
      (hyes : FromOwner config beats yes)
  | commanded (command : ExplicitCommand) (instruction yes : DispatchMessage)
      (hmatch : command.match = rule.match) (haction : command.action = rule.action)
      (hcommand : ReadCommand beats instruction command)
      (hinstruction : FromOwner config beats instruction)
      (hread : ReadYes beats (.readBack command) yes) (hyes : FromOwner config beats yes)
      (hne : instruction.messageId ≠ yes.messageId)

section runs
variable {config : AutonomyConfig} {beats : List AutonomyBeat} {w : Autonomy}

theorem Autonomy.Sound.fromOwner (h : Autonomy.Sound config beats w) {e : Routed}
    (he : e ∈ w.inbox.log) : FromOwner config beats e.message := by
  obtain ⟨d, hd, hmessage, hdestination⟩ := h.inbox.log e he
  constructor
  · rw [← hmessage]
    exact h.inbox.authentic d hd
  · rw [← hmessage, ← h.inbox.allowlist d hd]
    exact (h.inbox.wf d hd).admitted (.inl (by rw [hdestination]; rfl))

theorem Autonomy.Sound.consented (h : Autonomy.Sound config beats w) {rule : Rule}
    {subject : Subject}
    {yes : DispatchMessage} (hconsent : Consent config.sha256 beats w.inbox.log rule subject yes) :
    Consented config beats rule := by
  obtain ⟨hconcerns, hread, hrouted, hinstructed⟩ := hconsent
  cases subject with
  | offer offered => exact .offered offered yes hconcerns.1 hconcerns.2 hread (h.fromOwner hrouted)
  | readBack command =>
    obtain ⟨instruction, hcommand, hlog⟩ := hinstructed command rfl
    refine .commanded command instruction yes hconcerns.1 hconcerns.2 hcommand
      (h.fromOwner hlog) hread
      (h.fromOwner hrouted) ?_
    -- one message goes to one destination
    intro hsame
    have heq := h.inbox.eq_of_messageId hrouted hlog hsame
    rw [Routed.mk.injEq] at heq
    cases heq.2

/-- **Autonomy rests on consent.** Every granted rule, and the rule behind every decision applied
without asking, was said yes to by an admitted message, in a talk about that rule; a command was
given by one message and confirmed by another. -/
theorem autonomy_consented (h : AutonomyRun config {} beats w) :
    (∀ rule ∈ w.offers.registry.rules, rule.source = .humanExplicit → Consented config beats rule) ∧
    ∀ a ∈ w.applied, ∃ rule now, a.decision = buildAutoDecision rule a.snapshot now ∧
      ruleMatches config.text rule a.snapshot = true ∧ Consented config beats rule := by
  have hsound := autonomy_sound h
  constructor
  · intro rule hrule hs
    obtain ⟨subject, yes, hconsent⟩ := hsound.granted rule hrule hs
    exact hsound.consented hconsent
  · intro a ha
    obtain ⟨rule, now, hdecision, hmatches, subject, yes, hconsent⟩ := hsound.applied a ha
    exact ⟨rule, now, hdecision, hmatches, hsound.consented hconsent⟩

end runs

/-! ## A yes -/

/-- The owner's answer to a read-back. -/
def marketYes : Dispatch.WireMessage where
  messageId := "m2"
  fromAddress := "owner@home"
  text := some "Yes"
  threadId := some "th1"

/-- A household whose requests carry the instruction, or the answer. -/
def marketHome : AutonomyConfig where
  webhook :=
    { Dispatch.homeWebhook Dispatch.costcoWire with
      verify := fun _ request =>
        let message := if request.body = "yes" then marketYes else Dispatch.costcoWire
        some { eventType := Dispatch.receivedEvent, message := some message } }
  sha256 key := key
  propose := agreeing

def marketReading : CommandReading where
  kind := .bless
  payeePattern := some "Market"
  categoryId := some "groceries"

/-- The instruction is read back, the answer routed to the read-back, and the grant applied once the
answer is read. -/
def marketTalk : List AutonomyAct :=
  let instruction := Dispatch.toInbound MailText.ascii HtmlReader.ascii Dispatch.costcoWire true
  let yes := Dispatch.toInbound MailText.ascii HtmlReader.ascii marketYes true
  [.inbox (.post ⟨"s", []⟩), .inbox (.found 0 none), .inbox (.found 0 none), .inbox (.found 0 none),
    .inbox (.labelled 0 .command), .inbox (.attempt 0),
    .command instruction marketReading marketCandidates, .opened 0 0,
    .inbox (.post ⟨"yes", []⟩), .inbox (.found 1 none),
    .inbox (.found 1 (some "command-confirm-Market|groceries")), .inbox (.returned 1),
    .deliver 0 yes, .take 0, .read 0 .accept, .answer 0 0 "r1" true,
    .enrich marketSnapshot marketCandidates {} 0]

theorem market_consented :
    ∃ beats w, AutonomyRun marketHome {} beats w ∧ w.applied.length = 1 ∧
      (∀ rule ∈ w.offers.registry.rules, rule.source = .humanExplicit →
        Consented marketHome beats rule) ∧
      ∀ a ∈ w.applied, ∃ rule now, a.decision = buildAutoDecision rule a.snapshot now ∧
        ruleMatches PyText.ascii rule a.snapshot = true ∧ Consented marketHome beats rule := by
  have hexec : ∃ beats w, Lib.exec (Autonomy.step marketHome) {} marketTalk = some (beats, w) ∧
      w.applied.length = 1 := ⟨_, _, rfl, rfl⟩
  obtain ⟨beats, w, hexec, happlied⟩ := hexec
  have hrun := Lib.exec_run hexec
  exact ⟨beats, w, hrun, happlied, autonomy_consented hrun⟩

end YnabAgent
