import YnabAgent.Lib.Journal
import YnabAgent.Learn.Grants

/-!
# What the audit tail tells

The registry keeps its recent changes so that "why did it learn that?" can be answered. An entry
names a rule, what was done to it and the trust that left it with, and it is read back as a step of
the rule's footing (`Footing.after`). What it tells by itself depends on what was done: a creation
the whole footing, a confirmation no grant unless the rule is short of trusted, a revocation no date
(`Describes`). `audit_explains`: over every run the last entry about a rule tells so of the rule as
it stands, and the tail replays to the footing of every rule as long as it is below its cap, and of
each rule it saw created ever after.
-/

namespace YnabAgent

/-- What a rule's trust rests on. -/
structure Footing where
  trust : TrustState
  source : RuleSource
  hits : Nat
  lastConfirmedAt : Option Datetime
  lastCorrectedAt : Option Datetime
  deriving DecidableEq

def Rule.footing (rule : Rule) : Footing :=
  ⟨rule.trust, rule.source, rule.hits, rule.lastConfirmedAt, rule.lastCorrectedAt⟩

/-- A rule no one has confirmed. -/
def Footing.blank : Footing := ⟨.suggested, .learned, 0, none, none⟩

/-- What an entry makes of the footing of its rule. -/
def Footing.after (footing : Option Footing) (entry : RegistryAuditEntry) : Option Footing :=
  match entry.change.kind with
  | .created =>
    -- a correction creates a rule without a hit, a confirmation one with the first
    if entry.change.trust = .suggested then
      some { Footing.blank with lastCorrectedAt := some entry.at }
    else some ⟨entry.change.trust, .learned, 1, some entry.at, none⟩
  | .strengthened => footing.map fun st =>
    { st with
      trust := if st.source = .humanExplicit then .trusted else trustForHits (st.hits + 1) kDefault
      hits := st.hits + 1
      lastConfirmedAt := some entry.at }
  | .rewritten => footing.map fun st => ⟨.suggested, .learned, 0, st.lastConfirmedAt, some entry.at⟩
  -- a blessing creates a rule where there is none
  | .blessed => some { footing.getD Footing.blank with
      trust := .trusted, source := .humanExplicit, lastConfirmedAt := some entry.at }
  | .revoked => footing.map fun st => { st with trust := .confirmed, source := .learned }

/-- What an entry tells of the footing it leaves. Every entry tells the trust; the rest depends on
what was done to the rule. -/
structure RegistryAuditEntry.Describes (entry : RegistryAuditEntry) (footing : Footing) : Prop where
  trust : footing.trust = entry.change.trust
  /-- A creation tells everything. -/
  created : entry.change.kind = .created → some footing = Footing.after none entry
  /-- A confirmation tells of no grant where it leaves the rule short of trusted, else it may stand
  on one or on the hits. -/
  strengthened : entry.change.kind = .strengthened →
    footing.lastConfirmedAt = some entry.at ∧ 0 < footing.hits ∧
      (entry.change.trust ≠ .trusted → footing.source = .learned)
  rewritten : entry.change.kind = .rewritten →
    footing.lastCorrectedAt = some entry.at ∧ footing.hits = 0 ∧ footing.source = .learned
  blessed : entry.change.kind = .blessed →
    footing.lastConfirmedAt = some entry.at ∧ footing.source = .humanExplicit
  /-- A revocation tells no date of the rule. -/
  revoked : entry.change.kind = .revoked → footing.source = .learned

def RegistryAuditEntry.ruleId (entry : RegistryAuditEntry) : RuleId := entry.change.ruleId

namespace RegistryState

/-- The footings of the table's rules. -/
def footing (state : RegistryState) (id : RuleId) : Option Footing :=
  (Lib.lookup Rule.id id state.rules).map Rule.footing

end RegistryState

/-- The footings after some entries are read. -/
abbrev readBack (held : RuleId → Option Footing) (entries : List RegistryAuditEntry) :
    RuleId → Option Footing :=
  Lib.Journal.replay RegistryAuditEntry.ruleId Footing.after held entries

/-! ## One signal -/

theorem appendedAudit_eq (s : RegistryState) (entries : List RegistryAuditEntry) :
    s.appendedAudit entries = Lib.Journal.capped auditCap (s.audit ++ entries) := rfl

/-- The entries a signal appends tell of all it does to the footings. -/
structure Logs (before after : RegistryState) (entries : List RegistryAuditEntry) : Prop where
  audit : after.audit = before.appendedAudit entries
  nodup : (entries.map RegistryAuditEntry.ruleId).Nodup
  describes : ∀ entry ∈ entries, ∃ st, Footing.after (before.footing entry.ruleId) entry = some st ∧
    entry.Describes st
  footing : after.footing = readBack before.footing entries

section signals
variable {text : PyText} {s : RegistryState}

theorem footing_of_mem (hnd : s.ids.Nodup) {r : Rule} (h : r ∈ s.rules) :
    s.footing r.id = some r.footing := by
  unfold RegistryState.footing
  rw [Lib.lookup_of_mem hnd h rfl]
  rfl

theorem footing_of_fresh {id : RuleId} (h : id ∉ s.ids) : s.footing id = none := by
  unfold RegistryState.footing
  cases hl : Lib.lookup Rule.id id s.rules with
  | none => rfl
  | some r =>
    obtain ⟨hr, rfl⟩ := Lib.mem_of_lookup hl
    exact absurd (List.mem_map_of_mem hr) h

/-- A single entry that tells of the one rule a signal changes. -/
theorem Logs.single {t : RegistryState} {entry : RegistryAuditEntry} {st : Footing}
    (haudit : t.audit = s.appendedAudit [entry])
    (hafter : Footing.after (s.footing entry.ruleId) entry = some st)
    (hdescribes : entry.Describes st) (hself : t.footing entry.ruleId = some st)
    (hother : ∀ id, id ≠ entry.ruleId → t.footing id = s.footing id) : Logs s t [entry] := by
  refine ⟨haudit, List.nodup_singleton _, ?_, ?_⟩
  · intro x hx
    rw [List.mem_singleton.1 hx]
    exact ⟨st, hafter, hdescribes⟩
  · funext id
    by_cases hid : id = entry.ruleId
    · rw [hid, hself, readBack, Lib.Journal.replay_single, hafter]
    · rw [hother id hid, readBack, Lib.Journal.replay_single_of_ne (Ne.symm hid)]

/-- Nothing is logged of a signal that leaves the footings alone. -/
theorem Logs.unchanged {t : RegistryState} (haudit : t.audit = s.audit)
    (hcap : s.audit.length ≤ auditCap) (hfooting : t.footing = s.footing) : Logs s t [] := by
  refine ⟨?_, List.nodup_nil, by simp, hfooting⟩
  rw [haudit, appendedAudit_eq, List.append_nil, Lib.Journal.capped_of_le hcap]

/-- A rule of the table is replaced. -/
theorem Logs.replaced (hnd : s.ids.Nodup) {target updated : Rule} {entry : RegistryAuditEntry}
    (htarget : target ∈ s.rules) (hid : updated.id = target.id) (hentry : entry.ruleId = target.id)
    (hafter : Footing.after (some target.footing) entry = some updated.footing)
    (hdescribes : entry.Describes updated.footing) :
    Logs s { rules := replaceRule s.rules updated, audit := s.appendedAudit [entry] } [entry] := by
  have hkeeps : ∀ r : Rule, r.id = updated.id → ((fun _ => updated) r : Rule).id = updated.id :=
    fun _ _ => rfl
  have hlookup : Lib.lookup Rule.id target.id s.rules = some target :=
    Lib.lookup_of_mem hnd htarget rfl
  refine .single (by dsimp only) ?_ hdescribes ?_ fun id hne => ?_
  · rw [hentry, footing_of_mem hnd htarget, hafter]
  · unfold RegistryState.footing replaceRule
    rw [hentry, ← hid, Lib.lookup_updateAt_self hkeeps, hid, hlookup]
    rfl
  · unfold RegistryState.footing replaceRule
    rw [Lib.lookup_updateAt_of_ne (by rwa [hid, ← hentry]) hkeeps]

/-- A rule is added to the table. -/
theorem Logs.added {seed : Rule} {entry : RegistryAuditEntry} (hfresh : seed.id ∉ s.ids)
    (hentry : entry.ruleId = seed.id) (hafter : Footing.after none entry = some seed.footing)
    (hdescribes : entry.Describes seed.footing) :
    Logs s { rules := s.rules ++ [seed], audit := s.appendedAudit [entry] } [entry] := by
  refine .single (by dsimp only) ?_ hdescribes ?_ fun id hne => ?_
  · rw [hentry, footing_of_fresh hfresh, hafter]
  · have hnone : Lib.lookup Rule.id seed.id s.rules = none := by
      cases hl : Lib.lookup Rule.id seed.id s.rules with
      | none => rfl
      | some r =>
        obtain ⟨hr, hid⟩ := Lib.mem_of_lookup hl
        exact absurd (hid ▸ List.mem_map_of_mem hr) hfresh
    unfold Lib.lookup at hnone
    simp [RegistryState.footing, hentry, Lib.lookup, List.find?_append, hnone]
  · have hne' : seed.id ≠ id := fun heq => hne (heq.symm.trans hentry.symm)
    simp [RegistryState.footing, Lib.lookup, List.find?_append, hne']

/-- A confirmed rule short of trusted has no grant. -/
theorem source_of_strengthen_ne (now : Datetime) {target : Rule}
    (h : (strengthen now kDefault target).trust ≠ .trusted) :
    (strengthen now kDefault target).source = .learned := by
  change target.source = .learned
  cases hsource : target.source with
  | learned => rfl
  | humanExplicit =>
    unfold strengthen at h
    rw [hsource] at h
    exact absurd rfl h

/-- A learning event folded into the table. -/
theorem applyLearning_logs (hnd : s.ids.Nodup) {nextId : RuleId} (hfresh : nextId ∉ s.ids)
    (now : Datetime) (payee : String) (event : LearningEvent) :
    Logs s
      { rules := (applyLearning now nextId s.rules event kDefault).rules
        audit :=
          s.appendedAudit [⟨now, payee, (applyLearning now nextId s.rules event kDefault).change⟩] }
      [⟨now, payee, (applyLearning now nextId s.rules event kDefault).change⟩] := by
  cases event with
  | confirm event =>
    simp only [applyLearning, confirm]
    split
    · exact .added hfresh rfl rfl ⟨rfl, fun _ => rfl, by simp, by simp, by simp, by simp⟩
    · rename_i target htarget
      have hmem := (mem_of_confirmTarget htarget).1
      refine .replaced hnd hmem rfl rfl rfl
        ⟨rfl, by simp, fun _ => ⟨rfl, Nat.succ_pos _, ?_⟩, by simp, by simp, by simp⟩
      exact source_of_strengthen_ne now
  | correct event =>
    simp only [applyLearning, correct]
    split
    · exact .added hfresh rfl rfl ⟨rfl, fun _ => rfl, by simp, by simp, by simp, by simp⟩
    · rename_i target htarget
      have hmem := (mem_of_findRule htarget).1
      exact .replaced hnd hmem rfl rfl rfl
        ⟨rfl, by simp, by simp, fun _ => ⟨rfl, rfl, rfl⟩, by simp, by simp⟩
  | explicit event =>
    simp only [applyLearning, bless]
    split
    · exact .added hfresh rfl rfl ⟨rfl, by simp, by simp, by simp, fun _ => ⟨rfl, rfl⟩, by simp⟩
    · rename_i target htarget
      have hmem := (mem_of_findEquivalent htarget).1
      exact .replaced hnd hmem rfl rfl rfl
        ⟨rfl, by simp, by simp, by simp, fun _ => ⟨rfl, rfl⟩, by simp⟩

theorem recordLearning_logs (hnd : s.ids.Nodup) (hcap : s.audit.length ≤ auditCap) {nextId : RuleId}
    (hfresh : nextId ∉ s.ids) (feed : FeedRuleLearning) (now : Datetime) :
    ∃ entries, Logs s (s.recordLearning feed now nextId) entries := by
  unfold RegistryState.recordLearning planRuleUpdate
  cases learningEvent feed with
  | none => exact ⟨[], .unchanged rfl hcap rfl⟩
  | some event => exact ⟨_, applyLearning_logs hnd hfresh now feed.payee event⟩

theorem blessById_logs (hnd : s.ids.Nodup) (hcap : s.audit.length ≤ auditCap) (ruleId : RuleId)
    (now : Datetime) : ∃ entries, Logs s (s.blessById ruleId now) entries := by
  unfold RegistryState.blessById
  split
  · rename_i target htarget
    obtain ⟨hmem, hid⟩ := Lib.mem_of_lookup htarget
    split
    · rename_i heligible
      have hgrant : ({ target with source := .humanExplicit, lastConfirmedAt := some now } : Rule) =
          grant now target := by
        unfold grant
        rw [← heligible.1]
      have hlogs : Logs s
          { rules := replaceRule s.rules (grant now target)
            audit := s.appendedAudit
              [⟨now, target.match.payeePattern, ⟨.blessed, ruleId, (grant now target).trust⟩⟩] }
          [⟨now, target.match.payeePattern, ⟨.blessed, ruleId, (grant now target).trust⟩⟩] :=
        .replaced hnd hmem rfl hid.symm rfl
          ⟨rfl, by simp, by simp, by simp, fun _ => ⟨rfl, rfl⟩, by simp⟩
      unfold replaceRule at hlogs
      rw [show (grant now target).id = ruleId from hid] at hlogs
      rw [hgrant]
      exact ⟨_, hlogs⟩
    · exact ⟨[], .unchanged rfl hcap rfl⟩
  · exact ⟨[], .unchanged rfl hcap rfl⟩

/-- The rules that are revoked are rules of the table. -/
theorem mem_of_revokeTargets {payee : String} {id : RuleId} (h : id ∈ s.revokeTargets text payee) :
    ∃ r ∈ s.rules, r.id = id := by
  obtain ⟨r, hr, hid⟩ := List.mem_map.1 (List.mem_dedup.1 h)
  exact ⟨r, List.mem_of_mem_filter (List.mem_of_mem_filter hr), hid⟩

theorem revokePayee_logs (hnd : s.ids.Nodup) (hcap : s.audit.length ≤ auditCap) (payee : String)
    (now : Datetime) : ∃ entries, Logs s (s.revokePayee text payee now) entries := by
  unfold RegistryState.revokePayee
  simp only
  split
  · exact ⟨[], .unchanged rfl hcap rfl⟩
  set targets := s.revokeTargets text payee with htargets
  set entries : List RegistryAuditEntry :=
    (targets.insertionSort (· ≤ ·)).map fun id =>
      ⟨now, payee, ⟨.revoked, id, .confirmed⟩⟩ with hentries
  have hids : entries.map RegistryAuditEntry.ruleId = targets.insertionSort (· ≤ ·) := by
    rw [hentries, List.map_map]
    exact List.map_id _
  have hsort : (targets.insertionSort (· ≤ ·)).Perm targets := List.perm_insertionSort _ _
  have hnodup : (entries.map RegistryAuditEntry.ruleId).Nodup := by
    rw [hids, hsort.nodup_iff]
    exact List.nodup_dedup _
  have hlookup : ∀ id, Lib.lookup Rule.id id
      (s.rules.map fun rule => if rule.id ∈ targets then RegistryState.revokeRule rule else rule) =
        (Lib.lookup Rule.id id s.rules).map
          fun rule => if rule.id ∈ targets then RegistryState.revokeRule rule else rule := by
    intro id
    unfold Lib.lookup
    rw [List.find?_map]
    congr 2
    funext rule
    simp only [Function.comp_apply]
    split <;> rfl
  refine ⟨entries, by dsimp only, hnodup, ?_, ?_⟩
  · intro entry hentry
    obtain ⟨id, hid, rfl⟩ := List.mem_map.1 hentry
    obtain ⟨r, hr, rfl⟩ := mem_of_revokeTargets (hsort.mem_iff.1 hid)
    have hfooting : s.footing r.id = some r.footing := footing_of_mem hnd hr
    refine ⟨(RegistryState.revokeRule r).footing, ?_, rfl, by simp, by simp, by simp, by simp,
      fun _ => rfl⟩
    simp only [RegistryAuditEntry.ruleId, hfooting]
    rfl
  · funext id
    unfold RegistryState.footing readBack
    rw [hlookup id]
    by_cases hid : id ∈ targets
    · obtain ⟨r, hr, rfl⟩ := mem_of_revokeTargets hid
      have hentry : ⟨now, payee, ⟨.revoked, r.id, .confirmed⟩⟩ ∈ entries :=
        List.mem_map.2 ⟨r.id, hsort.mem_iff.2 hid, rfl⟩
      have hreplay : readBack s.footing entries r.id =
          Footing.after (s.footing r.id) ⟨now, payee, ⟨.revoked, r.id, .confirmed⟩⟩ :=
        Lib.Journal.replay_of_nodup hnodup hentry
      have hrow : Lib.lookup Rule.id r.id s.rules = some r := Lib.lookup_of_mem hnd hr rfl
      rw [hrow]
      refine Eq.trans ?_ hreplay.symm
      simp only [Option.map_some, if_pos hid, footing_of_mem hnd hr]
      rfl
    · have hother : ∀ entry ∈ entries, entry.ruleId ≠ id := by
        intro entry hentry heq
        have hmem := List.mem_map_of_mem (f := RegistryAuditEntry.ruleId) hentry
        rw [hids, hsort.mem_iff, heq] at hmem
        exact hid hmem
      refine Eq.trans ?_ (Lib.Journal.replay_of_forall_ne hother).symm
      cases hrow : Lib.lookup Rule.id id s.rules with
      | none => simp
      | some r =>
        obtain ⟨-, rfl⟩ := Lib.mem_of_lookup hrow
        simp [hid]

/-- Offering changes no standing. -/
theorem markOffered_logs (hcap : s.audit.length ≤ auditCap) (ruleId : RuleId) (now : Datetime) :
    ∃ entries, Logs s (s.markOffered ruleId now) entries := by
  refine ⟨[], .unchanged rfl hcap ?_⟩
  funext id
  have hkeeps : ∀ r : Rule, (RegistryState.stampOffered now r).footing = r.footing ∧
      (RegistryState.stampOffered now r).id = r.id := by
    intro r
    unfold RegistryState.stampOffered
    split <;> exact ⟨rfl, rfl⟩
  have hid : ∀ r : Rule, r.id = ruleId → (RegistryState.stampOffered now r).id = ruleId :=
    fun r hr => (hkeeps r).2.trans hr
  unfold RegistryState.footing RegistryState.markOffered
  by_cases heq : id = ruleId
  · subst heq
    rw [Lib.lookup_updateAt_self hid, Option.map_map]
    exact congrArg (fun f => Option.map f _) (funext fun r => (hkeeps r).1)
  · rw [Lib.lookup_updateAt_of_ne heq hid]

/-- **What a signal logs.** -/
theorem apply_logs (hnd : s.ids.Nodup) (hcap : s.audit.length ≤ auditCap) {op : RegistryOp}
    (hfresh : s.Fresh op) : ∃ entries, Logs s (s.apply text op) entries := by
  cases op with
  | record feed now nextId => exact recordLearning_logs hnd hcap (hfresh nextId rfl) feed now
  | bless command now nextId =>
    exact ⟨_, applyLearning_logs hnd (hfresh nextId rfl) now _ (.explicit command)⟩
  | blessExisting ruleId now => exact blessById_logs hnd hcap ruleId now
  | revoke payee now => exact revokePayee_logs hnd hcap payee now
  | markOffered ruleId now => exact markOffered_logs hcap ruleId now

end signals

/-! ## Over runs -/

section runs
variable {text : PyText} {s : RegistryState} {beats : List RegistryBeat}

/-- The audit tells of the table over every run. -/
theorem audit_tells (h : RegistryRun text {} beats s) :
    Lib.Journal.Tells RegistryAuditEntry.ruleId Footing.after RegistryAuditEntry.Describes auditCap
      s.footing s.audit := by
  suffices H : Lib.Journal.Tells RegistryAuditEntry.ruleId Footing.after
      RegistryAuditEntry.Describes auditCap s.footing s.audit ∧ s.ids.Nodup from H.1
  refine Lib.Run.invariant (I := fun u => Lib.Journal.Tells RegistryAuditEntry.ruleId Footing.after
    RegistryAuditEntry.Describes auditCap u.footing u.audit ∧ u.ids.Nodup) ?_ h
    ⟨.empty, List.nodup_nil⟩
  rintro u beat v ⟨hu, hnd⟩ hstep
  cases hstep with
  | fold hfresh =>
    have hlogged : ∃ entries, Logs u (u.apply text _) entries := apply_logs hnd hu.length_le hfresh
    obtain ⟨entries, hlogs⟩ := hlogged
    refine ⟨?_, apply_ids_nodup hnd hfresh⟩
    rw [hlogs.footing, hlogs.audit]
    exact hu.write hlogs.nodup hlogs.describes

/-- **The audit explains the table.** Over every run from an empty registry: the last entry about a
rule tells of the rule of the table what its kind tells; as long as the tail is below its cap, it
replays to the standing of every rule, and to none for an id without one; and from the entry that
tells of a rule's creation on, the tail replays to the standing of that rule. -/
theorem audit_explains (h : RegistryRun text {} beats s) :
    s.audit.length ≤ auditCap ∧
    (∀ older entry newer, s.audit = older ++ entry :: newer →
      (∀ later ∈ newer, later.ruleId ≠ entry.ruleId) →
      ∃ r ∈ s.rules, r.id = entry.ruleId ∧ entry.Describes r.footing) ∧
    (s.audit.length < auditCap → s.footing = readBack (fun _ => none) s.audit) ∧
    (∀ older entry newer, s.audit = older ++ entry :: newer → entry.change.kind = .created →
      s.footing entry.ruleId = readBack (fun _ => none) (entry :: newer) entry.ruleId) := by
  have htells := audit_tells h
  refine ⟨htells.length_le, ?_, htells.replays, ?_⟩
  · intro older entry newer haudit hlast
    obtain ⟨st, hst, hdescribes⟩ := htells.last haudit hlast
    obtain ⟨r, hr, rfl⟩ := Option.map_eq_some_iff.1 hst
    obtain ⟨hmem, hid⟩ := Lib.mem_of_lookup hr
    exact ⟨r, hmem, hid, hdescribes⟩
  · intro older entry newer haudit hcreated
    refine htells.replays_from haudit fun st => ?_
    unfold Footing.after
    rw [hcreated]

/-- A café confirmed, granted and revoked. -/
def cafeOps : List RegistryOp :=
  [.record cafeConfirm 0 "r1", .bless ⟨{ payeePattern := "Corner Cafe" },
    { allocation := .category "dining" none }⟩ 1 "r2", .revoke "corner cafe" 2]

/-- Its three entries read back to a confirmed rule with one hit. -/
theorem cafe_explained :
    ∃ beats s, RegistryRun PyText.ascii {} beats s ∧
      s.footing "r1" = some ⟨.confirmed, .learned, 1, some 1, none⟩ ∧
      s.audit.length ≤ auditCap ∧
      (∀ older entry newer, s.audit = older ++ entry :: newer →
        (∀ later ∈ newer, later.ruleId ≠ entry.ruleId) →
          ∃ r ∈ s.rules, r.id = entry.ruleId ∧ entry.Describes r.footing) ∧
      (s.audit.length < auditCap → s.footing = readBack (fun _ => none) s.audit) ∧
      (∀ older entry newer, s.audit = older ++ entry :: newer → entry.change.kind = .created →
        s.footing entry.ruleId = readBack (fun _ => none) (entry :: newer) entry.ruleId) := by
  have hrun := foldOps_run PyText.ascii {} cafeOps (by decide)
  exact ⟨_, _, hrun, by decide, audit_explains hrun⟩

end runs

end YnabAgent
