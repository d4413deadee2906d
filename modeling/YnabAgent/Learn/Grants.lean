import YnabAgent.Learn.Folds

/-!
# Standing grants

Only the explicit blessings create an auto-acting rule or change what one does: over any signals
that are not blessings, a blessed rule was granted from the start with the same match and action
(`blessed_of_run`). That the registry reaches no grant without trust is `grantsTrusted_of_run`.
-/

namespace YnabAgent

/-- Every granted rule of the table is trusted. -/
def GrantsTrusted (s : RegistryState) : Prop :=
  ∀ r ∈ s.rules, r.source = .humanExplicit → r.trust = .trusted

/-- The rule is granted in the table under the same id, match and action. -/
def GrantedIn (s : RegistryState) (r : Rule) : Prop :=
  ∃ r₀ ∈ s.rules, r₀.id = r.id ∧ r₀.match = r.match ∧ r₀.action = r.action ∧
    r₀.source = .humanExplicit

section rows
variable {op : RegistryOp} {r r' : Rule}

/-- A signal that is no blessing leaves a grant standing only on a rule it did not change. -/
theorem RowStep.granted_before (h : RowStep op r r') (hgrants : op.grants = false)
    (hs : r'.source = .humanExplicit) : r.source = .humanExplicit ∧ r'.action = r.action := by
  cases h with
  | keep h => exact ⟨hs, rfl⟩
  | strengthened now hconf hmatch => exact ⟨hs, rfl⟩
  | rewritten now h => cases hs
  | granted now h => rw [h] at hgrants; cases hgrants
  | revoked h => cases hs
  | offered now h =>
    unfold RegistryState.stampOffered at hs ⊢
    split at hs
    · rename_i hnone; rw [if_pos hnone]; exact ⟨hs, rfl⟩
    · rename_i hnone; rw [if_neg hnone]; exact ⟨hs, rfl⟩

theorem Seeds.not_granted (h : Seeds op r) (hgrants : op.grants = false) :
    r.source ≠ .humanExplicit := by
  cases h with
  | confirmed hconf hhits htrust hsource hoffered hid => rw [hsource]; decide
  | corrected hconf hhits htrust hsource hoffered hid => rw [hsource]; decide
  | granted h htrust hoffered hid => rw [h] at hgrants; cases hgrants

/-- Every signal keeps a grant trusted: a confirmation does not lower it, and what a correction or
a revocation lowers is no grant any more. -/
theorem RowStep.trusted_of_granted (h : RowStep op r r')
    (hr : r.source = .humanExplicit → r.trust = .trusted) (hs : r'.source = .humanExplicit) :
    r'.trust = .trusted := by
  cases h with
  | keep h => exact hr hs
  | strengthened now hconf hmatch =>
    have hsource : r.source = .humanExplicit := hs
    simp only [strengthen]
    rw [if_pos hsource]
  | rewritten now h => cases hs
  | granted now h => rfl
  | revoked h => cases hs
  | offered now h =>
    unfold RegistryState.stampOffered at hs ⊢
    split at hs
    · rename_i hnone; rw [if_pos hnone]; exact hr hs
    · rename_i hnone; rw [if_neg hnone]; exact hr hs

theorem Seeds.trusted_of_granted (h : Seeds op r) (hs : r.source = .humanExplicit) :
    r.trust = .trusted := by
  cases h with
  | confirmed hconf hhits htrust hsource hoffered hid => rw [hsource] at hs; cases hs
  | corrected hconf hhits htrust hsource hoffered hid => rw [hsource] at hs; cases hs
  | granted h htrust hoffered hid => exact htrust

end rows

section runs
variable {text : PyText} {s t : RegistryState} {beats : List RegistryBeat}

/-- The registry keeps its grants trusted through every signal. -/
theorem grantsTrusted_of_run (h : RegistryRun text s beats t) (hnd : s.ids.Nodup)
    (hs : GrantsTrusted s) : GrantsTrusted t := by
  suffices H : GrantsTrusted t ∧ t.ids.Nodup from H.1
  refine Lib.Run.invariant (I := fun u => GrantsTrusted u ∧ u.ids.Nodup) ?_ h ⟨hs, hnd⟩
  rintro u l v ⟨hu, hund⟩ hstep
  cases hstep with
  | fold hfresh =>
    refine ⟨fun r' hr' hsource => ?_, apply_ids_nodup hund hfresh⟩
    rcases row_of_mem hund hr' with ⟨r, hr, hrow⟩ | hseed
    · exact hrow.trusted_of_granted (hu r hr) hsource
    · exact hseed.trusted_of_granted hsource

/-- **Only a blessing creates an auto-acting rule or changes what one does.** Over any signals that
are not blessings, a blessed rule was granted at the start under the same id, match and action; and
it was trusted there, unless the start held a grant without trust. -/
theorem blessed_of_run (h : RegistryRun text s beats t) (hnd : s.ids.Nodup)
    (hops : ∀ beat ∈ beats, beat.op.grants = false) {r : Rule} (hr : r ∈ t.rules)
    (hblessed : r.Blessed) :
    ∃ r₀ ∈ s.rules, r₀.id = r.id ∧ r₀.match = r.match ∧ r₀.action = r.action ∧
      r₀.source = .humanExplicit ∧ (GrantsTrusted s → r₀.trust = .trusted) := by
  have H : (∀ r ∈ t.rules, r.source = .humanExplicit → GrantedIn s r) ∧ t.ids.Nodup := by
    refine Lib.Run.invariant_of
      (I := fun u => (∀ r ∈ u.rules, r.source = .humanExplicit → GrantedIn s r) ∧ u.ids.Nodup)
      ?_ h hops ⟨fun r hr hsource => ⟨r, hr, rfl, rfl, rfl, hsource⟩, hnd⟩
    rintro u l v ⟨hu, hund⟩ hgrants hstep
    cases hstep with
    | fold hfresh =>
      refine ⟨fun r' hr' hsource => ?_, apply_ids_nodup hund hfresh⟩
      rcases row_of_mem hund hr' with ⟨r, hr, hrow⟩ | hseed
      · obtain ⟨hbefore, haction⟩ := hrow.granted_before hgrants hsource
        obtain ⟨r₀, hr₀, hid, hmatch, hact, hsource₀⟩ := hu r hr hbefore
        exact ⟨r₀, hr₀, hid.trans hrow.id_eq.symm, hmatch.trans hrow.match_eq.symm,
          hact.trans haction.symm, hsource₀⟩
      · exact absurd hsource (hseed.not_granted hgrants)
  obtain ⟨r₀, hr₀, hid, hmatch, haction, hsource⟩ := H.1 r hr hblessed.2
  exact ⟨r₀, hr₀, hid, hmatch, haction, hsource, fun hg => hg r₀ hr₀ hsource⟩

end runs

/-! ## A grant without trust -/

/-- A granted rule that is only suggested; no signal leads to it. -/
def suspendedGrant : Rule :=
  { id := "r1", «match» := { payeePattern := "Corner Cafe" },
    action := { allocation := .category "dining" none }, trust := .suggested,
    source := .humanExplicit }

/-- A confirmation of dining for the café. -/
def cafeConfirm : FeedRuleLearning :=
  { event := .confirm, payee := "Corner Cafe",
    decision := some { allocation := .category "dining" none, approved := true, decidedBy := .human,
                       decidedAt := 0 } }

/-- One confirmation makes it an auto-acting rule, though it was not trusted before. -/
theorem confirm_trusts_suspended_grant :
    ∃ s beats t, RegistryRun PyText.ascii s beats t ∧ s.ids.Nodup ∧
      (∀ beat ∈ beats, beat.op.grants = false) ∧
      ∃ r ∈ t.rules, r.Blessed ∧ ¬ ∃ r₀ ∈ s.rules, r₀.Blessed ∧ r₀.id = r.id ∧
        r₀.match = r.match ∧ r₀.action = r.action := by
  refine ⟨{ rules := [suspendedGrant] }, [⟨_, .record cafeConfirm 0 "r2"⟩], _,
    .single (.fold (by decide)), by decide, by simp [RegistryOp.grants],
    strengthen 0 kDefault suspendedGrant, ?_, by decide, ?_⟩
  · exact List.mem_singleton.2 rfl
  · rintro ⟨r₀, hr₀, hblessed, -⟩
    rw [List.mem_singleton.1 hr₀] at hblessed
    exact absurd hblessed.1 (by decide)

/-- A granted and trusted rule stays what it was through a confirmation. -/
theorem blessed_after_confirm :
    ∃ r₀ ∈ ({ rules := [grant 0 suspendedGrant] } : RegistryState).rules, r₀.id = "r1" ∧
      r₀.match = suspendedGrant.match ∧ r₀.action = suspendedGrant.action ∧
      r₀.source = .humanExplicit ∧
      (GrantsTrusted { rules := [grant 0 suspendedGrant] } → r₀.trust = .trusted) := by
  have hrun : RegistryRun PyText.ascii { rules := [grant 0 suspendedGrant] }
      [⟨_, .record cafeConfirm 0 "r2"⟩] _ := .single (.fold (by decide))
  exact blessed_of_run hrun (by decide) (by simp [RegistryOp.grants])
    (List.mem_singleton.2 rfl) (by decide)

end YnabAgent
