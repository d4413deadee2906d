import YnabAgent.Learn.Feeds
import YnabAgent.Learn.Grants

/-!
# The offer after a revocation

A revocation takes the grant and the trust of a rule and leaves its hits and its offer stamp. Later
confirmations earn the rule its eligibility back, but a rule that was offered once is not pending
again: the owner gets the fresh offer iff the rule had never been offered (`fresh_offer_iff`).
-/

namespace YnabAgent

theorem mem_pendingOffers {s : RegistryState} {r : Rule} :
    r ∈ s.pendingOffers ↔ r ∈ s.rules ∧ r.Eligible ∧ r.offeredAt = none := by
  unfold RegistryState.pendingOffers RegistryState.eligibleForBless
  rw [List.mem_filter, List.mem_filter]
  simp [and_assoc]

/-- A stripped rule is in the table after the revocation, learned and merely confirmed. -/
theorem mem_revokePayee {text : PyText} {s : RegistryState} {payee : String} {r : Rule}
    (hr : r ∈ s.rules) (hid : r.id ∈ s.revokeTargets text payee) (now : Datetime) :
    RegistryState.revokeRule r ∈ (s.revokePayee text payee now).rules := by
  unfold RegistryState.revokePayee
  simp only
  rw [if_neg (List.ne_nil_of_mem hid)]
  exact List.mem_map.2 ⟨r, hr, if_pos hid⟩

section runs
variable {text : PyText} {s t : RegistryState} {beats : List RegistryBeat}

/-- **The fresh offer.** After a revocation a stripped rule is not eligible, and over any feeds that
do not correct it, it is eligible again and pending iff it had never been offered, at least one
confirmation landed on it, and with the hits it kept these are `K`. -/
theorem fresh_offer_iff (hnd : s.ids.Nodup) {payee : String} {now : Datetime} {r : Rule}
    (hr : r ∈ s.rules) (hstripped : r.id ∈ s.revokeTargets text payee)
    (h : RegistryRun text (s.revokePayee text payee now) beats t)
    (hfeeds : ∀ beat ∈ beats, beat.op.IsFeed)
    (hcorr : ∀ beat ∈ beats, beat.op.correctedTo r.id = none) :
    ((∀ r' ∈ (s.revokePayee text payee now).rules, r'.id = r.id → ¬ r'.Eligible) ∧
      ∃ r' ∈ t.pendingOffers, r'.id = r.id) ↔
      r.offeredAt = none ∧ 0 < landings r.id beats ∧
        kDefault ≤ r.hits + landings r.id beats := by
  have hrnd : (s.revokePayee text payee now).ids.Nodup :=
    @apply_ids_nodup text s (.revoke payee now) hnd (by intro id hid; cases hid)
  have hrow := mem_revokePayee hr hstripped now
  have hnot : ∀ r' ∈ (s.revokePayee text payee now).rules, r'.id = r.id → ¬ r'.Eligible := by
    intro r' hr' hid helig
    rw [Lib.eq_of_key_eq hrnd hr' hrow hid] at helig
    exact absurd helig.1 (by simp [RegistryState.revokeRule])
  obtain ⟨r', hr', htracked⟩ := tracked_of_run h hrnd hfeeds hrow hcorr
  change Tracked _ (landings r.id beats) r' at htracked
  have hpending : (∃ r'' ∈ t.pendingOffers, r''.id = r.id) ↔ r'.Eligible ∧ r'.offeredAt = none := by
    constructor
    · rintro ⟨r'', hr'', hid⟩
      obtain ⟨hmem, helig, hoff⟩ := mem_pendingOffers.1 hr''
      rw [Lib.eq_of_key_eq (h.ids_nodup hrnd) hmem hr' (hid.trans htracked.id.symm)] at helig hoff
      exact ⟨helig, hoff⟩
    · rintro ⟨helig, hoff⟩
      exact ⟨r', mem_pendingOffers.2 ⟨hr', helig, hoff⟩, htracked.id⟩
  have hhits : r'.hits = r.hits + landings r.id beats := htracked.hits
  have hoffered : r'.offeredAt = r.offeredAt := htracked.offeredAt
  -- the trust is the revoked one until a confirmation lands, then that of the hits
  have htrust : r'.trust = .trusted ↔
      0 < landings r.id beats ∧ kDefault ≤ r.hits + landings r.id beats := by
    rw [htracked.trust rfl, hhits]
    by_cases hn : landings r.id beats = 0
    · rw [if_pos hn]
      simp [RegistryState.revokeRule, hn]
    · rw [if_neg hn]
      have hpos : r.hits + landings r.id beats ≠ 0 := by omega
      unfold trustForHits
      rw [if_neg hpos]
      split
      · simp only [true_iff]
        omega
      · simp only [reduceCtorEq, false_iff]
        omega
  have hsource : r'.source = .learned := htracked.source
  rw [hpending, hoffered]
  unfold Rule.Eligible
  rw [htrust]
  constructor
  · rintro ⟨-, ⟨⟨hpos, hk⟩, -⟩, hoff⟩
    exact ⟨hoff, hpos, hk⟩
  · rintro ⟨hoff, hpos, hk⟩
    exact ⟨hnot, ⟨⟨hpos, hk⟩, hsource⟩, hoff⟩

end runs

/-! ## The café offered, blessed, revoked -/

/-- Three confirmations, the offer e-mailed, the owner's acceptance. -/
def offeredAndBlessed : List RegistryOp :=
  [.record cafeConfirm 0 "r1", .record cafeConfirm 1 "r2", .record cafeConfirm 2 "r3",
    .markOffered "r1" 3, .blessExisting "r1" 4]

/-- Three more confirmations. -/
def reconfirmed : List RegistryOp :=
  [.record cafeConfirm 6 "r4", .record cafeConfirm 7 "r5", .record cafeConfirm 8 "r6"]

/-- The café's rule, revoked and confirmed three times more, is eligible and never offered again. -/
theorem silent_after_revoke :
    ∃ beats s, RegistryRun PyText.ascii {} beats s ∧
      ∃ r ∈ s.rules, r.id ∈ s.revokeTargets PyText.ascii "Corner Cafe" ∧
      ∃ feeds t, RegistryRun PyText.ascii (s.revokePayee PyText.ascii "Corner Cafe" 5) feeds t ∧
        (∀ beat ∈ feeds, beat.op.IsFeed ∧ beat.op.correctedTo r.id = none ∧
          beat.op.confirms = some (r.match, r.action)) ∧ feeds.length = kDefault ∧
        r.id ∈ t.eligibleForBless.map Rule.id ∧ ¬ ∃ r' ∈ t.pendingOffers, r'.id = r.id := by
  refine ⟨_, _, foldOps_run PyText.ascii {} offeredAndBlessed (by decide), _,
    List.mem_cons_self, by decide, _, _, foldOps_run PyText.ascii _ reconfirmed (by decide),
    ?_, by decide, by decide, by decide⟩
  simp only [reconfirmed, foldOps, List.forall_mem_cons, List.not_mem_nil, false_imp_iff,
    implies_true, and_true]
  exact ⟨⟨⟨_, _, _, rfl⟩, by decide, by decide⟩, ⟨⟨_, _, _, rfl⟩, by decide, by decide⟩,
    ⟨_, _, _, rfl⟩, by decide, by decide⟩

/-- The café granted by command, never offered. -/
def grantedCafe : RegistryState := { rules := [grant 0 suspendedGrant] }

def revokedCafe : RegistryState := grantedCafe.revokePayee PyText.ascii "Corner Cafe" 5

/-- The same three confirmations bring that café its offer. -/
theorem fresh_offer_after_revoke :
    ((∀ r' ∈ revokedCafe.rules, r'.id = "r1" → ¬ r'.Eligible) ∧
      ∃ r' ∈ (foldOps PyText.ascii revokedCafe reconfirmed).2.pendingOffers, r'.id = "r1") ↔
      (grant 0 suspendedGrant).offeredAt = none ∧
        0 < landings "r1" (foldOps PyText.ascii revokedCafe reconfirmed).1 ∧
        kDefault ≤ (grant 0 suspendedGrant).hits +
          landings "r1" (foldOps PyText.ascii revokedCafe reconfirmed).1 := by
  have hrun := foldOps_run PyText.ascii revokedCafe reconfirmed (by decide)
  refine fresh_offer_iff (s := grantedCafe) (r := grant 0 suspendedGrant) (by decide)
    (List.mem_singleton.2 rfl) ?_ hrun ?_ (by decide)
  · decide
  · simp only [reconfirmed, foldOps, List.forall_mem_cons, List.not_mem_nil, false_imp_iff,
      implies_true, and_true]
    exact ⟨⟨_, _, _, rfl⟩, ⟨_, _, _, rfl⟩, _, _, _, rfl⟩

end YnabAgent
