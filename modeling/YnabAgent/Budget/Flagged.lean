import YnabAgent.Budget.Donors

/-!
# Flagged categories and donors

Slack and shortfall are one difference, clamped from either side: what a category has past its
projected spend, and what it lacks of it. `flagged_never_gives`: a category the monitor flags is on
the lacking side, whatever the threshold, so it is a need of the pass and never one of its donors.
-/

namespace YnabAgent

section flagged
variable (spend : CategorySpend) (clock : MonthClock) (policy : OverspendPolicy)

theorem slack_sub_shortfall :
    (donorSlack spend clock).1.milliunits -
        (needFromAssessment (assess spend clock policy)).shortfall.milliunits =
      spend.balance.milliunits - spend.remaining clock := by
  rw [donorSlack_milliunits, shortfall_milliunits spend clock policy]
  omega

variable {spend} {clock} {policy}

/-- What is flagged has less than it is projected to spend. -/
theorem balance_lt_remaining (hscheduled : 0 ≤ spend.scheduledRemaining.milliunits)
    (hthreshold : 0 ≤ policy.trendThreshold.milliunits)
    (hflagged : (assess spend clock policy).verdict ≠ .ok) :
    spend.balance.milliunits < spend.remaining clock := by
  have hremaining := scheduled_le_remaining spend clock
  rw [Ne, assess_verdict_eq_ok_iff] at hflagged
  -- a negative balance is below the schedule, and a trend is over by more than the threshold
  by_contra hle
  apply hflagged
  exact ⟨by omega, by omega⟩

theorem slack_eq_zero (h : spend.balance.milliunits < spend.remaining clock) :
    (donorSlack spend clock).1 = Money.zero := by
  apply Money.ext_milliunits
  rw [donorSlack_milliunits, Money.zero_milliunits]
  omega

/-- What falls short is a need that asks for something. -/
theorem need_of_short (h : spend.balance.milliunits < spend.remaining clock) :
    0 < (needFromAssessment (assess spend clock policy)).shortfall.milliunits := by
  rw [shortfall_milliunits spend clock policy]
  omega

/-- The needs of a pass are those that ask for something. -/
theorem mem_needsFromAssessments {assessments : List OverspendAssessment}
    {assessment : OverspendAssessment} (hmem : assessment ∈ assessments)
    (hpos : 0 < (needFromAssessment assessment).shortfall.milliunits) :
    needFromAssessment assessment ∈ needsFromAssessments assessments := by
  unfold needsFromAssessments
  rw [List.mem_insertionSort, List.mem_filter]
  refine ⟨List.mem_map_of_mem hmem, ?_⟩
  unfold Need.isMet
  rw [Bool.not_eq_true', decide_eq_false_iff_not, Money.le_iff, Money.zero_milliunits]
  omega

/-- A category with one record of figures, which has no slack, gives nothing. -/
theorem no_donor_of_short (h : spend.balance.milliunits < spend.remaining clock)
    (hreal : spend.category ≠ readyToAssignSource) {spends : List CategorySpend}
    (hone : ∀ other ∈ spends, other.category = spend.category → other = spend)
    (readyToAssign : Money) (exclude : List CategoryId) :
    ∀ source ∈ sourcesFromSpends spends readyToAssign exclude clock,
      source.category ≠ spend.category := by
  intro source hsource hcategory
  rcases mem_sourcesFromSpends.1 hsource with ⟨-, rfl⟩ | ⟨other, hother, -, hslack, rfl⟩
  · exact hreal hcategory.symm
  · obtain rfl := hone other hother hcategory
    omega

end flagged

/-- **Flagged categories never give.** Slack less shortfall is what a category has past its
projected spend, and no more than one of the two is positive; a category the monitor flags has no
slack, asks for something, and is no donor of any pass over figures in which it has one record. -/
theorem flagged_never_gives {spend : CategorySpend} (clock : MonthClock) {policy : OverspendPolicy}
    (hscheduled : 0 ≤ spend.scheduledRemaining.milliunits)
    (hthreshold : 0 ≤ policy.trendThreshold.milliunits) :
    let assessment := assess spend clock policy
    let slack := (donorSlack spend clock).1
    let need := needFromAssessment assessment
    slack.milliunits - need.shortfall.milliunits = spend.balance.milliunits -
        ((projectSpend spend clock).milliunits - (spentMagnitude spend).milliunits) ∧
      ¬ (0 < slack.milliunits ∧ 0 < need.shortfall.milliunits) ∧
      (assessment.verdict ≠ .ok →
        slack = Money.zero ∧ 0 < need.shortfall.milliunits ∧
        (∀ assessments, assessment ∈ assessments → need ∈ needsFromAssessments assessments) ∧
        ∀ (spends : List CategorySpend) (readyToAssign : Money) (exclude : List CategoryId),
          donorOf spend clock ∉ sourcesFromSpends spends readyToAssign exclude clock ∧
          (spend.category ≠ readyToAssignSource →
            (∀ other ∈ spends, other.category = spend.category → other = spend) →
            ∀ source ∈ sourcesFromSpends spends readyToAssign exclude clock,
              source.category ≠ spend.category)) := by
  intro assessment slack need
  have hslack : slack.milliunits = max 0 (spend.balance.milliunits - spend.remaining clock) :=
    donorSlack_milliunits spend clock
  have hneed : need.shortfall.milliunits =
      max 0 (spend.remaining clock - spend.balance.milliunits) :=
    shortfall_milliunits spend clock policy
  refine ⟨slack_sub_shortfall spend clock policy, by omega, ?_⟩
  intro hflagged
  have hshort := balance_lt_remaining hscheduled hthreshold hflagged
  have hpos : 0 < need.shortfall.milliunits := need_of_short hshort
  refine ⟨slack_eq_zero hshort, hpos, ?_, ?_⟩
  · intro assessments hmem
    exact mem_needsFromAssessments hmem hpos
  · intro spends readyToAssign exclude
    refine ⟨?_, fun hreal hone => no_donor_of_short hshort hreal hone readyToAssign exclude⟩
    intro hdonor
    have hdrawable : 0 < (donorOf spend clock).drawable.milliunits := by
      rcases mem_sourcesFromSpends.1 hdonor with ⟨hready, heq⟩ | ⟨other, -, -, hother, heq⟩
      · rw [heq]
        exact hready
      · rw [heq]
        change 0 < (donorSlack other clock).1.milliunits
        rw [donorSlack_milliunits]
        omega
    change 0 < slack.milliunits at hdrawable
    omega

/-- On the tenth, dining is flagged: it asks for something and gives nothing. -/
theorem dining_never_gives :
    (assess diningSpend dayTen).verdict ≠ .ok ∧
      ∀ source ∈ sourcesFromSpends householdSpends ⟨0⟩ [] dayTen, source.category ≠ "dining" := by
  have hflagged : (assess diningSpend dayTen).verdict ≠ .ok := by decide +kernel
  refine ⟨hflagged, ?_⟩
  exact (((flagged_never_gives dayTen (by decide) (by decide)).2.2 hflagged).2.2.2
    householdSpends ⟨0⟩ []).2 (by decide) (by decide)

end YnabAgent
