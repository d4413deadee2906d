import YnabAgent.Budget.Recipients
import Mathlib.Data.List.Forall2
import Mathlib.Data.List.ReduceOption

/-!
# The greedy plan as a whole

What the planner does with any needs and any donors of distinct categories: it keeps to the ceiling
and to what each donor can spare, accounts for every need (`coverNeeds_accountsFor`), leaves a need
short only where nothing is left in the pool (`drained_of_uncovered`), and touches a donor only once
those before it are drained (`drained_before`).
-/

namespace YnabAgent

/-! ## Accounting for the needs -/

/-- What a need is given, and what it is left short of. -/
structure Given where
  moves : List BudgetMove
  left : Money

/-- What a need is given and what it is left short of make up its shortfall. -/
structure Given.Settles (need : Need) (given : Given) : Prop where
  destination : ∀ move ∈ given.moves, move.destination = need.category
  left_nonneg : 0 ≤ given.left.milliunits
  amount : amountOf given.moves + given.left.milliunits = max 0 need.shortfall.milliunits

/-- The report of a need that is left short. -/
def Given.report (need : Need) (given : Given) : Option Need :=
  if Money.zero < given.left then some ⟨need.category, given.left⟩ else none

/-- The plan accounts for the needs: its moves are those given to one need after the other, and it
reports those left short, by what they lack. -/
def AccountsFor (needs : List Need) (plan : CoveragePlan) : Prop :=
  ∃ givens : List Given, List.Forall₂ Given.Settles needs givens ∧
    plan.moves = givens.flatMap Given.moves ∧
    plan.uncovered = (List.zipWith Given.report needs givens).reduceOption

theorem coverNeeds_accountsFor (policy : FloorPolicy) (ordered : List Source) :
    ∀ (needs : List Need) (remaining : CategoryId → Money),
      AccountsFor needs (coverNeeds policy ordered needs remaining) := by
  intro needs
  induction needs with
  | nil => intro remaining; exact ⟨[], .nil, rfl, rfl⟩
  | cons need needs ih =>
    intro remaining
    let covered := coverNeed policy need.category ordered remaining need.shortfall
    let given : Given := ⟨covered.moves, ⟨room covered.shortfall⟩⟩
    obtain ⟨givens, hsettles, hmoves, huncovered⟩ := ih covered.remaining
    have hroom : Money.zero < given.left ↔ Money.zero < covered.shortfall := by
      change 0 < room covered.shortfall ↔ 0 < covered.shortfall.milliunits
      unfold room
      omega
    refine ⟨given :: givens, .cons ?_ hsettles, ?_, ?_⟩
    · by_cases hneed : 0 ≤ need.shortfall.milliunits
      · obtain ⟨hamount, hnonneg, hdestination⟩ :=
          coverNeed_amount policy need.category ordered remaining hneed
        refine ⟨hdestination, room_nonneg _, ?_⟩
        change amountOf covered.moves + room covered.shortfall = _
        rw [room_of_nonneg hnonneg, hamount]
        omega
      · -- nothing is asked for
        have hmet : covered = ⟨[], remaining, need.shortfall⟩ :=
          coverNeed_of_met (by rw [Money.le_iff, Money.zero_milliunits]; omega)
        refine ⟨?_, room_nonneg _, ?_⟩
        · change ∀ move ∈ covered.moves, _
          rw [hmet]
          intro move hmove
          cases hmove
        · change amountOf covered.moves + room covered.shortfall = _
          rw [hmet]
          change 0 + max 0 need.shortfall.milliunits = _
          omega
    · rw [coverNeeds, List.flatMap_cons, ← hmoves]
    · rw [coverNeeds, List.zipWith_cons_cons]
      change (if Money.zero < covered.shortfall then
        ⟨need.category, covered.shortfall⟩ ::
        (coverNeeds policy ordered needs covered.remaining).uncovered
        else (coverNeeds policy ordered needs covered.remaining).uncovered) = _
      rw [huncovered]
      by_cases hpos : Money.zero < covered.shortfall
      · have hreport : Given.report need given = some ⟨need.category, covered.shortfall⟩ := by
          unfold Given.report
          rw [if_pos (hroom.2 hpos)]
          congr 2
          exact Money.ext_milliunits (room_of_nonneg (Int.le_of_lt hpos))
        rw [if_pos hpos, hreport, List.reduceOption_cons_of_some]
      · have hreport : Given.report need given = none := if_neg fun h => hpos (hroom.1 h)
        rw [if_neg hpos, hreport, List.reduceOption_cons_of_none]

/-! ## The loop over one donor -/

/-- The moves a donor makes to a need come to an end: with fuel for the shortfall the loop stops by
its own condition, and more fuel changes nothing. -/
def LoopEnds (policy : FloorPolicy) : Prop :=
  ∀ (source destination : CategoryId) (available shortfall : Money) (fuel : Nat),
    shortfall.milliunits.toNat ≤ fuel →
    let drawn := drawSource policy source destination fuel available shortfall
    ¬ (Money.zero < drawn.shortfall ∧ Money.zero < drawn.remaining) ∧
      drawn = drawSource policy source destination shortfall.milliunits.toNat available shortfall

section plan
variable {policy : FloorPolicy} {needs : List Need} {sources : List Source}

theorem loopEnds (hceiling : 0 < policy.perMoveCeiling.milliunits) : LoopEnds policy := by
  intro source destination available shortfall fuel hfuel drawn
  have hspec : drawn = _ := drawSource_spec hceiling hfuel
  refine ⟨?_, hspec.trans (drawSource_spec hceiling (Nat.le_refl _)).symm⟩
  rw [hspec]
  simp only [Money.lt_iff, Money.zero_milliunits, Money.sub_milliunits]
  unfold room
  omega

/-! ## What the plan moves -/

theorem amountOf_append (moves moves' : List BudgetMove) :
    amountOf (moves ++ moves') = amountOf moves + amountOf moves' := by
  unfold amountOf
  rw [List.map_append, List.sum_append]

theorem amountOf_flatMap {α : Type} (l : List α) (f : α → List BudgetMove) :
    amountOf (l.flatMap f) = (l.map fun a => amountOf (f a)).sum := by
  induction l with
  | nil => rfl
  | cons a l ih => rw [List.flatMap_cons, amountOf_append, ih, List.map_cons, List.sum_cons]

theorem amountOf_movesOf (hceiling : 0 < policy.perMoveCeiling.milliunits)
    (source destination : CategoryId) {amount : Int} (hamount : 0 ≤ amount) :
    amountOf (movesOf policy source destination amount) = amount := by
  unfold amountOf movesOf
  rw [List.map_map]
  exact (congrArg List.sum (List.map_id' _)).trans (Lib.sum_chunks hceiling hamount)

/-- The plan moves all it can: what is asked for, as far as there is something to give. -/
theorem amountOf_planCoverage (needs : List Need)
    (hceiling : 0 < policy.perMoveCeiling.milliunits)
    (hnd : (sources.map Source.category).Nodup) :
    amountOf (planCoverage needs sources policy).moves =
      min (totalDemand needs) (totalSlack sources) := by
  have hslack : ((drainOrder sources).map Source.length).sum = totalSlack sources :=
    ((drainOrder_perm sources).map _).sum_eq
  have hneed : ∀ n : Need × Int × Int, amountOf ((pool sources).flatMap fun p =>
      movesOf policy p.1.category n.1.category (Lib.overlap n.2 p.2)) =
        Lib.overlap (0, totalSlack sources) n.2 := by
    intro n
    simp only [amountOf_flatMap, amountOf_movesOf hceiling _ _ Lib.overlap_nonneg]
    unfold pool
    rw [Lib.sum_overlap_laid (fun source _ => room_nonneg _), hslack, Int.zero_add,
      Lib.overlap_comm]
  rw [planCoverage_moves hceiling hnd, amountOf_flatMap]
  simp only [hneed]
  unfold demand
  rw [Lib.sum_overlap_laid (fun need _ => room_nonneg _), Int.zero_add]
  have hdemand : 0 ≤ totalDemand needs := Lib.sum_map_nonneg fun need _ => room_nonneg _
  have hpool : 0 ≤ totalSlack sources := Lib.sum_map_nonneg fun source _ => room_nonneg _
  change Lib.overlap (0, totalSlack sources) (0, totalDemand needs) = _
  unfold Lib.overlap
  simp only
  omega

/-- What is given and what is left short are what is asked for. -/
theorem Given.sum_of_settles {givens : List Given} (h : List.Forall₂ Given.Settles needs givens) :
    amountOf (givens.flatMap Given.moves) + (givens.map fun given => given.left.milliunits).sum =
      totalDemand needs := by
  induction h with
  | nil => rfl
  | cons hgiven _ ih =>
    have hamount := hgiven.amount
    unfold totalDemand at ih ⊢
    rw [List.flatMap_cons, amountOf_append, List.map_cons, List.sum_cons, List.map_cons,
      List.sum_cons, ← ih]
    unfold Need.length room
    omega

/-- A report says that a need is left short. -/
theorem Given.left_of_settles {givens : List Given}
    (h : List.Forall₂ Given.Settles needs givens) :
    0 ≤ (givens.map fun given => given.left.milliunits).sum ∧
      ((List.zipWith Given.report needs givens).reduceOption ≠ [] →
        0 < (givens.map fun given => given.left.milliunits).sum) := by
  induction h with
  | nil => exact ⟨Int.le_refl 0, fun h => absurd rfl h⟩
  | @cons need given needs givens hgiven _ ih =>
    have hleft := hgiven.left_nonneg
    rw [List.map_cons, List.sum_cons, List.zipWith_cons_cons]
    refine ⟨by omega, fun hreport => ?_⟩
    by_cases hpos : 0 < given.left.milliunits
    · omega
    · have hnone : Given.report need given = none := if_neg hpos
      rw [hnone, List.reduceOption_cons_of_none] at hreport
      have hrest := ih.2 hreport
      omega

/-! ## What is left in the pool -/

/-- Where a need is left short, more is asked for than there is. -/
theorem totalSlack_lt_totalDemand (hceiling : 0 < policy.perMoveCeiling.milliunits)
    (hnd : (sources.map Source.category).Nodup)
    (h : (planCoverage needs sources policy).uncovered ≠ []) :
    totalSlack sources < totalDemand needs := by
  obtain ⟨givens, hsettles, hmoves, huncovered⟩ :=
    coverNeeds_accountsFor policy (drainOrder sources) needs (drawables sources)
  change (planCoverage needs sources policy).moves = _ at hmoves
  change (planCoverage needs sources policy).uncovered = _ at huncovered
  have hsum := Given.sum_of_settles hsettles
  have hleft := (Given.left_of_settles hsettles).2 (huncovered ▸ h)
  rw [← hmoves, amountOf_planCoverage needs hceiling hnd] at hsum
  omega

/-- Then every donor gives all it can spare. -/
theorem drained_of_uncovered (hceiling : 0 < policy.perMoveCeiling.milliunits)
    (hnd : (sources.map Source.category).Nodup)
    (h : (planCoverage needs sources policy).uncovered ≠ []) {p : Source × Int × Int}
    (hp : p ∈ pool sources) :
    (pulled (planCoverage needs sources policy).moves p.1.category).milliunits = p.1.length := by
  have hlt := totalSlack_lt_totalDemand hceiling hnd h
  have hspan : p.2.2 = p.2.1 + p.1.length := Lib.span_of_laid hp
  have hstart : 0 ≤ p.2.1 := Lib.le_start_of_laid (fun source _ => room_nonneg _) hp
  have hend : p.2.2 ≤ 0 + ((drainOrder sources).map Source.length).sum :=
    Lib.end_le_of_laid (fun source _ => room_nonneg _) hp
  have hslack : ((drainOrder sources).map Source.length).sum = totalSlack sources :=
    ((drainOrder_perm sources).map _).sum_eq
  have hlength : 0 ≤ p.1.length := room_nonneg _
  rw [pulled_planCoverage needs hceiling hnd hp]
  unfold Lib.overlap
  simp only
  omega

/-! ## The order of the donors -/

/-- The sort puts a donor before another: its priority is preferred, or has more to spare
within it. -/
def Source.Precedes (a b : Source) : Prop :=
  a.priority.value < b.priority.value ∨
    a.priority = b.priority ∧ b.drawable.milliunits < a.drawable.milliunits

theorem Source.Precedes.not_le {a b : Source} (h : a.Precedes b) : ¬ sourceLe b a := by
  rintro (hlt | ⟨heq, hle⟩)
  · rcases h with h | ⟨h, -⟩
    · omega
    · rw [h] at hlt
      omega
  · rcases h with h | ⟨-, h⟩
    · omega
    · rw [Money.le_iff] at hle
      omega

instance : Std.Total sourceLe where
  total a b := by
    unfold sourceLe
    simp only [Money.le_iff]
    omega

instance : IsTrans Source sourceLe where
  trans a b c := by
    unfold sourceLe
    simp only [Money.le_iff]
    omega

/-- The donors before another in the pool come first in their order, and end before it starts. -/
theorem pool_precedes {p q : Source × Int × Int} (hp : p ∈ pool sources)
    {before after : List (Source × Int × Int)} (hpool : pool sources = before ++ q :: after)
    (hprecedes : p.1.Precedes q.1) : p ∈ before ∧ p.2.2 ≤ q.2.1 := by
  have hsorted : (pool sources).Pairwise fun p q => sourceLe p.1 q.1 := by
    rw [← List.pairwise_map (R := sourceLe) (f := Prod.fst)]
    unfold pool
    rw [Lib.map_fst_laid]
    exact List.pairwise_insertionSort sourceLe sources
  have hspans : (pool sources).Pairwise fun p q => p.2.2 ≤ q.2.1 :=
    Lib.pairwise_laid fun source _ => room_nonneg _
  rw [hpool, List.pairwise_append] at hsorted hspans
  have hmem : p ∈ before := by
    rw [hpool, List.mem_append, List.mem_cons] at hp
    rcases hp with hp | rfl | hp
    · exact hp
    · exact absurd (refl_of sourceLe p.1) hprecedes.not_le
    · exact absurd ((List.pairwise_cons.1 hsorted.2.1).1 p hp) hprecedes.not_le
  exact ⟨hmem, hspans.2.2 p hmem q List.mem_cons_self⟩

theorem exists_pool {source : Source} (h : source ∈ sources) :
    ∃ p ∈ pool sources, p.1 = source := by
  have hmem : source ∈ (pool sources).map Prod.fst := by
    unfold pool
    rw [Lib.map_fst_laid]
    exact (drainOrder_perm sources).mem_iff.2 h
  exact List.mem_map.1 hmem

/-- What a need draws from a donor is what their spans share. -/
theorem pulled_need (hceiling : 0 < policy.perMoveCeiling.milliunits)
    {donors : List (Source × Int × Int)} (hkeys : (donors.map fun p => p.1.category).Nodup)
    {p : Source × Int × Int} (hp : p ∈ donors) (n : Need × Int × Int) :
    (pulled (donors.flatMap fun q =>
      movesOf policy q.1.category n.1.category (Lib.overlap n.2 q.2)) p.1.category).milliunits =
        Lib.overlap p.2 n.2 := by
  simp only [pulled_flatMap, pulled_movesOf hceiling Lib.overlap_nonneg]
  rw [Lib.sum_of_mem (fun q : Source × Int × Int => q.1.category) hkeys hp rfl, Lib.overlap_comm]

/-- Where a move of the plan stands: behind all those to the needs before its own, and behind those
its need draws from the donors before its own. -/
theorem exists_place (hceiling : 0 < policy.perMoveCeiling.milliunits)
    (hnd : (sources.map Source.category).Nodup) {before after : List BudgetMove} {move : BudgetMove}
    (hmoves : (planCoverage needs sources policy).moves = before ++ move :: after) :
    ∃ needsBefore n needsAfter poolBefore q poolAfter first,
      demand needs = needsBefore ++ n :: needsAfter ∧ pool sources = poolBefore ++ q :: poolAfter ∧
      before = needsBefore.flatMap (fun n => (pool sources).flatMap fun p =>
          movesOf policy p.1.category n.1.category (Lib.overlap n.2 p.2)) ++
        (poolBefore.flatMap (fun p =>
          movesOf policy p.1.category n.1.category (Lib.overlap n.2 p.2)) ++ first) ∧
      (∀ m ∈ first, m.source = q.1.category) ∧ move.source = q.1.category ∧
      0 < Lib.overlap n.2 q.2 := by
  rw [planCoverage_moves hceiling hnd] at hmoves
  obtain ⟨needsBefore, n, needsAfter, first, rest, hdemand, hn, rfl⟩ :=
    Lib.flatMap_eq_append_cons hmoves
  obtain ⟨poolBefore, q, poolAfter, first, rest, hpool, hq, rfl⟩ := Lib.flatMap_eq_append_cons hn
  have hfrom : ∀ m ∈ first ++ move :: rest, m.source = q.1.category := by
    intro m hm
    rw [← hq] at hm
    obtain ⟨amount, -, rfl⟩ := List.mem_map.1 hm
    rfl
  have hmem : move ∈ first ++ move :: rest := List.mem_append_right _ List.mem_cons_self
  refine ⟨needsBefore, n, needsAfter, poolBefore, q, poolAfter, first, hdemand, hpool, rfl,
    fun m hm => hfrom m (List.mem_append_left _ hm), hfrom move hmem, ?_⟩
  rw [← hq] at hmem
  obtain ⟨amount, hamount, -⟩ := List.mem_map.1 hmem
  exact (Lib.exists_mem_chunks_iff hceiling Lib.overlap_nonneg).1 ⟨amount, hamount⟩

/-- Before the first move from a donor, and so before each, those the sort puts before it
are drained. -/
theorem drained_before (hceiling : 0 < policy.perMoveCeiling.milliunits)
    (hnd : (sources.map Source.category).Nodup) {p q : Source × Int × Int} (hp : p ∈ pool sources)
    (hq : q ∈ pool sources) (hprecedes : p.1.Precedes q.1) {before after : List BudgetMove}
    {move : BudgetMove}
    (hmoves : (planCoverage needs sources policy).moves = before ++ move :: after)
    (hsource : move.source = q.1.category) :
    (pulled before p.1.category).milliunits = p.1.length := by
  have hkeys : ((pool sources).map fun p => p.1.category).Nodup := by
    rw [map_category_pool]
    exact drainOrder_nodup hnd
  obtain ⟨needsBefore, n, needsAfter, poolBefore, q', poolAfter, first, hdemand, hpool, rfl, hfirst,
    hfrom, hshare⟩ := exists_place hceiling hnd hmoves
  have hq' : q' ∈ pool sources := hpool ▸ List.mem_append_right _ List.mem_cons_self
  obtain rfl : q' = q := Lib.eq_of_key_eq hkeys hq' hq (hfrom.symm.trans hsource)
  obtain ⟨hbefore, hend⟩ := pool_precedes hp hpool hprecedes
  -- the needs before have drawn on it in full order, and so has this one
  have hearlier : (pulled (needsBefore.flatMap fun n => (pool sources).flatMap fun p =>
      movesOf policy p.1.category n.1.category (Lib.overlap n.2 p.2)) p.1.category).milliunits =
        (needsBefore.map fun n => Lib.overlap p.2 n.2).sum := by
    simp only [pulled_flatMap]
    simp only [← pulled_flatMap, pulled_need hceiling hkeys hp]
  have hthis : (pulled (poolBefore.flatMap fun q =>
      movesOf policy q.1.category n.1.category (Lib.overlap n.2 q.2)) p.1.category).milliunits =
        Lib.overlap p.2 n.2 := by
    refine pulled_need hceiling (hkeys.sublist ?_) hbefore n
    rw [hpool, List.map_append]
    exact List.sublist_append_left _ _
  have hnone : (pulled first p.1.category).milliunits = 0 := by
    apply pulled_eq_zero
    intro m hm heq
    obtain rfl : q' = p := Lib.eq_of_key_eq hkeys hq' hp ((hfirst m hm).symm.trans heq)
    exact hprecedes.not_le (refl_of sourceLe _)
  have hupto : (needsBefore.map fun n => Lib.overlap p.2 n.2).sum + Lib.overlap p.2 n.2 =
      Lib.overlap p.2 (0, n.2.2) := Lib.sum_overlap_upto (fun need _ => room_nonneg _) hdemand
  have hspan : p.2.2 = p.2.1 + p.1.length := Lib.span_of_laid hp
  have hstart : 0 ≤ p.2.1 := Lib.le_start_of_laid (fun source _ => room_nonneg _) hp
  have hlength : 0 ≤ p.1.length := room_nonneg _
  rw [pulled_append, pulled_append, hearlier, hthis, hnone]
  unfold Lib.overlap at hshare hupto ⊢
  simp only at hupto
  omega

end plan

/-! ## The law -/

/-- **The greedy plan.** For any needs, and donors of distinct categories: the loops end; each move
is positive and under the ceiling; no donor gives more than it can spare; every need is accounted
for; a need is left short only where every donor is drained; and a donor gives only once every one
the sort puts before it is drained. -/
theorem planCoverage_greedy (needs : List Need) (sources : List Source) {policy : FloorPolicy}
    (hnd : (sources.map Source.category).Nodup)
    (hceiling : 0 < policy.perMoveCeiling.milliunits) :
    let plan := planCoverage needs sources policy
    LoopEnds policy ∧
      (∀ move ∈ plan.moves, 0 < move.amount.milliunits ∧
        move.amount.milliunits ≤ policy.perMoveCeiling.milliunits) ∧
      (∀ source ∈ sources, (pulled plan.moves source.category).milliunits ≤
        max 0 source.drawable.milliunits) ∧
      AccountsFor needs plan ∧
      (plan.uncovered ≠ [] → ∀ source ∈ sources,
        (pulled plan.moves source.category).milliunits = max 0 source.drawable.milliunits) ∧
      ∀ first ∈ sources, ∀ second ∈ sources, first.Precedes second →
        ∀ before move after, plan.moves = before ++ move :: after →
          move.source = second.category →
          (pulled before first.category).milliunits = max 0 first.drawable.milliunits := by
  intro plan
  refine ⟨loopEnds hceiling, fun move hmove => amount_planCoverage hceiling hnd hmove, ?_,
    coverNeeds_accountsFor policy (drainOrder sources) needs (drawables sources), ?_, ?_⟩
  · intro source hsource
    obtain ⟨p, hp, rfl⟩ := exists_pool hsource
    exact pulled_le_length needs hceiling hnd hp
  · intro huncovered source hsource
    obtain ⟨p, hp, rfl⟩ := exists_pool hsource
    exact drained_of_uncovered hceiling hnd huncovered hp
  · intro first hfirst second hsecond hprecedes before move after hmoves hsource
    obtain ⟨p, hp, rfl⟩ := exists_pool hfirst
    obtain ⟨q, hq, rfl⟩ := exists_pool hsecond
    exact drained_before hceiling hnd hp hq hprecedes hmoves hsource

/-- A donor with a projected spend of its own, and a buffer without. -/
def savingsDonor : Source :=
  { category := "savings", available := ⟨90000⟩, priority := .overfunded, slack := some ⟨30000⟩ }

def bufferDonor : Source := { category := "buffer", available := ⟨50000⟩, priority := .buffer }

/-- Two needs that ask for more than the two have drain both. -/
theorem two_donors_drained :
    let plan := planCoverage [⟨"dining", ⟨60000⟩⟩, ⟨"fuel", ⟨40000⟩⟩] [savingsDonor, bufferDonor]
    plan.uncovered = [⟨"fuel", ⟨20000⟩⟩] ∧
      (pulled plan.moves "savings").milliunits = 30000 ∧
      (pulled plan.moves "buffer").milliunits = 50000 := by
  intro plan
  have huncovered : plan.uncovered = [⟨"fuel", ⟨20000⟩⟩] := by decide +kernel
  obtain ⟨-, -, -, -, hdrained, -⟩ := planCoverage_greedy
    [⟨"dining", ⟨60000⟩⟩, ⟨"fuel", ⟨40000⟩⟩] [savingsDonor, bufferDonor] (by decide)
    (show 0 < cautiousFloor.perMoveCeiling.milliunits by decide)
  have hgiven := hdrained (by rw [huncovered]; decide)
  exact ⟨huncovered, hgiven savingsDonor (by decide), hgiven bufferDonor (by decide)⟩

end YnabAgent
