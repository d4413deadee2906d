import YnabAgent.Budget.Balance
import YnabAgent.Lib.Spans
import Mathlib.Algebra.BigOperators.Ring.Finset
import Mathlib.Algebra.Order.BigOperators.Group.List

/-!
# The greedy plan in closed form

The planner covers the needs in order from the donors in drain order. Lay the shortfalls end to end,
and the donors' slacks end to end: the plan moves from a donor to a need exactly what their spans
share, in moves under the ceiling (`planCoverage_moves`). What a donor gives in total, how many
moves there are and which needs are reached are read off the spans.
-/

namespace YnabAgent

/-- What there is of an amount; nothing where it is negative. -/
def room (m : Money) : Int := max 0 m.milliunits

theorem room_nonneg (m : Money) : 0 ≤ room m :=
  Int.le_max_left _ _

theorem room_of_nonneg {m : Money} (h : 0 ≤ m.milliunits) : room m = m.milliunits :=
  Int.max_eq_right h

/-- What is left after a draw within it. -/
theorem room_sub {m : Money} {t : Int} (ht : 0 ≤ t) (hle : t ≤ room m) :
    room (m - ⟨t⟩) = room m - t := by
  unfold room at hle ⊢
  rw [Money.sub_milliunits]
  simp only
  omega

theorem takeOf_milliunits (a b : Money) :
    (takeOf a b).milliunits = min a.milliunits b.milliunits := by
  unfold takeOf
  split
  · rename_i h
    rw [Money.lt_iff] at h
    omega
  · rename_i h
    rw [Money.lt_iff] at h
    omega

/-- An amount in moves under the ceiling. -/
def movesOf (policy : FloorPolicy) (source destination : CategoryId) (amount : Int) :
    List BudgetMove :=
  (Lib.chunks policy.perMoveCeiling.milliunits amount).map fun m => ⟨source, destination, ⟨m⟩⟩

/-! ## The loops -/

section loops
variable {policy : FloorPolicy} {source destination : CategoryId}

/-- Where a source and a need have nothing in common, to give that is to give nothing. -/
theorem draw_nothing {available shortfall : Money}
    (h : min (room available) (room shortfall) = 0) :
    (⟨[], available, shortfall⟩ : Draw) =
      ⟨movesOf policy source destination (min (room available) (room shortfall)),
        available - ⟨min (room available) (room shortfall)⟩,
        shortfall - ⟨min (room available) (room shortfall)⟩⟩ := by
  rw [h]
  unfold movesOf
  rw [Lib.chunks_zero]
  cases available
  cases shortfall
  simp only [List.map_nil, Draw.mk.injEq, true_and]
  exact ⟨Money.ext_milliunits (by simp), Money.ext_milliunits (by simp)⟩

/-- One source gives what it and the need have in common. -/
theorem drawSource_spec (hceiling : 0 < policy.perMoveCeiling.milliunits) :
    ∀ {fuel : Nat} {available shortfall : Money}, shortfall.milliunits.toNat ≤ fuel →
      drawSource policy source destination fuel available shortfall =
        ⟨movesOf policy source destination (min (room available) (room shortfall)),
          available - ⟨min (room available) (room shortfall)⟩,
          shortfall - ⟨min (room available) (room shortfall)⟩⟩ := by
  intro fuel
  induction fuel with
  | zero =>
    intro available shortfall hfuel
    apply draw_nothing
    unfold room
    omega
  | succ fuel ih =>
    intro available shortfall hfuel
    unfold drawSource
    split
    · rename_i hpos
      simp only [Money.lt_iff, Money.zero_milliunits] at hpos
      have htake : (takeOf (takeOf available shortfall) policy.perMoveCeiling).milliunits =
          min (min (room available) (room shortfall)) policy.perMoveCeiling.milliunits := by
        rw [takeOf_milliunits, takeOf_milliunits, room_of_nonneg (by omega),
          room_of_nonneg (by omega)]
      generalize takeOf (takeOf available shortfall) policy.perMoveCeiling = take at htake
      have hroom : room available = available.milliunits ∧ room shortfall = shortfall.milliunits :=
        ⟨room_of_nonneg (by omega), room_of_nonneg (by omega)⟩
      have hle : 0 < take.milliunits ∧ take.milliunits ≤ available.milliunits ∧
          take.milliunits ≤ shortfall.milliunits := by omega
      simp only
      rw [if_neg (by rw [Money.le_iff, Money.zero_milliunits]; omega)]
      rw [ih (by rw [Money.sub_milliunits]; omega)]
      have hrest : min (room (available - take)) (room (shortfall - take)) =
          min (room available) (room shortfall) - take.milliunits := by
        rw [room_of_nonneg (by rw [Money.sub_milliunits]; omega),
          room_of_nonneg (by rw [Money.sub_milliunits]; omega), Money.sub_milliunits,
          Money.sub_milliunits]
        omega
      rw [hrest]
      simp only [Draw.mk.injEq]
      refine ⟨?_, Money.ext_milliunits ?_, Money.ext_milliunits ?_⟩
      · unfold movesOf
        rw [Lib.chunks_cons hceiling (x := min (room available) (room shortfall)) (by omega),
          List.map_cons, ← htake]
      · simp only [Money.sub_milliunits]; omega
      · simp only [Money.sub_milliunits]; omega
    · rename_i hpos
      simp only [Money.lt_iff, Money.zero_milliunits] at hpos
      apply draw_nothing
      unfold room
      omega

theorem coverNeed_of_met {sources : List Source} {remaining : CategoryId → Money}
    {shortfall : Money} (h : shortfall ≤ Money.zero) :
    coverNeed policy destination sources remaining shortfall = ⟨[], remaining, shortfall⟩ := by
  cases sources with
  | nil => rfl
  | cons source sources => rw [coverNeed, if_pos h]

/-- Leaving the loop once the need is met is the same as drawing nothing more. -/
theorem coverNeed_cons (source : Source) (sources : List Source) (remaining : CategoryId → Money)
    (shortfall : Money) :
    coverNeed policy destination (source :: sources) remaining shortfall =
      let drawn := drawSource policy source.category destination shortfall.milliunits.toNat
        (remaining source.category) shortfall
      let rest := coverNeed policy destination sources
        (Function.update remaining source.category drawn.remaining) drawn.shortfall
      { rest with moves := drawn.moves ++ rest.moves } := by
  by_cases h : shortfall ≤ Money.zero
  · have hfuel : shortfall.milliunits.toNat = 0 := by
      rw [Money.le_iff, Money.zero_milliunits] at h
      omega
    rw [coverNeed_of_met h]
    simp only [hfuel, drawSource, Function.update_eq_self]
    rw [coverNeed_of_met h]
    rfl
  · rw [coverNeed, if_neg h]

end loops

/-! ## Spans -/

section spans
variable {policy : FloorPolicy} {len : Source → Int}

/-- A need that spans from `x` to `y` draws its share of the sources' spans, and leaves what is past
`y`. -/
theorem coverNeed_spec (destination : CategoryId) (hceiling : 0 < policy.perMoveCeiling.milliunits)
    (hlen : ∀ source, 0 ≤ len source) {x y : Int} (hxy : x ≤ y) :
    ∀ {sources : List Source} {a : Int} {remaining : CategoryId → Money} {shortfall : Money},
      (sources.map Source.category).Nodup →
      (∀ p ∈ Lib.laid len a sources, room (remaining p.1.category) = Lib.left x p.2) →
      room shortfall = Lib.left a (x, y) →
      (coverNeed policy destination sources remaining shortfall).moves =
          ((Lib.laid len a sources).flatMap fun p =>
            movesOf policy p.1.category destination (Lib.overlap (x, y) p.2)) ∧
        (∀ p ∈ Lib.laid len a sources,
          room ((coverNeed policy destination sources remaining shortfall).remaining p.1.category) =
            Lib.left y p.2) ∧
        (∀ category ∉ sources.map Source.category,
          (coverNeed policy destination sources remaining shortfall).remaining category =
            remaining category) ∧
        room (coverNeed policy destination sources remaining shortfall).shortfall =
          Lib.left (a + (sources.map len).sum) (x, y) := by
  intro sources
  induction sources with
  | nil =>
    intro a remaining shortfall _ _ hshort
    refine ⟨rfl, ?_, fun _ _ => rfl, ?_⟩
    · intro p hp; cases hp
    · simpa [coverNeed] using hshort
  | cons source sources ih =>
    intro a remaining shortfall hnd hleft hshort
    rw [List.map_cons, List.nodup_cons] at hnd
    rw [coverNeed_cons, drawSource_spec hceiling (Nat.le_refl _)]
    have hroom : room (remaining source.category) = Lib.left x (a, a + len source) :=
      hleft _ List.mem_cons_self
    have hshare : min (room (remaining source.category)) (room shortfall) =
        Lib.overlap (x, y) (a, a + len source) := by
      rw [hroom, hshort, Int.min_comm, Lib.min_left_left hxy]
    rw [hshare]
    have hnonneg : 0 ≤ Lib.overlap (x, y) (a, a + len source) := Lib.overlap_nonneg
    have hdrawn : room (remaining source.category - ⟨Lib.overlap (x, y) (a, a + len source)⟩) =
        Lib.left y (a, a + len source) := by
      rw [room_sub hnonneg (by omega), hroom, Lib.left_sub_overlap hxy]
    have hmet : room (shortfall - ⟨Lib.overlap (x, y) (a, a + len source)⟩) =
        Lib.left (a + len source) (x, y) := by
      have hstep := Lib.left_sub_overlap (s := (x, y))
        (show a ≤ a + len source from by have := hlen source; omega)
      rw [room_sub hnonneg (by omega), hshort, Lib.overlap_comm, hstep]
    have hrest : ∀ p ∈ Lib.laid len (a + len source) sources,
        room (Function.update remaining source.category
          (remaining source.category - ⟨Lib.overlap (x, y) (a, a + len source)⟩) p.1.category) =
            Lib.left x p.2 := by
      intro p hp
      have hne : p.1.category ≠ source.category := by
        intro heq
        exact hnd.1 (heq ▸ List.mem_map_of_mem (Lib.fst_mem_of_laid hp))
      rw [Function.update_of_ne hne]
      exact hleft p (List.mem_cons_of_mem _ hp)
    obtain ⟨hmoves, hremaining, hframe, hshortfall⟩ := ih hnd.2 hrest hmet
    refine ⟨?_, ?_, ?_, ?_⟩
    · simp only [hmoves]
      rw [Lib.laid, List.flatMap_cons]
    · intro p hp
      rcases List.mem_cons.1 hp with rfl | hp
      · simp only
        rw [hframe _ hnd.1, Function.update_self]
        exact hdrawn
      · exact hremaining p hp
    · intro category hcategory
      rw [List.map_cons, List.mem_cons, not_or] at hcategory
      simp only
      rw [hframe category hcategory.2, Function.update_of_ne hcategory.1]
    · simp only
      rw [hshortfall, List.map_cons, List.sum_cons, Int.add_assoc]

/-- What a need asks for. -/
abbrev Need.length (need : Need) : Int := room need.shortfall

/-- The needs in order draw their shares, one after the other. -/
theorem coverNeeds_spec (hceiling : 0 < policy.perMoveCeiling.milliunits)
    (hlen : ∀ source, 0 ≤ len source) {sources : List Source}
    (hnd : (sources.map Source.category).Nodup) :
    ∀ {needs : List Need} {x : Int} {remaining : CategoryId → Money}, 0 ≤ x →
      (∀ p ∈ Lib.laid len 0 sources, room (remaining p.1.category) = Lib.left x p.2) →
      (coverNeeds policy sources needs remaining).moves =
        (Lib.laid Need.length x needs).flatMap fun n =>
          (Lib.laid len 0 sources).flatMap fun p =>
            movesOf policy p.1.category n.1.category (Lib.overlap n.2 p.2) := by
  intro needs
  induction needs with
  | nil => intro x remaining _ _; rfl
  | cons need needs ih =>
    intro x remaining hx hleft
    have hneed := room_nonneg need.shortfall
    have hshort : room need.shortfall = Lib.left 0 (x, x + room need.shortfall) :=
      (Lib.left_of_le hx hneed).symm
    obtain ⟨hmoves, hremaining, -, -⟩ := coverNeed_spec need.category hceiling hlen
      (show x ≤ x + room need.shortfall by omega) hnd hleft hshort
    have hrest := ih (show 0 ≤ x + room need.shortfall by omega) hremaining
    rw [Lib.laid, List.flatMap_cons, coverNeeds]
    simp only [hmoves, hrest]

end spans

/-! ## The plan -/

section plan
variable {policy : FloorPolicy} {needs : List Need} {sources : List Source}

theorem drainOrder_perm (sources : List Source) : (drainOrder sources).Perm sources :=
  List.perm_insertionSort _ _

theorem drainOrder_nodup (hnd : (sources.map Source.category).Nodup) :
    ((drainOrder sources).map Source.category).Nodup :=
  ((drainOrder_perm sources).map _).nodup_iff.2 hnd

/-- With distinct categories, what may be drawn of a source is what it can spare. -/
theorem drawables_of_mem (hnd : (sources.map Source.category).Nodup) {source : Source}
    (hsource : source ∈ sources) : drawables sources source.category = source.drawable := by
  unfold drawables
  rw [Lib.dict_of_mem (v := source.drawable) (by rw [List.map_map]; exact hnd)
    (List.mem_map_of_mem (f := fun s : Source => (s.category, s.drawable)) hsource)]
  rfl

/-- What a source can give. -/
abbrev Source.length (source : Source) : Int := room source.drawable

/-- The donors end to end, in drain order. -/
def pool (sources : List Source) : List (Source × Int × Int) :=
  Lib.laid Source.length 0 (drainOrder sources)

/-- The needs end to end. -/
def demand (needs : List Need) : List (Need × Int × Int) :=
  Lib.laid Need.length 0 needs

theorem mem_of_pool {p : Source × Int × Int} (hp : p ∈ pool sources) : p.1 ∈ sources :=
  (drainOrder_perm sources).mem_iff.1 (Lib.fst_mem_of_laid hp)

theorem mem_of_demand {n : Need × Int × Int} (hn : n ∈ demand needs) : n.1 ∈ needs :=
  Lib.fst_mem_of_laid hn

theorem map_category_pool :
    ((pool sources).map fun p => p.1.category) = (drainOrder sources).map Source.category := by
  unfold pool
  conv_rhs => rw [← Lib.map_fst_laid Source.length 0 (drainOrder sources), List.map_map]
  rfl

/-- **The plan.** From each donor to each need goes what their spans share. -/
theorem planCoverage_moves (hceiling : 0 < policy.perMoveCeiling.milliunits)
    (hnd : (sources.map Source.category).Nodup) :
    (planCoverage needs sources policy).moves =
      (demand needs).flatMap fun n => (pool sources).flatMap fun p =>
        movesOf policy p.1.category n.1.category (Lib.overlap n.2 p.2) := by
  refine coverNeeds_spec hceiling (fun source => room_nonneg _) (drainOrder_nodup hnd)
    (Int.le_refl 0) ?_
  intro p hp
  have hmem : p.1 ∈ sources := (drainOrder_perm sources).mem_iff.1 (Lib.fst_mem_of_laid hp)
  have hspan := Lib.span_of_laid hp
  have hstart : 0 ≤ p.2.1 := Lib.le_start_of_laid (fun source _ => room_nonneg _) hp
  rw [drawables_of_mem hnd hmem]
  have hleft := Lib.left_of_le (x := 0) (a := p.2.1) (b := room p.1.drawable) hstart (room_nonneg _)
  rw [← hleft]
  congr 1
  exact Prod.ext rfl hspan.symm

end plan

/-! ## What the moves pull and bring -/

/-- What the moves bring a destination in total. -/
def received (moves : List BudgetMove) (destination : CategoryId) : Int :=
  ((moves.filter fun move => move.destination = destination).map fun move =>
    move.amount.milliunits).sum

section totals
variable {moves : List BudgetMove} {category : CategoryId}

theorem pulled_eq_sum (moves : List BudgetMove) (category : CategoryId) :
    (pulled moves category).milliunits =
      (moves.map fun move => if move.source = category then move.amount.milliunits else 0).sum :=
  Lib.sum_filter BudgetMove.source _ category moves

theorem received_eq_sum (moves : List BudgetMove) (category : CategoryId) :
    received moves category =
      (moves.map fun move =>
        if move.destination = category then move.amount.milliunits else 0).sum :=
  Lib.sum_filter BudgetMove.destination _ category moves

theorem pulled_append (moves moves' : List BudgetMove) (category : CategoryId) :
    (pulled (moves ++ moves') category).milliunits =
      (pulled moves category).milliunits + (pulled moves' category).milliunits := by
  rw [pulled_eq_sum, List.map_append, List.sum_append, ← pulled_eq_sum, ← pulled_eq_sum]

theorem pulled_flatMap {α : Type} (l : List α) (f : α → List BudgetMove) (category : CategoryId) :
    (pulled (l.flatMap f) category).milliunits =
      (l.map fun a => (pulled (f a) category).milliunits).sum := by
  induction l with
  | nil => rfl
  | cons a l ih => rw [List.flatMap_cons, pulled_append, ih, List.map_cons, List.sum_cons]

/-- A category is changed by what it receives and what is pulled from it. -/
theorem netChange_milliunits (moves : List BudgetMove) (h : category ≠ readyToAssignSource) :
    (netChange moves category).milliunits =
      received moves category - (pulled moves category).milliunits := by
  rw [received_eq_sum, pulled_eq_sum]
  unfold netChange
  induction moves with
  | nil => rfl
  | cons move moves ih =>
    simp only [List.map_cons, List.sum_cons] at ih ⊢
    have hsource : (move.source = category ∧ move.source ≠ readyToAssignSource) ↔
        move.source = category := by
      constructor
      · rintro ⟨hs, -⟩; exact hs
      · intro hs; exact ⟨hs, hs ▸ h⟩
    simp only [hsource]
    rw [ih]
    omega

/-- A pull from Ready-to-Assign is no change of a category. -/
theorem netChange_readyToAssign (moves : List BudgetMove) :
    (netChange moves readyToAssignSource).milliunits = received moves readyToAssignSource := by
  rw [received_eq_sum]
  unfold netChange
  induction moves with
  | nil => rfl
  | cons move moves ih =>
    simp only [List.map_cons, List.sum_cons] at ih ⊢
    have hsource : ¬(move.source = readyToAssignSource ∧ move.source ≠ readyToAssignSource) := by
      rintro ⟨h, hne⟩
      exact hne h
    rw [ih, if_neg hsource]
    omega

/-- A move with an amount pulls from its source. -/
theorem pulled_pos (h : ∀ move ∈ moves, 0 < move.amount.milliunits) {move : BudgetMove}
    (hmove : move ∈ moves) : 0 < (pulled moves move.source).milliunits :=
  Lib.sum_filter_pos BudgetMove.source h hmove

/-- A move with an amount brings it to its destination. -/
theorem received_pos (h : ∀ move ∈ moves, 0 < move.amount.milliunits) {move : BudgetMove}
    (hmove : move ∈ moves) : 0 < received moves move.destination :=
  Lib.sum_filter_pos BudgetMove.destination h hmove

/-- Without a move from it, nothing is pulled from a category. -/
theorem pulled_eq_zero (moves : List BudgetMove) (h : ∀ move ∈ moves, move.source ≠ category) :
    (pulled moves category).milliunits = 0 := by
  rw [pulled_eq_sum]
  exact Lib.sum_of_not_mem h

theorem received_eq_zero (moves : List BudgetMove)
    (h : ∀ move ∈ moves, move.destination ≠ category) : received moves category = 0 := by
  rw [received_eq_sum]
  exact Lib.sum_of_not_mem h

theorem received_nonneg (h : ∀ move ∈ moves, 0 < move.amount.milliunits) :
    0 ≤ received moves category := by
  unfold received
  apply List.sum_nonneg
  intro m hm
  obtain ⟨move, hmove, rfl⟩ := List.mem_map.1 hm
  exact Int.le_of_lt (h move (List.mem_of_mem_filter hmove))

end totals

section readings
variable {policy : FloorPolicy} {needs : List Need} {sources : List Source}

theorem pulled_movesOf (hceiling : 0 < policy.perMoveCeiling.milliunits)
    {source destination category : CategoryId} {amount : Int} (hamount : 0 ≤ amount) :
    (pulled (movesOf policy source destination amount) category).milliunits =
      if source = category then amount else 0 := by
  unfold pulled movesOf
  by_cases h : source = category
  · rw [if_pos h, List.filter_eq_self.2 (by simp [h]), List.map_map]
    have hsum := Lib.sum_chunks hceiling hamount
    rwa [← List.map_id (Lib.chunks _ _)] at hsum
  · rw [if_neg h, List.filter_eq_nil_iff.2 (by simp [h])]
    rfl

/-- What the needs ask for together. -/
def totalDemand (needs : List Need) : Int :=
  (needs.map Need.length).sum

/-- **What a donor gives**: the share of its span with all that is asked for. -/
theorem pulled_planCoverage (needs : List Need) (hceiling : 0 < policy.perMoveCeiling.milliunits)
    (hnd : (sources.map Source.category).Nodup) {p : Source × Int × Int} (hp : p ∈ pool sources) :
    (pulled (planCoverage needs sources policy).moves p.1.category).milliunits =
      Lib.overlap (0, totalDemand needs) p.2 := by
  have hkeys : ((pool sources).map fun p => p.1.category).Nodup := by
    rw [map_category_pool]
    exact drainOrder_nodup hnd
  rw [planCoverage_moves hceiling hnd, pulled_flatMap]
  have hneed : ∀ n : Need × Int × Int, (pulled ((pool sources).flatMap fun q =>
      movesOf policy q.1.category n.1.category (Lib.overlap n.2 q.2)) p.1.category).milliunits =
        Lib.overlap p.2 n.2 := by
    intro n
    simp only [pulled_flatMap, pulled_movesOf hceiling Lib.overlap_nonneg]
    rw [Lib.sum_of_mem (fun q : Source × Int × Int => q.1.category) hkeys hp rfl,
      Lib.overlap_comm]
  simp only [hneed]
  unfold demand
  rw [Lib.sum_overlap_laid (fun need _ => room_nonneg _), Lib.overlap_comm, Int.zero_add]
  rfl

/-- The moves of the plan. -/
theorem mem_planCoverage (hceiling : 0 < policy.perMoveCeiling.milliunits)
    (hnd : (sources.map Source.category).Nodup) {move : BudgetMove} :
    move ∈ (planCoverage needs sources policy).moves ↔
      ∃ n ∈ demand needs, ∃ p ∈ pool sources, move.source = p.1.category ∧
        move.destination = n.1.category ∧ move.amount.milliunits ∈
          Lib.chunks policy.perMoveCeiling.milliunits (Lib.overlap n.2 p.2) := by
  rw [planCoverage_moves hceiling hnd]
  unfold movesOf
  simp only [List.mem_flatMap, List.mem_map]
  constructor
  · rintro ⟨n, hn, p, hp, m, hm, rfl⟩
    exact ⟨n, hn, p, hp, rfl, rfl, hm⟩
  · rintro ⟨n, hn, p, hp, hsource, hdestination, hm⟩
    refine ⟨n, hn, p, hp, _, hm, ?_⟩
    rw [← hsource, ← hdestination]

/-- Each move is positive and under the ceiling. -/
theorem amount_planCoverage (hceiling : 0 < policy.perMoveCeiling.milliunits)
    (hnd : (sources.map Source.category).Nodup) {move : BudgetMove}
    (h : move ∈ (planCoverage needs sources policy).moves) :
    0 < move.amount.milliunits ∧ move.amount.milliunits ≤ policy.perMoveCeiling.milliunits := by
  obtain ⟨n, -, p, -, -, -, hm⟩ := (mem_planCoverage hceiling hnd).1 h
  exact Lib.mem_chunks hceiling hm

/-- A donor gives something when its span is among what is asked for. -/
theorem drawn_iff (hceiling : 0 < policy.perMoveCeiling.milliunits)
    (hnd : (sources.map Source.category).Nodup) {p : Source × Int × Int} (hp : p ∈ pool sources) :
    (∃ move ∈ (planCoverage needs sources policy).moves, move.source = p.1.category) ↔
      0 < Lib.overlap (0, totalDemand needs) p.2 := by
  rw [← pulled_planCoverage needs hceiling hnd hp]
  constructor
  · rintro ⟨move, hmove, hsource⟩
    rw [← hsource]
    exact pulled_pos (fun move h => (amount_planCoverage hceiling hnd h).1) hmove
  · intro hpos
    by_contra hnone
    have hzero := pulled_eq_zero (planCoverage needs sources policy).moves
      fun move hmove hsource => hnone ⟨move, hmove, hsource⟩
    omega

/-- What the donors have to give together. -/
def totalSlack (sources : List Source) : Int :=
  (sources.map Source.length).sum

/-- A category is funded when one of its needs asks for something, and those before it leave
something in the pool. -/
theorem funded_iff (hceiling : 0 < policy.perMoveCeiling.milliunits)
    (hnd : (sources.map Source.category).Nodup) {category : CategoryId} :
    (∃ move ∈ (planCoverage needs sources policy).moves, move.destination = category) ↔
      ∃ n ∈ demand needs, n.1.category = category ∧ 0 < n.1.length ∧
        n.2.1 < totalSlack sources := by
  have hshare : ∀ n ∈ demand needs, (∃ p ∈ pool sources, 0 < Lib.overlap n.2 p.2) ↔
      0 < n.1.length ∧ n.2.1 < totalSlack sources := by
    intro n hn
    have hsum : ((drainOrder sources).map Source.length).sum = totalSlack sources :=
      ((drainOrder_perm sources).map _).sum_eq
    have hspan : n.2.2 = n.2.1 + n.1.length := Lib.span_of_laid hn
    have hstart : 0 ≤ n.2.1 := Lib.le_start_of_laid (fun need _ => room_nonneg _) hn
    unfold pool
    rw [Lib.exists_overlap_laid_iff fun source _ => room_nonneg _, hsum]
    unfold Lib.overlap
    simp only
    omega
  constructor
  · rintro ⟨move, hmove, rfl⟩
    obtain ⟨n, hn, p, hp, -, hdestination, hm⟩ := (mem_planCoverage hceiling hnd).1 hmove
    have hpos := (Lib.exists_mem_chunks_iff hceiling Lib.overlap_nonneg).1 ⟨_, hm⟩
    obtain ⟨hlength, hreached⟩ := (hshare n hn).1 ⟨p, hp, hpos⟩
    exact ⟨n, hn, hdestination.symm, hlength, hreached⟩
  · rintro ⟨n, hn, rfl, hlength, hreached⟩
    obtain ⟨p, hp, hpos⟩ := (hshare n hn).2 ⟨hlength, hreached⟩
    obtain ⟨m, hm⟩ := (Lib.exists_mem_chunks_iff hceiling Lib.overlap_nonneg).2 hpos
    exact ⟨⟨p.1.category, n.1.category, ⟨m⟩⟩,
      (mem_planCoverage hceiling hnd).2 ⟨n, hn, p, hp, rfl, rfl, hm⟩, rfl⟩

/-- No donor gives more than it can spare. -/
theorem pulled_le_length (needs : List Need) (hceiling : 0 < policy.perMoveCeiling.milliunits)
    (hnd : (sources.map Source.category).Nodup) {p : Source × Int × Int} (hp : p ∈ pool sources) :
    (pulled (planCoverage needs sources policy).moves p.1.category).milliunits ≤ p.1.length := by
  rw [pulled_planCoverage needs hceiling hnd hp]
  have hspan : p.2 = (p.2.1, p.2.1 + p.1.length) := Prod.ext rfl (Lib.span_of_laid hp)
  rw [hspan]
  exact Lib.overlap_le_length (room_nonneg _)

/-- The number of moves the shares make, each share cut under the ceiling. -/
def moveCount (policy : FloorPolicy) (needs : List Need) (sources : List Source) : Int :=
  ((demand needs).map fun n => ((pool sources).map fun p =>
    (Lib.overlap n.2 p.2 + policy.perMoveCeiling.milliunits - 1) /
      policy.perMoveCeiling.milliunits).sum).sum

theorem length_planCoverage (needs : List Need)
    (hceiling : 0 < policy.perMoveCeiling.milliunits)
    (hnd : (sources.map Source.category).Nodup) :
    ((planCoverage needs sources policy).moves.length : Int) = moveCount policy needs sources := by
  rw [planCoverage_moves hceiling hnd]
  unfold moveCount movesOf
  simp only [List.length_flatMap, List.length_map, Nat.cast_list_sum, List.map_map,
    Function.comp_def, Lib.chunks_length hceiling Lib.overlap_nonneg]

end readings

end YnabAgent
