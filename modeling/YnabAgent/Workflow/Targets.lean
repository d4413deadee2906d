import YnabAgent.Lib.Overwrites
import YnabAgent.Workflow.Balance

/-!
# The targets of a plan

The amounts a plan sets are absolute. They move each category by what the moves bring it and take
from it, so together by what is drawn from Ready-to-Assign, which is itself never written; and as
writes they replace each other, so that a pass broken off anywhere and made again leaves the budget
of one clean pass (`moveTargets_conserves`).
-/

namespace YnabAgent

/-! ## What the targets change -/

section targets
variable {moves moves' : List BudgetMove} {budgeted : CategoryId → Option Money}

theorem changed_nodup (moves : List BudgetMove) : (changed moves).Nodup :=
  (Lib.nodup_eraseDups _).filter _

/-- What a move changes a category by. -/
def BudgetMove.leg (move : BudgetMove) (category : CategoryId) : Int :=
  (if move.destination = category then move.amount.milliunits else 0) -
    if move.source = category ∧ move.source ≠ readyToAssignSource then move.amount.milliunits else 0

theorem netChange_eq_sum (moves : List BudgetMove) (category : CategoryId) :
    (netChange moves category).milliunits = (moves.map fun move => move.leg category).sum := rfl

theorem sum_ite_eq_of_mem {categories : List CategoryId} (hnd : categories.Nodup)
    {category : CategoryId} (hmem : category ∈ categories) (amount : Int) :
    (categories.map fun c => if category = c then amount else 0).sum = amount := by
  simp only [eq_comm (a := category)]
  exact Lib.sum_of_mem (fun c : CategoryId => c) (by simpa using hnd) hmem rfl

theorem sum_map_sub (categories : List CategoryId) (f g : CategoryId → Int) :
    (categories.map fun c => f c - g c).sum = (categories.map f).sum - (categories.map g).sum := by
  induction categories with
  | nil => rfl
  | cons c categories ih =>
    simp only [List.map_cons, List.sum_cons, ih]
    omega

/-- The legs of a move cancel, unless it is from Ready-to-Assign. -/
theorem sum_leg {categories : List CategoryId} (hnd : categories.Nodup) {move : BudgetMove}
    (hdestination : move.destination ∈ categories)
    (hsource : move.source ≠ readyToAssignSource → move.source ∈ categories) :
    (categories.map fun category => move.leg category).sum =
      if move.source = readyToAssignSource then move.amount.milliunits else 0 := by
  unfold BudgetMove.leg
  rw [sum_map_sub, sum_ite_eq_of_mem hnd hdestination]
  split
  · rename_i hready
    simp [hready]
  · rename_i hreal
    simp only [hreal, ne_eq, not_false_eq_true, and_true]
    rw [sum_ite_eq_of_mem hnd (hsource hreal), Int.sub_self]

/-- The changes of the categories the moves are between add up to what is drawn from
Ready-to-Assign. -/
theorem sum_netChange {categories : List CategoryId} (hnd : categories.Nodup)
    (hmem : ∀ move ∈ moves, move.destination ∈ categories ∧
      (move.source ≠ readyToAssignSource → move.source ∈ categories)) :
    (categories.map fun category => (netChange moves category).milliunits).sum =
      (pulled moves readyToAssignSource).milliunits := by
  rw [pulled_eq_sum]
  simp only [netChange_eq_sum]
  induction moves with
  | nil => simp
  | cons move moves ih =>
    rw [List.forall_mem_cons] at hmem
    simp only [List.map_cons, List.sum_cons]
    rw [List.sum_map_add, sum_leg hnd hmem.1.1 hmem.1.2, ih hmem.2]

theorem sum_changed (moves : List BudgetMove) :
    ((changed moves).map fun category => (netChange moves category).milliunits).sum =
      (pulled moves readyToAssignSource).milliunits := by
  have hall : ((touched moves).map fun category => (netChange moves category).milliunits).sum =
      (pulled moves readyToAssignSource).milliunits := by
    refine sum_netChange (Lib.nodup_eraseDups _) fun move hmove => ⟨?_, fun hreal => ?_⟩
    · exact mem_touched.2 ⟨move, hmove, .inl rfl⟩
    · exact mem_touched.2 ⟨move, hmove, .inr ⟨rfl, hreal⟩⟩
  rw [← hall]
  unfold changed
  generalize touched moves = categories
  induction categories with
  | nil => rfl
  | cons category categories ih =>
    rw [List.map_cons, List.sum_cons, ← ih]
    by_cases hzero : (netChange moves category).milliunits = 0
    · rw [List.filter_cons_of_neg (by simpa using hzero), hzero, Int.zero_add]
    · rw [List.filter_cons_of_pos (by simpa using hzero), List.map_cons, List.sum_cons]

/-- The order of the moves does not matter. -/
theorem netChange_perm (h : moves'.Perm moves) (category : CategoryId) :
    netChange moves' category = netChange moves category :=
  Money.ext_milliunits ((h.map _).sum_eq)

theorem changed_perm (h : moves'.Perm moves) : (changed moves').Perm (changed moves) := by
  rw [List.perm_ext_iff_of_nodup (changed_nodup _) (changed_nodup _)]
  intro category
  simp only [changed_iff, netChange_perm h, h.mem_iff]

/-- Where the targets set nothing, the moves change nothing. -/
theorem netChange_of_not_changed {category : CategoryId} (h : category ∉ changed moves)
    (hreal : category ≠ readyToAssignSource) : (netChange moves category).milliunits = 0 := by
  by_contra hnet
  apply h
  refine changed_iff.2 ⟨hnet, ?_⟩
  by_contra hnone
  apply hnet
  rw [netChange_milliunits moves hreal, received_eq_zero, pulled_eq_zero]
  · rfl
  · intro move hmove heq
    exact hnone ⟨move, hmove, .inr ⟨heq.symm, heq ▸ hreal⟩⟩
  · intro move hmove heq
    exact hnone ⟨move, hmove, .inl heq.symm⟩

end targets

/-! ## Writing them -/

namespace YnabBudget

variable (budget : YnabBudget) (category : CategoryId) (target : Money)

/-- `set_category_budgeted` for each target in order. -/
def writeAll (targets : Targets) : YnabBudget :=
  Lib.writeAll setBudgeted budget targets

theorem writeAll_cons (t : CategoryId × Money) (targets : Targets) :
    budget.writeAll (t :: targets) = (budget.setBudgeted t.1 t.2).writeAll targets := rfl

/-- What a write makes of a category. -/
def put (wire : WireCategory) : WireCategory :=
  if wire.id = category then
    { wire with
      budgeted := target.milliunits
      balance := wire.balance + (target.milliunits - wire.budgeted) }
  else wire

theorem put_id (wire : WireCategory) : (put category target wire).id = wire.id := by
  unfold put
  split <;> rfl

theorem setBudgeted_groups : (budget.setBudgeted category target).groups =
    budget.groups.map fun group =>
      { group with categories := group.categories.map (put category target) } := rfl

theorem readBudgeted_setBudgeted (other : CategoryId) :
    (budget.setBudgeted category target).readBudgeted other =
      if other = category then (budget.readBudgeted other).map fun _ => target
      else budget.readBudgeted other := by
  have hwires : (budget.setBudgeted category target).groups.flatMap WireCategoryGroup.categories =
      (budget.groups.flatMap WireCategoryGroup.categories).map (put category target) := by
    rw [setBudgeted_groups, List.flatMap_map, List.map_flatMap]
  unfold readBudgeted YnabBudget.category
  rw [hwires, List.find?_map]
  have hid : ((fun wire : WireCategory => decide (wire.id = other)) ∘ put category target) =
      fun wire => decide (wire.id = other) := by
    funext wire
    simp only [Function.comp_apply, put_id]
  rw [hid, Option.map_map]
  cases hfind : (budget.groups.flatMap WireCategoryGroup.categories).find?
    fun wire => decide (wire.id = other) with
  | none => simp
  | some wire =>
    have hwire : wire.id = other := by simpa using List.find?_some hfind
    unfold put
    by_cases heq : other = category
    · simp [heq, hwire]
    · simp [heq, hwire]

/-- What a write takes from Ready-to-Assign. -/
def charge : Int :=
  ((budget.readBudgeted category).map fun budgeted =>
    target.milliunits - budgeted.milliunits).getD 0

theorem setBudgeted_readyToAssign :
    (budget.setBudgeted category target).readyToAssign.milliunits =
      budget.readyToAssign.milliunits - budget.charge category target := by
  unfold setBudgeted charge
  cases budget.readBudgeted category with
  | none => exact (Int.sub_zero _).symm
  | some budgeted => rfl

theorem eq_of_parts {a b : YnabBudget} (hgroups : a.groups = b.groups)
    (hready : a.readyToAssign.milliunits = b.readyToAssign.milliunits) : a = b := by
  obtain ⟨groups, readyToAssign⟩ := a
  cases hgroups
  cases Money.ext_milliunits hready
  rfl

theorem put_put (wire : WireCategory) (target' : Money) :
    put category target' (put category target wire) = put category target' wire := by
  unfold put
  by_cases hid : wire.id = category
  · simp only [hid, if_true, WireCategory.mk.injEq, true_and, and_true]
    omega
  · simp only [hid, if_false]

theorem put_comm (wire : WireCategory) {category' : CategoryId} (hne : category ≠ category')
    (target' : Money) :
    put category' target' (put category target wire) =
      put category target (put category' target' wire) := by
  by_cases hid : wire.id = category
  · have hid' : wire.id ≠ category' := hid ▸ hne
    unfold put
    simp only [hid, if_true, hne, if_false]
  · unfold put
    by_cases hid' : wire.id = category'
    · simp only [hid', if_true, Ne.symm hne, if_false]
    · simp only [hid, hid', if_false]

/-- A write replaces the last one to its category, and does not mind the others. -/
theorem setBudgeted_absolute : Lib.Absolute setBudgeted where
  overwrite budget category target target' := by
    apply eq_of_parts
    · simp only [setBudgeted_groups, List.map_map, Function.comp_def, put_put]
    · simp only [setBudgeted_readyToAssign, charge, readBudgeted_setBudgeted, if_true]
      cases budget.readBudgeted category with
      | none => simp
      | some budgeted =>
        simp only [Option.map_some, Option.getD_some]
        omega
  commute budget category target category' target' hne := by
    apply eq_of_parts
    · simp only [setBudgeted_groups, List.map_map, Function.comp_def,
        put_comm _ _ _ hne]
    · simp only [setBudgeted_readyToAssign, charge, readBudgeted_setBudgeted, if_neg hne,
        if_neg (Ne.symm hne)]
      omega

end YnabBudget

/-! ## The law -/

section law
variable {moves : List BudgetMove} {budgeted : CategoryId → Option Money}

/-- The destinations are categories, and the budget knows every category the moves are between. -/
structure MovesKnown (moves : List BudgetMove) (budgeted : CategoryId → Option Money) : Prop where
  real : ∀ move ∈ moves, move.destination ≠ readyToAssignSource
  destination : ∀ move ∈ moves, (budgeted move.destination).isSome = true
  source : ∀ move ∈ moves, move.source ≠ readyToAssignSource →
    (budgeted move.source).isSome = true

theorem MovesKnown.perm {moves' : List BudgetMove} (h : MovesKnown moves budgeted)
    (hperm : moves'.Perm moves) : MovesKnown moves' budgeted where
  real move hmove := h.real move (hperm.mem_iff.1 hmove)
  destination move hmove := h.destination move (hperm.mem_iff.1 hmove)
  source move hmove := h.source move (hperm.mem_iff.1 hmove)

/-- The changed categories, each at its budgeted amount and its net change. -/
def targetsOf (moves : List BudgetMove) (budgeted : CategoryId → Option Money) : Targets :=
  (changed moves).map fun category =>
    (category, (budgeted category).getD ⟨0⟩ + netChange moves category)

theorem targetsOf_keys (moves : List BudgetMove) (budgeted : CategoryId → Option Money) :
    (targetsOf moves budgeted).map Prod.fst = changed moves := by
  unfold targetsOf
  rw [List.map_map]
  exact List.map_id' _

theorem targetsOf_nodup (moves : List BudgetMove) (budgeted : CategoryId → Option Money) :
    ((targetsOf moves budgeted).map Prod.fst).Nodup := by
  rw [targetsOf_keys]
  exact changed_nodup moves

theorem mem_targetsOf {category : CategoryId} (hmem : category ∈ changed moves) {amount : Money}
    (hamount : budgeted category = some amount) :
    (category, amount + netChange moves category) ∈ targetsOf moves budgeted :=
  List.mem_map.2 ⟨category, hmem, by rw [hamount]; rfl⟩

namespace MovesKnown

theorem of_changed (h : MovesKnown moves budgeted) {category : CategoryId}
    (hmem : category ∈ changed moves) : ∃ amount, budgeted category = some amount := by
  obtain ⟨-, move, hmove, rfl | ⟨rfl, hreal⟩⟩ := changed_iff.1 hmem
  · exact Option.isSome_iff_exists.1 (h.destination move hmove)
  · exact Option.isSome_iff_exists.1 (h.source move hmove hreal)

theorem moveTargets_eq (h : MovesKnown moves budgeted) :
    moveTargets moves budgeted = .ok (targetsOf moves budgeted) :=
  moveTargets_of_known fun _ hmem => Option.isSome_iff_exists.2 (h.of_changed hmem)

theorem readyToAssign_not_changed (h : MovesKnown moves budgeted) :
    readyToAssignSource ∉ changed moves := by
  intro hmem
  obtain ⟨-, move, hmove, heq | ⟨heq, hreal⟩⟩ := changed_iff.1 hmem
  · exact h.real move hmove heq.symm
  · exact hreal heq.symm

end MovesKnown

/-- **The targets of a plan.** They move each known category by what it receives less what is taken
from it, and together by what is drawn from Ready-to-Assign, which is not among them; in whatever
order the moves stand they are the same; and to write any first part of them, and then all of them
any number of times, leaves the budget as one clean pass does. -/
theorem moveTargets_conserves (h : MovesKnown moves budgeted) :
    ∃ targets, moveTargets moves budgeted = .ok targets ∧ (targets.map Prod.fst).Nodup ∧
      (∀ category amount, category ≠ readyToAssignSource → budgeted category = some amount →
        ((Lib.dict targets category).getD amount).milliunits =
          amount.milliunits + (received moves category - (pulled moves category).milliunits)) ∧
      (targets.map fun target =>
        target.2.milliunits - ((budgeted target.1).getD Money.zero).milliunits).sum =
          (pulled moves readyToAssignSource).milliunits ∧
      readyToAssignSource ∉ targets.map Prod.fst ∧
      (∀ moves' : List BudgetMove, moves'.Perm moves →
        ∃ targets', moveTargets moves' budgeted = .ok targets' ∧ targets'.Perm targets) ∧
      ∀ (budget : YnabBudget) (written : Targets) (n : Nat), written <+: targets →
        (fun budget : YnabBudget => budget.writeAll targets)^[n + 1] (budget.writeAll written) =
          budget.writeAll targets := by
  refine ⟨_, h.moveTargets_eq, targetsOf_nodup moves budgeted, ?_, ?_, ?_, ?_, ?_⟩
  · intro category amount hreal hamount
    rw [← netChange_milliunits moves hreal]
    by_cases hmem : category ∈ changed moves
    · rw [Lib.dict_of_mem (targetsOf_nodup moves budgeted) (mem_targetsOf hmem hamount)]
      rfl
    · rw [Lib.dict_eq_none, netChange_of_not_changed hmem hreal, Int.add_zero]
      · rfl
      · intro target htarget heq
        apply hmem
        rw [← targetsOf_keys moves budgeted, ← heq]
        exact List.mem_map_of_mem htarget
  · rw [← sum_changed]
    unfold targetsOf
    rw [List.map_map]
    congr 1
    apply List.map_congr_left
    intro category hmem
    obtain ⟨amount, hamount⟩ := h.of_changed hmem
    simp only [Function.comp_apply, hamount, Option.getD_some, Money.add_milliunits]
    omega
  · rw [targetsOf_keys]
    exact h.readyToAssign_not_changed
  · intro moves' hperm
    refine ⟨_, (h.perm hperm).moveTargets_eq, ?_⟩
    unfold targetsOf
    simp only [netChange_perm hperm]
    exact (changed_perm hperm).map _
  · intro budget written n hwritten
    refine (Lib.writeAll_iterate YnabBudget.setBudgeted_absolute _ n).trans ?_
    exact Lib.writeAll_writeAll YnabBudget.setBudgeted_absolute
      (fun target htarget => List.mem_map_of_mem (hwritten.subset htarget)) budget

end law

/-- A plan from Ready-to-Assign and from savings, to dining and on to fuel. -/
def chainMoves : List BudgetMove :=
  [⟨readyToAssignSource, "dining", ⟨40000⟩⟩, ⟨"savings", "dining", ⟨10000⟩⟩,
    ⟨"dining", "fuel", ⟨5000⟩⟩]

/-- The targets it has where each category is budgeted a hundred dollars. -/
theorem chain_conserves : ∃ targets,
    moveTargets chainMoves (fun _ => some ⟨100000⟩) = .ok targets ∧
      targets = [("dining", ⟨145000⟩), ("savings", ⟨90000⟩), ("fuel", ⟨105000⟩)] ∧
      ∀ budget : YnabBudget, (budget.writeAll [("dining", ⟨145000⟩)]).writeAll targets =
        budget.writeAll targets := by
  have hknown : MovesKnown chainMoves fun _ => some ⟨100000⟩ :=
    ⟨(by decide), fun _ _ => rfl, fun _ _ _ => rfl⟩
  obtain ⟨targets, htargets, -, -, -, -, -, hretried⟩ := moveTargets_conserves hknown
  have heq : targets = [("dining", ⟨145000⟩), ("savings", ⟨90000⟩), ("fuel", ⟨105000⟩)] :=
    Except.ok.inj (htargets.symm.trans (by decide +kernel))
  subst heq
  refine ⟨_, htargets, rfl, fun budget => hretried budget [("dining", ⟨145000⟩)] 0 ?_⟩
  exact List.prefix_cons_inj _ |>.2 (List.nil_prefix)

end YnabAgent
