import YnabAgent.Domain.Receipt
import YnabAgent.Domain.Transaction
import YnabAgent.Join.Match
import YnabAgent.Lib.Shortlist
import Mathlib.Data.Prod.Lex

/-!
# The candidate pool and the exact shortcut

The deterministic part of matching a receipt (`workflow/receipt_activities.py`): the
transactions that may belong to it, ranked by amount and date and capped, and the match by
arithmetic where exactly one of them agrees to the cent. The cap comes before uniqueness is
judged, and the rank puts a closer amount on a wrong date before an exact match, so a crowd of
near misses can hide one (`exactSingleMatch_candidatePool_iff`).
-/

namespace YnabAgent

def amountToleranceMilli : Nat := 20

def exactMilli : Nat := 5

/-- In days, like `shortcutDateWindow`. -/
def dateWindow : Nat := 3

def shortcutDateWindow : Nat := 1

def maxCandidates : Nat := 12

/-- How far the amount is from the receipt's total, where it has one. -/
def magnitudeGap (snapshot : YnabSnapshot) (receipt : Receipt) : Option Nat :=
  receipt.total.map fun total =>
    ((snapshot.amount.milliunits.natAbs : Int) - total.milliunits).natAbs

/-- The days between posting and the receipt, where it has a date. -/
def dateGap (snapshot : YnabSnapshot) (receipt : Receipt) : Option Nat :=
  receipt.date.map fun date => (snapshot.txnDate - date).natAbs

/-- Whether the transaction may belong to the receipt: an outflow that is no transfer, near in
amount or in date. -/
def admits (receipt : Receipt) (snapshot : YnabSnapshot) : Bool :=
  if 0 ≤ snapshot.amount.milliunits then false
  else if "Transfer".toList.isPrefixOf snapshot.payee.toList then false
  else if magnitudeGap snapshot receipt = none ∧ dateGap snapshot receipt = none then true
  else if (magnitudeGap snapshot receipt).any (· ≤ amountToleranceMilli) then true
  else (dateGap snapshot receipt).any (· ≤ dateWindow)

/-- The amount gap, then the date gap. -/
def rank (receipt : Receipt) (snapshot : YnabSnapshot) : Nat ×ₗ Nat :=
  toLex ((magnitudeGap snapshot receipt).getD (10 ^ 9), (dateGap snapshot receipt).getD (10 ^ 9))

/-- The transactions plausibly belonging to the receipt, the nearest first. -/
def candidatePool (receipt : Receipt) (transactions : List YnabSnapshot) : List YnabSnapshot :=
  Lib.shortlist (rank receipt) maxCandidates (transactions.filter (admits receipt))

/-- Whether the transaction agrees with the receipt to the cent, and within a day of its date. -/
def agrees (receipt : Receipt) (snapshot : YnabSnapshot) : Bool :=
  (magnitudeGap snapshot receipt).any (· ≤ exactMilli) &&
    (dateGap snapshot receipt).all (· ≤ shortcutDateWindow)

/-- The no-model shortcut: the one transaction of the pool that agrees. -/
def exactSingleMatch (receipt : Receipt) (pool : List YnabSnapshot) : Option YnabTransactionId :=
  if receipt.total = none then none
  else
    match pool.filter (agrees receipt) with
    | [snapshot] => some snapshot.ynabId
    | _ => none

/-! ## The shortcut by counting -/

variable {receipt : Receipt} {pool transactions : List YnabSnapshot}

theorem agrees_total {snapshot : YnabSnapshot} (h : receipt.total = none) :
    agrees receipt snapshot = false := by
  unfold agrees magnitudeGap
  rw [h]
  rfl

theorem exactSingleMatch_of_one {snapshot : YnabSnapshot}
    (h : pool.filter (agrees receipt) = [snapshot]) :
    exactSingleMatch receipt pool = some snapshot.ynabId := by
  have htotal : receipt.total ≠ none := by
    intro hnone
    have hmem : snapshot ∈ pool.filter (agrees receipt) := h ▸ List.mem_singleton.2 rfl
    have hagrees := (List.mem_filter.1 hmem).2
    rw [agrees_total hnone] at hagrees
    cases hagrees
  rw [exactSingleMatch, if_neg htotal, h]

theorem exactSingleMatch_of_count_ne (h : pool.countP (agrees receipt) ≠ 1) :
    exactSingleMatch receipt pool = none := by
  rw [List.countP_eq_length_filter] at h
  unfold exactSingleMatch
  split
  · rfl
  · split
    · rename_i hone
      rw [hone] at h
      exact absurd rfl h
    · rfl

/-- The shortcut answers where exactly one transaction agrees. -/
theorem exactSingleMatch_isSome_iff :
    (exactSingleMatch receipt pool).isSome = true ↔ pool.countP (agrees receipt) = 1 := by
  constructor
  · intro h
    by_contra hne
    rw [exactSingleMatch_of_count_ne hne] at h
    cases h
  · intro h
    rw [List.countP_eq_length_filter] at h
    obtain ⟨snapshot, hone⟩ := List.length_eq_one_iff.1 h
    rw [exactSingleMatch_of_one hone]
    rfl

theorem candidatePool_subperm (receipt : Receipt) (transactions : List YnabSnapshot) :
    (candidatePool receipt transactions).Subperm (transactions.filter (admits receipt)) :=
  (Lib.shortlist_sublist _ _ _).subperm.trans (List.perm_insertionSort _ _).subperm

/-- A transaction that agrees is ranked with its like. -/
theorem agrees_of_rank_eq {a b : YnabSnapshot} (h : rank receipt a = rank receipt b) :
    agrees receipt a = agrees receipt b := by
  have hpair := toLex.injective h
  obtain ⟨hamount, hdate⟩ := Prod.mk.inj hpair
  have hgap : magnitudeGap a receipt = magnitudeGap b receipt := by
    revert hamount
    unfold magnitudeGap
    cases receipt.total with
    | none => intro _; rfl
    | some total =>
      intro heq
      exact congrArg some heq
  have hdays : dateGap a receipt = dateGap b receipt := by
    revert hdate
    unfold dateGap
    cases receipt.date with
    | none => intro _; rfl
    | some date =>
      intro heq
      exact congrArg some heq
  unfold agrees
  rw [hgap, hdays]

/-! ## What the cap hides -/

/-- The admitted transactions that do not agree and rank before `snapshot`. -/
def nearMisses (receipt : Receipt) (transactions : List YnabSnapshot) (snapshot : YnabSnapshot) :
    Nat :=
  Lib.crowd (rank receipt) (agrees receipt) (transactions.filter (admits receipt)) snapshot

/-- How many admitted transactions agree and have at most `maxCandidates - k` near misses ahead. -/
def inReach (receipt : Receipt) (transactions : List YnabSnapshot) (k : Nat) : Nat :=
  (transactions.filter (admits receipt)).countP fun snapshot =>
    agrees receipt snapshot && decide (nearMisses receipt transactions snapshot + k ≤ maxCandidates)

/-- No near misses decide the answer: one transaction that agrees has room in the pool, and of
several with room for one there is room for two. -/
def Uncrowded (receipt : Receipt) (transactions : List YnabSnapshot) : Prop :=
  let agreeing := (transactions.filter (admits receipt)).countP (agrees receipt)
  (agreeing = 1 → 1 ≤ inReach receipt transactions 1) ∧
    (2 ≤ agreeing → 1 ≤ inReach receipt transactions 1 → 2 ≤ inReach receipt transactions 2)

instance (receipt : Receipt) (transactions : List YnabSnapshot) :
    Decidable (Uncrowded receipt transactions) :=
  inferInstanceAs (Decidable (_ ∧ _))

theorem le_countP_candidatePool (k : Nat) :
    k ≤ (candidatePool receipt transactions).countP (agrees receipt) ↔
      k ≤ inReach receipt transactions k :=
  Lib.le_countP_shortlist (fun _ _ => agrees_of_rank_eq) k

/-- The pool and all that is admitted have one transaction that agrees at the same time. -/
theorem uncrowded_iff : Uncrowded receipt transactions ↔
    ((candidatePool receipt transactions).countP (agrees receipt) = 1 ↔
      (transactions.filter (admits receipt)).countP (agrees receipt) = 1) := by
  have hle := (candidatePool_subperm receipt transactions).countP_le (agrees receipt)
  unfold Uncrowded
  simp only [← le_countP_candidatePool]
  omega

/-- **The shortcut over the pool against the shortcut over all that is admitted.** They give the
same answer exactly where no near misses decide it. -/
theorem exactSingleMatch_candidatePool_iff (receipt : Receipt) (transactions : List YnabSnapshot) :
    exactSingleMatch receipt (candidatePool receipt transactions) =
        exactSingleMatch receipt (transactions.filter (admits receipt)) ↔
      Uncrowded receipt transactions := by
  rw [uncrowded_iff, ← exactSingleMatch_isSome_iff, ← exactSingleMatch_isSome_iff]
  constructor
  · intro h
    rw [h]
  · intro hiff
    by_cases hpool : (candidatePool receipt transactions).countP (agrees receipt) = 1
    · have hall : (transactions.filter (admits receipt)).countP (agrees receipt) = 1 :=
        exactSingleMatch_isSome_iff.1 (hiff.1 (exactSingleMatch_isSome_iff.2 hpool))
      rw [List.countP_eq_length_filter] at hpool hall
      obtain ⟨a, ha⟩ := List.length_eq_one_iff.1 hpool
      obtain ⟨b, hb⟩ := List.length_eq_one_iff.1 hall
      have hab : a = b := by
        have hsub := ((candidatePool_subperm receipt transactions).filter (agrees receipt)).subset
        rw [ha, hb] at hsub
        exact List.mem_singleton.1 (hsub (List.mem_singleton.2 rfl))
      rw [exactSingleMatch_of_one ha, exactSingleMatch_of_one hb, hab]
    · have hall : (transactions.filter (admits receipt)).countP (agrees receipt) ≠ 1 := by
        intro h
        exact hpool (exactSingleMatch_isSome_iff.1 (hiff.2 (exactSingleMatch_isSome_iff.2 h)))
      rw [exactSingleMatch_of_count_ne hpool, exactSingleMatch_of_count_ne hall]

/-- A purchase posted on `day`, of so many milliunits. -/
def purchase (id : YnabTransactionId) (milliunits : Int) (day : Date) : YnabSnapshot where
  ynabId := id
  account := "checking"
  payee := "Corner Cafe"
  amount := ⟨-milliunits⟩
  txnDate := day

/-- Two purchases agree with the receipt; eleven of its amount five days later come between them. -/
def crowdedWindow : List YnabSnapshot :=
  purchase "first" 10000 100 ::
    (List.replicate 11 (purchase "later" 10000 105) ++ [purchase "second" 10005 100])

/-- The cap hides the second one, and the first is reported as the only one. -/
theorem exactSingleMatch_hides_second :
    ∃ (receipt : Receipt) (transactions : List YnabSnapshot),
      (transactions.filter (admits receipt)).countP (agrees receipt) = 2 ∧
        exactSingleMatch receipt (candidatePool receipt transactions) = some "first" ∧
        exactSingleMatch receipt (transactions.filter (admits receipt)) = none := by
  refine ⟨{ id := "r1", parkedAt := 0, date := some 100, total := some ⟨10000⟩ }, crowdedWindow, ?_⟩
  decide +kernel

/-- Ahead of a transaction that agrees to the milliunit are only those that agree. -/
theorem agrees_of_ahead {x y : YnabSnapshot} (hx : agrees receipt x = true)
    (hgap : magnitudeGap x receipt = some 0) (hlt : rank receipt y < rank receipt x) :
    agrees receipt y = true := by
  have hdays : (dateGap x receipt).all (· ≤ shortcutDateWindow) = true :=
    (Bool.and_eq_true_iff.1 hx).2
  unfold rank at hlt
  rw [Prod.Lex.toLex_lt_toLex, hgap, Option.getD_some] at hlt
  obtain hneg | ⟨heq, hearlier⟩ := hlt
  · exact absurd hneg (Nat.not_lt_zero _)
  · obtain ⟨total, htotal, -⟩ := Option.map_eq_some_iff.1 hgap
    have hy : magnitudeGap y receipt = some 0 := by
      unfold magnitudeGap at heq ⊢
      rw [htotal] at heq ⊢
      exact congrArg some heq
    unfold agrees
    rw [hy, Option.any_some]
    refine Bool.and_eq_true_iff.2 ⟨decide_eq_true (Nat.zero_le _), ?_⟩
    unfold dateGap at hearlier hdays ⊢
    cases hdate : receipt.date with
    | none => rfl
    | some date =>
      rw [hdate] at hearlier hdays
      have hclose : (x.txnDate - date).natAbs ≤ shortcutDateWindow := of_decide_eq_true hdays
      have hcloser : (y.txnDate - date).natAbs < (x.txnDate - date).natAbs := hearlier
      exact decide_eq_true (Nat.le_of_lt (Nat.lt_of_lt_of_le hcloser hclose))

/-- Amounts in whole cents leave no room for a near miss ahead of an exact match. -/
theorem uncrowded_of_cents (hreceipt : ∀ total ∈ receipt.total, 10 ∣ total.milliunits)
    (htransactions : ∀ t ∈ transactions, 10 ∣ t.amount.milliunits) :
    Uncrowded receipt transactions := by
  have hnone : ∀ x ∈ transactions.filter (admits receipt), agrees receipt x = true →
      nearMisses receipt transactions x = 0 := by
    intro x hx hagrees
    -- To within half a cent is then to the milliunit.
    have hgap : magnitudeGap x receipt = some 0 := by
      obtain ⟨gap, hgap, hle⟩ :=
        (Option.any_eq_true _ _).1 (Bool.and_eq_true_iff.1 hagrees).1
      obtain ⟨total, htotal, rfl⟩ := Option.map_eq_some_iff.1 hgap
      have htotal10 := hreceipt total htotal
      have hx10 := htransactions x (List.mem_filter.1 hx).1
      have hclose := of_decide_eq_true hle
      unfold exactMilli at hclose
      have hzero : ((x.amount.milliunits.natAbs : Int) - total.milliunits).natAbs = 0 := by omega
      rw [hgap, hzero]
    refine List.countP_eq_zero.2 fun y _ hahead => ?_
    obtain ⟨hnot, hlt⟩ := Bool.and_eq_true_iff.1 hahead
    rw [agrees_of_ahead hagrees hgap (of_decide_eq_true hlt)] at hnot
    cases hnot
  have hreach : ∀ k ≤ maxCandidates, inReach receipt transactions k =
      (transactions.filter (admits receipt)).countP (agrees receipt) := by
    intro k hk
    refine List.countP_congr fun x hx => ?_
    constructor
    · intro h
      exact (Bool.and_eq_true_iff.1 h).1
    · intro h
      refine Bool.and_eq_true_iff.2 ⟨h, decide_eq_true ?_⟩
      rw [hnone x hx h, Nat.zero_add]
      exact hk
  unfold Uncrowded
  simp only [hreach 1 (by decide), hreach 2 (by decide)]
  omega

end YnabAgent
