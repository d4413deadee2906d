import YnabAgent.Workflow.ReceiptJoins

/-!
# The receipt table over its signals

The receipt ledger folds `park` and `set_status` signals one after the other and never keeps more
than `ledgerCap` receipts (`join/store.py`). A receipt leaves the table only when another is parked
in a full one: a settled receipt if there is one, the one parked longest ago, and else the receipt
that was inserted first.
-/

namespace YnabAgent

/-! ## What a full table loses -/

/-- A table one over the cap loses one receipt: the settled one parked longest ago, or the first of
the table where none is settled. -/
theorem bounded_overfull {table : List Receipt} (hlen : table.length = ledgerCap + 1) :
    (∃ x ∈ table, x.status.isOpen = false ∧
      (∀ y ∈ table, y.status.isOpen = false → x.parkedAt ≤ y.parkedAt) ∧
        bounded table = table.filter fun r => r.id ≠ x.id) ∨
    (∀ y ∈ table, y.status.isOpen = true) ∧ bounded table = table.tail := by
  have hover : ¬ table.length ≤ ledgerCap := by omega
  have hone : table.length - ledgerCap = 1 := by omega
  unfold bounded
  rw [if_neg hover, hone]
  have hmem : ∀ x, x ∈ (table.filter fun r => ¬ r.status.isOpen).insertionSort
      (fun a b => a.parkedAt ≤ b.parkedAt) ↔ x ∈ table ∧ x.status.isOpen = false := by
    intro x
    simp
  have hsorted := List.pairwise_insertionSort (fun a b : Receipt => a.parkedAt ≤ b.parkedAt)
    (table.filter fun r => ¬ r.status.isOpen)
  cases hs : (table.filter fun r => ¬ r.status.isOpen).insertionSort
      (fun a b => a.parkedAt ≤ b.parkedAt) with
  | nil =>
    right
    rw [hs] at hmem
    constructor
    · intro y hy
      by_contra hopen
      exact List.not_mem_nil ((hmem y).2 ⟨hy, Bool.not_eq_true _ ▸ hopen⟩)
    · simp only [List.take_nil, List.map_nil, List.not_mem_nil, not_false_eq_true, decide_true,
        List.filter_true, hone, List.drop_one]
  | cons x rest =>
    left
    rw [hs] at hmem hsorted
    obtain ⟨hx, hsettled⟩ := (hmem x).1 (List.mem_cons_self ..)
    have hshort : (table.filter fun r => r.id ≠ x.id).length < table.length := by
      rw [List.length_filter_lt_length_iff_exists]
      exact ⟨x, hx, by simp⟩
    have hfits : (table.filter fun r => r.id ≠ x.id).length - ledgerCap = 0 := by omega
    refine ⟨x, hx, hsettled, ?_, ?_⟩
    · intro y hy hy'
      rcases List.mem_cons.1 ((hmem y).2 ⟨hy, hy'⟩) with rfl | hrest
      · exact Int.le_refl _
      · exact (List.pairwise_cons.1 hsorted).1 y hrest
    · simp only [List.take_succ_cons, List.take_zero, List.map_cons, List.map_nil,
        List.mem_singleton]
      rw [hfits, List.drop_zero]

theorem bounded_length_le {table : List Receipt} (hlen : table.length ≤ ledgerCap + 1) :
    (bounded table).length ≤ ledgerCap := by
  rcases Nat.lt_or_ge ledgerCap table.length with hover | hfits
  · have hfull : table.length = ledgerCap + 1 := by omega
    rcases bounded_overfull hfull with ⟨x, hx, -, -, heq⟩ | ⟨-, heq⟩
    · have hshort : (table.filter fun r => r.id ≠ x.id).length < table.length := by
        rw [List.length_filter_lt_length_iff_exists]
        exact ⟨x, hx, by simp⟩
      rw [heq]
      omega
    · rw [heq, List.length_tail]
      omega
  · rw [bounded, if_pos hfits]
    exact hfits

namespace ReceiptLedgerState

/-! ## One parked receipt -/

variable {state : ReceiptLedgerState} {receipt x : Receipt}

/-- The receipt just parked stays, however full the table is. -/
theorem mem_park (hcap : state.receipts.length ≤ ledgerCap) (hnew : receipt.id ∉ state.ids)
    (hparked : receipt.status = .parked) : receipt ∈ (state.park receipt).receipts := by
  have hmem : receipt ∈ state.receipts ++ [receipt] :=
    List.mem_append_right _ (List.mem_singleton.2 rfl)
  rw [park_of_not_mem hnew]
  by_cases hfits : (state.receipts ++ [receipt]).length ≤ ledgerCap
  · rw [bounded, if_pos hfits]
    exact hmem
  · have hlen : (state.receipts ++ [receipt]).length = ledgerCap + 1 := by
      rw [List.length_append, List.length_singleton] at hfits ⊢
      omega
    rcases bounded_overfull hlen with ⟨y, hy, hsettled, -, heq⟩ | ⟨-, heq⟩
    · rw [heq]
      refine List.mem_filter.2 ⟨hmem, decide_eq_true ?_⟩
      rcases List.mem_append.1 hy with hold | hself
      · intro hid
        exact hnew (List.mem_map.2 ⟨y, hold, hid.symm⟩)
      · rw [List.mem_singleton.1 hself, hparked] at hsettled
        cases hsettled
    · rw [heq]
      cases hrows : state.receipts with
      | nil =>
        rw [hrows] at hlen
        simp [ledgerCap] at hlen
      | cons first rest => exact List.mem_append_right _ (List.mem_singleton.2 rfl)

/-- What a parked receipt pushes out: the settled receipt parked longest ago, or the first of a
table that is open throughout. -/
theorem evicted_by_park (hcap : state.receipts.length ≤ ledgerCap) (hnd : state.ids.Nodup)
    (hx : x ∈ state.receipts) (hout : x ∉ (state.park receipt).receipts) :
    (x.status.isOpen = false ∧
      ∀ y ∈ state.receipts, y.status.isOpen = false → x.parkedAt ≤ y.parkedAt) ∨
    (∀ y ∈ state.receipts, y.status.isOpen = true) ∧ state.receipts.head? = some x := by
  have hnew : receipt.id ∉ state.ids := by
    intro hid
    rw [park_of_mem hid] at hout
    exact hout hx
  have hold : x ∈ state.receipts ++ [receipt] := List.mem_append_left _ hx
  rw [park_of_not_mem hnew] at hout
  have hover : ¬ (state.receipts ++ [receipt]).length ≤ ledgerCap := by
    intro hfits
    rw [bounded, if_pos hfits] at hout
    exact hout hold
  have hlen : (state.receipts ++ [receipt]).length = ledgerCap + 1 := by
    rw [List.length_append, List.length_singleton] at hover ⊢
    omega
  rcases bounded_overfull hlen with ⟨y, hy, hsettled, hmin, heq⟩ | ⟨hopen, heq⟩
  · left
    have hid : x.id = y.id := by
      by_contra hne
      rw [heq] at hout
      exact hout (List.mem_filter.2 ⟨hold, decide_eq_true hne⟩)
    have hxy : x = y := Lib.eq_of_key_eq (nodup_append hnd hnew) hold hy hid
    rw [hxy]
    exact ⟨hsettled, fun z hz => hmin z (List.mem_append_left _ hz)⟩
  · right
    refine ⟨fun y hy => hopen y (List.mem_append_left _ hy), ?_⟩
    rw [heq] at hout
    cases hrows : state.receipts with
    | nil =>
      rw [hrows] at hx
      cases hx
    | cons first rest =>
      rw [hrows] at hx hout
      rcases List.mem_cons.1 hx with rfl | hrest
      · rfl
      · exact absurd (List.mem_append_left _ hrest) hout

/-! ## A run of signals -/

/-- The ledger after the signals. -/
def replay (signals : List LedgerSignal) : ReceiptLedgerState :=
  signals.foldl fold {}

/-- Whether the signal at `i` put the id into the table. -/
def inserts (signals : List LedgerSignal) (receiptId : ReceiptId) (i : Nat) : Bool :=
  match signals[i]? with
  | some (.park receipt) =>
    decide (receipt.id = receiptId ∧ receiptId ∉ (replay (signals.take i)).ids)
  | _ => false

/-- The position of the signal that last put the id into the table. -/
def insertedAt (signals : List LedgerSignal) (receiptId : ReceiptId) : Option Nat :=
  ((List.range signals.length).filter (inserts signals receiptId)).getLast?

variable {signals : List LedgerSignal} {signal : LedgerSignal} {receiptId : ReceiptId}

theorem replay_concat (signals : List LedgerSignal) (signal : LedgerSignal) :
    replay (signals ++ [signal]) = (replay signals).fold signal := by
  unfold replay
  rw [List.foldl_append]
  rfl

theorem inserts_concat {i : Nat} (h : i < signals.length) :
    inserts (signals ++ [signal]) receiptId i = inserts signals receiptId i := by
  unfold inserts
  rw [List.getElem?_append_left h, List.take_append_of_le_length (Nat.le_of_lt h)]

theorem insertedAt_concat : insertedAt (signals ++ [signal]) receiptId =
    if inserts (signals ++ [signal]) receiptId signals.length then some signals.length
    else insertedAt signals receiptId := by
  have hold : (List.range signals.length).filter (inserts (signals ++ [signal]) receiptId) =
      (List.range signals.length).filter (inserts signals receiptId) :=
    List.filter_congr fun i hi => inserts_concat (List.mem_range.1 hi)
  unfold insertedAt
  rw [List.length_append, List.length_singleton, List.range_succ, List.filter_append, hold,
    List.filter_singleton]
  cases inserts (signals ++ [signal]) receiptId signals.length with
  | true => exact List.getLast?_concat
  | false => rw [Bool.cond_false, List.append_nil, if_neg Bool.false_ne_true]

theorem inserts_park_iff {receipt : Receipt} :
    inserts (signals ++ [.park receipt]) receiptId signals.length = true ↔
      receipt.id = receiptId ∧ receiptId ∉ (replay signals).ids := by
  unfold inserts
  rw [List.getElem?_concat_length, List.take_left]
  exact decide_eq_true_iff

theorem insertedAt_park_self {receipt : Receipt} (h : receipt.id ∉ (replay signals).ids) :
    insertedAt (signals ++ [.park receipt]) receipt.id = some signals.length := by
  rw [insertedAt_concat, if_pos (inserts_park_iff.2 ⟨rfl, h⟩)]

theorem insertedAt_park_of_mem {receipt : Receipt} (h : receiptId ∈ (replay signals).ids) :
    insertedAt (signals ++ [.park receipt]) receiptId = insertedAt signals receiptId := by
  rw [insertedAt_concat, if_neg fun hins => (inserts_park_iff.1 hins).2 h]

theorem insertedAt_setStatus {id : ReceiptId} {status : ReceiptStatus} :
    insertedAt (signals ++ [.setStatus id status]) receiptId = insertedAt signals receiptId := by
  have hnot : inserts (signals ++ [.setStatus id status]) receiptId signals.length = false := by
    unfold inserts
    rw [List.getElem?_concat_length]
  rw [insertedAt_concat, hnot, if_neg Bool.false_ne_true]

/-- What holds of the table after any signals: it is within the cap, its ids are distinct, and it is
in the order of insertion. -/
structure Ordered (signals : List LedgerSignal) : Prop where
  cap : (replay signals).receipts.length ≤ ledgerCap
  nodup : (replay signals).ids.Nodup
  inserted : ∀ id ∈ (replay signals).ids, ∃ i < signals.length, insertedAt signals id = some i
  order : (replay signals).ids.Pairwise fun a b =>
    ∀ i j, insertedAt signals a = some i → insertedAt signals b = some j → i < j

theorem Ordered.setStatus (h : Ordered signals) (id : ReceiptId) (status : ReceiptStatus) :
    Ordered (signals ++ [.setStatus id status]) := by
  have hids : (replay (signals ++ [.setStatus id status])).ids = (replay signals).ids := by
    rw [replay_concat]
    exact setStatus_ids
  have hlen : (replay (signals ++ [.setStatus id status])).receipts.length =
      (replay signals).receipts.length := by
    have := congrArg List.length hids
    rwa [ids, ids, List.length_map, List.length_map] at this
  refine ⟨hlen ▸ h.cap, hids ▸ h.nodup, ?_, ?_⟩
  · intro k hk
    rw [hids] at hk
    obtain ⟨i, hi, hat⟩ := h.inserted k hk
    rw [insertedAt_setStatus, List.length_append]
    exact ⟨i, Nat.lt_of_lt_of_le hi (Nat.le_add_right _ _), hat⟩
  · rw [hids]
    refine h.order.imp fun {a b} hab => ?_
    rw [insertedAt_setStatus, insertedAt_setStatus]
    exact hab

theorem Ordered.park (h : Ordered signals) (receipt : Receipt) :
    Ordered (signals ++ [.park receipt]) := by
  have hnd' : ((replay signals).park receipt).ids.Nodup := park_ids_nodup h.nodup receipt
  by_cases hknown : receipt.id ∈ (replay signals).ids
  · have hsame : replay (signals ++ [.park receipt]) = replay signals := by
      rw [replay_concat]
      exact park_of_mem hknown
    refine ⟨hsame ▸ h.cap, hsame ▸ h.nodup, ?_, ?_⟩
    · intro k hk
      rw [hsame] at hk
      obtain ⟨i, hi, hat⟩ := h.inserted k hk
      rw [insertedAt_park_of_mem hk, List.length_append]
      exact ⟨i, Nat.lt_of_lt_of_le hi (Nat.le_add_right _ _), hat⟩
    · rw [hsame]
      refine h.order.imp_of_mem fun {a b} ha hb hab => ?_
      rw [insertedAt_park_of_mem ha, insertedAt_park_of_mem hb]
      exact hab
  · have hnew : replay (signals ++ [.park receipt]) =
        ⟨bounded ((replay signals).receipts ++ [receipt])⟩ := by
      rw [replay_concat]
      exact park_of_not_mem hknown
    have hsub : (replay (signals ++ [.park receipt])).ids.Sublist
        ((replay signals).ids ++ [receipt.id]) := by
      rw [hnew]
      have := (bounded_sublist ((replay signals).receipts ++ [receipt])).map Receipt.id
      rwa [List.map_append] at this
    refine ⟨?_, ?_, ?_, ?_⟩
    · rw [hnew]
      refine bounded_length_le ?_
      rw [List.length_append, List.length_singleton]
      exact Nat.add_le_add_right h.cap 1
    · rw [replay_concat]
      exact hnd'
    · intro k hk
      rw [List.length_append, List.length_singleton]
      rcases List.mem_append.1 (hsub.mem hk) with hold | hself
      · obtain ⟨i, hi, hat⟩ := h.inserted k hold
        exact ⟨i, Nat.lt_succ_of_lt hi, (insertedAt_park_of_mem hold).trans hat⟩
      · rw [List.mem_singleton.1 hself]
        exact ⟨_, Nat.lt_succ_self _, insertedAt_park_self hknown⟩
    · refine List.Pairwise.sublist hsub
        (List.pairwise_append.2 ⟨?_, List.pairwise_singleton _ _, ?_⟩)
      · refine h.order.imp_of_mem fun {a b} ha hb hab => ?_
        rw [insertedAt_park_of_mem ha, insertedAt_park_of_mem hb]
        exact hab
      · intro a ha b hb i j hi hj
        rw [List.mem_singleton.1 hb, insertedAt_park_self hknown] at hj
        rw [insertedAt_park_of_mem ha] at hi
        obtain ⟨i', hi', hat⟩ := h.inserted a ha
        cases hi.symm.trans hat
        cases hj
        exact hi'

theorem ordered (signals : List LedgerSignal) : Ordered signals := by
  induction signals using List.reverseRecOn with
  | nil => exact ⟨Nat.zero_le _, List.nodup_nil, nofun, List.Pairwise.nil⟩
  | append_singleton signals signal ih =>
    cases signal with
    | park receipt => exact ih.park receipt
    | setStatus id status => exact ih.setStatus id status

/-- The first receipt of the table is the earliest inserted. -/
theorem insertedAt_head_le (h : (replay signals).receipts.head? = some x) {y : Receipt}
    (hy : y ∈ (replay signals).receipts) :
    ∃ i j, insertedAt signals x.id = some i ∧ insertedAt signals y.id = some j ∧ i ≤ j := by
  have hx : x ∈ (replay signals).receipts := List.mem_of_head? h
  obtain ⟨i, -, hi⟩ := (ordered signals).inserted x.id (List.mem_map_of_mem hx)
  obtain ⟨j, -, hj⟩ := (ordered signals).inserted y.id (List.mem_map_of_mem hy)
  refine ⟨i, j, hi, hj, ?_⟩
  obtain ⟨rest, hrows⟩ : ∃ rest, (replay signals).receipts = x :: rest :=
    List.head?_eq_some_iff.1 h
  have horder := (ordered signals).order
  unfold ids at horder
  rw [hrows, List.map_cons, List.pairwise_cons] at horder
  rw [hrows] at hy
  rcases List.mem_cons.1 hy with rfl | hrest
  · exact Nat.le_of_eq (Option.some.inj (hi.symm.trans hj))
  · exact Nat.le_of_lt (horder.1 y.id (List.mem_map_of_mem hrest) i j hi hj)

/-- **What the receipt table keeps.** After any signals from an empty table it is within the cap and
its ids are distinct, and a parked receipt that comes next stays and changes nothing where its id is
held; an open receipt it pushes out leaves a table open throughout, as the earliest inserted, and a
settled one is the one parked longest ago of those settled. Setting a status drops nothing. -/
theorem table_keeps_open_receipts (signals : List LedgerSignal) :
    (replay signals).receipts.length ≤ ledgerCap ∧ (replay signals).ids.Nodup ∧
    (∀ receipt : Receipt, receipt.status = .parked →
      (receipt.id ∈ (replay signals).ids → (replay signals).park receipt = replay signals) ∧
      (receipt.id ∉ (replay signals).ids → receipt ∈ ((replay signals).park receipt).receipts) ∧
      ∀ x ∈ (replay signals).receipts, x ∉ ((replay signals).park receipt).receipts →
        (x.status.isOpen = true →
          (∀ y ∈ (replay signals).receipts, y.status.isOpen = true) ∧
          ∀ y ∈ (replay signals).receipts, ∃ i j, insertedAt signals x.id = some i ∧
            insertedAt signals y.id = some j ∧ i ≤ j) ∧
        (x.status.isOpen = false →
          ∀ y ∈ (replay signals).receipts, y.status.isOpen = false → x.parkedAt ≤ y.parkedAt)) ∧
    ∀ (receiptId : ReceiptId) (status : ReceiptStatus),
      ((replay signals).setStatus receiptId status).ids = (replay signals).ids := by
  obtain ⟨hcap, hnd, -, -⟩ := ordered signals
  refine ⟨hcap, hnd, ?_, fun _ _ => setStatus_ids⟩
  intro receipt hparked
  refine ⟨park_of_mem, fun hnew => mem_park hcap hnew hparked, ?_⟩
  intro x hx hout
  rcases evicted_by_park hcap hnd hx hout with ⟨hsettled, hmin⟩ | ⟨hopen, hhead⟩
  · constructor
    · intro hxopen
      rw [hsettled] at hxopen
      cases hxopen
    · intro _
      exact hmin
  · constructor
    · intro _
      exact ⟨hopen, fun y hy => insertedAt_head_le hhead hy⟩
    · intro hsettled
      rw [hopen x hx] at hsettled
      cases hsettled

/-- A receipt by its number, parked at that moment. -/
def numbered (n : Nat) : Receipt where
  id := String.singleton (Char.ofNat (n + 32))
  parkedAt := n

/-- A hundred receipts are parked, and two of them matched. -/
def fullTable : List LedgerSignal :=
  (List.range ledgerCap).map (fun n => .park (numbered n)) ++
    [.setStatus (numbered 40).id .matched, .setStatus (numbered 17).id .matched]

/-- The next receipt pushes out the one of the two that was parked before the other. -/
theorem table_keeps_open_receipts_full :
    ∃ x ∈ (replay fullTable).receipts,
      x ∉ ((replay fullTable).park (numbered ledgerCap)).receipts ∧ x.id = (numbered 17).id ∧
        ∀ y ∈ (replay fullTable).receipts, y.status.isOpen = false → x.parkedAt ≤ y.parkedAt := by
  have hx : { numbered 17 with status := .matched } ∈ (replay fullTable).receipts := by
    decide +kernel
  have hout : { numbered 17 with status := .matched } ∉
      ((replay fullTable).park (numbered ledgerCap)).receipts := by
    decide +kernel
  have hparked := (table_keeps_open_receipts fullTable).2.2.1 (numbered ledgerCap) rfl
  exact ⟨_, hx, hout, rfl, (hparked.2.2 _ hx hout).2 rfl⟩

end ReceiptLedgerState

end YnabAgent
