import YnabAgent.Domain.Receipt
import YnabAgent.Lib.Trim

/-!
# What a memo keeps of itself

A receipt is folded into a memo by one text: the trimmed memo, with the receipt's detail appended
where it is not in it, cut at the cap. The memo survives iff it fits the cap (`keeps_memo_iff`). The
text is its own trimmed text iff neither end of it is a blank (`strip_receiptMemo_iff`), and folding
the receipt into such a text changes nothing (`receiptMemo_receiptMemo`).
-/

namespace YnabAgent

section texts
variable (text : PyText)

/-- The detail of a receipt: its items, or the summary where none has a description. -/
def receiptDetail (receipt : Receipt) : String :=
  (itemsBrief text receipt).getD (receiptSummary text receipt)

/-- The memo without the blanks around it. -/
def trimmedMemo (memo : Option String) : String := text.strip (memo.getD "")

/-- The memo after the fold, before it is cut. -/
def mergedMemo (receipt : Receipt) (memo : Option String) : String :=
  if trimmedMemo text memo = "" then receiptDetail text receipt
  else if isInText (text.lower (receiptDetail text receipt))
      (text.lower (trimmedMemo text memo)) then
    trimmedMemo text memo
  else trimmedMemo text memo ++ " · " ++ receiptDetail text receipt

end texts

/-! ## The merge -/

section merge
variable {text : PyText} {receipt : Receipt} {memo : Option String}

theorem toList_receiptMemo (text : PyText) (receipt : Receipt) (memo : Option String) :
    (receiptMemo text receipt memo).toList = (mergedMemo text receipt memo).toList.take memoCap :=
  String.toList_ofList

theorem toList_ne_nil {s : String} (h : s ≠ "") : s.toList ≠ [] := fun hnil =>
  h (String.toList_inj.1 hnil)

theorem ne_empty_of_append {s t : String} (h : s ≠ "") : s ++ t ≠ "" := fun hempty =>
  h (String.append_eq_empty_iff.1 hempty).1

theorem joinText_cons_cons (sep part part' : String) (parts : List String) :
    joinText sep (part :: part' :: parts) = part ++ (sep ++ joinText sep (part' :: parts)) := by
  unfold joinText
  rw [← String.toList_inj]
  simp [String.toList_intercalate]

theorem joinText_ne_empty {part : String} (h : part ≠ "") (sep : String) (parts : List String) :
    joinText sep (part :: parts) ≠ "" := by
  cases parts with
  | nil => exact h
  | cons part' parts =>
    rw [joinText_cons_cons]
    exact ne_empty_of_append h

/-- A list of items begins with the names it shows. -/
theorem itemsBrief_eq_some {items : String} (h : itemsBrief text receipt = some items) :
    ∃ names rest, names ≠ [] ∧ (∀ name ∈ names, name ≠ "") ∧
      items = joinText ", " names ++ rest := by
  unfold itemsBrief at h
  simp only at h
  split at h
  · cases h
  · rename_i hnames
    have hstripped : ∀ name ∈ (receipt.lineItems.map fun item =>
        text.strip item.description).filter (· ≠ ""), name ≠ "" :=
      fun name hname => by simpa using (List.mem_filter.1 hname).2
    generalize (receipt.lineItems.map fun item => text.strip item.description).filter (· ≠ "")
      = names at h hnames hstripped
    have hshown : names.take summaryItems ≠ [] := by simpa [summaryItems] using hnames
    refine ⟨names.take summaryItems, ?_⟩
    split at h
    · cases h
      refine ⟨" (+" ++ toString (names.length - summaryItems) ++ " more)", hshown,
        fun name hname => hstripped name (List.mem_of_mem_take hname), ?_⟩
      rw [String.append_assoc, String.append_assoc, String.append_assoc]
    · cases h
      refine ⟨"", hshown, fun name hname => hstripped name (List.mem_of_mem_take hname), ?_⟩
      rw [String.append_empty]

theorem itemsBrief_ne_empty {items : String} (h : itemsBrief text receipt = some items) :
    items ≠ "" := by
  obtain ⟨names, rest, hne, hnames, rfl⟩ := itemsBrief_eq_some h
  obtain ⟨name, names, rfl⟩ := List.exists_cons_of_ne_nil hne
  exact ne_empty_of_append (joinText_ne_empty (hnames name List.mem_cons_self) ", " names)

/-- A receipt always has some detail. -/
theorem receiptDetail_ne_empty (text : PyText) (receipt : Receipt) :
    receiptDetail text receipt ≠ "" := by
  unfold receiptDetail
  cases hitems : itemsBrief text receipt with
  | some items => exact itemsBrief_ne_empty hitems
  | none =>
    unfold receiptSummary
    rw [hitems, Option.getD_none]
    simp only
    split
    · assumption
    · decide

theorem mergedMemo_ne_empty (text : PyText) (receipt : Receipt) (memo : Option String) :
    mergedMemo text receipt memo ≠ "" := by
  unfold mergedMemo
  split
  · exact receiptDetail_ne_empty text receipt
  · rename_i hcurrent
    split
    · exact hcurrent
    · exact ne_empty_of_append (ne_empty_of_append hcurrent)

/-- The merge keeps the memo in front of what it appends. -/
theorem trimmedMemo_prefix_mergedMemo (text : PyText) (receipt : Receipt) (memo : Option String) :
    (trimmedMemo text memo).toList <+: (mergedMemo text receipt memo).toList := by
  unfold mergedMemo
  split
  · rename_i hempty
    rw [hempty]
    exact List.nil_prefix
  · split
    · exact List.prefix_rfl
    · rw [String.append_assoc, String.toList_append]
      exact List.prefix_append ..

/-- A merge that fits the cap is not cut. -/
theorem receiptMemo_of_fits (h : (mergedMemo text receipt memo).length ≤ memoCap) :
    receiptMemo text receipt memo = mergedMemo text receipt memo := by
  rw [← String.toList_inj, toList_receiptMemo, List.take_of_length_le]
  rwa [String.length_toList]

/-- A memo that fills the cap is what the fold cuts, and nothing is appended. -/
theorem receiptMemo_of_full (receipt : Receipt) (h : memoCap ≤ (trimmedMemo text memo).length) :
    receiptMemo text receipt memo = textPrefix memoCap (trimmedMemo text memo) := by
  rw [← String.toList_inj, toList_receiptMemo]
  unfold textPrefix
  rw [String.toList_ofList]
  obtain ⟨rest, hrest⟩ := trimmedMemo_prefix_mergedMemo text receipt memo
  rw [← hrest, List.take_append_of_le_length]
  rwa [String.length_toList]

/-- **What a fold keeps of the memo**: all of it exactly when it fits the cap. -/
theorem keeps_memo_iff (text : PyText) (receipt : Receipt) (memo : Option String) :
    (trimmedMemo text memo).toList <+: (receiptMemo text receipt memo).toList ↔
      (trimmedMemo text memo).length ≤ memoCap := by
  rw [toList_receiptMemo, List.prefix_take_iff, String.length_toList]
  exact and_iff_right (trimmedMemo_prefix_mergedMemo text receipt memo)

end merge

/-! ## Blanks -/

/-- `str.strip` drops the blanks at both ends, and `str.lower` maps what stands on the two sides of
a space apart. -/
structure PyText.Lawful (text : PyText) (isSpace : Char → Bool) : Prop where
  strip : ∀ s, (text.strip s).toList = Lib.trim isSpace s.toList
  lower : ∀ s t, text.lower (s ++ " " ++ t) = text.lower s ++ " " ++ text.lower t
  space : isSpace ' ' = true
  dot : isSpace '·' = false

theorem PyText.ascii_lawful : PyText.ascii.Lawful Char.isWhitespace where
  strip s := String.toList_ofList
  lower s t := by
    rw [← String.toList_inj]
    simp [PyText.ascii]
  space := by decide
  dot := by decide

/-- A text that neither begins nor ends with a blank. -/
def Unpadded (isSpace : Char → Bool) (s : String) : Prop :=
  Lib.StartsOutside isSpace s.toList ∧ Lib.EndsOutside isSpace s.toList

/-- Cut after `n` characters, the text does not end in a blank. -/
def CutsClean (isSpace : Char → Bool) (n : Nat) (s : String) : Prop :=
  Lib.EndsOutside isSpace (s.toList.take n)

/-- The ends of the fold are no blanks. Into an empty memo, the detail begins without one and is not
cut behind one; into a memo that has the detail, the memo is not cut behind one; otherwise the cut
falls behind a character of the detail, behind the dot, or behind a character of the memo. -/
def FoldsClean (text : PyText) (isSpace : Char → Bool) (receipt : Receipt) (memo : Option String) :
    Prop :=
  let current := trimmedMemo text memo
  let detail := receiptDetail text receipt
  if current = "" then Lib.StartsOutside isSpace detail.toList ∧ CutsClean isSpace memoCap detail
  else if isInText (text.lower detail) (text.lower current) then CutsClean isSpace memoCap current
  else
    (current.length + 3 < memoCap ∧ CutsClean isSpace (memoCap - (current.length + 3)) detail) ∨
      current.length + 2 = memoCap ∨
      (memoCap ≤ current.length ∧ CutsClean isSpace memoCap current)

section blanks
variable {text : PyText} {isSpace : Char → Bool} {receipt : Receipt} {memo : Option String}

theorem PyText.Lawful.strip_eq_self_iff (h : text.Lawful isSpace) {s : String} :
    text.strip s = s ↔ Unpadded isSpace s := by
  rw [← String.toList_inj, h.strip, Lib.trim_eq_self_iff]
  rfl

theorem PyText.Lawful.unpadded_strip (h : text.Lawful isSpace) (s : String) :
    Unpadded isSpace (text.strip s) := by
  unfold Unpadded
  rw [h.strip]
  exact ⟨Lib.startsOutside_trim isSpace _, Lib.endsOutside_trim isSpace _⟩

/-- Where the cut falls behind the memo. -/
theorem endsOutside_separated_iff (h : text.Lawful isSpace) {detail : List Char} (hd : detail ≠ [])
    {k : Nat} (hk : 0 < k) :
    Lib.EndsOutside isSpace ((" · ".toList ++ detail).take k) ↔
      k = 2 ∨ (3 < k ∧ Lib.EndsOutside isSpace (detail.take (k - 3))) := by
  have hsep : " · ".toList = [' ', '·', ' '] := rfl
  rw [hsep]
  by_cases hlong : 3 < k
  · rw [Lib.endsOutside_take_append_iff hlong hd]
    constructor
    · exact fun hend => .inr ⟨hlong, hend⟩
    · rintro (rfl | hend)
      · omega
      · exact hend.2
  · rw [List.take_append_of_le_length (by simp; omega)]
    obtain rfl | rfl | rfl : k = 1 ∨ k = 2 ∨ k = 3 := by omega
    · simp [Lib.EndsOutside, h.space]
    · simp [Lib.EndsOutside, h.dot]
    · simp [Lib.EndsOutside, h.space]

/-- Where the cut falls in a memo with the detail behind it. -/
theorem cutsClean_appended_iff (h : text.Lawful isSpace) {current detail : String}
    (hd : detail ≠ "") :
    CutsClean isSpace memoCap (current ++ " · " ++ detail) ↔
      (current.length + 3 < memoCap ∧ CutsClean isSpace (memoCap - (current.length + 3)) detail) ∨
        current.length + 2 = memoCap ∨
        (memoCap ≤ current.length ∧ CutsClean isSpace memoCap current) := by
  have hlength : current.toList.length = current.length := String.length_toList
  unfold CutsClean
  rw [String.append_assoc, String.toList_append, String.toList_append]
  by_cases hlong : memoCap ≤ current.length
  · rw [List.take_append_of_le_length (by omega)]
    constructor
    · exact fun hend => .inr (.inr ⟨hlong, hend⟩)
    · rintro (hend | hend | hend)
      · omega
      · omega
      · exact hend.2
  · have hne : " · ".toList ++ detail.toList ≠ [] := fun hnil => by simp at hnil
    rw [Lib.endsOutside_take_append_iff (by omega) hne,
      endsOutside_separated_iff h (toList_ne_nil hd) (by omega), hlength, Nat.sub_sub]
    constructor
    · rintro (hdot | ⟨hroom, hend⟩)
      · exact .inr (.inl (by omega))
      · exact .inl ⟨by omega, hend⟩
    · rintro (⟨hroom, hend⟩ | hdot | hcut)
      · exact .inr ⟨by omega, hend⟩
      · exact .inl (by omega)
      · exact absurd hcut.1 hlong

/-- **The fold needs no trimming** exactly when its ends are no blanks. -/
theorem strip_receiptMemo_iff (h : text.Lawful isSpace) (receipt : Receipt) (memo : Option String) :
    text.strip (receiptMemo text receipt memo) = receiptMemo text receipt memo ↔
      FoldsClean text isSpace receipt memo := by
  have hd := receiptDetail_ne_empty text receipt
  have hstart : Lib.StartsOutside isSpace (trimmedMemo text memo).toList := (h.unpadded_strip _).1
  rw [h.strip_eq_self_iff]
  unfold Unpadded
  rw [toList_receiptMemo, Lib.startsOutside_take_iff (by decide)]
  change _ ∧ CutsClean isSpace memoCap _ ↔ _
  unfold mergedMemo FoldsClean
  simp only
  split
  · exact .rfl
  · rename_i hcurrent
    split
    · exact and_iff_right hstart
    · rw [← cutsClean_appended_iff h hd]
      refine and_iff_right ?_
      rw [String.append_assoc, String.toList_append,
        Lib.startsOutside_append_iff (toList_ne_nil hcurrent)]
      exact hstart

/-! ## The fold again -/

/-- The merge has the detail in it, whatever the case of its letters. -/
theorem detail_in_mergedMemo (h : text.Lawful isSpace) (receipt : Receipt) (memo : Option String) :
    isInText (text.lower (receiptDetail text receipt))
      (text.lower (mergedMemo text receipt memo)) = true := by
  unfold mergedMemo
  split
  · exact decide_eq_true (List.infix_refl _)
  · split
    · assumption
    · have hsplit : trimmedMemo text memo ++ " · " ++ receiptDetail text receipt
          = trimmedMemo text memo ++ " ·" ++ " " ++ receiptDetail text receipt := by
        rw [String.append_assoc, String.append_assoc, String.append_assoc]
        rfl
      rw [hsplit, h.lower]
      unfold isInText
      rw [String.toList_append]
      exact decide_eq_true (List.suffix_append ..).isInfix

theorem length_receiptMemo_le (text : PyText) (receipt : Receipt) (memo : Option String) :
    (receiptMemo text receipt memo).length ≤ memoCap := by
  rw [← String.length_toList, toList_receiptMemo]
  exact List.length_take_le ..

/-- **Folding again changes nothing** where the first fold needs no trimming. -/
theorem receiptMemo_receiptMemo (h : text.Lawful isSpace)
    (hstrip : text.strip (receiptMemo text receipt memo) = receiptMemo text receipt memo) :
    receiptMemo text receipt (some (receiptMemo text receipt memo))
      = receiptMemo text receipt memo := by
  generalize hw : receiptMemo text receipt memo = w at hstrip
  have hcurrent : trimmedMemo text (some w) = w := hstrip
  have hcap : textPrefix memoCap w = w := by
    unfold textPrefix
    rw [List.take_of_length_le, String.ofList_toList]
    rw [String.length_toList, ← hw]
    exact length_receiptMemo_le ..
  by_cases hcut : (mergedMemo text receipt memo).length ≤ memoCap
  · -- nothing was cut, so the detail is found
    have hmerged : mergedMemo text receipt memo = w := by
      rw [← hw, receiptMemo_of_fits hcut]
    have hne : w ≠ "" := hmerged ▸ mergedMemo_ne_empty text receipt memo
    have hfound := detail_in_mergedMemo h receipt memo
    rw [hmerged] at hfound
    have hagain : mergedMemo text receipt (some w) = w := by
      unfold mergedMemo
      rw [hcurrent, if_neg hne, if_pos hfound]
    calc receiptMemo text receipt (some w)
        = textPrefix memoCap (mergedMemo text receipt (some w)) := rfl
      _ = w := by rw [hagain, hcap]
  · -- the text fills the cap, so what is appended is cut off
    have hfull : memoCap ≤ w.length := by
      rw [← hw, ← String.length_toList, toList_receiptMemo, List.length_take, String.length_toList]
      omega
    rw [receiptMemo_of_full receipt (by rwa [hcurrent]), hcurrent, hcap]

end blanks

end YnabAgent
