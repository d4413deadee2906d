import Mathlib.Data.List.Nodup
import Mathlib.Data.List.Infix
import Mathlib.Algebra.BigOperators.Group.List.Basic
import Mathlib.Algebra.Order.BigOperators.Group.List
import Mathlib.Algebra.Order.Ring.Int

/-!
# Computations that may fail, and keyed tables

`bind_eq_ok` and `map_eq_ok` take a computation that returned apart. A table is a list of rows under
a key: `updateAt` rewrites the rows of one key, and with distinct keys a row is what its key looks
up. A dictionary is read off its entries, the last under a key counting. The last section takes a
message out of a bag and looks at the images of those left.
-/

namespace Lib

universe u v

/-- From a computation that returned, its first part returned. -/
theorem bind_eq_ok {ε : Type u} {α β : Type v} {x : Except ε α} {f : α → Except ε β} {b : β}
    (h : (x >>= f) = .ok b) : ∃ a, x = .ok a ∧ f a = .ok b := by
  cases x with
  | error e => cases h
  | ok a => exact ⟨a, rfl, h⟩

theorem map_eq_ok {ε : Type u} {α β : Type v} {x : Except ε α} {f : α → β} {b : β}
    (h : f <$> x = .ok b) : ∃ a, x = .ok a ∧ f a = b := by
  cases x with
  | error e => cases h
  | ok a => exact ⟨a, rfl, Except.ok.inj h⟩

/-- A list of computations returns when each of them does. -/
theorem mapM_eq_ok_iff {ε : Type u} {α : Type*} {β : Type u} {f : α → Except ε β} {xs : List α}
    {ys : List β} : xs.mapM f = .ok ys ↔ List.Forall₂ (fun x y => f x = .ok y) xs ys := by
  induction xs generalizing ys with
  | nil =>
    constructor
    · intro h; cases h; exact .nil
    · intro h; cases h; rfl
  | cons x xs ih =>
    rw [List.mapM_cons]
    constructor
    · intro h
      obtain ⟨y, hy, h⟩ := bind_eq_ok h
      obtain ⟨rest, hrest, h⟩ := bind_eq_ok h
      cases h
      exact .cons hy (ih.1 hrest)
    · intro h
      cases h with
      | cons hy hrest =>
        rw [hy, ih.2 hrest]
        rfl

/-- Two checks in a row refuse nothing when neither applies. -/
theorem checks_eq_none_iff {α : Type*} {p q : Prop} [Decidable p] [Decidable q] {a b : α} :
    (if p then some a else if q then some b else none) = none ↔ ¬ p ∧ ¬ q := by
  by_cases hp : p
  · simp [hp]
  · by_cases hq : q
    · simp [hp, hq]
    · simp [hp, hq]

/-! ## Keyed tables -/

section table
variable {α κ : Type*} [DecidableEq κ] (key : α → κ)

/-- Rewrite every row under the key `k`. -/
def updateAt (k : κ) (f : α → α) (rows : List α) : List α :=
  rows.map fun a => if key a = k then f a else a

/-- The first row under the key `k`. -/
def lookup (k : κ) (rows : List α) : Option α :=
  rows.find? fun a => key a = k

variable {key} {k : κ} {f : α → α} {rows : List α} {a : α}

theorem mem_of_lookup (h : lookup key k rows = some a) : a ∈ rows ∧ key a = k := by
  unfold lookup at h
  exact ⟨List.mem_of_find?_eq_some h, by simpa using List.find?_some h⟩

theorem not_mem_of_lookup (h : lookup key k rows = none) : ∀ a ∈ rows, key a ≠ k := by
  intro a ha
  have := List.find?_eq_none.1 h a ha
  simpa using this

/-- A row of the rewritten table is an untouched row or the rewrite of a row under `k`. -/
theorem mem_updateAt :
    a ∈ updateAt key k f rows ↔
      (a ∈ rows ∧ key a ≠ k) ∨ ∃ b ∈ rows, key b = k ∧ a = f b := by
  unfold updateAt
  rw [List.mem_map]
  constructor
  · rintro ⟨b, hb, rfl⟩
    by_cases hk : key b = k
    · exact .inr ⟨b, hb, hk, by rw [if_pos hk]⟩
    · rw [if_neg hk]; exact .inl ⟨hb, hk⟩
  · rintro (⟨ha, hk⟩ | ⟨b, hb, hk, rfl⟩)
    · exact ⟨a, ha, if_neg hk⟩
    · exact ⟨b, hb, if_pos hk⟩

/-- A rewrite that keeps the key keeps the keys. -/
theorem map_key_updateAt (hf : ∀ a, key a = k → key (f a) = k) :
    (updateAt key k f rows).map key = rows.map key := by
  unfold updateAt
  rw [List.map_map]
  apply List.map_congr_left
  intro a _
  by_cases hk : key a = k
  · rw [Function.comp_apply, if_pos hk, hf a hk, hk]
  · rw [Function.comp_apply, if_neg hk]

omit [DecidableEq κ] in
/-- With distinct keys a key names one row. -/
theorem eq_of_key_eq (hnd : (rows.map key).Nodup) {a b : α} (ha : a ∈ rows) (hb : b ∈ rows)
    (h : key a = key b) : a = b :=
  List.inj_on_of_nodup_map hnd ha hb h

/-- With distinct keys a row is what its key looks up. -/
theorem lookup_of_mem (hnd : (rows.map key).Nodup) (ha : a ∈ rows) (hk : key a = k) :
    lookup key k rows = some a := by
  cases hl : lookup key k rows with
  | none => exact absurd hk (not_mem_of_lookup hl a ha)
  | some b =>
    obtain ⟨hb, hkb⟩ := mem_of_lookup hl
    rw [eq_of_key_eq hnd hb ha (hkb.trans hk.symm)]

theorem lookup_updateAt_self (hf : ∀ a, key a = k → key (f a) = k) :
    lookup key k (updateAt key k f rows) = (lookup key k rows).map f := by
  unfold lookup updateAt
  induction rows with
  | nil => rfl
  | cons b rows ih =>
    by_cases hk : key b = k
    · rw [List.map_cons, if_pos hk, List.find?_cons_of_pos (by simpa using hf b hk),
        List.find?_cons_of_pos (by simpa using hk)]
      rfl
    · rw [List.map_cons, if_neg hk, List.find?_cons_of_neg (by simpa using hk),
        List.find?_cons_of_neg (by simpa using hk), ih]

theorem lookup_updateAt_of_ne {k' : κ} (hne : k' ≠ k) (hf : ∀ a, key a = k → key (f a) = k) :
    lookup key k' (updateAt key k f rows) = lookup key k' rows := by
  unfold lookup updateAt
  induction rows with
  | nil => rfl
  | cons b rows ih =>
    rw [List.map_cons]
    by_cases hk : key b = k
    · have hb : key b ≠ k' := fun h => hne (h.symm.trans hk)
      have hfb : key (f b) ≠ k' := fun h => hne (h.symm.trans (hf b hk))
      rw [if_pos hk, List.find?_cons_of_neg (by simpa using hfb),
        List.find?_cons_of_neg (by simpa using hb), ih]
    · rw [if_neg hk]
      by_cases hk' : key b = k'
      · rw [List.find?_cons_of_pos (by simpa using hk'),
          List.find?_cons_of_pos (by simpa using hk')]
      · rw [List.find?_cons_of_neg (by simpa using hk'),
          List.find?_cons_of_neg (by simpa using hk'), ih]

/-- A rewrite that keeps what `g` reads keeps the column `g`. -/
theorem map_updateAt {β : Type*} {g : α → β} (hg : ∀ a ∈ rows, key a = k → g (f a) = g a) :
    (updateAt key k f rows).map g = rows.map g := by
  unfold updateAt
  rw [List.map_map]
  apply List.map_congr_left
  intro a ha
  by_cases hk : key a = k
  · rw [Function.comp_apply, if_pos hk, hg a ha hk]
  · rw [Function.comp_apply, if_neg hk]

/-- A second column stays distinct when one row is replaced iff no other row holds the new value. -/
theorem nodup_updateAt_iff {β : Type*} {g : α → β} (hnd : (rows.map key).Nodup)
    (hg : (rows.map g).Nodup) (ha : a ∈ rows) (b : α) :
    ((updateAt key (key a) (fun _ => b) rows).map g).Nodup ↔
      ∀ c ∈ rows, key c ≠ key a → g c ≠ g b := by
  have hrows : rows.Nodup := hnd.of_map
  unfold updateAt
  rw [List.map_map, List.nodup_map_iff_inj_on hrows]
  simp only [Function.comp_apply]
  constructor
  · intro h c hc hne heq
    apply hne
    have := h c hc a ha
    rw [if_neg hne, if_pos rfl] at this
    rw [this heq]
  · intro h x hx y hy heq
    by_cases hkx : key x = key a
    · by_cases hky : key y = key a
      · exact eq_of_key_eq hnd hx hy (hkx.trans hky.symm)
      · rw [if_pos hkx, if_neg hky] at heq
        exact absurd heq.symm (h y hy hky)
    · by_cases hky : key y = key a
      · rw [if_neg hkx, if_pos hky] at heq
        exact absurd heq (h x hx hkx)
      · rw [if_neg hkx, if_neg hky] at heq
        exact eq_of_key_eq hg hx hy heq

omit [DecidableEq κ] in
/-- A column stays distinct when a row is appended iff no row holds its value. -/
theorem nodup_append_iff (hnd : (rows.map key).Nodup) (b : α) :
    ((rows ++ [b]).map key).Nodup ↔ ∀ c ∈ rows, key c ≠ key b := by
  rw [List.map_append, List.map_singleton, ← List.concat_eq_append, List.nodup_concat]
  simp [hnd]

omit [DecidableEq κ] in
theorem nodup_of_sublist {kept : List α} (hsub : kept.Sublist rows)
    (hnd : (rows.map key).Nodup) : (kept.map key).Nodup :=
  hnd.sublist (hsub.map key)

/-- Dropping rows of a table loses a key or keeps its row. -/
theorem lookup_sublist {kept : List α} (hsub : kept.Sublist rows) (hnd : (rows.map key).Nodup)
    (k : κ) : lookup key k kept = none ∨ lookup key k kept = lookup key k rows := by
  cases hl : lookup key k kept with
  | none => exact .inl rfl
  | some a =>
    right
    obtain ⟨ha, hk⟩ := mem_of_lookup hl
    exact (lookup_of_mem hnd (hsub.mem ha) hk).symm

/-! ### Sums over a key -/

section sums
variable {M : Type*} [AddCommMonoid M] {g : α → M}

/-- A sum over the rows of a key that no row has. -/
theorem sum_of_not_mem (h : ∀ a ∈ rows, key a ≠ k) :
    (rows.map fun a => if key a = k then g a else 0).sum = 0 := by
  induction rows with
  | nil => rfl
  | cons b rows ih =>
    rw [List.forall_mem_cons] at h
    rw [List.map_cons, List.sum_cons, if_neg h.1, zero_add, ih h.2]

/-- With distinct keys, a sum over the rows of a key is the term of its row. -/
theorem sum_of_mem (key : α → κ) (hnd : (rows.map key).Nodup) (ha : a ∈ rows) (hk : key a = k) :
    (rows.map fun a => if key a = k then g a else 0).sum = g a := by
  induction rows with
  | nil => cases ha
  | cons b rows ih =>
    rw [List.map_cons, List.nodup_cons] at hnd
    rw [List.map_cons, List.sum_cons]
    rcases List.mem_cons.1 ha with rfl | ha
    · have hrest : ∀ c ∈ rows, key c ≠ k := by
        intro c hc heq
        exact hnd.1 (hk.trans heq.symm ▸ List.mem_map_of_mem hc)
      rw [if_pos hk, sum_of_not_mem hrest, add_zero]
    · have hne : key b ≠ k := by
        intro heq
        exact hnd.1 (heq.trans hk.symm ▸ List.mem_map_of_mem ha)
      rw [if_neg hne, zero_add, ih hnd.2 ha]

/-- The rows of a key summed alone, and among the others. -/
theorem sum_filter (key : α → κ) (g : α → M) (k : κ) (rows : List α) :
    ((rows.filter fun a => key a = k).map g).sum =
      (rows.map fun a => if key a = k then g a else 0).sum := by
  induction rows with
  | nil => rfl
  | cons a rows ih =>
    by_cases h : key a = k
    · rw [List.filter_cons_of_pos (by simpa using h), List.map_cons, List.sum_cons, List.map_cons,
        List.sum_cons, if_pos h, ← ih]
    · rw [List.filter_cons_of_neg (by simpa using h), List.map_cons, List.sum_cons, if_neg h,
        zero_add, ← ih]

end sums

/-- A row of a positive number makes the sum of its key positive. -/
theorem sum_filter_pos (key : α → κ) {g : α → Int} (h : ∀ a ∈ rows, 0 < g a) (ha : a ∈ rows) :
    0 < ((rows.filter fun b => key b = key a).map g).sum := by
  have hmem : a ∈ rows.filter fun b => key b = key a := List.mem_filter.2 ⟨ha, by simp⟩
  have hnonneg : ∀ x ∈ (rows.filter fun b => key b = key a).map g, 0 ≤ x := by
    intro x hx
    obtain ⟨b, hb, rfl⟩ := List.mem_map.1 hx
    exact Int.le_of_lt (h b (List.mem_of_mem_filter hb))
  have hle := List.single_le_sum hnonneg (g a) (List.mem_map_of_mem hmem)
  exact Int.lt_of_lt_of_le (h a ha) hle

end table

/-! ## Dictionaries -/

section dict
variable {α κ : Type*} [DecidableEq κ] {k : κ} {v : α} {entries : List (κ × α)}

/-- The dictionary of the entries; of several under a key, the last. -/
def dict (entries : List (κ × α)) (k : κ) : Option α :=
  (entries.reverse.find? fun e => e.1 = k).map Prod.snd

theorem dict_snoc (entries : List (κ × α)) (k' : κ) (v : α) (k : κ) :
    dict (entries ++ [(k', v)]) k = if k' = k then some v else dict entries k := by
  unfold dict
  rw [List.reverse_append, List.reverse_singleton, List.singleton_append]
  by_cases h : k' = k
  · rw [List.find?_cons_of_pos (by simpa using h), if_pos h]
    rfl
  · rw [List.find?_cons_of_neg (by simpa using h), if_neg h]

theorem mem_of_dict (h : dict entries k = some v) : (k, v) ∈ entries := by
  obtain ⟨e, he, rfl⟩ := Option.map_eq_some_iff.1 h
  have hk := List.find?_some he
  have hmem := List.mem_of_find?_eq_some he
  rw [List.mem_reverse] at hmem
  rwa [← of_decide_eq_true hk]

theorem dict_eq_none (h : ∀ e ∈ entries, e.1 ≠ k) : dict entries k = none := by
  unfold dict
  rw [Option.map_eq_none_iff, List.find?_eq_none]
  intro e he
  simpa using h e (List.mem_reverse.1 he)

theorem dict_isSome_iff : (dict entries k).isSome = true ↔ k ∈ entries.map Prod.fst := by
  constructor
  · intro h
    obtain ⟨v, hv⟩ := Option.isSome_iff_exists.1 h
    exact List.mem_map_of_mem (mem_of_dict hv)
  · intro h
    obtain ⟨e, he, heq⟩ := List.mem_map.1 h
    by_contra hnone
    rw [Option.not_isSome_iff_eq_none] at hnone
    have hmiss := List.find?_eq_none.1 (Option.map_eq_none_iff.1 hnone) e (List.mem_reverse.2 he)
    exact hmiss (by simpa using heq)

/-- With distinct keys the dictionary has every entry. -/
theorem dict_of_mem (hnd : (entries.map Prod.fst).Nodup) (h : (k, v) ∈ entries) :
    dict entries k = some v := by
  cases hd : dict entries k with
  | none =>
    have hnone := List.find?_eq_none.1 (Option.map_eq_none_iff.1 hd) (k, v) (List.mem_reverse.2 h)
    simp at hnone
  | some v' =>
    have heq := eq_of_key_eq hnd (mem_of_dict hd) h rfl
    rw [(Prod.mk.inj heq).2]

end dict

/-! ## Lists split at a separator -/

section separator
variable {α : Type*} {r : α}

/-- A list is split in one way at its first separator. -/
theorem split_at_first {xs xs' ys ys' : List α} (h : r ∉ xs) (h' : r ∉ xs')
    (heq : xs ++ r :: ys = xs' ++ r :: ys') : xs = xs' ∧ ys = ys' := by
  induction xs generalizing xs' with
  | nil =>
    cases xs' with
    | nil => exact ⟨rfl, (List.cons.inj heq).2⟩
    | cons x xs' => exact absurd ((List.cons.inj heq).1 ▸ List.mem_cons_self) h'
  | cons x xs ih =>
    cases xs' with
    | nil => exact absurd ((List.cons.inj heq).1 ▸ List.mem_cons_self) h
    | cons x' xs' =>
      obtain ⟨rfl, htail⟩ := List.cons.inj heq
      obtain ⟨rfl, hys⟩ := ih (fun hr => h (List.mem_cons_of_mem _ hr))
        (fun hr => h' (List.mem_cons_of_mem _ hr)) htail
      exact ⟨rfl, hys⟩

/-- And at its last. -/
theorem split_at_last {xs xs' ys ys' : List α} (h : r ∉ ys) (h' : r ∉ ys')
    (heq : xs ++ r :: ys = xs' ++ r :: ys') : xs = xs' ∧ ys = ys' := by
  have hrev := congrArg List.reverse heq
  simp only [List.reverse_append, List.reverse_cons, List.append_assoc,
    List.singleton_append] at hrev
  obtain ⟨hys, hxs⟩ := split_at_first (by simpa using h) (by simpa using h') hrev
  exact ⟨List.reverse_inj.1 hxs, List.reverse_inj.1 hys⟩

end separator

theorem nodup_eraseDups {α : Type*} [DecidableEq α] (l : List α) : l.eraseDups.Nodup := by
  induction h : l.length using Nat.strong_induction_on generalizing l with
  | _ n ih =>
    cases l with
    | nil => exact List.nodup_nil
    | cons a l =>
      have hle : (l.filter fun b => !b == a).length ≤ l.length := List.length_filter_le _ _
      rw [List.length_cons] at h
      rw [List.eraseDups_cons, List.nodup_cons]
      exact ⟨by simp, ih _ (by omega) _ rfl⟩

/-- An entry of lists joined end to end is in one of them, past those before it. -/
theorem flatMap_eq_append_cons {α β : Type*} {l : List α} {f : α → List β} {before after : List β}
    {b : β} (h : l.flatMap f = before ++ b :: after) :
    ∃ l₁ a l₂ first rest, l = l₁ ++ a :: l₂ ∧ f a = first ++ b :: rest ∧
      before = l₁.flatMap f ++ first := by
  induction l generalizing before with
  | nil => exact absurd h (by simp)
  | cons x l ih =>
    rw [List.flatMap_cons] at h
    rcases List.append_eq_append_iff.1 h with ⟨before', rfl, hrest⟩ | ⟨rest, hx, hrest⟩
    · obtain ⟨l₁, a, l₂, first, rest, rfl, ha, rfl⟩ := ih hrest
      exact ⟨x :: l₁, a, l₂, first, rest, rfl, ha, by rw [List.flatMap_cons, List.append_assoc]⟩
    · cases rest with
      | nil =>
        have hsplit : l.flatMap f = [] ++ b :: after := hrest.symm
        obtain ⟨l₁, a, l₂, first, rest, rfl, ha, hfirst⟩ := ih hsplit
        refine ⟨x :: l₁, a, l₂, first, rest, rfl, ha, ?_⟩
        rw [List.flatMap_cons, List.append_assoc, ← hfirst, List.append_nil]
        simpa using hx.symm
      | cons c rest =>
        obtain ⟨rfl, -⟩ := List.cons.inj hrest
        exact ⟨[], x, l, before, rest, rfl, hx, rfl⟩

/-! ## Messages taken out of a bag -/

section erase
variable {α β : Type*} [DecidableEq α] [DecidableEq β] {f : α → Option β} {a : α}

/-- Taking a message out takes its image out, where no other message has that image. -/
theorem filterMap_erase {b : β} (hf : ∀ c, f c = some b ↔ c = a) (l : List α) :
    (l.erase a).filterMap f = (l.filterMap f).erase b := by
  have ha : f a = some b := (hf a).2 rfl
  induction l with
  | nil => rfl
  | cons c l ih =>
    by_cases hc : c = a
    · rw [hc, List.erase_cons_head, List.filterMap_cons_some ha, List.erase_cons_head]
    · rw [List.erase_cons_tail (by simpa using hc)]
      cases hfc : f c with
      | none => rw [List.filterMap_cons_none hfc, List.filterMap_cons_none hfc, ih]
      | some d =>
        have hd : d ≠ b := fun heq => hc ((hf c).1 (by rw [hfc, heq]))
        rw [List.filterMap_cons_some hfc, List.filterMap_cons_some hfc,
          List.erase_cons_tail (by simpa using hd), ih]

omit [DecidableEq β] in
theorem filterMap_erase_of_none (ha : f a = none) (l : List α) :
    (l.erase a).filterMap f = l.filterMap f := by
  induction l with
  | nil => rfl
  | cons c l ih =>
    by_cases hc : c = a
    · rw [hc, List.erase_cons_head, List.filterMap_cons_none ha]
    · rw [List.erase_cons_tail (by simpa using hc), List.filterMap_cons, List.filterMap_cons, ih]

end erase

end Lib
