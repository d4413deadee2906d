import Mathlib.Data.List.Infix
import Mathlib.Data.List.Nodup

/-!
# A journal kept beside a table

A table of values under keys is written to, and every write appends to a journal the entries
that tell of it. `after` is what an entry makes of the value under its key, and `fits` what it
tells of the value it leaves. Of the journal only the last `cap` entries are kept. `Tells` is
the invariant of table and journal and `Tells.write` the rule for a write. From it the last
entry about a key tells of the value there (`Tells.last`), a journal that was never cut replays
to the table (`Tells.replays`), and for one key the journal replays to its value from any entry
that founds it (`Tells.replays_from`).
-/

namespace Lib.Journal

variable {κ ε σ : Type*} [DecidableEq κ] (key : ε → κ) (after : Option σ → ε → Option σ)

/-- The values under the keys once the entries are read in order. -/
def replay (held : κ → Option σ) (entries : List ε) (k : κ) : Option σ :=
  (entries.filter fun e => key e = k).foldl after (held k)

/-- The last `cap` entries. -/
def capped (cap : ℕ) (entries : List ε) : List ε := entries.drop (entries.length - cap)

/-! ## Replaying -/

section replaying
variable {key after} {held held' : κ → Option σ} {entries : List ε} {e : ε} {k : κ}

@[simp] theorem replay_nil : replay key after held [] = held := rfl

theorem replay_append (first rest : List ε) :
    replay key after held (first ++ rest) =
      replay key after (replay key after held first) rest := by
  funext k
  simp [replay, List.filter_append, List.foldl_append]

theorem replay_cons_self : replay key after held (e :: entries) (key e) =
    (entries.filter fun x => key x = key e).foldl after (after (held (key e)) e) := by
  simp [replay]

theorem replay_single : replay key after held [e] (key e) = after (held (key e)) e :=
  replay_cons_self

/-- Entries about other keys leave a value alone. -/
theorem replay_of_forall_ne (h : ∀ e ∈ entries, key e ≠ k) :
    replay key after held entries k = held k := by
  have hnone : (entries.filter fun e => key e = k) = [] := by
    rw [List.filter_eq_nil_iff]
    intro e he
    simpa using h e he
  rw [replay, hnone]
  rfl

theorem replay_single_of_ne (h : key e ≠ k) : replay key after held [e] k = held k :=
  replay_of_forall_ne fun x hx => by rwa [List.mem_singleton.1 hx]

/-- Among entries about distinct keys a value is what its own entry makes of it. -/
theorem replay_of_nodup (hnd : (entries.map key).Nodup) (he : e ∈ entries) :
    replay key after held entries (key e) = after (held (key e)) e := by
  obtain ⟨before, rest, rfl⟩ := List.append_of_mem he
  rw [List.map_append, List.map_cons, List.nodup_middle] at hnd
  obtain ⟨hfresh, -⟩ := List.nodup_cons.1 hnd
  have hbefore : ∀ x ∈ before, key x ≠ key e := fun x hx heq =>
    hfresh (List.mem_append_left _ (heq ▸ List.mem_map_of_mem hx))
  have hrest : ∀ x ∈ rest, key x ≠ key e := fun x hx heq =>
    hfresh (List.mem_append_right _ (heq ▸ List.mem_map_of_mem hx))
  rw [List.append_cons, replay_append, replay_of_forall_ne hrest, replay_append, replay_single,
    replay_of_forall_ne hbefore]

/-- From an entry that founds a value, what was held before does not matter. -/
theorem replay_founded (hfounds : ∀ v, after v e = after none e) :
    replay key after held (e :: entries) (key e) =
      replay key after (fun _ => none) (e :: entries) (key e) := by
  rw [replay_cons_self, replay_cons_self, hfounds]

end replaying

/-! ## The cap -/

section cap
variable {cap : ℕ} {full entries : List ε}

theorem length_capped_le : (capped cap full).length ≤ cap := by
  unfold capped
  rw [List.length_drop]
  omega

/-- What is within the cap is not cut. -/
theorem capped_of_le (h : full.length ≤ cap) : capped cap full = full := by
  unfold capped
  have hzero : full.length - cap = 0 := by omega
  rw [hzero, List.drop_zero]

theorem capped_suffix (cap : ℕ) (full : List ε) : capped cap full <:+ full := List.drop_suffix _ _

/-- Cutting before an append changes nothing. -/
theorem capped_append : capped cap (capped cap full ++ entries) = capped cap (full ++ entries) := by
  unfold capped
  have hle : full.length - cap ≤ full.length := Nat.sub_le _ _
  have hdrop : full.drop (full.length - cap) ++ entries =
      (full ++ entries).drop (full.length - cap) :=
    (List.drop_append_of_le_length hle).symm
  rw [hdrop, List.drop_drop]
  congr 1
  rw [List.length_drop, List.length_append]
  omega

/-- A journal below its cap was never cut. -/
theorem capped_eq_self (h : (capped cap full).length < cap) : capped cap full = full := by
  refine capped_of_le ?_
  unfold capped at h
  rw [List.length_drop] at h
  omega

end cap

/-! ## Journals that tell -/

variable (fits : ε → σ → Prop)

/-- Each entry tells of the value it left. -/
def Truthful (full : List ε) : Prop :=
  ∀ before e rest, full = before ++ e :: rest →
    ∃ v, replay key after (fun _ => none) (before ++ [e]) (key e) = some v ∧ fits e v

/-- The journal is the end of a truthful history that replays to the table. -/
structure Tells (cap : ℕ) (held : κ → Option σ) (journal : List ε) : Prop where
  history : ∃ full, journal = capped cap full ∧ held = replay key after (fun _ => none) full ∧
    Truthful key after fits full

namespace Tells

variable {key after fits} {cap : ℕ} {held : κ → Option σ} {journal : List ε} {e : ε}

theorem empty : Tells key after fits cap (fun _ => none) [] := by
  refine ⟨[], List.drop_nil.symm, rfl, ?_⟩
  intro before e rest h
  simp at h

theorem length_le (h : Tells key after fits cap held journal) : journal.length ≤ cap := by
  obtain ⟨full, rfl, -, -⟩ := h.history
  exact length_capped_le

/-- One entry is appended. -/
theorem append (h : Tells key after fits cap held journal) {v : σ}
    (hv : after (held (key e)) e = some v) (hfits : fits e v) :
    Tells key after fits cap (replay key after held [e]) (capped cap (journal ++ [e])) := by
  obtain ⟨full, rfl, rfl, htruth⟩ := h.history
  refine ⟨full ++ [e], capped_append, (replay_append full [e]).symm, ?_⟩
  intro before x rest hfull
  rcases List.eq_nil_or_concat rest with rfl | ⟨rest, last, rfl⟩
  · obtain ⟨rfl, hx⟩ := List.append_inj' hfull rfl
    obtain rfl := List.singleton_inj.1 hx
    refine ⟨v, ?_, hfits⟩
    rw [replay_append, replay_single]
    exact hv
  · have hsnoc : full ++ [e] = (before ++ x :: rest) ++ [last] := by simp [hfull]
    obtain ⟨hbefore, -⟩ := List.append_inj' hsnoc rfl
    exact htruth before x rest hbefore

/-- **A write.** Entries about distinct keys, each telling of the value it leaves, are appended. -/
theorem write {entries : List ε} (hnd : (entries.map key).Nodup)
    (hfits : ∀ e ∈ entries, ∃ v, after (held (key e)) e = some v ∧ fits e v)
    (h : Tells key after fits cap held journal) :
    Tells key after fits cap (replay key after held entries) (capped cap (journal ++ entries)) := by
  induction entries generalizing held journal with
  | nil =>
    obtain ⟨full, rfl, hheld, htruth⟩ := h.history
    refine ⟨full, ?_, hheld, htruth⟩
    rw [capped_append, List.append_nil]
  | cons e entries ih =>
    obtain ⟨hfresh, hnd⟩ := List.nodup_cons.1 hnd
    obtain ⟨v, hv, hev⟩ := hfits e List.mem_cons_self
    have hrest : ∀ x ∈ entries, ∃ v, after (replay key after held [e] (key x)) x = some v ∧
        fits x v := by
      intro x hx
      have hne : key e ≠ key x := fun heq => hfresh (heq ▸ List.mem_map_of_mem hx)
      rw [replay_single_of_ne hne]
      exact hfits x (List.mem_cons_of_mem e hx)
    have hwritten := ih hnd hrest (h.append hv hev)
    rwa [capped_append, ← replay_append, List.append_assoc, List.singleton_append] at hwritten

/-- **The last entry** about a key tells of the value there. -/
theorem last (h : Tells key after fits cap held journal) {older newer : List ε}
    (hjournal : journal = older ++ e :: newer) (hlast : ∀ x ∈ newer, key x ≠ key e) :
    ∃ v, held (key e) = some v ∧ fits e v := by
  obtain ⟨full, hcapped, rfl, htruth⟩ := h.history
  obtain ⟨lost, hlost⟩ := capped_suffix cap full
  have hfull : full = (lost ++ older) ++ e :: newer := by
    rw [← hlost, ← hcapped, hjournal, List.append_assoc]
  obtain ⟨v, hv, hfits⟩ := htruth _ _ _ hfull
  refine ⟨v, ?_, hfits⟩
  rw [hfull, List.append_cons, replay_append, replay_of_forall_ne hlast]
  exact hv

/-- **A journal that was never cut** replays to the table. -/
theorem replays (h : Tells key after fits cap held journal) (hlength : journal.length < cap) :
    held = replay key after (fun _ => none) journal := by
  obtain ⟨full, rfl, rfl, -⟩ := h.history
  rw [capped_eq_self hlength]

/-- **From an entry that founds the value** under its key the journal replays to it. -/
theorem replays_from (h : Tells key after fits cap held journal) {older newer : List ε}
    (hjournal : journal = older ++ e :: newer) (hfounds : ∀ v, after v e = after none e) :
    held (key e) = replay key after (fun _ => none) (e :: newer) (key e) := by
  obtain ⟨full, hcapped, rfl, -⟩ := h.history
  obtain ⟨lost, hlost⟩ := capped_suffix cap full
  have hfull : full = (lost ++ older) ++ e :: newer := by
    rw [← hlost, ← hcapped, hjournal, List.append_assoc]
  rw [hfull, replay_append]
  exact replay_founded hfounds

end Tells

end Lib.Journal
