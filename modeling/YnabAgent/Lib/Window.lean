import Mathlib.Data.List.Dedup
import Mathlib.Data.List.Induction

/-!
# A log pruned as it grows

A log that is written to and read only through windows of the recent past need not be kept whole.
Each event appended to it may supersede earlier ones; `replay` keeps what is left of a history then,
and `replayPruned` besides drops at every event what is older than the retention. A reader whose
window is within the retention cannot tell the two apart (`filter_replayPruned`).
-/

namespace Lib

variable {α : Type*} (time : α → Int) (superseded : α → α → Bool) (retention : Int)

/-- The log of a history: every event, less those a later one superseded. -/
def replay (history : List α) : List α :=
  history.foldl (fun log e => log.filter (fun x => !superseded e x) ++ [e]) []

/-- The log pruned at every event. -/
def replayPruned (history : List α) : List α :=
  history.foldl
    (fun log e =>
      log.filter (fun x => !superseded e x && decide (time e - time x < retention)) ++ [e])
    []

theorem replay_concat (history : List α) (e : α) :
    replay superseded (history ++ [e]) =
      (replay superseded history).filter (fun x => !superseded e x) ++ [e] := by
  unfold replay
  rw [List.foldl_append]
  rfl

theorem replayPruned_concat (history : List α) (e : α) :
    replayPruned time superseded retention (history ++ [e]) =
      (replayPruned time superseded retention history).filter
        (fun x => !superseded e x && decide (time e - time x < retention)) ++ [e] := by
  unfold replayPruned
  rw [List.foldl_append]
  rfl

/-- A log no event of which supersedes another is the history. -/
theorem replay_of_never (h : ∀ e x, superseded e x = false) (history : List α) :
    replay superseded history = history := by
  induction history using List.reverseRecOn with
  | nil => rfl
  | append_singleton history e ih =>
    have hall : ∀ x ∈ history, (!superseded e x) = true := by
      intro x _
      rw [h, Bool.not_false]
    rw [replay_concat, ih, List.filter_eq_self.2 hall]

variable {time superseded retention} {history : List α} {now : Int} {p : α → Bool}

/-- **What a window within the retention sees is kept.** At any time from the last event on, a
predicate that holds only within the retention selects the same events of both logs. -/
theorem filter_replayPruned (hnow : ∀ e ∈ history, time e ≤ now)
    (hp : ∀ x, p x = true → now - time x < retention) :
    (replayPruned time superseded retention history).filter p =
      (replay superseded history).filter p := by
  induction history using List.reverseRecOn generalizing p with
  | nil => rfl
  | append_singleton history e ih =>
    have he : time e ≤ now := hnow e (List.mem_append_right _ (List.mem_singleton.2 rfl))
    have hhist : ∀ x ∈ history, time x ≤ now := fun x hx => hnow x (List.mem_append_left _ hx)
    -- The event prunes nothing that `p` selects: `now` is no earlier than the event.
    have hprune : ∀ x, (p x && (!superseded e x && decide (time e - time x < retention))) =
        (p x && !superseded e x) := by
      intro x
      cases hx : p x with
      | false => rfl
      | true =>
        have hlt := hp x hx
        have hkept : decide (time e - time x < retention) = true := decide_eq_true (by omega)
        rw [hkept, Bool.and_true]
    have hp' : ∀ x, (p x && !superseded e x) = true → now - time x < retention := by
      intro x hx
      exact hp x (Bool.and_eq_true_iff.1 hx).1
    rw [replayPruned_concat, replay_concat, List.filter_append, List.filter_append,
      List.filter_filter, List.filter_filter, List.filter_congr fun x _ => hprune x]
    rw [ih hhist hp']

theorem countP_replayPruned (hnow : ∀ e ∈ history, time e ≤ now)
    (hp : ∀ x, p x = true → now - time x < retention) :
    (replayPruned time superseded retention history).countP p =
      (replay superseded history).countP p := by
  rw [List.countP_eq_length_filter, List.countP_eq_length_filter, filter_replayPruned hnow hp]

theorem any_replayPruned (hnow : ∀ e ∈ history, time e ≤ now)
    (hp : ∀ x, p x = true → now - time x < retention) :
    (replayPruned time superseded retention history).any p = (replay superseded history).any p := by
  have hiff : ∀ l : List α, l.any p = true ↔ 0 < l.countP p := by
    intro l
    rw [List.any_eq_true, List.countP_pos_iff]
  rw [Bool.eq_iff_iff, hiff, hiff, countP_replayPruned hnow hp]

/-! ### Logs by key -/

section keys
variable {κ : Type*} [DecidableEq κ] (key : α → κ)

/-- An event supersedes those of its key. -/
def sameKey (e x : α) : Bool := decide (key x = key e)

theorem mem_replay_concat {e x : α} : x ∈ replay (sameKey key) (history ++ [e]) ↔
    x ∈ replay (sameKey key) history ∧ key x ≠ key e ∨ x = e := by
  rw [replay_concat, List.mem_append, List.mem_filter, List.mem_singleton]
  unfold sameKey
  rw [Bool.not_eq_true', decide_eq_false_iff_not]

/-- Each key is in the log once. -/
theorem nodup_replay (history : List α) : ((replay (sameKey key) history).map key).Nodup := by
  induction history using List.reverseRecOn with
  | nil => exact List.nodup_nil
  | append_singleton history e ih =>
    rw [replay_concat, List.map_append, List.nodup_append]
    refine ⟨ih.sublist (List.filter_sublist.map key), List.nodup_singleton _, ?_⟩
    intro k hk k' hk' heq
    obtain ⟨x, hx, rfl⟩ := List.mem_map.1 hk
    rw [List.map_singleton, List.mem_singleton] at hk'
    have hne := (List.mem_filter.1 hx).2
    unfold sameKey at hne
    rw [Bool.not_eq_true', decide_eq_false_iff_not] at hne
    exact hne (heq.trans hk')

/-- The time of a key's latest event in the history. -/
def latestAt (time : α → Int) (history : List α) (k : κ) : Option Int :=
  ((history.filter fun e => key e = k).map time).max?

theorem latestAt_concat_of_ne {e : α} {k : κ} (h : key e ≠ k) :
    latestAt key time (history ++ [e]) k = latestAt key time history k := by
  unfold latestAt
  rw [List.filter_append, List.filter_singleton, decide_eq_false h, Bool.cond_false,
    List.append_nil]

theorem latestAt_concat_self {e : α} (hlast : ∀ x ∈ history, time x ≤ time e) :
    latestAt key time (history ++ [e]) (key e) = some (time e) := by
  unfold latestAt
  rw [List.max?_eq_some_iff]
  constructor
  · refine List.mem_map.2 ⟨e, List.mem_filter.2 ⟨?_, decide_eq_true rfl⟩, rfl⟩
    exact List.mem_append_right _ (List.mem_singleton.2 rfl)
  · intro t ht
    obtain ⟨x, hx, rfl⟩ := List.mem_map.1 ht
    rcases List.mem_append.1 (List.mem_filter.1 hx).1 with hold | hnew
    · exact hlast x hold
    · exact Int.le_of_eq (congrArg time (List.mem_singleton.1 hnew))

/-- The log has each key at its latest time. -/
theorem latestAt_eq_some_iff (hsorted : history.Pairwise fun a b => time a ≤ time b) {k : κ}
    {t : Int} : latestAt key time history k = some t ↔
      ∃ x ∈ replay (sameKey key) history, key x = k ∧ time x = t := by
  induction history using List.reverseRecOn with
  | nil =>
    constructor
    · intro h
      cases h
    · rintro ⟨x, hx, -⟩
      cases hx
  | append_singleton history e ih =>
    rw [List.pairwise_append] at hsorted
    obtain ⟨hsorted, -, hlast⟩ := hsorted
    by_cases hk : key e = k
    · subst hk
      rw [latestAt_concat_self key fun x hx => hlast x hx e (List.mem_singleton.2 rfl)]
      constructor
      · intro h
        exact ⟨e, (mem_replay_concat key).2 (.inr rfl), rfl, Option.some.inj h⟩
      · rintro ⟨x, hx, hkey, rfl⟩
        rcases (mem_replay_concat key).1 hx with ⟨-, hne⟩ | rfl
        · exact absurd hkey hne
        · rfl
    · rw [latestAt_concat_of_ne key hk, ih hsorted]
      constructor
      · rintro ⟨x, hx, hkey, ht⟩
        refine ⟨x, (mem_replay_concat key).2 (.inl ⟨hx, ?_⟩), hkey, ht⟩
        intro heq
        exact hk (heq.symm.trans hkey)
      · rintro ⟨x, hx, hkey, ht⟩
        rcases (mem_replay_concat key).1 hx with ⟨hold, -⟩ | rfl
        · exact ⟨x, hold, hkey, ht⟩
        · exact absurd hkey hk

theorem latestAt_isSome {k : κ} (h : (latestAt key time history k).isSome = true) :
    k ∈ history.map key := by
  unfold latestAt at h
  obtain ⟨t, ht⟩ := Option.isSome_iff_exists.1 h
  obtain ⟨x, hx, -⟩ := List.mem_map.1 (List.max?_mem ht)
  exact List.mem_map.2 ⟨x, (List.mem_filter.1 hx).1, of_decide_eq_true (List.mem_filter.1 hx).2⟩

/-- How many keys of the history have their latest event where `q` holds. -/
def countLatest (time : α → Int) (history : List α) (q : Int → Bool) : Nat :=
  (history.map key).dedup.countP fun k => (latestAt key time history k).any q

/-- Counting the log counts each key once, at its latest time. -/
theorem countP_replay (hsorted : history.Pairwise fun a b => time a ≤ time b) (q : Int → Bool) :
    (replay (sameKey key) history).countP (fun x => q (time x)) =
      countLatest key time history q := by
  have hperm : (((replay (sameKey key) history).filter fun x => q (time x)).map key).Perm
      ((history.map key).dedup.filter fun k => (latestAt key time history k).any q) := by
    refine (List.perm_ext_iff_of_nodup ?_ ?_).2 fun k => ?_
    · exact (nodup_replay key history).sublist (List.filter_sublist.map key)
    · exact (List.nodup_dedup _).filter _
    · rw [List.mem_map, List.mem_filter, List.mem_dedup, Option.any_eq_true]
      constructor
      · rintro ⟨x, hx, rfl⟩
        obtain ⟨hx, hq⟩ := List.mem_filter.1 hx
        have hlatest := (latestAt_eq_some_iff key hsorted).2 ⟨x, hx, rfl, rfl⟩
        exact ⟨latestAt_isSome key (Option.isSome_iff_exists.2 ⟨_, hlatest⟩), _, hlatest, hq⟩
      · rintro ⟨-, t, hlatest, hq⟩
        obtain ⟨x, hx, hkey, rfl⟩ := (latestAt_eq_some_iff key hsorted).1 hlatest
        exact ⟨x, List.mem_filter.2 ⟨hx, hq⟩, hkey⟩
  unfold countLatest
  rw [List.countP_eq_length_filter, List.countP_eq_length_filter, ← hperm.length_eq,
    List.length_map]

end keys

end Lib
