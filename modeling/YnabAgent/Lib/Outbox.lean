import Mathlib.Data.List.Nodup
import Mathlib.Data.List.Count
import Mathlib.Logic.Relation

/-!
# Requests delivered under labels

A sender numbers its requests by their place in a list; each carries a label and the epoch of the
sender that made it. Delivering a request sends it unless something was sent under its label, so an
attempt may be repeated. Within an epoch no two requests share a label, and epochs do not decrease.

A request that is done was delivered exactly once if no earlier epoch sent anything under its label,
and not at all otherwise (`Sound.delivered_iff`).
-/

namespace Lib

/-- A request of an epoch, under its label. -/
structure Request (L : Type*) where
  epoch : Nat
  label : L
  deriving DecidableEq

/-- The requests made, what was sent (a label with the number of its request), and the numbers of
the requests that are done. -/
structure Outbox (L : Type*) where
  requests : List (Request L) := []
  sent : List (L × Nat) := []
  done : List Nat := []

namespace Outbox

variable {L : Type*}

/-- Send the request `n` unless something was sent under its label. -/
def deliver [DecidableEq L] (label : L) (n : Nat) (sent : List (L × Nat)) : List (L × Nat) :=
  if ∃ e ∈ sent, e.1 = label then sent else sent ++ [(label, n)]

theorem exists_label_deliver [DecidableEq L] (label : L) (n : Nat) (sent : List (L × Nat)) :
    ∃ e ∈ deliver label n sent, e.1 = label := by
  unfold deliver
  split
  · rename_i h; exact h
  · exact ⟨(label, n), List.mem_append_right _ (List.mem_singleton.2 rfl), rfl⟩

/-- What is sent under other labels does not matter to a delivery. -/
theorem filter_deliver [DecidableEq L] (p : L → Bool) {label : L} (hp : p label = true) (n : Nat)
    (sent : List (L × Nat)) :
    (deliver label n sent).filter (fun e => p e.1) =
      deliver label n (sent.filter fun e => p e.1) := by
  unfold deliver
  have hiff : (∃ e ∈ sent.filter fun e => p e.1, e.1 = label) ↔ ∃ e ∈ sent, e.1 = label := by
    constructor
    · rintro ⟨e, he, heq⟩
      exact ⟨e, (List.mem_filter.1 he).1, heq⟩
    · rintro ⟨e, he, heq⟩
      exact ⟨e, List.mem_filter.2 ⟨he, by rw [heq]; exact hp⟩, heq⟩
  by_cases hsent : ∃ e ∈ sent, e.1 = label
  · rw [if_pos hsent, if_pos (hiff.2 hsent)]
  · rw [if_neg hsent, if_neg (mt hiff.1 hsent), List.filter_append]
    simp [hp]

/-- The requests of the latest epoch. -/
def Latest (o : Outbox L) (r : Request L) : Prop :=
  ∀ r' ∈ o.requests, r'.epoch ≤ r.epoch

inductive Step [DecidableEq L] : Outbox L → Outbox L → Prop
  | request {o : Outbox L} {r : Request L} (hnew : r ∉ o.requests) (hlatest : o.Latest r) :
      Step o { o with requests := o.requests ++ [r] }
  | attempt {o : Outbox L} {n : Nat} {r : Request L} (h : o.requests[n]? = some r) :
      Step o { o with sent := deliver r.label n o.sent }
  | finish {o : Outbox L} {n : Nat} {r : Request L} (h : o.requests[n]? = some r)
      (hlatest : o.Latest r) (hsent : ∃ e ∈ o.sent, e.1 = r.label) :
      Step o { o with done := o.done ++ [n] }

abbrev Steps [DecidableEq L] : Outbox L → Outbox L → Prop :=
  Relation.ReflTransGen Step

/-- The invariant. -/
structure Sound (o : Outbox L) : Prop where
  nodup : o.requests.Nodup
  labels : (o.sent.map Prod.fst).Nodup
  /-- What was sent is a request under its own label. -/
  honest : ∀ e ∈ o.sent, ∃ r, o.requests[e.2]? = some r ∧ r.label = e.1
  /-- Something was sent under the label of a request that is done, in its epoch or an earlier. -/
  served : ∀ n ∈ o.done, ∃ r, o.requests[n]? = some r ∧
    ∃ e ∈ o.sent, e.1 = r.label ∧ ∃ r', o.requests[e.2]? = some r' ∧ r'.epoch ≤ r.epoch

/-- How often the request `n` was sent. -/
def deliveries (sent : List (L × Nat)) (n : Nat) : Nat :=
  (sent.map Prod.snd).count n

variable {o o' : Outbox L}

theorem sound_init : Sound ({} : Outbox L) where
  nodup := List.nodup_nil
  labels := List.nodup_nil
  honest e he := by cases he
  served n hn := by cases hn

/-- A request keeps its number. -/
theorem getElem?_snoc {requests : List (Request L)} {n : Nat} {r : Request L} (r' : Request L)
    (h : requests[n]? = some r) : (requests ++ [r'])[n]? = some r := by
  obtain ⟨hn, -⟩ := List.getElem?_eq_some_iff.1 h
  rw [List.getElem?_append_left hn]
  exact h

namespace Sound

theorem request (h : o.Sound) {r : Request L} (hnew : r ∉ o.requests) :
    Sound { o with requests := o.requests ++ [r] } where
  nodup := by
    rw [List.nodup_append]
    refine ⟨h.nodup, List.nodup_singleton r, ?_⟩
    intro a ha b hb heq
    rw [List.mem_singleton.1 hb] at heq
    rw [heq] at ha
    exact hnew ha
  labels := h.labels
  honest := by
    intro e he
    obtain ⟨r', hr', hlabel⟩ := h.honest e he
    exact ⟨r', getElem?_snoc r hr', hlabel⟩
  served := by
    intro n hn
    obtain ⟨r₁, hr₁, e, he, hlabel, r₂, hr₂, hepoch⟩ := h.served n hn
    exact ⟨r₁, getElem?_snoc r hr₁, e, he, hlabel, r₂, getElem?_snoc r hr₂, hepoch⟩

theorem mem_deliver [DecidableEq L] {label : L} {n : Nat} {sent : List (L × Nat)} {e : L × Nat}
    (he : e ∈ deliver label n sent) : e ∈ sent ∨ e = (label, n) := by
  unfold deliver at he
  split at he
  · exact .inl he
  · exact (List.mem_append.1 he).imp_right List.mem_singleton.1

theorem subset_deliver [DecidableEq L] {label : L} {n : Nat} {sent : List (L × Nat)} {e : L × Nat}
    (he : e ∈ sent) : e ∈ deliver label n sent := by
  unfold deliver
  split
  · exact he
  · exact List.mem_append_left _ he

theorem attempt [DecidableEq L] (h : o.Sound) {n : Nat} {r : Request L}
    (hr : o.requests[n]? = some r) : Sound { o with sent := deliver r.label n o.sent } where
  nodup := h.nodup
  labels := by
    show ((deliver r.label n o.sent).map Prod.fst).Nodup
    unfold deliver
    by_cases hsent : ∃ e ∈ o.sent, e.1 = r.label
    · rw [if_pos hsent]
      exact h.labels
    · rw [if_neg hsent, List.map_append, List.nodup_append]
      refine ⟨h.labels, List.nodup_singleton _, ?_⟩
      intro a ha b hb heq
      obtain ⟨e, he, hea⟩ := List.mem_map.1 ha
      have hb' : b = r.label := List.mem_singleton.1 hb
      exact hsent ⟨e, he, by rw [hea, heq, hb']⟩
  honest := by
    intro e he
    rcases mem_deliver he with hold | hnew
    · exact h.honest e hold
    · rw [hnew]
      exact ⟨r, hr, rfl⟩
  served := by
    intro k hk
    obtain ⟨r₁, hr₁, e, he, hlabel, hepoch⟩ := h.served k hk
    exact ⟨r₁, hr₁, e, subset_deliver he, hlabel, hepoch⟩

/-- Finishing a request needs only to be the latest of those under its label. -/
theorem finish_among (h : o.Sound) {n : Nat} {r : Request L} (hr : o.requests[n]? = some r)
    (hlatest : ∀ r' ∈ o.requests, r'.label = r.label → r'.epoch ≤ r.epoch)
    (hsent : ∃ e ∈ o.sent, e.1 = r.label) : Sound { o with done := o.done ++ [n] } where
  nodup := h.nodup
  labels := h.labels
  honest := h.honest
  served := by
    intro k hk
    rcases List.mem_append.1 hk with hold | hnew
    · exact h.served k hold
    · rw [List.mem_singleton.1 hnew]
      obtain ⟨e, he, hlabel⟩ := hsent
      obtain ⟨r', hr', hlabel'⟩ := h.honest e he
      exact ⟨r, hr, e, he, hlabel, r', hr',
        hlatest r' (List.mem_of_getElem? hr') (hlabel'.trans hlabel)⟩

theorem finish (h : o.Sound) {n : Nat} {r : Request L} (hr : o.requests[n]? = some r)
    (hlatest : o.Latest r) (hsent : ∃ e ∈ o.sent, e.1 = r.label) :
    Sound { o with done := o.done ++ [n] } :=
  h.finish_among hr (fun r' hr' _ => hlatest r' hr') hsent

/-- The invariant is about the requests that are done, in whatever order they are listed. -/
theorem of_done (h : o.Sound) (hrequests : o'.requests = o.requests) (hsent : o'.sent = o.sent)
    (hdone : ∀ n ∈ o'.done, n ∈ o.done) : o'.Sound where
  nodup := by
    rw [hrequests]
    exact h.nodup
  labels := by
    rw [hsent]
    exact h.labels
  honest := by
    rw [hrequests, hsent]
    exact h.honest
  served := by
    intro n hn
    rw [hrequests, hsent]
    exact h.served n (hdone n hn)

/-- Every step keeps the invariant. -/
theorem step [DecidableEq L] (h : o.Sound) (hstep : Step o o') : o'.Sound := by
  cases hstep with
  | request hnew hlatest => exact h.request hnew
  | attempt hr => exact h.attempt hr
  | finish hr hlatest hsent => exact h.finish hr hlatest hsent

theorem steps [DecidableEq L] (h : o.Sound) (hsteps : Steps o o') : o'.Sound := by
  induction hsteps with
  | refl => exact h
  | tail _ hstep ih => exact ih.step hstep

/-! ### How often a request was delivered -/

/-- Two entries under one label are one. -/
theorem eq_of_label (h : o.Sound) {e e' : L × Nat} (he : e ∈ o.sent) (he' : e' ∈ o.sent)
    (heq : e.1 = e'.1) : e = e' :=
  List.inj_on_of_nodup_map h.labels he he' heq

/-- No request is sent twice. -/
theorem numbers (h : o.Sound) : (o.sent.map Prod.snd).Nodup := by
  refine List.Nodup.map_on ?_ (List.Nodup.of_map _ h.labels)
  intro e he e' he' heq
  obtain ⟨r, hr, hlabel⟩ := h.honest e he
  obtain ⟨r', hr', hlabel'⟩ := h.honest e' he'
  rw [heq, hr'] at hr
  cases hr
  exact h.eq_of_label he he' (hlabel.symm.trans hlabel')

/-- **Exactly once.** A request that is done was delivered once exactly when no earlier epoch sent
anything under its label. -/
theorem delivered_iff (h : o.Sound) {n : Nat} (hn : n ∈ o.done) {r : Request L}
    (hr : o.requests[n]? = some r) :
    deliveries o.sent n = 1 ↔
      ∀ e ∈ o.sent, e.1 = r.label → ∀ r', o.requests[e.2]? = some r' → ¬ r'.epoch < r.epoch := by
  constructor
  · intro hone e he hlabel r' hr'
    -- the entry of the request itself is the one under its label
    have hmem : n ∈ o.sent.map Prod.snd := by
      refine List.count_pos_iff.1 ?_
      unfold deliveries at hone
      omega
    obtain ⟨e', he', hnum⟩ := List.mem_map.1 hmem
    obtain ⟨r'', hr'', hlabel'⟩ := h.honest e' he'
    rw [hnum, hr] at hr''
    cases hr''
    have heq := h.eq_of_label he he' (hlabel.trans hlabel')
    rw [heq, hnum, hr] at hr'
    cases hr'
    exact Nat.lt_irrefl _
  · intro hfresh
    obtain ⟨r₁, hr₁, e, he, hlabel, r', hr', hle⟩ := h.served n hn
    rw [hr] at hr₁
    cases hr₁
    have hepoch : r'.epoch = r.epoch :=
      Nat.le_antisymm hle (Nat.not_lt.1 (hfresh e he hlabel r' hr'))
    obtain ⟨r'', hr'', hlabel'⟩ := h.honest e he
    rw [hr'] at hr''
    cases hr''
    have hsame : r' = r := by
      have hl : r'.label = r.label := hlabel'.trans hlabel
      cases r'
      cases r
      simp only at hepoch hl
      rw [hepoch, hl]
    rw [hsame] at hr'
    have hnum : e.2 = n := by
      obtain ⟨h₁, hg₁⟩ := List.getElem?_eq_some_iff.1 hr'
      obtain ⟨h₂, hg₂⟩ := List.getElem?_eq_some_iff.1 hr
      exact (List.Nodup.getElem_inj_iff h.nodup).1 (hg₁.trans hg₂.symm)
    refine List.count_eq_one_of_mem h.numbers ?_
    rw [← hnum]
    exact List.mem_map_of_mem he

end Sound

end Outbox

end Lib
