import Mathlib.Data.Set.Card
import Mathlib.Logic.Relation

/-!
# Admission under a rate limit

Keys are admitted, and an admitted key may commit at any later time. It is admitted only where the
keys that committed within the window, those admitted already and itself are at most `cap`
(`Admission.Step.allow`). Then no window of any run holds the commits of more than `cap` keys
(`Admission.Sound.window`).
-/

namespace Lib

/-- The time, the keys that may yet commit, and the commits. -/
structure Admission (K : Type*) where
  clock : Int
  live : Set K := ∅
  commits : List (K × Int) := []

namespace Admission

variable {K : Type*}

/-- The keys that committed in the window of this width that ends at a time. -/
def window (commits : List (K × Int)) (width time : Int) : Set K :=
  {k | ∃ t, (k, t) ∈ commits ∧ t ≤ time ∧ time - t < width}

variable (width : Int) (cap : ℕ∞)

inductive Step : Admission K → Admission K → Prop
  | tick {a : Admission K} {now : Int} (h : a.clock ≤ now) : Step a { a with clock := now }
  | release {a : Admission K} {live : Set K} (h : live ⊆ a.live) : Step a { a with live }
  | allow {a : Admission K} {k : K}
      (h : (insert k (window a.commits width a.clock ∪ a.live)).encard ≤ cap) :
      Step a { a with live := insert k a.live }
  | commit {a : Admission K} {k : K} (h : k ∈ a.live) :
      Step a { a with commits := (k, a.clock) :: a.commits }

abbrev Steps : Admission K → Admission K → Prop :=
  Relation.ReflTransGen (Step width cap)

/-- The invariant. -/
structure Sound (a : Admission K) : Prop where
  past : ∀ c ∈ a.commits, c.2 ≤ a.clock
  room : (window a.commits width a.clock ∪ a.live).encard ≤ cap
  window : ∀ time, (window a.commits width time).encard ≤ cap

variable {width cap} {a a' : Admission K}

theorem sound_init (clock : Int) : Sound width cap ({ clock } : Admission K) := by
  have hempty : ∀ time, Admission.window ([] : List (K × Int)) width time = ∅ := by
    intro time
    rw [Set.eq_empty_iff_forall_notMem]
    rintro k ⟨t, hmem, -⟩
    cases hmem
  refine ⟨fun c hc => absurd hc List.not_mem_nil, ?_, ?_⟩
  · rw [hempty, Set.union_empty, Set.encard_empty]
    exact zero_le
  · intro time
    rw [hempty, Set.encard_empty]
    exact zero_le

/-- A window that ends after the last commit reaches no further back than one that ends earlier. -/
theorem window_mono {commits : List (K × Int)} {time time' : Int} (hle : time ≤ time')
    (hpast : ∀ c ∈ commits, c.2 ≤ time) :
    window commits width time' ⊆ window commits width time := by
  rintro k ⟨t, hmem, -, hlt⟩
  have hpast' : t ≤ time := hpast _ hmem
  exact ⟨t, hmem, hpast', by omega⟩

theorem window_cons (commits : List (K × Int)) (k : K) (t time : Int) :
    window ((k, t) :: commits) width time ⊆ insert k (window commits width time) := by
  rintro k' ⟨t', hmem, hle, hlt⟩
  rcases List.mem_cons.1 hmem with heq | hold
  · cases heq
    exact .inl rfl
  · exact .inr ⟨t', hold, hle, hlt⟩

/-- A window that ends before a commit does not hold it. -/
theorem window_cons_of_lt {commits : List (K × Int)} {k : K} {t time : Int} (hlt : time < t) :
    window ((k, t) :: commits) width time ⊆ window commits width time := by
  rintro k' ⟨t', hmem, hle, hwidth⟩
  rcases List.mem_cons.1 hmem with heq | hold
  · cases heq
    omega
  · exact ⟨t', hold, hle, hwidth⟩

theorem Sound.tick (h : Sound width cap a) {now : Int} (hle : a.clock ≤ now) :
    Sound width cap { a with clock := now } := by
  refine ⟨fun c hc => (h.past c hc).trans hle, ?_, h.window⟩
  have hsub : Admission.window a.commits width now ∪ a.live ⊆
      Admission.window a.commits width a.clock ∪ a.live :=
    Set.union_subset_union_left _ (window_mono hle h.past)
  exact (Set.encard_le_encard hsub).trans h.room

theorem Sound.release (h : Sound width cap a) {live : Set K} (hsub : live ⊆ a.live) :
    Sound width cap { a with live } :=
  ⟨h.past, (Set.encard_le_encard (Set.union_subset_union_right _ hsub)).trans h.room, h.window⟩

theorem Sound.allow (h : Sound width cap a) {k : K}
    (hroom : (insert k (Admission.window a.commits width a.clock ∪ a.live)).encard ≤ cap) :
    Sound width cap { a with live := insert k a.live } := by
  refine ⟨h.past, ?_, h.window⟩
  rw [← Set.union_insert] at hroom
  exact hroom

/-- An admitted key that commits was counted already. -/
theorem Sound.commit (h : Sound width cap a) {k : K} (hk : k ∈ a.live) :
    Sound width cap { a with commits := (k, a.clock) :: a.commits } := by
  have hpast : ∀ c ∈ (k, a.clock) :: a.commits, c.2 ≤ a.clock := by
    intro c hc
    rcases List.mem_cons.1 hc with heq | hold
    · rw [heq]
    · exact h.past c hold
  have hroom : (Admission.window ((k, a.clock) :: a.commits) width a.clock ∪ a.live).encard ≤
      cap := by
    refine (Set.encard_le_encard ?_).trans h.room
    refine Set.union_subset ?_ Set.subset_union_right
    refine (window_cons a.commits k a.clock a.clock).trans ?_
    exact Set.insert_subset (.inr hk) Set.subset_union_left
  refine ⟨hpast, hroom, ?_⟩
  intro time
  rcases lt_or_ge time a.clock with hlt | hge
  · exact (Set.encard_le_encard (window_cons_of_lt hlt)).trans (h.window time)
  · refine (Set.encard_le_encard ?_).trans hroom
    exact (window_mono hge hpast).trans Set.subset_union_left

/-- Every step keeps the invariant. -/
theorem Sound.step (h : Sound width cap a) (hstep : Step width cap a a') : Sound width cap a' := by
  cases hstep with
  | tick hle => exact h.tick hle
  | release hsub => exact h.release hsub
  | allow hroom => exact h.allow hroom
  | commit hk => exact h.commit hk

theorem Sound.steps (h : Sound width cap a) (hsteps : Steps width cap a a') :
    Sound width cap a' := by
  induction hsteps with
  | refl => exact h
  | tail _ hstep ih => exact ih.step hstep

/-- The distinct values of the entries that satisfy a test are no more than these entries. -/
theorem encard_le_countP {α : Type*} (entries : List α) (p : α → Bool) (key : α → K) :
    {k | ∃ e ∈ entries, p e = true ∧ key e = k}.encard ≤ entries.countP p := by
  induction entries with
  | nil => simp
  | cons e entries ih =>
    by_cases hp : p e = true
    · have hsub : {k | ∃ e' ∈ e :: entries, p e' = true ∧ key e' = k} ⊆
          insert (key e) {k | ∃ e' ∈ entries, p e' = true ∧ key e' = k} := by
        rintro k ⟨e', hmem, hp', rfl⟩
        rcases List.mem_cons.1 hmem with rfl | hold
        · exact .inl rfl
        · exact .inr ⟨e', hold, hp', rfl⟩
      rw [List.countP_cons_of_pos hp]
      push_cast
      exact (Set.encard_le_encard hsub).trans
        ((Set.encard_insert_le _ _).trans (add_le_add_left ih 1))
    · have hsub : {k | ∃ e' ∈ e :: entries, p e' = true ∧ key e' = k} ⊆
          {k | ∃ e' ∈ entries, p e' = true ∧ key e' = k} := by
        rintro k ⟨e', hmem, hp', rfl⟩
        rcases List.mem_cons.1 hmem with rfl | hold
        · exact absurd hp' hp
        · exact ⟨e', hold, hp', rfl⟩
      rw [List.countP_cons_of_neg hp]
      exact (Set.encard_le_encard hsub).trans ih

/-- The places of the entries that satisfy a test are as many as these entries. -/
theorem encard_places_le_countP {α : Type*} (entries : List α) (p : α → Bool) :
    {n : Nat | ∃ e, entries[n]? = some e ∧ p e = true}.encard ≤ entries.countP p := by
  have hsub : {n : Nat | ∃ e, entries[n]? = some e ∧ p e = true} ⊆
      {n | ∃ e ∈ entries.zipIdx, p e.1 = true ∧ e.2 = n} := by
    rintro n ⟨e, he, hp⟩
    exact ⟨(e, n), List.mem_zipIdx_iff_getElem?.2 he, hp, rfl⟩
  have hcount : entries.zipIdx.countP (fun e => p e.1) = entries.countP p := by
    have hmap : (entries.zipIdx.map Prod.fst).countP p = entries.zipIdx.countP (p ∘ Prod.fst) :=
      List.countP_map
    rw [List.zipIdx_map_fst] at hmap
    exact hmap.symm
  rw [← hcount]
  exact (Set.encard_le_encard hsub).trans (encard_le_countP entries.zipIdx _ Prod.snd)

end Admission

end Lib
