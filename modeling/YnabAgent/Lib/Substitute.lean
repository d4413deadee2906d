import Mathlib.Data.List.Forall2
import YnabAgent.Lib.Markup
import YnabAgent.Lib.Regex

/-!
# Replacing matches

`sub` replaces every match of a pattern from left to right, `before` is what stands
before the first. On the source of a document, a pattern that begins with a bracket
and matches a tag as a whole or not at all replaces tags (`sub_source`), and one that
matches no tag finds nothing (`before_source`).
-/

namespace Lib.Matcher

variable {α β : Type}

/-! ## More patterns -/

/-- The first pattern, or else the second. -/
def either (m n : Matcher α β) : Matcher α β := fun s => m s ++ n s

/-- A word, up to what `same` does not tell apart. -/
def literal (same : α → α → Bool) : List α → Matcher α (List α)
  | [], s => [([], s)]
  | _ :: _, [] => []
  | a :: word, c :: s =>
    if same a c then (literal same word s).map fun r => (c :: r.1, r.2) else []

/-- Elements of a class, the shortest match first. -/
def lazy (p : α → Bool) : Matcher α (List α) := fun s =>
  (List.range ((s.takeWhile p).length + 1)).map fun k => (s.take k, s.drop k)

/-! ## Replacing and cutting -/

/-- The replacements of the first `n` steps. -/
def subFrom (m : Matcher α β) (repl : List α) : Nat → List α → List α
  | 0, s => s
  | _, [] => []
  | n + 1, a :: s =>
    match (m (a :: s)).head? with
    | some r => repl ++ subFrom m repl n r.2
    | none => a :: subFrom m repl n s

/-- Every match replaced, for a pattern whose matches are not empty. -/
def sub (m : Matcher α β) (repl s : List α) : List α := subFrom m repl s.length s

/-- What stands before the first match. -/
def before (m : Matcher α β) : List α → List α
  | [] => []
  | a :: s =>
    match (m (a :: s)).head? with
    | some _ => []
    | none => a :: before m s

/-- The matches are not empty. -/
def Consumes (m : Matcher α β) : Prop :=
  ∀ s, ∀ r ∈ m s, r.2.length < s.length

variable {m : Matcher α β} {same : α → α → Bool} {repl s word : List α} {a : α} {r : β × List α}

theorem subFrom_eq (hm : Consumes m) (repl : List α) :
    ∀ {n : Nat} {s : List α}, s.length ≤ n → subFrom m repl n s = sub m repl s := by
  intro n
  induction n using Nat.strongRecOn with
  | ind n ih =>
    intro s hs
    cases s with
    | nil => cases n <;> rfl
    | cons a s =>
      cases n with
      | zero => cases hs
      | succ n =>
        have hlen : s.length ≤ n := Nat.le_of_succ_le_succ hs
        show subFrom m repl (n + 1) (a :: s) = subFrom m repl (s.length + 1) (a :: s)
        unfold subFrom
        cases hhead : (m (a :: s)).head? with
        | none =>
          show a :: _ = a :: _
          rw [ih n (Nat.lt_succ_self n) hlen]
          rfl
        | some r =>
          have hr : r.2.length ≤ s.length :=
            Nat.le_of_lt_succ (hm _ r (List.mem_of_mem_head? hhead))
          show repl ++ _ = repl ++ _
          rw [ih n (Nat.lt_succ_self n) (hr.trans hlen), ← ih s.length (Nat.lt_succ_of_le hlen) hr]

theorem sub_of_none (h : (m (a :: s)).head? = none) : sub m repl (a :: s) = a :: sub m repl s := by
  show subFrom m repl (s.length + 1) (a :: s) = _
  unfold subFrom
  rw [h]
  rfl

theorem sub_of_some (hm : Consumes m) (h : (m (a :: s)).head? = some r) :
    sub m repl (a :: s) = repl ++ sub m repl r.2 := by
  have hr : r.2.length ≤ s.length := Nat.le_of_lt_succ (hm _ r (List.mem_of_mem_head? h))
  show subFrom m repl (s.length + 1) (a :: s) = _
  unfold subFrom
  rw [h]
  show repl ++ _ = _
  rw [subFrom_eq hm repl hr]

/-- Where nothing matches nothing is replaced. -/
theorem sub_append {first : List α} (h : ∀ a ∈ first, ∀ s, m (a :: s) = []) (s : List α) :
    sub m repl (first ++ s) = first ++ sub m repl s := by
  induction first with
  | nil => rfl
  | cons a first ih =>
    have hnone : (m (a :: (first ++ s))).head? = none := by
      rw [h a List.mem_cons_self]
      rfl
    rw [List.cons_append, sub_of_none hnone, ih fun b hb => h b (List.mem_cons_of_mem _ hb)]
    rfl

theorem before_of_none (h : (m (a :: s)).head? = none) : before m (a :: s) = a :: before m s := by
  simp only [before, h]

theorem before_of_some (h : (m (a :: s)).head? = some r) : before m (a :: s) = [] := by
  simp only [before, h]

/-! ## What the patterns match -/

theorem literal_cons (same : α → α → Bool) (a c : α) (word s : List α) :
    literal same (a :: word) (c :: s) =
    if same a c then (literal same word s).map fun r => (c :: r.1, r.2) else [] := rfl

theorem bind_one_cons {γ : Type} {p : α → Bool} {f : List α → Matcher α γ} (h : p a = true)
    (s : List α) : (one p >>= f) (a :: s) = f [a] s := by
  rw [bind_apply, one_cons, if_pos h, List.flatMap_cons, List.flatMap_nil, List.append_nil]

/-- A literal matches at most once, what it spells. -/
theorem mem_literal {r : List α × List α} (h : r ∈ literal same word s) :
    s = r.1 ++ r.2 ∧ List.Forall₂ (fun a c => same a c = true) word r.1 := by
  induction word generalizing s r with
  | nil =>
    have hr : r = ([], s) := by
      cases s <;> exact List.mem_singleton.1 h
    rw [hr]
    exact ⟨rfl, .nil⟩
  | cons a word ih =>
    cases s with
    | nil => cases h
    | cons c s =>
      rw [literal_cons] at h
      split at h
      · rename_i hsame
        obtain ⟨q, hq, rfl⟩ := List.mem_map.1 h
        obtain ⟨hs, hword⟩ := ih hq
        exact ⟨by rw [hs]; rfl, .cons hsame hword⟩
      · cases h

/-- The pattern takes nothing back. -/
def Shrinks (m : Matcher α β) : Prop :=
  ∀ s, ∀ r ∈ m s, r.2.length ≤ s.length

section shrinks
variable {γ : Type} {f : β → Matcher α γ} {p : α → Bool}

theorem Shrinks.pure (b : β) : Shrinks (Pure.pure b : Matcher α β) := by
  intro s r hr
  rw [List.mem_singleton.1 hr]

theorem Shrinks.bind (hm : Shrinks m) (hf : ∀ b, Shrinks (f b)) : Shrinks (m >>= f) := by
  intro s r hr
  obtain ⟨q, hq, hr⟩ := mem_bind.1 hr
  exact (hf _ _ r hr).trans (hm s q hq)

/-- A pattern that takes something, followed by one that takes nothing back. -/
theorem Consumes.bind (hm : Consumes m) (hf : ∀ b, Shrinks (f b)) : Consumes (m >>= f) := by
  intro s r hr
  obtain ⟨q, hq, hr⟩ := mem_bind.1 hr
  exact Nat.lt_of_le_of_lt (hf _ _ r hr) (hm s q hq)

theorem Shrinks.bind_consumes (hm : Shrinks m) (hf : ∀ b, Consumes (f b)) : Consumes (m >>= f) := by
  intro s r hr
  obtain ⟨q, hq, hr⟩ := mem_bind.1 hr
  exact Nat.lt_of_lt_of_le (hf _ _ r hr) (hm s q hq)

theorem Consumes.shrinks (hm : Consumes m) : Shrinks m :=
  fun s r hr => Nat.le_of_lt (hm s r hr)

theorem one_consumes (p : α → Bool) : Consumes (one p) := by
  intro s r hr
  obtain ⟨a, -, hs⟩ := mem_one hr
  rw [hs]
  exact Nat.lt_succ_self _

theorem many_shrinks (p : α → Bool) (lo : Nat) : Shrinks (many p lo) := by
  intro s r hr
  have hs := (mem_many hr).1
  rw [hs, List.length_append]
  exact Nat.le_add_left _ _

theorem lazy_shrinks (p : α → Bool) : Shrinks (lazy p) := by
  intro s r hr
  obtain ⟨k, -, rfl⟩ := List.mem_map.1 hr
  exact (List.drop_sublist k s).length_le

theorem literal_shrinks (same : α → α → Bool) (word : List α) : Shrinks (literal same word) := by
  intro s r hr
  obtain ⟨hs, -⟩ := mem_literal hr
  rw [hs, List.length_append]
  exact Nat.le_add_left _ _

theorem Shrinks.either {n : Matcher α β} (hm : Shrinks m) (hn : Shrinks n) :
    Shrinks (Matcher.either m n) := by
  intro s r hr
  rcases List.mem_append.1 hr with hr | hr
  · exact hm s r hr
  · exact hn s r hr

theorem Shrinks.optional {m : Matcher α (List α)} (hm : Shrinks m) : Shrinks (Matcher.optional m) :=
  Shrinks.either hm (Shrinks.pure [])

end shrinks

/-! ## Up to a stop -/

section upTo
variable {γ : Type} {stop : α}

/-- The pattern looks no further than the first `stop`, and does not take it. -/
def UpTo (stop : α) (m : Matcher α β) : Prop :=
  ∀ name : List α, stop ∉ name → ∃ rs : List (β × List α), (∀ r ∈ rs, stop ∉ r.2) ∧
    ∀ s, m (name ++ stop :: s) = rs.map fun r => (r.1, r.2 ++ stop :: s)

theorem UpTo.pure (stop : α) (b : β) : UpTo stop (Pure.pure b : Matcher α β) := by
  intro name hname
  refine ⟨[(b, name)], ?_, fun s => rfl⟩
  intro r hr
  rw [List.mem_singleton.1 hr]
  exact hname

theorem UpTo.bind {f : β → Matcher α γ} (hm : UpTo stop m) (hf : ∀ b, UpTo stop (f b)) :
    UpTo stop (m >>= f) := by
  intro name hname
  obtain ⟨rs, hrs, heq⟩ := hm name hname
  have hrest : ∀ rs : List (β × List α), (∀ r ∈ rs, stop ∉ r.2) →
      ∃ qs : List (γ × List α), (∀ q ∈ qs, stop ∉ q.2) ∧
        ∀ s, (rs.flatMap fun r => f r.1 (r.2 ++ stop :: s)) =
          qs.map fun q => (q.1, q.2 ++ stop :: s) := by
    intro rs hrs
    induction rs with
    | nil => exact ⟨[], by simp, fun s => rfl⟩
    | cons r rs ih =>
      obtain ⟨qs, hqs, hqeq⟩ := ih fun r' hr' => hrs r' (List.mem_cons_of_mem _ hr')
      obtain ⟨ps, hps, hpeq⟩ := hf r.1 r.2 (hrs r List.mem_cons_self)
      refine ⟨ps ++ qs, fun q hq => ?_, fun s => ?_⟩
      · rcases List.mem_append.1 hq with hq | hq
        · exact hps q hq
        · exact hqs q hq
      · rw [List.flatMap_cons, hpeq, hqeq, List.map_append]
  obtain ⟨qs, hqs, hqeq⟩ := hrest rs hrs
  refine ⟨qs, hqs, fun s => ?_⟩
  rw [bind_apply, heq, List.flatMap_map]
  exact hqeq s

theorem UpTo.either {n : Matcher α β} (hm : UpTo stop m) (hn : UpTo stop n) :
    UpTo stop (Matcher.either m n) := by
  intro name hname
  obtain ⟨rs, hrs, heq⟩ := hm name hname
  obtain ⟨qs, hqs, hqeq⟩ := hn name hname
  refine ⟨rs ++ qs, fun r hr => ?_, fun s => ?_⟩
  · rcases List.mem_append.1 hr with hr | hr
    · exact hrs r hr
    · exact hqs r hr
  · show m _ ++ n _ = _
    rw [heq, hqeq, List.map_append]

theorem UpTo.optional {m : Matcher α (List α)} (hm : UpTo stop m) :
    UpTo stop (Matcher.optional m) :=
  UpTo.either hm (UpTo.pure stop [])

theorem UpTo.one {p : α → Bool} (hp : p stop = false) : UpTo stop (Matcher.one p) := by
  intro name hname
  cases name with
  | nil =>
    refine ⟨[], by simp, fun s => ?_⟩
    rw [List.nil_append, one_cons, hp]
    rfl
  | cons a name =>
    by_cases ha : p a = true
    · refine ⟨[([a], name)], ?_, fun s => ?_⟩
      · intro r hr
        rw [List.mem_singleton.1 hr]
        exact fun h => hname (List.mem_cons_of_mem _ h)
      · rw [List.cons_append, one_cons, if_pos ha]
        rfl
    · refine ⟨[], by simp, fun s => ?_⟩
      rw [List.cons_append, one_cons, if_neg ha]
      rfl

theorem UpTo.many {p : α → Bool} (hp : p stop = false) (lo : Nat) :
    UpTo stop (Matcher.many p lo) := by
  intro name hname
  have hrun : ∀ s, (name ++ stop :: s).takeWhile p = name.takeWhile p := by
    intro s
    rw [List.takeWhile_append]
    split
    · rename_i hall
      have hsame : name.takeWhile p = name := (List.takeWhile_prefix p).eq_of_length hall
      rw [List.takeWhile_cons_of_neg (by rw [hp]; exact Bool.false_ne_true), List.append_nil, hsame]
    · rfl
  refine ⟨((List.range' lo ((name.takeWhile p).length + 1 - lo)).reverse).map fun k =>
    (name.take k, name.drop k), ?_, fun s => ?_⟩
  · intro r hr
    obtain ⟨k, -, rfl⟩ := List.mem_map.1 hr
    exact fun h => hname (List.mem_of_mem_drop h)
  · have hlen : (name.takeWhile p).length ≤ (name ++ stop :: s).length := by
      have hle := (List.takeWhile_prefix (l := name) p).length_le
      rw [List.length_append]
      omega
    unfold Matcher.many greedy
    rw [hrun, Nat.min_eq_right hlen, List.map_map]
    refine List.map_congr_left fun k hk => ?_
    have hk' : k ≤ name.length := by
      have hle := (List.takeWhile_prefix (l := name) p).length_le
      have hrange := List.mem_range'_1.1 (List.mem_reverse.1 hk)
      omega
    rw [List.take_append_of_le_length hk', List.drop_append_of_le_length hk']
    rfl

theorem UpTo.literal {same : α → α → Bool} {word : List α} (h : ∀ a ∈ word, same a stop = false) :
    UpTo stop (Matcher.literal same word) := by
  induction word with
  | nil =>
    intro name hname
    refine ⟨[([], name)], ?_, fun s => ?_⟩
    · intro r hr
      rw [List.mem_singleton.1 hr]
      exact hname
    · cases name <;> rfl
  | cons a word ih =>
    intro name hname
    cases name with
    | nil =>
      refine ⟨[], by simp, fun s => ?_⟩
      rw [List.nil_append, literal_cons, h a List.mem_cons_self]
      rfl
    | cons c name =>
      obtain ⟨rs, hrs, heq⟩ := ih (fun b hb => h b (List.mem_cons_of_mem _ hb)) name
        fun hmem => hname (List.mem_cons_of_mem _ hmem)
      by_cases hc : same a c = true
      · refine ⟨rs.map fun r => (c :: r.1, r.2), ?_, fun s => ?_⟩
        · intro r hr
          obtain ⟨q, hq, rfl⟩ := List.mem_map.1 hr
          exact hrs q hq
        · rw [List.cons_append, literal_cons, if_pos hc, heq, List.map_map, List.map_map]
          rfl
      · refine ⟨[], by simp, fun s => ?_⟩
        rw [List.cons_append, literal_cons, if_neg hc]
        rfl

/-- The pattern, and then the stop. -/
def closedBy [DecidableEq α] (stop : α) (m : Matcher α β) : Matcher α Unit := do
  let _ ← m
  let _ ← one (· = stop)
  pure ()

/-- **A pattern up to a stop, and then the stop**, leaves what follows the first stop, and does so
whatever that is. -/
theorem UpTo.closedBy [DecidableEq α] (hm : UpTo stop m) {name : List α} (hname : stop ∉ name) :
    ∃ hits : Bool, ∀ s, (Matcher.closedBy stop m (name ++ stop :: s)).head?.map Prod.snd =
      if hits then some s else none := by
  obtain ⟨rs, hrs, heq⟩ := hm name hname
  refine ⟨rs.any fun r => r.2.isEmpty, fun s => ?_⟩
  unfold Matcher.closedBy
  rw [bind_apply, heq, List.flatMap_map]
  clear heq
  induction rs with
  | nil => rfl
  | cons r rs ih =>
    have hrest := ih fun r' hr' => hrs r' (List.mem_cons_of_mem _ hr')
    have hr := hrs r List.mem_cons_self
    obtain ⟨b, t⟩ := r
    cases t with
    | nil =>
      rw [List.flatMap_cons, List.nil_append, bind_apply, one_cons, if_pos (by simp)]
      rfl
    | cons c t =>
      have hc : ¬ c = stop := by
        rintro rfl
        exact hr List.mem_cons_self
      rw [List.flatMap_cons, List.cons_append, bind_apply, one_cons, if_neg (by simpa using hc)]
      exact hrest

/-- It takes the stop at least. -/
theorem closedBy_consumes [DecidableEq α] (stop : α) (hm : Shrinks m) :
    Consumes (Matcher.closedBy stop m) :=
  hm.bind_consumes fun _ => (one_consumes _).bind fun _ => Shrinks.pure ()

end upTo

end Lib.Matcher

/-! ## In the source of a document -/

namespace Lib.Markup

open Lib.Matcher

variable {β : Type} {m : Matcher Char β} {repl s : List Char} {pieces : List Piece}

/-- The tags `hits` picks, replaced by a text. -/
def Piece.replace (hits : List Char → Bool) (repl : List Char) : Piece → Piece
  | tag name => if hits name then text repl else tag name
  | text content => text content

theorem replace_hit {hits : List Char → Bool} {name : List Char} (h : hits name = true)
    (repl : List Char) : (Piece.tag name).replace hits repl = .text repl := if_pos h

theorem replace_miss {hits : List Char → Bool} {name : List Char} (h : ¬ hits name = true)
    (repl : List Char) : (Piece.tag name).replace hits repl = .tag name := if_neg h

/-- A pattern that begins with a bracket. -/
def Opens (m : Matcher Char β) : Prop :=
  ∀ c s, c ≠ '<' → m (c :: s) = []

/-- The tags have no brackets inside. -/
def Bracketed (pieces : List Piece) : Prop :=
  ∀ name ∈ tagsOf pieces, '<' ∉ name ∧ '>' ∉ name

theorem Opens.bind {γ : Type} {f : β → Matcher Char γ} (hm : Opens m) : Opens (m >>= f) :=
  fun c s hc => bind_of_nil (hm c s hc)

theorem Opens.either {n : Matcher Char β} (hm : Opens m) (hn : Opens n) :
    Opens (Matcher.either m n) := by
  intro c s hc
  show m (c :: s) ++ n (c :: s) = []
  rw [hm c s hc, hn c s hc]
  rfl

theorem opens_one : Opens (one (· = '<')) := by
  intro c s hc
  rw [one_cons, if_neg (by simpa using hc)]

/-- A pattern up to the end of a tag takes the tag whole or not at all. -/
theorem closedBy_tag (hm : UpTo '>' m) {name : List Char} (hname : '>' ∉ name) (s : List Char) :
    (closedBy '>' m ('<' :: (name ++ '>' :: s))).head?.map Prod.snd =
      if (closedBy '>' m (Piece.tag name).source).head?.isSome then some s else none := by
  have hopen : '>' ∉ '<' :: name := by
    rw [List.mem_cons]
    exact fun h => h.elim (by decide) hname
  obtain ⟨hits, hhits⟩ := hm.closedBy hopen
  have hself := hhits []
  have hsome : (closedBy '>' m (Piece.tag name).source).head?.isSome = hits := by
    show (closedBy '>' m ('<' :: name ++ '>' :: [])).head?.isSome = hits
    rw [← Option.isSome_map, hself]
    cases hits <;> rfl
  rw [hsome]
  exact hhits s

theorem lt_not_mem_escape (content : List Char) : '<' ∉ escape content :=
  fun h => (escape_safe h).1 rfl

theorem source_tag_append (name s : List Char) :
    (Piece.tag name).source ++ s = '<' :: (name ++ '>' :: s) := by
  show '<' :: (name ++ ['>']) ++ s = _
  rw [List.cons_append, List.append_assoc]
  rfl

/-- Nothing is replaced where no bracket opens. -/
theorem sub_append_of_opens (hm : Opens m) {first : List Char} (h : '<' ∉ first) (s : List Char) :
    sub m repl (first ++ s) = first ++ sub m repl s := by
  refine sub_append (fun c hc t => hm c t ?_) s
  rintro rfl
  exact h hc

/-- **Replacing in a document** replaces the tags the pattern takes whole. -/
theorem sub_source (hm : Opens m) (hconsumes : Consumes m) {hits : List Char → Bool}
    (hrepl : escape repl = repl) (hpieces : Bracketed pieces)
    (htags : ∀ name ∈ tagsOf pieces, ∀ s,
      (m ('<' :: (name ++ '>' :: s))).head?.map Prod.snd = if hits name then some s else none) :
    sub m repl (source pieces) = source (pieces.map (Piece.replace hits repl)) := by
  induction pieces with
  | nil => rfl
  | cons piece pieces ih =>
    rw [source_cons, List.map_cons, source_cons]
    cases piece with
    | text content =>
      have hrest := ih hpieces htags
      show sub m repl (escape content ++ source pieces) = escape content ++ _
      rw [sub_append_of_opens hm (lt_not_mem_escape content), hrest]
    | tag name =>
      have hrest := ih (fun n hn => hpieces n (List.mem_cons_of_mem _ hn))
        fun n hn => htags n (List.mem_cons_of_mem _ hn)
      have hname := hpieces name List.mem_cons_self
      have hhead := htags name List.mem_cons_self (source pieces)
      rw [source_tag_append]
      by_cases hhits : hits name = true
      · rw [if_pos hhits] at hhead
        rw [replace_hit hhits]
        obtain ⟨r, hr, hsnd⟩ := Option.map_eq_some_iff.1 hhead
        rw [sub_of_some hconsumes hr, hsnd, hrest]
        show repl ++ _ = escape repl ++ _
        rw [hrepl]
      · rw [if_neg hhits] at hhead
        rw [replace_miss hhits]
        have hskip : sub m repl (name ++ '>' :: source pieces) =
            name ++ '>' :: sub m repl (source pieces) := by
          have hclose : sub m repl ('>' :: source pieces) = '>' :: sub m repl (source pieces) :=
            sub_of_none (by rw [hm '>' _ (by decide)]; rfl)
          rw [sub_append_of_opens hm hname.1, hclose]
        rw [sub_of_none (Option.map_eq_none_iff.1 hhead), hskip, hrest, source_tag_append]

/-- A pattern that takes no tag matches nowhere in a document. -/
theorem before_source (hm : Opens m) (hpieces : Bracketed pieces)
    (htags : ∀ name ∈ tagsOf pieces, ∀ s, m ('<' :: (name ++ '>' :: s)) = []) (s : List Char) :
    before m (source pieces ++ s) = source pieces ++ before m s := by
  have hskip : ∀ {first : List Char}, '<' ∉ first → ∀ t, before m (first ++ t) =
      first ++ before m t := by
    intro first hfirst t
    induction first with
    | nil => rfl
    | cons c first ih =>
      have hc : c ≠ '<' := by
        rintro rfl
        exact hfirst List.mem_cons_self
      rw [List.cons_append, before_of_none (by rw [hm c _ hc]; rfl),
        ih fun hmem => hfirst (List.mem_cons_of_mem _ hmem)]
      rfl
  induction pieces with
  | nil => rfl
  | cons piece pieces ih =>
    rw [source_cons, List.append_assoc, List.append_assoc]
    cases piece with
    | text content =>
      have hrest := ih hpieces htags
      show before m (escape content ++ _) = escape content ++ _
      rw [hskip (lt_not_mem_escape content), hrest]
    | tag name =>
      have hrest := ih (fun n hn => hpieces n (List.mem_cons_of_mem _ hn))
        fun n hn => htags n (List.mem_cons_of_mem _ hn)
      have hname := hpieces name List.mem_cons_self
      have hnone := htags name List.mem_cons_self (source pieces ++ s)
      have hclose : before m ('>' :: (source pieces ++ s)) =
          '>' :: (source pieces ++ before m s) := by
        rw [before_of_none (by rw [hm '>' _ (by decide)]; rfl), hrest]
      rw [source_tag_append, source_tag_append, before_of_none (by rw [hnone]; rfl), hskip hname.1,
        hclose]

end Lib.Markup
