import KnowledgeKiln.Core.Str

/-!
# Substitution in a text

`subst find write` is `pattern.sub(...)` and `str.replace(...)`: the text is read from the left,
and where `find` says how far a match reaches, `write` says what stands there instead. `find` looks
at nothing but the text behind it, and its matches are not empty.

The characters may be of any type that has characters in it, so that a text whose characters are
marked is rewritten by the same function (`chars_subst`).

* `subst_chunk`: a pattern whose matches end at the first `e` rewrites each piece in front of an
  `e` on its own.
* `replace_append`: so does `replace`, whatever separates the pieces.
* `not_infix_replace`: what was replaced does not occur any more.
* `replaced_iff`: nothing is left of the copies of a text, and of nothing else.
-/
namespace KnowledgeKiln.Core

/-- A type of characters. -/
class Glyph (α : Type) where
  char : α → Char
  /-- A character that is written in. -/
  new : Char → α

namespace Subst

instance : Glyph Char := ⟨id, id⟩

/-- A character, and whether it is followed. -/
abbrev Marked := Char × Bool

instance : Glyph Marked := ⟨Prod.fst, (·, false)⟩

variable {α : Type} [Glyph α]

def chars (s : List α) : Str := s.map Glyph.char

def fresh (s : Str) : List α := s.map Glyph.new

/-- Behind `skip` characters, which belong to a match. -/
def subst (find : Str → Option Nat) (write : List α → List α) (skip : Nat) : List α → List α
  | [] => []
  | c :: s =>
    match skip with
    | k + 1 => subst find write k s
    | 0 =>
      match find (chars (c :: s)) with
      | some n => write ((c :: s).take n) ++ subst find write (n - 1) s
      | none => c :: subst find write 0 s

/-- The length of `old` where it stands. -/
def findStr (old s : Str) : Option Nat := if startsWith s old then some old.length else none

/-- `s.replace(old, new)`, for an `old` that is not empty. -/
def replace (old new : Str) (s : List α) : List α := subst (findStr old) (fun _ => fresh new) 0 s

@[simp] theorem chars_nil : chars ([] : List α) = [] := rfl

@[simp] theorem chars_cons (c : α) (s : List α) : chars (c :: s) = Glyph.char c :: chars s := rfl

@[simp] theorem chars_append (s t : List α) : chars (s ++ t) = chars s ++ chars t :=
  List.map_append

@[simp] theorem chars_length (s : List α) : (chars s).length = s.length := List.length_map _

@[simp] theorem chars_str (s : Str) : chars s = s := List.map_id s

@[simp] theorem char_marked (m : Marked) : Glyph.char m = m.1 := rfl

/-- A text that is followed, or not. -/
def mark (b : Bool) (s : Str) : List Marked := s.map (·, b)

@[simp] theorem mark_nil (b : Bool) : mark b [] = [] := rfl

@[simp] theorem mark_cons (b : Bool) (c : Char) (s : Str) : mark b (c :: s) = (c, b) :: mark b s :=
  rfl

@[simp] theorem mark_append (b : Bool) (s t : Str) : mark b (s ++ t) = mark b s ++ mark b t :=
  List.map_append

@[simp] theorem chars_mark (s : Str) (b : Bool) : chars (mark b s) = s := by
  simp [chars, mark, Glyph.char, Function.comp_def]

theorem fresh_marked (s : Str) : (fresh s : List Marked) = mark false s := rfl

/-- Nothing that is followed. -/
def Unmarked (s : List Marked) : Prop := ∀ m ∈ s, m.2 = false

theorem unmarked_append {s t : List Marked} : Unmarked (s ++ t) ↔ Unmarked s ∧ Unmarked t :=
  List.forall_mem_append

theorem unmarked_cons {m : Marked} {s : List Marked} :
    Unmarked (m :: s) ↔ m.2 = false ∧ Unmarked s :=
  List.forall_mem_cons

theorem unmarked_mark (s : Str) : Unmarked (mark false s) := by
  intro m hm
  obtain ⟨c, -, rfl⟩ := List.mem_map.mp hm
  rfl

theorem unmarked_of_begins {s : List Marked} {t : Str} {rest : List Marked}
    (h : s <+: mark false t ++ rest) (hlen : s.length ≤ t.length) : Unmarked s := by
  have hs : s <+: mark false t := by
    refine List.prefix_of_prefix_length_le h (List.prefix_append _ _) ?_
    rwa [mark, List.length_map]
  exact fun m hm => unmarked_mark t m (hs.subset hm)

theorem unmarked_mark_true {s : Str} : Unmarked (mark true s) ↔ s = [] := by
  cases s with
  | nil => exact iff_of_true nofun rfl
  | cons c s =>
    refine iff_of_false ?_ (List.cons_ne_nil c s)
    intro h
    cases h (c, true) List.mem_cons_self

@[simp] theorem fresh_str (s : Str) : (fresh s : Str) = s := List.map_id s

/-- A text in front of its first `e`. -/
theorem exists_first {e : Char} : ∀ {s : List α}, e ∈ chars s →
    ∃ z d s', s = z ++ d :: s' ∧ Glyph.char d = e ∧ e ∉ chars z
  | [], h => absurd h List.not_mem_nil
  | c :: s, h => by
    by_cases hc : Glyph.char c = e
    · exact ⟨[], c, s, rfl, hc, List.not_mem_nil⟩
    · have hs : e ∈ chars s := (List.mem_cons.mp h).resolve_left (Ne.symm hc)
      obtain ⟨z, d, s', rfl, hd, hz⟩ := exists_first hs
      refine ⟨c :: z, d, s', rfl, hd, ?_⟩
      rw [chars_cons, List.mem_cons, not_or]
      exact ⟨Ne.symm hc, hz⟩

section
variable {find : Str → Option Nat} {write : List α → List α}

theorem subst_skip : ∀ (k : Nat) (s : List α),
    subst find write k s = subst find write 0 (s.drop k)
  | 0, _ => rfl
  | _ + 1, [] => rfl
  | k + 1, _ :: s => subst_skip k s

theorem subst_none {c : α} {s : List α} (h : find (chars (c :: s)) = none) :
    subst find write 0 (c :: s) = c :: subst find write 0 s := by
  rw [subst]
  simp only [h]

theorem subst_some {s : List α} (hs : s ≠ []) {n : Nat} (h : find (chars s) = some n)
    (hn : 0 < n) : subst find write 0 s = write (s.take n) ++ subst find write 0 (s.drop n) := by
  obtain ⟨k, rfl⟩ := Nat.exists_eq_add_of_lt hn
  cases s with
  | nil => exact absurd rfl hs
  | cons c s =>
    rw [subst]
    simp only [h]
    rw [subst_skip]
    simp

/-- A stretch that no match begins in. -/
theorem subst_free : ∀ {z y : List α},
    (∀ t, t ≠ [] → t <:+ z → find (chars (t ++ y)) = none) →
    subst find write 0 (z ++ y) = z ++ subst find write 0 y
  | [], _, _ => rfl
  | c :: z, y, h => by
    have hrest : ∀ t, t ≠ [] → t <:+ z → find (chars (t ++ y)) = none :=
      fun t ht hz => h t ht (hz.trans (List.suffix_cons c z))
    have hstep : subst find write 0 (c :: (z ++ y)) = c :: subst find write 0 (z ++ y) :=
      subst_none (h (c :: z) (List.cons_ne_nil c z) List.suffix_rfl)
    rw [List.cons_append, hstep, subst_free hrest, List.cons_append]

/-- What holds of all characters holds behind the substitution, if it does of what is written. -/
theorem subst_forall {P : α → Prop} (hwrite : ∀ m, (∀ c ∈ m, P c) → ∀ c ∈ write m, P c) :
    ∀ (k : Nat) {s : List α}, (∀ c ∈ s, P c) → ∀ c ∈ subst find write k s, P c
  | _, [], _ => nofun
  | k + 1, c :: s, h => subst_forall hwrite k fun c hc => h c (List.mem_cons_of_mem _ hc)
  | 0, c :: s, h => by
    have hs : ∀ c ∈ s, P c := fun c hc => h c (List.mem_cons_of_mem _ hc)
    rw [subst]
    split
    · rename_i n _
      intro d hd
      rcases List.mem_append.mp hd with hd | hd
      · exact hwrite _ (fun c hc => h c (List.mem_of_mem_take hc)) d hd
      · exact subst_forall hwrite (n - 1) hs d hd
    · intro d hd
      rcases List.mem_cons.mp hd with rfl | hd
      · exact h d List.mem_cons_self
      · exact subst_forall hwrite 0 hs d hd

/-- Marks are carried along. -/
theorem chars_subst {write' : Str → Str} (hwrite : ∀ m, chars (write m) = write' (chars m)) :
    ∀ (k : Nat) (s : List α), chars (subst find write k s) = subst find write' k (chars s)
  | _, [] => rfl
  | k + 1, c :: s => chars_subst hwrite k s
  | 0, c :: s => by
    rw [chars_cons, subst, subst, ← chars_cons, chars_str]
    split
    · rw [chars_append, hwrite, chars_subst hwrite, chars, List.map_take]
      rfl
    · rw [chars_cons, chars_subst hwrite]

/-! ## Matches that end at the first `e` -/

/-- A match ends at the first `e` of the text. -/
def EndsAtFirst (e : Char) (find : Str → Option Nat) : Prop :=
  ∀ s n, find s = some n → n = (s.takeWhile (· != e)).length + 1

/-- The piece in front of an `e` is kept, or rewritten from some character on. -/
theorem subst_chunk {e : Char} (hends : EndsAtFirst e find) {d : α} (hd : Glyph.char d = e)
    (y : List α) : ∀ {z : List α}, e ∉ chars z →
    ((∀ t, t <:+ z → find (chars (t ++ d :: y)) = none) ∧
      subst find write 0 (z ++ d :: y) = z ++ d :: subst find write 0 y) ∨
    ∃ z₀ t, z = z₀ ++ t ∧ (find (chars (t ++ d :: y))).isSome ∧
      subst find write 0 (z ++ d :: y) = z₀ ++ write (t ++ [d]) ++ subst find write 0 y := by
  have hreach : ∀ {t : List α} {n : Nat}, e ∉ chars t → find (chars (t ++ d :: y)) = some n →
      n = t.length + 1 := by
    intro t n ht h
    have hall : ∀ c ∈ chars t, (c != e) = true := by
      intro c hc
      simpa using ne_of_mem_of_not_mem hc ht
    rw [hends _ n h, chars_append, chars_cons, hd, List.takeWhile_append_of_pos hall,
      List.takeWhile_cons_of_neg (by simp), List.append_nil, chars_length]
  have hmatch : ∀ {t : List α} {n : Nat}, e ∉ chars t → find (chars (t ++ d :: y)) = some n →
      subst find write 0 (t ++ d :: y) = write (t ++ [d]) ++ subst find write 0 y := by
    intro t n ht h
    have hn := hreach ht h
    have hlen : (t ++ [d]).length = n := by
      rw [hn, List.length_append, List.length_singleton]
    rw [subst_some (by simp) h (by omega), List.append_cons, List.take_left' hlen,
      List.drop_left' hlen]
  intro z
  induction z with
  | nil =>
    intro hz
    cases h : find (chars ([] ++ d :: y)) with
    | none =>
      refine .inl ⟨?_, subst_none h⟩
      intro t ht
      rwa [List.suffix_nil.mp ht]
    | some n => exact .inr ⟨[], [], rfl, by rw [h]; rfl, hmatch hz h⟩
  | cons c z ih =>
    intro hz
    have hz' : e ∉ chars z := fun h => hz (List.mem_cons_of_mem _ h)
    cases h : find (chars (c :: z ++ d :: y)) with
    | some n => exact .inr ⟨[], c :: z, rfl, by rw [h]; rfl, hmatch hz h⟩
    | none =>
      have hstep : subst find write 0 (c :: z ++ d :: y) =
          c :: subst find write 0 (z ++ d :: y) := subst_none h
      rcases ih hz' with ⟨hnone, hkeep⟩ | ⟨z₀, t, rfl, hsome, hrewrite⟩
      · refine .inl ⟨?_, by rw [hstep, hkeep]; rfl⟩
        intro t ht
        rcases List.suffix_cons_iff.mp ht with rfl | ht
        · exact h
        · exact hnone t ht
      · exact .inr ⟨c :: z₀, t, rfl, hsome, by rw [hstep, hrewrite]; rfl⟩

/-- The text behind an `e` is rewritten on its own. -/
theorem subst_behind {e : Char} (hends : EndsAtFirst e find) {P : α → Prop}
    (hwrite : ∀ m, (∀ c ∈ m, P c) → ∀ c ∈ write m, P c) {d : α} (hd : Glyph.char d = e)
    (hPd : P d) (y : List α) : ∀ {x : List α}, (∀ c ∈ x, P c) →
    ∃ out, subst find write 0 (x ++ d :: y) = out ++ subst find write 0 y ∧ ∀ c ∈ out, P c := by
  have hchunk : ∀ {z : List α} (w : List α) {d : α}, Glyph.char d = e → P d → e ∉ chars z →
      (∀ c ∈ z, P c) → ∃ out, subst find write 0 (z ++ d :: w) = out ++ subst find write 0 w ∧
        ∀ c ∈ out, P c := by
    intro z w d hd hPd hz hPz
    have hone : ∀ c ∈ [d], P c := fun c hc => List.mem_singleton.mp hc ▸ hPd
    rcases subst_chunk hends hd w hz with ⟨-, h⟩ | ⟨z₀, t, rfl, -, h⟩
    · refine ⟨z ++ [d], by rw [h]; simp, ?_⟩
      exact List.forall_mem_append.mpr ⟨hPz, hone⟩
    · obtain ⟨hz₀, ht⟩ := List.forall_mem_append.mp hPz
      refine ⟨z₀ ++ write (t ++ [d]), h, ?_⟩
      exact List.forall_mem_append.mpr ⟨hz₀, hwrite _ (List.forall_mem_append.mpr ⟨ht, hone⟩)⟩
  intro x
  induction hlen : x.length using Nat.strong_induction_on generalizing x with
  | h n ih =>
    intro hPx
    by_cases hx : e ∈ chars x
    · obtain ⟨z, d', x', rfl, hd', hz⟩ := exists_first hx
      obtain ⟨hPz, hPx'⟩ := List.forall_mem_append.mp hPx
      obtain ⟨hPd', hPx'⟩ := List.forall_mem_cons.mp hPx'
      have hlt : x'.length < n := by
        rw [← hlen, List.length_append, List.length_cons]
        omega
      obtain ⟨front, hfront, hPfront⟩ := hchunk (x' ++ d :: y) hd' hPd' hz hPz
      obtain ⟨back, hback, hPback⟩ := ih x'.length hlt rfl hPx'
      refine ⟨front ++ back, ?_, List.forall_mem_append.mpr ⟨hPfront, hPback⟩⟩
      rw [List.append_assoc, List.cons_append, hfront, hback, List.append_assoc]
    · exact hchunk y hd hPd hx hPx

end

/-! ## Copies of a text -/

section
variable {old new : Str}

theorem replace_match (hold : old ≠ []) {m : List α} (hm : chars m = old) (s : List α) :
    replace old new (m ++ s) = fresh new ++ replace old new s := by
  have hne : m ++ s ≠ [] := by
    intro h
    rw [(List.append_eq_nil_iff.mp h).1] at hm
    exact hold hm.symm
  have hlen : m.length = old.length := by
    rw [← hm, chars_length]
  have hfind : findStr old (chars (m ++ s)) = some old.length := by
    refine if_pos (List.isPrefixOf_iff_prefix.mpr ?_)
    rw [chars_append, hm]
    exact List.prefix_append old (chars s)
  rw [replace, subst_some hne hfind (List.length_pos_iff.mpr hold), List.drop_left' hlen]
  rfl

theorem replace_cons {c : α} {s : List α} (h : ¬old <+: chars (c :: s)) :
    replace old new (c :: s) = c :: replace old new s := by
  refine subst_none (if_neg ?_)
  intro hp
  exact h (List.isPrefixOf_iff_prefix.mp hp)

/-- A text is empty, begins with a copy, or with a character that is kept. -/
theorem replace_cases (old : Str) (s : List α) :
    s = [] ∨ (∃ m s', s = m ++ s' ∧ chars m = old) ∨
      ∃ c s', s = c :: s' ∧ ¬old <+: chars (c :: s') := by
  by_cases h : old <+: chars s
  · have hm : chars (s.take old.length) = old := by
      rw [chars, List.map_take]
      exact (List.prefix_iff_eq_take.mp h).symm
    exact .inr (.inl ⟨_, _, (List.take_append_drop old.length s).symm, hm⟩)
  · cases s with
    | nil => exact .inl rfl
    | cons c s => exact .inr (.inr ⟨c, s, rfl, h⟩)

theorem prefix_of_not_mem {u v : Str} {e : Char} (he : e ∉ old) (h : old <+: u ++ e :: v) :
    old <+: u := by
  rcases List.prefix_or_prefix_of_prefix h (List.prefix_append u (e :: v)) with hu | ⟨w, rfl⟩
  · exact hu
  · cases w with
    | nil => simp
    | cons d w =>
      obtain ⟨rfl, -⟩ := List.cons_prefix_cons.mp ((List.prefix_append_right_inj u).mp h)
      exact absurd (List.mem_append_right u List.mem_cons_self) he

/-- A character that is not in `old` separates a text. -/
theorem replace_append (hold : old ≠ []) {d : α} (hd : Glyph.char d ∉ old) (y : List α)
    (x : List α) :
    replace old new (x ++ d :: y) = replace old new x ++ d :: replace old new y := by
  induction hlen : x.length using Nat.strong_induction_on generalizing x with
  | h n ih =>
    rcases replace_cases old x with rfl | ⟨m, x', rfl, hm⟩ | ⟨c, x', rfl, hc⟩
    · refine replace_cons ?_
      intro h
      exact hold (List.prefix_nil.mp (@prefix_of_not_mem old [] (chars y) _ hd h))
    · have hlt : x'.length < n := by
        have hpos := List.length_pos_iff.mpr hold
        rw [← hm, chars_length] at hpos
        rw [← hlen, List.length_append]
        omega
      rw [List.append_assoc, replace_match hold hm, replace_match hold hm, ih _ hlt x' rfl,
        List.append_assoc]
    · have hlt : x'.length < n := by
        rw [← hlen, List.length_cons]
        omega
      have hc' : ¬old <+: chars (c :: (x' ++ d :: y)) := by
        intro h
        rw [← List.cons_append, chars_append, chars_cons] at h
        exact hc (prefix_of_not_mem hd h)
      rw [List.cons_append, replace_cons hc', replace_cons hc, ih _ hlt x' rfl, List.cons_append]

/-- A text without the characters of `new` that the result begins with. -/
theorem prefix_of_replace (hold : old ≠ []) (hnew : new ≠ []) : ∀ {u s : Str},
    (∀ c ∈ u, c ∉ new) → u <+: replace old new s → u <+: s
  | [], s, _, _ => List.nil_prefix
  | a :: u, s, hu, h => by
    rcases replace_cases old s with rfl | ⟨m, s', rfl, hm⟩ | ⟨c, s', rfl, hc⟩
    · exact h
    · rw [replace_match hold hm, fresh_str] at h
      cases new with
      | nil => exact absurd rfl hnew
      | cons b new =>
        obtain ⟨rfl, -⟩ := List.cons_prefix_cons.mp h
        exact absurd List.mem_cons_self (hu a List.mem_cons_self)
    · rw [replace_cons hc] at h
      obtain ⟨rfl, hrest⟩ := List.cons_prefix_cons.mp h
      have hu' : ∀ c ∈ u, c ∉ new := fun c hc => hu c (List.mem_cons_of_mem _ hc)
      exact List.cons_prefix_cons.mpr ⟨rfl, prefix_of_replace hold hnew hu' hrest⟩

theorem infix_of_disjoint (hold : old ≠ []) {s : Str} : ∀ {new : Str}, (∀ c ∈ old, c ∉ new) →
    old <:+: new ++ s → old <:+: s
  | [], _, h => h
  | b :: new, hdisj, h => by
    rcases List.infix_cons_iff.mp h with h | h
    · cases old with
      | nil => exact absurd rfl hold
      | cons a old =>
        obtain ⟨rfl, -⟩ := List.cons_prefix_cons.mp h
        exact absurd List.mem_cons_self (hdisj a List.mem_cons_self)
    · exact infix_of_disjoint hold (fun c hc hn => hdisj c hc (List.mem_cons_of_mem b hn)) h

/-- **What was replaced is gone**, if nothing of it is written in. -/
theorem not_infix_replace (hold : old ≠ []) (hnew : new ≠ []) (hdisj : ∀ c ∈ old, c ∉ new)
    (s : Str) : ¬old <:+: replace old new s := by
  induction hlen : s.length using Nat.strong_induction_on generalizing s with
  | h n ih =>
    rcases replace_cases old s with rfl | ⟨m, s', rfl, hm⟩ | ⟨c, s', rfl, hc⟩
    · intro h
      exact hold (List.infix_nil.mp h)
    · have hlt : s'.length < n := by
        have hpos := List.length_pos_iff.mpr hold
        rw [← hm, chars_length] at hpos
        rw [← hlen, List.length_append]
        omega
      rw [replace_match hold hm, fresh_str]
      exact fun h => ih _ hlt s' rfl (infix_of_disjoint hold hdisj h)
    · have hlt : s'.length < n := by
        rw [← hlen, List.length_cons]
        omega
      rw [replace_cons hc]
      intro h
      rcases List.infix_cons_iff.mp h with h | h
      · rw [← replace_cons hc] at h
        rw [chars_str] at hc
        exact hc (prefix_of_replace hold hnew hdisj h)
      · exact ih _ hlt s' rfl h

/-- Nothing of a text is left exactly if it consists of copies of `old`. -/
theorem replaced_iff (hold : old ≠ []) (s : Str) :
    Unmarked (replace old new (mark true s)) ↔ ∃ k, s = (List.replicate k old).flatten := by
  induction hlen : s.length using Nat.strong_induction_on generalizing s with
  | h n ih =>
    have hpos := List.length_pos_iff.mpr hold
    rcases replace_cases old s with rfl | ⟨m, s', rfl, rfl⟩ | ⟨c, s', rfl, hc⟩
    · constructor
      · exact fun _ => ⟨0, rfl⟩
      · nofun
    · rw [chars_str] at hpos hold ih ⊢
      have hlt : s'.length < n := by
        rw [← hlen, List.length_append]
        omega
      rw [mark_append, replace_match hold (chars_mark m true), unmarked_append, fresh_marked,
        and_iff_right (unmarked_mark new), ih _ hlt s' rfl]
      constructor
      · rintro ⟨k, rfl⟩
        exact ⟨k + 1, rfl⟩
      · rintro ⟨k, hk⟩
        cases k with
        | zero => exact absurd (List.append_eq_nil_iff.mp hk).1 hold
        | succ k => exact ⟨k, List.append_cancel_left hk⟩
    · have hc' : ¬old <+: chars ((c, true) :: mark true s') := by
        rw [chars_str] at hc
        rwa [← mark_cons, chars_mark]
      rw [mark_cons, replace_cons hc']
      constructor
      · intro h
        cases h (c, true) List.mem_cons_self
      · rintro ⟨k, hk⟩
        cases k with
        | zero => cases hk
        | succ k =>
          rw [chars_str, hk] at hc
          exact absurd (List.prefix_append old _) hc

end

end Subst

end KnowledgeKiln.Core
