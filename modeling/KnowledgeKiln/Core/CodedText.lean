import KnowledgeKiln.Core.Substitution

/-!
# Marks in a text that is written in codes

Each character of a text is written as a code of one or more characters, and a pattern is then
wrapped where it matches what is written. A match may begin or end inside a code.

* `Unsplit`: the text, read along the matches; none begins or ends inside a code.
* `Intact`: what is written, read as wrappers and whole codes.
* `intact_iff`: the second says of the result what the first says of the text.
-/
namespace KnowledgeKiln.Core.Coded

open Subst

/-- Codes, and the two halves of a wrapper. -/
structure Coding where
  code : Char → Str
  opening : Str
  closing : Str

namespace Coding

variable (k : Coding)

def encode (s : Str) : Str := s.flatMap k.code

/-- `\1` between the two halves. -/
def wrap (m : Str) : Str := k.opening ++ m ++ k.closing

/-- Wrappers begin with a character that no code has, and each begins in its own way. No beginning
of a code is the codes of a text. -/
structure Lawful : Prop where
  code_ne : ∀ c, k.code c ≠ []
  inside : ∀ c n u, 0 < n → n < (k.code c).length → (k.code c).take n ≠ k.encode u
  delimiter : ∃ d opening closing, k.opening = d :: opening ∧ k.closing = d :: closing ∧
    ∀ c, d ∉ k.code c
  apart : ∀ x y, k.opening ++ x ≠ k.closing ++ y

/-- What is written consists of wrappers and whole codes. -/
inductive Intact : Str → Str → Prop
  | nil : Intact [] []
  | code (c : Char) {s o : Str} : Intact s o → Intact (c :: s) (k.code c ++ o)
  | opening {s o : Str} : Intact s o → Intact s (k.opening ++ o)
  | closing {s o : Str} : Intact s o → Intact s (k.closing ++ o)

/-- The text falls into stretches whose codes are a match, and characters in whose codes none
begins. -/
inductive Unsplit (find : Str → Option Nat) : Str → Prop
  | nil : Unsplit find []
  | hit (u : Str) {s : Str} : find (k.encode (u ++ s)) = some (k.encode u).length →
      Unsplit find s → Unsplit find (u ++ s)
  | miss (c : Char) {s : Str} :
      (∀ n < (k.code c).length, find ((k.encode (c :: s)).drop n) = none) →
      Unsplit find s → Unsplit find (c :: s)

variable {k}

theorem encode_cons (c : Char) (s : Str) : k.encode (c :: s) = k.code c ++ k.encode s :=
  List.flatMap_cons

theorem encode_append (s t : Str) : k.encode (s ++ t) = k.encode s ++ k.encode t :=
  List.flatMap_append

theorem intact_encode {s o : Str} (h : k.Intact s o) : ∀ u : Str,
    k.Intact (u ++ s) (k.encode u ++ o)
  | [] => h
  | c :: u => by
    rw [encode_cons, List.append_assoc]
    exact .code c (intact_encode h u)

/-! ## Reading what is written -/

section
variable {s o : Str}

/-- No code begins a wrapper. -/
theorem code_append_ne (law : k.Lawful) (c : Char) (x y : Str) :
    k.code c ++ x ≠ k.opening ++ y ∧ k.code c ++ x ≠ k.closing ++ y := by
  obtain ⟨d, opening, closing, hopening, hclosing, hcode⟩ := law.delimiter
  obtain ⟨a, r, hc⟩ := List.exists_cons_of_ne_nil (law.code_ne c)
  have hne : a ≠ d := by
    rintro rfl
    exact hcode c (by rw [hc]; exact List.mem_cons_self)
  rw [hopening, hclosing, hc]
  exact ⟨fun h => hne (List.cons.inj h).1, fun h => hne (List.cons.inj h).1⟩

theorem intact_of_opening (law : k.Lawful) (h : k.Intact s (k.opening ++ o)) : k.Intact s o := by
  obtain ⟨d, opening, closing, hopening, -, -⟩ := law.delimiter
  generalize hx : k.opening ++ o = x at h
  cases h with
  | nil =>
    rw [hopening] at hx
    cases hx
  | code c h => exact absurd hx.symm (code_append_ne law c _ o).1
  | opening h => rwa [List.append_cancel_left hx]
  | closing h => exact absurd hx (law.apart _ _)

theorem intact_of_closing (law : k.Lawful) (h : k.Intact s (k.closing ++ o)) : k.Intact s o := by
  obtain ⟨d, opening, closing, -, hclosing, -⟩ := law.delimiter
  generalize hx : k.closing ++ o = x at h
  cases h with
  | nil =>
    rw [hclosing] at hx
    cases hx
  | code c h => exact absurd hx.symm (code_append_ne law c _ o).2
  | opening h => exact absurd hx.symm (law.apart _ _)
  | closing h => rwa [List.append_cancel_left hx]

theorem intact_of_code (law : k.Lawful) {c : Char} (h : k.Intact (c :: s) (k.code c ++ o)) :
    k.Intact s o := by
  generalize hx : k.code c ++ o = x at h
  cases h with
  | code c h => rwa [List.append_cancel_left hx]
  | opening h => exact absurd hx (code_append_ne law c o _).1
  | closing h => exact absurd hx (code_append_ne law c o _).2

/-- A stretch in front of a wrapper is the codes of a text. -/
theorem intact_split {d : Char} {opening closing : Str} (hopening : k.opening = d :: opening)
    (hclosing : k.closing = d :: closing) (hcode : ∀ c, d ∉ k.code c) {s x : Str}
    (h : k.Intact s x) : ∀ {f o : Str}, d ∉ f → x = f ++ d :: o →
    ∃ u s', s = u ++ s' ∧ f = k.encode u ∧ k.Intact s' (d :: o) := by
  induction h with
  | nil =>
    intro f o _ hx
    simp at hx
  | code c h ih =>
    intro f o hf hx
    obtain ⟨f', rfl⟩ := prefix_of_not_mem (hcode c) ⟨_, hx⟩
    have hf' : d ∉ f' := fun h => hf (List.mem_append_right _ h)
    rw [List.append_assoc] at hx
    obtain ⟨u, s', rfl, rfl, hrest⟩ := ih hf' (List.append_cancel_left hx)
    exact ⟨c :: u, s', rfl, encode_cons c u, hrest⟩
  | @opening s o' h _ =>
    intro f o hf hx
    cases f with
    | nil =>
      have hrest : k.Intact s ([] ++ d :: o) := hx ▸ Intact.opening h
      exact ⟨[], s, rfl, rfl, hrest⟩
    | cons a f =>
      rw [hopening] at hx
      exact absurd ((List.cons.inj hx).1 ▸ List.mem_cons_self) hf
  | @closing s o' h _ =>
    intro f o hf hx
    cases f with
    | nil =>
      have hrest : k.Intact s ([] ++ d :: o) := hx ▸ Intact.closing h
      exact ⟨[], s, rfl, rfl, hrest⟩
    | cons a f =>
      rw [hclosing] at hx
      exact absurd ((List.cons.inj hx).1 ▸ List.mem_cons_self) hf

end

/-! ## Wrapping the matches -/

section
variable {find : Str → Option Nat}

/-- A stretch that no match begins in, by its positions. -/
theorem subst_of_drops {write : Str → Str} {z y : Str}
    (h : ∀ n < z.length, find ((z ++ y).drop n) = none) :
    subst find write 0 (z ++ y) = z ++ subst find write 0 y := by
  refine subst_free ?_
  rintro t ht ⟨r, rfl⟩
  have hlt : r.length < (r ++ t).length := by
    have hpos := List.length_pos_iff.mpr ht
    rw [List.length_append]
    omega
  have hnone := h r.length hlt
  rwa [List.append_assoc, List.drop_left, ← chars_str (t ++ y)] at hnone

theorem exists_least {p : Nat → Prop} {l : Nat} (h : ¬∀ n < l, p n) :
    ∃ n, (n < l ∧ ¬p n) ∧ ∀ m < n, p m := by
  classical
  push Not at h
  obtain ⟨n, hn, hp⟩ := h
  have hex : ∃ n, ¬p n := ⟨n, hp⟩
  refine ⟨Nat.find hex, ⟨(Nat.find_min' hex hp).trans_lt hn, Nat.find_spec hex⟩, ?_⟩
  exact fun m hm => not_not.mp (Nat.find_min hex hm)

/-- Up to the first match, and from it on. -/
theorem subst_first {write : Str → Str} {e : Str} {n m : Nat}
    (hleast : ∀ i < n, find (e.drop i) = none) (hm : find (e.drop n) = some m) (hpos : 0 < m)
    (hle : m ≤ (e.drop n).length) :
    subst find write 0 e =
      e.take n ++ (write ((e.drop n).take m) ++ subst find write 0 ((e.drop n).drop m)) := by
  have hne : e.drop n ≠ [] := List.length_pos_iff.mp (Nat.lt_of_lt_of_le hpos hle)
  have hm' : find (chars (e.drop n)) = some m := by rwa [chars_str]
  have hdrops : ∀ i < (e.take n).length, find ((e.take n ++ e.drop n).drop i) = none := by
    intro i hi
    rw [List.take_append_drop]
    exact hleast i (Nat.lt_of_lt_of_le hi (List.length_take_le n e))
  calc subst find write 0 e = subst find write 0 (e.take n ++ e.drop n) := by
        rw [List.take_append_drop]
    _ = e.take n ++ subst find write 0 (e.drop n) := subst_of_drops hdrops
    _ = _ := by rw [subst_some hne hm' hpos]

theorem subst_hit (hpos : ∀ s n, find s = some n → 0 < n) {u s : Str}
    (h : find (k.encode (u ++ s)) = some (k.encode u).length) :
    subst find k.wrap 0 (k.encode (u ++ s)) =
      k.wrap (k.encode u) ++ subst find k.wrap 0 (k.encode s) := by
  have hlen := hpos _ _ h
  have hne : k.encode (u ++ s) ≠ [] := by
    rw [encode_append]
    exact List.append_ne_nil_of_left_ne_nil (List.length_pos_iff.mp hlen) _
  have h' : find (chars (k.encode (u ++ s))) = some (k.encode u).length := by rwa [chars_str]
  rw [subst_some hne h' hlen, encode_append, List.take_left, List.drop_left]

theorem subst_miss {c : Char} {s : Str}
    (h : ∀ n < (k.code c).length, find ((k.encode (c :: s)).drop n) = none) :
    subst find k.wrap 0 (k.encode (c :: s)) = k.code c ++ subst find k.wrap 0 (k.encode s) := by
  rw [encode_cons] at h ⊢
  exact subst_of_drops h

/-- In the codes of a text that is read along the matches, no wrapper stands in a code. -/
theorem intact_of_unsplit (hpos : ∀ s n, find s = some n → 0 < n) {text : Str}
    (h : k.Unsplit find text) : k.Intact text (subst find k.wrap 0 (k.encode text)) := by
  induction h with
  | nil => exact .nil
  | @hit u s hfind _ ih =>
    rw [subst_hit hpos hfind, wrap, List.append_assoc, List.append_assoc]
    exact .opening (intact_encode (.closing ih) u)
  | @miss c s hnone _ ih =>
    rw [subst_miss hnone]
    exact .code c ih

/-- And conversely. -/
theorem unsplit_of_intact (law : k.Lawful)
    (hpos : ∀ s n, find s = some n → 0 < n ∧ n ≤ s.length) (text : Str)
    (h : k.Intact text (subst find k.wrap 0 (k.encode text))) : k.Unsplit find text := by
  obtain ⟨d, opening, closing, hopening, hclosing, hcode⟩ := law.delimiter
  have hd : ∀ s, d ∉ k.encode s := by
    intro s hmem
    obtain ⟨c, -, hc⟩ := List.mem_flatMap.mp hmem
    exact hcode c hc
  induction hlen : text.length using Nat.strong_induction_on generalizing text with
  | h l ih =>
    cases text with
    | nil => exact .nil
    | cons c s =>
      by_cases hfree : ∀ n < (k.code c).length, find ((k.encode (c :: s)).drop n) = none
      · -- no match begins in the first code
        have hlt : s.length < l := by
          rw [← hlen]
          exact Nat.lt_succ_self _
        rw [subst_miss hfree] at h
        exact .miss c hfree (ih _ hlt s (intact_of_code law h) rfl)
      · -- the first match begins there
        obtain ⟨n, ⟨hn, hsome⟩, hleast⟩ := exists_least hfree
        obtain ⟨m, hm⟩ := Option.ne_none_iff_exists'.mp hsome
        obtain ⟨hmpos, hmle⟩ := hpos _ _ hm
        rw [subst_first hleast hm hmpos hmle, wrap, List.append_assoc, List.append_assoc] at h
        have hwhole : n = 0 := by
          by_contra hzero
          have hfront : d ∉ (k.encode (c :: s)).take n := fun h => hd _ (List.mem_of_mem_take h)
          rw [hopening, List.cons_append] at h
          obtain ⟨u, s', -, hu, -⟩ := intact_split hopening hclosing hcode h hfront rfl
          rw [encode_cons, List.take_append_of_le_length (Nat.le_of_lt hn)] at hu
          exact law.inside c n u (Nat.pos_of_ne_zero hzero) hn hu
        subst hwhole
        rw [List.take_zero, List.nil_append, List.drop_zero] at h
        rw [List.drop_zero] at hm hmle
        have hmatch : d ∉ (k.encode (c :: s)).take m := fun h => hd _ (List.mem_of_mem_take h)
        have hinside := intact_of_opening law h
        rw [hclosing, List.cons_append] at hinside
        obtain ⟨u, s', hs, hu, hrest⟩ := intact_split hopening hclosing hcode hinside hmatch rfl
        rw [← List.cons_append, ← hclosing] at hrest
        have hlen' : (k.encode u).length = m := by
          rw [← hu, List.length_take, min_eq_left hmle]
        have hune : 0 < u.length := by
          cases u with
          | nil => exact absurd hlen' (Nat.ne_of_lt hmpos)
          | cons a u => exact Nat.succ_pos _
        have hlt : s'.length < l := by
          rw [← hlen, hs, List.length_append]
          omega
        rw [hs] at hm hrest ⊢
        rw [encode_append, List.drop_left' hlen'] at hrest
        refine .hit u ?_ (ih _ hlt s' (intact_of_closing law hrest) rfl)
        rw [hm, hlen']

/-- **Wrapping keeps codes whole** exactly if no match begins or ends inside one. -/
theorem intact_iff (law : k.Lawful) (hpos : ∀ s n, find s = some n → 0 < n ∧ n ≤ s.length)
    (text : Str) :
    k.Intact text (subst find k.wrap 0 (k.encode text)) ↔ k.Unsplit find text :=
  ⟨unsplit_of_intact law hpos text, intact_of_unsplit fun s n h => (hpos s n h).1⟩

end

end Coding

end KnowledgeKiln.Core.Coded
