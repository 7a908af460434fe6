import Mathlib

/-!
# Python `str` as a list of characters

Every Python string of the model is a `Str`, a list of Unicode scalar values;
a literal is written as a Lean string and coerced. The operations below are
`str` methods under their own names, on the values the repository calls them
with.

`lower` is exact for comparisons with ASCII text: besides `A..Z` only U+0130
(`İ`, which lowers to `i` and a combining dot) and U+212A (the Kelvin sign,
which lowers to `k`) have a lower-case form with an ASCII letter in it, so any
other non-ASCII character may stay as it is.
-/
namespace KnowledgeKiln.Core

/-- A Python `str`. -/
abbrev Str := List Char

instance : Coe String Str := ⟨String.toList⟩

instance strLawfulBEq : LawfulBEq Str := List.instLawfulBEq

/-- `c.isspace()`; also `\s` of a `str` pattern. -/
def isSpace (c : Char) : Bool :=
  let n := c.toNat
  (9 ≤ n && n ≤ 13) || (28 ≤ n && n ≤ 32) || n == 0x85 || n == 0xA0 || n == 0x1680 ||
    (0x2000 ≤ n && n ≤ 0x200A) || n == 0x2028 || n == 0x2029 || n == 0x202F || n == 0x205F ||
    n == 0x3000

/-- `s.lstrip()` -/
def lstrip (s : Str) : Str := s.dropWhile isSpace

/-- `s.rstrip()` -/
def rstrip (s : Str) : Str := s.rdropWhile isSpace

/-- `s.strip()` -/
def strip (s : Str) : Str := rstrip (lstrip s)

/-- `s.startswith(p)` -/
def startsWith (s p : Str) : Bool := p.isPrefixOf s

/-- `p in s` -/
def contains (s p : Str) : Bool := decide (p <:+: s)

/-- `sep.join(parts)` -/
def join (sep : Str) (parts : List Str) : Str := sep.intercalate parts

/-- `s.partition(sep)` for a one-character `sep`, without the middle part. -/
def partition (s : Str) (sep : Char) : Str × Str :=
  (s.takeWhile (· != sep), (s.dropWhile (· != sep)).drop 1)

/-- Lower case of one character (see the module doc). -/
def lowerChar (c : Char) : Str :=
  if 'A' ≤ c ∧ c ≤ 'Z' then [Char.ofNat (c.toNat + 32)]
  else if c.toNat = 0x130 then ['i', Char.ofNat 0x307]
  else if c.toNat = 0x212A then ['k']
  else [c]

/-- The characters `str.splitlines` breaks a line at. -/
def isLineBreak (c : Char) : Bool :=
  let n := c.toNat
  (10 ≤ n && n ≤ 13) || (28 ≤ n && n ≤ 30) || n == 0x85 || n == 0x2028 || n == 0x2029

/-- The lines of `s`; `line` is what has been read of the first one, in reverse. -/
def splitlinesFrom (line : Str) : Str → List Str
  | [] => if line = [] then [] else [line.reverse]
  | '\r' :: '\n' :: s => line.reverse :: splitlinesFrom [] s
  | c :: s =>
    if isLineBreak c then line.reverse :: splitlinesFrom [] s else splitlinesFrom (c :: line) s

/-- `s.splitlines()` -/
def splitlines (s : Str) : List Str := splitlinesFrom [] s

/-- `s.lower()` -/
def lower (s : Str) : Str := s.flatMap lowerChar

/-- `str(n)` for a natural number. -/
def natStr (n : Nat) : Str := Nat.toDigits 10 n

/-- `f"{n:0{width}d}"` -/
def padStr (width n : Nat) : Str := List.replicate (width - (natStr n).length) '0' ++ natStr n

/-! ## Lemmas -/

theorem strip_nil : strip [] = [] := rfl

theorem strip_eq_nil {s : Str} : strip s = [] ↔ ∀ c ∈ s, isSpace c = true := by
  unfold strip lstrip rstrip
  rw [List.rdropWhile_eq_nil_iff]
  constructor
  · intro h
    rcases hd : s.dropWhile isSpace with _ | ⟨c, cs⟩
    · exact List.dropWhile_eq_nil_iff.mp hd
    · have hc := List.head_dropWhile_not isSpace (l := s) (by simp [hd])
      simp only [hd, List.head_cons] at hc
      rw [h c (by simp [hd])] at hc
      cases hc
  · exact fun h c hc => h c ((List.dropWhile_suffix _).subset hc)

theorem exists_strip (s : Str) : ∃ front back, s = front ++ strip s ++ back ∧
    (∀ c ∈ front, isSpace c = true) ∧ ∀ c ∈ back, isSpace c = true := by
  refine ⟨s.takeWhile isSpace, ((lstrip s).reverse.takeWhile isSpace).reverse, ?_,
    fun c hc => List.mem_takeWhile_imp hc,
    fun c hc => List.mem_takeWhile_imp (List.mem_reverse.mp hc)⟩
  rw [strip, rstrip, List.rdropWhile, List.append_assoc, ← List.reverse_append,
    List.takeWhile_append_dropWhile, List.reverse_reverse, lstrip, List.takeWhile_append_dropWhile]

theorem strip_strip (s : Str) : strip (strip s) = strip s := by
  have hfront : lstrip (strip s) = strip s := by
    rw [lstrip, List.dropWhile_eq_self_iff]
    intro hpos
    have hfirst : strip s <+: lstrip s := List.rdropWhile_prefix _ _
    have hne : lstrip s ≠ [] := by
      intro h
      rw [strip, h] at hpos
      cases hpos
    have hhead := List.head_dropWhile_not isSpace (l := s) hne
    have hsame : (strip s)[0] = (lstrip s).head hne := by
      rw [hfirst.getElem hpos, List.head_eq_getElem]
    rw [hsame]
    simpa [lstrip] using hhead
  rw [strip, hfront, strip, rstrip, rstrip, List.rdropWhile_idempotent]

theorem mem_strip {c : Char} (hc : ¬isSpace c = true) {s : Str} : c ∈ strip s ↔ c ∈ s := by
  obtain ⟨front, back, hs, hfront, hback⟩ := exists_strip s
  have hnot : c ∉ front ∧ c ∉ back := ⟨fun h => hc (hfront c h), fun h => hc (hback c h)⟩
  conv_rhs => rw [hs]
  simp [hnot.1, hnot.2]

theorem join_ne_nil_of_head {sep : Str} {p : Str} {ps : List Str} (hp : p ≠ []) :
    join sep (p :: ps) ≠ [] := by
  unfold join
  cases ps with
  | nil => simpa [List.intercalate] using hp
  | cons q qs => simp [List.intercalate, hp]

theorem join_cons {sep p : Str} {ps : List Str} (h : ps ≠ []) :
    join sep (p :: ps) = p ++ (sep ++ join sep ps) := by
  cases ps with
  | nil => exact absurd rfl h
  | cons q qs => simp [join, List.intercalate]

theorem infix_join {sep p : Str} : ∀ {ps : List Str}, p ∈ ps → p <:+: join sep ps
  | [], h => by cases h
  | [q], h => by
    rw [List.mem_singleton.mp h]
    simp [join, List.intercalate]
  | q :: r :: ps, h => by
    rw [join_cons (List.cons_ne_nil r ps)]
    rcases List.mem_cons.mp h with rfl | h
    · exact (List.prefix_append p _).isInfix
    · exact (infix_join h).trans ((List.suffix_append sep _).trans (List.suffix_append q _)).isInfix

end KnowledgeKiln.Core
