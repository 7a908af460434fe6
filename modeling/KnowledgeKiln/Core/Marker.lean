import KnowledgeKiln.Core.Date
import KnowledgeKiln.Core.Format
import KnowledgeKiln.Core.Lines
import KnowledgeKiln.Core.Substitution

/-!
# Markers in a text

A `Marker` is a text like `<|endoftext|>`. What is written around a text, between two texts and for
a character of a text makes no marker and hides none.

* `Foreign.notMem_fixed2`, `Foreign.notMem_isoformat`: numbers and dates hold no bracket.
* `Marker.join_iff`: a joined text holds the markers of its parts.
* `Marker.escape_iff`: an escaped text holds the markers of the text.
* `Marker.strRepr_iff`: so does `repr`.
-/
namespace KnowledgeKiln.Core

structure Marker (t : Str) : Prop where
  head : t.head? = some '<'
  chars : ∀ c ∈ t, c.isAlphanum = true ∨ c ∈ ['<', '|', '>', '_']

/-- None of the markers lies in the text. -/
def Plain (markers : List Str) (s : Str) : Prop := ∀ t ∈ markers, ¬ t <:+: s

instance (markers : List Str) (s : Str) : Decidable (Plain markers s) := by
  unfold Plain; infer_instance

/-- The character stands in no number. -/
structure Foreign (x : Char) : Prop where
  digit : ∀ n, x ≠ Nat.digitChar n
  minus : x ≠ '-'
  point : x ≠ '.'

theorem foreign_lt : Foreign '<' :=
  ⟨fun _ => (Nat.digitChar_ne '<' (by decide)).symm, by decide, by decide⟩

theorem foreign_bracket : Foreign '[' :=
  ⟨fun _ => (Nat.digitChar_ne '[' (by decide)).symm, by decide, by decide⟩

namespace Foreign

variable {x : Char} (hx : Foreign x)
include hx

theorem notMem_toDigits {b : Nat} (hb : 1 < b) (n : Nat) : x ∉ Nat.toDigits b n := by
  induction n using Nat.strong_induction_on with
  | h n ih =>
    by_cases hn : n < b
    · rw [Nat.toDigits_of_lt_base hn, List.mem_singleton]
      exact hx.digit n
    · have hle : b ≤ n := by omega
      rw [Nat.toDigits_of_base_le hb hle, List.mem_append, List.mem_singleton, not_or]
      exact ⟨ih _ (Nat.div_lt_self (by omega) hb), hx.digit _⟩

theorem notMem_natStr (n : Nat) : x ∉ natStr n := hx.notMem_toDigits (by decide) n

theorem notMem_padded {b : Nat} (hb : 1 < b) (k n : Nat) :
    x ∉ List.replicate k '0' ++ Nat.toDigits b n := by
  have hzero : x ≠ '0' := hx.digit 0
  simp [List.mem_replicate, hx.notMem_toDigits hb n, hzero]

theorem notMem_hex (width n : Nat) : x ∉ hex width n := hx.notMem_padded (by decide) _ n

theorem notMem_padStr (width n : Nat) : x ∉ padStr width n := hx.notMem_padded (by decide) _ n

theorem notMem_isoformat (d : Date) : x ∉ d.isoformat := by
  simp [Date.isoformat, hx.notMem_padStr, hx.minus]

theorem notMem_fixed2 (q : ℚ) : x ∉ fixed2 q := by
  unfold fixed2
  split <;> simp [hx.notMem_natStr, hx.notMem_padStr, hx.minus, hx.point]

end Foreign

namespace Marker

variable {t : Str}

theorem ne_nil (h : Marker t) : t ≠ [] := by
  rintro rfl
  cases h.head

theorem lt_mem (h : Marker t) : '<' ∈ t := List.mem_of_head? h.head

theorem notMem (h : Marker t) {c : Char} (hc : c.isAlphanum = false)
    (hc' : c ∉ ['<', '|', '>', '_']) : c ∉ t := by
  intro hmem
  rcases h.chars c hmem with ha | ha
  · rw [hc] at ha
    cases ha
  · exact hc' ha

/-- A text without the first character holds no marker. -/
theorem absent (h : Marker t) {s : Str} (hs : '<' ∉ s) : ¬ t <:+: s :=
  fun hin => hs (hin.subset h.lt_mem)

/-- What stands in front and has no first character of a marker. -/
theorem front_iff (h : Marker t) {front s : Str} (hf : '<' ∉ front) :
    t <:+: front ++ s ↔ t <:+: s := by
  refine ⟨fun hin => ?_, fun hin => hin.trans (List.suffix_append front s).isInfix⟩
  induction front with
  | nil => exact hin
  | cons a front ih =>
    rw [List.mem_cons, not_or] at hf
    rcases List.infix_cons_iff.mp hin with hp | hin
    · have hhead := h.head
      cases t with
      | nil => cases hhead
      | cons b t =>
        obtain ⟨rfl, -⟩ := List.cons_prefix_cons.mp hp
        exact absurd (Option.some.inj hhead).symm hf.1
    · exact ih hf.2 hin

/-- A character that no marker has parts the text. -/
theorem cut_iff {c : Char} (hc : c ∉ t) {a b : Str} :
    t <:+: a ++ c :: b ↔ t <:+: a ∨ t <:+: b := by
  refine ⟨infix_append_cons hc, ?_⟩
  rintro (h | h)
  · exact h.trans (List.prefix_append a _).isInfix
  · exact h.trans ((List.suffix_cons c b).trans (List.suffix_append a _)).isInfix

/-- So does one with more of its kind behind it. -/
theorem gap_iff (h : Marker t) {c : Char} (hc : c ∉ t) {a b gap : Str} (hg : '<' ∉ gap) :
    t <:+: a ++ c :: (gap ++ b) ↔ t <:+: a ∨ t <:+: b := by
  rw [cut_iff hc, h.front_iff hg]

theorem back_iff (h : Marker t) {c : Char} (hc : c ∉ t) {a back : Str} (hb : '<' ∉ back) :
    t <:+: a ++ c :: back ↔ t <:+: a := by
  rw [cut_iff hc, or_iff_left (h.absent hb)]

/-- **Joined texts.** -/
theorem join_iff (h : Marker t) {c : Char} (hc : c ∉ t) {gap : Str} (hg : '<' ∉ gap) :
    ∀ {parts : List Str}, t <:+: join (c :: gap) parts ↔ ∃ part ∈ parts, t <:+: part
  | [] => by
    simp [join, List.intercalate, h.ne_nil]
  | [p] => by simp [join, List.intercalate]
  | p :: q :: parts => by
    rw [join_cons (List.cons_ne_nil q parts), List.cons_append, h.gap_iff hc hg,
      join_iff h hc hg, List.exists_mem_cons_iff (t <:+: ·) p]

/-! ## Escapes -/

/-- A character is written as itself or as an escape, and a marker's as itself. -/
structure Escapes (t : Str) (write : Char → Str) : Prop where
  each : ∀ c, write c = [c] ∨ ∃ e rest, write c = e :: rest ∧ e ∉ t ∧ '<' ∉ rest
  own : ∀ c ∈ t, write c = [c]

theorem escape_start {write : Char → Str} {u : Str} (hw : Escapes t write) (hu : u ⊆ t) :
    ∀ {s : Str}, u <+: s.flatMap write → u <+: s := by
  induction u with
  | nil => exact fun _ => List.nil_prefix
  | cons a u ih =>
    intro s hp
    cases s with
    | nil => cases (List.prefix_nil.mp hp)
    | cons c s =>
      rw [List.flatMap_cons] at hp
      rcases hw.each c with he | ⟨e, rest, he, hout, -⟩
      · rw [he, List.singleton_append, List.cons_prefix_cons] at hp
        exact List.cons_prefix_cons.mpr
          ⟨hp.1, ih (fun x hx => hu (List.mem_cons_of_mem a hx)) hp.2⟩
      · rw [he, List.cons_append, List.cons_prefix_cons] at hp
        exact absurd (hu (hp.1 ▸ List.mem_cons_self)) hout

/-- **Escaped texts.** -/
theorem escape_iff (h : Marker t) {write : Char → Str} (hw : Escapes t write) {s : Str} :
    t <:+: s.flatMap write ↔ t <:+: s := by
  constructor
  · induction s with
    | nil => exact id
    | cons c s ih =>
      intro hin
      rw [List.flatMap_cons] at hin
      rcases hw.each c with he | ⟨e, rest, he, hout, hrest⟩
      · rw [he, List.singleton_append] at hin
        rcases List.infix_cons_iff.mp hin with hp | hin
        · have hp' : t <+: (c :: s).flatMap write := by
            rw [List.flatMap_cons, he]
            exact hp
          exact (escape_start hw (List.Subset.refl t) hp').isInfix
        · exact (ih hin).trans (List.suffix_cons c s).isInfix
      · have hesc : '<' ∉ write c := by
          rw [he, List.mem_cons, not_or]
          exact ⟨fun heq => hout (heq ▸ h.lt_mem), hrest⟩
        exact (ih ((h.front_iff hesc).mp hin)).trans (List.suffix_cons c s).isInfix
  · rintro ⟨before, after, rfl⟩
    have hown : ∀ {u : Str}, u ⊆ t → u.flatMap write = u := by
      intro u hu
      induction u with
      | nil => rfl
      | cons c u ih =>
        rw [List.flatMap_cons, hw.own c (hu List.mem_cons_self),
          ih fun x hx => hu (List.mem_cons_of_mem c hx)]
        rfl
    exact ⟨before.flatMap write, after.flatMap write, by
      rw [List.flatMap_append, List.flatMap_append, hown (List.Subset.refl t)]⟩

/-- The characters of a marker are printable ASCII. -/
theorem visible (h : Marker t) {c : Char} (hc : c ∈ t) : 32 ≤ c.toNat ∧ c.toNat < 127 := by
  rcases h.chars c hc with ha | ha
  · simp [Char.isAlphanum, Char.isAlpha, Char.isUpper, Char.isLower, Char.isDigit,
      UInt32.le_iff_toNat_le] at ha
    omega
  · fin_cases ha <;> decide

theorem escapes_repr (h : Marker t) (isPrintable : Char → Bool) {q : Char}
    (hq : q = '\'' ∨ q = '"') : Escapes t (reprChar isPrintable q) := by
  have hslash : '\\' ∉ t := h.notMem (by decide) (by decide)
  have hquote : q ∉ t := by
    rcases hq with rfl | rfl <;> exact h.notMem (by decide) (by decide)
  have hcode : ∀ {d : Char} {width n : Nat}, '<' ≠ d → '<' ∉ d :: hex width n := by
    intro d width n hd
    rw [List.mem_cons, not_or]
    exact ⟨hd, foreign_lt.notMem_hex width n⟩
  constructor
  · intro c
    unfold reprChar
    dsimp only
    split_ifs with h1
    · refine .inr ⟨_, _, rfl, hslash, ?_⟩
      rcases h1 with rfl | rfl
      · rcases hq with rfl | rfl <;> decide
      · decide
    · exact .inr ⟨_, _, rfl, hslash, by decide⟩
    · exact .inr ⟨_, _, rfl, hslash, by decide⟩
    · exact .inr ⟨_, _, rfl, hslash, by decide⟩
    · exact .inr ⟨_, _, rfl, hslash, hcode (by decide)⟩
    · exact .inl rfl
    · exact .inr ⟨_, _, rfl, hslash, hcode (by decide)⟩
    · exact .inr ⟨_, _, rfl, hslash, hcode (by decide)⟩
    · exact .inr ⟨_, _, rfl, hslash, hcode (by decide)⟩
  · intro c hc
    obtain ⟨hlo, hhi⟩ := h.visible hc
    have hne : ∀ d : Char, d ∉ t → c ≠ d := fun d hd he => hd (he ▸ hc)
    unfold reprChar
    dsimp only
    rw [if_neg (not_or.mpr ⟨hne q hquote, hne _ hslash⟩),
      if_neg (hne _ (h.notMem (by decide) (by decide))),
      if_neg (hne _ (h.notMem (by decide) (by decide))),
      if_neg (hne _ (h.notMem (by decide) (by decide))), if_neg (by omega), if_pos (.inl hhi)]

/-- **`repr`.** -/
theorem strRepr_iff (h : Marker t) {isPrintable : Char → Bool} {s : Str} :
    t <:+: strRepr isPrintable s ↔ t <:+: s := by
  unfold strRepr
  dsimp only
  generalize hq : (if '\'' ∈ s ∧ '"' ∉ s then '"' else '\'') = q
  have hkind : q = '\'' ∨ q = '"' := by
    rw [← hq]
    split <;> simp
  have hout : q ∉ t := by
    rcases hkind with rfl | rfl <;> exact h.notMem (by decide) (by decide)
  have hfront : '<' ∉ [q] := by
    rcases hkind with rfl | rfl <;> decide
  rw [List.append_assoc, h.front_iff hfront, h.back_iff hout List.not_mem_nil,
    h.escape_iff (h.escapes_repr isPrintable hkind)]

end Marker

end KnowledgeKiln.Core
