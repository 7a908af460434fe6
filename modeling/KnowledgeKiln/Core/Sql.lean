import KnowledgeKiln.Core.Str

/-!
# Conditions of a WHERE clause, and GROUP BY

A condition that meets a `NULL` is neither true nor false, and `WHERE` keeps the rows on which it
is true. `x LIKE p ESCAPE e` reads `p` as a list of items first. `GROUP BY` makes one row of all
that have one key.

* `anyOf_true`, `allOf_true`: what makes a disjunction or a conjunction true.
* `likeMatches_append`: a pattern in two parts matches in two parts.
* `likeItems_autoescape`: an escaped text is read as its own characters.
* `startsWithEscaped_true`: so the condition of an escaped prefix is the prefix order.
* `mem_groupBy`, `groupBy_nodup`: there is one group for each key that some row has.
-/
namespace KnowledgeKiln.Core.Sql

/-! ## Three truth values -/

/-- The value of a condition; `none` is unknown. -/
abbrev Truth := Option Bool

/-- `a OR b` -/
def or : Truth → Truth → Truth
  | some true, _ => some true
  | _, some true => some true
  | some false, some false => some false
  | _, _ => none

/-- `a AND b` -/
def and : Truth → Truth → Truth
  | some false, _ => some false
  | _, some false => some false
  | some true, some true => some true
  | _, _ => none

def anyOf (conditions : List Truth) : Truth := conditions.foldr or (some false)

def allOf (conditions : List Truth) : Truth := conditions.foldr and (some true)

/-- `WHERE condition` keeps the row. -/
def keeps (condition : Truth) : Bool := condition = some true

/-- `x op b`, for a column that may be `NULL`. -/
def compare {α β : Type} (op : α → β → Bool) (x : Option α) (b : β) : Truth := x.map (op · b)

/-- `x IN (values)` -/
def isIn {α : Type} [DecidableEq α] (x : Option α) (values : List α) : Truth :=
  x.map fun v => decide (v ∈ values)

section
variable {a b : Truth} {conditions : List Truth}

theorem or_true : or a b = some true ↔ a = some true ∨ b = some true := by
  rcases a with _ | _ | _ <;> rcases b with _ | _ | _ <;> simp [or]

theorem and_true : and a b = some true ↔ a = some true ∧ b = some true := by
  rcases a with _ | _ | _ <;> rcases b with _ | _ | _ <;> simp [and]

theorem anyOf_true : anyOf conditions = some true ↔ ∃ c ∈ conditions, c = some true := by
  induction conditions with
  | nil => simp [anyOf]
  | cons c conditions ih =>
    have hcons : anyOf (c :: conditions) = or c (anyOf conditions) := rfl
    rw [hcons, or_true, ih, List.exists_mem_cons_iff]

theorem allOf_true : allOf conditions = some true ↔ ∀ c ∈ conditions, c = some true := by
  induction conditions with
  | nil => simp [allOf]
  | cons c conditions ih =>
    have hcons : allOf (c :: conditions) = and c (allOf conditions) := rfl
    rw [hcons, and_true, ih, List.forall_mem_cons]

@[simp] theorem keeps_iff : keeps a = true ↔ a = some true := by simp [keeps]

theorem compare_true {α β : Type} {op : α → β → Bool} {x : Option α} {v : β} :
    compare op x v = some true ↔ ∃ u ∈ x, op u v = true := by
  simp [compare]

theorem isIn_true {α : Type} [DecidableEq α] {x : Option α} {values : List α} :
    isIn x values = some true ↔ ∃ v ∈ values, x = some v := by
  cases x <;> simp [isIn, eq_comm]

end

/-! ## LIKE -/

/-- One item of a pattern. -/
inductive LikeItem
  | lit (c : Char)
  /-- `_` -/
  | one
  /-- `%` -/
  | many
  deriving DecidableEq, Repr

/-- A character of a pattern that is not escaped. -/
def likeItem (c : Char) : LikeItem :=
  if c = '%' then .many else if c = '_' then .one else .lit c

/-- The items of a pattern; `none` where it ends with the escape character, which is an error. -/
def likeItems (escape : Char) : Str → Option (List LikeItem)
  | [] => some []
  | [c] => if c = escape then none else some [likeItem c]
  | c :: d :: p =>
    if c = escape then (likeItems escape p).map (.lit d :: ·)
    else (likeItems escape (d :: p)).map (likeItem c :: ·)

/-- The items match the whole text. -/
def likeMatches : List LikeItem → Str → Bool
  | [], s => s.isEmpty
  | .lit _ :: _, [] => false
  | .lit c :: items, d :: s => c == d && likeMatches items s
  | .one :: _, [] => false
  | .one :: items, _ :: s => likeMatches items s
  | .many :: items, s => s.tails.any (likeMatches items)

/-- `x LIKE pattern ESCAPE escape`; a pattern that is an error is not true of any text. -/
def like (escape : Char) (pattern : Str) (x : Option Str) : Truth :=
  (likeItems escape pattern).bind fun items => x.map (likeMatches items)

/-- The characters that mean something in a pattern, escaped. -/
def autoescape (escape : Char) (s : Str) : Str :=
  s.flatMap fun c => if c = escape ∨ c = '%' ∨ c = '_' then [escape, c] else [c]

section
variable {escape : Char} {items items' : List LikeItem} {s : Str}

theorem likeMatches_many : likeMatches (.many :: items) s = true ↔
    ∃ t, t <:+ s ∧ likeMatches items t = true := by
  simp only [likeMatches, List.any_eq_true, List.mem_tails]

/-- A pattern in two parts matches a text in two parts. -/
theorem likeMatches_append : likeMatches (items ++ items') s = true ↔
    ∃ a b, s = a ++ b ∧ likeMatches items a = true ∧ likeMatches items' b = true := by
  induction items generalizing s with
  | nil =>
    simp only [List.nil_append, likeMatches, List.isEmpty_iff]
    constructor
    · intro h
      exact ⟨[], s, rfl, rfl, h⟩
    · rintro ⟨a, b, rfl, rfl, h⟩
      exact h
  | cons item items ih =>
    cases item with
    | lit c =>
      cases s with
      | nil =>
        simp only [List.cons_append, likeMatches, Bool.false_eq_true, false_iff]
        rintro ⟨a, b, hs, ha, -⟩
        rw [(List.append_eq_nil_iff.mp hs.symm).1] at ha
        cases ha
      | cons d s =>
        simp only [List.cons_append, likeMatches, Bool.and_eq_true, beq_iff_eq, ih]
        constructor
        · rintro ⟨rfl, a, b, rfl, ha, hb⟩
          exact ⟨c :: a, b, rfl, by simpa [likeMatches] using ha, hb⟩
        · rintro ⟨a, b, hs, ha, hb⟩
          cases a with
          | nil => cases ha
          | cons e a =>
            obtain ⟨rfl, rfl⟩ := List.cons.inj hs
            simp only [likeMatches, Bool.and_eq_true, beq_iff_eq] at ha
            exact ⟨ha.1, a, b, rfl, ha.2, hb⟩
    | one =>
      cases s with
      | nil =>
        simp only [List.cons_append, likeMatches, Bool.false_eq_true, false_iff]
        rintro ⟨a, b, hs, ha, -⟩
        rw [(List.append_eq_nil_iff.mp hs.symm).1] at ha
        cases ha
      | cons d s =>
        simp only [List.cons_append, likeMatches, ih]
        constructor
        · rintro ⟨a, b, rfl, ha, hb⟩
          exact ⟨d :: a, b, rfl, by simpa [likeMatches] using ha, hb⟩
        · rintro ⟨a, b, hs, ha, hb⟩
          cases a with
          | nil => cases ha
          | cons e a =>
            obtain ⟨rfl, rfl⟩ := List.cons.inj hs
            exact ⟨a, b, rfl, by simpa [likeMatches] using ha, hb⟩
    | many =>
      simp only [List.cons_append, likeMatches_many, ih]
      constructor
      · rintro ⟨t, ⟨front, rfl⟩, a, b, rfl, ha, hb⟩
        exact ⟨front ++ a, b, (List.append_assoc _ _ _).symm, ⟨a, List.suffix_append _ _, ha⟩, hb⟩
      · rintro ⟨a, b, rfl, ⟨t, ⟨front, rfl⟩, ht⟩, hb⟩
        exact ⟨t ++ b, ⟨front, (List.append_assoc _ _ _).symm⟩, t, b, rfl, ht, hb⟩

/-- Literals match themselves. -/
theorem likeMatches_lits {p : Str} : likeMatches (p.map .lit) s = true ↔ s = p := by
  induction p generalizing s with
  | nil => simp [likeMatches]
  | cons c p ih =>
    cases s with
    | nil => simp [likeMatches]
    | cons d s =>
      simp only [List.map_cons, likeMatches, Bool.and_eq_true, beq_iff_eq, ih, List.cons.injEq]
      exact and_congr_left fun _ => eq_comm

theorem likeItems_cons {c : Char} (hc : c ≠ escape) (p : Str) :
    likeItems escape (c :: p) = (likeItems escape p).map (likeItem c :: ·) := by
  cases p with
  | nil => simp [likeItems, hc]
  | cons d p => rw [likeItems, if_neg hc]

/-- An escaped text is read as its own characters, whatever follows it. -/
theorem likeItems_autoescape (escape : Char) (p q : Str) :
    likeItems escape (autoescape escape p ++ q) = (likeItems escape q).map (p.map .lit ++ ·) := by
  induction p with
  | nil => simp [autoescape]
  | cons c p ih =>
    have hcons : autoescape escape (c :: p) =
        (if c = escape ∨ c = '%' ∨ c = '_' then [escape, c] else [c]) ++ autoescape escape p := rfl
    rw [hcons, List.append_assoc]
    by_cases hc : c = escape ∨ c = '%' ∨ c = '_'
    · rw [if_pos hc, List.cons_append, List.singleton_append, likeItems, if_pos rfl, ih,
        Option.map_map]
      rfl
    · obtain ⟨hne, hmany, hone⟩ := not_or.mp hc |>.imp id not_or.mp
      rw [if_neg hc, List.singleton_append, likeItems_cons hne, ih, Option.map_map, likeItem,
        if_neg hmany, if_neg hone]
      rfl

/-- `column.startswith(prefix, autoescape=True)` -/
def startsWithEscaped (escape : Char) (x : Option Str) (p : Str) : Truth :=
  like escape (autoescape escape p ++ ['%']) x

/-- **Escaping.** No character of the prefix is a wildcard, and the pattern is never an error. -/
theorem startsWithEscaped_eq (hescape : escape ≠ '%') (x : Option Str) (p : Str) :
    startsWithEscaped escape x p = x.map fun s => decide (p <+: s) := by
  have hitems : likeItems escape (autoescape escape p ++ ['%']) =
      some (p.map LikeItem.lit ++ [LikeItem.many]) := by
    rw [likeItems_autoescape, likeItems_cons hescape.symm]
    rfl
  rw [startsWithEscaped, like, hitems, Option.bind_some]
  congr 1
  funext s
  rw [Bool.eq_iff_iff, likeMatches_append, decide_eq_true_iff]
  constructor
  · rintro ⟨a, b, rfl, ha, -⟩
    rw [likeMatches_lits.mp ha]
    exact List.prefix_append p b
  · rintro ⟨b, rfl⟩
    exact ⟨p, b, rfl, likeMatches_lits.mpr rfl, likeMatches_many.mpr ⟨[], List.nil_suffix, rfl⟩⟩

theorem startsWithEscaped_true (hescape : escape ≠ '%') {x : Option Str} {p : Str} :
    startsWithEscaped escape x p = some true ↔ ∃ s ∈ x, p <+: s := by
  rw [startsWithEscaped_eq hescape]
  simp

/-- Unescaped, a prefix with a wildcard in it admits more. -/
example : like '/' "100%%" (some "1007".toList) = some true ∧
    startsWithEscaped '/' (some "1007".toList) "100%" = some false := by decide

end

/-! ## GROUP BY -/

section
variable {α κ : Type} [DecidableEq κ] {key : α → Option κ} {rows : List α} {g : κ × List α}

/-- The rows of each key; those without one are left out. -/
def groupBy (key : α → Option κ) (rows : List α) : List (κ × List α) :=
  (rows.filterMap key).dedup.map fun k => (k, rows.filter fun r => key r = some k)

theorem groupBy_nodup (key : α → Option κ) (rows : List α) :
    ((groupBy key rows).map Prod.fst).Nodup := by
  simp only [groupBy, List.map_map, Function.comp_def, List.map_id']
  exact List.nodup_dedup _

theorem mem_groupBy : g ∈ groupBy key rows ↔
    (∃ r ∈ rows, key r = some g.1) ∧ g.2 = rows.filter fun r => key r = some g.1 := by
  obtain ⟨k, members⟩ := g
  simp only [groupBy, List.mem_map, List.mem_dedup, List.mem_filterMap, Prod.mk.injEq]
  constructor
  · rintro ⟨k, h, rfl, rfl⟩
    exact ⟨h, rfl⟩
  · rintro ⟨h, hmembers⟩
    exact ⟨k, h, rfl, hmembers.symm⟩

end

end KnowledgeKiln.Core.Sql
