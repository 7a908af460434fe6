import KnowledgeKiln.Core.Json
import KnowledgeKiln.Core.Marker

/-!
# JSON as text

* `Json.dumps`: the text of a value, without blanks.
* `Json.texts`: what stands in it as it is, or between quotes.
* `Marker.dumps_iff`: the text of a value holds the markers of those.
-/
namespace KnowledgeKiln.Core

/-- One character of a JSON string. -/
def jsonChar (c : Char) : Str :=
  if c = '"' ∨ c = '\\' then ['\\', c]
  else if c = '\n' then "\\n"
  else if c = '\r' then "\\r"
  else if c = '\t' then "\\t"
  else if c = '\x08' then "\\b"
  else if c = '\x0c' then "\\f"
  else if c.toNat < 32 then "\\u" ++ hex 4 c.toNat
  else [c]

def quoted (s : Str) : Str := "\"".toList ++ s.flatMap jsonChar ++ "\"".toList

namespace Json

mutual

/-- `json.dumps(v, separators=(",", ":"), ensure_ascii=False)` -/
def dumps : Json → Str
  | .null => "null"
  | .bool b => (if b then "true" else "false" : String)
  | .int n => intStr n
  | .float repr => repr
  | .str s => quoted s
  | .arr items => "[".toList ++ join "," (dumpsItems items) ++ "]"
  | .obj members => "\x7b".toList ++ join "," (dumpsMembers members) ++ "\x7d"

def dumpsItems : List Json → List Str
  | [] => []
  | v :: vs => v.dumps :: dumpsItems vs

def dumpsMembers : List (Str × Json) → List Str
  | [] => []
  | (key, v) :: ms => (quoted key ++ ":" ++ v.dumps) :: dumpsMembers ms

end

mutual

/-- The strings and keys of a value, and its floats as they are written. -/
def texts : Json → List Str
  | .null | .bool _ | .int _ => []
  | .float repr => [repr]
  | .str s => [s]
  | .arr items => textsItems items
  | .obj members => textsMembers members

def textsItems : List Json → List Str
  | [] => []
  | v :: vs => v.texts ++ textsItems vs

def textsMembers : List (Str × Json) → List Str
  | [] => []
  | (key, v) :: ms => key :: (v.texts ++ textsMembers ms)

end

theorem dumpsItems_map {α : Type*} (f : α → Json) (xs : List α) :
    dumpsItems (xs.map f) = xs.map fun x => (f x).dumps := by
  induction xs with
  | nil => rfl
  | cons x xs ih => rw [List.map_cons, dumpsItems, ih, List.map_cons]

theorem textsItems_map {α : Type*} (f : α → Json) (xs : List α) :
    textsItems (xs.map f) = xs.flatMap fun x => (f x).texts := by
  induction xs with
  | nil => rfl
  | cons x xs ih => rw [List.map_cons, textsItems, ih, List.flatMap_cons]

end Json

/-! ## Markers -/

namespace Marker

variable {t : Str}

theorem quote_notMem (h : Marker t) : '"' ∉ t := h.notMem (by decide) (by decide)

theorem escapes_json (h : Marker t) : Escapes t jsonChar := by
  have hslash : '\\' ∉ t := h.notMem (by decide) (by decide)
  have hcode : ∀ n : Nat, '<' ∉ 'u' :: hex 4 n := by
    intro n
    rw [List.mem_cons, not_or]
    exact ⟨by decide, foreign_lt.notMem_hex 4 n⟩
  constructor
  · intro c
    unfold jsonChar
    split_ifs with h1
    · refine .inr ⟨_, _, rfl, hslash, ?_⟩
      rcases h1 with rfl | rfl <;> decide
    · exact .inr ⟨_, _, rfl, hslash, by decide⟩
    · exact .inr ⟨_, _, rfl, hslash, by decide⟩
    · exact .inr ⟨_, _, rfl, hslash, by decide⟩
    · exact .inr ⟨_, _, rfl, hslash, by decide⟩
    · exact .inr ⟨_, _, rfl, hslash, by decide⟩
    · exact .inr ⟨_, _, rfl, hslash, hcode _⟩
    · exact .inl rfl
  · intro c hc
    obtain ⟨hlo, -⟩ := h.visible hc
    have hne : ∀ d : Char, d ∉ t → c ≠ d := fun d hd he => hd (he ▸ hc)
    unfold jsonChar
    rw [if_neg (not_or.mpr ⟨hne _ h.quote_notMem, hne _ hslash⟩),
      if_neg (hne _ (h.notMem (by decide) (by decide))),
      if_neg (hne _ (h.notMem (by decide) (by decide))),
      if_neg (hne _ (h.notMem (by decide) (by decide))),
      if_neg (hne _ (h.notMem (by decide) (by decide))),
      if_neg (hne _ (h.notMem (by decide) (by decide))), if_neg (by omega)]

theorem quoted_iff (h : Marker t) {s : Str} : t <:+: quoted s ↔ t <:+: s := by
  have hfront : '<' ∉ "\"".toList := by decide
  unfold quoted
  rw [List.append_assoc, h.front_iff hfront]
  change t <:+: s.flatMap jsonChar ++ '"' :: [] ↔ t <:+: s
  rw [h.back_iff h.quote_notMem List.not_mem_nil, h.escape_iff h.escapes_json]

/-- A value between brackets. -/
theorem bracketed_iff (h : Marker t) {opening closing : Char} {s : Str} (ho : '<' ≠ opening)
    (hc : closing ∉ t) : t <:+: [opening] ++ s ++ [closing] ↔ t <:+: s := by
  rw [List.append_assoc, h.front_iff (by simpa using ho), h.back_iff hc List.not_mem_nil]

mutual

/-- **JSON texts.** -/
theorem dumps_iff (h : Marker t) : ∀ v : Json, t <:+: v.dumps ↔ ∃ s ∈ v.texts, t <:+: s
  | .null => by simpa [Json.texts] using h.absent (s := Json.null.dumps) (by decide)
  | .bool b => by
    have hb : '<' ∉ (Json.bool b).dumps := by cases b <;> decide
    simpa [Json.texts] using h.absent hb
  | .int n => by
    have hn : '<' ∉ (Json.int n).dumps := by
      unfold Json.dumps intStr
      split <;> simp [foreign_lt.notMem_natStr]
    simpa [Json.texts] using h.absent hn
  | .float repr => by simp [Json.texts, Json.dumps]
  | .str s => by simp [Json.texts, Json.dumps, h.quoted_iff]
  | .arr items => by
    rw [Json.texts, ← dumpsItems_iff h items, Json.dumps]
    exact (h.bracketed_iff (by decide) (h.notMem (by decide) (by decide))).trans
      (h.join_iff (h.notMem (by decide) (by decide)) List.not_mem_nil)
  | .obj members => by
    rw [Json.texts, ← dumpsMembers_iff h members, Json.dumps]
    exact (h.bracketed_iff (by decide) (h.notMem (by decide) (by decide))).trans
      (h.join_iff (h.notMem (by decide) (by decide)) List.not_mem_nil)

theorem dumpsItems_iff (h : Marker t) : ∀ vs : List Json,
    (∃ item ∈ Json.dumpsItems vs, t <:+: item) ↔ ∃ s ∈ Json.textsItems vs, t <:+: s
  | [] => by simp [Json.dumpsItems, Json.textsItems]
  | v :: vs => by
    simp only [Json.dumpsItems, Json.textsItems, List.exists_mem_cons_iff, List.mem_append,
      or_and_right, exists_or]
    rw [dumps_iff h v, dumpsItems_iff h vs]

theorem dumpsMembers_iff (h : Marker t) : ∀ ms : List (Str × Json),
    (∃ item ∈ Json.dumpsMembers ms, t <:+: item) ↔ ∃ s ∈ Json.textsMembers ms, t <:+: s
  | [] => by simp [Json.dumpsMembers, Json.textsMembers]
  | (key, v) :: ms => by
    have hcolon : ':' ∉ t := h.notMem (by decide) (by decide)
    have hmember : t <:+: quoted key ++ ":" ++ v.dumps ↔ t <:+: key ∨ t <:+: v.dumps := by
      rw [List.append_assoc]
      exact (cut_iff hcolon).trans (or_congr_left h.quoted_iff)
    simp only [Json.dumpsMembers, Json.textsMembers, List.exists_mem_cons_iff, List.mem_append,
      or_and_right, exists_or]
    rw [hmember, dumps_iff h v, dumpsMembers_iff h ms, or_assoc]

end

end Marker

end KnowledgeKiln.Core
