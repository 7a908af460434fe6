import KnowledgeKiln.Core.Py

/-!
# JSON values

What a JSON document holds once it is parsed, and how the repository reads a
dictionary of them.
-/
namespace KnowledgeKiln.Core

inductive Json
  | null
  | bool (b : Bool)
  | int (n : Int)
  /-- A float, by its `repr`. -/
  | float (repr : Str)
  | str (s : Str)
  | arr (items : List Json)
  | obj (members : List (Str × Json))

/-- `bool(v)` -/
def Json.truthy : Json → Bool
  | .null => false
  | .bool b => b
  | .int n => n != 0
  | .float repr => repr != "0.0" && repr != "-0.0"
  | .str s => s != []
  | .arr items => !items.isEmpty
  | .obj members => !members.isEmpty

mutual

/-- PostgreSQL stores the value as `jsonb`: no NUL character, no `nan` and no infinity. -/
def Json.storable : Json → Bool
  | .null | .bool _ | .int _ => true
  | .float repr => repr ∉ ["nan".toList, "inf".toList, "-inf".toList]
  | .str s => !s.contains '\x00'
  | .arr items => Json.storableItems items
  | .obj members => Json.storableMembers members

def Json.storableItems : List Json → Bool
  | [] => true
  | v :: vs => v.storable && Json.storableItems vs

def Json.storableMembers : List (Str × Json) → Bool
  | [] => true
  | (key, v) :: ms => !key.contains '\x00' && v.storable && Json.storableMembers ms

end

/-- A JSON object, in the order of its members. -/
abbrev JsonDict := List (Str × Json)

namespace JsonDict

/-- `d.get(key)` -/
def get (d : JsonDict) (key : Str) : Option Json := lookupLast d key

/-- `d.get(key)`, when it is a `str` -/
def getStr (d : JsonDict) (key : Str) : Option Str :=
  match get d key with
  | some (.str s) => some s
  | _ => none

/-- `d[key]`, used as a `str` -/
def itemStr (d : JsonDict) (key : Str) : Py Str :=
  match get d key with
  | some (.str s) => .ok s
  | some _ => throw .attributeError
  | none => throw (.keyError key)

theorem itemStr_ok {d : JsonDict} {key s : Str} : itemStr d key = .ok s ↔ getStr d key = some s := by
  unfold itemStr getStr
  cases get d key with
  | none => simp
  | some v => cases v <;> simp

end JsonDict

end KnowledgeKiln.Core
