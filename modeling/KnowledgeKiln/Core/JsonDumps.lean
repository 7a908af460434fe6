import KnowledgeKiln.Core.Str

/-!
# What `json.dumps` can write

A value of Python's, as far as `json.dumps(…, ensure_ascii=False, allow_nan=False)` and the encoding
of its text tell them apart. What has no JSON text is an `object`: bytes, an exception, a set, a text
with half a surrogate pair, a dictionary with such a key. A float is held by its `repr`.
-/
namespace KnowledgeKiln.Core

inductive PyValue
  | null
  | bool (b : Bool)
  | int (n : Int)
  | float (repr : Str)
  | str (s : Str)
  | arr (items : List PyValue)
  | obj (members : List (Str × PyValue))
  | object (truthy : Bool)

namespace PyValue

/-- `bool(v)` -/
def truthy : PyValue → Bool
  | .null => false
  | .bool b => b
  | .int n => n != 0
  | .float repr => repr != "0.0" && repr != "-0.0"
  | .str s => s != []
  | .arr items => !items.isEmpty
  | .obj members => !members.isEmpty
  | .object truthy => truthy

mutual

/-- `json.dumps` writes the value. -/
def dumpable : PyValue → Bool
  | .null | .bool _ | .int _ | .str _ => true
  | .float repr => repr ∉ ["nan".toList, "inf".toList, "-inf".toList]
  | .arr items => dumpableItems items
  | .obj members => dumpableMembers members
  | .object _ => false

def dumpableItems : List PyValue → Bool
  | [] => true
  | v :: vs => v.dumpable && dumpableItems vs

def dumpableMembers : List (Str × PyValue) → Bool
  | [] => true
  | (_, v) :: ms => v.dumpable && dumpableMembers ms

end

theorem dumpableMembers_iff : ∀ {members : List (Str × PyValue)},
    dumpableMembers members = true ↔ ∀ member ∈ members, member.2.dumpable = true
  | [] => by simp [dumpableMembers]
  | (key, v) :: members => by
    rw [dumpableMembers, Bool.and_eq_true, dumpableMembers_iff, List.forall_mem_cons]

end PyValue

end KnowledgeKiln.Core
