import KnowledgeKiln.Core.Date
import KnowledgeKiln.Core.Format
import KnowledgeKiln.Core.Json
import KnowledgeKiln.Core.OrderedDict

/-!
# JSON-safe metadata (ingestion/_jsonsafe.py)

Frontmatter is a graph of Python objects: dictionaries, lists, tuples and sets stand in a heap and
refer to each other by their `id`, shared or in a cycle. `jsonify` walks it with the ids of the
containers it is in, and the walk ends (`Enough`): it is in no container twice.

* `jsonify_returns_iff`: it raises on a signalling NaN only.
* `jsonify_strict_iff`: what it returns is strict JSON unless a `nan` or an infinity is left in it.
-/
namespace KnowledgeKiln.L1.JsonSafe

open KnowledgeKiln.Core

/-! ## Python values -/

/-- `decimal.Decimal` -/
inductive Decimal
  | finite (negative : Bool) (coefficient : Nat) (exponent : Int)
  | infinity (negative : Bool)
  | quietNan
  | signallingNan

/-- `datetime.datetime`; the offset is written as `isoformat` does, or empty. -/
structure DateTime where
  date : Date
  hour : Nat
  minute : Nat
  second : Nat
  microsecond : Nat
  offset : Str

/-- `d.isoformat()` -/
def DateTime.isoformat (d : DateTime) : Str :=
  let fraction : Str := if d.microsecond = 0 then [] else ['.'] ++ padStr 6 d.microsecond
  d.date.isoformat ++ ['T'] ++ padStr 2 d.hour ++ [':'] ++ padStr 2 d.minute ++ [':'] ++
    padStr 2 d.second ++ fraction ++ d.offset

/-- A Python value; containers are references into the heap. -/
inductive Value
  | none
  | bool (b : Bool)
  | int (i : Int)
  /-- A float, by its `repr`. -/
  | float (repr : Str)
  | str (s : Str)
  | date (d : Date)
  | datetime (d : DateTime)
  | decimal (d : Decimal)
  | uuid (s : Str)
  /-- A `PurePath`, as `as_posix()` writes it. -/
  | path (posix : Str)
  /-- `bytes` or `bytearray` -/
  | bytes (octets : List UInt8)
  | ref (id : Nat)

/-- A container. -/
inductive Obj
  | dict (items : List (Value × Value))
  | list (items : List Value)
  | tuple (items : List Value)
  /-- A `set` or `frozenset`, in the order of its iteration. -/
  | set (items : List Value)

/-- The objects, by `id`. -/
abbrev Heap := List Obj

/-- What `jsonify` takes from the runtime. -/
structure Runtime where
  /-- `str(key)` of a key that is no string. -/
  str : Heap → Value → Str
  /-- `repr(value)` of a converted value. -/
  repr : Json → Str
  /-- `repr(float(d))` of a finite `Decimal`: the nearest float, or an infinity. -/
  floatOf : Bool → Nat → Int → Str
  /-- `octets.decode("utf-8")`; `none` for a `UnicodeDecodeError`. -/
  decodeUtf8 : List UInt8 → Option Str

/-! ## The conversion -/

section
variable (rt : Runtime) (h : Heap)

/-- `octets.hex()` -/
def hexOf (octets : List UInt8) : Str := octets.flatMap fun b => hex 2 b.toNat

/-- `float(d)` -/
def decimalFloat : Decimal → Py Str
  | .finite negative coefficient exponent => .ok (rt.floatOf negative coefficient exponent)
  | .infinity negative => .ok (if negative then "-inf" else "inf")
  | .quietNan => .ok "nan"
  | .signallingNan => throw (.valueError "cannot convert signaling NaN to float")

/-- The branches of `_jsonify` on values that are no containers. -/
def jsonifyLeaf : Value → Py Json
  | .none => .ok .null
  | .bool b => .ok (.bool b)
  | .int i => .ok (.int i)
  | .float repr => .ok (.float repr)
  | .str s => .ok (.str s)
  | .date d => .ok (.str d.isoformat)
  | .datetime d => .ok (.str d.isoformat)
  | .decimal d => do
    let repr ← decimalFloat rt d
    pure (.float repr)
  | .uuid s => .ok (.str s)
  | .path posix => .ok (.str posix)
  | .bytes octets => .ok (.str ((rt.decodeUtf8 octets).getD (hexOf octets)))
  | .ref _ => .ok .null

/-- `str(k)` -/
def keyStr : Value → Str
  | .str s => s
  | key => rt.str h key

/-- `sorted(values, key=_sort_key)` -/
def sortByRepr (values : List Json) : List Json :=
  values.insertionSort fun a b => rt.repr a ≤ rt.repr b

/-- The branches of `_jsonify` on containers. -/
def jsonifyObj (convert : Value → Py Json) : Obj → Py Json
  | .dict items => do
    let members ← Py.mapM (fun item => do
      let value ← convert item.2
      pure (keyStr rt h item.1, value)) items
    pure (.obj (OrderedDict.ofPairs members).items)
  | .list items | .tuple items => do
    let values ← Py.mapM convert items
    pure (.arr values)
  | .set items => do
    let values ← Py.mapM convert items
    pure (.arr (sortByRepr rt values))

/-- Mirrors `_jsonify` (_jsonsafe.py:54-82); `seen` are the containers around the value. -/
def jsonifyWith : (fuel : Nat) → (seen : List Nat) → Value → Py Json
  -- without fuel the container is one around the value
  | 0, _, .ref _ => .ok (.str "<cycle>")
  | fuel + 1, seen, .ref id =>
    if id ∈ seen then .ok (.str "<cycle>")
    else
      match h[id]? with
      | some obj => jsonifyObj rt h (jsonifyWith fuel (id :: seen)) obj
      -- an id without an object does not occur
      | none => .ok (.str "<cycle>")
  | _, _, value => jsonifyLeaf rt value

/-- Mirrors `jsonify` (_jsonsafe.py:49-51). -/
def jsonify (value : Value) : Py Json := jsonifyWith rt h h.length [] value

end

/-! ## Strict JSON -/

def nonFinite : List Str := ["nan".toList, "inf".toList, "-inf".toList]

mutual

/-- The value has an encoding in strict JSON: no `nan` and no infinity is in it. -/
def strict : Json → Bool
  | .float repr => repr ∉ nonFinite
  | .arr items => strictItems items
  | .obj members => strictMembers members
  | _ => true

def strictItems : List Json → Bool
  | [] => true
  | v :: vs => strict v && strictItems vs

def strictMembers : List (Str × Json) → Bool
  | [] => true
  | (_, v) :: ms => strict v && strictMembers ms

end

theorem strictItems_iff {values : List Json} :
    strictItems values = true ↔ ∀ v ∈ values, strict v = true := by
  induction values with
  | nil => simp [strictItems]
  | cons v vs ih => rw [strictItems, Bool.and_eq_true, ih, List.forall_mem_cons]

theorem strictMembers_iff {members : List (Str × Json)} :
    strictMembers members = true ↔ ∀ m ∈ members, strict m.2 = true := by
  induction members with
  | nil => simp [strictMembers]
  | cons m ms ih => rw [strictMembers, Bool.and_eq_true, ih, List.forall_mem_cons]

mutual

/-- PostgreSQL stores strict JSON only. -/
theorem strict_of_storable : ∀ {j : Json}, j.storable = true → strict j = true
  | .arr items, h => by
    rw [Json.storable] at h
    exact strictItems_of_storable h
  | .obj members, h => by
    rw [Json.storable] at h
    exact strictMembers_of_storable h
  | .float repr, h => h
  | .null, _ => rfl
  | .bool _, _ => rfl
  | .int _, _ => rfl
  | .str _, _ => rfl

theorem strictItems_of_storable : ∀ {items : List Json}, Json.storableItems items = true →
    strictItems items = true
  | [], _ => rfl
  | _ :: _, h => by
    rw [Json.storableItems, Bool.and_eq_true] at h
    rw [strictItems, strict_of_storable h.1, strictItems_of_storable h.2]
    rfl

theorem strictMembers_of_storable : ∀ {members : List (Str × Json)},
    Json.storableMembers members = true → strictMembers members = true
  | [], _ => rfl
  | (_, _) :: _, h => by
    rw [Json.storableMembers, Bool.and_eq_true, Bool.and_eq_true] at h
    rw [strictMembers, strict_of_storable h.1.2, strictMembers_of_storable h.2]
    rfl

end

/-! ## One container -/

/-- The values in a container. -/
def Obj.children : Obj → List Value
  | .dict items => items.map Prod.snd
  | .list items | .tuple items | .set items => items

/-- The container, from its converted values. -/
def Obj.build (rt : Runtime) (h : Heap) : Obj → List Json → Json
  | .dict items, values =>
    .obj (OrderedDict.ofPairs ((items.map fun item => keyStr rt h item.1).zip values)).items
  | .list _, values | .tuple _, values => .arr values
  | .set _, values => .arr (sortByRepr rt values)

section
variable {rt : Runtime} {h : Heap}

theorem mapM_items {f : Value → Py Json} {g : Value → Str} : ∀ items : List (Value × Value),
    (Py.mapM (fun item => do
      let value ← f item.2
      pure (g item.1, value)) items : Py (List (Str × Json))) =
      (do
        let values ← Py.mapM f (items.map Prod.snd)
        pure ((items.map fun item => g item.1).zip values))
  | [] => rfl
  | item :: items => by
    simp only [Py.mapM, List.map_cons]
    rw [mapM_items items]
    cases f item.2 with
    | error e => rfl
    | ok value => cases Py.mapM f (items.map Prod.snd) <;> rfl

theorem jsonifyObj_eq (convert : Value → Py Json) (obj : Obj) :
    jsonifyObj rt h convert obj = (do
      let values ← Py.mapM convert obj.children
      pure (obj.build rt h values)) := by
  cases obj with
  | dict items =>
    rw [jsonifyObj, mapM_items]
    unfold Obj.children
    cases Py.mapM convert (items.map Prod.snd) <;> rfl
  | list items => rfl
  | tuple items => rfl
  | set items => rfl

/-- **One step of the walk.** -/
theorem jsonifyWith_ref {fuel id : Nat} {seen : List Nat} {obj : Obj} (hid : id ∉ seen)
    (hobj : h[id]? = some obj) : jsonifyWith rt h (fuel + 1) seen (.ref id) = (do
      let values ← Py.mapM (jsonifyWith rt h fuel (id :: seen)) obj.children
      pure (obj.build rt h values)) := by
  rw [jsonifyWith, if_neg hid, hobj]
  exact jsonifyObj_eq _ obj

/-- A container around the value, or an absent one. -/
theorem jsonifyWith_stopped {id : Nat} {seen : List Nat} (hid : id ∈ seen ∨ h[id]? = none)
    (fuel : Nat) : jsonifyWith rt h fuel seen (.ref id) = .ok (.str "<cycle>") := by
  cases fuel with
  | zero => rfl
  | succ fuel =>
    rw [jsonifyWith]
    by_cases hm : id ∈ seen
    · rw [if_pos hm]
    · rw [if_neg hm, hid.resolve_left hm]

theorem jsonifyWith_leaf {value : Value} (hv : ∀ id, value ≠ .ref id) (fuel : Nat)
    (seen : List Nat) : jsonifyWith rt h fuel seen value = jsonifyLeaf rt value := by
  cases value with
  | ref id => exact absurd rfl (hv id)
  | _ => cases fuel <;> rfl

/-- The fuel covers the containers that are not yet around the value. -/
structure Enough (h : Heap) (fuel : Nat) (seen : List Nat) : Prop where
  nodup : seen.Nodup
  bounded : ∀ id ∈ seen, id < h.length
  covered : h.length ≤ fuel + seen.length

theorem Enough.start (h : Heap) : Enough h h.length [] := ⟨List.nodup_nil, by simp, by simp⟩

/-- A container that is not yet around the value leaves fuel for its own values. -/
theorem Enough.enter {fuel id : Nat} {seen : List Nat} (he : Enough h fuel seen) (hid : id ∉ seen)
    (hlt : id < h.length) : ∃ rest, fuel = rest + 1 ∧ Enough h rest (id :: seen) := by
  have hnodup : (id :: seen).Nodup := List.nodup_cons.mpr ⟨hid, he.nodup⟩
  have hbounded : ∀ i ∈ id :: seen, i < h.length := List.forall_mem_cons.mpr ⟨hlt, he.bounded⟩
  have hlength : (id :: seen).length ≤ h.length := by
    have hsub := (List.subperm_of_subset hnodup
      fun i hi => List.mem_range.mpr (hbounded i hi)).length_le
    rwa [List.length_range] at hsub
  have hcovered := he.covered
  rw [List.length_cons] at hlength
  cases fuel with
  | zero => omega
  | succ rest => exact ⟨rest, rfl, hnodup, hbounded, by rw [List.length_cons]; omega⟩

theorem lt_of_obj {id : Nat} {obj : Obj} (hobj : h[id]? = some obj) : id < h.length :=
  (List.getElem?_eq_some_iff.mp hobj).1

end

/-! ## What is in the result -/

/-- A value that is no container, reached from this one through containers none of which it enters
twice; `inside` are the values of a container that count. -/
inductive Reaches (h : Heap) (inside : Obj → List Value) : List Nat → Value → Value → Prop
  | leaf {seen value} (hv : ∀ id, value ≠ .ref id) : Reaches h inside seen value value
  | enter {seen id obj child leaf} (hid : id ∉ seen) (hobj : h[id]? = some obj)
      (hchild : child ∈ inside obj) (hrest : Reaches h inside (id :: seen) child leaf) :
      Reaches h inside seen (.ref id) leaf

/-- The values that stay: of the items of a dictionary whose keys have the same text, the last. -/
def Obj.kept (rt : Runtime) (h : Heap) : Obj → List Value
  | .dict items =>
    (OrderedDict.ofPairs (items.map fun item => (keyStr rt h item.1, item.2))).items.map Prod.snd
  | .list items | .tuple items | .set items => items

/-- A float, or a `Decimal` by its float, that is `nan` or an infinity. -/
def NonFinite (rt : Runtime) : Value → Prop
  | .float repr => repr ∈ nonFinite
  | .decimal (.finite negative coefficient exponent) =>
    rt.floatOf negative coefficient exponent ∈ nonFinite
  | .decimal (.infinity _) | .decimal .quietNan => True
  | _ => False

section
variable {rt : Runtime} {h : Heap}

theorem jsonifyLeaf_returns {value : Value} : (∃ j, jsonifyLeaf rt value = .ok j) ↔
    value ≠ .decimal .signallingNan := by
  cases value with
  | decimal d =>
    cases d with
    | signallingNan =>
      refine ⟨?_, fun hne => absurd rfl hne⟩
      rintro ⟨j, hj⟩
      cases hj
    | _ => exact ⟨fun _ e => (nomatch e), fun _ => ⟨_, rfl⟩⟩
  | _ => exact ⟨fun _ e => (nomatch e), fun _ => ⟨_, rfl⟩⟩

theorem jsonifyLeaf_strict {value : Value} {j : Json} (hj : jsonifyLeaf rt value = .ok j) :
    strict j = true ↔ ¬ NonFinite rt value := by
  cases value with
  | decimal d =>
    cases d with
    | finite negative coefficient exponent => cases hj; simp [strict, NonFinite]
    | infinity negative => cases hj; cases negative <;> simp [strict, NonFinite, nonFinite]
    | quietNan => cases hj; simp [strict, NonFinite, nonFinite]
    | signallingNan => cases hj
  | _ => cases hj; simp [strict, NonFinite]

theorem reaches_leaf_iff {inside : Obj → List Value} {seen : List Nat} {value leaf : Value}
    (hv : ∀ id, value ≠ .ref id) : Reaches h inside seen value leaf ↔ leaf = value := by
  constructor
  · intro hr
    cases hr with
    | leaf => rfl
    | enter => exact absurd rfl (hv _)
  · rintro rfl
    exact .leaf hv

theorem reaches_ref_iff {inside : Obj → List Value} {seen : List Nat} {id : Nat} {obj : Obj}
    {leaf : Value} (hid : id ∉ seen) (hobj : h[id]? = some obj) :
    Reaches h inside seen (.ref id) leaf ↔
      ∃ child ∈ inside obj, Reaches h inside (id :: seen) child leaf := by
  constructor
  · intro hr
    cases hr with
    | leaf hv => exact absurd rfl (hv id)
    | enter _ hobj' hchild hrest =>
      rw [hobj] at hobj'
      cases hobj'
      exact ⟨_, hchild, hrest⟩
  · rintro ⟨child, hchild, hrest⟩
    exact .enter hid hobj hchild hrest

/-- Nothing is reached through a container around the value, or without an object. -/
theorem not_reaches {inside : Obj → List Value} {seen : List Nat} {id : Nat} {leaf : Value}
    (hid : id ∈ seen ∨ h[id]? = none) : ¬ Reaches h inside seen (.ref id) leaf := by
  intro hr
  cases hr with
  | leaf hv => exact hv id rfl
  | enter hn hobj =>
    rcases hid with hid | hid
    · exact hn hid
    · rw [hid] at hobj
      cases hobj

/-- The cases of the walk. -/
theorem walk_cases {fuel : Nat} {seen : List Nat} (he : Enough h fuel seen) (value : Value) :
    (∀ id, value ≠ .ref id) ∨
      (∃ id, value = .ref id ∧ (id ∈ seen ∨ h[id]? = none)) ∨
      ∃ id obj rest, value = .ref id ∧ id ∉ seen ∧ h[id]? = some obj ∧ fuel = rest + 1 ∧
        Enough h rest (id :: seen) := by
  cases value with
  | ref id =>
    right
    by_cases hid : id ∈ seen
    · exact .inl ⟨id, rfl, .inl hid⟩
    · cases hobj : h[id]? with
      | none => exact .inl ⟨id, rfl, .inr hobj⟩
      | some obj =>
        obtain ⟨rest, hrest, he⟩ := he.enter hid (lt_of_obj hobj)
        exact .inr ⟨id, obj, rest, rfl, hid, hobj, hrest, he⟩
  | _ => exact .inl fun _ e => nomatch e

/-- **`jsonify` raises on a signalling NaN only.** -/
theorem jsonifyWith_returns_iff (fuel : Nat) {seen : List Nat} {value : Value}
    (he : Enough h fuel seen) : (∃ j, jsonifyWith rt h fuel seen value = .ok j) ↔
      ∀ leaf, Reaches h Obj.children seen value leaf → leaf ≠ .decimal .signallingNan := by
  induction fuel using Nat.strong_induction_on generalizing seen value with
  | _ fuel ih =>
    rcases walk_cases he value with
      hv | ⟨id, rfl, hstop⟩ | ⟨id, obj, rest, rfl, hid, hobj, rfl, henter⟩
    · rw [jsonifyWith_leaf hv, jsonifyLeaf_returns]
      simp [reaches_leaf_iff hv]
    · exact iff_of_true ⟨_, jsonifyWith_stopped hstop fuel⟩
        fun leaf hr => absurd hr (not_reaches hstop)
    · have hstep : (∃ j, jsonifyWith rt h (rest + 1) seen (.ref id) = .ok j) ↔
          ∃ values, Py.mapM (jsonifyWith rt h rest (id :: seen)) obj.children = .ok values := by
        rw [jsonifyWith_ref hid hobj]
        constructor
        · rintro ⟨j, hj⟩
          obtain ⟨values, hvalues, -⟩ := Py.bind_ok.mp hj
          exact ⟨values, hvalues⟩
        · rintro ⟨values, hvalues⟩
          exact ⟨_, Py.bind_ok.mpr ⟨values, hvalues, rfl⟩⟩
      rw [hstep, Py.mapM_returns_iff]
      simp only [reaches_ref_iff hid hobj]
      constructor
      · rintro hall leaf ⟨child, hchild, hr⟩
        exact (ih rest (Nat.lt_succ_self _) henter).mp (hall child hchild) leaf hr
      · intro hall child hchild
        exact (ih rest (Nat.lt_succ_self _) henter).mpr fun leaf hr => hall leaf ⟨child, hchild, hr⟩

theorem forall₂_all_iff {α β : Type} {P : α → Prop} {Q : β → Prop} : ∀ {as : List α} {bs : List β},
    List.Forall₂ (fun a b => Q b ↔ P a) as bs → ((∀ b ∈ bs, Q b) ↔ ∀ a ∈ as, P a)
  | _, _, .nil => by simp
  | _, _, .cons hab ht => by
    rw [List.forall_mem_cons, List.forall_mem_cons, hab, forall₂_all_iff ht]

theorem related_zip {R : Value → Json → Prop} {key : Value → Str} :
    ∀ {items : List (Value × Value)} {values : List Json},
      List.Forall₂ R (items.map Prod.snd) values →
      List.Forall₂ (OrderedDict.Related R) (items.map fun item => (key item.1, item.2))
        ((items.map fun item => key item.1).zip values)
  | [], _, .nil => .nil
  | _ :: _, _ :: _, .cons hr ht => .cons ⟨rfl, hr⟩ (related_zip ht)

/-- The result of a container is strict when the values that stay in it are. -/
theorem build_strict {P : Value → Prop} {obj : Obj} {values : List Json}
    (hall : List.Forall₂ (fun child j => strict j = true ↔ P child) obj.children values) :
    strict (obj.build rt h values) = true ↔ ∀ child ∈ obj.kept rt h, P child := by
  cases obj with
  | list items => exact strictItems_iff.trans (forall₂_all_iff hall)
  | tuple items => exact strictItems_iff.trans (forall₂_all_iff hall)
  | set items =>
    have hperm : (sortByRepr rt values).Perm values := List.perm_insertionSort _ _
    rw [Obj.build, strict, strictItems_iff]
    simp only [hperm.mem_iff]
    exact forall₂_all_iff hall
  | dict items =>
    have hdict := OrderedDict.forall₂_ofPairs (@related_zip _ (keyStr rt h) items values hall)
    have hmembers := forall₂_all_iff (P := fun p => P p.2) (Q := fun m => strict m.2 = true)
      (hdict.imp fun _ _ hp => hp.2)
    rw [Obj.build, strict, strictMembers_iff, hmembers]
    exact List.forall_mem_map.symm

/-- **What `jsonify` returns is strict JSON** unless a `nan` or an infinity is left in it. -/
theorem jsonifyWith_strict_iff (fuel : Nat) {seen : List Nat} {value : Value} {j : Json}
    (he : Enough h fuel seen) (hj : jsonifyWith rt h fuel seen value = .ok j) :
    strict j = true ↔
      ∀ leaf, Reaches h (Obj.kept rt h) seen value leaf → ¬ NonFinite rt leaf := by
  induction fuel using Nat.strong_induction_on generalizing seen value j with
  | _ fuel ih =>
    rcases walk_cases he value with
      hv | ⟨id, rfl, hstop⟩ | ⟨id, obj, rest, rfl, hid, hobj, rfl, henter⟩
    · rw [jsonifyWith_leaf hv] at hj
      rw [jsonifyLeaf_strict hj]
      simp [reaches_leaf_iff hv]
    · rw [jsonifyWith_stopped hstop] at hj
      cases hj
      exact iff_of_true rfl fun leaf hr => absurd hr (not_reaches hstop)
    · rw [jsonifyWith_ref hid hobj] at hj
      obtain ⟨values, hvalues, hj⟩ := Py.bind_ok.mp hj
      cases hj
      have hall : List.Forall₂ (fun child j => strict j = true ↔
          ∀ leaf, Reaches h (Obj.kept rt h) (id :: seen) child leaf → ¬ NonFinite rt leaf)
          obj.children values :=
        (Py.mapM_forall₂ hvalues).imp fun _ _ hc => ih rest (Nat.lt_succ_self _) henter hc
      rw [build_strict hall]
      simp only [reaches_ref_iff hid hobj]
      constructor
      · rintro hkept leaf ⟨child, hchild, hr⟩
        exact hkept child hchild leaf hr
      · intro hkept child hchild leaf hr
        exact hkept leaf ⟨child, hchild, hr⟩

end

end KnowledgeKiln.L1.JsonSafe
