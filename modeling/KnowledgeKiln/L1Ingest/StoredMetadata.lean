import KnowledgeKiln.L1Ingest.JsonSafe

/-!
# Stored metadata (ingestion/_jsonsafe.py)

What `jsonify` returns is a graph of Python objects again, for a JSON value (`Represents`).

* `jsonify_represents`: a graph of JSON comes out as it is.
* `alloc_represents`: every result has a graph.
* `storable_iff`: the metadata whose result is strict JSON.
-/
namespace KnowledgeKiln.L1.JsonSafe

open KnowledgeKiln.Core

/-! ## Graphs of JSON values -/

mutual

/-- The value, in this heap, is the graph of Python objects for the JSON value. -/
def Represents (h : Heap) : Value → Json → Prop
  | v, .null => v = .none
  | v, .bool b => v = .bool b
  | v, .int i => v = .int i
  | v, .float repr => v = .float repr
  | v, .str s => v = .str s
  | v, .arr items => ∃ id values, v = .ref id ∧ h[id]? = some (.list values) ∧
      RepresentsItems h values items
  | v, .obj members => ∃ id items, v = .ref id ∧ h[id]? = some (.dict items) ∧
      (members.map Prod.fst).Nodup ∧ RepresentsMembers h items members

def RepresentsItems (h : Heap) : List Value → List Json → Prop
  | values, [] => values = []
  | values, j :: js => ∃ v vs, values = v :: vs ∧ Represents h v j ∧ RepresentsItems h vs js

def RepresentsMembers (h : Heap) : List (Value × Value) → List (Str × Json) → Prop
  | items, [] => items = []
  | items, (key, j) :: ms => ∃ v rest, items = (.str key, v) :: rest ∧ Represents h v j ∧
      RepresentsMembers h rest ms

end

mutual

/-- An object is the graph of one JSON value only. -/
theorem represents_unique {h : Heap} : ∀ (j : Json) {v : Value} {j' : Json}, Represents h v j →
    Represents h v j' → j = j'
  | .arr items, _, j', hj, hj' => by
    simp only [Represents] at hj
    obtain ⟨id, values, rfl, hobj, hitems⟩ := hj
    cases j' with
    | arr items' =>
      simp only [Represents] at hj'
      obtain ⟨id', values', hid, hobj', hitems'⟩ := hj'
      cases hid
      rw [hobj] at hobj'
      cases hobj'
      rw [representsItems_unique items hitems hitems']
    | obj members' =>
      simp only [Represents] at hj'
      obtain ⟨id', items', hid, hobj', -⟩ := hj'
      cases hid
      rw [hobj] at hobj'
      cases hobj'
    | _ => simp [Represents] at hj'
  | .obj members, _, j', hj, hj' => by
    simp only [Represents] at hj
    obtain ⟨id, items, rfl, hobj, -, hitems⟩ := hj
    cases j' with
    | arr items' =>
      simp only [Represents] at hj'
      obtain ⟨id', values', hid, hobj', -⟩ := hj'
      cases hid
      rw [hobj] at hobj'
      cases hobj'
    | obj members' =>
      simp only [Represents] at hj'
      obtain ⟨id', items', hid, hobj', -, hitems'⟩ := hj'
      cases hid
      rw [hobj] at hobj'
      cases hobj'
      rw [representsMembers_unique members hitems hitems']
    | _ => simp [Represents] at hj'
  | .null, _, j', hj, hj' => by cases j' <;> simp_all [Represents]
  | .bool _, _, j', hj, hj' => by cases j' <;> simp_all [Represents]
  | .int _, _, j', hj, hj' => by cases j' <;> simp_all [Represents]
  | .float _, _, j', hj, hj' => by cases j' <;> simp_all [Represents]
  | .str _, _, j', hj, hj' => by cases j' <;> simp_all [Represents]

theorem representsItems_unique {h : Heap} : ∀ (items : List Json) {values : List Value}
    {items' : List Json}, RepresentsItems h values items → RepresentsItems h values items' →
    items = items'
  | [], _, items', hi, hi' => by
    simp only [RepresentsItems] at hi
    subst hi
    cases items' with
    | nil => rfl
    | cons j' js' => simp [RepresentsItems] at hi'
  | j :: js, _, items', hi, hi' => by
    simp only [RepresentsItems] at hi
    obtain ⟨v, vs, rfl, hj, hjs⟩ := hi
    cases items' with
    | nil => simp [RepresentsItems] at hi'
    | cons j' js' =>
      simp only [RepresentsItems] at hi'
      obtain ⟨v', vs', he, hj', hjs'⟩ := hi'
      cases he
      rw [represents_unique j hj hj', representsItems_unique js hjs hjs']

theorem representsMembers_unique {h : Heap} : ∀ (members : List (Str × Json))
    {items : List (Value × Value)} {members' : List (Str × Json)},
    RepresentsMembers h items members → RepresentsMembers h items members' → members = members'
  | [], _, members', hm, hm' => by
    simp only [RepresentsMembers] at hm
    subst hm
    cases members' with
    | nil => rfl
    | cons m' ms' => simp [RepresentsMembers] at hm'
  | (key, j) :: ms, _, members', hm, hm' => by
    simp only [RepresentsMembers] at hm
    obtain ⟨v, rest, rfl, hj, hms⟩ := hm
    cases members' with
    | nil => simp [RepresentsMembers] at hm'
    | cons m' ms' =>
      obtain ⟨key', j'⟩ := m'
      simp only [RepresentsMembers] at hm'
      obtain ⟨v', rest', he, hj', hms'⟩ := hm'
      cases he
      rw [represents_unique j hj hj', representsMembers_unique ms hms hms']

end

section
variable {rt : Runtime} {h : Heap}

/-- The containers around a value are graphs of larger JSON values than these. -/
def Around (h : Heap) (seen : List Nat) (items : List Json) : Prop :=
  ∀ id ∈ seen, ∃ j', Represents h (.ref id) j' ∧ ∀ j ∈ items, sizeOf j < sizeOf j'

theorem Around.mono {seen : List Nat} {items items' : List Json} (ha : Around h seen items)
    (hsub : ∀ j ∈ items', j ∈ items) : Around h seen items' := fun id hid =>
  let ⟨j', hj', hlt⟩ := ha id hid
  ⟨j', hj', fun j hj => hlt j (hsub j hj)⟩

/-- So a graph of JSON is not around itself. -/
theorem Around.not_mem {seen : List Nat} {j : Json} (ha : Around h seen [j]) {id : Nat}
    (hj : Represents h (.ref id) j) : id ∉ seen := by
  intro hid
  obtain ⟨j', hj', hlt⟩ := ha id hid
  have he := represents_unique j hj hj'
  subst he
  exact absurd (hlt j (List.mem_singleton_self j)) (Nat.lt_irrefl _)

theorem Around.enter {seen : List Nat} {j : Json} {items : List Json} (ha : Around h seen [j])
    {id : Nat} (hj : Represents h (.ref id) j) (hlt : ∀ i ∈ items, sizeOf i < sizeOf j) :
    Around h (id :: seen) items := by
  refine List.forall_mem_cons.mpr ⟨⟨j, hj, hlt⟩, fun id' hid' => ?_⟩
  obtain ⟨j', hj', hlt'⟩ := ha id' hid'
  exact ⟨j', hj', fun i hi => (hlt i hi).trans (hlt' j (List.mem_singleton_self j))⟩

theorem representsMembers_keys : ∀ {members : List (Str × Json)} {items : List (Value × Value)},
    RepresentsMembers h items members →
    (items.map fun item => keyStr rt h item.1) = members.map Prod.fst
  | [], _, hm => by
    simp only [RepresentsMembers] at hm
    rw [hm]
    rfl
  | (key, j) :: ms, _, hm => by
    simp only [RepresentsMembers] at hm
    obtain ⟨v, rest, rfl, -, hms⟩ := hm
    exact congrArg (key :: ·) (representsMembers_keys hms)

mutual

/-- **A graph that already is JSON comes out as it is.** -/
theorem jsonifyWith_represents : ∀ (j : Json) {v : Value} {fuel : Nat} {seen : List Nat},
    Represents h v j → Enough h fuel seen → Around h seen [j] →
    jsonifyWith rt h fuel seen v = .ok j
  | .arr items, _, fuel, seen, hj, he, ha => by
    have hrep := hj
    simp only [Represents] at hj
    obtain ⟨id, values, rfl, hobj, hitems⟩ := hj
    have hid := ha.not_mem hrep
    obtain ⟨rest, rfl, henter⟩ := he.enter hid (lt_of_obj hobj)
    have haround := @Around.enter h seen _ items ha id hrep fun i hi => by
      have hlt := List.sizeOf_lt_of_mem hi
      simp only [Json.arr.sizeOf_spec]
      omega
    have hmap : Py.mapM (jsonifyWith rt h rest (id :: seen)) values = .ok items :=
      mapM_represents items hitems henter haround
    rw [jsonifyWith_ref hid hobj]
    exact Py.bind_ok.mpr ⟨items, hmap, rfl⟩
  | .obj members, _, fuel, seen, hj, he, ha => by
    have hrep := hj
    simp only [Represents] at hj
    obtain ⟨id, items, rfl, hobj, hnodup, hitems⟩ := hj
    have hid := ha.not_mem hrep
    obtain ⟨rest, rfl, henter⟩ := he.enter hid (lt_of_obj hobj)
    have haround := @Around.enter h seen _ (members.map Prod.snd) ha id hrep fun i hi => by
      obtain ⟨m, hm, rfl⟩ := List.mem_map.mp hi
      have hlt := List.sizeOf_lt_of_mem hm
      obtain ⟨key, j⟩ := m
      simp only [Json.obj.sizeOf_spec, Prod.mk.sizeOf_spec] at hlt ⊢
      omega
    have hmap : Py.mapM (jsonifyWith rt h rest (id :: seen)) (items.map Prod.snd) =
        .ok (members.map Prod.snd) := mapM_representsMembers members hitems henter haround
    rw [jsonifyWith_ref hid hobj]
    refine Py.bind_ok.mpr ⟨_, hmap, ?_⟩
    have hzip : (members.map Prod.fst).zip (members.map Prod.snd) = members := by
      rw [List.zip_map']
      simp
    rw [Obj.build, representsMembers_keys hitems, hzip, OrderedDict.items_ofPairs hnodup]
    rfl
  | .null, _, _, _, hj, _, _ => by
    simp only [Represents] at hj
    rw [hj, jsonifyWith_leaf (by simp)]
    rfl
  | .bool _, _, _, _, hj, _, _ => by
    simp only [Represents] at hj
    rw [hj, jsonifyWith_leaf (by simp)]
    rfl
  | .int _, _, _, _, hj, _, _ => by
    simp only [Represents] at hj
    rw [hj, jsonifyWith_leaf (by simp)]
    rfl
  | .float _, _, _, _, hj, _, _ => by
    simp only [Represents] at hj
    rw [hj, jsonifyWith_leaf (by simp)]
    rfl
  | .str _, _, _, _, hj, _, _ => by
    simp only [Represents] at hj
    rw [hj, jsonifyWith_leaf (by simp)]
    rfl

theorem mapM_represents : ∀ (items : List Json) {values : List Value} {fuel : Nat}
    {seen : List Nat}, RepresentsItems h values items → Enough h fuel seen → Around h seen items →
    Py.mapM (jsonifyWith rt h fuel seen) values = .ok items
  | [], _, _, _, hi, _, _ => by
    simp only [RepresentsItems] at hi
    rw [hi]
    rfl
  | j :: js, _, _, _, hi, he, ha => by
    simp only [RepresentsItems] at hi
    obtain ⟨v, vs, rfl, hj, hjs⟩ := hi
    have hhead := jsonifyWith_represents j hj he (ha.mono (by simp))
    have htail := mapM_represents js hjs he (ha.mono fun _ => List.mem_cons_of_mem j)
    exact Py.mapM_cons_ok.mpr ⟨j, js, hhead, htail, rfl⟩

theorem mapM_representsMembers : ∀ (members : List (Str × Json)) {items : List (Value × Value)}
    {fuel : Nat} {seen : List Nat}, RepresentsMembers h items members → Enough h fuel seen →
    Around h seen (members.map Prod.snd) →
    Py.mapM (jsonifyWith rt h fuel seen) (items.map Prod.snd) = .ok (members.map Prod.snd)
  | [], _, _, _, hm, _, _ => by
    simp only [RepresentsMembers] at hm
    rw [hm]
    rfl
  | (key, j) :: ms, _, _, _, hm, he, ha => by
    simp only [RepresentsMembers] at hm
    obtain ⟨v, rest, rfl, hj, hms⟩ := hm
    have hhead := jsonifyWith_represents j hj he (ha.mono (by simp))
    have htail := mapM_representsMembers ms hms he (ha.mono fun _ hm => by simp_all)
    exact Py.mapM_cons_ok.mpr ⟨j, _, hhead, htail, rfl⟩

end

/-- **A second `jsonify` changes nothing.** -/
theorem jsonify_represents {v : Value} {j : Json} (hj : Represents h v j) :
    jsonify rt h v = .ok j :=
  jsonifyWith_represents j hj (Enough.start h) fun _ hid => nomatch hid

end

/-! ## The graph of a result -/

mutual

/-- The objects for a JSON value, behind those that are there. -/
def alloc (h : Heap) : Json → Heap × Value
  | .null => (h, .none)
  | .bool b => (h, .bool b)
  | .int i => (h, .int i)
  | .float repr => (h, .float repr)
  | .str s => (h, .str s)
  | .arr items =>
    let (h', values) := allocItems h items
    (h' ++ [.list values], .ref h'.length)
  | .obj members =>
    let (h', items) := allocMembers h members
    (h' ++ [.dict items], .ref h'.length)

def allocItems (h : Heap) : List Json → Heap × List Value
  | [] => (h, [])
  | j :: js =>
    let (h', v) := alloc h j
    let (h'', vs) := allocItems h' js
    (h'', v :: vs)

def allocMembers (h : Heap) : List (Str × Json) → Heap × List (Value × Value)
  | [] => (h, [])
  | (key, j) :: ms =>
    let (h', v) := alloc h j
    let (h'', items) := allocMembers h' ms
    (h'', (.str key, v) :: items)

end

mutual

/-- No object has two members of one name. -/
def Distinct : Json → Prop
  | .arr items => DistinctItems items
  | .obj members => (members.map Prod.fst).Nodup ∧ DistinctMembers members
  | _ => True

def DistinctItems : List Json → Prop
  | [] => True
  | j :: js => Distinct j ∧ DistinctItems js

def DistinctMembers : List (Str × Json) → Prop
  | [] => True
  | (_, j) :: ms => Distinct j ∧ DistinctMembers ms

end

section
variable {h h' : Heap}

theorem getElem?_of_prefix (hp : h <+: h') {id : Nat} {obj : Obj} (hobj : h[id]? = some obj) :
    h'[id]? = some obj := by
  obtain ⟨more, rfl⟩ := hp
  rw [List.getElem?_append_left (lt_of_obj hobj), hobj]

mutual

/-- More objects behind a graph do not change it. -/
theorem Represents.mono (hp : h <+: h') : ∀ (j : Json) {v : Value}, Represents h v j →
    Represents h' v j
  | .arr items, _, hj => by
    simp only [Represents] at hj ⊢
    obtain ⟨id, values, hv, hobj, hitems⟩ := hj
    exact ⟨id, values, hv, getElem?_of_prefix hp hobj, representsItems_mono hp items hitems⟩
  | .obj members, _, hj => by
    simp only [Represents] at hj ⊢
    obtain ⟨id, items, hv, hobj, hnodup, hitems⟩ := hj
    exact ⟨id, items, hv, getElem?_of_prefix hp hobj, hnodup,
      representsMembers_mono hp members hitems⟩
  | .null, _, hj => by simpa only [Represents] using hj
  | .bool _, _, hj => by simpa only [Represents] using hj
  | .int _, _, hj => by simpa only [Represents] using hj
  | .float _, _, hj => by simpa only [Represents] using hj
  | .str _, _, hj => by simpa only [Represents] using hj

theorem representsItems_mono (hp : h <+: h') : ∀ (items : List Json) {values : List Value},
    RepresentsItems h values items → RepresentsItems h' values items
  | [], _, hi => by simpa only [RepresentsItems] using hi
  | j :: js, _, hi => by
    simp only [RepresentsItems] at hi ⊢
    obtain ⟨v, vs, hv, hj, hjs⟩ := hi
    exact ⟨v, vs, hv, Represents.mono hp j hj, representsItems_mono hp js hjs⟩

theorem representsMembers_mono (hp : h <+: h') : ∀ (members : List (Str × Json))
    {items : List (Value × Value)}, RepresentsMembers h items members →
    RepresentsMembers h' items members
  | [], _, hm => by simpa only [RepresentsMembers] using hm
  | (key, j) :: ms, _, hm => by
    simp only [RepresentsMembers] at hm ⊢
    obtain ⟨v, rest, hv, hj, hms⟩ := hm
    exact ⟨v, rest, hv, Represents.mono hp j hj, representsMembers_mono hp ms hms⟩

end

end

theorem getElem?_last (h : Heap) (obj : Obj) : (h ++ [obj])[h.length]? = some obj := by simp

mutual

theorem alloc_represents : ∀ (j : Json) (h : Heap), Distinct j →
    h <+: (alloc h j).1 ∧ Represents (alloc h j).1 (alloc h j).2 j
  | .arr items, h, hd => by
    simp only [Distinct] at hd
    obtain ⟨hp, hitems⟩ := allocItems_represents items h hd
    simp only [alloc, Represents]
    have hlast := List.prefix_append (allocItems h items).1 [.list (allocItems h items).2]
    exact ⟨hp.trans hlast, _, _, rfl, getElem?_last _ _, representsItems_mono hlast items hitems⟩
  | .obj members, h, hd => by
    simp only [Distinct] at hd
    obtain ⟨hp, hitems⟩ := allocMembers_represents members h hd.2
    simp only [alloc, Represents]
    have hlast := List.prefix_append (allocMembers h members).1 [.dict (allocMembers h members).2]
    exact ⟨hp.trans hlast, _, _, rfl, getElem?_last _ _, hd.1,
      representsMembers_mono hlast members hitems⟩
  | .null, h, _ => by simp [alloc, Represents]
  | .bool _, h, _ => by simp [alloc, Represents]
  | .int _, h, _ => by simp [alloc, Represents]
  | .float _, h, _ => by simp [alloc, Represents]
  | .str _, h, _ => by simp [alloc, Represents]

theorem allocItems_represents : ∀ (items : List Json) (h : Heap), DistinctItems items →
    h <+: (allocItems h items).1 ∧
      RepresentsItems (allocItems h items).1 (allocItems h items).2 items
  | [], h, _ => by simp [allocItems, RepresentsItems]
  | j :: js, h, hd => by
    simp only [DistinctItems] at hd
    obtain ⟨hp, hj⟩ := alloc_represents j h hd.1
    obtain ⟨hp', hjs⟩ := allocItems_represents js (alloc h j).1 hd.2
    simp only [allocItems, RepresentsItems]
    exact ⟨hp.trans hp', _, _, rfl, hj.mono hp' j, hjs⟩

theorem allocMembers_represents : ∀ (members : List (Str × Json)) (h : Heap),
    DistinctMembers members → h <+: (allocMembers h members).1 ∧
      RepresentsMembers (allocMembers h members).1 (allocMembers h members).2 members
  | [], h, _ => by simp [allocMembers, RepresentsMembers]
  | (key, j) :: ms, h, hd => by
    simp only [DistinctMembers] at hd
    obtain ⟨hp, hj⟩ := alloc_represents j h hd.1
    obtain ⟨hp', hms⟩ := allocMembers_represents ms (alloc h j).1 hd.2
    simp only [allocMembers, RepresentsMembers]
    exact ⟨hp.trans hp', _, _, rfl, Represents.mono hp' j hj, hms⟩

end

theorem distinctItems_iff {items : List Json} : DistinctItems items ↔ ∀ j ∈ items, Distinct j := by
  induction items with
  | nil => simp [DistinctItems]
  | cons j js ih => rw [DistinctItems, ih, List.forall_mem_cons]

theorem distinctMembers_iff {members : List (Str × Json)} :
    DistinctMembers members ↔ ∀ m ∈ members, Distinct m.2 := by
  induction members with
  | nil => simp [DistinctMembers]
  | cons m ms ih => rw [DistinctMembers, ih, List.forall_mem_cons]

section
variable {rt : Runtime} {h : Heap}

theorem jsonifyLeaf_distinct {value : Value} {j : Json} (hj : jsonifyLeaf rt value = .ok j) :
    Distinct j := by
  cases value with
  | decimal d => cases d <;> cases hj <;> simp [Distinct]
  | _ => cases hj; simp [Distinct]

theorem build_distinct {obj : Obj} {values : List Json} (hall : ∀ j ∈ values, Distinct j) :
    Distinct (obj.build rt h values) := by
  cases obj with
  | list items => exact distinctItems_iff.mpr hall
  | tuple items => exact distinctItems_iff.mpr hall
  | set items =>
    have hperm : (sortByRepr rt values).Perm values := List.perm_insertionSort _ _
    exact distinctItems_iff.mpr fun j hj => hall j (hperm.mem_iff.mp hj)
  | dict items =>
    have hpairs : ∀ p ∈ (items.map fun item => keyStr rt h item.1).zip values,
        OrderedDict.Related (fun j _ => Distinct j) p p :=
      fun p hp => ⟨rfl, hall p.2 (List.of_mem_zip hp).2⟩
    have hdict := OrderedDict.forall₂_ofPairs (List.forall₂_same.mpr hpairs)
    exact ⟨OrderedDict.nodup _,
      distinctMembers_iff.mpr fun m hm => (List.forall₂_same.mp hdict m hm).2⟩

/-- What `jsonify` returns is a JSON value with a graph. -/
theorem jsonifyWith_distinct (fuel : Nat) {seen : List Nat} {value : Value} {j : Json}
    (he : Enough h fuel seen) (hj : jsonifyWith rt h fuel seen value = .ok j) : Distinct j := by
  induction fuel using Nat.strong_induction_on generalizing seen value j with
  | _ fuel ih =>
    rcases walk_cases he value with
      hv | ⟨id, rfl, hstop⟩ | ⟨id, obj, rest, rfl, hid, hobj, rfl, henter⟩
    · rw [jsonifyWith_leaf hv] at hj
      exact jsonifyLeaf_distinct hj
    · rw [jsonifyWith_stopped hstop] at hj
      cases hj
      simp [Distinct]
    · rw [jsonifyWith_ref hid hobj] at hj
      obtain ⟨values, hvalues, hj⟩ := Py.bind_ok.mp hj
      cases hj
      refine build_distinct fun j hm => ?_
      obtain ⟨child, -, hchild⟩ := Py.mem_of_mapM hvalues hm
      exact ih rest (Nat.lt_succ_self _) henter hchild

end

/-! ## Storable metadata -/

/-- `jsonify` returns strict JSON, and a second `jsonify` of that returns it again. -/
def Storable (rt : Runtime) (h : Heap) (value : Value) : Prop :=
  ∃ j, jsonify rt h value = .ok j ∧ strict j = true ∧
    (∃ h' value', Represents h' value' j) ∧
    ∀ h' value', Represents h' value' j → jsonify rt h' value' = .ok j

/-- **Storable metadata.** For every graph of Python objects, cycles included: it is storable
exactly when no signalling NaN is reached in it, and no `nan` and no infinity through the values
that stay. -/
theorem storable_iff (rt : Runtime) (h : Heap) (value : Value) : Storable rt h value ↔
    (∀ leaf, Reaches h Obj.children [] value leaf → leaf ≠ .decimal .signallingNan) ∧
      ∀ leaf, Reaches h (Obj.kept rt h) [] value leaf → ¬ NonFinite rt leaf := by
  have hstart := Enough.start h
  constructor
  · rintro ⟨j, hj, hstrict, -⟩
    exact ⟨(jsonifyWith_returns_iff _ hstart).mp ⟨j, hj⟩,
      (jsonifyWith_strict_iff _ hstart hj).mp hstrict⟩
  · rintro ⟨hreturns, hfinite⟩
    obtain ⟨j, hj⟩ := (jsonifyWith_returns_iff _ hstart).mpr hreturns
    have hgraph := (alloc_represents j [] (jsonifyWith_distinct _ hstart hj)).2
    exact ⟨j, hj, (jsonifyWith_strict_iff _ hstart hj).mpr hfinite, ⟨_, _, hgraph⟩,
      fun _ _ hrep => jsonify_represents hrep⟩

/-- Nothing of this runtime is asked for the metadata below. -/
def asciiRuntime : Runtime where
  str := fun _ _ => []
  repr := fun _ => []
  floatOf := fun _ _ _ => "0.0"
  decodeUtf8 := fun octets =>
    if octets.all (· < 0x80) then some (octets.map fun b => Char.ofNat b.toNat) else none

/-- The frontmatter `score: .nan`. -/
def nanMetadata : Heap := [.dict [(.str "score", .float "nan")]]

theorem nan_kept :
    jsonify asciiRuntime nanMetadata (.ref 0) = .ok (.obj [("score".toList, .float "nan")]) ∧
      strict (.obj [("score".toList, .float "nan")]) = false ∧
      ¬ Storable asciiRuntime nanMetadata (.ref 0) := by
  have hj : jsonify asciiRuntime nanMetadata (.ref 0) =
      .ok (.obj [("score".toList, .float "nan")]) := rfl
  have hstrict : strict (.obj [("score".toList, .float "nan")]) = false := by decide +kernel
  refine ⟨hj, hstrict, ?_⟩
  rintro ⟨j, hj', hs, -⟩
  rw [hj] at hj'
  cases hj'
  rw [hstrict] at hs
  cases hs

end KnowledgeKiln.L1.JsonSafe
