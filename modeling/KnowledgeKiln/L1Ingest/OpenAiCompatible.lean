import KnowledgeKiln.Core.Json
import KnowledgeKiln.L1Ingest.Embedding

/-!
# The OpenAI-compatible adapter (ingestion/embedding/openai_compatible.py)

`embed` posts the texts of a batch and hands the JSON of the answer to
`parseVectors`, which puts each vector at the `index` its item names. A JSON
boolean is an `int` to Python, 0 or 1, and a negative index counts from the end
of the list; `float(x)` stays a parameter.

* `parseVectors_returns_iff`: which answers are taken.
* `placed_of_permute`: with every index once, each slot has its own item's embedding.
* `parseVectors_exact_iff`: when an answer is placed exactly, or refused.
-/
namespace KnowledgeKiln.L1.Embedding.OpenAiCompatible

open KnowledgeKiln.Core

/-- `OpenAICompatibleEmbeddingProvider`, as far as it reads an answer. -/
structure Adapter where
  model : Str
  dimensions : Nat
  dimensions_pos : 0 < dimensions

/-! ## Reading an answer -/

section
variable (p : Adapter) (float : Json → Py (Option ℚ))

/-- `isinstance(idx, int)`, and its value. -/
def asInt : Option Json → Option Int
  | some (.int n) => some n
  | some (.bool b) => some (if b then 1 else 0)
  | _ => none

/-- Where `ordered[idx] = …` writes in a list of length `n`. -/
def listIndex (n : Nat) (idx : Int) : Py Nat :=
  if 0 ≤ idx ∧ idx < n then pure idx.toNat
  else if -n ≤ idx ∧ idx < 0 then pure (idx + n).toNat
  else throw (.external "IndexError: list assignment index out of range")

/-- One turn of the loop (openai_compatible.py:187-197): the slot, and what is put there. -/
def placeItem (n : Nat) : Json → Py (Nat × Vec)
  | .obj item =>
    match asInt (JsonDict.get item "index"), JsonDict.get item "embedding" with
    | some idx, some (.arr vec) =>
      if vec.length ≠ p.dimensions then
        throw <| .valueError <| "embedding response has ".toList ++ natStr vec.length ++
          " dimensions, adapter is configured for " ++ natStr p.dimensions
      else do
        let vector ← Py.mapM float vec
        let k ← listIndex n idx
        pure (k, vector)
    | _, _ => throw (.runtimeError "embedding response item missing index/embedding")
  | _ => throw .attributeError

/-- The loop over the items. -/
def placeItems (ordered : List Vec) : List Json → Py (List Vec)
  | [] => pure ordered
  | item :: items => do
    let entry ← placeItem p float ordered.length item
    placeItems (ordered.set entry.1 entry.2) items

def malformed (expectedCount : Nat) (got : Str) : PyExc :=
  .runtimeError <| "embedding response missing or malformed 'data' (expected ".toList ++
    natStr expectedCount ++ " items, got " ++ got ++ ")"

/-- Mirrors `_parse_vectors` (openai_compatible.py:178-198). -/
def parseVectors (data : Json) (expectedCount : Nat) : Py (List Vec) :=
  match data with
  | .obj members =>
    match JsonDict.get members "data" with
    | some (.arr items) =>
      if items.length ≠ expectedCount then throw (malformed expectedCount (natStr items.length))
      else placeItems p float (List.replicate expectedCount []) items
    | _ => throw (malformed expectedCount "n/a")
  | _ => throw .attributeError

/-- Mirrors `embed` (openai_compatible.py:103-110); `request` is the JSON of the answer, or what
the retries end with. -/
def embed (request : List Str → Py Json) (texts : List Str) : Py (List Vec) :=
  if texts = [] then pure []
  else do
    let data ← request texts
    parseVectors p float data texts.length

end

/-! ## Well-formed answers -/

/-- The items of an answer. -/
def responseItems : Json → Option (List Json)
  | .obj members =>
    match JsonDict.get members "data" with
    | some (.arr items) => some items
    | _ => none
  | _ => none

/-- The index an item names. -/
def indexOf : Json → Option Int
  | .obj item => asInt (JsonDict.get item "index")
  | _ => none

/-- The embedding an item carries. -/
def embeddingOf (float : Json → Py (Option ℚ)) : Json → Option Vec
  | .obj item =>
    match JsonDict.get item "embedding" with
    | some (.arr vec) => (Py.mapM float vec).toOption
    | _ => none
  | _ => none

/-- An item the loop takes, in a list of `n` slots. -/
structure WellFormed (p : Adapter) (float : Json → Py (Option ℚ)) (n : Nat) (item : Json) :
    Prop where
  index : ∃ idx, indexOf item = some idx ∧ -n ≤ idx ∧ idx < n
  embedding : ∃ vector, embeddingOf float item = some vector ∧ vector.length = p.dimensions

/-- An answer with the right number of items, each of them well formed. -/
def Acceptable (p : Adapter) (float : Json → Py (Option ℚ)) (data : Json) (n : Nat) : Prop :=
  ∃ items, responseItems data = some items ∧ items.length = n ∧
    ∀ item ∈ items, WellFormed p float n item

/-- The indices of the items are 0, …, n - 1, each once and in any order. -/
def IndicesPermute (data : Json) (n : Nat) : Prop :=
  ∃ items, responseItems data = some items ∧
    (items.map indexOf).Perm ((List.range n).map fun i : Nat => some (i : Int))

section
variable {p : Adapter} {float : Json → Py (Option ℚ)} {n : Nat} {item : Json} {data : Json}
  {entry : Nat × Vec} {out : List Vec}

theorem listIndex_returns_iff {idx : Int} :
    (∃ k, listIndex n idx = .ok k) ↔ -n ≤ idx ∧ idx < n := by
  unfold listIndex
  split
  · simp only [Py.pure_ok, exists_eq', true_iff]
    omega
  · split
    · simp only [Py.pure_ok, exists_eq', true_iff]
      omega
    · simp only [Py.throw_ne_ok, exists_false, false_iff]
      omega

theorem listIndex_of_nonneg {idx : Int} {k : Nat} (h0 : 0 ≤ idx) (h : listIndex n idx = .ok k) :
    (k : Int) = idx := by
  unfold listIndex at h
  split at h
  · have hk := Py.pure_ok.mp h
    omega
  · rw [if_neg (by omega)] at h
    exact absurd h (by simp)

theorem toOption_eq_some {α : Type} {x : Py α} {a : α} : x.toOption = some a ↔ x = .ok a := by
  cases x <;> simp [Except.toOption]

theorem placeItem_ok : placeItem p float n item = .ok entry ↔
    ∃ idx, indexOf item = some idx ∧ listIndex n idx = .ok entry.1 ∧
      embeddingOf float item = some entry.2 ∧ entry.2.length = p.dimensions := by
  cases item with
  | obj members =>
    unfold placeItem indexOf embeddingOf
    dsimp only
    cases hidx : asInt (JsonDict.get members "index") with
    | none => simp
    | some idx =>
      cases hvec : JsonDict.get members "embedding" with
      | none => simp
      | some value =>
        cases value with
        | arr vec =>
          by_cases hl : vec.length = p.dimensions
          · simp only [hl, ne_eq, not_true_eq_false, if_false, Py.bind_ok, Py.pure_ok,
              toOption_eq_some, Option.some.injEq, exists_eq_left']
            constructor
            · rintro ⟨vector, hm, k, hk, rfl⟩
              exact ⟨hk, hm, (Py.mapM_ok_length hm).trans hl⟩
            · rintro ⟨hk, hm, -⟩
              exact ⟨_, hm, _, hk, rfl⟩
          · simp only [hl, ne_eq, not_false_eq_true, if_true, Py.throw_ne_ok, false_iff,
              toOption_eq_some]
            rintro ⟨-, -, -, hm, hlen⟩
            exact hl ((Py.mapM_ok_length hm).symm.trans hlen)
        | null => simp
        | bool b => simp
        | int m => simp
        | float repr => simp
        | str s => simp
        | obj ms => simp
  | null => simp [placeItem, indexOf]
  | bool b => simp [placeItem, indexOf]
  | int m => simp [placeItem, indexOf]
  | float repr => simp [placeItem, indexOf]
  | str s => simp [placeItem, indexOf]
  | arr vs => simp [placeItem, indexOf]

/-- The loop takes exactly the well-formed items. -/
theorem placeItem_returns_iff :
    (∃ entry, placeItem p float n item = .ok entry) ↔ WellFormed p float n item := by
  simp only [placeItem_ok]
  constructor
  · rintro ⟨⟨k, vector⟩, idx, hidx, hk, hvec, hlen⟩
    exact ⟨⟨idx, hidx, listIndex_returns_iff.mp ⟨k, hk⟩⟩, vector, hvec, hlen⟩
  · rintro ⟨⟨idx, hidx, hrange⟩, vector, hvec, hlen⟩
    obtain ⟨k, hk⟩ := listIndex_returns_iff.mpr hrange
    exact ⟨(k, vector), idx, hidx, hk, hvec, hlen⟩

/-! ## The loop -/

/-- `ordered[k] = vector`, for each entry. -/
def placed (ordered : List Vec) (entries : List (Nat × Vec)) : List Vec :=
  entries.foldl (fun ordered entry => ordered.set entry.1 entry.2) ordered

theorem placeItems_ok : ∀ {items : List Json} {ordered : List Vec},
    placeItems p float ordered items = .ok out ↔
      ∃ entries, Py.mapM (placeItem p float ordered.length) items = .ok entries ∧
        out = placed ordered entries
  | [], ordered => by
    rw [placeItems, Py.pure_ok]
    simp [Py.mapM, placed, eq_comm]
  | item :: items, ordered => by
    rw [placeItems, Py.bind_ok]
    simp only [placeItems_ok, List.length_set]
    constructor
    · rintro ⟨entry, he, entries, hes, rfl⟩
      exact ⟨entry :: entries, Py.mapM_cons_ok.mpr ⟨entry, entries, he, hes, rfl⟩, rfl⟩
    · rintro ⟨es, h, rfl⟩
      obtain ⟨entry, entries, he, hes, rfl⟩ := Py.mapM_cons_ok.mp h
      exact ⟨entry, he, entries, hes, rfl⟩

theorem placed_length : ∀ {entries : List (Nat × Vec)} {ordered : List Vec},
    (placed ordered entries).length = ordered.length
  | [], _ => rfl
  | entry :: entries, ordered => by
    have ih : (placed (ordered.set entry.1 entry.2) entries).length =
        (ordered.set entry.1 entry.2).length := placed_length
    rw [List.length_set] at ih
    exact ih

/-- A slot no entry names stays as it is. -/
theorem placed_of_not_mem {k : Nat} : ∀ {entries : List (Nat × Vec)} {ordered : List Vec},
    k ∉ entries.map Prod.fst → (placed ordered entries)[k]? = ordered[k]?
  | [], _, _ => rfl
  | entry :: entries, ordered, h => by
    obtain ⟨hne, hrest⟩ : k ≠ entry.1 ∧ k ∉ entries.map Prod.fst := by simpa using h
    have ih : (placed (ordered.set entry.1 entry.2) entries)[k]? =
        (ordered.set entry.1 entry.2)[k]? := placed_of_not_mem hrest
    rw [List.getElem?_set_ne hne.symm] at ih
    exact ih

/-- A slot named once holds what was put there. -/
theorem placed_of_mem {k : Nat} {vector : Vec} : ∀ {entries : List (Nat × Vec)}
    (ordered : List Vec), (entries.map Prod.fst).Nodup → (k, vector) ∈ entries →
    k < ordered.length → (placed ordered entries)[k]? = some vector
  | entry :: entries, ordered, hn, hm, hk => by
    obtain ⟨hnew, hn⟩ := List.nodup_cons.mp hn
    rcases List.mem_cons.mp hm with rfl | hm
    · have hkeep : (placed (ordered.set k vector) entries)[k]? = (ordered.set k vector)[k]? :=
        placed_of_not_mem hnew
      rw [List.getElem?_set_self hk] at hkeep
      exact hkeep
    · exact placed_of_mem (ordered.set entry.1 entry.2) hn hm (by rwa [List.length_set])

/-! ## An answer as a whole -/

theorem parseVectors_ok : parseVectors p float data n = .ok out ↔
    ∃ items, responseItems data = some items ∧ items.length = n ∧
      placeItems p float (List.replicate n []) items = .ok out := by
  cases data with
  | obj members =>
    unfold parseVectors responseItems
    dsimp only
    cases hdata : JsonDict.get members "data" with
    | none => simp
    | some value =>
      cases value with
      | arr items => by_cases hl : items.length = n <;> simp [hl]
      | null => simp
      | bool b => simp
      | int m => simp
      | float repr => simp
      | str s => simp
      | obj ms => simp
  | null => simp [parseVectors, responseItems]
  | bool b => simp [parseVectors, responseItems]
  | int m => simp [parseVectors, responseItems]
  | float repr => simp [parseVectors, responseItems]
  | str s => simp [parseVectors, responseItems]
  | arr vs => simp [parseVectors, responseItems]

/-- Which answers are taken. -/
theorem parseVectors_returns_iff :
    (∃ out, parseVectors p float data n = .ok out) ↔ Acceptable p float data n := by
  simp only [parseVectors_ok, placeItems_ok, List.length_replicate]
  constructor
  · rintro ⟨out, items, hitems, hlen, entries, hmap, -⟩
    refine ⟨items, hitems, hlen, fun item hm => placeItem_returns_iff.mp ?_⟩
    exact Py.mapM_returns_iff.mp ⟨entries, hmap⟩ item hm
  · rintro ⟨items, hitems, hlen, hwell⟩
    obtain ⟨entries, hmap⟩ := Py.mapM_returns_iff.mpr fun item hm =>
      placeItem_returns_iff.mpr (hwell item hm)
    exact ⟨_, items, hitems, hlen, entries, hmap, rfl⟩

/-- The slots that are written are the indices, when none of these is negative. -/
theorem map_slots : ∀ {items : List Json} {entries : List (Nat × Vec)},
    Py.mapM (placeItem p float n) items = .ok entries →
    (∀ item ∈ items, ∀ idx, indexOf item = some idx → 0 ≤ idx) →
    (entries.map Prod.fst).map (fun k : Nat => some (k : Int)) = items.map indexOf
  | [], _, h, _ => by
    cases h
    rfl
  | item :: items, es, h, hpos => by
    obtain ⟨entry, entries, he, hes, rfl⟩ := Py.mapM_cons_ok.mp h
    obtain ⟨hitem, hrest⟩ := List.forall_mem_cons.mp hpos
    obtain ⟨idx, hidx, hk, -, -⟩ := placeItem_ok.mp he
    rw [List.map_cons, List.map_cons, List.map_cons, map_slots hes hrest, hidx,
      listIndex_of_nonneg (hitem idx hidx) hk]

theorem natCast_some_injective : Function.Injective fun k : Nat => some (k : Int) :=
  fun _ _ h => Int.ofNat.inj (Option.some.inj h)

/-- Each index is that of one item. -/
theorem exists_unique_item {items : List Json} {i : Nat} (hi : i < n)
    (hperm : (items.map indexOf).Perm ((List.range n).map fun i : Nat => some (i : Int))) :
    ∃ item, items.filter (fun item => indexOf item = some (i : Int)) = [item] := by
  have hone : (items.map indexOf).count (some (i : Int)) = 1 := by
    rw [hperm.count_eq, List.count_eq_one_of_mem]
    · exact List.nodup_range.map natCast_some_injective
    · exact List.mem_map.mpr ⟨i, List.mem_range.mpr hi, rfl⟩
  rw [List.count, List.countP_map, List.countP_eq_length_filter] at hone
  obtain ⟨item, h⟩ := List.length_eq_one_iff.mp hone
  refine ⟨item, ?_⟩
  rw [← h]
  refine List.filter_congr fun it _ => ?_
  rw [Bool.eq_iff_iff, decide_eq_true_eq, Function.comp_apply, beq_iff_eq]

end

/-- Every slot of the result holds the embedding of the one item with its index. -/
structure Placed (p : Adapter) (float : Json → Py (Option ℚ)) (data : Json) (n : Nat)
    (out : List Vec) : Prop where
  length : out.length = n
  dimensions : ∀ vector ∈ out, vector.length = p.dimensions
  slot : ∀ i < n, ∃ items item, responseItems data = some items ∧
    items.filter (fun item => indexOf item = some (i : Int)) = [item] ∧
    out[i]? = embeddingOf float item

/-- What is promised of an answer: it is placed exactly or refused, and refused if its indices
are no permutation. -/
structure Exact (p : Adapter) (float : Json → Py (Option ℚ)) (data : Json) (n : Nat) : Prop where
  placed : ∀ out, parseVectors p float data n = .ok out → Placed p float data n out
  refused : ¬IndicesPermute data n → ∃ exc, parseVectors p float data n = .error exc

section
variable {p : Adapter} {float : Json → Py (Option ℚ)} {n : Nat} {data : Json} {out : List Vec}

/-- With every index once, each slot has its own item's embedding. -/
theorem placed_of_permute (hperm : IndicesPermute data n)
    (h : parseVectors p float data n = .ok out) : Placed p float data n out := by
  obtain ⟨items, hitems, hlen, hplace⟩ := parseVectors_ok.mp h
  obtain ⟨entries, hmap, rfl⟩ := placeItems_ok.mp hplace
  rw [List.length_replicate] at hmap
  obtain ⟨items', hitems', hindices⟩ := hperm
  obtain rfl : items = items' := Option.some.inj (hitems.symm.trans hitems')
  have hpos : ∀ item ∈ items, ∀ idx, indexOf item = some idx → 0 ≤ idx := by
    intro item hm idx hidx
    have hmem : some idx ∈ items.map indexOf := List.mem_map.mpr ⟨item, hm, hidx⟩
    obtain ⟨i, -, he⟩ := List.mem_map.mp (hindices.mem_iff.mp hmem)
    cases he
    exact Int.natCast_nonneg i
  have hkeys : (entries.map Prod.fst).Perm (List.range n) := by
    rw [← List.map_perm_map_iff natCast_some_injective, map_slots hmap hpos]
    exact hindices
  have hslot : ∀ i < n, ∃ item ∈ items,
      items.filter (fun item => indexOf item = some (i : Int)) = [item] ∧
        ∃ vector, embeddingOf float item = some vector ∧ vector.length = p.dimensions ∧
          (placed (List.replicate n []) entries)[i]? = some vector := by
    intro i hi
    obtain ⟨item, hitem⟩ := exists_unique_item hi hindices
    obtain ⟨hm, hidx⟩ := List.mem_filter.mp (hitem ▸ List.mem_singleton_self item)
    obtain ⟨entry, hentry, he⟩ := Py.exists_of_mapM hmap hm
    obtain ⟨idx, hidx', hk, hvec, hdim⟩ := placeItem_ok.mp he
    obtain rfl : idx = i := Option.some.inj (hidx'.symm.trans (by simpa using hidx))
    have hkey : entry.1 = i := by
      have := listIndex_of_nonneg (Int.natCast_nonneg i) hk
      omega
    refine ⟨item, hm, hitem, entry.2, hvec, hdim, ?_⟩
    refine placed_of_mem _ (hkeys.nodup_iff.mpr List.nodup_range) ?_ (by rwa [List.length_replicate])
    rw [← hkey]
    exact hentry
  have hlength : (placed (List.replicate n []) entries).length = n := by
    rw [placed_length, List.length_replicate]
  refine ⟨hlength, ?_, ?_⟩
  · intro vector hv
    obtain ⟨i, hi⟩ := List.mem_iff_getElem?.mp hv
    have hlt : i < n := by
      rw [← hlength]
      exact (List.getElem?_eq_some_iff.mp hi).1
    obtain ⟨item, -, -, vector', -, hdim, hget⟩ := hslot i hlt
    rw [hi] at hget
    rw [Option.some.inj hget]
    exact hdim
  · intro i hi
    obtain ⟨item, -, hitem, vector, hvec, -, hget⟩ := hslot i hi
    exact ⟨items, item, hitems, hitem, hget.trans hvec.symm⟩

/-- **Placement.** An answer is placed exactly or refused if and only if, when all of its `n`
items are well formed, their indices are 0, …, n - 1. -/
theorem parseVectors_exact_iff (p : Adapter) (float : Json → Py (Option ℚ)) (data : Json)
    (n : Nat) :
    Exact p float data n ↔ (Acceptable p float data n → IndicesPermute data n) := by
  constructor
  · intro h hok
    by_contra hperm
    obtain ⟨out, hout⟩ := parseVectors_returns_iff.mpr hok
    obtain ⟨exc, hexc⟩ := h.refused hperm
    rw [hout] at hexc
    cases hexc
  · intro h
    refine ⟨fun out hout => ?_, fun hperm => ?_⟩
    · exact placed_of_permute (h (parseVectors_returns_iff.mp ⟨out, hout⟩)) hout
    · cases hparse : parseVectors p float data n with
      | ok out => exact absurd (h (parseVectors_returns_iff.mp ⟨out, hparse⟩)) hperm
      | error exc => exact ⟨exc, rfl⟩

/-! ## As a provider -/

/-- The adapter as a provider; the request may fare differently for each batch. -/
def Adapter.asProvider (p : Adapter) (float : Json → Py (Option ℚ))
    (request : Nat → List Str → Py Json) : EmbeddingProvider where
  provider := "openai-compatible"
  model := p.model
  dimensions := p.dimensions
  embedDocuments start texts := (embed p float (request start) texts).mapError .exception

theorem embed_length {request : List Str → Py Json} {texts : List Str}
    (h : embed p float request texts = .ok out) : out.length = texts.length := by
  unfold embed at h
  split at h
  · rename_i ht
    rw [← Py.pure_ok.mp h, ht]
    rfl
  · obtain ⟨data, -, hparse⟩ := Py.bind_ok.mp h
    obtain ⟨items, -, -, hplace⟩ := parseVectors_ok.mp hparse
    obtain ⟨entries, -, rfl⟩ := placeItems_ok.mp hplace
    rw [placed_length, List.length_replicate]

/-- An answer always fills a list of the right length, so the fan-out, which counts the vectors,
takes whatever the adapter takes. -/
theorem runOne_asProvider (request : Nat → List Str → Py Json) (b : Batch) :
    runOne (p.asProvider float request) b =
      (embed p float (request b.start) b.texts).mapError .exception := by
  unfold runOne Adapter.asProvider
  dsimp only
  cases he : embed p float (request b.start) b.texts with
  | error exc => rfl
  | ok vectors =>
    have hlen := embed_length he
    simp [Except.mapError, hlen]

end

/-- An adapter for vectors of one component, which it takes from integers. -/
def oneDimension : Adapter := ⟨"one", 1, Nat.one_pos⟩

def ofInt : Json → Py (Option ℚ)
  | .int m => pure (some m)
  | _ => throw (.external "TypeError")

def answer (items : List (Int × Int)) : Json :=
  .obj [("data", .arr (items.map fun item =>
    .obj [("index", .int item.1), ("embedding", .arr [.int item.2])]))]

example : parseVectors oneDimension ofInt (answer [(1, 7), (0, 5)]) 2 = .ok [[some 5], [some 7]] := by
  decide +kernel

/-- Two items for slot 0: the later one stays, and slot 1 is left without a vector. -/
theorem duplicate_index_taken :
    parseVectors oneDimension ofInt (answer [(0, 5), (0, 7)]) 2 = .ok [[some 7], []] ∧
      ¬Exact oneDimension ofInt (answer [(0, 5), (0, 7)]) 2 := by
  have htaken : parseVectors oneDimension ofInt (answer [(0, 5), (0, 7)]) 2 =
      .ok [[some 7], []] := by decide +kernel
  refine ⟨htaken, fun h => ?_⟩
  have hempty := (h.placed _ htaken).dimensions [] (by simp)
  cases hempty

end KnowledgeKiln.L1.Embedding.OpenAiCompatible
