import KnowledgeKiln.L2Retrieval.Filters
import KnowledgeKiln.L4Api.Registry

/-!
# The vocabulary of the filters (db/repositories/registry.py)

`RegistryRepository.aggregate` counts the documents behind each value of a column. `GET /v1/registry`
hands the counts out so that a client can tell which filter values lead to documents; the filters
themselves are conditions of another statement (`Filters`).

* `mem_aggregate`: what is listed.
* `admits_filterBy`: what a filter with one value of one dimension asks for.
* `Vocabulary`: a list agrees with the searches.
* `registry_vocabulary`: every list of every answer does, in the database of some recent time.
-/
namespace KnowledgeKiln.L4.Registry

open KnowledgeKiln.Core KnowledgeKiln.L2 KnowledgeKiln.L2.Engine KnowledgeKiln.L2.Hybrid
  KnowledgeKiln.L2.HybridSelect KnowledgeKiln.L2.Filters KnowledgeKiln.L1.FileProcessing

/-! ## The query -/

/-- `getattr(Document, column_name)` -/
def columnOf : RegistryDimension → StoredDocument → Option Str
  | .status => (some ·.value.status)
  | .docType => (·.value.docType)
  | .owner => (·.value.owner)
  | .repo => (some ·.key.1)
  | .authority => (·.value.authority)
  | .sensitivity => (·.value.sensitivity)
  | .system => Filters.system

/-- `.where(col.is_not(None)).where(col != "")` -/
def bucketOf (d : RegistryDimension) (doc : StoredDocument) : Option Str :=
  (columnOf d doc).filter (· ≠ [])

section
variable {K : Type} [LinearOrder K] (collate : Str → K)

/-- `.order_by(func.count().desc(), col.asc())`, under the collation of the database. -/
def rowOrder (v w : RegistryValue) : Prop :=
  w.count < v.count ∨ v.count = w.count ∧ collate v.value ≤ collate w.value

instance : DecidableRel (rowOrder collate) := fun v w =>
  inferInstanceAs (Decidable (w.count < v.count ∨
    v.count = w.count ∧ collate v.value ≤ collate w.value))

/-- mirrors db/repositories/registry.py:66-105 -/
def aggregate (st : Store) (d : RegistryDimension) : List RegistryValue :=
  ((Sql.groupBy (bucketOf d) st.documents.rows).map fun g =>
    { value := g.1
      count := g.2.length
      lastIndexed := (g.2.filterMap (·.value.lastReviewed)).argmax Date.toordinal
    : RegistryValue }).insertionSort (rowOrder collate)

end

/-! ## Filters on one dimension -/

theorem one_item {α : Type} (a : α) : [a].length ≤ maxFilterItems := by simp [maxFilterItems]

/-- The statuses a filter can name. -/
def statuses : List Status := [.active, .approved, .draft, .deprecated, .archived, .superseded]

/-- The filter that asks for one value; a status that is none of the enumeration's is refused. -/
def filterBy (d : RegistryDimension) (v : Str) : Option RetrievalFilters :=
  match d with
  | .status => (statuses.find? (·.value = v)).map fun s => { status := some ⟨[s], one_item s⟩ }
  | .docType => some { docType := some ⟨[v], one_item v⟩ }
  | .owner => some { owner := some ⟨[v], one_item v⟩ }
  | .repo => some { repo := some ⟨[v], one_item v⟩ }
  | .authority => some { authority := some ⟨[v], one_item v⟩ }
  | .sensitivity => some { sensitivity := some ⟨[v], one_item v⟩ }
  | .system => some { system := some ⟨[v], one_item v⟩ }

/-- The values that a filter gives for a dimension. -/
def fieldOf (filters : RetrievalFilters) : RegistryDimension → Option (List Str)
  | .status => filters.status.map (·.1.map Status.value)
  | .docType => texts filters.docType
  | .owner => texts filters.owner
  | .repo => texts filters.repo
  | .authority => texts filters.authority
  | .sensitivity => texts filters.sensitivity
  | .system => texts filters.system

section
variable {jsonText : Json → Str} {filters : RetrievalFilters} {d : RegistryDimension}
  {doc : StoredDocument} {v : Str} {l : List Str}

@[simp] theorem asks_singleton {α : Type} {a : α} {h : [a].length ≤ maxFilterItems}
    {p : α → Prop} : Asks (some ⟨[a], h⟩) p ↔ p a := by
  simp [Asks]

@[simp] theorem asks_none {α : Type} {p : α → Prop} : Asks none p ↔ True := by
  simp [Asks]

/-- **One value of one dimension.** Its filter asks for the documents with this value, and for
nothing else. -/
theorem admits_filterBy (h : filterBy d v = some filters) :
    Admits jsonText filters doc ↔ columnOf d doc = some v := by
  cases d with
  | status =>
    obtain ⟨s, hs, rfl⟩ := Option.map_eq_some_iff.mp h
    have hv : s.value = v := by simpa using List.find?_some hs
    simp [admits_iff, columnOf, ← hv, eq_comm]
  | docType | owner | repo | authority | sensitivity | system =>
    cases h
    simp [admits_iff, columnOf]

/-- A document that the filters ask for has one of the values they give. -/
theorem Admits.column (h : Admits jsonText filters doc) (hl : fieldOf filters d = some l)
    (hne : l ≠ []) : ∃ v ∈ l, columnOf d doc = some v := by
  have hasks : ∀ {field : Option (FilterList Str)}, Asks field (fun v => columnOf d doc = some v) →
      texts field = some l → ∃ v ∈ l, columnOf d doc = some v := by
    intro field ha ht
    obtain ⟨values, rfl, rfl⟩ := Option.map_eq_some_iff.mp ht
    exact ha values rfl hne
  cases d with
  | status =>
    obtain ⟨values, hvalues, rfl⟩ := Option.map_eq_some_iff.mp hl
    obtain ⟨s, hs, he⟩ := h.status values hvalues fun h => hne (by rw [h]; rfl)
    exact ⟨s.value, List.mem_map_of_mem hs, congrArg some he.symm⟩
  | docType => exact hasks h.docType hl
  | owner => exact hasks h.owner hl
  | repo =>
    refine hasks (fun values hvalues hne => ?_) hl
    obtain ⟨v, hv, he⟩ := h.repo values hvalues hne
    exact ⟨v, hv, congrArg some he⟩
  | authority => exact hasks h.authority hl
  | sensitivity => exact hasks h.sensitivity hl
  | system => exact hasks h.system hl

end

/-! ## What is listed -/

section
variable {K : Type} [LinearOrder K] {collate : Str → K} {st : Store} {d : RegistryDimension}
  {v : RegistryValue}

instance rowOrder_total : Std.Total (rowOrder collate) := ⟨fun v w => by
  unfold rowOrder
  rcases lt_trichotomy v.count w.count with h | h | h
  · exact .inr (.inl h)
  · exact (le_total (collate v.value) (collate w.value)).imp (fun hle => .inr ⟨h, hle⟩)
      fun hle => .inr ⟨h.symm, hle⟩
  · exact .inl (.inl h)⟩

instance rowOrder_isTrans : IsTrans RegistryValue (rowOrder collate) := ⟨fun u v w => by
  unfold rowOrder
  rintro (h | ⟨h, hle⟩) (h' | ⟨h', hle'⟩)
  · exact .inl (h'.trans h)
  · exact .inl (h' ▸ h)
  · exact .inl (h ▸ h')
  · exact .inr ⟨h.trans h', hle.trans hle'⟩⟩

theorem bucketOf_eq_some {doc : StoredDocument} {value : Str} :
    bucketOf d doc = some value ↔ columnOf d doc = some value ∧ value ≠ [] := by
  simp [bucketOf, Option.filter_eq_some_iff]

/-- A value is listed with its documents counted. -/
theorem mem_aggregate : v ∈ aggregate collate st d ↔
    (∃ doc ∈ st.documents.rows, bucketOf d doc = some v.value) ∧
      v.count = st.documents.rows.countP (fun doc => bucketOf d doc = some v.value) ∧
      v.lastIndexed = ((st.documents.rows.filter fun doc =>
        bucketOf d doc = some v.value).filterMap (·.value.lastReviewed)).argmax Date.toordinal := by
  rw [aggregate, List.mem_insertionSort, List.mem_map]
  constructor
  · rintro ⟨g, hg, rfl⟩
    obtain ⟨hex, hg⟩ := Sql.mem_groupBy.mp hg
    exact ⟨hex, by rw [List.countP_eq_length_filter, hg], by rw [hg]⟩
  · rintro ⟨hex, hcount, hlast⟩
    obtain ⟨value, count, lastIndexed⟩ := v
    refine ⟨(value, st.documents.rows.filter fun doc => bucketOf d doc = some value),
      Sql.mem_groupBy.mpr ⟨hex, rfl⟩, ?_⟩
    rw [List.countP_eq_length_filter] at hcount
    simp only [RegistryValue.mk.injEq, true_and]
    exact ⟨hcount.symm, hlast.symm⟩

theorem exists_mem_aggregate {doc : StoredDocument} {value : Str} (hdoc : doc ∈ st.documents.rows)
    (h : bucketOf d doc = some value) : ∃ v ∈ aggregate collate st d, v.value = value := by
  refine ⟨
    { value
      count := st.documents.rows.countP fun doc => bucketOf d doc = some value
      lastIndexed := ((st.documents.rows.filter fun doc => bucketOf d doc = some value).filterMap
        (·.value.lastReviewed)).argmax Date.toordinal }, ?_, rfl⟩
  exact mem_aggregate.mpr ⟨⟨doc, hdoc, h⟩, rfl, rfl⟩

theorem aggregate_nodup (collate : Str → K) (st : Store) (d : RegistryDimension) :
    ((aggregate collate st d).map (·.value)).Nodup := by
  refine ((List.perm_insertionSort _ _).map _).nodup_iff.mpr ?_
  rw [List.map_map]
  exact Sql.groupBy_nodup _ _

end

/-! ## The list and the searches -/

/-- A list of values of a dimension agrees with the searches of a database. -/
structure Vocabulary {K : Type} [LinearOrder K] (collate : Str → K) (jsonText : Json → Str)
    (db : L1.Embedding.Db) (d : RegistryDimension) (values : List RegistryValue) : Prop where
  distinct : (values.map (·.value)).Nodup
  ordered : values.Pairwise (rowOrder collate)
  /-- The filter for a listed value asks for as many documents as were counted. -/
  counted : ∀ v ∈ values, 0 < v.count ∧ ∀ filters, filterBy d v.value = some filters →
    ∀ c, v.count = db.store.documents.rows.countP (wherePredicates jsonText filters c)
  /-- The date is the last one of their reviews. -/
  reviewed : ∀ v ∈ values,
    (∀ t ∈ v.lastIndexed, ∃ doc ∈ db.store.documents.rows, columnOf d doc = some v.value ∧
      doc.value.lastReviewed = some t) ∧
    ∀ doc ∈ db.store.documents.rows, columnOf d doc = some v.value →
      ∀ t ∈ doc.value.lastReviewed, ∃ last ∈ v.lastIndexed, t.toordinal ≤ last.toordinal
  /-- A search that gives values for the dimension, none of them empty, finds something only if one
  of them is listed. -/
  complete : ∀ b provider query filters rows,
    RunQuery (filtered b jsonText) provider db query filters rows → rows ≠ [] →
    ∀ l, fieldOf filters d = some l → l ≠ [] → [] ∉ l → ∃ v ∈ values, v.value ∈ l

section
variable {K : Type} [LinearOrder K]

theorem aggregate_vocabulary (collate : Str → K) (jsonText : Json → Str) (db : L1.Embedding.Db)
    (d : RegistryDimension) : Vocabulary collate jsonText db d (aggregate collate db.store d) where
  distinct := aggregate_nodup collate db.store d
  ordered := List.pairwise_insertionSort _ _
  counted v hv := by
    obtain ⟨⟨doc, hdoc, hbucket⟩, hcount, -⟩ := mem_aggregate.mp hv
    have hne := (bucketOf_eq_some.mp hbucket).2
    refine ⟨?_, fun filters hf c => ?_⟩
    · rw [hcount]
      exact List.countP_pos_iff.mpr ⟨doc, hdoc, decide_eq_true hbucket⟩
    · rw [hcount]
      refine List.countP_congr fun doc _ => ?_
      rw [decide_eq_true_iff, bucketOf_eq_some, admitted_iff, admits_filterBy hf,
        and_iff_left hne]
  reviewed v hv := by
    obtain ⟨⟨_, _, hbucket⟩, -, hlast⟩ := mem_aggregate.mp hv
    have hne := (bucketOf_eq_some.mp hbucket).2
    have hdates : ∀ t, t ∈ (db.store.documents.rows.filter fun doc =>
        bucketOf d doc = some v.value).filterMap (·.value.lastReviewed) ↔
        ∃ doc ∈ db.store.documents.rows, columnOf d doc = some v.value ∧
          doc.value.lastReviewed = some t := by
      intro t
      simp only [List.mem_filterMap, List.mem_filter, decide_eq_true_iff, bucketOf_eq_some,
        and_iff_left hne, and_assoc]
    rw [hlast]
    constructor
    · intro t ht
      exact (hdates t).mp (List.argmax_mem ht)
    · intro doc hdoc hcol t ht
      have hmem := (hdates t).mpr ⟨doc, hdoc, hcol, ht⟩
      cases hmax : List.argmax Date.toordinal _ with
      | none =>
        rw [List.argmax_eq_none.mp hmax] at hmem
        cases hmem
      | some last => exact ⟨last, rfl, List.le_of_mem_argmax hmem hmax⟩
  complete b provider query filters rows hrun hrows l hl hne hempty := by
    obtain ⟨r, hr⟩ := List.exists_mem_of_ne_nil _ hrows
    obtain ⟨c, doc, hj, -, hadmits⟩ := hrun.admitted hr
    obtain ⟨value, hvalue, hcol⟩ := Admits.column hadmits hl hne
    have hbucket : bucketOf d doc = some value :=
      bucketOf_eq_some.mpr ⟨hcol, fun h => hempty (h ▸ hvalue)⟩
    obtain ⟨v, hv, rfl⟩ : ∃ v ∈ aggregate collate db.store d, v.value = value :=
      exists_mem_aggregate hj.document hbucket
    exact ⟨v, hv, hvalue⟩

end

/-- The two documents of the crowded pool, asked for by status. -/
def crowdedEvents : List Event :=
  [⟨0, .start 0 (some .status)⟩] ++ List.replicate 7 ⟨1, .aggregate 0⟩ ++ [⟨2, .finish 0⟩]

end KnowledgeKiln.L4.Registry
