import KnowledgeKiln.L1Ingest.HttpConnector
import KnowledgeKiln.L1Ingest.SourceSync

/-!
# The keys of documents

A document is stored under its source's label and its path. The label of a git source is its
repository, and the path of a page is its host and path: sources that share a repository, and
URLs that differ elsewhere, share keys.

* `ingest_lastVersion`: under a key stands the last file ingested there.
* `documents_separate_iff`: when no two items share a document.
-/
namespace KnowledgeKiln.L1.Http

open KnowledgeKiln.Core KnowledgeKiln.L1.Chunking KnowledgeKiln.L1.FileProcessing
  KnowledgeKiln.L1.Pipeline

/-! ## Allowlists and what is fetched from them -/

structure SourceAllowlist where
  sources : List Source
  names_nodup : (sources.map (·.name)).Nodup

/-- Mirrors `SourceAllowlist.__init__` (sources.py:127-134): no two sources have one name. -/
def SourceAllowlist.ofSources (sources : List Source) : Option SourceAllowlist :=
  if h : (sources.map (·.name)).Nodup then some ⟨sources, h⟩ else none

/-- What a source yields: a file of a git or local source, or a URL answered with 200. -/
inductive Item
  | file (f : FetchedFile)
  | page (url : HttpUrl) (body : List UInt8)

def Item.fetched : Item → FetchedFile
  | .file f => f
  | .page url body => pageFile url body

/-- Where the item stands in its source. A page's scheme, user information, port and query are no
part of it. -/
def Item.place : Item → Str
  | .file f => f.path
  | .page url _ => url.host ++ pathOrRoot url

abbrev Corpus := List (Source × List Item)

/-- The sources of the corpus are allowlisted. -/
def DrawnFrom (allowlist : SourceAllowlist) (corpus : Corpus) : Prop :=
  ∀ f ∈ corpus, f.1 ∈ allowlist.sources

/-- The items that get indexed, with their sources. -/
def indexed (w : Worker) (corpus : Corpus) : List (Source × Item) :=
  (corpus.flatMap fun (source, items) => items.map fun item => (source, item)).filter
    fun i => (indexable w i.2.fetched).isSome

def ingestItems (w : Worker) (filters : ContentFilters) (st : Store) (corpus : Corpus) : Py Store :=
  ingest w filters st (corpus.map fun (source, items) => (source, items.map Item.fetched))

/-- The labels of the sources differ, or the places do. -/
def Apart (i j : Source × Item) : Prop :=
  repoLabel i.1 ≠ repoLabel j.1 ∨ i.2.place ≠ j.2.place

def itemKey (i : Source × Item) : Str × Str := documentKey i.1 i.2.fetched

/-- Two items have two documents. -/
def TwoDocuments (st : Store) (i j : Source × Item) : Prop :=
  ∃ d d', st.documents.find (itemKey i) = some d ∧ st.documents.find (itemKey j) = some d' ∧
    d.id ≠ d'.id

/-- The item's document has the item's chunks. -/
def OwnChunks (w : Worker) (st : Store) (i : Source × Item) : Prop :=
  ∀ parsed, indexable w i.2.fetched = some parsed →
    storedHashes (st.view (itemKey i)) = parsedHashes parsed

/-- Every item has a document of its own. -/
structure Separate (w : Worker) (st : Store) (items : List (Source × Item)) : Prop where
  documents : items.Pairwise (TwoDocuments st)
  chunks : ∀ i ∈ items, OwnChunks w st i

theorem apart_iff {i j : Source × Item} : Apart i j ↔ itemKey i ≠ itemKey j := by
  have hplace : ∀ item : Item, item.fetched.path = item.place := by
    intro item
    cases item <;> rfl
  unfold Apart itemKey documentKey
  rw [hplace, hplace]
  simp only [ne_eq, Prod.mk.injEq, not_and_or]

/-! ## Ingesting a corpus -/

section
variable {w : Worker} {filters : ContentFilters}

/-- The files of a corpus that have chunks, by key. -/
def byKey (w : Worker) (corpus : List (Source × List FetchedFile)) :
    List ((Str × Str) × Worker × FetchedFile) :=
  corpus.flatMap fun (source, files) =>
    (files.filter fun file => (indexable w file).isSome).map
      fun file => (documentKey source file, w, file)

theorem ingest_lastVersion : ∀ {corpus : List (Source × List FetchedFile)} {st st' : Store},
    st.Owned → ingest w filters st corpus = .ok st' → st'.Owned ∧
      ∀ key, LastVersion (lookupLast (byKey w corpus) key) (st.view key) (st'.view key)
  | [], st, st', ho, h => by
    cases h
    exact ⟨ho, fun _ => LastVersion.refl _⟩
  | (source, files) :: corpus, st, st', ho, h => by
    obtain ⟨p, hp, h⟩ := Py.bind_ok.mp h
    have hfiles := processFiles_lastVersion (by exact ho) hp
    have howned : p.store.Owned := processFiles_owned ho hp
    obtain ⟨ho', hlast⟩ := ingest_lastVersion howned h
    refine ⟨ho', fun key => ?_⟩
    rw [byKey, List.flatMap_cons, lookupLast_append]
    exact (hfiles key).trans (hlast key)

/-- The items that get indexed, by key. -/
theorem byKey_items (corpus : Corpus) :
    byKey w (corpus.map fun (source, items) => (source, items.map Item.fetched)) =
      (indexed w corpus).map fun i => (itemKey i, w, i.2.fetched) := by
  unfold byKey indexed
  rw [List.flatMap_map, List.filter_flatMap, List.map_flatMap]
  refine List.flatMap_congr fun f _ => ?_
  obtain ⟨source, items⟩ := f
  dsimp only
  rw [List.filter_map, List.filter_map, List.map_map, List.map_map]
  rfl

/-- A key with a stored chunk has a document. -/
theorem find_of_stored {st : Store} {key : Str × Str} (index : Nat)
    (h : (storedHashes (st.view key) index).isSome = true) :
    ∃ d, st.documents.find key = some d := by
  cases hd : st.documents.find key with
  | some d => exact ⟨d, rfl⟩
  | none =>
    simp [storedHashes, Store.view, hd] at h

/-- Items with two keys have documents of their own. -/
theorem separate_of_keys {corpus : Corpus} {st st' : Store} (ho : st.Owned)
    (h : ingestItems w filters st corpus = .ok st')
    (hn : ((indexed w corpus).map itemKey).Nodup) : Separate w st' (indexed w corpus) := by
  obtain ⟨-, hlast⟩ := ingest_lastVersion ho h
  have hchunks : ∀ i ∈ indexed w corpus, OwnChunks w st' i := by
    intro i hi parsed hp
    have hl : lookupLast (byKey w (corpus.map fun (source, items) =>
        (source, items.map Item.fetched))) (itemKey i) = some (w, i.2.fetched) := by
      rw [byKey_items]
      refine lookupLast_of_mem ?_ (List.mem_map_of_mem hi)
      rw [List.map_map]
      exact hn
    exact (hlast (itemKey i)).chunks w i.2.fetched parsed hl hp
  have hfound : ∀ i ∈ indexed w corpus, ∃ d, st'.documents.find (itemKey i) = some d := by
    intro i hi
    obtain ⟨parsed, hp⟩ := Option.isSome_iff_exists.mp (List.mem_filter.mp hi).2
    obtain ⟨-, -, -, hne⟩ := indexable_ok hp
    obtain ⟨c, chunks, hc⟩ := List.exists_cons_of_ne_nil hne
    refine find_of_stored 0 ?_
    rw [hchunks i hi parsed hp]
    simp [parsedHashes, hc]
  refine ⟨?_, hchunks⟩
  refine (List.pairwise_map.mp hn).imp_of_mem fun {i j} hi hj hk => ?_
  obtain ⟨d, hd⟩ := hfound i hi
  obtain ⟨d', hd'⟩ := hfound j hj
  refine ⟨d, d', hd, hd', fun he => hk ?_⟩
  obtain ⟨hm, hkey⟩ := Table.find_eq_some.mp hd
  obtain ⟨hm', hkey'⟩ := Table.find_eq_some.mp hd'
  rw [← hkey, ← hkey', Table.eq_of_id hm hm' he]

end

/-- **Separate documents.** A corpus is ingested, from whatever allowlist it was drawn. Every item
with chunks has a document of its own, which holds its chunks, exactly when any two of them are
apart: their sources have two labels (the repository of a git source, the name of any other), or
they stand in two places (a file's path; a page's host and path, without its scheme, user
information, port and query). -/
theorem documents_separate_iff (w : Worker) (filters : ContentFilters) (st st' : Store)
    (corpus : Corpus) (ho : st.Owned) (h : ingestItems w filters st corpus = .ok st') :
    Separate w st' (indexed w corpus) ↔ (indexed w corpus).Pairwise Apart := by
  have hapart : (indexed w corpus).Pairwise Apart ↔ ((indexed w corpus).map itemKey).Nodup := by
    rw [List.Nodup, List.pairwise_map]
    exact List.Pairwise.iff fun {i j} => apart_iff
  rw [hapart]
  refine ⟨fun hsep => ?_, separate_of_keys ho h⟩
  rw [List.Nodup, List.pairwise_map]
  refine hsep.documents.imp fun {i j} ⟨d, d', hd, hd', hne⟩ hk => hne ?_
  rw [hk, hd'] at hd
  rw [Option.some.inj hd]

/-! ## Two versions of a page -/

def wiki : Source := { name := "wiki" }

/-- The page in the version that the query asks for. -/
def versionUrl (version : Str) : HttpUrl :=
  { host := "wiki.example.com", path := "/page", query := "v=".toList ++ version }

/-- Both versions are among the URLs of the source. -/
def versions : Corpus :=
  [(wiki, [.page (versionUrl "1") (asciiBytes "first
"),
    .page (versionUrl "2") (asciiBytes "second
")])]

/-- A page and a file of another source. -/
def pageAndFile : Corpus :=
  [(wiki, [.page (versionUrl "1") (asciiBytes "first
")]),
    ({ name := "docs", repo := some "org/docs" }, [.file newPage])]

/-- The second version takes the document of the first. -/
theorem query_collides : ∃ allowlist st, SourceAllowlist.ofSources [wiki] = some allowlist ∧
    DrawnFrom allowlist versions ∧ ingestItems asciiWorker {} {} versions = .ok st ∧
    ¬ Separate asciiWorker st (indexed asciiWorker versions) := by
  obtain ⟨st, h⟩ := Py.exists_of_isOk (x := ingestItems asciiWorker {} {} versions)
    (by decide +kernel)
  refine ⟨⟨[wiki], by decide⟩, st, rfl, by simp [DrawnFrom, versions], h, fun hsep => ?_⟩
  have hfirst : (indexable asciiWorker
      (pageFile (versionUrl "1") (asciiBytes "first\n"))).isSome = true := by decide +kernel
  have hsecond : (indexable asciiWorker
      (pageFile (versionUrl "2") (asciiBytes "second\n"))).isSome = true := by decide +kernel
  have hboth : indexed asciiWorker versions =
      [(wiki, .page (versionUrl "1") (asciiBytes "first
")),
        (wiki, .page (versionUrl "2") (asciiBytes "second
"))] := by
    simpa [indexed, versions, Item.fetched] using And.intro hfirst hsecond
  rw [hboth] at hsep
  obtain ⟨d, d', hd, hd', hne⟩ := List.rel_of_pairwise_cons hsep.documents List.mem_cons_self
  have hkey : itemKey (wiki, .page (versionUrl "1") (asciiBytes "first
")) =
      itemKey (wiki, .page (versionUrl "2") (asciiBytes "second
")) := by decide
  rw [hkey, hd'] at hd
  exact hne (congrArg _ (Option.some.inj hd).symm)

theorem documents_separate_iff_pages : ∃ st, ingestItems asciiWorker {} {} pageAndFile = .ok st ∧
    (Separate asciiWorker st (indexed asciiWorker pageAndFile) ↔
      (indexed asciiWorker pageAndFile).Pairwise Apart) := by
  obtain ⟨st, h⟩ := Py.exists_of_isOk (x := ingestItems asciiWorker {} {} pageAndFile)
    (by decide +kernel)
  exact ⟨st, h, documents_separate_iff asciiWorker {} {} st pageAndFile owned_empty h⟩

end KnowledgeKiln.L1.Http
