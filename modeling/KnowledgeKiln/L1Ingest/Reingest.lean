import KnowledgeKiln.L1Ingest.FileLoop

/-!
# Ingesting a document again

A chunk whose content hash is the stored one at its index is not written. The hash is
that of the content, so the row keeps the heading path, the token count and the security
metadata it was written with.

* `reingest_fresh_iff`: when the chunks of a file ingested over an earlier version are those of
  a fresh ingest.
-/
namespace KnowledgeKiln.L1.FileProcessing

open KnowledgeKiln.Core KnowledgeKiln.L1.Chunking

/-- The rows of the parsed chunks, by index. -/
def freshChunks (filters : ContentFilters) (parsed : ParsedDocument) (index : Nat) :
    Option DocumentChunk :=
  parsed.chunks[index]?.map (chunkRow filters)

/-- A stored row with the hash of the chunk at its index is that chunk's row. -/
def Entry.UpToDate (filters : ContentFilters) (e : Entry) (parsed : ParsedDocument) : Prop :=
  ∀ index c old, parsed.chunks[index]? = some c → e.chunks index = some old →
    old.contentHash = c.contentHash → old = chunkRow filters c

section
variable {w : Worker} {filters : ContentFilters} {source : Source} {file : FetchedFile}
  {parsed : ParsedDocument} {row : Document} {e : Entry} {p q : Progress}

theorem refreshed_hash (filters : ContentFilters) (old : Option DocumentChunk) (c : Chunk) :
    (refreshed filters old c).contentHash = c.contentHash := by
  unfold refreshed
  split
  · split
    · assumption
    · rfl
  · rfl

theorem refreshed_eq_iff {old : Option DocumentChunk} {c : Chunk} :
    refreshed filters old c = chunkRow filters c ↔
      ∀ r, old = some r → r.contentHash = c.contentHash → r = chunkRow filters c := by
  unfold refreshed
  split
  · rename_i r
    split
    · rename_i hr
      simp [hr]
    · rename_i hr
      simp [hr]
  · simp

/-- The new chunks are fresh exactly when the old ones with their hashes are. -/
theorem put_chunks_iff : (e.put filters row parsed.chunks).chunks = freshChunks filters parsed ↔
    e.UpToDate filters parsed := by
  unfold Entry.UpToDate
  rw [funext_iff]
  refine forall_congr' fun index => ?_
  simp only [Entry.put, freshChunks]
  cases hc : parsed.chunks[index]? with
  | none => simp
  | some c =>
    rw [Option.map_some, Option.map_some, Option.some.injEq, refreshed_eq_iff]
    constructor
    · intro h c' old hc' hold hh
      cases hc'
      exact h old hold hh
    · intro h old hold hh
      exact h c old rfl hold hh

theorem processFile_entry (ho : p.store.Owned) (hi : indexable w file = some parsed)
    (h : processFile w filters source p file = .ok q) : ∃ row,
      q.store.view (documentKey source file) =
        (p.store.view (documentKey source file)).put filters row parsed.chunks := by
  rcases processFile_ok h with ⟨hnone, -⟩ | ⟨parsed', hi', hx⟩
  · rw [hnone] at hi
    cases hi
  · rw [hi] at hi'
    cases hi'
    obtain ⟨row, i⟩ := indexFile_ok hx
    refine ⟨row, ?_⟩
    rw [processFile_view ho h, process_self, Entry.process, indexedAs_eq_some.mpr ⟨hi, i.row_eq⟩]

end

/-- **Re-ingest.** A file with chunks is processed over any stored version of its document. Its
stored chunks are numbered 0 to n-1, with the hashes of the file's chunks. They are the rows a
fresh ingest writes exactly when every row of the old version that has the hash of the new chunk
at its index also has that chunk's heading path, token count and security metadata (and its
content, should the digest collide). -/
theorem reingest_fresh_iff (w : Worker) (filters : ContentFilters) (source : Source)
    (file : FetchedFile) (parsed : ParsedDocument) (p q : Progress) (ho : p.store.Owned)
    (hi : indexable w file = some parsed) (h : processFile w filters source p file = .ok q) :
    (∀ index, ((q.store.view (documentKey source file)).chunks index).map (·.contentHash) =
      parsed.chunks[index]?.map (·.contentHash)) ∧
    (∀ q₀, processFile w filters source {} file = .ok q₀ →
      (q₀.store.view (documentKey source file)).chunks = freshChunks filters parsed) ∧
    ((q.store.view (documentKey source file)).chunks = freshChunks filters parsed ↔
      (p.store.view (documentKey source file)).UpToDate filters parsed) := by
  obtain ⟨row, hq⟩ := processFile_entry ho hi h
  refine ⟨fun index => ?_, fun q₀ h₀ => ?_, ?_⟩
  · rw [hq]
    simp only [Entry.put, Option.map_map]
    refine Option.map_congr fun c _ => ?_
    exact refreshed_hash filters _ c
  · obtain ⟨row₀, hq₀⟩ := processFile_entry owned_empty hi h₀
    rw [hq₀, put_chunks_iff]
    intro index c old _ hold
    cases hold
  · rw [hq, put_chunks_iff]

/-! ## A renamed heading -/

def oldPage : FetchedFile :=
  { path := "usage.md", content := asciiBytes "# Old\n\n## Usage\n\ntext\n" }

def newPage : FetchedFile :=
  { path := "usage.md", content := asciiBytes "# New\n\n## Usage\n\ntext\n" }

/-- The heading path of the first chunk after the two versions, and in a fresh ingest. -/
def usageHeadings : Py (Option (List Str) × Option (List Str)) := do
  let p ← processFile asciiWorker {} { name := "docs" } {} oldPage
  let q ← processFile asciiWorker {} { name := "docs" } p newPage
  let q₀ ← processFile asciiWorker {} { name := "docs" } {} newPage
  let key := documentKey { name := "docs" } newPage
  pure (((q.store.view key).chunks 0).map (·.headingPath),
    ((q₀.store.view key).chunks 0).map (·.headingPath))

/-- The chunks that the new page has in a store. -/
def usageChunks (p : Progress) : Nat → Option DocumentChunk :=
  (p.store.view (documentKey { name := "docs" } newPage)).chunks

theorem usage_runs : ∃ p q q₀,
    processFile asciiWorker {} { name := "docs" } {} oldPage = .ok p ∧
    processFile asciiWorker {} { name := "docs" } p newPage = .ok q ∧
    processFile asciiWorker {} { name := "docs" } {} newPage = .ok q₀ ∧
    usageChunks q ≠ usageChunks q₀ := by
  have hrun : usageHeadings = .ok (some ["Old".toList, "Usage".toList],
      some ["New".toList, "Usage".toList]) := by decide +kernel
  obtain ⟨p, hp, hrun⟩ := Py.bind_ok.mp hrun
  obtain ⟨q, hq, hrun⟩ := Py.bind_ok.mp hrun
  obtain ⟨q₀, hq₀, hrun⟩ := Py.bind_ok.mp hrun
  rw [Py.pure_ok, Prod.mk.injEq] at hrun
  refine ⟨p, q, q₀, hp, hq, hq₀, fun he => ?_⟩
  have heq := congrArg (fun chunks => (chunks 0).map DocumentChunk.headingPath) he
  have hnames : some ["Old".toList, "Usage".toList] = some ["New".toList, "Usage".toList] :=
    hrun.1.symm.trans (heq.trans hrun.2)
  revert hnames
  decide

/-- The renamed parent heading stays in the stored path of the section below it. -/
theorem heading_path_stale : ∃ p q q₀,
    processFile asciiWorker {} { name := "docs" } {} oldPage = .ok p ∧
    processFile asciiWorker {} { name := "docs" } p newPage = .ok q ∧
    processFile asciiWorker {} { name := "docs" } {} newPage = .ok q₀ ∧
    (q.store.view (documentKey { name := "docs" } newPage)).chunks ≠
      (q₀.store.view (documentKey { name := "docs" } newPage)).chunks :=
  usage_runs

/-- Over the store that the old page left, the row of the section is not up to date. -/
theorem reingest_fresh_iff_usage : ∃ parsed p q,
    processFile asciiWorker {} { name := "docs" } {} oldPage = .ok p ∧
    indexable asciiWorker newPage = some parsed ∧
    processFile asciiWorker {} { name := "docs" } p newPage = .ok q ∧
    ((q.store.view (documentKey { name := "docs" } newPage)).chunks = freshChunks {} parsed ↔
      (p.store.view (documentKey { name := "docs" } newPage)).UpToDate {} parsed) ∧
    ¬ (p.store.view (documentKey { name := "docs" } newPage)).UpToDate {} parsed := by
  have hsome : (indexable asciiWorker newPage).isSome = true := by decide +kernel
  obtain ⟨parsed, hi⟩ := Option.isSome_iff_exists.mp hsome
  obtain ⟨p, q, q₀, hp, hq, hq₀, hne⟩ := usage_runs
  have ho : p.store.Owned := processFile_owned owned_empty hp
  obtain ⟨-, hfresh, hiff⟩ :=
    reingest_fresh_iff asciiWorker {} { name := "docs" } newPage parsed p q ho hi hq
  exact ⟨parsed, p, q, hp, hi, hq, hiff, fun hup =>
    hne ((hiff.mpr hup).trans (hfresh q₀ hq₀).symm)⟩

end KnowledgeKiln.L1.FileProcessing
