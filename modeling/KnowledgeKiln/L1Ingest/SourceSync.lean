import KnowledgeKiln.Core.Run
import KnowledgeKiln.L1Ingest.Idempotence

/-!
# A source over many runs

Each run of a source writes the documents of the files it fetched and parsed. A document whose
file was not fetched is left alone, so what is stored for a path is the last version that
came from upstream.

* `resync_last_version`: the stored chunks after any sequence of runs.
* `inSync_iff`: when they are those of the last run's files alone.
-/
namespace KnowledgeKiln.L1.Pipeline

open KnowledgeKiln.Core KnowledgeKiln.L1.Chunking KnowledgeKiln.L1.FileProcessing
  KnowledgeKiln.L1.Embedding

/-! ## Runs of one source -/

/-- A run of the source: what the worker brings, and what the fetch returned. -/
structure Resync where
  worker : Worker
  settings : IngestSettings
  provider : Option EmbeddingProvider := none
  filters : ContentFilters := {}
  fetched : FetchResult

def Resync.args (source : Source) (run : Resync) : RunArgs where
  worker := run.worker
  source := source
  settings := run.settings
  provider := run.provider
  filters := run.filters

/-- The database behind a run that returns. -/
def resync (source : Source) (db : Db) (run : Resync) : Option Db :=
  match runSource (run.args source) (.ok run.fetched) (Session.begin db) with
  | (.ok _, s) => some s.durable
  | (.error _, _) => none

/-- The files of a run, by path, with the worker that processes them. -/
def Resync.byPath (run : Resync) : List (Str × Worker × FetchedFile) :=
  run.fetched.files.map fun file => (file.path, run.worker, file)

/-- The last file that was fetched at the path. -/
def lastFetched (runs : List Resync) (path : Str) : Option (Worker × FetchedFile) :=
  lookupLast (runs.flatMap Resync.byPath) path

/-- The hashes of the stored chunks, by index. -/
def storedHashes (e : Entry) (index : Nat) : Option Str := (e.chunks index).map (·.contentHash)

/-- The hashes of the chunks of a parsed document, by index. -/
def parsedHashes (parsed : ParsedDocument) (index : Nat) : Option Str :=
  parsed.chunks[index]?.map (·.contentHash)

/-- The entry behind a number of files, by the last of them at its path: without one it is the
entry before, and if that file has chunks, the stored ones have their hashes. -/
structure LastVersion (last : Option (Worker × FetchedFile)) (e e' : Entry) : Prop where
  kept : last = none → e' = e
  chunks : ∀ w file parsed, last = some (w, file) → indexable w file = some parsed →
    storedHashes e' = parsedHashes parsed

theorem LastVersion.refl (e : Entry) : LastVersion none e e where
  kept _ := rfl
  chunks := nofun

/-- First some files, then others. -/
theorem LastVersion.trans {last last' : Option (Worker × FetchedFile)} {e e' e'' : Entry}
    (h : LastVersion last e e') (h' : LastVersion last' e' e'') :
    LastVersion (last'.or last) e e'' := by
  cases last' with
  | none =>
    rw [Option.none_or, h'.kept rfl]
    exact h
  | some file =>
    rw [Option.some_or]
    exact ⟨nofun, h'.chunks⟩

section
variable {w : Worker} {filters : ContentFilters} {source : Source} {path : Str}

theorem processFile_lastVersion {file : FetchedFile} {p q : Progress} (ho : p.store.Owned)
    (h : processFile w filters source p file = .ok q) (key : Str × Str) :
    LastVersion (if key = documentKey source file then some (w, file) else none)
      (p.store.view key) (q.store.view key) := by
  by_cases hkey : key = documentKey source file
  · subst hkey
    rw [if_pos rfl]
    refine ⟨nofun, fun w' f parsed hf hi => ?_⟩
    cases hf
    obtain ⟨row, hput⟩ := processFile_entry ho hi h
    exact (congrArg storedHashes hput).trans (funext put_settled.hashes)
  · rw [if_neg hkey]
    refine ⟨fun _ => ?_, nofun⟩
    rw [processFile_view ho h, process_of_ne _ hkey]

theorem processFiles_lastVersion : ∀ {files : List FetchedFile} {p q : Progress}, p.store.Owned →
    processFiles w filters source p files = .ok q → ∀ key,
    LastVersion (lookupLast ((files.filter fun file => (indexable w file).isSome).map
      fun file => (documentKey source file, w, file)) key) (p.store.view key) (q.store.view key)
  | [], p, q, _, h, key => by
    cases h
    exact LastVersion.refl _
  | file :: files, p, q, ho, h, key => by
    obtain ⟨p', hp, h⟩ := Py.bind_ok.mp h
    have ih := processFiles_lastVersion (processFile_owned ho hp) h key
    by_cases hi : (indexable w file).isSome = true
    · rw [List.filter_cons_of_pos (by exact hi), List.map_cons, lookupLast_cons]
      exact (processFile_lastVersion ho hp key).trans ih
    · rw [List.filter_cons_of_neg (by exact hi)]
      rcases processFile_ok hp with ⟨-, hstore⟩ | ⟨parsed, hsome, -⟩
      · rwa [hstore] at ih
      · rw [hsome] at hi
        exact absurd rfl hi

/-- The file has chunks. -/
def hasChunks (p : Str × Worker × FetchedFile) : Bool := (indexable p.2.1 p.2.2).isSome

/-- Of the documents of one source, the path is the key. -/
theorem lookupLast_byPath (run : Resync) :
    lookupLast ((run.fetched.files.filter fun file => (indexable run.worker file).isSome).map
      fun file => (documentKey source file, run.worker, file)) (repoLabel source, path) =
    lookupLast (run.byPath.filter hasChunks) path := by
  have hg : (fun path : Str => (repoLabel source, path)).Injective :=
    fun _ _ he => (Prod.mk.inj he).2
  rw [← lookupLast_map_key hg, Resync.byPath, List.filter_map, List.map_map]
  rfl

theorem resync_lastVersion {db db' : Db} {run : Resync} (ho : db.Owned)
    (h : resync source db run = some db') : db'.Owned ∧ ∀ path,
      LastVersion (lookupLast (run.byPath.filter hasChunks) path)
        (db.store.view (repoLabel source, path)) (db'.store.view (repoLabel source, path)) := by
  unfold resync at h
  split at h
  · rename_i report s hrun
    cases h
    obtain ⟨-, -, -, q, indexed, embedded, r⟩ := runSource_returned hrun
    obtain ⟨hstore, howned⟩ := r.holds ho.chunks
    refine ⟨howned, fun path => ?_⟩
    have hlast := processFiles_lastVersion (by exact ho.chunks) r.files (repoLabel source, path)
    rw [hstore, ← lookupLast_byPath]
    exact hlast
  · cases h

/-! ## Many runs -/

theorem exec_lastVersion : ∀ {runs : List Resync} {db db' : Db}, db.Owned →
    exec (resync source) db runs = some db' → ∀ path,
    LastVersion (lookupLast ((runs.flatMap Resync.byPath).filter hasChunks) path)
      (db.store.view (repoLabel source, path)) (db'.store.view (repoLabel source, path))
  | [], db, db', _, h, path => by
    cases h
    exact LastVersion.refl _
  | run :: runs, db, db', ho, h, path => by
    obtain ⟨db₁, hrun, h⟩ := exec_cons.mp h
    obtain ⟨ho₁, hlast⟩ := resync_lastVersion ho hrun
    rw [List.flatMap_cons, List.filter_append, lookupLast_append]
    exact (hlast path).trans (exec_lastVersion ho₁ h path)

end

/-- **Last version.** After any sequence of runs of a source that returned, with any files in each
fetch, the chunks stored under a path are those of the last file that was fetched there, if it has
chunks: the same indices with the same hashes, and none of an earlier version. Under a path that no
run has fetched, everything is as it was. -/
theorem resync_last_version (source : Source) (runs : List Resync) (db db' : Db) (ho : db.Owned)
    (h : exec (resync source) db runs = some db') (path : Str) :
    (∀ w file parsed, lastFetched runs path = some (w, file) → indexable w file = some parsed →
      storedHashes (db'.store.view (repoLabel source, path)) = parsedHashes parsed) ∧
    (lastFetched runs path = none →
      db'.store.view (repoLabel source, path) = db.store.view (repoLabel source, path)) := by
  have hlast := exec_lastVersion ho h path
  constructor
  · intro w file parsed hf hi
    have hchunks : hasChunks (path, w, file) = true := by
      unfold hasChunks
      rw [hi]
      rfl
    exact hlast.chunks w file parsed (lookupLast_filter hf hchunks) hi
  · exact fun hn => hlast.kept (lookupLast_filter_none hn)

/-! ## When a source is in sync -/

/-- The chunks of the last file at the path, if the run fetched one that has any. -/
def Resync.hashes (run : Resync) (path : Str) (index : Nat) : Option Str :=
  (lookupLast run.byPath path).bind fun (w, file) =>
    (indexable w file).bind fun parsed => parsedHashes parsed index

/-- The chunks stored for the source are those of the files of the run. -/
def InSync (source : Source) (run : Resync) (db : Db) : Prop :=
  ∀ path, storedHashes (db.store.view (repoLabel source, path)) = run.hashes path

/-- A file without chunks leaves its entry alone. -/
theorem resync_skipped {source : Source} {run : Resync} {db db' : Db} {file : FetchedFile}
    (ho : db.Owned) (hn : (run.fetched.files.map (·.path)).Nodup)
    (h : resync source db run = some db') (hf : file ∈ run.fetched.files)
    (hi : indexable run.worker file = none) :
    db'.store.view (repoLabel source, file.path) = db.store.view (repoLabel source, file.path) := by
  unfold resync at h
  split at h
  · rename_i report s hrun
    cases h
    obtain ⟨-, -, -, q, indexed, embedded, r⟩ := runSource_returned hrun
    have hview : q.store.view = db.store.view.processAll _ _ _ _ :=
      processFiles_view ho.chunks r.files
    have hnone : indexedAs (run.args source).worker (run.args source).source file = none := by
      simp [indexedAs, Resync.args, hi]
    rw [(r.holds ho.chunks).1, hview]
    refine (processAll_of_mem _ hn hf).trans ?_
    rw [Entry.process, hnone]
    rfl
  · cases h

/-- What is stored under a path is of the run, or as it was. -/
theorem resync_path {source : Source} {run : Resync} {db db' : Db} (ho : db.Owned)
    (hn : (run.fetched.files.map (·.path)).Nodup) (h : resync source db run = some db')
    (path : Str) :
    storedHashes (db'.store.view (repoLabel source, path)) = run.hashes path ∧
        (run.hashes path 0).isSome = true ∨
      run.hashes path = (fun _ => none) ∧
        db'.store.view (repoLabel source, path) = db.store.view (repoLabel source, path) := by
  have hlast := (resync_lastVersion ho h).2 path
  unfold Resync.hashes
  cases hl : lookupLast run.byPath path with
  | none => exact .inr ⟨rfl, hlast.kept (lookupLast_filter_none hl)⟩
  | some out =>
    obtain ⟨w, file⟩ := out
    simp only [Option.bind_some]
    have hm := mem_of_lookupLast hl
    unfold Resync.byPath at hm
    obtain ⟨file, hf, he⟩ := List.mem_map.mp hm
    cases he
    cases hi : indexable run.worker file with
    | none => exact .inr ⟨rfl, resync_skipped ho hn h hf hi⟩
    | some parsed =>
      have hchunks : hasChunks (file.path, run.worker, file) = true := by
        unfold hasChunks
        rw [hi]
        rfl
      refine .inl ⟨hlast.chunks _ _ parsed (lookupLast_filter hl hchunks) hi, ?_⟩
      obtain ⟨-, -, -, hne⟩ := indexable_ok hi
      obtain ⟨c, chunks, hc⟩ := List.exists_cons_of_ne_nil hne
      simp [parsedHashes, hc]

/-- **Out of sync.** Behind a run that returned, over distinct paths, the source is in sync exactly
when the files of the run have chunks at every path that had chunks before. -/
theorem inSync_iff {source : Source} {run : Resync} {db db' : Db} (ho : db.Owned)
    (hn : (run.fetched.files.map (·.path)).Nodup) (h : resync source db run = some db') :
    InSync source run db' ↔ ∀ path,
      storedHashes (db.store.view (repoLabel source, path)) ≠ (fun _ => none) →
        (run.hashes path 0).isSome = true := by
  refine forall_congr' fun path => ?_
  rcases resync_path ho hn h path with ⟨hsame, hsome⟩ | ⟨hnone, hkept⟩
  · exact iff_of_true hsame fun _ => hsome
  · rw [hkept, hnone]
    simp

/-! ## A file removed upstream -/

def docs : Source := { name := "docs" }

/-- The first run fetches a page. -/
def firstSync : Resync where
  worker := asciiWorker
  settings := { excStr := fun _ => "error" }
  fetched := { files := [newPage] }

/-- By the second run the page is gone. -/
def emptySync : Resync where
  worker := asciiWorker
  settings := { excStr := fun _ => "error" }
  fetched := {}

/-- Whether the page's first chunk is stored. -/
def pageStored (runs : List Resync) : Option Bool :=
  (exec (resync docs) {} runs).map fun db =>
    (storedHashes (db.store.view (repoLabel docs, newPage.path)) 0).isSome

theorem removed_file_stays : ∃ db, exec (resync docs) {} [firstSync, emptySync] = some db ∧
    ¬ InSync docs emptySync db := by
  have hrun : pageStored [firstSync, emptySync] = some true := by decide +kernel
  obtain ⟨db, h, hstored⟩ := Option.map_eq_some_iff.mp hrun
  refine ⟨db, h, fun hs => ?_⟩
  rw [hs newPage.path] at hstored
  cases hstored

theorem resync_last_version_page : ∃ db parsed,
    exec (resync docs) {} [firstSync, emptySync] = some db ∧
    indexable asciiWorker newPage = some parsed ∧
    storedHashes (db.store.view (repoLabel docs, newPage.path)) = parsedHashes parsed := by
  have hrun : pageStored [firstSync, emptySync] = some true := by decide +kernel
  obtain ⟨db, h, -⟩ := Option.map_eq_some_iff.mp hrun
  have hsome : (indexable asciiWorker newPage).isSome = true := by decide +kernel
  obtain ⟨parsed, hi⟩ := Option.isSome_iff_exists.mp hsome
  have hlaw := resync_last_version docs [firstSync, emptySync] {} db db_owned_empty h newPage.path
  exact ⟨db, parsed, h, hi, hlaw.1 asciiWorker newPage parsed rfl hi⟩

end KnowledgeKiln.L1.Pipeline
