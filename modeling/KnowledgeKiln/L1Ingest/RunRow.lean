import KnowledgeKiln.L1Ingest.Pending

/-!
# The row of a run

`run_source` commits the row of its run as `running` before it fetches. Whatever happens
behind that commit is undone if the call raises, the row is not.

* `runSource_exit`: the row is terminal when the call returns, and `running` when it raises.
* `runSource_returns_iff`: when it returns.
* `run_terminal_iff`: when the row is terminal.
-/
namespace KnowledgeKiln.L1.Pipeline

open KnowledgeKiln.Core KnowledgeKiln.L1.Chunking KnowledgeKiln.L1.FileProcessing
  KnowledgeKiln.L1.Embedding

/-- The status of a run. -/
def Db.status (db : Db) (runId : Nat) : Option RunStatus := (db.runs[runId]?).map (·.status)

/-- The statuses of all runs, in the order of their ids. -/
def Db.statuses (db : Db) : List RunStatus := db.runs.map (·.status)

theorem status_of_statuses {db : Db} {before : List RunStatus} {status : RunStatus}
    (h : Db.statuses db = before ++ [status]) : Db.status db before.length = some status := by
  unfold Db.status
  rw [← List.getElem?_map, show db.runs.map (·.status) = before ++ [status] from h]
  simp

/-! ## What the embedding pass keeps -/

/-- The steps of the embedding pass keep the invariant. -/
structure EmbedRule (I : Session Db → Prop) : Prop where
  abort : ∀ s, I s → I { s with aborted := true }
  commit : ∀ s, I s → I { s with durable := s.working, commits := s.commits ++ [s.working] }
  upsert : ∀ {s chunkId row u db}, I s → upsertEmbedding chunkId row s.working = .ok (u, db) →
    I { s with working := db }

section
variable {I : Session Db → Prop} {summary : IngestionSummary}

theorem keeps_writeVectors (hI : EmbedRule I) {provider : EmbeddingProvider} :
    ∀ {pairs : List (ChunkOf × Option Vec)} {summary : IngestionSummary},
      Txn.Keeps I (writeVectors provider summary pairs)
  | [], _ => Txn.keeps_pure _
  | (c, none) :: rest, summary => by
    have ih : Txn.Keeps I (writeVectors provider summary rest) := keeps_writeVectors hI
    exact ih
  | (c, some vector) :: rest, summary => by
    have hupsert : Txn.Keeps I (Txn.execute
        (upsertEmbedding c.id (embeddingRow provider c.value vector))) :=
      Txn.keeps_execute hI.abort fun _ _ _ h he => hI.upsert h he
    refine Txn.keeps_bind (Txn.keeps_attempt hupsert) fun result => ?_
    cases result with
    | error exc => exact Txn.keeps_pure _
    | ok _ => exact keeps_writeVectors hI

theorem keeps_embedGathered (hI : EmbedRule I) {settings : IngestSettings}
    {provider : EmbeddingProvider} {chunks : List ChunkOf} :
    Txn.Keeps I (embedGathered settings provider chunks summary) := by
  unfold embedGathered
  split
  · exact Txn.keeps_pure _
  · dsimp only
    split
    · exact Txn.keeps_pure _
    · split
      · exact Txn.keeps_pure _
      · refine Txn.keeps_bind ?_ fun out => Txn.keeps_pure _
        unfold writeEmbeddings
        split
        · exact Txn.keeps_pure _
        · exact keeps_writeVectors hI

theorem keeps_embedPhase (hI : EmbedRule I) {settings : IngestSettings}
    {provider : Option EmbeddingProvider} {docIds : List Uuid} :
    Txn.Keeps I (embedPhase settings provider docIds summary) := by
  cases provider with
  | none => exact Txn.keeps_pure _
  | some provider =>
    have htouched : Txn.Keeps I (embedTouchedDocuments settings provider docIds summary) := by
      unfold embedTouchedDocuments
      split
      · exact Txn.keeps_pure _
      · refine Txn.keeps_bind (Txn.keeps_query _) fun out => ?_
        exact Txn.keeps_bind (Txn.keeps_commit hI.commit) fun _ => keeps_embedGathered hI
    refine Txn.keeps_bind (Txn.keeps_attempt htouched) fun pass => ?_
    unfold caught
    split
    · exact Txn.keeps_pure _
    · exact Txn.keeps_raise _
    · exact Txn.keeps_pure _

end

/-! ## Returning and raising -/

/-- Behind the earlier runs stands a `running` one, in the session and in whatever it made
durable. -/
structure Open (before : List RunStatus) (s : Session Db) : Prop where
  working : Db.statuses s.working = before ++ [.running]
  durable : Db.statuses s.durable = before ++ [.running]
  commits : ∀ db ∈ s.commits, Db.statuses db = before ++ [.running]

section
variable {before : List RunStatus} {runId : Nat}

theorem Open.abort {s : Session Db} (h : Open before s) : Open before { s with aborted := true } :=
  ⟨h.working, h.durable, h.commits⟩

theorem Open.write {s : Session Db} {db : Db} (h : Open before s) (hr : db.runs = s.working.runs) :
    Open before { s with working := db } := by
  refine ⟨?_, h.durable, h.commits⟩
  rw [← h.working]
  unfold Db.statuses
  rw [hr]

theorem Open.commit {s : Session Db} (h : Open before s) :
    Open before { s with durable := s.working, commits := s.commits ++ [s.working] } where
  working := h.working
  durable := h.working
  commits := by
    intro db hdb
    rcases List.mem_append.mp hdb with hdb | hdb
    · exact h.commits db hdb
    · rw [List.mem_singleton.mp hdb]
      exact h.working

/-- A statement that leaves the runs alone keeps the run open. -/
theorem keeps_open_execute {α : Type} {f : Db → Py (α × Db)}
    (hf : ∀ db a db', f db = .ok (a, db') → db'.runs = db.runs) :
    Txn.Keeps (Open before) (Txn.execute f) :=
  Txn.keeps_execute (fun _ h => h.abort) fun _ _ _ h he => h.write (hf _ _ _ he)

theorem indexFetched_runs {args : RunArgs} {files : List FetchedFile} {summary : IngestionSummary}
    {db db' : Db} {out : IngestionSummary × List Uuid}
    (h : indexFetched args files summary db = .ok (out, db')) : db'.runs = db.runs := by
  obtain ⟨q, -, h⟩ := Py.bind_ok.mp h
  cases h
  rfl

theorem upsertEmbedding_runs {chunkId : Uuid} {row : ChunkEmbedding} {db db' : Db} {u : Unit}
    (h : upsertEmbedding chunkId row db = .ok (u, db')) : db'.runs = db.runs := by
  unfold upsertEmbedding at h
  split at h
  · cases h
    rfl
  · cases h

theorem embedRule_open : EmbedRule (Open before) where
  abort _ h := h.abort
  commit _ h := h.commit
  upsert h hu := h.write (upsertEmbedding_runs hu)

/-- The update of the row sets its status, and that of no other run. -/
theorem runsUpdate_statuses {status : RunStatus} {summary : IngestionSummary}
    {commitSha : Option Str} {db db' : Db} {u : Unit} (hr : Db.statuses db = before ++ [.running])
    (h : runsUpdate before.length status summary commitSha db = .ok (u, db')) :
    Db.statuses db' = before ++ [status] := by
  unfold Db.statuses at hr
  unfold runsUpdate at h
  split at h
  · cases h
    obtain ⟨runs, last, hruns, hbefore, hlast⟩ := List.map_eq_append_iff.mp hr
    obtain ⟨run, rfl, -⟩ := List.map_eq_singleton_iff.mp hlast
    have hlen : runs.length = before.length := by rw [← hbefore, List.length_map]
    unfold Db.statuses
    dsimp only
    rw [hruns, ← hlen, List.modify_eq_take_cons_drop (by simp)]
    simp [hbefore]
  · cases h

/-- How a call ends: it returns with the row in the last commit at `status`, or it raises with the
row still `running`. -/
structure Exit {α : Type} (before : List RunStatus) (status : RunStatus)
    (out : Except Raised α × Session Db) : Prop where
  returned : ∀ a, out.1 = .ok a → ∃ earlier, out.2.commits = earlier ++ [out.2.durable] ∧
    Db.statuses out.2.durable = before ++ [status] ∧
    ∀ db ∈ earlier, Db.statuses db = before ++ [.running]
  raised : ∀ exc, out.1 = .error exc → Db.statuses out.2.durable = before ++ [.running] ∧
    ∀ db ∈ out.2.commits, Db.statuses db = before ++ [.running]

theorem exit_of_raised {α : Type} {status : RunStatus} {exc : Raised} {s : Session Db}
    (h : Open before s) : Exit before status ((.error exc, s) : Except Raised α × Session Db) where
  returned := by
    intro a ha
    cases ha
  raised := fun _ _ => ⟨h.durable, h.commits⟩

/-- A step that leaves the run open, and what follows. -/
theorem exit_bind {α β : Type} {Q : Prop} {x : Txn Db α} {f : α → Txn Db β} {s : Session Db}
    (hx : Txn.Keeps (Open before) x) (hs : Open before s)
    (hf : ∀ a s', Open before s' → ∃ status, status ≠ .running ∧ (status = .failed ↔ Q) ∧
      Exit before status (f a s')) :
    ∃ status, status ≠ .running ∧ (status = .failed ↔ Q) ∧ Exit before status ((x >>= f) s) := by
  have hopen := hx s hs
  cases hr : x s with
  | mk r s' =>
    rw [hr] at hopen
    cases r with
    | ok a =>
      rw [Txn.bind_of_ok hr]
      exact hf a s' hopen
    | error exc =>
      rw [Txn.bind_of_error hr]
      by_cases hQ : Q
      · exact ⟨.failed, by simp, by simp [hQ], exit_of_raised hopen⟩
      · exact ⟨.succeeded, by simp, by simp [hQ], exit_of_raised hopen⟩

/-- The last update and its commit close an open run. -/
theorem exit_update {α : Type} {status : RunStatus} {summary : IngestionSummary}
    {commitSha : Option Str} {a : α} {s : Session Db} (h : Open before s) :
    Exit before status ((do
      Txn.execute (runsUpdate before.length status summary commitSha)
      Txn.commit
      pure a : Txn Db α) s) := by
  cases hs : s.aborted with
  | true =>
    rw [Txn.bind_of_error (Txn.execute_of_aborted hs)]
    exact exit_of_raised h
  | false =>
    cases hu : runsUpdate before.length status summary commitSha s.working with
    | error exc =>
      rw [Txn.bind_of_error (Txn.execute_of_error hs hu)]
      exact exit_of_raised h.abort
    | ok out =>
      obtain ⟨u, db⟩ := out
      have hcommit := Txn.commit_of_ok (s := { s with working := db }) hs
      rw [Txn.bind_of_ok (Txn.execute_of_ok hs hu), Txn.bind_of_ok hcommit]
      constructor
      · intro _ _
        exact ⟨s.commits, rfl, runsUpdate_statuses h.working hu, h.commits⟩
      · intro exc he
        cases he

theorem createRun_ok {source : Source} {db db' : Db} (h : createRun source db = .ok (runId, db')) :
    runId = db.runs.length ∧ ∃ name, db' = { db with runs := db.runs ++ [{ sourceName := name }] } := by
  unfold createRun at h
  obtain ⟨name, -, h⟩ := Py.bind_ok.mp h
  obtain ⟨_, -, h⟩ := Py.bind_ok.mp h
  rw [Py.pure_ok] at h
  cases h
  exact ⟨rfl, name, rfl⟩

/-- Once the row is committed, the run is open. -/
theorem open_created {source : Source} {db db' : Db} (h : createRun source db = .ok (runId, db')) :
    Open (Db.statuses db) { working := db', durable := db', commits := [db'] } := by
  obtain ⟨rfl, name, rfl⟩ := createRun_ok h
  have hrun : Db.statuses { db with runs := db.runs ++ [{ sourceName := name }] } =
      Db.statuses db ++ [.running] := by simp [Db.statuses]
  exact ⟨hrun, hrun, by simpa using hrun⟩

/-- `runSource` behind the commit of the row. -/
def runCreated (args : RunArgs) (fetch : Except FetchError FetchResult) (runId : Nat) :
    Txn Db RunReport :=
  match fetch with
  | .error (.raised exc) => Txn.raise exc
  | .error (.capExceeded msg) => do
    let summary : IngestionSummary := { runId := some runId, errors := [msg] }
    Txn.execute (runsUpdate runId .failed summary none)
    Txn.commit
    pure { summary := summary, pass := { summary := summary } }
  | .ok fetched => do
    let (summary, docIds) ←
      Txn.execute (indexFetched args fetched.files (scanned runId fetched))
    let pass ← embedPhase args.settings args.provider (args.touchedOrder.visit docIds) summary
    finishRun runId fetched.commitSha pass

theorem runSource_created {args : RunArgs} {fetch : Except FetchError FetchResult} {db db' : Db}
    (h : createRun args.source db = .ok (runId, db')) :
    runSource args fetch (Session.begin db) =
      runCreated args fetch runId { working := db', durable := db', commits := [db'] } := by
  unfold runSource
  have hs : (Session.begin db).aborted = false := rfl
  have hcommit := Txn.commit_of_ok (s := { Session.begin db with working := db' }) hs
  rw [Txn.bind_of_ok (Txn.execute_of_ok hs h), Txn.bind_of_ok hcommit]
  rfl

/-- **Exits.** The call returns with the row closed by its last commit, as `failed` exactly for a
breached cap, or it raises and leaves the row `running`. -/
theorem runSource_exit {args : RunArgs} (fetch : Except FetchError FetchResult) {db db' : Db}
    (h : createRun args.source db = .ok (runId, db')) :
    ∃ status, status ≠ .running ∧ (status = .failed ↔ ∃ msg, fetch = .error (.capExceeded msg)) ∧
      Exit (Db.statuses db) status (runSource args fetch (Session.begin db)) := by
  have hopen := open_created h
  have hid : runId = (Db.statuses db).length := by
    rw [(createRun_ok h).1, Db.statuses, List.length_map]
  rw [runSource_created h]
  subst hid
  unfold runCreated
  match fetch with
  | .error (.raised exc) =>
    exact ⟨.succeeded, by simp, by simp, exit_of_raised hopen⟩
  | .error (.capExceeded msg) =>
    exact ⟨.failed, by simp, by simp, exit_update hopen⟩
  | .ok fetched =>
    have hindex : Txn.Keeps (Open (Db.statuses db)) (Txn.execute
        (indexFetched args fetched.files (scanned (Db.statuses db).length fetched))) :=
      keeps_open_execute fun db out db' he => indexFetched_runs he
    refine exit_bind hindex hopen fun out s₁ h₁ => ?_
    refine exit_bind (keeps_embedPhase embedRule_open) h₁ fun pass s₂ h₂ => ?_
    unfold finishRun
    by_cases he : pass.summary.errors = []
    · simp only [if_pos he]
      exact ⟨.succeeded, by simp, by simp, exit_update h₂⟩
    · simp only [if_neg he]
      exact ⟨.partialSuccess, by simp, by simp, exit_update h₂⟩

end

/-! ## When it returns -/

section
variable {settings : IngestSettings} {provider : EmbeddingProvider} {docIds : List Uuid}
  {summary : IngestionSummary} {s : Session Db}

variable (settings provider summary) in
/-- The pass in the transaction behind its commit. -/
theorem embedTouched_gathered (hs : s.aborted = false) (hd : docIds ≠ []) :
    embedTouchedDocuments settings provider docIds summary s =
      embedGathered settings provider (toEmbed s.working docIds)
        (gatherChunksNeedingEmbed s.working summary docIds).2
        { s with durable := s.working, commits := s.commits ++ [s.working] } := by
  unfold embedTouchedDocuments
  rw [if_neg hd, Txn.bind_of_ok (Txn.query_apply _ _)]
  dsimp only
  rw [Txn.bind_of_ok (Txn.commit_of_ok hs), gather_fst]

variable (settings provider summary) in
theorem embedTouched_eq (hs : s.aborted = false) (hd : docIds ≠ []) : ∃ n,
    embedTouchedDocuments settings provider docIds summary s =
      embedGathered settings provider (toEmbed s.working docIds)
        { summary with embeddingsUnchanged := summary.embeddingsUnchanged + n }
        { s with durable := s.working, commits := s.commits ++ [s.working] } := by
  have hunchanged : ∃ n, (gatherChunksNeedingEmbed s.working summary docIds).2 =
      { summary with embeddingsUnchanged := summary.embeddingsUnchanged + n } := gather_snd
  obtain ⟨n, hn⟩ := hunchanged
  exact ⟨n, by rw [embedTouched_gathered settings provider summary hs hd, hn]⟩

theorem embedPhase_of {r : Except Raised EmbedPass} {s' : Session Db}
    (h : embedTouchedDocuments settings provider docIds summary s = (r, s')) :
    embedPhase settings (some provider) docIds summary s = caught settings (ended summary r) s' :=
  Txn.bind_of_ok (Txn.attempt_of h)

theorem toEmbed_mem {db : Db} {docIds : List Uuid} :
    ∀ c ∈ toEmbed db docIds, c ∈ db.store.chunks.rows := fun _ hc => (mem_toEmbed.mp hc).1

variable (summary) in
/-- **Sound answers.** The pass is caught in a usable session. -/
theorem embedPhase_sound (hs : s.aborted = false)
    (h : Sound settings provider ((toEmbed s.working docIds).map (·.value))) :
    ∃ pass s', embedPhase settings (some provider) docIds summary s = (.ok pass, s') ∧
      s'.aborted = false ∧ pass.summary.warnings = summary.warnings ∧
      pass.summary.errors = summary.errors ++
        passErrors settings provider ((toEmbed s.working docIds).map (·.value)) := by
  have hpass : ∃ pass s', embedTouchedDocuments settings provider docIds summary s = (.ok pass, s') ∧
      s'.aborted = false ∧ pass.outcome ≠ .error .cancelled ∧
      pass.summary.warnings = summary.warnings ∧ pass.errors settings = summary.errors ++
        passErrors settings provider ((toEmbed s.working docIds).map (·.value)) := by
    by_cases hd : docIds = []
    · subst hd
      exact ⟨{ summary := summary }, s, rfl, hs, by simp, rfl, by
        simp [EmbedPass.errors, passErrors, toEmbed]⟩
    · obtain ⟨n, hn⟩ := embedTouched_eq settings provider summary hs hd
      obtain ⟨pass, embeddings, hg, hc, hw, he⟩ := embedGathered_sound
        { summary with embeddingsUnchanged := summary.embeddingsUnchanged + n }
        (s := { s with durable := s.working, commits := s.commits ++ [s.working] }) hs toEmbed_mem h
      exact ⟨pass, _, hn.trans hg, hs, hc, hw, he⟩
  obtain ⟨pass, s', he, hs', hc, hw, herr⟩ := hpass
  rw [embedPhase_of he]
  unfold caught ended
  dsimp only
  unfold EmbedPass.errors at herr
  cases ho : pass.outcome with
  | ok u =>
    rw [ho] at herr
    exact ⟨pass, s', by simp, hs', hw, herr⟩
  | error exc =>
    rw [ho] at herr hc
    cases exc with
    | cancelled => exact absurd rfl hc
    | exception exc => exact ⟨_, s', rfl, hs', hw, herr⟩

theorem caught_session (pass : EmbedPass) (s : Session Db) : (caught settings pass s).2 = s := by
  unfold caught
  cases pass.outcome with
  | ok _ => rfl
  | error exc => cases exc <;> rfl

variable (summary) in
/-- On other answers the pass raises, or its session is aborted. -/
theorem embedPhase_unsound (hs : s.aborted = false)
    (h : ¬ Sound settings provider ((toEmbed s.working docIds).map (·.value))) :
    (embedPhase settings (some provider) docIds summary s).2.aborted = true ∨
      (embedPhase settings (some provider) docIds summary s).1 = .error .cancelled := by
  have hd : docIds ≠ [] := by
    intro hd
    subst hd
    exact h (.inl rfl)
  obtain ⟨n, hn⟩ := embedTouched_eq settings provider summary hs hd
  obtain ⟨pass, db', aborted, hg, hor⟩ := embedGathered_unsound
    { summary with embeddingsUnchanged := summary.embeddingsUnchanged + n }
    (s := { s with durable := s.working, commits := s.commits ++ [s.working] }) hs h
  rw [embedPhase_of (hn.trans hg)]
  rcases hor with ha | hc
  · rw [caught_session]
    exact .inl ha
  · unfold caught ended
    dsimp only
    rw [hc]
    exact .inr rfl

end

/-- The chunks the run has to embed. -/
def pendingChunks (args : RunArgs) (db : Db) (files : List FetchedFile) : List DocumentChunk :=
  pending args.worker args.filters args.source args.touchedOrder db.store.view
    (hashesOf db.embeddings db.store) files

/-- The errors of its embedding pass. -/
def embedErrors (args : RunArgs) (db : Db) (files : List FetchedFile) : List Str :=
  match args.provider with
  | none => []
  | some provider => passErrors args.settings provider (pendingChunks args db files)

/-- The texts a run records that gets to its end. -/
def recordedTexts (args : RunArgs) (db : Db) (fetched : FetchResult) : List Str :=
  fetched.files.flatMap (fileErrors args.worker) ++ embedErrors args db fetched.files ++
    fetched.files.flatMap (fileWarnings args.worker) ++ fetched.commitSha.toList

/-- The fetch ends in a breached cap, or with files that are all accepted, whose pending chunks get
sound answers; and no text to be recorded holds a NUL character. -/
def Ends (args : RunArgs) (db : Db) : Except FetchError FetchResult → Prop
  | .error (.raised _) => False
  | .error (.capExceeded msg) => '\x00' ∉ msg
  | .ok fetched =>
    db.store.view.AcceptsAll args.worker args.filters args.source fetched.files ∧
      (∀ provider, args.provider = some provider →
        Sound args.settings provider (pendingChunks args db fetched.files)) ∧
      ∀ text ∈ recordedTexts args db fetched, '\x00' ∉ text

/-! ## When the run returns -/

section
variable {args : RunArgs} {fetch : Except FetchError FetchResult} {db db' : Db} {runId : Nat}

theorem recordable_iff {summary : IngestionSummary} {commitSha : Option Str} :
    recordable summary commitSha = true ↔
      ∀ text ∈ summary.errors ++ summary.warnings ++ commitSha.toList, '\x00' ∉ text := by
  unfold recordable
  rw [List.all_eq_true]
  exact forall₂_congr fun text _ => by simp

/-- The last update goes through in a usable session, if its texts are recordable. -/
theorem update_returns_iff {α : Type} {status : RunStatus} {summary : IngestionSummary}
    {commitSha : Option Str} {a : α} {s : Session Db} :
    (∃ b, ((do
      Txn.execute (runsUpdate runId status summary commitSha)
      Txn.commit
      pure a : Txn Db α) s).1 = .ok b) ↔ s.aborted = false ∧ recordable summary commitSha = true := by
  cases hs : s.aborted with
  | true =>
    rw [Txn.bind_of_error (Txn.execute_of_aborted hs)]
    simp
  | false =>
    cases hr : recordable summary commitSha with
    | false =>
      have hu : runsUpdate runId status summary commitSha s.working = .error .dataError := by
        simp [runsUpdate, hr]
      rw [Txn.bind_of_error (Txn.execute_of_error hs hu)]
      simp
    | true =>
      have hu : ∃ db', runsUpdate runId status summary commitSha s.working = .ok ((), db') := by
        simp [runsUpdate, hr]
      obtain ⟨db', hu⟩ := hu
      have hcommit := Txn.commit_of_ok (s := { s with working := db' }) hs
      rw [Txn.bind_of_ok (Txn.execute_of_ok hs hu), Txn.bind_of_ok hcommit]
      simp

theorem indexFetched_error (ho : db.store.Owned) {files : List FetchedFile}
    (summary : IngestionSummary)
    (h : ¬ db.store.view.AcceptsAll args.worker args.filters args.source files) :
    ∃ exc, indexFetched args files summary db = .error exc := by
  rw [← processFiles_ok_iff (p := { store := db.store, summary := summary.toSummary }) ho] at h
  unfold indexFetched
  cases hp : processFiles args.worker args.filters args.source
      { store := db.store, summary := summary.toSummary } files with
  | ok q => exact absurd ⟨q, hp⟩ h
  | error exc => exact ⟨exc, rfl⟩

theorem indexFetched_ok {files : List FetchedFile} {summary : IngestionSummary} {q : Progress}
    (h : processFiles args.worker args.filters args.source
      { store := db.store, summary := summary.toSummary } files = .ok q) :
    indexFetched args files summary db =
      .ok (({ summary with toSummary := q.summary }, q.touchedDocIds), Db.withStore db q.store) := by
  unfold indexFetched
  rw [h]
  rfl

theorem finishRun_returns_iff {commitSha : Option Str} {pass : EmbedPass} {s : Session Db} :
    (∃ report, (finishRun runId commitSha pass s).1 = .ok report) ↔
      s.aborted = false ∧ recordable pass.summary commitSha = true := by
  unfold finishRun
  exact update_returns_iff

/-- The run whose files have all been processed. -/
theorem indexed_returns_iff {fetched : FetchResult} {q : Progress} {s : Session Db}
    (hs : s.aborted = false) (ho : s.working.Owned)
    (hq : processFiles args.worker args.filters args.source
      { store := s.working.store, summary := (scanned runId fetched).toSummary } fetched.files =
        .ok q) :
    (∃ report, (runCreated args (.ok fetched) runId s).1 = .ok report) ↔
      (∀ provider, args.provider = some provider →
        Sound args.settings provider (pendingChunks args s.working fetched.files)) ∧
      ∀ text ∈ recordedTexts args s.working fetched, '\x00' ∉ text := by
  have hpending := pending_eq args.touchedOrder ho hq
  have hsum := processFiles_summary hq
  have herrors : q.summary.errors = fetched.files.flatMap (fileErrors args.worker) := hsum.errors
  have hwarnings : q.summary.warnings = fetched.files.flatMap (fileWarnings args.worker) :=
    hsum.warnings
  have hexec := Txn.execute_of_ok hs (indexFetched_ok hq)
  unfold runCreated
  dsimp only
  rw [Txn.bind_of_ok hexec]
  dsimp only
  unfold recordedTexts embedErrors
  cases hp : args.provider with
  | none =>
    rw [Txn.bind_of_ok (show embedPhase args.settings none _ _ _ = (.ok _, _) from rfl),
      finishRun_returns_iff, recordable_iff]
    simp [hs, herrors, hwarnings]
  | some provider =>
    simp only [Option.some.injEq, forall_eq']
    rw [← show _ = pendingChunks args s.working fetched.files from hpending]
    by_cases hsound : Sound args.settings provider
        ((toEmbed (Db.withStore s.working q.store)
          (args.touchedOrder.visit q.touchedDocIds)).map (·.value))
    · obtain ⟨pass, s', he, hs', hw, herr⟩ := embedPhase_sound
        { scanned runId fetched with toSummary := q.summary }
        (s := { s with working := Db.withStore s.working q.store }) hs hsound
      rw [Txn.bind_of_ok he, finishRun_returns_iff, recordable_iff, hw, herr]
      simp [hs', herrors, hwarnings, hsound]
    · have hun := embedPhase_unsound
        { scanned runId fetched with toSummary := q.summary }
        (s := { s with working := Db.withStore s.working q.store }) hs hsound
      refine iff_of_false ?_ fun h => hsound h.1
      intro ⟨report, h⟩
      cases hr : embedPhase args.settings (some provider) (args.touchedOrder.visit q.touchedDocIds)
          { scanned runId fetched with toSummary := q.summary }
          { s with working := Db.withStore s.working q.store } with
      | mk r s' =>
        rw [hr] at hun
        cases r with
        | error exc =>
          rw [Txn.bind_of_error hr] at h
          cases h
        | ok pass =>
          rw [Txn.bind_of_ok hr] at h
          have hs' := (finishRun_returns_iff.mp ⟨report, h⟩).1
          rcases hun with ha | hc
          · rw [hs'] at ha
            cases ha
          · cases hc

/-- The call returns exactly when the run gets to its end. -/
theorem runSource_returns_iff (ho : db.Owned) (h : createRun args.source db = .ok (runId, db')) :
    (∃ report, (runSource args fetch (Session.begin db)).1 = .ok report) ↔ Ends args db fetch := by
  rw [runSource_created h]
  obtain ⟨-, name, rfl⟩ := createRun_ok h
  match fetch with
  | .error (.raised exc) => simp [runCreated, Ends]
  | .error (.capExceeded msg) =>
    refine update_returns_iff.trans ?_
    simp [recordable_iff, Ends]
  | .ok fetched =>
    by_cases ha : db.store.view.AcceptsAll args.worker args.filters args.source fetched.files
    · have hq := (processFiles_ok_iff (p := ⟨db.store, (scanned runId fetched).toSummary, []⟩)
        ho.chunks).mpr ha
      obtain ⟨q, hq⟩ := hq
      refine (indexed_returns_iff rfl ⟨ho.chunks, ho.embeddings⟩ hq).trans ?_
      exact (and_iff_right ha).symm
    · have hindex : ∃ exc, indexFetched args fetched.files (scanned runId fetched)
          { db with runs := db.runs ++ [{ sourceName := name }] } = .error exc :=
        indexFetched_error (by exact ho.chunks) _ ha
      obtain ⟨exc, he⟩ := hindex
      refine iff_of_false ?_ fun hends => ha hends.1
      intro ⟨report, hr⟩
      unfold runCreated at hr
      dsimp only at hr
      rw [Txn.bind_of_error (Txn.execute_of_error rfl he)] at hr
      cases hr

/-- **Orphaned runs.** Once its row is committed, a run of the pipeline leaves it in a terminal
state exactly when the run gets to its end: its fetch breached a cap, or returned files that are
all accepted, whose pending chunks get sound answers from the provider, and no text it records
holds a NUL character. -/
theorem run_terminal_iff (args : RunArgs) (fetch : Except FetchError FetchResult) (db db' : Db)
    (runId : Nat) (ho : db.Owned) (h : createRun args.source db = .ok (runId, db')) :
    (∃ status, Db.status (runSource args fetch (Session.begin db)).2.durable runId = some status ∧
      status ≠ .running) ↔ Ends args db fetch := by
  rw [← runSource_returns_iff ho h]
  obtain ⟨status, hne, -, hexit⟩ := runSource_exit fetch h
  have hid : runId = (Db.statuses db).length := by
    rw [(createRun_ok h).1, Db.statuses, List.length_map]
  subst hid
  constructor
  · intro ⟨status', hs, hne'⟩
    cases hr : (runSource args fetch (Session.begin db)).1 with
    | ok report => exact ⟨report, rfl⟩
    | error exc =>
      have hrunning := status_of_statuses (hexit.raised exc hr).1
      rw [hs] at hrunning
      exact absurd (Option.some.inj hrunning) hne'
  · intro ⟨report, hr⟩
    obtain ⟨_, -, hs, -⟩ := hexit.returned report hr
    exact ⟨status, status_of_statuses hs, hne⟩

end

theorem db_owned_empty : Db.Owned {} := ⟨owned_empty, by simp [Table.empty]⟩

/-- A worker's run of the source `docs`, without an embedding provider. -/
def docsRun : RunArgs where
  worker := asciiWorker
  source := { name := "docs" }
  settings := { excStr := fun _ => "error" }

/-- `_clone` could not reach the repository. -/
def cloneFailed : Except FetchError FetchResult :=
  .error (.raised (.exception (.runtimeError "git clone failed for source 'docs': timeout")))

/-- A failed clone leaves the row at `running`. -/
theorem clone_failure_orphans :
    ¬ ∃ status, Db.status (runSource docsRun cloneFailed (Session.begin {})).2.durable 0 =
      some status ∧ status ≠ .running := by
  intro ⟨status, h, hne⟩
  have hrun : Db.status (runSource docsRun cloneFailed (Session.begin {})).2.durable 0 =
      some .running := rfl
  rw [hrun] at h
  exact hne (Option.some.inj h).symm

/-- A breached cap does not. -/
theorem run_terminal_iff_capped :
    (∃ status, Db.status (runSource docsRun (.error (.capExceeded "file count 501 > cap 500"))
      (Session.begin {})).2.durable 0 = some status ∧ status ≠ .running) ↔
      Ends docsRun {} (.error (.capExceeded "file count 501 > cap 500")) :=
  run_terminal_iff docsRun _ {} _ 0 db_owned_empty rfl

end KnowledgeKiln.L1.Pipeline
