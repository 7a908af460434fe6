import KnowledgeKiln.L1Ingest.KnowledgeBase

/-!
# The file loop of a run

The loop processes the fetched files one after the other, and no exception is
caught inside it: one file `_process_file` raises on ends the run.

* `processFiles_view`, `processFiles_ok_iff`: the loop is `KnowledgeBase.processAll`, and
  returns when every file is accepted at its turn (`KnowledgeBase.AcceptsAll`).
* `processFiles_summary`: what the loop records.
* `bad_file_isolated_iff`: over distinct paths, the loop goes through and keeps the
  files apart exactly when every file is accepted.
-/
namespace KnowledgeKiln.L1.FileProcessing

open KnowledgeKiln.Core KnowledgeKiln.L1.Chunking

/-! ## The loop on a knowledge base -/

def KnowledgeBase.processAll (w : Worker) (filters : ContentFilters) (source : Source)
    (kb : KnowledgeBase) (files : List FetchedFile) : KnowledgeBase :=
  files.foldl (KnowledgeBase.process w filters source) kb

/-- Every file is accepted when its turn comes. -/
def KnowledgeBase.AcceptsAll (w : Worker) (filters : ContentFilters) (source : Source)
    (kb : KnowledgeBase) : List FetchedFile → Prop
  | [] => True
  | file :: files =>
    (kb (documentKey source file)).Accepts w filters source file ∧
      KnowledgeBase.AcceptsAll w filters source (kb.process w filters source file) files

section
variable {w : Worker} {filters : ContentFilters} {source : Source} {file : FetchedFile}
  {key : Str × Str}

theorem documentKey_ne {f g : FetchedFile} (h : f.path ≠ g.path) :
    documentKey source f ≠ documentKey source g := fun he => h (Prod.mk.inj he).2

theorem process_self (kb : KnowledgeBase) :
    kb.process w filters source file (documentKey source file) =
      (kb (documentKey source file)).process w filters source file :=
  Function.update_self _ _ _

theorem process_of_ne (kb : KnowledgeBase) (h : key ≠ documentKey source file) :
    kb.process w filters source file key = kb key := Function.update_of_ne h _ _

/-- The loop leaves the entries of other files alone. -/
theorem processAll_of_not_mem : ∀ {files : List FetchedFile} (kb : KnowledgeBase),
    (∀ f ∈ files, key ≠ documentKey source f) → kb.processAll w filters source files key = kb key
  | [], kb, _ => rfl
  | f :: files, kb, h => by
    obtain ⟨hf, hfiles⟩ := List.forall_mem_cons.mp h
    have ih := processAll_of_not_mem (kb.process w filters source f) hfiles
    exact ih.trans (process_of_ne kb hf)

/-- The loop does to a file's entry what the file does. -/
theorem processAll_of_mem : ∀ {files : List FetchedFile} (kb : KnowledgeBase),
    (files.map (·.path)).Nodup → file ∈ files →
    kb.processAll w filters source files (documentKey source file) =
      (kb (documentKey source file)).process w filters source file
  | f :: files, kb, hn, hm => by
    rw [List.map_cons, List.nodup_cons] at hn
    change (kb.process w filters source f).processAll w filters source files _ = _
    rcases List.mem_cons.mp hm with rfl | hm
    · rw [processAll_of_not_mem, process_self]
      intro g hg
      refine documentKey_ne fun he => hn.1 ?_
      rw [he]
      exact List.mem_map_of_mem hg
    · have hne : file.path ≠ f.path := fun he => hn.1 (he ▸ List.mem_map_of_mem hm)
      rw [processAll_of_mem _ hn.2 hm, process_of_ne kb (documentKey_ne hne)]

/-- Over distinct paths, a file finds the entry it would find first. -/
theorem acceptsAll_iff : ∀ {files : List FetchedFile} (kb : KnowledgeBase),
    (files.map (·.path)).Nodup → (kb.AcceptsAll w filters source files ↔
      ∀ f ∈ files, (kb (documentKey source f)).Accepts w filters source f)
  | [], kb, _ => by simp [KnowledgeBase.AcceptsAll]
  | f :: files, kb, hn => by
    rw [List.map_cons, List.nodup_cons] at hn
    rw [KnowledgeBase.AcceptsAll, acceptsAll_iff _ hn.2, List.forall_mem_cons]
    refine and_congr_right fun _ => forall₂_congr fun g hg => ?_
    have hne : g.path ≠ f.path := fun he => hn.1 (he ▸ List.mem_map_of_mem hg)
    rw [process_of_ne kb (documentKey_ne hne)]

end

/-! ## The loop on the store -/

section
variable {w : Worker} {filters : ContentFilters} {source : Source}

theorem processFiles_owned : ∀ {files : List FetchedFile} {p q : Progress}, p.store.Owned →
    processFiles w filters source p files = .ok q → q.store.Owned
  | [], p, q, ho, h => by
    cases h
    exact ho
  | file :: files, p, q, ho, h => by
    obtain ⟨p', hp, h⟩ := Py.bind_ok.mp h
    exact processFiles_owned (processFile_owned ho hp) h

theorem processFiles_view : ∀ {files : List FetchedFile} {p q : Progress}, p.store.Owned →
    processFiles w filters source p files = .ok q →
    q.store.view = p.store.view.processAll w filters source files
  | [], p, q, ho, h => by
    cases h
    rfl
  | file :: files, p, q, ho, h => by
    obtain ⟨p', hp, h⟩ := Py.bind_ok.mp h
    rw [processFiles_view (processFile_owned ho hp) h, processFile_view ho hp]
    rfl

theorem processFiles_ok_iff : ∀ {files : List FetchedFile} {p : Progress}, p.store.Owned →
    ((∃ q, processFiles w filters source p files = .ok q) ↔
      p.store.view.AcceptsAll w filters source files)
  | [], p, ho => by simp [processFiles, KnowledgeBase.AcceptsAll]
  | file :: files, p, ho => by
    rw [KnowledgeBase.AcceptsAll, ← processFile_ok_iff ho]
    constructor
    · rintro ⟨q, h⟩
      obtain ⟨p', hp, h⟩ := Py.bind_ok.mp h
      refine ⟨⟨p', hp⟩, ?_⟩
      rw [← processFile_view ho hp, ← processFiles_ok_iff (processFile_owned ho hp)]
      exact ⟨q, h⟩
    · rintro ⟨⟨p', hp⟩, h⟩
      rw [← processFile_view ho hp, ← processFiles_ok_iff (processFile_owned ho hp)] at h
      obtain ⟨q, h⟩ := h
      exact ⟨q, Py.bind_ok.mpr ⟨p', hp, h⟩⟩

end

/-! ## What the loop records -/

/-- The errors `_process_file` records about a file it skips. -/
def fileErrors (w : Worker) (file : FetchedFile) : List Str :=
  match w.decodeUtf8 file.content with
  | .error exc => [file.path ++ ": not utf-8: " ++ exc]
  | .ok text =>
    match parseDocument w text defaultMaxTokens with
    | .error (.frontmatterTooLarge exc) => [file.path ++ ": frontmatter too large: " ++ exc]
    | _ => []

/-- The warnings it records about a file without chunks. -/
def fileWarnings (w : Worker) (file : FetchedFile) : List Str :=
  match w.decodeUtf8 file.content with
  | .error _ => []
  | .ok text =>
    match parseDocument w text defaultMaxTokens with
    | .ok parsed =>
      if parsed.chunks = [] then [file.path ++ ": no chunks (empty or parse error)"] else []
    | .error _ => []

/-- The file-level part of a summary. -/
structure Summary.After (s s' : Summary) (indexed skipped : Nat) (errors warnings : List Str) :
    Prop where
  indexed : s'.filesIndexed = s.filesIndexed + indexed
  skipped : s'.filesSkipped = s.filesSkipped + skipped
  errors : s'.errors = s.errors ++ errors
  warnings : s'.warnings = s.warnings ++ warnings

theorem Summary.After.refl (s : Summary) : s.After s 0 0 [] [] :=
  ⟨rfl, rfl, by simp, by simp⟩

theorem Summary.After.trans {s s' s'' : Summary} {i i' k k' : Nat} {e e' v v' : List Str}
    (h : s.After s' i k e v) (h' : s'.After s'' i' k' e' v') :
    s.After s'' (i + i') (k + k') (e ++ e') (v ++ v') where
  indexed := by rw [h'.indexed, h.indexed, Nat.add_assoc]
  skipped := by rw [h'.skipped, h.skipped, Nat.add_assoc]
  errors := by rw [h'.errors, h.errors, List.append_assoc]
  warnings := by rw [h'.warnings, h.warnings, List.append_assoc]

section
variable {w : Worker} {filters : ContentFilters} {source : Source}

/-- Writing chunks counts chunks. -/
theorem writeChunks_summary {documentId : Uuid} {existing : List (Nat × Uuid × Str)} :
    ∀ {chunks : List Chunk} {p q : Progress},
      writeChunks filters documentId existing p chunks = .ok q →
      p.summary.After q.summary 0 0 [] []
  | [], p, q, h => by
    cases h
    exact Summary.After.refl _
  | chunk :: chunks, p, q, h => by
    unfold writeChunks at h
    by_cases hu : unchanged existing chunk = true
    · rw [if_pos hu] at h
      have hw := writeChunks_summary h
      exact ⟨hw.indexed, hw.skipped, hw.errors, hw.warnings⟩
    · rw [if_neg hu] at h
      obtain ⟨p', hp, h⟩ := Py.bind_ok.mp h
      unfold upsertChunk at hp
      dsimp only at hp
      split at hp
      · simp at hp
      · cases hp
        have hw := writeChunks_summary h
        exact ⟨hw.indexed, hw.skipped, hw.errors, hw.warnings⟩

/-- A file is recorded once: as indexed, or as skipped. -/
theorem processFile_summary {file : FetchedFile} {p q : Progress}
    (h : processFile w filters source p file = .ok q) :
    p.summary.After q.summary (indexable w file).isSome.toNat (indexable w file).isNone.toNat
      (fileErrors w file) (fileWarnings w file) := by
  unfold processFile at h
  unfold indexable fileErrors fileWarnings
  cases hd : w.decodeUtf8 file.content with
  | error exc =>
    rw [hd] at h
    cases h
    exact ⟨rfl, rfl, rfl, by simp [Summary.skip]⟩
  | ok text =>
    simp only [hd] at h ⊢
    cases hp : parseDocument w text defaultMaxTokens with
    | error exc =>
      rw [hp] at h
      cases exc <;> cases h
      exact ⟨rfl, rfl, rfl, by simp [Summary.skip]⟩
    | ok parsed =>
      simp only [hp] at h ⊢
      by_cases hc : parsed.chunks = []
      · rw [if_pos hc] at h ⊢
        cases h
        exact ⟨rfl, rfl, by simp, by simp [hc]⟩
      · rw [if_neg hc] at h ⊢
        obtain ⟨row, -, h⟩ := Py.bind_ok.mp h
        obtain ⟨_, -, h⟩ := Py.bind_ok.mp h
        obtain ⟨p', hw, h⟩ := Py.bind_ok.mp h
        rw [Py.pure_ok] at h
        subst h
        have hs := writeChunks_summary hw
        exact ⟨by simp [hs.indexed], by simp [hs.skipped], by simp [hs.errors],
          by simp [hs.warnings, hc]⟩

theorem processFiles_summary : ∀ {files : List FetchedFile} {p q : Progress},
    processFiles w filters source p files = .ok q →
    p.summary.After q.summary (files.countP fun f => (indexable w f).isSome)
      (files.countP fun f => (indexable w f).isNone) (files.flatMap (fileErrors w))
      (files.flatMap (fileWarnings w))
  | [], p, q, h => by
    cases h
    exact Summary.After.refl _
  | file :: files, p, q, h => by
    obtain ⟨p', hp, h⟩ := Py.bind_ok.mp h
    have hall := (processFile_summary hp).trans (processFiles_summary h)
    rw [List.countP_cons, List.countP_cons, List.flatMap_cons, List.flatMap_cons]
    cases hi : indexable w file with
    | none => simpa [hi, Nat.add_comm] using hall
    | some parsed => simpa [hi, Nat.add_comm] using hall

end

/-! ## Bad files -/

/-- The loop goes through, records every file as indexed or skipped, and stores under every
other key what it stores without the file. -/
def Isolated (w : Worker) (filters : ContentFilters) (source : Source) (p : Progress)
    (files : List FetchedFile) : Prop :=
  ∃ q, processFiles w filters source p files = .ok q ∧
    q.summary.filesIndexed + q.summary.filesSkipped =
      p.summary.filesIndexed + p.summary.filesSkipped + files.length ∧
    ∀ before file after, files = before ++ file :: after →
      ∃ q', processFiles w filters source p (before ++ after) = .ok q' ∧
        ∀ key ≠ documentKey source file, q.store.view key = q'.store.view key

section
variable {w : Worker} {filters : ContentFilters} {source : Source}

theorem countP_indexable (w : Worker) (files : List FetchedFile) :
    (files.countP fun f => (indexable w f).isSome) +
      (files.countP fun f => (indexable w f).isNone) = files.length := by
  rw [List.length_eq_countP_add_countP fun f => (indexable w f).isSome]
  congr 1
  refine List.countP_congr fun f _ => ?_
  simp

/-- Removing a file from the list changes no entry but its own. -/
theorem processAll_remove {before after : List FetchedFile} {file : FetchedFile}
    (kb : KnowledgeBase) (hn : ((before ++ file :: after).map (·.path)).Nodup) {key : Str × Str}
    (hk : key ≠ documentKey source file) :
    kb.processAll w filters source (before ++ file :: after) key =
      kb.processAll w filters source (before ++ after) key := by
  have hsub : (before ++ after).Sublist (before ++ file :: after) :=
    (List.Sublist.refl before).append (List.sublist_cons_self file after)
  by_cases hm : ∃ g ∈ before ++ after, key = documentKey source g
  · obtain ⟨g, hg, rfl⟩ := hm
    rw [processAll_of_mem kb hn (hsub.subset hg),
      processAll_of_mem kb (hn.sublist (hsub.map _)) hg]
  · have hne : ∀ g ∈ before ++ after, key ≠ documentKey source g :=
      fun g hg he => hm ⟨g, hg, he⟩
    rw [processAll_of_not_mem kb hne, processAll_of_not_mem kb]
    intro g hg
    rcases List.mem_append.mp hg with hg | hg
    · exact hne g (List.mem_append_left _ hg)
    · rcases List.mem_cons.mp hg with rfl | hg
      · exact hk
      · exact hne g (List.mem_append_right _ hg)

end

/-- **Isolation.** On a store that keeps the foreign key of its chunks, and over distinct paths:
the loop goes through and keeps the files apart exactly when each file is accepted, that is, when
it does not decode, its frontmatter is too large, it has no chunk, or it parses, and the columns
of its document and of its changed chunks are ones the database takes. -/
theorem bad_file_isolated_iff (w : Worker) (filters : ContentFilters) (source : Source)
    (p : Progress) (files : List FetchedFile) (ho : p.store.Owned)
    (hn : (files.map (·.path)).Nodup) :
    Isolated w filters source p files ↔
      ∀ file ∈ files, (p.store.view (documentKey source file)).Accepts w filters source file := by
  constructor
  · intro ⟨q, h, _⟩
    exact (acceptsAll_iff _ hn).mp ((processFiles_ok_iff ho).mp ⟨q, h⟩)
  · intro h
    obtain ⟨q, hq⟩ := (processFiles_ok_iff ho).mpr ((acceptsAll_iff _ hn).mpr h)
    refine ⟨q, hq, ?_, fun before file after he => ?_⟩
    · have hs := processFiles_summary hq
      have hc := countP_indexable w files
      rw [hs.indexed, hs.skipped]
      omega
    · subst he
      have hsub : (before ++ after).Sublist (before ++ file :: after) :=
        (List.Sublist.refl before).append (List.sublist_cons_self file after)
      obtain ⟨q', hq'⟩ := (processFiles_ok_iff ho).mpr
        ((acceptsAll_iff _ (hn.sublist (hsub.map _))).mpr fun f hf => h f (hsub.subset hf))
      refine ⟨q', hq', fun key hk => ?_⟩
      rw [processFiles_view ho hq, processFiles_view ho hq']
      exact processAll_remove _ hn hk

/-- A tokenizer that refuses a special-token literal, as `tiktoken` does. -/
def tiktokenWorker : Worker :=
  { asciiWorker with
    countTokens := fun s =>
      if contains s "<|endoftext|>" then
        throw (.valueError "Encountered text corresponding to disallowed special token")
      else .ok s.length }

def specialTokenFile : FetchedFile :=
  { path := "tokens.md", content := asciiBytes "the token <|endoftext|>\n" }

def plainFile : FetchedFile := { path := "plain.md", content := asciiBytes "text\n" }

/-- A page that names the token ends the run, and the page behind it is not stored. -/
theorem special_token_aborts :
    ¬ Isolated tiktokenWorker {} { name := "docs" } {} [specialTokenFile, plainFile] := by
  intro ⟨q, h, _⟩
  have hraise : (processFiles tiktokenWorker {} { name := "docs" } {}
      [specialTokenFile, plainFile]).isOk = false := by decide +kernel
  rw [h] at hraise
  cases hraise

/-- Bytes that are no UTF-8 do not. -/
theorem bad_file_isolated_iff_binary :
    Isolated tiktokenWorker {} { name := "docs" } {}
        [{ path := "logo.md", content := [0xff] }, plainFile] ↔
      ∀ file ∈ [{ path := "logo.md", content := [0xff] }, plainFile],
        (Store.view {} (documentKey { name := "docs" } file)).Accepts tiktokenWorker {}
          { name := "docs" } file :=
  bad_file_isolated_iff tiktokenWorker {} { name := "docs" } {} _ owned_empty (by decide)

end KnowledgeKiln.L1.FileProcessing
