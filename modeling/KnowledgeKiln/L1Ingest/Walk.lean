import KnowledgeKiln.Core.FileTree
import KnowledgeKiln.L1Ingest.HttpConnector

/-!
# The walk over a source directory (ingestion/connectors.py)

`_walk` reads every path below the root in sorted order. A path that is no file is
passed over, a file that one of six checks refuses is recorded with the reason, and
a file that passes them counts towards two running totals, which end the walk when
they breach a cap. Files stay as they are during the walk, and can be read.

* `loop_spec`: the loop returns iff the files that pass the checks keep the caps.
* `walk_confined`: each file below the root is returned or recorded, once; what is
  returned passes the checks; the caps decide whether there is a result.
* `empty_source_ignores_caps`: a source without such files is returned under a
  negative cap.
-/
namespace KnowledgeKiln.L1.Walk

open KnowledgeKiln.Core KnowledgeKiln.Core.FileTree KnowledgeKiln.L1.FileProcessing
  KnowledgeKiln.L1.Pipeline KnowledgeKiln.L1.Http

/-! ## Checks of one file -/

/-- connectors.py:54 -/
def supportedSuffixes : List Str := [".md", ".markdown"]

/-- connectors.py:60-72 -/
def dotfileDeny : List Str :=
  [".git", ".github", ".env", ".envrc", ".venv", "node_modules", ".pytest_cache", ".mypy_cache",
    ".ruff_cache", ".idea", ".vscode"]

/-- Mirrors `_is_denied_by_default` (connectors.py:75-81). -/
def isDeniedByDefault (relPath : Str) : Bool :=
  (partition relPath '/').1 ∈ dotfileDeny ||
    (relPath.splitOn '/').any fun seg => startsWith seg "." && seg ∉ [".".toList, "..".toList]

/-- `path.suffix`, from the last segment of the path. -/
def suffix (name : Str) : Str :=
  let ext := (name.reverse.takeWhile (· != '.')).reverse
  let stem := (name.reverse.dropWhile (· != '.')).drop 1
  if stem ≠ [] ∧ ext ≠ [] then '.' :: ext else []

/-- `Path(match).as_posix()` of a match of `glob`. -/
def matchPosix (pat : Str) : Str :=
  let root : Str :=
    if startsWith pat "//" && !startsWith pat "///" then "//"
    else if startsWith pat "/" then "/" else ""
  let rel := posix ((pat.splitOn '/').filter fun seg => seg ≠ [] ∧ seg ≠ ".")
  if root ++ rel = [] then "." else root ++ rel

/-- Mirrors `_expand_globs` (connectors.py:130-141) over `glob.glob(pat, root_dir=root)`. -/
def expandGlobs (glob : Str → List Str) (patterns : List Str) : List Str :=
  patterns.flatMap fun pat => (glob pat).map matchPosix

/-- The fields of a source that `_walk` reads (sources.py). -/
structure Source where
  name : Str
  includes : List Str := []
  excludes : List Str := []

/-- What `_walk` is called with, and what it finds around it. -/
structure WalkArgs where
  /-- The absolute parts of `root`. -/
  root : List Str
  source : Source
  caps : IngestionCaps
  commitSha : Option Str := none
  fs : FileSystem
  /-- `glob.glob(pat, root_dir=root, recursive=True)` -/
  glob : Str → List Str
  /-- The printable characters outside ASCII. -/
  isPrintable : Char → Bool := fun _ => true

/-- connectors.py:103-109 -/
structure SkippedWithDetail extends SkippedFile where
  detail : Str

/-- The `FetchResult` of a walk. -/
structure Walked where
  files : List FetchedFile := []
  skipped : List SkippedWithDetail := []
  commitSha : Option Str := none

namespace WalkArgs
variable (a : WalkArgs)

def includeSet : List Str :=
  expandGlobs a.glob (if a.source.includes = [] then ["**/*".toList] else a.source.includes)

def excludeSet : List Str := expandGlobs a.glob a.source.excludes

/-- `root.resolve()`; below a root that does not exist there is no path to compare with it. -/
def rootResolved : List Str := (a.fs.resolve a.root).getD a.root

/-- The checks of one file, in their order (connectors.py:165-190); `none` passes them all. -/
def refusal (path : List Str) (size : Nat) : Option SkippedWithDetail :=
  let rel := posix path
  let ext := suffix (path.getLastD [])
  let skip (reason : SkipReason) (detail : Str) : Option SkippedWithDetail :=
    some { path := rel, reason := reason, detail := detail }
  if !(a.fs.resolve (a.root ++ path)).any (a.rootResolved.isPrefixOf ·) then
    skip .symlinkEscape "symlink target outside source root"
  else if isDeniedByDefault rel then
    skip .excludedByPattern "dotfile / vendored-tree default-deny"
  else if rel ∉ a.includeSet then skip .excludedByPattern "not in include glob"
  else if rel ∈ a.excludeSet then skip .excludedByPattern "matched exclude glob"
  else if lower ext ∉ supportedSuffixes then
    skip .unsupportedFileType (if ext = [] then "(no suffix)" else ext)
  else if a.caps.maxFileBytes < size then
    skip .tooLarge (natStr size ++ " > " ++ intStr a.caps.maxFileBytes)
  else none

/-- The loop of `_walk` (connectors.py:157-210). -/
def loop : List (List Str) → Nat → Nat → Walked → Except FetchError Walked
  | [], _, _, result => .ok result
  | path :: paths, totalBytes, fileCount, result =>
    match a.fs.readBytes (a.root ++ path) with
    | none => loop paths totalBytes fileCount result
    | some content =>
      match a.refusal path content.length with
      | some skipped =>
        loop paths totalBytes fileCount { result with skipped := result.skipped ++ [skipped] }
      | none =>
        let totalBytes := totalBytes + content.length
        if a.caps.maxRepoBytes < totalBytes then
          .error <| .capExceeded <| "source ".toList ++ strRepr a.isPrintable a.source.name ++
            " total size " ++ natStr totalBytes ++ " > cap " ++ intStr a.caps.maxRepoBytes ++
            "; aborting before indexing"
        else
          let fileCount := fileCount + 1
          if a.caps.maxFiles < fileCount then
            .error <| .capExceeded <| "source ".toList ++ strRepr a.isPrintable a.source.name ++
              " file count " ++ natStr fileCount ++ " > cap " ++ intStr a.caps.maxFiles ++
              "; aborting before indexing"
          else
            loop paths totalBytes fileCount
              { result with
                files := result.files ++
                  [{ path := posix path, content := content, commitSha := a.commitSha }] }

end WalkArgs

/-- Mirrors `_walk` (connectors.py:144-211). -/
def walk (a : WalkArgs) : Except FetchError Walked :=
  a.loop ((a.fs.listdir a.root).rglob.insertionSort (· ≤ ·)) 0 0 { commitSha := a.commitSha }

/-! ## What the checks ask of a file -/

/-- The file at `path` may be returned. -/
structure Eligible (a : WalkArgs) (path : List Str) (size : Nat) : Prop where
  confined : ∃ place, a.fs.resolve (a.root ++ path) = some place ∧ a.rootResolved <+: place
  allowed : isDeniedByDefault (posix path) = false
  included : posix path ∈ a.includeSet
  notExcluded : posix path ∉ a.excludeSet
  supported : lower (suffix (path.getLastD [])) ∈ supportedSuffixes
  small : size ≤ a.caps.maxFileBytes

section
variable {a : WalkArgs} {path : List Str} {size : Nat}

theorem refusal_eq_none : a.refusal path size = none ↔ Eligible a path size := by
  have hconfined : (a.fs.resolve (a.root ++ path)).any (a.rootResolved.isPrefixOf ·) = true ↔
      ∃ place, a.fs.resolve (a.root ++ path) = some place ∧ a.rootResolved <+: place := by
    simp [Option.any_eq_true]
  unfold WalkArgs.refusal
  constructor
  · intro h
    dsimp only at h
    split_ifs at h with h₁ h₂ h₃ h₄ h₅ h₆
    exact ⟨hconfined.mp (by simpa using h₁), by simpa using h₂, by simpa using h₃, h₄,
      by simpa using h₅, not_lt.mp h₆⟩
  · rintro ⟨h₁, h₂, h₃, h₄, h₅, h₆⟩
    simp only [hconfined.mpr h₁, h₂, h₃, h₄, h₅, not_lt.mpr h₆, Bool.not_true, Bool.false_eq_true,
      not_true, if_false]

theorem refusal_path {skipped : SkippedWithDetail} (h : a.refusal path size = some skipped) :
    skipped.path = posix path := by
  unfold WalkArgs.refusal at h
  dsimp only at h
  split_ifs at h <;> cases h <;> rfl

instance : Decidable (Eligible a path size) :=
  decidable_of_iff (a.refusal path size = none) refusal_eq_none

end

/-- The file at `path`, if it may be returned. -/
def WalkArgs.fetched (a : WalkArgs) (path : List Str) : Option FetchedFile :=
  (a.fs.readBytes (a.root ++ path)).bind fun content =>
    if Eligible a path content.length then
      some { path := posix path, content := content, commitSha := a.commitSha }
    else none

/-- The record of the file at `path`, if a check refuses it. -/
def WalkArgs.recorded (a : WalkArgs) (path : List Str) : Option SkippedWithDetail :=
  (a.fs.readBytes (a.root ++ path)).bind fun content => a.refusal path content.length

/-- A path is no file, is returned or is recorded. -/
inductive Screened (a : WalkArgs) (path : List Str) : Prop
  | noFile (hread : a.fs.readBytes (a.root ++ path) = none) (hf : a.fetched path = none)
      (hr : a.recorded path = none)
  | fetched (content : List UInt8) (hread : a.fs.readBytes (a.root ++ path) = some content)
      (hpass : a.refusal path content.length = none)
      (hf : a.fetched path =
        some { path := posix path, content := content, commitSha := a.commitSha })
      (hr : a.recorded path = none)
  | recorded (content : List UInt8) (skipped : SkippedWithDetail)
      (hread : a.fs.readBytes (a.root ++ path) = some content)
      (hpass : a.refusal path content.length = some skipped) (hf : a.fetched path = none)
      (hr : a.recorded path = some skipped)

theorem screened (a : WalkArgs) (path : List Str) : Screened a path := by
  rcases hread : a.fs.readBytes (a.root ++ path) with _ | content
  · exact .noFile hread (by simp [WalkArgs.fetched, hread]) (by simp [WalkArgs.recorded, hread])
  · rcases hpass : a.refusal path content.length with _ | skipped
    · have heligible := refusal_eq_none.mp hpass
      exact .fetched content hread hpass (by simp [WalkArgs.fetched, hread, heligible])
        (by simp [WalkArgs.recorded, hread, hpass])
    · have hnot : ¬Eligible a path content.length := by
        rw [← refusal_eq_none, hpass]
        simp
      exact .recorded content skipped hread hpass (by simp [WalkArgs.fetched, hread, hnot])
        (by simp [WalkArgs.recorded, hread, hpass])

/-! ## The loop -/

def totalSize (files : List FetchedFile) : Nat := (files.map fun file => file.content.length).sum

/-- The two totals stay within their caps; no file, no comparison. -/
def KeepsCaps (caps : IngestionCaps) (totalBytes fileCount : Nat) (files : List FetchedFile) :
    Prop :=
  files ≠ [] → ((totalBytes + totalSize files : Nat) : Int) ≤ caps.maxRepoBytes ∧
    ((fileCount + files.length : Nat) : Int) ≤ caps.maxFiles

theorem keepsCaps_cons {caps : IngestionCaps} {totalBytes fileCount : Nat} {file : FetchedFile}
    {files : List FetchedFile} :
    KeepsCaps caps totalBytes fileCount (file :: files) ↔
      ((totalBytes + file.content.length : Nat) : Int) ≤ caps.maxRepoBytes ∧
        ((fileCount + 1 : Nat) : Int) ≤ caps.maxFiles ∧
        KeepsCaps caps (totalBytes + file.content.length) (fileCount + 1) files := by
  unfold KeepsCaps totalSize
  cases files with
  | nil => simp
  | cons next files =>
    simp only [ne_eq, reduceCtorEq, not_false_eq_true, true_imp_iff, List.map_cons, List.sum_cons,
      List.length_cons]
    omega

/-- The loop returns what the checks say of each path, or the files breach a cap. -/
theorem loop_spec (a : WalkArgs) : ∀ (paths : List (List Str)) (totalBytes fileCount : Nat)
    (result : Walked),
    (KeepsCaps a.caps totalBytes fileCount (paths.filterMap a.fetched) ∧
      a.loop paths totalBytes fileCount result = .ok
        { files := result.files ++ paths.filterMap a.fetched
          skipped := result.skipped ++ paths.filterMap a.recorded
          commitSha := result.commitSha }) ∨
    (¬KeepsCaps a.caps totalBytes fileCount (paths.filterMap a.fetched) ∧
      ∃ msg, a.loop paths totalBytes fileCount result = .error (.capExceeded msg))
  | [], _, _, result => by
    left
    simp [KeepsCaps, WalkArgs.loop]
  | path :: paths, totalBytes, fileCount, result => by
    cases screened a path with
    | noFile hread hf hr =>
      have ih := loop_spec a paths totalBytes fileCount result
      simpa only [List.filterMap_cons, hf, hr, WalkArgs.loop, hread] using ih
    | recorded content skipped hread hpass hf hr =>
      have ih := loop_spec a paths totalBytes fileCount
        { result with skipped := result.skipped ++ [skipped] }
      simpa only [List.filterMap_cons, hf, hr, WalkArgs.loop, hread, hpass, List.append_assoc,
        List.singleton_append] using ih
    | fetched content hread hpass hf hr =>
      simp only [List.filterMap_cons, hf, hr, keepsCaps_cons, WalkArgs.loop, hread, hpass]
      by_cases hbytes : a.caps.maxRepoBytes < ((totalBytes + content.length : Nat) : Int)
      · right
        rw [if_pos hbytes]
        exact ⟨fun h => absurd h.1 (not_le.mpr hbytes), _, rfl⟩
      · by_cases hcount : a.caps.maxFiles < ((fileCount + 1 : Nat) : Int)
        · right
          rw [if_neg hbytes, if_pos hcount]
          exact ⟨fun h => absurd h.2.1 (not_le.mpr hcount), _, rfl⟩
        · have ih := loop_spec a paths (totalBytes + content.length) (fileCount + 1)
            { result with
              files := result.files ++
                [{ path := posix path, content := content, commitSha := a.commitSha }] }
          rw [if_neg hbytes, if_neg hcount]
          simpa only [not_lt.mp hbytes, not_lt.mp hcount, true_and, List.append_assoc,
            List.singleton_append] using ih

/-- Each file among the paths is returned or recorded. -/
theorem screened_perm (a : WalkArgs) : ∀ paths : List (List Str),
    ((paths.filterMap a.fetched).map (·.path) ++ (paths.filterMap a.recorded).map (·.path)).Perm
      ((paths.filter fun path => (a.fs.readBytes (a.root ++ path)).isSome).map posix)
  | [] => .refl _
  | path :: paths => by
    have ih := screened_perm a paths
    cases screened a path with
    | noFile hread hf hr => simpa [hread, hf, hr] using ih
    | fetched content hread hpass hf hr => simpa [hread, hf, hr] using ih
    | recorded content skipped hread hpass hf hr =>
      have hpath := refusal_path hpass
      simpa [hread, hf, hr, hpath] using List.perm_middle.trans (ih.cons _)

/-! ## The walk -/

/-- `path` leads from the root, through directories only, to a file or to a link to one. -/
def Found (a : WalkArgs) (path : List Str) : Prop :=
  path ≠ [] ∧ ((a.fs.listdir a.root).find path).isSome ∧ (a.fs.readBytes (a.root ++ path)).isSome

def filesBelow (a : WalkArgs) : List (List Str) :=
  (a.fs.listdir a.root).rglob.filter fun path => (a.fs.readBytes (a.root ++ path)).isSome

/-- The files below the root that pass the checks. -/
def eligibleFiles (a : WalkArgs) : List FetchedFile :=
  (a.fs.listdir a.root).rglob.filterMap a.fetched

section
variable {a : WalkArgs} {r : Walked}

theorem mem_filesBelow {path : List Str} : path ∈ filesBelow a ↔ Found a path := by
  rw [filesBelow, List.mem_filter, Dir.mem_rglob (a.fs.listdir_valid a.root), Found, and_assoc]

theorem filesBelow_nodup : ((filesBelow a).map posix).Nodup :=
  (rglob_posix_nodup (a.fs.listdir_valid a.root)).sublist (List.filter_sublist.map posix)

theorem fetched_eq_some {path : List Str} {file : FetchedFile} (h : a.fetched path = some file) :
    file.path = posix path ∧ a.fs.readBytes (a.root ++ path) = some file.content ∧
      Eligible a path file.content.length := by
  obtain ⟨content, hread, hf⟩ := Option.bind_eq_some_iff.mp h
  split_ifs at hf with heligible
  cases hf
  exact ⟨rfl, hread, heligible⟩

theorem keepsCaps_perm {caps : IngestionCaps} {files files' : List FetchedFile}
    (h : files.Perm files') : KeepsCaps caps 0 0 files ↔ KeepsCaps caps 0 0 files' := by
  have hsize : totalSize files = totalSize files' := (h.map _).sum_eq
  have hnil : files = [] ↔ files' = [] := by
    rw [← List.length_eq_zero_iff, h.length_eq, List.length_eq_zero_iff]
  simp only [KeepsCaps, hsize, h.length_eq, ne_eq, hnil]

theorem walk_spec (a : WalkArgs) :
    (KeepsCaps a.caps 0 0 (eligibleFiles a) ∧ ∃ r, walk a = .ok r ∧
      r.files.Perm (eligibleFiles a) ∧
      (r.files.map (·.path) ++ r.skipped.map (·.path)).Perm ((filesBelow a).map posix)) ∨
    (¬KeepsCaps a.caps 0 0 (eligibleFiles a) ∧ ∃ msg, walk a = .error (.capExceeded msg)) := by
  have hsorted := List.perm_insertionSort (· ≤ ·) (a.fs.listdir a.root).rglob
  have hfiles := hsorted.filterMap a.fetched
  rcases loop_spec a ((a.fs.listdir a.root).rglob.insertionSort (· ≤ ·)) 0 0
    { commitSha := a.commitSha } with ⟨hcaps, hok⟩ | ⟨hcaps, herr⟩
  · refine .inl ⟨(keepsCaps_perm hfiles).mp hcaps, _, hok, hfiles, ?_⟩
    exact (screened_perm a _).trans ((hsorted.filter _).map posix)
  · exact .inr ⟨mt (keepsCaps_perm hfiles).mpr hcaps, herr⟩

theorem walk_ok (h : walk a = .ok r) :
    KeepsCaps a.caps 0 0 r.files ∧ r.files.Perm (eligibleFiles a) ∧
      (r.files.map (·.path) ++ r.skipped.map (·.path)).Perm ((filesBelow a).map posix) := by
  rcases walk_spec a with ⟨hcaps, r', hok, hfiles, hpaths⟩ | ⟨-, msg, herr⟩
  · cases h.symm.trans hok
    exact ⟨(keepsCaps_perm hfiles).mpr hcaps, hfiles, hpaths⟩
  · cases h.symm.trans herr

end

/-- A walk that returns accounts for every file below the root exactly once and returns only
files that pass the checks, within both caps; it ends with the exception iff there are files
to return and they exceed a cap. -/
theorem walk_confined (a : WalkArgs) :
    (∀ r, walk a = .ok r →
      (∀ path, Found a path →
        (r.files.map (·.path) ++ r.skipped.map (·.path)).count (posix path) = 1) ∧
      (∀ rel ∈ r.files.map (·.path) ++ r.skipped.map (·.path),
        ∃ path, Found a path ∧ rel = posix path) ∧
      (∀ file ∈ r.files, ∃ path, Found a path ∧ file.path = posix path ∧
        a.fs.readBytes (a.root ++ path) = some file.content ∧
        Eligible a path file.content.length) ∧
      (r.files ≠ [] → totalSize r.files ≤ a.caps.maxRepoBytes ∧
        r.files.length ≤ a.caps.maxFiles)) ∧
    ((∃ msg, walk a = .error (.capExceeded msg)) ↔
      eligibleFiles a ≠ [] ∧ (a.caps.maxRepoBytes < totalSize (eligibleFiles a) ∨
        a.caps.maxFiles < (eligibleFiles a).length)) := by
  refine ⟨fun r h => ?_, ?_⟩
  · obtain ⟨hcaps, hfiles, hpaths⟩ := walk_ok h
    refine ⟨fun path hfound => ?_, fun rel hrel => ?_, fun file hfile => ?_, ?_⟩
    · have hmem := List.mem_map_of_mem (f := posix) (mem_filesBelow.mpr hfound)
      rw [hpaths.count_eq]
      exact List.count_eq_one_of_mem filesBelow_nodup hmem
    · obtain ⟨path, hm, rfl⟩ := List.mem_map.mp (hpaths.mem_iff.mp hrel)
      exact ⟨path, mem_filesBelow.mp hm, rfl⟩
    · obtain ⟨path, hm, hf⟩ := List.mem_filterMap.mp (hfiles.mem_iff.mp hfile)
      obtain ⟨hpath, hread, heligible⟩ := fetched_eq_some hf
      have hfound := mem_filesBelow.mp (List.mem_filter.mpr ⟨hm, by simp [hread]⟩)
      exact ⟨path, hfound, hpath, hread, heligible⟩
    · simpa [KeepsCaps] using hcaps
  · have hbreach : ¬KeepsCaps a.caps 0 0 (eligibleFiles a) ↔ eligibleFiles a ≠ [] ∧
        (a.caps.maxRepoBytes < totalSize (eligibleFiles a) ∨
          a.caps.maxFiles < (eligibleFiles a).length) := by
      simp only [KeepsCaps, Nat.zero_add, Classical.not_imp, not_and_or, not_le]
    rw [← hbreach]
    rcases walk_spec a with ⟨hcaps, r, hok, -⟩ | ⟨hcaps, herr⟩
    · simp [hcaps, hok]
    · simp [hcaps, herr]

/-- A link out of the root is recorded, not read. -/
example :
    let a : WalkArgs :=
      { root := ["docs"], source := { name := "docs" }, caps := ⟨1000, 10, 1000⟩
        fs :=
          ⟨.dir "docs" (.symlink "a.md" "../b.md" .nil) (.file "b.md" [1] .nil),
            by simp [Dir.Valid, Dir.IsName, Dir.names]⟩
        glob := fun _ => ["a.md".toList] }
    (walk a).toOption.map (fun r => (r.files.map (·.path), r.skipped.map (·.path))) =
      some ([], ["a.md".toList]) := by
  decide +kernel

/-- A source without a file to return: the loop compares nothing with a negative cap. -/
theorem empty_source_ignores_caps :
    let a : WalkArgs :=
      { root := [], source := { name := "docs" }, caps := ⟨1000, -1, -1⟩, fs := ⟨.nil, trivial⟩
        glob := fun _ => [] }
    ∃ r, walk a = .ok r ∧ ¬(totalSize r.files ≤ a.caps.maxRepoBytes) ∧
      ¬(r.files.length ≤ a.caps.maxFiles) ∧ a.caps.maxRepoBytes < totalSize (eligibleFiles a) :=
  ⟨{}, rfl, by decide, by decide, by decide⟩

/-! ## What a run makes of it -/

def Walked.toFetchResult (r : Walked) : FetchResult where
  files := r.files
  skipped := r.skipped.map (·.toSkippedFile)
  commitSha := r.commitSha

/-- The summary of a run counts each file below the root once. -/
theorem walk_filesScanned {a : WalkArgs} {r : Walked} (h : walk a = .ok r) (runId : Nat) :
    (scanned runId r.toFetchResult).filesScanned = (filesBelow a).length := by
  obtain ⟨-, -, hpaths⟩ := walk_ok h
  simpa [scanned, Walked.toFetchResult] using hpaths.length_eq

end KnowledgeKiln.L1.Walk
