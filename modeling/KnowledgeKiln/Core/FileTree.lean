import KnowledgeKiln.Core.Str

/-!
# Directory trees with symbolic links

A file system is the tree below `/`. A path is the list of its segments, from
`/` on.

* `resolve`: the place a path leads to, every link on the way followed, as the
  kernel does it and `Path.resolve(strict=True)` reports it.
* `rglob`: `root.rglob("*")`. It does not walk through links, so it lists the
  entries that `find` reaches (`mem_rglob`), each once (`rglob_nodup`).
* `posix`: `as_posix` of a relative path; two paths below one root never share it
  (`posix_injOn`).
-/
namespace KnowledgeKiln.Core.FileTree

/-- The entries of a directory, one after the other. -/
inductive Dir
  | nil
  | file (name : Str) (content : List UInt8) (rest : Dir)
  | symlink (name target : Str) (rest : Dir)
  | dir (name : Str) (entries rest : Dir)

/-- What a name stands for. -/
inductive Node
  | file (content : List UInt8)
  | symlink (target : Str)
  | dir (entries : Dir)

namespace Dir

def names : Dir → List Str
  | nil => []
  | file name _ rest => name :: rest.names
  | symlink name _ rest => name :: rest.names
  | dir name _ rest => name :: rest.names

/-- `.` and `..` are read, never stored. -/
def IsName (name : Str) : Prop := name ≠ [] ∧ name ≠ "." ∧ name ≠ ".." ∧ '/' ∉ name

/-- The entries of a directory have names of their own. -/
def Valid : Dir → Prop
  | nil => True
  | file name _ rest => IsName name ∧ name ∉ rest.names ∧ rest.Valid
  | symlink name target rest => (IsName name ∧ target ≠ []) ∧ name ∉ rest.names ∧ rest.Valid
  | dir name entries rest => (IsName name ∧ entries.Valid) ∧ name ∉ rest.names ∧ rest.Valid

def lookup (name : Str) : Dir → Option Node
  | nil => none
  | file n content rest => if n = name then some (.file content) else rest.lookup name
  | symlink n target rest => if n = name then some (.symlink target) else rest.lookup name
  | dir n entries rest => if n = name then some (.dir entries) else rest.lookup name

/-- What a path without links leads to. -/
def find : Dir → List Str → Option Node
  | entries, [] => some (.dir entries)
  | entries, name :: path =>
    match entries.lookup name with
    | none => none
    | some (.dir below) => below.find path
    | some node => if path = [] then some node else none

/-- `root.rglob("*")`, relative to `root`, in the order of the entries. -/
def rglob : Dir → List (List Str)
  | nil => []
  | file name _ rest => [name] :: rest.rglob
  | symlink name _ rest => [name] :: rest.rglob
  | dir name entries rest => [name] :: entries.rglob.map (name :: ·) ++ rest.rglob

/-- Reads a path from the directory at `here`, up to its first link, which `follow` reads. -/
def resolveFrom (follow : List Str → List Str → Option (List Str)) (top : Dir) :
    List Str → List Str → Option (List Str)
  | here, [] => some here
  | here, name :: path =>
    if name = [] ∨ name = "." then resolveFrom follow top here path
    else if name = ".." then resolveFrom follow top here.dropLast path
    else
      match top.find (here ++ [name]) with
      | none => none
      | some (.dir _) => resolveFrom follow top (here ++ [name]) path
      | some (.file _) => if path = [] then some (here ++ [name]) else none
      | some (.symlink target) =>
        follow (if startsWith target "/" then [] else here) (target.splitOn '/' ++ path)

/-- `resolveFrom` through at most `links` links. -/
def resolve (top : Dir) : Nat → List Str → List Str → Option (List Str)
  | 0 => resolveFrom (fun _ _ => none) top
  | links + 1 => resolveFrom (resolve top links) top

end Dir

structure FileSystem where
  top : Dir
  valid : top.Valid

/-- A path through more links than these is refused (`ELOOP`). -/
def maxLinks : Nat := 40

namespace FileSystem

/-- `path.resolve(strict=True)`; `none` is a `FileNotFoundError`. -/
def resolve (fs : FileSystem) (path : List Str) : Option (List Str) :=
  fs.top.resolve maxLinks [] path

/-- `path.read_bytes()`; `path.is_file()` is whether there is an answer. -/
def readBytes (fs : FileSystem) (path : List Str) : Option (List UInt8) :=
  match (fs.resolve path).bind fs.top.find with
  | some (.file content) => some content
  | _ => none

/-- The directory at a path; links are followed. -/
def listdir (fs : FileSystem) (path : List Str) : Dir :=
  match (fs.resolve path).bind fs.top.find with
  | some (.dir entries) => entries
  | _ => .nil

end FileSystem

/-- `path.as_posix()` of a relative path. -/
def posix (path : List Str) : Str := join "/" path

/-! ## What `rglob` lists -/

namespace Dir

theorem head_of_mem_rglob {path : List Str} :
    ∀ {entries : Dir}, path ∈ entries.rglob → ∃ name ∈ entries.names, ∃ below, path = name :: below
  | nil, h => by simp [rglob] at h
  | file name _ rest, h | symlink name _ rest, h => by
    rcases List.mem_cons.mp h with rfl | h
    · exact ⟨name, List.mem_cons_self, [], rfl⟩
    · obtain ⟨n, hn, below, rfl⟩ := head_of_mem_rglob h
      exact ⟨n, List.mem_cons_of_mem _ hn, below, rfl⟩
  | dir name entries rest, h => by
    rcases List.mem_append.mp h with h | h
    · rcases List.mem_cons.mp h with rfl | h
      · exact ⟨name, List.mem_cons_self, [], rfl⟩
      · obtain ⟨below, -, rfl⟩ := List.mem_map.mp h
        exact ⟨name, List.mem_cons_self, below, rfl⟩
    · obtain ⟨n, hn, below, rfl⟩ := head_of_mem_rglob h
      exact ⟨n, List.mem_cons_of_mem _ hn, below, rfl⟩

theorem not_mem_rglob {name : Str} {entries : Dir} (h : name ∉ entries.names) (path : List Str) :
    name :: path ∉ entries.rglob := by
  intro hm
  obtain ⟨n, hn, below, he⟩ := head_of_mem_rglob hm
  obtain ⟨rfl, rfl⟩ := List.cons.inj he
  exact h hn

theorem nil_not_mem_rglob (entries : Dir) : [] ∉ entries.rglob := by
  intro hm
  obtain ⟨n, -, below, he⟩ := head_of_mem_rglob hm
  cases he

/-- No path is listed twice. -/
theorem rglob_nodup : ∀ {entries : Dir}, entries.Valid → entries.rglob.Nodup
  | nil, _ => List.nodup_nil
  | file _ _ _, h | symlink _ _ _, h =>
    List.nodup_cons.mpr ⟨not_mem_rglob h.2.1 [], rglob_nodup h.2.2⟩
  | dir name entries rest, h => by
    obtain ⟨⟨-, hentries⟩, hname, hrest⟩ := h
    have hbelow : (entries.rglob.map (name :: ·)).Nodup :=
      (rglob_nodup hentries).map (List.cons_injective)
    refine List.Nodup.append (List.nodup_cons.mpr ⟨?_, hbelow⟩) (rglob_nodup hrest) ?_
    · intro hm
      obtain ⟨below, hb, he⟩ := List.mem_map.mp hm
      cases (List.cons.inj he).2
      exact nil_not_mem_rglob entries hb
    · intro path hp hr
      have hhead : ∃ below, path = name :: below := by
        rcases List.mem_cons.mp hp with rfl | hp
        · exact ⟨[], rfl⟩
        · obtain ⟨below, -, rfl⟩ := List.mem_map.mp hp
          exact ⟨below, rfl⟩
      obtain ⟨below, rfl⟩ := hhead
      exact not_mem_rglob hname below hr

/-- `rglob` lists what there is below a directory without going through a link. -/
theorem mem_rglob {path : List Str} : ∀ {entries : Dir}, entries.Valid →
    (path ∈ entries.rglob ↔ path ≠ [] ∧ (entries.find path).isSome)
  | nil, _ => by cases path <;> simp [rglob, find, lookup]
  | file name content rest, h | symlink name content rest, h => by
    have hrest := not_mem_rglob h.2.1
    cases path with
    | nil => simp [nil_not_mem_rglob]
    | cons n path =>
      by_cases hname : n = name
      · subst hname
        cases path <;> simp [rglob, find, lookup, hrest]
      · have ih := @mem_rglob (n :: path) rest h.2.2
        simpa [rglob, find, lookup, hname, Ne.symm hname] using ih
  | dir name entries rest, h => by
    have hrest := not_mem_rglob h.2.1
    cases path with
    | nil => simp [nil_not_mem_rglob]
    | cons n path =>
      by_cases hname : n = name
      · subst hname
        cases path with
        | nil => simp [rglob, find, lookup]
        | cons m path =>
          have ih := @mem_rglob (m :: path) entries h.1.2
          simp [rglob, find, lookup, hrest, ih]
      · have ih := @mem_rglob (n :: path) rest h.2.2
        simpa [rglob, find, lookup, hname, Ne.symm hname] using ih

theorem lookup_valid {name : Str} {below : Dir} :
    ∀ {entries : Dir}, entries.Valid → entries.lookup name = some (.dir below) → below.Valid
  | file n _ rest, h, hl | symlink n _ rest, h, hl => by
    unfold lookup at hl
    split at hl
    · cases hl
    · exact lookup_valid h.2.2 hl
  | dir n entries rest, h, hl => by
    unfold lookup at hl
    split at hl
    · cases hl
      exact h.1.2
    · exact lookup_valid h.2.2 hl

theorem find_valid {below : Dir} : ∀ {path : List Str} {entries : Dir}, entries.Valid →
    entries.find path = some (.dir below) → below.Valid
  | [], entries, h, hf => by
    cases hf
    exact h
  | name :: path, entries, h, hf => by
    unfold find at hf
    split at hf
    · cases hf
    · next hl => exact find_valid (lookup_valid h hl) hf
    · next hdir _ =>
      split at hf
      · exact absurd (Option.some.inj hf) (hdir below)
      · cases hf

/-- The segments of a listed path are names, so none holds a `/`. -/
theorem slash_not_mem_of_rglob {path : List Str} : ∀ {entries : Dir}, entries.Valid →
    path ∈ entries.rglob → ∀ name ∈ path, '/' ∉ name
  | file name _ rest, h, hm => by
    rcases List.mem_cons.mp hm with rfl | hm
    · simpa using h.1.2.2.2
    · exact slash_not_mem_of_rglob h.2.2 hm
  | symlink name _ rest, h, hm => by
    rcases List.mem_cons.mp hm with rfl | hm
    · simpa using h.1.1.2.2.2
    · exact slash_not_mem_of_rglob h.2.2 hm
  | dir name entries rest, h, hm => by
    have hname : '/' ∉ name := h.1.1.2.2.2
    rcases List.mem_append.mp hm with hm | hm
    · rcases List.mem_cons.mp hm with rfl | hm
      · simpa using hname
      · obtain ⟨below, hb, rfl⟩ := List.mem_map.mp hm
        simpa [hname] using slash_not_mem_of_rglob h.1.2 hb
    · exact slash_not_mem_of_rglob h.2.2 hm

end Dir

theorem FileSystem.listdir_valid (fs : FileSystem) (path : List Str) : (fs.listdir path).Valid := by
  unfold FileSystem.listdir
  split
  · next hf =>
    obtain ⟨place, -, hp⟩ := Option.bind_eq_some_iff.mp hf
    exact Dir.find_valid fs.valid hp
  · trivial

/-- Paths below one directory are told apart by their text. -/
theorem posix_injOn {entries : Dir} (h : entries.Valid) {path path' : List Str}
    (hm : path ∈ entries.rglob) (hm' : path' ∈ entries.rglob) (he : posix path = posix path') :
    path = path' := by
  have hsplit : ∀ {p}, p ∈ entries.rglob → (posix p).splitOn '/' = p := by
    intro p hp
    refine List.splitOn_intercalate '/' (Dir.slash_not_mem_of_rglob h hp) ?_
    rintro rfl
    exact Dir.nil_not_mem_rglob entries hp
  rw [← hsplit hm, ← hsplit hm', he]

theorem rglob_posix_nodup {entries : Dir} (h : entries.Valid) :
    (entries.rglob.map posix).Nodup :=
  (Dir.rglob_nodup h).map_on fun _ hm _ hm' => posix_injOn h hm hm'

end KnowledgeKiln.Core.FileTree
