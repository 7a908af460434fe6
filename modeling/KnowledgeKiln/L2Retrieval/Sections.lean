import KnowledgeKiln.L1Ingest.KnowledgeBase
import KnowledgeKiln.L2Retrieval.Filters

/-!
# Sections of a document (api/preview.py, db/repositories/documents.py)

A search row says "section N of M", and the preview of a chunk shows the chunks around it. Neither
looks at more than the column `chunk_index`: the count is one of rows, and a neighbour is the row
with the next index there is. That both say what they seem to say rests on ingestion.

* `Contiguous`: the chunks of a document have the indexes from 0 up, without a gap.
* `processFile_contiguous`: a file keeps that, whatever was stored under its key.
* `neighbors_indexes`: so the neighbours of a chunk are those next to it.
* `sections_exact`: after any ingests, in the preview and in every search row.
-/
namespace KnowledgeKiln.L2.Sections

open KnowledgeKiln.Core KnowledgeKiln.L1.Chunking KnowledgeKiln.L1.FileProcessing
  KnowledgeKiln.L2.Engine KnowledgeKiln.L2.Hybrid KnowledgeKiln.L2.HybridSelect
  KnowledgeKiln.L2.Filters

/-! ## The preview -/

/-- `ORDER BY key ASC` -/
def sortAsc {α : Type} (key : α → Nat) (l : List α) : List α :=
  l.insertionSort fun a b => key a ≤ key b

/-- Mirrors `ChunksRepository.neighbors` (documents.py:143-176). -/
def neighbors (st : Store) (chunkId : Uuid) (n : Nat) :
    List StoredChunk × Option StoredChunk × List StoredChunk :=
  match st.chunks.rows.find? (·.id = chunkId) with
  | none => ([], none, [])
  | some target =>
    let prevRows := (sortDesc (·.key.2) (st.chunks.rows.filter fun c =>
      c.key.1 = target.key.1 && c.key.2 < target.key.2)).take n
    let nextRows := (sortAsc (·.key.2) (st.chunks.rows.filter fun c =>
      c.key.1 = target.key.1 && target.key.2 < c.key.2)).take n
    (prevRows.reverse, some target, nextRows)

def previewNeighborChars : Nat := 500

/-- A neighbour as the panel shows it. -/
structure NeighborBody where
  chunkId : Uuid
  chunkIndex : Nat
  content : Str
  truncated : Bool

structure Preview where
  document : Option StoredDocument
  target : StoredChunk
  prev : List NeighborBody
  next : List NeighborBody

def neighborBody (c : StoredChunk) : NeighborBody where
  chunkId := c.id
  chunkIndex := c.key.2
  content := c.value.content.take previewNeighborChars
  truncated := decide (previewNeighborChars < c.value.content.length)

/-- Mirrors `preview_chunk` (preview.py:39-100), behind `parse_uuid`; `none` renders "missing". -/
def previewChunk (st : Store) (chunkId : Option Uuid) : Option Preview :=
  match chunkId with
  | none => none
  | some chunkId =>
    match neighbors st chunkId 1 with
    | (_, none, _) => none
    | (prev, some target, next) =>
      some
        { document := st.documents.rows.find? (·.id = target.key.1)
          target
          prev := prev.map neighborBody
          next := next.map neighborBody }

/-! ## A stretch of indexes -/

section
variable {α : Type} {f : α → Nat} {l : List α} {a n : Nat}

theorem map_perm_range' (hn : (l.map f).Nodup) (h : ∀ j, j ∈ l.map f ↔ a ≤ j ∧ j < a + n) :
    (l.map f).Perm (List.range' a n) := by
  refine (List.perm_ext_iff_of_nodup hn List.nodup_range').mpr fun j => ?_
  rw [h, List.mem_range'_1]

theorem sortAsc_map (hn : (l.map f).Nodup) (h : ∀ j, j ∈ l.map f ↔ a ≤ j ∧ j < a + n) :
    (sortAsc f l).map f = List.range' a n := by
  have hsorted : ((sortAsc f l).map f).Pairwise (· ≤ ·) :=
    List.pairwise_map.mpr (List.pairwise_insertionSort _ l)
  refine List.Perm.eq_of_pairwise (fun _ _ _ _ => le_antisymm) hsorted List.pairwise_le_range' ?_
  exact ((List.perm_insertionSort _ l).map f).trans (map_perm_range' hn h)

theorem sortDesc_map_range (hn : (l.map f).Nodup) (h : ∀ j, j ∈ l.map f ↔ a ≤ j ∧ j < a + n) :
    (sortDesc f l).map f = (List.range' a n).reverse := by
  have hsorted : ((sortDesc f l).map f).Pairwise (· ≥ ·) :=
    List.pairwise_map.mpr (sortDesc_pairwise f l)
  have hrange : (List.range' a n).reverse.Pairwise (· ≥ ·) :=
    List.pairwise_reverse.mpr List.pairwise_le_range'
  refine List.Perm.eq_of_pairwise (fun _ _ _ _ h h' => le_antisymm h' h) hsorted hrange ?_
  exact ((sortDesc_perm f l).map f).trans ((map_perm_range' hn h).trans
    (List.reverse_perm _).symm)

end

/-! ## Contiguous documents -/

/-- The chunks of each document have the indexes from 0 up. -/
def Contiguous (st : Store) : Prop :=
  ∀ key, ∃ n, ∀ i, ((st.view key).chunks i).isSome = true ↔ i < n

theorem contiguous_empty : Contiguous {} := by
  intro key
  refine ⟨0, fun i => ?_⟩
  simp [Store.view, Table.find, Table.empty]

/-- The entry of a file has one row for each of its chunks, whatever it had before. -/
theorem put_isSome (e : Entry) (filters : ContentFilters) (row : Document)
    (chunks : List Chunk) (i : Nat) :
    ((e.put filters row chunks).chunks i).isSome = true ↔ i < chunks.length := by
  simp [Entry.put]

section
variable {w : Worker} {filters : ContentFilters} {source : Source} {file : FetchedFile}
  {p q : Progress}

/-- **One file.** -/
theorem processFile_contiguous (ho : p.store.Owned) (hc : Contiguous p.store)
    (h : processFile w filters source p file = .ok q) : Contiguous q.store := by
  intro key
  rw [processFile_view ho h, KnowledgeBase.process]
  by_cases hkey : key = documentKey source file
  · rw [hkey, Function.update_self, Entry.process]
    split
    · exact hc _
    · rename_i parsed row _
      exact ⟨parsed.chunks.length, put_isSome _ filters row parsed.chunks⟩
  · rw [Function.update_of_ne hkey]
    exact hc key

theorem ingest_contiguous {corpus : List (Source × List FetchedFile)} {st st' : Store}
    (ho : st.Owned) (hc : Contiguous st) (h : ingest w filters st corpus = .ok st') :
    st'.Owned ∧ Contiguous st' :=
  ingest_induct (P := fun _ st => st.Owned ∧ Contiguous st)
    (fun _ _ _ _ _ hp hq => ⟨processFile_owned hp.1 hq, processFile_contiguous hp.1 hp.2 hq⟩)
    [] ⟨ho, hc⟩ h

end

/-- The stores that ingests leave behind, whatever the tokenizers, the content filters and the
sources they ran with. -/
inductive Ingested : Store → Prop
  | empty : Ingested {}
  | ingest {st st' : Store} (before : Ingested st) (w : Worker) (filters : ContentFilters)
      (corpus : List (Source × List FetchedFile)) (run : ingest w filters st corpus = .ok st') :
      Ingested st'

theorem Ingested.contiguous {st : Store} (h : Ingested st) : st.Owned ∧ Contiguous st := by
  induction h with
  | empty => exact ⟨owned_empty, contiguous_empty⟩
  | ingest before w filters corpus run ih => exact ingest_contiguous ih.1 ih.2 run

/-! ## What the rows say -/

/-- `session.get` by the primary key. -/
theorem find_id {κ α : Type} {t : Table κ α} {r : Row κ α} (hr : r ∈ t.rows) :
    t.rows.find? (·.id = r.id) = some r := by
  cases hf : t.rows.find? (·.id = r.id) with
  | none => exact absurd (decide_eq_true rfl) (List.find?_eq_none.mp hf r hr)
  | some r' =>
    have hid : r'.id = r.id := by simpa using List.find?_some hf
    rw [Table.eq_of_id (List.mem_of_find?_eq_some hf) hr hid]

section
variable {st : Store} {c : StoredChunk} {d : StoredDocument}

/-- The indexes of a document's chunks, as rows. -/
theorem Contiguous.indexes (hc : Contiguous st) (hd : d ∈ st.documents.rows) :
    ∃ n, ∀ i, (∃ c ∈ st.chunks.rows, c.key = (d.id, i)) ↔ i < n := by
  obtain ⟨n, hn⟩ := hc d.key
  refine ⟨n, fun i => ?_⟩
  have hfind : st.documents.find d.key = some d := Table.find_eq_some.mpr ⟨hd, rfl⟩
  rw [← hn, view_chunk_of_find hfind, Option.isSome_iff_exists]
  constructor
  · rintro ⟨c, hc, hkey⟩
    exact ⟨c.value, Table.value_eq_some.mpr ⟨c, hc, hkey, rfl⟩⟩
  · rintro ⟨v, hv⟩
    obtain ⟨c, hc, hkey, -⟩ := Table.value_eq_some.mp hv
    exact ⟨c, hc, hkey⟩

theorem indexes_nodup (documentId : Uuid) {l : List StoredChunk} (hl : l.Sublist st.chunks.rows)
    (hdoc : ∀ c ∈ l, c.key.1 = documentId) : (l.map (·.key.2)).Nodup := by
  have hkeys : (l.map (·.key)).Nodup := (hl.map _).nodup st.chunks.keys_nodup
  refine List.Nodup.map_on (fun x hx y hy he => ?_) (List.Nodup.of_map _ hkeys)
  refine List.inj_on_of_nodup_map hkeys hx hy (Prod.ext ?_ he)
  rw [hdoc x hx, hdoc y hy]

/-- The number of rows is the number of sections. -/
theorem indexes_count {n : Nat} (h : ∀ i, (∃ c ∈ st.chunks.rows, c.key = (d.id, i)) ↔ i < n) :
    st.chunks.rows.countP (·.key.1 = d.id) = n := by
  have hnodup : ((st.chunks.rows.filter (·.key.1 = d.id)).map (·.key.2)).Nodup :=
    indexes_nodup d.id List.filter_sublist fun c hc => of_decide_eq_true (List.mem_filter.mp hc).2
  have hmem : ∀ j, j ∈ (st.chunks.rows.filter (·.key.1 = d.id)).map (·.key.2) ↔
      0 ≤ j ∧ j < 0 + n := by
    intro j
    simp only [List.mem_map, List.mem_filter, decide_eq_true_eq, Nat.zero_le, true_and,
      Nat.zero_add, ← h, Prod.ext_iff, and_assoc]
  have hlen := (map_perm_range' hnodup hmem).length_eq
  rwa [List.length_map, List.length_range', ← List.countP_eq_length_filter] at hlen

/-- **Neighbours.** They are the chunks right before and right behind, and there are fewer than `n`
only at the ends of the document. -/
theorem neighbors_indexes {m : Nat} (h : ∀ i, (∃ c ∈ st.chunks.rows, c.key = (d.id, i)) ↔ i < m)
    (hc : c ∈ st.chunks.rows) (hd : c.key.1 = d.id) (n : Nat) :
    ∃ prev next, neighbors st c.id n = (prev, some c, next) ∧
      (∀ x ∈ prev ++ next, x ∈ st.chunks.rows ∧ x.key.1 = d.id) ∧
      prev.map (·.key.2) = List.range' (c.key.2 - n) (min n c.key.2) ∧
      next.map (·.key.2) = List.range' (c.key.2 + 1) (min n (m - (c.key.2 + 1))) := by
  have hlt : c.key.2 < m := (h c.key.2).mp ⟨c, hc, Prod.ext hd rfl⟩
  have hmem : ∀ (P : Nat → Bool) (j : Nat),
      j ∈ (st.chunks.rows.filter fun x => x.key.1 = c.key.1 && P x.key.2).map (·.key.2) ↔
        j < m ∧ P j = true := by
    intro P j
    rw [← h j]
    simp only [List.mem_map, List.mem_filter, Bool.and_eq_true, decide_eq_true_eq, hd,
      Prod.ext_iff]
    constructor
    · rintro ⟨x, ⟨hx, hdoc, hp⟩, rfl⟩
      exact ⟨⟨x, hx, hdoc, rfl⟩, hp⟩
    · rintro ⟨⟨x, hx, hdoc, rfl⟩, hp⟩
      exact ⟨x, ⟨hx, hdoc, hp⟩, rfl⟩
  have hdocs : ∀ (P : Nat → Bool), ∀ x ∈ st.chunks.rows.filter fun x =>
      x.key.1 = c.key.1 && P x.key.2, x ∈ st.chunks.rows ∧ x.key.1 = d.id := by
    intro P x hx
    obtain ⟨hx, hp⟩ := List.mem_filter.mp hx
    rw [Bool.and_eq_true, decide_eq_true_eq] at hp
    exact ⟨hx, hp.1.trans hd⟩
  have hprev := sortDesc_map_range (a := 0) (n := c.key.2)
    (indexes_nodup d.id List.filter_sublist fun x hx => (hdocs (· < c.key.2) x hx).2) fun j => by
      rw [hmem (· < c.key.2), decide_eq_true_eq]
      omega
  have hnext := sortAsc_map (a := c.key.2 + 1) (n := m - (c.key.2 + 1))
    (indexes_nodup d.id List.filter_sublist fun x hx => (hdocs (c.key.2 < ·) x hx).2) fun j => by
      rw [hmem (c.key.2 < ·), decide_eq_true_eq]
      omega
  unfold neighbors
  rw [find_id hc]
  refine ⟨_, _, rfl, fun x hx => ?_, ?_, ?_⟩
  · rcases List.mem_append.mp hx with hx | hx
    · exact hdocs (· < c.key.2) x (mem_sortDesc.mp (List.mem_of_mem_take (List.mem_reverse.mp hx)))
    · refine hdocs (c.key.2 < ·) x ?_
      exact (List.mem_insertionSort _).mp (List.mem_of_mem_take hx)
  · rw [List.map_reverse, List.map_take, hprev, List.take_reverse, List.reverse_reverse,
      List.length_range', List.drop_range', Nat.zero_add, Nat.mul_one, Nat.sub_sub_eq_min,
      min_comm]
  · rw [List.map_take, hnext]
    rcases le_total n (m - (c.key.2 + 1)) with hle | hle
    · rw [List.take_range'_of_length_ge hle, min_eq_left hle]
    · rw [List.take_range'_of_length_le hle, min_eq_right hle]

end

/-- **Sections.** After any ingests: a search row's section is one of those it counts, each of them
is stored, and the preview of a chunk shows its document with the sections right before and behind,
none only at the document's ends. -/
theorem sections_exact (st : Store) (h : Ingested st) :
    (∀ b provider db query filters rows, db.store = st →
      RunQuery b provider db query filters rows → ∀ r ∈ rows, r.chunkIndex < r.chunkCount ∧
        ∀ j < r.chunkCount, ∃ c ∈ st.chunks.rows, c.key = (r.documentId, j)) ∧
    (∀ c ∈ st.chunks.rows, ∃ d ∈ st.documents.rows, d.id = c.key.1 ∧ ∃ p,
      previewChunk st (some c.id) = some p ∧ p.target = c ∧ p.document = some d ∧
      p.prev.map (·.chunkIndex) = List.range' (c.key.2 - 1) (min 1 c.key.2) ∧
      p.next.map (·.chunkIndex) = List.range' (c.key.2 + 1)
        (min 1 (st.chunks.rows.countP (·.key.1 = d.id) - (c.key.2 + 1))) ∧
      ∀ x ∈ p.prev ++ p.next, ∃ c' ∈ st.chunks.rows, x = neighborBody c' ∧ c'.key.1 = d.id) := by
  obtain ⟨howned, hcont⟩ := h.contiguous
  constructor
  · rintro b provider db query filters rows rfl hrun r hr
    obtain ⟨c, d, hj, he, -⟩ := hrun.kept hr
    obtain ⟨m, hm⟩ := hcont.indexes hj.document
    have hcount := indexes_count hm
    have hlen : r.chunkCount = m := by
      rw [he]
      exact hcount
    rw [hlen, he]
    exact ⟨(hm c.key.2).mp ⟨c, hj.chunk, Prod.ext hj.id_eq.symm rfl⟩, fun j hlt => (hm j).mpr hlt⟩
  · intro c hc
    obtain ⟨d, hd, hid⟩ := howned c hc
    obtain ⟨m, hm⟩ := hcont.indexes hd
    obtain ⟨prev, next, hn, hmem, hprev, hnext⟩ := neighbors_indexes hm hc hid.symm 1
    have hdoc : st.documents.rows.find? (·.id = c.key.1) = some d := hid ▸ find_id hd
    have hbodies : ∀ l : List StoredChunk, (l.map neighborBody).map (·.chunkIndex) =
        l.map (·.key.2) := fun l => List.map_map
    have hp : previewChunk st (some c.id) =
        some ⟨some d, c, prev.map neighborBody, next.map neighborBody⟩ := by
      simp only [previewChunk, hn, hdoc]
    refine ⟨d, hd, hid, _, hp, rfl, rfl, (hbodies prev).trans hprev, ?_, fun x hx => ?_⟩
    · rw [indexes_count hm]
      exact (hbodies next).trans hnext
    · rw [← List.map_append] at hx
      obtain ⟨c', hc', rfl⟩ := List.mem_map.mp hx
      exact ⟨c', (hmem c' hc').1, rfl, (hmem c' hc').2⟩

/-! ## A page that gets shorter -/

def longPage : FetchedFile :=
  { path := "page.md", content := asciiBytes "# One\n\na\n\n# Two\n\nb\n\n# Three\n\nc\n" }

def shortPage : FetchedFile :=
  { path := "page.md", content := asciiBytes "# One\n\na\n\n# Two\n\nd\n" }

def shortened : Py Store := do
  let st ← ingest asciiWorker {} {} [({ name := "docs" }, [longPage])]
  ingest asciiWorker {} st [({ name := "docs" }, [shortPage])]

/-- The section that was the second of three is the last one now. -/
theorem sections_exact_shortened : ∃ st, shortened = .ok st ∧ ∃ c ∈ st.chunks.rows, ∃ p,
    previewChunk st (some c.id) = some p ∧ p.target = c ∧
      p.prev.map (·.chunkIndex) = [0] ∧ p.next.map (·.chunkIndex) = [] := by
  have hrun : shortened.map (fun st => st.chunks.rows.map (·.key)) = .ok [(0, 0), (0, 1)] := by
    decide +kernel
  obtain ⟨st, hst, hkeys⟩ := Py.exists_of_map_eq hrun
  obtain ⟨st₀, h₀, h₁⟩ := Py.bind_ok.mp hst
  have hing : Ingested st := .ingest (.ingest .empty _ _ _ h₀) _ _ _ h₁
  have hmem : ((0, 1) : Uuid × Nat) ∈ st.chunks.rows.map (·.key) := by simp [hkeys]
  obtain ⟨c, hc, hkey⟩ := List.mem_map.mp hmem
  obtain ⟨d, hd, hid, p, hp, htarget, -, hprev, hnext, -⟩ := (sections_exact st hing).2 c hc
  have hcount : st.chunks.rows.countP (·.key.1 = d.id) = 2 := by
    have hmap := List.countP_map (p := fun k : Uuid × Nat => decide (k.1 = d.id))
      (f := fun c : StoredChunk => c.key) (l := st.chunks.rows)
    rw [hid, hkey] at hmap ⊢
    rw [hkeys] at hmap
    exact hmap.symm
  rw [hkey] at hprev hnext
  rw [hcount] at hnext
  exact ⟨st, hst, c, hc, p, hp, htarget, hprev, hnext⟩

end KnowledgeKiln.L2.Sections
