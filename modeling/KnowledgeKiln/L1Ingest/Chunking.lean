import KnowledgeKiln.Core.Date
import KnowledgeKiln.Core.Json
import KnowledgeKiln.L1Ingest.Markdown

/-!
# Sections, chunks and documents (ingestion/chunking.py)

Blocks are grouped into sections under their heading path, sections are cut
into chunks of at most `max_tokens` tokens where blocks allow it, and
`parseDocument` puts frontmatter, title and chunks together.

`Worker` is what the ingestion worker takes from third parties and from the
runtime: tokenizer, digest, decoder, frontmatter and Markdown parsers.

* `parseDocument_content`: no chunk of a document is empty.
* `parseDocument_index`: the chunks of a document are numbered from 0.
-/
namespace KnowledgeKiln.L1.Chunking

open KnowledgeKiln.Core

structure Worker where
  /-- `\d` in a `str` pattern. -/
  isDecimal : Char → Bool
  /-- `count_tokens`: tiktoken may refuse a text. -/
  countTokens : Str → Py Nat
  /-- `hashlib.sha256(text.encode("utf-8")).hexdigest()` -/
  sha256 : Str → Str
  /-- `content.decode("utf-8")`, or the text of its error. -/
  decodeUtf8 : List UInt8 → Except Str Str
  /-- `frontmatter.loads`: the body, and the metadata after `jsonify`. -/
  frontmatter : Str → Py (Str × JsonDict)
  /-- The Markdown parser accepts the body. -/
  mistune : Str → Bool
  /-- The authorities `urlparse` raises on. -/
  refusedNetloc : Str → Bool
  /-- `date.fromisoformat`; `none` for a `ValueError`. -/
  fromIsoformat : Str → Option Date

def defaultMaxTokens : Nat := 800

def maxFrontmatterBytes : Nat := 100 * 1024

/-- Mirrors `Chunk` (chunking.py:80-87). -/
structure Chunk where
  content : Str
  headingPath : List Str
  chunkIndex : Nat
  contentTokens : Nat
  contentHash : Str
  deriving DecidableEq

/-- Mirrors `ParsedDocument` (chunking.py:91-101); a frontmatter title may be any JSON value. -/
structure ParsedDocument where
  metadata : JsonDict
  chunks : List Chunk
  title : Json

/-! ## Sections -/

structure Section where
  headingPath : List Str := []
  blocks : List Block := []

/-- Mirrors `_has_body` (chunking.py:259-266). -/
def Section.hasBody (s : Section) : Bool := s.blocks.any (·.kind != .heading)

/-- Mirrors `_section_text` (chunking.py:269-270). -/
def Section.text (s : Section) : Str := strip (join "\n\n" (s.blocks.map (·.text)))

/-- The variables of `_group_into_sections`. -/
structure Grouping where
  sections : List Section := []
  path : List Str := []
  current : Section := {}

/-- `if _has_body(current): sections.append(current)` -/
def Grouping.closed (g : Grouping) : List Section :=
  if g.current.hasBody then g.sections ++ [g.current] else g.sections

def groupStep (g : Grouping) (block : Block) : Grouping :=
  if block.kind = .heading then
    let path := g.path.take (block.headingLevel - 1) ++ [block.headingText]
    { sections := g.closed, path := path, current := { headingPath := path, blocks := [block] } }
  else
    { g with current := { g.current with blocks := g.current.blocks ++ [block] } }

/-- Mirrors `_group_into_sections` (chunking.py:230-256). -/
def groupIntoSections (blocks : List Block) : List Section := (blocks.foldl groupStep {}).closed

/-! ## Chunks -/

/-- The text of a batch of blocks. -/
def batchText (buf : List Block) : Str := strip (join "\n\n" (buf.map (·.text)))

/-- Mirrors `_pack_blocks` (chunking.py:273-292); `buf` and `bufTokens` are the open batch. -/
def packBlocks (countTokens : Str → Py Nat) (maxTokens : Nat) (buf : List Block)
    (bufTokens : Nat) : List Block → Py (List (Str × Nat))
  | [] => .ok (if buf = [] then [] else [(batchText buf, bufTokens)])
  | block :: blocks => do
    let blockTokens ← countTokens block.text
    if buf ≠ [] ∧ maxTokens < bufTokens + blockTokens ∧ block.kind ≠ .heading then
      let more ← packBlocks countTokens maxTokens [block] blockTokens blocks
      pure ((batchText buf, bufTokens) :: more)
    else packBlocks countTokens maxTokens (buf ++ [block]) (bufTokens + blockTokens) blocks

/-- Mirrors `_make_chunk` and `_content_hash` (chunking.py:295-306). -/
def makeChunk (w : Worker) (text : Str) (path : List Str) (idx tokens : Nat) : Chunk :=
  { content := text, headingPath := path, chunkIndex := idx, contentTokens := tokens,
    contentHash := "sha256:" ++ w.sha256 text }

/-- The texts of a section's chunks, with their token counts. -/
def sectionPieces (w : Worker) (maxTokens : Nat) (s : Section) : Py (List (Str × Nat)) := do
  let tokens ← w.countTokens s.text
  if tokens ≤ maxTokens then pure [(s.text, tokens)]
  else packBlocks w.countTokens maxTokens [] 0 s.blocks

/-- The chunks of one section, numbered from `start`. -/
def sectionChunks (w : Worker) (s : Section) (start : Nat) (pieces : List (Str × Nat)) :
    List Chunk :=
  (pieces.zipIdx start).map fun ((text, tokens), i) => makeChunk w text s.headingPath i tokens

/-- The first level-1 heading of a section. -/
def Section.firstH1 (s : Section) : Option Str :=
  (s.blocks.find? fun b => b.kind = .heading ∧ b.headingLevel = 1).map (·.headingText)

/-- `title` after a section with text was seen: only a missing title is filled in. -/
def fillTitle (title : Json) (s : Section) : Json :=
  match title with
  | .null => (s.firstH1.map Json.str).getD .null
  | title => title

/-- The loop of `parse_document` over the sections (chunking.py:373-388). -/
def chunkSections (w : Worker) (maxTokens : Nat) (chunks : List Chunk) (title : Json) :
    List Section → Py (List Chunk × Json)
  | [] => .ok (chunks, title)
  | s :: sections =>
    if s.text = [] then chunkSections w maxTokens chunks title sections
    else do
      let pieces ← sectionPieces w maxTokens s
      chunkSections w maxTokens (chunks ++ sectionChunks w s chunks.length pieces)
        (fillTitle title s) sections

/-! ## Documents -/

/-- The index of the first `needle` in `s`. -/
def find (needle : Str) (s : Str) : Option Nat :=
  (List.range (s.length + 1)).find? fun i => needle.isPrefixOf (s.drop i)

/-- The frontmatter block that `_check_frontmatter_size` measures. -/
def frontmatterBlock (sourceText : Str) : Option Str :=
  let text := lstrip sourceText
  if startsWith text "---" = false then none
  else
    let afterOpen := (text.drop 3).dropWhile fun c => c == '\r' || c == '\n'
    (find "\n---" afterOpen).map afterOpen.take

def utf8Length (s : Str) : Nat := (s.map Char.utf8Size).sum

/-- Mirrors `_check_frontmatter_size` (chunking.py:309-328). -/
def checkFrontmatterSize (sourceText : Str) : Py Unit :=
  match frontmatterBlock sourceText with
  | none => .ok ()
  | some block =>
    if maxFrontmatterBytes < utf8Length block then
      throw (.frontmatterTooLarge ("frontmatter is ".toList ++ natStr (utf8Length block) ++
        " bytes; max " ++ natStr maxFrontmatterBytes))
    else .ok ()

/-- Mirrors `parse_document` (chunking.py:331-390). -/
def parseDocument (w : Worker) (sourceText : Str) (maxTokens : Nat) : Py ParsedDocument := do
  checkFrontmatterSize sourceText
  let (body, metadata) ← w.frontmatter sourceText
  if w.mistune body = false then pure { metadata := metadata, chunks := [], title := .null }
  else
    let sections := groupIntoSections (scanBlocks w.isDecimal body)
    let (chunks, title) ←
      chunkSections w maxTokens [] ((metadata.get "title").getD .null) sections
    pure { metadata := metadata, chunks := chunks, title := title }

/-! ## No chunk is empty -/

section
variable {w : Worker} {maxTokens : Nat}

/-- A batch with a block that is not blank has a text. -/
theorem batchText_ne_nil {buf : List Block} (hb : ∀ b ∈ buf, strip b.text ≠ []) (hn : buf ≠ []) :
    batchText buf ≠ [] := by
  obtain ⟨b, bs, rfl⟩ := List.exists_cons_of_ne_nil hn
  intro h
  refine hb b List.mem_cons_self (strip_eq_nil.mpr fun c hc => strip_eq_nil.mp h c ?_)
  exact (infix_join List.mem_cons_self).subset hc

theorem packBlocks_ne_nil {countTokens : Str → Py Nat} : ∀ {blocks buf : List Block}
    {bufTokens : Nat} {pieces : List (Str × Nat)},
    packBlocks countTokens maxTokens buf bufTokens blocks = .ok pieces →
    (∀ b ∈ buf, strip b.text ≠ []) → (∀ b ∈ blocks, strip b.text ≠ []) →
    ∀ p ∈ pieces, p.1 ≠ []
  | [], buf, bufTokens, pieces, h, hbuf, _ => by
    intro p hp
    cases h
    split at hp
    · cases hp
    · rename_i hn
      rw [List.mem_singleton.mp hp]
      exact batchText_ne_nil hbuf hn
  | block :: blocks, buf, bufTokens, pieces, h, hbuf, hblocks => by
    obtain ⟨hblock, hblocks⟩ := List.forall_mem_cons.mp hblocks
    obtain ⟨tokens, _, h⟩ := Py.bind_ok.mp h
    split at h
    · rename_i hfull
      obtain ⟨more, hm, h⟩ := Py.bind_ok.mp h
      rw [Py.pure_ok] at h
      subst h
      refine List.forall_mem_cons.mpr ⟨batchText_ne_nil hbuf hfull.1, ?_⟩
      exact packBlocks_ne_nil hm (by simpa using hblock) hblocks
    · refine packBlocks_ne_nil h ?_ hblocks
      intro b hb
      rcases List.mem_append.mp hb with hb | hb
      · exact hbuf b hb
      · rw [List.mem_singleton.mp hb]
        exact hblock

theorem mem_closed {g : Grouping} {s : Section} (h : s ∈ g.closed) :
    s ∈ g.sections ∨ s = g.current := by
  unfold Grouping.closed at h
  by_cases hb : g.current.hasBody = true
  · rw [if_pos hb] at h
    exact (List.mem_append.mp h).imp_right List.mem_singleton.mp
  · rw [if_neg hb] at h
    exact .inl h

/-- What holds of the blocks read so far holds of the blocks of every section. -/
def Grouping.All (P : Block → Prop) (g : Grouping) : Prop :=
  (∀ b ∈ g.current.blocks, P b) ∧ ∀ s ∈ g.sections, ∀ b ∈ s.blocks, P b

theorem groupStep_all {P : Block → Prop} {g : Grouping} {block : Block} (hg : g.All P)
    (hb : P block) : (groupStep g block).All P := by
  unfold groupStep
  split
  · refine ⟨by simpa using hb, fun s hs => ?_⟩
    rcases mem_closed hs with hs | rfl
    · exact hg.2 s hs
    · exact hg.1
  · refine ⟨fun b hm => ?_, hg.2⟩
    rcases List.mem_append.mp hm with hm | hm
    · exact hg.1 b hm
    · rw [List.mem_singleton.mp hm]
      exact hb

theorem foldl_groupStep_all {P : Block → Prop} : ∀ {blocks : List Block} {g : Grouping}, g.All P →
    (∀ b ∈ blocks, P b) → (blocks.foldl groupStep g).All P
  | [], _, hg, _ => hg
  | b :: blocks, g, hg, h => by
    obtain ⟨hb, hblocks⟩ := List.forall_mem_cons.mp h
    rw [List.foldl_cons]
    exact foldl_groupStep_all (groupStep_all hg hb) hblocks

/-- The blocks of the sections are blocks of the body. -/
theorem mem_groupIntoSections {P : Block → Prop} {blocks : List Block} (h : ∀ b ∈ blocks, P b) :
    ∀ s ∈ groupIntoSections blocks, ∀ b ∈ s.blocks, P b := by
  have hall : (blocks.foldl groupStep {}).All P := foldl_groupStep_all ⟨by simp, by simp⟩ h
  intro s hs
  rcases mem_closed hs with hs | rfl
  · exact hall.2 s hs
  · exact hall.1

theorem chunkSections_content : ∀ {sections : List Section} {chunks : List Chunk} {title : Json}
    {out : List Chunk × Json}, chunkSections w maxTokens chunks title sections = .ok out →
    (∀ s ∈ sections, ∀ b ∈ s.blocks, strip b.text ≠ []) → (∀ c ∈ chunks, c.content ≠ []) →
    ∀ c ∈ out.1, c.content ≠ []
  | [], chunks, title, out, h, _, hc => by
    cases h
    exact hc
  | s :: sections, chunks, title, out, h, hs, hc => by
    obtain ⟨hblocks, hs⟩ := List.forall_mem_cons.mp hs
    unfold chunkSections at h
    split at h
    · exact chunkSections_content h hs hc
    rename_i htext
    obtain ⟨pieces, hp, h⟩ := Py.bind_ok.mp h
    refine chunkSections_content h hs fun c hm => ?_
    rcases List.mem_append.mp hm with hm | hm
    · exact hc c hm
    -- the pieces are the whole section, or batches of its blocks
    have hpieces : ∀ p ∈ pieces, p.1 ≠ [] := by
      unfold sectionPieces at hp
      obtain ⟨tokens, _, hp⟩ := Py.bind_ok.mp hp
      split at hp
      · cases hp
        simpa using htext
      · exact packBlocks_ne_nil hp (by simp) hblocks
    obtain ⟨⟨p, i⟩, hpi, rfl⟩ := List.mem_map.mp hm
    exact hpieces p (List.fst_mem_of_mem_zipIdx hpi)

/-- No chunk of a document is empty. -/
theorem parseDocument_content {text : Str} {doc : ParsedDocument}
    (h : parseDocument w text maxTokens = .ok doc) : ∀ c ∈ doc.chunks, c.content ≠ [] := by
  unfold parseDocument at h
  obtain ⟨_, _, h⟩ := Py.bind_ok.mp h
  obtain ⟨⟨body, metadata⟩, _, h⟩ := Py.bind_ok.mp h
  dsimp only at h
  split at h
  · cases h
    simp
  obtain ⟨⟨chunks, title⟩, hc, h⟩ := Py.bind_ok.mp h
  cases h
  exact chunkSections_content hc (mem_groupIntoSections (scanLoop_text _ _)) (by simp)

/-! ## Chunks are numbered in order -/

theorem sectionChunks_index {s : Section} {start : Nat} {pieces : List (Str × Nat)} :
    (sectionChunks w s start pieces).map (·.chunkIndex) = List.range' start pieces.length := by
  unfold sectionChunks
  rw [List.map_map]
  exact List.zipIdx_map_snd start pieces

theorem chunkSections_index : ∀ {sections : List Section} {chunks : List Chunk} {title : Json}
    {out : List Chunk × Json}, chunkSections w maxTokens chunks title sections = .ok out →
    chunks.map (·.chunkIndex) = List.range chunks.length →
    out.1.map (·.chunkIndex) = List.range out.1.length
  | [], chunks, title, out, h, hc => by
    cases h
    exact hc
  | s :: sections, chunks, title, out, h, hc => by
    unfold chunkSections at h
    split at h
    · exact chunkSections_index h hc
    obtain ⟨pieces, _, h⟩ := Py.bind_ok.mp h
    refine chunkSections_index h ?_
    have hl : (sectionChunks w s chunks.length pieces).length = pieces.length := by
      simp [sectionChunks]
    rw [List.map_append, hc, sectionChunks_index, List.length_append, hl, List.range_eq_range',
      List.range_eq_range', ← List.range'_append_1, Nat.zero_add]

/-- The chunks of a document are numbered from 0. -/
theorem parseDocument_index {text : Str} {doc : ParsedDocument}
    (h : parseDocument w text maxTokens = .ok doc) :
    doc.chunks.map (·.chunkIndex) = List.range doc.chunks.length := by
  unfold parseDocument at h
  obtain ⟨_, _, h⟩ := Py.bind_ok.mp h
  obtain ⟨⟨body, metadata⟩, _, h⟩ := Py.bind_ok.mp h
  dsimp only at h
  split at h
  · cases h
    rfl
  obtain ⟨⟨chunks, title⟩, hc, h⟩ := Py.bind_ok.mp h
  cases h
  exact chunkSections_index hc rfl

/-! ## Chunks carry the digest of their content -/

theorem chunkSections_made : ∀ {sections : List Section} {chunks : List Chunk} {title : Json}
    {out : List Chunk × Json}, chunkSections w maxTokens chunks title sections = .ok out →
    ∀ c ∈ out.1, c ∈ chunks ∨ ∃ text path idx tokens, c = makeChunk w text path idx tokens
  | [], chunks, title, out, h, c, hc => by
    cases h
    exact .inl hc
  | s :: sections, chunks, title, out, h, c, hc => by
    unfold chunkSections at h
    split at h
    · exact chunkSections_made h c hc
    obtain ⟨pieces, _, h⟩ := Py.bind_ok.mp h
    rcases chunkSections_made h c hc with hm | hm
    · rcases List.mem_append.mp hm with hm | hm
      · exact .inl hm
      · obtain ⟨⟨⟨text, tokens⟩, i⟩, -, rfl⟩ := List.mem_map.mp hm
        exact .inr ⟨text, s.headingPath, i, tokens, rfl⟩
    · exact .inr hm

theorem parseDocument_hash {text : Str} {doc : ParsedDocument}
    (h : parseDocument w text maxTokens = .ok doc) :
    ∀ c ∈ doc.chunks, c.contentHash = "sha256:" ++ w.sha256 c.content := by
  intro c hc
  unfold parseDocument at h
  obtain ⟨_, _, h⟩ := Py.bind_ok.mp h
  obtain ⟨⟨body, metadata⟩, _, h⟩ := Py.bind_ok.mp h
  dsimp only at h
  split at h
  · cases h
    cases hc
  obtain ⟨⟨chunks, title⟩, hm, h⟩ := Py.bind_ok.mp h
  cases h
  obtain ⟨text, path, idx, tokens, rfl⟩ := (chunkSections_made hm c hc).resolve_left (by simp)
  rfl

end

end KnowledgeKiln.L1.Chunking
