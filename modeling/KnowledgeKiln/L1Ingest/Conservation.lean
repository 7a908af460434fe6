import KnowledgeKiln.Core.Lines
import KnowledgeKiln.L1Ingest.FileProcessing

/-!
# The chunker loses and duplicates nothing

The scanner cuts the lines of a body in pieces that follow one another, so its blocks have the
lines of the body. Grouping drops the sections without a non-heading block, each of which is one
heading; packing drops nothing. `contentLines` compares the two ends: it sees through the
stripping and joining in between.

* `scanBlocks_lines`: the lines of the blocks are those of the body.
* `groupIntoSections_lines`: sections keep what `keptLines` keeps of the blocks.
* `chunks_conserve_lines`: so do the chunks of a document.
-/
namespace KnowledgeKiln.L1.Chunking

open KnowledgeKiln.Core

/-! ## The scanner -/

section
variable {isDecimal : Char → Bool}

theorem fenceBody_append : ∀ (lines : List Str) (stack : List (Char × Nat)),
    (fenceBody stack lines).1 ++ (fenceBody stack lines).2 = lines
  | [], _ => rfl
  | line :: lines, stack => by
    unfold fenceBody
    split
    · rfl
    · exact congrArg (line :: ·) (fenceBody_append lines _)

theorem listBody_append : ∀ lines : List Str,
    (listBody isDecimal lines).1 ++ (listBody isDecimal lines).2 = lines
  | [] => rfl
  | line :: lines => by
    unfold listBody
    split
    · exact congrArg (line :: ·) (listBody_append lines)
    · rfl

theorem paragraphBody_append : ∀ lines : List Str,
    (paragraphBody isDecimal lines).1 ++ (paragraphBody isDecimal lines).2 = lines
  | [] => rfl
  | line :: lines => by
    unfold paragraphBody
    split
    · rfl
    · exact congrArg (line :: ·) (paragraphBody_append lines)

/-- A block takes the lines up to where the scanner goes on. -/
theorem nextBlock_append (line : Str) (lines : List Str) :
    ∃ taken, taken ++ (nextBlock isDecimal line lines).2 = lines ∧
      (nextBlock isDecimal line lines).1.text = join "\n" (line :: taken) := by
  unfold nextBlock
  split
  · exact ⟨_, fenceBody_append lines _, rfl⟩
  · split
    · exact ⟨[], rfl, by simp [join, List.intercalate]⟩
    · split
      · refine ⟨lines.take 1 ++ (lines.drop 1).takeWhile isTableRow, ?_, rfl⟩
        rw [List.append_assoc, List.takeWhile_append_dropWhile, List.take_append_drop]
      · split
        · exact ⟨_, listBody_append lines, rfl⟩
        · exact ⟨_, paragraphBody_append lines, rfl⟩

theorem contentLines_newline (parts : List Str) :
    contentLines (join "\n" parts) = parts.flatMap contentLines :=
  contentLines_join (by simp) (by simp [isLineBreak]) parts

theorem contentLines_blank {line : Str} (h : strip line = []) : contentLines line = [] := by
  rw [← contentLines_strip, h]
  rfl

theorem scanLoop_lines : ∀ (fuel : Nat) (lines : List Str), lines.length ≤ fuel →
    (scanLoop isDecimal fuel lines).flatMap (contentLines ·.text) = lines.flatMap contentLines
  | 0, [], _ => rfl
  | _ + 1, [], _ => rfl
  | fuel + 1, line :: lines, h => by
    have hl : lines.length ≤ fuel := Nat.le_of_succ_le_succ h
    unfold scanLoop
    split
    · rename_i hblank
      rw [scanLoop_lines fuel lines hl, List.flatMap_cons, contentLines_blank hblank,
        List.nil_append]
    · obtain ⟨taken, happend, htext⟩ := @nextBlock_append isDecimal line lines
      have hrest := (@nextBlock_length isDecimal line lines).trans hl
      dsimp only
      rw [List.flatMap_cons, htext, contentLines_newline, scanLoop_lines fuel _ hrest,
        List.flatMap_cons, List.append_assoc, ← List.flatMap_append, happend, List.flatMap_cons]

/-- **The blocks have the lines of the body.** -/
theorem scanBlocks_lines (body : Str) :
    (scanBlocks isDecimal body).flatMap (contentLines ·.text) = contentLines body := by
  rw [scanBlocks, scanLoop_lines _ _ le_rfl, contentLines_splitlines]

theorem nextBlock_heading {line : Str} {lines : List Str}
    (h : (nextBlock isDecimal line lines).1.kind = .heading) :
    (nextBlock isDecimal line lines).1.text = line := by
  unfold nextBlock at h ⊢
  split at h
  · cases h
  · split at h
    · rfl
    · split at h
      · cases h
      · split at h <;> cases h

theorem scanLoop_heading : ∀ (fuel : Nat) (lines : List Str),
    ∀ b ∈ scanLoop isDecimal fuel lines, b.kind = .heading → b.text ∈ lines
  | 0, _, _, h, _ => by cases h
  | _ + 1, [], _, h, _ => by cases h
  | fuel + 1, line :: lines, b, h, hb => by
    unfold scanLoop at h
    split at h
    · exact List.mem_cons_of_mem _ (scanLoop_heading fuel lines b h hb)
    · rcases List.mem_cons.mp h with rfl | h
      · rw [nextBlock_heading hb]
        exact List.mem_cons_self
      · obtain ⟨taken, happend, -⟩ := @nextBlock_append isDecimal line lines
        have hmem := scanLoop_heading fuel _ b h hb
        apply List.mem_cons_of_mem
        rw [← happend]
        exact List.mem_append_right _ hmem

/-- A heading is one line. -/
theorem scanBlocks_heading {body : Str} {b : Block} (hm : b ∈ scanBlocks isDecimal body)
    (hb : b.kind = .heading) : contentLines b.text = [strip b.text] := by
  have hline : b.text ∈ splitlines body := scanLoop_heading _ _ b hm hb
  have hbreaks := splitlinesFrom_breaks body [] (by simp) b.text hline
  rw [contentLines_line hbreaks, lineContent, if_neg (scanLoop_text _ _ b hm)]

end

/-! ## Sections -/

/-- The lines of the blocks, without the headings that another heading follows, or nothing. -/
def keptLines : List Block → List Str
  | [] => []
  | b :: bs =>
    if b.kind = .heading ∧ bs.head?.all (·.kind = .heading) = true then keptLines bs
    else contentLines b.text ++ keptLines bs

def Section.lines (s : Section) : List Str := s.blocks.flatMap (contentLines ·.text)

/-- Headings stand at the start of their sections. -/
def Section.Headed (s : Section) : Prop := ∀ b ∈ s.blocks.tail, b.kind ≠ .heading

theorem keptLines_body : ∀ {bs rest : List Block}, (∀ b ∈ bs, b.kind ≠ .heading) →
    keptLines (bs ++ rest) = bs.flatMap (contentLines ·.text) ++ keptLines rest
  | [], _, _ => rfl
  | b :: bs, rest, h => by
    obtain ⟨hb, hbs⟩ := List.forall_mem_cons.mp h
    rw [List.cons_append, keptLines, if_neg (fun hh => hb hh.1), keptLines_body hbs,
      List.flatMap_cons, List.append_assoc]

/-- Before a heading or the end, the blocks of a section are kept as a whole, or they are one
heading and dropped. -/
theorem keptLines_section {s : Section} (hs : s.Headed) {rest : List Block}
    (hrest : rest.head?.all (·.kind = .heading) = true) :
    keptLines (s.blocks ++ rest) = (if s.hasBody then s.lines else []) ++ keptLines rest := by
  unfold Section.Headed at hs
  unfold Section.hasBody Section.lines
  cases hblocks : s.blocks with
  | nil => simp
  | cons b bs =>
    rw [hblocks] at hs
    have hbody : ∀ b ∈ bs, b.kind ≠ .heading := hs
    by_cases hb : b.kind = .heading
    · cases bs with
      | nil =>
        rw [List.singleton_append, keptLines, if_pos ⟨hb, hrest⟩]
        simp [hb]
      | cons c bs =>
        have hc : c.kind ≠ .heading := hbody c List.mem_cons_self
        rw [List.cons_append, keptLines, if_neg (by simp [hc]), keptLines_body hbody,
          if_pos (by simp [hc]), ← List.append_assoc]
        rfl
    · have hall : ∀ d ∈ b :: bs, d.kind ≠ .heading := List.forall_mem_cons.mpr ⟨hb, hbody⟩
      rw [keptLines_body hall, if_pos (by simp [hb])]

theorem closed_lines {g : Grouping} :
    g.closed.flatMap Section.lines =
      g.sections.flatMap Section.lines ++ (if g.current.hasBody then g.current.lines else []) := by
  unfold Grouping.closed
  split <;> simp

/-- What grouping has done and what is ahead of it. -/
theorem foldl_groupStep_lines : ∀ {blocks : List Block} {g : Grouping}, g.current.Headed →
    (blocks.foldl groupStep g).closed.flatMap Section.lines =
      g.sections.flatMap Section.lines ++ keptLines (g.current.blocks ++ blocks)
  | [], g, hg => by
    rw [List.foldl_nil, closed_lines, keptLines_section hg rfl, keptLines, List.append_nil]
  | b :: blocks, g, hg => by
    rw [List.foldl_cons]
    by_cases hb : b.kind = .heading
    · have hheaded : (groupStep g b).current.Headed := by
        simp [groupStep, hb, Section.Headed]
      have hrest : (b :: blocks).head?.all (·.kind = .heading) = true := by simp [hb]
      have hstep : (groupStep g b).current.blocks = [b] ∧ (groupStep g b).sections = g.closed := by
        simp [groupStep, hb]
      rw [foldl_groupStep_lines hheaded, hstep.1, hstep.2, closed_lines,
        keptLines_section hg hrest, List.append_assoc]
      rfl
    · have hstep : (groupStep g b).current.blocks = g.current.blocks ++ [b] ∧
          (groupStep g b).sections = g.sections := by
        simp [groupStep, hb]
      have hheaded : (groupStep g b).current.Headed := by
        unfold Section.Headed at hg ⊢
        rw [hstep.1]
        intro c hc
        cases hblocks : g.current.blocks with
        | nil =>
          rw [hblocks] at hc
          cases hc
        | cons d ds =>
          rw [hblocks] at hc hg
          rcases List.mem_append.mp hc with hc | hc
          · exact hg c hc
          · rw [List.mem_singleton.mp hc]
            exact hb
      rw [foldl_groupStep_lines hheaded, hstep.1, hstep.2, List.append_assoc]
      rfl

/-- **Grouping drops the headings without a body, and nothing else.** -/
theorem groupIntoSections_lines (blocks : List Block) :
    (groupIntoSections blocks).flatMap Section.lines = keptLines blocks := by
  have hempty : ({} : Grouping).current.Headed := by simp [Section.Headed]
  exact foldl_groupStep_lines hempty

/-! ## Chunks -/

theorem contentLines_blankLine (parts : List Str) :
    contentLines (join "\n\n" parts) = parts.flatMap contentLines :=
  contentLines_join (by simp) (by simp [isLineBreak]) parts

theorem batchText_lines (buf : List Block) :
    contentLines (batchText buf) = buf.flatMap (contentLines ·.text) := by
  rw [batchText, contentLines_strip, contentLines_blankLine, List.flatMap_map]

theorem sectionText_lines (s : Section) : contentLines s.text = s.lines := batchText_lines s.blocks

/-- Packing keeps the blocks and their order. -/
theorem packBlocks_lines {countTokens : Str → Py Nat} {maxTokens : Nat} :
    ∀ {blocks buf : List Block} {bufTokens : Nat} {pieces : List (Str × Nat)},
      packBlocks countTokens maxTokens buf bufTokens blocks = .ok pieces →
        pieces.flatMap (contentLines ·.1) = (buf ++ blocks).flatMap (contentLines ·.text)
  | [], buf, bufTokens, pieces, h => by
    cases h
    split
    · rename_i hn
      rw [hn]
      rfl
    · simp [batchText_lines]
  | block :: blocks, buf, bufTokens, pieces, h => by
    obtain ⟨tokens, -, h⟩ := Py.bind_ok.mp h
    split at h
    · obtain ⟨more, hm, h⟩ := Py.bind_ok.mp h
      rw [Py.pure_ok] at h
      subst h
      rw [List.flatMap_cons, packBlocks_lines hm, batchText_lines, ← List.flatMap_append]
      rfl
    · rw [packBlocks_lines h, List.append_assoc]
      rfl

section
variable {w : Worker} {maxTokens : Nat}

theorem sectionPieces_lines {s : Section} {pieces : List (Str × Nat)}
    (h : sectionPieces w maxTokens s = .ok pieces) :
    pieces.flatMap (contentLines ·.1) = s.lines := by
  obtain ⟨tokens, -, h⟩ := Py.bind_ok.mp h
  split at h
  · cases h
    simp [sectionText_lines]
  · exact packBlocks_lines h

theorem sectionChunks_lines (s : Section) : ∀ (pieces : List (Str × Nat)) (start : Nat),
    (sectionChunks w s start pieces).flatMap (contentLines ·.content) =
      pieces.flatMap (contentLines ·.1)
  | [], _ => rfl
  | p :: pieces, start => by
    have ih := sectionChunks_lines s pieces (start + 1)
    rw [List.flatMap_cons, ← ih]
    rfl

theorem chunkSections_lines : ∀ {sections : List Section} {chunks : List Chunk} {title : Json}
    {out : List Chunk × Json}, chunkSections w maxTokens chunks title sections = .ok out →
    out.1.flatMap (contentLines ·.content) =
      chunks.flatMap (contentLines ·.content) ++ sections.flatMap Section.lines
  | [], chunks, title, out, h => by
    cases h
    simp
  | s :: sections, chunks, title, out, h => by
    unfold chunkSections at h
    split at h
    · rename_i htext
      have hnone : s.lines = [] := by
        rw [← sectionText_lines, htext]
        rfl
      rw [chunkSections_lines h, List.flatMap_cons, hnone, List.nil_append]
    · obtain ⟨pieces, hp, h⟩ := Py.bind_ok.mp h
      rw [chunkSections_lines h, List.flatMap_append, sectionChunks_lines, sectionPieces_lines hp,
        List.flatMap_cons, List.append_assoc]

end

/-- **Conservation.** For every body that the Markdown parser accepts, every bound and every token
count: the lines of the blocks are the lines of the body, each heading is one of them, and the
lines of the chunks, in order, are those of the blocks without the headings that another heading
follows, or nothing. The chunks are numbered from 0. -/
theorem chunks_conserve_lines (w : Worker) (maxTokens : Nat) (text body : Str)
    (metadata : JsonDict) (doc : ParsedDocument) (hf : w.frontmatter text = .ok (body, metadata))
    (hm : w.mistune body = true) (h : parseDocument w text maxTokens = .ok doc) :
    (scanBlocks w.isDecimal body).flatMap (contentLines ·.text) = contentLines body ∧
    (∀ b ∈ scanBlocks w.isDecimal body, b.kind = .heading → contentLines b.text = [strip b.text]) ∧
    doc.chunks.flatMap (contentLines ·.content) = keptLines (scanBlocks w.isDecimal body) ∧
    doc.chunks.map (·.chunkIndex) = List.range doc.chunks.length := by
  refine ⟨scanBlocks_lines body, fun b hb => scanBlocks_heading hb, ?_, parseDocument_index h⟩
  unfold parseDocument at h
  obtain ⟨-, -, h⟩ := Py.bind_ok.mp h
  obtain ⟨⟨body', metadata'⟩, hf', h⟩ := Py.bind_ok.mp h
  rw [hf] at hf'
  cases hf'
  dsimp only at h
  rw [if_neg (by simp [hm])] at h
  obtain ⟨⟨chunks, title⟩, hc, h⟩ := Py.bind_ok.mp h
  cases h
  dsimp only
  rw [chunkSections_lines hc, groupIntoSections_lines]
  rfl

/-- A heading without a body, a list, and a fence that is not closed. -/
def nestedPage : Str := "# A\n\n## B\n\n- one\n\n```\n# code"

theorem chunks_conserve_lines_nested : ∃ doc,
    parseDocument FileProcessing.asciiWorker nestedPage 6 = .ok doc ∧
    keptLines (scanBlocks FileProcessing.asciiWorker.isDecimal nestedPage) =
      ["## B".toList, "- one".toList, "```".toList, "# code".toList] ∧
    doc.chunks.flatMap (contentLines ·.content) =
      keptLines (scanBlocks FileProcessing.asciiWorker.isDecimal nestedPage) := by
  obtain ⟨doc, hdoc⟩ := Py.exists_of_isOk
    (x := parseDocument FileProcessing.asciiWorker nestedPage 6) (by decide +kernel)
  have hstrip : strip nestedPage = nestedPage := by decide +kernel
  have hbody : FileProcessing.asciiWorker.frontmatter nestedPage = .ok (nestedPage, []) :=
    congrArg (fun body => Except.ok (body, [])) hstrip
  obtain ⟨-, -, hlines, -⟩ :=
    chunks_conserve_lines FileProcessing.asciiWorker 6 nestedPage nestedPage [] doc hbody rfl hdoc
  exact ⟨doc, hdoc, by decide +kernel, hlines⟩

end KnowledgeKiln.L1.Chunking
