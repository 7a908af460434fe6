import KnowledgeKiln.Core.Packing
import KnowledgeKiln.L1Ingest.Conservation

/-!
# What a chunk holds and how much it counts (ingestion/chunking.py)

A section that is too large is packed greedily by the counts of its blocks. The chunk of a batch
is stamped with the sum of these counts, not with the count of its text, and a heading is packed
like any other first block.

* `packBlocks_eq`: `_pack_blocks` is greedy packing.
* `parseDocument_batches`: the chunks of a document are the batches of its sections.
* `size_law_iff`: when every chunk carries the token count of its content.
* `heading_kept_iff`: when every chunk has a block that is not a heading.
-/
namespace KnowledgeKiln.L1.Chunking

open KnowledgeKiln.Core

/-! ## Sections -/

/-- A section of the chunker: one heading at most, in front, and a body. -/
structure Section.Formed (s : Section) : Prop where
  headed : s.Headed
  body : s.hasBody = true

theorem groupStep_headed {g : Grouping} (h : g.current.Headed) (b : Block) :
    (groupStep g b).current.Headed := by
  unfold groupStep
  split
  · simp [Section.Headed]
  · rename_i hb
    unfold Section.Headed at h ⊢
    intro c hc
    cases hblocks : g.current.blocks with
    | nil =>
      rw [hblocks] at hc
      cases hc
    | cons d ds =>
      rw [hblocks] at hc h
      rcases List.mem_append.mp hc with hc | hc
      · exact h c hc
      · rw [List.mem_singleton.mp hc]
        exact hb

theorem closed_formed {g : Grouping} (hc : g.current.Headed) (hs : ∀ s ∈ g.sections, s.Formed) :
    ∀ s ∈ g.closed, s.Formed := by
  unfold Grouping.closed
  split
  · rename_i hb
    intro s hm
    rcases List.mem_append.mp hm with hm | hm
    · exact hs s hm
    · rw [List.mem_singleton.mp hm]
      exact ⟨hc, hb⟩
  · exact hs

theorem foldl_groupStep_formed : ∀ {blocks : List Block} {g : Grouping}, g.current.Headed →
    (∀ s ∈ g.sections, s.Formed) → ∀ s ∈ (blocks.foldl groupStep g).closed, s.Formed
  | [], _, hc, hs => closed_formed hc hs
  | b :: blocks, g, hc, hs => by
    rw [List.foldl_cons]
    refine foldl_groupStep_formed (groupStep_headed hc b) ?_
    unfold groupStep
    split
    · exact closed_formed hc hs
    · exact hs

theorem groupIntoSections_formed (blocks : List Block) :
    ∀ s ∈ groupIntoSections blocks, s.Formed :=
  foldl_groupStep_formed (by simp [Section.Headed]) (by simp)

/-- The text of a section with a body is not empty. -/
theorem groupIntoSections_text {isDecimal : Char → Bool} (body : Str) :
    ∀ s ∈ groupIntoSections (scanBlocks isDecimal body), s.text ≠ [] := by
  intro s hs
  refine batchText_ne_nil (mem_groupIntoSections (scanLoop_text _ _) s hs) fun hn => ?_
  have hbody := (groupIntoSections_formed _ s hs).body
  rw [Section.hasBody, hn] at hbody
  cases hbody

/-! ## Batches -/

section
variable {α β : Type} {R : α → β → Prop} {as : List α} {bs : List β}

theorem exists_right_of_forall₂ (h : List.Forall₂ R as bs) {a : α} (ha : a ∈ as) :
    ∃ b ∈ bs, R a b := by
  induction h with
  | nil => cases ha
  | cons hr _ ih =>
    rcases List.mem_cons.mp ha with rfl | ha
    · exact ⟨_, List.mem_cons_self, hr⟩
    · obtain ⟨b, hb, hab⟩ := ih ha
      exact ⟨b, List.mem_cons_of_mem _ hb, hab⟩

theorem exists_left_of_forall₂ (h : List.Forall₂ R as bs) {b : β} (hb : b ∈ bs) :
    ∃ a ∈ as, R a b :=
  exists_right_of_forall₂ h.flip hb

end

/-- `count_tokens(block.text)` -/
def blockTokens (countTokens : Str → Py Nat) (b : Block) : Nat :=
  match countTokens b.text with
  | .ok n => n
  | .error _ => 0

theorem blockTokens_of_ok {countTokens : Str → Py Nat} {b : Block} {n : Nat}
    (h : countTokens b.text = .ok n) : blockTokens countTokens b = n := by
  rw [blockTokens, h]

/-- A batch as `_pack_blocks` yields it. -/
def yielded (countTokens : Str → Py Nat) (batch : List Block) : Str × Nat :=
  (batchText batch, batchWeight (blockTokens countTokens) batch)

theorem packBlocks_open {countTokens : Str → Py Nat} {maxTokens : Nat} :
    ∀ {blocks buf : List Block} {pieces : List (Str × Nat)}, buf ≠ [] →
      (∀ b ∈ blocks, b.kind ≠ .heading) →
      packBlocks countTokens maxTokens buf (batchWeight (blockTokens countTokens) buf) blocks =
        .ok pieces →
      pieces = (pack (blockTokens countTokens) maxTokens buf blocks).map (yielded countTokens)
  | [], buf, pieces, hne, _, h => by
    cases h
    rw [if_neg hne, pack, if_neg (by simpa using hne)]
    rfl
  | b :: blocks, buf, pieces, hne, hk, h => by
    obtain ⟨hb, hblocks⟩ := List.forall_mem_cons.mp hk
    obtain ⟨n, hn, h⟩ := Py.bind_ok.mp h
    have hw := blockTokens_of_ok hn
    unfold pack
    split at h
    · rename_i hfull
      obtain ⟨more, hm, h⟩ := Py.bind_ok.mp h
      rw [Py.pure_ok] at h
      subst h
      rw [← hw, ← batchWeight_singleton (blockTokens countTokens)] at hm
      rw [if_pos ⟨by simpa using hne, hw.symm ▸ hfull.2.1⟩, List.map_cons,
        packBlocks_open (by simp) hblocks hm]
      rfl
    · rename_i hfull
      rw [← hw, ← batchWeight_singleton (blockTokens countTokens), ← batchWeight_append] at h
      rw [if_neg (fun hp => hfull ⟨hne, hw ▸ hp.2, hb⟩)]
      exact packBlocks_open (by simp) hblocks h

/-- **Greedy packing.** The batches of a section, each with its text and the sum of its counts. -/
theorem packBlocks_eq {countTokens : Str → Py Nat} {maxTokens : Nat} {s : Section}
    (hs : s.Headed) {pieces : List (Str × Nat)}
    (h : packBlocks countTokens maxTokens [] 0 s.blocks = .ok pieces) :
    pieces = (pack (blockTokens countTokens) maxTokens [] s.blocks).map (yielded countTokens) := by
  unfold Section.Headed at hs
  cases hb : s.blocks with
  | nil =>
    rw [hb] at h
    cases h
    rfl
  | cons b blocks =>
    rw [hb] at h hs
    obtain ⟨n, hn, h⟩ := Py.bind_ok.mp h
    rw [if_neg (by simp), Nat.zero_add, ← blockTokens_of_ok hn,
      ← batchWeight_singleton (blockTokens countTokens)] at h
    rw [pack_first]
    exact packBlocks_open (List.cons_ne_nil b []) hs h

section
variable {w : Worker} {maxTokens : Nat}

/-- The section counts more than `max_tokens`. -/
def Section.Oversized (w : Worker) (maxTokens : Nat) (s : Section) : Prop :=
  ∃ n, w.countTokens s.text = .ok n ∧ maxTokens < n

instance (s : Section) : Decidable (s.Oversized w maxTokens) :=
  match h : w.countTokens s.text with
  | .ok n => decidable_of_iff (maxTokens < n) (by simp [Section.Oversized, h])
  | .error _ => isFalse (by simp [Section.Oversized, h])

/-- The blocks of each chunk of a section. -/
def Section.batches (w : Worker) (maxTokens : Nat) (s : Section) : List (List Block) :=
  if s.Oversized w maxTokens then pack (blockTokens w.countTokens) maxTokens [] s.blocks
  else [s.blocks]

theorem batches_of_oversized {s : Section} (h : s.Oversized w maxTokens) :
    s.batches w maxTokens = pack (blockTokens w.countTokens) maxTokens [] s.blocks := if_pos h

theorem mem_of_mem_batches {s : Section} {batch : List Block} (h : batch ∈ s.batches w maxTokens) :
    ∀ b ∈ batch, b ∈ s.blocks := by
  intro b hb
  unfold Section.batches at h
  split at h
  · rw [← (packs_pack s.blocks).flatten]
    exact List.mem_flatten_of_mem h hb
  · rwa [← List.mem_singleton.mp h]

/-- A chunk that was cut from an oversized section, or is a whole section with its count. -/
def Stamped (w : Worker) (maxTokens : Nat) (s : Section) (batch : List Block) (n : Nat) : Prop :=
  (s.Oversized w maxTokens ∧ n = batchWeight (blockTokens w.countTokens) batch) ∨
    (batch = s.blocks ∧ w.countTokens s.text = .ok n ∧ n ≤ maxTokens)

theorem sectionPieces_batches {s : Section} (hs : s.Headed) {pieces : List (Str × Nat)}
    (h : sectionPieces w maxTokens s = .ok pieces) :
    List.Forall₂ (fun p batch => p.1 = batchText batch ∧ Stamped w maxTokens s batch p.2) pieces
      (s.batches w maxTokens) := by
  obtain ⟨n, hn, h⟩ := Py.bind_ok.mp h
  unfold Section.batches
  split at h
  · rename_i hle
    cases h
    rw [if_neg]
    · exact .cons ⟨rfl, .inr ⟨rfl, hn, hle⟩⟩ .nil
    · rintro ⟨m, hm, hlt⟩
      rw [hn] at hm
      cases hm
      omega
  · rename_i hle
    have hover : s.Oversized w maxTokens := ⟨n, hn, Nat.lt_of_not_le hle⟩
    rw [if_pos hover, packBlocks_eq hs h, List.forall₂_map_left_iff, List.forall₂_same]
    exact fun batch _ => ⟨rfl, .inl ⟨hover, rfl⟩⟩

theorem sectionChunks_content (s : Section) : ∀ (pieces : List (Str × Nat)) (start : Nat),
    (sectionChunks w s start pieces).map (fun c => (c.content, c.contentTokens)) = pieces
  | [], _ => rfl
  | (text, n) :: pieces, start => by
    have ih := sectionChunks_content s pieces (start + 1)
    exact congrArg ((text, n) :: ·) ih

/-- What stands behind a chunk: the section it was cut from, and the blocks it holds. -/
structure Origin where
  source : Section
  blocks : List Block

/-- The origins of the chunks of these sections, in order. -/
def origins (w : Worker) (maxTokens : Nat) (sections : List Section) : List Origin :=
  sections.flatMap fun s => (s.batches w maxTokens).map fun batch => ⟨s, batch⟩

/-- The chunk has the text of its blocks, and the count the chunker took. -/
def FromOrigin (w : Worker) (maxTokens : Nat) (c : Chunk) (o : Origin) : Prop :=
  c.content = batchText o.blocks ∧ Stamped w maxTokens o.source o.blocks c.contentTokens

theorem chunkSections_origins : ∀ {sections : List Section} {chunks : List Chunk} {title : Json}
    {out : List Chunk × Json}, (∀ s ∈ sections, s.Formed ∧ s.text ≠ []) →
    chunkSections w maxTokens chunks title sections = .ok out →
    ∃ more, out.1 = chunks ++ more ∧
      List.Forall₂ (FromOrigin w maxTokens) more (origins w maxTokens sections)
  | [], chunks, title, out, _, h => by
    cases h
    exact ⟨[], (List.append_nil _).symm, .nil⟩
  | s :: sections, chunks, title, out, hs, h => by
    obtain ⟨⟨hformed, htext⟩, hs⟩ := List.forall_mem_cons.mp hs
    unfold chunkSections at h
    rw [if_neg htext] at h
    obtain ⟨pieces, hp, h⟩ := Py.bind_ok.mp h
    obtain ⟨more, hout, hmore⟩ := chunkSections_origins hs h
    refine ⟨_, by rw [hout, List.append_assoc], ?_⟩
    have hpieces := sectionPieces_batches hformed.headed hp
    rw [← sectionChunks_content s pieces chunks.length, List.forall₂_map_left_iff] at hpieces
    unfold origins
    rw [List.flatMap_cons]
    refine List.rel_append ?_ hmore
    rw [List.forall₂_map_right_iff]
    exact hpieces

/-- A body as the Markdown parser accepts it, and the document it gives. -/
structure Parsed (w : Worker) (maxTokens : Nat) (body : Str) (doc : ParsedDocument) : Prop where
  accepted : w.mistune body = true
  parsed : ∃ text metadata, w.frontmatter text = .ok (body, metadata) ∧
    parseDocument w text maxTokens = .ok doc

/-- **The chunks of a document are the batches of its sections.** -/
theorem parseDocument_batches {body : Str} {doc : ParsedDocument}
    (h : Parsed w maxTokens body doc) : List.Forall₂ (FromOrigin w maxTokens) doc.chunks
      (origins w maxTokens (groupIntoSections (scanBlocks w.isDecimal body))) := by
  obtain ⟨hm, text, metadata, hf, h⟩ := h
  unfold parseDocument at h
  obtain ⟨-, -, h⟩ := Py.bind_ok.mp h
  obtain ⟨⟨body', metadata'⟩, hf', h⟩ := Py.bind_ok.mp h
  rw [hf] at hf'
  cases hf'
  dsimp only at h
  rw [if_neg (by simp [hm])] at h
  obtain ⟨⟨chunks, title⟩, hc, h⟩ := Py.bind_ok.mp h
  cases h
  have hsections : ∀ s ∈ groupIntoSections (scanBlocks w.isDecimal body), s.Formed ∧ s.text ≠ [] :=
    fun s hs => ⟨groupIntoSections_formed _ s hs, groupIntoSections_text body s hs⟩
  obtain ⟨more, hout, hmore⟩ := chunkSections_origins hsections hc
  rw [List.nil_append] at hout
  exact hout ▸ hmore

/-! ## Counts -/

/-- The text of one block, or of a heading and one block. -/
def Atomic (blocks : List Block) (content : Str) : Prop :=
  ∃ b ∈ blocks, content = batchText [b] ∨
    ∃ h ∈ blocks, h.kind = .heading ∧ content = batchText [h, b]

/-- Every chunk is stamped with the token count of its content, and is at most `max_tokens` large
or a single block apart from its heading. -/
def SizeLaw (w : Worker) (maxTokens : Nat) (body : Str) (doc : ParsedDocument) : Prop :=
  ∀ c ∈ doc.chunks, w.countTokens c.content = .ok c.contentTokens ∧
    (c.contentTokens ≤ maxTokens ∨ Atomic (scanBlocks w.isDecimal body) c.content)

/-- The batch's text counts what its blocks count together. -/
def AddsUp (w : Worker) (batch : List Block) : Prop :=
  w.countTokens (batchText batch) = .ok (batchWeight (blockTokens w.countTokens) batch)

theorem mem_origins {sections : List Section} {o : Origin} :
    o ∈ origins w maxTokens sections ↔
      o.source ∈ sections ∧ o.blocks ∈ o.source.batches w maxTokens := by
  unfold origins
  simp only [List.mem_flatMap, List.mem_map]
  constructor
  · rintro ⟨s, hs, batch, hb, rfl⟩
    exact ⟨hs, hb⟩
  · exact fun ⟨hs, hb⟩ => ⟨_, hs, _, hb, rfl⟩

/-- A stamp is within the cap, or the chunk is one block. -/
theorem Stamped.le_or_single {s : Section} {batch : List Block} {n : Nat}
    (h : Stamped w maxTokens s batch n) (hm : batch ∈ s.batches w maxTokens) :
    n ≤ maxTokens ∨ ∃ b, batch = [b] := by
  rcases h with ⟨hover, rfl⟩ | ⟨-, -, hle⟩
  · rw [batches_of_oversized hover] at hm
    obtain ⟨-, hfits⟩ := (packs_pack s.blocks).fits batch hm
    exact hfits.imp_right List.length_eq_one_iff.mp
  · exact .inl hle

/-- **The size law.** For every body, cap and token count: each chunk is stamped with the count of
its content exactly when, in every section that has to be split, the batches count what their
blocks count together. (The bound holds in any case.) -/
theorem size_law_iff (w : Worker) (maxTokens : Nat) (body : Str) (doc : ParsedDocument)
    (h : Parsed w maxTokens body doc) : SizeLaw w maxTokens body doc ↔
      ∀ s ∈ groupIntoSections (scanBlocks w.isDecimal body), s.Oversized w maxTokens →
        ∀ batches, Packs (blockTokens w.countTokens) maxTokens s.blocks batches →
          ∀ batch ∈ batches, AddsUp w batch := by
  have hchunks := parseDocument_batches h
  constructor
  · intro hlaw s hs hover batches hpacks batch hb
    rw [packs_iff.mp hpacks, ← batches_of_oversized hover] at hb
    obtain ⟨c, hc, hcontent, hstamp⟩ :=
      exists_left_of_forall₂ hchunks (mem_origins (o := ⟨s, batch⟩).mpr ⟨hs, hb⟩)
    dsimp only at hcontent hstamp
    obtain ⟨hcount, -⟩ := hlaw c hc
    rw [hcontent] at hcount
    rcases hstamp with ⟨-, hn⟩ | ⟨rfl, hn, hle⟩
    · rwa [hn] at hcount
    · -- a section over the cap is not kept whole
      obtain ⟨m, hm, hlt⟩ := hover
      rw [hn] at hm
      cases hm
      exact absurd hle (Nat.not_le.mpr hlt)
  · intro hadds c hc
    obtain ⟨⟨s, batch⟩, ho, hcontent, hstamp⟩ := exists_right_of_forall₂ hchunks hc
    obtain ⟨hs, hb⟩ := mem_origins.mp ho
    dsimp only at hs hb hcontent hstamp
    rw [hcontent]
    refine ⟨?_, (hstamp.le_or_single hb).imp_right ?_⟩
    · rcases hstamp with ⟨hover, hn⟩ | ⟨rfl, hn, -⟩
      · rw [hn]
        rw [batches_of_oversized hover] at hb
        exact hadds s hs hover _ (packs_pack s.blocks) batch hb
      · exact hn
    · rintro ⟨b, rfl⟩
      have hmem := mem_of_mem_batches hb b List.mem_cons_self
      exact ⟨b, mem_groupIntoSections (fun _ h => h) s hs b hmem, .inl rfl⟩

end

section
open FileProcessing (asciiWorker)

theorem asciiWorker_parsed {body : Str} {maxTokens : Nat} {doc : ParsedDocument}
    (hs : strip body = body) (h : parseDocument asciiWorker body maxTokens = .ok doc) :
    Parsed asciiWorker maxTokens body doc :=
  ⟨rfl, body, [], congrArg (fun body => Except.ok (body, [])) hs, h⟩

/-- Two paragraphs that do not go together. -/
def longLines : Str := "aaaa\n\nbbbb"

theorem size_law_longLines : ∃ doc, Parsed asciiWorker 5 longLines doc ∧
    doc.chunks.length = 2 ∧ SizeLaw asciiWorker 5 longLines doc := by
  obtain ⟨doc, hdoc, hchunks⟩ := Py.exists_of_map_eq
    (f := fun d : ParsedDocument => d.chunks.length)
    (b := 2) (x := parseDocument asciiWorker longLines 5) (by decide +kernel)
  have hparsed := asciiWorker_parsed (by decide +kernel) hdoc
  refine ⟨doc, hparsed, hchunks, (size_law_iff _ _ _ _ hparsed).mpr ?_⟩
  intro s hs hover batches hpacks batch hb
  rw [packs_iff.mp hpacks] at hb
  have hadds : ∀ s ∈ groupIntoSections (scanBlocks asciiWorker.isDecimal longLines),
      ∀ batch ∈ pack (blockTokens asciiWorker.countTokens) 5 [] s.blocks,
        AddsUp asciiWorker batch := by
    unfold AddsUp
    decide +kernel
  exact hadds s hs batch hb

/-- Two paragraphs that go together. -/
def shortLines : Str := "a\n\nb"

/-- A chunk that is stamped with the sum of its blocks, and counts more than that and the cap. -/
theorem separators_not_counted : ∃ doc, Parsed asciiWorker 3 shortLines doc ∧
    doc.chunks.map (fun c => (c.content, c.contentTokens)) = [(shortLines, 2)] ∧
    asciiWorker.countTokens shortLines = .ok 4 ∧ ¬ SizeLaw asciiWorker 3 shortLines doc := by
  obtain ⟨doc, hdoc, hchunks⟩ := Py.exists_of_map_eq
    (f := fun d : ParsedDocument => d.chunks.map fun c => (c.content, c.contentTokens))
    (b := [(shortLines, 2)]) (x := parseDocument asciiWorker shortLines 3) (by decide +kernel)
  refine ⟨doc, asciiWorker_parsed (by decide +kernel) hdoc, hchunks, rfl, fun hlaw => ?_⟩
  have hm : (shortLines, 2) ∈ doc.chunks.map fun c => (c.content, c.contentTokens) :=
    hchunks ▸ List.mem_singleton_self _
  obtain ⟨c, hc, he⟩ := List.mem_map.mp hm
  obtain ⟨hcontent, htokens⟩ := Prod.ext_iff.mp he
  obtain ⟨hcount, -⟩ := hlaw c hc
  dsimp only at hcontent htokens
  rw [hcontent, htokens] at hcount
  cases hcount

end

/-! ## Headings -/

section
variable {w : Worker} {maxTokens : Nat}

/-- Every chunk holds a block that is not a heading, and the heading of a section stands in one
chunk with the block behind it. -/
def HeadingsKept (w : Worker) (maxTokens : Nat) (sections : List Section) : Prop :=
  (∀ o ∈ origins w maxTokens sections, ∃ b ∈ o.blocks, b.kind ≠ .heading) ∧
    ∀ s ∈ sections, ∀ h b more, s.blocks = h :: b :: more → h.kind = .heading →
      ∃ batch ∈ s.batches w maxTokens, [h, b] <+: batch

/-- In a section that has to be split, the heading and the block behind it are within the cap. -/
def HeadingFits (w : Worker) (maxTokens : Nat) (s : Section) : Prop :=
  s.Oversized w maxTokens → ∀ h b more, s.blocks = h :: b :: more → h.kind = .heading →
    blockTokens w.countTokens h + blockTokens w.countTokens b ≤ maxTokens

/-- Behind a heading that fits, no heading is a batch by itself. -/
theorem batches_body {s : Section} (hs : s.Formed) (hfits : HeadingFits w maxTokens s) :
    ∀ batch ∈ s.batches w maxTokens, ∃ b ∈ batch, b.kind ≠ .heading := by
  intro batch hm
  have hbody : ∃ b ∈ s.blocks, b.kind ≠ .heading := by
    simpa [Section.hasBody] using hs.body
  by_cases hover : s.Oversized w maxTokens
  · have hheaded := hs.headed
    unfold Section.Headed at hheaded
    rw [batches_of_oversized hover] at hm
    have hne := ((packs_pack s.blocks).fits batch hm).1
    have hsub := mem_of_mem_batches (w := w) (s := s) (batches_of_oversized hover ▸ hm)
    cases hblocks : s.blocks with
    | nil => simp [hblocks] at hbody
    | cons a rest =>
      rw [hblocks] at hheaded hbody hsub hm
      by_cases ha : a.kind = .heading
      · cases rest with
        | nil => simp [ha] at hbody
        | cons b more =>
          -- the heading and the block behind it open the first batch
          have hroom := hfits hover a b more hblocks ha
          obtain ⟨taken, batches, hp, hi⟩ := pack_pair more hroom
          rw [hp] at hm
          rcases List.mem_cons.mp hm with rfl | hm
          · exact ⟨b, by simp, hheaded b List.mem_cons_self⟩
          · obtain ⟨c, hc⟩ := List.exists_mem_of_ne_nil _ hne
            refine ⟨c, hc, hheaded c (List.mem_cons_of_mem _ ?_)⟩
            rw [← hi]
            exact List.mem_append_right _ (List.mem_flatten_of_mem hm hc)
      · obtain ⟨c, hc⟩ := List.exists_mem_of_ne_nil _ hne
        refine ⟨c, hc, ?_⟩
        rcases List.mem_cons.mp (hsub c hc) with rfl | hc
        · exact ha
        · exact hheaded c hc
  · rw [Section.batches, if_neg hover, List.mem_singleton] at hm
    rwa [hm]

/-- **No chunk is a heading alone**, for every body, cap and token count, exactly when in every
section that has to be split the heading and the block behind it are within the cap. -/
theorem heading_kept_iff (w : Worker) (maxTokens : Nat) (body : Str) (doc : ParsedDocument)
    (h : Parsed w maxTokens body doc) :
    List.Forall₂ (FromOrigin w maxTokens) doc.chunks
        (origins w maxTokens (groupIntoSections (scanBlocks w.isDecimal body))) ∧
      (HeadingsKept w maxTokens (groupIntoSections (scanBlocks w.isDecimal body)) ↔
        ∀ s ∈ groupIntoSections (scanBlocks w.isDecimal body), HeadingFits w maxTokens s) := by
  refine ⟨parseDocument_batches h, ?_, fun hfits => ⟨fun o ho => ?_, ?_⟩⟩
  · rintro ⟨-, hjoined⟩ s hs hover a b more hblocks ha
    obtain ⟨batch, hm, rest, rfl⟩ := hjoined s hs a b more hblocks ha
    rw [batches_of_oversized hover] at hm
    rcases ((packs_pack s.blocks).fits _ hm).2 with hle | hone
    · simp only [List.cons_append, batchWeight_cons] at hle
      omega
    · simp at hone
  · obtain ⟨hs, hb⟩ := mem_origins.mp ho
    exact batches_body (groupIntoSections_formed _ _ hs) (hfits _ hs) _ hb
  · intro s hs a b more hblocks ha
    by_cases hover : s.Oversized w maxTokens
    · obtain ⟨taken, batches, hp, -⟩ := pack_pair more (hfits s hs hover a b more hblocks ha)
      rw [batches_of_oversized hover, hblocks, hp]
      exact ⟨_, List.mem_cons_self, List.prefix_append _ _⟩
    · rw [Section.batches, if_neg hover]
      exact ⟨s.blocks, List.mem_singleton_self _, more, hblocks.symm⟩

end

section
open FileProcessing (asciiWorker)

/-- A heading with a short paragraph and a long one. -/
def shortFirst : Str := "# A\n\nb\n\ncccc"

theorem heading_kept_shortFirst : ∃ doc, Parsed asciiWorker 5 shortFirst doc ∧
    HeadingsKept asciiWorker 5
      (groupIntoSections (scanBlocks asciiWorker.isDecimal shortFirst)) := by
  obtain ⟨doc, hdoc⟩ := Py.exists_of_isOk
    (x := parseDocument asciiWorker shortFirst 5) (by decide +kernel)
  have hparsed := asciiWorker_parsed (by decide +kernel) hdoc
  refine ⟨doc, hparsed, (heading_kept_iff _ _ _ _ hparsed).2.mpr ?_⟩
  intro s hs _ a b more hblocks _
  have hfits : ∀ s ∈ groupIntoSections (scanBlocks asciiWorker.isDecimal shortFirst),
      batchWeight (blockTokens asciiWorker.countTokens) (s.blocks.take 2) ≤ 5 := by
    decide +kernel
  have h := hfits s hs
  rw [hblocks] at h
  simpa [batchWeight] using h

/-- A heading and a paragraph that does not fit beside it. -/
def longFirst : Str := "# A\n\nbbbb"

/-- The heading is flushed before the paragraph, as a chunk of its own. -/
theorem heading_left_alone : ∃ doc, Parsed asciiWorker 5 longFirst doc ∧
    doc.chunks.map (·.content) = ["# A".toList, "bbbb".toList] ∧
    ¬ HeadingsKept asciiWorker 5
      (groupIntoSections (scanBlocks asciiWorker.isDecimal longFirst)) := by
  obtain ⟨doc, hdoc, hchunks⟩ := Py.exists_of_map_eq
    (f := fun d : ParsedDocument => d.chunks.map (·.content))
    (b := ["# A".toList, "bbbb".toList]) (x := parseDocument asciiWorker longFirst 5)
    (by decide +kernel)
  refine ⟨doc, asciiWorker_parsed (by decide +kernel) hdoc, hchunks, fun h => ?_⟩
  have hstub : ¬ ∀ o ∈ origins asciiWorker 5
      (groupIntoSections (scanBlocks asciiWorker.isDecimal longFirst)),
      ∃ b ∈ o.blocks, b.kind ≠ .heading := by
    decide +kernel
  exact hstub h.1

end

end KnowledgeKiln.L1.Chunking
