import KnowledgeKiln.L1Ingest.Conservation

/-!
# The heading path of a section (ingestion/chunking.py)

`groupStep` keeps the path as a list and cuts it at the level of the next heading. The length of
the list is the level of its last heading only while no level has been skipped, so a heading can
stay in the path of a sibling.

* `sectionPath`: the headings that enclose a section, found by walking back from it.
* `sectionPath_sublist`: they are all in its path, in order.
* `heading_path_iff`: when a document has no other heading in its paths.
* `blank_path_line`: a chunk under the path `[""]` stands under a heading of blanks.
-/
namespace KnowledgeKiln.L1.Chunking

open KnowledgeKiln.Core

/-! ## Enclosing headings

A heading is looked at together with the headings before it, the nearest first. -/

/-- The texts of the headings that enclose one of this level: the nearest of a smaller level, and
those that enclose that one. -/
def enclosing (level : Nat) : List Block → List Str
  | [] => []
  | h :: before =>
    if h.headingLevel < level then enclosing h.headingLevel before ++ [h.headingText]
    else enclosing level before

/-- The path of the section under the first of these headings, with the others before it. -/
def sectionPath : List Block → List Str
  | [] => []
  | h :: before => enclosing h.headingLevel before ++ [h.headingText]

/-- The headings up to each section with a body, the section's own first; `seen` once the section
they lead to has been listed. -/
def sectionHeadings (before : List Block) (seen : Bool) : List Block → List (List Block)
  | [] => []
  | b :: bs =>
    if b.kind = .heading then sectionHeadings (b :: before) false bs
    else if seen then sectionHeadings before true bs
    else before :: sectionHeadings before true bs

/-- The path that `groupStep` holds after these headings. -/
def codePath : List Block → List Str
  | [] => []
  | h :: before => (codePath before).take (h.headingLevel - 1) ++ [h.headingText]

/-! ## The condition -/

/-- A heading of this level stands as deep as its level says, or right behind the heading that
encloses it (or at the start of the document). -/
def WellPlaced (level : Nat) (before : List Block) : Prop :=
  level = (enclosing level before).length + 1 ∨
    before.head?.all (·.headingLevel < level) = true

/-- So do the headings that enclose one of this level. -/
def Anchored (level : Nat) : List Block → Prop
  | [] => True
  | h :: before =>
    if h.headingLevel < level then
      WellPlaced h.headingLevel before ∧ Anchored h.headingLevel before
    else Anchored level before

/-- The section's own heading and those that enclose it are well placed. -/
def SectionAnchored : List Block → Prop
  | [] => True
  | h :: before => WellPlaced h.headingLevel before ∧ Anchored h.headingLevel before

/-- Every section has the path of the headings that enclose it. -/
def PathsEnclose (blocks : List Block) : Prop :=
  (groupIntoSections blocks).map (·.headingPath) = (sectionHeadings [] false blocks).map sectionPath

instance pathsEncloseDecidable (blocks : List Block) : Decidable (PathsEnclose blocks) :=
  inferInstanceAs (Decidable (_ = _))

/-! ## The path of the code -/

/-- Grouping gives each section the path that its headings leave. -/
theorem foldl_groupStep_paths : ∀ {blocks before : List Block} {g : Grouping},
    g.path = codePath before → g.current.headingPath = codePath before →
    (blocks.foldl groupStep g).closed.map (·.headingPath) =
      g.closed.map (·.headingPath) ++
        (sectionHeadings before g.current.hasBody blocks).map codePath
  | [], before, g, _, _ => (List.append_nil _).symm
  | b :: blocks, before, g, hpath, hcurrent => by
    rw [List.foldl_cons]
    unfold sectionHeadings
    by_cases hb : b.kind = .heading
    · have hstep : groupStep g b =
          { sections := g.closed
            path := codePath (b :: before)
            current := { headingPath := codePath (b :: before), blocks := [b] } } := by
        simp [groupStep, hb, codePath, hpath]
      have hbody : (groupStep g b).current.hasBody = false := by
        simp [hstep, Section.hasBody, hb]
      have hclosed : (groupStep g b).closed = g.closed := by
        rw [Grouping.closed, hbody, if_neg Bool.false_ne_true, hstep]
      have hnext : (groupStep g b).path = codePath (b :: before) := by rw [hstep]
      have hnext' : (groupStep g b).current.headingPath = codePath (b :: before) := by rw [hstep]
      rw [if_pos hb, foldl_groupStep_paths hnext hnext', hclosed, hbody]
    · have hstep : groupStep g b =
          { g with current := { g.current with blocks := g.current.blocks ++ [b] } } := by
        simp [groupStep, hb]
      have hbody : (groupStep g b).current.hasBody = true := by
        simp [hstep, Section.hasBody, hb]
      have hclosed : (groupStep g b).closed.map (·.headingPath) =
          g.sections.map (·.headingPath) ++ [codePath before] := by
        rw [Grouping.closed, if_pos hbody, hstep]
        simp [hcurrent]
      have hnext : (groupStep g b).path = codePath before := by rw [hstep, hpath]
      have hnext' : (groupStep g b).current.headingPath = codePath before := by
        rw [hstep, hcurrent]
      rw [if_neg hb, foldl_groupStep_paths hnext hnext', hclosed, hbody, Grouping.closed]
      cases g.current.hasBody with
      | true => simp [hcurrent]
      | false => simp

theorem groupIntoSections_paths (blocks : List Block) :
    (groupIntoSections blocks).map (·.headingPath) =
      (sectionHeadings [] false blocks).map codePath := by
  have hstart : ({} : Grouping).path = codePath [] ∧
      ({} : Grouping).current.headingPath = codePath [] := ⟨rfl, rfl⟩
  exact foldl_groupStep_paths hstart.1 hstart.2

/-! ## Where the two paths agree -/

theorem codePath_length_le {h : Block} {before : List Block} (hl : 1 ≤ h.headingLevel) :
    (codePath (h :: before)).length ≤ h.headingLevel := by
  rw [codePath, List.length_append, List.length_take, List.length_singleton]
  omega

/-- The enclosing headings are what is left of the path, or some of it. -/
theorem enclosing_sublist : ∀ {before : List Block} {level : Nat}, 1 ≤ level →
    (∀ h ∈ before, 1 ≤ h.headingLevel) →
    (enclosing level before).Sublist ((codePath before).take (level - 1))
  | [], _, _, _ => by simp [enclosing]
  | h :: before, level, hl, hlevels => by
    obtain ⟨hh, hbefore⟩ := List.forall_mem_cons.mp hlevels
    unfold enclosing
    split
    · rename_i hlt
      have hlen : (codePath (h :: before)).length ≤ h.headingLevel := codePath_length_le hh
      rw [List.take_of_length_le (by omega), codePath]
      exact (enclosing_sublist hh hbefore).append (List.Sublist.refl _)
    · rename_i hge
      have ih := enclosing_sublist hl hbefore
      refine ih.trans ?_
      rw [codePath, List.take_append, List.take_take]
      rw [Nat.min_eq_left (by omega)]
      exact List.sublist_append_left _ _

/-- The path is cut to the enclosing headings exactly when a heading of this level, and those that
enclose it, are well placed. -/
theorem cut_length_iff : ∀ {before : List Block} {level : Nat}, 1 ≤ level →
    (∀ h ∈ before, 1 ≤ h.headingLevel) →
    ((enclosing level before).length = min (level - 1) (codePath before).length ↔
      WellPlaced level before ∧ Anchored level before)
  | [], level, _, _ => by simp [enclosing, codePath, WellPlaced, Anchored]
  | h :: before, level, hl, hlevels => by
    obtain ⟨hh, hbefore⟩ := List.forall_mem_cons.mp hlevels
    have hlen : (codePath (h :: before)).length =
        min (h.headingLevel - 1) (codePath before).length + 1 := by
      simp [codePath]
    by_cases hlt : h.headingLevel < level
    · have ih := cut_length_iff hh hbefore
      have henclosing : enclosing level (h :: before) =
          enclosing h.headingLevel before ++ [h.headingText] := by rw [enclosing, if_pos hlt]
      have hplaced : WellPlaced level (h :: before) := .inr (by simpa using hlt)
      rw [Anchored, if_pos hlt, ← ih, henclosing, List.length_append, List.length_singleton, hlen,
        and_iff_right hplaced]
      omega
    · have ih := cut_length_iff hl hbefore
      have henclosing : enclosing level (h :: before) = enclosing level before := by
        rw [enclosing, if_neg hlt]
      have hle := (enclosing_sublist hl hbefore).length_le
      have hplaced : WellPlaced level (h :: before) ↔
          level = (enclosing level before).length + 1 := by
        unfold WellPlaced
        rw [henclosing]
        simp [hlt]
      rw [List.length_take] at hle
      rw [Anchored, if_neg hlt, hplaced, henclosing, hlen]
      constructor
      · intro he
        have hdeep : level = (enclosing level before).length + 1 := by omega
        refine ⟨hdeep, (ih.mp ?_).2⟩
        omega
      · intro ⟨hdeep, _⟩
        omega

/-- **The path of a section** is that of its enclosing headings exactly when they are anchored. -/
theorem codePath_eq_iff {hs : List Block} (hlevels : ∀ h ∈ hs, 1 ≤ h.headingLevel) :
    codePath hs = sectionPath hs ↔ SectionAnchored hs := by
  cases hs with
  | nil => simp [codePath, sectionPath, SectionAnchored]
  | cons h before =>
    obtain ⟨hh, hbefore⟩ := List.forall_mem_cons.mp hlevels
    have hsub := enclosing_sublist hh hbefore
    have hcut := cut_length_iff hh hbefore
    rw [← List.length_take] at hcut
    rw [codePath, sectionPath, SectionAnchored, List.append_left_inj, ← hcut]
    constructor
    · intro he
      rw [he]
    · intro hlen
      exact (hsub.eq_of_length hlen).symm

/-- The enclosing headings are in the path, in order. -/
theorem sectionPath_sublist {hs : List Block} (hlevels : ∀ h ∈ hs, 1 ≤ h.headingLevel) :
    (sectionPath hs).Sublist (codePath hs) := by
  cases hs with
  | nil => exact List.Sublist.refl _
  | cons h before =>
    obtain ⟨hh, hbefore⟩ := List.forall_mem_cons.mp hlevels
    exact (enclosing_sublist hh hbefore).append (List.Sublist.refl _)

/-! ## Documents -/

section
variable {isDecimal : Char → Bool}

theorem headingMatch_level {line : Str} {level : Nat} {text : Str}
    (h : headingMatch line = some (level, text)) : 1 ≤ level := by
  unfold headingMatch at h
  dsimp only at h
  split at h
  · cases h
  · rename_i hne
    rw [not_or] at hne
    have hpos := List.length_pos_of_ne_nil hne.1
    split at h
    · split at h
      · cases h
      · cases h
        exact hpos
    · cases h
      exact hpos

theorem nextBlock_match {line : Str} {lines : List Str}
    (h : (nextBlock isDecimal line lines).1.kind = .heading) :
    headingMatch (nextBlock isDecimal line lines).1.text =
      some ((nextBlock isDecimal line lines).1.headingLevel,
        (nextBlock isDecimal line lines).1.headingText) := by
  rw [nextBlock_heading h]
  unfold nextBlock at h ⊢
  split at h
  · cases h
  · split at h
    · rename_i hm
      exact hm
    · split at h
      · cases h
      · split at h <;> cases h

/-- A heading block is a heading line, with its level and text. -/
theorem scanLoop_match : ∀ (fuel : Nat) (lines : List Str),
    ∀ b ∈ scanLoop isDecimal fuel lines, b.kind = .heading →
      headingMatch b.text = some (b.headingLevel, b.headingText)
  | 0, _, _, h, _ => by cases h
  | _ + 1, [], _, h, _ => by cases h
  | fuel + 1, line :: lines, b, h, hb => by
    unfold scanLoop at h
    split at h
    · exact scanLoop_match fuel lines b h hb
    · rcases List.mem_cons.mp h with rfl | h
      · exact nextBlock_match hb
      · exact scanLoop_match fuel _ b h hb

theorem mem_sectionHeadings : ∀ {blocks before : List Block} {seen : Bool},
    ∀ hs ∈ sectionHeadings before seen blocks, ∀ h ∈ hs,
      h ∈ before ∨ h ∈ blocks ∧ h.kind = .heading
  | [], _, _, hs, hm, _, _ => by cases hm
  | b :: blocks, before, seen, hs, hm, h, hh => by
    unfold sectionHeadings at hm
    split at hm
    · rename_i hb
      rcases mem_sectionHeadings hs hm h hh with hh | ⟨hh, hk⟩
      · rcases List.mem_cons.mp hh with rfl | hh
        · exact .inr ⟨List.mem_cons_self, hb⟩
        · exact .inl hh
      · exact .inr ⟨List.mem_cons_of_mem _ hh, hk⟩
    · split at hm
      · exact (mem_sectionHeadings hs hm h hh).imp_right fun hh =>
          ⟨List.mem_cons_of_mem _ hh.1, hh.2⟩
      · rcases List.mem_cons.mp hm with rfl | hm
        · exact .inl hh
        · exact (mem_sectionHeadings hs hm h hh).imp_right fun hh =>
            ⟨List.mem_cons_of_mem _ hh.1, hh.2⟩

end

/-- **Heading paths.** Every section of a document has the path of its enclosing headings exactly
when the heading of each section, and every heading that encloses it, has a level equal to its
depth or comes right behind the heading that encloses it (at the top: is the first heading). -/
theorem heading_path_iff (isDecimal : Char → Bool) (body : Str) :
    PathsEnclose (scanBlocks isDecimal body) ↔
      ∀ hs ∈ sectionHeadings [] false (scanBlocks isDecimal body), SectionAnchored hs := by
  unfold PathsEnclose
  rw [groupIntoSections_paths, List.map_inj_left]
  refine forall₂_congr fun hs hm => codePath_eq_iff fun h hh => ?_
  obtain ⟨hb, hk⟩ := (mem_sectionHeadings hs hm h hh).resolve_left (by simp)
  exact headingMatch_level (scanLoop_match _ _ h hb hk)

/-- Two level-2 headings at the start of a document. -/
def siblingPage : Str := "## A\n\na\n\n## B\n\nb"

/-- The first of two siblings stays in the path of the second. -/
theorem sibling_in_path : ¬ PathsEnclose (scanBlocks Char.isDigit siblingPage) := by
  decide +kernel

/-! ## Headings that strip to nothing -/

section
variable {w : Worker} {maxTokens : Nat}

theorem chunkSections_path : ∀ {sections : List Section} {chunks : List Chunk} {title : Json}
    {out : List Chunk × Json}, chunkSections w maxTokens chunks title sections = .ok out →
    ∀ c ∈ out.1, c ∈ chunks ∨ ∃ s ∈ sections, c.headingPath = s.headingPath
  | [], chunks, title, out, h, c, hc => by
    cases h
    exact .inl hc
  | s :: sections, chunks, title, out, h, c, hc => by
    unfold chunkSections at h
    split at h
    · apply (chunkSections_path h c hc).imp_right
      rintro ⟨s', hs', he⟩
      exact ⟨s', List.mem_cons_of_mem _ hs', he⟩
    obtain ⟨pieces, _, h⟩ := Py.bind_ok.mp h
    rcases chunkSections_path h c hc with hm | ⟨s', hs', he⟩
    · refine (List.mem_append.mp hm).imp_right fun hm => ?_
      obtain ⟨⟨⟨text, tokens⟩, i⟩, -, rfl⟩ := List.mem_map.mp hm
      exact ⟨s, List.mem_cons_self, rfl⟩
    · exact .inr ⟨s', List.mem_cons_of_mem _ hs', he⟩

/-- The path of a chunk is the one its section's headings leave. -/
theorem parseDocument_path {text : Str} {doc : ParsedDocument}
    (h : parseDocument w text maxTokens = .ok doc) {c : Chunk} (hc : c ∈ doc.chunks) :
    ∃ body metadata, w.frontmatter text = .ok (body, metadata) ∧
      ∃ hs ∈ sectionHeadings [] false (scanBlocks w.isDecimal body),
        c.headingPath = codePath hs := by
  unfold parseDocument at h
  obtain ⟨_, _, h⟩ := Py.bind_ok.mp h
  obtain ⟨⟨body, metadata⟩, hb, h⟩ := Py.bind_ok.mp h
  dsimp only at h
  split at h
  · cases h
    cases hc
  obtain ⟨⟨chunks, title⟩, hm, h⟩ := Py.bind_ok.mp h
  cases h
  obtain ⟨s, hs, he⟩ := (chunkSections_path hm c hc).resolve_left (by simp)
  have hpath := List.mem_map_of_mem (f := (·.headingPath)) hs
  rw [groupIntoSections_paths] at hpath
  obtain ⟨hs', hmem, hp⟩ := List.mem_map.mp hpath
  exact ⟨body, metadata, hb, hs', hmem, he.trans hp.symm⟩

theorem codePath_eq_blank {hs : List Block} (h : codePath hs = [[]]) :
    ∃ b ∈ hs, b.headingText = [] := by
  cases hs with
  | nil => cases h
  | cons b before =>
    have hlast := congrArg List.getLast? h
    rw [codePath, List.getLast?_concat] at hlast
    exact ⟨b, List.mem_cons_self, Option.some.inj hlast⟩

/-- A chunk under the path `[""]` stands under such a line. -/
theorem blank_path_line {text : Str} {doc : ParsedDocument}
    (h : parseDocument w text maxTokens = .ok doc) {c : Chunk} (hc : c ∈ doc.chunks)
    (hp : c.headingPath = [[]]) : ∃ body metadata, w.frontmatter text = .ok (body, metadata) ∧
      ∃ line ∈ splitlines body, ∃ level, headingMatch line = some (level, []) := by
  obtain ⟨body, metadata, hb, hs, hmem, he⟩ := parseDocument_path h hc
  obtain ⟨b, hbs, htext⟩ := codePath_eq_blank (he.symm.trans hp)
  obtain ⟨hblock, hk⟩ := (mem_sectionHeadings hs hmem b hbs).resolve_left (by simp)
  have hm := scanLoop_match _ _ b hblock hk
  rw [htext] at hm
  exact ⟨body, metadata, hb, b.text, scanLoop_heading _ _ b hblock hk, _, hm⟩

end

end KnowledgeKiln.L1.Chunking
