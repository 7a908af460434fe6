import KnowledgeKiln.Core.CodedText
import KnowledgeKiln.Core.Html

/-!
# Highlighted excerpts (`api/result_cards.py`)

`highlight_excerpt` escapes the text first and wraps the terms of the query where they match the
escaped text, so that a term can match inside a character reference. The result is read as HTML.

* `alternatives_ne`: no alternative of the pattern is empty.
* `read_hits`: a text whose matches are whole is read back.
* `highlight_iff`: the texts and queries that keep the excerpt.
* `amp_splits_reference`: `amp` in the reference of an ampersand.
-/
namespace KnowledgeKiln.L4.ResultCards

open KnowledgeKiln.Core Subst Coded Coding Html

/-! ## The code -/

/-- `_STOPWORDS` -/
def stopwords : List Str :=
  ["a".toList, "an".toList, "the".toList, "is".toList, "of".toList, "to".toList, "in".toList,
    "on".toList, "or".toList, "by".toList, "at".toList, "as".toList, "if".toList, "it".toList,
    "be".toList, "do".toList]

/-- `_PHRASE_TERM_CAP` -/
def phraseTermCap : Nat := 12

/-- The terms of a query. (A part of `re.split` that is empty is too short as well.) -/
def queryTerms (query : Str) : List Str :=
  ((strip query).splitOnP isSpace).filter fun t => 2 ≤ t.length ∧ lower t ∉ stopwords

/-- `alts`: contiguous terms, the longest first, and then each on its own. -/
def alternatives (terms : List Str) : List (List Str) :=
  let n := terms.length
  let phrases := (List.range (n - 1)).flatMap fun i =>
    (List.range (i + 1)).map fun start => (terms.drop start).take (n - i)
  (if 2 ≤ n ∧ n ≤ phraseTermCap then phrases else []) ++ terms.map ([·])

/-- What follows a term. -/
def afterTerm (sameLetter : Char → Char → Bool) : Str → Str → Option Str
  | [], s => some s
  | _ :: _, [] => none
  | a :: t, c :: s => if sameLetter a c then afterTerm sameLetter t s else none

/-- What follows terms with `\s+` between them. A term begins with no blank, so that the blanks in
front of it are all that there are. -/
def afterPhrase (sameLetter : Char → Char → Bool) : List Str → Str → Option Str
  | [], s => some s
  | [t], s => afterTerm sameLetter t s
  | t :: ts, s =>
    match afterTerm sameLetter t s with
    | some (c :: rest) =>
      if isSpace c then afterPhrase sameLetter ts (rest.dropWhile isSpace) else none
    | _ => none

/-- The pattern with `re.IGNORECASE`: how far the first alternative that matches reaches. -/
def patternAt (sameLetter : Char → Char → Bool) (terms : List Str) (s : Str) : Option Nat :=
  (alternatives terms).findSome? fun alt =>
    (afterPhrase sameLetter alt s).map fun rest => s.length - rest.length

/-- What `markupsafe.escape` puts for a character. -/
def safeSequence (c : Char) : Str :=
  if c = '&' then "&amp;"
  else if c = '<' then "&lt;"
  else if c = '>' then "&gt;"
  else if c = '\'' then "&#39;"
  else if c = '"' then "&#34;"
  else [c]

def sentinelTag : Str := "span class=\"visually-hidden\""

/-- The replacement of the pattern, in front of `\1` and behind it. -/
def marking : Coding where
  code := safeSequence
  opening := "<mark><span class=\"visually-hidden\">[</span>"
  closing := "<span class=\"visually-hidden\">]</span></mark>"

/-- `highlight_excerpt` -/
def highlightExcerpt (escape : Str → Str) (sameLetter : Char → Char → Bool) (text query : Str) :
    Str :=
  if query = [] then escape text
  else
    let terms := queryTerms query
    if terms = [] then escape text
    else subst (patternAt sameLetter terms) marking.wrap 0 (escape text)

/-- `markupsafe.escape`: the five characters of markup are replaced. -/
structure Escapes (escape : Str → Str) : Prop where
  escape_eq : ∀ s, escape s = s.flatMap safeSequence

/-! ## What the excerpt is read as -/

/-- A bracket that only screen readers see. -/
def isSentinel (tag : Str) (children : List Node) : Bool :=
  match children with
  | [.text c] => tag == sentinelTag && (c == '[' || c == ']')
  | _ => false

mutual

/-- The text without the sentinels. -/
def visible : Node → Str
  | .text c => [c]
  | .element tag children => if isSentinel tag children then [] else visibleAll children

def visibleAll : List Node → Str
  | [] => []
  | n :: ns => visible n ++ visibleAll ns

end

/-- The excerpt is kept: it is read as the text, in elements of the markup that was inserted, and
no wrapper stands in a character reference. -/
structure Preserves (text out : Str) : Prop where
  reads : visibleAll (parse out) = text
  elements : ∀ tag ∈ tagsAll (parse out), tag = "mark".toList ∨ tag = sentinelTag
  whole : marking.Intact text out

/-! ## The pattern -/

section
variable {sameLetter : Char → Char → Bool}

theorem length_afterTerm : ∀ {t s rest : Str}, afterTerm sameLetter t s = some rest →
    s.length = t.length + rest.length
  | [], _, _, h => by
    cases h
    simp
  | a :: t, c :: s, rest, h => by
    rw [afterTerm] at h
    split at h
    · have ih := length_afterTerm h
      rw [List.length_cons, List.length_cons, ih]
      omega
    · cases h

/-- A match is not empty, since the terms are not. -/
theorem length_afterPhrase : ∀ {alt : List Str} {s rest : Str}, alt ≠ [] → (∀ t ∈ alt, t ≠ []) →
    afterPhrase sameLetter alt s = some rest → rest.length < s.length
  | [], _, _, h, _, _ => absurd rfl h
  | [t], s, rest, _, ht, h => by
    have hlen := length_afterTerm h
    have hpos := List.length_pos_iff.mpr (ht t List.mem_cons_self)
    omega
  | t :: t' :: ts, s, rest, _, ht, h => by
    unfold afterPhrase at h
    split at h
    · rename_i c rest' hterm
      split at h
      · have hlen := length_afterTerm hterm
        have ih := length_afterPhrase (List.cons_ne_nil t' ts)
          (fun u hu => ht u (List.mem_cons_of_mem t hu)) h
        have hdrop := (List.dropWhile_suffix isSpace (l := rest')).length_le
        rw [List.length_cons] at hlen
        omega
      · cases h
    · cases h

/-- The alternatives are stretches of the terms. -/
theorem alternatives_ne {terms alt : List Str} (h : alt ∈ alternatives terms) :
    alt ≠ [] ∧ ∀ t ∈ alt, t ∈ terms := by
  unfold alternatives at h
  rcases List.mem_append.mp h with h | h
  · split at h
    · obtain ⟨i, hi, h⟩ := List.mem_flatMap.mp h
      obtain ⟨start, hstart, rfl⟩ := List.mem_map.mp h
      rw [List.mem_range] at hi hstart
      constructor
      · apply List.ne_nil_of_length_pos
        rw [List.length_take, List.length_drop]
        omega
      · exact fun t ht => List.mem_of_mem_drop (List.mem_of_mem_take ht)
    · cases h
  · obtain ⟨t, ht, rfl⟩ := List.mem_map.mp h
    refine ⟨List.cons_ne_nil t [], ?_⟩
    intro u hu
    rwa [List.mem_singleton.mp hu]

theorem queryTerms_ne {query t : Str} (h : t ∈ queryTerms query) : t ≠ [] := by
  have hterm := List.of_mem_filter h
  rintro rfl
  exact absurd hterm (by decide)

theorem patternAt_pos {query s : Str} {n : Nat}
    (h : patternAt sameLetter (queryTerms query) s = some n) : 0 < n ∧ n ≤ s.length := by
  obtain ⟨alt, halt, hmatch⟩ := List.exists_of_findSome?_eq_some h
  obtain ⟨rest, hrest, rfl⟩ := Option.map_eq_some_iff.mp hmatch
  obtain ⟨hne, hterms⟩ := alternatives_ne halt
  have hlt := length_afterPhrase hne (fun t ht => queryTerms_ne (hterms t ht)) hrest
  omega

/-- Without a term the pattern has no alternative. -/
theorem patternAt_nil (s : Str) : patternAt sameLetter [] s = none := rfl

end

/-! ## Reading -/

section
variable {siblings before : List Node} {opened : List (Str × List Node)}

theorem read_code (c : Char) :
    (⟨.data, siblings, opened⟩ : Reader).read (safeSequence c) =
      ⟨.data, .text c :: siblings, opened⟩ := by
  unfold safeSequence
  split_ifs with h1 h2 h3 h4 h5
  · rw [h1]; rfl
  · rw [h2]; rfl
  · rw [h3]; rfl
  · rw [h4]; rfl
  · rw [h5]; rfl
  · simp [Reader.read, Reader.step, Reader.data, Reader.texts, h1, h2]

theorem read_codes : ∀ (u : Str) (siblings : List Node),
    (⟨.data, siblings, opened⟩ : Reader).read (marking.encode u) =
      ⟨.data, (u.map Node.text).reverse ++ siblings, opened⟩
  | [], _ => rfl
  | c :: u, siblings => by
    have hcode : marking.code = safeSequence := rfl
    rw [encode_cons, Reader.read_append, hcode, read_code, read_codes u]
    simp

def sentinel (c : Char) : Node := .element sentinelTag [.text c]

theorem read_opening :
    (⟨.data, siblings, opened⟩ : Reader).read marking.opening =
      ⟨.data, [sentinel '['], ("mark".toList, siblings) :: opened⟩ := by
  rfl

theorem read_closing :
    (⟨.data, siblings, ("mark".toList, before) :: opened⟩ : Reader).read marking.closing =
      ⟨.data, .element "mark" (sentinel ']' :: siblings).reverse :: before, opened⟩ := by
  rfl

/-- A match, from its wrapper to the end of it. -/
theorem read_wrap (u : Str) :
    (⟨.data, siblings, opened⟩ : Reader).read (marking.wrap (marking.encode u)) =
      ⟨.data, .element "mark" (sentinel '[' :: u.map Node.text ++ [sentinel ']']) :: siblings,
        opened⟩ := by
  rw [Coding.wrap, Reader.read_append, Reader.read_append, read_opening, read_codes, read_closing]
  simp

end

theorem visibleAll_append : ∀ (ns ns' : List Node),
    visibleAll (ns ++ ns') = visibleAll ns ++ visibleAll ns'
  | [], _ => rfl
  | n :: ns, ns' => by
    rw [List.cons_append, visibleAll, visibleAll, visibleAll_append ns ns', List.append_assoc]

theorem visibleAll_text (s : Str) : visibleAll (s.map Node.text) = s := by
  induction s with
  | nil => rfl
  | cons c s ih =>
    rw [List.map_cons, visibleAll, ih]
    rfl

/-- The element of a match. -/
def marked (u : Str) : Node := .element "mark" (sentinel '[' :: u.map Node.text ++ [sentinel ']'])

theorem isSentinel_mark (children : List Node) : isSentinel "mark".toList children = false := by
  have htag : ("mark".toList == sentinelTag) = false := by decide
  unfold isSentinel
  split
  · rw [htag, Bool.false_and]
  · rfl

theorem visible_sentinel : visible (sentinel '[') = [] ∧ visible (sentinel ']') = [] := by
  constructor
  · rw [sentinel, visible, if_pos (by decide)]
  · rw [sentinel, visible, if_pos (by decide)]

theorem visible_marked (u : Str) : visible (marked u) = u := by
  rw [marked, visible, isSentinel_mark, if_neg Bool.false_ne_true, visibleAll_append, visibleAll,
    visible_sentinel.1, visibleAll_text, visibleAll, visible_sentinel.2]
  simp [visibleAll]

theorem tags_marked (u : Str) : ∀ tag ∈ (marked u).tags, tag = "mark".toList ∨ tag = sentinelTag := by
  have htags : (marked u).tags = ["mark".toList, sentinelTag, sentinelTag] := by
    rw [marked, Node.tags, tagsAll_append, tagsAll, tagsAll_text]
    rfl
  rw [htags]
  simp

/-- A text whose matches are whole is read as it is. -/
theorem read_unsplit {find : Str → Option Nat} (hpos : ∀ s n, find s = some n → 0 < n) {text : Str}
    (h : marking.Unsplit find text) : ∀ siblings : List Node, ∃ nodes : List Node,
      (⟨.data, siblings, []⟩ : Reader).read (subst find marking.wrap 0 (marking.encode text)) =
        ⟨.data, nodes.reverse ++ siblings, []⟩ ∧ visibleAll nodes = text ∧
      ∀ tag ∈ tagsAll nodes, tag = "mark".toList ∨ tag = sentinelTag := by
  induction h with
  | nil => exact fun siblings => ⟨[], rfl, rfl, nofun⟩
  | @hit u s hfind _ ih =>
    intro siblings
    obtain ⟨nodes, hread, hvisible, htags⟩ := ih (marked u :: siblings)
    refine ⟨marked u :: nodes, ?_, ?_, ?_⟩
    · have hwrap : (⟨.data, siblings, []⟩ : Reader).read (marking.wrap (marking.encode u)) =
          ⟨.data, marked u :: siblings, []⟩ := read_wrap u
      rw [subst_hit hpos hfind, Reader.read_append, hwrap, hread]
      simp
    · rw [visibleAll, visible_marked, hvisible]
    · rw [tagsAll]
      intro tag htag
      rcases List.mem_append.mp htag with htag | htag
      · exact tags_marked u tag htag
      · exact htags tag htag
  | @miss c s hnone _ ih =>
    intro siblings
    obtain ⟨nodes, hread, hvisible, htags⟩ := ih (.text c :: siblings)
    refine ⟨.text c :: nodes, ?_, ?_, htags⟩
    · have hcode : (⟨.data, siblings, []⟩ : Reader).read (marking.code c) =
          ⟨.data, .text c :: siblings, []⟩ := read_code c
      rw [subst_miss hnone, Reader.read_append, hcode, hread]
      simp
    · rw [visibleAll, hvisible]
      rfl

/-! ## The codes of markup -/

/-- A character stands for itself, or is written as a reference. -/
theorem safeSequence_cases (c : Char) : safeSequence c = [c] ∧ c ≠ '&' ∧ c ≠ '<' ∨
    ∃ name, safeSequence c = '&' :: (name ++ [';']) ∧ ';' ∉ name ∧ '<' ∉ name := by
  unfold safeSequence
  split_ifs with h1 h2 h3 h4 h5
  · exact .inr ⟨"amp".toList, by decide, by decide, by decide⟩
  · exact .inr ⟨"lt".toList, by decide, by decide, by decide⟩
  · exact .inr ⟨"gt".toList, by decide, by decide, by decide⟩
  · exact .inr ⟨"#39".toList, by decide, by decide, by decide⟩
  · exact .inr ⟨"#34".toList, by decide, by decide, by decide⟩
  · exact .inl ⟨rfl, h1, h2⟩

/-- The beginning of a reference is not the codes of a text: it has no semicolon. -/
theorem inside_reference (c : Char) (n : Nat) (u : Str) (hn : 0 < n)
    (hlt : n < (safeSequence c).length) : (safeSequence c).take n ≠ u.flatMap safeSequence := by
  rcases safeSequence_cases c with ⟨hc, -, -⟩ | ⟨name, hc, hsemi, -⟩
  · rw [hc, List.length_singleton] at hlt
    omega
  · rw [hc] at hlt ⊢
    obtain ⟨k, rfl⟩ := Nat.exists_eq_succ_of_ne_zero (Nat.ne_of_gt hn)
    have hk : k ≤ name.length := by
      simp only [List.length_cons, List.length_append, List.length_nil] at hlt
      omega
    rw [List.take_succ_cons, List.take_append_of_le_length hk]
    intro h
    cases u with
    | nil => cases h
    | cons a u =>
      rw [List.flatMap_cons] at h
      rcases safeSequence_cases a with ⟨ha, hamp, -⟩ | ⟨name', ha, -, -⟩
      · rw [ha] at h
        exact hamp (List.cons.inj h).1.symm
      · rw [ha] at h
        have hmem : ';' ∈ name.take k := by
          rw [(List.cons.inj h).2]
          simp
        exact hsemi (List.mem_of_mem_take hmem)

theorem marking_lawful : marking.Lawful where
  code_ne := by
    intro c
    show safeSequence c ≠ []
    rcases safeSequence_cases c with ⟨hc, -⟩ | ⟨name, hc, -⟩
    · rw [hc]
      exact List.cons_ne_nil c []
    · rw [hc]
      exact List.cons_ne_nil '&' _
  inside := inside_reference
  delimiter := by
    refine ⟨'<', _, _, rfl, rfl, ?_⟩
    intro c
    show '<' ∉ safeSequence c
    rcases safeSequence_cases c with ⟨hc, -, hne⟩ | ⟨name, hc, -, hlt⟩
    · rw [hc]
      simpa using Ne.symm hne
    · rw [hc]
      simpa using hlt
  apart := by
    intro x y h
    have htake : "<m".toList = "<s".toList := congrArg (List.take 2) h
    exact absurd htake (by decide)

/-! ## The excerpt -/

section
variable {escape : Str → Str} {sameLetter : Char → Char → Bool}

/-- Without a query, or without a term in it, the pattern matches nowhere. -/
theorem highlightExcerpt_eq (hescape : Escapes escape) (text query : Str) :
    highlightExcerpt escape sameLetter text query =
      subst (patternAt sameLetter (queryTerms query)) marking.wrap 0 (marking.encode text) := by
  have hencode : escape text = marking.encode text := hescape.escape_eq text
  have hplain : ∀ s : Str, subst (patternAt sameLetter []) marking.wrap 0 s = s := by
    intro s
    induction s with
    | nil => rfl
    | cons c s ih => rw [subst_none (patternAt_nil _), ih]
  unfold highlightExcerpt
  rw [hencode]
  by_cases hquery : query = []
  · rw [if_pos hquery, hquery]
    exact (hplain _).symm
  · rw [if_neg hquery]
    by_cases hterms : queryTerms query = []
    · simp only [hterms, if_true, hplain]
    · simp only [hterms, if_false]

/-- **Highlighting keeps the excerpt.** What `highlight_excerpt` returns is read as the text, in
`mark` and `span` elements that stand in no character reference, exactly if the matches of the
pattern in the escaped text begin and end between characters of the text. -/
theorem highlight_iff (hescape : Escapes escape) (sameLetter : Char → Char → Bool)
    (text query : Str) :
    Preserves text (highlightExcerpt escape sameLetter text query) ↔
      marking.Unsplit (patternAt sameLetter (queryTerms query)) text := by
  rw [highlightExcerpt_eq hescape]
  constructor
  · exact fun h => (intact_iff marking_lawful (fun _ _ => patternAt_pos) text).mp h.whole
  · intro h
    obtain ⟨nodes, hread, hvisible, htags⟩ := read_unsplit (fun _ _ h => (patternAt_pos h).1) h []
    have hparse : parse (subst (patternAt sameLetter (queryTerms query)) marking.wrap 0
        (marking.encode text)) = nodes := by
      rw [parse, Reader.start, hread, List.append_nil, Reader.finish_data]
    exact ⟨by rw [hparse, hvisible], by rwa [hparse],
      (intact_iff marking_lawful (fun _ _ => patternAt_pos) text).mpr h⟩

end

/-- `escape`, and `re.IGNORECASE` for ASCII. -/
def markupEscape (s : Str) : Str := s.flatMap safeSequence

def sameAscii (a b : Char) : Bool := lowerChar a == lowerChar b

/-- `highlight_iff` for a term behind an ampersand. -/
theorem highlight_behind_ampersand : Escapes markupEscape ∧
    Preserves "CF & DB".toList (highlightExcerpt markupEscape sameAscii "CF & DB" "db") := by
  have hescape : Escapes markupEscape := ⟨fun _ => rfl⟩
  refine ⟨hescape, (highlight_iff hescape sameAscii "CF & DB" "db").mpr ?_⟩
  refine .miss 'C' (by decide +kernel) (.miss 'F' (by decide +kernel) (.miss ' ' (by decide +kernel)
    (.miss '&' (by decide +kernel) (.miss ' ' (by decide +kernel) ?_))))
  exact .hit "DB".toList (by decide +kernel) .nil

/-- `amp` is found in the reference of an ampersand, which is then not read as one. -/
theorem amp_splits_reference :
    visibleAll (parse (highlightExcerpt markupEscape sameAscii "a & b" "amp")) =
        "a &amp; b".toList ∧
      ¬Preserves "a & b".toList (highlightExcerpt markupEscape sameAscii "a & b" "amp") := by
  have hread : visibleAll (parse (highlightExcerpt markupEscape sameAscii "a & b" "amp")) =
      "a &amp; b".toList := by
    decide +kernel
  refine ⟨hread, ?_⟩
  intro h
  have hsame := hread.symm.trans h.reads
  exact absurd hsame (by decide)

end KnowledgeKiln.L4.ResultCards
