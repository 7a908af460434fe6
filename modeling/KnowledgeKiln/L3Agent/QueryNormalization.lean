import KnowledgeKiln.L2Retrieval.PhraseMatch
import KnowledgeKiln.L3Agent.ContextPack

/-!
# What query normalization leaves (retrieval/query_normalization.py)

`normalizeQuery` removes the configured phrases one after the other, each on the text
that the ones before left, and then collapses blanks. Nothing looks at the result
again, and both steps can join parts of the query that did not stand together.

A query is followed as marks: its characters, and whether each is still there. Of the places
where a phrase stands `re.sub` strikes out all it can, from the left; `StruckOut` any of them.

* `whole_removed`: a phrase that stands in the query in one piece does not survive.
* `normalizeQuery_clean`: the result is free of the phrases, and a fixed point, for every query of
  which no phrase can be read in pieces, whatever is struck out of it (`Untearable`).
* `untearable_of_words`: phrases of one word each are such a list for every query.
* `apart_of_borderless`: a phrase that no end of it begins cannot overlap itself, and there is one
  way to strike it out.
* `nested_phrase_left`: a phrase inside itself is left behind.
-/
namespace KnowledgeKiln.L3.QueryNormalization

open KnowledgeKiln.Core KnowledgeKiln.L2 KnowledgeKiln.L2.Engine KnowledgeKiln.L2.PhraseMatch
  KnowledgeKiln.L3.ContextPack

/-! ## Marks -/

/-- A character of the query, and whether it is still there. -/
abbrev Mark := Char × Bool

/-- What is still there. -/
def text (marks : List Mark) : Str := (marks.filter (·.2)).map (·.1)

/-- `subnPhrase` on marks: the characters of the matches are not there any more. -/
def strike (env : Env) (phrase : Str) (skip : Nat) (prev : Option Char) : List Mark → List Mark
  | [] => []
  | (c, false) :: marks => (c, false) :: strike env phrase skip prev marks
  | (c, true) :: marks =>
    match skip with
    | k + 1 => (c, false) :: strike env phrase k (some c) marks
    | 0 =>
      if phrase ≠ [] ∧ phraseAt env phrase prev (c :: text marks) = true then
        (c, false) :: strike env phrase (phrase.length - 1) (some c) marks
      else (c, true) :: strike env phrase 0 (some c) marks

/-- The marks of a query behind the loop of `normalize_query`. -/
def marksOf (env : Env) (phrases : List Str) (raw : Str) : List Mark :=
  phrases.foldl (fun marks phrase => strike env phrase 0 none marks) (raw.map (·, true))

/-- The next `n` characters that are there stay. -/
def Spared : Nat → List Mark → List Mark → Prop
  | 0, _, _ => True
  | n + 1, (_, false) :: marks, _ :: marks' => Spared (n + 1) marks marks'
  | n + 1, (_, true) :: marks, (_, there) :: marks' => there = true ∧ Spared n marks marks'
  | _ + 1, _, _ => True

/-- Places where the phrase stands between words are struck out, any that do not overlap, and so
many that every such place has lost a character. -/
inductive StruckOut (env : Env) (phrase : Str) : Option Char → List Mark → List Mark → Prop
  | nil {prev} : StruckOut env phrase prev [] []
  | gone {prev c marks marks'} (h : StruckOut env phrase prev marks marks') :
      StruckOut env phrase prev ((c, false) :: marks) ((c, false) :: marks')
  | kept {prev c marks marks'}
      (hlost : phrase ≠ [] → phraseAt env phrase prev (c :: text marks) = true →
        ¬Spared (phrase.length - 1) marks marks')
      (h : StruckOut env phrase (some c) marks marks') :
      StruckOut env phrase prev ((c, true) :: marks) ((c, true) :: marks')
  | struck {prev here marks marks'} (hne : phrase ≠ [])
      (hat : phraseAt env phrase prev (text (here ++ marks)) = true)
      (hlen : (text here).length = phrase.length)
      (h : StruckOut env phrase ((text here).getLast?.or prev) marks marks') :
      StruckOut env phrase prev (here ++ marks) (here.map (fun m => (m.1, false)) ++ marks')

/-- One phrase after the other. -/
inductive Passes (env : Env) : List Str → List Mark → List Mark → Prop
  | nil {marks} : Passes env [] marks marks
  | cons {phrase phrases marks marks' marks''} (h : StruckOut env phrase none marks marks')
      (hrest : Passes env phrases marks' marks'') : Passes env (phrase :: phrases) marks marks''

@[simp] theorem text_nil : text [] = [] := rfl

@[simp] theorem text_there (c : Char) (marks : List Mark) :
    text ((c, true) :: marks) = c :: text marks := rfl

@[simp] theorem text_gone (c : Char) (marks : List Mark) :
    text ((c, false) :: marks) = text marks := rfl

@[simp] theorem text_append (marks marks' : List Mark) :
    text (marks ++ marks') = text marks ++ text marks' := by
  simp [text]

theorem text_all_there (raw : Str) : text (raw.map (·, true)) = raw := by
  induction raw with
  | nil => rfl
  | cons c raw ih => rw [List.map_cons, text_there, ih]

section
variable {env : Env} {phrase : Str}

theorem text_strike : ∀ (marks : List Mark) (skip : Nat) (prev : Option Char),
    text (strike env phrase skip prev marks) = (subnPhrase env phrase skip prev (text marks)).1
  | [], _, _ => rfl
  | (c, false) :: marks, skip, prev => by
    rw [strike, text_gone, text_gone, text_strike marks]
  | (c, true) :: marks, k + 1, prev => by
    rw [strike, text_gone, text_there, subnPhrase, text_strike marks]
  | (c, true) :: marks, 0, prev => by
    have ih := text_strike marks
    rw [strike, text_there, subnPhrase]
    by_cases hat : phraseAt env phrase prev (c :: text marks) = true
    · cases hphrase : phrase with
      | nil =>
        subst hphrase
        simp [hat, ih]
      | cons p ps =>
        subst hphrase
        simp [hat, ih]
    · simp [hat, ih]

/-- The marks say what the loop computes. -/
theorem text_marksOf (phrases : List Str) (raw : Str) :
    text (marksOf env phrases raw) = (stripPhrases env raw phrases).1 := by
  have hfold : ∀ (phrases : List Str) (marks : List Mark),
      text (phrases.foldl (fun marks phrase => strike env phrase 0 none marks) marks) =
        (stripPhrases env (text marks) phrases).1 := by
    intro phrases
    induction phrases with
    | nil => exact fun marks => rfl
    | cons phrase phrases ih =>
      intro marks
      rw [List.foldl_cons, ih, text_strike, stripPhrases_fst]
  rw [marksOf, hfold, text_all_there]

/-! ## What one phrase does to the stretches that survive it -/

/-- Between words: `skip` characters are left of a match, and it ends there; or nothing was
struck since `last`. -/
def AtEdge (env : Env) (skip : Nat) (prev last : Option Char) (marks : List Mark) : Prop :=
  (skip = 0 ∧ last = prev) ∨
    wordBoundary env (((text marks).take skip).getLast?.or prev) ((text marks).drop skip).head? =
      true

/-- Behind the first character of a match the rest of it is left. -/
theorem atEdge_of_phraseAt {c : Char} {prev last : Option Char} {marks : List Mark}
    (hne : phrase ≠ []) (h : phraseAt env phrase prev (c :: text marks) = true) :
    AtEdge env (phrase.length - 1) (some c) last marks := by
  obtain ⟨k, hk⟩ := Nat.exists_eq_succ_of_ne_zero (mt List.length_eq_zero_iff.mp hne)
  have hend := (boundaries_of_phraseAt h).2
  rw [hk, List.take_succ_cons, List.drop_succ_cons, getLast?_cons_or] at hend
  rw [hk]
  exact .inr hend

/-- Nothing starts where a character survives. -/
theorem phraseAt_of_survives {c : Char} {prev : Option Char} (hne : phrase ≠ []) :
    ∀ {marks left : List Mark}, strike env phrase 0 prev marks = (c, true) :: left →
      phraseAt env phrase prev (text marks) = false
  | (d, true) :: marks, left, h => by
    rw [strike] at h
    split_ifs at h with hat
    · cases h
    · simpa [hne] using hat

/-- A stretch that survives was read character by character. -/
theorem strike_stretch : ∀ {kept marks left : List Mark} {prev : Option Char},
    strike env phrase 0 prev marks = kept ++ left → (∀ m ∈ kept, m.2 = true) →
    ∃ right, marks = kept ++ right ∧
      left = strike env phrase 0 ((text kept).getLast?.or prev) right
  | [], marks, _, _, h, _ => ⟨marks, rfl, h.symm⟩
  | (c, b) :: kept, (d, false) :: marks, left, prev, h, hkept => by
    obtain ⟨hhead, -⟩ := List.cons.inj h
    cases hhead
    cases hkept _ List.mem_cons_self
  | (c, b) :: kept, (d, true) :: marks, left, prev, h, hkept => by
    rw [strike] at h
    split_ifs at h with hat
    · obtain ⟨hhead, -⟩ := List.cons.inj h
      cases hhead
      cases hkept _ List.mem_cons_self
    · obtain ⟨hhead, htail⟩ := List.cons.inj h
      cases hhead
      obtain ⟨right, rfl, hleft⟩ :=
        strike_stretch htail fun m hm => hkept m (List.mem_cons_of_mem _ hm)
      exact ⟨right, rfl, by rw [hleft, text_there, getLast?_cons_or]⟩

/-- The next character was next already, or a match started in front of it. -/
theorem boundary_of_strike {prev : Option Char} {right : List Mark}
    (h : wordBoundary env prev (text (strike env phrase 0 prev right)).head? = true) :
    wordBoundary env prev (text right).head? = true := by
  induction right with
  | nil => exact h
  | cons m right ih =>
    obtain ⟨c, there⟩ := m
    cases there with
    | false => exact ih h
    | true =>
      rw [strike] at h
      split_ifs at h with hat
      · exact (boundaries_of_phraseAt hat.2).1
      · exact h

/-- What a phrase leaves standing in one piece between words stood there before, between
words, and is not the phrase. -/
theorem stretch_before (hne : phrase ≠ []) {kept : List Mark} (hkept : kept ≠ [])
    (hthere : ∀ m ∈ kept, m.2 = true) :
    ∀ (marks : List Mark) {left right : List Mark} {skip : Nat} {prev last : Option Char},
      AtEdge env skip prev last marks →
      strike env phrase skip prev marks = left ++ kept ++ right →
      wordBoundary env ((text left).getLast?.or last) (text kept).head? = true →
      wordBoundary env (text kept).getLast? (text right).head? = true →
      ∃ left' right', marks = left' ++ kept ++ right' ∧
        wordBoundary env ((text left').getLast?.or prev) (text kept).head? = true ∧
        wordBoundary env (text kept).getLast? (text right').head? = true ∧
        phraseAt env phrase ((text left').getLast?.or prev) (text (kept ++ right')) = false := by
  obtain ⟨⟨first, there⟩, rest, rfl⟩ := List.exists_cons_of_ne_nil hkept
  cases hthere _ List.mem_cons_self
  -- a struck character in front of the stretch leaves the rest to the induction
  have hstruck : ∀ {c : Char} {marks' left right : List Mark},
      (c, false) :: marks' = left ++ (first, true) :: rest ++ right →
      ∃ left', left = (c, false) :: left' ∧ marks' = left' ++ (first, true) :: rest ++ right := by
    intro c marks' left right h
    cases left with
    | nil => cases h
    | cons m left =>
      obtain ⟨rfl, htail⟩ := List.cons.inj h
      exact ⟨left, rfl, htail⟩
  intro marks
  induction marks with
  | nil =>
    intro left right skip prev last hedge h
    simp [strike] at h
  | cons m marks ih =>
    obtain ⟨c, there⟩ := m
    intro left right skip prev last hedge h hbefore hafter
    cases there with
    | false =>
      obtain ⟨left, rfl, htail⟩ := hstruck h
      obtain ⟨left', right', rfl, hrest⟩ := ih hedge htail hbefore hafter
      exact ⟨(c, false) :: left', right', rfl, hrest⟩
    | true =>
      cases skip with
      | succ k =>
        have hedge' : AtEdge env k (some c) last marks := by
          rcases hedge with ⟨hzero, -⟩ | hedge
          · cases hzero
          · rw [text_there, List.take_succ_cons, List.drop_succ_cons, getLast?_cons_or] at hedge
            exact .inr hedge
        obtain ⟨left, rfl, htail⟩ := hstruck h
        obtain ⟨left', right', rfl, hrest⟩ := ih hedge' htail hbefore hafter
        refine ⟨(c, true) :: left', right', rfl, ?_⟩
        rwa [text_there, getLast?_cons_or]
      | zero =>
        rw [strike] at h
        split_ifs at h with hat
        · obtain ⟨left, rfl, htail⟩ := hstruck h
          have hedge' : AtEdge env (phrase.length - 1) (some c) last marks :=
            atEdge_of_phraseAt hne hat.2
          obtain ⟨left', right', rfl, hrest⟩ := ih hedge' htail hbefore hafter
          refine ⟨(c, true) :: left', right', rfl, ?_⟩
          rwa [text_there, getLast?_cons_or]
        · cases left with
          | nil =>
            -- the stretch starts here
            have hhere : strike env phrase 0 prev ((c, true) :: marks) =
                (first, true) :: rest ++ right := by
              rw [strike, if_neg hat]
              exact h
            obtain ⟨right', hmarks, hright⟩ := strike_stretch hhere hthere
            have hnothing := phraseAt_of_survives hne hhere
            obtain ⟨rfl, rfl⟩ : c = first ∧ marks = rest ++ right' := by
              simpa using hmarks
            refine ⟨[], right', rfl, ?_, ?_, hnothing⟩
            · rcases hedge with ⟨-, rfl⟩ | hedge
              · exact hbefore
              · exact hedge
            · have hlast : (text ((c, true) :: rest)).getLast?.or prev =
                  (text ((c, true) :: rest)).getLast? := by
                rw [text_there, List.getLast?_cons]
                rfl
              rw [hright, hlast] at hafter
              exact boundary_of_strike hafter
          | cons m left =>
            obtain ⟨rfl, htail⟩ := List.cons.inj h
            rw [text_there, getLast?_cons_or] at hbefore
            obtain ⟨left', right', rfl, hrest⟩ := ih (.inl ⟨rfl, rfl⟩) htail hbefore hafter
            refine ⟨(c, true) :: left', right', rfl, ?_⟩
            rwa [text_there, getLast?_cons_or]

/-! ## No phrase survives in one piece -/

/-- The phrase stands somewhere in one piece, between words. -/
def StandsIn (env : Env) (phrase : Str) (marks : List Mark) : Prop :=
  ∃ left kept right, marks = left ++ kept ++ right ∧ (∀ m ∈ kept, m.2 = true) ∧
    afterPhrase env phrase (text kept) = some [] ∧
    wordBoundary env (text left).getLast? (text kept).head? = true ∧
    wordBoundary env (text kept).getLast? (text right).head? = true

theorem text_of_kept {kept : List Mark} (h : ∀ m ∈ kept, m.2 = true) :
    text kept = kept.map (·.1) := by
  rw [text, List.filter_eq_self.mpr h]

theorem kept_ne_nil {kept : List Mark} (hne : phrase ≠ [])
    (h : afterPhrase env phrase (text kept) = some []) : kept ≠ [] := by
  rintro rfl
  exact ne_nil_of_afterPhrase hne h rfl

theorem strike_nil : ∀ (marks : List Mark) (prev : Option Char),
    strike env [] 0 prev marks = marks
  | [], _ => rfl
  | (c, false) :: marks, prev => by rw [strike, strike_nil marks]
  | (c, true) :: marks, prev => by
    rw [strike, if_neg fun h => h.1 rfl, strike_nil marks]

theorem atEdge_start (marks : List Mark) : AtEdge env 0 none none marks := .inl ⟨rfl, rfl⟩

/-- A pass for a phrase leaves it nowhere in one piece. -/
theorem not_standsIn_strike (hne : phrase ≠ []) (marks : List Mark) :
    ¬StandsIn env phrase (strike env phrase 0 none marks) := by
  rintro ⟨left, kept, right, h, hthere, hreads, hbefore, hafter⟩
  have hkept := kept_ne_nil hne hreads
  obtain ⟨left', right', rfl, hbefore', hafter', hnot⟩ :=
    stretch_before hne hkept hthere marks (atEdge_start marks) h (by simpa using hbefore) hafter
  have htext : text kept ≠ [] := by
    rw [text_of_kept hthere]
    simpa using hkept
  rw [text_append, phraseAt_append htext hreads, hbefore', hafter'] at hnot
  cases hnot

/-- What stands in one piece behind a pass stood there before it. -/
theorem standsIn_of_strike {other : Str} (hne : phrase ≠ []) {marks : List Mark}
    (h : StandsIn env phrase (strike env other 0 none marks)) : StandsIn env phrase marks := by
  by_cases hother : other = []
  · rwa [hother, strike_nil] at h
  · obtain ⟨left, kept, right, h, hthere, hreads, hbefore, hafter⟩ := h
    obtain ⟨left', right', hmarks, hbefore', hafter', -⟩ :=
      stretch_before hother (kept_ne_nil hne hreads) hthere marks (atEdge_start marks) h
        (by simpa using hbefore) hafter
    exact ⟨left', kept, right', hmarks, hthere, hreads, by simpa using hbefore', hafter'⟩

/-- No configured phrase is left in one piece. -/
theorem whole_removed {phrases : List Str} (hne : phrase ≠ []) (hmem : phrase ∈ phrases)
    (raw : Str) : ¬StandsIn env phrase (marksOf env phrases raw) := by
  have hlater : ∀ (phrases : List Str) (marks : List Mark), ¬StandsIn env phrase marks →
      ¬StandsIn env phrase
        (phrases.foldl (fun marks phrase => strike env phrase 0 none marks) marks) := by
    intro phrases
    induction phrases with
    | nil => exact fun marks h => h
    | cons other phrases ih =>
      intro marks h
      exact ih _ (mt (standsIn_of_strike hne) h)
  obtain ⟨before, after, rfl⟩ := List.append_of_mem hmem
  rw [marksOf, List.foldl_append, List.foldl_cons]
  exact hlater after _ (not_standsIn_strike hne _)

end

/-! ## Readings -/

/-- What is left of the stretch `here`, a run of blanks taken as one, is the phrase and stands
between words. -/
structure ReadAt (env : Env) (phrase : Str) (left here right : List Mark) : Prop where
  reads : afterPhrase env phrase (collapseSpaces false (text here)) = some []
  before : wordBoundary env (text left).getLast? (text here).head? = true
  after : wordBoundary env (text here).getLast? (text right).head? = true
  starts : ∀ m ∈ here.head?, m.2 = true
  ends : ∀ m ∈ here.getLast?, m.2 = true

/-- The stretch is in the query as it is read: nothing in it was removed, and its blanks are
single spaces. -/
def InOnePiece (here : List Mark) : Prop :=
  (∀ m ∈ here, m.2 = true) ∧ collapseSpaces false (text here) = text here

/-- The phrase is read somewhere in pieces. -/
def Torn (env : Env) (phrase : Str) (marks : List Mark) : Prop :=
  ∃ left here right, marks = left ++ here ++ right ∧ ReadAt env phrase left here right ∧
    ¬InOnePiece here

section
variable {env : Env} {phrase : Str}

theorem text_eq_append {marks : List Mark} {a b : Str} (h : text marks = a ++ b) :
    ∃ left right, marks = left ++ right ∧ text left = a ∧ text right = b := by
  obtain ⟨first, second, hfilter, rfl, rfl⟩ := List.map_eq_append_iff.mp h
  obtain ⟨left, right, rfl, rfl, rfl⟩ := List.filter_eq_append_iff.mp hfilter
  exact ⟨left, right, rfl, rfl, rfl⟩

theorem trim_marks_front : ∀ marks : List Mark, ∃ gone here, marks = gone ++ here ∧
    text gone = [] ∧ ∀ m ∈ here.head?, m.2 = true
  | [] => ⟨[], [], rfl, rfl, by simp⟩
  | (c, true) :: marks => ⟨[], (c, true) :: marks, rfl, rfl, by simp⟩
  | (c, false) :: marks => by
    obtain ⟨gone, here, rfl, hgone, hstarts⟩ := trim_marks_front marks
    exact ⟨(c, false) :: gone, here, rfl, hgone, hstarts⟩

theorem trim_marks_back (marks : List Mark) : ∃ here gone, marks = here ++ gone ∧
    text gone = [] ∧ ∀ m ∈ here.getLast?, m.2 = true := by
  induction marks using List.reverseRecOn with
  | nil => exact ⟨[], [], rfl, rfl, by simp⟩
  | append_singleton marks m ih =>
    obtain ⟨c, there⟩ := m
    cases there with
    | true => exact ⟨marks ++ [(c, true)], [], by simp, rfl, by simp⟩
    | false =>
      obtain ⟨here, gone, rfl, hgone, hends⟩ := ih
      exact ⟨here, gone ++ [(c, false)], by simp, by simp [hgone], hends⟩

/-- A stretch of what is left is a stretch of the marks. -/
theorem exists_stretch {marks : List Mark} {a y b : Str} (hy : y ≠ [])
    (h : text marks = a ++ y ++ b) :
    ∃ left here right, marks = left ++ here ++ right ∧ text left = a ∧ text here = y ∧
      text right = b ∧ (∀ m ∈ here.head?, m.2 = true) ∧ ∀ m ∈ here.getLast?, m.2 = true := by
  obtain ⟨rest, right, rfl, hrest, rfl⟩ := text_eq_append h
  obtain ⟨left, stretch, rfl, rfl, rfl⟩ := text_eq_append hrest
  obtain ⟨goneFront, inner, rfl, hfront, hstarts⟩ := trim_marks_front stretch
  obtain ⟨here, goneBack, rfl, hback, hends⟩ := trim_marks_back inner
  refine ⟨left ++ goneFront, here, goneBack ++ right, by simp, by simp [hfront],
    by simp [hfront, hback], by simp [hback], ?_, hends⟩
  intro m hm
  exact hstarts m (by rw [List.head?_append, hm]; rfl)

/-- The phrase occurs in the normalized text iff the marks can be read as it. -/
theorem occurs_iff_read (hblank : ∀ c, isSpace c = true → env.isWord c = false)
    (hne : phrase ≠ []) {marks : List Mark} :
    Occurs env phrase (strip (collapseSpaces false (text marks))) ↔
      ∃ left here right, marks = left ++ here ++ right ∧ ReadAt env phrase left here right := by
  rw [occurs_iff hne, read_iff hblank hne]
  constructor
  · rintro ⟨a, y, b, h, hreads, hbefore, hafter⟩
    have hy : y ≠ [] := by
      rintro rfl
      exact ne_nil_of_afterPhrase hne hreads rfl
    obtain ⟨left, here, right, rfl, rfl, rfl, rfl, hstarts, hends⟩ := exists_stretch hy h
    exact ⟨left, here, right, rfl, hreads, hbefore, hafter, hstarts, hends⟩
  · rintro ⟨left, here, right, rfl, h⟩
    exact ⟨text left, text here, text right, by simp, h.reads, h.before, h.after⟩

/-- Only a phrase in pieces is left. -/
theorem occurs_iff_torn (hblank : ∀ c, isSpace c = true → env.isWord c = false)
    (hne : phrase ≠ []) {phrases : List Str} (hmem : phrase ∈ phrases) (raw : Str) :
    Occurs env phrase (strip (collapseSpaces false (text (marksOf env phrases raw)))) ↔
      Torn env phrase (marksOf env phrases raw) := by
  rw [occurs_iff_read hblank hne]
  constructor
  · rintro ⟨left, here, right, hmarks, h⟩
    refine ⟨left, here, right, hmarks, h, ?_⟩
    rintro ⟨hthere, hcollapsed⟩
    have hreads := h.reads
    rw [hcollapsed] at hreads
    exact whole_removed hne hmem raw
      ⟨left, here, right, hmarks, hthere, hreads, h.before, h.after⟩
  · rintro ⟨left, here, right, hmarks, h, -⟩
    exact ⟨left, here, right, hmarks, h⟩

/-! ## The result, and the result again -/

theorem normalizeQuery_fst {phrases : List Str} (hne : phrases ≠ []) (raw : Str) :
    (normalizeQuery env raw phrases).1 =
      strip (collapseSpaces false (text (marksOf env phrases raw))) := by
  unfold normalizeQuery
  split_ifs with h
  · obtain rfl := h.resolve_right hne
    have hmarks : ∀ phrases : List Str, marksOf env phrases [] = [] := by
      intro phrases
      induction phrases with
      | nil => rfl
      | cons phrase phrases ih => exact ih
    rw [hmarks]
    rfl
  · rw [text_marksOf]

theorem normalizeQuery_again {phrases : List Str} {s : Str}
    (hs : strip (collapseSpaces false s) = s) (h : ∀ phrase ∈ phrases, ¬Occurs env phrase s) :
    normalizeQuery env s phrases = (s, []) := by
  unfold normalizeQuery
  split_ifs
  · rfl
  · rw [stripPhrases_of_absent h]
    exact congrArg (·, []) hs

end

/-- The normalized query holds none of the phrases and is left alone by a second normalization. -/
structure Clean (env : Env) (raw : Str) (phrases : List Str) : Prop where
  gone : ∀ phrase ∈ phrases, ¬Occurs env phrase (normalizeQuery env raw phrases).1
  again : normalizeQuery env (normalizeQuery env raw phrases).1 phrases =
    ((normalizeQuery env raw phrases).1, [])

section
variable {env : Env} {raw : Str} {phrases : List Str}

theorem clean_of_gone (h : ∀ phrase ∈ phrases, ¬Occurs env phrase (normalizeQuery env raw phrases).1) :
    Clean env raw phrases := by
  refine ⟨h, ?_⟩
  by_cases hphrases : phrases = []
  · subst hphrases
    simp [normalizeQuery]
  · refine normalizeQuery_again ?_ h
    rw [normalizeQuery_fst hphrases, strip_collapseSpaces_idem]

/-! ## Whatever is struck out -/

/-- No phrase can be read in pieces in the query, whatever is struck out of it: whatever the phrases
before it leave, and whatever is struck out of that for the phrase and those behind it. And next to
an empty phrase no word is left. -/
structure Untearable (env : Env) (raw : Str) (phrases : List Str) : Prop where
  whole : ∀ before phrase after, phrases = before ++ phrase :: after → phrase ≠ [] →
    ∀ left, Passes env before (raw.map (·, true)) left →
    ∀ marks, Passes env (phrase :: after) ((text left).map (·, true)) marks → ¬Torn env phrase marks
  wordless : [] ∈ phrases → ∀ marks, Passes env phrases (raw.map (·, true)) marks →
    ∀ c ∈ text marks, env.isWord c = false

/-- No text holds the phrase at two places that overlap. -/
def Apart (env : Env) (phrase : Str) : Prop :=
  ∀ prev c s, phraseAt env phrase prev (c :: s) = true → ∀ k < phrase.length - 1,
    phraseAt env phrase ((s.take k).getLast?.or (some c)) (s.drop k) = false

/-- Behind the first character of a match the rest of it is struck out too. -/
theorem strike_here {phrase : Str} : ∀ (here marks : List Mark) (prev : Option Char),
    strike env phrase (text here).length prev (here ++ marks) =
      here.map (fun m => (m.1, false)) ++ strike env phrase 0 ((text here).getLast?.or prev) marks
  | [], _, _ => rfl
  | (c, false) :: here, marks, prev => by
    rw [List.cons_append, strike, text_gone, strike_here here marks prev]
    rfl
  | (c, true) :: here, marks, prev => by
    rw [List.cons_append, text_there, List.length_cons, strike, strike_here here marks (some c),
      getLast?_cons_or]
    rfl

/-- A match is struck out. -/
theorem strike_match {phrase : Str} (hne : phrase ≠ []) :
    ∀ {here marks : List Mark} {prev : Option Char}, (text here).length = phrase.length →
      phraseAt env phrase prev (text (here ++ marks)) = true →
      strike env phrase 0 prev (here ++ marks) = here.map (fun m => (m.1, false)) ++
        strike env phrase 0 ((text here).getLast?.or prev) marks
  | [], _, _, hlen, _ => absurd (List.length_eq_zero_iff.mp hlen.symm) hne
  | (c, false) :: here, marks, prev, hlen, hat => by
    rw [List.cons_append, strike]
    exact congrArg ((c, false) :: ·) (strike_match hne hlen hat)
  | (c, true) :: here, marks, prev, hlen, hat => by
    have hrest : phrase.length - 1 = (text here).length := by
      rw [← hlen, text_there]
      rfl
    rw [List.cons_append, strike, if_pos ⟨hne, hat⟩, hrest, strike_here here marks (some c),
      text_there, getLast?_cons_or]
    rfl

/-- What `re.sub` strikes out, all it can from the left, is one choice. -/
theorem struckOut_strike (phrase : Str) : ∀ (marks : List Mark) (prev : Option Char),
    StruckOut env phrase prev marks (strike env phrase 0 prev marks)
  | [], _ => .nil
  | (c, false) :: marks, prev => .gone (struckOut_strike phrase marks prev)
  | (c, true) :: marks, prev => by
    by_cases hat : phrase ≠ [] ∧ phraseAt env phrase prev (c :: text marks) = true
    · have hlong : phrase.length - 1 ≤ (text marks).length := by
        cases hafter : afterPhrase env phrase (c :: text marks) with
        | none => simp [phraseAt, hafter] at hat
        | some rest =>
          have hlength := length_afterPhrase hafter
          rw [List.length_cons] at hlength
          omega
      obtain ⟨here, rest, hmarks, hhere, -⟩ :=
        text_eq_append (List.take_append_drop (phrase.length - 1) (text marks)).symm
      have hpos := List.length_pos_iff.mpr hat.1
      have hlen : (text ((c, true) :: here)).length = phrase.length := by
        rw [text_there, List.length_cons, hhere, List.length_take, min_eq_left hlong]
        omega
      rw [hmarks] at hat ⊢
      have hmatch := strike_match hat.1 hlen hat.2
      rw [List.cons_append] at hmatch
      rw [hmatch]
      exact .struck hat.1 hat.2 hlen (struckOut_strike phrase rest _)
    · rw [strike, if_neg hat]
      exact .kept (fun hne hhere => absurd ⟨hne, hhere⟩ hat)
        (struckOut_strike phrase marks (some c))
termination_by marks => marks.length
decreasing_by all_goals simp_all only [List.length_cons, List.length_append]; omega

theorem spared_zero (marks marks' : List Mark) : Spared 0 marks marks' := by simp [Spared]

/-- Where no place starts, no character is lost. -/
theorem StruckOut.spared {phrase : Str} {prev : Option Char} {marks marks' : List Mark}
    (h : StruckOut env phrase prev marks marks') : ∀ {n : Nat}, (∀ k < n,
      phraseAt env phrase (((text marks).take k).getLast?.or prev) ((text marks).drop k) = false) →
      Spared n marks marks' := by
  induction h with
  | nil =>
    intro n _
    cases n with
    | zero => exact spared_zero _ _
    | succ n => simp [Spared]
  | gone _ ih =>
    intro n hno
    cases n with
    | zero => exact spared_zero _ _
    | succ n => exact ih hno
  | kept _ _ ih =>
    intro n hno
    cases n with
    | zero => exact spared_zero _ _
    | succ n =>
      refine ⟨rfl, ih fun k hk => ?_⟩
      have hnext := hno (k + 1) (by omega)
      rwa [text_there, List.take_succ_cons, List.drop_succ_cons, getLast?_cons_or] at hnext
  | @struck prev here marks marks' hne hat hlen _ _ =>
    intro n hno
    cases n with
    | zero => exact spared_zero _ _
    | succ n =>
      have hfirst := hno 0 (by omega)
      rw [List.take_zero, List.drop_zero, List.getLast?_nil, Option.none_or, hat] at hfirst
      cases hfirst

/-- Where the phrase cannot overlap itself, there is one choice. -/
theorem StruckOut.eq_strike {phrase : Str} (hapart : Apart env phrase) {prev : Option Char}
    {marks marks' : List Mark} (h : StruckOut env phrase prev marks marks') :
    marks' = strike env phrase 0 prev marks := by
  induction h with
  | nil => rfl
  | gone _ ih => rw [strike, ih]
  | @kept prev c marks marks' hlost h ih =>
    have hno : ¬(phrase ≠ [] ∧ phraseAt env phrase prev (c :: text marks) = true) := by
      rintro ⟨hne, hat⟩
      exact hlost hne hat (h.spared (hapart prev c _ hat))
    rw [strike, if_neg hno, ih]
  | struck hne hat hlen _ ih => rw [strike_match hne hlen hat, ih]

theorem Passes.eq_foldl {marks marks' : List Mark} (h : Passes env phrases marks marks') :
    (∀ phrase ∈ phrases, Apart env phrase) →
      marks' = phrases.foldl (fun marks phrase => strike env phrase 0 none marks) marks := by
  induction h with
  | nil => exact fun _ => rfl
  | cons h _ ih =>
    intro hapart
    obtain ⟨hphrase, hphrases⟩ := List.forall_mem_cons.mp hapart
    rw [List.foldl_cons, ← h.eq_strike hphrase]
    exact ih hphrases

theorem passes_marksOf : ∀ (phrases : List Str) (marks : List Mark), Passes env phrases marks
    (phrases.foldl (fun marks phrase => strike env phrase 0 none marks) marks)
  | [], _ => .nil
  | phrase :: phrases, marks =>
    .cons (struckOut_strike phrase marks none) (passes_marksOf phrases _)

/-- The phrases behind the first ones start from what these leave. -/
theorem text_marksOf_append (before after : List Str) (raw : Str) :
    text (marksOf env (before ++ after) raw) =
      text (marksOf env after (text (marksOf env before raw))) := by
  rw [text_marksOf, text_marksOf, text_marksOf]
  induction before generalizing raw with
  | nil => rfl
  | cons phrase before ih => rw [List.cons_append, stripPhrases_fst, stripPhrases_fst, ih]

theorem not_occurs_of_untearable (hblank : ∀ c, isSpace c = true → env.isWord c = false)
    (h : Untearable env raw phrases) {phrase : Str} (hmem : phrase ∈ phrases) (hne : phrase ≠ []) :
    ¬Occurs env phrase (normalizeQuery env raw phrases).1 := by
  obtain ⟨before, after, rfl⟩ := List.append_of_mem hmem
  rw [normalizeQuery_fst (by simp), text_marksOf_append,
    occurs_iff_torn hblank hne List.mem_cons_self]
  exact h.whole before phrase after rfl hne _ (passes_marksOf before _) _ (passes_marksOf _ _)

/-- Which queries come out clean, in terms of what is struck out of them. -/
theorem clean_iff_torn (hblank : ∀ c, isSpace c = true → env.isWord c = false) :
    Clean env raw phrases ↔ ∀ phrase ∈ phrases,
      (phrase ≠ [] → ¬Torn env phrase (marksOf env phrases raw)) ∧
      (phrase = [] → ∀ c ∈ text (marksOf env phrases raw), env.isWord c = false) := by
  have hocc : ∀ phrase ∈ phrases, ¬Occurs env phrase (normalizeQuery env raw phrases).1 ↔
      (phrase ≠ [] → ¬Torn env phrase (marksOf env phrases raw)) ∧
      (phrase = [] → ∀ c ∈ text (marksOf env phrases raw), env.isWord c = false) := by
    intro phrase hmem
    rw [normalizeQuery_fst (List.ne_nil_of_mem hmem)]
    by_cases hne : phrase = []
    · subst hne
      simp [occurs_nil_iff hblank]
    · simp [occurs_iff_torn hblank hne hmem, hne]
  rw [← forall₂_congr hocc]
  exact ⟨Clean.gone, clean_of_gone⟩

theorem clean_of_untearable (hblank : ∀ c, isSpace c = true → env.isWord c = false)
    (h : Untearable env raw phrases) : Clean env raw phrases := by
  refine clean_of_gone fun phrase hmem => ?_
  by_cases hne : phrase = []
  · subst hne
    rw [normalizeQuery_fst (List.ne_nil_of_mem hmem), occurs_nil_iff hblank]
    rintro ⟨c, hc, hword⟩
    rw [h.wordless hmem _ (passes_marksOf _ _) c hc] at hword
    cases hword
  · exact not_occurs_of_untearable hblank h hmem hne

/-- With one choice only, what can be read in pieces is left in the query. -/
theorem untearable_of_clean (hblank : ∀ c, isSpace c = true → env.isWord c = false)
    (hapart : ∀ phrase ∈ phrases, Apart env phrase) (h : Clean env raw phrases) :
    Untearable env raw phrases := by
  constructor
  · rintro before phrase after rfl hne left hleft marks hmarks htorn
    rw [hleft.eq_foldl fun p hp => hapart p (List.mem_append_left _ hp)] at hmarks
    rw [hmarks.eq_foldl fun p hp => hapart p (List.mem_append_right _ hp)] at htorn
    refine h.gone phrase (by simp) ?_
    rw [normalizeQuery_fst (by simp), text_marksOf_append]
    exact (occurs_iff_torn hblank hne List.mem_cons_self _).mpr htorn
  · intro hmem marks hmarks
    rw [hmarks.eq_foldl hapart]
    exact ((clean_iff_torn hblank).mp h [] hmem).2 rfl

/-! ## Phrases that cannot overlap themselves -/

/-- No proper end of the phrase can be read as its beginning, but for one inside a word. -/
def Borderless (env : Env) (phrase : Str) : Prop :=
  ∀ k, k + 1 < phrase.length →
    (∃ q ∈ (phrase.drop (k + 1)).zip phrase,
      ∀ c, env.sameLetter q.1 c = true → env.sameLetter q.2 c = false) ∨
    ∀ p ∈ phrase[k]?, ∀ q ∈ phrase[k + 1]?, ∀ c d, env.sameLetter p c = true →
      env.sameLetter q d = true → wordBoundary env (some c) (some d) = false

theorem sameLetter_of_afterPhrase : ∀ {phrase s rest : Str},
    afterPhrase env phrase s = some rest → ∀ {i : Nat} {p : Char}, phrase[i]? = some p →
      ∃ c, s[i]? = some c ∧ env.sameLetter p c = true
  | [], _, _, _, i, p, hp => by simp at hp
  | q :: phrase, [], _, h, _, _, _ => by cases h
  | q :: phrase, c :: s, rest, h, i, p, hp => by
    rw [afterPhrase] at h
    split_ifs at h with hsame
    cases i with
    | zero =>
      obtain rfl : q = p := by simpa using hp
      exact ⟨c, rfl, hsame⟩
    | succ i => exact @sameLetter_of_afterPhrase phrase s rest h i p hp

theorem afterPhrase_of_phraseAt {phrase s : Str} {prev : Option Char}
    (h : phraseAt env phrase prev s = true) : ∃ rest, afterPhrase env phrase s = some rest := by
  unfold phraseAt at h
  cases hafter : afterPhrase env phrase s with
  | none =>
    rw [hafter] at h
    cases h
  | some rest => exact ⟨rest, rfl⟩

theorem before_drop : ∀ {k : Nat} {c : Char} {s : Str}, k ≤ s.length →
    (s.take k).getLast?.or (some c) = (c :: s)[k]?
  | 0, _, _, _ => rfl
  | k + 1, c, d :: s, h => by
    rw [List.take_succ_cons, getLast?_cons_or, List.getElem?_cons_succ]
    exact before_drop (Nat.le_of_succ_le_succ h)

theorem apart_of_borderless {phrase : Str} (h : Borderless env phrase) : Apart env phrase := by
  intro prev c s hat k hk
  rw [Bool.eq_false_iff]
  intro hagain
  obtain ⟨rest, hfirst⟩ := afterPhrase_of_phraseAt hat
  obtain ⟨rest', hsecond⟩ := afterPhrase_of_phraseAt hagain
  have hlong : k + 1 < phrase.length := by omega
  rcases h k hlong with hdiffer | hinside
  · obtain ⟨⟨p, q⟩, hmem, hdiffer⟩ := hdiffer
    obtain ⟨i, hi⟩ := List.mem_iff_getElem?.mp hmem
    obtain ⟨hp, hq⟩ := List.getElem?_zip_eq_some.mp hi
    rw [List.getElem?_drop] at hp
    -- one character of the text would be read as both letters
    obtain ⟨d, hd, hsame⟩ := sameLetter_of_afterPhrase hfirst hp
    obtain ⟨d', hd', hsame'⟩ := sameLetter_of_afterPhrase hsecond hq
    rw [List.getElem?_drop] at hd'
    rw [Nat.add_right_comm, List.getElem?_cons_succ, hd'] at hd
    cases hd
    rw [hdiffer _ hsame] at hsame'
    cases hsame'
  · -- the second place would start inside a word
    obtain ⟨d, hd, hsame⟩ :=
      sameLetter_of_afterPhrase hfirst (List.getElem?_eq_getElem (Nat.lt_of_succ_lt hlong))
    obtain ⟨d', hd', hsame'⟩ :=
      sameLetter_of_afterPhrase hfirst (List.getElem?_eq_getElem hlong)
    have hnot := hinside _ (List.getElem?_eq_getElem _) _ (List.getElem?_eq_getElem _) d d' hsame
      hsame'
    have hstart := (boundaries_of_phraseAt hagain).1
    have hin : k ≤ s.length := by
      have hlength := length_afterPhrase hfirst
      rw [List.length_cons] at hlength
      omega
    rw [before_drop hin, hd, List.head?_drop, ← @List.getElem?_cons_succ _ c k s, hd', hnot]
      at hstart
    cases hstart

/-! ## Phrases of one word -/

/-- A match of the phrase is made of word characters. -/
structure IsWord (env : Env) (phrase : Str) : Prop where
  ne_nil : phrase ≠ []
  letters : ∀ x, afterPhrase env phrase x = some [] → ∀ c ∈ x, env.isWord c = true

/-- What meets where characters were struck out are no word characters. -/
def Spaced (env : Env) : (prev : Option Char) → (gap : Bool) → List Mark → Prop
  | _, _, [] => True
  | prev, _, (_, false) :: marks => Spaced env prev true marks
  | prev, gap, (c, true) :: marks =>
    (gap = true → prev.any env.isWord = false ∧ env.isWord c = false) ∧
      Spaced env (some c) false marks

theorem spaced_all_there : ∀ (s : Str) (prev : Option Char),
    Spaced env prev false (s.map (·, true))
  | [], _ => trivial
  | c :: s, _ => ⟨nofun, spaced_all_there s (some c)⟩

theorem Spaced.gap : ∀ {marks : List Mark} {prev prev' : Option Char} {gap : Bool},
    Spaced env prev gap marks → prev'.any env.isWord = false →
    (text marks).head?.any env.isWord = false → Spaced env prev' true marks
  | [], _, _, _, _, _, _ => trivial
  | (_, false) :: marks, prev, prev', _, h, hprev, hnext =>
    @Spaced.gap marks prev prev' true h hprev hnext
  | (_, true) :: _, _, _, _, h, hprev, hnext => ⟨fun _ => ⟨hprev, hnext⟩, h.2⟩

theorem Spaced.behind : ∀ {left right : List Mark} {prev : Option Char} {gap : Bool},
    Spaced env prev gap (left ++ right) → ∃ gap', Spaced env ((text left).getLast?.or prev) gap' right
  | [], _, _, gap, h => ⟨gap, h⟩
  | (_, false) :: left, right, prev, _, h => @Spaced.behind left right prev true h
  | (c, true) :: left, right, prev, _, h => by
    obtain ⟨gap', h'⟩ := @Spaced.behind left right (some c) false h.2
    exact ⟨gap', by rwa [text_there, getLast?_cons_or]⟩

theorem Spaced.front : ∀ {left right : List Mark} {prev : Option Char} {gap : Bool},
    Spaced env prev gap (left ++ right) → Spaced env prev gap left
  | [], _, _, _, _ => trivial
  | (_, false) :: left, right, prev, _, h => @Spaced.front left right prev true h
  | (c, true) :: left, right, _, _, h => ⟨h.1, @Spaced.front left right (some c) false h.2⟩

theorem spaced_gone : ∀ (here : List Mark) {marks : List Mark} {prev : Option Char} {gap : Bool},
    Spaced env prev true marks →
      here ≠ [] → Spaced env prev gap (here.map (fun m => (m.1, false)) ++ marks)
  | [_], _, _, _, h, _ => h
  | _ :: m :: here, marks, prev, _, h, _ =>
    @spaced_gone (m :: here) marks prev true h (List.cons_ne_nil _ _)

/-- A match of a word, and no word character on either side of it. -/
theorem IsWord.match {phrase : Str} (hw : IsWord env phrase) {prev : Option Char}
    {here marks : List Mark} (hat : phraseAt env phrase prev (text (here ++ marks)) = true)
    (hlen : (text here).length = phrase.length) : (∀ c ∈ text here, env.isWord c = true) ∧
      prev.any env.isWord = false ∧ (text marks).head?.any env.isWord = false := by
  have hreads : afterPhrase env phrase (text here) = some [] := by
    cases hafter : afterPhrase env phrase (text (here ++ marks)) with
    | none =>
      unfold phraseAt at hat
      rw [hafter] at hat
      cases hat
    | some rest =>
      obtain ⟨x, hx, hreads⟩ := exists_of_afterPhrase hafter
      have hlength : x.length = (text here).length := by
        rw [length_afterPhrase hreads, hlen]
        rfl
      rw [text_append] at hx
      rwa [(List.append_inj hx hlength.symm).1]
  have hletters := hw.letters _ hreads
  have hne : text here ≠ [] := ne_nil_of_afterPhrase hw.ne_nil hreads
  rw [text_append, phraseAt_append hne hreads] at hat
  obtain ⟨hbefore, hafter⟩ := Bool.and_eq_true_iff.mp hat
  obtain ⟨c, hc⟩ := Option.ne_none_iff_exists'.mp (mt List.head?_eq_none_iff.mp hne)
  obtain ⟨d, hd⟩ := Option.ne_none_iff_exists'.mp (mt List.getLast?_eq_none_iff.mp hne)
  have hfirst : env.isWord c = true := hletters c (List.mem_of_head? hc)
  have hlast : env.isWord d = true := hletters d (List.mem_of_getLast? hd)
  refine ⟨hletters, ?_, ?_⟩
  · simpa [wordBoundary, hc, hfirst] using hbefore
  · simpa [wordBoundary, hd, hlast] using hafter

/-- Behind no word character, nothing is struck out. -/
theorem StruckOut.head {phrase : Str} (hw : IsWord env phrase) {prev : Option Char}
    {marks marks' : List Mark} (h : StruckOut env phrase prev marks marks')
    (hhead : (text marks).head?.any env.isWord = false) :
    (text marks').head?.any env.isWord = false := by
  induction h with
  | nil => exact hhead
  | gone _ ih => exact ih hhead
  | kept _ _ _ => exact hhead
  | @struck prev here marks marks' _ hat hlen _ _ =>
    obtain ⟨hletters, -, -⟩ := hw.match hat hlen
    obtain ⟨c, rest, hc⟩ : ∃ c rest, text here = c :: rest := by
      refine List.exists_cons_of_ne_nil fun hnil => hw.ne_nil ?_
      rw [hnil] at hlen
      exact List.length_eq_zero_iff.mp hlen.symm
    have hword : env.isWord c = true := hletters c (hc ▸ List.mem_cons_self)
    rw [text_append, hc] at hhead
    rw [List.cons_append, List.head?_cons, Option.any_some, hword] at hhead
    cases hhead

theorem StruckOut.spaced {phrase : Str} (hw : IsWord env phrase) {prev : Option Char}
    {marks marks' : List Mark} (h : StruckOut env phrase prev marks marks') :
    ∀ {gap : Bool}, Spaced env prev gap marks → Spaced env prev gap marks' := by
  induction h with
  | nil => exact fun _ => trivial
  | gone _ ih => exact fun hs => ih hs
  | kept _ _ ih => exact fun hs => ⟨hs.1, ih hs.2⟩
  | @struck prev here marks marks' hne hat hlen h ih =>
    intro gap hs
    obtain ⟨-, hprev, hnext⟩ := hw.match hat hlen
    obtain ⟨gap', hbehind⟩ := hs.behind
    refine spaced_gone here ((ih hbehind).gap hprev (h.head hw hnext)) ?_
    rintro rfl
    exact hne (List.length_eq_zero_iff.mp hlen.symm)

theorem Passes.spaced (hw : ∀ phrase ∈ phrases, IsWord env phrase) {marks marks' : List Mark}
    (h : Passes env phrases marks marks') (hs : Spaced env none false marks) :
    Spaced env none false marks' := by
  induction h with
  | nil => exact hs
  | cons h _ ih =>
    obtain ⟨hphrase, hphrases⟩ := List.forall_mem_cons.mp hw
    exact ih hphrases (h.spaced hphrase hs)

/-- A word is in one piece. -/
theorem Spaced.there : ∀ {marks : List Mark} {prev : Option Char}, Spaced env prev false marks →
    (∀ c ∈ text marks, env.isWord c = true) → (∀ m ∈ marks.getLast?, m.2 = true) →
    ∀ m ∈ marks, m.2 = true
  | [], _, _, _, _ => nofun
  | (c, true) :: marks, _, h, hword, hlast => by
    refine List.forall_mem_cons.mpr ⟨rfl, ?_⟩
    refine Spaced.there h.2 (fun d hd => hword d (List.mem_cons_of_mem _ hd)) fun m hm => ?_
    exact hlast m (by rw [List.getLast?_cons, Option.mem_def.mp hm]; rfl)
  | (c, false) :: marks, _, h, hword, hlast => by
    -- behind the gap there is a character, and it is no word character
    have hnone : ∀ {marks : List Mark} {prev : Option Char}, Spaced env prev true marks →
        (∀ c ∈ text marks, env.isWord c = true) → text marks = [] := by
      intro marks
      induction marks with
      | nil => exact fun _ _ => rfl
      | cons m marks ih =>
        obtain ⟨d, there⟩ := m
        intro prev h hword
        cases there with
        | false => exact ih h hword
        | true =>
          have hd := hword d List.mem_cons_self
          rw [(h.1 rfl).2] at hd
          cases hd
    obtain ⟨⟨d, there⟩, hd⟩ : ∃ m, ((c, false) :: marks).getLast? = some m := ⟨_, List.getLast?_cons⟩
    obtain rfl : there = true := hlast _ hd
    have hmem : (d, true) ∈ marks :=
      (List.mem_cons.mp (List.mem_of_getLast? hd)).resolve_left (by simp)
    have htext : d ∈ text marks := List.mem_map.mpr ⟨(d, true), List.mem_filter.mpr ⟨hmem, rfl⟩, rfl⟩
    rw [hnone h hword] at htext
    cases htext

theorem collapseSpaces_of_words (hblank : ∀ c, isSpace c = true → env.isWord c = false) :
    ∀ {s : Str}, (∀ c ∈ collapseSpaces false s, env.isWord c = true) →
      collapseSpaces false s = s ∧ ∀ c ∈ s, env.isWord c = true
  | [], _ => ⟨rfl, nofun⟩
  | c :: s, h => by
    by_cases hc : isSpace c = true
    · rw [collapseSpaces_out hc] at h
      have hspace := h ' ' List.mem_cons_self
      rw [hblank ' ' rfl] at hspace
      cases hspace
    · rw [collapseSpaces_other hc] at h ⊢
      obtain ⟨hword, hrest⟩ := List.forall_mem_cons.mp h
      obtain ⟨hs, hwords⟩ := collapseSpaces_of_words hblank hrest
      exact ⟨congrArg (c :: ·) hs, List.forall_mem_cons.mpr ⟨hword, hwords⟩⟩

/-- **Single words.** Phrases of one word each are never put together. -/
theorem untearable_of_words (hblank : ∀ c, isSpace c = true → env.isWord c = false)
    (hw : ∀ phrase ∈ phrases, IsWord env phrase) : Untearable env raw phrases := by
  refine ⟨?_, fun hmem => absurd rfl (hw [] hmem).ne_nil⟩
  rintro before phrase after rfl hne left - marks hpasses ⟨front, here, back, rfl, hread, hpieces⟩
  have hs := hpasses.spaced (fun p hp => hw p (List.mem_append_right _ hp))
    (spaced_all_there (text left) none)
  rw [List.append_assoc] at hs
  obtain ⟨gap, hbehind⟩ := hs.behind
  have hletters := (hw phrase (by simp)).letters _ hread.reads
  obtain ⟨hcollapse, hwords⟩ := collapseSpaces_of_words hblank hletters
  refine hpieces ⟨?_, hcollapse⟩
  have hhere := hbehind.front
  have hstarts := hread.starts
  cases here with
  | nil => nofun
  | cons m here =>
    obtain ⟨c, there⟩ := m
    obtain rfl : there = true := hstarts (c, there) rfl
    exact @Spaced.there env ((c, true) :: here) none ⟨nofun, hhere.2⟩ hwords hread.ends

end

/-- **Query normalization.** For every query of which no phrase can be read in pieces, whatever is
struck out of it: the normalized query holds none of the phrases and is left alone by a second
normalization. Where no phrase can overlap itself it does only then; and in terms of what `re.sub`
strikes out, for all phrases. -/
theorem normalizeQuery_clean (env : Env)
    (hblank : ∀ c, isSpace c = true → env.isWord c = false) (raw : Str) (phrases : List Str) :
    (Untearable env raw phrases → Clean env raw phrases) ∧
    ((∀ phrase ∈ phrases, Apart env phrase) →
      (Clean env raw phrases ↔ Untearable env raw phrases)) ∧
    (Clean env raw phrases ↔ ∀ phrase ∈ phrases,
      (phrase ≠ [] → ¬Torn env phrase (marksOf env phrases raw)) ∧
      (phrase = [] → ∀ c ∈ text (marksOf env phrases raw), env.isWord c = false)) := by
  have hclean : Untearable env raw phrases → Clean env raw phrases := clean_of_untearable hblank
  exact ⟨hclean, fun hapart => ⟨untearable_of_clean hblank hapart, hclean⟩, clean_iff_torn hblank⟩

theorem asciiEnv_blank (c : Char) (hc : isSpace c = true) : asciiEnv.isWord c = false := by
  have hword : asciiEnv.isWord c = true → 48 ≤ c.toNat ∧ c.toNat ≤ 122 := by
    intro h
    simp only [asciiEnv, Char.isAlphanum, Char.isAlpha, Char.isUpper, Char.isLower, Char.isDigit,
      Bool.or_eq_true, decide_eq_true_eq, beq_iff_eq, Bool.and_eq_true, UInt32.le_iff_toNat_le,
      ge_iff_le] at h
    change (((65 ≤ c.toNat ∧ c.toNat ≤ 90) ∨ (97 ≤ c.toNat ∧ c.toNat ≤ 122)) ∨
      (48 ≤ c.toNat ∧ c.toNat ≤ 57)) ∨ c = '_' at h
    rcases h with h | rfl
    · omega
    · decide
  rw [Bool.eq_false_iff]
  intro h
  obtain ⟨hlo, hhi⟩ := hword h
  simp only [isSpace, Bool.or_eq_true, Bool.and_eq_true, decide_eq_true_eq, beq_iff_eq] at hc
  omega

theorem isWord_of_sameLetter {p c : Char} (hp : asciiEnv.isWord p = true)
    (h : asciiEnv.sameLetter p c = true) : asciiEnv.isWord c = true := by
  have hlower : p.toLower = c.toLower := beq_iff_eq.mp h
  have halnum : ∀ d : Char, d.toLower.isAlphanum = d.isAlphanum := by
    intro d
    by_cases hd : d.isUpper = true
    · simp [Char.isAlphanum, Char.isAlpha, hd]
    · rw [Char.toLower_eq_of_not_isUpper hd]
  rcases Bool.or_eq_true_iff.mp hp with hp | hp
  · rw [← halnum, hlower, halnum] at hp
    exact Bool.or_eq_true_iff.mpr (.inl hp)
  · obtain rfl := beq_iff_eq.mp hp
    by_cases hc : c.isUpper = true
    · exact Bool.or_eq_true_iff.mpr (.inl (by simp [Char.isAlphanum, Char.isAlpha, hc]))
    · rw [Char.toLower_eq_of_not_isUpper hc] at hlower
      rw [← hlower]
      rfl

theorem asciiEnv_isWord {phrase : Str} (hne : phrase ≠ [])
    (h : ∀ p ∈ phrase, asciiEnv.isWord p = true) : IsWord asciiEnv phrase := by
  refine ⟨hne, ?_⟩
  clear hne
  induction phrase with
  | nil =>
    intro x hx
    cases hx
    nofun
  | cons p phrase ih =>
    obtain ⟨hp, hphrase⟩ := List.forall_mem_cons.mp h
    intro x hx
    cases x with
    | nil => cases hx
    | cons c x =>
      rw [afterPhrase] at hx
      split_ifs at hx with hsame
      exact List.forall_mem_cons.mpr ⟨isWord_of_sameLetter hp hsame, ih hphrase x hx⟩

/-- The phrases of config/security.example.yaml. -/
def examplePhrases : List Str :=
  ["ignore previous instructions", "ignore prior instructions", "disregard the system prompt",
    "you are now", "developer message", "you must comply"]

theorem asciiEnv_borderless {phrase : Str} (h : ∀ k ∈ List.range (phrase.length - 1),
    (∃ q ∈ (phrase.drop (k + 1)).zip phrase, q.1.toLower ≠ q.2.toLower) ∨
      (phrase[k]?.all asciiEnv.isWord && phrase[k + 1]?.all asciiEnv.isWord) = true) :
    Borderless asciiEnv phrase := by
  intro k hk
  refine (h k (List.mem_range.mpr (by omega))).imp ?_ ?_
  · rintro ⟨q, hq, hne⟩
    refine ⟨q, hq, fun c hsame => Bool.eq_false_iff.mpr fun hsame' => hne ?_⟩
    rw [beq_iff_eq.mp hsame, ← beq_iff_eq.mp hsame']
  · intro hword p hp q hq c d hsame hsame'
    obtain ⟨hwp, hwq⟩ := Bool.and_eq_true_iff.mp hword
    rw [Option.mem_def.mp hp] at hwp
    rw [Option.mem_def.mp hq] at hwq
    simp [wordBoundary, isWord_of_sameLetter hwp hsame, isWord_of_sameLetter hwq hsame']

/-- One word, inside itself and on its own; and the phrases of the example configuration. -/
theorem normalizeQuery_clean_word :
    Clean asciiEnv "jailjailbreakbreak, Jailbreak! How to deploy" ["jailbreak".toList] ∧
      (normalizeQuery asciiEnv "jailjailbreakbreak, Jailbreak! How to deploy"
        ["jailbreak".toList]).1 = "jailjailbreakbreak, ! How to deploy".toList ∧
      (Clean asciiEnv "you you are now are now a developer message" examplePhrases ↔
        Untearable asciiEnv "you you are now are now a developer message" examplePhrases) := by
  refine ⟨(normalizeQuery_clean asciiEnv asciiEnv_blank _ _).1 ?_, by decide +kernel,
    (normalizeQuery_clean asciiEnv asciiEnv_blank _ _).2.1 fun phrase hmem => ?_⟩
  · refine untearable_of_words asciiEnv_blank fun phrase hmem => ?_
    rw [List.mem_singleton.mp hmem]
    exact asciiEnv_isWord (by simp) (by simp [asciiEnv, Char.isAlphanum, Char.isAlpha, Char.isLower])
  · refine apart_of_borderless (asciiEnv_borderless ?_)
    revert phrase
    decide +kernel

/-- A phrase inside itself is put together where it was taken out. -/
theorem nested_phrase_left :
    (normalizeQuery asciiEnv "ignore ignore previous instructions previous instructions"
        ["ignore previous instructions".toList]).1 = "ignore previous instructions".toList ∧
      Occurs asciiEnv "ignore previous instructions" "ignore previous instructions" ∧
      normalizeQuery asciiEnv "ignore previous instructions"
        ["ignore previous instructions".toList] = ([], ["ignore previous instructions".toList]) ∧
      ¬ Clean asciiEnv "ignore ignore previous instructions previous instructions"
        ["ignore previous instructions".toList] := by
  have hleft : (normalizeQuery asciiEnv "ignore ignore previous instructions previous instructions"
      ["ignore previous instructions".toList]).1 = "ignore previous instructions".toList := by
    decide +kernel
  have hoccurs : Occurs asciiEnv "ignore previous instructions" "ignore previous instructions" :=
    ⟨[], "ignore previous instructions", rfl, by decide +kernel⟩
  refine ⟨hleft, hoccurs, by decide +kernel, fun hclean => ?_⟩
  have hgone := hclean.gone _ (List.mem_singleton_self _)
  rw [hleft] at hgone
  exact hgone hoccurs

end KnowledgeKiln.L3.QueryNormalization
