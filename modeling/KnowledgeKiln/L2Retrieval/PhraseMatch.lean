import KnowledgeKiln.L2Retrieval.EngineHelpers

/-!
# Phrases in a text, and in the text with its blanks collapsed

What a search for one phrase finds, what `re.sub(r"\s+", " ", s).strip()` keeps, and how
the two go together.

* `occurs_iff`: an occurrence is the phrase between words.
* `read_iff`: a phrase occurs in the collapsed text iff a stretch of the text reads as it.
* `occurs_nil_iff`: the empty phrase occurs wherever there is a word.
-/
namespace KnowledgeKiln.L2.PhraseMatch

open KnowledgeKiln.Core KnowledgeKiln.L2.Engine

/-! ## Phrases -/

/-- A case-insensitive occurrence of the whole phrase. -/
def Occurs (env : Env) (phrase s : Str) : Prop :=
  ∃ u v, s = u ++ v ∧ phraseAt env phrase u.getLast? v = true

section
variable {env : Env} {phrase : Str}

theorem afterPhrase_append : ∀ {phrase s rest : Str} (more : Str),
    afterPhrase env phrase s = some rest → afterPhrase env phrase (s ++ more) = some (rest ++ more)
  | [], _, _, _, h => by
    cases h
    rfl
  | p :: ps, c :: s, rest, more, h => by
    rw [afterPhrase] at h
    rw [List.cons_append, afterPhrase]
    split_ifs at h ⊢
    exact afterPhrase_append more h

theorem length_afterPhrase : ∀ {phrase s rest : Str},
    afterPhrase env phrase s = some rest → s.length = phrase.length + rest.length
  | [], _, _, h => by
    cases h
    simp
  | p :: ps, c :: s, rest, h => by
    rw [afterPhrase] at h
    split_ifs at h
    have ih : s.length = ps.length + rest.length := length_afterPhrase h
    rw [List.length_cons, List.length_cons, ih]
    omega

theorem ne_nil_of_afterPhrase (hne : phrase ≠ []) {x : Str}
    (h : afterPhrase env phrase x = some []) : x ≠ [] := by
  rintro rfl
  exact hne (List.length_eq_zero_iff.mp (length_afterPhrase h).symm)

theorem afterPhrase_eq_drop : ∀ {phrase s rest : Str},
    afterPhrase env phrase s = some rest → s.drop phrase.length = rest
  | [], _, _, h => Option.some.inj h
  | p :: ps, c :: s, rest, h => by
    rw [afterPhrase] at h
    split_ifs at h
    have ih : s.drop ps.length = rest := afterPhrase_eq_drop h
    exact ih

theorem exists_of_afterPhrase : ∀ {phrase s rest : Str}, afterPhrase env phrase s = some rest →
    ∃ x, s = x ++ rest ∧ afterPhrase env phrase x = some []
  | [], s, rest, h => by
    cases h
    exact ⟨[], rfl, rfl⟩
  | p :: ps, c :: s, rest, h => by
    rw [afterPhrase] at h
    split_ifs at h with hsame
    obtain ⟨x, rfl, hx⟩ := exists_of_afterPhrase h
    exact ⟨c :: x, rfl, by rw [afterPhrase, if_pos hsame, hx]⟩

/-- A match starts and ends between words. -/
theorem boundaries_of_phraseAt {prev : Option Char} {s : Str}
    (h : phraseAt env phrase prev s = true) :
    wordBoundary env prev s.head? = true ∧
      wordBoundary env ((s.take phrase.length).getLast?.or prev) (s.drop phrase.length).head? =
        true := by
  unfold phraseAt at h
  split at h
  · cases h
  · next rest hafter =>
    rw [afterPhrase_eq_drop hafter]
    exact Bool.and_eq_true_iff.mp h

theorem getLast?_cons_or (c : Char) (s : Str) (prev : Option Char) :
    (c :: s).getLast?.or prev = s.getLast?.or (some c) := by
  rw [List.getLast?_cons]
  cases s.getLast? <;> rfl

/-- The phrase is found where it stands iff it stands between words. -/
theorem phraseAt_append {x : Str} (hx : x ≠ []) (h : afterPhrase env phrase x = some [])
    (prev : Option Char) (more : Str) :
    phraseAt env phrase prev (x ++ more) =
      (wordBoundary env prev x.head? && wordBoundary env x.getLast? more.head?) := by
  obtain ⟨c, s, rfl⟩ := List.exists_cons_of_ne_nil hx
  have hlength : phrase.length = (c :: s).length := (length_afterPhrase h).symm
  have hlast : (c :: s).getLast?.or prev = (c :: s).getLast? := by
    rw [List.getLast?_cons]
    rfl
  unfold phraseAt
  rw [afterPhrase_append more h]
  dsimp only
  rw [hlength, List.take_left, hlast]
  rfl

theorem occurs_iff (hne : phrase ≠ []) {s : Str} : Occurs env phrase s ↔
    ∃ u x v, s = u ++ x ++ v ∧ afterPhrase env phrase x = some [] ∧
      wordBoundary env u.getLast? x.head? = true ∧ wordBoundary env x.getLast? v.head? = true := by
  constructor
  · rintro ⟨u, s', rfl, hat⟩
    cases hafter : afterPhrase env phrase s' with
    | none => simp [phraseAt, hafter] at hat
    | some v =>
      obtain ⟨x, rfl, hreads⟩ := exists_of_afterPhrase hafter
      rw [phraseAt_append (ne_nil_of_afterPhrase hne hreads) hreads] at hat
      obtain ⟨hbefore, hend⟩ := Bool.and_eq_true_iff.mp hat
      exact ⟨u, x, v, by simp, hreads, hbefore, hend⟩
  · rintro ⟨u, x, v, rfl, hreads, hbefore, hend⟩
    refine ⟨u, x ++ v, by simp, ?_⟩
    rw [phraseAt_append (ne_nil_of_afterPhrase hne hreads) hreads, hbefore, hend]
    rfl

/-- Nothing counted, nothing removed. -/
theorem subnPhrase_fst_of_zero : ∀ {s : Str} {prev : Option Char},
    (subnPhrase env phrase 0 prev s).2 = 0 → (subnPhrase env phrase 0 prev s).1 = s
  | [], _, _ => rfl
  | c :: s, prev, h => by
    rw [subnPhrase] at h ⊢
    split_ifs at h ⊢ with hat
    simpa using subnPhrase_fst_of_zero h

theorem stripPhrases_fst (cleaned : Str) (phrases : List Str) :
    (stripPhrases env cleaned (phrase :: phrases)).1 =
      (stripPhrases env (subnPhrase env phrase 0 none cleaned).1 phrases).1 := by
  rw [stripPhrases]
  dsimp only
  split_ifs with h
  · rfl
  · rw [subnPhrase_fst_of_zero (Nat.eq_zero_of_not_pos h)]

theorem subnPhrase_of_absent : ∀ {s : Str} {prev : Option Char},
    (∀ u v, s = u ++ v → phraseAt env phrase (u.getLast?.or prev) v = false) →
      subnPhrase env phrase 0 prev s = (s, 0)
  | [], prev, h => by
    have hat : phraseAt env phrase prev [] = false := h [] [] rfl
    rw [subnPhrase, hat, Bool.and_false]
    rfl
  | c :: s, prev, h => by
    have hat : phraseAt env phrase prev (c :: s) = false := h [] (c :: s) rfl
    have ih : subnPhrase env phrase 0 (some c) s = (s, 0) := subnPhrase_of_absent fun u v hs => by
      rw [← getLast?_cons_or c u prev]
      exact h (c :: u) v (by rw [hs, List.cons_append])
    rw [subnPhrase, hat, ih]
    rfl

theorem stripPhrases_of_absent {s : Str} : ∀ {phrases : List Str},
    (∀ phrase ∈ phrases, ¬Occurs env phrase s) → stripPhrases env s phrases = (s, [])
  | [], _ => rfl
  | phrase :: phrases, h => by
    have hnone : subnPhrase env phrase 0 none s = (s, 0) := subnPhrase_of_absent fun u v hs => by
      rw [Option.or_none]
      exact Bool.eq_false_iff.mpr fun hat => h phrase List.mem_cons_self ⟨u, v, hs, hat⟩
    rw [stripPhrases, hnone]
    exact stripPhrases_of_absent fun other hother => h other (List.mem_cons_of_mem _ hother)

end

/-! ## Blanks -/

theorem collapseSpaces_in {c : Char} (hc : isSpace c = true) (s : Str) :
    collapseSpaces true (c :: s) = collapseSpaces true s := by
  rw [collapseSpaces, if_pos hc, if_pos rfl]

theorem collapseSpaces_out {c : Char} (hc : isSpace c = true) (s : Str) :
    collapseSpaces false (c :: s) = ' ' :: collapseSpaces true s := by
  rw [collapseSpaces, if_pos hc, if_neg Bool.false_ne_true]

theorem collapseSpaces_other {c : Char} (hc : ¬isSpace c = true) (inSpace : Bool) (s : Str) :
    collapseSpaces inSpace (c :: s) = c :: collapseSpaces false s := by
  rw [collapseSpaces, if_neg hc]

theorem length_collapseSpaces_le : ∀ (s : Str) (inSpace : Bool),
    (collapseSpaces inSpace s).length ≤ s.length
  | [], _ => Nat.le_refl _
  | c :: s, inSpace => by
    have hin := length_collapseSpaces_le s true
    have hout := length_collapseSpaces_le s false
    rw [collapseSpaces]
    split_ifs <;> simp only [List.length_cons] <;> omega

theorem mem_collapseSpaces {c : Char} (hc : ¬isSpace c = true) : ∀ (s : Str) (inSpace : Bool),
    c ∈ collapseSpaces inSpace s ↔ c ∈ s
  | [], _ => Iff.rfl
  | d :: s, inSpace => by
    by_cases hd : isSpace d = true
    · have hcd : c ≠ d := by
        rintro rfl
        exact hc hd
      have hcs : c ≠ ' ' := by
        rintro rfl
        exact hc rfl
      cases inSpace with
      | true => rw [collapseSpaces_in hd, mem_collapseSpaces hc s, List.mem_cons, or_iff_right hcd]
      | false =>
        rw [collapseSpaces_out hd, List.mem_cons, mem_collapseSpaces hc s, List.mem_cons,
          or_iff_right hcd, or_iff_right hcs]
    · rw [collapseSpaces_other hd, List.mem_cons, mem_collapseSpaces hc s, List.mem_cons]

/-- A cut of the collapsed text is a cut of the text, behind a whole run of blanks. -/
theorem collapseSpaces_split : ∀ {s left right : Str} {inSpace : Bool},
    collapseSpaces inSpace s = left ++ right →
    ∃ before after, s = before ++ after ∧ collapseSpaces inSpace before = left ∧
      collapseSpaces false after = right
  | [], left, right, _, h => by
    obtain ⟨rfl, rfl⟩ := List.append_eq_nil_iff.mp h.symm
    exact ⟨[], [], rfl, rfl, rfl⟩
  | c :: s, left, right, inSpace, h => by
    by_cases hc : isSpace c = true
    · cases inSpace with
      | true =>
        rw [collapseSpaces_in hc] at h
        obtain ⟨before, after, rfl, rfl, rfl⟩ := collapseSpaces_split h
        exact ⟨c :: before, after, rfl, collapseSpaces_in hc before, rfl⟩
      | false =>
        cases left with
        | nil => exact ⟨[], c :: s, rfl, rfl, h⟩
        | cons d left =>
          rw [collapseSpaces_out hc] at h
          obtain ⟨rfl, htail⟩ := List.cons.inj h
          obtain ⟨before, after, rfl, rfl, rfl⟩ := collapseSpaces_split htail
          exact ⟨c :: before, after, rfl, collapseSpaces_out hc before, rfl⟩
    · rw [collapseSpaces_other hc] at h
      cases left with
      | nil => exact ⟨[], c :: s, rfl, rfl, (collapseSpaces_other hc false s).trans h⟩
      | cons d left =>
        obtain ⟨rfl, htail⟩ := List.cons.inj h
        obtain ⟨before, after, rfl, rfl, rfl⟩ := collapseSpaces_split htail
        exact ⟨c :: before, after, rfl, collapseSpaces_other hc inSpace before, rfl⟩

/-- Parts of a collapsed text are collapsed. -/
theorem collapseSpaces_parts {left right : Str}
    (h : collapseSpaces false (left ++ right) = left ++ right) :
    collapseSpaces false left = left ∧ collapseSpaces false right = right := by
  obtain ⟨before, after, hparts, hleft, hright⟩ := collapseSpaces_split h
  have hbefore := length_collapseSpaces_le before false
  have hafter := length_collapseSpaces_le after false
  have hlength := congrArg List.length hparts
  rw [hleft] at hbefore
  rw [hright] at hafter
  rw [List.length_append, List.length_append] at hlength
  obtain ⟨rfl, rfl⟩ := List.append_inj hparts (by omega)
  exact ⟨hleft, hright⟩

theorem collapseSpaces_idem : ∀ (s : Str) (inSpace : Bool),
    collapseSpaces inSpace (collapseSpaces inSpace s) = collapseSpaces inSpace s
  | [], _ => rfl
  | c :: s, inSpace => by
    by_cases hc : isSpace c = true
    · cases inSpace with
      | true => rw [collapseSpaces_in hc, collapseSpaces_idem s]
      | false => rw [collapseSpaces_out hc, collapseSpaces_out rfl, collapseSpaces_idem s]
    · rw [collapseSpaces_other hc, collapseSpaces_other hc, collapseSpaces_idem s]

/-- What normalization returns is normalized. -/
theorem strip_collapseSpaces_idem (s : Str) :
    strip (collapseSpaces false (strip (collapseSpaces false s))) =
      strip (collapseSpaces false s) := by
  obtain ⟨front, back, hs, -, -⟩ := exists_strip (collapseSpaces false s)
  have hidem := collapseSpaces_idem s false
  rw [hs] at hidem
  rw [(collapseSpaces_parts (collapseSpaces_parts hidem).1).2, strip_strip]

/-- Texts that do not meet in a run of blanks are collapsed each on its own. -/
theorem collapseSpaces_append : ∀ (s : Str) (prev : Option Char) (s' : Str),
    ((s.getLast?.or prev).any isSpace && s'.head?.any isSpace) = false →
      collapseSpaces (prev.any isSpace) (s ++ s') =
        collapseSpaces (prev.any isSpace) s ++ collapseSpaces false s'
  | [], prev, [], _ => rfl
  | [], prev, c :: s', h => by
    cases hprev : prev.any isSpace with
    | false => rfl
    | true =>
      have hc : ¬isSpace c = true := by simpa [hprev] using h
      rw [List.nil_append, collapseSpaces_other hc, collapseSpaces_other hc]
      rfl
  | c :: s, prev, s', h => by
    rw [getLast?_cons_or] at h
    have ih := collapseSpaces_append s (some c) s' h
    rw [Option.any_some] at ih
    rw [List.cons_append]
    by_cases hc : isSpace c = true
    · rw [hc] at ih
      cases prev.any isSpace with
      | true => rw [collapseSpaces_in hc, collapseSpaces_in hc, ih]
      | false => rw [collapseSpaces_out hc, collapseSpaces_out hc, ih, List.cons_append]
    · rw [Bool.eq_false_of_not_eq_true hc] at ih
      rw [collapseSpaces_other hc, collapseSpaces_other hc, ih, List.cons_append]

/-! ## Word characters -/

section
variable {env : Env}

theorem isWord_getLast?_append {front : Str} (h : ∀ c ∈ front, env.isWord c = false) (s : Str) :
    (front ++ s).getLast?.any env.isWord = s.getLast?.any env.isWord := by
  rw [List.getLast?_append]
  cases s.getLast? with
  | some c => rfl
  | none =>
    cases hlast : front.getLast? with
    | none => rfl
    | some c => simpa using h c (List.mem_of_getLast? hlast)

theorem isWord_head?_append {back : Str} (h : ∀ c ∈ back, env.isWord c = false) (s : Str) :
    (s ++ back).head?.any env.isWord = s.head?.any env.isWord := by
  cases s with
  | cons c s => rfl
  | nil =>
    cases back with
    | nil => rfl
    | cons c back => simpa using h c List.mem_cons_self

theorem wordBoundary_congr {prev prev' next next' : Option Char}
    (hprev : prev.any env.isWord = prev'.any env.isWord)
    (hnext : next.any env.isWord = next'.any env.isWord) :
    wordBoundary env prev next = wordBoundary env prev' next' := by
  rw [wordBoundary, wordBoundary, hprev, hnext]

theorem occurs_nil {s : Str} : Occurs env [] s ↔ ∃ c ∈ s, env.isWord c = true := by
  constructor
  · rintro ⟨u, v, rfl, hat⟩
    by_contra hnone
    push Not at hnone
    have hword : ∀ c ∈ u ++ v, env.isWord c = false := fun c hc => by simpa using hnone c hc
    have hu := isWord_getLast?_append (fun c hc => hword c (List.mem_append_left v hc)) []
    have hv := isWord_head?_append (fun c hc => hword c (List.mem_append_right u hc)) []
    rw [List.append_nil] at hu
    rw [List.nil_append] at hv
    have hboundary := (boundaries_of_phraseAt hat).1
    rw [wordBoundary, hu, hv] at hboundary
    cases hboundary
  · rintro ⟨c, hc, hword⟩
    have hfront : ∀ d ∈ s.takeWhile (fun d => !env.isWord d), env.isWord d = false :=
      fun d hd => by simpa using List.mem_takeWhile_imp hd
    have hlast := isWord_getLast?_append hfront []
    rw [List.append_nil] at hlast
    have hne : s.dropWhile (fun d => !env.isWord d) ≠ [] := by
      intro h
      simpa [hword] using List.dropWhile_eq_nil_iff.mp h c hc
    have hhead := List.head_dropWhile_not (fun d => !env.isWord d) (l := s) hne
    refine ⟨s.takeWhile fun d => !env.isWord d, s.dropWhile fun d => !env.isWord d,
      List.takeWhile_append_dropWhile.symm, ?_⟩
    simp only [phraseAt, afterPhrase, wordBoundary, List.length_nil, List.take_zero,
      List.getLast?_nil, Option.none_or, Bool.and_self, hlast, List.head?_eq_some_head hne,
      Option.any_some]
    simpa using hhead

variable (hblank : ∀ c, isSpace c = true → env.isWord c = false)
include hblank

/-- The empty phrase is found in the normalized text iff a word is left. -/
theorem occurs_nil_iff (s : Str) :
    Occurs env [] (strip (collapseSpaces false s)) ↔ ∃ c ∈ s, env.isWord c = true := by
  rw [occurs_nil]
  have hmem : ∀ c, env.isWord c = true → (c ∈ strip (collapseSpaces false s) ↔ c ∈ s) := by
    intro c hword
    have hc : ¬isSpace c = true := by
      intro hc
      rw [hblank c hc] at hword
      cases hword
    rw [mem_strip hc, mem_collapseSpaces hc]
  constructor
  · rintro ⟨c, hc, hword⟩
    exact ⟨c, (hmem c hword).mp hc, hword⟩
  · rintro ⟨c, hc, hword⟩
    exact ⟨c, (hmem c hword).mpr hc, hword⟩

theorem isWord_head?_collapseSpaces (s : Str) :
    (collapseSpaces false s).head?.any env.isWord = s.head?.any env.isWord := by
  cases s with
  | nil => rfl
  | cons c s =>
    by_cases hc : isSpace c = true
    · rw [collapseSpaces_out hc]
      exact (hblank ' ' rfl).trans (hblank c hc).symm
    · rw [collapseSpaces_other hc]
      rfl

theorem isWord_getLast?_collapseSpaces : ∀ (s : Str) (inSpace : Bool),
    (collapseSpaces inSpace s).getLast?.any env.isWord = s.getLast?.any env.isWord
  | [], _ => rfl
  | c :: s, inSpace => by
    by_cases hc : isSpace c = true
    · have hin := isWord_getLast?_collapseSpaces s true
      have hskip : ∀ {d : Char} (s : Str), isSpace d = true →
          (d :: s).getLast?.any env.isWord = s.getLast?.any env.isWord := fun {d} s hd =>
        @isWord_getLast?_append env [d] (by simpa using hblank d hd) s
      cases inSpace with
      | true => rw [collapseSpaces_in hc, hskip s hc, hin]
      | false => rw [collapseSpaces_out hc, hskip s hc, hskip _ rfl, hin]
    · have hout := isWord_getLast?_collapseSpaces s false
      rw [collapseSpaces_other hc, List.getLast?_cons, List.getLast?_cons]
      cases s with
      | nil => rfl
      | cons d s =>
        have hne : collapseSpaces false (d :: s) ≠ [] := by
          by_cases hd : isSpace d = true
          · simp [collapseSpaces_out hd]
          · simp [collapseSpaces_other hd]
        obtain ⟨e, he⟩ := Option.ne_none_iff_exists'.mp (mt List.getLast?_eq_none_iff.mp hne)
        rw [he] at hout ⊢
        rw [List.getLast?_cons] at hout ⊢
        exact hout

theorem not_both_blank {prev next : Option Char} (h : wordBoundary env prev next = true) :
    (prev.any isSpace && next.any isSpace) = false := by
  have hword : ∀ o : Option Char, o.any isSpace = true → o.any env.isWord = false := by
    intro o ho
    cases o with
    | none => rfl
    | some c => exact hblank c ho
  rw [Bool.and_eq_false_imp]
  intro hprev
  rw [Bool.eq_false_iff]
  intro hnext
  rw [wordBoundary, hword prev hprev, hword next hnext] at h
  cases h

/-- A boundary lies behind the blanks in front. -/
theorem trim_front {front s left right : Str} (hfront : ∀ c ∈ front, isSpace c = true)
    (h : front ++ s = left ++ right) (hb : wordBoundary env left.getLast? right.head? = true) :
    ∃ u, left = front ++ u ∧ s = u ++ right := by
  rcases List.append_eq_append_iff.mp h with ⟨u, hleft, hs⟩ | ⟨more, hmore, hright⟩
  · exact ⟨u, hleft, hs⟩
  · cases more with
    | nil => exact ⟨[], by simpa using hmore.symm, by simpa using hright.symm⟩
    | cons c more =>
      have hc : isSpace c = true := hfront c (by simp [hmore])
      have hlast := @isWord_getLast?_append env left
        (fun d hd => hblank d (hfront d (by simp [hmore, hd]))) []
      rw [List.append_nil] at hlast
      rw [wordBoundary, hlast, hright] at hb
      simp [hblank c hc] at hb

/-- A boundary lies in front of the blanks behind. -/
theorem trim_back {back s left right : Str} (hback : ∀ c ∈ back, isSpace c = true)
    (h : s ++ back = left ++ right) (hb : wordBoundary env left.getLast? right.head? = true) :
    ∃ v, right = v ++ back ∧ s = left ++ v := by
  have hreversed : back.reverse ++ s.reverse = right.reverse ++ left.reverse := by
    rw [← List.reverse_append, h, List.reverse_append]
  have hboundary : wordBoundary env right.reverse.getLast? left.reverse.head? = true := by
    rwa [List.getLast?_reverse, List.head?_reverse, wordBoundary, bne_comm]
  obtain ⟨u, hright, hs⟩ :=
    trim_front hblank (fun c hc => hback c (List.mem_reverse.mp hc)) hreversed hboundary
  refine ⟨u.reverse, ?_, ?_⟩
  · simpa using congrArg List.reverse hright
  · simpa using congrArg List.reverse hs

/-- A phrase in the normalized text is read in the text, blanks collapsed. -/
theorem read_iff {phrase : Str} (hne : phrase ≠ []) {s : Str} :
    (∃ u x v, strip (collapseSpaces false s) = u ++ x ++ v ∧ afterPhrase env phrase x = some [] ∧
      wordBoundary env u.getLast? x.head? = true ∧ wordBoundary env x.getLast? v.head? = true) ↔
    ∃ left here right, s = left ++ here ++ right ∧
      afterPhrase env phrase (collapseSpaces false here) = some [] ∧
      wordBoundary env left.getLast? here.head? = true ∧
      wordBoundary env here.getLast? right.head? = true := by
  obtain ⟨front, back, hstrip, hfront, hback⟩ := exists_strip (collapseSpaces false s)
  have hfront' : ∀ c ∈ front, env.isWord c = false := fun c hc => hblank c (hfront c hc)
  have hback' : ∀ c ∈ back, env.isWord c = false := fun c hc => hblank c (hback c hc)
  constructor
  · rintro ⟨u, x, v, h, hreads, hbefore, hafter⟩
    rw [h] at hstrip
    have hparts : collapseSpaces false s = (front ++ u) ++ (x ++ (v ++ back)) := by
      rw [hstrip]
      simp
    obtain ⟨left, rest, rfl, hleft, hrest⟩ := collapseSpaces_split hparts
    obtain ⟨here, right, rfl, rfl, hright⟩ := collapseSpaces_split hrest
    refine ⟨left, here, right, by simp, hreads, ?_, ?_⟩
    · rw [← hbefore]
      refine wordBoundary_congr ?_ (isWord_head?_collapseSpaces hblank here).symm
      rw [← isWord_getLast?_collapseSpaces hblank left false, hleft,
        isWord_getLast?_append hfront' u]
    · rw [← hafter]
      refine wordBoundary_congr (isWord_getLast?_collapseSpaces hblank here false).symm ?_
      rw [← isWord_head?_collapseSpaces hblank right, hright, isWord_head?_append hback' v]
  · rintro ⟨left, here, right, rfl, hreads, hbefore, hafter⟩
    have hx := ne_nil_of_afterPhrase hne hreads
    have hhere : here ≠ [] := by
      rintro rfl
      exact hx rfl
    have hjoin : collapseSpaces false (left ++ here ++ right) =
        collapseSpaces false left ++ (collapseSpaces false here ++ collapseSpaces false right) := by
      have hfirst := collapseSpaces_append left none (here ++ right)
        (by simpa [List.head?_append_of_ne_nil _ hhere] using not_both_blank hblank hbefore)
      have hsecond := collapseSpaces_append here none right
        (by simpa using not_both_blank hblank hafter)
      rw [List.append_assoc]
      exact hfirst.trans (congrArg _ hsecond)
    have hbefore' : wordBoundary env (collapseSpaces false left).getLast?
        (collapseSpaces false here).head? = true := by
      rw [← hbefore]
      exact wordBoundary_congr (isWord_getLast?_collapseSpaces hblank left false)
        (isWord_head?_collapseSpaces hblank here)
    have hafter' : wordBoundary env (collapseSpaces false here).getLast?
        (collapseSpaces false right).head? = true := by
      rw [← hafter]
      exact wordBoundary_congr (isWord_getLast?_collapseSpaces hblank here false)
        (isWord_head?_collapseSpaces hblank right)
    generalize collapseSpaces false left = before at hjoin hbefore'
    generalize collapseSpaces false here = x at hx hreads hjoin hbefore' hafter'
    generalize collapseSpaces false right = after at hjoin hafter'
    rw [hjoin, List.append_assoc] at hstrip
    obtain ⟨u, rfl, hrest⟩ := trim_front hblank hfront hstrip.symm
      (by rwa [List.head?_append_of_ne_nil _ hx])
    obtain ⟨v, rfl, hv⟩ := @trim_back env hblank back _ (u ++ x) after hback
      (by rw [hrest, List.append_assoc]) (by rwa [List.getLast?_append_of_ne_nil _ hx])
    refine ⟨u, x, v, by rw [hjoin]; exact hv, hreads, ?_, ?_⟩
    · rw [← hbefore']
      exact wordBoundary_congr (isWord_getLast?_append hfront' u).symm rfl
    · rw [← hafter']
      exact wordBoundary_congr rfl (isWord_head?_append hback' v).symm

end

end KnowledgeKiln.L2.PhraseMatch
