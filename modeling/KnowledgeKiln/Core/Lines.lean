import KnowledgeKiln.Core.Str

/-!
# The lines of a text

`contentLines` are the lines of a text that are not blank, without the blanks around them. They
forget how a text is laid out: where it is indented, how many blank lines it has, which line
breaks it uses.

* `contentLines_append`: a line break cuts them in two.
* `contentLines_strip`: the blanks around a text are not in them.
* `contentLines_join`: the lines of texts joined by line breaks are the lines of the texts.
* `contentLines_splitlines`: they come from the lines of the text one by one.
* `infix_of_join`: a text without the separator that lies in a joined text lies in a part of it.
-/
namespace KnowledgeKiln.Core

/-- What `strip` leaves of a line, if anything. -/
def lineContent (line : Str) : List Str := if strip line = [] then [] else [strip line]

/-- The stripped non-blank lines of a text, per `str.splitlines`. -/
def contentLines (s : Str) : List Str := ((splitlines s).map strip).filter (· ≠ [])

/-- The same, after `line` has been read of the first line, in reverse. -/
def contentLinesFrom (line s : Str) : List Str := ((splitlinesFrom line s).map strip).filter (· ≠ [])

/-! ## Blanks at the ends -/

theorem strip_cons_space {c : Char} (hc : isSpace c = true) (s : Str) : strip (c :: s) = strip s := by
  rw [strip, lstrip, List.dropWhile_cons_of_pos hc]
  rfl

theorem strip_concat_space {c : Char} (hc : isSpace c = true) (s : Str) :
    strip (s ++ [c]) = strip s := by
  by_cases hs : ∀ d ∈ s, isSpace d = true
  · have hall : ∀ d ∈ s ++ [c], isSpace d = true := by
      intro d hd
      rcases List.mem_append.mp hd with hd | hd
      · exact hs d hd
      · rw [List.mem_singleton.mp hd]
        exact hc
    rw [strip_eq_nil.mpr hs, strip_eq_nil.mpr hall]
  · have hne : s.dropWhile isSpace ≠ [] := fun h => hs (List.dropWhile_eq_nil_iff.mp h)
    rw [strip, lstrip, List.dropWhile_append, if_neg (by simpa using hne), rstrip,
      List.rdropWhile_concat_pos _ _ _ hc]
    rfl

/-! ## Reading a text -/

theorem contentLinesFrom_nil (line : Str) : contentLinesFrom line [] = lineContent line.reverse := by
  unfold contentLinesFrom splitlinesFrom lineContent
  by_cases hl : line = []
  · rw [hl]
    rfl
  · rw [if_neg hl]
    by_cases hs : strip line.reverse = [] <;> simp [hs]

theorem contentLinesFrom_cons (line : Str) (c : Char) (s : Str) :
    contentLinesFrom line (c :: s) =
      if isLineBreak c then lineContent line.reverse ++ contentLines s
      else contentLinesFrom (c :: line) s := by
  have hhead : ∀ rest : List Str, ((line.reverse :: rest).map strip).filter (· ≠ []) =
      lineContent line.reverse ++ (rest.map strip).filter (· ≠ []) := by
    intro rest
    unfold lineContent
    by_cases hs : strip line.reverse = [] <;> simp [hs]
  unfold contentLinesFrom
  rw [splitlinesFrom.eq_def]
  split
  · rename_i h
    cases h
  · rename_i s' h
    -- the two characters of one line break
    cases h
    have hr : isLineBreak '\r' = true := rfl
    rw [hhead, if_pos hr]
    rfl
  · rename_i h
    cases h
    split
    · exact hhead _
    · rfl

theorem contentLines_cons_break {c : Char} (hc : isLineBreak c = true) (s : Str) :
    contentLines (c :: s) = contentLines s := by
  change contentLinesFrom [] (c :: s) = _
  rw [contentLinesFrom_cons, if_pos hc]
  rfl

theorem contentLinesFrom_append {c : Char} (hc : isLineBreak c = true) (b : Str) :
    ∀ a line : Str, contentLinesFrom line (a ++ c :: b) = contentLinesFrom line a ++ contentLines b
  | [], line => by
    rw [List.nil_append, contentLinesFrom_cons, if_pos hc, contentLinesFrom_nil]
  | d :: a, line => by
    rw [List.cons_append, contentLinesFrom_cons, contentLinesFrom_cons]
    split
    · have ih : contentLines (a ++ c :: b) = contentLines a ++ contentLines b :=
        contentLinesFrom_append hc b a []
      rw [ih, List.append_assoc]
    · exact contentLinesFrom_append hc b a _

/-- **A line break cuts the lines in two.** -/
theorem contentLines_append {c : Char} (hc : isLineBreak c = true) (a b : Str) :
    contentLines (a ++ c :: b) = contentLines a ++ contentLines b :=
  contentLinesFrom_append hc b a []

/-! ## Stripping -/

theorem contentLinesFrom_indent {c : Char} (hc : isSpace c = true) :
    ∀ s line : Str, contentLinesFrom (line ++ [c]) s = contentLinesFrom line s
  | [], line => by
    have hstrip := strip_cons_space hc line.reverse
    rw [contentLinesFrom_nil, contentLinesFrom_nil, List.reverse_append]
    simp only [lineContent, List.reverse_singleton, List.singleton_append, hstrip]
  | d :: s, line => by
    have hstrip := strip_cons_space hc line.reverse
    rw [contentLinesFrom_cons, contentLinesFrom_cons, List.reverse_append]
    split
    · simp only [lineContent, List.reverse_singleton, List.singleton_append, hstrip]
    · exact contentLinesFrom_indent hc s (d :: line)

theorem contentLines_cons_space {c : Char} (hc : isSpace c = true) (s : Str) :
    contentLines (c :: s) = contentLines s := by
  change contentLinesFrom [] (c :: s) = contentLinesFrom [] s
  rw [contentLinesFrom_cons]
  split
  · rfl
  · exact contentLinesFrom_indent hc s []

theorem contentLinesFrom_concat_space {c : Char} (hc : isSpace c = true) :
    ∀ s line : Str, contentLinesFrom line (s ++ [c]) = contentLinesFrom line s
  | [], line => by
    rw [List.nil_append, contentLinesFrom_cons, contentLinesFrom_nil]
    split
    · rw [contentLinesFrom_nil]
      exact List.append_nil _
    · have hstrip := strip_concat_space hc line.reverse
      rw [contentLinesFrom_nil, List.reverse_cons]
      simp only [lineContent, hstrip]
  | d :: s, line => by
    rw [List.cons_append, contentLinesFrom_cons, contentLinesFrom_cons]
    split
    · have ih : contentLines (s ++ [c]) = contentLines s := contentLinesFrom_concat_space hc s []
      rw [ih]
    · exact contentLinesFrom_concat_space hc s _

theorem contentLines_lstrip : ∀ s : Str, contentLines (lstrip s) = contentLines s
  | [] => rfl
  | c :: s => by
    unfold lstrip
    by_cases hc : isSpace c = true
    · rw [List.dropWhile_cons_of_pos hc, contentLines_cons_space hc]
      exact contentLines_lstrip s
    · rw [List.dropWhile_cons_of_neg hc]

theorem contentLines_rstrip (s : Str) : contentLines (rstrip s) = contentLines s := by
  induction s using List.reverseRecOn with
  | nil => rfl
  | append_singleton s c ih =>
    unfold rstrip at ih ⊢
    by_cases hc : isSpace c = true
    · rw [List.rdropWhile_concat_pos _ _ _ hc, ih]
      exact (contentLinesFrom_concat_space hc s []).symm
    · rw [List.rdropWhile_concat_neg _ _ _ hc]

/-- **The blanks around a text are not in its lines.** -/
theorem contentLines_strip (s : Str) : contentLines (strip s) = contentLines s := by
  rw [strip, contentLines_rstrip, contentLines_lstrip]

/-! ## Joining -/

theorem contentLines_breaks {sep : Str} (hs : ∀ c ∈ sep, isLineBreak c = true) (b : Str) :
    contentLines (sep ++ b) = contentLines b := by
  induction sep with
  | nil => rfl
  | cons c sep ih =>
    obtain ⟨hc, hsep⟩ := List.forall_mem_cons.mp hs
    rw [List.cons_append, contentLines_cons_break hc, ih hsep]

/-- **Joining texts by line breaks joins their lines.** -/
theorem contentLines_join {sep : Str} (hn : sep ≠ []) (hs : ∀ c ∈ sep, isLineBreak c = true) :
    ∀ parts : List Str, contentLines (join sep parts) = parts.flatMap contentLines
  | [] => rfl
  | [p] => by simp [join, List.intercalate]
  | p :: q :: parts => by
    have hj := @join_cons sep p (q :: parts) (List.cons_ne_nil q parts)
    obtain ⟨c, rest, rfl⟩ := List.exists_cons_of_ne_nil hn
    obtain ⟨hc, hrest⟩ := List.forall_mem_cons.mp hs
    rw [hj, List.cons_append, contentLines_append hc, contentLines_breaks hrest,
      contentLines_join hn hs (q :: parts)]
    rfl

/-! ## Texts in joined texts -/

/-- A text that does not hold the separator lies before it or behind it. -/
theorem infix_append_cons {c : Char} {p a b : Str} (hc : c ∉ p) (h : p <:+: a ++ c :: b) :
    p <:+: a ∨ p <:+: b := by
  obtain ⟨s, t, h⟩ := h
  rw [List.append_assoc] at h
  rcases List.append_eq_append_iff.mp h with ⟨d, ha, hp⟩ | ⟨d, -, hb⟩
  · rcases List.append_eq_append_iff.mp hp with ⟨e, hd, -⟩ | ⟨e, hp, he⟩
    · exact .inl ⟨s, e, by rw [ha, hd, List.append_assoc]⟩
    · cases e with
      | nil => exact .inl ⟨s, [], by rw [ha, hp]; simp⟩
      | cons x e =>
        obtain ⟨rfl, -⟩ := List.cons.inj he
        exact absurd (by rw [hp]; simp) hc
  · cases d with
    | nil =>
      cases p with
      | nil => exact .inl (List.nil_infix)
      | cons x p =>
        obtain ⟨rfl, -⟩ := List.cons.inj hb
        exact absurd List.mem_cons_self hc
    | cons x d =>
      obtain ⟨-, hb⟩ := List.cons.inj hb
      exact .inr ⟨d, t, by rw [hb, List.append_assoc]; rfl⟩

theorem infix_of_join {c : Char} {p : Str} (hp : p ≠ []) (hc : c ∉ p) :
    ∀ {parts : List Str}, p <:+: join [c] parts → ∃ part ∈ parts, p <:+: part
  | [], h => absurd (List.infix_nil.mp h) hp
  | [q], h => ⟨q, List.mem_singleton_self q, by simpa [join, List.intercalate] using h⟩
  | q :: r :: parts, h => by
    rw [join_cons (List.cons_ne_nil r parts)] at h
    rcases infix_append_cons hc h with h | h
    · exact ⟨q, List.mem_cons_self, h⟩
    · obtain ⟨part, hm, h⟩ := infix_of_join hp hc h
      exact ⟨part, List.mem_cons_of_mem _ hm, h⟩

/-! ## Line by line -/

theorem splitlinesFrom_breaks : ∀ (s line : Str), (∀ c ∈ line, isLineBreak c = false) →
    ∀ l ∈ splitlinesFrom line s, ∀ c ∈ l, isLineBreak c = false
  | [], line, hline, l, hl => by
    unfold splitlinesFrom at hl
    split at hl
    · cases hl
    · rw [List.mem_singleton.mp hl]
      simpa using hline
  | d :: s, line, hline, l, hl => by
    rw [splitlinesFrom.eq_def] at hl
    split at hl
    · rename_i h
      cases h
    · rename_i s' h
      cases h
      rcases List.mem_cons.mp hl with rfl | hl
      · simpa using hline
      · exact splitlinesFrom_breaks s' [] (by simp) l hl
    · rename_i h
      cases h
      split at hl
      · rcases List.mem_cons.mp hl with rfl | hl
        · simpa using hline
        · exact splitlinesFrom_breaks s [] (by simp) l hl
      · rename_i hd
        refine splitlinesFrom_breaks s (d :: line) ?_ l hl
        exact List.forall_mem_cons.mpr ⟨by simpa using hd, hline⟩

theorem contentLinesFrom_line : ∀ (s line : Str), (∀ c ∈ s, isLineBreak c = false) →
    contentLinesFrom line s = lineContent (line.reverse ++ s)
  | [], line, _ => by rw [contentLinesFrom_nil, List.append_nil]
  | c :: s, line, h => by
    obtain ⟨hc, hs⟩ := List.forall_mem_cons.mp h
    rw [contentLinesFrom_cons, hc, if_neg Bool.false_ne_true, contentLinesFrom_line s _ hs,
      List.reverse_cons, List.append_assoc]
    rfl

theorem contentLines_line {s : Str} (h : ∀ c ∈ s, isLineBreak c = false) :
    contentLines s = lineContent s := contentLinesFrom_line s [] h

theorem contentLines_splitlines (s : Str) :
    (splitlines s).flatMap contentLines = contentLines s := by
  have hlines : ∀ l ∈ splitlines s, contentLines l = lineContent l := by
    intro l hl
    exact contentLines_line (splitlinesFrom_breaks s [] (by simp) l hl)
  rw [List.flatMap_congr hlines, contentLines]
  induction splitlines s with
  | nil => rfl
  | cons l lines ih =>
    rw [List.flatMap_cons, ih, lineContent]
    by_cases hl : strip l = [] <;> simp [hl]

end KnowledgeKiln.Core
