import KnowledgeKiln.L1Ingest.FileProcessing

/-!
# The frontmatter cap (ingestion/chunking.py)

`frontmatter.loads` strips the text and splits it at the first two lines that match `^-{3,}\s*$`;
the block between them goes to the YAML parser. `_check_frontmatter_size` comes before it and looks
for the block on its own: behind three dashes and the line ends after them, up to the next line
that starts with three dashes.

* `frontmatterBlock_eq`: what it measures, in terms of the block.
* `frontmatterBlock_iff`: what it measures of any text.
* `frontmatter_capped_iff`: it refuses exactly the texts with a block over the cap, as long as what
  it measures too much and too little does not take the block across the cap, and a text without a
  block has nothing over the cap that it takes for one.
* `plain_capHolds_iff`: on a plain block that is a matter of two bytes.
* `unclosed_refused_iff`: a text whose closing line goes on behind the dashes has no block, and is
  measured all the same.
-/
namespace KnowledgeKiln.L1.Chunking

open KnowledgeKiln.Core

/-! ## The split of the frontmatter parser -/

/-- The text before its last line end, and behind it. -/
def splitLastLine : Str → Option (Str × Str)
  | [] => none
  | c :: s =>
    match splitLastLine s with
    | some (before, behind) => some (c :: before, behind)
    | none => if c = '\n' then some ([], s) else none

/-- `^-{3,}\s*$` where a line starts: what it matches, and the text behind it. The blanks run over
line ends; where the text goes on behind them, the match goes back to the last of these. -/
def boundary (s : Str) : Option (Str × Str) :=
  let dashes := s.takeWhile (· == '-')
  let after := s.dropWhile (· == '-')
  if dashes.length < 3 then none
  else if after.dropWhile isSpace = [] then some (s, [])
  else (splitLastLine (after.takeWhile isSpace)).map fun (before, behind) =>
    (dashes ++ before, '\n' :: (behind ++ after.dropWhile isSpace))

/-- The text before the next boundary, and from there on. -/
def splitBoundary (lineStart : Bool) : Str → Option (Str × Str)
  | [] => none
  | c :: s =>
    if lineStart && (boundary (c :: s)).isSome then some ([], c :: s)
    else (splitBoundary (c == '\n') s).map fun (block, rest) => (c :: block, rest)

/-- The opening line, the block for the YAML parser, and the text from the closing line on. -/
def yamlBlock (sourceText : Str) : Option (Str × Str × Str) :=
  match boundary (strip sourceText) with
  | none => none
  | some (opening, behind) =>
    (splitBoundary false behind).map fun (block, rest) => (opening, block, rest)

/-- The block alone; a text may have none. -/
def blockOf (sourceText : Str) : Option Str := (yamlBlock sourceText).map fun parts => parts.2.1

theorem splitLastLine_none : ∀ {s : Str}, splitLastLine s = none → '\n' ∉ s
  | [], _ => by simp
  | c :: s, h => by
    unfold splitLastLine at h
    split at h
    · cases h
    · rename_i hs
      split at h
      · cases h
      · rename_i hc
        exact List.not_mem_cons_of_ne_of_not_mem (fun e => hc e.symm) (splitLastLine_none hs)

theorem splitLastLine_some : ∀ {s before behind : Str}, splitLastLine s = some (before, behind) →
    s = before ++ '\n' :: behind ∧ '\n' ∉ behind
  | [], _, _, h => by cases h
  | c :: s, before, behind, h => by
    unfold splitLastLine at h
    split at h
    · rename_i hs
      cases h
      exact ⟨congrArg (c :: ·) (splitLastLine_some hs).1, (splitLastLine_some hs).2⟩
    · rename_i hs
      split at h
      · rename_i hc
        cases h
        exact ⟨congrArg (· :: s) hc, splitLastLine_none hs⟩
      · cases h

theorem dashes_start {s : Str} (h : ¬ (s.takeWhile (· == '-')).length < 3) :
    ("---" : Str) <+: s.takeWhile (· == '-') := by
  have hall : ∀ c ∈ s.takeWhile (· == '-'), c = '-' := fun c hc =>
    beq_iff_eq.mp (List.mem_takeWhile_imp (p := (· == '-')) hc)
  obtain ⟨n, hn⟩ := Nat.exists_eq_add_of_le (Nat.not_lt.mp h)
  rw [List.eq_replicate_of_mem hall, hn, List.replicate_add]
  exact List.prefix_append _ _

/-- A boundary starts with three dashes. It ends with the text, or before a line end, behind which
the text goes on. -/
theorem boundary_some {s opening behind : Str} (h : boundary s = some (opening, behind)) :
    s = opening ++ behind ∧ ("---" : Str) <+: opening ∧
      (behind = [] ∨ ∃ blanks c rest, behind = '\n' :: (blanks ++ c :: rest) ∧ '\n' ∉ blanks ∧
        isSpace c = false) := by
  unfold boundary at h
  dsimp only at h
  split at h
  · cases h
  rename_i hthree
  have hs := List.takeWhile_append_dropWhile (p := (· == '-')) (l := s)
  split at h
  · cases h
    exact ⟨(List.append_nil _).symm,
      (dashes_start hthree).trans (List.takeWhile_prefix _), .inl rfl⟩
  · rename_i hrest
    obtain ⟨⟨before, behind'⟩, hlast, h⟩ := Option.map_eq_some_iff.mp h
    cases h
    obtain ⟨hblanks, hn⟩ := splitLastLine_some hlast
    have hafter := List.takeWhile_append_dropWhile (p := isSpace) (l := s.dropWhile (· == '-'))
    obtain ⟨c, rest, hc⟩ := List.exists_cons_of_ne_nil hrest
    refine ⟨?_, (dashes_start hthree).trans (List.prefix_append _ _),
      .inr ⟨behind', c, rest, by rw [hc], hn, ?_⟩⟩
    · rw [hblanks] at hafter
      conv_lhs => rw [← hs, ← hafter]
      simp
    · have hhead := List.head_dropWhile_not isSpace (l := s.dropWhile (· == '-')) hrest
      simpa [hc] using hhead

theorem splitBoundary_some : ∀ {s block rest : Str} {lineStart : Bool},
    splitBoundary lineStart s = some (block, rest) →
      s = block ++ rest ∧ ("---" : Str) <+: rest ∧
        (lineStart = true ∧ block = [] ∨ ∃ body, block = body ++ ['\n'])
  | [], _, _, _, h => by cases h
  | c :: s, block, rest, lineStart, h => by
    unfold splitBoundary at h
    split at h
    · rename_i hb
      cases h
      obtain ⟨hstart, hb⟩ := Bool.and_eq_true_iff.mp hb
      obtain ⟨⟨opening, behind⟩, hb⟩ := Option.isSome_iff_exists.mp hb
      obtain ⟨hs, hdashes, -⟩ := boundary_some hb
      exact ⟨rfl, hs ▸ hdashes.trans (List.prefix_append _ _), .inl ⟨hstart, rfl⟩⟩
    · obtain ⟨⟨block, rest⟩, hsplit, h⟩ := Option.map_eq_some_iff.mp h
      cases h
      obtain ⟨hs, hdashes, hlast⟩ := splitBoundary_some hsplit
      refine ⟨congrArg (c :: ·) hs, hdashes, .inr ?_⟩
      rcases hlast with ⟨hc, rfl⟩ | ⟨body, rfl⟩
      · exact ⟨[], by rw [beq_iff_eq.mp hc]; rfl⟩
      · exact ⟨c :: body, rfl⟩

/-- The block and the lines around it are the stripped text, and the block ends with a line end. -/
theorem yamlBlock_some {sourceText opening block rest : Str}
    (h : yamlBlock sourceText = some (opening, block, rest)) :
    strip sourceText = opening ++ block ++ rest ∧ ("---" : Str) <+: opening ∧
      ("---" : Str) <+: rest ∧ (∃ body, block = body ++ ['\n']) ∧
      ((∀ c ∈ block, isSpace c = true) → block = ['\n']) := by
  unfold yamlBlock at h
  split at h
  · cases h
  rename_i behind hb
  obtain ⟨⟨block, rest⟩, hsplit, h⟩ := Option.map_eq_some_iff.mp h
  cases h
  obtain ⟨hs, hopening, hbehind⟩ := boundary_some hb
  obtain ⟨hblock, hrest, hlast⟩ := splitBoundary_some hsplit
  obtain ⟨body, hbody⟩ := hlast.resolve_left (by simp)
  refine ⟨by rw [hs, hblock, List.append_assoc], hopening, hrest, ⟨body, hbody⟩, fun hspace => ?_⟩
  rcases hbehind with rfl | ⟨blanks, c, more, hmore, hn, hc⟩
  · simp [hbody] at hblock
  -- a block of blanks ends before the first character behind them
  rw [hblock, hbody, List.append_assoc] at hmore
  cases body with
  | nil => exact hbody
  | cons d body =>
    have hc' : ∀ s : Str, c :: more ≠ '\n' :: s := by
      intro s he
      rw [(List.cons.inj he).1] at hc
      cases hc
    obtain ⟨-, hmore⟩ := List.cons.inj hmore
    rcases List.append_eq_append_iff.mp hmore with ⟨as, hblanks, hrest'⟩ | ⟨as, hbody', hrest'⟩
    · cases as with
      | nil => exact absurd hrest'.symm (hc' _)
      | cons e as =>
        obtain ⟨rfl, -⟩ := List.cons.inj hrest'
        exact absurd (hblanks ▸ List.mem_append_right _ List.mem_cons_self) hn
    · cases as with
      | nil => exact absurd hrest' (hc' _)
      | cons e as =>
        obtain ⟨rfl, -⟩ := List.cons.inj hrest'
        have hmem : c ∈ block := by simp [hbody, hbody']
        rw [hspace c hmem] at hc
        cases hc

/-! ## The block that the size check measures -/

/-- The text before the first occurrence of the needle. -/
def upTo (needle : Str) : Str → Option Str
  | [] => if needle = [] then some [] else none
  | c :: s => if needle.isPrefixOf (c :: s) then some [] else (upTo needle s).map (c :: ·)

theorem find_cons (needle : Str) (c : Char) (s : Str) : find needle (c :: s) =
    if needle.isPrefixOf (c :: s) then some 0 else (find needle s).map (· + 1) := by
  rw [find, List.length_cons, List.range_succ_eq_map, List.find?_cons, List.find?_map]
  rw [List.drop_zero]
  cases needle.isPrefixOf (c :: s) <;> rfl

theorem find_take (needle : Str) : ∀ s : Str, (find needle s).map s.take = upTo needle s
  | [] => by cases needle <;> rfl
  | c :: s => by
    rw [find_cons, upTo, ← find_take needle s]
    split
    · rfl
    · rw [Option.map_map, Option.map_map]
      rfl

theorem upTo_eq_none {needle : Str} {last : Char} :
    ∀ {s : Str}, last ∉ s → upTo (needle ++ [last]) s = none
  | [], _ => if_neg (by simp)
  | c :: s, h => by
    have hn : ¬ (needle ++ [last]).isPrefixOf (c :: s) = true := by
      intro hp
      have hsubset := (List.isPrefixOf_iff_prefix.mp hp).subset
      exact h (hsubset (List.mem_append_right _ (List.mem_singleton_self _)))
    rw [upTo, if_neg hn, upTo_eq_none fun hm => h (List.mem_cons_of_mem _ hm)]
    rfl

/-- A text behind the last place of the needle's last character does not matter. -/
theorem upTo_append {needle : Str} {last : Char} {t : Str} (ht : last ∉ t) :
    ∀ s : Str, upTo (needle ++ [last]) (s ++ t) = upTo (needle ++ [last]) s
  | [] => by
    rw [List.nil_append, upTo_eq_none ht]
    exact (if_neg (by simp)).symm
  | c :: s => by
    have hiff : (needle ++ [last]).isPrefixOf (c :: s ++ t) =
        (needle ++ [last]).isPrefixOf (c :: s) := by
      rw [Bool.eq_iff_iff, List.isPrefixOf_iff_prefix, List.isPrefixOf_iff_prefix]
      refine ⟨?_, fun h => h.trans (List.prefix_append _ _)⟩
      rintro ⟨more, hmore⟩
      rcases List.append_eq_append_iff.mp hmore with ⟨as, hs, -⟩ | ⟨as, hneedle, hmore⟩
      · exact ⟨as, hs.symm⟩
      · rcases List.eq_nil_or_concat as with rfl | ⟨as, d, rfl⟩
        · rw [hneedle, List.append_nil]
        · rw [List.concat_eq_append, ← List.append_assoc] at hneedle
          obtain ⟨-, hd⟩ := List.append_inj' hneedle rfl
          rw [hmore, (List.cons.inj hd).1] at ht
          simp at ht
    have hcons : c :: s ++ t = c :: (s ++ t) := rfl
    rw [hcons] at hiff ⊢
    rw [upTo, upTo, hiff, upTo_append ht s]

def isLineEnd (c : Char) : Bool := c == '\r' || c == '\n'

/-- The text before the first line but the first that starts with three dashes, or before the line
end that ends the text; and what is left. -/
def cutAtDashes : Str → Str × Str
  | [] => ([], [])
  | c :: s =>
    if c = '\n' ∧ (s = [] ∨ ("---" : Str) <+: s) then ([], c :: s)
    else (c :: (cutAtDashes s).1, (cutAtDashes s).2)

theorem cutAtDashes_append : ∀ s : Str, (cutAtDashes s).1 ++ (cutAtDashes s).2 = s
  | [] => rfl
  | c :: s => by
    unfold cutAtDashes
    split
    · rfl
    · exact congrArg (c :: ·) (cutAtDashes_append s)

theorem prefix_before_line_end {p body rest : Str} (hp : '\n' ∉ p) :
    p <+: body ++ '\n' :: rest ↔ p <+: body := by
  refine ⟨?_, fun h => h.trans (List.prefix_append _ _)⟩
  rintro ⟨more, hmore⟩
  rcases List.append_eq_append_iff.mp hmore with ⟨as, hbody, -⟩ | ⟨as, rfl, hrest⟩
  · exact ⟨as, hbody.symm⟩
  · cases as with
    | nil => rw [List.append_nil]
    | cons c as =>
      obtain ⟨rfl, -⟩ := List.cons.inj hrest
      simp at hp

/-- In front of a closing line, that is where the size check ends the block. -/
theorem upTo_dashes {rest : Str} (hrest : ("---" : Str) <+: rest) : ∀ body : Str,
    upTo "\n---" (body ++ '\n' :: rest) = some (cutAtDashes (body ++ ['\n'])).1
  | [] => by
    have hp : ("\n---" : Str).isPrefixOf ('\n' :: rest) = true :=
      List.isPrefixOf_iff_prefix.mpr (List.cons_prefix_cons.mpr ⟨rfl, hrest⟩)
    rw [List.nil_append, upTo, if_pos hp]
    rfl
  | c :: body => by
    have hiff : ("\n---" : Str).isPrefixOf (c :: (body ++ '\n' :: rest)) = true ↔
        c = '\n' ∧ (body ++ ['\n'] = [] ∨ ("---" : Str) <+: body ++ ['\n']) := by
      have hn : '\n' ∉ ("---" : Str) := by decide
      have hcons : ("\n---" : Str) = '\n' :: ("---" : Str) := rfl
      rw [List.isPrefixOf_iff_prefix, hcons, List.cons_prefix_cons, prefix_before_line_end hn,
        prefix_before_line_end hn, eq_comm]
      simp
    rw [List.cons_append, List.cons_append, upTo, cutAtDashes, upTo_dashes hrest body]
    by_cases h : c = '\n' ∧ (body ++ ['\n'] = [] ∨ ("---" : Str) <+: body ++ ['\n'])
    · rw [if_pos (hiff.mpr h), if_pos h]
    · rw [if_neg (hiff.not.mpr h), if_neg h]
      rfl

/-! ## What it measures of a text -/

/-- `seen` starts behind three dashes and line ends, and ends before the next line that starts with
three dashes. -/
def Fenced (sourceText seen : Str) : Prop :=
  ∃ ends rest, lstrip sourceText = "---" ++ (ends ++ (seen ++ '\n' :: ("---" ++ rest))) ∧
    (∀ c ∈ ends, isLineEnd c = true) ∧ (∃ c ∈ seen.head?, isLineEnd c = false) ∧
    ¬ ("\n---" : Str) <:+: seen

theorem dashes_not_line_end : '\n' ∉ ("---" : Str) := by decide

/-- The first line end with three dashes behind it. -/
theorem upTo_dashes_iff : ∀ {s seen : Str}, upTo "\n---" s = some seen ↔
    (∃ rest, s = seen ++ '\n' :: ("---" ++ rest)) ∧ ¬ ("\n---" : Str) <:+: seen
  | [], seen => by simp [upTo]
  | c :: s, seen => by
    have hcons : ("\n---" : Str) = '\n' :: ("---" : Str) := rfl
    rw [upTo]
    by_cases hp : ("\n---" : Str) <+: c :: s
    · rw [if_pos (List.isPrefixOf_iff_prefix.mpr hp)]
      constructor
      · rintro ⟨⟩
        obtain ⟨rest, hrest⟩ := hp
        exact ⟨⟨rest, hrest.symm⟩, by simp [hcons]⟩
      · rintro ⟨⟨rest, hrest⟩, hfirst⟩
        cases seen with
        | nil => rfl
        | cons d seen =>
          -- it would lie in front of the line end, for the dashes hold none
          rw [hrest, hcons, List.cons_append, List.cons_prefix_cons,
            prefix_before_line_end dashes_not_line_end] at hp
          refine absurd (List.IsPrefix.isInfix ?_) hfirst
          rw [hcons]
          exact List.cons_prefix_cons.mpr hp
    · rw [if_neg (fun h => hp (List.isPrefixOf_iff_prefix.mp h)), Option.map_eq_some_iff]
      constructor
      · rintro ⟨seen, hseen, rfl⟩
        obtain ⟨⟨rest, hrest⟩, hfirst⟩ := upTo_dashes_iff.mp hseen
        refine ⟨⟨rest, congrArg (c :: ·) hrest⟩, fun h => ?_⟩
        rcases List.infix_cons_iff.mp h with h | h
        · refine hp (h.trans ?_)
          rw [hrest]
          exact List.prefix_append (c :: seen) _
        · exact hfirst h
      · rintro ⟨⟨rest, hrest⟩, hfirst⟩
        cases seen with
        | nil => exact absurd ⟨rest, hrest.symm⟩ hp
        | cons d seen =>
          obtain ⟨rfl, hs⟩ : c = d ∧ s = seen ++ '\n' :: ("---" ++ rest) := List.cons.inj hrest
          refine ⟨seen, upTo_dashes_iff.mpr ⟨⟨rest, hs⟩, fun h => hfirst ?_⟩, rfl⟩
          exact h.trans (List.suffix_cons c seen).isInfix

/-- What the size check measures stands between two lines that start with three dashes. -/
theorem frontmatterBlock_iff {sourceText seen : Str} :
    frontmatterBlock sourceText = some seen ↔ Fenced sourceText seen := by
  have hlineEnd : (fun c => c == '\r' || c == '\n') = isLineEnd := rfl
  unfold frontmatterBlock Fenced
  dsimp only
  rw [find_take, hlineEnd]
  constructor
  · intro h
    split at h
    · cases h
    rename_i hstart
    obtain ⟨after, hafter⟩ : ("---" : Str) <+: lstrip sourceText := by
      simpa [startsWith, List.isPrefixOf_iff_prefix] using hstart
    have hdrop : (lstrip sourceText).drop 3 = after := by
      rw [← hafter]
      rfl
    rw [hdrop] at h
    obtain ⟨⟨rest, hrest⟩, hfirst⟩ := upTo_dashes_iff.mp h
    have hsplit := List.takeWhile_append_dropWhile (p := isLineEnd) (l := after)
    refine ⟨after.takeWhile isLineEnd, rest, by rw [← hrest, hsplit, hafter], fun c hc =>
      List.mem_takeWhile_imp hc, ?_, hfirst⟩
    have hne : after.dropWhile isLineEnd ≠ [] := by
      rw [hrest]
      simp
    have hhead := List.head_dropWhile_not isLineEnd (l := after) hne
    cases seen with
    | nil => simp [hrest, isLineEnd] at hhead
    | cons c seen => exact ⟨c, rfl, by simpa [hrest] using hhead⟩
  · rintro ⟨ends, rest, htext, hends, ⟨c, hc, hline⟩, hfirst⟩
    obtain ⟨seen, rfl⟩ : ∃ more, seen = c :: more := by
      cases seen with
      | nil => cases hc
      | cons d seen => exact ⟨seen, by rw [Option.mem_some.mp hc]⟩
    have hstart : startsWith (lstrip sourceText) "---" = true := by
      rw [htext]
      exact List.isPrefixOf_iff_prefix.mpr (List.prefix_append _ _)
    have hdrop : (lstrip sourceText).drop 3 = ends ++ (c :: seen ++ '\n' :: ("---" ++ rest)) := by
      rw [htext]
      rfl
    rw [hstart, if_neg Bool.noConfusion, hdrop, List.dropWhile_append_of_pos hends, List.cons_append,
      List.dropWhile_cons_of_neg (by simp [hline])]
    exact upTo_dashes_iff.mpr ⟨⟨rest, rfl⟩, hfirst⟩

/-! ## What it measures of a block -/

/-- What stands on the opening line behind three dashes, and the block. -/
def behindDashes (opening block : Str) : Str := opening.drop 3 ++ block

/-- The text that the size check measures. -/
def measured (opening block rest : Str) : Option Str :=
  let text := (behindDashes opening block).dropWhile isLineEnd
  if text = [] then upTo "\n---" rest else some (cutAtDashes text).1

theorem exists_lstrip (s : Str) : ∃ t, lstrip s = strip s ++ t ∧ ∀ c ∈ t, isSpace c = true := by
  refine ⟨((lstrip s).reverse.takeWhile isSpace).reverse, ?_, fun c hc => ?_⟩
  · rw [strip, rstrip, List.rdropWhile, ← List.reverse_append, List.takeWhile_append_dropWhile,
      List.reverse_reverse]
  · exact List.mem_takeWhile_imp (List.mem_reverse.mp hc)

theorem isSpace_of_isLineEnd {c : Char} (h : isLineEnd c = true) : isSpace c = true := by
  rcases Bool.or_eq_true_iff.mp h with h | h <;> rw [beq_iff_eq.mp h] <;> rfl

theorem frontmatterBlock_eq {sourceText opening block rest : Str}
    (h : yamlBlock sourceText = some (opening, block, rest)) :
    frontmatterBlock sourceText = measured opening block rest := by
  obtain ⟨hstrip, ⟨dashes, hopening⟩, hrest, ⟨body, hbody⟩, -⟩ := yamlBlock_some h
  obtain ⟨t, ht, hspace⟩ := exists_lstrip sourceText
  have hdrop : opening.drop 3 = dashes := by rw [← hopening]; rfl
  have htext : lstrip sourceText = "---" ++ (behindDashes opening block ++ (rest ++ t)) := by
    rw [ht, hstrip, behindDashes, hdrop, ← hopening]
    simp
  have hstart : startsWith (lstrip sourceText) "---" = true := by
    rw [htext]
    exact List.isPrefixOf_iff_prefix.mpr (List.prefix_append _ _)
  have hafter : (lstrip sourceText).drop 3 = behindDashes opening block ++ (rest ++ t) := by
    rw [htext]
    rfl
  obtain ⟨tail, hdash⟩ := id hrest
  unfold frontmatterBlock measured
  dsimp only
  have hlineEnd : (fun c => c == '\r' || c == '\n') = isLineEnd := rfl
  rw [if_neg (by rw [hstart]; simp), find_take, hafter, hlineEnd, List.dropWhile_append]
  by_cases hempty : (behindDashes opening block).dropWhile isLineEnd = []
  · have hclosing : (rest ++ t).dropWhile isLineEnd = rest ++ t := by
      rw [← hdash]
      rfl
    have hneedle : ("\n---" : Str) = "\n--" ++ ['-'] := rfl
    rw [if_pos hempty, if_pos (List.isEmpty_iff.mpr hempty), hclosing, hneedle]
    refine upTo_append (fun hm => ?_) rest
    have hdash := hspace _ hm
    cases hdash
  · rw [if_neg hempty, if_neg (by simpa using hempty)]
    -- the line end at the end of the block is still there
    have hsuffix := List.dropWhile_suffix (l := behindDashes opening block) isLineEnd
    have hlast : behindDashes opening block = (opening.drop 3 ++ body) ++ ['\n'] := by
      rw [behindDashes, hbody, List.append_assoc]
    conv_rhs at hsuffix => rw [hlast]
    obtain ⟨text, htext, -⟩ := (List.suffix_concat_iff.mp hsuffix).resolve_left hempty
    rw [htext, List.append_assoc, List.singleton_append]
    exact upTo_dashes (hrest.trans (List.prefix_append _ _)) text

/-! ## The cap -/

theorem utf8Length_append (s t : Str) : utf8Length (s ++ t) = utf8Length s + utf8Length t := by
  simp [utf8Length]

/-- The part of opening line and block that the size check counts is over the cap exactly when the
block is. It counts what stands on the opening line behind three dashes, but neither the line ends
in front nor the part from the first line on that starts with three dashes. -/
def BlockCapHolds (opening block rest : Str) : Prop :=
  let text := behindDashes opening block
  let skipped := utf8Length (text.takeWhile isLineEnd)
  let hidden := utf8Length (cutAtDashes (text.dropWhile isLineEnd)).2
  if text.dropWhile isLineEnd = [] then
    -- an empty block: the text up to the next such line is counted
    ∀ seen, upTo "\n---" rest = some seen → utf8Length seen ≤ maxFrontmatterBytes
  else (maxFrontmatterBytes + skipped + hidden < utf8Length (opening.drop 3) + utf8Length block ↔
    maxFrontmatterBytes < utf8Length block)

/-- The condition of its block, and without a block: at most the cap's bytes stand between a first
line and a later one that both start with three dashes. -/
def CapHolds (sourceText : Str) : Prop :=
  match yamlBlock sourceText with
  | some (opening, block, rest) => BlockCapHolds opening block rest
  | none => ∀ seen, Fenced sourceText seen → utf8Length seen ≤ maxFrontmatterBytes

/-- The size check refuses the text. -/
def Refused (sourceText : Str) : Prop :=
  ∃ seen, frontmatterBlock sourceText = some seen ∧ maxFrontmatterBytes < utf8Length seen

theorem blockCapHolds_iff {sourceText opening block rest : Str}
    (h : yamlBlock sourceText = some (opening, block, rest)) :
    BlockCapHolds opening block rest ↔
      (Refused sourceText ↔ maxFrontmatterBytes < utf8Length block) := by
  unfold BlockCapHolds Refused
  rw [frontmatterBlock_eq h, measured]
  dsimp only
  obtain ⟨-, -, -, -, hblank⟩ := yamlBlock_some h
  have hsplit := List.takeWhile_append_dropWhile (p := isLineEnd) (l := behindDashes opening block)
  split
  · rename_i hempty
    have hblock : block = ['\n'] := by
      refine hblank fun c hc => isSpace_of_isLineEnd ?_
      exact List.dropWhile_eq_nil_iff.mp hempty c (List.mem_append_right _ hc)
    have hcap : ¬ maxFrontmatterBytes < utf8Length block := by
      rw [hblock]
      decide
    simp [hcap]
  · have hsum : utf8Length ((behindDashes opening block).takeWhile isLineEnd) +
        (utf8Length (cutAtDashes ((behindDashes opening block).dropWhile isLineEnd)).1 +
          utf8Length (cutAtDashes ((behindDashes opening block).dropWhile isLineEnd)).2) =
        utf8Length (opening.drop 3) + utf8Length block := by
      rw [← utf8Length_append, cutAtDashes_append, ← utf8Length_append, hsplit, behindDashes,
        utf8Length_append]
    simp only [Option.some.injEq, exists_eq_left']
    rw [← hsum]
    have hiff : ∀ a b c n : Nat, n + a + c < a + (b + c) ↔ n < b := by omega
    rw [hiff]

/-- A plain block: nothing behind the dashes of the opening line, no empty line in front, and no
other line that starts with three dashes. Its two outer line ends are not counted. -/
theorem plain_capHolds_iff {c : Char} {body rest : Str} (hc : isLineEnd c = false)
    (hcut : (cutAtDashes (c :: body ++ ['\n'])).1 = c :: body) :
    BlockCapHolds "---" ('\n' :: (c :: body ++ ['\n'])) rest ↔
      utf8Length ('\n' :: (c :: body ++ ['\n'])) ≤ maxFrontmatterBytes ∨
        maxFrontmatterBytes + 2 < utf8Length ('\n' :: (c :: body ++ ['\n'])) := by
  have htext : behindDashes "---" ('\n' :: (c :: body ++ ['\n'])) =
      '\n' :: (c :: body ++ ['\n']) := rfl
  have hdrop : ('\n' :: (c :: body ++ ['\n'])).dropWhile isLineEnd = c :: body ++ ['\n'] := by
    rw [List.dropWhile_cons_of_pos rfl, List.cons_append, List.dropWhile_cons_of_neg (by simp [hc])]
  have hskip : ('\n' :: (c :: body ++ ['\n'])).takeWhile isLineEnd = ['\n'] := by
    rw [List.takeWhile_cons_of_pos rfl, List.cons_append, List.takeWhile_cons_of_neg (by simp [hc])]
  have hhidden : (cutAtDashes (c :: body ++ ['\n'])).2 = ['\n'] := by
    have happend := cutAtDashes_append (c :: body ++ ['\n'])
    rw [hcut] at happend
    exact List.append_cancel_left happend
  have hone : utf8Length ['\n'] = 1 := by decide
  have hzero : utf8Length (("---" : Str).drop 3) = 0 := rfl
  unfold BlockCapHolds
  dsimp only
  rw [htext, hdrop, hskip, hhidden, if_neg (by simp), hone, hzero]
  omega

/-! ## Documents -/

/-- `FrontmatterTooLargeError` is the ingester's own: no third party raises it. -/
structure Foreign (w : Worker) : Prop where
  frontmatter : ∀ text exc, w.frontmatter text ≠ .error (.frontmatterTooLarge exc)
  countTokens : ∀ text exc, w.countTokens text ≠ .error (.frontmatterTooLarge exc)

/-- A text is refused when it has a block over the cap, before the frontmatter parser is called, and
only then. -/
structure FrontmatterCapped (sourceText : Str) : Prop where
  refuses : ∀ block ∈ blockOf sourceText, maxFrontmatterBytes < utf8Length block →
    ∃ exc, ∀ w maxTokens, parseDocument w sourceText maxTokens = .error (.frontmatterTooLarge exc)
  accepts : (∀ block ∈ blockOf sourceText, utf8Length block ≤ maxFrontmatterBytes) →
    ∀ w maxTokens exc, Foreign w →
      parseDocument w sourceText maxTokens ≠ .error (.frontmatterTooLarge exc)

/-- The texts to refuse. -/
def Oversized (sourceText : Str) : Prop :=
  ∃ block ∈ blockOf sourceText, maxFrontmatterBytes < utf8Length block

theorem capHolds_iff (sourceText : Str) :
    CapHolds sourceText ↔ (Refused sourceText ↔ Oversized sourceText) := by
  unfold CapHolds Oversized blockOf
  cases h : yamlBlock sourceText with
  | none =>
    have hnone : ¬ Refused sourceText ↔
        ∀ seen, Fenced sourceText seen → utf8Length seen ≤ maxFrontmatterBytes := by
      simp only [Refused, frontmatterBlock_iff, not_exists, not_and, Nat.not_lt]
    simpa using hnone.symm
  | some parts =>
    obtain ⟨opening, block, rest⟩ := parts
    simpa using blockCapHolds_iff h

section
variable {w : Worker} {maxTokens : Nat}

theorem packBlocks_error {countTokens : Str → Py Nat} {e : PyExc} : ∀ {blocks buf : List Block}
    {bufTokens : Nat}, packBlocks countTokens maxTokens buf bufTokens blocks = .error e →
    ∃ text, countTokens text = .error e
  | [], _, _, h => by cases h
  | block :: blocks, buf, bufTokens, h => by
    rcases Py.bind_error.mp h with h | ⟨tokens, -, h⟩
    · exact ⟨_, h⟩
    · split at h
      · rcases Py.bind_error.mp h with h | ⟨more, -, h⟩
        · exact packBlocks_error h
        · cases h
      · exact packBlocks_error h

/-- Only the tokenizer can fail while the sections are cut. -/
theorem chunkSections_error {e : PyExc} : ∀ {sections : List Section} {chunks : List Chunk}
    {title : Json}, chunkSections w maxTokens chunks title sections = .error e →
    ∃ text, w.countTokens text = .error e
  | [], _, _, h => by cases h
  | s :: sections, chunks, title, h => by
    unfold chunkSections at h
    split at h
    · exact chunkSections_error h
    rcases Py.bind_error.mp h with h | ⟨pieces, -, h⟩
    · unfold sectionPieces at h
      rcases Py.bind_error.mp h with h | ⟨tokens, -, h⟩
      · exact ⟨_, h⟩
      · split at h
        · cases h
        · exact packBlocks_error h
    · exact chunkSections_error h

theorem parseDocument_of_refused {sourceText : Str} (h : Refused sourceText) :
    ∃ exc, ∀ w maxTokens,
      parseDocument w sourceText maxTokens = .error (.frontmatterTooLarge exc) := by
  obtain ⟨seen, hseen, hcap⟩ := h
  refine ⟨"frontmatter is ".toList ++ natStr (utf8Length seen) ++ " bytes; max " ++
    natStr maxFrontmatterBytes, fun w maxTokens => ?_⟩
  unfold parseDocument checkFrontmatterSize
  rw [hseen]
  dsimp only
  rw [if_pos hcap]
  rfl

theorem checkFrontmatterSize_of_not {sourceText : Str} (h : ¬ Refused sourceText) :
    checkFrontmatterSize sourceText = .ok () := by
  unfold checkFrontmatterSize
  cases hseen : frontmatterBlock sourceText with
  | none => rfl
  | some seen =>
    dsimp only
    rw [if_neg fun hcap => h ⟨seen, hseen, hcap⟩]

theorem parseDocument_of_not {sourceText exc : Str} (hw : Foreign w) (h : ¬ Refused sourceText) :
    parseDocument w sourceText maxTokens ≠ .error (.frontmatterTooLarge exc) := by
  intro hparse
  unfold parseDocument at hparse
  rw [checkFrontmatterSize_of_not h] at hparse
  rcases Py.bind_error.mp hparse with hparse | ⟨_, -, hparse⟩
  · cases hparse
  rcases Py.bind_error.mp hparse with hparse | ⟨⟨body, metadata⟩, -, hparse⟩
  · exact hw.frontmatter _ _ hparse
  dsimp only at hparse
  split at hparse
  · cases hparse
  rcases Py.bind_error.mp hparse with hparse | ⟨_, -, hparse⟩
  · obtain ⟨text, ht⟩ := chunkSections_error hparse
    exact hw.countTokens _ _ ht
  · cases hparse

end

theorem asciiWorker_foreign : Foreign FileProcessing.asciiWorker :=
  ⟨fun _ _ h => (nomatch h), fun _ _ h => (nomatch h)⟩

/-- **The frontmatter cap.** For every text: it is refused exactly when it has a block over the cap,
if and only if what the size check counts too much and too little does not take the block across
the cap; and where there is no block, if and only if nothing over the cap looks like one to it. -/
theorem frontmatter_capped_iff (sourceText : Str) :
    FrontmatterCapped sourceText ↔ CapHolds sourceText := by
  rw [capHolds_iff]
  constructor
  · intro hcapped
    constructor
    · intro hrefused
      by_contra hcap
      obtain ⟨exc, hraise⟩ := parseDocument_of_refused hrefused
      have hwithin : ∀ block ∈ blockOf sourceText, utf8Length block ≤ maxFrontmatterBytes :=
        fun block hblock => Nat.not_lt.mp fun hover => hcap ⟨block, hblock, hover⟩
      exact hcapped.accepts hwithin _ 0 exc asciiWorker_foreign (hraise _ 0)
    · rintro ⟨block, hblock, hcap⟩
      by_contra hrefused
      obtain ⟨exc, hraise⟩ := hcapped.refuses block hblock hcap
      exact parseDocument_of_not asciiWorker_foreign hrefused (hraise _ 0)
  · intro hiff
    refine ⟨fun block hblock hcap => parseDocument_of_refused (hiff.mpr ⟨block, hblock, hcap⟩),
      fun hwithin w maxTokens exc hw => parseDocument_of_not hw fun hrefused => ?_⟩
    obtain ⟨block, hblock, hcap⟩ := hiff.mp hrefused
    exact Nat.not_lt.mpr (hwithin block hblock) hcap

/-! ## A way around the cap -/

theorem strip_of_ends {first last : Char} (hfirst : isSpace first = false)
    (hlast : isSpace last = false) (s : Str) :
    strip (first :: (s ++ [last])) = first :: (s ++ [last]) := by
  rw [strip, lstrip, List.dropWhile_cons_of_neg (by simp [hfirst]), rstrip, ← List.cons_append,
    List.rdropWhile_concat_neg _ _ _ (by simp [hlast])]

def dashes : Str := ['-', '-', '-']

def closing (n : Nat) : Str := List.replicate n 'x' ++ '\n' :: dashes

/-- A block with a line that starts with three dashes and goes on with `n + 1` characters. -/
def dashedText (n : Nat) : Str :=
  '-' :: '-' :: '-' :: '\n' :: 'a' :: '\n' :: '-' :: '-' :: '-' :: 'x' :: closing n

def dashedBlock (n : Nat) : Str :=
  '\n' :: 'a' :: '\n' :: '-' :: '-' :: '-' :: 'x' :: (List.replicate n 'x' ++ ['\n'])

/-- An opening line of dashes only. -/
theorem boundary_line {c : Char} (hc : isSpace c = false) (s : Str) :
    boundary ('-' :: '-' :: '-' :: '\n' :: c :: s) = some (dashes, '\n' :: c :: s) := by
  have hn : isSpace '\n' = true := rfl
  simp [boundary, splitLastLine, hn, hc, dashes]

theorem boundary_of_ne {c : Char} (hc : c ≠ '-') (s : Str) : boundary (c :: s) = none := by
  simp [boundary, hc]

/-- Dashes with text behind them. -/
theorem boundary_dashes {c : Char} (hdash : c ≠ '-') (hc : isSpace c = false) (s : Str) :
    boundary ('-' :: '-' :: '-' :: c :: s) = none := by
  simp [boundary, splitLastLine, hdash, hc]

theorem splitBoundary_of_ne {c : Char} (hc : c ≠ '-') (lineStart : Bool) (s : Str) :
    splitBoundary lineStart (c :: s) =
      (splitBoundary (c == '\n') s).map fun (block, rest) => (c :: block, rest) := by
  rw [splitBoundary, boundary_of_ne hc, Option.isSome_none, Bool.and_false]
  rfl

theorem splitBoundary_closing : ∀ n : Nat,
    splitBoundary false (closing n) = some (List.replicate n 'x' ++ ['\n'], dashes)
  | 0 => by decide
  | n + 1 => by
    have hcons : closing (n + 1) = 'x' :: closing n := rfl
    rw [hcons, splitBoundary_of_ne (by decide)]
    change Option.map _ (splitBoundary false (closing n)) = _
    rw [splitBoundary_closing n]
    rfl

theorem strip_dashedText (n : Nat) : strip (dashedText n) = dashedText n := by
  have hends : dashedText n = '-' :: (['-', '-', '\n', 'a', '\n', '-', '-', '-', 'x'] ++
      List.replicate n 'x' ++ ['\n', '-', '-'] ++ ['-']) := by
    simp [dashedText, closing, dashes]
  rw [hends]
  exact strip_of_ends rfl rfl _

theorem yamlBlock_dashedText (n : Nat) :
    yamlBlock (dashedText n) = some (dashes, dashedBlock n, dashes) := by
  have hopen : boundary (dashedText n) = _ := boundary_line rfl _
  have hline : splitBoundary true ('-' :: '-' :: '-' :: 'x' :: closing n) =
      some ('-' :: '-' :: '-' :: 'x' :: (List.replicate n 'x' ++ ['\n']), dashes) := by
    simp [splitBoundary, boundary_dashes, isSpace, splitBoundary_closing]
  have hblock : splitBoundary false
      ('\n' :: 'a' :: '\n' :: '-' :: '-' :: '-' :: 'x' :: closing n) =
        some (dashedBlock n, dashes) := by
    simp [splitBoundary_of_ne, hline, dashedBlock]
  rw [yamlBlock, strip_dashedText, hopen]
  dsimp only
  rw [hblock]
  rfl

theorem dashedBlock_length (n : Nat) : n < utf8Length (dashedBlock n) := by
  have hx : (List.replicate n 'x').map Char.utf8Size = List.replicate n 1 := by
    rw [List.map_replicate]
    rfl
  have hsplit : dashedBlock n =
      ['\n', 'a', '\n', '-', '-', '-', 'x'] ++ (List.replicate n 'x' ++ ['\n']) := rfl
  have hrest : utf8Length (List.replicate n 'x') = n := by
    rw [utf8Length, hx, List.sum_replicate, smul_eq_mul, Nat.mul_one]
  have hone : utf8Length ['\n'] = 1 := by decide
  rw [hsplit, utf8Length_append, utf8Length_append, hrest, hone]
  omega

/-- Of such a block only the first line is measured. -/
theorem measured_dashedBlock (n : Nat) : measured dashes (dashedBlock n) dashes = some ['a'] := by
  simp [measured, behindDashes, dashes, dashedBlock, isLineEnd, cutAtDashes]

theorem dashedText_not_refused (n : Nat) : ¬ Refused (dashedText n) := by
  rintro ⟨seen, hseen, hcap⟩
  rw [frontmatterBlock_eq (yamlBlock_dashedText n), measured_dashedBlock] at hseen
  cases hseen
  exact absurd hcap (by decide)

/-! ## A text without a block -/

/-- The last line starts with three dashes and goes on: it closes no block. -/
def unclosedText (body : Str) : Str := '-' :: '-' :: '-' :: '\n' :: (body ++ ['\n', '-', '-', '-', 'x'])

theorem splitBoundary_unclosed : ∀ (s : Str) (lineStart : Bool), ¬ ("\n---" : Str) <:+: s →
    (lineStart = true → ¬ ("---" : Str) <+: s) →
    splitBoundary lineStart (s ++ ['\n', '-', '-', '-', 'x']) = none
  | [], lineStart, _, _ => by cases lineStart <;> decide
  | c :: s, lineStart, hinner, hline => by
    have hcons : ("\n---" : Str) = '\n' :: ("---" : Str) := rfl
    have hopen : (lineStart && (boundary (c :: s ++ ['\n', '-', '-', '-', 'x'])).isSome) = false := by
      refine Bool.eq_false_iff.mpr fun h => ?_
      obtain ⟨hstart, hb⟩ := Bool.and_eq_true_iff.mp h
      obtain ⟨⟨opening, behind⟩, hb⟩ := Option.isSome_iff_exists.mp hb
      obtain ⟨htext, hdashes, -⟩ := boundary_some hb
      have hprefix : ("---" : Str) <+: c :: s ++ ['\n', '-', '-', '-', 'x'] :=
        htext ▸ hdashes.trans (List.prefix_append _ _)
      exact hline hstart ((prefix_before_line_end dashes_not_line_end).mp hprefix)
    have hrest := splitBoundary_unclosed s (c == '\n')
      (fun h => hinner (h.trans (List.suffix_cons c s).isInfix)) fun hc hprefix =>
        hinner (List.IsPrefix.isInfix (by
          rw [hcons, beq_iff_eq.mp hc]
          exact List.cons_prefix_cons.mpr ⟨rfl, hprefix⟩))
    rw [List.cons_append] at hopen ⊢
    rw [splitBoundary, hopen, if_neg Bool.false_ne_true, hrest]
    rfl

/-- **A text without a block** is refused when what stands between its first line and the one that
goes on behind the dashes is over the cap. -/
theorem unclosed_refused_iff {c : Char} {body : Str} (hc : isSpace c = false)
    (hbody : ¬ ("\n---" : Str) <:+: '\n' :: c :: body) :
    yamlBlock (unclosedText (c :: body)) = none ∧
      (Refused (unclosedText (c :: body)) ↔ maxFrontmatterBytes < utf8Length (c :: body)) := by
  have hends : unclosedText (c :: body) =
      '-' :: (['-', '-', '\n'] ++ (c :: body) ++ ['\n', '-', '-', '-'] ++ ['x']) := by
    simp [unclosedText]
  have hstrip : strip (unclosedText (c :: body)) = unclosedText (c :: body) := by
    rw [hends]
    exact strip_of_ends rfl rfl _
  have hlstrip : lstrip (unclosedText (c :: body)) = unclosedText (c :: body) :=
    List.dropWhile_cons_of_neg (by decide)
  have hopen : boundary (unclosedText (c :: body)) = _ := boundary_line hc _
  constructor
  · have hnone := splitBoundary_unclosed ('\n' :: c :: body) false hbody Bool.noConfusion
    rw [yamlBlock, hstrip, hopen]
    show Option.map _ (splitBoundary false ('\n' :: c :: body ++ ['\n', '-', '-', '-', 'x'])) = none
    rw [hnone]
    rfl
  · have hfenced : Fenced (unclosedText (c :: body)) (c :: body) := by
      have hx : ("---" : Str) ++ ['x'] = ['-', '-', '-', 'x'] := rfl
      have hline : isLineEnd c = false := by
        cases h : isLineEnd c with
        | false => rfl
        | true =>
          rw [isSpace_of_isLineEnd h] at hc
          cases hc
      refine ⟨['\n'], ['x'], ?_, by simp [isLineEnd], ⟨c, rfl, hline⟩, fun h => ?_⟩
      · rw [hlstrip, unclosedText, hx]
        rfl
      · exact hbody (h.trans (List.suffix_cons '\n' (c :: body)).isInfix)
    have hseen := frontmatterBlock_iff.mpr hfenced
    simp [Refused, hseen]

/-- The text over the cap. -/
def longBody : Str := List.replicate maxFrontmatterBytes 'a'

theorem longBody_length : utf8Length ('a' :: longBody) = maxFrontmatterBytes + 1 := by
  have hone : 'a'.utf8Size = 1 := rfl
  simp [longBody, utf8Length, hone, Nat.add_comm]

theorem longBody_inner : ¬ ("\n---" : Str) <:+: '\n' :: 'a' :: longBody := by
  intro h
  have hdash : '-' ∈ '\n' :: 'a' :: longBody := h.subset (by decide)
  simp [longBody] at hdash

/-- A block over the cap that goes to the YAML parser, and a text without a block that is refused. -/
theorem cap_missed :
    (yamlBlock (dashedText maxFrontmatterBytes) =
        some (dashes, dashedBlock maxFrontmatterBytes, dashes) ∧
      maxFrontmatterBytes < utf8Length (dashedBlock maxFrontmatterBytes) ∧
      checkFrontmatterSize (dashedText maxFrontmatterBytes) = .ok () ∧
      ¬ FrontmatterCapped (dashedText maxFrontmatterBytes)) ∧
    (yamlBlock (unclosedText ('a' :: longBody)) = none ∧
      (∃ exc, ∀ w maxTokens, parseDocument w (unclosedText ('a' :: longBody)) maxTokens =
        .error (.frontmatterTooLarge exc)) ∧
      ¬ FrontmatterCapped (unclosedText ('a' :: longBody))) := by
  constructor
  · have hcap := dashedBlock_length maxFrontmatterBytes
    have hpass := dashedText_not_refused maxFrontmatterBytes
    have hblock := yamlBlock_dashedText maxFrontmatterBytes
    refine ⟨hblock, hcap, checkFrontmatterSize_of_not hpass, fun hcapped => ?_⟩
    have hmem : dashedBlock maxFrontmatterBytes ∈ blockOf (dashedText maxFrontmatterBytes) := by
      rw [blockOf, hblock]
      rfl
    obtain ⟨exc, hraise⟩ := hcapped.refuses _ hmem hcap
    exact parseDocument_of_not asciiWorker_foreign hpass (hraise _ 0)
  · obtain ⟨hnone, hrefused⟩ := unclosed_refused_iff rfl longBody_inner
    rw [longBody_length] at hrefused
    obtain ⟨exc, hraise⟩ := parseDocument_of_refused (hrefused.mpr (Nat.lt_succ_self _))
    refine ⟨hnone, ⟨exc, hraise⟩, fun hcapped => ?_⟩
    have hwithin : ∀ block ∈ blockOf (unclosedText ('a' :: longBody)),
        utf8Length block ≤ maxFrontmatterBytes := by
      rw [blockOf, hnone]
      simp
    exact hcapped.accepts hwithin _ 0 exc asciiWorker_foreign (hraise _ 0)

end KnowledgeKiln.L1.Chunking
