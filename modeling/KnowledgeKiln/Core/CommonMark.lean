import KnowledgeKiln.Core.Str

/-!
# Lines, fences and headings of CommonMark

A line ends with LF, CR or CRLF, and with nothing else. A fenced code block at the top level starts
with three backticks or tildes or more, indented by three spaces at most, where the info string
behind backticks holds none; it ends with such a fence of the same character that is at least as
long and has nothing but blanks behind it, or with the document. An ATX heading has one to six
hashes, with a blank or nothing behind them.

A program that breaks lines at more characters reads a line in several parts. `Part` is one of
them; the first knows the line it starts.

* `parts_text`: the parts of a text are its lines per `str.splitlines`.
* `opener_of_blank`, `opener_of_run`, `closer_text`: what the first part of a line tells of the
  line.
-/
namespace KnowledgeKiln.Core.CommonMark

/-! ## Lines -/

def isLineEnd (c : Char) : Bool := c == '\n' || c == '\r'

/-- The lines with their ends; `line` is what has been read of the first one, in reverse. -/
def endedLinesFrom (line : Str) : Str → List Str
  | [] => if line = [] then [] else [line.reverse]
  | '\r' :: '\n' :: s => (line.reverse ++ ['\r', '\n']) :: endedLinesFrom [] s
  | c :: s =>
    if isLineEnd c then (line.reverse ++ [c]) :: endedLinesFrom [] s
    else endedLinesFrom (c :: line) s

def endedLines (s : Str) : List Str := endedLinesFrom [] s

/-- A line without its end. -/
def content (ended : Str) : Str := ended.takeWhile fun c => !isLineEnd c

def lines (s : Str) : List Str := (endedLines s).map content

/-! ## Fences -/

/-- The character of a fence, and its length. -/
abbrev Fence := Char × Nat

/-- Backticks or tildes, three or more. -/
def Fence.Valid (fence : Fence) : Prop := (fence.1 = '`' ∨ fence.1 = '~') ∧ 3 ≤ fence.2

/-- The run of backticks or tildes that a text starts with. -/
def fenceRun (s : Str) : Option Fence :=
  match s with
  | [] => none
  | c :: _ =>
    let n := (s.takeWhile (· == c)).length
    if (c = '`' ∨ c = '~') ∧ 3 ≤ n then some (c, n) else none

/-- The line without its indentation, if that is at most three spaces. -/
def dedent (line : Str) : Option Str :=
  if (line.takeWhile (· == ' ')).length ≤ 3 then some (line.dropWhile (· == ' ')) else none

/-- An opening code fence. -/
def opener (line : Str) : Option Fence :=
  match dedent line with
  | none => none
  | some rest =>
    match fenceRun rest with
    | none => none
    | some (c, n) => if c = '`' ∧ '`' ∈ rest.drop n then none else some (c, n)

/-- A closing code fence for this opening one. -/
def closer (fence : Fence) (line : Str) : Bool :=
  match dedent line with
  | none => false
  | some rest =>
    fence.2 ≤ (rest.takeWhile (· == fence.1)).length &&
      (rest.dropWhile (· == fence.1)).all isSpace

/-- The fence that is open after the line. -/
def next : Option Fence → Str → Option Fence
  | none, line => opener line
  | some fence, line => if closer fence line then none else some fence

/-! ## Headings -/

def isBlank (c : Char) : Bool := c == ' ' || c == '\t'

def trimBlanks (s : Str) : Str := (s.dropWhile isBlank).rdropWhile isBlank

/-- A text without the hashes that close it: a blank stands before them, or nothing. -/
def withoutClosing (s : Str) : Str :=
  let before := s.rdropWhile (· == '#')
  if before = [] ∨ before.getLast?.any isBlank then trimBlanks before else s

/-- Level and text of an ATX heading. -/
def atxHeading (line : Str) : Option (Nat × Str) :=
  match dedent line with
  | none => none
  | some rest =>
    let hashes := rest.takeWhile (· == '#')
    let after := rest.dropWhile (· == '#')
    if hashes = [] ∨ 6 < hashes.length ∨ after.head?.any (fun c => !isBlank c) then none
    else some (hashes.length, withoutClosing (trimBlanks after))

/-- The first ATX heading of this level outside the fenced code blocks, behind this open fence. -/
def firstHeading (level : Nat) : Option Fence → List Str → Option Str
  | _, [] => none
  | open?, line :: lines =>
    match open?, next open? line, atxHeading line with
    | none, none, some (n, text) =>
      if n = level then some text else firstHeading level none lines
    | _, after, _ => firstHeading level after lines

/-! ## Parts of lines -/

/-- Part of a line: a line as `str.splitlines` reads it, and the whole line if it is the first part
of one. -/
structure Part where
  text : Str
  line : Option Str
  starts : ∀ l ∈ line, text = l.takeWhile fun c => !isLineBreak c

/-- The parts of a line with its end. -/
def partsOf (ended : Str) : List Part :=
  ⟨(content ended).takeWhile fun c => !isLineBreak c, some (content ended), by rintro l ⟨⟩; rfl⟩ ::
    (splitlines ended).tail.map fun text => ⟨text, none, by rintro l ⟨⟩⟩

def parts (s : Str) : List Part := (endedLines s).flatMap partsOf

/-- The fence that is open after the part of a line: what stands behind the first part changes
nothing. -/
def Part.next (open? : Option Fence) (part : Part) : Option Fence :=
  match part.line with
  | some line => CommonMark.next open? line
  | none => open?

/-- The fence that is open after each part. -/
def fencesAfter : Option Fence → List Part → List (Option Fence)
  | _, [] => []
  | open?, part :: parts => part.next open? :: fencesAfter (part.next open?) parts

/-- The parts in a code block: a fence is open before the part or after it. Behind a closing fence
there are only blanks, and these are in no block. -/
def marks : Option Fence → List Part → List Bool
  | _, [] => []
  | open?, part :: parts =>
    (open?.isSome || (part.next open?).isSome) :: marks (part.next open?) parts

/-! ## The parts are the lines of `str.splitlines` -/

theorem isLineBreak_of_isLineEnd {c : Char} (h : isLineEnd c = true) : isLineBreak c = true := by
  rcases Bool.or_eq_true_iff.mp h with h | h <;> rw [beq_iff_eq.mp h] <;> rfl

theorem isSpace_of_isLineBreak {c : Char} (h : isLineBreak c = true) : isSpace c = true := by
  simp only [isLineBreak, isSpace, Bool.or_eq_true, Bool.and_eq_true, decide_eq_true_eq,
    beq_iff_eq] at h ⊢
  omega

/-- What is left of the text behind a line break: behind CR, an LF belongs to it. -/
def behindBreak (c : Char) (s : Str) : Str :=
  if c = '\r' ∧ s.head? = some '\n' then s.tail else s

theorem behindBreak_length (c : Char) (s : Str) : (behindBreak c s).length ≤ s.length := by
  unfold behindBreak
  split <;> simp

theorem behindBreak_append {c : Char} {a : Str} (ha : a ≠ []) (b : Str) :
    behindBreak c (a ++ b) = behindBreak c a ++ b := by
  obtain ⟨d, a, rfl⟩ := List.exists_cons_of_ne_nil ha
  unfold behindBreak
  by_cases h : c = '\r' ∧ d = '\n' <;> simp [h]

theorem splitlinesFrom_cons (line : Str) (c : Char) (s : Str) : splitlinesFrom line (c :: s) =
    if isLineBreak c then line.reverse :: splitlines (behindBreak c s)
    else splitlinesFrom (c :: line) s := by
  rw [splitlinesFrom.eq_def]
  split
  · rename_i h
    cases h
  · rename_i s' h
    cases h
    rfl
  · rename_i d s' hlf h
    obtain ⟨rfl, rfl⟩ := List.cons.inj h
    have hbehind : behindBreak c s = s := by
      refine if_neg ?_
      rintro ⟨rfl, hhead⟩
      obtain ⟨s, rfl⟩ := List.head?_eq_some_iff.mp hhead
      exact hlf _ rfl rfl
    rw [hbehind]
    rfl

theorem endedLinesFrom_cons (line : Str) (c : Char) (s : Str) : endedLinesFrom line (c :: s) =
    if isLineEnd c then
      (line.reverse ++ c :: s.take (s.length - (behindBreak c s).length)) ::
        endedLines (behindBreak c s)
    else endedLinesFrom (c :: line) s := by
  rw [endedLinesFrom.eq_def]
  split
  · rename_i h
    cases h
  · rename_i s' h
    cases h
    have hone : s'.length + 1 - s'.length = 1 := by omega
    simp [behindBreak, isLineEnd, endedLines, hone]
  · rename_i d s' hlf h
    obtain ⟨rfl, rfl⟩ := List.cons.inj h
    have hbehind : behindBreak c s = s := by
      refine if_neg ?_
      rintro ⟨rfl, hhead⟩
      obtain ⟨s, rfl⟩ := List.head?_eq_some_iff.mp hhead
      exact hlf _ rfl rfl
    rw [hbehind, Nat.sub_self]
    rfl

/-- A line end cuts the lines in two, unless it is cut in two itself. -/
theorem splitlinesFrom_end {c : Char} (hc : isLineBreak c = true) {b : Str}
    (hb : behindBreak c b = b) : ∀ a line : Str,
      splitlinesFrom line (a ++ c :: b) = splitlinesFrom line (a ++ [c]) ++ splitlines b
  | [], line => by
    have hnil : behindBreak c [] = [] := if_neg (by simp)
    rw [List.nil_append, List.nil_append, splitlinesFrom_cons, splitlinesFrom_cons, if_pos hc,
      if_pos hc, hb, hnil]
    rfl
  | d :: a, line => by
    rw [List.cons_append, List.cons_append, splitlinesFrom_cons, splitlinesFrom_cons]
    by_cases hd : isLineBreak d = true
    · rw [if_pos hd, if_pos hd]
      refine congrArg (line.reverse :: ·) ?_
      cases a with
      | nil =>
        -- CR before the line end
        by_cases hlf : d = '\r' ∧ c = '\n'
        · simp [behindBreak, hlf, splitlines, splitlinesFrom]
        · have hcut : ∀ s, behindBreak d (c :: s) = c :: s := fun s => if_neg (by simpa using hlf)
          rw [List.nil_append, List.nil_append, hcut, hcut]
          exact splitlinesFrom_end hc hb [] []
      | cons e a =>
        have hne : e :: a ≠ [] := List.cons_ne_nil _ _
        have hlen := behindBreak_length d (e :: a)
        rw [behindBreak_append hne, behindBreak_append hne]
        exact splitlinesFrom_end hc hb (behindBreak d (e :: a)) []
    · rw [if_neg hd, if_neg hd]
      exact splitlinesFrom_end hc hb a (d :: line)
termination_by a => a.length
decreasing_by all_goals simp_all

/-- The lines of `str.splitlines` are those of the lines with their ends. -/
theorem endedLinesFrom_splitlines : ∀ s line : Str,
    (endedLinesFrom line s).flatMap splitlines = splitlines (line.reverse ++ s)
  | [], line => by
    unfold endedLinesFrom
    by_cases hl : line = []
    · rw [if_pos hl, hl]
      rfl
    · rw [if_neg hl]
      simp
  | c :: s, line => by
    rw [endedLinesFrom_cons]
    by_cases hc : isLineEnd c = true
    · have hbreak := isLineBreak_of_isLineEnd hc
      have hlen := behindBreak_length c s
      have ih : (endedLines (behindBreak c s)).flatMap splitlines = splitlines (behindBreak c s) :=
        endedLinesFrom_splitlines (behindBreak c s) []
      rw [if_pos hc, List.flatMap_cons, ih]
      by_cases hlf : c = '\r' ∧ s.head? = some '\n'
      · obtain ⟨rfl, hhead⟩ := hlf
        obtain ⟨s, rfl⟩ := List.head?_eq_some_iff.mp hhead
        have hbehind : behindBreak '\r' ('\n' :: s) = s := rfl
        have hone : s.length + 1 - s.length = 1 := by omega
        have hcut := @splitlinesFrom_end '\n' rfl s (if_neg (by simp)) (line.reverse ++ ['\r']) []
        rw [hbehind, List.length_cons, hone]
        simpa [splitlines] using hcut.symm
      · have hbehind : behindBreak c s = s := if_neg hlf
        have hcut := splitlinesFrom_end hbreak hbehind line.reverse []
        rw [hbehind, Nat.sub_self]
        exact hcut.symm
    · rw [if_neg hc, endedLinesFrom_splitlines s (c :: line)]
      simp
termination_by s => s.length
decreasing_by all_goals simp_all

theorem endedLinesFrom_ne_nil : ∀ s line : Str, ∀ ended ∈ endedLinesFrom line s, ended ≠ []
  | [], line, ended, h => by
    unfold endedLinesFrom at h
    split at h
    · cases h
    · rw [List.mem_singleton.mp h]
      simpa
  | c :: s, line, ended, h => by
    have hlen := behindBreak_length c s
    rw [endedLinesFrom_cons] at h
    split at h
    · rcases List.mem_cons.mp h with rfl | h
      · simp
      · exact endedLinesFrom_ne_nil (behindBreak c s) [] ended h
    · exact endedLinesFrom_ne_nil s (c :: line) ended h
termination_by s => s.length
decreasing_by all_goals simp_all

theorem splitlinesFrom_head : ∀ s line : Str, line ++ s ≠ [] → splitlinesFrom line s =
    (line.reverse ++ s.takeWhile fun c => !isLineBreak c) :: (splitlinesFrom line s).tail
  | [], line, h => by
    have hl : line ≠ [] := by simpa using h
    simp [splitlinesFrom, hl]
  | c :: s, line, _ => by
    rw [splitlinesFrom_cons]
    by_cases hc : isLineBreak c = true
    · rw [if_pos hc, List.takeWhile_cons_of_neg (by simp [hc])]
      simp
    · have ih := splitlinesFrom_head s (c :: line) (by simp)
      rw [if_neg hc, List.takeWhile_cons_of_pos (by simpa using hc)]
      conv_lhs => rw [ih]
      simp

theorem partsOf_text {ended : Str} (h : ended ≠ []) :
    (partsOf ended).map (·.text) = splitlines ended := by
  have hhead := splitlinesFrom_head ended [] h
  have hfirst : (content ended).takeWhile (fun c => !isLineBreak c) =
      ended.takeWhile fun c => !isLineBreak c := by
    rw [content, List.takeWhile_takeWhile]
    congr 1
    funext c
    have hc := @isLineBreak_of_isLineEnd c
    cases h : isLineEnd c <;> simp_all
  have hrest : ((partsOf ended).map (·.text)).tail = (splitlines ended).tail := by
    rw [partsOf, List.map_cons, List.tail_cons, List.map_map]
    exact List.map_id _
  show (content ended).takeWhile (fun c => !isLineBreak c) :: ((partsOf ended).map (·.text)).tail = _
  rw [hfirst, hrest]
  exact hhead.symm

/-- **The parts of a text** are its lines per `str.splitlines`. -/
theorem parts_text (s : Str) : (parts s).map (·.text) = splitlines s := by
  have hlines : (endedLines s).flatMap splitlines = splitlines s := endedLinesFrom_splitlines s []
  rw [parts, List.map_flatMap, ← hlines]
  exact List.flatMap_congr fun ended hm => partsOf_text (endedLinesFrom_ne_nil s [] ended hm)

/-! ## What the first part tells of its line -/

/-- A line is its first part, and behind that it goes on with a line break. -/
theorem Part.line_eq {part : Part} {l : Str} (h : part.line = some l) :
    ∃ r, l = part.text ++ r ∧ ∀ c ∈ r.head?, isSpace c = true ∧ c ≠ ' ' := by
  have hstart := part.starts l h
  refine ⟨l.dropWhile fun c => !isLineBreak c, ?_, fun c hc => ?_⟩
  · rw [hstart, List.takeWhile_append_dropWhile]
  · obtain ⟨tail, htail⟩ := List.head?_eq_some_iff.mp hc
    have hne : l.dropWhile (fun c => !isLineBreak c) ≠ [] := by simp [htail]
    have hhead := List.head_dropWhile_not (fun c => !isLineBreak c) (l := l) hne
    have hbreak : isLineBreak c = true := by simpa [htail] using hhead
    refine ⟨isSpace_of_isLineBreak hbreak, ?_⟩
    rintro rfl
    cases hbreak

theorem Fence.Valid.not_space {fence : Fence} (h : fence.Valid) : isSpace fence.1 = false := by
  rcases h.1 with hc | hc <;> rw [hc] <;> rfl

theorem fenceRun_some {s : Str} {fence : Fence} (h : fenceRun s = some fence) :
    fence.Valid ∧ ∃ rest, s = fence.1 :: rest := by
  unfold fenceRun at h
  split at h
  · cases h
  · dsimp only at h
    split at h
    · rename_i hc
      cases h
      exact ⟨hc, _, rfl⟩
    · cases h

theorem dedent_some {line rest : Str} (h : dedent line = some rest) :
    line.dropWhile (· == ' ') = rest := by
  unfold dedent at h
  split at h
  · exact Option.some.inj h
  · cases h

theorem opener_some {line : Str} {fence : Fence} (h : opener line = some fence) :
    ∃ rest, dedent line = some rest ∧ fenceRun rest = some fence := by
  unfold opener at h
  split at h
  · cases h
  · rename_i rest hd
    split at h
    · cases h
    · rename_i hf
      split at h
      · cases h
      · cases h
        exact ⟨rest, hd, hf⟩

/-- A run of a character ends where a text goes on with another one. -/
theorem takeWhile_run {c : Char} {r : Str} (hr : ∀ d ∈ r.head?, d ≠ c) : ∀ s : Str,
    (s ++ r).takeWhile (· == c) = s.takeWhile (· == c)
  | [] => by
    cases r with
    | nil => rfl
    | cons d r =>
      have hd := hr d rfl
      simp [hd]
  | d :: s => by
    rw [List.cons_append, List.takeWhile_cons, List.takeWhile_cons, takeWhile_run hr s]

theorem dropWhile_run {c : Char} {r : Str} (hr : ∀ d ∈ r.head?, d ≠ c) : ∀ s : Str,
    (s ++ r).dropWhile (· == c) = s.dropWhile (· == c) ++ r
  | [] => by
    cases r with
    | nil => rfl
    | cons d r =>
      have hd := hr d rfl
      simp [hd]
  | d :: s => by
    rw [List.cons_append, List.dropWhile_cons, List.dropWhile_cons, dropWhile_run hr s]
    split <;> rfl

theorem fenceRun_append {s r : Str} {fence : Fence} (h : fenceRun s = some fence)
    (hr : ∀ c ∈ r.head?, isSpace c = true) : fenceRun (s ++ r) = some fence := by
  obtain ⟨hvalid, rest, rfl⟩ := fenceRun_some h
  have hrun : ∀ d ∈ r.head?, d ≠ fence.1 := by
    rintro d hd rfl
    have hspace := hr fence.1 hd
    rw [hvalid.not_space] at hspace
    cases hspace
  rw [← h, List.cons_append, fenceRun, fenceRun, ← List.cons_append, takeWhile_run hrun]

/-- Behind an indentation of spaces, the line goes on as its first part does. -/
theorem Part.dedent_line {part : Part} {l rest : Str} (h : part.line = some l)
    (hd : dedent l = some rest) : ∃ r, dedent part.text = some (part.text.dropWhile (· == ' ')) ∧
      rest = part.text.dropWhile (· == ' ') ++ r ∧ ∀ c ∈ r.head?, isSpace c = true := by
  obtain ⟨r, rfl, hr⟩ := part.line_eq h
  have hspace : ∀ d ∈ r.head?, d ≠ ' ' := fun d hd => (hr d hd).2
  refine ⟨r, ?_, ?_, fun c hc => (hr c hc).1⟩
  · unfold dedent at hd ⊢
    rw [takeWhile_run hspace] at hd
    split at hd
    · rename_i hlen
      exact if_pos hlen
    · cases hd
  · rw [← dedent_some hd, dropWhile_run hspace]

/-- A line that opens a block, with a run of fence characters at the start of its first part, opens
one with this run. -/
theorem Part.opener_run {part : Part} {l : Str} {fence open' : Fence} (h : part.line = some l)
    (hrun : fenceRun part.text = some fence) (ho : opener l = some open') : open' = fence := by
  obtain ⟨rest, hd, hf⟩ := opener_some ho
  obtain ⟨r, -, hrest, hr⟩ := part.dedent_line h hd
  obtain ⟨hvalid, tail, htext⟩ := fenceRun_some hrun
  have hne : fence.1 ≠ ' ' := by
    intro he
    have hspace := hvalid.not_space
    rw [he] at hspace
    cases hspace
  have hdrop : part.text.dropWhile (· == ' ') = part.text := by
    rw [htext, List.dropWhile_cons_of_neg (by simpa using hne)]
  rw [hrest, hdrop, fenceRun_append hrun hr] at hf
  exact (Option.some.inj hf).symm

/-- A line with a blank first part opens no block. -/
theorem Part.opener_blank {part : Part} {l : Str} (h : part.line = some l)
    (hblank : strip part.text = []) : opener l = none := by
  cases ho : opener l with
  | none => rfl
  | some fence =>
    obtain ⟨rest, hd, hf⟩ := opener_some ho
    obtain ⟨r, -, hrest, hr⟩ := part.dedent_line h hd
    obtain ⟨hvalid, tail, htail⟩ := fenceRun_some hf
    have hspace := hvalid.not_space
    rw [htail] at hrest
    cases hdrop : part.text.dropWhile (· == ' ') with
    | nil =>
      rw [hdrop, List.nil_append] at hrest
      rw [hr fence.1 (by rw [← hrest]; rfl)] at hspace
      cases hspace
    | cons c text =>
      rw [hdrop, List.cons_append] at hrest
      obtain ⟨rfl, -⟩ := List.cons.inj hrest
      have hmem : fence.1 ∈ part.text := by
        refine (List.dropWhile_suffix (· == ' ')).subset ?_
        rw [hdrop]
        exact List.mem_cons_self
      rw [strip_eq_nil.mp hblank _ hmem] at hspace
      cases hspace

/-- The first part of a line that closes a block is a closing fence itself. -/
theorem Part.closer_text {part : Part} {l : Str} {fence : Fence} (h : part.line = some l)
    (hvalid : fence.Valid) (hc : closer fence l = true) : closer fence part.text = true := by
  unfold closer at hc ⊢
  split at hc
  · cases hc
  rename_i rest hd
  obtain ⟨r, hdedent, rfl, hr⟩ := part.dedent_line h hd
  have hrun : ∀ d ∈ r.head?, d ≠ fence.1 := by
    rintro d hd rfl
    have hspace := hr fence.1 hd
    rw [hvalid.not_space] at hspace
    cases hspace
  rw [takeWhile_run hrun, dropWhile_run hrun, List.all_append] at hc
  rw [hdedent]
  simp only [Bool.and_eq_true] at hc ⊢
  exact ⟨hc.1, hc.2.1⟩

end KnowledgeKiln.Core.CommonMark
