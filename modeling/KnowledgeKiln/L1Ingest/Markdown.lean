import KnowledgeKiln.Core.Str

/-!
# The block scanner (ingestion/chunking.py)

`_scan_blocks` cuts a Markdown body into atomic blocks, line by line. Its four
regular expressions are written out as functions on one line; `isDecimal` is
`\d`, whose extent outside ASCII is a table of the runtime.

The while loop is a recursion on the remaining lines with a fuel that is never
exhausted: every round takes at least one line (`scanLoop_fuel`).

* `scanLoop_text`: no block is blank.
-/
namespace KnowledgeKiln.L1.Chunking

open KnowledgeKiln.Core

/-! ## Lines -/

/-- `_HEADING_RE`: level and text of an ATX heading. -/
def headingMatch (line : Str) : Option (Nat × Str) :=
  let hashes := line.takeWhile (· == '#')
  let after := line.dropWhile (· == '#')
  let spaces := after.takeWhile isSpace
  let text := after.dropWhile isSpace
  if hashes = [] ∨ 6 < hashes.length ∨ spaces = [] then none
  else if text = [] then
    -- only blanks follow: the text is the last of them, and strips to nothing
    if spaces.length < 2 then none else some (hashes.length, [])
  else
    let stripped := rstrip (text.rdropWhile (· == '#'))
    some (hashes.length, if stripped = [] then "#" else stripped)

/-- `_FENCE_OPEN_RE`: character and length of a fence at the start of the line. -/
def fenceOpen (line : Str) : Option (Char × Nat) :=
  match line with
  | [] => none
  | c :: _ =>
    let n := (line.takeWhile (· == c)).length
    if (c = '`' ∨ c = '~') ∧ 3 ≤ n then some (c, n) else none

/-- A blank follows the bullet or the number. -/
def bulletMatch (isDecimal : Char → Bool) (item : Str) : Bool :=
  let digits := item.takeWhile isDecimal
  let number := digits ≠ [] && match item.dropWhile isDecimal with
    | c :: d :: _ => (c == '.' || c == ')') && isSpace d
    | _ => false
  let bullet := match item with
    | c :: d :: _ => (c == '-' || c == '*' || c == '+') && isSpace d
    | _ => false
  bullet || number

/-- `_LIST_ITEM_RE` -/
def listItem (isDecimal : Char → Bool) (line : Str) : Bool :=
  (line.takeWhile isSpace).length ≤ 3 && bulletMatch isDecimal (line.dropWhile isSpace)

/-- One cell of a table's delimiter row: `:?-{3,}:?` between blanks. -/
def delimiterCell (cell : Str) : Bool :=
  let cell := strip cell
  let cell := if cell.head? = some ':' then cell.tail else cell
  let cell := if cell.getLast? = some ':' then cell.dropLast else cell
  3 ≤ cell.length && cell.all (· == '-')

/-- `_TABLE_SEP_RE`: two cells or more, the outer bars optional. -/
def tableSep (line : Str) : Bool :=
  let row := strip line
  let row := if row.head? = some '|' then row.tail else row
  let row := if row.getLast? = some '|' then row.dropLast else row
  let cells := row.splitOn '|'
  2 ≤ cells.length && cells.all delimiterCell

/-! ## Blocks -/

inductive BlockKind
  | heading | code | table | list | paragraph
  deriving DecidableEq, Repr

/-- Mirrors `_Block` (chunking.py:105-111). -/
structure Block where
  kind : BlockKind
  text : Str
  headingLevel : Nat := 0
  headingText : Str := []
  deriving DecidableEq, Repr

/-- The stack of open fences after one more line inside a fenced block. -/
def fenceStep (stack : List (Char × Nat)) (line : Str) : List (Char × Nat) :=
  match stack, fenceOpen (lstrip line) with
  | (topChar, topLen) :: below, some (innerChar, innerLen) =>
    let info := strip ((lstrip line).drop innerLen)
    if innerChar = topChar then
      if info ≠ [] then (innerChar, innerLen) :: stack
      else if topLen ≤ innerLen then below
      else stack
    else stack
  | stack, _ => stack

/-- The lines up to the closing fence, and the lines behind it. -/
def fenceBody (stack : List (Char × Nat)) : List Str → List Str × List Str
  | [] => ([], [])
  | line :: lines =>
    if stack = [] then ([], line :: lines)
    else
      let (body, rest) := fenceBody (fenceStep stack line) lines
      (line :: body, rest)

section
variable (isDecimal : Char → Bool)

/-- A table starts: a bar in this line, and a delimiter row in the next. -/
def tableStart (line : Str) (next : Option Str) : Bool := '|' ∈ line && next.any tableSep

/-- Mirrors `_is_block_start` (chunking.py:214-221). -/
def isBlockStart (line : Str) (next : Option Str) : Bool :=
  (headingMatch line).isSome || (fenceOpen line).isSome || listItem isDecimal line ||
    tableStart line next

/-- An item, an indented line, or a blank line that is not followed by something else than an
item belongs to the list group before it. -/
def listContinues (line : Str) (next : Option Str) : Bool :=
  (listItem isDecimal line || startsWith line " " || startsWith line "\t" || strip line = []) &&
    !(strip line = [] && next.any fun next => !listItem isDecimal next)

/-- The rest of a list group. -/
def listBody : List Str → List Str × List Str
  | [] => ([], [])
  | line :: lines =>
    if listContinues isDecimal line lines.head? then
      let (body, rest) := listBody lines
      (line :: body, rest)
    else ([], line :: lines)

/-- The rest of a paragraph: up to a blank line or the start of a block. -/
def paragraphBody : List Str → List Str × List Str
  | [] => ([], [])
  | line :: lines =>
    if strip line = [] ∨ isBlockStart isDecimal line lines.head? = true then ([], line :: lines)
    else
      let (body, rest) := paragraphBody lines
      (line :: body, rest)

def isTableRow (line : Str) : Bool := '|' ∈ line && strip line ≠ []

/-- The block that a non-blank line opens, and the lines behind it; one round of the loop of
`_scan_blocks` (chunking.py:120-210). -/
def nextBlock (line : Str) (lines : List Str) : Block × List Str :=
  match fenceOpen line with
  | some fence =>
    let (body, rest) := fenceBody [fence] lines
    ({ kind := .code, text := join "\n" (line :: body) }, rest)
  | none =>
    match headingMatch line with
    | some (level, text) =>
      ({ kind := .heading, text := line, headingLevel := level, headingText := text }, lines)
    | none =>
      if tableStart line lines.head? then
        let rows := (lines.drop 1).takeWhile isTableRow
        ({ kind := .table, text := join "\n" (line :: (lines.take 1 ++ rows)) },
          (lines.drop 1).dropWhile isTableRow)
      else if listItem isDecimal line then
        let (body, rest) := listBody isDecimal lines
        ({ kind := .list, text := join "\n" (line :: body) }, rest)
      else
        let (body, rest) := paragraphBody isDecimal lines
        ({ kind := .paragraph, text := join "\n" (line :: body) }, rest)

def scanLoop : (fuel : Nat) → List Str → List Block
  | 0, _ => []
  | _, [] => []
  | fuel + 1, line :: lines =>
    if strip line = [] then scanLoop fuel lines
    else
      let next := nextBlock isDecimal line lines
      next.1 :: scanLoop fuel next.2

/-- Mirrors `_scan_blocks` (chunking.py:114-211). -/
def scanBlocks (body : Str) : List Block :=
  scanLoop isDecimal (splitlines body).length (splitlines body)

end

/-! ## Every round takes a line -/

section
variable {isDecimal : Char → Bool}

theorem fenceBody_length : ∀ (lines : List Str) (stack : List (Char × Nat)),
    (fenceBody stack lines).2.length ≤ lines.length
  | [], _ => le_refl _
  | line :: lines, stack => by
    unfold fenceBody
    split
    · exact le_refl _
    · exact (fenceBody_length lines _).trans (Nat.le_succ _)

theorem listBody_length : ∀ lines : List Str, (listBody isDecimal lines).2.length ≤ lines.length
  | [] => le_refl _
  | line :: lines => by
    unfold listBody
    split
    · exact (listBody_length lines).trans (Nat.le_succ _)
    · exact le_refl _

theorem paragraphBody_length :
    ∀ lines : List Str, (paragraphBody isDecimal lines).2.length ≤ lines.length
  | [] => le_refl _
  | line :: lines => by
    unfold paragraphBody
    split
    · exact le_refl _
    · exact (paragraphBody_length lines).trans (Nat.le_succ _)

theorem nextBlock_length (line : Str) (lines : List Str) :
    (nextBlock isDecimal line lines).2.length ≤ lines.length := by
  unfold nextBlock
  split
  · exact fenceBody_length lines _
  · split
    · exact le_refl _
    · split
      · refine (List.dropWhile_suffix _).length_le.trans ?_
        rw [List.length_drop]
        omega
      · split
        · exact listBody_length lines
        · exact paragraphBody_length lines

/-- More fuel than lines changes nothing. -/
theorem scanLoop_fuel : ∀ (fuel : Nat) (lines : List Str), lines.length ≤ fuel →
    scanLoop isDecimal fuel lines = scanLoop isDecimal lines.length lines
  | 0, [], _ => rfl
  | _ + 1, [], _ => rfl
  | fuel + 1, line :: lines, h => by
    have hl : lines.length ≤ fuel := Nat.le_of_succ_le_succ h
    have hb := @nextBlock_length isDecimal line lines
    rw [List.length_cons, scanLoop, scanLoop]
    split
    · exact scanLoop_fuel fuel lines hl
    · dsimp only
      rw [scanLoop_fuel fuel _ (hb.trans hl), scanLoop_fuel lines.length _ hb]

/-- The text of a block begins with the line that opened it. -/
theorem nextBlock_text (line : Str) (lines : List Str) :
    ∃ more, (nextBlock isDecimal line lines).1.text = join "\n" (line :: more) := by
  unfold nextBlock
  split
  · exact ⟨_, rfl⟩
  · split
    · exact ⟨[], by simp [join, List.intercalate]⟩
    · split
      · exact ⟨_, rfl⟩
      · split
        · exact ⟨_, rfl⟩
        · exact ⟨_, rfl⟩

/-- No block is blank. -/
theorem scanLoop_text : ∀ (fuel : Nat) (lines : List Str), ∀ b ∈ scanLoop isDecimal fuel lines,
    strip b.text ≠ []
  | 0, _, _, h => by cases h
  | _ + 1, [], _, h => by cases h
  | fuel + 1, line :: lines, b, h => by
    unfold scanLoop at h
    split at h
    · exact scanLoop_text fuel lines b h
    · rename_i hline
      rcases List.mem_cons.mp h with rfl | h
      · obtain ⟨more, he⟩ := @nextBlock_text isDecimal line lines
        rw [he]
        -- a character of the opening line that is no blank is in the text
        intro hs
        refine hline (strip_eq_nil.mpr fun c hc => strip_eq_nil.mp hs c ?_)
        exact (infix_join List.mem_cons_self).subset hc
      · exact scanLoop_text fuel _ b h

end

end KnowledgeKiln.L1.Chunking
