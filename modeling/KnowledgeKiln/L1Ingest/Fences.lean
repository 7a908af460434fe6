import KnowledgeKiln.Core.CommonMark
import KnowledgeKiln.L1Ingest.Conservation

/-!
# Fences, as the scanner and as CommonMark read them (ingestion/chunking.py)

CommonMark's rule for a fenced code block at the top level is in `Core.CommonMark`. `_scan_blocks`
looks for the opening fence in column 0 only and in no row of a table, does not look into its info
string, and strips a line inside a block of any indentation. Its lines are those of
`str.splitlines`, which may be parts of a line.

* `scanPieces`: the lines that each block of the scanner has taken.
* `WellFenced`: the lines on which the scanner takes for a fence what CommonMark does.
* `MadeUp`: a mistake inside a block that the next line may hide.
* `fences_agree_iff`: the condition is exact for the fences, and for the lines in code blocks where
  no mistake can hide.
-/
namespace KnowledgeKiln.L1.Chunking

open KnowledgeKiln.Core
open CommonMark (Fence Part parts marks fencesAfter opener closer fenceRun dedent)

/-! ## The scanner -/

section
variable (isDecimal : Char → Bool)

/-- The blocks of the scanner with the lines each has taken, and the blank lines between them. -/
def scanPieces : (fuel : Nat) → List Str → List (Option Block × List Str)
  | 0, _ => []
  | _, [] => []
  | fuel + 1, line :: lines =>
    if strip line = [] then (none, [line]) :: scanPieces fuel lines
    else
      let next := nextBlock isDecimal line lines
      (some next.1, line :: lines.take (lines.length - next.2.length)) :: scanPieces fuel next.2

/-- The lines in a code block. -/
def scanMarks (body : Str) : List Bool :=
  (scanPieces isDecimal (splitlines body).length (splitlines body)).flatMap fun piece =>
    piece.2.map fun _ => piece.1.any (·.kind == .code)

/-- The stack after each line that `fenceBody` takes. -/
def fenceStacks (stack : List Fence) : List Str → List (List Fence)
  | [] => []
  | line :: lines =>
    if stack = [] then []
    else fenceStep stack line :: fenceStacks (fenceStep stack line) lines

/-- The stack of open fences after each line. -/
def scanFences : (fuel : Nat) → List Str → List (List Fence)
  | 0, _ => []
  | _, [] => []
  | fuel + 1, line :: lines =>
    if strip line = [] then [] :: scanFences fuel lines
    else
      let rest := (nextBlock isDecimal line lines).2
      match fenceOpen line with
      | some fence => [fence] :: (fenceStacks [fence] lines ++ scanFences fuel rest)
      | none => List.replicate (lines.length - rest.length + 1) [] ++ scanFences fuel rest

/-- The scanner takes for a fence what CommonMark does, behind this open fence of CommonMark's and
up to a place of this kind. -/
inductive ReadsTo (Stop : Option Fence → List Part → Prop) : Option Fence → List Part → Prop
  | stop {open? parts} (h : Stop open? parts) : ReadsTo Stop open? parts
  /-- A blank line outside a block. -/
  | blank {part parts} (hblank : strip part.text = []) (hrest : ReadsTo Stop none parts) :
      ReadsTo Stop none (part :: parts)
  /-- An opening fence, in column 0. -/
  | fence {part parts fence} (hscan : fenceOpen part.text = some fence)
      (hmark : part.next none = some fence) (hrest : ReadsTo Stop (some fence) parts) :
      ReadsTo Stop none (part :: parts)
  /-- Another block of the scanner, no line of which is an opening fence. -/
  | text {part parts taken rest} (hblank : strip part.text ≠ []) (hscan : fenceOpen part.text = none)
      (hparts : taken ++ rest = parts)
      (htaken : (nextBlock isDecimal part.text (parts.map (·.text))).2 = rest.map (·.text))
      (hmark : ∀ p ∈ part :: taken, p.next none = none) (hrest : ReadsTo Stop none rest) :
      ReadsTo Stop none (part :: parts)
  /-- The closing fence. -/
  | close {part parts fence} (hmark : part.next (some fence) = none)
      (hrest : ReadsTo Stop none parts) : ReadsTo Stop (some fence) (part :: parts)
  /-- A line of the block that is no fence to the scanner either. -/
  | content {part parts fence} (hmark : part.next (some fence) = some fence)
      (hscan : fenceStep [fence] part.text = [fence]) (hrest : ReadsTo Stop (some fence) parts) :
      ReadsTo Stop (some fence) (part :: parts)

/-- The scanner takes for a fence what CommonMark does, to the end. -/
abbrev WellFenced (open? : Option Fence) (parts : List Part) : Prop :=
  ReadsTo isDecimal (fun _ parts => parts = []) open? parts

end

/-- The scanner takes a line of this block for a fence. It opens another block inside, or closes the
block on the last line or right before a line that opens one for the scanner. -/
def MadeUp : Option Fence → List Part → Prop
  | some fence, part :: parts =>
    part.next (some fence) = some fence ∧ fenceStep [fence] part.text ≠ [fence] ∧
      (fenceStep [fence] part.text = [] → ∀ behind ∈ parts.head?, fenceOpen behind.text ≠ none)
  | _, _ => False

/-! ## The pieces are the blocks -/

section
variable {isDecimal : Char → Bool}

theorem take_of_append {taken rest lines : List Str} (h : taken ++ rest = lines) :
    lines.take (lines.length - rest.length) = taken := by
  rw [← h, List.length_append, Nat.add_sub_cancel, List.take_left]

theorem scanPieces_blocks : ∀ (fuel : Nat) (lines : List Str),
    (scanPieces isDecimal fuel lines).filterMap Prod.fst = scanLoop isDecimal fuel lines
  | 0, [] => rfl
  | 0, _ :: _ => rfl
  | _ + 1, [] => rfl
  | fuel + 1, line :: lines => by
    unfold scanPieces scanLoop
    split
    · exact scanPieces_blocks fuel lines
    · exact congrArg (_ :: ·) (scanPieces_blocks fuel _)

/-- The pieces are the lines, and a block's text is made of its own. -/
theorem scanPieces_lines : ∀ (fuel : Nat) (lines : List Str), lines.length ≤ fuel →
    (scanPieces isDecimal fuel lines).flatMap Prod.snd = lines ∧
      ∀ b taken, (some b, taken) ∈ scanPieces isDecimal fuel lines → b.text = join "\n" taken
  | 0, [], _ => ⟨rfl, by simp [scanPieces]⟩
  | _ + 1, [], _ => ⟨rfl, by simp [scanPieces]⟩
  | fuel + 1, line :: lines, h => by
    have hl : lines.length ≤ fuel := Nat.le_of_succ_le_succ h
    unfold scanPieces
    split
    · obtain ⟨hlines, htext⟩ := scanPieces_lines fuel lines hl
      refine ⟨congrArg (line :: ·) hlines, fun b taken hm => ?_⟩
      rcases List.mem_cons.mp hm with hm | hm
      · cases hm
      · exact htext b taken hm
    · obtain ⟨taken, happend, hblock⟩ := @nextBlock_append isDecimal line lines
      have hrest := (@nextBlock_length isDecimal line lines).trans hl
      obtain ⟨hlines, htext⟩ := scanPieces_lines fuel _ hrest
      dsimp only
      rw [take_of_append happend]
      refine ⟨?_, fun b taken' hm => ?_⟩
      · rw [List.flatMap_cons, hlines]
        exact congrArg (line :: ·) happend
      · rcases List.mem_cons.mp hm with hm | hm
        · cases hm
          exact hblock
        · exact htext b taken' hm

end

/-! ## Single lines -/

theorem fenceOpen_eq (line : Str) : fenceOpen line = fenceRun line := by cases line <;> rfl

theorem fenceOpen_some {line : Str} {fence : Fence} (h : fenceOpen line = some fence) :
    fence.Valid ∧ ∃ rest, line = fence.1 :: rest := CommonMark.fenceRun_some (fenceOpen_eq line ▸ h)

theorem fenceOpen_blank {line : Str} (h : ∀ c ∈ line, isSpace c = true) :
    fenceOpen line = none := by
  cases hf : fenceOpen line with
  | none => rfl
  | some fence =>
    obtain ⟨hv, rest, rfl⟩ := fenceOpen_some hf
    have hc := h fence.1 List.mem_cons_self
    rw [hv.not_space] at hc
    cases hc

theorem drop_run (c : Char) (s : Str) :
    s.drop (s.takeWhile (· == c)).length = s.dropWhile (· == c) := by
  have h : (s.takeWhile (· == c) ++ s.dropWhile (· == c)).drop (s.takeWhile (· == c)).length =
      s.dropWhile (· == c) := List.drop_left
  rwa [List.takeWhile_append_dropWhile] at h

/-- Stripping takes the spaces before a fence, and no more. -/
theorem lstrip_of_dedent {line rest : Str} {c : Char} (hd : dedent line = some (c :: rest))
    (hc : isSpace c = false) : lstrip line = c :: rest := by
  have hdrop := CommonMark.dedent_some hd
  have hline := List.takeWhile_append_dropWhile (p := (· == ' ')) (l := line)
  rw [lstrip, ← hline, hdrop, List.dropWhile_append_of_pos, List.dropWhile_cons_of_neg]
  · simp [hc]
  · intro d hm
    rw [beq_iff_eq.mp (List.mem_takeWhile_imp (p := (· == ' ')) hm)]
    rfl

/-- What CommonMark takes as the closing fence, the scanner does. -/
theorem fenceStep_closer {fence : Fence} {line : Str} (hv : fence.Valid)
    (h : closer fence line = true) : fenceStep [fence] line = [] := by
  have hspace := hv.not_space
  obtain ⟨c, n⟩ := fence
  obtain ⟨hchar, hthree⟩ := hv
  unfold closer at h
  split at h
  · cases h
  rename_i rest hd
  obtain ⟨hlen, hall⟩ := Bool.and_eq_true_iff.mp h
  rw [decide_eq_true_eq] at hlen
  dsimp only at hspace hchar hthree hlen hall
  obtain ⟨tail, rfl⟩ : ∃ tail, rest = c :: tail := by
    cases rest with
    | nil => simp at hlen; omega
    | cons d tail =>
      by_cases hdc : d = c
      · exact ⟨tail, by rw [hdc]⟩
      · simp [hdc] at hlen
        omega
  have hopen : fenceOpen (c :: tail) = some (c, ((c :: tail).takeWhile (· == c)).length) := by
    rw [fenceOpen]
    exact if_pos ⟨hchar, hthree.trans hlen⟩
  have hinfo : strip ((c :: tail).drop ((c :: tail).takeWhile (· == c)).length) = [] := by
    rw [drop_run]
    exact strip_eq_nil.mpr (List.all_eq_true.mp hall)
  unfold fenceStep
  rw [lstrip_of_dedent hd hspace, hopen]
  dsimp only
  rw [if_pos rfl, hinfo, if_neg (by simp), if_pos hlen]

/-! ## Single parts -/

/-- A blank part opens no block. -/
theorem next_blank {part : Part} (h : strip part.text = []) : part.next none = none := by
  unfold Part.next
  split
  · rename_i l hl
    exact part.opener_blank hl h
  · rfl

/-- A fence that both take for an opening one is the same. -/
theorem next_run {part : Part} {fence open' : Fence} (hscan : fenceOpen part.text = some fence)
    (h : part.next none = some open') : open' = fence := by
  unfold Part.next at h
  split at h
  · rename_i l hl
    exact part.opener_run hl (fenceOpen_eq part.text ▸ hscan) h
  · cases h

/-- A block goes on behind a part, or is closed for the scanner too. -/
theorem next_open (part : Part) {fence : Fence} (hv : fence.Valid) :
    part.next (some fence) = some fence ∨
      part.next (some fence) = none ∧ fenceStep [fence] part.text = [] := by
  unfold Part.next
  split
  · rename_i l hl
    unfold CommonMark.next
    dsimp only
    split
    · rename_i hclose
      exact .inr ⟨rfl, fenceStep_closer hv (part.closer_text hl hv hclose)⟩
    · exact .inl rfl
  · exact .inl rfl

/-! ## Code blocks from open fences -/

section
variable {isDecimal : Char → Bool}

def isOpen (stack : List Fence) : Bool := !stack.isEmpty

/-- The lines before or after which a fence is open. -/
def inside (before : Bool) : List Bool → List Bool
  | [] => []
  | after :: states => (before || after) :: inside after states

theorem marks_eq : ∀ (ps : List Part) (open? : Option Fence),
    marks open? ps = inside open?.isSome ((fencesAfter open? ps).map Option.isSome)
  | [], _ => rfl
  | _ :: ps, _ => congrArg (_ :: ·) (marks_eq ps _)

theorem inside_closed : ∀ (n : Nat) (states : List Bool),
    inside false (List.replicate n false ++ states) = List.replicate n false ++ inside false states
  | 0, _ => rfl
  | n + 1, states => congrArg (false :: ·) (inside_closed n states)

theorem fenceBody_cons {stack : List Fence} (h : stack ≠ []) (line : Str) (lines : List Str) :
    fenceBody stack (line :: lines) = (line :: (fenceBody (fenceStep stack line) lines).1,
      (fenceBody (fenceStep stack line) lines).2) := by
  rw [fenceBody, if_neg h]

theorem fenceStacks_cons {stack : List Fence} (h : stack ≠ []) (line : Str) (lines : List Str) :
    fenceStacks stack (line :: lines) =
      fenceStep stack line :: fenceStacks (fenceStep stack line) lines := by
  rw [fenceStacks, if_neg h]

theorem fenceBody_closed (lines : List Str) : fenceBody [] lines = ([], lines) := by
  cases lines <;> rfl

theorem fenceStacks_closed (lines : List Str) : fenceStacks [] lines = [] := by
  cases lines <;> rfl

/-- Up to its closing fence, or the end, a block is open. -/
theorem inside_fence {after : List Str → List Bool} (hafter : after [] = []) :
    ∀ (lines : List Str) (stack : List Fence), stack ≠ [] →
      inside true ((fenceStacks stack lines).map isOpen ++ after (fenceBody stack lines).2) =
        List.replicate (fenceBody stack lines).1.length true ++
          inside false (after (fenceBody stack lines).2)
  | [], stack, _ => by simp [fenceStacks, fenceBody, hafter, inside]
  | line :: lines, stack, hne => by
    rw [fenceStacks_cons hne, fenceBody_cons hne]
    dsimp only
    by_cases hclosed : fenceStep stack line = []
    · rw [hclosed, fenceBody_closed, fenceStacks_closed]
      rfl
    · have ih := inside_fence hafter lines _ hclosed
      have hopen : isOpen (fenceStep stack line) = true := by simpa [isOpen] using hclosed
      rw [List.map_cons, List.cons_append, inside, hopen, ih]
      rfl

theorem nextBlock_fence {line : Str} {fence : Fence} (h : fenceOpen line = some fence)
    (lines : List Str) : (nextBlock isDecimal line lines).2 = (fenceBody [fence] lines).2 ∧
      (nextBlock isDecimal line lines).1.kind = .code := by
  unfold nextBlock
  rw [h]
  exact ⟨rfl, rfl⟩

theorem nextBlock_code {line : Str} (h : fenceOpen line = none) (lines : List Str) :
    (nextBlock isDecimal line lines).1.kind ≠ .code := by
  unfold nextBlock
  rw [h]
  dsimp only
  split
  · simp
  · split
    · simp
    · split <;> simp

theorem fenceOpen_not_blank {line : Str} {fence : Fence} (h : fenceOpen line = some fence) :
    strip line ≠ [] := by
  intro hb
  rw [fenceOpen_blank (strip_eq_nil.mp hb)] at h
  cases h

/-- The marks of a piece. -/
def pieceMarks (piece : Option Block × List Str) : List Bool :=
  piece.2.map fun _ => piece.1.any (·.kind == .code)

theorem pieceMarks_eq (b : Block) (taken : List Str) :
    pieceMarks (some b, taken) = List.replicate taken.length (b.kind == .code) := by
  simp [pieceMarks]

/-- **The lines in the scanner's code blocks** are those before or after which it has a fence
open. -/
theorem scanPieces_marks : ∀ (fuel : Nat) (lines : List Str), lines.length ≤ fuel →
    (scanPieces isDecimal fuel lines).flatMap pieceMarks =
      inside false ((scanFences isDecimal fuel lines).map isOpen)
  | 0, [], _ => rfl
  | _ + 1, [], _ => rfl
  | fuel + 1, line :: lines, h => by
    have hl : lines.length ≤ fuel := Nat.le_of_succ_le_succ h
    have hrest := (@nextBlock_length isDecimal line lines).trans hl
    unfold scanPieces scanFences
    split
    · rw [List.flatMap_cons, scanPieces_marks fuel lines hl]
      rfl
    · obtain ⟨taken, happend, -⟩ := @nextBlock_append isDecimal line lines
      have hlength := congrArg List.length happend
      rw [List.length_append] at hlength
      dsimp only
      rw [List.flatMap_cons, scanPieces_marks fuel _ hrest, take_of_append happend, pieceMarks_eq]
      cases hf : fenceOpen line with
      | some fence =>
        obtain ⟨hnext, hkind⟩ := @nextBlock_fence isDecimal _ _ hf lines
        have hbody := congrArg List.length (fenceBody_append lines [fence])
        rw [List.length_append] at hbody
        have htaken : taken.length = (fenceBody [fence] lines).1.length := by
          rw [hnext] at hlength
          omega
        have hafter : (scanFences isDecimal fuel []).map isOpen = [] := by
          cases fuel <;> rfl
        have hblock := @inside_fence (fun rest => (scanFences isDecimal fuel rest).map isOpen)
          hafter lines [fence] (List.cons_ne_nil _ _)
        dsimp only at hblock ⊢
        rw [hkind, hnext, List.map_cons, List.map_append, inside,
          show isOpen [fence] = true from rfl, hblock, List.length_cons, htaken]
        rfl
      | none =>
        have hkind : ((nextBlock isDecimal line lines).1.kind == .code) = false := by
          simpa using nextBlock_code hf lines
        have htaken : lines.length - (nextBlock isDecimal line lines).2.length + 1 =
            (line :: taken).length := by
          rw [List.length_cons]
          omega
        dsimp only
        rw [hkind, htaken, List.map_append, List.map_replicate, show isOpen [] = false from rfl,
          inside_closed]

/-! ## The scan behind open fences -/

/-- The stacks after the lines of the block that is open, and after the lines behind it. -/
def resume (isDecimal : Char → Bool) (fuel : Nat) (lines : List Str) (stack : List Fence) :
    List (List Fence) :=
  fenceStacks stack lines ++ scanFences isDecimal fuel (fenceBody stack lines).2

theorem scanFences_nil (fuel : Nat) : scanFences isDecimal fuel [] = [] := by cases fuel <;> rfl

theorem resume_nil (fuel : Nat) (stack : List Fence) : resume isDecimal fuel [] stack = [] := by
  rw [resume, fenceStacks, fenceBody, scanFences_nil]
  rfl

theorem resume_closed (fuel : Nat) (lines : List Str) :
    resume isDecimal fuel lines [] = scanFences isDecimal fuel lines := by
  rw [resume, fenceStacks_closed, fenceBody_closed]
  rfl

theorem resume_open {stack : List Fence} (h : stack ≠ []) (fuel : Nat) (line : Str)
    (lines : List Str) : resume isDecimal fuel (line :: lines) stack =
      fenceStep stack line :: resume isDecimal fuel lines (fenceStep stack line) := by
  rw [resume, fenceStacks_cons h, fenceBody_cons h]
  rfl

theorem resume_blank {line : Str} {lines : List Str} (fuel : Nat) (h : strip line = []) :
    resume isDecimal (fuel + 1) (line :: lines) [] = [] :: resume isDecimal fuel lines [] := by
  rw [resume_closed, resume_closed, scanFences, if_pos h]

theorem resume_fence {line : Str} {lines : List Str} {fence : Fence} (fuel : Nat)
    (h : fenceOpen line = some fence) : resume isDecimal (fuel + 1) (line :: lines) [] =
      [fence] :: resume isDecimal fuel lines [fence] := by
  rw [resume_closed, scanFences, if_neg (fenceOpen_not_blank h), h]
  dsimp only
  rw [(nextBlock_fence h lines).1]
  rfl

theorem resume_text {line : Str} {lines taken : List Str} (fuel : Nat) (hblank : strip line ≠ [])
    (h : fenceOpen line = none) (htaken : taken ++ (nextBlock isDecimal line lines).2 = lines) :
    resume isDecimal (fuel + 1) (line :: lines) [] = List.replicate (line :: taken).length [] ++
      resume isDecimal fuel (nextBlock isDecimal line lines).2 [] := by
  have hlength := congrArg List.length htaken
  rw [List.length_append] at hlength
  have hn : lines.length - (nextBlock isDecimal line lines).2.length + 1 =
      (line :: taken).length := by
    rw [List.length_cons]
    omega
  rw [resume_closed, resume_closed, scanFences, if_neg hblank, h, ← hn]

/-! ## The same fences -/

/-- The fences that CommonMark has open, as stacks. -/
def markStacks (open? : Option Fence) (ps : List Part) : List (List Fence) :=
  (fencesAfter open? ps).map Option.toList

theorem markStacks_cons (open? : Option Fence) (part : Part) (ps : List Part) :
    markStacks open? (part :: ps) =
      (part.next open?).toList :: markStacks (part.next open?) ps := rfl

/-- No fence is open after these parts exactly when none of them opens one. -/
theorem replicate_eq_markStacks {rest : List Part} {states : List (List Fence)} :
    ∀ {taken : List Part},
      List.replicate taken.length [] ++ states = markStacks none (taken ++ rest) ↔
        (∀ p ∈ taken, p.next none = none) ∧ states = markStacks none rest
  | [] => by simp
  | part :: taken => by
    rw [List.cons_append, markStacks_cons, List.length_cons, List.replicate_succ, List.cons_append,
      List.cons.injEq, List.forall_mem_cons, and_assoc]
    cases hc : part.next none with
    | none => simp [replicate_eq_markStacks]
    | some fence => simp

/-- The fence that is open is one the scanner knows. -/
def ValidOpen (open? : Option Fence) : Prop := ∀ fence ∈ open?, fence.Valid

theorem validOpen_none : ValidOpen none := fun _ h => nomatch h

theorem validOpen_of_fenceOpen {line : Str} {fence : Fence} (h : fenceOpen line = some fence) :
    ValidOpen (some fence) := fun _ he => Option.some.inj he ▸ (fenceOpen_some h).1

theorem exists_fuel {part : Part} {ps : List Part} {fuel : Nat}
    (h : (part :: ps).length ≤ fuel) : ∃ fuel', fuel = fuel' + 1 ∧ ps.length ≤ fuel' := by
  cases fuel with
  | zero => cases h
  | succ fuel => exact ⟨fuel, rfl, Nat.le_of_succ_le_succ h⟩

/-- What the scan of a text block takes, in parts. -/
theorem exists_taken (part : Part) (ps : List Part) : ∃ taken rest, taken ++ rest = ps ∧
    (nextBlock isDecimal part.text (ps.map (·.text))).2 = rest.map (·.text) := by
  obtain ⟨taken, happend, -⟩ := @nextBlock_append isDecimal part.text (ps.map (·.text))
  obtain ⟨taken', rest, hps, -, hrest⟩ := List.map_eq_append_iff.mp happend.symm
  exact ⟨taken', rest, hps.symm, hrest.symm⟩

/-- The scan behind a text block. -/
theorem resume_parts {part : Part} {ps taken rest : List Part} (fuel : Nat)
    (hblank : strip part.text ≠ []) (hscan : fenceOpen part.text = none)
    (hps : taken ++ rest = ps)
    (htaken : (nextBlock isDecimal part.text (ps.map (·.text))).2 = rest.map (·.text)) :
    resume isDecimal (fuel + 1) ((part :: ps).map (·.text)) [] =
      List.replicate (part :: taken).length [] ++
        resume isDecimal fuel (rest.map (·.text)) [] := by
  have happend : taken.map (·.text) ++ (nextBlock isDecimal part.text (ps.map (·.text))).2 =
      ps.map (·.text) := by rw [htaken, ← hps, List.map_append]
  rw [List.map_cons, resume_text fuel hblank hscan happend, htaken]
  simp

/-- Where the scanner takes for a fence what CommonMark does, the two have the same fences open. -/
theorem WellFenced.resume_eq {open? : Option Fence} {ps : List Part}
    (h : WellFenced isDecimal open? ps) : ∀ {fuel : Nat}, ps.length ≤ fuel → ValidOpen open? →
      resume isDecimal fuel (ps.map (·.text)) open?.toList = markStacks open? ps := by
  induction h with
  | stop h =>
    intro fuel _ _
    rw [h]
    exact resume_nil fuel _
  | blank hblank _ ih =>
    intro fuel hf hv
    obtain ⟨fuel, rfl, hfuel⟩ := exists_fuel hf
    rw [Option.toList_none, List.map_cons, resume_blank fuel hblank, markStacks_cons,
      next_blank hblank, ← ih hfuel hv]
    rfl
  | fence hscan hmark _ ih =>
    intro fuel hf _
    obtain ⟨fuel, rfl, hfuel⟩ := exists_fuel hf
    rw [Option.toList_none, List.map_cons, resume_fence fuel hscan, markStacks_cons, hmark,
      ← ih hfuel (validOpen_of_fenceOpen hscan)]
    rfl
  | @text part ps taken rest hblank hscan hps htaken hmark _ ih =>
    intro fuel hf hv
    obtain ⟨fuel, rfl, hfuel⟩ := exists_fuel hf
    have hlength : rest.length ≤ ps.length := by simp [← hps]
    rw [Option.toList_none, resume_parts fuel hblank hscan hps htaken]
    conv_rhs => rw [← hps]
    exact replicate_eq_markStacks.mpr ⟨hmark, ih (hlength.trans hfuel) hv⟩
  | @close part ps fence hmark _ ih =>
    intro fuel hf hv
    obtain ⟨-, hstep⟩ := (next_open part (hv _ rfl)).resolve_left (by simp [hmark])
    rw [Option.toList_some, List.map_cons, resume_open (List.cons_ne_nil _ _), hstep,
      markStacks_cons, hmark, ← ih ((Nat.le_succ _).trans hf) validOpen_none]
    rfl
  | content hmark hscan _ ih =>
    intro fuel hf hv
    rw [Option.toList_some, List.map_cons, resume_open (List.cons_ne_nil _ _), hscan,
      markStacks_cons, hmark, ← ih ((Nat.le_succ _).trans hf) hv]
    rfl

/-- Where the two have the same fences open, the scanner takes for a fence what CommonMark does. -/
theorem wellFenced_of_resume : ∀ (n : Nat) {ps : List Part} {open? : Option Fence} {fuel : Nat},
    ps.length ≤ n → ps.length ≤ fuel → ValidOpen open? →
    resume isDecimal fuel (ps.map (·.text)) open?.toList = markStacks open? ps →
    WellFenced isDecimal open? ps
  | 0, [], _, _, _, _, _, _ => .stop rfl
  | _ + 1, [], _, _, _, _, _, _ => .stop rfl
  | n + 1, part :: ps, none, fuel, hn, hf, hv, h => by
    obtain ⟨fuel, rfl, hfuel⟩ := exists_fuel hf
    have hn := Nat.le_of_succ_le_succ hn
    rw [Option.toList_none] at h
    by_cases hblank : strip part.text = []
    · rw [List.map_cons, resume_blank fuel hblank, markStacks_cons, next_blank hblank] at h
      exact .blank hblank (wellFenced_of_resume n hn hfuel hv (List.cons.inj h).2)
    · cases hscan : fenceOpen part.text with
      | some fence =>
        rw [List.map_cons, resume_fence fuel hscan, markStacks_cons] at h
        obtain ⟨hhead, htail⟩ := List.cons.inj h
        have hmark : part.next none = some fence := by
          cases hc : part.next none with
          | none => simp [hc] at hhead
          | some open' => simpa [hc, eq_comm] using hhead
        rw [hmark] at htail
        exact .fence hscan hmark
          (wellFenced_of_resume n hn hfuel (validOpen_of_fenceOpen hscan) htail)
      | none =>
        obtain ⟨taken, rest, hps, htaken⟩ := @exists_taken isDecimal part ps
        have hlength : rest.length ≤ ps.length := by simp [← hps]
        rw [resume_parts fuel hblank hscan hps htaken] at h
        conv_rhs at h => rw [← hps]
        obtain ⟨hmark, hrest⟩ := replicate_eq_markStacks.mp h
        exact .text hblank hscan hps htaken hmark
          (wellFenced_of_resume n (hlength.trans hn) (hlength.trans hfuel) hv hrest)
  | n + 1, part :: ps, some fence, fuel, hn, hf, hv, h => by
    have hn := Nat.le_of_succ_le_succ hn
    have hf := (Nat.le_succ _).trans hf
    rw [Option.toList_some, List.map_cons, resume_open (List.cons_ne_nil _ _), markStacks_cons] at h
    obtain ⟨hhead, htail⟩ := List.cons.inj h
    rcases next_open part (hv _ rfl) with hmark | ⟨hmark, hstep⟩
    · rw [hmark] at hhead htail
      have hscan : fenceStep [fence] part.text = [fence] := hhead
      rw [hscan] at htail
      exact .content hmark hscan (wellFenced_of_resume n hn hf hv htail)
    · rw [hstep, hmark] at htail
      exact .close hmark (wellFenced_of_resume n hn hf validOpen_none htail)

/-! ## The same lines -/

/-- The lines in the scanner's code blocks, from this stack on. -/
def resumeMarks (isDecimal : Char → Bool) (fuel : Nat) (lines : List Str) (stack : List Fence) :
    List Bool :=
  inside (isOpen stack) ((resume isDecimal fuel lines stack).map isOpen)

theorem resumeMarks_open {stack : List Fence} (h : stack ≠ []) (fuel : Nat) (line : Str)
    (lines : List Str) : resumeMarks isDecimal fuel (line :: lines) stack =
      true :: resumeMarks isDecimal fuel lines (fenceStep stack line) := by
  obtain ⟨fence, stack, rfl⟩ := List.exists_cons_of_ne_nil h
  rw [resumeMarks, resume_open h]
  rfl

theorem resumeMarks_blank {line : Str} {lines : List Str} (fuel : Nat) (h : strip line = []) :
    resumeMarks isDecimal (fuel + 1) (line :: lines) [] =
      false :: resumeMarks isDecimal fuel lines [] := by
  rw [resumeMarks, resume_blank fuel h]
  rfl

theorem resumeMarks_fence {line : Str} {lines : List Str} {fence : Fence} (fuel : Nat)
    (h : fenceOpen line = some fence) : resumeMarks isDecimal (fuel + 1) (line :: lines) [] =
      true :: resumeMarks isDecimal fuel lines [fence] := by
  rw [resumeMarks, resume_fence fuel h]
  rfl

theorem resumeMarks_parts {part : Part} {ps taken rest : List Part} (fuel : Nat)
    (hblank : strip part.text ≠ []) (hscan : fenceOpen part.text = none)
    (hps : taken ++ rest = ps)
    (htaken : (nextBlock isDecimal part.text (ps.map (·.text))).2 = rest.map (·.text)) :
    resumeMarks isDecimal (fuel + 1) ((part :: ps).map (·.text)) [] =
      List.replicate (part :: taken).length false ++
        resumeMarks isDecimal fuel (rest.map (·.text)) [] := by
  rw [resumeMarks, resume_parts fuel hblank hscan hps htaken, List.map_append, List.map_replicate,
    show isOpen [] = false from rfl, inside_closed]
  rfl

/-- A part is in a block of CommonMark's when a fence is open before it, or it opens one. -/
theorem marks_cons_true {open? : Option Fence} {part : Part} {ps : List Part} {ms : List Bool} :
    true :: ms = marks open? (part :: ps) ↔
      (open? = none → part.next none ≠ none) ∧ ms = marks (part.next open?) ps := by
  cases open? with
  | none => simp [marks, Option.isSome_iff_ne_none]
  | some fence => simp [marks]

theorem replicate_eq_marks {rest : List Part} {ms : List Bool} : ∀ {taken : List Part},
    List.replicate taken.length false ++ ms = marks none (taken ++ rest) ↔
      (∀ p ∈ taken, p.next none = none) ∧ ms = marks none rest
  | [] => by simp
  | part :: taken => by
    rw [List.length_cons, List.replicate_succ, List.cons_append, List.cons_append, marks,
      List.cons.injEq, List.forall_mem_cons, and_assoc]
    cases hc : part.next none with
    | none => simp [replicate_eq_marks]
    | some fence => simp

/-- Where the two put the same lines in code blocks, the first difference between the fences they
see, if any, is one that may hide. -/
theorem readsTo_of_marks : ∀ (n : Nat) {ps : List Part} {open? : Option Fence} {fuel : Nat},
    ps.length ≤ n → ps.length ≤ fuel → ValidOpen open? →
    resumeMarks isDecimal fuel (ps.map (·.text)) open?.toList = marks open? ps →
    ReadsTo isDecimal (fun open? ps => ps = [] ∨ MadeUp open? ps) open? ps
  | 0, [], _, _, _, _, _, _ => .stop (.inl rfl)
  | _ + 1, [], _, _, _, _, _, _ => .stop (.inl rfl)
  | n + 1, part :: ps, none, fuel, hn, hf, hv, h => by
    obtain ⟨fuel, rfl, hfuel⟩ := exists_fuel hf
    have hn := Nat.le_of_succ_le_succ hn
    rw [Option.toList_none] at h
    by_cases hblank : strip part.text = []
    · rw [List.map_cons, resumeMarks_blank fuel hblank, marks, next_blank hblank] at h
      exact .blank hblank (readsTo_of_marks n hn hfuel hv (List.cons.inj h).2)
    · cases hscan : fenceOpen part.text with
      | some fence =>
        rw [List.map_cons, resumeMarks_fence fuel hscan, marks_cons_true] at h
        obtain ⟨open', hmark⟩ := Option.ne_none_iff_exists'.mp (h.1 rfl)
        obtain rfl := next_run hscan hmark
        rw [hmark] at h
        exact .fence hscan hmark
          (readsTo_of_marks n hn hfuel (validOpen_of_fenceOpen hscan) h.2)
      | none =>
        obtain ⟨taken, rest, hps, htaken⟩ := @exists_taken isDecimal part ps
        have hlength : rest.length ≤ ps.length := by simp [← hps]
        rw [resumeMarks_parts fuel hblank hscan hps htaken] at h
        conv_rhs at h => rw [← hps]
        obtain ⟨hmark, hrest⟩ := replicate_eq_marks.mp h
        exact .text hblank hscan hps htaken hmark
          (readsTo_of_marks n (hlength.trans hn) (hlength.trans hfuel) hv hrest)
  | n + 1, part :: ps, some fence, fuel, hn, hf, hv, h => by
    have hn := Nat.le_of_succ_le_succ hn
    have hf := (Nat.le_succ _).trans hf
    rw [Option.toList_some, List.map_cons, resumeMarks_open (List.cons_ne_nil _ _),
      marks_cons_true] at h
    obtain ⟨-, h⟩ := h
    rcases next_open part (hv _ rfl) with hmark | ⟨hmark, hstep⟩
    · rw [hmark] at h
      by_cases hscan : fenceStep [fence] part.text = [fence]
      · rw [hscan] at h
        exact .content hmark hscan (readsTo_of_marks n hn hf hv h)
      -- the scanner goes on outside the block, and marks no line there but a fence
      refine .stop (.inr ⟨hmark, hscan, fun hclosed behind hbehind => ?_⟩)
      obtain ⟨ps, rfl⟩ := List.head?_eq_some_iff.mp hbehind
      obtain ⟨fuel, rfl, -⟩ := exists_fuel hf
      intro hnone
      rw [hclosed] at h
      by_cases hblank : strip behind.text = []
      · rw [List.map_cons, resumeMarks_blank fuel hblank] at h
        exact Bool.false_ne_true (List.cons.inj h).1
      · obtain ⟨taken, rest, hps, htaken⟩ := @exists_taken isDecimal behind ps
        rw [resumeMarks_parts fuel hblank hnone hps htaken] at h
        exact Bool.false_ne_true (List.cons.inj h).1
    · rw [hstep, hmark] at h
      exact .close hmark (readsTo_of_marks n hn hf validOpen_none h)

/-- A body is read to the end, or up to a difference that may hide. -/
theorem ReadsTo.cases_stop {Stop : Option Fence → List Part → Prop} {open? : Option Fence}
    {ps : List Part} (h : ReadsTo isDecimal (fun open? ps => ps = [] ∨ Stop open? ps) open? ps) :
    WellFenced isDecimal open? ps ∨ ReadsTo isDecimal Stop open? ps := by
  induction h with
  | stop h => exact h.imp .stop .stop
  | blank hblank _ ih => exact ih.imp (.blank hblank) (.blank hblank)
  | fence hscan hmark _ ih => exact ih.imp (.fence hscan hmark) (.fence hscan hmark)
  | text hblank hscan hps htaken hmark _ ih =>
    exact ih.imp (.text hblank hscan hps htaken hmark) (.text hblank hscan hps htaken hmark)
  | close hmark _ ih => exact ih.imp (.close hmark) (.close hmark)
  | content hmark hscan _ ih => exact ih.imp (.content hmark hscan) (.content hmark hscan)

/-- The scanner and CommonMark have the same fence open after every line of the body. -/
def SameFences (isDecimal : Char → Bool) (body : Str) : Prop :=
  scanFences isDecimal (splitlines body).length (splitlines body) = markStacks none (parts body)

/-- They put the same lines of the body in code blocks. -/
def SameMarks (isDecimal : Char → Bool) (body : Str) : Prop :=
  scanMarks isDecimal body = marks none (parts body)

theorem scanMarks_eq (body : Str) : scanMarks isDecimal body =
    resumeMarks isDecimal (parts body).length ((parts body).map (·.text)) [] := by
  have hmarks : scanMarks isDecimal body = _ := scanPieces_marks _ _ le_rfl
  have hlength : (splitlines body).length = (parts body).length := by
    rw [← CommonMark.parts_text, List.length_map]
  rw [hmarks, ← resume_closed, hlength, CommonMark.parts_text]
  rfl

theorem sameFences_iff {body : Str} :
    SameFences isDecimal body ↔ WellFenced isDecimal none (parts body) := by
  have hlength : (splitlines body).length = (parts body).length := by
    rw [← CommonMark.parts_text, List.length_map]
  rw [SameFences, ← resume_closed, hlength, ← CommonMark.parts_text]
  exact ⟨wellFenced_of_resume _ le_rfl le_rfl validOpen_none,
    fun h => h.resume_eq le_rfl validOpen_none⟩

theorem SameFences.marks {body : Str} (h : SameFences isDecimal body) :
    SameMarks isDecimal body := by
  have hopen : (markStacks none (parts body)).map isOpen =
      (fencesAfter none (parts body)).map Option.isSome := by
    rw [markStacks, List.map_map]
    refine List.map_congr_left fun open? _ => ?_
    cases open? <;> rfl
  have hmarks : scanMarks isDecimal body = _ := scanPieces_marks _ _ le_rfl
  rw [SameMarks, hmarks, h, hopen, marks_eq]
  rfl

theorem SameMarks.wellFenced {body : Str} (h : SameMarks isDecimal body) :
    WellFenced isDecimal none (parts body) ∨ ReadsTo isDecimal MadeUp none (parts body) := by
  rw [SameMarks, scanMarks_eq] at h
  exact (readsTo_of_marks _ le_rfl le_rfl validOpen_none h).cases_stop

end

/-- A code block of CommonMark's, with both fences indented by two spaces. -/
def indentedFences : Str := "  ```\n# not a heading\n  ```"

end KnowledgeKiln.L1.Chunking
