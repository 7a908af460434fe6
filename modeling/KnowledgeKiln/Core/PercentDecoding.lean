import KnowledgeKiln.Core.FormUrlencoded

/-!
# `urllib.parse.unquote`

Percent-encoded bytes are decoded as UTF-8; bytes that are not UTF-8 are read as
`bytes.decode("utf-8", "replace")` reads them, one U+FFFD for each maximal part of a
character (Unicode, Table 3-7).

* `unquote_length`: decoding never lengthens a text.
* `unquote_length_lt`: a percent-encoded byte shortens it.
* `unquote_of_noEscape`: a text without one is its own decoding.
* `unquote_eq_self_iff`: so these are the texts that `unquote` keeps.
-/
namespace KnowledgeKiln.Core.Percent

open FormUrlencoded

/-! ## UTF-8 with replacement -/

def replacement : Char := Char.ofNat 0xFFFD

def continuation : Nat × Nat := (0x80, 0xBF)

/-- After a leading byte: what is written at once, the bits read, and the ranges of the bytes that
have to follow. -/
def leadByte (b : Nat) : Str × Nat × List (Nat × Nat) :=
  if b < 0x80 then ([Char.ofNat b], 0, [])
  else if 0xC2 ≤ b ∧ b ≤ 0xDF then ([], b - 0xC0, [continuation])
  else if b = 0xE0 then ([], 0, [(0xA0, 0xBF), continuation])
  else if b = 0xED then ([], 0xD, [(0x80, 0x9F), continuation])
  else if 0xE1 ≤ b ∧ b ≤ 0xEF then ([], b - 0xE0, [continuation, continuation])
  else if b = 0xF0 then ([], 0, [(0x90, 0xBF), continuation, continuation])
  else if b = 0xF4 then ([], 4, [(0x80, 0x8F), continuation, continuation])
  else if 0xF1 ≤ b ∧ b ≤ 0xF3 then ([], b - 0xF0, [continuation, continuation, continuation])
  else ([replacement], 0, [])

/-- After any byte; one that does not continue the character begins the next one. -/
def nextByte (code : Nat) (more : List (Nat × Nat)) (b : Nat) : Str × Nat × List (Nat × Nat) :=
  match more with
  | [] => leadByte b
  | (lo, hi) :: more =>
    if lo ≤ b ∧ b ≤ hi then
      let code := 64 * code + (b - 0x80)
      if more = [] then ([Char.ofNat code], 0, []) else ([], code, more)
    else
      let (out, code, more) := leadByte b
      (replacement :: out, code, more)

/-- `bs.decode("utf-8", "replace")`, in the middle of a character. -/
def decodeReplace (code : Nat) (more : List (Nat × Nat)) : List UInt8 → Str
  | [] => if more = [] then [] else [replacement]
  | b :: bs =>
    let (out, code, more) := nextByte code more b.toNat
    out ++ decodeReplace code more bs

example : decodeReplace 0 [] [0xE2, 0x82, 0xAC, 0xE2, 0x82, 0x41] = "€\uFFFDA".toList := by
  decide

/-- A character that has begun is still to be written. -/
def owed (more : List (Nat × Nat)) : Nat := if more = [] then 0 else 1

theorem leadByte_length (b : Nat) : (leadByte b).1.length + owed (leadByte b).2.2 ≤ 1 := by
  unfold leadByte
  split_ifs <;> exact Nat.le_refl 1

theorem nextByte_length (code : Nat) (more : List (Nat × Nat)) (b : Nat) :
    (nextByte code more b).1.length + owed (nextByte code more b).2.2 ≤ owed more + 1 := by
  have hlead := leadByte_length b
  cases more with
  | nil =>
    show (leadByte b).1.length + owed (leadByte b).2.2 ≤ 0 + 1
    omega
  | cons range more =>
    have howed : owed (range :: more) = 1 := rfl
    rw [howed]
    by_cases hin : range.1 ≤ b ∧ b ≤ range.2
    · unfold nextByte
      by_cases hmore : more = []
      · simp [hin, hmore, owed]
      · simp [hin, hmore, owed]
    · have hout : (nextByte code (range :: more) b) =
          (replacement :: (leadByte b).1, (leadByte b).2) := if_neg hin
      rw [hout, List.length_cons]
      show (leadByte b).1.length + 1 + owed (leadByte b).2.2 ≤ 1 + 1
      omega

theorem decodeReplace_length : ∀ (bs : List UInt8) (code : Nat) (more : List (Nat × Nat)),
    (decodeReplace code more bs).length ≤ owed more + bs.length
  | [], code, more => by
    unfold decodeReplace owed
    split <;> simp
  | b :: bs, code, more => by
    have hbyte := nextByte_length code more b.toNat
    have hrest := decodeReplace_length bs (nextByte code more b.toNat).2.1
      (nextByte code more b.toNat).2.2
    have hout : decodeReplace code more (b :: bs) = (nextByte code more b.toNat).1 ++
        decodeReplace (nextByte code more b.toNat).2.1 (nextByte code more b.toNat).2.2 bs := rfl
    rw [hout, List.length_append, List.length_cons]
    omega

/-! ## Percent-encoded bytes -/

/-- `unquote(s)` -/
def unquote (s : Str) : Str := unquoteFrom (decodeReplace 0 []) [] s

/-- A percent sign followed by two hexadecimal digits. -/
def hasEscape : Str → Bool
  | '%' :: a :: b :: s => (hexValue a).isSome && (hexValue b).isSome || hasEscape (a :: b :: s)
  | _ :: s => hasEscape s
  | [] => false

theorem utf8_length (s : Str) : s.length ≤ (utf8 s).length := by
  induction s with
  | nil => exact Nat.le_refl 0
  | cons c s ih =>
    have hpos := c.utf8Size_pos
    have hc : (utf8 (c :: s)).length = c.utf8Size + (utf8 s).length := by
      simp [utf8]
    rw [hc, List.length_cons]
    omega

theorem decodeRun_length (run : List UInt8) :
    (decodeRun (decodeReplace 0 []) run).length ≤ run.length := by
  unfold decodeRun
  cases hd : run.toByteArray.utf8Decode? with
  | none => simpa [owed] using decodeReplace_length run 0 []
  | some chars =>
    have hsome : run.toByteArray.utf8Decode?.isSome := by rw [hd]; rfl
    have hback : (utf8 chars.toList).toByteArray = run.toByteArray := by
      have h := @ByteArray.utf8Encode_get_utf8Decode? run.toByteArray hsome
      simp only [hd, Option.get_some] at h
      exact h
    have hlen : (utf8 chars.toList).length = run.length := by
      simpa using congrArg ByteArray.size hback
    rw [← hlen]
    exact utf8_length chars.toList

theorem hasEscape_percent {a b : Char} (s : Str) {x y : Nat} (hx : hexValue a = some x)
    (hy : hexValue b = some y) : hasEscape ('%' :: a :: b :: s) = true := by
  simp [hasEscape, hx, hy]

theorem hasEscape_cons {c : Char} {s : Str}
    (h : ∀ a b t x y, c :: s = '%' :: a :: b :: t → hexValue a = some x → hexValue b = some y →
      False) : hasEscape (c :: s) = hasEscape s := by
  rw [hasEscape.eq_def (c :: s)]
  split
  · rename_i a b t he
    cases ha : hexValue a with
    | none =>
      cases he
      rfl
    | some x =>
      cases hb : hexValue b with
      | none =>
        cases he
        rfl
      | some y => exact (h a b t x y he ha hb).elim
  · rename_i he
    cases he
    rfl
  · rename_i he
    cases he

/-- The text that is left behind a run of ASCII characters and percent-encoded bytes. -/
theorem unquoteFrom_length (run : List UInt8) (s : Str) :
    (unquoteFrom (decodeReplace 0 []) run s).length +
      (if hasEscape s = true then 1 else 0) ≤ run.length + s.length := by
  fun_induction unquoteFrom (decodeReplace 0 []) run s with
  | case1 run => simpa [hasEscape] using decodeRun_length run
  | case2 run a b s x y hy hx ih =>
    rw [hasEscape_percent s hx hy, if_pos rfl]
    simp only [List.length_append, List.length_cons, List.length_nil] at ih ⊢
    omega
  | case3 run a b s hno ih =>
    have hfree : ∀ a' b' t x y, '%' :: a :: b :: s = '%' :: a' :: b' :: t →
        hexValue a' = some x → hexValue b' = some y → False := by
      rintro a' b' t x y he hx hy
      cases he
      exact hno x y hx hy
    rw [hasEscape_cons hfree]
    simp only [List.length_append, List.length_cons, List.length_nil] at ih ⊢
    omega
  | case4 run c s hc hascii ih => 
    rw [hasEscape_cons (fun a b t x y he _ _ => hc a b t (List.cons.inj he).1 (List.cons.inj he).2)]
    simp only [List.length_append, List.length_cons, List.length_nil] at ih ⊢
    omega
  | case5 run c s hc hascii ih =>
    have hrun := decodeRun_length run
    rw [hasEscape_cons (fun a b t x y he _ _ => hc a b t (List.cons.inj he).1 (List.cons.inj he).2)]
    simp only [List.length_append, List.length_cons, List.length_nil] at ih ⊢
    omega

theorem unquote_length (s : Str) : (unquote s).length ≤ s.length := by
  have h := unquoteFrom_length [] s
  rw [List.length_nil, Nat.zero_add] at h
  exact (Nat.le_add_right _ _).trans h

theorem unquote_length_lt {s : Str} (hs : hasEscape s = true) : (unquote s).length < s.length := by
  have h := unquoteFrom_length [] s
  rwa [if_pos hs, List.length_nil, Nat.zero_add] at h

theorem utf8_ascii (before : Str) {c : Char} (hc : c.toNat < 128) :
    utf8 (before ++ [c]) = utf8 before ++ [UInt8.ofNat c.toNat] := by
  have hsize : c.utf8Size = 1 := Char.utf8Size_eq_one_iff.mpr (by
    rw [UInt32.le_iff_toNat_le]
    exact Nat.le_of_lt_succ hc)
  have hone : String.utf8EncodeChar c = [UInt8.ofNat c.toNat] :=
    String.utf8EncodeChar_eq_singleton hsize
  simp [utf8, hone]

/-- `before` has been read and is in the run. -/
theorem unquoteFrom_of_noEscape {replace : List UInt8 → Str} (before s : Str)
    (hs : hasEscape s = false) : unquoteFrom replace (utf8 before) s = before ++ s := by
  generalize hrun : utf8 before = run
  fun_induction unquoteFrom replace run s generalizing before with
  | case1 run => rw [← hrun, decodeRun_utf8, List.append_nil]
  | case2 run a b s x y hy hx ih =>
    rw [hasEscape_percent s hx hy] at hs
    cases hs
  | case3 run a b s hno ih =>
    have hfree : ∀ a' b' t x y, '%' :: a :: b :: s = '%' :: a' :: b' :: t →
        hexValue a' = some x → hexValue b' = some y → False := by
      rintro a' b' t x y he hx hy
      cases he
      exact hno x y hx hy
    rw [hasEscape_cons hfree] at hs
    rw [ih (before ++ ['%']) hs (by rw [utf8_ascii before (by decide), hrun]; rfl)]
    simp
  | case4 run c s hc hascii ih =>
    rw [hasEscape_cons (fun a b t x y he _ _ => hc a b t (List.cons.inj he).1 (List.cons.inj he).2)]
      at hs
    rw [ih (before ++ [c]) hs (by rw [utf8_ascii before hascii, hrun])]
    simp
  | case5 run c s hc hascii ih =>
    rw [hasEscape_cons (fun a b t x y he _ _ => hc a b t (List.cons.inj he).1 (List.cons.inj he).2)]
      at hs
    rw [ih [] hs rfl, ← hrun, decodeRun_utf8, List.nil_append]

theorem unquote_of_noEscape {s : Str} (hs : hasEscape s = false) : unquote s = s :=
  unquoteFrom_of_noEscape [] s hs

/-- The texts that `unquote` keeps. -/
theorem unquote_eq_self_iff {s : Str} : unquote s = s ↔ hasEscape s = false := by
  constructor
  · intro h
    by_contra hs
    have hlt := unquote_length_lt (Bool.not_eq_false _ ▸ hs)
    rw [h] at hlt
    exact Nat.lt_irrefl _ hlt
  · exact unquote_of_noEscape

end KnowledgeKiln.Core.Percent
