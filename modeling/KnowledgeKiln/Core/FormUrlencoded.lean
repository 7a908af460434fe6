import KnowledgeKiln.Core.Url

/-!
# `application/x-www-form-urlencoded`

`serialize` is `URLSearchParams.toString()`: names and values as UTF-8, every byte
but the ASCII letters, digits and `*-._` percent-encoded, a blank as `+`.
`parseQsl` is `parse_qsl(qs, keep_blank_values=True)`, which a server reads a
query string with.

* `not_mem_serialize`: what is written has no `#` in it, so it may stand in a URL.
* `parseQsl_serialize`: what is written is read back, whatever the pairs.
-/
namespace KnowledgeKiln.Core.FormUrlencoded

/-! ## Writing -/

def hexDigits : Str := "0123456789ABCDEF"

def hexDigit (n : Nat) : Char := hexDigits.getD n '0'

/-- The characters that stand for themselves. -/
def isSafe (c : Char) : Bool := c.isAlphanum || c == '*' || c == '-' || c == '.' || c == '_'

def encodeByte (b : UInt8) : Str :=
  let c := Char.ofNat b.toNat
  if c = ' ' then ['+']
  else if isSafe c then [c]
  else ['%', hexDigit (b.toNat / 16), hexDigit (b.toNat % 16)]

def utf8 (s : Str) : List UInt8 := s.flatMap String.utf8EncodeChar

def encode (s : Str) : Str := (utf8 s).flatMap encodeByte

def pair (p : Str × Str) : Str := encode p.1 ++ '=' :: encode p.2

/-- `params.toString()` -/
def serialize (params : List (Str × Str)) : Str := join "&" (params.map pair)

/-! ## Reading -/

def hexValue (c : Char) : Option Nat :=
  if '0' ≤ c ∧ c ≤ '9' then some (c.toNat - 48)
  else if 'A' ≤ c ∧ c ≤ 'F' then some (c.toNat - 55)
  else if 'a' ≤ c ∧ c ≤ 'f' then some (c.toNat - 87)
  else none

/-- `run.decode("utf-8", "replace")`; `replace` is the text of bytes that are not UTF-8. -/
def decodeRun (replace : List UInt8 → Str) (run : List UInt8) : Str :=
  match run.toByteArray.utf8Decode? with
  | some chars => chars.toList
  | none => replace run

/-- `unquote(s)`; `run` is what has been read of an ASCII run. -/
def unquoteFrom (replace : List UInt8 → Str) (run : List UInt8) : Str → Str
  | [] => decodeRun replace run
  | '%' :: a :: b :: s =>
    match hexValue a, hexValue b with
    | some x, some y => unquoteFrom replace (run ++ [UInt8.ofNat (16 * x + y)]) s
    | _, _ => unquoteFrom replace (run ++ [37]) (a :: b :: s)
  | c :: s =>
    if c.toNat < 128 then unquoteFrom replace (run ++ [UInt8.ofNat c.toNat]) s
    else decodeRun replace run ++ c :: unquoteFrom replace [] s

/-- `unquote(s.replace("+", " "))` -/
def unquotePlus (replace : List UInt8 → Str) (s : Str) : Str :=
  unquoteFrom replace [] (s.map fun c => if c = '+' then ' ' else c)

def parsePair (replace : List UInt8 → Str) (nameValue : Str) : Str × Str :=
  let (name, value) := partition nameValue '='
  (unquotePlus replace name, unquotePlus replace value)

/-- `parse_qsl(qs, keep_blank_values=True)` -/
def parseQsl (replace : List UInt8 → Str) (qs : Str) : List (Str × Str) :=
  ((qs.splitOn '&').filter (· ≠ [])).map (parsePair replace)

/-! ## The alphabet of what is written -/

theorem hexDigit_safe {n : Nat} (h : n < 16) : isSafe (hexDigit n) = true := by
  interval_cases n <;> decide

theorem hexValue_hexDigit {n : Nat} (h : n < 16) : hexValue (hexDigit n) = some n := by
  interval_cases n <;> decide

theorem isSafe_lt {c : Char} (h : isSafe c = true) : c.toNat < 128 := by
  simp only [isSafe, Char.isAlphanum, Char.isAlpha, Char.isUpper, Char.isLower, Char.isDigit,
    Bool.or_eq_true, Bool.and_eq_true, decide_eq_true_eq, beq_iff_eq, UInt32.le_iff_toNat_le,
    ge_iff_le] at h
  change ((((((65 ≤ c.toNat ∧ c.toNat ≤ 90) ∨ (97 ≤ c.toNat ∧ c.toNat ≤ 122)) ∨
    (48 ≤ c.toNat ∧ c.toNat ≤ 57)) ∨ c = '*') ∨ c = '-') ∨ c = '.') ∨ c = '_' at h
  rcases h with (((((h | h) | h) | rfl) | rfl) | rfl) | rfl
  · omega
  · omega
  · omega
  all_goals decide

/-- The characters a name or a value is written with. -/
theorem encode_mem {s : Str} {c : Char} (h : c ∈ encode s) :
    isSafe c = true ∨ c = '+' ∨ c = '%' := by
  obtain ⟨b, -, hb⟩ := List.mem_flatMap.mp h
  have hlt := b.toNat_lt
  unfold encodeByte at hb
  dsimp only at hb
  split at hb
  · exact .inr (.inl (List.mem_singleton.mp hb))
  · split at hb
    · rename_i hsafe
      exact .inl (List.mem_singleton.mp hb ▸ hsafe)
    · simp only [List.mem_cons, List.not_mem_nil, or_false] at hb
      rcases hb with rfl | rfl | rfl
      · exact .inr (.inr rfl)
      · exact .inl (hexDigit_safe (by omega))
      · exact .inl (hexDigit_safe (by omega))

theorem not_mem_encode {s : Str} {c : Char} (hc : isSafe c = false) (hplus : c ≠ '+')
    (hpct : c ≠ '%') : c ∉ encode s := by
  intro h
  rcases encode_mem h with hs | hs | hs
  · rw [hc] at hs
    cases hs
  · exact hplus hs
  · exact hpct hs

/-- What is written uses no other separator, so no `#` ends it early. -/
theorem not_mem_serialize {c : Char} (hc : isSafe c = false) (hplus : c ≠ '+') (hpct : c ≠ '%')
    (heq : c ≠ '=') (hamp : c ≠ '&') : ∀ params, c ∉ serialize params
  | [] => nofun
  | [p] => by
    have hn : ∀ s, c ∉ encode s := fun s => not_mem_encode hc hplus hpct
    simp [serialize, join, pair, hn, heq]
  | p :: q :: ps => by
    have hn : ∀ s, c ∉ encode s := fun s => not_mem_encode hc hplus hpct
    have ih : c ∉ serialize (q :: ps) := not_mem_serialize hc hplus hpct heq hamp (q :: ps)
    unfold serialize join at ih ⊢
    rw [List.map_cons, List.map_cons, List.intercalate_cons_cons]
    simp only [List.mem_append, not_or]
    refine ⟨⟨?_, ?_⟩, ih⟩
    · simp [pair, hn, heq]
    · simpa using hamp

/-! ## Reading what was written -/

section
variable {replace : List UInt8 → Str}

theorem decodeRun_utf8 (s : Str) : decodeRun replace (utf8 s) = s := by
  have h : (utf8 s).toByteArray.utf8Decode? = some s.toArray := List.utf8Decode?_utf8Encode
  simp [decodeRun, h]

theorem unquoteFrom_ascii (run : List UInt8) {c : Char} (hascii : c.toNat < 128) (hpct : c ≠ '%')
    (s : Str) :
    unquoteFrom replace run (c :: s) = unquoteFrom replace (run ++ [UInt8.ofNat c.toNat]) s := by
  rw [unquoteFrom]
  · rw [if_pos hascii]
  · rintro a b t he -
    exact hpct he

theorem unquoteFrom_percent (run : List UInt8) (b : UInt8) (s : Str) :
    unquoteFrom replace run ('%' :: hexDigit (b.toNat / 16) :: hexDigit (b.toNat % 16) :: s) =
      unquoteFrom replace (run ++ [b]) s := by
  have hlt := b.toNat_lt
  have hb : UInt8.ofNat (16 * (b.toNat / 16) + b.toNat % 16) = b := by
    rw [Nat.div_add_mod, UInt8.ofNat_toNat]
  rw [unquoteFrom, hexValue_hexDigit (by omega), hexValue_hexDigit (by omega)]
  dsimp only
  rw [hb]

/-- One byte, after `+` was turned into a blank. -/
theorem unquoteFrom_encodeByte (run : List UInt8) (b : UInt8) (s : Str) :
    unquoteFrom replace run ((encodeByte b).map (fun c => if c = '+' then ' ' else c) ++ s) =
      unquoteFrom replace (run ++ [b]) s := by
  have hlt := b.toNat_lt
  have hchar : (Char.ofNat b.toNat).toNat = b.toNat := by
    rw [Char.toNat_ofNat, if_pos (.inl (by omega))]
  have hkeep : ∀ c, isSafe c = true → (if c = '+' then ' ' else c) = c := by
    intro c hc
    refine if_neg ?_
    rintro rfl
    exact absurd hc (by decide)
  unfold encodeByte
  dsimp only
  split
  · rename_i hblank
    rw [hblank] at hchar
    obtain rfl : b = 32 := UInt8.toNat_inj.mp hchar.symm
    rfl
  · split
    · rename_i hsafe
      have hpct : Char.ofNat b.toNat ≠ '%' := by
        intro he
        rw [he] at hsafe
        exact absurd hsafe (by decide)
      rw [List.map_singleton, hkeep _ hsafe, List.singleton_append,
        unquoteFrom_ascii run (isSafe_lt hsafe) hpct, hchar, UInt8.ofNat_toNat]
    · simp only [List.map_cons, List.map_nil, hkeep _ (hexDigit_safe (n := b.toNat / 16) (by omega)),
        hkeep _ (hexDigit_safe (n := b.toNat % 16) (by omega)), List.cons_append, List.nil_append]
      exact unquoteFrom_percent run b s

theorem unquoteFrom_encode (run : List UInt8) : ∀ (bs : List UInt8),
    unquoteFrom replace run ((bs.flatMap encodeByte).map fun c => if c = '+' then ' ' else c) =
      decodeRun replace (run ++ bs)
  | [] => by simp [unquoteFrom]
  | b :: bs => by
    rw [List.flatMap_cons, List.map_append, unquoteFrom_encodeByte, unquoteFrom_encode]
    simp

theorem unquotePlus_encode (s : Str) : unquotePlus replace (encode s) = s := by
  unfold unquotePlus encode
  rw [unquoteFrom_encode, List.nil_append, decodeRun_utf8]

theorem parsePair_pair (p : Str × Str) : parsePair replace (pair p) = p := by
  have heq : '=' ∉ encode p.1 := not_mem_encode (by decide) (by decide) (by decide)
  unfold parsePair pair
  rw [Url.partition_of_not_mem heq]
  simp [unquotePlus_encode]

/-- **Round trip.** Whatever was appended is read back, in order. -/
theorem parseQsl_serialize (params : List (Str × Str)) :
    parseQsl replace (serialize params) = params := by
  have hamp : ∀ l ∈ params.map pair, '&' ∉ l := by
    intro l hl
    obtain ⟨p, -, rfl⟩ := List.mem_map.mp hl
    have hn : ∀ s, '&' ∉ encode s := fun s => not_mem_encode (by decide) (by decide) (by decide)
    simp [pair, hn]
  cases params with
  | nil => rfl
  | cons p ps =>
    unfold parseQsl serialize join
    rw [show ("&" : Str) = ['&'] from rfl, List.splitOn_intercalate '&' hamp (by simp)]
    rw [List.filter_eq_self.mpr, List.map_map]
    · simp [Function.comp_def, parsePair_pair]
    · intro l hl
      obtain ⟨q, -, rfl⟩ := List.mem_map.mp hl
      simp [pair]

end

end KnowledgeKiln.Core.FormUrlencoded
