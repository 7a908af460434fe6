import KnowledgeKiln.Core.FormUrlencoded

/-!
# `urllib.parse.urlencode`

`quotePlus` leaves a set of ASCII characters alone, writes a blank as `+` and every other byte of
the UTF-8 text as `%XX`; `urlencode` joins the pairs. `FormUrlencoded.parseQsl` reads a query.

* `unquotePlus_quotePlus`: a quoted text is read back, whatever the set.
* `parseQsl_urlencode`: so are the pairs of a query.
-/
namespace KnowledgeKiln.Core.QuotePlus

open FormUrlencoded

/-- The characters a text may keep: hexadecimal digits, and none that means something to the
reader. -/
structure SafeSet (safe : Char → Bool) : Prop where
  ascii : ∀ c, safe c = true → c.toNat < 128
  digit : ∀ n < 16, safe (hexDigit n) = true
  special : ∀ c ∈ ['%', '+', ' ', '&', '='], safe c = false

section
variable (safe : Char → Bool)

def quoteByte (b : UInt8) : Str :=
  let c := Char.ofNat b.toNat
  if c = ' ' then ['+']
  else if safe c then [c]
  else ['%', hexDigit (b.toNat / 16), hexDigit (b.toNat % 16)]

/-- `quote_plus(s)` -/
def quotePlus (s : Str) : Str := (utf8 s).flatMap (quoteByte safe)

def quotePair (p : Str × Str) : Str := quotePlus safe p.1 ++ '=' :: quotePlus safe p.2

/-- `urlencode(pairs)` -/
def urlencode (pairs : List (Str × Str)) : Str := join "&" (pairs.map (quotePair safe))

end

/-- `_ALWAYS_SAFE` -/
def alwaysSafe (c : Char) : Bool :=
  c.isAlphanum || c == '_' || c == '.' || c == '-' || c == '~'

theorem alwaysSafe_safeSet : SafeSet alwaysSafe where
  ascii c h := by
    have hsafe : isSafe c = true ∨ c = '~' := by
      simp only [alwaysSafe, isSafe, Bool.or_eq_true, beq_iff_eq] at h ⊢
      tauto
    rcases hsafe with hsafe | rfl
    · exact isSafe_lt hsafe
    · decide
  digit n hn := by interval_cases n <;> decide
  special c hc := by fin_cases hc <;> decide

section
variable {safe : Char → Bool} {replace : List UInt8 → Str}

theorem quotePlus_mem (hset : SafeSet safe) {s : Str} {c : Char} (h : c ∈ quotePlus safe s) :
    safe c = true ∨ c = '+' ∨ c = '%' := by
  obtain ⟨b, -, hb⟩ := List.mem_flatMap.mp h
  have hlt := b.toNat_lt
  unfold quoteByte at hb
  dsimp only at hb
  split at hb
  · exact .inr (.inl (List.mem_singleton.mp hb))
  · split at hb
    · rename_i hsafe
      exact .inl (List.mem_singleton.mp hb ▸ hsafe)
    · simp only [List.mem_cons, List.not_mem_nil, or_false] at hb
      rcases hb with rfl | rfl | rfl
      · exact .inr (.inr rfl)
      · exact .inl (hset.digit _ (by omega))
      · exact .inl (hset.digit _ (by omega))

/-- The separators of a query are quoted. -/
theorem not_mem_quotePlus (hset : SafeSet safe) {c : Char} (hc : c = '&' ∨ c = '=') {s : Str} :
    c ∉ quotePlus safe s := by
  intro h
  have hspecial : safe c = false := hset.special c (by rcases hc with rfl | rfl <;> simp)
  rcases quotePlus_mem hset h with hs | hs | hs
  · rw [hspecial] at hs
    cases hs
  · rcases hc with rfl | rfl <;> cases hs
  · rcases hc with rfl | rfl <;> cases hs

/-- One byte, after `+` was turned into a blank. -/
theorem unquoteFrom_quoteByte (hset : SafeSet safe) (run : List UInt8) (b : UInt8) (s : Str) :
    unquoteFrom replace run ((quoteByte safe b).map (fun c => if c = '+' then ' ' else c) ++ s) =
      unquoteFrom replace (run ++ [b]) s := by
  have hlt := b.toNat_lt
  have hchar : (Char.ofNat b.toNat).toNat = b.toNat := by
    rw [Char.toNat_ofNat, if_pos (.inl (by omega))]
  have hkeep : ∀ c, safe c = true → (if c = '+' then ' ' else c) = c := by
    intro c hc
    refine if_neg ?_
    rintro rfl
    rw [hset.special '+' (by simp)] at hc
    cases hc
  unfold quoteByte
  dsimp only
  split
  · rename_i hblank
    rw [hblank] at hchar
    obtain rfl : b = 32 := UInt8.toNat_inj.mp hchar.symm
    exact unquoteFrom_ascii run (by decide) (by decide) s
  · split
    · rename_i hsafe
      have hpct : Char.ofNat b.toNat ≠ '%' := by
        intro he
        rw [he, hset.special '%' (by simp)] at hsafe
        cases hsafe
      rw [List.map_singleton, hkeep _ hsafe, List.singleton_append,
        unquoteFrom_ascii run (hset.ascii _ hsafe) hpct, hchar, UInt8.ofNat_toNat]
    · simp only [List.map_cons, List.map_nil, hkeep _ (hset.digit (b.toNat / 16) (by omega)),
        hkeep _ (hset.digit (b.toNat % 16) (by omega)), List.cons_append, List.nil_append]
      exact unquoteFrom_percent run b s

theorem unquoteFrom_quoted (hset : SafeSet safe) (run : List UInt8) : ∀ bs : List UInt8,
    unquoteFrom replace run
      ((bs.flatMap (quoteByte safe)).map fun c => if c = '+' then ' ' else c) =
      decodeRun replace (run ++ bs)
  | [] => by simp [unquoteFrom]
  | b :: bs => by
    rw [List.flatMap_cons, List.map_append, unquoteFrom_quoteByte hset, unquoteFrom_quoted hset]
    simp

theorem unquotePlus_quotePlus (hset : SafeSet safe) (s : Str) :
    unquotePlus replace (quotePlus safe s) = s := by
  unfold unquotePlus quotePlus
  rw [unquoteFrom_quoted hset, List.nil_append, decodeRun_utf8]

theorem parsePair_quotePair (hset : SafeSet safe) (p : Str × Str) :
    parsePair replace (quotePair safe p) = p := by
  have heq : '=' ∉ quotePlus safe p.1 := not_mem_quotePlus hset (.inr rfl)
  unfold parsePair quotePair
  rw [Url.partition_of_not_mem heq]
  simp [unquotePlus_quotePlus hset]

/-- **Round trip.** What was encoded is read back, in order. -/
theorem parseQsl_urlencode (hset : SafeSet safe) (pairs : List (Str × Str)) :
    parseQsl replace (urlencode safe pairs) = pairs := by
  have hamp : ∀ l ∈ pairs.map (quotePair safe), '&' ∉ l := by
    intro l hl
    obtain ⟨p, -, rfl⟩ := List.mem_map.mp hl
    have hn : ∀ s, '&' ∉ quotePlus safe s := fun s => not_mem_quotePlus hset (.inl rfl)
    simp [quotePair, hn]
  cases pairs with
  | nil => rfl
  | cons p ps =>
    unfold parseQsl urlencode join
    rw [show ("&" : Str) = ['&'] from rfl, List.splitOn_intercalate '&' hamp (by simp)]
    rw [List.filter_eq_self.mpr, List.map_map]
    · simp [Function.comp_def, parsePair_quotePair hset]
    · intro l hl
      obtain ⟨q, -, rfl⟩ := List.mem_map.mp hl
      simp [quotePair]

end

end KnowledgeKiln.Core.QuotePlus
