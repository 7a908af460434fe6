import KnowledgeKiln.Core.Str

/-!
# Formatting values into text

* `intStr n`: `str(n)`.
* `fixed2 q`: `f"{q:.2f}"`, correctly rounded, ties to even.
* `strRepr isPrintable s`: `repr(s)`. Which characters outside ASCII are
  printable is a table of the Unicode database, so it is a parameter.
-/
namespace KnowledgeKiln.Core

/-- `str(n)` -/
def intStr (n : Int) : Str := (if n < 0 then "-" else "" : String).toList ++ natStr n.natAbs

/-- Round a non-negative rational to an integer, ties to even. -/
def roundHalfEven (q : ℚ) : Nat :=
  let f := q.floor.toNat
  let r := q - f
  if r < 1 / 2 ∨ (r = 1 / 2 ∧ f % 2 = 0) then f else f + 1

/-- `f"{q:.2f}"` -/
def fixed2 (q : ℚ) : Str :=
  let n := roundHalfEven (|q| * 100)
  (if q < 0 then "-" else "" : String).toList ++ natStr (n / 100) ++ "." ++ padStr 2 (n % 100)

/-- `n` in hexadecimal, at least `width` digits. -/
def hex (width n : Nat) : Str :=
  let ds := Nat.toDigits 16 n
  List.replicate (width - ds.length) '0' ++ ds

/-- One character of `repr(s)` between quotes `q`. -/
def reprChar (isPrintable : Char → Bool) (q c : Char) : Str :=
  let n := c.toNat
  if c = q ∨ c = '\\' then ['\\', c]
  else if c = '\t' then "\\t"
  else if c = '\n' then "\\n"
  else if c = '\r' then "\\r"
  else if n < 32 ∨ n = 127 then "\\x" ++ hex 2 n
  else if n < 127 ∨ isPrintable c then [c]
  else if n < 256 then "\\x" ++ hex 2 n
  else if n < 65536 then "\\u" ++ hex 4 n
  else "\\U" ++ hex 8 n

/-- `repr(s)` -/
def strRepr (isPrintable : Char → Bool) (s : Str) : Str :=
  let q := if '\'' ∈ s ∧ '"' ∉ s then '"' else '\''
  [q] ++ s.flatMap (reprChar isPrintable q) ++ [q]

example : strRepr (fun _ => true) "it's \n" = "\"it's \\n\"".toList := by decide

end KnowledgeKiln.Core
