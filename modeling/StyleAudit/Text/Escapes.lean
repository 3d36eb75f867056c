import StyleAudit.Text.CharClass

/-!
# Escapes

How characters are shown that cannot be shown as they are: by their code points in base 16, with a
fixed number of lower case digits. Messages show a text that somebody else wrote, a file name for
instance, in single quotes, or in double quotes if it holds a single quote and no double one, with
escapes for everything that cannot be printed.
-/

namespace StyleAudit

/-- The lower case hexadecimal digit of a number below 16. -/
def hexDigit (n : Nat) : Char := "0123456789abcdef".toList.getD n '0'

/-- The last `count` hexadecimal digits of a number. -/
def hexDigits : (count : Nat) → Nat → List Char
  | 0, _ => []
  | count + 1, n => hexDigits count (n / 16) ++ [hexDigit (n % 16)]

/-- There are as many digits as asked for. -/
theorem length_hexDigits (count n : Nat) : (hexDigits count n).length = count := by
  induction count generalizing n with
  | zero => rfl
  | succ count ih => simp [hexDigits, ih]

/-! ## Quoted texts -/

/-- The escape of a code point, with two, four or eight digits. -/
def pointEscape (point : Nat) : List Char :=
  if point < 0x100 then '\\' :: 'x' :: hexDigits 2 point
  else if point < 0x10000 then '\\' :: 'u' :: hexDigits 4 point
  else '\\' :: 'U' :: hexDigits 8 point

/-- A character between quotes of one kind. -/
def quotedChar (quote c : Char) : List Char :=
  if c = quote ∨ c = '\\' then ['\\', c]
  else if c = '\n' then ['\\', 'n']
  else if c = '\r' then ['\\', 'r']
  else if c = '\t' then ['\\', 't']
  else if isPrintable c then [c]
  else pointEscape c.toNat

/-- A text in quotes. -/
def quoted (text : String) : String :=
  let chars := text.toList
  let quote := if chars.contains '\'' && !chars.contains '"' then '"' else '\''
  String.ofList (quote :: (chars.flatMap (quotedChar quote) ++ [quote]))

end StyleAudit
