/-!
# Binary numbers of double precision

The numbers with a fraction in a manifest are binary numbers with 53 significant bits, written in
decimal. This file holds the two conversions, in exact integer arithmetic:

* `Binary64.ofDecimal`, the binary number nearest to a decimal one, where a tie goes to the even
  mantissa and what is too large is infinite;
* `Binary64.shortest`, the decimal number with the fewest digits that reads back as the same
  binary number; among those with the fewest, the nearest.
-/

namespace StyleAudit

/-- A binary number of double precision. The size of a finite one is `mantissa * 2 ^ exponent`,
with a mantissa below `2 ^ 53` and an exponent from -1074 to 971; the mantissa is at least
`2 ^ 52` unless the exponent is the least. -/
inductive Binary64 where
  | finite (negative : Bool) (mantissa : Nat) (exponent : Int)
  | infinite (negative : Bool)
  | notANumber
deriving DecidableEq, Repr, Inhabited

/-- A quotient rounded to the nearest whole number, a tie to the even one. -/
def roundDiv (num den : Nat) : Nat :=
  let quotient := num / den
  let rest := num % den
  if 2 * rest < den then quotient
  else if den < 2 * rest then quotient + 1
  else quotient + quotient % 2

/-- The fraction `num / den` divided by `base ^ power`. -/
def scaled (base num den : Nat) (power : Int) : Nat × Nat :=
  if power < 0 then (num * base.pow (-power).toNat, den) else (num, den * base.pow power.toNat)

namespace Binary64

/-- The least exponent. -/
def leastExponent : Int := -1074

/-- The greatest exponent. -/
def greatestExponent : Int := 971

/-- The least mantissa with all 53 bits, 2 to the power of 52. -/
def leastMantissa : Nat := 0x10000000000000

/-- The exponent at which the whole part of a positive fraction has 53 bits, but never less than
the least one. -/
def exponentOf (num den : Nat) : Int :=
  let guess : Int := (num.log2 : Int) - den.log2 - 52
  let (n, d) := scaled 2 num den guess
  max leastExponent (if n / d < leastMantissa then guess - 1 else guess)

/-- The mantissa and exponent nearest to a positive fraction, or nothing if it is too large. -/
def nearest? (num den : Nat) : Option (Nat × Int) :=
  let exponent := exponentOf num den
  let (n, d) := scaled 2 num den exponent
  let mantissa := roundDiv n d
  let (mantissa, exponent) :=
    if mantissa = 2 * leastMantissa then (leastMantissa, exponent + 1) else (mantissa, exponent)
  if exponent ≤ greatestExponent then some (mantissa, exponent) else none

/-- The decimal number `digits * 10 ^ power` as a fraction. -/
def fraction (digits : Nat) (power : Int) : Nat × Nat :=
  scaled 10 digits 1 (-power)

/-- How many decimal digits a number has. -/
def digitCount (n : Nat) : Nat := (Nat.toDigits 10 n).length

/-- The binary number nearest to `digits * 10 ^ power`. What is far outside the range is settled
by its order of magnitude. -/
def ofDecimal (negative : Bool) (digits : Nat) (power : Int) : Binary64 :=
  let magnitude := power + digitCount digits
  if digits = 0 ∨ magnitude < -400 then .finite negative 0 leastExponent
  else if 400 < magnitude then .infinite negative
  else
    let (num, den) := fraction digits power
    match nearest? num den with
    | some (mantissa, exponent) => .finite negative mantissa exponent
    | none => .infinite negative

/-- The power of ten of the first decimal digit of a positive fraction. -/
def decimalPower (num den : Nat) : Int :=
  let guess : Int := (digitCount num : Int) - digitCount den
  let (n, d) := scaled 10 num den guess
  if n < d then guess - 1 else guess

/-- The nearest number of `count` digits that reads back as the given binary number, if there is
one. A power of ten that takes one digit more is shown with a single digit. -/
def shorten? (mantissa : Nat) (exponent : Int) (count : Nat) : Option (Nat × Int) :=
  let (num, den) := scaled 2 mantissa 1 (-exponent)
  let power := decimalPower num den - (count - 1)
  let (n, d) := scaled 10 num den power
  let readsBack (digits : Nat) : Bool :=
    let (num, den) := fraction digits power
    digits ≠ 0 && nearest? num den == some (mantissa, exponent)
  let below := n / d
  let nearer := roundDiv n d
  let farther := if nearer = below then below + 1 else below
  let shown (digits : Nat) : Nat × Int :=
    if digits = Nat.pow 10 count then (1, power + count) else (digits, power)
  if readsBack nearer then some (shown nearer)
  else if readsBack farther then some (shown farther)
  else none

/-- The fewest digits, with a power of ten, that read back as a positive binary number; seventeen
digits always do. -/
def shortest (mantissa : Nat) (exponent : Int) : Nat × Int :=
  ((List.range 17).findSome? fun count => shorten? mantissa exponent (count + 1)).getD (mantissa, 0)

end Binary64

end StyleAudit
