import Mathlib.Algebra.Group.Nat.Defs
import Mathlib.Data.List.Basic
import Mathlib.Data.List.Induction
import Mathlib.Data.List.TakeWhile
import StyleAudit.Json.Reader
import StyleAudit.Json.Writer

/-!
# Written whole numbers are read back

The digits of a number have no zero in front, so they are read as one number again
(`Json.number?_writeInt`), as long as what follows them is not part of a number. Digits that are
read make a number that is written with no more digits (`Json.length_digits_decimal_le`).
-/

namespace StyleAudit

namespace Json

/-! ## Digits -/

theorem decimal_eq_ofDigitChars (text : List Char) : decimal text = Nat.ofDigitChars 10 text 0 := by
  simp only [decimal, Nat.ofDigitChars, Nat.mul_comm]

theorem decimal_digits (n : Nat) : decimal (digits n) = n := by
  rw [decimal_eq_ofDigitChars, digits, Nat.ofDigitChars_toDigits (by decide) (by decide)]

theorem isDigit_of_mem_digits {n : Nat} {c : Char} (h : c ∈ digits n) : c.isDigit = true :=
  Nat.isDigit_of_mem_toDigits (by decide) (by decide) h

theorem digits_ne_nil (n : Nat) : digits n ≠ [] :=
  List.ne_nil_of_length_pos Nat.length_toDigits_pos

/-- A number but zero has no zero in front. -/
theorem head?_digits_ne_zero {n : Nat} (h : 0 < n) : (digits n).head? ≠ some '0' := by
  induction n using Nat.strongRecOn with
  | ind n ih =>
    by_cases hsmall : n < 10
    · rw [digits, Nat.toDigits_of_lt_base hsmall]
      have hall : ∀ n : Fin 10, 0 < n.val → n.val.digitChar ≠ '0' := by decide
      simpa using hall ⟨n, hsmall⟩ h
    · have hfront := ih (n / 10) (by omega) (by omega)
      rw [digits, Nat.toDigits_of_base_le (by decide) (Nat.le_of_not_lt hsmall)]
      rwa [← digits, List.head?_append_of_ne_nil _ (digits_ne_nil _)]

theorem decimal_lt {text : List Char} (h : ∀ c ∈ text, c.isDigit = true) :
    decimal text < 10 ^ text.length := by
  induction text using List.reverseRecOn with
  | nil => simp [decimal]
  | append_singleton text c ih =>
    have hfront := ih fun c hc => h c (List.mem_append_left _ hc)
    have hlast := h c (List.mem_append_right _ List.mem_cons_self)
    rw [Char.isDigit_iff_toNat] at hlast
    have hzero : '0'.toNat = 48 := rfl
    have hnine : '9'.toNat = 57 := rfl
    rw [decimal, List.foldl_append, List.length_append, Nat.pow_add]
    simp only [List.foldl_cons, List.foldl_nil, List.length_singleton]
    rw [← decimal]
    omega

/-- Digits make a number that is written with no more digits. -/
theorem length_digits_decimal_le {text : List Char} (hne : text ≠ [])
    (h : ∀ c ∈ text, c.isDigit = true) : (digits (decimal text)).length ≤ text.length :=
  (Nat.length_toDigits_le_iff (by decide) (List.length_pos_iff.mpr hne)).mpr (decimal_lt h)

/-! ## Numbers -/

theorem allowsDigits_none (count : Nat) : allowsDigits none count = true := rfl

theorem allowsDigits_of_le {limit : Option Nat} {count more : Nat} (hle : count ≤ more)
    (h : allowsDigits limit more = true) : allowsDigits limit count = true := by
  cases limit with
  | none => rfl
  | some most =>
    have hmore : more ≤ most := by simpa [allowsDigits] using h
    simpa [allowsDigits] using Nat.le_trans hle hmore

/-- Whether a text does not go on with the number that ends in front of it. -/
def EndsNumber (text : List Char) : Prop :=
  ∀ c, text.head? = some c → c.isDigit = false ∧ c ≠ '.' ∧ c ≠ 'e' ∧ c ≠ 'E'

variable {rest : List Char}

theorem wholeDigits_digits (n : Nat) (hrest : EndsNumber rest) :
    wholeDigits (digits n ++ rest) = digits n := by
  obtain ⟨first, more, hdigits⟩ := List.exists_cons_of_ne_nil (digits_ne_nil n)
  by_cases hzero : n = 0
  · subst hzero
    rfl
  · have hfirst : first ≠ '0' := by
      have hhead := head?_digits_ne_zero (Nat.pos_of_ne_zero hzero)
      rw [hdigits, List.head?_cons] at hhead
      exact fun heq => hhead (congrArg some heq)
    have hall : ∀ c ∈ digits n, c.isDigit = true := fun c hc => isDigit_of_mem_digits hc
    have hnone : rest.takeWhile Char.isDigit = [] := by
      cases rest with
      | nil => rfl
      | cons c rest => rw [List.takeWhile_cons_of_neg (by simp [(hrest c rfl).1])]
    have htake : (digits n ++ rest).takeWhile Char.isDigit = digits n := by
      rw [List.takeWhile_append_of_pos hall, hnone, List.append_nil]
    rw [hdigits] at htake ⊢
    rw [wholeDigits]
    · exact htake
    · rintro more' ⟨⟩
      exact hfirst rfl

theorem fractionDigits_of_endsNumber (hrest : EndsNumber rest) : fractionDigits rest = [] := by
  fun_cases fractionDigits rest with
  | case1 text => exact absurd rfl (hrest _ rfl).2.1
  | case2 => rfl

theorem exponent?_of_endsNumber (hrest : EndsNumber rest) : exponent? rest = none := by
  cases rest with
  | nil => rfl
  | cons c rest =>
    obtain ⟨-, -, hlower, hupper⟩ := hrest c rfl
    simp [exponent?, hlower, hupper]

/-- A written whole number is read back, if a number may have so many digits. -/
theorem number?_writeInt {τ : Type} {limit : Option Nat} {n : Int} (hrest : EndsNumber rest)
    (hlength : allowsDigits limit (digits n.natAbs).length = true) :
    number? limit (writeInt n ++ rest)
      = some ((.atom (.int n) : Token τ), (writeInt n).length) := by
  have hwhole := wholeDigits_digits n.natAbs hrest
  have hne := digits_ne_nil n.natAbs
  have hdrop : (digits n.natAbs ++ rest).drop (digits n.natAbs).length = rest := List.drop_left
  have hfraction := fractionDigits_of_endsNumber hrest
  have hexponent := exponent?_of_endsNumber hrest
  unfold number?
  split
  next negative body hsign =>
  -- the sign is cut off, and no digit is taken for one
  have hcut : negative = decide (n < 0) ∧ body = digits n.natAbs ++ rest := by
    rw [writeInt] at hsign
    split at hsign
    · next body' hminus =>
      obtain ⟨rfl, rfl⟩ := Prod.mk.inj hsign
      split at hminus
      · next hnegative =>
        rw [List.cons_append] at hminus
        exact ⟨(decide_eq_true hnegative).symm, (List.cons.inj hminus).2.symm⟩
      · obtain ⟨first, more, hdigits⟩ := List.exists_cons_of_ne_nil hne
        have hfirst : first.isDigit = true := isDigit_of_mem_digits (hdigits ▸ List.mem_cons_self)
        rw [hdigits, List.cons_append] at hminus
        obtain ⟨rfl, -⟩ := List.cons.inj hminus
        exact absurd hfirst (by decide)
    · next hplain =>
      obtain ⟨rfl, rfl⟩ := Prod.mk.inj hsign
      split at hplain
      · exact absurd rfl (hplain _)
      · next hnegative => exact ⟨(decide_eq_false hnegative).symm, by rw [if_neg hnegative]⟩
  obtain ⟨rfl, rfl⟩ := hcut
  simp only [hwhole, List.isEmpty_iff, hne, if_false, hdrop, hfraction, List.isEmpty_nil, if_true,
    Nat.add_zero, List.length_nil, hexponent, Option.isNone_none, and_self,
    hlength, decimal_digits, Option.some.injEq, Prod.mk.injEq, Token.atom.injEq,
    int.injEq, decide_eq_true_eq, writeInt]
  split
  · rw [List.length_cons]
    omega
  · omega

end Json

end StyleAudit
