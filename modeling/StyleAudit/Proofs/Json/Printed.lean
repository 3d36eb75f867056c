import Mathlib.Data.List.GetD
import StyleAudit.Json.Writer
import StyleAudit.Proofs.Text.Encoding

/-!
# The characters of written JSON

In the ASCII style a value is written with line feeds and printable ASCII characters alone
(`Json.isPrinted_write`), whatever characters its texts hold.
-/

namespace StyleAudit

/-- Whether a text consists of line feeds and printable ASCII characters. -/
def IsPrinted (text : List Char) : Prop :=
  ∀ c ∈ text, c = '\n' ∨ 0x20 ≤ c.toNat ∧ c.toNat ≤ 0x7e

namespace IsPrinted

variable {c : Char} {text front rest : List Char}

@[simp] theorem nil : IsPrinted [] := by simp [IsPrinted]

@[simp] theorem cons :
    IsPrinted (c :: text) ↔ (c = '\n' ∨ 0x20 ≤ c.toNat ∧ c.toNat ≤ 0x7e) ∧ IsPrinted text := by
  simp [IsPrinted]

@[simp] theorem append : IsPrinted (front ++ rest) ↔ IsPrinted front ∧ IsPrinted rest := by
  simp only [IsPrinted, List.mem_append, or_imp, forall_and]

theorem subset (h : IsPrinted text) (hsubset : front ⊆ text) : IsPrinted front :=
  fun c hc => h c (hsubset hc)

theorem replicate (count : Nat) (h : 0x20 ≤ c.toNat ∧ c.toNat ≤ 0x7e) :
    IsPrinted (List.replicate count c) := by
  intro c' hc
  rw [List.eq_of_mem_replicate hc]
  exact .inr h

theorem isAscii (h : IsPrinted text) : IsAscii text := by
  intro c hc
  rcases h c hc with rfl | hprintable
  · decide
  · omega

theorem cr_not_mem (h : IsPrinted text) : '\r' ∉ text := by
  intro hc
  rcases h _ hc with heq | hprintable
  · exact absurd heq (by decide)
  · exact absurd hprintable.1 (by decide)

end IsPrinted

theorem isPrinted_hexDigit (n : Nat) : 0x20 ≤ (hexDigit n).toNat ∧ (hexDigit n).toNat ≤ 0x7e := by
  have hall : ∀ c ∈ '0' :: "0123456789abcdef".toList, 0x20 ≤ c.toNat ∧ c.toNat ≤ 0x7e := by simp
  apply hall
  rw [hexDigit]
  by_cases hn : n < "0123456789abcdef".toList.length
  · rw [List.getD_eq_getElem _ _ hn]
    exact List.mem_cons_of_mem _ (List.getElem_mem hn)
  · rw [List.getD_eq_default _ _ (Nat.le_of_not_lt hn)]
    exact List.mem_cons_self

theorem isPrinted_hexDigits (count n : Nat) : IsPrinted (hexDigits count n) := by
  induction count generalizing n with
  | zero => exact IsPrinted.nil
  | succ count ih => simp [hexDigits, ih, isPrinted_hexDigit]

namespace Json

theorem isPrinted_unitEscape (code : Nat) : IsPrinted (unitEscape code) := by
  have hhex := isPrinted_hexDigits 4 code
  simp [unitEscape, hhex]

theorem isPrinted_charEscape (c : Char) : IsPrinted (charEscape c) := by
  rw [charEscape]
  split
  · exact isPrinted_unitEscape _
  · exact IsPrinted.append.mpr ⟨isPrinted_unitEscape _, isPrinted_unitEscape _⟩

theorem isPrinted_writeChar (c : Char) : IsPrinted (writeChar .ascii c) := by
  fun_cases writeChar .ascii c with
  | case1 hquote =>
    rcases hquote with rfl | rfl <;> simp
  | case2 | case3 | case4 | case5 | case6 => simp
  | case7 => exact isPrinted_unitEscape _
  | case8 => exact isPrinted_charEscape _
  | case9 hquote hlineFeed hreturn htab hback hfeed hcontrol hhigh =>
    have hlow : c.toNat ≤ 0x7e := Nat.le_of_not_lt fun hlarge => hhigh ⟨rfl, hlarge⟩
    simp [hlow, Nat.le_of_not_lt hcontrol]

theorem isPrinted_writePoint (point : Nat) : IsPrinted (writePoint .ascii point) := by
  rw [writePoint]
  split
  · exact isPrinted_unitEscape point
  · exact isPrinted_writeChar _

variable {τ : Type} [JsonText τ]

theorem isPrinted_writeText (text : τ) : IsPrinted (writeText .ascii text) := by
  have hpoints : IsPrinted ((points (JsonText.units text)).flatMap (writePoint .ascii)) := by
    intro c hc
    obtain ⟨point, -, hmem⟩ := List.mem_flatMap.mp hc
    exact isPrinted_writePoint point c hmem
  simp [writeText, hpoints]

theorem isPrinted_digits (n : Nat) : IsPrinted (digits n) := by
  intro c hc
  have hdigit := Nat.isDigit_of_mem_toDigits (by decide) (by decide) hc
  rw [Char.isDigit_iff_toNat] at hdigit
  have hzero : '0'.toNat = 48 := rfl
  have hnine : '9'.toNat = 57 := rfl
  omega

theorem isPrinted_writeInt (n : Int) : IsPrinted (writeInt n) := by
  rw [writeInt]
  split
  · simp [isPrinted_digits]
  · exact isPrinted_digits _

theorem isPrinted_writeDecimal (number : Nat) (power : Int) :
    IsPrinted (writeDecimal number power) := by
  have hdigits := isPrinted_digits number
  have htake (count : Nat) : IsPrinted ((digits number).take count) :=
    hdigits.subset (List.take_subset _ _)
  have hdrop (count : Nat) : IsPrinted ((digits number).drop count) :=
    hdigits.subset (List.drop_subset _ _)
  have hzeros (count : Nat) : IsPrinted (List.replicate count '0') :=
    IsPrinted.replicate count (by decide)
  simp only [writeDecimal]
  split
  · split
    · simp [hzeros, hdigits]
    · split
      · simp [htake, hdrop]
      · simp [hzeros, hdigits]
  · rw [IsPrinted.append]
    constructor
    · split
      · exact IsPrinted.nil
      · next hshown => exact hshown ▸ hdigits
      · next digit rest _ hshown =>
        have hrest : IsPrinted (digit :: rest) := hshown ▸ hdigits
        simpa using hrest
    · split <;> split <;> simp [isPrinted_digits]

theorem isPrinted_writeFloat (value : Binary64) : IsPrinted (writeFloat value) := by
  have hsize (mantissa : Nat) (exponent : Int) : IsPrinted (if mantissa = 0 then "0.0".toList
      else writeDecimal (Binary64.shortest mantissa exponent).1
        (Binary64.shortest mantissa exponent).2) := by
    split
    · simp
    · exact isPrinted_writeDecimal _ _
  fun_cases writeFloat value with
  | case1 => simp
  | case2 negative => cases negative <;> simp
  | case3 mantissa exponent => exact IsPrinted.cons.mpr ⟨.inr (by decide), hsize mantissa exponent⟩
  | case4 negative mantissa exponent => exact hsize mantissa exponent

theorem isPrinted_newLine (level : Nat) : IsPrinted (newLine level) := by
  have hspaces : IsPrinted (List.replicate (2 * level) ' ') := IsPrinted.replicate _ (by decide)
  simp [newLine, hspaces]

mutual

/-- A value is written with printable ASCII characters and line feeds. -/
theorem isPrinted_write (level : Nat) : (value : Json τ) → IsPrinted (write .ascii level value)
  | .null => by simp [write]
  | .bool true => by simp [write]
  | .bool false => by simp [write]
  | .int value => isPrinted_writeInt value
  | .float value => isPrinted_writeFloat value
  | .str value => isPrinted_writeText value
  | .arr [] => by simp [write]
  | .obj [] => by simp [write]
  | .arr (item :: items) => by
    simp [write, isPrinted_newLine, isPrinted_write (level + 1) item,
      isPrinted_writeItems (level + 1) items]
  | .obj ((name, value) :: entries) => by
    simp [write, isPrinted_newLine, isPrinted_writeText, isPrinted_write (level + 1) value,
      isPrinted_writeEntries (level + 1) entries]

theorem isPrinted_writeItems (level : Nat) :
    (items : List (Json τ)) → IsPrinted (writeItems .ascii level items)
  | [] => IsPrinted.nil
  | item :: items => by
    simp [writeItems, isPrinted_newLine, isPrinted_write level item,
      isPrinted_writeItems level items]

theorem isPrinted_writeEntries (level : Nat) :
    (entries : List (τ × Json τ)) → IsPrinted (writeEntries .ascii level entries)
  | [] => IsPrinted.nil
  | (name, value) :: entries => by
    simp [writeEntries, isPrinted_newLine, isPrinted_writeText, isPrinted_write level value,
      isPrinted_writeEntries level entries]

end

end Json

end StyleAudit
