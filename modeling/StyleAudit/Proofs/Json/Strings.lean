import Mathlib.Data.List.Basic
import StyleAudit.Json.Reader
import StyleAudit.Json.Writer

/-!
# Written texts are read back

A text in quotes is read from its opening quote on, one written code point after the other
(`Json.stringBody_writePoint`), and its code units are there at its closing quote
(`Json.stringBody_writeText`). A character beyond the first plane takes two escapes, one for each
code unit.
-/

namespace StyleAudit

namespace Json

/-! ## Hexadecimal digits -/

theorem hexDigit?_hexDigit {n : Nat} (h : n < 16) : hexDigit? (hexDigit n) = some n := by
  have hall : ∀ n : Fin 16, hexDigit? (hexDigit n) = some n.val := by decide
  exact hall ⟨n, h⟩

/-- A code unit is read from its four digits, once something follows them. -/
theorem hexUnit?_hexDigits {code : Nat} (h : code < 0x10000) {rest : List Char}
    (hrest : rest ≠ []) :
    hexUnit? (hexDigits 4 code ++ rest) = some (UInt16.ofNat code) := by
  obtain ⟨next, rest, rfl⟩ := List.exists_cons_of_ne_nil hrest
  have hdigit (n : Nat) : hexDigit? (hexDigit (n % 16)) = some (n % 16) :=
    hexDigit?_hexDigit (Nat.mod_lt n (by decide))
  simp only [hexDigits, List.nil_append, List.cons_append, hexUnit?, hdigit, Option.bind_eq_bind,
    Option.bind_some, Option.pure_def]
  congr 2
  omega

/-! ## Escapes -/

section Escapes

variable {c : Char} {rest : List Char}

theorem escape_short {shown : Char} (start index : Nat) (hshort : shortEscape? shown = some c) :
    escape start index (shown :: rest) = .ok (pointUnits c.toNat, 1) := by
  by_cases hshown : shown = 'u'
  · subst hshown
    cases hshort
  · simp [escape, hshort]

theorem escape_hexDigits {code : Nat} (start index : Nat) (h : code < 0x10000)
    (hrest : rest ≠ []) :
    escape start index ('u' :: (hexDigits 4 code ++ rest)) = .ok ([UInt16.ofNat code], 5) := by
  rw [escape, hexUnit?_hexDigits h hrest]

end Escapes

/-! ## Texts in quotes -/

section Texts

variable {c : Char} {rest body : List Char} {done units : List UInt16} {start : Nat}
  {style : Style}

/-- The characters of an escape that is dealt with are passed over. -/
theorem stringBody_skip (index : Nat) : stringBody start index done body.length (body ++ rest)
    = stringBody start (index + body.length) done 0 rest := by
  induction body generalizing index with
  | nil => rfl
  | cons c body ih =>
    rw [List.length_cons, List.cons_append, stringBody, ih, Nat.add_right_comm, Nat.add_assoc]

theorem stringBody_escape {index : Nat}
    (h : escape start index (body ++ rest) = .ok (units, body.length)) :
    stringBody start index done 0 ('\\' :: (body ++ rest))
      = stringBody start (index + (body.length + 1)) (units.reverse ++ done) 0 rest := by
  rw [stringBody, if_neg (by decide), if_pos rfl, h]
  simp only [stringBody_skip]
  rw [Nat.add_right_comm, Nat.add_assoc]

theorem stringBody_short {shown : Char} (index : Nat) (hshort : shortEscape? shown = some c) :
    stringBody start index done 0 (['\\', shown] ++ rest)
      = stringBody start (index + 2) ((pointUnits c.toNat).reverse ++ done) 0 rest := by
  have hescape : escape start index ([shown] ++ rest) = .ok (pointUnits c.toNat, [shown].length) :=
    escape_short start index hshort
  exact stringBody_escape hescape

/-- A code unit is read back from its escape. -/
theorem stringBody_unitEscape {code : Nat} (index : Nat) (h : code < 0x10000)
    (hrest : rest ≠ []) : stringBody start index done 0 (unitEscape code ++ rest)
      = stringBody start (index + (unitEscape code).length) (UInt16.ofNat code :: done) 0 rest := by
  have hescape : escape start index ('u' :: hexDigits 4 code ++ rest)
      = .ok ([UInt16.ofNat code], ('u' :: hexDigits 4 code).length) := by
    rw [List.length_cons, length_hexDigits]
    exact escape_hexDigits start index h hrest
  exact stringBody_escape hescape

/-- The code units of a character are read back from their escapes. -/
theorem stringBody_charEscape (index : Nat) (hrest : rest ≠ []) :
    stringBody start index done 0 (charEscape c ++ rest)
      = stringBody start (index + (charEscape c).length)
        ((pointUnits c.toNat).reverse ++ done) 0 rest := by
  rw [charEscape, pointUnits]
  split
  · next h => exact stringBody_unitEscape index h hrest
  · next h =>
    have hvalid := toNat_valid c
    have hlow : unitEscape (0xdc00 + (c.toNat - 0x10000) % 0x400) ++ rest ≠ [] := by
      simp [unitEscape]
    rw [List.append_assoc, stringBody_unitEscape index (by omega) hlow,
      stringBody_unitEscape _ (by omega) hrest, List.length_append, Nat.add_assoc]
    rfl

/-- A written character is read back, once something follows it. -/
theorem stringBody_writeChar (index : Nat) (hrest : rest ≠ []) :
    stringBody start index done 0 (writeChar style c ++ rest)
      = stringBody start (index + (writeChar style c).length)
        ((pointUnits c.toNat).reverse ++ done) 0 rest := by
  have hofNat {n : Nat} (h : c.toNat = n) : c = Char.ofNat n := by rw [← h, Char.ofNat_toNat]
  fun_cases writeChar style c with
  | case1 hquote =>
    apply stringBody_short
    rw [shortEscape?, if_pos (by tauto)]
  | case2 _ hlineFeed => exact stringBody_short index (hlineFeed ▸ rfl)
  | case3 _ _ hreturn => exact stringBody_short index (hreturn ▸ rfl)
  | case4 _ _ _ htab => exact stringBody_short index (htab ▸ rfl)
  | case5 _ _ _ _ hback => exact stringBody_short index (hofNat hback ▸ rfl)
  | case6 _ _ _ _ _ hfeed => exact stringBody_short index (hofNat hfeed ▸ rfl)
  | case7 _ _ _ _ _ _ hcontrol =>
    have hunit : pointUnits c.toNat = [UInt16.ofNat c.toNat] := by
      rw [pointUnits, if_pos (by omega)]
    rw [stringBody_unitEscape index (by omega) hrest, hunit]
    rfl
  | case8 => exact stringBody_charEscape index hrest
  | case9 hquote _ _ _ _ _ hcontrol hhigh =>
    rw [not_or] at hquote
    rw [List.singleton_append, stringBody, if_neg hquote.1, if_neg hquote.2, if_neg hcontrol]
    rfl

/-- A written code point is read back, once something follows it. -/
theorem stringBody_writePoint {point : Nat} (index : Nat) (hbound : point < 0x110000)
    (hrest : rest ≠ []) : stringBody start index done 0 (writePoint style point ++ rest)
      = stringBody start (index + (writePoint style point).length)
        ((pointUnits point).reverse ++ done) 0 rest := by
  rw [writePoint]
  split
  · next hsurrogate =>
    simp only [isSurrogate, Bool.and_eq_true, decide_eq_true_eq] at hsurrogate
    have hsmall : point < 0x10000 := by omega
    rw [stringBody_unitEscape index hsmall hrest, pointUnits, if_pos hsmall]
    rfl
  · next hproper =>
    have hchar : (pointChar point).toNat = point :=
      toNat_pointChar hbound (Bool.eq_false_iff.mpr hproper)
    rw [stringBody_writeChar index hrest, hchar]

/-- Written code points are read back up to the closing quote of their text. -/
theorem stringBody_writePoints (shown : List Nat) (hbound : ∀ point ∈ shown, point < 0x110000)
    (index : Nat) : stringBody start index done 0 (shown.flatMap (writePoint style) ++ '"' :: rest)
      = .ok (done.reverse ++ shown.flatMap pointUnits,
        index + (shown.flatMap (writePoint style)).length + 1) := by
  induction shown generalizing done index with
  | nil => simp [stringBody]
  | cons point shown ih =>
    rw [List.forall_mem_cons] at hbound
    have hrest : shown.flatMap (writePoint style) ++ '"' :: rest ≠ [] := by simp
    rw [List.flatMap_cons, List.append_assoc, stringBody_writePoint index hbound.1 hrest,
      ih hbound.2]
    simp [Nat.add_assoc]

/-- The code units of a written text are read back up to its closing quote. -/
theorem stringBody_writeText (units : List UInt16) (index : Nat) :
    stringBody start index done 0 ((points units).flatMap (writePoint style) ++ '"' :: rest)
      = .ok (done.reverse ++ units,
        index + ((points units).flatMap (writePoint style)).length + 1) := by
  rw [stringBody_writePoints _ fun _ hmem => lt_of_mem_points hmem, flatMap_pointUnits_points]

end Texts

end Json

end StyleAudit
