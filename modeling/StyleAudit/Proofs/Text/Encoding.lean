import Mathlib.Data.List.TakeWhile
import StyleAudit.Text.Blank
import StyleAudit.Text.Encoding

/-!
# Text that every encoding has

All encodings agree on the ASCII characters, apart from the mark in front. So an ASCII text can be
written in each of them and reads back as it was (`Encoding.exists_encode_eq_ok`).
-/

namespace StyleAudit

/-- Whether all characters of a text are ASCII characters. -/
def IsAscii (text : List Char) : Prop := ∀ c ∈ text, c.toNat < 0x80

namespace IsAscii

variable {c : Char} {text front rest : List Char}

@[simp] theorem nil : IsAscii [] := by simp [IsAscii]

@[simp] theorem cons : IsAscii (c :: text) ↔ c.toNat < 0x80 ∧ IsAscii text := by
  simp [IsAscii]

@[simp] theorem append : IsAscii (front ++ rest) ↔ IsAscii front ∧ IsAscii rest := by
  simp [IsAscii, or_imp, forall_and]

end IsAscii

/-- The bytes of an ASCII text. -/
def asciiBytes (text : List Char) : List UInt8 := text.map fun c => UInt8.ofNat c.toNat

variable {c : Char} {text : List Char}

theorem toNat_asciiByte (h : c.toNat < 0x80) : (UInt8.ofNat c.toNat).toNat = c.toNat := by
  rw [UInt8.toNat_ofNat']
  omega

theorem decodeUtf8_asciiBytes (h : IsAscii text) :
    decodeUtf8 none (asciiBytes text) = .ok text := by
  induction text with
  | nil => rfl
  | cons c text ih =>
    rw [IsAscii.cons] at h
    rw [asciiBytes, List.map_cons, decodeUtf8, toNat_asciiByte h.1, if_pos h.1, Char.ofNat_toNat]
    exact congrArg _ (ih h.2)

theorem map_ofNat_asciiBytes (h : IsAscii text) :
    (asciiBytes text).map (fun b => Char.ofNat b.toNat) = text := by
  induction text with
  | nil => rfl
  | cons c text ih =>
    rw [IsAscii.cons] at h
    rw [asciiBytes, List.map_cons, List.map_cons, toNat_asciiByte h.1, Char.ofNat_toNat]
    exact congrArg _ (ih h.2)

theorem asciiBytes_lt (h : IsAscii text) : (asciiBytes text).all (·.toNat < 0x80) = true := by
  simp only [asciiBytes, List.all_map, List.all_eq_true, Function.comp_apply, decide_eq_true_eq]
  intro c hc
  rw [toNat_asciiByte (h c hc)]
  exact h c hc

theorem flatMap_utf8EncodeChar (h : IsAscii text) :
    text.flatMap String.utf8EncodeChar = asciiBytes text := by
  induction text with
  | nil => rfl
  | cons c text ih =>
    rw [IsAscii.cons] at h
    have hsize : c.val.toNat ≤ 127 := Nat.le_of_lt_succ h.1
    rw [List.flatMap_cons, ih h.2, String.utf8EncodeChar, if_pos hsize]
    rfl

theorem dropMark_append (bytes : List UInt8) : dropMark (byteOrderMark ++ bytes) = bytes := by
  have hmark : byteOrderMark.isPrefixOf (byteOrderMark ++ bytes) = true :=
    List.isPrefixOf_iff_prefix.mpr (List.prefix_append _ _)
  rw [dropMark, if_pos hmark, List.drop_left]

namespace Encoding

theorem encode_of_limit {encoding : Encoding} {limit : Nat} (hlimit : encoding.limit? = some limit)
    (h : ∀ c ∈ text, c.toNat < limit) : encoding.encode text = .ok (asciiBytes text) := by
  have hfits : text.dropWhile (fun c => decide (c.toNat < limit)) = [] :=
    List.dropWhile_eq_nil_iff.mpr fun c hc => decide_eq_true (h c hc)
  simp only [encode, hlimit, hfits]
  rfl

/-- An ASCII text is a text in every encoding, and reads back as it was. -/
theorem exists_encode_eq_ok (h : IsAscii text) (encoding : Encoding) :
    ∃ bytes, encoding.encode text = .ok bytes ∧ encoding.decode bytes = .ok text := by
  cases encoding with
  | utf8 =>
    refine ⟨asciiBytes text, ?_, decodeUtf8_asciiBytes h⟩
    simp [encode, limit?, flatMap_utf8EncodeChar h]
  | utf8Marked =>
    refine ⟨byteOrderMark ++ asciiBytes text, ?_, ?_⟩
    · simp [encode, limit?, flatMap_utf8EncodeChar h]
    · rw [decode, dropMark_append, decodeUtf8_asciiBytes h]
  | ascii =>
    refine ⟨asciiBytes text, encode_of_limit rfl h, ?_⟩
    rw [decode, if_pos (asciiBytes_lt h), map_ofNat_asciiBytes h]
  | latin1 =>
    refine ⟨asciiBytes text, encode_of_limit rfl fun c hc => ?_, ?_⟩
    · exact (h c hc).trans (by decide)
    · rw [decode, map_ofNat_asciiBytes h]

end Encoding

/-- A text without carriage returns has its line ends joined. -/
theorem joinLineEnds_of_not_mem (h : '\r' ∉ text) : joinLineEnds text = text := by
  fun_induction joinLineEnds text with
  | case1 => rfl
  | case2 => simp at h
  | case3 => simp at h
  | case4 c rest hpair hsingle ih => rw [ih (List.not_mem_of_not_mem_cons h)]

end StyleAudit
