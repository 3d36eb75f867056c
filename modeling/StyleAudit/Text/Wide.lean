/-!
# Texts in code units

A text can come as code units of UTF-16, with every character beyond the first plane written as a
pair of surrogates. Nothing keeps half of a pair from standing alone in such a text; a `String` has
no place for it, a `WideText` has. A surrogate that stands alone counts as a code point.
-/

namespace StyleAudit

/-- Whether a code point is a surrogate. -/
def isSurrogate (point : Nat) : Bool := 0xd800 ≤ point && point < 0xe000

/-- Whether two code units are a surrogate pair. -/
def isPair (high low : UInt16) : Bool :=
  0xd800 ≤ high.toNat && high.toNat < 0xdc00 && 0xdc00 ≤ low.toNat && low.toNat < 0xe000

/-- The code point of a surrogate pair. -/
def pairPoint (high low : UInt16) : Nat :=
  0x10000 + (high.toNat - 0xd800) * 0x400 + (low.toNat - 0xdc00)

/-- The code points of code units. -/
def points : List UInt16 → List Nat
  | [] => []
  | [unit] => [unit.toNat]
  | high :: low :: rest =>
    if isPair high low then pairPoint high low :: points rest
    else high.toNat :: points (low :: rest)

/-- The code units of a code point. -/
def pointUnits (point : Nat) : List UInt16 :=
  if point < 0x10000 then [UInt16.ofNat point]
  else [UInt16.ofNat (0xd800 + (point - 0x10000) / 0x400),
    UInt16.ofNat (0xdc00 + (point - 0x10000) % 0x400)]

/-- The code units of a text. -/
def textUnits (text : List Char) : List UInt16 := text.flatMap fun c => pointUnits c.toNat

/-- The character of a code point. A surrogate has none; the replacement character stands for it. -/
def pointChar (point : Nat) : Char :=
  if isSurrogate point then Char.ofNat 0xfffd else Char.ofNat point

/-! ## Code points and code units -/

/-- No character is half of a surrogate pair. -/
theorem toNat_valid (c : Char) : c.toNat < 0xd800 ∨ 0xdfff < c.toNat ∧ c.toNat < 0x110000 :=
  c.valid

@[simp] theorem isSurrogate_toNat (c : Char) : isSurrogate c.toNat = false := by
  have hvalid := toNat_valid c
  simp only [isSurrogate, Bool.and_eq_false_iff, decide_eq_false_iff_not]
  omega

@[simp] theorem pointChar_toNat (c : Char) : pointChar c.toNat = c := by
  simp [pointChar]

theorem isPair_iff {high low : UInt16} : isPair high low = true
    ↔ 0xd800 ≤ high.toNat ∧ high.toNat < 0xdc00 ∧ 0xdc00 ≤ low.toNat ∧ low.toNat < 0xe000 := by
  simp [isPair, and_assoc]

theorem pointUnits_unit (unit : UInt16) : pointUnits unit.toNat = [unit] := by
  rw [pointUnits, if_pos unit.toNat_lt, UInt16.ofNat_toNat]

/-- The code units of a pair's code point are the pair. -/
theorem pointUnits_pairPoint {high low : UInt16} (h : isPair high low = true) :
    pointUnits (pairPoint high low) = [high, low] := by
  rw [isPair_iff] at h
  have hlarge : ¬ pairPoint high low < 0x10000 := by
    unfold pairPoint
    omega
  have hhigh : 0xd800 + (pairPoint high low - 0x10000) / 0x400 = high.toNat := by
    unfold pairPoint
    omega
  have hlow : 0xdc00 + (pairPoint high low - 0x10000) % 0x400 = low.toNat := by
    unfold pairPoint
    omega
  rw [pointUnits, if_neg hlarge, hhigh, hlow, UInt16.ofNat_toNat, UInt16.ofNat_toNat]

/-- The code units of all code points are the code units that these come from. -/
theorem flatMap_pointUnits_points (units : List UInt16) :
    (points units).flatMap pointUnits = units := by
  fun_induction points units with
  | case1 => rfl
  | case2 unit => simp [pointUnits_unit]
  | case3 high low rest hpair ih => simp [pointUnits_pairPoint hpair, ih]
  | case4 high low rest hpair ih => simp [pointUnits_unit, ih]

theorem points_cons_of_toNat_lt {unit : UInt16} (h : unit.toNat < 0xd800 ∨ 0xdfff < unit.toNat)
    (units : List UInt16) : points (unit :: units) = unit.toNat :: points units := by
  cases units with
  | nil => rfl
  | cons next units =>
    have hpair : ¬ isPair unit next = true := by
      rw [isPair_iff]
      omega
    rw [points, if_neg hpair]

/-- The code units of a character in front of a text are a code point of their own. -/
theorem points_pointUnits_append (c : Char) (units : List UInt16) :
    points (pointUnits c.toNat ++ units) = c.toNat :: points units := by
  have hvalid := toNat_valid c
  generalize c.toNat = point at hvalid
  rw [pointUnits]
  split
  -- one unit, which is no surrogate
  · next hsmall =>
    have hunit : (UInt16.ofNat point).toNat = point := UInt16.toNat_ofNat_of_lt hsmall
    rw [List.singleton_append, points_cons_of_toNat_lt (by omega), hunit]
  -- a pair, which is read back by the division that made it
  · next hlarge =>
    obtain ⟨high, hhigh⟩ : ∃ high, high = 0xd800 + (point - 0x10000) / 0x400 := ⟨_, rfl⟩
    obtain ⟨low, hlow⟩ : ∃ low, low = 0xdc00 + (point - 0x10000) % 0x400 := ⟨_, rfl⟩
    rw [← hhigh, ← hlow]
    have hhighUnit : (UInt16.ofNat high).toNat = high :=
      UInt16.toNat_ofNat_of_lt (show high < 0x10000 by omega)
    have hlowUnit : (UInt16.ofNat low).toNat = low :=
      UInt16.toNat_ofNat_of_lt (show low < 0x10000 by omega)
    have hpair : isPair (UInt16.ofNat high) (UInt16.ofNat low) = true := by
      rw [isPair_iff, hhighUnit, hlowUnit]
      omega
    have hpoint : pairPoint (UInt16.ofNat high) (UInt16.ofNat low) = point := by
      unfold pairPoint
      rw [hhighUnit, hlowUnit]
      omega
    rw [List.cons_append, List.singleton_append, points, if_pos hpair, hpoint]

/-- The code points of a text in code units are those of its characters. -/
theorem points_textUnits (text : List Char) : points (textUnits text) = text.map Char.toNat := by
  induction text with
  | nil => rfl
  | cons c text ih =>
    rw [textUnits, List.flatMap_cons, points_pointUnits_append, ← textUnits, ih, List.map_cons]

theorem lt_of_mem_points {point : Nat} {units : List UInt16} (h : point ∈ points units) :
    point < 0x110000 := by
  fun_induction points units with
  | case1 => cases h
  | case2 unit =>
    rw [List.mem_singleton.mp h]
    exact Nat.lt_trans unit.toNat_lt (by decide)
  | case3 high low rest hpair ih =>
    rw [isPair_iff] at hpair
    rcases List.mem_cons.mp h with heq | h
    · rw [heq]
      unfold pairPoint
      omega
    · exact ih h
  | case4 high low rest hpair ih =>
    rcases List.mem_cons.mp h with rfl | h
    · exact Nat.lt_trans high.toNat_lt (by decide)
    · exact ih h

theorem toNat_pointChar {point : Nat} (hbound : point < 0x110000)
    (h : isSurrogate point = false) : (pointChar point).toNat = point := by
  have hvalid : point.isValidChar := by
    simp only [isSurrogate, Bool.and_eq_false_iff, decide_eq_false_iff_not] at h
    unfold Nat.isValidChar
    omega
  rw [pointChar, h, if_neg Bool.false_ne_true, Char.ofNat, dif_pos hvalid]
  rfl

/-! ## Wide texts -/

/-- A text in code units, in which surrogates may stand alone. -/
structure WideText where
  units : List UInt16
deriving DecidableEq, Repr, Inhabited

namespace WideText

/-- A string as a text in code units. -/
def ofString (text : String) : WideText := ⟨textUnits text.toList⟩

instance : Coe String WideText := ⟨ofString⟩

/-- The text with replacement characters for surrogates. -/
def shown (text : WideText) : String := String.ofList ((points text.units).map pointChar)

/-- The text as a string, if there is no surrogate among its code points. -/
def toString? (text : WideText) : Option String :=
  if (points text.units).any isSurrogate then none else some text.shown

theorem shown_ofString (text : String) : (ofString text).shown = text := by
  have hchars : pointChar ∘ Char.toNat = id := funext pointChar_toNat
  rw [shown, ofString, points_textUnits, List.map_map, hchars, List.map_id, String.ofList_toList]

theorem ofString_inj {text other : String} : ofString text = ofString other ↔ text = other :=
  ⟨fun h => by rw [← shown_ofString text, h, shown_ofString], congrArg ofString⟩

/-- The texts that are strings are the texts of these strings. -/
theorem toString?_eq_some_iff {text : WideText} {plain : String} :
    text.toString? = some plain ↔ text = ofString plain := by
  rw [toString?]
  constructor
  · intro h
    split at h
    · cases h
    -- without surrogates, each code point is that of the character which is shown for it
    · next hproper =>
      rw [List.any_eq_true, not_exists] at hproper
      have hpoints : ((points text.units).map pointChar).map Char.toNat = points text.units := by
        have hproper' : ∀ point ∈ points text.units, (pointChar point).toNat = point := by
          intro point hmem
          apply toNat_pointChar (lt_of_mem_points hmem)
          simpa using fun hsurrogate => hproper point ⟨hmem, hsurrogate⟩
        rw [List.map_map, List.map_congr_left (f := Char.toNat ∘ pointChar) (g := id) hproper',
          List.map_id]
      rw [← Option.some.inj h, ofString, shown, String.toList_ofList, textUnits,
        ← List.flatMap_map Char.toNat pointUnits, hpoints, flatMap_pointUnits_points]
  · rintro rfl
    have hproper : (points (ofString plain).units).any isSurrogate = false := by
      simp [ofString, points_textUnits]
    rw [hproper, if_neg Bool.false_ne_true, shown_ofString]

end WideText

end StyleAudit
