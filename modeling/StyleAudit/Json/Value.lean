import StyleAudit.Decimal.Binary64
import StyleAudit.Entries
import StyleAudit.Text.Wide

/-!
# JSON values

Manifests are JSON texts. Whole numbers have any size and are kept apart from numbers with a
fraction or an exponent. An object is a list of entries in writing order with each name once.

A text in JSON is a list of code units, since an escape can name any of them. What the texts of a
value are is left open: they are wide texts where surrogates that stand alone matter, and strings
where there are none.
-/

namespace StyleAudit

/-- A kind of text that the texts in JSON are read into. The strings are among its texts, and a
text that can be written with code units is found again from these. -/
class JsonText (τ : Type) where
  ofUnits : List UInt16 → τ
  units : τ → List UInt16
  ofString : String → τ
  /-- The string that a text is, if it is one. -/
  toString? : τ → Option String
  /-- The text as messages show it. -/
  shown : τ → String
  ofUnits_units (text : τ) : ofUnits (units text) = text
  toString?_eq_some_iff (text : τ) (plain : String) :
    toString? text = some plain ↔ text = ofString plain

namespace JsonText

instance : JsonText WideText where
  ofUnits := WideText.mk
  units := WideText.units
  ofString := WideText.ofString
  toString? := WideText.toString?
  shown := WideText.shown
  ofUnits_units _ := rfl
  toString?_eq_some_iff _ _ := WideText.toString?_eq_some_iff

@[default_instance]
instance : JsonText String where
  ofUnits units := (WideText.mk units).shown
  units text := textUnits text.toList
  ofString := id
  toString? := some
  shown := id
  ofUnits_units := WideText.shown_ofString
  toString?_eq_some_iff _ _ := Option.some_inj

@[simp] theorem ofString_string (text : String) : (ofString text : String) = text := rfl

@[simp] theorem toString?_string (text : String) : toString? text = some text := rfl

@[simp] theorem shown_string (text : String) : shown text = text := rfl

end JsonText

/-- A JSON value. -/
inductive Json (τ : Type := String) where
  | null
  | bool (value : Bool)
  | int (value : Int)
  | float (value : Binary64)
  | str (value : τ)
  | arr (items : List (Json τ))
  | obj (entries : List (τ × Json τ))
deriving Repr, Inhabited

namespace Json

/-- The value of an entry. -/
def entry? {τ : Type} [DecidableEq τ] [JsonText τ] (entries : List (τ × Json τ)) (name : String) :
    Option (Json τ) :=
  entries.lookup (JsonText.ofString name)

end Json

end StyleAudit
