import StyleAudit.Code.Lexeme

/-!
# Which characters stand in comments

The source text of code with a tag on each character: whether it stands in a comment, be it at the
top of the code or inside the holes of its templates. Without the tags it is the text.
-/

namespace StyleAudit

/-- Characters that stand in no comment. -/
def untagged (text : List Char) : List (Char × Bool) := text.map fun c => (c, false)

mutual

/-- The source text of a lexeme with a tag on each character of a comment. -/
def Lexeme.tagged : Lexeme → List (Char × Bool)
  | .char c => untagged [c]
  | .comment text => text.map fun c => (c, true)
  | .literal quote body => untagged (quote :: (body ++ [quote]))
  | .template parts => untagged [backtick] ++ partsTagged parts ++ untagged [backtick]

/-- The source text of a unit of a template with a tag on each character of a comment. -/
def Part.tagged : Part → List (Char × Bool)
  | .char c => untagged [c]
  | .hole code closer => untagged ['$', '\x7b'] ++ codeTagged code ++ untagged [closer]

/-- The source text of code with a tag on each character of a comment. -/
def codeTagged : List Lexeme → List (Char × Bool)
  | [] => []
  | lexeme :: code => lexeme.tagged ++ codeTagged code

/-- The source text between the backticks of a template with a tag on each character of a
comment. -/
def partsTagged : List Part → List (Char × Bool)
  | [] => []
  | part :: parts => part.tagged ++ partsTagged parts

end

@[simp] theorem untagged_nil : untagged [] = [] := rfl

@[simp] theorem map_fst_untagged (text : List Char) : (untagged text).map (·.1) = text := by
  simp [untagged, Function.comp_def]

@[simp] theorem length_untagged (text : List Char) : (untagged text).length = text.length :=
  List.length_map ..

theorem codeTagged_append (a b : Code) : codeTagged (a ++ b) = codeTagged a ++ codeTagged b := by
  induction a with
  | nil => rfl
  | cons lexeme code ih => simp [codeTagged, ih]

mutual

theorem Lexeme.map_fst_tagged (lexeme : Lexeme) : lexeme.tagged.map (·.1) = lexeme.text := by
  cases lexeme with
  | char c => simp [Lexeme.tagged, Lexeme.text]
  | comment text => simp [Lexeme.tagged, Lexeme.text, Function.comp_def]
  | literal quote body => simp [Lexeme.tagged, Lexeme.text]
  | template parts => simp [Lexeme.tagged, Lexeme.text, map_fst_partsTagged parts]

theorem Part.map_fst_tagged (part : Part) : part.tagged.map (·.1) = part.text := by
  cases part with
  | char c => simp [Part.tagged, Part.text]
  | hole code closer => simp [Part.tagged, Part.text, map_fst_codeTagged code]

/-- Without its tags the tagged text of code is its text. -/
theorem map_fst_codeTagged (code : List Lexeme) : (codeTagged code).map (·.1) = codeText code := by
  cases code with
  | nil => rfl
  | cons lexeme code =>
    rw [codeTagged, List.map_append, lexeme.map_fst_tagged, map_fst_codeTagged code, codeText]

theorem map_fst_partsTagged (parts : List Part) :
    (partsTagged parts).map (·.1) = partsText parts := by
  cases parts with
  | nil => rfl
  | cons part parts =>
    rw [partsTagged, List.map_append, part.map_fst_tagged, map_fst_partsTagged parts, partsText]

end

theorem length_codeTagged (code : Code) : (codeTagged code).length = code.width := by
  rw [Code.width, ← map_fst_codeTagged, List.length_map]

end StyleAudit
