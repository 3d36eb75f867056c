import Mathlib.Logic.Relation
import StyleAudit.Expression
import StyleAudit.Proofs.Code.Slices

/-!
# Taking an expression apart, stage by stage

`pieces` goes from an expression to its branches or operands, from there through parentheses or
into a template, and from a template into its holes. `Stage.Enters` is one such step and a stage
is *reached* after any number of them.

Every stage is a slice of faithful code, so its text reads back as the stage
(`Stage.rereads_of_reached`): whoever scans the slices of an expression one by one, as texts on
their own, meets no open quote at any depth, and finds the closing bracket of every hole.
-/

namespace StyleAudit

/-- What the recursion over an expression looks at. -/
inductive Stage where
  | expression (code : Code)
  | branch (code : Code)
  | operand (code : Code)
  | template (parts : List Part)

namespace Stage

/-- One recursive call. -/
inductive Enters : Stage → Stage → Prop where
  | yes {code : Code} {cut : Code.Conditional} (h : code.blanked.trim.conditional? = some cut) :
      Enters (.expression code) (.branch cut.yes)
  | no {code : Code} {cut : Code.Conditional} (h : code.blanked.trim.conditional? = some cut) :
      Enters (.expression code) (.branch cut.no)
  | summand {code operand : Code} (hcut : code.blanked.trim.conditional? = none)
      (h : operand ∈ code.blanked.trim.operands) : Enters (.expression code) (.operand operand)
  | branchTemplate {code : Code} {parts : List Part} (h : code.trim = [.template parts]) :
      Enters (.branch code) (.template parts)
  | branchGroup {code inner : Code} (h : code.trim.unwrap? = some inner) :
      Enters (.branch code) (.expression inner)
  | branchConditional {code : Code} (h : code.trim.conditional?.isSome = true) :
      Enters (.branch code) (.expression code.trim)
  | operandTemplate {code : Code} {parts : List Part} (h : code.trim = [.template parts]) :
      Enters (.operand code) (.template parts)
  | operandGroup {code inner : Code} (h : code.trim.unwrap? = some inner) :
      Enters (.operand code) (.expression inner)
  | hole {parts : List Part} {code : Code} {closer : Char} (h : .hole code closer ∈ parts) :
      Enters (.template parts) (.expression code)

/-- A stage that comes after any number of recursive calls. -/
def Reaches : Stage → Stage → Prop := Relation.ReflTransGen Enters

/-- A stage whose units are faithful. -/
def Sound : Stage → Prop
  | .expression units | .branch units | .operand units => Faithful (.code units none)
  | .template parts => Faithful (.template parts (some backtick))

/-- Reading the texts of a stage anew gives the stage: the whole of it, and what is left once its
comments and the blanks around it are gone. In a template, the brace of every hole is closed where
the hole ends, and what stands up to there is the text of the hole. -/
def Rereads : Stage → Prop
  | .expression units => Code.ofText? units.text = .ok units
      ∧ Code.ofText? units.blanked.trim.text = .ok units.blanked.trim
  | .branch units | .operand units => Code.ofText? units.text = .ok units
      ∧ Code.ofText? units.trim.text = .ok units.trim
  | .template parts => ∀ code start, Span.hole code start ∈ spans 0 [] parts →
      closingBracket? (partsText parts) (start - 1) = .ok (some (start + code.width))
        ∧ (partsText parts).extract start (start + code.width) = code.text

end Stage

/-! ## Holes -/

/-- Where a hole among the stretches of a template stands among its parts. -/
theorem exists_parts_of_mem_spans {code : Code} {n start : Nat} {done : List Char}
    {parts : List Part} (h : Span.hole code n ∈ spans start done parts) :
    ∃ before closer after, parts = before ++ .hole code closer :: after
      ∧ n = start + (partsText before).length + 2 := by
  fun_induction spans start done parts with
  | case1 => simp at h
  | case2 start done c parts ih =>
    obtain ⟨before, closer, after, rfl, rfl⟩ := ih h
    refine ⟨.char c :: before, closer, after, rfl, ?_⟩
    simp only [partsText, Part.text, List.length_append, List.length_singleton]
    omega
  | case3 start done code' closer' parts ih =>
    rcases List.mem_cons.1 h with h | h
    · cases h
    rcases List.mem_cons.1 h with h | h
    · cases h
      exact ⟨[], closer', parts, rfl, rfl⟩
    · obtain ⟨before, closer, after, rfl, rfl⟩ := ih h
      refine ⟨.hole code' closer' :: before, closer, after, rfl, ?_⟩
      simp only [partsText, List.length_append]
      omega

/-- What a template holds from the brace of a hole on. -/
theorem drop_of_mem_spans {parts : List Part} {code : Code} {start : Nat}
    (h : Span.hole code start ∈ spans 0 [] parts) : ∃ closer behind, .hole code closer ∈ parts
      ∧ 0 < start ∧ start + code.width + 1 + behind.length = (partsText parts).length
      ∧ (partsText parts).drop (start - 1) = '\x7b' :: (codeText code ++ closer :: behind) := by
  obtain ⟨before, closer, after, rfl, rfl⟩ := exists_parts_of_mem_spans h
  -- the brace is the second character of the hole
  have htext : partsText (before ++ .hole code closer :: after)
      = (partsText before ++ ['$']) ++ '\x7b' :: (codeText code ++ closer :: partsText after) := by
    simp [partsText_append, partsText, Part.text]
  refine ⟨closer, partsText after, by simp, by omega, ?_, ?_⟩
  · rw [htext]
    simp only [List.length_append, List.length_cons, List.length_nil, Code.width]
    omega
  · rw [htext]
    exact List.drop_left' (by simp)

/-- What a template holds from the code of a hole on. -/
theorem drop_code_of_mem_spans {parts : List Part} {code : Code} {start : Nat}
    (h : Span.hole code start ∈ spans 0 [] parts) : ∃ closer behind, .hole code closer ∈ parts
      ∧ (partsText parts).drop start = codeText code ++ closer :: behind := by
  obtain ⟨closer, behind, hhole, hpos, -, hdrop⟩ := drop_of_mem_spans h
  have htail := congrArg List.tail hdrop
  rw [List.tail_drop, Nat.sub_add_cancel hpos, List.tail_cons] at htail
  exact ⟨closer, behind, hhole, htail⟩

/-- From the brace of a hole, the scan for its closing bracket finds the end of the hole. -/
theorem closingBracket?_of_hole {parts : List Part} {code : Code} {start : Nat}
    (h : Faithful (.template parts (some backtick)))
    (hmem : Span.hole code start ∈ spans 0 [] parts) :
    closingBracket? (partsText parts) (start - 1) = .ok (some (start + code.width)) := by
  obtain ⟨closer, behind, hhole, -, hlength, hdrop⟩ := drop_of_mem_spans hmem
  rw [closingBracket?, hdrop, read_group (by decide) (enclosed_of_hole h hhole)]
  simp only
  congr 2
  omega

theorem extract_of_hole {parts : List Part} {code : Code} {start : Nat}
    (hmem : Span.hole code start ∈ spans 0 [] parts) :
    (partsText parts).extract start (start + code.width) = code.text := by
  obtain ⟨closer, behind, -, hdrop⟩ := drop_code_of_mem_spans hmem
  rw [List.extract_eq_take_drop, hdrop, Nat.add_sub_cancel_left]
  exact List.take_left

/-! ## Every stage is faithful -/

namespace Stage

theorem sound_of_unwrap? {units inner : Code} (h : Faithful (.code units none))
    (hunwrap : units.trim.unwrap? = some inner) : Faithful (.code inner none) := by
  obtain ⟨closer, htrim, -⟩ := unwrap?_eq_some_iff.1 hunwrap
  refine h.of_slice (.trans ?_ (trim_slice units))
  rw [htrim]
  exact ⟨[.char '('], [.char closer], by simp⟩

theorem sound_of_template {units : Code} {parts : List Part} (h : Faithful (.code units none))
    (htrim : units.trim = [.template parts]) : Faithful (.template parts (some backtick)) := by
  have hsole : Faithful (.code [.template parts] none) := htrim ▸ h.of_slice (trim_slice units)
  exact (faithful_cons.1 hsole).1

theorem Enters.sound {stage next : Stage} (h : Enters stage next) (hsound : stage.Sound) :
    next.Sound := by
  -- a step takes a slice, after the blanking of comments where it starts from an expression
  cases h with
  | @yes code cut h =>
    refine (Faithful.blanked hsound).of_slice (.trans ?_ (trim_slice _))
    rw [conditional?_eq h]
    exact ⟨cut.condition ++ [.char '?'], .char ':' :: cut.no, by simp⟩
  | @no code cut h =>
    refine (Faithful.blanked hsound).of_slice (.trans ?_ (trim_slice _))
    rw [conditional?_eq h]
    exact ⟨cut.condition ++ .char '?' :: (cut.yes ++ [.char ':']), [], by simp⟩
  | summand _ h =>
    exact (Faithful.blanked hsound).of_slice ((operands_slice h).trans (trim_slice _))
  | branchTemplate h => exact sound_of_template hsound h
  | branchGroup h => exact sound_of_unwrap? hsound h
  | branchConditional _ => exact Faithful.of_slice (trim_slice _) hsound
  | operandTemplate h => exact sound_of_template hsound h
  | operandGroup h => exact sound_of_unwrap? hsound h
  | hole h => exact (enclosed_of_hole hsound h).faithful.at_end

theorem Reaches.sound {stage last : Stage} (h : Reaches stage last) (hsound : stage.Sound) :
    last.Sound := by
  induction h with
  | refl => exact hsound
  | tail _ henters ih =>
    -- one more call at the end
    exact henters.sound ih

theorem Sound.rereads {stage : Stage} (h : stage.Sound) : stage.Rereads := by
  cases stage with
  | expression units =>
    exact ⟨h.ofText?_text, ((Faithful.blanked h).of_slice (trim_slice _)).ofText?_text⟩
  | branch units => exact ⟨h.ofText?_text, (Faithful.of_slice (trim_slice _) h).ofText?_text⟩
  | operand units => exact ⟨h.ofText?_text, (Faithful.of_slice (trim_slice _) h).ofText?_text⟩
  | template parts =>
    intro code start hmem
    exact ⟨closingBracket?_of_hole h hmem, extract_of_hole hmem⟩

/-- Whatever is reached from faithful code reads back. -/
theorem rereads_of_reached {stage last : Stage} (hsound : stage.Sound) (h : Reaches stage last) :
    last.Rereads :=
  (h.sound hsound).rereads

end Stage

end StyleAudit
