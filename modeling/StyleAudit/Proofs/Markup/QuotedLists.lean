import StyleAudit.Proofs.Markup.Sites

/-!
# Class lists in quotes

A class list in quotes can be the value of an attribute, or stand in an expression. It names the
same classes wherever it stands, as long as there are no quotes in it: an operand of a sum is read
without its quotes, and those inside go with those around it (`quotedList_gives`).
-/

namespace StyleAudit

/-- A class list on one line between two quotes. Quotes of other kinds can stand in it, and so can
brackets and operators. -/
structure QuotedList where
  quote : Char
  names : List Char
  isPlainQuote : IsPlainQuote quote
  plain : ∀ c ∈ names, c ≠ quote ∧ c ≠ '\\' ∧ c ≠ '\n'

namespace QuotedList

variable (list : QuotedList)

/-- The class list with its quotes. -/
def text : List Char := list.quote :: (list.names ++ [list.quote])

/-- The class list as a unit of code. -/
def literal : Lexeme := .literal list.quote list.names

theorem prints : Prints [list.literal] list.text := by
  obtain ⟨quote, names, hquote, hplain⟩ := list
  show Prints [.literal quote names] (Lexeme.literal quote names).text
  refine Prints.unit rfl (fun _ => ⟨hquote, ?_⟩) rfl
  induction names with
  | nil => exact .nil
  | cons c names ih =>
    obtain ⟨hne, hslash, hline⟩ := hplain c List.mem_cons_self
    exact .char hslash hne hline (ih fun d hd => hplain d (List.mem_cons_of_mem _ hd))

theorem quote_not_mem : list.quote ∉ list.names := fun h => (list.plain _ h).1 rfl

end QuotedList

/-- What is read of a class list in a slot. Only a branch is read from the inside. -/
def Slot.kept (names : List Char) : Slot → List Char
  | branch _ _ => names
  | _ => names.filter fun c => !isQuote c

theorem Slot.kept_of_not_isQuote {names : List Char} (h : ∀ c ∈ names, isQuote c = false)
    (slot : Slot) : slot.kept names = names := by
  have hfilter : names.filter (fun c => !isQuote c) = names := by
    rw [List.filter_eq_self]
    intro c hc
    simp [h c hc]
  cases slot with
  | branch condition other => rfl
  | _ => exact hfilter

theorem Slot.flatMap_unitPieces_literal (list : QuotedList) (slot : Slot) (start : Nat)
    (line : Int) (path : String) (text : List Char) :
    (slot.unitPieces start list.literal).flatMap (Piece.occurrences line path text)
      = classListAt line path (slot.kept list.names) := by
  have hbranch := Tree.literal_branchPieces start list.quote list.names
  have hoperand := Tree.literal_operandPieces list.isPlainQuote.isQuote start list.names
  cases slot with
  | branch condition other =>
    show (branchPieces start [.literal list.quote list.names]).flatMap _ = _
    rw [hbranch, List.flatMap_singleton]
    rfl
  | _ =>
    show (operandPieces start [.literal list.quote list.names]).flatMap _ = _
    rw [hoperand, List.flatMap_singleton]
    rfl

/-- A class list in quotes gives its class names on the attribute's line where it is the value. In
every slot of a value in braces it gives, between the words around it, the class names of what is
kept of it: all of it in a branch, and elsewhere what is left without quotes of any kind. -/
theorem quotedList_gives {dialect : Dialect} {path : String} (site : Site dialect path)
    (list : QuotedList) :
    site.Gives list.text (classListAt site.line path list.names)
      ∧ ∀ (slot : Slot) (before after : Tree.Blanks),
        site.Gives (slot.value before after list.text)
            (slot.withWords before after site.line path list.text
              (classListAt site.line path (slot.kept list.names)))
          ∧ ((∀ c ∈ list.names, isQuote c = false) → slot.kept list.names = list.names) := by
  have hunit : ∀ c, list.literal ≠ .char c := by simp [QuotedList.literal]
  refine ⟨site.gives_quoted list.isPlainQuote list.quote_not_mem, fun slot before after => ?_⟩
  refine ⟨?_, fun hplain => slot.kept_of_not_isQuote hplain⟩
  have hsole : soleTemplate? (slot.code before after list.literal) = none :=
    slot.soleTemplate?_code before after hunit fun _ => by simp [QuotedList.literal]
  have hgives := site.gives_braced (slot.prints before after list.prints)
  have hcode := slot.occurrencesIn_code before after list.prints hunit site.line path
  rw [slot.flatMap_unitPieces_literal list] at hcode
  rw [bracedOccurrences, hsole] at hgives
  rw [hcode] at hgives
  exact hgives

/-- A class list with two names. -/
def twoNames : QuotedList where
  quote := '\''
  names := ['a', ' ', 'b']
  isPlainQuote := .inr rfl
  plain := by simp

theorem quotedList_gives_twoNames :
    (∀ c ∈ twoNames.names, isQuote c = false)
      ∧ secondParagraph.Gives
        ((Slot.operand singleWord).value ⟨[], nil_blank⟩ ⟨[], nil_blank⟩ twoNames.text)
        [.dynamic ⟨"v", 2, "p"⟩, .named ⟨"a", 2, "p"⟩, .named ⟨"b", 2, "p"⟩] := by
  have hplain : ∀ c ∈ twoNames.names, isQuote c = false := by simp [twoNames, isQuote, backtick]
  obtain ⟨hgives, hkept⟩ := (quotedList_gives secondParagraph twoNames).2 (.operand singleWord)
    ⟨[], nil_blank⟩ ⟨[], nil_blank⟩
  rw [hkept hplain] at hgives
  refine ⟨hplain, ?_⟩
  convert hgives using 1
  decide +kernel

set_option maxRecDepth 10000 in
/-- In an attribute a quote may stand in a class name, but in braces it is taken off. -/
theorem quotedList_filtered :
    markupOccurrences? .html "class=\"before:content-['x']\"".toList "p"
        = .ok [.named ⟨"before:content-['x']", 1, "p"⟩]
      ∧ markupOccurrences? .html "class=\x7b\"before:content-['x']\"\x7d".toList "p"
        = .ok [.named ⟨"before:content-[x]", 1, "p"⟩] := by
  constructor <;> cbv

end StyleAudit
