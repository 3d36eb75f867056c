import Mathlib.Logic.Relation
import StyleAudit.Proofs.Code.Bare
import StyleAudit.Proofs.Code.Pass
import StyleAudit.Proofs.Outcome

/-!
# Interpreting text by text

`pieces` takes an expression apart that has been read once. The same can be done on texts alone:
a slice of the expression is scanned, the scan says where to cut it, and each of the slices cut out
is a text of its own that is scanned anew (`Slice.items`, `Slice.pieces`). Every one of these scans
could meet an open quote or a hole without an end.

None does. On the text of faithful code each scan succeeds, and it cuts the text where the code is
cut, so going through the texts gives the pieces of the code (`Stage.pieces_slice`).
-/

namespace StyleAudit

/-! ## Slices -/

/-- What the text of a slice is taken for. A template is the text between its backticks. -/
inductive Form where
  | expression
  | branch
  | operand
  | template
deriving DecidableEq, Repr

/-- A slice of an expression: its text, and the position it starts at. -/
structure Slice where
  form : Form
  text : List Char
  start : Nat
deriving DecidableEq, Repr

/-- What a slice consists of: pieces, and slices that have to be scanned themselves. -/
inductive Item where
  | piece (piece : Piece)
  | slice (slice : Slice)
deriving DecidableEq, Repr

/-- Why a slice cannot be scanned. -/
inductive SliceFault where
  | scan (fault : ScanError)
  /-- The text ends in the hole that starts at a position. -/
  | openHole (start : Nat)
deriving DecidableEq, Repr

/-- The fault of a scan as the fault of a slice. -/
def scanned {α : Type} (result : Except ScanError α) : Except SliceFault α :=
  result.mapError .scan

/-- The place of the colon that belongs to a question mark in front of `places`; `pending` question
marks in between have no colon yet. -/
def colonPlace? (text : List Char) (pending : Nat) : List Nat → Option Nat
  | [] => none
  | place :: places =>
    if text[place]? = some '?' then colonPlace? text (pending + 1) places
    else
      match pending with
      | 0 => some place
      | pending + 1 => colonPlace? text pending places

/-- The places of the first question mark and the colon that belongs to it. -/
def choicePlaces? (text : List Char) : List Nat → Option (Nat × Nat)
  | [] => none
  | place :: places =>
    if text[place]? = some '?' then (colonPlace? text 0 places).map fun colon => (place, colon)
    else choicePlaces? text places

/-- The question mark and the colon of a conditional. -/
def scanChoice (text : List Char) : Except SliceFault (Option (Nat × Nat)) :=
  scanned ((topLevelPlaces choiceMarks text).map (choicePlaces? text))

/-- Whether the whole of a text stands in one pair of parentheses. -/
def scanGroup (text : List Char) : Except SliceFault Bool :=
  if text.head? = some '(' then
    scanned ((closingBracket? text 0).map fun stop => stop = some (text.length - 1))
  else .ok false

/-- Whether the whole of a text is one quoted unit. -/
def scanQuoted (text : List Char) : Except SliceFault Bool :=
  if 2 ≤ text.length ∧ text.head?.any isQuote then
    scanned ((closingQuote text 0).map fun stop => stop = text.length - 1)
  else .ok false

/-- The ranges between places. -/
def rangesFrom (start stop : Nat) : List Nat → List (Nat × Nat)
  | [] => [(start, stop)]
  | place :: places => (start, place) :: rangesFrom (place + 1) stop places

/-- The text inside the first and the last character. -/
def inside (text : List Char) : List Char := text.extract 1 (text.length - 1)

/-- The position behind the bracket that a scan finds is further on. -/
theorem lt_of_closingBracket? {text : List Char} {start stop : Nat} {c : Char}
    (hc : text[start]? = some c) (hopen : isOpener c = true)
    (h : closingBracket? text start = .ok (some stop)) : start < stop ∧ stop < text.length := by
  obtain ⟨hlt, hderives⟩ := (closingBracket?_eq_some_iff hc hopen).mp h
  obtain ⟨opener, code, closer, htext, -, -⟩ := hderives.spelled
  have hwidth := congrArg List.length htext
  rw [List.extract_eq_take_drop, List.length_take, List.length_drop] at hwidth
  simp only [List.length_cons, List.length_append] at hwidth
  omega

/-- The items of a template from a place on; the text from `front` on is not in an item yet. -/
def templateItemsFrom (start : Nat) (text : List Char) (front place : Nat) :
    Except SliceFault (List Item) :=
  match _hrest : text.drop place with
  | [] => .ok [.piece (.literal (text.drop front) (start + front))]
  | '\\' :: _ => templateItemsFrom start text front (place + 2)
  | '$' :: '\x7b' :: _ =>
    match _hstop : closingBracket? text (place + 1) with
    | .error fault => .error (.scan fault)
    | .ok none => .error (.openHole place)
    | .ok (some stop) =>
      (templateItemsFrom start text (stop + 1) (stop + 1)).map fun items =>
        .piece (.literal (text.extract front place) (start + front))
          :: .slice ⟨.expression, text.extract (place + 2) stop, start + place + 2⟩ :: items
  | _ :: _ => templateItemsFrom start text front (place + 1)
termination_by text.length - place
decreasing_by
  all_goals
    have hlength := congrArg List.length _hrest
    simp only [List.length_drop, List.length_cons] at hlength
  · omega
  · have hbrace : text[place + 1]? = some '\x7b' := by
      rw [← List.getElem?_drop, _hrest]
      rfl
    have hstop := lt_of_closingBracket? hbrace (by decide) _hstop
    omega
  · omega

/-- The items of an expression: the branches of a conditional, or else the operands of a sum. -/
def expressionItems (start : Nat) (text : List Char) : Except SliceFault (List Item) := do
  let shown ← scanned (blankComments text)
  let body := strip shown
  let start := start + leadOf shown
  if body = [] then return []
  match ← scanChoice body with
  | some (question, colon) =>
    return [.slice ⟨.branch, body.extract (question + 1) colon, start + question + 1⟩,
      .slice ⟨.branch, body.drop (colon + 1), start + colon + 1⟩]
  | none =>
    let places ← scanned (topLevelPlaces sumMarks body)
    return (rangesFrom 0 body.length places).map fun range =>
      .slice ⟨.operand, body.extract range.1 range.2, start + range.1⟩

/-- The item of a branch that is not empty and starts at a position. -/
def branchItem (start : Nat) (body : List Char) : Except SliceFault Item := do
  if ← scanQuoted body then
    if body.head? = some backtick then return .slice ⟨.template, inside body, start + 1⟩
    else return .piece (.literal (inside body) (start + 1))
  else if ← scanGroup body then return .slice ⟨.expression, inside body, start + 1⟩
  else if (← scanChoice body).isSome then return .slice ⟨.expression, body, start⟩
  else return .piece (.dynamic body start)

/-- The item of an operand that is not empty and starts at a position. -/
def operandItem (start : Nat) (body : List Char) : Except SliceFault Item := do
  if ← scanGroup body then return .slice ⟨.expression, inside body, start + 1⟩
  else if ← (if body.head? = some backtick then scanQuoted body else .ok false) then
    return .slice ⟨.template, inside body, start + 1⟩
  else if body.any isQuote then return .piece (.literal (body.filter fun c => !isQuote c) start)
  else return .piece (.dynamic body start)

/-- The only item of a text, of which the blanks around it are no part; blanks alone have none. -/
def strippedItems (item : Nat → List Char → Except SliceFault Item) (start : Nat)
    (text : List Char) : Except SliceFault (List Item) :=
  if strip text = [] then .ok []
  else (item (start + leadOf text) (strip text)).map fun found => [found]

/-- What a slice consists of. -/
def Slice.items (slice : Slice) : Except SliceFault (List Item) :=
  match slice.form with
  | .expression => expressionItems slice.start slice.text
  | .branch => strippedItems branchItem slice.start slice.text
  | .operand => strippedItems operandItem slice.start slice.text
  | .template => templateItemsFrom slice.start slice.text 0 0

/-! ## Slices get smaller -/

/-- The length of a slice, and for slices of one text the order they are entered in. -/
def Slice.rank (slice : Slice) : Nat :=
  match slice.form with
  | .expression => 3 * slice.text.length + 1
  | .branch => 3 * slice.text.length + 2
  | .operand | .template => 3 * slice.text.length

theorem length_strip_le (text : List Char) : (strip text).length ≤ text.length := by
  rw [strip, List.length_reverse]
  have hback :=
    (List.dropWhile_sublist (p := isBlank) (l := (text.dropWhile isBlank).reverse)).length_le
  have hfront := (List.dropWhile_sublist (p := isBlank) (l := text)).length_le
  rw [List.length_reverse] at hback
  omega

theorem length_extract_le (text : List Char) (start stop : Nat) :
    (text.extract start stop).length ≤ text.length - start := by
  rw [List.extract_eq_take_drop, List.length_take, List.length_drop]
  exact Nat.min_le_right _ _

theorem length_inside_lt {text : List Char} (h : text ≠ []) :
    (inside text).length < text.length := by
  have hpos := List.length_pos_iff.mpr h
  have hinside := length_extract_le text 1 (text.length - 1)
  rw [inside]
  omega

/-- The slices among the items of a slice have a lower rank. -/
def Descends (rank : Nat) (items : List Item) : Prop :=
  ∀ slice, .slice slice ∈ items → slice.rank < rank

theorem scanned_eq_ok {α : Type} {result : Except ScanError α} {a : α}
    (h : scanned result = .ok a) : result = .ok a := by
  cases result with
  | error => cases h
  | ok => exact congrArg Except.ok (Except.ok.inj h)

theorem descends_expressionItems {start : Nat} {text : List Char} {items : List Item}
    (h : expressionItems start text = .ok items) : Descends (3 * text.length + 1) items := by
  obtain ⟨shown, hshown, h⟩ := bind_eq_ok h
  have hlength := length_of_blankComments (scanned_eq_ok hshown)
  have hbody := length_strip_le shown
  simp only at h
  split at h
  · cases h
    simp [Descends]
  · next hne =>
    have hpos := List.length_pos_iff.mpr hne
    obtain ⟨choice, -, h⟩ := bind_eq_ok h
    cases choice with
    | some places =>
      obtain ⟨question, colon⟩ := places
      cases h
      have hyes := length_extract_le (strip shown) (question + 1) colon
      intro slice hmem
      simp only [List.mem_cons, Item.slice.injEq, List.not_mem_nil, or_false] at hmem
      rcases hmem with rfl | rfl
      · simp only [Slice.rank]
        omega
      · simp only [Slice.rank, List.length_drop]
        omega
    | none =>
      obtain ⟨places, -, h⟩ := bind_eq_ok h
      cases h
      intro slice hmem
      obtain ⟨range, -, heq⟩ := List.mem_map.mp hmem
      obtain rfl := Item.slice.inj heq
      have hoperand := length_extract_le (strip shown) range.1 range.2
      simp only [Slice.rank]
      omega

theorem rank_lt_of_branchItem {start : Nat} {body : List Char} {slice : Slice} (hbody : body ≠ [])
    (h : branchItem start body = .ok (.slice slice)) : slice.rank < 3 * body.length + 2 := by
  have hinside := length_inside_lt hbody
  obtain ⟨quoted, -, h⟩ := bind_eq_ok h
  split at h
  · split at h
    · cases h
      simp only [Slice.rank]
      omega
    · cases h
  obtain ⟨group, -, h⟩ := bind_eq_ok h
  split at h
  · cases h
    simp only [Slice.rank]
    omega
  obtain ⟨choice, -, h⟩ := bind_eq_ok h
  split at h
  · cases h
    simp only [Slice.rank]
    omega
  · cases h

theorem rank_lt_of_operandItem {start : Nat} {body : List Char} {slice : Slice} (hbody : body ≠ [])
    (h : operandItem start body = .ok (.slice slice)) : slice.rank < 3 * body.length := by
  have hinside := length_inside_lt hbody
  obtain ⟨group, -, h⟩ := bind_eq_ok h
  split at h
  · cases h
    simp only [Slice.rank]
    omega
  obtain ⟨quoted, -, h⟩ := bind_eq_ok h
  split at h
  · cases h
    simp only [Slice.rank]
    omega
  split at h
  · cases h
  · cases h

theorem descends_strippedItems {item : Nat → List Char → Except SliceFault Item} {extra : Nat}
    (hitem : ∀ start body slice, body ≠ [] → item start body = .ok (.slice slice) →
      slice.rank < 3 * body.length + extra)
    {start : Nat} {text : List Char} {items : List Item}
    (h : strippedItems item start text = .ok items) : Descends (3 * text.length + extra) items := by
  have hlength := length_strip_le text
  unfold strippedItems at h
  split at h
  · cases h
    simp [Descends]
  · next hne =>
    cases hfound : item (start + leadOf text) (strip text) with
    | error fault =>
      rw [hfound] at h
      cases h
    | ok found =>
      rw [hfound] at h
      cases h
      intro slice hmem
      obtain rfl := List.mem_singleton.mp hmem
      have hlt := hitem _ _ _ hne hfound
      omega

theorem descends_templateItemsFrom {start : Nat} {text : List Char} {front place : Nat}
    {items : List Item} (h : templateItemsFrom start text front place = .ok items) :
    Descends (3 * text.length) items := by
  fun_induction templateItemsFrom start text front place generalizing items with
  | case1 front place hrest =>
    cases h
    simp [Descends]
  | case2 front place tail hrest ih => exact ih h
  | case3 front place tail hrest fault hstop => cases h
  | case4 front place tail hrest hstop => cases h
  | case5 front place tail hrest stop hstop ih =>
    cases hmore : templateItemsFrom start text (stop + 1) (stop + 1) with
    | error fault =>
      rw [hmore] at h
      cases h
    | ok more =>
      rw [hmore] at h
      cases h
      have hlength := congrArg List.length hrest
      have hhole := length_extract_le text (place + 2) stop
      simp only [List.length_drop, List.length_cons] at hlength
      intro slice hmem
      simp only [List.mem_cons, reduceCtorEq, Item.slice.injEq, false_or] at hmem
      rcases hmem with rfl | hmem
      · simp only [Slice.rank]
        omega
      · exact ih hmore slice hmem
  | case6 front place c tail _ hrest _ ih => exact ih h

theorem Slice.descends {slice : Slice} {items : List Item} (h : slice.items = .ok items) :
    Descends slice.rank items := by
  obtain ⟨form, text, start⟩ := slice
  cases form with
  | expression => exact descends_expressionItems h
  | branch =>
    exact @descends_strippedItems branchItem 2 (fun _ _ _ => rank_lt_of_branchItem) start text
      items h
  | operand =>
    exact @descends_strippedItems operandItem 0 (fun _ _ _ => rank_lt_of_operandItem) start text
      items h
  | template => exact descends_templateItemsFrom h

/-! ## Going through the slices -/

/-- The pieces of a slice: every slice among its items is scanned in its turn. -/
def Slice.pieces (slice : Slice) : Except SliceFault (List Piece) :=
  match _hitems : slice.items with
  | .error fault => .error fault
  | .ok items => do
    let found ← items.attach.mapM fun
      | ⟨.piece piece, _⟩ => return [piece]
      | ⟨.slice inner, _⟩ => inner.pieces
    return found.flatten
termination_by slice.rank
decreasing_by exact Slice.descends _hitems _ ‹_›

/-- The pieces of an item. -/
def Item.pieces : Item → Except SliceFault (List Piece)
  | .piece found => .ok [found]
  | .slice inner => inner.pieces

theorem Slice.pieces_eq {slice : Slice} {items : List Item} (hitems : slice.items = .ok items) :
    slice.pieces = (do return (← items.mapM Item.pieces).flatten) := by
  rw [Slice.pieces]
  split
  · next fault hfault => simp [hitems] at hfault
  · next items' hitems' =>
    obtain rfl := Except.ok.inj (hitems.symm.trans hitems')
    rw [List.mapM_subtype (g := Item.pieces), List.unattach_attach]
    intro item _
    cases item <;> rfl

/-- If every item gives its pieces, so does the slice. -/
theorem Slice.pieces_of_items {slice : Slice} {items : List Item} {found : List (List Piece)}
    (hitems : slice.items = .ok items)
    (hfound : List.Forall₂ (fun item pieces => item.pieces = .ok pieces) items found) :
    slice.pieces = .ok found.flatten := by
  rw [Slice.pieces_eq hitems, mapM_eq_ok hfound]
  rfl

/-- A slice gives its pieces only if every slice among its items does. -/
theorem Slice.items_of_pieces {slice : Slice} {found : List Piece} (h : slice.pieces = .ok found) :
    ∃ items, slice.items = .ok items
      ∧ ∀ inner, .slice inner ∈ items → ∃ found, inner.pieces = .ok found := by
  cases hitems : slice.items with
  | error fault =>
    rw [Slice.pieces] at h
    split at h
    · cases h
    · next items hok => simp [hitems] at hok
  | ok items =>
    rw [Slice.pieces_eq hitems] at h
    obtain ⟨found, hfound, -⟩ := bind_eq_ok h
    exact ⟨items, rfl, fun inner hmem => exists_ok_of_mapM hfound hmem⟩

/-- A slice that is scanned, sooner or later, when another one is. -/
def Slice.Reaches : Slice → Slice → Prop :=
  Relation.ReflTransGen fun outer inner => ∃ items, outer.items = .ok items ∧ .slice inner ∈ items

/-- Where a slice gives its pieces, no scan fails at any depth. -/
theorem Slice.Reaches.exists_items {slice inner : Slice} (h : slice.Reaches inner)
    {found : List Piece} (hfound : slice.pieces = .ok found) :
    ∃ items, inner.items = .ok items := by
  have hinner : ∃ found, inner.pieces = .ok found := by
    induction h with
    | refl => exact ⟨found, hfound⟩
    | tail _ hstep ih =>
      obtain ⟨found, hfound⟩ := ih
      obtain ⟨items, hitems, hslices⟩ := Slice.items_of_pieces hfound
      obtain ⟨items', hitems', hmem⟩ := hstep
      obtain rfl := Except.ok.inj (hitems.symm.trans hitems')
      exact hslices _ hmem
  obtain ⟨found, hfound⟩ := hinner
  obtain ⟨items, hitems, -⟩ := Slice.items_of_pieces hfound
  exact ⟨items, hitems⟩

end StyleAudit
