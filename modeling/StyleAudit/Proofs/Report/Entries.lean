import StyleAudit.Proofs.Json.Numbers
import StyleAudit.Proofs.Text.Separated
import StyleAudit.Report.Text

/-!
# Entries of a text report

A finding is known from the lines of its entry. In the line of a place the path may have anything in
it, also colons and numbers, since the last colon of the line is the one behind the path
(`reportLine_inj`). In the line of a suggestion the parts are told apart by the quotes around them
(`RelocationFinding.entriesTell`).
-/

namespace StyleAudit

/-! ## Lines about places -/

/-- A number has the same digits in a text report as in a JSON report. -/
theorem toList_toString (n : Int) : (toString n).toList = Json.writeInt n := by
  cases n with
  | ofNat m =>
    have hdigits : (toString (Int.ofNat m)).toList = Json.digits m := Nat.toList_repr
    rw [hdigits, Json.writeInt, if_neg (by simp)]
    rfl
  | negSucc m =>
    have hdigits : (toString (Int.negSucc m)).toList = '-' :: m.succ.repr.toList :=
      String.toList_append
    rw [hdigits, Nat.toList_repr, Json.writeInt, if_pos (Int.negSucc_lt_zero m)]
    rfl

theorem writeInt_inj {n m : Int} (h : Json.writeInt n = Json.writeInt m) : n = m := by
  have hread (n : Int) :
      Json.number? none (Json.writeInt n ++ [])
        = some ((.atom (.int n) : Json.Token String), (Json.writeInt n).length) :=
    Json.number?_writeInt (by simp [Json.EndsNumber]) rfl
  have hsame := hread n
  rw [h, hread m] at hsame
  simpa using hsame.symm

theorem isDigit_or_minus_of_mem {n : Int} {c : Char} (h : c ∈ Json.writeInt n) :
    c.isDigit = true ∨ c = '-' := by
  rw [Json.writeInt] at h
  split at h
  · exact (List.mem_cons.mp h).symm.imp_left Json.isDigit_of_mem_digits
  · exact .inl (Json.isDigit_of_mem_digits h)

theorem writeInt_ne_nil (n : Int) : Json.writeInt n ≠ [] := by
  rw [Json.writeInt]
  split
  · exact List.cons_ne_nil _ _
  · exact Json.digits_ne_nil _

/-- The line numbers of a place as they are written. -/
def numbersText (numbers : List Int) : List Char :=
  [',', ' '].intercalate (numbers.map Json.writeInt)

theorem numbersText_inj {numbers numbers' : List Int}
    (h : numbersText numbers = numbersText numbers') : numbers = numbers' := by
  have hplain (numbers : List Int) :
      ∀ text ∈ numbers.map Json.writeInt, text ≠ [] ∧ ',' ∉ text := by
    rw [List.forall_mem_map]
    intro n _
    exact ⟨writeInt_ne_nil n, fun hmem => absurd (isDigit_or_minus_of_mem hmem) (by decide)⟩
  have hinj : Function.Injective Json.writeInt := fun _ _ => writeInt_inj
  exact hinj.list_map (intercalate_inj (hplain numbers) (hplain numbers') h)

theorem mem_numbersText {numbers : List Int} {c : Char} (h : c ∈ numbersText numbers) :
    c.isDigit = true ∨ c ∈ ['-', ',', ' '] := by
  rcases mem_of_mem_intercalate h with h | ⟨text, htext, h⟩
  · exact .inr (List.mem_cons_of_mem _ h)
  · obtain ⟨n, -, rfl⟩ := List.mem_map.mp htext
    rcases isDigit_or_minus_of_mem h with hc | rfl
    · exact .inl hc
    · exact .inr List.mem_cons_self

theorem toList_reportLine (location : FileLines) : location.reportLine.toList
    = ' ' :: ' ' :: location.path.toList ++ ':' :: ' ' :: numbersText location.lines := by
  have hnumbers : (", ".intercalate (location.lines.map toString)).toList
      = numbersText location.lines := by
    rw [String.toList_intercalate, List.map_map, numbersText]
    exact congrArg _ (List.map_congr_left fun n _ => toList_toString n)
  rw [FileLines.reportLine, String.toList_append, String.toList_append, String.toList_append,
    hnumbers]
  simp

theorem reportLine_inj {location location' : FileLines}
    (h : location.reportLine = location'.reportLine) : location = location' := by
  have htext := congrArg String.toList h
  rw [toList_reportLine, toList_reportLine] at htext
  have hfree (numbers : List Int) : ':' ∉ ' ' :: numbersText numbers := by
    intro hmem
    rcases List.mem_cons.mp hmem with hblank | hmem
    · exact absurd hblank (by decide)
    · exact absurd (mem_numbersText hmem) (by decide)
  -- the path may have colons in it, the numbers behind it have none
  obtain ⟨hpath, hlines⟩ := eq_of_cut_last (hfree _) (hfree _) htext
  obtain ⟨path, lines⟩ := location
  obtain ⟨path', lines'⟩ := location'
  obtain rfl : path = path' := String.toList_inj.mp (by simpa using hpath)
  obtain rfl : lines = lines' := numbersText_inj (List.cons.inj hlines).2
  rfl

/-! ## Entries -/

/-- Whether a line begins with a character. -/
def BeginsWith (c : Char) (line : String) : Prop := line.toList.head? = some c

instance (c : Char) (line : String) : Decidable (BeginsWith c line) :=
  inferInstanceAs (Decidable (_ = _))

theorem beginsWith_append {c : Char} {front : String} (h : BeginsWith c front) (back : String) :
    BeginsWith c (front ++ back) := by
  rw [BeginsWith, String.toList_append, List.head?_append, h]
  rfl

theorem BeginsWith.unique {c d : Char} {line : String} (hc : BeginsWith c line)
    (hd : BeginsWith d line) : c = d :=
  Option.some.inj (hc.symm.trans hd)

/-- Whether a line begins as the first line of an entry does. -/
def opensEntry (line : List Char) : Bool := ['-', ' '].isPrefixOf line

theorem beginsWith_of_opensEntry {line : String} (h : opensEntry line.toList = true) :
    BeginsWith '-' line := by
  obtain ⟨rest, hrest⟩ := List.isPrefixOf_iff_prefix.mp h
  rw [BeginsWith, ← hrest]
  rfl

theorem opensEntry_eq_false {c : Char} {line : String} (hc : c ≠ '-') (h : BeginsWith c line) :
    opensEntry line.toList = false := by
  by_contra hopens
  exact hc (h.unique (beginsWith_of_opensEntry (by simpa using hopens)))

/-- The lines of an entry: the first one begins with a hyphen, and all others are indented. -/
structure IsEntry (head : String) (details : List String) : Prop where
  head : opensEntry head.toList = true
  details : ∀ line ∈ details, BeginsWith ' ' line

/-- Whether a text stays within one line. -/
def OneLine (text : String) : Prop := '\n' ∉ text.toList

instance (text : String) : Decidable (OneLine text) := inferInstanceAs (Decidable (_ ∉ _))

theorem oneLine_append_iff {front back : String} :
    OneLine (front ++ back) ↔ OneLine front ∧ OneLine back := by
  rw [OneLine, String.toList_append, List.mem_append, not_or, OneLine, OneLine]

theorem oneLine_toString (n : Nat) : OneLine (toString n) := by
  intro hmem
  have hdigits : '\n' ∈ Json.digits n := by
    rw [Json.digits, ← Nat.toList_repr]
    exact hmem
  exact absurd (Json.isDigit_of_mem_digits hdigits) (by decide)

/-- Whether findings are known from their entries, and these from the lines of a text. -/
structure EntriesTell {α : Type} (entry : α → List String) (plain : α → Prop) : Prop where
  isEntry : ∀ finding, ∃ head details, entry finding = head :: details ∧ IsEntry head details
  oneLine : ∀ finding, plain finding → ∀ line ∈ entry finding, OneLine line
  inj : ∀ finding finding', plain finding → plain finding' → entry finding = entry finding' →
    finding = finding'

/-- Whether a name and the paths of some places stay within one line each. -/
structure GroupInLines (name : String) (locations : List FileLines) : Prop where
  name : OneLine name
  paths : ∀ location ∈ locations, OneLine location.path

theorem isEntry_groupEntry (name : String) (locations : List FileLines) :
    IsEntry ("- " ++ name) (locations.map FileLines.reportLine) where
  head := by simp [opensEntry, List.isPrefixOf]
  details := by
    rw [List.forall_mem_map]
    intro location _
    rw [BeginsWith, toList_reportLine]
    rfl

theorem oneLine_reportLine {location : FileLines} (h : OneLine location.path) :
    OneLine location.reportLine := by
  have hnumbers : '\n' ∉ numbersText location.lines := fun hmem =>
    absurd (mem_numbersText hmem) (by decide)
  rw [OneLine, toList_reportLine]
  simpa using ⟨h, hnumbers⟩

theorem oneLine_of_mem_groupEntry {name : String} {locations : List FileLines}
    (h : GroupInLines name locations) : ∀ line ∈ groupEntry name locations, OneLine line := by
  rw [groupEntry, List.forall_mem_cons, List.forall_mem_map]
  exact ⟨oneLine_append_iff.mpr ⟨by decide, h.name⟩,
    fun location hlocation => oneLine_reportLine (h.paths location hlocation)⟩

theorem groupEntry_inj {name name' : String} {locations locations' : List FileLines}
    (h : groupEntry name locations = groupEntry name' locations') :
    name = name' ∧ locations = locations' := by
  obtain ⟨hname, hlocations⟩ := List.cons.inj h
  have hinj : Function.Injective FileLines.reportLine := fun _ _ => reportLine_inj
  exact ⟨(String.append_right_inj "- ").mp hname, hinj.list_map hlocations⟩

theorem ClassFinding.entriesTell :
    EntriesTell entry fun finding => GroupInLines finding.name finding.locations where
  isEntry finding := ⟨_, _, rfl, isEntry_groupEntry finding.name finding.locations⟩
  oneLine _ h := oneLine_of_mem_groupEntry h
  inj := by
    rintro ⟨name, locations⟩ ⟨name', locations'⟩ - - h
    obtain ⟨rfl, rfl⟩ := groupEntry_inj h
    rfl

theorem ExpressionFinding.entriesTell :
    EntriesTell entry fun finding => GroupInLines finding.text finding.locations where
  isEntry finding := ⟨_, _, rfl, isEntry_groupEntry finding.text finding.locations⟩
  oneLine _ h := oneLine_of_mem_groupEntry h
  inj := by
    rintro ⟨text, locations⟩ ⟨text', locations'⟩ - - h
    obtain ⟨rfl, rfl⟩ := groupEntry_inj h
    rfl

/-- A directory that a suggestion can name: it has no quote and no line feed in it, and is not what
the root is shown as. -/
structure IsShownDirectory (directory : String) : Prop where
  oneLine : OneLine directory
  no_quote : '\'' ∉ directory.toList
  ne_dot : directory ≠ "."

theorem IsShownDirectory.quote_not_mem {directory : String} (h : IsShownDirectory directory) :
    '\'' ∉ (shownDirectory directory).toList := by
  rw [shownDirectory]
  split
  · decide
  · exact h.no_quote

theorem IsShownDirectory.oneLine_shown {directory : String} (h : IsShownDirectory directory) :
    OneLine (shownDirectory directory) := by
  rw [shownDirectory]
  split
  · simp [OneLine]
  · exact h.oneLine

theorem shownDirectory_inj {directory directory' : String} (h : directory ≠ ".")
    (h' : directory' ≠ ".") (heq : shownDirectory directory = shownDirectory directory') :
    directory = directory' := by
  simp only [shownDirectory] at heq
  split at heq
  · next hempty =>
    split at heq
    · next hempty' => rw [String.isEmpty_iff.mp hempty, String.isEmpty_iff.mp hempty']
    · exact absurd heq.symm h'
  · split at heq
    · exact absurd heq h
    · exact heq

/-- A suggestion that is known from its entry: there is no line feed in it, no quote in the name
of its class, and its directories are known from what they are shown as. -/
structure RelocationFinding.IsShown (finding : RelocationFinding) : Prop where
  name : OneLine finding.name
  no_quote : '\'' ∉ finding.name.toList
  source : IsShownDirectory finding.source
  target : IsShownDirectory finding.target
  uses : ∀ path ∈ finding.uses, OneLine path

theorem RelocationFinding.entriesTell : EntriesTell entry IsShown where
  isEntry finding := by
    refine ⟨_, _, rfl, ?_, ?_⟩
    · simp [opensEntry, List.isPrefixOf]
    · rw [List.forall_mem_cons, List.forall_mem_map]
      exact ⟨by decide, fun path _ => beginsWith_append (by decide) path⟩
  oneLine := by
    intro finding h
    rw [RelocationFinding.entry, List.forall_mem_cons, List.forall_mem_cons, List.forall_mem_map]
    refine ⟨?_, by decide, fun path hpath => oneLine_append_iff.mpr ⟨by decide, h.uses path hpath⟩⟩
    simp only [oneLine_append_iff]
    exact ⟨⟨⟨⟨⟨⟨by decide, h.name⟩, by decide⟩, h.source.oneLine_shown⟩, by decide⟩,
      h.target.oneLine_shown⟩, by decide⟩
  inj := by
    rintro ⟨name, source, target, uses⟩ ⟨name', source', target', uses'⟩ h h' heq
    obtain ⟨hhead, hdetails⟩ := List.cons.inj heq
    have htext := congrArg String.toList hhead
    have hfrom : "' from '".toList = '\'' :: " from '".toList := rfl
    have hto : "' to '".toList = '\'' :: " to '".toList := rfl
    have hend : "'".toList = ['\''] := rfl
    simp only [String.toList_append, List.append_assoc, hfrom, hto, hend,
      List.cons_append] at htext
    -- each part ends at the first quote behind it
    obtain ⟨hname, htext⟩ := eq_of_cut_first h.no_quote h'.no_quote (List.append_cancel_left htext)
    obtain ⟨hsource, htext⟩ := eq_of_cut_first h.source.quote_not_mem h'.source.quote_not_mem
      (List.append_cancel_left htext)
    obtain ⟨htarget, -⟩ := eq_of_cut_first h.target.quote_not_mem h'.target.quote_not_mem
      (List.append_cancel_left htext)
    obtain rfl : name = name' := String.toList_inj.mp hname
    obtain rfl : source = source' :=
      shownDirectory_inj h.source.ne_dot h'.source.ne_dot (String.toList_inj.mp hsource)
    obtain rfl : target = target' :=
      shownDirectory_inj h.target.ne_dot h'.target.ne_dot (String.toList_inj.mp htarget)
    have hinj : Function.Injective fun path : String => "  " ++ path :=
      fun _ _ => (String.append_right_inj "  ").mp
    obtain rfl : uses = uses' := hinj.list_map (List.cons.inj hdetails).2
    rfl

end StyleAudit
