import StyleAudit.Proofs.Report.Entries
import StyleAudit.Proofs.Text.Lines

/-!
# Text reports are unambiguous

The lines of a report say what they are by how they begin: headings, entries, the lines that belong
to an entry, and empty lines behind a section. So the report is cut into sections and these into
entries in one way only (`titled_append_inj`), and findings are known from their report
(`textReport_unambiguous`).
-/

namespace StyleAudit

/-! ## Sections -/

section Sections

variable {α : Type} {entry : α → List String} {plain : α → Prop}

/-- What follows an entry does not belong to it: it is another entry, or there is none. -/
theorem head?_flatMap_entry (h : EntriesTell entry plain) (findings : List α) :
    ∀ line ∈ (findings.flatMap entry).head?, BeginsWith '-' line := by
  cases findings with
  | nil => simp
  | cons finding findings =>
    obtain ⟨head, details, hentry, hparts⟩ := h.isEntry finding
    simpa [hentry] using beginsWith_of_opensEntry hparts.head

/-- Findings are known from their entries one after the other. -/
theorem flatMap_entry_inj (h : EntriesTell entry plain) {findings findings' : List α}
    (hplain : ∀ finding ∈ findings, plain finding) (hplain' : ∀ finding ∈ findings', plain finding)
    (heq : findings.flatMap entry = findings'.flatMap entry) : findings = findings' := by
  induction findings generalizing findings' with
  | nil =>
    cases findings' with
    | nil => rfl
    | cons finding' findings' =>
      obtain ⟨head', details', hentry', -⟩ := h.isEntry finding'
      simp [hentry'] at heq
  | cons finding findings ih =>
    obtain ⟨head, details, hentry, hparts⟩ := h.isEntry finding
    cases findings' with
    | nil => simp [hentry] at heq
    | cons finding' findings' =>
      obtain ⟨head', details', hentry', hparts'⟩ := h.isEntry finding'
      have hother {findings : List α} : ∀ line ∈ (findings.flatMap entry).head?,
          ¬ BeginsWith ' ' line := fun line hline hblank =>
        absurd (hblank.unique (head?_flatMap_entry h findings line hline)) (by decide)
      rw [List.flatMap_cons, List.flatMap_cons, hentry, hentry', List.cons_append,
        List.cons_append] at heq
      obtain ⟨rfl, hlines⟩ := List.cons.inj heq
      obtain ⟨rfl, hrest⟩ := eq_of_cut_run hparts.details hparts'.details hother hother hlines
      obtain ⟨hfinding, hfindings⟩ := List.forall_mem_cons.mp hplain
      obtain ⟨hfinding', hfindings'⟩ := List.forall_mem_cons.mp hplain'
      rw [h.inj finding finding' hfinding hfinding' (hentry.trans hentry'.symm),
        ih hfindings hfindings' hrest]

/-- The lines of a section between its heading and the empty line at its end. -/
def sectionBody (entry : α → List String) (findings : List α) : List String :=
  if findings.isEmpty then ["(none)"] else findings.flatMap entry

theorem beginsWith_of_mem_flatMap_entry (h : EntriesTell entry plain) {findings : List α}
    {line : String} (hline : line ∈ findings.flatMap entry) :
    BeginsWith '-' line ∨ BeginsWith ' ' line := by
  obtain ⟨finding, -, hmem⟩ := List.mem_flatMap.mp hline
  obtain ⟨head, details, hentry, hparts⟩ := h.isEntry finding
  rw [hentry] at hmem
  rcases List.mem_cons.mp hmem with rfl | hmem
  · exact .inl (beginsWith_of_opensEntry hparts.head)
  · exact .inr (hparts.details line hmem)

theorem ne_empty_of_mem_sectionBody (h : EntriesTell entry plain) {findings : List α}
    {line : String} (hline : line ∈ sectionBody entry findings) : line ≠ "" := by
  rintro rfl
  rw [sectionBody] at hline
  split at hline
  · simp at hline
  · rcases beginsWith_of_mem_flatMap_entry h hline with hbegin | hbegin <;> cases hbegin

theorem sectionBody_inj (h : EntriesTell entry plain) {findings findings' : List α}
    (hplain : ∀ finding ∈ findings, plain finding) (hplain' : ∀ finding ∈ findings', plain finding)
    (heq : sectionBody entry findings = sectionBody entry findings') : findings = findings' := by
  -- no entry looks like the line of an empty section
  have hnone {findings : List α} : findings.flatMap entry ≠ ["(none)"] := by
    intro hfindings
    have hline := head?_flatMap_entry h findings "(none)" (hfindings ▸ rfl)
    exact absurd hline (by decide)
  rw [sectionBody, sectionBody] at heq
  split at heq
  · next hempty =>
    split at heq
    · next hempty' => rw [List.isEmpty_iff.mp hempty, List.isEmpty_iff.mp hempty']
    · exact absurd heq.symm hnone
  · split at heq
    · exact absurd heq hnone
    · exact flatMap_entry_inj h hplain hplain' heq

/-- The heading of a section. -/
def heading (title : String) (count : Nat) : String :=
  "## " ++ title ++ " (" ++ toString count ++ ")"

theorem titled_some (title : String) (findings : List α) : titled title entry (some findings)
    = heading title findings.length :: (sectionBody entry findings ++ [""]) := rfl

theorem heading_inj {title title' : String} {count count' : Nat} (h : '(' ∉ title.toList)
    (h' : '(' ∉ title'.toList) (heq : heading title count = heading title' count') :
    title = title' := by
  have htext (title : String) (count : Nat) : (heading title count).toList
      = ("## " ++ title ++ " ").toList ++ '(' :: (toString count ++ ")").toList := by
    simp [heading]
  have hfree {title : String} (h : '(' ∉ title.toList) :
      '(' ∉ ("## " ++ title ++ " ").toList := by
    simpa using h
  have hcut := congrArg String.toList heq
  rw [htext, htext] at hcut
  have hfront := (eq_of_cut_first (hfree h) (hfree h') hcut).1
  rw [String.toList_inj, String.append_left_inj, String.append_right_inj] at hfront
  exact hfront

/-- Whether lines begin with one of some headings, or with the total. -/
def Opens (titles : List String) (lines : List String) : Prop :=
  ∃ line rest, lines = line :: rest
    ∧ (BeginsWith 'T' line ∨ ∃ title ∈ titles, ∃ count, line = heading title count)

theorem opens_total (titles : List String) (total : Nat) :
    Opens titles ["Total: " ++ toString total] :=
  ⟨_, [], rfl, .inl (beginsWith_append (by decide) _)⟩

theorem opens_titled {title : String} {titles rest : List String} {category : Option (List α)}
    (h : Opens titles rest) : Opens (title :: titles) (titled title entry category ++ rest) := by
  cases category with
  | none =>
    obtain ⟨line, more, hrest, hline⟩ := h
    refine ⟨line, more, hrest, hline.imp_right ?_⟩
    rintro ⟨other, hother, count, hheading⟩
    exact ⟨other, List.mem_cons_of_mem _ hother, count, hheading⟩
  | some findings =>
    exact ⟨_, _, rfl, .inr ⟨title, List.mem_cons_self, findings.length, rfl⟩⟩

/-- A category is known from the lines that begin with its section. -/
theorem titled_append_inj (h : EntriesTell entry plain) {title : String}
    {titles rest rest' : List String} (htitle : ∀ other ∈ title :: titles, '(' ∉ other.toList)
    (hnew : title ∉ titles) (hrest : Opens titles rest) (hrest' : Opens titles rest')
    {category category' : Option (List α)} (hplain : ∀ finding ∈ category.getD [], plain finding)
    (hplain' : ∀ finding ∈ category'.getD [], plain finding)
    (heq : titled title entry category ++ rest = titled title entry category' ++ rest') :
    category = category' ∧ rest = rest' := by
  -- the lines behind a section do not begin with its heading
  have hother {rest more : List String} {count : Nat} (hrest : Opens titles rest) :
      rest ≠ heading title count :: more := by
    rintro rfl
    obtain ⟨line, rest, hcons, hline⟩ := hrest
    obtain ⟨rfl, -⟩ := List.cons.inj hcons
    rcases hline with htotal | ⟨other, hmem, count', hheading⟩
    · have hhash : BeginsWith '#' (heading title count) := by simp [heading, BeginsWith]
      exact absurd (htotal.unique hhash) (by decide)
    · have hsame := heading_inj (htitle title List.mem_cons_self)
        (htitle other (List.mem_cons_of_mem _ hmem)) hheading
      exact hnew (hsame ▸ hmem)
  cases category with
  | none =>
    cases category' with
    | none => exact ⟨rfl, heq⟩
    | some findings' => exact absurd heq (hother hrest)
  | some findings =>
    cases category' with
    | none => exact absurd heq.symm (hother hrest')
    | some findings' =>
      rw [titled_some, titled_some, List.cons_append, List.cons_append, List.append_assoc,
        List.append_assoc] at heq
      obtain ⟨-, hlines⟩ := List.cons.inj heq
      have hfree {findings : List α} : "" ∉ sectionBody entry findings :=
        fun hmem => ne_empty_of_mem_sectionBody h hmem rfl
      obtain ⟨hbody, hrests⟩ := eq_of_cut_first hfree hfree hlines
      exact ⟨congrArg some (sectionBody_inj h hplain hplain' hbody), hrests⟩

theorem oneLine_of_mem_titled (h : EntriesTell entry plain) {title : String}
    (htitle : OneLine title) {category : Option (List α)}
    (hplain : ∀ finding ∈ category.getD [], plain finding) :
    ∀ line ∈ titled title entry category, OneLine line := by
  intro line hline
  cases category with
  | none => simp [titled] at hline
  | some findings =>
    rw [titled_some, List.mem_cons, List.mem_append, List.mem_singleton] at hline
    rcases hline with rfl | hline | rfl
    · simp only [heading, oneLine_append_iff]
      exact ⟨⟨⟨⟨by decide, htitle⟩, by decide⟩, oneLine_toString _⟩, by decide⟩
    · rw [sectionBody] at hline
      split at hline
      · rw [List.mem_singleton.mp hline]
        decide
      · obtain ⟨finding, hfinding, hmem⟩ := List.mem_flatMap.mp hline
        exact h.oneLine finding (hplain finding hfinding) line hmem
    · decide

/-- Each finding of a category has one line that opens an entry, and there are no others. -/
theorem countP_titled (h : EntriesTell entry plain) (title : String) (category : Option (List α)) :
    (titled title entry category).countP (opensEntry ·.toList) = (category.getD []).length := by
  have hentry (finding : α) : (entry finding).countP (opensEntry ·.toList) = 1 := by
    obtain ⟨head, details, hlines, hparts⟩ := h.isEntry finding
    have hdetails : details.countP (opensEntry ·.toList) = 0 := by
      rw [List.countP_eq_zero]
      intro line hline
      simp [opensEntry_eq_false (by decide) (hparts.details line hline)]
    rw [hlines, List.countP_cons, hdetails, if_pos hparts.head]
  have hentries (findings : List α) :
      (findings.flatMap entry).countP (opensEntry ·.toList) = findings.length := by
    induction findings with
    | nil => rfl
    | cons finding findings ih =>
      rw [List.flatMap_cons, List.countP_append, hentry, ih, List.length_cons, Nat.add_comm]
  cases category with
  | none => rfl
  | some findings =>
    have hheading : ¬ opensEntry (heading title findings.length).toList = true := by
      have hhash : BeginsWith '#' (heading title findings.length) := by simp [heading, BeginsWith]
      simp [opensEntry_eq_false (by decide) hhash]
    have hbody : (sectionBody entry findings).countP (opensEntry ·.toList) = findings.length := by
      rw [sectionBody]
      split
      · next hempty =>
        obtain rfl := List.isEmpty_iff.mp hempty
        rfl
      · exact hentries findings
    rw [titled_some, List.countP_cons, if_neg hheading, List.countP_append, hbody]
    rfl

end Sections

/-! ## Reports -/

/-- Findings that are known from their report: names, expressions and paths stay within one line
each, and suggestions are known from their entries. -/
structure Findings.IsShown (findings : Findings) : Prop where
  unused : ∀ finding ∈ findings.unusedDefinitions.getD [],
    GroupInLines finding.name finding.locations
  relocations : ∀ finding ∈ findings.relocationSuggestions.getD [], finding.IsShown
  missing : ∀ finding ∈ findings.missingDefinitions.getD [],
    GroupInLines finding.name finding.locations
  expressions : ∀ finding ∈ findings.expressions.getD [],
    GroupInLines finding.text finding.locations
  duplicates : ∀ finding ∈ findings.duplicateDefinitions.getD [],
    GroupInLines finding.name finding.locations

section Report

variable {findings findings' : Findings}

/-- The categories are known from the lines of the report one after the other. -/
theorem reportLines_inj (h : findings.IsShown) (h' : findings'.IsShown)
    (heq : reportLines findings = reportLines findings') : findings = findings' := by
  simp only [reportLines, List.append_assoc] at heq
  have htotal (findings : Findings) := opens_total [] findings.total
  obtain ⟨hunused, heq⟩ := titled_append_inj ClassFinding.entriesTell (by decide) (by decide)
    (opens_titled (opens_titled (opens_titled (opens_titled (htotal findings)))))
    (opens_titled (opens_titled (opens_titled (opens_titled (htotal findings')))))
    h.unused h'.unused (List.append_cancel_left heq)
  obtain ⟨hrelocations, heq⟩ := titled_append_inj RelocationFinding.entriesTell (by decide)
    (by decide) (opens_titled (opens_titled (opens_titled (htotal findings))))
    (opens_titled (opens_titled (opens_titled (htotal findings'))))
    h.relocations h'.relocations heq
  obtain ⟨hmissing, heq⟩ := titled_append_inj ClassFinding.entriesTell (by decide) (by decide)
    (opens_titled (opens_titled (htotal findings)))
    (opens_titled (opens_titled (htotal findings'))) h.missing h'.missing heq
  obtain ⟨hexpressions, heq⟩ := titled_append_inj ExpressionFinding.entriesTell (by decide)
    (by decide) (opens_titled (htotal findings)) (opens_titled (htotal findings'))
    h.expressions h'.expressions heq
  obtain ⟨hduplicates, -⟩ := titled_append_inj ClassFinding.entriesTell (by decide) (by decide)
    (htotal findings) (htotal findings') h.duplicates h'.duplicates heq
  obtain ⟨unused, relocations, missing, expressions, duplicates⟩ := findings
  simp_all

theorem oneLine_of_mem_reportLines (h : findings.IsShown) :
    ∀ line ∈ reportLines findings, OneLine line := by
  simp only [reportLines, List.forall_mem_append]
  have hunused := oneLine_of_mem_titled ClassFinding.entriesTell
    (show OneLine "Unused class definitions" by decide) h.unused
  have hrelocations := oneLine_of_mem_titled RelocationFinding.entriesTell
    (show OneLine "Relocation suggestions" by decide) h.relocations
  have hmissing := oneLine_of_mem_titled ClassFinding.entriesTell
    (show OneLine "Classes used without a definition" by decide) h.missing
  have hexpressions := oneLine_of_mem_titled ExpressionFinding.entriesTell
    (show OneLine "Dynamic expressions to review" by decide) h.expressions
  have hduplicates := oneLine_of_mem_titled ClassFinding.entriesTell
    (show OneLine "Duplicate class definitions" by decide) h.duplicates
  refine ⟨⟨⟨⟨⟨⟨by decide, hunused⟩, hrelocations⟩, hmissing⟩, hexpressions⟩, hduplicates⟩, ?_⟩
  rw [List.forall_mem_singleton, oneLine_append_iff]
  exact ⟨by decide, oneLine_toString _⟩

/-- The lines of the text are the lines of the report, and an empty one behind the last line
feed. -/
theorem lines_textReport (h : findings.IsShown) :
    lines (textReport findings) = (reportLines findings).map String.toList ++ [[]] := by
  have hsplit : lines ("\n".intercalate (reportLines findings)).toList
      = (reportLines findings).map String.toList := by
    rw [String.toList_intercalate, show "\n".toList = ['\n'] from rfl]
    refine List.splitOn_intercalate '\n' ?_ (by simp [reportLines])
    rw [List.forall_mem_map]
    exact oneLine_of_mem_reportLines h
  rw [textReport, lines_append_cons, hsplit]
  rfl

/-- Each finding has one line in the report that opens its entry. -/
theorem countP_reportLines (findings : Findings) :
    (reportLines findings).countP (opensEntry ·.toList) = findings.total := by
  have htotal : ["Total: " ++ toString findings.total].countP (opensEntry ·.toList) = 0 := by
    have hbegin : BeginsWith 'T' ("Total: " ++ toString findings.total) :=
      beginsWith_append (by decide) _
    simp only [List.countP_cons, List.countP_nil, opensEntry_eq_false (by decide) hbegin]
    rfl
  have hfront : ["CSS tracker report", ""].countP (opensEntry ·.toList) = 0 := by decide
  simp only [reportLines, List.countP_append, htotal, hfront, countP_titled ClassFinding.entriesTell,
    countP_titled RelocationFinding.entriesTell, countP_titled ExpressionFinding.entriesTell]
  simp only [Findings.total]
  omega

/-- A text report is unambiguous, as long as names, expressions and paths stay within one line and
suggestions have no quotes and no dots for directories. Other findings have another report, be it
for a category that is switched off, the order of some places or the number of a line. The total in
the last line is the number of lines that begin with a hyphen and a space. -/
theorem textReport_unambiguous (h : findings.IsShown) :
    (∀ other : Findings, other.IsShown → textReport other = textReport findings → other = findings)
      ∧ (lines (textReport findings)).countP opensEntry = findings.total
      ∧ ∃ above, lines (textReport findings)
        = above ++ [("Total: " ++ toString findings.total).toList, []] := by
  refine ⟨fun other hother heq => ?_, ?_, ?_⟩
  · have hlines := congrArg lines heq
    rw [lines_textReport hother, lines_textReport h] at hlines
    have hinj : Function.Injective String.toList := fun _ _ => String.toList_inj.mp
    exact reportLines_inj hother h (hinj.list_map (List.append_cancel_right hlines))
  · rw [lines_textReport h, List.countP_append, List.countP_map]
    exact countP_reportLines findings
  · rw [lines_textReport h, reportLines, List.map_append, List.append_assoc]
    exact ⟨_, rfl⟩

end Report

/-- Findings in a file whose path looks like a path with a line number behind it. -/
def numberedFindings : Findings where
  unusedDefinitions := some [⟨"c", [⟨"a: 1", [2, 3]⟩]⟩]
  relocationSuggestions := some [⟨"- d", "css", "", ["used in:", ""]⟩]
  expressions := some []

/-- The same findings, with the path and the numbers cut at the other colon. -/
def renumberedFindings : Findings :=
  { numberedFindings with unusedDefinitions := some [⟨"c", [⟨"a", [1, 2, 3]⟩]⟩] }

/-- The reports of these findings differ, and that of the first ones counts two of them. -/
theorem textReport_unambiguous_numberedFindings :
    numberedFindings.IsShown ∧ renumberedFindings.IsShown
      ∧ textReport renumberedFindings ≠ textReport numberedFindings
      ∧ (lines (textReport numberedFindings)).countP opensEntry = 2 := by
  have hsuggestion : (⟨"- d", "css", "", ["used in:", ""]⟩ : RelocationFinding).IsShown :=
    ⟨by decide, by decide, ⟨by decide, by decide, by decide⟩, ⟨by decide, by decide, by decide⟩,
      by decide⟩
  have hgroup (path : String) (numbers : List Int) (hpath : OneLine path) :
      GroupInLines "c" [⟨path, numbers⟩] :=
    ⟨by decide, by simpa using hpath⟩
  have hshown : numberedFindings.IsShown := by
    constructor <;> simp [numberedFindings, hsuggestion, hgroup "a: 1" [2, 3] (by decide)]
  have hother : renumberedFindings.IsShown := by
    constructor <;>
      simp [renumberedFindings, numberedFindings, hsuggestion, hgroup "a" [1, 2, 3] (by decide)]
  obtain ⟨hinj, hcount, -⟩ := textReport_unambiguous hshown
  exact ⟨hshown, hother, fun heq => absurd (hinj _ hother heq) (by decide), hcount⟩

end StyleAudit
