import StyleAudit.Path.Project
import StyleAudit.Proofs.Path.Common
import StyleAudit.Proofs.Text.Separated

/-!
# The normal form of a path

A relative path climbs some directories and goes down from there by names: that is what is left of
its segments when dots, empty segments and detours are taken out (`normalSegments_eq`), and the path
leads to the same place. `projectPath` reads a path twice and turns backslashes into slashes between
the readings. Where no segment begins with a backslash the first reading takes nothing out that the
second one would keep (`projectPath_relative`); a path from the top of the file tree is read as what
follows the root (`projectPath_absolute`). Either way the project path is made of the names that the
path leads to (`LeadsTo.projectPath_eq`).
-/

namespace StyleAudit

/-! ## Relative paths -/

/-- Whether a path does not start at the root and is written without backslashes. -/
structure IsRelative (path : String) : Prop where
  relative : path.toList.head? ≠ some '/'
  no_backslash : '\\' ∉ path.toList

instance : DecidablePred IsRelative := fun path =>
  decidable_of_iff (path.toList.head? ≠ some '/' ∧ '\\' ∉ path.toList)
    ⟨fun ⟨h₁, h₂⟩ => ⟨h₁, h₂⟩, fun ⟨h₁, h₂⟩ => ⟨h₁, h₂⟩⟩

theorem Path.slashes_eq_zero_iff {text : String} :
    (Path.ofString text).slashes = 0 ↔ text.toList.head? ≠ some '/' := by
  unfold Path.ofString
  cases htext : text.toList with
  | nil => simp
  | cons c rest =>
    by_cases hc : c = '/'
    · simp only [hc, List.takeWhile_cons, beq_self_eq_true, if_true, List.length_cons,
        List.head?_cons]
      split <;> simp
    · simp [hc]

/-! ## Backslashes read as slashes -/

theorem slashed_append (front rest : String) :
    slashed (front ++ rest) = slashed front ++ slashed rest := by
  simp [slashed, String.ofList_append]

theorem slashed_eq_self {text : String} (h : '\\' ∉ text.toList) : slashed text = text := by
  have hsame : text.toList.map (fun c => if c = '\\' then '/' else c) = text.toList.map id := by
    refine List.map_congr_left fun c hc => if_neg ?_
    rintro rfl
    exact h hc
  rw [slashed, hsame, List.map_id, String.ofList_toList]

theorem head?_slashed {text : String} (hslash : text.toList.head? ≠ some '/')
    (hback : text.toList.head? ≠ some '\\') : (slashed text).toList.head? ≠ some '/' := by
  unfold slashed
  rw [String.toList_ofList, List.head?_map]
  cases hhead : text.toList.head? with
  | none => simp
  | some c =>
    have hc : c ≠ '\\' := fun heq => hback (heq ▸ hhead)
    simp only [Option.map_some, if_neg hc]
    exact hhead ▸ hslash

/-- The segments of a path whose backslashes are read as slashes come from its own segments. -/
theorem slashSegments_slashed_intercalate {segments : List String} (hne : segments ≠ []) :
    slashSegments (slashed ("/".intercalate segments))
      = segments.flatMap fun segment => slashSegments (slashed segment) := by
  induction segments with
  | nil => exact absurd rfl hne
  | cons segment segments ih =>
    by_cases hlast : segments = []
    · simp [hlast]
    · rw [String.intercalate_cons_of_ne_nil hlast, slashed_append, slashed_append,
        show slashed "/" = "/" from rfl, slashSegments_append, ih hlast, List.flatMap_cons]

theorem slashSegments_slashed (path : String) :
    slashSegments (slashed path)
      = (slashSegments path).flatMap fun segment => slashSegments (slashed segment) := by
  rw [← slashSegments_slashed_intercalate (slashSegments_ne_nil path), intercalate_slashSegments]

/-! ## Normal segments -/

/-- The segments of a relative path in normal form. -/
def normalSegments (segments : List String) : List String :=
  segments.foldl (normalStep false) []

/-- Whether a segment stays when a path is read. -/
def isKept (segment : String) : Bool := segment != "" && segment != "."

theorem Path.segments_ofString (text : String) :
    (Path.ofString text).segments = (slashSegments text).filter isKept := rfl

theorem normalStep_of_not_isKept {done : List String} {segment : String}
    (h : isKept segment = false) : normalStep false done segment = done := by
  refine if_pos ?_
  simpa [isKept, or_iff_not_imp_left] using h

/-- Segments that do not stay can be taken out before backslashes are read as slashes. -/
theorem foldl_normalStep_filter (segments done : List String) :
    ((segments.filter isKept).flatMap fun segment => slashSegments (slashed segment)).foldl
        (normalStep false) done
      = (segments.flatMap fun segment => slashSegments (slashed segment)).foldl
        (normalStep false) done := by
  induction segments generalizing done with
  | nil => rfl
  | cons segment segments ih =>
    cases hkept : isKept segment with
    | true =>
      rw [List.filter_cons_of_pos hkept, List.flatMap_cons, List.flatMap_cons, List.foldl_append,
        List.foldl_append, ih]
    | false =>
      have hsame : slashSegments (slashed segment) = [segment] := by
        have hempty : segment = "" ∨ segment = "." := by
          simpa [isKept, or_iff_not_imp_left] using hkept
        obtain rfl | rfl := hempty <;> rfl
      rw [List.filter_cons_of_neg (by simp [hkept]), List.flatMap_cons, List.foldl_append, hsame,
        List.foldl_cons, List.foldl_nil, normalStep_of_not_isKept hkept, ih]

/-- A climb of some directories and a way down from there by names. -/
structure IsRoute (segments : List String) (ups : Nat) (names : List String) : Prop where
  segments_eq : segments = List.replicate ups ".." ++ names
  plain : ∀ name ∈ names, IsPlainSegment name

/-- The place that a climb and a way down lead to. Nothing above the root is the root. -/
def placeOf (here : List String) (ups : Nat) (names : List String) : List String :=
  here.take (here.length - ups) ++ names

/-- A segment is added to a route, or it takes the last name away, or it makes the climb longer; it
does the same to the place that the route leads to. -/
theorem IsRoute.step {done : List String} {ups : Nat} {names : List String}
    (h : IsRoute done ups names) {segment : String} (hkept : isKept segment = true) :
    ∃ ups' names', IsRoute (normalStep false done segment) ups' names'
      ∧ (∀ here, Path.resolveStep (placeOf here ups names) segment = placeOf here ups' names')
      ∧ names' ⊆ names ++ [segment] := by
  obtain ⟨rfl, hplain⟩ := h
  obtain ⟨hempty, hdot⟩ : segment ≠ "" ∧ segment ≠ "." := by simpa [isKept] using hkept
  unfold normalStep Path.resolveStep
  rw [if_neg (by simp [hempty, hdot])]
  by_cases hdots : segment = ".."
  · simp only [if_pos hdots]
    obtain rfl | ⟨front, last, rfl⟩ := List.eq_nil_or_concat' names
    · -- nothing was gone down, so the climb goes on; above the root it stays there
      refine ⟨ups + 1, [], ⟨?_, by simp⟩, fun here => ?_, by simp⟩
      · cases ups with
        | zero => simp [hdots]
        | succ ups => simp [List.getLast?_replicate, hdots, List.replicate_succ']
      · simp only [placeOf, List.append_nil]
        rw [List.dropLast_eq_take, List.take_take, List.length_take]
        congr 1
        omega
    · -- the last name is no double dot, so it is taken away
      have hlast := (hplain last (by simp)).ne_dots
      refine ⟨ups, front, ⟨?_, fun name hmem => hplain name (by simp [hmem])⟩, fun here => ?_,
        by simp⟩
      · simp [← List.append_assoc, hlast]
      · simp [placeOf, ← List.append_assoc]
  · simp only [if_neg hdots]
    refine ⟨ups, names ++ [segment], ⟨by simp, ?_⟩, fun here => by simp [placeOf],
      List.Subset.refl _⟩
    intro name hmem
    obtain hmem | hmem := List.mem_append.mp hmem
    · exact hplain name hmem
    · exact List.mem_singleton.mp hmem ▸ ⟨hempty, hdot, hdots⟩

/-- The normal form of a path is a route to where the path leads. -/
theorem normalSegments_eq (segments : List String) :
    ∃ ups names, IsRoute (normalSegments segments) ups names
      ∧ (∀ here, (segments.filter isKept).foldl Path.resolveStep here = placeOf here ups names)
      ∧ names ⊆ segments := by
  -- both foldings go from the front, so the induction is on the last segment
  induction segments using List.reverseRecOn with
  | nil => exact ⟨0, [], ⟨rfl, by simp⟩, by simp [placeOf], by simp⟩
  | append_singleton segments segment ih =>
    obtain ⟨ups, names, hroute, hplace, hsubset⟩ := ih
    rw [normalSegments, List.foldl_append, List.foldl_cons, List.foldl_nil, List.filter_append]
    cases hkept : isKept segment with
    | false =>
      refine ⟨ups, names, ?_, fun here => ?_,
        List.Subset.trans hsubset (List.subset_append_left _ _)⟩
      · rw [normalStep_of_not_isKept hkept]
        exact hroute
      · rw [List.filter_cons_of_neg (by simp [hkept]), List.filter_nil, List.append_nil, hplace]
    | true =>
      obtain ⟨ups', names', hroute', hstep, hsubset'⟩ := hroute.step hkept
      refine ⟨ups', names', hroute', fun here => ?_, List.Subset.trans hsubset' ?_⟩
      · rw [List.filter_cons_of_pos hkept, List.filter_nil, List.foldl_append, hplace,
          List.foldl_cons, List.foldl_nil, hstep]
      · exact List.append_subset.mpr ⟨List.Subset.trans hsubset (List.subset_append_left _ _),
          List.subset_append_right _ _⟩

/-- There is one way to read segments as a route: the climb is all of their double dots. -/
theorem IsRoute.unique {segments names names' : List String} {ups ups' : Nat}
    (h : IsRoute segments ups names) (h' : IsRoute segments ups' names') :
    ups = ups' ∧ names = names' := by
  have hhead {names : List String} (hplain : ∀ name ∈ names, IsPlainSegment name) :
      ∀ name ∈ names.head?, ¬ name = ".." := fun name hmem =>
    (hplain name (List.mem_of_mem_head? hmem)).ne_dots
  obtain ⟨hclimb, hnames⟩ := eq_of_cut_run (p := (· = "..")) (fun _ => List.eq_of_mem_replicate)
    (fun _ => List.eq_of_mem_replicate) (hhead h.plain) (hhead h'.plain)
    (h.segments_eq.symm.trans h'.segments_eq)
  exact ⟨by simpa using congrArg List.length hclimb, hnames⟩

/-- A route is its own normal form. -/
theorem IsRoute.normalSegments_eq {segments : List String} {ups : Nat} {names : List String}
    (h : IsRoute segments ups names) : normalSegments segments = segments := by
  obtain ⟨rfl, hplain⟩ := h
  have hclimb : normalSegments (List.replicate ups "..") = List.replicate ups ".." := by
    induction ups with
    | zero => rfl
    | succ ups ih =>
      rw [List.replicate_succ', normalSegments, List.foldl_append]
      rw [normalSegments] at ih
      rw [ih]
      cases ups <;> simp [normalStep, List.getLast?_replicate]
  induction names using List.reverseRecOn with
  | nil => simpa using hclimb
  | append_singleton names name ih =>
    obtain ⟨hempty, hdot, hdots⟩ := hplain name (by simp)
    have hrest := ih fun name hmem => hplain name (List.mem_append_left _ hmem)
    rw [normalSegments] at hrest
    rw [normalSegments, ← List.append_assoc, List.foldl_append, hrest]
    simp [normalStep, hempty, hdot, hdots]

/-! ## Paths in normal form -/

/-- Whether a path is written as a route: segments with single slashes between them, no empty one
and no dot among them, and double dots only in front of the names. The path without segments is the
empty text. -/
def IsNormalPath (path : String) : Prop :=
  ∃ segments ups names, IsRoute segments ups names ∧ (∀ name ∈ names, '/' ∉ name.toList)
    ∧ path = "/".intercalate segments

/-- Whether a path in normal form climbs out of the directory it is seen from. -/
def LeadsOut (path : String) : Prop := (slashSegments path).head? = some ".."

instance : DecidablePred LeadsOut := fun path =>
  inferInstanceAs (Decidable ((slashSegments path).head? = some ".."))

theorem IsRoute.slash_not_mem {segments : List String} {ups : Nat} {names : List String}
    (h : IsRoute segments ups names) (hnames : ∀ name ∈ names, '/' ∉ name.toList) :
    ∀ segment ∈ segments, '/' ∉ segment.toList := by
  intro segment hmem
  rw [h.segments_eq] at hmem
  obtain hmem | hmem := List.mem_append.mp hmem
  · rw [List.eq_of_mem_replicate hmem]
    decide
  · exact hnames segment hmem

/-- A path in normal form leads out exactly if it climbs. -/
theorem IsRoute.leadsOut_iff {segments : List String} {ups : Nat} {names : List String}
    (h : IsRoute segments ups names) (hnames : ∀ name ∈ names, '/' ∉ name.toList) :
    LeadsOut ("/".intercalate segments) ↔ ups ≠ 0 := by
  unfold LeadsOut
  by_cases hne : segments = []
  · have hups : ups = 0 :=
      (List.replicate_eq_nil_iff _).mp (List.append_eq_nil_iff.mp (h.segments_eq ▸ hne)).1
    simp only [hne, hups, ne_eq, not_true_eq_false, iff_false]
    decide
  · rw [slashSegments_intercalate hne (h.slash_not_mem hnames), h.segments_eq]
    cases ups with
    | zero =>
      cases names with
      | nil => simp
      | cons name names => simpa using (h.plain name (by simp)).ne_dots
    | succ ups => simp [List.replicate_succ]

/-- The normal form of a path written as a route is made of the same segments. -/
theorem IsRoute.normalSegments_slashSegments {segments : List String} {ups : Nat}
    {names : List String} (h : IsRoute segments ups names)
    (hnames : ∀ name ∈ names, '/' ∉ name.toList) :
    normalSegments (slashSegments ("/".intercalate segments)) = segments := by
  by_cases hne : segments = []
  · rw [hne]
    rfl
  · rw [slashSegments_intercalate hne (h.slash_not_mem hnames), h.normalSegments_eq]

/-- A segment of a path stands at its front or behind a slash. -/
theorem prefix_or_infix_of_mem_slashSegments {path segment : String}
    (h : segment ∈ slashSegments path) :
    segment.toList <+: path.toList ∨ '/' :: segment.toList <:+: path.toList := by
  obtain ⟨piece, hpiece, rfl⟩ := List.mem_map.mp h
  have hplace : piece <+: ['/'].intercalate (path.toList.splitOn '/')
      ∨ ['/'] ++ piece <:+: ['/'].intercalate (path.toList.splitOn '/') :=
    prefix_or_infix_intercalate hpiece
  rw [List.intercalate_splitOn] at hplace
  rwa [String.toList_ofList]

theorem mem_toList_of_mem_slashSegments {path segment : String} (h : segment ∈ slashSegments path)
    {c : Char} (hc : c ∈ segment.toList) : c ∈ path.toList := by
  obtain hplace | hplace := prefix_or_infix_of_mem_slashSegments h
  · exact hplace.subset hc
  · exact hplace.subset (List.mem_cons_of_mem _ hc)

/-! ## Reading a path twice -/

/-- A path begins as its first segment does, if that is not empty. -/
theorem head?_intercalate_cons {first : String} (h : first ≠ "") (rest : List String) :
    ("/".intercalate (first :: rest)).toList.head? = first.toList.head? := by
  cases rest with
  | nil => simp
  | cons next rest =>
    rw [String.intercalate_cons_of_ne_nil (List.cons_ne_nil _ _), String.toList_append,
      String.toList_append, List.append_assoc, List.head?_append_of_ne_nil _ (by simpa using h)]

theorem normalPath_relative {text : String} (h : text.toList.head? ≠ some '/') :
    normalPath text = "/".intercalate (normalSegments (slashSegments text)) := by
  have hslashes := Path.slashes_eq_zero_iff.mpr h
  simp [normalPath, normalSegments, Path.isAbsolute, hslashes]

/-- The project path of a relative path, if no segment of it begins with a backslash. -/
theorem projectPath_relative (root : List String) {text : String}
    (hrelative : text.toList.head? ≠ some '/')
    (hback : ∀ segment ∈ slashSegments text, segment.toList.head? ≠ some '\\') :
    projectPath root text
      = "/".intercalate (normalSegments (slashSegments (slashed text))) := by
  have hslashes := Path.slashes_eq_zero_iff.mpr hrelative
  have hsegments := Path.segments_ofString text
  have hnormal : normalSegments (slashSegments (slashed text)) = normalSegments
      (((slashSegments text).filter isKept).flatMap fun segment =>
        slashSegments (slashed segment)) := by
    rw [slashSegments_slashed]
    exact (foldl_normalStep_filter _ _).symm
  have habsolute : (Path.ofString text).isAbsolute = false := by simp [Path.isAbsolute, hslashes]
  simp only [projectPath, habsolute, Bool.false_eq_true, if_false, Path.toString, hslashes,
    true_and, hsegments, hnormal, List.replicate_zero, String.ofList_nil, String.empty_append]
  split
  · next hempty =>
    rw [hempty]
    rfl
  · next hne =>
    -- the first segment that stays begins with neither kind of slash
    obtain ⟨first, rest, hcons⟩ := List.exists_cons_of_ne_nil hne
    have hmem : first ∈ (slashSegments text).filter isKept := by simp [hcons]
    obtain ⟨hfirst, hkept⟩ := List.mem_filter.mp hmem
    have hempty : first ≠ "" := by
      rintro rfl
      cases hkept
    have hslash : first.toList.head? ≠ some '/' := fun hhead =>
      slash_not_mem_of_mem_slashSegments hfirst (List.mem_of_mem_head? hhead)
    have hhead := head?_intercalate_cons hempty rest
    rw [← hcons] at hhead
    have hfront := head?_slashed (hhead ▸ hslash) (hhead ▸ hback first hfirst)
    rw [normalPath_relative hfront, slashSegments_slashed_intercalate hne]

/-- The project path of a relative path without backslashes is its normal form. -/
theorem IsRelative.projectPath_eq {path : String} (h : IsRelative path) (root : List String) :
    projectPath root path = "/".intercalate (normalSegments (slashSegments path)) := by
  rw [projectPath_relative root h.relative, slashed_eq_self h.no_backslash]
  intro segment hmem hhead
  exact h.no_backslash (mem_toList_of_mem_slashSegments hmem (List.mem_of_mem_head? hhead))

theorem IsRelative.isAbsolute_eq {path : String} (h : IsRelative path) :
    (Path.ofString path).isAbsolute = false := by
  simp [Path.isAbsolute, Path.slashes_eq_zero_iff.mpr h.relative]

/-- The normal form of a relative path without backslashes is a route to where the path leads, by
names that the path has for segments. -/
theorem IsRelative.exists_route {path : String} (h : IsRelative path) :
    ∃ ups names, IsRoute (normalSegments (slashSegments path)) ups names
      ∧ (∀ name ∈ names, '/' ∉ name.toList ∧ '\\' ∉ name.toList)
      ∧ ∀ here, (Path.ofString path).resolve here = placeOf here ups names := by
  obtain ⟨ups, names, hroute, hplace, hsubset⟩ := normalSegments_eq (slashSegments path)
  refine ⟨ups, names, hroute, fun name hmem => ⟨?_, fun hback => ?_⟩, fun here => ?_⟩
  · exact slash_not_mem_of_mem_slashSegments (hsubset hmem)
  · exact h.no_backslash (mem_toList_of_mem_slashSegments (hsubset hmem) hback)
  · rw [Path.resolve, h.isAbsolute_eq, Path.segments_ofString]
    exact hplace here

section Route

variable {segments names : List String} {ups : Nat}

theorem IsRoute.ne_empty (h : IsRoute segments ups names) : ∀ segment ∈ segments, segment ≠ "" := by
  intro segment hmem
  rw [h.segments_eq] at hmem
  obtain hmem | hmem := List.mem_append.mp hmem
  · rw [List.eq_of_mem_replicate hmem]
    decide
  · exact (h.plain segment hmem).ne_empty

/-- A path in normal form is relative. -/
theorem IsRoute.isRelative (h : IsRoute segments ups names)
    (hnames : ∀ name ∈ names, '/' ∉ name.toList ∧ '\\' ∉ name.toList) :
    IsRelative ("/".intercalate segments) where
  relative := by
    cases segments with
    | nil => decide
    | cons first rest =>
      rw [head?_intercalate_cons (h.ne_empty first (by simp))]
      intro hhead
      exact h.slash_not_mem (fun name hmem => (hnames name hmem).1) first (by simp)
        (List.mem_of_mem_head? hhead)
  no_backslash := by
    intro hback
    rw [String.toList_intercalate] at hback
    obtain hback | ⟨text, htext, hback⟩ := mem_of_mem_intercalate hback
    · simp at hback
    obtain ⟨segment, hmem, rfl⟩ := List.mem_map.mp htext
    rw [h.segments_eq] at hmem
    obtain hmem | hmem := List.mem_append.mp hmem
    · rw [List.eq_of_mem_replicate hmem] at hback
      simp at hback
    · exact (hnames segment hmem).2 hback

/-- A path in normal form is its own normal form. -/
theorem IsRoute.projectPath_eq (h : IsRoute segments ups names)
    (hnames : ∀ name ∈ names, '/' ∉ name.toList ∧ '\\' ∉ name.toList) (root : List String) :
    projectPath root ("/".intercalate segments) = "/".intercalate segments := by
  rw [(h.isRelative hnames).projectPath_eq root,
    h.normalSegments_slashSegments fun name hmem => (hnames name hmem).1]

end Route

/-! ## Below the root -/

/-- A path that does not lead out of the root has the names below the root for its normal form. -/
theorem IsRelative.exists_names {root : List String} {path : String} (h : IsRelative path)
    (hinside : ¬ LeadsOut (projectPath root path)) :
    ∃ names, projectPath root path = "/".intercalate names ∧ IsRoute names 0 names
      ∧ (∀ name ∈ names, '/' ∉ name.toList ∧ '\\' ∉ name.toList)
      ∧ (Path.ofString path).resolve root = root ++ names := by
  obtain ⟨ups, names, hroute, hnames, hplace⟩ := h.exists_route
  rw [h.projectPath_eq root] at hinside ⊢
  have hups : ups = 0 := by
    rw [hroute.leadsOut_iff fun name hmem => (hnames name hmem).1] at hinside
    exact not_not.mp hinside
  subst hups
  have hsegments : normalSegments (slashSegments path) = names := hroute.segments_eq
  rw [hsegments] at hroute ⊢
  refine ⟨names, rfl, hroute, hnames, ?_⟩
  rw [hplace, placeOf, Nat.sub_zero, List.take_length]

/-- The path of the project's root as it is written. -/
def rootText (root : List String) : String := (Path.fromRoot root).toString

theorem rootText_eq (root : List String) : rootText root = "" ++ "/" ++ "/".intercalate root := by
  simp [rootText, Path.fromRoot, Path.toString]

theorem IsFileName.isKept {name : String} (h : IsFileName name) : isKept name = true := by
  simp [StyleAudit.isKept, h.ne_empty, h.ne_dot]

/-- Names lead down. -/
theorem foldl_resolveStep {names : List String} (h : ∀ name ∈ names, name ≠ "..")
    (here : List String) : names.foldl Path.resolveStep here = here ++ names := by
  induction names generalizing here with
  | nil => simp
  | cons name names ih =>
    obtain ⟨hname, hnames⟩ := List.forall_mem_cons.mp h
    rw [List.foldl_cons, ih hnames, Path.resolveStep, if_neg hname, List.append_assoc]
    rfl

theorem null_not_mem_rootText {root : List String} (h : ∀ name ∈ root, IsFileName name) :
    Char.ofNat 0 ∉ (rootText root).toList := by
  intro hnull
  rw [rootText_eq, String.toList_append, String.toList_append, String.toList_intercalate] at hnull
  obtain hnull | hnull := List.mem_append.mp hnull
  · revert hnull
    decide
  · obtain hnull | ⟨text, htext, hnull⟩ := mem_of_mem_intercalate hnull
    · revert hnull
      decide
    · obtain ⟨name, hmem, rfl⟩ := List.mem_map.mp htext
      exact (h name hmem).no_null hnull

section Root

variable {root : List String} {path : String}

theorem segments_ofString_rootText (hroot : ∀ name ∈ root, IsFileName name) :
    (Path.ofString (rootText root ++ "/" ++ path)).segments
      = root ++ (slashSegments path).filter isKept := by
  have hkept : (slashSegments ("/".intercalate root)).filter isKept = root := by
    by_cases hne : root = []
    · rw [hne]
      rfl
    · rw [slashSegments_intercalate hne fun name hmem => (hroot name hmem).no_slash]
      exact List.filter_eq_self.mpr fun name hmem => (hroot name hmem).isKept
  rw [Path.segments_ofString, slashSegments_append, rootText_eq, slashSegments_append,
    List.filter_append, List.filter_append, hkept]
  rfl

/-- A path below the root leads where the path that follows the root leads from there. -/
theorem resolve_rootText (hroot : ∀ name ∈ root, IsFileName name) (h : IsRelative path) :
    (Path.ofString (rootText root ++ "/" ++ path)).isAbsolute = true
      ∧ (Path.ofString (rootText root ++ "/" ++ path)).resolve []
        = (Path.ofString path).resolve root := by
  have habsolute : (Path.ofString (rootText root ++ "/" ++ path)).isAbsolute = true := by
    rw [Path.isAbsolute, bne_iff_ne]
    refine mt Path.slashes_eq_zero_iff.mp (not_not.mpr ?_)
    simp [rootText_eq]
  have hrelative : (Path.ofString path).isAbsolute = false := by
    simp [Path.isAbsolute, Path.slashes_eq_zero_iff.mpr h.relative]
  refine ⟨habsolute, ?_⟩
  rw [Path.resolve, Path.resolve, habsolute, hrelative, segments_ofString_rootText hroot,
    Path.segments_ofString, List.foldl_append]
  simp only [if_true, Bool.false_eq_true, if_false]
  rw [foldl_resolveStep (fun name hmem => (hroot name hmem).ne_dots), List.nil_append]

theorem below?_append (root names : List String) : below? root (root ++ names) = some names := by
  simp [below?]

/-- A path from the top of the file tree that leads below the root is read as the names below the
root. -/
theorem projectPath_absolute {names : List String}
    (habsolute : (Path.ofString path).isAbsolute = true) (hnull : Char.ofNat 0 ∉ path.toList)
    (hplace : (Path.ofString path).resolve [] = root ++ names) (hroute : IsRoute names 0 names)
    (hnames : ∀ name ∈ names, '/' ∉ name.toList ∧ '\\' ∉ name.toList) :
    projectPath root path = "/".intercalate names := by
  have hnulls : path.toList.contains (Char.ofNat 0) = false := by simpa using hnull
  have hrelative := hroute.isRelative hnames
  rw [projectPath, habsolute, hnulls, hplace, below?_append]
  simp only [if_true, Bool.false_eq_true, if_false, Path.toString, true_and, List.replicate_zero,
    String.ofList_nil, String.empty_append]
  split
  · next hempty =>
    rw [hempty]
    rfl
  · rw [slashed_eq_self hrelative.no_backslash, normalPath_relative hrelative.relative,
      hroute.normalSegments_slashSegments fun name hmem => (hnames name hmem).1]

/-- A path that does not lead out of the root may be written from the top of the file tree. -/
theorem projectPath_under_root (hroot : ∀ name ∈ root, IsFileName name) (h : IsRelative path)
    (hnull : Char.ofNat 0 ∉ path.toList) (hinside : ¬ LeadsOut (projectPath root path)) :
    projectPath root (rootText root ++ "/" ++ path) = projectPath root path := by
  obtain ⟨names, hpath, hroute, hnames, hplace⟩ := h.exists_names hinside
  obtain ⟨habsolute, hresolve⟩ := resolve_rootText hroot h
  have hnulls : Char.ofNat 0 ∉ (rootText root ++ "/" ++ path).toList := by
    rw [String.toList_append, String.toList_append]
    refine List.not_mem_append (List.not_mem_append (null_not_mem_rootText hroot) ?_) hnull
    decide
  rw [hpath]
  exact projectPath_absolute habsolute hnulls (hresolve.trans hplace) hroute hnames

end Root

/-! ## Where a path leads -/

/-- What is resolved from the top of the file tree are segments of the path that are names. -/
theorem foldl_resolveStep_plain {segments done : List String}
    (hsegments : ∀ segment ∈ segments, isKept segment = true)
    (hdone : ∀ name ∈ done, IsPlainSegment name) :
    ∀ name ∈ segments.foldl Path.resolveStep done,
      IsPlainSegment name ∧ (name ∈ done ∨ name ∈ segments) := by
  induction segments using List.reverseRecOn with
  | nil => exact fun name hmem => ⟨hdone name hmem, .inl hmem⟩
  | append_singleton segments segment ih =>
    obtain ⟨hsegments, hsegment⟩ := List.forall_mem_append.mp hsegments
    intro name hmem
    rw [List.foldl_append, List.foldl_cons, List.foldl_nil, Path.resolveStep] at hmem
    split at hmem
    · obtain ⟨hplain, hfrom⟩ := ih hsegments name (List.dropLast_subset _ hmem)
      exact ⟨hplain, hfrom.imp_right (List.mem_append_left _)⟩
    · next hdots =>
      obtain hmem | hmem := List.mem_append.mp hmem
      · obtain ⟨hplain, hfrom⟩ := ih hsegments name hmem
        exact ⟨hplain, hfrom.imp_right (List.mem_append_left _)⟩
      · obtain rfl := List.mem_singleton.mp hmem
        obtain ⟨hempty, hdot⟩ : name ≠ "" ∧ name ≠ "." := by
          simpa [isKept] using hsegment name (by simp)
        exact ⟨⟨hempty, hdot, hdots⟩, .inr (by simp)⟩

/-- Whether a path leads to what lies at the names below the root. It is a relative one that does
not climb out of the root, or one from the top of the file tree. -/
inductive LeadsTo (root : List String) (path : String) (names : List String) : Prop
  | relative (h : IsRelative path) (hinside : ¬ LeadsOut (projectPath root path))
    (hplace : (Path.ofString path).resolve root = root ++ names)
  | absolute (h : (Path.ofString path).isAbsolute = true) (hnull : Char.ofNat 0 ∉ path.toList)
    (hplace : (Path.ofString path).resolve [] = root ++ names)
    (hnames : ∀ name ∈ names, '\\' ∉ name.toList)

/-- The project path of a path is made of the names that it leads to. -/
theorem LeadsTo.projectPath_eq {root names : List String} {path : String}
    (h : LeadsTo root path names) : projectPath root path = "/".intercalate names := by
  cases h with
  | relative h hinside hplace =>
    obtain ⟨names', hpath, -, -, hplace'⟩ := h.exists_names hinside
    rw [hpath, List.append_cancel_left (hplace.symm.trans hplace')]
  | absolute h hnull hplace hnames =>
    have hresolved : ∀ name ∈ names,
        IsPlainSegment name ∧ name ∈ (slashSegments path).filter isKept := by
      intro name hmem
      have hthere : name ∈ (Path.ofString path).resolve [] := hplace ▸ List.mem_append_right _ hmem
      rw [Path.resolve, h, Path.segments_ofString] at hthere
      have hplain := foldl_resolveStep_plain (fun _ => List.of_mem_filter) (by simp) name hthere
      exact ⟨hplain.1, hplain.2.resolve_left (List.not_mem_nil)⟩
    refine projectPath_absolute h hnull hplace ⟨rfl, fun name hmem => (hresolved name hmem).1⟩
      fun name hmem => ⟨?_, hnames name hmem⟩
    exact slash_not_mem_of_mem_slashSegments (List.mem_of_mem_filter (hresolved name hmem).2)

end StyleAudit
