import Mathlib.Data.List.Forall2
import Mathlib.Logic.Relation
import StyleAudit.Exclusion
import StyleAudit.Proofs.Path.Normal

/-!
# Spellings of a path

A relative path may be written in its normal form, with backslashes, or from the top of the file
tree. Project paths do not tell these spellings apart, so neither do listed exclusions
(`normalize_spelling_independent`). A null character is the exception: no path from the top of the
file tree has one in it and leads below the root (`projectPath_null_outside`).
-/

namespace StyleAudit

/-! ## Spellings -/

/-- Another spelling of a relative path. -/
inductive Respelling (root : List String) (path : String) : String → Prop
  /-- The normal form. -/
  | normal (h : IsRelative path) : Respelling root path (projectPath root path)
  /-- Some of the slashes are backslashes. -/
  | backslashes {other : String} (h : IsRelative path) (hslashed : slashed other = path)
    (hsingle : ¬ ['/', '/'] <:+: path.toList) : Respelling root path other
  /-- The path is seen from the top of the file tree. -/
  | absolute (h : IsRelative path) (hinside : ¬ LeadsOut (projectPath root path))
    (hnull : Char.ofNat 0 ∉ path.toList) : Respelling root path (rootText root ++ "/" ++ path)

section Spelled

variable {root : List String} {path : String}

theorem IsRelative.isNormalPath (h : IsRelative path) (root : List String) :
    IsNormalPath (projectPath root path) := by
  obtain ⟨ups, names, hroute, hnames, -⟩ := h.exists_route
  exact ⟨_, ups, names, hroute, fun name hmem => (hnames name hmem).1, h.projectPath_eq root⟩

theorem IsRelative.projectPath_projectPath (h : IsRelative path) (root : List String) :
    projectPath root (projectPath root path) = projectPath root path := by
  obtain ⟨ups, names, hroute, hnames, -⟩ := h.exists_route
  rw [h.projectPath_eq root, hroute.projectPath_eq hnames root]

/-- Where no two slashes are next to each other, a backslash in place of a slash does not stand at
the front of a segment. -/
theorem head?_ne_backslash_of_slashed {other : String} (h : IsRelative path)
    (hslashed : slashed other = path) (hsingle : ¬ ['/', '/'] <:+: path.toList) :
    other.toList.head? ≠ some '/'
      ∧ ∀ segment ∈ slashSegments other, segment.toList.head? ≠ some '\\' := by
  have hpath : path.toList = other.toList.map fun c => if c = '\\' then '/' else c := by
    rw [← hslashed, slashed, String.toList_ofList]
  refine ⟨fun hhead => h.relative (by simp [hpath, hhead]), fun segment hmem hhead => ?_⟩
  obtain ⟨rest, hsegment⟩ := List.head?_eq_some_iff.mp hhead
  obtain ⟨back, hback⟩ | hinfix := prefix_or_infix_of_mem_slashSegments hmem
  · exact h.relative (by simp [hpath, ← hback, hsegment])
  · refine hsingle (List.IsInfix.trans ?_ (hpath ▸ hinfix.map _))
    rw [hsegment]
    exact ⟨[], _, rfl⟩

theorem projectPath_of_slashed {other : String} (h : IsRelative path)
    (hslashed : slashed other = path) (hsingle : ¬ ['/', '/'] <:+: path.toList) :
    projectPath root other = projectPath root path := by
  obtain ⟨hrelative, hback⟩ := head?_ne_backslash_of_slashed h hslashed hsingle
  rw [projectPath_relative root hrelative hback, hslashed, h.projectPath_eq root]

/-- The normal form leads to where the path leads, from everywhere. -/
theorem IsRelative.resolve_projectPath (h : IsRelative path) (root here : List String) :
    (Path.ofString (projectPath root path)).resolve here = (Path.ofString path).resolve here := by
  obtain ⟨ups, names, hroute, hnames, hplace⟩ := h.exists_route
  rw [h.projectPath_eq root]
  obtain ⟨ups', names', hroute', -, hplace'⟩ := (hroute.isRelative hnames).exists_route
  rw [hroute.normalSegments_slashSegments fun name hmem => (hnames name hmem).1] at hroute'
  obtain ⟨rfl, rfl⟩ := hroute.unique hroute'
  rw [hplace, hplace']

theorem Respelling.projectPath_eq (hroot : ∀ name ∈ root, IsFileName name) {other : String}
    (h : Respelling root path other) : projectPath root other = projectPath root path := by
  cases h with
  | normal h => exact h.projectPath_projectPath root
  | backslashes h hslashed hsingle => exact projectPath_of_slashed h hslashed hsingle
  | absolute h hinside hnull => exact projectPath_under_root hroot h hnull hinside

/-- Paths that are reached from each other by respelling have the same project path. -/
theorem projectPath_eq_of_eqvGen (hroot : ∀ name ∈ root, IsFileName name) {other : String}
    (h : Relation.EqvGen (Respelling root) path other) :
    projectPath root path = projectPath root other := by
  induction h with
  | rel _ _ h => exact (h.projectPath_eq hroot).symm
  | refl => rfl
  | symm _ _ _ ih => exact ih.symm
  | trans _ _ _ _ _ ih ih' => exact ih.trans ih'

end Spelled

/-! ## Listed exclusions -/

namespace ExclusionLists

/-- The paths that are listed for a category. -/
def entries (lists : ExclusionLists) : ExclusionCategory → List String
  | .css => lists.cssPaths
  | .move => lists.movePaths
  | .front => lists.frontPaths
  | .duplicate => lists.duplicatePaths

/-- Whether two lists of exclusions have the same classes, and their paths correspond to each other
entry by entry, where one entry is reached from the other by respelling. -/
structure SpelledAlike (root : List String) (lists lists' : ExclusionLists) : Prop where
  classes : lists.classes = lists'.classes
  entries : ∀ category, List.Forall₂ (Relation.EqvGen (Respelling root)) (lists.entries category)
    (lists'.entries category)

theorem normalize_paths (lists : ExclusionLists) (root : List String)
    (category : ExclusionCategory) :
    (lists.normalize root).paths category
      = ((lists.entries category).map (projectPath root)).eraseDups := by
  cases category <;> rfl

/-- A path is excluded exactly if its text starts with the project path of a listed one. -/
theorem normalize_excludes_iff {lists : ExclusionLists} {root : List String}
    {category : ExclusionCategory} {path : String} :
    (lists.normalize root).excludes category path = true
      ↔ ∃ entry ∈ lists.entries category, (projectPath root entry).toList <+: path.toList := by
  simp [Exclusions.excludes, normalize_paths]

end ExclusionLists

theorem LiesBelow.isPrefix {directory path : String} (h : LiesBelow directory path) :
    directory.toList <+: path.toList := by
  obtain ⟨below, -, rfl⟩ := h
  unfold pathUnder
  split
  · next hroot => simp [hroot]
  · simp [List.append_assoc]

theorem map_projectPath_eq {root entries entries' : List String}
    (hroot : ∀ name ∈ root, IsFileName name)
    (h : List.Forall₂ (Relation.EqvGen (Respelling root)) entries entries') :
    entries.map (projectPath root) = entries'.map (projectPath root) := by
  induction h with
  | nil => rfl
  | cons hentry _ ih => rw [List.map_cons, List.map_cons, projectPath_eq_of_eqvGen hroot hentry, ih]

theorem ExclusionLists.SpelledAlike.normalize_eq {root : List String}
    {lists lists' : ExclusionLists} (hroot : ∀ name ∈ root, IsFileName name)
    (h : lists.SpelledAlike root lists') : lists.normalize root = lists'.normalize root := by
  have hpaths (category : ExclusionCategory) := map_projectPath_eq hroot (h.entries category)
  have hcss := hpaths .css
  have hmove := hpaths .move
  have hfront := hpaths .front
  have hduplicate := hpaths .duplicate
  simp only [ExclusionLists.entries] at hcss hmove hfront hduplicate
  rw [normalize, normalize, hcss, hmove, hfront, hduplicate, h.classes]

/-- A project path is a normal form, and listed paths mean the same however they are spelled.

* The project path of a relative path without backslashes is the text of a route. It is its own
  project path, and it leads to where the path leads.
* The path may be written with backslashes for slashes if no two slashes in it are next to each
  other. If it does not lead out of the root, it may be written from the top of the file tree, and
  its project path is made of the names below the root that it leads to.
* Lists whose entries correspond through respellings exclude the same.
* A listed path excludes its project path and all that lies below. If the path leads to something
  below the root, that is what is excluded, and all below it. -/
theorem normalize_spelling_independent {root : List String}
    (hroot : ∀ name ∈ root, IsFileName name) :
    (∀ path, IsRelative path → IsNormalPath (projectPath root path)
        ∧ projectPath root (projectPath root path) = projectPath root path
        ∧ (∀ here, (Path.ofString (projectPath root path)).resolve here
          = (Path.ofString path).resolve here)
        ∧ (∀ other, slashed other = path → ¬ ['/', '/'] <:+: path.toList →
          projectPath root other = projectPath root path)
        ∧ (¬ LeadsOut (projectPath root path) →
          (∃ names, projectPath root path = "/".intercalate names
            ∧ (Path.ofString path).resolve root = root ++ names)
          ∧ (Char.ofNat 0 ∉ path.toList →
            projectPath root (rootText root ++ "/" ++ path) = projectPath root path)))
      ∧ (∀ lists lists' : ExclusionLists, lists.SpelledAlike root lists' →
        lists.normalize root = lists'.normalize root
        ∧ ∀ category path, (lists.normalize root).excludes category path
          = (lists'.normalize root).excludes category path)
      ∧ ∀ (lists : ExclusionLists) category, ∀ entry ∈ lists.entries category,
        (∀ names, LeadsTo root entry names → projectPath root entry = "/".intercalate names)
        ∧ (lists.normalize root).excludes category (projectPath root entry) = true
        ∧ ∀ path, LiesBelow (projectPath root entry) path →
          (lists.normalize root).excludes category path = true := by
  refine ⟨fun path h => ⟨h.isNormalPath root, h.projectPath_projectPath root,
    h.resolve_projectPath root, fun other => projectPath_of_slashed h, fun hinside =>
      ⟨?_, fun hnull => projectPath_under_root hroot h hnull hinside⟩⟩,
    fun lists lists' h => ?_, fun lists category entry hmem => ?_⟩
  · obtain ⟨names, hpath, -, -, hplace⟩ := h.exists_names hinside
    exact ⟨names, hpath, hplace⟩
  · have hsame := h.normalize_eq hroot
    exact ⟨hsame, fun category path => by rw [hsame]⟩
  · refine ⟨fun names h => h.projectPath_eq,
      ExclusionLists.normalize_excludes_iff.mpr ⟨entry, hmem, List.prefix_refl _⟩,
      fun path hpath => ?_⟩
    exact ExclusionLists.normalize_excludes_iff.mpr ⟨entry, hmem, hpath.isPrefix⟩

/-- A directory listed with backslashes. -/
def backslashLists : ExclusionLists where
  cssPaths := [".\\css\\pages/"]

/-- The same directory listed from the top of the file tree. -/
def rootedLists : ExclusionLists where
  cssPaths := ["/r/./css/pages/"]

theorem normalize_spelling_independent_pages :
    (∀ name ∈ ["r"], IsFileName name) ∧ IsRelative "./css/pages/"
      ∧ projectPath ["r"] "./css/pages/" = "css/pages"
      ∧ backslashLists.SpelledAlike ["r"] rootedLists
      ∧ backslashLists.normalize ["r"] = rootedLists.normalize ["r"]
      ∧ ∀ path, LiesBelow "css/pages" path →
        (rootedLists.normalize ["r"]).excludes .css path = true := by
  have hroot : ∀ name ∈ ["r"], IsFileName name := by decide
  have hrelative : IsRelative "./css/pages/" := by decide
  have hpath : projectPath ["r"] "./css/pages/" = "css/pages" := by decide +kernel
  have hrooted : projectPath ["r"] "/r/./css/pages/" = "css/pages" := by decide +kernel
  have hinside : ¬ LeadsOut (projectPath ["r"] "./css/pages/") := by decide +kernel
  have hback : Respelling ["r"] "./css/pages/" ".\\css\\pages/" :=
    .backslashes hrelative (by decide +kernel) (by decide +kernel)
  have htext : rootText ["r"] ++ "/" ++ "./css/pages/" = "/r/./css/pages/" := by decide +kernel
  have habsolute : Respelling ["r"] "./css/pages/" "/r/./css/pages/" :=
    htext ▸ .absolute hrelative hinside (by decide +kernel)
  have halike : backslashLists.SpelledAlike ["r"] rootedLists := by
    refine ⟨rfl, fun category => ?_⟩
    cases category with
    | css =>
      exact .cons (.trans _ _ _ (.symm _ _ (.rel _ _ hback)) (.rel _ _ habsolute)) .nil
    | move => exact .nil
    | front => exact .nil
    | duplicate => exact .nil
  obtain ⟨-, hsame, hbelow⟩ := normalize_spelling_independent hroot
  refine ⟨hroot, hrelative, hpath, halike, (hsame _ _ halike).1, fun path h => ?_⟩
  have hmem : "/r/./css/pages/" ∈ rootedLists.entries .css := by
    simp [ExclusionLists.entries, rootedLists]
  exact (hbelow rootedLists .css _ hmem).2.2 path (hrooted ▸ h)

/-- With a null character in it, a path from the top of the file tree lies outside the root. -/
theorem projectPath_null_outside :
    IsRelative "a\x00b" ∧ projectPath ["r"] "a\x00b" = "a\x00b"
      ∧ ¬ LeadsOut (projectPath ["r"] "a\x00b")
      ∧ projectPath ["r"] (rootText ["r"] ++ "/" ++ "a\x00b") = "/r/a\x00b"
      ∧ projectPath ["r"] (rootText ["r"] ++ "/" ++ "a\x00b") ≠ projectPath ["r"] "a\x00b" := by
  decide +kernel

end StyleAudit
