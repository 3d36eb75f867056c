import Mathlib.Data.List.Basic
import Mathlib.Data.List.TakeWhile
import StyleAudit.Path.Project

/-!
# Project paths and their segments

A project path is the text of a list of file names with slashes between them. Nothing is lost in the
text: the names are the path's segments again (`slashSegments_intercalate`). So what lies below a
directory and which directory a file lies in can be read from the segments (`liesBelow_iff`,
`liesIn_iff_eq_parentDir`).
-/

namespace StyleAudit

/-! ## File names -/

/-- A name that a file or a directory can have. -/
structure IsFileName (name : String) : Prop where
  ne_empty : name ≠ ""
  ne_dot : name ≠ "."
  ne_dots : name ≠ ".."
  no_slash : '/' ∉ name.toList
  no_null : Char.ofNat 0 ∉ name.toList

instance : DecidablePred IsFileName := fun name =>
  decidable_of_iff (name ≠ "" ∧ name ≠ "." ∧ name ≠ ".." ∧ '/' ∉ name.toList
      ∧ Char.ofNat 0 ∉ name.toList)
    ⟨fun ⟨h₁, h₂, h₃, h₄, h₅⟩ => ⟨h₁, h₂, h₃, h₄, h₅⟩,
      fun ⟨h₁, h₂, h₃, h₄, h₅⟩ => ⟨h₁, h₂, h₃, h₄, h₅⟩⟩

/-! ## Segments -/

/-- Names without slashes can be read from their path. -/
theorem slashSegments_intercalate {names : List String} (hne : names ≠ [])
    (h : ∀ name ∈ names, '/' ∉ name.toList) : slashSegments ("/".intercalate names) = names := by
  have hsplit : ("/".intercalate names).toList.splitOn '/' = names.map String.toList := by
    rw [String.toList_intercalate, show "/".toList = ['/'] from rfl]
    refine List.splitOn_intercalate '/' ?_ (by simpa using hne)
    intro segment hsegment
    obtain ⟨name, hname, rfl⟩ := List.mem_map.mp hsegment
    exact h name hname
  rw [slashSegments, hsplit, List.map_map]
  simp

theorem intercalate_slashSegments (path : String) :
    "/".intercalate (slashSegments path) = path := by
  apply String.toList_inj.mp
  rw [String.toList_intercalate, slashSegments, List.map_map]
  simp [Function.comp_def, List.intercalate_splitOn, show "/".toList = ['/'] from rfl]

theorem slashSegments_ne_nil (path : String) : slashSegments path ≠ [] := by
  simp [slashSegments, List.splitOn_ne_nil]

theorem slashSegments_append (front rest : String) :
    slashSegments (front ++ "/" ++ rest) = slashSegments front ++ slashSegments rest := by
  simp [slashSegments, List.splitOn_append_cons_self, show "/".toList = ['/'] from rfl]

theorem intercalate_ne_empty {names : List String} (hne : names ≠ [])
    (h : ∀ name ∈ names, IsFileName name) : "/".intercalate names ≠ "" := by
  intro hempty
  have hsegments := slashSegments_intercalate hne fun name hname => (h name hname).no_slash
  rw [hempty] at hsegments
  obtain rfl : [""] = names := hsegments
  exact (h "" (by simp)).ne_empty rfl

theorem names_eq_of_intercalate_eq {names other : List String}
    (hnames : ∀ name ∈ names, IsFileName name) (hother : ∀ name ∈ other, IsFileName name)
    (h : "/".intercalate names = "/".intercalate other) : names = other := by
  by_cases hne : names = []
  · subst hne
    by_contra hmore
    exact intercalate_ne_empty (Ne.symm hmore) hother h.symm
  · have hmore : other ≠ [] := by
      rintro rfl
      exact intercalate_ne_empty hne hnames h
    rw [← slashSegments_intercalate hne fun name hname => (hnames name hname).no_slash, h,
      slashSegments_intercalate hmore fun name hname => (hother name hname).no_slash]

/-! ## Where a path lies -/

/-- The path of something that has the path `below` when seen from a directory. The root of a
project is the empty text. -/
def pathUnder (directory below : String) : String :=
  if directory = "" then below else directory ++ "/" ++ below

/-- Whether a path leads to something below a directory. -/
def LiesBelow (directory path : String) : Prop :=
  ∃ below, below ≠ "" ∧ path = pathUnder directory below

/-- Whether a path leads to something in a directory, and not in one further down. -/
def LiesIn (directory path : String) : Prop :=
  ∃ name, name ≠ "" ∧ '/' ∉ name.toList ∧ path = pathUnder directory name

theorem pathUnder_intercalate {above names : List String}
    (h : ∀ name ∈ above, IsFileName name) (hne : names ≠ []) :
    pathUnder ("/".intercalate above) ("/".intercalate names)
      = "/".intercalate (above ++ names) := by
  by_cases habove : above = []
  · simp [habove, pathUnder]
  · rw [pathUnder, if_neg (intercalate_ne_empty habove h),
      String.intercalate_append_of_ne_nil habove hne]

/-- A path lies below exactly the directories that its segments pass through. -/
theorem liesBelow_iff {names : List String} (h : ∀ name ∈ names, IsFileName name)
    {directory : String} : LiesBelow directory ("/".intercalate names)
      ↔ ∃ above rest, rest ≠ [] ∧ names = above ++ rest ∧ directory = "/".intercalate above := by
  constructor
  · rintro ⟨below, hbelow, heq⟩
    unfold pathUnder at heq
    split at heq
    · next hroot =>
      refine ⟨[], names, ?_, rfl, hroot⟩
      rintro rfl
      exact hbelow heq.symm
    · have hne : names ≠ [] := by
        rintro rfl
        simpa using congrArg (fun text => '/' ∈ String.toList text) heq
      refine ⟨slashSegments directory, slashSegments below, slashSegments_ne_nil below, ?_,
        (intercalate_slashSegments directory).symm⟩
      rw [← slashSegments_append, ← heq,
        slashSegments_intercalate hne fun name hname => (h name hname).no_slash]
  · rintro ⟨above, rest, hne, rfl, rfl⟩
    obtain ⟨habove, hrest⟩ := List.forall_mem_append.mp h
    exact ⟨_, intercalate_ne_empty hne hrest, (pathUnder_intercalate habove hne).symm⟩

theorem liesBelow_intercalate_iff {above names : List String}
    (habove : ∀ name ∈ above, IsFileName name) (hnames : ∀ name ∈ names, IsFileName name) :
    LiesBelow ("/".intercalate above) ("/".intercalate names)
      ↔ ∃ rest, rest ≠ [] ∧ names = above ++ rest := by
  rw [liesBelow_iff hnames]
  constructor
  · rintro ⟨other, rest, hne, rfl, hdirectory⟩
    rw [names_eq_of_intercalate_eq habove (List.forall_mem_append.mp hnames).1 hdirectory]
    exact ⟨rest, hne, rfl⟩
  · rintro ⟨rest, hne, rfl⟩
    exact ⟨above, rest, hne, rfl, rfl⟩

/-- A path lies in its directory. -/
theorem liesIn_iff {names : List String} (hne : names ≠ [])
    (h : ∀ name ∈ names, IsFileName name) {directory : String} :
    LiesIn directory ("/".intercalate names) ↔ directory = "/".intercalate names.dropLast := by
  have hlast := List.dropLast_append_getLast hne
  constructor
  · rintro ⟨name, hname, hslash, heq⟩
    obtain ⟨above, rest, -, hnames, rfl⟩ := (liesBelow_iff h).mp ⟨name, hname, heq⟩
    have habove : ∀ other ∈ above, IsFileName other := fun other hmem =>
      h other (hnames ▸ List.mem_append_left _ hmem)
    have hpath : "/".intercalate names = "/".intercalate (above ++ [name]) := by
      rw [heq, ← pathUnder_intercalate habove (List.cons_ne_nil _ _)]
      simp
    have hname' : names = above ++ [name] := by
      rw [← slashSegments_intercalate hne fun other hmem => (h other hmem).no_slash, hpath]
      refine slashSegments_intercalate (by simp) fun other hmem => ?_
      rcases List.mem_append.mp hmem with hmem | hmem
      · exact (habove other hmem).no_slash
      · exact List.mem_singleton.mp hmem ▸ hslash
    rw [hname', List.dropLast_concat]
  · rintro rfl
    have hname := h _ (List.getLast_mem hne)
    refine ⟨names.getLast hne, hname.ne_empty, hname.no_slash, ?_⟩
    have hpath := pathUnder_intercalate
      (fun other hmem => h other (List.dropLast_subset names hmem))
      (List.cons_ne_nil (names.getLast hne) [])
    rw [hlast] at hpath
    simpa using hpath.symm

theorem ne_empty_of_intercalate_eq {names : List String} (hne : names ≠ [])
    (h : ∀ name ∈ names, IsFileName name) {front rest : String}
    (heq : "/".intercalate names = front ++ "/" ++ rest) : front ≠ "" ∧ rest ≠ "" := by
  have hnames := slashSegments_intercalate hne fun name hname => (h name hname).no_slash
  rw [heq, slashSegments_append] at hnames
  constructor
  · rintro rfl
    exact (h "" (hnames ▸ List.mem_append_left _ (by decide))).ne_empty rfl
  · rintro rfl
    exact (h "" (hnames ▸ List.mem_append_right _ (by decide))).ne_empty rfl

/-- There is no slash at the front of a project path. -/
theorem head?_intercalate {names : List String} (hne : names ≠ [])
    (h : ∀ name ∈ names, IsFileName name) : ("/".intercalate names).toList.head? ≠ some '/' := by
  intro hhead
  obtain ⟨rest, hrest⟩ := List.head?_eq_some_iff.mp hhead
  have htext : "/".intercalate names = "" ++ "/" ++ String.ofList rest := by
    apply String.toList_inj.mp
    rw [hrest]
    simp
  exact (ne_empty_of_intercalate_eq hne h htext).1 rfl

/-- There is no slash at the end of a project path. -/
theorem head?_reverse_intercalate {names : List String} (hne : names ≠ [])
    (h : ∀ name ∈ names, IsFileName name) :
    ("/".intercalate names).toList.reverse.head? ≠ some '/' := by
  intro hhead
  obtain ⟨rest, hrest⟩ := List.head?_eq_some_iff.mp hhead
  have htext : "/".intercalate names = String.ofList rest.reverse ++ "/" ++ "" := by
    apply String.toList_inj.mp
    rw [← List.reverse_reverse ("/".intercalate names).toList, hrest]
    simp
  exact (ne_empty_of_intercalate_eq hne h htext).2 rfl

theorem parentDir_of_no_slash {name : String} (h : '/' ∉ name.toList) : parentDir name = "" := by
  have hfront : name.toList.reverse.dropWhile (· != '/') = [] := by
    refine List.dropWhile_eq_nil_iff.mpr fun c hc => ?_
    simp only [bne_iff_ne]
    rintro rfl
    exact h (List.mem_reverse.mp hc)
  rw [parentDir, hfront]
  rfl

theorem parentDir_append {front name : String} (hfront : front ≠ "")
    (hlast : front.toList.reverse.head? ≠ some '/') (hname : '/' ∉ name.toList) :
    parentDir (front ++ "/" ++ name) = front := by
  have hskip : ∀ c ∈ name.toList.reverse, (c != '/') = true := by
    intro c hc
    simp only [bne_iff_ne]
    rintro rfl
    exact hname (List.mem_reverse.mp hc)
  have hcut : (front ++ "/" ++ name).toList.reverse.dropWhile (· != '/')
      = '/' :: front.toList.reverse := by
    rw [String.toList_append, String.toList_append, List.reverse_append, List.reverse_append,
      List.dropWhile_append_of_pos hskip]
    rfl
  have hbare : ('/' :: front.toList.reverse).dropWhile (· == '/') = front.toList.reverse := by
    rw [List.dropWhile_cons_of_pos (by rfl)]
    cases hrest : front.toList.reverse with
    | nil => rfl
    | cons c rest =>
      rw [hrest] at hlast
      exact List.dropWhile_cons_of_neg (by simpa using hlast)
  have hsome : front.toList.reverse.isEmpty = false := by simpa using hfront
  simp only [parentDir, hcut, hbare, hsome]
  simp

theorem parentDir_intercalate {names : List String} (hne : names ≠ [])
    (h : ∀ name ∈ names, IsFileName name) :
    parentDir ("/".intercalate names) = "/".intercalate names.dropLast := by
  obtain ⟨above, name, rfl⟩ := (List.eq_nil_or_concat' names).resolve_left hne
  obtain ⟨habove, hname⟩ := List.forall_mem_append.mp h
  have hslash := (hname name (by simp)).no_slash
  rw [List.dropLast_concat]
  by_cases htop : above = []
  · rw [htop, List.nil_append, String.intercalate_singleton, parentDir_of_no_slash hslash]
    rfl
  · rw [String.intercalate_append_of_ne_nil htop (List.cons_ne_nil _ _),
      String.intercalate_singleton]
    exact parentDir_append (intercalate_ne_empty htop habove)
      (head?_reverse_intercalate htop habove) hslash

/-- A path lies in its parent. -/
theorem liesIn_iff_eq_parentDir {names : List String} (hne : names ≠ [])
    (h : ∀ name ∈ names, IsFileName name) {directory : String} :
    LiesIn directory ("/".intercalate names) ↔ directory = parentDir ("/".intercalate names) := by
  rw [liesIn_iff hne h, parentDir_intercalate hne h]

end StyleAudit
