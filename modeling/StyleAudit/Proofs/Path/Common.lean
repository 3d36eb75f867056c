import StyleAudit.Proofs.Path.Segments
import StyleAudit.Proofs.Store.Places
import StyleAudit.Proofs.Text.Words

/-!
# The common directory as a greatest lower bound

Lists of segments are ordered by what they start with. `sharedSegments` is the greatest lower bound
of some paths in this order (`isPrefix_sharedSegments_iff`), and `commonPath` gives its text, one
segment shorter where that text names a file. What a greatest lower bound gives is all there: no
path counts for its place in the list or for how often it is in it, and more paths share less, even
though the file is looked for at another place then (`commonPath_greatest`).
-/

namespace StyleAudit

/-! ## Segments of a path -/

/-- A segment that is the name of something in a directory, and stands neither for the directory nor
for the one above it. -/
structure IsPlainSegment (segment : String) : Prop where
  ne_empty : segment ≠ ""
  ne_dot : segment ≠ "."
  ne_dots : segment ≠ ".."

theorem slash_not_mem_of_mem_slashSegments {path segment : String}
    (h : segment ∈ slashSegments path) : '/' ∉ segment.toList := by
  obtain ⟨piece, hpiece, rfl⟩ := List.mem_map.mp h
  intro hslash
  rw [String.toList_ofList] at hslash
  rw [List.splitOn_eq_splitOnP] at hpiece
  simpa using not_of_mem_splitOnP hpiece '/' hslash

/-! ## What paths start with -/

theorem isPrefix_sharedStart_iff {front as bs : List String} :
    front <+: sharedStart as bs ↔ front <+: as ∧ front <+: bs := by
  fun_induction sharedStart as bs generalizing front with
  | case1 a as bs ih =>
    cases front with
    | nil => simp
    | cons c front => simp only [List.cons_prefix_cons, ih]; tauto
  | case2 a as b bs hne =>
    cases front with
    | nil => simp
    | cons c front =>
      simp only [List.prefix_nil, List.cons_ne_nil, List.cons_prefix_cons, false_iff]
      rintro ⟨⟨rfl, -⟩, ⟨rfl, -⟩⟩
      exact hne rfl
  | case3 as bs h =>
    cases as with
    | nil => simp +contextual
    | cons a as =>
      cases bs with
      | nil => simp +contextual
      | cons b bs => exact absurd rfl (h a as b bs rfl)

theorem isPrefix_foldl_sharedStart_iff {front first : List String} {rest : List (List String)} :
    front <+: rest.foldl sharedStart first ↔ ∀ names ∈ first :: rest, front <+: names := by
  induction rest generalizing first with
  | nil => simp
  | cons next rest ih => simp [ih, isPrefix_sharedStart_iff, and_assoc]

/-- The segments that all of some paths start with. -/
def sharedSegments : List String → List String
  | [] => []
  | path :: paths => (paths.map slashSegments).foldl sharedStart (slashSegments path)

/-- The longest list of segments that all of some paths start with. -/
structure IsLongestStart (paths shared : List String) : Prop where
  starts : ∀ path ∈ paths, shared <+: slashSegments path
  longest : ∀ front, (∀ path ∈ paths, front <+: slashSegments path) →
    front.length ≤ shared.length

section Shared

variable {paths more : List String}

theorem isPrefix_sharedSegments_iff (hne : paths ≠ []) {front : List String} :
    front <+: sharedSegments paths ↔ ∀ path ∈ paths, front <+: slashSegments path := by
  obtain ⟨first, rest, rfl⟩ := List.exists_cons_of_ne_nil hne
  rw [sharedSegments, isPrefix_foldl_sharedStart_iff, ← List.map_cons, List.forall_mem_map]

theorem sharedSegments_isPrefix {path : String} (hmem : path ∈ paths) :
    sharedSegments paths <+: slashSegments path :=
  (isPrefix_sharedSegments_iff (List.ne_nil_of_mem hmem)).mp (List.prefix_refl _) path hmem

theorem isLongestStart_sharedSegments (hne : paths ≠ []) :
    IsLongestStart paths (sharedSegments paths) where
  starts _ hmem := sharedSegments_isPrefix hmem
  longest _ hfront := ((isPrefix_sharedSegments_iff hne).mpr hfront).length_le

/-- What more paths start with, these paths start with. -/
theorem sharedSegments_isPrefix_of_subset (hne : paths ≠ []) (h : paths ⊆ more) :
    sharedSegments more <+: sharedSegments paths :=
  (isPrefix_sharedSegments_iff hne).mpr fun _ hmem => sharedSegments_isPrefix (h hmem)

/-- Where the paths in a list stand and how often does not matter. -/
theorem sharedSegments_congr (h : ∀ path, path ∈ more ↔ path ∈ paths) :
    sharedSegments more = sharedSegments paths := by
  by_cases hne : paths = []
  · have hmore : more = [] := by
      refine List.eq_nil_iff_forall_not_mem.mpr fun path hmem => ?_
      simpa [hne] using (h path).mp hmem
    rw [hne, hmore]
  · have hmore : more ≠ [] := by
      obtain ⟨path, hmem⟩ := List.exists_mem_of_ne_nil _ hne
      exact List.ne_nil_of_mem ((h path).mpr hmem)
    have hless := sharedSegments_isPrefix_of_subset hne fun path hmem => (h path).mpr hmem
    have hback := sharedSegments_isPrefix_of_subset hmore fun path hmem => (h path).mp hmem
    exact hless.eq_of_length_le hback.length_le

/-- Paths share nothing if there are none, or two of them differ in their first segment. -/
theorem sharedSegments_eq_nil_iff :
    sharedSegments paths = [] ↔ paths = [] ∨ ∃ path ∈ paths, ∃ other ∈ paths,
      (slashSegments path).head? ≠ (slashSegments other).head? := by
  constructor
  · intro hnil
    by_contra hsame
    push Not at hsame
    obtain ⟨hne, hsame⟩ := hsame
    obtain ⟨first, hfirst⟩ := List.exists_mem_of_ne_nil _ hne
    obtain ⟨segment, rest, hsegments⟩ := List.exists_cons_of_ne_nil (slashSegments_ne_nil first)
    -- the first segment of one path is the first of all of them, so it is shared
    have hshared : [segment] <+: sharedSegments paths := by
      refine (isPrefix_sharedSegments_iff hne).mpr fun path hmem => ?_
      have hhead := hsame path hmem first hfirst
      rw [hsegments, List.head?_cons, List.head?_eq_some_iff] at hhead
      obtain ⟨others, hpath⟩ := hhead
      rw [hpath]
      exact List.prefix_append [segment] others
    rw [hnil] at hshared
    simp at hshared
  · intro h
    obtain rfl | ⟨path, hpath, other, hother, hdiffer⟩ := h
    · rfl
    by_contra hsome
    obtain ⟨segment, rest, hshared⟩ := List.exists_cons_of_ne_nil hsome
    have hhead {path : String} (hmem : path ∈ paths) :
        (slashSegments path).head? = some segment := by
      obtain ⟨back, hback⟩ := sharedSegments_isPrefix hmem
      rw [← hback, hshared]
      rfl
    exact hdiffer ((hhead hpath).trans (hhead hother).symm)

theorem slash_not_mem_of_mem_sharedSegments {segment : String}
    (h : segment ∈ sharedSegments paths) : '/' ∉ segment.toList := by
  cases paths with
  | nil => simp [sharedSegments] at h
  | cons path paths =>
    have hstart := sharedSegments_isPrefix (List.mem_cons_self (a := path) (l := paths))
    exact slash_not_mem_of_mem_slashSegments (hstart.subset h)

end Shared

/-! ## Keeping off files -/

/-- Segments without the last one if they name a file. -/
def keptOff (isFile : String → Bool) (shared : List String) : List String :=
  if isFile ("/".intercalate shared) then shared.dropLast else shared

section KeptOff

variable (isFile : String → Bool)

theorem keptOff_isPrefix (shared : List String) : keptOff isFile shared <+: shared := by
  unfold keptOff
  split
  · exact List.dropLast_prefix shared
  · exact List.prefix_refl shared

/-- A file may be in the way at the one place, at the other, at both or at none; what is left of
the shorter list is a start of what is left of the longer one in each case. -/
theorem keptOff_mono {shared before : List String} (h : shared <+: before) :
    keptOff isFile shared <+: keptOff isFile before := by
  obtain ⟨rest, rfl⟩ := h
  by_cases hrest : rest = []
  · have hsame : shared ++ rest = shared := by rw [hrest, List.append_nil]
    exact hsame.symm ▸ List.prefix_refl _
  · have hshorter : shared <+: keptOff isFile (shared ++ rest) := by
      unfold keptOff
      split
      · rw [List.dropLast_append_of_ne_nil hrest]
        exact List.prefix_append _ _
      · exact List.prefix_append _ _
    exact (keptOff_isPrefix isFile shared).trans hshorter

/-- The common directory is the text of what the paths share, kept off files. -/
theorem commonPath_eq_keptOff (paths : List String) :
    commonPath isFile paths = if sharedSegments paths = [] then none
      else some ("/".intercalate (keptOff isFile (sharedSegments paths))) := by
  cases paths with
  | nil => rfl
  | cons path paths =>
    simp only [commonPath, sharedSegments, keptOff]
    exact if_congr Iff.rfl rfl (congrArg some (apply_ite "/".intercalate _ _ _).symm)

theorem commonPath_eq_some {paths : List String} {directory : String}
    (h : commonPath isFile paths = some directory) :
    paths ≠ [] ∧ sharedSegments paths ≠ []
      ∧ directory = "/".intercalate (keptOff isFile (sharedSegments paths)) := by
  rw [commonPath_eq_keptOff] at h
  split at h
  · cases h
  · next hshared =>
    refine ⟨?_, hshared, (Option.some.inj h).symm⟩
    rintro rfl
    exact hshared rfl

/-- What paths have in common depends on the files among what they all start with. -/
theorem commonPath_congr {isFile isFile' : String → Bool} {paths : List String}
    (h : ∀ shared, shared ≠ [] → (∀ path ∈ paths, shared <+: slashSegments path) →
      isFile' ("/".intercalate shared) = isFile ("/".intercalate shared)) :
    commonPath isFile' paths = commonPath isFile paths := by
  rw [commonPath_eq_keptOff, commonPath_eq_keptOff]
  split
  · rfl
  · next hshared =>
    rw [keptOff, keptOff, h _ hshared fun path hmem => sharedSegments_isPrefix hmem]

/-- What paths of names have in common is read from the longest list of names that they all start
with. -/
theorem commonPath_map_intercalate {places : List (List String)} (hne : places ≠ [])
    (hplaces : ∀ names ∈ places, names ≠ [] ∧ ∀ name ∈ names, '/' ∉ name.toList) :
    ∃ shared, (∀ front, front <+: shared ↔ ∀ names ∈ places, front <+: names)
      ∧ commonPath isFile (places.map "/".intercalate)
        = if shared = [] then none else some ("/".intercalate (keptOff isFile shared)) := by
  refine ⟨sharedSegments (places.map "/".intercalate), fun front => ?_,
    commonPath_eq_keptOff isFile _⟩
  rw [isPrefix_sharedSegments_iff (by simpa using hne), List.forall_mem_map]
  refine forall₂_congr fun names hmem => ?_
  rw [slashSegments_intercalate (hplaces names hmem).1 (hplaces names hmem).2]

end KeptOff

/-! ## Looking for files -/

/-- How looking for a file answers in a project: the root is a directory, and nothing lies below a
file. Of the texts of a path it is the plain one that the second holds for, since a path that ends
in a dot names a file if the path without it does. -/
structure FileProbe (isFile : String → Bool) : Prop where
  root : isFile "" = false
  parent : ∀ names name, names ≠ [] →
    (∀ segment ∈ names ++ [name], IsPlainSegment segment ∧ '/' ∉ segment.toList) →
    isFile ("/".intercalate (names ++ [name])) = true → isFile ("/".intercalate names) = false

/-- The segments of a path are read as they are written, if they are plain. -/
theorem Path.segments_ofString_intercalate {names : List String} (hne : names ≠ [])
    (h : ∀ name ∈ names, IsPlainSegment name ∧ '/' ∉ name.toList) :
    (Path.ofString ("/".intercalate names)).segments = names := by
  rw [Path.ofString, slashSegments_intercalate hne fun name hmem => (h name hmem).2]
  refine List.filter_eq_self.mpr fun name hmem => ?_
  simp [(h name hmem).1.ne_empty, (h name hmem).1.ne_dot]

/-- There is no file with a null character in its path. -/
theorem Store.isFile_of_null {store : Store} {path : Path} {segment : String}
    (hmem : segment ∈ path.segments) (hnull : Char.ofNat 0 ∈ segment.toList) :
    store.isFile path = false := by
  have hany : (path.segments.any fun segment => segment.toList.contains (Char.ofNat 0)) = true :=
    List.any_eq_true.mpr ⟨segment, hmem, by simpa using hnull⟩
  simp only [Store.isFile, Store.find, Store.locate, hany, if_true]

/-- Looking for files in a store, from a directory on. -/
theorem Store.fileProbe {store : Store} {root : Path} (h : store.isDir root = true) :
    FileProbe fun path => store.isFile (root.join (Path.ofString path)) := by
  have hjoin : root.join (Path.ofString "") = root := by
    have hempty : Path.ofString "" = ⟨0, []⟩ := rfl
    simp [hempty, Path.join, Path.isAbsolute]
  constructor
  case root =>
    rw [hjoin]
    unfold Store.isDir at h
    unfold Store.isFile
    split at h
    · next hfound => rw [hfound]
    · cases h
  case parent =>
    intro names name hne hplain hfile
    -- a file has no null character in its path, so the segments are names of files
    have hsegments := Path.segments_ofString_intercalate (by simp) hplain
    have hnames : ∀ segment ∈ names ++ [name], IsFileName segment := by
      intro segment hmem
      obtain ⟨⟨hempty, hdot, hdots⟩, hslash⟩ := hplain segment hmem
      refine ⟨hempty, hdot, hdots, hslash, fun hnull => ?_⟩
      have hthere : segment ∈ (root.join (Path.ofString
          ("/".intercalate (names ++ [name])))).segments := by
        unfold Path.join
        split
        · rwa [hsegments]
        · rw [hsegments]
          exact List.mem_append_right _ hmem
      rw [Store.isFile_of_null hthere hnull] at hfile
      cases hfile
    -- so the file is found at its place, and its directory in front of it
    obtain ⟨place, hroot⟩ : ∃ place, store.locate root = .ok place := by
      unfold Store.isDir Store.find at h
      cases hlocate : store.locate root with
      | error problem => simp [hlocate] at h
      | ok place => exact ⟨place, rfl⟩
    obtain ⟨bytes, hbytes⟩ := (Store.isFile_under_iff hroot hnames).mp hfile
    rw [← List.append_assoc] at hbytes
    obtain ⟨entries, hdirectory⟩ := Tree.exists_dir_of_at?_append (List.cons_ne_nil _ _) hbytes
    rw [Bool.eq_false_iff]
    intro hother
    obtain ⟨other, hother⟩ := (Store.isFile_under_iff hroot fun segment hmem =>
      hnames segment (List.mem_append_left _ hmem)).mp hother
    rw [hdirectory] at hother
    cases hother

/-! ## The common directory -/

/-- Whether a directory is above another one or the same. The root is the empty text. -/
def IsAtOrAbove (directory other : String) : Prop :=
  directory = "" ∨ slashSegments directory <+: slashSegments other

theorem isAtOrAbove_intercalate {front back : List String} (h : front <+: back)
    (hback : ∀ name ∈ back, '/' ∉ name.toList) :
    IsAtOrAbove ("/".intercalate front) ("/".intercalate back) := by
  by_cases hfront : front = []
  · left
    rw [hfront]
    rfl
  · right
    have hne : back ≠ [] := by
      rintro rfl
      exact hfront (List.prefix_nil.mp h)
    rwa [slashSegments_intercalate hfront fun name hmem => hback name (h.subset hmem),
      slashSegments_intercalate hne hback]

/-- What is kept off files names no file. -/
theorem isFile_keptOff {isFile : String → Bool} (hprobe : FileProbe isFile) {shared : List String}
    (hne : shared ≠ []) (h : ∀ segment ∈ shared, IsPlainSegment segment ∧ '/' ∉ segment.toList) :
    isFile ("/".intercalate (keptOff isFile shared)) = false := by
  unfold keptOff
  split
  · next hfile =>
    obtain ⟨names, name, rfl⟩ := (List.eq_nil_or_concat' shared).resolve_left hne
    rw [List.dropLast_concat]
    by_cases hnames : names = []
    · rw [hnames]
      exact hprobe.root
    · exact hprobe.parent names name hnames h hfile
  · next hfile => simpa using hfile

/-- The common directory of some paths is the greatest common start of their segments, kept off
files.

* There is none exactly if there are no paths, or two of them differ in their first segment.
* If there is one, it is the text of the longest list of segments that all paths start with; where
  that text names a file, without the last segment.
* It depends on which paths there are, and not on their order or number.
* The common directory of more paths is at or above it, or there is none.
* In a project it is no file, if no path has an empty segment or dots for a segment. -/
theorem commonPath_greatest (isFile : String → Bool) (paths : List String) :
    (commonPath isFile paths = none ↔ paths = [] ∨ ∃ path ∈ paths, ∃ other ∈ paths,
        (slashSegments path).head? ≠ (slashSegments other).head?)
      ∧ (∀ directory, commonPath isFile paths = some directory → ∃ shared,
        IsLongestStart paths shared ∧ directory = "/".intercalate
          (if isFile ("/".intercalate shared) then shared.dropLast else shared))
      ∧ (∀ other, (∀ path, path ∈ other ↔ path ∈ paths) →
        commonPath isFile other = commonPath isFile paths)
      ∧ (∀ more directory, paths ≠ [] → paths ⊆ more →
        commonPath isFile more = some directory → ∃ before,
          commonPath isFile paths = some before ∧ IsAtOrAbove directory before)
      ∧ (FileProbe isFile →
        (∀ path ∈ paths, ∀ segment ∈ slashSegments path, IsPlainSegment segment) →
        ∀ directory, commonPath isFile paths = some directory → isFile directory = false) := by
  refine ⟨?_, ?_, ?_, ?_, ?_⟩
  · rw [commonPath_eq_keptOff, ← sharedSegments_eq_nil_iff]
    simp
  · intro directory h
    obtain ⟨hne, -, rfl⟩ := commonPath_eq_some isFile h
    exact ⟨_, isLongestStart_sharedSegments hne, rfl⟩
  · intro other h
    rw [commonPath_eq_keptOff, commonPath_eq_keptOff, sharedSegments_congr h]
  · intro more directory hne hsubset h
    obtain ⟨-, hmore, rfl⟩ := commonPath_eq_some isFile h
    have hless := sharedSegments_isPrefix_of_subset hne hsubset
    have hshared : sharedSegments paths ≠ [] := by
      intro hnil
      exact hmore (List.prefix_nil.mp (hnil ▸ hless))
    refine ⟨_, by rw [commonPath_eq_keptOff, if_neg hshared], ?_⟩
    refine isAtOrAbove_intercalate (keptOff_mono isFile hless) fun name hmem => ?_
    exact slash_not_mem_of_mem_sharedSegments ((keptOff_isPrefix isFile _).subset hmem)
  · intro hprobe hplain directory h
    obtain ⟨hne, hshared, rfl⟩ := commonPath_eq_some isFile h
    obtain ⟨path, hmem⟩ := List.exists_mem_of_ne_nil _ hne
    refine isFile_keptOff hprobe hshared fun segment hsegment => ?_
    exact ⟨hplain path hmem segment ((sharedSegments_isPrefix hmem).subset hsegment),
      slash_not_mem_of_mem_sharedSegments hsegment⟩

/-- A file tree with a file in a directory and another one in the directory above it. -/
def pagesStore : Store where
  tree := .dir [("pages", .dir [("one", .dir [("p.html", .file "".toUTF8)]),
    ("q.html", .file "".toUTF8)])]
  here := []

/-- Looking for files in that tree, from its top on. -/
def pagesProbe (path : String) : Bool :=
  pagesStore.isFile ((Path.fromRoot []).join (Path.ofString path))

/-- The path of the one file is a file's, so its directory is meant. What it shares with the other
one is not, and lies above. -/
theorem commonPath_greatest_pagesStore :
    FileProbe pagesProbe
      ∧ commonPath pagesProbe ["pages/one/p.html"] = some "pages/one"
      ∧ commonPath pagesProbe ["pages/q.html", "pages/one/p.html"] = some "pages"
      ∧ IsAtOrAbove "pages" "pages/one"
      ∧ pagesProbe "pages/one" = false := by
  have hprobe : FileProbe pagesProbe := Store.fileProbe (by decide)
  have hone : commonPath pagesProbe ["pages/one/p.html"] = some "pages/one" := by decide +kernel
  have htwo : commonPath pagesProbe ["pages/q.html", "pages/one/p.html"] = some "pages" := by
    decide +kernel
  have hplain : ∀ path ∈ ["pages/one/p.html"], ∀ segment ∈ slashSegments path,
      IsPlainSegment segment := by
    have hsegments : slashSegments "pages/one/p.html" = ["pages", "one", "p.html"] := by
      decide +kernel
    simp only [List.forall_mem_singleton, hsegments, List.forall_mem_cons]
    exact ⟨⟨by decide, by decide, by decide⟩, ⟨by decide, by decide, by decide⟩,
      ⟨by decide, by decide, by decide⟩⟩
  obtain ⟨-, -, -, hmore, hfile⟩ := commonPath_greatest pagesProbe ["pages/one/p.html"]
  obtain ⟨before, hbefore, habove⟩ := hmore ["pages/q.html", "pages/one/p.html"] "pages"
    (List.cons_ne_nil _ _) (by simp) htwo
  obtain rfl := Option.some.inj (hone.symm.trans hbefore)
  exact ⟨hprobe, hone, htwo, habove, hfile hprobe hplain _ hone⟩

end StyleAudit
