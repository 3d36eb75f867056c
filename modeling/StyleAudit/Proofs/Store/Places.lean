import StyleAudit.Proofs.Store.Scan

/-!
# Where project paths lead

In a file tree whose names are file names, a project path leads from the root of the project to the
place that its segments name (`Store.find_under_eq_ok_iff`). A scan finds files, and the segments of
what it finds are the way to them (`exists_place_of_mem_scan`).
-/

namespace StyleAudit

/-! ## Names in a tree -/

/-- Whether a tree can be that of a file system, and has names only that files and directories can
have: they differ within a directory, and each of them is a file name. -/
def Tree.IsFileTree (tree : Tree) : Prop :=
  tree.HasNames fun names => names.Nodup ∧ ∀ name ∈ names, IsFileName name

namespace Tree.IsFileTree

variable {tree found : Tree} {place : List String}

theorem wellFormed (h : tree.IsFileTree) : tree.WellFormed :=
  HasNames.imp (fun _ hnames => ⟨hnames.1, fun name hmem => (hnames.2 name hmem).no_slash⟩) tree h

/-- The way to a place that is there consists of file names. -/
theorem of_at? (h : tree.IsFileTree) (hfound : tree.at? place = some found) :
    found.IsFileTree ∧ ∀ name ∈ place, IsFileName name := by
  obtain ⟨hthere, hplace⟩ := HasNames.of_at? h hfound
  refine ⟨hthere, fun name hmem => ?_⟩
  obtain ⟨names, hnames, hname⟩ := hplace name hmem
  exact hnames.2 name hname

end Tree.IsFileTree

/-! ## Files and directories -/

namespace Tree

theorem exists_dir_of_at?_append {tree found : Tree} {place below : List String} (hne : below ≠ [])
    (h : tree.at? (place ++ below) = some found) :
    ∃ entries, tree.at? place = some (.dir entries) := by
  obtain ⟨name, rest, rfl⟩ := List.exists_cons_of_ne_nil hne
  rw [at?_append] at h
  cases hplace : tree.at? place with
  | none => simp [hplace] at h
  | some here =>
    cases here with
    | file bytes => simp [hplace, at?] at h
    | dir entries => exact ⟨entries, rfl⟩

/-- Nothing lies below a file. -/
theorem eq_nil_of_at?_append {tree found : Tree} {place below : List String} {bytes : ByteArray}
    (hfile : tree.at? place = some (.file bytes)) (h : tree.at? (place ++ below) = some found) :
    below = [] := by
  by_contra hne
  obtain ⟨entries, hdir⟩ := exists_dir_of_at?_append hne h
  rw [hfile] at hdir
  cases hdir

end Tree

/-! ## Following file names -/

theorem Store.follow_append (tree : Tree) (place front rest : List String) :
    Store.follow tree place (front ++ rest)
      = (Store.follow tree place front).bind fun between => Store.follow tree between rest := by
  induction front generalizing place with
  | nil => simp [Store.follow, Except.bind]
  | cons name front ih =>
    rw [List.cons_append, Store.follow, Store.follow]
    split
    · rfl
    · rfl
    · exact ih _

/-- File names lead where they say, if something is there. -/
theorem Store.follow_of_at? {tree found : Tree} {names : List String} (place : List String)
    (hnames : ∀ name ∈ names, IsFileName name) (hfound : tree.at? (place ++ names) = some found) :
    Store.follow tree place names = .ok (place ++ names) := by
  induction names generalizing place with
  | nil => simp [Store.follow]
  | cons name names ih =>
    obtain ⟨hname, hnames⟩ := List.forall_mem_cons.mp hnames
    have hstep := hfound
    rw [Tree.at?_append] at hstep
    cases hhere : tree.at? place with
    | none => simp [hhere] at hstep
    | some here =>
      cases here with
      | file bytes => simp [hhere, Tree.at?] at hstep
      | dir entries =>
        rw [List.append_cons] at hfound
        have hrest := ih (place ++ [name]) hnames hfound
        simpa only [Store.follow, hhere, if_neg hname.ne_dots, List.append_assoc,
          List.singleton_append] using hrest

/-- A path leads where its text says, if it leads anywhere. -/
theorem Store.eq_resolve_of_locate {store : Store} {path : Path} {place : List String}
    (h : store.locate path = .ok place) : place = path.resolve store.here := by
  have hfollow {segments start : List String}
      (h : Store.follow store.tree start segments = .ok place) :
      place = segments.foldl Path.resolveStep start := by
    induction segments generalizing start with
    | nil =>
      rw [Store.follow, Except.ok.injEq] at h
      exact h.symm
    | cons segment segments ih =>
      rw [Store.follow] at h
      split at h
      · cases h
      · cases h
      · exact ih h
  rw [Store.locate] at h
  split at h
  · cases h
  · exact hfollow h

theorem Store.eq_of_follow_eq_ok {tree : Tree} {names place found : List String}
    (hnames : ∀ name ∈ names, IsFileName name)
    (h : Store.follow tree place names = .ok found) : found = place ++ names := by
  induction names generalizing place with
  | nil =>
    rw [Store.follow] at h
    simpa using (Except.ok.inj h).symm
  | cons name names ih =>
    obtain ⟨hname, hnames⟩ := List.forall_mem_cons.mp hnames
    rw [Store.follow] at h
    split at h
    · cases h
    · cases h
    · rw [if_neg hname.ne_dots] at h
      rw [ih hnames h, List.append_assoc, List.singleton_append]

/-! ## Project paths -/

/-- A path of file names is read as these names. -/
theorem Path.ofString_intercalate {names : List String} (h : ∀ name ∈ names, IsFileName name) :
    Path.ofString ("/".intercalate names) = ⟨0, names⟩ := by
  by_cases hne : names = []
  · subst hne
    rfl
  · have hsegments := slashSegments_intercalate hne fun name hname => (h name hname).no_slash
    have hkept : names.filter (fun segment => segment != "" && segment != ".") = names := by
      refine List.filter_eq_self.mpr fun name hname => ?_
      simp [(h name hname).ne_empty, (h name hname).ne_dot]
    have hfront : ("/".intercalate names).toList.takeWhile (· == '/') = [] := by
      have hhead := head?_intercalate hne h
      cases htext : ("/".intercalate names).toList with
      | nil => rfl
      | cons c rest =>
        rw [htext] at hhead
        exact List.takeWhile_cons_of_neg (by simpa using hhead)
    simp only [Path.ofString, hsegments, hkept, hfront]
    rfl

section Under

variable {store : Store} {root : Path} {place names : List String}

/-- What a project path leads to is looked for from the root on. -/
theorem Store.locate_under (hroot : store.locate root = .ok place)
    (hnames : ∀ name ∈ names, IsFileName name) :
    store.locate (root.join (Path.ofString ("/".intercalate names)))
      = Store.follow store.tree place names := by
  rw [Store.locate] at hroot
  split at hroot
  · cases hroot
  · next hroot' =>
    have hnull : names.any (fun segment => segment.toList.contains (Char.ofNat 0)) = false := by
      refine List.any_eq_false.mpr fun name hname => ?_
      simpa using (hnames name hname).no_null
    have hjoin : root.join (Path.ofString ("/".intercalate names))
        = { root with segments := root.segments ++ names } := by
      rw [Path.ofString_intercalate hnames]
      rfl
    rw [hjoin, Store.locate, List.any_append, hnull, Bool.or_false, if_neg hroot',
      Store.follow_append]
    rw [Path.isAbsolute] at hroot ⊢
    rw [hroot]
    rfl

/-- A project path leads to the place below the root that its segments name. -/
theorem Store.find_under_eq_ok_iff (hroot : store.locate root = .ok place)
    (hnames : ∀ name ∈ names, IsFileName name) {found : Tree} :
    store.find (root.join (Path.ofString ("/".intercalate names))) = .ok found
      ↔ store.tree.at? (place ++ names) = some found := by
  rw [Store.find, Store.locate_under hroot hnames]
  constructor
  · intro h
    split at h
    · cases h
    · next hfollow =>
      obtain rfl := Store.eq_of_follow_eq_ok hnames hfollow
      split at h
      · next hthere =>
        obtain rfl := Except.ok.inj h
        exact hthere
      · cases h
  · intro h
    simp only [Store.follow_of_at? place hnames h, h]

theorem Store.isFile_under_iff (hroot : store.locate root = .ok place)
    (hnames : ∀ name ∈ names, IsFileName name) :
    store.isFile (root.join (Path.ofString ("/".intercalate names))) = true
      ↔ ∃ bytes, store.tree.at? (place ++ names) = some (.file bytes) := by
  simp only [← Store.find_under_eq_ok_iff hroot hnames, Store.isFile]
  split <;> simp_all

theorem Store.isDir_under_iff (hroot : store.locate root = .ok place)
    (hnames : ∀ name ∈ names, IsFileName name) :
    store.isDir (root.join (Path.ofString ("/".intercalate names))) = true
      ↔ ∃ entries, store.tree.at? (place ++ names) = some (.dir entries) := by
  simp only [← Store.find_under_eq_ok_iff hroot hnames, Store.isDir]
  split <;> simp_all

end Under

/-! ## What a scan finds -/

/-- Whether a scan is to find a file at a place: the file has a wanted suffix, and no directory on
the way to it is ignored. -/
def ScanRule.Finds (rule : ScanRule) (place : List String) : Prop :=
  ∃ above last, place = above ++ [last]
    ∧ (∃ suffix ∈ rule.suffixes, lower suffix = lower (nameSuffix last))
    ∧ ∀ name ∈ above, name ∉ rule.ignored

section Scan

variable (rule : ScanRule)

theorem ScanRule.wants_iff {name : String} :
    rule.wants name = true ↔ ∃ suffix ∈ rule.suffixes, lower suffix = lower (nameSuffix name) := by
  rw [ScanRule.wants, List.contains_iff_mem, List.mem_map]

theorem ScanRule.finds_singleton_iff {name : String} :
    rule.Finds [name] ↔ rule.wants name = true := by
  rw [rule.wants_iff]
  constructor
  · rintro ⟨above, last, hplace, hsuffix, -⟩
    have hlast := (List.append_inj' (show [] ++ [name] = above ++ [last] from hplace) rfl).2
    rwa [List.singleton_inj.mp hlast]
  · intro hsuffix
    exact ⟨[], name, rfl, hsuffix, by simp⟩

theorem ScanRule.finds_cons_iff {name : String} {place : List String} (hne : place ≠ []) :
    rule.Finds (name :: place) ↔ name ∉ rule.ignored ∧ rule.Finds place := by
  constructor
  · rintro ⟨above, last, hplace, hsuffix, habove⟩
    cases above with
    | nil => exact absurd (List.cons.inj hplace).2 hne
    | cons first above =>
      obtain ⟨rfl, rfl⟩ := List.cons.inj hplace
      obtain ⟨hfirst, habove⟩ := List.forall_mem_cons.mp habove
      exact ⟨hfirst, above, last, rfl, hsuffix, habove⟩
  · rintro ⟨hname, above, last, rfl, hsuffix, habove⟩
    exact ⟨name :: above, last, rfl, hsuffix, List.forall_mem_cons.mpr ⟨hname, habove⟩⟩

mutual

/-- What is found in an entry are the files below it, or the entry, that the rule is about. -/
theorem mem_scanEntry_iff {name : String} {place : List String} :
    (tree : Tree) → tree.WellFormed → (place ∈ scanEntry rule name tree ↔
      ∃ inner bytes, place = name :: inner ∧ tree.at? inner = some (.file bytes)
        ∧ rule.Finds place)
  | .file bytes, _ => by
    have htop : place ∈ scanEntry rule name (.file bytes)
        ↔ place = [name] ∧ rule.wants name = true := by
      rw [scanEntry]
      split <;> simp_all
    rw [htop]
    constructor
    · rintro ⟨rfl, hwanted⟩
      exact ⟨[], bytes, rfl, rfl, rule.finds_singleton_iff.mpr hwanted⟩
    · rintro ⟨inner, bytes', rfl, hfile, hfinds⟩
      cases inner with
      | nil => exact ⟨rfl, rule.finds_singleton_iff.mp hfinds⟩
      | cons first inner => cases hfile
  | .dir entries, h => by
    rw [Tree.wellFormed_dir_iff] at h
    have hentries (inner : List String) := mem_scanEntries_iff inner entries h.1 h.2
    -- there is a directory at the top, so a file lies further down
    have hne {inner : List String} {bytes : ByteArray}
        (hfile : (Tree.dir entries).at? inner = some (.file bytes)) : inner ≠ [] := by
      rintro rfl
      simp at hfile
    rw [scanEntry]
    split
    · next hignored =>
      have hname : name ∈ rule.ignored := by simpa using hignored
      constructor
      · simp
      · rintro ⟨inner, bytes, rfl, hfile, hfinds⟩
        exact absurd hname ((rule.finds_cons_iff (hne hfile)).mp hfinds).1
    · next hentered =>
      have hname : name ∉ rule.ignored := by simpa using hentered
      rw [List.mem_map]
      constructor
      · rintro ⟨inner, hinner, rfl⟩
        obtain ⟨bytes, hfile, hfinds⟩ := (hentries inner).mp
          ((inNameOrder_perm _).mem_iff.mp hinner)
        exact ⟨inner, bytes, rfl, hfile, (rule.finds_cons_iff (hne hfile)).mpr ⟨hname, hfinds⟩⟩
      · rintro ⟨inner, bytes, rfl, hfile, hfinds⟩
        have hbelow := ((rule.finds_cons_iff (hne hfile)).mp hfinds).2
        exact ⟨inner, (inNameOrder_perm _).mem_iff.mpr ((hentries inner).mpr
          ⟨bytes, hfile, hbelow⟩), rfl⟩

/-- What is found in the entries of a directory are the files at the places of the directory that
the rule is about. -/
theorem mem_scanEntries_iff (place : List String) :
    (entries : List (String × Tree)) → (entries.map (·.1)).Nodup →
      (∀ entry ∈ entries, '/' ∉ entry.1.toList ∧ entry.2.WellFormed) →
      (place ∈ (scanEntries rule entries).flatMap (·.2) ↔
        ∃ bytes, (Tree.dir entries).at? place = some (.file bytes) ∧ rule.Finds place)
  | [], _, _ => by
    cases place <;> simp [scanEntries, Tree.at?]
  | (name, tree) :: entries, hnames, h => by
    obtain ⟨⟨-, htree⟩, h⟩ := List.forall_mem_cons.mp h
    obtain ⟨hnew, hnames⟩ := List.nodup_cons.mp hnames
    rw [scanEntries, List.flatMap_cons, List.mem_append, mem_scanEntry_iff tree htree,
      mem_scanEntries_iff place entries hnames h]
    constructor
    · rintro (⟨inner, bytes, rfl, hfile, hfinds⟩ | ⟨bytes, hfile, hfinds⟩)
      · exact ⟨bytes, by simpa [Tree.at?] using hfile, hfinds⟩
      · cases place with
        | nil => simp at hfile
        | cons other inner =>
          -- the entry is one of the others, and these have other names
          have hne : other ≠ name := by
            rintro rfl
            rw [Tree.at?] at hfile
            split at hfile
            · next hlookup =>
              exact hnew (List.mem_map.mpr ⟨_, mem_of_lookup_eq_some hlookup, rfl⟩)
            · cases hfile
          exact ⟨bytes, by simpa [Tree.at?, List.lookup_cons, beq_false_of_ne hne] using hfile,
            hfinds⟩
    · rintro ⟨bytes, hfile, hfinds⟩
      cases place with
      | nil => simp at hfile
      | cons other inner =>
        by_cases hother : other = name
        · subst hother
          exact .inl ⟨inner, bytes, rfl, by simpa [Tree.at?] using hfile, hfinds⟩
        · exact .inr ⟨bytes, by
            simpa [Tree.at?, List.lookup_cons, beq_false_of_ne hother] using hfile, hfinds⟩

end

/-- What a scan finds are the paths of wanted files below the directory where it starts. -/
theorem exists_wanted_of_mem_scan {store : Store} {directory : Path} {place : List String}
    {paths : List String} {path : String} (htree : store.tree.IsFileTree)
    (hplace : store.locate directory = .ok place)
    (hscan : store.scan rule directory = .ok paths) (hmem : path ∈ paths) :
    ∃ above last bytes, (∀ name ∈ above ++ [last], IsFileName name)
      ∧ rule.wants last = true ∧ path = "/".intercalate (above ++ [last])
      ∧ store.tree.at? (place ++ (above ++ [last])) = some (.file bytes) := by
  obtain ⟨place', entries, hplace', hentries, rfl⟩ := scan_eq_ok rule hscan
  obtain rfl := Except.ok.inj (hplace.symm.trans hplace')
  obtain ⟨names, hfound, rfl⟩ := List.mem_map.mp hmem
  have hdirectory := (htree.of_at? hentries).1
  obtain ⟨hnames, hbelow⟩ := Tree.wellFormed_dir_iff.mp hdirectory.wellFormed
  obtain ⟨bytes, hfile, above, last, rfl, hsuffix, -⟩ :=
    (mem_scanEntries_iff rule names entries hnames hbelow).mp
      ((inNameOrder_perm _).mem_iff.mp hfound)
  refine ⟨above, last, bytes, (hdirectory.of_at? hfile).2,
    rule.wants_iff.mpr hsuffix, rfl, ?_⟩
  rw [Tree.at?_append, hentries]
  exact hfile

theorem exists_place_of_mem_scan {store : Store} {directory : Path} {place : List String}
    {paths : List String} {path : String} (htree : store.tree.IsFileTree)
    (hplace : store.locate directory = .ok place)
    (hscan : store.scan rule directory = .ok paths) (hmem : path ∈ paths) :
    ∃ names bytes, names ≠ [] ∧ (∀ name ∈ names, IsFileName name)
      ∧ path = "/".intercalate names
      ∧ store.tree.at? (place ++ names) = some (.file bytes) := by
  obtain ⟨above, last, bytes, hfileNames, -, hpath, hfile⟩ :=
    exists_wanted_of_mem_scan rule htree hplace hscan hmem
  exact ⟨above ++ [last], bytes, by simp, hfileNames, hpath, hfile⟩

end Scan

end StyleAudit
