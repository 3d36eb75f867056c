import Mathlib.Data.List.Basic
import StyleAudit.Store.Basic

/-!
# What writing changes

What is put at a free place is there, and all other places are as before. So a file that is written
is the only file that changes (`Store.differAt_of_write`), and to write a file twice is to write it
once (`Store.write_of_write`). To make directories changes no file at all
(`Store.sameFiles_ensureDirs`).
-/

namespace StyleAudit

/-! ## Trees -/

namespace Tree

/-- The bytes of a file; a directory has none. -/
def bytes? : Tree → Option ByteArray
  | file bytes => some bytes
  | dir _ => none

@[simp] theorem bytes?_file (bytes : ByteArray) : (file bytes).bytes? = some bytes := rfl

@[simp] theorem bytes?_dir (entries : List (String × Tree)) : (dir entries).bytes? = none := rfl

/-- The bytes of the file at a place, if there is one. -/
def fileAt? (tree : Tree) (place : List String) : Option ByteArray :=
  ((tree.at? place).map bytes?).join

/-- Whether there is a directory at a place. -/
def IsDirAt (tree : Tree) (place : List String) : Prop :=
  ∃ entries, tree.at? place = some (dir entries)

/-- Whether there can be a file at a place: something is there, or the directory for it is. -/
def HasRoomAt (tree : Tree) (place : List String) : Prop :=
  (tree.at? place).isSome ∨
    ∃ name above entries, place = above ++ [name] ∧ tree.at? above = some (dir entries)

variable {tree new : Tree} {place other : List String}

theorem isDirAt_iff : tree.IsDirAt place ↔ (tree.at? place).map bytes? = some none := by
  rw [IsDirAt, Option.map_eq_some_iff]
  constructor
  · rintro ⟨entries, hfound⟩
    exact ⟨_, hfound, rfl⟩
  · rintro ⟨found, hfound, hbytes⟩
    cases found with
    | file bytes => cases hbytes
    | dir entries => exact ⟨entries, hfound⟩

theorem at?_file_cons (bytes : ByteArray) (name : String) (below : List String) :
    (file bytes).at? (name :: below) = none := rfl

theorem at?_dir_nil_cons (name : String) (below : List String) :
    (dir []).at? (name :: below) = none := rfl

/-- What is put below an entry changes nothing below the others. -/
theorem at?_put_of_ne_head {entries : List (String × Tree)} {first name : String}
    (hname : name ≠ first) (place below : List String) :
    ((dir entries).put (first :: place) new).at? (name :: below)
      = (dir entries).at? (name :: below) := by
  rw [put]
  split
  · simp [at?, lookup_setEntry_of_ne _ _ hname]
  · split
    · simp [at?, lookup_setEntry_of_ne _ _ hname]
    · rfl

/-- Whether there is a file, a directory or nothing at a place, is the same for all places but the
one that something is put at. What is put has nothing below it, and comes where there was nothing
below before. -/
theorem map_bytes?_at?_put (hfree : ¬ tree.IsDirAt place)
    (hleaf : ∀ name below, new.at? (name :: below) = none) (hne : other ≠ place) :
    ((tree.put place new).at? other).map bytes? = (tree.at? other).map bytes? := by
  induction place generalizing tree other with
  | nil =>
    cases other with
    | nil => exact absurd rfl hne
    | cons name below =>
      cases tree with
      | file bytes => rw [put, hleaf, at?]
      | dir entries => exact absurd ⟨entries, at?_nil _⟩ hfree
  | cons first place ih =>
    cases tree with
    | file bytes => rfl
    | dir entries =>
      cases other with
      | nil =>
        rw [put]
        split
        · simp
        · split <;> simp
      | cons name below =>
        by_cases hname : name = first
        · subst hname
          cases hlookup : entries.lookup name with
          | some found =>
            -- both places go on below the same entry, and differ there
            have hfree' : ¬ found.IsDirAt place := by
              rintro ⟨inner, hinner⟩
              exact hfree ⟨inner, by simpa [at?, hlookup] using hinner⟩
            simpa [put, at?, hlookup, lookup_setEntry_self]
              using ih hfree' fun heq => hne (heq ▸ rfl)
          | none =>
            by_cases hplace : place = []
            · -- the entry is new, and the other place is below it
              subst hplace
              obtain ⟨next, below, rfl⟩ : ∃ next rest, below = next :: rest :=
                List.exists_cons_of_ne_nil fun heq => hne (heq ▸ rfl)
              simp [put, at?, hlookup, lookup_setEntry_self, hleaf]
            · simp [put, hlookup, hplace]
        · rw [at?_put_of_ne_head hname]

theorem fileAt?_put_of_ne (hfree : ¬ tree.IsDirAt place)
    (hleaf : ∀ name below, new.at? (name :: below) = none) (hne : other ≠ place) :
    (tree.put place new).fileAt? other = tree.fileAt? other := by
  rw [fileAt?, map_bytes?_at?_put hfree hleaf hne, fileAt?]

/-- A directory stays one when something is put at another place. -/
theorem IsDirAt.put (h : tree.IsDirAt other) (hfree : ¬ tree.IsDirAt place)
    (hleaf : ∀ name below, new.at? (name :: below) = none) :
    (tree.put place new).IsDirAt other := by
  have hne : other ≠ place := fun heq => hfree (heq ▸ h)
  rw [isDirAt_iff, map_bytes?_at?_put hfree hleaf hne, ← isDirAt_iff]
  exact h

/-- What was put at a place is there, or the place has no directory and nothing has changed. -/
theorem at?_put_self_or (tree new : Tree) (place : List String) :
    (tree.put place new).at? place = some new
      ∨ (tree.put place new).at? place = tree.at? place := by
  induction place generalizing tree with
  | nil => exact .inl (at?_nil new)
  | cons name place ih =>
    cases tree with
    | file bytes => exact .inr rfl
    | dir entries =>
      cases hlookup : entries.lookup name with
      | some found => simpa [put, at?, hlookup, lookup_setEntry_self] using ih found
      | none =>
        by_cases hplace : place = []
        · simp [put, at?, hlookup, hplace, lookup_setEntry_self]
        · exact .inr (by simp [put, hlookup, hplace])

theorem put_put (tree first second : Tree) (place : List String) :
    (tree.put place first).put place second = tree.put place second := by
  induction place generalizing tree with
  | nil => simp [put]
  | cons name place ih =>
    cases tree with
    | file bytes => rfl
    | dir entries =>
      cases hlookup : entries.lookup name with
      | some found => simp [put, hlookup, lookup_setEntry_self, setEntry_setEntry, ih]
      | none =>
        by_cases hplace : place = []
        · simp [put, hlookup, hplace, lookup_setEntry_self, setEntry_setEntry]
        · simp [put, hlookup, hplace]

end Tree

/-! ## Paths in a changed tree -/

namespace Store

variable {store written middle : Store} {tree new : Tree} {place target : List String}
  {path : Path} {bytes : ByteArray}

/-- What is put where there was no directory closes no way. -/
theorem follow_put {start segments : List String} (hfree : ¬ tree.IsDirAt place)
    (hleaf : ∀ name below, new.at? (name :: below) = none)
    (h : follow tree start segments = .ok target) :
    follow (tree.put place new) start segments = .ok target := by
  induction segments generalizing start with
  | nil => exact h
  | cons segment segments ih =>
    rw [follow] at h
    split at h
    · cases h
    · cases h
    · next entries hstart =>
      obtain ⟨entries', hstart'⟩ := Tree.IsDirAt.put ⟨entries, hstart⟩ hfree hleaf
      rw [follow, hstart']
      exact ih h

theorem locate_put (hfree : ¬ store.tree.IsDirAt place)
    (hleaf : ∀ name below, new.at? (name :: below) = none) (h : store.locate path = .ok target) :
    (store.put place new).locate path = .ok target := by
  rw [locate] at h ⊢
  split at h
  · cases h
  · next hnull =>
    rw [if_neg hnull]
    exact follow_put hfree hleaf h

/-- A path leads to something, or into a directory. -/
theorem hasRoomAt_of_follow {start segments : List String}
    (h : follow tree start segments = .ok target) (hstart : tree.HasRoomAt start) :
    tree.HasRoomAt target := by
  induction segments generalizing start with
  | nil =>
    rw [follow, Except.ok.injEq] at h
    exact h ▸ hstart
  | cons segment segments ih =>
    rw [follow] at h
    split at h
    · cases h
    · cases h
    · next entries hdir =>
      refine ih h ?_
      split
      · rcases List.eq_nil_or_concat' start with rfl | ⟨above, name, rfl⟩
        · exact hstart
        · rw [Tree.at?_append] at hdir
          obtain ⟨found, hfound, -⟩ := Option.bind_eq_some_iff.mp hdir
          rw [List.dropLast_concat]
          exact .inl (Option.isSome_of_mem hfound)
      · exact .inr ⟨segment, start, entries, rfl, hdir⟩

theorem hasRoomAt_of_locate (hhere : store.tree.IsDirAt store.here)
    (h : store.locate path = .ok target) : store.tree.HasRoomAt target := by
  obtain ⟨entries, hentries⟩ := hhere
  rw [locate] at h
  split at h
  · cases h
  · apply hasRoomAt_of_follow h
    left
    split
    · simp
    · simp [hentries]

/-! ## Writing -/

theorem write_eq_ok_iff : store.write path bytes = .ok written
    ↔ ∃ place, store.locate path = .ok place ∧ ¬ store.tree.IsDirAt place
      ∧ written = store.put place (.file bytes) := by
  rw [write]
  cases hplace : store.locate path with
  | error problem => simp
  | ok place =>
    simp only [Except.ok.injEq, exists_eq_left', Tree.IsDirAt]
    split
    · next entries hdir => simp [hdir]
    · next hfree =>
      simp only [Except.ok.injEq]
      constructor
      · rintro rfl
        exact ⟨fun ⟨entries, hdir⟩ => hfree entries hdir, rfl⟩
      · rintro ⟨-, rfl⟩
        rfl

/-- Whether a file can be written does not depend on its bytes. -/
theorem write_eq_error {first : ByteArray} {error : StoreError}
    (h : store.write path first = .error error) (second : ByteArray) :
    store.write path second = .error error := by
  rw [write] at h ⊢
  cases hplace : store.locate path with
  | error problem => simpa [hplace] using h
  | ok place =>
    simp only [hplace] at h ⊢
    split at h
    · exact h
    · cases h

/-- To write a file twice is to write it once. -/
theorem write_of_write {first : ByteArray} (h : store.write path first = .ok middle)
    (second : ByteArray) : middle.write path second = store.write path second := by
  obtain ⟨place, hplace, hfree, rfl⟩ := write_eq_ok_iff.mp h
  have hstill : ¬ (store.put place (.file first)).tree.IsDirAt place := by
    rintro ⟨entries, hdir⟩
    rcases Tree.at?_put_self_or store.tree (.file first) place with hself | hself
    · rw [put, hself] at hdir
      cases hdir
    · exact hfree ⟨entries, hself ▸ hdir⟩
  have hagain : (store.put place (.file first)).write path second
      = .ok ((store.put place (.file first)).put place (.file second)) :=
    write_eq_ok_iff.mpr ⟨place, locate_put hfree (Tree.at?_file_cons first) hplace, hstill, rfl⟩
  rw [hagain, write_eq_ok_iff.mpr ⟨place, hplace, hfree, rfl⟩]
  simp only [put, Tree.put_put]

theorem isFile_iff : store.isFile path = true
    ↔ ∃ place bytes, store.locate path = .ok place ∧ store.tree.at? place = some (.file bytes) := by
  rw [isFile, find]
  cases store.locate path with
  | error problem => simp
  | ok place =>
    simp only [Except.ok.injEq, exists_and_left, exists_eq_left']
    cases store.tree.at? place with
    | none => simp
    | some found => cases found <;> simp

/-- A file that is there can be written, and then has the bytes it was written with. -/
theorem exists_write_of_isFile (h : store.isFile path = true) (bytes : ByteArray) :
    ∃ written, store.write path bytes = .ok written ∧ written.isFile path = true
      ∧ written.read path = .ok bytes := by
  obtain ⟨place, old, hplace, hold⟩ := isFile_iff.mp h
  have hfree : ¬ store.tree.IsDirAt place := by
    rintro ⟨entries, hdir⟩
    rw [hold] at hdir
    cases hdir
  have hthere : (store.put place (.file bytes)).tree.at? place = some (.file bytes) :=
    Tree.at?_put_self _ _ _ (.inl (Option.isSome_of_mem hold))
  have hlocate := locate_put hfree (Tree.at?_file_cons bytes) hplace
  refine ⟨_, write_eq_ok_iff.mpr ⟨place, hplace, hfree, rfl⟩, ?_, ?_⟩
  · exact isFile_iff.mpr ⟨place, bytes, hlocate, hthere⟩
  · rw [read, find, hlocate]
    simp only [hthere]

/-- The second store has the files of the first one, and its directories. -/
structure SameFiles (before after : Store) : Prop where
  here_eq : after.here = before.here
  fileAt?_eq : ∀ place, after.tree.fileAt? place = before.tree.fileAt? place
  isDirAt : ∀ place, before.tree.IsDirAt place → after.tree.IsDirAt place

theorem SameFiles.refl (store : Store) : SameFiles store store :=
  ⟨rfl, fun _ => rfl, fun _ => id⟩

theorem SameFiles.trans {first second third : Store} (h : SameFiles first second)
    (h' : SameFiles second third) : SameFiles first third where
  here_eq := h'.here_eq.trans h.here_eq
  fileAt?_eq place := (h'.fileAt?_eq place).trans (h.fileAt?_eq place)
  isDirAt place hdir := h'.isDirAt place (h.isDirAt place hdir)

/-- The stores differ in the file at a place, which has the given bytes after. -/
structure DifferAt (place : List String) (bytes : ByteArray) (before after : Store) : Prop where
  here_eq : after.here = before.here
  fileAt?_self : after.tree.fileAt? place = some bytes
  fileAt?_of_ne : ∀ other, other ≠ place → after.tree.fileAt? other = before.tree.fileAt? other
  isDirAt : ∀ other, before.tree.IsDirAt other → after.tree.IsDirAt other

theorem DifferAt.of_sameFiles {first second third : Store} (h : SameFiles first second)
    (h' : DifferAt place bytes second third) : DifferAt place bytes first third where
  here_eq := h'.here_eq.trans h.here_eq
  fileAt?_self := h'.fileAt?_self
  fileAt?_of_ne other hne := (h'.fileAt?_of_ne other hne).trans (h.fileAt?_eq other)
  isDirAt other hdir := h'.isDirAt other (h.isDirAt other hdir)

/-- A file that is written is the only one that changes. -/
theorem differAt_of_write (hhere : store.tree.IsDirAt store.here)
    (h : store.write path bytes = .ok written) :
    ∃ place, written.locate path = .ok place ∧ DifferAt place bytes store written := by
  obtain ⟨place, hplace, hfree, rfl⟩ := write_eq_ok_iff.mp h
  refine ⟨place, locate_put hfree (Tree.at?_file_cons bytes) hplace, rfl, ?_, ?_, ?_⟩
  · rw [Tree.fileAt?, put, Tree.at?_put_self _ _ _ (hasRoomAt_of_locate hhere hplace)]
    rfl
  · exact fun other hne => Tree.fileAt?_put_of_ne hfree (Tree.at?_file_cons bytes) hne
  · exact fun other hdir => hdir.put hfree (Tree.at?_file_cons bytes)

/-! ## Making directories -/

theorem sameFiles_makeDir {made : Store} (h : store.makeDir path = .ok made) :
    SameFiles store made := by
  rw [makeDir] at h
  split at h
  · cases h
  · next place hplace =>
    split at h
    · cases h
    · next hnone =>
      rw [Except.ok.injEq] at h
      subst h
      have hfree : ¬ store.tree.IsDirAt place := by
        rintro ⟨entries, hdir⟩
        rw [hnone] at hdir
        cases hdir
      refine ⟨rfl, fun other => ?_, fun other hdir => hdir.put hfree Tree.at?_dir_nil_cons⟩
      by_cases hother : other = place
      · subst hother
        rw [Tree.fileAt?, Tree.fileAt?, hnone, put]
        rcases Tree.at?_put_self_or store.tree (.dir []) other with hself | hself
        · rw [hself]
          rfl
        · rw [hself, hnone]
      · exact Tree.fileAt?_put_of_ne hfree Tree.at?_dir_nil_cons hother

/-- What holds between a store and itself, from one store to the next, and where one directory is
made, holds where several are made, also if that fails on the way. -/
theorem rel_ensureDirs {R : Store → Store → Prop} (hrefl : ∀ store, R store store)
    (htrans : ∀ {first second third}, R first second → R second third → R first third)
    (hmake : ∀ {store made path}, makeDir store path = .ok made → R store made)
    (store : Store) (path : Path) : R store (store.ensureDirs path).1 := by
  have hensure {store made : Store} {path : Path} (h : store.ensureDir path = .ok made) :
      R store made := by
    rw [ensureDir] at h
    split at h
    · next made hmade =>
      rw [Except.ok.injEq] at h
      exact h ▸ hmake hmade
    · split at h
      · rw [Except.ok.injEq] at h
        exact h ▸ hrefl store
      · cases h
  fun_induction ensureDirs store path with
  | case1 path made hmade => exact hensure hmade
  | case2 path hmissing hsegments => exact hrefl store
  | case3 path hmissing hsegments above error habove ih => simpa [habove] using ih
  | case4 path hmissing hsegments above habove made hmade ih =>
    have habove' : R store above := by simpa [habove] using ih
    exact htrans habove' (hensure hmade)
  | case5 path hmissing hsegments above habove problem hproblem ih => simpa [habove] using ih
  | case6 path problem hother hproblem => exact hrefl store

/-- Directories are made without a change to any file, also if that fails on the way. -/
theorem sameFiles_ensureDirs (store : Store) (path : Path) :
    SameFiles store (store.ensureDirs path).1 :=
  rel_ensureDirs SameFiles.refl SameFiles.trans sameFiles_makeDir store path

theorem isDir_iff : store.isDir path = true
    ↔ ∃ place, store.locate path = .ok place ∧ store.tree.IsDirAt place := by
  rw [isDir, find]
  cases store.locate path with
  | error problem => simp
  | ok place =>
    simp only [Except.ok.injEq, exists_eq_left', Tree.IsDirAt]
    cases store.tree.at? place with
    | none => simp
    | some found => cases found <;> simp

theorem isDir_of_makeDir {made : Store} (hhere : store.tree.IsDirAt store.here)
    (h : store.makeDir path = .ok made) : made.isDir path = true := by
  rw [makeDir] at h
  split at h
  · cases h
  · next place hplace =>
    split at h
    · cases h
    · next hnone =>
      rw [Except.ok.injEq] at h
      subst h
      have hfree : ¬ store.tree.IsDirAt place := by
        rintro ⟨entries, hdir⟩
        rw [hnone] at hdir
        cases hdir
      have hthere : (store.put place (.dir [])).tree.at? place = some (.dir []) :=
        Tree.at?_put_self _ _ _ (hasRoomAt_of_locate hhere hplace)
      exact isDir_iff.mpr ⟨place, locate_put hfree Tree.at?_dir_nil_cons hplace, [], hthere⟩

theorem isDir_of_ensureDir {made : Store} (hhere : store.tree.IsDirAt store.here)
    (h : store.ensureDir path = .ok made) : made.isDir path = true := by
  rw [ensureDir] at h
  split at h
  · next made hmade =>
    rw [Except.ok.injEq] at h
    exact h ▸ isDir_of_makeDir hhere hmade
  · split at h
    · next hdir =>
      rw [Except.ok.injEq] at h
      exact h ▸ hdir
    · cases h

/-- A directory is there after it has been made. -/
theorem isDir_of_ensureDirs (hhere : store.tree.IsDirAt store.here)
    (h : (store.ensureDirs path).2 = .ok ()) : (store.ensureDirs path).1.isDir path = true := by
  have hmade := sameFiles_ensureDirs store path.parent
  revert h
  fun_cases ensureDirs store path with
  | case1 made hensured => exact fun _ => isDir_of_ensureDir hhere hensured
  | case4 hmissing hsegments above habove made hensured =>
    intro _
    rw [habove] at hmade
    have hhere' := hmade.isDirAt _ hhere
    rw [← hmade.here_eq] at hhere'
    exact isDir_of_ensureDir hhere' hensured
  | case2 | case3 | case5 | case6 => rintro ⟨⟩

/-- A directory that is there is not made again. -/
theorem ensureDirs_of_isDir (h : store.isDir path = true) :
    store.ensureDirs path = (store, .ok ()) := by
  obtain ⟨place, hplace, entries, hdir⟩ := isDir_iff.mp h
  have hmake : store.makeDir path = .error .alreadyExists := by
    rw [makeDir, hplace]
    simp only [hdir]
  have hensure : store.ensureDir path = .ok store := by
    rw [ensureDir, hmake]
    simp only [if_pos h]
  rw [ensureDirs, hensure]

/-- A directory is still there after a file has been written. -/
theorem isDir_of_write {other : Path} (h : store.isDir path = true)
    (hwrite : store.write other bytes = .ok written) : written.isDir path = true := by
  obtain ⟨place, -, hfree, rfl⟩ := write_eq_ok_iff.mp hwrite
  obtain ⟨target, htarget, hdir⟩ := isDir_iff.mp h
  exact isDir_iff.mpr ⟨target, locate_put hfree (Tree.at?_file_cons bytes) htarget,
    hdir.put hfree (Tree.at?_file_cons bytes)⟩

end Store

end StyleAudit
