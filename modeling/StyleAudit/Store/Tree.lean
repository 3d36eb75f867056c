import StyleAudit.Entries

/-!
# File trees

A tree is a file with its bytes or a directory with named entries. A place in a tree is the list
of the names that lead to it from the top.

`Tree.at?` looks a place up and `Tree.put` fills it; `at?_put_self` says that what was put at a
place is found there.
-/

namespace StyleAudit

/-- A file or a directory. -/
inductive Tree where
  | file (bytes : ByteArray)
  | dir (entries : List (String × Tree))
deriving Inhabited

namespace Tree

/-- What is at a place. -/
def at? : Tree → List String → Option Tree
  | tree, [] => some tree
  | file _, _ :: _ => none
  | dir entries, name :: rest =>
    match entries.lookup name with
    | some tree => tree.at? rest
    | none => none

/-- The tree with `new` put at a place. The directory of the place must be there; if it is not, the
tree stays as it is. -/
def put : Tree → List String → Tree → Tree
  | _, [], new => new
  | file bytes, _ :: _, _ => file bytes
  | dir entries, name :: rest, new =>
    match entries.lookup name with
    | some tree => dir (setEntry name (tree.put rest new) entries)
    | none => if rest = [] then dir (setEntry name new entries) else dir entries

/-- Whether the tree is a directory. -/
def isDir : Tree → Bool
  | dir _ => true
  | file _ => false

/-- The top of a tree is the tree. -/
@[simp] theorem at?_nil (tree : Tree) : tree.at? [] = some tree := by
  cases tree <;> rfl

/-- Looking up a place goes through the places on the way. -/
theorem at?_append (tree : Tree) (place below : List String) :
    tree.at? (place ++ below) = (tree.at? place).bind (·.at? below) := by
  induction place generalizing tree with
  | nil => simp
  | cons name place ih =>
    cases tree with
    | file bytes => rfl
    | dir entries =>
      simp only [List.cons_append, at?]
      cases h : entries.lookup name with
      | none => rfl
      | some tree => exact ih tree

/-- What was put at a place is there, if the place was there before or its directory was. -/
theorem at?_put_self (tree new : Tree) (place : List String)
    (h : (tree.at? place).isSome ∨
      ∃ name above entries, place = above ++ [name] ∧ tree.at? above = some (.dir entries)) :
    (tree.put place new).at? place = some new := by
  induction place generalizing tree with
  | nil => simp [put]
  | cons name place ih =>
    cases tree with
    | file bytes =>
      rcases h with h | ⟨last, above, entries, hplace, habove⟩
      · simp [at?] at h
      · cases above with
        | nil => simp at habove
        | cons first above =>
          simp only [List.cons_append, List.cons.injEq] at hplace
          simp [at?] at habove
    | dir entries =>
      unfold put
      cases hl : entries.lookup name with
      | some tree =>
        simp only [at?, lookup_setEntry_self]
        apply ih
        rcases h with h | ⟨last, above, inner, hplace, habove⟩
        · left
          simpa [at?, hl] using h
        · cases above with
          | nil =>
            simp only [List.nil_append, List.cons.injEq] at hplace
            left
            simp [hplace.2]
          | cons first above =>
            simp only [List.cons_append, List.cons.injEq] at hplace
            obtain ⟨rfl, rfl⟩ := hplace
            right
            exact ⟨last, above, inner, rfl, by simpa [at?, hl] using habove⟩
      | none =>
        rcases h with h | ⟨last, above, inner, hplace, habove⟩
        · simp [at?, hl] at h
        · cases above with
          | nil =>
            simp only [List.nil_append, List.cons.injEq] at hplace
            simp [hplace.2, at?, lookup_setEntry_self]
          | cons first above =>
            simp only [List.cons_append, List.cons.injEq] at hplace
            obtain ⟨rfl, rfl⟩ := hplace
            simp [at?, hl] at habove

end Tree

end StyleAudit
