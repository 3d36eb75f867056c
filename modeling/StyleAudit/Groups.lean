/-!
# Groups in order of first appearance

Entries with a key are gathered under their keys. `collect` keeps both orders: the keys stand in
the order in which they first appear, and the values of each key in the order of the entries.
`ascending` sorts line numbers and keeps each once.
-/

namespace StyleAudit

/-- Adds a value to the group of a key; a new key starts a group at the end. -/
def addTo {κ α : Type} [DecidableEq κ] (key : κ) (value : α) :
    List (κ × List α) → List (κ × List α)
  | [] => [(key, [value])]
  | (key', values) :: groups =>
    if key' = key then (key', values ++ [value]) :: groups
    else (key', values) :: addTo key value groups

/-- Gathers the values of entries under their keys. -/
def collect {κ α : Type} [DecidableEq κ] (entries : List (κ × α)) : List (κ × List α) :=
  entries.foldl (fun groups entry => addTo entry.1 entry.2 groups) []

/-- The values gathered under a key. -/
def group {κ α : Type} [DecidableEq κ] (groups : List (κ × List α)) (key : κ) : List α :=
  (groups.lookup key).getD []

/-- Adds a number to an ascending list that holds each number once. -/
def insertAscending (n : Int) : List Int → List Int
  | [] => [n]
  | m :: rest =>
    if n < m then n :: m :: rest
    else if n = m then m :: rest
    else m :: insertAscending n rest

/-- The numbers of a list in ascending order, each once. -/
def ascending (numbers : List Int) : List Int :=
  numbers.foldr insertAscending []

end StyleAudit
