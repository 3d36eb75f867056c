import StyleAudit.Failure

/-!
# Sessions

A session is what a run of the program can change: the file store, the log and the standard output.
`Action` is a step of a run. A step that fails leaves the session as it was when the failure came;
nothing is taken back.
-/

namespace StyleAudit

/-- How grave a log message is. -/
inductive LogLevel where
  | info
  | error
deriving DecidableEq, Repr

/-- A log message. -/
structure LogEntry where
  level : LogLevel
  text : String
deriving DecidableEq, Repr

/-- What a run of the program can change. -/
structure Session where
  store : Store
  /-- The log messages in order. -/
  log : List LogEntry := []
  /-- The text on the standard output. -/
  output : List Char := []

/-- A step of a run. -/
abbrev Action (α : Type) := ExceptT Failure (StateM Session) α

namespace Action

/-- The store. -/
def store : Action Store := do return (← get).store

/-- Logs a message. -/
def log (level : LogLevel) (text : String) : Action Unit :=
  modify fun session => { session with log := session.log ++ [⟨level, text⟩] }

/-- Writes on the standard output. -/
def print (text : List Char) : Action Unit :=
  modify fun session => { session with output := session.output ++ text }

/-- Goes on with a value that was read, or fails. -/
def ofExcept {α : Type} : Except Failure α → Action α
  | .ok value => pure value
  | .error failure => throw failure

/-- Makes the directories of a path that are missing. -/
def ensureDirs (path : Path) : Action Unit := do
  let session ← get
  let (store, result) := session.store.ensureDirs path
  set { session with store }
  ofExcept (result.mapError .store)

/-- Writes bytes to a file. -/
def writeBytes (path : Path) (bytes : ByteArray) : Action Unit := do
  let session ← get
  let store ← ofExcept ((session.store.write path bytes).mapError .store)
  set { session with store }

end Action

/-! ## Text files -/

/-- Reads a text file in the encoding of a name, with its line ends joined. What is reported for
bytes that are no text is up to the caller. -/
def Store.readText (store : Store) (encoding : String) (path : Path)
    (undecodable : DecodeFlaw → Failure) : Except Failure (List Char) :=
  match store.read path with
  | .error error => .error (.store error)
  | .ok bytes =>
    match Encoding.ofName? encoding with
    | none => .error (.unknownEncoding encoding)
    | some encoding =>
      match encoding.decode bytes.data.toList with
      | .error flaw => .error (undecodable flaw)
      | .ok text => .ok (joinLineEnds text)

/-- Writes a text file in the encoding of a name. The file is emptied before the text is encoded, so
it is empty if that fails. -/
def Action.writeText (encoding : String) (path : Path) (text : List Char) : Action Unit := do
  Action.writeBytes path ByteArray.empty
  match Encoding.ofName? encoding with
  | none => throw (.unknownEncoding encoding)
  | some encoding =>
    match encoding.encode text with
    | .error flaw => throw (.unencodable flaw)
    | .ok bytes => Action.writeBytes path ⟨bytes.toArray⟩

end StyleAudit
