import StyleAudit.Manifest
import StyleAudit.Proofs.Json.Printed
import StyleAudit.Proofs.Session

/-!
# Setting up the manifest

The manifest is set up in one go. If it cannot be read, or has no place for the script, nothing is
written (`initManifest_eq_error`); otherwise it is there and can be written, and its new text has
bytes in every encoding (`run_initManifest`).
-/

namespace StyleAudit

namespace Manifest

theorem isPrinted_text (entries : List (WideText × Json WideText)) : IsPrinted (text entries) := by
  simp [text, Json.isPrinted_write]

variable {settings : Settings} {store : Store} {path : Path}
  {entries : List (WideText × Json WideText)}

/-- A manifest that is read is a JSON text, with an object in it, in a file. -/
theorem read_eq_ok_iff : read settings store path = .ok entries
    ↔ ∃ text, store.isFile path = true
      ∧ store.readText settings.fileEncoding path
        (fun flaw => .manifest path.toString (.undecodable settings.fileEncoding flaw)) = .ok text
      ∧ Json.read text = .ok (.obj entries) := by
  rw [read]
  cases store.isFile path with
  | false => exact iff_of_false (by rintro ⟨⟩) (by rintro ⟨-, ⟨⟩, -⟩)
  | true =>
    cases store.readText settings.fileEncoding path
        (fun flaw => .manifest path.toString (.undecodable settings.fileEncoding flaw)) with
    | error failure => exact iff_of_false (by rintro ⟨⟩) (by rintro ⟨-, -, ⟨⟩, -⟩)
    | ok text =>
      simp only [true_and, Except.ok.injEq, exists_eq_left', Bool.not_true, Bool.false_eq_true,
        if_false, bind, Except.bind]
      rcases (Json.read text : Except Json.ReadError (Json WideText)) with ⟨flaw, index⟩ | value
      · exact iff_of_false (by rintro ⟨⟩) (by rintro ⟨⟩)
      · exact iff_of_false (by rintro ⟨⟩) (by rintro ⟨⟩)
      · cases value with
        | obj found =>
          rw [Except.ok.injEq, Json.obj.injEq]
          exact ⟨fun h => Except.ok.inj h, fun h => h ▸ rfl⟩
        | _ => exact iff_of_false (by rintro ⟨⟩) (by rintro ⟨⟩)

/-- The entries with the script and the configuration, and whether the configuration is new; `none`
if the entries have no place for the script. -/
def withDefaults? (settings : Settings) (entries : List (WideText × Json WideText)) :
    Option (List (WideText × Json WideText) × Bool) :=
  (withScript? entries).map (withSection (configName settings))

end Manifest

variable {settings : Settings} {manifest : Path} {session session' : Session}
  {entries : List (WideText × Json WideText)} {failure : Failure} {added : Bool}

/-- What is said about a configuration that is added or kept. -/
def initMessage (settings : Settings) (manifest : Path) (added : Bool) : LogEntry :=
  ⟨.info, if added then "Dodano sekcję '" ++ settings.configKey ++ "' do " ++ manifest.toString
    else "Sekcja '" ++ settings.configKey ++ "' już istnieje w " ++ manifest.toString⟩

theorem run_initManifest_of_read_eq_error
    (h : Manifest.read settings session.store manifest = .error failure) :
    (initManifest settings manifest).run session = (.error failure, session) := by
  show (Action.ofExcept (Manifest.read settings session.store manifest) >>= _).run session = _
  rw [h, Action.run_bind, Action.run_ofExcept]

theorem run_initManifest_of_read_eq_ok
    (h : Manifest.read settings session.store manifest = .ok entries) :
    (initManifest settings manifest).run session
      = match Manifest.withDefaults? settings entries with
        | none => (.error (.manifest manifest.toString .scriptsNotAnObject), session)
        | some (entries, added) => (Action.writeText settings.fileEncoding manifest
            (Manifest.text entries) >>= fun _ => pure added).run
            { session with log := session.log ++ [initMessage settings manifest added] } := by
  show (Action.ofExcept (Manifest.read settings session.store manifest) >>= _).run session = _
  rw [h, Action.run_bind, Action.run_ofExcept]
  cases hscript : Manifest.withScript? entries with
  | none =>
    simp only [Manifest.withDefaults?, hscript, Option.map_none]
    rfl
  | some scripted =>
    simp only [Manifest.withDefaults?, hscript, Option.map_some]
    obtain ⟨new, added⟩ := Manifest.withSection (Manifest.configName settings) scripted
    cases added <;> rfl

/-- A manifest with a place for the script is written in whatever encoding it was read in. -/
theorem run_initManifest {encoding : Encoding} {new : List (WideText × Json WideText)}
    (hread : Manifest.read settings session.store manifest = .ok entries)
    (hname : Encoding.ofName? settings.fileEncoding = some encoding)
    (hnew : Manifest.withDefaults? settings entries = some (new, added)) :
    ∃ bytes written, encoding.encode (Manifest.text new) = .ok bytes
      ∧ encoding.decode bytes = .ok (Manifest.text new)
      ∧ session.store.write manifest ⟨bytes.toArray⟩ = .ok written
      ∧ (initManifest settings manifest).run session = (.ok added, {
          session with
          store := written
          log := session.log ++ [initMessage settings manifest added] }) := by
  obtain ⟨_, hfile, -⟩ := Manifest.read_eq_ok_iff.mp hread
  obtain ⟨bytes, hbytes, htext⟩ :=
    Encoding.exists_encode_eq_ok (Manifest.isPrinted_text new).isAscii encoding
  obtain ⟨written, hwritten, -⟩ := Store.exists_write_of_isFile hfile ⟨bytes.toArray⟩
  refine ⟨bytes, written, hbytes, htext, hwritten, ?_⟩
  rw [run_initManifest_of_read_eq_ok hread, hnew]
  simp only [Action.run_bind, Action.run_writeText hname, hbytes, Action.run_writeBytes, hwritten]
  rfl

/-- If the manifest is not set up, nothing has changed. -/
theorem initManifest_eq_error
    (h : (initManifest settings manifest).run session = (.error failure, session')) :
    session' = session ∧ (Manifest.read settings session.store manifest = .error failure
      ∨ failure = .manifest manifest.toString .scriptsNotAnObject) := by
  cases hread : Manifest.read settings session.store manifest with
  | error failure' =>
    rw [run_initManifest_of_read_eq_error hread] at h
    obtain ⟨hfailure, rfl⟩ := Prod.mk.inj h
    exact ⟨rfl, .inl (congrArg Except.error (Except.error.inj hfailure))⟩
  | ok entries =>
    obtain ⟨_, -, htext, -⟩ := Manifest.read_eq_ok_iff.mp hread
    obtain ⟨_, encoding, _, -, hname, -⟩ := Store.readText_eq_ok_iff.mp htext
    cases hnew : Manifest.withDefaults? settings entries with
    | none =>
      rw [run_initManifest_of_read_eq_ok hread, hnew] at h
      obtain ⟨hfailure, rfl⟩ := Prod.mk.inj h
      exact ⟨rfl, .inr (Except.error.inj hfailure).symm⟩
    | some new =>
      obtain ⟨_, _, -, -, -, hrun⟩ := run_initManifest hread hname hnew
      rw [hrun] at h
      cases h

end StyleAudit
