import StyleAudit.Proofs.Store.Writing
import StyleAudit.Proofs.Text.Encoding
import StyleAudit.Session

/-!
# What a step of a run does

The steps are taken one after the other, and the first that fails ends the run (`Action.run_bind`).
A step that only reads leaves the store alone (`Action.Reads`). A step that writes a text fails if
the encoding has no bytes for it, and then the file is empty afterwards (`Action.run_writeText`).
-/

namespace StyleAudit

/-! ## One step after the other -/

namespace Action

variable {α β : Type} {session session' : Session}

/-- A step and the step after it, one by one. -/
theorem run_bind (action : Action α) (next : α → Action β) (session : Session) :
    (action >>= next).run session
      = match action.run session with
        | (.ok value, between) => (next value).run between
        | (.error failure, between) => (.error failure, between) := by
  show (match action.run session with
    | (outcome, between) => (ExceptT.bindCont next outcome).run between) = _
  rcases action.run session with ⟨outcome, between⟩
  cases outcome <;> rfl

theorem run_bind_eq_ok {action : Action α} {next : α → Action β} {result : β}
    (h : (action >>= next).run session = (.ok result, session')) :
    ∃ value between, action.run session = (.ok value, between)
      ∧ (next value).run between = (.ok result, session') := by
  rw [run_bind] at h
  split at h
  · next value between hrun => exact ⟨value, between, hrun, h⟩
  · cases h

theorem run_ofExcept (outcome : Except Failure α) (session : Session) :
    (ofExcept outcome).run session = (outcome, session) := by
  cases outcome <;> rfl

theorem run_ofExcept_eq_ok {outcome : Except Failure α} {value : α}
    (h : (ofExcept outcome).run session = (.ok value, session')) :
    outcome = .ok value ∧ session = session' := by
  cases outcome with
  | ok value' =>
    obtain ⟨hvalue, hsession⟩ := Prod.mk.inj h
    exact ⟨hvalue, hsession⟩
  | error failure => cases h

theorem run_store_eq_ok {found : Store} (h : store.run session = (.ok found, session')) :
    found = session.store ∧ session = session' := by
  obtain ⟨hfound, hsession⟩ := Prod.mk.inj h
  exact ⟨(Except.ok.inj hfound).symm, hsession⟩

theorem run_store (session : Session) : store.run session = (.ok session.store, session) := rfl

theorem run_pure (value : α) (session : Session) :
    (pure value : Action α).run session = (.ok value, session) := rfl

theorem run_log (level : LogLevel) (text : String) (session : Session) :
    (log level text).run session
      = (.ok (), { session with log := session.log ++ [⟨level, text⟩] }) := rfl

/-- A message goes to the log and nowhere else. -/
theorem run_log_store {level : LogLevel} {text : String} {outcome : Except Failure Unit}
    (h : (log level text).run session = (outcome, session')) : session'.store = session.store := by
  obtain ⟨-, rfl⟩ := Prod.mk.inj h
  rfl

end Action

/-! ## Steps that read -/

/-- Whether a failure can come from reading files, in an encoding that there is. -/
def Failure.isOfReading : Failure → Bool
  | manifest .. | config _ | malformed _ | unreadable .. | store _ | tooManyDigits _ => true
  | unknownEncoding _ | unencodable _ | unknownFormat _ => false

/-- Whether reading fails as reading does, if it fails. -/
def FailsReading {α : Type} (outcome : Except Failure α) : Prop :=
  ∀ failure, outcome = .error failure → failure.isOfReading = true

namespace FailsReading

variable {α β : Type}

theorem ok (value : α) : FailsReading (.ok value) := by
  rintro failure ⟨⟩

theorem error {failure : Failure} (h : failure.isOfReading = true) :
    FailsReading (.error failure : Except Failure α) := by
  rintro failure' ⟨⟩
  exact h

theorem bind {outcome : Except Failure α} {next : α → Except Failure β} (h : FailsReading outcome)
    (h' : ∀ value, FailsReading (next value)) : FailsReading (outcome >>= next) := by
  cases outcome with
  | error failure => exact error (h failure rfl)
  | ok value => exact h' value

theorem mapError {ε : Type} {outcome : Except ε α} {failed : ε → Failure}
    (h : ∀ error, (failed error).isOfReading = true) :
    FailsReading (outcome.mapError failed) := by
  cases outcome with
  | error failure => exact error (h failure)
  | ok value => exact ok value

theorem mapM {f : α → Except Failure β} {values : List α}
    (h : ∀ value ∈ values, FailsReading (f value)) : FailsReading (values.mapM f) := by
  induction values with
  | nil => exact ok []
  | cons value values ih =>
    rw [List.mapM_cons]
    refine (h value List.mem_cons_self).bind fun result => ?_
    exact (ih fun value hvalue => h value (List.mem_cons_of_mem _ hvalue)).bind fun _ => ok _

end FailsReading

namespace Action

variable {α β : Type}

/-- Whether a step leaves the store alone, and fails as reading does if it fails. -/
def Reads (action : Action α) : Prop :=
  ∀ session, (action.run session).2.store = session.store ∧ FailsReading (action.run session).1

namespace Reads

theorem pure (value : α) : Reads (Pure.pure value : Action α) :=
  fun _ => ⟨rfl, .ok _⟩

theorem log (level : LogLevel) (text : String) : Reads (Action.log level text) :=
  fun _ => ⟨rfl, .ok _⟩

theorem store : Reads Action.store :=
  fun _ => ⟨rfl, .ok _⟩

theorem ofExcept {outcome : Except Failure α} (h : FailsReading outcome) :
    Reads (Action.ofExcept outcome) := by
  intro session
  rw [run_ofExcept]
  exact ⟨rfl, h⟩

theorem bind {action : Action α} {next : α → Action β} (h : Reads action)
    (h' : ∀ value, Reads (next value)) : Reads (action >>= next) := by
  intro session
  have hfirst := h session
  rw [run_bind]
  split
  · next value between hrun =>
    rw [hrun] at hfirst
    exact ⟨(h' value between).1.trans hfirst.1, (h' value between).2⟩
  · next failure between hrun =>
    rw [hrun] at hfirst
    exact ⟨hfirst.1, .error (hfirst.2 failure rfl)⟩

end Reads

end Action

/-- A text file is read if its bytes are a text in an encoding that there is. -/
theorem Store.readText_eq_ok_iff {store : Store} {name : String} {path : Path}
    {undecodable : DecodeFlaw → Failure} {text : List Char} :
    store.readText name path undecodable = .ok text
      ↔ ∃ bytes encoding decoded, store.read path = .ok bytes
        ∧ Encoding.ofName? name = some encoding
        ∧ encoding.decode bytes.data.toList = .ok decoded ∧ text = joinLineEnds decoded := by
  rw [readText]
  cases store.read path with
  | error error => simp
  | ok bytes =>
    cases Encoding.ofName? name with
    | none => simp
    | some encoding =>
      cases hdecoded : encoding.decode bytes.data.toList with
      | error flaw => simp [hdecoded]
      | ok decoded => simp [hdecoded, eq_comm]

/-! ## Steps that write -/

namespace Action

theorem run_ensureDirs (path : Path) (session : Session) :
    (ensureDirs path).run session
      = ((session.store.ensureDirs path).2.mapError .store,
        { session with store := (session.store.ensureDirs path).1 }) := by
  show (ofExcept ((session.store.ensureDirs path).2.mapError .store)).run _ = _
  rw [run_ofExcept]

theorem run_writeBytes (path : Path) (bytes : ByteArray) (session : Session) :
    (writeBytes path bytes).run session
      = match session.store.write path bytes with
        | .ok written => (.ok (), { session with store := written })
        | .error error => (.error (.store error), session) := by
  show (ofExcept ((session.store.write path bytes).mapError .store) >>= fun store =>
    (set { session with store := store } : Action Unit)).run session = _
  rw [run_bind, run_ofExcept]
  cases session.store.write path bytes <;> rfl

/-- A text is written if it can be encoded. If it cannot, the file is empty afterwards. -/
theorem run_writeText {name : String} {encoding : Encoding}
    (hname : Encoding.ofName? name = some encoding) (path : Path) (text : List Char)
    (session : Session) :
    (writeText name path text).run session
      = match encoding.encode text with
        | .ok bytes => (writeBytes path ⟨bytes.toArray⟩).run session
        | .error flaw =>
          match session.store.write path ByteArray.empty with
          | .ok emptied => (.error (.unencodable flaw), { session with store := emptied })
          | .error error => (.error (.store error), session) := by
  rw [writeText, run_bind, run_writeBytes]
  cases hwrite : session.store.write path ByteArray.empty with
  | error error =>
    simp only [run_writeBytes, Store.write_eq_error hwrite]
    split <;> rfl
  | ok emptied =>
    simp only [hname]
    split
    · next flaw hflaw => simp only [hflaw]; rfl
    · next bytes hbytes =>
      simp only [hbytes, run_writeBytes, Store.write_of_write hwrite]
      cases hsecond : session.store.write path ⟨bytes.toArray⟩ with
      | error error =>
        rw [Store.write_eq_error hsecond] at hwrite
        cases hwrite
      | ok written => rfl

/-- A text that has been written has bytes in an encoding that there is. -/
theorem run_writeText_eq_ok {name : String} {path : Path} {text : List Char}
    {session session' : Session} (h : (writeText name path text).run session = (.ok (), session')) :
    ∃ encoding bytes written, Encoding.ofName? name = some encoding
      ∧ encoding.encode text = .ok bytes
      ∧ session.store.write path ⟨bytes.toArray⟩ = .ok written
      ∧ session' = { session with store := written } := by
  cases hname : Encoding.ofName? name with
  | none =>
    obtain ⟨_, emptied, -, h⟩ := run_bind_eq_ok h
    simp only [hname] at h
    cases h
  | some encoding =>
    rw [run_writeText hname] at h
    split at h
    · next bytes hbytes =>
      rw [run_writeBytes] at h
      split at h
      · next written hwritten =>
        obtain ⟨-, rfl⟩ := Prod.mk.inj h
        exact ⟨encoding, bytes, written, rfl, hbytes, hwritten, rfl⟩
      · cases h
    · split at h <;> cases h

end Action

end StyleAudit
