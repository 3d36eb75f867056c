import StyleAudit.Proofs.Json.RoundTrip
import StyleAudit.Proofs.Manifest.Init

/-!
# What setting up keeps

Setting up a manifest adds a script, and a configuration if there is none, and keeps the rest of its
object (`Manifest.SetUpFrom`). What is written reads back as that object, so a second time changes
nothing at all, and a configuration that was there is loaded as before
(`initManifest_conservative`).
-/

namespace StyleAudit

/-- Whether the second entries are the first ones with one entry set. -/
structure SetsEntry {τ α : Type} [DecidableEq τ] (name : τ) (value : α)
    (before after : List (τ × α)) : Prop where
  names_eq : after.map Prod.fst
    = before.map Prod.fst ++ [name].filter (fun name => name ∉ before.map Prod.fst)
  lookup_self : after.lookup name = some value
  lookup_other : ∀ other, other ≠ name → after.lookup other = before.lookup other

theorem setsEntry_setEntry {τ α : Type} [DecidableEq τ] (name : τ) (value : α)
    (entries : List (τ × α)) : SetsEntry name value entries (setEntry name value entries) where
  names_eq := by
    rw [map_fst_setEntry]
    split
    · next hmem => simp [hmem]
    · next hmem => simp [hmem]
  lookup_self := lookup_setEntry_self name value entries
  lookup_other _ hother := lookup_setEntry_of_ne value entries hother

namespace Json

/-- Whether a value is an object. -/
def isObject {τ : Type} : Json τ → Bool
  | .obj _ => true
  | _ => false

end Json

namespace Manifest

/-- The scripts that the entries of a manifest have. -/
def scripts (entries : List (WideText × Json WideText)) : List (WideText × Json WideText) :=
  match entries.lookup scriptsName with
  | some (.obj scripts) => scripts
  | _ => []

/-- The command that runs the audit. -/
def command : Json WideText := .str "css-tracker"

/-- What setting up makes of the entries of a manifest. -/
structure SetUpFrom (key : WideText) (before after : List (WideText × Json WideText)) : Prop where
  names_eq : after.map Prod.fst = before.map Prod.fst
    ++ [scriptsName, key].filter (fun name => name ∉ before.map Prod.fst)
  lookup_scripts : ∃ scripts', after.lookup scriptsName = some (.obj scripts')
    ∧ SetsEntry auditName command (scripts before) scripts'
  lookup_key : after.lookup key = some ((before.lookup key).getD defaultSection)
  lookup_other : ∀ name : WideText, name ≠ scriptsName → name ≠ key →
    after.lookup name = before.lookup name

/-! ## The entries with the defaults -/

theorem configName_ne_scriptsName {settings : Settings} (h : settings.configKey ≠ "scripts") :
    configName settings ≠ scriptsName :=
  fun heq => h (WideText.ofString_inj.mp heq)

variable {settings : Settings} {key : WideText} {entries : List (WideText × Json WideText)}

/-- The entries with the script. -/
def scripted (entries : List (WideText × Json WideText)) : List (WideText × Json WideText) :=
  setEntry scriptsName (.obj (setEntry auditName command (scripts entries))) entries

/-- The entries with the script and the configuration. -/
def withDefaults (key : WideText) (entries : List (WideText × Json WideText)) :
    List (WideText × Json WideText) :=
  (withSection key (scripted entries)).1

theorem withScript?_eq_some (h : (entries.lookup scriptsName).all Json.isObject = true) :
    withScript? entries = some (scripted entries) := by
  rw [withScript?, scripted, scripts]
  cases hscripts : entries.lookup scriptsName with
  | none => rfl
  | some value =>
    rw [hscripts, Option.all_some] at h
    cases value with
    | obj found => rfl
    | _ => cases h

theorem lookup_scripted_of_ne {name : WideText} (h : name ≠ scriptsName) :
    (scripted entries).lookup name = entries.lookup name :=
  lookup_setEntry_of_ne _ _ h

theorem withDefaults_of_isNone (hkey : key ≠ scriptsName) (h : entries.lookup key = none) :
    withDefaults key entries = setEntry key defaultSection (scripted entries) := by
  rw [withDefaults, withSection, lookup_scripted_of_ne hkey, h]

theorem withDefaults_of_isSome {value : Json WideText} (hkey : key ≠ scriptsName)
    (h : entries.lookup key = some value) : withDefaults key entries = scripted entries := by
  rw [withDefaults, withSection, lookup_scripted_of_ne hkey, h]

theorem withDefaults?_eq_some (h : (entries.lookup scriptsName).all Json.isObject = true)
    (hkey : configName settings ≠ scriptsName) : withDefaults? settings entries
      = some (withDefaults (configName settings) entries,
        (entries.lookup (configName settings)).isNone) := by
  rw [withDefaults?, withScript?_eq_some h, Option.map_some, withDefaults, withSection,
    lookup_scripted_of_ne hkey]
  cases entries.lookup (configName settings) <;> rfl

/-! ## What is kept -/

theorem lookup_scripts_withDefaults (hkey : key ≠ scriptsName) :
    (withDefaults key entries).lookup scriptsName
      = some (.obj (setEntry auditName command (scripts entries))) := by
  cases h : entries.lookup key with
  | none =>
    rw [withDefaults_of_isNone hkey h, lookup_setEntry_of_ne _ _ hkey.symm, scripted,
      lookup_setEntry_self]
  | some value => rw [withDefaults_of_isSome hkey h, scripted, lookup_setEntry_self]

theorem lookup_key_withDefaults (hkey : key ≠ scriptsName) : (withDefaults key entries).lookup key
    = some ((entries.lookup key).getD defaultSection) := by
  cases h : entries.lookup key with
  | none => rw [withDefaults_of_isNone hkey h, lookup_setEntry_self, Option.getD_none]
  | some value =>
    rw [withDefaults_of_isSome hkey h, lookup_scripted_of_ne hkey, h, Option.getD_some]

theorem lookup_other_withDefaults {name : WideText} (hkey : key ≠ scriptsName)
    (hscripts : name ≠ scriptsName) (hname : name ≠ key) :
    (withDefaults key entries).lookup name = entries.lookup name := by
  cases h : entries.lookup key with
  | none =>
    rw [withDefaults_of_isNone hkey h, lookup_setEntry_of_ne _ _ hname,
      lookup_scripted_of_ne hscripts]
  | some value => rw [withDefaults_of_isSome hkey h, lookup_scripted_of_ne hscripts]

theorem map_fst_withDefaults (hkey : key ≠ scriptsName) :
    (withDefaults key entries).map Prod.fst = entries.map Prod.fst
      ++ [scriptsName, key].filter (fun name => name ∉ entries.map Prod.fst) := by
  have hscripted := (setsEntry_setEntry scriptsName
    (.obj (setEntry auditName command (scripts entries))) entries).names_eq
  cases h : entries.lookup key with
  | none =>
    have hnew : key ∉ entries.map Prod.fst := not_mem_of_lookup_eq_none h
    rw [withDefaults_of_isNone hkey h, (setsEntry_setEntry key defaultSection _).names_eq,
      scripted, hscripted]
    by_cases hmem : scriptsName ∈ entries.map Prod.fst <;> simp [hmem, hnew, hkey]
  | some value =>
    have hold : key ∈ entries.map Prod.fst := List.mem_map_of_mem (mem_of_lookup_eq_some h)
    rw [withDefaults_of_isSome hkey h, scripted, hscripted]
    by_cases hmem : scriptsName ∈ entries.map Prod.fst <;> simp [hmem, hold]

theorem setUpFrom_withDefaults (hkey : key ≠ scriptsName)
    (entries : List (WideText × Json WideText)) :
    SetUpFrom key entries (withDefaults key entries) where
  names_eq := map_fst_withDefaults hkey
  lookup_scripts := ⟨_, lookup_scripts_withDefaults hkey, setsEntry_setEntry _ _ _⟩
  lookup_key := lookup_key_withDefaults hkey
  lookup_other _ hscripts hname := lookup_other_withDefaults hkey hscripts hname

/-- To set up a manifest that is set up changes nothing. -/
theorem withDefaults_withDefaults (hkey : key ≠ scriptsName)
    (entries : List (WideText × Json WideText)) :
    withDefaults key (withDefaults key entries) = withDefaults key entries := by
  have hlookup : (withDefaults key entries).lookup scriptsName
      = some (.obj (setEntry auditName command (scripts entries))) :=
    lookup_scripts_withDefaults hkey
  have hscripts : scripts (withDefaults key entries)
      = setEntry auditName command (scripts entries) := by
    rw [scripts, hlookup]
  rw [withDefaults_of_isSome hkey (lookup_key_withDefaults hkey), scripted, hscripts,
    setEntry_setEntry, setEntry_of_lookup hlookup]

/-- A condition on values that the defaults meet still holds with them. -/
theorem every_withDefaults {p : Json WideText → Bool}
    (hset : ∀ name value entries, p (.obj entries) = true →
      p (.obj (setEntry name value entries)) = true)
    (hempty : (Json.obj [] : Json WideText).every p = true) (hcommand : command.every p = true)
    (hsection : defaultSection.every p = true) (h : (Json.obj entries).every p = true) :
    (Json.obj (withDefaults key entries)).every p = true := by
  have hscripts : (Json.obj (scripts entries)).every p = true := by
    rw [scripts]
    split
    · next found hfound => exact Json.every_of_lookup h hfound
    · exact hempty
  have hscripted : (Json.obj (scripted entries)).every p = true :=
    Json.every_setEntry (hset _ _ _) h (Json.every_setEntry (hset _ _ _) hscripts hcommand)
  rw [withDefaults, withSection]
  split
  · exact Json.every_setEntry (hset _ _ _) hscripted hsection
  · exact hscripted

theorem isReadable_withDefaults {limit : Option Nat}
    (h : (Json.obj entries).isReadable limit = true) :
    (Json.obj (withDefaults key entries)).isReadable limit = true :=
  every_withDefaults (fun _ _ _ => Json.isAllowed_setEntry) rfl rfl rfl h

theorem isFloatFree_withDefaults (h : (Json.obj entries).isFloatFree = true) :
    (Json.obj (withDefaults key entries)).isFloatFree = true :=
  every_withDefaults (fun _ _ _ _ => rfl) rfl rfl rfl h

/-! ## What is written -/

variable {store written : Store} {path : Path}

/-- A manifest whose text has been written is read as it was. -/
theorem read_of_write {encoding : Encoding} {bytes : List UInt8}
    (hfile : store.isFile path = true)
    (hname : Encoding.ofName? settings.fileEncoding = some encoding)
    (hdecode : encoding.decode bytes = .ok (text entries))
    (hwrite : store.write path ⟨bytes.toArray⟩ = .ok written)
    (hreadable : (Json.obj entries).isReadable (some Json.maxDigits) = true)
    (hfloat : (Json.obj entries).isFloatFree = true) :
    read settings written path = .ok entries := by
  obtain ⟨_, hwrite', hthere, hread⟩ := Store.exists_write_of_isFile hfile ⟨bytes.toArray⟩
  obtain rfl := Except.ok.inj (hwrite'.symm.trans hwrite)
  refine read_eq_ok_iff.mpr ⟨text entries, hthere, Store.readText_eq_ok_iff.mpr
    ⟨_, encoding, text entries, hread, hname, hdecode, ?_⟩, Json.readWithin_write hreadable hfloat⟩
  -- there is no carriage return in the text, so no line end is read as another
  exact (joinLineEnds_of_not_mem (isPrinted_text entries).cr_not_mem).symm

/-- The configuration that a manifest gets if it has none. -/
def defaultConfig : Config WideText where
  exclusions := {
    movePaths := ["./node_modules", ".public", "./.cache", "./build"]
    frontPaths := ["./node_modules", ".public", "./.cache", "./build"] }

theorem ofJson_defaultSection : Config.ofJson defaultSection = .ok defaultConfig := by
  rfl

/-- What setting up a manifest with some entries makes of a session. -/
structure SetUp (settings : Settings) (manifest : Path) (before : List (WideText × Json WideText))
    (session session' : Session) : Prop where
  read : ∃ after, Manifest.read settings session'.store manifest = .ok after
    ∧ SetUpFrom (configName settings) before after
  /-- A second time changes no file. -/
  again : ∃ session'', (initManifest settings manifest).run session' = (.ok false, session'')
    ∧ session''.store = session'.store
  readConfig_of_isSome : (before.lookup (configName settings)).isSome →
    readConfig settings session'.store manifest = readConfig settings session.store manifest
  readConfig_of_isNone : (before.lookup (configName settings)).isNone →
    readConfig settings session'.store manifest = .ok defaultConfig

end Manifest

open Manifest

variable {settings : Settings} {manifest : Path} {session session' : Session}
  {entries : List (WideText × Json WideText)}

theorem readConfig_of_read (h : Manifest.read settings session.store manifest = .ok entries) :
    readConfig settings session.store manifest
      = match entries.lookup (configName settings) with
        | none => .error (.manifest manifest.toString (.noSection settings.configKey))
        | some value => (Config.ofJson value).mapError .config := by
  rw [readConfig, h]
  rfl

/-- The manifest is set up and the text that is written is the text of its new entries. -/
theorem run_initManifest_withDefaults
    (hread : Manifest.read settings session.store manifest = .ok entries)
    (hfloat : (Json.obj entries).isFloatFree = true)
    (hscripts : (entries.lookup scriptsName).all Json.isObject = true)
    (hkey : configName settings ≠ scriptsName) :
    ∃ encoding bytes session',
      Encoding.ofName? settings.fileEncoding = some encoding
      ∧ encoding.encode (Manifest.text (withDefaults (configName settings) entries)) = .ok bytes
      ∧ session.store.write manifest ⟨bytes.toArray⟩ = .ok session'.store
      ∧ (initManifest settings manifest).run session
        = (.ok (entries.lookup (configName settings)).isNone, session')
      ∧ Manifest.read settings session'.store manifest
        = .ok (withDefaults (configName settings) entries) := by
  obtain ⟨_, hfile, htext, hvalue⟩ := read_eq_ok_iff.mp hread
  obtain ⟨_, encoding, _, -, hname, -⟩ := Store.readText_eq_ok_iff.mp htext
  obtain ⟨bytes, written, hencode, hdecode, hwrite, hrun⟩ :=
    run_initManifest hread hname (withDefaults?_eq_some hscripts hkey)
  refine ⟨encoding, bytes, _, hname, hencode, ?_, hrun, ?_⟩
  · exact hwrite
  · exact read_of_write hfile hname hdecode hwrite
      (isReadable_withDefaults (Json.isReadable_of_readWithin hvalue))
      (isFloatFree_withDefaults hfloat)

theorem all_isObject_withDefaults {key : WideText} (hkey : key ≠ scriptsName)
    (entries : List (WideText × Json WideText)) :
    ((withDefaults key entries).lookup scriptsName).all Json.isObject = true := by
  rw [lookup_scripts_withDefaults hkey]
  rfl

theorem setUp_of_read (hread : Manifest.read settings session.store manifest = .ok entries)
    (hfloat : (Json.obj entries).isFloatFree = true)
    (hscripts : (entries.lookup scriptsName).all Json.isObject = true)
    (hkey : configName settings ≠ scriptsName) :
    ∃ session', (initManifest settings manifest).run session
        = (.ok (entries.lookup (configName settings)).isNone, session')
      ∧ SetUp settings manifest entries session session' := by
  obtain ⟨encoding, bytes, session', hname, hencode, hwrite, hrun, hafter⟩ :=
    run_initManifest_withDefaults hread hfloat hscripts hkey
  have hsection : (withDefaults (configName settings) entries).lookup (configName settings)
      = some ((entries.lookup (configName settings)).getD defaultSection) :=
    lookup_key_withDefaults hkey
  refine ⟨session', hrun, ⟨_, hafter, setUpFrom_withDefaults hkey entries⟩, ?_, ?_, ?_⟩
  · -- the second time the same bytes are written
    obtain ⟨encoding', bytes', session'', hname', hencode', hwrite', hrun', -⟩ :=
      run_initManifest_withDefaults hafter (isFloatFree_withDefaults hfloat)
        (all_isObject_withDefaults hkey entries) hkey
    rw [hsection, Option.isNone_some] at hrun'
    refine ⟨session'', hrun', ?_⟩
    obtain rfl := Option.some.inj (hname'.symm.trans hname)
    rw [withDefaults_withDefaults hkey] at hencode'
    obtain rfl := Except.ok.inj (hencode'.symm.trans hencode)
    rw [Store.write_of_write hwrite, hwrite] at hwrite'
    exact (Except.ok.inj hwrite').symm
  · intro hold
    obtain ⟨value, hvalue⟩ := Option.isSome_iff_exists.mp hold
    rw [readConfig_of_read hafter, readConfig_of_read hread, hsection, hvalue, Option.getD_some]
  · intro hnew
    rw [readConfig_of_read hafter, hsection, Option.isNone_iff_eq_none.mp hnew, Option.getD_none]
    exact congrArg (·.mapError Failure.config) ofJson_defaultSection

/-- If the manifest cannot be set up, nothing is changed. An object without floating point numbers
that has a place for the script is set up, and what was in it is kept. -/
theorem initManifest_conservative (settings : Settings) (manifest : Path) (session : Session) :
    (∀ failure session', (initManifest settings manifest).run session
      = (.error failure, session') → session' = session)
    ∧ ∀ before, Manifest.read settings session.store manifest = .ok before →
      (Json.obj before).isFloatFree = true → (before.lookup scriptsName).all Json.isObject = true →
      settings.configKey ≠ "scripts" →
      ∃ session', (initManifest settings manifest).run session
          = (.ok (before.lookup (configName settings)).isNone, session')
        ∧ SetUp settings manifest before session session' :=
  ⟨fun _ _ h => (initManifest_eq_error h).1,
    fun _ hread hfloat hscripts hkey =>
      setUp_of_read hread hfloat hscripts (configName_ne_scriptsName hkey)⟩

/-- A session in the directory of a manifest that has scripts, and no configuration. Two of its
names differ in a surrogate only. -/
def scriptedProject : Session where
  store := {
    tree := .dir [("package.json", .file ("\x7b\"name\": \"d\\u00e9mo \\ud83d\\ude00\", "
      ++ "\"\\ud800\": 1, \"\\ud801\": \"\\ude00\\ud83d\", "
      ++ "\"size\": -12345678901234567890, \"files\": [[], \"é\"],\n"
      ++ " \"scripts\": \x7b\"build\": \"tsc\"\x7d, \"name\": null\x7d").toUTF8)]
    here := [] }

theorem initManifest_scriptedProject : ∃ before session',
    Manifest.read {} scriptedProject.store (Path.ofString "package.json") = .ok before
      ∧ (Json.obj before).isFloatFree = true
      ∧ (before.lookup scriptsName).all Json.isObject = true
      ∧ Settings.configKey {} ≠ "scripts"
      ∧ (initManifest {} (Path.ofString "package.json")).run scriptedProject = (.ok true, session')
      ∧ SetUp {} (Path.ofString "package.json") before scriptedProject session' := by
  have hread : (match Manifest.read {} scriptedProject.store (Path.ofString "package.json") with
      | .ok before => (Json.obj before).isFloatFree && (before.lookup scriptsName).all Json.isObject
        && (before.lookup (configName {})).isNone
      | .error _ => false) = true := by
    decide +kernel
  have hkey : Settings.configKey {} ≠ "scripts" := by decide
  split at hread
  · next before hbefore =>
    rw [Bool.and_eq_true, Bool.and_eq_true] at hread
    obtain ⟨⟨hfloat, hscripts⟩, hnew⟩ := hread
    obtain ⟨session', hrun, hsetUp⟩ := (initManifest_conservative {} (Path.ofString "package.json")
      scriptedProject).2 before hbefore hfloat hscripts hkey
    rw [hnew] at hrun
    exact ⟨before, session', hbefore, hfloat, hscripts, hkey, hrun, hsetUp⟩
  · cases hread

end StyleAudit
