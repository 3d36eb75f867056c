import StyleAudit.Config
import StyleAudit.Expression
import StyleAudit.Json.Reader
import StyleAudit.Store.Basic
import StyleAudit.Text.Encoding

/-!
# Failures

Everything that can end an audit early. Most failures are about the project and are reported to
the user. The rest point to a setting or a file that the audit cannot cope with at all; they are
not reported in the audit's own way but end the program.
-/

namespace StyleAudit

/-- What is wrong with a manifest. -/
inductive ManifestFlaw where
  | missing
  | undecodable (encoding : String) (flaw : DecodeFlaw)
  /-- The manifest is no JSON text; `report` tells where it goes wrong. -/
  | invalidJson (report : String)
  | notAnObject
  /-- The manifest has no section of this name. -/
  | noSection (key : String)
  | scriptsNotAnObject
deriving DecidableEq, Repr

/-- The report of a flaw in the manifest at a path. -/
def ManifestFlaw.message (path : String) : ManifestFlaw → String
  | missing => "Manifest not found: " ++ path
  | undecodable encoding flaw =>
    "Cannot decode " ++ path ++ " as " ++ encoding ++ ": " ++ flaw.message
  | invalidJson report => "Invalid JSON in " ++ path ++ ": " ++ report
  | notAnObject => "Manifest " ++ path ++ " must contain a JSON object"
  | noSection key =>
    "Missing '" ++ key ++ "' section in " ++ path ++ " (run with --init to create it)"
  | scriptsNotAnObject => "'scripts' in " ++ path ++ " must be a JSON object"

/-- Why an audit ends early. -/
inductive Failure where
  | manifest (path : String) (flaw : ManifestFlaw)
  | config (error : ConfigError)
  | malformed (error : MalformedExpression)
  /-- A source file is no text in the encoding of that name. -/
  | unreadable (path encoding : String) (flaw : DecodeFlaw)
  | store (error : StoreError)
  | unknownEncoding (name : String)
  | unencodable (flaw : EncodeFlaw)
  /-- A whole number in a manifest has too many digits. -/
  | tooManyDigits (count : Nat)
  | unknownFormat (name : String)
deriving Repr

namespace Failure

/-- The report of a failure. -/
def message : Failure → String
  | manifest path flaw => flaw.message path
  | config error => error.message
  | malformed error => error.message
  | unreadable path encoding flaw =>
    "Cannot decode " ++ path ++ " as " ++ encoding ++ ": " ++ flaw.message
  | store error => error.message
  | unknownEncoding name => "unknown encoding: " ++ name
  | unencodable flaw => flaw.message
  | tooManyDigits count =>
    "Exceeds the limit (" ++ toString Json.maxDigits
      ++ " digits) for integer string conversion: value has " ++ toString count
      ++ " digits; use sys.set_int_max_str_digits() to increase the limit"
  | unknownFormat name => "Unknown report format: " ++ name

/-- Whether a failure is reported to the user. -/
def isReported : Failure → Bool
  | manifest .. | config _ | malformed _ | unreadable .. => true
  | store error => error.problem != .nullCharacter
  | unknownEncoding _ | unencodable _ | tooManyDigits _ | unknownFormat _ => false

end Failure

end StyleAudit
