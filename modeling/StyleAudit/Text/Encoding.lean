import StyleAudit.Text.Escapes

/-!
# Encodings

The encodings that files may be in. A byte sequence that is no text in an encoding has a flaw, the
first one that a reading from the front meets; a text that an encoding has no bytes for has a
flaw too, its first run of such characters.

A marked encoding writes a byte order mark in front of each text. Reading takes one mark away; a
file that stops within the mark is an empty text.
-/

namespace StyleAudit

/-- How a text is written as bytes. -/
inductive Encoding where
  | utf8
  /-- UTF-8 behind a byte order mark. -/
  | utf8Marked
  | ascii
  | latin1
deriving DecidableEq, Repr

namespace Encoding

/-- The name of an encoding in lower case, with single low lines for its separators. -/
def plainName (name : String) : String :=
  let parts := name.toLower.toList.splitOnP fun c => !(c.isAlphanum || c == '.')
  String.ofList (['_'].intercalate (parts.filter fun part => !part.isEmpty))

/-- The names of the encodings. -/
def names : List (Encoding × List String) :=
  [(utf8, ["utf_8", "utf8", "u8", "utf", "cp65001", "utf8_ucs2", "utf8_ucs4"]),
    (utf8Marked, ["utf_8_sig"]),
    (ascii, ["ascii", "us_ascii", "us", "646", "cp367", "ibm367", "csascii", "iso646_us",
      "iso_ir_6", "iso_646.irv_1991", "ansi_x3.4_1968", "ansi_x3_4_1968", "ansi_x3.4_1986"]),
    (latin1, ["latin_1", "latin1", "latin", "l1", "iso_8859_1", "iso8859_1", "iso8859", "8859",
      "cp819", "ibm819", "csisolatin1", "iso_ir_100", "iso_8859_1_1987"])]

/-- The encoding of a name. -/
def ofName? (name : String) : Option Encoding :=
  (names.find? fun entry => entry.2.contains (plainName name)).map (·.1)

end Encoding

/-! ## Decoding -/

/-- Why bytes are no text. -/
inductive DecodeFlaw where
  | invalidStart
  | invalidContinuation
  | unexpectedEnd
  | notAscii
deriving DecidableEq, Repr

/-- The report of bytes that are no text. -/
def DecodeFlaw.message : DecodeFlaw → String
  | invalidStart => "invalid start byte"
  | invalidContinuation => "invalid continuation byte"
  | unexpectedEnd => "unexpected end of data"
  | notAscii => "ordinal not in range(128)"

/-- A character of which the first bytes are read. -/
structure PartialChar where
  /-- The bits read so far. -/
  code : Nat
  /-- How many bytes follow the next one. -/
  more : Nat
  /-- The least value of the next byte. -/
  low : Nat
  /-- The greatest value of the next byte. -/
  high : Nat

/-- What a first byte of 128 or more starts. The bounds on the byte after it rule out overlong
forms, surrogates and everything beyond U+10FFFF. -/
def PartialChar.ofLead? (b : Nat) : Option PartialChar :=
  if 0xc2 ≤ b ∧ b ≤ 0xdf then some ⟨b - 0xc0, 0, 0x80, 0xbf⟩
  else if b = 0xe0 then some ⟨0, 1, 0xa0, 0xbf⟩
  else if b = 0xed then some ⟨0xd, 1, 0x80, 0x9f⟩
  else if 0xe1 ≤ b ∧ b ≤ 0xef then some ⟨b - 0xe0, 1, 0x80, 0xbf⟩
  else if b = 0xf0 then some ⟨0, 2, 0x90, 0xbf⟩
  else if 0xf1 ≤ b ∧ b ≤ 0xf3 then some ⟨b - 0xf0, 2, 0x80, 0xbf⟩
  else if b = 0xf4 then some ⟨4, 2, 0x80, 0x8f⟩
  else none

/-- Decodes UTF-8 from within a character, or from between two. -/
def decodeUtf8 : Option PartialChar → List UInt8 → Except DecodeFlaw (List Char)
  | none, [] => .ok []
  | some _, [] => .error .unexpectedEnd
  | none, b :: rest =>
    if b.toNat < 0x80 then (decodeUtf8 none rest).map (Char.ofNat b.toNat :: ·)
    else
      match PartialChar.ofLead? b.toNat with
      | none => .error .invalidStart
      | some begun => decodeUtf8 (some begun) rest
  | some begun, b :: rest =>
    if begun.low ≤ b.toNat ∧ b.toNat ≤ begun.high then
      let code := begun.code * 64 + (b.toNat - 0x80)
      match begun.more with
      | 0 => (decodeUtf8 none rest).map (Char.ofNat code :: ·)
      | more + 1 => decodeUtf8 (some ⟨code, more, 0x80, 0xbf⟩) rest
    else .error .invalidContinuation

/-- The bytes of the byte order mark. -/
def byteOrderMark : List UInt8 := [0xef, 0xbb, 0xbf]

/-- The bytes behind a byte order mark, if there is one. -/
def dropMark (bytes : List UInt8) : List UInt8 :=
  if byteOrderMark.isPrefixOf bytes then bytes.drop byteOrderMark.length
  else if bytes.isPrefixOf byteOrderMark then []
  else bytes

/-- Decodes bytes. -/
def Encoding.decode (encoding : Encoding) (bytes : List UInt8) :
    Except DecodeFlaw (List Char) :=
  match encoding with
  | utf8 => decodeUtf8 none bytes
  | utf8Marked => decodeUtf8 none (dropMark bytes)
  | ascii =>
    if bytes.all (·.toNat < 0x80) then .ok (bytes.map fun b => Char.ofNat b.toNat)
    else .error .notAscii
  | latin1 => .ok (bytes.map fun b => Char.ofNat b.toNat)

/-! ## Encoding -/

/-- A run of code points that an encoding has no bytes for. -/
structure EncodeFlaw where
  encoding : Encoding
  /-- The first code point of the run. -/
  code : Nat
  position : Nat
  /-- How many code points the run has. -/
  length : Nat
deriving DecidableEq, Repr

/-- The number of code points that an encoding has a single byte for; `none` for an encoding that
has bytes for all characters, though not for surrogates. -/
def Encoding.limit? : Encoding → Option Nat
  | utf8 | utf8Marked => none
  | ascii => some 0x80
  | latin1 => some 0x100

/-- The report of code points that cannot be encoded. -/
def EncodeFlaw.message (flaw : EncodeFlaw) : String :=
  let name := match flaw.encoding with
    | .utf8 | .utf8Marked => "utf-8"
    | .ascii => "ascii"
    | .latin1 => "latin-1"
  let reason := match flaw.encoding.limit? with
    | some limit => "ordinal not in range(" ++ toString limit ++ ")"
    | none => "surrogates not allowed"
  let what :=
    if flaw.length = 1 then
      "character '" ++ String.ofList (pointEscape flaw.code) ++ "' in position "
        ++ toString flaw.position
    else
      "characters in position " ++ toString flaw.position ++ "-"
        ++ toString (flaw.position + flaw.length - 1)
  "'" ++ name ++ "' codec can't encode " ++ what ++ ": " ++ reason

/-- Encodes a text. -/
def Encoding.encode (encoding : Encoding) (text : List Char) : Except EncodeFlaw (List UInt8) :=
  match encoding.limit? with
  | none =>
    let bytes := text.flatMap String.utf8EncodeChar
    .ok (if encoding = utf8Marked then byteOrderMark ++ bytes else bytes)
  | some limit =>
    let fits (c : Char) : Bool := decide (c.toNat < limit)
    match text.dropWhile fits with
    | [] => .ok (text.map fun c => UInt8.ofNat c.toNat)
    | c :: rest =>
      .error {
        encoding := encoding
        code := c.toNat
        position := (text.takeWhile fits).length
        length := (rest.takeWhile fun c => !fits c).length + 1 }

end StyleAudit
