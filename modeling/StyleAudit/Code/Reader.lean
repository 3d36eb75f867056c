import StyleAudit.Code.Lexeme

/-!
# Reading code

`read` takes code apart in one pass over its characters. It is a machine with a stack: the state
says in which unit the next character falls, and `Hole` records each template that is waiting
for one of its holes to close. Every state keeps the lexemes read so far, newest first.

The reading ends in one of three ways (`Reading`):

* a bracket brings the count of open brackets to zero, or a single quoted unit that was asked
  for is complete;
* the text ends;
* a quoted unit cannot be closed: a line feed comes inside a literal, or the text ends inside a
  literal or a template. The reading then names the innermost such unit by the text that starts
  at its opening quote.

Brackets are counted, not matched: any closing bracket closes any opening one. Inside brackets
quoted units and comments are skipped whole. A comment runs from two slashes up to the next line
feed, which is not part of it, or from a slash and an asterisk up to the first asterisk and slash
after those two characters; either may also end with the text.

`closingBracket?` and `closingQuote` give the same answers as positions in a text.
-/

namespace StyleAudit

/-- Where a stretch of code ends. -/
inductive Extent where
  /-- At the end of the text. -/
  | wholeText
  /-- At the closing bracket that brings the number of open brackets, now `depth`, to zero. -/
  | bracket (depth : Int)
  /-- After one quoted unit. -/
  | oneUnit
deriving DecidableEq, Repr

/-- A stretch of code that is being read. -/
structure Frame where
  extent : Extent
  /-- The lexemes read so far, newest first. -/
  units : List Lexeme

namespace Frame

/-- Adds a lexeme. -/
def push (frame : Frame) (lexeme : Lexeme) : Frame :=
  { frame with units := lexeme :: frame.units }

/-- Counts `change` more open brackets. -/
def deepen (frame : Frame) (change : Int) : Frame :=
  match frame.extent with
  | .bracket depth => { frame with extent := .bracket (depth + change) }
  | _ => frame

/-- Whether the next closing bracket ends the stretch. -/
def endsAtCloser (frame : Frame) : Bool :=
  frame.extent = .bracket 1

/-- The lexemes of the stretch in reading order. -/
def code (frame : Frame) : Code := frame.units.reverse

end Frame

/-- A template that waits for the end of one of its holes. -/
structure Hole where
  /-- The parts read before the hole, newest first. -/
  parts : List Part
  /-- The text from the template's opening backtick on. -/
  start : List Char
  /-- The code the template stands in. -/
  frame : Frame

/-- What the next character belongs to. -/
inductive ReaderState where
  | code (frame : Frame) (holes : List Hole)
  | lineComment (read : List Char) (frame : Frame) (holes : List Hole)
  | blockComment (read : List Char) (frame : Frame) (holes : List Hole)
  | literal (quote : Char) (read : List Char) (start : List Char) (frame : Frame)
      (holes : List Hole)
  | template (parts : List Part) (start : List Char) (frame : Frame) (holes : List Hole)

/-- How a reading ends. -/
inductive Reading where
  /-- The stretch of code is complete; `closer` ended it and `rest` is unread. -/
  | closed (code : Code) (closer : Char) (rest : List Char)
  /-- A quoted unit has no end; `start` is the text from its opening quote on. -/
  | openQuote (start : List Char)
  /-- The text ended first. -/
  | ended (code : Code)

/-- How a reading ends in code when the text ends: a template around it stays open. -/
def endOfText (frame : Frame) : List Hole → Reading
  | [] => .ended frame.code
  | hole :: _ => .openQuote hole.start

/-- How a reading ends when the text ends. -/
def ReaderState.atEnd : ReaderState → Reading
  | .code frame holes => endOfText frame holes
  | .lineComment read frame holes => endOfText (frame.push (.comment read.reverse)) holes
  | .blockComment read frame holes => endOfText (frame.push (.comment read.reverse)) holes
  | .literal _ _ start _ _ => .openQuote start
  | .template _ start _ _ => .openQuote start

/-- Reads on from a state. -/
def read : ReaderState → List Char → Reading
  | state, [] => state.atEnd
  | .code frame holes, c :: rest =>
    if c = backtick then read (.template [] (c :: rest) frame holes) rest
    else if isQuote c then read (.literal c [] (c :: rest) frame holes) rest
    else if c = '/' then
      match rest with
      | '/' :: rest' => read (.lineComment ['/', '/'] frame holes) rest'
      | '*' :: rest' => read (.blockComment ['*', '/'] frame holes) rest'
      | rest => read (.code (frame.push (.char c)) holes) rest
    else if isOpener c then read (.code ((frame.deepen 1).push (.char c)) holes) rest
    else if isCloser c then
      if frame.endsAtCloser then
        match holes with
        | [] => .closed frame.code c rest
        | hole :: outer =>
          read (.template (.hole frame.code c :: hole.parts) hole.start hole.frame outer) rest
      else read (.code ((frame.deepen (-1)).push (.char c)) holes) rest
    else read (.code (frame.push (.char c)) holes) rest
  | .lineComment done frame holes, c :: rest =>
    if c = '\n' then
      read (.code ((frame.push (.comment done.reverse)).push (.char c)) holes) rest
    else read (.lineComment (c :: done) frame holes) rest
  | .blockComment done frame holes, c :: rest =>
    if c = '*' then
      match rest with
      | '/' :: rest' =>
        read (.code (frame.push (.comment ('/' :: '*' :: done).reverse)) holes) rest'
      | rest => read (.blockComment (c :: done) frame holes) rest
    else read (.blockComment (c :: done) frame holes) rest
  | .literal quote done start frame holes, c :: rest =>
    if c = '\\' then
      match rest with
      | [] => .openQuote start
      | escaped :: rest' => read (.literal quote (escaped :: c :: done) start frame holes) rest'
    else if c = quote then
      let frame := frame.push (.literal quote done.reverse)
      if frame.extent = .oneUnit then .closed frame.code c rest
      else read (.code frame holes) rest
    else if c = '\n' then .openQuote start
    else read (.literal quote (c :: done) start frame holes) rest
  | .template parts start frame holes, c :: rest =>
    if c = '\\' then
      match rest with
      | [] => .openQuote start
      | escaped :: rest' =>
        read (.template (.char escaped :: .char c :: parts) start frame holes) rest'
    else if c = backtick then
      let frame := frame.push (.template parts.reverse)
      if frame.extent = .oneUnit then .closed frame.code c rest
      else read (.code frame holes) rest
    else if c = '$' then
      match rest with
      | '\x7b' :: rest' => read (.code ⟨.bracket 1, []⟩ (⟨parts, start, frame⟩ :: holes)) rest'
      | rest => read (.template (.char c :: parts) start frame holes) rest
    else read (.template (.char c :: parts) start frame holes) rest

/-- Reads a whole text as code. The error is the text from a quote that is never closed. -/
def Code.ofText? (text : List Char) : Except (List Char) Code :=
  match read (.code ⟨.wholeText, []⟩ []) text with
  | .closed code _ _ | .ended code => .ok code
  | .openQuote start => .error start

/-- Why no position can be given. -/
inductive ScanError where
  /-- The quoted unit that starts at this position has no end. -/
  | openQuote (index : Nat)
  /-- The text has no character at the position asked for. -/
  | outOfRange
deriving DecidableEq, Repr

/-- The position of the bracket that brings the count of open brackets back to zero, when the
count starts at `start`; `none` if the text ends first. -/
def closingBracket? (text : List Char) (start : Nat) : Except ScanError (Option Nat) :=
  match read (.code ⟨.bracket 0, []⟩ []) (text.drop start) with
  | .closed _ _ rest => .ok (some (text.length - rest.length - 1))
  | .openQuote unit => .error (.openQuote (text.length - unit.length))
  | .ended _ => .ok none

/-- The position of the quote that closes the unit opened at `start`. Whatever character stands
there is taken for the quote. -/
def closingQuote (text : List Char) (start : Nat) : Except ScanError Nat :=
  match text.drop start with
  | [] => .error .outOfRange
  | quote :: rest =>
    let state : ReaderState :=
      if quote = backtick then .template [] (quote :: rest) ⟨.oneUnit, []⟩ []
      else .literal quote [] (quote :: rest) ⟨.oneUnit, []⟩ []
    match read state rest with
    | .closed _ _ rest => .ok (text.length - rest.length - 1)
    | .openQuote unit => .error (.openQuote (text.length - unit.length))
    | .ended _ => .error (.openQuote start)

end StyleAudit
