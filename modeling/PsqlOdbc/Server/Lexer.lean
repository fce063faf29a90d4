import PsqlOdbc.Convert.Lexis
import PsqlOdbc.Server.Literal

/-!
# Statements as the server reads them

The server's lexical rules for literals, quoted identifiers, dollar quotes and comments, over text
in a client encoding.  `lexEvents` lists the question marks of a statement, outside of all of these
and inside of one.  Nothing here is taken from the driver but the names of characters.
-/

namespace PsqlOdbc.Server

/-- What has been read behind the closing quote of a literal. -/
inductive Gap
  | nothing | blank | newline
  deriving DecidableEq, Repr

/-- What a byte is inside of.  A literal that has been closed goes on if another quote follows at
once, or on another line. -/
inductive Token
  | space
  | word (text : List UInt8)
  | number
  | literal (backslash : Bool)
  | escaped
  | closed (backslash : Bool) (gap : Gap)
  | closedLine (backslash : Bool)
  | dquote
  | dollar (tag : List UInt8)
  | comment (level : Nat)
  | line
  deriving DecidableEq, Repr

/-- The state between two bytes: the bytes owed to a multibyte character, the token, and how many
bytes belong to the symbol that has been read. -/
structure LexState where
  owed : Nat
  token : Token
  skip : Nat
  deriving DecidableEq, Repr

def isDigit (c : UInt8) : Bool := 0x30 ≤ c && c ≤ 0x39

/-- A newline ends a line comment. -/
def isNewline (c : UInt8) : Bool := c = pgLinefeed || c = pgCarriageReturn

section

-- `standardConforming` is whether backslashes have no meaning in literals without a prefix.
variable (ccsc : CharSet) (standardConforming : Bool)

/-- The rest of the tag of a dollar quote, from the byte at `pos` behind the first dollar on. -/
def dollarTagLoop : Nat → Nat → List UInt8 → Nat
  | _, _, [] => 0
  | owed, pos, c :: rest =>
    if asciiAt ccsc owed (c :: rest) then
      if c = dollarQuote then pos + 2
      else if isAlnum c || c = underscore then dollarTagLoop 0 (pos + 1) rest
      else 0
    else dollarTagLoop (owedAfter ccsc owed (c :: rest)) (pos + 1) rest

/-- The length of the tag at the head of a text, dollars included, or 0: a tag is an identifier
without dollars. -/
def dollarTag (text : List UInt8) : Nat :=
  if isDigit (text.tail.headD 0) then 0 else dollarTagLoop ccsc 0 0 text.tail

/-- A byte that begins a token. -/
def lexSpace (c : UInt8) (rest : List UInt8) : Token × Nat × Event :=
  if c = paramMarker then (.space, 0, .marker)
  else if c = literalQuote then (.literal (!standardConforming), 0, .other)
  else if c = identifierQuote then (.dquote, 0, .other)
  else if c = dollarQuote then
    let taglen := dollarTag ccsc (c :: rest)
    if 0 < taglen then (.dollar ((c :: rest).take taglen), taglen - 1, .other)
    else (.space, 0, .other)
  else if c = slash ∧ rest.headD 0 = asterisk then (.comment 1, 1, .other)
  else if c = hyphen ∧ rest.headD 0 = hyphen then (.line, 1, .other)
  else if isDigit c then (.number, 0, .other)
  else if isAlnum c || c = underscore then (.word [c], 0, .other)
  else (.space, 0, .other)

/-- A character of one byte. -/
def lexToken (c : UInt8) (rest : List UInt8) : Token → Token × Nat × Event
  | .space => lexSpace ccsc standardConforming c rest
  | .word text =>
    if isWordChar c then (.word (text ++ [c]), 0, .other)
    else if c = literalQuote then
      -- `E` or `e` is the prefix of a literal.
      (.literal (!standardConforming || text = [0x45] || text = [0x65]), 0, .other)
    else lexSpace ccsc standardConforming c rest
  | .number =>
    if isAlnum c || c = underscore then (.number, 0, .other)
    else lexSpace ccsc standardConforming c rest
  | .literal backslash =>
    if c = literalQuote then (.closed backslash .nothing, 0, .other)
    else if backslash && c = escapeInLiteral then (.escaped, 0, insideEvent c)
    else (.literal backslash, 0, insideEvent c)
  | .escaped => (.literal true, 0, insideEvent c)
  | .closed backslash gap =>
    if c = literalQuote ∧ gap ≠ .blank then (.literal backslash, 0, .other)
    else if isSpace c then
      (.closed backslash (if isNewline c || gap = .newline then .newline else .blank), 0, .other)
    else if c = hyphen ∧ rest.headD 0 = hyphen then (.closedLine backslash, 1, .other)
    else lexSpace ccsc standardConforming c rest
  | .closedLine backslash =>
    if isNewline c then (.closed backslash .newline, 0, .other)
    else (.closedLine backslash, 0, insideEvent c)
  | .dquote =>
    -- A quote that is doubled closes the identifier and opens it again.
    if c = identifierQuote then (.space, 0, .other) else (.dquote, 0, insideEvent c)
  | .dollar tag =>
    if c = dollarQuote ∧ (c :: rest).take tag.length = tag then (.space, tag.length - 1, .other)
    else (.dollar tag, 0, insideEvent c)
  | .comment level =>
    if c = slash ∧ rest.headD 0 = asterisk then (.comment (level + 1), 1, .other)
    else if c = asterisk ∧ rest.headD 0 = slash then
      (if 1 < level then .comment (level - 1) else .space, 1, .other)
    else (.comment level, 0, insideEvent c)
  | .line => if isNewline c then (.space, 0, .other) else (.line, 0, insideEvent c)

/-- A byte of a character of several bytes, or of one above ASCII. -/
def lexMultibyte (c : UInt8) : Token → Token
  | .space | .number | .closed _ _ => .word [c]
  | .word text => .word (text ++ [c])
  | .escaped => .literal true
  | token => token

/-- One byte. -/
def lexStep (c : UInt8) (rest : List UInt8) (s : LexState) : LexState × Event :=
  if s.skip ≠ 0 then ({ s with skip := s.skip - 1 }, .other)
  else if asciiAt ccsc s.owed (c :: rest) then
    let (token, skip, event) := lexToken ccsc standardConforming c rest s.token
    (⟨0, token, skip⟩, event)
  else (⟨owedAfter ccsc s.owed (c :: rest), lexMultibyte c s.token, 0⟩, .other)

/-- The question marks of a text. -/
def lexEvents (s : LexState) : List UInt8 → List Event
  | [] => []
  | c :: rest =>
    let (s, event) := lexStep ccsc standardConforming c rest s
    event :: lexEvents s rest

end

end PsqlOdbc.Server
