import PsqlOdbc.Catalog.IdentifierEscape
import PsqlOdbc.Lib.Doubling
import PsqlOdbc.Lib.Wildcard

/-!
# Search patterns for catalog queries (`info.c`, `adjustLikePattern`)

A search pattern is made a pattern of `LIKE`, where each backslash starts an escape sequence, and
that is made the inside of a string literal, in one loop.  `LikeRight` reads the literal and the
pattern back.
-/

namespace PsqlOdbc

open Lib Lib.CountingBuffer Server

/-! ## The driver -/

/-- `SEARCH_PATTERN_ESCAPE`. -/
abbrev searchPatternEscape : UInt8 := 0x5c

abbrev percentSign : UInt8 := 0x25

section

variable (escapeInLiteral : UInt8)

/-- A backslash in the literal. -/
def literalBackslash : List UInt8 :=
  (if searchPatternEscape = escapeInLiteral then [escapeInLiteral] else []) ++ [searchPatternEscape]

/-- What is written in front of a byte. -/
def likePending (tchar : UInt8) (escapeIn : Bool) : List UInt8 :=
  if escapeIn then
    if tchar = percentSign ∨ tchar = underscore then [] else literalBackslash escapeInLiteral
  else []

/-- What is written for a byte, and `escape_in` behind it. -/
def likeBytes (nonAscii : Bool) (tchar : UInt8) (escapeIn : Bool) : List UInt8 × Bool :=
  if nonAscii then ([tchar], escapeIn)
  else if tchar = searchPatternEscape then
    (likePending escapeInLiteral tchar escapeIn ++ literalBackslash escapeInLiteral, true)
  else if tchar = literalQuote then
    (likePending escapeInLiteral tchar escapeIn ++ [tchar, tchar], false)
  else (likePending escapeInLiteral tchar escapeIn ++ [tchar], false)

/-- The loop, with the number of bytes that are left. -/
def likeLoop : Nat → EncodedStr → Bool → Nat → List UInt8 → Option (Bool × Nat × List UInt8)
  | 0, _, escapeIn, outlen, dest => some (escapeIn, outlen, dest)
  | left + 1, encstr, escapeIn, outlen, dest =>
    let encstr := encstr.nextchar
    let (bytes, escapeIn) := likeBytes escapeInLiteral encstr.nonAscii encstr.tchar escapeIn
    (storeAll dest outlen bytes).bind fun dest ↦
      likeLoop left encstr escapeIn (outlen + bytes.length) dest

end

/-- The length of a pattern that is given with `srclen`, as an `int`. -/
def patternLength (src : List UInt8) (srclen : Int) : Int :=
  if srclen = -3 then wrapSigned 32 (strlen src) else srclen

/-- `adjustLikePattern`: there is no result if something is stored outside of the new memory, or if
its size is no `int`; `some none` for `NULL`. -/
def adjustLikePattern (src : Option (List UInt8)) (srclen : Int) (conn : ConnectionClass) :
    Option (Option (List UInt8)) :=
  match src with
  | none => some none
  | some src =>
    if srclen = -1 then some none
    else if patternLength src srclen < 0 then some none
    else if 2 ^ 31 ≤ 4 * patternLength src srclen + 1 then none
    else
      let dest := List.replicate (4 * patternLength src srclen + 1).toNat 0
      (likeLoop (ccGetEscape conn) (patternLength src srclen).toNat
          (EncodedStr.constr conn.ccsc src) false 0 dest).bind fun (escapeIn, outlen, dest) ↦
        (storeAll dest outlen
          ((if escapeIn then literalBackslash (ccGetEscape conn) else []) ++ [0])).map some

/-- `gen_opestr`. -/
def genOpestr (isEqop : Bool) (conn : ConnectionClass) : List UInt8 :=
  (if isEqop then cstr "= ".toList else cstr "like ".toList) ++
    if ccGetEscape conn ≠ 0 ∧ pgVersionGe conn 8 1 = true then [literalExt] else []

/-! ## What the text has to be -/

namespace Server

/-- How many bytes the first character of a text has. -/
def charLen (ccsc : CharSet) : List UInt8 → Nat
  | [] => 1
  | b :: bs =>
    match ccsc with
    | .utf8 => if b < 0x80 then 1 else if b < 0xe0 then 2 else if b < 0xf0 then 3 else 4
    | .muleInternal =>
      if 0x81 ≤ b ∧ b ≤ 0x8d then 2 else if 0x90 ≤ b ∧ b ≤ 0x9b then 3
      else if 0x9c ≤ b ∧ b ≤ 0x9d then 4 else 1
    | .eucJp | .eucJis2004 => if b = 0x8f then 3 else if 0x80 ≤ b then 2 else 1
    | .eucTw => if b = 0x8e then 4 else if b = 0x8f then 3 else if 0x80 ≤ b then 2 else 1
    | .eucCn | .eucKr => if 0x80 ≤ b then 2 else 1
    | _ => mbLen ccsc (b :: bs)

/-- One character. -/
def IsChar (ccsc : CharSet) (c : List UInt8) : Prop :=
  EncodedChar ccsc c ∧ charLen ccsc c = c.length

/-- The items of a pattern of `LIKE`, of its characters.  There is none if it ends with an escape
character. -/
def likeItems : List (List UInt8) → Option (List (Wildcard (List UInt8)))
  | [] => some []
  | [c] =>
    if c = [searchPatternEscape] then none
    else if c = [percentSign] then some [.any]
    else if c = [underscore] then some [.one]
    else some [.lit c]
  | c :: d :: cs =>
    if c = [searchPatternEscape] then (likeItems cs).map (.lit d :: ·)
    else if c = [percentSign] then (likeItems (d :: cs)).map (.any :: ·)
    else if c = [underscore] then (likeItems (d :: cs)).map (.one :: ·)
    else (likeItems (d :: cs)).map (.lit c :: ·)

end Server

/-- The items of a search pattern: a backslash makes a wildcard a character, and is a character
itself elsewhere. -/
def patternItems : List (List UInt8) → List (Wildcard (List UInt8))
  | [] => []
  | [c] => if c = [percentSign] then [.any] else if c = [underscore] then [.one] else [.lit c]
  | c :: d :: cs =>
    if c = [searchPatternEscape] ∧ (d = [percentSign] ∨ d = [underscore]) then .lit d :: patternItems cs
    else if c = [percentSign] then .any :: patternItems (d :: cs)
    else if c = [underscore] then .one :: patternItems (d :: cs)
    else .lit c :: patternItems (d :: cs)

/-- A search pattern as the application gives it. -/
structure PatternArg (ccsc : CharSet) where
  src : List UInt8
  srclen : Int
  /-- `SQL_NTS`, or a length inside of the memory that is an `int`. -/
  proper : srclen = -3 ∨ 0 ≤ srclen ∧ srclen ≤ src.length ∧ srclen < 2 ^ 31
  chars : List (List UInt8)
  text : src.take (srcLength src srclen).toNat = chars.flatten
  noNul : 0 ∉ chars.flatten
  valid : ∀ c ∈ chars, IsChar ccsc c

/-- Behind the operator, the text between quotes is one literal, and its value is a pattern of
`LIKE` that matches the names that the argument matches.  All is stored in `4 * length + 1` bytes. -/
def LikeRight (conn : ConnectionClass) (arg : PatternArg conn.ccsc) : Prop :=
  ∃ dest ext value chars items,
    adjustLikePattern (some arg.src) arg.srclen conn = some (some dest) ∧
    dest.length = 4 * arg.chars.flatten.length + 1 ∧
    genOpestr false conn = cstr "like ".toList ++ ext ∧
    lexLiteral conn.ccsc (ccGetEscape conn = 0)
      (ext ++ literalQuote :: (dest.takeWhile (· ≠ 0) ++ [literalQuote])) = some (value, []) ∧
    value = chars.flatten ∧ (∀ c ∈ chars, IsChar conn.ccsc c) ∧ likeItems chars = some items ∧
    ∀ name, (∀ c ∈ name, IsChar conn.ccsc c) →
      (Wildcard.Matches items name ↔ Wildcard.Matches (patternItems arg.chars) name)

/-- No backslash stands directly before a character that is not ASCII. -/
def BackslashesPlain : List (List UInt8) → Prop
  | [] => True
  | [_] => True
  | c :: d :: cs => (c = [searchPatternEscape] → isAscii d = true) ∧ BackslashesPlain (d :: cs)

end PsqlOdbc
