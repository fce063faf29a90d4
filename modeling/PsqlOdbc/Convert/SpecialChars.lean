import PsqlOdbc.Convert.QueryBuild

/-!
# Parameter values as text (`convert.c`)

`convertSpecialChars` copies a value into the query under construction, doubling
quotes and escape characters and dropping carriage returns before linefeeds;
`resolveOneParam` is the part of its namesake that turns one bound character
parameter into text and puts it between quotes.
-/

namespace PsqlOdbc

/-! ## `convert_special_chars` -/

section

variable (ccsc : CharSet) (convlf doubleSpecial : Bool) (escape : UInt8)

/-- The loop of `convert_special_chars`, over the memory from `si + i` on.  It stops
after `max - i` bytes or at a NUL; the byte looked at behind a carriage return is
whatever the memory holds, also when the value has ended. -/
def specialChars : Nat → Nat → List UInt8 → List UInt8
  | _, 0, _ => []
  | _, _ + 1, [] => []
  | ccst, max + 1, tchar :: si =>
    if tchar = 0 then []
    else
      let ccst := pgCSStat ccst tchar ccsc
      if mbcsNonAscii ccst tchar then tchar :: specialChars ccst max si
      else if convlf && tchar = pgCarriageReturn && si.headD 0 = pgLinefeed then
        specialChars ccst max si
      else if doubleSpecial && (tchar = literalQuote || tchar = escape) then
        tchar :: tchar :: specialChars ccst max si
      else tchar :: specialChars ccst max si

end

/-- `strlen`, of the memory from a pointer on. -/
def strlen (bs : List UInt8) : Nat := (bs.takeWhile (· ≠ 0)).length

/-- `convert_special_chars`; `none` is `SQL_NTS`. -/
def convertSpecialChars (qb : QueryBuild) (si : List UInt8) (used : Option Nat) : QueryBuild :=
  qb.append (specialChars qb.ccsc qb.convertLf (qb.paramMode ≠ .buildingBindRequest)
    (ccGetEscape qb.conn) 0 (used.getD (strlen si)) si)

/-! ## `ResolveOneParam` -/

/-- The SQL types a character parameter can be bound to, one for each branch of the
second conversion switch. -/
inductive ParamSqlType
  /-- The character types and `SQL_BIT`. -/
  | character
  | date | time | timestamp
  | real
  /-- `SQL_FLOAT` and `SQL_DOUBLE`. -/
  | double
  | numeric
  | integer | smallint
  | other
  deriving DecidableEq, Repr

/-- The server types the character branch treats apart. -/
inductive ParamPgType
  | bool
  /-- `PG_TYPE_FLOAT4`, `PG_TYPE_FLOAT8` and `PG_TYPE_NUMERIC`. -/
  | floating
  /-- `PG_TYPE_DATE`, `PG_TYPE_DATETIME` and `PG_TYPE_TIMESTAMP_NO_TMZONE`. -/
  | dateTime
  | other
  deriving DecidableEq, Repr

/-- The length an application gives with its value. -/
inductive ParamUsed
  /-- `SQL_NULL_DATA` and `SQL_DEFAULT_PARAM`. -/
  | nullData
  | nts
  | length (n : Nat)
  deriving DecidableEq, Repr

/-- A parameter bound as `SQL_C_CHAR`: the memory from its buffer on, its length and
its types. -/
structure CharParam where
  buffer : List UInt8
  used : ParamUsed
  sqlType : ParamSqlType
  pgType : ParamPgType

/-- What the conversion takes from its surroundings: a connection option, the decimal
point of the locale, and the date and time texts made of a character value by
`parse_datetime` and the `sprintf` behind it. -/
structure ParamText where
  cvtNullDateString : Bool
  decimalPoint : UInt8
  date : List UInt8 → List UInt8
  time : List UInt8 → List UInt8
  timestamp : List UInt8 → List UInt8

/-- A C string constant. -/
def cstr (cs : List Char) : List UInt8 := cs.map fun c ↦ UInt8.ofNat c.toNat

/-- The loop of `set_server_decimal_point`, `len` bytes being left to look at. -/
def replaceDecimalPoint (point : UInt8) : Option Nat → List UInt8 → List UInt8
  | _, [] => []
  | len, c :: num =>
    if c = 0 then c :: num
    else if c = point then 0x2e :: num
    else
      match len with
      | some 0 => c :: num
      | some (n + 1) => c :: replaceDecimalPoint point (some n) num
      | none => c :: replaceDecimalPoint point none num

/-- `set_server_decimal_point`. -/
def setServerDecimalPoint (point : UInt8) (num : List UInt8) (len : Option Nat) :
    List UInt8 :=
  if point = 0x2e then num else replaceDecimalPoint point len num

/-- `valid_int_literal`, with the sign it finds. -/
def validIntLiteral (str : List UInt8) (len : Option Nat) : Bool × Bool :=
  let str := (str.take (len.getD (strlen str))).takeWhile (· ≠ 0)
  let negative := str.headD 0 = 0x2d
  let digits := if negative then str.tail else str
  (!digits.isEmpty && digits.all (fun c ↦ 0x30 ≤ c && c ≤ 0x39), negative)

/-- The value in its final form: the memory from `send_buf` on, its length, and the
embellishments around it. -/
structure FinalString where
  sendBuf : List UInt8
  used : Option Nat
  needQuotes : Bool
  addParens : Bool
  lastadd : List UInt8

/-- The second conversion switch of `ResolveOneParam`. -/
def finalString (env : ParamText) (p : CharParam) (used : Option Nat) : FinalString :=
  let plain : FinalString := ⟨p.buffer, used, true, false, []⟩
  let text (bs : List UInt8) (cast : List UInt8) : FinalString := ⟨bs, none, true, false, cast⟩
  let number (cast : List UInt8) : FinalString :=
    match validIntLiteral p.buffer used with
    | (true, negative) => { plain with needQuotes := false, addParens := negative }
    | (false, _) => { plain with lastadd := cast }
  match p.sqlType with
  | .character =>
    match p.pgType with
    | .bool =>
      if p.buffer.take 2 = cstr ['-', '1'] then
        { plain with sendBuf := cstr ['1'], used := some 1 }
      else plain
    | .floating =>
      { plain with sendBuf := setServerDecimalPoint env.decimalPoint p.buffer used }
    | .dateTime | .other => plain
  | .date => text (env.date p.buffer) (cstr [':', ':', 'd', 'a', 't', 'e'])
  | .time => text (env.time p.buffer) (cstr [':', ':', 't', 'i', 'm', 'e'])
  | .timestamp => text (env.timestamp p.buffer)
      (cstr [':', ':', 't', 'i', 'm', 'e', 's', 't', 'a', 'm', 'p'])
  | .real =>
    { plain with
      sendBuf := setServerDecimalPoint env.decimalPoint p.buffer used
      lastadd := cstr [':', ':', 'f', 'l', 'o', 'a', 't', '4'] }
  | .double =>
    { plain with
      sendBuf := setServerDecimalPoint env.decimalPoint p.buffer used
      lastadd := cstr [':', ':', 'f', 'l', 'o', 'a', 't', '8'] }
  | .numeric => plain
  | .integer => number (cstr [':', ':', 'i', 'n', 't', '4'])
  | .smallint => number (cstr [':', ':', 's', 'm', 'a', 'l', 'l', 'i', 'n', 't'])
  | .other => plain

/-- The output stage of `ResolveOneParam`. -/
def appendFinal (qb : QueryBuild) (f : FinalString) : QueryBuild :=
  let used := f.used.getD (strlen f.sendBuf)
  if qb.paramMode = .buildingBindRequest then qb.append (f.sendBuf.take used)
  else
    let qb := if f.addParens then qb.append [0x28] else qb
    let qb :=
      if f.needQuotes then
        let qb := if qb.literalExtension then qb.append [literalExt] else qb
        (convertSpecialChars (qb.append [literalQuote]) f.sendBuf (some used)).append
          [literalQuote]
      else qb.append (f.sendBuf.take used)
    let qb := if f.addParens then qb.append [0x29] else qb
    if qb.paramCast then qb.append f.lastadd else qb

/-- The final form of a parameter; `none` is a NULL. -/
def CharParam.final (env : ParamText) (p : CharParam) : Option FinalString :=
  if env.cvtNullDateString && p.pgType = .dateTime && p.buffer.headD 0 = 0 then none
  else
    match p.used with
    | .nullData => none
    | .nts => some (finalString env p none)
    | .length n => some (finalString env p (some n))

/-- `ResolveOneParam`, for an input parameter bound as `SQL_C_CHAR` in the encoding of
the connection. -/
def resolveOneParam (env : ParamText) (qb : QueryBuild) (p : CharParam) : QueryBuild :=
  match p.final env with
  | none =>
    if qb.paramMode = .buildingBindRequest then qb else qb.append (cstr ['N', 'U', 'L', 'L'])
  | some f => appendFinal qb f

end PsqlOdbc
