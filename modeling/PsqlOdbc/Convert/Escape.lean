import PsqlOdbc.Convert.Numeric
import PsqlOdbc.Convert.ProcessTokens

/-!
# ODBC escapes (`convert.c`, `convert_escape`)

The loop over a statement hands over at a brace.  Literals are copied with a cast, the braces of
a join or a call become parentheses, and a function is replaced by its template, for which the
loop runs over the arguments and so comes back here.
-/

namespace PsqlOdbc

/-! ## Functions (`mapFuncs`) -/

/-- `mapFuncs`.  A name that begins with a percent sign asks for as many arguments as the digit
behind it says, and one with a parenthesis for the first argument that follows it. -/
def mapFuncs : List (String × String) :=
  [("CHAR", "chr($*)"),
    ("CONCAT", "concat($1::text, $2::text)"),
    ("INSERT", "substring($1 from 1 for $2 operator(pg_catalog.-) 1) || $4 || " ++
      "substring($1 from $2 operator(pg_catalog.+) $3)"),
    ("LCASE", "lower($*)"),
    ("%2LOCATE", "strpos($2,  $1)"),
    ("%3LOCATE", "strpos(substring($2 from $3), $1) operator(pg_catalog.+) $3 " ++
      "operator(pg_catalog.-) 1"),
    ("LENGTH", "char_length($*)"),
    ("SPACE", "repeat(' ', $1)"),
    ("SUBSTRING", "substr($*)"),
    ("UCASE", "upper($*)"),
    ("CEILING", "ceil($*)"),
    ("LOG", "ln($*)"),
    ("LOG10", "log($*)"),
    ("%0RAND", "random()"),
    ("%1RAND", "(setseed($1) operator(pg_catalog.*) .0 operator(pg_catalog.+) random())"),
    ("TRUNCATE", "trunc($*)"),
    ("CURRENT_DATE", "current_date"),
    ("CURRENT_TIME", "current_time"),
    ("CURRENT_TIMESTAMP", "current_timestamp"),
    ("LOCALTIME", "localtime"),
    ("LOCALTIMESTAMP", "localtimestamp"),
    ("CURRENT_USER", "cast(current_user as text)"),
    ("SESSION_USER", "cast(session_user as text)"),
    ("CURDATE", "current_date"),
    ("CURTIME", "current_time"),
    ("DAYNAME", "to_char($1, 'Day')"),
    ("DAYOFMONTH", "cast(extract(day from $1) as integer)"),
    ("DAYOFWEEK", "(cast(extract(dow from $1) as integer) operator(pg_catalog.+) 1)"),
    ("DAYOFYEAR", "cast(extract(doy from $1) as integer)"),
    ("HOUR", "cast(extract(hour from $1) as integer)"),
    ("MINUTE", "cast(extract(minute from $1) as integer)"),
    ("MONTH", "cast(extract(month from $1) as integer)"),
    ("MONTHNAME", " to_char($1, 'Month')"),
    ("QUARTER", "cast(extract(quarter from $1) as integer)"),
    ("SECOND", "cast(extract(second from $1) as integer)"),
    ("WEEK", "cast(extract(week from $1) as integer)"),
    ("YEAR", "cast(extract(year from $1) as integer)"),
    ("TIMESTAMPADD(SQL_TSI_YEAR", "($3 operator(pg_catalog.+) make_interval(years := $2))"),
    ("TIMESTAMPADD(SQL_TSI_MONTH", "($3 operator(pg_catalog.+) make_interval(months := $2))"),
    ("TIMESTAMPADD(SQL_TSI_WEEK", "($3 operator(pg_catalog.+) make_interval(weeks := $2))"),
    ("TIMESTAMPADD(SQL_TSI_DAY", "($3 operator(pg_catalog.+) make_interval(days := $2))"),
    ("TIMESTAMPADD(SQL_TSI_HOUR", "($3 operator(pg_catalog.+) make_interval(hours := $2))"),
    ("TIMESTAMPADD(SQL_TSI_MINUTE", "($3 operator(pg_catalog.+) make_interval(mins := $2))"),
    ("TIMESTAMPADD(SQL_TSI_SECOND", "($3 operator(pg_catalog.+) make_interval(secs := $2))"),
    ("TIMESTAMPADD(SQL_TSI_FRAC_SECOND", "($3 operator(pg_catalog.+) " ++
      "make_interval(secs := $2::float operator(pg_catalog./) 1000000))"),
    ("TIMESTAMPDIFF(SQL_TSI_DAY", "cast((extract(epoch from $3) operator(pg_catalog.-) " ++
      "extract(epoch from $2)) operator(pg_catalog./) (24*60*60) as int)"),
    ("TIMESTAMPDIFF(SQL_TSI_HOUR", "cast((extract(epoch from $3) operator(pg_catalog.-) " ++
      "extract(epoch from $2)) operator(pg_catalog./) 3600 as int)"),
    ("TIMESTAMPDIFF(SQL_TSI_MINUTE", "cast((extract(epoch from $3) operator(pg_catalog.-) " ++
      "extract(epoch from $2)) operator(pg_catalog./) 60 as int)"),
    ("TIMESTAMPDIFF(SQL_TSI_SECOND", "cast((extract(epoch from $3) operator(pg_catalog.-) " ++
      "extract(epoch from $2)) as int)"),
    ("TIMESTAMPDIFF(SQL_TSI_FRAC_SECOND", "mod(cast(extract(second from " ++
      "($3 operator(pg_catalog.-) $2)) as numeric), 1.0) operator(pg_catalog.*) 1000000"),
    ("IFNULL", "coalesce($*)"),
    ("USER", "cast(current_user as text)")]

/-- `stricmp(a, b) == 0`. -/
def stricmpEq (a b : List UInt8) : Bool := a.map toLower = b.map toLower

/-- Whether an entry of `mapFuncs` is for the function. -/
def mapFuncs.isFor (odbcName func : List UInt8) (paramCount : Nat) (keyword : List UInt8) : Bool :=
  if odbcName.headD 0 = 0x25 then
    (odbcName.getD 1 0).toNat = 0x30 + paramCount && stricmpEq (odbcName.drop 2) func
  else if stricmpEq odbcName func then true
  else
    let name := odbcName.takeWhile (· ≠ leftParen)
    name.length < odbcName.length && func.length = name.length && stricmpEq name func &&
      stricmpEq (odbcName.drop (name.length + 1)) keyword

/-- `mapFunction`. -/
def mapFunction (func : List UInt8) (paramCount : Nat) (keyword : List UInt8) :
    Option (List UInt8) :=
  (mapFuncs.find? fun entry ↦ mapFuncs.isFor (ascii entry.1) func paramCount keyword).map
    fun entry ↦ ascii entry.2

/-- The type names that `{fn CONVERT}` casts to. -/
def castForms : List (String × String) :=
  [("INTEGER", "int4"), ("CHAR", "varchar"), ("VARCHAR", "varchar"), ("LONGVARCHAR", "text"),
    ("WCHAR", "varchar"), ("WVARCHAR", "varchar"), ("WLONGVARCHAR", "text"),
    ("NUMERIC", "numeric"), ("DOUBLE", "float8"), ("FLOAT", "float8"), ("REAL", "float4"),
    ("BIGINT", "int8"), ("DECIMAL", "numeric"), ("SMALLINT", "int2"), ("TYPE_DATE", "date"),
    ("TYPE_TIME", "time"), ("TYPE_TIMESTAMP", "timestamp"), ("BIT", "bit")]

/-! ## The cursor and the build -/

namespace QueryParse

variable (qp : QueryParse)

/-- `F_OldNext`, as often as `p` holds. -/
def skipWhile (p : UInt8 → Bool) : QueryParse :=
  { qp with opos := qp.opos + (qp.oldPtr.takeWhile p).length }

/-- `F_OldNext`. -/
def next : QueryParse := { qp with opos := qp.opos + 1 }

/-- `F_OldPrior`. -/
def prior : QueryParse := { qp with opos := qp.opos - 1 }

/-- `F_OldChar`. -/
def oldChar : UInt8 := qp.charAt qp.opos

end QueryParse

namespace TokenBuild

variable (qb : TokenBuild)

/-- `QB_start_brace`. -/
def startBrace : TokenBuild :=
  let first := decide (qb.braceLevel = 0)
  let qb' := { qb with
    parenthesizeTheFirst := if first then decide (qb.npos ≠ 0) else qb.parenthesizeTheFirst }
  let qb' := if first ∧ qb.npos = 0 then qb' else qb'.appendData [leftParen]
  { qb' with braceLevel := qb'.braceLevel + 1 }

/-- `QB_append_space_to_separate_identifiers`. -/
def appendSpaceToSeparateIdentifiers (qp : QueryParse) : TokenBuild :=
  if qp.oldChar ≠ odbcEscapeEnd then qb
  else
    let tchar := qp.charAt (qp.opos + 1)
    if mbcsNonAscii (pgCSStat 0 tchar qb.ccsc) tchar ∨ isAlnum tchar ∨ tchar = underscore ∨
        tchar = dollarQuote then
      qb.appendData [0x20]
    else qb

/-- `QB_initialize_copy`. -/
def initializeCopy (size : Nat) (h : 0 < size) : TokenBuild :=
  { qb with
    queryStatement := []
    ext_escape := qb.ext_escape_ne
    strAlsize := size
    npos_lt := h }

/-- What `convert_escape` takes back from the copy it made. -/
def takeBack (nqb : TokenBuild) : TokenBuild :=
  { nqb with
    queryStatement := qb.queryStatement
    ext_escape := nqb.ext_escape_ne
    strAlsize := qb.strAlsize
    npos_lt := qb.npos_lt
    procReturn := qb.procReturn
    braceLevel := qb.braceLevel
    parenthesizeTheFirst := qb.parenthesizeTheFirst }

end TokenBuild

/-! ## Literals -/

/-- `sizeof(buf_small)`. -/
def bufSmallSize : Nat := 128

/-- `F_ExtractOldTo`: the bytes that are put in the buffer and the cursor behind them.  The
terminator is put behind the bytes. -/
def extractOldTo (qp : QueryParse) (ch : UInt8) (maxsize : Nat) :
    Option (List UInt8 × QueryParse) :=
  let buf := (qp.oldPtr.takeWhile fun c ↦ c ≠ 0 && c ≠ ch).take maxsize
  let qp := { qp with opos := qp.opos + buf.length }
  if qp.oldChar = 0 then none else some (buf, qp)

/-- The texts around a literal, for the keys of literals. -/
def literalForm (key : List UInt8) : Option (List UInt8 × List UInt8) :=
  if stricmpEq key (ascii "d") then some ([], ascii "::date")
  else if stricmpEq key (ascii "t") then some ([], ascii "::time")
  else if stricmpEq key (ascii "ts") then some ([], ascii "::timestamp")
  else if stricmpEq key (ascii "escape") then some (key ++ [0x20], [])
  else none

/-- The literal at the cursor. -/
def convertLiteral (qp : QueryParse) (qb : TokenBuild) (form : List UInt8 × List UInt8) :
    Option (QueryParse × TokenBuild) :=
  (extractOldTo qp odbcEscapeEnd bufSmallSize).map fun (bufSmall, qp) ↦
    (qp, (qb.appendData (form.1 ++ bufSmall ++ form.2)).appendSpaceToSeparateIdentifiers qp)

/-! ## Calls -/

/-- The loop of `findIdentifier`, behind the opening of the identifier: its length, and what is
left of the text from the character behind it on. -/
def identifierLoop (ccsc : CharSet) (dquote : Bool) : Nat → Nat → List UInt8 → Int × List UInt8
  | _, pos, [] => (if dquote then -1 else pos, [])
  | ccst, pos, tchar :: str =>
    let ccst := pgCSStat ccst tchar ccsc
    if mbcsNonAscii ccst tchar then identifierLoop ccsc dquote ccst (pos + 1) str
    else if dquote then
      if tchar = identifierQuote then
        match str with
        | d :: str' =>
          if d = identifierQuote then
            identifierLoop ccsc dquote (pgCSStat ccst d ccsc) (pos + 2) str'
          else (pos + 1, str)
        | [] => (pos + 1, [])
      else identifierLoop ccsc dquote ccst (pos + 1) str
    else if isAlnum tchar ∨ tchar = underscore ∨ tchar = dollarQuote then
      identifierLoop ccsc dquote ccst (pos + 1) str
    else (pos, tchar :: str)

/-- `isalpha`, in the C locale. -/
def isAlpha (c : UInt8) : Bool := (0x41 ≤ c && c ≤ 0x5a) || (0x61 ≤ c && c ≤ 0x7a)

/-- `findIdentifier`: the length, and the offset of the next token. -/
def findIdentifier (ccsc : CharSet) (str : List UInt8) : Int × Option Nat :=
  let found :=
    match str with
    | [] => (0, [])
    | c :: tail =>
      let ccst := pgCSStat 0 c ccsc
      if mbcsNonAscii ccst c then identifierLoop ccsc false ccst 1 tail
      else if c = identifierQuote then identifierLoop ccsc true ccst 1 tail
      else if isAlpha c then identifierLoop ccsc false ccst 1 tail
      else (0, c :: tail)
  let next := found.2.dropWhile isSpace
  (found.1, if next = [] then none else some (str.length - next.length))

/-- `{call`: the name of the procedure is at the cursor. -/
def convertCall (numIoParams : Int) (qp : QueryParse) (qb : TokenBuild) : QueryParse × TokenBuild :=
  let qb := qb.startBrace.appendData
    (if 1 < numIoParams ∨ qb.procReturn = 0 then ascii "SELECT * FROM " else ascii "SELECT ")
  match findIdentifier qb.ccsc qp.oldPtr with
  | (funclen, some next) =>
    if qp.charAt (qp.opos + next) = odbcEscapeEnd then
      ({ qp with opos := qp.opos + next },
        ((qb.appendData (qp.oldPtr.take funclen.toNat)).appendData (ascii "()")).endBrace)
    else (qp.prior, qb)
  | (_, none) => (qp.prior, qb)

/-! ## The arguments of a function -/

/-- The variables of `processParameters`.  `paramPos` holds the entries of the table that have
been written, which are the first ones. -/
structure ParamScan where
  innerParenthesis : Int
  paramCount : Nat
  paramPos : List (Int × Int)
  outputCount : Nat
  deriving DecidableEq, Repr

namespace ParamScan

variable (ps : ParamScan)

/-- `param_pos[param_count]` is set. -/
def open_ (from_ : Int) : ParamScan :=
  { ps with paramPos := ps.paramPos.take ps.paramCount ++ [(from_, -1)] }

/-- `param_pos[param_count][1]` is set, and the next entry is begun. -/
def close (to_ next : Int) : ParamScan :=
  { ps with
    paramPos := ps.paramPos.take ps.paramCount ++
      [((ps.paramPos.getD ps.paramCount (-1, -1)).1, to_), (next, -1)]
    paramCount := ps.paramCount + 1 }

/-- The switch on the character the cursor stands on; the second component is `stop`. -/
def see (c : UInt8) (newPos : Nat) : ParamScan × Bool :=
  if c = comma then
    (if ps.innerParenthesis = 1 then ps.close (newPos - 2) newPos else ps, false)
  else if c = leftParen then
    let ps' := if ps.innerParenthesis = 0 then ps.open_ newPos else ps
    ({ ps' with innerParenthesis := ps.innerParenthesis + 1 }, false)
  else if c = rightParen then
    let ps' := if ps.innerParenthesis = 1 then ps.close (newPos - 2) (-1) else ps
    ({ ps' with
      innerParenthesis := ps.innerParenthesis - 1
      outputCount := newPos }, false)
  else (ps, decide (c = odbcEscapeEnd ∧ ps.innerParenthesis = 0))

end ParamScan

/-- The bytes from `from` to `to`, both included. -/
def sliceData (text : List UInt8) (range : Int × Int) : List UInt8 :=
  (text.drop range.1.toNat).take (range.2 - range.1 + 1).toNat

/-- The loop of `processParameters`. -/
def processParametersLoop (hooks : TokenHooks) :
    Nat → QueryParse → TokenBuild → ParamScan → Option (QueryParse × TokenBuild × ParamScan)
  | 0, _, _, _ => none
  | fuel + 1, qp, qb, ps =>
    if qp.opos < qp.statement.length then
      (innerProcessTokens hooks qp qb).bind fun (qp', qb') ↦
        let oldchar := qp.oldChar
        if mbcsNonAscii (pgCSStat qp.ccst oldchar qp.ccsc) oldchar ∨ !qp'.inStatus.idle then
          processParametersLoop hooks fuel qp'.next qb' ps
        else
          let seen := ps.see qp'.oldChar qb'.npos
          if seen.2 then some (qp', qb', seen.1)
          else processParametersLoop hooks fuel qp'.next qb' seen.1
    else some (qp, qb, ps)

/-- `processParameters`, with the table and `output_count`. -/
def processParameters (hooks : TokenHooks) (qp : QueryParse) (qb : TokenBuild) :
    Option (QueryParse × TokenBuild × List (Int × Int) × Nat) :=
  (processParametersLoop hooks (qp.statement.length + 1) qp qb ⟨0, 0, [], 0⟩).bind
    fun (qp, qb, ps) ↦
      if 0 ≤ (ps.paramPos.getD ps.paramCount (-1, -1)).1 then none
      else if ps.paramCount = 1 ∧
          ¬(sliceData qb.queryStatement (ps.paramPos.getD 0 (-1, -1))).any isNotSpace then
        -- There is nothing between the parentheses.
        some (qp, qb, ps.paramPos.set 0 (-1, -1), ps.outputCount)
      else some (qp, qb, ps.paramPos, ps.outputCount)

/-! ## Templates -/

/-- What the expansion of a template ends with. -/
inductive Expansion
  | text (bs : List UInt8)
  /-- `param not found`. -/
  | notFound
  /-- `internal expression error`. -/
  | internal
  /-- An entry of the table is read that has not been written. -/
  | unwritten
  deriving DecidableEq, Repr

/-- The loop over the template. -/
def expandTemplate (text : List UInt8) (paramPos : List (Int × Int)) (paramConsumed : Nat) :
    List UInt8 → List UInt8 → Expansion
  | [], out => .text out
  | c :: mapptr, out =>
    if c ≠ dollarQuote then expandTemplate text paramPos paramConsumed mapptr (out ++ [c])
    else
      match mapptr with
      | [] => .internal
      | d :: mapptr =>
        if d = asterisk then
          expandTemplate text paramPos paramConsumed mapptr
            (out ++ sliceData text (1, paramConsumed - 2))
        else if isDigit d then
          if d.toNat - 0x30 = 0 then .notFound
          else
            match paramPos[d.toNat - 0x30 - 1]? with
            | none => .unwritten
            | some range =>
              if range.1 < 0 then .notFound
              else
                expandTemplate text paramPos paramConsumed mapptr (out ++ sliceData text range)
        else .internal

/-- `{fn CONVERT`: the value and the name of a type are the two arguments. -/
def convertCast (text : List UInt8) (value type : Int × Int) : List UInt8 :=
  let first := ((text.drop value.1.toNat).dropWhile isSpace).headD 0
  let data := sliceData text value
  if first = literalQuote then data
  else if first = hyphen ∨ isDigit first then literalQuote :: data ++ [literalQuote]
  else
    let sqltype := (sliceData text type).dropWhile isSpace
    let castForm :=
      if (sliceData text type).length < 32 ∧ sqltype.take 4 = ascii "SQL_" then
        castForms.find? fun entry ↦ ascii entry.1 = sqltype.drop 4
      else none
    leftParen :: data ++ rightParen ::
      match castForm with
      | some entry => ascii "::" ++ ascii entry.2
      | none => []

/-- The number of arguments that were found. -/
def countParams (paramPos : List (Int × Int)) : Nat :=
  let paramCount := (paramPos.takeWhile fun range ↦ 0 ≤ range.1).length
  let first := paramPos.getD 0 (-1, -1)
  if paramCount = 1 ∧ first.2 < first.1 then 0 else paramCount

/-- The first word of the first argument. -/
def keywordOf (text : List UInt8) (paramPos : List (Int × Int)) (paramCount : Nat) : List UInt8 :=
  if 0 < paramCount then
    let keyword := ((sliceData text (paramPos.getD 0 (-1, -1))).dropWhile isSpace).takeWhile isNotSpace
    if keyword.length < 64 then keyword else []
  else []

/-- What a function becomes, its arguments being rewritten in `text`. -/
def convertFunction (key text : List UInt8) (paramPos : List (Int × Int)) (paramConsumed : Nat) :
    Expansion :=
  let paramCount := countParams paramPos
  if stricmpEq key (ascii "convert") then
    if paramCount = 2 then
      .text (convertCast text (paramPos.getD 0 (-1, -1)) (paramPos.getD 1 (-1, -1)))
    -- `convert param count must be 2`.
    else .internal
  else
    match mapFunction key paramCount (keywordOf text paramPos paramCount) with
    | none => .text (key ++ text)
    | some mapExpr => expandTemplate text paramPos paramConsumed mapExpr []

/-- `{fn`: the name of the function is at the cursor. -/
def convertFn (hooks : TokenHooks) (qp : QueryParse) (qb : TokenBuild) :
    Option (QueryParse × TokenBuild) :=
  let named := qp.skipWhile fun c ↦ c ≠ leftParen && isNotSpace c
  let key := (qp.oldPtr.takeWhile fun c ↦ c ≠ leftParen && isNotSpace c).take 64
  let qp := named.skipWhile isSpace
  if qp.oldChar ≠ leftParen then some (qp, qb.appendData key)
  else
    (processParameters hooks qp (qb.initializeCopy 1024 (by decide))).bind
      fun (qp, nqb, paramPos, paramConsumed) ↦
        match convertFunction key nqb.queryStatement paramPos paramConsumed with
        | .text bs => some (qp, (qb.takeBack nqb).appendData bs)
        | _ => none

/-! ## `convert_escape` -/

/-- What escapes need of their surroundings, other than the build. -/
structure EscapeEnv where
  numIoParams : Int
  identityText : QueryParse → TokenBuild → List UInt8
  resolveValue : TokenBuild → Nat → Option (List UInt8)

/-- The escape whose key has been read; the cursor is behind the space that follows the key. -/
def convertKey (env : EscapeEnv) (hooks : TokenHooks) (key : List UInt8) (qp : QueryParse)
    (qb : TokenBuild) : Option (QueryParse × TokenBuild) :=
  if stricmpEq key (ascii "call") then some (convertCall env.numIoParams qp qb)
  else
    match literalForm key with
    | some form => convertLiteral qp qb form
    | none =>
      if stricmpEq key (ascii "oj") then some (qp.prior, qb.startBrace)
      else if stricmpEq key (ascii "fn") then convertFn hooks qp qb
      else none

/-- `convert_escape`; no result is `SQL_ERROR`.  The fuel bounds the nesting of functions. -/
def convertEscape (env : EscapeEnv) : Nat → QueryParse → TokenBuild → Option (QueryParse × TokenBuild)
  | 0, _, _ => none
  | fuel + 1, qp, qb =>
    let hooks : TokenHooks := ⟨convertEscape env fuel, env.identityText, env.resolveValue⟩
    let qp := (if qp.oldChar = odbcEscapeStart then qp.next else qp).skipWhile isSpace
    let behind := qp.next.skipWhile isSpace
    let read (qp : QueryParse) (qb : TokenBuild) :=
      let key := (qp.oldPtr.takeWhile isNotSpace).take 32
      convertKey env hooks key ((qp.skipWhile isNotSpace).skipWhile isSpace) qb
    if qp.oldChar = paramMarker then
      -- The marker of a return value.
      let qb := { qb with paramNumber := wrapInt 16 (qb.paramNumber + 1), procReturn := 1 }
      if behind.oldChar ≠ 0x3d then some (behind.prior, qb)
      else read (behind.next.skipWhile isSpace) qb
    else read qp qb

end PsqlOdbc
