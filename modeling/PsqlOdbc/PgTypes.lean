import PsqlOdbc.Convert.Interval
import PsqlOdbc.Lib.Doubling

/-!
# Column sizes and decimal digits (`pgtypes.c`)

The type modifiers come without PostgreSQL's offset of 4.  Where the modifier of a numeric column is
missing, one integer carries the longest value in its lower half and the scale in its upper half.
-/

namespace PsqlOdbc

open Lib

/-- The types that the functions tell apart. -/
inductive PgType
  | bool | bytea | char | name | int8 | int2 | int4 | text | oid | xid | cidr | float4 | float8
  | abstime | money | macaddr | inet | bpchar | varchar | date | time | timestampNoTmzone | datetime
  | interval | timeWithTmzone | timestamp | bit | numeric | refcursor | uuid | loUndefined
  | other (typeOid : ℕ)
  deriving DecidableEq

/-- `TYPE_MAY_BE_ARRAY`. -/
def PgType.mayBeArray : PgType → Bool
  | .other typeOid => typeOid = 143 ∨ 1000 ≤ typeOid ∧ typeOid ≤ 1041
  | _ => false

/-- `numeric_as`, the SQL type for numeric columns without a modifier. -/
inductive NumericAs
  | varchar | longvarchar | double | other
  deriving DecidableEq

/-- `handle_unknown_size_as`. -/
inductive UnknownsAs
  | max | dontknow | longest | other
  deriving DecidableEq

/-- What the functions read of a connection. -/
structure TypeConn where
  maxVarcharSize : Int
  maxLongvarcharSize : Int
  textAsLongvarchar : Bool
  unknownsAsLongvarchar : Bool
  boolsAsChar : Bool
  byteaAsLongvarbinary : Bool
  numericAs : NumericAs
  /-- The driver is the Unicode one, and the program is SQL Server. -/
  unicodeSqlServr : Bool
  /-- The type `lo`, which is not one of PostgreSQL's own. -/
  lobjType : PgType
  lobjType_own : lobjType = .loUndefined ∨ ∃ typeOid, lobjType = .other typeOid
  newerThan74 : Bool
  /-- `CC_get_max_idlen`. -/
  maxIdlen : Int

/-- `PG_ADT_UNSET`. -/
def adtUnset : Int := -3

/-- `maxsize` of `getCharColumnSizeX`. -/
def TypeConn.maxsize (conn : TypeConn) (type : PgType) : Int :=
  let maxsize :=
    match type with
    | .text => if conn.textAsLongvarchar = true then conn.maxLongvarcharSize else conn.maxVarcharSize
    | .varchar | .bpchar => conn.maxVarcharSize
    | _ => if conn.unknownsAsLongvarchar = true then conn.maxLongvarcharSize else conn.maxVarcharSize
  let maxsize := if conn.unicodeSqlServr = true ∧ 4000 < maxsize then 4000 else maxsize
  if maxsize = 8191 then 0 else maxsize -- `TEXT_FIELD_SIZE + 1`

/-- `getCharColumnSizeX`. -/
def getCharColumnSizeX (conn : TypeConn) (type : PgType) (atttypmod adtsizeOrLongestlen : Int)
    (handleUnknownSizeAs : UnknownsAs) : Int :=
  let maxsize := conn.maxsize type
  let p := adtsizeOrLongestlen
  if atttypmod < 0 ∧ p < 0 then maxsize
  else if handleUnknownSizeAs = .longest ∧ 0 < p ∧ (atttypmod < 0 ∨ p < atttypmod) then p
  else if type.mayBeArray = true then if 0 < p then p else maxsize
  else if 0 < atttypmod then atttypmod
  else
    match handleUnknownSizeAs with
    | .longest | .max =>
      if maxsize ≤ 0 then maxsize
      else
        match type with
        | .bpchar | .varchar | .text => maxsize
        | _ => if maxsize < p then p else maxsize
    | .dontknow | .other => -1

/-- `getNumericDecimalDigitsX`.  The upper half of the second argument is the scale. -/
def getNumericDecimalDigitsX (atttypmod adtsizeOrLongest : Int) : Int :=
  if atttypmod < 0 ∧ adtsizeOrLongest < 0 then 6
  else if -1 < atttypmod then wrapSigned 16 (atttypmod % 2 ^ 16)
  else if adtsizeOrLongest ≤ 0 then 6
  else wrapSigned 16 (adtsizeOrLongest / 2 ^ 16)

/-- `getNumericColumnSizeX`.  The lower half is the length. -/
def getNumericColumnSizeX (conn : TypeConn) (atttypmod adtsizeOrLongest : Int)
    (handleUnknownSizeAs : UnknownsAs) : Int :=
  if -1 < atttypmod then atttypmod / 2 ^ 16 % 2 ^ 16
  else
    match conn.numericAs with
    | .varchar => conn.maxVarcharSize
    | .longvarchar => conn.maxLongvarcharSize
    | .double => 17 -- `PG_DOUBLE_DIGITS`
    | .other =>
      if handleUnknownSizeAs = .dontknow then -4 -- `SQL_NO_TOTAL`
      else if adtsizeOrLongest ≤ 0 then 28
      else
        let size := adtsizeOrLongest % 2 ^ 16
        if handleUnknownSizeAs = .max then if 28 < size then size else 28
        else if size < 10 then 10 else size

/-- `getTimestampDecimalDigitsX`. -/
def getTimestampDecimalDigitsX (atttypmod : Int) : Int :=
  if -1 < atttypmod then wrapSigned 16 atttypmod else 6

/-- `getTimestampColumnSizeX`, without zones. -/
def getTimestampColumnSizeX (type : PgType) (atttypmod : Int) : Int :=
  let fixed : Int :=
    match type with
    | .time => 8
    | .timeWithTmzone => 11
    | _ => 19
  let scale := getTimestampDecimalDigitsX atttypmod
  wrapSigned 16 (if 0 < scale then fixed + 1 + scale else fixed)

/-- A bit of a type modifier. -/
def typmodBit (k : ℕ) (atttypmod : Int) : Bool := atttypmod / 2 ^ k % 2 = 1

/-- `get_interval_type`, from the bits of the fields. -/
def getIntervalType (atttypmod : Int) : Option SqlInterval :=
  let month := typmodBit 17 atttypmod
  let year := typmodBit 18 atttypmod
  let day := typmodBit 19 atttypmod
  let hour := typmodBit 26 atttypmod
  let minute := typmodBit 27 atttypmod
  let second := typmodBit 28 atttypmod
  if atttypmod = -1 then none
  else if year = true then if month = true then some .yearToMonth else some .year
  else if month = true then some .month
  else if day = true then
    if second = true then some .dayToSecond
    else if minute = true then some .dayToMinute
    else if hour = true then some .dayToHour
    else some .day
  else if hour = true then
    if second = true then some .hourToSecond
    else if minute = true then some .hourToMinute
    else some .hour
  else if minute = true then if second = true then some .minuteToSecond else some .minute
  else if second = true then some .second
  else none

/-- `getIntervalDecimalDigits`. -/
def getIntervalDecimalDigits (atttypmod : Int) : Int :=
  if typmodBit 28 atttypmod = false then 0
  else
    let prec := atttypmod % 2 ^ 16
    wrapSigned 16 (if prec = 0xffff then 6 else prec)

/-- `getIntervalColumnSize`. -/
def getIntervalColumnSize (atttypmod : Int) : Int :=
  let ttl : Int :=
    match getIntervalType atttypmod with
    | none => 25
    | some .year | some .month | some .day => 16
    | some .dayToSecond | some .dayToMinute | some .dayToHour => 25
    | some .hourToSecond | some .hourToMinute | some .hour => 17
    | some .minuteToSecond | some .minute => 15
    | some .yearToMonth => 24
    | some .second => 9
  let scale := getIntervalDecimalDigits atttypmod
  wrapSigned 16 (if 0 < scale then ttl + 1 + scale else ttl)

/-- `pgtype_attr_column_size`. -/
def pgtypeAttrColumnSize (conn : TypeConn) (type : PgType) (atttypmod adtsizeOrLongest : Int)
    (handleUnknownSizeAs : UnknownsAs) : Int :=
  match type with
  | .char => 1
  | .name | .refcursor =>
    let value := if conn.newerThan74 = true then conn.maxIdlen else 0
    if value = 0 then 64 else value -- `NAMEDATALEN_V73`
  | .int2 => 5
  | .oid | .xid | .int4 => 10
  | .int8 => 19
  | .numeric => getNumericColumnSizeX conn atttypmod adtsizeOrLongest handleUnknownSizeAs
  | .money => 10
  | .float4 => 9 -- `PG_REAL_DIGITS`
  | .float8 => 17
  | .date => 10
  | .time => 8
  | .abstime | .timestamp => 22
  | .datetime | .timestampNoTmzone => getTimestampColumnSizeX type atttypmod
  | .bool => if conn.boolsAsChar = true then 5 else 1 -- `PG_WIDTH_OF_BOOLS_AS_CHAR`
  | .macaddr => 17
  | .inet | .cidr => 50 -- with the terminator
  | .uuid => 37
  | .loUndefined => -4
  | .interval => getIntervalColumnSize atttypmod
  | _ =>
    if type = conn.lobjType then -4
    else if type = .bytea ∧ conn.byteaAsLongvarbinary = true then -4
    else getCharColumnSizeX conn type atttypmod adtsizeOrLongest handleUnknownSizeAs

/-- `pgtype_attr_decimal_digits`.  Intervals are not reported as such. -/
def pgtypeAttrDecimalDigits (type : PgType) (atttypmod adtsizeOrLongestlen : Int) : Int :=
  match type with
  | .int2 | .oid | .xid | .int4 | .int8 | .float4 | .float8 | .money | .bool => 0
  | .abstime | .timestamp => 0
  | .time | .datetime | .timestampNoTmzone => getTimestampDecimalDigitsX atttypmod
  | .numeric => getNumericDecimalDigitsX atttypmod adtsizeOrLongestlen
  | _ => -1

/-- `pgtype_attr_scale`. -/
def pgtypeAttrScale (type : PgType) (atttypmod adtsizeOrLongestlen : Int) : Int :=
  match type with
  | .numeric => getNumericDecimalDigitsX atttypmod adtsizeOrLongestlen
  | _ => -1

end PsqlOdbc
