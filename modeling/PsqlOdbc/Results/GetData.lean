import PsqlOdbc.Convert.Bin2Hex
import PsqlOdbc.Convert.Linefeeds
import PsqlOdbc.Lib.Doubling
import PsqlOdbc.WinUnicodeBuffer

/-!
# Data in parts (`convert.c`, `results.c`, `bind.c`)

`SQLGetData` gives the application a value in as many parts as it asks for.  The driver converts the
value at the first call, into a buffer of the column if it has to, and then goes on in that buffer.
There is no conversion to the encoding of the locale.
-/

namespace PsqlOdbc

open Lib CountingBuffer

/-- `fCType`, as far as `convert_text_field_to_sql_c` treats it; `INTERNAL_ASIS_TYPE` is the same as
`SQL_C_CHAR` to it. -/
inductive TextCType
  | char
  | wchar
  | binary
  deriving DecidableEq, Repr

namespace TextCType

/-- `get_terminator_len`. -/
def terminatorLen : TextCType → Nat
  | wchar => 2
  | binary => 0
  | char => 1

/-- `get_adjust_len`. -/
def adjustLen (len : Nat) : TextCType → Nat
  | wchar => len / 2 * 2
  | char | binary => len

end TextCType

/-- A value of the server, with its type. -/
structure ServerValue where
  bytea : Bool
  /-- Up to its terminator. -/
  text : List UInt8
  deriving DecidableEq, Repr

/-- `bytea_process_kind`. -/
inductive ByteaProcess
  | none
  | escape
  | binary
  deriving DecidableEq, Repr

/-- `GetDataClass`; what is in `ttlbuf` is as much as has been allocated. -/
structure GetDataClass where
  ttlbuf : Option (List UInt8)
  ttlbuflen : Nat
  ttlbufused : Nat
  dataLeft : Int
  deriving DecidableEq, Repr

/-- A column in `create_empty_gdata` and `reset_a_getdata_info`. -/
def GetDataClass.empty : GetDataClass := ⟨none, 0, 0, -1⟩

/-- `GETDATA_RESET`. -/
def GetDataClass.reset (g : GetDataClass) : GetDataClass := { g with dataLeft := -1 }

/-- What `copy_and_convert_field` returns. -/
inductive CopyResult
  | ok
  | truncated
  | noDataFound
  deriving DecidableEq, Repr

/-! ## The conversion -/

section

variable (value : ServerValue) (ctype : TextCType) (lfConv : Bool)

/-- `bytea_process_kind` and `neut_str`. -/
def byteaProcess : ByteaProcess × List UInt8 :=
  if value.bytea then
    if ctype = .binary then (.binary, value.text)
    else
      match value.text with
      | 0x5c :: x :: text =>
        if x = 0x78 ∨ x = 0x58 then (.none, text) else (.escape, value.text)
      | _ => (.escape, value.text)
  else (.none, value.text)

/-- The units of a wide text in memory. -/
def wideBytes (units : List UInt16) : List UInt8 :=
  units.flatMap fun u : UInt16 ↦ [u.toUInt8, (u >>> 8).toUInt8]

/-- `pg_bin2hex` and `pg_bin2whex` in a buffer that begins with `n` bytes. -/
def bin2hexInPlace (type : HexType) (buf : List UInt8) (n : Nat) : Option (Nat × List UInt8) :=
  if (2 * n + 1) * type.size ≤ buf.length then
    (Bin2Hex.run ⟨type, 0, 0, n, fun a ↦ buf.getD a.toNat 0⟩).map fun (len, memory) ↦
      (len.toNat, memory.read 0 buf.length)
  else none

/-- The length of the converted value, and `changed`. -/
def textEstimate : Option (Nat × Bool) :=
  let (process, neutStr) := byteaProcess value ctype
  match ctype, process with
  | .wchar, .escape =>
    (convertFromPgbinary (neutStr ++ [0]) none).map fun (n, _) ↦ (2 * (n * 2), true)
  | .wchar, _ =>
    (utf8ToUcs2LfBuffer (some neutStr) (-3) lfConv none 0 false).map fun (n, _) ↦ (2 * n, true)
  | _, .escape => (convertFromPgbinary (neutStr ++ [0]) none).map fun (n, _) ↦ (n * 2, true)
  | _, .binary => (convertFromPgbinary (neutStr ++ [0]) none).map fun (n, _) ↦ (n, true)
  | _, .none =>
    let (n, changed, _) := convertLinefeeds neutStr false 0 lfConv
    some (n, changed)

/-- The conversion into `ttlbuf`: the length, and the buffer.  What has been in the buffer is not
looked at. -/
def textFill (len ttlbuflen : Nat) (ttlbuf : Option (List UInt8)) :
    Option (Nat × Option (List UInt8)) :=
  let (process, neutStr) := byteaProcess value ctype
  match ctype, process with
  | .wchar, .escape =>
    (convertFromPgbinary (neutStr ++ [0]) ttlbuf).bind fun (n, buf) ↦
      (bin2hexInPlace .sqlwchar (buf.getD []) n).map fun (n, buf) ↦ (n, some buf)
  | .wchar, _ =>
    (utf8ToUcs2LfBuffer (some neutStr) (-3) lfConv
      (ttlbuf.map fun buf ↦ List.replicate (buf.length / 2) 0) (len / 2) false).map
        fun (_, units) ↦ (len, ttlbuf.map fun buf ↦ overwrite buf (wideBytes units))
  | _, .escape =>
    (convertFromPgbinary (neutStr ++ [0]) ttlbuf).bind fun (n, buf) ↦
      (bin2hexInPlace .char (buf.getD []) n).map fun (n, buf) ↦ (n, some buf)
  | _, .binary => convertFromPgbinary (neutStr ++ [0]) ttlbuf
  | _, .none =>
    let (_, _, out) := convertLinefeeds neutStr ttlbuf.isSome ttlbuflen lfConv
    match ttlbuf with
    | none => some (len, none)
    | some buf => if out.length ≤ buf.length then some (len, some (overwrite buf out)) else none

end

/-- What `setup_getdataclass` comes to. -/
inductive GetDataSetup
  /-- Only the length is asked for. -/
  | lengthOnly (len : Nat)
  /-- The length, what is at the pointer, and the room that the whole needs. -/
  | ready (len : Nat) (ptr : List UInt8) (needbuflen : Int) (pgdc : GetDataClass)

/-- `setup_getdataclass`. -/
def setupGetdataclass (value : ServerValue) (ctype : TextCType) (lfConv : Bool) (cbValueMax : Nat)
    (pgdc : GetDataClass) : Option GetDataSetup :=
  (textEstimate value ctype lfConv).bind fun (len, changed) ↦
    if cbValueMax = 0 then some (.lengthOnly len)
    else
      let pgdc := if pgdc.ttlbuf = none then { pgdc with ttlbuflen := 0 } else pgdc
      let needbuflen := wrapSigned 32 (len + ctype.terminatorLen)
      if changed ∨ (cbValueMax : Int) < needbuflen then
        let pgdc :=
          if (pgdc.ttlbuflen : Int) < needbuflen then
            { pgdc with
              ttlbuf := some (List.replicate
                (needbuflen.toNat + if ctype = .binary then 1 else 0) 0)
              ttlbuflen := needbuflen.toNat }
          else pgdc
        (textFill value ctype lfConv len pgdc.ttlbuflen pgdc.ttlbuf).map fun (len, ttlbuf) ↦
          .ready len (ttlbuf.getD []) needbuflen { pgdc with ttlbuf, ttlbufused := len }
      else
        some (.ready len (byteaProcess value ctype).2 needbuflen { pgdc with ttlbuf := none })

/-! ## The parts -/

/-- What the application gets: the length at `pcbValue`, and what is in its buffer. -/
structure GetDataReply where
  result : CopyResult
  length : Option Int
  piece : List UInt8
  /-- The zeros behind the piece. -/
  terminator : Nat
  deriving DecidableEq, Repr

/-- `copy_len`, when `len` bytes are left. -/
def TextCType.copyLen (ctype : TextCType) (cbValueMax len : Nat) : Nat :=
  if cbValueMax = 0 ∨ cbValueMax ≤ ctype.terminatorLen then 0
  else if cbValueMax < len + ctype.terminatorLen then
    ctype.adjustLen (cbValueMax - ctype.terminatorLen)
  else len

/-- The part that is copied. -/
def copyPart (ctype : TextCType) (cbValueMax : Nat) (len : Nat) (ptr : List UInt8)
    (needbuflen : Int) (pgdc : GetDataClass) : Option (GetDataReply × GetDataClass) :=
  let copyLen := ctype.copyLen cbValueMax len
  let pgdc := { pgdc with dataLeft := pgdc.dataLeft - copyLen }
  let truncated := 0 < cbValueMax ∧ (cbValueMax : Int) < needbuflen
  if copyLen ≤ ptr.length then
    some (⟨if truncated then .truncated else .ok, some len, ptr.take copyLen,
        min ctype.terminatorLen (cbValueMax - copyLen)⟩,
      if truncated then pgdc else { pgdc with ttlbuf := none })
  else none

/-- `convert_text_field_to_sql_c`, for a column of `SQLGetData`. -/
def convertTextFieldToSqlC (value : ServerValue) (ctype : TextCType) (lfConv : Bool)
    (cbValueMax : Nat) (pgdc : GetDataClass) : Option (GetDataReply × GetDataClass) :=
  if pgdc.dataLeft < 0 then
    (setupGetdataclass value ctype lfConv cbValueMax pgdc).bind fun
      | .lengthOnly len => some (⟨.truncated, some len, [], 0⟩, pgdc)
      | .ready len ptr needbuflen pgdc =>
        copyPart ctype cbValueMax len ptr needbuflen { pgdc with dataLeft := len }
  else
    let ptr := pgdc.ttlbuf.getD []
    if 0 < pgdc.dataLeft then
      copyPart ctype cbValueMax pgdc.dataLeft.toNat
        (ptr.drop (pgdc.ttlbufused - pgdc.dataLeft.toNat))
        (wrapSigned 32 (pgdc.dataLeft + (pgdc.ttlbuflen - pgdc.ttlbufused))) pgdc
    else copyPart ctype cbValueMax pgdc.ttlbufused ptr 0 { pgdc with dataLeft := pgdc.ttlbufused }

/-- `SQL_NULL_DATA`. -/
def sqlNullData : Int := -1

/-- `copy_and_convert_field`, as `SQLGetData` calls it; a null value is none. -/
def copyAndConvertField (value : Option ServerValue) (ctype : TextCType) (lfConv : Bool)
    (cbValueMax : Nat) (pgdc : GetDataClass) : Option (GetDataReply × GetDataClass) :=
  let pgdc :=
    if pgdc.dataLeft = -2 then { pgdc with dataLeft := if 0 < cbValueMax then 0 else -1 } else pgdc
  if pgdc.dataLeft = 0 then
    some (⟨.noDataFound, none, [], 0⟩,
      { pgdc with
        ttlbuf := none
        ttlbuflen := if pgdc.ttlbuf = none then pgdc.ttlbuflen else 0
        dataLeft := -2 })
  else
    match value with
    | none => some (⟨.ok, some sqlNullData, [], 0⟩, pgdc)
    | some value =>
      (convertTextFieldToSqlC value ctype lfConv cbValueMax pgdc).map fun (reply, pgdc) ↦
        (reply, if reply.result = .ok then { pgdc with dataLeft := 0 } else pgdc)

/-! ## The statement -/

/-- A statement, as far as `SQLGetData` reads it. -/
structure GetStatement where
  currentCol : Option Nat
  /-- `opts->allocated`. -/
  allocated : Nat
  gdata : List GetDataClass
  lfConversion : Bool
  /-- The values of the row that the cursor is at. -/
  row : Option (List (Option ServerValue))
  deriving DecidableEq, Repr

namespace GetStatement

variable (stmt : GetStatement)

/-- `SC_set_current_col`, with the column behind it. -/
def scSetCurrentCol (col : Option Nat) : GetStatement :=
  if col = stmt.currentCol then stmt
  else
    { stmt with
      currentCol := col
      gdata := col.elim stmt.gdata fun col ↦ stmt.gdata.set col .empty }

/-- `extend_getdata_info`. -/
def extendGetdataInfo : GetStatement :=
  { stmt with
    gdata := stmt.gdata.take stmt.allocated ++
      List.replicate (stmt.allocated - stmt.gdata.length) .empty }

end GetStatement

/-- What an application does with a statement. -/
inductive GetDataCall
  /-- `SQLGetData`, with the number of the column from zero on. -/
  | getData (icol : Nat) (ctype : TextCType) (cbValueMax : Nat)
  /-- `SQLFetch`: whether a column is bound, and the row if there is one. -/
  | fetch (bound retrieveData : Bool) (row : Option (List (Option ServerValue)))
  /-- `SQLSetPos`. -/
  | setPos (row : List (Option ServerValue))

/-- What comes back. -/
inductive GetDataAnswer
  | done
  | refused
  | data (reply : GetDataReply)
  deriving DecidableEq, Repr

namespace GetStatement

variable (stmt : GetStatement)

/-- `PGAPI_GetData`. -/
def pgapiGetData (icol : Nat) (ctype : TextCType) (cbValueMax : Nat) :
    Option (GetDataAnswer × GetStatement) :=
  match stmt.row with
  | none => some (.refused, stmt)
  | some row =>
    match row[icol]? with
    | none => some (.refused, stmt)
    | some value =>
      let stmt := stmt.scSetCurrentCol (some icol)
      if stmt.allocated ≤ icol then some (.refused, stmt)
      else
        let stmt := if stmt.gdata.length = stmt.allocated then stmt else stmt.extendGetdataInfo
        stmt.gdata[icol]?.bind fun pgdc ↦
          (copyAndConvertField value ctype stmt.lfConversion cbValueMax pgdc).map
            fun (reply, pgdc) ↦ (.data reply, { stmt with gdata := stmt.gdata.set icol pgdc })

/-- A call. -/
def step : GetDataCall → Option (GetDataAnswer × GetStatement)
  | .getData icol ctype cbValueMax => stmt.pgapiGetData icol ctype cbValueMax
  | .fetch bound retrieveData row =>
    match row with
    | none => some (.done, { stmt with row := none })
    | some values =>
      if retrieveData then
        let allocated := max stmt.allocated values.length
        let stmt := { stmt with allocated, row := some values }
        let stmt := if stmt.gdata.length = allocated then stmt else stmt.extendGetdataInfo
        some (.done,
          { stmt with
            currentCol := if bound then none else stmt.currentCol
            gdata := stmt.gdata.mapIdx fun lf pgdc ↦
              if lf < values.length then pgdc.reset else pgdc })
      else some (.done, { stmt with row := some values })
  | .setPos row =>
    some (.done, { stmt with row := some row, gdata := stmt.gdata.map GetDataClass.reset })

/-- One call after the other. -/
def run : GetStatement → List GetDataCall → Option (List GetDataAnswer × GetStatement)
  | stmt, [] => some ([], stmt)
  | stmt, call :: calls =>
    (stmt.step call).bind fun (answer, stmt) ↦
      (stmt.run calls).map fun (answers, stmt) ↦ (answer :: answers, stmt)

end GetStatement

end PsqlOdbc
