import PsqlOdbc.DiagField
import PsqlOdbc.DiagRecW

/-!
# Wide texts (`odbcapiw.c`, `odbcapi30w.c`)

Six functions of the application ask a narrow one for a text, with room for three bytes to each unit
that the application has room for, ask again if it is longer, and convert it.  They differ in the
integers they count with, in whether they count units or bytes, and in how they compare.
`WideCall.Right` is what the application may expect of each of them.
-/

namespace PsqlOdbc

open Lib Lib.CountingBuffer

/-! ## The narrow functions -/

/-- `strncpy_null`; no result if it stores behind the memory. -/
def strncpyNull (dst src : List UInt8) (len : Int) : Option (List UInt8) :=
  if 0 < len then storeAll dst 0 (src.take (len - 1).toNat ++ [0]) else some dst

/-- What a narrow function stores and returns. -/
structure NarrowReply where
  /-- The memory for the text. -/
  text : List UInt8
  length : Int
  retcode : Retcode

/-- A text whose length is a `size_t`; its length is stored in an integer of `bits` bits. -/
def narrowText (bits : Nat) (text mem : List UInt8) (max : Int) : Option NarrowReply :=
  (strncpyNull mem text max).map fun mem ↦
    { text := mem
      length := wrapSigned bits text.length
      retcode :=
        if wrapUnsigned 64 max ≤ text.length then .successWithInfo else .success }

/-- `PGAPI_DescribeCol`, with `col_name`. -/
def pgapiDescribeCol (colName szColName : List UInt8) (cbColNameMax : Int) : Option NarrowReply :=
  let len := wrapSigned 32 colName.length
  if 0 < cbColNameMax then
    (strncpyNull szColName colName cbColNameMax).map fun szColName ↦
      { text := szColName
        length := wrapSigned 16 len
        retcode := if cbColNameMax ≤ len then .successWithInfo else .success }
  else some ⟨szColName, wrapSigned 16 len, .success⟩

/-- `PGAPI_GetCursorName`. -/
def pgapiGetCursorName (cursorName szCursor : List UInt8) (cbCursorMax : Int) :
    Option NarrowReply :=
  narrowText 16 cursorName szCursor cbCursorMax

/-- `PGAPI_NativeSql`. -/
def pgapiNativeSql (ptr szSqlStr : List UInt8) (cbSqlStrMax : Int) : Option NarrowReply :=
  narrowText 32 ptr szSqlStr cbSqlStrMax

/-- `PGAPI_ColAttributes`, with the text `p` of the attribute. -/
def pgapiColAttributes (p rgbDesc : List UInt8) (cbDescMax : Int) : Option NarrowReply :=
  narrowText 16 p rgbDesc cbDescMax

/-- The descriptors with texts. -/
inductive ImpDesc
  | ird
  | ipd
  deriving DecidableEq

/-- `IRDGetField`, of a text. -/
def irdGetField (p value : List UInt8) (bufferLength : Int) : Option NarrowReply :=
  pgapiColAttributes p value (wrapSigned 16 bufferLength)

/-- `IPDGetField`, of `SQL_DESC_NAME`. -/
def ipdGetField (ptr value : List UInt8) (bufferLength : Int) : Option NarrowReply :=
  let len := wrapSigned 32 ptr.length
  (strncpyNull value ptr bufferLength).map fun value ↦
    { text := value
      length := len
      retcode := if bufferLength ≤ len then .successWithInfo else .success }

/-- `PGAPI_GetDescField`, of a text. -/
def pgapiGetDescField : ImpDesc → List UInt8 → List UInt8 → Int → Option NarrowReply
  | .ird => irdGetField
  | .ipd => ipdGetField

/-- `PGAPI_EnvError`, asked for the message. -/
def pgapiEnvError (msg szErrorMsg : List UInt8) (cbErrorMsgMax : Int) : Option NarrowReply :=
  if cbErrorMsgMax < 0 then some ⟨szErrorMsg, 0, .error⟩
  else (strncpyNull szErrorMsg msg cbErrorMsgMax).map fun szErrorMsg ↦
    ⟨szErrorMsg, wrapSigned 16 msg.length, .success⟩

/-- The end of `PGAPI_GetDiagField`, for a text of the length `rtnlen`. -/
def diagTextEnd (rtnlen : Nat) (bufferLength : Int) (diagInfo : List UInt8) (ret : Retcode) :
    Option NarrowReply :=
  if bufferLength ≤ rtnlen then
    (if 0 < bufferLength then store diagInfo (bufferLength - 1).toNat 0 else some diagInfo).map
      fun diagInfo ↦
        ⟨diagInfo, wrapSigned 16 rtnlen, if ret = .success then .successWithInfo else ret⟩
  else some ⟨diagInfo, wrapSigned 16 rtnlen, ret⟩

/-- Where the text of a diagnostic field comes from. -/
inductive DiagSource
  /-- `SQL_DIAG_SERVER_NAME`, and with an empty text `SQL_DIAG_CLASS_ORIGIN` and the like. -/
  | serverName
  | sqlstate
  /-- The first message of a statement, or the message of a connection. -/
  | message (handle : DiagHandle)
  /-- The message of an environment. -/
  | envMessage

namespace DiagSource

/-- The call for the message. -/
def request (diagInfo : List UInt8) (bufferLength : Int) : ErrorRequest :=
  ⟨1, false, false, some diagInfo, Int16.ofInt bufferLength, true, false⟩

/-- `PGAPI_GetDiagField`, with the text, where a handle does not have it.  The first record does not
depend on what has been asked for before, so the handle stays as it is. -/
def pgapiGetDiagField (text diagInfo : List UInt8) (bufferLength : Int) :
    DiagSource → Option NarrowReply
  | .serverName => (strncpyNull diagInfo text bufferLength).bind fun diagInfo ↦
      diagTextEnd text.length bufferLength diagInfo
        (if (text.length : Int) < bufferLength then .success else .successWithInfo)
  | .sqlstate => (strncpyNull diagInfo text 6).bind fun diagInfo ↦
      diagTextEnd 5 bufferLength diagInfo .success
  | .message handle => (handle.pgapiGetDiagRec (request diagInfo bufferLength)).map
      fun (_, reply) ↦
        { text := reply.szErrorMsg.getD diagInfo
          length := (reply.pcbErrorMsg.map (·.toInt)).getD 0
          retcode := reply.retcode }
  | .envMessage => pgapiEnvError text diagInfo bufferLength

end DiagSource

/-! ## The loop around them -/

/-- The integers that sizes and lengths are kept in. -/
inductive SizeType
  /-- `SQLSMALLINT`: what is assigned wraps around. -/
  | smallint
  /-- `SQLINTEGER`: it is what the arithmetic is done with, and must not overflow. -/
  | integer
  deriving DecidableEq

namespace SizeType

def bits : SizeType → Nat
  | smallint => 16
  | integer => 32

/-- The value of an expression that is assigned. -/
def assign (x : Int) : SizeType → Option Int
  | smallint => some (wrapSigned 16 x)
  | integer => if -2 ^ 31 ≤ x ∧ x < 2 ^ 31 then some x else none

end SizeType

/-- What a call finds around it. -/
structure WideEnv where
  /-- What is in new memory of some size. -/
  fresh : ℕ → List UInt8
  length_fresh : ∀ n, (fresh n).length = n
  locale : LocaleToSqlwchar

namespace WideEnv

variable (env : WideEnv)

/-- `realloc`.  A negative size is too large a `size_t`. -/
def realloc (mem : List UInt8) (size : Int) : Option (List UInt8) :=
  if size < 0 then none else some (mem.take size.toNat ++ env.fresh (size.toNat - mem.length))

/-- `malloc`. -/
def malloc (size : Int) : Option (List UInt8) := env.realloc [] size

/-- The loop around a narrow function, for some rounds: its reply, and the size at the end.  The
memory is none if there was none to get. -/
def narrowLoop (type : SizeType) (narrow : List UInt8 → Int → Option NarrowReply) :
    ℕ → Option (List UInt8) → Int → Option (NarrowReply × Int)
  | 0, _, _ => none
  | _ + 1, none, buflen => some (⟨[], 0, .error⟩, buflen)
  | rounds + 1, some mem, buflen =>
    (narrow mem buflen).bind fun reply ↦
      if reply.retcode ≠ .successWithInfo ∨ reply.length < buflen then some (reply, buflen)
      else (type.assign (reply.length + 1)).bind fun buflen ↦
        narrowLoop type narrow rounds (env.realloc reply.text buflen) buflen

end WideEnv

/-! ## The wide functions, for positive sizes of the buffer -/

/-- What the application gets. -/
structure WideTextReply where
  retcode : Retcode
  /-- Its memory. -/
  buffer : List UInt16
  length : Option Int
  deriving DecidableEq

/-- `SQL_SUCCEEDED`. -/
def Retcode.succeeded (ret : Retcode) : Bool := ret = .success ∨ ret = .successWithInfo

namespace NarrowReply

variable (reply : NarrowReply) (type : SizeType) (max : Int) (buffer : List UInt16)

/-- The functions that count units. -/
def widenUnits (buflen : Int) : Option WideTextReply :=
  if reply.retcode.succeeded = true then
    let nmcount : Option (Int × List UInt16) :=
      if reply.length < buflen then
        (utf8ToUcs2LfBuffer (some reply.text) reply.length false (some buffer) max.toNat false).map
          fun (count, buffer) ↦ ((count : Int), buffer)
      else some (reply.length, buffer)
    nmcount.map fun (nmcount, buffer) ↦
      { retcode :=
          if reply.retcode = .success ∧ max < nmcount then .successWithInfo else reply.retcode
        buffer := buffer
        length := some (wrapSigned type.bits nmcount) }
  else some ⟨reply.retcode, buffer, none⟩

/-- What the functions that count bytes return for `blen` units. -/
def tellBytes (blen : Int) (buffer : List UInt16) : WideTextReply where
  retcode :=
    if reply.retcode = .success ∧ wrapUnsigned 64 max ≤ wrapUnsigned 64 (blen * 2) then
      .successWithInfo
    else reply.retcode
  buffer := buffer
  length := some (wrapSigned type.bits (blen * 2))

/-- The functions that count bytes. -/
def widenBytes : Option WideTextReply :=
  if reply.retcode.succeeded = true then
    (utf8ToUcs2LfBuffer (some reply.text) reply.length false (some buffer) (max / 2).toNat
      false).map fun (count, buffer) ↦
        reply.tellBytes type max (wrapSigned type.bits count) buffer
  else some ⟨reply.retcode, buffer, none⟩

/-- `SQLGetDiagFieldW` takes what is not UTF-8 for text of the locale. -/
def widenDiag (locale : LocaleToSqlwchar) : Option WideTextReply :=
  if reply.retcode.succeeded = true then
    (utf8ToUcs2LfBuffer (some reply.text) reply.length false (some buffer) (max / 2).toNat
      true).map fun (count, buffer) ↦
        let ulen := wrapSigned 16 count
        if ulen = -1 then
          let (l, units) := locale.convert (reply.text.takeWhile (· ≠ 0)) (max / 2).toNat
          reply.tellBytes .smallint max (wrapSigned 16 l) (overwrite buffer units)
        else reply.tellBytes .smallint max ulen buffer
  else some ⟨reply.retcode, buffer, none⟩

end NarrowReply

section

variable (env : WideEnv) (rounds : ℕ) (text : List UInt8) (max : Int) (buffer : List UInt16)

/-- `SQLDescribeColW`, of a column with the name `text`. -/
def sqlDescribeColW : Option WideTextReply :=
  let buflen := wrapSigned 16 (max * 3)
  let clNamet := if 0 < buflen then env.malloc buflen else none
  (env.narrowLoop .smallint (pgapiDescribeCol text) rounds clNamet buflen).bind
    fun (reply, buflen) ↦ reply.widenUnits .smallint max buffer buflen

/-- `SQLGetCursorNameW`. -/
def sqlGetCursorNameW : Option WideTextReply :=
  let buflen := wrapSigned 16 (max * 3)
  (env.narrowLoop .smallint (pgapiGetCursorName text) rounds (env.malloc buflen) buflen).bind
    fun (reply, buflen) ↦ reply.widenUnits .smallint max buffer buflen

/-- `SQLNativeSqlW`. -/
def sqlNativeSqlW : Option WideTextReply :=
  (SizeType.integer.assign (3 * max)).bind fun buflen ↦
    let szOutt := if 0 < buflen then env.malloc buflen else none
    (env.narrowLoop .integer (pgapiNativeSql text) rounds szOutt buflen).bind
      fun (reply, buflen) ↦ reply.widenUnits .integer max buffer buflen

/-- `SQLGetDescFieldW`, of a text. -/
def sqlGetDescFieldW (desc : ImpDesc) : Option WideTextReply :=
  (SizeType.integer.assign (max * 3)).bind fun size ↦
    let bMax := wrapSigned 32 (wrapUnsigned 64 size / 2)
    (env.narrowLoop .integer (pgapiGetDescField desc text) rounds (env.malloc (bMax + 1)) bMax).bind
      fun (reply, _) ↦ reply.widenBytes .integer max buffer

/-- `SQLColAttributeW`, of a text. -/
def sqlColAttributeW : Option WideTextReply :=
  let bMax := wrapSigned 16 (wrapUnsigned 64 (max * 3) / 2)
  (env.narrowLoop .smallint (pgapiColAttributes text) rounds (env.malloc bMax) bMax).bind
    fun (reply, _) ↦ reply.widenBytes .smallint max buffer

/-- `SQLGetDiagFieldW`, of a text. -/
def sqlGetDiagFieldW (source : DiagSource) : Option WideTextReply :=
  let bMax := wrapSigned 16 (wrapUnsigned 64 (max * 3) / 2 + 1)
  (env.narrowLoop .smallint (source.pgapiGetDiagField text · ·) rounds (env.malloc bMax) bMax).bind
    fun (reply, _) ↦ reply.widenDiag max buffer env.locale

end

/-! ## What the application may expect -/

/-- The wide functions. -/
inductive WideFunction
  | describeCol
  | getCursorName
  | nativeSql
  | getDescField (desc : ImpDesc)
  | colAttribute
  | getDiagField (source : DiagSource)

/-- A handle has the message. -/
def DiagHandle.Holds (text : List UInt8) : DiagHandle → Prop
  | .stmt self => text ≠ [] ∧ ∃ error, self.errorinfo = some error ∧
      error.errsize.toNat = text.length ∧ ∃ rest, error.errorMessage = text ++ 0 :: rest
  | .dbc conn => conn.ccGetError = some text

namespace WideFunction

/-- The text that the function gives. -/
def Gives (text : List UInt8) : WideFunction → Prop
  | getDiagField (.message handle) => handle.Holds text
  | getDiagField .sqlstate => text.length = 5
  | _ => True

/-- The type of the buffer length. -/
def type : WideFunction → SizeType
  | nativeSql | getDescField _ => .integer
  | _ => .smallint

/-- What the function counts in: units, or two bytes for each. -/
def unit : WideFunction → Int
  | describeCol | getCursorName | nativeSql => 1
  | _ => 2

def run (env : WideEnv) (rounds : ℕ) (text : List UInt8) (max : Int) (buffer : List UInt16) :
    WideFunction → Option WideTextReply
  | describeCol => sqlDescribeColW env rounds text max buffer
  | getCursorName => sqlGetCursorNameW env rounds text max buffer
  | nativeSql => sqlNativeSqlW env rounds text max buffer
  | getDescField desc => sqlGetDescFieldW env rounds text max buffer desc
  | colAttribute => sqlColAttributeW env rounds text max buffer
  | getDiagField source => sqlGetDiagFieldW env rounds text max buffer source

end WideFunction

/-- A call with a buffer, for a text. -/
structure WideCall where
  function : WideFunction
  text : List Char
  noNul : Char.ofNat 0 ∉ text
  given : function.Gives (utf8Encode text)
  max : Int
  pos : 0 < max
  lt : max < 2 ^ (function.type.bits - 1)
  buffer : List UInt16
  room : max / function.unit ≤ buffer.length

namespace WideCall

variable (call : WideCall)

/-- The units that there is room for. -/
def capacity : ℕ := (call.max / call.function.unit).toNat

/-- The length of the text in units. -/
def units : ℕ := (utf16Encode call.text).length

/-- And in bytes. -/
def bytes : ℕ := (utf8Encode call.text).length

/-- There is room for the text and the terminator. -/
def Fits : Prop := call.units < call.capacity

instance : Decidable call.Fits := inferInstanceAs (Decidable (_ < _))

/-- A reply that follows the rule for buffers. -/
structure Follows (reply : WideTextReply) : Prop where
  retcode : reply.retcode = if call.Fits then .success else .successWithInfo
  /-- As much of the text as there is room for in front of the terminator.  Behind the buffer the
  memory is as before. -/
  stored : reply.buffer =
    if call.capacity = 0 then call.buffer
    else overwrite call.buffer ((utf16Encode call.text).take (call.capacity - 1) ++ [0])
  told : reply.length = some (call.units * call.function.unit)

/-- The function follows it, whatever is in new memory and whatever the locale is. -/
def Right : Prop :=
  ∀ env, ∃ least, ∀ rounds ≥ least, ∃ reply,
    call.function.run env rounds (utf8Encode call.text) call.max call.buffer = some reply ∧
      call.Follows reply

/-- There is no room for a unit, and the text is not empty.  Its length in bytes can be counted, and
that of the units can be told. -/
structure NoRoom (counts tells : SizeType) : Prop where
  capacity : call.capacity = 0
  units : 1 ≤ call.units
  counted : (call.bytes : Int) + 1 < 2 ^ (counts.bits - 1)
  told : (call.units * 2 : Int) < 2 ^ (tells.bits - 1)

/-- The sizes that the function works with are right, and there is room. -/
def Meets : Prop :=
  match call.function with
  | .describeCol | .getCursorName =>
    0 < wrapSigned 16 (call.max * 3) ∧ call.Fits ∧ (call.bytes : Int) + 1 < 2 ^ 15
  | .nativeSql => call.max * 3 < 2 ^ 31 ∧ call.Fits
  | .getDescField .ird => call.max * 3 < 2 ^ 31 ∧
      (call.Fits ∧ (call.bytes < wrapSigned 16 (call.max * 3 / 2) ∨
        call.bytes = 0 ∧ wrapSigned 16 (call.max * 3 / 2) < 0) ∨ call.NoRoom .smallint .integer)
  | .getDescField .ipd => call.max * 3 < 2 ^ 31 ∧ (call.Fits ∨ call.NoRoom .integer .integer)
  | .colAttribute => call.max * 3 / 2 < 2 ^ 15 ∧ (call.Fits ∨ call.NoRoom .smallint .smallint)
  | .getDiagField .serverName =>
    call.max * 3 / 2 + 1 < 2 ^ 15 ∧ (call.Fits ∨ call.NoRoom .smallint .smallint)
  | .getDiagField _ =>
    call.max * 3 / 2 + 1 < 2 ^ 15 ∧ (call.Fits ∨ call.capacity = 0 ∧ call.bytes = 1)

end WideCall

end PsqlOdbc
