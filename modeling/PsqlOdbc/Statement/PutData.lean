import PsqlOdbc.Convert.Pgbinary
import PsqlOdbc.Convert.ProcessTokens
import PsqlOdbc.Lib.Doubling
import PsqlOdbc.Lib.Stores
import PsqlOdbc.Lib.Strtol
import PsqlOdbc.Statement.BatchExecute

/-!
# The data of a parameter in pieces (`execute.c`, `PGAPI_PutData`)

The first call for a parameter stores its piece of the data in new memory, or writes it to a new
large object, and the next ones append theirs.  `PutsRight` is what the application may expect of a
sequence of calls.
-/

namespace PsqlOdbc

open Lib Lib.CountingBuffer

/-! ## The driver -/

/-- The C type of a parameter, behind `sqltype_to_default_ctype`. -/
inductive PutCType
  | char
  | wchar
  | binary
  /-- A type of a fixed length, `ctype_length`. -/
  | fixed (length : Nat)
  deriving DecidableEq, Repr

/-- What `PGAPI_PutData` uses of a parameter. -/
structure PutParam where
  ctype : PutCType
  /-- The parameter has the type `lobj_type`. -/
  handlingLo : Bool

/-- What it changes. -/
structure PutState where
  putData : Bool
  /-- `*EXEC_used`, if there is one. -/
  execUsed : Option Int
  /-- The memory of `EXEC_buffer`. -/
  execBuffer : Option (List UInt8)
  /-- `lobj_fd` is a descriptor. -/
  lobjOpen : Bool
  /-- What the server has got for the large object. -/
  written : List UInt8
  deriving DecidableEq

/-- Behind `SQLParamData`. -/
def PutState.fresh : PutState := ⟨false, none, none, false, []⟩

/-- A call. -/
structure PutCall where
  cbValue : Int
  /-- The memory from `rgbValue` on. -/
  memory : List UInt8
  /-- The connection is in a transaction, or `CC_begin` succeeds. -/
  begins : Bool
  /-- `odbc_lo_creat` returns an object. -/
  creates : Bool
  /-- `odbc_lo_open` returns a descriptor. -/
  opens : Bool
  /-- The server executes `lowrite`. -/
  writes : Bool

/-- `ucs2strlen`, of units in two bytes. -/
def ucs2strlenBytes : List UInt8 → Nat
  | a :: b :: rest => if a = 0 ∧ b = 0 then 0 else ucs2strlenBytes rest + 1
  | _ => 0

/-- `putlen`. -/
def putlen (ctype : PutCType) (call : PutCall) : Int :=
  if call.cbValue = -3 ∧ ctype = .wchar then 2 * ucs2strlenBytes call.memory
  else if call.cbValue = -3 ∧ ctype = .char then strlen call.memory
  else if call.cbValue < 0 then call.cbValue
  else
    match ctype with
    | .char => call.cbValue
    | .wchar => call.cbValue
    | .binary => call.cbValue
    | .fixed length => length

/-- `odbc_lo_write`: nothing is written if the descriptor is not one. -/
def odbcLoWrite (writes : Bool) (buf : List UInt8) (len : Int) (s : PutState) : PutState :=
  { s with
    written :=
      if 0 < len ∧ s.lobjOpen = true ∧ writes = true then s.written ++ buf.take len.toNat
      else s.written }

/-- `memcpy` of `n` bytes behind the place `i`, and a terminator behind them.  There is no result if
this is outside of the memory. -/
def copyPiece (cells : List UInt8) (i : Int) (putbuf : List UInt8) (n : Nat) :
    Option (List UInt8) :=
  if i < 0 ∨ putbuf.length < n then none
  else (storeAll cells i.toNat (putbuf.take n)).bind fun cells ↦ store cells (i.toNat + n) 0

/-- `realloc`.  What is in the memory behind the old one does not matter. -/
def reallocCells (cells : Option (List UInt8)) (size : Nat) : List UInt8 :=
  let cells := (cells.getD []).take size
  cells ++ List.replicate (size - cells.length) 0

/-- The first call, with `putbuf` and `putlen`. -/
def putFirst (param : PutParam) (call : PutCall) (putbuf : List UInt8) (putlen : Int)
    (s : PutState) : Option (Retcode × PutState) :=
  let s := { s with putData := true, execUsed := some putlen }
  if call.cbValue = -1 then some (.success, s)
  else if param.handlingLo then
    if call.begins = false then some (.error, s)
    else if call.creates = false then some (.error, s)
    else
      let s := { s with lobjOpen := call.opens }
      if call.opens = false then some (.error, s)
      else some (.success, odbcLoWrite call.writes putbuf (wrapInt 32 putlen) s)
  else if putlen + 1 < 0 then some (.error, s) -- No memory has such a size.
  else
    (copyPiece (List.replicate (putlen + 1).toNat 0) 0 putbuf putlen.toNat).map fun cells ↦
      (.success, { s with execBuffer := some cells })

/-- Another call. -/
def putNext (param : PutParam) (call : PutCall) (putbuf : List UInt8) (putlen : Int)
    (s : PutState) : Option (Retcode × PutState) :=
  s.execUsed.bind fun oldPos ↦
    if param.handlingLo then
      some (.success, { odbcLoWrite call.writes putbuf (wrapInt 32 putlen) s with
        execUsed := some (oldPos + putlen) })
    else if 0 < putlen then
      (doubleUntil (wrapSigned 64) (oldPos + putlen + 1) 64 16).bind fun allocsize ↦
        (copyPiece (reallocCells s.execBuffer allocsize.toNat) oldPos putbuf putlen.toNat).map
          fun cells ↦
            (.success, { s with execUsed := some (oldPos + putlen), execBuffer := some cells })
    else some (.error, s)

/-- `putbuf` and `putlen` of a large object that is given in hexadecimal digits. -/
def hexPiece (memory : List UInt8) (putlen : Int) : Option (List UInt8 × Int) :=
  let size := putlen.tdiv 2 + 1
  if size < 0 then some (memory, putlen)
  else (pgHex2bin memory (List.replicate size.toNat 0) 0 putlen.toNat).map
    fun allocbuf ↦ (allocbuf, putlen.tdiv 2)

/-- `PGAPI_PutData` for the current parameter.  There is no result if it goes outside of a
buffer. -/
def pgapiPutData (param : PutParam) (call : PutCall) (s : PutState) :
    Option (Retcode × PutState) :=
  let putlen := putlen param.ctype call
  (if param.handlingLo ∧ param.ctype = .char then hexPiece call.memory putlen
    else some (call.memory, putlen)).bind fun (putbuf, putlen) ↦
      if s.putData = false then putFirst param call putbuf putlen s
      else putNext param call putbuf putlen s

/-! ## What the application is promised -/

/-- The piece that a call supplies; `SQL_NTS` says nothing about the end of binary data. -/
def PutCall.piece (ctype : PutCType) (call : PutCall) : Option (List UInt8) :=
  if call.cbValue = -3 then
    match ctype with
    | .char => some (call.memory.takeWhile (· ≠ 0))
    | .wchar => some (call.memory.take (2 * ucs2strlenBytes call.memory))
    | .binary => none
    | .fixed _ => none
  else some (call.memory.take call.cbValue.toNat)

/-- `SQL_NTS`, or a length up to which there is memory. -/
def PutCall.Given (call : PutCall) : Prop :=
  call.cbValue = -3 ∨ 0 ≤ call.cbValue ∧ call.cbValue ≤ call.memory.length

/-- Pieces of a character, wide or binary type, or `SQL_NULL_DATA` in the first call. -/
def CallsGiven (param : PutParam) (calls : List PutCall) : Prop :=
  (∀ length, param.ctype ≠ .fixed length) ∧
    (∀ call ∈ calls.head?, call.cbValue = -1 ∨ call.Given) ∧ ∀ call ∈ calls.tail, call.Given

/-- The data that has been supplied. -/
inductive PutValue
  | nothing
  | null
  | data (text : List UInt8)
  deriving DecidableEq

/-- A text in hexadecimal digits; a digit that is left over stands for nothing. -/
def hexDecode : List UInt8 → List UInt8
  | high :: low :: rest => UInt8.ofNat (16 * digitValue high + digitValue low) :: hexDecode rest
  | _ => []

def isHexText (text : List UInt8) : Bool := text.all fun c ↦ decide (digitValue c < 16)

/-- What is stored: the value and its length, and a terminator behind it. -/
def Stores (param : PutParam) (text : List UInt8) (s : PutState) : Prop :=
  if param.handlingLo then
    s.execUsed = some (s.written.length : Int) ∧
      if param.ctype = .char then isHexText text = true → s.written = hexDecode text
      else s.written = text
  else
    s.execUsed = some (text.length : Int) ∧
      ∃ behind, s.execBuffer = some (text ++ 0 :: behind)

/-- The value that is stored, and its length. -/
def PutState.stored (s : PutState) : Option Int × Option (List UInt8) × List UInt8 :=
  (s.execUsed, s.execBuffer, s.written)

/-- The data behind a call. -/
def PutValue.next (ctype : PutCType) (call : PutCall) (retval : Retcode) : PutValue → PutValue
  | .null => .null
  | .nothing =>
    if retval = .error then .nothing
    else if call.cbValue = -1 then .null
    else
      match call.piece ctype with
      | none => .nothing
      | some piece => .data piece
  | .data text =>
    if retval = .error then .data text else .data (text ++ (call.piece ctype).getD [])

/-- A call that is refused, supplies nothing, or comes behind `SQL_NULL_DATA`, leaves what is
stored; otherwise its piece is stored behind the others. -/
def CallRight (param : PutParam) (call : PutCall) (value : PutValue) (s : PutState)
    (retval : Retcode) (s' : PutState) : Prop :=
  if value = .null ∨ retval = .error ∨ call.cbValue ≠ -1 ∧ call.piece param.ctype = none then
    s'.stored = s.stored
  else
    match value.next param.ctype call retval with
    | .data text => Stores param text s'
    | _ => True

/-- No call of a sequence goes outside of a buffer, and each is as it should be. -/
def PutsRight (param : PutParam) : PutValue → List PutCall → PutState → Prop
  | _, [], _ => True
  | value, call :: calls, s =>
    match pgapiPutData param call s with
    | none => False
    | some (retval, s') =>
      CallRight param call value s retval s' ∧
        PutsRight param (value.next param.ctype call retval) calls s'

/-! ## The condition -/

/-- The number of bytes that a piece is for a large object. -/
def loLength (param : PutParam) (piece : List UInt8) : Nat :=
  if param.ctype = .char then piece.length / 2 else piece.length

/-- The length fits into an `Int4`, and the server executes what is written. -/
def WriteFine (param : PutParam) (call : PutCall) (piece : List UInt8) : Prop :=
  loLength param piece < 2 ^ 31 ∧ (loLength param piece = 0 ∨ call.writes = true)

/-- A piece begins with a whole byte; otherwise the digits have to be all the same. -/
def DigitsFit (text piece : List UInt8) : Prop :=
  text.length % 2 = 0 ∨ piece = [] ∨
    piece.length % 2 = 0 ∧ ∀ c ∈ piece, digitValue c = digitValue (text.getLastD 0)

/-- The condition on a call. -/
def StepFine (param : PutParam) (call : PutCall) : PutValue → Prop
  | .nothing =>
    call.cbValue ≠ -1 →
      ∃ piece, call.piece param.ctype = some piece ∧
        (param.handlingLo = true →
          call.begins = true ∧ call.creates = true ∧ call.opens = true ∧
            WriteFine param call piece)
  | .null =>
    if param.handlingLo then ∃ piece, call.piece param.ctype = some piece ∧ loLength param piece = 0
    else ∀ piece ∈ call.piece param.ctype, piece = []
  | .data text =>
    if param.handlingLo then
      ∃ piece, call.piece param.ctype = some piece ∧ WriteFine param call piece ∧
        (param.ctype = .char → isHexText (text ++ piece) = true → DigitsFit text piece)
    else
      ∀ piece ∈ call.piece param.ctype, piece = [] ∨ text.length + piece.length < 2 ^ 62

/-- The data with the piece of a call. -/
def PutValue.following (ctype : PutCType) (call : PutCall) : PutValue → PutValue
  | .nothing => if call.cbValue = -1 then .null else .data ((call.piece ctype).getD [])
  | .null => .null
  | .data text => .data (text ++ (call.piece ctype).getD [])

/-- The condition on a sequence of calls. -/
def PutsFine (param : PutParam) : PutValue → List PutCall → Prop
  | _, [] => True
  | value, call :: calls =>
    StepFine param call value ∧ PutsFine param (value.following param.ctype call) calls

end PsqlOdbc
