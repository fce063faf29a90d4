import PsqlOdbc.Convert.QueryParse
import PsqlOdbc.ErrorInfo
import PsqlOdbc.WinUnicodePlaces

/-!
# Wide diagnostics (`odbcapi30w.c`)

`SQLGetDiagRecW` asks for a record in as many bytes as the application has room for units, and
converts it.  What cannot be converted is taken for text of the locale, and if it is none either,
the application is told the state only.  `WideRecordRequests.Delivered` is what the application may
expect.
-/

namespace PsqlOdbc

open Lib Lib.CountingBuffer

/-! ## The driver -/

/-- `locale_to_sqlwchar`, for the locale of the application: its value for a text and so much room,
and the units that it stores. -/
structure LocaleToSqlwchar where
  convert : List UInt8 → Nat → Int × List UInt16
  bounded : ∀ ldt n, (convert ldt n).2.length ≤ n

/-- The arguments of `SQLGetDiagRecW`: pointers that are only stored through are Booleans. -/
structure WideRequest where
  iRecord : Int16
  /-- The memory of `szSqlState`. -/
  szSqlState : Option (List UInt16)
  pfNativeError : Bool
  /-- The memory of `szErrorMsg`. -/
  szErrorMsg : Option (List UInt16)
  cbErrorMsgMax : Int16
  pcbErrorMsg : Bool

/-- What `SQLGetDiagRecW` returns and stores. -/
structure WideReply where
  szSqlState : Option (List UInt16)
  pfNativeError : Option Int32
  szErrorMsg : Option (List UInt16)
  pcbErrorMsg : Option Int16
  retcode : Retcode
  deriving DecidableEq

namespace WideRequest

/-- Nothing is stored. -/
def noData (r : WideRequest) : WideReply :=
  ⟨r.szSqlState, none, r.szErrorMsg, none, .noData⟩

/-- `buflen`. -/
def buflen (r : WideRequest) : Int16 :=
  if r.szErrorMsg.isSome = true ∧ 0 < r.cbErrorMsgMax.toInt then r.cbErrorMsgMax else 0

/-- The call of `PGAPI_GetDiagRec`, with new memory for the text. -/
def narrow (r : WideRequest) : ErrorRequest where
  recNumber := r.iRecord
  szSqlState := true
  pfNativeError := r.pfNativeError
  szErrorMsg :=
    if r.szErrorMsg.isSome = true ∧ 0 < r.cbErrorMsgMax.toInt then
      some (List.replicate r.buflen.toInt.toNat 0)
    else none
  cbErrorMsgMax := r.buflen
  pcbErrorMsg := true
  partialOk := false

/-- The state in the memory of the application. -/
def storeState (r : WideRequest) (qstrAnsi : List UInt8) : Option (Option (List UInt16)) :=
  match r.szSqlState with
  | none => some none
  | some mem =>
    (utf8ToUcs2LfBuffer (some (qstrAnsi ++ [0])) (-1) false (some mem) 6 false).map
      fun (_, mem) ↦ some mem

/-- `errc`. -/
def errc (qstrAnsi : List UInt8) : List UInt8 := (ascii "Error: SqlState=" ++ qstrAnsi).take 31

/-- The text of `mtxt` in the memory of the application, with `tlen` and the return code. -/
def convert (locale : LocaleToSqlwchar) (r : WideRequest) (qstrAnsi mtxt : List UInt8)
    (tlen : Int16) (ret : Retcode) (mem : List UInt16) :
    Option (Int16 × Retcode × List UInt16) :=
  let max := r.cbErrorMsgMax.toInt.toNat
  (utf8ToUcs2LfBuffer (some mtxt) tlen.toInt false (some mem) max true).bind fun (ulen, mem) ↦
    let (tlen, mem) : Int16 × List UInt16 :=
      if ulen = sqlulenMinusOne then
        let (l, units) := locale.convert (mtxt.takeWhile (· ≠ 0)) max
        (Int16.ofInt l, overwrite mem units)
      else (Int16.ofNat ulen, mem)
    if r.cbErrorMsgMax.toInt ≤ tlen.toInt then some (tlen, .successWithInfo, mem)
    else if tlen.toInt < 0 then
      (utf8ToUcs2LfBuffer (some (errc qstrAnsi ++ [0])) (-1) false (some mem) max false).map
        fun (ulen, mem) ↦ (Int16.ofNat ulen, ret, mem)
    else some (tlen, ret, mem)

/-- The reply to the application, with what `PGAPI_GetDiagRec` has stored. -/
def widen (locale : LocaleToSqlwchar) (r : WideRequest) (reply : ErrorReply) : Option WideReply :=
  if reply.retcode = .success ∨ reply.retcode = .successWithInfo then
    let qstrAnsi := reply.szSqlState.getD []
    let tlen := reply.pcbErrorMsg.getD 0
    let text : Option (Int16 × Retcode × Option (List UInt16)) :=
      match r.szErrorMsg, reply.szErrorMsg with
      | some mem, some mtxt =>
        if tlen.toInt ≤ r.cbErrorMsgMax.toInt then
          (r.convert locale qstrAnsi mtxt tlen reply.retcode mem).map
            fun (tlen, ret, mem) ↦ (tlen, ret, some mem)
        else some (tlen, reply.retcode, some mem)
      | szErrorMsg, _ => some (tlen, reply.retcode, szErrorMsg)
    (r.storeState qstrAnsi).bind fun szSqlState ↦ text.map fun (tlen, ret, szErrorMsg) ↦
      { szSqlState := szSqlState
        pfNativeError := reply.pfNativeError
        szErrorMsg := szErrorMsg
        pcbErrorMsg := if r.pcbErrorMsg = true then some tlen else none
        retcode := ret }
  else some { r.noData with
    pfNativeError := reply.pfNativeError
    retcode := reply.retcode }

end WideRequest

/-- `SQLGetDiagRecW`, of a statement with the error `pgerror`. -/
def sqlGetDiagRecW (locale : LocaleToSqlwchar) (pgerror : Option PgErrorInfo) (r : WideRequest) :
    Option (Option PgErrorInfo × WideReply) :=
  (erReturnError pgerror r.narrow).bind fun (pgerror, reply) ↦
    (r.widen locale reply).map fun reply ↦ (pgerror, reply)

/-! ## What the application may expect -/

/-- There is room for two units and the terminator, and for a state. -/
structure WideRequest.Fits (r : WideRequest) : Prop where
  room : 3 ≤ r.cbErrorMsgMax.toInt
  memory : ∃ mem, r.szErrorMsg = some mem ∧ r.cbErrorMsgMax.toInt ≤ mem.length
  state : ∀ mem, r.szSqlState = some mem → 6 ≤ mem.length

/-- A reply that gives `piece`. -/
structure WideReply.Gives (reply : WideReply) (r : WideRequest) (piece : List UInt16) : Prop where
  /-- The units behind the terminator are as before. -/
  stored : ∃ mem, r.szErrorMsg = some mem ∧
    reply.szErrorMsg = some (overwrite mem (piece ++ [0]))
  terminated : 0 ∉ piece
  room : (piece.length : Int) + 1 ≤ r.cbErrorMsgMax.toInt
  told : ∀ n, reply.pcbErrorMsg = some n → 0 ≤ n.toInt ∧
    (reply.retcode = .success → n.toInt = piece.length)
  succeeds : reply.retcode = .success ∨ reply.retcode = .successWithInfo

/-- Calls that give a text in pieces; the last one tells that there is no more. -/
inductive WideDelivers (locale : LocaleToSqlwchar) :
    Option PgErrorInfo → List WideRequest → List UInt16 → Prop
  | noData {pgerror pgerror' : Option PgErrorInfo} {r : WideRequest}
      (h : sqlGetDiagRecW locale pgerror r = some (pgerror', r.noData)) :
      WideDelivers locale pgerror [r] []
  | piece {pgerror pgerror' : Option PgErrorInfo} {r : WideRequest} {reply : WideReply}
      {rs : List WideRequest} {piece text : List UInt16}
      (h : sqlGetDiagRecW locale pgerror r = some (pgerror', reply)) (hgives : reply.Gives r piece)
      (htext : WideDelivers locale pgerror' rs text) :
      WideDelivers locale pgerror (r :: rs) (piece ++ text)

/-- Requests for the records 1, 2, 3, …  There is no record number 32768. -/
structure WideRecordRequests where
  size : Int16
  request : ℕ → WideRequest
  fits : ∀ k, (request k).Fits
  record : ∀ k < 32767, (request k).iRecord.toInt = k + 1
  sameSize : ∀ k, (request k).cbErrorMsgMax = size

/-- An error with a message in UTF-8. -/
structure WideDiagnosis where
  errnumber : Int32
  isError : errnumber ≠ 0
  message : List Char
  noNul : Char.ofNat 0 ∉ message
  sqlstate : List UInt8
  ascii : ∀ b ∈ sqlstate, 0 < b.toNat ∧ b.toNat < 0x80

/-- The error that the driver keeps. -/
def WideDiagnosis.pgerror (d : WideDiagnosis) : Option PgErrorInfo :=
  (erConstructor d.errnumber (some (utf8Encode d.message))).map fun error ↦
    { error with sqlstate := d.sqlstate }

/-- The first requests give the message and that there is no more. -/
def WideRecordRequests.Delivered (locale : LocaleToSqlwchar) (d : WideDiagnosis)
    (requests : WideRecordRequests) : Prop :=
  ∃ n ≤ 32767, WideDelivers locale d.pgerror ((List.range' 0 n).map requests.request)
    (utf16Encode d.message)

/-- The record numbers reach the end of the message, and no record ends within a character. -/
structure WideRecordRequests.Whole (d : WideDiagnosis) (requests : WideRecordRequests) : Prop where
  short : ((utf8Encode d.message).length : Int) ≤ 32766 * (requests.size.toInt - 1)
  boundary : ∀ k, k * (requests.size.toInt - 1).toNat < (utf8Encode d.message).length →
    IsBoundary d.message (k * (requests.size.toInt - 1).toNat)

end PsqlOdbc
