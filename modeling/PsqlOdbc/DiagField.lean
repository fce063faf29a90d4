import PsqlOdbc.Convert.QueryParse
import PsqlOdbc.ErrorInfo

/-!
# The number of diagnostic records (`pgapi30.c`)

A statement gives its message in records, a connection in one.  `SQLGetDiagField` asks for the number
of records, the state or the native error through the same functions, and so it may leave something
behind.  `DiagHandle.DiagRight` is what the application may expect.
-/

namespace PsqlOdbc

open Lib Lib.CountingBuffer

/-! ## The driver -/

/-- What a statement keeps of its errors. -/
structure DiagStmt where
  pgerror : Option PgErrorInfo
  /-- `__error_number`. -/
  errorNumber : Int32
  /-- The text that `SC_create_errorinfo` puts together from the results, the statement and the
  connection. -/
  ermsg : Option (List UInt8)
  /-- The state that it finds there. -/
  sqlstate : List UInt8

/-- `SC_create_errorinfo`. -/
def DiagStmt.scCreateErrorinfo (stmt : DiagStmt) : Option PgErrorInfo :=
  match stmt.pgerror with
  | some pgerror => some pgerror
  | none => (erConstructor stmt.errorNumber stmt.ermsg).map fun pgerror ↦
      { pgerror with sqlstate := stmt.sqlstate }

/-- The error of a statement.  Its size stays as it is where the message is replaced. -/
def DiagStmt.errorinfo (stmt : DiagStmt) : Option PgErrorInfo :=
  stmt.scCreateErrorinfo.map fun pgerror ↦
    if stmt.errorNumber = 4 ∧ pgerror.errorMessage.head? = some 0 then -- `STMT_NO_MEMORY_ERROR`
      { pgerror with
        errorMessage := overwrite pgerror.errorMessage (ascii "Memory Allocation Error??" ++ [0]) }
    else pgerror

/-- `PGAPI_StmtError`. -/
def DiagStmt.pgapiStmtError (stmt : DiagStmt) (r : ErrorRequest) : Option (DiagStmt × ErrorReply) :=
  match stmt.errorinfo with
  | none => some (stmt, r.noData)
  | some pgerror => (pgerror.returnError r).map fun (pgerror, reply) ↦
      ({ stmt with pgerror := some pgerror }, reply)

/-- What a connection keeps of its error. -/
structure DiagConn where
  /-- The status is `CONN_EXECUTING`. -/
  executing : Bool
  errorNumber : Int32
  errorMessage : Option (List UInt8)
  sqlstate : List UInt8
  odbc3 : Bool

/-- `CC_get_error`. -/
def DiagConn.ccGetError (conn : DiagConn) : Option (List UInt8) :=
  if conn.executing = true ∨ conn.errorNumber = 0 then none else conn.errorMessage

/-- The states of ODBC 3 and ODBC 2 for a number of a connection error. -/
def connSqlstate (status : Int32) : String × String :=
  match status.toInt with
  | -1 => ("01S02", "01S02") -- `CONN_OPTION_VALUE_CHANGED`
  | -2 => ("01004", "01004") -- `CONN_TRUNCATED`
  | 201 => ("IM002", "IM002") -- `CONN_INIREAD_ERROR`
  | 101 | 202 => ("08001", "08001") -- `CONNECTION_SERVER_NOT_REACHED`, `CONN_OPENDB_ERROR`
  | 210 | 211 => ("28000", "28000") -- `CONN_INVALID_AUTHENTICATION`, `CONN_AUTH_TYPE_UNSUPPORTED`
  | 203 => ("HY001", "S1001") -- `CONN_STMT_ALLOC_ERROR`
  | 204 => ("HY000", "S1000") -- `CONN_IN_USE`
  | 205 => ("HYC00", "IM001") -- `CONN_UNSUPPORTED_OPTION`
  | 206 => ("HY009", "S1009") -- `CONN_INVALID_ARGUMENT_NO`
  | 207 => ("HY011", "S1011") -- `CONN_TRANSACT_IN_PROGRES`
  | 208 => ("HY001", "S1001") -- `CONN_NO_MEMORY_ERROR`
  | 209 => ("HYC00", "S1C00") -- `CONN_NOT_IMPLEMENTED_ERROR`
  | 213 => ("25000", "S1010") -- `CONN_ILLEGAL_TRANSACT_STATE`
  | 214 => ("HY019", "22003") -- `CONN_VALUE_OUT_OF_RANGE`
  -- `CONNECTION_COULD_NOT_SEND` and the like
  | 104 | 109 | 113 | 107 => ("08S01", "08S01")
  | 218 => ("08009", "08009") -- `CONN_BAD_LIMITLESS_CLUSTER`
  | _ => ("HY000", "S1000")

/-- `strncpy_null` to the memory of the application, if there is room for anything. -/
def ErrorRequest.putMessage (r : ErrorRequest) (msg : List UInt8) :
    Option (Option (List UInt8)) :=
  match r.szErrorMsg with
  | none => some none
  | some mem =>
    if r.cbErrorMsgMax.toInt ≤ 0 then some (some mem)
    else (storeAll mem 0 (msg.take (r.cbErrorMsgMax.toInt - 1).toNat ++ [0])).map some

/-- `PGAPI_ConnectError`.  It leaves the connection as it is. -/
def DiagConn.pgapiConnectError (conn : DiagConn) (r : ErrorRequest) : Option ErrorReply :=
  if r.recNumber ≠ 1 ∧ r.recNumber ≠ -1 then some r.noData
  else if r.cbErrorMsgMax.toInt < 0 then some { r.noData with retcode := .error }
  else
    match conn.ccGetError with
    | none => (r.putMessage []).map fun szErrorMsg ↦
        { szSqlState := if r.szSqlState = true then some (ascii "00000") else none
          pfNativeError := none
          szErrorMsg
          pcbErrorMsg := if r.pcbErrorMsg = true then some 0 else none
          retcode := .noData }
    | some msg => (r.putMessage msg).map fun szErrorMsg ↦
        { szSqlState :=
            if r.szSqlState = true then
              some (if conn.sqlstate ≠ [] then conn.sqlstate.take 5
                else if conn.odbc3 = true then ascii (connSqlstate conn.errorNumber).1
                else ascii (connSqlstate conn.errorNumber).2)
            else none
          pfNativeError := if r.pfNativeError = true then some conn.errorNumber else none
          szErrorMsg
          pcbErrorMsg :=
            if r.pcbErrorMsg = true then
              some (if r.cbErrorMsgMax = 0 then Int16.ofNat msg.length
                else if r.cbErrorMsgMax.toInt ≤ msg.length then r.cbErrorMsgMax - 1
                else Int16.ofNat msg.length)
            else none
          retcode :=
            if r.pcbErrorMsg = true ∧ r.cbErrorMsgMax = 0 then .successWithInfo else .success }

/-- A handle with diagnostics. -/
inductive DiagHandle
  | stmt (stmt : DiagStmt)
  | dbc (conn : DiagConn)

namespace DiagHandle

/-- `PGAPI_GetDiagRec`. -/
def pgapiGetDiagRec (r : ErrorRequest) : DiagHandle → Option (DiagHandle × ErrorReply)
  | .stmt self => (self.pgapiStmtError r).map fun (self, reply) ↦ (.stmt self, reply)
  | .dbc conn => (conn.pgapiConnectError r).map fun reply ↦ (.dbc conn, reply)

/-- A call for the state or the native error alone. -/
def probe (recNumber : Int16) (szSqlState pfNativeError : Bool) : ErrorRequest :=
  ⟨recNumber, szSqlState, pfNativeError, none, 0, false, false⟩

end DiagHandle

/-- The fields that are asked for through the error functions, with `BufferLength` for the state. -/
inductive DiagIdentifier
  | number
  | native
  | sqlstate (bufferLength : Int16)

/-- What `PGAPI_GetDiagField` returns and stores. -/
structure DiagFieldReply where
  number : Option Int
  native : Option Int32
  sqlstate : Option (List UInt8)
  stringLength : Int16
  retcode : Retcode
  deriving DecidableEq

namespace DiagHandle

/-- An integer field is there, or it is not. -/
def plain : Retcode → Retcode
  | .successWithInfo => .success
  | retcode => retcode

/-- `SQL_DIAG_NUMBER` of `PGAPI_GetDiagField`.  There is no result if it divides by zero. -/
def getDiagNumber : DiagHandle → Option (DiagHandle × DiagFieldReply)
  | .stmt self =>
    (self.pgapiStmtError ⟨-1, false, false, none, 0, true, false⟩).bind fun (self, reply) ↦
      if reply.retcode = .success ∨ reply.retcode = .successWithInfo then
        match reply.pcbErrorMsg, self.pgerror with
        | some pcbErrm, some pgerror =>
          if 0 < pcbErrm.toInt then
            if pgerror.recsize = 0 then none
            else
              some (.stmt self,
                ⟨some ((pcbErrm.toInt - 1).tdiv pgerror.recsize.toNat + 1), none, none, 4, .success⟩)
          else some (.stmt self, ⟨some 0, none, none, 4, .success⟩)
        | _, _ => some (.stmt self, ⟨some 0, none, none, 4, .success⟩)
      else some (.stmt self, ⟨some 0, none, none, 4, .noData⟩)
  | .dbc conn =>
    -- `msg[SQL_MAX_MESSAGE_LENGTH + 1]`
    (conn.pgapiConnectError ⟨1, false, false, some (List.replicate 513 0), 513, true, false⟩).map
      fun reply ↦
        match reply.retcode, reply.pcbErrorMsg with
        | .success, some pcbErrm | .successWithInfo, some pcbErrm =>
          (.dbc conn, ⟨some ((pcbErrm.toInt - 1).tdiv 512 + 1), none, none, 4, .success⟩)
        | retcode, _ => (.dbc conn, ⟨some 0, none, none, 4, plain retcode⟩)

/-- `SQL_DIAG_SQLSTATE` and `SQL_DIAG_NATIVE` too. -/
def pgapiGetDiagField (h : DiagHandle) (recNumber : Int16) :
    DiagIdentifier → Option (DiagHandle × DiagFieldReply)
  | .number => h.getDiagNumber
  | .native => (h.pgapiGetDiagRec (probe recNumber false true)).map fun (h, reply) ↦
      (h, ⟨none, reply.pfNativeError, none, 4, plain reply.retcode⟩)
  | .sqlstate bufferLength =>
    (h.pgapiGetDiagRec (probe recNumber true false)).map fun (h, reply) ↦
      let ret := plain reply.retcode
      if bufferLength.toInt ≤ 5 then
        (h, ⟨none, none,
          if 0 < bufferLength.toInt then
            reply.szSqlState.map fun text ↦ text.take (bufferLength.toInt - 1).toNat
          else reply.szSqlState,
          5, if ret = .success then .successWithInfo else ret⟩)
      else (h, ⟨none, none, reply.szSqlState, 5, ret⟩)

/-- The replies to calls of `PGAPI_GetDiagRec`, one after the other. -/
def replies (h : DiagHandle) : List ErrorRequest → Option (List ErrorReply)
  | [] => some []
  | r :: rs => (h.pgapiGetDiagRec r).bind fun (h, reply) ↦ (h.replies rs).map (reply :: ·)

end DiagHandle

/-! ## What the application may expect -/

/-- Requests for the records 1, 2, 3, …, with buffers of one size. -/
structure DiagRecRequests where
  size : Int16
  pos : 0 < size.toInt
  request : ℕ → ErrorRequest
  record : ∀ k, (request k).recNumber = Int16.ofNat (k + 1)
  sameSize : ∀ k, (request k).cbErrorMsgMax = size
  memory : ∀ k mem, (request k).szErrorMsg = some mem → size.toInt ≤ mem.length

/-- A request of `SQLGetDiagRec`, whose record numbers are positive. -/
structure ErrorRequest.IsDiagRec (r : ErrorRequest) : Prop where
  record : 0 < r.recNumber.toInt
  memory : ∀ mem, r.szErrorMsg = some mem → r.cbErrorMsgMax.toInt ≤ mem.length

namespace DiagHandle

/-- If there are `n` records, these can be read and no more. -/
def NumberRight (h : DiagHandle) (requests : DiagRecRequests) : Prop :=
  ∃ h' reply, h.pgapiGetDiagField 0 .number = some (h', reply) ∧
    (reply.retcode = .success → ∃ n : Nat, reply.number = some (n : Int) ∧
      ∃ records last, h'.replies ((List.range (n + 1)).map requests.request) =
          some (records ++ [last]) ∧
        (∀ record ∈ records, record.retcode = .success ∨ record.retcode = .successWithInfo) ∧
        last.retcode = .noData)

/-- The calls behind a call of `SQLGetDiagField` get the same texts as without it. -/
def Unchanged (h : DiagHandle) : Prop :=
  ∀ recNumber field, ∃ h' reply, h.pgapiGetDiagField recNumber field = some (h', reply) ∧
    ∀ rs : List ErrorRequest, (∀ r ∈ rs, r.IsDiagRec) → h'.replies rs = h.replies rs

/-- Both. -/
def DiagRight (h : DiagHandle) (requests : DiagRecRequests) : Prop :=
  h.NumberRight requests ∧ h.Unchanged

/-- The message is as long as its size says. -/
def Sound : DiagHandle → Prop
  | .stmt self => ∀ pgerror, self.pgerror = some pgerror →
      pgerror.errsize.toNat ≤ pgerror.errorMessage.length
  | .dbc _ => True

end DiagHandle

end PsqlOdbc
