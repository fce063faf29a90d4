import PsqlOdbc.Results.QResult
import PsqlOdbc.Statement.BatchExecute

/-!
# Bulk operations (`pgapi30.c`, `PGAPI_BulkOperations`)

`SQLBulkOperations` adds, updates or deletes the rows of the application's buffers one after the
other, with the commit mode of the connection switched off.  At a row with data-at-execution columns
it queues a copy of its own state, with which `SQLParamData` goes on when the data are there.
`BulkRight` is what the application may expect.
-/

namespace PsqlOdbc

/-! ## The driver -/

/-- The operations that go over the rows. -/
inductive BulkOperation
  | add
  | updateByBookmark
  | deleteByBookmark
  deriving DecidableEq, Repr

/-- `PG_BM`: a row's number in the result, and where it was stored. -/
structure PgBm where
  index : Int
  keys : KeySet
  deriving DecidableEq, Repr

/-- What a row function is asked to do: the row of the buffers, and the row of the table that
is to be updated or deleted. -/
structure RowRequest where
  irow : Nat
  target : Option KeySet
  deriving DecidableEq, Repr

/-- How the dialogue for the data of a row ends. -/
inductive DialogueEnd
  /-- The row function's own callback returns. -/
  | completes (ret : Retcode)
  /-- The application calls `SQLCancel`. -/
  | cancels
  deriving DecidableEq, Repr

/-- What a row function answers. -/
inductive RowAnswer
  | returns (ret : Retcode)
  /-- `SQL_NEED_DATA`. -/
  | needData (ends : DialogueEnd)
  deriving DecidableEq, Repr

/-- A call of `SQLBulkOperations`, with all that the rows meet.  What a row function changes is told
by the row that is reached. -/
structure BulkCall where
  operation : BulkOperation
  /-- `opts->size_of_rowset`. -/
  sizeOfRowset : Nat
  /-- `SC_Resolve_bookmark` of the rows, if there is a bookmark column with a buffer. -/
  bookmark : Option (Nat → PgBm)
  /-- `res->deleted` with `res->deleted_keyset`. -/
  deleted : Nat → List (Int × KeySet)
  /-- `res->updated` with `res->updated_keyset`. -/
  updated : Nat → List (Int × KeySet)
  /-- The entry of `res->keyset` for a row of the result, if it is among the cached ones. -/
  cached : Nat → Int → Option KeySet
  answer : Nat → RowAnswer

/-- `bop_cdata`. -/
structure BopCdata where
  needDataCallback : Bool
  autoCommitNeeded : Bool
  idx : Nat
  processed : Nat
  deriving DecidableEq, Repr

/-- What a call uses of the statement and its connection. -/
structure BulkStatement where
  /-- `CONN_IN_AUTOCOMMIT`. -/
  inAutocommit : Bool
  /-- `CONN_IN_MANUAL_TRANSACTION`. -/
  inManualTransaction : Bool
  callbacks : List BopCdata
  /-- The number at `irdflds->rowsFetched`, if that is not `NULL`. -/
  rowsFetched : Option Nat
  diagRowCount : Nat
  /-- What the row functions have been asked to do.  The program does not keep it. -/
  requests : List RowRequest
  deriving DecidableEq, Repr

/-- The scan of `res->deleted`, whose numbers ascend. -/
def findDeleted (index : Int) : List (Int × KeySet) → Option KeySet
  | [] => none
  | (i, keyset) :: rest =>
    if i = index then some keyset else if index < i then none else findDeleted index rest

/-- `QR_get_last_bookmark`. -/
def qrGetLastBookmark (deleted updated : List (Int × KeySet)) (index : Int) (keyset : KeySet) :
    KeySet :=
  match findDeleted index deleted with
  | some keys => keys
  | none =>
    match updated.reverse.find? fun entry ↦ entry.1 = index with
    | some entry => entry.2
    | none => keyset

namespace BulkStatement

variable (stmt : BulkStatement)

/-- `CC_does_autocommit`. -/
def doesAutocommit : Bool := stmt.inAutocommit && !stmt.inManualTransaction

/-- `CC_set_autocommit`. -/
def setAutocommit (on : Bool) : BulkStatement := { stmt with inAutocommit := on }

/-- `PGAPI_Cancel` where the data of a row are waited for.  The callbacks that it drops are those of
the statement that executes for the row. -/
def pgapiCancel : BulkStatement := { stmt with diagRowCount := 0 }

end BulkStatement

namespace BulkCall

variable (call : BulkCall)

/-- The row of the table that `SC_pos_update` and `SC_pos_delete` address. -/
def target (idx : Nat) (globalIdx : Int) (keyset : KeySet) : KeySet :=
  (call.cached idx globalIdx).getD keyset

/-- What the row function is asked to do at a row. -/
def request (idx : Nat) : RowRequest where
  irow := idx % 2 ^ 16
  target := match call.operation with
    | .add => none
    | .updateByBookmark | .deleteByBookmark => call.bookmark.map fun resolve ↦
      let pgBm := resolve idx
      -- the place in the buffers stands where `SC_fetch_by_bookmark` has `pg_bm.index`
      let keys := qrGetLastBookmark (call.deleted idx) (call.updated idx) idx pgBm.keys
      call.target idx pgBm.index keys

/-- The rows of `bulk_ope_callback`, and what stands behind them. -/
def bulkLoop (ret : Retcode) (s : BopCdata) (stmt : BulkStatement) :
    Option Retcode × BulkStatement :=
  if ret ≠ .error ∧ s.idx < call.sizeOfRowset then
    let asked := { stmt with requests := stmt.requests ++ [call.request s.idx] }
    match call.answer s.idx with
    | .needData _ =>
      (none, { asked with callbacks := asked.callbacks ++ [{ s with needDataCallback := true }] })
    | .returns ret => bulkLoop ret { s with processed := s.processed + 1, idx := s.idx + 1 } asked
  else
    let stmt := if s.autoCommitNeeded then stmt.setAutocommit true else stmt
    (some ret, { stmt with
      rowsFetched := stmt.rowsFetched.map fun _ ↦ s.processed
      diagRowCount := s.processed })
termination_by call.sizeOfRowset - s.idx

/-- `bulk_ope_callback`. -/
def bulkOpeCallback (retcode : Retcode) (s : BopCdata) (stmt : BulkStatement) :
    Option Retcode × BulkStatement :=
  if s.needDataCallback then
    call.bulkLoop retcode
      { s with processed := s.processed + 1, idx := s.idx + 1, needDataCallback := false } stmt
  else call.bulkLoop retcode { s with processed := 0, idx := 0, needDataCallback := false } stmt

/-- `PGAPI_BulkOperations`.  A return code that is absent is `SQL_NEED_DATA`. -/
def pgapiBulkOperations (stmt : BulkStatement) : Option Retcode × BulkStatement :=
  let cleared := { stmt with diagRowCount := 0 }
  let autoCommitNeeded := cleared.doesAutocommit
  let started := if autoCommitNeeded then cleared.setAutocommit false else cleared
  if call.operation ≠ .add ∧ call.bookmark = none then (some .error, started)
  else call.bulkOpeCallback .success
    { needDataCallback := false, autoCommitNeeded := autoCommitNeeded, idx := 0, processed := 0 }
    started

/-- `dequeueNeedDataCallback`, behind the callback of the row function.  The list is
`stmt->callbacks`, to which a callback that asks for no data adds nothing. -/
def dequeueNeedDataCallback :
    List BopCdata → Retcode → BulkStatement → Option Retcode × BulkStatement
  | [], retcode, stmt => (some retcode, stmt)
  | s :: rest, retcode, stmt =>
    match call.bulkOpeCallback retcode s { stmt with callbacks := rest } with
    | (none, stmt) => (none, stmt)
    | (some ret, stmt) => dequeueNeedDataCallback rest ret stmt

/-- The dialogues that follow on a return code, up to the return code that ends the operation, or to
`SQLCancel`. -/
inductive Dialogue : Option Retcode × BulkStatement → BulkStatement → Prop
  | ended (ret : Retcode) (stmt : BulkStatement) : Dialogue (some ret, stmt) stmt
  | completed {stmt stmt' : BulkStatement} {s : BopCdata} {rest : List BopCdata} {ret : Retcode}
      (asked : stmt.callbacks = s :: rest) (row : call.answer s.idx = .needData (.completes ret))
      (later : Dialogue (call.dequeueNeedDataCallback stmt.callbacks ret stmt) stmt') :
      Dialogue (none, stmt) stmt'
  | cancelled {stmt : BulkStatement} {s : BopCdata} {rest : List BopCdata}
      (asked : stmt.callbacks = s :: rest) (row : call.answer s.idx = .needData .cancels) :
      Dialogue (none, stmt) stmt.pgapiCancel

end BulkCall

end PsqlOdbc
