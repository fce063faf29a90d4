import PsqlOdbc.Convert.ProcessTokens

/-!
# Executing a parameter array (`execute.c`)

`PGAPI_Execute` goes over the rows of a parameter array.  The commands of a batch are collected in
a buffer of the statement, `stmt_deferred`, which one `SC_execute` sends: where the batch is full,
at the last row, or behind the rows if the last ones are ignored.
-/

namespace PsqlOdbc

/-! ## The statement -/

/-- What a row makes the server execute: a text, or the prepared statement with its parameters. -/
inductive RowCommand
  | text (t : List UInt8)
  | bound (row : Nat)
  deriving DecidableEq, Repr

/-- The return codes. -/
inductive Retcode
  | success
  | successWithInfo
  | noData
  | error
  deriving DecidableEq, Repr

/-- `EXEC_TYPE`. -/
inductive ExecType
  | direct
  | deffered
  | last
  deriving DecidableEq, Repr

/-- What `PGAPI_Execute` uses of a statement between calls. -/
structure BatchStatement where
  batchSize : Nat
  stmtWithParams : Option (List UInt8)
  /-- The buffer if it is valid.  Its data are the texts with semicolons between them. -/
  stmtDeferred : Option (List (List UInt8))
  countOfDeffered : Nat
  /-- What has been sent.  The program does not keep it. -/
  sent : List RowCommand

/-- `SC_Constructor`. -/
def scConstructor (batchSize : Int) : BatchStatement where
  batchSize := if batchSize < 1 then 1 else batchSize.toNat
  stmtWithParams := none
  stmtDeferred := none
  countOfDeffered := 0
  sent := []

/-- `SC_initialize_stmts`, which `SC_recycle_statement` calls. -/
def scInitializeStmts (stmt : BatchStatement) : BatchStatement :=
  { stmt with stmtWithParams := none }

/-- `stmt_deferred.data`. -/
def deferredData (texts : List (List UInt8)) : List UInt8 := [semicolon].intercalate texts

/-- The server finds no command in an empty text. -/
def textCommands (texts : List (List UInt8)) : List RowCommand :=
  (texts.filter (· ≠ [])).map .text

/-! ## A call -/

/-- What comes of an `SC_execute`. -/
structure ExecOutcome where
  /-- The server has got the commands. -/
  sent : Bool
  retval : Retcode
  sent_of_ne : retval ≠ .error → sent = true
  /-- `UPDATE 0` or `DELETE 0`, for an application of ODBC 3. -/
  affectedNone : Bool
  cursorChanged : Bool

/-- A row of the array. -/
structure BatchRow where
  /-- `SQL_PARAM_IGNORE`. -/
  ignored : Bool
  /-- What `copy_statement_with_parameters` makes of the row; no result is an error. -/
  converted : Option (List UInt8)
  /-- What comes of an `SC_execute` at this row. -/
  outcome : ExecOutcome

/-- A call of `PGAPI_Execute`. -/
structure ExecuteCall where
  /-- `SC_recycle_statement` is called. -/
  recycled : Bool
  /-- The statement is not ready, or cannot be prepared. -/
  rejected : Bool
  paramsetSize : Nat
  rows : Nat → BatchRow
  /-- `copy_statement_with_parameters` leaves the parameters to the extended protocol. -/
  extended : Bool
  /-- `SQL_CURSOR_FORWARD_ONLY` and `SQL_CONCUR_READ_ONLY`. -/
  forwardReadOnly : Bool
  /-- `PREPARE_BY_THE_DRIVER`. -/
  prepareByTheDriver : Bool
  /-- What comes of the `SC_execute` behind the rows. -/
  lastOutcome : ExecOutcome

namespace ExecuteCall

variable (call : ExecuteCall)

/-- `end_row`; the cast to `SQLINTEGER` comes before the subtraction. -/
def endRow : Nat := (wrapInt 32 call.paramsetSize - 1).toNat

/-- `stmt->exec_type`. -/
def execType (stmt : BatchStatement) : ExecType :=
  let maybeBatch := decide (0 < call.endRow) && call.forwardReadOnly && decide (1 < stmt.batchSize)
  if call.prepareByTheDriver && maybeBatch then .deffered else .direct

end ExecuteCall

/-- `SC_execute`. -/
def scExecute (stmt : BatchStatement) (commands : List RowCommand) (o : ExecOutcome) :
    BatchStatement :=
  if o.sent then { stmt with sent := stmt.sent ++ commands } else stmt

/-- The end of `Exec_with_parameters_resolved`; the last component is `exec_end`. -/
def afterExecute (endRow row : Nat) (o : ExecOutcome) (stmt : BatchStatement) :
    Retcode × BatchStatement × Bool :=
  if o.retval = .error then (.error, stmt, true)
  else
    let retval := if o.retval = .success ∧ o.affectedNone ∧ endRow = 0 then .noData else o.retval
    let retval := if retval = .success ∧ o.cursorChanged then .successWithInfo else retval
    (retval, stmt, decide (endRow ≤ row))

/-- The commands that are sent where nothing is deferred any more. -/
def flushDeferred (stmt : BatchStatement) (o : ExecOutcome) : BatchStatement :=
  match stmt.stmtDeferred with
  | some texts =>
    let texts := texts ++ stmt.stmtWithParams.toList
    { scExecute stmt (textCommands texts) o with countOfDeffered := 0, stmtDeferred := some [[]] }
  | none =>
    { scExecute stmt (textCommands stmt.stmtWithParams.toList) o with countOfDeffered := 0 }

/-- `Exec_with_parameters_resolved` for a row. -/
def execRow (call : ExecuteCall) (execType : ExecType) (row : Nat) (stmt : BatchStatement) :
    Retcode × BatchStatement × Bool :=
  let endRow := call.endRow
  let o := (call.rows row).outcome
  match (call.rows row).converted with
  | none => (.error, { stmt with stmtWithParams := none }, true)
  | some text =>
    let stmt := { stmt with stmtWithParams := if call.extended then none else some text }
    -- Without a text it is the extended protocol.
    if call.extended ∨ execType = .direct then
      let commands := if call.extended then [.bound row] else textCommands [text]
      afterExecute endRow row o { scExecute stmt commands o with countOfDeffered := 0 }
    else if execType = .deffered ∧ row < endRow ∧ stmt.countOfDeffered + 1 < stmt.batchSize then
      let texts := stmt.stmtDeferred.getD [[]]
      let texts := if deferredData texts = [] then [text] else texts ++ [text]
      (.success, { stmt with
        stmtDeferred := some texts
        countOfDeffered := stmt.countOfDeffered + 1 }, false)
    else afterExecute endRow row o (flushDeferred stmt o)

/-- `Exec_with_parameters_resolved` with `LAST_EXEC`. -/
def execLast (call : ExecuteCall) (row : Nat) (stmt : BatchStatement) : Retcode × BatchStatement :=
  let stmt := { stmt with stmtWithParams := none }
  if stmt.stmtDeferred.all fun texts ↦ decide (deferredData texts = []) then (.success, stmt)
  else
    let after := afterExecute call.endRow row call.lastOutcome (flushDeferred stmt call.lastOutcome)
    (after.1, after.2.1)

/-- `PGAPI_Execute` behind the rows. -/
def executeEnd (call : ExecuteCall) (execType : ExecType) (row : Nat) (retval : Retcode)
    (stmt : BatchStatement) : Retcode × BatchStatement :=
  if execType = .deffered then execLast call row stmt else (retval, stmt)

/-- `next_param_row`: `n` rows are left. -/
def executeRows (call : ExecuteCall) (execType : ExecType) :
    Nat → Nat → Retcode → BatchStatement → Retcode × BatchStatement
  | 0, row, retval, stmt => executeEnd call execType row retval stmt
  | n + 1, row, retval, stmt =>
    if (call.rows row).ignored then
      if call.endRow ≤ row then executeEnd call execType row retval stmt
      else executeRows call execType n (row + 1) retval stmt
    else
      let executed := execRow call execType row stmt
      if executed.2.2 then (executed.1, executed.2.1)
      else executeRows call execType n (row + 1) executed.1 executed.2.1

/-- `PGAPI_Execute`. -/
def pgapiExecute (call : ExecuteCall) (stmt : BatchStatement) : Retcode × BatchStatement :=
  let stmt := if call.recycled then scInitializeStmts stmt else stmt
  if call.rejected then (.error, stmt)
  else executeRows call (call.execType stmt) (call.endRow + 1) 0 .success stmt

end PsqlOdbc
