import PsqlOdbc.Statement.BatchSent

/-!
# Data at execution (`execute.c`, `SQLExecute`, `SQLParamData`, `SQLPutData`, `SQLCancel`)

A parameter whose indicator says so gets its data when the statement is executed.  `SQLExecute` stops
at a row with such parameters, `SQLParamData` asks for one after the other, and goes on with the rows
when there is none left.  `DialogueRight` is what the application may expect of this.
-/

namespace PsqlOdbc

/-! ## The driver -/

/-- What the application can observe of a dialogue. -/
inductive DaeEvent
  /-- `SQL_NEED_DATA` for a parameter of a row. -/
  | asked (row param : Nat)
  /-- The parameters of a row are resolved and it is executed. -/
  | executed (row : Nat)
  deriving DecidableEq, Repr

/-- A statement.  A return code that is absent is `SQL_NEED_DATA`. -/
structure DaeStatement extends BatchStatement where
  /-- The count of parameters that are to be asked for, or `-1`. -/
  dataAtExec : Int
  currentExecParam : Int
  execCurrentRow : Int
  putData : Bool
  execType : ExecType
  /-- `data_at_exec` of the parameters. -/
  atExec : Nat → Bool
  /-- What has happened.  The program does not keep it. -/
  events : List DaeEvent

/-- A call of `SQLExecute`, with the bindings. -/
structure DaeCall extends ExecuteCall where
  /-- `num_params`, which is an `Int2`: `data_at_exec` has room for their count. -/
  numParams : Nat
  /-- `apdopts->allocated`. -/
  allocated : Nat
  /-- The indicator of a parameter of a row. -/
  indicator : Nat → Nat → Option Int

/-- `SQL_DATA_AT_EXEC`, or a length with `SQL_LEN_DATA_AT_EXEC_OFFSET`. -/
def isDataAtExec (indicator : Option Int) : Bool :=
  indicator.any fun used ↦ used == -2 || decide (used ≤ -100)

namespace DaeStatement

/-- `SC_Constructor`. -/
def scConstructor (batchSize : Int) : DaeStatement where
  toBatchStatement := PsqlOdbc.scConstructor batchSize
  dataAtExec := -1
  currentExecParam := -1
  execCurrentRow := -1
  putData := false
  execType := .direct
  atExec := fun _ ↦ false
  events := []

variable (stmt : DaeStatement)

/-- `SC_free_params`. -/
def scFreeParams : DaeStatement :=
  { stmt with dataAtExec := -1, currentExecParam := -1, putData := false }

/-- `SC_recycle_statement`. -/
def scRecycleStatement : DaeStatement :=
  { stmt.scFreeParams with toBatchStatement := scInitializeStmts stmt.toBatchStatement }

/-- `PGAPI_Cancel`. -/
def pgapiCancel : DaeStatement :=
  if 0 ≤ stmt.dataAtExec then
    { stmt with dataAtExec := -1, currentExecParam := -1, putData := false }
  else stmt

/-- `PGAPI_PutData`, as far as it is about the dialogue. -/
def pgapiPutData (retval : Retcode) : Option Retcode × DaeStatement :=
  if stmt.currentExecParam < 0 then (some .error, stmt)
  else (some retval, { stmt with putData := true })

end DaeStatement

namespace DaeCall

variable (call : DaeCall)

/-- `num_p`. -/
def numP : Nat := min call.numParams call.allocated

/-- The check of a row for parameters that are to be asked for. -/
def checkRow (row : Nat) (stmt : DaeStatement) : DaeStatement :=
  let stmt := stmt.scFreeParams
  let atExec := fun i ↦ isDataAtExec (call.indicator row i)
  { stmt with
    atExec := fun i ↦ if i < call.numP then atExec i else stmt.atExec i
    dataAtExec := (List.range call.numP).foldl
      (fun n i ↦ if atExec i then (if n < 0 then 1 else n + 1) else n) stmt.dataAtExec }

/-- `Exec_with_parameters_resolved`; the last component is `exec_end`. -/
def execWithParametersResolved (stmt : DaeStatement) : Retcode × DaeStatement × Bool :=
  let row := stmt.execCurrentRow.toNat
  let executed := execRow call.toExecuteCall stmt.execType row stmt.toBatchStatement
  (executed.1,
    { stmt with
      toBatchStatement := executed.2.1
      currentExecParam := -1
      execCurrentRow := if executed.2.2 then -1 else row + 1
      events := stmt.events ++ [.executed row] },
    executed.2.2)

/-- `PGAPI_Execute` behind the rows. -/
def endRows (retval : Retcode) (stmt : DaeStatement) : Option Retcode × DaeStatement :=
  let ended := executeEnd call.toExecuteCall stmt.execType stmt.execCurrentRow.toNat retval
    stmt.toBatchStatement
  (some ended.1, { stmt with toBatchStatement := ended.2, execCurrentRow := -1 })

/-- `next_param_row`: `n` rows are left. -/
def nextParamRow : Nat → Retcode → DaeStatement → Option Retcode × DaeStatement
  | 0, retval, stmt => call.endRows retval stmt
  | n + 1, retval, stmt =>
    let row := stmt.execCurrentRow.toNat
    if (call.rows row).ignored then
      if call.endRow ≤ row then call.endRows retval stmt
      else nextParamRow n retval { stmt with execCurrentRow := row + 1 }
    else
      let stmt := call.checkRow row stmt
      if 0 < stmt.dataAtExec then (none, stmt)
      else
        let executed := call.execWithParametersResolved stmt
        if executed.2.2 then (some executed.1, executed.2.1)
        else nextParamRow n executed.1 executed.2.1

/-- `PGAPI_Execute`. -/
def pgapiExecute (stmt : DaeStatement) : Option Retcode × DaeStatement :=
  if 0 < stmt.execCurrentRow then
    call.nextParamRow (call.endRow + 1 - stmt.execCurrentRow.toNat) .success stmt
  else
    let stmt := if call.recycled then stmt.scRecycleStatement else stmt
    if call.rejected then (some .error, stmt)
    else
      call.nextParamRow (call.endRow + 1) .success
        { stmt with execCurrentRow := 0, execType := call.execType stmt.toBatchStatement }

/-- `SQLExecute`. -/
def sqlExecute (stmt : DaeStatement) : Option Retcode × DaeStatement :=
  call.pgapiExecute { stmt with execCurrentRow := -1 }

/-- The next parameter to be asked for. -/
def askNext (stmt : DaeStatement) : Option Retcode × DaeStatement :=
  let first := if 0 ≤ stmt.currentExecParam then stmt.currentExecParam.toNat + 1 else 0
  match (List.range' first (call.numP - first)).find? stmt.atExec with
  | none => (none, stmt)
  | some i =>
    (none, { stmt with
      dataAtExec := stmt.dataAtExec - 1
      currentExecParam := i
      putData := false
      events := stmt.events ++ [.asked stmt.execCurrentRow.toNat i] })

/-- `PGAPI_ParamData`, where `closes` is whether the transaction of a large object that is open can be
committed. -/
def pgapiParamData (closes : Bool) (stmt : DaeStatement) : Option Retcode × DaeStatement :=
  if stmt.dataAtExec < 0 then (some .error, stmt)
  else if (call.allocated : Int) < stmt.dataAtExec then (some .error, stmt)
  else if closes = false then (some .error, stmt)
  else if stmt.dataAtExec = 0 then
    let resolved := call.execWithParametersResolved stmt
    if resolved.2.2 then (some resolved.1, resolved.2.1)
    else
      let executed := call.pgapiExecute resolved.2.1
      if executed.1 = none then call.askNext executed.2 else executed
  else call.askNext stmt

end DaeCall

/-! ## The dialogue -/

/-- What the application does while data are needed. -/
inductive DaeStep
  | paramData (closes : Bool)
  | putData (retval : Retcode)
  deriving DecidableEq, Repr

/-- The statement is not in the need-data state. -/
structure Outside (stmt : DaeStatement) : Prop where
  dataAtExec : stmt.dataAtExec < 0
  currentExecParam : stmt.currentExecParam < 0

def DaeEvent.isAsked : DaeEvent → Bool
  | .asked _ _ => true
  | .executed _ => false

/-- How many parameters are asked for. -/
def asks (trace : List DaeEvent) : Nat := trace.countP DaeEvent.isAsked

/-- The events up to the `k`-th parameter that is asked for. -/
def upTo : Nat → List DaeEvent → List DaeEvent
  | 0, _ => []
  | _, [] => []
  | k + 1, .asked row param :: trace => .asked row param :: upTo k trace
  | k + 1, .executed row :: trace => .executed row :: upTo (k + 1) trace

/-- The events behind `k` calls of `SQLParamData`: without any, the rows in front of the first
parameter have been executed. -/
def eventsThrough (k : Nat) (trace : List DaeEvent) : List DaeEvent :=
  trace.takeWhile (fun event ↦ !event.isAsked) ++
    upTo k (trace.dropWhile fun event ↦ !event.isAsked)

/-- The calls of `SQLParamData` that are not refused. -/
def paramDatas (steps : List DaeStep) : Nat := steps.count (.paramData true)

namespace DaeCall

variable (call : DaeCall)

def step (stmt : DaeStatement) : DaeStep → DaeStatement
  | .paramData closes => (call.pgapiParamData closes stmt).2
  | .putData retval => (stmt.pgapiPutData retval).2

/-- The statement behind `SQLExecute` and some steps. -/
def after (stmt : DaeStatement) (steps : List DaeStep) : DaeStatement :=
  steps.foldl call.step (call.sqlExecute stmt).2

/-- A dialogue that consists of some events. -/
structure Follows (stmt : DaeStatement) (trace : List DaeEvent) (Final : DaeStatement → Prop) :
    Prop where
  /-- Data are needed if there is a parameter to be asked for. -/
  first : (call.sqlExecute stmt).1 = none ↔ 0 < asks trace
  /-- Each `SQLParamData` asks for one, until there is none left. -/
  returns : 0 < asks trace → ∀ steps, paramDatas steps ≤ asks trace →
    ((call.pgapiParamData true (call.after stmt steps)).1 = none ↔ paramDatas steps < asks trace)
  events : 0 < asks trace → ∀ steps, paramDatas steps ≤ asks trace →
    (call.after stmt steps).events = stmt.events ++ eventsThrough (paramDatas steps) trace
  /-- `SQLCancel` leaves the dialogue at any point, and nothing is executed. -/
  cancel : 0 < asks trace → ∀ steps, paramDatas steps ≤ asks trace →
    Outside (call.after stmt steps).pgapiCancel ∧
      (call.after stmt steps).pgapiCancel.events = (call.after stmt steps).events ∧
      (call.after stmt steps).pgapiCancel.toBatchStatement =
        (call.after stmt steps).toBatchStatement
  /-- Behind the last row. -/
  ends : ∀ last, (asks trace = 0 ∧ last = (call.sqlExecute stmt).2 ∨
      0 < asks trace ∧ ∃ steps, paramDatas steps = asks trace ∧
        last = (call.pgapiParamData true (call.after stmt steps)).2) →
    last.events = stmt.events ++ trace ∧ Final last

/-- The parameters of a row that are to be asked for. -/
def daeParams (row : Nat) : List Nat :=
  (List.range call.numP).filter fun i ↦ isDataAtExec (call.indicator row i)

/-- A row is executed when all its parameters have been asked for. -/
def rowEvents (row : Nat) : List DaeEvent :=
  (call.daeParams row).map (.asked row) ++ [.executed row]

/-- The rows that are attempted: one that fails is the last one. -/
def attempted (execType : ExecType) : Nat → Nat → BatchStatement → List Nat
  | 0, _, _ => []
  | n + 1, row, stmt =>
    if (call.rows row).ignored then attempted execType n (row + 1) stmt
    else
      let executed := execRow call.toExecuteCall execType row stmt
      row :: if executed.1 = .error then [] else attempted execType n (row + 1) executed.2.1

end DaeCall

end PsqlOdbc
