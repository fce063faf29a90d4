import PsqlOdbc.Lib.Linked
import PsqlOdbc.Convert.QueryParse

/-!
# The results of a statement (`statement.c`, `connection.c`, `execute.c`)

The results a statement has are linked from `rhold.first` by `lnext`; `rhold.last` is the last of
them, behind which those of the next execution go.  `CC_send_query_append` links what the server
answers, `SC_execute` puts it behind what there is, drops what the application does not ask for, and
fetches the cursors a procedure returns.
-/

namespace PsqlOdbc

open Lib

/-! ## Results -/

/-- What is read of a `QResultClass` besides its link: the command tag, whether `rstatus` is one of
the errors, the types of the columns, and the values of the first row. -/
structure ResultData where
  command : Option (List UInt8)
  failed : Bool
  aborted : Bool
  fields : List ℕ
  firstRow : List (Option (List UInt8))
  deriving DecidableEq, Repr

/-- `QR_Constructor`. -/
def qrConstructor : ResultData := ⟨none, false, false, [], []⟩

/-- `QResultHold`. -/
structure QResultHold where
  first : Option ℕ
  last : Option ℕ
  deriving DecidableEq, Repr

/-- The results of a `StatementClass`, and all there are. -/
structure ResultStatement where
  heap : Links ResultData
  rhold : QResultHold
  curres : Option ℕ

/-- `SC_Constructor`. -/
def ResultStatement.new : ResultStatement := ⟨.empty, ⟨none, none⟩, none⟩

/-- `QR_command_maybe_successful`. -/
def qrCommandMaybeSuccessful (heap : Links ResultData) (p : Option ℕ) : Option Bool :=
  match p with
  | none => some false
  | some addr => (heap.blocks addr).map fun link ↦ !link.data.failed

/-- `PG_TYPE_REFCURSOR`. -/
def pgTypeRefcursor : ℕ := 1790

/-! ## Sending a query -/

/-- Why rows could not be read: an error of the server, no memory, or key columns without room for
their values. -/
inductive ReadFailure
  | server
  | noMemory
  | internal
  deriving DecidableEq, Repr

/-- A result of `PQgetResult`.  Notices change nothing that is read here. -/
inductive PgAnswer
  | commandOk (cmd : List UInt8)
  | emptyQuery
  | fatalError
  | tuples (cmd : List UInt8) (fields : List ℕ) (firstRow : List (Option (List UInt8)))
  | tuplesFailed (fields : List ℕ) (firstRow : List (Option (List UInt8))) (failure : ReadFailure)
  | copy
  | unexpected
  deriving DecidableEq, Repr

/-- A query sent: what comes back, whether a `BEGIN` was put in front of it, and whether a
`SAVEPOINT` was. -/
structure Send where
  answers : List PgAnswer
  issueBegin : Bool
  prependSavepoint : Bool
  deriving DecidableEq, Repr

/-- The variables of the loop in `CC_send_query_append`. -/
structure SendFlags where
  queryCompleted : Bool
  aborted : Bool
  readyToReturn : Bool
  /-- `retres` is null, and `cmdres` otherwise. -/
  retresNull : Bool
  /-- The rest is discarded, or there is no connection any more. -/
  ended : Bool
  discardNextBegin : Bool
  savepointInProgress : Bool
  deriving DecidableEq, Repr

/-- Before the loop. -/
def Send.flags (send : Send) : SendFlags :=
  ⟨false, false, false, true, false, send.issueBegin, send.prependSavepoint⟩

/-- A command whose result is discarded: the `BEGIN` and the `SAVEPOINT` the driver has put in
front, which are looked for once, and a `RELEASE` while the `SAVEPOINT` is awaited. -/
def SendFlags.discards (flags : SendFlags) (cmd : List UInt8) : Option SendFlags :=
  if strnicmpEq cmd (ascii "begin") then
    if flags.discardNextBegin then some { flags with discardNextBegin := false } else none
  else if strnicmpEq cmd (ascii "savepoint") then
    if flags.savepointInProgress then some { flags with savepointInProgress := false } else none
  else if strnicmpEq cmd (ascii "release") then
    if flags.savepointInProgress then some flags else none
  else none

/-- An answer goes into a new result if the query of the last one is completed. -/
def PgAnswer.takesNew : PgAnswer → Bool
  | .commandOk _ => true
  | .emptyQuery => false
  | .fatalError => false
  | .tuples _ _ _ => true
  | .tuplesFailed _ _ _ => true
  | .copy => true
  | .unexpected => false

/-- What an answer makes of its result. -/
def PgAnswer.set (flags : SendFlags) (answer : PgAnswer) (data : ResultData) : ResultData :=
  match answer with
  | .commandOk cmd =>
    match flags.discards cmd with
    | some _ => data
    | none => { data with command := some cmd }
  | .emptyQuery => { data with failed := false }
  | .fatalError => { data with failed := true, aborted := true }
  | .tuples cmd fields firstRow =>
    { data with command := some cmd, failed := false, fields := fields, firstRow := firstRow }
  | .tuplesFailed fields firstRow failure =>
    let data := { data with fields := fields, firstRow := firstRow }
    match failure with
    | .server => { data with failed := true, aborted := true }
    | .noMemory => { data with failed := true }
    | .internal => { data with failed := false }
  | .copy => { data with failed := false }
  | .unexpected => { data with failed := true, aborted := true }

/-- What an answer makes of the variables. -/
def PgAnswer.flags (flags : SendFlags) (answer : PgAnswer) : SendFlags :=
  match answer with
  | .commandOk cmd =>
    match flags.discards cmd with
    | some flags => flags
    | none => { flags with queryCompleted := true }
  | .emptyQuery => flags
  | .fatalError => { flags with aborted := true, queryCompleted := true }
  | .tuples _ _ _ => { flags with queryCompleted := true }
  | .tuplesFailed _ _ failure =>
    { flags with
      aborted := true
      retresNull := decide (failure = .internal)
      ended := flags.ended || decide (failure = .noMemory) }
  | .copy => { flags with readyToReturn := true, retresNull := false }
  | .unexpected => { flags with readyToReturn := true, retresNull := true, ended := true }

/-- The loop over the answers.  `res` is the result the last one went into. -/
def sendLoop : List PgAnswer → SendFlags → ℕ → Links ResultData →
    Option (SendFlags × ℕ × Links ResultData)
  | [], flags, res, heap => some (flags, res, heap)
  | answer :: answers, flags, res, heap =>
    if flags.ended then some (flags, res, heap)
    else
      if answer.takesNew && flags.queryCompleted then
        let next := heap.next
        (Links.setNext (some res) (some next) (heap.alloc ⟨qrConstructor, none⟩)).bind
          fun heap ↦ (heap.setData (some next) (answer.set flags)).bind
            (sendLoop answers (answer.flags flags) next)
      else (heap.setData (some res) (answer.set flags)).bind
        (sendLoop answers (answer.flags flags) res)

/-- Results other than errors are discarded. -/
def discardOthers : ℕ → Option ℕ → Links ResultData → Option (Option ℕ × Links ResultData)
  | 0, _, _ => none
  | n + 1, qres, heap =>
    (qres.bind heap.blocks).bind fun link ↦
      match link.lnext with
      | none => some (qres, heap)
      | some next =>
        if link.data.aborted then some (qres, heap)
        else (heap.setNext qres none).bind fun heap ↦ (heap.destroy qres).bind
          (discardOthers n (some next))

/-- `CC_send_query_append` with one text.  Without a connection nothing is sent. -/
def ccSendQuery (send : Option Send) (heap : Links ResultData) :
    Option (QResultHold × Links ResultData) :=
  match send with
  | none => some (⟨none, none⟩, heap)
  | some send =>
    let cmdres := heap.next
    (sendLoop send.answers send.flags cmdres (heap.alloc ⟨qrConstructor, none⟩)).bind
      fun (flags, res, heap) ↦
        if flags.readyToReturn && flags.retresNull then
          -- `cmdres` is freed with all behind it, `res` among them
          (heap.destroy (some cmdres)).map fun heap ↦ (⟨none, some res⟩, heap)
        else if flags.aborted then
          (discardOthers heap.next (some cmdres) heap).map fun (retres, heap) ↦
            (⟨retres, some res⟩, heap)
        else some (⟨some cmdres, some res⟩, heap)

/-- `CC_send_query_append` with a text behind it, which is sent by itself where round trips cost
nothing. -/
def ccSendQueryAppend (ignoreRoundtripTime : Bool) (send appendSend : Option Send)
    (heap : Links ResultData) : Option (QResultHold × Links ResultData) :=
  (ccSendQuery send heap).bind fun (rhold, heap) ↦
    if ignoreRoundtripTime then
      (qrCommandMaybeSuccessful heap rhold.first).bind fun
        | false => some (rhold, heap)
        | true =>
          (ccSendQuery appendSend heap).bind fun (rholda, heap) ↦
            (qrCommandMaybeSuccessful heap rholda.first).bind fun
              | true => (heap.setNext rhold.last rholda.first).map fun heap ↦ (rhold, heap)
              | false => (heap.destroy rhold.first).map fun heap ↦ (rholda, heap)
    else some (rhold, heap)

/-! ## The results of a statement -/

namespace ResultStatement

/-- `SC_init_Result`. -/
def scInitResult (self : ResultStatement) : ResultStatement :=
  { self with rhold := ⟨none, none⟩, curres := none }

/-- `SC_set_Result`. -/
def scSetResult (self : ResultStatement) (first : Option ℕ) : Option ResultStatement :=
  if first = self.rhold.first then some self
  else (self.heap.destroy self.rhold.first).bind fun heap ↦ (heap.last first).map fun last ↦
    ⟨heap, ⟨first, last⟩, first⟩

/-- `SC_set_ResultHold`. -/
def scSetResultHold (self : ResultStatement) (rhold : QResultHold) : Option ResultStatement :=
  if rhold.first = self.rhold.first then
    if rhold.last = self.rhold.last then some self
    else (self.heap.nextr rhold.last).map fun _ ↦
      { self with rhold := { self.rhold with last := rhold.last } }
  else (self.heap.destroy self.rhold.first).map fun heap ↦ ⟨heap, rhold, rhold.first⟩

end ResultStatement

/-! ## Executions -/

/-- What an execution meets: the state of the statement and of the connection where they are
asked for, and what the server answers. -/
structure Execution where
  /-- The connection is in use, or the statement was cancelled. -/
  inUse : Bool
  useExtendedProtocol : Bool
  isSelectType : Bool
  useCursor : Bool
  /-- The cursor is driven by a keyset and not read only. -/
  keysetDriven : Bool
  procCall : Bool
  fetchRefcursors : Bool
  ignoreRoundtripTime : Bool
  /-- An error is set while the query is sent. -/
  sendError : Bool
  /-- There is no memory for the bindings of the columns. -/
  outOfMemory : Bool
  /-- The output parameters are not got. -/
  outParamsFail : Bool
  /-- What `libpq_bind_and_exec` returns. -/
  bound : Option ResultData
  send : Option Send
  appendSend : Option Send
  /-- Whether there is a transaction when a column is looked at. -/
  inTrans : ℕ → Bool
  /-- The `FETCH` from the cursor a column names. -/
  fetches : ℕ → Option Send

namespace Execution

variable (execution : Execution)

/-- The command is `FETCH`. -/
def isFetch (data : ResultData) : Bool :=
  match data.command with
  | none => false
  | some cmd => strnicmpEq cmd (ascii "fetch")

/-- The result of `DECLARE` is thrown away: everything up to the result of `FETCH`. -/
def dropDeclare : ℕ → Option ℕ → Links ResultData → Option (Option ℕ × Links ResultData)
  | _, none, heap => some (none, heap)
  | 0, some _, _ => none
  | n + 1, some qres, heap =>
    (heap.blocks qres).bind fun link ↦
      if isFetch link.data then some (some qres, heap)
      else (heap.setNext (some qres) none).bind fun heap ↦ (heap.destroy (some qres)).bind
        (dropDeclare n link.lnext)

/-- The query is sent.  There is no result if nothing is to be looked at. -/
def sendQuery (heap : Links ResultData) : Option (Option QResultHold × Links ResultData) :=
  if execution.useExtendedProtocol then
    match execution.bound with
    | none => some (none, heap)
    | some data =>
      some (some ⟨some heap.next, some heap.next⟩, heap.alloc ⟨data, none⟩)
  else if execution.isSelectType && execution.useCursor then
    (ccSendQueryAppend execution.ignoreRoundtripTime execution.send execution.appendSend heap).bind
      fun (rhold, heap) ↦ (qrCommandMaybeSuccessful heap rhold.first).bind fun
        | false => some (some rhold, heap)
        | true => (dropDeclare heap.next rhold.first heap).map fun (first, heap) ↦
          (some { rhold with first := first }, heap)
  else (ccSendQuery execution.send heap).map fun (rhold, heap) ↦ (some rhold, heap)

/-- The columns of the first query with the rows of the second one.  The flag of the statement and
the new `rhold` are returned. -/
def swapKeyset (self : ResultStatement) (rhold : QResultHold) :
    Option (QResultHold × ResultStatement) :=
  (self.heap.nextr rhold.first).bind fun
    | none => some (rhold, self)
    | some tres =>
      (rhold.first.bind self.heap.blocks).bind fun link ↦
        (self.heap.setData (some tres) fun data ↦ { data with fields := link.data.fields }).bind
          fun heap ↦ (heap.setData rhold.first fun data ↦ { data with fields := [] }).bind
            fun heap ↦ (heap.setNext rhold.first none).bind
              fun heap ↦ (heap.destroy rhold.first).bind
                fun heap ↦ ({ self with heap := heap }.scSetResult (some tres)).map
                  fun self : ResultStatement ↦ (self.rhold, self)

/-- The new results become those of the statement, or go behind those it has. -/
def addResults (self : ResultStatement) (rhold : QResultHold) : Option ResultStatement :=
  match self.rhold.first with
  | none => self.scSetResultHold rhold
  | some _ =>
    if self.rhold.last = rhold.first then
      some { self with rhold := { self.rhold with last := rhold.last } }
    else (self.heap.setNext self.rhold.last rhold.first).map fun heap ↦
      { self with heap := heap, rhold := { self.rhold with last := rhold.last } }

/-- The variables of the loop over the columns a procedure returns. -/
structure FetchState where
  self : ResultStatement
  last : Option ℕ
  refcursorFound : Bool
  failed : Bool

/-- The cursors in the columns are fetched from. -/
def refcursorLoop (data : ResultData) : List ℕ → FetchState → Option FetchState
  | [], state => some state
  | i :: cols, state =>
    if data.fields[i]? = some pgTypeRefcursor then
      if !execution.inTrans i then some { state with failed := true }
      else
        data.firstRow[i]?.bind fun
          | none => refcursorLoop data cols { state with refcursorFound := true }
          | some _ =>
            (ccSendQuery (execution.fetches i) state.self.heap).bind fun (hold, heap) ↦
              let self := { state.self with heap := heap }
              match hold.first with
              | none =>
                refcursorLoop data cols
                  { state with self := self, refcursorFound := true }
              | some res =>
                (match state.last with
                  | none => self.scInitResult.scSetResult (some res)
                  | some last => (self.heap.setNext (some last) (some res)).map fun heap ↦
                    { self with heap := heap }).bind
                  fun self ↦ (self.heap.blocks res).bind fun link ↦
                    if link.data.failed then some ⟨self, some res, true, true⟩
                    else refcursorLoop data cols
                      ⟨self, some res, true, state.failed⟩
    else refcursorLoop data cols state

/-- The results of the cursors instead of the result of the procedure. -/
def fetchResults (self : ResultStatement) (rhold : QResultHold) :
    Option (ResultStatement × Bool) :=
  (rhold.first.bind self.heap.blocks).bind fun link ↦
    (execution.refcursorLoop link.data (List.range link.data.fields.length)
      ⟨self, none, false, false⟩).bind fun state ↦
      if state.refcursorFound then
        match state.last with
        | none =>
          let empty := state.self.heap.next
          ({ state.self with heap := state.self.heap.alloc ⟨qrConstructor, none⟩ }.scSetResult
            (some empty)).map fun self ↦ (self, state.failed)
        | some _ => (state.self.heap.destroy rhold.first).map fun heap ↦
          ({ state.self with heap := heap }, state.failed)
      else some (state.self, state.failed)

/-- The end of `SC_execute`: the results are the statement's, and what a procedure returns is
got. -/
def finish (self : ResultStatement) (rhold : QResultHold) (failed : Bool) :
    Option (ResultStatement × Bool) :=
  (addResults self rhold).bind fun self ↦
    let self := { self with
      curres := match self.curres with
        | none => self.rhold.first
        | some res => some res }
    if execution.procCall && !failed then
      if execution.fetchRefcursors then
        (execution.fetchResults self rhold).map fun (self, error) ↦
          (self, execution.outParamsFail || error)
      else some (self, execution.outParamsFail)
    else some (self, failed)

/-- `SC_execute`, with whether it returns `SQL_ERROR`. -/
def scExecute (self : ResultStatement) : Option (ResultStatement × Bool) :=
  if execution.inUse then some (self, true)
  else
    (execution.sendQuery self.heap).bind fun
      | (none, heap) => some ({ self with heap := heap }, true)
      | (some rhold, heap) =>
        let self := { self with heap := heap }
        match rhold.first with
        | none => execution.finish self rhold true
        | some first =>
          (heap.blocks first).bind fun link ↦
            let failed := execution.sendError || link.data.failed
            if link.data.aborted then execution.finish self rhold failed
            else if execution.outOfMemory then
              (heap.destroy rhold.first).map fun heap ↦ ({ self with heap := heap }, true)
            else if execution.keysetDriven && !execution.useCursor then
              (swapKeyset self rhold).bind fun (rhold, self) ↦ execution.finish self rhold failed
            else execution.finish self rhold failed

/-- `Exec_with_parameters_resolved`.  Where the row is kept for later, or could not be made a text,
nothing is executed. -/
def execWithParametersResolved (execution : Option Execution) (self : ResultStatement) :
    Option ResultStatement :=
  match execution with
  | none => some self
  | some execution =>
    (execution.scExecute self).bind fun
      | (self, true) => some self
      | (self, false) =>
        if execution.keysetDriven then
          (self.heap.nextr self.rhold.first).bind fun
            | none => some self
            | some kres =>
              (self.rhold.first.bind self.heap.blocks).bind fun link ↦
                (self.heap.setData (some kres)
                  fun data ↦ { data with fields := link.data.fields }).bind
                  fun heap ↦ (heap.setData self.rhold.first fun data ↦
                    { data with fields := [] }).bind
                    fun heap ↦ (heap.setNext self.rhold.first none).bind
                      fun heap ↦ { self with heap := heap }.scSetResult (some kres)
        else some self

end Execution

/-! ## Between executions -/

namespace ResultStatement

/-- `SC_reset_result_for_rerun`. -/
def scResetResultForRerun (self : ResultStatement) : Option ResultStatement :=
  match self.rhold.first with
  | none => some self
  | some res =>
    (self.heap.blocks res).bind fun link ↦
      if link.data.fields = [] then self.scSetResult none
      else
        -- `QR_reset_for_re_execute` keeps the columns, and frees what is linked behind
        (self.heap.destroy link.lnext).bind fun heap ↦ (heap.setNext (some res) none).bind
          fun heap ↦ (heap.setData (some res) fun data ↦
            { data with command := none, failed := false, aborted := false, firstRow := [] }).map
            fun heap ↦ { self with heap := heap, curres := none }

/-- `SC_recycle_statement` as far as the results are concerned. -/
def scRecycleStatement (self : ResultStatement) : Option ResultStatement :=
  match self.rhold.first with
  | none => some self
  | some _ => self.scSetResult none

/-- `PGAPI_FreeStmt` with `SQL_CLOSE`. -/
def sqlClose (self : ResultStatement) : Option ResultStatement :=
  self.scRecycleStatement.map fun self ↦ { self with curres := none }

/-- `PGAPI_MoreResults`. -/
def moreResults (self : ResultStatement) : Option ResultStatement :=
  match self.curres with
  | none => self.sqlClose
  | some res => (self.heap.nextr (some res)).bind fun
    | none => { self with curres := none }.sqlClose
    | some next => some { self with curres := some next }

end ResultStatement

/-- What is called on a statement. -/
inductive ResultCall
  | scExecute (execution : Execution)
  | execWithParametersResolved (execution : Option Execution)
  | scResetResultForRerun
  | scRecycleStatement
  | sqlClose
  | moreResults

/-- A call. -/
def ResultCall.run (call : ResultCall) (self : ResultStatement) : Option ResultStatement :=
  match call with
  | .scExecute execution => (execution.scExecute self).map Prod.fst
  | .execWithParametersResolved execution => Execution.execWithParametersResolved execution self
  | .scResetResultForRerun => self.scResetResultForRerun
  | .scRecycleStatement => self.scRecycleStatement
  | .sqlClose => self.sqlClose
  | .moreResults => self.moreResults

/-- Calls one after the other, from a new statement on. -/
def ResultStatement.run : List ResultCall → ResultStatement → Option ResultStatement
  | [], self => some self
  | call :: calls, self => (call.run self).bind (ResultStatement.run calls)

end PsqlOdbc
