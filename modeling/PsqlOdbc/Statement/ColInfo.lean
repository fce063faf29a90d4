import Mathlib.Data.List.ReduceOption
import PsqlOdbc.Convert.Escape
import PsqlOdbc.Lib.CountingBuffer
import PsqlOdbc.Lib.Doubling
import PsqlOdbc.Lib.RefCount

/-!
# Cached column information (`parse.c`, `connection.c`, `descriptor.c`)

A connection keeps the columns of the tables that its statements have used, in a table of
`COL_INFO`s.  A `TABLE_INFO` of a statement points to the one of its table.  A counter of each says
when it can be freed.  `CacheRight` is what these counters and the table should be at any time.
-/

namespace PsqlOdbc

open Lib Lib.CountingBuffer

/-! ## The driver -/

/-- What is used of the result of `PGAPI_Columns`, which is the same in all its rows. -/
structure ColumnsRow where
  tableOid : Nat
  schemaName : Option (List UInt8)
  tableName : Option (List UInt8)
  deriving DecidableEq, Repr

/-- `COL_INFO`, first as `col_info_initialize` leaves it. -/
structure ColInfo where
  refcnt : Int := 0
  result : Option ColumnsRow := none
  schemaName : Option (List UInt8) := none
  tableName : Option (List UInt8) := none
  tableOid : Nat := 0
  accTime : Int := 0
  deriving DecidableEq, Repr

/-- `TABLE_INFO`. -/
structure ColiTableInfo where
  tableOid : Nat
  /-- The address of a `COL_INFO`. -/
  colInfo : Option Nat
  schemaName : Option (List UInt8)
  tableName : Option (List UInt8)
  /-- `TI_COLATTRIBUTE`. -/
  colAttribute : Bool
  deriving DecidableEq, Repr

/-- What a connection keeps. -/
structure ColiConn where
  /-- The `COL_INFO`s by their addresses; none if it has been freed. -/
  memory : List (Option ColInfo)
  /-- The memory of `col_info`; there is none before the first entry. -/
  colInfo : List (Option Nat)
  coliAllocated : Int
  ntables : Nat
  deriving DecidableEq

/-- What the server answers during a look-up, and what else it depends on. -/
structure ColiAnswers where
  /-- `CC_get_current_schema`. -/
  currentSchema : Option (List UInt8)
  /-- The schema of the table in the search path. -/
  regclassSchema : Option (List UInt8)
  /-- The result of `PGAPI_Columns`, if it succeeds and has rows. -/
  columns : Option ColumnsRow
  /-- The results for the columns of the result that `ColAttSet` does not find; none if it returns
  before them. -/
  attributes : Option (List (Option ColumnsRow))
  /-- `SC_get_time`. -/
  time : Int

def coliIncr : Int := 16

def coliRecycle : Nat := 128

/-- `SAFE_NAME`. -/
def safeName (name : Option (List UInt8)) : List UInt8 := name.getD []

/-- `!NAMEICMP(name1, name2)`. -/
def nameicmpEq (name1 name2 : Option (List UInt8)) : Bool :=
  stricmpEq (safeName name1) (safeName name2)

namespace ColiConn

/-- The entries of the table. -/
def entries (conn : ColiConn) : List (Option Nat) := conn.colInfo.take conn.ntables

/-- A `COL_INFO` is read; no result if it has been freed. -/
def read (conn : ColiConn) (coli : Nat) : Option ColInfo := objectAt conn.memory coli

def write (conn : ColiConn) (coli : Nat) (x : ColInfo) : ColiConn :=
  { conn with memory := conn.memory.set coli (some x) }

def free (conn : ColiConn) (coli : Nat) : ColiConn :=
  { conn with memory := conn.memory.set coli none }

/-- `coli->refcnt++`. -/
def addReference (conn : ColiConn) (coli : Nat) : Option ColiConn :=
  (conn.read coli).map fun x ↦ conn.write coli { x with refcnt := wrapSigned 16 (x.refcnt + 1) }

/-- The first entry with a property; there is no result if one before it cannot be read. -/
def findEntry (conn : ColiConn) (p : ColInfo → Bool) : List (Option Nat) → Option (Option Nat)
  | [] => some none
  | none :: _ => none
  | some coli :: entries =>
    (conn.read coli).bind fun x ↦ if p x then some (some coli) else conn.findEntry p entries

/-- An unused entry, or else, with `false`, the one that has not been used for the longest time. -/
def unusedEntry (conn : ColiConn) :
    List (Option Nat) → Option Nat → Int → Option (Bool × Option Nat)
  | [], ccoli, _ => some (false, ccoli)
  | none :: _, _, _ => none
  | some tcoli :: entries, ccoli, acctime =>
    (conn.read tcoli).bind fun x ↦
      if 1 < x.refcnt then conn.unusedEntry entries ccoli acctime
      else if x.tableOid = 0 ∧ x.tableName = none ∨
          strnicmpEq (safeName x.schemaName) (ascii "pg_temp_") = true then
        some (true, some tcoli)
      else if ccoli = none ∨ x.accTime < acctime then
        conn.unusedEntry entries (some tcoli) x.accTime
      else conn.unusedEntry entries ccoli acctime

/-- The entry for a table, if its oid is given. -/
def entryOf (conn : ColiConn) (greloid : Nat) : Option (Option Nat) :=
  if greloid = 0 then some none
  else conn.findEntry (fun x ↦ decide (x.tableOid = greloid)) conn.entries

/-- The entry that `getColumnsInfo` uses again. -/
def usedAgain (conn : ColiConn) (greloid : Nat) : Option (Option Nat) :=
  (conn.entryOf greloid).bind fun coli ↦
    if coli.isSome then some coli
    else (conn.unusedEntry conn.entries none 0).map fun (unused, coli) ↦
      if unused then coli
      else if coliRecycle ≤ conn.ntables then coli
      else none

/-- Room for another entry. -/
def enlarge (conn : ColiConn) : ColiConn :=
  if conn.coliAllocated ≤ conn.ntables then
    let newAlloc := wrapSigned 16 (conn.coliAllocated * 2)
    let newAlloc := if newAlloc ≤ conn.ntables then coliIncr else newAlloc
    { conn with
      colInfo := conn.colInfo.take newAlloc.toNat ++
        List.replicate (newAlloc.toNat - conn.colInfo.length) none
      coliAllocated := newAlloc }
  else conn

/-- A new entry. -/
def addEntry (conn : ColiConn) : Option (Nat × ColiConn) :=
  let conn := conn.enlarge
  (store conn.colInfo conn.ntables (some conn.memory.length)).map fun colInfo ↦
    (conn.memory.length,
      { conn with
        memory := conn.memory ++ [some {}]
        colInfo
        ntables := conn.ntables + 1 })

end ColiConn

/-- Names and oid of the table, as far as they are not known. -/
def ColiTableInfo.fill (wti : ColiTableInfo) (greloid : Nat) (res : ColumnsRow) : ColiTableInfo :=
  let greloid := if greloid = 0 then res.tableOid else greloid
  { wti with
    tableOid := if wti.tableOid = 0 then greloid else wti.tableOid
    schemaName := if wti.schemaName = none then res.schemaName else wti.schemaName
    tableName := if wti.tableName = none then res.tableName else wti.tableName }

namespace ColiConn

/-- `wti` gives back the `COL_INFO` that it points to. -/
def giveBack (conn : ColiConn) (wti : ColiTableInfo) : Option ColiConn :=
  match wti.colInfo with
  | none => some conn
  | some coli =>
    (conn.read coli).map fun x ↦
      let refcnt := wrapSigned 16 (x.refcnt - 1)
      if refcnt ≤ 0 then conn.free coli else conn.write coli { x with refcnt }

/-- `coli` is for the table of `wti` from now on. -/
def associate (conn : ColiConn) (wti : ColiTableInfo) (greloid : Nat) (res : ColumnsRow)
    (coli : Nat) (tmpRefcnt : Int) : Option (Bool × ColiConn × ColiTableInfo) :=
  let wti := wti.fill greloid res
  let conn := conn.write coli
    { refcnt := wrapSigned 16 (wrapSigned 16 tmpRefcnt + 1)
      result := some res
      schemaName := wti.schemaName
      tableName := wti.tableName
      tableOid := wti.tableOid }
  (conn.giveBack wti).bind fun conn ↦
    (conn.addReference coli).map fun conn ↦ (true, conn, { wti with colInfo := some coli })

/-- `getColumnsInfo` behind `PGAPI_Columns`. -/
def getColumnsInfo (conn : ColiConn) (wti : ColiTableInfo) (greloid : Nat) :
    Option ColumnsRow → Option (Bool × ColiConn × ColiTableInfo)
  | none => some (false, conn, wti)
  | some res =>
    (conn.usedAgain greloid).bind fun
      | some coli =>
        (conn.read coli).bind fun x ↦ conn.associate wti greloid res coli (x.refcnt - 1)
      | none => conn.addEntry.bind fun (coli, conn) ↦ conn.associate wti greloid res coli 0

/-- `getCOLIfromTable`, with the schema of the table; `none` inside if there is no such table. -/
def getCOLIfromTable (conn : ColiConn) (answers : ColiAnswers)
    (schemaName tableName : Option (List UInt8)) :
    Option (Option (Option Nat × Option (List UInt8))) :=
  let find schemaName := conn.findEntry
    (fun x ↦ nameicmpEq x.tableName tableName && nameicmpEq x.schemaName schemaName) conn.entries
  if tableName = none then some (some (none, schemaName))
  else if schemaName = none then
    (if answers.currentSchema = none then some none else find answers.currentSchema).bind fun coli ↦
      if coli.isSome then some (some (coli, answers.currentSchema))
      else if answers.regclassSchema = none then some none
      else (find answers.regclassSchema).map fun coli ↦ some (coli, answers.regclassSchema)
  else (find schemaName).map fun coli ↦ some (coli, schemaName)

/-- The look-up in the table that `getCOLIfromTI` makes. -/
def searchTI (conn : ColiConn) (answers : ColiAnswers) (greloid : Nat) (wti : ColiTableInfo) :
    Option (Option (Option Nat × Option (List UInt8))) :=
  if greloid ≠ 0 then (conn.entryOf greloid).map fun coli ↦ some (coli, wti.schemaName)
  else conn.getCOLIfromTable answers wti.schemaName wti.tableName

/-- The columns in a row that `ColAttSet` asks for. -/
def refresh (conn : ColiConn) (wti : ColiTableInfo) :
    List (Option ColumnsRow) → Option (ColiConn × ColiTableInfo)
  | [] => some (conn, wti)
  | columns :: attributes =>
    (conn.getColumnsInfo wti wti.tableOid columns).bind fun (_, conn, wti) ↦
      refresh conn wti attributes

/-- `ColAttSet`. -/
def colAttSet (conn : ColiConn) (answers : ColiAnswers) (wti : ColiTableInfo) :
    Option (ColiConn × ColiTableInfo) :=
  if wti.tableOid = 0 ∨ wti.colAttribute = true then some (conn, wti)
  else
    match answers.attributes with
    | none => some (conn, wti)
    | some attributes =>
      (conn.refresh wti attributes).map fun (conn, wti) ↦ (conn, { wti with colAttribute := true })

/-- The end of `getCOLIfromTI` if columns have been found. -/
def foundTI (conn : ColiConn) (answers : ColiAnswers) (colatt : Bool) (greloid : Nat)
    (wti : ColiTableInfo) : Option (ColiConn × ColiTableInfo) :=
  (wti.colInfo.bind conn.read).bind fun x ↦
    let wti :=
      match x.result with
      | none => wti
      | some res => wti.fill greloid res
    (if colatt then conn.colAttSet answers wti else some (conn, wti)).bind fun (conn, wti) ↦
      wti.colInfo.bind fun coli ↦
        (conn.read coli).map fun x ↦ (conn.write coli { x with accTime := answers.time }, wti)

/-- `getCOLIfromTI` for a given `TABLE_INFO`. -/
def getCOLIfromTI (conn : ColiConn) (answers : ColiAnswers) (colatt : Bool) (reloid : Nat)
    (wti : ColiTableInfo) : Option (ColiConn × ColiTableInfo) :=
  let greloid := if reloid = 0 then wti.tableOid else reloid
  if wti.colInfo.isSome then conn.foundTI answers colatt greloid wti
  else
    (conn.searchTI answers greloid wti).bind fun
      | none => some (conn, wti)
      | some (some coli, schemaName) =>
        (conn.addReference coli).bind fun conn ↦
          conn.foundTI answers colatt greloid { wti with schemaName, colInfo := some coli }
      | some (none, schemaName) =>
        if greloid ≠ 0 ∨ wti.tableName ≠ none then
          (conn.getColumnsInfo { wti with schemaName } greloid answers.columns).bind
            fun (found, conn, wti) ↦
              if found then conn.foundTI answers colatt greloid wti else some (conn, wti)
        else some (conn, { wti with schemaName })

/-- `TI_ClearObject`; the `TABLE_INFO` is gone then. -/
def tiClearObject (conn : ColiConn) (ti : ColiTableInfo) : Option ColiConn :=
  match ti.colInfo with
  | none => some conn
  | some coli =>
    (conn.read coli).map fun x ↦
      let refcnt := wrapSigned 16 (x.refcnt - 1)
      let x := if refcnt ≤ 1 ∧ x.accTime = 0 then { refcnt } else { x with refcnt }
      if refcnt ≤ 0 then conn.free coli else conn.write coli x

/-- `TI_Destructor`. -/
def tiDestructor (conn : ColiConn) : List ColiTableInfo → Option ColiConn
  | [] => some conn
  | ti :: tis => (conn.tiClearObject ti).bind fun conn ↦ conn.tiDestructor tis

/-- The loop of `CC_clear_col_info`. -/
def clearEntries (conn : ColiConn) : List (Option Nat) → Option (ColiConn × List (Option Nat))
  | [] => some (conn, [])
  | none :: entries => (conn.clearEntries entries).map fun (conn, entries) ↦ (conn, none :: entries)
  | some coli :: entries =>
    (conn.read coli).bind fun x ↦
      let refcnt := wrapSigned 16 (x.refcnt - 1)
      if refcnt ≤ 0 then
        ((conn.free coli).clearEntries entries).map fun (conn, entries) ↦ (conn, none :: entries)
      else
        ((conn.write coli { x with refcnt, accTime := 0 }).clearEntries entries).map
          fun (conn, entries) ↦ (conn, some coli :: entries)

/-- `CC_clear_col_info`. -/
def ccClearColInfo (conn : ColiConn) (destroy : Bool) : Option ColiConn :=
  if conn.colInfo = [] then some conn
  else
    (conn.clearEntries conn.entries).map fun (conn, entries) ↦
      if destroy then { conn with colInfo := [], coliAllocated := 0, ntables := 0 }
      else { conn with colInfo := entries ++ conn.colInfo.drop conn.ntables, ntables := 0 }

end ColiConn

/-- A connection and the `TABLE_INFO`s of its statements. -/
structure ColiState extends ColiConn where
  stmts : List (List ColiTableInfo)
  deriving DecidableEq

/-- A connection without statements. -/
def ColiState.fresh : ColiState := ⟨⟨[], [], 0, 0⟩, []⟩

/-- What happens on a connection. -/
inductive ColiStep
  /-- A new statement. -/
  | allocStmt
  /-- The parser finds the name of a table. -/
  | tableName (stmt : Nat) (schemaName tableName : Option (List UInt8))
  /-- The parser looks up a table. -/
  | lookUp (stmt i : Nat) (answers : ColiAnswers)
  /-- `SQLColAttribute` and its like look up the table of a column. -/
  | describe (stmt reloid : Nat) (answers : ColiAnswers)
  /-- `@@identity` stands in a query. -/
  | identity (schemaIns tableIns : Option (List UInt8)) (answers : ColiAnswers)
  /-- `SC_initialize_cols_info`, before a statement is parsed, used again or destroyed. -/
  | initializeColsInfo (stmt : Nat)
  /-- `CC_clear_col_info`, behind `DROP TABLE` and `ALTER TABLE` or when the connection ends. -/
  | clearColInfo (destroy : Bool)

namespace ColiState

/-- `getCOLIfromTI` for one of the `TABLE_INFO`s of a statement. -/
def lookUpAt (s : ColiState) (stmt i : Nat) (tis : List ColiTableInfo) (colatt : Bool)
    (reloid : Nat) (answers : ColiAnswers) : Option ColiState :=
  match tis[i]? with
  | none => some s
  | some wti =>
    (s.getCOLIfromTI answers colatt reloid wti).map fun (conn, wti) ↦
      ⟨conn, s.stmts.set stmt (tis.set i wti)⟩

/-- A step; steps of statements that there are not do nothing. -/
def step (s : ColiState) : ColiStep → Option ColiState
  | .allocStmt => some { s with stmts := s.stmts ++ [[]] }
  | .tableName stmt schemaName tableName =>
    some { s with
      stmts := s.stmts.modify stmt (· ++ [⟨0, none, schemaName, tableName, false⟩]) }
  | .lookUp stmt i answers =>
    match s.stmts[stmt]? with
    | none => some s
    | some tis => s.lookUpAt stmt i tis false 0 answers
  | .describe stmt reloid answers =>
    match s.stmts[stmt]? with
    | none => some s
    | some tis =>
      if reloid = 0 then some s
      else
        let i := tis.findIdx fun ti ↦ decide (ti.tableOid = reloid)
        let tis := if i < tis.length then tis else tis ++ [⟨reloid, none, none, none, false⟩]
        s.lookUpAt stmt i tis true reloid answers
  | .identity schemaIns tableIns answers =>
    if tableIns = none then some s
    else
      (s.getCOLIfromTI answers false 0 ⟨0, none, schemaIns, tableIns, false⟩).bind
        fun (conn, ti) ↦ (conn.tiClearObject ti).map fun conn ↦ ⟨conn, s.stmts⟩
  | .initializeColsInfo stmt =>
    match s.stmts[stmt]? with
    | none => some s
    | some tis => (s.tiDestructor tis).map fun conn ↦ ⟨conn, s.stmts.set stmt []⟩
  | .clearColInfo destroy => (s.ccClearColInfo destroy).map fun conn ↦ ⟨conn, s.stmts⟩

end ColiState

end PsqlOdbc
