import PsqlOdbc.Convert.Escape
import PsqlOdbc.Convert.Identifiers
import PsqlOdbc.Lib.Doubling

/-!
# The fields of a parsed statement (`parse.c`, `descriptor.h`)

When `parse_the_statement` has the columns of the tables, it resolves the fields of the statement
one by one, in the array that they are in.  A field that stands for all columns is replaced: the
fields behind it are moved up, in an array that grows by doubling, and a record is made for each
column.  Columns are counted in 16 bits.
-/

namespace PsqlOdbc

open Lib

/-! ## Fields and tables -/

/-- A row of the result that describes the columns of a table. -/
structure ColumnRow where
  columnName : List UInt8
  fieldType : Nat
  precision : Int
  length : Int
  scale : Option Int
  nullable : Int
  displaySize : Int
  autoIncrement : Int
  physicalNumber : Int
  baseTypeid : Nat
  atttypmod : Int
  deriving DecidableEq, Repr

/-- A `TABLE_INFO` whose columns are known; it has some. -/
structure TableInfo where
  columns : List ColumnRow
  isUpdatable : Bool
  columns_ne : columns ≠ []
  deriving DecidableEq

/-- A `FIELD_INFO`. -/
structure FieldInfo where
  flag : Nat
  updatable : Bool
  attnum : Int
  schemaName : PgName
  ti : Option TableInfo
  columnName : PgName
  columnAlias : PgName
  nullable : Int
  autoIncrement : Int
  func : Bool
  columnkey : Int
  columnSize : Int
  decimalDigits : Int
  displaySize : Int
  length : Int
  columntype : Nat
  basetype : Nat
  typmod : Int
  expr : Bool
  quote : Bool
  dquote : Bool
  numeric : Bool
  beforeDot : PgName
  deriving DecidableEq

/-- `FIELD_PARSING`. -/
def fieldParsing : Nat := 1

/-- `FI_Constructor`. -/
def fiConstructor : FieldInfo where
  flag := 0
  updatable := false
  attnum := 0
  schemaName := none
  ti := none
  columnName := none
  columnAlias := none
  nullable := 1
  autoIncrement := 0
  func := false
  columnkey := -1
  columnSize := 0
  decimalDigits := 0
  displaySize := 0
  length := 0
  columntype := 0
  basetype := 0
  typmod := -1
  expr := false
  quote := false
  dquote := false
  numeric := false
  beforeDot := none

/-- `getColInfo`. -/
def getColInfo (row : ColumnRow) (fi : FieldInfo) : FieldInfo :=
  { fi with
    dquote := true
    columnName := some row.columnName
    columntype := row.fieldType
    columnSize := row.precision
    length := row.length
    decimalDigits := row.scale.getD (-1)
    nullable := row.nullable
    displaySize := row.displaySize
    autoIncrement := row.autoIncrement }

/-- The row is the one that `searchColInfo` searches for. -/
def isColumnOf (fi : FieldInfo) (row : ColumnRow) : Bool :=
  if 0 < fi.attnum then
    row.physicalNumber = fi.attnum ∧
      (if row.baseTypeid = 0 then row.fieldType else row.baseTypeid) = fi.basetype ∧
      row.atttypmod = fi.typmod
  else
    match fi.columnName with
    | none => false
    | some name => if fi.dquote then row.columnName = name else stricmpEq row.columnName name

/-- `searchColInfo`: the field as it has been found. -/
def searchColInfo (rows : List ColumnRow) (fi : FieldInfo) : Option FieldInfo :=
  if fi.attnum < 0 then none else (rows.find? (isColumnOf fi)).map (getColInfo · fi)

/-- Functions and literals, which are not resolved. -/
def FieldInfo.isValue (fi : FieldInfo) : Bool := fi.func || fi.quote || fi.numeric

/-- A field that is expanded: it is told by the first character of its name. -/
def FieldInfo.expands (fi : FieldInfo) : Bool :=
  !fi.isValue && (fi.columnName.getD []).head? = some 0x2a

/-- `fupdatable`. -/
def fieldUpdatable (updatable : Bool) (fi : FieldInfo) : Bool :=
  match fi.ti with
  | some ti => updatable && ti.isUpdatable
  | none => false

/-- What becomes of a field that is not expanded, and whether it has been found. -/
def resolveField (tables : List TableInfo) (updatable : Bool) (wfi : FieldInfo) :
    FieldInfo × Bool :=
  let wfi := { wfi with updatable := fieldUpdatable updatable wfi }
  if wfi.isValue then ({ wfi with updatable := false }, true)
  else
    match wfi.ti with
    | some ti =>
      match searchColInfo ti.columns wfi with
      | some found => (found, true)
      | none => ({ wfi with updatable := false }, false)
    | none =>
      match tables.findSome? fun ti ↦
        (searchColInfo ti.columns wfi).map ({ · with ti := some ti }) with
      | some found => (found, true)
      | none => ({ wfi with updatable := false }, false)

/-- The record that is made for a column. -/
def columnField (fupdatable : Bool) (ti : TableInfo) (row : ColumnRow) : FieldInfo :=
  { getColInfo row { fiConstructor with ti := some ti } with updatable := fupdatable }

/-! ## The array -/

/-- What an `IRDFields` has of the fields, with the array of `fi` as it has been allocated. -/
structure IRDFields where
  nfields : Int
  allocated : Int
  fi : List (Option FieldInfo)
  deriving DecidableEq

/-- `FLD_INCR`. -/
def fldIncr : Int := 32

/-- `allocateFields`.  There is no result if so many pointers cannot be allocated. -/
def allocateFields (irdflds : IRDFields) (sizeRequested : Int) : Option IRDFields :=
  if wrapUnsigned 64 sizeRequested ≤ wrapUnsigned 64 irdflds.allocated then some irdflds
  else
    let allocSize := if irdflds.allocated ≠ 0 then wrapUnsigned 64 irdflds.allocated else fldIncr
    match doubleUntil (wrapUnsigned 64) (wrapUnsigned 64 sizeRequested) 65 allocSize with
    | none => none
    | some allocSize =>
      if 2 ^ 61 ≤ allocSize then none
      else some
        { irdflds with
          fi := irdflds.fi.take allocSize.toNat ++
            List.replicate (allocSize.toNat - irdflds.fi.length) none
          allocated := wrapSigned 16 allocSize }

section

variable {α : Type*}

/-- The entry at a place of an array; no result if it is not in the array. -/
def cellAt (cells : List α) (i : Int) : Option α := if 0 ≤ i then cells[i.toNat]? else none

/-- A store at a place of an array. -/
def putCell (cells : List α) (i : Int) (x : α) : Option (List α) :=
  if 0 ≤ i ∧ i.toNat < cells.length then some (cells.set i.toNat x) else none

/-- The loop that moves `n` entries behind the place `i` up, the last one first. -/
def moveUp (increased i : Int) : Nat → List α → Option (List α)
  | 0, cells => some cells
  | n + 1, cells =>
    (cellAt cells (i + n + 1)).bind fun x ↦
      (putCell cells (increased + (i + n + 1)) x).bind (moveUp increased i n)

end

/-! ## The loop -/

/-- The number of columns as the loop has it. -/
def TableInfo.cols (ti : TableInfo) : Int := wrapSigned 16 ti.columns.length

/-- `total_cols`. -/
def totalCols (tables : List TableInfo) : Int :=
  tables.foldl (fun total ti ↦ wrapSigned 16 (total + ti.cols)) 0

/-- The records of some columns, from the place `i` on. -/
def storeColumns (fupdatable : Bool) (ti : TableInfo) :
    List ColumnRow → Int → List (Option FieldInfo) → Option (List (Option FieldInfo))
  | [], _, cells => some cells
  | row :: rows, i, cells =>
    (putCell cells i (some (columnField fupdatable ti row))).bind
      (storeColumns fupdatable ti rows (i + 1))

/-- The records of the columns of some tables, from the place `i` on; the place behind them. -/
def storeTables (fupdatable : Bool) :
    List TableInfo → Int → List (Option FieldInfo) → Option (Int × List (Option FieldInfo))
  | [], i, cells => some (i, cells)
  | ti :: tables, i, cells =>
    (storeColumns fupdatable ti (ti.columns.take ti.cols.toNat) i cells).bind
      (storeTables fupdatable tables (i + ti.cols))

/-- The variables of the loop. -/
structure FieldLoop where
  i : Int
  irdflds : IRDFields
  parse : Bool
  deriving DecidableEq

/-- `irdflds` with room for the columns, if necessary. -/
def roomForColumns (irdflds : IRDFields) (increasedCols : Int) : Option IRDFields :=
  let newSize := wrapSigned 32 (irdflds.nfields + increasedCols)
  if irdflds.allocated < newSize then allocateFields irdflds newSize else some irdflds

/-- The tables that a star stands for: its own, or all of them. -/
def FieldInfo.starTables (tables : List TableInfo) (fi : FieldInfo) : List TableInfo :=
  match fi.ti with
  | some ti => [ti]
  | none => tables

/-- The same, once the entries have been moved: the table of a qualified star is read again from the
array. -/
def namedTables (tables : List TableInfo) (wfi : FieldInfo) (cells : List (Option FieldInfo))
    (i : Int) : Option (List TableInfo) :=
  match wfi.ti with
  | some _ => (cellAt cells i).bind fun cell ↦ (cell.bind (·.ti)).map fun ti ↦ [ti]
  | none => some tables

/-- The columns in the place of a field. -/
def expandField (tables : List TableInfo) (fupdatable : Bool) (s : FieldLoop) (wfi : FieldInfo) :
    Option FieldLoop := do
  let increasedCols := wrapSigned 16 (totalCols (wfi.starTables tables) - 1)
  let irdflds ← roomForColumns s.irdflds increasedCols
  let moved ← moveUp increasedCols s.i (wrapSigned 32 irdflds.nfields - 1 - s.i).toNat irdflds.fi
  let named ← namedTables tables wfi moved s.i
  let (i, fi) ← storeTables fupdatable named s.i moved
  some
    { s with
      i := i
      irdflds := { irdflds with
        nfields := wrapUnsigned 32 (irdflds.nfields + increasedCols)
        fi := fi } }

/-- A round of the loop. -/
def fieldRound (tables : List TableInfo) (updatable : Bool) (s : FieldLoop) : Option FieldLoop := do
  let cell ← cellAt s.irdflds.fi s.i
  let wfi ← cell
  let fupdatable := fieldUpdatable updatable wfi
  if wfi.expands then
    let fi ← putCell s.irdflds.fi s.i (some { wfi with updatable := fupdatable })
    expandField tables fupdatable { s with irdflds := { s.irdflds with fi := fi } } wfi
  else
    let (found, known) := resolveField tables updatable wfi
    let fi ← putCell s.irdflds.fi s.i (some found)
    some
      { i := s.i + 1
        irdflds := { s.irdflds with fi := fi }
        parse := s.parse && known }

end PsqlOdbc
