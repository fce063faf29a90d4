import PsqlOdbc.Convert.QueryParse
import PsqlOdbc.PgTypes

/-!
# The columns of several tables (`PGAPI_Columns` in `info.c`)

One query finds the columns of all the tables that a search matches, table after table.  What the
function knows of a table it takes from the row that was fetched first, or last.  `UnionRight` is
that the answer for several tables consists of the answers for each of them.
-/

namespace PsqlOdbc

/-! ## The driver -/

/-- What the query tells of a table. -/
structure CatalogRelation where
  nspname : List UInt8
  relname : List UInt8
  relkind : UInt8
  oid : ℕ
  relhasoids : Int
  relhassubclass : Int
  deriving DecidableEq

/-- What it tells of a column.  A base type that is zero is absent. -/
structure CatalogColumn where
  attname : List UInt8
  atttypid : PgType
  typname : List UInt8
  attnum : Int
  atttypmod : Int
  attnotnull : Bool
  adbin : Option (List UInt8)
  basetype : Option PgType
  typtypmod : Int
  attidentity : List UInt8
  deriving DecidableEq

/-- The rows of the query. -/
abbrev CatalogRow := CatalogRelation × CatalogColumn

/-- What `pgtypes.c` tells of a type with its modifier. -/
structure TypeFacts where
  conciseType : Int
  sqldesctype : Int
  columnSize : Int
  bufferLength : Int
  displaySize : Int
  decimalDigits : Int
  radix : Int
  nullable : Int
  datetimeSub : Int
  transferOctetLength : Int

/-- A call of `PGAPI_Columns` on a connection, without its search for tables. -/
structure ColumnsCall where
  showOidColumn : Bool
  rowVersioning : Bool
  escColumnName : Option (List UInt8)
  /-- The condition of the query for a column. -/
  columnFound : CatalogRelation → CatalogColumn → Bool
  currCat : List UInt8
  fakeMss : Bool
  fakeOidIndex : Bool
  lobjType : PgType
  typeFacts : PgType → Int → TypeFacts

/-- A row of the answer. -/
structure ColumnsTuple where
  catalogName : List UInt8
  schemaName : List UInt8
  tableName : List UInt8
  columnName : List UInt8
  dataType : Int
  typeName : List UInt8
  precision : Int
  length : Int
  scale : Option Int
  radix : Option Int
  nullable : Int
  columnDef : Option (List UInt8)
  sqlDataType : Int
  sqlDatetimeSub : Option Int
  charOctetLength : Option Int
  ordinalPosition : ℕ
  isNullable : Option (List UInt8)
  displaySize : Int
  fieldType : PgType
  autoIncrement : Bool
  physicalNumber : Int
  tableOid : ℕ
  baseTypeid : Option PgType
  atttypmod : Int
  tableInfo : ℕ
  deriving DecidableEq

/-- `set_nullfield_int2`. -/
def setNullfieldInt2 (value : Int) : Option Int := if value = -1 then none else some value

/-- `OID_NAME`. -/
def oidName : List UInt8 := ascii "oid"

/-- `XMIN_NAME`. -/
def xminName : List UInt8 := ascii "xmin"

/-- `pg_true_type`. -/
def pgTrueType (lobjType type : PgType) : Option PgType → PgType
  | none => type
  | some basetype => if type = lobjType then type else basetype

namespace ColumnsCall

variable (call : ColumnsCall)

/-- A pseudo column is not ruled out by the name of the column. -/
def names (pseudo : List UInt8) : Bool := call.escColumnName.all (· == pseudo)

/-- `add_tuple_for_oid_or_xmin`. -/
def addTupleForOidOrXmin (ordinal : ℕ) (colname : List UInt8) (theType : PgType)
    (typname : List UInt8) (relation : CatalogRelation) (attnum : Int) (autoIncrement : Bool)
    (tableInfo : ℕ) : ColumnsTuple :=
  let facts := call.typeFacts theType (-1)
  { catalogName := call.currCat
    schemaName := relation.nspname
    tableName := relation.relname
    columnName := colname
    dataType := facts.conciseType
    typeName := typname
    precision := facts.columnSize
    length := facts.bufferLength
    scale := setNullfieldInt2 facts.decimalDigits
    radix := setNullfieldInt2 facts.radix
    nullable := 0 -- `SQL_NO_NULLS`
    columnDef := none
    sqlDataType := facts.conciseType
    sqlDatetimeSub := none
    charOctetLength := none
    ordinalPosition := ordinal
    isNullable := some (ascii "No")
    displaySize := facts.displaySize
    fieldType := theType
    autoIncrement := autoIncrement
    physicalNumber := attnum
    tableOid := relation.oid
    baseTypeid := none
    atttypmod := -1
    tableInfo := tableInfo }

/-- `COLUMNS_TYPE_NAME` and `auto_unique`. -/
def typeNameAndUnique (setIdentity : Bool) (fieldType : PgType) (column : CatalogColumn) :
    List UInt8 × Bool :=
  let attdef := column.adbin.filter (· ≠ [])
  let numbered : List UInt8 × Bool :=
    if column.attidentity ≠ [] ∨
        (attdef.any fun text ↦ strnicmpEq text (ascii "nextval(")) ∧ column.attnotnull = true then
      if setIdentity = false ∧ call.fakeMss = true then (column.typname ++ ascii " identity", true)
      else (column.typname, true)
    else (column.typname, false)
  match fieldType with
  | .oid => if call.fakeOidIndex then (ascii "identity", true) else numbered
  | .int4 | .int8 => numbered
  | _ => (column.typname, false)

/-- The row of the answer for a row of the query. -/
def columnTuple (setIdentity : Bool) (tableInfo ordinal : ℕ) (row : CatalogRow) : ColumnsTuple :=
  let column := row.2
  let fieldType := pgTrueType call.lobjType column.atttypid column.basetype
  let modLength := if column.basetype = some fieldType then column.typtypmod else column.atttypmod
  let modLength :=
    match fieldType with
    | .datetime | .timestampNoTmzone | .time | .timeWithTmzone | .bit => modLength
    | _ => if 4 ≤ modLength then modLength - 4 else modLength
  let facts := call.typeFacts fieldType modLength
  let named := call.typeNameAndUnique setIdentity fieldType column
  let attdef := column.adbin.filter (· ≠ [])
  { catalogName := call.currCat
    schemaName := row.1.nspname
    tableName := row.1.relname
    columnName := column.attname
    dataType := facts.conciseType
    typeName := named.1
    precision := facts.columnSize
    length := facts.bufferLength
    scale := setNullfieldInt2 facts.decimalDigits
    radix := setNullfieldInt2 facts.radix
    nullable := if column.attnotnull then 0 else facts.nullable
    columnDef := attdef.map fun text ↦ if 254 < text.length then ascii "TRUNCATE" else text
    sqlDataType := facts.sqldesctype
    sqlDatetimeSub := setNullfieldInt2 facts.datetimeSub
    charOctetLength := some facts.transferOctetLength
    ordinalPosition := ordinal
    isNullable := none
    displaySize := facts.displaySize
    fieldType := fieldType
    autoIncrement := named.2
    physicalNumber := column.attnum
    tableOid := row.1.oid
    baseTypeid := column.basetype
    atttypmod := modLength
    tableInfo := tableInfo }

/-- The `while` loop over the rows. -/
def columnsLoop (setIdentity : Bool) (tableInfo : ℕ) : ℕ → List CatalogRow → List ColumnsTuple
  | _, [] => []
  | ordinal, row :: rows =>
    call.columnTuple setIdentity tableInfo ordinal row ::
      columnsLoop setIdentity tableInfo (ordinal + 1) rows

/-- `TBINFO_HASOIDS` and `TBINFO_HASSUBCLASS`. -/
def tableInfoOf (relation : CatalogRelation) : ℕ :=
  (if relation.relhasoids ≠ 0 then 1 else 0) + if relation.relhassubclass ≠ 0 then 2 else 0

/-- The table has a row for its oids. -/
def showsOid (relation : CatalogRelation) : Bool :=
  relation.relkind != 118 && relation.relhasoids != 0 &&
    (call.showOidColumn || (ascii "pg_").isPrefixOf relation.relname) && call.names oidName

/-- `PGAPI_Columns` from the first `PGAPI_Fetch` on.  The buffers hold `stack` before it. -/
def pgapiColumns (stack : CatalogRelation) (rows : List CatalogRow) : List ColumnsTuple :=
  let first := (rows.head?.map Prod.fst).getD stack
  let relisaview := first.relkind == 118 -- `'v'`
  let tableInfo := if rows = [] then 0 else tableInfoOf first
  let oidShown := rows ≠ [] && call.showsOid first
  let setIdentity := oidShown && call.fakeMss
  let oidTuples :=
    if oidShown then
      [call.addTupleForOidOrXmin 1 oidName .oid
        (if call.fakeMss then ascii "OID identity" else oidName) first (-2) true tableInfo]
    else []
  let tuples := oidTuples ++ call.columnsLoop setIdentity tableInfo (1 + oidTuples.length) rows
  let last := (rows.getLast?.map Prod.fst).getD stack
  if relisaview = false ∧ call.rowVersioning = true ∧ call.names xminName = true then
    tuples ++ [call.addTupleForOidOrXmin (1 + tuples.length) xminName .xid (ascii "xid") last (-3)
      false tableInfo]
  else tuples

end ColumnsCall

/-! ## What is expected -/

/-- A table with its columns. -/
structure CatalogTable extends CatalogRelation where
  columns : List CatalogColumn

/-- The tables, in the order of the query. -/
structure Catalog where
  tables : List CatalogTable
  names_nodup : (tables.map fun table ↦ (table.nspname, table.relname)).Nodup

/-- The tables that a search for schema and name matches. -/
def Catalog.matched (catalog : Catalog) (search : List UInt8 → List UInt8 → Bool) :
    List CatalogTable :=
  catalog.tables.filter fun table ↦ search table.nspname table.relname

/-- The search for a table's own name. -/
def CatalogTable.ownName (table : CatalogTable) (nspname relname : List UInt8) : Bool :=
  nspname == table.nspname && relname == table.relname

namespace ColumnsCall

variable (call : ColumnsCall)

/-- The rows of the query for a table. -/
def rowsOf (table : CatalogTable) : List CatalogRow :=
  (table.columns.filter (call.columnFound table.toCatalogRelation)).map
    fun column ↦ (table.toCatalogRelation, column)

/-- The rows of the query. -/
def query (catalog : Catalog) (search : List UInt8 → List UInt8 → Bool) : List CatalogRow :=
  (catalog.matched search).flatMap call.rowsOf

/-- The answer for a search. -/
def columns (stack : CatalogRelation) (catalog : Catalog)
    (search : List UInt8 → List UInt8 → Bool) : List ColumnsTuple :=
  call.pgapiColumns stack (call.query catalog search)

/-- Whatever lies on the stack, the answer consists of those for the names of the tables. -/
def UnionRight (catalog : Catalog) (search : List UInt8 → List UInt8 → Bool) : Prop :=
  ∀ (stack : CatalogRelation) (others : CatalogTable → CatalogRelation),
    call.columns stack catalog search =
      (catalog.matched search).flatMap fun table ↦
        call.columns (others table) catalog table.ownName

/-- A row is added for the version of the rows. -/
def versioned : Bool := call.rowVersioning && call.names xminName

/-- Not more than one of the tables has columns to be shown.  With the version of the rows there
is just one table, and it has columns. -/
def OneTable (catalog : Catalog) (search : List UInt8 → List UInt8 → Bool) : Prop :=
  if call.versioned then ∃ table, catalog.matched search = [table] ∧ call.rowsOf table ≠ []
  else ((catalog.matched search).filter fun table ↦ call.rowsOf table ≠ []).length ≤ 1

/-! ## Counting the answers -/

variable {call} {stack stack' : CatalogRelation} {rows : List CatalogRow}

theorem columnsLoop_ordinals {setIdentity : Bool} {tableInfo : ℕ} (ordinal : ℕ) :
    (call.columnsLoop setIdentity tableInfo ordinal rows).map ColumnsTuple.ordinalPosition =
      List.range' ordinal rows.length := by
  induction rows generalizing ordinal with
  | nil => rfl
  | cons row rows ih =>
    rw [columnsLoop, List.map_cons, ih, List.length_cons, List.range'_succ]
    rfl

@[simp] theorem columnsLoop_length {setIdentity : Bool} {tableInfo : ℕ} (ordinal : ℕ) :
    (call.columnsLoop setIdentity tableInfo ordinal rows).length = rows.length := by
  rw [← List.length_map ColumnsTuple.ordinalPosition, columnsLoop_ordinals, List.length_range']

/-- Rows numbered from 1 on. -/
def Numbered (tuples : List ColumnsTuple) : Prop :=
  tuples.map ColumnsTuple.ordinalPosition = List.range' 1 tuples.length

theorem Numbered.concat {tuples : List ColumnsTuple} (h : Numbered tuples) {tuple : ColumnsTuple}
    (hordinal : tuple.ordinalPosition = 1 + tuples.length) : Numbered (tuples ++ [tuple]) := by
  rw [Numbered, List.map_append, h, List.length_append, List.length_singleton,
    List.range'_1_concat, List.map_singleton, hordinal]

/-- Just one row is the first. -/
theorem Numbered.count_one {tuples : List ColumnsTuple} (h : Numbered tuples) :
    (tuples.map ColumnsTuple.ordinalPosition).count 1 = if tuples = [] then 0 else 1 := by
  rw [h]
  cases tuples with
  | nil => rfl
  | cons tuple tuples =>
    have habsent : 1 ∉ List.range' 2 tuples.length := by simp [List.mem_range'_1]
    rw [List.length_cons, List.range'_succ, List.count_cons_self, List.count_eq_zero.2 habsent,
      if_neg (List.cons_ne_nil _ _)]

/-- The rows of an answer are numbered from 1 on. -/
theorem pgapiColumns_numbered : Numbered (call.pgapiColumns stack rows) := by
  have hloop (oidTuples : List ColumnsTuple) (setIdentity : Bool) (tableInfo : ℕ)
      (h : Numbered oidTuples) : Numbered (oidTuples ++
        call.columnsLoop setIdentity tableInfo (1 + oidTuples.length) rows) := by
    rw [Numbered, List.map_append, h, columnsLoop_ordinals, List.length_append, columnsLoop_length,
      List.range'_append_1]
  have hoid (tuple : ColumnsTuple) (hfirst : tuple.ordinalPosition = 1) (shown : Bool) :
      Numbered (if shown then [tuple] else []) := by
    cases shown with
    | false => rfl
    | true => exact congrArg (fun ordinal ↦ [ordinal]) hfirst
  unfold pgapiColumns
  dsimp only
  split
  · exact (hloop _ _ _ (hoid _ rfl _)).concat rfl
  · exact hloop _ _ _ (hoid _ rfl _)

theorem pgapiColumns_nil :
    call.pgapiColumns stack [] =
      if stack.relkind ≠ 118 ∧ call.versioned = true then
        [call.addTupleForOidOrXmin 1 xminName .xid (ascii "xid") stack (-3) false 0]
      else [] := by
  simp [pgapiColumns, versioned, columnsLoop]

/-- What lies on the stack does not matter where a row is fetched. -/
theorem pgapiColumns_of_ne_nil (hrows : rows ≠ []) :
    call.pgapiColumns stack rows = call.pgapiColumns stack' rows := by
  cases rows with
  | nil => exact absurd rfl hrows
  | cons row rows =>
    have hlast : ((row :: rows).getLast?.map Prod.fst).getD stack =
        ((row :: rows).getLast?.map Prod.fst).getD stack' := by
      rw [List.getLast?_eq_some_getLast (List.cons_ne_nil row rows)]
      rfl
    unfold pgapiColumns
    rw [hlast]
    rfl

theorem pgapiColumns_ne_nil (hrows : rows ≠ []) : call.pgapiColumns stack rows ≠ [] := by
  obtain ⟨row, rows, rfl⟩ := List.exists_cons_of_ne_nil hrows
  intro h
  have hlength := congrArg List.length h
  simp only [pgapiColumns] at hlength
  split at hlength <;> simp at hlength

/-! ## The union of the answers -/

variable {catalog : Catalog} {search : List UInt8 → List UInt8 → Bool}

/-- A table's own name matches that table. -/
theorem matched_ownName {table : CatalogTable} (hmem : table ∈ catalog.tables) :
    catalog.matched table.ownName = [table] := by
  obtain ⟨tables, hnodup⟩ := catalog
  change tables.filter _ = [table]
  induction tables with
  | nil => cases hmem
  | cons head tables ih =>
    rw [List.map_cons, List.nodup_cons] at hnodup
    rw [List.filter_cons]
    rcases List.mem_cons.1 hmem with rfl | hmem
    · have hothers :
          tables.filter (fun other ↦ table.ownName other.nspname other.relname) = [] := by
        refine List.filter_eq_nil_iff.2 fun other hother hsame ↦ hnodup.1 ?_
        refine List.mem_map.2 ⟨other, hother, ?_⟩
        simpa [CatalogTable.ownName] using hsame
      rw [hothers, if_pos (by simp [CatalogTable.ownName])]
    · have hne : ¬ table.ownName head.nspname head.relname = true := by
        intro hsame
        refine hnodup.1 (List.mem_map.2 ⟨table, hmem, ?_⟩)
        have hnames : head.nspname = table.nspname ∧ head.relname = table.relname := by
          simpa [CatalogTable.ownName] using hsame
        rw [hnames.1, hnames.2]
      rw [if_neg hne, ih hnodup.2 hmem]

theorem columns_ownName {table : CatalogTable} (hmem : table ∈ catalog.matched search) :
    call.columns stack catalog table.ownName = call.pgapiColumns stack (call.rowsOf table) := by
  rw [columns, query, matched_ownName (List.mem_filter.1 hmem).1, List.flatMap_singleton]

/-- The union, told by the rows of the query. -/
theorem unionRight_iff_rows : call.UnionRight catalog search ↔
    ∀ (stack : CatalogRelation) (others : CatalogTable → CatalogRelation),
      call.pgapiColumns stack ((catalog.matched search).flatMap call.rowsOf) =
        (catalog.matched search).flatMap fun table ↦
          call.pgapiColumns (others table) (call.rowsOf table) := by
  refine forall₂_congr fun stack others ↦ ?_
  rw [List.flatMap_congr fun table hmem ↦ columns_ownName hmem]
  rfl

/-- Each answer that is not empty has one row with the number 1. -/
theorem count_answers {tables : List CatalogTable} {others : CatalogTable → CatalogRelation}
    (h : call.pgapiColumns stack rows =
      tables.flatMap fun table ↦ call.pgapiColumns (others table) (call.rowsOf table)) :
    (tables.filter fun table ↦
      call.pgapiColumns (others table) (call.rowsOf table) ≠ []).length ≤ 1 := by
  have hcount : ((call.pgapiColumns stack rows).map ColumnsTuple.ordinalPosition).count 1 =
      (tables.filter fun table ↦
        call.pgapiColumns (others table) (call.rowsOf table) ≠ []).length := by
    rw [h]
    clear h
    induction tables with
    | nil => rfl
    | cons table tables ih =>
      rw [List.flatMap_cons, List.map_append, List.count_append, ih,
        pgapiColumns_numbered.count_one, List.filter_cons]
      by_cases hempty : call.pgapiColumns (others table) (call.rowsOf table) = []
      · simp [hempty]
      · simp [hempty, Nat.add_comm]
  rw [← hcount, pgapiColumns_numbered.count_one]
  split <;> omega

/-- Tables without rows may be left out. -/
theorem flatMap_rows {β : Type} (g : CatalogTable → List β) (tables : List CatalogTable)
    (h : ∀ table, call.rowsOf table = [] → g table = []) :
    tables.flatMap g = (tables.filter fun table ↦ call.rowsOf table ≠ []).flatMap g := by
  induction tables with
  | nil => rfl
  | cons table tables ih =>
    rw [List.flatMap_cons, ih, List.filter_cons]
    by_cases hrows : call.rowsOf table = []
    · simp [hrows, h table hrows]
    · simp [hrows]

/-- With the version of the rows a table without columns has an answer or not, as it happens. -/
theorem oneTable_of_versioned (hversioned : call.versioned = true)
    (h : call.UnionRight catalog search) :
    ∃ table, catalog.matched search = [table] ∧ call.rowsOf table ≠ [] := by
  rw [unionRight_iff_rows] at h
  -- as if a table and a view lay on the stack
  let table : CatalogRelation := ⟨[], [], 114, 0, 0, 0⟩
  let view : CatalogRelation := ⟨[], [], 118, 0, 0, 0⟩
  have hanswer (rows : List CatalogRow) : call.pgapiColumns table rows ≠ [] := by
    by_cases hrows : rows = []
    · rw [hrows, pgapiColumns_nil, if_pos ⟨by decide, hversioned⟩]
      exact List.cons_ne_nil _ _
    · exact pgapiColumns_ne_nil hrows
  have hle := count_answers (h table fun _ ↦ table)
  rw [List.filter_eq_self.2 fun _ _ ↦ decide_eq_true (hanswer _)] at hle
  rcases hmatched : catalog.matched search with _ | ⟨only, _ | ⟨second, rest⟩⟩
  · exact absurd (hmatched ▸ h table fun _ ↦ table) (hanswer _)
  · refine ⟨only, rfl, fun hrows ↦ ?_⟩
    have hview := h view fun _ ↦ table
    rw [hmatched, List.flatMap_singleton, List.flatMap_singleton, hrows, pgapiColumns_nil,
      if_neg (by simp [view])] at hview
    exact hanswer [] hview.symm
  · rw [hmatched] at hle
    simp at hle

/-- The answer for several tables consists of the answers for each of them exactly if there is not
more than one with columns. -/
theorem unionRight_iff (call : ColumnsCall) (catalog : Catalog)
    (search : List UInt8 → List UInt8 → Bool) :
    call.UnionRight catalog search ↔ call.OneTable catalog search := by
  unfold OneTable
  cases hversioned : call.versioned with
  | true =>
    rw [if_pos rfl]
    refine ⟨oneTable_of_versioned hversioned, ?_⟩
    rintro ⟨table, hmatched, hrows⟩
    rw [unionRight_iff_rows]
    intro stack others
    rw [hmatched, List.flatMap_singleton, List.flatMap_singleton]
    exact pgapiColumns_of_ne_nil hrows
  | false =>
    have hnone (stack : CatalogRelation) : call.pgapiColumns stack [] = [] := by
      rw [pgapiColumns_nil, if_neg (by simp [hversioned])]
    rw [if_neg Bool.false_ne_true, unionRight_iff_rows]
    constructor
    · intro h
      let stack : CatalogRelation := ⟨[], [], 118, 0, 0, 0⟩
      refine le_of_eq_of_le (congrArg List.length (List.filter_congr fun table _ ↦ ?_))
        (count_answers (h stack fun _ ↦ stack))
      refine decide_eq_decide.2 (not_congr ⟨fun hrows ↦ by rw [hrows, hnone], fun hempty ↦ ?_⟩)
      by_contra hrows
      exact pgapiColumns_ne_nil hrows hempty
    · intro hone stack others
      rw [flatMap_rows call.rowsOf _ fun _ hrows ↦ hrows,
        flatMap_rows (fun table ↦ call.pgapiColumns (others table) (call.rowsOf table)) _
          fun table hrows ↦ by rw [hrows, hnone]]
      rcases hfilter : (catalog.matched search).filter (fun table ↦ call.rowsOf table ≠ []) with
        _ | ⟨only, _ | ⟨second, rest⟩⟩
      · exact hnone stack
      · have hrows : call.rowsOf only ≠ [] := by
          have hmem := List.mem_filter.1 (hfilter ▸ List.mem_singleton_self only)
          exact of_decide_eq_true hmem.2
        rw [List.flatMap_singleton, List.flatMap_singleton]
        exact pgapiColumns_of_ne_nil hrows
      · rw [hfilter] at hone
        simp at hone

/-! ## Two tables -/

/-- A call that asks for no pseudo columns. -/
def plainCall : ColumnsCall where
  showOidColumn := false
  rowVersioning := false
  escColumnName := none
  columnFound _ _ := true
  currCat := ascii "db"
  fakeMss := false
  fakeOidIndex := false
  lobjType := .loUndefined
  typeFacts _ _ := ⟨4, 4, 10, 4, 11, 0, 10, 1, -1, -1⟩

/-- A table with one column of the type `int4`, or a table that has been inherited from. -/
def oneColumn (relname : List UInt8) (relhassubclass : Int) : CatalogTable where
  nspname := ascii "public"
  relname := relname
  relkind := 114
  oid := 16384
  relhasoids := 0
  relhassubclass := relhassubclass
  columns := [⟨ascii "id", .int4, ascii "int4", 1, -1, true, none, none, -1, []⟩]

/-- The tables `a` and `b`. -/
def twoTables : Catalog where
  tables := [oneColumn (ascii "a") 0, oneColumn (ascii "b") 1]
  names_nodup := by decide

/-- The column of `b` has the ordinal position 2, and the table information of `a`. -/
theorem twoTables_not_right : ¬ plainCall.UnionRight twoTables fun _ _ ↦ true := by
  intro h
  have htuples := congrArg
    (List.map fun tuple ↦ (tuple.ordinalPosition, tuple.tableInfo))
    (h (oneColumn [] 0).toCatalogRelation fun _ ↦ (oneColumn [] 0).toCatalogRelation)
  exact absurd htuples (by decide)

end ColumnsCall

end PsqlOdbc
