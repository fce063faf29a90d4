import PsqlOdbc.SecureSscanf
import PsqlOdbc.Server.ArrayText

/-!
# The columns of procedures (`PGAPI_ProcedureColumns` in `info.c`)

The types, the modes and the names of the parameters come as the texts of arrays, which are read
side by side.  A function that returns a composite type has a row of the query for each attribute.
`Procedure.expected` is what the application should see of a function.
-/

namespace PsqlOdbc

open Lib

/-! ## The driver -/

/-- A row of the query. -/
structure ProcQueryRow where
  proname : List UInt8
  proretset : Option (List UInt8)
  prorettype : ℕ
  pronargs : ℕ
  proargtypes : Option (List UInt8)
  nspname : Option (List UInt8)
  oid : ℕ
  atttypid : Option ℕ
  attname : Option (List UInt8)
  proargnames : Option (List UInt8)
  proargmodes : Option (List UInt8)
  proallargtypes : Option (List UInt8)

/-- The values of `COLUMN_TYPE`. -/
inductive ProcColumnType
  | paramInput | paramInputOutput | resultCol | paramOutput | returnValue
  deriving DecidableEq, Repr

/-- What `pgtypes.c` tells of a type. -/
structure ProcTypeFacts where
  dataType : Int
  typeName : List UInt8
  columnSize : Int
  bufferLength : Int
  decimalDigits : Int
  numPrecRadix : Int
  sqlDataType : Int
  sqlDatetimeSub : Int
  charOctetLength : Int
  deriving DecidableEq

/-- What is used of the connection. -/
structure ProcConn where
  currCat : List UInt8
  typeFacts : ℕ → ProcTypeFacts

/-- A row of the answer. -/
structure ProcTuple where
  procedureCat : List UInt8
  procedureSchem : Option (List UInt8)
  procedureName : List UInt8
  columnName : Option (List UInt8)
  columnType : ProcColumnType
  dataType : Int
  typeName : List UInt8
  columnSize : Option Int
  bufferLength : Int
  decimalDigits : Option Int
  numPrecRadix : Option Int
  sqlDataType : Int
  sqlDatetimeSub : Option Int
  charOctetLength : Option Int
  ordinalPosition : ℕ
  deriving DecidableEq

/-- `set_nullfield_int2` and `set_nullfield_int4`. -/
def nullfield (value : Int) : Option Int := if value = -1 then none else some value

/-- `has_outparam`. -/
def hasOutparam (proargmodes : Option (List UInt8)) : Bool :=
  proargmodes.any (·.any fun c ↦ c = 111 || c = 98 || c = 116) -- `'o'`, `'b'`, `'t'`

/-- `while (isspace(*ptr) || ',' == *ptr) ptr++`. -/
def skipSeparators (text : List UInt8) : List UInt8 := text.dropWhile fun c ↦ isSpace c || c = 44

/-- An element is skipped to, unless the array has ended. -/
def skipToElement (text : List UInt8) : Option (List UInt8) :=
  match skipSeparators text with
  | [] => none
  | c :: rest => if c = 125 then none else some (c :: rest)

/-- `secure_sscanf(params, &status, "%u", ARG_UINT(&pgtype))`. -/
def readOid (params : List UInt8) : ℕ :=
  match secureSscanf params (ascii "%u") [.num .uint] with
  | some ⟨_, _, .num n :: _⟩ => n.toNat
  | _ => 0

/-- The type of a parameter, and where `params` stands behind it. -/
def readType (params : Option (List UInt8)) : ℕ × Option (List UInt8) :=
  match params.bind skipToElement with
  | none => (0, none)
  | some text => (readOid text, some (text.dropWhile isDecimal))

/-- The name of a parameter, and where `proargnames` stands behind it.  A name without an end is
discarded, with those that follow. -/
def readName (proargnames : Option (List UInt8)) : Option (List UInt8) × Option (List UInt8) :=
  match proargnames.bind skipToElement with
  | none => (none, none)
  | some text =>
    let start := if text.head? = some 34 then text.tail else text
    let inName (c : UInt8) : Bool :=
      if text.head? = some 34 then c != 34 else isNotSpace c && c != 44 && c != 125
    match start.dropWhile inName with
    | [] => (none, none)
    | _ :: rest => (some (start.takeWhile inName), some rest)

/-- `ptype`, by the letter at `proargmodes`. -/
def columnTypeOf (bRetset : Bool) (proargmodes : Option (List UInt8)) : ProcColumnType :=
  match proargmodes with
  | none => .paramInput
  | some modes =>
    let c := modes.headD 0
    if c = 111 ∨ c = 116 then if bRetset then .resultCol else .paramOutput
    else if c = 98 then .paramInputOutput
    else .paramInput

/-- `if ('{' == *ptr) ptr++`. -/
def behindBrace (text : List UInt8) : List UInt8 :=
  if text.head? = some 123 then text.tail else text

/-- `paramcount` and `params`: of `proallargtypes` if there are modes, else of `proargtypes`. -/
def paramcountAndParams (row : ProcQueryRow) : ℕ × Option (List UInt8) :=
  let counted : ℕ × Option (List UInt8) :=
    match row.proargmodes with
    | none => (0, none)
    | some modes => (modes.count 44 + 1, row.proallargtypes)
  let paramcount := if counted.1 = 0 then row.pronargs else counted.1
  (paramcount, if 0 < paramcount ∧ counted.2 = none then row.proargtypes else counted.2)

namespace ProcConn

variable (conn : ProcConn)

/-- The fields of a row, which are set in three places. -/
def tuple (row : ProcQueryRow) (columnName : Option (List UInt8)) (columnType : ProcColumnType)
    (pgtype ordinal : ℕ) : ProcTuple :=
  let facts := conn.typeFacts pgtype
  { procedureCat := conn.currCat
    procedureSchem := row.nspname
    procedureName := row.proname
    columnName := columnName
    columnType := columnType
    dataType := facts.dataType
    typeName := facts.typeName
    columnSize := nullfield facts.columnSize
    bufferLength := facts.bufferLength
    decimalDigits := nullfield facts.decimalDigits
    numPrecRadix := nullfield facts.numPrecRadix
    sqlDataType := facts.sqlDataType
    sqlDatetimeSub := nullfield facts.sqlDatetimeSub
    charOctetLength := nullfield facts.charOctetLength
    ordinalPosition := ordinal }

/-- The loop over the parameters: their rows, and `pgtype` behind it. -/
def paramsLoop (row : ProcQueryRow) (bRetset : Bool) :
    ℕ → ℕ → ℕ → Option (List UInt8) → Option (List UInt8) → Option (List UInt8) →
      List ProcTuple × ℕ
  | 0, _, pgtype, _, _, _ => ([], pgtype)
  | count + 1, j, _, params, proargmodes, proargnames =>
    let type := readType params
    let proargmodes := proargmodes.bind skipToElement
    let name := readName proargnames
    let rest :=
      paramsLoop row bRetset count (j + 1) type.1 type.2 (proargmodes.map List.tail) name.2
    (conn.tuple row (some (name.1.getD [])) (columnTypeOf bRetset proargmodes) type.1 (j + 1) ::
      rest.1, rest.2)

/-- `RESULT Columns info`. -/
def resultTuples (row : ProcQueryRow) (bRetset outparaExist : Bool) (pgtype : ℕ) :
    List ProcTuple :=
  if outparaExist = false ∧ (row.atttypid ≠ none ∨ bRetset = true) then
    let attname := if row.atttypid = none then none else row.attname
    [conn.tuple row attname (if bRetset then .resultCol else .paramOutput)
      (row.atttypid.getD pgtype) 0]
  else []

/-- `RETURN_VALUE info`. -/
def returnTuples (row : ProcQueryRow) (bRetset : Bool) : List ProcTuple :=
  if row.prorettype ≠ 0 ∧ row.prorettype ≠ 2278 ∧ bRetset = false ∧ row.atttypid = none ∧
      hasOutparam row.proargmodes = false then -- `PG_TYPE_VOID`
    [conn.tuple row (some []) .returnValue row.prorettype 0]
  else []

/-- What is done where a function begins, with `pgtype` behind it. -/
def functionTuples (row : ProcQueryRow) (bRetset : Bool) : List ProcTuple × ℕ :=
  let counted := paramcountAndParams row
  let rest := conn.paramsLoop row bRetset counted.1 0 row.prorettype (counted.2.map behindBrace)
    (row.proargmodes.map behindBrace) (row.proargnames.map behindBrace)
  (conn.returnTuples row bRetset ++ rest.1, rest.2)

/-- The loop over the rows of the query, with `poid`. -/
def procLoop : ℕ → List ProcQueryRow → List ProcTuple
  | _, [] => []
  | poid, row :: rows =>
    let bRetset := row.proretset.any fun text ↦ text.head? = some 116 || text.head? = some 121
    if poid = 0 ∨ row.oid ≠ poid then
      let function := conn.functionTuples row bRetset
      function.1 ++
        (conn.resultTuples row bRetset (hasOutparam row.proargmodes) function.2 ++
          procLoop row.oid rows)
    else conn.resultTuples row bRetset false row.prorettype ++ procLoop poid rows

/-- `PGAPI_ProcedureColumns`, behind the query. -/
def pgapiProcedureColumns (rows : List ProcQueryRow) : List ProcTuple := conn.procLoop 0 rows

end ProcConn

/-! ## What is expected -/

/-- The modes of parameters. -/
inductive ArgMode
  | input | output | inout | variadic | table
  deriving DecidableEq, Repr

/-- The letter in `proargmodes`. -/
def ArgMode.letter : ArgMode → UInt8
  | input => 105
  | output => 111
  | inout => 98
  | variadic => 118
  | table => 116

/-- What is reported for a mode.  The output parameters of a set are its columns. -/
def ArgMode.columnType (retset : Bool) : ArgMode → ProcColumnType
  | input | variadic => .paramInput
  | inout => .paramInputOutput
  | output | table => if retset then .resultCol else .paramOutput

/-- The mode has an output. -/
def ArgMode.isOut : ArgMode → Bool
  | output | inout | table => true
  | input | variadic => false

/-- A parameter.  Its type is an OID. -/
structure ProcParam where
  name : List UInt8
  mode : ArgMode
  type : ℕ
  name_nul : 0 ∉ name
  type_lt : type < 2 ^ 32

/-- A function.  A type that is not composite has no attributes. -/
structure Procedure where
  nspname : List UInt8
  proname : List UInt8
  oid : ℕ
  retset : Bool
  rettype : ℕ
  attributes : List (List UInt8 × ℕ)
  params : List ProcParam
  oid_pos : 0 < oid
  rettype_pos : 0 < rettype

namespace Procedure

variable (p : Procedure)

/-- There is a parameter with an output. -/
def hasOut : Bool := p.params.any (·.mode.isOut)

/-- All parameters are input ones: there are no `proargmodes` then. -/
def allInput : Bool := p.params.all (·.mode == .input)

/-- The row of the query for an attribute, or for none. -/
def queryRow (att : Option (List UInt8 × ℕ)) : ProcQueryRow where
  proname := p.proname
  proretset := some (if p.retset then ascii "t" else ascii "f")
  prorettype := p.rettype
  pronargs := (p.params.filter fun param ↦ param.mode ≠ .output ∧ param.mode ≠ .table).length
  proargtypes := some ([32].intercalate ((p.params.filter fun param ↦
    param.mode ≠ .output ∧ param.mode ≠ .table).map fun param ↦ decimals 1 param.type))
  nspname := some p.nspname
  oid := p.oid
  atttypid := att.map Prod.snd
  attname := att.map Prod.fst
  proargnames :=
    if p.params.all (·.name == []) then none
    else some (arrayText (p.params.map fun param ↦ elementText param.name))
  proargmodes :=
    if p.allInput then none
    else some (arrayText (p.params.map fun param ↦ [param.mode.letter]))
  proallargtypes :=
    if p.allInput then none
    else some (arrayText (p.params.map fun param ↦ decimals 1 param.type))

/-- The rows of the query for a function. -/
def queryRows : List ProcQueryRow :=
  if p.attributes = [] then [p.queryRow none]
  else p.attributes.map fun att ↦ p.queryRow (some att)

/-- A row for each parameter. -/
def expectedParams (conn : ProcConn) : List ProcTuple :=
  p.params.mapIdx fun j param ↦ conn.tuple (p.queryRow none) (some param.name)
    (param.mode.columnType p.retset) param.type (j + 1)

/-- The return value, where it is one value.  Output parameters stand for it. -/
def expectedReturn (conn : ProcConn) : List ProcTuple :=
  if p.hasOut = false ∧ p.retset = false ∧ p.attributes = [] ∧ p.rettype ≠ 2278 then
    [conn.tuple (p.queryRow none) (some []) .returnValue p.rettype 0]
  else []

/-- The columns of the result. -/
def expectedResults (conn : ProcConn) : List ProcTuple :=
  let columnType : ProcColumnType := if p.retset then .resultCol else .paramOutput
  if p.hasOut then []
  else if p.attributes ≠ [] then
    p.attributes.map fun att ↦
      conn.tuple (p.queryRow none) (some att.1) columnType att.2 0
  else if p.retset then [conn.tuple (p.queryRow none) none columnType p.rettype 0]
  else []

/-- The rows for a function. -/
def expected (conn : ProcConn) : List ProcTuple :=
  p.expectedReturn conn ++ (p.expectedParams conn ++ p.expectedResults conn)

/-- The names are printed as they are, output parameters do not come with a composite type of two
attributes or more, and what the last parameter's type and that of a returned set are reported as
is the same. -/
structure Meets (conn : ProcConn) : Prop where
  names : ∀ param ∈ p.params, 34 ∉ param.name ∧ 92 ∉ param.name
  attributes : p.hasOut = true → p.attributes.length ≤ 1
  lastType : p.hasOut = false → p.retset = true → p.attributes = [] →
    ∀ param ∈ p.params.getLast?, conn.tuple (p.queryRow none) none .resultCol param.type 0 =
      conn.tuple (p.queryRow none) none .resultCol p.rettype 0

end Procedure

end PsqlOdbc
