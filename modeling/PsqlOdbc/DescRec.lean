import PsqlOdbc.Statement.BatchExecute

/-!
# Descriptor records (`pgapi30.c`, `bind.c`)

`SQLSetDescField` takes a number or a pointer in one untyped argument.  `SQLSetDescRec` sets the fields of
a record one after the other, and `SQLGetDescRec` reads them through variables of its own.
`Descriptor.RoundTrips` is what the application may expect of the two.
-/

namespace PsqlOdbc

/-! ## The driver -/

/-- The fields of a record that the two functions know. -/
inductive DescField
  | type | datetimeIntervalCode | conciseType | octetLength | precision | scale | dataPtr
  | octetLengthPtr | indicatorPtr
  deriving DecidableEq

/-- A value that is read: how many bytes are stored depends on the field. -/
inductive DescValue
  | smallint (ival : Int16)
  | integer (ival : Int32)
  | pointer (ptr : UInt64)
  deriving DecidableEq

/-- `CAST_PTR(SQLSMALLINT, Value)`. -/
def castSmallint (value : UInt64) : Int16 := value.toUInt16.toInt16

/-- The type that a code stands for, for the types of dates and times. -/
def datetimeType (type : Int16) (value : UInt64) : Int16 :=
  if type = 9 ∨ type = 91 ∨ type = 92 ∨ type = 93 then -- `SQL_DATETIME`, `SQL_TYPE_DATE` and so on
    if value = 1 then 91 else if value = 2 then 92 else if value = 3 then 93 else type
  else type

/-- The verbose type. -/
def verboseType (type : Int16) : Int16 :=
  if type = 91 ∨ type = 92 ∨ type = 93 then 9 else type

/-- The code of a type of dates and times. -/
def intervalCode (type : Int16) : Int16 :=
  if type = 91 then 1 else if type = 92 then 2 else if type = 93 then 3 else 0

/-- A bound column or parameter: `BindInfoClass`, `ParameterInfoClass`. -/
structure BindInfo where
  buflen : Int64
  buffer : UInt64
  used : UInt64
  indicator : UInt64
  /-- `CType` of a parameter. -/
  returntype : Int16
  precision : Int16
  scale : Int16
  deriving DecidableEq

namespace BindInfo

/-- What `ARDSetField` and `APDSetField` do to a record.  They cast lengths to different types. -/
def setField (castLen : UInt64 → Int64) (info : BindInfo) (field : DescField) (value : UInt64) :
    BindInfo :=
  match field with
  | .type | .conciseType => { info with returntype := castSmallint value, buffer := 0 }
  | .datetimeIntervalCode =>
    { info with returntype := datetimeType info.returntype value, buffer := 0 }
  | .octetLength => { info with buflen := castLen value, buffer := 0 }
  | .precision => { info with precision := castSmallint value, buffer := 0 }
  | .scale => { info with scale := castSmallint value, buffer := 0 }
  | .dataPtr => { info with buffer := value }
  | .octetLengthPtr => { info with used := value }
  | .indicatorPtr => { info with indicator := value }

/-- What `ARDGetField` and `APDGetField` read.  The length is stored as a `SQLINTEGER`. -/
def getField (info : BindInfo) : DescField → DescValue
  | .type => .smallint (verboseType info.returntype)
  | .datetimeIntervalCode => .smallint (intervalCode info.returntype)
  | .conciseType => .smallint info.returntype
  | .octetLength => .integer info.buflen.toInt32
  | .precision => .smallint info.precision
  | .scale => .smallint info.scale
  | .dataPtr => .pointer info.buffer
  | .octetLengthPtr => .pointer info.used
  | .indicatorPtr => .pointer info.indicator

end BindInfo

/-- `ParameterImplClass`. -/
structure ParameterImpl where
  paramName : Option (List UInt8)
  paramType : Int16
  sqlType : Int16
  pgType : UInt32
  columnSize : UInt64
  decimalDigits : Int16
  precision : Int16
  scale : Int16
  deriving DecidableEq

namespace ParameterImpl

/-- `reset_a_iparameter_binding`. -/
def reset : ParameterImpl := ⟨none, 0, 0, 0, 0, 0, 0, 0⟩

/-- A type of dates and times. -/
def isDatetime (type : Int16) : Prop := type = 91 ∨ type = 92 ∨ type = 93 ∨ type = 9

instance (type : Int16) : Decidable (isDatetime type) :=
  inferInstanceAs (Decidable (type = 91 ∨ type = 92 ∨ type = 93 ∨ type = 9))

/-- What `IPDSetField` does to a record.  It does not know pointers. -/
def setField (impl : ParameterImpl) (field : DescField) (value : UInt64) : Option ParameterImpl :=
  match field with
  | .type =>
    some (if impl.sqlType ≠ castSmallint value then { reset with sqlType := castSmallint value }
      else impl)
  | .datetimeIntervalCode => some { impl with sqlType := datetimeType impl.sqlType value }
  | .conciseType => some { impl with sqlType := castSmallint value }
  | .octetLength => some impl
  | .precision =>
    some (if isDatetime impl.sqlType then { impl with decimalDigits := castSmallint value }
      else if impl.sqlType = 2 then { impl with precision := castSmallint value } -- `SQL_NUMERIC`
      else impl)
  | .scale => some { impl with decimalDigits := castSmallint value }
  | .dataPtr | .octetLengthPtr | .indicatorPtr => none

/-- What `IPDGetField` reads.  There is no length. -/
def getField (impl : ParameterImpl) : DescField → Option DescValue
  | .type => some (.smallint (verboseType impl.sqlType))
  | .datetimeIntervalCode => some (.smallint (intervalCode impl.sqlType))
  | .conciseType => some (.smallint impl.sqlType)
  | .octetLength => some (.integer 0)
  | .precision =>
    some (.smallint (if isDatetime impl.sqlType then impl.decimalDigits
      else if impl.sqlType = 2 then impl.precision else 0))
  | .scale => some (.smallint (if impl.sqlType = 2 then impl.decimalDigits else 0))
  | .dataPtr | .octetLengthPtr | .indicatorPtr => none

end ParameterImpl

/-- Application row, application parameter and implementation parameter descriptors. -/
inductive Descriptor
  | ard (bookmark : Option BindInfo) (bindings : List BindInfo)
  | apd (parameters : List BindInfo)
  | ipd (parameters : List ParameterImpl)
  deriving DecidableEq

/-- The fields whose setting makes room for the record. -/
def DescField.extends : DescField → Bool
  | .type | .datetimeIntervalCode | .conciseType => true
  | _ => false

/-- `create_empty_bindings` behind the records there are.  It leaves the types, the precisions and the
scales of the new memory. -/
def extendColumnBindings (mem : ℕ → BindInfo) (bindings : List BindInfo) (cols : ℕ) :
    List BindInfo :=
  bindings ++ (List.range (cols - bindings.length)).map fun i ↦
    { mem (bindings.length + i) with buflen := 0, buffer := 0, used := 0, indicator := 0 }

/-- `extend_parameter_bindings` and `extend_iparameter_bindings`: the new memory is cleared. -/
def extendParameterBindings {α : Type} (empty : α) (parameters : List α) (params : ℕ) : List α :=
  parameters ++ List.replicate (params - parameters.length) empty

namespace Descriptor

/-- The number of records. -/
def allocated : Descriptor → ℕ
  | ard _ bindings => bindings.length
  | apd parameters => parameters.length
  | ipd parameters => parameters.length

/-- `PGAPI_SetDescField` for a record from 1 on. -/
def setDescField (mem : ℕ → BindInfo) (desc : Descriptor) (recNumber : ℕ) (field : DescField)
    (value : UInt64) : Descriptor × Retcode :=
  match desc with
  | ard bookmark bindings =>
    let bindings :=
      if field.extends = true then extendColumnBindings mem bindings recNumber else bindings
    match bindings[recNumber - 1]? with
    | none => (ard bookmark bindings, .error)
    | some info =>
      (ard bookmark
        (bindings.set (recNumber - 1) (info.setField (fun value ↦ value.toInt64) field value)),
        .success)
  | apd parameters =>
    let parameters := extendParameterBindings ⟨0, 0, 0, 0, 0, 0, 0⟩ parameters recNumber
    match parameters[recNumber - 1]? with
    | none => (apd parameters, .error)
    | some info =>
      -- The length goes through an `Int4`.
      (apd (parameters.set (recNumber - 1)
        (info.setField (fun value ↦ value.toUInt32.toInt32.toInt64) field value)), .success)
  | ipd parameters =>
    let parameters :=
      if field.extends = true then extendParameterBindings .reset parameters recNumber
      else parameters
    match parameters[recNumber - 1]? with
    | none => (ipd parameters, .error)
    | some impl =>
      match impl.setField field value with
      | none => (ipd parameters, .error)
      | some impl => (ipd (parameters.set (recNumber - 1) impl), .success)

/-- `PGAPI_GetDescField` for a record from 1 on. -/
def getDescField (desc : Descriptor) (recNumber : ℕ) (field : DescField) :
    Retcode × Option DescValue :=
  match desc with
  | ard _ records | apd records =>
    match records[recNumber - 1]? with
    | none => (.noData, none)
    | some info => (.success, some (info.getField field))
  | ipd parameters =>
    match parameters[recNumber - 1]? with
    | none => (.noData, none)
    | some impl =>
      match impl.getField field with
      | none => (.error, some (.integer 0))
      | some value => (.success, some value)

/-- Not an implementation parameter descriptor. -/
def isApp : Descriptor → Bool
  | ard _ _ | apd _ => true
  | ipd _ => false

end Descriptor

/-- The arguments of `PGAPI_SetDescRec`. -/
structure DescRecArgs where
  type : Int16
  subType : Int16
  length : Int64
  precision : Int16
  scale : Int16
  data : UInt64
  stringLength : UInt64
  indicator : UInt64
  deriving DecidableEq

/-- Where the arguments of `PGAPI_SetDescRec` are. -/
structure DescRecFrame where
  type : UInt64
  subType : UInt64
  length : UInt64
  precision : UInt64
  scale : UInt64
  data : UInt64

/-- The calls of `PGAPI_SetDescField` in `PGAPI_SetDescRec`.  Most get the address of the value. -/
def DescRecFrame.calls (frame : DescRecFrame) (isApp : Bool) (args : DescRecArgs) :
    List (DescField × UInt64) :=
  [(.type, frame.type)] ++
    (if args.type = 9 ∨ args.type = 10 then [(.datetimeIntervalCode, frame.subType)] else []) ++
    [(.octetLength, frame.length), (.precision, frame.precision), (.scale, frame.scale)] ++
    if isApp = true then
      [(.dataPtr, frame.data), (.octetLengthPtr, args.stringLength), (.indicatorPtr, args.indicator)]
    else []

/-- The variables of `PGAPI_GetDescRec`, before anything is stored in them. -/
structure DescRecLocals where
  typ : Int16
  subtyp : Int16
  len : Int64
  prec : Int16
  scal : Int16

/-- The output pointers that are passed to `PGAPI_GetDescRec`. -/
structure DescRecRequest where
  type : Bool
  subType : Bool
  length : Bool
  precision : Bool
  scale : Bool

/-- What is stored through them. -/
structure DescRecReply where
  type : Option Int16 := none
  subType : Option Int16 := none
  length : Option Int64 := none
  precision : Option Int16 := none
  scale : Option Int16 := none
  deriving DecidableEq

/-- A value stored in a `SQLSMALLINT`.  Where it is longer there is no result. -/
def DescValue.toSmallint : DescValue → Option Int16
  | .smallint ival => some ival
  | _ => none

/-- A value stored in a `SQLLEN`: fewer bytes leave the upper ones as they are. -/
def DescValue.storeLen (len : Int64) : DescValue → Int64
  | .smallint ival =>
    (UInt64.ofNat (len.toUInt64.toNat / 2 ^ 16 * 2 ^ 16 + ival.toUInt16.toNat)).toInt64
  | .integer ival =>
    (UInt64.ofNat (len.toUInt64.toNat / 2 ^ 32 * 2 ^ 32 + ival.toUInt32.toNat)).toInt64
  | .pointer ptr => ptr.toInt64

namespace Descriptor

/-- `PGAPI_SetDescField` for one field after the other, until one fails. -/
def setDescFields (mem : ℕ → BindInfo) (recNumber : ℕ) :
    Descriptor → List (DescField × UInt64) → Descriptor × Retcode
  | desc, [] => (desc, .success)
  | desc, (field, value) :: calls =>
    match desc.setDescField mem recNumber field value with
    | (desc, .success) => setDescFields mem recNumber desc calls
    | (desc, ret) => (desc, ret)

/-- `PGAPI_SetDescRec`. -/
def setDescRec (mem : ℕ → BindInfo) (frame : DescRecFrame) (desc : Descriptor) (recNumber : ℕ)
    (args : DescRecArgs) : Descriptor × Retcode :=
  desc.setDescFields mem recNumber (frame.calls desc.isApp args)

/-- A field of `PGAPI_GetDescRec` that is a `SQLSMALLINT`: the variable afterwards, and whether the
function goes on. -/
def readSmallint (desc : Descriptor) (recNumber : ℕ) (field : DescField) :
    Option (Except Retcode Int16) :=
  match desc.getDescField recNumber field with
  | (.success, some value) => value.toSmallint.map .ok
  | (ret, _) => some (.error ret)

/-- `PGAPI_GetDescRec`, without the name and whether the parameter is nullable. -/
def getDescRec (locals : DescRecLocals) (desc : Descriptor) (recNumber : ℕ)
    (request : DescRecRequest) : Option (Except Retcode DescRecReply) :=
  let read (wanted : Bool) (field : DescField) :
      Option (Except Retcode (Option Int16)) :=
    if wanted = true then (desc.readSmallint recNumber field).map (·.map some) else some (.ok none)
  (read request.type .type).bind fun
  | .error ret => some (.error ret)
  | .ok type =>
    let typ := type.getD locals.typ
    (read (request.subType && (typ = 9 || typ = 10)) .datetimeIntervalCode).bind fun
    | .error ret => some (.error ret)
    | .ok subType =>
      let length : Except Retcode (Option Int64) :=
        if request.length = true then
          match desc.getDescField recNumber .octetLength with
          | (.success, some value) => .ok (some (value.storeLen locals.len))
          | (ret, _) => .error ret
        else .ok none
      match length with
      | .error ret => some (.error ret)
      | .ok length =>
        (read request.precision .precision).bind fun
        | .error ret => some (.error ret)
        | .ok precision =>
          (read request.scale .scale).bind fun
          | .error ret => some (.error ret)
          | .ok scale => some (.ok { type, subType, length, precision, scale })

end Descriptor

/-! ## What the application may expect -/

/-- The number that a value stands for. -/
def DescValue.toInt : DescValue → Int
  | .smallint ival => ival.toInt
  | .integer ival => ival.toInt
  | .pointer ptr => ptr.toNat

/-- The values of the fields. -/
def DescRecArgs.values (args : DescRecArgs) (isApp : Bool) : List (DescField × Int) :=
  [(.type, args.type.toInt)] ++
    (if args.type = 9 ∨ args.type = 10 then [(.datetimeIntervalCode, args.subType.toInt)] else []) ++
    [(.octetLength, args.length.toInt), (.precision, args.precision.toInt),
      (.scale, args.scale.toInt)] ++
    if isApp = true then
      [(.dataPtr, (args.data.toNat : Int)), (.octetLengthPtr, (args.stringLength.toNat : Int)),
        (.indicatorPtr, (args.indicator.toNat : Int))]
    else []

/-- A reply tells the values. -/
structure DescRecReply.Tells (reply : DescRecReply) (args : DescRecArgs)
    (request : DescRecRequest) : Prop where
  type : request.type = true → reply.type = some args.type
  subType : request.subType = true → args.type = 9 ∨ args.type = 10 →
    reply.subType = some args.subType
  length : request.length = true → reply.length = some args.length
  precision : request.precision = true → reply.precision = some args.precision
  scale : request.scale = true → reply.scale = some args.scale

namespace Descriptor

/-- A record that has been set is read as it was given, and the other records are as before. -/
def RoundTrips (desc : Descriptor) (frame : DescRecFrame) (recNumber : ℕ) (args : DescRecArgs) :
    Prop :=
  ∀ mem desc', desc.setDescRec mem frame recNumber args = (desc', .success) →
    (∀ field n, (field, n) ∈ args.values desc.isApp →
      ∃ value, desc'.getDescField recNumber field = (.success, some value) ∧ value.toInt = n) ∧
    (∀ locals request, ∃ reply, desc'.getDescRec locals recNumber request = some (.ok reply) ∧
      reply.Tells args request) ∧
    ∀ other field, 0 < other → other ≤ desc.allocated → other ≠ recNumber →
      desc'.getDescField other field = desc.getDescField other field

end Descriptor

end PsqlOdbc
