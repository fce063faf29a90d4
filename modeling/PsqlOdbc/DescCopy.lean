import PsqlOdbc.DescRec
import PsqlOdbc.DescLife
import PsqlOdbc.Lib.Heap

/-!
# Copying descriptors (`descriptor.c`, `bind.c`)

The fields of a descriptor point to memory that the descriptor owns: the bookmark, the records and
the names of parameters.  `PGAPI_CopyDesc` frees that memory of the target, and then copies the
fields of the source.  `DescWorld.EqualOrKept` is what the application expects of it.
-/

namespace PsqlOdbc

open Lib

/-! ## The data -/

/-- `ParameterImplClass`, its name in memory of its own. -/
structure ParameterImplClass where
  paramName : Option ℕ
  paramType : Int16
  sqlType : Int16
  pgType : UInt32
  columnSize : UInt64
  decimalDigits : Int16
  precision : Int16
  scale : Int16
  deriving DecidableEq

/-- What the memory that descriptors own holds. -/
inductive DescBlock
  | bookmark (info : BindInfo)
  | bindings (infos : List BindInfo)
  | parameters (impls : List ParameterImplClass)
  | name (text : List UInt8)
  deriving DecidableEq

/-- `ARDFields` and `APDFields`, which are of the same format.  `β` is a bookmark and `γ` the
records: pointers to them, or they themselves. -/
structure BindFields (β γ : Type) where
  sizeOfRowset : Int64
  bindSize : UInt32
  operationPtr : UInt64
  offsetPtr : UInt64
  bookmark : β
  bindings : γ
  allocated : ℕ
  sizeOfRowsetOdbc2 : Int64
  deriving DecidableEq

/-- `IPDFields`. -/
structure ImplFields (γ : Type) where
  processedPtr : UInt64
  statusPtr : UInt64
  allocated : ℕ
  parameters : γ
  deriving DecidableEq

/-- The union of a `DescriptorClass`.  That of a descriptor of no type is cleared. -/
inductive DescFields
  | cleared
  | bind (fields : BindFields (Option ℕ) (Option ℕ))
  | impl (fields : ImplFields (Option ℕ))
  | ird
  deriving DecidableEq

/-- The fields with what they point to. -/
inductive DescContents
  | cleared
  | bind (fields : BindFields (Option BindInfo) (List BindInfo))
  | impl (fields : ImplFields (List ParameterImpl))
  | ird
  deriving DecidableEq

/-- `DescriptorClass`. -/
structure DescriptorClass where
  embedded : Bool
  typeDefined : Bool
  /-- `desc_type`, which is 0 in a new descriptor. -/
  descType : Option DescKind
  fields : DescFields
  deriving DecidableEq

/-! ## What a descriptor owns -/

namespace DescFields

variable (heap : Heap DescBlock)

/-- The bookmark there. -/
def readBookmark (addr : ℕ) : Option BindInfo :=
  match heap.blocks addr with
  | some (.bookmark info) => some info
  | _ => none

/-- The first `n` columns or parameters there. -/
def readBindings (n addr : ℕ) : Option (List BindInfo) :=
  match heap.blocks addr with
  | some (.bindings infos) => if n ≤ infos.length then some (infos.take n) else none
  | _ => none

/-- The first `n` parameters there. -/
def readParameters (n addr : ℕ) : Option (List ParameterImplClass) :=
  match heap.blocks addr with
  | some (.parameters impls) => if n ≤ impls.length then some (impls.take n) else none
  | _ => none

/-- The name there. -/
def readName (addr : ℕ) : Option (List UInt8) :=
  match heap.blocks addr with
  | some (.name text) => some text
  | _ => none

/-- A pointer that may be null. -/
def readIf {α : Type} (read : ℕ → Option α) : Option ℕ → Option (Option α)
  | none => some none
  | some addr => (read addr).map some

/-- The records behind a pointer.  Where there are none, the pointer is null. -/
def readAll {α : Type} (read : ℕ → ℕ → Option (List α)) (n : ℕ) : Option ℕ → Option (List α)
  | none => if n = 0 then some [] else none
  | some addr => read n addr

/-- A parameter with its name. -/
def readParameter (impl : ParameterImplClass) : Option ParameterImpl :=
  (readIf (readName heap) impl.paramName).map fun name ↦
    ⟨name, impl.paramType, impl.sqlType, impl.pgType, impl.columnSize, impl.decimalDigits,
      impl.precision, impl.scale⟩

/-- The fields with what they point to, if it is there. -/
def contents : DescFields → Option DescContents
  | cleared => some .cleared
  | ird => some .ird
  | bind fields => do
    let bookmark ← readIf (readBookmark heap) fields.bookmark
    let bindings ← readAll (readBindings heap) fields.allocated fields.bindings
    some (.bind { fields with bookmark, bindings })
  | impl fields => do
    let impls ← readAll (readParameters heap) fields.allocated fields.parameters
    let parameters ← impls.mapM (readParameter heap)
    some (.impl { fields with parameters })

/-- The names of the parameters. -/
def names (fields : ImplFields (Option ℕ)) : List ℕ :=
  ((readAll (readParameters heap) fields.allocated fields.parameters).getD []).filterMap
    ParameterImplClass.paramName

/-- The blocks that are freed with the fields. -/
def owned : DescFields → List ℕ
  | cleared | ird => []
  | bind fields => fields.bookmark.toList ++ fields.bindings.toList
  | impl fields => names heap fields ++ fields.parameters.toList

end DescFields

/-- The fields are those of the type. -/
def DescriptorClass.Tagged (desc : DescriptorClass) : Prop :=
  match desc.typeDefined, desc.descType, desc.fields with
  | false, none, .cleared => True
  | true, some .ard, .bind _ => True
  | true, some .apd, .bind _ => True
  | true, some .ipd, .impl _ => True
  | true, some .ird, .ird => True
  | _, _, _ => False

/-! ## The driver -/

/-- `ARDFields_free`. -/
def ardFieldsFree (heap : Heap DescBlock) (self : BindFields (Option ℕ) (Option ℕ)) :
    Option (Heap DescBlock × BindFields (Option ℕ) (Option ℕ)) := do
  let heap ← Heap.freeAll self.bookmark.toList heap
  -- `ARD_unbind_cols`
  let heap ← Heap.freeAll self.bindings.toList heap
  some (heap, { self with bookmark := none, bindings := none, allocated := 0 })

/-- `APDFields_free`. -/
def apdFieldsFree (heap : Heap DescBlock) (self : BindFields (Option ℕ) (Option ℕ)) :
    Option (Heap DescBlock × BindFields (Option ℕ) (Option ℕ)) := do
  let heap ← Heap.freeAll self.bookmark.toList heap
  -- `APD_free_params`
  match self.bindings with
  | none => some (heap, { self with bookmark := none })
  | some parameters =>
    let heap ← heap.free parameters
    some (heap, { self with bookmark := none, bindings := none, allocated := 0 })

/-- `IPDFields_free`. -/
def ipdFieldsFree (heap : Heap DescBlock) (self : ImplFields (Option ℕ)) :
    Option (Heap DescBlock × ImplFields (Option ℕ)) :=
  -- `IPD_free_params`
  match self.parameters with
  | none => some (heap, self)
  | some parameters => do
    let impls ← DescFields.readParameters heap self.allocated parameters
    let heap ← Heap.freeAll (impls.filterMap ParameterImplClass.paramName) heap
    let heap ← heap.free parameters
    some (heap, { self with parameters := none, allocated := 0 })

/-- The bookmark in the copy. -/
def copyBookmark (heap : Heap DescBlock) : Option ℕ → Option (Heap DescBlock × Option ℕ)
  | none => some (heap, none)
  | some addr =>
    (DescFields.readBookmark heap addr).map fun info ↦ (heap.alloc (.bookmark info), some heap.next)

/-- `ARDFields_copy`. -/
def ardFieldsCopy (heap : Heap DescBlock) (src : BindFields (Option ℕ) (Option ℕ)) :
    Option (Heap DescBlock × BindFields (Option ℕ) (Option ℕ)) := do
  let (heap, bookmark) ← copyBookmark heap src.bookmark
  if src.allocated = 0 then
    some (heap, { src with bookmark, bindings := none })
  else
    let infos ← src.bindings.bind (DescFields.readBindings heap src.allocated)
    some (heap.alloc (.bindings infos), { src with bookmark, bindings := some heap.next })

/-- `APDFields_copy`. -/
def apdFieldsCopy (heap : Heap DescBlock) (src : BindFields (Option ℕ) (Option ℕ)) :
    Option (Heap DescBlock × BindFields (Option ℕ) (Option ℕ)) :=
  ardFieldsCopy heap src

/-- `IPDFields_copy`. -/
def ipdFieldsCopy (heap : Heap DescBlock) (src : ImplFields (Option ℕ)) :
    Option (Heap DescBlock × ImplFields (Option ℕ)) :=
  if src.allocated = 0 then
    some (heap, { src with parameters := none })
  else do
    -- a record is copied with its pointer to the name
    let impls ← src.parameters.bind (DescFields.readParameters heap src.allocated)
    some (heap.alloc (.parameters impls), { src with parameters := some heap.next })

/-- The descriptors and their memory.  Different handles are those of different descriptors. -/
structure DescWorld (ι : Type) where
  desc : ι → DescriptorClass
  heap : Heap DescBlock

namespace DescWorld

variable {ι : Type} [DecidableEq ι] (w : DescWorld ι)

/-- The fields of a descriptor and the memory after a free or a copy. -/
def setFields (self : ι) (heap : Heap DescBlock) (fields : DescFields) : DescWorld ι where
  desc := Function.update w.desc self { w.desc self with fields }
  heap := heap

/-- `DC_Destructor`. -/
def dcDestructor (self : ι) : Option (DescWorld ι) :=
  if (w.desc self).typeDefined then
    match (w.desc self).descType, (w.desc self).fields with
    | some .ard, .bind fields =>
      (ardFieldsFree w.heap fields).map fun res ↦ w.setFields self res.1 (.bind res.2)
    | some .apd, .bind fields =>
      (apdFieldsFree w.heap fields).map fun res ↦ w.setFields self res.1 (.bind res.2)
    | some .ipd, .impl fields =>
      (ipdFieldsFree w.heap fields).map fun res ↦ w.setFields self res.1 (.impl res.2)
    | _, _ => none
  else some w

/-- The target with the fields that were copied.  Its type is set only if it had none. -/
def copied (source target : ι) (heap : Heap DescBlock) (fields : DescFields) :
    Retcode × DescWorld ι :=
  let targethd := w.desc target
  (.success,
    { desc := Function.update w.desc target
        { targethd with
          descType :=
            if targethd.typeDefined then targethd.descType else (w.desc source).descType
          typeDefined := true
          fields }
      heap })

/-- The cases of `PGAPI_CopyDesc` by the type of the source. -/
def copyFields (source target : ι) : Option (Retcode × DescWorld ι) :=
  match (w.desc source).descType, (w.desc source).fields with
  | some .ard, .bind fields =>
    (ardFieldsCopy w.heap fields).map fun res ↦ w.copied source target res.1 (.bind res.2)
  | some .apd, .bind fields =>
    (apdFieldsCopy w.heap fields).map fun res ↦ w.copied source target res.1 (.bind res.2)
  | some .ipd, .impl fields =>
    (ipdFieldsCopy w.heap fields).map fun res ↦ w.copied source target res.1 (.impl res.2)
  | some .ird, _ => some (.error, w) -- "invalid descriptor type"
  | _, _ => none

/-- `PGAPI_CopyDesc`. -/
def pgapiCopyDesc (source target : ι) : Option (Retcode × DescWorld ι) :=
  let src := w.desc source
  let targethd := w.desc target
  if ¬ src.typeDefined then some (.error, w) -- "source handle type undefined"
  else if targethd.typeDefined then
    if targethd.descType = some .ird then some (.error, w) -- "can't copy to IRD"
    else if targethd.descType ≠ src.descType ∧ targethd.embedded then some (.error, w)
    else (w.dcDestructor target).bind fun w ↦ w.copyFields source target
  else w.copyFields source target

/-! ## What is expected -/

/-- The fields of a descriptor with what they point to. -/
def contents (self : ι) : Option DescContents := (w.desc self).fields.contents w.heap

/-- The blocks of a descriptor. -/
def owned (self : ι) : List ℕ := (w.desc self).fields.owned w.heap

/-- Nothing but the descriptor, its blocks and new ones may differ: what happened was on the
descriptor, or its release. -/
structure OnlyOn (w w' : DescWorld ι) (changed : ι) : Prop where
  desc_eq : ∀ other ≠ changed, w'.desc other = w.desc other
  blocks_eq : ∀ addr ∉ w.owned changed, (w.heap.blocks addr).isSome →
    w'.heap.blocks addr = w.heap.blocks addr

/-- Whatever happens on `self` leaves `other` as it is. -/
def Independent (self other : ι) : Prop :=
  ∀ w' : DescWorld ι, OnlyOn w w' self → w'.contents other = w.contents other

/-- The target is equal to the source and independent of it, or it is as before. -/
def EqualOrKept (source target : ι) (ret : Retcode) (w' : DescWorld ι) : Prop :=
  match ret with
  | .success =>
    (w'.desc target).typeDefined = true ∧ (w'.desc target).descType = (w.desc source).descType ∧
      w'.contents target = w.contents source ∧
      (source ≠ target →
        w'.contents source = w.contents source ∧
          w'.Independent source target ∧ w'.Independent target source)
  | _ =>
    (w'.desc target).typeDefined = (w.desc target).typeDefined ∧
      (w'.desc target).descType = (w.desc target).descType ∧
      w'.contents target = w.contents target

/-- The descriptors are as the driver keeps them: each has the fields of its type, its memory is
there, and no block is owned twice. -/
structure Sound (source target : ι) : Prop where
  source_tagged : (w.desc source).Tagged
  target_tagged : (w.desc target).Tagged
  source_contents : (w.contents source).isSome
  target_contents : (w.contents target).isSome
  source_nodup : (w.owned source).Nodup
  target_nodup : (w.owned target).Nodup
  disjoint : source ≠ target → List.Disjoint (w.owned source) (w.owned target)

end DescWorld

end PsqlOdbc
