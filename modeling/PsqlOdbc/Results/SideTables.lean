import PsqlOdbc.Lib.Doubling
import PsqlOdbc.Lib.InPlace
import PsqlOdbc.Results.QResult

/-!
# The tables of own changes (`results.c`)

A result remembers the rows that were deleted and updated through it in tables of its own, each of
parallel arrays, and what to undo in a log.  An array is the list of the cells that have been written,
an array that is not allocated has none; there is no result where the code reads or writes outside of
that or does not come to an end.  Memory is there whenever the size that is asked for is positive.
-/

namespace PsqlOdbc

open Lib

/-! ## Tables -/

/-- `TupleField`: one field of a row. -/
structure TupleField where
  len : Int
  value : Option (List UInt8)
  deriving DecidableEq, Repr

/-- The arrays of one table, with the `_alloc` and the `_count` that go with them.  `tuples` is none for
the deleted rows, and for the updated rows of a keyset-driven cursor. -/
structure SideTable where
  alloc : Nat
  count : Nat
  index : List Int
  keyset : List KeySet
  tuples : Option (List (List TupleField))
  deriving DecidableEq, Repr

/-- The entries of the arrays that belong together. -/
structure SideRow where
  index : Int
  keyset : KeySet
  tuple : Option (List TupleField)
  deriving DecidableEq, Repr

/-- A table before anything is stored, and after `QR_free_memory`. -/
def SideTable.empty : SideTable := ⟨0, 0, [], [], none⟩

/-- The tuples, or as many times nothing. -/
def SideTable.tupleCells (t : SideTable) : List (Option (List TupleField)) :=
  t.tuples.elim (List.replicate t.count none) (List.map some)

/-- The rows in a table. -/
def SideTable.rows (t : SideTable) : List SideRow :=
  List.zipWith (fun ik tuple ↦ ⟨ik.1, ik.2, tuple⟩)
    ((t.index.take t.count).zip (t.keyset.take t.count)) (t.tupleCells.take t.count)

/-- All of the rows a table counts have been written. -/
structure SideTable.Covers (t : SideTable) : Prop where
  index : t.count ≤ t.index.length
  keyset : t.count ≤ t.keyset.length
  tuples : ∀ cells ∈ t.tuples, t.count ≤ cells.length

/-! ## Statuses -/

/-- The status of a row that is deleted: `SQL_ROW_DELETED` with `CURS_SELF_DELETING` or
`CURS_SELF_DELETED`. -/
def RowStatus.deletedBySelf (inTrans : Bool) (s : RowStatus) : RowStatus :=
  if inTrans then { s with info := 1, selfDeleting := true }
  else
    { s with
      info := 1, selfAdding := false, selfUpdating := false, selfDeleting := false,
      selfDeleted := true }

/-- The status of a row that is updated: `SQL_ROW_UPDATED` with `CURS_SELF_UPDATING` or
`CURS_SELF_UPDATED`. -/
def RowStatus.updatedBySelf (inTrans : Bool) (s : RowStatus) : RowStatus :=
  if inTrans then { s with info := 2, selfUpdating := true }
  else
    { s with
      info := 2, selfAdding := false, selfUpdating := false, selfDeleting := false,
      selfUpdated := true }

/-- What is being done to a row is done. -/
def RowStatus.committed (s : RowStatus) : RowStatus :=
  { s with
    selfAdding := false, selfUpdating := false, selfDeleting := false,
    selfAdded := s.selfAdded || s.selfAdding, selfUpdated := s.selfUpdated || s.selfUpdating,
    selfDeleted := s.selfDeleted || s.selfDeleting }

/-! ## Deleted rows -/

/-- A `SQLLEN` as a `SQLULEN`. -/
def sqlulen (x : Int) : Nat := (x % 2 ^ 64).toNat

/-- The allocation `AddDeleted` goes on with; none if memory of a negative size is asked for. -/
def deletedAlloc (allocated : Bool) (alloc count : Nat) : Option Nat :=
  if !allocated then some 10
  else if count ≥ alloc then
    let newAlloc := wrapSigned 16 (alloc * 2)
    if newAlloc ≤ 0 then none else some newAlloc.toNat
  else some alloc

/-- `AddDeleted`: what is returned, and the table. -/
def addDeleted (cursor inTrans : Bool) (index : Nat) (keyset : KeySet) (t : SideTable) :
    Option (Bool × SideTable) :=
  if !cursor then some (true, { t with count := (t.count + 1) % 2 ^ 16 })
  else
    let dlCount := if t.index = [] then 0 else t.count
    let keyset := { keyset with status := keyset.status.deletedBySelf inTrans }
    -- As an `Int2` the count is negative then, and so is the size for `memmove`.
    if dlCount ≥ 2 ^ 15 ∨ t.index.length < dlCount ∨ t.keyset.length < dlCount then none
    else
      match deletedAlloc (t.index ≠ []) t.alloc dlCount with
      | none => some (false, .empty)
      | some alloc =>
        let i := (t.index.take dlCount).findIdx fun d ↦ index < sqlulen d
        if alloc ≤ dlCount then none
        else
          some (true, ⟨alloc, dlCount + 1, openGap i (dlCount - i) (sqllen index) t.index,
            openGap i (dlCount - i) keyset t.keyset, t.tuples⟩)

/-- `pidx` and `midx`: the two numbers of a row, of which the second is negative for one that was
added. -/
def rowNumbers (numRead index : Int) : Int × Int :=
  if index < 0 then (sqllen (numRead - index - 1), index)
  else (index, if index ≥ numRead then sqllen (numRead - index - 1) else index)

/-- Whether two keys have the same `blocknum` and `offset`. -/
def KeySet.sameTid (k k' : KeySet) : Bool := k.blocknum = k'.blocknum && k.offset = k'.offset

/-- One row less: its tuple is cleared, and what is behind it moves down. -/
def SideTable.removeRow (t : SideTable) (i : Nat) : SideTable :=
  let mvCount := t.count - i - 1
  ⟨t.alloc, t.count - 1, closeGap i mvCount t.index, closeGap i mvCount t.keyset,
    t.tuples.map fun cells ↦
      closeGap i mvCount (cells.modify i (List.map fun _ ↦ ⟨-1, none⟩))⟩

/-- The loop of the functions that remove a row, for at most so many rounds; with a key it ends at the
row that has it. -/
def removeRows (numbers : Int × Int) (key : Option KeySet) : Nat → Nat → SideTable → Option SideTable
  | 0, _, t => some t
  | rounds + 1, i, t =>
    if t.count ≤ i then some t
    else
      t.index[i]?.bind fun index ↦
        if numbers.1 = index ∨ numbers.2 = index then
          (key.elim (some false) fun key ↦ t.keyset[i]?.map (·.sameTid key)).bind fun found ↦
            if found then some t else removeRows numbers key rounds (i + 1) (t.removeRow i)
        else removeRows numbers key rounds (i + 1) t

/-- `RemoveDeleted`. -/
def removeDeleted (numRead index : Int) (t : SideTable) : Option SideTable :=
  removeRows (rowNumbers numRead index) none t.count 0 t

/-- `CommitDeleted`. -/
def commitDeleted (t : SideTable) : SideTable :=
  if t.index = [] then t
  else
    { t with
      keyset := (t.keyset.take t.count).map (fun k ↦ { k with status := k.status.committed }) ++
        t.keyset.drop t.count }

/-! ## Updated rows -/

/-- `RemoveUpdatedAfterTheKey`. -/
def removeUpdatedAfterTheKey (numRead index : Int) (keyset : Option KeySet) (t : SideTable) :
    Option SideTable :=
  removeRows (rowNumbers numRead index) keyset t.count 0 t

/-- `RemoveUpdated`. -/
def removeUpdated (numRead index : Int) (t : SideTable) : Option SideTable :=
  removeUpdatedAfterTheKey numRead index none t

/-- The allocation of `enlargeUpdated`; none if its loop has no end (`doubleUntil_rounds`). -/
def updatedAlloc (alloc number : Nat) : Option Nat :=
  (if alloc = 0 then some (wrapSigned 16 (if number > 10 then number else 10))
    else doubleUntil (wrapSigned 16) number 16 (wrapSigned 16 alloc)).map
    fun newAlloc : Int ↦ if newAlloc ≤ alloc then alloc else newAlloc.toNat

/-- `enlargeUpdated`. -/
def enlargeUpdated (keysetDriven : Bool) (number : Nat) (t : SideTable) : Option SideTable :=
  (updatedAlloc t.alloc number).map fun alloc ↦
    if alloc = t.alloc then t
    else { t with alloc, tuples := if keysetDriven then t.tuples else some (t.tuples.getD []) }

/-- What `AddUpdated` reads and changes of a result. -/
structure OwnRows where
  numFields : Nat
  numTotalRead : Nat
  adCount : Nat
  /-- `QR_once_reached_eof`. -/
  reachedEof : Bool
  addedKeyset : List KeySet
  addedTuples : Option (List (List TupleField))
  updated : SideTable
  deriving DecidableEq, Repr

/-- `QR_get_num_total_tuples`. -/
def OwnRows.numTotalTuples (res : OwnRows) : Nat :=
  if res.reachedEof then res.numTotalRead + res.adCount else res.numTotalRead

/-- The last entry for a row. -/
def SideTable.lastEntry (t : SideTable) (index : Int) : Option Nat :=
  (List.range t.count).reverse.find? fun i ↦ t.index[i]? = some index

/-- `ReplaceCachedRows` at a place of an array of rows, if there is one. -/
def replaceCachedRow (i numFields : Nat) (tuple : List TupleField) :
    Option (List (List TupleField)) → Option (Option (List (List TupleField)))
  | none => some none
  | some cells =>
    if tuple.length < numFields then none
    else some (some (openGap i 0 (tuple.take numFields) cells))

/-- `AddUpdated`, for a statement with a result and a key. -/
def addUpdated (cursor keysetDriven inTrans : Bool) (index : Int) (keyset : KeySet)
    (tupleUpdated : Option (List TupleField)) (res : OwnRows) : Option OwnRows :=
  let t := res.updated
  if !cursor ∨ t.count > 0 ∧ t.alloc = 0 then some res
  else
    match tupleUpdated with
    | none => some res
    | some tuple =>
      let status := keyset.status.updatedBySelf inTrans
      let entry := if inTrans then none else t.lastEntry index
      if !inTrans ∧ entry = none ∧ index = res.numTotalTuples then
        -- `upd_add_idx`, which is `num_totals - index`, is zero here and negative elsewhere.
        match res.addedKeyset with
        | [] => none
        | k :: ks =>
          (replaceCachedRow 0 res.numFields tuple res.addedTuples).map fun addedTuples ↦
            { res with addedKeyset := { k with status } :: ks, addedTuples }
      else
        match entry with
        | some i =>
          -- The place for the tuple is in front of `added_tuples`.
          if t.tuples.isSome then none
          else
            t.keyset[i]?.map fun k ↦
              { res with updated := { t with keyset := t.keyset.set i { k with status } } }
        | none =>
          (enlargeUpdated keysetDriven (t.count + 1) t).bind fun t ↦
            if t.alloc ≤ t.count then none
            else
              (replaceCachedRow t.count res.numFields tuple t.tuples).map fun tuples ↦
                { res with
                  updated := ⟨t.alloc, (t.count + 1) % 2 ^ 16, openGap t.count 0 index t.index,
                    openGap t.count 0 { keyset with status } t.keyset, tuples⟩ }

/-! ## Added rows -/

/-- The allocation of `enlargeAdded`; none if its loop has no end. -/
def addedAlloc (alloc number : Nat) : Option Nat :=
  (if alloc = 0 then some (wrapUnsigned 32 (if number > 10 then number else 10))
    else doubleUntil (wrapUnsigned 32) number 32 alloc).map
    fun newAlloc : Int ↦ if newAlloc ≤ alloc then alloc else newAlloc.toNat

/-! ## The log -/

/-- `Rollback`. -/
structure Rollback where
  index : Int
  blocknum : Nat
  offset : Nat
  oid : Nat
  option : Nat
  deriving DecidableEq, Repr

/-- The `rollback` array of a result. -/
structure RollbackLog where
  alloc : Nat
  count : Nat
  rollback : List Rollback
  deriving DecidableEq, Repr

/-- The allocation `AddRollback` goes on with; none if no memory is asked for. -/
def rollbackAlloc (allocated : Bool) (alloc count : Nat) : Option Nat :=
  if !allocated then some 10
  else if count ≥ alloc then
    let newAlloc := wrapUnsigned 16 (alloc * 2)
    if newAlloc = 0 then none else some newAlloc.toNat
  else some alloc

/-- `AddRollback`. -/
def addRollback (inTrans : Bool) (index : Int) (keyset : Option KeySet) (dmlcode : Nat)
    (log : RollbackLog) : Option RollbackLog :=
  if !inTrans then some log
  else
    let count := if log.rollback = [] then 0 else log.count
    match rollbackAlloc (log.rollback ≠ []) log.alloc count with
    | none => some { log with alloc := 0, count := 0 }
    | some alloc =>
      if alloc ≤ count then none
      else
        let entry : Rollback := keyset.elim ⟨index, 0, 0, 0, dmlcode⟩ fun k ↦
          ⟨index, k.blocknum, k.offset, k.oid, dmlcode⟩
        some ⟨alloc, (count + 1) % 2 ^ 16, openGap count 0 entry log.rollback⟩

end PsqlOdbc
