import PsqlOdbc.Lib.Doubling
import PsqlOdbc.Results.GetNthValid
import PsqlOdbc.Results.ReloadNeeded
import PsqlOdbc.Statement.BatchExecute

/-!
# Fetching rowsets (`results.c`, `statement.c`)

`PGAPI_ExtendedFetch` on a result all of whose rows are in the driver.  It finds the start of the
new rowset, has the rows of a keyset read again where that is due, and goes over the rows with
`SC_fetch`, past those that are deleted.  What becomes of the values of a row is an input, and the
bookmark column is not filled.
-/

namespace PsqlOdbc

open Lib

/-! ## Statement and result -/

/-- `SQL_ATTR_CURSOR_TYPE`. -/
inductive CursorType
  | forwardOnly
  | keysetDriven
  | dynamic
  | static
  deriving DecidableEq, Repr

/-- `fFetchType`. -/
inductive FetchType
  | next
  | prior
  | first
  | last
  | absolute
  | relative
  | bookmark
  | other
  deriving DecidableEq, Repr

/-- The numbers of the errors of a fetch. -/
inductive FetchErrorNumber
  | fetchOutOfRange
  | invalidCursorState
  | colnum
  | sequence
  | status
  | posBeforeRecordset
  | internal
  deriving DecidableEq, Repr

/-- `SQL_ROW_DELETED`. -/
def rowDeleted : Nat := 1

/-- `SQL_ROW_NOROW`. -/
def rowNorow : Nat := 3

/-- `SQL_ROW_ADDED`. -/
def rowAdded : Nat := 4

/-- What of a statement does not change in a fetch. -/
structure FetchOptions where
  cursorType : CursorType
  /-- `SC_is_fetchcursor`. -/
  fetchcursor : Bool
  maxRows : Int
  /-- `SQL_RD_ON`. -/
  retrieveData : Bool
  useBookmarks : Bool
  /-- The bookmark column is bound. -/
  bookmarkBound : Bool
  /-- `status` is `STMT_EXECUTING`. -/
  executing : Bool
  /-- `status` is `STMT_FINISHED`. -/
  finished : Bool
  /-- `bindings` is not `NULL`. -/
  bindings : Bool
  mayFetchRows : Bool
  updatable : Bool
  hasSubclass : Bool
  bestIsOid : Bool
  deriving DecidableEq, Repr

/-- A statement and its current result. -/
structure FetchState where
  rowsetStart : Int
  currTuple : Int
  lastFetchCount : Int
  lastFetchCountIncludeOmmitted : Int
  saveRowsetSize : Int
  error : Option (FetchErrorNumber × String)
  numTotalRead : Nat
  adCount : Nat
  dlCount : Nat
  /-- `QR_haskeyset`. -/
  hasKeyset : Bool
  /-- `keyset` is not `NULL`. -/
  keysetThere : Bool
  /-- As many as `num_cached_keys`. -/
  keyset : List KeySet
  /-- `backend_tuples`, as many as `num_cached_rows`. -/
  tuples : List (List TupleField)
  /-- `QR_has_valid_base`. -/
  validBase : Bool
  base : Int
  keyBase : Int
  numFields : Nat
  reloadCount : Nat
  dataFilled : Bool
  deriving DecidableEq, Repr

namespace FetchState

variable (s : FetchState)

/-- `QR_get_num_total_tuples`, of a result that has been read to its end. -/
def numTuples : Int := s.numTotalRead + s.adCount

/-- What `getNthValid` reads. -/
def info : RowInfo := ⟨s.numTotalRead, s.adCount, true, false, s.dlCount, [], s.keyset⟩

/-- `GIdx2CacheIdx`. -/
def cacheIdx (gidx : Int) : Int := gidx - if s.validBase then s.rowsetStart - s.base else 0

/-- `GIdx2KResIdx`. -/
def kresIdx (gidx : Int) : Int := gidx - if s.validBase then s.rowsetStart - s.keyBase else 0

/-- `SC_set_error`. -/
def setError (number : FetchErrorNumber) (message : String) : FetchState :=
  { s with error := some (number, message) }

/-- `SC_set_rowset_start`, with a valid base. -/
def setRowsetStart (start : Int) : FetchState :=
  { s with
    rowsetStart := start
    validBase := true
    base :=
      if s.validBase then s.base + (start - s.rowsetStart) else if start < 0 then -1 else start
    keyBase := start }

/-- `SC_inc_rowset_start`. -/
def incRowsetStart (inc : Int) : FetchState := s.setRowsetStart (s.rowsetStart + inc)

/-- `EXTFETCH_RETURN_BOF` and `EXTFETCH_RETURN_EOF`. -/
def returnEnd (start : Int) : FetchState := { s.setRowsetStart start with currTuple := -1 }

/-- What reading rows again works on. -/
def reloadRows : ReloadRows :=
  { rowsetStart := s.rowsetStart.toNat
    validBase := s.validBase
    base := s.base
    keyBase := s.keyBase
    numFields := s.numFields
    keyset := s.keyset
    tuples := s.tuples
    reloadCount := s.reloadCount
    dataFilled := s.dataFilled }

/-- The result behind a reading. -/
def reloaded (r : ReloadRows) : FetchState :=
  { s with
    base := r.base
    keyset := r.keyset
    tuples := r.tuples
    reloadCount := r.reloadCount
    dataFilled := r.dataFilled }

end FetchState

/-! ## The start of the new rowset -/

/-- The arguments. -/
structure FetchCall where
  fetchType : FetchType
  irow : Int
  bookmarkOffset : Int
  rowsetSize : Int
  deriving DecidableEq, Repr

/-- What comes out of the `switch`. -/
inductive Positioned
  /-- The result has been left. -/
  | outside (s : FetchState)
  | refused (s : FetchState)
  /-- The local variables behind it; `start` counts if `should_set_rowset_start`. -/
  | inside (s : FetchState) (start rowsetEnd : Int) (shouldSet : Bool) (reqsize : Int)

namespace FetchCall

variable (call : FetchCall) (s : FetchState)

/-- Without `should_set_rowset_start`. -/
def stay : Positioned := .inside s s.rowsetStart (-1) false call.rowsetSize

/-- The search forward from `sta` on. -/
def searchNext (sta : Int) (nth : Nat) : Option Positioned :=
  (getNthValid s.info sta .next nth).map fun (count, nearest) ↦
    if count ≤ 0 then .outside (s.returnEnd s.numTuples)
    else .inside s nearest (-1) true call.rowsetSize

/-- The search backward from `sta` on.  Where `ends`, the rowset ends there. -/
def searchPrior (sta : Int) (nth : Nat) (ends : Bool) (message : String) : Option Positioned :=
  (getNthValid s.info sta .prior nth).map fun (minNth, nearest) ↦
    if minNth = 0 then .outside (s.returnEnd (-1))
    else if minNth < 0 then
      call.stay ((s.setError .posBeforeRecordset message).setRowsetStart 0)
    else if ends then .inside s nearest sta true (sta - nearest + 1)
    else .inside s nearest (-1) true call.rowsetSize

/-- `SQL_FETCH_NEXT`. -/
def positionNext (saveRowsetSize : Int) : Option Positioned :=
  let progressSize := if 0 < saveRowsetSize then saveRowsetSize else call.rowsetSize
  if s.rowsetStart < 0 then some (call.stay (s.setRowsetStart 0))
  else if s.keysetThere then
    let (s, progressSize) :=
      if s.lastFetchCount ≤ progressSize then
        (s.incRowsetStart s.lastFetchCountIncludeOmmitted, progressSize - s.lastFetchCount)
      else (s, progressSize)
    if 0 < progressSize then call.searchNext s s.rowsetStart (progressSize + 1).toNat
    else some (call.stay s)
  else some (call.stay (s.incRowsetStart progressSize))

/-- `SQL_FETCH_PRIOR`. -/
def positionPrior : Option Positioned :=
  if s.rowsetStart ≤ 0 then some (.outside (s.returnEnd (-1)))
  else if s.numTuples ≤ s.rowsetStart ∧ s.numTuples < call.rowsetSize then
    some (call.stay ((s.setError .posBeforeRecordset
      "fetch prior from eof and before the beginning").setRowsetStart 0))
  else if s.hasKeyset then
    call.searchPrior s (s.rowsetStart - 1) call.rowsetSize.toNat true
      "fetch prior and before the beginning"
  else if s.rowsetStart < call.rowsetSize then
    some (call.stay ((s.setError .posBeforeRecordset
      "fetch prior from eof and before the beginning").setRowsetStart 0))
  else some (call.stay (s.incRowsetStart (-call.rowsetSize)))

/-- `SQL_FETCH_BOOKMARK`. -/
def positionBookmark : Option Positioned :=
  -- `SC_resolve_int4_bookmark`
  let bidx := if call.irow < 0 then call.irow else call.irow - 1
  let bidx := if bidx < 0 then s.numTuples - 1 - s.adCount - bidx else bidx
  if 0 ≤ call.bookmarkOffset then call.searchNext s bidx (call.bookmarkOffset + 1).toNat
  else
    (getNthValid s.info bidx .prior (1 - call.bookmarkOffset).toNat).map fun (count, nearest) ↦
      if count ≤ 0 then .outside (s.returnEnd (-1))
      else .inside s nearest (-1) true call.rowsetSize

/-- The `switch`. -/
def position (saveRowsetSize : Int) : Option Positioned :=
  match call.fetchType with
  | .next => call.positionNext s saveRowsetSize
  | .prior => call.positionPrior s
  | .first => some (call.stay (s.setRowsetStart 0))
  | .last =>
    call.searchPrior s (s.numTuples - 1) call.rowsetSize.toNat true
      "fetch last and before the beginning"
  | .absolute =>
    if call.irow = 0 then some (.outside (s.returnEnd (-1)))
    else if 0 < call.irow then call.searchNext s 0 call.irow.toNat
    else
      call.searchPrior s (s.numTuples - 1) (-call.irow).toNat false
        "fetch absolute and before the beginning"
  | .relative =>
    if call.irow = 0 then some (call.stay s)
    else if 0 < call.irow then call.searchNext s (s.rowsetStart + 1) call.irow.toNat
    else
      call.searchPrior s (s.rowsetStart - 1) (-call.irow).toNat false
        "fetch relative and before the beginning"
  | .bookmark => call.positionBookmark s
  | .other =>
    some (.refused (s.setError .fetchOutOfRange "Unsupported PGAPI_ExtendedFetch Direction"))

/-- The checks behind the `switch`: the start of the rowset is set, and `reqsize` is known. -/
def settle (start rowsetEnd : Int) (shouldSet : Bool) (reqsize : Int) :
    Option (FetchState ⊕ FetchState × Int) :=
  let start := if shouldSet then start else s.rowsetStart
  if s.numTuples ≤ start then some (.inl (s.returnEnd s.numTuples))
  else if start < 0 ∧ start + call.rowsetSize ≤ 0 then some (.inl (s.returnEnd (-1)))
  else
    let s :=
      if start < 0 then s.setRowsetStart 0 else if shouldSet then s.setRowsetStart start else s
    if rowsetEnd < 0 ∧ s.hasKeyset then
      (getNthValid s.info start .next call.rowsetSize.toNat).map fun (_, nearest) ↦
        .inr (s, nearest - start + 1)
    else some (.inr (s, reqsize))

end FetchCall

/-! ## The rows -/

/-- What becomes of the values of a row. -/
inductive ValueCopy
  | copied
  | truncated
  | failed
  deriving DecidableEq, Repr

/-- The `result` of `SC_fetch` for it. -/
def ValueCopy.retcode : ValueCopy → Retcode
  | copied => .success
  | truncated => .successWithInfo
  | failed => .error

/-- What a fetch meets. -/
structure FetchEnv where
  server : ReloadServer
  /-- The conversions of the values of a row for a row of the buffers. -/
  convert : Nat → List TupleField → ValueCopy

/-- `SC_fetch` leaves the row out. -/
def RowStatus.omitted (status : RowStatus) : Bool :=
  status.selfDeleting || status.selfDeleted || status.info ≠ rowDeleted && status.otherDeleted

section

variable (env : FetchEnv) (options : FetchOptions)

/-- `SC_fetch` in a row that is not left out: the row of the cache is what the buffers get. -/
def fetchRow (bindRow : Nat) (s : FetchState) :
    Option (Retcode × FetchState × Option (List TupleField)) :=
  let s := { s with lastFetchCount := 1, lastFetchCountIncludeOmmitted := 1 }
  if options.retrieveData = false then some (.success, s, none)
  else
    let curt := s.cacheIdx s.currTuple
    if curt < 0 then none
    else
      s.tuples[curt.toNat]?.map fun fields ↦ ((env.convert bindRow fields).retcode, s, some fields)

/-- `SC_fetch`: its result and the row. -/
def scFetch (bindRow : Nat) (s : FetchState) :
    Option (Retcode × FetchState × Option (List TupleField)) :=
  let s := { s with lastFetchCount := 0, lastFetchCountIncludeOmmitted := 0 }
  if wrapSigned 32 s.numTuples - 1 ≤ s.currTuple ∨
      0 < options.maxRows ∧ s.currTuple = options.maxRows - 1 then
    some (.noData, { s with currTuple := s.numTuples }, none)
  else
    let s := { s with currTuple := s.currTuple + 1 }
    let kres := s.kresIdx s.currTuple
    match if s.hasKeyset ∧ 0 ≤ kres then s.keyset[kres.toNat]? else none with
    | none => fetchRow env options bindRow s
    | some k =>
      if k.status.omitted then some (.successWithInfo, s, none)
      else if k.status.needsReread then
        match scPosReload env.server ⟨options.cursorType = .keysetDriven, options.bestIsOid⟩
            s.currTuple.toNat s.reloadRows with
        | .ok r => fetchRow env options bindRow (s.reloaded r)
        | .error .error => some (.error, s, none)
        | .error .outOfBounds => none
      else fetchRow env options bindRow s

/-- A row that the application gets: the row of its buffers, the row of the result, and the values
if it gets them. -/
structure FetchedRow where
  bindRow : Nat
  gidx : Int
  fields : Option (List TupleField)
  deriving DecidableEq, Repr

/-- The variables of the loop. -/
structure FetchLoop where
  state : FetchState
  result : Retcode
  /-- What the last `SC_fetch` has read. -/
  row : Option (List TupleField)
  i : Nat
  fcIo : Nat
  currp : Int
  truncated : Bool
  /-- `rgfRowStatus`, in front of `i`. -/
  rowStatus : List Nat
  fetched : List FetchedRow

namespace FetchLoop

/-- `SC_fetch`, and the `currp++` of the loop. -/
def step (bindRow : Nat) (l : FetchLoop) : Option FetchLoop :=
  (scFetch env options bindRow l.state).map fun (result, state, row) ↦
    { l with state, result, row, currp := l.currp + 1 }

/-- The current row of the keyset is not in the rowset. -/
def leave (l : FetchLoop) : FetchLoop :=
  { l with
    state.keyset := l.state.keyset.modify l.currp.toNat fun k ↦
      { k with status := { k.status with inRowset := false } } }

/-- A row is in the rowset: its status is told and refreshed. -/
def take (l : FetchLoop) : FetchLoop :=
  let status := l.state.keyset[l.currp.toNat]?.map KeySet.status
  { l with
    state :=
      { l.state with
        keyset := if l.state.keysetThere then
            l.state.keyset.modify l.currp.toNat fun k ↦
              { k with status := { k.status with info := 0, inRowset := true } }
          else l.state.keyset }
    truncated := l.truncated || l.result = .successWithInfo
    i := l.i + 1
    rowStatus := l.rowStatus ++ [
      if l.state.keysetThere then
        status.elim 0 fun status ↦
          if status.info ≠ 0 ∧ status.info ≠ rowAdded then status.info else 0
      else 0]
    fetched := l.fetched ++ [⟨l.i, l.state.currTuple, l.row⟩] }

/-- The loop over the rows, for so many rounds at most. -/
def run (rowsetSize : Int) : ℕ → FetchLoop → Option FetchLoop
  | 0, _ => none
  | rounds + 1, l =>
    if l.result = .noData ∨ l.result = .error then some l
    else
      let l := { l with fcIo := l.fcIo + 1 }
      if l.state.keysetThere ∧ (l.state.keyset.length : Int) ≤ l.currp then some l
      else if l.state.keysetThere ∧ l.result = .successWithInfo ∧ l.state.lastFetchCount = 0 then
        (step env options l.i l.leave).bind (run rowsetSize rounds)
      else
        let l := l.take
        if rowsetSize ≤ l.i then some l
        else (step env options l.i l).bind (run rowsetSize rounds)

end FetchLoop

/-! ## `PGAPI_ExtendedFetch` -/

/-- What the application gets. -/
structure FetchReply where
  retcode : Retcode
  /-- `*pcrow`, where it is set. -/
  pcrow : Nat
  /-- `rgfRowStatus`. -/
  rowStatus : List Nat
  fetched : List FetchedRow
  deriving DecidableEq, Repr

/-- A call that ends before rows are fetched. -/
def FetchReply.without (retcode : Retcode) (rowsetSize : Int) : FetchReply :=
  ⟨retcode, 0, List.replicate rowsetSize.toNat rowNorow, []⟩

/-- The end of the function: the counts are kept for the next call. -/
def finishFetch (rowsetSize : Int) (l : FetchLoop) : FetchReply × FetchState :=
  let rowStatus := l.rowStatus ++ List.replicate (rowsetSize.toNat - l.i) rowNorow
  if l.result = .error then (⟨.error, 0, rowStatus, l.fetched⟩, l.state)
  else
    ({ retcode :=
        if l.i = 0 then .noData
        else if l.truncated then .successWithInfo
        else if l.state.error.map Prod.fst = some .posBeforeRecordset then .successWithInfo
        else .success
       pcrow := l.i
       rowStatus := rowStatus
       fetched := l.fetched },
      { l.state with
        lastFetchCount := l.i
        saveRowsetSize := rowsetSize
        lastFetchCountIncludeOmmitted := l.fcIo
        currTuple := l.state.rowsetStart })

/-- The rows of the rowset that starts at `rowset_start`. -/
def fetchRows (rowsetSize : Int) (s : FetchState) : Option (FetchReply × FetchState) :=
  (scFetch env options 0 s).bind fun (result, s, row) ↦
    let currp := if s.keysetThere then s.kresIdx s.rowsetStart else -1
    if result ≠ .noData ∧ result ≠ .error ∧ s.keysetThere ∧ currp < 0 then
      some (.without .error rowsetSize,
        s.setError .internal "rowset_start not in the keyset")
    else
      (FetchLoop.run env options rowsetSize (s.numTuples.toNat + 1)
        ⟨s, result, row, 0, 0, currp, false, [], []⟩).map (finishFetch rowsetSize)

/-- The rows of a keyset are read again. -/
def reloadRowset (call : FetchCall) (reqsize : Int) (s : FetchState) :
    Except ReloadFailure FetchState :=
  let keysetDriven : Bool := options.cursorType = .keysetDriven
  let flag : Bool := keysetDriven &&
    (call.fetchType ≠ .next || decide ((s.tuples.length : Int) < s.base + reqsize))
  if s.keysetThere ∧ (options.retrieveData ∨ flag) then
    (scPosReloadNeeded env.server
      { updatable := options.updatable
        reqSize := reqsize.toNat
        rowsetSize := (wrapSigned 32 reqsize).toNat
        createFromScratch := flag
        retrieveData := options.retrieveData
        hasSubclass := options.hasSubclass
        options := ⟨keysetDriven, options.bestIsOid⟩ } s.reloadRows).map s.reloaded
  else .ok s

/-- The rowset that has been settled. -/
def fetchRowset (call : FetchCall) (reqsize : Int) (s : FetchState) :
    Option (FetchReply × FetchState) :=
  let s :=
    { s with
      currTuple := s.rowsetStart - 1
      base :=
        if options.fetchcursor ∨ options.cursorType = .keysetDriven then s.base
        else s.rowsetStart }
  match reloadRowset env options call reqsize s with
  | .ok s => fetchRows env options call.rowsetSize s
  | .error .error => some (.without .error call.rowsetSize, s)
  | .error .outOfBounds => none

/-- `PGAPI_ExtendedFetch` behind the checks of the statement. -/
def extendedFetch (call : FetchCall) (s : FetchState) : Option (FetchReply × FetchState) :=
  let without (retcode : Retcode) := FetchReply.without retcode call.rowsetSize
  (call.position { s with saveRowsetSize := -1 } s.saveRowsetSize).bind fun
    | .outside s => some (without .noData, s)
    | .refused s => some (without .error, s)
    | .inside s start rowsetEnd shouldSet reqsize =>
      (call.settle s start rowsetEnd shouldSet reqsize).bind fun
        | .inl s => some (without .noData, s)
        | .inr (s, reqsize) => fetchRowset env options call reqsize s

/-- `PGAPI_ExtendedFetch` on a statement with a result. -/
def pgapiExtendedFetch (call : FetchCall) (s : FetchState) : Option (FetchReply × FetchState) :=
  let refuse (number : FetchErrorNumber) (message : String) : Option (FetchReply × FetchState) :=
    some (⟨.error, 0, [], []⟩, s.setError number message)
  if options.cursorType = .forwardOnly ∧ call.fetchType ≠ .next then
    refuse .fetchOutOfRange
      "The fetch type for PGAPI_ExtendedFetch isn't allowed with ForwardOnly cursor."
  else if options.bookmarkBound ∧ !options.useBookmarks then
    refuse .colnum "Attempt to retrieve bookmark with bookmark usage disabled"
  else if options.executing then
    refuse .sequence "Can't fetch while statement is still executing."
  else if !options.finished then
    refuse .status
      "ExtendedFetch can only be called after the successful execution on a SQL statement"
  else if !options.bindings then
    if options.mayFetchRows then
      refuse .invalidCursorState "Bindings were not allocated properly."
    else some (⟨.noData, 0, [], []⟩, { s with error := none })
  else extendedFetch env options call { s with error := none }

end

/-- A statement with a cursor that stays in the driver. -/
def staticOptions : FetchOptions :=
  ⟨.static, false, 0, true, false, false, false, true, true, true, true, false, false⟩

/-- The server is not there, and every value is copied. -/
def aloneEnv : FetchEnv := ⟨⟨true, fun _ _ _ ↦ none, fun _ _ ↦ none⟩, fun _ _ ↦ .copied⟩

end PsqlOdbc
