import PsqlOdbc.Results.SideTables

/-!
# Reading the rows of a keyset again (`results.c`)

`SC_pos_reload_needed` reads rows that are marked again, in batches by their keys, and then, one at a
time, those that the server has not returned.  The server is a parameter: what it answers to a query
for keys, and to that for one row.  A row has a number of its own, one in the keyset and one in the
cache of rows; there is no result where an array is read or written outside of its bounds.
-/

namespace PsqlOdbc

/-! ## Rows and the server -/

/-- What identifies a row on the server: `oid`, `blocknum` and `offset`. -/
abbrev RowKey := Nat × Nat × Nat

def KeySet.key (k : KeySet) : RowKey := (k.oid, k.blocknum, k.offset)

/-- `(blocknum,offset)`. -/
def KeySet.tid (k : KeySet) : Nat × Nat := (k.blocknum, k.offset)

/-- A row that the server returns. -/
structure LoadedRow where
  key : RowKey
  fields : List TupleField
  deriving DecidableEq, Repr

/-- What the server does: whether the statement can be prepared, which rows it returns for the
`ctid`s of the so manieth query, of one table or of the one of the statement, and which for the `ctid`
and the `oid` of a single row; none where a query fails. -/
structure ReloadServer where
  prepare : Bool
  load : Nat → Option Nat → List (Nat × Nat) → Option (List LoadedRow)
  position : Option (Nat × Nat) → Nat → Option (List LoadedRow)

/-- What of a result and its statement matters for reading rows again. -/
structure ReloadRows where
  rowsetStart : Nat
  /-- `QR_has_valid_base`. -/
  validBase : Bool
  base : Int
  keyBase : Int
  numFields : Nat
  /-- As many as `num_cached_keys`. -/
  keyset : List KeySet
  /-- `backend_tuples`, as many as `num_cached_rows`. -/
  tuples : List (List TupleField)
  reloadCount : Nat
  dataFilled : Bool
  deriving DecidableEq, Repr

/-- Why rows have not been read: `SQL_ERROR`, or no result. -/
inductive ReloadFailure
  | error | outOfBounds
  deriving DecidableEq, Repr

/-- An entry of an array. -/
def entryAt {α : Type*} (xs : List α) (i : Int) : Except ReloadFailure α :=
  if i < 0 then .error .outOfBounds else xs[i.toNat]?.elim (.error .outOfBounds) .ok

/-- A store to an array. -/
def storeAt {α : Type*} (xs : List α) (i : Int) (x : α) : Except ReloadFailure (List α) :=
  if 0 ≤ i ∧ i < xs.length then .ok (xs.set i.toNat x) else .error .outOfBounds

namespace ReloadRows

/-- `GIdx2KResIdx`. -/
def kresIdx (s : ReloadRows) (i : Nat) : Int :=
  i - if s.validBase then s.rowsetStart - s.keyBase else 0

/-- `GIdx2CacheIdx`. -/
def cacheIdx (s : ReloadRows) (i : Nat) : Int :=
  i - if s.validBase then s.rowsetStart - s.base else 0

/-- The rows of the loops from the start of the rowset on. -/
def rowsTo (s : ReloadRows) (limitrow : Nat) : List Nat :=
  List.range' s.rowsetStart (limitrow - s.rowsetStart)

end ReloadRows

/-- A status without `CURS_NEEDS_REREAD`. -/
def KeySet.reread (k : KeySet) : KeySet := { k with status := { k.status with needsReread := false } }

/-! ## Batches -/

/-- The loop over `k` for a row that was returned: it is stored for the first row that has its key. -/
def storeLoaded (limitrow : Nat) (s : ReloadRows) (r : LoadedRow) : Except ReloadFailure ReloadRows :=
  match (s.rowsTo limitrow).find? fun k ↦ (s.keyset[k]?.map KeySet.key) = some r.key with
  | none => .ok s
  | some k =>
    (storeAt s.tuples (s.cacheIdx k) r.fields).map fun tuples ↦
      { s with tuples, keyset := s.keyset.modify k KeySet.reread }

/-- A query for a batch of keys. -/
def sendBatch (server : ReloadServer) (limitrow query : Nat) (table : Option Nat)
    (tids : List (Nat × Nat)) (s : ReloadRows) : Except ReloadFailure ReloadRows :=
  match server.load query table tids with
  | none => .error .error
  | some rows => rows.foldlM (storeLoaded limitrow) s

/-- A query for a batch of keys, if it is full: the number of the next query, and the batch. -/
def sendFull (server : ReloadServer) (limitrow : Nat) (full : Bool) (query : Nat) (table : Option Nat)
    (tids : List (Nat × Nat)) (s : ReloadRows) :
    Except ReloadFailure (Nat × List (Nat × Nat) × ReloadRows) :=
  if full then (sendBatch server limitrow query table tids s).map fun s ↦ (query + 1, [], s)
  else .ok (query, tids, s)

/-- `pre_fetch_count`. -/
def preFetchCount : Nat := 32

/-- `keys_per_fetch`, as it is set at the first row. -/
def keysPerFetch (rowsPerFetch : Nat) : Nat :=
  if rowsPerFetch ≥ preFetchCount * 2 then preFetchCount
  else if rowsPerFetch = 0 then 2 else rowsPerFetch

/-- The loop of `LoadFromKeyset`; that the last batch is filled up with `NULL`s is left out. -/
def loadLoop (server : ReloadServer) (limitrow keysPerFetch : Nat) :
    List Nat → Nat → List (Nat × Nat) → ReloadRows → Except ReloadFailure ReloadRows
  | [], query, tids, s => if tids = [] then .ok s else sendBatch server limitrow query none tids s
  | i :: is, query, tids, s => do
    let (query, tids, s) ← sendFull server limitrow (tids.length ≥ keysPerFetch) query none tids s
    let k ← entryAt s.keyset (s.kresIdx i)
    loadLoop server limitrow keysPerFetch is query
      (if k.status.needsReread then tids ++ [k.tid] else tids) s

/-- `LoadFromKeyset`. -/
def loadFromKeyset (server : ReloadServer) (rowsPerFetch limitrow : Nat) (s : ReloadRows) :
    Except ReloadFailure ReloadRows :=
  if limitrow ≤ s.rowsetStart then .ok s
  else if s.reloadCount > 0 then
    loadLoop server limitrow s.reloadCount (s.rowsTo limitrow) 0 [] s
  else if server.prepare then
    loadLoop server limitrow (keysPerFetch rowsPerFetch) (s.rowsTo limitrow) 0 []
      { s with reloadCount := keysPerFetch rowsPerFetch }
  else .error .error

/-- The loop of `LoadFromKeyset_inh`, where a batch is of one table: `oid` is that of the last row in
it, and `table` that of the first. -/
def loadLoopInh (server : ReloadServer) (limitrow keysPerFetch : Nat) :
    List Nat → Nat → Nat → Nat → List (Nat × Nat) → ReloadRows → Except ReloadFailure ReloadRows
  | [], query, _, table, tids, s =>
    if tids = [] then .ok s else sendBatch server limitrow query (some table) tids s
  | i :: is, query, oid, table, tids, s => do
    let k ← entryAt s.keyset (s.kresIdx i)
    if k.status.needsReread then
      let (query, tids, s) ←
        sendFull server limitrow (tids.length ≥ keysPerFetch ∨ oid ≠ 0 ∧ k.oid ≠ oid) query
          (some table) tids s
      -- The key is read again behind the query; the batch may have changed its status only.
      loadLoopInh server limitrow keysPerFetch is query k.oid (if tids = [] then k.oid else table)
        (tids ++ [k.tid]) s
    else loadLoopInh server limitrow keysPerFetch is query oid table tids s

/-- `LoadFromKeyset_inh`. -/
def loadFromKeysetInh (server : ReloadServer) (rowsPerFetch limitrow : Nat) (s : ReloadRows) :
    Except ReloadFailure ReloadRows :=
  loadLoopInh server limitrow (keysPerFetch rowsPerFetch) (s.rowsTo limitrow) 0 0 0 [] s

/-! ## A single row -/

/-- What a reload depends on: the type of the cursor, and whether rows are found by their `oid`. -/
structure ReloadOptions where
  keysetDriven : Bool
  bestIsOid : Bool

/-- The `ctid` of a row for a query, unless the row is being added. -/
def KeySet.usedTid (k : KeySet) : Option (Nat × Nat) :=
  if k.status.selfAdding then none else some k.tid

/-- The row the server returns when it is asked for one alone. -/
def ReloadServer.latest (server : ReloadServer) (options : ReloadOptions) (k : KeySet) :
    Option LoadedRow :=
  if k.oid = 0 ∧ options.bestIsOid then none
  else
    match server.position k.usedTid k.oid with
    | some [r] => some r
    | _ => none

/-- `SC_pos_reload`, without a log of what it does.  The `ctid` that is compared is printed with a
space, so that a row that is read always counts as updated. -/
def scPosReload (server : ReloadServer) (options : ReloadOptions) (i : Nat) (s : ReloadRows) :
    Except ReloadFailure ReloadRows := do
  let kres := s.kresIdx i
  if kres < 0 ∨ kres ≥ s.keyset.length then .error .error
  else
    let k ← entryAt s.keyset kres
    if k.oid = 0 ∧ options.bestIsOid then .ok s
    else
      match server.position k.usedTid k.oid with
      | none => .error .error
      | some [r] =>
        if 0 ≤ s.cacheIdx i ∧ s.cacheIdx i < s.tuples.length then
          let info := if options.keysetDriven then k.status.info ||| 2 else k.status.info
          let tuples ← storeAt s.tuples (s.cacheIdx i) r.fields
          let keyset ← storeAt s.keyset kres
            ⟨{ k.status with info }, r.key.2.1, r.key.2.2, r.key.1⟩
          .ok { s with tuples, keyset }
        else .ok s
      | some _ =>
        if options.keysetDriven then
          (storeAt s.keyset kres { k with status := { k.status with info := k.status.info ||| 1 } }).map
            fun keyset ↦ { s with keyset }
        else .ok s

/-- A key whose row has been read alone: it is deleted by another if its row has not been there. -/
def KeySet.settle (k : KeySet) : KeySet :=
  { k with status :=
    { k.status with
      otherDeleted := k.status.otherDeleted || k.status.info = 1, needsReread := false } }

/-- The last loop of `SC_pos_reload_needed`: the place in the keyset is that of its first row. -/
def reloadLoop (server : ReloadServer) (options : ReloadOptions) (kres : Int) :
    List Nat → ReloadRows → Except ReloadFailure ReloadRows
  | [], s => .ok s
  | i :: is, s => do
    let k ← entryAt s.keyset kres
    if k.status.needsReread then
      let s ← scPosReload server options i s
      let k ← entryAt s.keyset kres
      let keyset ← storeAt s.keyset kres k.settle
      reloadLoop server options kres is { s with keyset }
    else reloadLoop server options kres is s

/-! ## `SC_pos_reload_needed` -/

/-- The arguments, and what else the function asks for. -/
structure ReloadRequest where
  /-- `SC_is_updatable`. -/
  updatable : Bool
  reqSize : Nat
  /-- `QR_get_reqsize`. -/
  rowsetSize : Nat
  createFromScratch : Bool
  /-- `SQL_RD_ON`. -/
  retrieveData : Bool
  /-- `TI_has_subclass`. -/
  hasSubclass : Bool
  options : ReloadOptions

namespace ReloadRequest

/-- `req_rows_size`. -/
def rows (req : ReloadRequest) : Nat := max req.rowsetSize req.reqSize

/-- `rows_per_fetch`. -/
def perFetch (req : ReloadRequest) : Nat :=
  if req.createFromScratch then ((preFetchCount - 1) / req.rows + 1) * req.rows else 0

/-- `limitrow`. -/
def limitrow (req : ReloadRequest) (s : ReloadRows) : Nat :=
  min (s.rowsetStart + if req.createFromScratch then req.perFetch else req.rows) s.keyset.length

/-- Whether the cache of rows is set up anew. -/
def rebuilds (req : ReloadRequest) (s : ReloadRows) : Bool := req.createFromScratch || !s.dataFilled

end ReloadRequest

/-- A key, marked if the row is not deleted. -/
def KeySet.mark (k : KeySet) : KeySet :=
  if k.status.isDeleted then k else { k with status := { k.status with needsReread := true } }

/-- The cache of rows, empty; no row is in it where the number of rows comes out negative. -/
def ReloadRows.clearCache (s : ReloadRows) (limitrow : Nat) : ReloadRows :=
  { s with
    tuples := List.replicate (limitrow - s.rowsetStart) (List.replicate s.numFields ⟨0, none⟩)
    base := 0
    dataFilled := false }

/-- The loop that marks the rows. -/
def ReloadRows.markRows (s : ReloadRows) (limitrow : Nat) : ReloadRows :=
  { s with
    keyset := s.keyset.mapIdx fun i k ↦ if s.rowsetStart ≤ i ∧ i < limitrow then k.mark else k }

/-- The state in which the rows are loaded: where the cache is set up anew all are marked. -/
def ReloadRequest.started (req : ReloadRequest) (s : ReloadRows) : ReloadRows :=
  if req.rebuilds s then (s.clearCache (req.limitrow s)).markRows (req.limitrow s) else s

/-- The batches of the rows that are marked. -/
def loadRows (server : ReloadServer) (req : ReloadRequest) (limitrow : Nat) (s : ReloadRows) :
    Except ReloadFailure ReloadRows :=
  if req.hasSubclass then loadFromKeysetInh server req.perFetch limitrow s
  else loadFromKeyset server req.perFetch limitrow s

/-- `SC_pos_reload_needed`. -/
def scPosReloadNeeded (server : ReloadServer) (req : ReloadRequest) (s : ReloadRows) :
    Except ReloadFailure ReloadRows := do
  if !req.updatable then .error .error
  else if req.createFromScratch ∧ req.rows = 0 then .error .outOfBounds
  else
    let limitrow := req.limitrow s
    if req.rebuilds s ∧ !req.retrieveData then .ok (s.clearCache limitrow)
    else
      let s ← loadRows server req limitrow (req.started s)
      let s ← reloadLoop server req.options (s.kresIdx s.rowsetStart) (s.rowsTo limitrow) s
      .ok { s with dataFilled := true }

end PsqlOdbc
