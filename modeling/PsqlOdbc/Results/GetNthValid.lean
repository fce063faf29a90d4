import PsqlOdbc.Lib.Select
import PsqlOdbc.Results.QResult

/-!
# Finding the `n`th row that is not deleted (`results.c`)

`getNthValid` has three ways of skipping deleted rows, and which it takes depends on
what the result remembers of them.  Each is compared with `nthValid`, which lists the
rows that are left and takes the `n`th.
-/

namespace PsqlOdbc

/-- The direction of a search; any orientation but `SQL_FETCH_PRIOR` is forward. -/
inductive Orientation
  | next | prior
  deriving DecidableEq, Repr

/-- What `getNthValid` reads of a result. -/
structure RowInfo where
  numTotalRead : Nat
  adCount : Nat
  /-- `QR_once_reached_eof`. -/
  reachedEof : Bool
  /-- `QR_get_cursor` is not `NULL`. -/
  cursor : Bool
  dlCount : Nat
  deleted : List Int
  keyset : List KeySet

/-- `INT_MAX`. -/
def intMax : Int := 2147483647

/-- The number of rows, as the search sees it. -/
def RowInfo.numTuples (res : RowInfo) : Int :=
  if res.reachedEof then res.numTotalRead + res.adCount else intMax

/-! ## The path without deletes -/

/-- Both directions without deleted rows: the return value and `*nearest`. -/
def nthPlain (numTuples sta : Int) (nth : Nat) : Orientation → Int × Int
  | .prior =>
    if sqllen (sta + 1) ≥ sqllen nth then (sqllen nth, sqllen (sta + 1 - nth))
    else (sqllen (-sqllen (sta + 1)), -1)
  | .next =>
    let nearp := sqllen (sta - 1 + nth)
    if nearp < numTuples then (sqllen nth, nearp)
    else (sqllen (-sqllen (numTuples - sta)), numTuples)

/-! ## The path over `deleted[]` -/

/-- The loop backward, over the deleted rows from the last on; `i` is the number of those
not visited. -/
def skipPrior (sta : Int) : List Int → Nat → Int × Int → Int × Int
  | [], _, s => s
  | d :: ds, i, (nearest, delsta) =>
    if nearest ≤ d then
      skipPrior sta ds (i - 1)
        (if sta ≥ d then (sqllen (nearest - 1), max delsta (i - 1 : Nat)) else (nearest, delsta))
    else (nearest, delsta)

/-- The loop forward, over the deleted rows from number `i` on. -/
def skipNext (sta : Int) : List Int → Nat → Int × Int → Int × Int
  | [], _, s => s
  | d :: ds, i, (nearest, delsta) =>
    if nearest ≥ d then
      skipNext sta ds (i + 1)
        (if sta ≤ d then (sqllen (nearest + 1), min delsta i) else (nearest, delsta))
    else (nearest, delsta)

/-- Both directions over the sorted array of deleted rows. -/
def nthDeleted (numTuples : Int) (deleted : List Int) (sta : Int) (nth : Nat) :
    Orientation → Int × Int
  | .prior =>
    let (nearest, delsta) :=
      skipPrior sta deleted.reverse deleted.length (sqllen (sta + 1 - nth), -1)
    if nearest < 0 then (sqllen (-(sta - delsta)), -1) else (sqllen nth, nearest)
  | .next =>
    let (nearest, delsta) :=
      skipNext sta deleted 0 (sqllen (sta - 1 + nth), deleted.length)
    if nearest ≥ numTuples then
      (sqllen (-(numTuples - sta + delsta - deleted.length)), numTuples)
    else (sqllen nth, nearest)

/-! ## The path over the keyset -/

/-- The loop over the statuses of the rows from `i` on in steps of `step`, after `count`
valid ones; `stop` is where it ends up without a find. -/
def scanKeyset (nth : Nat) (step stop : Int) : List KeySet → Int → Nat → Int × Int
  | [], _, count => (-count, stop)
  | k :: ks, i, count =>
    if k.status.isDeleted then scanKeyset nth step stop ks (i + step) count
    else if count + 1 = nth then (nth, i)
    else scanKeyset nth step stop ks (i + step) (count + 1)

/-- Both directions over the keyset; `none` where it is read out of its bounds. -/
def nthKeyset (numTuples : Int) (keyset : List KeySet) (sta : Int) (nth : Nat) :
    Orientation → Option (Int × Int)
  | .prior =>
    if sta < 0 then some (0, -1)
    else if sta ≥ keyset.length then none
    else some (scanKeyset nth (-1) (-1) (keyset.take (sta + 1).toNat).reverse sta 0)
  | .next =>
    if sta ≥ numTuples then some (0, numTuples)
    else if sta < 0 ∨ numTuples > keyset.length then none
    else some (scanKeyset nth 1 numTuples
      ((keyset.take numTuples.toNat).drop sta.toNat) sta 0)

/-! ## `getNthValid` -/

/-- `getNthValid`: the return value and `*nearest`. -/
def getNthValid (res : RowInfo) (sta : Int) (orientation : Orientation) (nth : Nat) :
    Option (Int × Int) :=
  if res.dlCount = 0 then some (nthPlain res.numTuples sta nth orientation)
  else if res.cursor then some (nthDeleted res.numTuples res.deleted sta nth orientation)
  else nthKeyset res.numTuples res.keyset sta nth orientation

end PsqlOdbc
