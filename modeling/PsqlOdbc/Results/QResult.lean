import Mathlib.Algebra.Group.Int.Defs
import Mathlib.Data.List.Basic
import Mathlib.Order.Basic

/-!
# Result sets (`qresult.h`, `tuple.h`)

The keyset side of `QResultClass`: what a result knows of its rows besides their
contents.  Row numbers are `SQLLEN`s, which `sqllen` keeps inside their 64 bits.
-/

namespace PsqlOdbc

/-! ## Machine integers -/

/-- An integer stored into a `SQLLEN`. -/
def sqllen (x : Int) : Int := (x + 2 ^ 63) % 2 ^ 64 - 2 ^ 63

theorem sqllen_of_mem {x : Int} (h : -2 ^ 63 ≤ x) (h' : x < 2 ^ 63) : sqllen x = x := by
  unfold sqllen
  omega

/-- A value less than a full turn from the number it is the value of is that number. -/
theorem sqllen_eq_self {x : Int} (h : sqllen x - 2 ^ 64 < x) (h' : x < sqllen x + 2 ^ 64) :
    sqllen x = x := by
  unfold sqllen at *
  omega

theorem le_sqllen (x : Int) : -2 ^ 63 ≤ sqllen x := by unfold sqllen; omega

theorem sqllen_lt (x : Int) : sqllen x < 2 ^ 63 := by unfold sqllen; omega

/-! ## Keysets -/

/-- The status of a row: the `KEYSET_INFO_PUBLIC` bits and the `CURS_` bits. -/
structure RowStatus where
  info : Nat
  selfAdding : Bool
  selfDeleting : Bool
  selfUpdating : Bool
  selfAdded : Bool
  selfDeleted : Bool
  selfUpdated : Bool
  needsReread : Bool
  inRowset : Bool
  otherDeleted : Bool
  deriving DecidableEq, Repr

/-- A status without any bits. -/
def RowStatus.none : RowStatus :=
  ⟨0, false, false, false, false, false, false, false, false, false⟩

/-- One of `CURS_SELF_DELETING`, `CURS_SELF_DELETED` and `CURS_OTHER_DELETED` is set. -/
def RowStatus.isDeleted (s : RowStatus) : Bool :=
  s.selfDeleting || s.selfDeleted || s.otherDeleted

/-- `KeySet`: where a row is stored, and its status. -/
structure KeySet where
  status : RowStatus
  blocknum : Nat
  offset : Nat
  oid : Nat
  deriving DecidableEq, Repr

end PsqlOdbc
