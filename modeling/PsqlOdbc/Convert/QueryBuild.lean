import PsqlOdbc.Multibyte

/-!
# The query under construction (`convert.c`, `QueryBuild`)

The parts of `ConnectionClass` and `QueryBuild` that the statement rewriter and the
parameter substitution read.  A growing C buffer with a fill position is a list of
bytes; appending never fails, as allocation is taken to succeed.
-/

namespace PsqlOdbc

/-! ## Characters with a meaning to the driver (`psqlodbc.h`) -/

abbrev literalQuote : UInt8 := 0x27
abbrev escapeInLiteral : UInt8 := 0x5c
abbrev literalExt : UInt8 := 0x45
abbrev pgCarriageReturn : UInt8 := 0x0d
abbrev pgLinefeed : UInt8 := 0x0a

/-! ## The connection -/

/-- What the rewriter knows of its connection. -/
structure ConnectionClass where
  /-- `PQparameterStatus(conn, "standard_conforming_strings")`. -/
  standardConformingStrings : Option String
  pgVersionMajor : Nat
  pgVersionMinor : Nat
  ccsc : CharSet
  lfConversion : Bool

/-- `CC_get_escape`. -/
def ccGetEscape (self : ConnectionClass) : UInt8 :=
  match self.standardConformingStrings with
  -- A server before 8.1 does not report the setting and knows no `E''`.
  | none => 0
  | some scf => if scf ≠ "on" then escapeInLiteral else 0

theorem ccGetEscape_eq (self : ConnectionClass) :
    ccGetEscape self = 0 ∨ ccGetEscape self = escapeInLiteral := by
  unfold ccGetEscape
  cases self.standardConformingStrings with
  | none => exact Or.inl rfl
  | some scf => exact (em (scf ≠ "on")).symm.imp (fun h ↦ by simp [h]) (fun h ↦ by simp [h])

/-- `PG_VERSION_GE`. -/
def pgVersionGe (conn : ConnectionClass) (major minor : Nat) : Bool :=
  conn.pgVersionMajor > major ||
    (conn.pgVersionMajor = major && conn.pgVersionMinor ≥ minor)

/-! ## The build -/

/-- What `ResolveOneParam` makes of a marker. -/
inductive ResolveParamMode
  | replaceParams | fakeParams | buildingPrepareStatement | buildingBindRequest
  deriving DecidableEq, Repr

/-- `QueryBuild`, with the `FLGB_` bits as fields. -/
structure QueryBuild where
  queryStatement : List UInt8
  paramMode : ResolveParamMode
  convertLf : Bool
  literalExtension : Bool
  paramCast : Bool
  ccsc : CharSet
  conn : ConnectionClass
  /-- `E''` is only asked for where backslashes have to be doubled. -/
  ext_escape : literalExtension = true → ccGetEscape conn ≠ 0

/-- `QB_initialize`. -/
def qbInitialize (conn : ConnectionClass) (paramMode : ResolveParamMode) : QueryBuild where
  queryStatement := []
  paramMode := paramMode
  convertLf := conn.lfConversion
  literalExtension := ccGetEscape conn ≠ 0 && pgVersionGe conn 8 1
  paramCast := false
  ccsc := conn.ccsc
  conn := conn
  ext_escape h := by
    simp only [Bool.and_eq_true, decide_eq_true_eq] at h
    exact h.1

/-- `CVT_APPEND_DATA`; `CVT_APPEND_STR` and `CVT_APPEND_CHAR` are special cases. -/
def QueryBuild.append (qb : QueryBuild) (bs : List UInt8) : QueryBuild :=
  { qb with queryStatement := qb.queryStatement ++ bs }

end PsqlOdbc
