import PsqlOdbc.Convert.Escape
import PsqlOdbc.Statement.ExtendedParams
import PsqlOdbc.Statement.ScannersAgree

/-!
# The parameters of the extended protocol line up

The markers of a piece are numbered in the order of their parameters, the return value and the
discarded ones left out.  The types for `PQprepare` are those of a range of parameters, whose ends
`ParseWithLibpq` takes from its loop.
-/

namespace PsqlOdbc

/-- The types of a piece, whose first parameter is `sta`, are those of the numbers in its text, and
there is room for them. -/
def TypesLineUp (stmt : ParamStatement) (sta : Nat) (ms : List (Nat × Option Int)) : Prop :=
  ∃ fuel r, parseWithLibpq stmt fuel sta ms.length = some r ∧
    r.paramTypes.length ≤ r.numParams ∧
    ∀ (k : Nat) paramType, r.paramTypes[k]? = some paramType →
      ∃ i, (i, some ((k : Int) + 1)) ∈ ms ∧ paramType = stmt.typeOf i

section

variable {hooks : TokenHooks} {stmt : ParamStatement} {qp qp' : QueryParse}
  {qb qb' : TokenBuild} {ms : List (Nat × Option Int)} {i d n m : Nat}

/-- Nothing is said about the types. -/
theorem TypesLineUp.of_nil {sta : Nat} (fuel : Nat)
    (h : parseWithLibpq stmt fuel sta ms.length = some ⟨0, []⟩) : TypesLineUp stmt sta ms :=
  ⟨fuel, _, h, le_rfl, fun _ _ hk ↦ nomatch hk⟩

end

/-- The marker that the cursor is on. -/
def atMarker : QueryParse := qpInitialize utf8Connection [paramMarker] 0 .proccall

theorem ResolvesMarkers.next {hooks : TokenHooks} {qb qb' : TokenBuild}
    {ms : List (Nat × Option Int)} {m : Nat × Option Int}
    (h : (TokenBuild.resolveOneParam hooks atMarker qb).isSome = true)
    (hm : ((Option.get _ h).2.paramNumber.toNat,
      if (Option.get _ h).2.dollarNumber = qb.dollarNumber then none
      else some (Option.get _ h).2.dollarNumber) = m)
    (rest : ResolvesMarkers hooks (Option.get _ h).2 ms qb') :
    ResolvesMarkers hooks qb (m :: ms) qb' := by
  rw [← hm]
  exact .marker (Option.some_get h).symm rest

end PsqlOdbc
