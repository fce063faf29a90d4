import PsqlOdbc.Convert.ProcessTokens

/-!
# The parameters of the extended protocol

Three functions go over the parameters of a statement: `ResolveOneParam` numbers the markers of the
text, `ParseWithLibpq` (`statement.c`) collects the types of the parameters of a piece, and
`build_libpq_bind_params` (`convert.c`) the values.
-/

namespace PsqlOdbc

/-! ## The statement -/

/-- `PG_TYPE_VOID`. -/
def pgTypeVoid : Nat := 2278

/-- `sqltype_to_bind_pgtype`: the server finds out the types of parameters. -/
def sqltypeToBindPgtype (_ipara : IpdParam) : Nat := 0

/-- What the three functions read of a statement. -/
structure ParamStatement where
  /-- `num_params`, which `PGAPI_NumParams` sets, is an `Int2`. -/
  numParams : Nat
  numParams_lt : numParams < 2 ^ 15
  procReturn : Int
  discardOutputParams : Bool
  /-- The parameters of the IPD; `allocated` is how many there are. -/
  ipd : List IpdParam

namespace ParamStatement

variable (stmt : ParamStatement)

/-- `paramType` is `SQL_PARAM_OUTPUT`. -/
def output (i : Nat) : Bool := (stmt.ipd[i]?).any (·.output)

/-- The parameter has a number in the text of the statement. -/
def numbered (i : Nat) : Bool :=
  decide (stmt.procReturn ≤ i) && !(stmt.discardOutputParams && stmt.output i)

/-- What the server is told about the type of a parameter. -/
def typeOf (i : Nat) : Nat :=
  match stmt.ipd[i]? with
  | some ipara => if ipara.output then pgTypeVoid else sqltypeToBindPgtype ipara
  -- Unknown; let the server decide.
  | none => 0

end ParamStatement

/-! ## `ParseWithLibpq` -/

/-- `SC_param_next`: the parameter behind `paramNumber`. -/
def scParamNext (stmt : ParamStatement) (paramNumber : Int) : Int :=
  let next := if paramNumber < 0 then stmt.procReturn else paramNumber + 1
  if stmt.discardOutputParams then
    next + ((stmt.ipd.drop next.toNat).takeWhile (·.output)).length
  else next

/-- The loop that counts the parameters of a piece; the results are `num_params` and
`sta_pidx`. -/
def parseCountLoop (stmt : ParamStatement) (endPidx : Int) : Nat → Int → Nat → Int → Option (Nat × Int)
  | 0, _, _, _ => none
  | fuel + 1, pidx, numParams, staPidx =>
    let pidx := scParamNext stmt pidx
    if endPidx < pidx then some (numParams, staPidx)
    else if pidx < endPidx then
      parseCountLoop stmt endPidx fuel pidx (numParams + 1)
        (if numParams = 0 then pidx else staPidx)
    else some (numParams + 1, staPidx)

/-- What is passed to `PQprepare`: the number of parameters, for which the array is allocated, and
the entries that are stored in it. -/
structure PrepareTypes where
  numParams : Nat
  paramTypes : List Nat
  deriving DecidableEq, Repr

/-- `ParseWithLibpq`, as far as the types are concerned. -/
def parseWithLibpq (stmt : ParamStatement) (fuel : Nat) (currentExecParam numParams : Int) :
    Option PrepareTypes :=
  if stmt.discardOutputParams ∨ numParams = 0 then some ⟨0, []⟩
  else
    let staPidx := currentExecParam
    let endPidx := if numParams < 0 then (stmt.numParams : Int) - 1 else staPidx + numParams - 1
    (parseCountLoop stmt endPidx fuel (staPidx - 1) 0 staPidx).map fun (numParams, staPidx) ↦
      if 0 < numParams then
        ⟨numParams, (List.range (endPidx - staPidx + 1).toNat).map fun (j : Nat) ↦
          stmt.typeOf (staPidx + j).toNat⟩
      else ⟨0, []⟩

/-! ## `build_libpq_bind_params` -/

/-- Text is copied, and the markers are as before. -/
structure SameMarkers (qb qb' : TokenBuild) : Prop where
  paramNumber : qb'.paramNumber = qb.paramNumber
  dollarNumber : qb'.dollarNumber = qb.dollarNumber
  procReturn : qb'.procReturn = qb.procReturn
  discardOutput : qb'.discardOutput = qb.discardOutput
  ipdParameters : qb'.ipdParameters = qb.ipdParameters
  paramMode : qb'.paramMode = qb.paramMode

/-- The markers of a piece are resolved one after the other.  They are listed with their parameters
and the numbers they have got in the text. -/
inductive ResolvesMarkers (hooks : TokenHooks) :
    TokenBuild → List (Nat × Option Int) → TokenBuild → Prop
  | done (qb : TokenBuild) : ResolvesMarkers hooks qb [] qb
  | copy {qb qb1 qb' : TokenBuild} {ms : List (Nat × Option Int)} (h : SameMarkers qb qb1)
      (rest : ResolvesMarkers hooks qb1 ms qb') : ResolvesMarkers hooks qb ms qb'
  /-- The return value of `{? = call`, in `convert_escape`. -/
  | returned {qb qb' : TokenBuild} {ms : List (Nat × Option Int)} (hfirst : qb.paramNumber = -1)
      (hreturn : qb.procReturn = 1)
      (rest : ResolvesMarkers hooks { qb with paramNumber := 0 } ms qb') :
      ResolvesMarkers hooks qb ((0, none) :: ms) qb'
  | marker {qp qp' : QueryParse} {qb qb1 qb' : TokenBuild} {ms : List (Nat × Option Int)}
      (h : TokenBuild.resolveOneParam hooks qp qb = some (qp', qb1))
      (rest : ResolvesMarkers hooks qb1 ms qb') :
      ResolvesMarkers hooks qb
        ((qb1.paramNumber.toNat,
          if qb1.dollarNumber = qb.dollarNumber then none else some qb1.dollarNumber) :: ms) qb'

/-- The pieces of a statement, between semicolons. -/
inductive ResolvesPieces (hooks : TokenHooks) : TokenBuild → List (List (Nat × Option Int)) → Prop
  | last {qb qb' : TokenBuild} {ms : List (Nat × Option Int)} (h : ResolvesMarkers hooks qb ms qb') :
      ResolvesPieces hooks qb [ms]
  | semicolon {qb qb1 : TokenBuild} {ms : List (Nat × Option Int)}
      {mss : List (List (Nat × Option Int))} (h : ResolvesMarkers hooks qb ms qb1)
      (rest : ResolvesPieces hooks { qb1 with dollarNumber := 0 } mss) :
      ResolvesPieces hooks qb (ms :: mss)

section

variable {hooks : TokenHooks} {qp qp' : QueryParse} {qb qb1 qb' : TokenBuild}
  {ms ms' : List (Nat × Option Int)} {mss : List (List (Nat × Option Int))} {pt : ParseToken}
  {c : UInt8} {opos : Int}

/-! ## The loop over the text -/

theorem SameMarkers.refl (qb : TokenBuild) : SameMarkers qb qb := ⟨rfl, rfl, rfl, rfl, rfl, rfl⟩

theorem SameMarkers.trans (h : SameMarkers qb qb1) (h' : SameMarkers qb1 qb') :
    SameMarkers qb qb' where
  paramNumber := h'.paramNumber.trans h.paramNumber
  dollarNumber := h'.dollarNumber.trans h.dollarNumber
  procReturn := h'.procReturn.trans h.procReturn
  discardOutput := h'.discardOutput.trans h.discardOutput
  ipdParameters := h'.ipdParameters.trans h.ipdParameters
  paramMode := h'.paramMode.trans h.paramMode

theorem ResolvesMarkers.append (h : ResolvesMarkers hooks qb ms qb1)
    (h' : ResolvesMarkers hooks qb1 ms' qb') : ResolvesMarkers hooks qb (ms ++ ms') qb' := by
  induction h with
  | done qb => exact h'
  | copy h rest ih => exact .copy h (ih h')
  | returned hfirst hreturn rest ih => exact .returned hfirst hreturn (ih h')
  | marker h rest ih => exact .marker h (ih h')

/-- More markers in front of the first piece. -/
theorem ResolvesPieces.prepend (h : ResolvesMarkers hooks qb ms qb1)
    (h' : ResolvesPieces hooks qb1 mss) : ∃ mss', ResolvesPieces hooks qb mss' := by
  cases h' with
  | last hlast => exact ⟨_, .last (h.append hlast)⟩
  | semicolon hpiece rest => exact ⟨_, .semicolon (h.append hpiece) rest⟩

theorem endBrace_same (qb : TokenBuild) : SameMarkers qb qb.endBrace := by
  rw [TokenBuild.endBrace]
  split <;> exact ⟨rfl, rfl, rfl, rfl, rfl, rfl⟩

theorem keysetText_same (h : keysetText qp qb opos = some qb') : SameMarkers qb qb' := by
  have hbest : ∀ qb1 : TokenBuild, SameMarkers qb1 qb1.appendBestitem := by
    intro qb1
    rw [TokenBuild.appendBestitem]
    split <;> exact ⟨rfl, rfl, rfl, rfl, rfl, rfl⟩
  rw [keysetText] at h
  split at h
  · split at h
    · rw [← Option.some.inj h]
      have h1 := hbest (qb.appendData (ascii ", \"ctid"))
      exact ⟨h1.1, h1.2, h1.3, h1.4, h1.5, h1.6⟩
    · cases h
  split at h
  · rw [← Option.some.inj h]
    have h1 := hbest (qb.appendData (ascii "where ctid = '(0,0)';select \"ctid"))
    exact ⟨h1.1, h1.2, h1.3, h1.4, h1.5, h1.6⟩
  · rw [← Option.some.inj h]
    exact .refl qb

theorem jetBoolean_same (qp : QueryParse) (qb : TokenBuild) (c : UInt8) :
    SameMarkers qb (jetBoolean qp qb c) := by
  rw [jetBoolean]
  split
  · split
    · split <;> exact ⟨rfl, rfl, rfl, rfl, rfl, rfl⟩
    · exact .refl qb
  · exact .refl qb

theorem processQuoted_same (pt : ParseToken) (qp : QueryParse) (qb : TokenBuild) (c : UInt8) :
    SameMarkers qb (processQuoted pt qp qb c).2 := by
  rw [processQuoted]
  split
  · exact ⟨rfl, rfl, rfl, rfl, rfl, rfl⟩
  split
  · split <;> exact ⟨rfl, rfl, rfl, rfl, rfl, rfl⟩
  split
  · exact ⟨rfl, rfl, rfl, rfl, rfl, rfl⟩
  split
  · exact ⟨rfl, rfl, rfl, rfl, rfl, rfl⟩
  split
  · dsimp only
    split
    · exact ⟨rfl, rfl, rfl, rfl, rfl, rfl⟩
    · split <;> exact ⟨rfl, rfl, rfl, rfl, rfl, rfl⟩
  · exact ⟨rfl, rfl, rfl, rfl, rfl, rfl⟩

theorem checkToken_same (pt : ParseToken) (qp : QueryParse) (qb : TokenBuild) (c : UInt8) :
    SameMarkers qb (checkToken pt qp qb c).2.1 := by
  rw [checkToken]
  split
  · exact .refl qb
  split
  · exact ⟨rfl, rfl, rfl, rfl, rfl, rfl⟩
  split
  · dsimp only
    split <;> exact ⟨rfl, rfl, rfl, rfl, rfl, rfl⟩
  split
  · split <;> exact ⟨rfl, rfl, rfl, rfl, rfl, rfl⟩
  split
  · split <;> exact ⟨rfl, rfl, rfl, rfl, rfl, rfl⟩
  · exact .refl qb

/-- A semicolon starts the numbers again. -/
theorem openToken_same (pt : ParseToken) (qp : QueryParse) (qb : TokenBuild) (c : UInt8) :
    SameMarkers qb (openToken pt qp qb c).2.2 ∨
      SameMarkers { qb with dollarNumber := 0 } (openToken pt qp qb c).2.2 := by
  rw [openToken]
  split
  · exact .inl (.refl qb)
  split
  · exact .inl (.refl qb)
  split
  · exact .inl (.refl qb)
  split
  · exact .inl (.refl qb)
  split
  · dsimp only
    split <;> exact .inr ⟨rfl, rfl, rfl, rfl, rfl, rfl⟩
  split
  · exact .inl (.refl qb)
  · exact .inl (jetBoolean_same qp qb c)

theorem processPlain_same (pt : ParseToken) (qp : QueryParse) (qb : TokenBuild) (c : UInt8) :
    SameMarkers qb (processPlain pt qp qb c).2 ∨
      SameMarkers { qb with dollarNumber := 0 } (processPlain pt qp qb c).2 := by
  rw [processPlain]
  dsimp only
  split
  · exact .inl ⟨rfl, rfl, rfl, rfl, rfl, rfl⟩
  have hopened : ∀ opened, opened = (if c = dollarQuote then
        ((pt.tokenFinish qp 0).1, { (pt.tokenFinish qp 0).2 with taglen := 0 }, qb)
      else openToken pt qp qb c) →
      SameMarkers qb opened.2.2 ∨ SameMarkers { qb with dollarNumber := 0 } opened.2.2 := by
    rintro opened rfl
    split
    · exact .inl (.refl qb)
    · exact openToken_same pt qp qb c
  generalize hgen : (if c = dollarQuote then _ else openToken pt qp qb c) = opened
  have hchecked := checkToken_same opened.1 opened.2.1 opened.2.2 c
  have hend : SameMarkers opened.2.2 (if (checkToken opened.1 opened.2.1 opened.2.2 c).2.2 = true
      then (checkToken opened.1 opened.2.1 opened.2.2 c).2.1
      else (checkToken opened.1 opened.2.1 opened.2.2 c).2.1.appendData [c]) := by
    split
    · exact hchecked
    · exact hchecked.trans ⟨rfl, rfl, rfl, rfl, rfl, rfl⟩
  exact (hopened opened hgen.symm).imp (·.trans hend) (·.trans hend)

/-- A call resolves markers, or ends a piece. -/
theorem innerProcessTokens_resolves
    (hescape : ∀ qp qb qp' qb', hooks.convertEscape qp qb = some (qp', qb') →
      ∃ ms, ResolvesMarkers hooks qb ms qb')
    (h : innerProcessTokens hooks qp qb = some (qp', qb')) :
    (∃ ms, ResolvesMarkers hooks qb ms qb') ∨
      ∃ qb1, SameMarkers qb qb1 ∧ SameMarkers { qb1 with dollarNumber := 0 } qb' := by
  rw [innerProcessTokens] at h
  dsimp only at h
  split at h
  · cases h
  obtain ⟨front, hkey, h⟩ := Option.bind_eq_some_iff.1 h
  have hfront := keysetText_same hkey
  have hcopy : ∀ x : QueryParse × TokenBuild, some x = some (qp', qb') → SameMarkers front x.2 →
      (∃ ms, ResolvesMarkers hooks qb ms qb') ∨
        ∃ qb1, SameMarkers qb qb1 ∧ SameMarkers { qb1 with dollarNumber := 0 } qb' := by
    intro x hx hsame
    rw [Option.some.inj hx] at hsame
    exact .inl ⟨[], .copy (hfront.trans hsame) (.done qb')⟩
  split at h
  · exact hcopy _ h ⟨rfl, rfl, rfl, rfl, rfl, rfl⟩
  split at h
  · exact hcopy _ h ⟨rfl, rfl, rfl, rfl, rfl, rfl⟩
  generalize (if qp.inStatus.identKeyword = true then _ else (ptInitialize, _)) = token at h
  split at h
  · rw [processIdle] at h
    split at h
    · exact hcopy _ h (.refl front)
    split at h
    · obtain ⟨ms, hms⟩ := hescape _ _ _ _ h
      exact .inl ⟨ms, .copy hfront hms⟩
    split at h
    · exact hcopy _ h (endBrace_same front)
    split at h
    · exact hcopy _ h ⟨rfl, rfl, rfl, rfl, rfl, rfl⟩
    split at h
    · rcases processPlain_same token.1 token.2 front (qp.charAt qp.opos) with hplain | hplain
      · exact hcopy _ h hplain
      · rw [Option.some.inj h] at hplain
        exact .inr ⟨front, hfront, hplain⟩
    · exact .inl ⟨_, .copy hfront (.marker h (.done qb'))⟩
  · exact hcopy _ h (processQuoted_same token.1 token.2 front _)

/-- The loop resolves the markers of a statement piece by piece. -/
theorem processTokens_resolves {fuel : Nat}
    (hescape : ∀ qp qb qp' qb', hooks.convertEscape qp qb = some (qp', qb') →
      ∃ ms, ResolvesMarkers hooks qb ms qb')
    (h : processTokens hooks fuel qp qb = some (qp', qb')) : ∃ mss, ResolvesPieces hooks qb mss := by
  induction fuel generalizing qp qb with
  | zero => cases h
  | succ fuel ih =>
    rw [processTokens] at h
    split at h
    · obtain ⟨⟨qp1, qb1⟩, hcall, hrest⟩ := Option.bind_eq_some_iff.1 h
      obtain ⟨mss, hmss⟩ := ih hrest
      rcases innerProcessTokens_resolves hescape hcall with ⟨ms, hms⟩ | ⟨qb2, hsame, hsemicolon⟩
      · exact hmss.prepend hms
      · obtain ⟨mss', hmss'⟩ := hmss.prepend (.copy hsemicolon (.done qb1))
        exact ⟨_, .semicolon (.copy hsame (.done qb2)) hmss'⟩
    · exact ⟨_, .last (.done qb)⟩

end

end PsqlOdbc
