import PsqlOdbc.Convert.QueryParse

/-!
# Rewriting a statement (`convert.c`, `inner_process_tokens`)

`innerProcessTokens` handles the byte the cursor stands on, and sometimes the bytes behind it:
it copies them to the query under construction, or replaces them.  `TokenBuild` is the query
under construction with its buffer: the invariant is that the fill position is inside it, which
every append keeps by enlarging the buffer first.
-/

namespace PsqlOdbc

/-! ## The buffer -/

/-- `INIT_MIN_ALLOC`. -/
def initMinAlloc : Nat := 4096

/-- The loop that doubles the size until it is above `newsize`. -/
def doubledSize (newsize : Nat) : Nat → Nat → Nat
  | 0, newalsize => newalsize
  | fuel + 1, newalsize =>
    if newalsize ≤ newsize then doubledSize newsize fuel (newalsize * 2) else newalsize

/-- The size `QB_initialize` and `enlarge_query_statement` allocate. -/
def enlargedSize (newsize : Nat) : Nat := doubledSize newsize (newsize + 1) initMinAlloc

theorem lt_doubledSize {newsize fuel newalsize : Nat} (hpos : 0 < newalsize)
    (h : newsize < newalsize + fuel) : newsize < doubledSize newsize fuel newalsize := by
  induction fuel generalizing newalsize with
  | zero => exact h
  | succ fuel ih =>
    rw [doubledSize]
    by_cases hle : newalsize ≤ newsize
    · rw [if_pos hle]
      exact ih (by omega) (by omega)
    · rw [if_neg hle]
      exact Nat.not_le.1 hle

theorem lt_enlargedSize (newsize : Nat) : newsize < enlargedSize newsize :=
  lt_doubledSize (by decide) (by omega)

/-! ## The parameters -/

/-- What `ResolveOneParam` reads of an entry of the IPD before it looks at the value. -/
structure IpdParam where
  /-- `paramType` is `SQL_PARAM_OUTPUT`. -/
  output : Bool
  /-- `paramName`, if it is valid. -/
  paramName : Option (List UInt8)
  /-- `sqltype_to_pgcast(conn, SQLType)`. -/
  pgcast : List UInt8

/-- The query under construction: `QueryBuild` with its buffer, and the counters of the
markers.  The content is what is before `npos`. -/
structure TokenBuild extends QueryBuild where
  strAlsize : Nat
  npos_lt : queryStatement.length < strAlsize
  /-- `FLGB_CREATE_KEYSET`. -/
  createKeyset : Bool
  /-- `FLGB_KEYSET_DRIVEN`. -/
  keysetDriven : Bool
  /-- `FLGB_DISCARD_OUTPUT`. -/
  discardOutput : Bool
  /-- `FLGB_INACCURATE_RESULT`. -/
  inaccurateResult : Bool
  /-- `conn->ms_jet`. -/
  msJet : Bool
  /-- The best item of the table, for keysets. -/
  bestitem : Option (List UInt8)
  paramNumber : Int
  dollarNumber : Int
  procReturn : Int
  braceLevel : Int
  parenthesizeTheFirst : Bool
  /-- `apdopts->allocated`. -/
  apdAllocated : Nat
  ipdParameters : List IpdParam
  /-- Where markers were resolved, and where the statement ended at a semicolon.  The program
  does not keep these; the statements about it do. -/
  resolved : List Nat
  ended : List Nat

namespace TokenBuild

variable (qb : TokenBuild)

theorem ext_escape_ne : qb.literalExtension = true → ccGetEscape qb.conn ≠ 0 := qb.ext_escape

/-- `npos`. -/
def npos : Nat := qb.queryStatement.length

/-- `CVT_APPEND_DATA`, and with it `CVT_APPEND_STR` and `CVT_APPEND_CHAR`: the buffer is
enlarged if the new position is not inside it. -/
def appendData (s : List UInt8) : TokenBuild :=
  { qb with
    queryStatement := qb.queryStatement ++ s
    strAlsize :=
      if qb.strAlsize ≤ qb.npos + s.length then enlargedSize (qb.npos + s.length)
      else qb.strAlsize
    npos_lt := by
      rw [List.length_append]
      split
      · exact lt_enlargedSize _
      · next h => exact Nat.not_le.1 h }

/-- The content shrinks or is changed in place. -/
def replaceData (s : List UInt8) (h : s.length ≤ qb.queryStatement.length) : TokenBuild :=
  { qb with
    queryStatement := s
    npos_lt := Nat.lt_of_le_of_lt h qb.npos_lt }

@[simp] theorem appendData_queryStatement (s : List UInt8) :
    (qb.appendData s).queryStatement = qb.queryStatement ++ s := rfl

/-- `QB_end_brace`. -/
def endBrace : TokenBuild :=
  let qb' := if qb.braceLevel ≤ 1 ∧ !qb.parenthesizeTheFirst then qb
    else qb.appendData [rightParen]
  { qb' with braceLevel := qb'.braceLevel - 1 }

@[simp] theorem endBrace_resolved : qb.endBrace.resolved = qb.resolved := by
  rw [endBrace]
  split <;> rfl

@[simp] theorem endBrace_ended : qb.endBrace.ended = qb.ended := by
  rw [endBrace]
  split <;> rfl

/-- The list of the columns of a keyset: a best item in quotes behind the `ctid`. -/
def appendBestitem : TokenBuild :=
  match qb.bestitem with
  | some item => (qb.appendData (ascii "\", \"")).appendData item
  | none => qb

end TokenBuild

/-- `QB_initialize`, with what it takes from the statement. -/
def tokenBuildInitialize (conn : ConnectionClass) (size : Nat) (paramMode : ResolveParamMode)
    (discardOutput : Bool) (procReturn : Int) (apdAllocated : Nat)
    (ipdParameters : List IpdParam) : TokenBuild where
  toQueryBuild := qbInitialize conn paramMode
  strAlsize := enlargedSize size
  npos_lt := Nat.lt_of_le_of_lt (Nat.zero_le _) (lt_enlargedSize size)
  createKeyset := false
  keysetDriven := false
  discardOutput := discardOutput
  inaccurateResult := false
  msJet := false
  bestitem := none
  paramNumber := -1
  dollarNumber := 0
  procReturn := procReturn
  braceLevel := 0
  parenthesizeTheFirst := false
  apdAllocated := apdAllocated
  ipdParameters := ipdParameters
  resolved := []
  ended := []

/-- A signed integer of `w` bits, of any integer. -/
def wrapInt (w : Nat) (n : Int) : Int := n.bmod (2 ^ w)

/-- What the loop leaves to other functions: ODBC escapes, the text `@@identity` stands for,
and the value of a parameter once it is known which parameter it is. -/
structure TokenHooks where
  convertEscape : QueryParse → TokenBuild → Option (QueryParse × TokenBuild)
  identityText : QueryParse → TokenBuild → List UInt8
  resolveValue : TokenBuild → Nat → Option (List UInt8)

/-! ## `ResolveOneParam` -/

/-- `parameter_is_with_cast`. -/
def parameterIsWithCast (str : List UInt8) : Bool :=
  match str with
  | [] => false
  | c :: str =>
    if c ≠ paramMarker then false
    else
      let str := str.dropWhile isSpace
      str.take 2 = ascii "::" || (strnicmpEq str (ascii "as") && isSpace (str.getD 2 0))

/-- A number as `%d` prints it. -/
def decimal (n : Int) : List UInt8 := ascii (toString n)

/-- What fits into `pnum`. -/
def pnumSize : Nat := 15

/-- What fits into `named_notation`. -/
def namedNotationSize : Nat := 70

/-- The part of `ResolveOneParam` for an output parameter that is discarded: a comma before
the marker goes, or behind an opening parenthesis the comma that follows. -/
def discardParam (qp : QueryParse) (qb : TokenBuild) : QueryParse × TokenBuild :=
  match h : qb.queryStatement.reverse.dropWhile isSpace with
  | c :: text =>
    if c = comma then
      (qp, qb.replaceData text.reverse (by
        have hle := (List.dropWhile_suffix (l := qb.queryStatement.reverse) isSpace).length_le
        rw [h, List.length_cons, List.length_reverse] at hle
        rw [List.length_reverse]
        omega))
    else if c = leftParen then
      let spaces := (qp.statement.drop (qp.opos + 1)).takeWhile isSpace
      let npos := qp.opos + 1 + spaces.length
      (if qp.charAt npos = comma then { qp with opos := npos } else qp, qb)
    else (qp, qb)
  | [] => (qp, qb)

/-- The name of a parameter of a procedure, in named notation. -/
def namedNotation (qp : QueryParse) (qb : TokenBuild) (ipara : Option IpdParam) : TokenBuild :=
  match ipara.bind fun ipara ↦ if ipara.output then none else ipara.paramName with
  | some name =>
    if qb.paramMode ≠ .buildingBindRequest ∧ qp.statementType = .proccall then
      qb.appendData ((identifierQuote :: name ++ ascii "\" := ").take namedNotationSize)
    else qb
  | none => qb

/-- The text for a parameter marker in a statement to prepare: its number and a cast. -/
def dollarParam (qp : QueryParse) (dollarNumber : Int) (paramCast : Bool)
    (ipara : Option IpdParam) : List UInt8 :=
  let cast :=
    match ipara with
    | some ipara =>
      if !ipara.output && paramCast && !parameterIsWithCast qp.oldPtr then ipara.pgcast else []
    | none => []
  (dollarQuote :: decimal dollarNumber ++ cast).take pnumSize

/-- The end of `ResolveOneParam`, for a parameter that is not left out. -/
def printParam (hooks : TokenHooks) (qp : QueryParse) (qb : TokenBuild) (paramNumber : Nat)
    (apara : Bool) (ipara : Option IpdParam) : Option TokenBuild :=
  let qb := namedNotation qp qb ipara
  if (apara = false ∨ ipara.isNone) ∧ qb.paramMode = .fakeParams then
    some { qb.appendData (ascii "NULL") with inaccurateResult := true }
  else if qb.paramMode = .buildingPrepareStatement then
    let dollarNumber := wrapInt 16 (qb.dollarNumber + 1)
    some { qb.appendData (dollarParam qp dollarNumber qb.paramCast ipara) with
      dollarNumber := dollarNumber }
  else (hooks.resolveValue qb paramNumber).map qb.appendData

/-- `ResolveOneParam`: the marker at `qp->opos` is parameter `++param_number`.  A negative
number is outside of both descriptors. -/
def TokenBuild.resolveOneParam (hooks : TokenHooks) (qp : QueryParse) (qb : TokenBuild) :
    Option (QueryParse × TokenBuild) :=
  let paramNumber := wrapInt 16 (qb.paramNumber + 1)
  let apara := decide (paramNumber < qb.apdAllocated)
  let ipara := qb.ipdParameters[paramNumber.toNat]?
  let output := ipara.any (·.output)
  let valueOutput := qb.paramMode ≠ .fakeParams ∧ qb.paramMode ≠ .buildingPrepareStatement
  let qb : TokenBuild :=
    { qb with paramNumber := paramNumber, resolved := qb.resolved ++ [qp.opos] }
  if paramNumber < 0 then none
  else if valueOutput ∧ (apara = false ∨ ipara.isNone) then none
  else if paramNumber < qb.procReturn then
    if ipara.any (!·.output) then none else some (qp, qb)
  else if output ∧ !pgVersionGe qb.conn 8 1 then none
  else if output ∧ qb.discardOutput then some (discardParam qp qb)
  else (printParam hooks qp qb paramNumber.toNat apara ipara).map fun qb ↦ (qp, qb)

/-! ## `inner_process_tokens` -/

/-- `remove_declare_cursor`. -/
def removeDeclareCursor (qp : QueryParse) (qb : TokenBuild) : QueryParse × TokenBuild :=
  ({ qp with usingCursor := false, declarePos := 0 },
    qb.replaceData (qb.queryStatement.drop qp.declarePos) (by
      rw [List.length_drop]
      exact Nat.sub_le _ _))

/-- What is put in front of `FROM` and `WHERE` for the keyset of an updatable cursor. -/
def keysetText (qp : QueryParse) (qb : TokenBuild) (opos : Int) : Option TokenBuild :=
  if qp.fromPos = opos then
    if qb.createKeyset then
      some ((qb.appendData (ascii ", \"ctid")).appendBestitem.appendData (ascii "\" "))
    else none
  else if qp.wherePos = opos ∧ qb.keysetDriven then
    let text := (qp.statement.drop (qp.fromPos + 5).toNat).take (qp.wherePos - qp.fromPos - 5).toNat
    some (((qb.appendData (ascii "where ctid = '(0,0)';select \"ctid")).appendBestitem.appendData
      (ascii "\" from ")).appendData text)
  else some qb

/-- The states in which the byte cannot end or begin anything else: an escape in a literal,
quotes of the three kinds, and comments. -/
def processQuoted (pt : ParseToken) (qp : QueryParse) (qb : TokenBuild) (oldchar : UInt8) :
    QueryParse × TokenBuild :=
  if qp.inStatus.escape then
    ({ qp with inStatus := { qp.inStatus with escape := false } }, qb.appendData [oldchar])
  else if qp.inStatus.dollarQuote then
    if oldchar = dollarQuote ∧
        qp.oldPtr.take qp.taglen = (qp.statement.drop qp.dollarTag).take qp.taglen then
      ({ qp with
          opos := qp.opos + (qp.taglen - 1)
          inStatus := { qp.inStatus with dollarQuote := false }
          dollarTag := 0
          taglen := 0 },
        qb.appendData (qp.oldPtr.take qp.taglen))
    else (qp, qb.appendData [oldchar])
  else if qp.inStatus.literal then
    let qp :=
      if oldchar = literalQuote then
        let qp := (pt.tokenFinish qp oldchar).2
        { qp with inStatus := { qp.inStatus with literal := false } }
      else
        let qp := (pt.tokenContinue qp oldchar).2
        if oldchar = qp.escapeInLiteral then
          { qp with inStatus := { qp.inStatus with escape := true } }
        else qp
    (qp, qb.appendData [oldchar])
  else if qp.inStatus.dquoteIdentifier then
    let qp :=
      if oldchar = identifierQuote then
        let qp := (pt.tokenFinish qp oldchar).2
        { qp with inStatus := { qp.inStatus with dquoteIdentifier := false } }
      else (pt.tokenContinue qp oldchar).2
    (qp, qb.appendData [oldchar])
  else if qp.inStatus.commentBlock then
    let next := qp.charAt (qp.opos + 1)
    if oldchar = slash ∧ next = asterisk then
      ({ qp with opos := qp.opos + 1, commentLevel := qp.commentLevel + 1 },
        (qb.appendData [oldchar]).appendData [next])
    else if oldchar = asterisk ∧ next = slash then
      ({ qp with
          opos := qp.opos + 1
          commentLevel := qp.commentLevel - 1
          inStatus := { qp.inStatus with commentBlock := decide (1 < qp.commentLevel) } },
        (qb.appendData [oldchar]).appendData [next])
    else (qp, qb.appendData [oldchar])
  else
    -- A line comment.
    let qp :=
      if oldchar = pgLinefeed then
        { qp with inStatus := { qp.inStatus with lineComment := false } }
      else qp
    (qp, qb.appendData [oldchar])

/-- The hack for boolean items of MS Access: `("item" = 1)` becomes `("item"='1')`. -/
def jetBoolean (qp : QueryParse) (qb : TokenBuild) (oldchar : UInt8) : TokenBuild :=
  if oldchar = rightParen ∧ qb.msJet ∧ qp.tokenCurr = ascii "1" ∧ 8 ≤ qp.opos ∧
      (qp.statement.drop (qp.opos - 5)).take 3 = ascii "\" =" then
    match (List.range' 6 (qp.opos - 7)).find? fun i ↦ qp.charAt (qp.opos - i) = identifierQuote with
    | some i =>
      if h : qp.charAt (qp.opos - (i + 1)) = leftParen ∧ 4 ≤ qb.queryStatement.length then
        qb.replaceData (qb.queryStatement.take (qb.queryStatement.length - 4) ++ ascii "='1'") (by
          have hlen : (ascii "='1'").length = 4 := by decide
          rw [List.length_append, List.length_take, hlen]
          omega)
      else qb
    | none => qb
  else qb

/-- What a byte outside of quotes and comments begins, other than a dollar quote. -/
def openToken (pt : ParseToken) (qp : QueryParse) (qb : TokenBuild) (oldchar : UInt8) :
    ParseToken × QueryParse × TokenBuild :=
  let next := qp.charAt (qp.opos + 1)
  if oldchar = literalQuote then
    let token := pt.tokenRestart qp oldchar
    let escape := ccGetEscape qb.conn
    (token.1, { token.2 with
        inStatus := { qp.inStatus with literal := true }
        escapeInLiteral :=
          if escape = 0 ∧ qp.prevChar = literalExt then escapeInLiteral else escape }, qb)
  else if oldchar = identifierQuote then
    let token := pt.tokenRestart qp oldchar
    (token.1, { token.2 with inStatus := { qp.inStatus with dquoteIdentifier := true } }, qb)
  else if oldchar = slash ∧ next = asterisk then
    let token := pt.tokenFinish qp 0
    ({ token.1 with curcharProcessed := true },
      { token.2 with
        commentLevel := qp.commentLevel + 1
        inStatus := { qp.inStatus with commentBlock := true } }, qb)
  else if oldchar = hyphen ∧ next = hyphen then
    let token := pt.tokenFinish qp 0
    ({ token.1 with curcharProcessed := true },
      { token.2 with inStatus := { qp.inStatus with lineComment := true } }, qb)
  else if oldchar = semicolon then
    let token := pt.tokenRestart qp 0
    let qb := { qb with dollarNumber := 0, ended := qb.ended ++ [qp.opos] }
    if qp.usingCursor ∧ (qp.statement.drop (qp.opos + 1)).dropWhile isSpace ≠ [] then
      (token.1, removeDeclareCursor { token.2 with multipleStatement := true }
        { qb with keysetDriven := false })
    else (token.1, token.2, qb)
  else if isAlnum oldchar then
    let token := pt.tokenRestart qp oldchar
    (token.1, { token.2 with inStatus := { qp.inStatus with identKeyword := true } }, qb)
  else
    let token := pt.tokenRestart qp oldchar
    (token.1, token.2, jetBoolean qp qb oldchar)

/-- The switch on the length of the finished token; the last component tells that the current
byte has been replaced with what follows it. -/
def checkToken (pt : ParseToken) (qp : QueryParse) (qb : TokenBuild) (oldchar : UInt8) :
    QueryParse × TokenBuild × Bool :=
  match pt.finishedToken with
  | none => (qp, qb, false)
  | some token =>
    if token.length = 4 ∧ qp.usingCursor ∧ intoTableFrom (qp.statement.drop (qp.opos - 4)) then
      let removed := removeDeclareCursor { qp with selectInto := true, statementType := .create }
        { qb with keysetDriven := false }
      (removed.1, removed.2, false)
    else if qp.usingCursor ∧ token.length = 3 ∧ strnicmpEq token (ascii "for") then
      let flg := tableForUpdateOrShare qp.oldPtr
      let qp := { qp with
        selectForUpdateOrShare := qp.selectForUpdateOrShare || flg.1
        selectForReadonly := qp.selectForReadonly || flg.2 }
      if flg.1 then
        let removed := removeDeclareCursor qp qb
        (removed.1, removed.2, false)
      else (qp, qb, false)
    else if qp.statementType = .insert ∧ token = ascii "()" then
      match insertWithoutTarget qp.oldPtr with
      | some endpos =>
        ({ qp with opos := qp.opos + endpos },
          (qb.replaceData (qb.queryStatement.take (qb.npos - 2)) (by
            rw [List.length_take]
            exact Nat.min_le_right _ _)).appendData (ascii "DEFAULT VALUES"), true)
      | none => (qp, qb, false)
    else if qp.statementType = .insert ∧ token = ascii "(" ∧ oldchar = rightParen then
      match insertWithoutTarget (qp.statement.drop (qp.opos + 1)) with
      | some endpos =>
        ({ qp with opos := qp.opos + endpos },
          (qb.replaceData (qb.queryStatement.take (qb.npos - 1)) (by
            rw [List.length_take]
            exact Nat.min_le_right _ _)).appendData (ascii " DEFAULT VALUES"), true)
      | none => (qp, qb, false)
    else (qp, qb, false)

/-- A byte outside of quotes and comments that is no marker and belongs to no escape. -/
def processPlain (pt : ParseToken) (qp : QueryParse) (qb : TokenBuild) (oldchar : UInt8) :
    QueryParse × TokenBuild :=
  let taglen := findTag qp.oldPtr qp.ccsc
  if oldchar = dollarQuote ∧ 0 < taglen then
    ({ (pt.tokenFinish qp 0).2 with
        taglen := taglen
        inStatus := { qp.inStatus with dollarQuote := true }
        dollarTag := qp.opos
        opos := qp.opos + (taglen - 1) },
      qb.appendData (qp.oldPtr.take taglen))
  else
    let opened :=
      if oldchar = dollarQuote then
        let token := pt.tokenFinish qp 0
        (token.1, { token.2 with taglen := 0 }, qb)
      else openToken pt qp qb oldchar
    let checked := checkToken opened.1 opened.2.1 opened.2.2 oldchar
    (checked.1, if checked.2.2 then checked.2.1 else checked.2.1.appendData [oldchar])

variable (hooks : TokenHooks)

/-- The idle status. -/
def processIdle (pt : ParseToken) (qp : QueryParse) (qb : TokenBuild) (oldchar : UInt8) :
    Option (QueryParse × TokenBuild) :=
  if qb.convertLf ∧ oldchar = pgCarriageReturn ∧ qp.charAt (qp.opos + 1) = pgLinefeed then
    some (qp, qb)
  else if oldchar = odbcEscapeStart then hooks.convertEscape (pt.tokenFinish qp 0).2 qb
  else if oldchar = odbcEscapeEnd then some ((pt.tokenFinish qp 0).2, qb.endBrace)
  else if strnicmpEq qp.oldPtr (ascii "@@identity") then
    some ({ qp with opos := qp.opos + 10 }, qb.appendData (hooks.identityText qp qb))
  else if oldchar ≠ paramMarker then some (processPlain pt qp qb oldchar)
  else TokenBuild.resolveOneParam hooks (pt.tokenRestart qp oldchar).2 qb

/-- `inner_process_tokens`; no result is `SQL_ERROR`. -/
def innerProcessTokens (qp : QueryParse) (qb : TokenBuild) : Option (QueryParse × TokenBuild) :=
  -- The position is an `Int4`.
  let opos := wrapInt 32 qp.opos
  if opos < 0 then none
  else
    (keysetText qp qb opos).bind fun qb ↦
      let oldchar := qp.charAt qp.opos
      let qp := { qp with ccst := pgCSStat qp.ccst oldchar qp.ccsc }
      let pt := ptInitialize
      if mbcsNonAscii qp.ccst oldchar then
        let qp :=
          if qp.inStatus.idle then
            { (pt.tokenRestart qp oldchar).2 with inStatus := { identKeyword := true } }
          else if qp.tokenCurr ≠ [] then (pt.tokenContinue qp oldchar).2
          else qp
        some (qp, qb.appendData [oldchar])
      else if qp.inStatus.identKeyword ∧
          (isAlnum oldchar ∨ oldchar = dollarQuote ∨ oldchar = underscore) then
        some ((pt.tokenContinue qp oldchar).2, qb.appendData [oldchar])
      else
        let token :=
          if qp.inStatus.identKeyword then
            let token := pt.tokenFinish qp 0
            (token.1, { token.2 with inStatus := { qp.inStatus with identKeyword := false } })
          else (pt, qp)
        if token.2.inStatus.idle then processIdle hooks token.1 token.2 qb oldchar
        else some (processQuoted token.1 token.2 qb oldchar)

/-- The loop variable is increased. -/
def QueryParse.advance (qp : QueryParse) : QueryParse := { qp with opos := qp.opos + 1 }

/-- The loop over the statement that all callers of `inner_process_tokens` have. -/
def processTokens : Nat → QueryParse → TokenBuild → Option (QueryParse × TokenBuild)
  | 0, _, _ => none
  | fuel + 1, qp, qb =>
    if qp.opos < qp.statement.length then
      (innerProcessTokens hooks qp qb).bind fun (qp, qb) ↦ processTokens fuel qp.advance qb
    else some (qp, qb)

/-- The states the loop gets to, from one it begins with. -/
inductive Reaches (qp0 : QueryParse) (qb0 : TokenBuild) : QueryParse → TokenBuild → Prop
  | start : Reaches qp0 qb0 qp0 qb0
  | step {qp qp' : QueryParse} {qb qb' : TokenBuild} (h : Reaches qp0 qb0 qp qb)
      (hlt : qp.opos < qp.statement.length)
      (hcall : innerProcessTokens hooks qp qb = some (qp', qb')) : Reaches qp0 qb0 qp'.advance qb'

/-- The loop ends in a state it gets to, behind the statement. -/
theorem reaches_of_processTokens {hooks : TokenHooks} {fuel : Nat} {qp0 qp qp' : QueryParse}
    {qb0 qb qb' : TokenBuild} (hr : Reaches hooks qp0 qb0 qp qb)
    (h : processTokens hooks fuel qp qb = some (qp', qb')) :
    Reaches hooks qp0 qb0 qp' qb' ∧ qp'.statement.length ≤ qp'.opos := by
  induction fuel generalizing qp qb with
  | zero => cases h
  | succ fuel ih =>
    rw [processTokens] at h
    by_cases hlt : qp.opos < qp.statement.length
    · rw [if_pos hlt] at h
      obtain ⟨⟨qp1, qb1⟩, hcall, hrest⟩ := Option.bind_eq_some_iff.1 h
      exact ih (.step hr hlt hcall) hrest
    · rw [if_neg hlt] at h
      cases h
      exact ⟨hr, Nat.not_lt.1 hlt⟩

end PsqlOdbc
