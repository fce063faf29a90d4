import PsqlOdbc.EncodedStr
import PsqlOdbc.Convert.QueryBuild

/-!
# The statement under translation (`convert.c`, `QueryParse`)

The cursor that `inner_process_tokens` moves over the original statement, the token it
collects on the way, and the functions that look ahead in the statement.
-/

namespace PsqlOdbc

/-! ## Characters -/

abbrev identifierQuote : UInt8 := 0x22
abbrev dollarQuote : UInt8 := 0x24
abbrev odbcEscapeStart : UInt8 := 0x7b
abbrev odbcEscapeEnd : UInt8 := 0x7d
/-- `?`. -/
abbrev paramMarker : UInt8 := 0x3f
/-- `;`. -/
abbrev semicolon : UInt8 := 0x3b
abbrev slash : UInt8 := 0x2f
abbrev asterisk : UInt8 := 0x2a
abbrev hyphen : UInt8 := 0x2d
abbrev underscore : UInt8 := 0x5f
abbrev comma : UInt8 := 0x2c
abbrev leftParen : UInt8 := 0x28
abbrev rightParen : UInt8 := 0x29

/-- `isspace`, in the C locale. -/
def isSpace (c : UInt8) : Bool := c = 0x20 || (0x09 ≤ c && c ≤ 0x0d)

/-- `IS_NOT_SPACE`. -/
def isNotSpace (c : UInt8) : Bool := c ≠ 0 && !isSpace c

/-- `isalnum`, in the C locale. -/
def isAlnum (c : UInt8) : Bool :=
  (0x30 ≤ c && c ≤ 0x39) || (0x41 ≤ c && c ≤ 0x5a) || (0x61 ≤ c && c ≤ 0x7a)

/-- `tolower`, in the C locale. -/
def toLower (c : UInt8) : UInt8 := if 0x41 ≤ c && c ≤ 0x5a then c + 0x20 else c

/-- The bytes of an ASCII text. -/
def ascii (s : String) : List UInt8 := s.toList.map fun c ↦ UInt8.ofNat c.toNat

/-- What a test tells of each of the bytes. -/
theorem forall_mem_of_all {α : Type} {p : α → Prop} [DecidablePred p] {l : List α}
    (h : l.all fun x ↦ p x) : ∀ x ∈ l, p x :=
  fun x hx ↦ of_decide_eq_true (List.all_eq_true.1 h x hx)

/-- `0 == strnicmp(s, word, strlen(word))`, for a word in lower case. -/
def strnicmpEq (s word : List UInt8) : Bool := (s.take word.length).map toLower = word

/-! ## Looking ahead -/

/-- The loop of `findTag`, from the byte at `pos` behind the first dollar on. -/
def findTagLoop (ccsc : CharSet) : Nat → Nat → List UInt8 → Nat
  | _, _, [] => 0
  | ccst, pos, tchar :: tag =>
    let ccst := pgCSStat ccst tchar ccsc
    if mbcsNonAscii ccst tchar then findTagLoop ccsc ccst (pos + 1) tag
    else if tchar = dollarQuote then pos + 2
    else if isAlnum tchar then findTagLoop ccsc ccst (pos + 1) tag
    else 0

/-- `findTag`: the length of the tag the text begins with, or 0. -/
def findTag (tag : List UInt8) (ccsc : CharSet) : Nat := findTagLoop ccsc 0 0 tag.tail

/-- Behind a name in double quotes, for `into_table_from`; the argument is what follows the
opening quote. -/
def skipQuotedName : List UInt8 → List UInt8
  | [] => []
  | c :: stmt =>
    if c = identifierQuote then
      match stmt with
      | d :: stmt => if d = identifierQuote then skipQuotedName stmt else d :: stmt
      | [] => []
    else skipQuotedName stmt

/-- `into_table_from`. -/
def intoTableFrom (stmt : List UInt8) : Bool :=
  if !strnicmpEq stmt (ascii "into") then false
  else
    let stmt := (stmt.drop 4).dropWhile isSpace
    match stmt with
    | [] => false
    | c :: tail =>
      if c = comma || c = literalQuote || c = dollarQuote then false
      else if c = hyphen || c = slash then true
      else
        let stmt :=
          if c = identifierQuote then skipQuotedName tail else stmt.dropWhile isNotSpace
        match stmt with
        | [] => false
        | _ :: _ =>
          let stmt := stmt.dropWhile isSpace
          stmt.headD 0 = slash || stmt.headD 0 = hyphen || strnicmpEq stmt (ascii "from")

/-- `table_for_update_or_share`: whether the result has `FLGP_SELECT_FOR_UPDATE_OR_SHARE` and
`FLGP_SELECT_FOR_READONLY`.  The tests behind the first word change `endpos` only, which the
caller does not use. -/
def tableForUpdateOrShare (stmt : List UInt8) : Bool × Bool :=
  match stmt.dropWhile isSpace with
  | [] => (false, false)
  | c :: wstmt =>
    if strnicmpEq (c :: wstmt) (ascii "update") then (true, false)
    else if strnicmpEq (c :: wstmt) (ascii "share") then (true, false)
    else if strnicmpEq (c :: wstmt) (ascii "read") then (false, true)
    else (true, false)

/-- `insert_without_target`: `endpos`, if the text goes on with `VALUES ()`. -/
def insertWithoutTarget (stmt : List UInt8) : Option Nat :=
  let wstmt := stmt.dropWhile isSpace
  if !strnicmpEq wstmt (ascii "values") then none
  else
    let wstmt := wstmt.drop 6
    if !isSpace (wstmt.headD 0) then none
    else
      match wstmt.dropWhile isSpace with
      | c :: d :: wstmt =>
        if c = leftParen ∧ d = rightParen ∧
            (wstmt = [] ∨ isSpace (wstmt.headD 0) ∨ wstmt.headD 0 = semicolon) then
          some (stmt.length - wstmt.length)
        else none
      | _ => none

/-! ## `QueryParse` -/

/-- `in_status`, with the `QP_IN_` bits as fields. -/
structure InStatus where
  identKeyword : Bool := false
  dquoteIdentifier : Bool := false
  literal : Bool := false
  escape : Bool := false
  dollarQuote : Bool := false
  commentBlock : Bool := false
  lineComment : Bool := false
  deriving DecidableEq, Repr

/-- `QP_in_idle_status`. -/
def InStatus.idle (s : InStatus) : Bool := s = {}

/-- The kinds of statements that are told apart here. -/
inductive StatementType
  | select | insert | create | proccall | other
  deriving DecidableEq, Repr

/-- `QueryParse`, with the `FLGP_` bits as fields.  `token_len` is the length of `token_curr`,
and `dollar_tag` the offset of the tag in the statement. -/
structure QueryParse where
  statement : List UInt8
  /-- The byte in memory before the statement. -/
  before : UInt8
  statementType : StatementType
  opos : Nat
  fromPos : Int
  wherePos : Int
  inStatus : InStatus
  escapeInLiteral : UInt8
  prevTokenEnd : Bool
  dollarTag : Nat
  taglen : Nat
  tokenCurr : List UInt8
  declarePos : Nat
  usingCursor : Bool
  selectInto : Bool
  selectForUpdateOrShare : Bool
  multipleStatement : Bool
  selectForReadonly : Bool
  commentLevel : Nat
  ccsc : CharSet
  /-- `encstr.ccst`. -/
  ccst : Nat

/-- `QP_initialize`. -/
def qpInitialize (conn : ConnectionClass) (statement : List UInt8) (before : UInt8)
    (statementType : StatementType) : QueryParse where
  statement := statement
  before := before
  statementType := statementType
  opos := 0
  fromPos := -1
  wherePos := -1
  inStatus := {}
  escapeInLiteral := 0
  prevTokenEnd := true
  dollarTag := 0
  taglen := 0
  tokenCurr := []
  declarePos := 0
  usingCursor := false
  selectInto := false
  selectForUpdateOrShare := false
  multipleStatement := false
  selectForReadonly := false
  commentLevel := 0
  ccsc := conn.ccsc
  ccst := 0

namespace QueryParse

variable (qp : QueryParse)

/-- The bytes from an offset on; the statement is terminated behind its last byte. -/
def charAt (i : Nat) : UInt8 := qp.statement.getD i 0

/-- `F_OldPtr`. -/
def oldPtr : List UInt8 := qp.statement.drop qp.opos

/-- `F_OldPtr(qp)[-1]`. -/
def prevChar : UInt8 := if qp.opos = 0 then qp.before else qp.charAt (qp.opos - 1)

/-! ### Tokens -/

/-- `sizeof(qp->token_curr)`. -/
def tokenSize : Nat := 64

/-- `token_start`. -/
def tokenStart (oldchar : UInt8) : QueryParse :=
  { qp with prevTokenEnd := false, tokenCurr := [oldchar] }

/-- `token_continue`. -/
def tokenContinue (oldchar : UInt8) : QueryParse :=
  if qp.prevTokenEnd then qp.tokenStart oldchar
  else if qp.tokenCurr.length + 1 < tokenSize then
    { qp with tokenCurr := qp.tokenCurr ++ [oldchar] }
  else qp

/-- `token_finish`: the finished token, if there was one. -/
def tokenFinish (oldchar : UInt8) : QueryParse × Option (List UInt8) :=
  if qp.prevTokenEnd then (qp, none)
  else
    let tokenCurr :=
      if oldchar ≠ 0 ∧ qp.tokenCurr.length + 1 < tokenSize then qp.tokenCurr ++ [oldchar]
      else qp.tokenCurr
    ({ qp with tokenCurr := tokenCurr, prevTokenEnd := true }, some tokenCurr)

/-- `token_restart`. -/
def tokenRestart (oldchar : UInt8) : QueryParse × Option (List UInt8) :=
  let (qp, finished) := qp.tokenFinish 0
  (if isNotSpace oldchar then qp.tokenStart oldchar else qp, finished)

end QueryParse

/-- `ParseToken`: the finished token and whether the current byte has been taken. -/
structure ParseToken where
  finishedToken : Option (List UInt8)
  curcharProcessed : Bool
  deriving DecidableEq, Repr

/-- `PT_initialize`. -/
def ptInitialize : ParseToken := ⟨none, false⟩

namespace ParseToken

/-- `PT_token_finish`. -/
def tokenFinish (pt : ParseToken) (qp : QueryParse) (oldchar : UInt8) : ParseToken × QueryParse :=
  if pt.curcharProcessed then (pt, qp)
  else
    let (qp, finished) := qp.tokenFinish oldchar
    (⟨finished <|> pt.finishedToken, decide (oldchar ≠ 0)⟩, qp)

/-- `PT_token_restart`. -/
def tokenRestart (pt : ParseToken) (qp : QueryParse) (oldchar : UInt8) : ParseToken × QueryParse :=
  if pt.curcharProcessed then (pt, qp)
  else
    let (qp, finished) := qp.tokenRestart oldchar
    (⟨finished <|> pt.finishedToken, true⟩, qp)

/-- `PT_token_continue`. -/
def tokenContinue (pt : ParseToken) (qp : QueryParse) (oldchar : UInt8) :
    ParseToken × QueryParse :=
  if pt.curcharProcessed then (pt, qp)
  else ({ pt with curcharProcessed := true }, qp.tokenContinue oldchar)

end ParseToken

end PsqlOdbc
