import PsqlOdbc.Convert.Lexis
import PsqlOdbc.Convert.ProcessTokens

/-!
# The rewriting loop follows the lexical rules

`innerProcessTokens_follows` is the one place where the states of the loop are looked at: a call
takes some bytes, and the rules take them to the same state and find the same markers and
semicolons in them.  `processTokens_events` is the same for the whole loop.
-/

namespace PsqlOdbc

/-! ## Tokens -/

section

variable (qp : QueryParse) (pt : ParseToken)

/-- The token that ends when the next one begins. -/
def QueryParse.openToken? : Option (List UInt8) :=
  if qp.prevTokenEnd then none else some qp.tokenCurr

theorem QueryParse.tokenFinish_zero :
    qp.tokenFinish 0 = ({ qp with prevTokenEnd := true }, qp.openToken?) := by
  rw [QueryParse.tokenFinish, QueryParse.openToken?]
  split
  · next h => rw [← h]
  · rw [if_neg (fun h ↦ h.1 rfl)]

theorem QueryParse.tokenFinish_eq (c : UInt8) :
    ∃ t, (qp.tokenFinish c).1 = { qp with prevTokenEnd := true, tokenCurr := t } := by
  rw [QueryParse.tokenFinish]
  split
  · next h => exact ⟨qp.tokenCurr, by rw [← h]⟩
  · exact ⟨_, rfl⟩

theorem QueryParse.tokenRestart_eq (c : UInt8) :
    qp.tokenRestart c =
      ({ qp with
          prevTokenEnd := !isNotSpace c
          tokenCurr := if isNotSpace c then [c] else qp.tokenCurr }, qp.openToken?) := by
  rw [QueryParse.tokenRestart, QueryParse.tokenFinish_zero]
  cases isNotSpace c <;> rfl

/-- A token goes on, or begins. -/
theorem QueryParse.tokenContinue_eq (c : UInt8) :
    ∃ t, qp.tokenContinue c = { qp with prevTokenEnd := false, tokenCurr := t } ∧ t ≠ [] ∧
      t.head? = ((if qp.prevTokenEnd then [] else qp.tokenCurr) ++ [c]).head? := by
  rw [QueryParse.tokenContinue]
  split
  · exact ⟨[c], rfl, List.cons_ne_nil _ _, rfl⟩
  · next h =>
    rw [Bool.not_eq_true] at h
    split
    · exact ⟨_, by rw [h], by simp, rfl⟩
    · next hlen =>
      have hne : qp.tokenCurr ≠ [] := by
        rintro hnil
        rw [hnil] at hlen
        exact hlen (by decide)
      exact ⟨qp.tokenCurr, by rw [← h], hne, by rw [List.head?_append_of_ne_nil _ hne]⟩

variable (h : pt.curcharProcessed = false)

include h

theorem ParseToken.tokenFinish_zero :
    pt.tokenFinish qp 0 =
      (⟨qp.openToken? <|> pt.finishedToken, false⟩, { qp with prevTokenEnd := true }) := by
  rw [ParseToken.tokenFinish, h, QueryParse.tokenFinish_zero]
  rfl

theorem ParseToken.tokenFinish_eq (c : UInt8) :
    ∃ t, (pt.tokenFinish qp c).2 = { qp with prevTokenEnd := true, tokenCurr := t } := by
  rw [ParseToken.tokenFinish, h]
  exact qp.tokenFinish_eq c

theorem ParseToken.tokenRestart_eq (c : UInt8) :
    pt.tokenRestart qp c =
      (⟨qp.openToken? <|> pt.finishedToken, true⟩,
        { qp with
          prevTokenEnd := !isNotSpace c
          tokenCurr := if isNotSpace c then [c] else qp.tokenCurr }) := by
  rw [ParseToken.tokenRestart, h, QueryParse.tokenRestart_eq]
  rfl

theorem ParseToken.tokenContinue_eq (c : UInt8) :
    ∃ t, (pt.tokenContinue qp c).2 = { qp with prevTokenEnd := false, tokenCurr := t } ∧ t ≠ [] ∧
      t.head? = ((if qp.prevTokenEnd then [] else qp.tokenCurr) ++ [c]).head? := by
  rw [ParseToken.tokenContinue, h]
  exact qp.tokenContinue_eq c

end

/-! ## The states -/

/-- The states of the loop that stand for a mode. -/
def QueryParse.InMode (qp : QueryParse) : Mode → Prop
  | .idle => qp.inStatus = {} ∧ qp.commentLevel = 0
  | .word => qp.inStatus = { identKeyword := true } ∧ qp.commentLevel = 0
  | .literal escape => qp.inStatus = { literal := true } ∧ qp.commentLevel = 0 ∧
      qp.escapeInLiteral = escape
  | .escaped escape => qp.inStatus = { literal := true, escape := true } ∧
      qp.commentLevel = 0 ∧ qp.escapeInLiteral = escape
  | .dquote => qp.inStatus = { dquoteIdentifier := true } ∧ qp.commentLevel = 0
  | .dollar tag => qp.inStatus = { dollarQuote := true } ∧ qp.commentLevel = 0 ∧
      (qp.statement.drop qp.dollarTag).take qp.taglen = tag ∧ tag.length = qp.taglen ∧ 0 < qp.taglen
  | .comment level => qp.inStatus = { commentBlock := true } ∧ qp.commentLevel = level ∧ 0 < level
  | .line => qp.inStatus = { lineComment := true } ∧ qp.commentLevel = 0

/-- The modes in which a token is open. -/
def Mode.quoted : Mode → Bool
  | .literal _ | .escaped _ | .dquote => true
  | _ => false

/-- The token that has been collected.  An opening parenthesis is a token of its own, and the
byte before ended it, or was the carriage return of a pair. -/
structure QueryParse.TokenOk (qp : QueryParse) (mode : Mode) : Prop where
  nonempty : qp.prevTokenEnd = false → qp.tokenCurr ≠ []
  paren : qp.prevTokenEnd = false → qp.tokenCurr.head? = some leftParen →
    mode = .idle ∧ qp.tokenCurr = [leftParen] ∧
      (qp.prevChar = leftParen ∨
        qp.prevChar = pgCarriageReturn ∧ qp.charAt qp.opos = pgLinefeed)
  quoted : mode.quoted = true → qp.prevTokenEnd = false

/-- The loop is where the rules are. -/
structure QueryParse.Lexes (qp : QueryParse) (s : LexState) : Prop where
  ccst : qp.ccst = s.ccst
  skip : s.skip = 0
  mode : qp.InMode s.mode
  token : qp.TokenOk s.mode
  settled : s.mode = .idle → s.ccst = 0
  inside : s.mode ≠ .idle → s.ccst ≠ 0 → qp.prevTokenEnd = false ∨ qp.tokenCurr = []

section

variable {qp qp' : QueryParse} {mode mode' : Mode}

theorem QueryParse.TokenOk.of_end (h : qp.prevTokenEnd = true) (hq : mode.quoted = false) :
    qp.TokenOk mode where
  nonempty h' := absurd (h.symm.trans h') (by decide)
  paren h' := absurd (h.symm.trans h') (by decide)
  quoted h' := absurd (hq.symm.trans h') (by decide)

theorem QueryParse.TokenOk.of_head (h : qp.prevTokenEnd = false) (hne : qp.tokenCurr ≠ [])
    (hhead : qp.tokenCurr.head? ≠ some leftParen) : qp.TokenOk mode :=
  ⟨fun _ ↦ hne, fun _ h' ↦ absurd h' hhead, fun _ ↦ h⟩

/-- The token stays as it is, in a mode that is not idle. -/
theorem QueryParse.TokenOk.stay (h : qp.TokenOk mode) (hidle : mode ≠ .idle)
    (hend : qp'.prevTokenEnd = qp.prevTokenEnd) (hcurr : qp'.tokenCurr = qp.tokenCurr)
    (hq : mode'.quoted = true → mode.quoted = true) : qp'.TokenOk mode' where
  nonempty h' := by
    rw [hcurr]
    exact h.nonempty (hend ▸ h')
  paren h' hhead := absurd (h.paren (hend ▸ h') (hcurr ▸ hhead)).1 hidle
  quoted h' := hend.trans (h.quoted (hq h'))

/-- The token goes on, in quotes. -/
theorem QueryParse.TokenOk.continued {t : List UInt8} {c : UInt8} (h : qp.TokenOk mode)
    (hq : mode.quoted = true) (hend : qp'.prevTokenEnd = false) (hcurr : qp'.tokenCurr = t)
    (hne : t ≠ [])
    (hhead : t.head? = ((if qp.prevTokenEnd then [] else qp.tokenCurr) ++ [c]).head?) :
    qp'.TokenOk mode' := by
  refine .of_head hend (hcurr ▸ hne) ?_
  have hopen := h.quoted hq
  have hidle : mode ≠ .idle := by
    rintro rfl
    cases hq
  rw [hcurr, hhead, hopen, if_neg Bool.false_ne_true,
    List.head?_append_of_ne_nil _ (h.nonempty hopen)]
  exact fun h' ↦ hidle (h.paren hopen h').1

end

/-- The loop gets from `qp` to `qp'`, and the rules from `s` to `s'`: they find the markers and
the semicolons that the loop has found. -/
structure Follows (qp : QueryParse) (qb : TokenBuild) (s : LexState) (qp' : QueryParse)
    (qb' : TokenBuild) (s' : LexState) : Prop where
  statement : qp'.statement = qp.statement
  before : qp'.before = qp.before
  ccsc : qp'.ccsc = qp.ccsc
  conn : qb'.conn = qb.conn
  le : qp.opos ≤ qp'.opos
  le_length : qp'.opos ≤ qp.statement.length
  lexes : qp'.Lexes s'
  events : ∃ events, events.length = qp'.opos - qp.opos ∧
    lexEvents qp.ccsc 0 (ccGetEscape qb.conn) qp.prevChar s qp.oldPtr =
      events ++ lexEvents qp'.ccsc 0 (ccGetEscape qb'.conn) qp'.prevChar s' qp'.oldPtr ∧
    qb'.resolved = qb.resolved ++ eventsAt .marker qp.opos events ∧
    qb'.ended = qb.ended ++ eventsAt .delim qp.opos events

section

variable {qp qp' qp'' : QueryParse} {qb qb' qb'' : TokenBuild} {s s' s'' : LexState}

theorem Follows.trans (h : Follows qp qb s qp' qb' s') (h' : Follows qp' qb' s' qp'' qb'' s'') :
    Follows qp qb s qp'' qb'' s'' := by
  obtain ⟨events, hlen, heq, hres, hend⟩ := h.events
  obtain ⟨events', hlen', heq', hres', hend'⟩ := h'.events
  have hle := h.le
  have hle' := h'.le
  have hpos : qp.opos + events.length = qp'.opos := by omega
  refine ⟨h'.statement.trans h.statement, h'.before.trans h.before, h'.ccsc.trans h.ccsc,
    h'.conn.trans h.conn, Nat.le_trans hle hle', h.statement ▸ h'.le_length, h'.lexes,
    events ++ events', ?_, ?_, ?_, ?_⟩
  · rw [List.length_append]
    omega
  · rw [heq, heq', List.append_assoc]
  · rw [hres', hres, eventsAt_append, hpos, List.append_assoc]
  · rw [hend', hend, eventsAt_append, hpos, List.append_assoc]

/-- The byte before, some bytes further on. -/
theorem QueryParse.prevChar_of_append {w text : List UInt8} (hw : w ≠ [])
    (h : qp.oldPtr = w ++ text) (hst : qp'.statement = qp.statement)
    (hpos : qp'.opos = qp.opos + w.length) : qp'.prevChar = w.getLastD qp.prevChar := by
  have hpos' := List.length_pos_iff.2 hw
  have hne : qp'.opos ≠ 0 := by omega
  have hlast : w.getLastD qp.prevChar = w[w.length - 1] := by
    rw [List.getLastD_eq_getLast?, List.getLast?_eq_getElem?,
      List.getElem?_eq_getElem (by omega), Option.getD_some]
  have hget : qp'.statement[qp'.opos - 1]? = some w[w.length - 1] := by
    have hidx : qp'.opos - 1 = qp.opos + (w.length - 1) := by omega
    rw [hst, hidx, ← List.getElem?_drop, ← QueryParse.oldPtr, h,
      List.getElem?_append_left (by omega), List.getElem?_eq_getElem (by omega)]
  rw [QueryParse.prevChar, if_neg hne, QueryParse.charAt, List.getD_eq_getElem?_getD, hget, hlast]
  rfl

/-- The text behind some bytes. -/
theorem QueryParse.oldPtr_of_append {w text : List UInt8} (h : qp.oldPtr = w ++ text)
    (hst : qp'.statement = qp.statement) (hpos : qp'.opos = qp.opos + w.length) :
    qp'.oldPtr = text := by
  rw [QueryParse.oldPtr, hst, hpos, ← List.drop_drop, ← QueryParse.oldPtr, h, List.drop_left]

end

/-! ## One symbol -/

/-- What no symbol changes. -/
structure SameText (qp : QueryParse) (qb : TokenBuild) (qp' : QueryParse) (qb' : TokenBuild) :
    Prop where
  statement : qp'.statement = qp.statement
  before : qp'.before = qp.before
  ccsc : qp'.ccsc = qp.ccsc
  ccst : qp'.ccst = qp.ccst
  conn : qb'.conn = qb.conn

/-- The loop has taken one symbol: `out` is what the rules say about it. -/
structure Outcome (qp : QueryParse) (qb : TokenBuild) (out : Mode × Nat × Event)
    (qp' : QueryParse) (qb' : TokenBuild) : Prop where
  same : SameText qp qb qp' qb'
  opos : qp'.opos = qp.opos + out.2.1
  mode : qp'.InMode out.1
  token : qp'.advance.TokenOk out.1
  resolved : qb'.resolved = qb.resolved ++ if out.2.2 = .marker then [qp.opos] else []
  ended : qb'.ended = qb.ended ++ if out.2.2 = .delim then [qp.opos] else []

section

variable {qp qp' : QueryParse} {qb qb' : TokenBuild} {c : UInt8} {rest : List UInt8}

/-- A symbol that is neither a marker nor a semicolon. -/
theorem Outcome.quiet {mode : Mode} {skip : Nat} {event : Event} (same : SameText qp qb qp' qb')
    (opos : qp'.opos = qp.opos + skip) (hmode : qp'.InMode mode) (htoken : qp'.advance.TokenOk mode)
    (hres : qb'.resolved = qb.resolved) (hend : qb'.ended = qb.ended)
    (hevent : event ≠ .marker ∧ event ≠ .delim := by
      first | exact ⟨Event.noConfusion, Event.noConfusion⟩ | exact insideEvent_quiet _) :
    Outcome qp qb (mode, skip, event) qp' qb' where
  same := same
  opos := opos
  mode := hmode
  token := htoken
  resolved := by rw [if_neg hevent.1, List.append_nil, hres]
  ended := by rw [if_neg hevent.2, List.append_nil, hend]

theorem QueryParse.charAt_of_oldPtr (h : qp.oldPtr = c :: rest) : qp.charAt qp.opos = c := by
  rw [QueryParse.charAt, List.getD_eq_getElem?_getD, ← Nat.add_zero qp.opos, ← List.getElem?_drop,
    ← QueryParse.oldPtr, h]
  rfl

theorem QueryParse.charAt_succ_of_oldPtr (h : qp.oldPtr = c :: rest) :
    qp.charAt (qp.opos + 1) = rest.headD 0 := by
  rw [QueryParse.charAt, List.getD_eq_getElem?_getD, ← List.getElem?_drop, ← QueryParse.oldPtr, h]
  cases rest <;> rfl

/-- Quotes and comments. -/
theorem processQuoted_outcome {mode : Mode} {pt : ParseToken} (hpt : pt.curcharProcessed = false)
    (opener : Nat) (escape prev : UInt8) (hold : qp.oldPtr = c :: rest) (hmode : qp.InMode mode)
    (htoken : qp.TokenOk mode) (hidle : mode ≠ .idle) (hword : mode ≠ .word) :
    Outcome qp qb (lexMode qp.ccsc opener escape prev c rest mode)
      (processQuoted pt qp qb c).1 (processQuoted pt qp qb c).2 := by
  have hnext := qp.charAt_succ_of_oldPtr hold
  obtain ⟨t, hfin⟩ := pt.tokenFinish_eq qp hpt c
  obtain ⟨t', hcont, hne, hhead⟩ := pt.tokenContinue_eq qp hpt c
  cases mode with
  | idle => exact absurd rfl hidle
  | word => exact absurd rfl hword
  | literal esc =>
    obtain ⟨hin, hlevel, rfl⟩ := hmode
    simp only [processQuoted, hin, lexMode, hfin, hcont, Bool.false_eq_true, if_false, if_true]
    split
    · exact .quiet ⟨rfl, rfl, rfl, rfl, rfl⟩ rfl ⟨rfl, hlevel⟩ (.of_end rfl rfl) rfl rfl
    · split
      · exact .quiet ⟨rfl, rfl, rfl, rfl, rfl⟩ rfl ⟨rfl, hlevel, rfl⟩
          (htoken.continued rfl rfl rfl hne hhead) rfl rfl
      · exact .quiet ⟨rfl, rfl, rfl, rfl, rfl⟩ rfl ⟨rfl, hlevel, rfl⟩
          (htoken.continued rfl rfl rfl hne hhead) rfl rfl
  | escaped esc =>
    obtain ⟨hin, hlevel, hesc⟩ := hmode
    simp only [processQuoted, hin, lexMode, if_true]
    exact .quiet ⟨rfl, rfl, rfl, rfl, rfl⟩ rfl ⟨rfl, hlevel, hesc⟩
      (htoken.stay hidle rfl rfl id) rfl rfl
  | dquote =>
    obtain ⟨hin, hlevel⟩ := hmode
    simp only [processQuoted, hin, lexMode, hfin, hcont, Bool.false_eq_true, if_false, if_true]
    split
    · exact .quiet ⟨rfl, rfl, rfl, rfl, rfl⟩ rfl ⟨rfl, hlevel⟩ (.of_end rfl rfl) rfl rfl
    · exact .quiet ⟨rfl, rfl, rfl, rfl, rfl⟩ rfl ⟨rfl, hlevel⟩
        (htoken.continued rfl rfl rfl hne hhead) rfl rfl
  | dollar tag =>
    obtain ⟨hin, hlevel, htag, hlen, hpos⟩ := hmode
    simp only [processQuoted, hin, lexMode, hold, htag, hlen, Bool.false_eq_true, if_false,
      if_true]
    split
    · exact .quiet ⟨rfl, rfl, rfl, rfl, rfl⟩ rfl ⟨rfl, hlevel⟩
        (htoken.stay hidle rfl rfl fun h ↦ h) rfl rfl
    · exact .quiet ⟨rfl, rfl, rfl, rfl, rfl⟩ rfl ⟨hin, hlevel, htag, hlen, hpos⟩
        (htoken.stay hidle rfl rfl fun h ↦ h) rfl rfl
  | comment level =>
    obtain ⟨hin, rfl, hpos⟩ := hmode
    simp only [processQuoted, hin, lexMode, hnext, Bool.false_eq_true, if_false, if_true]
    split
    · exact .quiet ⟨rfl, rfl, rfl, rfl, rfl⟩ rfl ⟨rfl, rfl, Nat.succ_pos _⟩
        (htoken.stay hidle rfl rfl fun h ↦ h) rfl rfl
    · split
      · refine .quiet ⟨rfl, rfl, rfl, rfl, rfl⟩ rfl ?_ (htoken.stay hidle rfl rfl ?_) rfl rfl
        · by_cases hlevel : 1 < qp.commentLevel
          · simp only [hlevel, if_true, decide_true]
            exact ⟨rfl, rfl, Nat.sub_pos_of_lt hlevel⟩
          · simp only [hlevel, if_false, decide_false]
            exact ⟨rfl, Nat.sub_eq_zero_of_le (Nat.not_lt.1 hlevel)⟩
        · split <;> exact fun h ↦ h
      · exact .quiet ⟨rfl, rfl, rfl, rfl, rfl⟩ rfl ⟨hin, rfl, hpos⟩
          (htoken.stay hidle rfl rfl id) rfl rfl
  | line =>
    obtain ⟨hin, hlevel⟩ := hmode
    simp only [processQuoted, hin, lexMode, Bool.false_eq_true, if_false]
    split
    · exact .quiet ⟨rfl, rfl, rfl, rfl, rfl⟩ rfl ⟨rfl, hlevel⟩
        (htoken.stay hidle rfl rfl fun h ↦ h) rfl rfl
    · exact .quiet ⟨rfl, rfl, rfl, rfl, rfl⟩ rfl ⟨hin, hlevel⟩
        (htoken.stay hidle rfl rfl id) rfl rfl

theorem QueryParse.InMode.congr {mode : Mode} (h : qp.InMode mode)
    (hstatement : qp'.statement = qp.statement) (hin : qp'.inStatus = qp.inStatus)
    (hlevel : qp'.commentLevel = qp.commentLevel) (hesc : qp'.escapeInLiteral = qp.escapeInLiteral)
    (htag : qp'.dollarTag = qp.dollarTag) (hlen : qp'.taglen = qp.taglen) : qp'.InMode mode := by
  cases mode <;> simpa only [QueryParse.InMode, hstatement, hin, hlevel, hesc, htag, hlen] using h

/-- The flags of the parse have nothing to do with the symbol. -/
theorem Outcome.withFlags {out : Mode × Nat × Event} {qp0 : QueryParse} {qb0 : TokenBuild}
    (h : Outcome qp0 qb0 out qp qb) (usingCursor selectInto forUpdate multiple readonly : Bool)
    (statementType : StatementType) (declarePos : Nat) (hconn : qb'.conn = qb.conn)
    (hres : qb'.resolved = qb.resolved) (hend : qb'.ended = qb.ended) :
    Outcome qp0 qb0 out
      { qp with
        usingCursor := usingCursor
        selectInto := selectInto
        selectForUpdateOrShare := forUpdate
        multipleStatement := multiple
        selectForReadonly := readonly
        statementType := statementType
        declarePos := declarePos } qb' where
  same := ⟨h.same.statement, h.same.before, h.same.ccsc, h.same.ccst, hconn.trans h.same.conn⟩
  opos := h.opos
  mode := h.mode.congr rfl rfl rfl rfl rfl rfl
  token := ⟨h.token.nonempty, h.token.paren, h.token.quoted⟩
  resolved := hres.trans h.resolved
  ended := hend.trans h.ended

theorem jetBoolean_eq (qp : QueryParse) (qb : TokenBuild) (c : UInt8) :
    (jetBoolean qp qb c).conn = qb.conn ∧ (jetBoolean qp qb c).resolved = qb.resolved ∧
      (jetBoolean qp qb c).ended = qb.ended := by
  rw [jetBoolean]
  split
  · split
    · split <;> exact ⟨rfl, rfl, rfl⟩
    · exact ⟨rfl, rfl, rfl⟩
  · exact ⟨rfl, rfl, rfl⟩

theorem QueryParse.prevChar_advance (qp : QueryParse) : qp.advance.prevChar = qp.charAt qp.opos :=
  rfl

/-- A byte that starts a token of its own. -/
theorem QueryParse.TokenOk.of_start {mode : Mode} (hend : qp'.prevTokenEnd = false)
    (hcurr : qp'.tokenCurr = [c]) (hc : c = leftParen → mode = .idle ∧ qp'.prevChar = leftParen) :
    qp'.TokenOk mode where
  nonempty _ := hcurr ▸ List.cons_ne_nil _ _
  paren _ hhead := by
    rw [hcurr, List.head?_cons, Option.some_inj] at hhead
    obtain ⟨hmode, hprev⟩ := hc hhead
    exact ⟨hmode, by rw [hcurr, hhead], Or.inl hprev⟩
  quoted _ := hend

theorem isNotSpace_of_isAlnum (h : isAlnum c = true) : isNotSpace c = true := by
  simp only [isAlnum, isNotSpace, isSpace, Bool.and_eq_true, Bool.or_eq_true, decide_eq_true_eq,
    Bool.not_eq_true', Bool.or_eq_false_iff, Bool.and_eq_false_iff, decide_eq_false_iff_not,
    ne_eq] at *
  grind

/-- What a byte outside of quotes and comments begins. -/
theorem openToken_outcome {pt : ParseToken} (hpt : pt.curcharProcessed = false)
    (hold : qp.oldPtr = c :: rest) (hmode : qp.InMode .idle)
    (hescape : ¬(c = odbcEscapeStart ∨ strnicmpEq (c :: rest) (ascii "@@identity")))
    (hmarker : c ≠ paramMarker) (hdollar : c ≠ dollarQuote) :
    Outcome qp qb (lexIdle qp.ccsc 0 (ccGetEscape qb.conn) qp.prevChar c rest)
      (openToken pt qp qb c).2.1 (openToken pt qp qb c).2.2 ∧
    (openToken pt qp qb c).1.finishedToken = (qp.openToken? <|> pt.finishedToken) := by
  have hnext := qp.charAt_succ_of_oldPtr hold
  have hc := qp.charAt_of_oldPtr hold
  obtain ⟨hin, hlevel⟩ := hmode
  rw [openToken, lexIdle, if_neg hescape, if_neg hmarker, if_neg hdollar]
  simp only [hnext, pt.tokenRestart_eq qp hpt, pt.tokenFinish_zero qp hpt]
  split
  · next h =>
    subst h
    exact ⟨.quiet ⟨rfl, rfl, rfl, rfl, rfl⟩ rfl ⟨by rw [hin], hlevel, rfl⟩
      (.of_start rfl rfl fun h ↦ absurd h (by decide)) rfl rfl, rfl⟩
  · split
    · next h =>
      subst h
      exact ⟨.quiet ⟨rfl, rfl, rfl, rfl, rfl⟩ rfl ⟨by rw [hin], hlevel⟩
        (.of_start rfl rfl fun h ↦ absurd h (by decide)) rfl rfl, rfl⟩
    · split
      · exact ⟨.quiet ⟨rfl, rfl, rfl, rfl, rfl⟩ rfl
          ⟨by rw [hin], by rw [hlevel], Nat.one_pos⟩ (.of_end rfl rfl) rfl rfl
          (by split <;> decide), rfl⟩
      · split
        · exact ⟨.quiet ⟨rfl, rfl, rfl, rfl, rfl⟩ rfl ⟨by rw [hin], hlevel⟩ (.of_end rfl rfl)
            rfl rfl, rfl⟩
        · split
          · split
            · exact ⟨⟨⟨rfl, rfl, rfl, rfl, rfl⟩, rfl, ⟨hin, hlevel⟩, .of_end rfl rfl,
                (List.append_nil _).symm, rfl⟩, rfl⟩
            · exact ⟨⟨⟨rfl, rfl, rfl, rfl, rfl⟩, rfl, ⟨hin, hlevel⟩, .of_end rfl rfl,
                (List.append_nil _).symm, rfl⟩, rfl⟩
          · split
            · next h =>
              have hns : isNotSpace c = true := isNotSpace_of_isAlnum h
              refine ⟨.quiet ⟨rfl, rfl, rfl, rfl, rfl⟩ rfl ⟨by rw [hin], hlevel⟩ ?_ rfl rfl, rfl⟩
              refine .of_start (by rw [hns]; rfl) (if_pos hns) fun hc ↦ ?_
              rw [hc] at h
              exact absurd h (by decide)
            · obtain ⟨hconn, hres, hend⟩ := jetBoolean_eq qp qb c
              refine ⟨.quiet ⟨rfl, rfl, rfl, rfl, hconn⟩ rfl ⟨hin, hlevel⟩ ?_ hres hend, rfl⟩
              cases hns : isNotSpace c with
              | true => exact .of_start rfl rfl fun h ↦ ⟨rfl, hc.trans h⟩
              | false => exact .of_end rfl rfl

end

end PsqlOdbc
