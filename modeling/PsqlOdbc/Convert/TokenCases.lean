import PsqlOdbc.Statement.ScannersAgree

/-!
# What one call does to the text

A call of `inner_process_tokens` copies bytes of the statement, or leaves them to one of the
rewriting functions; `TokenCall` says which.  Text that is already there is only touched where a
cursor is declared, for MS Jet, and by the short form of an INSERT.
-/

namespace PsqlOdbc

/-- What no call changes as long as no cursor is declared. -/
structure SameParse (qp qp' : QueryParse) : Prop where
  statement : qp'.statement = qp.statement
  before : qp'.before = qp.before
  statementType : qp'.statementType = qp.statementType
  usingCursor : qp'.usingCursor = qp.usingCursor
  ccsc : qp'.ccsc = qp.ccsc
  fromPos : qp'.fromPos = qp.fromPos
  wherePos : qp'.wherePos = qp.wherePos

theorem SameParse.refl (qp : QueryParse) : SameParse qp qp := ⟨rfl, rfl, rfl, rfl, rfl, rfl, rfl⟩

theorem SameParse.trans {qp qp' qp'' : QueryParse} (h : SameParse qp qp') (h' : SameParse qp' qp'') :
    SameParse qp qp'' where
  statement := h'.statement.trans h.statement
  before := h'.before.trans h.before
  statementType := h'.statementType.trans h.statementType
  usingCursor := h'.usingCursor.trans h.usingCursor
  ccsc := h'.ccsc.trans h.ccsc
  fromPos := h'.fromPos.trans h.fromPos
  wherePos := h'.wherePos.trans h.wherePos

/-- A dollar quote has a tag in the statement. -/
def QueryParse.TagOk (qp : QueryParse) : Prop :=
  qp.inStatus.dollarQuote = true →
    0 < qp.taglen ∧ qp.dollarTag + qp.taglen ≤ qp.statement.length

/-- The short form of an INSERT begins at the parenthesis under the cursor. -/
def QueryParse.AtDefaultValues (qp : QueryParse) : Prop :=
  qp.statementType = .insert ∧ ∃ token, qp.openToken? = some token ∧
    (token = ascii "()" ∧ (insertWithoutTarget qp.oldPtr).isSome ∨
      token = [leftParen] ∧ qp.oldPtr.headD 0 = rightParen ∧
        (insertWithoutTarget (qp.statement.drop (qp.opos + 1))).isSome)

/-- All of the build but its text and the counters of the current piece. -/
def TokenBuild.core (qb : TokenBuild) : TokenBuild :=
  { qb with
    queryStatement := []
    ext_escape := qb.ext_escape_ne
    strAlsize := 1
    npos_lt := Nat.one_pos
    dollarNumber := 0
    ended := [] }

/-- The build has got more text. -/
structure Extended (qb : TokenBuild) (text : List UInt8) (qb' : TokenBuild) : Prop where
  core : qb'.core = qb.core
  text : qb'.queryStatement = qb.queryStatement ++ text

/-- Bytes are copied, and the cursor is on the last of them. -/
structure Copied (qp : QueryParse) (qb : TokenBuild) (qp' : QueryParse) (qb' : TokenBuild) :
    Prop where
  le : qp.opos ≤ qp'.opos
  lt : qp'.opos < qp.statement.length
  same : SameParse qp qp'
  tag : qp'.TagOk
  build : Extended qb (qp.oldPtr.take (qp'.opos - qp.opos + 1)) qb'

/-- What a call does; the text in front of a keyset has been put in `qb` before. -/
inductive TokenCall (hooks : TokenHooks) (qp : QueryParse) (qb : TokenBuild) :
    QueryParse → TokenBuild → Prop
  | copied {qp' : QueryParse} {qb' : TokenBuild} (h : Copied qp qb qp' qb') :
      TokenCall hooks qp qb qp' qb'
  /-- The carriage return of a pair. -/
  | dropped {qp' : QueryParse} (hconvert : qb.convertLf = true)
      (hchar : qp.oldPtr.headD 0 = pgCarriageReturn ∧ qp.charAt (qp.opos + 1) = pgLinefeed)
      (hpos : qp'.opos = qp.opos) (hsame : SameParse qp qp') (htag : qp'.TagOk) :
      TokenCall hooks qp qb qp' qb
  | escape {qp1 qp' : QueryParse} {qb' : TokenBuild} (hchar : qp.oldPtr.headD 0 = odbcEscapeStart)
      (hpos : qp1.opos = qp.opos) (hsame : SameParse qp qp1) (hidle : qp1.inStatus.idle = true)
      (hcall : hooks.convertEscape qp1 qb = some (qp', qb')) : TokenCall hooks qp qb qp' qb'
  | endBrace {qp' : QueryParse} (hchar : qp.oldPtr.headD 0 = odbcEscapeEnd)
      (hpos : qp'.opos = qp.opos) (hsame : SameParse qp qp') (htag : qp'.TagOk) :
      TokenCall hooks qp qb qp' qb.endBrace
  | identity {qp' : QueryParse} (text : List UInt8)
      (htoken : strnicmpEq qp.oldPtr (ascii "@@identity") = true)
      (hpos : qp'.opos = qp.opos + 10) (hsame : SameParse qp qp') (htag : qp'.TagOk) :
      TokenCall hooks qp qb qp' (qb.appendData text)
  | marker {qp1 qp' : QueryParse} {qb' : TokenBuild} (hchar : qp.oldPtr.headD 0 = paramMarker)
      (hpos : qp1.opos = qp.opos) (hsame : SameParse qp qp1) (hidle : qp1.inStatus.idle = true)
      (hcall : TokenBuild.resolveOneParam hooks qp1 qb = some (qp', qb')) :
      TokenCall hooks qp qb qp' qb'
  /-- A declared cursor or MS Jet: earlier text may change. -/
  | rewritten {qp' : QueryParse} {qb' : TokenBuild} (h : qp.usingCursor = true ∨ qb.msJet = true) :
      TokenCall hooks qp qb qp' qb'
  /-- The last bytes of the text are replaced. -/
  | defaultValues {qp' : QueryParse} {qb' : TokenBuild} (n : Nat) (text : List UInt8)
      (h : qp.AtDefaultValues) (hn : n ≤ 2) (htext : 3 ≤ text.length) (hsame : SameParse qp qp')
      (htag : qp'.TagOk) (hcore : qb'.core = qb.core)
      (hbuild : qb'.queryStatement = qb.queryStatement.take (qb.npos - n) ++ text) :
      TokenCall hooks qp qb qp' qb'

section

variable {hooks : TokenHooks} {qp qp' : QueryParse} {qb qb' : TokenBuild} {pt : ParseToken}
  {c : UInt8} {rest text : List UInt8}

theorem Extended.of_append (text : List UInt8) : Extended qb text (qb.appendData text) :=
  ⟨rfl, rfl⟩

theorem Extended.append (h : Extended qb text qb') (more : List UInt8) :
    Extended qb (text ++ more) (qb'.appendData more) where
  core := h.core
  text := by rw [TokenBuild.appendData_queryStatement, h.text, List.append_assoc]

/-- One byte is copied. -/
theorem Copied.one (hold : qp.oldPtr = c :: rest) (hpos : qp'.opos = qp.opos)
    (hsame : SameParse qp qp') (htag : qp'.TagOk) (hbuild : Extended qb [c] qb') :
    Copied qp qb qp' qb' where
  le := hpos.symm.le
  lt := by
    have hlen := congrArg List.length hold
    rw [QueryParse.oldPtr, List.length_drop, List.length_cons] at hlen
    omega
  same := hsame
  tag := htag
  build := by
    rw [hpos, Nat.sub_self, hold]
    exact hbuild

/-- A second byte is copied with the first. -/
theorem Copied.two (hold : qp.oldPtr = c :: rest) (hnext : qp.charAt (qp.opos + 1) ≠ 0)
    (hpos : qp'.opos = qp.opos + 1) (hsame : SameParse qp qp') (htag : qp'.TagOk)
    (hbuild : Extended qb [c, qp.charAt (qp.opos + 1)] qb') : Copied qp qb qp' qb' := by
  rw [qp.charAt_succ_of_oldPtr hold] at hnext hbuild
  have hrest := eq_cons_of_headD rfl hnext
  have hlen := congrArg List.length hold
  rw [QueryParse.oldPtr, List.length_drop, hrest, List.length_cons, List.length_cons] at hlen
  refine ⟨by omega, by omega, hsame, htag, ?_⟩
  rw [hpos, Nat.add_sub_cancel_left, hold, hrest]
  exact hbuild

/-- A dollar tag is copied. -/
theorem Copied.tagged {taglen : Nat} (hpos : 0 < taglen) (hle : qp.opos + taglen ≤ qp.statement.length)
    (hopos : qp'.opos = qp.opos + (taglen - 1)) (hsame : SameParse qp qp') (htag : qp'.TagOk)
    (hbuild : Extended qb (qp.oldPtr.take taglen) qb') : Copied qp qb qp' qb' := by
  refine ⟨by omega, by omega, hsame, htag, ?_⟩
  rw [hopos, Nat.add_sub_cancel_left, Nat.sub_add_cancel hpos]
  exact hbuild

/-! ## Quotes and comments -/

theorem processQuoted_copied (hpt : pt.curcharProcessed = false) (hold : qp.oldPtr = c :: rest)
    (htag : qp.TagOk) :
    Copied qp qb (processQuoted pt qp qb c).1 (processQuoted pt qp qb c).2 := by
  obtain ⟨t, hfin⟩ := pt.tokenFinish_eq qp hpt c
  obtain ⟨t', hcont, -, -⟩ := pt.tokenContinue_eq qp hpt c
  have hlt : qp.opos < qp.statement.length := by
    have hlen := congrArg List.length hold
    rw [QueryParse.oldPtr, List.length_drop, List.length_cons] at hlen
    omega
  rw [processQuoted]
  split
  · exact .one hold rfl ⟨rfl, rfl, rfl, rfl, rfl, rfl, rfl⟩ htag (.of_append [c])
  split
  · next hdollar =>
    split
    · next hmatch =>
      obtain ⟨hpos, hle⟩ := htag hdollar
      refine .tagged hpos ?_ rfl ⟨rfl, rfl, rfl, rfl, rfl, rfl, rfl⟩
        (fun h ↦ absurd h Bool.false_ne_true) (.of_append _)
      have hlen := congrArg List.length hmatch.2
      rw [List.length_take, List.length_take, List.length_drop, QueryParse.oldPtr,
        List.length_drop] at hlen
      omega
    · exact .one hold rfl ⟨rfl, rfl, rfl, rfl, rfl, rfl, rfl⟩ htag (.of_append [c])
  split
  · simp only [hfin, hcont]
    split
    · exact .one hold rfl ⟨rfl, rfl, rfl, rfl, rfl, rfl, rfl⟩ htag (.of_append [c])
    · split
      · exact .one hold rfl ⟨rfl, rfl, rfl, rfl, rfl, rfl, rfl⟩ htag (.of_append [c])
      · exact .one hold rfl ⟨rfl, rfl, rfl, rfl, rfl, rfl, rfl⟩ htag (.of_append [c])
  split
  · simp only [hfin, hcont]
    split
    · exact .one hold rfl ⟨rfl, rfl, rfl, rfl, rfl, rfl, rfl⟩ htag (.of_append [c])
    · exact .one hold rfl ⟨rfl, rfl, rfl, rfl, rfl, rfl, rfl⟩ htag (.of_append [c])
  split
  · dsimp only
    split
    · next hopen =>
      exact .two hold (by rw [hopen.2]; decide) rfl ⟨rfl, rfl, rfl, rfl, rfl, rfl, rfl⟩ htag
        ((Extended.of_append [c]).append [_])
    · split
      · next hclose =>
        exact .two hold (by rw [hclose.2]; decide) rfl ⟨rfl, rfl, rfl, rfl, rfl, rfl, rfl⟩ htag
          ((Extended.of_append [c]).append [_])
      · exact .one hold rfl ⟨rfl, rfl, rfl, rfl, rfl, rfl, rfl⟩ htag (.of_append [c])
  · dsimp only
    split
    · exact .one hold rfl ⟨rfl, rfl, rfl, rfl, rfl, rfl, rfl⟩ htag (.of_append [c])
    · exact .one hold rfl ⟨rfl, rfl, rfl, rfl, rfl, rfl, rfl⟩ htag (.of_append [c])

/-! ## Outside of quotes and comments -/

/-- Nothing has been taken yet. -/
structure Opening (qp : QueryParse) (qb : TokenBuild) (qp' : QueryParse) (qb' : TokenBuild) :
    Prop where
  opos : qp'.opos = qp.opos
  same : SameParse qp qp'
  tag : qp'.TagOk
  build : Extended qb [] qb'

theorem Extended.refl (qb : TokenBuild) : Extended qb [] qb := ⟨rfl, (List.append_nil _).symm⟩

/-- A byte begins something that no cursor and no MS Jet has to do with. -/
theorem openToken_opening (hpt : pt.curcharProcessed = false) (htag : qp.TagOk)
    (hcursor : qp.usingCursor = false) (hjet : qb.msJet = false) (c : UInt8) :
    Opening qp qb (openToken pt qp qb c).2.1 (openToken pt qp qb c).2.2 ∧
      (openToken pt qp qb c).1.finishedToken = (qp.openToken? <|> pt.finishedToken) := by
  rw [openToken]
  simp only [pt.tokenRestart_eq qp hpt, pt.tokenFinish_zero qp hpt]
  split
  · exact ⟨⟨rfl, ⟨rfl, rfl, rfl, rfl, rfl, rfl, rfl⟩, htag, .refl qb⟩, rfl⟩
  split
  · exact ⟨⟨rfl, ⟨rfl, rfl, rfl, rfl, rfl, rfl, rfl⟩, htag, .refl qb⟩, rfl⟩
  split
  · exact ⟨⟨rfl, ⟨rfl, rfl, rfl, rfl, rfl, rfl, rfl⟩, htag, .refl qb⟩, rfl⟩
  split
  · exact ⟨⟨rfl, ⟨rfl, rfl, rfl, rfl, rfl, rfl, rfl⟩, htag, .refl qb⟩, rfl⟩
  split
  · rw [if_neg fun h ↦ by rw [hcursor] at h; exact Bool.false_ne_true h.1]
    exact ⟨⟨rfl, ⟨rfl, rfl, rfl, rfl, rfl, rfl, rfl⟩, htag, ⟨rfl, (List.append_nil _).symm⟩⟩, rfl⟩
  split
  · exact ⟨⟨rfl, ⟨rfl, rfl, rfl, rfl, rfl, rfl, rfl⟩, htag, .refl qb⟩, rfl⟩
  · have hsame : jetBoolean qp qb c = qb := by
      rw [jetBoolean, hjet, if_neg fun h ↦ Bool.false_ne_true h.2.1]
    refine ⟨⟨rfl, ⟨rfl, rfl, rfl, rfl, rfl, rfl, rfl⟩, htag, ?_⟩, rfl⟩
    rw [hsame]
    exact .refl qb

variable {qp0 : QueryParse} {qb0 : TokenBuild}

/-- The switch on the finished token, where no cursor is declared. -/
theorem checkToken_cases (hcursor : qp.usingCursor = false)
    (hstatement : qp.statement = qp0.statement) (htype : qp.statementType = qp0.statementType)
    (hpos : qp.opos = qp0.opos) (hfin : pt.finishedToken = qp0.openToken?)
    (hold : qp0.oldPtr = c :: rest) :
    checkToken pt qp qb c = (qp, qb, false) ∨
      qp0.AtDefaultValues ∧ ∃ endpos n text qb', n ≤ 2 ∧ 3 ≤ text.length ∧
        checkToken pt qp qb c = ({ qp with opos := qp.opos + endpos }, qb', true) ∧
        qb'.core = qb.core ∧
        qb'.queryStatement = qb.queryStatement.take (qb.npos - n) ++ text := by
  have hptr : qp.oldPtr = qp0.oldPtr := by rw [QueryParse.oldPtr, QueryParse.oldPtr, hstatement, hpos]
  have hdeclared : qp.usingCursor ≠ true := by
    rw [hcursor]
    exact Bool.false_ne_true
  rw [checkToken]
  split
  · exact Or.inl rfl
  · next token htoken =>
    rw [hfin] at htoken
    rw [if_neg fun h ↦ hdeclared h.2.1, if_neg fun h ↦ hdeclared h.1]
    split
    · next hparens =>
      cases hinsert : insertWithoutTarget qp.oldPtr with
      | none => exact Or.inl rfl
      | some endpos =>
        refine Or.inr ⟨⟨htype ▸ hparens.1, token, htoken, Or.inl ⟨hparens.2, ?_⟩⟩, endpos, 2,
          ascii "DEFAULT VALUES", _, Nat.le_refl 2, by decide, rfl, rfl, rfl⟩
        rw [← hptr, hinsert]
        rfl
    · split
      · next hparen =>
        cases hinsert : insertWithoutTarget (qp.statement.drop (qp.opos + 1)) with
        | none => exact Or.inl rfl
        | some endpos =>
          refine Or.inr ⟨⟨htype ▸ hparen.1, token, htoken, Or.inr ⟨hparen.2.1, ?_, ?_⟩⟩, endpos, 1,
            ascii " DEFAULT VALUES", _, Nat.le_succ 1, by decide, rfl, rfl, rfl⟩
          · rw [hold]
            exact hparen.2.2
          · rw [← hstatement, ← hpos, hinsert]
            rfl
      · exact Or.inl rfl

/-- It changes nothing, unless an INSERT has the short form. -/
theorem checkToken_none (hcursor : qp.usingCursor = false) (hstatement : qp.statement = qp0.statement)
    (htype : qp.statementType = qp0.statementType) (hpos : qp.opos = qp0.opos)
    (hfin : pt.finishedToken = qp0.openToken?) (hold : qp0.oldPtr = c :: rest)
    (hshort : ¬qp0.AtDefaultValues) : checkToken pt qp qb c = (qp, qb, false) :=
  (checkToken_cases hcursor hstatement htype hpos hfin hold).resolve_right fun h ↦ hshort h.1

/-- A byte that is no marker and belongs to no escape. -/
theorem processPlain_call (hpt : pt.curcharProcessed = false) (hold : qp0.oldPtr = c :: rest)
    (hopen : Opening qp0 qb qp qb) (hidle : qp.inStatus.idle = true)
    (hfin : (qp.openToken? <|> pt.finishedToken) = qp0.openToken?) :
    TokenCall hooks qp0 qb (processPlain pt qp qb c).1 (processPlain pt qp qb c).2 := by
  by_cases hrewritten : qp0.usingCursor = true ∨ qb.msJet = true
  · exact .rewritten hrewritten
  obtain ⟨hcursor, hjet⟩ := not_or.1 hrewritten
  rw [Bool.not_eq_true] at hcursor hjet
  obtain ⟨hpos, hsame, htag, -⟩ := hopen
  have hptr : qp.oldPtr = qp0.oldPtr := by
    rw [QueryParse.oldPtr, QueryParse.oldPtr, hsame.statement, hpos]
  rw [processPlain]
  simp only [hptr, hold, pt.tokenFinish_zero qp hpt]
  split
  · next hdollar =>
    refine .copied ?_
    have hle := findTag_le qp.ccsc c rest
    have hlen := congrArg List.length hold
    rw [QueryParse.oldPtr, List.length_drop] at hlen
    refine .tagged hdollar.2 ?_ ?_ ⟨hsame.statement, hsame.before, hsame.statementType,
      hsame.usingCursor, hsame.ccsc, hsame.fromPos, hsame.wherePos⟩ ?_ ?_
    · omega
    · rw [← hpos]
    · refine fun _ ↦ ⟨hdollar.2, ?_⟩
      change qp.opos + findTag (c :: rest) qp.ccsc ≤ qp.statement.length
      rw [hsame.statement, hpos]
      omega
    · rw [hold]
      exact .of_append _
  · have hopened : ∀ opened, opened = (if c = dollarQuote then
          (⟨qp.openToken? <|> pt.finishedToken, false⟩,
            { qp with prevTokenEnd := true, taglen := 0 }, qb)
        else openToken pt qp qb c) →
        Opening qp qb opened.2.1 opened.2.2 ∧
        opened.1.finishedToken = (qp.openToken? <|> pt.finishedToken) := by
      rintro opened rfl
      split
      · refine ⟨⟨rfl, ⟨rfl, rfl, rfl, rfl, rfl, rfl, rfl⟩, ?_, .refl qb⟩, rfl⟩
        intro hquote
        rw [InStatus.idle, decide_eq_true_eq] at hidle
        rw [show qp.inStatus = {} from hidle] at hquote
        exact absurd hquote Bool.false_ne_true
      · exact openToken_opening hpt htag (hsame.usingCursor.trans hcursor) hjet c
    generalize hgen : (if c = dollarQuote then _ else openToken pt qp qb c) = opened
    obtain ⟨hout, hfinished⟩ := hopened opened hgen.symm
    have hsame' := hsame.trans hout.same
    have hpos' := hout.opos.trans hpos
    rcases checkToken_cases (c := c) (hsame'.usingCursor.trans hcursor) hsame'.statement
      hsame'.statementType hpos' (hfinished.trans hfin) hold with hnone | hshort
    · rw [hnone, if_neg Bool.false_ne_true]
      exact .copied (.one hold hpos' hsame' hout.tag (hout.build.append [c]))
    · obtain ⟨hshort, endpos, n, text, qb1, hn, htext, heq, hcore, hbuild⟩ := hshort
      rw [heq, if_pos rfl]
      refine .defaultValues n text hshort hn htext ?_ hout.tag (hcore.trans hout.build.core) ?_
      · exact hsame'.trans ⟨rfl, rfl, rfl, rfl, rfl, rfl, rfl⟩
      · rw [hbuild, TokenBuild.npos, hout.build.text, List.append_nil]
        rfl

/-- The idle status, for the state that has left a word if there was one. -/
theorem processIdle_call (hpt : pt.curcharProcessed = false) (hold : qp0.oldPtr = c :: rest)
    (hopen : Opening qp0 qb qp qb) (hidle : qp.inStatus.idle = true)
    (hfin : (qp.openToken? <|> pt.finishedToken) = qp0.openToken?)
    (h : processIdle hooks pt qp qb c = some (qp', qb')) : TokenCall hooks qp0 qb qp' qb' := by
  have hptr : qp.oldPtr = qp0.oldPtr := by
    rw [QueryParse.oldPtr, QueryParse.oldPtr, hopen.same.statement, hopen.opos]
  have hchar : qp0.oldPtr.headD 0 = c := by
    rw [hold]
    rfl
  rw [processIdle] at h
  split at h
  · next hcr =>
    cases h
    refine .dropped hcr.1 ⟨hchar.trans hcr.2.1, ?_⟩ hopen.opos hopen.same hopen.tag
    rw [QueryParse.charAt, ← hopen.same.statement, ← hopen.opos]
    exact hcr.2.2
  split at h
  · next hbrace =>
    rw [pt.tokenFinish_zero qp hpt] at h
    refine .escape (hchar.trans hbrace) ?_ ?_ ?_ h
    · exact hopen.opos
    · exact ⟨hopen.same.1, hopen.same.2, hopen.same.3, hopen.same.4, hopen.same.5, hopen.same.6,
        hopen.same.7⟩
    · exact hidle
  split at h
  · next hbrace =>
    rw [pt.tokenFinish_zero qp hpt] at h
    obtain ⟨rfl, rfl⟩ := Prod.mk.inj (Option.some.inj h)
    exact .endBrace (hchar.trans hbrace) hopen.opos ⟨hopen.same.1, hopen.same.2, hopen.same.3,
      hopen.same.4, hopen.same.5, hopen.same.6, hopen.same.7⟩ hopen.tag
  split at h
  · next hidentity =>
    obtain ⟨rfl, rfl⟩ := Prod.mk.inj (Option.some.inj h)
    rw [hptr] at hidentity
    exact .identity _ hidentity (congrArg (· + 10) hopen.opos) ⟨hopen.same.1, hopen.same.2,
      hopen.same.3, hopen.same.4, hopen.same.5, hopen.same.6, hopen.same.7⟩ hopen.tag
  split at h
  · next hmarker =>
    obtain ⟨hqp', hqb'⟩ := Prod.mk.inj (Option.some.inj h)
    rw [← hqp', ← hqb']
    exact processPlain_call hpt hold hopen hidle hfin
  · next hmarker =>
    rw [pt.tokenRestart_eq qp hpt] at h
    refine .marker (hchar.trans (not_not.1 hmarker)) ?_ ?_ ?_ h
    · exact hopen.opos
    · exact ⟨hopen.same.1, hopen.same.2, hopen.same.3, hopen.same.4, hopen.same.5, hopen.same.6,
        hopen.same.7⟩
    · exact hidle

/-! ## One call -/

/-- What a call of `inner_process_tokens` does. -/
theorem innerProcessTokens_call (hold : qp.oldPtr = c :: rest) (htag : qp.TagOk)
    (h : innerProcessTokens hooks qp qb = some (qp', qb')) :
    0 ≤ wrapInt 32 qp.opos ∧ ∃ front, keysetText qp qb (wrapInt 32 qp.opos) = some front ∧
      TokenCall hooks qp front qp' qb' := by
  rw [innerProcessTokens] at h
  simp only [qp.charAt_of_oldPtr hold] at h
  split at h
  · cases h
  next hpos =>
  obtain ⟨front, hkey, h⟩ := Option.bind_eq_some_iff.1 h
  refine ⟨Int.not_lt.1 hpos, front, hkey, ?_⟩
  split at h
  · -- A byte of a multibyte character.
    obtain ⟨rfl, rfl⟩ := Prod.mk.inj (Option.some.inj h)
    refine .copied ?_
    split
    · rw [ptInitialize.tokenRestart_eq _ rfl]
      exact .one hold rfl ⟨rfl, rfl, rfl, rfl, rfl, rfl, rfl⟩
        (fun h ↦ absurd h Bool.false_ne_true) (.of_append [c])
    split
    · obtain ⟨t, hcont, -, -⟩ := ptInitialize.tokenContinue_eq
        { qp with ccst := pgCSStat qp.ccst c qp.ccsc } rfl c
      rw [hcont]
      exact .one hold rfl ⟨rfl, rfl, rfl, rfl, rfl, rfl, rfl⟩ htag (.of_append [c])
    · exact .one hold rfl ⟨rfl, rfl, rfl, rfl, rfl, rfl, rfl⟩ htag (.of_append [c])
  split at h
  · -- The word goes on.
    obtain ⟨t, hcont, -, -⟩ := ptInitialize.tokenContinue_eq
      { qp with ccst := pgCSStat qp.ccst c qp.ccsc } rfl c
    rw [hcont] at h
    obtain ⟨rfl, rfl⟩ := Prod.mk.inj (Option.some.inj h)
    exact .copied (.one hold rfl ⟨rfl, rfl, rfl, rfl, rfl, rfl, rfl⟩ htag (.of_append [c]))
  -- The state that has left a word, if there was one.
  obtain ⟨pt, qp1, hgen, hpt, hopen, hfin⟩ : ∃ pt qp1, (if qp.inStatus.identKeyword then
        ((ptInitialize.tokenFinish { qp with ccst := pgCSStat qp.ccst c qp.ccsc } 0).1,
          { (ptInitialize.tokenFinish { qp with ccst := pgCSStat qp.ccst c qp.ccsc } 0).2 with
            inStatus := { qp.inStatus with identKeyword := false } })
      else (ptInitialize, { qp with ccst := pgCSStat qp.ccst c qp.ccsc })) = (pt, qp1) ∧
      pt.curcharProcessed = false ∧ Opening qp front qp1 front ∧
      (qp1.openToken? <|> pt.finishedToken) = qp.openToken? := by
    have hnone : ∀ token : Option (List UInt8), (token <|> none) = token := by
      intro token
      cases token <;> rfl
    rw [ptInitialize.tokenFinish_zero _ rfl]
    split
    · exact ⟨_, _, rfl, rfl, ⟨rfl, ⟨rfl, rfl, rfl, rfl, rfl, rfl, rfl⟩, htag, .refl _⟩,
        hnone qp.openToken?⟩
    · exact ⟨_, _, rfl, rfl, ⟨rfl, ⟨rfl, rfl, rfl, rfl, rfl, rfl, rfl⟩, htag, .refl _⟩,
        hnone qp.openToken?⟩
  have hptr : qp1.oldPtr = qp.oldPtr := by
    rw [QueryParse.oldPtr, QueryParse.oldPtr, hopen.same.statement, hopen.opos]
  rw [hgen] at h
  split at h
  · next hidle => exact processIdle_call hpt hold hopen hidle hfin h
  · obtain ⟨hqp', hqb'⟩ := Prod.mk.inj (Option.some.inj h)
    rw [← hqp', ← hqb']
    have hquoted := @processQuoted_copied qp1 front pt c rest hpt (hptr.trans hold) hopen.tag
    refine .copied ⟨?_, ?_, hopen.same.trans hquoted.same, hquoted.tag, ?_⟩
    · exact hopen.opos ▸ hquoted.le
    · exact hopen.same.statement ▸ hquoted.lt
    · rw [← hopen.opos, ← hptr]
      exact hquoted.build

end

end PsqlOdbc
