import PsqlOdbc.Convert.Markers
import PsqlOdbc.Convert.TokenCases

/-!
# Statements that are copied

A statement without braces, `@@identity` and pairs of a carriage return and a linefeed is copied as
it is exactly as long as the driver reads no marker and no `() VALUES ()` in it, and its bytes are
where an `Int4` says.  The loop and the lexical rules are then in the same state before every byte.
-/

namespace PsqlOdbc

/-! ## The states of the rules -/

/-- The states before the bytes of a text. -/
def lexStates (ccsc : CharSet) (opener : Nat) (escape prev : UInt8) (s : LexState) :
    List UInt8 → List LexState
  | [] => []
  | c :: rest => s :: lexStates ccsc opener escape c (lexStep ccsc opener escape prev c rest s).1 rest

section

variable {ccsc : CharSet} {opener : Nat} {escape : UInt8}

/-- Bytes that belong to a symbol that has been read. -/
theorem lexStates_skip (prev : UInt8) (ccst : Nat) (mode : Mode) (w text : List UInt8) :
    ∃ skipped, skipped.length = w.length ∧ (∀ s ∈ skipped, s.skip ≠ 0) ∧
      lexStates ccsc opener escape prev ⟨ccst, mode, w.length⟩ (w ++ text) =
        skipped ++ lexStates ccsc opener escape (w.getLastD prev) ⟨ccst, mode, 0⟩ text := by
  induction w generalizing prev with
  | nil => exact ⟨[], rfl, fun _ h ↦ absurd h List.not_mem_nil, rfl⟩
  | cons c w ih =>
    obtain ⟨skipped, hlen, hskip, heq⟩ := ih c
    refine ⟨⟨ccst, mode, w.length + 1⟩ :: skipped, congrArg (· + 1) hlen, ?_, ?_⟩
    · intro s hs
      rcases List.mem_cons.1 hs with rfl | hs
      · exact Nat.succ_ne_zero _
      · exact hskip s hs
    · rw [List.cons_append, lexStates, lexStep, if_pos (by simp)]
      simp only [List.length_cons, Nat.add_sub_cancel, heq, List.cons_append, List.getLastD_cons]

theorem lexStates_length (prev : UInt8) (s : LexState) (text : List UInt8) :
    (lexStates ccsc opener escape prev s text).length = text.length := by
  induction text generalizing prev s with
  | nil => rfl
  | cons c rest ih => rw [lexStates, List.length_cons, ih, List.length_cons]

theorem findTagLoop_last {ccst pos : Nat} {tag : List UInt8}
    (h : 0 < findTagLoop ccsc ccst pos tag) :
    ∃ n, findTagLoop ccsc ccst pos tag = pos + n + 2 ∧ tag[n]? = some dollarQuote := by
  induction tag generalizing ccst pos with
  | nil => exact absurd h (Nat.lt_irrefl 0)
  | cons c tag ih =>
    rw [findTagLoop] at h ⊢
    split
    · next hmulti =>
      rw [if_pos hmulti] at h
      obtain ⟨n, heq, hlast⟩ := ih h
      exact ⟨n + 1, by rw [heq]; omega, hlast⟩
    · next hmulti =>
      rw [if_neg hmulti] at h
      split
      · next hdollar => exact ⟨0, rfl, congrArg some hdollar⟩
      · next hdollar =>
        rw [if_neg hdollar] at h
        split
        · next halnum =>
          rw [if_pos halnum] at h
          obtain ⟨n, heq, hlast⟩ := ih h
          exact ⟨n + 1, by rw [heq]; omega, hlast⟩
        · next halnum =>
          rw [if_neg halnum] at h
          exact absurd h (Nat.lt_irrefl 0)

/-- A tag ends with a dollar. -/
theorem findTag_last {c : UInt8} {rest : List UInt8} (h : 0 < findTag (c :: rest) ccsc) :
    ((c :: rest).take (findTag (c :: rest) ccsc)).getLast? = some dollarQuote := by
  obtain ⟨n, heq, hlast⟩ := findTagLoop_last h
  rw [Nat.zero_add] at heq
  have htag : findTag (c :: rest) ccsc = n + 2 := heq
  have hlt : n < rest.length := by
    by_contra hlt
    rw [List.tail_cons, List.getElem?_eq_none (Nat.not_lt.1 hlt)] at hlast
    cases hlast
  rw [htag, List.getLast?_eq_getElem?, List.length_take, List.length_cons,
    Nat.min_eq_left (by omega), List.getElem?_take_of_lt (by omega)]
  exact hlast

end

/-! ## One symbol -/

/-- What a plain execution has set. -/
structure Plain (qp : QueryParse) (qb : TokenBuild) : Prop where
  usingCursor : qp.usingCursor = false
  fromPos : qp.fromPos = -1
  wherePos : qp.wherePos = -1
  msJet : qb.msJet = false

section

variable {hooks : TokenHooks} {qp qp' qp1 : QueryParse} {qb qb' : TokenBuild} {s : LexState}
  {c : UInt8} {rest : List UInt8} {pt : ParseToken}

theorem Plain.keysetText (h : Plain qp qb) {opos : Int} (hpos : 0 ≤ opos) :
    keysetText qp qb opos = some qb := by
  have hfrom : ¬qp.fromPos = opos := by
    rw [h.fromPos]
    omega
  have hwhere : ¬(qp.wherePos = opos ∧ qb.keysetDriven = true) := by
    rintro ⟨heq, -⟩
    rw [h.wherePos] at heq
    omega
  rw [PsqlOdbc.keysetText, if_neg hfrom, if_neg hwhere]

/-- The loop is behind a symbol, in the state that the rules are in. -/
structure Behind (qp : QueryParse) (c : UInt8) (s : LexState) (qp' : QueryParse) : Prop where
  opos : qp'.opos = qp.opos + s.skip
  mode : qp'.InMode s.mode
  ccst : qp'.ccst = s.ccst
  paren : s.mode = .idle → c = leftParen → qp'.openToken? = some [leftParen]

/-- A byte that is no marker and belongs to no escape. -/
theorem processPlain_behind (hpt : pt.curcharProcessed = false) (hold : qp.oldPtr = c :: rest)
    (hin : qp1.InMode .idle) (hopen : Opening qp qb qp1 qb) (hccst : qp1.ccst = 0)
    (hplain : Plain qp qb) (hfin : (qp1.openToken? <|> pt.finishedToken) = qp.openToken?)
    (hescape : ¬(c = odbcEscapeStart ∨ strnicmpEq (c :: rest) (ascii "@@identity")))
    (hmarker : c ≠ paramMarker) (hshort : ¬qp.AtDefaultValues) :
    Behind qp c ⟨0, (lexIdle qp.ccsc 0 (ccGetEscape qb.conn) qp.prevChar c rest).1,
        (lexIdle qp.ccsc 0 (ccGetEscape qb.conn) qp.prevChar c rest).2.1⟩
      (processPlain pt qp1 qb c).1 := by
  have hptr : qp1.oldPtr = c :: rest := by
    rw [QueryParse.oldPtr, hopen.same.statement, hopen.opos]
    exact hold
  have hprev : qp1.prevChar = qp.prevChar := by
    rw [QueryParse.prevChar, QueryParse.prevChar, QueryParse.charAt, QueryParse.charAt,
      hopen.same.statement, hopen.same.before, hopen.opos]
  have hlex : lexIdle qp.ccsc 0 (ccGetEscape qb.conn) qp.prevChar c rest =
      lexIdle qp1.ccsc 0 (ccGetEscape qb.conn) qp1.prevChar c rest := by
    rw [hopen.same.ccsc, hprev]
  have hmode := hin
  obtain ⟨hstatus, hlevel⟩ := hin
  rw [hlex, processPlain]
  simp only [hptr, pt.tokenFinish_zero qp1 hpt]
  split
  · next hdollar =>
    obtain ⟨rfl, hpos⟩ := hdollar
    rw [lexIdle, if_neg hescape, if_neg hmarker, if_pos rfl, if_pos hpos]
    refine ⟨?_, ⟨by rw [hstatus], hlevel, ?_, ?_, hpos⟩, hccst, fun h ↦ by cases h⟩
    · exact congrArg (· + _) hopen.opos
    · rw [← hptr]
      rfl
    · exact List.length_take_of_le (findTag_le _ _ _)
  · next hdollar =>
    have hopened : ∀ opened, opened = (if c = dollarQuote then
          (⟨qp1.openToken? <|> pt.finishedToken, false⟩,
            { qp1 with prevTokenEnd := true, taglen := 0 }, qb)
        else openToken pt qp1 qb c) →
        Outcome qp1 qb (lexIdle qp1.ccsc 0 (ccGetEscape qb.conn) qp1.prevChar c rest)
          opened.2.1 opened.2.2 ∧ SameParse qp1 opened.2.1 ∧
        opened.1.finishedToken = (qp1.openToken? <|> pt.finishedToken) ∧
        opened.2.1.opos = qp1.opos ∧
        (c = leftParen → opened.2.1.openToken? = some [leftParen]) := by
      rintro opened rfl
      by_cases hd : c = dollarQuote
      · rw [if_pos hd]
        refine ⟨?_, ⟨rfl, rfl, rfl, rfl, rfl, rfl, rfl⟩, rfl, rfl, fun h ↦ ?_⟩
        · rw [lexIdle, if_neg hescape, if_neg hmarker, if_pos hd]
          simp only [if_neg fun h ↦ hdollar ⟨hd, h⟩]
          exact .quiet ⟨rfl, rfl, rfl, rfl, rfl⟩ rfl hmode (.of_end rfl rfl) rfl rfl
        · rw [h] at hd
          exact absurd hd (by decide)
      · rw [if_neg hd]
        obtain ⟨hout, hfinished⟩ := @openToken_outcome qp1 qb c rest pt hpt hptr hmode hescape hmarker
          hd
        obtain ⟨hopening, -⟩ := openToken_opening hpt hopen.tag
          (hopen.same.usingCursor.trans hplain.usingCursor) hplain.msJet c
        refine ⟨hout, hopening.same, hfinished, hopening.opos, ?_⟩
        rintro rfl
        rw [openToken, if_neg (by decide), if_neg (by decide), if_neg fun h ↦ absurd h.1 (by decide),
          if_neg fun h ↦ absurd h.1 (by decide), if_neg (by decide), if_neg (by decide)]
        simp only [pt.tokenRestart_eq qp1 hpt]
        rfl
    generalize hgen : (if c = dollarQuote then _ else openToken pt qp1 qb c) = opened
    obtain ⟨hout, hsame, hfinished, hpos, hparen⟩ := hopened opened hgen.symm
    rw [checkToken_none ((hsame.usingCursor.trans hopen.same.usingCursor).trans hplain.usingCursor)
      (hsame.statement.trans hopen.same.statement)
      (hsame.statementType.trans hopen.same.statementType) (hpos.trans hopen.opos)
      (hfinished.trans hfin) hold hshort]
    refine ⟨?_, hout.mode, hout.same.ccst.trans hccst, fun _ ↦ hparen⟩
    rw [hout.opos, hopen.opos]

/-- Only a question mark is a marker. -/
theorem lexIdle_marker {ccsc : CharSet} {opener : Nat} {escape prev : UInt8}
    (hescape : ¬(c = odbcEscapeStart ∨ strnicmpEq (c :: rest) (ascii "@@identity"))) :
    (lexIdle ccsc opener escape prev c rest).2.2 = .marker ↔ c = paramMarker := by
  constructor
  · intro h
    by_contra hmarker
    rw [lexIdle, if_neg hescape, if_neg hmarker] at h
    simp only at h
    repeat' split at h
    all_goals cases h
  · intro h
    rw [lexIdle, if_neg hescape, if_pos h]

/-- The idle status. -/
theorem processIdle_behind (hpt : pt.curcharProcessed = false) (hold : qp.oldPtr = c :: rest)
    (hin : qp1.InMode .idle) (hopen : Opening qp qb qp1 qb) (hccst : qp1.ccst = 0)
    (hplain : Plain qp qb) (hfin : (qp1.openToken? <|> pt.finishedToken) = qp.openToken?)
    (hescape : ¬(c = odbcEscapeStart ∨ strnicmpEq (c :: rest) (ascii "@@identity")))
    (hend : c ≠ odbcEscapeEnd) (hcr : ¬(c = pgCarriageReturn ∧ rest.headD 0 = pgLinefeed))
    (hshort : ¬qp.AtDefaultValues) :
    ((lexIdle qp.ccsc 0 (ccGetEscape qb.conn) qp.prevChar c rest).2.2 = .marker ∧
        ∃ qp2, processIdle hooks pt qp1 qb c = TokenBuild.resolveOneParam hooks qp2 qb) ∨
      ((lexIdle qp.ccsc 0 (ccGetEscape qb.conn) qp.prevChar c rest).2.2 ≠ .marker ∧
        ∃ qp' qb', processIdle hooks pt qp1 qb c = some (qp', qb') ∧
          Behind qp c ⟨0, (lexIdle qp.ccsc 0 (ccGetEscape qb.conn) qp.prevChar c rest).1,
            (lexIdle qp.ccsc 0 (ccGetEscape qb.conn) qp.prevChar c rest).2.1⟩ qp') := by
  have hptr : qp1.oldPtr = c :: rest := by
    rw [QueryParse.oldPtr, hopen.same.statement, hopen.opos]
    exact hold
  obtain ⟨hbrace, hidentity⟩ := not_or.1 hescape
  have hcr' : ¬(qb.convertLf = true ∧ c = pgCarriageReturn ∧
      qp1.charAt (qp1.opos + 1) = pgLinefeed) := by
    rintro ⟨-, hc, hlf⟩
    rw [qp1.charAt_succ_of_oldPtr hptr] at hlf
    exact hcr ⟨hc, hlf⟩
  rw [ne_eq, lexIdle_marker hescape, processIdle, if_neg hcr', if_neg hbrace, if_neg hend,
    if_neg (by rw [hptr]; exact hidentity)]
  by_cases hmarker : c = paramMarker
  · rw [if_neg (not_not.2 hmarker)]
    exact Or.inl ⟨hmarker, _, rfl⟩
  · rw [if_pos hmarker]
    refine Or.inr ⟨hmarker, _, _, rfl, ?_⟩
    exact processPlain_behind hpt hold hin hopen hccst hplain hfin hescape hmarker hshort

/-- In quotes and comments there is no marker, and no parenthesis ends them. -/
theorem lexMode_quoted (ccsc : CharSet) (escape prev c : UInt8) (rest : List UInt8) {mode : Mode}
    (hidle : mode ≠ .idle) (hword : mode ≠ .word) :
    (lexMode ccsc 0 escape prev c rest mode).2.2 ≠ .marker ∧
      (c = leftParen → (lexMode ccsc 0 escape prev c rest mode).1 ≠ .idle) := by
  have hquiet := (insideEvent_quiet c).1
  cases mode with
  | idle => exact absurd rfl hidle
  | word => exact absurd rfl hword
  | escaped esc => exact ⟨hquiet, fun _ ↦ Mode.noConfusion⟩
  | literal esc =>
    simp only [lexMode]
    constructor
    · repeat' split
      all_goals first | exact hquiet | exact Event.noConfusion
    · rintro rfl
      rw [if_neg (by decide)]
      split <;> exact Mode.noConfusion
  | dquote =>
    simp only [lexMode]
    constructor
    · split
      · exact Event.noConfusion
      · exact hquiet
    · rintro rfl
      exact Mode.noConfusion
  | dollar tag =>
    simp only [lexMode]
    constructor
    · split
      · exact Event.noConfusion
      · exact hquiet
    · rintro rfl
      rw [if_neg fun h ↦ absurd h.1 (by decide)]
      exact Mode.noConfusion
  | comment level =>
    simp only [lexMode]
    constructor
    · repeat' split
      all_goals first | exact hquiet | exact Event.noConfusion
    · rintro rfl
      rw [if_neg fun h ↦ absurd h.1 (by decide), if_neg fun h ↦ absurd h.1 (by decide)]
      exact Mode.noConfusion
  | line =>
    simp only [lexMode]
    constructor
    · split
      · exact Event.noConfusion
      · exact hquiet
    · rintro rfl
      exact Mode.noConfusion

theorem lexStep_ascii_eq {ccsc : CharSet} {escape prev : UInt8} {ccst : Nat} {mode : Mode}
    (hascii : mbcsNonAscii (pgCSStat ccst c ccsc) c = false) {out : Mode × Nat × Event}
    (hout : lexMode ccsc 0 escape prev c rest mode = out) :
    lexStep ccsc 0 escape prev c rest ⟨ccst, mode, 0⟩ = (⟨0, out.1, out.2.1⟩, out.2.2) := by
  rw [lexStep_ascii hascii, hout]

/-- The loop follows the rules, unless it gets to a marker. -/
theorem innerProcessTokens_behind (hs : qp.Lexes s) (hold : qp.oldPtr = c :: rest) (htag : qp.TagOk)
    (hplain : Plain qp qb) (hpos : 0 ≤ wrapInt 32 qp.opos)
    (hescape : ¬(c = odbcEscapeStart ∨ strnicmpEq (c :: rest) (ascii "@@identity")))
    (hend : c ≠ odbcEscapeEnd) (hcr : ¬(c = pgCarriageReturn ∧ rest.headD 0 = pgLinefeed))
    (hshort : ¬qp.AtDefaultValues) :
    ((lexStep qp.ccsc 0 (ccGetEscape qb.conn) qp.prevChar c rest s).2 = .marker ∧
        ∃ qp2, innerProcessTokens hooks qp qb = TokenBuild.resolveOneParam hooks qp2 qb) ∨
      ((lexStep qp.ccsc 0 (ccGetEscape qb.conn) qp.prevChar c rest s).2 ≠ .marker ∧
        ∃ qp' qb', innerProcessTokens hooks qp qb = some (qp', qb') ∧
          Behind qp c (lexStep qp.ccsc 0 (ccGetEscape qb.conn) qp.prevChar c rest s).1 qp') := by
  obtain ⟨ccst, mode, skip⟩ := s
  obtain rfl : skip = 0 := hs.skip
  obtain rfl : qp.ccst = ccst := hs.ccst
  have hmode : qp.InMode mode := hs.mode
  have hopen : Opening qp qb { qp with ccst := pgCSStat qp.ccst c qp.ccsc } qb :=
    ⟨rfl, ⟨rfl, rfl, rfl, rfl, rfl, rfl, rfl⟩, htag, .refl qb⟩
  rw [innerProcessTokens]
  simp only [qp.charAt_of_oldPtr hold]
  rw [if_neg (Int.not_lt.2 hpos), hplain.keysetText hpos, Option.bind_some]
  cases hascii : mbcsNonAscii (pgCSStat qp.ccst c qp.ccsc) c with
  | true =>
    rw [lexStep_nonAscii hascii, if_pos rfl]
    refine Or.inr ⟨Event.noConfusion, _, _, rfl, ?_⟩
    have hidle : mode = .idle ↔ qp.inStatus.idle = true := hmode.idle_iff.symm
    by_cases hm : mode = .idle
    · subst hm
      rw [if_pos (hidle.1 rfl), if_pos rfl, ptInitialize.tokenRestart_eq _ rfl]
      exact ⟨rfl, ⟨rfl, hmode.2⟩, rfl, fun h ↦ by cases h⟩
    · rw [if_neg fun h ↦ hm (hidle.2 h), if_neg hm]
      split
      · obtain ⟨t, hcont, -, -⟩ := ptInitialize.tokenContinue_eq
          { qp with ccst := pgCSStat qp.ccst c qp.ccsc } rfl c
        rw [hcont]
        exact ⟨rfl, hmode.withToken _ _ _, rfl, fun h ↦ absurd h hm⟩
      · exact ⟨rfl, hmode.withToken _ qp.prevTokenEnd qp.tokenCurr, rfl, fun h ↦ absurd h hm⟩
  | false =>
    have h0 := (mbcsNonAscii_eq_false.1 hascii).1
    rw [if_neg Bool.false_ne_true]
    by_cases hw : mode = .word
    · subst hw
      have hkeyword := hmode.word_iff.2 rfl
      by_cases hc : isWordChar c = true
      · have hchar : isAlnum c ∨ c = dollarQuote ∨ c = underscore := by
          rw [isWordChar, Bool.or_eq_true, Bool.or_eq_true, decide_eq_true_eq,
            decide_eq_true_eq, or_assoc] at hc
          exact hc
        have hlex : lexMode qp.ccsc 0 (ccGetEscape qb.conn) qp.prevChar c rest .word =
            (.word, 0, .other) := by rw [lexMode, if_pos hc]
        rw [lexStep_ascii_eq hascii hlex, if_pos ⟨hkeyword, hchar⟩]
        obtain ⟨t, hcont, -, -⟩ := ptInitialize.tokenContinue_eq
          { qp with ccst := pgCSStat qp.ccst c qp.ccsc } rfl c
        refine Or.inr ⟨Event.noConfusion, _, _, rfl, ?_⟩
        rw [hcont]
        exact ⟨rfl, hmode, h0, fun h ↦ by cases h⟩
      · have hchar : ¬(qp.inStatus.identKeyword = true ∧
            (isAlnum c ∨ c = dollarQuote ∨ c = underscore)) := by
          rintro ⟨-, h⟩
          rw [isWordChar, Bool.or_eq_true, Bool.or_eq_true, decide_eq_true_eq,
            decide_eq_true_eq, or_assoc] at hc
          exact hc h
        have hnone : ∀ token : Option (List UInt8), (token <|> none) = token := by
          intro token
          cases token <;> rfl
        have hlex : lexMode qp.ccsc 0 (ccGetEscape qb.conn) qp.prevChar c rest .word =
            lexIdle qp.ccsc 0 (ccGetEscape qb.conn) qp.prevChar c rest := by rw [lexMode, if_neg hc]
        rw [lexStep_ascii_eq hascii hlex, if_neg hchar, if_pos hkeyword,
          ptInitialize.tokenFinish_zero _ rfl]
        rw [if_pos (by rw [hmode.1]; rfl)]
        refine processIdle_behind rfl hold ⟨by rw [hmode.1], hmode.2⟩
          ⟨rfl, ⟨rfl, rfl, rfl, rfl, rfl, rfl, rfl⟩, htag, .refl qb⟩ h0 hplain
          (hnone qp.openToken?) hescape hend hcr hshort
    · have hkeyword : qp.inStatus.identKeyword = false := by
        rw [← Bool.not_eq_true, hmode.word_iff]
        exact hw
      have hmode' := hmode.withToken (pgCSStat qp.ccst c qp.ccsc) qp.prevTokenEnd qp.tokenCurr
      simp only [hkeyword, Bool.false_eq_true, false_and, if_false]
      by_cases hm : mode = .idle
      · subst hm
        have hnone : ∀ token : Option (List UInt8), (token <|> none) = token := by
          intro token
          cases token <;> rfl
        rw [lexStep_ascii_eq hascii rfl, if_pos (hmode.idle_iff.2 rfl)]
        exact processIdle_behind rfl hold hmode' hopen h0 hplain (hnone qp.openToken?) hescape hend
          hcr hshort
      · rw [lexStep_ascii_eq hascii rfl, if_neg fun h ↦ hm (hmode.idle_iff.1 h)]
        have htoken : QueryParse.TokenOk { qp with ccst := pgCSStat qp.ccst c qp.ccsc } mode :=
          ⟨hs.token.nonempty, hs.token.paren, hs.token.quoted⟩
        have hquoted := @processQuoted_outcome { qp with ccst := pgCSStat qp.ccst c qp.ccsc } qb
          _ _ mode ptInitialize rfl 0 (ccGetEscape qb.conn) qp.prevChar hold hmode' htoken hm hw
        have hout := lexMode_quoted qp.ccsc (ccGetEscape qb.conn) qp.prevChar c rest hm hw
        refine Or.inr ⟨hout.1, _, _, rfl, hquoted.opos, hquoted.mode, hquoted.same.ccst.trans h0, ?_⟩
        exact fun hidle hparen ↦ absurd hidle (hout.2 hparen)

end

/-! ## The end of a symbol -/

/-- The tag of a dollar quote ends with a dollar. -/
def LexState.TagEnds (s : LexState) : Prop :=
  ∀ tag, s.mode = .dollar tag → tag.getLast? = some dollarQuote

section

variable {ccsc : CharSet} {escape prev c : UInt8} {rest : List UInt8} {s : LexState}

theorem lexIdle_mode {opener : Nat} {tag : List UInt8}
    (h : (lexIdle ccsc opener escape prev c rest).1 = .dollar tag) :
    tag.getLast? = some dollarQuote := by
  rw [lexIdle] at h
  simp only at h
  repeat' split at h
  all_goals first | cases h; exact findTag_last ‹_› | cases h

theorem lexMode_tagEnds {mode : Mode} {tag : List UInt8}
    (hmode : ∀ tag, mode = .dollar tag → tag.getLast? = some dollarQuote)
    (h : (lexMode ccsc 0 escape prev c rest mode).1 = .dollar tag) :
    tag.getLast? = some dollarQuote := by
  cases mode with
  | idle => exact lexIdle_mode h
  | word =>
    rw [lexMode] at h
    split at h
    · cases h
    · exact lexIdle_mode h
  | dollar tag' =>
    rw [lexMode] at h
    split at h
    · cases h
    · cases h
      exact hmode _ rfl
  | escaped esc => cases h
  | literal esc | dquote | line | comment level =>
    simp only [lexMode] at h
    repeat' split at h
    all_goals cases h

theorem LexState.TagEnds.step (h : s.TagEnds) :
    (lexStep ccsc 0 escape prev c rest s).1.TagEnds := by
  intro tag htag
  rw [lexStep] at htag
  split at htag
  · exact h tag htag
  · dsimp only at htag
    split at htag
    · by_cases hm : s.mode = .idle
      · rw [if_pos hm] at htag
        cases htag
      · rw [if_neg hm] at htag
        exact h tag htag
    · exact lexMode_tagEnds h htag

/-- A symbol that leaves the rules idle ends with a parenthesis only if it is one. -/
theorem lexMode_paren {mode : Mode}
    (hmode : ∀ tag, mode = .dollar tag → tag.getLast? = some dollarQuote)
    (hidle : (lexMode ccsc 0 escape prev c rest mode).1 = .idle)
    (hlast : (c :: rest)[(lexMode ccsc 0 escape prev c rest mode).2.1]? = some leftParen) :
    (lexMode ccsc 0 escape prev c rest mode).2.1 = 0 := by
  have hlex : ∀ out, lexIdle ccsc 0 escape prev c rest = out → out.1 = .idle → out.2.1 = 0 := by
    intro out hout hidle
    rw [lexIdle] at hout
    simp only at hout
    repeat' split at hout
    all_goals
      subst hout
      first | rfl | cases hidle
  cases mode with
  | idle => exact hlex _ rfl hidle
  | word =>
    rw [lexMode] at hidle ⊢
    split at hidle
    · cases hidle
    · next hc =>
      rw [if_neg hc]
      exact hlex _ rfl hidle
  | escaped esc => cases hidle
  | dollar tag =>
    have htag := hmode tag rfl
    rw [lexMode] at hidle hlast ⊢
    split at hidle
    · next hclose =>
      rw [if_pos hclose] at hlast
      have hpos : 0 < tag.length := by
        refine List.length_pos_iff.2 ?_
        rintro rfl
        cases htag
      have hbyte : (c :: rest)[tag.length - 1]? = some dollarQuote := by
        rw [← List.getElem?_take_of_lt (Nat.sub_lt hpos Nat.one_pos), hclose.2,
          ← List.getLast?_eq_getElem?]
        exact htag
      exact absurd (Option.some.inj (hlast.symm.trans hbyte)) (by decide)
    · cases hidle
  | comment level =>
    simp only [lexMode] at hidle hlast ⊢
    split at hidle
    · cases hidle
    · split at hidle
      · next hopen hclose =>
        rw [if_neg hopen, if_pos hclose] at hlast
        have hbyte := hclose.2
        rw [List.getElem?_cons_succ, ← List.head?_eq_getElem?] at hlast
        rw [List.headD_eq_head?_getD, hlast] at hbyte
        exact absurd hbyte (by decide)
      · cases hidle
  | literal esc | dquote | line =>
    simp only [lexMode] at hidle ⊢
    repeat' split
    all_goals rfl

theorem lexStep_paren (hskip : s.skip = 0) (h : s.TagEnds)
    (hidle : (lexStep ccsc 0 escape prev c rest s).1.mode = .idle)
    (hlast : (c :: rest)[(lexStep ccsc 0 escape prev c rest s).1.skip]? = some leftParen) :
    (lexStep ccsc 0 escape prev c rest s).1.skip = 0 := by
  obtain ⟨ccst, mode, skip⟩ := s
  obtain rfl : skip = 0 := hskip
  cases hascii : mbcsNonAscii (pgCSStat ccst c ccsc) c with
  | true => rw [lexStep_nonAscii hascii]
  | false =>
    rw [lexStep_ascii hascii] at hidle hlast ⊢
    exact lexMode_paren h hidle hlast

theorem lexIdle_escape {opener : Nat}
    (hescape : ¬(c = odbcEscapeStart ∨ strnicmpEq (c :: rest) (ascii "@@identity"))) :
    (lexIdle ccsc opener escape prev c rest).2.2 ≠ .escape := by
  intro h
  rw [lexIdle, if_neg hescape] at h
  simp only at h
  repeat' split at h
  all_goals cases h

/-- Only a brace and `@@identity` begin something that is replaced. -/
theorem lexStep_escape
    (hescape : ¬(c = odbcEscapeStart ∨ strnicmpEq (c :: rest) (ascii "@@identity"))) :
    (lexStep ccsc 0 escape prev c rest s).2 ≠ .escape := by
  have hinside : insideEvent c ≠ .escape := by
    rw [insideEvent]
    split <;> exact Event.noConfusion
  rw [lexStep]
  split
  · exact Event.noConfusion
  dsimp only
  split
  · exact Event.noConfusion
  cases s.mode with
  | idle => exact lexIdle_escape hescape
  | word =>
    rw [lexMode]
    split
    · exact Event.noConfusion
    · exact lexIdle_escape hescape
  | escaped esc => exact hinside
  | literal esc | dquote | line | dollar tag | comment level =>
    simp only [lexMode]
    repeat' split
    all_goals first | exact hinside | exact Event.noConfusion

/-- A state stands for one mode. -/
theorem QueryParse.InMode.unique {qp : QueryParse} {mode mode' : Mode} (h : qp.InMode mode)
    (h' : qp.InMode mode') : mode = mode' := by
  cases mode <;> cases mode' <;> grind [QueryParse.InMode]

end

/-! ## The copying loop -/

/-- Nothing in the text is replaced wherever it is. -/
structure PlainText (statement : List UInt8) : Prop where
  openBrace : odbcEscapeStart ∉ statement
  closeBrace : odbcEscapeEnd ∉ statement
  identity : ∀ i, strnicmpEq (statement.drop i) (ascii "@@identity") = false
  lines : ∀ i, (statement.drop i).take 2 ≠ [pgCarriageReturn, pgLinefeed]

/-- The states that the driver's rules have before the bytes of a statement. -/
def driverStates (conn : ConnectionClass) (before : UInt8) (statement : List UInt8) :
    List LexState :=
  lexStates conn.ccsc 0 (ccGetEscape conn) before ⟨0, .idle, 0⟩ statement

/-- The loop has copied the statement up to the cursor. -/
structure Copying (conn : ConnectionClass) (statement : List UInt8) (before : UInt8)
    (statementType : StatementType) (qb0 : TokenBuild) (qp : QueryParse) (qb : TokenBuild)
    (s : LexState) : Prop where
  follows : Follows (qpInitialize conn statement before statementType) qb0 ⟨0, .idle, 0⟩ qp qb s
  same : SameParse (qpInitialize conn statement before statementType) qp
  core : qb.core = qb0.core
  tag : qp.TagOk
  text : qb.queryStatement = qb0.queryStatement ++ statement.take qp.opos
  states : (driverStates conn before statement).drop qp.opos =
    lexStates qp.ccsc 0 (ccGetEscape conn) qp.prevChar s qp.oldPtr
  tagEnds : s.TagEnds
  first : qp.opos = 0 → qp.openToken? = none
  paren : s.mode = .idle → qp.opos ≠ 0 → qp.prevChar = leftParen →
    qp.openToken? = some [leftParen]

section

variable {hooks : TokenHooks} {conn : ConnectionClass} {statement : List UInt8} {before : UInt8}
  {statementType : StatementType} {qp qp' : QueryParse} {qb0 qb qb' : TokenBuild} {s : LexState}
  {c : UInt8} {rest : List UInt8}

/-- The first byte is nothing that is replaced. -/
theorem PlainText.head (h : PlainText statement) (hstatement : qp.statement = statement)
    (hold : qp.oldPtr = c :: rest) :
    ¬(c = odbcEscapeStart ∨ strnicmpEq (c :: rest) (ascii "@@identity")) ∧ c ≠ odbcEscapeEnd ∧
      ¬(c = pgCarriageReturn ∧ rest.headD 0 = pgLinefeed) := by
  have hdrop : statement.drop qp.opos = c :: rest := by
    rw [← hstatement]
    exact hold
  have hmem : c ∈ statement := List.mem_of_mem_drop (hdrop ▸ List.mem_cons_self)
  refine ⟨?_, ?_, ?_⟩
  · rintro (rfl | hidentity)
    · exact h.openBrace hmem
    · rw [← hdrop, h.identity] at hidentity
      cases hidentity
  · rintro rfl
    exact h.closeBrace hmem
  · rintro ⟨rfl, hlf⟩
    refine h.lines qp.opos ?_
    have hrest := eq_cons_of_headD hlf (by decide)
    rw [hdrop, hrest]
    rfl

theorem Copying.plain (h : Copying conn statement before statementType qb0 qp qb s)
    (hjet : qb0.msJet = false) : Plain qp qb where
  usingCursor := h.same.usingCursor
  fromPos := h.same.fromPos
  wherePos := h.same.wherePos
  msJet := (congrArg TokenBuild.msJet h.core).trans hjet

/-- The start of the loop. -/
theorem Copying.start :
    Copying conn statement before statementType qb0
      (qpInitialize conn statement before statementType) qb0 ⟨0, .idle, 0⟩ where
  follows := .refl qpInitialize_lexes (Nat.zero_le _)
  same := .refl _
  core := rfl
  tag h := absurd h Bool.false_ne_true
  text := (List.append_nil _).symm
  states := rfl
  tagEnds tag h := by cases h
  first _ := rfl
  paren _ h := absurd rfl h

/-- A call that begins with another symbol resolves no marker. -/
theorem Call.resolved {s' : LexState} (h : Call qp qb s qp' qb' s') (hold : qp.oldPtr = c :: rest)
    (hmarker : (lexStep qp.ccsc 0 (ccGetEscape qb.conn) qp.prevChar c rest s).2 ≠ .marker) :
    qb'.resolved = qb.resolved := by
  obtain ⟨events, -, heq, hres, -⟩ := h.events
  obtain ⟨event, n, -, hrun⟩ := h.symbol
  obtain rfl := List.append_cancel_right (heq.symm.trans hrun)
  rw [hold, lexEvents_cons, List.singleton_append, List.cons_append, List.cons.injEq] at hrun
  rw [hres, List.singleton_append, eventsAt_symbol (by decide), if_neg (hrun.1 ▸ hmarker),
    List.append_nil]

/-- A marker that is resolved is known to be. -/
theorem resolveOneParam_resolved
    (h : TokenBuild.resolveOneParam hooks qp qb = some (qp', qb')) :
    qb'.resolved = qb.resolved ++ [qp.opos] := by
  have hdiscard : ∀ qb : TokenBuild, (discardParam qp qb).2.resolved = qb.resolved := by
    intro qb
    rw [discardParam]
    split
    · split
      · rfl
      · split <;> rfl
    · rfl
  rw [TokenBuild.resolveOneParam] at h
  split at h
  · cases h
  split at h
  · cases h
  split at h
  · split at h
    · cases h
    · obtain ⟨rfl, rfl⟩ := Prod.mk.inj (Option.some.inj h)
      rfl
  split at h
  · cases h
  split at h
  · exact (congrArg (·.2.resolved) (Option.some.inj h)).symm.trans (hdiscard _)
  · obtain ⟨qb1, hprint, heq⟩ := Option.map_eq_some_iff.1 h
    obtain ⟨rfl, rfl⟩ := Prod.mk.inj heq
    exact (printParam_eq hprint).2.1

/-- A call copies a symbol, and leaves the loop where the rules are. -/
theorem Copying.step (h : Copying conn statement before statementType qb0 qp qb s)
    (hplain : PlainText statement) (hconn : qb0.conn = conn) (hjet : qb0.msJet = false)
    (hold : qp.oldPtr = c :: rest) (hshort : ¬qp.AtDefaultValues)
    (hmarker : (lexStep qp.ccsc 0 (ccGetEscape conn) qp.prevChar c rest s).2 ≠ .marker)
    (hcall : innerProcessTokens hooks qp qb = some (qp', qb')) :
    (∃ s', Copying conn statement before statementType qb0 qp'.advance qb' s') ∧
      qp.opos < qp'.advance.opos ∧
      ∀ i s1, qp.opos < i → i < qp'.advance.opos →
        (driverStates conn before statement)[i]? = some s1 → s1.skip ≠ 0 := by
  have hstatement : qp.statement = statement := h.same.statement
  have hqbconn : qb.conn = conn := h.follows.conn.trans hconn
  obtain ⟨hescape, hend, hcr⟩ := hplain.head hstatement hold
  obtain ⟨hpos, front, hkey, htoken⟩ := innerProcessTokens_call hold h.tag hcall
  have hflags := h.plain hjet
  rw [hflags.keysetText hpos] at hkey
  cases hkey
  -- Of the things a call can do, copying is left.
  have hcopied : Copied qp qb qp' qb' := by
    cases htoken with
    | copied h => exact h
    | dropped _ hchar =>
      rw [qp.charAt_succ_of_oldPtr hold, hold] at hchar
      exact absurd hchar hcr
    | escape hchar =>
      rw [hold] at hchar
      exact absurd (Or.inl hchar) hescape
    | endBrace hchar =>
      rw [hold] at hchar
      exact absurd hchar hend
    | identity _ hword =>
      rw [hold] at hword
      exact absurd (Or.inr hword) hescape
    | marker _ hopos _ _ hresolve =>
      have hescape' := @lexStep_escape qp.ccsc (ccGetEscape qb.conn) qp.prevChar c rest s hescape
      obtain ⟨s', hfollows⟩ := innerProcessTokens_follows h.follows.lexes hold hescape' hcall
      have hsame := hfollows.resolved hold (by rw [hqbconn]; exact hmarker)
      rw [resolveOneParam_resolved hresolve] at hsame
      exact absurd hsame (by simp)
    | rewritten hrewritten =>
      rw [hflags.usingCursor, hflags.msJet] at hrewritten
      exact absurd hrewritten (by simp)
    | defaultValues _ _ hdefault => exact absurd hdefault hshort
  -- The rules are in a state that is the only one for the state of the loop.
  obtain ⟨s', hfollows⟩ := innerProcessTokens_follows h.follows.lexes hold
    (lexStep_escape hescape) hcall
  have hbehind : Behind qp c (lexStep qp.ccsc 0 (ccGetEscape conn) qp.prevChar c rest s).1 qp' := by
    rcases @innerProcessTokens_behind hooks qp qb s c rest h.follows.lexes hold h.tag hflags hpos hescape
      hend hcr hshort with ⟨hevent, -⟩ | ⟨-, qp1, qb1, heq, hbehind⟩
    · rw [hqbconn] at hevent
      exact absurd hevent hmarker
    · obtain ⟨rfl, rfl⟩ := Prod.mk.inj (Option.some.inj (heq.symm.trans hcall))
      rw [hqbconn] at hbehind
      exact hbehind
  set s1 := (lexStep qp.ccsc 0 (ccGetEscape conn) qp.prevChar c rest s).1 with hs1
  have hs' : s' = ⟨s1.ccst, s1.mode, 0⟩ := by
    obtain ⟨ccst, mode, skip⟩ := s'
    have hlexes := hfollows.lexes
    have hmode : mode = s1.mode := QueryParse.InMode.unique hlexes.mode hbehind.mode
    have hccst : ccst = s1.ccst := hlexes.ccst.symm.trans hbehind.ccst
    rw [hmode, hccst]
    exact congrArg (LexState.mk _ _) hlexes.skip
  -- The bytes of the symbol behind its first one.
  have hlen := congrArg List.length hold
  rw [QueryParse.oldPtr, List.length_drop, List.length_cons] at hlen
  have hskip : s1.skip ≤ rest.length := by
    have hlt := hcopied.lt
    rw [hbehind.opos] at hlt
    omega
  obtain ⟨w, text, rfl, hw⟩ : ∃ w text, rest = w ++ text ∧ w.length = s1.skip :=
    ⟨_, _, (List.take_append_drop s1.skip rest).symm, List.length_take_of_le hskip⟩
  have hopos : qp'.advance.opos = qp.opos + (w.length + 1) := by
    rw [hw]
    exact congrArg (· + 1) hbehind.opos
  have hsplit : qp.oldPtr = (c :: w) ++ text := hold
  have hprev := QueryParse.prevChar_of_append (List.cons_ne_nil c w) hsplit
    (show qp'.advance.statement = qp.statement from hcopied.same.statement) hopos
  have hptr := QueryParse.oldPtr_of_append hsplit
    (show qp'.advance.statement = qp.statement from hcopied.same.statement) hopos
  rw [List.getLastD_cons] at hprev
  obtain ⟨skipped, hskiplen, hskipped, hrun⟩ := @lexStates_skip qp.ccsc 0
    (ccGetEscape conn) c s1.ccst s1.mode w text
  have hstates : (driverStates conn before statement).drop qp.opos =
      (s :: skipped) ++ lexStates qp.ccsc 0 (ccGetEscape conn) (w.getLastD c)
        ⟨s1.ccst, s1.mode, 0⟩ text := by
    rw [h.states, hold, lexStates, ← hs1, List.cons_append, ← hrun, hw]
  refine ⟨⟨s', h.follows.trans hfollows.toFollows, ?_, ?_, hcopied.tag, ?_, ?_, ?_, ?_, ?_⟩, ?_, ?_⟩
  · exact h.same.trans ⟨hcopied.same.1, hcopied.same.2, hcopied.same.3, hcopied.same.4,
      hcopied.same.5, hcopied.same.6, hcopied.same.7⟩
  · exact hcopied.build.core.trans h.core
  · have htake : qp'.opos - qp.opos + 1 = w.length + 1 := by
      rw [hbehind.opos, Nat.add_sub_cancel_left, hw]
    have hfront : statement.take (qp.opos + (w.length + 1)) =
        statement.take qp.opos ++ (statement.drop qp.opos).take (w.length + 1) := List.take_add
    rw [hcopied.build.text, h.text, QueryParse.oldPtr, hstatement, List.append_assoc, htake, hopos,
      hfront]
  · rw [hopos, ← List.drop_drop, hstates, hs', hprev, hptr]
    have hlength : w.length + 1 = (s :: skipped).length := by rw [List.length_cons, hskiplen]
    rw [hlength, List.drop_left]
    rw [show qp'.advance.ccsc = qp.ccsc from hcopied.same.ccsc]
  · intro tag htag
    rw [hs'] at htag
    exact h.tagEnds.step tag htag
  · intro hzero
    rw [hopos] at hzero
    exact absurd hzero (Nat.succ_ne_zero _)
  · intro hidle _ hparen
    rw [hs'] at hidle
    have hbyte : (c :: (w ++ text))[s1.skip]? = some leftParen := by
      rw [QueryParse.prevChar_advance, QueryParse.charAt, hcopied.same.statement, hbehind.opos,
        List.getD_eq_getElem?_getD, ← List.getElem?_drop, ← QueryParse.oldPtr, hold] at hparen
      cases hget : (c :: (w ++ text))[s1.skip]? with
      | none =>
        rw [hget] at hparen
        cases hparen
      | some d =>
        rw [hget] at hparen
        exact congrArg some hparen
    have hzero := lexStep_paren h.follows.lexes.skip h.tagEnds hidle hbyte
    rw [← hs1] at hzero
    rw [hzero, List.getElem?_cons_zero, Option.some_inj] at hbyte
    exact hbehind.paren hidle hbyte
  · rw [hopos]
    exact Nat.lt_add_of_pos_right (Nat.succ_pos _)
  · intro i s2 hlt hlt' hget
    have hget' : ((driverStates conn before statement).drop qp.opos)[i - qp.opos]? = some s2 := by
      rw [List.getElem?_drop, Nat.add_sub_cancel' hlt.le]
      exact hget
    have hidx : i - qp.opos = i - qp.opos - 1 + 1 := by omega
    rw [hstates, List.getElem?_append_left (by rw [List.length_cons]; omega), hidx,
      List.getElem?_cons_succ] at hget'
    exact hskipped s2 (List.mem_of_getElem? hget')

/-! ## The short form of an INSERT -/

/-- The driver reads the second parenthesis of `() VALUES ()` in an INSERT. -/
structure DefaultValuesAt (conn : ConnectionClass) (statement : List UInt8) (before : UInt8)
    (statementType : StatementType) (i : Nat) : Prop where
  type : statementType = .insert
  behind : i ≠ 0
  state : (driverStates conn before statement)[i]? = some ⟨0, .idle, 0⟩
  opening : statement.getD (i - 1) 0 = leftParen
  closing : statement.getD i 0 = rightParen
  values : (insertWithoutTarget (statement.drop (i + 1))).isSome

theorem Copying.state (h : Copying conn statement before statementType qb0 qp qb s)
    (hold : qp.oldPtr = c :: rest) : (driverStates conn before statement)[qp.opos]? = some s := by
  have hhead := congrArg List.head? h.states
  rw [hold, lexStates, List.head?_cons, List.head?_drop] at hhead
  exact hhead

theorem Copying.defaultValues_token (h : Copying conn statement before statementType qb0 qp qb s)
    (hshort : qp.AtDefaultValues) :
    s = ⟨0, .idle, 0⟩ ∧ qp.openToken? = some [leftParen] ∧ qp.prevChar = leftParen ∧
      qp.oldPtr.headD 0 = rightParen ∧
      (insertWithoutTarget (qp.statement.drop (qp.opos + 1))).isSome := by
  obtain ⟨-, token, htoken, hcase⟩ := hshort
  have hend : qp.prevTokenEnd = false := by
    by_contra hend
    rw [Bool.not_eq_false] at hend
    rw [QueryParse.openToken?, if_pos hend] at htoken
    cases htoken
  have hcurr : qp.tokenCurr = token := by
    rw [QueryParse.openToken?, hend, if_neg Bool.false_ne_true] at htoken
    exact Option.some.inj htoken
  have hhead : qp.tokenCurr.head? = some leftParen := by
    rcases hcase with hcase | hcase
    · rw [hcurr, hcase.1]
      rfl
    · rw [hcurr, hcase.1]
      rfl
  obtain ⟨hidle, hone, hprev⟩ := h.follows.lexes.token.paren hend hhead
  rw [hcurr] at hone
  subst hone
  have hclosing : qp.oldPtr.headD 0 = rightParen ∧
      (insertWithoutTarget (qp.statement.drop (qp.opos + 1))).isSome := by
    rcases hcase with hcase | hcase
    · exact absurd hcase.1 (by decide)
    · exact hcase.2
  refine ⟨?_, htoken, hprev.resolve_right ?_, hclosing⟩
  · obtain ⟨ccst, mode, skip⟩ := s
    obtain rfl : skip = 0 := h.follows.lexes.skip
    obtain rfl : mode = .idle := hidle
    obtain rfl : ccst = 0 := h.follows.lexes.settled rfl
    rfl
  · rintro ⟨-, hlf⟩
    have hchar := hclosing.1
    cases hold : qp.oldPtr with
    | nil =>
      rw [hold] at hchar
      cases hchar
    | cons d text =>
      rw [qp.charAt_of_oldPtr hold] at hlf
      rw [hold] at hchar
      exact absurd (hlf.symm.trans hchar) (by decide)

/-- The loop and the rules see the short form at the same bytes. -/
theorem Copying.defaultValues_iff (h : Copying conn statement before statementType qb0 qp qb s)
    (hold : qp.oldPtr = c :: rest) :
    qp.AtDefaultValues ↔ DefaultValuesAt conn statement before statementType qp.opos := by
  have hstatement : qp.statement = statement := h.same.statement
  have htype : qp.statementType = statementType := h.same.statementType
  have hchar : qp.oldPtr.headD 0 = statement.getD qp.opos 0 := by
    rw [hold, ← hstatement]
    exact (qp.charAt_of_oldPtr hold).symm
  have hprev : qp.opos ≠ 0 → qp.prevChar = statement.getD (qp.opos - 1) 0 := by
    intro hne
    rw [QueryParse.prevChar, if_neg hne, QueryParse.charAt, hstatement]
  constructor
  · intro hshort
    obtain ⟨rfl, htoken, hparen, hclosing, hvalues⟩ := h.defaultValues_token hshort
    have hne : qp.opos ≠ 0 := by
      intro hzero
      rw [h.first hzero] at htoken
      cases htoken
    refine ⟨htype ▸ hshort.1, hne, h.state hold, ?_, ?_, ?_⟩
    · rw [← hprev hne]
      exact hparen
    · rw [← hchar]
      exact hclosing
    · rw [← hstatement]
      exact hvalues
  · intro hshort
    have hs : s = ⟨0, .idle, 0⟩ := Option.some.inj ((h.state hold).symm.trans hshort.state)
    refine ⟨htype.trans hshort.type, [leftParen], ?_, Or.inr ⟨rfl, ?_, ?_⟩⟩
    · refine h.paren (by rw [hs]) hshort.behind ?_
      rw [hprev hshort.behind]
      exact hshort.opening
    · rw [hchar]
      exact hshort.closing
    · rw [hstatement]
      exact hshort.values

/-- What the driver has to read for a statement to be copied. -/
structure ReadsNothing (conn : ConnectionClass) (statement : List UInt8) (before : UInt8)
    (statementType : StatementType) : Prop where
  marker : .marker ∉ lexEvents conn.ccsc 0 (ccGetEscape conn) before ⟨0, .idle, 0⟩ statement
  values : ∀ i, ¬DefaultValuesAt conn statement before statementType i
  range : ∀ (i : Nat) (s : LexState), (driverStates conn before statement)[i]? = some s →
    s.skip = 0 → 0 ≤ wrapInt 32 i

theorem oldPtr_cons_of_lt (hlt : qp.opos < qp.statement.length) :
    ∃ c rest, qp.oldPtr = c :: rest := by
  cases hold : qp.oldPtr with
  | nil => exact absurd (List.drop_eq_nil_iff.1 hold) (Nat.not_le.2 hlt)
  | cons c rest => exact ⟨c, rest, rfl⟩

/-- A statement that reads so is copied to its end. -/
theorem Copying.finishes (hplain : PlainText statement) (hconn : qb0.conn = conn)
    (hjet : qb0.msJet = false) (hreads : ReadsNothing conn statement before statementType)
    (fuel : Nat) {qp : QueryParse} {qb : TokenBuild} {s : LexState}
    (h : Copying conn statement before statementType qb0 qp qb s)
    (hfuel : statement.length < fuel + qp.opos) :
    ∃ qp' qb', processTokens hooks fuel qp qb = some (qp', qb') ∧
      qb'.queryStatement = qb0.queryStatement ++ statement := by
  have hstatement : qp.statement = statement := h.same.statement
  induction fuel generalizing qp qb s with
  | zero =>
    have hle : qp.opos ≤ statement.length := h.follows.le_length
    omega
  | succ fuel ih =>
    rw [processTokens]
    by_cases hlt : qp.opos < qp.statement.length
    · obtain ⟨c, rest, hold⟩ := oldPtr_cons_of_lt hlt
      obtain ⟨hescape, hend, hcr⟩ := hplain.head hstatement hold
      have hpos := hreads.range qp.opos s (h.state hold) h.follows.lexes.skip
      have hshort : ¬qp.AtDefaultValues := fun hshort ↦
        hreads.values qp.opos ((h.defaultValues_iff hold).1 hshort)
      have hqbconn : qb.conn = conn := h.follows.conn.trans hconn
      have hmarker : (lexStep qp.ccsc 0 (ccGetEscape conn) qp.prevChar c rest s).2 ≠ .marker := by
        intro hevent
        obtain ⟨events, -, heq, -⟩ := h.follows.events
        refine hreads.marker ?_
        have hinit : lexEvents conn.ccsc 0 (ccGetEscape conn) before ⟨0, .idle, 0⟩ statement =
            events ++ lexEvents qp.ccsc 0 (ccGetEscape qb.conn) qp.prevChar s qp.oldPtr := by
          rw [hconn] at heq
          exact heq
        rw [hinit, hold, lexEvents_cons, hqbconn, hevent]
        exact List.mem_append_right _ List.mem_cons_self
      obtain ⟨qp1, qb1, hcall⟩ : ∃ qp1 qb1, innerProcessTokens hooks qp qb = some (qp1, qb1) := by
        rcases @innerProcessTokens_behind hooks qp qb s c rest h.follows.lexes hold h.tag
          (h.plain hjet) hpos hescape hend hcr hshort with ⟨hevent, -⟩ | ⟨-, qp1, qb1, heq, -⟩
        · rw [hqbconn] at hevent
          exact absurd hevent hmarker
        · exact ⟨qp1, qb1, heq⟩
      obtain ⟨⟨s1, hnext⟩, hlt', -⟩ := h.step hplain hconn hjet hold hshort hmarker hcall
      rw [if_pos hlt, hcall, Option.bind_some]
      exact ih hnext (by omega) hnext.same.statement
    · rw [if_neg hlt]
      refine ⟨qp, qb, rfl, ?_⟩
      rw [h.text, List.take_of_length_le (hstatement ▸ Nat.not_lt.1 hlt)]

/-! ## Without parameters -/

/-- No escape can be converted, and no value is known. -/
def noHooks : TokenHooks := ⟨fun _ _ ↦ none, fun _ _ ↦ [], fun _ _ ↦ none⟩

/-- An execution without bound parameters. -/
def unbound (conn : ConnectionClass) : TokenBuild :=
  tokenBuildInitialize conn 0 .replaceParams false 0 0 []

theorem resolveOneParam_unbound (h : qb.core = (unbound conn).core) (hooks : TokenHooks)
    (qp : QueryParse) : TokenBuild.resolveOneParam hooks qp qb = none := by
  have hmode : qb.paramMode = .replaceParams :=
    congrArg (fun qb : TokenBuild ↦ qb.paramMode) h
  have hipd : qb.ipdParameters = [] := congrArg TokenBuild.ipdParameters h
  rw [TokenBuild.resolveOneParam]
  simp only [hmode, hipd, List.getElem?_nil, Option.isNone_none, or_true, and_true]
  split
  · rfl
  · exact if_pos ⟨ResolveParamMode.noConfusion, ResolveParamMode.noConfusion⟩

/-- The second parenthesis of the short form. -/
theorem processPlain_short {pt : ParseToken} {endpos : Nat} (hpt : pt.curcharProcessed = false)
    (htoken : qp.openToken? = some [leftParen]) (hcursor : qp.usingCursor = false)
    (hjet : qb.msJet = false) (htype : qp.statementType = .insert)
    (hinsert : insertWithoutTarget (qp.statement.drop (qp.opos + 1)) = some endpos) :
    (processPlain pt qp qb rightParen).1 =
        { qp with prevTokenEnd := false, tokenCurr := [rightParen], opos := qp.opos + endpos } ∧
      (processPlain pt qp qb rightParen).2.core = qb.core ∧
      (processPlain pt qp qb rightParen).2.queryStatement =
        qb.queryStatement.take (qb.npos - 1) ++ ascii " DEFAULT VALUES" := by
  have hjetBoolean : jetBoolean qp qb rightParen = qb := by
    rw [jetBoolean, hjet, if_neg fun h ↦ Bool.false_ne_true h.2.1]
  have hopened : openToken pt qp qb rightParen = (⟨some [leftParen], true⟩,
      { qp with prevTokenEnd := false, tokenCurr := [rightParen] }, qb) := by
    rw [openToken, if_neg (by decide), if_neg (by decide), if_neg fun h ↦ absurd h.1 (by decide),
      if_neg fun h ↦ absurd h.1 (by decide), if_neg (by decide), if_neg (by decide), hjetBoolean,
      pt.tokenRestart_eq qp hpt, htoken]
    rfl
  have hdeclared : qp.usingCursor ≠ true := by
    rw [hcursor]
    exact Bool.false_ne_true
  have hchecked : checkToken ⟨some [leftParen], true⟩
      { qp with prevTokenEnd := false, tokenCurr := [rightParen] } qb rightParen =
      ({ qp with prevTokenEnd := false, tokenCurr := [rightParen], opos := qp.opos + endpos },
        (qb.replaceData (qb.queryStatement.take (qb.npos - 1)) (by
          rw [List.length_take]
          exact Nat.min_le_right _ _)).appendData (ascii " DEFAULT VALUES"), true) := by
    rw [checkToken]
    simp only
    rw [if_neg fun h ↦ absurd h.1 (by decide), if_neg fun h ↦ hdeclared h.1,
      if_neg fun h ↦ absurd h.2 (by decide), if_pos ⟨htype, rfl, trivial⟩, hinsert]
  rw [processPlain, if_neg fun h ↦ absurd h.1 (by decide)]
  simp only [if_neg (show rightParen ≠ dollarQuote by decide), hopened, hchecked, if_true]
  exact ⟨trivial, rfl, rfl⟩

/-- A byte outside of quotes, comments and words. -/
theorem innerProcessTokens_idle (hold : qp.oldPtr = c :: rest) (hstatus : qp.inStatus = {})
    (hascii : mbcsNonAscii (pgCSStat qp.ccst c qp.ccsc) c = false) (hplain : Plain qp qb)
    (hpos : 0 ≤ wrapInt 32 qp.opos) :
    innerProcessTokens hooks qp qb =
      processIdle hooks ptInitialize { qp with ccst := pgCSStat qp.ccst c qp.ccsc } qb c := by
  have hkeyword : qp.inStatus.identKeyword = false := by rw [hstatus]
  have hidle : qp.inStatus.idle = true := by
    rw [hstatus]
    rfl
  rw [innerProcessTokens]
  simp only [qp.charAt_of_oldPtr hold]
  rw [if_neg (Int.not_lt.2 hpos), hplain.keysetText hpos, Option.bind_some, hascii,
    if_neg Bool.false_ne_true]
  simp only [hkeyword, Bool.false_eq_true, false_and, if_false]
  rw [if_pos hidle]

theorem processIdle_rightParen (pt : ParseToken) (hold : qp.oldPtr = rightParen :: rest) :
    processIdle hooks pt qp qb rightParen = some (processPlain pt qp qb rightParen) := by
  have hidentity : strnicmpEq (rightParen :: rest) (ascii "@@identity") = false :=
    strnicmpEq_identity (by decide)
  rw [processIdle, if_neg fun h ↦ absurd h.2.1 (by decide), if_neg (by decide),
    if_neg (by decide), hold, hidentity, if_neg Bool.false_ne_true, if_pos (by decide)]

/-- The short form of an INSERT is replaced. -/
theorem Copying.replaced (h : Copying conn statement before statementType qb0 qp qb s)
    (hjet : qb0.msJet = false) (hold : qp.oldPtr = c :: rest)
    (hshort : qp.AtDefaultValues) (hcall : innerProcessTokens hooks qp qb = some (qp', qb')) :
    SameParse qp qp' ∧ qp'.TagOk ∧ qb'.core = qb.core ∧
      qb'.queryStatement = qb.queryStatement.take (qb.npos - 1) ++ ascii " DEFAULT VALUES" := by
  obtain ⟨rfl, htoken, -, hclosing, hvalues⟩ := h.defaultValues_token hshort
  have hflags := h.plain hjet
  obtain rfl : c = rightParen := by
    rw [hold] at hclosing
    exact hclosing
  have hccst : qp.ccst = 0 := h.follows.lexes.ccst
  have hascii : mbcsNonAscii (pgCSStat qp.ccst rightParen qp.ccsc) rightParen = false := by
    rw [hccst]
    exact mbcsNonAscii_eq_false.2 ⟨pgCSStat_ascii (settled_zero qp.ccsc) (by decide), by decide⟩
  obtain ⟨hpos, -⟩ := innerProcessTokens_call hold h.tag hcall
  obtain ⟨endpos, hinsert⟩ := Option.isSome_iff_exists.1 hvalues
  rw [innerProcessTokens_idle hold h.follows.lexes.mode.1 hascii hflags hpos] at hcall
  obtain ⟨hparse, hcore, hbuild⟩ := @processPlain_short
    { qp with ccst := pgCSStat qp.ccst rightParen qp.ccsc } qb ptInitialize endpos rfl htoken
    hflags.usingCursor hflags.msJet hshort.1 hinsert
  have heq := Option.some.inj ((processIdle_rightParen ptInitialize (by exact hold)).symm.trans hcall)
  rw [heq] at hparse hcore hbuild
  refine ⟨?_, ?_, hcore, hbuild⟩
  · rw [show qp' = _ from hparse]
    exact ⟨rfl, rfl, rfl, rfl, rfl, rfl, rfl⟩
  · rw [show qp' = _ from hparse]
    exact h.tag

/-! ## A text that is not the statement -/

/-- A space has been put where the statement has none. -/
structure Spaced (conn : ConnectionClass) (statement : List UInt8) (before : UInt8)
    (statementType : StatementType) (n : Nat) (qp : QueryParse) (qb : TokenBuild) : Prop where
  same : SameParse (qpInitialize conn statement before statementType) qp
  core : qb.core = (unbound conn).core
  tag : qp.TagOk
  space : qb.queryStatement[n]? = some 0x20
  le : n + 3 ≤ qb.queryStatement.length

theorem getElem?_append_of_some {l : List UInt8} {n : Nat} (h : l[n]? = some c) (l' : List UInt8) :
    (l ++ l')[n]? = some c := by
  rw [List.getElem?_append_left (List.getElem?_eq_some_iff.1 h).1]
  exact h

/-- The space stays. -/
theorem Spaced.step {n : Nat} (h : Spaced conn statement before statementType n qp qb)
    (hplain : PlainText statement) (hold : qp.oldPtr = c :: rest)
    (hcall : innerProcessTokens noHooks qp qb = some (qp', qb')) :
    Spaced conn statement before statementType n qp'.advance qb' := by
  obtain ⟨hescape, hend, hcr⟩ := hplain.head h.same.statement hold
  obtain ⟨hpos, front, hkey, htoken⟩ := innerProcessTokens_call hold h.tag hcall
  have hflags : Plain qp qb := ⟨h.same.usingCursor, h.same.fromPos, h.same.wherePos,
    congrArg TokenBuild.msJet h.core⟩
  rw [hflags.keysetText hpos] at hkey
  cases hkey
  have hadvance : ∀ {qp'}, SameParse qp qp' →
      SameParse (qpInitialize conn statement before statementType) qp'.advance := by
    intro qp' hsame
    exact h.same.trans ⟨hsame.1, hsame.2, hsame.3, hsame.4, hsame.5, hsame.6, hsame.7⟩
  cases htoken with
  | copied hcopied =>
    refine ⟨hadvance hcopied.same, hcopied.build.core.trans h.core, hcopied.tag, ?_, ?_⟩
    · rw [hcopied.build.text]
      exact getElem?_append_of_some h.space _
    · rw [hcopied.build.text, List.length_append]
      exact Nat.le_add_right_of_le h.le
  | dropped _ hchar =>
    rw [qp.charAt_succ_of_oldPtr hold, hold] at hchar
    exact absurd hchar hcr
  | escape hchar =>
    rw [hold] at hchar
    exact absurd (Or.inl hchar) hescape
  | endBrace hchar =>
    rw [hold] at hchar
    exact absurd hchar hend
  | identity _ hword =>
    rw [hold] at hword
    exact absurd (Or.inr hword) hescape
  | marker _ _ _ _ hresolve =>
    rw [resolveOneParam_unbound h.core] at hresolve
    cases hresolve
  | rewritten hrewritten =>
    rw [hflags.usingCursor, hflags.msJet] at hrewritten
    exact absurd hrewritten (by simp)
  | defaultValues k text _ hk htext hsame htag hcore hbuild =>
    have hle := h.le
    have hlen : (qb.queryStatement.take (qb.npos - k)).length = qb.queryStatement.length - k := by
      rw [List.length_take, TokenBuild.npos]
      exact Nat.min_eq_left (Nat.sub_le _ _)
    refine ⟨hadvance hsame, hcore.trans h.core, htag, ?_, ?_⟩
    · rw [hbuild, List.getElem?_append_left (by omega), List.getElem?_take_of_lt ?_]
      · exact h.space
      · rw [TokenBuild.npos]
        omega
    · rw [hbuild, List.length_append, hlen]
      omega

theorem Spaced.run {n : Nat} (hplain : PlainText statement) (fuel : Nat) {qp : QueryParse}
    {qb : TokenBuild} (h : Spaced conn statement before statementType n qp qb)
    (hrun : processTokens noHooks fuel qp qb = some (qp', qb')) :
    qb'.queryStatement[n]? = some 0x20 := by
  induction fuel generalizing qp qb with
  | zero => cases hrun
  | succ fuel ih =>
    rw [processTokens] at hrun
    by_cases hlt : qp.opos < qp.statement.length
    · obtain ⟨c, rest, hold⟩ := oldPtr_cons_of_lt hlt
      rw [if_pos hlt] at hrun
      obtain ⟨⟨qp1, qb1⟩, hcall, hrest⟩ := Option.bind_eq_some_iff.1 hrun
      exact ih (h.step hplain hold hcall) hrest
    · rw [if_neg hlt] at hrun
      obtain ⟨-, rfl⟩ := Prod.mk.inj (Option.some.inj hrun)
      exact h.space

/-- A statement that is copied without parameters reads so. -/
theorem Copying.reads (hplain : PlainText statement) (fuel : Nat) {qp : QueryParse}
    {qb : TokenBuild} {s : LexState}
    (h : Copying conn statement before statementType (unbound conn) qp qb s)
    (hrun : processTokens noHooks fuel qp qb = some (qp', qb'))
    (htext : qb'.queryStatement = statement) :
    (∃ s', Copying conn statement before statementType (unbound conn) qp' qb' s' ∧
        statement.length ≤ qp'.opos) ∧
      ∀ (i : Nat) (s1 : LexState), qp.opos ≤ i →
        (driverStates conn before statement)[i]? = some s1 → s1.skip = 0 →
        0 ≤ wrapInt 32 i ∧ ¬DefaultValuesAt conn statement before statementType i := by
  induction fuel generalizing qp qb s with
  | zero => cases hrun
  | succ fuel ih =>
    have hstatement : qp.statement = statement := h.same.statement
    rw [processTokens] at hrun
    by_cases hlt : qp.opos < qp.statement.length
    · obtain ⟨c, rest, hold⟩ := oldPtr_cons_of_lt hlt
      rw [if_pos hlt] at hrun
      obtain ⟨⟨qp1, qb1⟩, hcall, hrest⟩ := Option.bind_eq_some_iff.1 hrun
      obtain ⟨hescape, hend, hcr⟩ := hplain.head hstatement hold
      obtain ⟨hpos, -⟩ := innerProcessTokens_call hold h.tag hcall
      have hshort : ¬qp.AtDefaultValues := by
        -- The parenthesis before the cursor has become a space.
        intro hshort
        obtain ⟨hsame, htag, hcore, hbuild⟩ := h.replaced rfl hold hshort hcall
        have hvalues := (h.defaultValues_iff hold).1 hshort
        have hbehind := hvalues.behind
        have hopening : statement[qp.opos - 1]? = some leftParen := by
          have hget := hvalues.opening
          rw [List.getD_eq_getElem?_getD] at hget
          cases hchar : statement[qp.opos - 1]? with
          | none =>
            rw [hchar] at hget
            cases hget
          | some d =>
            rw [hchar] at hget
            exact congrArg some hget
        have hqb : qb.queryStatement = statement.take qp.opos := h.text
        have hnpos : qb.npos = qp.opos := by
          rw [TokenBuild.npos, hqb, List.length_take]
          exact Nat.min_eq_left (hstatement ▸ hlt.le)
        have hlen : (qb.queryStatement.take (qp.opos - 1)).length = qp.opos - 1 := by
          rw [hqb, List.length_take, List.length_take]
          have hle : qp.opos ≤ statement.length := hstatement ▸ hlt.le
          omega
        have hspaced : Spaced conn statement before statementType (qp.opos - 1) qp1.advance qb1 := by
          refine ⟨h.same.trans ⟨hsame.1, hsame.2, hsame.3, hsame.4, hsame.5, hsame.6, hsame.7⟩,
            hcore.trans h.core, htag, ?_, ?_⟩
          · rw [hbuild, hnpos, List.getElem?_append_right (by rw [hlen]), hlen, Nat.sub_self]
            rfl
          · have hfifteen : (ascii " DEFAULT VALUES").length = 15 := by decide
            rw [hbuild, hnpos, List.length_append, hlen, hfifteen]
            omega
        have hspace := hspaced.run hplain fuel hrest
        rw [htext, hopening] at hspace
        exact absurd (Option.some.inj hspace) (by decide)
      have hqbconn : qb.conn = conn := h.follows.conn
      have hmarker : (lexStep qp.ccsc 0 (ccGetEscape conn) qp.prevChar c rest s).2 ≠ .marker := by
        rcases @innerProcessTokens_behind noHooks qp qb s c rest h.follows.lexes hold h.tag
          (h.plain rfl) hpos hescape hend hcr hshort with ⟨-, qp2, heq⟩ | ⟨hevent, -⟩
        · rw [hcall, resolveOneParam_unbound h.core] at heq
          cases heq
        · rw [hqbconn] at hevent
          exact hevent
      obtain ⟨⟨s1, hnext⟩, hlt', hbetween⟩ := h.step hplain rfl rfl hold hshort hmarker hcall
      obtain ⟨hall, hlater⟩ := ih hnext hrest
      refine ⟨hall, ?_⟩
      intro i s2 hle hget hskip
      rcases Nat.eq_or_lt_of_le hle with rfl | hlt2
      · exact ⟨hpos, fun hvalues ↦ hshort ((h.defaultValues_iff hold).2 hvalues)⟩
      · refine hlater i s2 (Nat.not_lt.1 fun hlt3 ↦ ?_) hget hskip
        exact hbetween i s2 hlt2 hlt3 hget hskip
    · rw [if_neg hlt] at hrun
      obtain ⟨rfl, rfl⟩ := Prod.mk.inj (Option.some.inj hrun)
      have hle : statement.length ≤ qp.opos := hstatement ▸ Nat.not_lt.1 hlt
      refine ⟨⟨s, h, hle⟩, ?_⟩
      intro i s1 hi hget
      rw [List.getElem?_eq_none] at hget
      · cases hget
      · rw [driverStates, lexStates_length]
        exact Nat.le_trans hle hi

/-! ## The whole loop -/

/-- Whatever the parameters are, the buffer is the statement in the end, and in every state that
the loop gets to there is room behind what is in it, for a terminator. -/
def CopiesStatement (conn : ConnectionClass) (statement : List UInt8) (before : UInt8)
    (statementType : StatementType) : Prop :=
  ∀ (hooks : TokenHooks) (size : Nat) (paramMode : ResolveParamMode) (discardOutput : Bool)
    (procReturn : Int) (apdAllocated : Nat) (ipdParameters : List IpdParam),
    (∃ fuel qp qb, processTokens hooks fuel (qpInitialize conn statement before statementType)
        (tokenBuildInitialize conn size paramMode discardOutput procReturn apdAllocated
          ipdParameters) = some (qp, qb) ∧ qb.queryStatement = statement) ∧
      ∀ qp qb, Reaches hooks (qpInitialize conn statement before statementType)
        (tokenBuildInitialize conn size paramMode discardOutput procReturn apdAllocated
          ipdParameters) qp qb → qb.npos < qb.strAlsize

/-- Without parameters, no marker can be in a statement that is copied. -/
theorem CopiesStatement.reads (h : CopiesStatement conn statement before statementType)
    (hplain : PlainText statement) : ReadsNothing conn statement before statementType := by
  obtain ⟨⟨fuel, qp, qb, hrun, htext⟩, -⟩ := h noHooks 0 .replaceParams false 0 0 []
  obtain ⟨⟨s, hend, hle⟩, hall⟩ := Copying.start.reads hplain fuel hrun htext
  refine ⟨?_, ?_, ?_⟩
  · intro hmem
    have hlast := (hend.follows.all (by rw [hend.same.statement]; exact hle)).1
    have hres : qb.resolved = [] := congrArg TokenBuild.resolved hend.core
    rw [hres] at hlast
    exact eventsAt_ne_nil.2 hmem (List.nil_append _ ▸ hlast.symm)
  · intro i hvalues
    exact (hall i _ (Nat.zero_le i) hvalues.state rfl).2 hvalues
  · intro i s1 hget hskip
    exact (hall i s1 (Nat.zero_le i) hget hskip).1

/-- A statement in which nothing is to be replaced is copied exactly as long as the driver reads no
marker and no short form of an INSERT in it, and no symbol begins where an `Int4` is negative. -/
theorem processTokens_copies_iff (hplain : PlainText statement) :
    CopiesStatement conn statement before statementType ↔
      ReadsNothing conn statement before statementType := by
  constructor
  · intro h
    exact h.reads hplain
  · intro hreads hooks size paramMode discardOutput procReturn apdAllocated ipdParameters
    refine ⟨⟨statement.length + 1, ?_⟩, fun _ qb _ ↦ qb.npos_lt⟩
    exact Copying.finishes hplain rfl rfl hreads _ .start (Nat.lt_succ_self _)

/-- The positions of a statement of at most 2^31 bytes are not negative. -/
theorem range_of_length (hlen : statement.length ≤ 2 ^ 31) {i : Nat} {s : LexState}
    (h : (driverStates conn before statement)[i]? = some s) : 0 ≤ wrapInt 32 i := by
  have hlt : i < statement.length := by
    have hlt := (List.getElem?_eq_some_iff.1 h).1
    rw [driverStates, lexStates_length] at hlt
    exact hlt
  rw [wrapInt, Int.bmod_eq_of_le (by omega) (by omega)]
  exact Int.natCast_nonneg i

end

theorem plainText_iff {statement : List UInt8} :
    PlainText statement ↔ odbcEscapeStart ∉ statement ∧ odbcEscapeEnd ∉ statement ∧
      ∀ text ∈ statement.tails, strnicmpEq text (ascii "@@identity") = false ∧
        text.take 2 ≠ [pgCarriageReturn, pgLinefeed] := by
  constructor
  · rintro ⟨hopen, hclose, hidentity, hlines⟩
    refine ⟨hopen, hclose, fun text htext ↦ ?_⟩
    obtain ⟨i, rfl⟩ : ∃ i, text = statement.drop i :=
      ⟨_, List.suffix_iff_eq_drop.1 ((List.mem_tails _ _).1 htext)⟩
    exact ⟨hidentity i, hlines i⟩
  · rintro ⟨hopen, hclose, hall⟩
    have hdrop : ∀ i, statement.drop i ∈ statement.tails := fun i ↦
      (List.mem_tails _ _).2 (List.drop_suffix i statement)
    exact ⟨hopen, hclose, fun i ↦ (hall _ (hdrop i)).1, fun i ↦ (hall _ (hdrop i)).2⟩

instance (statement : List UInt8) : Decidable (PlainText statement) :=
  decidable_of_iff _ plainText_iff.symm

/-- A statement with literals of three kinds and a comment is copied. -/
theorem processTokens_copies_quoted :
    PlainText (ascii "SELECT 'a?', \"b?\", $$?$$ -- ?") ∧
      CopiesStatement utf8Connection (ascii "SELECT 'a?', \"b?\", $$?$$ -- ?") 0 .select := by
  have hplain : PlainText (ascii "SELECT 'a?', \"b?\", $$?$$ -- ?") := by decide
  refine ⟨hplain, (processTokens_copies_iff hplain).2 ⟨by decide, fun i h ↦ ?_, fun i s h _ ↦ ?_⟩⟩
  · exact StatementType.noConfusion h.type
  · exact range_of_length (by decide) h

/-- The server takes all of a statement for a comment in which the driver finds a marker. -/
theorem processTokens_copies_not :
    PlainText (ascii "SELECT 1 /*/?*/") ∧
      Event.marker ∉ serverEvents utf8Connection (ascii "SELECT 1 /*/?*/") ∧
      (processTokens oneHooks 40 (qpInitialize utf8Connection (ascii "SELECT 1 /*/?*/") 0 .select)
        twoParameters).map (·.2.queryStatement) = some (ascii "SELECT 1 /*/1*/") ∧
      ¬CopiesStatement utf8Connection (ascii "SELECT 1 /*/?*/") 0 .select := by
  have hplain : PlainText (ascii "SELECT 1 /*/?*/") := by decide
  have hmarker : Event.marker ∈ lexEvents utf8Connection.ccsc 0 (ccGetEscape utf8Connection) 0
      ⟨0, .idle, 0⟩ (ascii "SELECT 1 /*/?*/") := by decide
  exact ⟨hplain, by decide, by decide, fun h ↦ (h.reads hplain).marker hmarker⟩

end PsqlOdbc
