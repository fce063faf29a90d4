import PsqlOdbc.Convert.Lexis

/-!
# Counting the parameters of a query (`statement.c`, `SC_scanQueryAndCountParams`)

The scanner that is called before a query is rewritten.  When the caller asks for the next
command it stops behind the first semicolon, at the first byte that is no space.
-/

namespace PsqlOdbc

/-! ## The scanner -/

/-- The local variables of `SC_scanQueryAndCountParams`.  `tag` holds the `taglen` bytes at the
pointer of that name, and `nextCmd` is nothing where `*next_cmd` is -1. -/
structure ScanState where
  ccst : Nat := 0
  tag : List UInt8 := []
  escapeInLiteral : UInt8 := 0
  inLiteral : Bool := false
  inIdentKeyword : Bool := false
  inDquoteIdentifier : Bool := false
  inDollarQuote : Bool := false
  inEscape : Bool := false
  inLineComment : Bool := false
  delFound : Bool := false
  commentLevel : Nat := 0
  multi : Bool := false
  numP : Int := 0
  bchar : UInt8 := 0
  nextCmd : Option Nat := none
  procReturn : Bool := false
  deriving DecidableEq, Repr

section

-- The character set, `CC_get_escape`, and whether the caller asks for the next command.
variable (ccsc : CharSet) (escape : UInt8) (wantNext : Bool)

/-- A byte of a multibyte character. -/
def scanMultibyte (st : ScanState) (tchar : UInt8) : ScanState :=
  let st := if 0x80 ≤ tchar then { st with bchar := tchar } else st
  if st.inDquoteIdentifier || st.inLiteral || st.inDollarQuote || st.inEscape ||
      st.inLineComment || decide (0 < st.commentLevel) then st
  else { st with inIdentKeyword := true }

/-- The last branch: a byte outside of quotes and comments that is no letter and no digit.  The
other components are how many bytes behind it have been taken too, and the last of them. -/
def scanOther (pos : Nat) (prev tchar : UInt8) (rest : List UInt8) (st : ScanState) :
    ScanState × Nat × UInt8 :=
  let next := rest.headD 0
  if tchar = paramMarker then
    ({ st with
      procReturn := st.procReturn || (decide (st.numP = 0) && decide (st.bchar = odbcEscapeStart))
      numP := (st.numP + 1).bmod (2 ^ 16) }, 0, tchar)
  else if tchar = semicolon then
    ({ st with
      delFound := true
      nextCmd := if wantNext then some pos else st.nextCmd }, 0, tchar)
  else if tchar = dollarQuote then
    let taglen := findTag (tchar :: rest) ccsc
    if 0 < taglen then
      ({ st with inDollarQuote := true, tag := (tchar :: rest).take taglen }, taglen - 1, tchar)
    else (st, 0, tchar)
  else if tchar = literalQuote then
    ({ st with
      inLiteral := true
      escapeInLiteral :=
        if escape = 0 ∧ prev = literalExt then PsqlOdbc.escapeInLiteral else escape }, 0, tchar)
  else if tchar = identifierQuote then ({ st with inDquoteIdentifier := true }, 0, tchar)
  else if tchar = hyphen ∧ next = hyphen then
    ({ st with ccst := pgCSStat st.ccst next ccsc, inLineComment := true }, 1, next)
  else if tchar = slash ∧ next = asterisk then
    ({ st with
      ccst := pgCSStat st.ccst next ccsc
      commentLevel := st.commentLevel + 1 }, 1, next)
  else (st, 0, tchar)

/-- A byte that belongs to no word. -/
def scanInside (pos : Nat) (prev tchar : UInt8) (rest : List UInt8) (st : ScanState) :
    ScanState × Nat :=
  let next := rest.headD 0
  if st.inDollarQuote then
    if tchar = dollarQuote ∧ (tchar :: rest).take st.tag.length = st.tag then
      ({ st with inDollarQuote := false, tag := [] }, st.tag.length - 1)
    else (st, 0)
  else if st.inLiteral then
    if st.inEscape then ({ st with inEscape := false }, 0)
    else if tchar = st.escapeInLiteral then ({ st with inEscape := true }, 0)
    else if tchar = literalQuote then ({ st with inLiteral := false }, 0)
    else (st, 0)
  else if st.inDquoteIdentifier then
    if tchar = identifierQuote then ({ st with inDquoteIdentifier := false }, 0) else (st, 0)
  else if st.inLineComment then
    if tchar = pgLinefeed then ({ st with inLineComment := false }, 0) else (st, 0)
  else if 0 < st.commentLevel then
    if tchar = slash ∧ next = asterisk then
      ({ st with
        ccst := pgCSStat st.ccst next ccsc
        commentLevel := st.commentLevel + 1 }, 1)
    else if tchar = asterisk ∧ next = slash then
      ({ st with
        ccst := pgCSStat st.ccst next ccsc
        commentLevel := st.commentLevel - 1 }, 1)
    else (st, 0)
  else if isAlnum tchar then ({ st with inIdentKeyword := true }, 0)
  else
    let (st, skip, tchar) := scanOther ccsc escape wantNext pos prev tchar rest st
    (if isNotSpace tchar then { st with bchar := tchar } else st, skip)

/-- A byte of its own. -/
def scanChar (pos : Nat) (prev tchar : UInt8) (rest : List UInt8) (st : ScanState) :
    ScanState × Nat :=
  if st.inIdentKeyword ∧ (isAlnum tchar ∨ tchar = dollarQuote ∨ tchar = underscore) then
    ({ st with bchar := tchar }, 0)
  else scanInside ccsc escape wantNext pos prev tchar rest { st with inIdentKeyword := false }

/-- The loop; `skip` bytes have been taken with the one before them. -/
def scanLoop : Nat → Nat → UInt8 → ScanState → List UInt8 → ScanState
  | _, _, _, st, [] => st
  | pos, skip + 1, _, st, tchar :: rest => scanLoop (pos + 1) skip tchar st rest
  | pos, 0, prev, st, tchar :: rest =>
    if tchar = 0 then st
    else
      let st := { st with ccst := pgCSStat st.ccst tchar ccsc }
      if mbcsNonAscii st.ccst tchar then
        scanLoop (pos + 1) 0 tchar (scanMultibyte st tchar) rest
      else
        let found := !st.multi && st.delFound && isNotSpace tchar
        let st := if found then { st with multi := true } else st
        if found && wantNext then st
        else
          let scanned := scanChar ccsc escape wantNext pos prev tchar rest st
          scanLoop (pos + 1) scanned.2 tchar scanned.1 rest

end

/-- `SC_scanQueryAndCountParams`, with the byte in memory before the query.  The results are
`*pcpar`, `*next_cmd`, `*multi_st` and `*proc_return`. -/
def scanQueryAndCountParams (conn : ConnectionClass) (wantNext : Bool) (before : UInt8)
    (query : List UInt8) : Int × Option Nat × Bool × Bool :=
  let st := scanLoop conn.ccsc (ccGetEscape conn) wantNext 0 0 before {} query
  (st.numP, st.nextCmd, st.multi, st.procReturn)

/-! ## The scanner follows the lexical rules -/

/-- The flags for what the scanner is inside of. -/
def ScanState.flags (st : ScanState) : List Bool :=
  [st.inLiteral, st.inIdentKeyword, st.inDquoteIdentifier, st.inDollarQuote, st.inEscape,
    st.inLineComment]

/-- The flags that stand for a mode. -/
def Mode.flags : Mode → List Bool
  | .idle | .comment _ => [false, false, false, false, false, false]
  | .word => [false, true, false, false, false, false]
  | .literal _ => [true, false, false, false, false, false]
  | .escaped _ => [true, false, false, false, true, false]
  | .dquote => [false, false, true, false, false, false]
  | .dollar _ => [false, false, false, true, false, false]
  | .line => [false, false, false, false, false, true]

/-- How many comments are open. -/
def Mode.level : Mode → Nat
  | .comment level => level
  | _ => 0

/-- What else the scanner keeps in a mode. -/
def ScanState.Keeps (st : ScanState) : Mode → Prop
  | .literal escape | .escaped escape => st.escapeInLiteral = escape ∧ escape ≠ literalQuote
  | .dollar tag => st.tag = tag
  | .comment level => 0 < level
  | _ => True

/-- The states of the scanner that stand for a mode. -/
structure ScanState.InMode (st : ScanState) (mode : Mode) : Prop where
  flags : st.flags = mode.flags
  level : st.commentLevel = mode.level
  keeps : st.Keeps mode

/-- The scanner has taken one symbol: `out` is what the rules say about it. -/
structure Scanned (st : ScanState) (pos : Nat) (out : Mode × Nat × Event) (st' : ScanState)
    (skip : Nat) : Prop where
  ccst : st'.ccst = 0
  mode : st'.InMode out.1
  skip_eq : skip = out.2.1
  numP : st'.numP = if out.2.2 = .marker then (st.numP + 1).bmod (2 ^ 16) else st.numP
  delFound : st'.delFound = (st.delFound || decide (out.2.2 = .delim))
  multi : st'.multi = st.multi
  nextCmd : st'.nextCmd = if out.2.2 = .delim then some pos else st.nextCmd

section

variable {ccsc : CharSet} {escape : UInt8} {st st' : ScanState} {pos : Nat} {prev c : UInt8}
  {rest : List UInt8}

/-- A symbol that is neither a marker nor a semicolon. -/
theorem Scanned.quiet {mode : Mode} {skip : Nat} {event : Event} (hccst : st'.ccst = 0)
    (hmode : st'.InMode mode) (hnum : st'.numP = st.numP) (hdel : st'.delFound = st.delFound)
    (hmulti : st'.multi = st.multi) (hnext : st'.nextCmd = st.nextCmd)
    (hevent : event ≠ .marker ∧ event ≠ .delim := by
      first | exact ⟨Event.noConfusion, Event.noConfusion⟩ | exact insideEvent_quiet _) :
    Scanned st pos (mode, skip, event) st' skip where
  ccst := hccst
  mode := hmode
  skip_eq := rfl
  numP := hnum.trans (if_neg hevent.1).symm
  delFound := by rw [hdel, decide_eq_false hevent.2, Bool.or_false]
  multi := hmulti
  nextCmd := hnext.trans (if_neg hevent.2).symm

/-- The walk at the second byte of an opening or an end of a comment. -/
theorem pgCSStat_headD {d : UInt8} (h : rest.headD 0 = d) (hd : d < 0x80) :
    pgCSStat 0 (rest.headD 0) ccsc = 0 := by
  rw [h]
  exact pgCSStat_ascii (settled_zero ccsc) hd

/-- A byte outside of quotes and comments. -/
theorem scanOther_scanned (hescape : escape ≠ literalQuote) (hccst : st.ccst = 0)
    (hmode : st.InMode .idle) (hc : isAlnum c = false) :
    Scanned st pos (lexIdle ccsc 1 escape prev c rest)
      (scanOther ccsc escape true pos prev c rest st).1
      (scanOther ccsc escape true pos prev c rest st).2.1 := by
  have hflags := hmode.flags
  simp only [ScanState.flags, Mode.flags, List.cons.injEq, and_true] at hflags
  obtain ⟨hlit, hident, hdq, hdol, hesc, hline⟩ := hflags
  have hlevel := hmode.level
  rw [lexIdle]
  by_cases hidentity : c = odbcEscapeStart ∨ strnicmpEq (c :: rest) (ascii "@@identity")
  · -- The scanner knows nothing of escapes.
    have hother : scanOther ccsc escape true pos prev c rest st = (st, 0, c) := by
      have hc' : c = 0x7b ∨ c = 0x40 := by
        rcases hidentity with h | h
        · exact Or.inl h
        · by_contra hne
          rw [strnicmpEq_identity (not_or.1 hne).2] at h
          cases h
      rcases hc' with rfl | rfl <;> rfl
    rw [if_pos hidentity, hother]
    exact .quiet hccst hmode rfl rfl rfl rfl
  rw [if_neg hidentity, scanOther]
  by_cases hmarker : c = paramMarker
  · rw [if_pos hmarker, if_pos hmarker]
    exact ⟨hccst, ⟨hmode.flags, hlevel, trivial⟩, rfl, rfl, (Bool.or_false _).symm, rfl, rfl⟩
  rw [if_neg hmarker, if_neg hmarker]
  by_cases hdollar : c = dollarQuote
  · have hdelim : c ≠ semicolon := by rw [hdollar]; decide
    rw [if_pos hdollar, if_neg hdelim, if_pos hdollar]
    by_cases htag : 0 < findTag (c :: rest) ccsc
    · simp only [if_pos htag]
      refine .quiet hccst ⟨?_, hlevel, rfl⟩ rfl rfl rfl rfl
      simp only [ScanState.flags, Mode.flags, hlit, hident, hdq, hesc, hline]
    · simp only [if_neg htag]
      exact .quiet hccst hmode rfl rfl rfl rfl
  rw [if_neg hdollar, if_neg hdollar]
  by_cases hquote : c = literalQuote
  · have hdelim : c ≠ semicolon := by rw [hquote]; decide
    rw [if_pos hquote, if_neg hdelim, if_pos hquote]
    refine .quiet hccst ⟨?_, hlevel, rfl, ?_⟩ rfl rfl rfl rfl
    · simp only [ScanState.flags, Mode.flags, hident, hdq, hdol, hesc, hline]
    · split
      · decide
      · exact hescape
  rw [if_neg hquote, if_neg hquote]
  by_cases hdquote : c = identifierQuote
  · have hdelim : c ≠ semicolon := by rw [hdquote]; decide
    rw [if_pos hdquote, if_neg hdelim, if_pos hdquote]
    refine .quiet hccst ⟨?_, hlevel, trivial⟩ rfl rfl rfl rfl
    simp only [ScanState.flags, Mode.flags, hlit, hident, hdol, hesc, hline]
  rw [if_neg hdquote, if_neg hdquote]
  by_cases hslash : c = slash ∧ rest.headD 0 = asterisk
  · have hdelim : c ≠ semicolon := by rw [hslash.1]; decide
    have hhyphen : ¬(c = hyphen ∧ rest.headD 0 = hyphen) := by
      rw [hslash.1]
      exact fun h ↦ absurd h.1 (by decide)
    rw [if_pos hslash, if_neg hdelim, if_neg hhyphen, if_pos hslash]
    refine .quiet ?_ ⟨hmode.flags, ?_, Nat.one_pos⟩ rfl rfl rfl rfl (by split <;> decide)
    · rw [hccst]
      exact pgCSStat_headD hslash.2 (by decide)
    · exact congrArg Nat.succ hlevel
  rw [if_neg hslash]
  by_cases hhyphen : c = hyphen ∧ rest.headD 0 = hyphen
  · have hdelim : c ≠ semicolon := by rw [hhyphen.1]; decide
    rw [if_pos hhyphen, if_neg hdelim, if_pos hhyphen]
    refine .quiet ?_ ⟨?_, hlevel, trivial⟩ rfl rfl rfl rfl
    · rw [hccst]
      exact pgCSStat_headD hhyphen.2 (by decide)
    · simp only [ScanState.flags, Mode.flags, hlit, hident, hdq, hdol, hesc]
  rw [if_neg hhyphen]
  by_cases hdelim : c = semicolon
  · rw [if_pos hdelim, if_pos hdelim]
    exact ⟨hccst, ⟨hmode.flags, hlevel, trivial⟩, rfl, rfl, (Bool.or_true _).symm, rfl, rfl⟩
  rw [if_neg hdelim, if_neg hdelim, if_neg hhyphen, if_neg hslash,
    if_neg (by rw [hc]; exact Bool.false_ne_true)]
  exact .quiet hccst hmode rfl rfl rfl rfl

/-- The last byte has nothing to do with the mode. -/
theorem ScanState.InMode.withBchar {mode : Mode} (h : st.InMode mode) (c : UInt8) :
    ScanState.InMode { st with bchar := c } mode where
  flags := h.flags
  level := h.level
  keeps := by
    have hkeeps := h.keeps
    cases mode <;> exact hkeeps

theorem Scanned.noteLast {out : Mode × Nat × Event} {skip : Nat}
    (h : Scanned st pos out st' skip) (c : UInt8) :
    Scanned st pos out (if isNotSpace c then { st' with bchar := c } else st') skip := by
  split
  · exact ⟨h.ccst, h.mode.withBchar c, h.skip_eq, h.numP, h.delFound, h.multi, h.nextCmd⟩
  · exact h

/-- A byte that belongs to no word. -/
theorem scanInside_scanned {mode : Mode} (hescape : escape ≠ literalQuote) (hccst : st.ccst = 0)
    (hmode : st.InMode mode) (hword : mode ≠ .word) :
    Scanned st pos (lexMode ccsc 1 escape prev c rest mode)
      (scanInside ccsc escape true pos prev c rest st).1
      (scanInside ccsc escape true pos prev c rest st).2 := by
  have hlevel := hmode.level
  have hkeeps := hmode.keeps
  have hflags := hmode.flags
  cases mode <;>
    simp only [ScanState.flags, Mode.flags, List.cons.injEq, and_true] at hflags <;>
    obtain ⟨hlit, hident, hdq, hdol, hesc, hline⟩ := hflags <;>
    simp only [scanInside, lexMode, hlit, hident, hdq, hdol, hesc, hline, hlevel, Mode.level,
      Bool.false_eq_true, if_true, if_false, Nat.lt_irrefl]
  case word => exact absurd rfl hword
  case idle =>
    by_cases hc : isAlnum c = true
    · rw [if_pos hc, lexIdle_word hc]
      exact .quiet hccst ⟨rfl, rfl, trivial⟩ rfl rfl rfl rfl
    · rw [if_neg hc]
      exact (scanOther_scanned hescape hccst hmode (Bool.not_eq_true _ ▸ hc)).noteLast _
  case literal esc =>
    obtain ⟨rfl, hne⟩ := hkeeps
    by_cases hquote : c = literalQuote
    · rw [if_pos hquote, if_neg (hquote ▸ hne.symm), if_pos hquote]
      exact .quiet hccst ⟨rfl, rfl, trivial⟩ rfl rfl rfl rfl
    · rw [if_neg hquote, if_neg hquote]
      split
      · exact .quiet hccst ⟨rfl, rfl, rfl, hne⟩ rfl rfl rfl rfl
      · exact .quiet hccst hmode rfl rfl rfl rfl
  case escaped esc => exact .quiet hccst ⟨rfl, rfl, hkeeps⟩ rfl rfl rfl rfl
  case dquote =>
    split
    · exact .quiet hccst ⟨rfl, rfl, trivial⟩ rfl rfl rfl rfl
    · exact .quiet hccst hmode rfl rfl rfl rfl
  case dollar tag =>
    obtain rfl : st.tag = tag := hkeeps
    split
    · exact .quiet hccst ⟨rfl, rfl, trivial⟩ rfl rfl rfl rfl
    · exact .quiet hccst hmode rfl rfl rfl rfl
  case line =>
    split
    · exact .quiet hccst ⟨rfl, rfl, trivial⟩ rfl rfl rfl rfl
    · exact .quiet hccst hmode rfl rfl rfl rfl
  case comment level =>
    have hpos : 0 < level := hkeeps
    rw [if_pos hpos]
    split
    · next hopen =>
      refine .quiet ?_ ⟨rfl, rfl, Nat.succ_pos _⟩ rfl rfl rfl rfl
      rw [hccst]
      exact pgCSStat_headD hopen.2 (by decide)
    · split
      · next hclose =>
        refine .quiet ?_ ?_ rfl rfl rfl rfl
        · rw [hccst]
          exact pgCSStat_headD hclose.2 (by decide)
        · split
          · next hlt => exact ⟨rfl, rfl, Nat.sub_pos_of_lt hlt⟩
          · next hlt => exact ⟨rfl, Nat.sub_eq_zero_of_le (Nat.not_lt.1 hlt), trivial⟩
      · exact .quiet hccst hmode rfl rfl rfl rfl

/-- A byte of its own. -/
theorem scanChar_scanned {mode : Mode} (hescape : escape ≠ literalQuote) (hccst : st.ccst = 0)
    (hmode : st.InMode mode) :
    Scanned st pos (lexMode ccsc 1 escape prev c rest mode)
      (scanChar ccsc escape true pos prev c rest st).1
      (scanChar ccsc escape true pos prev c rest st).2 := by
  have hflags := hmode.flags
  by_cases hword : mode = .word
  · subst hword
    simp only [ScanState.flags, Mode.flags, List.cons.injEq, and_true] at hflags
    obtain ⟨hlit, hident, hdq, hdol, hesc, hline⟩ := hflags
    rw [scanChar]
    by_cases hc : isAlnum c ∨ c = dollarQuote ∨ c = underscore
    · have hchar : isWordChar c = true := by
        rw [isWordChar, Bool.or_eq_true, Bool.or_eq_true, decide_eq_true_eq, decide_eq_true_eq,
          or_assoc]
        exact hc
      rw [if_pos ⟨hident, hc⟩, lexMode, if_pos hchar]
      exact .quiet hccst ⟨hmode.flags, hmode.level, trivial⟩ rfl rfl rfl rfl
    · have hchar : ¬isWordChar c = true := by
        rw [isWordChar, Bool.or_eq_true, Bool.or_eq_true, decide_eq_true_eq, decide_eq_true_eq,
          or_assoc]
        exact hc
      have hidle : ScanState.InMode { st with inIdentKeyword := false } .idle := by
        refine ⟨?_, hmode.level, trivial⟩
        simp only [ScanState.flags, Mode.flags, hlit, hdq, hdol, hesc, hline]
      have h := @scanInside_scanned ccsc escape { st with inIdentKeyword := false } pos prev c rest
        .idle hescape hccst hidle Mode.noConfusion
      rw [if_neg fun h ↦ hc h.2, lexMode, if_neg hchar]
      exact ⟨h.ccst, h.mode, h.skip_eq, h.numP, h.delFound, h.multi, h.nextCmd⟩
  · have hident : st.inIdentKeyword = false := by
      cases mode <;> simp only [ScanState.flags, Mode.flags, List.cons.injEq] at hflags <;>
        first | exact hflags.2.1 | exact absurd rfl hword
    have hsame : { st with inIdentKeyword := false } = st := by rw [← hident]
    rw [scanChar, if_neg (by rw [hident]; exact fun h ↦ Bool.false_ne_true h.1), hsame]
    exact scanInside_scanned hescape hccst hmode hword

/-- A byte of a multibyte character begins a word outside of quotes and comments. -/
theorem scanMultibyte_inMode {mode : Mode} (hmode : st.InMode mode) (c : UInt8) :
    (scanMultibyte st c).InMode (if mode = .idle then .word else mode) ∧
      (scanMultibyte st c).ccst = st.ccst ∧ (scanMultibyte st c).numP = st.numP ∧
      (scanMultibyte st c).delFound = st.delFound ∧ (scanMultibyte st c).multi = st.multi ∧
      (scanMultibyte st c).nextCmd = st.nextCmd := by
  obtain ⟨st1, hst1, hmode1, hsame⟩ : ∃ st1,
      st1 = (if 0x80 ≤ c then { st with bchar := c } else st) ∧ st1.InMode mode ∧
      st1.ccst = st.ccst ∧ st1.numP = st.numP ∧ st1.delFound = st.delFound ∧
      st1.multi = st.multi ∧ st1.nextCmd = st.nextCmd := by
    refine ⟨_, rfl, ?_⟩
    split
    · exact ⟨hmode.withBchar c, rfl, rfl, rfl, rfl, rfl⟩
    · exact ⟨hmode, rfl, rfl, rfl, rfl, rfl⟩
  have hlevel := hmode1.level
  have hkeeps := hmode1.keeps
  have hflags := hmode1.flags
  rw [scanMultibyte, ← hst1]
  cases mode <;>
    simp only [ScanState.flags, Mode.flags, List.cons.injEq, and_true] at hflags <;>
    obtain ⟨hlit, hident, hdq, hdol, hesc, hline⟩ := hflags <;>
    simp only [hlit, hdq, hdol, hesc, hline, hlevel, Mode.level, Bool.or_self, Bool.or_true,
      Bool.or_false, Nat.lt_irrefl, decide_false, Bool.false_eq_true, if_true, if_false,
      reduceCtorEq]
  case idle =>
    refine ⟨⟨?_, rfl, trivial⟩, hsame⟩
    simp only [ScanState.flags, Mode.flags]
  case word =>
    refine ⟨⟨?_, rfl, trivial⟩, hsame⟩
    simp only [ScanState.flags, Mode.flags]
  case comment level =>
    have hpos : 0 < level := hkeeps
    rw [decide_eq_true hpos, Bool.or_true, if_pos rfl]
    exact ⟨hmode1, hsame⟩
  all_goals exact ⟨hmode1, hsame⟩

end

/-! ## The whole query -/

/-- The rules up to the first semicolon. -/
def firstPiece (events : List Event) : List Event := events.takeWhile (· ≠ .delim)

theorem firstPiece_cons {e : Event} (h : e ≠ .delim) (events : List Event) :
    firstPiece (e :: events) = e :: firstPiece events :=
  List.takeWhile_cons_of_pos (decide_eq_true h)

theorem eventsAt_cons_of_ne {event e : Event} (h : e ≠ event) (offset : Nat)
    (events : List Event) : eventsAt event offset (e :: events) = eventsAt event (offset + 1) events :=
  if_neg h

section

variable {ccsc : CharSet} {escape : UInt8} {st : ScanState} {pos : Nat} {prev : UInt8}

/-- The loop at a byte of a multibyte character. -/
theorem scanLoop_multibyte {c : UInt8} {rest : List UInt8} (h0 : c ≠ 0)
    (h : mbcsNonAscii (pgCSStat st.ccst c ccsc) c = true) :
    scanLoop ccsc escape true pos 0 prev st (c :: rest) =
      scanLoop ccsc escape true (pos + 1) 0 c
        (scanMultibyte { st with ccst := pgCSStat st.ccst c ccsc } c) rest := by
  rw [scanLoop, if_neg h0]
  exact if_pos h

/-- The loop at a byte of its own that does not end it. -/
theorem scanLoop_char {c : UInt8} {rest : List UInt8} (h0 : c ≠ 0)
    (h : mbcsNonAscii (pgCSStat st.ccst c ccsc) c = false)
    (hfound : (!st.multi && st.delFound && isNotSpace c) = false) :
    scanLoop ccsc escape true pos 0 prev st (c :: rest) =
      scanLoop ccsc escape true (pos + 1)
        (scanChar ccsc escape true pos prev c rest { st with ccst := pgCSStat st.ccst c ccsc }).2 c
        (scanChar ccsc escape true pos prev c rest
          { st with ccst := pgCSStat st.ccst c ccsc }).1 rest := by
  rw [scanLoop, if_neg h0]
  simp only [h, hfound, Bool.false_eq_true, if_false, Bool.false_and]

/-- The walk has nothing to do with the mode. -/
theorem ScanState.InMode.withCcst {mode : Mode} (h : st.InMode mode) (ccst : Nat) :
    ScanState.InMode { st with ccst := ccst } mode where
  flags := h.flags
  level := h.level
  keeps := by
    have hkeeps := h.keeps
    cases mode <;> exact hkeeps

/-- Behind a semicolon the scanner finds nothing any more. -/
theorem scanLoop_found {text : List UInt8} {mode : Mode} (hescape : escape ≠ literalQuote)
    (hmode : st.InMode mode) (hidle : mode = .idle ∨ mode = .word) (hfound : st.delFound = true)
    (hmulti : st.multi = false) :
    (scanLoop ccsc escape true pos 0 prev st text).numP = st.numP ∧
      (scanLoop ccsc escape true pos 0 prev st text).nextCmd = st.nextCmd := by
  induction text generalizing st pos prev mode with
  | nil => exact ⟨rfl, rfl⟩
  | cons c rest ih =>
    by_cases h0 : c = 0
    · rw [scanLoop, if_pos h0]
      exact ⟨rfl, rfl⟩
    have hmode' := hmode.withCcst (pgCSStat st.ccst c ccsc)
    cases hascii : mbcsNonAscii (pgCSStat st.ccst c ccsc) c with
    | true =>
      obtain ⟨hm, -, hnum, hdel, hmul, hnext⟩ := scanMultibyte_inMode hmode' c
      have hword : (if mode = .idle then Mode.word else mode) = .word := by
        rcases hidle with rfl | rfl <;> rfl
      obtain ⟨hnum', hnext'⟩ := @ih _ (pos + 1) c _ hm (Or.inr hword) (hdel.trans hfound)
        (hmul.trans hmulti)
      rw [scanLoop_multibyte h0 hascii]
      exact ⟨hnum'.trans hnum, hnext'.trans hnext⟩
    | false =>
      cases hspace : isNotSpace c with
      | true =>
        rw [scanLoop, if_neg h0]
        simp only [hascii, hfound, hmulti, hspace, Bool.false_eq_true, if_false, Bool.not_false,
          Bool.and_self, if_true]
        exact ⟨trivial, trivial⟩
      | false =>
        have hc : isSpace c = true := by
          rw [isNotSpace, Bool.and_eq_false_iff, decide_eq_false_iff_not, Bool.not_eq_false'] at hspace
          exact hspace.resolve_left fun h ↦ h h0
        have hout : lexMode ccsc 1 escape prev c rest mode = (.idle, 0, .other) := by
          obtain ⟨hi, hw⟩ := @lexIdle_space ccsc 1 escape c hc prev rest
          rcases hidle with rfl | rfl
          · exact hi
          · rw [lexMode, if_neg (by rw [hw]; exact Bool.false_ne_true)]
            exact hi
        have h := @scanChar_scanned ccsc escape { st with ccst := pgCSStat st.ccst c ccsc } pos prev
          c rest mode hescape (mbcsNonAscii_eq_false.1 hascii).1 hmode'
        rw [hout] at h
        rw [scanLoop_char h0 hascii (by rw [hspace, Bool.and_false]), h.skip_eq]
        obtain ⟨hnum', hnext'⟩ := @ih _ (pos + 1) c _ h.mode (Or.inl rfl)
          (by rw [h.delFound, hfound]; rfl) (h.multi.trans hmulti)
        exact ⟨hnum'.trans h.numP, hnext'.trans h.nextCmd⟩

/-- Up to the first semicolon the scanner counts the markers of the rules, in 16 bits. -/
theorem scanLoop_events {text : List UInt8} {s : LexState} (hescape : escape ≠ literalQuote)
    (htext : 0 ∉ text) (hmode : st.InMode s.mode) (hccst : st.ccst = s.ccst)
    (hfound : st.delFound = false) (hmulti : st.multi = false) (hnext : st.nextCmd = none)
    (hnum : st.numP.bmod (2 ^ 16) = st.numP) :
    (scanLoop ccsc escape true pos s.skip prev st text).numP =
        (st.numP + (firstPiece (lexEvents ccsc 1 escape prev s text)).count .marker).bmod (2 ^ 16) ∧
      (scanLoop ccsc escape true pos s.skip prev st text).nextCmd =
        (eventsAt .delim pos (lexEvents ccsc 1 escape prev s text)).head? := by
  induction text generalizing st pos prev s with
  | nil =>
    rw [lexEvents, scanLoop]
    exact ⟨hnum.symm.trans (by rw [firstPiece, List.takeWhile_nil, List.count_nil]; simp), hnext⟩
  | cons c rest ih =>
    have hrest : 0 ∉ rest := fun h ↦ htext (List.mem_cons_of_mem _ h)
    have h0 : c ≠ 0 := fun h ↦ htext (h ▸ List.mem_cons_self)
    obtain ⟨ccst, mode, skip⟩ := s
    obtain rfl : st.ccst = ccst := hccst
    rw [lexEvents_cons]
    cases skip with
    | succ skip =>
      have hstep : lexStep ccsc 1 escape prev c rest ⟨st.ccst, mode, skip + 1⟩ =
          (⟨st.ccst, mode, skip⟩, .other) := rfl
      rw [hstep, firstPiece_cons Event.noConfusion, eventsAt_cons_of_ne Event.noConfusion, scanLoop,
        List.count_cons_of_ne Event.noConfusion]
      exact @ih st (pos + 1) c ⟨st.ccst, mode, skip⟩ hrest hmode rfl hfound hmulti hnext hnum
    | zero =>
      have hmode' := hmode.withCcst (pgCSStat st.ccst c ccsc)
      cases hascii : mbcsNonAscii (pgCSStat st.ccst c ccsc) c with
      | true =>
        obtain ⟨hm, hst, hnum', hdel, hmul, hnext'⟩ := scanMultibyte_inMode hmode' c
        rw [lexStep_nonAscii hascii, firstPiece_cons Event.noConfusion,
          eventsAt_cons_of_ne Event.noConfusion, scanLoop_multibyte h0 hascii,
          List.count_cons_of_ne Event.noConfusion]
        obtain ⟨h1, h2⟩ := @ih _ (pos + 1) c ⟨pgCSStat st.ccst c ccsc, _, 0⟩ hrest hm hst
          (hdel.trans hfound) (hmul.trans hmulti) (hnext'.trans hnext) (by rw [hnum']; exact hnum)
        rw [hnum'] at h1
        exact ⟨h1, h2⟩
      | false =>
        have h := @scanChar_scanned ccsc escape { st with ccst := pgCSStat st.ccst c ccsc } pos prev
          c rest mode hescape (mbcsNonAscii_eq_false.1 hascii).1 hmode'
        rw [lexStep_ascii hascii, scanLoop_char h0 hascii (by rw [hfound, Bool.and_false]; rfl),
          h.skip_eq]
        generalize hout : lexMode ccsc 1 escape prev c rest mode = out at h
        by_cases hdelim : out.2.2 = .delim
        · have hidle := lexMode_delim (by rw [hout]; exact hdelim)
          rw [hout] at hidle
          subst hidle
          obtain ⟨h1, h2⟩ := @scanLoop_found ccsc escape _ (pos + 1) c rest _ hescape h.mode
            (Or.inl rfl) (by rw [h.delFound]; exact Bool.or_true _) (h.multi.trans hmulti)
          refine ⟨h1.trans (h.numP.trans ?_), h2.trans h.nextCmd⟩
          rw [firstPiece, List.takeWhile_cons_of_neg (by decide), List.count_nil]
          simpa using hnum.symm
        · rw [firstPiece_cons hdelim, eventsAt_cons_of_ne hdelim]
          obtain ⟨h1, h2⟩ := @ih _ (pos + 1) c ⟨0, out.1, out.2.1⟩ hrest h.mode h.ccst
            (by rw [h.delFound, decide_eq_false hdelim, hfound]; rfl) (h.multi.trans hmulti)
            (by rw [h.nextCmd, if_neg hdelim, hnext]) (by
              rw [h.numP]
              split
              · exact Int.bmod_bmod
              · exact hnum)
          refine ⟨h1.trans ?_, h2⟩
          rw [h.numP]
          by_cases hmarker : out.2.2 = .marker
          · rw [if_pos hmarker, hmarker, List.count_cons_self, Int.bmod_add_bmod]
            rw [Nat.cast_succ, Int.add_right_comm, Int.add_assoc]
          · rw [if_neg hmarker, List.count_cons_of_ne hmarker]

end

end PsqlOdbc
