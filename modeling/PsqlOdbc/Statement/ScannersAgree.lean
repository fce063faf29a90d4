import PsqlOdbc.Convert.TokensLoop
import PsqlOdbc.Statement.ScanQuery

/-!
# The two scanners of a statement

The number of parameters comes from `SC_scanQueryAndCountParams`, and the parameters are put in by
`inner_process_tokens`.  The two agree on a piece of a statement unless a comment in it is opened
by `/*/`, which is an opening and an end for the second one.
-/

namespace PsqlOdbc

section

variable {ccsc : CharSet} {escape : UInt8}

/-! ## The opening of a comment -/

/-- The states of the rules with the two ways to take an opening, before `text`. -/
inductive Opened : LexState → LexState → List UInt8 → Prop
  | same (s : LexState) (text : List UInt8) : Opened s s text
  | comment {text : List UInt8} (h : text.headD 0 ≠ slash) :
      Opened ⟨0, .comment 1, 0⟩ ⟨0, .comment 1, 1⟩ (asterisk :: text)
  | line (text : List UInt8) : Opened ⟨0, .line, 0⟩ ⟨0, .line, 1⟩ (hyphen :: text)

/-- The opening of a block comment. -/
theorem lexIdle_comment {rest : List UInt8} (h : rest.headD 0 = asterisk) (opener : Nat)
    (prev : UInt8) :
    lexIdle ccsc opener escape prev slash rest =
      (.comment 1, opener, if rest.tail.headD 0 = slash then .overlap else .other) := by
  have hnone := @strnicmpEq_identity slash rest (by decide)
  simp +decide only [lexIdle, hnone, h, if_true, if_false]

/-- The opening of a line comment. -/
theorem lexIdle_line {rest : List UInt8} (h : rest.headD 0 = hyphen) (opener : Nat)
    (prev : UInt8) :
    lexIdle ccsc opener escape prev hyphen rest = (.line, opener, .other) := by
  have hnone := @strnicmpEq_identity hyphen rest (by decide)
  simp +decide only [lexIdle, hnone, h, if_true, if_false]

/-- Nothing else depends on the way an opening is taken. -/
theorem lexIdle_other {c : UInt8} {rest : List UInt8}
    (hcomment : ¬(c = slash ∧ rest.headD 0 = asterisk))
    (hline : ¬(c = hyphen ∧ rest.headD 0 = hyphen)) (prev : UInt8) :
    lexIdle ccsc 1 escape prev c rest = lexIdle ccsc 0 escape prev c rest := by
  rw [lexIdle, lexIdle, if_neg hcomment, if_neg hcomment, if_neg hline, if_neg hline]

theorem eq_cons_of_headD {d : UInt8} {rest : List UInt8} (h : rest.headD 0 = d) (hd : d ≠ 0) :
    rest = d :: rest.tail := by
  cases rest with
  | nil => exact absurd h.symm hd
  | cons e rest => exact congrArg (· :: rest) h

/-- What a byte is does not depend on how an opening is taken. -/
theorem lexMode_event (prev c : UInt8) (rest : List UInt8) (mode : Mode) :
    (lexMode ccsc 1 escape prev c rest mode).2.2 = (lexMode ccsc 0 escape prev c rest mode).2.2 := by
  have hidle : (lexIdle ccsc 1 escape prev c rest).2.2 = (lexIdle ccsc 0 escape prev c rest).2.2 := by
    by_cases hcomment : c = slash ∧ rest.headD 0 = asterisk
    · rw [hcomment.1, lexIdle_comment hcomment.2, lexIdle_comment hcomment.2]
    · by_cases hline : c = hyphen ∧ rest.headD 0 = hyphen
      · rw [hline.1, lexIdle_line hline.2, lexIdle_line hline.2]
      · rw [lexIdle_other hcomment hline]
  cases mode with
  | idle => exact hidle
  | word =>
    rw [lexMode, lexMode]
    split
    · rfl
    · exact hidle
  | literal esc | escaped esc | dquote | line | dollar tag | comment level => rfl

/-- The bytes of an opening are taken by one step or by two. -/
theorem lexIdle_opened {prev c : UInt8} {rest : List UInt8}
    (hover : (lexIdle ccsc 0 escape prev c rest).2.2 ≠ .overlap) :
    (lexIdle ccsc 1 escape prev c rest).2.2 = (lexIdle ccsc 0 escape prev c rest).2.2 ∧
      Opened ⟨0, (lexIdle ccsc 0 escape prev c rest).1, (lexIdle ccsc 0 escape prev c rest).2.1⟩
        ⟨0, (lexIdle ccsc 1 escape prev c rest).1, (lexIdle ccsc 1 escape prev c rest).2.1⟩
        rest := by
  by_cases hcomment : c = slash ∧ rest.headD 0 = asterisk
  · obtain ⟨rfl, hhead⟩ := hcomment
    rw [lexIdle_comment hhead] at hover
    rw [lexIdle_comment hhead, lexIdle_comment hhead]
    refine ⟨rfl, ?_⟩
    rw [eq_cons_of_headD hhead (by decide)]
    exact .comment fun h ↦ hover (if_pos h)
  · by_cases hline : c = hyphen ∧ rest.headD 0 = hyphen
    · obtain ⟨rfl, hhead⟩ := hline
      rw [lexIdle_line hhead, lexIdle_line hhead]
      refine ⟨rfl, ?_⟩
      rw [eq_cons_of_headD hhead (by decide)]
      exact .line _
    · rw [lexIdle_other hcomment hline]
      exact ⟨rfl, .same _ _⟩

theorem lexMode_opened {prev c : UInt8} {rest : List UInt8} {mode : Mode}
    (hover : (lexMode ccsc 0 escape prev c rest mode).2.2 ≠ .overlap) :
    (lexMode ccsc 1 escape prev c rest mode).2.2 = (lexMode ccsc 0 escape prev c rest mode).2.2 ∧
      Opened ⟨0, (lexMode ccsc 0 escape prev c rest mode).1,
          (lexMode ccsc 0 escape prev c rest mode).2.1⟩
        ⟨0, (lexMode ccsc 1 escape prev c rest mode).1,
          (lexMode ccsc 1 escape prev c rest mode).2.1⟩ rest := by
  cases mode with
  | idle => exact lexIdle_opened hover
  | word =>
    rw [lexMode] at hover
    rw [lexMode, lexMode]
    split
    · exact ⟨rfl, .same _ _⟩
    · next hc =>
      rw [if_neg hc] at hover
      exact lexIdle_opened hover
  | literal esc | escaped esc | dquote | line | dollar tag | comment level => exact ⟨rfl, .same _ _⟩

/-- The second byte of an opening neither closes the comment nor opens another one. -/
theorem lexStep_secondAsterisk {prev : UInt8} {rest : List UInt8} (h : rest.headD 0 ≠ slash) :
    lexStep ccsc 0 escape prev asterisk rest ⟨0, .comment 1, 0⟩ = (⟨0, .comment 1, 0⟩, .other) := by
  rw [lexStep_ascii (mbcsNonAscii_eq_false.2
    ⟨pgCSStat_ascii (settled_zero ccsc) (by decide), by decide⟩), lexMode,
    if_neg (fun h ↦ absurd h.1 (by decide)), if_neg (fun h' ↦ h h'.2)]
  rfl

theorem lexStep_secondHyphen {prev : UInt8} {rest : List UInt8} :
    lexStep ccsc 0 escape prev hyphen rest ⟨0, .line, 0⟩ = (⟨0, .line, 0⟩, .other) := by
  rw [lexStep_ascii (mbcsNonAscii_eq_false.2
    ⟨pgCSStat_ascii (settled_zero ccsc) (by decide), by decide⟩), lexMode, if_neg (by decide)]
  rfl

/-- One byte. -/
theorem lexStep_opened {s0 s1 : LexState} {prev c : UInt8} {rest : List UInt8}
    (h : Opened s0 s1 (c :: rest)) (hover : (lexStep ccsc 0 escape prev c rest s0).2 ≠ .overlap) :
    (lexStep ccsc 1 escape prev c rest s1).2 = (lexStep ccsc 0 escape prev c rest s0).2 ∧
      Opened (lexStep ccsc 0 escape prev c rest s0).1 (lexStep ccsc 1 escape prev c rest s1).1
        rest := by
  cases h with
  | same =>
    obtain ⟨ccst, mode, skip⟩ := s0
    cases skip with
    | succ skip => exact ⟨rfl, .same _ _⟩
    | zero =>
      cases hascii : mbcsNonAscii (pgCSStat ccst c ccsc) c with
      | true =>
        rw [lexStep_nonAscii hascii, lexStep_nonAscii hascii]
        exact ⟨rfl, .same _ _⟩
      | false =>
        rw [lexStep_ascii hascii] at hover
        rw [lexStep_ascii hascii, lexStep_ascii hascii]
        exact lexMode_opened hover
  | comment hslash =>
    rw [lexStep_secondAsterisk hslash]
    exact ⟨rfl, .same _ _⟩
  | line =>
    rw [lexStep_secondHyphen]
    exact ⟨rfl, .same _ _⟩

theorem lexStep_event {s0 s1 : LexState} {prev c : UInt8} {rest : List UInt8}
    (h : Opened s0 s1 (c :: rest)) :
    (lexStep ccsc 1 escape prev c rest s1).2 = (lexStep ccsc 0 escape prev c rest s0).2 := by
  by_cases hover : (lexStep ccsc 0 escape prev c rest s0).2 = .overlap
  · cases h with
    | same =>
      obtain ⟨ccst, mode, skip⟩ := s0
      cases skip with
      | succ skip => rfl
      | zero =>
        cases hascii : mbcsNonAscii (pgCSStat ccst c ccsc) c with
        | true => rw [lexStep_nonAscii hascii, lexStep_nonAscii hascii]
        | false =>
          rw [lexStep_ascii hascii, lexStep_ascii hascii]
          exact lexMode_event _ _ _ _
    | comment hslash =>
      rw [lexStep_secondAsterisk hslash] at hover
      cases hover
    | line =>
      rw [lexStep_secondHyphen] at hover
      cases hover
  · exact (lexStep_opened h hover).1

/-- A whole text. -/
theorem lexEvents_opened {s0 s1 : LexState} {text : List UInt8} (h : Opened s0 s1 text)
    {prev : UInt8} (hover : .overlap ∉ lexEvents ccsc 1 escape prev s1 text) :
    lexEvents ccsc 0 escape prev s0 text = lexEvents ccsc 1 escape prev s1 text := by
  induction text generalizing s0 s1 prev with
  | nil => rfl
  | cons c rest ih =>
    rw [lexEvents_cons] at hover
    have hhead : (lexStep ccsc 0 escape prev c rest s0).2 ≠ .overlap := by
      intro h'
      rw [← lexStep_event h] at h'
      exact hover (h' ▸ List.mem_cons_self)
    obtain ⟨hevent, hnext⟩ := lexStep_opened h hhead
    rw [lexEvents_cons, lexEvents_cons, hevent,
      ih hnext fun hmem ↦ hover (List.mem_cons_of_mem _ hmem)]

/-- Up to the first semicolon. -/
theorem lexEvents_opener {s0 s1 : LexState} {text : List UInt8} (h : Opened s0 s1 text)
    {prev : UInt8} (pos : Nat)
    (hover : .overlap ∉ firstPiece (lexEvents ccsc 0 escape prev s0 text)) :
    firstPiece (lexEvents ccsc 1 escape prev s1 text) =
        firstPiece (lexEvents ccsc 0 escape prev s0 text) ∧
      (eventsAt .delim pos (lexEvents ccsc 1 escape prev s1 text)).head? =
        (eventsAt .delim pos (lexEvents ccsc 0 escape prev s0 text)).head? := by
  induction text generalizing s0 s1 prev pos with
  | nil => exact ⟨rfl, rfl⟩
  | cons c rest ih =>
    rw [lexEvents_cons] at hover
    have hhead : (lexStep ccsc 0 escape prev c rest s0).2 ≠ .overlap := by
      intro h
      rw [h, firstPiece_cons Event.noConfusion] at hover
      exact hover List.mem_cons_self
    obtain ⟨hevent, hnext⟩ := lexStep_opened h hhead
    rw [lexEvents_cons, lexEvents_cons, hevent]
    by_cases hdelim : (lexStep ccsc 0 escape prev c rest s0).2 = .delim
    · rw [hdelim, firstPiece, firstPiece, List.takeWhile_cons_of_neg (by decide),
        List.takeWhile_cons_of_neg (by decide)]
      exact ⟨rfl, rfl⟩
    · rw [firstPiece_cons hdelim] at hover
      obtain ⟨h1, h2⟩ := ih hnext (pos + 1) fun hmem ↦ hover (List.mem_cons_of_mem _ hmem)
      rw [firstPiece_cons hdelim, firstPiece_cons hdelim, eventsAt_cons_of_ne hdelim,
        eventsAt_cons_of_ne hdelim, h1]
      exact ⟨rfl, h2⟩

end

/-! ## The markers of a piece -/

/-- The markers in front of the first semicolon. -/
def pieceMarkers (resolved ended : List Nat) : List Nat :=
  resolved.filter fun i ↦ ended.head?.all fun j ↦ decide (i < j)

theorem length_pieceMarkers (pos : Nat) (events : List Event) :
    (pieceMarkers (eventsAt .marker pos events) (eventsAt .delim pos events)).length =
      (firstPiece events).count .marker := by
  induction events generalizing pos with
  | nil => rfl
  | cons e events ih =>
    by_cases hdelim : e = .delim
    · subst hdelim
      have hnone : ∀ i ∈ eventsAt .marker (pos + 1) events, ¬i < pos := fun i hi ↦ by
        have hle := (mem_eventsAt hi).1
        omega
      rw [eventsAt_cons_of_ne Event.noConfusion, eventsAt, if_pos rfl, pieceMarkers, List.head?_cons,
        firstPiece, List.takeWhile_cons_of_neg (by decide), List.count_nil, List.length_eq_zero_iff,
        List.filter_eq_nil_iff]
      exact fun i hi h ↦ hnone i hi (of_decide_eq_true h)
    · have hih := ih (pos + 1)
      rw [firstPiece_cons hdelim, eventsAt_cons_of_ne hdelim]
      by_cases hmarker : e = .marker
      · subst hmarker
        have hfirst : (eventsAt .delim (pos + 1) events).head?.all (fun j ↦ decide (pos < j)) := by
          cases h : (eventsAt .delim (pos + 1) events).head? with
          | none => rfl
          | some j =>
            have hle := (mem_eventsAt (List.mem_of_head? h)).1
            exact decide_eq_true hle
        rw [eventsAt, if_pos rfl, pieceMarkers, List.filter_cons, if_pos hfirst, List.length_cons,
          List.count_cons_self, ← hih, pieceMarkers]
      · rw [eventsAt_cons_of_ne hmarker, List.count_cons_of_ne hmarker, hih]

/-- What follows the first semicolon does not belong to the piece. -/
theorem firstPiece_append {events : List Event} (h : .delim ∈ events) (events' : List Event) :
    firstPiece (events ++ events') = firstPiece events := by
  induction events with
  | nil => cases h
  | cons e events ih =>
    by_cases hdelim : e = .delim
    · subst hdelim
      rfl
    · rw [List.cons_append, firstPiece_cons hdelim, firstPiece_cons hdelim,
        ih ((List.mem_cons.1 h).resolve_left fun h ↦ hdelim h.symm)]

theorem eventsAt_ne_nil {event : Event} {events : List Event} {pos : Nat} :
    eventsAt event pos events ≠ [] ↔ event ∈ events := by
  induction events generalizing pos with
  | nil => exact ⟨fun h ↦ absurd rfl h, fun h ↦ by cases h⟩
  | cons e events ih =>
    by_cases h : e = event
    · subst h
      rw [eventsAt, if_pos rfl]
      exact ⟨fun _ ↦ List.mem_cons_self, fun _ ↦ List.cons_ne_nil _ _⟩
    · rw [eventsAt_cons_of_ne h, ih, List.mem_cons]
      exact ⟨Or.inr, fun hmem ↦ hmem.resolve_left fun heq ↦ h heq.symm⟩

theorem eventsAt_add (event : Event) (events : List Event) (k pos : Nat) :
    eventsAt event (k + pos) events = (eventsAt event pos events).map (k + ·) := by
  induction events generalizing pos with
  | nil => rfl
  | cons e events ih =>
    rw [eventsAt, eventsAt, Nat.add_assoc, ih]
    split <;> rfl

/-! ## The scanners agree -/

section

variable {hooks : TokenHooks} {conn : ConnectionClass} {statement : List UInt8} {before : UInt8}
  {statementType : StatementType} {qp qp' : QueryParse} {qb0 qb qb' : TokenBuild}

/-- The loop is at the beginning of a piece: of the statement, or behind a semicolon. -/
def AtPiece (qp : QueryParse) (qb : TokenBuild) : Prop :=
  qp.opos = 0 ∨ 0 < qp.opos ∧ qp.opos - 1 ∈ qb.ended

/-- What the rules say about the piece the loop stands at. -/
def pieceEvents (qp : QueryParse) (qb : TokenBuild) : List Event :=
  firstPiece (lexEvents qp.ccsc 0 (ccGetEscape qb.conn) qp.prevChar ⟨0, .idle, 0⟩ qp.oldPtr)

/-- At its beginning the loop is outside of quotes and comments. -/
theorem qpInitialize_lexes :
    (qpInitialize conn statement before statementType).Lexes ⟨0, .idle, 0⟩ where
  ccst := rfl
  skip := rfl
  mode := ⟨rfl, rfl⟩
  token := .of_end rfl rfl
  settled _ := rfl
  inside h := absurd rfl h

/-- The state outside of quotes and comments is the only one of its kind. -/
theorem QueryParse.Lexes.eq_idle {s : LexState} (h : qp.Lexes s) (hidle : qp.Lexes ⟨0, .idle, 0⟩) :
    s = ⟨0, .idle, 0⟩ := by
  obtain ⟨ccst, mode, skip⟩ := s
  obtain rfl : skip = 0 := h.skip
  obtain rfl : mode = .idle := h.mode.idle_iff.1 (hidle.mode.idle_iff.2 rfl)
  obtain rfl : ccst = 0 := h.settled rfl
  rfl

/-- A piece in which no comment is opened by `/*/`, and which has fewer markers than a
`SQLSMALLINT` can count: `SC_scanQueryAndCountParams` finds as many markers in it as the loop
resolves, and the semicolon at the end where the loop ends the piece. -/
theorem scanQueryAndCountParams_agrees (htext : 0 ∉ statement) (hconn : qb0.conn = conn)
    (hstart : qb0.ended = [])
    (hnone : NoEscapes (qpInitialize conn statement before statementType) qb0 ⟨0, .idle, 0⟩)
    (hpiece : Reaches hooks (qpInitialize conn statement before statementType) qb0 qp qb)
    (hat : AtPiece qp qb) (hreach : Reaches hooks qp qb qp' qb')
    (hpast : qb'.ended ≠ qb.ended ∨ statement.length ≤ qp'.opos)
    (hover : .overlap ∉ pieceEvents qp qb) (hcount : (pieceEvents qp qb).count .marker < 2 ^ 15) :
    ∃ resolved ended, qb'.resolved = qb.resolved ++ resolved ∧ qb'.ended = qb.ended ++ ended ∧
      (scanQueryAndCountParams conn true qp.prevChar qp.oldPtr).1 =
        (pieceMarkers resolved ended).length ∧
      (scanQueryAndCountParams conn true qp.prevChar qp.oldPtr).2.1.map (qp.opos + ·) =
        ended.head? := by
  obtain ⟨s, hf⟩ := hpiece.follows qpInitialize_lexes (Nat.zero_le _) hnone
  have hidle : qp.Lexes ⟨0, .idle, 0⟩ := by
    rcases hat with hpos | ⟨hpos, hended⟩
    · cases hpiece with
      | start => exact qpInitialize_lexes
      | step h hlt hcall => exact absurd hpos (Nat.succ_ne_zero _)
    · exact hpiece.behind qpInitialize_lexes (Nat.zero_le _) hnone hpos hstart hended
  obtain rfl := hf.lexes.eq_idle hidle
  obtain ⟨s', hf'⟩ := hreach.follows hidle (hf.statement ▸ hf.le_length) (hnone.of_follows hf)
  obtain ⟨events, hlen, heq, hres, hended⟩ := hf'.events
  -- The piece ends within the bytes the loop has taken.
  have hfirst : pieceEvents qp qb = firstPiece events ∧
      (eventsAt .delim qp.opos (lexEvents qp.ccsc 0 (ccGetEscape qb.conn) qp.prevChar ⟨0, .idle, 0⟩
        qp.oldPtr)).head? = (eventsAt .delim qp.opos events).head? := by
    rw [pieceEvents, heq]
    rcases hpast with hne | hend
    · have hdelim : .delim ∈ events := by
        rw [← @eventsAt_ne_nil .delim events qp.opos]
        intro hnil
        rw [hended, hnil, List.append_nil] at hne
        exact hne rfl
      rw [firstPiece_append hdelim, eventsAt_append,
        List.head?_append_of_ne_nil _ (eventsAt_ne_nil.2 hdelim)]
      exact ⟨rfl, rfl⟩
    · have hnil : qp'.oldPtr = [] := by
        rw [QueryParse.oldPtr, hf'.statement, hf.statement]
        exact List.drop_eq_nil_of_le hend
      rw [hnil, lexEvents, List.append_nil]
      exact ⟨rfl, rfl⟩
  have hquery : 0 ∉ qp.oldPtr := by
    rw [QueryParse.oldPtr, hf.statement]
    exact fun h ↦ htext (List.mem_of_mem_drop h)
  have hescape : ccGetEscape conn ≠ literalQuote := by
    rcases ccGetEscape_eq conn with h | h <;> rw [h] <;> decide
  obtain ⟨hnum, hnext⟩ := @scanLoop_events conn.ccsc (ccGetEscape conn) {} 0 qp.prevChar qp.oldPtr
    ⟨0, .idle, 0⟩ hescape hquery ⟨rfl, rfl, trivial⟩ rfl rfl rfl rfl rfl
  have hccsc : qp.ccsc = conn.ccsc := hf.ccsc
  have hqb : qb.conn = conn := hf.conn.trans hconn
  rw [pieceEvents, hccsc, hqb] at hover
  obtain ⟨hone, hdelim⟩ := lexEvents_opener (.same _ _) qp.opos hover
  refine ⟨_, _, hres, hended, ?_, ?_⟩
  · have hsmall : ((pieceEvents qp qb).count .marker : Int).bmod (2 ^ 16) =
        (pieceEvents qp qb).count .marker := by
      rw [Int.bmod_eq_of_le] <;> omega
    rw [length_pieceMarkers, ← hfirst.1, ← hsmall, scanQueryAndCountParams, hnum, hone, pieceEvents,
      hccsc, hqb, zero_add]
  · rw [scanQueryAndCountParams, hnext, ← List.head?_map, ← eventsAt_add, Nat.add_zero, hdelim,
      ← hfirst.2, hccsc, hqb]

end

/-! ## A comment that is opened by `/*/` -/

/-- A connection in UTF-8. -/
def utf8Connection : ConnectionClass := ⟨some "on", 9, 4, .utf8, false⟩

/-- Every parameter is 1, and there are no escapes. -/
def oneHooks : TokenHooks := ⟨fun _ _ ↦ none, fun _ _ ↦ [], fun _ _ ↦ some (ascii "1")⟩

/-- A build with two parameters. -/
def twoParameters : TokenBuild :=
  tokenBuildInitialize utf8Connection 0 .replaceParams false 0 2
    [⟨false, none, ascii "::int4"⟩, ⟨false, none, ascii "::int4"⟩]

/-- Both find the marker of the first of two pieces, and the semicolon behind it. -/
theorem scanQueryAndCountParams_agrees_twoPieces :
    ∃ r, processTokens oneHooks 40
        (qpInitialize utf8Connection (ascii "SELECT ?; SELECT ?") 0 .select) twoParameters = some r ∧
      ∃ resolved ended, r.2.resolved = [] ++ resolved ∧ r.2.ended = [] ++ ended ∧
        (scanQueryAndCountParams utf8Connection true 0 (ascii "SELECT ?; SELECT ?")).1 =
          (pieceMarkers resolved ended).length ∧
        (scanQueryAndCountParams utf8Connection true 0 (ascii "SELECT ?; SELECT ?")).2.1.map (0 + ·) =
          ended.head? := by
  have hsemicolon : (processTokens oneHooks 40 (qpInitialize utf8Connection
      (ascii "SELECT ?; SELECT ?") 0 .select) twoParameters).map (·.2.ended) = some [8] := by decide
  obtain ⟨r, hr, hended⟩ := Option.map_eq_some_iff.1 hsemicolon
  have hnone : NoEscapes (qpInitialize utf8Connection (ascii "SELECT ?; SELECT ?") 0 .select)
      twoParameters ⟨0, .idle, 0⟩ := by
    rw [NoEscapes]
    decide
  have htext : 0 ∉ ascii "SELECT ?; SELECT ?" := by decide
  have hpast : r.2.ended ≠ twoParameters.ended := by
    rw [hended]
    exact List.cons_ne_nil _ _
  have hreach := (reaches_of_processTokens .start hr).1
  exact ⟨r, hr, @scanQueryAndCountParams_agrees _ _ _ _ _ _ _ _ twoParameters _ htext rfl rfl hnone
    .start (Or.inl rfl) hreach (Or.inl hpast) (by decide) (by decide)⟩

theorem scanQueryAndCountParams_disagrees :
    (scanQueryAndCountParams utf8Connection true 0 (ascii "SELECT 1 /*/ ? */")).1 = 0 ∧
      (processTokens oneHooks 40
        (qpInitialize utf8Connection (ascii "SELECT 1 /*/ ? */") 0 .select) twoParameters).map
        (fun r ↦ (pieceMarkers r.2.resolved r.2.ended).length) = some 1 := by
  decide

end PsqlOdbc
