import PsqlOdbc.Server.Lexer
import PsqlOdbc.Statement.ScannersAgree

/-!
# The driver's lexical rules and the server's

`misread` lists the bytes that the driver takes for something else than the server does.  Up to
the first of them the two are in step (`Reads`), so that they find the same markers in a statement
that has none.
-/

namespace PsqlOdbc

open Server (Token)

/-! ## Where they differ -/

/-- The rules are outside of quotes and comments. -/
def Server.Token.outside : Token → Bool
  | .space | .word _ | .number | .closed _ _ => true
  | _ => false

/-- An identifier of underscores and dollars, which the driver does not take for a word. -/
def bareWord (text : List UInt8) : Bool := text.all fun c ↦ c = underscore || c = dollarQuote

/-- Whether the driver looks for backslashes in a literal that is opened behind `prev`. -/
def readsBackslash (escape prev : UInt8) : Bool := escape ≠ 0 || prev = literalExt

/-- The driver takes the byte `c` for something else than the server, which is in `token`. -/
def misread (ccsc : CharSet) (escape prev c : UInt8) (rest : List UInt8) (token : Token) : Bool :=
  let read := Server.lexToken ccsc (escape = 0) c rest token
  -- What the driver replaces.
  (token.outside && (c = odbcEscapeStart || strnicmpEq (c :: rest) (ascii "@@identity"))) ||
  -- The opening of a comment is its end too.
  (token.outside && c = slash && rest.headD 0 = asterisk && rest.tail.headD 0 = slash) ||
  -- A lower-case prefix, an identifier that ends in `E`, and a literal that goes on.
  (token.outside && c = literalQuote && read.1 ≠ .literal (readsBackslash escape prev)) ||
  match token with
  -- Tags with underscores, and tags that are numbers.
  | .space | .closed _ _ =>
    c = dollarQuote && findTag (c :: rest) ccsc ≠ Server.dollarTag ccsc (c :: rest)
  | .word text => c = dollarQuote && bareWord text && 0 < findTag (c :: rest) ccsc
  | .number => c = dollarQuote
  -- A carriage return ends a comment.
  | .line | .closedLine _ => c = pgCarriageReturn && rest.headD pgLinefeed ≠ pgLinefeed
  | _ => false

/-- The driver and the server read every byte of a text alike. -/
def ReadsAlike (ccsc : CharSet) (escape : UInt8) : UInt8 → Server.LexState → List UInt8 → Prop
  | _, _, [] => True
  | prev, s, c :: rest =>
    (s.skip = 0 →
      if asciiAt ccsc s.owed (c :: rest) then
        misread ccsc escape prev c rest s.token = false
      else s.token ≠ .escaped) ∧
      ReadsAlike ccsc escape c (Server.lexStep ccsc (escape = 0) c rest s).1 rest

instance decidableReadsAlike (ccsc : CharSet) (escape : UInt8) :
    (prev : UInt8) → (s : Server.LexState) → (text : List UInt8) →
      Decidable (ReadsAlike ccsc escape prev s text)
  | _, _, [] => isTrue trivial
  | _, s, c :: rest =>
    have := decidableReadsAlike ccsc escape c (Server.lexStep ccsc (escape = 0) c rest s).1 rest
    inferInstanceAs (Decidable (_ ∧ _))

/-! ## The tag of a dollar quote -/

theorem owedAfter_ascii {ccsc : CharSet} {k : Nat} {text : List UInt8}
    (h : asciiAt ccsc k text = true) : owedAfter ccsc k text = 0 := by
  simp only [asciiAt, Bool.and_eq_true, decide_eq_true_eq] at h
  obtain ⟨⟨rfl, hlen⟩, -⟩ := h
  rw [owedAfter, if_pos rfl, hlen]

section

variable {ccsc : CharSet} {escape : UInt8}

/-- The end of a tag is a character of its own, as the walk sees it. -/
def TagOk (ccsc : CharSet) (tag : List UInt8) : Prop :=
  ∃ w, tag = dollarQuote :: w ∧ w ≠ [] ∧
    mbcsNonAscii (walkState ccsc 0 w) (w.getLastD 0) = false

theorem findTagLoop_split {ccst pos : Nat} {tag : List UInt8}
    (h : 0 < findTagLoop ccsc ccst pos tag) :
    ∃ w text, tag = w ++ text ∧ findTagLoop ccsc ccst pos tag = pos + w.length + 1 ∧ w ≠ [] ∧
      mbcsNonAscii (walkState ccsc ccst w) (w.getLastD 0) = false := by
  induction tag generalizing ccst pos with
  | nil => exact absurd h (Nat.lt_irrefl 0)
  | cons c rest ih =>
    have hcons : ∀ w : List UInt8, w ≠ [] → (c :: w).getLastD 0 = w.getLastD 0 := by
      intro w hw
      rw [List.getLastD_cons, List.getLastD_eq_getLast?, List.getLastD_eq_getLast?,
        List.getLast?_eq_some_getLast hw]
      rfl
    have hnext : 0 < findTagLoop ccsc (pgCSStat ccst c ccsc) (pos + 1) rest →
        findTagLoop ccsc ccst pos (c :: rest) =
          findTagLoop ccsc (pgCSStat ccst c ccsc) (pos + 1) rest →
        ∃ w text, c :: rest = w ++ text ∧
          findTagLoop ccsc ccst pos (c :: rest) = pos + w.length + 1 ∧ w ≠ [] ∧
          mbcsNonAscii (walkState ccsc ccst w) (w.getLastD 0) = false := by
      intro hpos heq
      obtain ⟨w, text, rfl, hlen, hne, hlast⟩ := ih hpos
      refine ⟨c :: w, text, rfl, ?_, List.cons_ne_nil _ _, ?_⟩
      · rw [heq, hlen, List.length_cons]
        omega
      · rw [hcons w hne, walkState_cons]
        exact hlast
    rw [findTagLoop] at h
    by_cases hascii : mbcsNonAscii (pgCSStat ccst c ccsc) c = true
    · rw [if_pos hascii] at h
      exact hnext h (by rw [findTagLoop, if_pos hascii])
    · rw [if_neg hascii] at h
      by_cases hdollar : c = dollarQuote
      · refine ⟨[c], rest, rfl, ?_, List.cons_ne_nil _ _, Bool.not_eq_true _ ▸ hascii⟩
        rw [findTagLoop, if_neg hascii, if_pos hdollar]
        rfl
      · rw [if_neg hdollar] at h
        by_cases halnum : isAlnum c = true
        · rw [if_pos halnum] at h
          exact hnext h (by rw [findTagLoop, if_neg hascii, if_neg hdollar, if_pos halnum])
        · rw [if_neg halnum] at h
          exact absurd h (Nat.lt_irrefl 0)

theorem tagOk_take {rest : List UInt8} (h : 0 < findTag (dollarQuote :: rest) ccsc) :
    TagOk ccsc ((dollarQuote :: rest).take (findTag (dollarQuote :: rest) ccsc)) := by
  obtain ⟨w, text, heq, hlen, hne, hlast⟩ := findTagLoop_split h
  have htag : findTag (dollarQuote :: rest) ccsc = w.length + 1 := by
    rw [findTag, List.tail_cons]
    rw [List.tail_cons] at hlen
    omega
  refine ⟨w, ?_, hne, hlast⟩
  rw [List.tail_cons] at heq
  rw [htag, List.take_succ_cons, heq, List.take_left]

/-- The walk and the server agree again behind bytes that end with a character of its own. -/
theorem walkAll_over {st k : Nat} {w text : List UInt8} (hw : w ≠ [])
    (h : WalkAll ccsc (WalkAgreesAt ccsc) st k (w ++ text))
    (hlast : mbcsNonAscii (walkState ccsc st w) (w.getLastD 0) = false) :
    WalkAll ccsc (WalkAgreesAt ccsc) 0 0 text := by
  induction w generalizing st k with
  | nil => exact absurd rfl hw
  | cons c w ih =>
    cases w with
    | nil =>
      obtain ⟨hagree, hrest⟩ := h
      have hlast' : mbcsNonAscii (pgCSStat st c ccsc) c = false := hlast
      have hascii : asciiAt ccsc k (c :: text) = true := by
        rw [WalkAgreesAt] at hagree
        simpa [hlast'] using hagree
      change WalkAll ccsc _ _ (owedAfter ccsc k (c :: text)) text at hrest
      rw [owedAfter_ascii hascii, (mbcsNonAscii_eq_false.1 hlast').1] at hrest
      exact hrest
    | cons d w => exact ih (List.cons_ne_nil _ _) h.2 (by simpa using hlast)

/-! ## The two in step -/

/-- A question mark, as the server knows it. -/
def Event.seen : Event → Event
  | .marker => .marker
  | .inside => .inside
  | _ => .other

theorem insideEvent_seen (c : UInt8) :
    (insideEvent c).seen = insideEvent c ∧ insideEvent c ≠ .escape ∧ insideEvent c ≠ .overlap := by
  rw [insideEvent]
  split <;> decide

/-- The escape character of the driver in a literal. -/
def literalEscape (backslash : Bool) : UInt8 := if backslash then escapeInLiteral else 0

/-- The driver's mode where the server is in a token, before `text`. -/
inductive TokenReads (ccsc : CharSet) : Token → Mode → List UInt8 → Prop
  | space {text : List UInt8} : TokenReads ccsc .space .idle text
  | closed {b : Bool} {gap : Server.Gap} {text : List UInt8} :
      TokenReads ccsc (.closed b gap) .idle text
  | number {text : List UInt8} : TokenReads ccsc .number .word text
  | bare {w text : List UInt8} (h : bareWord w = true) : TokenReads ccsc (.word w) .idle text
  | word {w text : List UInt8} (h : bareWord w = false) : TokenReads ccsc (.word w) .word text
  | literal {b : Bool} {text : List UInt8} :
      TokenReads ccsc (.literal b) (.literal (literalEscape b)) text
  | escaped {text : List UInt8} : TokenReads ccsc .escaped (.escaped escapeInLiteral) text
  | dquote {text : List UInt8} : TokenReads ccsc .dquote .dquote text
  | dollar {tag text : List UInt8} (h : TagOk ccsc tag) :
      TokenReads ccsc (.dollar tag) (.dollar tag) text
  | comment {level : Nat} {text : List UInt8} : TokenReads ccsc (.comment level) (.comment level) text
  | line {text : List UInt8} : TokenReads ccsc .line .line text
  | closedLine {b : Bool} {text : List UInt8} : TokenReads ccsc (.closedLine b) .line text
  /-- Between a carriage return and its linefeed, behind a comment. -/
  | newline {text : List UInt8} (h : text.headD pgLinefeed = pgLinefeed) :
      TokenReads ccsc .space .line text
  | closedNewline {b : Bool} {text : List UInt8} (h : text.headD pgLinefeed = pgLinefeed) :
      TokenReads ccsc (.closed b .newline) .line text

/-- Behind a symbol the walk agrees with the server. -/
def WalkBehind (ccsc : CharSet) (skip : Nat) (text : List UInt8) : Prop :=
  WalkAll ccsc (WalkAgreesAt ccsc) 0 0 (text.drop skip)

/-- The driver has taken a symbol as the server has. -/
structure SymbolReads (ccsc : CharSet) (out : Mode × Nat × Event)
    (read : Token × Nat × Event) (rest : List UInt8) : Prop where
  skip : out.2.1 = read.2.1
  token : TokenReads ccsc read.1 out.1 (rest.drop read.2.1)
  event : out.2.2.seen = read.2.2
  plain : out.2.2 ≠ .escape ∧ out.2.2 ≠ .overlap
  walk : WalkBehind ccsc read.2.1 rest

section

variable {prev c : UInt8} {rest : List UInt8}

theorem SymbolReads.quiet {mode : Mode} {token : Token}
    (hwalk : WalkAll ccsc (WalkAgreesAt ccsc) 0 0 rest) (htoken : TokenReads ccsc token mode rest) :
    SymbolReads ccsc (mode, 0, .other) (token, 0, .other) rest :=
  ⟨rfl, htoken, rfl, ⟨Event.noConfusion, Event.noConfusion⟩, hwalk⟩

theorem SymbolReads.inside {mode : Mode} {token : Token} (c : UInt8)
    (hwalk : WalkAll ccsc (WalkAgreesAt ccsc) 0 0 rest) (htoken : TokenReads ccsc token mode rest) :
    SymbolReads ccsc (mode, 0, insideEvent c) (token, 0, insideEvent c) rest :=
  ⟨rfl, htoken, (insideEvent_seen c).1, (insideEvent_seen c).2, hwalk⟩

/-- The second byte of a symbol is an ASCII character. -/
theorem walkBehind_one (hwalk : WalkAll ccsc (WalkAgreesAt ccsc) 0 0 rest) {d : UInt8}
    (hhead : rest.headD 0 = d) (h0 : d ≠ 0) (hd : d < 0x80) : WalkBehind ccsc 1 rest := by
  rw [eq_cons_of_headD hhead h0] at hwalk ⊢
  refine walkAll_over (w := [d]) (List.cons_ne_nil _ _) hwalk ?_
  exact mbcsNonAscii_eq_false.2 ⟨pgCSStat_ascii (settled_zero ccsc) hd, hd⟩

/-- Behind the tag of a dollar quote. -/
theorem walkBehind_tag (hwalk : WalkAll ccsc (WalkAgreesAt ccsc) 0 0 rest)
    (h : 0 < findTag (dollarQuote :: rest) ccsc) :
    WalkBehind ccsc (findTag (dollarQuote :: rest) ccsc - 1) rest := by
  obtain ⟨w, text, heq, hlen, hne, hlast⟩ := findTagLoop_split h
  rw [List.tail_cons] at heq hlen
  have htag : findTag (dollarQuote :: rest) ccsc - 1 = w.length := by
    rw [findTag, List.tail_cons]
    omega
  rw [WalkBehind, htag, heq, List.drop_left]
  rw [heq] at hwalk
  exact walkAll_over hne hwalk hlast

/-- The driver looks for backslashes where it should. -/
theorem literal_reads {text : List UInt8} (hescape : escape = 0 ∨ escape = escapeInLiteral) :
    TokenReads ccsc (.literal (readsBackslash escape prev))
      (.literal (if escape = 0 ∧ prev = literalExt then escapeInLiteral else escape)) text := by
  have heq : (if escape = 0 ∧ prev = literalExt then escapeInLiteral else escape) =
      literalEscape (readsBackslash escape prev) := by
    rcases hescape with rfl | rfl
    · by_cases hprev : prev = literalExt
      · rw [if_pos ⟨rfl, hprev⟩, readsBackslash, decide_eq_true hprev]
        rfl
      · rw [if_neg fun h ↦ hprev h.2, readsBackslash, decide_eq_false hprev]
        rfl
    · rfl
  rw [heq]
  exact .literal

/-- A byte that begins a token. -/
theorem lexSpace_reads (hescape : escape = 0 ∨ escape = escapeInLiteral)
    (hwalk : WalkAll ccsc (WalkAgreesAt ccsc) 0 0 rest)
    (hnone : ¬(c = odbcEscapeStart ∨ strnicmpEq (c :: rest) (ascii "@@identity")))
    (hover : ¬(c = slash ∧ rest.headD 0 = asterisk ∧ rest.tail.headD 0 = slash))
    (hquote : c = literalQuote → (!decide (escape = 0)) = readsBackslash escape prev)
    (htag : c = dollarQuote → findTag (c :: rest) ccsc = Server.dollarTag ccsc (c :: rest)) :
    SymbolReads ccsc (lexIdle ccsc 1 escape prev c rest)
      (Server.lexSpace ccsc (escape = 0) c rest) rest := by
  rw [lexIdle, if_neg hnone, Server.lexSpace]
  by_cases hmarker : c = paramMarker
  · rw [if_pos hmarker, if_pos hmarker]
    exact ⟨rfl, .space, rfl, ⟨Event.noConfusion, Event.noConfusion⟩, hwalk⟩
  rw [if_neg hmarker, if_neg hmarker]
  by_cases hdollar : c = dollarQuote
  · have hne : c ≠ literalQuote ∧ c ≠ identifierQuote := by rw [hdollar]; decide
    rw [if_pos hdollar, if_neg hne.1, if_neg hne.2, if_pos hdollar]
    simp only [← htag hdollar]
    by_cases hpos : 0 < findTag (c :: rest) ccsc
    · rw [if_pos hpos, if_pos hpos]
      subst hdollar
      exact ⟨rfl, .dollar (tagOk_take hpos), rfl, ⟨Event.noConfusion, Event.noConfusion⟩,
        walkBehind_tag hwalk hpos⟩
    · rw [if_neg hpos, if_neg hpos]
      exact .quiet hwalk .space
  rw [if_neg hdollar]
  by_cases hq : c = literalQuote
  · rw [if_pos hq, if_pos hq, hquote hq]
    exact .quiet hwalk (literal_reads hescape)
  rw [if_neg hq, if_neg hq]
  by_cases hdq : c = identifierQuote
  · rw [if_pos hdq, if_pos hdq]
    exact .quiet hwalk .dquote
  rw [if_neg hdq, if_neg hdq, if_neg hdollar]
  by_cases hcomment : c = slash ∧ rest.headD 0 = asterisk
  · rw [if_pos hcomment, if_pos hcomment, if_neg fun h ↦ hover ⟨hcomment.1, hcomment.2, h⟩]
    exact ⟨rfl, .comment, rfl, ⟨Event.noConfusion, Event.noConfusion⟩,
      walkBehind_one hwalk hcomment.2 (by decide) (by decide)⟩
  rw [if_neg hcomment, if_neg hcomment]
  by_cases hline : c = hyphen ∧ rest.headD 0 = hyphen
  · rw [if_pos hline, if_pos hline]
    exact ⟨rfl, .line, rfl, ⟨Event.noConfusion, Event.noConfusion⟩,
      walkBehind_one hwalk hline.2 (by decide) (by decide)⟩
  rw [if_neg hline, if_neg hline]
  by_cases hdelim : c = semicolon
  · subst hdelim
    exact ⟨rfl, .space, rfl, ⟨Event.noConfusion, Event.noConfusion⟩, hwalk⟩
  rw [if_neg hdelim]
  by_cases hdigit : Server.isDigit c = true
  · have halnum : isAlnum c = true := by
      rw [isAlnum, ← Server.isDigit, hdigit]
      rfl
    rw [if_pos halnum, if_pos hdigit]
    exact .quiet hwalk .number
  rw [if_neg hdigit]
  by_cases halnum : isAlnum c = true
  · rw [if_pos halnum, if_pos (by rw [halnum]; rfl)]
    refine .quiet hwalk (.word ?_)
    have hne : c ≠ underscore ∧ c ≠ dollarQuote :=
      ⟨fun h ↦ by rw [h] at halnum; exact absurd halnum (by decide), hdollar⟩
    rw [bareWord, List.all_cons, decide_eq_false hne.1, decide_eq_false hne.2]
    rfl
  rw [if_neg halnum]
  by_cases hunderscore : c = underscore
  · rw [if_pos (by rw [hunderscore]; decide)]
    exact .quiet hwalk (.bare (by rw [hunderscore]; decide))
  · rw [if_neg (by rw [Bool.or_eq_true, decide_eq_true_eq]; exact not_or.2 ⟨halnum, hunderscore⟩)]
    exact .quiet hwalk .space

theorem lexIdle_quote (opener : Nat) :
    lexIdle ccsc opener escape prev literalQuote rest =
      (.literal (if escape = 0 ∧ prev = literalExt then escapeInLiteral else escape), 0, .other) := by
  rw [lexIdle, strnicmpEq_identity (by decide)]
  rfl

theorem lexIdle_underscore (opener : Nat) :
    lexIdle ccsc opener escape prev underscore rest = (.idle, 0, .other) := by
  rw [lexIdle, strnicmpEq_identity (by decide)]
  rfl

theorem lexIdle_dollar (opener : Nat) (h : findTag (dollarQuote :: rest) ccsc = 0) :
    lexIdle ccsc opener escape prev dollarQuote rest = (.idle, 0, .other) := by
  rw [lexIdle, strnicmpEq_identity (by decide)]
  simp +decide only [h, if_true, if_false]

/-- What a byte that is not misread is outside of quotes and comments. -/
theorem misread_outside {token : Token} (ht : token.outside = true)
    (h : misread ccsc escape prev c rest token = false) :
    ¬(c = odbcEscapeStart ∨ strnicmpEq (c :: rest) (ascii "@@identity")) ∧
      ¬(c = slash ∧ rest.headD 0 = asterisk ∧ rest.tail.headD 0 = slash) ∧
      (c = literalQuote → (Server.lexToken ccsc (escape = 0) c rest token).1 =
        .literal (readsBackslash escape prev)) := by
  simp only [misread, ht, Bool.true_and, Bool.or_eq_false_iff, Bool.and_eq_false_iff,
    decide_eq_false_iff_not, ne_eq, not_not] at h
  obtain ⟨⟨⟨hnone, hover⟩, hquote⟩, -⟩ := h
  refine ⟨?_, ?_, ?_⟩
  · rintro (hc | hc)
    · exact hnone.1 hc
    · rw [hc] at hnone
      cases hnone.2
  · rintro ⟨h1, h2, h3⟩
    rcases hover with (h | h) | h
    · exact h h1
    · exact h h2
    · exact h h3
  · exact fun hc ↦ hquote.resolve_left fun h ↦ h hc

/-- Outside of a word, a byte that begins a token. -/
theorem space_reads (hescape : escape = 0 ∨ escape = escapeInLiteral)
    (hwalk : WalkAll ccsc (WalkAgreesAt ccsc) 0 0 rest)
    (h : misread ccsc escape prev c rest .space = false) :
    SymbolReads ccsc (lexIdle ccsc 1 escape prev c rest)
      (Server.lexSpace ccsc (escape = 0) c rest) rest := by
  obtain ⟨hnone, hover, hquote⟩ := misread_outside rfl h
  refine lexSpace_reads hescape hwalk hnone hover (fun hc ↦ ?_) fun hc ↦ ?_
  · have hread := hquote hc
    rw [hc, Server.lexToken, Server.lexSpace] at hread
    exact Token.literal.inj hread
  · simp only [misread, Bool.or_eq_false_iff, Bool.and_eq_false_iff, decide_eq_false_iff_not, ne_eq,
      not_not] at h
    exact h.2.resolve_left fun h ↦ h hc

theorem bareWord_append (w : List UInt8) (c : UInt8) :
    bareWord (w ++ [c]) = (bareWord w && (c = underscore || c = dollarQuote)) := by
  rw [bareWord, bareWord, List.all_append, List.all_cons, List.all_nil, Bool.and_true]

/-- A byte behind a literal that has been closed. -/
theorem closed_reads {b : Bool} {gap : Server.Gap} (hescape : escape = 0 ∨ escape = escapeInLiteral)
    (hwalk : WalkAll ccsc (WalkAgreesAt ccsc) 0 0 rest)
    (h : misread ccsc escape prev c rest (.closed b gap) = false) :
    SymbolReads ccsc (lexIdle ccsc 1 escape prev c rest)
      (Server.lexToken ccsc (escape = 0) c rest (.closed b gap)) rest := by
  obtain ⟨hnone, hover, hquote⟩ := misread_outside rfl h
  rw [Server.lexToken] at hquote ⊢
  by_cases hagain : c = literalQuote ∧ gap ≠ .blank
  · -- The literal goes on.
    rw [if_pos hagain] at hquote ⊢
    obtain rfl := Token.literal.inj (hquote hagain.1)
    rw [hagain.1, lexIdle_quote]
    exact .quiet hwalk (literal_reads hescape)
  rw [if_neg hagain] at hquote ⊢
  by_cases hspace : isSpace c = true
  · rw [if_pos hspace, (lexIdle_space hspace _ _).1]
    exact .quiet hwalk .closed
  rw [if_neg hspace] at hquote ⊢
  by_cases hline : c = hyphen ∧ rest.headD 0 = hyphen
  · rw [if_pos hline, hline.1, lexIdle_line hline.2]
    exact ⟨rfl, .closedLine, rfl, ⟨Event.noConfusion, Event.noConfusion⟩,
      walkBehind_one hwalk hline.2 (by decide) (by decide)⟩
  rw [if_neg hline] at hquote ⊢
  refine lexSpace_reads hescape hwalk hnone hover (fun hc ↦ ?_) fun hc ↦ ?_
  · have hread := hquote hc
    rw [hc, Server.lexSpace] at hread
    exact Token.literal.inj hread
  · simp only [misread, Bool.or_eq_false_iff, Bool.and_eq_false_iff, decide_eq_false_iff_not, ne_eq,
      not_not] at h
    exact h.2.resolve_left fun h ↦ h hc

/-- A byte in a number. -/
theorem number_reads (hescape : escape = 0 ∨ escape = escapeInLiteral)
    (hwalk : WalkAll ccsc (WalkAgreesAt ccsc) 0 0 rest)
    (h : misread ccsc escape prev c rest .number = false) :
    SymbolReads ccsc (lexMode ccsc 1 escape prev c rest .word)
      (Server.lexToken ccsc (escape = 0) c rest .number) rest := by
  obtain ⟨hnone, hover, hquote⟩ := misread_outside rfl h
  have hdollar : c ≠ dollarQuote := by
    simp only [misread, Bool.or_eq_false_iff, decide_eq_false_iff_not] at h
    exact h.2
  rw [Server.lexToken] at hquote ⊢
  rw [lexMode]
  by_cases hc : isAlnum c || decide (c = underscore)
  · have hword : isWordChar c = true := by
      rw [Bool.or_eq_true] at hc
      rw [isWordChar, Bool.or_eq_true, Bool.or_eq_true]
      exact hc.imp_left Or.inl
    rw [if_pos hc, if_pos hword]
    exact .quiet hwalk .number
  · have hword : ¬isWordChar c = true := by
      rw [Bool.or_eq_true] at hc
      rw [isWordChar, Bool.or_eq_true, Bool.or_eq_true, decide_eq_true_eq]
      exact fun h ↦ hc (h.imp_left fun h ↦ h.resolve_right hdollar)
    rw [if_neg hc] at hquote ⊢
    rw [if_neg hword]
    refine lexSpace_reads hescape hwalk hnone hover (fun hq ↦ ?_) fun hd ↦ absurd hd hdollar
    have hread := hquote hq
    rw [hq, Server.lexSpace] at hread
    exact Token.literal.inj hread

/-- A byte behind the text of an identifier that ends it. -/
theorem wordEnd_reads {w : List UInt8} (hescape : escape = 0 ∨ escape = escapeInLiteral)
    (hwalk : WalkAll ccsc (WalkAgreesAt ccsc) 0 0 rest) (hc : ¬isWordChar c = true)
    (h : misread ccsc escape prev c rest (.word w) = false) :
    SymbolReads ccsc (lexIdle ccsc 1 escape prev c rest)
      (Server.lexToken ccsc (escape = 0) c rest (.word w)) rest := by
  obtain ⟨hnone, hover, hquote⟩ := misread_outside rfl h
  rw [Server.lexToken, if_neg hc] at hquote ⊢
  by_cases hq : c = literalQuote
  · rw [if_pos hq] at hquote ⊢
    rw [Token.literal.inj (hquote hq), hq, lexIdle_quote]
    exact .quiet hwalk (literal_reads hescape)
  · rw [if_neg hq]
    refine lexSpace_reads hescape hwalk hnone hover (fun h ↦ absurd h hq) fun hd ↦ ?_
    rw [hd] at hc
    exact absurd rfl hc

/-- A byte in an identifier. -/
theorem word_reads {w : List UInt8} {mode : Mode}
    (hescape : escape = 0 ∨ escape = escapeInLiteral)
    (hwalk : WalkAll ccsc (WalkAgreesAt ccsc) 0 0 rest)
    (hmode : mode = if bareWord w then .idle else .word)
    (h : misread ccsc escape prev c rest (.word w) = false) :
    SymbolReads ccsc (lexMode ccsc 1 escape prev c rest mode)
      (Server.lexToken ccsc (escape = 0) c rest (.word w)) rest := by
  by_cases hc : isWordChar c = true
  · rw [Server.lexToken, if_pos hc]
    cases hbare : bareWord w with
    | false =>
      rw [hmode, hbare, if_neg Bool.false_ne_true, lexMode, if_pos hc]
      exact .quiet hwalk (.word (by rw [bareWord_append, hbare, Bool.false_and]))
    | true =>
      rw [hmode, hbare, if_pos rfl, lexMode]
      have happend := bareWord_append w c
      rw [hbare, Bool.true_and] at happend
      by_cases halnum : isAlnum c = true
      · rw [lexIdle_word halnum]
        refine .quiet hwalk (.word (happend.trans ?_))
        have hne : c ≠ underscore ∧ c ≠ dollarQuote := by
          constructor <;> rintro rfl <;> exact absurd halnum (by decide)
        rw [decide_eq_false hne.1, decide_eq_false hne.2]
        rfl
      · rw [isWordChar, Bool.or_eq_true, Bool.or_eq_true, decide_eq_true_eq, decide_eq_true_eq] at hc
        rcases hc with (hc | rfl) | rfl
        · exact absurd hc halnum
        · have htag : findTag (dollarQuote :: rest) ccsc = 0 := by
            simp only [misread, hbare, Bool.or_eq_false_iff, Bool.and_eq_false_iff,
              decide_eq_false_iff_not, not_lt, Bool.true_eq_false, or_false, not_true,
              false_or] at h
            exact Nat.le_zero.1 h.2
          rw [lexIdle_dollar 1 htag]
          exact .quiet hwalk (.bare happend)
        · rw [lexIdle_underscore]
          exact .quiet hwalk (.bare happend)
  · have hidle : lexMode ccsc 1 escape prev c rest mode = lexIdle ccsc 1 escape prev c rest := by
      rw [hmode]
      split
      · rfl
      · rw [lexMode, if_neg hc]
    rw [hidle]
    exact wordEnd_reads hescape hwalk hc h

/-- A byte in quotes of the three kinds, where the token and the mode are of one kind. -/
theorem quoted_reads {token : Token} {mode : Mode} (h0 : c ≠ 0)
    (hwalk : WalkAll ccsc (WalkAgreesAt ccsc) 0 0 rest) (houtside : token.outside = false)
    (htoken : TokenReads ccsc token mode (c :: rest))
    (h : misread ccsc escape prev c rest token = false) :
    SymbolReads ccsc (lexMode ccsc 1 escape prev c rest mode)
      (Server.lexToken ccsc (escape = 0) c rest token) rest := by
  have hcr : token = .line ∨ (∃ b, token = .closedLine b) → c = pgCarriageReturn →
      rest.headD pgLinefeed = pgLinefeed := by
    rintro (rfl | ⟨b, rfl⟩) hc <;>
      simp only [misread, Server.Token.outside, Bool.false_and, Bool.false_or,
        Bool.and_eq_false_iff, decide_eq_false_iff_not, ne_eq, not_not] at h <;>
      exact h.resolve_left fun h ↦ h hc
  cases htoken with
  | space | closed | number | bare | word | newline | closedNewline => cases houtside
  | @literal b =>
    rw [lexMode, Server.lexToken]
    by_cases hquote : c = literalQuote
    · rw [if_pos hquote, if_pos hquote]
      exact .quiet hwalk .closed
    rw [if_neg hquote, if_neg hquote]
    cases b with
    | true =>
      have hescape : literalEscape true = escapeInLiteral := rfl
      rw [hescape]
      by_cases hesc : c = escapeInLiteral
      · rw [if_pos hesc, if_pos (by rw [hesc]; decide)]
        exact .inside c hwalk .escaped
      · rw [if_neg hesc, if_neg (by simpa using hesc)]
        exact .inside c hwalk .literal
    | false =>
      have hescape : literalEscape false = 0 := rfl
      rw [hescape, if_neg h0, if_neg (by simp)]
      exact .inside c hwalk .literal
  | escaped => exact .inside c hwalk .literal
  | dquote =>
    rw [lexMode, Server.lexToken]
    split
    · exact .quiet hwalk .space
    · exact .inside c hwalk .dquote
  | @dollar tag _ hok =>
    rw [lexMode, Server.lexToken]
    split
    · next htag =>
      obtain ⟨w, rfl, hne, hlast⟩ := hok
      obtain ⟨rfl, htake⟩ := htag
      refine ⟨rfl, .space, rfl, ⟨Event.noConfusion, Event.noConfusion⟩, ?_⟩
      have hrest : rest = w ++ rest.drop w.length := by
        rw [List.length_cons, List.take_succ_cons, List.cons.injEq] at htake
        conv_lhs => rw [← List.take_append_drop w.length rest, htake.2]
      change WalkAll ccsc _ 0 0 (rest.drop w.length)
      rw [hrest] at hwalk
      exact walkAll_over hne hwalk hlast
    · exact .inside c hwalk (.dollar hok)
  | comment =>
    rw [lexMode, Server.lexToken]
    split
    · next hopen =>
      exact ⟨rfl, .comment, rfl, ⟨Event.noConfusion, Event.noConfusion⟩,
        walkBehind_one hwalk hopen.2 (by decide) (by decide)⟩
    · split
      · next hclose =>
        refine ⟨rfl, ?_, rfl, ⟨Event.noConfusion, Event.noConfusion⟩,
          walkBehind_one hwalk hclose.2 (by decide) (by decide)⟩
        split
        · exact .comment
        · exact .space
      · exact .inside c hwalk .comment
  | line =>
    rw [lexMode, Server.lexToken, Server.isNewline]
    by_cases hlf : c = pgLinefeed
    · rw [if_pos hlf, if_pos (by rw [hlf]; decide)]
      exact .quiet hwalk .space
    by_cases hc : c = pgCarriageReturn
    · rw [if_neg hlf, if_pos (by rw [hc]; decide), hc]
      exact .quiet hwalk (.newline (hcr (Or.inl rfl) hc))
    · rw [if_neg hlf, if_neg (by simp [hlf, hc])]
      exact .inside c hwalk .line
  | @closedLine b =>
    rw [lexMode, Server.lexToken, Server.isNewline]
    by_cases hlf : c = pgLinefeed
    · rw [if_pos hlf, if_pos (by rw [hlf]; decide)]
      exact .quiet hwalk .closed
    by_cases hc : c = pgCarriageReturn
    · rw [if_neg hlf, if_pos (by rw [hc]; decide), hc]
      exact .quiet hwalk (.closedNewline (hcr (Or.inr ⟨b, rfl⟩) hc))
    · rw [if_neg hlf, if_neg (by simp [hlf, hc])]
      exact .inside c hwalk .closedLine

/-- A byte that is a character of its own. -/
theorem lexToken_reads {token : Token} {mode : Mode} (h0 : c ≠ 0)
    (hescape : escape = 0 ∨ escape = escapeInLiteral)
    (hwalk : WalkAll ccsc (WalkAgreesAt ccsc) 0 0 rest)
    (htoken : TokenReads ccsc token mode (c :: rest))
    (h : misread ccsc escape prev c rest token = false) :
    SymbolReads ccsc (lexMode ccsc 1 escape prev c rest mode)
      (Server.lexToken ccsc (escape = 0) c rest token) rest := by
  have hquoted := @quoted_reads ccsc escape prev c rest token mode h0 hwalk
  cases htoken with
  | space => exact space_reads hescape hwalk h
  | closed => exact closed_reads hescape hwalk h
  | number => exact number_reads hescape hwalk h
  | bare hw => exact word_reads hescape hwalk (by rw [hw, if_pos rfl]) h
  | word hw => exact word_reads hescape hwalk (by rw [hw, if_neg Bool.false_ne_true]) h
  | newline hlf =>
    obtain rfl : c = pgLinefeed := hlf
    exact .quiet hwalk .space
  | closedNewline hlf =>
    obtain rfl : c = pgLinefeed := hlf
    exact .quiet hwalk .closed
  | literal => exact hquoted rfl .literal h
  | escaped => exact hquoted rfl .escaped h
  | dquote => exact hquoted rfl .dquote h
  | dollar hok => exact hquoted rfl (.dollar hok) h
  | comment => exact hquoted rfl .comment h
  | line => exact hquoted rfl .line h
  | closedLine => exact hquoted rfl .closedLine h

/-- The driver and the server are in step before `text`. -/
structure Reads (ccsc : CharSet) (s : Server.LexState) (d : LexState) (text : List UInt8) :
    Prop where
  skip : d.skip = s.skip
  token : TokenReads ccsc s.token d.mode (text.drop s.skip)
  walk : WalkAll ccsc (WalkAgreesAt ccsc) d.ccst s.owed (text.drop s.skip)
  /-- A multibyte character is part of a word. -/
  inside : s.owed ≠ 0 → s.token.outside = true → ∃ w, s.token = .word w ∧ bareWord w = false

theorem le_of_not_asciiAt (h : asciiAt ccsc 0 (c :: rest) = false) : 0x80 ≤ c := by
  by_contra hc
  have hlt := UInt8.not_le.1 hc
  simp [asciiAt, mbLen_ascii ccsc hlt, hlt] at h

theorem bareWord_high {w : List UInt8} (hc : 0x80 ≤ c) : bareWord (w ++ [c]) = false := by
  have hne : c ≠ underscore ∧ c ≠ dollarQuote := by
    constructor <;> rintro rfl <;> exact absurd hc (by decide)
  rw [bareWord_append, decide_eq_false hne.1, decide_eq_false hne.2, Bool.or_false, Bool.and_false]

/-- A byte of a multibyte character. -/
theorem lexMultibyte_reads {owed : Nat} {token : Token} {mode : Mode}
    (hascii : asciiAt ccsc owed (c :: rest) = false) (hescaped : token ≠ .escaped)
    (hinside : owed ≠ 0 → token.outside = true → ∃ w, token = .word w ∧ bareWord w = false)
    (htoken : TokenReads ccsc token mode (c :: rest)) :
    TokenReads ccsc (Server.lexMultibyte c token) (if mode = .idle then .word else mode) rest ∧
      ((Server.lexMultibyte c token).outside = true →
        ∃ w, Server.lexMultibyte c token = .word w ∧ bareWord w = false) := by
  have hfirst : token.outside = true → (∀ w, token ≠ .word w) ∨ (∃ w, token = .word w ∧
      bareWord w = true) → 0x80 ≤ c := by
    intro hout hword
    by_cases h0 : owed = 0
    · exact le_of_not_asciiAt (h0 ▸ hascii)
    · obtain ⟨w, hw, hbare⟩ := hinside h0 hout
      rcases hword with hword | ⟨w', hw', hbare'⟩
      · exact absurd hw (hword w)
      · rw [hw] at hw'
        cases hw'
        rw [hbare] at hbare'
        cases hbare'
  cases htoken with
  | space | closed | number =>
    have hbare := bareWord_high (w := []) (hfirst rfl (Or.inl fun w ↦ Token.noConfusion))
    exact ⟨.word hbare, fun _ ↦ ⟨_, rfl, hbare⟩⟩
  | @bare w _ hw =>
    have hbare := bareWord_high (w := w) (hfirst rfl (Or.inr ⟨w, rfl, hw⟩))
    exact ⟨.word hbare, fun _ ↦ ⟨_, rfl, hbare⟩⟩
  | @word w _ hw =>
    have hbare : bareWord (w ++ [c]) = false := by rw [bareWord_append, hw, Bool.false_and]
    exact ⟨.word hbare, fun _ ↦ ⟨_, rfl, hbare⟩⟩
  | escaped => exact absurd rfl hescaped
  | newline hlf | closedNewline hlf =>
    obtain rfl : c = pgLinefeed := hlf
    exact absurd (hfirst rfl (Or.inl fun w ↦ Token.noConfusion)) (by decide)
  | literal => exact ⟨.literal, Bool.noConfusion⟩
  | dquote => exact ⟨.dquote, Bool.noConfusion⟩
  | dollar hok => exact ⟨.dollar hok, Bool.noConfusion⟩
  | comment => exact ⟨.comment, Bool.noConfusion⟩
  | line => exact ⟨.line, Bool.noConfusion⟩
  | closedLine => exact ⟨.closedLine, Bool.noConfusion⟩

/-- One byte. -/
theorem lexStep_reads {s : Server.LexState} {d : LexState} (h0 : c ≠ 0)
    (hescape : escape = 0 ∨ escape = escapeInLiteral) (h : Reads ccsc s d (c :: rest))
    (halike : s.skip = 0 → if asciiAt ccsc s.owed (c :: rest) then
      misread ccsc escape prev c rest s.token = false else s.token ≠ .escaped) :
    Reads ccsc (Server.lexStep ccsc (escape = 0) c rest s).1
        (lexStep ccsc 1 escape prev c rest d).1 rest ∧
      (lexStep ccsc 1 escape prev c rest d).2.seen =
        (Server.lexStep ccsc (escape = 0) c rest s).2 ∧
      (lexStep ccsc 1 escape prev c rest d).2 ≠ .escape ∧
      (lexStep ccsc 1 escape prev c rest d).2 ≠ .overlap := by
  obtain ⟨owed, token, skip⟩ := s
  obtain ⟨ccst, mode, skip'⟩ := d
  obtain ⟨hskip, htoken, hwalk, hinside⟩ := h
  obtain rfl : skip' = skip := hskip
  cases skip' with
  | succ skip => exact ⟨⟨rfl, htoken, hwalk, hinside⟩, rfl, Event.noConfusion, Event.noConfusion⟩
  | zero =>
    obtain ⟨hagree, hrest⟩ := hwalk
    have halike' := halike rfl
    cases hascii : asciiAt ccsc owed (c :: rest) with
    | true =>
      have hnon : mbcsNonAscii (pgCSStat ccst c ccsc) c = false := by
        have hagree' : mbcsNonAscii (pgCSStat ccst c ccsc) c = !asciiAt ccsc owed (c :: rest) := hagree
        rw [hagree', hascii]
        rfl
      rw [owedAfter_ascii hascii, (mbcsNonAscii_eq_false.1 hnon).1] at hrest
      simp only [hascii, if_true] at halike'
      have hsym := lexToken_reads h0 hescape hrest htoken halike'
      have hserver : Server.lexStep ccsc (escape = 0) c rest ⟨owed, token, 0⟩ =
          (⟨0, (Server.lexToken ccsc (escape = 0) c rest token).1,
            (Server.lexToken ccsc (escape = 0) c rest token).2.1⟩,
            (Server.lexToken ccsc (escape = 0) c rest token).2.2) := by
        rw [Server.lexStep, if_neg (by simp)]
        simp only [hascii, if_true]
      rw [lexStep_ascii hnon, hserver]
      exact ⟨⟨hsym.skip, hsym.token, hsym.walk, fun h ↦ absurd rfl h⟩, hsym.event, hsym.plain⟩
    | false =>
      have hnon : mbcsNonAscii (pgCSStat ccst c ccsc) c = true := by
        have hagree' : mbcsNonAscii (pgCSStat ccst c ccsc) c = !asciiAt ccsc owed (c :: rest) := hagree
        rw [hagree', hascii]
        rfl
      simp only [hascii, Bool.false_eq_true, if_false] at halike'
      obtain ⟨hmulti, hword⟩ := lexMultibyte_reads hascii halike' hinside htoken
      have hserver : Server.lexStep ccsc (escape = 0) c rest ⟨owed, token, 0⟩ =
          (⟨owedAfter ccsc owed (c :: rest), Server.lexMultibyte c token, 0⟩, .other) := by
        rw [Server.lexStep, if_neg (by simp)]
        simp only [hascii, Bool.false_eq_true, if_false]
      rw [lexStep_nonAscii hnon, hserver]
      exact ⟨⟨rfl, hmulti, hrest, fun _ ↦ hword⟩, rfl, Event.noConfusion, Event.noConfusion⟩

/-- A whole text. -/
theorem lexEvents_reads {text : List UInt8} {s : Server.LexState} {d : LexState} {prev : UInt8}
    (h0 : 0 ∉ text) (hescape : escape = 0 ∨ escape = escapeInLiteral) (h : Reads ccsc s d text)
    (halike : ReadsAlike ccsc escape prev s text) :
    (lexEvents ccsc 1 escape prev d text).map Event.seen =
        Server.lexEvents ccsc (escape = 0) s text ∧
      .escape ∉ lexEvents ccsc 1 escape prev d text ∧
      .overlap ∉ lexEvents ccsc 1 escape prev d text := by
  induction text generalizing s d prev with
  | nil => exact ⟨rfl, List.not_mem_nil, List.not_mem_nil⟩
  | cons c rest ih =>
    obtain ⟨hhead, hrest⟩ := halike
    obtain ⟨hreads, hseen, hesc, hover⟩ := @lexStep_reads ccsc escape prev _ _ _ _
      (fun h ↦ h0 (h ▸ List.mem_cons_self)) hescape h hhead
    obtain ⟨hevents, hnone, hplain⟩ := ih (fun h ↦ h0 (List.mem_cons_of_mem _ h)) hreads hrest
    rw [lexEvents_cons, List.map_cons, hevents, hseen]
    refine ⟨rfl, ?_, ?_⟩
    · rw [List.mem_cons]
      exact not_or.2 ⟨fun h ↦ hesc h.symm, hnone⟩
    · rw [List.mem_cons]
      exact not_or.2 ⟨fun h ↦ hover h.symm, hplain⟩

end

end

end PsqlOdbc
