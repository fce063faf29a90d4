import PsqlOdbc.Convert.QueryParse

/-!
# The driver's lexical rules

The two scanners of the driver follow the same rules for quotes and comments, apart from the
opening of a comment.  `lexStep` states them one byte at a time, and `lexEvents` lists what the
bytes of a text are: outside of quotes and comments these are parameter markers, semicolons, the
beginnings of what the driver replaces, and the comments that the scanners see differently.
-/

namespace PsqlOdbc

/-- What a byte is inside of. -/
inductive Mode
  | idle | word
  | literal (escape : UInt8) | escaped (escape : UInt8)
  | dquote
  | dollar (tag : List UInt8)
  | comment (level : Nat)
  | line
  deriving DecidableEq, Repr

/-- The state between two bytes: the walk over multibyte characters, the mode, and how many
bytes belong to the symbol that has been read. -/
structure LexState where
  ccst : Nat
  mode : Mode
  skip : Nat
  deriving DecidableEq, Repr

/-- What a byte is.  A question mark is a `marker` outside of quotes and comments, and `inside`
of them it is none.  An `escape` begins an ODBC escape or `@@identity`, and an `overlap` a comment
whose opening may be read as its end too. -/
inductive Event
  | other | marker | inside | delim | escape | overlap
  deriving DecidableEq, Repr

/-- A byte inside of quotes or a comment. -/
def insideEvent (c : UInt8) : Event := if c = paramMarker then .inside else .other

section

-- `opener` is how many bytes the opening of a comment takes behind its first one, and `escape`
-- the escape character of all literals, or 0.
variable (ccsc : CharSet) (opener : Nat) (escape : UInt8)

/-- A byte outside of quotes and comments that does not continue a word; `prev` is the byte
before it. -/
def lexIdle (prev c : UInt8) (rest : List UInt8) : Mode × Nat × Event :=
  if c = odbcEscapeStart ∨ strnicmpEq (c :: rest) (ascii "@@identity") then (.idle, 0, .escape)
  else if c = paramMarker then (.idle, 0, .marker)
  else if c = dollarQuote then
    let taglen := findTag (c :: rest) ccsc
    if 0 < taglen then (.dollar ((c :: rest).take taglen), taglen - 1, .other)
    else (.idle, 0, .other)
  else if c = literalQuote then
    (.literal (if escape = 0 ∧ prev = literalExt then escapeInLiteral else escape), 0, .other)
  else if c = identifierQuote then (.dquote, 0, .other)
  else if c = slash ∧ rest.headD 0 = asterisk then
    (.comment 1, opener, if rest.tail.headD 0 = slash then .overlap else .other)
  else if c = hyphen ∧ rest.headD 0 = hyphen then (.line, opener, .other)
  else if c = semicolon then (.idle, 0, .delim)
  else if isAlnum c then (.word, 0, .other)
  else (.idle, 0, .other)

/-- A byte that continues a word. -/
def isWordChar (c : UInt8) : Bool := isAlnum c || c = dollarQuote || c = underscore

/-- A byte in some mode. -/
def lexMode (prev c : UInt8) (rest : List UInt8) : Mode → Mode × Nat × Event
  | .idle => lexIdle ccsc opener escape prev c rest
  | .word =>
    if isWordChar c then (.word, 0, .other) else lexIdle ccsc opener escape prev c rest
  | .escaped esc => (.literal esc, 0, insideEvent c)
  | .dollar tag =>
    if c = dollarQuote ∧ (c :: rest).take tag.length = tag then (.idle, tag.length - 1, .other)
    else (.dollar tag, 0, insideEvent c)
  | .literal esc =>
    if c = literalQuote then (.idle, 0, .other)
    else if c = esc then (.escaped esc, 0, insideEvent c)
    else (.literal esc, 0, insideEvent c)
  | .dquote => if c = identifierQuote then (.idle, 0, .other) else (.dquote, 0, insideEvent c)
  | .comment level =>
    if c = slash ∧ rest.headD 0 = asterisk then (.comment (level + 1), 1, .other)
    else if c = asterisk ∧ rest.headD 0 = slash then
      (if 1 < level then .comment (level - 1) else .idle, 1, .other)
    else (.comment level, 0, insideEvent c)
  | .line => if c = pgLinefeed then (.idle, 0, .other) else (.line, 0, insideEvent c)

/-- One byte. -/
def lexStep (prev c : UInt8) (rest : List UInt8) (s : LexState) : LexState × Event :=
  if s.skip ≠ 0 then ({ s with skip := s.skip - 1 }, .other)
  else
    let ccst := pgCSStat s.ccst c ccsc
    if mbcsNonAscii ccst c then (⟨ccst, if s.mode = .idle then .word else s.mode, 0⟩, .other)
    else
      let (mode, skip, event) := lexMode ccsc opener escape prev c rest s.mode
      (⟨ccst, mode, skip⟩, event)

/-- What the bytes of a text are. -/
def lexEvents (prev : UInt8) (s : LexState) : List UInt8 → List Event
  | [] => []
  | c :: rest =>
    let (s, event) := lexStep ccsc opener escape prev c rest s
    event :: lexEvents c s rest

end

/-! ## Running over several bytes -/

theorem insideEvent_quiet (c : UInt8) : insideEvent c ≠ .marker ∧ insideEvent c ≠ .delim := by
  rw [insideEvent]
  split <;> decide

theorem strnicmpEq_identity {c : UInt8} {rest : List UInt8} (h : c ≠ 0x40) :
    strnicmpEq (c :: rest) (ascii "@@identity") = false := by
  have hc : toLower c ≠ 0x40 := by
    rw [toLower]
    split <;> grind
  have hword : ascii "@@identity" = 0x40 :: ascii "@identity" := by decide
  rw [strnicmpEq, decide_eq_false_iff_not, hword, List.length_cons, List.take_succ_cons,
    List.map_cons, List.cons.injEq]
  exact fun h ↦ hc h.1

section

variable {ccsc : CharSet} {opener : Nat} {escape : UInt8}

theorem isSpace_lt {c : UInt8} (h : isSpace c = true) : c < 0x80 := by
  simp only [isSpace, Bool.or_eq_true, Bool.and_eq_true, decide_eq_true_eq] at h
  grind

theorem lexIdle_space {c : UInt8} (h : isSpace c = true) (prev : UInt8) (rest : List UInt8) :
    lexIdle ccsc opener escape prev c rest = (.idle, 0, .other) ∧ isWordChar c = false := by
  have hc : c = 0x20 ∨ c = 0x09 ∨ c = 0x0a ∨ c = 0x0b ∨ c = 0x0c ∨ c = 0x0d := by
    simp only [isSpace, Bool.or_eq_true, Bool.and_eq_true, decide_eq_true_eq] at h
    grind
  rw [lexIdle, strnicmpEq_identity (by rcases hc with rfl | rfl | rfl | rfl | rfl | rfl <;> decide)]
  rcases hc with rfl | rfl | rfl | rfl | rfl | rfl <;> exact ⟨rfl, rfl⟩

theorem lexEvents_cons (prev c : UInt8) (rest : List UInt8) (s : LexState) :
    lexEvents ccsc opener escape prev s (c :: rest) =
      (lexStep ccsc opener escape prev c rest s).2 ::
        lexEvents ccsc opener escape c (lexStep ccsc opener escape prev c rest s).1 rest := rfl

/-- A byte of its own in the walk. -/
theorem lexStep_ascii {prev c : UInt8} {rest : List UInt8} {ccst : Nat} {mode : Mode}
    (h : mbcsNonAscii (pgCSStat ccst c ccsc) c = false) :
    lexStep ccsc opener escape prev c rest ⟨ccst, mode, 0⟩ =
      (⟨0, (lexMode ccsc opener escape prev c rest mode).1,
        (lexMode ccsc opener escape prev c rest mode).2.1⟩,
        (lexMode ccsc opener escape prev c rest mode).2.2) := by
  have h0 := (mbcsNonAscii_eq_false.1 h).1
  rw [h0] at h
  rw [lexStep, if_neg (by simp)]
  simp only [h0, h, Bool.false_eq_true, if_false]

/-- A byte of a multibyte character. -/
theorem lexStep_nonAscii {prev c : UInt8} {rest : List UInt8} {ccst : Nat} {mode : Mode}
    (h : mbcsNonAscii (pgCSStat ccst c ccsc) c = true) :
    lexStep ccsc opener escape prev c rest ⟨ccst, mode, 0⟩ =
      (⟨pgCSStat ccst c ccsc, if mode = .idle then .word else mode, 0⟩, .other) := by
  rw [lexStep, if_neg (by simp)]
  simp only [h, if_true]

/-- Bytes that belong to a symbol that has been read. -/
theorem lexEvents_skip (prev : UInt8) (ccst : Nat) (mode : Mode) (w text : List UInt8) :
    lexEvents ccsc opener escape prev ⟨ccst, mode, w.length⟩ (w ++ text) =
      List.replicate w.length .other ++
        lexEvents ccsc opener escape (w.getLastD prev) ⟨ccst, mode, 0⟩ text := by
  induction w generalizing prev with
  | nil => rfl
  | cons c w ih =>
    rw [List.cons_append, lexEvents_cons, lexStep, if_pos (by simp)]
    simp only [List.length_cons, Nat.add_sub_cancel, ih, List.replicate_succ, List.cons_append,
      List.getLastD_cons]

/-- Bytes that leave the driver outside of quotes and comments, in a word or not. -/
theorem lexEvents_blank {prev : UInt8} {mode : Mode} {w text : List UInt8}
    (hmode : mode = .idle ∨ mode = .word) (hne : w ≠ [])
    (hw : ∀ c ∈ w, c < 0x80 ∧ ∀ prev rest,
      lexIdle ccsc opener escape prev c rest = (.idle, 0, .other) ∧ isWordChar c = false) :
    lexEvents ccsc opener escape prev ⟨0, mode, 0⟩ (w ++ text) =
      List.replicate w.length .other ++
        lexEvents ccsc opener escape (w.getLastD prev) ⟨0, .idle, 0⟩ text := by
  induction w generalizing prev mode with
  | nil => exact absurd rfl hne
  | cons c w ih =>
    obtain ⟨hlt, hc⟩ := hw c List.mem_cons_self
    have h0 : mbcsNonAscii (pgCSStat 0 c ccsc) c = false :=
      mbcsNonAscii_eq_false.2 ⟨pgCSStat_ascii (settled_zero ccsc) hlt, hlt⟩
    have hmode' : lexMode ccsc opener escape prev c (w ++ text) mode = (.idle, 0, .other) := by
      rcases hmode with rfl | rfl
      · exact (hc _ _).1
      · rw [lexMode, if_neg (by rw [(hc prev []).2]; exact Bool.false_ne_true)]
        exact (hc _ _).1
    rw [List.cons_append, lexEvents_cons, lexStep_ascii h0, hmode']
    by_cases hw' : w = []
    · subst hw'
      rfl
    · rw [ih (Or.inl rfl) hw' fun c hc ↦ hw c (List.mem_cons_of_mem _ hc), List.getLastD_cons]
      rfl

/-- A letter or a digit outside of quotes and comments. -/
theorem lexIdle_word {c : UInt8} (hc : isAlnum c = true) (prev : UInt8) (rest : List UInt8) :
    lexIdle ccsc opener escape prev c rest = (.word, 0, .other) := by
  rw [lexIdle, strnicmpEq_identity fun h ↦ by rw [h] at hc; exact absurd hc (by decide)]
  simp only [isAlnum, odbcEscapeStart, paramMarker, dollarQuote, literalQuote, identifierQuote,
    slash, hyphen, semicolon, Bool.false_eq_true, or_false] at hc ⊢
  grind

/-- The bytes of a word. -/
theorem lexEvents_word {prev : UInt8} {mode : Mode} {w text : List UInt8}
    (hmode : mode = .idle ∨ mode = .word) (hne : w ≠ [])
    (hw : ∀ c ∈ w, c < 0x80 ∧ isAlnum c = true) :
    lexEvents ccsc opener escape prev ⟨0, mode, 0⟩ (w ++ text) =
      List.replicate w.length .other ++
        lexEvents ccsc opener escape (w.getLastD prev) ⟨0, .word, 0⟩ text := by
  induction w generalizing prev mode with
  | nil => exact absurd rfl hne
  | cons c w ih =>
    obtain ⟨hlt, hc⟩ := hw c List.mem_cons_self
    have h0 : mbcsNonAscii (pgCSStat 0 c ccsc) c = false :=
      mbcsNonAscii_eq_false.2 ⟨pgCSStat_ascii (settled_zero ccsc) hlt, hlt⟩
    have hidle := @lexIdle_word ccsc opener escape c hc prev (w ++ text)
    have hmode' : lexMode ccsc opener escape prev c (w ++ text) mode = (.word, 0, .other) := by
      rcases hmode with rfl | rfl
      · exact hidle
      · rw [lexMode, if_pos (by rw [isWordChar, hc]; rfl)]
    rw [List.cons_append, lexEvents_cons, lexStep_ascii h0, hmode']
    by_cases hw' : w = []
    · subst hw'
      rfl
    · rw [ih (Or.inr rfl) hw' fun c hc ↦ hw c (List.mem_cons_of_mem _ hc), List.getLastD_cons]
      rfl

theorem lexIdle_delim {prev c : UInt8} {rest : List UInt8}
    (h : (lexIdle ccsc opener escape prev c rest).2.2 = .delim) :
    lexIdle ccsc opener escape prev c rest = (.idle, 0, .delim) := by
  by_cases hc : c = semicolon
  · subst hc
    rw [lexIdle, strnicmpEq_identity (by decide)]
    rfl
  · -- No other byte is a semicolon.
    rw [lexIdle, if_neg hc] at h
    simp only at h
    repeat' split at h
    all_goals cases h

/-- A semicolon leaves the rules idle. -/
theorem lexMode_delim {prev c : UInt8} {rest : List UInt8}
    {mode : Mode} (h : (lexMode ccsc opener escape prev c rest mode).2.2 = .delim) :
    lexMode ccsc opener escape prev c rest mode = (.idle, 0, .delim) := by
  cases mode with
  | idle => exact lexIdle_delim h
  | word =>
    rw [lexMode] at h ⊢
    split at h
    · cases h
    · next hc =>
      rw [if_neg hc]
      exact lexIdle_delim h
  | escaped esc => exact absurd h (insideEvent_quiet c).2
  | literal esc | dquote | line | dollar tag | comment level =>
    rw [lexMode] at h
    repeat' split at h
    all_goals first | cases h | exact absurd h (insideEvent_quiet c).2

end

/-! ## Where the events are -/

/-- The offsets of an event, the first byte having a given offset. -/
def eventsAt (event : Event) (offset : Nat) : List Event → List Nat
  | [] => []
  | e :: events =>
    if e = event then offset :: eventsAt event (offset + 1) events
    else eventsAt event (offset + 1) events

theorem eventsAt_append (event : Event) (offset : Nat) (as bs : List Event) :
    eventsAt event offset (as ++ bs) =
      eventsAt event offset as ++ eventsAt event (offset + as.length) bs := by
  induction as generalizing offset with
  | nil => rfl
  | cons e as ih =>
    rw [List.cons_append, eventsAt, eventsAt, ih, List.length_cons, Nat.add_assoc, Nat.add_comm 1]
    by_cases h : e = event
    · rw [if_pos h, if_pos h, List.cons_append]
    · rw [if_neg h, if_neg h]

theorem eventsAt_replicate {event : Event} (h : Event.other ≠ event) (offset n : Nat) :
    eventsAt event offset (List.replicate n .other) = [] := by
  induction n generalizing offset with
  | zero => rfl
  | succ n ih => rw [List.replicate_succ, eventsAt, if_neg h, ih]

/-- The event of a symbol is at its first byte. -/
theorem eventsAt_symbol {event : Event} (h : Event.other ≠ event) (offset n : Nat) (e : Event) :
    eventsAt event offset (e :: List.replicate n .other) = if e = event then [offset] else [] := by
  rw [eventsAt, eventsAt_replicate h]

end PsqlOdbc
