import PsqlOdbc.Convert.Identifiers

/-!
# The table of the last insertion (`execute.c`)

After an `INSERT` the connection keeps the names of its table, for `@@identity`.
`setInsertedTable` looks for them at the beginning of the statement; `InsertStatement` is that
beginning as the server reads it.  The names that are kept are those of the table, or none, exactly
for the statements that `NamesTaken` describes (`setInsertedTable_keeps_iff`).
-/

namespace PsqlOdbc

/-! ## The driver -/

/-- The names kept on a connection. -/
structure InsertedTable where
  schemaIns : PgName
  tableIns : PgName
  deriving DecidableEq, Repr

/-- `SC_setInsertedTable`.  It has no result if it reads behind the text. -/
def setInsertedTable (ccsc : CharSet) (isInsert succeeded : Bool) (cmd : List UInt8)
    (conn : InsertedTable) : Option InsertedTable :=
  if !isInsert then some conn
  else if !succeeded then some conn
  else
    let cmd := cmd.dropWhile isSpace
    if cmd = [] then some conn
    else if !strnicmpEq cmd (ascii "insert") then some conn
    else
      match cmd.drop 6 with
      | [] => none
      | _ :: cmd =>
        let cmd := cmd.dropWhile isSpace
        if cmd = [] then some conn
        else if !strnicmpEq cmd (ascii "into") then some conn
        else
          let cmd := (cmd.drop 4).dropWhile isSpace
          if cmd = [] then some conn
          else
            let eaten := eatTableIdentifiers ccsc cmd none none
            some ⟨if eaten.table = none then none else eaten.schema, eaten.table⟩

/-! ## Statements -/

/-- What may stand between two words. -/
inductive GapItem
  | blank (c : UInt8)
  | line (comment : List UInt8)
  | block (comment : List UInt8)
  deriving DecidableEq, Repr

namespace GapItem

def text : GapItem → List UInt8
  | blank c => [c]
  | line comment => hyphen :: hyphen :: comment ++ [pgLinefeed]
  | block comment => slash :: asterisk :: comment ++ [asterisk, slash]

def isBlank : GapItem → Bool
  | blank _ => true
  | _ => false

/-- The text inside of a comment, where as many others are open: it ends with all of them closed. -/
def blockText : Nat → List UInt8 → Bool
  | level, [] => level = 0
  | level, [c] => level = 0 && c ≠ slash
  | level, c :: d :: comment =>
    if c = slash ∧ d = asterisk then blockText (level + 1) comment
    else if c = asterisk ∧ d = slash then 0 < level && blockText (level - 1) comment
    else blockText level (d :: comment)

def Valid : GapItem → Prop
  | blank c => isSpace c = true
  | line comment => pgLinefeed ∉ comment
  | block comment => blockText 0 comment = true

end GapItem

/-- The text of a gap. -/
def gapText (gap : List GapItem) : List UInt8 := gap.flatMap GapItem.text

/-- One part of the name of a table, in characters: without quotes, or in quotes. -/
inductive NamePart
  | word (chars : List (List UInt8))
  | quoted (chars : List (List UInt8))
  deriving DecidableEq, Repr

/-- A character in lower case. -/
def foldChar (c : List UInt8) : List UInt8 := if isAscii c then c.map toLower else c

/-- A letter, a character that is not ASCII, or an underscore. -/
def nameStart (c : List UInt8) : Bool :=
  !isAscii c || isAlpha (c.headD 0) || c.headD 0 = underscore

def nameChar (c : List UInt8) : Bool :=
  !isAscii c || isAlnum (c.headD 0) || c.headD 0 = underscore || c.headD 0 = dollarQuote

namespace NamePart

def chars : NamePart → List (List UInt8)
  | word chars => chars
  | quoted chars => chars

def text : NamePart → List UInt8
  | word chars => chars.flatten
  | quoted chars => PsqlOdbc.quoted chars.flatten

/-- The name that is meant. -/
def name : NamePart → List UInt8
  | word chars => chars.flatMap foldChar
  | quoted chars => chars.flatten

/-- The name as it is written. -/
def written (part : NamePart) : List UInt8 := part.chars.flatten

def isWord : NamePart → Bool
  | word _ => true
  | quoted _ => false

/-- The driver takes no name here that begins with an underscore. -/
def startsUnderscore : NamePart → Bool
  | word chars => chars.head? = some [underscore]
  | quoted _ => false

@[simp] theorem text_word (chars : List (List UInt8)) : (word chars).text = chars.flatten := rfl

structure Valid (ccsc : CharSet) (part : NamePart) : Prop where
  encoded : ∀ c ∈ part.chars, EncodedChar ccsc c
  nonempty : part.chars ≠ []
  start : part.isWord = true → ∀ c ∈ part.chars.head?, nameStart c = true
  goesOn : part.isWord = true → ∀ c ∈ part.chars, nameChar c = true

end NamePart

/-- A further part of a name: the gaps around the dot, and the part. -/
structure DottedPart where
  before : List GapItem
  after : List GapItem
  part : NamePart
  deriving DecidableEq, Repr

namespace DottedPart

def text (dotted : DottedPart) : List UInt8 :=
  gapText dotted.before ++ dot :: (gapText dotted.after ++ dotted.part.text)

/-- Nothing stands around the dot, and the driver takes the name behind it. -/
def taken (dotted : DottedPart) : Bool :=
  dotted.before = [] && dotted.after = [] && !dotted.part.startsUnderscore

end DottedPart

/-- The text does not go on with the part in front of it. -/
def Ends (part : NamePart) : List UInt8 → Prop
  | [] => True
  | c :: _ =>
    match part with
    | .word _ => c < 0x80 ∧ nameChar [c] = false
    | .quoted _ => c ≠ identifierQuote

/-- The parts of an `INSERT` statement up to the name of its table, and the text behind that. -/
structure InsertWords where
  lead : List UInt8
  insertWord : List UInt8
  gap : List GapItem
  intoWord : List UInt8
  gap' : List GapItem
  first : NamePart
  further : List DottedPart
  rest : List UInt8

namespace InsertWords

variable (s : InsertWords)

/-- The name of the table and what is behind it. -/
def target : List UInt8 := s.first.text ++ (s.further.flatMap DottedPart.text ++ s.rest)

def text : List UInt8 :=
  s.lead ++ (s.insertWord ++ (gapText s.gap ++ (s.intoWord ++ (gapText s.gap' ++ s.target))))

/-- The parts of the name. -/
def parts : List NamePart := s.first :: s.further.map DottedPart.part

/-- The last two parts of the name. -/
def names : InsertedTable :=
  match s.parts.reverse with
  | [] => ⟨none, none⟩
  | [table] => ⟨none, table.name⟩
  | table :: schema :: _ => ⟨schema.name, table.name⟩

/-- No comment stands before the name. -/
def blanksOnly : Bool := s.gap.all GapItem.isBlank && s.gap'.all GapItem.isBlank

end InsertWords

/-- The beginning of an `INSERT` statement in a client encoding.  The driver has classified the
statement by the word at its head, with nothing but blanks in front. -/
structure InsertStatement (ccsc : CharSet) extends InsertWords where
  blanks : ∀ c ∈ lead, isSpace c = true
  isInsert : insertWord.map toLower = ascii "insert"
  gap_valid : gap ≠ [] ∧ ∀ item ∈ gap, item.Valid
  isInto : intoWord.map toLower = ascii "into"
  gap'_valid : ∀ item ∈ gap', item.Valid
  gap'_needed : first.isWord = true → gap' ≠ []
  first_valid : first.Valid ccsc
  further_valid : ∀ dotted ∈ further, dotted.part.Valid ccsc ∧
    (∀ item ∈ dotted.before, item.Valid) ∧ ∀ item ∈ dotted.after, item.Valid
  /-- The server knows databases, schemas and tables. -/
  atMostThree : further.length ≤ 2
  ends : Ends ((further.map DottedPart.part).getLastD first) rest
  /-- The name does not go on, and it is not written with the escapes of `U&`. -/
  complete : rest.head? ≠ some 0x26 ∧ ∀ gap more, (∀ item ∈ gap, GapItem.Valid item) →
    rest ≠ gapText gap ++ dot :: more
  noNul : (0 : UInt8) ∉ toInsertWords.text

/-- After the statement the connection has the names of the table, or what it had, or none. -/
def KeepsNames (ccsc : CharSet) (s : InsertWords) : Prop :=
  ∀ conn, ∃ conn', setInsertedTable ccsc true true s.text conn = some conn' ∧
    (conn' = s.names ∨ conn' = conn ∨ conn' = ⟨none, none⟩)

/-- The parts are joined by dots alone, the later ones do not begin with an underscore, and the
first has no letter in upper case unless it is in quotes or is the first of three.  The third of three may
be missed if all of them are the same name. -/
def NamesTaken (s : InsertWords) : Prop :=
  match s.further with
  | [] => s.first.written = s.first.name
  | [d] => d.taken = true ∧ s.first.written = s.first.name
  | [d, e] => d.taken = true ∧ (e.taken = true ∨
      s.first.written = d.part.name ∧ d.part.name = e.part.name)
  | _ => False

/-! ## Walking over a name -/

section

variable {ccsc : CharSet} {c bs after : List UInt8} {chars : List (List UInt8)} {st pos i : Nat}

/-- The bytes of an encoded character that is not ASCII are none of the ASCII marks. -/
theorem EncodedChar.ge_of_not_ascii (hc : EncodedChar ccsc c) (ha : isAscii c = false) :
    ∀ b ∈ c, 0x30 ≤ b := by
  intro b hb
  cases hc with
  | @single _ c =>
    rw [isAscii_singleton, decide_eq_false_iff_not] at ha
    rw [List.mem_singleton.1 hb]
    grind
  | multi hm hc => cases hc <;> grind [isAscii]
  | utf8One h =>
    rw [isAscii_singleton, decide_eq_false_iff_not] at ha
    exact absurd h ha
  | utf8Two | utf8Three | utf8Four => grind
  | muleOne h =>
    rw [isAscii_singleton, decide_eq_false_iff_not] at ha
    exact absurd h ha
  | mule _ _ h => exact UInt8.le_trans (by decide) (h b hb)

theorem EncodedChar.ne_nil (hc : EncodedChar ccsc c) : c ≠ [] := by
  rintro rfl
  cases hc with
  | multi _ hc => cases hc
  | mule h => exact absurd h (by decide)

/-- A character that is a single ASCII byte. -/
theorem eq_singleton_of_isAscii (ha : isAscii c = true) : ∃ b, c = [b] ∧ b < 0x80 := by
  rw [isAscii, Bool.and_eq_true, decide_eq_true_eq, decide_eq_true_eq] at ha
  obtain ⟨b, rfl⟩ := List.length_eq_one_iff.1 ha.1
  exact ⟨b, rfl, ha.2⟩

/-- A name that is not quoted does not begin with a mark. -/
theorem EncodedChar.head_nameStart (hc : EncodedChar ccsc c) (hname : nameStart c = true) :
    ∃ b bs, c = b :: bs ∧ 0x30 ≤ b := by
  obtain ⟨b, bs, rfl⟩ := List.exists_cons_of_ne_nil hc.ne_nil
  refine ⟨b, bs, rfl, ?_⟩
  cases ha : isAscii (b :: bs) with
  | false => exact hc.ge_of_not_ascii ha b List.mem_cons_self
  | true =>
    rw [nameStart, ha, Bool.not_true, Bool.false_or, List.headD_cons, Bool.or_eq_true,
      decide_eq_true_eq, isAlpha, Bool.or_eq_true, Bool.and_eq_true, Bool.and_eq_true,
      decide_eq_true_eq, decide_eq_true_eq] at hname
    rcases hname with (h | h) | rfl
    · exact UInt8.le_trans (b := 0x41) (by decide) h.1
    · exact UInt8.le_trans (b := 0x61) (by decide) (of_decide_eq_true h.1)
    · decide

/-- The walk is right about a character. -/
def Seen (ccsc : CharSet) (c : List UInt8) : Prop :=
  EncodedChar ccsc c ∧ ∀ st < 2, CharWalk ccsc (isAscii c) st c

/-- `findIdentifier` goes over the bytes of a character that is not ASCII. -/
theorem identifierLoop_high {dquote : Bool} (h : CharWalk ccsc false st bs) :
    identifierLoop ccsc dquote st pos (bs ++ after) =
      identifierLoop ccsc dquote (walkState ccsc st bs) (pos + bs.length) after := by
  induction bs generalizing st pos with
  | nil => rfl
  | cons b bs ih =>
    rw [List.cons_append, identifierLoop.eq_def]
    dsimp only
    have hhigh : mbcsNonAscii (pgCSStat st b ccsc) b = true := h.1
    rw [if_pos hhigh, ih h.2, walkState_cons, List.length_cons, Nat.add_right_comm, Nat.add_assoc]

/-- `findIdentifier` goes over a character of a name that is not quoted. -/
theorem identifierLoop_char (hseen : Seen ccsc c) (hchar : nameChar c = true) (hst : st < 2) :
    identifierLoop ccsc false st pos (c ++ after) =
      identifierLoop ccsc false (walkState ccsc st c) (pos + c.length) after := by
  have hwalk := hseen.2 st hst
  cases ha : isAscii c with
  | false =>
    rw [ha] at hwalk
    exact identifierLoop_high hwalk
  | true =>
    obtain ⟨b, rfl, hb⟩ := eq_singleton_of_isAscii ha
    rw [ha] at hwalk
    have hname : isAlnum b = true ∨ b = underscore ∨ b = dollarQuote := by
      rw [nameChar, ha, Bool.not_true, Bool.false_or, Bool.or_eq_true, Bool.or_eq_true,
        decide_eq_true_eq, decide_eq_true_eq] at hchar
      exact or_assoc.1 hchar
    rw [List.cons_append, identifierLoop.eq_def]
    dsimp only
    rw [if_neg (by rw [hwalk.1]; decide), if_neg Bool.false_ne_true, if_pos hname]
    rfl

theorem identifierLoop_word (hseen : ∀ c ∈ chars, Seen ccsc c)
    (hchars : ∀ c ∈ chars, nameChar c = true) (hst : st < 2) :
    identifierLoop ccsc false st pos (chars.flatten ++ after) =
      identifierLoop ccsc false (walkState ccsc st chars.flatten) (pos + chars.flatten.length)
        after := by
  induction chars generalizing st pos with
  | nil => rfl
  | cons c chars ih =>
    obtain ⟨hc, hseen⟩ := List.forall_mem_cons.1 hseen
    obtain ⟨hchar, hchars⟩ := List.forall_mem_cons.1 hchars
    rw [List.flatten_cons, List.append_assoc, identifierLoop_char hc hchar hst,
      ih hseen hchars (hc.2 st hst).walkState_lt, walkState_append, List.length_append,
      Nat.add_assoc]

theorem walkState_flatten_lt (hseen : ∀ c ∈ chars, Seen ccsc c) (hst : st < 2) :
    walkState ccsc st chars.flatten < 2 := by
  induction chars generalizing st with
  | nil => exact hst
  | cons c chars ih =>
    obtain ⟨hc, hseen⟩ := List.forall_mem_cons.1 hseen
    rw [List.flatten_cons, walkState_append]
    exact ih hseen (hc.2 st hst).walkState_lt

/-- `findIdentifier` stops where the name ends. -/
theorem identifierLoop_ends (hst : st < 2) (hends : Ends (.word chars) after) :
    identifierLoop ccsc false st pos after = ((pos : Int), after) := by
  cases after with
  | nil => rfl
  | cons d after =>
    obtain ⟨hd, hname⟩ := hends
    have h0 : pgCSStat st d ccsc = 0 := pgCSStat_ascii (Or.inr hst) hd
    rw [nameChar, isAscii_singleton, decide_eq_true hd, Bool.not_true, Bool.false_or,
      Bool.or_eq_false_iff, Bool.or_eq_false_iff, decide_eq_false_iff_not,
      decide_eq_false_iff_not] at hname
    rw [identifierLoop.eq_def]
    dsimp only
    rw [if_neg (by rw [mbcsNonAscii_eq_false.2 ⟨h0, hd⟩]; decide), if_neg Bool.false_ne_true,
      if_neg]
    rintro (h | h | h)
    · exact Bool.false_ne_true (hname.1.1.symm.trans h)
    · exact hname.1.2 h
    · exact hname.2 h

/-- The walk sees the quotes of a name. -/
theorem quotesSeen_high (h : CharWalk ccsc false st bs) (hbs : ∀ b ∈ bs, 0x30 ≤ b)
    (hafter : QuotesSeen ccsc (walkState ccsc st bs) after) : QuotesSeen ccsc st (bs ++ after) := by
  induction bs generalizing st with
  | nil => exact hafter
  | cons b bs ih =>
    obtain ⟨hb, hbs⟩ := List.forall_mem_cons.1 hbs
    refine ⟨?_, ih h.2 hbs hafter⟩
    rintro rfl
    exact absurd hb (by decide)

theorem quotesSeen_chars (hseen : ∀ c ∈ chars, Seen ccsc c) (hst : st < 2) :
    QuotesSeen ccsc st chars.flatten := by
  induction chars generalizing st with
  | nil => exact pgCSStat_ascii (Or.inr hst) (by decide)
  | cons c chars ih =>
    obtain ⟨hc, hseen⟩ := List.forall_mem_cons.1 hseen
    have hwalk := hc.2 st hst
    have hrest := ih hseen hwalk.walkState_lt
    rw [List.flatten_cons]
    cases ha : isAscii c with
    | false =>
      rw [ha] at hwalk
      exact quotesSeen_high hwalk (hc.1.ge_of_not_ascii ha) hrest
    | true =>
      obtain ⟨b, rfl, hb⟩ := eq_singleton_of_isAscii ha
      exact ⟨fun _ ↦ pgCSStat_ascii (Or.inr hst) hb, hrest⟩

/-- Bytes of a character that is not ASCII are kept. -/
theorem lowerLoop_high {idQuote : Bool} {srclen : Nat} (h : CharWalk ccsc false st bs)
    (hi : i + bs.length ≤ srclen) :
    lowerOrRemoveDquoteLoop ccsc idQuote srclen i st (bs ++ after) =
      bs ++ lowerOrRemoveDquoteLoop ccsc idQuote srclen (i + bs.length) (walkState ccsc st bs)
        after := by
  induction bs generalizing st i with
  | nil => rfl
  | cons b bs ih =>
    rw [List.length_cons] at hi
    rw [List.cons_append, lowerOrRemoveDquoteLoop, if_neg (by omega)]
    dsimp only
    have hhigh : mbcsNonAscii (pgCSStat st b ccsc) b = true := h.1
    rw [if_pos hhigh, ih h.2 (by omega), walkState_cons, List.length_cons, List.cons_append,
      Nat.add_right_comm, Nat.add_assoc]

/-- A name that is not quoted is put into lower case. -/
theorem lowerLoop_word {srclen : Nat} (hseen : ∀ c ∈ chars, Seen ccsc c) (hst : st < 2)
    (hi : srclen = i + chars.flatten.length) :
    lowerOrRemoveDquoteLoop ccsc false srclen i st (chars.flatten ++ after) =
      chars.flatMap foldChar := by
  induction chars generalizing st i with
  | nil =>
    cases after with
    | nil => rfl
    | cons d after =>
      rw [List.flatten_nil, List.nil_append, lowerOrRemoveDquoteLoop,
        if_pos (Nat.le_of_eq (hi.trans (Nat.add_zero i)))]
      rfl
  | cons c chars ih =>
    obtain ⟨hc, hseen⟩ := List.forall_mem_cons.1 hseen
    have hwalk := hc.2 st hst
    rw [List.flatten_cons, List.length_append] at hi
    have hrest := @ih _ (i + c.length) hseen hwalk.walkState_lt (by omega)
    rw [List.flatten_cons, List.append_assoc, List.flatMap_cons, ← hrest, foldChar]
    cases ha : isAscii c with
    | false =>
      rw [ha] at hwalk
      exact lowerLoop_high hwalk (by omega)
    | true =>
      obtain ⟨b, rfl, hb⟩ := eq_singleton_of_isAscii ha
      rw [ha] at hwalk
      have hlen : ([b] : List UInt8).length = 1 := rfl
      rw [List.cons_append, lowerOrRemoveDquoteLoop, if_neg (by omega)]
      dsimp only
      rw [if_neg (by rw [hwalk.1]; decide), if_pos (by decide)]
      rfl

end

/-! ## One name -/

section

variable {ccsc : CharSet} {part : NamePart} {p t after : List UInt8} {gap : List GapItem}

/-- What `eatTableIdentifiers` finds at the beginning of a text: the length of a name, and whether a
dot is next to it. -/
def takeName (ccsc : CharSet) (tstr : List UInt8) : Option (Nat × Bool) :=
  match findIdentifier ccsc tstr with
  | (len, nextToken) =>
    if len ≤ 0 then none else some (len.toNat, isQualifier tstr len nextToken)

/-- A name is a qualifier if a dot follows it at once. -/
theorem isQualifier_eq (p after : List UInt8) :
    isQualifier (p ++ after) p.length
      (if after.dropWhile isSpace = [] then none
        else some (p.length + after.length - (after.dropWhile isSpace).length)) =
      decide (after.head? = some dot) := by
  cases after with
  | nil => rfl
  | cons d after =>
    rw [List.head?_cons]
    by_cases hd : isSpace d = true
    · -- The next token is farther away.
      have hle : (after.dropWhile isSpace).length ≤ after.length :=
        (List.dropWhile_suffix isSpace).length_le
      have hdot : ¬some d = some dot := by
        intro h
        rw [Option.some_inj.1 h] at hd
        exact absurd hd (by decide)
      rw [List.dropWhile_cons_of_pos hd, decide_eq_false hdot]
      split
      · rfl
      · rw [isQualifier, Option.any_some, Bool.and_eq_false_iff]
        right
        rw [List.length_cons]
        exact decide_eq_false (by omega)
    · rw [List.dropWhile_cons_of_neg hd, if_neg (List.cons_ne_nil d after), Nat.add_sub_cancel,
        isQualifier, Option.any_some, List.getD_eq_getElem?_getD,
        List.getElem?_append_right (Nat.le_refl _), Nat.sub_self]
      simp

/-- A name of which `findIdentifier` says where it ends. -/
theorem takeName_found (hpos : p ≠ [])
    (h : findIdentifier ccsc (p ++ after) = ((p.length : Int),
      if after.dropWhile isSpace = [] then none
      else some (p.length + after.length - (after.dropWhile isSpace).length))) :
    takeName ccsc (p ++ after) = some (p.length, decide (after.head? = some dot)) := by
  have hlen : 0 < p.length := List.length_pos_iff.2 hpos
  rw [takeName, h]
  dsimp only
  rw [if_neg (by omega), isQualifier_eq, Int.toNat_natCast]

theorem findIdentifier_loop
    (h : ∀ c ∈ t.head?, mbcsNonAscii (pgCSStat 0 c ccsc) c = true ∨
      mbcsNonAscii (pgCSStat 0 c ccsc) c = false ∧ isAlpha c = true) :
    findIdentifier ccsc t =
      (fun found : Int × List UInt8 ↦ (found.1,
        if found.2.dropWhile isSpace = [] then none
        else some (t.length - (found.2.dropWhile isSpace).length)))
        (identifierLoop ccsc false 0 0 t) := by
  cases t with
  | nil => rfl
  | cons c t =>
    have hfound : (if mbcsNonAscii (pgCSStat 0 c ccsc) c then
          identifierLoop ccsc false (pgCSStat 0 c ccsc) 1 t
        else if c = identifierQuote then identifierLoop ccsc true (pgCSStat 0 c ccsc) 1 t
        else if isAlpha c then identifierLoop ccsc false (pgCSStat 0 c ccsc) 1 t
        else (0, c :: t)) = identifierLoop ccsc false 0 0 (c :: t) := by
      conv_rhs => rw [identifierLoop.eq_def]
      dsimp only
      rcases h c rfl with hhigh | ⟨hascii, halpha⟩
      · rw [if_pos hhigh, if_pos hhigh]
      · have hquote : c ≠ identifierQuote := by
          rintro rfl
          exact absurd halpha (by decide)
        have halnum : isAlnum c = true := by
          rw [isAlpha] at halpha
          rw [isAlnum, Bool.or_assoc, halpha, Bool.or_true]
        rw [hascii, if_neg Bool.false_ne_true, if_neg Bool.false_ne_true, if_neg hquote,
          if_pos halpha, if_neg Bool.false_ne_true, if_pos (Or.inl halnum)]
    exact congrArg (fun found : Int × List UInt8 ↦ (found.1,
      if found.2.dropWhile isSpace = [] then none
      else some ((c :: t).length - (found.2.dropWhile isSpace).length))) hfound

/-- The driver takes the name. -/
theorem takeName_part (hvalid : part.Valid ccsc) (hseen : ∀ c ∈ part.chars, Seen ccsc c)
    (hends : Ends part after) (hstart : part.startsUnderscore = false) :
    takeName ccsc (part.text ++ after) =
      some (part.text.length, decide (after.head? = some dot)) := by
  cases part with
  | quoted chars =>
    apply takeName_found (List.cons_ne_nil _ _)
    apply findIdentifier_quoted (quotesSeen_chars hseen Nat.zero_lt_two)
    cases after with
    | nil => exact nofun
    | cons d after => exact fun h ↦ hends (Option.some_inj.1 h)
  | word chars =>
    obtain ⟨c, chars, rfl⟩ := List.exists_cons_of_ne_nil hvalid.nonempty
    have hc : Seen ccsc c := hseen c List.mem_cons_self
    have hname : nameStart c = true := hvalid.start rfl c rfl
    have hwalk := hc.2 0 Nat.zero_lt_two
    obtain ⟨b, bs, rfl⟩ := List.exists_cons_of_ne_nil hc.1.ne_nil
    have hne : ((b :: bs) :: chars).flatten ≠ [] := List.cons_ne_nil b (bs ++ chars.flatten)
    have hloop : identifierLoop ccsc false 0 0 (((b :: bs) :: chars).flatten ++ after) =
        (((((b :: bs) :: chars).flatten.length : Nat) : Int), after) := by
      have hseen' : ∀ c ∈ (b :: bs) :: chars, Seen ccsc c := hseen
      have hchars : ∀ c ∈ (b :: bs) :: chars, nameChar c = true := hvalid.goesOn rfl
      rw [identifierLoop_word hseen' hchars Nat.zero_lt_two, Nat.zero_add]
      exact identifierLoop_ends (walkState_flatten_lt hseen' Nat.zero_lt_two) hends
    rw [NamePart.text_word]
    apply takeName_found hne
    rw [findIdentifier_loop]
    · rw [hloop, List.length_append]
    · rintro c' ⟨⟩
      cases ha : isAscii (b :: bs) with
      | false =>
        rw [ha] at hwalk
        exact Or.inl hwalk.1
      | true =>
        rw [ha] at hwalk
        refine Or.inr ⟨hwalk.1, ?_⟩
        rw [nameStart, ha, Bool.not_true, Bool.false_or, Bool.or_eq_true, decide_eq_true_eq]
          at hname
        refine hname.resolve_right fun hb ↦ ?_
        obtain ⟨b', hb', -⟩ := eq_singleton_of_isAscii ha
        obtain ⟨rfl, rfl⟩ := List.cons.inj hb'
        rw [NamePart.startsUnderscore, decide_eq_false_iff_not] at hstart
        exact hstart (congrArg (fun b ↦ some [b]) hb)

theorem isAlpha_of_le {c : UInt8} (hle : c ≤ 0x20) : isAlpha c = false := by
  rw [isAlpha, Bool.or_eq_false_iff, Bool.and_eq_false_iff, Bool.and_eq_false_iff]
  constructor
  · left
    exact decide_eq_false fun h ↦ absurd (UInt8.le_trans h hle) (by decide)
  · left
    exact decide_eq_false fun h ↦ absurd (UInt8.le_trans h hle) (by decide)

/-- Where no name begins, none is taken. -/
theorem takeName_other {c : UInt8} (hc : c < 0x80) (hquote : c ≠ identifierQuote)
    (halpha : isAlpha c = false) : takeName ccsc (c :: t) = none := by
  have h0 : pgCSStat 0 c ccsc = 0 := pgCSStat_ascii (settled_zero ccsc) hc
  have hascii := mbcsNonAscii_eq_false.2 ⟨h0, hc⟩
  have hlen : (findIdentifier ccsc (c :: t)).1 = 0 := by
    change (if mbcsNonAscii (pgCSStat 0 c ccsc) c then
        identifierLoop ccsc false (pgCSStat 0 c ccsc) 1 t
      else if c = identifierQuote then identifierLoop ccsc true (pgCSStat 0 c ccsc) 1 t
      else if isAlpha c then identifierLoop ccsc false (pgCSStat 0 c ccsc) 1 t
      else (0, c :: t)).1 = 0
    rw [hascii, halpha, if_neg Bool.false_ne_true, if_neg hquote, if_neg Bool.false_ne_true]
  exact if_pos (Int.le_of_eq hlen)

theorem takeName_underscore (h : part.startsUnderscore = true) :
    takeName ccsc (part.text ++ after) = none := by
  cases part with
  | quoted chars => cases h
  | word chars =>
    rw [NamePart.startsUnderscore, decide_eq_true_eq] at h
    cases chars with
    | nil => cases h
    | cons c chars =>
      cases h
      exact takeName_other (by decide) (by decide) (by decide)

/-- A gap begins with a blank, or with the two marks of a comment. -/
theorem gapText_head (hgap : gap ≠ []) (hvalid : ∀ item ∈ gap, item.Valid) :
    ∃ c u, gapText gap = c :: u ∧ (isSpace c = true ∨ c = hyphen ∨ c = slash) := by
  obtain ⟨item, gap, rfl⟩ := List.exists_cons_of_ne_nil hgap
  obtain ⟨hitem, -⟩ := List.forall_mem_cons.1 hvalid
  cases item with
  | blank c => exact ⟨c, gapText gap, rfl, Or.inl hitem⟩
  | line comment => exact ⟨hyphen, _, rfl, Or.inr (Or.inl rfl)⟩
  | block comment => exact ⟨slash, _, rfl, Or.inr (Or.inr rfl)⟩

theorem takeName_gap (hgap : gap ≠ []) (hvalid : ∀ item ∈ gap, item.Valid) :
    takeName ccsc (gapText gap ++ after) = none := by
  obtain ⟨c, u, hu, hc⟩ := gapText_head hgap hvalid
  rw [hu, List.cons_append]
  rcases hc with hc | rfl | rfl
  · have hle := le_of_isSpace hc
    apply takeName_other
    · exact UInt8.lt_of_le_of_lt hle (by decide)
    · rintro rfl
      exact absurd hle (by decide)
    · exact isAlpha_of_le hle
  · exact takeName_other (by decide) (by decide) (by decide)
  · exact takeName_other (by decide) (by decide) (by decide)

/-- The name that is meant is what is left of a later part. -/
theorem lowerOrRemoveDquote_part (hvalid : part.Valid ccsc)
    (hseen : ∀ c ∈ part.chars, Seen ccsc c) :
    lowerOrRemoveDquote ccsc (part.text ++ after) part.text.length = part.name := by
  cases part with
  | quoted chars => exact lowerOrRemoveDquote_quoted (quotesSeen_chars hseen Nat.zero_lt_two)
  | word chars =>
    obtain ⟨c, chars, rfl⟩ := List.exists_cons_of_ne_nil hvalid.nonempty
    obtain ⟨b, bs, rfl, hb⟩ := (hvalid.encoded c List.mem_cons_self).head_nameStart
      (hvalid.start rfl c rfl)
    have hquote : b ≠ identifierQuote := by
      rintro rfl
      exact absurd hb (by decide)
    rw [NamePart.text_word, lowerOrRemoveDquote, List.flatten_cons, List.cons_append,
      List.cons_append, List.headD_cons, decide_eq_false hquote]
    exact lowerLoop_word hseen Nat.zero_lt_two (Nat.zero_add _).symm

end

/-! ## The name of the table -/

/-- What `eatTableIdentifiers` makes of the text behind a dot, if it takes `n` more names. -/
def takeFurther (ccsc : CharSet) : Nat → InsertedTable → List UInt8 → InsertedTable
  | 0, names, _ => names
  | n + 1, names, tstr =>
    match takeName ccsc tstr with
    | none => names
    | some (len, dotted) =>
      let names := ⟨names.tableIns, lowerOrRemoveDquote ccsc tstr len⟩
      if dotted then takeFurther ccsc n names (tstr.drop (len + 1)) else names

/-- The text behind a name. -/
def takeBehind (ccsc : CharSet) (n : Nat) (names : InsertedTable) (after : List UInt8) :
    InsertedTable :=
  if after.head? = some dot then takeFurther ccsc n names after.tail else names

/-- The first name is not put into lower case. -/
def firstName (ccsc : CharSet) (tstr : List UInt8) (len : Nat) : List UInt8 :=
  if tstr.headD 0 = identifierQuote then lowerOrRemoveDquote ccsc tstr len else tstr.take len

/-- The names that are taken of parts with dots. -/
def takenNames : InsertedTable → List DottedPart → InsertedTable
  | names, [] => names
  | names, d :: further =>
    if d.taken then takenNames ⟨names.tableIns, d.part.name⟩ further else names

section

variable {ccsc : CharSet} {part : NamePart} {d : DottedPart} {str t after rest : List UInt8}
  {gap : List GapItem} {names : InsertedTable} {n : Nat} {further : List DottedPart}

theorem eatTableIdentifiers_names (hstr : str.dropWhile isSpace = str) :
    (⟨(eatTableIdentifiers ccsc str none none).schema,
      (eatTableIdentifiers ccsc str none none).table⟩ : InsertedTable) =
    match takeName ccsc str with
    | none => ⟨none, none⟩
    | some (len, dotted) =>
      if dotted then takeFurther ccsc 2 ⟨none, firstName ccsc str len⟩ (str.drop (len + 1))
      else ⟨none, firstName ccsc str len⟩ := by
  rw [eatTableIdentifiers, hstr, takeName]
  rcases findIdentifier ccsc str with ⟨len, next⟩
  dsimp only
  by_cases hlen : len ≤ 0
  · rw [if_pos hlen, if_pos hlen]
  · rw [if_neg hlen, if_neg hlen]
    dsimp only
    cases hdot : isQualifier str len next with
    | false => rfl
    | true =>
      rw [if_neg (by decide), if_pos rfl, takeFurther, takeName]
      rcases findIdentifier ccsc (str.drop (len.toNat + 1)) with ⟨len', next'⟩
      dsimp only
      by_cases hlen' : len' ≤ 0
      · rw [if_pos hlen', if_pos hlen']
        rfl
      · rw [if_neg hlen', if_neg hlen']
        dsimp only
        cases hdot' : isQualifier (str.drop (len.toNat + 1)) len' next' with
        | false => rfl
        | true =>
          rw [if_neg (by decide), if_pos rfl, takeFurther, takeName]
          rcases findIdentifier ccsc ((str.drop (len.toNat + 1)).drop (len'.toNat + 1)) with
            ⟨len'', next''⟩
          dsimp only
          by_cases hlen'' : len'' ≤ 0
          · rw [if_pos hlen'', if_pos hlen'']
            rfl
          · rw [if_neg hlen'', if_neg hlen'']
            dsimp only
            rw [takeFurther, ite_self]

theorem takeFurther_none (h : takeName ccsc t = none) : takeFurther ccsc n names t = names := by
  cases n with
  | zero => rfl
  | succ n => rw [takeFurther, h]

theorem takeFurther_part (hvalid : part.Valid ccsc) (hseen : ∀ c ∈ part.chars, Seen ccsc c)
    (hends : Ends part after) (hstart : part.startsUnderscore = false) :
    takeFurther ccsc (n + 1) names (part.text ++ after) =
      takeBehind ccsc n ⟨names.tableIns, part.name⟩ after := by
  rw [takeFurther, takeName_part hvalid hseen hends hstart]
  dsimp only
  rw [lowerOrRemoveDquote_part hvalid hseen, takeBehind, List.drop_length_add_append,
    List.drop_one]
  simp only [decide_eq_true_eq]

theorem takeBehind_rest (h : rest.head? ≠ some dot) : takeBehind ccsc n names rest = names :=
  if_neg h

/-- A further part: it is taken, or the names stay as they are. -/
theorem takeBehind_dotted (hvalid : d.part.Valid ccsc)
    (hgaps : (∀ item ∈ d.before, item.Valid) ∧ ∀ item ∈ d.after, item.Valid)
    (hseen : ∀ c ∈ d.part.chars, Seen ccsc c) (hends : Ends d.part after) :
    takeBehind ccsc (n + 1) names (d.text ++ after) =
      if d.taken then takeBehind ccsc n ⟨names.tableIns, d.part.name⟩ after else names := by
  obtain ⟨before, behind, part⟩ := d
  rw [DottedPart.text, List.append_assoc, List.cons_append, List.append_assoc]
  dsimp only at *
  cases before with
  | cons item before =>
    -- The dot is not next to the name in front of it.
    rw [takeBehind_rest]
    · rfl
    · obtain ⟨c, u, hu, hc⟩ := gapText_head (List.cons_ne_nil item before) hgaps.1
      rw [hu]
      rintro ⟨⟩
      exact absurd hc (by decide)
  | nil =>
    rw [takeBehind, gapText, List.flatMap_nil, List.nil_append, List.head?_cons, if_pos rfl,
      List.tail_cons]
    cases behind with
    | cons item behind =>
      exact takeFurther_none (takeName_gap (List.cons_ne_nil item behind) hgaps.2)
    | nil =>
      rw [gapText, List.flatMap_nil, List.nil_append]
      cases hstart : part.startsUnderscore with
      | true =>
        rw [takeFurther_none (takeName_underscore hstart), DottedPart.taken, hstart]
        rfl
      | false =>
        rw [takeFurther_part hvalid hseen hends hstart, DottedPart.taken, hstart]
        rfl

theorem firstName_part (hvalid : part.Valid ccsc) (hseen : ∀ c ∈ part.chars, Seen ccsc c) :
    firstName ccsc (part.text ++ after) part.text.length = part.written := by
  cases part with
  | quoted chars =>
    have hquote : ((NamePart.quoted chars).text ++ after).headD 0 = identifierQuote := rfl
    rw [firstName, if_pos hquote]
    exact lowerOrRemoveDquote_quoted (quotesSeen_chars hseen Nat.zero_lt_two)
  | word chars =>
    obtain ⟨c, chars, rfl⟩ := List.exists_cons_of_ne_nil hvalid.nonempty
    obtain ⟨b, bs, rfl, hb⟩ := (hvalid.encoded c List.mem_cons_self).head_nameStart
      (hvalid.start rfl c rfl)
    have hquote : b ≠ identifierQuote := by
      rintro rfl
      exact absurd hb (by decide)
    rw [firstName]
    refine (if_neg hquote).trans ?_
    rw [List.take_left]
    rfl

/-- A name ends where a dot or a gap follows it. -/
theorem ends_mark {c : UInt8} (part : NamePart)
    (hc : c = dot ∨ isSpace c = true ∨ c = hyphen ∨ c = slash) : Ends part (c :: t) := by
  have hends : c ≠ identifierQuote ∧ c < 0x80 ∧ nameChar [c] = false := by
    rcases hc with rfl | hc | rfl | rfl
    · decide
    · have hle := le_of_isSpace hc
      have hlt : c < 0x80 := UInt8.lt_of_le_of_lt hle (by decide)
      refine ⟨?_, hlt, ?_⟩
      · rintro rfl
        exact absurd hle (by decide)
      · have hne : c ≠ underscore ∧ c ≠ dollarQuote := by
          constructor <;> rintro rfl <;> exact absurd hle (by decide)
        have hdigit : ¬0x30 ≤ c := fun h ↦ absurd (UInt8.le_trans h hle) (by decide)
        have halnum : isAlnum c = false := by
          have halpha := isAlpha_of_le hle
          rw [isAlpha] at halpha
          rw [isAlnum, Bool.or_assoc, halpha, decide_eq_false hdigit]
          rfl
        rw [nameChar, isAscii_singleton, decide_eq_true hlt, List.headD_cons, halnum,
          decide_eq_false hne.1, decide_eq_false hne.2]
        rfl
    · decide
    · decide
  cases part with
  | word chars => exact hends.2
  | quoted chars => exact hends.1

theorem ends_dotted (part : NamePart) (hgap : ∀ item ∈ d.before, item.Valid) :
    Ends part (d.text ++ after) := by
  obtain ⟨before, behind, part'⟩ := d
  cases before with
  | nil => exact ends_mark part (Or.inl rfl)
  | cons item before =>
    obtain ⟨c, u, hu, hc⟩ := gapText_head (List.cons_ne_nil item before) hgap
    rw [DottedPart.text, hu]
    exact ends_mark part (Or.inr hc)

/-- All of the further parts. -/
theorem takeBehind_further (hvalid : ∀ d ∈ further, d.part.Valid ccsc ∧
      (∀ item ∈ d.before, item.Valid) ∧ ∀ item ∈ d.after, item.Valid)
    (hseen : ∀ d ∈ further, ∀ c ∈ d.part.chars, Seen ccsc c) (hn : further.length ≤ n)
    (hends : ∀ part ∈ (further.map DottedPart.part).getLast?, Ends part rest)
    (hrest : rest.head? ≠ some dot) :
    takeBehind ccsc n names (further.flatMap DottedPart.text ++ rest) =
      takenNames names further := by
  induction further generalizing n names with
  | nil => exact takeBehind_rest hrest
  | cons d further ih =>
    obtain ⟨⟨hpart, hgaps⟩, hvalid⟩ := List.forall_mem_cons.1 hvalid
    obtain ⟨hd, hseen⟩ := List.forall_mem_cons.1 hseen
    cases n with
    | zero => exact absurd hn (Nat.not_succ_le_zero _)
    | succ n =>
      rw [List.flatMap_cons, List.append_assoc, takenNames, takeBehind_dotted hpart hgaps hd]
      · split
        · apply ih hvalid hseen (Nat.le_of_succ_le_succ hn)
          intro part hlast
          apply hends
          rw [List.map_cons, List.getLast?_cons, hlast]
          rfl
        · rfl
      · cases further with
        | nil => exact hends d.part rfl
        | cons e further =>
          rw [List.flatMap_cons, List.append_assoc]
          exact ends_dotted d.part (hvalid e List.mem_cons_self).2.1

end

/-! ## The words in front of the name -/

/-- A mark that begins a comment, or goes on with it. -/
def isCommentMark (c : UInt8) : Bool := c = hyphen || c = slash || c = asterisk

section

variable {ccsc : CharSet} {c : UInt8} {word t u : List UInt8} {gap : List GapItem}

/-- A gap is blank, or there is a comment behind its blanks. -/
theorem gapText_cases (hvalid : ∀ item ∈ gap, item.Valid) :
    (gap.all GapItem.isBlank = true ∧ ∀ c ∈ gapText gap, isSpace c = true) ∨
      gap.all GapItem.isBlank = false ∧ ∃ blanks c d u, gapText gap = blanks ++ c :: d :: u ∧
        (∀ b ∈ blanks, isSpace b = true) ∧ (c = hyphen ∨ c = slash) ∧ isCommentMark d = true := by
  induction gap with
  | nil => exact Or.inl ⟨rfl, List.forall_mem_nil _⟩
  | cons item gap ih =>
    obtain ⟨hitem, hgap⟩ := List.forall_mem_cons.1 hvalid
    cases item with
    | blank b =>
      rcases ih hgap with ⟨hall, hblanks⟩ | ⟨hall, blanks, c, d, u, hu, hblanks, hmark⟩
      · exact Or.inl ⟨hall, List.forall_mem_cons.2 ⟨hitem, hblanks⟩⟩
      · refine Or.inr ⟨hall, b :: blanks, c, d, u, ?_, List.forall_mem_cons.2 ⟨hitem, hblanks⟩,
          hmark⟩
        exact congrArg (b :: ·) hu
    | line comment =>
      exact Or.inr ⟨rfl, [], hyphen, hyphen, _, rfl, List.forall_mem_nil _, Or.inl rfl, rfl⟩
    | block comment =>
      exact Or.inr ⟨rfl, [], slash, asterisk, _, rfl, List.forall_mem_nil _, Or.inr rfl, rfl⟩

theorem isSpace_of_mark (h : isCommentMark c = true) : isSpace c = false := by
  rw [isCommentMark, Bool.or_eq_true, Bool.or_eq_true, decide_eq_true_eq, decide_eq_true_eq,
    decide_eq_true_eq] at h
  rcases h with (rfl | rfl) | rfl <;> rfl

theorem dropWhile_blanks (h : ∀ c ∈ u, isSpace c = true) :
    (u ++ t).dropWhile isSpace = t.dropWhile isSpace :=
  List.dropWhile_append_of_pos h

/-- The text begins with a word. -/
theorem strnicmpEq_word {w : List UInt8} (h : word.map toLower = w) :
    strnicmpEq (word ++ t) w = true := by
  have hlen : word.length = w.length := by rw [← h, List.length_map]
  rw [strnicmpEq, ← hlen, List.take_left, h]
  exact decide_eq_true rfl

theorem word_head {w : UInt8} {ws : List UInt8} (h : word.map toLower = w :: ws)
    (hw : 0x30 ≤ w) : ∃ c u, word = c :: u ∧ isSpace c = false := by
  cases word with
  | nil => cases h
  | cons c u =>
    refine ⟨c, u, rfl, Bool.eq_false_iff.2 fun hspace ↦ ?_⟩
    have hle := le_of_isSpace hspace
    have hlower : toLower c = c := by
      rw [toLower, if_neg]
      intro hupper
      rw [Bool.and_eq_true, decide_eq_true_eq] at hupper
      exact absurd (UInt8.le_trans hupper.1 hle) (by decide)
    have hc : c = w := hlower ▸ (List.cons.inj h).1
    exact absurd (UInt8.le_trans (hc ▸ hw) hle) (by decide)

theorem dropWhile_word {w : UInt8} {ws : List UInt8} (h : word.map toLower = w :: ws)
    (hw : 0x30 ≤ w) : (word ++ t).dropWhile isSpace = word ++ t := by
  obtain ⟨c, u, rfl, hc⟩ := word_head h hw
  exact List.dropWhile_cons_of_neg (by rw [hc]; exact Bool.false_ne_true)

/-- No word is found at a comment. -/
theorem strnicmpEq_mark {w : UInt8} {ws : List UInt8} (hc : isCommentMark c = true)
    (hw : isCommentMark w = false) : strnicmpEq (c :: t) (w :: ws) = false := by
  rw [strnicmpEq, decide_eq_false_iff_not]
  intro h
  have hlower : toLower c = c := by
    rw [isCommentMark, Bool.or_eq_true, Bool.or_eq_true, decide_eq_true_eq, decide_eq_true_eq,
      decide_eq_true_eq] at hc
    rcases hc with (rfl | rfl) | rfl <;> rfl
  have hcw : c = w := hlower ▸ (List.cons.inj h).1
  rw [hcw, hw] at hc
  cases hc

theorem isSpace_of_le (h : 0x21 ≤ c) : isSpace c = false := by
  rw [Bool.eq_false_iff]
  intro hspace
  exact absurd (UInt8.le_trans h (le_of_isSpace hspace)) (by decide)

theorem NamePart.Valid.head {part : NamePart} (h : part.Valid ccsc) :
    ∃ b u, part.text = b :: u ∧ isSpace b = false := by
  cases part with
  | quoted chars => exact ⟨identifierQuote, _, rfl, rfl⟩
  | word chars =>
    obtain ⟨c, chars, rfl⟩ := List.exists_cons_of_ne_nil h.nonempty
    obtain ⟨b, bs, rfl, hb⟩ := (h.encoded c List.mem_cons_self).head_nameStart (h.start rfl c rfl)
    exact ⟨b, _, rfl, isSpace_of_le (UInt8.le_trans (by decide) hb)⟩

/-- The loop behind `insert`, which passes over one character first. -/
theorem dropWhile_gap (hgap : gap ≠ []) (hvalid : ∀ item ∈ gap, item.Valid) :
    ∃ c v, gapText gap ++ t = c :: v ∧
      (gap.all GapItem.isBlank = true ∧ v.dropWhile isSpace = t.dropWhile isSpace ∨
        gap.all GapItem.isBlank = false ∧
          ∃ d u, v.dropWhile isSpace = d :: u ∧ isCommentMark d = true) := by
  rcases gapText_cases hvalid with ⟨hall, hblanks⟩ | ⟨hall, blanks, c, d, u, hu, hblanks, hc, hd⟩
  · obtain ⟨c, w, hw, -⟩ := gapText_head hgap hvalid
    rw [hw] at hblanks
    refine ⟨c, w ++ t, by rw [hw]; rfl, Or.inl ⟨hall, ?_⟩⟩
    exact dropWhile_blanks (List.forall_mem_cons.1 hblanks).2
  · rw [hu]
    cases blanks with
    | nil =>
      refine ⟨c, d :: (u ++ t), rfl, Or.inr ⟨hall, d, u ++ t, ?_, hd⟩⟩
      exact List.dropWhile_cons_of_neg (by rw [isSpace_of_mark hd]; exact Bool.false_ne_true)
    | cons b blanks =>
      have hmark : isCommentMark c = true := by
        rcases hc with rfl | rfl <;> rfl
      refine ⟨b, blanks ++ c :: d :: u ++ t, rfl, Or.inr ⟨hall, c, d :: u ++ t, ?_, hmark⟩⟩
      rw [List.append_assoc, dropWhile_blanks (List.forall_mem_cons.1 hblanks).2]
      exact List.dropWhile_cons_of_neg (by rw [isSpace_of_mark hmark]; exact Bool.false_ne_true)

end

/-- The names that `eatTableIdentifiers` takes. -/
def eatenNames (ccsc : CharSet) (str : List UInt8) : InsertedTable :=
  ⟨(eatTableIdentifiers ccsc str none none).schema, (eatTableIdentifiers ccsc str none none).table⟩

namespace InsertStatement

variable {ccsc : CharSet} (s : InsertStatement ccsc)

/-- What the driver makes of the words in front of the name. -/
theorem setInsertedTable_eq (conn : InsertedTable) :
    setInsertedTable ccsc true true s.text conn =
      if s.gap.all GapItem.isBlank then
        some (if (eatenNames ccsc ((gapText s.gap' ++ s.target).dropWhile isSpace)).tableIns = none
          then ⟨none, none⟩
          else eatenNames ccsc ((gapText s.gap' ++ s.target).dropWhile isSpace))
      else some conn := by
  have hinsert : ascii "insert" = 0x69 :: [0x6e, 0x73, 0x65, 0x72, 0x74] := by decide
  have hinto : ascii "into" = 0x69 :: [0x6e, 0x74, 0x6f] := by decide
  have hlen : s.insertWord.length = 6 := by
    have h := congrArg List.length s.isInsert
    rwa [List.length_map] at h
  have hlen' : s.intoWord.length = 4 := by
    have h := congrArg List.length s.isInto
    rwa [List.length_map] at h
  have hcmd : s.text.dropWhile isSpace = s.insertWord ++ (gapText s.gap ++
      (s.intoWord ++ (gapText s.gap' ++ s.target))) := by
    rw [InsertWords.text, dropWhile_blanks s.blanks]
    exact dropWhile_word (s.isInsert.trans hinsert) (by decide)
  have hne : s.insertWord ≠ [] := List.ne_nil_of_length_eq_add_one hlen
  have htarget : (gapText s.gap' ++ s.target).dropWhile isSpace ≠ [] := by
    obtain ⟨b, u, hb, hspace⟩ := s.first_valid.head
    rw [Ne, List.dropWhile_eq_nil_iff]
    intro h
    have hmem : b ∈ gapText s.gap' ++ s.target := by
      rw [InsertWords.target, hb]
      simp
    rw [h b hmem] at hspace
    cases hspace
  obtain ⟨c, v, hv, hskip⟩ := @dropWhile_gap (s.intoWord ++ (gapText s.gap' ++ s.target)) s.gap
    s.gap_valid.1 s.gap_valid.2
  have hdrop : (s.insertWord ++ (c :: v)).drop 6 = c :: v := by
    rw [← hlen, List.drop_left]
  rw [setInsertedTable, if_neg (by decide), if_neg (by decide)]
  dsimp only
  rw [hcmd, if_neg (List.append_ne_nil_of_left_ne_nil hne _), strnicmpEq_word s.isInsert,
    if_neg (by decide), hv, hdrop]
  dsimp only
  rcases hskip with ⟨hall, hrest⟩ | ⟨hall, d, u, hrest, hmark⟩
  · have hinto' : (s.intoWord ++ (gapText s.gap' ++ s.target)).dropWhile isSpace =
        s.intoWord ++ (gapText s.gap' ++ s.target) :=
      dropWhile_word (s.isInto.trans hinto) (by decide)
    have hne' : s.intoWord ≠ [] := List.ne_nil_of_length_eq_add_one hlen'
    have hdrop' : (s.intoWord ++ (gapText s.gap' ++ s.target)).drop 4 =
        gapText s.gap' ++ s.target := by
      rw [← hlen', List.drop_left]
    rw [hrest, hinto', if_neg (List.append_ne_nil_of_left_ne_nil hne' _),
      strnicmpEq_word s.isInto, if_neg (by decide), hdrop', if_neg htarget, hall, if_pos rfl]
    congr 1
    rw [eatenNames]
    split
    · next hnone => exact congrArg (InsertedTable.mk none) hnone
    · rfl
  · rw [hrest, if_neg (List.cons_ne_nil d u), hinto, strnicmpEq_mark hmark (by decide),
      if_pos (by decide), hall]
    rfl

/-- The walk is right about the characters of the name: JOHAB is taken for EUC_KR. -/
theorem seen (hjohab : ccsc = .johab → ∀ part ∈ s.parts, ∀ c ∈ part.chars, JohabSafe c) :
    ∀ part ∈ s.parts, ∀ c ∈ part.chars, Seen ccsc c := by
  intro part hpart c hc
  have hvalid : part.Valid ccsc := by
    rcases List.mem_cons.1 hpart with rfl | hpart
    · exact s.first_valid
    · obtain ⟨d, hd, rfl⟩ := List.mem_map.1 hpart
      exact (s.further_valid d hd).1
  have hencoded := hvalid.encoded c hc
  exact ⟨hencoded, fun st hst ↦
    (hencoded.charWalk_iff hst).2 fun hj ↦ hjohab hj part hpart c hc⟩

theorem target_head : ∃ b u, s.target = b :: u ∧ isSpace b = false := by
  obtain ⟨b, u, hb, hspace⟩ := s.first_valid.head
  exact ⟨b, u ++ (s.further.flatMap DottedPart.text ++ s.rest), by
    rw [InsertWords.target, hb]; rfl, hspace⟩

/-- The names that are taken of the statement. -/
theorem eatenNames_target
    (hjohab : ccsc = .johab → ∀ part ∈ s.parts, ∀ c ∈ part.chars, JohabSafe c) :
    eatenNames ccsc ((gapText s.gap' ++ s.target).dropWhile isSpace) =
      if s.gap'.all GapItem.isBlank && !s.first.startsUnderscore then
        takenNames ⟨none, s.first.written⟩ s.further
      else ⟨none, none⟩ := by
  have hseen := s.seen hjohab
  have hfirst : ∀ c ∈ s.first.chars, Seen ccsc c := hseen s.first List.mem_cons_self
  have hfurther : ∀ d ∈ s.further, ∀ c ∈ d.part.chars, Seen ccsc c := fun d hd ↦
    hseen d.part (List.mem_cons_of_mem _ (List.mem_map_of_mem hd))
  rw [eatenNames, eatTableIdentifiers_names (List.dropWhile_idempotent _ _)]
  rcases gapText_cases s.gap'_valid with
    ⟨hall, hblanks⟩ | ⟨hall, blanks, c, d, u, hu, hblanks, hc, -⟩
  · obtain ⟨b, w, hw, hspace⟩ := s.target_head
    have htarget : (gapText s.gap' ++ s.target).dropWhile isSpace = s.target := by
      rw [dropWhile_blanks hblanks, hw]
      exact List.dropWhile_cons_of_neg (by rw [hspace]; exact Bool.false_ne_true)
    have hrest : s.rest.head? ≠ some dot := by
      intro h
      cases hr : s.rest with
      | nil =>
        rw [hr] at h
        cases h
      | cons x rest =>
        rw [hr] at h
        cases h
        exact s.complete.2 [] rest (List.forall_mem_nil _) hr
    have hends : Ends s.first (s.further.flatMap DottedPart.text ++ s.rest) := by
      cases hf : s.further with
      | nil =>
        have h := s.ends
        rw [hf] at h
        exact h
      | cons e further =>
        rw [List.flatMap_cons, List.append_assoc]
        exact ends_dotted s.first (s.further_valid e (hf ▸ List.mem_cons_self)).2.1
    rw [htarget, hall, Bool.true_and]
    cases hstart : s.first.startsUnderscore with
    | true =>
      rw [InsertWords.target, takeName_underscore hstart]
      rfl
    | false =>
      have hlast : ∀ part ∈ (s.further.map DottedPart.part).getLast?, Ends part s.rest := by
        intro part hpart
        have h := s.ends
        rw [List.getLastD_eq_getLast?, Option.mem_def.1 hpart] at h
        exact h
      rw [InsertWords.target, takeName_part s.first_valid hfirst hends hstart,
        ← takeBehind_further s.further_valid hfurther s.atMostThree hlast hrest, takeBehind]
      dsimp only
      rw [firstName_part s.first_valid hfirst, List.drop_length_add_append, List.drop_one]
      simp only [decide_eq_true_eq, Bool.not_false, if_true]
  · have hmark : isSpace c = false := by
      rcases hc with rfl | rfl <;> rfl
    have hdrop : (gapText s.gap' ++ s.target).dropWhile isSpace = c :: d :: u ++ s.target := by
      rw [hu, List.append_assoc, dropWhile_blanks hblanks]
      exact List.dropWhile_cons_of_neg (by rw [hmark]; exact Bool.false_ne_true)
    have hnone : takeName ccsc (c :: d :: u ++ s.target) = none := by
      rcases hc with rfl | rfl
      · exact takeName_other (by decide) (by decide) (by decide)
      · exact takeName_other (by decide) (by decide) (by decide)
    rw [hdrop, hnone, hall]
    rfl

end InsertStatement

/-! ## The names that are kept -/

section

variable {s : InsertWords} {names : InsertedTable} {further : List DottedPart}

theorem takenNames_tableIns (names : InsertedTable) (further : List DottedPart)
    (h : names.tableIns ≠ none) : (takenNames names further).tableIns ≠ none := by
  induction further generalizing names with
  | nil => exact h
  | cons d further ih =>
    rw [takenNames]
    split
    · exact ih _ (Option.some_ne_none _)
    · exact h

/-- The names taken are those of the table. -/
theorem takenNames_eq_names_iff (hlen : s.further.length ≤ 2) :
    takenNames ⟨none, s.first.written⟩ s.further = s.names ↔ NamesTaken s := by
  obtain ⟨lead, insertWord, gap, intoWord, gap', first, further, rest⟩ := s
  have hmk : ∀ {a b c d : PgName}, (⟨a, b⟩ : InsertedTable) = ⟨c, d⟩ ↔ a = c ∧ b = d := by
    intro a b c d
    exact InsertedTable.mk.injEq a b c d ▸ Iff.rfl
  match further, hlen with
  | [], _ => exact hmk.trans ((and_iff_right rfl).trans Option.some_inj)
  | [d], _ =>
    rw [takenNames]
    by_cases hd : d.taken = true
    · rw [if_pos hd]
      refine hmk.trans ⟨fun h ↦ ⟨hd, Option.some_inj.1 h.1⟩, fun h ↦ ⟨congrArg some h.2, rfl⟩⟩
    · rw [if_neg hd]
      refine hmk.trans ⟨fun h ↦ ?_, fun h ↦ absurd h.1 hd⟩
      cases h.1
  | [d, e], _ =>
    rw [takenNames]
    by_cases hd : d.taken = true
    · rw [if_pos hd, takenNames]
      by_cases he : e.taken = true
      · rw [if_pos he]
        exact iff_of_true rfl ⟨hd, Or.inl he⟩
      · rw [if_neg he]
        refine hmk.trans ⟨fun h ↦ ?_, fun h ↦ ?_⟩
        · exact ⟨hd, Or.inr ⟨Option.some_inj.1 h.1, Option.some_inj.1 h.2⟩⟩
        · have heq := h.2.resolve_left he
          exact ⟨congrArg some heq.1, congrArg some heq.2⟩
    · rw [if_neg hd]
      refine hmk.trans ⟨fun h ↦ ?_, fun h ↦ absurd h.1 hd⟩
      cases h.1

end

/-- What is remembered where a name is found. -/
theorem InsertStatement.setInsertedTable_taken {ccsc : CharSet} (s : InsertStatement ccsc)
    (hjohab : ccsc = .johab → ∀ part ∈ s.parts, ∀ c ∈ part.chars, JohabSafe c)
    (hblanks : s.blanksOnly = true) (hstart : s.first.startsUnderscore = false)
    (conn : InsertedTable) :
    setInsertedTable ccsc true true s.text conn =
      some (takenNames ⟨none, s.first.written⟩ s.further) := by
  have hsome : (takenNames ⟨none, s.first.written⟩ s.further).tableIns ≠ none :=
    takenNames_tableIns _ _ (Option.some_ne_none _)
  rw [InsertWords.blanksOnly, Bool.and_eq_true] at hblanks
  rw [s.setInsertedTable_eq, s.eatenNames_target hjohab, hblanks.1, hblanks.2, hstart, if_pos rfl,
    Bool.not_false, Bool.and_self, if_pos rfl, if_neg hsome]

/-- After an `INSERT` the connection has the names of the table, what it had, or none, exactly if
the driver finds no name at all or takes all of it. -/
theorem setInsertedTable_keeps_iff {ccsc : CharSet} (s : InsertStatement ccsc)
    (hjohab : ccsc = .johab → ∀ part ∈ s.parts, ∀ c ∈ part.chars, JohabSafe c) :
    KeepsNames ccsc s.toInsertWords ↔
      (s.blanksOnly = false ∨ s.first.startsUnderscore = true) ∨ NamesTaken s.toInsertWords := by
  cases hblanks : s.blanksOnly with
  | false =>
    refine iff_of_true (fun conn ↦ ?_) (Or.inl (Or.inl rfl))
    rw [InsertWords.blanksOnly, Bool.and_eq_false_iff] at hblanks
    rw [s.setInsertedTable_eq, s.eatenNames_target hjohab]
    cases hgap : s.gap.all GapItem.isBlank with
    | false => exact ⟨conn, rfl, Or.inr (Or.inl rfl)⟩
    | true =>
      rw [hblanks.resolve_left (by rw [hgap]; decide)]
      exact ⟨_, rfl, Or.inr (Or.inr rfl)⟩
  | true =>
    cases hstart : s.first.startsUnderscore with
    | true =>
      refine iff_of_true (fun conn ↦ ⟨⟨none, none⟩, ?_, Or.inr (Or.inr rfl)⟩) (Or.inl (Or.inr rfl))
      rw [InsertWords.blanksOnly, Bool.and_eq_true] at hblanks
      rw [s.setInsertedTable_eq, s.eatenNames_target hjohab, hblanks.1, hblanks.2, hstart]
      rfl
    | false =>
      have hresult := s.setInsertedTable_taken hjohab hblanks hstart
      have hsome : (takenNames ⟨none, s.first.written⟩ s.further).tableIns ≠ none :=
        takenNames_tableIns _ _ (Option.some_ne_none _)
      rw [or_iff_right (by decide), ← takenNames_eq_names_iff s.atMostThree]
      constructor
      · intro hkeeps
        -- A connection that differs from whatever is taken.
        obtain ⟨conn', hconn', hcases⟩ := hkeeps ⟨some [], none⟩
        rw [hresult] at hconn'
        cases hconn'
        rcases hcases with h | h | h
        · exact h
        · rw [h] at hsome
          exact absurd rfl hsome
        · rw [h] at hsome
          exact absurd rfl hsome
      · intro hnames conn
        exact ⟨_, hresult conn, Or.inl hnames⟩

/-- A list of columns is behind the name. -/
theorem columns_not_dotted (rest : List UInt8) (gap : List GapItem) (more : List UInt8)
    (hgap : ∀ item ∈ gap, GapItem.Valid item) : leftParen :: rest ≠ gapText gap ++ dot :: more := by
  cases gap with
  | nil => exact nofun
  | cons item gap =>
    obtain ⟨c, u, hu, hc⟩ := gapText_head (List.cons_ne_nil item gap) hgap
    rw [hu]
    rintro ⟨⟩
    exact absurd hc (by decide)

theorem insertInto_blanks : ∀ c ∈ ([] : List UInt8), isSpace c = true := List.forall_mem_nil _

/-- `INSERT INTO` a table of the schema that is searched first. -/
def insertInto (table : NamePart) (hvalid : table.Valid .utf8)
    (hnul : (0 : UInt8) ∉ table.text) : InsertStatement .utf8 where
  lead := []
  insertWord := ascii "INSERT"
  gap := [.blank 0x20]
  intoWord := ascii "INTO"
  gap' := [.blank 0x20]
  first := table
  further := []
  rest := leftParen :: ascii "id)"
  blanks := insertInto_blanks
  isInsert := by decide
  gap_valid := ⟨by decide, List.forall_mem_singleton.2 rfl⟩
  isInto := by decide
  gap'_valid := List.forall_mem_singleton.2 rfl
  gap'_needed := fun _ ↦ by decide
  first_valid := hvalid
  further_valid := List.forall_mem_nil _
  atMostThree := Nat.zero_le 2
  ends := by
    cases table with
    | word chars => exact ⟨by decide, by decide⟩
    | quoted chars => exact (by decide : leftParen ≠ identifierQuote)
  complete := ⟨by decide, fun gap more h ↦ columns_not_dotted _ gap more h⟩
  noNul := by
    intro h
    have hparts : (0 : UInt8) ∈ ascii "INSERT INTO " ∨ (0 : UInt8) ∈ table.text ∨
        (0 : UInt8) ∈ ascii "(id)" := by
      rw [← List.mem_append, ← List.mem_append]
      exact h
    rcases hparts with h | h | h
    · exact absurd h (by decide)
    · exact hnul h
    · exact absurd h (by decide)

theorem insertInto_text {table : NamePart} (hvalid : table.Valid .utf8)
    (hnul : (0 : UInt8) ∉ table.text) :
    (insertInto table hvalid hnul).text = ascii "INSERT INTO " ++ table.text ++ ascii "(id)" := by
  rw [List.append_assoc]
  rfl

/-- The characters of an ASCII text. -/
def asciiChars (s : String) : List (List UInt8) := (ascii s).map fun c ↦ [c]

theorem encodedChar_asciiChars {s : String} (h : (ascii s).all (· < 0x80) = true) :
    ∀ c ∈ asciiChars s, EncodedChar .utf8 c := by
  intro c hc
  obtain ⟨b, hb, rfl⟩ := List.mem_map.1 hc
  exact .utf8One (of_decide_eq_true (List.all_eq_true.1 h b hb))

/-- A table whose name is in quotes. -/
theorem setInsertedTable_keeps_quoted :
    ∃ s : InsertStatement .utf8, s.text = ascii "INSERT INTO \"Order\"(id)" ∧
      (KeepsNames .utf8 s.toInsertWords ↔
        (s.blanksOnly = false ∨ s.first.startsUnderscore = true) ∨ NamesTaken s.toInsertWords) := by
  have hvalid : (NamePart.quoted (asciiChars "Order")).Valid .utf8 :=
    { encoded := encodedChar_asciiChars (by decide)
      nonempty := by decide
      start := nofun
      goesOn := nofun }
  refine ⟨insertInto _ hvalid (by decide), ?_, setInsertedTable_keeps_iff _ nofun⟩
  rw [insertInto_text]
  decide

/-- The name that is kept is `Orders`, but that of the table is `orders`. -/
theorem not_setInsertedTable_keeps :
    ∃ s : InsertStatement .utf8, s.text = ascii "INSERT INTO Orders(id)" ∧
      ¬KeepsNames .utf8 s.toInsertWords := by
  have hvalid : (NamePart.word (asciiChars "Orders")).Valid .utf8 :=
    { encoded := encodedChar_asciiChars (by decide)
      nonempty := by decide
      start := fun _ c hc ↦ by cases hc; decide
      goesOn := fun _ ↦ List.all_eq_true.1 (by decide) }
  have hnul : (0 : UInt8) ∉ (NamePart.word (asciiChars "Orders")).text := by decide
  refine ⟨insertInto _ hvalid hnul, ?_, fun hkeeps ↦ ?_⟩
  · rw [insertInto_text]
    decide
  · obtain ⟨conn', hconn', hcases⟩ := hkeeps ⟨some [], none⟩
    have hresult := (insertInto _ hvalid hnul).setInsertedTable_taken nofun rfl rfl ⟨some [], none⟩
    rw [Option.some_inj.1 (hconn'.symm.trans hresult)] at hcases
    rcases hcases with h | h | h
    · have hcase : (NamePart.word (asciiChars "Orders")).written ≠
          (NamePart.word (asciiChars "Orders")).name := by decide
      exact hcase (Option.some_inj.1 (congrArg InsertedTable.tableIns h))
    · cases h
    · cases h

end PsqlOdbc
