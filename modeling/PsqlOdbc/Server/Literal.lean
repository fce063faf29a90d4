import PsqlOdbc.Convert.QueryBuild

/-!
# String literals as the server reads them

The server's lexical rules for a string literal, over text in a client encoding: a
quote inside is doubled, and a backslash starts an escape sequence when the literal
has the `E` prefix or when `standard_conforming_strings` is off.  Nothing here is
taken from the driver; `lexLiteral` is what its quoting is measured against.
-/

namespace PsqlOdbc.Server

/-- The value of an octal digit. -/
def octalDigit (c : UInt8) : Option Nat :=
  if 0x30 ≤ c ∧ c ≤ 0x37 then some (c.toNat - 0x30) else none

/-- The value of a hexadecimal digit. -/
def hexDigit (c : UInt8) : Option Nat :=
  if 0x30 ≤ c ∧ c ≤ 0x39 then some (c.toNat - 0x30)
  else if 0x41 ≤ c ∧ c ≤ 0x46 then some (c.toNat - 0x37)
  else if 0x61 ≤ c ∧ c ≤ 0x66 then some (c.toNat - 0x57)
  else none

/-- The number written by the digits at the head of a text, at most `n` of them,
and how many there are. -/
def digits (digit : UInt8 → Option Nat) (base : Nat) :
    Nat → Nat → List UInt8 → Nat × Nat
  | n + 1, acc, c :: cs =>
    match digit c with
    | some d => let (v, len) := digits digit base n (base * acc + d) cs; (v, len + 1)
    | none => (acc, 0)
  | _, acc, _ => (acc, 0)

/-- An escape sequence after its backslash: the byte it stands for, if it stands for
one other than itself, and its length.  Unicode escapes are refused. -/
inductive Escape
  | byte (b : UInt8) (len : Nat)
  | self
  | refused

/-- The escape sequence at the head of a text, its backslash taken off. -/
def escapeSequence : List UInt8 → Escape
  | [] => .refused
  | c :: cs =>
    if c = 0x62 then .byte 0x08 1
    else if c = 0x66 then .byte 0x0c 1
    else if c = 0x6e then .byte 0x0a 1
    else if c = 0x72 then .byte 0x0d 1
    else if c = 0x74 then .byte 0x09 1
    else if c = 0x75 ∨ c = 0x55 then .refused
    else if c = 0x78 then
      let (v, len) := digits hexDigit 16 2 0 cs
      if len = 0 then .self else .byte (UInt8.ofNat v) (len + 1)
    else
      let (v, len) := digits octalDigit 8 3 0 (c :: cs)
      if len = 0 then .self else .byte (UInt8.ofNat v) len

/-- Put a byte in front of the value of a literal. -/
def emit (b : UInt8) : Option (List UInt8 × List UInt8) → Option (List UInt8 × List UInt8) :=
  Option.map (Prod.map (b :: ·) id)

/-- The rest of a literal, from inside it: its value and the text after its closing
quote.  `skip` bytes belong to an escape sequence already read and `owed` bytes to a
character already begun. -/
def lexBody (ccsc : CharSet) (backslash : Bool) :
    Nat → Nat → List UInt8 → Option (List UInt8 × List UInt8)
  | _, _, [] => none
  | skip + 1, owed, _ :: bs => lexBody ccsc backslash skip owed bs
  | 0, owed + 1, b :: bs => emit b (lexBody ccsc backslash 0 owed bs)
  | 0, 0, b :: bs =>
    if b = literalQuote then
      if bs.head? = some literalQuote then emit b (lexBody ccsc backslash 1 0 bs)
      else some ([], bs)
    else if backslash && b = escapeInLiteral then
      match escapeSequence bs with
      | .byte v len => emit v (lexBody ccsc backslash len 0 bs)
      | .self => lexBody ccsc backslash 0 (mbLen ccsc bs) bs
      | .refused => none
    else emit b (lexBody ccsc backslash 0 (mbLen ccsc (b :: bs) - 1) bs)

/-- One string literal at the head of a text: its value and the text after it. -/
def lexLiteral (ccsc : CharSet) (standardConforming : Bool) :
    List UInt8 → Option (List UInt8 × List UInt8)
  | b :: bs =>
    if b = literalQuote then lexBody ccsc (!standardConforming) 0 0 bs
    else
      match bs with
      | c :: cs =>
        if (b = 0x45 ∨ b = 0x65) ∧ c = literalQuote then lexBody ccsc true 0 0 cs else none
      | [] => none
  | [] => none

/-! ## Reading one byte -/

section

variable (ccsc : CharSet) (backslash : Bool)

@[simp] theorem emit_some (b : UInt8) (v r : List UInt8) :
    emit b (some (v, r)) = some (b :: v, r) := rfl

theorem lexBody_owed (k : Nat) (b : UInt8) (bs : List UInt8) :
    lexBody ccsc backslash 0 (k + 1) (b :: bs) = emit b (lexBody ccsc backslash 0 k bs) := by
  simp only [lexBody]

theorem lexBody_quote_quote (bs : List UInt8) :
    lexBody ccsc backslash 0 0 (literalQuote :: literalQuote :: bs) =
      emit literalQuote (lexBody ccsc backslash 0 0 bs) := by
  simp only [lexBody, if_true, List.head?_cons]

theorem lexBody_close {bs : List UInt8} (h : bs.head? ≠ some literalQuote) :
    lexBody ccsc backslash 0 0 (literalQuote :: bs) = some ([], bs) := by
  simp only [lexBody, if_true, if_neg h]

theorem lexBody_plain {b : UInt8} {bs : List UInt8} (hq : b ≠ literalQuote)
    (hb : backslash = true → b ≠ escapeInLiteral) :
    lexBody ccsc backslash 0 0 (b :: bs) =
      emit b (lexBody ccsc backslash 0 (mbLen ccsc (b :: bs) - 1) bs) := by
  have hb' : ¬(backslash && decide (b = escapeInLiteral)) = true := by
    simpa using hb
  simp only [lexBody, if_neg hq, if_neg hb']

theorem escapeSequence_backslash (bs : List UInt8) :
    escapeSequence (escapeInLiteral :: bs) = .self := by
  simp [escapeSequence, escapeInLiteral, digits, octalDigit]

theorem lexBody_backslash_backslash (bs : List UInt8) :
    lexBody ccsc true 0 0 (escapeInLiteral :: escapeInLiteral :: bs) =
      emit escapeInLiteral (lexBody ccsc true 0 0 bs) := by
  have hm : mbLen ccsc (escapeInLiteral :: bs) = 1 := mbLen_ascii ccsc (by decide) bs
  have hq : escapeInLiteral ≠ literalQuote := by decide
  rw [lexBody]
  simp only [if_neg hq, Bool.true_and, decide_true, if_true, escapeSequence_backslash, hm,
    lexBody_owed]

end

end PsqlOdbc.Server
