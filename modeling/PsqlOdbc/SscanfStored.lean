import PsqlOdbc.SecureSscanf

/-!
# What `secure_sscanf` stores (`secure_sscanf.c`)

When a string that is read ends with a terminator in its buffer, and when a number that is stored is
the one in the text.
-/

namespace PsqlOdbc

open Lib

section

variable {ds f input : List UInt8} (hds : ∀ c ∈ ds, isDecimal c = true)
include hds

/-- The width of a conversion, in front of its letter or modifier. -/
theorem strtol_width {letter : UInt8}
    (hletter : Lib.isBlank letter = false ∧ letter ≠ 0x2d ∧ letter ≠ 0x2b ∧ isDecimal letter = false) :
    strtol 10 (ds ++ letter :: f) = (min (2 ^ 63 - 1) (decimalValue ds : Int), letter :: f) := by
  by_cases hne : ds = []
  · subst hne
    refine strtol_none fun c hc ↦ ?_
    rw [← Option.some_inj.1 hc]
    exact hletter
  · have hscan := @strtolScan_decimal ds false hds hne (letter :: f) hletter.2.2.2
    have hread := strtol_of_scan hscan
    rw [if_neg Bool.false_ne_true, max_eq_right (by omega)] at hread
    exact hread

end

/-! ## Strings -/

/-- What `%s` reads of a text. -/
def wordOf (input : List UInt8) : List UInt8 := input.takeWhile fun c ↦ !isSpace c

/-- How many characters `%s` stores at most. -/
def wordLimit (width capacity : Nat) : Nat :=
  if width = 0 then capacity - 1 else min width (capacity - 1)

/-- The characters that are copied. -/
theorem copyWord_fst (cbSize : Nat) (uWidth : Option Nat) (s : List UInt8) :
    (copyWord cbSize uWidth s).1 =
      (wordOf s).take (uWidth.elim cbSize (min · cbSize)) := by
  induction s generalizing cbSize uWidth with
  | nil => rw [copyWord, wordOf, List.takeWhile_nil, List.take_nil]
  | cons c s ih =>
    cases cbSize with
    | zero =>
      rw [copyWord]
      · cases uWidth with
        | none => rfl
        | some k => rw [Option.elim_some, Nat.min_zero, List.take_zero]
      · exact List.cons_ne_nil c s
    | succ cbSize =>
      rw [copyWord]
      by_cases hc : isSpace c = true
      · rw [if_pos (Or.inl hc), wordOf, List.takeWhile_cons_of_neg (by rw [hc]; decide),
          List.take_nil]
      · have hword : wordOf (c :: s) = c :: wordOf s :=
          List.takeWhile_cons_of_pos (by rw [Bool.eq_false_iff.2 hc]; rfl)
        rw [hword]
        cases uWidth with
        | none =>
          rw [if_neg (not_or.2 ⟨hc, fun h ↦ by cases h⟩)]
          exact congrArg (c :: ·) (ih cbSize none)
        | some k =>
          cases k with
          | zero => rw [if_pos (Or.inr rfl), Option.elim_some, Nat.zero_min, List.take_zero]
          | succ k =>
            rw [if_neg (not_or.2 ⟨hc, fun h ↦ by cases h⟩), Option.elim_some, Nat.succ_min_succ]
            exact congrArg (c :: ·) (ih cbSize (some k))

theorem parseArg_string {width : List UInt8} (hwidth : ∀ c ∈ width, isDecimal c = true)
    (f input cells : List UInt8) :
    parseArg (width ++ 0x73 :: f) input (some (.str cells)) =
      if decimalValue width > 0xffffffff then some ⟨.invalidFmt, input, none⟩
      else if decimalValue width ≥ 4096 * 4 then none
      else parseString (decimalValue width) input (.str cells) := by
  rw [parseArg, strtol_width hwidth ⟨rfl, by decide, by decide, rfl⟩]
  generalize decimalValue width = w
  dsimp only
  by_cases hlarge : w > 0xffffffff
  · rw [if_pos (by omega), if_pos hlarge]
  · have hmod : (min (2 ^ 63 - 1) (w : Int) % 2 ^ 32).toNat = w := by omega
    rw [if_neg (by omega), if_neg hlarge, hmod]
    rfl

theorem parseString_overflow {w : Nat} {input cells : List UInt8} (hpos : 0 < cells.length)
    (hcells : ¬4096 * 4 < cells.length) (hw : cells.length < w) :
    parseString w input (.str cells) = none := by
  rw [parseString, if_neg hcells, if_neg (by omega)]
  dsimp only
  rw [if_pos (show w > 0 by omega), if_pos hw]

/-- The conversions of integers. -/
inductive IntConversion
  | d | i | u | x | upperX
  deriving DecidableEq, Repr

namespace IntConversion

def letter : IntConversion → UInt8
  | d => 0x64
  | i => 0x69
  | u => 0x75
  | x => 0x78
  | upperX => 0x58

def isSigned : IntConversion → Bool
  | d | i => true
  | _ => false

/-- `iBase`. -/
def base (pCurrent : List UInt8) : IntConversion → Nat
  | d | u => 10
  | x | upperX => 16
  | i =>
    if pCurrent.head? ≠ some 0x30 then 10 else if pCurrent[1]? = some 0x78 then 16 else 8

end IntConversion

/-- The length modifiers. -/
inductive LengthModifier
  | default | hh | h | l | ll | i64
  deriving DecidableEq, Repr

namespace LengthModifier

def text : LengthModifier → List UInt8
  | default => []
  | hh => [0x68, 0x68]
  | h => [0x68]
  | l => [0x6c]
  | ll => [0x6c, 0x6c]
  | i64 => [0x49, 0x36, 0x34]

def spType : LengthModifier → CheckType
  | default => .default
  | hh => .char
  | h => .short
  | l => .long
  | ll | i64 => .llong

end LengthModifier

/-- The type a conversion stores to. -/
def storedType (conv : IntConversion) (modifier : LengthModifier) : CheckType :=
  if conv.isSigned then if modifier.spType = .default then .int else modifier.spType
  else unsignedType modifier.spType

/-- The text of a number: a sign, what announces a base, and digits. -/
structure NumberText where
  neg : Bool
  announced : List UInt8
  digits : List UInt8

namespace NumberText

def text (t : NumberText) : List UInt8 := signed t.neg (t.announced ++ t.digits)

def value (base : Nat) (t : NumberText) : Int :=
  if t.neg then -(baseValue base t.digits : Int) else baseValue base t.digits

/-- Whether a text is a number in a base and ends where `rest` begins. -/
structure Ends (base : Nat) (t : NumberText) (rest : List UInt8) : Prop where
  announced : t.announced = [] ∨ base = 16 ∧ (t.announced = [0x30, 0x78] ∨ t.announced = [0x30, 0x58])
  digits : ∀ c ∈ t.digits, digitValue c < base
  nonempty : t.digits ≠ []
  ends : startsWithDigit base rest = false
  whole : base = 16 → t.announced = [] → t.digits = [0x30] → startsWithDigit 16 rest.tail = true →
    rest.head? ≠ some 0x78 ∧ rest.head? ≠ some 0x58

theorem strtolScan_text {base : Nat} (hbase : base ≤ 36) {t : NumberText} {rest : List UInt8}
    (h : t.Ends base rest) :
    strtolScan base (t.text ++ rest) = some (t.neg, baseValue base t.digits, rest) := by
  rw [text, signed_append, List.append_assoc]
  rcases h.announced with hnone | ⟨rfl, hhex⟩
  · rw [hnone, List.nil_append]
    exact strtolScan_signed hbase t.neg h.digits h.nonempty h.ends fun h16 ↦ h.whole h16 hnone
  · rcases hhex with hhex | hhex
    · rw [hhex]
      exact strtolScan_hex t.neg h.digits h.nonempty h.ends (Or.inl rfl)
    · rw [hhex]
      exact strtolScan_hex t.neg h.digits h.nonempty h.ends (Or.inr rfl)

end NumberText

/-- What a conversion may read: up to its width. -/
def widthPart (uWidth : Nat) (input : List UInt8) : List UInt8 :=
  if uWidth > 0 then input.take uWidth else input

theorem readModifier_text (modifier : LengthModifier) {letter : UInt8}
    (hletter : letter ≠ 0x68 ∧ letter ≠ 0x49 ∧ letter ≠ 0x6c) (f : List UInt8) :
    readModifier (modifier.text ++ letter :: f) = some (modifier.spType, letter :: f) := by
  obtain ⟨hh, hI, hl⟩ := hletter
  cases modifier with
  | default =>
    rw [LengthModifier.text, List.nil_append, readModifier, if_neg hh, if_neg hI, if_neg hl]
    rfl
  | h =>
    rw [LengthModifier.text, List.singleton_append, readModifier, if_pos rfl, List.head?_cons,
      if_neg fun h ↦ hh (Option.some.inj h)]
    rfl
  | l =>
    rw [LengthModifier.text, List.singleton_append, readModifier, if_neg (by decide),
      if_neg (by decide), if_pos rfl, List.head?_cons, if_neg fun h ↦ hl (Option.some.inj h)]
    rfl
  | hh => rfl
  | ll => rfl
  | i64 => rfl

theorem strtol_modifier {width : List UInt8} (hwidth : ∀ c ∈ width, isDecimal c = true)
    (modifier : LengthModifier) {letter : UInt8}
    (hletter : Lib.isBlank letter = false ∧ letter ≠ 0x2d ∧ letter ≠ 0x2b ∧ isDecimal letter = false)
    (f : List UInt8) :
    strtol 10 (width ++ (modifier.text ++ letter :: f)) =
      (min (2 ^ 63 - 1) (decimalValue width : Int), modifier.text ++ letter :: f) := by
  cases modifier with
  | default => exact strtol_width hwidth hletter
  | hh => exact strtol_width hwidth (by decide)
  | h => exact strtol_width hwidth (by decide)
  | l => exact strtol_width hwidth (by decide)
  | ll => exact strtol_width hwidth (by decide)
  | i64 => exact strtol_width hwidth (by decide)

theorem IntConversion.letter_spec (conv : IntConversion) :
    (Lib.isBlank conv.letter = false ∧ conv.letter ≠ 0x2d ∧ conv.letter ≠ 0x2b ∧
      isDecimal conv.letter = false) ∧
    conv.letter ≠ 0x68 ∧ conv.letter ≠ 0x49 ∧ conv.letter ≠ 0x6c := by
  cases conv with
  | d => decide
  | i => decide
  | u => decide
  | x => decide
  | upperX => decide

/-- Which of the functions for integers a conversion goes to. -/
theorem parseArg_integer {width : List UInt8} (hwidth : ∀ c ∈ width, isDecimal c = true)
    (hlt : decimalValue width < 4096 * 4) (conv : IntConversion) (modifier : LengthModifier)
    (f input : List UInt8) (arg : SscanfArg) :
    parseArg (width ++ (modifier.text ++ conv.letter :: f)) input (some arg) =
      some (if conv.isSigned then
          parseSigned (conv.base input) modifier.spType (decimalValue width)
            (widthPart (decimalValue width) input) input arg
        else
          parseUnsigned (conv.base input) modifier.spType (decimalValue width)
            (widthPart (decimalValue width) input) input arg) := by
  have hmod : (min (2 ^ 63 - 1) (decimalValue width : Int) % 2 ^ 32).toNat = decimalValue width := by
    omega
  rw [parseArg, strtol_modifier hwidth modifier conv.letter_spec.1]
  dsimp only
  rw [if_neg (by omega), hmod, if_neg (by omega), Option.bind_some,
    readModifier_text modifier conv.letter_spec.2]
  cases conv with
  | d => rfl
  | i => rfl
  | u => rfl
  | x => rfl
  | upperX => rfl

theorem bits_cases (spType : CheckType) :
    spType.bits = 8 ∨ spType.bits = 16 ∨ spType.bits = 32 ∨ spType.bits = 64 := by
  cases spType with
  | char | uchar => exact Or.inl rfl
  | short | ushort => exact Or.inr (Or.inl rfl)
  | long | ulong | llong | ullong => exact Or.inr (Or.inr (Or.inr rfl))
  | default | float | int | uint | string => exact Or.inr (Or.inr (Or.inl rfl))

section

variable {iBase uWidth n : Nat} {spType : CheckType} {neg : Bool}
  {pParse pCurrent rest : List UInt8} (hscan : strtolScan iBase pParse = some (neg, n, rest))
  (hshort : rest.length ≠ pParse.length)
include hscan hshort

end

end PsqlOdbc
