import PsqlOdbc.Convert.QueryParse
import PsqlOdbc.Lib.Radix

/-!
# Numeric values (`convert.c`)

`SQL_NUMERIC_STRUCT` is a sign, a scale and a number of 16 bytes, the least significant one
first.  `parseToNumericStruct` makes one of a text, and `resolveNumericParam` makes a text of one.
A C text is the list of its bytes, terminated behind the last one.
-/

namespace PsqlOdbc

/-- `SQL_MAX_NUMERIC_LEN`. -/
def sqlMaxNumericLen : Nat := 16

/-- `MAX_NUMERIC_DIGITS`. -/
def maxNumericDigits : Nat := 39

/-- `SQL_NUMERIC_STRUCT`. -/
structure SqlNumericStruct where
  precision : UInt8
  scale : Int8
  sign : UInt8
  val : List UInt8
  val_length : val.length = sqlMaxNumericLen

abbrev plusSign : UInt8 := 0x2b
abbrev decimalDot : UInt8 := 0x2e
abbrev digitZero : UInt8 := 0x30

/-- `isdigit`, in the C locale. -/
def isDigit (c : UInt8) : Bool := 0x30 ≤ c && c ≤ 0x39

/-! ## From a text -/

/-- The size of the digit buffer `calv` of `parse_to_numeric_struct`. -/
def calvSize : Nat := sqlMaxNumericLen * 3

/-- The state of the loop that reads the digits; `nlen` is the length of `calv`. -/
structure NumericScan where
  calv : List UInt8
  dotExist : Bool
  scale : Int8
  overflow : Bool
  deriving DecidableEq, Repr

/-- The loop that reads the digits. -/
def readDigits (s : NumericScan) : List UInt8 → NumericScan
  | [] => s
  | c :: wv =>
    if c = decimalDot then
      if s.dotExist then s else readDigits { s with dotExist := true } wv
    else if c = 0 ∨ !isDigit c then s
    else if calvSize ≤ s.calv.length then
      -- A digit of the fraction is left out, one of the integer is missed.
      if s.dotExist then s
      else readDigits { s with scale := s.scale - 1, overflow := true } wv
    else
      readDigits { s with
        scale := if s.dotExist then s.scale + 1 else s.scale
        calv := s.calv ++ [c] } wv

/-- Multiply the bytes by ten and add `carry`, with the carry out of the last byte. -/
def timesTen : List UInt8 → Nat → List UInt8 × Nat
  | [], carry => ([], carry)
  | v :: val, carry =>
    let t := v.toNat * 10 + carry
    let r := timesTen val (t / 256)
    (UInt8.ofNat t :: r.1, r.2)

theorem timesTen_length (val : List UInt8) (carry : Nat) :
    (timesTen val carry).1.length = val.length := by
  induction val generalizing carry with
  | nil => rfl
  | cons v val ih => rw [timesTen, List.length_cons, List.length_cons, ih]

/-- The digit of a decimal character. -/
def digitOf (c : UInt8) : Nat := c.toNat - 48

/-- The loop that converts the digits, from bytes and an overflow flag on. -/
def convertDigits : List UInt8 × Bool → List UInt8 → List UInt8 × Bool :=
  List.foldl fun s c ↦
    let r := timesTen s.1 (digitOf c)
    (r.1, s.2 || decide (r.2 ≠ 0))

theorem convertDigits_length (s : List UInt8 × Bool) (calv : List UInt8) :
    (convertDigits s calv).1.length = s.1.length := by
  induction calv generalizing s with
  | nil => rfl
  | cons c calv ih => exact (ih _).trans (timesTen_length s.1 (digitOf c))

/-- The sign, and what follows it. -/
def readSign (wv : List UInt8) : UInt8 × List UInt8 :=
  if wv.headD 0 = hyphen then (0, wv.tail)
  else if wv.headD 0 = plusSign then (1, wv.tail)
  else (1, wv)

/-- `parse_to_numeric_struct`, with `overflow`. -/
def parseToNumericStruct (wv : List UInt8) : SqlNumericStruct × Bool :=
  let signed := readSign (wv.dropWhile isSpace)
  let s := readDigits ⟨[], false, 0, false⟩ (signed.2.dropWhile (· = digitZero))
  let converted := convertDigits (List.replicate sqlMaxNumericLen 0, s.overflow) s.calv
  (⟨UInt8.ofNat s.calv.length, s.scale, signed.1, converted.1, by
    rw [convertDigits_length, List.length_replicate]⟩, converted.2)

/-! ## To a text -/

/-- One pass of the division by ten, from the last byte down, with the remainder. -/
def divideByTen : List UInt8 → List UInt8 × Nat
  | [] => ([], 0)
  | v :: vals =>
    let r := divideByTen vals
    let v' := v.toNat + r.2 * 256
    (UInt8.ofNat (v' / 10) :: r.1, v' % 10)

/-- The loop that fills `calv`, of which `remaining` places are left behind the next one.  The
next pass begins with the last byte that is not zero. -/
def numericDigits : Nat → List UInt8 → List UInt8
  | 0, vals => [UInt8.ofNat (divideByTen vals).2]
  | remaining + 1, vals =>
    let r := divideByTen vals
    let vals := r.1.rdropWhile (· = 0)
    UInt8.ofNat r.2 :: if vals = [] then [] else numericDigits remaining vals

/-- The character at place `i`; places without a digit are zeros. -/
def placeChar (calv : List UInt8) (i : Nat) : UInt8 := calv.getD i 0 + digitZero

/-- `ResolveNumericParam`; there is no result if it reads below `calv[0]`. -/
def resolveNumericParam (ns : SqlNumericStruct) : Option (List UInt8) :=
  if ns.precision = 0 then some [digitZero]
  else if ns.scale < 0 then none
  else
    let precision := min ns.precision.toNat maxNumericDigits
    let calv := numericDigits (precision - 1) ns.val
    let scale := ns.scale.toInt.toNat
    let i := max (calv.length - 1) scale
    some ((if ns.sign = 0 then [hyphen] else []) ++
      ((List.range' scale (i + 1 - scale)).reverse.map (placeChar calv) ++
        if 0 < scale then decimalDot :: (List.range scale).reverse.map (placeChar calv) else []))

end PsqlOdbc
