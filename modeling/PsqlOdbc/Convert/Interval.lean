import PsqlOdbc.Convert.Timestamp

/-!
# Intervals and their texts (`convert.c`)

`interval2istruct` reads an interval by a row of formats, and goes by how many items each of them
finds.  `ResolveOneParam` writes the texts of interval parameters.
-/

namespace PsqlOdbc

open Lib

/-! ## Intervals -/

/-- The interval types `SQL_IS_`, and the C types `SQL_C_INTERVAL_` that `interval2itype` takes to
them. -/
inductive SqlInterval
  | year | month | yearToMonth | day | hour | dayToHour | minute | dayToMinute | hourToMinute
  | second | dayToSecond | hourToSecond | minuteToSecond
  deriving DecidableEq, Repr

/-- `SQL_INTERVAL_STRUCT`.  Its `intval` is a union, in which the year and the month lie over the day
and the hour. -/
structure SqlIntervalStruct where
  intervalType : Option SqlInterval
  intervalSign : Bool
  day : UInt32
  hour : UInt32
  minute : UInt32
  second : UInt32
  fraction : UInt32
  deriving DecidableEq, Repr

namespace SqlIntervalStruct

def year (st : SqlIntervalStruct) : UInt32 := st.day

def month (st : SqlIntervalStruct) : UInt32 := st.hour

/-- A structure with a year and a month. -/
def ofYearMonth (itype : SqlInterval) (sign : Bool) (year month : UInt32) : SqlIntervalStruct :=
  ⟨some itype, sign, year, month, 0, 0, 0⟩

/-- What `memset` leaves. -/
def zero : SqlIntervalStruct := ⟨none, false, 0, 0, 0, 0, 0⟩

end SqlIntervalStruct

/-! ## Reading -/

/-- `sign ? (-n) : n`, as an unsigned number. -/
def unsignedPart (sign : Bool) (n : Int) : Option UInt32 :=
  if sign then if n = -2 ^ 31 then none else some (UInt32.ofInt (-n)) else some (UInt32.ofInt n)

/-- `getPrecisionPart`. -/
def getPrecisionPart (precision : Int) (precPart : List UInt8) : Option UInt32 :=
  let precision := if precision < 0 then 6 else precision
  if precision = 0 then some 0
  else if precision > 9 then none
  else
    let fraction := precPart.take 9 ++ List.replicate (9 - precPart.length) 0x30
    some (UInt32.ofInt (pgAtoi (fraction.take precision.toNat)))

/-- The fraction, if there is one. -/
def fractionPart (precision : Int) (found : Bool) (lit2 : List UInt8) : Option UInt32 :=
  if found then getPrecisionPart precision (bufferText lit2) else some 0

section

variable (itype : SqlInterval) (precision : Int)

/-- The branches for one item: a number, and the word behind it. -/
def intervalUnit (years : Int) (lit1 : List UInt8) : Option (Bool × SqlIntervalStruct) :=
  let sign : Bool := years < 0
  if itype = .year ∧ (stricmpEq lit1 (ascii "year") ∨ stricmpEq lit1 (ascii "years")) then
    (unsignedPart sign years).map fun n ↦ (true, .ofYearMonth itype sign n 0)
  else if itype = .month ∧ (stricmpEq lit1 (ascii "mon") ∨ stricmpEq lit1 (ascii "mons")) then
    (unsignedPart sign years).map fun n ↦ (true, .ofYearMonth itype sign 0 n)
  else if itype = .day ∧ (stricmpEq lit1 (ascii "day") ∨ stricmpEq lit1 (ascii "days")) then
    (unsignedPart sign years).map fun n ↦ (true, ⟨some itype, sign, n, 0, 0, 0, 0⟩)
  else some (false, .zero)

/-- The branch for two items. -/
def intervalYearMon (years mons : Int) (lit1 lit2 : List UInt8) :
    Option (Bool × SqlIntervalStruct) :=
  let sign : Bool := years < 0
  if strnicmpEq lit1 (ascii "year") ∧ strnicmpEq lit2 (ascii "mo") ∧
      (itype = .month ∨ itype = .yearToMonth) then
    (unsignedPart sign years).bind fun year ↦
      (unsignedPart sign mons).map fun month ↦ (true, .ofYearMonth itype sign year month)
  else some (false, .zero)

/-- The branch for a time behind a number of days and a word. -/
def intervalDayTime (r : SscanfResult) (lit1 lit2 : List UInt8) :
    Option (Bool × SqlIntervalStruct) :=
  if !strnicmpEq (bufferText lit1) (ascii "day") then some (false, .zero)
  else
    let sign : Bool := r.num 0 < 0
    (unsignedPart sign (r.num 0)).bind fun day ↦
      (unsignedPart sign (r.num 2)).bind fun hour ↦
        (fractionPart precision (r.ret > 5) lit2).map fun fraction ↦
          (true, ⟨some itype, sign, day, hour, UInt32.ofInt (r.num 3), UInt32.ofInt (r.num 4),
            fraction⟩)

/-- The branch for a time. -/
def intervalTime (r : SscanfResult) (lit2 : List UInt8) : Option (Bool × SqlIntervalStruct) :=
  let sign : Bool := r.num 0 < 0
  (unsignedPart sign (r.num 0)).bind fun hour ↦
    (fractionPart precision (r.ret > 3) lit2).map fun fraction ↦
      (true, ⟨some itype, sign, 0, hour, UInt32.ofInt (r.num 1), UInt32.ofInt (r.num 2), fraction⟩)

/-- The argument `ARG_INT`. -/
def argInt : SscanfArg := .num .int

/-- The formats of a number and a word, and of a time. -/
def numberWord : List UInt8 := ascii "%d %10s"

def timeDigits : List UInt8 := ascii "%02d:%02d:%02d.%09s"

/-- `interval2istruct`, from the last two formats on. -/
def intervalTimes (str lit1 lit2 : List UInt8) : Option (Bool × SqlIntervalStruct) :=
  (secureSscanf str (numberWord ++ 0x20 :: timeDigits)
      [argInt, .str lit1, argInt, argInt, argInt, .str lit2]).bind fun r ↦
    let lit1 := r.str 1 lit1
    let lit2 := r.str 5 lit2
    if r.ret = 5 ∨ r.ret = 6 then intervalDayTime itype precision r lit1 lit2
    else
      (secureSscanf str timeDigits [argInt, argInt, argInt, .str lit2]).bind fun r ↦
        if r.ret = 3 ∨ r.ret = 4 then intervalTime itype precision r (r.str 3 lit2)
        else some (false, .zero)

/-- `interval2istruct`, from the third format on. -/
def intervalWords (str lit1 lit2 : List UInt8) : Option (Bool × SqlIntervalStruct) :=
  (secureSscanf str (numberWord ++ 0x20 :: numberWord)
      [argInt, .str lit1, argInt, .str lit2]).bind fun r ↦
    let lit1 := r.str 1 lit1
    let lit2 := r.str 3 lit2
    if r.ret ≥ 4 then
      intervalYearMon itype (r.num 0) (r.num 2) (bufferText lit1) (bufferText lit2)
    else
      (secureSscanf str (numberWord ++ ascii " %d") [argInt, .str lit1, argInt]).bind fun r ↦
        let lit1 := r.str 1 lit1
        if r.ret = 2 then intervalUnit itype (r.num 0) (bufferText lit1)
        else if itype = .year ∨ itype = .month ∨ itype = .yearToMonth then some (false, .zero)
        else intervalTimes itype precision str lit1 lit2

/-- `interval2istruct`: the return value and `*st`; `lit1` and `lit2` are what its buffers hold
before. -/
def interval2istruct (str : List UInt8) (lit1 lit2 : Vector UInt8 64) :
    Option (Bool × SqlIntervalStruct) :=
  (secureSscanf str (ascii "%d-%d") [argInt, argInt]).bind fun r ↦
    if r.ret ≥ 2 then
      if itype = .yearToMonth then
        let sign : Bool := r.num 0 < 0
        (unsignedPart sign (r.num 0)).map fun year ↦
          (true, .ofYearMonth itype sign year (UInt32.ofInt (r.num 1)))
      else some (false, .zero)
    else
      (secureSscanf str (ascii "%d " ++ timeDigits)
          [argInt, argInt, argInt, argInt, .str lit2.toList]).bind fun r ↦
        let lit2 := r.str 4 lit2.toList
        if r.ret = 5 ∨ r.ret = 4 then
          let sign : Bool := r.num 0 < 0
          (unsignedPart sign (r.num 0)).bind fun day ↦
            (fractionPart precision (r.ret > 4) lit2).map fun fraction ↦
              (true, ⟨some itype, sign, day, UInt32.ofInt (r.num 1), UInt32.ofInt (r.num 2),
                UInt32.ofInt (r.num 3), fraction⟩)
        else intervalWords itype precision str lit1.toList lit2

end

/-! ## Writing -/

/-- `%0*d`. -/
def printfStar (width : Int) (n : Int) : List UInt8 :=
  if width < 0 then
    printfZero 0 n ++ List.replicate ((-width).toNat - (printfZero 0 n).length) 0x20
  else printfZero width.toNat n

/-- The loop that takes the zeros off a fraction that is not 0. -/
def dropZeros (fraction prec : Int) : Int × Int :=
  if fraction ≠ 0 ∧ fraction.tmod 10 = 0 then dropZeros (fraction.tdiv 10) (prec - 1)
  else (fraction, prec)
termination_by fraction.natAbs
decreasing_by
  rw [Int.natAbs_tdiv]
  exact Nat.div_lt_self (by omega) (by decide)

/-- `%u`, and `%02u`. -/
def printfUnsigned (k : Nat) (n : UInt32) : List UInt8 := decimals k n.toNat

/-- The text of an interval parameter in `ResolveOneParam`. -/
def intervalParamText (ctype : SqlInterval) (precision : Int) (st : SqlIntervalStruct) :
    List UInt8 :=
  let ivsign := if st.intervalSign then ascii "-" else []
  let days := ivsign ++ printfUnsigned 1 st.day ++ ascii " days"
  let time := ascii " " ++ ivsign ++ printfUnsigned 2 st.hour
  match ctype with
  | .year => ivsign ++ printfUnsigned 1 st.year ++ ascii " years"
  | .month | .yearToMonth =>
    ivsign ++ printfUnsigned 1 st.year ++ ascii " years " ++ ivsign ++ printfUnsigned 1 st.month ++
      ascii " mons"
  | .day => days
  | .hour | .dayToHour => days ++ time ++ ascii ":00:00"
  | .minute | .hourToMinute | .dayToMinute =>
    days ++ time ++ ascii ":" ++ printfUnsigned 2 st.minute ++ ascii ":00"
  | .second | .dayToSecond | .hourToSecond | .minuteToSecond =>
    let text := days ++ time ++ ascii ":" ++ printfUnsigned 2 st.minute ++ ascii ":" ++
      printfUnsigned 2 st.second
    if st.fraction > 0 then
      let r := dropZeros ((st.fraction.toNat : Int).bmod (2 ^ 32)) precision
      -- Of the texts only this one can be too long for the 150 bytes of `param_string`.
      (text ++ ascii "." ++ printfStar r.2 r.1).take 149
    else text

end PsqlOdbc
