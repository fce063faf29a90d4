import PsqlOdbc.Convert.Interval

/-!
# Which intervals are read (`convert.c`)

The texts of intervals in PostgreSQL's own style, and those that `ResolveOneParam` writes, for which
`interval2istruct` returns the interval.
-/

namespace PsqlOdbc

open Lib

/-! ## Texts of PostgreSQL -/

inductive IntervalUnit
  | year | mon | day
  deriving DecidableEq, Repr

def IntervalUnit.itype : IntervalUnit → SqlInterval
  | .year => .year
  | .mon => .month
  | .day => .day

/-- The name of a unit, singular or plural. -/
def IntervalUnit.word (u : IntervalUnit) (plural : Bool) : List UInt8 :=
  (match u with | .year => ascii "year" | .mon => ascii "mon" | .day => ascii "day") ++
    if plural then ascii "s" else []

/-- The units of an interval in PostgreSQL's style, with the digits of the fraction. -/
inductive IntervalForm
  | unit (u : IntervalUnit) (plural : Bool) (n : UInt32)
  | yearMon (plural : Bool) (year : UInt32) (plural' : Bool) (mon : UInt32)
  | dayTime (plural : Bool) (day hour minute second : UInt32) (digits : List UInt8)
  | time (hour minute second : UInt32) (digits : List UInt8)
  deriving DecidableEq, Repr

/-- A number of the unit. -/
def unitText (neg : Bool) (n : UInt32) (word : List UInt8) : List UInt8 :=
  signed neg (printfUnsigned 1 n ++ 0x20 :: word)

/-- A fraction, if there is one. -/
def fractionText (digits : List UInt8) : List UInt8 := if digits = [] then [] else 0x2e :: digits

/-- What stands behind the hours. -/
def behindHour (minute second : UInt32) (digits : List UInt8) : List UInt8 :=
  0x3a :: (printfUnsigned 2 minute ++ 0x3a :: (printfUnsigned 2 second ++ fractionText digits))

def timeText (neg : Bool) (hour minute second : UInt32) (digits : List UInt8) : List UInt8 :=
  signed neg (printfUnsigned 2 hour ++ behindHour minute second digits)

/-- The text of an interval, of which every part has the sign. -/
def IntervalForm.text (neg : Bool) : IntervalForm → List UInt8
  | .unit u plural n => unitText neg n (u.word plural)
  | .yearMon plural year plural' mon =>
    unitText neg year (IntervalUnit.year.word plural ++
      0x20 :: unitText neg mon (IntervalUnit.mon.word plural'))
  | .dayTime plural day hour minute second digits =>
    unitText neg day (IntervalUnit.day.word plural ++
      0x20 :: timeText neg hour minute second digits)
  | .time hour minute second digits => timeText neg hour minute second digits

/-- The fraction that the digits stand for, in the precision; without one it is 6. -/
def fractionOf (precision : Int) (digits : List UInt8) : UInt32 :=
  UInt32.ofNat (decimalValue digits * 10 ^ (if precision < 0 then 6 else precision).toNat /
    10 ^ digits.length)

/-- The interval of a form. -/
def IntervalForm.struct (ctype : SqlInterval) (precision : Int) (neg : Bool) :
    IntervalForm → SqlIntervalStruct
  | .unit .year _ n => .ofYearMonth ctype neg n 0
  | .unit .mon _ n => .ofYearMonth ctype neg 0 n
  | .unit .day _ n => ⟨some ctype, neg, n, 0, 0, 0, 0⟩
  | .yearMon _ year _ mon => .ofYearMonth ctype neg year mon
  | .dayTime _ day hour minute second digits =>
    ⟨some ctype, neg, day, hour, minute, second, fractionOf precision digits⟩
  | .time hour minute second digits =>
    ⟨some ctype, neg, 0, hour, minute, second, fractionOf precision digits⟩

/-- The minutes and the seconds have two places, and the fraction no more than nine. -/
def IntervalForm.Valid : IntervalForm → Prop
  | .unit _ _ _ | .yearMon _ _ _ _ => True
  | .dayTime _ _ _ minute second digits | .time _ minute second digits =>
    minute < 100 ∧ second < 100 ∧ digits.length ≤ 9 ∧ ∀ c ∈ digits, isDecimal c = true

/-- The intervals that are read. -/
def IntervalForm.Decodable (ctype : SqlInterval) (precision : Int) (neg : Bool) :
    IntervalForm → Prop
  | .unit u _ n => ctype = u.itype ∧ n.toNat < 2 ^ 31 ∧ (neg → n ≠ 0)
  | .yearMon _ year _ mon =>
    (ctype = .month ∨ ctype = .yearToMonth) ∧ (year.toNat < 2 ^ 31 ∧ (neg → year ≠ 0)) ∧
      if neg then mon.toNat ≠ 2 ^ 31 else mon.toNat < 2 ^ 31
  | .dayTime _ _ _ _ _ _ => False
  | .time hour _ _ digits =>
    ¬(ctype = .year ∨ ctype = .month ∨ ctype = .yearToMonth) ∧ neg = false ∧ hour < 100 ∧
      4 ≤ digits.length ∧ precision ≤ 9

/-! ## The formats -/

/-- Behind a number follows a word that is none, and that `%10s` takes. -/
structure WordBehind (tail word s : List UInt8) : Prop where
  digit : tail.head?.any isDecimal = false
  skip : skipSpaces tail = word ++ s
  head : ∃ c ∈ word.head?, Lib.isBlank c = false ∧ c ≠ 0x2d ∧ c ≠ 0x2b ∧ isDecimal c = false
  blanks : ∀ c ∈ word, isSpace c = false
  length : word.length ≤ 10
  ends : s.head?.all isSpace = true ∨ word.length = 10

section

variable {tail word s : List UInt8} (hbehind : WordBehind tail word s)
include hbehind

theorem WordBehind.ne_nil : word ≠ [] := by
  obtain ⟨c, hc, -⟩ := hbehind.head
  rintro rfl
  cases hc

theorem WordBehind.skip_ne_nil : word ++ s ≠ [] :=
  List.append_ne_nil_of_left_ne_nil hbehind.ne_nil s

theorem WordBehind.skip_head {c : UInt8} (hc : c ∈ (word ++ s).head?) :
    Lib.isBlank c = false ∧ c ≠ 0x2d ∧ c ≠ 0x2b ∧ isDecimal c = false := by
  obtain ⟨d, hd, hhead⟩ := hbehind.head
  rw [List.head?_append, Option.mem_def.1 hd] at hc
  rw [← Option.some_inj.1 hc]
  exact hhead

theorem WordBehind.skip_skip : skipSpaces (word ++ s) = word ++ s := by
  obtain ⟨c, word, rfl⟩ := List.exists_cons_of_ne_nil hbehind.ne_nil
  exact skipSpaces_of_head (hbehind.blanks c List.mem_cons_self)

end

theorem skipSpaces_signed {w : Nat} (hw : 0 < w) (neg : Bool) (n : Nat) (s : List UInt8) :
    skipSpaces (signed neg (decimals w n ++ s)) = signed neg (decimals w n ++ s) := by
  cases neg with
  | true => exact skipSpaces_of_head rfl
  | false => exact skipSpaces_decimals hw n s

/-- A digit where the format of a time has a colon. -/
theorem sscanfLoop_time_break (neg : Bool) {ds s : List UInt8} (hne : ds ≠ [])
    (hds : ∀ c ∈ ds, isDecimal c = true) (htake : (signed neg ds ++ s).take 2 = signed neg ds)
    (hs : s.head?.all isDecimal = true) (args : List SscanfArg) (ret : Nat)
    (values : List SscanfValue) :
    sscanfLoop timeDigits (signed neg ds ++ s) (argInt :: args) ret values =
      some ⟨.success, ret + 1,
        values ++ [.num (if neg then -(decimalValue ds : Int) else decimalValue ds)]⟩ := by
  have hwidth : strtol 10 (ascii "02d:%02d:%02d.%09s") =
      (((2 : Nat) : Int), 0x64 :: ascii ":%02d:%02d.%09s") := rfl
  have hlen : ds.length ≤ 2 := by
    have hlength : (signed neg ds).length ≤ 2 := htake ▸ List.length_take_le 2 _
    cases neg with
    | true => exact Nat.le_of_succ_le hlength
    | false => exact hlength
  have hvalue : decimalValue ds ≤ 0x7fffffff := by
    have hlt := decimalValue_lt hds
    have hpow := Nat.pow_le_pow_right (show 0 < 10 by decide) hlen
    omega
  rw [show timeDigits = 0x25 :: ascii "02d:%02d:%02d.%09s" from rfl, argInt,
    sscanfLoop_int neg hwidth (by decide) rfl (by decide) hne hds htake hvalue]
  cases s with
  | nil => exact sscanfLoop_nil _
  | cons c s =>
    have hskip : skipSpaces (c :: s) = c :: s := skipSpaces_of_head (isSpace_of_isDecimal hs)
    have hcolon : (c :: s).head? ≠ some 0x3a := by
      intro hc
      rw [Option.some_inj.1 hc] at hs
      exact absurd (show isDecimal 0x3a = true from hs) (by decide)
    rw [hskip, show ascii ":%02d:%02d.%09s" = 0x3a :: ascii "%02d:%02d.%09s" from rfl,
      sscanfLoop_break (by decide) (by decide) (List.cons_ne_nil c s) hcolon]

/-- More than two digits, or nothing but digits. -/
theorem sscanfLoop_time_digits {ds s : List UInt8} (hne : ds ≠ [])
    (hds : ∀ c ∈ ds, isDecimal c = true) (hs : 2 < ds.length ∨ s = []) (args : List SscanfArg)
    (ret : Nat) (values : List SscanfValue) :
    ∃ n, sscanfLoop timeDigits (ds ++ s) (argInt :: args) ret values =
      some ⟨.success, ret + 1, values ++ [.num n]⟩ := by
  have hpos := List.length_pos_of_ne_nil hne
  have htake : ds.take 2 ≠ [] := by
    refine List.ne_nil_of_length_pos ?_
    rw [List.length_take]
    omega
  have hdrop : (ds.drop 2 ++ s).head?.all isDecimal = true := by
    cases hd : ds.drop 2 with
    | nil =>
      have hlen := List.drop_eq_nil_iff.1 hd
      rw [hs.resolve_left (by omega)]
      rfl
    | cons c cs =>
      have hc : c ∈ ds.drop 2 := hd ▸ List.mem_cons_self
      exact hds c (List.mem_of_mem_drop hc)
  have hwhole : (signed false (ds.take 2) ++ (ds.drop 2 ++ s)).take 2 = signed false (ds.take 2) := by
    rw [signed, if_neg Bool.false_ne_true, ← List.append_assoc, List.take_append_drop]
    rcases hs with hlen | rfl
    · exact List.take_append_of_le_length (Nat.le_of_lt hlen)
    · rw [List.append_nil]
  have hbreak := sscanfLoop_time_break false htake (fun c hc ↦ hds c (List.mem_of_mem_take hc)) hwhole
    hdrop args ret values
  rw [signed, if_neg Bool.false_ne_true, ← List.append_assoc, List.take_append_drop] at hbreak
  exact ⟨_, hbreak⟩

section

variable {w n : Nat} (hw : 0 < w) (hn : n < 2 ^ 63) {neg : Bool} {v : Int}
  (hv : v = if neg then -(n : Int) else n) {tail word s : List UInt8}
  (hbehind : WordBehind tail word s)
include hw hn hv hbehind

/-- A number and a word. -/
theorem sscanfLoop_numberWord {cells : List UInt8} (hcells : cells.length = 64) (f : List UInt8)
    (args : List SscanfArg) (ret : Nat) (values : List SscanfValue) :
    sscanfLoop (numberWord ++ f) (signed neg (decimals w n ++ tail)) (argInt :: .str cells :: args)
        ret values =
      if v > 0x7fffffff then some ⟨.numericConversion, ret, values ++ [.num 0]⟩
      else sscanfLoop f (skipSpaces s) args (ret + 2)
        (values ++ [.num (v.bmod (2 ^ 32)), .str (word ++ behindWord 10 word cells)]) := by
  have hlen := hbehind.length
  have hwidth : strtol 10 (ascii "10s" ++ f) = (((10 : Nat) : Int), 0x73 :: f) := by
    have hdigits : ∀ c ∈ ascii "10", isDecimal c = true := List.all_eq_true.1 (by decide)
    exact @strtol_decimal _ hdigits (List.cons_ne_nil _ _) (0x73 :: f) rfl (by decide)
  have hpercent : (ascii "10s" ++ f).head? ≠ some 0x25 := by
    intro h
    exact absurd (Option.some_inj.1 (show some (0x31 : UInt8) = some 0x25 from h)) (by decide)
  rw [show numberWord ++ f = 0x25 :: 0x64 :: 0x20 :: 0x25 :: (ascii "10s" ++ f) from rfl, argInt,
    sscanfLoop_number hw neg hn hv hbehind.digit]
  refine if_congr Iff.rfl rfl ?_
  rw [hbehind.skip, sscanfLoop_space (by decide) hbehind.skip_ne_nil, hbehind.skip_skip,
    sscanfLoop_str hwidth (by decide) rfl hpercent hbehind.ne_nil hbehind.blanks hlen hbehind.ends
      (by omega) (by omega) (by omega), List.append_assoc]
  rfl

/-- No month stands behind a dash. -/
theorem sscanf_dash :
    ∃ r, secureSscanf (signed neg (decimals w n ++ tail)) (ascii "%d-%d") [argInt, argInt] =
      some r ∧ r.ret < 2 := by
  rw [secureSscanf, show ascii "%d-%d" = 0x25 :: 0x64 :: 0x2d :: ascii "%d" from rfl, argInt,
    sscanfLoop_number hw neg hn hv hbehind.digit]
  split
  · exact ⟨_, rfl, Nat.zero_lt_two⟩
  · rw [hbehind.skip, sscanfLoop_break (by decide) (by decide) hbehind.skip_ne_nil]
    · exact ⟨_, rfl, Nat.one_lt_two⟩
    · intro hc
      exact (hbehind.skip_head hc).2.1 rfl

/-- No time stands behind a number of days. -/
theorem sscanf_days (lit2 : List UInt8) :
    ∃ r, secureSscanf (signed neg (decimals w n ++ tail)) (ascii "%d " ++ timeDigits)
        [argInt, argInt, argInt, argInt, .str lit2] = some r ∧ r.ret < 2 ∧ r.values.length ≤ 2 := by
  have hwidth : strtol 10 (ascii "02d:%02d:%02d.%09s") =
      (((2 : Nat) : Int), 0x64 :: ascii ":%02d:%02d.%09s") := rfl
  rw [secureSscanf, show ascii "%d " ++ timeDigits =
    0x25 :: 0x64 :: 0x20 :: 0x25 :: ascii "02d:%02d:%02d.%09s" from rfl, argInt,
    sscanfLoop_number hw neg hn hv hbehind.digit]
  split
  · exact ⟨_, rfl, Nat.zero_lt_two, Nat.le_succ 1⟩
  · rw [hbehind.skip, sscanfLoop_space (by decide) hbehind.skip_ne_nil, hbehind.skip_skip,
      sscanfLoop_int_none hwidth (by decide) (by decide) hbehind.skip_ne_nil
        fun c hc ↦ hbehind.skip_head hc]
    exact ⟨_, rfl, Nat.one_lt_two, Nat.le_refl 2⟩

/-- With a word behind the number the first two formats do not match. -/
theorem interval2istruct_words (itype : SqlInterval) (precision : Int) (lit1 lit2 : Vector UInt8 64) :
    interval2istruct itype precision (signed neg (decimals w n ++ tail)) lit1 lit2 =
      intervalWords itype precision (signed neg (decimals w n ++ tail)) lit1.toList lit2.toList := by
  obtain ⟨r, hdash, hr⟩ := sscanf_dash hw hn hv hbehind
  obtain ⟨r', hdays, hr', hvalues⟩ := sscanf_days hw hn hv hbehind lit2.toList
  have hnone : r'.values[4]? = none := List.getElem?_eq_none (by omega)
  rw [interval2istruct, hdash, Option.bind_some, if_neg (by omega), hdays, Option.bind_some]
  dsimp only
  rw [if_neg (by omega), SscanfResult.str, hnone]

/-- A number that is too large, at the third format and the fourth. -/
theorem intervalWords_error (hmax : v > 0x7fffffff) (itype : SqlInterval) (precision : Int)
    {lit1 lit2 : List UInt8} (hlit1 : lit1.length = 64) :
    intervalWords itype precision (signed neg (decimals w n ++ tail)) lit1 lit2 =
      if itype = .year ∨ itype = .month ∨ itype = .yearToMonth then some (false, .zero)
      else intervalTimes itype precision (signed neg (decimals w n ++ tail)) lit1 lit2 := by
  rw [intervalWords, secureSscanf, sscanfLoop_numberWord hw hn hv hbehind hlit1, if_pos hmax,
    Option.bind_some]
  dsimp only
  rw [if_neg (by decide), secureSscanf, SscanfResult.str,
    show (([] ++ [SscanfValue.num 0] : List SscanfValue))[1]? = none from rfl,
    sscanfLoop_numberWord hw hn hv hbehind hlit1, if_pos hmax]
  rfl

section

variable (hmax : ¬v > 0x7fffffff) (itype : SqlInterval) (precision : Int) {lit1 lit2 : List UInt8}
  (hlit1 : lit1.length = 64)
include hmax hlit1

/-- Nothing behind the word. -/
theorem intervalWords_word (hs : skipSpaces s = []) :
    ∃ cells, intervalWords itype precision (signed neg (decimals w n ++ tail)) lit1 lit2 =
      intervalUnit itype (v.bmod (2 ^ 32)) (bufferText (word ++ behindWord 10 word cells)) := by
  have hlen := hbehind.length
  refine ⟨word ++ behindWord 10 word lit1, ?_⟩
  rw [intervalWords, secureSscanf, sscanfLoop_numberWord hw hn hv hbehind hlit1, if_neg hmax, hs,
    sscanfLoop_nil, Option.bind_some]
  dsimp only
  rw [if_neg (by decide), secureSscanf, sscanfLoop_numberWord hw hn hv hbehind, if_neg hmax, hs,
    sscanfLoop_nil]
  · rfl
  · exact (length_append_behindWord hlen (by omega)).trans hlit1

/-- A number and a word behind the word. -/
theorem intervalWords_words {w' n' : Nat} (hw' : 0 < w') (hn' : n' < 2 ^ 63) {neg' : Bool} {v' : Int}
    (hv' : v' = if neg' then -(n' : Int) else n') {tail' word' s' : List UInt8}
    (hbehind' : WordBehind tail' word' s')
    (hs : s = 0x20 :: signed neg' (decimals w' n' ++ tail')) (hlit2 : lit2.length = 64) :
    ∃ cells, intervalWords itype precision (signed neg (decimals w n ++ tail)) lit1 lit2 =
      if v' > 0x7fffffff then
        intervalUnit itype (v.bmod (2 ^ 32)) (bufferText (word ++ behindWord 10 word cells))
      else
        intervalYearMon itype (v.bmod (2 ^ 32)) (v'.bmod (2 ^ 32))
          (bufferText (word ++ behindWord 10 word lit1))
          (bufferText (word' ++ behindWord 10 word' lit2)) := by
  have hlen := hbehind.length
  have hskip : skipSpaces s = signed neg' (decimals w' n' ++ tail') := by
    rw [hs, skipSpaces, List.dropWhile_cons_of_pos (by decide)]
    exact skipSpaces_signed hw' neg' n' tail'
  have hne : signed neg' (decimals w' n' ++ tail') ≠ [] :=
    signed_ne_nil neg' (List.append_ne_nil_of_left_ne_nil (decimals_ne_nil hw' n') tail')
  have hsecond := fun args ret values ↦ @sscanfLoop_numberWord w' n' hw' hn' neg' v' hv' tail' word'
    s' hbehind' lit2 hlit2 [] args ret values
  rw [List.append_nil] at hsecond
  refine ⟨word ++ behindWord 10 word lit1, ?_⟩
  rw [intervalWords, secureSscanf, sscanfLoop_numberWord hw hn hv hbehind hlit1, if_neg hmax, hskip,
    sscanfLoop_space (by decide) hne, skipSpaces_signed hw', hsecond]
  by_cases hmax' : v' > 0x7fffffff
  · rw [if_pos hmax', if_pos hmax', Option.bind_some]
    dsimp only
    rw [if_neg (by decide), secureSscanf, sscanfLoop_numberWord hw hn hv hbehind, if_neg hmax, hskip,
      show ascii " %d" = 0x20 :: 0x25 :: 0x64 :: [] from rfl, sscanfLoop_space (by decide) hne,
      skipSpaces_signed hw', argInt, sscanfLoop_number hw' neg' hn' hv' hbehind'.digit, if_pos hmax']
    · rfl
    · exact (length_append_behindWord hlen (by omega)).trans hlit1
  · rw [if_neg hmax', if_neg hmax', sscanfLoop, Option.bind_some]
    rfl

/-- Digits behind the word. -/
theorem intervalWords_digits (hs : s ≠ []) (hdigits : ∀ c ∈ s, isDecimal c = true)
    (hvalue : decimalValue s ≤ 0x7fffffff) :
    ∃ cells : List UInt8, cells.length = 64 ∧
      intervalWords itype precision (signed neg (decimals w n ++ tail)) lit1 lit2 =
        if itype = .year ∨ itype = .month ∨ itype = .yearToMonth then some (false, .zero)
        else intervalTimes itype precision (signed neg (decimals w n ++ tail)) cells lit2 := by
  have hlen := hbehind.length
  have hlength := (length_append_behindWord hlen (by omega)).trans hlit1
  have hskip : skipSpaces s = s := by
    obtain ⟨c, s, rfl⟩ := List.exists_cons_of_ne_nil hs
    exact skipSpaces_of_head (isSpace_of_isDecimal (hdigits c List.mem_cons_self))
  have hread : ∀ f args ret values,
      sscanfLoop (0x25 :: 0x64 :: f) s (.num .int :: args) ret values =
        some ⟨.success, ret + 1, values ++ [.num (decimalValue s)]⟩ := by
    intro f args ret values
    have hnumber := @sscanfLoop_number [] f args ret values s.length (decimalValue s)
      (List.length_pos_of_ne_nil hs) false (by omega) _ rfl rfl
    have hmod : (decimalValue s : Int).bmod (2 ^ 32) = decimalValue s :=
      Int.bmod_eq_of_le (by omega) (by omega)
    rw [List.append_nil, decimals_decimalValue hdigits, if_neg Bool.false_ne_true,
      if_neg (show ¬(decimalValue s : Int) > 0x7fffffff by omega), hmod,
      show skipSpaces [] = [] from rfl, sscanfLoop_nil] at hnumber
    exact hnumber
  refine ⟨_, (length_append_behindWord hlen (by omega)).trans hlength, ?_⟩
  have hword : ∀ args ret values, sscanfLoop numberWord s (argInt :: args) ret values =
      some ⟨.success, ret + 1, values ++ [.num (decimalValue s)]⟩ := hread (ascii " %10s")
  rw [intervalWords, secureSscanf, sscanfLoop_numberWord hw hn hv hbehind hlit1, if_neg hmax, hskip,
    sscanfLoop_space (by decide) hs, hskip, hword, Option.bind_some]
  dsimp only
  rw [if_neg (by decide), secureSscanf, sscanfLoop_numberWord hw hn hv hbehind, if_neg hmax, hskip,
    show ascii " %d" = 0x20 :: 0x25 :: 0x64 :: [] from rfl, sscanfLoop_space (by decide) hs, hskip,
    show argInt = SscanfArg.num .int from rfl, hread, Option.bind_some]
  · rfl
  · exact hlength

end

/-- A number that is too large, at the last two formats. -/
theorem intervalTimes_error (hmax : v > 0x7fffffff) (itype : SqlInterval) (precision : Int)
    {lit1 lit2 : List UInt8} (hlit1 : lit1.length = 64) :
    intervalTimes itype precision (signed neg (decimals w n ++ tail)) lit1 lit2 =
      some (false, .zero) := by
  have hpos : neg = false ∧ 10 ^ 2 < n := by
    cases neg with
    | true => rw [if_pos rfl] at hv; omega
    | false => rw [if_neg Bool.false_ne_true] at hv; exact ⟨rfl, by omega⟩
  obtain ⟨rfl, hlarge⟩ := hpos
  have hdecimals := isDecimal_decimals w n
  have hlt := decimalValue_lt hdecimals
  rw [decimalValue_decimals] at hlt
  have hlen : 2 < (decimals w n).length :=
    (Nat.pow_lt_pow_iff_right (by decide)).1 (Nat.lt_trans hlarge hlt)
  obtain ⟨m, hbreak⟩ := sscanfLoop_time_digits (decimals_ne_nil hw n) hdecimals
    (Or.inl hlen : 2 < _ ∨ tail = []) [argInt, argInt, .str lit2] 0 []
  rw [intervalTimes, secureSscanf, sscanfLoop_numberWord hw hn hv hbehind hlit1, if_pos hmax,
    Option.bind_some]
  dsimp only
  rw [if_neg (by decide), secureSscanf]
  rw [SscanfResult.str, show (([] ++ [SscanfValue.num 0] : List SscanfValue))[5]? = none from rfl,
    signed, if_neg Bool.false_ne_true, hbreak]
  rfl

/-- A number that is too large is not read. -/
theorem interval2istruct_error (hmax : v > 0x7fffffff) (itype : SqlInterval) (precision : Int)
    (lit1 lit2 : Vector UInt8 64) :
    interval2istruct itype precision (signed neg (decimals w n ++ tail)) lit1 lit2 =
      some (false, .zero) := by
  have hlit1 : lit1.toList.length = 64 := Vector.length_toList
  rw [interval2istruct_words hw hn hv hbehind,
    intervalWords_error hw hn hv hbehind hmax itype precision hlit1,
    intervalTimes_error hw hn hv hbehind hmax itype precision hlit1, ite_self]

end

/-! ## Numbers with a unit -/

theorem isWord_unit (u : IntervalUnit) (plural : Bool) : IsWord (u.word plural) := by
  have hwords : ∀ c ∈ u.word plural, (!isSpace c && c != 0) = true := by
    refine List.all_eq_true.1 ?_
    cases u <;> cases plural <;> rfl
  intro c hc
  have hboth := Bool.and_eq_true_iff.1 (hwords c hc)
  exact ⟨(Bool.not_eq_true' _).mp hboth.1, bne_iff_ne.1 hboth.2⟩

theorem length_unit (u : IntervalUnit) (plural : Bool) : (u.word plural).length < 10 := by
  cases u <;> cases plural <;> decide

theorem wordBehind_unit (u : IntervalUnit) (plural : Bool) {s : List UInt8}
    (hs : s.head?.all isSpace = true) :
    WordBehind (0x20 :: (u.word plural ++ s)) (u.word plural) s where
  digit := rfl
  skip := by
    rw [skipSpaces, List.dropWhile_cons_of_pos (by decide)]
    cases u <;> cases plural <;> rfl
  head := by
    cases u <;> exact ⟨_, rfl, by decide⟩
  blanks c hc := (isWord_unit u plural c hc).1
  length := Nat.le_of_lt (length_unit u plural)
  ends := Or.inl hs

theorem bufferText_unit (u : IntervalUnit) (plural : Bool) (cells : List UInt8) :
    bufferText (u.word plural ++ behindWord 10 (u.word plural) cells) = u.word plural := by
  obtain ⟨behind, hbehind⟩ := behindWord_eq (length_unit u plural) cells
  rw [hbehind, bufferText_word (isWord_unit u plural)]

theorem intervalUnit_word (itype : SqlInterval) (precision : Int) (years : Int) (u : IntervalUnit)
    (plural : Bool) :
    intervalUnit itype years (u.word plural) =
      if itype = u.itype then
        (unsignedPart (years < 0) years).map fun n ↦
          (true, (IntervalForm.unit u plural n).struct itype precision (years < 0))
      else some (false, .zero) := by
  cases u <;> cases plural <;> cases itype <;> rfl

/-- Behind years and days alone the second field stays empty. -/
theorem intervalUnit_hour {itype : SqlInterval} {years : Int} {u : IntervalUnit} {plural : Bool}
    {st : SqlIntervalStruct} (hu : u ≠ .mon)
    (h : intervalUnit itype years (u.word plural) = some (true, st)) : st.hour = 0 := by
  rw [intervalUnit_word itype 0] at h
  split at h
  · obtain ⟨n, -, hpair⟩ := Option.map_eq_some_iff.1 h
    cases hpair
    cases u with
    | year => rfl
    | mon => exact absurd rfl hu
    | day => rfl
  · cases h

theorem struct_unit_inj {u : IntervalUnit} {plural : Bool} {k n : UInt32} {itype : SqlInterval}
    {precision : Int} {sign neg : Bool} :
    (IntervalForm.unit u plural k).struct itype precision sign =
      (IntervalForm.unit u plural n).struct itype precision neg ↔ sign = neg ∧ k = n := by
  constructor
  · intro h
    cases u <;> exact ⟨congrArg SqlIntervalStruct.intervalSign h, by injection h⟩
  · rintro ⟨rfl, rfl⟩
    rfl

theorem ofInt_eq {x : Int} {n : UInt32} (h : x % 2 ^ 32 = n.toNat) : UInt32.ofInt x = n := by
  rw [UInt32.ofInt, h, Int.toNat_natCast, UInt32.ofNat_toNat]

theorem ofInt_toNat (n : UInt32) : UInt32.ofInt n.toNat = n := by
  have hlt := n.toNat_lt
  exact ofInt_eq (by omega)

section

variable {n : UInt32} {neg : Bool} {v : Int} (hv : v = if neg then -(n.toNat : Int) else n.toNat)
  (hmax : ¬v > 0x7fffffff)
include hv hmax

/-- The sign and the number are those that were written. -/
theorem unsignedPart_iff :
    (decide (v.bmod (2 ^ 32) < 0) = neg ∧
      unsignedPart (v.bmod (2 ^ 32) < 0) (v.bmod (2 ^ 32)) = some n) ↔
      n.toNat < 2 ^ 31 ∧ (neg → n ≠ 0) := by
  have hlt := n.toNat_lt
  have hzero : n ≠ 0 ↔ n.toNat ≠ 0 := not_congr UInt32.toNat_inj.symm
  cases neg with
  | false =>
    rw [if_neg Bool.false_ne_true] at hv
    have hmod : v.bmod (2 ^ 32) = v := Int.bmod_eq_of_le (by omega) (by omega)
    rw [hmod, decide_eq_false (by omega), hv, unsignedPart, if_neg Bool.false_ne_true, ofInt_toNat]
    exact iff_of_true ⟨rfl, rfl⟩ ⟨by omega, fun h ↦ absurd h Bool.false_ne_true⟩
  | true =>
    rw [if_pos rfl] at hv
    rw [hzero, decide_eq_true_iff]
    by_cases hsmall : n.toNat ≤ 2 ^ 31
    · have hmod : v.bmod (2 ^ 32) = v := Int.bmod_eq_of_le (by omega) (by omega)
      rw [hmod]
      constructor
      · rintro ⟨hsign, hpart⟩
        rw [decide_eq_true hsign, unsignedPart, if_pos rfl] at hpart
        split at hpart
        · cases hpart
        · omega
      · rintro ⟨hn, hne⟩
        have hsign : v < 0 := by have := hne rfl; omega
        rw [decide_eq_true hsign, unsignedPart, if_pos rfl, if_neg (by omega), hv, Int.neg_neg,
          ofInt_toNat]
        exact ⟨hv ▸ hsign, rfl⟩
    · have hmod : v.bmod (2 ^ 32) = v + 2 ^ 32 := by
        rw [← Int.add_bmod_right]
        exact Int.bmod_eq_of_le (by omega) (by omega)
      rw [hmod]
      exact iff_of_false (fun h ↦ by omega) fun h ↦ by omega

/-- A number behind another one with the sign. -/
theorem unsignedPart_second_iff :
    unsignedPart neg (v.bmod (2 ^ 32)) = some n ↔
      if neg then n.toNat ≠ 2 ^ 31 else n.toNat < 2 ^ 31 := by
  have hlt := n.toNat_lt
  cases neg with
  | false =>
    rw [if_neg Bool.false_ne_true] at hv ⊢
    have hmod : v.bmod (2 ^ 32) = v := Int.bmod_eq_of_le (by omega) (by omega)
    rw [hmod, hv, unsignedPart, if_neg Bool.false_ne_true, ofInt_toNat]
    exact iff_of_true rfl (by omega)
  | true =>
    rw [if_pos rfl] at hv ⊢
    rw [unsignedPart, if_pos rfl]
    by_cases hsmall : n.toNat ≤ 2 ^ 31
    · have hmod : v.bmod (2 ^ 32) = v := Int.bmod_eq_of_le (by omega) (by omega)
      rw [hmod]
      split
      · exact iff_of_false (fun h ↦ by cases h) fun h ↦ by omega
      · rw [hv, Int.neg_neg, ofInt_toNat]
        exact iff_of_true rfl (by omega)
    · have hmod : v.bmod (2 ^ 32) = v + 2 ^ 32 := by
        rw [← Int.add_bmod_right]
        exact Int.bmod_eq_of_le (by omega) (by omega)
      rw [hmod, if_neg (by omega), ofInt_eq (show -(v + 2 ^ 32) % 2 ^ 32 = n.toNat by omega)]
      exact iff_of_true rfl (by omega)

theorem unsignedPart_map_iff {f : UInt32 → SqlIntervalStruct} {st : SqlIntervalStruct}
    (hst : ∀ k, f k = st ↔ decide (v.bmod (2 ^ 32) < 0) = neg ∧ k = n) :
    (unsignedPart (v.bmod (2 ^ 32) < 0) (v.bmod (2 ^ 32))).map (fun k ↦ (true, f k)) =
      some (true, st) ↔ n.toNat < 2 ^ 31 ∧ (neg → n ≠ 0) := by
  rw [← unsignedPart_iff hv hmax, Option.map_eq_some_iff]
  constructor
  · rintro ⟨k, hk, hpair⟩
    obtain ⟨hsign, rfl⟩ := (hst k).1 (congrArg Prod.snd hpair)
    exact ⟨hsign, hk⟩
  · rintro ⟨hsign, hk⟩
    exact ⟨n, hk, congrArg (Prod.mk true) ((hst n).2 ⟨hsign, rfl⟩)⟩

end

theorem unit_decodes_iff (u : IntervalUnit) (plural : Bool) (n : UInt32) (neg : Bool)
    (itype : SqlInterval) (precision : Int) (lit1 lit2 : Vector UInt8 64) :
    interval2istruct itype precision ((IntervalForm.unit u plural n).text neg) lit1 lit2 =
        some (true, (IntervalForm.unit u plural n).struct itype precision neg) ↔
      (IntervalForm.unit u plural n).Decodable itype precision neg := by
  have hlt := n.toNat_lt
  have hbehind := @wordBehind_unit u plural [] rfl
  rw [List.append_nil] at hbehind
  rw [IntervalForm.text, unitText, printfUnsigned, IntervalForm.Decodable]
  generalize hv : (if neg then -(n.toNat : Int) else n.toNat) = v
  by_cases hmax : v > 0x7fffffff
  · rw [interval2istruct_error Nat.one_pos (by omega) hv.symm hbehind hmax]
    refine iff_of_false (fun h ↦ by cases h) fun h ↦ ?_
    have hsmall := h.2.1
    split at hv
    · omega
    · omega
  · have hlit1 : lit1.toList.length = 64 := Vector.length_toList
    obtain ⟨cells, hwords⟩ := @intervalWords_word _ _ Nat.one_pos (show n.toNat < 2 ^ 63 by omega) neg
      v hv.symm _ _ _ hbehind hmax itype precision _ lit2.toList hlit1 rfl
    rw [interval2istruct_words Nat.one_pos (by omega) hv.symm hbehind, hwords, bufferText_unit,
      intervalUnit_word itype precision]
    by_cases htype : itype = u.itype
    · rw [if_pos htype, and_iff_right htype]
      exact unsignedPart_map_iff hv.symm hmax fun k ↦ struct_unit_inj
    · rw [if_neg htype]
      exact iff_of_false (fun h ↦ by cases h) fun h ↦ htype h.1

/-! ## Years with months, and days with a time -/

theorem intervalYearMon_words (itype : SqlInterval) (years mons : Int) (plural plural' : Bool) :
    intervalYearMon itype years mons (IntervalUnit.year.word plural)
        (IntervalUnit.mon.word plural') =
      if itype = .month ∨ itype = .yearToMonth then
        (unsignedPart (years < 0) years).bind fun year ↦
          (unsignedPart (years < 0) mons).map fun month ↦
            (true, .ofYearMonth itype (years < 0) year month)
      else some (false, .zero) := by
  cases plural <;> cases plural' <;> cases itype <;> rfl

theorem ofYearMonth_inj {itype : SqlInterval} {sign neg : Bool} {k k' year month : UInt32}
    (h : SqlIntervalStruct.ofYearMonth itype sign k k' = .ofYearMonth itype neg year month) :
    sign = neg ∧ k = year ∧ k' = month := by
  injection h with _ hsign hyear hmonth
  exact ⟨hsign, hyear, hmonth⟩

theorem yearMon_decodes_iff (plural : Bool) (year : UInt32) (plural' : Bool) (mon : UInt32)
    (neg : Bool) (itype : SqlInterval) (precision : Int) (lit1 lit2 : Vector UInt8 64) :
    interval2istruct itype precision ((IntervalForm.yearMon plural year plural' mon).text neg) lit1
          lit2 =
        some (true, (IntervalForm.yearMon plural year plural' mon).struct itype precision neg) ↔
      (IntervalForm.yearMon plural year plural' mon).Decodable itype precision neg := by
  have hlt := year.toNat_lt
  have hlt' := mon.toNat_lt
  have hbehind' := @wordBehind_unit .mon plural' [] rfl
  rw [List.append_nil] at hbehind'
  have hbehind := @wordBehind_unit .year plural
    (0x20 :: signed neg (decimals 1 mon.toNat ++ 0x20 :: IntervalUnit.mon.word plural')) rfl
  rw [IntervalForm.text, unitText, unitText, printfUnsigned, printfUnsigned, IntervalForm.Decodable]
  generalize hv : (if neg then -(year.toNat : Int) else year.toNat) = v
  generalize hv' : (if neg then -(mon.toNat : Int) else mon.toNat) = v'
  by_cases hmax : v > 0x7fffffff
  · rw [interval2istruct_error Nat.one_pos (by omega) hv.symm hbehind hmax]
    refine iff_of_false (fun h ↦ by cases h) fun h ↦ ?_
    have hsmall := h.2.1.1
    split at hv
    · omega
    · omega
  · have hlit1 : lit1.toList.length = 64 := Vector.length_toList
    have hlit2 : lit2.toList.length = 64 := Vector.length_toList
    obtain ⟨cells, hwords⟩ := @intervalWords_words _ _ Nat.one_pos (show year.toNat < 2 ^ 63 by omega)
      neg v hv.symm _ _ _ hbehind hmax itype precision _ lit2.toList hlit1 _ _ Nat.one_pos
      (show mon.toNat < 2 ^ 63 by omega) _ v' hv'.symm _ _ _ hbehind' rfl hlit2
    rw [interval2istruct_words Nat.one_pos (by omega) hv.symm hbehind, hwords, bufferText_unit,
      bufferText_unit, bufferText_unit]
    by_cases hmax' : v' > 0x7fffffff
    · have hlarge : neg = false ∧ 2 ^ 31 ≤ mon.toNat := by
        cases neg with
        | true => rw [if_pos rfl] at hv'; omega
        | false => rw [if_neg Bool.false_ne_true] at hv'; exact ⟨rfl, by omega⟩
      rw [if_pos hmax']
      refine iff_of_false (fun h ↦ ?_) fun h ↦ ?_
      · have hzero : mon = 0 := intervalUnit_hour (by decide) h
        rw [hzero] at hlarge
        exact absurd hlarge.2 (by decide)
      · have hsmall := h.2.2
        rw [hlarge.1, if_neg Bool.false_ne_true] at hsmall
        omega
    · rw [if_neg hmax', intervalYearMon_words]
      by_cases htype : itype = .month ∨ itype = .yearToMonth
      · rw [if_pos htype, and_iff_right htype, ← unsignedPart_iff hv.symm hmax,
          ← unsignedPart_second_iff hv'.symm hmax', Option.bind_eq_some_iff]
        constructor
        · rintro ⟨k, hk, hmap⟩
          obtain ⟨k', hk', hpair⟩ := Option.map_eq_some_iff.1 hmap
          obtain ⟨hsign, rfl, rfl⟩ := ofYearMonth_inj (congrArg Prod.snd hpair)
          exact ⟨⟨hsign, hk⟩, hsign ▸ hk'⟩
        · rintro ⟨⟨hsign, hk⟩, hk'⟩
          refine ⟨year, hk, Option.map_eq_some_iff.2 ⟨mon, ?_, ?_⟩⟩
          · rw [hsign]
            exact hk'
          · rw [hsign]
            rfl
      · rw [if_neg htype]
        exact iff_of_false (fun h ↦ by cases h) fun h ↦ htype h.1

theorem wordBehind_colon (t : List UInt8) : ∃ word s, WordBehind (0x3a :: t) word s := by
  obtain ⟨word, s, hsplit, hword, hlen, hs⟩ := exists_word (0x3a :: t) 10
  have hhead : word.head? = some 0x3a := by
    cases word with
    | nil =>
      rw [List.nil_append] at hsplit
      rw [← hsplit] at hs
      rcases hs with hs | hs
      · exact absurd (show isSpace 0x3a = true from hs) (by decide)
      · cases hs
    | cons c word =>
      rw [List.cons_append] at hsplit
      injection hsplit with hc
      rw [← hc]
      rfl
  exact ⟨word, s, rfl, hsplit, ⟨0x3a, hhead, by decide⟩, hword, hlen, hs⟩

/-- Days with a time are not read. -/
theorem interval2istruct_dayTime (plural : Bool) (day hour : UInt32) (neg : Bool) (t : List UInt8)
    (itype : SqlInterval) (precision : Int) (lit1 lit2 : Vector UInt8 64) {st : SqlIntervalStruct}
    (hhour : st.hour = hour) :
    interval2istruct itype precision (unitText neg day (IntervalUnit.day.word plural ++
        0x20 :: signed neg (printfUnsigned 2 hour ++ 0x3a :: t))) lit1 lit2 ≠ some (true, st) := by
  have hlt := day.toNat_lt
  have hlt' := hour.toNat_lt
  obtain ⟨word, s, hbehind'⟩ := wordBehind_colon t
  have hbehind := @wordBehind_unit .day plural
    (0x20 :: signed neg (decimals 2 hour.toNat ++ 0x3a :: t)) rfl
  intro h
  rw [unitText, printfUnsigned, printfUnsigned] at h
  generalize hv : (if neg then -(day.toNat : Int) else day.toNat) = v at h
  generalize hv' : (if neg then -(hour.toNat : Int) else hour.toNat) = v' at h
  by_cases hmax : v > 0x7fffffff
  · rw [interval2istruct_error Nat.one_pos (by omega) hv.symm hbehind hmax] at h
    cases h
  · have hlit1 : lit1.toList.length = 64 := Vector.length_toList
    have hlit2 : lit2.toList.length = 64 := Vector.length_toList
    obtain ⟨cells, hwords⟩ := @intervalWords_words _ _ Nat.one_pos (show day.toNat < 2 ^ 63 by omega)
      neg v hv.symm _ _ _ hbehind hmax itype precision _ lit2.toList hlit1 _ _ Nat.two_pos
      (show hour.toNat < 2 ^ 63 by omega) _ v' hv'.symm _ _ _ hbehind' rfl hlit2
    rw [interval2istruct_words Nat.one_pos (by omega) hv.symm hbehind, hwords, bufferText_unit,
      bufferText_unit] at h
    split at h
    · have hzero : hour = 0 := hhour.symm.trans (intervalUnit_hour (by decide) h)
      rw [hzero, show (0 : UInt32).toNat = 0 from rfl] at hv'
      split at hv'
      · omega
      · omega
    · rw [intervalYearMon, if_neg] at h
      · cases h
      · rintro ⟨hyear, -⟩
        cases plural <;> exact absurd hyear (by decide)

/-! ## Times -/

/-- `%02d` at a number of two digits. -/
theorem sscanfLoop_twoDigits {n : Nat} (hn : n < 10 ^ 2) (f s : List UInt8) (args : List SscanfArg)
    (ret : Nat) (values : List SscanfValue) :
    sscanfLoop (0x25 :: 0x30 :: 0x32 :: 0x64 :: f) (decimals 2 n ++ s) (argInt :: args) ret values =
      sscanfLoop f (skipSpaces s) args (ret + 1) (values ++ [.num n]) := by
  have hwidth : strtol 10 (0x30 :: 0x32 :: 0x64 :: f) = (((2 : Nat) : Int), 0x64 :: f) := by
    have hdigits : ∀ c ∈ ([0x30, 0x32] : List UInt8), isDecimal c = true :=
      List.all_eq_true.1 (by decide)
    exact @strtol_decimal _ hdigits (List.cons_ne_nil _ _) (0x64 :: f) rfl (by decide)
  have hpercent : (0x30 :: 0x32 :: 0x64 :: f).head? ≠ some (0x25 : UInt8) := by
    intro h
    exact absurd (Option.some_inj.1 h) (by decide)
  have hstep := @sscanfLoop_int (decimals 2 n) s _ f 2 args ret values false hwidth (by decide) rfl
    hpercent (decimals_ne_nil Nat.two_pos n) (isDecimal_decimals 2 n)
    (List.take_left' (length_decimals hn)) (by rw [decimalValue_decimals]; omega)
  rw [decimalValue_decimals, if_neg Bool.false_ne_true] at hstep
  exact hstep

section

variable {hour minute second : UInt32} {digits : List UInt8}
  (hminute : minute.toNat < 10 ^ 2) (hsecond : second.toNat < 10 ^ 2)
  (hdigits : ∀ c ∈ digits, isDecimal c = true)
include hminute hsecond hdigits

theorem sscanf_time (hhour : hour.toNat < 10 ^ 2) (hne : digits ≠ []) (hlen : digits.length ≤ 9)
    {lit2 : List UInt8} (hlit2 : lit2.length = 64) :
    secureSscanf (decimals 2 hour.toNat ++ behindHour minute second digits) timeDigits
        [argInt, argInt, argInt, .str lit2] =
      some ⟨.success, 4, [.num hour.toNat, .num minute.toNat, .num second.toNat,
        .str (digits ++ behindWord 9 digits lit2)]⟩ := by
  have hformat : timeDigits = 0x25 :: 0x30 :: 0x32 :: 0x64 :: 0x3a :: 0x25 :: 0x30 :: 0x32 :: 0x64 ::
      0x3a :: 0x25 :: 0x30 :: 0x32 :: 0x64 :: 0x2e :: 0x25 :: ascii "09s" := rfl
  have hwidth : strtol 10 (ascii "09s") = (((9 : Nat) : Int), [0x73]) := rfl
  have hliteral : ∀ (c : UInt8) s, isSpace c = false → skipSpaces (c :: s) = c :: s :=
    fun c s hc ↦ skipSpaces_of_head hc
  have hskip : skipSpaces digits = digits := by
    obtain ⟨c, ds, rfl⟩ := List.exists_cons_of_ne_nil hne
    exact hliteral c ds (isSpace_of_isDecimal (hdigits c List.mem_cons_self))
  have hstr := fun args ret values ↦ @sscanfLoop_str [] _ _ _ args ret values hwidth (by decide) rfl
    (by decide) digits hne (fun c hc ↦ isSpace_of_isDecimal (hdigits c hc)) hlen (Or.inl rfl) lit2
    (by omega) (by omega) (by omega)
  simp only [List.append_nil] at hstr
  rw [secureSscanf, hformat, behindHour, printfUnsigned, printfUnsigned, fractionText, if_neg hne,
    sscanfLoop_twoDigits hhour, hliteral _ _ (by decide), sscanfLoop_literal (by decide) (by decide),
    sscanfLoop_twoDigits hminute, hliteral _ _ (by decide),
    sscanfLoop_literal (by decide) (by decide), sscanfLoop_twoDigits hsecond,
    hliteral _ _ (by decide), sscanfLoop_literal (by decide) (by decide), hstr,
    show skipSpaces [] = [] from rfl, sscanfLoop_nil]
  rfl

/-- The first ten characters behind the hours go up to the third digit of the fraction. -/
theorem wordBehind_time :
    WordBehind (behindHour minute second digits) ((behindHour minute second digits).take 10)
      (digits.drop 3) := by
  obtain ⟨a, b, hab⟩ := List.length_eq_two.1 (length_decimals hminute)
  obtain ⟨c, d, hcd⟩ := List.length_eq_two.1 (length_decimals hsecond)
  have hwhole : behindHour minute second digits =
      0x3a :: a :: b :: 0x3a :: c :: d :: fractionText digits := by
    rw [behindHour, printfUnsigned, printfUnsigned, hab, hcd]
    rfl
  have hfraction : ∀ c ∈ fractionText digits, isSpace c = false := by
    intro c hc
    rw [fractionText] at hc
    split at hc
    · cases hc
    · rcases List.mem_cons.1 hc with rfl | hc
      · rfl
      · exact isSpace_of_isDecimal (hdigits c hc)
  have hblanks : ∀ c ∈ behindHour minute second digits, isSpace c = false := by
    intro c hc
    rcases List.mem_cons.1 hc with rfl | hc
    · rfl
    · rcases List.mem_append.1 hc with hc | hc
      · exact isSpace_of_isDecimal (isDecimal_decimals 2 _ c hc)
      · rcases List.mem_cons.1 hc with rfl | hc
        · rfl
        · rcases List.mem_append.1 hc with hc | hc
          · exact isSpace_of_isDecimal (isDecimal_decimals 2 _ c hc)
          · exact hfraction c hc
  have hdrop : (behindHour minute second digits).drop 10 = digits.drop 3 := by
    rw [hwhole, fractionText]
    split
    · next hnil => rw [hnil]; rfl
    · rfl
  refine ⟨rfl, ?_, ⟨0x3a, rfl, by decide⟩, fun c hc ↦ hblanks c (List.mem_of_mem_take hc),
    List.length_take_le 10 _, ?_⟩
  · rw [← hdrop, List.take_append_drop]
    exact skipSpaces_of_head rfl
  · by_cases hlen : digits.drop 3 = []
    · exact Or.inl (by rw [hlen]; rfl)
    · refine Or.inr ?_
      rw [← hdrop, List.drop_eq_nil_iff] at hlen
      rw [List.length_take]
      omega

/-- No sign and no third digit. -/
theorem intervalTimes_digits (itype : SqlInterval) (precision : Int) (neg : Bool)
    {v : Int} (hv : v = if neg then -(hour.toNat : Int) else hour.toNat) (hmax : ¬v > 0x7fffffff)
    (hmore : digits.drop 3 ≠ []) {lit1 lit2 : List UInt8} (hlit1 : lit1.length = 64) :
    intervalTimes itype precision (timeText neg hour minute second digits) lit1 lit2 =
      (secureSscanf (timeText neg hour minute second digits) timeDigits
        [argInt, argInt, argInt, .str lit2]).bind fun r ↦
          if r.ret = 3 ∨ r.ret = 4 then intervalTime itype precision r (r.str 3 lit2)
          else some (false, .zero) := by
  have hlt := hour.toNat_lt
  have hrest : ∀ c ∈ digits.drop 3, isDecimal c = true :=
    fun c hc ↦ hdigits c (List.mem_of_mem_drop hc)
  have hskip : skipSpaces (digits.drop 3) = digits.drop 3 := by
    obtain ⟨c, ds, hcons⟩ := List.exists_cons_of_ne_nil hmore
    rw [hcons] at hrest ⊢
    exact skipSpaces_of_head (isSpace_of_isDecimal (hrest c List.mem_cons_self))
  have hbehind := wordBehind_time hminute hsecond hdigits
  obtain ⟨n, hbreak⟩ := sscanfLoop_time_digits hmore hrest (Or.inr rfl : 2 < _ ∨ ([] : List UInt8) = [])
    [argInt, argInt, .str lit2] 2 _
  rw [List.append_nil] at hbreak
  rw [intervalTimes, secureSscanf, timeText, printfUnsigned,
    sscanfLoop_numberWord Nat.two_pos (by omega) hv hbehind hlit1, if_neg hmax, hskip,
    sscanfLoop_space (by decide) hmore, hskip, hbreak, Option.bind_some]
  rfl

end

/-- Not a time of day. -/
theorem sscanf_time_break {hour : UInt32} {neg : Bool} (h : neg = true ∨ 10 ^ 2 ≤ hour.toNat)
    (minute second : UInt32) (digits lit2 : List UInt8) :
    ∃ n, secureSscanf (timeText neg hour minute second digits) timeDigits
      [argInt, argInt, argInt, .str lit2] = some ⟨.success, 1, [.num n]⟩ := by
  have hdecimals := isDecimal_decimals 2 hour.toNat
  have hlen := le_length_decimals 2 hour.toNat
  cases neg with
  | true =>
    obtain ⟨a, ds, hcons⟩ := List.exists_cons_of_length_pos (Nat.lt_of_lt_of_le Nat.two_pos hlen)
    rw [hcons] at hlen hdecimals
    obtain ⟨b, ds, rfl⟩ := List.exists_cons_of_length_pos (Nat.lt_of_succ_lt_succ hlen)
    have hbreak := @sscanfLoop_time_break true [a] (b :: (ds ++ behindHour minute second digits))
      (List.cons_ne_nil _ _) (List.forall_mem_singleton.2 (hdecimals a List.mem_cons_self)) rfl
      (hdecimals b (List.mem_cons_of_mem _ List.mem_cons_self)) [argInt, argInt, .str lit2] 0 []
    refine ⟨-(decimalValue [a] : Int), ?_⟩
    rw [timeText, printfUnsigned, hcons]
    exact hbreak
  | false =>
    have hlarge := h.resolve_left Bool.false_ne_true
    have hlt := decimalValue_lt hdecimals
    rw [decimalValue_decimals] at hlt
    have hlen : 2 < (decimals 2 hour.toNat).length :=
      (Nat.pow_lt_pow_iff_right (by decide)).1 (Nat.lt_of_le_of_lt hlarge hlt)
    exact sscanfLoop_time_digits (decimals_ne_nil Nat.two_pos _) hdecimals (Or.inl hlen)
      [argInt, argInt, .str lit2] 0 []

theorem intervalUnit_colon {itype : SqlInterval} {years : Int} {lit1 : List UInt8}
    (h : lit1.head? = some 0x3a) : intervalUnit itype years lit1 = some (false, .zero) := by
  obtain ⟨s, rfl⟩ := List.head?_eq_some_iff.1 h
  cases itype <;> rfl

/-! ## The fraction -/

section

variable {digits : List UInt8} (hlen : digits.length ≤ 9) (hdigits : ∀ c ∈ digits, isDecimal c = true)
include hlen hdigits

/-- The nine digits of `fraction`, from a buffer that may not be terminated behind them. -/
theorem precPart_eq (cells : List UInt8) :
    (bufferText (digits ++ behindWord 9 digits cells)).take 9 ++
        List.replicate (9 - (bufferText (digits ++ behindWord 9 digits cells)).length) 0x30 =
      digits ++ List.replicate (9 - digits.length) 0x30 := by
  have hkeep : ∀ c ∈ digits, decide (c ≠ 0) = true := by
    intro c hc
    refine decide_eq_true ?_
    rintro rfl
    exact zero_notMem_decimal hdigits hc
  rw [bufferText, List.takeWhile_append_of_pos hkeep]
  by_cases hnine : digits.length = 9
  · rw [List.take_left' hnine, List.length_append, hnine, Nat.sub_eq_zero_of_le (Nat.le_add_right 9 _)]
  · obtain ⟨behind, hbehind⟩ := behindWord_eq (Nat.lt_of_le_of_ne hlen hnine) cells
    rw [hbehind, List.takeWhile_cons_of_neg (by decide), List.append_nil, List.take_of_length_le hlen]

/-- The number of the digits up to the precision. -/
theorem decimalValue_cut {p : Nat} (hp : p ≤ 9) :
    decimalValue ((digits ++ List.replicate (9 - digits.length) 0x30).take p) =
      decimalValue digits * 10 ^ p / 10 ^ digits.length := by
  have hlength : (digits ++ List.replicate (9 - digits.length) 0x30).length = p + (9 - p) := by
    rw [length_zeros hlen]
    omega
  have hpow : 10 ^ (9 - digits.length) * 10 ^ (digits.length + p) = 10 ^ p * 10 ^ 9 := by
    rw [← Nat.pow_add, ← Nat.pow_add, show 9 - digits.length + (digits.length + p) = p + 9 by omega]
  have hpow' : 10 ^ (9 - p) * 10 ^ (digits.length + p) = 10 ^ digits.length * 10 ^ 9 := by
    rw [← Nat.pow_add, ← Nat.pow_add, show 9 - p + (digits.length + p) = digits.length + 9 by omega]
  rw [decimalValue_take (isDecimal_zeros hdigits) hlength, decimalValue_zeros,
    ← Nat.mul_div_mul_right _ _ (Nat.pow_pos (n := digits.length + p) (show 0 < 10 by decide)),
    Nat.mul_assoc, hpow, hpow', ← Nat.mul_assoc, Nat.mul_div_mul_right _ _ (Nat.pow_pos (by decide))]

theorem getPrecisionPart_eq (precision : Int) (cells : List UInt8) :
    getPrecisionPart precision (bufferText (digits ++ behindWord 9 digits cells)) =
      if precision > 9 then none else some (fractionOf precision digits) := by
  have hzeros := isDecimal_zeros hdigits
  rw [getPrecisionPart, precPart_eq hlen hdigits, fractionOf]
  dsimp only
  generalize hp : (if precision < 0 then 6 else precision) = p
  have hrange : 0 ≤ p ∧ (p > 9 ↔ precision > 9) := by
    split at hp
    · omega
    · omega
  by_cases hnull : p = 0
  · have hlt := decimalValue_lt hdigits
    rw [if_pos hnull, if_neg (by omega), hnull, show (0 : Int).toNat = 0 from rfl, Nat.pow_zero,
      Nat.mul_one, Nat.div_eq_of_lt hlt]
    rfl
  · rw [if_neg hnull]
    by_cases hnine : p > 9
    · rw [if_pos hnine, if_pos (hrange.2.1 hnine)]
    · have htake : ∀ c ∈ (digits ++ List.replicate (9 - digits.length) 0x30).take p.toNat,
          isDecimal c = true := fun c hc ↦ hzeros c (List.mem_of_mem_take hc)
      have hlength : ((digits ++ List.replicate (9 - digits.length) 0x30).take p.toNat).length =
          p.toNat := by
        rw [List.length_take, length_zeros hlen]
        omega
      rw [if_neg hnine, if_neg fun h ↦ hnine (hrange.2.2 h),
        pgAtoi_decimal htake (List.ne_nil_of_length_pos (by omega)) (by omega),
        decimalValue_cut hlen hdigits (by omega)]
      refine congrArg some (ofInt_eq ?_)
      rw [UInt32.toNat_ofNat', Int.natCast_mod]
      rfl

end

/-! ## What is read -/

theorem intervalTime_eq {itype : SqlInterval} {precision : Int} {hour minute second : UInt32}
    {digits : List UInt8} (hlen : digits.length ≤ 9) (hdigits : ∀ c ∈ digits, isDecimal c = true)
    {r : SscanfResult} (hret : r.ret = 4) (hhour : r.num 0 = hour.toNat)
    (hminute : r.num 1 = minute.toNat) (hsecond : r.num 2 = second.toNat) (cells : List UInt8) :
    intervalTime itype precision r (digits ++ behindWord 9 digits cells) =
      if precision > 9 then none
      else some (true, (IntervalForm.time hour minute second digits).struct itype precision false) := by
  have hsign : decide ((hour.toNat : Int) < 0) = false := decide_eq_false (by omega)
  rw [intervalTime, hret, hhour, hminute, hsecond, hsign, unsignedPart, if_neg Bool.false_ne_true,
    ofInt_toNat, ofInt_toNat, ofInt_toNat, Option.bind_some, fractionPart, if_pos (by decide),
    getPrecisionPart_eq hlen hdigits]
  split
  · rfl
  · rfl

theorem time_decodes_iff {hour minute second : UInt32} {digits : List UInt8}
    (hvalid : (IntervalForm.time hour minute second digits).Valid) (neg : Bool)
    (itype : SqlInterval) (precision : Int) (lit1 lit2 : Vector UInt8 64) :
    interval2istruct itype precision ((IntervalForm.time hour minute second digits).text neg) lit1
          lit2 =
        some (true, (IntervalForm.time hour minute second digits).struct itype precision neg) ↔
      (IntervalForm.time hour minute second digits).Decodable itype precision neg := by
  obtain ⟨hminute, hsecond, hlen, hdigits⟩ := hvalid
  rw [UInt32.lt_iff_toNat_lt] at hminute hsecond
  have hlt := hour.toNat_lt
  have hlit1 : lit1.toList.length = 64 := Vector.length_toList
  have hlit2 : lit2.toList.length = 64 := Vector.length_toList
  have hbehind := wordBehind_time hminute hsecond hdigits
  rw [IntervalForm.text, IntervalForm.Decodable, UInt32.lt_iff_toNat_lt]
  generalize hv : (if neg then -(hour.toNat : Int) else hour.toNat) = v
  by_cases hmax : v > 0x7fffffff
  · rw [timeText, printfUnsigned, interval2istruct_error Nat.two_pos (by omega) hv.symm hbehind hmax]
    refine iff_of_false (fun h ↦ by cases h) fun h ↦ ?_
    rw [if_neg (Bool.eq_false_iff.1 h.2.1)] at hv
    have hhour : hour.toNat < 100 := h.2.2.1
    omega
  rw [timeText, printfUnsigned, interval2istruct_words Nat.two_pos (by omega) hv.symm hbehind]
  by_cases hmore : digits.drop 3 = []
  · rw [hmore] at hbehind
    obtain ⟨cells, hwords⟩ := @intervalWords_word _ _ Nat.two_pos (show hour.toNat < 2 ^ 63 by omega)
      neg v hv.symm _ _ _ hbehind hmax itype precision _ lit2.toList hlit1 rfl
    rw [hwords, intervalUnit_colon]
    · refine iff_of_false (fun h ↦ by cases h) fun h ↦ ?_
      have hshort := List.drop_eq_nil_iff.1 hmore
      have hlong := h.2.2.2.1
      omega
    · rfl
  · have hrest : ∀ c ∈ digits.drop 3, isDecimal c = true :=
      fun c hc ↦ hdigits c (List.mem_of_mem_drop hc)
    have hvalue : decimalValue (digits.drop 3) ≤ 0x7fffffff := by
      have hlt := decimalValue_lt hrest
      have hpow := Nat.pow_le_pow_right (show 0 < 10 by decide)
        (show (digits.drop 3).length ≤ 6 by rw [List.length_drop]; omega)
      omega
    have hfour : 4 ≤ digits.length := Nat.lt_of_not_le fun h ↦ hmore (List.drop_eq_nil_iff.2 h)
    obtain ⟨cells, hcells, hwords⟩ := @intervalWords_digits _ _ Nat.two_pos
      (show hour.toNat < 2 ^ 63 by omega) neg v hv.symm _ _ _ hbehind hmax itype precision _ lit2.toList
      hlit1 hmore hrest hvalue
    rw [hwords]
    by_cases htype : itype = .year ∨ itype = .month ∨ itype = .yearToMonth
    · rw [if_pos htype]
      exact iff_of_false (fun h ↦ by cases h) fun h ↦ h.1 htype
    · have htimes := @intervalTimes_digits hour minute second digits hminute hsecond hdigits itype
        precision neg v hv.symm hmax hmore cells lit2.toList hcells
      rw [timeText, printfUnsigned] at htimes
      rw [if_neg htype, htimes, and_iff_right htype]
      by_cases hday : neg = false ∧ hour.toNat < 10 ^ 2
      · obtain ⟨rfl, hhour⟩ := hday
        have hscan := @sscanf_time hour minute second digits hminute hsecond hdigits hhour
          (List.ne_nil_of_length_pos (by omega)) hlen lit2.toList hlit2
        have htime := @intervalTime_eq itype precision hour minute second digits hlen hdigits
          ⟨.success, 4, [.num hour.toNat, .num minute.toNat, .num second.toNat,
            .str (digits ++ behindWord 9 digits lit2.toList)]⟩ rfl rfl rfl rfl lit2.toList
        rw [show signed false (decimals 2 hour.toNat ++ behindHour minute second digits) =
          decimals 2 hour.toNat ++ behindHour minute second digits from rfl, hscan, Option.bind_some,
          if_pos (Or.inr rfl)]
        refine (Eq.congr_left htime).trans ?_
        by_cases hnine : precision > 9
        · rw [if_pos hnine]
          exact iff_of_false (fun h ↦ by cases h) fun h ↦ absurd h.2.2.2 (Int.not_le.2 hnine)
        · rw [if_neg hnine]
          exact iff_of_true rfl ⟨rfl, hhour, hfour, Int.not_lt.1 hnine⟩
      · obtain ⟨n, hscan⟩ := @sscanf_time_break hour neg (by
            cases neg with
            | true => exact Or.inl rfl
            | false => exact Or.inr (Nat.le_of_not_lt fun h ↦ hday ⟨rfl, h⟩))
          minute second digits lit2.toList
        rw [timeText, printfUnsigned] at hscan
        rw [hscan]
        exact iff_of_false (fun h ↦ by cases h) fun h ↦ hday ⟨h.1, h.2.1⟩

/-! ## The texts of parameters -/

/-- The fields the text of a parameter is made of. -/
def SqlIntervalStruct.written (ctype : SqlInterval) (st : SqlIntervalStruct) : SqlIntervalStruct :=
  match ctype with
  | .year | .day => ⟨some ctype, st.intervalSign, st.day, 0, 0, 0, 0⟩
  | .month | .yearToMonth | .hour | .dayToHour =>
    ⟨some ctype, st.intervalSign, st.day, st.hour, 0, 0, 0⟩
  | .minute | .hourToMinute | .dayToMinute =>
    ⟨some ctype, st.intervalSign, st.day, st.hour, st.minute, 0, 0⟩
  | .second | .dayToSecond | .hourToSecond | .minuteToSecond =>
    ⟨some ctype, st.intervalSign, st.day, st.hour, st.minute, st.second, st.fraction⟩

/-- The parameters of which the text is read. -/
def SqlIntervalStruct.Decodable (ctype : SqlInterval) (st : SqlIntervalStruct) : Prop :=
  match ctype with
  | .year => (IntervalForm.unit .year true st.year).Decodable ctype 0 st.intervalSign
  | .day => (IntervalForm.unit .day true st.day).Decodable ctype 0 st.intervalSign
  | .month | .yearToMonth =>
    (IntervalForm.yearMon true st.year true st.month).Decodable ctype 0 st.intervalSign
  | _ => False

theorem sign_append (neg : Bool) (s : List UInt8) :
    (if neg then ascii "-" else []) ++ s = signed neg s := by
  cases neg with
  | true => rfl
  | false => rfl

theorem intervalParamText_unit (u : IntervalUnit) (hu : u ≠ .mon) (precision : Int)
    (st : SqlIntervalStruct) : intervalParamText u.itype precision st =
      (IntervalForm.unit u true st.day).text st.intervalSign := by
  cases u with
  | year => exact (List.append_assoc _ _ _).trans (sign_append st.intervalSign _)
  | mon => exact absurd rfl hu
  | day => exact (List.append_assoc _ _ _).trans (sign_append st.intervalSign _)

theorem intervalParamText_yearMon {ctype : SqlInterval} (hctype : ctype = .month ∨ ctype = .yearToMonth)
    (precision : Int) (st : SqlIntervalStruct) : intervalParamText ctype precision st =
      (IntervalForm.yearMon true st.year true st.month).text st.intervalSign := by
  have htext : intervalParamText .month precision st =
      (IntervalForm.yearMon true st.year true st.month).text st.intervalSign := by
    simp only [intervalParamText, List.append_assoc]
    rw [sign_append, sign_append]
    rfl
  rcases hctype with rfl | rfl
  · exact htext
  · exact htext

/-- What stands before the first colon in the text of days with a time. -/
def untilHour (st : SqlIntervalStruct) : List UInt8 :=
  (if st.intervalSign then ascii "-" else []) ++ printfUnsigned 1 st.day ++ ascii " days" ++
    (ascii " " ++ (if st.intervalSign then ascii "-" else []) ++ printfUnsigned 2 st.hour)

theorem untilHour_append (st : SqlIntervalStruct) (t : List UInt8) :
    untilHour st ++ t = unitText st.intervalSign st.day (IntervalUnit.day.word true ++
      0x20 :: signed st.intervalSign (printfUnsigned 2 st.hour ++ t)) := by
  rw [untilHour]
  simp only [List.append_assoc]
  rw [sign_append, sign_append]
  rfl

theorem length_untilHour (st : SqlIntervalStruct) : (untilHour st).length ≤ 148 := by
  have hsign : (if st.intervalSign then ascii "-" else []).length ≤ 1 := by
    split
    · exact Nat.le_refl 1
    · exact Nat.zero_le 1
  have hday : (printfUnsigned 1 st.day).length ≤ 10 :=
    length_decimals_le (by decide) (Nat.lt_trans st.day.toNat_lt (by decide))
  have hhour : (printfUnsigned 2 st.hour).length ≤ 10 :=
    length_decimals_le (by decide) (Nat.lt_trans st.hour.toNat_lt (by decide))
  have hdays : (ascii " days").length = 5 := rfl
  have hblank : (ascii " ").length = 1 := rfl
  simp only [untilHour, List.length_append]
  omega

theorem take_untilHour (st : SqlIntervalStruct) (t : List UInt8) :
    ∃ t', (untilHour st ++ 0x3a :: t).take 149 = untilHour st ++ 0x3a :: t' := by
  have hlen := length_untilHour st
  obtain ⟨k, hk⟩ : ∃ k, 149 - (untilHour st).length = k + 1 :=
    ⟨148 - (untilHour st).length, by omega⟩
  refine ⟨t.take k, ?_⟩
  rw [List.take_append, List.take_of_length_le (by omega), hk, List.take_succ_cons]

/-- The types of which the text has a time go on with it behind the hours. -/
theorem intervalParamText_dayTime {ctype : SqlInterval}
    (htime : ¬(ctype = .year ∨ ctype = .day ∨ ctype = .month ∨ ctype = .yearToMonth))
    (precision : Int) (st : SqlIntervalStruct) :
    ∃ t, intervalParamText ctype precision st = untilHour st ++ 0x3a :: t := by
  have hminute : ∃ t, untilHour st ++ ascii ":" ++ printfUnsigned 2 st.minute ++ ascii ":00" =
      untilHour st ++ 0x3a :: t :=
    ⟨printfUnsigned 2 st.minute ++ ascii ":00", by rw [List.append_assoc, List.append_assoc]; rfl⟩
  have hsecond : ∃ t, intervalParamText .second precision st = untilHour st ++ 0x3a :: t := by
    have htext : untilHour st ++ ascii ":" ++ printfUnsigned 2 st.minute ++ ascii ":" ++
        printfUnsigned 2 st.second = untilHour st ++ 0x3a :: (printfUnsigned 2 st.minute ++
          0x3a :: printfUnsigned 2 st.second) := by
      simp only [List.append_assoc]
      rfl
    rw [intervalParamText]
    dsimp only
    split
    · generalize printfStar _ _ = frac
      obtain ⟨t, ht⟩ := take_untilHour st
        (printfUnsigned 2 st.minute ++ 0x3a :: (printfUnsigned 2 st.second ++ (ascii "." ++ frac)))
      refine ⟨t, (congrArg (List.take 149 <| · ++ ascii "." ++ frac) htext).trans ?_⟩
      rw [← ht]
      simp only [List.append_assoc, List.cons_append]
    · exact ⟨_, htext⟩
  cases ctype with
  | hour | dayToHour => exact ⟨ascii "00:00", rfl⟩
  | minute | dayToMinute | hourToMinute => exact hminute
  | second | dayToSecond | hourToSecond | minuteToSecond => exact hsecond
  | year => exact absurd (Or.inl rfl) htime
  | day => exact absurd (Or.inr (Or.inl rfl)) htime
  | month => exact absurd (Or.inr (Or.inr (Or.inl rfl))) htime
  | yearToMonth => exact absurd (Or.inr (Or.inr (Or.inr rfl))) htime

theorem param_decodes_iff (ctype : SqlInterval) (paramPrecision : Int) (st : SqlIntervalStruct)
    (precision : Int) (lit1 lit2 : Vector UInt8 64) :
    interval2istruct ctype precision (intervalParamText ctype paramPrecision st) lit1 lit2 =
      some (true, st.written ctype) ↔ st.Decodable ctype := by
  by_cases htime : ctype = .year ∨ ctype = .day ∨ ctype = .month ∨ ctype = .yearToMonth
  · rcases htime with rfl | rfl | hctype
    · rw [show SqlInterval.year = IntervalUnit.year.itype from rfl,
        intervalParamText_unit .year (by decide)]
      exact unit_decodes_iff .year true st.day st.intervalSign .year precision lit1 lit2
    · rw [show SqlInterval.day = IntervalUnit.day.itype from rfl,
        intervalParamText_unit .day (by decide)]
      exact unit_decodes_iff .day true st.day st.intervalSign .day precision lit1 lit2
    · rw [intervalParamText_yearMon hctype]
      rcases hctype with rfl | rfl
      · exact yearMon_decodes_iff true st.year true st.month st.intervalSign .month precision lit1 lit2
      · exact yearMon_decodes_iff true st.year true st.month st.intervalSign .yearToMonth precision lit1
          lit2
  · obtain ⟨t, htext⟩ := intervalParamText_dayTime htime paramPrecision st
    rw [htext, untilHour_append]
    refine iff_of_false (interval2istruct_dayTime true st.day st.hour st.intervalSign t ctype precision
      lit1 lit2 ?_) ?_
    · cases ctype <;> first | rfl | exact absurd (by decide) htime
    · cases ctype <;> first | exact id | exact absurd (by decide) htime

/-- The texts of PostgreSQL, and those of parameters, that come back as the interval with its sign, its
fields and its fraction. -/
theorem interval2istruct_decodes_iff {form : IntervalForm} (hform : form.Valid) (neg : Bool)
    (ctype : SqlInterval) (precision : Int) (lit1 lit2 : Vector UInt8 64) (paramPrecision : Int)
    (st : SqlIntervalStruct) :
    (interval2istruct ctype precision (form.text neg) lit1 lit2 =
        some (true, form.struct ctype precision neg) ↔ form.Decodable ctype precision neg) ∧
      (interval2istruct ctype precision (intervalParamText ctype paramPrecision st) lit1 lit2 =
        some (true, st.written ctype) ↔ st.Decodable ctype) := by
  refine ⟨?_, param_decodes_iff ctype paramPrecision st precision lit1 lit2⟩
  cases form with
  | unit u plural n => exact unit_decodes_iff u plural n neg ctype precision lit1 lit2
  | yearMon plural year plural' mon =>
    exact yearMon_decodes_iff plural year plural' mon neg ctype precision lit1 lit2
  | dayTime plural day hour minute second digits =>
    exact iff_of_false (interval2istruct_dayTime plural day hour neg _ ctype precision lit1 lit2 rfl) id
  | time hour minute second digits => exact time_decodes_iff hform neg ctype precision lit1 lit2

/-- The text `04:05:06.123456`, and the parameter that is written as `-1 years -2 mons`. -/
theorem interval2istruct_decodes_hourToSecond :
    interval2istruct .hourToSecond 6 ((IntervalForm.time 4 5 6 (ascii "123456")).text false)
        (Vector.replicate 64 7) (Vector.replicate 64 7) =
      some (true, ⟨some .hourToSecond, false, 0, 4, 5, 6, 123456⟩) ∧
    interval2istruct .yearToMonth 6
        (intervalParamText .yearToMonth 0 ⟨some .yearToMonth, true, 1, 2, 0, 0, 0⟩)
        (Vector.replicate 64 7) (Vector.replicate 64 7) =
      some (true, ⟨some .yearToMonth, true, 1, 2, 0, 0, 0⟩) := by
  have hvalid : (IntervalForm.time 4 5 6 (ascii "123456")).Valid :=
    ⟨by decide, by decide, by decide, List.all_eq_true.1 (by decide)⟩
  refine ⟨?_, ?_⟩
  · exact (interval2istruct_decodes_iff hvalid false .hourToSecond 6 _ _ 0 .zero).1.2
      ⟨by decide, rfl, by decide, by decide, by decide⟩
  · exact (interval2istruct_decodes_iff hvalid false .yearToMonth 6 _ _ 0 _).2.2
      ⟨by decide, by decide, by decide⟩

/-- The texts `04:05:06` and `1 day 02:03:04` are not read. -/
theorem not_interval2istruct_decodes :
    (interval2istruct .hourToSecond 6 ((IntervalForm.time 4 5 6 []).text false)
        (Vector.replicate 64 7) (Vector.replicate 64 7) ≠
      some (true, (IntervalForm.time 4 5 6 []).struct .hourToSecond 6 false)) ∧
    interval2istruct .dayToSecond 6 ((IntervalForm.dayTime false 1 2 3 4 []).text false)
        (Vector.replicate 64 7) (Vector.replicate 64 7) ≠
      some (true, (IntervalForm.dayTime false 1 2 3 4 []).struct .dayToSecond 6 false) := by
  have hvalid : (IntervalForm.time 4 5 6 []).Valid :=
    ⟨by decide, by decide, by decide, List.forall_mem_nil _⟩
  refine ⟨fun h ↦ ?_, interval2istruct_dayTime false 1 2 false _ .dayToSecond 6 _ _ rfl⟩
  have hlong := ((time_decodes_iff hvalid false .hourToSecond 6 _ _).1 h).2.2.2.1
  exact absurd hlong (by decide)

end PsqlOdbc
