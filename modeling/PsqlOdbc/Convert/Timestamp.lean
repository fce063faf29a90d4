import Mathlib.Tactic.Positivity
import PsqlOdbc.Convert.Escape
import PsqlOdbc.Lib.CString
import PsqlOdbc.SecureSscanf

/-!
# Timestamps and their texts (`convert.c`)

`stime2timestamp` writes a timestamp with its fraction and era, and `timestamp2stime` reads it with
`secure_sscanf`.  What both do with time zones of the C library is a parameter.
-/

namespace PsqlOdbc

open Lib

/-- `SIMPLE_TIME`. -/
structure SimpleTime where
  infinity : Int
  m : Int
  d : Int
  y : Int
  hh : Int
  mm : Int
  ss : Int
  fr : Int
  deriving DecidableEq, Repr

/-! ## Writing -/

/-- The loop that takes the zeros off `precstr`, from place `i` down. -/
def trimZeros : Nat → List UInt8 → List UInt8
  | 0, _ => []
  | i + 1, precstr =>
    if precstr.getD (i + 1) 0 ≠ 0x30 then precstr else trimZeros i (precstr.take (i + 1))

/-- The `precstr` of `stime2timestamp`. -/
def precisionText (precision : Int) (fr : Int) : List UInt8 :=
  if precision > 0 ∧ fr ≠ 0 then
    let precstr := 0x2e :: printfZero 9 fr
    trimZeros (min precision 9).toNat
      (if precision < 9 then precstr.take (precision.toNat + 1) else precstr)
  else []

/-- `snprintf`, of a text that is formatted already. -/
def snprintfText (bufsize : Nat) (text : List UInt8) : Int × List UInt8 :=
  (text.length, text.take (bufsize - 1))

/-- `stime2timestamp`: the return value, and the text.  `zonestr` is what it makes of the time zone,
if it is asked to. -/
def stime2timestamp (zonestr : SimpleTime → List UInt8) (st : SimpleTime) (bufsize : Nat)
    (bZone : Bool) (precision : Int) : Int × List UInt8 :=
  if st.infinity > 0 then snprintfText bufsize (ascii "Infinity")
  else if st.infinity < 0 then snprintfText bufsize (ascii "-Infinity")
  else
    let zone := if bZone then zonestr st else []
    let time := printfPrecision 2 st.m ++ 0x2d :: (printfPrecision 2 st.d ++ 0x20 ::
      (printfPrecision 2 st.hh ++ 0x3a :: (printfPrecision 2 st.mm ++ 0x3a ::
        (printfPrecision 2 st.ss ++ (precisionText precision st.fr ++ zone)))))
    if st.y < 0 then
      snprintfText bufsize (printfPrecision 4 (-st.y) ++ 0x2d :: time ++ ascii " BC")
    else snprintfText bufsize (printfPrecision 4 st.y ++ 0x2d :: time)

/-! ## Reading -/

/-- `pg_atoi`. -/
def pgAtoi (val : List UInt8) : Int := (strtol 10 val).1.bmod (2 ^ 32)

/-- The string in a buffer. -/
def bufferText (cells : List UInt8) : List UInt8 := cells.takeWhile (· ≠ 0)

/-- What has been stored for a number. -/
def SscanfResult.num (r : SscanfResult) (i : Nat) : Int :=
  match r.values[i]? with
  | some (.num n) => n
  | _ => 0

/-- What has been stored for a string, or the buffer as it was. -/
def SscanfResult.str (r : SscanfResult) (i : Nat) (cells : List UInt8) : List UInt8 :=
  match r.values[i]? with
  | some (.str cells) => cells
  | _ => cells

/-- The digits of a fraction, up to nine, with zeros behind. -/
def fractionDigits (cells : List UInt8) : List UInt8 :=
  (cells.take 9).takeWhile isDecimal ++
    List.replicate (9 - ((cells.take 9).takeWhile isDecimal).length) 0x30

/-- What `timestamp2stime` returns and stores to `*st`, `*bZone` and `*zone`. -/
structure Timestamp2stime where
  result : Bool
  st : SimpleTime
  bZone : Bool
  zone : Int
  deriving DecidableEq, Repr

section

-- What is made of a time with a zone that is not that of the C library.
variable (timezone : SimpleTime → Int → SimpleTime × Bool)

/-- The end of `timestamp2stime`, from the comparison of `bc` on. -/
def timestampEra (withZone : Bool) (st : SimpleTime) (zone : Option Int) (bc : List UInt8) :
    Timestamp2stime :=
  let st := if stricmpEq (bufferText bc) (ascii "BC") then { st with y := st.y * -1 } else st
  if !withZone || zone.isNone || st.y < 1970 then ⟨true, st, zone.isSome, zone.getD 0⟩
  else ⟨true, (timezone st (zone.getD 0)).1, (timezone st (zone.getD 0)).2, zone.getD 0⟩

/-- The `switch` of `timestamp2stime` and what follows. -/
def timestampRest (withZone : Bool) (st : SimpleTime) (rest bc : List UInt8) : Timestamp2stime :=
  let text := bufferText rest
  if rest.headD 0 = 0x2b then timestampEra timezone withZone st (some (pgAtoi text.tail)) bc
  else if rest.headD 0 = 0x2d then
    timestampEra timezone withZone st (some (-pgAtoi text.tail)) bc
  else if rest.headD 0 = 0x2e then
    let found :=
      match text.findIdx? (· == 0x2b) with
      | some ptr => (some (pgAtoi (text.drop (ptr + 1))), rest.set ptr 0)
      | none =>
        match text.findIdx? (· == 0x2d) with
        | some ptr => (some (-pgAtoi (text.drop (ptr + 1))), rest.set ptr 0)
        | none => (none, rest)
    timestampEra timezone withZone { st with fr := pgAtoi (fractionDigits found.2.tail) } found.1 bc
  else if rest.headD 0 = 0x42 ∧ stricmpEq text (ascii "BC") then
    ⟨true, { st with y := st.y * -1 }, false, 0⟩
  else ⟨true, st, false, 0⟩

/-- The format of a timestamp. -/
def timestampFormat : List UInt8 := ascii "%4d-%2d-%2d %2d:%2d:%2d%31s %15s"

/-- The format of a time. -/
def timeFormat : List UInt8 := ascii "%2d:%2d:%2d%31s %15s"

/-- `timestamp2stime`; `rest` and `bc` are what its buffers hold before. -/
def timestamp2stime (str : List UInt8) (st : SimpleTime) (bZone : Bool) (rest : Vector UInt8 64)
    (bc : Vector UInt8 16) : Option Timestamp2stime :=
  let st := { st with fr := 0, infinity := 0 }
  let rest := rest.toList.set 0 0
  let bc := bc.toList.set 0 0
  let int := SscanfArg.num .int
  (secureSscanf str timestampFormat [int, int, int, int, int, int, .str rest, .str bc]).bind fun r ↦
    if r.ret < 6 then
      if r.ret = 3 then
        let st := { st with y := r.num 0, m := r.num 1, d := r.num 2, hh := 0, mm := 0, ss := 0 }
        some ⟨true, st, false, 0⟩
      else
        (secureSscanf str timeFormat [int, int, int, .str rest, .str bc]).map fun r ↦
          if r.ret < 3 then ⟨false, st, false, 0⟩
          else
            let st := { st with hh := r.num 0, mm := r.num 1, ss := r.num 2 }
            if r.ret = 3 then ⟨true, st, false, 0⟩
            else timestampRest timezone bZone st (r.str 3 rest) (r.str 4 bc)
    else
      let st := { st with y := r.num 0, m := r.num 1, d := r.num 2, hh := r.num 3, mm := r.num 4,
                          ss := r.num 5 }
      if r.ret = 6 then some ⟨true, st, false, 0⟩
      else some (timestampRest timezone bZone st (r.str 6 rest) (r.str 7 bc))

end

/-! ## What is written -/

/-- The fields of a date and time of the years 1 to 9999, before or after the era, with its fraction
in nanoseconds; they have room in the places of the text. -/
structure SimpleTime.Fits (st : SimpleTime) : Prop where
  infinity : st.infinity = 0
  y : st.y ≠ 0 ∧ -9999 ≤ st.y ∧ st.y ≤ 9999
  m : 0 ≤ st.m ∧ st.m < 100
  d : 0 ≤ st.d ∧ st.d < 100
  hh : 0 ≤ st.hh ∧ st.hh < 100
  mm : 0 ≤ st.mm ∧ st.mm < 100
  ss : 0 ≤ st.ss ∧ st.ss < 100
  fr : 0 ≤ st.fr ∧ st.fr < 10 ^ 9

theorem printfPrecision_nonneg {n : Int} (h : 0 ≤ n) (k : Nat) :
    printfPrecision k n = decimals k n.toNat := by
  rw [printfPrecision, if_neg (Int.not_lt.2 h), show n.natAbs = n.toNat by omega]

/-- The zeros at the end are taken off, and the dot if nothing is left. -/
theorem trimZeros_eq (c : UInt8) (digits : List UInt8) : ∃ kept zeros,
    digits = kept ++ List.replicate zeros 0x30 ∧
      trimZeros digits.length (c :: digits) = if kept = [] then [] else c :: kept := by
  induction digits using List.reverseRecOn with
  | nil => exact ⟨[], 0, rfl, rfl⟩
  | append_singleton digits x ih =>
    have hlast : (c :: (digits ++ [x])).getD (digits.length + 1) 0 = x := by
      rw [List.getD_cons_succ]
      exact getD_length_append
    rw [List.length_append, List.length_singleton, trimZeros, hlast]
    by_cases hx : x = 0x30
    · obtain ⟨kept, zeros, hdigits, htrim⟩ := ih
      refine ⟨kept, zeros + 1, ?_, ?_⟩
      · rw [List.replicate_succ', ← List.append_assoc, ← hdigits, hx]
      · rw [if_neg (not_not.2 hx), List.take_succ_cons, List.take_left, htrim]
    · refine ⟨digits ++ [x], 0, (List.append_nil _).symm, ?_⟩
      rw [if_pos hx, if_neg (List.append_ne_nil_of_right_ne_nil _ (List.cons_ne_nil _ _))]

/-- The digits of a fraction up to a precision. -/
theorem cut_eq {precision n p q : Nat} (hp : p = min precision 9) (hq : p + q = 9)
    (hn : n < 10 ^ 9) :
    (if (precision : Int) < 9 then (0x2e :: decimals 9 n).take ((precision : Int).toNat + 1)
      else 0x2e :: decimals 9 n) = 0x2e :: decimals p (n / 10 ^ q) := by
  have htake := @take_decimals p n q (by rw [hq]; exact hn)
  rw [hq] at htake
  rw [← htake]
  split
  · rw [List.take_succ_cons, Int.toNat_natCast, show precision = p by omega]
  · rw [List.take_of_length_le]
    rw [length_decimals hn]
    omega

/-- The fraction in the text: a dot and digits that make the fraction with zeros behind, or nothing
for a fraction that is 0. -/
theorem precisionText_eq {precision : Nat} {fr : Int} (hfr : 0 ≤ fr ∧ fr < 10 ^ 9) :
    ∃ kept : List UInt8, (∀ c ∈ kept, isDecimal c = true) ∧ kept.length ≤ 9 ∧
      precisionText precision fr = (if kept = [] then [] else 0x2e :: kept) ∧
      (decimalValue (kept ++ List.replicate (9 - kept.length) 0x30) : Int) =
        fr / 10 ^ (9 - precision) * 10 ^ (9 - precision) := by
  obtain ⟨n, rfl⟩ := Int.eq_ofNat_of_zero_le hfr.1
  have hn : n < 10 ^ 9 := by omega
  by_cases hsome : (precision : Int) > 0 ∧ (n : Int) ≠ 0
  · obtain ⟨q, hq⟩ : ∃ q, min precision 9 + q = 9 := ⟨9 - precision, by omega⟩
    have hsub : 9 - precision = q := by omega
    have hbound : n / 10 ^ q < 10 ^ min precision 9 := by
      rw [Nat.div_lt_iff_lt_mul (by positivity), ← Nat.pow_add, hq]
      exact hn
    have hlen := length_decimals hbound
    obtain ⟨kept, zeros, hdigits, htrim⟩ :=
      trimZeros_eq 0x2e (decimals (min precision 9) (n / 10 ^ q))
    have hdecimal := isDecimal_decimals (min precision 9) (n / 10 ^ q)
    have hvalue := decimalValue_zeros (decimals (min precision 9) (n / 10 ^ q)) q
    rw [decimalValue_decimals] at hvalue
    rw [hlen] at htrim
    rw [hdigits, List.length_append, List.length_replicate] at hlen
    refine ⟨kept, ?_, by omega, ?_, ?_⟩
    · intro c hc
      exact hdecimal c (by rw [hdigits]; exact List.mem_append_left _ hc)
    · rw [precisionText, if_pos hsome, printfZero, if_neg (by omega), Int.natAbs_natCast]
      dsimp only
      rw [show max 9 1 = 9 from rfl, cut_eq rfl hq hn,
        show (min (precision : Int) 9).toNat = min precision 9 by omega, htrim]
    · rw [hdigits, List.append_assoc, ← List.replicate_add] at hvalue
      rw [hsub, show 9 - kept.length = zeros + q by omega, hvalue]
      push_cast
      rfl
  · refine ⟨[], List.forall_mem_nil _, Nat.zero_le 9, if_neg hsome, ?_⟩
    have hzero : (n : Int) / 10 ^ (9 - precision) = 0 := by
      by_cases hp : precision = 0
      · rw [hp]
        exact Int.ediv_eq_zero_of_lt (by omega) (by omega)
      · rw [show (n : Int) = 0 by omega, Int.zero_ediv]
    rw [hzero, Int.zero_mul]
    rfl

/-! ## What is read -/

/-- A date and time, with a text behind. -/
def datetimeText (y m d hh mm ss : Nat) (tail : List UInt8) : List UInt8 :=
  decimals 4 y ++ 0x2d :: (decimals 2 m ++ 0x2d :: (decimals 2 d ++ 0x20 ::
    (decimals 2 hh ++ 0x3a :: (decimals 2 mm ++ 0x3a :: (decimals 2 ss ++ tail)))))

/-- The end of the format. -/
def restFormat : List UInt8 := ascii "%31s %15s"

theorem sscanf_datetime {y m d hh mm ss : Nat} (hy : y < 10 ^ 4) (hm : m < 10 ^ 2)
    (hd : d < 10 ^ 2) (hhh : hh < 10 ^ 2) (hmm : mm < 10 ^ 2) (hss : ss < 10 ^ 2)
    (tail : List UInt8) (args : List SscanfArg) :
    secureSscanf (datetimeText y m d hh mm ss tail) timestampFormat
        (.num .int :: .num .int :: .num .int :: .num .int :: .num .int :: .num .int :: args) =
      sscanfLoop restFormat (skipSpaces tail) args 6
        [.num y, .num m, .num d, .num hh, .num mm, .num ss] := by
  have hformat : timestampFormat =
      0x25 :: digitByte 4 :: 0x64 :: 0x2d :: 0x25 :: digitByte 2 :: 0x64 :: 0x2d ::
      0x25 :: digitByte 2 :: 0x64 :: 0x20 :: 0x25 :: digitByte 2 :: 0x64 :: 0x3a ::
      0x25 :: digitByte 2 :: 0x64 :: 0x3a :: 0x25 :: digitByte 2 :: 0x64 :: restFormat := rfl
  have hliteral : ∀ (c : UInt8) s, isSpace c = false → skipSpaces (c :: s) = c :: s :=
    fun c s hc ↦ skipSpaces_of_head hc
  have hhour := fun s ↦ skipSpaces_decimals (show 0 < 2 by decide) hh s
  have hblank : ∀ s, skipSpaces (0x20 :: (decimals 2 hh ++ s)) = decimals 2 hh ++ s := by
    intro s
    rw [skipSpaces, List.dropWhile_cons_of_pos (by decide)]
    exact hhour s
  rw [secureSscanf, hformat, datetimeText, sscanfLoop_decimals (by decide) (by decide) hy,
    hliteral _ _ (by decide), sscanfLoop_literal (by decide) (by decide),
    sscanfLoop_decimals (by decide) (by decide) hm, hliteral _ _ (by decide),
    sscanfLoop_literal (by decide) (by decide), sscanfLoop_decimals (by decide) (by decide) hd,
    hblank, sscanfLoop_space (by decide)
      (List.append_ne_nil_of_left_ne_nil (decimals_ne_nil (by decide) hh) _), hhour,
    sscanfLoop_decimals (by decide) (by decide) hhh, hliteral _ _ (by decide),
    sscanfLoop_literal (by decide) (by decide), sscanfLoop_decimals (by decide) (by decide) hmm,
    hliteral _ _ (by decide), sscanfLoop_literal (by decide) (by decide),
    sscanfLoop_decimals (by decide) (by decide) hss]
  rfl

/-- The format of the era. -/
def eraFormat : List UInt8 := ascii " %15s"

section

variable {word s : List UInt8} (hword : IsWord word) (hne : word ≠ [])
  {args : List SscanfArg} {ret : Nat} {values : List SscanfValue}
include hword hne

/-- The word behind a date and time. -/
theorem sscanfLoop_rest (hlen : word.length < 31) (hs : s.head?.all isSpace = true)
    {rest : List UInt8} (hrest : rest.length = 64) :
    ∃ behind, sscanfLoop restFormat (word ++ s) (.str rest :: args) ret values =
      sscanfLoop eraFormat (skipSpaces s) args (ret + 1)
        (values ++ [.str (word ++ 0 :: behind)]) := by
  have hwidth : strtol 10 (ascii "31s %15s") = (((31 : Nat) : Int), 0x73 :: eraFormat) := rfl
  obtain ⟨behind, hbehind⟩ := behindWord_eq hlen rest
  refine ⟨behind, ?_⟩
  rw [show restFormat = 0x25 :: ascii "31s %15s" from rfl, sscanfLoop_str hwidth (by decide) rfl
    (by decide) hne (fun c hc ↦ (hword c hc).1) (Nat.le_of_lt hlen) (Or.inl hs) (by omega) (by omega)
    (by omega), hbehind]

/-- The last word. -/
theorem sscanfLoop_rest_end (hlen : word.length < 31) {rest : List UInt8} (hrest : rest.length = 64) :
    ∃ behind, sscanfLoop restFormat word (.str rest :: args) ret values =
      some ⟨.success, ret + 1, values ++ [.str (word ++ 0 :: behind)]⟩ := by
  obtain ⟨behind, hloop⟩ :=
    @sscanfLoop_rest word [] hword hne args ret values hlen rfl rest hrest
  rw [List.append_nil, show skipSpaces [] = [] from rfl, sscanfLoop_nil] at hloop
  exact ⟨behind, hloop⟩

/-- The word behind it. -/
theorem sscanfLoop_era (hlen : word.length < 15) {bc : List UInt8} (hbc : bc.length = 16) :
    ∃ behind, sscanfLoop eraFormat word [.str bc] ret values =
      some ⟨.success, ret + 1, values ++ [.str (word ++ 0 :: behind)]⟩ := by
  have hwidth : strtol 10 (ascii "15s") = (((15 : Nat) : Int), [0x73]) := rfl
  obtain ⟨behind, hbehind⟩ := behindWord_eq hlen bc
  refine ⟨behind, ?_⟩
  have hspaces : skipSpaces word = word := by
    obtain ⟨c, tail, hcons⟩ := List.exists_cons_of_ne_nil hne
    refine skipSpaces_of_head ?_
    rw [hcons]
    exact (hword c (by rw [hcons]; exact List.mem_cons_self)).1
  have hstep := @sscanfLoop_str [] _ _ _ [] ret values hwidth (by decide) rfl (by decide) word hne
    (fun c hc ↦ (hword c hc).1) (Nat.le_of_lt hlen) (Or.inl rfl) bc (by omega) (by omega) (by omega)
  rw [List.append_nil, hbehind, show skipSpaces [] = [] from rfl, sscanfLoop_nil] at hstep
  rw [show eraFormat = 0x20 :: 0x25 :: ascii "15s" from rfl, sscanfLoop_space (by decide) hne,
    hspaces, hstep]

end

/-- The word of the era before 1. -/
def bcText : List UInt8 := ascii "BC"

theorem isWord_bcText : IsWord bcText := by
  intro c hc
  rcases List.mem_cons.1 (show c ∈ [0x42, 0x43] from hc) with rfl | hc
  · decide
  · rw [List.mem_singleton.1 hc]
    decide

theorem isWord_fraction {kept : List UInt8} (hkept : ∀ c ∈ kept, isDecimal c = true) :
    IsWord (0x2e :: kept) := by
  intro c hc
  rcases List.mem_cons.1 hc with rfl | hc
  · decide
  · refine ⟨isSpace_of_isDecimal (hkept c hc), ?_⟩
    rintro rfl
    exact absurd (hkept 0 hc) (by decide)

/-! ## The fraction and the era -/

section

variable (timezone : SimpleTime → Int → SimpleTime × Bool) {bZone : Bool} (st : SimpleTime)

theorem bufferText_word {word behind : List UInt8} (hword : IsWord word) :
    bufferText (word ++ 0 :: behind) = word := by
  rw [bufferText, List.takeWhile_append_of_pos fun c hc ↦ decide_eq_true (hword c hc).2,
    List.takeWhile_cons_of_neg (by decide), List.append_nil]

/-- Without a zone. -/
theorem timestampEra_none (bc : List UInt8) :
    timestampEra timezone bZone st none bc =
      ⟨true, if stricmpEq (bufferText bc) (ascii "BC") then { st with y := st.y * -1 } else st, false,
        0⟩ := by
  rw [timestampEra, if_pos]
  · rfl
  · rw [Option.isNone_none, Bool.or_true, Bool.true_or]

theorem fractionDigits_eq {kept behind : List UInt8} (hkept : ∀ c ∈ kept, isDecimal c = true)
    (hlen : kept.length ≤ 9) :
    fractionDigits (kept ++ 0 :: behind) = kept ++ List.replicate (9 - kept.length) 0x30 := by
  have htake : ((kept ++ 0 :: behind).take 9).takeWhile isDecimal = kept := by
    rw [List.take_append, List.take_of_length_le hlen, List.takeWhile_append_of_pos hkept]
    cases hk : 9 - kept.length with
    | zero => rw [List.take_zero, List.takeWhile_nil, List.append_nil]
    | succ k =>
      rw [List.take_succ_cons, List.takeWhile_cons_of_neg (by decide), List.append_nil]
  rw [fractionDigits, htake]

/-- `pg_atoi` at no more than nine digits. -/
theorem pgAtoi_decimal {ds : List UInt8} (hds : ∀ c ∈ ds, isDecimal c = true) (hne : ds ≠ [])
    (hlen : ds.length ≤ 9) : pgAtoi ds = decimalValue ds := by
  have hlt := decimalValue_lt hds
  have hpow := Nat.pow_le_pow_right (show 0 < 10 by decide) hlen
  have hread := @strtol_decimal _ hds hne [] rfl (by omega)
  rw [List.append_nil] at hread
  rw [pgAtoi, hread]
  exact Int.bmod_eq_of_le (by omega) (by omega)

theorem isDecimal_zeros {ds : List UInt8} (hds : ∀ c ∈ ds, isDecimal c = true) :
    ∀ c ∈ ds ++ List.replicate (9 - ds.length) 0x30, isDecimal c = true := by
  intro c hc
  rcases List.mem_append.1 hc with hc | hc
  · exact hds c hc
  · rw [List.eq_of_mem_replicate hc]
    rfl

theorem length_zeros {ds : List UInt8} (hlen : ds.length ≤ 9) :
    (ds ++ List.replicate (9 - ds.length) 0x30).length = 9 := by
  rw [List.length_append, List.length_replicate]
  omega

theorem timestampRest_fraction {kept behind bc : List UInt8}
    (hkept : ∀ c ∈ kept, isDecimal c = true) (hlen : kept.length ≤ 9) :
    timestampRest timezone bZone st (0x2e :: kept ++ 0 :: behind) bc =
      timestampEra timezone bZone
        { st with fr := decimalValue (kept ++ List.replicate (9 - kept.length) 0x30) } none bc := by
  have htext := @bufferText_word _ behind (isWord_fraction hkept)
  have hfind : ∀ c : UInt8, isDecimal c = false → c ≠ 0x2e →
      (0x2e :: kept).findIdx? (· == c) = none := by
    intro c hc hdot
    rw [List.findIdx?_eq_none_iff]
    intro x hx
    refine beq_eq_false_iff_ne.2 ?_
    rintro rfl
    rcases List.mem_cons.1 hx with hx | hx
    · exact hdot hx
    · rw [hkept x hx] at hc
      cases hc
  have hfraction : pgAtoi (fractionDigits (kept ++ 0 :: behind)) =
      decimalValue (kept ++ List.replicate (9 - kept.length) 0x30) := by
    have hlength := length_zeros hlen
    rw [fractionDigits_eq hkept hlen]
    exact pgAtoi_decimal (isDecimal_zeros hkept) (List.ne_nil_of_length_pos (by omega))
      (Nat.le_of_eq hlength)
  rw [timestampRest, htext, hfind 0x2b (by decide) (by decide), hfind 0x2d (by decide) (by decide)]
  dsimp only
  rw [List.cons_append, List.headD_cons, if_neg (by decide), if_neg (by decide), if_pos rfl,
    List.tail_cons, hfraction]

/-- An era without a fraction. -/
theorem timestampRest_bc {behind bc : List UInt8} :
    timestampRest timezone bZone st (bcText ++ 0 :: behind) bc =
      ⟨true, { st with y := st.y * -1 }, false, 0⟩ := by
  rw [timestampRest, bufferText_word isWord_bcText]
  rfl

theorem timestampEra_bc (behind : List UInt8) :
    timestampEra timezone bZone st none (bcText ++ 0 :: behind) =
      ⟨true, { st with y := st.y * -1 }, false, 0⟩ := by
  rw [timestampEra_none, bufferText_word isWord_bcText]
  rfl

theorem timestampEra_empty {bc : List UInt8} (hbc : bc.head? = some 0) :
    timestampEra timezone bZone st none bc = ⟨true, st, false, 0⟩ := by
  have htext : bufferText bc = [] := by
    cases bc with
    | nil => cases hbc
    | cons c bc =>
      rw [Option.some_inj.1 hbc]
      rfl
  rw [timestampEra_none, htext]
  rfl

end

/-! ## The round trip -/

theorem length_datetimeText {y m d hh mm ss : Nat} (hy : y < 10 ^ 4) (hm : m < 10 ^ 2)
    (hd : d < 10 ^ 2) (hhh : hh < 10 ^ 2) (hmm : mm < 10 ^ 2) (hss : ss < 10 ^ 2)
    (tail : List UInt8) : (datetimeText y m d hh mm ss tail).length = 19 + tail.length := by
  simp only [datetimeText, List.length_append, List.length_cons, length_decimals hy,
    length_decimals hm, length_decimals hd, length_decimals hhh, length_decimals hmm,
    length_decimals hss]
  omega

/-- What stands behind a date and time: the digits of the fraction that are kept, and the era. -/
def timestampTail (kept : List UInt8) (bc : Bool) : List UInt8 :=
  (if kept = [] then [] else 0x2e :: kept) ++ if bc then 0x20 :: bcText else []

theorem length_timestampTail {kept : List UInt8} (hlen : kept.length ≤ 9) (bc : Bool) :
    (timestampTail kept bc).length ≤ 13 := by
  rw [timestampTail, List.length_append]
  have hfraction : (if kept = [] then [] else 0x2e :: kept).length ≤ 10 := by
    split
    · exact Nat.zero_le 10
    · exact Nat.succ_le_succ hlen
  have hera : (if bc then 0x20 :: bcText else []).length ≤ 3 := by
    split
    · exact Nat.le_refl 3
    · exact Nat.zero_le 3
  omega

theorem stime2timestamp_text (zonestr : SimpleTime → List UInt8) {st : SimpleTime} (h : st.Fits)
    {precision bufsize : Nat} (hbufsize : 33 ≤ bufsize) {kept : List UInt8}
    (hlen : kept.length ≤ 9)
    (hprecision : precisionText precision st.fr = if kept = [] then [] else 0x2e :: kept) :
    (stime2timestamp zonestr st bufsize false precision).2 =
      datetimeText st.y.natAbs st.m.toNat st.d.toNat st.hh.toNat st.mm.toNat st.ss.toNat
        (timestampTail kept (st.y < 0)) := by
  obtain ⟨hinf, hy, hm, hd, hhh, hmm, hss, -⟩ := h
  have hlength := @length_datetimeText st.y.natAbs st.m.toNat st.d.toNat st.hh.toNat st.mm.toNat
    st.ss.toNat (by omega) (by omega) (by omega) (by omega) (by omega) (by omega)
    (timestampTail kept (st.y < 0))
  have htail := length_timestampTail hlen (st.y < 0)
  rw [stime2timestamp, if_neg (by omega), if_neg (by omega), if_neg Bool.false_ne_true]
  dsimp only
  rw [printfPrecision_nonneg hm.1, printfPrecision_nonneg hd.1, printfPrecision_nonneg hhh.1,
    printfPrecision_nonneg hmm.1, printfPrecision_nonneg hss.1, hprecision, List.append_nil]
  by_cases hneg : st.y < 0
  · have hjoin : decimals 4 st.y.natAbs ++ 0x2d :: (decimals 2 st.m.toNat ++ 0x2d ::
        (decimals 2 st.d.toNat ++ 0x20 :: (decimals 2 st.hh.toNat ++ 0x3a ::
          (decimals 2 st.mm.toNat ++ 0x3a :: (decimals 2 st.ss.toNat ++
            if kept = [] then [] else 0x2e :: kept))))) ++ ascii " BC" =
        datetimeText st.y.natAbs st.m.toNat st.d.toNat st.hh.toNat st.mm.toNat st.ss.toNat
          (timestampTail kept (st.y < 0)) := by
      simp only [datetimeText, timestampTail, decide_eq_true hneg, List.append_assoc,
        List.cons_append, if_true]
      rfl
    rw [if_pos hneg, printfPrecision_nonneg (by omega), show (-st.y).toNat = st.y.natAbs by omega,
      hjoin]
    exact List.take_of_length_le (by omega)
  · rw [if_neg hneg, printfPrecision_nonneg (by omega), show st.y.toNat = st.y.natAbs by omega]
    rw [decide_eq_false hneg, timestampTail, if_neg Bool.false_ne_true, List.append_nil]
      at hlength htail ⊢
    exact List.take_of_length_le (Nat.le_trans (Nat.le_of_eq hlength) (by omega))

/-- The numbers that are read, as a timestamp. -/
theorem SimpleTime.Fits.eq {st : SimpleTime} (h : st.Fits) (y fr : Int) :
    SimpleTime.mk 0 st.m.toNat st.d.toNat y st.hh.toNat st.mm.toNat st.ss.toNat fr =
      { st with y := y, fr := fr } := by
  obtain ⟨hinf, -, hm, hd, hhh, hmm, hss, -⟩ := h
  rw [hinf, Int.toNat_of_nonneg hm.1, Int.toNat_of_nonneg hd.1, Int.toNat_of_nonneg hhh.1,
    Int.toNat_of_nonneg hmm.1, Int.toNat_of_nonneg hss.1]

/-- The text with the fraction cut off behind the precision comes back as the date and time with its
fraction cut off; the buffer has room for it. -/
theorem stime2timestamp_roundTrip (zonestr : SimpleTime → List UInt8)
    (timezone : SimpleTime → Int → SimpleTime × Bool) {st : SimpleTime} (h : st.Fits)
    (precision : Nat) {bufsize : Nat} (hbufsize : 33 ≤ bufsize) (st' : SimpleTime) (bZone : Bool)
    (rest : Vector UInt8 64) (bc : Vector UInt8 16) :
    timestamp2stime timezone (stime2timestamp zonestr st bufsize false precision).2 st' bZone rest
        bc =
      some ⟨true, { st with fr := st.fr / 10 ^ (9 - precision) * 10 ^ (9 - precision) }, false, 0⟩ := by
  obtain ⟨kept, hkept, hlen, hprecision, hvalue⟩ := @precisionText_eq precision st.fr h.fr
  have hy := h.y
  have hscan := @sscanf_datetime st.y.natAbs st.m.toNat st.d.toNat st.hh.toNat st.mm.toNat
    st.ss.toNat (by omega) (by have := h.m; omega) (by have := h.d; omega) (by have := h.hh; omega)
    (by have := h.mm; omega) (by have := h.ss; omega) (timestampTail kept (st.y < 0))
    [.str (rest.toList.set 0 0), .str (bc.toList.set 0 0)]
  rw [stime2timestamp_text zonestr h hbufsize hlen hprecision, timestamp2stime]
  dsimp only
  have hst : ∀ y fr : Int, y = st.y →
      fr = decimalValue (kept ++ List.replicate (9 - kept.length) 0x30) →
      some (Timestamp2stime.mk true (SimpleTime.mk 0 st.m.toNat st.d.toNat y st.hh.toNat st.mm.toNat
          st.ss.toNat fr) false 0) =
        some ⟨true, { st with fr := st.fr / 10 ^ (9 - precision) * 10 ^ (9 - precision) }, false,
          0⟩ := by
    rintro y fr rfl rfl
    rw [h.eq, hvalue]
  have hrest : (rest.toList.set 0 0).length = 64 := by simp
  have hbc : (bc.toList.set 0 0).length = 16 := by simp
  have hempty : (bc.toList.set 0 0).head? = some 0 := by
    obtain ⟨c, cells, hcells⟩ := List.exists_cons_of_length_pos
      (show 0 < bc.toList.length by rw [Vector.length_toList]; decide)
    rw [hcells]
    rfl
  have hneg_mul : st.y < 0 → (st.y.natAbs : Int) * -1 = st.y := by
    intro hneg
    omega
  rw [hscan]
  by_cases hkept' : kept = []
  · subst hkept'
    by_cases hneg : st.y < 0
    · obtain ⟨behind, hloop⟩ := @sscanfLoop_rest_end bcText isWord_bcText (List.cons_ne_nil _ _)
        [.str (bc.toList.set 0 0)] 6 [.num st.y.natAbs, .num st.m.toNat, .num st.d.toNat,
          .num st.hh.toNat, .num st.mm.toNat, .num st.ss.toNat] (by decide) _ hrest
      rw [timestampTail, if_pos rfl, decide_eq_true hneg, if_pos rfl,
        show skipSpaces ([] ++ 0x20 :: bcText) = bcText from rfl, hloop, Option.bind_some]
      exact (congrArg some (timestampRest_bc timezone _)).trans (hst _ 0 (hneg_mul hneg) rfl)
    · rw [timestampTail, if_pos rfl, decide_eq_false hneg, if_neg Bool.false_ne_true,
        List.append_nil, show skipSpaces [] = [] from rfl, sscanfLoop_nil, Option.bind_some]
      exact hst st.y.natAbs 0 (by omega) rfl
  · have hword := isWord_fraction hkept
    have hspaces : ∀ s, skipSpaces (0x2e :: kept ++ s) = 0x2e :: kept ++ s :=
      fun s ↦ skipSpaces_of_head rfl
    have hshort : (0x2e :: kept).length < 31 := by
      rw [List.length_cons]
      omega
    by_cases hneg : st.y < 0
    · obtain ⟨behind, hloop⟩ := @sscanfLoop_rest _ (0x20 :: bcText) hword (List.cons_ne_nil _ _)
        [.str (bc.toList.set 0 0)] 6 [.num st.y.natAbs, .num st.m.toNat, .num st.d.toNat,
          .num st.hh.toNat, .num st.mm.toNat, .num st.ss.toNat] hshort rfl _ hrest
      obtain ⟨behind', hera⟩ := @sscanfLoop_era bcText isWord_bcText (List.cons_ne_nil _ _) 7
        [.num st.y.natAbs, .num st.m.toNat, .num st.d.toNat, .num st.hh.toNat, .num st.mm.toNat,
          .num st.ss.toNat, .str (0x2e :: kept ++ 0 :: behind)] (by decide) _ hbc
      rw [timestampTail, if_neg hkept', decide_eq_true hneg, if_pos rfl, hspaces, hloop,
        show skipSpaces (0x20 :: bcText) = bcText from rfl]
      refine (congrArg (Option.bind · _) hera).trans ?_
      refine (congrArg some (timestampRest_fraction timezone _ hkept hlen)).trans ?_
      refine (congrArg some (timestampEra_bc timezone _ behind')).trans ?_
      exact hst _ _ (hneg_mul hneg) rfl
    · obtain ⟨behind, hloop⟩ := @sscanfLoop_rest_end _ hword (List.cons_ne_nil _ _)
        [.str (bc.toList.set 0 0)] 6 [.num st.y.natAbs, .num st.m.toNat, .num st.d.toNat,
          .num st.hh.toNat, .num st.mm.toNat, .num st.ss.toNat] hshort _ hrest
      rw [timestampTail, if_neg hkept', decide_eq_false hneg, if_neg Bool.false_ne_true, hspaces,
        List.append_nil, hloop, Option.bind_some]
      refine (congrArg some (timestampRest_fraction timezone _ hkept hlen)).trans ?_
      refine (congrArg some (timestampEra_empty timezone _ hempty)).trans ?_
      exact hst st.y.natAbs _ (by omega) rfl

theorem stime2timestamp_roundTrip_ides :
    timestamp2stime (fun st _ ↦ (st, false))
        (stime2timestamp (fun _ ↦ []) ⟨0, 3, 15, -44, 12, 0, 5, 120045678⟩ 64 false 6).2
        ⟨1, 0, 0, 0, 0, 0, 0, 0⟩ true (Vector.replicate 64 7) (Vector.replicate 16 7) =
      some ⟨true, ⟨0, 3, 15, -44, 12, 0, 5, 120045000⟩, false, 0⟩ :=
  stime2timestamp_roundTrip (fun _ ↦ []) (fun st _ ↦ (st, false))
    ⟨rfl, by decide, by decide, by decide, by decide, by decide, by decide, by decide⟩ 6
    (by decide) _ true _ _

end PsqlOdbc
