import PsqlOdbc.Convert.QueryParse
import PsqlOdbc.Lib.CountingBuffer
import PsqlOdbc.Lib.Strtof

/-!
# `secure_sscanf` (`secure_sscanf.c`)

Each argument comes with its type, and a string with the size of its buffer.  Input and format are
texts without the NUL behind them, where a pointer into one is what is left of it.  There is no
result where the code reads arguments that are not there or stores outside of a buffer.  A `float`
that is stored is the number before it is rounded.
-/

namespace PsqlOdbc

open Lib

/-! ## Arguments and results -/

/-- `CheckTypes`. -/
inductive CheckType
  | default | float | int | uint | short | ushort | long | ulong | llong | ullong | char | uchar
  | string
  deriving DecidableEq, Repr

/-- An argument: the type of a number, or the buffer for a string. -/
inductive SscanfArg
  | num (type : CheckType)
  | str (cells : List UInt8)

def SscanfArg.type : SscanfArg → CheckType
  | .num type => type
  | .str _ => .string

/-- What is stored for an argument. -/
inductive SscanfValue
  | num (n : Int)
  | float (x : FloatNumber)
  | str (cells : List UInt8)
  deriving DecidableEq, Repr

/-- The `ERROR_` codes. -/
inductive SscanfError
  | success | numericConversion | bufferTooSmall | invalidFmt | invalidType
  deriving DecidableEq, Repr

/-- What `parse_arg` returns and stores. -/
structure ParsedArg where
  error : SscanfError
  current : List UInt8
  value : Option SscanfValue
  deriving DecidableEq, Repr

/-! ## One conversion -/

/-- `skip_spaces`. -/
def skipSpaces (s : List UInt8) : List UInt8 := s.dropWhile isSpace

/-- The length modifier of a conversion; none where `I` stands without `64`. -/
def readModifier : List UInt8 → Option (CheckType × List UInt8)
  | [] => some (.default, [])
  | c :: f =>
    if c = 0x68 then if f.head? = some 0x68 then some (.char, f.tail) else some (.short, f)
    else if c = 0x49 then
      if f.head? = some 0x36 ∧ f[1]? = some 0x34 then some (.llong, f.drop 2) else none
    else if c = 0x6c then if f.head? = some 0x6c then some (.llong, f.tail) else some (.long, f)
    else some (.default, c :: f)

/-- `while (uWidth-- > 0 && *pParse != *pEnd)`: where `pCurrent` is when the loop ends. -/
def trimConsume (stop : UInt8) : Nat → List UInt8 → List UInt8 → List UInt8
  | 0, _, pCurrent => pCurrent
  | uWidth + 1, pParse, pCurrent =>
    if pParse.headD 0 = stop then pCurrent else trimConsume stop uWidth pParse.tail pCurrent.tail

/-- Where a conversion of a number ends. -/
def numberEnd (uWidth : Nat) (pParse pEnd pCurrent : List UInt8) : List UInt8 :=
  if uWidth > 0 then trimConsume (pEnd.headD 0) uWidth pParse pCurrent else pEnd

/-- The size of a number in bits. -/
def CheckType.bits : CheckType → Nat
  | .char | .uchar => 8
  | .short | .ushort => 16
  | .long | .ulong | .llong | .ullong => 64
  | _ => 32

/-- `%f`. -/
def parseFloat (uWidth : Nat) (pParse pCurrent : List UInt8) (arg : SscanfArg) : ParsedArg :=
  if arg.type ≠ .float then ⟨.invalidType, pCurrent, none⟩
  else
    match strtofScan pParse with
    | none => ⟨.numericConversion, skipSpaces pCurrent, some (.float (.finite false 10 0 0))⟩
    | some (fRet, rest) =>
      let pEnd := numberEnd uWidth pParse rest pCurrent
      if fRet.overflows then
        ⟨.numericConversion, skipSpaces pEnd, some (.float (.finite false 10 0 0))⟩
      else ⟨.success, skipSpaces pEnd, some (.float fRet)⟩

/-- `%d` and `%i`. -/
def parseSigned (iBase : Nat) (spType : CheckType) (uWidth : Nat) (pParse pCurrent : List UInt8)
    (arg : SscanfArg) : ParsedArg :=
  if arg.type ≠ (if spType = .default then .int else spType) then ⟨.invalidType, pCurrent, none⟩
  else
    let r := strtol iBase pParse
    let pEnd := numberEnd uWidth pParse r.2 pCurrent
    if r.2.length = pParse.length then
      ⟨.numericConversion, skipSpaces pCurrent, some (.num 0)⟩
    else if r.1 > 2 ^ (spType.bits - 1) - 1 then
      ⟨.numericConversion, skipSpaces pEnd, some (.num 0)⟩
    else ⟨.success, skipSpaces pEnd, some (.num (r.1.bmod (2 ^ spType.bits)))⟩

/-- `spType + 1`, or `TYPE_UINT`. -/
def unsignedType : CheckType → CheckType
  | .char => .uchar
  | .short => .ushort
  | .long => .ulong
  | .llong => .ullong
  | _ => .uint

/-- `%u`, `%x` and `%X`. -/
def parseUnsigned (iBase : Nat) (spType : CheckType) (uWidth : Nat) (pParse pCurrent : List UInt8)
    (arg : SscanfArg) : ParsedArg :=
  if arg.type ≠ unsignedType spType then ⟨.invalidType, pCurrent, none⟩
  else
    let r := strtoul iBase pParse
    let pEnd := numberEnd uWidth pParse r.2 pCurrent
    -- `pEnd == pCurrent`: with a width the number is read from a copy.
    if uWidth = 0 ∧ r.2.length = pCurrent.length then
      ⟨.numericConversion, skipSpaces pCurrent, some (.num 0)⟩
    -- For `TYPE_UINT` it is the width that is compared.
    else if spType ≠ .default ∧ r.1 > 2 ^ spType.bits - 1 then
      ⟨.numericConversion, skipSpaces pEnd, some (.num 0)⟩
    else ⟨.success, skipSpaces pEnd, some (.num (r.1 % 2 ^ spType.bits : Nat))⟩

/-- The loop of `%s`: what is copied, `cbSize` at its end, and what is left.  `uWidth` is none
without a width. -/
def copyWord : Nat → Option Nat → List UInt8 → List UInt8 × Nat × List UInt8
  | cbSize, _, [] => ([], cbSize, [])
  | 0, _, s => ([], 0, s)
  | cbSize + 1, uWidth, c :: s =>
    if isSpace c ∨ uWidth = some 0 then ([], cbSize + 1, c :: s)
    else
      let r := copyWord cbSize (uWidth.map (· - 1)) s
      (c :: r.1, r.2)

/-- `%s`. -/
def parseString (uWidth : Nat) (pCurrent : List UInt8) (arg : SscanfArg) : Option ParsedArg :=
  match arg with
  | .num _ => some ⟨.invalidType, pCurrent, none⟩
  | .str cells =>
    if cells.length > 4096 * 4 then some ⟨.bufferTooSmall, pCurrent, none⟩
    else if cells.length = 0 then some ⟨.success, skipSpaces pCurrent, some (.str cells)⟩
    else
      let cleared := if uWidth > 0 then uWidth else cells.length
      if cleared > cells.length then none
      else
        let r := copyWord (cells.length - 1) (if uWidth > 0 then some uWidth else none) pCurrent
        let pEnd := if r.2.1 = 0 then r.2.2.dropWhile fun c ↦ !isSpace c else r.2.2
        some ⟨.success, skipSpaces pEnd,
          some (.str (CountingBuffer.overwrite (List.replicate cleared 0 ++ cells.drop cleared) r.1))⟩

/-- `parse_arg`, for an argument that is there; the format is that behind the `%`. -/
def parseArg (pFmt pInputString : List UInt8) (arg : Option SscanfArg) : Option ParsedArg :=
  let width := strtol 10 pFmt
  if width.1 > 0xffffffff then some ⟨.invalidFmt, pInputString, none⟩
  else
    let uWidth := (width.1 % 2 ^ 32).toNat
    -- `strncpy(trimCurr, pCurrent, uWidth)` and the terminator behind.
    if uWidth ≥ 4096 * 4 then none
    else
      let pParse := if uWidth > 0 then pInputString.take uWidth else pInputString
      arg.bind fun arg ↦
        match readModifier width.2 with
        | none => some ⟨.invalidFmt, skipSpaces pInputString, none⟩
        | some (spType, pFmt) =>
          let conv := pFmt.headD 0
          if conv = 0x66 then some (parseFloat uWidth pParse pInputString arg)
          else if conv = 0x69 then
            let iBase :=
              if pInputString.head? ≠ some 0x30 then 10
              else if pInputString[1]? = some 0x78 then 16 else 8
            some (parseSigned iBase spType uWidth pParse pInputString arg)
          else if conv = 0x64 then some (parseSigned 10 spType uWidth pParse pInputString arg)
          else if conv = 0x58 ∨ conv = 0x78 then
            some (parseUnsigned 16 spType uWidth pParse pInputString arg)
          else if conv = 0x75 then some (parseUnsigned 10 spType uWidth pParse pInputString arg)
          else if conv = 0x63 then
            if arg.type ≠ .char then some ⟨.invalidType, pInputString, none⟩
            else
              some ⟨.success, skipSpaces pInputString,
                some (.num (((pInputString.headD 0).toNat : Int).bmod (2 ^ 8)))⟩
          else if conv = 0x73 then parseString uWidth pInputString arg
          else some ⟨.invalidFmt, pInputString, none⟩

/-! ## The format -/

/-- What `secure_sscanf` returns, `*pStatus`, and what is stored for the arguments. -/
structure SscanfResult where
  status : SscanfError
  ret : Nat
  values : List SscanfValue
  deriving DecidableEq, Repr

/-- What stands between the `%` and the letter of a conversion. -/
def isModifier (c : UInt8) : Bool := (0x30 ≤ c && c ≤ 0x39) || c = 0x68 || c = 0x6c

/-- The loop of `secure_sscanf`. -/
def sscanfLoop (pFmt pInputString : List UInt8) (args : List SscanfArg) (ret : Nat)
    (values : List SscanfValue) : Option SscanfResult :=
  match pFmt with
  | [] => some ⟨.success, ret, values⟩
  | f :: pFmt =>
    if pInputString = [] then some ⟨.success, ret, values⟩
    else if f = 0x25 then
      (parseArg pFmt pInputString args.head?).bind fun parsed ↦
        let values := values ++ parsed.value.toList
        if parsed.error ≠ .success then some ⟨parsed.error, ret, values⟩
        else if parsed.current.length = pInputString.length then some ⟨.success, ret, values⟩
        else
          sscanfLoop ((pFmt.dropWhile isModifier).drop 1) parsed.current args.tail
            (if pFmt.head? ≠ some 0x25 then ret + 1 else ret) values
    else if isSpace f then sscanfLoop pFmt (skipSpaces pInputString) args ret values
    else if pInputString.head? = some f then sscanfLoop pFmt pInputString.tail args ret values
    else some ⟨.success, ret, values⟩
termination_by pFmt.length
decreasing_by
  · have hle := (List.dropWhile_sublist isModifier (l := pFmt)).length_le
    rw [List.length_drop, List.length_cons]
    omega
  · exact Nat.lt_succ_self _
  · exact Nat.lt_succ_self _

/-- `secure_sscanf`. -/
def secureSscanf (pInputString pFmt : List UInt8) (args : List SscanfArg) : Option SscanfResult :=
  sscanfLoop pFmt pInputString args 0 []

/-! ## Conversions with a width -/

section

variable {ds s pFmt f : List UInt8} {uWidth : Nat}

theorem skipSpaces_of_head (h : s.head?.any isSpace = false) : skipSpaces s = s := by
  cases s with
  | nil => rfl
  | cons c s => exact List.dropWhile_cons_of_neg (Bool.eq_false_iff.1 h)

/-- Up to the character at which reading has stopped the input is consumed. -/
theorem trimConsume_upTo {stop : UInt8} {tail : List UInt8} (hds : stop ∉ ds)
    (htail : tail.headD 0 = stop) (hlen : ds.length ≤ uWidth) :
    trimConsume stop uWidth (ds ++ tail) (ds ++ s) = s := by
  induction ds generalizing uWidth with
  | nil =>
    cases uWidth with
    | zero => rfl
    | succ uWidth =>
      rw [List.nil_append, trimConsume, if_pos htail]
      rfl
  | cons c ds ih =>
    rw [List.mem_cons, not_or] at hds
    rw [List.length_cons] at hlen
    obtain ⟨k, rfl⟩ : ∃ k, uWidth = k + 1 := ⟨uWidth - 1, by omega⟩
    rw [List.cons_append, trimConsume, List.cons_append, List.headD_cons, if_neg (Ne.symm hds.1)]
    exact ih hds.2 (Nat.le_of_succ_le_succ hlen)

/-- Up to the terminator of the copy the input is consumed. -/
theorem trimConsume_all (hds : 0 ∉ ds) (hlen : ds.length ≤ uWidth) :
    trimConsume 0 uWidth ds (ds ++ s) = s := by
  have h := @trimConsume_upTo ds s uWidth 0 [] hds rfl hlen
  rw [List.append_nil] at h
  exact h

/-- What is consumed is at the head of what has been read, and ends at the width or at a character like
the one at which reading has stopped. -/
theorem trimConsume_split {pre q more : List UInt8} (hlen : (pre ++ q).length ≤ uWidth)
    (hmore : (pre ++ q).length = uWidth ∨ more = []) :
    ∃ number, number <+: pre ∧
      pre ++ (q ++ more) =
        number ++ trimConsume (q.headD 0) uWidth (pre ++ q) (pre ++ (q ++ more)) ∧
      (number.length = uWidth ∨
        (trimConsume (q.headD 0) uWidth (pre ++ q) (pre ++ (q ++ more))).headD 0 = q.headD 0) := by
  induction pre generalizing uWidth with
  | nil =>
    cases uWidth with
    | zero => exact ⟨[], List.nil_prefix, rfl, Or.inl rfl⟩
    | succ uWidth =>
      rw [List.nil_append, List.nil_append, trimConsume, if_pos rfl]
      refine ⟨[], List.nil_prefix, rfl, Or.inr ?_⟩
      cases q with
      | nil =>
        rw [hmore.resolve_left (Nat.succ_ne_zero uWidth).symm]
        rfl
      | cons c q => rfl
  | cons c pre ih =>
    rw [List.cons_append, List.length_cons] at hlen hmore
    obtain ⟨k, rfl⟩ : ∃ k, uWidth = k + 1 := ⟨uWidth - 1, by omega⟩
    rw [List.cons_append, List.cons_append, trimConsume, List.headD_cons]
    by_cases hc : c = q.headD 0
    · rw [if_pos hc]
      exact ⟨[], List.nil_prefix, rfl, Or.inr hc⟩
    · rw [if_neg hc]
      obtain ⟨number, hfront, hsplit, hend⟩ := ih (Nat.le_of_succ_le_succ hlen)
        (hmore.imp Nat.succ.inj id)
      refine ⟨c :: number, (List.cons_prefix_cons.2 ⟨rfl, hfront⟩), congrArg (c :: ·) hsplit, ?_⟩
      exact hend.imp (congrArg (· + 1)) id

theorem zero_notMem_decimal (hds : ∀ c ∈ ds, isDecimal c = true) : 0 ∉ ds := by
  intro h
  exact absurd (hds 0 h) (by decide)

/-- The width and the letter of a conversion. -/
theorem parseArg_width {letter : UInt8} (hletter : letter = 0x64 ∨ letter = 0x73)
    (hfmt : strtol 10 pFmt = ((uWidth : Int), letter :: f)) (hpos : 0 < uWidth)
    (hlt : uWidth < 4096 * 4) (arg : SscanfArg) :
    parseArg pFmt s (some arg) =
      if letter = 0x64 then some (parseSigned 10 .default uWidth (s.take uWidth) s arg)
      else parseString uWidth s arg := by
  have hwidth : ((uWidth : Int) % 2 ^ 32).toNat = uWidth := by omega
  have hmod : readModifier (letter :: f) = some (.default, letter :: f) := by
    rcases hletter with rfl | rfl
    · rfl
    · rfl
  rw [parseArg, hfmt]
  dsimp only
  rw [if_neg (by omega), hwidth, if_neg (by omega), if_pos hpos, Option.bind_some, hmod]
  rcases hletter with rfl | rfl
  · rfl
  · rfl

theorem zero_notMem_signed (neg : Bool) (hds : ∀ c ∈ ds, isDecimal c = true) :
    0 ∉ signed neg ds := by
  cases neg with
  | true =>
    rintro h
    rcases List.mem_cons.1 h with h | h
    · exact absurd h (by decide)
    · exact zero_notMem_decimal hds h
  | false => exact zero_notMem_decimal hds

theorem signed_append (neg : Bool) (ds s : List UInt8) : signed neg ds ++ s = signed neg (ds ++ s) := by
  cases neg with
  | true => rfl
  | false => rfl

theorem signed_ne_nil (neg : Bool) (hne : ds ≠ []) : signed neg ds ≠ [] := by
  cases neg with
  | true => exact List.cons_ne_nil _ _
  | false => exact hne

/-- `%<w>d` at a number that goes to the end of the width or of the input. -/
theorem parseArg_int (neg : Bool) (hfmt : strtol 10 pFmt = ((uWidth : Int), 0x64 :: f))
    (hlt : uWidth < 4096 * 4) (hne : ds ≠ []) (hds : ∀ c ∈ ds, isDecimal c = true)
    (htake : (signed neg ds ++ s).take uWidth = signed neg ds)
    (hmax : decimalValue ds ≤ 0x7fffffff) :
    parseArg pFmt (signed neg ds ++ s) (some (.num .int)) =
      some ⟨.success, skipSpaces s,
        some (.num (if neg then -(decimalValue ds : Int) else decimalValue ds))⟩ := by
  have hlen : (signed neg ds).length ≤ uWidth := by
    rw [← htake]
    exact List.length_take_le _ _
  have hpos : 0 < (signed neg ds).length := List.length_pos_of_ne_nil (signed_ne_nil neg hne)
  have hread := @strtol_signed ds neg hds hne [] rfl (by omega)
  rw [List.append_nil] at hread
  have hend : numberEnd uWidth (signed neg ds) [] (signed neg ds ++ s) = s := by
    rw [numberEnd, if_pos (by omega)]
    exact trimConsume_all (zero_notMem_signed neg hds) hlen
  rw [parseArg_width (Or.inl rfl) hfmt (by omega) hlt, if_pos rfl, htake, parseSigned,
    if_neg fun h ↦ h rfl, hread]
  have hbound : -(0x7fffffff : Int) ≤ (if neg then -(decimalValue ds : Int) else decimalValue ds) ∧
      (if neg then -(decimalValue ds : Int) else decimalValue ds) ≤ 0x7fffffff := by
    split
    · omega
    · omega
  generalize (if neg then -(decimalValue ds : Int) else decimalValue ds) = v at hbound ⊢
  have hmod : v.bmod (2 ^ 32) = v := Int.bmod_eq_of_le (by omega) (by omega)
  dsimp only
  rw [if_neg (by rw [List.length_nil]; omega), hend, show CheckType.default.bits = 32 from rfl,
    if_neg (show ¬v > 2 ^ (32 - 1) - 1 by omega)]
  exact congrArg (fun n ↦ some (ParsedArg.mk .success (skipSpaces s) (some (.num n)))) hmod

theorem parseArg_plain (arg : SscanfArg) :
    parseArg (0x64 :: f) s (some arg) = some (parseSigned 10 .default 0 s s arg) := by
  have hfmt : strtol 10 (0x64 :: f) = (0, 0x64 :: f) := by
    refine strtol_none ?_
    intro c hc
    rw [← Option.some_inj.1 hc]
    decide
  rw [parseArg, hfmt]
  rfl

/-- `%d` at a number. -/
theorem parseArg_number (neg : Bool) (hne : ds ≠ []) (hds : ∀ c ∈ ds, isDecimal c = true)
    (hs : s.head?.any isDecimal = false) (hlt : decimalValue ds < 2 ^ 63) {v : Int}
    (hv : v = if neg then -(decimalValue ds : Int) else decimalValue ds) :
    parseArg (0x64 :: f) (signed neg (ds ++ s)) (some (.num .int)) =
      if v > 0x7fffffff then some ⟨.numericConversion, skipSpaces s, some (.num 0)⟩
      else some ⟨.success, skipSpaces s, some (.num (v.bmod (2 ^ 32)))⟩ := by
  have hread := strtol_signed neg hds hne hs hlt
  rw [← hv] at hread
  have hshort : s.length ≠ (signed neg (ds ++ s)).length := by
    have hpos := List.length_pos_of_ne_nil (signed_ne_nil neg hne)
    rw [← signed_append, List.length_append]
    omega
  have hend : numberEnd 0 (signed neg (ds ++ s)) s (signed neg (ds ++ s)) = s := rfl
  rw [parseArg_plain, parseSigned, if_neg fun h ↦ h rfl, hread]
  dsimp only
  rw [if_neg hshort, hend, show CheckType.default.bits = 32 from rfl]
  by_cases hmax : v > 0x7fffffff
  · rw [if_pos hmax, if_pos (show v > 2 ^ (32 - 1) - 1 by omega)]
  · rw [if_neg hmax, if_neg (show ¬v > 2 ^ (32 - 1) - 1 by omega)]

/-- `%<w>d` where no number begins. -/
theorem parseArg_int_none (hfmt : strtol 10 pFmt = ((uWidth : Int), 0x64 :: f)) (hpos : 0 < uWidth)
    (hlt : uWidth < 4096 * 4)
    (hs : ∀ c ∈ s.head?, Lib.isBlank c = false ∧ c ≠ 0x2d ∧ c ≠ 0x2b ∧ isDecimal c = false) :
    parseArg pFmt s (some (.num .int)) =
      some ⟨.numericConversion, skipSpaces s, some (.num 0)⟩ := by
  have hread : strtol 10 (s.take uWidth) = (0, s.take uWidth) := by
    refine strtol_none ?_
    intro c hc
    cases s with
    | nil =>
      rw [List.take_nil] at hc
      cases hc
    | cons d s =>
      obtain ⟨k, rfl⟩ := Nat.exists_eq_succ_of_ne_zero (Nat.pos_iff_ne_zero.1 hpos)
      exact hs c hc
  rw [parseArg_width (Or.inl rfl) hfmt hpos hlt, if_pos rfl, parseSigned, if_neg fun h ↦ h rfl, hread]
  exact congrArg some (if_pos rfl)

theorem copyWord_word {word : List UInt8} (hword : ∀ c ∈ word, isSpace c = false) {k : Nat}
    (hk : word.length ≤ k) (hs : s.head?.all isSpace = true ∨ word.length = k) {cbSize : Nat}
    (hroom : word.length < cbSize) :
    copyWord cbSize (some k) (word ++ s) = (word, cbSize - word.length, s) := by
  induction word generalizing cbSize k with
  | nil =>
    obtain ⟨m, rfl⟩ := Nat.exists_eq_succ_of_ne_zero (Nat.pos_iff_ne_zero.1 hroom)
    cases s with
    | nil => rfl
    | cons c s => exact if_pos (hs.imp id fun h ↦ congrArg some h.symm)
  | cons c word ih =>
    rw [List.length_cons] at hroom hk hs
    obtain ⟨m, rfl⟩ : ∃ m, cbSize = m + 1 := ⟨cbSize - 1, by omega⟩
    have hc := hword c List.mem_cons_self
    have hih := @ih (fun c hc ↦ hword c (List.mem_cons_of_mem _ hc)) (k - 1) (by omega)
      (hs.imp id fun h ↦ by omega) m (by omega)
    rw [List.cons_append, copyWord, if_neg]
    · dsimp only
      rw [Option.map_some, hih, List.length_cons, Nat.add_sub_add_right]
    · rw [hc, Option.some_inj]
      exact not_or.2 ⟨Bool.false_ne_true, by omega⟩

/-- What a buffer holds behind a word that has been read. -/
def behindWord (uWidth : Nat) (word cells : List UInt8) : List UInt8 :=
  List.replicate (uWidth - word.length) 0 ++ cells.drop uWidth

theorem behindWord_eq {word : List UInt8} (hlen : word.length < uWidth) (cells : List UInt8) :
    ∃ behind, behindWord uWidth word cells = 0 :: behind := by
  obtain ⟨k, hk⟩ : ∃ k, uWidth - word.length = k + 1 := ⟨uWidth - word.length - 1, by omega⟩
  exact ⟨List.replicate k 0 ++ cells.drop uWidth, by rw [behindWord, hk]; rfl⟩

theorem length_append_behindWord {word cells : List UInt8} (hlen : word.length ≤ uWidth)
    (hcells : uWidth ≤ cells.length) : (word ++ behindWord uWidth word cells).length = cells.length := by
  rw [behindWord, List.length_append, List.length_append, List.length_replicate, List.length_drop]
  omega

/-- `%<w>s` at a word that ends at a blank or with the width. -/
theorem parseArg_str (hfmt : strtol 10 pFmt = ((uWidth : Int), 0x73 :: f)) (hpos : 0 < uWidth)
    {word : List UInt8} (hword : ∀ c ∈ word, isSpace c = false) (hlen : word.length ≤ uWidth)
    (hs : s.head?.all isSpace = true ∨ word.length = uWidth) {cells : List UInt8}
    (hwidth : uWidth < cells.length) (hroom : word.length + 1 < cells.length)
    (hcells : cells.length ≤ 4096 * 4) :
    parseArg pFmt (word ++ s) (some (.str cells)) =
      some ⟨.success, skipSpaces s, some (.str (word ++ behindWord uWidth word cells))⟩ := by
  have hcopy := @copyWord_word s word hword uWidth hlen hs (cells.length - 1) (by omega)
  have hzeros : List.replicate uWidth (0 : UInt8) = List.replicate word.length 0 ++
      List.replicate (uWidth - word.length) 0 := by
    rw [← List.replicate_add]
    congr 1
    omega
  have hover := @CountingBuffer.overwrite_append _ word (List.replicate word.length 0)
    List.length_replicate.symm (behindWord uWidth word cells) []
  rw [List.append_nil] at hover
  rw [parseArg_width (Or.inr rfl) hfmt hpos (by omega), if_neg (by decide), parseString]
  dsimp only
  rw [if_neg (by omega), if_neg (by omega), if_pos hpos, if_neg (show ¬uWidth > cells.length by omega),
    if_pos hpos, hcopy, hzeros, List.append_assoc]
  dsimp only
  rw [if_neg (by omega)]
  exact congrArg (fun cells ↦ some (ParsedArg.mk .success (skipSpaces s) (some (.str cells)))) hover

/-- The part of the input that `%<w>s` takes. -/
theorem exists_word (s : List UInt8) (uWidth : Nat) : ∃ word rest, s = word ++ rest ∧
    (∀ c ∈ word, isSpace c = false) ∧ word.length ≤ uWidth ∧
    (rest.head?.all isSpace = true ∨ word.length = uWidth) := by
  induction s generalizing uWidth with
  | nil => exact ⟨[], [], rfl, List.forall_mem_nil _, Nat.zero_le _, Or.inl rfl⟩
  | cons c s ih =>
    by_cases hc : isSpace c = true
    · exact ⟨[], c :: s, rfl, List.forall_mem_nil _, Nat.zero_le _, Or.inl hc⟩
    · cases uWidth with
      | zero => exact ⟨[], c :: s, rfl, List.forall_mem_nil _, Nat.le_refl 0, Or.inr rfl⟩
      | succ k =>
        obtain ⟨word, rest, rfl, hword, hlen, hrest⟩ := ih k
        refine ⟨c :: word, rest, rfl, ?_, Nat.succ_le_succ hlen, hrest.imp id (congrArg (· + 1))⟩
        exact List.forall_mem_cons.2 ⟨Bool.eq_false_iff.2 hc, hword⟩

/-- A word of characters that are neither blanks nor NULs. -/
def IsWord (cs : List UInt8) : Prop := ∀ c ∈ cs, isSpace c = false ∧ c ≠ 0

/-! ## Steps of the loop -/

variable {args : List SscanfArg} {ret : Nat} {values : List SscanfValue}

theorem sscanfLoop_nil (pFmt : List UInt8) :
    sscanfLoop pFmt [] args ret values = some ⟨.success, ret, values⟩ := by
  cases pFmt with
  | nil => rw [sscanfLoop]
  | cons c pFmt => rw [sscanfLoop, if_pos rfl]

theorem sscanfLoop_space {c : UInt8} (hc : isSpace c = true) (hs : s ≠ []) :
    sscanfLoop (c :: pFmt) s args ret values =
      sscanfLoop pFmt (skipSpaces s) args ret values := by
  have hne : c ≠ 0x25 := by
    rintro rfl
    exact absurd hc (by decide)
  rw [sscanfLoop, if_neg hs, if_neg hne, if_pos hc]

theorem sscanfLoop_literal {c : UInt8} (hc : c ≠ 0x25) (hc' : isSpace c = false) :
    sscanfLoop (c :: pFmt) (c :: s) args ret values = sscanfLoop pFmt s args ret values := by
  rw [sscanfLoop, if_neg (List.cons_ne_nil _ _), if_neg hc, if_neg (Bool.eq_false_iff.1 hc')]
  exact if_pos rfl

/-- A conversion that has consumed something. -/
theorem sscanfLoop_conversion {arg : SscanfArg} {current : List UInt8} {value : SscanfValue}
    (hs : s ≠ []) (hfmt : pFmt.head? ≠ some 0x25)
    (hparse : parseArg pFmt s (some arg) = some ⟨.success, current, some value⟩)
    (hlen : current.length ≠ s.length) :
    sscanfLoop (0x25 :: pFmt) s (arg :: args) ret values =
      sscanfLoop ((pFmt.dropWhile isModifier).drop 1) current args (ret + 1) (values ++ [value]) := by
  rw [sscanfLoop, if_neg hs, if_pos rfl, List.head?_cons, hparse, Option.bind_some]
  dsimp only
  rw [if_neg fun h ↦ h rfl, if_neg hlen, if_pos hfmt]
  rfl

theorem length_skipSpaces_le (s : List UInt8) : (skipSpaces s).length ≤ s.length :=
  (List.dropWhile_sublist _).length_le

/-- A character of the format that is not there. -/
theorem sscanfLoop_break {c : UInt8} (hc : c ≠ 0x25) (hc' : isSpace c = false) (hs : s ≠ [])
    (hhead : s.head? ≠ some c) :
    sscanfLoop (c :: pFmt) s args ret values = some ⟨.success, ret, values⟩ := by
  rw [sscanfLoop, if_neg hs, if_neg hc, if_neg (Bool.eq_false_iff.1 hc')]
  exact if_neg hhead

/-- A conversion that fails. -/
theorem sscanfLoop_error {arg : SscanfArg} {error : SscanfError} {current : List UInt8}
    {value : Option SscanfValue} (hs : s ≠ []) (herror : error ≠ .success)
    (hparse : parseArg pFmt s (some arg) = some ⟨error, current, value⟩) :
    sscanfLoop (0x25 :: pFmt) s (arg :: args) ret values =
      some ⟨error, ret, values ++ value.toList⟩ := by
  rw [sscanfLoop, if_neg hs, if_pos rfl, List.head?_cons, hparse, Option.bind_some]
  exact if_pos herror

/-- `%<w>d` at a number that goes to the end of the width or of the input. -/
theorem sscanfLoop_int (neg : Bool) (hfmt : strtol 10 pFmt = ((uWidth : Int), 0x64 :: f))
    (hlt : uWidth < 4096 * 4) (hafter : (pFmt.dropWhile isModifier).drop 1 = f)
    (hpercent : pFmt.head? ≠ some 0x25) (hne : ds ≠ []) (hds : ∀ c ∈ ds, isDecimal c = true)
    (htake : (signed neg ds ++ s).take uWidth = signed neg ds)
    (hmax : decimalValue ds ≤ 0x7fffffff) :
    sscanfLoop (0x25 :: pFmt) (signed neg ds ++ s) (.num .int :: args) ret values =
      sscanfLoop f (skipSpaces s) args (ret + 1)
        (values ++ [.num (if neg then -(decimalValue ds : Int) else decimalValue ds)]) := by
  have hparse := parseArg_int neg hfmt hlt hne hds htake hmax
  have hshort := length_skipSpaces_le s
  have hnil := signed_ne_nil neg hne
  have hlong := List.length_pos_of_ne_nil hnil
  rw [sscanfLoop_conversion (List.append_ne_nil_of_left_ne_nil hnil s) hpercent hparse, hafter]
  rw [List.length_append]
  omega

/-- `%<w>d` where no number begins. -/
theorem sscanfLoop_int_none (hfmt : strtol 10 pFmt = ((uWidth : Int), 0x64 :: f))
    (hpos : 0 < uWidth) (hlt : uWidth < 4096 * 4) (hs : s ≠ [])
    (hhead : ∀ c ∈ s.head?, Lib.isBlank c = false ∧ c ≠ 0x2d ∧ c ≠ 0x2b ∧ isDecimal c = false) :
    sscanfLoop (0x25 :: pFmt) s (.num .int :: args) ret values =
      some ⟨.numericConversion, ret, values ++ [.num 0]⟩ := by
  have herror : SscanfError.numericConversion ≠ .success := by decide
  exact sscanfLoop_error hs herror (parseArg_int_none hfmt hpos hlt hhead)

/-- `%<w>s` at a word. -/
theorem sscanfLoop_str (hfmt : strtol 10 pFmt = ((uWidth : Int), 0x73 :: f)) (hpos : 0 < uWidth)
    (hafter : (pFmt.dropWhile isModifier).drop 1 = f) (hpercent : pFmt.head? ≠ some 0x25)
    {word : List UInt8} (hne : word ≠ []) (hword : ∀ c ∈ word, isSpace c = false)
    (hlen : word.length ≤ uWidth) (hs : s.head?.all isSpace = true ∨ word.length = uWidth)
    {cells : List UInt8} (hwidth : uWidth < cells.length) (hroom : word.length + 1 < cells.length)
    (hcells : cells.length ≤ 4096 * 4) :
    sscanfLoop (0x25 :: pFmt) (word ++ s) (.str cells :: args) ret values =
      sscanfLoop f (skipSpaces s) args (ret + 1)
        (values ++ [.str (word ++ behindWord uWidth word cells)]) := by
  have hparse := parseArg_str hfmt hpos hword hlen hs hwidth hroom hcells
  have hshort := length_skipSpaces_le s
  have hlong := List.length_pos_of_ne_nil hne
  rw [sscanfLoop_conversion (List.append_ne_nil_of_left_ne_nil hne s) hpercent hparse, hafter]
  rw [List.length_append]
  omega

theorem isSpace_of_isDecimal {c : UInt8} (hc : isDecimal c = true) : isSpace c = false := by
  rw [isDecimal_iff] at hc
  rw [isSpace, Bool.or_eq_false_iff, Bool.and_eq_false_imp]
  refine ⟨decide_eq_false ?_, fun _ ↦ decide_eq_false ?_⟩
  · rintro rfl
    exact absurd hc.1 (by decide)
  · rw [UInt8.le_iff_toNat_le, show (0x0d : UInt8).toNat = 0x0d from rfl]
    omega

section

variable {w n : Nat} (hw : 0 < w)
include hw

theorem decimals_ne_nil (n : Nat) : decimals w n ≠ [] := by
  obtain ⟨k, rfl⟩ := Nat.exists_eq_succ_of_ne_zero (Nat.pos_iff_ne_zero.1 hw)
  rw [decimals_succ]
  exact List.append_ne_nil_of_right_ne_nil _ (List.cons_ne_nil _ _)

theorem skipSpaces_decimals (n : Nat) (s : List UInt8) :
    skipSpaces (decimals w n ++ s) = decimals w n ++ s := by
  obtain ⟨c, ds, hds⟩ := List.exists_cons_of_ne_nil (decimals_ne_nil hw n)
  have hc := isDecimal_decimals w n c (by rw [hds]; exact List.mem_cons_self)
  refine skipSpaces_of_head ?_
  rw [hds]
  exact isSpace_of_isDecimal hc

/-- `%d` at a number. -/
theorem sscanfLoop_number (neg : Bool) (hn : n < 2 ^ 63) {v : Int}
    (hv : v = if neg then -(n : Int) else n) (hs : s.head?.any isDecimal = false) :
    sscanfLoop (0x25 :: 0x64 :: f) (signed neg (decimals w n ++ s)) (.num .int :: args) ret values =
      if v > 0x7fffffff then some ⟨.numericConversion, ret, values ++ [.num 0]⟩
      else sscanfLoop f (skipSpaces s) args (ret + 1) (values ++ [.num (v.bmod (2 ^ 32))]) := by
  have hne := decimals_ne_nil hw n
  have hnil : signed neg (decimals w n ++ s) ≠ [] :=
    signed_ne_nil neg (List.append_ne_nil_of_left_ne_nil hne s)
  have hparse := @parseArg_number (decimals w n) s f neg hne (isDecimal_decimals w n) hs
    (by rw [decimalValue_decimals]; exact hn) v (by rw [decimalValue_decimals]; exact hv)
  by_cases hmax : v > 0x7fffffff
  · rw [if_pos hmax] at hparse
    have herror : SscanfError.numericConversion ≠ .success := by decide
    rw [if_pos hmax, sscanfLoop_error hnil herror hparse]
    rfl
  · have hshort := length_skipSpaces_le s
    have hlong := List.length_pos_of_ne_nil (signed_ne_nil neg hne)
    rw [if_neg hmax] at hparse
    have hpercent : (0x64 :: f).head? ≠ some (0x25 : UInt8) := by
      intro h
      exact absurd (Option.some_inj.1 h) (by decide)
    rw [if_neg hmax, sscanfLoop_conversion hnil hpercent hparse]
    · rfl
    · rw [← signed_append, List.length_append]
      omega

/-- `%<w>d` at a number that fills its width. -/
theorem sscanfLoop_decimals (hw' : w ≤ 9) (hn : n < 10 ^ w) (s : List UInt8) :
    sscanfLoop (0x25 :: digitByte w :: 0x64 :: pFmt) (decimals w n ++ s) (.num .int :: args) ret
        values =
      sscanfLoop pFmt (skipSpaces s) args (ret + 1) (values ++ [.num n]) := by
  have hdigit := isDecimal_digitByte (show w < 10 by omega)
  have hwidth : strtol 10 (digitByte w :: 0x64 :: pFmt) = ((w : Int), 0x64 :: pFmt) := by
    have hvalue : decimalValue [digitByte w] = w := by
      rw [decimalValue, List.foldl_cons, List.foldl_nil, digitValue_digitByte (by omega)]
      omega
    rw [← List.singleton_append, strtol_decimal (by simpa using hdigit) (List.cons_ne_nil _ _)
      rfl (by omega), hvalue]
  have hmodifier : isModifier (digitByte w) = true := by
    rw [isModifier, show (0x30 ≤ digitByte w && digitByte w ≤ 0x39) = true from hdigit]
    rfl
  have hafter : ((digitByte w :: 0x64 :: pFmt).dropWhile isModifier).drop 1 = pFmt := by
    rw [List.dropWhile_cons_of_pos hmodifier, List.dropWhile_cons_of_neg (by decide)]
    rfl
  have hpercent : (digitByte w :: 0x64 :: pFmt).head? ≠ some 0x25 := by
    intro h
    rw [List.head?_cons, Option.some_inj] at h
    rw [h] at hdigit
    exact absurd hdigit (by decide)
  have hmax : n ≤ 0x7fffffff := by
    have hpow := Nat.pow_le_pow_right (show 0 < 10 by decide) hw'
    omega
  have hstep := @sscanfLoop_int (decimals w n) s _ _ w args ret values false hwidth (by omega) hafter
    hpercent (decimals_ne_nil hw n) (isDecimal_decimals w n) (List.take_left' (length_decimals hn))
    (by rw [decimalValue_decimals]; exact hmax)
  rw [decimalValue_decimals, if_neg Bool.false_ne_true] at hstep
  exact hstep

end

end

end PsqlOdbc
