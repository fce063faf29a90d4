import PsqlOdbc.Convert.QueryParse
import PsqlOdbc.Convert.SpecialChars
import PsqlOdbc.Lib.Bits
import PsqlOdbc.Lib.CString
import PsqlOdbc.Lib.CountingBuffer
import PsqlOdbc.Server.Literal

/-!
# Binary data in literals (`convert.c`)

The body of a `bytea` literal is octal or hexadecimal, with its backslashes doubled where the server
takes them for escapes.  It is written into room that has been reserved beforehand.  Buffers are the
cells from a pointer on; NULL has none.
-/

namespace PsqlOdbc

open Lib CountingBuffer

/-- `BYTEA_ESCAPE_CHAR` (`psqlodbc.h`). -/
abbrev byteaEscapeChar : UInt8 := 0x5c

/-! ## The room -/

/-- The loop of `enlarge_query_statement`; a size of 0 would stay. -/
def alsizeLoop (newalsize newsize : Nat) : Nat :=
  if 0 < newalsize ∧ newalsize ≤ newsize then alsizeLoop (newalsize * 2) newsize else newalsize
termination_by newsize + 1 - newalsize

/-- `enlarge_query_statement`: the new size. -/
def enlargeQueryStatement (newsize : Nat) : Nat := alsizeLoop 4096 newsize

/-- `ENLARGE_NEWSTATEMENT`. -/
def enlargeNewstatement (strAlsize newpos : Nat) : Nat :=
  if newpos ≥ strAlsize then enlargeQueryStatement newpos else strAlsize

/-- The `newlimit` of `CVT_APPEND_BINARY`. -/
def binaryLimit (hexBinFormat : Bool) (npos used : Nat) : Nat :=
  if hexBinFormat then npos + (2 * used + 4) else npos + 5 * used

/-! ## Writing -/

/-- The loop of `conv_to_octal` and `conv_to_octal2`, from `octal[pos + k]` down to
`octal[pos + 1]`. -/
def octalLoop (octal pos : Nat) : Nat → UInt8 → List UInt8 → Option (List UInt8)
  | 0, _, out => some out
  | k + 1, val, out =>
    (store out (octal + (pos + (k + 1))) ((val &&& 7) + 0x30)).bind fun out ↦
      octalLoop octal pos k (val >>> 3) out

/-- `conv_to_octal`, at the place `octal` of a buffer. -/
def convToOctal (val : UInt8) (out : List UInt8) (octal : Nat) (escapeCh : UInt8) :
    Option (Nat × List UInt8) :=
  let pos := if escapeCh ≠ 0 then 1 else 0
  (if escapeCh ≠ 0 then store out octal escapeCh else some out).bind fun out ↦
    (store out (octal + pos) byteaEscapeChar).bind fun out ↦
      (store out (octal + (4 + pos)) 0).bind fun out ↦
        (octalLoop octal pos 3 val out).map fun out ↦ (4 + pos, out)

/-- `conv_to_octal2`. -/
def convToOctal2 (val : UInt8) (out : List UInt8) (octal : Nat) : Option (List UInt8) :=
  (store out octal byteaEscapeChar).bind fun out ↦
    (store out (octal + 4) 0).bind fun out ↦ octalLoop octal 0 3 val out

/-- `hextbl`. -/
def hextbl : List UInt8 :=
  [0x30, 0x31, 0x32, 0x33, 0x34, 0x35, 0x36, 0x37, 0x38, 0x39, 0x41, 0x42, 0x43, 0x44, 0x45, 0x46]

/-- The loop of `pg_bin2hex`.  Source and destination lie apart, so it runs forwards; no result if
its `int` overflows. -/
def pgBin2hexLoop : Nat → List UInt8 → List UInt8 → Nat → Option (List UInt8)
  | _, [], out, _ => some out
  | i, chr :: srcWk, out, dstWk =>
    (store out dstWk (hextbl.getD (chr >>> 4).toNat 0)).bind fun out ↦
      (store out (dstWk + 1) (hextbl.getD (chr % 16).toNat 0)).bind fun out ↦
        if i = 0x7fffffff then none else pgBin2hexLoop (i + 1) srcWk out (dstWk + 2)

/-- `pg_bin2hex`, to the place `dst` of a buffer. -/
def pgBin2hex (src out : List UInt8) (dst : Nat) : Option (Nat × List UInt8) :=
  (pgBin2hexLoop 0 src out dst).bind fun out ↦
    (store out (dst + 2 * src.length) 0).map fun out ↦ (2 * src.length, out)

/-- The loop of `convert_to_pgbinary` for the octal format. -/
def toPgbinaryLoop (escDouble : Bool) (escapeInLiteral : UInt8) :
    Nat → List UInt8 → List UInt8 → Option (Nat × List UInt8)
  | o, [], out => some (o, out)
  | o, inc :: inp, out =>
    if inc < 128 && (isAlnum inc || inc == 0x20) then
      (store out o inc).bind fun out ↦ toPgbinaryLoop escDouble escapeInLiteral (o + 1) inp out
    else if escDouble then
      (convToOctal inc out o escapeInLiteral).bind fun (len, out) ↦
        toPgbinaryLoop escDouble escapeInLiteral (o + len) inp out
    else
      (convToOctal2 inc out o).bind fun out ↦
        toPgbinaryLoop escDouble escapeInLiteral (o + 4) inp out

/-- Whether `convert_to_pgbinary` doubles backslashes. -/
def escDouble (qb : QueryBuild) : Bool :=
  qb.paramMode ≠ .buildingBindRequest && ccGetEscape qb.conn ≠ 0

/-- `convert_to_pgbinary`: the length, and the buffer.  `hexBinFormat` is the flag
`FLGB_HEX_BIN_FORMAT` of the build. -/
def convertToPgbinary (inp out : List UInt8) (hexBinFormat : Bool) (qb : QueryBuild) :
    Option (Nat × List UInt8) :=
  if hexBinFormat then
    let o := if escDouble qb then 1 else 0
    (if escDouble qb then store out 0 (ccGetEscape qb.conn) else some out).bind fun out ↦
      (store out o 0x5c).bind fun out ↦
        (store out (o + 1) 0x78).bind fun out ↦
          (pgBin2hex inp out (o + 2)).map fun (len, out) ↦ (o + 2 + len, out)
  else toPgbinaryLoop (escDouble qb) (ccGetEscape qb.conn) 0 inp out

/-! ## Reading -/

/-- `conv_from_octal`. -/
def convFromOctal (s : List UInt8) : Option UInt8 :=
  match s[1]?, s[2]?, s[3]? with
  | some c1, some c2, some c3 =>
    some (((c1 - 0x30) <<< 6) + ((c2 - 0x30) <<< 3) + ((c3 - 0x30) <<< 0))
  | _, _, _ => none

/-- The value of a digit as `pg_hex2bin` takes it. -/
def hex2binVal (chr : UInt8) : UInt8 :=
  if 0x61 ≤ chr && chr ≤ 0x66 then chr - 0x61 + 10
  else if 0x41 ≤ chr && chr ≤ 0x46 then chr - 0x41 + 10
  else chr - 0x30

/-- The loop of `pg_hex2bin`, at the place `dstWk` of a buffer. -/
def pgHex2binLoop : Nat → Bool → List UInt8 → List UInt8 → Nat → Option (List UInt8 × Nat)
  | 0, _, _, out, dstWk => some (out, dstWk)
  | _ + 1, _, [], _, _ => none
  | length + 1, hByte, chr :: srcWk, out, dstWk =>
    if chr = 0 then some (out, dstWk)
    else if hByte then
      (store out dstWk (hex2binVal chr <<< 4)).bind fun out ↦
        pgHex2binLoop length false srcWk out dstWk
    else
      out[dstWk]?.bind fun high ↦
        (store out dstWk (high + hex2binVal chr)).bind fun out ↦
          pgHex2binLoop length true srcWk out (dstWk + 1)

/-- `pg_hex2bin`: the buffer. -/
def pgHex2bin (src out : List UInt8) (dst length : Nat) : Option (List UInt8) :=
  (pgHex2binLoop length true src out dst).bind fun (out, dstWk) ↦ store out dstWk 0

/-- Something that is done to the buffer if there is one. -/
def ifBuffer (rgbValue : Option (List UInt8)) (f : List UInt8 → Option (List UInt8)) :
    Option (Option (List UInt8)) :=
  match rgbValue with
  | none => some none
  | some cells => (f cells).map some

theorem ifBuffer_some (cells : List UInt8) (f : List UInt8 → Option (List UInt8)) :
    ifBuffer (some cells) f = (f cells).map some := rfl

/-- The loop of `convert_from_pgbinary`, at `value[i]`. -/
def fromPgbinaryLoop (ilen : Nat) (i : Nat) (value : List UInt8) (o : Nat)
    (rgbValue : Option (List UInt8)) : Option (Nat × Option (List UInt8)) :=
  if ¬i < ilen then some (o, rgbValue)
  else
    match value with
    | [] => none
    | c :: rest =>
      if c = byteaEscapeChar then
        match rest with
        | [] => none
        | d :: rest =>
          if d = byteaEscapeChar then
            (ifBuffer rgbValue fun cells ↦ store cells o c).bind fun rgbValue ↦
              fromPgbinaryLoop ilen (i + 2) rest (o + 1) rgbValue
          else if d = 0x78 then
            if i + 2 < ilen then
              (ifBuffer rgbValue fun cells ↦ pgHex2bin rest cells o (ilen - (i + 2))).map
                fun rgbValue ↦ (o + (ilen - (i + 2)) / 2, rgbValue)
            else some (o, rgbValue)
          else
            (ifBuffer rgbValue fun cells ↦
                (convFromOctal (c :: d :: rest)).bind (store cells o)).bind fun rgbValue ↦
              fromPgbinaryLoop ilen (i + 4) (rest.drop 2) (o + 1) rgbValue
      else
        (ifBuffer rgbValue fun cells ↦ store cells o c).bind fun rgbValue ↦
          fromPgbinaryLoop ilen (i + 1) rest (o + 1) rgbValue
termination_by value.length
decreasing_by
  · exact Nat.lt_succ_of_lt (Nat.lt_succ_self _)
  · rw [List.length_drop]
    exact Nat.lt_succ_of_lt (Nat.lt_succ_of_le (Nat.sub_le _ 2))
  · exact Nat.lt_succ_self _

/-- `convert_from_pgbinary`: the length, and the buffer if there is one. -/
def convertFromPgbinary (value : List UInt8) (rgbValue : Option (List UInt8)) :
    Option (Nat × Option (List UInt8)) :=
  (fromPgbinaryLoop (strlen value) 0 value 0 rgbValue).bind fun (o, rgbValue) ↦
    (ifBuffer rgbValue fun cells ↦ store cells o 0).map fun rgbValue ↦ (o, rgbValue)

/-! ## The body -/

/-- What `conv_to_octal` makes of a byte, but for the escape. -/
def octalText (b : UInt8) : List UInt8 :=
  [byteaEscapeChar, (b >>> 3 >>> 3 &&& 7) + 0x30, (b >>> 3 &&& 7) + 0x30, (b &&& 7) + 0x30]

def hexText (b : UInt8) : List UInt8 :=
  [hextbl.getD (b >>> 4).toNat 0, hextbl.getD (b % 16).toNat 0]

/-- The octal format of a byte; `escape` is in front of each backslash. -/
def binaryText (escape : List UInt8) (b : UInt8) : List UInt8 :=
  if b < 128 && (isAlnum b || b == 0x20) then [b] else escape ++ octalText b

/-- Binary data as text. -/
def binaryBody (hexBinFormat : Bool) (escape inp : List UInt8) : List UInt8 :=
  if hexBinFormat then escape ++ 0x5c :: 0x78 :: inp.flatMap hexText
  else inp.flatMap (binaryText escape)

/-- What is in front of a backslash. -/
def escapeText (qb : QueryBuild) : List UInt8 :=
  if escDouble qb then [ccGetEscape qb.conn] else []

section

variable {esc : UInt8} {out : List UInt8}

/-- The digits of an octal form. -/
theorem octalLoop_three (octal : List UInt8) (pos : Nat) (b c0 c1 c2 : UInt8)
    {front : List UInt8} (hfront : front.length = pos + 1) (rest : List UInt8) :
    octalLoop octal.length pos 3 b (octal ++ (front ++ c0 :: c1 :: c2 :: rest)) =
      some (octal ++ (front ++ (octalText b).tail ++ rest)) := by
  have hstore : ∀ (k : Nat) (x : UInt8) (cells cells' : List UInt8),
      store cells k x = some cells' →
        store (octal ++ (front ++ cells)) (octal.length + (pos + (k + 1))) x =
          some (octal ++ (front ++ cells')) := by
    intro k x cells cells' h
    rw [store_append, show pos + (k + 1) = front.length + k by omega, store_append, h]
    rfl
  rw [octalLoop, hstore 2 _ (c0 :: c1 :: c2 :: rest) _ rfl, Option.bind_some, octalLoop,
    hstore 1 _ _ _ rfl, Option.bind_some, octalLoop, hstore 0 _ _ _ rfl, Option.bind_some,
    octalLoop, List.append_assoc]
  rfl

theorem convToOctal_append (octal : List UInt8) (b : UInt8) (hesc : esc ≠ 0)
    (c0 c1 c2 c3 c4 c5 : UInt8) (rest : List UInt8) :
    convToOctal b (octal ++ c0 :: c1 :: c2 :: c3 :: c4 :: c5 :: rest) octal.length esc =
      some (5, octal ++ (esc :: octalText b ++ 0 :: rest)) := by
  have hloop := @octalLoop_three octal 1 b c2 c3 c4 [esc, byteaEscapeChar] rfl (0 :: rest)
  have hstore := fun cells i x ↦ store_append octal cells i x
  rw [convToOctal, if_pos hesc, if_pos hesc, store_cons, Option.bind_some, hstore, store,
    if_pos (by simp), Option.map_some, Option.bind_some, hstore, store, if_pos (by simp),
    Option.map_some, Option.bind_some]
  exact congrArg (Option.map _) hloop

theorem convToOctal2_append (octal : List UInt8) (b c0 c1 c2 c3 c4 : UInt8) (rest : List UInt8) :
    convToOctal2 b (octal ++ c0 :: c1 :: c2 :: c3 :: c4 :: rest) octal.length =
      some (octal ++ (octalText b ++ 0 :: rest)) := by
  have hloop := @octalLoop_three octal 0 b c1 c2 c3 [byteaEscapeChar] rfl (0 :: rest)
  rw [convToOctal2, store_cons, Option.bind_some, store_append, store, if_pos (by simp),
    Option.map_some, Option.bind_some]
  exact hloop

/-- What a step leaves behind the text. -/
theorem overwrite_zero (c : UInt8) (rest xs : List UInt8) {nul : List UInt8}
    (hnul : nul = [] ∨ nul = [0]) : ∃ nul', (nul' = [] ∨ nul' = [0]) ∧
      overwrite (0 :: rest) (xs ++ nul) = overwrite (c :: rest) (xs ++ nul') := by
  cases xs with
  | nil =>
    refine ⟨[0], Or.inr rfl, ?_⟩
    rcases hnul with rfl | rfl
    · rfl
    · rfl
  | cons x xs => exact ⟨nul, hnul, rfl⟩

section

variable {double : Bool} {escape : List UInt8} (hesc : escape = if double then [esc] else [])
  (hne : double = true → esc ≠ 0) {b : UInt8}

theorem toPgbinaryLoop_plain (hplain : (b < 128 && (isAlnum b || b == 0x20)) = true)
    (inp front : List UInt8) (c : UInt8) (rest : List UInt8) :
    toPgbinaryLoop double esc front.length (b :: inp) (front ++ c :: rest) =
      toPgbinaryLoop double esc (front ++ [b]).length inp (front ++ [b] ++ rest) := by
  rw [toPgbinaryLoop, if_pos hplain, store_cons, List.length_append, List.append_assoc]
  rfl

include hesc hne in
theorem toPgbinaryLoop_octal (hplain : ¬(b < 128 && (isAlnum b || b == 0x20)) = true)
    (inp front : List UInt8) {old : List UInt8} (hold : old.length = (escape ++ octalText b).length)
    (c : UInt8) (rest : List UInt8) :
    toPgbinaryLoop double esc front.length (b :: inp) (front ++ (old ++ c :: rest)) =
      toPgbinaryLoop double esc (front ++ (escape ++ octalText b)).length inp
        (front ++ (escape ++ octalText b) ++ 0 :: rest) := by
  subst hesc
  rw [toPgbinaryLoop, if_neg hplain, List.length_append, List.append_assoc]
  cases double with
  | true =>
    obtain ⟨c0, c1, c2, c3, c4, rfl⟩ : ∃ c0 c1 c2 c3 c4, old = [c0, c1, c2, c3, c4] := by
      match old, hold with
      | [c0, c1, c2, c3, c4], _ => exact ⟨c0, c1, c2, c3, c4, rfl⟩
    have hstep := convToOctal_append front b (hne rfl) c0 c1 c2 c3 c4 c rest
    rw [if_pos rfl]
    exact congrArg (Option.bind · _) hstep
  | false =>
    obtain ⟨c0, c1, c2, c3, rfl⟩ : ∃ c0 c1 c2 c3, old = [c0, c1, c2, c3] := by
      match old, hold with
      | [c0, c1, c2, c3], _ => exact ⟨c0, c1, c2, c3, rfl⟩
    have hstep := convToOctal2_append front b c0 c1 c2 c3 c rest
    rw [if_neg Bool.false_ne_true]
    exact congrArg (Option.bind · _) hstep

include hesc hne in
/-- The loop for the octal format, where there is room for the text and one byte more. -/
theorem toPgbinaryLoop_append (inp front cells : List UInt8)
    (hroom : (inp.flatMap (binaryText escape)).length < cells.length) :
    ∃ nul, (nul = [] ∨ nul = [0]) ∧
      toPgbinaryLoop double esc front.length inp (front ++ cells) =
        some (front.length + (inp.flatMap (binaryText escape)).length,
          front ++ overwrite cells (inp.flatMap (binaryText escape) ++ nul)) := by
  induction inp generalizing front cells with
  | nil => exact ⟨[], Or.inl rfl, rfl⟩
  | cons b inp ih =>
    rw [List.flatMap_cons, List.length_append] at hroom
    rw [List.flatMap_cons, List.length_append, ← Nat.add_assoc]
    -- The cells that the text goes to, and those behind it.
    obtain ⟨old, rest, rfl, hold⟩ : ∃ old rest, cells = old ++ rest ∧
        old.length = (binaryText escape b).length :=
      ⟨cells.take _, cells.drop _, (List.take_append_drop _ cells).symm,
        List.length_take_of_le (by omega)⟩
    rw [List.length_append, hold] at hroom
    obtain ⟨c, rest, rfl⟩ := List.exists_cons_of_length_pos (show 0 < rest.length by omega)
    by_cases hplain : (b < 128 && (isAlnum b || b == 0x20)) = true
    · have htext : binaryText escape b = [b] := if_pos hplain
      obtain ⟨nul, hnul, hloop⟩ := ih (front ++ [b]) (c :: rest) (by omega)
      refine ⟨nul, hnul, ?_⟩
      rw [htext] at hold ⊢
      obtain ⟨d, rfl⟩ := List.length_eq_one_iff.1 hold
      rw [List.append_assoc [b], overwrite_append hold.symm, List.singleton_append,
        toPgbinaryLoop_plain hplain, hloop, List.length_append, List.append_assoc]
    · have htext : binaryText escape b = escape ++ octalText b := if_neg hplain
      obtain ⟨nul, hnul, hloop⟩ := ih (front ++ (escape ++ octalText b)) (0 :: rest)
        (by rw [List.length_cons] at hroom ⊢; omega)
      obtain ⟨nul', hnul', hcells⟩ :=
        overwrite_zero c rest (inp.flatMap (binaryText escape)) hnul
      refine ⟨nul', hnul', ?_⟩
      rw [htext] at hold ⊢
      rw [toPgbinaryLoop_octal hesc hne hplain inp front hold, hloop, List.append_assoc _ _ nul',
        overwrite_append hold.symm, hcells, List.length_append, List.append_assoc]

end

/-! ### The hexadecimal format -/

theorem pgBin2hexLoop_append {i : Nat} (src front cells : List UInt8)
    (hint : i + src.length ≤ 0x7fffffff) (hroom : (src.flatMap hexText).length ≤ cells.length) :
    pgBin2hexLoop i src (front ++ cells) front.length =
      some (front ++ overwrite cells (src.flatMap hexText)) := by
  induction src generalizing i front cells with
  | nil => rfl
  | cons b src ih =>
    rw [List.length_cons] at hint
    rw [List.flatMap_cons, List.length_append] at hroom
    obtain ⟨old, rest, rfl, hold⟩ : ∃ old rest, cells = old ++ rest ∧
        old.length = (hexText b).length :=
      ⟨cells.take _, cells.drop _, (List.take_append_drop _ cells).symm,
        List.length_take_of_le (by omega)⟩
    rw [List.length_append, hold] at hroom
    have hloop := @ih (i + 1) (front ++ hexText b) rest (by omega) (by omega)
    rw [List.flatMap_cons, overwrite_append hold.symm]
    obtain ⟨c0, c1, rfl⟩ := List.length_eq_two.1 hold
    rw [pgBin2hexLoop, List.cons_append, store_cons, Option.bind_some, store_append, store,
      if_pos (by simp), Option.map_some, Option.bind_some, if_neg (by omega)]
    simp only [List.append_assoc, List.length_append] at hloop ⊢
    exact hloop

theorem length_flatMap_hexText (src : List UInt8) :
    (src.flatMap hexText).length = 2 * src.length := by
  induction src with
  | nil => rfl
  | cons b src ih =>
    rw [List.flatMap_cons, List.length_append, ih, List.length_cons, Nat.mul_succ, Nat.add_comm]
    rfl

theorem pgBin2hex_append {src : List UInt8} (hint : src.length ≤ 0x7fffffff)
    (front cells : List UInt8) (hroom : (src.flatMap hexText).length < cells.length) :
    pgBin2hex src (front ++ cells) front.length =
      some ((src.flatMap hexText).length,
        front ++ overwrite cells (src.flatMap hexText ++ [0])) := by
  have hlen := length_flatMap_hexText src
  rw [pgBin2hex, pgBin2hexLoop_append src front cells (by omega) (by omega), Option.bind_some,
    store_append, ← hlen, store_overwrite hroom]
  rfl

/-! ### The body in the buffer -/

theorem ccGetEscape_ne (qb : QueryBuild) (h : escDouble qb = true) : ccGetEscape qb.conn ≠ 0 := by
  rw [escDouble, Bool.and_eq_true] at h
  exact of_decide_eq_true h.2

theorem convertToPgbinary_eq (qb : QueryBuild) {hexBinFormat : Bool} {inp : List UInt8}
    (hint : hexBinFormat = true → inp.length ≤ 0x7fffffff)
    (hroom : (binaryBody hexBinFormat (escapeText qb) inp).length < out.length) :
    ∃ nul, (nul = [] ∨ nul = [0]) ∧
      convertToPgbinary inp out hexBinFormat qb =
        some ((binaryBody hexBinFormat (escapeText qb) inp).length,
          overwrite out (binaryBody hexBinFormat (escapeText qb) inp ++ nul)) := by
  cases hexBinFormat with
  | false =>
    obtain ⟨nul, hnul, hloop⟩ := @toPgbinaryLoop_append (ccGetEscape qb.conn) (escDouble qb)
      (escapeText qb) rfl (ccGetEscape_ne qb) inp [] out hroom
    refine ⟨nul, hnul, ?_⟩
    rw [List.length_nil, List.nil_append, Nat.zero_add] at hloop
    exact hloop
  | true =>
    have hbody : binaryBody true (escapeText qb) inp =
        escapeText qb ++ [0x5c, 0x78] ++ inp.flatMap hexText := by
      rw [List.append_assoc]
      rfl
    rw [hbody, List.length_append] at hroom ⊢
    refine ⟨[0], Or.inr rfl, ?_⟩
    obtain ⟨old, rest, rfl, hold⟩ : ∃ old rest, out = old ++ rest ∧
        old.length = (escapeText qb ++ [0x5c, 0x78]).length :=
      ⟨out.take _, out.drop _, (List.take_append_drop _ out).symm,
        List.length_take_of_le (by omega)⟩
    rw [@List.length_append _ old, hold] at hroom
    have hhex := pgBin2hex_append (hint rfl) (escapeText qb ++ [0x5c, 0x78]) rest (by omega)
    rw [List.append_assoc (escapeText qb ++ [0x5c, 0x78]), overwrite_append hold.symm,
      convertToPgbinary, if_pos rfl]
    rw [escapeText] at hold hhex ⊢
    generalize escDouble qb = double at hold hhex ⊢
    cases double with
    | true =>
      obtain ⟨c0, c1, c2, rfl⟩ := List.length_eq_three.1 hold
      exact congrArg (Option.map fun p ↦ (3 + p.1, p.2)) hhex
    | false =>
      obtain ⟨c0, c1, rfl⟩ := List.length_eq_two.1 hold
      exact congrArg (Option.map fun p ↦ (2 + p.1, p.2)) hhex

end

/-! ## The room is enough -/

theorem lt_alsizeLoop {newalsize : Nat} (h : 0 < newalsize) (newsize : Nat) :
    newsize < alsizeLoop newalsize newsize := by
  fun_induction alsizeLoop newalsize newsize with
  | case1 newalsize hle ih => exact ih (by omega)
  | case2 newalsize hgt => omega

theorem lt_enlargeNewstatement (strAlsize newpos : Nat) :
    newpos < enlargeNewstatement strAlsize newpos := by
  rw [enlargeNewstatement]
  split
  · exact lt_alsizeLoop (by decide) newpos
  · next h => exact Nat.not_le.1 h

theorem length_binaryBody_le (hexBinFormat : Bool) (qb : QueryBuild) (inp : List UInt8)
    (npos : Nat) :
    npos + (binaryBody hexBinFormat (escapeText qb) inp).length ≤
      binaryLimit hexBinFormat npos inp.length := by
  have hesc : (escapeText qb).length ≤ 1 := by
    rw [escapeText]
    split
    · exact Nat.le_refl 1
    · exact Nat.zero_le 1
  cases hexBinFormat with
  | true =>
    have hlen := length_flatMap_hexText inp
    rw [binaryBody, binaryLimit, if_pos rfl, if_pos rfl, List.length_append, List.length_cons,
      List.length_cons]
    omega
  | false =>
    rw [binaryBody, binaryLimit, if_neg Bool.false_ne_true, if_neg Bool.false_ne_true]
    refine Nat.add_le_add_left ?_ npos
    induction inp with
    | nil => exact Nat.zero_le _
    | cons b inp ih =>
      have hb : (binaryText (escapeText qb) b).length ≤ 5 := by
        rw [binaryText]
        split
        · exact Nat.le_of_ble_eq_true rfl
        · rw [List.length_append, show (octalText b).length = 4 from rfl]
          omega
      rw [List.flatMap_cons, List.length_append, List.length_cons]
      omega

/-! ## Bytes of the body -/

/-- A byte that means itself in a literal, and to `convert_from_pgbinary`. -/
def BodyByte (b : UInt8) : Prop :=
  b < 0x80 ∧ b ≠ literalQuote ∧ b ≠ byteaEscapeChar ∧ b ≠ 0

instance (b : UInt8) : Decidable (BodyByte b) := inferInstanceAs (Decidable (_ ∧ _))

theorem bodyByte_plain {b : UInt8} (h : (b < 128 && (isAlnum b || b == 0x20)) = true) :
    BodyByte b := by
  revert h
  exact @uint8_forall (fun b ↦ (b < 128 && (isAlnum b || b == 0x20)) = true → BodyByte b)
    (by decide +kernel) b

theorem bodyByte_octalText (b : UInt8) :
    (octalText b).tail.all (fun c ↦ BodyByte c ∧ c ≠ 0x78) = true :=
  @uint8_forall (fun b ↦ (octalText b).tail.all (fun c ↦ BodyByte c ∧ c ≠ 0x78) = true)
    (by decide +kernel) b

theorem bodyByte_hexText (b : UInt8) : (hexText b).all (fun c ↦ BodyByte c) = true :=
  @uint8_forall (fun b ↦ (hexText b).all (fun c ↦ BodyByte c) = true) (by decide +kernel) b

theorem convFromOctal_octalText (b : UInt8) (rest : List UInt8) :
    convFromOctal (octalText b ++ rest) = some b :=
  @uint8_forall (fun b ↦ convFromOctal (octalText b) = some b) (by decide +kernel) b

theorem hex2binVal_hexText (b : UInt8) :
    (hex2binVal ((hexText b).headD 0) <<< 4) + hex2binVal ((hexText b).getD 1 0) = b :=
  @uint8_forall (fun b ↦
    (hex2binVal ((hexText b).headD 0) <<< 4) + hex2binVal ((hexText b).getD 1 0) = b)
    (by decide +kernel) b

/-! ## The literal -/

section

open Server

variable (ccsc : CharSet) (backslash : Bool)

theorem lexBody_bodyByte {b : UInt8} (hb : BodyByte b) (bs : List UInt8) :
    lexBody ccsc backslash 0 0 (b :: bs) = emit b (lexBody ccsc backslash 0 0 bs) := by
  rw [lexBody_plain ccsc backslash hb.2.1 fun _ ↦ hb.2.2.1, mbLen_ascii ccsc hb.1]

theorem lexBody_bodyBytes {xs bs v rest : List UInt8} (hxs : ∀ b ∈ xs, BodyByte b)
    (h : lexBody ccsc backslash 0 0 bs = some (v, rest)) :
    lexBody ccsc backslash 0 0 (xs ++ bs) = some (xs ++ v, rest) := by
  induction xs with
  | nil => exact h
  | cons b xs ih =>
    rw [List.cons_append, lexBody_bodyByte ccsc backslash (hxs b List.mem_cons_self),
      ih fun b hb ↦ hxs b (List.mem_cons_of_mem _ hb)]
    rfl

/-- A backslash, doubled where it is an escape. -/
theorem lexBody_escaped (bs : List UInt8) :
    lexBody ccsc backslash 0 0
        ((if backslash then [escapeInLiteral] else []) ++ byteaEscapeChar :: bs) =
      emit byteaEscapeChar (lexBody ccsc backslash 0 0 bs) := by
  cases backslash with
  | true => exact lexBody_backslash_backslash ccsc bs
  | false =>
    have hplain := @lexBody_plain ccsc false byteaEscapeChar bs (by decide) (by decide)
    rwa [mbLen_ascii ccsc (by decide)] at hplain

/-- The escapes are removed from a body. -/
theorem lexBody_binaryBody (hexBinFormat : Bool) (inp : List UInt8) {rest : List UInt8}
    (hrest : rest.head? ≠ some literalQuote) :
    lexBody ccsc backslash 0 0
        (binaryBody hexBinFormat (if backslash then [escapeInLiteral] else []) inp ++
          literalQuote :: rest) =
      some (binaryBody hexBinFormat [] inp, rest) := by
  have hend := lexBody_close ccsc backslash hrest
  cases hexBinFormat with
  | true =>
    have hhex : ∀ b ∈ 0x78 :: inp.flatMap hexText, BodyByte b := by
      intro b hb
      rcases List.mem_cons.1 hb with rfl | hb
      · decide
      · obtain ⟨c, -, hc⟩ := List.mem_flatMap.1 hb
        exact of_decide_eq_true (List.all_eq_true.1 (bodyByte_hexText c) b hc)
    have hbytes := lexBody_bodyBytes ccsc backslash hhex hend
    rw [binaryBody, if_pos rfl, List.append_assoc, List.cons_append, lexBody_escaped, hbytes,
      List.append_nil]
    rfl
  | false =>
    rw [binaryBody, binaryBody, if_neg Bool.false_ne_true, if_neg Bool.false_ne_true]
    induction inp with
    | nil => exact hend
    | cons b inp ih =>
      rw [List.flatMap_cons, List.append_assoc, List.flatMap_cons, binaryText, binaryText]
      by_cases hplain : (b < 128 && (isAlnum b || b == 0x20)) = true
      · rw [if_pos hplain, if_pos hplain, List.singleton_append,
          lexBody_bodyByte ccsc backslash (bodyByte_plain hplain), ih]
        rfl
      · have hdigits : ∀ c ∈ (octalText b).tail, BodyByte c := fun c hc ↦
          (of_decide_eq_true (List.all_eq_true.1 (bodyByte_octalText b) c hc)).1
        have hbytes := lexBody_bodyBytes ccsc backslash hdigits ih
        rw [if_neg hplain, if_neg hplain, List.append_assoc]
        refine (lexBody_escaped ccsc backslash _).trans ?_
        exact (congrArg (emit byteaEscapeChar) hbytes).trans rfl

end

/-! ## Back to bytes -/

section

variable {ilen i : Nat} {o : Nat} {rgbValue : Option (List UInt8)}

theorem fromPgbinaryLoop_stop (h : ¬i < ilen) (value : List UInt8) :
    fromPgbinaryLoop ilen i value o rgbValue = some (o, rgbValue) := by
  rw [fromPgbinaryLoop.eq_def, if_pos h]

theorem fromPgbinaryLoop_backslash (h : i < ilen) (rest : List UInt8) :
    fromPgbinaryLoop ilen i (byteaEscapeChar :: byteaEscapeChar :: rest) o rgbValue =
      (ifBuffer rgbValue fun cells ↦ store cells o byteaEscapeChar).bind fun rgbValue ↦
        fromPgbinaryLoop ilen (i + 2) rest (o + 1) rgbValue := by
  rw [fromPgbinaryLoop, if_neg (not_not.2 h), if_pos rfl]
  exact if_pos rfl

theorem fromPgbinaryLoop_hex (h : i < ilen) (rest : List UInt8) :
    fromPgbinaryLoop ilen i (byteaEscapeChar :: 0x78 :: rest) o rgbValue =
      if i + 2 < ilen then
        (ifBuffer rgbValue fun cells ↦ pgHex2bin rest cells o (ilen - (i + 2))).map
          fun rgbValue ↦ (o + (ilen - (i + 2)) / 2, rgbValue)
      else some (o, rgbValue) := by
  rw [fromPgbinaryLoop, if_neg (not_not.2 h), if_pos rfl]
  exact (if_neg (by decide)).trans (if_pos rfl)

theorem fromPgbinaryLoop_octal (h : i < ilen) {d : UInt8} (hd : d ≠ byteaEscapeChar)
    (hx : d ≠ 0x78) (rest : List UInt8) :
    fromPgbinaryLoop ilen i (byteaEscapeChar :: d :: rest) o rgbValue =
      (ifBuffer rgbValue fun cells ↦
          (convFromOctal (byteaEscapeChar :: d :: rest)).bind (store cells o)).bind fun rgbValue ↦
        fromPgbinaryLoop ilen (i + 4) (rest.drop 2) (o + 1) rgbValue := by
  rw [fromPgbinaryLoop, if_neg (not_not.2 h), if_pos rfl]
  exact (if_neg hd).trans (if_neg hx)

theorem fromPgbinaryLoop_plain (h : i < ilen) {c : UInt8} (hc : c ≠ byteaEscapeChar)
    (rest : List UInt8) :
    fromPgbinaryLoop ilen i (c :: rest) o rgbValue =
      (ifBuffer rgbValue fun cells ↦ store cells o c).bind fun rgbValue ↦
        fromPgbinaryLoop ilen (i + 1) rest (o + 1) rgbValue := by
  rw [fromPgbinaryLoop.eq_def, if_neg (not_not.2 h)]
  exact if_neg hc

/-- Without a buffer the same is counted. -/
theorem fromPgbinaryLoop_none {value : List UInt8} {n : Nat} {result : Option (List UInt8)}
    (h : fromPgbinaryLoop ilen i value o rgbValue = some (n, result)) :
    fromPgbinaryLoop ilen i value o none = some (n, none) := by
  fun_induction fromPgbinaryLoop ilen i value o rgbValue generalizing result with
  | case1 i value o rgbValue hi =>
    cases h
    exact fromPgbinaryLoop_stop hi value
  | case2 => cases h
  | case3 => cases h
  | case4 i o rgbValue hi rest ih =>
    obtain ⟨rgbValue', -, hloop⟩ := Option.bind_eq_some_iff.1 h
    rw [fromPgbinaryLoop_backslash (not_not.1 hi)]
    exact ih rgbValue' hloop
  | case5 i o rgbValue hi rest hlt hne =>
    obtain ⟨rgbValue', -, heq⟩ := Option.map_eq_some_iff.1 h
    cases heq
    rw [fromPgbinaryLoop_hex (not_not.1 hi), if_pos hlt]
    rfl
  | case6 i o rgbValue hi rest hlt hne =>
    cases h
    rw [fromPgbinaryLoop_hex (not_not.1 hi), if_neg hlt]
  | case7 i o rgbValue hi d rest hd hx ih =>
    obtain ⟨rgbValue', -, hloop⟩ := Option.bind_eq_some_iff.1 h
    rw [fromPgbinaryLoop_octal (not_not.1 hi) hd hx]
    exact ih rgbValue' hloop
  | case8 i o rgbValue hi c rest hc ih =>
    obtain ⟨rgbValue', -, hloop⟩ := Option.bind_eq_some_iff.1 h
    rw [fromPgbinaryLoop_plain (not_not.1 hi) hc]
    exact ih rgbValue' hloop

theorem convertFromPgbinary_none {value : List UInt8} {n : Nat} {result : Option (List UInt8)}
    (h : convertFromPgbinary value rgbValue = some (n, result)) :
    convertFromPgbinary value none = some (n, none) := by
  obtain ⟨⟨m, rgbValue'⟩, hloop, hend⟩ := Option.bind_eq_some_iff.1 h
  obtain ⟨_, -, heq⟩ := Option.map_eq_some_iff.1 hend
  cases heq
  rw [convertFromPgbinary, fromPgbinaryLoop_none hloop]
  rfl

end

/-- Two digits that stand for a byte. -/
def HexPair (b : UInt8) (text : List UInt8) : Prop :=
  ∃ high low, text = [high, low] ∧ high ≠ 0 ∧ low ≠ 0 ∧
    hex2binVal high <<< 4 + hex2binVal low = b

theorem hexPair_hexText (b : UInt8) : HexPair b (hexText b) := by
  have hbytes := bodyByte_hexText b
  have hval := hex2binVal_hexText b
  obtain ⟨high, low, htext⟩ := List.length_eq_two.1 (show (hexText b).length = 2 from rfl)
  rw [htext] at hbytes hval
  rw [List.all_cons, List.all_cons, Bool.and_eq_true, Bool.and_eq_true] at hbytes
  exact ⟨high, low, htext, (of_decide_eq_true hbytes.1).2.2.2,
    (of_decide_eq_true hbytes.2.1).2.2.2, hval⟩

/-- The bytes are read back, however their digits are written. -/
theorem pgHex2binLoop_pairs {f : UInt8 → List UInt8} (hf : ∀ b, HexPair b (f b))
    (inp front cells rest : List UInt8) (hroom : inp.length ≤ cells.length) :
    pgHex2binLoop (2 * inp.length) true (inp.flatMap f ++ rest) (front ++ cells) front.length =
      some (front ++ overwrite cells inp, front.length + inp.length) := by
  induction inp generalizing front cells with
  | nil => rfl
  | cons b inp ih =>
    obtain ⟨c, cells, rfl⟩ := List.exists_cons_of_length_pos (Nat.zero_lt_of_lt hroom)
    rw [List.length_cons, List.length_cons] at hroom
    have hih := ih (front ++ [b]) cells (Nat.le_of_succ_le_succ hroom)
    obtain ⟨high, low, htext, hhigh, hlow, hsum⟩ := hf b
    have hread : (front ++ hex2binVal high <<< 4 :: cells)[front.length]? =
        some (hex2binVal high <<< 4) := getElem?_length_append
    rw [List.length_cons, List.flatMap_cons, htext, Nat.mul_succ]
    rw [List.length_append, List.length_singleton, List.append_assoc, List.append_assoc] at hih
    simp only [List.cons_append, List.nil_append, pgHex2binLoop, if_neg hhigh, if_neg hlow,
      store_cons, Option.bind_some, hread, hsum, if_true, if_false, Bool.false_eq_true]
    exact hih.trans (by rw [Nat.add_right_comm]; rfl)

theorem pgHex2bin_pairs {f : UInt8 → List UInt8} (hf : ∀ b, HexPair b (f b))
    (inp cells rest : List UInt8) (hroom : inp.length < cells.length) :
    pgHex2bin (inp.flatMap f ++ rest) cells 0 (2 * inp.length) =
      some (overwrite cells (inp ++ [0])) := by
  have hpairs := pgHex2binLoop_pairs hf inp [] cells rest (Nat.le_of_lt hroom)
  rw [List.nil_append, List.nil_append, List.length_nil, Nat.zero_add] at hpairs
  rw [pgHex2bin, hpairs, Option.bind_some]
  exact store_overwrite hroom 0

/-- A text that stands for a byte where the digits are octal. -/
inductive EscapedByte (b : UInt8) : List UInt8 → Prop
  | plain (hback : b ≠ byteaEscapeChar) (hzero : b ≠ 0) : EscapedByte b [b]
  | backslash (hback : b = byteaEscapeChar) : EscapedByte b [byteaEscapeChar, byteaEscapeChar]
  | octal : EscapedByte b (octalText b)

theorem escapedByte_binaryText (b : UInt8) : EscapedByte b (binaryText [] b) := by
  rw [binaryText]
  split
  · next hplain => exact .plain (bodyByte_plain hplain).2.2.1 (bodyByte_plain hplain).2.2.2
  · exact .octal

/-- The bytes are read back, however each of them is escaped. -/
theorem fromPgbinaryLoop_escaped {f : UInt8 → List UInt8} (hf : ∀ b, EscapedByte b (f b))
    {ilen i : Nat} (inp front cells rest : List UInt8)
    (hilen : i + (inp.flatMap f).length = ilen) (hroom : inp.length ≤ cells.length) :
    fromPgbinaryLoop ilen i (inp.flatMap f ++ rest) front.length (some (front ++ cells)) =
      some (front.length + inp.length, some (front ++ overwrite cells inp)) := by
  induction inp generalizing i front cells with
  | nil =>
    rw [List.flatMap_nil, List.length_nil] at hilen
    exact fromPgbinaryLoop_stop (by omega) rest
  | cons b inp ih =>
    obtain ⟨c, cells, rfl⟩ := List.exists_cons_of_length_pos (Nat.zero_lt_of_lt hroom)
    rw [List.length_cons, List.length_cons] at hroom
    rw [List.flatMap_cons, List.length_append] at hilen
    have hstore : ∀ i rest', i + (inp.flatMap f).length = ilen → rest' = inp.flatMap f ++ rest →
        (((store (front ++ c :: cells) front.length b).map some).bind fun rgbValue ↦
            fromPgbinaryLoop ilen i rest' (front.length + 1) rgbValue) =
          some (front.length + (inp.length + 1),
            some (front ++ overwrite (c :: cells) (b :: inp))) := by
      rintro i rest' hi rfl
      have hih := ih (front ++ [b]) cells hi (Nat.le_of_succ_le_succ hroom)
      rw [List.length_append, List.length_singleton, List.append_assoc, List.append_assoc] at hih
      rw [store_cons, Option.map_some, Option.bind_some]
      exact hih.trans (by rw [Nat.add_assoc, Nat.add_comm 1]; rfl)
    rw [List.flatMap_cons, List.append_assoc, List.length_cons]
    have hb := hf b
    generalize f b = text at hilen hb ⊢
    cases hb with
    | plain hback _ =>
      rw [List.length_singleton] at hilen
      rw [List.singleton_append, fromPgbinaryLoop_plain (by omega) hback]
      exact hstore (i + 1) _ (by omega) rfl
    | backslash hback =>
      rw [List.length_cons, List.length_singleton] at hilen
      rw [List.cons_append, List.singleton_append, fromPgbinaryLoop_backslash (by omega), ← hback]
      exact hstore (i + 2) _ (by omega) rfl
    | octal =>
      have hdigits := bodyByte_octalText b
      rw [octalText, List.tail_cons, List.all_cons, Bool.and_eq_true] at hdigits
      have hdigit := of_decide_eq_true hdigits.1
      have hlen : (octalText b).length = 4 := rfl
      have hoctal := convFromOctal_octalText b (inp.flatMap f ++ rest)
      rw [octalText] at hoctal ⊢
      simp only [List.cons_append, List.nil_append] at hoctal ⊢
      rw [fromPgbinaryLoop_octal (by omega) hdigit.1.2.2.1 hdigit.2, ifBuffer, hoctal]
      exact hstore (i + 4) _ (by omega) rfl

theorem EscapedByte.ne_zero {b c : UInt8} {text : List UInt8} (h : EscapedByte b text)
    (hc : c ∈ text) : c ≠ 0 := by
  have hback : byteaEscapeChar ≠ 0 := by decide
  cases h with
  | plain _ hzero => exact List.mem_singleton.1 hc ▸ hzero
  | backslash => rcases List.mem_pair.1 hc with rfl | rfl <;> exact hback
  | octal =>
    rcases List.mem_cons.1 hc with rfl | hc
    · exact hback
    · exact (of_decide_eq_true (List.all_eq_true.1 (bodyByte_octalText b) c hc)).1.2.2.2

/-- The loop, and the terminator behind the bytes. -/
theorem convertFromPgbinary_of_loop {text rest cells cells' result : List UInt8} {n : Nat}
    (h0 : ∀ c ∈ text, c ≠ 0)
    (hloop : fromPgbinaryLoop text.length 0 (text ++ 0 :: rest) 0 (some cells) =
      some (n, some cells')) (hend : store cells' n 0 = some result) :
    convertFromPgbinary (text ++ 0 :: rest) (some cells) = some (n, some result) := by
  have hlen : strlen (text ++ 0 :: rest) = text.length := by
    rw [strlen, List.takeWhile_append_of_pos fun c hc ↦ decide_eq_true (h0 c hc),
      List.takeWhile_cons_of_neg (by decide), List.append_nil]
  rw [convertFromPgbinary, hlen, hloop, Option.bind_some]
  exact congrArg (fun o ↦ (o.map some).map fun rgbValue ↦ (n, rgbValue)) hend

theorem convertFromPgbinary_escaped {f : UInt8 → List UInt8} (hf : ∀ b, EscapedByte b (f b))
    (inp rest cells : List UInt8) (hroom : inp.length < cells.length) :
    convertFromPgbinary (inp.flatMap f ++ 0 :: rest) (some cells) =
      some (inp.length, some (overwrite cells (inp ++ [0]))) := by
  have hloop := fromPgbinaryLoop_escaped hf inp [] cells (0 :: rest) (Nat.zero_add _)
    (Nat.le_of_lt hroom)
  rw [List.nil_append, List.nil_append, List.length_nil, Nat.zero_add] at hloop
  refine convertFromPgbinary_of_loop (fun c hc ↦ ?_) hloop (store_overwrite hroom 0)
  obtain ⟨b, -, hb⟩ := List.mem_flatMap.1 hc
  exact (hf b).ne_zero hb

theorem convertFromPgbinary_pairs {f : UInt8 → List UInt8} (hf : ∀ b, HexPair b (f b))
    (inp rest cells : List UInt8) (hroom : inp.length < cells.length) :
    convertFromPgbinary (byteaEscapeChar :: 0x78 :: inp.flatMap f ++ 0 :: rest) (some cells) =
      some (inp.length, some (overwrite cells (inp ++ [0]))) := by
  have hpair (b : UInt8) : (f b).length = 2 := by
    obtain ⟨high, low, htext, -⟩ := hf b
    rw [htext]
    rfl
  have hlength : (inp.flatMap f).length = 2 * inp.length := by
    simp [List.length_flatMap, hpair, Nat.mul_comm]
  obtain ⟨cells', hloop, hend⟩ : ∃ cells',
      fromPgbinaryLoop (2 * inp.length + 2) 0
          (byteaEscapeChar :: 0x78 :: (inp.flatMap f ++ 0 :: rest)) 0 (some cells) =
        some (inp.length, some cells') ∧
      store cells' inp.length 0 = some (overwrite cells (inp ++ [0])) := by
    rw [fromPgbinaryLoop_hex (by omega)]
    by_cases hinp : inp.length = 0
    · obtain rfl := List.length_eq_zero_iff.1 hinp
      exact ⟨cells, rfl, store_overwrite hroom 0⟩
    · have hagain := store_cons inp 0 (cells.drop (inp.length + 1)) 0
      rw [if_pos (by omega), ifBuffer_some,
        show 2 * inp.length + 2 - (0 + 2) = 2 * inp.length by omega,
        pgHex2bin_pairs hf inp cells (0 :: rest) hroom, Option.map_some, Option.map_some,
        show 0 + 2 * inp.length / 2 = inp.length by omega]
      refine ⟨_, rfl, ?_⟩
      rw [overwrite, List.length_append, List.length_singleton, List.append_assoc]
      exact hagain
  refine convertFromPgbinary_of_loop (fun c hc ↦ ?_) ?_ hend
  · rcases List.mem_cons.1 hc with rfl | hc
    · decide
    rcases List.mem_cons.1 hc with rfl | hc
    · decide
    obtain ⟨b, -, hb⟩ := List.mem_flatMap.1 hc
    obtain ⟨high, low, htext, hhigh, hlow, -⟩ := hf b
    rw [htext] at hb
    rcases List.mem_pair.1 hb with rfl | rfl
    · exact hhigh
    · exact hlow
  · rw [List.length_cons, List.length_cons, hlength]
    exact hloop

/-- A body that has no escapes any more. -/
theorem convertFromPgbinary_binaryBody (hexBinFormat : Bool) (inp rest rgbValue : List UInt8)
    (hroom : inp.length < rgbValue.length) :
    convertFromPgbinary (binaryBody hexBinFormat [] inp ++ 0 :: rest) (some rgbValue) =
      some (inp.length, some (overwrite rgbValue (inp ++ [0]))) := by
  cases hexBinFormat with
  | true => exact convertFromPgbinary_pairs hexPair_hexText inp rest rgbValue hroom
  | false => exact convertFromPgbinary_escaped escapedByte_binaryText inp rest rgbValue hroom

/-! ## The round trip -/

/-- What is inside of the literal with a body: with the escapes removed, but for a bind request,
which has no literals. -/
def insideLiteral (qb : QueryBuild) (body : List UInt8) : Option (List UInt8) :=
  if qb.paramMode = .buildingBindRequest then some body
  else
    match Server.lexBody qb.ccsc (ccGetEscape qb.conn ≠ 0) 0 0 (body ++ [literalQuote]) with
    | some (value, []) => some value
    | _ => none

theorem insideLiteral_binaryBody (qb : QueryBuild) (hexBinFormat : Bool) (inp : List UInt8) :
    insideLiteral qb (binaryBody hexBinFormat (escapeText qb) inp) =
      some (binaryBody hexBinFormat [] inp) := by
  rw [insideLiteral]
  by_cases hbind : qb.paramMode = .buildingBindRequest
  · have hesc : escapeText qb = [] := by
      rw [escapeText, escDouble, hbind]
      rfl
    rw [if_pos hbind, hesc]
  · have hesc : escapeText qb =
        if decide (ccGetEscape qb.conn ≠ 0) then [escapeInLiteral] else [] := by
      rw [escapeText, escDouble, decide_eq_true hbind, Bool.true_and]
      rcases ccGetEscape_eq qb.conn with h | h
      · rw [h]
        rfl
      · rw [h]
    have hlex := @lexBody_binaryBody qb.ccsc (decide (ccGetEscape qb.conn ≠ 0)) hexBinFormat inp []
      (by decide)
    rw [if_neg hbind, hesc, hlex]

/-- The body that is written into the room that has been reserved, behind `npos` bytes: with the
byte behind it it stays in there, and its bytes are those that were to be written.  `rest` is what
is behind the string that is read. -/
theorem convertToPgbinary_roundTrip (qb : QueryBuild) {hexBinFormat : Bool} {inp : List UInt8}
    (hint : hexBinFormat = true → inp.length < 2 ^ 31) {strAlsize npos : Nat} {out : List UInt8}
    (hout : npos + out.length =
      enlargeNewstatement strAlsize (binaryLimit hexBinFormat npos inp.length)) :
    ∃ body nul value, (nul = [] ∨ nul = [0]) ∧ (body ++ nul).length ≤ out.length ∧
      npos + body.length ≤ binaryLimit hexBinFormat npos inp.length ∧
      convertToPgbinary inp out hexBinFormat qb = some (body.length, overwrite out (body ++ nul)) ∧
      insideLiteral qb body = some value ∧
      (∀ rest rgbValue, inp.length < rgbValue.length →
        convertFromPgbinary (value ++ 0 :: rest) (some rgbValue) =
          some (inp.length, some (overwrite rgbValue (inp ++ [0])))) ∧
      (∀ rest, convertFromPgbinary (value ++ 0 :: rest) none = some (inp.length, none)) ∧
      ∀ text rgbValue n result, convertFromPgbinary text rgbValue = some (n, result) →
        convertFromPgbinary text none = some (n, none) := by
  have hle := length_binaryBody_le hexBinFormat qb inp npos
  have hlt := lt_enlargeNewstatement strAlsize (binaryLimit hexBinFormat npos inp.length)
  have hroom : (binaryBody hexBinFormat (escapeText qb) inp).length < out.length := by omega
  obtain ⟨nul, hnul, hwrite⟩ := convertToPgbinary_eq qb (fun h ↦ by have := hint h; omega) hroom
  have hread := convertFromPgbinary_binaryBody hexBinFormat inp
  refine ⟨_, nul, _, hnul, ?_, hle, hwrite, insideLiteral_binaryBody qb hexBinFormat inp, hread, ?_,
    ?_⟩
  · rw [List.length_append]
    rcases hnul with rfl | rfl
    · exact Nat.le_of_lt hroom
    · exact hroom
  · intro rest
    exact convertFromPgbinary_none (hread rest (List.replicate (inp.length + 1) 0)
      (by rw [List.length_replicate]; omega))
  · intro text rgbValue n result h
    exact convertFromPgbinary_none h

/-- A build for a server that does not take backslashes for escapes, or does. -/
def binaryBuild (standardConformingStrings : String) : QueryBuild :=
  qbInitialize ⟨some standardConformingStrings, 9, 0, .utf8, false⟩ .replaceParams

theorem convertToPgbinary_roundTrip_three : ∃ body nul value,
    convertToPgbinary [0x41, 0x00, 0xff] (List.replicate 4086 0) true (binaryBuild "off") =
        some (body.length, overwrite (List.replicate 4086 0) (body ++ nul)) ∧
      insideLiteral (binaryBuild "off") body = some value ∧
      convertFromPgbinary (value ++ [0]) (some [7, 7, 7, 7, 7]) =
        some (3, some [0x41, 0x00, 0xff, 0, 7]) := by
  obtain ⟨body, nul, value, -, -, -, hwrite, hinside, hread, -⟩ :=
    @convertToPgbinary_roundTrip (binaryBuild "off") true [0x41, 0x00, 0xff] (fun _ ↦ by decide)
      4096 10 (List.replicate 4086 0) (by rw [List.length_replicate]; rfl)
  exact ⟨body, nul, value, hwrite, hinside, hread [] [7, 7, 7, 7, 7] (by decide)⟩

/-- There is no way to ask for the length alone: a store through NULL is none. -/
theorem convertToPgbinary_not_counted : ¬∀ n out, convertToPgbinary [0x41] [0, 0, 0, 0, 0] true
    (binaryBuild "on") = some (n, out) →
      (convertToPgbinary [0x41] [] true (binaryBuild "on")).map Prod.fst = some n := by
  intro h
  cases h 4 [0x5c, 0x78, 0x34, 0x31, 0] rfl

end PsqlOdbc
