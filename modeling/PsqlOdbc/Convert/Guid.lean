import Mathlib.Tactic.IntervalCases
import PsqlOdbc.Lib.HexText
import PsqlOdbc.SscanfStored

/-!
# GUIDs as text (`convert.c`)

The text of an `SQL_C_GUID` parameter, and `char2guid`, which reads one with `secure_sscanf`.
-/

namespace PsqlOdbc

open Lib

/-- `SQLGUID`. -/
structure SqlGuid where
  data1 : UInt32
  data2 : UInt16
  data3 : UInt16
  data4 : Vector UInt8 8
  deriving DecidableEq

/-- The text of a GUID that `ResolveOneParam` writes. -/
def guidText (g : SqlGuid) : List UInt8 :=
  hexadecimals 8 g.data1.toNat ++ (0x2d :: hexadecimals 4 g.data2.toNat) ++
    (0x2d :: hexadecimals 4 g.data3.toNat) ++
    (0x2d :: hexadecimals 2 g.data4[0].toNat) ++ hexadecimals 2 g.data4[1].toNat ++
    (0x2d :: hexadecimals 2 g.data4[2].toNat) ++ hexadecimals 2 g.data4[3].toNat ++
    hexadecimals 2 g.data4[4].toNat ++ hexadecimals 2 g.data4[5].toNat ++
    hexadecimals 2 g.data4[6].toNat ++ hexadecimals 2 g.data4[7].toNat

/-- `%08X-%04hX-%04hX-%02hhX%02hhX-%02hhX%02hhX%02hhX%02hhX%02hhX%02hhX`. -/
def guidFmt : List UInt8 :=
  [0x25, 0x30, 0x38, 0x58, 0x2d, 0x25, 0x30, 0x34, 0x68, 0x58, 0x2d, 0x25, 0x30, 0x34, 0x68, 0x58,
    0x2d, 0x25, 0x30, 0x32, 0x68, 0x68, 0x58, 0x25, 0x30, 0x32, 0x68, 0x68, 0x58, 0x2d,
    0x25, 0x30, 0x32, 0x68, 0x68, 0x58, 0x25, 0x30, 0x32, 0x68, 0x68, 0x58,
    0x25, 0x30, 0x32, 0x68, 0x68, 0x58, 0x25, 0x30, 0x32, 0x68, 0x68, 0x58,
    0x25, 0x30, 0x32, 0x68, 0x68, 0x58, 0x25, 0x30, 0x32, 0x68, 0x68, 0x58]

/-- `ARG_UINT`, twice `ARG_USHORT`, and eight times `ARG_UCHAR`. -/
def guidArgs : List SscanfArg :=
  [.num .uint, .num .ushort, .num .ushort] ++ List.replicate 8 (.num .uchar)

/-- What is stored for an argument, if something is. -/
def storedNat (values : List SscanfValue) (i old : Nat) : Nat :=
  match values[i]? with
  | some (.num n) => n.toNat
  | _ => old

/-- `char2guid`: whether it returns `COPY_OK`, and the GUID. -/
def char2guid (str : List UInt8) (g : SqlGuid) : Option (Bool × SqlGuid) :=
  (secureSscanf str guidFmt guidArgs).map fun r ↦
    let g' : SqlGuid :=
      { g with
        data2 := .ofNat (storedNat r.values 1 g.data2.toNat)
        data3 := .ofNat (storedNat r.values 2 g.data3.toNat)
        data4 := .ofFn fun i ↦ .ofNat (storedNat r.values (3 + i) g.data4[i].toNat) }
    if r.ret < 11 then (false, g')
    else (true, { g' with data1 := .ofNat (storedNat r.values 0 0) })

/-! ## Fields -/

/-- A conversion of the format, with the dash before it, if there is one. -/
structure HexField where
  dash : Bool
  width : Nat
  modifier : LengthModifier
  width_pos : 0 < width
  width_lt : width < 10
  /-- The format is read past the modifier. -/
  skipped : ∀ c ∈ modifier.text, isModifier c = true
  /-- What fits in the width fits in the argument. -/
  fits : 16 ^ width ≤ 2 ^ modifier.spType.bits

namespace HexField

/-- What stands behind the `%`. -/
def spec (field : HexField) : List UInt8 :=
  [0x30, digitByte field.width] ++ (field.modifier.text ++ [0x58])

def before (field : HexField) : List UInt8 := if field.dash then [0x2d] else []

def fmt (field : HexField) : List UInt8 := field.before ++ 0x25 :: field.spec

def arg (field : HexField) : SscanfArg := .num (unsignedType field.modifier.spType)

end HexField

/-- `%08X`. -/
def longField : HexField := ⟨false, 8, .default, by decide, by decide, List.forall_mem_nil _, by decide⟩

/-- `-%04hX`. -/
def shortField : HexField := ⟨true, 4, .h, by decide, by decide, List.forall_mem_singleton.2 rfl, by decide⟩

/-- `%02hhX`, with a dash before it or without. -/
def byteField (dash : Bool) : HexField :=
  ⟨dash, 2, .hh, by decide, by decide,
    List.forall_mem_cons.2 ⟨rfl, List.forall_mem_singleton.2 rfl⟩, by decide⟩

/-- The conversions of `guidFmt`. -/
def guidFields : List HexField :=
  [longField, shortField, shortField, byteField true, byteField false, byteField true] ++
    List.replicate 5 (byteField false)

theorem guidFmt_eq : guidFmt = guidFields.flatMap HexField.fmt := by decide

theorem guidArgs_eq : guidArgs = guidFields.map HexField.arg := rfl

section

variable {field : HexField} {f s ds rest : List UInt8}

theorem parseArg_field :
    parseArg (field.spec ++ f) s (some field.arg) =
      some (parseUnsigned 16 field.modifier.spType field.width (s.take field.width) s field.arg) := by
  have hdigit := isDecimal_digitByte field.width_lt
  have hdigits : ∀ c ∈ [(0x30 : UInt8), digitByte field.width], isDecimal c = true :=
    List.forall_mem_cons.2 ⟨rfl, List.forall_mem_singleton.2 hdigit⟩
  have hvalue : decimalValue [0x30, digitByte field.width] = field.width := by
    rw [decimalValue, List.foldl_cons, List.foldl_cons, List.foldl_nil,
      digitValue_digitByte field.width_lt]
    change 10 * 0 + field.width = field.width
    omega
  have hlt := field.width_lt
  have hparse := parseArg_integer hdigits (by omega) .upperX field.modifier f s field.arg
  rw [hvalue, widthPart, if_pos field.width_pos] at hparse
  rw [HexField.spec, List.append_assoc, List.append_assoc]
  exact hparse

theorem dropWhile_spec : ((field.spec ++ f).dropWhile isModifier).drop 1 = f := by
  have hdigit := isDecimal_digitByte field.width_lt
  have hmodifier : isModifier (digitByte field.width) = true := by
    rw [isModifier, show (0x30 ≤ digitByte field.width && digitByte field.width ≤ 0x39) = true from
      hdigit]
    rfl
  have hall : ∀ c ∈ [0x30, digitByte field.width] ++ field.modifier.text, isModifier c = true := by
    intro c hc
    rcases List.mem_append.1 hc with hc | hc
    · rcases List.mem_cons.1 hc with rfl | hc
      · rfl
      · rw [List.mem_singleton.1 hc]
        exact hmodifier
    · exact field.skipped c hc
  rw [HexField.spec, ← List.append_assoc, List.append_assoc _ [0x58] f,
    List.dropWhile_append_of_pos hall, List.singleton_append, List.dropWhile_cons_of_neg (by decide)]
  rfl

/-- A conversion at digits that fill its width, or end at a dash or with the text. -/
theorem parseArg_hexDigits (hne : ds ≠ []) (hds : ∀ c ∈ ds, digitValue c < 16)
    (hlen : ds.length ≤ field.width)
    (hrest : ds.length = field.width ∨ ∀ c ∈ rest.head?, c = 0x2d) :
    parseArg (field.spec ++ f) (ds ++ rest) (some field.arg) =
      some ⟨.success, skipSpaces rest, some (.num (baseValue 16 ds : Nat))⟩ := by
  have hcopy : (ds ++ rest).take field.width = ds ++ rest.take (field.width - ds.length) := by
    rw [List.take_append, List.take_of_length_le hlen]
  have hhead : ∀ c ∈ (rest.take (field.width - ds.length)).head?, c = 0x2d := by
    intro c hc
    rcases hrest with hfull | hdash
    · rw [hfull, Nat.sub_self, List.take_zero] at hc
      cases hc
    · rw [List.head?_take] at hc
      split_ifs at hc
      · cases hc
      · exact hdash c hc
  generalize rest.take (field.width - ds.length) = tail at hcopy hhead
  have hends : startsWithDigit 16 tail = false := by
    cases tail with
    | nil => rfl
    | cons c tail =>
      rw [hhead c rfl]
      rfl
  have hstop : tail.headD 0 ∉ ds := by
    intro hmem
    have hdigit := hds _ hmem
    cases tail with
    | nil => exact absurd hdigit (by decide)
    | cons c tail =>
      rw [List.headD_cons, hhead c rfl] at hdigit
      exact absurd hdigit (by decide)
  have hscan : strtolScan 16 (ds ++ tail) = some (false, baseValue 16 ds, tail) := by
    refine strtolScan_signed (by decide) false hds hne hends fun _ _ hdigit ↦ ?_
    cases tail with
    | nil => cases hdigit
    | cons c tail =>
      rw [List.head?_cons, hhead c rfl]
      decide
  have hpow := Nat.pow_le_pow_right (show 0 < 16 by decide) hlen
  have hvalue : baseValue 16 ds < 2 ^ field.modifier.spType.bits :=
    Nat.lt_of_lt_of_le (baseValue_lt hds) (hpow.trans field.fits)
  have hend : numberEnd field.width (ds ++ tail) tail (ds ++ rest) = rest := by
    rw [numberEnd, if_pos field.width_pos]
    exact trimConsume_upTo hstop rfl hlen
  have hwide : 2 ^ field.modifier.spType.bits ≤ 2 ^ 64 := by
    refine Nat.pow_le_pow_right (by decide) ?_
    rcases bits_cases field.modifier.spType with h | h | h | h
    all_goals omega
  have hread : (if 2 ^ 64 ≤ baseValue 16 ds then 2 ^ 64 - 1
      else if false = true then (2 ^ 64 - baseValue 16 ds) % 2 ^ 64 else baseValue 16 ds) =
        baseValue 16 ds := by
    rw [if_neg (Nat.not_le.2 (Nat.lt_of_lt_of_le hvalue hwide)), if_neg Bool.false_ne_true]
  rw [parseArg_field, hcopy, HexField.arg, parseUnsigned, if_neg fun h ↦ h rfl,
    strtoul_of_scan hscan, hread]
  dsimp only
  rw [if_neg fun h ↦ Nat.ne_of_gt field.width_pos h.1, hend,
    if_neg fun h ↦ absurd h.2 (Nat.not_lt.2 (Nat.le_sub_one_of_lt hvalue)), Nat.mod_eq_of_lt hvalue]

/-- What a conversion consumes: characters of a number, at most as many as its width, and blanks. -/
theorem parseUnsigned_split {t : CheckType} {w : Nat} (hw : 0 < w) (s : List UInt8) {p : ParsedArg}
    (hp : parseUnsigned 16 t w (s.take w) s (.num (unsignedType t)) = p) :
    ∃ number blanks, s = number ++ (blanks ++ p.current) ∧ number.length ≤ w ∧
      (∀ c ∈ number, isNumberChar 16 c = true) ∧ (∀ c ∈ blanks, isSpace c = true) ∧
      (number.length = w ∨ startsWithDigit 16 (blanks ++ p.current) = false) := by
  obtain ⟨hends, text, htext, hchars⟩ := strtoul_split (show 16 ≤ 36 by decide) (s.take w)
  obtain ⟨number, hfront, hsplit, hend⟩ := @trimConsume_split w text (strtoul 16 (s.take w)).2
    (s.drop w) (by rw [← htext]; exact List.length_take_le _ _) (by
      rw [← htext, List.length_take, List.drop_eq_nil_iff]
      omega)
  rw [← List.append_assoc, ← htext, List.take_append_drop] at hsplit hend
  have hcurrent : p.current = skipSpaces
      (trimConsume ((strtoul 16 (s.take w)).2.headD 0) w (s.take w) s) := by
    subst hp
    rw [parseUnsigned, if_neg fun h ↦ h rfl]
    dsimp only
    rw [if_neg fun h ↦ Nat.ne_of_gt hw h.1, numberEnd, if_pos hw]
    split_ifs
    · rfl
    · rfl
  generalize trimConsume ((strtoul 16 (s.take w)).2.headD 0) w (s.take w) s = t at hsplit hend hcurrent
  refine ⟨number, t.takeWhile isSpace, ?_, ?_, ?_, ?_, ?_⟩
  · rw [hcurrent, skipSpaces, List.takeWhile_append_dropWhile]
    exact hsplit
  · have hlen := congrArg List.length htext
    rw [List.length_take, List.length_append] at hlen
    have hle := hfront.length_le
    omega
  · exact fun c hc ↦ hchars c (hfront.subset hc)
  · exact fun c hc ↦ List.mem_takeWhile_imp hc
  · rw [hcurrent, skipSpaces, List.takeWhile_append_dropWhile]
    refine hend.imp id fun hhead ↦ ?_
    cases t with
    | nil => rfl
    | cons c t =>
      rw [List.headD_cons] at hhead
      cases hq : (strtoul 16 (s.take w)).2 with
      | nil =>
        rw [hq] at hhead
        rw [hhead]
        rfl
      | cons d q =>
        rw [hq] at hhead hends
        rw [hhead]
        exact hends

end

/-! ## What is accepted -/

/-- A text from which the fields can be read: each of at most as many characters as its width, all of
them characters of a number, then blanks, with the dashes before the fields that have one; a field is
shorter than its width only where no digit follows.  What comes behind the last field does not
matter. -/
inductive ReadsFields : List HexField → List UInt8 → Prop
  | nil (rest : List UInt8) : ReadsFields [] rest
  | cons {field : HexField} {fields : List HexField} {number blanks rest : List UInt8}
      (width : number.length ≤ field.width) (chars : ∀ c ∈ number, isNumberChar 16 c = true)
      (space : ∀ c ∈ blanks, isSpace c = true) (some : number ++ blanks ≠ [])
      (ends : number.length = field.width ∨ startsWithDigit 16 (blanks ++ rest) = false)
      (behind : ReadsFields fields rest) :
      ReadsFields (field :: fields) (field.before ++ (number ++ (blanks ++ rest)))

section

variable {field : HexField} {fields : List HexField} {s : List UInt8} {ret : Nat}
  {values : List SscanfValue} {r : SscanfResult}

/-- One conversion of the loop. -/
theorem sscanfLoop_field {f : List UInt8} {args : List SscanfArg}
    (h : sscanfLoop (0x25 :: (field.spec ++ f)) s (field.arg :: args) ret values = some r) :
    r.ret = ret ∨ ∃ number blanks current values',
      s = number ++ (blanks ++ current) ∧ number.length ≤ field.width ∧
      (∀ c ∈ number, isNumberChar 16 c = true) ∧ (∀ c ∈ blanks, isSpace c = true) ∧
      number ++ blanks ≠ [] ∧
      (number.length = field.width ∨ startsWithDigit 16 (blanks ++ current) = false) ∧
      sscanfLoop f current args (ret + 1) values' = some r := by
  by_cases hs : s = []
  · rw [sscanfLoop, if_pos hs] at h
    exact Or.inl (congrArg SscanfResult.ret (Option.some.inj h).symm)
  · rw [sscanfLoop, if_neg hs, if_pos rfl, List.head?_cons, parseArg_field, Option.bind_some] at h
    generalize hp : parseUnsigned 16 field.modifier.spType field.width (s.take field.width) s
      field.arg = p at h
    obtain ⟨number, blanks, hsplit, hwidth, hchars, hblanks, hends⟩ :=
      parseUnsigned_split field.width_pos s hp
    dsimp only at h
    by_cases herror : p.error ≠ .success
    · rw [if_pos herror] at h
      exact Or.inl (congrArg SscanfResult.ret (Option.some.inj h).symm)
    · rw [if_neg herror] at h
      by_cases hlen : p.current.length = s.length
      · rw [if_pos hlen] at h
        exact Or.inl (congrArg SscanfResult.ret (Option.some.inj h).symm)
      · have hpercent : (field.spec ++ f).head? ≠ some 0x25 := by
          intro h
          exact absurd (Option.some.inj h) (by decide)
        rw [if_neg hlen, if_pos hpercent, dropWhile_spec, List.tail_cons] at h
        refine Or.inr ⟨number, blanks, p.current, _, hsplit, hwidth, hchars, hblanks, ?_, hends, h⟩
        intro hnil
        rw [← List.append_assoc, hnil] at hsplit
        exact hlen (congrArg List.length hsplit).symm

/-- The fields can be read from a text for which all of the conversions succeed. -/
theorem readsFields_of_loop
    (h : sscanfLoop (fields.flatMap HexField.fmt) s (fields.map HexField.arg) ret values = some r) :
    r.ret ≤ ret + fields.length ∧ (r.ret = ret + fields.length → ReadsFields fields s) := by
  induction fields generalizing s ret values with
  | nil =>
    rw [List.flatMap_nil, sscanfLoop] at h
    cases h
    exact ⟨Nat.le_refl _, fun _ ↦ .nil s⟩
  | cons field fields ih =>
    rw [List.flatMap_cons, List.map_cons, HexField.fmt, List.append_assoc, List.cons_append] at h
    rw [List.length_cons]
    have hstep : ∀ s', sscanfLoop (0x25 :: (field.spec ++ fields.flatMap HexField.fmt)) s'
        (field.arg :: fields.map HexField.arg) ret values = some r →
        r.ret ≤ ret + (fields.length + 1) ∧ (r.ret = ret + (fields.length + 1) →
          ReadsFields (field :: fields) (field.before ++ s')) := by
      intro s' h'
      rcases sscanfLoop_field h' with hstop |
        ⟨number, blanks, current, values', hs', hwidth, hchars, hblanks, hsome, hends, hrest⟩
      · exact ⟨by omega, fun hret ↦ by omega⟩
      · obtain ⟨hle, hreads⟩ := ih hrest
        refine ⟨by omega, fun hret ↦ ?_⟩
        rw [hs']
        exact .cons hwidth hchars hblanks hsome hends (hreads (by omega))
    cases hdash : field.dash with
    | false =>
      have hbefore : field.before = [] := by
        rw [HexField.before, hdash]
        rfl
      rw [hbefore, List.nil_append] at h
      rw [hbefore] at hstep
      exact hstep s h
    | true =>
      have hbefore : field.before = [0x2d] := by
        rw [HexField.before, hdash]
        rfl
      rw [hbefore, List.singleton_append] at h
      cases s with
      | nil =>
        rw [sscanfLoop_nil] at h
        cases h
        exact ⟨Nat.le_add_right _ _, fun hret ↦ by dsimp only at hret; omega⟩
      | cons c s =>
        by_cases hc : c = 0x2d
        · subst hc
          rw [sscanfLoop_literal (by decide) (by decide)] at h
          rw [hbefore] at hstep
          exact hstep s h
        · rw [sscanfLoop_break (by decide) (by decide) (List.cons_ne_nil _ _)
            fun h ↦ hc (Option.some.inj h)] at h
          cases h
          exact ⟨Nat.le_add_right _ _, fun hret ↦ by dsimp only at hret; omega⟩

end

/-! ## What is read -/

/-- Pieces of a text, with the dashes before them, and what comes behind. -/
def joinPieces : List HexField → List (List UInt8) → List UInt8 → List UInt8
  | field :: fields, piece :: pieces, rest =>
    field.before ++ (piece ++ joinPieces fields pieces rest)
  | _, _, rest => rest

/-- Pieces that are read as they are: digits that fill the width, or end before a dash or with the
text. -/
def FillsFields : List HexField → List (List UInt8) → List UInt8 → Prop
  | [], [], _ => True
  | field :: fields, piece :: pieces, rest =>
    piece ≠ [] ∧ (∀ c ∈ piece, digitValue c < 16) ∧ piece.length ≤ field.width ∧
      (piece.length = field.width ∨ ∀ c ∈ (joinPieces fields pieces rest).head?, c = 0x2d) ∧
      FillsFields fields pieces rest
  | _, _, _ => False

section

variable {field : HexField} {fields : List HexField} {pieces : List (List UInt8)}
  {rest : List UInt8}

theorem isSpace_of_digit {c : UInt8} (hc : digitValue c < 16) : isSpace c = false := by
  revert hc
  exact uint8_forall (P := fun c ↦ digitValue c < 16 → isSpace c = false) (by decide +kernel) c

theorem skipSpaces_joinPieces (hne : fields ≠ []) (h : FillsFields fields pieces rest) :
    skipSpaces (joinPieces fields pieces rest) = joinPieces fields pieces rest := by
  match fields, pieces, h with
  | [], _, _ => exact absurd rfl hne
  | field :: fields, piece :: pieces, ⟨hpiece, hdigits, _⟩ =>
    refine skipSpaces_of_head ?_
    obtain ⟨c, ds, rfl⟩ := List.exists_cons_of_ne_nil hpiece
    rw [joinPieces, HexField.before]
    split_ifs
    · rfl
    · exact isSpace_of_digit (hdigits c List.mem_cons_self)

/-- Pieces that fill the fields are read. -/
theorem sscanfLoop_pieces {ret : Nat} {values : List SscanfValue}
    (h : FillsFields fields pieces rest) :
    sscanfLoop (fields.flatMap HexField.fmt) (joinPieces fields pieces rest)
        (fields.map HexField.arg) ret values =
      some ⟨.success, ret + fields.length,
        values ++ pieces.map fun piece ↦ .num (baseValue 16 piece : Nat)⟩ := by
  induction fields generalizing pieces ret values with
  | nil =>
    cases pieces with
    | nil =>
      rw [List.flatMap_nil, sscanfLoop, List.map_nil, List.append_nil]
      rfl
    | cons piece pieces => exact h.elim
  | cons field fields ih =>
    cases pieces with
    | nil => exact h.elim
    | cons piece pieces =>
      obtain ⟨hne, hdigits, hlen, hends, hbehind⟩ := h
      have hnil : piece ++ joinPieces fields pieces rest ≠ [] :=
        List.append_ne_nil_of_left_ne_nil hne _
      have hparse := @parseArg_hexDigits field (fields.flatMap HexField.fmt) piece
        (joinPieces fields pieces rest) hne hdigits hlen hends
      have hpercent : (field.spec ++ fields.flatMap HexField.fmt).head? ≠ some 0x25 := by
        intro h
        exact absurd (Option.some.inj h) (by decide)
      have hshort : (skipSpaces (joinPieces fields pieces rest)).length ≠
          (piece ++ joinPieces fields pieces rest).length := by
        have hle := length_skipSpaces_le (joinPieces fields pieces rest)
        have hpos := List.length_pos_of_ne_nil hne
        rw [List.length_append]
        omega
      have hskip : sscanfLoop (fields.flatMap HexField.fmt)
            (skipSpaces (joinPieces fields pieces rest)) (fields.map HexField.arg) (ret + 1)
            (values ++ [.num (baseValue 16 piece : Nat)]) =
          sscanfLoop (fields.flatMap HexField.fmt) (joinPieces fields pieces rest)
            (fields.map HexField.arg) (ret + 1) (values ++ [.num (baseValue 16 piece : Nat)]) := by
        by_cases hfields : fields = []
        · rw [hfields, List.flatMap_nil, sscanfLoop, sscanfLoop]
        · rw [skipSpaces_joinPieces hfields hbehind]
      have hloop := @sscanfLoop_conversion _ _ (fields.map HexField.arg) ret values field.arg _ _ hnil
        hpercent hparse hshort
      rw [dropWhile_spec, hskip, ih hbehind, List.append_assoc, List.singleton_append,
        Nat.add_assoc, Nat.add_comm 1] at hloop
      rw [List.flatMap_cons, List.map_cons, HexField.fmt, List.append_assoc, List.cons_append,
        joinPieces, HexField.before]
      split_ifs
      · rw [List.singleton_append, List.singleton_append, sscanfLoop_literal (by decide) (by decide)]
        exact hloop
      · exact hloop

end

/-! ## The text of a GUID -/

/-- The numbers in a GUID, in the order of its fields. -/
def SqlGuid.numbers (g : SqlGuid) : List Nat :=
  [g.data1.toNat, g.data2.toNat, g.data3.toNat, g.data4[0].toNat, g.data4[1].toNat, g.data4[2].toNat,
    g.data4[3].toNat, g.data4[4].toNat, g.data4[5].toNat, g.data4[6].toNat, g.data4[7].toNat]

def guidPieces (g : SqlGuid) : List (List UInt8) :=
  List.zipWith (fun field n ↦ hexadecimals field.width n) guidFields g.numbers

theorem guidText_eq (g : SqlGuid) : guidText g = joinPieces guidFields (guidPieces g) [] := by
  simp only [guidText, List.append_assoc, List.cons_append]
  rw [← List.append_nil (hexadecimals 2 g.data4[7].toNat)]
  rfl

theorem fillsFields_of_full {fields : List HexField} {pieces : List (List UInt8)} {rest : List UInt8}
    (h : List.Forall₂ (fun field piece ↦ piece.length = field.width ∧
      ∀ c ∈ piece, digitValue c < 16) fields pieces) : FillsFields fields pieces rest := by
  induction h with
  | nil => trivial
  | @cons field piece fields pieces hpiece _ ih =>
    refine ⟨?_, hpiece.2, Nat.le_of_eq hpiece.1, Or.inl hpiece.1, ih⟩
    intro hnil
    have hpos := field.width_pos
    rw [← hpiece.1, hnil] at hpos
    exact absurd hpos (Nat.lt_irrefl 0)

theorem fillsFields_guidPieces (g : SqlGuid) : FillsFields guidFields (guidPieces g) [] := by
  have hfull : ∀ (field : HexField) (n : Nat), n < 16 ^ field.width →
      (hexadecimals field.width n).length = field.width ∧
        ∀ c ∈ hexadecimals field.width n, digitValue c < 16 :=
    fun field n hn ↦ ⟨length_hexadecimals hn, digits_hexadecimals _ _⟩
  have hbyte : ∀ (dash : Bool) (i : Nat) (hi : i < 8), g.data4[i].toNat < 16 ^ (byteField dash).width :=
    fun dash i hi ↦ g.data4[i].toNat_lt
  refine fillsFields_of_full ?_
  exact .cons (hfull longField _ g.data1.toNat_lt) (.cons (hfull shortField _ g.data2.toNat_lt)
    (.cons (hfull shortField _ g.data3.toNat_lt) (.cons (hfull _ _ (hbyte true 0 (by decide)))
    (.cons (hfull _ _ (hbyte false 1 (by decide))) (.cons (hfull _ _ (hbyte true 2 (by decide)))
    (.cons (hfull _ _ (hbyte false 3 (by decide))) (.cons (hfull _ _ (hbyte false 4 (by decide)))
    (.cons (hfull _ _ (hbyte false 5 (by decide))) (.cons (hfull _ _ (hbyte false 6 (by decide)))
    (.cons (hfull _ _ (hbyte false 7 (by decide))) .nil))))))))))

/-- The text of a GUID is read as that GUID. -/
theorem char2guid_guidText (g old : SqlGuid) : char2guid (guidText g) old = some (true, g) := by
  have hloop := @sscanfLoop_pieces guidFields (guidPieces g) [] 0 [] (fillsFields_guidPieces g)
  rw [← guidFmt_eq, ← guidArgs_eq, ← guidText_eq, List.nil_append] at hloop
  have hstored : ∀ i n old, g.numbers[i]? = some n → storedNat
      ((guidPieces g).map fun piece ↦ .num (baseValue 16 piece : Nat)) i old = n := by
    intro i n old hn
    have hi : i < guidFields.length := (List.getElem?_eq_some_iff.1 hn).1
    rw [storedNat, List.getElem?_map, guidPieces, List.getElem?_zipWith,
      List.getElem?_eq_getElem hi, hn]
    exact baseValue_hexadecimals _ n
  have hdata4 : (Vector.ofFn fun i : Fin 8 ↦ UInt8.ofNat (storedNat
      ((guidPieces g).map fun piece ↦ .num (baseValue 16 piece : Nat)) (3 + i)
        old.data4[i].toNat)) = g.data4 := by
    refine Vector.ext fun i hi ↦ ?_
    rw [Vector.getElem_ofFn, hstored (3 + i) g.data4[i].toNat _ ?_, UInt8.ofNat_toNat]
    interval_cases i
    all_goals rfl
  rw [char2guid, secureSscanf, hloop, Option.map_some]
  dsimp only
  rw [hdata4, hstored 0 g.data1.toNat _ rfl, hstored 1 g.data2.toNat _ rfl,
    hstored 2 g.data3.toNat _ rfl, UInt32.ofNat_toNat, UInt16.ofNat_toNat, UInt16.ofNat_toNat,
    if_neg (by decide)]

/-! ## Groups of digits -/

/-- Five groups with dashes between them. -/
def dashedGroups (g₁ g₂ g₃ g₄ g₅ : List UInt8) : List UInt8 :=
  g₁ ++ 0x2d :: (g₂ ++ 0x2d :: (g₃ ++ 0x2d :: (g₄ ++ 0x2d :: g₅)))

/-- The pieces of two digits at the head of a text. -/
def bytePieces : Nat → List UInt8 → List (List UInt8)
  | 0, _ => []
  | n + 1, ds => ds.take 2 :: bytePieces n (ds.drop 2)

theorem joinPieces_bytePieces (n : Nat) (ds : List UInt8) :
    joinPieces (List.replicate n (byteField false)) (bytePieces n ds) (ds.drop (2 * n)) = ds := by
  induction n generalizing ds with
  | zero => rfl
  | succ n ih =>
    have hdrop : ds.drop (2 * (n + 1)) = (ds.drop 2).drop (2 * n) := by
      rw [List.drop_drop, Nat.mul_succ, Nat.add_comm]
    rw [List.replicate_succ, bytePieces, joinPieces, hdrop, ih (ds.drop 2)]
    exact List.take_append_drop 2 ds

/-- All but the last of the pieces are of two digits. -/
theorem fillsFields_bytePieces {n : Nat} {ds : List UInt8} (hds : ∀ c ∈ ds, digitValue c < 16)
    (hlen : 2 * n ≤ ds.length + 1) :
    FillsFields (List.replicate n (byteField false)) (bytePieces n ds) (ds.drop (2 * n)) := by
  induction n generalizing ds with
  | zero => trivial
  | succ n ih =>
    have hdrop : ds.drop (2 * (n + 1)) = (ds.drop 2).drop (2 * n) := by
      rw [List.drop_drop, Nat.mul_succ, Nat.add_comm]
    rw [List.replicate_succ, bytePieces, hdrop]
    refine ⟨?_, fun c hc ↦ hds c (List.mem_of_mem_take hc), List.length_take_le _ _, ?_,
      ih (fun c hc ↦ hds c (List.mem_of_mem_drop hc)) (by rw [List.length_drop]; omega)⟩
    · intro hnil
      rw [List.take_eq_nil_iff] at hnil
      rcases hnil with h | h
      · cases h
      · rw [h, List.length_nil] at hlen
        omega
    · rw [joinPieces_bytePieces, List.length_take]
      by_cases htwo : 2 ≤ ds.length
      · exact Or.inl (Nat.min_eq_left htwo)
      · rw [List.drop_eq_nil_of_le (by omega)]
        exact Or.inr fun c hc ↦ by cases hc

/-- Groups of these lengths are read. -/
theorem char2guid_groups {g₁ g₂ g₃ g₄ g₅ : List UInt8}
    (hdigits : ∀ c ∈ g₁ ++ (g₂ ++ (g₃ ++ (g₄ ++ g₅))), digitValue c < 16)
    (h₁ : g₁ ≠ [] ∧ g₁.length ≤ 8) (h₂ : g₂ ≠ [] ∧ g₂.length ≤ 4) (h₃ : g₃ ≠ [] ∧ g₃.length ≤ 4)
    (h₄ : g₄.length = 3 ∨ g₄.length = 4) (h₅ : 11 ≤ g₅.length) (old : SqlGuid) :
    ∃ g, char2guid (dashedGroups g₁ g₂ g₃ g₄ g₅) old = some (true, g) := by
  have hd : (∀ c ∈ g₁, digitValue c < 16) ∧ (∀ c ∈ g₂, digitValue c < 16) ∧
      (∀ c ∈ g₃, digitValue c < 16) ∧ (∀ c ∈ g₄, digitValue c < 16) ∧ ∀ c ∈ g₅, digitValue c < 16 := by
    simpa only [List.forall_mem_append] using hdigits
  have hdash : ∀ (s : List UInt8), ∀ c ∈ (0x2d :: s).head?, c = 0x2d :=
    fun s c hc ↦ (Option.some.inj hc).symm
  have hbytes : (g₅.drop 2).drop (2 * 5) = g₅.drop 12 := List.drop_drop
  have hfills : FillsFields guidFields
      (g₁ :: g₂ :: g₃ :: g₄.take 2 :: g₄.drop 2 :: g₅.take 2 :: bytePieces 5 (g₅.drop 2))
      (g₅.drop 12) := by
    refine ⟨h₁.1, hd.1, h₁.2, Or.inr (hdash _), h₂.1, hd.2.1, h₂.2, Or.inr (hdash _),
      h₃.1, hd.2.2.1, h₃.2, Or.inr (hdash _), ?_, ?_, List.length_take_le _ _, Or.inl ?_,
      ?_, ?_, ?_, Or.inr (hdash _), ?_, ?_, List.length_take_le _ _, Or.inl ?_, ?_⟩
    · exact List.ne_nil_of_length_pos (by rw [List.length_take]; omega)
    · exact fun c hc ↦ hd.2.2.2.1 c (List.mem_of_mem_take hc)
    · exact List.length_take_of_le (by omega)
    · exact List.ne_nil_of_length_pos (by rw [List.length_drop]; omega)
    · exact fun c hc ↦ hd.2.2.2.1 c (List.mem_of_mem_drop hc)
    · change (g₄.drop 2).length ≤ 2
      rw [List.length_drop]
      omega
    · exact List.ne_nil_of_length_pos (by rw [List.length_take]; omega)
    · exact fun c hc ↦ hd.2.2.2.2 c (List.mem_of_mem_take hc)
    · exact List.length_take_of_le (by omega)
    · rw [← hbytes]
      exact fillsFields_bytePieces (fun c hc ↦ hd.2.2.2.2 c (List.mem_of_mem_drop hc))
        (by rw [List.length_drop]; omega)
  have hjoin : joinPieces guidFields
      (g₁ :: g₂ :: g₃ :: g₄.take 2 :: g₄.drop 2 :: g₅.take 2 :: bytePieces 5 (g₅.drop 2))
      (g₅.drop 12) = dashedGroups g₁ g₂ g₃ g₄ g₅ := by
    have htail := joinPieces_bytePieces 5 (g₅.drop 2)
    rw [hbytes] at htail
    change g₁ ++ 0x2d :: (g₂ ++ 0x2d :: (g₃ ++ 0x2d :: (g₄.take 2 ++ (g₄.drop 2 ++ 0x2d :: (g₅.take 2 ++
      joinPieces (List.replicate 5 (byteField false)) (bytePieces 5 (g₅.drop 2)) (g₅.drop 12)))))) = _
    rw [htail, List.take_append_drop, ← List.append_assoc (g₄.take 2), List.take_append_drop]
    rfl
  have hloop := @sscanfLoop_pieces guidFields _ _ 0 [] hfills
  rw [← guidFmt_eq, ← guidArgs_eq, hjoin] at hloop
  rw [char2guid, secureSscanf, hloop, Option.map_some]
  dsimp only
  rw [if_neg (by decide)]
  exact ⟨_, rfl⟩

/-! ## The groups of an accepted text -/

section

variable {field next : HexField} {fields : List HexField} {s ds rest : List UInt8}

theorem ReadsFields.inv (h : ReadsFields (field :: fields) s) :
    ∃ number blanks rest, s = field.before ++ (number ++ (blanks ++ rest)) ∧
      number.length ≤ field.width ∧ (∀ c ∈ blanks, isSpace c = true) ∧ number ++ blanks ≠ [] ∧
      (number.length = field.width ∨ startsWithDigit 16 (blanks ++ rest) = false) ∧
      ReadsFields fields rest := by
  cases h with
  | cons width chars space some ends behind =>
    exact ⟨_, _, _, rfl, width, space, some, ends, behind⟩

/-- The dashes of the fields are there. -/
theorem ReadsFields.dashes (h : ReadsFields fields s) :
    fields.countP (·.dash) ≤ s.count 0x2d := by
  induction h with
  | nil rest => exact Nat.zero_le _
  | @cons field fields number blanks rest width chars space some ends behind ih =>
    rw [List.countP_cons, List.count_append, List.count_append, List.count_append, HexField.before]
    split_ifs
    · rw [List.count_singleton_self]
      omega
    · omega

/-- Where no more dashes are there than are needed, a field takes digits, as many as it can. -/
theorem ReadsFields.digits (h : ReadsFields (field :: fields) (field.before ++ (ds ++ rest)))
    (hds : ∀ c ∈ ds, digitValue c < 16) (hrest : ∀ c ∈ rest.head?, c = 0x2d)
    (hdashes : rest.count 0x2d ≤ fields.countP (·.dash)) :
    ds ≠ [] ∧ ReadsFields fields (ds.drop field.width ++ rest) := by
  obtain ⟨number, blanks, behind, heq, hwidth, hspace, hsome, hends, hreads⟩ := h.inv
  have heq := List.append_cancel_left heq
  have hneeded := hreads.dashes
  have hdigits : ds.count 0x2d = 0 := by
    rw [List.count_eq_zero]
    intro hmem
    exact absurd (hds _ hmem) (by decide)
  have hcount := congrArg (List.count 0x2d) heq
  rw [List.count_append, List.count_append, List.count_append, hdigits] at hcount
  have hnumber : (0x2d : UInt8) ∉ number := List.count_eq_zero.1 (by omega)
  obtain ⟨t, rfl, htail⟩ : ∃ t, ds = number ++ t ∧ blanks ++ behind = t ++ rest := by
    rcases List.append_eq_append_iff.1 heq with ⟨t, rfl, ht⟩ | ⟨t, hds', ht⟩
    · cases t with
      | nil => exact ⟨[], by rw [List.append_nil, List.append_nil], ht.symm⟩
      | cons c t =>
        have hc : c = 0x2d := hrest c (by rw [ht]; rfl)
        exact absurd (List.mem_append_right _ (hc ▸ List.mem_cons_self)) hnumber
    · exact ⟨t, hds', ht⟩
  have hblanks : blanks = [] := by
    cases blanks with
    | nil => rfl
    | cons c blanks =>
      have hc := hspace c List.mem_cons_self
      exfalso
      cases t with
      | nil =>
        have hdash : c = 0x2d := hrest c (by rw [List.nil_append] at htail; rw [← htail]; rfl)
        rw [hdash] at hc
        exact absurd hc (by decide)
      | cons d t =>
        have hhead : c = d := (List.cons.inj htail).1
        have hd := isSpace_of_digit (hds d (List.mem_append_right _ List.mem_cons_self))
        rw [← hhead, hc] at hd
        cases hd
  subst hblanks
  rw [List.append_nil] at hsome
  rw [List.nil_append] at htail hends
  have hdrop : (number ++ t).drop field.width = t := by
    rcases hends with hfull | hend
    · exact List.drop_left' hfull
    · rw [htail] at hend
      cases t with
      | nil => rw [List.append_nil]; exact List.drop_eq_nil_of_le hwidth
      | cons d t =>
        have hd := hds d (List.mem_append_right _ List.mem_cons_self)
        exact absurd hd (of_decide_eq_false hend)
  rw [hdrop, ← htail]
  exact ⟨List.append_ne_nil_of_left_ne_nil hsome t, hreads⟩

/-- A field with a dash before it begins behind the digits. -/
theorem ReadsFields.nil_of_dash (h : ReadsFields (field :: fields) (ds ++ rest))
    (hdash : field.dash = true) (hds : ∀ c ∈ ds, digitValue c < 16) : ds = [] := by
  obtain ⟨number, blanks, behind, heq, -⟩ := h.inv
  rw [HexField.before, if_pos hdash] at heq
  cases ds with
  | nil => rfl
  | cons c ds =>
    have hc := hds c List.mem_cons_self
    rw [(List.cons.inj heq).1] at hc
    exact absurd hc (by decide)

/-- The digits before a dash are those of one field. -/
theorem ReadsFields.group (h : ReadsFields (field :: next :: fields) (field.before ++ (ds ++ 0x2d :: s)))
    (hdash : next.dash = true) (hds : ∀ c ∈ ds, digitValue c < 16)
    (hdashes : s.count 0x2d ≤ fields.countP (·.dash)) :
    ds ≠ [] ∧ ds.length ≤ field.width ∧ ReadsFields (next :: fields) (0x2d :: s) := by
  have hcount : (0x2d :: s).count 0x2d ≤ (next :: fields).countP (·.dash) := by
    rw [List.count_cons_self, List.countP_cons, if_pos hdash]
    exact Nat.succ_le_succ hdashes
  obtain ⟨hne, hrest⟩ := h.digits hds (fun c hc ↦ (Option.some.inj hc).symm) hcount
  have hnil := hrest.nil_of_dash hdash fun c hc ↦ hds c (List.mem_of_mem_drop hc)
  rw [hnil] at hrest
  exact ⟨hne, List.drop_eq_nil_iff.1 hnil, hrest⟩

theorem ReadsFields.bytes {n : Nat} (h : ReadsFields (List.replicate n (byteField false)) ds)
    (hds : ∀ c ∈ ds, digitValue c < 16) : 2 * n ≤ ds.length + 1 := by
  induction n generalizing ds with
  | zero => exact Nat.zero_le _
  | succ n ih =>
    rw [List.replicate_succ, ← List.append_nil ds] at h
    have hfield : ReadsFields (byteField false :: List.replicate n (byteField false))
        ((byteField false).before ++ (ds ++ [])) := h
    obtain ⟨hne, hrest⟩ := hfield.digits hds (fun c hc ↦ by cases hc) (Nat.zero_le _)
    rw [List.append_nil] at hrest
    have hlen := ih hrest fun c hc ↦ hds c (List.mem_of_mem_drop hc)
    have hpos := List.length_pos_of_ne_nil hne
    change 2 * n ≤ (ds.drop 2).length + 1 at hlen
    rw [List.length_drop] at hlen
    omega

end

theorem readsFields_of_char2guid {text : List UInt8} {old g : SqlGuid}
    (h : char2guid text old = some (true, g)) : ReadsFields guidFields text := by
  rw [char2guid, secureSscanf, guidFmt_eq, guidArgs_eq] at h
  obtain ⟨r, hloop, hr⟩ := Option.map_eq_some_iff.1 h
  obtain ⟨hle, hreads⟩ := readsFields_of_loop hloop
  have hlen : guidFields.length = 11 := rfl
  dsimp only at hr
  split_ifs at hr with hret
  · cases congrArg Prod.fst hr
  · exact hreads (by omega)

/-- The groups of a text that is accepted have these lengths. -/
theorem groups_of_readsFields {g₁ g₂ g₃ g₄ g₅ : List UInt8}
    (hdigits : ∀ c ∈ g₁ ++ (g₂ ++ (g₃ ++ (g₄ ++ g₅))), digitValue c < 16)
    (h : ReadsFields guidFields (dashedGroups g₁ g₂ g₃ g₄ g₅)) :
    (g₁ ≠ [] ∧ g₁.length ≤ 8) ∧ (g₂ ≠ [] ∧ g₂.length ≤ 4) ∧ (g₃ ≠ [] ∧ g₃.length ≤ 4) ∧
      (g₄.length = 3 ∨ g₄.length = 4) ∧ 11 ≤ g₅.length := by
  have hd : (∀ c ∈ g₁, digitValue c < 16) ∧ (∀ c ∈ g₂, digitValue c < 16) ∧
      (∀ c ∈ g₃, digitValue c < 16) ∧ (∀ c ∈ g₄, digitValue c < 16) ∧ ∀ c ∈ g₅, digitValue c < 16 := by
    simpa only [List.forall_mem_append] using hdigits
  have hnone : ∀ ds : List UInt8, (∀ c ∈ ds, digitValue c < 16) → ds.count 0x2d = 0 := by
    intro ds hds
    rw [List.count_eq_zero]
    intro hmem
    exact absurd (hds _ hmem) (by decide)
  have hcount₄ : g₅.count 0x2d ≤ 0 := Nat.le_of_eq (hnone g₅ hd.2.2.2.2)
  have hcount₃ : (g₄ ++ 0x2d :: g₅).count 0x2d ≤ 1 := by
    rw [List.count_append, List.count_cons_self, hnone g₄ hd.2.2.2.1]
    omega
  have hcount₂ : (g₃ ++ 0x2d :: (g₄ ++ 0x2d :: g₅)).count 0x2d ≤ 2 := by
    rw [List.count_append, List.count_cons_self, hnone g₃ hd.2.2.1]
    omega
  have hcount₁ : (g₂ ++ 0x2d :: (g₃ ++ 0x2d :: (g₄ ++ 0x2d :: g₅))).count 0x2d ≤ 3 := by
    rw [List.count_append, List.count_cons_self, hnone g₂ hd.2.1]
    omega
  obtain ⟨hne₁, hlen₁, h⟩ := @ReadsFields.group longField _ _ _ _ h rfl hd.1 hcount₁
  obtain ⟨hne₂, hlen₂, h⟩ := @ReadsFields.group shortField _ _ _ _ h rfl hd.2.1 hcount₂
  obtain ⟨hne₃, hlen₃, h⟩ := @ReadsFields.group shortField _ _ _ _ h rfl hd.2.2.1 hcount₃
  obtain ⟨-, h⟩ := @ReadsFields.digits (byteField true) _ _ _ h hd.2.2.2.1
    (fun c hc ↦ (Option.some.inj hc).symm) (by rw [List.count_cons_self]; exact Nat.succ_le_succ hcount₄)
  obtain ⟨hne₄, hlen₄, h⟩ := @ReadsFields.group (byteField false) _ _ _ _ h rfl
    (fun c hc ↦ hd.2.2.2.1 c (List.mem_of_mem_drop hc)) hcount₄
  have hlast : ReadsFields (byteField true :: List.replicate 5 (byteField false))
      ((byteField true).before ++ (g₅ ++ [])) := by
    rw [List.append_nil]
    exact h
  obtain ⟨hne₅, hbytes⟩ := hlast.digits hd.2.2.2.2 (fun c hc ↦ by cases hc) (Nat.zero_le _)
  rw [List.append_nil] at hbytes
  have hlen₅ := hbytes.bytes fun c hc ↦ hd.2.2.2.2 c (List.mem_of_mem_drop hc)
  have hpos₄ := List.length_pos_of_ne_nil hne₄
  have hwidth : (byteField true).width = 2 ∧ (byteField false).width = 2 := ⟨rfl, rfl⟩
  rw [List.length_drop, hwidth.1] at hlen₄ hpos₄ hlen₅
  rw [hwidth.2] at hlen₄
  refine ⟨⟨hne₁, hlen₁⟩, ⟨hne₂, hlen₂⟩, ⟨hne₃, hlen₃⟩, ?_, ?_⟩
  · omega
  · omega

/-- The text of a GUID is read as that GUID; a text that is accepted is made of the fields of one, and
one of five groups of digits is accepted just when the groups have these lengths. -/
theorem char2guid_accepts :
    (∀ g old : SqlGuid, char2guid (guidText g) old = some (true, g)) ∧
      (∀ (text : List UInt8) (old g : SqlGuid), char2guid text old = some (true, g) →
        ReadsFields guidFields text) ∧
      ∀ (g₁ g₂ g₃ g₄ g₅ : List UInt8) (old : SqlGuid),
        (∀ c ∈ g₁ ++ (g₂ ++ (g₃ ++ (g₄ ++ g₅))), digitValue c < 16) →
          ((∃ g, char2guid (dashedGroups g₁ g₂ g₃ g₄ g₅) old = some (true, g)) ↔
            (g₁ ≠ [] ∧ g₁.length ≤ 8) ∧ (g₂ ≠ [] ∧ g₂.length ≤ 4) ∧ (g₃ ≠ [] ∧ g₃.length ≤ 4) ∧
              (g₄.length = 3 ∨ g₄.length = 4) ∧ 11 ≤ g₅.length) := by
  refine ⟨char2guid_guidText, fun _ _ _ h ↦ readsFields_of_char2guid h,
    fun g₁ g₂ g₃ g₄ g₅ old hdigits ↦ ⟨?_, ?_⟩⟩
  · rintro ⟨g, h⟩
    exact groups_of_readsFields hdigits (readsFields_of_char2guid h)
  · rintro ⟨h₁, h₂, h₃, h₄, h₅⟩
    exact char2guid_groups hdigits h₁ h₂ h₃ h₄ h₅ old

/-- No GUID at all. -/
def zeroGuid : SqlGuid := ⟨0, 0, 0, .replicate 8 0⟩

theorem char2guid_accepts_long :
    (∃ g, char2guid (dashedGroups (.replicate 8 0x41) (.replicate 4 0x42) (.replicate 4 0x43)
        (.replicate 4 0x44) (.replicate 12 0x45)) zeroGuid = some (true, g)) ↔
      (List.replicate 8 (0x41 : UInt8) ≠ [] ∧ (List.replicate 8 (0x41 : UInt8)).length ≤ 8) ∧
        (List.replicate 4 (0x42 : UInt8) ≠ [] ∧ (List.replicate 4 (0x42 : UInt8)).length ≤ 4) ∧
        (List.replicate 4 (0x43 : UInt8) ≠ [] ∧ (List.replicate 4 (0x43 : UInt8)).length ≤ 4) ∧
        ((List.replicate 4 (0x44 : UInt8)).length = 3 ∨ (List.replicate 4 (0x44 : UInt8)).length = 4) ∧
        11 ≤ (List.replicate 12 (0x45 : UInt8)).length :=
  char2guid_accepts.2.2 _ _ _ _ _ zeroGuid (List.forall_mem_iff_forall_getElem.2 (by decide))

/-- Groups of eight, four, four, four and twelve digits. -/
def HasGuidShape (text : List UInt8) : Prop :=
  ∃ g₁ g₂ g₃ g₄ g₅, text = dashedGroups g₁ g₂ g₃ g₄ g₅ ∧
    (∀ c ∈ g₁ ++ (g₂ ++ (g₃ ++ (g₄ ++ g₅))), digitValue c < 16) ∧
    g₁.length = 8 ∧ g₂.length = 4 ∧ g₃.length = 4 ∧ g₄.length = 4 ∧ g₅.length = 12

/-- `1-2-3-405-60708090A0B`. -/
def shortGuidText : List UInt8 :=
  dashedGroups [0x31] [0x32] [0x33] [0x34, 0x30, 0x35]
    [0x36, 0x30, 0x37, 0x30, 0x38, 0x30, 0x39, 0x30, 0x41, 0x30, 0x42]

theorem not_hasGuidShape_short :
    (∃ g, char2guid shortGuidText zeroGuid = some (true, g)) ∧ ¬HasGuidShape shortGuidText := by
  constructor
  · have hdigits : ([0x31, 0x32, 0x33, 0x34, 0x30, 0x35, 0x36, 0x30, 0x37, 0x30, 0x38, 0x30, 0x39, 0x30,
        0x41, 0x30, 0x42] : List UInt8).all (fun c ↦ digitValue c < 16) = true := by decide
    exact char2guid_groups (fun c hc ↦ of_decide_eq_true (List.all_eq_true.1 hdigits c hc)) (by decide)
      (by decide) (by decide) (by decide) (by decide) zeroGuid
  · rintro ⟨g₁, g₂, g₃, g₄, g₅, heq, -, h₁, h₂, h₃, h₄, h₅⟩
    have hlen := congrArg List.length heq
    simp only [shortGuidText, dashedGroups, List.length_append, List.length_cons, List.length_nil, h₁,
      h₂, h₃, h₄, h₅] at hlen
    omega

end PsqlOdbc
