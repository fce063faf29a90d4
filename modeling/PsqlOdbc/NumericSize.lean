import PsqlOdbc.Convert.QueryParse
import PsqlOdbc.PgTypes

/-!
# Numeric columns without a modifier (`getAtttypmodEtc`)

The scale of such a column is the longest fraction among the cached values, and its size is the
longest value that has been read.  Both go through one integer, 16 bits for the length.
-/

namespace PsqlOdbc

open Lib

/-! ## The driver -/

/-- A column of a result, with its values in the cache. -/
structure ResultColumn where
  fieldType : PgType
  atttypmod : Int
  fieldsize : Int
  /-- The longest value that has been read. -/
  displaySize : Int
  rows : List (Option (List UInt8))

namespace ResultColumn

/-- A value read by `QR_read_a_tuple_from_db`. -/
def readTuple (column : ResultColumn) (value : Option (List UInt8)) : ResultColumn :=
  { column with
    displaySize :=
      match value with
      | none => column.displaySize
      | some text => if column.displaySize < text.length then text.length else column.displaySize
    rows := column.rows ++ [value] }

/-- The cache begins anew. -/
def clearCache (column : ResultColumn) : ResultColumn := { column with rows := [] }

end ResultColumn

/-- The characters behind the point, if there is one. -/
def sval (tval : List UInt8) : ℕ := (tval.dropWhile (· ≠ 46)).tail.length

/-- The loop of `getAtttypmodEtc` over the cached values. -/
def maxscale : ℕ → List (Option (List UInt8)) → ℕ
  | scale, [] => scale
  | scale, none :: rows => maxscale scale rows
  | scale, some tval :: rows => maxscale (if scale < sval tval then sval tval else scale) rows

/-- What the type functions read of a statement, for one column. -/
structure TypeStmt where
  catalogResult : Bool
  /-- Nothing without a result, and for a negative number of the column. -/
  column : Option ResultColumn

namespace TypeStmt

/-- `getAtttypmodEtc`: the modifier, and the size or the longest value.  The latter has the scale in its
upper half for numeric columns. -/
def getAtttypmodEtc (stmt : TypeStmt) : Int × Int :=
  match stmt.column with
  | none => (-1, adtUnset)
  | some column =>
    (column.atttypmod,
      if stmt.catalogResult = true then column.fieldsize
      else if column.fieldType = .numeric ∧ column.atttypmod < 0 ∧ 0 < column.displaySize then
        column.displaySize + wrapSigned 32 (maxscale 0 column.rows * 2 ^ 16)
      else column.displaySize)

/-- `pgtype_scale`. -/
def pgtypeScale (stmt : TypeStmt) (type : PgType) : Int :=
  pgtypeAttrScale type stmt.getAtttypmodEtc.1 stmt.getAtttypmodEtc.2

/-- `pgtype_column_size`. -/
def pgtypeColumnSize (conn : TypeConn) (stmt : TypeStmt) (type : PgType)
    (handleUnknownSizeAs : UnknownsAs) : Int :=
  pgtypeAttrColumnSize conn type stmt.getAtttypmodEtc.1 stmt.getAtttypmodEtc.2
    (if stmt.catalogResult = true then .longest else handleUnknownSizeAs)

end TypeStmt

/-! ## Values -/

/-- A value of the type `numeric`. -/
inductive NumericValue
  | nan
  | infinity (negative : Bool)
  | decimal (negative : Bool) (whole fraction : List UInt8)

namespace NumericValue

/-- Decimal digits, as many as PostgreSQL has at most. -/
def Legal : NumericValue → Prop
  | nan | infinity _ => True
  | decimal _ whole fraction =>
    (0 < whole.length ∧ whole.length ≤ 131072 ∧ ∀ c ∈ whole, 48 ≤ c ∧ c ≤ 57) ∧
      fraction.length ≤ 16383 ∧ ∀ c ∈ fraction, 48 ≤ c ∧ c ≤ 57

/-- The sign of a text. -/
def sign (negative : Bool) : List UInt8 := if negative = true then [45] else []

/-- The text that the server sends. -/
def toText : NumericValue → List UInt8
  | nan => ascii "NaN"
  | infinity negative => sign negative ++ ascii "Infinity"
  | decimal negative whole [] => sign negative ++ whole
  | decimal negative whole (c :: fraction) => sign negative ++ whole ++ 46 :: c :: fraction

/-- The digits after the point. -/
def fractionDigits : NumericValue → ℕ
  | nan | infinity _ => 0
  | decimal _ _ fraction => fraction.length

end NumericValue

/-- A numeric column without a modifier, and the values in its cache. -/
inductive CachedNumeric : ResultColumn → List (Option NumericValue) → Prop
  | start (fieldsize : Int) : CachedNumeric ⟨.numeric, -1, fieldsize, adtUnset, []⟩ []
  | readTuple {column values} (value : Option NumericValue)
      (hvalue : ∀ v, value = some v → v.Legal) (h : CachedNumeric column values) :
      CachedNumeric (column.readTuple (value.map NumericValue.toText)) (values ++ [value])
  | clearCache {column values} (h : CachedNumeric column values) :
      CachedNumeric column.clearCache []

/-! ## What the application may expect -/

/-- The size of another SQL type that stands for the numeric one. -/
def TypeConn.otherTypeSize (conn : TypeConn) : Option Int :=
  match conn.numericAs with
  | .varchar => some conn.maxVarcharSize
  | .longvarchar => some conn.maxLongvarcharSize
  | .double => some 17
  | .other => none

/-- The size for the longest value, without the scale beside it. -/
def TypeConn.longestSize (conn : TypeConn) (longest : Int) : Int :=
  conn.otherTypeSize.getD (if longest ≤ 0 then 28 else max 10 longest)

/-- The scale is the longest fraction, and the size is enough for the longest value. -/
structure NumericSizeRight (conn : TypeConn) (column : ResultColumn)
    (values : List (Option NumericValue)) : Prop where
  scale : ∀ m, IsGreatest {n | ∃ v, some v ∈ values ∧ v.fractionDigits = n} m →
    (⟨false, some column⟩ : TypeStmt).pgtypeScale .numeric = m
  longest : ∀ v, some v ∈ values →
    v.toText.length ≤ (⟨false, some column⟩ : TypeStmt).pgtypeColumnSize conn .numeric .longest
  unchanged : (⟨false, some column⟩ : TypeStmt).pgtypeColumnSize conn .numeric .longest =
    conn.longestSize column.displaySize

/-- The longest value has less than `2 ^ 16` characters. -/
structure NumericFits (conn : TypeConn) (column : ResultColumn)
    (values : List (Option NumericValue)) : Prop where
  short : (conn.otherTypeSize = none ∨ ∃ v, some v ∈ values) → column.displaySize < 2 ^ 16
  otherType : ∀ size, conn.otherTypeSize = some size →
    ∀ v, some v ∈ values → v.toText.length ≤ size

/-! ## Fractions -/

theorem sval_append {front : List UInt8} (h : ∀ c ∈ front, c ≠ 46) (rest : List UInt8) :
    sval (front ++ rest) = sval rest := by
  rw [sval, List.dropWhile_append_of_pos fun c hc ↦ decide_eq_true (h c hc), sval]

theorem sval_eq_zero {tval : List UInt8} (h : ∀ c ∈ tval, c ≠ 46) : sval tval = 0 := by
  rw [← List.append_nil tval, sval_append h]
  rfl

theorem digit_ne_point {digits : List UInt8} (h : ∀ c ∈ digits, 48 ≤ c ∧ c ≤ 57) :
    ∀ c ∈ digits, c ≠ 46 := by
  rintro c hc rfl
  exact absurd (h 46 hc).1 (by decide)

theorem NumericValue.sign_ne_point (negative : Bool) : ∀ c ∈ sign negative, c ≠ 46 := by
  cases negative <;> exact forall_mem_of_all (by decide)

theorem NumericValue.length_sign_le (negative : Bool) : (sign negative).length ≤ 1 := by
  cases negative <;> decide

/-- The characters behind the point are the digits of the fraction. -/
theorem NumericValue.sval_toText {v : NumericValue} (h : v.Legal) :
    sval v.toText = v.fractionDigits := by
  cases v with
  | nan => exact sval_eq_zero (forall_mem_of_all (by decide))
  | infinity negative =>
    rw [toText, sval_append (sign_ne_point negative)]
    exact sval_eq_zero (forall_mem_of_all (by decide))
  | decimal negative whole fraction =>
    obtain ⟨⟨-, -, hwhole⟩, -⟩ := h
    cases fraction with
    | nil =>
      rw [toText, sval_append (sign_ne_point negative)]
      exact sval_eq_zero (digit_ne_point hwhole)
    | cons c fraction =>
      rw [toText, List.append_assoc, sval_append (sign_ne_point negative),
        sval_append (digit_ne_point hwhole)]
      rfl

/-- The texts of PostgreSQL are not empty, and not too long for an `int` with the scale. -/
theorem NumericValue.length_toText {v : NumericValue} (h : v.Legal) :
    0 < v.toText.length ∧ v.toText.length ≤ 147457 := by
  cases v with
  | nan => decide
  | infinity negative => cases negative <;> decide
  | decimal negative whole fraction =>
    obtain ⟨⟨hpos, hwhole, -⟩, hfraction, -⟩ := h
    have hsign := length_sign_le negative
    cases fraction with
    | nil =>
      rw [toText, List.length_append]
      omega
    | cons c fraction =>
      rw [toText, List.length_append, List.length_append, List.length_cons]
      omega

theorem NumericValue.fractionDigits_le {v : NumericValue} (h : v.Legal) :
    v.fractionDigits ≤ 16383 := by
  cases v with
  | nan | infinity => exact Nat.zero_le _
  | decimal negative whole fraction => exact h.2.1

/-- The loop does not lose the greatest value. -/
theorem le_maxscale (scale : ℕ) (rows : List (Option (List UInt8))) :
    scale ≤ maxscale scale rows ∧ ∀ tval, some tval ∈ rows → sval tval ≤ maxscale scale rows := by
  induction rows generalizing scale with
  | nil => exact ⟨le_rfl, nofun⟩
  | cons row rows ih =>
    cases row with
    | none =>
      obtain ⟨hle, hrows⟩ := ih scale
      refine ⟨hle, fun tval hmem ↦ hrows tval ?_⟩
      exact (List.mem_cons.1 hmem).resolve_left nofun
    | some row =>
      obtain ⟨hle, hrows⟩ := ih (if scale < sval row then sval row else scale)
      rw [maxscale]
      refine ⟨le_trans ?_ hle, fun tval hmem ↦ ?_⟩
      · split_ifs with hlt
        · exact hlt.le
        · exact le_rfl
      · rcases List.mem_cons.1 hmem with heq | hmem
        · obtain rfl := Option.some.inj heq
          refine le_trans ?_ hle
          split_ifs with hlt
          · exact le_rfl
          · exact Nat.not_lt.1 hlt
        · exact hrows tval hmem

/-- It finds one of the values. -/
theorem maxscale_mem (scale : ℕ) (rows : List (Option (List UInt8))) :
    maxscale scale rows = scale ∨ ∃ tval, some tval ∈ rows ∧ maxscale scale rows = sval tval := by
  induction rows generalizing scale with
  | nil => exact .inl rfl
  | cons row rows ih =>
    cases row with
    | none =>
      rcases ih scale with heq | ⟨tval, hmem, heq⟩
      · exact .inl heq
      · exact .inr ⟨tval, List.mem_cons_of_mem _ hmem, heq⟩
    | some row =>
      rw [maxscale]
      rcases ih (if scale < sval row then sval row else scale) with heq | ⟨tval, hmem, heq⟩
      · rw [heq]
        split_ifs
        · exact .inr ⟨row, List.mem_cons_self, rfl⟩
        · exact .inl rfl
      · exact .inr ⟨tval, List.mem_cons_of_mem _ hmem, heq⟩

/-! ## Columns as they are read -/

/-- What is known of a column: the longest value has been measured, if there is one. -/
structure NumericMeasured (column : ResultColumn) (values : List (Option NumericValue)) : Prop where
  fieldType : column.fieldType = .numeric
  atttypmod : column.atttypmod = -1
  rows : column.rows = values.map (·.map NumericValue.toText)
  legal : ∀ v, some v ∈ values → v.Legal
  displaySize : column.displaySize = -3 ∧ (∀ v, some v ∉ values) ∨
    (0 < column.displaySize ∧ column.displaySize ≤ 147457) ∧
      ∀ v, some v ∈ values → v.toText.length ≤ column.displaySize

theorem NumericMeasured.readTuple {column : ResultColumn} {values : List (Option NumericValue)}
    (h : NumericMeasured column values) {value : Option NumericValue}
    (hvalue : ∀ v, value = some v → v.Legal) :
    NumericMeasured (column.readTuple (value.map NumericValue.toText)) (values ++ [value]) where
  fieldType := h.fieldType
  atttypmod := h.atttypmod
  rows := by
    rw [List.map_append, ← h.rows]
    rfl
  legal v hv := by
    rcases List.mem_append.1 hv with hv | hv
    · exact h.legal v hv
    · exact hvalue v (List.mem_singleton.1 hv).symm
  displaySize := by
    cases value with
    | none =>
      have hmem : ∀ v, some v ∈ values ++ [none] ↔ some v ∈ values := by
        intro v
        rw [List.mem_append, List.mem_singleton, or_iff_left nofun]
      simp only [hmem]
      exact h.displaySize
    | some value =>
      obtain ⟨hpos, hle⟩ := NumericValue.length_toText (hvalue value rfl)
      have hold : ∀ v, some v ∈ values → v.toText.length ≤ column.displaySize := by
        rcases h.displaySize with ⟨-, hnone⟩ | ⟨-, hold⟩
        · exact fun v hv ↦ (hnone v hv).elim
        · exact hold
      have hbound : column.displaySize ≤ 147457 := by
        rcases h.displaySize with ⟨heq, -⟩ | ⟨⟨-, hbound⟩, -⟩
        · omega
        · exact hbound
      have hsize : (column.readTuple ((some value).map NumericValue.toText)).displaySize =
          if column.displaySize < value.toText.length then (value.toText.length : Int)
          else column.displaySize := rfl
      refine .inr ?_
      rw [hsize]
      refine ⟨by split_ifs <;> omega, fun v hv ↦ ?_⟩
      rcases List.mem_append.1 hv with hv | hv
      · have hvle := hold v hv
        split_ifs <;> omega
      · obtain rfl := Option.some.inj (List.mem_singleton.1 hv)
        split_ifs <;> omega

/-- All columns are measured. -/
theorem CachedNumeric.measured {column : ResultColumn} {values : List (Option NumericValue)}
    (h : CachedNumeric column values) : NumericMeasured column values := by
  induction h with
  | start fieldsize => exact ⟨rfl, rfl, rfl, nofun, .inl ⟨rfl, nofun⟩⟩
  | readTuple value hvalue h ih => exact ih.readTuple hvalue
  | clearCache h ih =>
    refine ⟨ih.fieldType, ih.atttypmod, rfl, nofun, ?_⟩
    rcases ih.displaySize with ⟨heq, -⟩ | ⟨hbound, -⟩
    · exact .inl ⟨heq, nofun⟩
    · exact .inr ⟨hbound, nofun⟩

section

variable {column : ResultColumn} {values : List (Option NumericValue)}

theorem NumericMeasured.mem_rows (h : NumericMeasured column values) {tval : List UInt8} :
    some tval ∈ column.rows ↔ ∃ v, some v ∈ values ∧ v.toText = tval := by
  rw [h.rows, List.mem_map]
  constructor
  · rintro ⟨value, hmem, heq⟩
    obtain ⟨v, rfl, rfl⟩ := Option.map_eq_some_iff.1 heq
    exact ⟨v, hmem, rfl⟩
  · rintro ⟨v, hmem, rfl⟩
    exact ⟨some v, hmem, rfl⟩

/-- The loop finds the longest fraction. -/
theorem NumericMeasured.isGreatest (h : NumericMeasured column values)
    (hvalue : ∃ v, some v ∈ values) :
    IsGreatest {n | ∃ v, some v ∈ values ∧ v.fractionDigits = n} (maxscale 0 column.rows) := by
  have hle : ∀ v, some v ∈ values → v.fractionDigits ≤ maxscale 0 column.rows := by
    intro v hv
    rw [← NumericValue.sval_toText (h.legal v hv)]
    exact (le_maxscale 0 column.rows).2 _ (h.mem_rows.2 ⟨v, hv, rfl⟩)
  refine ⟨?_, ?_⟩
  · rcases maxscale_mem 0 column.rows with heq | ⟨tval, hmem, heq⟩
    · obtain ⟨v, hv⟩ := hvalue
      have hv' := hle v hv
      exact ⟨v, hv, by omega⟩
    · obtain ⟨v, hv, rfl⟩ := h.mem_rows.1 hmem
      exact ⟨v, hv, by rw [heq, NumericValue.sval_toText (h.legal v hv)]⟩
  · rintro n ⟨v, hv, rfl⟩
    exact hle v hv

theorem NumericMeasured.maxscale_le (h : NumericMeasured column values) :
    maxscale 0 column.rows ≤ 16383 := by
  rcases maxscale_mem 0 column.rows with heq | ⟨tval, hmem, heq⟩
  · omega
  · obtain ⟨v, hv, rfl⟩ := h.mem_rows.1 hmem
    rw [heq, NumericValue.sval_toText (h.legal v hv)]
    exact NumericValue.fractionDigits_le (h.legal v hv)

/-- What the scale and the longest value become together. -/
theorem NumericMeasured.getAtttypmodEtc (h : NumericMeasured column values) :
    (⟨false, some column⟩ : TypeStmt).getAtttypmodEtc = (-1,
      if 0 < column.displaySize then column.displaySize + maxscale 0 column.rows * 2 ^ 16
      else column.displaySize) := by
  have hscale := h.maxscale_le
  rw [TypeStmt.getAtttypmodEtc]
  dsimp only
  rw [if_neg Bool.false_ne_true, h.atttypmod]
  by_cases hpos : 0 < column.displaySize
  · rw [if_pos ⟨h.fieldType, by decide, hpos⟩, if_pos hpos,
      wrapSigned_of_lt (by decide) (by omega) (by omega)]
  · rw [if_neg fun hand ↦ hpos hand.2.2, if_neg hpos]

/-- The scale is too large by what the length has more than 16 bits. -/
theorem NumericMeasured.scale_eq (h : NumericMeasured column values)
    (hpos : 0 < column.displaySize) :
    (⟨false, some column⟩ : TypeStmt).pgtypeScale .numeric =
      maxscale 0 column.rows + column.displaySize / 2 ^ 16 := by
  have hscale := h.maxscale_le
  have hbound : column.displaySize ≤ 147457 := by
    rcases h.displaySize with ⟨heq, -⟩ | ⟨⟨-, hbound⟩, -⟩
    · omega
    · exact hbound
  have hdiv : (column.displaySize + maxscale 0 column.rows * 2 ^ 16) / 2 ^ 16 =
      column.displaySize / 2 ^ 16 + maxscale 0 column.rows :=
    Int.add_mul_ediv_right _ _ (by decide)
  rw [TypeStmt.pgtypeScale, h.getAtttypmodEtc]
  dsimp only
  rw [if_pos hpos, pgtypeAttrScale, getNumericDecimalDigitsX, if_neg (by omega), if_neg (by omega),
    if_neg (by omega), hdiv, wrapSigned_of_lt (by decide) (by omega) (by omega)]
  omega

/-- The size has lost what the scale has got. -/
theorem NumericMeasured.columnSize_eq (h : NumericMeasured column values) (conn : TypeConn) :
    (⟨false, some column⟩ : TypeStmt).pgtypeColumnSize conn .numeric .longest =
      conn.otherTypeSize.getD
        (if column.displaySize ≤ 0 then 28 else max 10 (column.displaySize % 2 ^ 16)) := by
  rw [TypeStmt.pgtypeColumnSize, h.getAtttypmodEtc]
  dsimp only
  rw [if_neg Bool.false_ne_true, pgtypeAttrColumnSize, getNumericColumnSizeX, if_neg (by decide),
    TypeConn.otherTypeSize]
  cases conn.numericAs with
  | varchar | longvarchar | double => rfl
  | other =>
    dsimp only
    rw [if_neg nofun, Option.getD_none]
    by_cases hpos : 0 < column.displaySize
    · have hmod : (column.displaySize + maxscale 0 column.rows * 2 ^ 16) % 2 ^ 16 =
          column.displaySize % 2 ^ 16 := Int.add_mul_emod_self_right _ _ _
      rw [if_pos hpos, if_neg (by omega), if_neg nofun, hmod, if_neg (Int.not_le.2 hpos)]
      split_ifs <;> omega
    · rw [if_neg hpos, if_pos (by omega), if_pos (by omega)]

/-- Scale and size are right if the longest value fits in 16 bits. -/
theorem numericSizeRight_iff (h : CachedNumeric column values) (conn : TypeConn) :
    NumericSizeRight conn column values ↔ NumericFits conn column values := by
  have hmeasured := h.measured
  have hsize := hmeasured.columnSize_eq conn
  have hvalues : ∀ v, some v ∈ values → 0 < column.displaySize ∧
      (v.toText.length : Int) ≤ column.displaySize := by
    intro v hv
    rcases hmeasured.displaySize with ⟨-, hnone⟩ | ⟨⟨hpos, -⟩, hold⟩
    · exact (hnone v hv).elim
    · exact ⟨hpos, hold v hv⟩
  constructor
  · rintro ⟨hscale, hlongest, hunchanged⟩
    refine ⟨?_, fun size hother v hv ↦ ?_⟩
    · rintro (hother | ⟨v, hv⟩)
      · rw [hsize, TypeConn.longestSize, hother, Option.getD_none, Option.getD_none] at hunchanged
        split_ifs at hunchanged with hle <;> omega
      · have hpos := (hvalues v hv).1
        have heq := hscale _ (hmeasured.isGreatest ⟨v, hv⟩)
        rw [hmeasured.scale_eq hpos] at heq
        omega
    · have hle := hlongest v hv
      rw [hsize, hother, Option.getD_some] at hle
      exact hle
  · rintro ⟨hshort, hother⟩
    refine ⟨fun m hm ↦ ?_, fun v hv ↦ ?_, ?_⟩
    · obtain ⟨⟨v, hv, -⟩, -⟩ := id hm
      have hlt := hshort (.inr ⟨v, hv⟩)
      have hpos := (hvalues v hv).1
      rw [hmeasured.scale_eq hpos, (hmeasured.isGreatest ⟨v, hv⟩).unique hm]
      omega
    · have hlt := hshort (.inr ⟨v, hv⟩)
      obtain ⟨hpos, hle⟩ := hvalues v hv
      rw [hsize]
      cases htype : conn.otherTypeSize with
      | none =>
        rw [Option.getD_none, if_neg (by omega)]
        omega
      | some size => exact hother size htype v hv
    · rw [hsize, TypeConn.longestSize]
      cases htype : conn.otherTypeSize with
      | none =>
        have hlt := hshort (.inl htype)
        rw [Option.getD_none, Option.getD_none]
        split_ifs with hle
        · rfl
        · rw [Int.emod_eq_of_lt (by omega) hlt]
      | some size => rfl

end

/-- A connection with the default settings. -/
def TypeConn.default : TypeConn where
  maxVarcharSize := 255
  maxLongvarcharSize := 8190
  textAsLongvarchar := true
  unknownsAsLongvarchar := false
  boolsAsChar := true
  byteaAsLongvarbinary := true
  numericAs := .other
  unicodeSqlServr := false
  lobjType := .loUndefined
  lobjType_own := .inl rfl
  newerThan74 := true
  maxIdlen := 63

theorem numericSizeRight_small : NumericSizeRight .default
    ((⟨.numeric, -1, -1, adtUnset, []⟩ : ResultColumn).readTuple (some (ascii "-12.345")))
    [some (.decimal true (ascii "12") (ascii "345"))] := by
  have hcached : CachedNumeric ((⟨.numeric, -1, -1, adtUnset, []⟩ : ResultColumn).readTuple
      (some (ascii "-12.345"))) [some (.decimal true (ascii "12") (ascii "345"))] := by
    refine (CachedNumeric.start (-1)).readTuple (some (.decimal true (ascii "12") (ascii "345"))) ?_
    rintro v ⟨⟩
    exact ⟨⟨by decide, by decide, forall_mem_of_all (by decide)⟩,
      by decide, forall_mem_of_all (by decide)⟩
  exact (numericSizeRight_iff hcached _).2 ⟨fun _ ↦ by decide, nofun⟩

/-- An integer of `2 ^ 16` digits has a scale of one. -/
theorem not_numericSizeRight_long : ¬∀ conn column values, CachedNumeric column values →
    NumericSizeRight conn column values := by
  intro hall
  have hlegal : (NumericValue.decimal false (List.replicate 65536 57) []).Legal := by
    refine ⟨⟨?_, ?_, fun c hc ↦ ?_⟩, Nat.zero_le _, nofun⟩
    · rw [List.length_replicate]
      decide
    · rw [List.length_replicate]
      decide
    · rw [List.eq_of_mem_replicate hc]
      decide
  have hcached := (CachedNumeric.start (-1)).readTuple
    (some (.decimal false (List.replicate 65536 57) [])) (by rintro v ⟨⟩; exact hlegal)
  have hsize : ((⟨.numeric, -1, -1, adtUnset, []⟩ : ResultColumn).readTuple
      (some (NumericValue.decimal false (List.replicate 65536 57) []).toText)).displaySize = 65536 := by
    change (if (-3 : Int) < (List.replicate 65536 (57 : UInt8)).length then
      ((List.replicate 65536 (57 : UInt8)).length : Int) else -3) = 65536
    rw [List.length_replicate]
    rfl
  have hunchanged := (hall .default _ _ hcached).unchanged
  rw [hcached.measured.columnSize_eq] at hunchanged
  rw [Option.map_some, hsize] at hunchanged
  exact absurd hunchanged (by decide)

end PsqlOdbc
