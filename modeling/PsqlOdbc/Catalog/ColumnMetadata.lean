import PsqlOdbc.NumericSize

/-!
# Column metadata of the catalog and of results (`info.c`, `columninfo.c`)

`SQLColumns` and a result set both take the type modifier of the server and remove its offset of 4, each
with its own list of types that have none.  `ColumnType.MetadataRight` is what the two should say.
-/

namespace PsqlOdbc

open Lib

/-! ## The driver -/

/-- `PGAPI_Columns` removes the offset of `mod_length`. -/
def columnsModLength (type : PgType) (modLength : Int) : Int :=
  match type with
  | .datetime | .timestampNoTmzone | .time | .timeWithTmzone | .bit => modLength
  | _ => if 4 ≤ modLength then modLength - 4 else modLength

/-- `COLUMNS_PRECISION` of `PGAPI_Columns`. -/
def columnsPrecision (conn : TypeConn) (type : PgType) (modLength : Int) : Int :=
  pgtypeAttrColumnSize conn type (columnsModLength type modLength) adtUnset .max

/-- `COLUMNS_SCALE`. -/
def columnsScale (type : PgType) (modLength : Int) : Int :=
  pgtypeAttrDecimalDigits type (columnsModLength type modLength) adtUnset

/-- `new_atttypmod` of `CI_read_fields_from_pgres`. -/
def newAtttypmod (type : PgType) (fmod : Int) : Int :=
  let atttypmod :=
    match type with
    | .datetime | .timestampNoTmzone | .time | .timeWithTmzone => fmod
    | _ => fmod - 4
  if atttypmod < 0 then -1 else atttypmod

/-- A column as `CI_read_fields_from_pgres` leaves it. -/
def ciReadField (type : PgType) (fsize fmod : Int) : ResultColumn :=
  ⟨type, newAtttypmod type fmod, fsize, adtUnset, []⟩

/-- `pgtype_decimal_digits`. -/
def TypeStmt.pgtypeDecimalDigits (stmt : TypeStmt) (type : PgType) : Int :=
  pgtypeAttrDecimalDigits type stmt.getAtttypmodEtc.1 stmt.getAtttypmodEtc.2

/-! ## Columns as they are declared -/

/-- The types with their modifiers.  The fields of an interval may be missing, as its precision may. -/
inductive ColumnType
  | bpchar (length : Option ℕ)
  | varchar (length : Option ℕ)
  | numeric (precisionScale : Option (ℕ × Int))
  | time (precision : Option ℕ)
  | timestamp (precision : Option ℕ)
  | timestamptz (precision : Option ℕ)
  | bit (length : Option ℕ)
  | interval (fields : Option SqlInterval) (precision : Option ℕ)

/-- The bits of the fields in the modifier of an interval. -/
def intervalMask : Option SqlInterval → Int
  | none => 0x7fff
  | some .month => 0x2
  | some .year => 0x4
  | some .yearToMonth => 0x6
  | some .day => 0x8
  | some .hour => 0x400
  | some .dayToHour => 0x408
  | some .minute => 0x800
  | some .hourToMinute => 0xc00
  | some .dayToMinute => 0xc08
  | some .second => 0x1000
  | some .minuteToSecond => 0x1800
  | some .hourToSecond => 0x1c00
  | some .dayToSecond => 0x1c08

/-- The fields have seconds. -/
def hasSecond : Option SqlInterval → Bool
  | none | some .second | some .minuteToSecond | some .hourToSecond | some .dayToSecond => true
  | _ => false

namespace ColumnType

/-- The modifiers that PostgreSQL allows. -/
def Legal : ColumnType → Prop
  | bpchar length | varchar length => ∀ n ∈ length, 1 ≤ n ∧ n ≤ 10485760
  | numeric precisionScale => ∀ ps ∈ precisionScale,
      (1 ≤ ps.1 ∧ ps.1 ≤ 1000) ∧ -1000 ≤ ps.2 ∧ ps.2 ≤ 1000
  | time precision | timestamp precision | timestamptz precision => ∀ p ∈ precision, p ≤ 6
  | bit length => ∀ n ∈ length, 1 ≤ n ∧ n ≤ 83886080
  | interval fields precision => ∀ p ∈ precision, p ≤ 6 ∧ hasSecond fields = true

/-- The type in `pg_attribute`. -/
def atttypid : ColumnType → PgType
  | bpchar _ => .bpchar
  | varchar _ => .varchar
  | numeric _ => .numeric
  | time _ => .time
  | timestamp _ => .timestampNoTmzone
  | timestamptz _ => .datetime
  | bit _ => .bit
  | interval _ _ => .interval

/-- PostgreSQL's encoding of the modifier. -/
def atttypmod : ColumnType → Int
  | bpchar (some n) | varchar (some n) => n + 4
  | numeric (some (p, s)) => p * 2 ^ 16 + s % 2 ^ 11 + 4
  | time (some p) | timestamp (some p) | timestamptz (some p) => p
  | bit (some n) => n
  | interval fields (some p) => intervalMask fields * 2 ^ 16 + p
  | interval (some fields) none => intervalMask (some fields) * 2 ^ 16 + 0xffff
  | bpchar none | varchar none | numeric none | time none | timestamp none | timestamptz none
  | bit none | interval none none => -1

/-- The declared length, or the precision of a number. -/
def declaredSize : ColumnType → Option Int
  | bpchar length | varchar length | bit length => length.map (↑)
  | numeric precisionScale => precisionScale.map fun ps ↦ (ps.1 : Int)
  | time _ | timestamp _ | timestamptz _ | interval _ _ => none

/-- The declared scale, or the precision of the seconds. -/
def declaredDigits : ColumnType → Option Int
  | numeric precisionScale => precisionScale.map Prod.snd
  | time precision | timestamp precision | timestamptz precision | interval _ precision =>
    precision.map (↑)
  | bpchar _ | varchar _ | bit _ => none

/-- The column of a `SELECT`, before rows are read. -/
def selected (type : ColumnType) (fsize : Int) : TypeStmt :=
  ⟨false, some (ciReadField type.atttypid fsize type.atttypmod)⟩

/-- The catalog and a result say the same, and it is what has been declared. -/
structure MetadataRight (type : ColumnType) (conn : TypeConn) (fsize : Int)
    (unknownSizes : UnknownsAs) : Prop where
  size : columnsPrecision conn type.atttypid type.atttypmod =
    (type.selected fsize).pgtypeColumnSize conn type.atttypid unknownSizes
  digits : columnsScale type.atttypid type.atttypmod =
    (type.selected fsize).pgtypeDecimalDigits type.atttypid
  declaredSize : ∀ n ∈ type.declaredSize,
    columnsPrecision conn type.atttypid type.atttypmod = n
  declaredDigits : ∀ n ∈ type.declaredDigits,
    columnsScale type.atttypid type.atttypmod = n

/-- The scale is not negative, and neither a length of bits nor a precision of an interval is declared.
A few lengths of bits are the size of unknown types by chance. -/
def MetadataFits (conn : TypeConn) (unknownSizes : UnknownsAs) : ColumnType → Prop
  | bpchar _ | varchar _ | time _ | timestamp _ | timestamptz _ => True
  | numeric none => conn.otherTypeSize ≠ none ∨ unknownSizes ≠ .dontknow
  | numeric (some (_, s)) => 0 ≤ s
  | bit none => True
  | bit (some n) => conn.maxsize .bit = n ∧
      (n < 4 ∨ n = 4 ∧ (unknownSizes = .max ∨ unknownSizes = .longest))
  | interval _ precision => precision = none

end ColumnType

/-! ## Modifiers -/

theorem columnsModLength_absent (type : PgType) : columnsModLength type (-1) = -1 := by
  cases type <;> rfl

theorem newAtttypmod_absent (type : PgType) : newAtttypmod type (-1) = -1 := by
  cases type <;> rfl

/-- Both remove the offset of these types. -/
theorem modifier_offset {type : PgType}
    (htype : type = .bpchar ∨ type = .varchar ∨ type = .numeric ∨ type = .interval) {m : Int}
    (hm : 4 ≤ m) : columnsModLength type m = m - 4 ∧ newAtttypmod type m = m - 4 := by
  have hcatalog : columnsModLength type m = if 4 ≤ m then m - 4 else m := by
    rcases htype with rfl | rfl | rfl | rfl <;> rfl
  have hresult : newAtttypmod type m = if m - 4 < 0 then -1 else m - 4 := by
    rcases htype with rfl | rfl | rfl | rfl <;> rfl
  rw [hcatalog, hresult, if_pos hm, if_neg (by omega)]
  exact ⟨rfl, rfl⟩

/-- Both leave these as they are. -/
theorem modifier_time {type : PgType}
    (htype : type = .time ∨ type = .timestampNoTmzone ∨ type = .datetime) {m : Int} (hm : 0 ≤ m) :
    columnsModLength type m = m ∧ newAtttypmod type m = m := by
  have hresult : newAtttypmod type m = if m < 0 then -1 else m := by
    rcases htype with rfl | rfl | rfl <;> rfl
  rw [hresult, if_neg (by omega)]
  rcases htype with rfl | rfl | rfl <;> exact ⟨rfl, rfl⟩

/-! ## Sizes of texts and bits -/

theorem getCharColumnSizeX_absent (conn : TypeConn) (type : PgType) (unknownSizes : UnknownsAs) :
    getCharColumnSizeX conn type (-1) adtUnset unknownSizes = conn.maxsize type := by
  rw [getCharColumnSizeX.eq_def]
  exact if_pos (by decide)

theorem getCharColumnSizeX_declared (conn : TypeConn) {type : PgType}
    (htype : type.mayBeArray = false) {m : Int} (hm : 0 < m) (unknownSizes : UnknownsAs) :
    getCharColumnSizeX conn type m adtUnset unknownSizes = m := by
  rw [getCharColumnSizeX.eq_def]
  dsimp only
  rw [if_neg (by omega), if_neg (fun h ↦ absurd h.2.1 (by decide)), htype,
    if_neg Bool.false_ne_true, if_pos hm]

/-- A length of zero is not known. -/
theorem getCharColumnSizeX_bit (conn : TypeConn) (unknownSizes : UnknownsAs) :
    getCharColumnSizeX conn .bit 0 adtUnset unknownSizes =
      if unknownSizes = .max ∨ unknownSizes = .longest then conn.maxsize .bit else -1 := by
  have hunset : ∀ maxsize : Int, (if maxsize ≤ 0 then maxsize
      else if maxsize < adtUnset then adtUnset else maxsize) = maxsize := by
    intro maxsize
    rw [adtUnset]
    split_ifs <;> omega
  rw [getCharColumnSizeX.eq_def]
  cases unknownSizes with
  | max | longest => exact hunset _
  | dontknow | other => rfl

theorem pgtypeAttrColumnSize_char (conn : TypeConn) {type : PgType}
    (htype : type = .bpchar ∨ type = .varchar ∨ type = .bit) (m longest : Int)
    (unknownSizes : UnknownsAs) : pgtypeAttrColumnSize conn type m longest unknownSizes =
      getCharColumnSizeX conn type m longest unknownSizes := by
  have hlobj : type ≠ conn.lobjType := by
    rcases conn.lobjType_own with hlobj | ⟨typeOid, hlobj⟩
    all_goals
      rw [hlobj]
      rcases htype with rfl | rfl | rfl <;> exact nofun
  have hbytea : ¬(type = .bytea ∧ conn.byteaAsLongvarbinary = true) := by
    rintro ⟨rfl, -⟩
    rcases htype with h | h | h <;> cases h
  have hcase : pgtypeAttrColumnSize conn type m longest unknownSizes =
      if type = conn.lobjType then -4
      else if type = .bytea ∧ conn.byteaAsLongvarbinary = true then -4
      else getCharColumnSizeX conn type m longest unknownSizes := by
    rcases htype with rfl | rfl | rfl <;> rfl
  rw [hcase, if_neg hlobj, if_neg hbytea]

/-! ## One type after the other -/

namespace ColumnType

variable {type : ColumnType} {conn : TypeConn} {fsize : Int} {unknownSizes : UnknownsAs}

theorem getAtttypmodEtc_selected (type : ColumnType) (fsize : Int) :
    (type.selected fsize).getAtttypmodEtc =
      (newAtttypmod type.atttypid type.atttypmod, adtUnset) := by
  rw [TypeStmt.getAtttypmodEtc, selected]
  dsimp only [ciReadField]
  rw [if_neg Bool.false_ne_true, if_neg fun h ↦ absurd h.2.2 (by decide)]

/-- Where both have the same modifier, it is enough to look at one. -/
theorem metadataRight_of_same {m : Int}
    (hcatalog : columnsModLength type.atttypid type.atttypmod = m)
    (hresult : newAtttypmod type.atttypid type.atttypmod = m) :
    type.MetadataRight conn fsize unknownSizes ↔
      pgtypeAttrColumnSize conn type.atttypid m adtUnset .max =
          pgtypeAttrColumnSize conn type.atttypid m adtUnset unknownSizes ∧
        (∀ n ∈ type.declaredSize, pgtypeAttrColumnSize conn type.atttypid m adtUnset .max = n) ∧
        ∀ n ∈ type.declaredDigits, pgtypeAttrDecimalDigits type.atttypid m adtUnset = n := by
  have hsize : (type.selected fsize).pgtypeColumnSize conn type.atttypid unknownSizes =
      pgtypeAttrColumnSize conn type.atttypid m adtUnset unknownSizes := by
    rw [TypeStmt.pgtypeColumnSize, getAtttypmodEtc_selected, hresult]
    rfl
  have hdigits : (type.selected fsize).pgtypeDecimalDigits type.atttypid =
      pgtypeAttrDecimalDigits type.atttypid m adtUnset := by
    rw [TypeStmt.pgtypeDecimalDigits, getAtttypmodEtc_selected, hresult]
  constructor
  · rintro ⟨h, -, hn, hd⟩
    rw [columnsPrecision, hcatalog, hsize] at h
    rw [columnsPrecision, hcatalog] at hn
    rw [columnsScale, hcatalog] at hd
    exact ⟨h, hn, hd⟩
  · rintro ⟨h, hn, hd⟩
    rw [← hcatalog] at hn hd
    refine ⟨?_, ?_, hn, hd⟩
    · rw [columnsPrecision, hcatalog, hsize, h]
    · rw [columnsScale, hcatalog, hdigits]

/-- The length of a text is always right. -/
theorem charRight {length : Option ℕ} (htype : type = bpchar length ∨ type = varchar length)
    (hlegal : type.Legal) : type.MetadataRight conn fsize unknownSizes := by
  have hid : type.atttypid = .bpchar ∨ type.atttypid = .varchar := by
    rcases htype with rfl | rfl
    · exact .inl rfl
    · exact .inr rfl
  have harray : type.atttypid.mayBeArray = false := by
    rcases hid with hid | hid <;> rw [hid] <;> rfl
  have hdigits : type.declaredDigits = none := by
    rcases htype with rfl | rfl <;> rfl
  have hdeclared : type.declaredSize = length.map (↑) := by
    rcases htype with rfl | rfl <;> rfl
  have hchar := @pgtypeAttrColumnSize_char conn type.atttypid (hid.imp_right .inl)
  cases length with
  | none =>
    have hmod : type.atttypmod = -1 := by
      rcases htype with rfl | rfl <;> rfl
    refine (metadataRight_of_same (m := -1) (by rw [hmod, columnsModLength_absent])
      (by rw [hmod, newAtttypmod_absent])).2 ⟨?_, ?_, ?_⟩
    · rw [hchar, hchar, getCharColumnSizeX_absent, getCharColumnSizeX_absent]
    · rw [hdeclared]
      exact nofun
    · rw [hdigits]
      exact nofun
  | some n =>
    have hmod : type.atttypmod = n + 4 := by
      rcases htype with rfl | rfl <;> rfl
    have hpos : 1 ≤ n := by
      rcases htype with rfl | rfl <;> exact (hlegal n rfl).1
    obtain ⟨hcatalog, hresult⟩ := @modifier_offset type.atttypid (hid.imp_right .inl) (n + 4)
      (by omega)
    rw [Int.add_sub_cancel] at hcatalog hresult
    refine (metadataRight_of_same (m := n) (by rw [hmod, hcatalog])
      (by rw [hmod, hresult])).2 ⟨?_, ?_, ?_⟩
    · rw [hchar, hchar, getCharColumnSizeX_declared conn harray (by omega),
        getCharColumnSizeX_declared conn harray (by omega)]
    · rw [hdeclared]
      rintro _ ⟨⟩
      rw [hchar, getCharColumnSizeX_declared conn harray (by omega)]
    · rw [hdigits]
      exact nofun

/-- The precision of seconds is always right. -/
theorem timeRight {precision : Option ℕ}
    (htype : type = time precision ∨ type = timestamp precision ∨ type = timestamptz precision)
    (hlegal : type.Legal) : type.MetadataRight conn fsize unknownSizes := by
  have hid : type.atttypid = .time ∨ type.atttypid = .timestampNoTmzone ∨
      type.atttypid = .datetime := by
    rcases htype with rfl | rfl | rfl
    · exact .inl rfl
    · exact .inr (.inl rfl)
    · exact .inr (.inr rfl)
  have hdeclared : type.declaredSize = none := by
    rcases htype with rfl | rfl | rfl <;> rfl
  have hdigits : type.declaredDigits = precision.map (↑) := by
    rcases htype with rfl | rfl | rfl <;> rfl
  have hsize : ∀ m, pgtypeAttrColumnSize conn type.atttypid m adtUnset .max =
      pgtypeAttrColumnSize conn type.atttypid m adtUnset unknownSizes := by
    intro m
    rcases hid with hid | hid | hid <;> rw [hid] <;> rfl
  have hscale : ∀ m, pgtypeAttrDecimalDigits type.atttypid m adtUnset =
      getTimestampDecimalDigitsX m := by
    intro m
    rcases hid with hid | hid | hid <;> rw [hid] <;> rfl
  cases precision with
  | none =>
    have hmod : type.atttypmod = -1 := by
      rcases htype with rfl | rfl | rfl <;> rfl
    refine (metadataRight_of_same (m := -1) (by rw [hmod, columnsModLength_absent])
      (by rw [hmod, newAtttypmod_absent])).2 ⟨hsize _, ?_, ?_⟩
    · rw [hdeclared]
      exact nofun
    · rw [hdigits]
      exact nofun
  | some p =>
    have hmod : type.atttypmod = p := by
      rcases htype with rfl | rfl | rfl <;> rfl
    have hle : p ≤ 6 := by
      rcases htype with rfl | rfl | rfl <;> exact hlegal p rfl
    obtain ⟨hcatalog, hresult⟩ := @modifier_time type.atttypid hid p (by omega)
    refine (metadataRight_of_same (m := p) (by rw [hmod, hcatalog])
      (by rw [hmod, hresult])).2 ⟨hsize _, ?_, ?_⟩
    · rw [hdeclared]
      exact nofun
    · rw [hdigits]
      rintro _ ⟨⟩
      rw [hscale, getTimestampDecimalDigitsX, if_pos (by omega),
        wrapSigned_of_lt (by decide) (by omega) (by omega)]

/-- Without a modifier the two differ by the setting for unknown sizes. -/
theorem numericRight_absent : (numeric none).MetadataRight conn fsize unknownSizes ↔
    conn.otherTypeSize ≠ none ∨ unknownSizes ≠ .dontknow := by
  rw [metadataRight_of_same (m := -1) (columnsModLength_absent _) (newAtttypmod_absent _),
    and_iff_left ⟨by rintro _ ⟨⟩, by rintro _ ⟨⟩⟩]
  change getNumericColumnSizeX conn (-1) adtUnset .max =
    getNumericColumnSizeX conn (-1) adtUnset unknownSizes ↔ _
  have hunset : -1 < (-1 : Int) → False := by decide
  rw [TypeConn.otherTypeSize]
  cases hother : conn.numericAs with
  | varchar | longvarchar | double =>
    refine iff_of_true ?_ (.inl (by rintro ⟨⟩))
    rw [getNumericColumnSizeX, getNumericColumnSizeX, if_neg hunset, if_neg hunset, hother]
  | other =>
    have hsize : ∀ unknownSizes, getNumericColumnSizeX conn (-1) adtUnset unknownSizes =
        if unknownSizes = .dontknow then -4 else 28 := by
      intro unknownSizes
      rw [getNumericColumnSizeX, if_neg hunset, hother]
      dsimp only
      rw [if_pos (by decide : adtUnset ≤ 0)]
    rw [hsize, hsize, or_iff_right (not_not.2 rfl), if_neg (by rintro ⟨⟩)]
    split_ifs with hunknown
    · exact iff_of_false (by decide) (not_not.2 hunknown)
    · exact iff_of_true rfl hunknown

/-- The mask of the scale does not extend its sign. -/
theorem numericRight_declared {p : ℕ} {s : Int} (hlegal : (numeric (some (p, s))).Legal) :
    (numeric (some (p, s))).MetadataRight conn fsize unknownSizes ↔ 0 ≤ s := by
  obtain ⟨⟨hpos, hp⟩, hle, hs⟩ := hlegal (p, s) rfl
  dsimp only at hpos hp hle hs
  obtain ⟨hcatalog, hresult⟩ := @modifier_offset .numeric (by decide)
    (p * 2 ^ 16 + s % 2 ^ 11 + 4) (by omega)
  rw [Int.add_sub_cancel] at hcatalog hresult
  have hnonneg : -1 < (p : Int) * 2 ^ 16 + s % 2 ^ 11 := by omega
  have hsize : ∀ unknownSizes, pgtypeAttrColumnSize conn .numeric (p * 2 ^ 16 + s % 2 ^ 11)
      adtUnset unknownSizes = p := by
    intro unknownSizes
    rw [pgtypeAttrColumnSize, getNumericColumnSizeX, if_pos hnonneg]
    omega
  have hdigits : pgtypeAttrDecimalDigits .numeric (p * 2 ^ 16 + s % 2 ^ 11) adtUnset =
      s % 2 ^ 11 := by
    rw [pgtypeAttrDecimalDigits, getNumericDecimalDigitsX, if_neg (by omega), if_pos hnonneg,
      wrapSigned_of_lt (by decide) (by omega) (by omega)]
    omega
  rw [@metadataRight_of_same (numeric (some (p, s))) _ _ _ _ hcatalog hresult]
  constructor
  · rintro ⟨-, -, hdeclared⟩
    have heq := hdeclared s rfl
    rw [atttypid, hdigits] at heq
    omega
  · intro hs
    refine ⟨(hsize _).trans (hsize _).symm, ?_, ?_⟩
    · rintro _ ⟨⟩
      exact hsize _
    · rintro _ ⟨⟩
      refine hdigits.trans ?_
      omega

/-- The result takes an offset from the length of bits. -/
theorem bitRight_iff {length : Option ℕ} (hlegal : (bit length).Legal) :
    (bit length).MetadataRight conn fsize unknownSizes ↔
      (bit length).MetadataFits conn unknownSizes := by
  have hchar := @pgtypeAttrColumnSize_char conn .bit (.inr (.inr rfl))
  cases length with
  | none =>
    refine iff_of_true ((metadataRight_of_same (m := -1) (columnsModLength_absent _)
      (newAtttypmod_absent _)).2 ⟨?_, by rintro _ ⟨⟩, by rintro _ ⟨⟩⟩) trivial
    rw [atttypid, hchar, hchar, getCharColumnSizeX_absent, getCharColumnSizeX_absent]
  | some n =>
    obtain ⟨hpos, -⟩ := hlegal n rfl
    have hcatalog : columnsPrecision conn .bit n = n := by
      change pgtypeAttrColumnSize conn .bit n adtUnset .max = n
      rw [hchar, getCharColumnSizeX_declared conn rfl (by omega)]
    have hresult : ((bit (some n)).selected fsize).pgtypeColumnSize conn .bit unknownSizes =
        getCharColumnSizeX conn .bit (if (n : Int) - 4 < 0 then -1 else n - 4) adtUnset
          unknownSizes := by
      rw [TypeStmt.pgtypeColumnSize, getAtttypmodEtc_selected]
      exact hchar _ _ _
    have hright : (bit (some n)).MetadataRight conn fsize unknownSizes ↔
        (n : Int) = getCharColumnSizeX conn .bit (if (n : Int) - 4 < 0 then -1 else n - 4)
          adtUnset unknownSizes := by
      constructor
      · rintro ⟨h, -⟩
        exact hcatalog.symm.trans (h.trans hresult)
      · intro h
        refine ⟨(hcatalog.trans h).trans hresult.symm, ?_, ?_, by rintro _ ⟨⟩⟩
        · rw [TypeStmt.pgtypeDecimalDigits, getAtttypmodEtc_selected]
          rfl
        · rintro _ ⟨⟩
          exact hcatalog
    rw [hright, MetadataFits]
    rcases lt_trichotomy n 4 with hlt | rfl | hlt
    · rw [if_pos (by omega), getCharColumnSizeX_absent, eq_comm, and_iff_left (.inl hlt)]
    · rw [if_neg (by decide)]
      change (4 : Int) = getCharColumnSizeX conn .bit 0 adtUnset unknownSizes ↔ _
      rw [getCharColumnSizeX_bit]
      split_ifs with hunknown
      · rw [eq_comm, and_iff_left (.inr ⟨rfl, hunknown⟩)]
        rfl
      · refine iff_of_false (by decide) ?_
        rintro ⟨-, hlt | ⟨-, hmax⟩⟩
        · exact lt_irrefl 4 hlt
        · exact hunknown hmax
    · rw [if_neg (by omega), getCharColumnSizeX_declared conn rfl (by omega)]
      refine iff_of_false (by omega) ?_
      rintro ⟨-, h⟩
      omega

/-- Both sides are mistaken about the offset of an interval, and do not tell its precision. -/
theorem intervalRight_iff {fields : Option SqlInterval} {precision : Option ℕ} :
    (interval fields precision).MetadataRight conn fsize unknownSizes ↔ precision = none := by
  have hmask : 2 ≤ intervalMask fields := by
    cases fields with
    | none => decide
    | some fields => cases fields <;> decide
  have hsame : ∃ m, columnsModLength .interval (interval fields precision).atttypmod = m ∧
      newAtttypmod .interval (interval fields precision).atttypmod = m := by
    have hoffset : ∀ m, 4 ≤ m → ∃ m', columnsModLength .interval m = m' ∧
        newAtttypmod .interval m = m' :=
      fun m hm ↦ ⟨_, modifier_offset (.inr (.inr (.inr rfl))) hm⟩
    cases precision with
    | some p =>
      have hmod : (interval fields (some p)).atttypmod = intervalMask fields * 2 ^ 16 + p := by
        cases fields <;> rfl
      rw [hmod]
      exact hoffset _ (by omega)
    | none =>
      cases fields with
      | none => exact ⟨-1, rfl, rfl⟩
      | some fields => exact hoffset _ (by rw [atttypmod]; omega)
  obtain ⟨m, hcatalog, hresult⟩ := hsame
  rw [@metadataRight_of_same (interval fields precision) _ _ _ _ hcatalog hresult]
  constructor
  · rintro ⟨-, -, hdigits⟩
    cases precision with
    | none => rfl
    | some p =>
      have heq : (-1 : Int) = p := hdigits p rfl
      omega
  · rintro rfl
    exact ⟨rfl, nofun, nofun⟩

/-- What the catalog and results say is right where the modifiers fit. -/
theorem metadataRight_iff (type : ColumnType) (hlegal : type.Legal) (conn : TypeConn) (fsize : Int)
    (unknownSizes : UnknownsAs) :
    type.MetadataRight conn fsize unknownSizes ↔ type.MetadataFits conn unknownSizes := by
  cases type with
  | bpchar length => exact iff_of_true (charRight (.inl rfl) hlegal) trivial
  | varchar length => exact iff_of_true (charRight (.inr rfl) hlegal) trivial
  | numeric precisionScale =>
    cases precisionScale with
    | none => exact numericRight_absent
    | some ps => exact numericRight_declared hlegal
  | time precision => exact iff_of_true (timeRight (.inl rfl) hlegal) trivial
  | timestamp precision => exact iff_of_true (timeRight (.inr (.inl rfl)) hlegal) trivial
  | timestamptz precision => exact iff_of_true (timeRight (.inr (.inr rfl)) hlegal) trivial
  | bit length => exact bitRight_iff hlegal
  | interval fields precision => exact intervalRight_iff

theorem metadataRight_money : (numeric (some (10, 2))).MetadataRight .default (-1) .max := by
  refine (metadataRight_iff _ ?_ _ _ _).2 (by decide : (0 : Int) ≤ 2)
  rintro _ ⟨⟩
  decide

/-- `bit(8)` has a size of 8 in the catalog and of 4 in a result. -/
theorem not_metadataRight_bit : ¬∀ type : ColumnType, type.Legal → ∀ conn fsize unknownSizes,
    type.MetadataRight conn fsize unknownSizes := by
  intro hall
  have hlegal : (bit (some 8)).Legal := by
    rintro _ ⟨⟩
    decide
  obtain ⟨-, hfits⟩ := (bitRight_iff hlegal).1 (hall _ hlegal .default (-1) .max)
  omega

end ColumnType

end PsqlOdbc
