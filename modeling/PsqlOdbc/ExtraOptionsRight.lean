import PsqlOdbc.ExtraOptions

/-!
# The bits of the extra options and their fields

The bits that have a field are those of the fields, and the others those of `extra_opts`
(`getExtraOptions_eq_iff`).  From this one sees what a call makes of each of them.
-/

namespace PsqlOdbc

open Lib

/-! ## Bits -/

/-- A field is `TRUE`. -/
def fieldTrue (field : Int) : Bool := 0 < field

theorem fieldTrue_iff (field : Int) : fieldTrue field = true ↔ 0 < field := decide_eq_true_iff

section

variable {ci : ExtraInfo} {bit flag : BitVec 32} {field : Int} {k i : Nat}

theorem getLsbD_withField (hk : k < 32) :
    (withField (BitVec.twoPow 32 k) field flag).getLsbD i =
      if i = k then fieldTrue field || (decide (field ≠ 0) && flag.getLsbD i)
      else flag.getLsbD i := by
  rw [withField]
  by_cases hi : i = k
  · subst hi
    rw [if_pos rfl, fieldTrue]
    split
    · next hpos =>
      rw [BitVec.getLsbD_or, BitVec.getLsbD_twoPow]
      simp [hk, hpos]
    · next hpos =>
      split
      · next hzero =>
        rw [BitVec.getLsbD_and, BitVec.getLsbD_not, BitVec.getLsbD_twoPow]
        simp [hk, hzero]
      · next hzero => simp [hpos, hzero]
  · rw [if_neg hi]
    split
    · rw [BitVec.getLsbD_or, BitVec.getLsbD_twoPow]
      simp [Ne.symm hi]
    · split
      · rw [BitVec.getLsbD_and, BitVec.getLsbD_not, BitVec.getLsbD_twoPow]
        by_cases hlt : i < 32
        · simp [Ne.symm hi, hlt]
        · simp [BitVec.getLsbD_of_ge flag i (Nat.not_lt.1 hlt)]
      · rfl

theorem and_twoPow_ne_zero (hk : k < 32) :
    flag &&& BitVec.twoPow 32 k ≠ 0 ↔ flag.getLsbD k = true := by
  rw [BitVec.and_twoPow]
  split
  · next h =>
    refine iff_of_true (fun hzero ↦ ?_) h
    have hbit := congrArg (·.getLsbD k) hzero
    simp [hk] at hbit
  · next h => exact iff_of_false (fun hne ↦ hne rfl) h

end

namespace ExtraOption

/-- The bit of an option. -/
theorem bits : bitForceAbbrevConnstr = BitVec.twoPow 32 0 ∧ bitFakeMss = BitVec.twoPow 32 1 ∧
    bitBdeEnvironment = BitVec.twoPow 32 2 ∧ bitCvtNullDate = BitVec.twoPow 32 3 ∧
    bitAccessibleOnly = BitVec.twoPow 32 4 ∧ bitIgnoreRoundTripTime = BitVec.twoPow 32 5 ∧
    bitDisableKeepalive = BitVec.twoPow 32 6 ∧ bitDisableConvertFunc = BitVec.twoPow 32 7 := by
  decide

theorem exists_place {i : Nat} (hi : i < 8) : ∃ o : ExtraOption, o.place = i := by
  match i with
  | 0 => exact ⟨forceAbbrevConnstr, rfl⟩
  | 1 => exact ⟨fakeMss, rfl⟩
  | 2 => exact ⟨bdeEnvironment, rfl⟩
  | 3 => exact ⟨cvtNullDateString, rfl⟩
  | 4 => exact ⟨accessibleOnly, rfl⟩
  | 5 => exact ⟨ignoreRoundTripTime, rfl⟩
  | 6 => exact ⟨disableKeepalive, rfl⟩
  | 7 => exact ⟨disableConvertFunc, rfl⟩

theorem place_lt (o : ExtraOption) : o.place < 8 := by
  cases o <;> decide

end ExtraOption

theorem getLsbD_ovrExtraBits (i : Nat) : ovrExtraBits.getLsbD i = decide (i < 8) := by
  by_cases hi : i < 8
  · rw [decide_eq_true hi]
    revert i
    decide
  · rw [decide_eq_false hi]
    exact Nat.testBit_lt_two_pow (Nat.lt_of_lt_of_le (show 255 < 2 ^ 8 by decide)
      (Nat.pow_le_pow_right (by decide) (Nat.not_lt.1 hi)))

theorem getLsbD_own (flag : BitVec 32) (i : Nat) :
    (flag &&& ~~~ovrExtraBits).getLsbD i = (!decide (i < 8) && flag.getLsbD i) := by
  rw [BitVec.getLsbD_and, BitVec.getLsbD_not, getLsbD_ovrExtraBits]
  by_cases hlt : i < 32
  · simp [hlt, Bool.and_comm]
  · simp [BitVec.getLsbD_of_ge flag i (Nat.not_lt.1 hlt)]

namespace ExtraInfo

variable (ci : ExtraInfo)

/-- The bits of the options are those of their fields. -/
theorem getLsbD_option (o : ExtraOption) :
    ci.getExtraOptions.getLsbD o.place = fieldTrue (o.field ci) := by
  obtain ⟨h0, h1, h2, h3, h4, h5, h6, h7⟩ := ExtraOption.bits
  have hown := getLsbD_own ci.extraOpts
  rw [getExtraOptions, h0, h1, h2, h3, h4, h5, h6, h7]
  generalize ci.extraOpts &&& ~~~ovrExtraBits = own at hown ⊢
  cases o <;> simp [-BitVec.getLsbD_eq_getElem, getLsbD_withField, hown, ExtraOption.place,
    ExtraOption.field]

/-- The other bits are those of `extra_opts`. -/
theorem getLsbD_other {i : Nat} (hi : 8 ≤ i) :
    ci.getExtraOptions.getLsbD i = ci.extraOpts.getLsbD i := by
  obtain ⟨h0, h1, h2, h3, h4, h5, h6, h7⟩ := ExtraOption.bits
  have hown := getLsbD_own ci.extraOpts i
  have hne : ∀ k < 8, i ≠ k := fun k hk heq ↦ absurd hi (by omega)
  rw [getExtraOptions, h0, h1, h2, h3, h4, h5, h6, h7]
  generalize ci.extraOpts &&& ~~~ovrExtraBits = own at hown ⊢
  rw [decide_eq_false (Nat.not_lt.2 hi)] at hown
  simp [-BitVec.getLsbD_eq_getElem, getLsbD_withField, hne, hown]

theorem fieldsAgree : ci.FieldsAgree := by
  intro o
  rw [getLsbD_option, fieldTrue_iff]

/-- The options are what their fields and the other bits say. -/
theorem getExtraOptions_eq_iff {x : BitVec 32} : ci.getExtraOptions = x ↔
    (∀ o : ExtraOption, fieldTrue (o.field ci) = x.getLsbD o.place) ∧
      ∀ i, 8 ≤ i → ci.extraOpts.getLsbD i = x.getLsbD i := by
  constructor
  · rintro rfl
    exact ⟨fun o ↦ (ci.getLsbD_option o).symm, fun i hi ↦ (ci.getLsbD_other hi).symm⟩
  · rintro ⟨hoptions, hother⟩
    apply BitVec.eq_of_getLsbD_eq
    intro i _
    rcases Nat.lt_or_ge i 8 with hi | hi
    · obtain ⟨o, rfl⟩ := ExtraOption.exists_place hi
      rw [getLsbD_option, hoptions]
    · rw [getLsbD_other _ hi, hother i hi]

theorem field_settle (o : ExtraOption) : o.field ci.settle = o.field ci := by
  cases o <;> rfl

theorem getExtraOptions_settle : ci.settle.getExtraOptions = ci.getExtraOptions := by
  rw [getExtraOptions_eq_iff]
  constructor
  · intro o
    rw [field_settle, getLsbD_option]
  · intro i _
    rfl

end ExtraInfo

/-! ## The calls -/

theorem fieldTrue_replacedField {k : Nat} (hk : k < 32) (flag : BitVec 32) (field : Int) :
    fieldTrue (replacedField (BitVec.twoPow 32 k) flag true field) = flag.getLsbD k := by
  rw [replacedField, if_pos (Or.inl rfl)]
  by_cases hbit : flag &&& BitVec.twoPow 32 k ≠ 0
  · rw [if_pos hbit, (and_twoPow_ne_zero hk).1 hbit]
    rfl
  · rw [if_neg hbit, Bool.eq_false_iff.2 fun h ↦ hbit ((and_twoPow_ne_zero hk).2 h)]
    rfl

theorem addedField_twoPow {k : Nat} (hk : k < 32) (aflag : BitVec 32) (field : Int) :
    addedField (BitVec.twoPow 32 k) aflag field =
      if aflag.getLsbD k = true then 1 else field := by
  rw [addedField]
  simp only [and_twoPow_ne_zero hk]

theorem removedField_twoPow {k : Nat} (hk : k < 32) (dflag : BitVec 32) (field : Int) :
    removedField (BitVec.twoPow 32 k) dflag field =
      if dflag.getLsbD k = true then 0 else field := by
  rw [removedField]
  simp only [and_twoPow_ne_zero hk]

namespace ExtraInfo

variable (ci : ExtraInfo)

theorem getExtraOptions_replace (flag : BitVec 32) :
    (ci.replaceExtraOptions flag true).getExtraOptions = flag := by
  obtain ⟨h0, h1, h2, h3, h4, h5, h6, h7⟩ := ExtraOption.bits
  rw [replaceExtraOptions, getExtraOptions_settle, getExtraOptions_eq_iff]
  constructor
  · intro o
    cases o with
    | forceAbbrevConnstr =>
      dsimp only [ExtraOption.field, ExtraOption.place]
      rw [h0, fieldTrue_replacedField (by decide)]
    | fakeMss =>
      dsimp only [ExtraOption.field, ExtraOption.place]
      rw [h1, fieldTrue_replacedField (by decide)]
    | bdeEnvironment =>
      dsimp only [ExtraOption.field, ExtraOption.place]
      rw [h2, fieldTrue_replacedField (by decide)]
    | cvtNullDateString =>
      dsimp only [ExtraOption.field, ExtraOption.place]
      rw [h3, fieldTrue_replacedField (by decide)]
    | accessibleOnly =>
      dsimp only [ExtraOption.field, ExtraOption.place]
      rw [h4, fieldTrue_replacedField (by decide)]
    | ignoreRoundTripTime =>
      dsimp only [ExtraOption.field, ExtraOption.place]
      rw [h5, fieldTrue_replacedField (by decide)]
    | disableKeepalive =>
      dsimp only [ExtraOption.field, ExtraOption.place]
      rw [h6, fieldTrue_replacedField (by decide)]
    | disableConvertFunc =>
      dsimp only [ExtraOption.field, ExtraOption.place]
      rw [h7, fieldTrue_replacedField (by decide)]
  · intro i _
    rfl

/-- A field behind `add_removeExtraOptions`. -/
theorem fieldTrue_addRemove (aflag dflag : BitVec 32) (o : ExtraOption) :
    fieldTrue (o.field (ci.addRemoveExtraOptions aflag dflag)) =
      ((fieldTrue (o.field ci) || aflag.getLsbD o.place) &&
        !(dflag.getLsbD o.place && o.place != 2)) := by
  obtain ⟨h0, h1, h2, h3, h4, h5, h6, h7⟩ := ExtraOption.bits
  have hadded : ∀ (a : Bool) (field : Int),
      fieldTrue (if a = true then 1 else field) = (fieldTrue field || a) := by
    intro a field
    cases a with
    | false => rw [if_neg Bool.false_ne_true, Bool.or_false]
    | true =>
      rw [if_pos rfl, Bool.or_true]
      rfl
  have hremoved : ∀ (d : Bool) (field : Int),
      fieldTrue (if d = true then 0 else field) = (fieldTrue field && !d) := by
    intro d field
    cases d with
    | false => rw [if_neg Bool.false_ne_true, Bool.not_false, Bool.and_true]
    | true =>
      rw [if_pos rfl, Bool.not_true, Bool.and_false]
      rfl
  rw [addRemoveExtraOptions, field_settle]
  cases o with
  | bdeEnvironment =>
    dsimp only [ExtraOption.field, ExtraOption.place]
    rw [h2, addedField_twoPow (by decide), hadded]
    simp
  | forceAbbrevConnstr =>
    dsimp only [ExtraOption.field, ExtraOption.place]
    rw [h0, removedField_twoPow (by decide), addedField_twoPow (by decide), hremoved, hadded]
    simp
  | fakeMss =>
    dsimp only [ExtraOption.field, ExtraOption.place]
    rw [h1, removedField_twoPow (by decide), addedField_twoPow (by decide), hremoved, hadded]
    simp
  | cvtNullDateString =>
    dsimp only [ExtraOption.field, ExtraOption.place]
    rw [h3, removedField_twoPow (by decide), addedField_twoPow (by decide), hremoved, hadded]
    simp
  | accessibleOnly =>
    dsimp only [ExtraOption.field, ExtraOption.place]
    rw [h4, removedField_twoPow (by decide), addedField_twoPow (by decide), hremoved, hadded]
    simp
  | ignoreRoundTripTime =>
    dsimp only [ExtraOption.field, ExtraOption.place]
    rw [h5, removedField_twoPow (by decide), addedField_twoPow (by decide), hremoved, hadded]
    simp
  | disableKeepalive =>
    dsimp only [ExtraOption.field, ExtraOption.place]
    rw [h6, removedField_twoPow (by decide), addedField_twoPow (by decide), hremoved, hadded]
    simp
  | disableConvertFunc =>
    dsimp only [ExtraOption.field, ExtraOption.place]
    rw [h7, removedField_twoPow (by decide), addedField_twoPow (by decide), hremoved, hadded]
    simp

/-- What is removed is gone, except for the option that is not removed. -/
theorem addRemove_iff (aflag dflag : BitVec 32) :
    (ci.addRemoveExtraOptions aflag dflag).getExtraOptions =
        (ci.getExtraOptions ||| aflag) &&& ~~~dflag ↔
      (dflag.getLsbD 2 = true → aflag.getLsbD 2 = false ∧ ci.bdeEnvironment ≤ 0) := by
  have hbit : ∀ i, i < 32 → ((ci.getExtraOptions ||| aflag) &&& ~~~dflag).getLsbD i =
      ((ci.getExtraOptions.getLsbD i || aflag.getLsbD i) && !dflag.getLsbD i) := by
    intro i hi
    rw [BitVec.getLsbD_and, BitVec.getLsbD_or, BitVec.getLsbD_not, decide_eq_true hi, Bool.true_and]
  have hother : ∀ i, 8 ≤ i → (ci.addRemoveExtraOptions aflag dflag).extraOpts.getLsbD i =
      ((ci.getExtraOptions ||| aflag) &&& ~~~dflag).getLsbD i := by
    intro i hi
    rw [addRemoveExtraOptions, settle]
    dsimp only
    rw [getLsbD_other _ hi, BitVec.getLsbD_and, BitVec.getLsbD_and, BitVec.getLsbD_or,
      BitVec.getLsbD_or, getLsbD_other _ hi]
  rw [getExtraOptions_eq_iff, and_iff_left hother]
  constructor
  · intro h hd
    have hbde := h .bdeEnvironment
    rw [fieldTrue_addRemove, hbit _ (by decide), getLsbD_option] at hbde
    dsimp only [ExtraOption.place, ExtraOption.field] at hbde
    rw [hd, show ((2 : Nat) != 2) = false from rfl, Bool.and_false, Bool.not_true, Bool.and_false,
      Bool.not_false, Bool.and_true, Bool.or_eq_false_iff] at hbde
    exact ⟨hbde.2, Int.not_lt.1 (of_decide_eq_false hbde.1)⟩
  · intro h o
    rw [fieldTrue_addRemove, hbit _ (Nat.lt_of_lt_of_le o.place_lt (by decide)), getLsbD_option]
    cases o with
    | bdeEnvironment =>
      dsimp only [ExtraOption.place, ExtraOption.field]
      cases hd : dflag.getLsbD 2 with
      | false => rfl
      | true =>
        obtain ⟨ha, hfield⟩ := h hd
        have hfalse : fieldTrue ci.bdeEnvironment = false := decide_eq_false (Int.not_lt.2 hfield)
        rw [ha, hfalse]
        rfl
    | forceAbbrevConnstr => simp [ExtraOption.place]
    | fakeMss => simp [ExtraOption.place]
    | cvtNullDateString => simp [ExtraOption.place]
    | accessibleOnly => simp [ExtraOption.place]
    | ignoreRoundTripTime => simp [ExtraOption.place]
    | disableKeepalive => simp [ExtraOption.place]
    | disableConvertFunc => simp [ExtraOption.place]

end ExtraInfo

/-! ## Texts -/

section

variable {optstr text : List UInt8} {v : BitVec 32} {format : OptionFormat}

theorem OptionFormat.letter_spec (format : OptionFormat) :
    isModifier format.letter = false ∧ (format.letter :: [0x25, 0x31, 0x73]).head? ≠ some 0x25 := by
  cases format <;> decide

/-- `%x` and `%u`. -/
def OptionFormat.conversion : OptionFormat → Option IntConversion
  | hex => some .x
  | dec => some .u
  | octal => none

theorem parseArg_option {conv : IntConversion} (hconv : format.conversion = some conv)
    (input : List UInt8) :
    parseArg [format.letter, 0x25, 0x31, 0x73] input (some (.num .uint)) =
      some (parseUnsigned (conv.base input) .default 0 input input (.num .uint)) := by
  have hparse := parseArg_integer (List.forall_mem_nil _) (by decide) conv .default
    [0x25, 0x31, 0x73] input (.num .uint)
  cases format with
  | hex =>
    cases hconv
    exact hparse
  | dec =>
    cases hconv
    exact hparse
  | octal => cases hconv

/-- A number in digits is stored. -/
theorem parseUnsigned_digits {base : Nat} (hbase : base ≤ 16) (h : DigitsOf base text v) :
    parseUnsigned base .default 0 text text (.num .uint) =
      ⟨.success, [], some (.num v.toNat)⟩ := by
  obtain ⟨hne, hdigits, hvalue⟩ := h
  have hends : (NumberText.mk false [] text).Ends base [] :=
    ⟨Or.inl rfl, hdigits, hne, rfl, fun _ _ _ h ↦ absurd h Bool.false_ne_true⟩
  have hscan := NumberText.strtolScan_text (hbase.trans (by decide)) hends
  have htext : (NumberText.mk false [] text).text ++ [] = text := List.append_nil _
  rw [htext] at hscan
  have hlt := v.isLt
  have hread : ¬(0 = 0 ∧ ([] : List UInt8).length = text.length) := fun h ↦
    hne (List.eq_nil_of_length_eq_zero h.2.symm)
  rw [parseUnsigned, if_neg fun h ↦ h rfl, strtoul_of_scan hscan]
  dsimp only
  rw [if_neg hread, if_neg fun h ↦ h.1 rfl, hvalue, if_neg (by omega), if_neg Bool.false_ne_true]
  have hmod : v.toNat % 2 ^ CheckType.default.bits = v.toNat := Nat.mod_eq_of_lt hlt
  rw [hmod]
  rfl

/-- The whole of `setExtraOptions` for such a text. -/
theorem secureSscanf_digits {conv : IntConversion} (hconv : format.conversion = some conv)
    (h : DigitsOf (conv.base text) text v) :
    secureSscanf text format.text [.num .uint, .str [0, 0]] =
      some ⟨.success, 1, [.num v.toNat]⟩ := by
  have hbase : conv.base text ≤ 16 := by
    cases format with
    | hex =>
      cases hconv
      exact Nat.le_refl 16
    | dec =>
      cases hconv
      exact (by decide : 10 ≤ 16)
    | octal => cases hconv
  have hparse := parseArg_option hconv text
  rw [parseUnsigned_digits hbase h] at hparse
  have hlen : ([] : List UInt8).length ≠ text.length := fun heq ↦
    h.1 (List.eq_nil_of_length_eq_zero heq.symm)
  rw [secureSscanf, OptionFormat.text,
    sscanfLoop_conversion h.1 format.letter_spec.2 hparse hlen, sscanfLoop_nil]
  rfl

/-- `secure_sscanf` has a result for each text. -/
theorem secureSscanf_option (optstr : List UInt8) (format : OptionFormat) :
    ∃ result, secureSscanf optstr format.text [.num .uint, .str [0, 0]] = some result := by
  have hword : ∀ current values ret, ∃ result,
      sscanfLoop [0x25, 0x31, 0x73] current [.str [0, 0]] ret values = some result := by
    intro current values ret
    have hcell : ∃ parsed, parseArg [0x31, 0x73] current (some (.str [0, 0])) = some parsed := by
      rw [← List.singleton_append, parseArg_string (List.forall_mem_singleton.2 rfl)]
      exact ⟨_, rfl⟩
    obtain ⟨parsed, hparse⟩ := hcell
    rw [sscanfLoop]
    split
    · exact ⟨_, rfl⟩
    · rw [if_pos rfl, List.head?_cons, hparse, Option.bind_some]
      dsimp only
      split
      · exact ⟨_, rfl⟩
      · split
        · exact ⟨_, rfl⟩
        · have hend : (List.dropWhile isModifier [(0x31 : UInt8), 0x73]).drop 1 = [] := rfl
          rw [hend, sscanfLoop]
          exact ⟨_, rfl⟩
  have hnumber : ∃ parsed,
      parseArg [format.letter, 0x25, 0x31, 0x73] optstr (some (.num .uint)) = some parsed := by
    cases hconv : format.conversion with
    | none =>
      cases format with
      | octal => exact ⟨⟨.invalidFmt, optstr, none⟩, rfl⟩
      | hex => cases hconv
      | dec => cases hconv
    | some conv => exact ⟨_, parseArg_option hconv optstr⟩
  obtain ⟨parsed, hparse⟩ := hnumber
  rw [secureSscanf, OptionFormat.text, sscanfLoop]
  split
  · exact ⟨_, rfl⟩
  · rw [if_pos rfl, List.head?_cons, hparse, Option.bind_some]
    dsimp only
    split
    · exact ⟨_, rfl⟩
    · split
      · exact ⟨_, rfl⟩
      · rw [List.dropWhile_cons_of_neg (Bool.eq_false_iff.1 format.letter_spec.1)]
        exact hword _ _ _

/-- Octal digits are refused. -/
theorem secureSscanf_octal (optstr : List UInt8) : ∃ result,
    secureSscanf optstr OptionFormat.octal.text [.num .uint, .str [0, 0]] = some result ∧
      result.ret = 0 := by
  cases optstr with
  | nil =>
    rw [secureSscanf, sscanfLoop_nil]
    exact ⟨_, rfl, rfl⟩
  | cons c rest =>
    have herror : SscanfError.invalidFmt ≠ .success := by decide
    have hparse : parseArg [0x6f, 0x25, 0x31, 0x73] (c :: rest) (some (.num .uint)) =
        some ⟨.invalidFmt, c :: rest, none⟩ := rfl
    rw [secureSscanf, OptionFormat.text, OptionFormat.letter,
      sscanfLoop_error (List.cons_ne_nil c rest) herror hparse]
    exact ⟨_, rfl, rfl⟩

/-- The format of a text, and the part that is read. -/
def chosenFormat (optstr : List UInt8) : Option OptionFormat → OptionFormat × List UInt8
  | some format => (format, optstr)
  | none => formatOf optstr

theorem setExtraOptions_eq (ci : ExtraInfo) (optstr : List UInt8) (format : Option OptionFormat) :
    ci.setExtraOptions optstr format =
      (secureSscanf (chosenFormat optstr format).2 (chosenFormat optstr format).1.text
        [.num .uint, .str [0, 0]]).map fun result ↦
          if result.ret < 1 then (false, ci)
          else if 1 < result.ret then (false, ci)
          else (true, ci.replaceExtraOptions (storedFlag result.values) true) := by
  cases format <;> rfl

theorem chosenFormat_fst (optstr : List UInt8) (format : Option OptionFormat) :
    (chosenFormat optstr format).1 = format.getD (formatOf optstr).1 := by
  cases format <;> rfl

/-- A text that stands for a number has the digits of its format. -/
theorem Denotes.digits {format : Option OptionFormat} (h : Denotes optstr format v)
    {conv : IntConversion} (hconv : (chosenFormat optstr format).1.conversion = some conv) :
    DigitsOf (conv.base (chosenFormat optstr format).2) (chosenFormat optstr format).2 v := by
  rw [Denotes.eq_def] at h
  cases format with
  | some format =>
    cases format with
    | hex =>
      cases hconv
      exact h
    | dec =>
      cases hconv
      exact h
    | octal => cases hconv
  | none =>
    cases optstr with
    | nil => exact h.elim
    | cons c rest =>
      dsimp only at h
      rw [chosenFormat, formatOf.eq_def] at hconv ⊢
      dsimp only at hconv ⊢
      by_cases hzero : c = 0x30
      · rw [if_pos hzero] at h
        simp only [if_pos hzero] at hconv ⊢
        cases rest with
        | nil =>
          cases hconv
          rw [h, hzero]
          exact ⟨List.cons_ne_nil _ _, List.forall_mem_singleton.2 (by decide), rfl⟩
        | cons d rest =>
          dsimp only at h hconv ⊢
          by_cases hx : d = 0x78 ∨ d = 0x58
          · rw [if_pos hx] at h
            simp only [if_pos hx] at hconv ⊢
            cases hconv
            exact h
          · simp only [if_neg hx] at hconv
            cases hconv
      · rw [if_neg hzero] at h
        simp only [if_neg hzero] at hconv ⊢
        cases hconv
        exact h

end

/-! ## The theorem -/

/-- A call has its effect exactly under the condition. -/
theorem ExtraCall.right_iff (ci : ExtraInfo) (call : ExtraCall) : call.Right ci ↔ call.Fine ci := by
  cases call with
  | set optstr format =>
    rw [ExtraCall.Right, ExtraCall.Fine, setExtraOptions_eq, ← chosenFormat_fst]
    constructor
    · rintro ⟨ret, ci', hset, -, hright⟩ hoctal v hv
      obtain ⟨result, hresult, hret⟩ := secureSscanf_octal (chosenFormat optstr format).2
      rw [hoctal, hresult, Option.map_some, if_pos (hret.trans_lt Nat.one_pos)] at hset
      cases hset
      exact absurd (hright v hv).1 Bool.false_ne_true
    · intro hfine
      obtain ⟨result, hresult⟩ := secureSscanf_option (chosenFormat optstr format).2
        (chosenFormat optstr format).1
      refine ⟨_, _, congrArg (Option.map _) hresult, ExtraInfo.fieldsAgree _, fun v hv ↦ ?_⟩
      cases hconv : (chosenFormat optstr format).1.conversion with
      | none =>
        have hoctal : (chosenFormat optstr format).1 = .octal := by
          revert hconv
          cases (chosenFormat optstr format).1 with
          | hex => exact nofun
          | dec => exact nofun
          | octal => exact fun _ ↦ rfl
        exact absurd hv (hfine hoctal v)
      | some conv =>
        rw [secureSscanf_digits hconv (hv.digits hconv)] at hresult
        cases hresult
        have hflag : storedFlag [.num (v.toNat : Int)] = v := by
          rw [storedFlag, BitVec.ofInt_natCast, BitVec.ofNat_toNat, BitVec.setWidth_eq]
        refine ⟨rfl, ?_⟩
        exact (ExtraInfo.getExtraOptions_replace ci _).trans hflag
  | addRemove aflag dflag =>
    rw [ExtraCall.Right, ExtraCall.Fine, and_iff_right (ExtraInfo.fieldsAgree _)]
    exact ci.addRemove_iff aflag dflag

/-- In a sequence of calls each has its effect exactly if each meets the condition. -/
theorem allCalls_right_iff (ci : ExtraInfo) (calls : List ExtraCall) :
    AllCalls (fun ci call ↦ call.Right ci) ci calls ↔
      AllCalls (fun ci call ↦ call.Fine ci) ci calls := by
  induction calls generalizing ci with
  | nil => exact Iff.rfl
  | cons call calls ih =>
    rw [AllCalls, AllCalls]
    refine and_congr (call.right_iff ci) (forall_congr' fun ci' ↦ forall_congr' fun _ ↦ ih ci')

/-- `bde_environment` stays where its bit is removed. -/
theorem not_allCalls_right : ¬∀ ci calls, AllCalls (fun ci call ↦ call.Right ci) ci calls := by
  intro h
  have hcall := (h ⟨0, 0, 0, 0, 0, 0, 0, 0, 0⟩ [.addRemove 4 0, .addRemove 0 4]).2 _ rfl
  exact absurd hcall.1.2 (by decide)

end PsqlOdbc
