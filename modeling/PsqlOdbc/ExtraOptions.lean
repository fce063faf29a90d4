import PsqlOdbc.Lib.HexText
import PsqlOdbc.SscanfStored

/-!
# Extra options (`dlg_specific.c`)

Eight options stand in the bits of `extra_opts` and in a field each, where a negative number leaves
the option to the default.  `getExtraOptions` reads the fields, and what sets or removes bits has to
set the fields too.
-/

namespace PsqlOdbc

open Lib

/-! ## The driver -/

/-- What a `ConnInfo` has for the extra options. -/
structure ExtraInfo where
  extraOpts : BitVec 32
  forceAbbrevConnstr : Int
  fakeMss : Int
  bdeEnvironment : Int
  cvtNullDateString : Int
  accessibleOnly : Int
  ignoreRoundTripTime : Int
  disableKeepalive : Int
  disableConvertFunc : Int
  deriving DecidableEq, Repr

def bitForceAbbrevConnstr : BitVec 32 := 1
def bitFakeMss : BitVec 32 := 1 <<< 1
def bitBdeEnvironment : BitVec 32 := 1 <<< 2
def bitCvtNullDate : BitVec 32 := 1 <<< 3
def bitAccessibleOnly : BitVec 32 := 1 <<< 4
def bitIgnoreRoundTripTime : BitVec 32 := 1 <<< 5
def bitDisableKeepalive : BitVec 32 := 1 <<< 6
def bitDisableConvertFunc : BitVec 32 := 1 <<< 7

/-- `OVR_EXTRA_BITS`. -/
def ovrExtraBits : BitVec 32 :=
  bitForceAbbrevConnstr ||| bitFakeMss ||| bitBdeEnvironment ||| bitCvtNullDate |||
    bitAccessibleOnly ||| bitIgnoreRoundTripTime ||| bitDisableKeepalive ||| bitDisableConvertFunc

/-- The bit of a field. -/
def withField (bit : BitVec 32) (field : Int) (flag : BitVec 32) : BitVec 32 :=
  if 0 < field then flag ||| bit else if field = 0 then flag &&& ~~~bit else flag

/-- The field of a bit in `flag`. -/
def replacedField (bit flag : BitVec 32) (overwrite : Bool) (field : Int) : Int :=
  if overwrite = true ∨ field < 0 then if flag &&& bit ≠ 0 then 1 else 0 else field

def addedField (bit aflag : BitVec 32) (field : Int) : Int :=
  if aflag &&& bit ≠ 0 then 1 else field

def removedField (bit dflag : BitVec 32) (field : Int) : Int :=
  if dflag &&& bit ≠ 0 then 0 else field

namespace ExtraInfo

def getExtraOptions (ci : ExtraInfo) : BitVec 32 :=
  let flag := ci.extraOpts &&& ~~~ovrExtraBits
  let flag := withField bitForceAbbrevConnstr ci.forceAbbrevConnstr flag
  let flag := withField bitFakeMss ci.fakeMss flag
  let flag := withField bitBdeEnvironment ci.bdeEnvironment flag
  let flag := withField bitCvtNullDate ci.cvtNullDateString flag
  let flag := withField bitAccessibleOnly ci.accessibleOnly flag
  let flag := withField bitIgnoreRoundTripTime ci.ignoreRoundTripTime flag
  let flag := withField bitDisableKeepalive ci.disableKeepalive flag
  withField bitDisableConvertFunc ci.disableConvertFunc flag

/-- `ci->extra_opts = getExtraOptions(ci)`. -/
def settle (ci : ExtraInfo) : ExtraInfo := { ci with extraOpts := ci.getExtraOptions }

def replaceExtraOptions (ci : ExtraInfo) (flag : BitVec 32) (overwrite : Bool) : ExtraInfo :=
  settle
    { extraOpts := if overwrite then flag else ci.extraOpts ||| (flag &&& ~~~ovrExtraBits)
      forceAbbrevConnstr := replacedField bitForceAbbrevConnstr flag overwrite ci.forceAbbrevConnstr
      fakeMss := replacedField bitFakeMss flag overwrite ci.fakeMss
      bdeEnvironment := replacedField bitBdeEnvironment flag overwrite ci.bdeEnvironment
      cvtNullDateString := replacedField bitCvtNullDate flag overwrite ci.cvtNullDateString
      accessibleOnly := replacedField bitAccessibleOnly flag overwrite ci.accessibleOnly
      ignoreRoundTripTime :=
        replacedField bitIgnoreRoundTripTime flag overwrite ci.ignoreRoundTripTime
      disableKeepalive := replacedField bitDisableKeepalive flag overwrite ci.disableKeepalive
      disableConvertFunc :=
        replacedField bitDisableConvertFunc flag overwrite ci.disableConvertFunc }

/-- `add_removeExtraOptions`. -/
def addRemoveExtraOptions (ci : ExtraInfo) (aflag dflag : BitVec 32) : ExtraInfo :=
  settle
    { extraOpts := (ci.extraOpts ||| aflag) &&& ~~~dflag
      forceAbbrevConnstr := removedField bitForceAbbrevConnstr dflag
        (addedField bitForceAbbrevConnstr aflag ci.forceAbbrevConnstr)
      fakeMss := removedField bitFakeMss dflag (addedField bitFakeMss aflag ci.fakeMss)
      -- This one is not removed.
      bdeEnvironment := addedField bitBdeEnvironment aflag ci.bdeEnvironment
      cvtNullDateString := removedField bitCvtNullDate dflag
        (addedField bitCvtNullDate aflag ci.cvtNullDateString)
      accessibleOnly := removedField bitAccessibleOnly dflag
        (addedField bitAccessibleOnly aflag ci.accessibleOnly)
      ignoreRoundTripTime := removedField bitIgnoreRoundTripTime dflag
        (addedField bitIgnoreRoundTripTime aflag ci.ignoreRoundTripTime)
      disableKeepalive := removedField bitDisableKeepalive dflag
        (addedField bitDisableKeepalive aflag ci.disableKeepalive)
      disableConvertFunc := removedField bitDisableConvertFunc dflag
        (addedField bitDisableConvertFunc aflag ci.disableConvertFunc) }

end ExtraInfo

/-- `hex_format`, `dec_format` and `octal_format`. -/
inductive OptionFormat
  | hex
  | dec
  | octal
  deriving DecidableEq, Repr

namespace OptionFormat

/-- The letter of the conversion. -/
def letter : OptionFormat → UInt8
  | hex => 0x78
  | dec => 0x75
  | octal => 0x6f

/-- `%x%1s` and its like. -/
def text (format : OptionFormat) : List UInt8 := [0x25, format.letter, 0x25, 0x31, 0x73]

end OptionFormat

/-- The format of a text that is given without one, and the text behind what tells. -/
def formatOf (optstr : List UInt8) : OptionFormat × List UInt8 :=
  match optstr with
  | c :: rest =>
    if c = 0x30 then
      match rest with
      | [] => (.dec, optstr)
      | d :: rest => if d = 0x78 ∨ d = 0x58 then (.hex, rest) else (.octal, optstr)
    else (.dec, optstr)
  | [] => (.dec, optstr)

/-- The first argument that `secure_sscanf` has stored. -/
def storedFlag (values : List SscanfValue) : BitVec 32 :=
  match values with
  | .num n :: _ => BitVec.ofInt 32 n
  | _ => 0

/-- `setExtraOptions`, with what it returns. -/
def ExtraInfo.setExtraOptions (ci : ExtraInfo) (optstr : List UInt8)
    (format : Option OptionFormat) : Option (Bool × ExtraInfo) :=
  let (format, optstr) :=
    match format with
    | some format => (format, optstr)
    | none => formatOf optstr
  (secureSscanf optstr format.text [.num .uint, .str [0, 0]]).map fun result ↦
    if result.ret < 1 then (false, ci)
    else if 1 < result.ret then (false, ci)
    else (true, ci.replaceExtraOptions (storedFlag result.values) true)

/-! ## What the options should be -/

/-- The options that have a field. -/
inductive ExtraOption
  | forceAbbrevConnstr
  | fakeMss
  | bdeEnvironment
  | cvtNullDateString
  | accessibleOnly
  | ignoreRoundTripTime
  | disableKeepalive
  | disableConvertFunc

namespace ExtraOption

/-- The place of the bit. -/
def place : ExtraOption → Nat
  | forceAbbrevConnstr => 0
  | fakeMss => 1
  | bdeEnvironment => 2
  | cvtNullDateString => 3
  | accessibleOnly => 4
  | ignoreRoundTripTime => 5
  | disableKeepalive => 6
  | disableConvertFunc => 7

def field (ci : ExtraInfo) : ExtraOption → Int
  | forceAbbrevConnstr => ci.forceAbbrevConnstr
  | fakeMss => ci.fakeMss
  | bdeEnvironment => ci.bdeEnvironment
  | cvtNullDateString => ci.cvtNullDateString
  | accessibleOnly => ci.accessibleOnly
  | ignoreRoundTripTime => ci.ignoreRoundTripTime
  | disableKeepalive => ci.disableKeepalive
  | disableConvertFunc => ci.disableConvertFunc

end ExtraOption

/-- The fields are those of the bits. -/
def ExtraInfo.FieldsAgree (ci : ExtraInfo) : Prop :=
  ∀ o : ExtraOption, 0 < o.field ci ↔ ci.getExtraOptions.getLsbD o.place = true

/-- A text is a number in a base. -/
def DigitsOf (base : Nat) (text : List UInt8) (v : BitVec 32) : Prop :=
  text ≠ [] ∧ (∀ c ∈ text, digitValue c < base) ∧ baseValue base text = v.toNat

/-- The number that a text stands for in a format, or without one. -/
def Denotes (optstr : List UInt8) (format : Option OptionFormat) (v : BitVec 32) : Prop :=
  match format with
  | some .hex => DigitsOf 16 optstr v
  | some .dec => DigitsOf 10 optstr v
  | some .octal => DigitsOf 8 optstr v
  | none =>
    match optstr with
    | c :: rest =>
      if c = 0x30 then
        match rest with
        | [] => v = 0
        | d :: rest => if d = 0x78 ∨ d = 0x58 then DigitsOf 16 rest v else DigitsOf 8 optstr v
      else DigitsOf 10 optstr v
    | [] => False

/-- The calls. -/
inductive ExtraCall
  | set (optstr : List UInt8) (format : Option OptionFormat)
  | addRemove (aflag dflag : BitVec 32)

namespace ExtraCall

/-- What a call makes of a `ConnInfo`. -/
def next (ci : ExtraInfo) : ExtraCall → Option ExtraInfo
  | set optstr format => (ci.setExtraOptions optstr format).map Prod.snd
  | addRemove aflag dflag => some (ci.addRemoveExtraOptions aflag dflag)

/-- A call has the effect it should have. -/
def Right (ci : ExtraInfo) : ExtraCall → Prop
  | set optstr format => ∃ ret ci', ci.setExtraOptions optstr format = some (ret, ci') ∧
      ci'.FieldsAgree ∧ ∀ v, Denotes optstr format v → ret = true ∧ ci'.getExtraOptions = v
  | addRemove aflag dflag =>
    (ci.addRemoveExtraOptions aflag dflag).FieldsAgree ∧
      (ci.addRemoveExtraOptions aflag dflag).getExtraOptions =
        (ci.getExtraOptions ||| aflag) &&& ~~~dflag

/-- The condition on a call: no number in octal digits, and `BIT_BDE_ENVIRONMENT` is removed only
where it is not set. -/
def Fine (ci : ExtraInfo) : ExtraCall → Prop
  | set optstr format => (format.getD (formatOf optstr).1) = .octal → ∀ v, ¬Denotes optstr format v
  | addRemove aflag dflag =>
    dflag.getLsbD 2 = true → aflag.getLsbD 2 = false ∧ ci.bdeEnvironment ≤ 0

end ExtraCall

/-- Each call of a sequence has a property, where it is made. -/
def AllCalls (p : ExtraInfo → ExtraCall → Prop) : ExtraInfo → List ExtraCall → Prop
  | _, [] => True
  | ci, call :: calls => p ci call ∧ ∀ ci', call.next ci = some ci' → AllCalls p ci' calls

end PsqlOdbc
