import PsqlOdbc.DrvconnItems
import PsqlOdbc.Convert.Escape
import PsqlOdbc.Lib.Strtol

/-!
# The connection string of a resource manager (`pgxalib.cpp`)

A resource manager is opened with a connection string.  `XAConnection::parse_xa_info` takes the
items out that are for itself, and stores the others.  Names and values go through arrays of 64
characters, and a value in braces ends at its first closing brace.
-/

namespace PsqlOdbc.Xa

open Lib

/-! ## The library -/

/-- `sizeof(keyword)` and `sizeof(value)`. -/
def xaBufferSize : ℕ := 64

/-- How the parser leaves its loop early. -/
inductive XaStop
  /-- `break`. -/
  | leave
  /-- `strncpy_s` does not return when the text does not fit. -/
  | invalidParameter
  /-- `strcpy` has written behind the array. -/
  | overflow
  deriving DecidableEq, Repr

/-- What the parser makes of a string.  `debugv` is a local variable. -/
structure XaInfo where
  dsnstr : List UInt8
  immediateConnection : Bool
  debugv : Int
  deriving DecidableEq, Repr

/-- What is in front of a character and what is behind it. -/
def splitByte (c : UInt8) : List UInt8 → Option (List UInt8 × List UInt8)
  | [] => none
  | b :: text =>
    if b = c then some ([], text) else (splitByte c text).map fun (u, w) ↦ (b :: u, w)

/-- `strncpy_s` to `keyword` or `value`. -/
def strncpyS (text : List UInt8) : Except XaStop (List UInt8) :=
  if text.length < xaBufferSize then .ok text else .error .invalidParameter

/-- `strcpy` to `value`. -/
def strcpyValue (text : List UInt8) : Except XaStop (List UInt8) :=
  if text.length < xaBufferSize then .ok text else .error .overflow

/-- A name or a value, and whether it had braces. -/
structure XaPart where
  text : List UInt8
  hasbr : Bool
  deriving DecidableEq, Repr

/-- The keyword of an item, and what is behind the equals sign. -/
def xaKeyword (pstr : List UInt8) : Except XaStop (XaPart × List UInt8) :=
  if pstr.head? = some openingBracket then
    match splitByte closingBracket pstr.tail with
    | none => .error .leave
    | some (text, behind) => do
      let keyword ← strncpyS text
      if behind.head? = some equalsSign then .ok (⟨keyword, true⟩, behind.tail)
      else .error .leave
  else
    match splitByte equalsSign pstr with
    | none => .error .leave
    | some (text, behind) => do
      let keyword ← strncpyS text
      .ok (⟨keyword, false⟩, behind)

/-- The value of an item, and what is behind it. -/
def xaValue (pstr : List UInt8) : Except XaStop (XaPart × List UInt8) :=
  if pstr.head? = some openingBracket then
    match splitByte closingBracket pstr.tail with
    | none => .error .leave
    | some (text, behind) => do
      let value ← strncpyS text
      .ok (⟨value, true⟩, behind)
  else
    match splitByte attributeDelimiter pstr with
    | some (text, behind) => do
      let value ← strncpyS text
      .ok (⟨value, false⟩, attributeDelimiter :: behind)
    | none => do
      let value ← strcpyValue pstr
      .ok (⟨value, false⟩, [])

/-- `(int) strtol`, whose `long` is of 32 bits. -/
def xaNumber (value : List UInt8) : Int := max (-2 ^ 31) (min (2 ^ 31 - 1) (strtol 10 value).1)

/-- A part as it is appended to the string. -/
def XaPart.output (part : XaPart) : List UInt8 :=
  if part.hasbr then openingBracket :: (part.text ++ [closingBracket]) else part.text

/-- What is done with an item. -/
def XaInfo.add (info : XaInfo) (keyword value : XaPart) : XaInfo :=
  if stricmpEq keyword.text (ascii "dtchk") then
    { info with immediateConnection := xaNumber value.text ≠ 0 }
  else if stricmpEq keyword.text (ascii "debug") || stricmpEq keyword.text (ascii "B2") then
    { info with debugv := xaNumber value.text }
  else
    { info with
      dsnstr := info.dsnstr ++
        (keyword.output ++ equalsSign :: (value.output ++ [attributeDelimiter])) }

/-- One item: what is known then, and what is behind it. -/
def xaItem (pstr : List UInt8) (info : XaInfo) : Except XaStop (XaInfo × List UInt8) := do
  let (keyword, pstr) ← xaKeyword pstr
  let (value, pstr) ← xaValue pstr
  .ok (info.add keyword value, pstr)

theorem splitByte_length {c : UInt8} {text u w : List UInt8} (h : splitByte c text = some (u, w)) :
    u.length + w.length + 1 = text.length := by
  induction text generalizing u with
  | nil => cases h
  | cons b text ih =>
    rw [splitByte] at h
    by_cases hb : b = c
    · rw [if_pos hb] at h
      cases h
      simp
    · rw [if_neg hb] at h
      cases hs : splitByte c text with
      | none => simp [hs] at h
      | some res =>
        rw [hs] at h
        cases h
        have := ih hs
        simp only [List.length_cons]
        omega

theorem xaKeyword_length {pstr rest : List UInt8} {keyword : XaPart}
    (h : xaKeyword pstr = .ok (keyword, rest)) : rest.length < pstr.length := by
  rw [xaKeyword] at h
  split at h
  · split at h
    · cases h
    · next text behind hsplit =>
      have := splitByte_length hsplit
      rw [List.length_tail] at this
      rw [strncpyS] at h
      split at h
      · change (if behind.head? = some equalsSign then _ else _) = _ at h
        split at h
        · cases h
          rw [List.length_tail]
          omega
        · cases h
      · cases h
  · split at h
    · cases h
    · next text behind hsplit =>
      have := splitByte_length hsplit
      rw [strncpyS] at h
      split at h
      · cases h
        omega
      · cases h

theorem xaValue_length {pstr rest : List UInt8} {value : XaPart}
    (h : xaValue pstr = .ok (value, rest)) : rest.length ≤ pstr.length := by
  rw [xaValue] at h
  split at h
  · split at h
    · cases h
    · next text behind hsplit =>
      have := splitByte_length hsplit
      rw [List.length_tail] at this
      rw [strncpyS] at h
      split at h
      · cases h
        omega
      · cases h
  · split at h
    · next text behind hsplit =>
      have := splitByte_length hsplit
      rw [strncpyS] at h
      split at h
      · cases h
        rw [List.length_cons]
        omega
      · cases h
    · rw [strcpyValue] at h
      split at h
      · cases h
        simp
      · cases h

/-- What is left behind an item is shorter. -/
theorem xaItem_length {pstr rest : List UInt8} {info info' : XaInfo}
    (h : xaItem pstr info = .ok (info', rest)) : rest.length < pstr.length := by
  rw [xaItem] at h
  cases hkeyword : xaKeyword pstr with
  | error stop =>
    rw [hkeyword] at h
    cases h
  | ok res =>
    cases hvalue : xaValue res.2 with
    | error stop =>
      simp only [hkeyword, hvalue, bind, Except.bind] at h
      cases h
    | ok res' =>
      have hkey := xaKeyword_length hkeyword
      have hval := xaValue_length hvalue
      simp only [hkeyword, hvalue, bind, Except.bind] at h
      cases h
      omega

/-- The loop of `parse_xa_info`. -/
def xaLoop (pstr : List UInt8) (info : XaInfo) : Except XaStop XaInfo :=
  if pstr = [] then .ok info
  else
    match _h : xaItem pstr info with
    | .error .leave => .ok info
    | .error stop => .error stop
    | .ok (info, rest) =>
      if rest.head? = some attributeDelimiter then xaLoop rest.tail info else .ok info
termination_by pstr.length
decreasing_by
  have := xaItem_length _h
  rw [List.length_tail]
  omega

/-- `XAConnection::parse_xa_info` of a new object. -/
def parseXaInfo (immediateConnectDefault dtclog : Bool) (connstr : List UInt8) :
    Except XaStop XaInfo := do
  let info ← xaLoop connstr ⟨[], immediateConnectDefault, -1⟩
  if dtclog then
    let debugv := if info.debugv ≤ 0 then 1 else info.debugv
    .ok { info with
      debugv
      dsnstr := info.dsnstr ++ (ascii "B2=" ++ printfPrecision 1 debugv ++ [attributeDelimiter]) }
  else .ok info

/-! ## Strings of items -/

/-- An item of a connection string.  A name or a value may stand in braces; closing braces in a
value that does are doubled. -/
structure XaEntry where
  name : XaPart
  value : XaPart
  name_zero : 0 ∉ name.text
  name_delim : attributeDelimiter ∉ name.text
  name_equals : equalsSign ∉ name.text
  name_brace : if name.hasbr then closingBracket ∉ name.text
    else name.text.head? ≠ some openingBracket
  value_zero : 0 ∉ value.text
  value_plain : value.hasbr = false →
    attributeDelimiter ∉ value.text ∧ value.text.head? ≠ some openingBracket

/-- A part as it stands in a connection string. -/
def XaPart.shown (part : XaPart) : List UInt8 :=
  if part.hasbr then bracesOf part.text else part.text

namespace XaEntry

/-- The text of an item. -/
def shown (entry : XaEntry) : List UInt8 :=
  entry.name.shown ++ equalsSign :: entry.value.shown

/-- The items for the resource manager itself. -/
def IsOwn (entry : XaEntry) : Prop :=
  stricmpEq entry.name.text (ascii "dtchk") ∨ stricmpEq entry.name.text (ascii "debug") ∨
    stricmpEq entry.name.text (ascii "B2")

instance (entry : XaEntry) : Decidable entry.IsOwn := inferInstanceAs (Decidable (_ ∨ _))

/-- A connection string; `last` if a delimiter ends it. -/
def join (last : Bool) : List XaEntry → List UInt8
  | [] => []
  | [entry] => entry.shown ++ if last then [attributeDelimiter] else []
  | entry :: entry' :: entries => entry.shown ++ attributeDelimiter :: join last (entry' :: entries)

/-- The items that are not for the resource manager itself. -/
def kept (entries : List XaEntry) : List UInt8 :=
  (entries.filter (¬·.IsOwn)).flatMap fun entry ↦ entry.shown ++ [attributeDelimiter]

end XaEntry

/-- The items are stored as they were, but those for the resource manager itself, and there is one
for the log if it is on. -/
def KeepsEntries (immediateConnectDefault dtclog last : Bool) (entries : List XaEntry) : Prop :=
  ∃ info, parseXaInfo immediateConnectDefault dtclog (XaEntry.join last entries) = .ok info ∧
    if dtclog then
      ∃ debugv : Int, 0 < debugv ∧ info.dsnstr = XaEntry.kept entries ++
        (ascii "B2=" ++ printfPrecision 1 debugv ++ [attributeDelimiter])
    else info.dsnstr = XaEntry.kept entries

end PsqlOdbc.Xa
