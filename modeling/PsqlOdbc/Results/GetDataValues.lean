import PsqlOdbc.Results.GetData
import PsqlOdbc.Xa.XidText

/-!
# The values of a row

A value is a text, or bytes that the server sends as a text in one of two formats.  What
`SQLGetData` makes of it, whatever buffer it has for it, is the converted value (`converts`).
-/

namespace PsqlOdbc

open Lib CountingBuffer Xa

/-- `bytea_output` of the server. -/
inductive ByteaOutput
  | hex
  | escape
  deriving DecidableEq, Repr

/-- A byte in the format `escape` of the server. -/
def escapeOut (b : UInt8) : List UInt8 :=
  if b = byteaEscapeChar then [byteaEscapeChar, byteaEscapeChar]
  else if b < 0x20 ∨ 0x7e < b then octalText b
  else [b]

/-- A value in a row. -/
inductive Datum
  | text (s : List UInt8) (unterminated : 0 ∉ s)
  | bytea (format : ByteaOutput) (inp : List UInt8)

/-- The units of a text. -/
def wideUnits (lfConv : Bool) (s : List UInt8) : List UInt16 :=
  let r := utf8Units ucs2Target lfConv false none s s.length
  if r.2 then r.1 else []

/-- A text as the application gets it. -/
def textConverted (ctype : TextCType) (lfConv : Bool) (s : List UInt8) : List UInt8 :=
  match ctype with
  | .wchar => wideBytes (wideUnits lfConv s)
  | _ => linefeedsConverted lfConv none s

/-- What digits are made of. -/
def TextCType.hexType : TextCType → HexType
  | wchar => .sqlwchar
  | char | binary => .char

namespace Datum

/-- What the server sends. -/
def sent : Datum → ServerValue
  | text s _ => ⟨false, s⟩
  | bytea .hex inp => ⟨true, byteaEscapeChar :: 0x78 :: inp.flatMap lowerHex⟩
  | bytea .escape inp => ⟨true, inp.flatMap escapeOut⟩

/-- What the application gets. -/
def converted (ctype : TextCType) (lfConv : Bool) : Datum → List UInt8
  | text s _ => textConverted ctype lfConv s
  | bytea format inp =>
    match ctype, format with
    | .binary, _ => inp
    | ctype, .hex => textConverted ctype lfConv (inp.flatMap lowerHex)
    | ctype, .escape => hexExpansion ctype.hexType inp

end Datum

/-- The byte that is allocated on top. -/
def TextCType.slop : TextCType → Nat
  | .binary => 1
  | .char | .wchar => 0

/-- A buffer, with the room that the driver takes it to have. -/
def Allocated (slop ttlbuflen : Nat) : Option (List UInt8) → Prop
  | none => ttlbuflen = 0
  | some buf => ttlbuflen + slop ≤ buf.length

section Texts

variable {max : Nat} {lfConv : Bool} {prev : Option UInt8} {out : Nat} {s : List UInt8}

theorem Allocated.le_length {slop ttlbuflen : Nat} {buf : List UInt8}
    (h : Allocated slop ttlbuflen (some buf)) : ttlbuflen + slop ≤ buf.length := h

theorem Allocated.of_length {slop ttlbuflen : Nat} {buf buf' : List UInt8}
    (h : Allocated slop ttlbuflen (some buf)) (hlen : buf'.length = buf.length) :
    Allocated slop ttlbuflen (some buf') := h.le_length.trans_eq hlen.symm

theorem Allocated.overwrite {slop ttlbuflen : Nat} {buf xs : List UInt8}
    (h : Allocated slop ttlbuflen (some buf)) (hroom : xs.length ≤ buf.length) :
    Allocated slop ttlbuflen (some (overwrite buf xs)) := h.of_length (length_overwrite hroom)

variable {value : ServerValue}

end Texts

/-! ## Bytes -/

section Bytes

variable {inp : List UInt8}

variable {lfConv : Bool}

end Bytes

namespace Datum

end Datum

end PsqlOdbc
