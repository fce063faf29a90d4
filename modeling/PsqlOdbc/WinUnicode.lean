import Mathlib.Data.List.Basic
import PsqlOdbc.Lib.Bits

/-!
# Wide strings (`win_unicode.c`)

The driver talks UTF-8 to the server and UTF-16 to the application.  `ucs2ToUtf8` and
`utf8ToUcs2Lf` pack and unpack the bits of each form by hand; the words they pack go through
memory, in the byte order of the machine.
-/

namespace PsqlOdbc

/-! ## Words in memory -/

/-- The bytes of a word of `size` bytes, in the order they have in memory. -/
def memBytes (littleEndian : Bool) (size : Nat) (x : Nat) : List UInt8 :=
  let bytes := (List.range size).map fun i ↦ UInt8.ofNat (x / 256 ^ i)
  if littleEndian then bytes else bytes.reverse

/-! ## `ucs2_to_utf8` -/

def byte3check : Nat := 0xfffff800
def byte2Base : Nat := 0x80c0
def byte2Mask1 : Nat := 0x07c0
def byte2Mask2 : Nat := 0x003f
def byte3Base : Nat := 0x8080e0
def byte3Mask1 : Nat := 0xf000
def byte3Mask2 : Nat := 0x0fc0
def byte3Mask3 : Nat := 0x003f
def surrogCheck : Nat := 0xfc00
def surrog1Bits : Nat := 0xd800
def surrog2Bits : Nat := 0xdc00
def byte4Base : Nat := 0x808080f0
def byte4Sr1Mask1 : Nat := 0x0700
def byte4Sr1Mask2 : Nat := 0x00fc
def byte4Sr1Mask3 : Nat := 0x0003
def byte4Sr2Mask1 : Nat := 0x03c0
def byte4Sr2Mask2 : Nat := 0x003f
def surrogateAdjust : Nat := 0x10000 >>> 10

/-- `~surrog_check`. -/
def notSurrogCheck : Nat := 0xffff03ff

/-- `byte2code`. -/
def byte2code (w : Nat) : Nat :=
  byte2Base ||| ((byte2Mask1 &&& w) >>> 6) ||| ((byte2Mask2 &&& w) <<< 8)

/-- `byte4code` of the three-byte form. -/
def byte3code (w : Nat) : Nat :=
  byte3Base ||| ((byte3Mask1 &&& w) >>> 12) ||| ((byte3Mask2 &&& w) <<< 2) |||
    ((byte3Mask3 &&& w) <<< 16)

/-- `byte4code` of a surrogate pair. -/
def byte4code (w w' : Nat) : Nat :=
  let surrd1 := (w &&& notSurrogCheck) + surrogateAdjust
  let surrd2 := w' &&& notSurrogCheck
  byte4Base ||| ((byte4Sr1Mask1 &&& surrd1) >>> 8) ||| ((byte4Sr1Mask2 &&& surrd1) <<< 6) |||
    ((byte4Sr1Mask3 &&& surrd1) <<< 20) ||| ((byte4Sr2Mask1 &&& surrd2) <<< 10) |||
    ((byte4Sr2Mask2 &&& surrd2) <<< 24)

/-- The bytes of the two-byte form, copied as a whole or one by one. -/
def copyByte2code (littleEndian : Bool) (w : Nat) : List UInt8 :=
  let mem := memBytes littleEndian 2 (byte2code w)
  if littleEndian then mem else [mem.getD 1 0, mem.getD 0 0]

/-- The bytes of the three-byte form. -/
def copyByte3code (littleEndian : Bool) (w : Nat) : List UInt8 :=
  let mem := memBytes littleEndian 4 (byte3code w)
  if littleEndian then mem.take 3 else [mem.getD 3 0, mem.getD 2 0, mem.getD 1 0]

/-- The bytes of the four-byte form. -/
def copyByte4code (littleEndian : Bool) (w w' : Nat) : List UInt8 :=
  let mem := memBytes littleEndian 4 (byte4code w w')
  if littleEndian then mem else [mem.getD 3 0, mem.getD 2 0, mem.getD 1 0, mem.getD 0 0]

/-- `tolower`, of an ASCII character. -/
def tolower (w : Nat) : Nat := if 0x41 ≤ w ∧ w ≤ 0x5a then w + 0x20 else w

/-- `ucs2strlen`. -/
def ucs2strlen (ucs2str : List UInt16) : Nat := (ucs2str.takeWhile (· ≠ 0)).length

/-- The loop of `ucs2_to_utf8` with `n` units left to read. -/
def ucs2Loop (littleEndian lowerIdentifier : Bool) : List UInt16 → Nat → List UInt8
  | [], _ => []
  | wstr :: ws, n =>
    let w := wstr.toNat
    if n = 0 ∨ w = 0 then []
    else if w &&& 0xffffff80 = 0 then
      UInt8.ofNat (if lowerIdentifier then tolower w else w) ::
        ucs2Loop littleEndian lowerIdentifier ws (n - 1)
    else if w &&& byte3check = 0 then
      copyByte2code littleEndian w ++ ucs2Loop littleEndian lowerIdentifier ws (n - 1)
    else if surrog1Bits = w &&& surrogCheck then
      match ws with
      -- The unit behind the string is its terminator, and the loop goes on behind that.
      | [] => copyByte4code littleEndian w 0
      | wstr' :: ws =>
        copyByte4code littleEndian w wstr'.toNat ++
          ucs2Loop littleEndian lowerIdentifier ws (n - 2)
    else copyByte3code littleEndian w ++ ucs2Loop littleEndian lowerIdentifier ws (n - 1)

def byte3M1 : Nat := 0x0f
def byte3M2 : Nat := 0x3f
def byte3M3 : Nat := 0x3f
def byte2M1 : Nat := 0x1f
def byte2M2 : Nat := 0x3f
def byte4M1 : Nat := 0x07
def byte4M2 : Nat := 0x3f
def byte4M31 : Nat := 0x30
def byte4M32 : Nat := 0x0f
def byte4M4 : Nat := 0x3f

/-- The leading surrogate of a four-byte form. -/
def wcode4Lead (b0 b1 b2 : Nat) : Nat :=
  (surrog1Bits ||| ((b0 &&& byte4M1) <<< 8) ||| ((b1 &&& byte4M2) <<< 2) |||
    ((b2 &&& byte4M31) >>> 4)) - surrogateAdjust

/-- The trailing surrogate of a four-byte form. -/
def wcode4Trail (b2 b3 : Nat) : Nat :=
  surrog2Bits ||| ((b2 &&& byte4M32) <<< 6) ||| (b3 &&& byte4M4)

/-- The unit of a three-byte form. -/
def wcode3 (b0 b1 b2 : Nat) : Nat :=
  ((b0 &&& byte3M1) <<< 12) ||| ((b1 &&& byte3M2) <<< 6) ||| (b2 &&& byte3M3)

/-- The unit of a two-byte form. -/
def wcode2 (b0 b1 : Nat) : Nat :=
  ((b0 &&& byte2M1) <<< 6) ||| (b1 &&& byte2M2)

/-- The loop of `utf8_to_ucs2_lf` with `n` bytes left to read and `prev` the byte before, if
there is one: the units it stores, or `none` where it gives up. -/
def utf8Loop (lfconv errcheck : Bool) (prev : Option UInt8) (str : List UInt8) (n : Nat) :
    Option (List UInt16) :=
  match str with
  | [] => some []
  | b :: bs =>
    if n = 0 ∨ b = 0 then some []
    else
      let b0 := b.toNat
      let b1 := (bs.getD 0 0).toNat
      let b2 := (bs.getD 1 0).toNat
      let b3 := (bs.getD 2 0).toNat
      if b0 &&& 0x80 = 0 then
        let cr : List UInt16 := if lfconv ∧ b = 0x0a ∧ prev ≠ some 0x0d then [0x0d] else []
        (utf8Loop lfconv errcheck (some b) bs (n - 1)).map fun us ↦ cr ++ UInt16.ofNat b0 :: us
      else if 0xf8 = b0 &&& 0xf8 then none
      else if 0xf0 = b0 &&& 0xf8 then
        if errcheck ∧ (n < 4 ∨ b1 &&& 0x80 = 0 ∨ b2 &&& 0x80 = 0 ∨ b3 &&& 0x80 = 0) then none
        else (utf8Loop lfconv errcheck (bs[2]?) (bs.drop 3) (n - 4)).map fun us ↦
          UInt16.ofNat (wcode4Lead b0 b1 b2) :: UInt16.ofNat (wcode4Trail b2 b3) :: us
      else if 0xe0 = b0 &&& 0xf0 then
        if errcheck ∧ (n < 3 ∨ b1 &&& 0x80 = 0 ∨ b2 &&& 0x80 = 0) then none
        else (utf8Loop lfconv errcheck (bs[1]?) (bs.drop 2) (n - 3)).map fun us ↦
          UInt16.ofNat (wcode3 b0 b1 b2) :: us
      else if 0xc0 = b0 &&& 0xe0 then
        if errcheck ∧ (n < 2 ∨ b1 &&& 0x80 = 0) then none
        else (utf8Loop lfconv errcheck (bs[0]?) (bs.drop 1) (n - 2)).map fun us ↦
          UInt16.ofNat (wcode2 b0 b1) :: us
      else none
termination_by str.length
decreasing_by all_goals simp only [List.length_cons, List.length_drop]; omega

/-- The return value that reports an error, `(SQLULEN) -1`. -/
def sqlulenMinusOne : Nat := 2 ^ 64 - 1

end PsqlOdbc
