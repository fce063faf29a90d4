import PsqlOdbc.Lib.Utf8
import PsqlOdbc.WinUnicode

/-!
# The two conversions are inverse to each other

`utf16EncodeChar` and Lean's own `String.utf8EncodeChar` say what the forms are.  The packed
words are first computed as numbers (`byte2code_eq` and its neighbours), then each direction
is followed over one character, and over a text by induction on its characters.
-/

namespace PsqlOdbc

open Lib

/-- The UTF-16 form of a character. -/
def utf16EncodeChar (c : Char) : List UInt16 :=
  if c.toNat < 0x10000 then [UInt16.ofNat c.toNat]
  else [UInt16.ofNat (0xd800 + (c.toNat - 0x10000) / 0x400),
    UInt16.ofNat (0xdc00 + (c.toNat - 0x10000) % 0x400)]

/-! ## The packed words -/

theorem or_80 {y : Nat} (h : y < 64) : 0x80 ||| y = 0x80 + y := or_base (n := 6) 2 h

theorem or_c0 {y : Nat} (h : y < 32) : 0xc0 ||| y = 0xc0 + y := or_base (n := 5) 6 h

theorem or_e0 {y : Nat} (h : y < 16) : 0xe0 ||| y = 0xe0 + y := or_base (n := 4) 14 h

theorem or_f0 {y : Nat} (h : y < 8) : 0xf0 ||| y = 0xf0 + y := or_base (n := 3) 30 h

theorem byte2code_eq {w : Nat} (h : w < 0x800) :
    byte2code w = bytes4 0 0 (0x80 + w % 64) (0xc0 + w / 64) := by
  have e1 : (byte2Mask1 &&& w) >>> 6 = bytes4 0 0 0 (w / 64) := by
    rw [show byte2Mask1 &&& w = _ from mask_and 6 5 w, Nat.shiftRight_eq_div_pow, bytes4]
    omega
  have e2 : (byte2Mask2 &&& w) <<< 8 = bytes4 0 0 (w % 64) 0 := by
    rw [show byte2Mask2 &&& w = _ from mask_and 0 6 w, Nat.shiftLeft_eq, bytes4]
    omega
  have hlo : w / 64 < 32 := by omega
  have hhi : w % 64 < 64 := Nat.mod_lt _ (by decide)
  rw [byte2code, e1, e2, show byte2Base = bytes4 0 0 0x80 0xc0 from rfl,
    or_bytes4 0 0 (by decide) (by decide) (by decide) (by decide) (by decide) (by omega),
    or_c0 hlo, or_bytes4 _ 0 (by decide) (by decide) (by omega) (by decide) (by omega) (by decide)]
  simp only [Nat.or_zero, or_80 hhi]

theorem byte3code_eq {w : Nat} (h : w < 0x10000) :
    byte3code w = bytes4 0 (0x80 + w % 64) (0x80 + w / 64 % 64) (0xe0 + w / 4096) := by
  have e1 : (byte3Mask1 &&& w) >>> 12 = bytes4 0 0 0 (w / 4096) := by
    rw [show byte3Mask1 &&& w = _ from mask_and 12 4 w, Nat.shiftRight_eq_div_pow, bytes4]
    omega
  have e2 : (byte3Mask2 &&& w) <<< 2 = bytes4 0 0 (w / 64 % 64) 0 := by
    rw [show byte3Mask2 &&& w = _ from mask_and 6 6 w, Nat.shiftLeft_eq, bytes4]
    omega
  have e3 : (byte3Mask3 &&& w) <<< 16 = bytes4 0 (w % 64) 0 0 := by
    rw [show byte3Mask3 &&& w = _ from mask_and 0 6 w, Nat.shiftLeft_eq, bytes4]
    omega
  have h0 : w / 4096 < 16 := by omega
  have h1 : w / 64 % 64 < 64 := Nat.mod_lt _ (by decide)
  have h2 : w % 64 < 64 := Nat.mod_lt _ (by decide)
  rw [byte3code, e1, e2, e3, show byte3Base = bytes4 0 0x80 0x80 0xe0 from rfl,
    or_bytes4 0 0 (by decide) (by decide) (by decide) (by decide) (by decide) (by omega),
    or_e0 h0, or_bytes4 _ 0 (by decide) (by decide) (by omega) (by decide) (by omega) (by decide)]
  simp only [Nat.or_zero, or_80 h1]
  rw [or_bytes4 _ 0 (by decide) (by omega) (by omega) (by omega) (by decide) (by decide)]
  simp only [Nat.or_zero, or_80 h2]

/-- The four-byte form of the character a surrogate pair stands for, the bits above its
lowest ten being those of `s` (`surrd1`) and the lowest ten those of `t` (`surrd2`). -/
theorem byte4code_eq {w w' s t : Nat} (hs : (w &&& notSurrogCheck) + surrogateAdjust = s)
    (ht : w' &&& notSurrogCheck = t) (hs' : s < 0x800) (ht' : t < 0x400) :
    byte4code w w' = bytes4 (0x80 + t % 64) (0x80 + (s % 4 * 16 + t / 64)) (0x80 + s / 4 % 64)
      (0xf0 + s / 256) := by
  have e1 : (byte4Sr1Mask1 &&& s) >>> 8 = bytes4 0 0 0 (s / 256) := by
    rw [show byte4Sr1Mask1 &&& s = _ from mask_and 8 3 s, Nat.shiftRight_eq_div_pow, bytes4]
    omega
  have e2 : (byte4Sr1Mask2 &&& s) <<< 6 = bytes4 0 0 (s / 4 % 64) 0 := by
    rw [show byte4Sr1Mask2 &&& s = _ from mask_and 2 6 s, Nat.shiftLeft_eq, bytes4]
    omega
  have e3 : (byte4Sr1Mask3 &&& s) <<< 20 = bytes4 0 (s % 4 * 16) 0 0 := by
    rw [show byte4Sr1Mask3 &&& s = _ from mask_and 0 2 s, Nat.shiftLeft_eq, bytes4]
    omega
  have e4 : (byte4Sr2Mask1 &&& t) <<< 10 = bytes4 0 (t / 64) 0 0 := by
    rw [show byte4Sr2Mask1 &&& t = _ from mask_and 6 4 t, Nat.shiftLeft_eq, bytes4]
    omega
  have e5 : (byte4Sr2Mask2 &&& t) <<< 24 = bytes4 (t % 64) 0 0 0 := by
    rw [show byte4Sr2Mask2 &&& t = _ from mask_and 0 6 t, Nat.shiftLeft_eq, bytes4]
    omega
  have h0 : s / 256 < 8 := by omega
  have h1 : s / 4 % 64 < 64 := Nat.mod_lt _ (by decide)
  have h2 : s % 4 * 16 < 64 := by omega
  have h2' : t / 64 < 16 := by omega
  have h3 : t % 64 < 64 := Nat.mod_lt _ (by decide)
  have h22 : 0x80 + s % 4 * 16 ||| t / 64 = 0x80 + (s % 4 * 16 + t / 64) := by
    rw [show 0x80 + s % 4 * 16 = 2 ^ 4 * (8 + s % 4) by omega, or_base (n := 4) _ h2']
    omega
  rw [byte4code]
  simp only [hs, ht]
  rw [e1, e2, e3, e4, e5, show byte4Base = bytes4 0x80 0x80 0x80 0xf0 from rfl,
    or_bytes4 0x80 0 (by decide) (by decide) (by decide) (by decide) (by decide) (by omega),
    or_f0 h0, or_bytes4 _ 0 (by decide) (by decide) (by omega) (by decide) (by omega) (by decide)]
  simp only [Nat.or_zero, or_80 h1]
  rw [or_bytes4 _ 0 (by decide) (by omega) (by omega) (by omega) (by decide) (by decide)]
  simp only [Nat.or_zero, or_80 h2]
  rw [or_bytes4 _ 0 (by omega) (by omega) (by omega) (by omega) (by decide) (by decide), h22]
  simp only [Nat.or_zero]
  rw [or_bytes4 _ _ (by omega) (by omega) (by omega) (by decide) (by decide) (by decide)]
  simp only [Nat.or_zero, or_80 h3]

/-! ## The bytes they leave -/

section

variable {b3 b2 b1 b0 : Nat} (h0 : b0 < 256) (h1 : b1 < 256) (h2 : b2 < 256)
include h0

theorem memBytes_two (littleEndian : Bool) :
    memBytes littleEndian 2 (bytes4 0 0 b1 b0) =
      if littleEndian then [UInt8.ofNat b0, UInt8.ofNat b1]
      else [UInt8.ofNat b1, UInt8.ofNat b0] := by
  have e0 : UInt8.ofNat (bytes4 0 0 b1 b0 / 256 ^ 0) = UInt8.ofNat b0 :=
    uint8_ofNat_congr (by rw [bytes4]; omega)
  have e1 : UInt8.ofNat (bytes4 0 0 b1 b0 / 256 ^ 1) = UInt8.ofNat b1 :=
    uint8_ofNat_congr (by rw [bytes4]; omega)
  cases littleEndian <;> simp only [memBytes, List.range_succ, List.range_zero, List.nil_append,
    List.map_append, List.map_cons, List.map_nil, e0, e1] <;> rfl

include h1 h2

theorem memBytes_four (littleEndian : Bool) :
    memBytes littleEndian 4 (bytes4 b3 b2 b1 b0) =
      if littleEndian then [UInt8.ofNat b0, UInt8.ofNat b1, UInt8.ofNat b2, UInt8.ofNat b3]
      else [UInt8.ofNat b3, UInt8.ofNat b2, UInt8.ofNat b1, UInt8.ofNat b0] := by
  have e0 : UInt8.ofNat (bytes4 b3 b2 b1 b0 / 256 ^ 0) = UInt8.ofNat b0 :=
    uint8_ofNat_congr (by rw [bytes4]; omega)
  have e1 : UInt8.ofNat (bytes4 b3 b2 b1 b0 / 256 ^ 1) = UInt8.ofNat b1 :=
    uint8_ofNat_congr (by rw [bytes4]; omega)
  have e2 : UInt8.ofNat (bytes4 b3 b2 b1 b0 / 256 ^ 2) = UInt8.ofNat b2 :=
    uint8_ofNat_congr (by rw [bytes4]; omega)
  have e3 : UInt8.ofNat (bytes4 b3 b2 b1 b0 / 256 ^ 3) = UInt8.ofNat b3 :=
    uint8_ofNat_congr (by rw [bytes4]; omega)
  cases littleEndian <;> simp only [memBytes, List.range_succ, List.range_zero, List.nil_append,
    List.map_append, List.map_cons, List.map_nil, e0, e1, e2, e3] <;> rfl

end

theorem copyByte2code_eq (littleEndian : Bool) {w : Nat} (h : w < 0x800) :
    copyByte2code littleEndian w = [UInt8.ofNat (0xc0 + w / 64), UInt8.ofNat (0x80 + w % 64)] := by
  rw [copyByte2code, byte2code_eq h, memBytes_two (by omega)]
  cases littleEndian <;> rfl

theorem copyByte3code_eq (littleEndian : Bool) {w : Nat} (h : w < 0x10000) :
    copyByte3code littleEndian w =
      [UInt8.ofNat (0xe0 + w / 4096), UInt8.ofNat (0x80 + w / 64 % 64),
        UInt8.ofNat (0x80 + w % 64)] := by
  rw [copyByte3code, byte3code_eq h, memBytes_four (by omega) (by omega) (by omega)]
  cases littleEndian <;> rfl

theorem copyByte4code_eq (littleEndian : Bool) {w w' s t : Nat}
    (hs : (w &&& notSurrogCheck) + surrogateAdjust = s) (ht : w' &&& notSurrogCheck = t)
    (hs' : s < 0x800) (ht' : t < 0x400) :
    copyByte4code littleEndian w w' =
      [UInt8.ofNat (0xf0 + s / 256), UInt8.ofNat (0x80 + s / 4 % 64),
        UInt8.ofNat (0x80 + (s % 4 * 16 + t / 64)), UInt8.ofNat (0x80 + t % 64)] := by
  rw [copyByte4code, byte4code_eq hs ht hs' ht', memBytes_four (by omega) (by omega) (by omega)]
  cases littleEndian <;> rfl

/-- The low ten bits of a unit. -/
theorem and_notSurrogCheck {w : Nat} (h : w < 0x10000) : w &&& notSurrogCheck = w % 0x400 := by
  have hlow : w &&& 0x3ff = w / 1 % 1024 * 1 := and_mask 0 10 w
  have hhigh : w &&& 0xffff0000 = w / 65536 % 65536 * 65536 := and_mask 16 16 w
  rw [show notSurrogCheck = 0xffff0000 ||| 0x3ff from rfl, Nat.and_or_distrib_left, hlow, hhigh,
    show w / 65536 % 65536 * 65536 = 0 by omega, Nat.zero_or]
  omega

/-! ## To UTF-8 -/

theorem and_ascii {w : Nat} (h : w < 0x10000) : w &&& 0xffffff80 = 0 ↔ w < 0x80 := by
  rw [show w &&& 0xffffff80 = _ from and_mask 7 25 w]
  omega

theorem and_byte3check {w : Nat} (h : w < 0x10000) : w &&& byte3check = 0 ↔ w < 0x800 := by
  rw [show w &&& byte3check = _ from and_mask 11 21 w]
  omega

theorem and_surrogCheck {w : Nat} (h : w < 0x10000) :
    surrog1Bits = w &&& surrogCheck ↔ 0xd800 ≤ w ∧ w < 0xdc00 := by
  rw [show w &&& surrogCheck = _ from and_mask 10 6 w, show surrog1Bits = 0xd800 from rfl]
  omega

section

variable {c : Char} {v : Nat} (hv : c.toNat = v)
include hv

theorem utf16EncodeChar_one (h : v < 0x10000) : utf16EncodeChar c = [UInt16.ofNat v] := by
  rw [utf16EncodeChar, hv, if_pos h]

theorem utf16EncodeChar_two {u : Nat} (h : v = u + 0x10000) :
    utf16EncodeChar c =
      [UInt16.ofNat (0xd800 + u / 0x400), UInt16.ofNat (0xdc00 + u % 0x400)] := by
  rw [utf16EncodeChar, hv, if_neg (by omega), h, Nat.add_sub_cancel]

end

theorem uint16_toNat_ofNat {x : Nat} (h : x < 0x10000) : (UInt16.ofNat x).toNat = x := by
  rw [UInt16.toNat_ofNat']
  omega

theorem wcode2_eq {x y : Nat} (hx : x < 32) (hy : y < 64) :
    wcode2 (0xc0 + x) (0x80 + y) = x * 64 + y := by
  rw [wcode2, show (0xc0 + x) &&& byte2M1 = _ from and_mask 0 5 _,
    show (0x80 + y) &&& byte2M2 = _ from and_mask 0 6 _, Nat.shiftLeft_eq,
    show (0xc0 + x) / 2 ^ 0 % 2 ^ 5 * 2 ^ 0 * 2 ^ 6 = 2 ^ 6 * x by omega,
    show (0x80 + y) / 2 ^ 0 % 2 ^ 6 * 2 ^ 0 = y by omega, or_base _ hy]
  omega

theorem wcode3_eq {x y z : Nat} (hx : x < 16) (hy : y < 64) (hz : z < 64) :
    wcode3 (0xe0 + x) (0x80 + y) (0x80 + z) = x * 4096 + y * 64 + z := by
  have hy' : 2 ^ 6 * y < 2 ^ 12 := by omega
  rw [wcode3, show (0xe0 + x) &&& byte3M1 = _ from and_mask 0 4 _,
    show (0x80 + y) &&& byte3M2 = _ from and_mask 0 6 _,
    show (0x80 + z) &&& byte3M3 = _ from and_mask 0 6 _, Nat.shiftLeft_eq, Nat.shiftLeft_eq,
    show (0xe0 + x) / 2 ^ 0 % 2 ^ 4 * 2 ^ 0 * 2 ^ 12 = 2 ^ 12 * x by omega,
    show (0x80 + y) / 2 ^ 0 % 2 ^ 6 * 2 ^ 0 * 2 ^ 6 = 2 ^ 6 * y by omega,
    show (0x80 + z) / 2 ^ 0 % 2 ^ 6 * 2 ^ 0 = z by omega, or_base _ hy',
    show 2 ^ 12 * x + 2 ^ 6 * y = 2 ^ 6 * (2 ^ 6 * x + y) by omega, or_base _ hz]
  omega

theorem wcode4Lead_eq {s t : Nat} (hs : s < 0x800) (ht : t < 0x400) :
    wcode4Lead (0xf0 + s / 256) (0x80 + s / 4 % 64) (0x80 + (s % 4 * 16 + t / 64)) =
      0xd800 + s - 0x40 := by
  have h1 : 2 ^ 8 * (s / 256) < 2 ^ 11 := by omega
  have h2 : 2 ^ 2 * (s / 4 % 64) < 2 ^ 8 := by omega
  have h3 : s % 4 < 2 ^ 2 := by omega
  rw [wcode4Lead, show (0xf0 + s / 256) &&& byte4M1 = _ from and_mask 0 3 _,
    show (0x80 + s / 4 % 64) &&& byte4M2 = _ from and_mask 0 6 _,
    show (0x80 + (s % 4 * 16 + t / 64)) &&& byte4M31 = _ from and_mask 4 2 _, Nat.shiftLeft_eq,
    Nat.shiftLeft_eq, Nat.shiftRight_eq_div_pow,
    show (0xf0 + s / 256) / 2 ^ 0 % 2 ^ 3 * 2 ^ 0 * 2 ^ 8 = 2 ^ 8 * (s / 256) by omega,
    show (0x80 + s / 4 % 64) / 2 ^ 0 % 2 ^ 6 * 2 ^ 0 * 2 ^ 2 = 2 ^ 2 * (s / 4 % 64) by omega,
    show (0x80 + (s % 4 * 16 + t / 64)) / 2 ^ 4 % 2 ^ 2 * 2 ^ 4 / 2 ^ 4 = s % 4 by omega,
    show surrog1Bits = 2 ^ 11 * 27 from rfl, show surrogateAdjust = 0x40 from rfl, or_base _ h1,
    show 2 ^ 11 * 27 + 2 ^ 8 * (s / 256) = 2 ^ 8 * (216 + s / 256) by omega, or_base _ h2,
    show 2 ^ 8 * (216 + s / 256) + 2 ^ 2 * (s / 4 % 64) = 2 ^ 2 * (0x3600 + s / 4) by omega,
    or_base _ h3]
  omega

theorem wcode4Trail_eq {r t : Nat} (ht : t < 0x400) :
    wcode4Trail (0x80 + (r * 16 + t / 64)) (0x80 + t % 64) = 0xdc00 + t := by
  have h1 : 2 ^ 6 * (t / 64) < 2 ^ 10 := by omega
  have h2 : t % 64 < 2 ^ 6 := by omega
  rw [wcode4Trail, show (0x80 + (r * 16 + t / 64)) &&& byte4M32 = _ from and_mask 0 4 _,
    show (0x80 + t % 64) &&& byte4M4 = _ from and_mask 0 6 _, Nat.shiftLeft_eq,
    show (0x80 + (r * 16 + t / 64)) / 2 ^ 0 % 2 ^ 4 * 2 ^ 0 * 2 ^ 6 = 2 ^ 6 * (t / 64) by omega,
    show (0x80 + t % 64) / 2 ^ 0 % 2 ^ 6 * 2 ^ 0 = t % 64 by omega,
    show surrog2Bits = 2 ^ 10 * 55 from rfl, or_base _ h1,
    show 2 ^ 10 * 55 + 2 ^ 6 * (t / 64) = 2 ^ 6 * (0x370 + t / 64) by omega, or_base _ h2]
  omega

theorem and_80 (x : Nat) : x &&& 0x80 = x / 128 % 2 * 128 := and_mask 7 1 x

theorem and_f8 (x : Nat) : x &&& 0xf8 = x / 8 % 32 * 8 := and_mask 3 5 x

theorem and_f0 (x : Nat) : x &&& 0xf0 = x / 16 % 16 * 16 := and_mask 4 4 x

theorem and_e0 (x : Nat) : x &&& 0xe0 = x / 32 % 8 * 32 := and_mask 5 3 x

theorem and_80_ne_zero {y : Nat} (h : y < 128) : ¬(0x80 + y) &&& 0x80 = 0 := by
  rw [and_80]
  omega

/-- The loop takes the UTF-8 form of a character to its units. -/
theorem utf8Loop_char (errcheck : Bool) {c : Char} (hc : c ≠ Char.ofNat 0) (prev : Option UInt8)
    (bs : List UInt8) {n : Nat} (hn : (String.utf8EncodeChar c).length ≤ n) :
    ∃ prev', utf8Loop false errcheck prev (String.utf8EncodeChar c ++ bs) n =
      (utf8Loop false errcheck prev' bs (n - (String.utf8EncodeChar c).length)).map
        fun us ↦ utf16EncodeChar c ++ us := by
  obtain ⟨v, hv⟩ : ∃ v, c.toNat = v := ⟨_, rfl⟩
  have h0 : v ≠ 0 := fun h ↦ hc (by rw [← h, ← hv, Char.ofNat_toNat])
  have hb0 : ∀ {x : Nat}, x < 256 → x ≠ 0 → UInt8.ofNat x ≠ 0 := fun hx h h' ↦
    h (by rw [← uint8_toNat_ofNat hx, h']; rfl)
  by_cases h7 : v < 0x80
  · rw [utf8EncodeChar_one hv h7, List.length_singleton] at hn ⊢
    refine ⟨some (UInt8.ofNat v), ?_⟩
    rw [List.singleton_append, utf8Loop, uint8_toNat_ofNat (by omega),
      if_neg (not_or.2 ⟨by omega, hb0 (by omega) h0⟩)]
    simp only [and_80]
    rw [if_pos (by omega), utf16EncodeChar_one hv (by omega)]
    rfl
  by_cases h11 : v < 0x800
  · rw [utf8EncodeChar_two hv (by omega) h11, List.length_cons, List.length_singleton] at hn ⊢
    refine ⟨some (UInt8.ofNat (0x80 + v % 64)), ?_⟩
    rw [List.cons_append, List.singleton_append, utf8Loop, uint8_toNat_ofNat (by omega),
      if_neg (not_or.2 ⟨by omega, hb0 (by omega) (by omega)⟩)]
    simp only [List.getD_cons_zero, uint8_toNat_ofNat (show 0x80 + v % 64 < 256 by omega)]
    rw [if_neg (by rw [and_80]; omega), if_neg (by rw [and_f8]; omega),
      if_neg (by rw [and_f8]; omega), if_neg (by rw [and_f0]; omega),
      if_pos (by rw [and_e0]; omega), if_neg, wcode2_eq (by omega) (by omega),
      utf16EncodeChar_one hv (by omega), show v / 64 * 64 + v % 64 = v by omega]
    · rfl
    · rintro ⟨-, h | h⟩
      · omega
      · exact and_80_ne_zero (by omega) h
  rcases Nat.lt_or_ge v 0x10000 with hbmp | hsup
  · rw [utf8EncodeChar_three hv (by omega) hbmp] at hn ⊢
    simp only [List.length_cons, List.length_nil] at hn ⊢
    refine ⟨some (UInt8.ofNat (0x80 + v % 64)), ?_⟩
    rw [List.cons_append, List.cons_append, List.singleton_append, utf8Loop,
      uint8_toNat_ofNat (by omega), if_neg (not_or.2 ⟨by omega, hb0 (by omega) (by omega)⟩)]
    simp only [List.getD_cons_zero, List.getD_cons_succ,
      uint8_toNat_ofNat (show 0x80 + v % 64 < 256 by omega),
      uint8_toNat_ofNat (show 0x80 + v / 64 % 64 < 256 by omega)]
    rw [if_neg (by rw [and_80]; omega), if_neg (by rw [and_f8]; omega),
      if_neg (by rw [and_f8]; omega), if_pos (by rw [and_f0]; omega), if_neg,
      wcode3_eq (by omega) (by omega) (by omega), utf16EncodeChar_one hv hbmp,
      show v / 4096 * 4096 + v / 64 % 64 * 64 + v % 64 = v by omega]
    · rfl
    · rintro ⟨-, h | h | h⟩
      · omega
      · exact and_80_ne_zero (by omega) h
      · exact and_80_ne_zero (by omega) h
  · have hr := char_range c
    rw [hv] at hr
    obtain ⟨u, rfl⟩ : ∃ u, v = u + 0x10000 := ⟨v - 0x10000, by omega⟩
    -- The bits above the lowest ten, and those.
    obtain ⟨s, hs⟩ : ∃ s, u / 0x400 + 0x40 = s := ⟨_, rfl⟩
    obtain ⟨t, ht⟩ : ∃ t, u % 0x400 = t := ⟨_, rfl⟩
    have hlead : (u + 0x10000) / 262144 = s / 256 := by omega
    have h2 : (u + 0x10000) / 4096 % 64 = s / 4 % 64 := by omega
    have h3 : (u + 0x10000) / 64 % 64 = s % 4 * 16 + t / 64 := by omega
    have h4 : (u + 0x10000) % 64 = t % 64 := by omega
    rw [utf8EncodeChar_four hv (by omega) (by omega), hlead, h2, h3, h4] at hn ⊢
    simp only [List.length_cons, List.length_nil] at hn ⊢
    refine ⟨some (UInt8.ofNat (0x80 + t % 64)), ?_⟩
    rw [List.cons_append, List.cons_append, List.cons_append, List.singleton_append, utf8Loop,
      uint8_toNat_ofNat (by omega), if_neg (not_or.2 ⟨by omega, hb0 (by omega) (by omega)⟩)]
    simp only [List.getD_cons_zero, List.getD_cons_succ,
      uint8_toNat_ofNat (show 0x80 + t % 64 < 256 by omega),
      uint8_toNat_ofNat (show 0x80 + (s % 4 * 16 + t / 64) < 256 by omega),
      uint8_toNat_ofNat (show 0x80 + s / 4 % 64 < 256 by omega)]
    rw [if_neg (by rw [and_80]; omega), if_neg (by rw [and_f8]; omega),
      if_pos (by rw [and_f8]; omega), if_neg, wcode4Lead_eq (by omega) (by omega),
      wcode4Trail_eq (by omega), utf16EncodeChar_two hv rfl, ht,
      show 0xd800 + s - 0x40 = 0xd800 + u / 0x400 by omega]
    · rfl
    · rintro ⟨-, h | h | h | h⟩
      · omega
      · exact and_80_ne_zero (by omega) h
      · exact and_80_ne_zero (by omega) h
      · exact and_80_ne_zero (by omega) h

/-! ## Texts -/

/-- The UTF-16 form of a text. -/
def utf16Encode (chars : List Char) : List UInt16 := chars.flatMap utf16EncodeChar

/-- The UTF-8 form of a text. -/
def utf8Encode (chars : List Char) : List UInt8 := chars.flatMap String.utf8EncodeChar

section

variable {chars : List Char} (h0 : Char.ofNat 0 ∉ chars)
include h0

theorem utf8Loop_text (errcheck : Bool) (prev : Option UInt8) (rest : List UInt8) {n : Nat}
    (hn : (utf8Encode chars).length = n) :
    utf8Loop false errcheck prev (utf8Encode chars ++ rest) n = some (utf16Encode chars) := by
  induction chars generalizing n prev with
  | nil =>
    obtain rfl : 0 = n := hn
    cases rest with
    | nil => rw [utf8Encode, List.flatMap_nil, List.nil_append, utf8Loop]; rfl
    | cons b bs =>
      rw [utf8Encode, List.flatMap_nil, List.nil_append, utf8Loop]
      exact if_pos (Or.inl rfl)
  | cons c cs ih =>
    rw [List.mem_cons, not_or] at h0
    rw [utf8Encode, List.flatMap_cons, ← utf8Encode, List.length_append] at hn
    obtain ⟨prev', he⟩ := utf8Loop_char errcheck (Ne.symm h0.1) prev (utf8Encode cs ++ rest)
      (n := n) (by omega)
    rw [utf8Encode, List.flatMap_cons, ← utf8Encode, List.append_assoc, he,
      ih h0.2 prev' (by omega)]
    rfl

theorem zero_notMem_utf16Encode : 0 ∉ utf16Encode chars := by
  rw [utf16Encode, List.mem_flatMap]
  rintro ⟨c, hc, hm⟩
  have hne : c ≠ Char.ofNat 0 := fun h ↦ h0 (h ▸ hc)
  have hpos : c.toNat ≠ 0 := fun h ↦ hne (by rw [← h, Char.ofNat_toNat])
  have hnz : ∀ {x : Nat}, x < 0x10000 → x ≠ 0 → (0 : UInt16) ≠ UInt16.ofNat x := fun hx h h' ↦
    h (by rw [← uint16_toNat_ofNat hx, ← h']; rfl)
  have hr := char_range c
  rcases Nat.lt_or_ge c.toNat 0x10000 with hbmp | hsup
  · rw [utf16EncodeChar_one rfl hbmp, List.mem_singleton] at hm
    exact hnz hbmp hpos hm
  · rw [utf16EncodeChar_two (u := c.toNat - 0x10000) rfl (by omega), List.mem_pair] at hm
    rcases hm with hm | hm
    · exact hnz (by omega) (by omega) hm
    · exact hnz (by omega) (by omega) hm

theorem zero_notMem_utf8Encode : 0 ∉ utf8Encode chars := by
  rw [utf8Encode, List.mem_flatMap]
  rintro ⟨c, hc, hm⟩
  have hne : c ≠ Char.ofNat 0 := fun h ↦ h0 (h ▸ hc)
  have hpos : c.toNat ≠ 0 := fun h ↦ hne (by rw [← h, Char.ofNat_toNat])
  have hnz : ∀ {x : Nat}, x < 0x100 → x ≠ 0 → (0 : UInt8) ≠ UInt8.ofNat x := fun hx h h' ↦
    h (by rw [← uint8_toNat_ofNat hx, ← h']; rfl)
  have hr := char_range c
  by_cases h7 : c.toNat < 0x80
  · rw [utf8EncodeChar_one rfl h7, List.mem_singleton] at hm
    exact hnz (by omega) hpos hm
  by_cases h11 : c.toNat < 0x800
  · rw [utf8EncodeChar_two rfl (by omega) h11, List.mem_pair] at hm
    rcases hm with hm | hm
    · exact hnz (by omega) (by omega) hm
    · exact hnz (by omega) (by omega) hm
  rcases Nat.lt_or_ge c.toNat 0x10000 with hbmp | hsup
  · rw [utf8EncodeChar_three rfl (by omega) hbmp] at hm
    simp only [List.mem_cons, List.not_mem_nil, or_false] at hm
    rcases hm with hm | hm | hm
    · exact hnz (by omega) (by omega) hm
    · exact hnz (by omega) (by omega) hm
    · exact hnz (by omega) (by omega) hm
  · rw [utf8EncodeChar_four rfl hsup (by omega)] at hm
    simp only [List.mem_cons, List.not_mem_nil, or_false] at hm
    rcases hm with hm | hm | hm | hm
    · exact hnz (by omega) (by omega) hm
    · exact hnz (by omega) (by omega) hm
    · exact hnz (by omega) (by omega) hm
    · exact hnz (by omega) (by omega) hm

end

/-- Up to the terminator. -/
theorem takeWhile_ne_zero {α : Type} [OfNat α 0] [DecidableEq α] {s rest : List α}
    (hs : (0 : α) ∉ s) (hr : rest.headD 0 = 0) : (s ++ rest).takeWhile (· ≠ 0) = s := by
  rw [List.takeWhile_append_of_pos]
  · cases rest with
    | nil => rw [List.takeWhile_nil, List.append_nil]
    | cons r rs =>
      obtain rfl : r = 0 := hr
      rw [List.takeWhile_cons_of_neg (by simp), List.append_nil]
  · intro a ha
    exact decide_eq_true fun h ↦ hs (h ▸ ha)

end PsqlOdbc
