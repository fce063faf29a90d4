import PsqlOdbc.Lib.LineEnds
import PsqlOdbc.WinUnicodeBuffer
import PsqlOdbc.WinUnicodeRoundTrip

/-!
# UTF-32 (`win_unicode.c`)

Where `wchar_t` has four bytes, text goes to the locale and back through UTF-32.  `ucs2_to_ucs4` and
`ucs4_to_ucs2_lf` move the bytes of the words, which are those of a little endian machine: on others
this path is not taken (`get_convtype`).
-/

namespace PsqlOdbc

open Lib

def surrog1Byte : Nat := 0xd8
def surrog2Byte : Nat := 0xdc

/-- `ucdt`: the bytes of two units that follow each other. -/
def ucdt (w w' : Nat) : Nat → Nat
  | 0 => w % 256
  | 1 => w / 256
  | 2 => w' % 256
  | _ => w' / 256

@[simp] theorem ucdt_zero (w w' : Nat) : ucdt w w' 0 = w % 256 := rfl

@[simp] theorem ucdt_one (w w' : Nat) : ucdt w w' 1 = w / 256 := rfl

@[simp] theorem ucdt_two (w w' : Nat) : ucdt w w' 2 = w' % 256 := rfl

/-- The unit with the bytes `udt[0]` and `udt[1]`. -/
def udtUnit (udt0 udt1 : Nat) : UInt16 := UInt16.ofNat (udt0 + 0x100 * udt1)

/-- The units for a word; `prev` is the word before. -/
def ucs4ToUcs2Round (lfconv : Bool) (prev : Option UInt32) (uintdt : UInt32) : List UInt16 :=
  let sqlwdt0 := uintdt.toNat % 0x10000
  let sqlwdt1 := uintdt.toNat / 0x10000
  if sqlwdt1 = 0 then
    (if lfconv ∧ sqlwdt0 % 256 = 0x0a ∧ prev.map (·.toNat % 256) ≠ some 0x0d then
      [udtUnit 0x0d 0] else []) ++ [UInt16.ofNat sqlwdt0]
  else
    let ucdt := ucdt sqlwdt0 (sqlwdt1 - 1)
    [udtUnit (((0xfc &&& ucdt 1) >>> 2) ||| ((0x3 &&& ucdt 2) <<< 6))
      (surrog1Byte ||| ((0xc &&& ucdt 2) >>> 2)),
     udtUnit (ucdt 0) (surrog2Byte ||| (0x3 &&& ucdt 1))]

/-- The loop with `n` words left to read. -/
def ucs4ToUcs2Loop (bufcount : Nat) (lfconv : Bool) :
    Option UInt32 → List UInt32 → Nat → CountingBuffer UInt16 → Option (CountingBuffer UInt16)
  | _, [], _, b => some b
  | prev, uintdt :: ws, n, b =>
    if n = 0 ∨ uintdt = 0 then some b
    else
      (b.putAll bufcount (ucs4ToUcs2Round lfconv prev uintdt)).bind
        (ucs4ToUcs2Loop bufcount lfconv (some uintdt) ws (n - 1))

/-- `ucs4strlen`. -/
def ucs4strlen (ucs4str : List UInt32) : Nat := (ucs4str.takeWhile (· ≠ 0)).length

/-- `ucs4_to_ucs2_lf`: the return value and the memory from the buffer on. -/
def ucs4ToUcs2Lf (ucs4str : List UInt32) (ilen : Int) (ucs2str : List UInt16) (bufcount : Nat)
    (lfconv : Bool) : Option (Nat × List UInt16) :=
  let len := if ilen < 0 then ucs4strlen ucs4str else ilen.toNat
  (ucs4ToUcs2Loop bufcount lfconv none ucs4str len ⟨0, ucs2str⟩).bind fun b ↦
    (b.terminate bufcount 0).map fun cells ↦ (b.ocount, cells)

/-! ## `ucs4_to_utf8` -/

/-- The UTF-32 form of a text. -/
def utf32Encode (chars : List Char) : List UInt32 := chars.map fun c ↦ UInt32.ofNat c.toNat

theorem uint32_toNat_ofNat {x : Nat} (h : x < 0x100000000) : (UInt32.ofNat x).toNat = x := by
  rw [UInt32.toNat_ofNat']
  omega

section

variable {c : Char} {v : Nat} (hv : c.toNat = v)
include hv

/-- The units of one character. -/
theorem ucs4ToUcs2Round_char (prev : Option UInt32) :
    ucs4ToUcs2Round false prev (UInt32.ofNat v) = utf16EncodeChar c := by
  have hr := char_range c
  rw [hv] at hr
  rw [ucs4ToUcs2Round, uint32_toNat_ofNat (by omega)]
  dsimp only
  rcases Nat.lt_or_ge v 0x10000 with hbmp | hsup
  · rw [if_pos (by omega), if_neg fun h ↦ Bool.false_ne_true h.1, List.nil_append,
      Nat.mod_eq_of_lt hbmp, utf16EncodeChar_one hv hbmp]
  · obtain ⟨u, rfl⟩ : ∃ u, v = u + 0x10000 := ⟨v - 0x10000, by omega⟩
    have e0 : (u + 0x10000) % 0x10000 % 256 = u % 256 := by omega
    have e1 : (u + 0x10000) % 0x10000 / 256 = u / 256 % 256 := by omega
    have e2 : ((u + 0x10000) / 0x10000 - 1) % 256 = u / 0x10000 := by omega
    have ha : (0xfc &&& u / 256 % 256) >>> 2 = u / 1024 % 64 := by
      rw [show 0xfc &&& u / 256 % 256 = _ from mask_and 2 6 _, Nat.shiftRight_eq_div_pow]
      omega
    have hb : (0x3 &&& u / 0x10000) <<< 6 = 2 ^ 6 * (u / 0x10000 % 4) := by
      rw [show 0x3 &&& u / 0x10000 = _ from mask_and 0 2 _, Nat.shiftLeft_eq]
      omega
    have hc : (0xc &&& u / 0x10000) >>> 2 = u / 0x40000 := by
      rw [show 0xc &&& u / 0x10000 = _ from mask_and 2 2 _, Nat.shiftRight_eq_div_pow]
      omega
    have hd : 0x3 &&& u / 256 % 256 = u / 256 % 4 := by
      rw [show 0x3 &&& u / 256 % 256 = _ from mask_and 0 2 _]
      omega
    rw [if_neg (by omega), utf16EncodeChar_two hv rfl]
    rw [ucdt_zero, ucdt_one, ucdt_two, e0, e1, e2, ha, hb, hc, hd, Nat.or_comm, or_base _ (by omega),
      show surrog1Byte = 2 ^ 2 * 54 from rfl, or_base _ (by omega),
      show surrog2Byte = 2 ^ 2 * 55 from rfl, or_base _ (by omega), udtUnit, udtUnit,
      show 2 ^ 6 * (u / 0x10000 % 4) + u / 1024 % 64 + 0x100 * (2 ^ 2 * 54 + u / 0x40000) =
        0xd800 + u / 0x400 by omega,
      show u % 256 + 0x100 * (2 ^ 2 * 55 + u / 256 % 4) = 0xdc00 + u % 0x400 by omega]

end

section

variable {α : Type} (target : WideTarget α) (lfconv errcheck : Bool)

/-- The units a character is converted to. -/
def charUnits (c : Char) : List α :=
  let v := c.toNat
  if v < 0x10000 then [target.unit v]
  else
    (target.four (0xf0 + v / 262144) (0x80 + v / 4096 % 64) (0x80 + v / 64 % 64)
      (0x80 + v % 64)).map (·.1)

theorem uint8_ofNat_ne_zero {x : Nat} (hx : x < 256) (h0 : x ≠ 0) : UInt8.ofNat x ≠ 0 := by
  intro h
  refine h0 ?_
  rw [← uint8_toNat_ofNat hx, h]
  rfl

theorem formRound_units {n k : Nat} {bs : List UInt8} (hn : k ≤ n)
    (htails : ∀ i < k - 1, ¬(bs.getD i 0).toNat &&& 0x80 = 0) (puts : List (α × Nat)) :
    formRound errcheck n k bs puts = .units puts k (checkForm errcheck k n bs).2 := by
  rw [formRound_eq, if_neg]
  rintro ⟨-, h | ⟨i, hi, hzero⟩⟩
  · omega
  · exact htails i hi hzero

theorem and_80_tail {x : Nat} (h : x < 64) : ¬(UInt8.ofNat (0x80 + x)).toNat &&& 0x80 = 0 := by
  rw [uint8_toNat_ofNat (by omega)]
  exact and_80_ne_zero (by omega)

/-- The carriage return that is put in front of a line feed. -/
def crUnits (prev : Option UInt8) (c : Char) : List α :=
  if lfconv ∧ c.toNat = 0x0a ∧ prev ≠ some 0x0d then [target.unit 0x0d] else []

/-- The form of a character is one round. -/
theorem utf8Round_char {c : Char} (hc : c ≠ Char.ofNat 0) (prev : Option UInt8) (bs : List UInt8)
    {n : Nat} (hn : (String.utf8EncodeChar c).length ≤ n) : ∃ b tail puts seen,
      String.utf8EncodeChar c = b :: tail ∧
        utf8Round target lfconv errcheck prev b (tail ++ bs) n =
          .units puts (tail.length + 1) seen ∧
        puts.map (·.1) = crUnits target lfconv prev c ++ charUnits target c := by
  obtain ⟨v, hv⟩ : ∃ v, c.toNat = v := ⟨_, rfl⟩
  have h0 : v ≠ 0 := fun h ↦ hc (by rw [← h, ← hv, Char.ofNat_toNat])
  rw [charUnits, crUnits, hv]
  by_cases h7 : v < 0x80
  · have hb : UInt8.ofNat v = 0x0a ↔ v = 0x0a := by
      constructor
      · intro h
        rw [← @uint8_toNat_ofNat v (by omega), h]
        rfl
      · intro h
        rw [h]
        rfl
    rw [utf8EncodeChar_one hv h7, List.length_singleton] at hn
    have hround : utf8Round target lfconv errcheck prev (UInt8.ofNat v) bs n =
        .units ((if lfconv ∧ UInt8.ofNat v = 0x0a ∧ prev ≠ some 0x0d then [(target.unit 0x0d, 1)]
          else []) ++ [(target.unit v, 1)]) 1 1 := by
      have hascii : v &&& 0x80 = 0 := by
        rw [and_80]
        omega
      rw [utf8Round, if_neg (by omega), if_neg (uint8_ofNat_ne_zero (by omega) h0),
        @uint8_toNat_ofNat v (by omega)]
      exact if_pos hascii
    refine ⟨UInt8.ofNat v, [], _, 1, utf8EncodeChar_one hv h7, hround, ?_⟩
    rw [if_pos (show v < 0x10000 by omega), List.map_append]
    simp only [hb]
    split
    · rfl
    · rfl
  rw [if_neg (show ¬(lfconv = true ∧ v = 0x0a ∧ prev ≠ some 0x0d) by omega), List.nil_append]
  by_cases h11 : v < 0x800
  · have he := utf8EncodeChar_two hv (by omega) h11
    replace hn : 2 ≤ n := by
      rw [he] at hn
      exact hn
    have hround : utf8Round target lfconv errcheck prev (UInt8.ofNat (0xc0 + v / 64))
        (UInt8.ofNat (0x80 + v % 64) :: bs) n = formRound errcheck n 2
          (UInt8.ofNat (0x80 + v % 64) :: bs) [(target.unit v, 2)] := by
      rw [utf8Round, if_neg (by omega), if_neg (uint8_ofNat_ne_zero (by omega) (by omega)),
        uint8_toNat_ofNat (by omega)]
      simp only [and_80, and_f8, and_f0, and_e0, List.getD_cons_zero]
      rw [if_neg (by omega), if_neg (by omega), if_neg (by omega), if_neg (by omega),
        if_pos (by omega), uint8_toNat_ofNat (by omega), wcode2_eq (by omega) (by omega),
        show v / 64 * 64 + v % 64 = v by omega]
    rw [formRound_units errcheck hn] at hround
    · exact ⟨_, _, _, _, he, hround, by rw [if_pos (by omega)]; rfl⟩
    · intro i hi
      obtain rfl : i = 0 := by omega
      exact and_80_tail (by omega)
  rcases Nat.lt_or_ge v 0x10000 with hbmp | hsup
  · have he := utf8EncodeChar_three hv (by omega) hbmp
    replace hn : 3 ≤ n := by
      rw [he] at hn
      exact hn
    have hround : utf8Round target lfconv errcheck prev (UInt8.ofNat (0xe0 + v / 4096))
        (UInt8.ofNat (0x80 + v / 64 % 64) :: UInt8.ofNat (0x80 + v % 64) :: bs) n =
          formRound errcheck n 3
            (UInt8.ofNat (0x80 + v / 64 % 64) :: UInt8.ofNat (0x80 + v % 64) :: bs)
            [(target.unit v, 3)] := by
      rw [utf8Round, if_neg (by omega), if_neg (uint8_ofNat_ne_zero (by omega) (by omega)),
        uint8_toNat_ofNat (by omega)]
      simp only [and_80, and_f8, and_f0, and_e0, List.getD_cons_zero, List.getD_cons_succ]
      rw [if_neg (by omega), if_neg (by omega), if_neg (by omega), if_pos (by omega),
        uint8_toNat_ofNat (by omega), uint8_toNat_ofNat (by omega),
        wcode3_eq (by omega) (by omega) (by omega),
        show v / 4096 * 4096 + v / 64 % 64 * 64 + v % 64 = v by omega]
    rw [formRound_units errcheck hn] at hround
    · exact ⟨_, _, _, _, he, hround, by rw [if_pos (by omega)]; rfl⟩
    · intro i hi
      obtain rfl | rfl : i = 0 ∨ i = 1 := by omega
      · exact and_80_tail (by omega)
      · exact and_80_tail (by omega)
  · have hr := char_range c
    rw [hv] at hr
    have he := utf8EncodeChar_four hv hsup (by omega)
    replace hn : 4 ≤ n := by
      rw [he] at hn
      exact hn
    have hround : utf8Round target lfconv errcheck prev (UInt8.ofNat (0xf0 + v / 262144))
        (UInt8.ofNat (0x80 + v / 4096 % 64) :: UInt8.ofNat (0x80 + v / 64 % 64) ::
          UInt8.ofNat (0x80 + v % 64) :: bs) n =
          formRound errcheck n 4
            (UInt8.ofNat (0x80 + v / 4096 % 64) :: UInt8.ofNat (0x80 + v / 64 % 64) ::
              UInt8.ofNat (0x80 + v % 64) :: bs)
            (target.four (0xf0 + v / 262144) (0x80 + v / 4096 % 64) (0x80 + v / 64 % 64)
              (0x80 + v % 64)) := by
      rw [utf8Round, if_neg (by omega), if_neg (uint8_ofNat_ne_zero (by omega) (by omega)),
        uint8_toNat_ofNat (by omega)]
      simp only [and_80, and_f8, and_f0, and_e0, List.getD_cons_zero, List.getD_cons_succ]
      rw [if_neg (by omega), if_neg (by omega), if_pos (by omega), uint8_toNat_ofNat (by omega),
        uint8_toNat_ofNat (by omega), uint8_toNat_ofNat (by omega)]
    rw [formRound_units errcheck hn] at hround
    · exact ⟨_, _, _, _, he, hround, by rw [if_neg (by omega)]⟩
    · intro i hi
      obtain rfl | rfl | rfl : i = 0 ∨ i = 1 ∨ i = 2 := by omega
      · exact and_80_tail (by omega)
      · exact and_80_tail (by omega)
      · exact and_80_tail (by omega)

/-- A character, whatever is in front of it and behind. -/
theorem utf8Units_char {c : Char} (hc : c ≠ Char.ofNat 0) (prev : Option UInt8) (bs : List UInt8)
    {n : Nat} (hn : (String.utf8EncodeChar c).length ≤ n) :
    utf8Units target lfconv errcheck prev (String.utf8EncodeChar c ++ bs) n =
      Prod.map (crUnits target lfconv prev c ++ charUnits target c ++ ·) id
        (utf8Units target lfconv errcheck (String.utf8EncodeChar c).getLast? bs
          (n - (String.utf8EncodeChar c).length)) := by
  obtain ⟨b, tail, puts, seen, he, hround, hputs⟩ :=
    utf8Round_char target lfconv errcheck hc prev bs hn
  have hlast : (b :: (tail ++ bs))[tail.length]? = (b :: tail).getLast? := by
    rw [← List.cons_append, List.getElem?_append_left (by rw [List.length_cons]; omega),
      List.getLast?_eq_getElem?, List.length_cons, Nat.add_sub_cancel]
  rw [he, List.cons_append, utf8Units, hround]
  dsimp only
  rw [Nat.add_sub_cancel, hlast, List.drop_left, hputs, List.length_cons]

/-- The bytes of a character end with CR if it is one. -/
theorem getLast?_utf8EncodeChar (c : Char) :
    (String.utf8EncodeChar c).getLast? = some 0x0d ↔ c = '\r' := by
  constructor
  · intro h
    have hr := char_range c
    have hlast : ∀ {x : Nat}, x < 64 → some (UInt8.ofNat (0x80 + x)) ≠ some 0x0d := by
      intro x hx hx'
      have hnat := congrArg UInt8.toNat (Option.some_inj.1 hx')
      rw [uint8_toNat_ofNat (by omega), show (0x0d : UInt8).toNat = 0x0d from rfl] at hnat
      omega
    by_cases h7 : c.toNat < 0x80
    · rw [utf8EncodeChar_one rfl h7, List.getLast?_singleton, Option.some_inj] at h
      have hnat := congrArg UInt8.toNat h
      rw [uint8_toNat_ofNat (by omega), show (0x0d : UInt8).toNat = 0x0d from rfl] at hnat
      rw [← Char.ofNat_toNat c, hnat]
    by_cases h11 : c.toNat < 0x800
    · rw [utf8EncodeChar_two rfl (by omega) h11] at h
      exact absurd h (hlast (Nat.mod_lt _ (by decide)))
    rcases Nat.lt_or_ge c.toNat 0x10000 with hbmp | hsup
    · rw [utf8EncodeChar_three rfl (by omega) hbmp] at h
      exact absurd h (hlast (Nat.mod_lt _ (by decide)))
    · rw [utf8EncodeChar_four rfl hsup (by omega)] at h
      exact absurd h (hlast (Nat.mod_lt _ (by decide)))
  · rintro rfl
    decide

/-- The byte in front tells whether the character in front is a CR. -/
theorem prev_cr (prev : Option Char) :
    (prev.bind fun c ↦ (String.utf8EncodeChar c).getLast?) = some 0x0d ↔ prev = some '\r' := by
  cases prev with
  | none => exact ⟨fun h ↦ (nomatch h), fun h ↦ (nomatch h)⟩
  | some p => rw [Option.bind_some, getLast?_utf8EncodeChar, Option.some_inj]

theorem charUnits_cr : charUnits target '\r' = [target.unit 0x0d] := rfl

/-- A text. -/
theorem utf8Units_text {chars : List Char} (h0 : Char.ofNat 0 ∉ chars) (prev : Option Char)
    (rest : List UInt8) {n : Nat} (hn : (utf8Encode chars).length = n) :
    utf8Units target lfconv errcheck (prev.bind fun c ↦ (String.utf8EncodeChar c).getLast?)
        (utf8Encode chars ++ rest) n =
      ((if lfconv then crlf '\r' '\n' prev chars else chars).flatMap (charUnits target), true) := by
  induction chars generalizing prev n with
  | nil =>
    obtain rfl : 0 = n := hn
    have hnil : (if lfconv then crlf '\r' '\n' prev [] else []) = [] := by
      cases lfconv <;> rfl
    rw [hnil, utf8Encode, List.flatMap_nil, List.nil_append, List.flatMap_nil]
    cases rest with
    | nil => rw [utf8Units]
    | cons b bs => rw [utf8Units, utf8Round, if_pos rfl]
  | cons c cs ih =>
    rw [List.mem_cons, not_or] at h0
    rw [utf8Encode, List.flatMap_cons, ← utf8Encode, List.length_append] at hn
    rw [utf8Encode, List.flatMap_cons, ← utf8Encode, List.append_assoc,
      utf8Units_char target lfconv errcheck (Ne.symm h0.1) _ _ (by omega)]
    have ih := @ih h0.2 (some c) (n - (String.utf8EncodeChar c).length) (by omega)
    rw [Option.bind_some] at ih
    have hlf : c.toNat = 0x0a ↔ c = '\n' :=
      ⟨fun h ↦ by rw [← Char.ofNat_toNat c, h], fun h ↦ by rw [h]; rfl⟩
    rw [ih, crUnits]
    simp only [ne_eq, prev_cr, hlf]
    cases lfconv with
    | false => rfl
    | true =>
      rw [if_pos rfl, if_pos rfl, crlf]
      by_cases hc : c = '\n' ∧ prev ≠ some '\r'
      · rw [if_pos ⟨rfl, hc⟩, if_pos hc, List.flatMap_cons, List.flatMap_cons, charUnits_cr]
        rfl
      · rw [if_neg fun h ↦ hc h.2, if_neg hc, List.flatMap_cons, List.nil_append]
        rfl

end

/-! ## The paths -/

theorem uint32_ofNat_ne_zero {x : Nat} (hx : x < 0x100000000) (h0 : x ≠ 0) :
    UInt32.ofNat x ≠ 0 := by
  intro h
  refine h0 ?_
  rw [← uint32_toNat_ofNat hx, h]
  rfl

theorem charUnits_ucs2 (c : Char) : charUnits ucs2Target c = utf16EncodeChar c := by
  have hr := char_range c
  rw [charUnits]
  rcases Nat.lt_or_ge c.toNat 0x10000 with hbmp | hsup
  · rw [if_pos hbmp, utf16EncodeChar_one rfl hbmp]
    rfl
  · obtain ⟨u, hu⟩ : ∃ u, c.toNat = u + 0x10000 := ⟨c.toNat - 0x10000, by omega⟩
    obtain ⟨s, hs⟩ : ∃ s, u / 0x400 + 0x40 = s := ⟨_, rfl⟩
    obtain ⟨t, ht⟩ : ∃ t, u % 0x400 = t := ⟨_, rfl⟩
    rw [if_neg (Nat.not_lt.2 hsup), utf16EncodeChar_two rfl hu, hu, ucs2Target]
    dsimp only
    rw [show (u + 0x10000) / 262144 = s / 256 by omega,
      show (u + 0x10000) / 4096 % 64 = s / 4 % 64 by omega,
      show (u + 0x10000) / 64 % 64 = s % 4 * 16 + t / 64 by omega,
      show (u + 0x10000) % 64 = t % 64 by omega, wcode4Lead_eq (by omega) (by omega),
      wcode4Trail_eq (by omega), ht, show 0xd800 + s - 0x40 = 0xd800 + u / 0x400 by omega]
    rfl

section

variable {chars : List Char} (h0 : Char.ofNat 0 ∉ chars) {bufcount : Nat}
include h0

theorem zero_notMem_utf32Encode : 0 ∉ utf32Encode chars := by
  rw [utf32Encode, List.mem_map]
  rintro ⟨c, hc, hm⟩
  have hr := char_range c
  refine uint32_ofNat_ne_zero (by omega) ?_ hm
  intro hzero
  exact h0 (by rw [← hzero, Char.ofNat_toNat]; exact hc)

end

/-- What a converter that counts on leaves in a buffer of all units and a terminator, or of those
there is room for. -/
def filled {α : Type} [OfNat α 0] (units buf : List α) : List α :=
  CountingBuffer.overwrite buf
    (if units.length < buf.length then units ++ [0] else units.take buf.length)

theorem terminate_filled {α : Type} [OfNat α 0] (units buf behind : List α) :
    (CountingBuffer.holding buf.length (buf ++ behind) units).terminate buf.length 0 =
      some (filled units buf ++ behind) := by
  rw [CountingBuffer.terminate_holding (by rw [List.length_append]; omega), filled,
    overwrite_append]
  split
  · next h =>
    rw [List.length_append, List.length_singleton]
    exact h
  · exact List.length_take_le _ _

end PsqlOdbc
